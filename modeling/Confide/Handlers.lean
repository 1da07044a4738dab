import Confide.ApiJson
import Confide.Router

/-! The handlers of the transaction routes: what each asks of the service, and the response it sends. -/
namespace Confide

open Bytes Resumption

inductive HttpStatus where
  | ok | created | noContent | badRequest | unauthorized | forbidden | notFound | conflict | gone
  | unprocessableEntity | tooManyRequests | internalServerError | serviceUnavailable
  deriving DecidableEq, Repr

def statusFor : ErrCode → HttpStatus
  | .validation => .badRequest
  | .auth => .unauthorized
  | .forbidden => .forbidden
  | .notfound => .notFound
  | .conflict => .conflict
  | .gone => .gone
  | .integrity | .unknownDestination => .unprocessableEntity
  | .unavailable => .serviceUnavailable
  | .throttled => .tooManyRequests
  | .io | .internal => .internalServerError

variable [BoostJson]

def errorBody (err : Error) : Bytes :=
  BoostJson.serialize (.obj [(ascii "error",.str err.code.toString),(ascii "detail",.str err.detail)])

structure Response where
  status : HttpStatus
  body : Bytes := []
  contentType : Bytes := ascii "application/json"
  headers : List (Bytes × Bytes) := []
  deriving DecidableEq, Repr

namespace Response

def json (status : HttpStatus) (body : Bytes) : Response := { status := status, body := body }

def error (err : Error) : Response := { status := statusFor err.code, body := errorBody err }

def noContent : Response := { status := .noContent, contentType := [] }

end Response

def checksumHeader : Bytes := ascii "X-Checksum-SHA256"

/-- What a handler gets for one request. The body comes in parts and may break off with an error;
`carried` says whether the connection lasts until the response is out. -/
structure RequestContext where
  caller : Caller
  params : Params
  query : Params
  contentLength : Option Nat
  checksum : Bytes
  body : List Bytes
  broken : Option Error
  carried : Bool

structure HandlerOptions where
  maxJsonBytes : Nat

namespace RequestContext

variable (ctx : RequestContext)

def tooLarge : Error := ⟨.validation,ascii "request body too large"⟩

/-- The rest of the body as a text, after what has been read of it. -/
def readParts (maxBytes : Nat) : List Bytes → Bytes → Result Bytes
  | [], out => match ctx.broken with
    | some e => .error e
    | none => .ok out
  | part :: parts, out =>
    if maxBytes < out.length + part.length then .error tooLarge else readParts maxBytes parts (out ++ part)

def readBodyString (maxBytes : Nat) : Result Bytes :=
  match ctx.contentLength with
  | some length => if maxBytes < length then .error tooLarge else ctx.readParts maxBytes ctx.body []
  | none => ctx.readParts maxBytes ctx.body []

/-- A file goes out as it is, with its checksum in a header. -/
def sendFile (file : FileStore.Download) (sha256 : Sha256Digest) : Response where
  status := .ok
  body := file.content
  contentType := ascii "application/octet-stream"
  headers := [(checksumHeader,sha256.toHex)]

end RequestContext

namespace TransactionHandlers

variable (opts : ServiceOptions) (options : HandlerOptions) (ctx : RequestContext)

def idParam : Result TransactionId :=
  match ctx.params.lookup (ascii "id") with
  | none => fail .internal (ascii "route has no \x7bid\x7d")
  | some text => TransactionId.parse text

def pathParam : Result RelativePath :=
  match ctx.params.lookup (ascii "path") with
  | none => fail .internal (ascii "route has no \x7bpath*\x7d")
  | some text => RelativePath.parse text

/-- A header that is not there is as an empty one. -/
def expectedDigest : Result (Option Sha256Digest) :=
  if ctx.checksum = [] then .ok none
  else match Sha256Digest.fromHex ctx.checksum with
    | .ok digest => .ok (some digest)
    | .error e => fail .validation (checksumHeader ++ ascii ": " ++ e.detail)

/-- A transaction the caller may not see is reported as one that does not exist. -/
def fail (err : Error) : Response :=
  if err.code = .forbidden then Response.error ⟨.notfound,ascii "no such transaction"⟩ else Response.error err

def create : SvcM Response := do
  let body ← ensure (ctx.readBodyString options.maxJsonBytes)
  let req ← ensure (Api.decodeCreate body)
  let tx ← TransactionService.create opts ctx.caller req
  pure (Response.json .created (Api.encodeTransaction tx))

def boxOf : Result Box :=
  let text := (ctx.query.lookup (ascii "box")).getD (ascii "in")
  if text = ascii "in" then .ok .inbox
  else if text = ascii "out" then .ok .outbox
  else Confide.fail .validation (ascii "box must be 'in' or 'out'")

def list : SvcM Response := do
  let box ← ensure (boxOf ctx)
  let txs ← ExceptT.lift (TransactionService.list ctx.caller box)
  pure (Response.json .ok (Api.encodeTransactionList txs))

def get : SvcM Response := do
  let id ← ensure (idParam ctx)
  let tx ← TransactionService.get ctx.caller id
  pure (Response.json .ok (Api.encodeTransaction tx))

/-- The parts of the body are written as they come. -/
def writeBody (broken : Option Error) : List Bytes → PendingUpload → Prog Svc (Result Unit × PendingUpload)
  | [], pending => match broken with
    | some e => pure (.error e,pending)
    | none => pure (.ok (),pending)
  | part :: parts, pending => do
    let (written,pending) ← TransactionService.writeUpload pending part
    match written with
    | .error e => pure (.error e,pending)
    | .ok _ => writeBody broken parts pending

/-- The upload is let go of however the request ends. -/
def receiveBody (expected : Option Sha256Digest) (pending : PendingUpload) : Prog Svc (Result FileEntry) := do
  let (written,pending) ← writeBody ctx.broken ctx.body pending
  match written with
  | .error e => do
    let _over ← TransactionService.dropUpload pending
    pure (.error e)
  | .ok _ => do
    let (entry,pending) ← TransactionService.finishUpload pending expected
    let _over ← TransactionService.dropUpload pending
    pure entry

def upload : SvcM Response := do
  let id ← ensure (idParam ctx)
  let path ← ensure (pathParam ctx)
  let expected ← ensure (expectedDigest ctx)
  let pending ← TransactionService.beginUpload ctx.caller id path
  let entry ← tryCall (receiveBody ctx expected pending)
  pure (Response.json .created (Api.encodeFile entry))

def removeFile : SvcM Response := do
  let id ← ensure (idParam ctx)
  let path ← ensure (pathParam ctx)
  TransactionService.removeFile ctx.caller id path
  pure Response.noContent

def commit : SvcM Response := do
  let id ← ensure (idParam ctx)
  let tx ← TransactionService.commit ctx.caller id
  pure (Response.json .ok (Api.encodeTransaction tx))

def listFiles : SvcM Response := do
  let id ← ensure (idParam ctx)
  let tx ← TransactionService.get ctx.caller id
  pure (Response.json .ok (Api.encodeFiles tx.files))

/-- The download is on record only when all of it went out. -/
def download : SvcM Response := do
  let id ← ensure (idParam ctx)
  let path ← ensure (pathParam ctx)
  let file ← TransactionService.openDownload ctx.caller id path
  let tx ← TransactionService.get ctx.caller id
  match tx.findFile path with
  | none => throw (noFile path)
  | some entry =>
    if ctx.carried then
      ask (.env (.record { eventFor .downloaded tx ctx.caller with
        tx := id, actor := ctx.caller.name,
        file := some path.value, size := some entry.size, sha256 := some entry.sha256.toHex }))
    pure (RequestContext.sendFile file entry.sha256)

def receive : SvcM Response := do
  let body ← ensure (ctx.readBodyString options.maxJsonBytes)
  let req ← ensure (Api.decodeReceive body)
  let tx ← TransactionService.receive opts ctx.caller req
  pure (Response.json .created (Api.encodeTransaction tx))

end TransactionHandlers

namespace TransactionHandler

variable (opts : ServiceOptions) (options : HandlerOptions) (ctx : RequestContext)

def run : TransactionHandler → SvcM Response
  | .create => TransactionHandlers.create opts options ctx
  | .list => TransactionHandlers.list ctx
  | .get => TransactionHandlers.get ctx
  | .commit => TransactionHandlers.commit ctx
  | .listFiles => TransactionHandlers.listFiles ctx
  | .upload => TransactionHandlers.upload ctx
  | .download => TransactionHandlers.download ctx
  | .removeFile => TransactionHandlers.removeFile ctx
  | .receive => TransactionHandlers.receive opts options ctx

def respond (fn : TransactionHandler) : Prog Svc Response := do
  let result ← (fn.run opts options ctx).run
  match result with
  | .ok response => pure response
  | .error e => pure (TransactionHandlers.fail e)

end TransactionHandler
end Confide
