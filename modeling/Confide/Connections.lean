import Confide.Directory
import Confide.Handlers
import Confide.Streams

/-! One connection of the HTTP server. Requests are read one after the other from a stream of bytes; the body of a request is
read only as far as its handler asks for it, and a connection with bytes of a body left over is not used again. The
parser is the library's and is known by its framing only. -/
namespace Confide

open Bytes Resumption Streams

/-- The request line, and the fields the server looks at. Whether the client wants to keep the connection is worked out by
the library. -/
structure RequestHeader where
  method : Verb
  target : Bytes
  version : Nat
  keepAlive : Bool
  expect : Bytes
  authorization : Bytes
  checksum : Bytes
  contentLength : Option Nat
  deriving DecidableEq

inductive HeaderFault where
  | endOfStream | headerLimit | timeout | malformed (message : Bytes)

inductive BodyFault where
  | bodyLimit | failed (message : Bytes)

inductive WireStatus where
  | of (status : HttpStatus) | methodNotAllowed | payloadTooLarge
  deriving DecidableEq, Repr

def setField (fields : List (Bytes × Bytes)) (field : Bytes × Bytes) : List (Bytes × Bytes) :=
  fields.filter (fun other => !iequals other.1 field.1) ++ [field]

structure ResponseHead where
  status : WireStatus
  version : Nat
  fields : List (Bytes × Bytes)
  keepAlive : Bool
  deriving DecidableEq, Repr

/-- What is written to a client. A file goes out behind its header, part by part, up to an empty part. -/
inductive Outbound where
  | continue
  | response (head : ResponseHead) (body : Bytes)
  | fileHeader (head : ResponseHead) (size : UInt64)
  | filePart (part : Bytes)
  deriving DecidableEq, Repr

/-- What a handler can do with a request, besides the calls of its own. -/
inductive ExchangeCall (sig : Signature) where
  | readBody (room : Nat)
  | readBodyString (maxBytes : Nat)
  | send (response : Response)
  | sendFile (size : UInt64) (sha256 : Sha256Digest)
  | responded
  | inner (c : sig.Call)

abbrev ExchangeCall.Reply {sig : Signature} : ExchangeCall sig → Type
  | .readBody _ | .readBodyString _ => Result Bytes
  | .send _ | .sendFile _ _ => Result Unit
  | .responded => Bool
  | .inner c => sig.Reply c

abbrev Exchange (sig : Signature) : Signature := ⟨ExchangeCall sig,ExchangeCall.Reply⟩

/-- What the server does on a connection: the operations of the socket, the next part of a file that goes out, the
authenticator, and what the handlers call. A write that fails says why. -/
inductive NetCall (f : Framing UInt8 RequestHeader) (sig : Signature) where
  | readHeader
  | readSome (body : f.Body) (room : Nat)
  | write (out : Outbound)
  | readFile (room : Nat)
  | authenticate (access : Access) (request : RequestHeader) (source : Bytes)
  | inner (c : sig.Call)

abbrev NetCall.Reply {f : Framing UInt8 RequestHeader} {sig : Signature} : NetCall f sig → Type
  | .readHeader => Except HeaderFault (RequestHeader × f.Body)
  | .readSome _ _ => Except BodyFault (Bytes × f.Body)
  | .write _ => Except Bytes Unit
  | .readFile _ => Result Bytes
  | .authenticate _ _ _ => Result Caller
  | .inner c => sig.Reply c

abbrev Net (f : Framing UInt8 RequestHeader) (sig : Signature) : Signature := ⟨NetCall f sig,NetCall.Reply⟩

/-- A loop that goes round more often than is looked at ends in the error. -/
abbrev ServeM (f : Framing UInt8 RequestHeader) (sig : Signature) (α : Type) := ExceptT Unit (Prog (Net f sig)) α

variable {f : Framing UInt8 RequestHeader} {sig : Signature}

def net (c : NetCall f sig) : ServeM f sig c.Reply := ExceptT.lift (@Prog.perform (Net f sig) c)

def serverName : Bytes := ascii "confide"

/-- The status stands beside the response, as the server has two that go with no error. -/
def writeResponse (version : Nat) (keepAlive : Bool) (status : WireStatus) (response : Response) :
    ServeM f sig Bool := do
  let fields := setField [] (ascii "Server",serverName)
  let fields := if response.contentType = [] then fields else setField fields (ascii "Content-Type",response.contentType)
  let written ← net (.write (.response ⟨status,version,response.headers.foldl setField fields,keepAlive⟩ response.body))
  pure written.isOk

structure SessionExchange (f : Framing UInt8 RequestHeader) where
  request : RequestHeader
  body : f.Body
  responded : Bool := false
  continueSent : Bool := false
  close : Bool := false

namespace SessionExchange

def isDone (ex : SessionExchange f) : Bool := f.done ex.body

/-- The bytes of a body that is not read to its end would be taken for the next request. -/
def keepAlive (ex : SessionExchange f) : Bool := !ex.close && ex.request.keepAlive && ex.isDone

def mustClose (ex : SessionExchange f) : Bool := ex.close || !ex.keepAlive

def shut (ex : SessionExchange f) : SessionExchange f := { ex with close := true }

def sendContinue (ex : SessionExchange f) : ServeM f sig (Bool × SessionExchange f) :=
  if ex.continueSent || ex.isDone then pure (true,ex)
  else do
    let ex := { ex with continueSent := true }
    if !iequals ex.request.expect (ascii "100-continue") then pure (true,ex)
    else do
      let written ← net (.write .continue)
      pure (written.isOk,ex)

def readLoop (room : Nat) : Nat → SessionExchange f → ServeM f sig (Result Bytes × SessionExchange f)
  | 0, _ => throw ()
  | turns + 1, ex =>
    if ex.isDone then pure (.ok [],ex)
    else do
      let got ← net (.readSome ex.body room)
      match got with
      | .error .bodyLimit => pure (.error ⟨.validation,ascii "request body too large"⟩,ex.shut)
      | .error (.failed message) =>
        pure (.error ⟨.unavailable,ascii "reading request body: " ++ message⟩,ex.shut)
      | .ok (part,body) =>
        let ex := { ex with body := body }
        if part ≠ [] then pure (.ok part,ex) else readLoop room turns ex

/-- The next part of the body; an empty one at its end. -/
def readBody (turns room : Nat) (ex : SessionExchange f) : ServeM f sig (Result Bytes × SessionExchange f) :=
  if ex.close then pure (.error ⟨.unavailable,ascii "connection closed"⟩,ex)
  else do
    let (sent,ex) ← ex.sendContinue
    if !sent then pure (.error ⟨.unavailable,ascii "write of 100-continue failed"⟩,ex)
    else readLoop room turns ex

def stringLoop (reads maxBytes room : Nat) :
    Nat → Bytes → SessionExchange f → ServeM f sig (Result Bytes × SessionExchange f)
  | 0, _, _ => throw ()
  | turns + 1, out, ex => do
    let (got,ex) ← ex.readBody reads room
    match got with
    | .error e => pure (.error e,ex)
    | .ok part =>
      if part = [] then pure (.ok out,ex)
      else if maxBytes < out.length + part.length then pure (.error RequestContext.tooLarge,ex.shut)
      else stringLoop reads maxBytes room turns (out ++ part) ex

/-- A buffer of one byte more than may be read, up to 64 KiB. -/
def readBodyString (turns maxBytes : Nat) (ex : SessionExchange f) : ServeM f sig (Result Bytes × SessionExchange f) :=
  let room := min ((maxBytes + 1) % 2^64) (64 * 1024)
  match ex.request.contentLength with
  | some length =>
    if maxBytes < length then pure (.error RequestContext.tooLarge,ex)
    else stringLoop turns maxBytes room turns [] ex
  | none => stringLoop turns maxBytes room turns [] ex

def send (status : WireStatus) (response : Response) (ex : SessionExchange f) :
    ServeM f sig (Result Unit × SessionExchange f) := do
  let ex := { ex with responded := true }
  let written ← writeResponse ex.request.version ex.keepAlive status response
  if !written then pure (.error ⟨.unavailable,ascii "writing response failed"⟩,ex.shut)
  else pure (.ok (),ex)

/-- The header is out by now: when the file cannot be read on, the client sees a body that is too short. -/
def fileLoop (size : UInt64) : Nat → UInt64 → SessionExchange f → ServeM f sig (Result Unit × SessionExchange f)
  | 0, _, _ => throw ()
  | turns + 1, sent, ex => do
    let got ← net (.readFile chunkBytes)
    match got with
    | .error e => pure (.error e,ex.shut)
    | .ok part =>
      let sent := sent + UInt64.ofNat part.length
      if part = [] ∧ sent ≠ size then pure (.error ⟨.io,ascii "file shrank while sending"⟩,ex.shut)
      else do
        let written ← net (.write (.filePart part))
        match written with
        | .error message => pure (.error ⟨.unavailable,ascii "writing response body: " ++ message⟩,ex.shut)
        | .ok _ => if part = [] then pure (.ok (),ex) else fileLoop size turns sent ex

def sendFile (turns : Nat) (size : UInt64) (sha256 : Sha256Digest) (ex : SessionExchange f) :
    ServeM f sig (Result Unit × SessionExchange f) := do
  let ex := { ex with responded := true }
  let fields := [(ascii "Server",serverName),(ascii "Content-Type",ascii "application/octet-stream"),
    (checksumHeader,sha256.toHex)]
  let written ← net (.write (.fileHeader ⟨.of .ok,ex.request.version,fields,ex.keepAlive⟩ size))
  match written with
  | .error message => pure (.error ⟨.unavailable,ascii "writing response header: " ++ message⟩,ex.shut)
  | .ok _ => fileLoop size turns 0 ex

def serve (turns : Nat) {α : Type} : Prog (Exchange sig) α → SessionExchange f → ServeM f sig (α × SessionExchange f)
  | .ret value, ex => pure (value,ex)
  | .call (.readBody room) next, ex => do
    let (reply,ex) ← ex.readBody turns room
    serve turns (next reply) ex
  | .call (.readBodyString maxBytes) next, ex => do
    let (reply,ex) ← ex.readBodyString turns maxBytes
    serve turns (next reply) ex
  | .call (.send response) next, ex => do
    let (reply,ex) ← ex.send (.of response.status) response
    serve turns (next reply) ex
  | .call (.sendFile size sha256) next, ex => do
    let (reply,ex) ← ex.sendFile turns size sha256
    serve turns (next reply) ex
  | .call .responded next, ex => serve turns (next ex.responded) ex
  | .call (.inner c) next, ex => do
    let reply ← net (.inner c)
    serve turns (next reply) ex

end SessionExchange

structure RequestInfo where
  request : RequestHeader
  caller : Caller
  params : Params
  query : Params

/-- How a handler ends; it may throw, and its loops may go round more often than is looked at. -/
inductive Outcome where
  | returned | threw (what : Bytes) | unfinished

structure HttpServer (sig : Signature) where
  router : Router
  handlers : Handler → RequestInfo → Prog (Exchange sig) Outcome

variable [BoostJson]

namespace HttpServer

def challenge (access : Access) : Bytes × Bytes :=
  (ascii "WWW-Authenticate",
    if access = .peer then ascii "Bearer realm=\"confide-peer\"" else ascii "Basic realm=\"confide\"")

def refusal (access : Access) (err : Error) : Response :=
  let res := Response.error err
  if err.code = .auth then { res with headers := res.headers ++ [challenge access] } else res

variable (server : HttpServer sig) (turns : Nat) (source : Bytes)

def handle (fn : Option Handler) (info : RequestInfo) (ex : SessionExchange f) :
    ServeM f sig (Outcome × SessionExchange f) :=
  match fn with
  | some fn => ex.serve turns (server.handlers fn info)
  | none => pure (.threw (ascii "bad_function_call"),ex)

/-- A handler that throws or falls silent before it has answered is answered for. -/
def conclude (what : Bytes) (ex : SessionExchange f) : ServeM f sig (SessionExchange f) :=
  if (what ≠ [] ∨ ex.responded = false) ∧ ex.responded = false then do
    let (_,ex) ← ex.send (.of .internalServerError) (Response.error ⟨.internal,ascii "internal error"⟩)
    pure ex
  else pure ex

def dispatch (ex : SessionExchange f) : ServeM f sig (SessionExchange f) :=
  match server.router.matchTarget ex.request.method ex.request.target with
  | .error e => do
    let res := Response.error e
    let (_,ex) ← ex.send (if e.code = .conflict then .methodNotAllowed else .of res.status) res
    pure ex
  | .ok found => do
    let caller ← net (.authenticate found.route.access ex.request source)
    match caller with
    | .error e => do
      let res := refusal found.route.access e
      let (_,ex) ← ex.send (.of res.status) res
      pure ex
    | .ok caller => do
      let (outcome,ex) ← server.handle turns found.route.handler ⟨ex.request,caller,found.params,found.query⟩ ex
      match outcome with
      | .unfinished => throw ()
      | .returned => conclude [] ex
      | .threw what => conclude what ex

/-- Requests one after the other, until the connection cannot carry another. -/
def serveRequests : Nat → ServeM f sig Unit
  | 0 => throw ()
  | rounds + 1 => do
    let read ← net .readHeader
    match read with
    | .error .endOfStream => pure ()
    | .error .headerLimit => do
      let tooLarge : Error := ⟨.validation,ascii "request header too large"⟩
      let _written ← writeResponse 11 false .payloadTooLarge { status := .ok, body := errorBody tooLarge }
      pure ()
    | .error .timeout => pure ()
    | .error (.malformed message) => do
      let res := Response.error ⟨.validation,message⟩
      let _written ← writeResponse 11 false (.of res.status) res
      pure ()
    | .ok (request,body) => do
      let ex ← server.dispatch turns source { request := request, body := body }
      if ex.mustClose then pure () else serveRequests rounds

end HttpServer

def exchange (c : ExchangeCall sig) : Prog (Exchange sig) c.Reply := @Prog.perform (Exchange sig) c

def sendError (response : Response) : Prog (Exchange sig) Unit := do
  let answered ← @exchange sig .responded
  if answered then pure ()
  else do
    let _sent ← @exchange sig (.send response)
    pure ()

def sendResult (fail : Error → Prog (Exchange sig) Unit) (p : ExceptT Error (Prog (Exchange sig)) Response) :
    Prog (Exchange sig) Outcome := do
  let result ← p.run
  match result with
  | .error e => do
    fail e
    pure .returned
  | .ok response => do
    let _sent ← @exchange sig (.send response)
    pure .returned

/-! The handlers of the transaction routes, at work on an exchange. -/

abbrev WireM (α : Type) := ExceptT Error (Prog (Exchange Svc)) α

def inService {α : Type} (p : Prog Svc α) : Prog (Exchange Svc) α := p.interpret fun c => exchange (.inner c)

def serviceCall {α : Type} (p : SvcM α) : WireM α := ExceptT.mk (inService p.run)

/-- The context of a handler that does not look at the body. -/
def RequestInfo.context (info : RequestInfo) : RequestContext where
  caller := info.caller
  params := info.params
  query := info.query
  contentLength := info.request.contentLength
  checksum := info.request.checksum
  body := []
  broken := none
  carried := true

namespace WireHandlers

variable (opts : ServiceOptions) (options : HandlerOptions) (turns : Nat) (info : RequestInfo)

def fail (err : Error) : Prog (Exchange Svc) Unit := sendError (TransactionHandlers.fail err)

def answer (p : WireM Response) : Prog (Exchange Svc) Outcome := sendResult fail p

def create : WireM Response := do
  let body ← ExceptT.mk (exchange (.readBodyString options.maxJsonBytes))
  let req ← ensure (Api.decodeCreate body)
  let tx ← serviceCall (TransactionService.create opts info.caller req)
  pure (Response.json .created (Api.encodeTransaction tx))

def receive : WireM Response := do
  let body ← ExceptT.mk (exchange (.readBodyString options.maxJsonBytes))
  let req ← ensure (Api.decodeReceive body)
  let tx ← serviceCall (TransactionService.receive opts info.caller req)
  pure (Response.json .created (Api.encodeTransaction tx))

def writeBody : Nat → PendingUpload → Prog (Exchange Svc) (Option (Result Unit × PendingUpload))
  | 0, _ => pure none
  | turns + 1, pending => do
    let got ← exchange (.readBody chunkBytes)
    match got with
    | .error e => pure (some (.error e,pending))
    | .ok part =>
      if part = [] then pure (some (.ok (),pending))
      else do
        let (written,pending) ← inService (TransactionService.writeUpload pending part)
        match written with
        | .error e => pure (some (.error e,pending))
        | .ok _ => writeBody turns pending

/-- The upload is let go of when the request has been answered. -/
def endUpload (result : Result FileEntry) (pending : PendingUpload) : Prog (Exchange Svc) Outcome := do
  let _answered ← answer (do
    let entry ← ensure result
    pure (Response.json .created (Api.encodeFile entry)))
  let _over ← inService (TransactionService.dropUpload pending)
  pure .returned

def startUpload : SvcM (Option Sha256Digest × PendingUpload) := do
  let id ← ensure (TransactionHandlers.idParam info.context)
  let path ← ensure (TransactionHandlers.pathParam info.context)
  let expected ← ensure (TransactionHandlers.expectedDigest info.context)
  let pending ← TransactionService.beginUpload info.caller id path
  pure (expected,pending)

def upload : Prog (Exchange Svc) Outcome := do
  let begun ← inService (startUpload info).run
  match begun with
  | .error e => do
    fail e
    pure .returned
  | .ok (expected,pending) => do
    let written ← writeBody turns pending
    match written with
    | none => pure .unfinished
    | some (.error e,pending) => endUpload (.error e) pending
    | some (.ok _,pending) => do
      let (entry,pending) ← inService (TransactionService.finishUpload pending expected)
      endUpload entry pending

def openFile : SvcM (TransactionId × RelativePath × FileStore.Download × Transaction × FileEntry) := do
  let id ← ensure (TransactionHandlers.idParam info.context)
  let path ← ensure (TransactionHandlers.pathParam info.context)
  let file ← TransactionService.openDownload info.caller id path
  let tx ← TransactionService.get info.caller id
  match tx.findFile path with
  | none => throw (noFile path)
  | some entry => pure (id,path,file,tx,entry)

/-- The download is on record only when all of it went out. -/
def download : Prog (Exchange Svc) Outcome := do
  let found ← inService (openFile info).run
  match found with
  | .error e => do
    fail e
    pure .returned
  | .ok (id,path,file,tx,entry) => do
    let sent ← exchange (.sendFile file.size entry.sha256)
    match sent with
    | .error _ => pure .returned
    | .ok _ => do
      let _recorded ← inService (svc (.env (.record { eventFor .downloaded tx info.caller with
        tx := id, actor := info.caller.name,
        file := some path.value, size := some entry.size, sha256 := some entry.sha256.toHex })))
      pure .returned

def run : TransactionHandler → Prog (Exchange Svc) Outcome
  | .create => answer (create opts options info)
  | .list => answer (serviceCall (TransactionHandlers.list info.context))
  | .get => answer (serviceCall (TransactionHandlers.get info.context))
  | .commit => answer (serviceCall (TransactionHandlers.commit info.context))
  | .listFiles => answer (serviceCall (TransactionHandlers.listFiles info.context))
  | .upload => upload turns info
  | .download => download info
  | .removeFile => answer (serviceCall (TransactionHandlers.removeFile info.context))
  | .receive => answer (receive opts options info)

end WireHandlers
end Confide
