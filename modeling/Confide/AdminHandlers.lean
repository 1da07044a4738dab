import Confide.Authentication
import Confide.LogReader

/-! The handlers of the login routes and of the admin routes, at work on an exchange, and a server with all its handlers. -/
namespace Confide

open Bytes Resumption

/-- What handlers call: the service, the authenticator with its sessions, and the files of the business log. -/
inductive AppCall where
  | service (c : SvcCall)
  | front (c : FrontCall)
  | openLog (path : Bytes)

abbrev AppCall.Reply : AppCall → Type
  | .service c => c.Reply
  | .front c => c.Reply
  | .openLog _ => LogFile

abbrev App : Signature := ⟨AppCall,AppCall.Reply⟩

abbrev AppM (α : Type) := ExceptT Error (Prog (Exchange App)) α

section Calls

variable {α : Type}

def ofService (p : Prog Svc α) : Prog (Exchange App) α := p.interpret fun c => @exchange App (.inner (.service c))

def ofFront (p : Prog Front α) : Prog (Exchange App) α := p.interpret fun c => @exchange App (.inner (.front c))

/-- A call of a handler that calls nothing but the service. -/
def ExchangeCall.onApp : (c : ExchangeCall Svc) → Prog (Exchange App) c.Reply
  | .readBody room => @exchange App (.readBody room)
  | .readBodyString maxBytes => @exchange App (.readBodyString maxBytes)
  | .send response => @exchange App (.send response)
  | .sendFile size sha256 => @exchange App (.sendFile size sha256)
  | .responded => @exchange App .responded
  | .inner c => @exchange App (.inner (.service c))

def onApp (p : Prog (Exchange Svc) α) : Prog (Exchange App) α := p.interpret ExchangeCall.onApp

/-- The second file is opened only when there is room for its lines. -/
def readLog (path : Bytes) (query : BizLogQuery) : AppM (List Bytes) :=
  if query.limit = 0 ∨ query.«to» ≤ query.from then pure []
  else do
    let rotated ← ExceptT.lift (@exchange App (.inner (.openLog (path ++ ascii ".1"))))
    let (out,more) ← ensure (query.scan (path ++ ascii ".1") rotated [])
    if more then do
      let current ← ExceptT.lift (@exchange App (.inner (.openLog path)))
      let (out,_) ← ensure (query.scan path current out)
      pure out
    else pure out

end Calls

variable [BoostJson]

namespace AuthHandlers

variable (info : RequestInfo)

def login : Prog (Exchange App) Outcome := do
  let issued ← ofFront (front (.issue info.caller.name .user))
  let _sent ← @exchange App (.send (tokenResponse info.caller.name issued))
  pure .returned

def logout : Prog (Exchange App) Outcome := do
  ofFront (Authenticator.revokeToken info.request.authorization)
  let _sent ← @exchange App (.send Response.noContent)
  pure .returned

end AuthHandlers

structure PeerView where
  name : Bytes
  host : Bytes
  port : UInt16

structure ServerStatus where
  «instance» : Bytes
  version : Bytes
  authProvider : Bytes
  startedAt : Int
  now : Int
  peers : List PeerView
  transactions : List (Bytes × Nat)
  outgoing : Nat
  sessions : Nat

def Api.encodeStatus (status : ServerStatus) : Bytes := BoostJson.serialize (.obj
  [(ascii "instance",.str status.instance),
   (ascii "version",.str status.version),
   (ascii "auth_provider",.str status.authProvider),
   (ascii "started_at",.str (formatIso8601 status.startedAt)),
   (ascii "uptime_s",.int (status.now - status.startedAt)),
   (ascii "peers",.arr (status.peers.map fun p =>
     .obj [(ascii "name",.str p.name),(ascii "host",.str p.host),(ascii "port",.int p.port.toNat)])),
   (ascii "transactions",.obj (status.transactions.map fun (state,n) => (state,.int n))),
   (ascii "outgoing",.int status.outgoing),
   (ascii "sessions",.int status.sessions)])

/-- No log file is an empty path. -/
structure AdminOptions where
  businessLog : Bytes := []
  defaultLogLines : Nat := 1000
  maxLogLines : Nat := 10000
  maxJsonBytes : Nat := 64 * 1024
  «instance» : Bytes := []
  version : Bytes := []
  authProvider : Bytes := []
  peers : List PeerView := []

namespace AdminHandlers

variable (opts : ServiceOptions) (options : AdminOptions) (startedAt : Int) (info : RequestInfo)

def timeQuery (key : Bytes) : Result (Option Int) :=
  match info.query.lookup key with
  | none => .ok none
  | some text => match parseIso8601 text with
    | .ok ts => .ok (some ts)
    | .error _ => Confide.fail .validation (key ++ ascii ": expected YYYY-MM-DDTHH:MM:SSZ")

def filterFrom : Result AdminFilter := do
  let state ← match info.query.lookup (ascii "state") with
    | none => .ok none
    | some text => (parseState text).map some
  let after ← timeQuery info (ascii "from")
  let before ← timeQuery info (ascii "to")
  return ⟨(info.query.lookup (ascii "user")).getD [],state,after,before⟩

def login : AppM Response := do
  let issued ← ExceptT.mk (ofFront (front (.issue info.caller.name .admin)))
  pure (tokenResponse info.caller.name (.ok issued))

def logout : AppM Response := do
  ExceptT.lift (ofFront (Authenticator.revokeToken info.request.authorization))
  pure Response.noContent

def list : AppM Response := do
  let filter ← ensure (filterFrom info)
  let txs ← ExceptT.lift (ofService (TransactionService.adminList info.caller filter))
  pure (Response.json .ok (Api.encodeAdminTransactionList txs))

def get : AppM Response := do
  let id ← ensure (TransactionHandlers.idParam info.context)
  let tx ← ExceptT.mk (ofService (TransactionService.adminGet info.caller id).run)
  pure (Response.json .ok (Api.encodeAdminTransaction tx))

def remove : AppM Response := do
  let id ← ensure (TransactionHandlers.idParam info.context)
  ExceptT.mk (ofService (TransactionService.adminDelete info.caller id).run)
  pure Response.noContent

def retention : AppM Response := do
  let id ← ensure (TransactionHandlers.idParam info.context)
  let body ← ExceptT.mk (@exchange App (.readBodyString options.maxJsonBytes))
  let days ← ensure (Api.decodeRetention body)
  let tx ← ExceptT.mk (ofService (TransactionService.setRetention opts info.caller id days).run)
  pure (Response.json .ok (Api.encodeAdminTransaction tx))

/-- How many transactions there are of each state that there is, in the order of the names. -/
def countStates (txs : List Transaction) : List (Bytes × Nat) :=
  [State.committed,.delivered,.expired,.open].filterMap fun state =>
    let n := txs.countP fun tx => tx.state = state
    if n = 0 then none else some (state.toString,n)

def status : AppM Response := do
  let now ← ExceptT.lift (ofService (svc (.env .now)))
  let outgoing ← ExceptT.lift (ofService TransactionService.listOutgoing)
  let sessions ← ExceptT.lift (ofFront (front .sessions))
  let txs ← ExceptT.lift (ofService (TransactionService.adminList info.caller ⟨[],none,none,none⟩))
  pure (Response.json .ok (Api.encodeStatus ⟨options.instance,options.version,options.authProvider,startedAt,now,options.peers,
    countStates txs,outgoing.length,sessions.length⟩))

def sessions : AppM Response := do
  let listed ← ExceptT.lift (ofFront (front .sessions))
  pure (Response.json .ok (Api.encodeSessions listed))

def revokeUser : AppM Response :=
  match info.params.lookup (ascii "user") with
  | none => throw ⟨.internal,ascii "route has no \x7buser\x7d"⟩
  | some user => do
    let count ← ExceptT.lift (ofFront (front (.revokeUser user)))
    ExceptT.lift (ofService (svc (.env (.record
      { type := .sessionsRevoked, tx := none, actor := info.caller.name, subject := user }))))
    pure (Response.json .ok (Api.encodeRevoked user count))

def logLimit : Result Nat :=
  let invalid : Result Nat := Confide.fail .validation (ascii "limit must be 1.." ++ decimal options.maxLogLines)
  match info.query.lookup (ascii "limit") with
  | none => .ok options.defaultLogLines
  | some text => match fromChars (2^64 - 1) text with
    | some (limit,[]) => if limit = 0 ∨ options.maxLogLines < limit then invalid else .ok limit
    | _ => invalid

def log : AppM Response := do
  refuse (options.businessLog = []) ⟨.notfound,ascii "no business log file"⟩
  let «from» ← ensure (timeQuery info (ascii "from"))
  match «from» with
  | none => throw ⟨.validation,ascii "from is required (YYYY-MM-DDTHH:MM:SSZ)"⟩
  | some «from» => do
    let «to» ← ensure (timeQuery info (ascii "to"))
    let limit ← ensure (logLimit options info)
    let now ← ExceptT.lift (ofService (svc (.env .now)))
    let lines ← readLog options.businessLog ⟨«from»,«to».getD (now + 1),limit⟩
    pure { Response.json .ok (written lines) with contentType := ascii "application/x-ndjson" }

def fail (err : Error) : Prog (Exchange App) Unit := sendError (Response.error err)

def answer (p : AppM Response) : Prog (Exchange App) Outcome := sendResult fail p

def run : AdminHandler → Prog (Exchange App) Outcome
  | .login => answer (login info)
  | .logout => answer (logout info)
  | .list => answer (list info)
  | .get => answer (get info)
  | .remove => answer (remove info)
  | .retention => answer (retention opts options info)
  | .status => answer (status options startedAt info)
  | .sessions => answer sessions
  | .revokeUser => answer (revokeUser info)
  | .log => answer (log options info)

end AdminHandlers

/-- What the handlers of a server are made with. -/
structure ApiOptions where
  service : ServiceOptions
  transactions : HandlerOptions
  admin : AdminOptions
  startedAt : Int

/-- The server, with the routes it has been given. -/
def ApiOptions.server (api : ApiOptions) (turns : Nat) (router : Router) : HttpServer App where
  router := router
  handlers fn info := match fn with
    | .transaction fn => onApp (WireHandlers.run api.service api.transactions turns info fn)
    | .auth .login => AuthHandlers.login info
    | .auth .logout => AuthHandlers.logout info
    | .admin fn => AdminHandlers.run api.service api.admin api.startedAt info fn

end Confide
