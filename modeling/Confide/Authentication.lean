import Confide.Base64
import Confide.Connections
import Confide.Interleaving
import Confide.LoginLimiter
import Confide.PeerTokens
import Confide.Requests

/-! Who sent a request. The authenticator asks the directory, the sessions and the login limiter, each behind a lock of its
own, so requests that are served side by side interleave between these calls; the directory and the clock go on meanwhile. -/
namespace Confide

open Bytes Resumption

inductive FrontCall where
  | check (user source : Bytes)
  | verify (user password : Bytes)
  | succeeded (user source : Bytes)
  | failed (user source : Bytes)
  | isMember (user group : Bytes)
  | verifyToken (token : Bytes) (scope : Scope)
  | issue (user : Bytes) (scope : Scope)
  | revoke (token : Bytes)
  | revokeUser (user : Bytes)
  | sessions
  deriving DecidableEq

abbrev FrontCall.Reply : FrontCall → Type
  | .check _ _ => Result Unit
  | .verify _ _ | .verifyToken _ _ => Result Bytes
  | .succeeded _ _ | .failed _ _ | .revoke _ => Unit
  | .isMember _ _ => Bool
  | .issue _ _ => Result IssuedToken
  | .revokeUser _ => Nat
  | .sessions => List Session

abbrev Front : Signature := ⟨FrontCall,FrontCall.Reply⟩

abbrev FrontM (α : Type) := ExceptT Error (Prog Front) α

def front (c : FrontCall) : Prog Front c.Reply := @Prog.perform Front c

structure AuthSettings where
  sha256 : Bytes → Sha256Digest
  adminGroup : Bytes
  peers : List Peer
  sessions : SessionOptions
  limits : LoginLimiterOptions

namespace Authenticator

/-- The name and the password of a Basic header; they are parted at the first colon. -/
def basicCredentials (authorization : Bytes) : Result (Bytes × Bytes) :=
  if authorization = [] then denied (ascii "missing Authorization header")
  else match credentials authorization (ascii "Basic") with
    | none => denied (ascii "expected Basic credentials")
    | some encoded => match base64Decode encoded with
      | .error _ => denied (ascii "malformed Basic credentials")
      | .ok pair =>
        if 58 ∈ pair then .ok (pair.takeWhile (· ≠ 58),(pair.dropWhile (· ≠ 58)).drop 1)
        else denied (ascii "malformed Basic credentials")

/-- The limiter is asked before the directory. A directory that cannot be reached counts as no failure. -/
def authenticatePassword (authorization source : Bytes) : FrontM Bytes := do
  let (user,password) ← ensure (basicCredentials authorization)
  ExceptT.mk (front (.check user source))
  let name ← ExceptT.lift (front (.verify user password))
  match name with
  | .ok name => do
    ExceptT.lift (front (.succeeded user source))
    pure name
  | .error e => do
    if e.code = .auth then ExceptT.lift (front (.failed user source))
    throw e

variable (cfg : AuthSettings)

def requireAdmin (user : Bytes) : FrontM Bytes := do
  let forbidden : Error := ⟨.forbidden,ascii "admin rights required, " ++ user ++ ascii " has none"⟩
  if cfg.adminGroup = [] then throw forbidden
  let member ← ExceptT.lift (front (.isMember user cfg.adminGroup))
  if member then pure user else throw forbidden

def authenticateUser (authorization source : Bytes) : FrontM Bytes :=
  match credentials authorization (ascii "Bearer") with
  | some token => ExceptT.mk (front (.verifyToken token .user))
  | none => authenticatePassword authorization source

def authenticateAdminPassword (authorization source : Bytes) : FrontM Bytes := do
  let user ← authenticatePassword authorization source
  requireAdmin cfg user

def authenticateAdmin (authorization source : Bytes) : FrontM Bytes :=
  match credentials authorization (ascii "Bearer") with
  | some token => do
    let user ← ExceptT.mk (front (.verifyToken token .admin))
    requireAdmin cfg user
  | none => authenticateAdminPassword cfg authorization source

def revokeToken (authorization : Bytes) : Prog Front Unit :=
  match credentials authorization (ascii "Bearer") with
  | some token => front (.revoke token)
  | none => pure ()

def caller (access : Access) (authorization source : Bytes) : FrontM Caller :=
  match access with
  | .peer => do
    let name ← ensure (authenticatePeer cfg.sha256 cfg.peers authorization)
    pure ⟨name,true,false⟩
  | .password => do
    let name ← authenticatePassword authorization source
    pure ⟨name,false,false⟩
  | .admin => do
    let name ← authenticateAdmin cfg authorization source
    pure ⟨name,false,true⟩
  | .adminPassword => do
    let name ← authenticateAdminPassword cfg authorization source
    pure ⟨name,false,true⟩
  | .user => do
    let name ← authenticateUser authorization source
    pure ⟨name,false,false⟩

end Authenticator

variable [BoostJson]

namespace Api

def encodeToken (token user : Bytes) (expiresAt : Int) : Bytes :=
  BoostJson.serialize (.obj [(ascii "token",.str token),(ascii "user",.str user),
    (ascii "expires_at",.str (formatIso8601 expiresAt))])

def encodeSession (s : Session) : Json :=
  .obj [(ascii "user",.str s.user),(ascii "scope",.str (if s.scope = .admin then ascii "admin" else ascii "user")),
    (ascii "created",.str (formatIso8601 s.created)),(ascii "last_used",.str (formatIso8601 s.lastUsed)),
    (ascii "expires_at",.str (formatIso8601 s.expiresAt))]

def encodeSessions (sessions : List Session) : Bytes :=
  BoostJson.serialize (.obj [(ascii "sessions",.arr (sessions.map encodeSession))])

def encodeRevoked (user : Bytes) (count : Nat) : Bytes :=
  BoostJson.serialize (.obj [(ascii "user",.str user),(ascii "revoked",.int count)])

end Api

def tokenResponse (user : Bytes) : Result IssuedToken → Response
  | .error e => Response.error e
  | .ok issued =>
    { Response.json .ok (Api.encodeToken issued.token user issued.expiresAt) with
      headers := [(ascii "Cache-Control",ascii "no-store")] }

/-- A request for one of the routes of the server, with the header and the address it came with. -/
structure FrontRequest where
  route : Route
  listed : route ∈ TransactionHandler.routes ++ AuthHandler.routes ++ AdminHandler.routes
  params : Params
  authorization : Bytes
  source : Bytes

inductive FrontReply where
  | refused (response : Response)
  /-- The response of a handler that is about sessions only. -/
  | served (caller : Caller) (response : Option Response)

namespace FrontRequest

/-- What the handlers do with sessions; the status counts them besides. -/
def handle (req : FrontRequest) (caller : Caller) : Prog Front (Option Response) :=
  match req.route.handler with
  | some (.auth .login) => do
    let issued ← front (.issue caller.name .user)
    pure (some (tokenResponse caller.name issued))
  | some (.auth .logout) => do
    Authenticator.revokeToken req.authorization
    pure (some Response.noContent)
  | some (.admin .login) => do
    let issued ← front (.issue caller.name .admin)
    pure (some (tokenResponse caller.name issued))
  | some (.admin .logout) => do
    Authenticator.revokeToken req.authorization
    pure (some Response.noContent)
  | some (.admin .sessions) => do
    let sessions ← front .sessions
    pure (some (Response.json .ok (Api.encodeSessions sessions)))
  | some (.admin .status) => do
    let _sessions ← front .sessions
    pure none
  | some (.admin .revokeUser) => match req.params.lookup (ascii "user") with
    | none => pure (some (Response.error ⟨.internal,ascii "route has no \x7buser\x7d"⟩))
    | some user => do
      let count ← front (.revokeUser user)
      pure (some (Response.json .ok (Api.encodeRevoked user count)))
  | _ => pure none

def program (cfg : AuthSettings) (req : FrontRequest) : Prog Front FrontReply := do
  let caller ← (Authenticator.caller cfg req.route.access req.authorization req.source).run
  match caller with
  | .error e => pure (.refused (HttpServer.refusal req.route.access e))
  | .ok caller => do
    let response ← req.handle caller
    pure (.served caller response)

end FrontRequest

structure DirectoryNow where
  verify : Bytes → Bytes → Result Bytes
  isMember : Bytes → Bytes → Bool

structure FrontEntry where
  time : Int
  event : Event Front

/-- The clock, the directory and the random generator are as they happen to be, and so is the order of the hash table. What
was done is kept, the latest first. -/
structure FrontState where
  now : Int
  directory : DirectoryNow
  random : Option TokenBytes
  order : List Sha256Digest
  sessions : SessionStore
  watched : Watched
  log : List FrontEntry

namespace FrontState

variable (cfg : AuthSettings)

def perform (s : FrontState) : (c : FrontCall) → c.Reply × FrontState
  | .check user source => (s.watched.limiter.check s.now user source,s)
  | .verify user password => (s.directory.verify user password,s)
  | .succeeded user source => ((),{ s with watched := s.watched.step cfg.limits (s.now,.succeeded user source) })
  | .failed user source => ((),{ s with watched := s.watched.step cfg.limits (s.now,.failed user source) })
  | .isMember user group => (s.directory.isMember user group,s)
  | .verifyToken token scope =>
    let (sessions,result) := (s.sessions.arranged s.order).verify cfg.sessions cfg.sha256 s.now token scope
    (result,{ s with sessions := sessions })
  | .issue user scope =>
    let (sessions,result) := (s.sessions.arranged s.order).issue cfg.sessions cfg.sha256 s.now s.random user scope
    (result,{ s with sessions := sessions })
  | .revoke token => ((),{ s with sessions := (s.sessions.arranged s.order).revoke cfg.sha256 token })
  | .revokeUser user =>
    let (sessions,count) := (s.sessions.arranged s.order).revokeUser user
    (count,{ s with sessions := sessions })
  | .sessions =>
    let (sessions,listed) := (s.sessions.arranged s.order).list cfg.sessions s.now
    (listed,{ s with sessions := sessions })

def arbiter : Arbiter Front FrontState FrontRequest := fun _ c s =>
  let (reply,s') := s.perform cfg c
  some (reply,{ s' with log := ⟨s.now,⟨c,reply⟩⟩ :: s'.log })

end FrontState

/-- Threads remember the calls they made, the latest first. -/
abbrev FrontDesk := Pool Front FrontState FrontRequest (List (Event Front)) FrontReply

/-- Time passes and the directory changes, a request comes in, or one that is being served makes its next call. -/
inductive FrontStep where
  | pass (now : Int) (directory : DirectoryNow) (random : Option TokenBytes) (order : List Sha256Digest)
  | arrive (req : FrontRequest)
  | advance (i : Nat)

namespace FrontDesk

def live (desk : FrontDesk) : Nat := desk.threads.countP fun t => t.upcoming.isSome

variable (cfg : AuthSettings) (workers : Nat)

/-- A request is taken up when one of the server's threads is free. -/
def step (desk : FrontDesk) : FrontStep → FrontDesk
  | .pass now directory random order =>
    { desk with shared := { desk.shared with now := now, directory := directory, random := random, order := order } }
  | .arrive req => if desk.live < workers then desk.start ⟨req,[],req.program cfg⟩ else desk
  | .advance i => desk.advance (FrontState.arbiter cfg) (fun c reply seen => ⟨c,reply⟩ :: seen) i

def fresh (directory : DirectoryNow) (now : Int) : FrontDesk :=
  ⟨⟨now,directory,none,[],.empty,⟨.empty,[]⟩,[]⟩,[]⟩

def run (desk : FrontDesk) (steps : List FrontStep) : FrontDesk := Runs.run (step cfg workers) desk steps

end FrontDesk
end Confide
