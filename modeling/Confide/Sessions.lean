import Confide.Time
import Confide.Runs
import Confide.Table

/-! The session store: tokens are issued, used, revoked and evicted, and expire when nobody looks. What it accepts
is compared with the history of the calls. -/
namespace Confide

open Bytes

inductive Scope where
  | user | admin
  deriving DecidableEq, Repr

def tokenPrefix : Scope → Bytes
  | .user => ascii "ftu_"
  | .admin => ascii "fta_"

structure SessionOptions where
  ttl : Int
  idle : Int
  maxPerUser : Nat
  adminTtl : Int
  adminIdle : Int

def SessionOptions.ttlOf (opts : SessionOptions) : Scope → Int
  | .user => opts.ttl
  | .admin => opts.adminTtl

def SessionOptions.idleOf (opts : SessionOptions) : Scope → Int
  | .user => opts.idle
  | .admin => opts.adminIdle

structure IssuedToken where
  token : Bytes
  expiresAt : Int
  deriving DecidableEq, Repr

/-- A session, which is also what the admin list shows of it. -/
@[ext] structure Session where
  user : Bytes
  scope : Scope
  created : Int
  lastUsed : Int
  expiresAt : Int
  deriving DecidableEq, Repr

/-- What the random generator gives for one token. -/
structure TokenBytes where
  bytes : List UInt8
  size : bytes.length = 32
  deriving Repr

theorem TokenBytes.eq_iff {a b : TokenBytes} : a.bytes = b.bytes ↔ a = b := by
  cases a
  cases b
  simp

instance : DecidableEq TokenBytes := fun _ _ => decidable_of_iff _ TokenBytes.eq_iff

def TokenBytes.toHex (random : TokenBytes) : Bytes :=
  random.bytes.flatMap fun b => [hexDigit (b.toNat / 16),hexDigit (b.toNat % 16)]

/-- The sessions by the digest of their token. -/
abbrev SessionStore := Table Sha256Digest Session

inductive SessionCall where
  | issue (random : Option TokenBytes) (user : Bytes) (scope : Scope)
  | verify (token : Bytes) (scope : Scope)
  | revoke (token : Bytes)
  | revokeUser (user : Bytes)
  | list
  deriving DecidableEq, Repr

inductive SessionReply where
  | issued (result : Result IssuedToken)
  | verified (result : Result Bytes)
  | revoked
  | revokedUser (count : Nat)
  | listed (sessions : List Session)
  deriving DecidableEq, Repr

/-- A call, the clock when it is made, and the order the hash table has then. -/
structure SessionStep where
  now : Int
  order : List Sha256Digest
  call : SessionCall

def denied (detail : Bytes) : Result α := fail .auth detail

def Session.expired (opts : SessionOptions) (s : Session) (now : Int) : Bool :=
  isExpired s.expiresAt now || isExpired (s.lastUsed + opts.idleOf s.scope) now

namespace SessionStore

/-- The store as the hash table happens to be iterated. -/
abbrev arranged (store : SessionStore) (order : List Sha256Digest) : SessionStore := store.arrange order

variable (opts : SessionOptions)

def dropExpired (store : SessionStore) (now : Int) : SessionStore := store.eraseIf (·.2.expired opts now)

def isOf (user : Bytes) (scope : Scope) (entry : Sha256Digest × Session) : Bool :=
  entry.2.user == user && entry.2.scope == scope

/-- One turn of the search for the oldest session of a user: how many there are, and the oldest so far. -/
def countOldest (user : Bytes) (scope : Scope) (found : Nat × Option (Sha256Digest × Session))
    (entry : Sha256Digest × Session) : Nat × Option (Sha256Digest × Session) :=
  if !isOf user scope entry then found
  else match found.2 with
    | none => (found.1 + 1,some entry)
    | some oldest => (found.1 + 1,if entry.2.created < oldest.2.created then some entry else some oldest)

/-- The session that has to go before one more is issued. -/
def oldestOf (store : SessionStore) (user : Bytes) (scope : Scope) : Option Sha256Digest :=
  match store.table.foldl (countOldest user scope) (0,none) with
  | (count,some oldest) => if opts.maxPerUser ≤ count then some oldest.1 else none
  | (_,none) => none

def dropOldestOf (store : SessionStore) (user : Bytes) (scope : Scope) : SessionStore :=
  match store.oldestOf opts user scope with
  | some digest => store.erase digest
  | none => store

variable (sha256 : Bytes → Sha256Digest)

def issue (store : SessionStore) (now : Int) (random : Option TokenBytes) (user : Bytes) (scope : Scope) :
    SessionStore × Result IssuedToken :=
  match random with
  | none => (store,fail .internal (ascii "RAND_bytes failed"))
  | some random =>
    let token := tokenPrefix scope ++ random.toHex
    let expiresAt := now + opts.ttlOf scope
    let cleaned := (store.dropExpired opts now).dropOldestOf opts user scope
    (cleaned.insertOrAssign (sha256 token) ⟨user,scope,now,now,expiresAt⟩,.ok ⟨token,expiresAt⟩)

def verify (store : SessionStore) (now : Int) (token : Bytes) (scope : Scope) : SessionStore × Result Bytes :=
  if !(tokenPrefix scope).isPrefixOf token then (store,denied (ascii "invalid token"))
  else match store.find (sha256 token) with
    | none => (store,denied (ascii "invalid or expired token"))
    | some s =>
      if s.scope ≠ scope then (store,denied (ascii "invalid or expired token"))
      else if s.expired opts now then (store.erase (sha256 token),denied (ascii "invalid or expired token"))
      else (store.insertOrAssign (sha256 token) { s with lastUsed := now },.ok s.user)

def revoke (store : SessionStore) (token : Bytes) : SessionStore := store.erase (sha256 token)

def revokeUser (store : SessionStore) (user : Bytes) : SessionStore × Nat :=
  (store.eraseIf (·.2.user == user),store.table.countP (·.2.user == user))

def list (store : SessionStore) (now : Int) : SessionStore × List Session :=
  let live := store.dropExpired opts now
  (live,(live.table.map Prod.snd).insertionSort fun a b => a.created ≤ b.created)

def answer (store : SessionStore) (step : SessionStep) : SessionStore × SessionReply :=
  let store := store.arranged step.order
  match step.call with
  | .issue random user scope =>
    let (store,result) := store.issue opts sha256 step.now random user scope
    (store,.issued result)
  | .verify token scope =>
    let (store,result) := store.verify opts sha256 step.now token scope
    (store,.verified result)
  | .revoke token => (store.revoke sha256 token,.revoked)
  | .revokeUser user =>
    let (store,count) := store.revokeUser user
    (store,.revokedUser count)
  | .list =>
    let (store,sessions) := store.list opts step.now
    (store,.listed sessions)

end SessionStore

end Confide
