import Confide.Repository

/-! The transaction service. Operations are programs over the repository, the file
store and the locks, so the same text can be run to completion, cut by a crash, or
interleaved with other operations. -/
namespace Confide

open Bytes Resumption

inductive SvcCall where
  | env (c : EnvCall)
  | find (id : TransactionId)
  | findIf (pred : Transaction → Bool)
  | insert (tx : Transaction)
  | save (tx : Transaction)
  | saveManifest (tx : Transaction)
  | remove (id : TransactionId)
  | beginUpload (id : TransactionId) (path : RelativePath)
  | writeUpload (u : Upload) (chunk : Bytes)
  | commitUpload (u : Upload) (expected : Option Sha256Digest)
  | discardUpload (u : Upload)
  | hashFile (id : TransactionId) (path : RelativePath)
  | removeFile (id : TransactionId) (path : RelativePath)
  | openRead (id : TransactionId) (path : RelativePath)

abbrev SvcCall.Reply : SvcCall → Type
  | .env c => c.Reply
  | .find _ => Option Transaction
  | .findIf _ => List Transaction
  | .insert _ | .save _ | .saveManifest _ | .remove _ | .removeFile _ _ => Result Unit
  | .beginUpload _ _ => Result Upload
  | .writeUpload _ _ => Result Unit × Upload
  | .commitUpload _ _ => Result StoredFile × Upload
  | .discardUpload _ => Upload
  | .hashFile _ _ => Result StoredFile
  | .openRead _ _ => Result FileStore.Download

abbrev Svc : Signature := ⟨SvcCall,SvcCall.Reply⟩

/-- What the repository and the file store do on a call. -/
def implement [BoostJson] (sha256 : Bytes → Sha256Digest) : (c : SvcCall) → Prog Sys c.Reply
  | .env c => sys (.env c)
  | .find id => TransactionRepository.find id
  | .findIf pred => TransactionRepository.findIf pred
  | .insert tx => (TransactionRepository.insert sha256 tx).run
  | .save tx => (TransactionRepository.save sha256 tx).run
  | .saveManifest tx => (TransactionRepository.saveManifest sha256 tx).run
  | .remove id => (TransactionRepository.remove id).run
  | .beginUpload id path => do sys (.enter .beginUpload); (FileStore.beginUpload id path).run
  | .writeUpload u chunk => do sys (.enter .writeUpload); u.write chunk
  | .commitUpload u expected => do sys (.enter .commitUpload); u.commit sha256 expected
  | .discardUpload u => do sys (.enter .discardUpload); u.discard
  | .hashFile id path => (FileStore.hashFile sha256 id path).run
  | .removeFile id path => do sys (.enter .removeFile); (FileStore.removeFile id path).run
  | .openRead id path => (FileStore.openRead id path).run

abbrev SvcM (α : Type) := ExceptT Error (Prog Svc) α

def svc (c : SvcCall) : Prog Svc c.Reply := @Prog.perform Svc c

/-- A call that cannot fail. -/
def ask (c : SvcCall) : SvcM c.Reply := ExceptT.lift (svc c)

/-- Returns the error of a failed call to the caller. -/
def tryCall (p : Prog Svc (Result α)) : SvcM α := ExceptT.mk p

structure Caller where
  name : Bytes
  isPeer : Bool
  isAdmin : Bool
  deriving DecidableEq, Repr

structure CreateRequest where
  targetUser : Bytes
  targetServer : Bytes
  retentionDays : Int
  comment : Bytes
  deriving DecidableEq, Repr

structure ReceiveRequest where
  id : TransactionId
  sender : Bytes
  targetUser : Bytes
  createdAt : Int
  expiresAt : Int
  comment : Bytes
  deriving DecidableEq, Repr

structure AdminFilter where
  user : Bytes
  state : Option State
  after : Option Int
  before : Option Int

inductive Box where
  | inbox | outbox
  deriving DecidableEq, Repr

structure ServiceOptions where
  localServer : Bytes
  defaultRetentionDays : Int
  maxRetentionDays : Int
  maxCommentLength : Nat

structure PendingUpload where
  id : TransactionId
  caller : Caller
  upload : Upload
  deriving DecidableEq, Repr

def notFound (id : TransactionId) : Error := ⟨.notfound,ascii "no transaction " ++ id.value⟩

def forbidden (id : TransactionId) : Error := ⟨.forbidden,ascii "no access to transaction " ++ id.value⟩

def noFile (path : RelativePath) : Error := ⟨.notfound,ascii "no such file: " ++ path.value⟩

def actorOf (caller : Caller) : Bytes := if caller.isPeer then ascii "peer:" ++ caller.name else caller.name

def eventFor (type : BizEventType) (tx : Transaction) (caller : Caller) : BizEvent where
  type := type
  tx := some tx.id
  actor := actorOf caller
  fromUser := tx.sender
  toUser := tx.targetUser
  toServer := tx.targetServer

def isSender (caller : Caller) (tx : Transaction) : Bool :=
  !caller.isPeer && tx.originServer.isEmpty && caller.name == tx.sender

def isTarget (caller : Caller) (tx : Transaction) (isRecipient : Bytes → Bytes → Bool) : Bool :=
  !caller.isPeer && tx.targetServer.isEmpty &&
    (caller.name == tx.targetUser || isRecipient caller.name tx.targetUser)

def isOriginPeer (caller : Caller) (tx : Transaction) : Bool :=
  caller.isPeer && !tx.originServer.isEmpty && caller.name == tx.originServer

def mayWrite (caller : Caller) (tx : Transaction) : Bool := isSender caller tx || isOriginPeer caller tx

def mayRead (caller : Caller) (tx : Transaction) (isRecipient : Bytes → Bytes → Bool) : Bool :=
  isSender caller tx || isOriginPeer caller tx || (isTarget caller tx isRecipient && tx.state != .open)

def isOutgoing (tx : Transaction) : Bool :=
  tx.originServer.isEmpty && !tx.targetServer.isEmpty && tx.state == .committed

namespace TransactionService

/-- The lock is given back however the body ends. -/
def withLock (id : TransactionId) (body : Prog Svc α) : Prog Svc α := do
  let mutex : Nat ← svc (.env (.lockFor id))
  svc (.env (.acquire mutex))
  let result ← body
  svc (.env (.release mutex))
  pure result

def locked (id : TransactionId) (body : SvcM α) : SvcM α := ExceptT.mk (withLock id body.run)

variable (opts : ServiceOptions)

def create (caller : Caller) (req : CreateRequest) : SvcM Transaction := do
  refuse caller.isPeer ⟨.forbidden,ascii "peers cannot create transactions"⟩
  refuse (req.targetUser = []) ⟨.validation,ascii "target_user is empty"⟩
  refuse (req.retentionDays < 0) ⟨.validation,ascii "retention_days must not be negative"⟩
  refuse (opts.maxRetentionDays < req.retentionDays)
    ⟨.validation,ascii "retention_days must be at most " ++ decimalInt opts.maxRetentionDays ++
      ascii ", got " ++ decimalInt req.retentionDays⟩
  ensure (checkComment req.comment opts.maxCommentLength)
  let targetServer := if req.targetServer = [] ∨ req.targetServer = opts.localServer then [] else req.targetServer
  tryCall (svc (.env (.checkDestination req.targetUser targetServer)))
  let created : Int ← ask (.env .now)
  let days := if req.retentionDays = 0 then opts.defaultRetentionDays else req.retentionDays
  let expires ← ensure (expiresAt created days)
  let id : TransactionId ← ask (.env .generate)
  let tx : Transaction := ⟨id,caller.name,req.targetUser,targetServer,[],req.comment,.open,created,expires,
    none,none,[]⟩
  tryCall (svc (.insert tx))
  ask (.env (.record (eventFor .txCreated tx caller)))
  pure tx

/-- The transaction under an id, if the caller may change it and it is still open. -/
def findMutable (caller : Caller) (id : TransactionId) : SvcM Transaction := do
  let found : Option Transaction ← ask (.find id)
  match found with
  | none => throw (notFound id)
  | some tx =>
    refuse (!mayWrite caller tx) (forbidden id)
    ensure (requireMutable tx.state)
    pure tx

def beginUpload (caller : Caller) (id : TransactionId) (path : RelativePath) : SvcM PendingUpload :=
  locked id do
    let _tx ← findMutable caller id
    let upload ← tryCall (svc (.beginUpload id path))
    pure ⟨id,caller,upload⟩

/-- The upload is checked and moved into place under the lock; what the caller may do
was checked when it began. -/
def finishUpload (pending : PendingUpload) (expected : Option Sha256Digest) :
    Prog Svc (Result FileEntry × PendingUpload) :=
  withLock pending.id do
    let found : Option Transaction ← svc (.find pending.id)
    match found with
    | none => pure (.error (notFound pending.id),pending)
    | some tx => match requireMutable tx.state with
      | .error e => pure (.error e,pending)
      | .ok _ => do
        let (committed,upload) ← svc (.commitUpload pending.upload expected)
        match committed with
        | .error e => pure (.error e,{ pending with upload := upload })
        | .ok stored => do
          let entry : FileEntry := ⟨stored.path,stored.size,stored.sha256⟩
          let tx := { tx with files := upsertFile tx.files entry }
          let saved : Result Unit ← svc (.save tx)
          match saved with
          | .error e => pure (.error e,{ pending with upload := upload })
          | .ok _ => do
            svc (.env (.record { eventFor .fileAdded tx pending.caller with
              file := some entry.path.value, size := some entry.size, sha256 := some entry.sha256.toHex }))
            pure (.ok entry,{ pending with upload := upload })

def writeUpload (pending : PendingUpload) (chunk : Bytes) : Prog Svc (Result Unit × PendingUpload) := do
  let (written,upload) ← svc (.writeUpload pending.upload chunk)
  pure (written,{ pending with upload := upload })

/-- The temp file of an upload that is given up goes with it. -/
def dropUpload (pending : PendingUpload) : Prog Svc PendingUpload :=
  if pending.upload.done then pure pending
  else do
    let upload : Upload ← svc (.discardUpload pending.upload)
    pure { pending with upload := upload }

def removeFile (caller : Caller) (id : TransactionId) (path : RelativePath) : SvcM Unit :=
  locked id do
    let tx ← findMutable caller id
    refuse (!tx.files.any fun file => file.path = path) (noFile path)
    tryCall (svc (.removeFile id path))
    let tx := { tx with files := tx.files.eraseP fun file => file.path = path }
    tryCall (svc (.save tx))
    ask (.env (.record { eventFor .fileRemoved tx caller with file := some path.value }))

/-- Every file is hashed again and compared with its entry. -/
def checkFiles (id : TransactionId) : List FileEntry → SvcM Unit
  | [] => pure ()
  | entry :: rest => do
    let actual ← tryCall (svc (.hashFile id entry.path))
    refuse (actual.size ≠ entry.size ∨ actual.sha256 ≠ entry.sha256)
      ⟨.integrity,ascii "file changed on disk: " ++ entry.path.value⟩
    checkFiles id rest

def commit (caller : Caller) (id : TransactionId) : SvcM Transaction := do
  let committed ← locked id do
    let found : Option Transaction ← ask (.find id)
    match found with
    | none => throw (notFound id)
    | some tx =>
      refuse (!mayWrite caller tx) (forbidden id)
      ensure (checkTransition tx.state .committed)
      checkFiles id tx.files
      let now : Int ← ask (.env .now)
      let tx := { tx with state := .committed, committedAt := some now }
      tryCall (svc (.saveManifest tx))
      tryCall (svc (.save tx))
      let type := if isOriginPeer caller tx then BizEventType.received else BizEventType.committed
      ask (.env (.record { eventFor type tx caller with
        fileCount := some (UInt32.ofNat tx.files.length), totalBytes := some tx.totalBytes }))
      pure tx
  ask (.env (.onCommitted committed))
  pure committed

def get (caller : Caller) (id : TransactionId) : SvcM Transaction := do
  let isRecipient : Bytes → Bytes → Bool ← ask (.env .isRecipient)
  let found : Option Transaction ← ask (.find id)
  match found with
  | none => throw (notFound id)
  | some tx => if mayRead caller tx isRecipient then pure tx else throw (forbidden id)

def newestFirst (txs : List Transaction) : List Transaction :=
  txs.insertionSort fun a b => if a.createdAt ≠ b.createdAt then b.createdAt < a.createdAt else a.id ≤ b.id

def list (caller : Caller) (box : Box) : Prog Svc (List Transaction) :=
  if caller.isPeer then pure []
  else do
    let isRecipient : Bytes → Bytes → Bool ← svc (.env .isRecipient)
    let txs : List Transaction ← svc (.findIf fun tx => match box with
      | .outbox => isSender caller tx
      | .inbox => isTarget caller tx isRecipient && (tx.state == .committed || tx.state == .delivered))
    pure (newestFirst txs)

def openDownload (caller : Caller) (id : TransactionId) (path : RelativePath) : SvcM FileStore.Download := do
  let isRecipient : Bytes → Bytes → Bool ← ask (.env .isRecipient)
  let found : Option Transaction ← ask (.find id)
  match found with
  | none => throw (notFound id)
  | some tx =>
    refuse (!mayRead caller tx isRecipient) (forbidden id)
    ensure (requireReadable tx.state)
    refuse (tx.findFile path).isNone (noFile path)
    tryCall (svc (.openRead id path))

def receive (peer : Caller) (req : ReceiveRequest) : SvcM Transaction := do
  refuse (!peer.isPeer) ⟨.forbidden,ascii "only peers can push transactions"⟩
  refuse (req.sender = [] ∨ req.targetUser = [])
    ⟨.validation,ascii "sender and target_user are required"⟩
  refuse (req.expiresAt ≤ req.createdAt) ⟨.validation,ascii "expires_at must be after created_at"⟩
  ensure (checkComment req.comment opts.maxCommentLength)
  tryCall (svc (.env (.checkDestination req.targetUser [])))
  locked req.id do
    let tx : Transaction := ⟨req.id,req.sender,req.targetUser,[],peer.name,req.comment,.open,req.createdAt,
      req.expiresAt,none,none,[]⟩
    tryCall (svc (.insert tx))
    pure tx

/-- An unset time comes before every other one. -/
def earlier : Option Int → Option Int → Bool
  | some a, some b => a < b
  | none, some _ => true
  | _, none => false

def listOutgoing : Prog Svc (List TransactionId) := do
  let txs : List Transaction ← svc (.findIf isOutgoing)
  let sorted := txs.insertionSort fun a b =>
    if a.committedAt ≠ b.committedAt then earlier a.committedAt b.committedAt else a.id ≤ b.id
  pure (sorted.map (·.id))

def outgoing (id : TransactionId) : SvcM Transaction := do
  let found : Option Transaction ← ask (.find id)
  match found with
  | none => throw (notFound id)
  | some tx =>
    if isOutgoing tx then pure tx
    else throw ⟨.conflict,ascii "transaction " ++ id.value ++ ascii " is " ++ tx.state.toString ++
      ascii ", not waiting to be forwarded"⟩

def system : Caller := ⟨ascii "system",false,false⟩

def markDelivered (id : TransactionId) : SvcM Unit :=
  locked id do
    let found : Option Transaction ← ask (.find id)
    match found with
    | none => throw (notFound id)
    | some tx =>
      ensure (checkTransition tx.state .delivered)
      let now : Int ← ask (.env .now)
      let tx := { tx with state := .delivered, deliveredAt := some now }
      tryCall (svc (.save tx))
      ask (.env (.record { eventFor .forwarded tx system with
        fileCount := some (UInt32.ofNat tx.files.length), totalBytes := some tx.totalBytes }))

def listExpired : Prog Svc (List TransactionId) := do
  let now : Int ← svc (.env .now)
  let txs : List Transaction ← svc (.findIf fun tx => isExpired tx.expiresAt now)
  pure (txs.map (·.id))

/-- A transaction that an earlier removal has left expired is not saved again. -/
def markExpired (tx : Transaction) : SvcM Transaction :=
  if tx.state = .expired then pure tx
  else do
    ensure (checkTransition tx.state .expired)
    tryCall (svc (.save { tx with state := .expired }))
    pure { tx with state := .expired }

/-- The transaction is marked expired before its folder goes; the lock's table entry
goes last, after the lock was given back. -/
def destroy (id : TransactionId) (type : BizEventType) (actor : Caller) : SvcM Unit := do
  locked id do
    let found : Option Transaction ← ask (.find id)
    match found with
    | none => throw (notFound id)
    | some tx =>
      let tx ← markExpired tx
      tryCall (svc (.remove id))
      ask (.env (.record (eventFor type tx actor)))
  ask (.env (.eraseLock id))

def expire (id : TransactionId) : SvcM Unit := destroy id .expired system

def adminList (admin : Caller) (filter : AdminFilter) : Prog Svc (List Transaction) :=
  if admin.isAdmin then do
    let txs : List Transaction ← svc (.findIf fun tx =>
      (filter.user.isEmpty || tx.sender == filter.user || tx.targetUser == filter.user)
        && filter.state.all (fun state => tx.state == state)
        && filter.after.all (fun t => t ≤ tx.createdAt)
        && filter.before.all (fun t => tx.createdAt < t))
    pure (newestFirst txs)
  else pure []

def adminGet (admin : Caller) (id : TransactionId) : SvcM Transaction := do
  refuse (!admin.isAdmin) (forbidden id)
  let found : Option Transaction ← ask (.find id)
  match found with
  | none => throw (notFound id)
  | some tx => pure tx

def adminDelete (admin : Caller) (id : TransactionId) : SvcM Unit :=
  if admin.isAdmin then destroy id .adminDeleted admin else throw (forbidden id)

def setRetention (admin : Caller) (id : TransactionId) (days : Int) : SvcM Transaction := do
  refuse (!admin.isAdmin) (forbidden id)
  refuse (days < 1 ∨ opts.maxRetentionDays < days)
    ⟨.validation,ascii "days must be 1.." ++ decimalInt opts.maxRetentionDays ++ ascii ", got " ++
      decimalInt days⟩
  locked id do
    let found : Option Transaction ← ask (.find id)
    match found with
    | none => throw (notFound id)
    | some tx =>
      refuse (tx.state = .expired) ⟨.gone,ascii "transaction has expired"⟩
      let expires ← ensure (expiresAt tx.createdAt days)
      let tx := { tx with expiresAt := expires }
      tryCall (svc (.save tx))
      ask (.env (.record { eventFor .retentionChanged tx admin with retentionDays := some days }))
      pure tx

end TransactionService
end Confide
