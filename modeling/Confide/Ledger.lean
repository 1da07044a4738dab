import Confide.Server

/-! The service as a ledger of transactions. What an operation may do to the index is said
once here, over the answers its calls can give, and holds whatever fails in the store. -/
namespace Confide

open Resumption Resumption.Prog

/-! What a call can answer, and what it does to the index. -/

def EnvCall.answer (env : Env) : (c : EnvCall) → c.Reply
  | .now => env.now
  | .generate => env.fresh
  | .checkDestination user server => env.destination user server
  | .isRecipient => env.recipient
  | .record _ => ()
  | .onCommitted _ => ()
  | .lockFor _ => (0 : Nat)
  | .acquire _ => ()
  | .release _ => ()
  | .eraseLock _ => ()

def SvcCall.Effect (sha256 : Bytes → Sha256Digest) (env : Env) : (c : SvcCall) → Index → c.Reply → Index → Prop
  | .env c, i, reply, i' => i' = i ∧ reply = c.answer env
  | .find id, i, reply, i' => i' = i ∧ reply = i.lookup id
  | .insert tx, i, reply, i' =>
    (reply = .ok () ∧ i.lookup tx.id = none ∧ i' = i.insert tx.id tx) ∨ ((∃ e, reply = .error e) ∧ i' = i)
  | .save tx, i, reply, i' =>
    (reply = .ok () ∧ i.lookup tx.id ≠ none ∧ i' = i.insert tx.id tx) ∨ ((∃ e, reply = .error e) ∧ i' = i)
  | .remove id, i, reply, i' => (reply = .ok () ∧ i' = i.erase id) ∨ ((∃ e, reply = .error e) ∧ i' = i)
  | .beginUpload id path, i, reply, i' => i' = i ∧
    ∀ u, reply = .ok u → ∃ n, u = ⟨tmpPath id n,payloadPath id path,path,[],0,false⟩
  | .writeUpload u _, i, reply, i' => i' = i ∧ u.Advances reply.2
  | .commitUpload u expected, i, reply, i' => i' = i ∧ u.Advances reply.2 ∧ ∀ stored, reply.1 = .ok stored →
    u.done = false ∧ stored = ⟨u.path,u.size,sha256 u.hashed⟩ ∧ ∀ want ∈ expected, want = sha256 u.hashed
  | .discardUpload u, i, reply, i' => i' = i ∧ reply = { u with done := true }
  | .findIf _, i, _, i' => i' = i
  | .saveManifest _, i, _, i' => i' = i
  | .hashFile _ _, i, _, i' => i' = i
  | .removeFile _ _, i, _, i' => i' = i
  | .openRead _ _, i, _, i' => i' = i

section Handle

variable (sha256 : Bytes → Sha256Digest) (env : Env) (w : World)

section

variable [BoostJson]

theorem insert_indexes (tx : Transaction) : (SvcCall.insert tx).Effect sha256 env w.index
    (Svc.handle sha256 env (.insert tx) w).1 (Svc.handle sha256 env (.insert tx) w).2.index := by
  change Leads (Sys.handle env) (TransactionRepository.insert sha256 tx) w fun reply w' =>
    (SvcCall.insert tx).Effect sha256 env w.index reply w'.index
  simp only [TransactionRepository.insert,call_eq,leads_exec_bind,exec_enter,exec_indexFind,enter_index,leads_refuse_bind]
  refine ⟨fun _ => .inr ⟨⟨_,rfl⟩,rfl⟩,fun unknown => ?_⟩
  have absent : w.index.lookup tx.id = none := by simpa using unknown
  have folder := (exec_still env (createTransaction_quiet tx.id) (w.enter .insert)).index
  rw [leads_bind,leads_exec]
  generalize exec env (FileStore.createTransaction tx.id).run (w.enter .insert) = outcome at folder
  obtain ⟨_ | _,w₁⟩ := outcome
  · exact .inr ⟨⟨_,rfl⟩,folder⟩
  dsimp only at folder ⊢
  have written := (exec_still env (writeDocument_quiet sha256 tx.id .meta (encodeMeta tx)) w₁).index
  rw [leads_exec_bind]
  generalize exec env (FileStore.writeDocument sha256 tx.id .meta (encodeMeta tx)).run w₁ = outcome at written
  obtain ⟨_ | _,w₂⟩ := outcome
  · have undone := (exec_still env (removeTransaction_quiet tx.id) w₂).index
    dsimp only at written ⊢
    rw [leads_exec_bind,leads_throw]
    exact .inr ⟨⟨_,rfl⟩,undone.trans (written.trans folder)⟩
  · dsimp only at written ⊢
    rw [leads_exec,exec_liftM,exec_indexSet]
    exact .inl ⟨rfl,absent,congrArg (Finmap.insert tx.id tx) (written.trans folder)⟩

theorem save_indexes (tx : Transaction) : (SvcCall.save tx).Effect sha256 env w.index
    (Svc.handle sha256 env (.save tx) w).1 (Svc.handle sha256 env (.save tx) w).2.index := by
  change Leads (Sys.handle env) (TransactionRepository.save sha256 tx) w fun reply w' =>
    (SvcCall.save tx).Effect sha256 env w.index reply w'.index
  simp only [TransactionRepository.save,call_eq,leads_exec_bind,exec_enter,exec_indexFind,enter_index,leads_refuse_bind]
  refine ⟨fun _ => .inr ⟨⟨_,rfl⟩,rfl⟩,fun known => ?_⟩
  have present : w.index.lookup tx.id ≠ none := fun absent => by simp [absent] at known
  have written := (exec_still env (writeDocument_quiet sha256 tx.id .meta (encodeMeta tx)) (w.enter .save)).index
  rw [leads_bind,leads_exec]
  generalize exec env (FileStore.writeDocument sha256 tx.id .meta (encodeMeta tx)).run (w.enter .save) = outcome at written
  obtain ⟨_ | _,w₁⟩ := outcome
  · exact .inr ⟨⟨_,rfl⟩,written⟩
  · dsimp only at written ⊢
    rw [leads_exec,exec_liftM,exec_indexSet]
    exact .inl ⟨rfl,present,congrArg (Finmap.insert tx.id tx) written⟩

theorem remove_indexes (id : TransactionId) : (SvcCall.remove id).Effect sha256 env w.index
    (Svc.handle sha256 env (.remove id) w).1 (Svc.handle sha256 env (.remove id) w).2.index := by
  change Leads (Sys.handle env) (TransactionRepository.remove id) w fun reply w' =>
    (SvcCall.remove id).Effect sha256 env w.index reply w'.index
  simp only [TransactionRepository.remove,call_eq,leads_exec_bind,exec_enter]
  have removed := (exec_still env (removeTransaction_quiet id) (w.enter .remove)).index
  rw [leads_bind,leads_exec]
  generalize exec env (FileStore.removeTransaction id).run (w.enter .remove) = outcome at removed
  obtain ⟨_ | _,w₁⟩ := outcome
  · exact .inr ⟨⟨_,rfl⟩,removed⟩
  · exact .inl ⟨rfl,congrArg (Finmap.erase id) removed⟩

/-- The repository and the file store answer as the ledger expects. -/
theorem handle_effect (c : SvcCall) :
    c.Effect sha256 env w.index (Svc.handle sha256 env c w).1 (Svc.handle sha256 env c w).2.index := by
  cases c with
  | env c => cases c <;> exact ⟨rfl,rfl⟩
  | find id => exact ⟨rfl,rfl⟩
  | findIf pred => rfl
  | insert tx => exact insert_indexes sha256 env w tx
  | save tx => exact save_indexes sha256 env w tx
  | remove id => exact remove_indexes sha256 env w id
  | saveManifest tx => exact (exec_still env (writeDocument_quiet sha256 tx.id .manifest (encodeManifest tx)) _).index
  | beginUpload id path =>
    exact ⟨(exec_still env (beginWrite_quiet id (payloadPath id path) path) (w.enter .beginUpload)).index,
      beginWrite_result env (w.enter .beginUpload) id (payloadPath id path) path⟩
  | writeUpload u chunk =>
    exact ⟨(exec_still env (write_quiet u chunk) (w.enter .writeUpload)).index,write_result env _ u chunk⟩
  | commitUpload u expected =>
    exact ⟨(exec_still env (commit_quiet sha256 u expected) (w.enter .commitUpload)).index,
      commit_result sha256 env _ u expected⟩
  | discardUpload u => exact ⟨(exec_still env (discard_quiet u) (w.enter .discardUpload)).index,rfl⟩
  | hashFile id path => exact congrArg (·.2.index) (hashFile_spec sha256 env id path w)
  | removeFile id path => exact (exec_still env (removeFile_quiet id path) (w.enter .removeFile)).index
  | openRead id path => exact congrArg (·.2.index) (openRead_spec env id path w)

end

def SysCall.Mute : SysCall → Prop
  | .env _ => False
  | _ => True

theorem handle_mute {c : SysCall} (mute : c.Mute) (w : World) : (Sys.handle env c w).2.log = w.log := by
  cases c with
  | env => exact absurd mute id
  | enter | indexSet | indexErase | indexReset => rfl
  | _ => exact (handle_still env _ (by trivial) w).log

theorem exec_mute {p : Prog Sys α} (mute : p.Uses SysCall.Mute) : (exec env p w).2.log = w.log :=
  mute.run (Sys.handle env) (fun w' => w'.log = w.log) (fun _ w' allowed same => (handle_mute env allowed w').trans same) w rfl

theorem mute_of_quiet {p : Prog Sys α} (quiet : p.Uses SysCall.Quiet) : p.Uses SysCall.Mute :=
  quiet.mono fun c quiet => by cases c <;> first | exact quiet | trivial

theorem mute_call {c : SysCall} (mute : c.Mute) : Uses SysCall.Mute (call c).run :=
  Uses.bind (p := sys c) ⟨mute,fun _ => trivial⟩ fun _ => trivial

theorem mute_refuse (bad : Bool) (e : Error) : Uses SysCall.Mute (refuse bad e : SysM Unit).run :=
  mute_of_quiet (quiet_refuse bad e)

theorem insert_mute [BoostJson] (tx : Transaction) : Uses SysCall.Mute (TransactionRepository.insert sha256 tx).run := by
  unfold TransactionRepository.insert
  refine (mute_call (by trivial)).exceptT_bind fun _ => (mute_call (by trivial)).exceptT_bind fun _ =>
    (mute_refuse _ _).exceptT_bind fun _ => (mute_of_quiet (createTransaction_quiet tx.id)).exceptT_bind fun _ =>
    (mute_of_quiet (quiet_lift (writeDocument_quiet sha256 tx.id .meta (encodeMeta tx)))).exceptT_bind fun written => ?_
  cases written with
  | ok => exact mute_call (by trivial)
  | error e => exact (mute_of_quiet (quiet_lift (removeTransaction_quiet tx.id))).exceptT_bind fun _ => trivial

theorem save_mute [BoostJson] (tx : Transaction) : Uses SysCall.Mute (TransactionRepository.save sha256 tx).run :=
  (mute_call (by trivial)).exceptT_bind fun _ => (mute_call (by trivial)).exceptT_bind fun _ =>
    (mute_refuse _ _).exceptT_bind fun _ =>
    (mute_of_quiet (writeDocument_quiet sha256 tx.id .meta (encodeMeta tx))).exceptT_bind fun _ => mute_call (by trivial)

theorem remove_mute (id : TransactionId) : Uses SysCall.Mute (TransactionRepository.remove id).run :=
  (mute_call (by trivial)).exceptT_bind fun _ => (mute_of_quiet (removeTransaction_quiet id)).exceptT_bind fun _ =>
    mute_call (by trivial)

def SvcCall.posts : SvcCall → List BizEvent → List BizEvent
  | .env (.record event), log => log ++ [event]
  | _, log => log

theorem handle_log [BoostJson] (c : SvcCall) : (Svc.handle sha256 env c w).2.log = c.posts w.log := by
  cases c with
  | env c => cases c <;> rfl
  | find | findIf => rfl
  | insert tx => exact exec_mute env w (insert_mute sha256 tx)
  | save tx => exact exec_mute env w (save_mute sha256 tx)
  | remove id => exact exec_mute env w (remove_mute id)
  | saveManifest tx => exact (exec_still env (writeDocument_quiet sha256 tx.id .manifest (encodeManifest tx)) _).log
  | beginUpload id path => exact (exec_still env (beginWrite_quiet id (payloadPath id path) path) (w.enter .beginUpload)).log
  | writeUpload u chunk => exact (exec_still env (write_quiet u chunk) (w.enter .writeUpload)).log
  | commitUpload u expected => exact (exec_still env (commit_quiet sha256 u expected) (w.enter .commitUpload)).log
  | discardUpload u => exact (exec_still env (discard_quiet u) (w.enter .discardUpload)).log
  | hashFile id path => exact congrArg (·.2.log) (hashFile_spec sha256 env id path w)
  | removeFile id path => exact (exec_still env (removeFile_quiet id path) (w.enter .removeFile)).log
  | openRead id path => exact congrArg (·.2.log) (openRead_spec env id path w)

end Handle

/-- What the service keeps: the transactions, and the log of what was done to them. -/
structure Book where
  index : Index
  log : List BizEvent

def World.book (w : World) : Book := ⟨w.index,w.log⟩

def SvcCall.Books (sha256 : Bytes → Sha256Digest) (env : Env) (c : SvcCall) (b : Book) (reply : c.Reply) (b' : Book) : Prop :=
  ∃ i, c.Effect sha256 env b.index reply i ∧ b' = ⟨i,c.posts b.log⟩

theorem handle_books [BoostJson] (sha256 : Bytes → Sha256Digest) (env : Env) (c : SvcCall) (w : World) :
    c.Books sha256 env w.book (Svc.handle sha256 env c w).1 (Svc.handle sha256 env c w).2.book :=
  ⟨_,handle_effect sha256 env w c,by rw [World.book,handle_log]; rfl⟩

/-! The ledger: what an operation may do to the transactions. -/

/-- A new transaction, as its request describes it. -/
inductive Opens (opts : ServiceOptions) (env : Env) : Op → Transaction → Prop
  | created {caller : Caller} {req : CreateRequest} {expires : Int} (user : caller.isPeer = false)
    (target : req.targetUser ≠ []) (least : 0 ≤ req.retentionDays) (most : req.retentionDays ≤ opts.maxRetentionDays)
    (comment : checkComment req.comment opts.maxCommentLength = .ok ())
    (lasts : expiresAt env.now (if req.retentionDays = 0 then opts.defaultRetentionDays else req.retentionDays) =
      .ok expires) :
    Opens opts env (.create caller req) ⟨env.fresh,caller.name,req.targetUser,
      if req.targetServer = [] ∨ req.targetServer = opts.localServer then [] else req.targetServer,[],req.comment,.open,
      env.now,expires,none,none,[]⟩
  | received {peer : Caller} {req : ReceiveRequest} (isPeer : peer.isPeer = true) (sender : req.sender ≠ [])
    (target : req.targetUser ≠ []) (lasts : req.createdAt < req.expiresAt)
    (comment : checkComment req.comment opts.maxCommentLength = .ok ()) :
    Opens opts env (.receive peer req) ⟨req.id,req.sender,req.targetUser,[],peer.name,req.comment,.open,req.createdAt,
      req.expiresAt,none,none,[]⟩

/-- Whose transaction an operation may take away. -/
inductive Drops : Op → TransactionId → Prop
  | expired {id : TransactionId} : Drops (.expire id) id
  | deleted {admin : Caller} {id : TransactionId} (allowed : admin.isAdmin = true) : Drops (.adminDelete admin id) id

inductive Updates (sha256 : Bytes → Sha256Digest) (opts : ServiceOptions) (env : Env) (pending : List PendingUpload) :
    Op → Transaction → Transaction → Prop
  | uploaded {k : Nat} {p : PendingUpload} {expected : Option Sha256Digest} {tx : Transaction}
    (here : pending[k]? = some p) (its : p.id = tx.id) (isOpen : tx.state = .open) (progress : p.upload.done = false)
    (agreed : ∀ want ∈ expected, want = sha256 p.upload.hashed) :
    Updates sha256 opts env pending (.finishUpload k expected) tx { tx with
      files := upsertFile tx.files ⟨p.upload.path,p.upload.size,sha256 p.upload.hashed⟩ }
  | erased {caller : Caller} {path : RelativePath} {tx : Transaction} (allowed : mayWrite caller tx = true)
    (isOpen : tx.state = .open) (listed : ∃ file ∈ tx.files, file.path = path) :
    Updates sha256 opts env pending (.removeFile caller tx.id path) tx { tx with
      files := tx.files.eraseP fun file => file.path = path }
  | committed {caller : Caller} {tx : Transaction} (allowed : mayWrite caller tx = true) (isOpen : tx.state = .open) :
    Updates sha256 opts env pending (.commit caller tx.id) tx { tx with state := .committed, committedAt := some env.now }
  | delivered {tx : Transaction} (sent : tx.state = .committed) :
    Updates sha256 opts env pending (.markDelivered tx.id) tx { tx with state := .delivered, deliveredAt := some env.now }
  | retained {admin : Caller} {days expires : Int} {tx : Transaction} (allowed : admin.isAdmin = true) (least : 1 ≤ days)
    (most : days ≤ opts.maxRetentionDays) (current : tx.state ≠ .expired)
    (lasts : expiresAt tx.createdAt days = .ok expires) :
    Updates sha256 opts env pending (.setRetention admin tx.id days) tx { tx with expiresAt := expires }
  | marked {op : Op} {tx : Transaction} (drops : Drops op tx.id) (current : tx.state ≠ .expired) :
    Updates sha256 opts env pending op tx { tx with state := .expired }

/-- The parts of an upload that leave the index alone. -/
def Op.streams : Op → Bool
  | .beginUpload _ _ _ | .writeUpload _ _ | .dropUpload _ => true
  | _ => false

section Turn

variable (sha256 : Bytes → Sha256Digest) (opts : ServiceOptions) (env : Env) (pending : List PendingUpload) (op : Op)

/-- The calls an operation may make, by what the index holds when it makes them. -/
def May : SvcCall → Index → Prop
  | .insert tx, _ => Opens opts env op tx
  | .save tx', i => ∃ tx, i.lookup tx.id = some tx ∧ Updates sha256 opts env pending op tx tx'
  | .saveManifest tx', i => ∃ tx, i.lookup tx.id = some tx ∧ tx.state = .open ∧ tx'.state = .committed ∧
    Updates sha256 opts env pending op tx tx'
  | .remove id, i => Drops op id ∧ ∃ tx, i.lookup id = some tx ∧ tx.state = .expired
  | .beginUpload id path, i => ∃ caller tx, op = .beginUpload caller id path ∧ i.lookup id = some tx ∧
    mayWrite caller tx = true ∧ tx.state = .open
  | .writeUpload u chunk, _ => ∃ k p, op = .writeUpload k chunk ∧ pending[k]? = some p ∧ p.upload = u
  | .commitUpload u expected, i => ∃ k p tx, op = .finishUpload k expected ∧ pending[k]? = some p ∧ p.upload = u ∧
    i.lookup p.id = some tx ∧ tx.state = .open
  | .discardUpload u, _ => ∃ k p, op = .dropUpload k ∧ pending[k]? = some p ∧ p.upload = u ∧ u.done = false
  | .removeFile id path, i => ∃ caller tx, op = .removeFile caller id path ∧ i.lookup id = some tx ∧
    mayWrite caller tx = true ∧ tx.state = .open ∧ ∃ file ∈ tx.files, file.path = path
  | _, _ => True

/-- What an operation with this reply has done to the index. -/
inductive Takes : Result Unit → Index → Index → Prop
  | opened {i : Index} {tx : Transaction} (opens : Opens opts env op tx) (absent : i.lookup tx.id = none) :
    Takes (.ok ()) i (i.insert tx.id tx)
  | updated {i : Index} {tx tx' : Transaction} (known : i.lookup tx.id = some tx)
    (updates : Updates sha256 opts env pending op tx tx') (stays : ∀ id, ¬ Drops op id) :
    Takes (.ok ()) i (i.insert tx.id tx')
  | dropped {i : Index} {id : TransactionId} {tx : Transaction} (known : i.lookup id = some tx) (drops : Drops op id) :
    Takes (.ok ()) i (i.erase id)
  | streamed {i : Index} (part : op.streams = true) : Takes (.ok ()) i i
  | refused {i : Index} (e : Error) : Takes (.error e) i i
  | marked {i : Index} {tx tx' : Transaction} (e : Error) (known : i.lookup tx.id = some tx) (drops : Drops op tx.id)
    (updates : Updates sha256 opts env pending op tx tx') : Takes (.error e) i (i.insert tx.id tx')

/-- What becomes of the uploads in progress. -/
inductive Holds (i : Index) : Op → List PendingUpload → Prop
  | same {op : Op} : Holds i op pending
  | began {caller : Caller} {id : TransactionId} {path : RelativePath} {tx : Transaction} (n : Nat)
    (known : i.lookup id = some tx) (allowed : mayWrite caller tx = true) (isOpen : tx.state = .open) :
    Holds i (.beginUpload caller id path) (pending ++ [⟨id,caller,tmpPath id n,payloadPath id path,path,[],0,false⟩])
  | wrote {k : Nat} {chunk : Bytes} {p : PendingUpload} {u : Upload} (here : pending[k]? = some p)
    (advances : p.upload.Advances u) : Holds i (.writeUpload k chunk) (pending.set k { p with upload := u })
  | finished {k : Nat} {expected : Option Sha256Digest} {p : PendingUpload} {u : Upload} (here : pending[k]? = some p)
    (advances : p.upload.Advances u) : Holds i (.finishUpload k expected) (pending.set k { p with upload := u })
  | dropped {k : Nat} : Holds i (.dropUpload k) (pending.eraseIdx k)

/-- What an operation that has made `tx` of the transaction adds to the log. -/
def Op.posts (tx : Transaction) (log : List BizEvent) : Op → List BizEvent
  | .create caller _ => log ++ [eventFor .txCreated tx caller]
  | .finishUpload k _ => match pending[k]? with
    | none => log
    | some p => log ++ [{ eventFor .fileAdded tx p.caller with
        file := some p.upload.path.value, size := some p.upload.size, sha256 := some (sha256 p.upload.hashed).toHex }]
  | .removeFile caller _ path => log ++ [{ eventFor .fileRemoved tx caller with file := some path.value }]
  | .commit caller _ => log ++ [{ eventFor (if isOriginPeer caller tx then .received else .committed) tx caller with
      fileCount := some (UInt32.ofNat tx.files.length), totalBytes := some tx.totalBytes }]
  | .markDelivered _ => log ++ [{ eventFor .forwarded tx TransactionService.system with
      fileCount := some (UInt32.ofNat tx.files.length), totalBytes := some tx.totalBytes }]
  | .setRetention admin _ days => log ++ [{ eventFor .retentionChanged tx admin with retentionDays := some days }]
  | .expire _ => log ++ [eventFor .expired tx TransactionService.system]
  | .adminDelete admin _ => log ++ [eventFor .adminDeleted tx admin]
  | .receive _ _ | .beginUpload _ _ _ | .writeUpload _ _ | .dropUpload _ => log

/-- What an operation with this reply has done to the book. -/
inductive Posts : Result Unit → Book → Book → Prop
  | opened {b : Book} {tx : Transaction} (opens : Opens opts env op tx) (absent : b.index.lookup tx.id = none) :
    Posts (.ok ()) b ⟨b.index.insert tx.id tx,op.posts sha256 pending tx b.log⟩
  | updated {b : Book} {tx tx' : Transaction} (known : b.index.lookup tx.id = some tx)
    (updates : Updates sha256 opts env pending op tx tx') (stays : ∀ id, ¬ Drops op id) :
    Posts (.ok ()) b ⟨b.index.insert tx.id tx',op.posts sha256 pending tx' b.log⟩
  | dropped {b : Book} {tx tx' : Transaction} (known : b.index.lookup tx.id = some tx) (drops : Drops op tx.id)
    (expired : tx' = { tx with state := .expired }) :
    Posts (.ok ()) b ⟨b.index.erase tx.id,op.posts sha256 pending tx' b.log⟩
  | streamed {b : Book} (part : op.streams = true) : Posts (.ok ()) b b
  | refused {b : Book} (e : Error) : Posts (.error e) b b
  | marked {b : Book} {tx tx' : Transaction} (e : Error) (known : b.index.lookup tx.id = some tx) (drops : Drops op tx.id)
    (updates : Updates sha256 opts env pending op tx tx') : Posts (.error e) b ⟨b.index.insert tx.id tx',b.log⟩

def MayNow (c : SvcCall) (b : Book) : Prop := May sha256 opts env pending op c b.index

/-- The operation makes only the calls it may make, and ends as `post` says, however the store behaves. -/
def Obeys (p : SvcM α) (b : Book) (post : Result α → Book → Prop) : Prop :=
  Guarantees (SvcCall.Books sha256 env) (MayNow sha256 opts env pending op) p.run b post

end Turn

variable {tx : Transaction} {id : TransactionId} {c : SvcCall}

section Rules

variable {sha256 : Bytes → Sha256Digest} {opts : ServiceOptions} {env : Env} {pending : List PendingUpload} {op : Op}
  {b : Book} {post : Result β → Book → Prop}

theorem obeys_bind {p : SvcM α} {f : α → SvcM β} : Obeys sha256 opts env pending op (p >>= f) b post ↔
    Obeys sha256 opts env pending op p b fun result b' => match result with
      | .ok value => Obeys sha256 opts env pending op (f value) b' post
      | .error e => post (.error e) b' := by
  unfold Obeys
  rw [guarantees_exceptT_bind]
  constructor
  · exact fun holds => holds.mono fun result b' ends => by cases result <;> exact ends
  · exact fun holds => holds.mono fun result b' ends => by cases result <;> exact ends

variable {f : Unit → SvcM β}

theorem obeys_refuse_bind {bad : Bool} {e : Error} : Obeys sha256 opts env pending op (refuse bad e >>= f) b post ↔
      (bad = true → post (.error e) b) ∧ (bad = false → Obeys sha256 opts env pending op (f ()) b post) :=
  guarantees_refuse_bind

theorem obeys_ensure_bind {result : Result α} {f : α → SvcM β} :
    Obeys sha256 opts env pending op (ensure result >>= f) b post ↔ (∀ e, result = .error e → post (.error e) b) ∧
      (∀ value, result = .ok value → Obeys sha256 opts env pending op (f value) b post) := guarantees_ensure_bind

theorem obeys_env_bind {c : EnvCall} {f : c.Reply → SvcM β} :
    Obeys sha256 opts env pending op (@bind SvcM _ c.Reply β (ask (.env c)) f) b post ↔
      Obeys sha256 opts env pending op (f (c.answer env)) ⟨b.index,(SvcCall.env c).posts b.log⟩ post := by
  unfold Obeys ask
  rw [guarantees_exceptT_bind,ExceptT.run_lift,guarantees_map]
  refine ⟨fun holds => holds.2 _ _ ⟨_,⟨rfl,rfl⟩,rfl⟩,fun holds => ⟨trivial,?_⟩⟩
  rintro _ _ ⟨_,⟨rfl,rfl⟩,rfl⟩
  exact holds

@[simp] theorem obeys_now_bind {f : Int → SvcM β} :
    Obeys sha256 opts env pending op (@bind SvcM _ Int β (ask (.env .now)) f) b post ↔
      Obeys sha256 opts env pending op (f env.now) b post := @obeys_env_bind _ sha256 opts env pending op b post .now f

@[simp] theorem obeys_generate_bind {f : TransactionId → SvcM β} :
    Obeys sha256 opts env pending op (@bind SvcM _ TransactionId β (ask (.env .generate)) f) b post ↔
      Obeys sha256 opts env pending op (f env.fresh) b post :=
  @obeys_env_bind _ sha256 opts env pending op b post .generate f

@[simp] theorem obeys_record_bind {event : BizEvent} :
    Obeys sha256 opts env pending op (@bind SvcM _ Unit β (ask (.env (.record event))) f) b post ↔
      Obeys sha256 opts env pending op (f ()) ⟨b.index,b.log ++ [event]⟩ post :=
  @obeys_env_bind _ sha256 opts env pending op b post (.record event) f

@[simp] theorem obeys_onCommitted_bind :
    Obeys sha256 opts env pending op (@bind SvcM _ Unit β (ask (.env (.onCommitted tx))) f) b post ↔
      Obeys sha256 opts env pending op (f ()) b post :=
  @obeys_env_bind _ sha256 opts env pending op b post (.onCommitted tx) f

@[simp] theorem obeys_record {event : BizEvent} {post : Result Unit → Book → Prop} :
    Obeys sha256 opts env pending op (ask (.env (.record event))) b post ↔ post (.ok ()) ⟨b.index,b.log ++ [event]⟩ := by
  rw [← bind_pure (ask (.env (.record event))),obeys_record_bind]
  rfl

@[simp] theorem obeys_eraseLock {post : Result Unit → Book → Prop} :
    Obeys sha256 opts env pending op (ask (.env (.eraseLock id))) b post ↔ post (.ok ()) b := by
  rw [← bind_pure (ask (.env (.eraseLock id)))]
  exact @obeys_env_bind _ sha256 opts env pending op b post (.eraseLock id) pure

@[simp] theorem obeys_find_bind {f : Option Transaction → SvcM β} :
    Obeys sha256 opts env pending op (@bind SvcM _ (Option Transaction) β (ask (.find id)) f) b post ↔
      Obeys sha256 opts env pending op (f (b.index.lookup id)) b post := by
  unfold Obeys ask
  rw [guarantees_exceptT_bind,ExceptT.run_lift,guarantees_map]
  refine ⟨fun holds => holds.2 _ _ ⟨_,⟨rfl,rfl⟩,rfl⟩,fun holds => ⟨trivial,?_⟩⟩
  rintro _ _ ⟨_,⟨rfl,rfl⟩,rfl⟩
  exact holds

theorem obeys_try_bind {p : Prog Svc (Result α)} {f : α → SvcM β} :
    Obeys sha256 opts env pending op (tryCall p >>= f) b post ↔
      Guarantees (SvcCall.Books sha256 env) (MayNow sha256 opts env pending op) p b fun result b' => match result with
        | .ok value => Obeys sha256 opts env pending op (f value) b' post
        | .error e => post (.error e) b' := obeys_bind

theorem obeys_checkDestination_bind {user server : Bytes} (stop : ∀ e, post (.error e) b)
    (next : Obeys sha256 opts env pending op (f ()) b post) :
    Obeys sha256 opts env pending op (tryCall (svc (.env (.checkDestination user server))) >>= f) b post := by
  refine obeys_try_bind.mpr ⟨trivial,?_⟩
  rintro (_ | _) _ ⟨_,⟨rfl,_⟩,rfl⟩
  · exact stop _
  · exact next

theorem obeys_insert_bind (opens : Opens opts env op tx) (stop : ∀ e, post (.error e) b)
    (next : b.index.lookup tx.id = none → Obeys sha256 opts env pending op (f ()) ⟨b.index.insert tx.id tx,b.log⟩ post) :
    Obeys sha256 opts env pending op (tryCall (svc (.insert tx)) >>= f) b post := by
  refine obeys_try_bind.mpr ⟨opens,?_⟩
  rintro _ _ ⟨_,⟨rfl,absent,rfl⟩ | ⟨⟨e,rfl⟩,rfl⟩,rfl⟩
  · exact next absent
  · exact stop e

theorem obeys_save_bind {tx' : Transaction} (known : b.index.lookup tx.id = some tx)
    (named : tx'.id = tx.id) (updates : Updates sha256 opts env pending op tx tx') (stop : ∀ e, post (.error e) b)
    (next : Obeys sha256 opts env pending op (f ()) ⟨b.index.insert tx.id tx',b.log⟩ post) :
    Obeys sha256 opts env pending op (tryCall (svc (.save tx')) >>= f) b post := by
  refine obeys_try_bind.mpr ⟨⟨tx,known,updates⟩,?_⟩
  rintro _ _ ⟨_,⟨rfl,_,rfl⟩ | ⟨⟨e,rfl⟩,rfl⟩,rfl⟩
  · rw [named]
    exact next
  · exact stop e

theorem obeys_remove_bind (drops : Drops op id)
    (known : b.index.lookup id = some tx) (expired : tx.state = .expired) (stop : ∀ e, post (.error e) b)
    (next : Obeys sha256 opts env pending op (f ()) ⟨b.index.erase id,b.log⟩ post) :
    Obeys sha256 opts env pending op (tryCall (svc (.remove id)) >>= f) b post := by
  refine obeys_try_bind.mpr ⟨⟨drops,tx,known,expired⟩,?_⟩
  rintro _ _ ⟨_,⟨rfl,rfl⟩ | ⟨⟨e,rfl⟩,rfl⟩,rfl⟩
  · exact next
  · exact stop e

theorem guarantees_store (may : May sha256 opts env pending op c b.index)
    (still : ∀ i reply i', c.Effect sha256 env i reply i' → i' = i) (mute : ∀ log, c.posts log = log) :
    Guarantees (SvcCall.Books sha256 env) (MayNow sha256 opts env pending op) (svc c) b fun _ b' => b' = b := by
  refine ⟨may,?_⟩
  rintro reply _ ⟨i,effect,rfl⟩
  obtain rfl := still _ _ _ effect
  exact congrArg (Book.mk b.index) (mute b.log)

/-- A call on the store that has nothing to do with the book. -/
theorem obeys_store_bind {p : Prog Svc (Result α)} {f : α → SvcM β}
    (call : Guarantees (SvcCall.Books sha256 env) (MayNow sha256 opts env pending op) p b fun _ b' => b' = b)
    (stop : ∀ e, post (.error e) b) (next : ∀ value, Obeys sha256 opts env pending op (f value) b post) :
    Obeys sha256 opts env pending op (tryCall p >>= f) b post := by
  refine obeys_try_bind.mpr (call.mono ?_)
  rintro (e | value) _ rfl
  · exact stop e
  · exact next value

theorem guarantees_svc_bind {f : c.Reply → Prog Svc α} {post : α → Book → Prop} :
    Guarantees (SvcCall.Books sha256 env) (MayNow sha256 opts env pending op) (svc c >>= f) b post ↔
      May sha256 opts env pending op c b.index ∧ ∀ reply b', c.Books sha256 env b reply b' →
        Guarantees (SvcCall.Books sha256 env) (MayNow sha256 opts env pending op) (f reply) b' post := Iff.rfl

theorem guarantees_withLock {body : Prog Svc α} {post : α → Book → Prop}
    (holds : Guarantees (SvcCall.Books sha256 env) (MayNow sha256 opts env pending op) body b post) :
    Guarantees (SvcCall.Books sha256 env) (MayNow sha256 opts env pending op) (TransactionService.withLock id body) b post := by
  unfold TransactionService.withLock
  refine guarantees_svc_bind.mpr ⟨trivial,?_⟩
  rintro mutex _ ⟨_,⟨rfl,_⟩,rfl⟩
  refine guarantees_svc_bind.mpr ⟨trivial,?_⟩
  rintro _ _ ⟨_,⟨rfl,_⟩,rfl⟩
  refine (guarantees_bind _ _ _ _).mpr (holds.mono fun value b' ends => guarantees_svc_bind.mpr ⟨trivial,?_⟩)
  rintro _ _ ⟨_,⟨rfl,_⟩,rfl⟩
  exact ends

theorem obeys_locked {body : SvcM β} (holds : Obeys sha256 opts env pending op body b post) :
    Obeys sha256 opts env pending op (TransactionService.locked id body) b post := guarantees_withLock holds

theorem obeys_findMutable_bind {caller : Caller} {f : Transaction → SvcM β} (stop : ∀ e, post (.error e) b)
    (next : ∀ tx, b.index.lookup id = some tx → mayWrite caller tx = true → tx.state = .open →
      Obeys sha256 opts env pending op (f tx) b post) :
    Obeys sha256 opts env pending op (TransactionService.findMutable caller id >>= f) b post := by
  unfold TransactionService.findMutable
  rw [obeys_bind,obeys_find_bind]
  cases known : b.index.lookup id with
  | none => exact stop _
  | some tx =>
    simp only [obeys_refuse_bind,obeys_ensure_bind]
    refine ⟨fun _ => stop _,fun allowed => ⟨fun _ _ => stop _,fun _ isOpen => ?_⟩⟩
    exact next tx known (by simpa using allowed) (requireMutable_ok.mp isOpen)

theorem checkFiles_obeys (id : TransactionId) (files : List FileEntry) :
    Obeys sha256 opts env pending op (TransactionService.checkFiles id files) b fun _ b' => b' = b := by
  induction files with
  | nil => exact rfl
  | cons entry rest ih =>
    unfold TransactionService.checkFiles
    refine obeys_store_bind (guarantees_store trivial (fun _ _ _ same => same) fun _ => rfl) (fun _ => rfl) fun _ => ?_
    exact obeys_refuse_bind.mpr ⟨fun _ => rfl,fun _ => ih⟩

end Rules

/-- A property of every stored transaction. -/
def Throughout (P : TransactionId → Transaction → Prop) (i : Index) : Prop := ∀ id tx, i.lookup id = some tx → P id tx

/-- Every transaction is stored under its own id. -/
abbrev Keyed (i : Index) : Prop := Throughout (fun id tx => tx.id = id) i

section Operations

variable {sha256 : Bytes → Sha256Digest} {opts : ServiceOptions} {env : Env} {pending : List PendingUpload} {op : Op}
  {b : Book}

/-- The operation does to the index what the ledger allows. -/
abbrev Settles (sha256 : Bytes → Sha256Digest) (opts : ServiceOptions) (env : Env) (pending : List PendingUpload) (op : Op)
    (p : SvcM α) (b : Book) : Prop :=
  Obeys sha256 opts env pending op p b fun result b' => Posts sha256 opts env pending op (result.map fun _ => ()) b b'

theorem create_settles (caller : Caller) (req : CreateRequest) :
    Settles sha256 opts env pending (.create caller req) (TransactionService.create opts caller req) b := by
  unfold TransactionService.create
  simp only [obeys_refuse_bind,decide_eq_true_eq,decide_eq_false_iff_not]
  refine ⟨fun _ => .refused _,fun user => ⟨fun _ => .refused _,fun target => ⟨fun _ => .refused _,fun least =>
    ⟨fun _ => .refused _,fun most => ?_⟩⟩⟩⟩
  refine obeys_ensure_bind.mpr ⟨fun _ _ => .refused _,fun _ comment => ?_⟩
  refine obeys_checkDestination_bind (fun _ => .refused _) ?_
  rw [obeys_now_bind]
  refine obeys_ensure_bind.mpr ⟨fun _ _ => .refused _,fun expires lasts => ?_⟩
  rw [obeys_generate_bind]
  have opens : Opens opts env (.create caller req) _ := .created user target (by omega) (by omega) comment lasts
  refine obeys_insert_bind opens (fun _ => .refused _) fun absent => ?_
  rw [obeys_record_bind]
  exact .opened opens absent

theorem receive_settles (peer : Caller) (req : ReceiveRequest) :
    Settles sha256 opts env pending (.receive peer req) (TransactionService.receive opts peer req) b := by
  unfold TransactionService.receive
  simp only [obeys_refuse_bind,decide_eq_true_eq,decide_eq_false_iff_not]
  refine ⟨fun _ => .refused _,fun isPeer => ⟨fun _ => .refused _,fun named => ⟨fun _ => .refused _,fun lasts => ?_⟩⟩⟩
  refine obeys_ensure_bind.mpr ⟨fun _ _ => .refused _,fun _ comment => ?_⟩
  refine obeys_checkDestination_bind (fun _ => .refused _) (obeys_locked ?_)
  have opens : Opens opts env (.receive peer req) _ :=
    .received (by simpa using isPeer) (not_or.mp named).1 (not_or.mp named).2 (by omega) comment
  exact obeys_insert_bind opens (fun _ => .refused _) fun absent => .opened opens absent

theorem removeFile_settles (keyed : Keyed b.index) (caller : Caller) (id : TransactionId) (path : RelativePath) :
    Settles sha256 opts env pending (.removeFile caller id path) (TransactionService.removeFile caller id path) b := by
  unfold TransactionService.removeFile
  refine obeys_locked (obeys_findMutable_bind (fun _ => .refused _) fun tx known allowed isOpen => ?_)
  obtain rfl := keyed id tx known
  refine obeys_refuse_bind.mpr ⟨fun _ => .refused _,fun unlisted => ?_⟩
  have listed : ∃ file ∈ tx.files, file.path = path := by simpa using unlisted
  refine obeys_store_bind (guarantees_store ⟨caller,tx,rfl,known,allowed,isOpen,listed⟩ (fun _ _ _ same => same)
    fun _ => rfl) (fun _ => .refused _) fun _ => ?_
  have updates : Updates sha256 opts env pending (.removeFile caller tx.id path) tx _ := .erased allowed isOpen listed
  refine obeys_save_bind known rfl updates (fun _ => .refused _) ?_
  rw [obeys_record]
  exact .updated known updates nofun

theorem commit_settles (keyed : Keyed b.index) (caller : Caller) (id : TransactionId) :
    Settles sha256 opts env pending (.commit caller id) (TransactionService.commit caller id) b := by
  unfold TransactionService.commit
  refine obeys_bind.mpr (obeys_locked ?_)
  rw [obeys_find_bind]
  cases known : b.index.lookup id with
  | none => exact .refused _
  | some tx =>
    obtain rfl := keyed id tx known
    refine obeys_refuse_bind.mpr ⟨fun _ => .refused _,fun refused => ?_⟩
    refine obeys_ensure_bind.mpr ⟨fun _ _ => .refused _,fun _ ready => ?_⟩
    have isOpen := checkTransition_committed.mp ready
    have updates : Updates sha256 opts env pending (.commit caller tx.id) tx _ := .committed (by simpa using refused) isOpen
    refine obeys_bind.mpr ((checkFiles_obeys tx.id tx.files).mono ?_)
    rintro (e | _) _ rfl
    · exact .refused e
    dsimp only
    rw [obeys_now_bind]
    refine obeys_store_bind (guarantees_store ⟨tx,known,isOpen,rfl,updates⟩ (fun _ _ _ same => same) fun _ => rfl)
      (fun _ => .refused _) fun _ => ?_
    refine obeys_save_bind known rfl updates (fun _ => .refused _) ?_
    rw [obeys_record_bind]
    change Obeys _ _ _ _ _ (ask _ >>= _) _ _
    rw [obeys_onCommitted_bind]
    exact .updated known updates nofun

theorem markDelivered_settles (keyed : Keyed b.index) (id : TransactionId) :
    Settles sha256 opts env pending (.markDelivered id) (TransactionService.markDelivered id) b := by
  unfold TransactionService.markDelivered
  refine obeys_locked ?_
  rw [obeys_find_bind]
  cases known : b.index.lookup id with
  | none => exact .refused _
  | some tx =>
    obtain rfl := keyed id tx known
    refine obeys_ensure_bind.mpr ⟨fun _ _ => .refused _,fun _ ready => ?_⟩
    rw [obeys_now_bind]
    have updates : Updates sha256 opts env pending (.markDelivered tx.id) tx _ :=
      .delivered (checkTransition_delivered.mp ready)
    refine obeys_save_bind known rfl updates (fun _ => .refused _) ?_
    rw [obeys_record]
    exact .updated known updates nofun

theorem setRetention_settles (keyed : Keyed b.index) (admin : Caller) (id : TransactionId) (days : Int) :
    Settles sha256 opts env pending (.setRetention admin id days) (TransactionService.setRetention opts admin id days) b := by
  unfold TransactionService.setRetention
  simp only [obeys_refuse_bind,decide_eq_true_eq,decide_eq_false_iff_not]
  refine ⟨fun _ => .refused _,fun refused => ⟨fun _ => .refused _,fun range => obeys_locked ?_⟩⟩
  rw [obeys_find_bind]
  cases known : b.index.lookup id with
  | none => exact .refused _
  | some tx =>
    obtain rfl := keyed id tx known
    refine obeys_refuse_bind.mpr ⟨fun _ => .refused _,fun current => ?_⟩
    refine obeys_ensure_bind.mpr ⟨fun _ _ => .refused _,fun expires lasts => ?_⟩
    have updates : Updates sha256 opts env pending (.setRetention admin tx.id days) tx _ :=
      .retained (by simpa using refused) (by omega) (by omega) (by simpa using current) lasts
    refine obeys_save_bind known rfl updates (fun _ => .refused _) ?_
    rw [obeys_record_bind]
    exact .updated known updates nofun

/-- The transaction is expired when its removal begins. -/
theorem markExpired_obeys (known : b.index.lookup tx.id = some tx) (drops : Drops op tx.id) :
    Obeys sha256 opts env pending op (TransactionService.markExpired tx) b fun result b' =>
      match result with
      | .ok tx' => tx' = { tx with state := .expired } ∧ b'.index.lookup tx.id = some tx' ∧
        b'.index.erase tx.id = b.index.erase tx.id ∧ b'.log = b.log ∧
        ∀ e, Posts sha256 opts env pending op (.error e) b b'
      | .error _ => b' = b := by
  unfold TransactionService.markExpired
  split
  · rename_i expired
    exact ⟨by rw [← expired],known,rfl,rfl,fun e => .refused e⟩
  · rename_i current
    have updates : Updates sha256 opts env pending op tx _ := .marked drops current
    refine obeys_ensure_bind.mpr ⟨fun _ _ => rfl,fun _ _ => obeys_save_bind known rfl updates (fun _ => rfl) ?_⟩
    exact ⟨rfl,Finmap.lookup_insert _,erase_insert _ _ _,rfl,fun e => .marked e known drops updates⟩

theorem destroy_settles (keyed : Keyed b.index) (drops : Drops op id) (type : BizEventType)
    (actor : Caller) (posts : ∀ tx log, op.posts sha256 pending tx log = log ++ [eventFor type tx actor]) :
    Settles sha256 opts env pending op (TransactionService.destroy id type actor) b := by
  unfold TransactionService.destroy
  refine obeys_bind.mpr (obeys_locked ?_)
  rw [obeys_find_bind]
  cases known : b.index.lookup id with
  | none => exact .refused _
  | some tx =>
    obtain rfl := keyed id tx known
    refine obeys_bind.mpr ((markExpired_obeys known drops).mono ?_)
    rintro (e | tx') b' ends
    · dsimp only at ends ⊢
      rw [ends]
      exact .refused e
    obtain ⟨expired,there,rest,log,left⟩ := ends
    refine obeys_remove_bind drops there (by rw [expired]) left ?_
    rw [obeys_record,obeys_eraseLock]
    dsimp only
    rw [rest,log,← posts]
    exact .dropped known drops expired

theorem adminDelete_settles (keyed : Keyed b.index) (admin : Caller) (id : TransactionId) :
    Settles sha256 opts env pending (.adminDelete admin id) (TransactionService.adminDelete admin id) b := by
  unfold TransactionService.adminDelete
  split
  · exact destroy_settles keyed (.deleted (by assumption)) .adminDeleted admin fun _ _ => rfl
  · exact .refused _

theorem beginUpload_obeys (caller : Caller) (id : TransactionId) (path : RelativePath) :
    Obeys sha256 opts env pending (.beginUpload caller id path) (TransactionService.beginUpload caller id path) b
      fun result b' => b' = b ∧ ∀ p, result = .ok p → ∃ tx n, b.index.lookup id = some tx ∧ mayWrite caller tx = true ∧
        tx.state = .open ∧ p = ⟨id,caller,tmpPath id n,payloadPath id path,path,[],0,false⟩ := by
  unfold TransactionService.beginUpload
  refine obeys_locked (obeys_findMutable_bind (fun _ => ⟨rfl,nofun⟩) fun tx known allowed isOpen => ?_)
  refine obeys_try_bind.mpr ⟨⟨caller,tx,rfl,known,allowed,isOpen⟩,?_⟩
  rintro (_ | u) _ ⟨_,⟨rfl,shape⟩,rfl⟩
  · exact ⟨rfl,nofun⟩
  · obtain ⟨n,rfl⟩ := shape u rfl
    refine ⟨rfl,?_⟩
    rintro _ ⟨⟩
    exact ⟨tx,n,known,allowed,isOpen,rfl⟩

theorem finishUpload_guarantees (keyed : Keyed b.index) {k : Nat} {p : PendingUpload} (here : pending[k]? = some p)
    (expected : Option Sha256Digest) :
    Guarantees (SvcCall.Books sha256 env) (MayNow sha256 opts env pending (.finishUpload k expected))
      (TransactionService.finishUpload p expected) b fun result b' =>
        Posts sha256 opts env pending (.finishUpload k expected) (result.1.map fun _ => ()) b b' ∧
          ∃ u, p.upload.Advances u ∧ result.2 = { p with upload := u } := by
  unfold TransactionService.finishUpload
  refine guarantees_withLock (guarantees_svc_bind.mpr ⟨trivial,?_⟩)
  rintro _ b ⟨_,⟨rfl,rfl⟩,rfl⟩
  cases known : b.index.lookup p.id with
  | none => exact ⟨.refused _,_,.same,rfl⟩
  | some tx =>
    have its := keyed p.id tx known
    dsimp only
    cases ready : requireMutable tx.state with
    | error e => exact ⟨.refused e,_,.same,rfl⟩
    | ok =>
      have isOpen := requireMutable_ok.mp ready
      refine guarantees_svc_bind.mpr ⟨⟨k,p,tx,rfl,here,rfl,known,isOpen⟩,?_⟩
      rintro ⟨_ | stored,u⟩ _ ⟨_,⟨rfl,advances,shape⟩,rfl⟩
      · exact ⟨.refused _,u,advances,rfl⟩
      obtain ⟨progress,rfl,agreed⟩ := shape stored rfl
      rw [← its] at known
      have updates : Updates sha256 opts env pending (.finishUpload k expected) tx _ :=
        .uploaded here its.symm isOpen progress agreed
      refine guarantees_svc_bind.mpr ⟨⟨tx,known,updates⟩,?_⟩
      have posts := Posts.updated known updates nofun
      rw [Op.posts,here] at posts
      rintro _ _ ⟨_,⟨rfl,_,rfl⟩ | ⟨⟨e,rfl⟩,rfl⟩,rfl⟩
      · refine guarantees_svc_bind.mpr ⟨trivial,?_⟩
        rintro _ _ ⟨_,⟨rfl,_⟩,rfl⟩
        exact ⟨posts,u,advances,rfl⟩
      · exact ⟨.refused e,u,advances,rfl⟩

theorem report_guarantees {p : SvcM α} (settles : Settles sha256 opts env pending op p b) :
    Guarantees (SvcCall.Books sha256 env) (MayNow sha256 opts env pending op) (report pending p) b fun result b' =>
      Posts sha256 opts env pending op result.1 b b' ∧ Holds pending b.index op result.2 :=
  (guarantees_bind _ _ _ _).mpr (Guarantees.mono settles fun _ _ takes => ⟨takes,.same⟩)

/-- The text of every operation keeps to the ledger, whatever the store answers. -/
theorem program_guarantees (keyed : Keyed b.index) (op : Op) :
    Guarantees (SvcCall.Books sha256 env) (MayNow sha256 opts env pending op) (op.program opts pending) b fun result b' =>
      Posts sha256 opts env pending op result.1 b b' ∧ Holds pending b.index op result.2 := by
  cases op with
  | create caller req => exact report_guarantees (create_settles caller req)
  | beginUpload caller id path =>
    refine (guarantees_bind _ _ _ _).mpr (Guarantees.mono (beginUpload_obeys caller id path) ?_)
    rintro (e | p) _ ⟨rfl,shape⟩
    · exact ⟨.refused e,.same⟩
    · obtain ⟨tx,n,known,allowed,isOpen,rfl⟩ := shape p rfl
      exact ⟨.streamed rfl,.began n known allowed isOpen⟩
  | writeUpload k chunk =>
    unfold Op.program
    dsimp only
    split
    · exact ⟨.refused _,.same⟩
    · rename_i p here
      refine ⟨⟨k,p,rfl,here,rfl⟩,?_⟩
      rintro ⟨_ | _,u⟩ _ ⟨_,⟨rfl,advances⟩,rfl⟩
      · exact ⟨.refused _,.wrote here advances⟩
      · exact ⟨.streamed rfl,.wrote here advances⟩
  | finishUpload k expected =>
    unfold Op.program
    dsimp only
    split
    · exact ⟨.refused _,.same⟩
    · rename_i p here
      refine (guarantees_bind _ _ _ _).mpr ((finishUpload_guarantees keyed here expected).mono ?_)
      rintro ⟨result,_⟩ b' ⟨takes,u,advances,rfl⟩
      exact ⟨takes,.finished here advances⟩
  | dropUpload k =>
    unfold Op.program TransactionService.dropUpload
    dsimp only
    split
    · exact ⟨.refused _,.same⟩
    · rename_i p here
      split
      · exact ⟨.streamed rfl,.dropped⟩
      · rename_i progress
        refine ⟨⟨k,p,rfl,here,rfl,by simpa using progress⟩,?_⟩
        rintro u _ ⟨_,⟨rfl,_⟩,rfl⟩
        exact ⟨.streamed rfl,.dropped⟩
  | removeFile caller id path => exact report_guarantees (removeFile_settles keyed caller id path)
  | commit caller id => exact report_guarantees (commit_settles keyed caller id)
  | receive peer req => exact report_guarantees (receive_settles peer req)
  | markDelivered id => exact report_guarantees (markDelivered_settles keyed id)
  | setRetention admin id days => exact report_guarantees (setRetention_settles keyed admin id days)
  | expire id => exact report_guarantees (destroy_settles keyed .expired .expired TransactionService.system fun _ _ => rfl)
  | adminDelete admin id => exact report_guarantees (adminDelete_settles keyed admin id)

end Operations

variable {sha256 : Bytes → Sha256Digest} {opts : ServiceOptions} {env : Env} {s : Server}

/-- A step of a server is a step of the ledger, and so are its calls. -/
theorem step_posts [BoostJson] (sha256 : Bytes → Sha256Digest) (opts : ServiceOptions) (env : Env) (keyed : Keyed s.world.index) (op : Op) :
    (Posts sha256 opts env s.pending op (s.reply sha256 opts env op) s.world.book (s.step sha256 opts env op).world.book ∧
        Holds s.pending s.world.index op (s.step sha256 opts env op).pending) ∧
      ∀ call ∈ s.calls sha256 opts env op, May sha256 opts env s.pending op call.1 call.2.index :=
  (program_guarantees keyed op).sound (Svc.handle sha256 env) World.book fun c w => handle_books sha256 env c w

variable {result : Result Unit}

theorem Posts.takes {pending : List PendingUpload} {op : Op} {b b' : Book}
    (posts : Posts sha256 opts env pending op result b b') : Takes sha256 opts env pending op result b.index b'.index := by
  cases posts with
  | opened opens absent => exact .opened opens absent
  | updated known updates stays => exact .updated known updates stays
  | dropped known drops => exact .dropped known drops
  | streamed part => exact .streamed part
  | refused e => exact .refused e
  | marked e known drops updates => exact .marked e known drops updates

theorem step_takes [BoostJson] (sha256 : Bytes → Sha256Digest) (opts : ServiceOptions) (env : Env) (keyed : Keyed s.world.index) (op : Op) :
    (Takes sha256 opts env s.pending op (s.reply sha256 opts env op) s.world.index (s.step sha256 opts env op).world.index ∧
        Holds s.pending s.world.index op (s.step sha256 opts env op).pending) ∧
      ∀ call ∈ s.calls sha256 opts env op, May sha256 opts env s.pending op call.1 call.2.index := by
  obtain ⟨⟨posts,holds⟩,may⟩ := step_posts sha256 opts env keyed op
  exact ⟨⟨posts.takes,holds⟩,may⟩

theorem Updates.named {pending : List PendingUpload} {op : Op} {tx' : Transaction}
    (updates : Updates sha256 opts env pending op tx tx') : tx'.id = tx.id := by
  cases updates <;> rfl

section Throughout

variable {P : TransactionId → Transaction → Prop} {i i' : Index} {pending : List PendingUpload} {op : Op}

theorem Throughout.insert (all : Throughout P i) (new : P id tx) :
    Throughout P (i.insert id tx) := by
  intro id' tx' found
  by_cases same : id' = id
  · subst same
    rw [Finmap.lookup_insert] at found
    exact Option.some.inj found ▸ new
  · rw [Finmap.lookup_insert_of_ne _ same] at found
    exact all id' tx' found

theorem Throughout.erase (all : Throughout P i) (id : TransactionId) : Throughout P (i.erase id) := by
  intro id' tx' found
  by_cases same : id' = id
  · subst same
    rw [Finmap.lookup_erase] at found
    contradiction
  · rw [Finmap.lookup_erase_ne same] at found
    exact all id' tx' found

/-- What new transactions have and changes keep, a step of the ledger keeps. -/
theorem Takes.throughout (takes : Takes sha256 opts env pending op result i i')
    (opens : ∀ tx, Opens opts env op tx → i.lookup tx.id = none → P tx.id tx)
    (updates : ∀ tx tx', Updates sha256 opts env pending op tx tx' → i.lookup tx.id = some tx → P tx.id tx → P tx.id tx')
    (all : Throughout P i) : Throughout P i' := by
  cases takes with
  | opened new absent => exact all.insert (opens _ new absent)
  | updated known change => exact all.insert (updates _ _ change known (all _ _ known))
  | dropped => exact all.erase _
  | streamed => exact all
  | refused => exact all
  | marked _ known _ change => exact all.insert (updates _ _ change known (all _ _ known))

/-- What a step leaves stored was there, is a change of what was there, or is new. -/
theorem Takes.origin (takes : Takes sha256 opts env pending op result i i') :
    Throughout (fun id tx' => (∃ tx, i.lookup id = some tx ∧ (tx' = tx ∨ Updates sha256 opts env pending op tx tx')) ∨
      (i.lookup id = none ∧ Opens opts env op tx' ∧ tx'.id = id)) i' :=
  takes.throughout (fun _ opens absent => .inr ⟨absent,opens,rfl⟩)
    (fun tx _ change known _ => .inl ⟨tx,known,.inr change⟩) fun _ tx known => .inl ⟨tx,known,.inl rfl⟩

theorem May.throughout {reply : c.Reply} (may : May sha256 opts env pending op c i)
    (effect : c.Effect sha256 env i reply i') (opens : ∀ tx, Opens opts env op tx → P tx.id tx)
    (updates : ∀ tx tx', Updates sha256 opts env pending op tx tx' → P tx.id tx → P tx.id tx') (all : Throughout P i) :
    Throughout P i' := by
  cases c with
  | insert tx =>
    obtain ⟨_,_,rfl⟩ | ⟨_,rfl⟩ := effect
    · exact all.insert (opens tx may)
    · exact all
  | save tx' =>
    obtain ⟨tx,known,change⟩ := may
    obtain ⟨_,_,rfl⟩ | ⟨_,rfl⟩ := effect
    · rw [change.named]
      exact all.insert (updates tx tx' change (all _ _ known))
    · exact all
  | remove id =>
    obtain ⟨_,rfl⟩ | ⟨_,rfl⟩ := effect
    · exact all.erase id
    · exact all
  | env | find | beginUpload | writeUpload | commitUpload | discardUpload =>
    obtain ⟨rfl,_⟩ := effect
    exact all
  | findIf | saveManifest | hashFile | removeFile | openRead =>
    obtain rfl := effect
    exact all

/-- What the service passes to the repository has the property too. -/
theorem calls_throughout [BoostJson] (keyed : Keyed s.world.index) (opens : ∀ tx, Opens opts env op tx → P tx.id tx)
    (updates : ∀ tx tx', Updates sha256 opts env s.pending op tx tx' → P tx.id tx → P tx.id tx')
    (all : Throughout P s.world.index) : ∀ call ∈ s.calls sha256 opts env op, Throughout P call.2.index ∧
      (∀ tx, call.1 = .insert tx → P tx.id tx) ∧ ∀ tx, call.1 = .save tx → P tx.id tx := by
  intro call made
  have may := (step_takes sha256 opts env keyed op).2
  have there := (calls_invariant (Svc.handle sha256 env) (fun c w => May sha256 opts env s.pending op c w.index)
    (fun w => Throughout P w.index)
    (fun c w may all => may.throughout (handle_effect sha256 env w c) opens updates all) _ _ may all).2 call made
  have may := may call made
  obtain ⟨c,w⟩ := call
  refine ⟨there,?_,?_⟩
  · rintro tx rfl
    exact opens tx may
  · rintro tx' rfl
    obtain ⟨tx,known,change⟩ := may
    rw [change.named]
    exact updates tx tx' change (there _ _ known)

/-- What new uploads have and progress keeps, all uploads keep. -/
theorem Holds.forall {Q : PendingUpload → Prop} {pending' : List PendingUpload} (holds : Holds pending i op pending')
    (begins : ∀ caller id path n tx, op = .beginUpload caller id path → i.lookup id = some tx → mayWrite caller tx = true →
      Q ⟨id,caller,tmpPath id n,payloadPath id path,path,[],0,false⟩)
    (advances : ∀ p u, p.upload.Advances u → Q p → Q { p with upload := u }) (all : ∀ p ∈ pending, Q p) :
    ∀ p ∈ pending', Q p := by
  have replaced : ∀ {k : Nat} {p : PendingUpload} {u : Upload}, pending[k]? = some p → p.upload.Advances u →
      ∀ p' ∈ pending.set k { p with upload := u }, Q p' := by
    intro k p u here advance p' member
    rcases List.mem_or_eq_of_mem_set member with old | rfl
    · exact all p' old
    · exact advances p u advance (all p (List.mem_of_getElem? here))
  cases holds with
  | same => exact all
  | began n known allowed =>
    intro p member
    rcases List.mem_append.mp member with old | new
    · exact all p old
    · exact List.mem_singleton.mp new ▸ begins _ _ _ n _ rfl known allowed
  | wrote here advance => exact replaced here advance
  | finished here advance => exact replaced here advance
  | dropped => exact fun p member => all p (List.mem_of_mem_eraseIdx member)

end Throughout

theorem step_keyed [BoostJson] (keyed : Keyed s.world.index) (op : Op) : Keyed (s.step sha256 opts env op).world.index := by
  obtain ⟨⟨takes,_⟩,_⟩ := step_takes sha256 opts env keyed op
  exact takes.throughout (fun _ _ _ => rfl) (fun _ _ change _ _ => change.named) keyed

/-- An upload goes from a temp file of its transaction to its place. -/
def Placed (p : PendingUpload) : Prop :=
  (∃ n, p.upload.tmp = tmpPath p.id n) ∧ p.upload.final = payloadPath p.id p.upload.path

/-- Every transaction is stored under its own id, and every upload has its place. -/
structure Orderly (s : Server) : Prop where
  keyed : Keyed s.world.index
  placed : ∀ p ∈ s.pending, Placed p

theorem step_orderly [BoostJson] (orderly : Orderly s) (op : Op) : Orderly (s.step sha256 opts env op) := by
  obtain ⟨⟨_,holds⟩,_⟩ := step_takes sha256 opts env orderly.keyed op
  refine ⟨step_keyed orderly.keyed op,?_⟩
  refine holds.forall (fun _ id _ n _ _ _ _ => ⟨⟨n,rfl⟩,rfl⟩) (fun p u advance placed => ?_) orderly.placed
  exact ⟨advance.tmp ▸ placed.1,by rw [advance.final,advance.path]; exact placed.2⟩

theorem run_orderly [BoostJson] (orderly : Orderly s) (steps : List (Env × Op)) : Orderly (s.run sha256 opts steps) := by
  induction steps generalizing s with
  | nil => exact orderly
  | cons step rest ih => exact ih (step_orderly orderly step.2)

theorem empty_orderly : Orderly Server.empty := ⟨nofun,nofun⟩

end Confide
