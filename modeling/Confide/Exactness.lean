import Confide.Delivery
import Confide.Outbound

/-! The receiving server commits exactly what was sent: whichever attempts brought it there, a committed copy has the
contents of the transaction it is a copy of, if no upload that another caller began on something else ends in it. -/
namespace Confide

open Bytes Resumption

namespace Peering

variable {cfg : PeerConfig} {id : TransactionId} {tx tx' : Transaction} {s s' : Peering} {act : PeerAct} {sent : Cargo → Prop}

/-- A transaction from the sending server is that server's to write to. -/
theorem mayWrite_origin {caller : Caller} (allowed : mayWrite caller tx = true) :
    (caller.isPeer && caller.name == cfg.aName) = true ↔ tx.originServer = cfg.aName := by
  have named := (isValidName_utf8 cfg.aValid).1
  simp only [mayWrite,isSender,isOriginPeer,Bool.or_eq_true,Bool.and_eq_true,Bool.not_eq_true',List.isEmpty_iff,beq_iff_eq]
    at allowed ⊢
  rcases allowed with ⟨⟨user,own⟩,_⟩ | ⟨⟨isPeer,_⟩,same⟩
  · rw [user,own]
    simp [named.symm]
  · rw [isPeer,same]
    simp

theorem foreign_caller {op : Op} {caller : Caller} (foreign : s.foreign cfg op = true) (its : op.caller = some caller) :
    (caller.isPeer && caller.name == cfg.aName) = false := by
  simp only [Peering.foreign,its,Option.all_some,Bool.and_eq_true,Bool.not_eq_true'] at foreign
  exact foreign.1.1.1

theorem foreign_barred {op : Op} {caller : Caller} (foreign : s.foreign cfg op = true) (its : op.caller = some caller)
    (allowed : mayWrite caller tx = true) : tx.originServer ≠ cfg.aName := by
  intro origin
  have other := foreign_caller foreign its
  rw [(mayWrite_origin allowed).mpr origin] at other
  cases other

/-- The contents of what was sent are the same all along, and listed in order. -/
structure Single (sent : Cargo → Prop) : Prop where
  unique : ∀ c c', sent c → sent c' → c = c'
  sorted : ∀ c, sent c → Sorted c.files

/-- What an attempt has been told: the transaction as it is to be sent, and files that the copy lists. -/
def Reported (cfg : PeerConfig) (id : TransactionId) (sent : Cargo → Prop) (i : Index) : Event Fwd → Prop
  | ⟨.inl (.outgoing id'),.ok tx⟩ => tx.id = id' ∧ (id' = id → sent tx.cargo)
  | ⟨.inr (.put id' path size sha256 _),.ok _⟩ =>
    id' = id → ∃ tx, Copied cfg id i tx ∧ (⟨path,size,sha256⟩ : FileEntry) ∈ tx.files
  | _ => True

/-- The copy has the contents, and all of the files once it is committed. -/
structure Carried (tx : Transaction) (c : Cargo) : Prop where
  sender : tx.sender = c.sender
  targetUser : tx.targetUser = c.targetUser
  comment : tx.comment = c.comment
  createdAt : tx.createdAt = c.createdAt
  files : ∀ file ∈ tx.files, file ∈ c.files
  whole : tx.state = .committed → ∀ file ∈ c.files, file ∈ tx.files

variable [BoostJson]

structure Exact (cfg : PeerConfig) (id : TransactionId) (sent : Cargo → Prop) (s : Peering) : Prop where
  searchable : Searchable s.b
  tracks : Tracks cfg s
  owned : Marked s true id → ∃ tx, Copied cfg id s.b.world.index tx
  fits : s.Fits (Reported cfg id sent s.b.world.index)
  copied : ∀ tx, Copied cfg id s.b.world.index tx → ∃ c, sent c ∧ Carried tx c

section Requests

variable (exact : Exact cfg id sent s)

include exact

theorem Exact.put {ticket : Nat} {path : RelativePath} {size : UInt64} {sha256 : Sha256Digest} {body : Bytes}
    (there : s.wire.sent[ticket]? = some (.put id path size sha256 body)) :
    ∃ c, sent c ∧ (⟨path,size,sha256⟩ : FileEntry) ∈ c.files := by
  obtain ⟨_,past,facts,rfl,_,tx,read,listed,_⟩ := exact.fits.warranted _ (List.mem_of_getElem? there)
  exact ⟨tx.cargo,(facts _ read).2 rfl,listed⟩

theorem Exact.commit {ticket : Nat} (there : s.wire.sent[ticket]? = some (.commit id)) :
    ∃ c, sent c ∧ ∀ file ∈ c.files, ∃ tx, Copied cfg id s.b.world.index tx ∧ file ∈ tx.files := by
  obtain ⟨_,past,facts,rfl,_,tx,read,arrived⟩ := exact.fits.warranted _ (List.mem_of_getElem? there)
  refine ⟨tx.cargo,(facts _ read).2 rfl,fun file member => ?_⟩
  obtain ⟨body,reply,told⟩ := arrived file member
  exact facts _ told rfl

theorem Exact.receive {ticket : Nat} {body : Bytes} {req : ReceiveRequest}
    (there : s.wire.sent[ticket]? = some (.receive body)) (reads : Api.decodeReceive body = .ok req) (named : req.id = id) :
    ∃ tx, sent tx.cargo ∧ req = Forwarder.announce tx := by
  obtain ⟨x,past,facts,tx,read,rfl⟩ := exact.fits.warranted _ (List.mem_of_getElem? there)
  obtain rfl := Api.decodeReceive_reads reads
  obtain ⟨same,isSent⟩ := facts _ read
  exact ⟨tx,isSent (same.symm.trans named),rfl⟩

theorem Exact.finish {k : Nat} {put : Put} {p : PendingUpload} (here : s.uploads[k]? = some (some put))
    (there : s.b.pending[k]? = some p) (left : put.left = []) (whole : put.whole = true) (named : p.id = id)
    (agreed : put.sha256 = cfg.sha256 p.upload.hashed) :
    ∃ c, sent c ∧ (⟨p.upload.path,p.upload.size,cfg.sha256 p.upload.hashed⟩ : FileEntry) ∈ c.files := by
  obtain ⟨_,_,counted,size,request,all⟩ := exact.tracks.carries k put p here there
  rw [whole,left,List.append_nil] at all
  have length : p.upload.hashed.length = size.toNat := of_decide_eq_true all.symm
  have same : p.upload.size = size := by rw [counted,length,UInt64.ofNat_toNat]
  rw [named] at request
  rw [same,← agreed]
  exact exact.put request

end Requests

def holdsCopy (cfg : PeerConfig) (id : TransactionId) (s : Peering) : Bool :=
  (s.b.world.index.lookup id).any fun tx => tx.originServer = cfg.aName

omit [BoostJson] in
theorem holdsCopy_iff : s.holdsCopy cfg id = true ↔ ∃ tx, Copied cfg id s.b.world.index tx := by
  simp [holdsCopy,Copied,Option.any_eq_true]

def Keeps (cfg : PeerConfig) (id : TransactionId) (s : Peering) (act : PeerAct) : Prop :=
  s.holdsCopy cfg id = true → (s.step cfg act).holdsCopy cfg id = true

instance (cfg : PeerConfig) (id : TransactionId) (s : Peering) (act : PeerAct) : Decidable (Keeps cfg id s act) :=
  inferInstanceAs (Decidable (_ → _))

def Unmixed (cfg : PeerConfig) (id : TransactionId) (s : Peering) : PeerAct → Prop
  | .other env (.finishUpload k expected) => s.holdsCopy cfg id = true → s.b.pending[k]?.map (·.id) = some id →
    (s.result cfg env (.finishUpload k expected)).isOk = false
  | _ => True

instance (cfg : PeerConfig) (id : TransactionId) (s : Peering) (act : PeerAct) : Decidable (Unmixed cfg id s act) := by
  unfold Unmixed
  split <;> infer_instance

omit [BoostJson] in
theorem Carried.keep {c : Cargo} (carried : Carried tx c) (cargo : tx'.cargo = tx.cargo)
    (state : tx'.state = .committed → tx.state = .committed) : Carried tx' c := by
  simp only [Transaction.cargo,Cargo.mk.injEq] at cargo
  obtain ⟨sender,targetUser,comment,createdAt,files⟩ := cargo
  refine ⟨sender.trans carried.sender,targetUser.trans carried.targetUser,comment.trans carried.comment,
    createdAt.trans carried.createdAt,files ▸ carried.files,fun committed => ?_⟩
  rw [files]
  exact carried.whole (state committed)

/-- Whatever is done to the copy, no file is lost and none comes that was not sent. -/
theorem Exact.update (exact : Exact cfg id sent s) (single : Single sent) {env : Env} {op : Op} (cause : s.Cause cfg act op)
    (unmixed : Unmixed cfg id s act) (copied : Copied cfg id s.b.world.index tx)
    (updates : Updates cfg.sha256 cfg.bOpts env s.b.pending op tx tx') :
    (∃ c, sent c ∧ Carried tx' c) ∧ ∀ file ∈ tx.files, file ∈ tx'.files := by
  obtain ⟨c,isSent,carried⟩ := exact.copied tx copied
  have named := exact.searchable.keyed id tx copied.1
  cases updates with
  | @uploaded k p expected _ here its isOpen progress agreed =>
    have entry : (⟨p.upload.path,p.upload.size,cfg.sha256 p.upload.hashed⟩ : FileEntry) ∈ c.files := by
      cases cause with
      | finished upload left whole =>
        obtain ⟨c',isSent',member⟩ := exact.finish upload here left whole (its.trans named) (agreed _ rfl)
        rwa [single.unique c c' isSent isSent']
      | others foreign ok =>
        have refused := unmixed (holdsCopy_iff.mpr ⟨tx,copied⟩) (by rw [here]; exact congrArg some (its.trans named))
        rw [ok] at refused
        cases refused
    have sorted := exact.searchable.sorted id tx copied.1
    refine ⟨⟨c,isSent,carried.sender,carried.targetUser,carried.comment,carried.createdAt,?_,fun bad => ?_⟩,?_⟩
    · intro file member
      rcases (mem_upsertFile sorted _ _).mp member with rfl | ⟨old,_⟩
      · exact entry
      · exact carried.files file old
    · rw [isOpen] at bad
      cases bad
    · intro file member
      refine (mem_upsertFile sorted _ _).mpr ?_
      by_cases same : file.path = p.upload.path
      · exact .inl ((single.sorted c isSent).unique (carried.files file member) entry same)
      · exact .inr ⟨member,same⟩
  | erased allowed =>
    cases cause with
    | others foreign => exact absurd copied.2 (foreign_barred foreign rfl allowed)
  | committed allowed =>
    refine ⟨⟨c,isSent,carried.sender,carried.targetUser,carried.comment,carried.createdAt,carried.files,fun _ => ?_⟩,
      fun _ member => member⟩
    cases cause with
    | others foreign => exact absurd copied.2 (foreign_barred foreign rfl allowed)
    | committed arrives =>
      have there := Wire.arriving_eq arrives
      rw [named] at there
      obtain ⟨c',isSent',arrived⟩ := exact.commit there
      intro file member
      rw [single.unique c c' isSent isSent'] at member
      obtain ⟨tx',copied',listed⟩ := arrived file member
      have known := copied'.1
      rw [copied.1] at known
      rwa [Option.some.inj known]
  | delivered => exact ⟨⟨c,isSent,carried.keep rfl fun bad => by cases bad⟩,fun _ member => member⟩
  | retained => exact ⟨⟨c,isSent,carried.keep rfl fun same => same⟩,fun _ member => member⟩
  | marked => exact ⟨⟨c,isSent,carried.keep rfl fun bad => by cases bad⟩,fun _ member => member⟩

theorem Exact.opens (exact : Exact cfg id sent s) {env : Env} {op : Op} (cause : s.Cause cfg act op)
    (opens : Opens cfg.bOpts env op tx) (named : tx.id = id) (origin : tx.originServer = cfg.aName) :
    ∃ c, sent c ∧ Carried tx c := by
  cases opens with
  | created =>
    have given := (isValidName_utf8 cfg.aValid).1
    exact absurd origin.symm given
  | @received caller req isPeer =>
    cases cause with
    | received arrives reads =>
      obtain ⟨tx,isSent,rfl⟩ := exact.receive (Wire.arriving_eq arrives) reads named
      exact ⟨tx.cargo,isSent,rfl,rfl,rfl,rfl,(fun _ member => by cases member),fun bad => by cases bad⟩
    | others foreign =>
      have other := foreign_caller foreign rfl
      have same : caller.name = cfg.aName := origin
      simp [isPeer,same] at other

section Step

variable (exact : Exact cfg id sent s) (single : Single sent) (did : s.Did cfg act s')
  (keeps : s.holdsCopy cfg id = true → s'.holdsCopy cfg id = true) (unmixed : Unmixed cfg id s act)

include exact did

theorem Exact.stays (keeps : s.holdsCopy cfg id = true → s'.holdsCopy cfg id = true)
    (copied : Copied cfg id s.b.world.index tx) : ∃ tx', Copied cfg id s'.b.world.index tx' ∧
      (tx' = tx ∨ ∃ env op, s.Cause cfg act op ∧ Updates cfg.sha256 cfg.bOpts env s.b.pending op tx tx') := by
  obtain ⟨tx',copied'⟩ := holdsCopy_iff.mp (keeps (holdsCopy_iff.mpr ⟨tx,copied⟩))
  refine ⟨tx',copied',?_⟩
  rcases (did.turns exact.searchable.keyed).origin id tx' copied'.1 with ⟨old,there,change⟩ | ⟨absent,_⟩
  · rw [copied.1] at there
    cases there
    exact change
  · rw [copied.1] at absent
    cases absent

include single keeps unmixed

theorem Exact.grows {file : FileEntry} (listed : ∃ tx, Copied cfg id s.b.world.index tx ∧ file ∈ tx.files) :
    ∃ tx, Copied cfg id s'.b.world.index tx ∧ file ∈ tx.files := by
  obtain ⟨tx,copied,member⟩ := listed
  obtain ⟨tx',copied',rfl | ⟨_,_,cause,updates⟩⟩ := exact.stays did keeps copied
  · exact ⟨_,copied',member⟩
  · exact ⟨tx',copied',(exact.update single cause unmixed copied updates).2 file member⟩

theorem Exact.reported (event : Event Fwd) (reported : Reported cfg id sent s.b.world.index event) :
    Reported cfg id sent s'.b.world.index event := by
  unfold Reported at reported ⊢
  split at reported
  · exact reported
  · exact fun same => exact.grows single did keeps unmixed (reported same)
  · trivial

end Step

theorem Exact.finished (exact : Exact cfg id sent s) {env : Env} {j : Nat} {put : Put} {p : PendingUpload} {size : UInt64}
    (here : s.uploads[j]? = some (some put)) (there : s.b.pending[j]? = some p) (left : put.left = [])
    (whole : (p.upload.hashed ++ put.left).length = size.toNat) (named : p.id = id)
    (ok : s.result cfg env (.finishUpload j (some put.sha256)) = .ok ()) :
    ∃ tx, Copied cfg id ((s.operate cfg env (.finishUpload j (some put.sha256))).drop cfg env j).b.world.index tx ∧
      (⟨p.upload.path,size,put.sha256⟩ : FileEntry) ∈ tx.files := by
  have keyed := exact.searchable.keyed
  obtain ⟨tx,known,origin⟩ := exact.owned ⟨j,some put,p,here,there,rfl,named⟩
  have takes := operate_takes cfg s env keyed (.finishUpload j (some put.sha256))
  rw [drop_index cfg env (operate_keyed cfg env keyed _)]
  rw [ok] at takes
  generalize (s.operate cfg env (.finishUpload j (some put.sha256))).b.world.index = i at takes
  cases takes with
  | opened opens => cases opens
  | @updated _ tx₀ _ known₀ updates =>
    cases updates with
    | @uploaded _ p₀ _ _ here₀ its isOpen progress agreed =>
      rw [there] at here₀
      cases here₀
      have same : tx₀.id = id := its.symm.trans named
      rw [same,known] at known₀
      cases known₀
      have counted : p.upload.size = size := by
        rw [(exact.tracks.carries j put p here there).size,← UInt64.ofNat_toNat (x := size),← whole,left,List.append_nil]
      rw [counted,← agreed _ rfl,same]
      refine ⟨_,⟨Finmap.lookup_insert _,origin⟩,?_⟩
      exact (mem_upsertFile (exact.searchable.sorted id tx known) _ _).mpr (.inl rfl)
    | marked drops => cases drops
  | dropped _ drops => cases drops
  | streamed part => cases part

theorem Exact.step (exact : Exact cfg id sent s) (single : Single sent) (act : PeerAct) (keeps : Keeps cfg id s act)
    (unmixed : Unmixed cfg id s act) (aKeyed : Keyed s.a.world.index)
    (ready : ∀ tx, s.a.world.index.lookup id = some tx → isOutgoing tx = true → sent tx.cargo) :
    Exact cfg id sent (s.step cfg act) := by
  have did := step_did cfg s act
  unfold Keeps at keeps
  generalize s.step cfg act = s' at did keeps ⊢
  have keyed := exact.searchable.keyed
  have turns := did.turns keyed
  refine ⟨⟨did.keyed keyed,?_⟩,did.tracks keyed exact.tracks,?_,?_,?_⟩
  · intro id' tx' known
    rcases turns.origin id' tx' known with ⟨tx,old,rfl | ⟨_,_,_,updates⟩⟩ | ⟨_,_,_,_,_,opens⟩
    · exact exact.searchable.sorted id' _ old
    · exact updates.sorted (exact.searchable.sorted id' tx old)
    · exact opens.sorted
  · intro marked
    refine holdsCopy_iff.mp (keeps (holdsCopy_iff.mpr ?_))
    rcases did.marks keyed exact.tracks marked with old | ⟨caller,tx,known,allowed,own⟩
    · exact exact.owned old
    · exact ⟨tx,known,(mayWrite_origin allowed).mp own⟩
  · refine did.fits exact.tracks exact.fits (exact.reported single did keeps unmixed) ?_ ?_ ?_
    · intro i env ready' c next _ upcoming
      cases c with
      | outgoing id' =>
        cases shown : (perform cfg.sha256 env (TransactionService.outgoing id').run s.a.world).1 with
        | error => rw [ownCall,shown]; trivial
        | ok tx =>
          rw [ownCall,shown]
          obtain ⟨known,waits⟩ := outgoing_stored shown
          exact ⟨aKeyed id' tx known,fun same => ready tx (same ▸ known) waits⟩
      | findPeer | client | openRead | markDelivered => trivial
    · intro request e network
      cases request <;> trivial
    · intro request result answers
      cases answers with
      | unread | received | got | committed | unopened | stuck => trivial
      | @finished j env put p size here there left whole free after =>
        cases ok : s.result cfg env (.finishUpload j (some put.sha256)) with
        | error => trivial
        | ok =>
          intro named
          rw [after]
          exact exact.finished here there left whole named ok
  · rintro tx' ⟨known,origin⟩
    rcases turns.origin id tx' known with ⟨tx,old,rfl | ⟨_,_,cause,updates⟩⟩ | ⟨_,named,_,_,cause,opens⟩
    · exact exact.copied _ ⟨old,origin⟩
    · exact (exact.update single cause unmixed ⟨old,(past_updates updates).1 ▸ origin⟩ updates).1
    · exact exact.opens cause opens named origin

theorem sentAs_single {acts : List PeerAct} (settled : Settled s.a) (once : Once id s.a acts) :
    Single (SentAs cfg id s acts) := by
  constructor
  · exact fun _ _ => sentAs_unique settled once
  · rintro c ⟨first,_,tx,_,known,_,rfl⟩
    exact (run_settled settled first).mirrored.sorted id tx known

/-- What is sent is said of the whole run, so that it is the same at each of its points. -/
theorem sentAs_along (cfg : PeerConfig) (id : TransactionId) (s : Peering) (acts : List PeerAct) :
    Runs.Along (step cfg) (fun s' _ => ∀ tx, s'.a.world.index.lookup id = some tx → isOutgoing tx = true →
      SentAs cfg id s acts tx.cargo) s acts := by
  have rest : ∀ later begun, acts = begun ++ later → Runs.Along (step cfg) (fun s' _ => ∀ tx,
      s'.a.world.index.lookup id = some tx → isOutgoing tx = true → SentAs cfg id s acts tx.cargo)
      (Runs.run (step cfg) s begun) later := by
    intro later
    induction later with
    | nil => exact fun _ _ => trivial
    | cons act later ih =>
      intro begun split
      refine ⟨fun tx known waits => ⟨begun,act :: later,tx,split,known,waits,rfl⟩,?_⟩
      have next := ih (begun ++ [act]) (by rw [split,List.append_assoc,List.singleton_append])
      rwa [Runs.run_append] at next
  exact rest acts [] rfl

theorem Exact.run (exact : Exact cfg id sent s) (single : Single sent) (acts : List PeerAct) (settled : Settled s.a)
    (keeps : Runs.Along (Peering.step cfg) (Keeps cfg id) s acts)
    (unmixed : Runs.Along (Peering.step cfg) (Unmixed cfg id) s acts) (ready : Runs.Along (Peering.step cfg)
      (fun s _ => ∀ tx, s.a.world.index.lookup id = some tx → isOutgoing tx = true → sent tx.cargo) s acts) :
    Exact cfg id sent (Runs.run (Peering.step cfg) s acts) := by
  induction acts generalizing s with
  | nil => exact exact
  | cons act acts ih =>
    exact ih (exact.step single act keeps.1 unmixed.1 settled.orderly.keyed ready.1) ((step_did cfg s act).own.settled settled)
      keeps.2 unmixed.2 ready.2

theorem starting_exact {aEnv bEnv : Env} {aDisk bDisk : Disk} (bStarts : (exec bEnv restart.run (World.boot bDisk)).1 = .ok ())
    (new : ∀ tx, ¬ Copied cfg id (starting aEnv bEnv aDisk bDisk).b.world.index tx) :
    Exact cfg id sent (starting aEnv bEnv aDisk bDisk) := by
  refine ⟨restart_searchable bStarts [],apart_tracks cfg _ _,?_,Wire.fits_empty,fun tx copied => absurd copied (new tx)⟩
  rintro ⟨j,entry,p,_,there,_⟩
  exact absurd there (by simp [starting,apart])

/-- A committed copy has the contents that the transaction has whenever it waits to be sent, on every run in which the
receiving server does not remove its copy and nobody else's upload ends in it. -/
theorem peer_commits_what_was_sent (cfg : PeerConfig) (aEnv bEnv : Env) (aDisk bDisk : Disk)
    (aStarts : (exec aEnv restart.run (World.boot aDisk)).1 = .ok ())
    (bStarts : (exec bEnv restart.run (World.boot bDisk)).1 = .ok ()) (id : TransactionId)
    (new : ∀ tx, ¬ Copied cfg id (starting aEnv bEnv aDisk bDisk).b.world.index tx) (acts : List PeerAct)
    (once : Once id (starting aEnv bEnv aDisk bDisk).a acts)
    (keeps : Runs.Along (step cfg) (Keeps cfg id) (starting aEnv bEnv aDisk bDisk) acts)
    (unmixed : Runs.Along (step cfg) (Unmixed cfg id) (starting aEnv bEnv aDisk bDisk) acts) (tx : Transaction)
    (copied : Copied cfg id (Runs.run (step cfg) (starting aEnv bEnv aDisk bDisk) acts).b.world.index tx)
    (committed : tx.state = .committed) (c : Cargo) :
    SentAs cfg id (starting aEnv bEnv aDisk bDisk) acts c ↔ c = tx.cargo := by
  have settled : Settled (starting aEnv bEnv aDisk bDisk).a := restart_settled (Prod.ext aStarts rfl)
  have single : Single (SentAs cfg id (starting aEnv bEnv aDisk bDisk) acts) := sentAs_single settled once
  have start : Exact cfg id (SentAs cfg id (starting aEnv bEnv aDisk bDisk) acts) (starting aEnv bEnv aDisk bDisk) :=
    starting_exact bStarts new
  have exact := start.run single acts settled keeps unmixed (sentAs_along cfg id _ acts)
  obtain ⟨c',isSent,carried⟩ := exact.copied tx copied
  have files : tx.files = c'.files := (exact.searchable.sorted id tx copied.1).eq_of_mem_iff (single.sorted c' isSent)
    fun file => ⟨carried.files file,carried.whole committed file⟩
  have same : c' = tx.cargo := by
    rw [Transaction.cargo,carried.sender,carried.targetUser,carried.comment,carried.createdAt,files]
  subst same
  constructor
  · exact fun also => single.unique c tx.cargo also isSent
  · rintro rfl
    exact isSent

end Peering

namespace Sample

/-- A transaction with a file, and an attempt that brings it over. -/
def filePush : List PeerAct :=
  [.serve env (.create alice ⟨ascii "bob",ascii "beta",0,[]⟩),.serve env (.beginUpload alice id path),
    .serve env (.writeUpload 0 [7,7,7]),.serve env (.finishUpload 0 none),.serve env (.commit alice id)] ++ attempt 0 ++
  [.hear 0,.call 0 env (.ok ()),.send 0,.arrive 0 env,.write 0 env 1,.write 0 env 1,.finish 0 env,.hear 0,.send 0,.arrive 0 env]

def thirdPeer : Caller := ⟨ascii "gamma",true,false⟩

/-- Another peer announces something under the same id and begins an upload, and this is removed; then the transaction is
pushed, and the upload ends before the commit arrives. -/
def stalePush : List PeerAct :=
  [.other env (.receive thirdPeer ⟨id,ascii "carol",ascii "dave",env.now,env.now + 30 * 86400,[]⟩),
    .other env (.beginUpload thirdPeer id path),.mark env id none,.remove 0 env] ++ outgoing ++ attempt 0 ++
  [.other env (.finishUpload 0 none),.hear 0,.send 0,.arrive 0 env]

end Sample

namespace Peering

theorem sample_once {acts : List PeerAct} (atMost : acts.countP (PeerAct.creates Sample.id) ≤ 1) :
    Once Sample.id Sample.together.a acts := by
  have unknown : Sample.together.a.world.index.lookup Sample.id = none := by decide +kernel
  apply Once.mk atMost
  rintro tx ⟨present,_⟩
  rw [unknown] at present
  cases present

theorem file_push_is_exact : ∃ tx, Copied Sample.pair Sample.id
      (Runs.run (step Sample.pair) Sample.together Sample.filePush).b.world.index tx ∧ tx.files.length = 1 ∧
    ∀ c, SentAs Sample.pair Sample.id Sample.together Sample.filePush c ↔ c = tx.cargo := by
  have there : ((Runs.run (step Sample.pair) Sample.together Sample.filePush).b.world.index.lookup Sample.id).map
      (fun tx => (tx.originServer,tx.state,tx.files.length)) = some (ascii "alpha",.committed,1) := by decide +kernel
  obtain ⟨tx,known,shown⟩ := Option.map_eq_some_iff.mp there
  simp only [Prod.mk.injEq] at shown
  obtain ⟨origin,committed,one⟩ := shown
  have once : Once Sample.id Sample.together.a Sample.filePush := sample_once (by decide +kernel)
  have keeps : Runs.Along (step Sample.pair) (Keeps Sample.pair Sample.id) Sample.together Sample.filePush := by decide +kernel
  have unmixed : Runs.Along (step Sample.pair) (Unmixed Sample.pair Sample.id) Sample.together Sample.filePush := by
    decide +kernel
  have copied : Copied Sample.pair Sample.id
      (Runs.run (step Sample.pair) Sample.together Sample.filePush).b.world.index tx := ⟨known,origin⟩
  unfold Sample.together at once keeps unmixed copied ⊢
  exact ⟨tx,copied,one,peer_commits_what_was_sent Sample.pair Sample.env Sample.env emptyDisk emptyDisk (by decide +kernel)
    (by decide +kernel) Sample.id sample_new Sample.filePush once keeps unmixed tx copied committed⟩

/-- The copy is committed with a file that was never sent. -/
theorem stale_upload_ends_in_copy : Once Sample.id Sample.together.a Sample.stalePush ∧
      Runs.Along (step Sample.pair) (Keeps Sample.pair Sample.id) Sample.together Sample.stalePush ∧
      ∃ tx, Copied Sample.pair Sample.id (Runs.run (step Sample.pair) Sample.together Sample.stalePush).b.world.index tx ∧
        tx.state = .committed ∧ (∃ c, SentAs Sample.pair Sample.id Sample.together Sample.stalePush c) ∧
        ¬ SentAs Sample.pair Sample.id Sample.together Sample.stalePush tx.cargo := by
  have once : Once Sample.id Sample.together.a Sample.stalePush := sample_once (by decide +kernel)
  have there : ((Runs.run (step Sample.pair) Sample.together Sample.stalePush).b.world.index.lookup Sample.id).map
      (fun tx => (tx.originServer,tx.state,tx.files.length)) = some (ascii "alpha",.committed,1) := by decide +kernel
  have here : ((Runs.run (step Sample.pair) Sample.together Sample.stalePush).a.world.index.lookup Sample.id).map
      (fun tx => (isOutgoing tx,tx.files.length)) = some (true,0) := by decide +kernel
  obtain ⟨tx,known,shown⟩ := Option.map_eq_some_iff.mp there
  obtain ⟨own,waiting,outgoing⟩ := Option.map_eq_some_iff.mp here
  simp only [Prod.mk.injEq] at shown outgoing
  have isSent : SentAs Sample.pair Sample.id Sample.together Sample.stalePush own.cargo :=
    ⟨Sample.stalePush,[],own,(List.append_nil _).symm,waiting,outgoing.1,rfl⟩
  have settled : Settled Sample.together.a := restart_settled (Prod.ext (by decide +kernel) rfl)
  refine ⟨once,by decide +kernel,tx,⟨known,shown.1⟩,shown.2.1,⟨_,isSent⟩,fun also => ?_⟩
  have files : own.files = tx.files := congrArg Cargo.files (sentAs_unique settled once isSent also)
  have one := shown.2.2
  rw [← files,outgoing.2] at one
  cases one

end Peering
end Confide
