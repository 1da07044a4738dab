import Confide.Service
import Confide.StorageEffects

/-! What each call of the service does to the index and to the disk, whatever fails on the
way, and when it cannot fail. -/
namespace Confide

open Resumption Resumption.Prog DirTree

variable {env : Env} {w w' : World} {α β : Type}

/-- The service's calls, carried out by the repository and the file store. -/
def Svc.handle [BoostJson] (sha256 : Bytes → Sha256Digest) (env : Env) : Prog.Handler Svc World := fun c w =>
  exec env (implement sha256 c) w

theorem erase_insert (index : Index) (id : TransactionId) (tx : Transaction) :
    (index.insert id tx).erase id = index.erase id := by
  refine Finmap.ext_lookup fun id' => ?_
  by_cases same : id' = id
  · rw [same,Finmap.lookup_erase,Finmap.lookup_erase]
  · rw [Finmap.lookup_erase_ne same,Finmap.lookup_erase_ne same,Finmap.lookup_insert_of_ne _ same]

theorem erase_absent (index : Index) (id : TransactionId) (absent : index.lookup id = none) :
    index.erase id = index := by
  refine Finmap.ext_lookup fun id' => ?_
  by_cases same : id' = id
  · rw [same,Finmap.lookup_erase,absent]
  · rw [Finmap.lookup_erase_ne same]

/-- A temp name that is still to be used. -/
def World.Unused (w : World) (q : Path) : Prop := ∃ id n, w.tmpCount ≤ n ∧ q = tmpPath id n

theorem World.unused_next (w : World) (id : TransactionId) : w.Unused (tmpPath id w.tmpCount) :=
  ⟨id,_,Nat.le_refl _,rfl⟩

theorem FreshTmp.same {w w' : World} (fresh : FreshTmp w) (count : w.tmpCount ≤ w'.tmpCount)
    (frame : ∀ id n, w'.disk.lookup (tmpPath id n) = w.disk.lookup (tmpPath id n)) : FreshTmp w' := by
  intro id n present
  rw [frame] at present
  exact Nat.lt_of_lt_of_le (fresh id n present) count

theorem writeDocument_quiet (sha256 : Bytes → Sha256Digest) (id : TransactionId) (doc : Document) (content : Bytes) :
    Uses SysCall.Quiet (FileStore.writeDocument sha256 id doc content).run := by
  refine Uses.exceptT_bind (beginWrite_quiet _ _ _) fun upload => ?_
  refine Uses.exceptT_bind (quiet_lift (write_quiet upload content)) fun written => ?_
  refine Uses.exceptT_bind (by trivial : Uses _ (ensure _ : SysM Unit).run) fun _ => ?_
  refine Uses.exceptT_bind (quiet_lift (commit_quiet sha256 _ none)) fun committed => ?_
  exact Uses.exceptT_bind (by trivial : Uses _ (ensure _ : SysM StoredFile).run) fun _ => trivial

/-- A document of `id` was replaced, or the disk is as it was but for a temp file. -/
structure DocumentEffect (id : TransactionId) (doc : Document) (content : Bytes) (w : World) (result : Result Unit)
    (w' : World) : Prop where
  fresh : FreshTmp w'
  count : w.tmpCount ≤ w'.tmpCount
  log : w'.log = w.log
  done : result = .ok () → ∀ q, w'.disk.lookup q =
    if q = documentPath id doc then some (.file content) else w.disk.lookup q
  failed : result ≠ .ok () → ∀ q, ¬ w.Unused q → w'.disk.lookup q = w.disk.lookup q

variable {id : TransactionId}

theorem Replaced.effect {doc : Document} {content : Bytes} {stage : Stage}
    {result : Result Unit} (replaced : Replaced id doc content env (w.enter stage) result w')
    (still : Still (w.enter stage) w') :
    DocumentEffect id doc content w result w' := by
  obtain ⟨fresh,⟨rfl,disk⟩ | ⟨e,rfl,frame,_⟩⟩ := replaced
  · exact ⟨fresh,still.tmpCount,still.log,fun _ => disk,fun other => absurd rfl other⟩
  · refine ⟨fresh,still.tmpCount,still.log,fun same => by contradiction,fun _ q used => frame q ?_⟩
    rintro rfl
    exact used (w.unused_next id)

theorem saveManifest_effect [BoostJson] (sha256 : Bytes → Sha256Digest) (env : Env) (tx : Transaction) (w : World)
    (fresh : FreshTmp w) :
    DocumentEffect tx.id .manifest (encodeManifest tx) w (Svc.handle sha256 env (.saveManifest tx) w).1
        (Svc.handle sha256 env (.saveManifest tx) w).2 ∧
      (Svc.handle sha256 env (.saveManifest tx) w).2.index = w.index ∧ (env.Clear .saveManifest → Ready w.disk tx.id →
        w.disk.lookup (documentPath tx.id .manifest) ≠ some .directory →
        (Svc.handle sha256 env (.saveManifest tx) w).1 = .ok ()) := by
  have written := writeDocument_spec sha256 env tx.id .manifest (encodeManifest tx) (w.enter .saveManifest) fresh
  have still := exec_still env (writeDocument_quiet sha256 tx.id .manifest (encodeManifest tx))
    (w.enter .saveManifest)
  rw [leads_exec] at written
  simp only [Svc.handle,implement,TransactionRepository.saveManifest,call_eq,exec_bindM,exec_liftM,exec_enter]
  refine ⟨written.effect still,still.index,fun clear ready free => ?_⟩
  rcases written with ⟨_,⟨ok,_⟩ | ⟨_,_,_,stuck⟩⟩
  · exact ok
  · exact absurd (stuck clear ready) free

structure SaveEffect [BoostJson] (env : Env) (tx : Transaction) (w : World) (result : Result Unit) (w' : World) : Prop where
  document : DocumentEffect tx.id .meta (encodeMeta tx) w result w'
  done : result = .ok () → w.index.lookup tx.id ≠ none ∧ w'.index = w.index.insert tx.id tx
  failed : result ≠ .ok () → w'.index = w.index
  works : env.Clear .save → w.index.lookup tx.id ≠ none → Ready w.disk tx.id →
    w.disk.lookup (documentPath tx.id .meta) ≠ some .directory → result = .ok ()

theorem save_effect [BoostJson] (sha256 : Bytes → Sha256Digest) (env : Env) (tx : Transaction) (w : World) (fresh : FreshTmp w) :
    SaveEffect env tx w (Svc.handle sha256 env (.save tx) w).1 (Svc.handle sha256 env (.save tx) w).2 := by
  have written := writeDocument_spec sha256 env tx.id .meta (encodeMeta tx) (w.enter .save) fresh
  have still := exec_still env (writeDocument_quiet sha256 tx.id .meta (encodeMeta tx)) (w.enter .save)
  change Leads (Sys.handle env) (TransactionRepository.save sha256 tx) w (SaveEffect env tx w)
  simp only [TransactionRepository.save,call_eq,leads_exec_bind,exec_enter,exec_indexFind,enter_index,
    leads_refuse_bind]
  refine ⟨fun unknown => ⟨⟨fresh,Nat.le_refl _,rfl,fun same => by contradiction,fun _ _ _ => rfl⟩,fun same => by contradiction,
    fun _ => rfl,fun _ present => ?_⟩,fun known => ?_⟩
  · rw [Option.isNone_iff_eq_none] at unknown
    exact absurd unknown present
  have present : w.index.lookup tx.id ≠ none := by
    intro absent
    rw [absent] at known
    contradiction
  rw [leads_bind,leads_exec]
  rw [leads_exec] at written
  generalize exec env (FileStore.writeDocument sha256 tx.id .meta (encodeMeta tx)).run (w.enter .save) = outcome
    at written still
  obtain ⟨result,w'⟩ := outcome
  have document := written.effect still
  obtain ⟨_,⟨rfl,disk⟩ | ⟨e,rfl,_,stuck⟩⟩ := written
  · refine ⟨⟨document.fresh,document.count,document.log,document.done,document.failed⟩,fun _ => ⟨present,?_⟩,
      fun other => absurd rfl other,fun _ _ _ _ => rfl⟩
    exact congrArg (Finmap.insert tx.id tx) still.index
  · exact ⟨document,fun same => by contradiction,fun _ => still.index,
      fun clear _ ready free => absurd (stuck clear ready) free⟩

theorem createTransaction_quiet (id : TransactionId) : Uses SysCall.Quiet (FileStore.createTransaction id).run := by
  refine Uses.exceptT_bind (quiet_call (by trivial : (SysCall.mkdir _).Quiet)) fun folder => ?_
  cases folder with
  | present | clash | failed => trivial
  | created => exact Uses.exceptT_bind (quiet_call (by trivial : (SysCall.mkdir _).Quiet)) fun files => quiet_orIo _ _ _

/-- Two new folders, or an error with at most the outer one. -/
theorem createTransaction_spec (env : Env) (id : TransactionId) (w : World) :
    Leads (Sys.handle env) (FileStore.createTransaction id) w fun result w' =>
      (result = .ok () ∧ w.disk.lookup (transactionDir id) = none ∧ ∀ q, w'.disk.lookup q =
          if q = transactionDir id ∨ q = filesDir id then some .directory else w.disk.lookup q) ∨
        ∃ e, result = .error e ∧ (∀ q, q ≠ transactionDir id → w'.disk.lookup q = w.disk.lookup q) ∧
          (env.Clear w.stage → w.disk.lookup transactionsDir = some .directory →
            w.disk.lookup (transactionDir id) ≠ none) := by
  unfold FileStore.createTransaction
  simp only [call_eq,leads_exec_bind,exec_mkdir]
  have first := mkdir_spec env w (transactionDir id)
  have parent : (transactionDir id).dropLast = transactionsDir := by simp [transactionDir]
  have stage : (w.mkdir env (transactionDir id)).2.stage = w.stage := by rw [mkdir_world,attempt_stage]
  generalize w.mkdir env (transactionDir id) = outcome at first stage
  obtain ⟨folder,w₁⟩ := outcome
  dsimp only at first stage ⊢
  rcases first with ⟨rfl,made⟩ | ⟨other,same,present,clash,failed⟩
  · obtain ⟨absent,disk₁⟩ := Tree.mkdir_lookup made
    have second := mkdir_spec env w₁ (filesDir id)
    have inside : (filesDir id).dropLast = transactionDir id := by simp [filesDir]
    have apart : filesDir id ≠ transactionDir id := by simp [filesDir]
    have free : w₁.disk.lookup (filesDir id) = none := by
      rw [disk₁,if_neg apart]
      exact Tree.nothing_below (by rw [absent]; simp) _ (by simp)
    have folder : w₁.disk.lookup (transactionDir id) = some .directory := by rw [disk₁,if_pos rfl]
    simp only [leads_exec_bind,exec_mkdir]
    generalize w₁.mkdir env (filesDir id) = outcome at second
    obtain ⟨files,w₂⟩ := outcome
    dsimp only at second ⊢
    rw [free,inside,folder] at second
    rw [leads_exec,orIo,exec_refuse]
    rcases second with ⟨rfl,made⟩ | ⟨other,same,present,clash,failed⟩
    · obtain ⟨-,disk₂⟩ := Tree.mkdir_lookup made
      refine .inl ⟨rfl,absent,fun q => ?_⟩
      rw [disk₂,disk₁]
      by_cases outer : q = transactionDir id <;> by_cases inner : q = filesDir id <;> simp [outer,inner]
    · have failure : files = .failed := by
        cases files with
        | created => exact absurd rfl other
        | present => exact absurd (present rfl) (by simp)
        | clash => obtain ⟨content,bad | bad⟩ := clash rfl <;> simp at bad
        | failed => rfl
      subst failure
      refine .inr ⟨_,rfl,fun q outside => ?_,fun clear _ => ?_⟩
      · rw [same,disk₁,if_neg outside]
      · exact absurd (failed rfl (by rw [stage]; exact clear _)).2 (by simp)
  · rw [parent] at failed
    have stuck : env.Clear w.stage → w.disk.lookup transactionsDir = some .directory →
        w.disk.lookup (transactionDir id) ≠ none := by
      intro clear top absent
      cases folder with
      | created => exact other rfl
      | present => rw [present rfl] at absent; contradiction
      | clash =>
        obtain ⟨content,bad | bad⟩ := clash rfl
        · rw [bad] at absent; contradiction
        · rw [parent,top] at bad; simp at bad
      | failed => rw [(failed rfl (clear _)).2] at top; contradiction
    have frame : ∀ q, q ≠ transactionDir id → w₁.disk.lookup q = w.disk.lookup q := fun q _ => by rw [same]
    cases folder with
    | created => exact absurd rfl other
    | present => exact leads_throw.mpr (.inr ⟨_,rfl,frame,stuck⟩)
    | clash => exact leads_throw.mpr (.inr ⟨_,rfl,frame,stuck⟩)
    | failed => exact leads_throw.mpr (.inr ⟨_,rfl,frame,stuck⟩)

/-- A new transaction has a new folder; a failed insertion leaves at most a part of one. -/
structure InsertEffect [BoostJson] (env : Env) (tx : Transaction) (w : World) (result : Result Unit) (w' : World) : Prop where
  fresh : FreshTmp w'
  count : w.tmpCount ≤ w'.tmpCount
  log : w'.log = w.log
  done : result = .ok () → w.index.lookup tx.id = none ∧ w'.index = w.index.insert tx.id tx ∧
    w.disk.lookup (transactionDir tx.id) = none ∧ ∀ q, w'.disk.lookup q =
      if q = documentPath tx.id .meta then some (.file (encodeMeta tx))
      else if q = transactionDir tx.id ∨ q = filesDir tx.id then some .directory else w.disk.lookup q
  failed : result ≠ .ok () → w'.index = w.index ∧
    ∀ q, ¬ transactionDir tx.id <+: q → ¬ w.Unused q → w'.disk.lookup q = w.disk.lookup q
  document : result ≠ .ok () → w'.disk.lookup (documentPath tx.id .meta) = w.disk.lookup (documentPath tx.id .meta)
  known : w.index.lookup tx.id ≠ none → result ≠ .ok () ∧ w'.disk = w.disk
  works : env.Clear .insert → w.index.lookup tx.id = none → w.disk.lookup tmpDir = some .directory →
    w.disk.lookup transactionsDir = some .directory → w.disk.lookup (transactionDir tx.id) = none → result = .ok ()

section Created

variable {id : TransactionId} {disk disk' : Disk} (created : ∀ q, disk'.lookup q =
  if q = transactionDir id ∨ q = filesDir id then some .directory else disk.lookup q)

include created

theorem created_elsewhere {q : Path} (other : ¬ transactionDir id <+: q) : disk'.lookup q = disk.lookup q := by
  rw [created,if_neg]
  rintro (rfl | rfl)
  · exact other (List.prefix_refl _)
  · exact other (List.prefix_append _ _)

theorem created_undocumented (bare : disk.lookup (documentPath id .meta) = none) :
    disk'.lookup (documentPath id .meta) = none := by
  rw [created,if_neg (by simp [documentPath,filesDir,Document.fileName]; decide)]
  exact bare

end Created

theorem insert_effect [BoostJson] (sha256 : Bytes → Sha256Digest) (env : Env) (tx : Transaction) (w : World) (fresh : FreshTmp w) :
    InsertEffect env tx w (Svc.handle sha256 env (.insert tx) w).1 (Svc.handle sha256 env (.insert tx) w).2 := by
  have outside : ∀ id n, tmpPath id n ≠ transactionDir tx.id := fun id n same =>
    tmpPath_outside tx.id id n (same ▸ List.prefix_refl _)
  change Leads (Sys.handle env) (TransactionRepository.insert sha256 tx) w (InsertEffect env tx w)
  simp only [TransactionRepository.insert,call_eq,leads_exec_bind,exec_enter,exec_indexFind,enter_index,
    leads_refuse_bind]
  refine ⟨fun known => ?_,fun unknown => ?_⟩
  · refine ⟨fresh,Nat.le_refl _,rfl,fun same => by contradiction,fun _ => ⟨rfl,fun _ _ _ => rfl⟩,fun _ => rfl,
      fun _ => ⟨by simp,rfl⟩,fun _ absent => ?_⟩
    rw [absent] at known
    contradiction
  have absent : w.index.lookup tx.id = none := by
    cases here : w.index.lookup tx.id with
    | none => rfl
    | some => rw [here] at unknown; contradiction
  have created := createTransaction_spec env tx.id (w.enter .insert)
  have still := exec_still env (createTransaction_quiet tx.id) (w.enter .insert)
  rw [leads_bind,leads_exec]
  rw [leads_exec] at created
  generalize exec env (FileStore.createTransaction tx.id).run (w.enter .insert) = outcome at created still
  obtain ⟨result,w₁⟩ := outcome
  dsimp only at created still
  rcases created with ⟨rfl,free,disk₁⟩ | ⟨e,rfl,frame,stuck⟩
  swap
  · refine ⟨fresh.same still.tmpCount fun id n => frame _ (outside id n),still.tmpCount,still.log,fun same => by contradiction,
      fun _ => ⟨still.index,fun q other _ => frame q ?_⟩,fun _ => frame _ (by simp [documentPath]),
      fun present => absurd absent present,fun clear _ _ top bare => absurd bare (stuck clear top)⟩
    rintro rfl
    exact other (List.prefix_refl _)
  have fresh₁ : FreshTmp w₁ := fresh.same still.tmpCount fun id n => created_elsewhere disk₁ (tmpPath_outside _ _ _)
  dsimp only
  rw [leads_exec_bind]
  have written := writeDocument_spec sha256 env tx.id .meta (encodeMeta tx) w₁ fresh₁
  have still₂ := exec_still env (writeDocument_quiet sha256 tx.id .meta (encodeMeta tx)) w₁
  rw [leads_exec] at written
  generalize exec env (FileStore.writeDocument sha256 tx.id .meta (encodeMeta tx)).run w₁ = outcome at written still₂
  obtain ⟨result,w₂⟩ := outcome
  dsimp only at written still₂ ⊢
  obtain ⟨fresh₂,⟨rfl,disk₂⟩ | ⟨e,rfl,frame,stuck⟩⟩ := written
  · refine ⟨fresh₂,Nat.le_trans still.tmpCount still₂.tmpCount,still₂.log.trans still.log,fun _ =>
      ⟨absent,?_,free,fun q => ?_⟩,fun other => absurd rfl other,
      fun other => absurd rfl other,fun present => absurd absent present,fun _ _ _ _ _ => rfl⟩
    · exact congrArg (Finmap.insert tx.id tx) (still₂.index.trans still.index)
    · exact (disk₂ q).trans (by rw [disk₁]; rfl)
  have undone := removeTransaction_spec env tx.id w₂
  have still₃ := exec_still env (removeTransaction_quiet tx.id) w₂
  rw [leads_exec] at undone
  rw [leads_exec_bind]
  generalize exec env (FileStore.removeTransaction tx.id).run w₂ = outcome at undone still₃
  obtain ⟨result,w₃⟩ := outcome
  obtain ⟨left,_⟩ := undone
  dsimp only at left still₃ ⊢
  have kept : ∀ q, ¬ transactionDir tx.id <+: q → w₃.disk.lookup q = w₂.disk.lookup q := fun q other =>
    (left q).resolve_right fun gone => other gone.1
  have bare : w.disk.lookup (documentPath tx.id .meta) = none :=
    Tree.nothing_below (by rw [show w.disk.lookup _ = none from free]; simp) _ (by simp)
  have undocumented : w₁.disk.lookup (documentPath tx.id .meta) = none := created_undocumented disk₁ bare
  refine leads_throw.mpr ⟨fresh₂.same still₃.tmpCount fun id n => kept _ (tmpPath_outside _ _ _),
    Nat.le_trans still.tmpCount (Nat.le_trans still₂.tmpCount still₃.tmpCount),
    still₃.log.trans (still₂.log.trans still.log),fun same => by contradiction,fun _ => ⟨?_,fun q other used => ?_⟩,
    fun _ => ?_,fun present => absurd absent present,fun clear _ tmp _ _ => ?_⟩
  · exact still₃.index.trans (still₂.index.trans still.index)
  · rw [kept q other,frame q ?_,created_elsewhere disk₁ other]
    · rfl
    · rintro rfl
      exact used ⟨tx.id,_,still.tmpCount,rfl⟩
  · rw [bare]
    rcases left (documentPath tx.id .meta) with same | ⟨_,gone⟩
    · rw [same,frame _ fun same => tmpPath_outside _ _ _ (same ▸ document_in_folder tx.id .meta),undocumented]
    · exact gone
  · have folder : w₁.disk.lookup (documentPath tx.id .meta) ≠ some .directory := by
      rw [undocumented]
      simp
    refine absurd (stuck (by rw [still.stage]; exact clear) ⟨?_,?_⟩) folder
    · rw [created_elsewhere disk₁ (by simp [tmpDir,transactionDir,transactionsDir,List.cons_prefix_iff])]
      exact tmp
    · rw [disk₁,if_pos (.inr rfl)]

/-- The folder goes before the index entry. -/
structure RemoveEffect (env : Env) (id : TransactionId) (w : World) (result : Result Unit) (w' : World) : Prop where
  fresh : FreshTmp w'
  count : w.tmpCount ≤ w'.tmpCount
  log : w'.log = w.log
  frame : ∀ q, w'.disk.lookup q = w.disk.lookup q ∨ (transactionDir id <+: q ∧ w'.disk.lookup q = none)
  done : result = .ok () → w'.index = w.index.erase id ∧ ∀ q, transactionDir id <+: q → w'.disk.lookup q = none
  failed : result ≠ .ok () → w'.index = w.index ∧ w'.disk.lookup (transactionDir id) = w.disk.lookup (transactionDir id)
  clears : ∀ spoilt, Clears env spoilt (TransactionRepository.remove id).run w →
    w.disk.lookup (transactionDir id) ≠ none → result = .ok () ∨ ¬ spoilt w'.disk
  works : env.Clear .remove → w.disk.lookup (transactionDir id) ≠ none → result = .ok ()

theorem RemoveEffect.outside {result : Result Unit} (effect : RemoveEffect env id w result w')
    {q : Path} (other : ¬ transactionDir id <+: q) : w'.disk.lookup q = w.disk.lookup q :=
  (effect.frame q).resolve_right fun gone => other gone.1

theorem remove_effect [BoostJson] (sha256 : Bytes → Sha256Digest) (env : Env) (id : TransactionId) (w : World) (fresh : FreshTmp w) :
    RemoveEffect env id w (Svc.handle sha256 env (.remove id) w).1 (Svc.handle sha256 env (.remove id) w).2 := by
  have removed := removeTransaction_spec env id (w.enter .remove)
  have still := exec_still env (removeTransaction_quiet id) (w.enter .remove)
  change Leads (Sys.handle env) (TransactionRepository.remove id) w (RemoveEffect env id w)
  simp only [TransactionRepository.remove,call_eq,leads_exec_bind,exec_enter]
  rw [leads_bind,leads_exec]
  rw [leads_exec] at removed
  generalize exec env (FileStore.removeTransaction id).run (w.enter .remove) = outcome at removed still
  obtain ⟨result,w'⟩ := outcome
  obtain ⟨frame,all,stopped,works⟩ := removed
  dsimp only at frame all stopped works still
  have clears := fun spoilt (clears : Clears env spoilt (TransactionRepository.remove id).run w) =>
    works spoilt fun q w' made => clears q w' (List.mem_cons_of_mem _ (by
      change _ ∈ Prog.calls (Sys.handle env) (ExceptT.run (FileStore.removeTransaction id >>= _)) (w.enter .remove)
      rw [calls_exceptT_bind]
      exact List.mem_append_left _ made))
  have fresh' : FreshTmp w' := fresh.same still.tmpCount fun id' n =>
    (frame _).resolve_right fun gone => tmpPath_outside _ _ _ gone.1
  cases result with
  | ok =>
    exact ⟨fresh',still.tmpCount,still.log,frame,fun _ => ⟨congrArg (Finmap.erase id) still.index,all rfl⟩,
      fun other => absurd rfl other,fun _ _ _ => .inl rfl,fun _ _ => rfl⟩
  | error e =>
    refine ⟨fresh',still.tmpCount,still.log,frame,fun same => by contradiction,fun _ => ⟨still.index,stopped (by simp)⟩,clears,
      fun clear present => ?_⟩
    exact (works (fun _ => True) (clears_clear clear (removeTransaction_quiet id) _) present).resolve_right (by simp)

/-- A call that leaves the index and the log alone. -/
structure Unindexed (w w' : World) : Prop where
  index : w'.index = w.index
  log : w'.log = w.log
  count : w.tmpCount ≤ w'.tmpCount

theorem Still.unindexed {stage : Stage} (still : Still (w.enter stage) w') : Unindexed w w' :=
  ⟨still.index,still.log,still.tmpCount⟩

variable [BoostJson]

theorem beginUpload_effect (sha256 : Bytes → Sha256Digest) (env : Env) (id : TransactionId) (path : RelativePath)
    (w : World) (fresh : FreshTmp w) : Unindexed w (Svc.handle sha256 env (.beginUpload id path) w).2 ∧
      (((Svc.handle sha256 env (.beginUpload id path) w).1 =
            .ok ⟨tmpPath id w.tmpCount,payloadPath id path,path,[],0,false⟩ ∧
          w.disk.lookup (filesDir id) = some .directory ∧
          (Svc.handle sha256 env (.beginUpload id path) w).2.tmpCount = w.tmpCount + 1 ∧
          ∀ q, (Svc.handle sha256 env (.beginUpload id path) w).2.disk.lookup q =
            if q = tmpPath id w.tmpCount then some (.file []) else w.disk.lookup q) ∨
        ((∃ e, (Svc.handle sha256 env (.beginUpload id path) w).1 = .error e) ∧
          (Svc.handle sha256 env (.beginUpload id path) w).2.disk = w.disk)) := by
  have begun := beginWrite_spec env id (payloadPath id path) path (w.enter .beginUpload) fresh
  have still := exec_still env (beginWrite_quiet id (payloadPath id path) path) (w.enter .beginUpload)
  rw [leads_exec] at begun
  have run : Svc.handle sha256 env (.beginUpload id path) w =
      exec env (FileStore.beginWrite id (payloadPath id path) path).run (w.enter .beginUpload) := rfl
  rw [run]
  refine ⟨still.unindexed,begun.imp ?_ ?_⟩
  · exact fun opened => opened
  · rintro ⟨e,error,same,_⟩
    exact ⟨⟨e,error⟩,same⟩

theorem commitUpload_done (sha256 : Bytes → Sha256Digest) (env : Env) {u : Upload} (expected : Option Sha256Digest)
    (w : World) (done : u.done = true) :
    Svc.handle sha256 env (.commitUpload u expected) w = ((.error Upload.finished,u),w.enter .commitUpload) :=
  commit_done sha256 expected done

section Rules

variable {sha256 : Bytes → Sha256Digest} {env : Env} {w : World} {α β : Type}

/-! Running the service's programs: an equation for each call, and a rule for each way they
are put together. -/

@[simp] theorem handle_find (id : TransactionId) : Svc.handle sha256 env (.find id) w = (w.index.lookup id,w) := rfl
@[simp] theorem handle_env (c : EnvCall) : Svc.handle sha256 env (.env c) w = c.handle env w := rfl
@[simp] theorem handle_findIf (pred : Transaction → Bool) :
    Svc.handle sha256 env (.findIf pred) w = (w.all.filter pred,w) := rfl

theorem run_svc (c : SvcCall) : (svc c).run (Svc.handle sha256 env) w = Svc.handle sha256 env c w := rfl

@[simp] theorem run_insert (tx : Transaction) : @Prog.run Svc (Result Unit) World (Svc.handle sha256 env)
    (svc (.insert tx)) w = Svc.handle sha256 env (.insert tx) w := run_svc _
@[simp] theorem run_save (tx : Transaction) : @Prog.run Svc (Result Unit) World (Svc.handle sha256 env)
    (svc (.save tx)) w = Svc.handle sha256 env (.save tx) w := run_svc _
@[simp] theorem run_saveManifest (tx : Transaction) : @Prog.run Svc (Result Unit) World (Svc.handle sha256 env)
    (svc (.saveManifest tx)) w = Svc.handle sha256 env (.saveManifest tx) w := run_svc _
@[simp] theorem run_remove (id : TransactionId) : @Prog.run Svc (Result Unit) World (Svc.handle sha256 env)
    (svc (.remove id)) w = Svc.handle sha256 env (.remove id) w := run_svc _
@[simp] theorem removeFile_run (id : TransactionId) (path : RelativePath) :
    @Prog.run Svc (Result Unit) World (Svc.handle sha256 env) (svc (.removeFile id path)) w =
      exec env (FileStore.removeFile id path).run (w.enter .removeFile) := rfl
@[simp] theorem run_beginUpload (id : TransactionId) (path : RelativePath) :
    @Prog.run Svc (Result Upload) World (Svc.handle sha256 env) (svc (.beginUpload id path)) w =
      Svc.handle sha256 env (.beginUpload id path) w := run_svc _
@[simp] theorem run_hashFile (id : TransactionId) (path : RelativePath) :
    @Prog.run Svc (Result StoredFile) World (Svc.handle sha256 env) (svc (.hashFile id path)) w =
      (match w.disk.lookup (payloadPath id path) with
        | some (.file content) => .ok ⟨path,UInt64.ofNat content.length,sha256 content⟩
        | _ => .error (noSuchFile path.value),w) := hashFile_spec sha256 env id path w
@[simp] theorem run_checkDestination (user server : Bytes) :
    @Prog.run Svc (Result Unit) World (Svc.handle sha256 env) (svc (.env (.checkDestination user server))) w =
      (env.destination user server,w) := rfl

variable {post : Result β → World → Prop}

@[simp] theorem leads_find_bind {f : Option Transaction → SvcM β} :
    Leads (Svc.handle sha256 env) (@bind SvcM _ (Option Transaction) β (ask (.find id)) f) w post ↔
      Leads (Svc.handle sha256 env) (f (w.index.lookup id)) w post := leads_lift_bind

@[simp] theorem leads_now_bind {f : Int → SvcM β} :
    Leads (Svc.handle sha256 env) (@bind SvcM _ Int β (ask (.env .now)) f) w post ↔
      Leads (Svc.handle sha256 env) (f env.now) w post := leads_lift_bind

@[simp] theorem leads_generate_bind {f : TransactionId → SvcM β} :
    Leads (Svc.handle sha256 env) (@bind SvcM _ TransactionId β (ask (.env .generate)) f) w post ↔
      Leads (Svc.handle sha256 env) (f env.fresh) w post := leads_lift_bind

variable {f : Unit → SvcM β}

@[simp] theorem leads_record_bind {event : BizEvent} :
    Leads (Svc.handle sha256 env) (@bind SvcM _ Unit β (ask (.env (.record event))) f) w post ↔
      Leads (Svc.handle sha256 env) (f ()) { w with log := w.log ++ [event] } post := leads_lift_bind

@[simp] theorem leads_record {event : BizEvent} {post : Result Unit → World → Prop} :
    Leads (Svc.handle sha256 env) (ask (.env (.record event))) w post ↔
      post (.ok ()) { w with log := w.log ++ [event] } := Iff.rfl

@[simp] theorem leads_onCommitted_bind {tx : Transaction} :
    Leads (Svc.handle sha256 env) (@bind SvcM _ Unit β (ask (.env (.onCommitted tx))) f) w post ↔
      Leads (Svc.handle sha256 env) (f ()) w post := leads_lift_bind

@[simp] theorem leads_eraseLock {post : Result Unit → World → Prop} :
    Leads (Svc.handle sha256 env) (ask (.env (.eraseLock id))) w post ↔ post (.ok ()) w := Iff.rfl

theorem leads_try_bind {p : Prog Svc (Result α)} {f : α → SvcM β} :
    Leads (Svc.handle sha256 env) (tryCall p >>= f) w post ↔
      (∀ e, (p.run (Svc.handle sha256 env) w).1 = .error e → post (.error e) (p.run (Svc.handle sha256 env) w).2) ∧
      (∀ value, (p.run (Svc.handle sha256 env) w).1 = .ok value →
        Leads (Svc.handle sha256 env) (f value) (p.run (Svc.handle sha256 env) w).2 post) := by
  rw [leads_bind,tryCall,leads_mk]
  rcases p.run (Svc.handle sha256 env) w with ⟨_ | _,_⟩ <;> simp

/-- What is asked of an open transaction by someone who may change it. -/
theorem leads_findMutable_bind {caller : Caller} {f : Transaction → SvcM β} (stop : ∀ e, post (.error e) w)
    (next : ∀ tx, w.index.lookup id = some tx → mayWrite caller tx = true → tx.state = .open →
      Leads (Svc.handle sha256 env) (f tx) w post) :
    Leads (Svc.handle sha256 env) (TransactionService.findMutable caller id >>= f) w post := by
  unfold TransactionService.findMutable
  rw [leads_bind]
  simp only [leads_find_bind]
  cases known : w.index.lookup id with
  | none => exact stop _
  | some tx =>
    simp only [leads_refuse_bind,leads_ensure_bind]
    refine ⟨fun _ => stop _,fun allowed => ⟨fun _ _ => stop _,fun _ isOpen => ?_⟩⟩
    exact next tx known (by simpa using allowed) (requireMutable_ok.mp isOpen)

/-- Run to its end, an operation does not notice its lock. -/
theorem leads_locked {body : SvcM β} : Leads (Svc.handle sha256 env) (TransactionService.locked id body) w post ↔
      Leads (Svc.handle sha256 env) body w post := by
  unfold TransactionService.locked TransactionService.withLock
  rw [leads_mk]
  simp only [run_bind]
  rfl

theorem leads_locked_bind {body : SvcM α} {f : α → SvcM β} :
    Leads (Svc.handle sha256 env) (TransactionService.locked id body >>= f) w post ↔
      Leads (Svc.handle sha256 env) (body >>= f) w post := by
  rw [leads_bind,leads_locked,← leads_bind]

/-- An entry that its file bears out. -/
def FileEntry.Matches (sha256 : Bytes → Sha256Digest) (disk : Disk) (id : TransactionId) (entry : FileEntry) : Prop :=
  ∃ content, disk.lookup (payloadPath id entry.path) = some (.file content) ∧
    entry.size = UInt64.ofNat content.length ∧ entry.sha256 = sha256 content

/-- The check before a commit changes nothing. -/
theorem checkFiles_world (id : TransactionId) (files : List FileEntry) :
    ((TransactionService.checkFiles id files).run.run (Svc.handle sha256 env) w).2 = w := by
  induction files with
  | nil => rfl
  | cons entry rest ih =>
    change Leads (Svc.handle sha256 env) (TransactionService.checkFiles id (entry :: rest)) w fun _ w' => w' = w
    unfold TransactionService.checkFiles
    simp only [leads_try_bind,run_hashFile,leads_refuse_bind]
    exact ⟨fun _ _ => trivial,fun _ _ => ⟨fun _ => trivial,fun _ => ih⟩⟩

/-- It passes exactly when every entry is borne out by its file. -/
theorem checkFiles_ok (id : TransactionId) (files : List FileEntry) :
    ((TransactionService.checkFiles id files).run.run (Svc.handle sha256 env) w).1 = .ok () ↔
      ∀ entry ∈ files, entry.Matches sha256 w.disk id := by
  induction files with
  | nil => exact ⟨fun _ => by simp,fun _ => rfl⟩
  | cons entry rest ih =>
    rw [List.forall_mem_cons,← ih]
    change Leads (Svc.handle sha256 env) (TransactionService.checkFiles id (entry :: rest)) w
      (fun result _ => result = .ok ()) ↔ _
    rw [TransactionService.checkFiles]
    simp only [leads_try_bind,run_hashFile,leads_refuse_bind,FileEntry.Matches]
    rcases w.disk.lookup (payloadPath id entry.path) with _ | _ | content
    · simp
    · simp
    · simp only [reduceCtorEq,Except.ok.injEq,forall_eq',decide_eq_true_eq,
        decide_eq_false_iff_not,imp_false,not_or,not_not,Option.some.injEq,Node.file.injEq,exists_eq_left']
      exact ⟨fun ⟨_,same,later⟩ => ⟨⟨same.1.symm,same.2.symm⟩,later same⟩,
        fun ⟨same,later⟩ => ⟨by simp,⟨same.1.symm,same.2.symm⟩,fun _ => later⟩⟩

theorem leads_checkFiles_bind {files : List FileEntry}
    (stop : ¬ (∀ entry ∈ files, entry.Matches sha256 w.disk id) → ∀ e, post (.error e) w)
    (next : (∀ entry ∈ files, entry.Matches sha256 w.disk id) → Leads (Svc.handle sha256 env) (f ()) w post) :
    Leads (Svc.handle sha256 env) (TransactionService.checkFiles id files >>= f) w post := by
  have passes := @checkFiles_ok _ sha256 env w id files
  have same := @checkFiles_world _ sha256 env w id files
  rw [leads_bind,Leads,same]
  cases outcome : ((TransactionService.checkFiles id files).run.run (Svc.handle sha256 env) w).1 with
  | ok => exact next (passes.mp outcome)
  | error e =>
    refine stop (fun right => ?_) e
    rw [passes.mpr right] at outcome
    contradiction

@[simp] theorem run_find (id : TransactionId) : @Prog.run Svc (Option Transaction) World (Svc.handle sha256 env)
    (svc (.find id)) w = (w.index.lookup id,w) := rfl
@[simp] theorem run_commitUpload (u : Upload) (expected : Option Sha256Digest) :
    @Prog.run Svc (Result StoredFile × Upload) World (Svc.handle sha256 env) (svc (.commitUpload u expected)) w =
      Svc.handle sha256 env (.commitUpload u expected) w := rfl

/-- Run to its end, a program does not notice its lock. -/
theorem run_withLock (id : TransactionId) (body : Prog Svc α) :
    (TransactionService.withLock id body).run (Svc.handle sha256 env) w = body.run (Svc.handle sha256 env) w := by
  unfold TransactionService.withLock
  simp only [run_bind]
  rfl

/-- The entry a finished upload adds. -/
def StoredFile.entry (stored : StoredFile) : FileEntry := ⟨stored.path,stored.size,stored.sha256⟩

/-- The ways in which finishing an upload can end. -/
theorem finishUpload_rule {p : PendingUpload} {expected : Option Sha256Digest}
    {P : Result FileEntry × PendingUpload → World → Prop}
    (absent : w.index.lookup p.id = none → P (.error (notFound p.id),p) w)
    (closed : ∀ tx e, w.index.lookup p.id = some tx → tx.state ≠ .open → P (.error e,p) w)
    (refused : ∀ tx e u w₁, w.index.lookup p.id = some tx → tx.state = .open →
      Svc.handle sha256 env (.commitUpload p.upload expected) w = ((.error e,u),w₁) →
      P (.error e,{ p with upload := u }) w₁)
    (stored : ∀ tx file u w₁, w.index.lookup p.id = some tx → tx.state = .open →
      Svc.handle sha256 env (.commitUpload p.upload expected) w = ((.ok file,u),w₁) →
      (∀ e, (Svc.handle sha256 env (.save { tx with files := upsertFile tx.files file.entry }) w₁).1 = .error e →
        P (.error e,{ p with upload := u })
          (Svc.handle sha256 env (.save { tx with files := upsertFile tx.files file.entry }) w₁).2) ∧
      ((Svc.handle sha256 env (.save { tx with files := upsertFile tx.files file.entry }) w₁).1 = .ok () →
        ∀ log, P (.ok file.entry,{ p with upload := u })
          { (Svc.handle sha256 env (.save { tx with files := upsertFile tx.files file.entry }) w₁).2 with log := log })) :
    P ((TransactionService.finishUpload p expected).run (Svc.handle sha256 env) w).1
      ((TransactionService.finishUpload p expected).run (Svc.handle sha256 env) w).2 := by
  unfold TransactionService.finishUpload
  rw [run_withLock]
  simp only [run_bind,run_find]
  cases known : w.index.lookup p.id with
  | none => exact absent known
  | some tx =>
    dsimp only
    cases isOpen : requireMutable tx.state with
    | error e =>
      refine closed tx e known fun same => ?_
      rw [requireMutable_ok.mpr same] at isOpen
      contradiction
    | ok =>
      have isOpen := requireMutable_ok.mp isOpen
      simp only [run_bind,run_commitUpload]
      cases outcome : Svc.handle sha256 env (.commitUpload p.upload expected) w with
      | mk result w₁ =>
        obtain ⟨result,u⟩ := result
        cases result with
        | error e => exact refused tx e u w₁ known isOpen outcome
        | ok file =>
          obtain ⟨unsaved,saved⟩ := stored tx file u w₁ known isOpen outcome
          simp only [run_bind,run_save]
          rw [StoredFile.entry] at unsaved saved
          generalize Svc.handle sha256 env (.save _) w₁ = written at unsaved saved ⊢
          obtain ⟨result,w₂⟩ := written
          cases result with
          | error e => exact unsaved e rfl
          | ok => exact saved rfl _

end Rules

end Confide
