import Confide.CrashSafety
import Confide.FileLists

/-! Whatever fails, no meta.json says anything of a transaction that the index does not say. So a start over the storage
directory brings back a transaction as it was, or not at all. -/
namespace Confide

open Resumption.Prog

variable {sha256 : Bytes → Sha256Digest} {opts : ServiceOptions} {env : Env} {pending : List PendingUpload} {op : Op}
  {w w' : World} {s : Server} {id : TransactionId} {tx tx' : Transaction}

variable [BoostJson]

theorem recorded_document {disk : Disk} (document : disk.lookup (documentPath id .meta) = some (.file (encodeMeta tx)))
    (sorted : Sorted tx.files) (read : recorded disk id = .ok tx') : tx' = tx := by
  unfold recorded at read
  rw [document] at read
  dsimp only at read
  split at read
  · rename_i decoded
    split at read
    · cases read
      exact decodeMeta_reads sorted decoded
    · contradiction
  · contradiction

theorem recorded_absent {disk : Disk} (absent : disk.lookup (documentPath id .meta) = none) : recorded disk id ≠ .ok tx := by
  unfold recorded
  rw [absent]
  exact fun bad => by cases bad

theorem recorded_folder {disk : Disk} (read : recorded disk id = .ok tx) :
    disk.lookup (transactionDir id) = some .directory := by
  refine disk.directory_above _ [Document.meta.fileName] ?_ (by simp)
  exact fun absent => recorded_absent absent read

structure Mirrored (w : World) : Prop where
  fresh : FreshTmp w
  sorted : Throughout (fun _ tx => Sorted tx.files) w.index
  documents : ∀ id tx, recorded w.disk id = .ok tx → w.index.lookup id = some tx

theorem Mirrored.same (mirrored : Mirrored w) (fresh : FreshTmp w') (index : w'.index = w.index)
    (document : ∀ id, w'.disk.lookup (documentPath id .meta) = w.disk.lookup (documentPath id .meta)) : Mirrored w' := by
  refine ⟨fresh,index ▸ mirrored.sorted,fun id tx read => ?_⟩
  rw [recorded_frame (document id)] at read
  rw [index]
  exact mirrored.documents id tx read

/-- A transaction is put in the index after its meta.json. -/
theorem Mirrored.put (mirrored : Mirrored w) (fresh : FreshTmp w') (sorted : Sorted tx.files)
    (index : w'.index = w.index.insert tx.id tx)
    (document : w'.disk.lookup (documentPath tx.id .meta) = some (.file (encodeMeta tx)))
    (other : ∀ id, id ≠ tx.id → w'.disk.lookup (documentPath id .meta) = w.disk.lookup (documentPath id .meta)) :
    Mirrored w' := by
  refine ⟨fresh,index ▸ mirrored.sorted.insert sorted,fun id tx' read => ?_⟩
  rw [index]
  by_cases same : id = tx.id
  · subst same
    rw [recorded_document document sorted read,Finmap.lookup_insert]
  · rw [recorded_frame (other id same)] at read
    rw [Finmap.lookup_insert_of_ne _ same]
    exact mirrored.documents id tx' read

omit [BoostJson] in
theorem document_elsewhere {id' : TransactionId} (other : id' ≠ id) (doc : Document) :
    ¬ transactionDir id <+: documentPath id' doc :=
  fun inside => other (transactionDir_apart (document_in_folder id' doc) inside)

theorem Mirrored.insert (mirrored : Mirrored w) (env : Env) (sorted : Sorted tx.files) :
    Mirrored (Svc.handle sha256 env (.insert tx) w).2 := by
  have effect := insert_effect sha256 env tx w mirrored.fresh
  by_cases ok : (Svc.handle sha256 env (.insert tx) w).1 = .ok ()
  · obtain ⟨_,index,_,disk⟩ := effect.done ok
    refine mirrored.put effect.fresh sorted index (by rw [disk,if_pos rfl]) fun id other => ?_
    have outside := document_elsewhere other .meta
    have apart : documentPath id .meta ≠ documentPath tx.id .meta := fun same =>
      outside (same ▸ document_in_folder tx.id .meta)
    rw [disk,if_neg apart,if_neg]
    rintro (same | same)
    · exact outside (same ▸ List.prefix_refl _)
    · exact outside (same ▸ List.prefix_append _ _)
  · obtain ⟨index,frame⟩ := effect.failed ok
    refine mirrored.same effect.fresh index fun id => ?_
    by_cases same : id = tx.id
    · subst same
      exact effect.document ok
    · exact frame _ (document_elsewhere same .meta) (document_not_unused id .meta)

theorem Mirrored.save (mirrored : Mirrored w) (env : Env) (sorted : Sorted tx.files) :
    Mirrored (Svc.handle sha256 env (.save tx) w).2 := by
  have effect := save_effect sha256 env tx w mirrored.fresh
  by_cases ok : (Svc.handle sha256 env (.save tx) w).1 = .ok ()
  · have disk := effect.document.done ok
    refine mirrored.put effect.document.fresh sorted (effect.done ok).2 (by rw [disk,if_pos rfl]) fun id other => ?_
    have apart : documentPath id .meta ≠ documentPath tx.id .meta := fun same =>
      document_elsewhere other .meta (same ▸ document_in_folder tx.id .meta)
    rw [disk,if_neg apart]
  · have frame := effect.document.failed ok
    exact mirrored.same effect.document.fresh (effect.failed ok) fun id => frame _ (document_not_unused id .meta)

theorem Mirrored.remove (mirrored : Mirrored w) (env : Env) (id : TransactionId) :
    Mirrored (Svc.handle sha256 env (.remove id) w).2 := by
  have effect := remove_effect sha256 env id w mirrored.fresh
  have left : ∀ id' tx, recorded (Svc.handle sha256 env (.remove id) w).2.disk id' = .ok tx → w.index.lookup id' = some tx := by
    intro id' tx read
    rcases effect.frame (documentPath id' .meta) with same | ⟨_,gone⟩
    · rw [recorded_frame same] at read
      exact mirrored.documents id' tx read
    · exact absurd read (recorded_absent gone)
  by_cases ok : (Svc.handle sha256 env (.remove id) w).1 = .ok ()
  · obtain ⟨index,gone⟩ := effect.done ok
    refine ⟨effect.fresh,index ▸ mirrored.sorted.erase id,fun id' tx read => ?_⟩
    rw [index]
    by_cases same : id' = id
    · subst same
      exact absurd read (recorded_absent (gone _ (document_in_folder id' .meta)))
    · rw [Finmap.lookup_erase_ne same]
      exact left id' tx read
  · have index := (effect.failed ok).1
    exact ⟨effect.fresh,index ▸ mirrored.sorted,index ▸ left⟩

theorem May.mirrored {c : SvcCall} (may : May sha256 opts env pending op c w.index) (placed : ∀ p ∈ pending, Placed p)
    (mirrored : Mirrored w) : Mirrored (Svc.handle sha256 env c w).2 := by
  have fresh := may.fresh placed mirrored.fresh
  have other : c.sweeps = false → (∀ tx, c ≠ .save tx) → Mirrored (Svc.handle sha256 env c w).2 := by
    intro spared unsaved
    obtain ⟨fuel,same⟩ := run_eq_cut (Sys.handle env) (implement sha256 c) w
    change (implement sha256 c).cut (Sys.handle env) fuel w = (Svc.handle sha256 env c w).2 at same
    rw [← same] at fresh ⊢
    exact mirrored.same fresh (cut_index (implement_bystander c spared unsaved) fuel) (may.document placed spared unsaved fuel)
  cases c with
  | insert tx => exact mirrored.insert env (Opens.sorted may)
  | save tx' =>
    obtain ⟨tx,known,change⟩ := may
    exact mirrored.save env (change.sorted (mirrored.sorted tx.id tx known))
  | remove id => exact mirrored.remove env id
  | env | find | findIf | saveManifest | beginUpload | writeUpload | commitUpload | discardUpload | hashFile | removeFile
  | openRead => exact other rfl fun _ bad => by cases bad

theorem step_mirrored (orderly : Orderly s) (mirrored : Mirrored s.world) (op : Op) :
    Mirrored (s.step sha256 opts env op).world := by
  have may := (step_takes sha256 opts env orderly.keyed op).2
  exact (calls_invariant (Svc.handle sha256 env) (fun c w => May sha256 opts env s.pending op c w.index) Mirrored
    (fun c w may mirrored => may.mirrored orderly.placed mirrored) _ _ may mirrored).1

omit [BoostJson] in
/-- If the store opens, its temp files are gone and the rest is there as it was. -/
theorem open_frame (env : Env) (w : World) : Leads (Sys.handle env) FileStore.open w fun result w' => result = .ok () →
    (∀ id, w'.disk.lookup (documentPath id .meta) = w.disk.lookup (documentPath id .meta)) ∧
      ∀ id n, w'.disk.lookup (tmpPath id n) = none := by
  have grown : ∀ {w w' : World} {path : Path} (id : TransactionId), path.length ≤ 1 → Grown w.disk w'.disk path →
      w'.disk.lookup (documentPath id .meta) = w.disk.lookup (documentPath id .meta) := by
    intro w w' path id short grown
    refine (grown _).resolve_right ?_
    rintro ⟨_,_,above⟩
    have := above.length_le
    simp [documentPath,transactionDir,transactionsDir] at this
    omega
  have refused : ∀ {e : Error} {P : Prop}, (Except.error e : Result Unit) = .ok () → P := fun bad => by cases bad
  unfold FileStore.open
  rw [leads_exec_bind]
  have first := (createDirectories_spec env transactionsDir.reverse w).1
  generalize exec env (createDirectories transactionsDir.reverse) w = outcome at first ⊢
  obtain ⟨made,w₁⟩ := outcome
  rw [List.reverse_reverse] at first
  refine leads_orIo_bind.mpr ⟨fun _ => refused,fun _ => ?_⟩
  rw [leads_exec_bind]
  obtain ⟨frame,emptied,_⟩ := (removeAll_spec env tmpDir w₁).1
  generalize exec env (removeAll tmpDir) w₁ = outcome at frame emptied ⊢
  obtain ⟨removed,w₂⟩ := outcome
  refine leads_orIo_bind.mpr ⟨fun _ => refused,fun cleaned => ?_⟩
  have gone := emptied cleaned
  rw [leads_exec_bind]
  have second := (createDirectories_spec env tmpDir.reverse w₂).1
  generalize exec env (createDirectories tmpDir.reverse) w₂ = outcome at second ⊢
  obtain ⟨made',w₃⟩ := outcome
  rw [List.reverse_reverse] at second
  rw [leads_exec,orIo,exec_refuse]
  dsimp only at first frame gone second ⊢
  intro _
  constructor
  · intro id
    have kept := (frame (documentPath id .meta)).resolve_right fun removed =>
      transactionDir_not_tmp (document_in_folder id .meta) removed.1
    rw [grown id (by simp [tmpDir]) second,kept,grown id (by simp [transactionsDir]) first]
  · intro id n
    have below : tmpDir <+: tmpPath id n := List.prefix_append _ _
    rcases second (tmpPath id n) with same | ⟨_,_,above⟩
    · exact same.trans (gone _ below)
    · have := above.length_le
      simp [tmpPath,tmpDir] at this

/-- What a start has loaded stands in the folders it was started on. -/
theorem restart_loads {disk : Disk} (starts : exec env restart.run (World.boot disk) = (.ok (),w)) :
    Mirrored w ∧ ∀ id tx, w.index.lookup id = some tx → recorded disk id = .ok tx := by
  have searchable := restart_searchable (congrArg Prod.fst starts) []
  rw [starts] at searchable
  have opened := leads_exec.mp (open_frame env (World.boot disk))
  unfold restart at starts
  rw [exec_bindM] at starts
  generalize exec env FileStore.open.run (World.boot disk) = outcome at opened starts
  obtain ⟨result,w₁⟩ := outcome
  cases result with
  | error e => cases starts
  | ok _ =>
    obtain ⟨documents,temps⟩ := opened rfl
    obtain ⟨works,still,loaded⟩ := load_spec env w₁
    dsimp only at starts documents temps
    rw [starts] at works still loaded
    have index := (loaded (works.mp rfl)).recorded
    refine ⟨⟨?_,searchable.sorted,?_⟩,?_⟩
    · intro id n present
      rw [still] at present
      exact absurd (temps id n) present
    · intro id tx read
      rw [still] at read
      exact (index id tx).mpr ⟨recorded_folder read,read⟩
    · intro id tx known
      have read := ((index id tx).mp known).2
      rwa [recorded_frame (documents id)] at read

/-- A start brings back what the index held, or less. -/
theorem Mirrored.restart (mirrored : Mirrored w) (starts : exec env restart.run (World.boot w.disk) = (.ok (),w')) :
    ∀ id tx, w'.index.lookup id = some tx → w.index.lookup id = some tx :=
  fun id tx known => mirrored.documents id tx ((restart_loads starts).2 id tx known)

end Confide
