import Confide.Ledger
import Confide.Restart

/-! File lists stay sorted from loading on, so that searching by halving finds what a scan finds. -/
namespace Confide

variable {sha256 : Bytes → Sha256Digest} {opts : ServiceOptions} {env : Env} {pending : List PendingUpload} {op : Op}
  {tx tx' : Transaction} {s : Server} {files : List FileEntry}

/-- In a sorted list the search and a scan from the front find the same. -/
theorem Sorted.findFile (sorted : Sorted tx.files) (path : RelativePath) :
    tx.findFile path = tx.files.find? (·.path = path) := by
  have cut := lowerBound_cut sorted path
  cases found : tx.files.find? (·.path = path) with
  | some file =>
    have same : file.path = path := by simpa using List.find?_some found
    have here := Cut.found sorted cut (List.mem_of_find?_eq_some found) same
    simp [Transaction.findFile,here,same]
  | none =>
    unfold Transaction.findFile
    split
    · rename_i file here
      have other : file.path ≠ path := by
        simpa using List.find?_eq_none.mp found file (List.mem_of_getElem? here)
      exact if_neg other
    · rfl

theorem Sorted.find?_iff (sorted : Sorted files) (path : RelativePath) (file : FileEntry) :
    files.find? (·.path = path) = some file ↔ file ∈ files ∧ file.path = path := by
  constructor
  · exact fun found => ⟨List.mem_of_find?_eq_some found,by simpa using List.find?_some found⟩
  · rintro ⟨member,same⟩
    cases found : files.find? (·.path = path) with
    | none => exact absurd same (by simpa using List.find?_eq_none.mp found file member)
    | some other =>
      have same' : other.path = path := by simpa using List.find?_some found
      rw [sorted.unique (List.mem_of_find?_eq_some found) member (same'.trans same.symm)]

theorem Sorted.eq_of_mem_iff {files files' : List FileEntry} (sorted : Sorted files) (sorted' : Sorted files')
    (same : ∀ file, file ∈ files ↔ file ∈ files') : files = files' := by
  have irrefl : Std.Irrefl fun a b : FileEntry => a.path < b.path := ⟨fun a => lt_irrefl a.path⟩
  have antisymm : Std.Antisymm fun a b : FileEntry => a.path < b.path := ⟨fun a b first second => absurd second first.asymm⟩
  exact List.Pairwise.eq_of_mem_iff sorted sorted' same

/-- The new entry is found under its path, and every other path finds what it found before. -/
theorem Sorted.find?_upsertFile (sorted : Sorted files) (entry : FileEntry) (path : RelativePath) :
    (upsertFile files entry).find? (·.path = path) = if path = entry.path then some entry else files.find? (·.path = path) := by
  have after := upsertFile_sorted sorted entry
  ext file
  rw [after.find?_iff,mem_upsertFile sorted]
  by_cases same : path = entry.path
  · rw [if_pos same]
    constructor
    · rintro ⟨rfl | ⟨_,other⟩,named⟩
      · rfl
      · exact absurd (named.trans same) other
    · intro found
      cases found
      exact ⟨.inl rfl,same.symm⟩
  · rw [if_neg same,sorted.find?_iff]
    constructor
    · rintro ⟨rfl | ⟨member,_⟩,named⟩
      · exact absurd named.symm same
      · exact ⟨member,named⟩
    · rintro ⟨member,named⟩
      exact ⟨.inr ⟨member,fun other => same (named.symm.trans other)⟩,named⟩

theorem Updates.sorted (updates : Updates sha256 opts env pending op tx tx') (sorted : Sorted tx.files) : Sorted tx'.files := by
  cases updates with
  | uploaded => exact upsertFile_sorted sorted _
  | erased => exact sorted.sublist List.eraseP_sublist
  | committed | delivered | retained | marked => exact sorted

theorem Opens.sorted (opens : Opens opts env op tx) : Sorted tx.files := by
  cases opens <;> exact List.Pairwise.nil

structure Searchable (s : Server) : Prop where
  keyed : Keyed s.world.index
  sorted : Throughout (fun _ tx => Sorted tx.files) s.world.index

section

variable [BoostJson]

theorem step_searchable (searchable : Searchable s) (op : Op) : Searchable (s.step sha256 opts env op) := by
  obtain ⟨⟨takes,_⟩,_⟩ := step_takes sha256 opts env searchable.keyed op
  constructor
  · exact step_keyed searchable.keyed op
  · exact takes.throughout (fun _ opens _ => opens.sorted) (fun _ _ change _ sorted => change.sorted sorted) searchable.sorted

theorem run_searchable (searchable : Searchable s) (steps : List (Env × Op)) : Searchable (s.run sha256 opts steps) := by
  induction steps generalizing s with
  | nil => exact searchable
  | cons step rest ih => exact ih (step_searchable searchable step.2)

theorem recorded_decoded {disk : Disk} {id : TransactionId} (read : recorded disk id = .ok tx) :
    ∃ text, decodeMeta text = .ok tx := by
  unfold recorded at read
  split at read
  · rename_i content _
    split at read
    · rename_i decoded
      split at read
      · exact ⟨content,Except.ok.inj read ▸ decoded⟩
      · contradiction
    · contradiction
  · contradiction
  · contradiction

theorem restart_decoded {disk : Disk} (started : (exec env restart.run (World.boot disk)).1 = .ok ()) {id : TransactionId}
    (known : (exec env restart.run (World.boot disk)).2.index.lookup id = some tx) :
    tx.id = id ∧ ∃ text, decodeMeta text = .ok tx := by
  unfold restart at started known
  rw [exec_bindM] at started known
  generalize exec env FileStore.open.run (World.boot disk) = opened at started known
  obtain ⟨result,w⟩ := opened
  cases result with
  | error e => contradiction
  | ok _ =>
    obtain ⟨works,_,loaded⟩ := load_spec env w
    obtain ⟨_,read⟩ := ((loaded (works.mp started)).recorded id tx).mp known
    exact ⟨recorded_id read,recorded_decoded read⟩

theorem restart_searchable {disk : Disk} (started : (exec env restart.run (World.boot disk)).1 = .ok ())
    (pending : List PendingUpload) : Searchable ⟨(exec env restart.run (World.boot disk)).2,pending⟩ := by
  constructor
  · exact fun id tx known => (restart_decoded started known).1
  · intro id tx known
    obtain ⟨_,text,decoded⟩ := restart_decoded started known
    exact (decodeMeta_storable decoded).files

/-- From any storage directory that the server starts on, through any operations, every stored list of files can be
searched by halving and updated in place. -/
theorem file_lists_stay_searchable (sha256 : Bytes → Sha256Digest) (opts : ServiceOptions) (env : Env) (disk : Disk)
    (started : (exec env restart.run (World.boot disk)).1 = .ok ()) (steps : List (Env × Op)) (id : TransactionId)
    (tx : Transaction)
    (stored : (Server.run sha256 opts ⟨(exec env restart.run (World.boot disk)).2,[]⟩ steps).world.index.lookup id = some tx) :
    Sorted tx.files ∧ (∀ path, tx.findFile path = tx.files.find? (·.path = path)) ∧
      ∀ entry, Sorted (upsertFile tx.files entry) ∧ ∀ path, (upsertFile tx.files entry).find? (·.path = path) =
        if path = entry.path then some entry else tx.files.find? (·.path = path) := by
  have sorted := (run_searchable (restart_searchable started []) steps).sorted id tx stored
  exact ⟨sorted,sorted.findFile,fun entry => ⟨upsertFile_sorted sorted entry,sorted.find?_upsertFile entry⟩⟩

end

theorem uploaded_list_searchable :
    let s := Server.run Sample.sha256 Sample.opts ⟨(exec Sample.env restart.run (World.boot emptyDisk)).2,[]⟩
      [(Sample.env,.create Sample.alice Sample.request),(Sample.env,.beginUpload Sample.alice Sample.id Sample.path),
        (Sample.env,.finishUpload 0 none)]
    ∃ tx, s.world.index.lookup Sample.id = some tx ∧ tx.files.length = 1 ∧ Sorted tx.files := by
  intro s
  have listed : (s.world.index.lookup Sample.id).map (·.files.length) = some 1 := by decide +kernel
  obtain ⟨tx,stored,one⟩ := Option.map_eq_some_iff.mp listed
  exact ⟨tx,stored,one,(file_lists_stay_searchable Sample.sha256 Sample.opts Sample.env emptyDisk (by decide +kernel) _ Sample.id
    tx stored).1⟩

end Confide
