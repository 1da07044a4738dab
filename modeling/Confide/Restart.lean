import Confide.Footprint

/-! Starting the server over an existing storage directory: which directories it accepts, and
what the index holds afterwards. -/
namespace Confide

open Bytes Resumption.Prog DirTree

variable {env : Env} {w : World}

def restart [BoostJson] : SysM Unit := do
  FileStore.open
  TransactionRepository.load

def recorded [BoostJson] (disk : Disk) (id : TransactionId) : Result Transaction :=
  match disk.lookup (documentPath id .meta) with
  | some (.file content) => match decodeMeta content with
    | .ok tx => if tx.id = id then .ok tx
      else .error ⟨.validation,ascii "transaction " ++ id.value ++ ascii ": meta.json holds id " ++ tx.id.value⟩
    | .error e => .error ⟨e.code,ascii "transaction " ++ id.value ++ ascii ": " ++ e.detail⟩
  | some .directory => .error (ioError (ascii "open") Document.meta.fileName)
  | none => .error (noSuchFile Document.meta.fileName)

theorem recorded_id [BoostJson] {disk : Disk} {id : TransactionId} {tx : Transaction} (read : recorded disk id = .ok tx) : tx.id = id := by
  unfold recorded at read
  split at read
  · split at read
    · split at read
      · exact Except.ok.inj read ▸ by assumption
      · contradiction
    · contradiction
  · contradiction
  · contradiction

theorem readDocument_run (id : TransactionId) (doc : Document) : exec env (FileStore.readDocument id doc).run w =
      (match w.disk.lookup (documentPath id doc) with
        | some (.file content) => .ok content
        | some .directory => .error (ioError (ascii "open") doc.fileName)
        | none => .error (noSuchFile doc.fileName),w) := by
  unfold FileStore.readDocument
  simp only [call_eq,exec_bindM,exec_liftM,exec_read,World.read]
  rcases w.disk.lookup (documentPath id doc) with _ | _ | content <;> rfl

/-- Every folder is read in turn, up to the first that cannot be. -/
theorem loadEach_run [BoostJson] (ids : List TransactionId) :
    exec env (TransactionRepository.loadEach ids).run w = (ids.mapM (recorded w.disk),w) := by
  induction ids with
  | nil => rfl
  | cons id ids ih =>
    rw [TransactionRepository.loadEach,exec_bindM,readDocument_run,List.mapM_cons,recorded]
    rcases w.disk.lookup (documentPath id .meta) with _ | _ | content
    · rfl
    · rfl
    dsimp only
    cases decodeMeta content with
    | error e => rfl
    | ok tx =>
      dsimp only
      rw [exec_bindM,exec_refuse]
      by_cases named : tx.id = id
      · simp only [named,ne_eq,not_true_eq_false,decide_false,Bool.false_eq_true,if_false,if_true,exec_bindM,ih]
        cases ids.mapM (recorded w.disk) <;> rfl
      · simp only [named,ne_eq,not_false_eq_true,decide_true,if_true,if_false]
        rfl

/-- The id that a name in the folder of transactions stands for. -/
def folderId (disk : Disk) (name : Bytes) : Option TransactionId :=
  if disk.isDirectory (transactionsDir ++ [name]) then (TransactionId.parse name).toOption else none

theorem folderId_eq_some {disk : Disk} {name : Bytes} {id : TransactionId} :
    folderId disk name = some id ↔ id.value = name ∧ disk.lookup (transactionDir id) = some .directory := by
  unfold folderId
  split
  · rename_i folder
    rw [Tree.isDirectory_iff] at folder
    constructor
    · intro parsed
      cases read : TransactionId.parse name with
      | error e => simp [read,Except.toOption] at parsed
      | ok id' =>
        simp only [read,Except.toOption,Option.some.injEq] at parsed
        subst parsed
        have same := TransactionId.parse_ok read
        exact ⟨same,by rw [transactionDir,same]; exact folder⟩
    · rintro ⟨rfl,_⟩
      simp [Except.toOption]
  · rename_i folder
    rw [Tree.isDirectory_iff] at folder
    constructor
    · intro bad
      contradiction
    · rintro ⟨rfl,present⟩
      exact absurd present folder

theorem transactionFolders_run (names : List Bytes) :
    exec env (FileStore.transactionFolders names) w = (names.filterMap (folderId w.disk),w) := by
  induction names with
  | nil => rfl
  | cons name names ih =>
    simp only [FileStore.transactionFolders,exec_bind,exec_status,ih,List.filterMap_cons,folderId]
    rcases folder : w.disk.lookup (transactionsDir ++ [name]) with _ | _ | content
    · simp [Tree.isDirectory,folder,nodeStatus]
    · cases read : TransactionId.parse name <;> simp [Tree.isDirectory,folder,nodeStatus,Except.toOption]
    · simp [Tree.isDirectory,folder,nodeStatus]

theorem listTransactions_run : ∃ ids, exec env FileStore.listTransactions.run w = (.ok ids,w) ∧
    ∀ id, id ∈ ids ↔ w.disk.lookup (transactionDir id) = some .directory := by
  refine ⟨((enumerate key key_injective (w.disk.children transactionsDir)).filterMap (folderId w.disk)).insertionSort
    (· ≤ ·),?_,fun id => ?_⟩
  · unfold FileStore.listTransactions
    simp only [call_eq,exec_bindM,exec_liftM,exec_children,transactionFolders_run]
    rfl
  · rw [List.mem_insertionSort,List.mem_filterMap]
    simp only [mem_enumerate,Tree.mem_children,folderId_eq_some]
    constructor
    · rintro ⟨_,_,rfl,folder⟩
      exact folder
    · exact fun folder => ⟨id.value,ne_of_eq_of_ne folder (by simp),rfl,folder⟩

theorem lookup_reset (txs : List Transaction) (id : TransactionId) (tx : Transaction)
    (unique : ∀ a ∈ txs, ∀ b ∈ txs, a.id = b.id → a = b) :
    (txs.foldr (fun tx (index : Index) => index.insert tx.id tx) ∅).lookup id = some tx ↔ tx ∈ txs ∧ tx.id = id := by
  induction txs with
  | nil => simp
  | cons first rest ih =>
    have ih := ih fun a left b right => unique a (List.mem_cons_of_mem _ left) b (List.mem_cons_of_mem _ right)
    rw [List.foldr_cons]
    by_cases same : id = first.id
    · rw [same,Finmap.lookup_insert]
      constructor
      · rintro ⟨⟩
        exact ⟨List.mem_cons_self ..,rfl⟩
      · rintro ⟨member,named⟩
        rw [unique tx member first (List.mem_cons_self ..) named]
    · rw [Finmap.lookup_insert_of_ne _ same,ih]
      constructor
      · exact fun ⟨member,named⟩ => ⟨List.mem_cons_of_mem _ member,named⟩
      · rintro ⟨member,named⟩
        refine ⟨(List.mem_cons.mp member).resolve_left ?_,named⟩
        rintro rfl
        exact same named.symm

/-- Every folder holds a meta.json of its own id that can be read. -/
def Loadable [BoostJson] (disk : Disk) : Prop :=
  ∀ id, disk.lookup (transactionDir id) = some .directory → ∃ tx, recorded disk id = .ok tx

structure Loaded [BoostJson] (disk : Disk) (index : Index) : Prop where
  recorded : ∀ id tx, index.lookup id = some tx ↔
    disk.lookup (transactionDir id) = some .directory ∧ Confide.recorded disk id = .ok tx

theorem load_spec [BoostJson] (env : Env) (w : World) : ((exec env TransactionRepository.load.run w).1 = .ok () ↔ Loadable w.disk) ∧
      (exec env TransactionRepository.load.run w).2.disk = w.disk ∧
      (Loadable w.disk → Loaded w.disk (exec env TransactionRepository.load.run w).2.index) := by
  obtain ⟨ids,listed,folders⟩ := @listTransactions_run env w
  unfold TransactionRepository.load
  rw [exec_bindM,listed]
  dsimp only
  rw [exec_bindM,loadEach_run]
  cases read : ids.mapM (recorded w.disk) with
  | error e =>
    have bad : ¬ Loadable w.disk := by
      intro good
      obtain ⟨txs,ok⟩ := mapM_isOk fun id member => good id ((folders id).mp member)
      rw [ok] at read
      contradiction
    exact ⟨⟨fun same => by contradiction,fun good => absurd good bad⟩,rfl,fun good => absurd good bad⟩
  | ok txs =>
    obtain ⟨back,forth⟩ := mapM_ok read
    have unique : ∀ a ∈ txs, ∀ b ∈ txs, a.id = b.id → a = b := by
      intro a left b right same
      obtain ⟨x,_,readA⟩ := back a left
      obtain ⟨y,_,readB⟩ := back b right
      obtain rfl : x = y := by rw [← recorded_id readA,← recorded_id readB,same]
      rw [readA] at readB
      exact Except.ok.inj readB
    refine ⟨⟨fun _ id folder => ?_,fun _ => rfl⟩,rfl,fun _ => ⟨fun id tx => ?_⟩⟩
    · obtain ⟨tx,_,same⟩ := forth id ((folders id).mpr folder)
      exact ⟨tx,same⟩
    · refine (lookup_reset txs id tx unique).trans ⟨?_,?_⟩
      · rintro ⟨member,rfl⟩
        obtain ⟨id,folder,same⟩ := back tx member
        obtain rfl := recorded_id same
        exact ⟨(folders _).mp folder,same⟩
      · rintro ⟨folder,same⟩
        obtain ⟨tx',member,same'⟩ := forth id ((folders id).mpr folder)
        rw [same] at same'
        cases same'
        exact ⟨member,recorded_id same⟩

/-- Opening the store empties its folder of temp files and touches nothing else. -/
theorem open_spec (clear : env.Clear w.stage) (top : w.disk.lookup transactionsDir = some .directory) :
    Leads (Sys.handle env) FileStore.open w fun result w' =>
      result = .ok () ∧ (∀ q, ¬ tmpDir <+: q → w'.disk.lookup q = w.disk.lookup q) ∧
        w'.disk.lookup tmpDir = some .directory ∧ ∀ q, tmpDir <+: q → q ≠ tmpDir → w'.disk.lookup q = none := by
  unfold FileStore.open
  rw [leads_exec_bind,createDirectories_present (by rwa [List.reverse_reverse])]
  refine leads_orIo_bind.mpr ⟨by simp,fun _ => ?_⟩
  rw [leads_exec_bind]
  obtain ⟨⟨frame,emptied,_⟩,works,_⟩ := removeAll_spec env tmpDir w
  have still := exec_still env (removeAll_quiet tmpDir) w
  have cleaned := (works (fun _ => True) (clears_clear clear (removeAll_quiet _) _) (by simp [tmpDir])).resolve_right (by simp)
  generalize exec env (removeAll tmpDir) w = outcome at frame emptied cleaned still
  obtain ⟨removed,w₁⟩ := outcome
  dsimp only at frame emptied cleaned still ⊢
  refine leads_orIo_bind.mpr ⟨fun bad => by rw [cleaned] at bad; contradiction,fun _ => ?_⟩
  have gone := emptied cleaned
  rw [leads_exec_bind]
  obtain ⟨grown,made,clash,fine⟩ := createDirectories_spec env tmpDir.reverse w₁
  generalize exec env (createDirectories tmpDir.reverse) w₁ = outcome at grown made clash fine
  obtain ⟨made',w₂⟩ := outcome
  rw [List.reverse_reverse] at grown made clash
  dsimp only at grown made clash fine ⊢
  have root : ∀ p, p <+: tmpDir → w₁.disk.lookup p = none ∨ w₁.disk.lookup p = some .directory := by
    intro p short
    rcases List.prefix_concat_iff.mp (show p <+: [] ++ [ascii "tmp"] from short) with rfl | top
    · exact .inl (gone _ (List.prefix_refl _))
    · rw [List.prefix_nil.mp top]
      exact .inr (by simp)
  have done : made' = .created ∨ made' = .present := by
    cases made' with
    | created => exact .inl rfl
    | present => exact .inr rfl
    | clash =>
      obtain ⟨_,p,content,short,file⟩ := clash rfl
      rcases root p short with none | directory
      · rw [none] at file; contradiction
      · rw [directory] at file; simp at file
    | failed => exact absurd rfl (fine (still.stage ▸ clear))
  have ok : (made' == .created || made' == .present) = true := by rcases done with rfl | rfl <;> rfl
  rw [leads_exec,orIo,exec_refuse,ok]
  refine ⟨rfl,fun q outside => ?_,made done,fun q below other => ?_⟩
  · have kept : w₁.disk.lookup q = w.disk.lookup q := (frame q).resolve_right fun removed => outside removed.1
    rcases grown q with same | ⟨absent,_,short⟩
    · exact same.trans kept
    · rcases List.prefix_concat_iff.mp (show q <+: [] ++ [ascii "tmp"] from short) with rfl | top
      · exact absurd (List.prefix_refl _) outside
      · rw [List.prefix_nil.mp top,Tree.lookup_root,Tree.lookup_root]
  · rcases grown q with same | ⟨_,_,short⟩
    · exact same.trans (gone q below)
    · exact absurd (short.eq_of_length_le below.length_le) other

def World.boot (disk : Disk) : World := ⟨∅,disk,0,[],.openStore,0⟩

theorem transactionDir_not_tmp {id : TransactionId} {q : Path} (inside : transactionDir id <+: q) : ¬ tmpDir <+: q := by
  rintro ⟨rest,rfl⟩
  obtain ⟨rest',same⟩ := inside
  simp only [transactionDir,transactionsDir,tmpDir,List.cons_append,List.nil_append,List.cons.injEq] at same
  exact absurd same.1 (by decide)

variable [BoostJson]

theorem recorded_frame {disk disk' : Disk} {id : TransactionId}
    (same : disk'.lookup (documentPath id .meta) = disk.lookup (documentPath id .meta)) :
    recorded disk' id = recorded disk id := by
  unfold recorded
  rw [same]

/-- The server starts exactly when every folder can be read, with an index of what they record. -/
theorem restart_spec (env : Env) (disk : Disk) (clear : env.Clear .openStore)
    (top : disk.lookup transactionsDir = some .directory) :
    ((exec env restart.run (World.boot disk)).1 = .ok () ↔ Loadable disk) ∧
      (Loadable disk → Loaded disk (exec env restart.run (World.boot disk)).2.index) ∧
      (∀ q, ¬ tmpDir <+: q → (exec env restart.run (World.boot disk)).2.disk.lookup q = disk.lookup q) ∧
      (exec env restart.run (World.boot disk)).2.disk.lookup tmpDir = some .directory ∧
      ∀ q, tmpDir <+: q → q ≠ tmpDir → (exec env restart.run (World.boot disk)).2.disk.lookup q = none := by
  have opened : Leads (Sys.handle env) FileStore.open (World.boot disk) _ := open_spec clear top
  rw [leads_exec] at opened
  unfold restart
  rw [exec_bindM]
  generalize exec env FileStore.open.run (World.boot disk) = outcome at opened
  obtain ⟨result,w⟩ := outcome
  obtain ⟨rfl,frame,temps⟩ := opened
  dsimp only at frame temps ⊢
  obtain ⟨works,same,index⟩ := load_spec env w
  have folder : ∀ id, w.disk.lookup (transactionDir id) = disk.lookup (transactionDir id) := fun id =>
    frame _ (transactionDir_not_tmp (List.prefix_refl _))
  have document : ∀ id, recorded w.disk id = recorded disk id := fun id =>
    recorded_frame (frame _ (transactionDir_not_tmp (document_in_folder id .meta)))
  have loadable : Loadable w.disk ↔ Loadable disk := by simp only [Loadable,folder,document]
  refine ⟨works.trans loadable,fun good => ?_,by rw [same]; exact ⟨frame,temps⟩⟩
  have loaded := (index (loadable.mpr good)).recorded
  simp only [folder,document] at loaded
  exact ⟨loaded⟩

end Confide
