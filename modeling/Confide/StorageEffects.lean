import Confide.Execution

/-! What the file store does to the disk. Each function has one description that holds
whatever fails on the way, and says what it comes to if nothing fails. -/
namespace Confide

open Bytes Resumption Resumption.Prog DirTree

variable {env : Env} {w w' : World} {α β : Type}

/-- Directories were added on the way to `path`, and nothing else changed. -/
def Grown (disk disk' : Disk) (path : Path) : Prop :=
  ∀ p, disk'.lookup p = disk.lookup p ∨
    (disk.lookup p = none ∧ disk'.lookup p = some .directory ∧ p <+: path)

theorem Grown.refl (disk : Disk) (path : Path) : Grown disk disk path := fun _ => .inl rfl

variable {disk disk' : Disk}

theorem Grown.longer {path path' : Path} (grown : Grown disk disk' path) (short : path <+: path') : Grown disk disk' path' :=
  fun p => (grown p).imp_right fun ⟨absent,added,above⟩ => ⟨absent,added,above.trans short⟩

theorem Grown.kept {path p : Path} (grown : Grown disk disk' path)
    (present : disk.lookup p ≠ none) : disk'.lookup p = disk.lookup p :=
  (grown p).resolve_right fun added => present added.1

theorem createDirectories_quiet (names : List Bytes) : (createDirectories names).Uses SysCall.Quiet := by
  induction names with
  | nil => trivial
  | cons name up ih =>
    refine Uses.bind (quiet_sys (by trivial : (SysCall.status _).Quiet)) fun status => ?_
    cases status with
    | directory | regular => trivial
    | absent =>
      refine ih.bind fun above => ?_
      cases above with
      | clash | failed => trivial
      | created | present => exact quiet_sys (by trivial : (SysCall.mkdir _).Quiet)

/-- Parents that are missing are created on the way; a file in the way is a clash. -/
theorem createDirectories_spec (env : Env) (names : List Bytes) (w : World) :
    let result := exec env (createDirectories names) w
    Grown w.disk result.2.disk names.reverse ∧
      (result.1 = .created ∨ result.1 = .present → result.2.disk.lookup names.reverse = some .directory) ∧
      (result.1 = .clash → result.2.disk = w.disk ∧
        ∃ p content, p <+: names.reverse ∧ w.disk.lookup p = some (.file content)) ∧
      (env.Clear w.stage → result.1 ≠ .failed) := by
  induction names with
  | nil => simp [createDirectories,Grown.refl]
  | cons name up ih =>
    simp only [createDirectories,exec_bind,exec_status]
    cases here : w.disk.lookup (name :: up).reverse with
    | some node =>
      cases node with
      | directory => exact ⟨Grown.refl _ _,fun _ => here,by simp [nodeStatus],by simp [nodeStatus]⟩
      | file content =>
        exact ⟨Grown.refl _ _,by simp [nodeStatus],fun _ => ⟨rfl,_,content,List.prefix_refl _,here⟩,
          by simp [nodeStatus]⟩
    | none =>
      obtain ⟨grown,made,clash,fine⟩ := ih
      have stage := (exec_still env (createDirectories_quiet up) w).stage
      simp only [nodeStatus,exec_bind]
      generalize exec env (createDirectories up) w = result at *
      obtain ⟨above,middle⟩ := result
      have parent : (name :: up).reverse.dropLast = up.reverse := by simp
      have short : up.reverse <+: (name :: up).reverse := by simp
      have later := grown.longer short
      cases above with
      | clash =>
        obtain ⟨same,p,content,above,file⟩ := clash rfl
        exact ⟨fun q => .inl (by rw [← same]; rfl),by simp,fun _ => ⟨same,p,content,above.trans short,file⟩,by simp⟩
      | failed => exact ⟨later,by simp,by simp,fun clear => fine clear⟩
      | created | present =>
        have top := made (by simp)
        have absent : middle.disk.lookup (name :: up).reverse = none := by
          rcases grown (name :: up).reverse with same | ⟨_,_,short⟩
          · rw [same,here]
          · have := short.length_le
            simp at this
        simp only [exec_mkdir]
        have spec := mkdir_spec env middle (name :: up).reverse
        rw [absent,parent,top] at spec
        generalize middle.mkdir env (name :: up).reverse = outcome at spec
        rcases spec with ⟨created,changed⟩ | ⟨other,same,present,clashes,failed⟩
        · obtain ⟨-,changed⟩ := Tree.mkdir_lookup changed
          refine ⟨fun q => ?_,fun _ => by rw [changed,if_pos rfl],by simp [created],by simp [created]⟩
          rw [changed]
          split
          · rename_i equal
            exact .inr ⟨equal ▸ here,rfl,equal ▸ List.prefix_refl _⟩
          · exact later q
        · refine ⟨by rwa [same],?_,fun clash => ?_,fun clear failing => ?_⟩
          · rintro (made | made)
            · exact absurd made other
            · exact absurd (present made) (by simp)
          · obtain ⟨content,bad | bad⟩ := clashes clash <;> simp at bad
          · exact absurd (failed failing (by rw [stage]; exact clear _)).2 (by simp)

theorem createDirectories_present {names : List Bytes} (there : w.disk.lookup names.reverse = some .directory) :
    exec env (createDirectories names) w = (.present,w) := by
  cases names with
  | nil => rfl
  | cons name up => simp only [createDirectories,exec_bind,exec_status,there,nodeStatus]; rfl

theorem finish_quiet (sha256 : Bytes → Sha256Digest) (u : Upload) (expected : Option Sha256Digest) :
    Uses SysCall.Quiet (u.finish sha256 expected).run := by
  refine Uses.exceptT_bind (quiet_call (by trivial : (SysCall.flush _).Quiet)) fun _ => ?_
  refine Uses.exceptT_bind (quiet_orIo _ _ _) fun _ => ?_
  refine Uses.exceptT_bind (quiet_call (by trivial : (SysCall.fsync _).Quiet)) fun _ => ?_
  refine Uses.exceptT_bind (quiet_orIo _ _ _) fun _ => ?_
  refine Uses.exceptT_bind (quiet_call (by trivial : (SysCall.close _).Quiet)) fun _ => ?_
  refine Uses.exceptT_bind (quiet_orIo _ _ _) fun _ => ?_
  refine Uses.exceptT_bind (by trivial : Uses _ (ensure _ : SysM Unit).run) fun _ => ?_
  refine Uses.exceptT_bind (quiet_lift (createDirectories_quiet _)) fun made => ?_
  refine Uses.exceptT_bind (quiet_refuse _ _) fun _ => ?_
  refine Uses.exceptT_bind (quiet_orIo _ _ _) fun _ => ?_
  refine Uses.exceptT_bind (quiet_call (by trivial : (SysCall.status _).Quiet)) fun status => ?_
  refine Uses.exceptT_bind (quiet_refuse _ _) fun _ => ?_
  refine Uses.exceptT_bind (quiet_call (by trivial : (SysCall.rename _ _).Quiet)) fun _ => ?_
  exact Uses.exceptT_bind (quiet_orIo _ _ _) fun _ => trivial

/-- Why an upload is refused when nothing fails. -/
inductive Refused (sha256 : Bytes → Sha256Digest) (disk : Disk) (u : Upload) (expected : Option Sha256Digest) :
    ErrCode → Prop
  | checksum (want : Sha256Digest) (asked : expected = some want) (different : want ≠ sha256 u.hashed) :
    Refused sha256 disk u expected .integrity
  | fileAbove (p : Path) (content : Bytes) (above : p <+: u.final.dropLast)
    (file : disk.lookup p = some (.file content)) : Refused sha256 disk u expected .conflict
  | folder (there : disk.lookup u.final = some .directory) : Refused sha256 disk u expected .conflict

variable {u : Upload}

theorem checkDigest_error {digest : Sha256Digest} {expected : Option Sha256Digest} {e : Error}
    (refused : u.checkDigest digest expected = .error e) :
    e.code = .integrity ∧ ∃ want, expected = some want ∧ want ≠ digest := by
  unfold Upload.checkDigest at refused
  split at refused
  · contradiction
  · split at refused
    · contradiction
    · rename_i want different
      cases refused
      exact ⟨rfl,want,rfl,different⟩

theorem checkDigest_ok {digest : Sha256Digest} {expected : Option Sha256Digest}
    (fine : u.checkDigest digest expected = .ok ()) : ∀ want ∈ expected, want = digest := by
  unfold Upload.checkDigest at fine
  split at fine
  · simp
  · split at fine
    · rename_i want same
      simpa using same
    · contradiction

/-- A directory below the new ones was there before, and so were all its parents. -/
theorem Grown.nothing_new {final : Path} (grown : Grown disk disk' final.dropLast) (inner : final ≠ [])
    (there : disk'.lookup final = some .directory) : disk.lookup final = some .directory ∧ disk' = disk := by
  have before : disk.lookup final = some .directory := by
    rcases grown final with kept | ⟨_,_,short⟩
    · rw [← kept,there]
    · have := short.length_le
      have := List.length_pos_of_ne_nil inner
      simp only [List.length_dropLast] at *
      omega
  refine ⟨before,Tree.ext_lookup fun p => ?_⟩
  rcases grown p with kept | ⟨absent,_,short⟩
  · exact kept
  · rw [Tree.directory_prefix before (short.trans (List.dropLast_prefix final))] at absent
    contradiction

/-- What finishing an upload comes to: the parents are there and the temp file was moved, or an
error, which without a fault has changed nothing. -/
def Finished (sha256 : Bytes → Sha256Digest) (u : Upload) (expected : Option Sha256Digest) (env : Env)
    (w : World) (result : Result StoredFile) (w' : World) : Prop :=
  ∃ disk, Grown w.disk disk u.final.dropLast ∧
    ((result = .ok ⟨u.path,u.size,sha256 u.hashed⟩ ∧ (∀ want ∈ expected, want = sha256 u.hashed) ∧
        disk.lookup u.final.dropLast = some .directory ∧ disk.lookup u.final ≠ some .directory ∧
        disk.rename u.tmp u.final = some w'.disk) ∨
      ∃ e, result = .error e ∧ w'.disk = disk ∧
        (env.Clear w.stage → disk = w.disk ∧ Refused sha256 w.disk u expected e.code))

theorem finish_spec (sha256 : Bytes → Sha256Digest) (u : Upload) (expected : Option Sha256Digest)
    (env : Env) (w : World) (content : Bytes) (tmp : w.disk.lookup u.tmp = some (.file content))
    (inner : u.final ≠ []) :
    Leads (Sys.handle env) (u.finish sha256 expected) w (Finished sha256 u expected env w) := by
  have next : ∀ v : World, v.disk = w.disk ∧ v.stage = w.stage →
      (v.attempt env (some v.disk)).2.disk = w.disk ∧ (v.attempt env (some v.disk)).2.stage = w.stage :=
    fun v same => ⟨(attempt_idle env v).trans same.1,(attempt_stage env v _).trans same.2⟩
  have stop : ∀ (v : World) (e : Error), v.disk = w.disk ∧ v.stage = w.stage →
      (v.attempt env (some v.disk)).1 = false →
      Finished sha256 u expected env w (.error e) (v.attempt env (some v.disk)).2 := by
    intro v e same failed
    refine ⟨w.disk,Grown.refl _ _,.inr ⟨e,rfl,(next v same).1,fun clear => ?_⟩⟩
    rw [attempt_clear (by rw [same.2]; exact clear _)] at failed
    contradiction
  unfold Upload.finish
  simp only [call_eq,leads_exec_bind,leads_orIo_bind,exec_flush,exec_fsync,exec_close]
  have first := next w ⟨rfl,rfl⟩
  have second := next _ first
  refine ⟨stop w _ ⟨rfl,rfl⟩,fun _ => ⟨stop _ _ first,fun _ => ⟨stop _ _ second,fun _ => ?_⟩⟩⟩
  obtain ⟨same,stage⟩ := next _ second
  generalize (World.attempt env _ _).2 = v at same stage
  rw [leads_ensure_bind]
  refine ⟨fun e refused => ?_,fun _ digest => ?_⟩
  · obtain ⟨code,want,asked,different⟩ := checkDigest_error refused
    refine ⟨w.disk,Grown.refl _ _,.inr ⟨e,rfl,same,fun _ => ⟨rfl,?_⟩⟩⟩
    rw [code]
    exact .checksum want asked different
  have digest := checkDigest_ok digest
  have parents := createDirectories_spec env u.final.dropLast.reverse v
  rw [List.reverse_reverse,same] at parents
  rw [leads_exec_bind]
  have stage' := (exec_still env (createDirectories_quiet u.final.dropLast.reverse) v).stage
  generalize exec env (createDirectories u.final.dropLast.reverse) v = made at parents stage'
  obtain ⟨made,v'⟩ := made
  obtain ⟨grown,done,clash,fine⟩ := parents
  dsimp only at grown done clash fine ⊢
  simp only [leads_refuse_bind,decide_eq_true_eq,decide_eq_false_iff_not]
  refine ⟨fun isClash => ?_,fun noClash => ?_⟩
  · obtain ⟨unchanged,p,file,above,found⟩ := clash isClash
    exact ⟨w.disk,Grown.refl _ _,.inr ⟨_,rfl,unchanged,fun _ => ⟨rfl,.fileAbove p file above found⟩⟩⟩
  rw [leads_orIo_bind]
  refine ⟨fun failed => ?_,fun notFailed => ?_⟩
  · refine ⟨v'.disk,grown,.inr ⟨_,rfl,rfl,fun clear => ?_⟩⟩
    exact absurd (by simpa using failed) (fine (stage ▸ clear))
  have folder := done (by cases made <;> simp_all)
  simp only [leads_exec_bind,leads_refuse_bind,exec_status]
  refine ⟨fun isFolder => ?_,fun noFolder => ?_⟩
  · have there : v'.disk.lookup u.final = some .directory := by
      cases here : v'.disk.lookup u.final with
      | none => simp [here,nodeStatus] at isFolder
      | some node => cases node <;> simp_all [nodeStatus]
    obtain ⟨before,still⟩ := grown.nothing_new inner there
    exact ⟨w.disk,Grown.refl _ _,.inr ⟨_,rfl,still,fun _ => ⟨rfl,.folder before⟩⟩⟩
  have free : v'.disk.lookup u.final ≠ some .directory := by
    intro there
    simp [there,nodeStatus] at noFolder
  simp only [exec_rename,leads_orIo_bind,leads_pure]
  refine ⟨fun failed => ?_,fun moved => ?_⟩
  · refine ⟨v'.disk,grown,.inr ⟨_,rfl,attempt_false failed,fun clear => ?_⟩⟩
    rw [attempt_clear (by rw [stage',stage]; exact clear _)] at failed
    have source : v'.disk.lookup u.tmp = some (.file content) := by
      rw [grown.kept (by rw [tmp]; simp),tmp]
    rw [Tree.rename_isSome source inner folder free] at failed
    contradiction
  · exact ⟨v'.disk,grown,.inl ⟨rfl,digest,folder,free,attempt_true moved⟩⟩

/-- A file went from `source` to `target`, whose parents are directories now. -/
structure Moved (disk disk' : Disk) (source target : Path) (content : Bytes) : Prop where
  parents : ∀ q old, q <+: target.dropLast → disk.lookup q ≠ some (.file old)
  result : ∀ q, disk'.lookup q = if q = target then some (.file content) else if q = source then none
    else if q <+: target.dropLast then some .directory else disk.lookup q

theorem Grown.moved {disk'' : Disk} {source target : Path} {content : Bytes}
    (grown : Grown disk disk' target.dropLast) (parent : disk'.lookup target.dropLast = some .directory)
    (apart : source ≠ target) (file : disk.lookup source = some (.file content))
    (renamed : disk'.rename source target = some disk'') : Moved disk disk'' source target content := by
  obtain ⟨content',file',result⟩ := Tree.rename_lookup renamed apart
  have kept := grown.kept (by rw [file]; simp : disk.lookup source ≠ none)
  obtain rfl : content' = content := by
    rw [kept,file] at file'
    simpa using file'.symm
  have above : ∀ q, q <+: target.dropLast → disk'.lookup q = some .directory := fun q short =>
    Tree.directory_prefix parent short
  refine ⟨fun q old short file => ?_,fun q => ?_⟩
  · have := grown.kept (by rw [file]; simp : disk.lookup q ≠ none)
    rw [above q short,file] at this
    simp at this
  · rw [result]
    split
    · rfl
    split
    · rfl
    split
    · rename_i short
      exact above q short
    · rename_i elsewhere
      exact (grown q).resolve_right fun added => elsewhere added.2.2

/-- A temp file is given up: it is gone, or the removal failed and it is still there. -/
def GivenUp (disk disk' : Disk) (tmp : Path) : Prop :=
  (∀ q, q ≠ tmp → disk'.lookup q = disk.lookup q) ∧
    (disk'.lookup tmp = none ∨ disk'.lookup tmp = disk.lookup tmp)

theorem discard_spec (env : Env) (u : Upload) (w : World) (file : w.disk.lookup u.tmp ≠ some .directory)
    (inner : u.tmp ≠ []) :
    (exec env u.discard w).1 = { u with done := true } ∧ GivenUp w.disk (exec env u.discard w).2.disk u.tmp ∧
      (env.Clear w.stage → (exec env u.discard w).2.disk.lookup u.tmp = none) := by
  obtain ⟨frame,removed,failed,fine⟩ := remove_spec env w u.tmp
  unfold Upload.discard
  simp only [exec_bind,exec_remove]
  refine ⟨rfl,⟨frame,?_⟩,fun clear => ?_⟩
  · cases outcome : (w.remove env u.tmp).1 with
    | true => exact .inl (removed outcome)
    | false =>
      right
      have same := failed outcome
      exact congrArg (fun disk : Disk => disk.lookup u.tmp) same
  · exact removed (fine (clear _) (.inr ⟨inner,Tree.isEmpty_of_not_directory file⟩))

theorem commit_done (sha256 : Bytes → Sha256Digest) (expected : Option Sha256Digest)
    (done : u.done = true) : exec env (u.commit sha256 expected) w = ((.error Upload.finished,u),w) := by
  unfold Upload.commit
  rw [if_pos done]
  rfl

/-- What an upload that was still open comes to, and what is left of its temp file. -/
def Committed (sha256 : Bytes → Sha256Digest) (u : Upload) (expected : Option Sha256Digest) (content : Bytes)
    (env : Env) (w : World) (result : Result StoredFile) (w' : World) : Prop :=
  (result = .ok ⟨u.path,u.size,sha256 u.hashed⟩ ∧ (∀ want ∈ expected, want = sha256 u.hashed) ∧
      w.disk.lookup u.final ≠ some .directory ∧ Moved w.disk w'.disk u.tmp u.final content) ∨
    ∃ e disk, result = .error e ∧ Grown w.disk disk u.final.dropLast ∧ GivenUp disk w'.disk u.tmp ∧
      (env.Clear w.stage → disk = w.disk ∧ w'.disk.lookup u.tmp = none ∧ Refused sha256 w.disk u expected e.code)

theorem commit_spec (sha256 : Bytes → Sha256Digest) (u : Upload) (expected : Option Sha256Digest)
    (env : Env) (w : World) (content : Bytes) (live : u.done = false)
    (tmp : w.disk.lookup u.tmp = some (.file content)) (inner : u.final ≠ []) (apart : u.tmp ≠ u.final) :
    (exec env (u.commit sha256 expected) w).1.2 = { u with done := true } ∧
      Committed sha256 u expected content env w (exec env (u.commit sha256 expected) w).1.1
        (exec env (u.commit sha256 expected) w).2 := by
  have finished := finish_spec sha256 u expected env w content tmp inner
  have stage := (exec_still env (finish_quiet sha256 u expected) w).stage
  unfold Upload.commit
  rw [if_neg (by simp [live])]
  rw [leads_exec] at finished
  simp only [exec_bind]
  generalize exec env (u.finish sha256 expected).run w = outcome at finished stage
  obtain ⟨result,v⟩ := outcome
  obtain ⟨disk,grown,⟨rfl,digest,folder,free,moved⟩ | ⟨e,rfl,same,clean⟩⟩ := finished
  · refine ⟨rfl,.inl ⟨rfl,digest,?_,grown.moved folder apart tmp moved⟩⟩
    intro directory
    exact free ((grown.kept (by rw [directory]; simp)).trans directory)
  · have still : disk.lookup u.tmp = some (.file content) := by
      rw [grown.kept (by rw [tmp]; simp),tmp]
    obtain ⟨given,left,gone⟩ := discard_spec env u v (by rw [same,still]; simp) (by
      rintro root
      rw [root] at tmp
      simp at tmp)
    rw [same] at left
    refine ⟨given,.inr ⟨e,disk,rfl,grown,left,fun clear => ?_⟩⟩
    obtain ⟨unchanged,refused⟩ := clean clear
    exact ⟨unchanged,gone (by rw [stage]; exact clear),refused⟩

theorem TransactionId.length_value (id : TransactionId) : id.value.length = 36 := by
  have valid := id.valid
  simp only [isTransactionId,Bool.and_eq_true,beq_iff_eq] at valid
  exact valid.1.1.1

variable {id id' : TransactionId}

theorem tmpPath_injective {n n' : Nat} (same : tmpPath id n = tmpPath id' n') :
    id = id' ∧ n = n' := by
  simp only [tmpPath,List.append_cancel_left_eq,List.cons.injEq,and_true,tmpName,List.append_assoc] at same
  have length : id.value.length = id'.value.length := by rw [id.length_value,id'.length_value]
  obtain ⟨ids,rest⟩ := List.append_inj same length
  refine ⟨TransactionId.value_injective ids,decimal_injective ?_⟩
  simpa using rest

theorem tmpPath_dropLast (id : TransactionId) (n : Nat) : (tmpPath id n).dropLast = tmpDir := by
  simp [tmpPath]

theorem documentPath_dropLast (id : TransactionId) (doc : Document) :
    (documentPath id doc).dropLast = transactionDir id := by simp [documentPath]

/-- Temp files are not in any transaction's folder. -/
theorem tmpPath_outside (id id' : TransactionId) (n : Nat) : ¬ transactionDir id <+: tmpPath id' n := by
  rintro ⟨rest,same⟩
  simp only [transactionDir,transactionsDir,tmpPath,tmpDir,List.cons_append,List.nil_append,List.cons.injEq] at same
  exact absurd same.1 (by decide)

theorem transactionDir_injective (nested : transactionDir id <+: transactionDir id') :
    id = id' := by
  obtain ⟨rest,same⟩ := nested
  simp only [transactionDir,List.append_assoc,List.append_cancel_left_eq,List.cons_append,List.nil_append,
    List.cons.injEq] at same
  exact TransactionId.value_injective same.1

theorem transactionDir_apart {q : Path} (first : transactionDir id <+: q)
    (second : transactionDir id' <+: q) : id = id' := by
  refine transactionDir_injective (List.prefix_of_prefix_length_le first second ?_)
  simp [transactionDir]

theorem document_in_folder (id : TransactionId) (doc : Document) : transactionDir id <+: documentPath id doc :=
  List.prefix_append _ _

theorem files_in_folder (id : TransactionId) (q : Path) : transactionDir id <+: filesDir id ++ q := by
  rw [filesDir,List.append_assoc]
  exact List.prefix_append _ _

theorem document_apart {doc : Document} (q : Path) : documentPath id doc ≠ filesDir id ++ q := by
  intro same
  rw [documentPath,filesDir,List.append_assoc,List.append_cancel_left_eq] at same
  cases doc <;> simp [Document.fileName] at same <;> exact absurd same.1 (by decide)

theorem documentPath_injective {doc doc' : Document}
    (same : documentPath id doc = documentPath id doc') : doc = doc' := by
  rw [documentPath,documentPath,List.append_cancel_left_eq] at same
  cases doc <;> cases doc' <;> first | rfl | exact absurd same (by decide)

theorem create_spec (env : Env) (w : World) (path : Path) : ((w.create env path).1 = .opened () ∧
        ∀ q, (w.create env path).2.disk.lookup q = if q = path then some (.file []) else w.disk.lookup q) ∨
      ((w.create env path).1 ≠ .opened () ∧ (w.create env path).2.disk = w.disk ∧
        (env.fails w.stage w.tick = false → path ≠ [] → w.disk.lookup path.dropLast = some .directory →
          w.disk.lookup path = some .directory)) := by
  rw [create_world]
  have yes := @attempt_true env w (w.disk.assign path (.file []))
  have no := @attempt_false env w (w.disk.assign path (.file []))
  have all := fun clear => @attempt_clear env w clear (w.disk.assign path (.file []))
  unfold World.create
  cases outcome : w.attempt env (w.disk.assign path (.file [])) with
  | mk done next =>
    rw [outcome] at yes no all
    cases done with
    | true => exact .inl ⟨rfl,Tree.assign_lookup (yes rfl)⟩
    | false =>
      refine .inr ⟨?_,no rfl,fun clear inner parent => ?_⟩
      · dsimp only
        split <;> simp
      · by_contra free
        have : (w.disk.assign path (.file [])).isSome = true := Tree.assign_isSome.mpr ⟨inner,parent,free⟩
        rw [← all clear] at this
        contradiction

/-- A transaction's folder and the folder of temp files are there to write to. -/
structure Ready (disk : Disk) (id : TransactionId) : Prop where
  tmp : disk.lookup tmpDir = some .directory
  files : disk.lookup (filesDir id) = some .directory

def FreshTmp (w : World) : Prop := ∀ id n, w.disk.lookup (tmpPath id n) ≠ none → n < w.tmpCount

theorem FreshTmp.next {w : World} (fresh : FreshTmp w) (id : TransactionId) :
    w.disk.lookup (tmpPath id w.tmpCount) = none := by
  by_contra used
  exact absurd (fresh id _ used) (Nat.lt_irrefl _)

theorem beginWrite_spec (env : Env) (id : TransactionId) (final : Path) (path : RelativePath) (w : World)
    (fresh : FreshTmp w) : Leads (Sys.handle env) (FileStore.beginWrite id final path) w fun result w' =>
      (result = .ok ⟨tmpPath id w.tmpCount,final,path,[],0,false⟩ ∧ w.disk.lookup (filesDir id) = some .directory ∧
          w'.tmpCount = w.tmpCount + 1 ∧
          ∀ q, w'.disk.lookup q = if q = tmpPath id w.tmpCount then some (.file []) else w.disk.lookup q) ∨
        ∃ e, result = .error e ∧ w'.disk = w.disk ∧ (env.Clear w.stage → ¬ Ready w.disk id) := by
  unfold FileStore.beginWrite FileStore.hasTransaction
  rw [leads_exec_bind,leads_refuse_bind]
  simp only [exec_bind,exec_status,pure_eq,exec_ret]
  refine ⟨fun unknown => .inr ⟨_,rfl,trivial,fun _ ready => ?_⟩,fun known => ?_⟩
  · rw [ready.files] at unknown
    simp [nodeStatus] at unknown
  have files : w.disk.lookup (filesDir id) = some .directory := by
    cases here : w.disk.lookup (filesDir id) with
    | none => simp [here,nodeStatus] at known
    | some node => cases node <;> simp_all [nodeStatus]
  simp only [call_eq,leads_exec_bind,exec_nextTmp,exec_create]
  have next := fresh.next id
  have made := create_spec env { w with tmpCount := w.tmpCount + 1 } (tmpPath id w.tmpCount)
  have count : (World.create env { w with tmpCount := w.tmpCount + 1 } (tmpPath id w.tmpCount)).2.tmpCount =
      w.tmpCount + 1 := by rw [create_world,attempt_tmpCount]
  generalize World.create env { w with tmpCount := w.tmpCount + 1 } (tmpPath id w.tmpCount) = outcome at made count
  obtain ⟨opened,v⟩ := outcome
  rcases made with ⟨rfl,disk⟩ | ⟨refused,same,fine⟩
  · exact .inl ⟨rfl,files,count,disk⟩
  · have stuck : env.Clear w.stage → ¬ Ready w.disk id := fun clear ready => by
      have := fine (clear _) (by simp [tmpPath,tmpDir]) (by rw [tmpPath_dropLast]; exact ready.tmp)
      simp only [next] at this
      contradiction
    cases opened with
    | opened => exact absurd rfl refused
    | missing => exact .inr ⟨_,rfl,same,stuck⟩
    | failed => exact .inr ⟨_,rfl,same,stuck⟩

theorem write_done (chunk : Bytes) (done : u.done = true) :
    exec env (u.write chunk) w = ((.error Upload.finished,u),w) := by
  unfold Upload.write
  rw [if_pos done]
  rfl

/-- What writing to an open upload comes to. -/
def Written (u : Upload) (chunk content : Bytes) (env : Env) (w : World) (result : Result Unit × Upload)
    (w' : World) : Prop :=
  (result.1 = .ok () ∧ result.2 = { u with hashed := u.hashed ++ chunk, size := u.size + UInt64.ofNat chunk.length } ∧
      ∀ q, w'.disk.lookup q = if q = u.tmp then some (.file (content ++ chunk)) else w.disk.lookup q) ∨
    (∃ e, result.1 = .error e) ∧ result.2 = { u with done := true } ∧ GivenUp w.disk w'.disk u.tmp ∧
      ¬ env.Clear w.stage

theorem write_spec (env : Env) (u : Upload) (chunk content : Bytes) (w : World) (live : u.done = false)
    (tmp : w.disk.lookup u.tmp = some (.file content)) :
    Written u chunk content env w (exec env (u.write chunk) w).1 (exec env (u.write chunk) w).2 := by
  have inner : u.tmp ≠ [] := by
    intro root
    rw [root] at tmp
    simp at tmp
  unfold Upload.write
  rw [if_neg (by simp [live])]
  by_cases nothing : chunk = []
  · subst nothing
    refine .inl ⟨rfl,by simp,fun q => ?_⟩
    rw [if_pos rfl]
    split
    · rename_i here
      simpa [here] using tmp
    · rfl
  rw [if_neg nothing]
  simp only [exec_bind,exec_append,World.append,tmp]
  cases outcome : (w.attempt env (w.disk.assign u.tmp (.file (content ++ chunk)))).1 with
  | true =>
    have assigned := attempt_true outcome
    exact .inl ⟨rfl,rfl,Tree.assign_lookup assigned⟩
  | false =>
    have same := attempt_false outcome
    obtain ⟨given,left,_⟩ := discard_spec env u (w.attempt env (w.disk.assign u.tmp (.file (content ++ chunk)))).2
      (by rw [same,tmp]; simp) inner
    rw [same] at left
    refine .inr ⟨⟨_,rfl⟩,given,left,fun clear => ?_⟩
    rw [attempt_clear (clear _)] at outcome
    have : (w.disk.assign u.tmp (.file (content ++ chunk))).isSome = true := Tree.assign_isSome.mpr
      ⟨inner,Tree.parent_directory (by rw [tmp]; simp) inner,by rw [tmp]; simp⟩
    rw [outcome] at this
    contradiction

theorem beginWrite_quiet (id : TransactionId) (final : Path) (path : RelativePath) :
    Uses SysCall.Quiet (FileStore.beginWrite id final path).run := by
  refine Uses.exceptT_bind (quiet_lift (Uses.bind (quiet_sys (by trivial : (SysCall.status _).Quiet)) fun _ => trivial))
    fun known => ?_
  refine Uses.exceptT_bind (quiet_refuse _ _) fun _ => ?_
  refine Uses.exceptT_bind (quiet_call (by trivial : SysCall.nextTmp.Quiet)) fun n => ?_
  refine Uses.exceptT_bind (quiet_call (by trivial : (SysCall.create _).Quiet)) fun opened => ?_
  cases opened <;> trivial

theorem discard_quiet (u : Upload) : u.discard.Uses SysCall.Quiet :=
  Uses.bind (quiet_sys (by trivial : (SysCall.remove _).Quiet)) fun _ => trivial

theorem write_quiet (u : Upload) (chunk : Bytes) : (u.write chunk).Uses SysCall.Quiet := by
  unfold Upload.write
  split
  · trivial
  split
  · trivial
  refine Uses.bind (quiet_sys (by trivial : (SysCall.append _ _).Quiet)) fun written => ?_
  cases written with
  | true => trivial
  | false => exact (discard_quiet u).bind fun _ => trivial

theorem commit_quiet (sha256 : Bytes → Sha256Digest) (u : Upload) (expected : Option Sha256Digest) :
    (u.commit sha256 expected).Uses SysCall.Quiet := by
  unfold Upload.commit
  split
  · trivial
  refine (finish_quiet sha256 u expected).bind fun result => ?_
  cases result with
  | ok => trivial
  | error => exact (discard_quiet u).bind fun _ => trivial

/-- What writing a document comes to: it was replaced as a whole, or nothing but a temp file is left. -/
def Replaced (id : TransactionId) (doc : Document) (content : Bytes) (env : Env) (w : World)
    (result : Result Unit) (w' : World) : Prop :=
  FreshTmp w' ∧
    ((result = .ok () ∧
        ∀ q, w'.disk.lookup q = if q = documentPath id doc then some (.file content) else w.disk.lookup q) ∨
      ∃ e, result = .error e ∧ (∀ q, q ≠ tmpPath id w.tmpCount → w'.disk.lookup q = w.disk.lookup q) ∧
        (env.Clear w.stage → Ready w.disk id → w.disk.lookup (documentPath id doc) = some .directory))

theorem FreshTmp.kept {w w' : World} (fresh : FreshTmp w) {n : Nat}
    (frame : ∀ id' n', tmpPath id' n' ≠ tmpPath id n → w'.disk.lookup (tmpPath id' n') = w.disk.lookup (tmpPath id' n'))
    (count : w.tmpCount ≤ w'.tmpCount) (used : n < w'.tmpCount) : FreshTmp w' := by
  intro id' n' present
  by_cases same : tmpPath id' n' = tmpPath id n
  · exact (tmpPath_injective same).2 ▸ used
  · rw [frame id' n' same] at present
    exact Nat.lt_of_lt_of_le (fresh id' n' present) count

/-- The last step of writing a document, into a folder that is there. -/
theorem commit_document (sha256 : Bytes → Sha256Digest) (env : Env) (u : Upload) (w : World) (content : Bytes)
    (live : u.done = false) (tmp : w.disk.lookup u.tmp = some (.file content)) (apart : u.tmp ≠ u.final)
    (inner : u.final ≠ []) (folder : w.disk.lookup u.final.dropLast = some .directory) :
    ((∃ stored, (exec env (u.commit sha256 none) w).1.1 = .ok stored) ∧
        ∀ q, (exec env (u.commit sha256 none) w).2.disk.lookup q =
          if q = u.final then some (.file content) else if q = u.tmp then none else w.disk.lookup q) ∨
      ((∃ e, (exec env (u.commit sha256 none) w).1.1 = .error e) ∧
        (∀ q, q ≠ u.tmp → (exec env (u.commit sha256 none) w).2.disk.lookup q = w.disk.lookup q) ∧
        (env.Clear w.stage → w.disk.lookup u.final = some .directory)) := by
  obtain ⟨_,⟨ok,_,_,moved⟩ | ⟨e,disk,error,grown,⟨frame,_⟩,clean⟩⟩ :=
    commit_spec sha256 u none env w content live tmp inner apart
  · refine .inl ⟨⟨_,ok⟩,fun q => ?_⟩
    rw [moved.result]
    split
    · rfl
    split
    · rfl
    split
    · rename_i short
      exact (Tree.directory_prefix folder short).symm
    · rfl
  · refine .inr ⟨⟨e,error⟩,fun q other => ?_,fun clear => ?_⟩
    · rw [frame q other]
      refine (grown q).resolve_right fun added => ?_
      rw [Tree.directory_prefix folder added.2.2] at added
      exact absurd added.1 (by simp)
    · obtain ⟨_,_,refused⟩ := clean clear
      generalize e.code = code at refused
      cases refused with
      | checksum want asked => contradiction
      | fileAbove p content short file =>
        rw [Tree.directory_prefix folder short] at file
        simp at file
      | folder there => exact there

theorem writeDocument_spec (sha256 : Bytes → Sha256Digest) (env : Env) (id : TransactionId) (doc : Document)
    (content : Bytes) (w : World) (fresh : FreshTmp w) :
    Leads (Sys.handle env) (FileStore.writeDocument sha256 id doc content) w (Replaced id doc content env w) := by
  have outside : ∀ id' n, tmpPath id' n ≠ documentPath id doc := fun id' n same =>
    tmpPath_outside id id' n (same ▸ document_in_folder id doc)
  have folder : w.disk.lookup (filesDir id) = some .directory → w.disk.lookup (transactionDir id) = some .directory :=
    fun files => w.disk.directory_above _ [ascii "files"] (by simp only [filesDir] at files; simp [files]) (by simp)
  unfold FileStore.writeDocument
  rw [leads_bind]
  have still₁ := exec_still env (beginWrite_quiet id (documentPath id doc) doc.path) w
  have begun := beginWrite_spec env id (documentPath id doc) doc.path w fresh
  rw [leads_exec] at begun ⊢
  generalize exec env (FileStore.beginWrite id (documentPath id doc) doc.path).run w = outcome at begun still₁
  obtain ⟨result,w₁⟩ := outcome
  dsimp only at begun still₁
  rcases begun with ⟨rfl,files,count,disk₁⟩ | ⟨e,rfl,same,stuck⟩
  swap
  · refine ⟨?_,.inr ⟨e,rfl,fun q _ => by rw [same],fun clear ready => absurd ready (stuck clear)⟩⟩
    intro id' n present
    rw [same] at present
    exact Nat.lt_of_lt_of_le (fresh id' n present) still₁.tmpCount
  have tmp₁ : w₁.disk.lookup (tmpPath id w.tmpCount) = some (.file []) := by rw [disk₁,if_pos rfl]
  dsimp only
  rw [leads_exec_bind]
  generalize upload : Upload.mk (tmpPath id w.tmpCount) (documentPath id doc) doc.path [] 0 false = u
  have still₂ := exec_still env (write_quiet u content) w₁
  have wrote := write_spec env u content [] w₁ (by rw [← upload]) (by rw [← upload]; exact tmp₁)
  generalize exec env (u.write content) w₁ = outcome at wrote still₂
  obtain ⟨⟨written,u₂⟩,w₂⟩ := outcome
  dsimp only at wrote still₂ ⊢
  rw [leads_ensure_bind]
  have count₂ : w.tmpCount < w₂.tmpCount := Nat.lt_of_lt_of_le (by omega) still₂.tmpCount
  rcases wrote with ⟨rfl,rfl,disk₂⟩ | ⟨⟨e,rfl⟩,_,⟨frame,_⟩,fault⟩
  swap
  · have frame₂ : ∀ q, q ≠ tmpPath id w.tmpCount → w₂.disk.lookup q = w.disk.lookup q := by
      intro q other
      rw [frame q (by rw [← upload]; exact other),disk₁,if_neg other]
    refine ⟨fun e' same => ⟨?_,.inr ⟨e',rfl,frame₂,fun clear => ?_⟩⟩,fun _ same => by contradiction⟩
    · exact fresh.kept (fun id' n' other => frame₂ _ other) (Nat.le_of_lt count₂) count₂
    · exact absurd (by rw [still₁.stage]; exact clear) fault
  refine ⟨fun _ same => by contradiction,fun _ _ => ?_⟩
  have frame₂ : ∀ q, q ≠ tmpPath id w.tmpCount → w₂.disk.lookup q = w.disk.lookup q := by
    intro q other
    rw [disk₂,if_neg (by rw [← upload]; exact other),disk₁,if_neg other]
  rw [leads_exec_bind]
  generalize next : ({ u with hashed := u.hashed ++ content, size := u.size + UInt64.ofNat content.length } : Upload) = u'
  have final : u'.final = documentPath id doc := by rw [← next,← upload]
  have tmp : u'.tmp = tmpPath id w.tmpCount := by rw [← next,← upload]
  have still₃ := exec_still env (commit_quiet sha256 u' none) w₂
  have done := commit_document sha256 env u' w₂ content (by rw [← next,← upload])
    (by rw [tmp,disk₂,← upload,if_pos rfl]; rfl) (by rw [final,tmp]; exact outside _ _)
    (by rw [final]; simp [documentPath])
    (by rw [final,documentPath_dropLast,frame₂ _ (fun same => tmpPath_outside id id w.tmpCount
    (same ▸ List.prefix_refl _)),folder files])
  rw [final,tmp] at done
  generalize exec env (u'.commit sha256 none) w₂ = outcome at done still₃
  obtain ⟨⟨result,u₃⟩,w₃⟩ := outcome
  dsimp only at done still₃ ⊢
  have count₃ : w.tmpCount < w₃.tmpCount := Nat.lt_of_lt_of_le count₂ still₃.tmpCount
  rw [leads_ensure_bind]
  rcases done with ⟨⟨stored,rfl⟩,disk₃⟩ | ⟨⟨e,rfl⟩,frame₃,clean⟩
  · refine ⟨fun _ same => by contradiction,fun _ _ => leads_pure.mpr ⟨?_,.inl ⟨rfl,fun q => ?_⟩⟩⟩
    · have frame : ∀ id' n', tmpPath id' n' ≠ tmpPath id w.tmpCount →
          w₃.disk.lookup (tmpPath id' n') = w.disk.lookup (tmpPath id' n') := by
        intro id' n' other
        rw [disk₃,if_neg (outside id' n'),if_neg other,frame₂ _ other]
      exact fresh.kept frame (Nat.le_of_lt count₃) count₃
    · rw [disk₃]
      split
      · rfl
      split
      · rename_i here
        rw [here,fresh.next]
      · rename_i other
        exact frame₂ q other
  · have frame : ∀ q, q ≠ tmpPath id w.tmpCount → w₃.disk.lookup q = w.disk.lookup q := fun q other =>
      (frame₃ q other).trans (frame₂ q other)
    refine ⟨fun e' same => ⟨?_,.inr ⟨e',rfl,frame,fun clear _ => ?_⟩⟩,fun _ same => by contradiction⟩
    · exact fresh.kept (fun id' n' other => frame _ other) (Nat.le_of_lt count₃) count₃
    · rw [← frame₂ _ (outside id _).symm]
      exact clean (by rw [still₂.stage,still₁.stage]; exact clear)

theorem removeEach_quiet (order : List Path) : (removeEach order).Uses SysCall.Quiet := by
  induction order with
  | nil => trivial
  | cons path rest ih =>
    refine Uses.bind (quiet_sys (by trivial : (SysCall.remove _).Quiet)) fun removed => ?_
    cases removed with
    | true => exact ih
    | false => trivial

theorem removeAll_quiet (path : Path) : (removeAll path).Uses SysCall.Quiet :=
  Uses.bind (quiet_sys (by trivial : (SysCall.removalOrder _).Quiet)) fun order =>
    (removeEach_quiet order).bind fun _ => trivial

theorem removeEach_cons (env : Env) (path : Path) (rest : List Path) (w : World) :
    exec env (removeEach (path :: rest)) w = if (w.remove env path).1 = true
      then exec env (removeEach rest) (w.remove env path).2 else (false,(w.remove env path).2) := by
  rw [removeEach,exec_bind]
  change exec env (if (w.remove env path).1 = true then _ else _) _ = _
  split <;> rfl

/-- Only the listed paths go; if it was not stopped, all of them. -/
theorem removeEach_spec (env : Env) (order : List Path) (w : World) :
    (∀ q, (exec env (removeEach order) w).2.disk.lookup q = w.disk.lookup q ∨
        (q ∈ order ∧ (exec env (removeEach order) w).2.disk.lookup q = none)) ∧
      ((exec env (removeEach order) w).1 = true →
        ∀ q ∈ order, (exec env (removeEach order) w).2.disk.lookup q = none) := by
  induction order generalizing w with
  | nil => exact ⟨fun _ => .inl rfl,by simp⟩
  | cons path rest ih =>
    obtain ⟨frame,removed,failed,_⟩ := remove_spec env w path
    rw [removeEach_cons]
    cases outcome : (w.remove env path).1 with
    | false => exact ⟨fun q => .inl (congrArg (fun disk : Disk => disk.lookup q) (failed outcome)),by simp⟩
    | true =>
      obtain ⟨later,all⟩ := ih (w.remove env path).2
      rw [if_pos rfl]
      have here : (exec env (removeEach rest) (w.remove env path).2).2.disk.lookup path = none := by
        rcases later path with same | ⟨_,gone⟩
        · rw [same,removed outcome]
        · exact gone
      refine ⟨fun q => ?_,fun done q member => ?_⟩
      · by_cases first : q = path
        · exact .inr ⟨by simp [first],first ▸ here⟩
        · rcases later q with same | ⟨member,gone⟩
          · exact .inl (same.trans (frame q first))
          · exact .inr ⟨List.mem_cons_of_mem _ member,gone⟩
      · rcases List.mem_cons.mp member with rfl | member
        · exact here
        · exact all done q member

/-- No removal of the run fails while the disk is `spoilt`. -/
def Clears (env : Env) (spoilt : Disk → Prop) (p : Prog Sys α) (w : World) : Prop :=
  ∀ q w', (SysCall.remove q,w') ∈ p.calls (Sys.handle env) w → spoilt w'.disk → env.fails w'.stage w'.tick = false

theorem clears_clear {p : Prog Sys α} (clear : env.Clear w.stage) (quiet : p.Uses SysCall.Quiet) (spoilt : Disk → Prop) :
    Clears env spoilt p w := by
  intro q w' made _
  have within : p.Within Sys.handle SysCall.Quiet := quiet.within
  have stages := (calls_invariant (Sys.handle env) (fun c _ => c.Quiet) (fun w' => w'.stage = w.stage)
    (fun c w' quiet same => (handle_still env c quiet w').stage.trans same) p w (within env w) rfl).2 _ made
  rw [show w'.stage = w.stage from stages]
  exact clear _

/-- Children before parents, and nothing else below: then every removal works that does not fail. -/
theorem removeEach_clear (env : Env) (spoilt : Disk → Prop) (path : Path) (inner : path ≠ []) (order : List Path) (w : World)
    (clears : Clears env spoilt (removeEach order) w) (below : ∀ q ∈ order, path <+: q)
    (ordered : order.Pairwise fun a b => ¬ a <+: b) (all : ∀ q, w.disk.lookup q ≠ none → path <+: q → q ∈ order) :
    (exec env (removeEach order) w).1 = true ∨ ¬ spoilt (exec env (removeEach order) w).2.disk := by
  induction order generalizing w with
  | nil => exact .inl rfl
  | cons first rest ih =>
    obtain ⟨frame,removed,failed,fine⟩ := remove_spec env w first
    obtain ⟨before,later⟩ := List.pairwise_cons.mp ordered
    have under := below first (List.mem_cons_self ..)
    have empty : w.disk.isEmpty first = true := by
      rw [Tree.isEmpty_iff]
      rintro q present notRoot rfl
      have short := List.dropLast_prefix q
      rcases List.mem_cons.mp (all q present (under.trans short)) with same | member
      · have := congrArg List.length same
        have := List.length_pos_of_ne_nil notRoot
        simp only [List.length_dropLast] at *
        omega
      · exact before q member short
    have works := fun clear => fine clear (.inr ⟨by rintro rfl; exact inner (List.prefix_nil.mp under),empty⟩)
    rw [removeEach_cons]
    cases outcome : (w.remove env first).1 with
    | false =>
      refine .inr fun spoils => ?_
      rw [if_neg (by simp)] at spoils
      rw [works (clears first w (List.mem_cons_self ..) (failed outcome ▸ spoils))] at outcome
      contradiction
    | true =>
      rw [if_pos rfl]
      refine ih _ (fun q w' made => clears q w' (List.mem_cons_of_mem _ ?_))
        (fun q member => below q (List.mem_cons_of_mem _ member)) later ?_
      · change _ ∈ Prog.calls (Sys.handle env) (if (w.remove env first).1 = true then _ else _) _
        rwa [if_pos outcome]
      · intro q present short
        by_cases same : q = first
        · exact absurd (same ▸ removed outcome) present
        · rw [frame q same] at present
          exact (List.mem_cons.mp (all q present short)).resolve_left same

/-- The folder itself goes last. -/
theorem removeEach_stopped (env : Env) (path : Path) (order : List Path) (w : World) (below : ∀ q ∈ order, path <+: q)
    (ordered : order.Pairwise fun a b => ¬ a <+: b) (stopped : (exec env (removeEach order) w).1 = false) :
    (exec env (removeEach order) w).2.disk.lookup path = w.disk.lookup path := by
  induction order generalizing w with
  | nil => rfl
  | cons first rest ih =>
    obtain ⟨frame,_,failed,_⟩ := remove_spec env w first
    obtain ⟨before,later⟩ := List.pairwise_cons.mp ordered
    rw [removeEach_cons] at stopped ⊢
    cases outcome : (w.remove env first).1 with
    | false =>
      rw [if_neg (by simp)]
      exact congrArg (fun disk : Disk => disk.lookup path) (failed outcome)
    | true =>
      rw [if_pos outcome] at stopped
      rw [if_pos rfl,ih _ (fun q member => below q (List.mem_cons_of_mem _ member)) later stopped]
      refine frame path fun same => ?_
      cases rest with
      | nil => cases stopped
      | cons next rest => exact before next (List.mem_cons_self ..) (same ▸ below next (by simp))

/-- What is left of a folder that was taken away: nothing if it worked out, and at least the folder itself if not. -/
def Emptied (path : Path) (w : World) (done : Bool) (w' : World) : Prop :=
  (∀ q, w'.disk.lookup q = w.disk.lookup q ∨ (path <+: q ∧ w'.disk.lookup q = none)) ∧
    (done = true → ∀ q, path <+: q → w'.disk.lookup q = none) ∧
    (done = false → w'.disk.lookup path = w.disk.lookup path)

theorem removeAll_spec (env : Env) (path : Path) (w : World) :
    Emptied path w (exec env (removeAll path) w).1.isSome (exec env (removeAll path) w).2 ∧
      (∀ spoilt, Clears env spoilt (removeAll path) w → path ≠ [] →
        (exec env (removeAll path) w).1.isSome = true ∨ ¬ spoilt (exec env (removeAll path) w).2.disk) ∧
      ((exec env (removeAll path) w).1 = some 0 ↔ w.disk.lookup path = none) := by
  obtain ⟨set,ordered⟩ := removalOrder_valid env w.disk path
  have mem : ∀ q, q ∈ removalOrder env w.disk path ↔ w.disk.lookup q ≠ none ∧ path <+: q := fun q => by
    rw [← Tree.mem_subtree,← set,List.mem_toFinset]
  obtain ⟨frame,all⟩ := removeEach_spec env (removalOrder env w.disk path) w
  have works := fun spoilt clears inner => removeEach_clear env spoilt path inner (removalOrder env w.disk path) w clears
    (fun q member => ((mem q).mp member).2) ordered (fun q present short => (mem q).mpr ⟨present,short⟩)
  have stopped := removeEach_stopped env path (removalOrder env w.disk path) w (fun q member => ((mem q).mp member).2) ordered
  have idle : removalOrder env w.disk path = [] →
      (exec env (removeEach (removalOrder env w.disk path)) w).1 = true := fun none => by rw [none]; rfl
  simp only [removeAll,exec_bind,exec_removalOrder,pure_eq,exec_ret]
  generalize exec env (removeEach (removalOrder env w.disk path)) w = outcome at frame all works idle stopped
  obtain ⟨done,w'⟩ := outcome
  dsimp only at *
  refine ⟨⟨fun q => ?_,fun finished q short => ?_,fun short => stopped ?_⟩,fun spoilt clears inner => ?_,?_⟩
  · rcases frame q with same | ⟨member,gone⟩
    · exact .inl same
    · exact .inr ⟨((mem q).mp member).2,gone⟩
  · have finished : done = true := by cases done <;> simp_all
    rcases frame q with same | ⟨_,gone⟩
    · by_contra present
      rw [same] at present
      exact absurd (all finished q ((mem q).mpr ⟨present,short⟩)) (by rwa [same])
    · exact gone
  · cases done <;> simp_all
  · refine (works spoilt (fun q w' made => clears q w' ?_) inner).imp_left fun done => by rw [done]; rfl
    refine List.mem_cons_of_mem _ ?_
    change _ ∈ Prog.calls (Sys.handle env) (removeEach (removalOrder env w.disk path) >>= _) w
    rw [calls_bind]
    exact List.mem_append_left _ made
  · constructor
    · intro zero
      by_contra present
      have member := (mem path).mpr ⟨present,List.prefix_refl _⟩
      cases done with
      | false => simp at zero
      | true => simp at zero; rw [zero] at member; contradiction
    · intro absent
      have none : removalOrder env w.disk path = [] := by
        rw [List.eq_nil_iff_forall_not_mem]
        intro q member
        obtain ⟨present,below,rfl⟩ := (mem q).mp member
        cases below with
        | nil => rw [List.append_nil] at present; exact present absent
        | cons => exact present (Tree.nothing_below (by rw [absent]; simp) _ (by simp))
      simp [idle none,none]

theorem removeTransaction_quiet (id : TransactionId) :
    Uses SysCall.Quiet (FileStore.removeTransaction id).run := by
  refine Uses.exceptT_bind (quiet_lift (removeAll_quiet _)) fun removed => ?_
  rcases removed with _ | _ | _ <;> trivial

theorem removeTransaction_spec (env : Env) (id : TransactionId) (w : World) :
    Leads (Sys.handle env) (FileStore.removeTransaction id) w fun result w' =>
      (∀ q, w'.disk.lookup q = w.disk.lookup q ∨ (transactionDir id <+: q ∧ w'.disk.lookup q = none)) ∧
        (result = .ok () → ∀ q, transactionDir id <+: q → w'.disk.lookup q = none) ∧
        (result ≠ .ok () → w'.disk.lookup (transactionDir id) = w.disk.lookup (transactionDir id)) ∧
        ∀ spoilt, Clears env spoilt (FileStore.removeTransaction id).run w → w.disk.lookup (transactionDir id) ≠ none →
          result = .ok () ∨ ¬ spoilt w'.disk := by
  obtain ⟨⟨frame,all,stopped⟩,works,zero⟩ := removeAll_spec env (transactionDir id) w
  have inner : transactionDir id ≠ [] := by simp [transactionDir]
  have works := fun spoilt (clears : Clears env spoilt (FileStore.removeTransaction id).run w) =>
    works spoilt (fun q w' made => clears q w' (by simp [FileStore.removeTransaction,made])) inner
  unfold FileStore.removeTransaction
  rw [leads_exec_bind]
  generalize exec env (removeAll (transactionDir id)) w = outcome at frame all stopped works zero
  obtain ⟨removed,w'⟩ := outcome
  dsimp only at *
  rcases removed with _ | _ | n
  · exact leads_throw.mpr ⟨frame,by simp,fun _ => stopped rfl,
      fun spoilt clears _ => .inr ((works spoilt clears).resolve_left (by simp))⟩
  · have absent := zero.mp rfl
    refine leads_throw.mpr ⟨frame,by simp,fun _ => ?_,fun _ _ present => absurd absent present⟩
    rcases frame (transactionDir id) with same | ⟨_,gone⟩
    · exact same
    · exact gone.trans absent.symm
  · exact leads_pure.mpr ⟨frame,fun _ => all rfl,fun other => absurd rfl other,fun _ _ _ => .inl rfl⟩

/-- The folders that go are those below `kept` on the way to the last one. -/
def Pruned (disk disk' : Disk) (kept last : Path) : Prop :=
  ∀ q, disk'.lookup q = if kept <+: q ∧ q ≠ kept ∧ q <+: last then none else disk.lookup q

theorem Pruned.refl (disk : Disk) (path : Path) : Pruned disk disk path path := by
  intro q
  rw [if_neg]
  rintro ⟨above,other,below⟩
  exact other (above.eq_of_length_le below.length_le).symm

theorem Pruned.step {disk'' : Disk} {kept up : Path} {name : Bytes} (short : kept <+: up)
    (first : ∀ q, disk'.lookup q = if q = up ++ [name] then none else disk.lookup q)
    (rest : Pruned disk' disk'' kept up) : Pruned disk disk'' kept (up ++ [name]) := by
  intro q
  rw [rest,first]
  have whole : kept <+: up ++ [name] ∧ up ++ [name] ≠ kept := by
    refine ⟨short.trans (List.prefix_append _ _),?_⟩
    rintro rfl
    have := short.length_le
    simp at this
  by_cases last : q = up ++ [name]
  · subst last
    rw [if_pos rfl,if_pos (⟨whole.1,whole.2,List.prefix_refl _⟩ : _ ∧ _ ∧ _)]
    split <;> rfl
  · simp only [List.prefix_concat_iff,last,false_or,if_false]

theorem pruneFolders_cons (env : Env) (files : Path) (name : Bytes) (up : List Bytes) (w : World) :
    exec env (FileStore.pruneFolders files (name :: up)) w =
      if (w.disk.isDirectory (files ++ (name :: up).reverse) && w.disk.isEmpty (files ++ (name :: up).reverse)) = true then
        if (w.remove env (files ++ (name :: up).reverse)).1 = true then
          exec env (FileStore.pruneFolders files up) (w.remove env (files ++ (name :: up).reverse)).2
        else ((),(w.remove env (files ++ (name :: up).reverse)).2)
      else ((),w) := by
  rw [FileStore.pruneFolders,exec_bind]
  change exec env (if (w.disk.isDirectory _ && w.disk.isEmpty _) = true then _ else _) w = _
  split
  · rw [exec_bind]
    change exec env (if (w.remove env _).1 = true then _ else _) _ = _
    split <;> rfl
  · rfl

theorem pruneFolders_spec (env : Env) (files : Path) (inner : files ≠ []) (names : List Bytes) (w : World) :
    ∃ kept gone, names.reverse = kept ++ gone ∧
      Pruned w.disk (exec env (FileStore.pruneFolders files names) w).2.disk (files ++ kept) (files ++ names.reverse) ∧
      (env.Clear w.stage → kept = [] ∨
        (exec env (FileStore.pruneFolders files names) w).2.disk.lookup (files ++ kept) ≠ some .directory ∨
        (exec env (FileStore.pruneFolders files names) w).2.disk.isEmpty (files ++ kept) = false) := by
  induction names generalizing w with
  | nil =>
    refine ⟨[],[],rfl,?_,fun _ => .inl rfl⟩
    simpa [FileStore.pruneFolders] using Pruned.refl w.disk files
  | cons name up ih =>
    rw [pruneFolders_cons]
    obtain ⟨frame,removed,failed,fine⟩ := remove_spec env w (files ++ (name :: up).reverse)
    have last : files ++ (name :: up).reverse = files ++ up.reverse ++ [name] := by simp
    split
    · rename_i empty
      rw [Bool.and_eq_true,Tree.isDirectory_iff] at empty
      split
      · rename_i done
        obtain ⟨kept,gone,path,pruned,stopped⟩ := ih (w.remove env (files ++ (name :: up).reverse)).2
        refine ⟨kept,gone ++ [name],by simp [path],?_,?_⟩
        · have short : files ++ kept <+: files ++ up.reverse := by simp [path]
          generalize files ++ (name :: up).reverse = whole at *
          subst last
          refine Pruned.step short (fun q => ?_) pruned
          split
          · rename_i here; rw [here,removed done]
          · rename_i other; exact frame q other
        · intro clear
          exact stopped ((show (w.remove env _).2.stage = w.stage from attempt_stage ..) ▸ clear)
      · rename_i stuck
        refine ⟨(name :: up).reverse,[],by simp,?_,fun clear => ?_⟩
        · rw [failed (by simpa using stuck)]
          exact Pruned.refl _ _
        · exact absurd (fine (clear _) (.inr ⟨by simp [inner],empty.2⟩)) stuck
    · rename_i full
      refine ⟨(name :: up).reverse,[],by simp,Pruned.refl _ _,fun _ => .inr ?_⟩
      rw [Bool.and_eq_true,Tree.isDirectory_iff,not_and_or] at full
      exact full.imp id (by simp)

theorem pruneFolders_quiet (files : Path) (names : List Bytes) :
    (FileStore.pruneFolders files names).Uses SysCall.Quiet := by
  induction names with
  | nil => trivial
  | cons name up ih =>
    refine Uses.bind (quiet_sys (by trivial : (SysCall.isEmpty _).Quiet)) fun empty => ?_
    cases empty with
    | false => trivial
    | true =>
      refine Uses.bind (quiet_sys (by trivial : (SysCall.remove _).Quiet)) fun removed => ?_
      cases removed with
      | true => exact ih
      | false => trivial

theorem removeFile_quiet (id : TransactionId) (path : RelativePath) :
    Uses SysCall.Quiet (FileStore.removeFile id path).run := by
  refine Uses.exceptT_bind (quiet_call (by trivial : (SysCall.status _).Quiet)) fun status => ?_
  cases status with
  | absent | directory => trivial
  | regular size =>
    refine Uses.exceptT_bind (quiet_call (by trivial : (SysCall.remove _).Quiet)) fun removed => ?_
    exact Uses.exceptT_bind (quiet_orIo _ _ _) fun _ => quiet_lift (pruneFolders_quiet _ _)

theorem nodeStatus_regular {node : Option (Node Bytes)} {size : UInt64} (regular : nodeStatus node = .regular size) :
    ∃ content, node = some (.file content) ∧ size = UInt64.ofNat content.length := by
  rcases node with _ | _ | content
  · simp [nodeStatus] at regular
  · simp [nodeStatus] at regular
  · exact ⟨content,rfl,by simpa [nodeStatus] using regular.symm⟩

/-- The file goes with the folders it leaves empty, up to one that is not or to `files` itself. -/
theorem removeFile_spec (env : Env) (id : TransactionId) (path : RelativePath) (w : World) :
    Leads (Sys.handle env) (FileStore.removeFile id path) w fun result w' =>
      (result = .ok () ∧ (∃ content, w.disk.lookup (payloadPath id path) = some (.file content)) ∧
          ∃ kept gone, path.components.dropLast = kept ++ gone ∧
            Pruned w.disk w'.disk (filesDir id ++ kept) (payloadPath id path) ∧
            (env.Clear w.stage → kept = [] ∨ w'.disk.isEmpty (filesDir id ++ kept) = false)) ∨
        ∃ e, result = .error e ∧ w'.disk = w.disk ∧
          (env.Clear w.stage → ∀ content, w.disk.lookup (payloadPath id path) ≠ some (.file content)) := by
  have split : payloadPath id path = filesDir id ++ path.components.dropLast ++
      [path.components.getLast path.components_ne_nil] := by
    rw [payloadPath,RelativePath.under,List.append_assoc,List.dropLast_append_getLast]
  unfold FileStore.removeFile
  simp only [call_eq]
  rw [leads_exec_bind]
  simp only [exec_status]
  cases status : nodeStatus (w.disk.lookup (payloadPath id path)) with
  | absent | directory =>
    refine leads_throw.mpr (.inr ⟨_,rfl,rfl,fun _ content file => ?_⟩)
    rw [file] at status
    simp [nodeStatus] at status
  | regular size =>
    obtain ⟨content,file,_⟩ := nodeStatus_regular status
    obtain ⟨frame,removed,failed,fine⟩ := remove_spec env w (payloadPath id path)
    simp only [leads_exec_bind,exec_remove]
    rw [leads_orIo_bind]
    refine ⟨fun stuck => .inr ⟨_,rfl,failed stuck,fun clear _ _ => ?_⟩,fun done => ?_⟩
    · rw [fine (clear _) (.inr ⟨by simp [split],Tree.isEmpty_of_not_directory (by rw [file]; simp)⟩)] at stuck
      contradiction
    obtain ⟨kept,gone,names,pruned,stopped⟩ := pruneFolders_spec env (filesDir id) (by simp [filesDir])
      path.components.dropLast.reverse (w.remove env (payloadPath id path)).2
    rw [List.reverse_reverse] at names pruned
    rw [leads_exec,exec_liftM]
    have whole : Pruned w.disk (exec env (FileStore.pruneFolders (filesDir id) path.components.dropLast.reverse)
        (w.remove env (payloadPath id path)).2).2.disk (filesDir id ++ kept) (payloadPath id path) := by
      generalize payloadPath id path = payload at *
      subst split
      refine Pruned.step (by simp [names]) (fun q => ?_) pruned
      split
      · rename_i here; rw [here,removed done]
      · rename_i other; exact frame q other
    refine .inl ⟨rfl,⟨content,file⟩,kept,gone,names,whole,fun clear => ?_⟩
    refine (stopped ((show (w.remove env _).2.stage = w.stage from attempt_stage ..) ▸ clear)).imp_right ?_
    refine fun other => other.resolve_left fun noFolder => noFolder ?_
    rw [whole,if_neg (by simp)]
    refine w.disk.directory_above _ (gone ++ [path.components.getLast path.components_ne_nil]) ?_ (by simp)
    rw [List.append_assoc,← List.append_assoc kept,← names,← List.append_assoc,← split,file]
    simp

theorem hashChunks_spec (chunk : Nat) (positive : 0 < chunk) (fuel : Nat) (rest hashed : Bytes) (size : UInt64)
    (enough : rest.length < fuel) :
    hashChunks chunk fuel rest hashed size = (hashed ++ rest,size + UInt64.ofNat rest.length) := by
  induction fuel generalizing rest hashed size with
  | zero => omega
  | succ fuel ih =>
    unfold hashChunks
    cases rest with
    | nil => simp
    | cons b rest =>
      have first : ((b :: rest).take chunk).length + ((b :: rest).drop chunk).length = (b :: rest).length := by
        rw [← List.length_append,List.take_append_drop]
      have shorter : ((b :: rest).drop chunk).length < fuel := by
        simp only [List.length_drop,List.length_cons] at enough ⊢
        omega
      rw [if_neg (by obtain ⟨n,rfl⟩ := Nat.exists_eq_succ_of_ne_zero (by omega : chunk ≠ 0); simp),ih _ _ _ shorter,
        List.append_assoc,List.take_append_drop,← first,UInt64.ofNat_add,UInt64.add_assoc]

theorem openRead_spec (env : Env) (id : TransactionId) (path : RelativePath) (w : World) :
    exec env (FileStore.openRead id path).run w =
      (match w.disk.lookup (payloadPath id path) with
        | some (.file content) => .ok ⟨UInt64.ofNat content.length,content⟩
        | _ => .error (noSuchFile path.value),w) := by
  unfold FileStore.openRead
  simp only [call_eq,exec_bindM,exec_liftM,exec_status]
  rcases file : w.disk.lookup (payloadPath id path) with _ | _ | content
  · rfl
  · rfl
  · simp only [nodeStatus,exec_bindM,exec_liftM,exec_read,World.read,file]
    rfl

/-- Hashing gives back the size and the digest of what is stored. -/
theorem hashFile_spec (sha256 : Bytes → Sha256Digest) (env : Env) (id : TransactionId) (path : RelativePath) (w : World) :
    exec env (FileStore.hashFile sha256 id path).run w =
      (match w.disk.lookup (payloadPath id path) with
        | some (.file content) => .ok ⟨path,UInt64.ofNat content.length,sha256 content⟩
        | _ => .error (noSuchFile path.value),w) := by
  unfold FileStore.hashFile
  rw [exec_bindM,openRead_spec]
  rcases file : w.disk.lookup (payloadPath id path) with _ | _ | content
  · rfl
  · rfl
  · dsimp only
    rw [hashChunks_spec chunkBytes (by decide) _ content [] 0 (by omega)]
    simp

/-! What the parts of an upload return, whatever happens to the disk. -/

/-- What an upload can turn into: it keeps its place, and what was hashed only grows. -/
inductive Upload.Advances (u : Upload) : Upload → Prop
  | same : Advances u u
  | wrote (chunk : Bytes) :
    Advances u { u with hashed := u.hashed ++ chunk, size := u.size + UInt64.ofNat chunk.length }
  | ended : Advances u { u with done := true }

section Advances

variable {u u' : Upload}

theorem Upload.Advances.tmp (advances : u.Advances u') : u'.tmp = u.tmp := by cases advances <;> rfl
theorem Upload.Advances.final (advances : u.Advances u') : u'.final = u.final := by cases advances <;> rfl
theorem Upload.Advances.path (advances : u.Advances u') : u'.path = u.path := by cases advances <;> rfl

end Advances

section Results

variable (sha256 : Bytes → Sha256Digest) (env : Env) (w : World)

theorem finish_result (u : Upload) (expected : Option Sha256Digest) (stored : StoredFile)
    (ok : (exec env (u.finish sha256 expected).run w).1 = .ok stored) :
    stored = ⟨u.path,u.size,sha256 u.hashed⟩ ∧ ∀ want ∈ expected, want = sha256 u.hashed := by
  suffices all : Leads (Sys.handle env) (u.finish sha256 expected) w fun result _ =>
      ∀ stored, result = .ok stored → stored = ⟨u.path,u.size,sha256 u.hashed⟩ ∧
        ∀ want ∈ expected, want = sha256 u.hashed from all stored ok
  unfold Upload.finish
  simp only [call_eq,leads_exec_bind,leads_orIo_bind,leads_ensure_bind,leads_refuse_bind,leads_pure,reduceCtorEq,
    false_implies,implies_true,true_and]
  intro _ _ _ _ digest _ _ _ _ stored same
  exact ⟨(Except.ok.inj same).symm,checkDigest_ok digest⟩

theorem commit_result (u : Upload) (expected : Option Sha256Digest) :
    u.Advances (exec env (u.commit sha256 expected) w).1.2 ∧
      ∀ stored, (exec env (u.commit sha256 expected) w).1.1 = .ok stored →
        u.done = false ∧ stored = ⟨u.path,u.size,sha256 u.hashed⟩ ∧ ∀ want ∈ expected, want = sha256 u.hashed := by
  by_cases done : u.done = true
  · rw [commit_done sha256 expected done]
    exact ⟨.same,by simp⟩
  have result := finish_result sha256 env w u expected
  unfold Upload.commit
  rw [if_neg done,exec_bind]
  generalize exec env (u.finish sha256 expected).run w = outcome at result
  obtain ⟨_ | stored,w'⟩ := outcome
  · exact ⟨.ended,fun _ same => by contradiction⟩
  · refine ⟨.ended,fun stored' same => ⟨by simpa using done,result stored' ?_⟩⟩
    exact same

theorem write_result (u : Upload) (chunk : Bytes) : u.Advances (exec env (u.write chunk) w).1.2 := by
  unfold Upload.write
  split
  · exact .same
  split
  · exact .same
  rw [exec_bind]
  generalize exec env (sys (.append u.tmp chunk)) w = outcome
  obtain ⟨_ | _,w'⟩ := outcome
  · exact .ended
  · exact .wrote chunk

theorem beginWrite_result (id : TransactionId) (final : Path) (path : RelativePath) (u : Upload)
    (ok : (exec env (FileStore.beginWrite id final path).run w).1 = .ok u) :
    ∃ n, u = ⟨tmpPath id n,final,path,[],0,false⟩ := by
  suffices all : Leads (Sys.handle env) (FileStore.beginWrite id final path) w fun result _ =>
      ∀ u, result = .ok u → ∃ n, u = ⟨tmpPath id n,final,path,[],0,false⟩ from all u ok
  unfold FileStore.beginWrite
  simp only [call_eq,leads_exec_bind,leads_refuse_bind]
  refine ⟨fun _ => by simp,fun _ => ?_⟩
  split
  · exact leads_pure.mpr fun u same => ⟨_,(Except.ok.inj same).symm⟩
  · exact leads_throw.mpr (by simp)
  · exact leads_throw.mpr (by simp)

end Results

end Confide
