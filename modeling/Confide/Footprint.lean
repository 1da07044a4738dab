import Confide.Calls

/-! Which paths a call can change, wherever it is cut off. -/
namespace Confide

open Resumption Resumption.Prog DirTree

variable {env : Env} {w : World} {α β : Type}

/-- The paths a primitive may change. -/
def SysCall.writes : SysCall → List Path
  | .mkdir path | .create path | .append path _ | .remove path => [path]
  | .rename source target => [source,target]
  | _ => []

variable {q : Path}

theorem attempt_lookup {result : Option Disk} (frame : ∀ disk, result = some disk → disk.lookup q = w.disk.lookup q) :
    (w.attempt env result).2.disk.lookup q = w.disk.lookup q := by
  cases outcome : (w.attempt env result).1 with
  | true => exact frame _ (attempt_true outcome)
  | false => rw [attempt_false outcome]

theorem handle_lookup (c : SysCall) (outside : q ∉ c.writes) :
    (Sys.handle env c w).2.disk.lookup q = w.disk.lookup q := by
  cases c with
  | mkdir path =>
    have other : q ≠ path := by simpa [SysCall.writes] using outside
    change (w.mkdir env path).2.disk.lookup q = _
    rw [mkdir_world]
    exact attempt_lookup fun disk made => by rw [(Tree.mkdir_lookup made).2,if_neg other]
  | create path =>
    have other : q ≠ path := by simpa [SysCall.writes] using outside
    change (w.create env path).2.disk.lookup q = _
    rw [create_world]
    exact attempt_lookup fun disk made => by rw [Tree.assign_lookup made,if_neg other]
  | append path chunk =>
    have other : q ≠ path := by simpa [SysCall.writes] using outside
    refine attempt_lookup fun disk made => ?_
    split at made
    · rw [Tree.assign_lookup made,if_neg other]
    · exact Option.some.inj made ▸ rfl
  | remove path =>
    have other : q ≠ path := by simpa [SysCall.writes] using outside
    exact (remove_spec env w path).1 q other
  | rename source target =>
    obtain ⟨first,second⟩ : q ≠ source ∧ q ≠ target := by simpa [SysCall.writes] using outside
    exact attempt_lookup fun disk moved => Tree.rename_frame moved first second
  | flush | fsync | close => exact congrArg (fun disk : Disk => disk.lookup q) (attempt_idle env w)
  | env c => cases c <;> rfl
  | enter | indexFind | indexAll | indexSet | indexErase | indexReset | nextTmp | status | isEmpty | children
  | removalOrder | read => rfl

/-- Nothing that is there is changed by making a directory. -/
theorem mkdir_keeps {path : Path} (present : w.disk.lookup q ≠ none) :
    (Sys.handle env (.mkdir path) w).2.disk.lookup q = w.disk.lookup q := by
  change (w.mkdir env path).2.disk.lookup q = _
  rw [mkdir_world]
  refine attempt_lookup fun disk made => ?_
  obtain ⟨absent,all⟩ := Tree.mkdir_lookup made
  rw [all,if_neg]
  rintro rfl
  exact present absent

/-- A directory that is there stays, unless it is removed itself. -/
theorem handle_directory (c : SysCall) (there : w.disk.lookup q = some .directory) (spared : c ≠ .remove q) :
    (Sys.handle env c w).2.disk.lookup q = some .directory := by
  by_cases outside : q ∉ c.writes
  · rw [handle_lookup c outside,there]
  have solid : ∀ {path : Path} {node : Node Bytes} {disk : Disk}, w.disk.assign path node = some disk → q ≠ path := by
    rintro path node disk made rfl
    have fits := (Tree.assign_isSome.mp (Option.isSome_of_eq_some made)).2.2
    exact fits there
  cases c with
  | mkdir path => rw [mkdir_keeps (by rw [there]; simp),there]
  | create path =>
    change (w.create env path).2.disk.lookup q = _
    rw [create_world,attempt_lookup fun disk made => by rw [Tree.assign_lookup made,if_neg (solid made)],there]
  | append path chunk =>
    refine (attempt_lookup fun disk made => ?_).trans there
    split at made
    · rw [Tree.assign_lookup made,if_neg (solid made)]
    · exact Option.some.inj made ▸ rfl
  | rename source target =>
    refine (attempt_lookup fun disk moved => ?_).trans there
    have first : q ≠ source := by
      rintro rfl
      simp [Tree.rename,there] at moved
    refine Tree.rename_frame moved first ?_
    rintro rfl
    unfold Tree.rename at moved
    split at moved
    · rw [if_neg (Ne.symm first)] at moved
      obtain ⟨disk',made,_⟩ := Option.bind_eq_some_iff.mp moved
      exact solid made rfl
    · contradiction
  | remove path =>
    simp only [SysCall.writes,List.mem_singleton,not_not] at outside
    exact absurd (outside ▸ rfl) spared
  | _ => exact absurd (by simp [SysCall.writes]) outside

/-- The paths a primitive may bring into being. -/
def SysCall.makes : SysCall → List Path
  | .mkdir path | .create path => [path]
  | .rename _ target => [target]
  | _ => []

theorem handle_absent (c : SysCall) (absent : w.disk.lookup q = none) (unmade : q ∉ c.makes) :
    (Sys.handle env c w).2.disk.lookup q = none := by
  by_cases outside : q ∉ c.writes
  · rw [handle_lookup c outside,absent]
  cases c with
  | append path chunk =>
    refine (attempt_lookup fun disk made => ?_).trans absent
    split at made
    · rename_i found
      rw [Tree.assign_lookup made,if_neg]
      rintro rfl
      rw [absent] at found
      contradiction
    · exact Option.some.inj made ▸ rfl
  | remove path =>
    simp only [SysCall.writes,List.mem_singleton,not_not] at outside
    subst outside
    obtain ⟨_,gone,kept,_⟩ := remove_spec env w q
    change (w.remove env q).2.disk.lookup q = none
    cases done : (w.remove env q).1 with
    | true => exact gone done
    | false => rw [kept done,absent]
  | rename source target =>
    have other : q ≠ target := by simpa [SysCall.makes] using unmade
    refine (attempt_lookup fun disk moved => Tree.rename_frame moved ?_ other).trans absent
    rintro rfl
    simp [Tree.rename,absent] at moved
  | mkdir | create => exact absurd unmade outside
  | _ => exact absurd (by simp [SysCall.writes]) outside

/-- The program changes nothing outside the region, wherever it is cut. -/
def Confined (region : Path → Prop) (p : Prog Sys α) : Prop := ∀ env fuel w q, ¬ region q →
  (p.cut (Sys.handle env) fuel w).disk.lookup q = w.disk.lookup q

variable {p : Prog Sys α}

theorem Confined.whole {region : Path → Prop} (confined : Confined region p) (outside : ¬ region q) :
    (exec env p w).2.disk.lookup q = w.disk.lookup q := by
  obtain ⟨fuel,same⟩ := run_eq_cut (Sys.handle env) p w
  exact (congrArg (fun w : World => w.disk.lookup q) same.symm).trans (confined env fuel w q outside)

/-- The calls a program makes, whatever the environment answers, are all allowed. -/
abbrev Makes (allowed : SysCall → Prop) (p : Prog Sys α) : Prop := p.Within Sys.handle allowed

theorem Makes.confined {region : Path → Prop} (makes : Makes (fun c => ∀ q ∈ c.writes, region q) p) :
    Confined region p := by
  intro env fuel w q outside
  refine makes.cut env (fun w' => w'.disk.lookup q = w.disk.lookup q) (fun c w' inside same => ?_) fuel w rfl
  rw [handle_lookup c fun written => outside (inside q written)]
  exact same

/-- The primitives by which a file comes from a temp name to its place, or is given up. -/
inductive Places (tmp final : Path) : SysCall → Prop
  | append (chunk : Bytes) : Places tmp final (.append tmp chunk)
  | remove : Places tmp final (.remove tmp)
  | mkdir {q : Path} (above : q <+: final.dropLast) : Places tmp final (.mkdir q)
  | rename : Places tmp final (.rename tmp final)

variable {c : SysCall}

section Makes

variable {allowed : SysCall → Prop}

theorem makes_sys (may : allowed c) : Makes allowed (sys c) := Uses.within ⟨may,fun _ => trivial⟩

theorem makes_lift (makes : Makes allowed p) : Makes allowed (ExceptT.lift p : SysM α).run :=
  makes.bind fun _ => Uses.within trivial

theorem makes_call (may : allowed c) : Makes allowed (call c).run := makes_lift (makes_sys may)

theorem makes_refuse (bad : Bool) (e : Error) : Makes allowed (refuse bad e : SysM Unit).run := by
  apply Uses.within
  unfold refuse
  split <;> trivial

theorem makes_ensure (result : Result α) : Makes allowed (ensure result : SysM α).run := Uses.within trivial

theorem makes_pure (value : α) : Makes allowed (pure value : SysM α).run := Uses.within trivial

theorem makes_throw (e : Error) : Makes allowed (throw e : SysM α).run := Uses.within trivial

theorem Makes.lift_then {f : α → SysM β} (first : Makes allowed p)
    (rest : ∀ env w, Makes allowed (f (exec env p w).1).run) : Makes allowed (ExceptT.lift p >>= f).run := by
  refine Within.exceptT_then (makes_lift first) fun env w value returned => ?_
  have returned : (exec env (ExceptT.lift p : SysM α).run w).1 = .ok value := returned
  rw [exec_liftM] at returned
  exact Except.ok.inj returned ▸ rest env w

variable (idle : ∀ c : SysCall, c.writes = [] → allowed c)
include idle

theorem createDirectories_makes {names : List Bytes} (inside : ∀ q, q <+: names.reverse → allowed (.mkdir q)) :
    Makes allowed (createDirectories names) := by
  induction names with
  | nil => exact Uses.within trivial
  | cons name up ih =>
    refine (makes_sys (idle _ rfl)).bind fun status => ?_
    cases status with
    | directory => exact Uses.within trivial
    | regular => exact Uses.within trivial
    | absent =>
      refine (ih fun q short => inside q (short.trans (by simp))).bind fun above => ?_
      have last := inside _ (List.prefix_refl _)
      cases above with
      | clash => exact Uses.within trivial
      | failed => exact Uses.within trivial
      | created => exact makes_sys last
      | present => exact makes_sys last

variable {id : TransactionId}

theorem beginWrite_makes (final : Path) (path : RelativePath)
    (inside : ∀ n, allowed (.create (tmpPath id n))) : Makes allowed (FileStore.beginWrite id final path).run := by
  refine Within.exceptT_bind (makes_lift ((makes_sys (idle _ rfl)).bind fun _ => Uses.within trivial)) fun known => ?_
  refine Within.exceptT_bind (makes_refuse _ _) fun _ => ?_
  refine Within.exceptT_bind (makes_call (idle _ rfl)) fun n => ?_
  refine Within.exceptT_bind (makes_call (inside n)) fun opened => ?_
  cases opened with
  | opened => exact makes_pure _
  | missing => exact makes_throw _
  | failed => exact makes_throw _

omit idle in
theorem discard_makes (u : Upload) (inside : allowed (.remove u.tmp)) : Makes allowed u.discard :=
  (makes_sys inside).bind fun _ => Uses.within trivial

omit idle in
theorem write_makes (u : Upload) (chunk : Bytes)
    (inside : u.done = false → allowed (.append u.tmp chunk) ∧ allowed (.remove u.tmp)) : Makes allowed (u.write chunk) := by
  unfold Upload.write
  split
  · exact Uses.within trivial
  rename_i progress
  have inside := inside (by simpa using progress)
  split
  · exact Uses.within trivial
  refine (makes_sys inside.1).bind fun written => ?_
  cases written with
  | true => exact Uses.within trivial
  | false => exact (discard_makes u inside.2).bind fun _ => Uses.within trivial

theorem finish_makes (sha256 : Bytes → Sha256Digest) (u : Upload) (expected : Option Sha256Digest)
    (inside : ∀ c, Places u.tmp u.final c → allowed c) : Makes allowed (u.finish sha256 expected).run := by
  refine Within.exceptT_bind (makes_call (idle _ rfl)) fun _ => Within.exceptT_bind (makes_refuse _ _) fun _ => ?_
  refine Within.exceptT_bind (makes_call (idle _ rfl)) fun _ => Within.exceptT_bind (makes_refuse _ _) fun _ => ?_
  refine Within.exceptT_bind (makes_call (idle _ rfl)) fun _ => Within.exceptT_bind (makes_refuse _ _) fun _ => ?_
  refine Within.exceptT_bind (makes_ensure _) fun _ => ?_
  refine Within.exceptT_bind (makes_lift (createDirectories_makes idle fun q short => inside _ (.mkdir ?_))) fun made => ?_
  · rwa [List.reverse_reverse] at short
  refine Within.exceptT_bind (makes_refuse _ _) fun _ => Within.exceptT_bind (makes_refuse _ _) fun _ => ?_
  refine Within.exceptT_bind (makes_call (idle _ rfl)) fun _ => Within.exceptT_bind (makes_refuse _ _) fun _ => ?_
  refine Within.exceptT_bind (makes_call (inside _ .rename)) fun _ => ?_
  exact Within.exceptT_bind (makes_refuse _ _) fun _ => makes_pure _

theorem commit_makes (sha256 : Bytes → Sha256Digest) (u : Upload) (expected : Option Sha256Digest)
    (inside : u.done = false → ∀ c, Places u.tmp u.final c → allowed c) : Makes allowed (u.commit sha256 expected) := by
  unfold Upload.commit
  split
  · exact Uses.within trivial
  rename_i progress
  have inside := inside (by simpa using progress)
  refine (finish_makes idle sha256 u expected inside).bind fun result => ?_
  cases result with
  | ok => exact Uses.within trivial
  | error => exact (discard_makes u (inside _ .remove)).bind fun _ => Uses.within trivial

theorem writeDocument_makes (sha256 : Bytes → Sha256Digest) (id : TransactionId) (doc : Document) (content : Bytes)
    (create : ∀ n, allowed (.create (tmpPath id n)))
    (inside : ∀ n c, Places (tmpPath id n) (documentPath id doc) c → allowed c) :
    Makes allowed (FileStore.writeDocument sha256 id doc content).run := by
  refine Within.exceptT_then (beginWrite_makes idle _ _ create) fun env w u returned => ?_
  obtain ⟨n,rfl⟩ := beginWrite_result env w id (documentPath id doc) doc.path u returned
  refine Makes.lift_then (write_makes _ content fun _ => ⟨inside n _ (.append content),inside n _ .remove⟩) fun env w => ?_
  have advances := write_result env w ⟨tmpPath id n,documentPath id doc,doc.path,[],0,false⟩ content
  generalize (exec env (Upload.write _ content) w).1 = outcome at advances ⊢
  obtain ⟨written,u⟩ := outcome
  have tmp : u.tmp = tmpPath id n := advances.tmp
  have final : u.final = documentPath id doc := advances.final
  refine Within.exceptT_bind (makes_ensure _) fun _ => ?_
  refine Within.exceptT_bind (makes_lift (commit_makes idle sha256 u none fun _ => ?_)) fun _ => ?_
  · rw [tmp,final]
    exact inside n
  · exact Within.exceptT_bind (makes_ensure _) fun _ => makes_pure _

omit idle in
theorem createTransaction_makes (folder : allowed (.mkdir (transactionDir id)))
    (files : allowed (.mkdir (filesDir id))) : Makes allowed (FileStore.createTransaction id).run := by
  refine Within.exceptT_bind (makes_call folder) fun made => ?_
  cases made with
  | created => exact Within.exceptT_bind (makes_call files) fun _ => makes_refuse _ _
  | present | clash | failed => exact makes_throw _

omit idle in
theorem removeEach_makes {order : List Path} (inside : ∀ q ∈ order, allowed (.remove q)) : Makes allowed (removeEach order) := by
  induction order with
  | nil => exact Uses.within trivial
  | cons path rest ih =>
    refine (makes_sys (inside path (List.mem_cons_self ..))).bind fun removed => ?_
    cases removed with
    | true => exact ih fun q member => inside q (List.mem_cons_of_mem _ member)
    | false => exact Uses.within trivial

/-- What is to be removed is read off the disk first. -/
theorem removeAll_makes {path : Path} (inside : ∀ q, path <+: q → allowed (.remove q)) : Makes allowed (removeAll path) := by
  refine (makes_sys (idle _ rfl)).then fun env w => ?_
  refine (removeEach_makes fun q member => inside q ?_).bind fun _ => Uses.within trivial
  have set := (removalOrder_valid env w.disk path).1
  have member : q ∈ removalOrder env w.disk path := member
  rw [← List.mem_toFinset,set,Tree.mem_subtree] at member
  exact member.2

theorem removeTransaction_makes (inside : ∀ q, transactionDir id <+: q → allowed (.remove q)) :
    Makes allowed (FileStore.removeTransaction id).run := by
  refine Within.exceptT_bind (makes_lift (removeAll_makes idle inside)) fun removed => ?_
  rcases removed with _ | _ | _
  · exact makes_throw _
  · exact makes_throw _
  · exact makes_pure _

theorem pruneFolders_makes {files : Path} {names : List Bytes}
    (inside : ∀ q, files <+: q → q ≠ files → q <+: files ++ names.reverse → allowed (.remove q)) :
    Makes allowed (FileStore.pruneFolders files names) := by
  induction names with
  | nil => exact Uses.within trivial
  | cons name up ih =>
    refine (makes_sys (idle _ rfl)).bind fun empty => ?_
    cases empty with
    | false => exact Uses.within trivial
    | true =>
      refine (makes_sys (inside _ (List.prefix_append _ _) (by simp) (List.prefix_refl _))).bind fun removed => ?_
      cases removed with
      | false => exact Uses.within trivial
      | true => exact ih fun q first other second => inside q first other (second.trans (by simp))

theorem removeFile_makes {path : RelativePath}
    (inside : ∀ q, filesDir id <+: q → q ≠ filesDir id → q <+: payloadPath id path → allowed (.remove q)) :
    Makes allowed (FileStore.removeFile id path).run := by
  have last := inside (payloadPath id path) (List.prefix_append _ _)
    (by simpa [payloadPath,RelativePath.under] using path.components_ne_nil) (List.prefix_refl _)
  refine Within.exceptT_bind (makes_call (idle _ rfl)) fun status => ?_
  cases status with
  | absent | directory => exact makes_throw _
  | regular size =>
    refine Within.exceptT_bind (makes_call last) fun removed => ?_
    refine Within.exceptT_bind (makes_refuse _ _) fun _ => makes_lift (pruneFolders_makes idle fun q first other second => ?_)
    rw [List.reverse_reverse] at second
    exact inside q first other (second.trans (List.prefix_append_right_inj _ |>.mpr (List.dropLast_prefix _)))

theorem openRead_makes (id : TransactionId) (path : RelativePath) : Makes allowed (FileStore.openRead id path).run := by
  refine Within.exceptT_bind (makes_call (idle _ rfl)) fun status => ?_
  cases status with
  | absent | directory => exact makes_throw _
  | regular size =>
    refine Within.exceptT_bind (makes_call (idle _ rfl)) fun opened => ?_
    cases opened with
    | opened => exact makes_pure _
    | missing => exact makes_throw _
    | failed => exact makes_throw _

end Makes

/-- The primitives by which a call of the service may change the disk. -/
def SvcCall.allows : SvcCall → SysCall → Prop
  | .insert tx, c => c = .mkdir (transactionDir tx.id) ∨ c = .mkdir (filesDir tx.id) ∨
    (∃ n, c = .create (tmpPath tx.id n) ∨ Places (tmpPath tx.id n) (documentPath tx.id .meta) c) ∨
    ∃ q, transactionDir tx.id <+: q ∧ c = .remove q
  | .save tx, c => ∃ n, c = .create (tmpPath tx.id n) ∨ Places (tmpPath tx.id n) (documentPath tx.id .meta) c
  | .saveManifest tx, c => ∃ n, c = .create (tmpPath tx.id n) ∨ Places (tmpPath tx.id n) (documentPath tx.id .manifest) c
  | .remove id, c => ∃ q, transactionDir id <+: q ∧ c = .remove q
  | .beginUpload id _, c => ∃ n, c = .create (tmpPath id n)
  | .writeUpload u chunk, c => u.done = false ∧ (c = .append u.tmp chunk ∨ c = .remove u.tmp)
  | .commitUpload u _, c => u.done = false ∧ Places u.tmp u.final c
  | .discardUpload u, c => c = .remove u.tmp
  | .removeFile id path, c => ∃ q, filesDir id <+: q ∧ q ≠ filesDir id ∧ q <+: payloadPath id path ∧ c = .remove q
  | _, _ => False

theorem implement_makes [BoostJson] (sha256 : Bytes → Sha256Digest) (c : SvcCall) :
    Makes (fun s => s.writes = [] ∨ c.allows s) (implement sha256 c) := by
  have idle : ∀ s : SysCall, s.writes = [] → s.writes = [] ∨ c.allows s := fun _ none => .inl none
  have entered : ∀ {stage : Stage} {α : Type} {p : Prog Sys α}, Makes (fun s => s.writes = [] ∨ c.allows s) p →
      Makes (fun s => s.writes = [] ∨ c.allows s) (sys (.enter stage) >>= fun _ => p) := fun makes =>
    (makes_sys (.inl rfl)).bind fun _ => makes
  cases c with
  | env c => exact makes_sys (.inl rfl)
  | find id => exact makes_sys (.inl rfl)
  | findIf pred => exact (makes_sys (.inl rfl)).bind fun _ => Uses.within trivial
  | insert tx =>
    refine Within.exceptT_bind (makes_call (.inl rfl)) fun _ => Within.exceptT_bind (makes_call (.inl rfl)) fun known => ?_
    refine Within.exceptT_bind (makes_refuse _ _) fun _ => ?_
    refine Within.exceptT_bind (createTransaction_makes (.inr (.inl rfl)) (.inr (.inr (.inl rfl)))) fun _ => ?_
    refine Within.exceptT_bind (makes_lift (writeDocument_makes idle _ _ _ _
      (fun n => .inr (.inr (.inr (.inl ⟨n,.inl rfl⟩)))) fun n s places => .inr (.inr (.inr (.inl ⟨n,.inr places⟩)))))
      fun written => ?_
    cases written with
    | ok => exact makes_call (.inl rfl)
    | error e =>
      exact Within.exceptT_bind (makes_lift (removeTransaction_makes idle fun q below =>
        .inr (.inr (.inr (.inr ⟨q,below,rfl⟩))))) fun _ => makes_throw _
  | save tx =>
    refine Within.exceptT_bind (makes_call (.inl rfl)) fun _ => Within.exceptT_bind (makes_call (.inl rfl)) fun known => ?_
    refine Within.exceptT_bind (makes_refuse _ _) fun _ => ?_
    exact Within.exceptT_bind (writeDocument_makes idle _ _ _ _ (fun n => .inr ⟨n,.inl rfl⟩)
      fun n s places => .inr ⟨n,.inr places⟩) fun _ => makes_call (.inl rfl)
  | saveManifest tx =>
    refine Within.exceptT_bind (makes_call (.inl rfl)) fun _ => ?_
    exact writeDocument_makes idle _ _ _ _ (fun n => .inr ⟨n,.inl rfl⟩) fun n s places => .inr ⟨n,.inr places⟩
  | remove id =>
    refine Within.exceptT_bind (makes_call (.inl rfl)) fun _ => ?_
    exact Within.exceptT_bind (removeTransaction_makes idle fun q below => .inr ⟨q,below,rfl⟩) fun _ => makes_call (.inl rfl)
  | beginUpload id path => exact entered (beginWrite_makes idle _ _ fun n => .inr ⟨n,rfl⟩)
  | writeUpload u chunk => exact entered (write_makes u chunk fun progress =>
      ⟨.inr ⟨progress,.inl rfl⟩,.inr ⟨progress,.inr rfl⟩⟩)
  | commitUpload u expected => exact entered (commit_makes idle sha256 u expected fun progress s places =>
      .inr ⟨progress,places⟩)
  | discardUpload u => exact entered (discard_makes u (.inr rfl))
  | hashFile id path => exact Within.exceptT_bind (openRead_makes idle id path) fun download => makes_pure _
  | removeFile id path =>
    exact entered (removeFile_makes idle fun q first other second => .inr ⟨q,first,other,second,rfl⟩)
  | openRead id path => exact openRead_makes idle id path

/-- Where a call of the service may change the disk. -/
def SvcCall.region : SvcCall → Path → Prop
  | .insert tx, q => (∃ n, q = tmpPath tx.id n) ∨ transactionDir tx.id <+: q ∨ q <+: transactionDir tx.id
  | .save tx, q => (∃ n, q = tmpPath tx.id n) ∨ q <+: documentPath tx.id .meta
  | .saveManifest tx, q => (∃ n, q = tmpPath tx.id n) ∨ q <+: documentPath tx.id .manifest
  | .remove id, q => transactionDir id <+: q
  | .beginUpload id _, q => ∃ n, q = tmpPath id n
  | .writeUpload u _, q => u.done = false ∧ q = u.tmp
  | .commitUpload u _, q => u.done = false ∧ (q = u.tmp ∨ q <+: u.final)
  | .discardUpload u, q => q = u.tmp
  | .removeFile id path, q => filesDir id <+: q ∧ q <+: payloadPath id path
  | _, _ => False

theorem Places.region {tmp final : Path} (places : Places tmp final c) (written : q ∈ c.writes) :
    q = tmp ∨ q <+: final := by
  cases places with
  | append | remove => exact .inl (List.mem_singleton.mp written)
  | mkdir above => exact .inr (List.mem_singleton.mp written ▸ above.trans (List.dropLast_prefix _))
  | rename =>
    rcases List.mem_pair.mp written with rfl | rfl
    · exact .inl rfl
    · exact .inr (List.prefix_refl _)

theorem implement_confined [BoostJson] (sha256 : Bytes → Sha256Digest) (c : SvcCall) : Confined c.region (implement sha256 c) := by
  refine Makes.confined (Within.mono (implement_makes sha256 c) fun s made => ?_)
  rcases made with idle | allows
  · simp [idle]
  intro q written
  cases c with
  | insert tx =>
    rcases allows with rfl | rfl | ⟨n,rfl | places⟩ | ⟨below,inside,rfl⟩
    · exact .inr (.inl (List.mem_singleton.mp written ▸ List.prefix_refl _))
    · exact .inr (.inl (List.mem_singleton.mp written ▸ List.prefix_append _ _))
    · exact .inl ⟨n,List.mem_singleton.mp written⟩
    · rcases places.region written with rfl | short
      · exact .inl ⟨n,rfl⟩
      · rcases List.prefix_concat_iff.mp short with rfl | above
        · exact .inr (.inl (document_in_folder tx.id .meta))
        · exact .inr (.inr above)
    · exact .inr (.inl (List.mem_singleton.mp written ▸ inside))
  | save tx | saveManifest tx =>
    obtain ⟨n,rfl | places⟩ := allows
    · exact .inl ⟨n,List.mem_singleton.mp written⟩
    · exact (places.region written).imp (fun same => ⟨n,same⟩) id
  | remove id =>
    obtain ⟨below,inside,rfl⟩ := allows
    exact List.mem_singleton.mp written ▸ inside
  | beginUpload id path =>
    obtain ⟨n,rfl⟩ := allows
    exact ⟨n,List.mem_singleton.mp written⟩
  | writeUpload u chunk =>
    obtain ⟨progress,rfl | rfl⟩ := allows <;> exact ⟨progress,List.mem_singleton.mp written⟩
  | commitUpload u expected => exact ⟨allows.1,allows.2.region written⟩
  | discardUpload u =>
    obtain rfl := allows
    exact List.mem_singleton.mp written
  | removeFile id path =>
    obtain ⟨below,first,_,second,rfl⟩ := allows
    exact List.mem_singleton.mp written ▸ ⟨first,second⟩
  | env | find | findIf | hashFile | openRead => exact absurd allows id

end Confide
