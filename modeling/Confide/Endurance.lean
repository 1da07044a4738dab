import Confide.Immutability

/-! What the store keeps to whatever fails: its two folders, temp names that are used once, and for
every transaction that has not expired a folder with its meta.json. -/
namespace Confide

open Resumption Resumption.Prog

variable {sha256 : Bytes → Sha256Digest} {opts : ServiceOptions} {env : Env} {pending : List PendingUpload} {op : Op}
  {w w' : World} {α : Type}

/-- A primitive that takes no folder away, and makes one only where there may be one. -/
structure Gentle (owned : TransactionId → Prop) (c : SysCall) : Prop where
  tmp : c ≠ .remove tmpDir
  top : c ≠ .remove transactionsDir
  folder : ∀ id, c ≠ .remove (transactionDir id)
  files : ∀ id, c ≠ .remove (filesDir id)
  made : ∀ id, transactionDir id ∈ c.makes → owned id

/-- One that writes no meta.json either, and brings back no temp name. -/
structure Harmless (owned : TransactionId → Prop) (c : SysCall) : Prop extends Gentle owned c where
  document : ∀ id, documentPath id .meta ∉ c.writes
  temps : ∀ id n, tmpPath id n ∉ c.makes

section Harmless

variable {owned : TransactionId → Prop} {owner : TransactionId} {c : SysCall} {n : Nat}

theorem harmless_idle (idle : c.writes = []) : Harmless owned c := by
  have none : c.makes = [] := by cases c <;> simp_all [SysCall.writes,SysCall.makes]
  have kept : ∀ path, c ≠ .remove path := by
    rintro path rfl
    simp [SysCall.writes] at idle
  exact ⟨⟨kept _,kept _,fun _ => kept _,fun _ => kept _,by simp [none]⟩,by simp [idle],by simp [none]⟩

theorem tmpPath_not_folder (id : TransactionId) (n : Nat) (id' : TransactionId) (q : Path) :
    transactionDir id' ++ q ≠ tmpPath id n := fun same => tmpPath_outside id' id n (same ▸ List.prefix_append _ _)

theorem gentle_tmp (only : c.writes = [tmpPath owner n]) : Gentle owned c := by
  have kept : ∀ path, path ≠ tmpPath owner n → c ≠ .remove path := by
    rintro path other rfl
    exact other (List.singleton_inj.mp only)
  have folder : ∀ id, transactionDir id ≠ tmpPath owner n := fun id => by simpa using tmpPath_not_folder owner n id []
  refine ⟨kept _ (by simp [tmpDir,tmpPath]),kept _ (by simp [transactionsDir,tmpDir,tmpPath]),fun id => kept _ (folder id),
    fun id => kept _ (tmpPath_not_folder _ _ _ _),fun id made => ?_⟩
  have written : transactionDir id ∈ c.writes := by
    cases c with
    | mkdir | create => exact made
    | rename => exact List.mem_cons_of_mem _ made
    | _ => exact absurd made (by simp [SysCall.makes])
  rw [only,List.mem_singleton] at written
  exact absurd written (folder id)

theorem harmless_tmp (only : c.writes = [tmpPath owner n]) (none : c.makes = []) : Harmless owned c := by
  refine ⟨gentle_tmp only,fun id written => ?_,by simp [none]⟩
  rw [only,List.mem_singleton] at written
  exact tmpPath_not_folder _ _ _ _ written

theorem document_not_above {id : TransactionId} {doc : Document} {q : Path} : ¬ documentPath id doc <+: filesDir owner ++ q := by
  intro short
  obtain rfl := transactionDir_apart ((document_in_folder id doc).trans short) (files_in_folder owner q)
  obtain ⟨rest,same⟩ := short
  rw [documentPath,filesDir,List.append_assoc,List.append_assoc,List.append_cancel_left_eq] at same
  cases doc <;> simp [Document.fileName] at same <;> exact absurd same.1 (by decide)

/-- What is put into a folder needs that folder only. -/
theorem Places.gentle {final : Path} (own : owned owner) (inside : transactionDir owner <+: final)
    (places : Places (tmpPath owner n) final c) : Gentle owned c := by
  have only : ∀ {id : TransactionId} {q : Path}, q <+: final → transactionDir id = q → owned id := by
    rintro id q short rfl
    exact transactionDir_apart short inside ▸ own
  cases places with
  | append chunk => exact gentle_tmp rfl
  | remove => exact gentle_tmp rfl
  | mkdir above =>
    exact ⟨nofun,nofun,nofun,nofun,fun id made => only (above.trans (List.dropLast_prefix _)) (List.mem_singleton.mp made)⟩
  | rename => exact ⟨nofun,nofun,nofun,nofun,fun id made => only (List.prefix_refl _) (List.mem_singleton.mp made)⟩

theorem Places.harmless {path : RelativePath} (own : owned owner)
    (places : Places (tmpPath owner n) (payloadPath owner path) c) : Harmless owned c := by
  refine ⟨places.gentle own (files_in_folder owner _),fun id written => ?_,fun id n' made => ?_⟩
  · rcases places.region written with tmp | short
    · exact tmpPath_not_folder _ _ _ _ tmp
    · exact document_not_above short
  · cases places with
    | append | remove => simp [SysCall.makes] at made
    | mkdir above =>
      rw [payloadPath_dropLast,filesDir,List.append_assoc] at above
      exact tmpPath_not_above _ _ _ _ (List.mem_singleton.mp made ▸ above)
    | rename => exact tmpPath_outside owner id n' (List.mem_singleton.mp made ▸ files_in_folder owner _)

theorem harmless_below {q : Path} (inside : filesDir owner <+: q) (other : q ≠ filesDir owner) :
    Harmless owned (.remove q) := by
  have deep : 3 < q.length := by
    refine Nat.lt_of_not_le fun short => other (inside.eq_of_length_le ?_).symm
    simpa [filesDir,transactionDir,transactionsDir] using short
  have kept : ∀ path : Path, path.length ≤ 3 → SysCall.remove q ≠ .remove path := by
    rintro path short same
    cases same
    omega
  refine ⟨⟨kept _ (by simp [tmpDir]),kept _ (by simp [transactionsDir]),
    fun id => kept _ (by simp [transactionDir,transactionsDir]),
    fun id => kept _ (by simp [filesDir,transactionDir,transactionsDir]),by simp [SysCall.makes]⟩,fun id written => ?_,
    by simp [SysCall.makes]⟩
  obtain ⟨rest,rfl⟩ := inside
  exact document_not_above (by rw [List.mem_singleton.mp written])

end Harmless

/-- What holds of the disk and the index whatever has failed. -/
structure Sturdy [BoostJson] (w : World) : Prop where
  tmp : w.disk.lookup tmpDir = some .directory
  top : w.disk.lookup transactionsDir = some .directory
  fresh : FreshTmp w
  files : ∀ id tx, w.index.lookup id = some tx → tx.state ≠ .expired → w.disk.lookup (filesDir id) = some .directory
  document : ∀ id tx, w.index.lookup id = some tx → tx.state ≠ .expired →
    w.disk.lookup (documentPath id .meta) = some (.file (encodeMeta tx))

theorem Sturdy.ready [BoostJson] (sturdy : Sturdy w) {id : TransactionId} {tx : Transaction} (known : w.index.lookup id = some tx)
    (current : tx.state ≠ .expired) : Ready w.disk id := ⟨sturdy.tmp,sturdy.files id tx known current⟩

section Kept

variable {owned : TransactionId → Prop} {p : Prog Sys α}

/-- What gentle primitives leave alone, wherever they are cut off. -/
theorem Makes.directory {allowed : SysCall → Prop} (makes : Makes allowed p) (env : Env) (fuel : Nat) {q : Path}
    (there : w.disk.lookup q = some .directory) (spared : ∀ c, allowed c → c ≠ .remove q) :
    (p.cut (Sys.handle env) fuel w).disk.lookup q = some .directory :=
  makes.cut env (fun w => w.disk.lookup q = some .directory)
    (fun c _ may there => handle_directory c there (spared c may)) fuel w there

theorem Makes.absent {allowed : SysCall → Prop} (makes : Makes allowed p) (env : Env) (fuel : Nat) {q : Path}
    (absent : w.disk.lookup q = none) (unmade : ∀ c, allowed c → q ∉ c.makes) :
    (p.cut (Sys.handle env) fuel w).disk.lookup q = none :=
  makes.cut env (fun w => w.disk.lookup q = none)
    (fun c _ may absent => handle_absent c absent (unmade c may)) fuel w absent

theorem Makes.document (makes : Makes (Harmless owned) p) (env : Env) (fuel : Nat) (id : TransactionId) :
    (p.cut (Sys.handle env) fuel w).disk.lookup (documentPath id .meta) = w.disk.lookup (documentPath id .meta) :=
  makes.cut env (fun w' => w'.disk.lookup (documentPath id .meta) = w.disk.lookup (documentPath id .meta))
    (fun c _ harmless same => (handle_lookup c (harmless.document id)).trans same) fuel w rfl

theorem exec_tmpCount (env : Env) (p : Prog Sys α) (w : World) : w.tmpCount ≤ (exec env p w).2.tmpCount := by
  refine run_invariant (Sys.handle env) (fun w' => w.tmpCount ≤ w'.tmpCount) (fun c w' count => count.trans ?_) p w
    (Nat.le_refl _)
  cases c with
  | env c => cases c <;> exact Nat.le_refl _
  | enter | indexSet | indexErase | indexReset => exact Nat.le_refl _
  | _ => exact (handle_still env _ (by trivial) w').tmpCount

theorem Makes.fresh (makes : Makes (Harmless owned) p) (env : Env) (fresh : FreshTmp w) : FreshTmp (exec env p w).2 := by
  have count := exec_tmpCount env p w
  obtain ⟨fuel,same⟩ := run_eq_cut (Sys.handle env) p w
  change p.cut (Sys.handle env) fuel w = (exec env p w).2 at same
  rw [← same] at count ⊢
  intro id n present
  refine Nat.lt_of_not_le fun large => present (makes.absent env fuel ?_ fun c harmless => harmless.temps id n)
  refine Classical.byContradiction fun used => ?_
  have := fresh id n used
  omega

theorem Sturdy.kept [BoostJson] (sturdy : Sturdy w) (makes : Makes (Harmless owned) p) (env : Env)
    (index : (exec env p w).2.index = w.index) : Sturdy (exec env p w).2 := by
  have fresh := makes.fresh env sturdy.fresh
  obtain ⟨fuel,same⟩ := run_eq_cut (Sys.handle env) p w
  change p.cut (Sys.handle env) fuel w = (exec env p w).2 at same
  rw [← same] at index fresh ⊢
  refine ⟨makes.directory env fuel sturdy.tmp fun c harmless => harmless.tmp,
    makes.directory env fuel sturdy.top fun c harmless => harmless.top,fresh,
    fun id tx known current => ?_,fun id tx known current => ?_⟩
  · rw [index] at known
    exact makes.directory env fuel (sturdy.files id tx known current) fun c harmless => harmless.files id
  · rw [index] at known
    exact (makes.document env fuel id).trans (sturdy.document id tx known current)

end Kept

/-- Nothing is done to a transaction that has expired but to remove it. -/
theorem Updates.current {tx tx' : Transaction} (updates : Updates sha256 opts env pending op tx tx') :
    tx.state ≠ .expired := by
  cases updates with
  | uploaded _ _ isOpen | erased _ isOpen | committed _ isOpen => simp [isOpen]
  | delivered sent => simp [sent]
  | retained _ _ _ current | marked _ current => exact current

/-- The calls that write documents, make or remove a folder, or use a new temp name. -/
def SvcCall.drafts : SvcCall → Bool
  | .insert _ | .save _ | .saveManifest _ | .remove _ | .beginUpload _ _ => true
  | _ => false

/-- The other calls are made of harmless primitives. -/
theorem May.harmless [BoostJson] {c : SvcCall} (may : May sha256 opts env pending op c w.index) (placed : ∀ p ∈ pending, Placed p)
    (other : c.drafts = false) :
    Makes (Harmless fun id => w.index.lookup id ≠ none) (implement sha256 c) := by
  refine Within.mono (implement_makes sha256 c) fun s made => ?_
  rcases made with idle | allows
  · exact harmless_idle idle
  cases c with
  | insert | save | saveManifest | remove | beginUpload => contradiction
  | writeUpload u chunk =>
    obtain ⟨k,p,_,here,rfl⟩ := may
    obtain ⟨⟨n,tmp⟩,_⟩ := placed p (List.mem_of_getElem? here)
    obtain ⟨_,rfl | rfl⟩ := allows <;> exact harmless_tmp (congrArg (fun q => [q]) tmp) rfl
  | commitUpload u expected =>
    obtain ⟨k,p,tx,_,here,rfl,known,_⟩ := may
    obtain ⟨⟨n,tmp⟩,final⟩ := placed p (List.mem_of_getElem? here)
    rw [SvcCall.allows,tmp,final] at allows
    exact allows.2.harmless (by rw [known]; simp)
  | discardUpload u =>
    obtain ⟨k,p,_,here,rfl,_⟩ := may
    obtain ⟨⟨n,tmp⟩,_⟩ := placed p (List.mem_of_getElem? here)
    obtain rfl := allows
    exact harmless_tmp (congrArg (fun q => [q]) tmp) rfl
  | removeFile id path =>
    obtain ⟨q,inside,other,_,rfl⟩ := allows
    exact harmless_below inside other
  | env | find | findIf | hashFile | openRead => exact absurd allows id

theorem document_not_unused (id : TransactionId) (doc : Document) : ¬ w.Unused (documentPath id doc) := by
  rintro ⟨_,_,_,same⟩
  exact tmpPath_not_folder _ _ _ _ same

theorem files_not_unused (id : TransactionId) : ¬ w.Unused (filesDir id) := by
  rintro ⟨_,_,_,same⟩
  exact tmpPath_not_folder _ _ _ _ same

theorem top_not_unused (name : Bytes) : ¬ w.Unused [name] := by
  rintro ⟨_,_,_,same⟩
  simp [tmpPath,tmpDir] at same

theorem top_not_inside (id : TransactionId) (name : Bytes) : ¬ transactionDir id <+: [name] := by
  intro above
  have := above.length_le
  simp [transactionDir,transactionsDir] at this

/-- A change that keeps to one folder and to new temp files needs looking at in that folder only. -/
theorem Sturdy.inside [BoostJson] (sturdy : Sturdy w) (id : TransactionId) (fresh : FreshTmp w')
    (index : ∀ id', id' ≠ id → w'.index.lookup id' = w.index.lookup id')
    (frame : ∀ q, ¬ transactionDir id <+: q → ¬ w.Unused q → w'.disk.lookup q = w.disk.lookup q)
    (here : ∀ tx, w'.index.lookup id = some tx → tx.state ≠ .expired →
      w'.disk.lookup (filesDir id) = some .directory ∧ w'.disk.lookup (documentPath id .meta) = some (.file (encodeMeta tx))) :
    Sturdy w' := by
  have apart : ∀ {id' : TransactionId} {q : Path}, id' ≠ id → transactionDir id' <+: q → ¬ transactionDir id <+: q :=
    fun other first second => other (transactionDir_apart first second)
  refine ⟨(frame _ (top_not_inside _ _) (top_not_unused _)).trans sturdy.tmp,
    (frame _ (top_not_inside _ _) (top_not_unused _)).trans sturdy.top,fresh,fun id' tx known current => ?_,
    fun id' tx known current => ?_⟩
  · by_cases same : id' = id
    · subst same
      exact (here tx known current).1
    · rw [index id' same] at known
      exact (frame _ (apart same (List.prefix_append _ _)) (files_not_unused _)).trans (sturdy.files id' tx known current)
  · by_cases same : id' = id
    · subst same
      exact (here tx known current).2
    · rw [index id' same] at known
      exact (frame _ (apart same (document_in_folder _ _)) (document_not_unused _ _)).trans
        (sturdy.document id' tx known current)

theorem files_not_document (id : TransactionId) (doc : Document) : filesDir id ≠ documentPath id doc := fun same =>
  document_apart [] (by simpa using same.symm)

variable [BoostJson]

theorem Sturdy.insert (sturdy : Sturdy w) (env : Env) (tx : Transaction) : Sturdy (Svc.handle sha256 env (.insert tx) w).2 := by
  have effect := insert_effect sha256 env tx w sturdy.fresh
  by_cases ok : (Svc.handle sha256 env (.insert tx) w).1 = .ok ()
  · obtain ⟨_,index,_,disk⟩ := effect.done ok
    refine sturdy.inside tx.id effect.fresh (fun id' other => ?_) (fun q outside _ => ?_) fun tx' known _ => ?_
    · rw [index,Finmap.lookup_insert_of_ne _ other]
    · rw [disk,if_neg (by rintro rfl; exact outside (document_in_folder tx.id .meta)),if_neg]
      rintro (rfl | rfl)
      · exact outside (List.prefix_refl _)
      · exact outside (List.prefix_append _ _)
    · rw [index,Finmap.lookup_insert] at known
      cases known
      rw [disk,disk,if_neg (files_not_document _ _),if_pos (.inr rfl),if_pos rfl]
      exact ⟨rfl,rfl⟩
  · obtain ⟨index,frame⟩ := effect.failed ok
    refine sturdy.inside tx.id effect.fresh (fun id' _ => by rw [index]) frame fun tx' known current => ?_
    rw [index] at known
    rw [(effect.known (by rw [known]; simp)).2]
    exact ⟨sturdy.files _ _ known current,sturdy.document _ _ known current⟩

theorem Sturdy.save {tx : Transaction} (sturdy : Sturdy w) (env : Env) (tx' : Transaction)
    (known : w.index.lookup tx'.id = some tx) (current : tx.state ≠ .expired) :
    Sturdy (Svc.handle sha256 env (.save tx') w).2 := by
  have effect := save_effect sha256 env tx' w sturdy.fresh
  by_cases ok : (Svc.handle sha256 env (.save tx') w).1 = .ok ()
  · have disk := effect.document.done ok
    obtain ⟨_,index⟩ := effect.done ok
    refine sturdy.inside tx'.id effect.document.fresh (fun id' other => ?_) (fun q outside _ => ?_)
      fun tx'' found _ => ?_
    · rw [index,Finmap.lookup_insert_of_ne _ other]
    · rw [disk,if_neg (by rintro rfl; exact outside (document_in_folder tx'.id .meta))]
    · rw [index,Finmap.lookup_insert] at found
      cases found
      rw [disk,disk,if_neg (files_not_document _ _),if_pos rfl]
      exact ⟨sturdy.files _ _ known current,rfl⟩
  · have index := effect.failed ok
    have frame := effect.document.failed ok
    refine sturdy.inside tx'.id effect.document.fresh (fun id' _ => by rw [index]) (fun q _ => frame q)
      fun tx'' found _ => ?_
    rw [index,known] at found
    cases found
    rw [frame _ (files_not_unused _),frame _ (document_not_unused _ _)]
    exact ⟨sturdy.files _ _ known current,sturdy.document _ _ known current⟩

theorem Sturdy.saveManifest (sturdy : Sturdy w) (env : Env) (tx : Transaction) :
    Sturdy (Svc.handle sha256 env (.saveManifest tx) w).2 := by
  obtain ⟨effect,index,_⟩ := saveManifest_effect sha256 env tx w sturdy.fresh
  have frame : ∀ q, q ≠ documentPath tx.id .manifest → ¬ w.Unused q →
      (Svc.handle sha256 env (.saveManifest tx) w).2.disk.lookup q = w.disk.lookup q := by
    intro q other used
    by_cases ok : (Svc.handle sha256 env (.saveManifest tx) w).1 = .ok ()
    · rw [effect.done ok,if_neg other]
    · exact effect.failed ok q used
  refine sturdy.inside tx.id effect.fresh (fun id' _ => by rw [index])
    (fun q outside => frame q (by rintro rfl; exact outside (document_in_folder tx.id .manifest)))
    fun tx' known current => ?_
  rw [index] at known
  rw [frame _ (files_not_document _ _) (files_not_unused _),
    frame _ (fun same => by cases documentPath_injective same) (document_not_unused _ _)]
  exact ⟨sturdy.files _ _ known current,sturdy.document _ _ known current⟩

theorem Sturdy.remove {id : TransactionId} {tx : Transaction} (sturdy : Sturdy w) (env : Env)
    (known : w.index.lookup id = some tx) (expired : tx.state = .expired) : Sturdy (Svc.handle sha256 env (.remove id) w).2 := by
  have effect := remove_effect sha256 env id w sturdy.fresh
  have frame : ∀ q, ¬ transactionDir id <+: q → ¬ w.Unused q →
      (Svc.handle sha256 env (.remove id) w).2.disk.lookup q = w.disk.lookup q := fun q outside _ => effect.outside outside
  by_cases ok : (Svc.handle sha256 env (.remove id) w).1 = .ok ()
  · obtain ⟨index,_⟩ := effect.done ok
    refine sturdy.inside id effect.fresh (fun id' other => by rw [index,Finmap.lookup_erase_ne other]) frame
      fun tx' found _ => ?_
    rw [index,Finmap.lookup_erase] at found
    contradiction
  · have index := (effect.failed ok).1
    refine sturdy.inside id effect.fresh (fun id' _ => by rw [index]) frame fun tx' found current => ?_
    rw [index,known] at found
    cases found
    exact absurd expired current

theorem beginUpload_fresh (fresh : FreshTmp w) (env : Env) (id : TransactionId) (path : RelativePath) :
    FreshTmp (Svc.handle sha256 env (.beginUpload id path) w).2 := by
  obtain ⟨unindexed,⟨_,_,count,disk⟩ | ⟨_,disk⟩⟩ := beginUpload_effect sha256 env id path w fresh
  · have spent : ∀ id' n, tmpPath id' n ≠ tmpPath id w.tmpCount →
        (Svc.handle sha256 env (.beginUpload id path) w).2.disk.lookup (tmpPath id' n) = w.disk.lookup (tmpPath id' n) :=
      fun id' n different => by rw [disk,if_neg different]
    exact fresh.kept spent unindexed.count (by omega)
  · exact fresh.same unindexed.count fun id n => by rw [disk]

theorem Sturdy.beginUpload (sturdy : Sturdy w) (env : Env) (id : TransactionId) (path : RelativePath) :
    Sturdy (Svc.handle sha256 env (.beginUpload id path) w).2 := by
  obtain ⟨unindexed,⟨_,_,count,disk⟩ | ⟨_,disk⟩⟩ := beginUpload_effect sha256 env id path w sturdy.fresh
  · have other : ∀ q, ¬ w.Unused q → (Svc.handle sha256 env (.beginUpload id path) w).2.disk.lookup q = w.disk.lookup q := by
      intro q used
      rw [disk,if_neg]
      rintro rfl
      exact used (w.unused_next id)
    refine sturdy.inside id (beginUpload_fresh sturdy.fresh env id path) (fun id' _ => by rw [unindexed.index])
      (fun q _ => other q) fun tx known current => ?_
    rw [unindexed.index] at known
    rw [other _ (files_not_unused _),other _ (document_not_unused _ _)]
    exact ⟨sturdy.files _ _ known current,sturdy.document _ _ known current⟩
  · refine sturdy.inside id (beginUpload_fresh sturdy.fresh env id path)
      (fun id' _ => by rw [unindexed.index]) (fun q _ _ => by rw [disk]) fun tx known current => ?_
    rw [unindexed.index] at known
    rw [disk]
    exact ⟨sturdy.files _ _ known current,sturdy.document _ _ known current⟩

theorem May.fresh {c : SvcCall} (may : May sha256 opts env pending op c w.index) (placed : ∀ p ∈ pending, Placed p)
    (fresh : FreshTmp w) : FreshTmp (Svc.handle sha256 env c w).2 := by
  cases drafts : c.drafts with
  | false => exact (may.harmless placed drafts).fresh env fresh
  | true =>
    cases c with
    | insert tx => exact (insert_effect sha256 env tx w fresh).fresh
    | save tx => exact (save_effect sha256 env tx w fresh).document.fresh
    | saveManifest tx => exact (saveManifest_effect sha256 env tx w fresh).1.fresh
    | remove id => exact (remove_effect sha256 env id w fresh).fresh
    | beginUpload id path => exact beginUpload_fresh fresh env id path
    | _ => contradiction

/-- Whatever fails, every call that an operation makes keeps to it. -/
theorem May.sturdy {c : SvcCall} (may : May sha256 opts env pending op c w.index) (placed : ∀ p ∈ pending, Placed p)
    (sturdy : Sturdy w) : Sturdy (Svc.handle sha256 env c w).2 := by
  cases drafts : c.drafts with
  | false =>
    refine sturdy.kept (may.harmless placed drafts) env ?_
    have effect := handle_effect sha256 env w c
    cases c with
    | insert | save | saveManifest | remove | beginUpload => contradiction
    | env | find | writeUpload | commitUpload | discardUpload => exact effect.1
    | findIf | hashFile | removeFile | openRead => exact effect
  | true =>
    cases c with
    | insert tx => exact sturdy.insert env tx
    | save tx' =>
      obtain ⟨tx,known,change⟩ := may
      exact sturdy.save env tx' (change.named ▸ known) change.current
    | saveManifest tx => exact sturdy.saveManifest env tx
    | remove id =>
      obtain ⟨_,tx,known,expired⟩ := may
      exact sturdy.remove env known expired
    | beginUpload id path => exact sturdy.beginUpload env id path
    | _ => contradiction

theorem step_sturdy {s : Server} (orderly : Orderly s) (sturdy : Sturdy s.world) (op : Op) :
    Sturdy (s.step sha256 opts env op).world := by
  have may := (step_takes sha256 opts env orderly.keyed op).2
  exact (calls_invariant (Svc.handle sha256 env) (fun c w => May sha256 opts env s.pending op c w.index) Sturdy
    (fun c w may sturdy => may.sturdy orderly.placed sturdy) _ _ may sturdy).1

theorem empty_sturdy : Sturdy Server.empty.world := by
  refine ⟨by decide,by decide,(empty_healthy fun _ => Sample.sha256 []).fresh,nofun,nofun⟩

end Confide
