import Confide.Endurance
import Confide.Reload

/-! A process that stops in the midst of an operation, and the one started over its storage
directory: what the new one finds there. -/
namespace Confide

open Bytes Resumption Resumption.Prog DirTree

/-- The folder of a transaction is there, and its meta.json is not. -/
def Bare (disk : Disk) (id : TransactionId) : Prop :=
  disk.lookup (transactionDir id) ≠ none ∧ disk.lookup (documentPath id .meta) = none

/-- Such a folder stays behind: a primitive fails that was to make a part of it, or to take one away. -/
def Strands (env : Env) (entry : SysCall × World) : Prop :=
  env.fails entry.2.stage entry.2.tick = true ∧
    ∃ id q, transactionDir id <+: q ∧ (entry.1 = .mkdir q ∨ entry.1 = .remove q) ∧ Bare entry.2.disk id

/-- The calls that make or take away a folder. -/
def SvcCall.sweeps : SvcCall → Bool
  | .insert _ | .remove _ => true
  | _ => false

section Lives

variable (sha256 : Bytes → Sha256Digest) (opts : ServiceOptions)

variable [BoostJson]

/-- The primitives of an operation, each with the machine it is used on. -/
def Server.primitives (env : Env) (s : Server) (op : Op) : List (SysCall × World) :=
  ((op.program opts s.pending).interpret (implement sha256)).calls (Sys.handle env) s.world

/-- The machine at the moment the process stops, after so many primitives of an operation. -/
def Server.crashed (env : Env) (s : Server) (op : Op) (fuel : Nat) : World :=
  ((op.program opts s.pending).interpret (implement sha256)).cut (Sys.handle env) fuel s.world

def Server.stopsIn (env : Env) (s : Server) (op : Op) (fuel : Nat) : Option SvcCall :=
  (op.program opts s.pending).during (implement sha256) (Sys.handle env) fuel s.world

/-- An operation is carried through, or the process stops in its midst and is started again. -/
inductive Life where
  | serve (env : Env) (op : Op)
  | crash (env : Env) (op : Op) (fuel : Nat) (boot : Env)

def Life.env : Life → Env
  | .serve env _ | .crash env _ _ _ => env

def Life.op : Life → Op
  | .serve _ op | .crash _ op _ _ => op

def Server.live (s : Server) : Life → Server
  | .serve env op => s.step sha256 opts env op
  | .crash env op fuel boot => ⟨(exec boot restart.run (World.boot (s.crashed sha256 opts env op fuel).disk)).2,[]⟩

/-- Nothing fails while the process is started again. -/
def Life.Starts : Life → Prop
  | .serve _ _ => True
  | .crash _ _ _ boot => boot.Clear .openStore

/-- Every document the operation writes is read back as it was. -/
def Server.WritesLegibly (s : Server) (life : Life) : Prop :=
  ∀ call ∈ s.calls sha256 opts life.env life.op, call.1.savesUnreadable = false

/-- No folder is left without its meta.json: not by a failure, and not by the process that stops. -/
def Server.KeepsFolders (s : Server) : Life → Prop
  | .serve env op => ∀ entry ∈ s.primitives sha256 opts env op, ¬ Strands env entry
  | .crash env op fuel _ => (∀ entry ∈ (s.primitives sha256 opts env op).take fuel, ¬ Strands env entry) ∧
    ∀ id, ¬ Bare (s.crashed sha256 opts env op fuel).disk id

end Lives

variable {sha256 : Bytes → Sha256Digest} {opts : ServiceOptions} {env : Env} {pending : List PendingUpload} {op : Op}
  {w w' : World} {s : Server} {id : TransactionId} {tx tx' : Transaction} {disk disk' : Disk}

/-- The folder of a transaction, with its meta.json. -/
structure Stored [BoostJson] (disk : Disk) (id : TransactionId) (tx : Transaction) : Prop where
  document : disk.lookup (documentPath id .meta) = some (.file (encodeMeta tx))
  files : tx.state ≠ .expired → disk.lookup (filesDir id) = some .directory

theorem Stored.folder [BoostJson] (stored : Stored disk id tx) : disk.lookup (transactionDir id) = some .directory :=
  disk.directory_above _ [Document.fileName .meta] (by rw [← documentPath,stored.document]; simp) (by simp)

theorem absent_document (absent : disk.lookup (transactionDir id) = none) : disk.lookup (documentPath id .meta) = none :=
  Tree.nothing_below (by rw [absent]; simp) _ (by simp)

theorem absent_of_not_bare (whole : ¬ Bare disk id) (bare : disk.lookup (documentPath id .meta) = none) :
    disk.lookup (transactionDir id) = none :=
  Classical.byContradiction fun present => whole ⟨present,bare⟩

section

variable [BoostJson]

/-- What is on disk of a transaction that the index knows, or does not: what it knows, what is just being saved, or nothing,
also when the transaction is just being removed. -/
inductive Kept (saving : Transaction → Prop) (leaving : TransactionId → Prop) (disk : Disk) (id : TransactionId) :
    Option Transaction → Prop
  | stored {tx : Transaction} (there : Stored disk id tx) : Kept saving leaving disk id (some tx)
  | ahead {tx : Transaction} {known : Option Transaction} (being : saving tx) (named : tx.id = id)
    (there : Stored disk id tx) : Kept saving leaving disk id known
  | gone {known : Option Transaction} (unknown : known = none ∨ leaving id)
    (absent : disk.lookup (transactionDir id) = none) : Kept saving leaving disk id known

abbrev Nobody {α : Type} : α → Prop := fun _ => False

section Kept

variable {saving : Transaction → Prop} {leaving : TransactionId → Prop} {known : Option Transaction}

theorem Kept.mono (kept : Kept Nobody Nobody disk id known)
    (document : disk'.lookup (documentPath id .meta) = disk.lookup (documentPath id .meta))
    (files : disk.lookup (filesDir id) = some .directory → disk'.lookup (filesDir id) = some .directory)
    (folder : disk.lookup (transactionDir id) = none → disk'.lookup (transactionDir id) = none) :
    Kept saving leaving disk' id known := by
  cases kept with
  | stored there => exact .stored ⟨document.trans there.document,fun current => files (there.files current)⟩
  | ahead being => exact being.elim
  | gone unknown absent => exact .gone (.inl (unknown.resolve_right fun none => none)) (folder absent)

end Kept

structure Recoverable (saving : Transaction → Prop) (leaving : TransactionId → Prop) (w : World) : Prop where
  top : w.disk.lookup transactionsDir = some .directory
  kept : ∀ id, Kept saving leaving w.disk id (w.index.lookup id)

structure Tidy (w : World) : Prop where
  sturdy : Sturdy w
  whole : Recoverable Nobody Nobody w

theorem Tidy.stored (tidy : Tidy w) (known : w.index.lookup id = some tx) : Stored w.disk id tx := by
  have kept := tidy.whole.kept id
  rw [known] at kept
  cases kept with
  | stored there => exact there
  | ahead being => exact being.elim
  | gone unknown => simp at unknown

theorem Tidy.absent (tidy : Tidy w) (unknown : w.index.lookup id = none) : w.disk.lookup (transactionDir id) = none := by
  have kept := tidy.whole.kept id
  rw [unknown] at kept
  cases kept with
  | ahead being => exact being.elim
  | gone _ absent => exact absent

end

theorem folder_not_unused (id : TransactionId) : ¬ w.Unused (transactionDir id) := by
  rintro ⟨_,n,_,same⟩
  exact tmpPath_not_folder _ n id [] (by simpa using same)

variable {saving : Transaction → Prop} {leaving : TransactionId → Prop}

/-- A change that keeps to one folder and to new temp files needs looking at in that folder only. -/
theorem Tidy.inside [BoostJson] (tidy : Tidy w) (id : TransactionId) (top : w'.disk.lookup transactionsDir = some .directory)
    (index : ∀ id', id' ≠ id → w'.index.lookup id' = w.index.lookup id')
    (frame : ∀ {id' q}, id' ≠ id → transactionDir id' <+: q → ¬ w.Unused q → w'.disk.lookup q = w.disk.lookup q)
    (here : Kept saving leaving w'.disk id (w'.index.lookup id)) : Recoverable saving leaving w' := by
  refine ⟨top,fun id' => ?_⟩
  by_cases same : id' = id
  · exact same ▸ here
  · rw [index id' same]
    exact (tidy.whole.kept id').mono (frame same (document_in_folder _ _) (document_not_unused _ _))
      (frame same (List.prefix_append _ _) (files_not_unused _)).trans
      (frame same (List.prefix_refl _) (folder_not_unused _)).trans

variable {id' : TransactionId} {q : Path}

theorem outside_frame (outside : ∀ q, ¬ transactionDir id <+: q → ¬ w.Unused q → w'.disk.lookup q = w.disk.lookup q)
    (other : id' ≠ id) (inside : transactionDir id' <+: q) (used : ¬ w.Unused q) : w'.disk.lookup q = w.disk.lookup q :=
  outside q (fun here => other (transactionDir_apart inside here)) used

abbrev Unstranded {α : Type} (env : Env) (p : Prog Sys α) (w : World) : Prop :=
  ∀ entry ∈ p.calls (Sys.handle env) w, ¬ Strands env entry

variable {α : Type} {p : Prog Sys α}

theorem Unstranded.clears (unstranded : Unstranded env p w)
    (inside : Makes (fun c => ∀ q, c = .remove q → transactionDir id <+: q) p) : Clears env (Bare · id) p w := by
  intro q w' made bare
  by_contra fails
  exact unstranded _ made ⟨by simpa using fails,id,q,inside env w _ made q rfl,.inr rfl,bare⟩

theorem removeTransaction_inside (id : TransactionId) :
    Makes (fun c => ∀ q, c = .remove q → transactionDir id <+: q) (FileStore.removeTransaction id).run :=
  removeTransaction_makes (fun c idle q same => by rw [same] at idle; cases idle) fun q inside q' same => by
    cases same
    exact inside

def claim (tx : Transaction) : SysM Unit := do
  call (.enter .insert)
  let known : Option Transaction ← call (.indexFind tx.id)
  refuse known.isSome ⟨.conflict,ascii "transaction " ++ tx.id.value ++ ascii " exists"⟩
  FileStore.createTransaction tx.id

/-- Its document is written, or the folder is taken away again. -/
def fill [BoostJson] (sha256 : Bytes → Sha256Digest) (tx : Transaction) : SysM Unit := do
  let written ← ExceptT.lift (FileStore.writeDocument sha256 tx.id .meta (encodeMeta tx)).run
  match written with
  | .error e =>
    let _removed ← ExceptT.lift (FileStore.removeTransaction tx.id).run
    throw e
  | .ok _ => pure ()

theorem insert_eq [BoostJson] (sha256 : Bytes → Sha256Digest) (tx : Transaction) :
    TransactionRepository.insert sha256 tx = (claim tx >>= fun _ => fill sha256 tx) >>= fun _ => call (.indexSet tx) := by
  simp only [TransactionRepository.insert,claim,fill,LawfulMonad.bind_assoc]
  iterate 5 (congr 1; funext written)
  cases written <;> simp

theorem claim_run (unknown : w.index.lookup tx.id = none) :
    exec env (claim tx).run w = exec env (FileStore.createTransaction tx.id).run (w.enter .insert) ∧
      (claim tx).run.calls (Sys.handle env) w = (.enter .insert,w) :: (.indexFind tx.id,w.enter .insert) ::
        (FileStore.createTransaction tx.id).run.calls (Sys.handle env) (w.enter .insert) := by
  unfold claim
  constructor
  · change exec env (ExceptT.run (refuse (w.index.lookup tx.id).isSome _ >>= _)) (w.enter .insert) = _
    rw [unknown]
    rfl
  · change _ :: _ :: Prog.calls (Sys.handle env) (ExceptT.run (refuse (w.index.lookup tx.id).isSome _ >>= _))
      (w.enter .insert) = _
    rw [unknown]
    rfl

theorem createTransaction_calls (made : (w.mkdir env (transactionDir id)).1 = .created) :
    (SysCall.mkdir (filesDir id),(w.mkdir env (transactionDir id)).2) ∈
      (FileStore.createTransaction id).run.calls (Sys.handle env) w := by
  unfold FileStore.createTransaction
  refine List.mem_cons_of_mem _ ?_
  change _ ∈ Prog.calls (Sys.handle env) (ExceptT.bindCont _ (Except.ok (w.mkdir env (transactionDir id)).1)) _
  rw [made]
  exact List.mem_cons_self ..

theorem createTransaction_bare (free : w.disk.lookup (transactionDir id) = none)
    (unstranded : Unstranded env (FileStore.createTransaction id).run w) :
    Leads (Sys.handle env) (FileStore.createTransaction id) w fun result w' =>
      result = .ok () ∨ w'.disk.lookup (transactionDir id) = none := by
  have entry := fun made => unstranded _ (@createTransaction_calls env w id made)
  have first := mkdir_spec env w (transactionDir id)
  unfold FileStore.createTransaction
  simp only [call_eq,leads_exec_bind,exec_mkdir]
  generalize w.mkdir env (transactionDir id) = outcome at entry first
  obtain ⟨folder,w₁⟩ := outcome
  dsimp only at entry first ⊢
  rcases first with ⟨rfl,made⟩ | ⟨other,same,_⟩
  · obtain ⟨_,disk₁⟩ := Tree.mkdir_lookup made
    have there : w₁.disk.lookup (transactionDir id) = some .directory := by rw [disk₁,if_pos rfl]
    have below : ∀ name, w₁.disk.lookup (transactionDir id ++ [name]) = none := fun name => by
      rw [disk₁,if_neg (by simp)]
      exact Tree.nothing_below (by rw [free]; simp) _ (by simp)
    have works : env.fails w₁.stage w₁.tick = false := by
      by_contra fails
      exact entry rfl ⟨by simpa using fails,id,filesDir id,List.prefix_append _ _,.inl rfl,by simp [there],below _⟩
    have second := mkdir_spec env w₁ (filesDir id)
    rw [filesDir,below,List.dropLast_concat,there] at second
    simp only [leads_exec_bind,exec_mkdir]
    rw [leads_exec,orIo,exec_refuse,filesDir]
    generalize w₁.mkdir env (transactionDir id ++ [ascii "files"]) = outcome at second ⊢
    obtain ⟨files,w₂⟩ := outcome
    rcases second with ⟨rfl,_⟩ | ⟨_,_,_,clash,failed⟩
    · exact .inl rfl
    · cases files with
      | created | present => exact .inl rfl
      | clash => obtain ⟨content,bad | bad⟩ := clash rfl <;> simp at bad
      | failed => exact absurd (failed rfl works).2 (by simp)
  · cases folder with
    | created => exact absurd rfl other
    | present | clash | failed => exact leads_throw.mpr (.inr (by rw [same]; exact free))

section

variable [BoostJson]

theorem insert_bare (fresh : FreshTmp w) (unstranded : Unstranded env (TransactionRepository.insert sha256 tx).run w)
    (unknown : w.index.lookup tx.id = none) (free : w.disk.lookup (transactionDir tx.id) = none) :
    ¬ Bare (Svc.handle sha256 env (.insert tx) w).2.disk tx.id := by
  rw [Unstranded,insert_eq,calls_exceptT_bind,calls_exceptT_bind,(claim_run unknown).2] at unstranded
  simp only [List.forall_mem_append,List.cons_append,List.forall_mem_cons] at unstranded
  obtain ⟨_,_,⟨creates,fills⟩,_⟩ := unstranded
  have created := createTransaction_spec env tx.id (w.enter .insert)
  have still := exec_still env (createTransaction_quiet tx.id) (w.enter .insert)
  have bare := @createTransaction_bare env (w.enter .insert) tx.id free creates
  change Leads (Sys.handle env) (TransactionRepository.insert sha256 tx) w fun _ w' => ¬ Bare w'.disk tx.id
  rw [insert_eq,leads_bind,leads_bind,leads_exec,(claim_run unknown).1]
  rw [leads_exec] at created bare
  rw [show (claim tx).run.run (Sys.handle env) w = _ from (claim_run unknown).1] at fills
  generalize exec env (FileStore.createTransaction tx.id).run (w.enter .insert) = outcome at created still bare fills
  obtain ⟨result,w₁⟩ := outcome
  dsimp only at created still bare fills
  rcases created with ⟨rfl,_,disk₁⟩ | ⟨e,rfl,_⟩
  swap
  · exact fun stays => stays.1 (bare.resolve_left (by simp))
  have fresh₁ : FreshTmp w₁ := fresh.same still.tmpCount fun id n => created_elsewhere disk₁ (tmpPath_outside _ _ _)
  have written := writeDocument_spec sha256 env tx.id .meta (encodeMeta tx) w₁ fresh₁
  unfold fill at fills ⊢
  rw [ExceptT.run_bind_lift,calls_bind,List.forall_mem_append] at fills
  have cleans := fills.2
  dsimp only
  rw [leads_exec_bind]
  rw [leads_exec] at written
  rw [show Prog.run _ _ _ = exec env (FileStore.writeDocument sha256 tx.id .meta (encodeMeta tx)).run w₁ from rfl] at cleans
  generalize exec env (FileStore.writeDocument sha256 tx.id .meta (encodeMeta tx)).run w₁ = outcome at written cleans ⊢
  obtain ⟨result,w₂⟩ := outcome
  dsimp only at written cleans ⊢
  obtain ⟨_,⟨rfl,disk₂⟩ | ⟨e,rfl,_,_⟩⟩ := written
  · refine leads_pure.mpr fun stays => ?_
    have document := stays.2
    change w₂.disk.lookup _ = none at document
    rw [disk₂,if_pos rfl] at document
    cases document
  · rw [ExceptT.run_bind_lift,calls_bind,List.forall_mem_append] at cleans
    obtain ⟨frame,gone,_,clears⟩ := leads_exec.mp (removeTransaction_spec env tx.id w₂)
    rw [leads_exec_bind]
    generalize exec env (FileStore.removeTransaction tx.id).run w₂ = outcome at frame gone clears
    obtain ⟨result,w₃⟩ := outcome
    refine leads_throw.mpr fun stays => ?_
    by_cases there : w₂.disk.lookup (transactionDir tx.id) = none
    · exact stays.1 ((frame _).elim (fun same => same.trans there) And.right)
    · have cleared := clears (Bare · tx.id) (Unstranded.clears cleans.1 (removeTransaction_inside tx.id)) there
      rcases cleared with ok | whole
      · exact stays.1 (gone ok _ (List.prefix_refl _))
      · exact whole stays

theorem remove_bare (fresh : FreshTmp w) (unstranded : Unstranded env (TransactionRepository.remove id).run w)
    (there : w.disk.lookup (transactionDir id) ≠ none) : ¬ Bare (Svc.handle sha256 env (.remove id) w).2.disk id := by
  have effect := remove_effect sha256 env id w fresh
  have inside : Makes (fun c => ∀ q, c = .remove q → transactionDir id <+: q) (TransactionRepository.remove id).run :=
    Within.exceptT_bind (makes_call (by simp)) fun _ =>
      Within.exceptT_bind (removeTransaction_inside id) fun _ => makes_call (by simp)
  rcases effect.clears (Bare · id) (unstranded.clears inside) there with ok | whole
  · exact fun stays => stays.1 ((effect.done ok).2 _ (List.prefix_refl _))
  · exact whole

theorem Tidy.insert (tidy : Tidy w) (unstranded : Unstranded env (TransactionRepository.insert sha256 tx).run w) :
    Recoverable Nobody Nobody (Svc.handle sha256 env (.insert tx) w).2 := by
  have effect := insert_effect sha256 env tx w tidy.sturdy.fresh
  by_cases ok : (Svc.handle sha256 env (.insert tx) w).1 = .ok ()
  · obtain ⟨_,index,_,disk⟩ := effect.done ok
    have outside : ∀ q, ¬ transactionDir tx.id <+: q → ¬ w.Unused q →
        (Svc.handle sha256 env (.insert tx) w).2.disk.lookup q = w.disk.lookup q := by
      intro q outside _
      rw [disk,if_neg (by rintro rfl; exact outside (document_in_folder _ _)),if_neg]
      rintro (rfl | rfl)
      · exact outside (List.prefix_refl _)
      · exact outside (List.prefix_append _ _)
    refine tidy.inside tx.id ((outside _ (top_not_inside _ _) (top_not_unused _)).trans tidy.whole.top)
      (fun id other => by rw [index,Finmap.lookup_insert_of_ne _ other]) (outside_frame outside) ?_
    rw [index,Finmap.lookup_insert]
    exact .stored ⟨by rw [disk,if_pos rfl],fun _ => by rw [disk,if_neg (files_not_document _ _),if_pos (.inr rfl)]⟩
  · obtain ⟨index,outside⟩ := effect.failed ok
    refine tidy.inside tx.id ((outside _ (top_not_inside _ _) (top_not_unused _)).trans tidy.whole.top)
      (fun _ _ => by rw [index]) (outside_frame outside) ?_
    rw [index]
    cases known : w.index.lookup tx.id with
    | some old =>
      rw [(effect.known (by simp [known])).2]
      exact .stored (tidy.stored known)
    | none =>
      have free := tidy.absent known
      refine .gone (.inl rfl) (absent_of_not_bare (insert_bare tidy.sturdy.fresh unstranded known free) ?_)
      rw [effect.document ok]
      exact absent_document free

theorem Tidy.save (tidy : Tidy w) (known : w.index.lookup tx'.id = some tx) (current : tx.state ≠ .expired) :
    Recoverable Nobody Nobody (Svc.handle sha256 env (.save tx') w).2 := by
  have effect := save_effect sha256 env tx' w tidy.sturdy.fresh
  have stored := tidy.stored known
  by_cases ok : (Svc.handle sha256 env (.save tx') w).1 = .ok ()
  · have disk := effect.document.done ok
    obtain ⟨_,index⟩ := effect.done ok
    have outside : ∀ q, ¬ transactionDir tx'.id <+: q → ¬ w.Unused q →
        (Svc.handle sha256 env (.save tx') w).2.disk.lookup q = w.disk.lookup q := by
      intro q outside _
      rw [disk,if_neg (by rintro rfl; exact outside (document_in_folder _ _))]
    refine tidy.inside tx'.id ((outside _ (top_not_inside _ _) (top_not_unused _)).trans tidy.whole.top)
      (fun id other => by rw [index,Finmap.lookup_insert_of_ne _ other]) (outside_frame outside) ?_
    rw [index,Finmap.lookup_insert]
    refine .stored ⟨by rw [disk,if_pos rfl],fun _ => ?_⟩
    rw [disk,if_neg (files_not_document _ _)]
    exact stored.files current
  · have frame := effect.document.failed ok
    have index := effect.failed ok
    refine tidy.inside tx'.id ((frame _ (top_not_unused _)).trans tidy.whole.top) (fun _ _ => by rw [index])
      (fun _ _ used => frame _ used) ?_
    rw [index]
    exact (tidy.whole.kept _).mono (frame _ (document_not_unused _ _)) (frame _ (files_not_unused _)).trans
      (frame _ (folder_not_unused _)).trans

theorem Tidy.remove (tidy : Tidy w) (unstranded : Unstranded env (TransactionRepository.remove id).run w)
    (known : w.index.lookup id = some tx) (expired : tx.state = .expired) :
    Recoverable Nobody Nobody (Svc.handle sha256 env (.remove id) w).2 := by
  have effect := remove_effect sha256 env id w tidy.sturdy.fresh
  have stored := tidy.stored known
  have there : w.disk.lookup (transactionDir id) ≠ none := by simp [stored.folder]
  have outside : ∀ q, ¬ transactionDir id <+: q → ¬ w.Unused q →
      (Svc.handle sha256 env (.remove id) w).2.disk.lookup q = w.disk.lookup q := fun q other _ => effect.outside other
  have top := (outside _ (top_not_inside _ _) (top_not_unused _)).trans tidy.whole.top
  by_cases ok : (Svc.handle sha256 env (.remove id) w).1 = .ok ()
  · obtain ⟨index,gone⟩ := effect.done ok
    refine tidy.inside id top (fun id' other => by rw [index,Finmap.lookup_erase_ne other]) (outside_frame outside) ?_
    rw [index,Finmap.lookup_erase]
    exact .gone (.inl rfl) (gone _ (List.prefix_refl _))
  · obtain ⟨index,folder⟩ := effect.failed ok
    refine tidy.inside id top (fun _ _ => by rw [index]) (outside_frame outside) ?_
    rw [index,known]
    refine .stored ⟨?_,fun current => absurd expired current⟩
    rcases effect.frame (documentPath id .meta) with same | ⟨_,bare⟩
    · exact same.trans stored.document
    · have absent := absent_of_not_bare (remove_bare tidy.sturdy.fresh unstranded there) bare
      exact absurd (folder.symm.trans absent) there

end

variable {c : SvcCall}

theorem May.gentle [BoostJson] (may : May sha256 opts env pending op c w.index) (placed : ∀ p ∈ pending, Placed p)
    (spared : c.sweeps = false) : Makes (Gentle fun id => w.index.lookup id ≠ none) (implement sha256 c) := by
  cases drafts : c.drafts with
  | false => exact Within.mono (may.harmless placed drafts) fun _ harmless => harmless.toGentle
  | true =>
    refine Within.mono (implement_makes sha256 c) fun s made => ?_
    rcases made with idle | allows
    · exact (harmless_idle idle).toGentle
    have document : ∀ {tx tx' : Transaction} {doc : Document}, w.index.lookup tx.id = some tx →
        Updates sha256 opts env pending op tx tx' →
        (∃ n, s = .create (tmpPath tx'.id n) ∨ Places (tmpPath tx'.id n) (documentPath tx'.id doc) s) →
        Gentle (fun id => w.index.lookup id ≠ none) s := by
      rintro tx tx' doc known change ⟨n,rfl | places⟩
      · exact gentle_tmp rfl
      · exact places.gentle (by rw [change.named,known]; simp) (document_in_folder _ _)
    cases c with
    | save tx' =>
      obtain ⟨tx,known,change⟩ := may
      exact document known change allows
    | saveManifest tx' =>
      obtain ⟨tx,known,_,_,change⟩ := may
      exact document known change allows
    | beginUpload id path =>
      obtain ⟨n,rfl⟩ := allows
      exact gentle_tmp rfl
    | _ => contradiction

def SysCall.Bystander : SysCall → Prop
  | .indexSet _ | .indexErase _ | .indexReset _ => False
  | _ => True

theorem handle_bystander {c : SysCall} (bystander : c.Bystander) (w : World) : (Sys.handle env c w).2.index = w.index := by
  cases c with
  | indexSet | indexErase | indexReset => contradiction
  | env c => cases c <;> rfl
  | enter => rfl
  | _ => exact (handle_still env _ (by trivial) w).index

theorem cut_index (bystander : p.Uses SysCall.Bystander) (fuel : Nat) :
    (p.cut (Sys.handle env) fuel w).index = w.index :=
  bystander.cut (Sys.handle env) (fun w' => w'.index = w.index)
    (fun _ w' bystander same => (handle_bystander bystander w').trans same) fuel w rfl

theorem bystander_of_quiet (quiet : p.Uses SysCall.Quiet) : p.Uses SysCall.Bystander :=
  quiet.mono fun c quiet => by cases c <;> first | exact quiet | trivial

theorem openRead_quiet (id : TransactionId) (path : RelativePath) : Uses SysCall.Quiet (FileStore.openRead id path).run := by
  refine Uses.exceptT_bind (quiet_call (by trivial : (SysCall.status _).Quiet)) fun status => ?_
  cases status with
  | absent | directory => trivial
  | regular size =>
    refine Uses.exceptT_bind (quiet_call (by trivial : (SysCall.read _).Quiet)) fun opened => ?_
    cases opened <;> trivial

theorem implement_bystander [BoostJson] (c : SvcCall) (spared : c.sweeps = false) (other : ∀ tx, c ≠ .save tx) :
    (implement sha256 c).Uses SysCall.Bystander := by
  have entered : ∀ {stage : Stage} {α : Type} {p : Prog Sys α}, p.Uses SysCall.Quiet →
      Uses SysCall.Bystander (sys (.enter stage) >>= fun _ => p) := fun quiet => ⟨trivial,fun _ => bystander_of_quiet quiet⟩
  cases c with
  | insert | remove => contradiction
  | save tx => exact absurd rfl (other tx)
  | env c => exact ⟨trivial,fun _ => trivial⟩
  | find id => exact ⟨trivial,fun _ => trivial⟩
  | findIf pred => exact ⟨trivial,fun _ => trivial⟩
  | saveManifest tx => exact ⟨trivial,fun _ =>
      bystander_of_quiet (writeDocument_quiet sha256 tx.id .manifest (encodeManifest tx))⟩
  | beginUpload id path => exact entered (beginWrite_quiet id (payloadPath id path) path)
  | writeUpload u chunk => exact entered (write_quiet u chunk)
  | commitUpload u expected => exact entered (commit_quiet sha256 u expected)
  | discardUpload u => exact entered (discard_quiet u)
  | hashFile id path => exact bystander_of_quiet (Uses.exceptT_bind (openRead_quiet id path) fun _ => trivial)
  | removeFile id path => exact entered (removeFile_quiet id path)
  | openRead id path => exact bystander_of_quiet (openRead_quiet id path)

theorem meta_not_manifest (id id' : TransactionId) : documentPath id .meta ≠ documentPath id' .manifest := by
  intro same
  obtain rfl := transactionDir_apart (document_in_folder id .meta) (same ▸ document_in_folder id' .manifest)
  cases documentPath_injective same

section

variable [BoostJson]

/-- A call that is neither a save nor concerned with folders leaves every meta.json alone. -/
theorem May.document (may : May sha256 opts env pending op c w.index) (placed : ∀ p ∈ pending, Placed p)
    (spared : c.sweeps = false) (other : ∀ tx, c ≠ .save tx) (fuel : Nat) (id : TransactionId) :
    ((implement sha256 c).cut (Sys.handle env) fuel w).disk.lookup (documentPath id .meta) =
      w.disk.lookup (documentPath id .meta) := by
  cases drafts : c.drafts with
  | false => exact (may.harmless placed drafts).document env fuel id
  | true =>
    refine implement_confined sha256 c env fuel w _ fun inside => ?_
    cases c with
    | saveManifest tx =>
      obtain ⟨n,same⟩ | short := inside
      · exact tmpPath_not_folder _ _ _ _ same
      · exact meta_not_manifest id tx.id (short.eq_of_length (by simp [documentPath,transactionDir]))
    | beginUpload owner path =>
      obtain ⟨n,same⟩ := inside
      exact tmpPath_not_folder _ _ _ _ same
    | save tx => exact absurd rfl (other tx)
    | _ => contradiction

theorem May.cut (may : May sha256 opts env pending op c w.index) (placed : ∀ p ∈ pending, Placed p)
    (tidy : Tidy w) (spared : c.sweeps = false) (other : ∀ tx, c ≠ .save tx) (fuel : Nat) :
    Recoverable saving leaving ((implement sha256 c).cut (Sys.handle env) fuel w) := by
  have gentle := may.gentle placed spared
  refine ⟨gentle.directory env fuel tidy.whole.top fun c gentle => gentle.top,fun id => ?_⟩
  rw [cut_index (implement_bystander c spared other) fuel]
  cases known : w.index.lookup id with
  | some tx =>
    have stored := tidy.stored known
    exact .stored ⟨(may.document placed spared other fuel id).trans stored.document,fun current =>
      gentle.directory env fuel (stored.files current) fun c gentle => gentle.files id⟩
  | none => exact .gone (.inl rfl) (gentle.absent env fuel (tidy.absent known) fun c gentle made => gentle.made id made known)

omit [BoostJson] in
/-- A program that ends by telling the index has told it, or is cut before. -/
theorem cut_last (p : SysM Unit) (c : SysCall) (fuel : Nat) :
    (∃ fuel', (p >>= fun _ => call c).run.cut (Sys.handle env) fuel w = p.run.cut (Sys.handle env) fuel' w) ∨
      ((∃ reply, (exec env (p >>= fun _ => call c).run w).1 = .ok reply) ∧
        (p >>= fun _ => call c).run.cut (Sys.handle env) fuel w = (exec env (p >>= fun _ => call c).run w).2) := by
  obtain ⟨all,last⟩ := run_eq_cut (Sys.handle env) p.run w
  have text : (p >>= fun _ => call c).run = p.run >>= ExceptT.bindCont (fun _ => call c) := rfl
  rw [text,exec_bind]
  rcases cut_bind (Sys.handle env) p.run (ExceptT.bindCont fun _ => call c) fuel w with early | ⟨rest,late⟩
  · exact .inl ⟨fuel,early⟩
  rw [late]
  change p.run.cut _ all w = (exec env p.run w).2 at last
  change (∃ fuel', Prog.cut _ rest (ExceptT.bindCont _ (exec env p.run w).1) (exec env p.run w).2 = _) ∨ (∃ reply, _ = _) ∧
    Prog.cut _ rest (ExceptT.bindCont _ (exec env p.run w).1) (exec env p.run w).2 = _
  generalize exec env p.run w = outcome at last ⊢
  obtain ⟨result,w'⟩ := outcome
  dsimp only at last ⊢
  cases result with
  | error e => exact .inl ⟨all,by rw [last]; cases rest <;> rfl⟩
  | ok value =>
    rcases rest with _ | rest
    · exact .inl ⟨all,by rw [last]; rfl⟩
    · exact .inr ⟨⟨_,rfl⟩,by cases rest <;> rfl⟩

/-- What saving does before it tells the index. -/
def draft (sha256 : Bytes → Sha256Digest) (tx : Transaction) : SysM Unit := do
  call (.enter .save)
  let known : Option Transaction ← call (.indexFind tx.id)
  refuse known.isNone ⟨.notfound,ascii "no transaction " ++ tx.id.value⟩
  FileStore.writeDocument sha256 tx.id .meta (encodeMeta tx)

theorem save_eq (sha256 : Bytes → Sha256Digest) (tx : Transaction) :
    TransactionRepository.save sha256 tx = draft sha256 tx >>= fun _ => call (.indexSet tx) := by
  simp [TransactionRepository.save,draft]

theorem draft_bystander (tx : Transaction) : Uses SysCall.Bystander (draft sha256 tx).run :=
  Uses.exceptT_bind ⟨trivial,fun _ => trivial⟩ fun _ => Uses.exceptT_bind ⟨trivial,fun _ => trivial⟩ fun _ =>
    Uses.exceptT_bind (bystander_of_quiet (quiet_refuse _ _)) fun _ =>
    bystander_of_quiet (writeDocument_quiet sha256 tx.id .meta (encodeMeta tx))

theorem draft_leads (fresh : FreshTmp w) (tx : Transaction) : Leads (Sys.handle env) (draft sha256 tx) w fun result w' =>
    (result = .ok () ∧ w'.disk.lookup (documentPath tx.id .meta) = some (.file (encodeMeta tx))) ∨
      ((∃ e, result = .error e) ∧ w'.disk.lookup (documentPath tx.id .meta) = w.disk.lookup (documentPath tx.id .meta)) := by
  simp only [draft,call_eq,leads_exec_bind,exec_enter,exec_indexFind,leads_refuse_bind]
  refine ⟨fun _ => .inr ⟨⟨_,rfl⟩,rfl⟩,fun _ => ?_⟩
  refine (writeDocument_spec sha256 env tx.id .meta (encodeMeta tx) (w.enter .save) fresh).mono fun result w' written => ?_
  obtain ⟨_,⟨rfl,disk⟩ | ⟨e,rfl,frame,_⟩⟩ := written
  · exact .inl ⟨rfl,by rw [disk,if_pos rfl]⟩
  · exact .inr ⟨⟨e,rfl⟩,frame _ (tmpPath_not_folder _ _ _ _)⟩

end

def SysCall.touches (target : Path) (c : SysCall) : Bool := decide (target ∈ c.writes)

section Once

variable {target : Path}

theorem untouched_idle {c : SysCall} (idle : c.writes = []) : c.touches target = false := by simp [SysCall.touches,idle]

/-- Only the rename of an upload touches its place. -/
theorem Places.untouched {tmp : Path} {c : SysCall} (places : Places tmp target c) (other : tmp ≠ target) (inner : target ≠ []) :
    c.touches target = true → c = .rename tmp target := by
  intro touched
  have written : target ∈ c.writes := by simpa [SysCall.touches] using touched
  cases places with
  | append | remove => exact absurd (List.mem_singleton.mp written).symm other
  | mkdir above =>
    have short := above.length_le
    rw [← List.mem_singleton.mp written,List.length_dropLast] at short
    have := List.length_pos_iff.mpr inner
    omega
  | rename => rfl

theorem finish_once (u : Upload) (expected : Option Sha256Digest) (final : u.final = target) (other : u.tmp ≠ target)
    (inner : target ≠ []) : AtMost Sys.handle (SysCall.touches target) 1 (u.finish sha256 expected).run := by
  subst final
  have idle : ∀ c : SysCall, c.writes = [] → c.touches u.final = false := fun _ => untouched_idle
  have skip : ∀ {c : SysCall} {f : c.Reply → SysM StoredFile}, c.writes = [] →
      (∀ value, AtMost Sys.handle (SysCall.touches u.final) 1 (f value).run) →
      AtMost Sys.handle (SysCall.touches u.final) 1 (call c >>= f).run := fun none rest =>
    Within.exceptT_atMost (makes_call (idle _ none)) fun _ _ value _ => rest value
  have check : ∀ {bad : Bool} {e : Error} {f : Unit → SysM StoredFile},
      AtMost Sys.handle (SysCall.touches u.final) 1 (f ()).run →
      AtMost Sys.handle (SysCall.touches u.final) 1 (refuse bad e >>= f).run := fun rest =>
    Within.exceptT_atMost (makes_refuse _ _) fun _ _ _ _ => rest
  unfold Upload.finish
  refine skip rfl fun _ => check (skip rfl fun _ => check (skip rfl fun _ => check ?_))
  refine Within.exceptT_atMost (makes_ensure _) fun _ _ _ _ => ?_
  refine Within.exceptT_atMost (makes_lift (createDirectories_makes idle fun q short => ?_)) fun _ _ made _ => ?_
  · rw [List.reverse_reverse] at short
    refine Bool.eq_false_iff.mpr fun touched => ?_
    have := (Places.mkdir short : Places u.tmp u.final _).untouched other inner touched
    contradiction
  refine check (check (skip rfl fun _ => check ?_))
  refine AtMost.exceptT_then (n := 1) (m := 0) (fun env w => ?_) fun _ _ _ _ => ?_
  · exact List.countP_le_length
  · exact (Within.exceptT_bind (makes_refuse _ _) fun _ => makes_pure _).atMost

theorem commit_once (u : Upload) (expected : Option Sha256Digest) (final : u.final = target) (other : u.tmp ≠ target)
    (inner : target ≠ []) : AtMost Sys.handle (SysCall.touches target) 1 (u.commit sha256 expected) := by
  unfold Upload.commit
  split
  · exact fun _ _ => Nat.zero_le _
  refine AtMost.then (n := 1) (m := 0) (finish_once u expected final other inner) fun env w => ?_
  cases (Prog.run (Sys.handle env) (u.finish sha256 expected).run w).1 with
  | ok => exact fun _ _ => Nat.zero_le _
  | error e =>
    refine Within.atMost ((discard_makes u ?_).bind fun _ => Uses.within trivial)
    simpa [SysCall.touches,SysCall.writes] using other.symm

theorem writeDocument_once (id : TransactionId) (doc : Document) (content : Bytes) :
    AtMost Sys.handle (SysCall.touches (documentPath id doc)) 1 (FileStore.writeDocument sha256 id doc content).run := by
  have apart : ∀ n, tmpPath id n ≠ documentPath id doc := fun n same => tmpPath_not_folder _ _ _ _ same.symm
  have tmp : ∀ {n : Nat} {c : SysCall}, c.writes = [tmpPath id n] → c.touches (documentPath id doc) = false := by
    intro n c only
    simpa [SysCall.touches,only] using (apart n).symm
  refine Within.exceptT_atMost (beginWrite_makes (fun _ => untouched_idle) _ _ fun n => tmp rfl) fun env w u returned => ?_
  obtain ⟨n,rfl⟩ := beginWrite_result env w id (documentPath id doc) doc.path u returned
  refine Within.exceptT_atMost (makes_lift (write_makes _ content fun _ => ⟨tmp rfl,tmp rfl⟩)) fun env w outcome returned => ?_
  have advances := write_result env w ⟨tmpPath id n,documentPath id doc,doc.path,[],0,false⟩ content
  have returned : (exec env (ExceptT.lift (Upload.write _ content) : SysM _).run w).1 = .ok outcome := returned
  rw [exec_liftM] at returned
  rw [Except.ok.inj returned] at advances
  obtain ⟨written,u⟩ := outcome
  refine Within.exceptT_atMost (makes_ensure _) fun _ _ _ _ => ?_
  refine AtMost.exceptT_then (n := 1) (m := 0) (AtMost.then (n := 1) (m := 0) ?_ fun _ _ _ _ => Nat.zero_le _) fun _ _ _ _ => ?_
  · exact commit_once u none advances.final (by rw [advances.tmp]; exact apart n) (by simp [documentPath])
  · exact (Within.exceptT_bind (makes_ensure _) fun _ => makes_pure _).atMost

theorem draft_once [BoostJson] (tx : Transaction) :
    AtMost Sys.handle (SysCall.touches (documentPath tx.id .meta)) 1 (draft sha256 tx).run :=
  Within.exceptT_atMost (makes_call (untouched_idle rfl)) fun _ _ _ _ =>
    Within.exceptT_atMost (makes_call (untouched_idle rfl)) fun _ _ _ _ =>
    Within.exceptT_atMost (makes_refuse _ _) fun _ _ _ _ => writeDocument_once tx.id .meta (encodeMeta tx)

end Once

/-- Wherever a save is cut off, meta.json is the old one or the new one, and the index is not ahead of it. -/
theorem save_cut [BoostJson] (sha256 : Bytes → Sha256Digest) (env : Env) (fresh : FreshTmp w) (tx : Transaction) (fuel : Nat) :
    let cut := (implement sha256 (.save tx)).cut (Sys.handle env) fuel w
    (cut.index = w.index ∧ cut.disk.lookup (documentPath tx.id .meta) = w.disk.lookup (documentPath tx.id .meta)) ∨
      ((cut.index = w.index ∨ cut.index = w.index.insert tx.id tx) ∧
        cut.disk.lookup (documentPath tx.id .meta) = some (.file (encodeMeta tx))) := by
  have text : implement sha256 (.save tx) = (draft sha256 tx >>= fun _ => call (.indexSet tx)).run :=
    congrArg ExceptT.run (save_eq sha256 tx)
  have effect := save_effect sha256 env tx w fresh
  dsimp only
  unfold Svc.handle at effect
  rw [text] at effect ⊢
  rcases cut_last (draft sha256 tx) (.indexSet tx) fuel with ⟨fuel',early⟩ | ⟨⟨_,ok⟩,late⟩
  · rw [early]
    have once : AtMost Sys.handle _ 1 (draft sha256 tx).run := draft_once tx
    have document := once.cut env (fun w => w.disk.lookup (documentPath tx.id .meta))
      (fun c w blind => handle_lookup c (by simpa [SysCall.touches] using blind)) fuel' w
    have index := @cut_index env w _ _ (@draft_bystander sha256 _ tx) fuel'
    rcases document with old | new
    · exact .inl ⟨index,old⟩
    · rcases leads_exec.mp (draft_leads fresh tx) with ⟨_,written⟩ | ⟨_,kept⟩
      · exact .inr ⟨.inl index,new.trans written⟩
      · exact .inl ⟨index,new.trans kept⟩
  · rw [late]
    exact .inr ⟨.inr (effect.done ok).2,by rw [effect.document.done ok,if_pos rfl]⟩

theorem claim_bystander (tx : Transaction) : Uses SysCall.Bystander (claim tx).run :=
  Uses.exceptT_bind ⟨trivial,fun _ => trivial⟩ fun _ => Uses.exceptT_bind ⟨trivial,fun _ => trivial⟩ fun _ =>
    Uses.exceptT_bind (bystander_of_quiet (quiet_refuse _ _)) fun _ => bystander_of_quiet (createTransaction_quiet tx.id)

theorem fill_bystander [BoostJson] (tx : Transaction) : Uses SysCall.Bystander (fill sha256 tx).run := by
  refine Uses.exceptT_bind (bystander_of_quiet (quiet_lift (writeDocument_quiet sha256 tx.id .meta
    (encodeMeta tx)))) fun written => ?_
  cases written with
  | ok => trivial
  | error e => exact Uses.exceptT_bind (bystander_of_quiet (quiet_lift (removeTransaction_quiet tx.id))) fun _ => trivial

theorem not_makes_document (other : q ≠ documentPath id .meta) {c : SysCall} (made : c = .mkdir q) :
    documentPath id .meta ∉ c.makes := by
  subst made
  simpa [SysCall.makes] using other.symm

/-- Up to the new folder there is no document. -/
theorem claim_cut (free : w.disk.lookup (transactionDir tx.id) = none) (fuel : Nat) :
    ((claim tx).run.cut (Sys.handle env) fuel w).disk.lookup (documentPath tx.id .meta) = none := by
  have makes : Makes (fun c => documentPath tx.id .meta ∉ c.makes) (claim tx).run :=
    Within.exceptT_bind (makes_call (by simp [SysCall.makes])) fun _ =>
      Within.exceptT_bind (makes_call (by simp [SysCall.makes])) fun _ =>
      Within.exceptT_bind (makes_refuse _ _) fun _ =>
      createTransaction_makes (not_makes_document (by simp [documentPath]) rfl)
        (not_makes_document (files_not_document _ _) rfl)
  exact makes.absent env fuel (absent_document free) fun _ unmade => unmade

section

variable [BoostJson]

/-- From there on there is none, or all is in place. -/
theorem fill_cut (fresh : FreshTmp w) (bare : w.disk.lookup (documentPath tx.id .meta) = none)
    (files : w.disk.lookup (filesDir tx.id) = some .directory) (fuel : Nat) :
    let cut := (fill sha256 tx).run.cut (Sys.handle env) fuel w
    cut.disk.lookup (documentPath tx.id .meta) = none ∨ Stored cut.disk tx.id tx := by
  have once : AtMost Sys.handle _ 1 (FileStore.writeDocument sha256 tx.id .meta (encodeMeta tx)).run :=
    writeDocument_once tx.id .meta (encodeMeta tx)
  have document := fun fuel => once.cut env (fun w => w.disk.lookup (documentPath tx.id .meta))
    (fun c w blind => handle_lookup c (by simpa [SysCall.touches] using blind)) fuel w
  have kept : ∀ fuel, ((FileStore.writeDocument sha256 tx.id .meta (encodeMeta tx)).run.cut (Sys.handle env) fuel w).disk.lookup
      (filesDir tx.id) = some .directory := by
    intro fuel
    have makes : Makes (fun c => c ≠ .remove (filesDir tx.id))
      (FileStore.writeDocument sha256 tx.id .meta (encodeMeta tx)).run :=
      writeDocument_makes (fun c idle => (@harmless_idle Nobody c idle).files tx.id) sha256 _ _ _ (fun n => by simp)
        fun n c places => by
          cases places with
          | remove => exact fun same => tmpPath_not_folder _ _ _ _ (SysCall.remove.inj same).symm
          | append | mkdir | rename => simp
    exact makes.directory env fuel files fun _ spared => spared
  have written := leads_exec.mp (writeDocument_spec sha256 env tx.id .meta (encodeMeta tx) w fresh)
  obtain ⟨all,last⟩ := run_eq_cut (Sys.handle env) (FileStore.writeDocument sha256 tx.id .meta (encodeMeta tx)).run w
  have there := last ▸ kept all
  unfold fill
  dsimp only
  rw [ExceptT.run_bind_lift]
  rcases cut_bind (Sys.handle env) (FileStore.writeDocument sha256 tx.id .meta (encodeMeta tx)).run _ fuel w
    with early | ⟨rest,late⟩
  · rw [early]
    rcases document fuel with old | new
    · exact .inl (old.trans bare)
    · obtain ⟨_,⟨_,disk⟩ | ⟨e,_,frame,_⟩⟩ := written
      · exact .inr ⟨new.trans ((disk _).trans (if_pos rfl)),fun _ => kept fuel⟩
      · exact .inl (new.trans ((frame _ (tmpPath_not_folder _ _ _ _)).trans bare))
  · rw [late]
    change Tree.lookup (exec env (FileStore.writeDocument sha256 tx.id .meta (encodeMeta tx)).run w).2.disk _ = _ at there
    rw [show Prog.run _ _ _ = exec env (FileStore.writeDocument sha256 tx.id .meta (encodeMeta tx)).run w from rfl]
    generalize exec env (FileStore.writeDocument sha256 tx.id .meta (encodeMeta tx)).run w = outcome at written there ⊢
    obtain ⟨result,w'⟩ := outcome
    obtain ⟨_,⟨rfl,disk⟩ | ⟨e,rfl,frame,_⟩⟩ := written
    · have stored : Stored w'.disk tx.id tx := ⟨(disk _).trans (if_pos rfl),fun _ => there⟩
      cases rest <;> exact .inr stored
    · refine .inl (Makes.absent (Within.exceptT_bind (makes_lift (removeTransaction_makes ?_ ?_)) fun _ =>
        makes_throw _) env rest
        ((frame _ (tmpPath_not_folder _ _ _ _)).trans bare) fun c unmade => unmade)
      · exact fun c idle => by cases c <;> simp_all [SysCall.writes,SysCall.makes]
      · exact fun q _ => by simp [SysCall.makes]

theorem insert_refused (known : w.index.lookup tx.id ≠ none) (fuel : Nat) :
    ((implement sha256 (.insert tx)).cut (Sys.handle env) fuel w).disk = w.disk ∧
      ((implement sha256 (.insert tx)).cut (Sys.handle env) fuel w).index = w.index := by
  obtain ⟨old,found⟩ := Option.ne_none_iff_exists'.mp known
  have refused : ∀ fuel, (TransactionRepository.insert sha256 tx).run.cut (Sys.handle env) (fuel + 2) w = w.enter .insert := by
    intro fuel
    change Prog.cut _ fuel (ExceptT.run (refuse (w.index.lookup tx.id).isSome _ >>= _)) (w.enter .insert) = _
    rw [found]
    cases fuel <;> rfl
  rcases fuel with _ | _ | fuel
  · exact ⟨rfl,rfl⟩
  · exact ⟨rfl,rfl⟩
  · have same : (implement sha256 (.insert tx)).cut (Sys.handle env) (fuel + 2) w = w.enter .insert := refused fuel
    rw [same]
    exact ⟨rfl,rfl⟩

theorem claim_fill_cut (fresh : FreshTmp w) (unknown : w.index.lookup tx.id = none)
    (free : w.disk.lookup (transactionDir tx.id) = none) (fuel : Nat) :
    let cut := (claim tx >>= fun _ => fill sha256 tx).run.cut (Sys.handle env) fuel w
    cut.disk.lookup (documentPath tx.id .meta) = none ∨ Stored cut.disk tx.id tx := by
  have created := leads_exec.mp (createTransaction_spec env tx.id (w.enter .insert))
  have still := exec_still env (createTransaction_quiet tx.id) (w.enter .insert)
  obtain ⟨all,last⟩ := run_eq_cut (Sys.handle env) (claim tx).run w
  have bare := last ▸ @claim_cut env w tx free all
  rw [show (claim tx).run.run (Sys.handle env) w = _ from (claim_run unknown).1] at bare
  rcases cut_bind (Sys.handle env) (claim tx).run (ExceptT.bindCont fun _ => fill sha256 tx) fuel w with early | ⟨rest,late⟩
  · exact .inl ((congrArg (fun w : World => w.disk.lookup _) early).trans (claim_cut free fuel))
  rw [show (claim tx).run.run (Sys.handle env) w = _ from (claim_run unknown).1] at late
  generalize exec env (FileStore.createTransaction tx.id).run (w.enter .insert) = outcome at created still bare late
  obtain ⟨result,w₁⟩ := outcome
  dsimp only at created still bare late ⊢
  change Prog.cut _ fuel (claim tx >>= fun _ => fill sha256 tx).run w = _ at late
  rw [late]
  rcases created with ⟨rfl,_,disk₁⟩ | ⟨e,rfl,_⟩
  · have fresh₁ : FreshTmp w₁ := fresh.same still.tmpCount fun id n => created_elsewhere disk₁ (tmpPath_outside _ _ _)
    exact fill_cut fresh₁ bare (by rw [disk₁,if_pos (.inr rfl)]) rest
  · cases rest <;> exact .inl bare

/-- Wherever an insertion is cut off, there is no document, or all of the folder is in place. -/
theorem insert_cut (fresh : FreshTmp w) (unknown : w.index.lookup tx.id = none)
    (free : w.disk.lookup (transactionDir tx.id) = none) (fuel : Nat) :
    let cut := (implement sha256 (.insert tx)).cut (Sys.handle env) fuel w
    (cut.index = w.index ∧ cut.disk.lookup (documentPath tx.id .meta) = none) ∨ Stored cut.disk tx.id tx := by
  have text : implement sha256 (.insert tx) = ((claim tx >>= fun _ => fill sha256 tx) >>= fun _ => call (.indexSet tx)).run :=
    congrArg ExceptT.run (insert_eq sha256 tx)
  have effect := insert_effect sha256 env tx w fresh
  dsimp only
  unfold Svc.handle at effect
  rw [text] at effect ⊢
  rcases cut_last (claim tx >>= fun _ => fill sha256 tx) (.indexSet tx) fuel with ⟨fuel',early⟩ | ⟨⟨_,ok⟩,late⟩
  · rw [early]
    have bystander : Uses SysCall.Bystander (claim tx >>= fun _ => fill sha256 tx).run :=
      Uses.exceptT_bind (claim_bystander tx) fun _ => fill_bystander tx
    exact (claim_fill_cut fresh unknown free fuel').imp_left fun bare => ⟨cut_index bystander fuel',bare⟩
  · rw [late]
    obtain ⟨_,_,_,disk⟩ := effect.done ok
    exact .inr ⟨by rw [disk,if_pos rfl],fun _ => by rw [disk,if_neg (files_not_document _ _),if_pos (.inr rfl)]⟩

end

def sweep (id : TransactionId) : SysM Unit := do
  call (.enter .remove)
  FileStore.removeTransaction id

theorem remove_eq (id : TransactionId) : TransactionRepository.remove id = sweep id >>= fun _ => call (.indexErase id) := by
  simp [TransactionRepository.remove,sweep]

theorem sweep_bystander (id : TransactionId) : Uses SysCall.Bystander (sweep id).run :=
  Uses.exceptT_bind ⟨trivial,fun _ => trivial⟩ fun _ => bystander_of_quiet (removeTransaction_quiet id)

/-- Wherever a removal is cut off, meta.json is there or is not, and the index still knows of the folder. -/
theorem remove_cut [BoostJson] (fresh : FreshTmp w) (id : TransactionId) (fuel : Nat) :
    let cut := (implement sha256 (.remove id)).cut (Sys.handle env) fuel w
    (cut.index = w.index ∧ cut.disk.lookup (documentPath id .meta) = w.disk.lookup (documentPath id .meta)) ∨
      cut.disk.lookup (documentPath id .meta) = none := by
  have text : implement sha256 (.remove id) = (sweep id >>= fun _ => call (.indexErase id)).run :=
    congrArg ExceptT.run (remove_eq id)
  have effect := remove_effect sha256 env id w fresh
  dsimp only
  unfold Svc.handle at effect
  rw [text] at effect ⊢
  rcases cut_last (sweep id) (.indexErase id) fuel with ⟨fuel',early⟩ | ⟨⟨_,ok⟩,late⟩
  · rw [early]
    have makes : Makes (fun c => c.writes = [] ∨ ∃ q, c = .remove q) (sweep id).run :=
      Within.exceptT_bind (makes_call (.inl rfl)) fun _ =>
        removeTransaction_makes (fun _ idle => .inl idle) fun q _ => .inr ⟨q,rfl⟩
    have document := makes.cut env (fun w' => w'.disk.lookup (documentPath id .meta) = w.disk.lookup (documentPath id .meta) ∨
      w'.disk.lookup (documentPath id .meta) = none) (fun c w' may holds => ?_) fuel' w (.inl rfl)
    · exact document.imp_left fun same => ⟨cut_index (sweep_bystander id) fuel',same⟩
    · rcases may with idle | ⟨q,rfl⟩
      · rwa [handle_lookup c (by simp [idle])]
      · obtain ⟨frame,removed,failed,_⟩ := remove_spec env w' q
        change (w'.remove env q).2.disk.lookup _ = _ ∨ (w'.remove env q).2.disk.lookup _ = _
        by_cases other : documentPath id .meta = q
        · subst other
          cases outcome : (w'.remove env (documentPath id .meta)).1 with
          | true => exact .inr (removed outcome)
          | false => rwa [failed outcome]
        · rwa [frame _ other]
  · rw [late]
    exact .inr ((effect.done ok).2 _ (document_in_folder id .meta))

theorem cut_told {p : SysM Unit} {last : SysCall} {f : Index → Index} (bystander : Uses SysCall.Bystander p.run)
    (tells : ∀ w, (Sys.handle env last w).2.index = f w.index) (fuel : Nat) :
    ((p >>= fun _ => call last).run.cut (Sys.handle env) fuel w).index = w.index ∨
      ((p >>= fun _ => call last).run.cut (Sys.handle env) fuel w).index = f w.index := by
  rcases cut_last p last fuel with ⟨fuel',early⟩ | ⟨⟨_,ok⟩,late⟩
  · exact .inl (early ▸ cut_index bystander fuel')
  · obtain ⟨all,same⟩ := run_eq_cut (Sys.handle env) p.run w
    have whole : (exec env p.run w).2.index = w.index := same ▸ cut_index bystander all
    rw [late]
    change (exec env (p.run >>= ExceptT.bindCont fun _ => call last) w).1 = _ at ok
    change (exec env (p.run >>= ExceptT.bindCont fun _ => call last) w).2.index = _ ∨
      (exec env (p.run >>= ExceptT.bindCont fun _ => call last) w).2.index = _
    rw [exec_bind] at ok ⊢
    generalize exec env p.run w = outcome at ok whole ⊢
    obtain ⟨result,w'⟩ := outcome
    cases result with
    | error e => cases ok
    | ok => exact .inr ((tells w').trans (congrArg f whole))

section

variable [BoostJson]

/-- The index that a call leaves behind when it is cut off. -/
theorem cut_indexed (c : SvcCall) (fuel : Nat) :
    let cut := (implement sha256 c).cut (Sys.handle env) fuel w
    cut.index = w.index ∨ (∃ tx, (c = .save tx ∨ c = .insert tx) ∧ cut.index = w.index.insert tx.id tx) ∨
      ∃ id, c = .remove id ∧ cut.index = w.index.erase id := by
  have other : c.sweeps = false → (∀ tx, c ≠ .save tx) → ((implement sha256 c).cut (Sys.handle env) fuel w).index = w.index :=
    fun spared unsaved => cut_index (implement_bystander c spared unsaved) fuel
  cases c with
  | insert tx =>
    have told := @cut_told env w (claim tx >>= fun _ => fill sha256 tx) (.indexSet tx) (·.insert tx.id tx)
      (Uses.exceptT_bind (claim_bystander tx) fun _ => fill_bystander tx) (fun _ => rfl) fuel
    rw [← insert_eq] at told
    exact told.imp_right fun told => .inl ⟨tx,.inr rfl,told⟩
  | save tx =>
    have told := @cut_told env w (draft sha256 tx) (.indexSet tx) (·.insert tx.id tx) (draft_bystander tx) (fun _ => rfl) fuel
    rw [← save_eq] at told
    exact told.imp_right fun told => .inl ⟨tx,.inl rfl,told⟩
  | remove id =>
    have told := @cut_told env w (sweep id) (.indexErase id) (·.erase id) (sweep_bystander id) (fun _ => rfl) fuel
    rw [← remove_eq] at told
    exact told.imp_right fun told => .inr ⟨id,rfl,told⟩
  | _ => exact .inl (other rfl (by simp))

theorem cut_frame (c : SvcCall) {id : TransactionId} (other : id' ≠ id) (inside : transactionDir id' <+: q)
    (region : c.region q → (∃ n, q = tmpPath id n) ∨ transactionDir id <+: q ∨ q <+: documentPath id .meta) (fuel : Nat) :
    ((implement sha256 c).cut (Sys.handle env) fuel w).disk.lookup q = w.disk.lookup q := by
  refine implement_confined sha256 c env fuel w q fun touched => ?_
  rcases region touched with ⟨n,rfl⟩ | below | above
  · obtain ⟨rest,same⟩ := inside
    exact tmpPath_not_folder _ _ _ _ same
  · exact other (transactionDir_apart inside below)
  · exact other (transactionDir_apart (inside.trans above) (document_in_folder id .meta))

theorem May.cut_save (may : May sha256 opts env pending op (.save tx') w.index) (placed : ∀ p ∈ pending, Placed p)
    (tidy : Tidy w) (fuel : Nat) (being : saving tx') :
    Recoverable saving leaving ((implement sha256 (.save tx')).cut (Sys.handle env) fuel w) := by
  have gentle := may.gentle placed rfl
  obtain ⟨tx,known,change⟩ := may
  rw [← change.named] at known
  have stored := tidy.stored known
  have files := gentle.directory env fuel (stored.files change.current) fun c gentle => gentle.files tx'.id
  refine tidy.inside tx'.id (gentle.directory env fuel tidy.whole.top fun c gentle => gentle.top) (fun id other => ?_)
    (fun other inside _ => cut_frame (.save tx') other inside (Or.imp_right .inr) fuel) ?_
  · rcases save_cut sha256 env tidy.sturdy.fresh tx' fuel with ⟨same,_⟩ | ⟨same | same,_⟩
    · rw [same]
    · rw [same]
    · rw [same,Finmap.lookup_insert_of_ne _ other]
  · rcases save_cut sha256 env tidy.sturdy.fresh tx' fuel with ⟨index,document⟩ | ⟨_,document⟩
    · rw [index,known]
      exact .stored ⟨document.trans stored.document,fun _ => files⟩
    · exact .ahead being rfl ⟨document,fun _ => files⟩

theorem cut_top (tidy : Tidy w) (spared : ¬ c.allows (.remove transactionsDir)) (fuel : Nat) :
    ((implement sha256 c).cut (Sys.handle env) fuel w).disk.lookup transactionsDir = some .directory :=
  Makes.directory (implement_makes sha256 c) env fuel tidy.whole.top fun s made same => by
    subst same
    exact made.elim (fun idle => by cases idle) spared

theorem Tidy.cut_insert (tidy : Tidy w) (fuel : Nat)
    (being : saving tx) (whole : ¬ Bare ((implement sha256 (.insert tx)).cut (Sys.handle env) fuel w).disk tx.id) :
    Recoverable saving leaving ((implement sha256 (.insert tx)).cut (Sys.handle env) fuel w) := by
  have top := @cut_top sha256 env w (.insert tx) _ tidy (fun allows => by
    rcases allows with same | same | ⟨n,same | places⟩ | ⟨q,inside,same⟩
    · cases same
    · cases same
    · cases same
    · cases places
    · cases same
      exact top_not_inside _ _ inside) fuel
  refine tidy.inside tx.id top (fun id other => ?_) (fun other inside _ => cut_frame (.insert tx) other inside
    (Or.imp_right (Or.imp_right fun above => above.trans (document_in_folder _ _))) fuel) ?_
  · rcases @cut_indexed sha256 env w _ (.insert tx) fuel with same | ⟨_,same | same,index⟩ | ⟨_,same,_⟩
    · rw [same]
    · cases same
    · cases same
      rw [index,Finmap.lookup_insert_of_ne _ other]
    · cases same
  · cases known : w.index.lookup tx.id with
    | some old =>
      obtain ⟨disk,index⟩ := @insert_refused sha256 env w tx _ (by simp [known]) fuel
      rw [disk,index,known]
      exact .stored (tidy.stored known)
    | none =>
      rcases @insert_cut sha256 env w tx _ tidy.sturdy.fresh known (tidy.absent known) fuel with ⟨index,bare⟩ | stored
      · exact .gone (.inl (by rw [index,known])) (absent_of_not_bare whole bare)
      · exact .ahead being rfl stored

theorem Tidy.cut_remove (tidy : Tidy w) (known : w.index.lookup id = some tx) (expired : tx.state = .expired) (fuel : Nat)
    (goes : leaving id) (whole : ¬ Bare ((implement sha256 (.remove id)).cut (Sys.handle env) fuel w).disk id) :
    Recoverable saving leaving ((implement sha256 (.remove id)).cut (Sys.handle env) fuel w) := by
  have top := @cut_top sha256 env w (.remove id) _ tidy (fun allows => by
    obtain ⟨q,inside,same⟩ := allows
    cases same
    exact top_not_inside _ _ inside) fuel
  refine tidy.inside id top (fun id' other => ?_) (fun other inside _ => cut_frame (.remove id) other inside
    (fun touched => .inr (.inl touched)) fuel) ?_
  · rcases @cut_indexed sha256 env w _ (.remove id) fuel with same | ⟨_,same | same,_⟩ | ⟨_,same,index⟩
    · rw [same]
    · cases same
    · cases same
    · cases same
      rw [index,Finmap.lookup_erase_ne other]
  · rcases @remove_cut sha256 env w _ tidy.sturdy.fresh id fuel with ⟨index,document⟩ | bare
    · rw [index,known]
      exact .stored ⟨document.trans (tidy.stored known).document,fun current => absurd expired current⟩
    · exact .gone (.inr goes) (absent_of_not_bare whole bare)

theorem May.recoverable (may : May sha256 opts env pending op c w.index) (placed : ∀ p ∈ pending, Placed p)
    (tidy : Tidy w) {fuel : Nat} (whole : ∀ id, ¬ Bare ((implement sha256 c).cut (Sys.handle env) fuel w).disk id) :
    Recoverable (fun tx => c = .save tx ∨ c = .insert tx) (fun id => c = .remove id)
      ((implement sha256 c).cut (Sys.handle env) fuel w) := by
  cases c with
  | insert tx => exact tidy.cut_insert fuel (.inr rfl) (whole tx.id)
  | save tx => exact may.cut_save placed tidy fuel (.inl rfl)
  | remove id =>
    obtain ⟨_,tx,known,expired⟩ := may
    exact tidy.cut_remove known expired fuel rfl (whole id)
  | _ => exact may.cut placed tidy rfl (by simp) fuel

/-- Every call that an operation makes leaves the store in order, if it strands no folder. -/
theorem May.tidy (may : May sha256 opts env pending op c w.index) (placed : ∀ p ∈ pending, Placed p)
    (unstranded : Unstranded env (implement sha256 c) w) (tidy : Tidy w) : Tidy (Svc.handle sha256 env c w).2 := by
  refine ⟨may.sturdy placed tidy.sturdy,?_⟩
  have quiet : c.sweeps = false → (∀ tx, c ≠ .save tx) → Recoverable Nobody Nobody (Svc.handle sha256 env c w).2 := by
    intro spared other
    obtain ⟨fuel,same⟩ := run_eq_cut (Sys.handle env) (implement sha256 c) w
    exact same ▸ may.cut placed tidy spared other fuel
  cases c with
  | insert tx => exact tidy.insert unstranded
  | save tx' =>
    obtain ⟨tx,known,change⟩ := may
    exact tidy.save (change.named ▸ known) change.current
  | remove id =>
    obtain ⟨_,tx,known,expired⟩ := may
    exact tidy.remove unstranded known expired
  | _ => exact quiet rfl (by simp)

/-- Every transaction of the index can be read back from its document. -/
abbrev Legible (i : Index) : Prop := Throughout (fun _ tx => decodeMeta (encodeMeta tx) = .ok tx) i

theorem savesUnreadable_save {tx : Transaction} (readable : (SvcCall.save tx).savesUnreadable = false) :
    decodeMeta (encodeMeta tx) = .ok tx := by simpa [SvcCall.savesUnreadable] using readable

end

variable {i : Index}

section

variable [BoostJson]

theorem Legible.effect {i' : Index} {reply : c.Reply} (legible : Legible i)
    (readable : c.savesUnreadable = false) (effect : c.Effect sha256 env i reply i') : Legible i' := by
  cases c with
  | insert tx | save tx =>
    obtain ⟨_,_,rfl⟩ | ⟨_,rfl⟩ := effect
    · exact legible.insert (savesUnreadable_save readable)
    · exact legible
  | remove id =>
    obtain ⟨_,rfl⟩ | ⟨_,rfl⟩ := effect
    · exact legible.erase id
    · exact legible
  | env | find | beginUpload | writeUpload | commitUpload | discardUpload =>
    obtain ⟨rfl,_⟩ := effect
    exact legible
  | findIf | saveManifest | hashFile | removeFile | openRead =>
    obtain rfl := effect
    exact legible

/-- What holds of the machine between any two calls. -/
structure InOrder (w : World) : Prop where
  tidy : Tidy w
  keyed : Keyed w.index
  legible : Legible w.index

theorem May.inOrder (may : May sha256 opts env pending op c w.index) (placed : ∀ p ∈ pending, Placed p)
    (unstranded : Unstranded env (implement sha256 c) w) (readable : c.savesUnreadable = false) (order : InOrder w) :
    InOrder (Svc.handle sha256 env c w).2 :=
  ⟨may.tidy placed unstranded order.tidy,
    may.throughout (handle_effect sha256 env w c) (fun _ _ => rfl) (fun _ _ change _ => change.named) order.keyed,
    order.legible.effect readable (handle_effect sha256 env w c)⟩

theorem recorded_legible {disk : Disk} {tx : Transaction}
    (document : disk.lookup (documentPath tx.id .meta) = some (.file (encodeMeta tx)))
    (readable : decodeMeta (encodeMeta tx) = .ok tx) : recorded disk tx.id = .ok tx := by
  rw [recorded,document]
  dsimp only
  rw [readable]
  exact if_pos rfl

section Restart

variable {saving : Transaction → Prop} {leaving : TransactionId → Prop} (whole : Recoverable saving leaving w)
  (keyed : Keyed w.index) (legible : Legible w.index) (readable : ∀ tx, saving tx → decodeMeta (encodeMeta tx) = .ok tx)

include whole keyed legible readable

theorem Recoverable.documented (id : TransactionId) :
    (∃ tx, tx.id = id ∧ decodeMeta (encodeMeta tx) = .ok tx ∧ Stored w.disk id tx ∧
        (w.index.lookup id = some tx ∨ saving tx)) ∨
      (w.disk.lookup (transactionDir id) = none ∧ (w.index.lookup id = none ∨ leaving id)) := by
  have kept := whole.kept id
  generalize known : w.index.lookup id = there at kept
  cases kept with
  | stored stored => exact .inl ⟨_,keyed id _ known,legible id _ known,stored,.inl rfl⟩
  | ahead being named stored => exact .inl ⟨_,named,readable _ being,stored,.inr being⟩
  | gone unknown absent => exact .inr ⟨absent,unknown⟩

theorem Recoverable.loadable : Loadable w.disk := by
  intro id folder
  rcases whole.documented keyed legible readable id with ⟨tx,rfl,legible',stored,_⟩ | ⟨absent,_⟩
  · exact ⟨tx,recorded_legible stored.document legible'⟩
  · simp [absent] at folder

theorem Recoverable.found (folder : w.disk.lookup (transactionDir id) = some .directory)
    (loaded : Confide.recorded w.disk id = .ok tx) :
    tx.id = id ∧ decodeMeta (encodeMeta tx) = .ok tx ∧ Stored w.disk id tx := by
  rcases whole.documented keyed legible readable id with ⟨tx',rfl,legible',stored,_⟩ | ⟨absent,_⟩
  · rw [recorded_legible stored.document legible'] at loaded
    cases loaded
    exact ⟨rfl,legible',stored⟩
  · simp [absent] at folder

/-- Starting over what a process has left gives its index, or is a step ahead of it. -/
theorem Recoverable.restart {boot : Env} (clear : boot.Clear .openStore) :
    let started := exec boot restart.run (World.boot w.disk)
    started.1 = .ok () ∧ InOrder started.2 ∧
      ∀ id, started.2.index.lookup id = w.index.lookup id ∨
        (∃ tx, saving tx ∧ tx.id = id ∧ started.2.index.lookup id = some tx) ∨
        (leaving id ∧ started.2.index.lookup id = none) := by
  intro started
  obtain ⟨works,loads,frame,tmp,empty⟩ := restart_spec boot w.disk clear whole.top
  have loadable := whole.loadable keyed legible readable
  have loaded := (loads loadable).recorded
  change started.1 = .ok () ↔ _ at works
  change ∀ q, _ → started.2.disk.lookup q = _ at frame
  change started.2.disk.lookup tmpDir = _ at tmp
  change ∀ q, _ → _ → started.2.disk.lookup q = _ at empty
  change ∀ id tx, started.2.index.lookup id = some tx ↔ _ at loaded
  generalize started = started at *
  have outside : ∀ {id : TransactionId} {q : Path}, transactionDir id <+: q → started.2.disk.lookup q = w.disk.lookup q :=
    fun inside => frame _ (transactionDir_not_tmp inside)
  have top : started.2.disk.lookup transactionsDir = some .directory :=
    (frame _ (by simp [tmpDir,transactionsDir]; decide)).trans whole.top
  have found : ∀ {id tx}, started.2.index.lookup id = some tx → tx.id = id ∧ decodeMeta (encodeMeta tx) = .ok tx ∧
      Stored started.2.disk id tx := by
    intro id tx there
    obtain ⟨folder,recorded⟩ := (loaded id tx).mp there
    obtain ⟨named,legible',stored⟩ := whole.found keyed legible readable folder recorded
    exact ⟨named,legible',(outside (document_in_folder _ _)).trans stored.document,
      fun current => (outside (List.prefix_append _ _)).trans (stored.files current)⟩
  have again : ∀ id, (∃ tx, tx.id = id ∧ started.2.index.lookup id = some tx ∧ (w.index.lookup id = some tx ∨ saving tx)) ∨
      (started.2.index.lookup id = none ∧ w.disk.lookup (transactionDir id) = none ∧
        (w.index.lookup id = none ∨ leaving id)) := by
    intro id
    rcases whole.documented keyed legible readable id with ⟨tx,rfl,legible',stored,own⟩ | ⟨absent,unknown⟩
    · exact .inl ⟨tx,rfl,(loaded _ tx).mpr ⟨stored.folder,recorded_legible stored.document legible'⟩,own⟩
    · refine .inr ⟨Option.eq_none_iff_forall_ne_some.mpr fun tx there => ?_,absent,unknown⟩
      have folder := ((loaded id tx).mp there).1
      simp [absent] at folder
  have kept : ∀ id, Kept Nobody Nobody started.2.disk id (started.2.index.lookup id) := by
    intro id
    rcases again id with ⟨tx,_,there,_⟩ | ⟨none,absent,_⟩
    · rw [there]
      exact .stored (found there).2.2
    · exact .gone (.inl none) ((outside (List.prefix_refl _)).trans absent)
  refine ⟨works.mpr loadable,⟨⟨⟨tmp,top,fun id n present => ?_,fun id tx there => (found there).2.2.files,
    fun id tx there _ => (found there).2.2.document⟩,⟨top,kept⟩⟩,fun id tx there => (found there).1,
    fun id tx there => (found there).2.1⟩,fun id => ?_⟩
  · exact absurd (empty _ (List.prefix_append _ _) (by simp)) present
  · rcases again id with ⟨tx,named,there,own⟩ | ⟨none,_,unknown⟩
    · exact own.imp (fun known => there.trans known.symm) fun being => .inl ⟨tx,being,named,there⟩
    · exact unknown.imp (fun unknown => none.trans unknown.symm) fun leaves => .inr ⟨leaves,none⟩

end Restart

structure Sound (s : Server) : Prop where
  order : InOrder s.world
  placed : ∀ p ∈ s.pending, Placed p

section Crash

variable (sound : Sound s) (readable : ∀ call ∈ s.calls sha256 opts env op, call.1.savesUnreadable = false)

include sound readable

theorem Sound.allowed (call : SvcCall × World) (made : call ∈ s.calls sha256 opts env op) :
    May sha256 opts env s.pending op call.1 call.2.index ∧ call.1.savesUnreadable = false :=
  ⟨(step_takes sha256 opts env sound.order.keyed op).2 call made,readable call made⟩

omit readable in
theorem Sound.preserves (c : SvcCall) (w : World)
    (allowed : May sha256 opts env s.pending op c w.index ∧ c.savesUnreadable = false)
    (unstranded : Unstranded env (implement sha256 c) w) (order : InOrder w) :
    InOrder ((implement sha256 c).run (Sys.handle env) w).2 :=
  allowed.1.inOrder sound.placed unstranded allowed.2 order

theorem step_sound (unstranded : ∀ entry ∈ s.primitives sha256 opts env op, ¬ Strands env entry) :
    Sound (s.step sha256 opts env op) :=
  ⟨@interpret_invariant Svc _ World s.world Sys (implement sha256) (Sys.handle env) (fun entry => ¬ Strands env entry)
      (fun c w => May sha256 opts env s.pending op c w.index ∧ c.savesUnreadable = false) InOrder sound.preserves
      (op.program opts s.pending) (sound.allowed readable) unstranded sound.order,
    (step_orderly ⟨sound.order.keyed,sound.placed⟩ op).placed⟩

variable {fuel : Nat} (unstranded : ∀ entry ∈ (s.primitives sha256 opts env op).take fuel, ¬ Strands env entry)
  (whole : ∀ id, ¬ Bare (s.crashed sha256 opts env op fuel).disk id)

include unstranded whole

/-- Where a process may stop: in order, or ahead by one call. -/
theorem crashed_recoverable :
    let saving := fun tx => s.stopsIn sha256 opts env op fuel = some (.save tx) ∨
      s.stopsIn sha256 opts env op fuel = some (.insert tx)
    Recoverable saving (fun id => s.stopsIn sha256 opts env op fuel = some (.remove id)) (s.crashed sha256 opts env op fuel) ∧
      Keyed (s.crashed sha256 opts env op fuel).index ∧ Legible (s.crashed sha256 opts env op fuel).index ∧
      ∀ tx, saving tx → decodeMeta (encodeMeta tx) = .ok tx := by
  rcases cut_invariant sound.preserves (op.program opts s.pending) (sound.allowed readable) unstranded
    sound.order with ⟨inside,order⟩ | ⟨c,w,rest,inside,made,order,same⟩
  · change s.stopsIn sha256 opts env op fuel = none at inside
    rw [inside]
    refine ⟨⟨order.tidy.whole.top,fun id => ?_⟩,order.keyed,order.legible,by simp⟩
    exact (order.tidy.whole.kept id).mono rfl (fun there => there) fun absent => absent
  · change s.stopsIn sha256 opts env op fuel = some c at inside
    change s.crashed sha256 opts env op fuel = _ at same
    obtain ⟨may,legible⟩ := sound.allowed readable _ made
    rw [same] at whole
    simp only [inside,Option.some.injEq]
    rw [same]
    have readable : ∀ tx, c = .save tx ∨ c = .insert tx → decodeMeta (encodeMeta tx) = .ok tx := by
      rintro tx (rfl | rfl) <;> exact savesUnreadable_save legible
    refine ⟨may.recoverable sound.placed order.tidy whole,?_,?_,readable⟩
    · rcases @cut_indexed sha256 env w _ c rest with same | ⟨tx,_,same⟩ | ⟨id,_,same⟩ <;> rw [same]
      exacts [order.keyed,order.keyed.insert rfl,order.keyed.erase id]
    · rcases @cut_indexed sha256 env w _ c rest with same | ⟨tx,saves,same⟩ | ⟨id,_,same⟩ <;> rw [same]
      exacts [order.legible,order.legible.insert (readable tx saves),order.legible.erase id]

theorem Sound.restart {boot : Env} (clear : boot.Clear .openStore) :
    let started := exec boot restart.run (World.boot (s.crashed sha256 opts env op fuel).disk)
    started.1 = .ok () ∧ Sound (s.live sha256 opts (.crash env op fuel boot)) ∧
      ∀ id, started.2.index.lookup id = (s.crashed sha256 opts env op fuel).index.lookup id ∨
        (∃ tx, (s.stopsIn sha256 opts env op fuel = some (.save tx) ∨ s.stopsIn sha256 opts env op fuel = some (.insert tx)) ∧
          tx.id = id ∧ started.2.index.lookup id = some tx) ∨
        (s.stopsIn sha256 opts env op fuel = some (.remove id) ∧ started.2.index.lookup id = none) := by
  obtain ⟨whole,keyed,legible,saving⟩ := crashed_recoverable sound readable unstranded whole
  obtain ⟨ok,order,index⟩ := whole.restart keyed legible saving clear
  exact ⟨ok,⟨order,fun _ member => by cases member⟩,index⟩

end Crash

end

/-! Nothing that was there is missing, unless it was to be removed. -/

theorem insert_stays (tx : Transaction) (there : i.lookup id ≠ none) : (i.insert tx.id tx).lookup id ≠ none := by
  by_cases same : id = tx.id
  · rw [same,Finmap.lookup_insert]
    simp
  · rwa [Finmap.lookup_insert_of_ne _ same]

theorem May.erase_stays (may : May sha256 opts env pending op (.remove id') i)
    (kept : ¬ Drops op id) (there : i.lookup id ≠ none) : (i.erase id').lookup id ≠ none := by
  have other : id ≠ id' := by
    rintro rfl
    exact kept may.1
  rwa [Finmap.lookup_erase_ne other]

theorem May.stays {i' : Index} {reply : c.Reply} (may : May sha256 opts env pending op c i)
    (effect : c.Effect sha256 env i reply i') (kept : ¬ Drops op id) (there : i.lookup id ≠ none) : i'.lookup id ≠ none := by
  cases c with
  | insert tx | save tx =>
    obtain ⟨_,_,rfl⟩ | ⟨_,rfl⟩ := effect
    · exact insert_stays tx there
    · exact there
  | remove id' =>
    obtain ⟨_,rfl⟩ | ⟨_,rfl⟩ := effect
    · exact may.erase_stays kept there
    · exact there
  | env | find | beginUpload | writeUpload | commitUpload | discardUpload =>
    obtain ⟨rfl,_⟩ := effect
    exact there
  | findIf | saveManifest | hashFile | removeFile | openRead =>
    obtain rfl := effect
    exact there

section

variable [BoostJson]

theorem step_stays (keyed : Keyed s.world.index) (kept : ¬ Drops op id) (there : s.world.index.lookup id ≠ none) :
    (s.step sha256 opts env op).world.index.lookup id ≠ none :=
  (calls_invariant (Svc.handle sha256 env) (fun c w => May sha256 opts env s.pending op c w.index)
    (fun w => w.index.lookup id ≠ none) (fun c w may there => may.stays (handle_effect sha256 env w c) kept there) _ _
    (step_takes sha256 opts env keyed op).2 there).1

theorem crashed_stays (keyed : Keyed s.world.index) (kept : ¬ Drops op id) (there : s.world.index.lookup id ≠ none)
    (fuel : Nat) : (s.crashed sha256 opts env op fuel).index.lookup id ≠ none ∧
      s.stopsIn sha256 opts env op fuel ≠ some (.remove id) := by
  have may := (step_takes sha256 opts env keyed op).2
  rcases @cut_invariant Svc _ World s.world Sys (implement sha256) (Sys.handle env) (fun _ => True)
    (fun c w => May sha256 opts env s.pending op c w.index) (fun w => w.index.lookup id ≠ none)
    (fun c w may _ there => may.stays (handle_effect sha256 env w c) kept there) (op.program opts s.pending) fuel may
    (fun _ _ => trivial) there with ⟨inside,there⟩ | ⟨c,w,rest,inside,made,there,same⟩
  · exact ⟨there,fun bad => by cases inside.symm.trans bad⟩
  · have may := may _ made
    constructor
    · rw [Server.crashed,same]
      rcases @cut_indexed sha256 env w _ c rest with same | ⟨tx,_,same⟩ | ⟨id',rfl,same⟩ <;> rw [same]
      exacts [there,insert_stays tx there,may.erase_stays kept there]
    · intro bad
      cases inside.symm.trans bad
      exact kept may.1

/-- The transaction that a call which creates, receives, fills, commits or delivers one is about. -/
def Op.about (env : Env) (pending : List PendingUpload) : Op → Option TransactionId
  | .create _ _ => some env.fresh
  | .receive _ req => some req.id
  | .finishUpload k _ => pending[k]?.map (·.id)
  | .commit _ id | .markDelivered id => some id
  | _ => none

theorem about_stored (keyed : Keyed s.world.index) (ok : s.reply sha256 opts env op = .ok ())
    (about : op.about env s.pending = some id) : (s.step sha256 opts env op).world.index.lookup id ≠ none := by
  obtain ⟨⟨takes,_⟩,_⟩ := step_takes sha256 opts env keyed op
  rw [ok] at takes
  generalize (s.step sha256 opts env op).world.index = after at takes
  cases takes with
  | opened opens absent =>
    cases opens <;> (cases about; simp)
  | updated known updates stays =>
    cases updates with
    | uploaded here its =>
      simp only [Op.about,here,Option.map_some,Option.some.injEq] at about
      rw [← about,its]
      simp
    | committed | delivered =>
      cases about
      simp
    | erased | retained => contradiction
    | marked drops => exact absurd drops (stays _)
  | dropped known drops => cases drops <;> contradiction
  | streamed part => cases op <;> first | (cases part; done) | cases about

def Server.Spared (sha256 : Bytes → Sha256Digest) (opts : ServiceOptions) (s : Server) (life : Life) : Prop :=
  life.Starts ∧ s.WritesLegibly sha256 opts life ∧ s.KeepsFolders sha256 opts life

theorem live_sound (sound : Sound s) {life : Life} (spared : s.Spared sha256 opts life) : Sound (s.live sha256 opts life) := by
  obtain ⟨starts,legible,keeps⟩ := spared
  cases life with
  | serve env op => exact step_sound sound legible keeps
  | crash env op fuel boot => exact (sound.restart legible keeps.1 keeps.2 starts).2.1

theorem live_stays (sound : Sound s) {life : Life} (spared : s.Spared sha256 opts life) (kept : ¬ Drops life.op id)
    (there : s.world.index.lookup id ≠ none) : (s.live sha256 opts life).world.index.lookup id ≠ none := by
  obtain ⟨starts,legible,keeps⟩ := spared
  cases life with
  | serve env op => exact step_stays sound.order.keyed kept there
  | crash env op fuel boot =>
    obtain ⟨there,spared⟩ := @crashed_stays sha256 opts env op s id _ sound.order.keyed kept there fuel
    rcases (sound.restart legible keeps.1 keeps.2 starts).2.2 id with same | ⟨tx,_,_,saved⟩ | ⟨leaves,_⟩
    · exact fun none => there (same.symm.trans none)
    · exact fun none => absurd (saved.symm.trans none) (by simp)
    · exact absurd leaves spared

theorem empty_sound : Sound Server.empty := by
  have unknown : ∀ {id : TransactionId} {tx : Transaction}, Server.empty.world.index.lookup id ≠ some tx := by
    simp [Server.empty]
  refine ⟨⟨⟨empty_sturdy,⟨by decide,fun id => .gone (.inl (by simp [Server.empty])) ?_⟩⟩,
    fun _ _ known => absurd known unknown,fun _ _ known => absurd known unknown⟩,by simp [Server.empty]⟩
  simp [Server.empty,emptyDisk_lookup,transactionDir,tmpDir,transactionsDir]

/-- In every life of a server in which no folder is left without its meta.json, by a failure or by the process that
stops, and in which what is written is read back: the process can be started again, and finds every transaction as
it was last saved, or as it was being saved, inserted or removed; and none is missing that an operation has reported
done and that was not to be removed. -/
theorem crashes_lose_nothing (sha256 : Bytes → Sha256Digest) (opts : ServiceOptions) (before : List Life) (env boot : Env)
    (op : Op) (fuel : Nat) (starts : ∀ life ∈ before ++ [.crash env op fuel boot], life.Starts)
    (legible : Runs.Along (Server.live sha256 opts) (Server.WritesLegibly sha256 opts) Server.empty
      (before ++ [.crash env op fuel boot]))
    (keeps : Runs.Along (Server.live sha256 opts) (Server.KeepsFolders sha256 opts) Server.empty
      (before ++ [.crash env op fuel boot])) :
    let s := Runs.run (Server.live sha256 opts) Server.empty before
    let stopped := s.crashed sha256 opts env op fuel
    let started := exec boot restart.run (World.boot stopped.disk)
    started.1 = .ok () ∧
      (∀ id, started.2.index.lookup id = stopped.index.lookup id ∨
        (∃ tx, (s.stopsIn sha256 opts env op fuel = some (.save tx) ∨ s.stopsIn sha256 opts env op fuel = some (.insert tx)) ∧
          tx.id = id ∧ started.2.index.lookup id = some tx) ∨
        (s.stopsIn sha256 opts env op fuel = some (.remove id) ∧ started.2.index.lookup id = none)) ∧
      ∀ first env' op' rest id, before = first ++ .serve env' op' :: rest →
        (Runs.run (Server.live sha256 opts) Server.empty first).reply sha256 opts env' op' = .ok () →
        op'.about env' (Runs.run (Server.live sha256 opts) Server.empty first).pending = some id →
        (∀ life ∈ rest, ¬ Drops life.op id) → ¬ Drops op id → started.2.index.lookup id ≠ none := by
  have along : Runs.Along (Server.live sha256 opts) (Server.Spared sha256 opts) Server.empty _ :=
    Runs.Along.and starts (legible.both keeps)
  obtain ⟨early,⟨start,legible,keeps⟩,_⟩ := Runs.Along.append.mp along
  have sound := early.invariant Sound (fun s life sound spared => live_sound sound spared) empty_sound
  obtain ⟨ok,_,index⟩ := sound.restart legible keeps.1 keeps.2 start
  refine ⟨ok,index,?_⟩
  rintro first env' op' rest id rfl ok about kept kept'
  obtain ⟨first,⟨_,legible',keeps'⟩,later⟩ := Runs.Along.append.mp early
  have sound' := first.invariant Sound (fun s life sound spared => live_sound sound spared) empty_sound
  have there := ((Runs.Along.and kept later).invariant (fun s => Sound s ∧ s.world.index.lookup id ≠ none)
    (fun s life before spared => ⟨live_sound before.1 spared.2,live_stays before.1 spared.2 spared.1 before.2⟩)
    ⟨step_sound sound' legible' keeps',about_stored sound'.order.keyed ok about⟩).2
  rw [← Runs.run_cons,← Runs.run_append] at there
  exact live_stays sound (⟨start,legible,keeps⟩ : Server.Spared sha256 opts _ (.crash env op fuel boot)) kept' there

def SvcCall.saves : SvcCall → Bool
  | .save _ => true
  | _ => false

instance (sha256 : Bytes → Sha256Digest) (opts : ServiceOptions) (s : Server) (life : Life) :
    Decidable (s.WritesLegibly sha256 opts life) :=
  inferInstanceAs (Decidable (∀ call ∈ s.calls sha256 opts life.env life.op, call.1.savesUnreadable = false))

end

/-- The first creation fails on its meta.json. -/
def Sample.unwritable : Env := { Sample.env with fails := fun stage n => stage == .insert && n == 3 }

def uploadingLife : List Life :=
  [.serve Sample.unwritable (.create Sample.alice Sample.request),.serve Sample.env (.create Sample.alice Sample.request),
    .serve Sample.env (.beginUpload Sample.alice Sample.id Sample.path)]

def SysCall.shapes : SysCall → Bool
  | .mkdir _ | .remove _ => true
  | _ => false

theorem not_strands_of_shapes {entry : SysCall × World}
    (spared : env.fails entry.2.stage entry.2.tick = true → entry.1.shapes = false) : ¬ Strands env entry := by
  rintro ⟨fails,_,q,_,same | same,_⟩ <;> simp [same,fails,SysCall.shapes] at spared

/-- Every entry of the top folder has a meta.json. -/
def Whole (disk : Disk) : Prop :=
  ∀ path ∈ disk.nodes.keys, path.length = 2 → path.head? = some (ascii "transactions") →
    disk.lookup (path ++ [Document.fileName .meta]) ≠ none

instance (disk : Disk) : Decidable (Whole disk) := inferInstanceAs (Decidable (∀ path ∈ disk.nodes.keys, _))

theorem Whole.not_bare (whole : Whole disk) (id : TransactionId) : ¬ Bare disk id := by
  rintro ⟨folder,bare⟩
  exact whole (transactionDir id) (Finmap.mem_keys.mpr ((disk.mem_nodes _).mpr folder)) rfl rfl bare

/-- An upload after a failed and a successful creation: the process stops just after the new meta.json is in place, and
before the index is told. -/
theorem upload_survives_crash :
    let s := Runs.run (Server.live Sample.sha256 Sample.opts) Server.empty uploadingLife
    let stopped := s.crashed Sample.sha256 Sample.opts Sample.env (.finishUpload 0 none) 24
    (Server.empty.reply Sample.sha256 Sample.opts Sample.unwritable (.create Sample.alice Sample.request)).isOk = false ∧
      (s.stopsIn Sample.sha256 Sample.opts Sample.env (.finishUpload 0 none) 24).any SvcCall.saves = true ∧
      (exec Sample.env restart.run (World.boot stopped.disk)).1 = .ok () ∧
      (exec Sample.env restart.run (World.boot stopped.disk)).2.index.lookup Sample.id ≠ none := by
  intro s stopped
  have faultless : ∀ entry : SysCall × World, ¬ Strands Sample.env entry := by
    rintro entry ⟨fails,_⟩
    simp [Sample.env_faultless _ _] at fails
  have written : ∀ entry ∈ Server.empty.primitives Sample.sha256 Sample.opts Sample.unwritable
    (.create Sample.alice Sample.request),
      Sample.unwritable.fails entry.2.stage entry.2.tick = true → entry.1.shapes = false := by decide +kernel
  have whole : Whole stopped.disk := by decide +kernel
  obtain ⟨ok,_,kept⟩ := crashes_lose_nothing Sample.sha256 Sample.opts uploadingLife Sample.env Sample.env
    (.finishUpload 0 none) 24
    (by simp [uploadingLife,Life.Starts,Sample.env_faultless _]) (by decide +kernel)
    ⟨fun entry made => not_strands_of_shapes (written entry made),fun entry _ => faultless entry,fun entry _ => faultless entry,
      ⟨fun entry _ => faultless entry,whole.not_bare⟩,trivial⟩
  have created : (Runs.run (Server.live Sample.sha256 Sample.opts) Server.empty (uploadingLife.take 1)).reply Sample.sha256
      Sample.opts Sample.env (.create Sample.alice Sample.request) = .ok () := by decide +kernel
  have there := kept (uploadingLife.take 1) Sample.env (.create Sample.alice Sample.request) [_] Sample.id rfl created rfl
  have spared : ∀ life ∈ [Life.serve Sample.env (.beginUpload Sample.alice Sample.id Sample.path)],
    ¬ Drops life.op Sample.id := by
    intro life member
    obtain rfl := List.mem_singleton.mp member
    nofun
  exact ⟨by decide +kernel,by decide +kernel,ok,by simpa only [s,stopped] using there spared nofun⟩

/-- Three ways to leave a folder without meta.json, after which the server does not start: the process stops
while a transaction is created, or while one is removed, or its second folder cannot be made. -/
theorem crashes_strand_folders :
    let faulty : Env := { Sample.env with fails := fun stage n => stage == .insert && n == 1 }
    let created := Server.empty.step Sample.sha256 Sample.opts Sample.env (.create Sample.alice Sample.request)
    (exec Sample.env restart.run (World.boot (Server.empty.crashed Sample.sha256 Sample.opts Sample.env
        (.create Sample.alice Sample.request) 6).disk)).1.isOk = false ∧
      (exec Sample.env restart.run (World.boot (created.crashed Sample.sha256 Sample.opts Sample.env
        (.expire Sample.id) 19).disk)).1.isOk = false ∧
      (Server.empty.reply Sample.sha256 Sample.opts faulty (.create Sample.alice Sample.request)).isOk = false ∧
      (exec Sample.env restart.run (World.boot (Server.empty.step Sample.sha256 Sample.opts faulty
        (.create Sample.alice Sample.request)).world.disk)).1.isOk = false := by
  decide +kernel

end Confide
