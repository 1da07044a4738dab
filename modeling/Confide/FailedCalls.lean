import Confide.Uploads

/-! Which primitives an upload or a removal comes to grief on, and what is left of the transaction then. -/
namespace Confide

open Bytes Resumption Resumption.Prog DirTree

variable {sha256 : Bytes → Sha256Digest} {opts : ServiceOptions} {env : Env} {α β : Type}
  {w w' : World} {s : Server} {k : Nat} {p p' : PendingUpload} {id : TransactionId} {tx tx' : Transaction}

/-- The program succeeds exactly when none of the next `n` primitives fails, and then `after` holds. -/
def Passes (n : Nat) (env : Env) (p : SysM α) (w : World) (after : α → World → Prop) : Prop :=
  Leads (Sys.handle env) p w fun result w' =>
    (result.isOk = true ↔ ∀ m < n, env.fails w.stage (w.tick + m) = false) ∧
      ∀ value, result = .ok value → w'.stage = w.stage ∧ w'.tick = w.tick + n ∧ after value w'

variable {disk : Disk}

section Passes

variable {p : SysM α} {f : α → SysM β} {after : α → World → Prop} {after' : β → World → Prop} {n m : Nat}

theorem Passes.bind (first : Passes n env p w after) (rest : ∀ value w', after value w' → Passes m env (f value) w' after') :
    Passes (n + m) env (p >>= f) w after' := by
  unfold Passes at first ⊢
  rw [leads_exec] at first
  rw [leads_bind,leads_exec]
  generalize exec env p.run w = outcome at first ⊢
  obtain ⟨result,w'⟩ := outcome
  obtain ⟨passes,next⟩ := first
  cases result with
  | error e =>
    simp only [Except.isOk,Except.toBool,Bool.false_eq_true,false_iff] at passes ⊢
    refine ⟨fun all => passes fun k small => all k (by omega),nofun⟩
  | ok value =>
    obtain ⟨stage,tick,holds⟩ := next value rfl
    have early := passes.mp rfl
    refine (rest value w' holds).mono fun result w'' later => ?_
    dsimp only at stage tick
    rw [stage,tick] at later
    obtain ⟨passes',next'⟩ := later
    refine ⟨passes'.trans ⟨fun all k small => ?_,fun all k small => ?_⟩,fun value' same => ?_⟩
    · by_cases before : k < n
      · exact early k before
      · have := all (k - n) (by omega)
        rwa [show w.tick + n + (k - n) = w.tick + k by omega] at this
    · rw [Nat.add_assoc]
      exact all (n + k) (by omega)
    · obtain ⟨stage',tick',holds'⟩ := next' value' same
      exact ⟨stage',by omega,holds'⟩

theorem passes_pure (value : α) (holds : after value w) : Passes 0 env (pure value) w after := by
  refine leads_pure.mpr ⟨by simp [Except.isOk,Except.toBool],fun value' same => ?_⟩
  cases same
  exact ⟨rfl,rfl,holds⟩

theorem passes_skip {value : α} (run : exec env p.run w = (.ok value,w')) (stage : w'.stage = w.stage)
    (tick : w'.tick = w.tick) (rest : Passes m env (f value) w' after') : Passes m env (p >>= f) w after' := by
  unfold Passes at rest ⊢
  rw [leads_bind,leads_exec,run]
  rwa [stage,tick] at rest

theorem passes_attempt_bind {q : Prog Sys Bool} {what subject : Bytes} {f : Unit → SysM β}
    (run : exec env q w = w.attempt env (some disk)) (rest : ∀ w', w'.disk = disk → Passes m env (f ()) w' after') :
    Passes (1 + m) env (ExceptT.lift q >>= fun done => orIo done what subject >>= f) w after' := by
  have first : Passes 1 env (ExceptT.lift q >>= fun done => orIo done what subject) w fun _ w' => w'.disk = disk := by
    unfold Passes
    rw [leads_exec_bind,run,orIo,leads_exec,exec_refuse]
    cases fault : env.fails w.stage w.tick with
    | true => simp [World.attempt,fault,Except.isOk,Except.toBool]
    | false => simp [World.attempt,fault,Except.isOk,Except.toBool]
  have text : (ExceptT.lift q >>= fun done => orIo done what subject >>= f) =
      (ExceptT.lift q >>= fun done => orIo done what subject) >>= f := by simp
  rw [text]
  exact first.bind fun _ w' same => rest w' same

end Passes

variable {u : Upload} {content : Bytes}

/-- With its parent in place, an upload is moved unless one of four primitives fails. -/
theorem finish_passes {expected : Option Sha256Digest}
    (tmp : w.disk.lookup u.tmp = some (.file content)) (parent : w.disk.lookup u.final.dropLast = some .directory)
    (free : w.disk.lookup u.final ≠ some .directory) (inner : u.final ≠ [])
    (agreed : u.checkDigest (sha256 u.hashed) expected = .ok ()) :
    Passes 4 env (u.finish sha256 expected) w fun _ _ => True := by
  unfold Upload.finish
  refine passes_attempt_bind (m := 3) rfl fun w₁ same₁ => ?_
  refine passes_attempt_bind (m := 2) rfl fun w₂ same₂ => ?_
  refine passes_attempt_bind (m := 1) rfl fun w₃ same₃ => ?_
  have same : w₃.disk = w.disk := by rw [same₃,same₂,same₁]
  rw [← same] at tmp parent free
  refine passes_skip (by rw [exec_ensure,agreed]) rfl rfl ?_
  have made : exec env (ExceptT.lift (createDirectories u.final.dropLast.reverse) : SysM Made).run w₃ = (.ok .present,w₃) := by
    rw [exec_liftM,createDirectories_present (by rwa [List.reverse_reverse])]
  refine passes_skip made rfl rfl (passes_skip (exec_refuse ..) rfl rfl (passes_skip (exec_refuse ..) rfl rfl ?_))
  refine passes_skip (exec_liftM ..) rfl rfl ?_
  have noFolder : nodeStatus (w₃.disk.lookup u.final) ≠ .directory := by
    intro there
    cases node : w₃.disk.lookup u.final with
    | none => simp [node,nodeStatus] at there
    | some node' => cases node' <;> simp_all [nodeStatus]
  have goesOn : exec env (refuse (decide (nodeStatus (w₃.disk.lookup u.final) = .directory))
      ⟨.conflict,ascii "storage: '" ++ u.path.value ++ ascii "' is a directory"⟩ : SysM Unit).run w₃ = (.ok (),w₃) := by
    rw [exec_refuse,decide_eq_false noFolder]
    rfl
  refine passes_skip goesOn rfl rfl ?_
  obtain ⟨disk,moved⟩ := Option.isSome_iff_exists.mp (Tree.rename_isSome tmp inner parent free)
  refine passes_attempt_bind (m := 0) (by rw [exec_rename,moved]) fun _ _ => passes_pure _ trivial

theorem commit_isOk {expected : Option Sha256Digest} (progress : u.done = false)
    (tmp : w.disk.lookup u.tmp = some (.file content)) (parent : w.disk.lookup u.final.dropLast = some .directory)
    (free : w.disk.lookup u.final ≠ some .directory) (inner : u.final ≠ [])
    (agreed : u.checkDigest (sha256 u.hashed) expected = .ok ()) :
    (exec env (u.commit sha256 expected) w).1.1.isOk = true ↔ ∀ m < 4, env.fails w.stage (w.tick + m) = false := by
  have passes : Passes 4 env (u.finish sha256 expected) w _ := finish_passes tmp parent free inner agreed
  unfold Passes at passes
  rw [leads_exec] at passes
  rw [← passes.1,Upload.commit,if_neg (by simp [progress]),exec_bind]
  generalize exec env (u.finish sha256 expected).run w = outcome
  obtain ⟨_ | _,_⟩ := outcome <;> simp [Except.isOk,Except.toBool]

theorem commit_passes (progress : u.done = false)
    (tmp : w.disk.lookup u.tmp = some (.file content)) (parent : w.disk.lookup u.final.dropLast = some .directory)
    (free : w.disk.lookup u.final ≠ some .directory) (inner : u.final ≠ []) :
    Passes 4 env (ExceptT.lift (u.commit sha256 none) >>= fun r => ensure r.1 >>= fun _ => pure ()) w fun _ _ => True := by
  have passes : Passes 4 env (u.finish sha256 none) w _ := finish_passes tmp parent free inner rfl
  unfold Passes at passes ⊢
  rw [leads_exec] at passes
  rw [leads_exec_bind,Upload.commit,if_neg (by simp [progress]),exec_bind]
  generalize exec env (u.finish sha256 none).run w = outcome at passes ⊢
  obtain ⟨result,w'⟩ := outcome
  cases result with
  | error e =>
    refine leads_ensure_bind.mpr ⟨fun _ _ => ⟨?_,nofun⟩,fun _ bad => by simp at bad⟩
    simpa [Except.isOk,Except.toBool] using passes.1
  | ok stored =>
    obtain ⟨stage,tick,_⟩ := passes.2 stored rfl
    refine leads_ensure_bind.mpr ⟨fun _ bad => by simp at bad,fun _ _ => leads_pure.mpr ⟨?_,fun _ _ => ⟨stage,tick,trivial⟩⟩⟩
    simpa [Except.isOk,Except.toBool] using passes.1

theorem beginWrite_passes (ready : Ready w.disk id) (fresh : FreshTmp w) (final : Path) (path : RelativePath) :
    Passes 1 env (FileStore.beginWrite id final path) w fun u w' =>
      u = ⟨tmpPath id w.tmpCount,final,path,[],0,false⟩ ∧
        ∀ q, w'.disk.lookup q = if q = tmpPath id w.tmpCount then some (.file []) else w.disk.lookup q := by
  have inner : tmpPath id w.tmpCount ≠ [] := by simp [tmpPath,tmpDir]
  have fits : (w.disk.assign (tmpPath id w.tmpCount) (.file [])).isSome = true := Tree.assign_isSome.mpr
    ⟨inner,by rw [tmpPath_dropLast]; exact ready.tmp,by rw [fresh.next id]; simp⟩
  obtain ⟨disk,made⟩ := Option.isSome_iff_exists.mp fits
  unfold Passes FileStore.beginWrite FileStore.hasTransaction
  rw [leads_exec_bind,leads_refuse_bind]
  simp only [exec_bind,exec_status,pure_eq,exec_ret,ready.files,nodeStatus]
  refine ⟨fun unknown => by simp at unknown,fun _ => ?_⟩
  simp only [call_eq,leads_exec_bind,exec_nextTmp,exec_create,World.create,World.attempt,made]
  cases fault : env.fails w.stage w.tick with
  | true =>
    simp only [Bool.not_true,Bool.false_and,Bool.false_eq_true,if_true,if_false]
    refine leads_throw.mpr ⟨?_,fun _ bad => by cases bad⟩
    simp [Except.isOk,Except.toBool,fault]
  | false =>
    simp only [Bool.false_eq_true,if_false]
    refine leads_pure.mpr ⟨by simp [Except.isOk,Except.toBool,fault],fun u same => ?_⟩
    cases same
    exact ⟨rfl,rfl,rfl,Tree.assign_lookup made⟩

theorem passes_write_bind {chunk : Bytes} {m : Nat} {f : Upload → SysM β} {after : β → World → Prop}
    (progress : u.done = false) (tmp : w.disk.lookup u.tmp = some (.file content)) (some : chunk ≠ [])
    (rest : ∀ w', (∀ q, w'.disk.lookup q = if q = u.tmp then Option.some (.file (content ++ chunk)) else w.disk.lookup q) →
      Passes m env (f { u with hashed := u.hashed ++ chunk, size := u.size + UInt64.ofNat chunk.length }) w' after) :
    Passes (1 + m) env (ExceptT.lift (u.write chunk) >>= fun r => ensure r.1 >>= fun _ => f r.2) w after := by
  have inner : u.tmp ≠ [] := by
    intro root
    rw [root] at tmp
    simp at tmp
  have fits : (w.disk.assign u.tmp (.file (content ++ chunk))).isSome = true := Tree.assign_isSome.mpr
    ⟨inner,Tree.parent_directory (by rw [tmp]; simp) inner,by rw [tmp]; simp⟩
  obtain ⟨disk,made⟩ := Option.isSome_iff_exists.mp fits
  have first : Passes 1 env (ExceptT.lift (u.write chunk) >>= fun r => ensure r.1 >>= fun _ => pure r.2) w fun u' w' =>
      u' = { u with hashed := u.hashed ++ chunk, size := u.size + UInt64.ofNat chunk.length } ∧
        ∀ q, w'.disk.lookup q = if q = u.tmp then Option.some (.file (content ++ chunk)) else w.disk.lookup q := by
    unfold Passes
    rw [leads_exec_bind,Upload.write,if_neg (by simp [progress]),if_neg some]
    simp only [exec_bind,exec_append,World.append,tmp,World.attempt,made]
    cases fault : env.fails w.stage w.tick with
    | true =>
      simp only [if_true,Bool.false_eq_true,if_false,exec_bind,pure_eq,exec_ret,leads_ensure_bind]
      refine ⟨fun e _ => ⟨by simp [Except.isOk,Except.toBool,fault],fun _ bad => by cases bad⟩,fun _ bad => by simp at bad⟩
    | false =>
      simp only [Bool.false_eq_true,if_false,if_true,pure_eq,exec_ret,leads_ensure_bind]
      refine ⟨fun e bad => by simp at bad,fun _ _ =>
        leads_pure.mpr ⟨by simp [Except.isOk,Except.toBool,fault],fun u' same => ?_⟩⟩
      cases same
      exact ⟨rfl,rfl,rfl,Tree.assign_lookup made⟩
  have text : (ExceptT.lift (u.write chunk) >>= fun r => ensure r.1 >>= fun _ => f r.2) =
      (ExceptT.lift (u.write chunk) >>= fun r => ensure r.1 >>= fun _ => pure r.2) >>= f := by simp
  rw [text]
  refine first.bind fun u' w' holds => ?_
  obtain ⟨rfl,disk'⟩ := holds
  exact rest w' disk'

theorem writeDocument_passes (ready : Ready w.disk id) (fresh : FreshTmp w) {doc : Document}
    (some : content ≠ []) (free : w.disk.lookup (documentPath id doc) ≠ Option.some .directory) :
    (exec env (FileStore.writeDocument sha256 id doc content).run w).1 = .ok () ↔
      ∀ m < 6, env.fails w.stage (w.tick + m) = false := by
  have apart : documentPath id doc ≠ tmpPath id w.tmpCount := tmpPath_not_folder _ _ _ _
  have apart' : transactionDir id ≠ tmpPath id w.tmpCount := by simpa using tmpPath_not_folder id w.tmpCount id []
  have folder : w.disk.lookup (transactionDir id) = Option.some .directory :=
    w.disk.directory_above _ [ascii "files"] (by rw [← filesDir,ready.files]; simp) (by simp)
  have passes : Passes 6 env (FileStore.writeDocument sha256 id doc content) w fun _ _ => True := by
    refine Passes.bind (n := 1) (m := 5) (beginWrite_passes ready fresh (documentPath id doc) doc.path) fun u w₁ begun => ?_
    obtain ⟨rfl,disk₁⟩ := begun
    have empty : w₁.disk.lookup (tmpPath id w.tmpCount) = Option.some (.file []) := by rw [disk₁,if_pos rfl]
    refine passes_write_bind (m := 4) (f := fun u => ExceptT.lift (u.commit sha256 none) >>= fun r =>
      ensure r.1 >>= fun _ => pure ())
      rfl empty some fun w₂ disk₂ => ?_
    refine commit_passes rfl (by rw [disk₂,if_pos rfl]) ?_ ?_ (by simp [documentPath])
    · rw [documentPath_dropLast,disk₂,if_neg apart',disk₁,if_neg apart',folder]
    · rwa [disk₂,if_neg apart,disk₁,if_neg apart]
  unfold Passes at passes
  rw [leads_exec] at passes
  rw [← passes.1]
  rcases (exec env (FileStore.writeDocument sha256 id doc content).run w).1 with _ | _ <;>
    simp [Except.isOk,Except.toBool]

theorem encodeMeta_ne_nil [BoostJson] (tx : Transaction) : encodeMeta tx ≠ [] := BoostJson.serialize_ne_nil _

/-- A transaction that has not expired is saved unless one of six primitives fails. -/
theorem save_isOk [BoostJson] (sturdy : Sturdy w) (known : w.index.lookup tx'.id = some tx) (current : tx.state ≠ .expired) :
    (Svc.handle sha256 env (.save tx') w).1 = .ok () ↔ ∀ m < 6, env.fails .save m = false := by
  have ready : Ready (w.enter .save).disk tx'.id := sturdy.ready known current
  have free : (w.enter .save).disk.lookup (documentPath tx'.id .meta) ≠ some .directory := by
    rw [show (w.enter .save).disk = w.disk from rfl,sturdy.document _ _ known current]
    simp
  have written : (exec env (FileStore.writeDocument sha256 tx'.id .meta (encodeMeta tx')).run (w.enter .save)).1 = .ok () ↔
      ∀ m < 6, env.fails .save (0 + m) = false := writeDocument_passes ready sturdy.fresh (encodeMeta_ne_nil tx') free
  simp only [Nat.zero_add] at written
  rw [← written]
  change (exec env (TransactionRepository.save sha256 tx').run w).1 = .ok () ↔ _
  simp only [TransactionRepository.save,call_eq,exec_bindM,exec_liftM,exec_enter,exec_indexFind,enter_index,known,exec_refuse,
    Option.isNone_some,Bool.false_eq_true,if_false]
  generalize exec env (FileStore.writeDocument sha256 tx'.id .meta (encodeMeta tx')).run (w.enter .save) = outcome
  obtain ⟨_ | _,_⟩ := outcome <;> simp

theorem removeFile_isOk [BoostJson] {path : RelativePath} (file : w.disk.lookup (payloadPath id path) = some (.file content)) :
    (Svc.handle sha256 env (.removeFile id path) w).1 = .ok () ↔ env.fails .removeFile 0 = false := by
  have inner : payloadPath id path ≠ [] := by simp [payloadPath,RelativePath.under,filesDir]
  change (exec env (FileStore.removeFile id path).run (w.enter .removeFile)).1 = .ok () ↔ _
  obtain ⟨_,_,_,fine⟩ := remove_spec env (w.enter .removeFile) (payloadPath id path)
  rw [FileStore.removeFile]
  simp only [call_eq,exec_bindM,exec_liftM,exec_status]
  rw [show (w.enter .removeFile).disk = w.disk from rfl,file]
  simp only [nodeStatus,exec_bindM,exec_liftM,exec_remove,orIo,exec_refuse]
  cases fault : env.fails .removeFile 0 with
  | true =>
    have stuck : ((w.enter .removeFile).remove env (payloadPath id path)).1 = false := by
      simp [World.remove,World.attempt,World.enter,fault]
    simp [stuck]
  | false =>
    have done : ((w.enter .removeFile).remove env (payloadPath id path)).1 = true :=
      fine fault (.inr ⟨inner,Tree.isEmpty_of_not_directory
        (by rw [show (w.enter .removeFile).disk = w.disk from rfl,file]; simp)⟩)
    simp [done]

def Usable (sha256 : Bytes → Sha256Digest) (id : TransactionId) (w : World) : Prop :=
  ∃ tx, w.index.lookup id = some tx ∧ ∀ entry ∈ tx.files, entry.Matches sha256 w.disk id

def Op.Edits (pending : List PendingUpload) (id : TransactionId) : Op → Prop
  | .removeFile _ owner _ => owner = id
  | .finishUpload k _ => ∃ p, pending[k]? = some p ∧ p.id = id
  | _ => False

/-- The payload is changed and the rewrite of meta.json fails: a listed file is removed, or is replaced by
one of another size or digest. -/
def Op.Spoils (sha256 : Bytes → Sha256Digest) (env : Env) (pending : List PendingUpload) (tx : Transaction) : Op → Prop
  | .removeFile caller _ path => mayWrite caller tx = true ∧ (∃ entry ∈ tx.files, entry.path = path) ∧
    env.fails .removeFile 0 = false ∧ ∃ n < 6, env.fails .save n = true
  | .finishUpload k expected => ∃ p, pending[k]? = some p ∧ p.upload.done = false ∧
    (∀ want ∈ expected, want = sha256 p.upload.hashed) ∧
    (∃ entry ∈ tx.files, entry.path = p.upload.path ∧
      (entry.size ≠ p.upload.size ∨ entry.sha256 ≠ sha256 p.upload.hashed)) ∧
    (∀ n < 4, env.fails .commitUpload n = false) ∧ ∃ n < 6, env.fails .save n = true
  | _ => False

theorem payload_not_unused (id : TransactionId) (path : RelativePath) : ¬ w.Unused (payloadPath id path) := by
  rintro ⟨owner,n,_,same⟩
  exact tmpPath_outside id owner n (same ▸ files_in_folder id _)

variable {entry : FileEntry} {disk' : Disk}

theorem FileEntry.Matches.frame (good : entry.Matches sha256 disk id)
    (same : disk'.lookup (payloadPath id entry.path) = disk.lookup (payloadPath id entry.path)) :
    entry.Matches sha256 disk' id := by
  obtain ⟨content,file,right⟩ := good
  exact ⟨content,same.trans file,right⟩

theorem save_failed [BoostJson] (fresh : FreshTmp w) {e : Error} (failed : (Svc.handle sha256 env (.save tx') w).1 = .error e) :
    (Svc.handle sha256 env (.save tx') w).2.index = w.index ∧
      ∀ id path, (Svc.handle sha256 env (.save tx') w).2.disk.lookup (payloadPath id path) =
        w.disk.lookup (payloadPath id path) := by
  have effect := save_effect sha256 env tx' w fresh
  have other : (Svc.handle sha256 env (.save tx') w).1 ≠ .ok () := by rw [failed]; simp
  exact ⟨effect.failed other,fun id path => effect.document.failed other _ (payload_not_unused id path)⟩

variable {n : Nat}

theorem not_all_false {fails : Nat → Bool} (some : ¬ ∀ m < n, fails m = false) : ∃ m < n, fails m = true := by
  push Not at some
  simpa using some

theorem removeFile_usable [BoostJson] (opts : ServiceOptions) (sturdy : Sturdy w) (keyed : tx.id = id) (known : w.index.lookup id = some tx)
    (isOpen : tx.state = .open) (good : ∀ entry ∈ tx.files, entry.Matches sha256 w.disk id) (caller : Caller)
    (path : RelativePath) (pending : List PendingUpload) :
    Leads (Svc.handle sha256 env) (TransactionService.removeFile caller id path) w fun result w' =>
      ((∃ e, result = .error e) → Usable sha256 id w') ↔ ¬ Op.Spoils sha256 env pending tx (.removeFile caller id path) := by
  have current : tx.state ≠ .expired := by simp [isOpen]
  unfold TransactionService.removeFile TransactionService.findMutable
  rw [leads_locked,leads_bind,leads_find_bind,known]
  simp only [leads_refuse_bind,leads_ensure_bind,leads_pure]
  refine ⟨fun denied => ?_,fun allowed => ⟨fun e closed => ?_,fun _ _ => ⟨fun unlisted => ?_,fun listed => ?_⟩⟩⟩
  · refine iff_of_true (fun _ => ⟨tx,known,good⟩) fun spoils => ?_
    rw [spoils.1] at denied
    contradiction
  · rw [requireMutable_ok.mpr isOpen] at closed
    contradiction
  · refine iff_of_true (fun _ => ⟨tx,known,good⟩) fun spoils => ?_
    simp only [Bool.not_eq_true',List.any_eq_false,decide_eq_true_eq] at unlisted
    obtain ⟨entry,member,same⟩ := spoils.2.1
    exact unlisted entry member same
  obtain ⟨entry,member,rfl⟩ : ∃ entry ∈ tx.files, entry.path = path := by simpa using listed
  obtain ⟨content,file,_⟩ := good entry member
  have works : (Svc.handle sha256 env (.removeFile id entry.path) w).1 = .ok () ↔ _ := removeFile_isOk file
  have removed := removeFile_spec env id entry.path (w.enter .removeFile)
  rw [leads_exec] at removed
  have index : (Svc.handle sha256 env (.removeFile id entry.path) w).2.index = w.index :=
    handle_effect sha256 env w (.removeFile id entry.path)
  have may : May sha256 opts env [] (.removeFile caller id entry.path) (.removeFile id entry.path) w.index :=
    ⟨caller,tx,rfl,known,by simpa using allowed,isOpen,entry,member,rfl⟩
  have sturdy := may.sturdy nofun sturdy
  have run : (svc (.removeFile id entry.path)).run (Svc.handle sha256 env) w =
    exec env (FileStore.removeFile id entry.path).run (w.enter .removeFile) := rfl
  rw [leads_try_bind,run]
  change (exec env (FileStore.removeFile id entry.path).run (w.enter .removeFile)).1 = .ok () ↔ _ at works
  change (exec env (FileStore.removeFile id entry.path).run (w.enter .removeFile)).2.index = _ at index
  change Sturdy (exec env (FileStore.removeFile id entry.path).run (w.enter .removeFile)).2 at sturdy
  generalize exec env (FileStore.removeFile id entry.path).run (w.enter .removeFile) = outcome at works removed index sturdy
  obtain ⟨result,w₁⟩ := outcome
  dsimp only at works removed index sturdy ⊢
  obtain ⟨rfl,_,kept,gone,names,pruned,_⟩ | ⟨e,rfl,disk,_⟩ := removed
  · have known₁ : w₁.index.lookup tx.id = some tx := by rw [index,keyed,known]
    refine ⟨fun _ bad => by contradiction,fun _ _ => ?_⟩
    rw [leads_try_bind]
    have saves : (Svc.handle sha256 env (.save { tx with files := tx.files.eraseP fun file => file.path = entry.path }) w₁).1 =
      .ok () ↔ _ := save_isOk sturdy known₁ current
    refine ⟨fun e failed => ?_,fun _ saved => ?_⟩
    · obtain ⟨index',disk'⟩ := save_failed sturdy.fresh failed
      refine iff_of_false (fun usable => ?_) (not_not.mpr ⟨by simpa using allowed,⟨entry,member,rfl⟩,works.mp rfl,?_⟩)
      · obtain ⟨tx',found,good'⟩ := usable ⟨e,rfl⟩
        rw [run_save,index',index,known] at found
        cases found
        obtain ⟨_,file',_⟩ := good' entry member
        rw [run_save,disk',payloadPath,RelativePath.under,Pruned.inside pruned,
          if_pos ⟨kept_above names,kept_shorter names,List.prefix_refl _⟩] at file'
        contradiction
      · refine not_all_false fun all => ?_
        rw [run_save,saves.mpr all] at failed
        contradiction
    · refine leads_record.mpr (iff_of_true (by simp) fun spoils => ?_)
      obtain ⟨_,_,_,n,small,fault⟩ := spoils
      rw [saves.mp saved n small] at fault
      contradiction
  · refine ⟨fun e' _ => iff_of_true (fun _ => ⟨tx,by rw [index,known],?_⟩) fun spoils => ?_,fun _ bad => by contradiction⟩
    · rw [disk]
      exact good
    · exact absurd (works.mpr spoils.2.2.1) (by simp)

variable {owner : TransactionId}

/-- A file that is moved into place leaves every other file of the transaction as it is. -/
theorem Moved.keeps {path : RelativePath}
    (moved : Moved disk disk' (tmpPath owner n) (payloadPath id path) content) (other : entry.path ≠ path)
    (good : entry.Matches sha256 disk id) : entry.Matches sha256 disk' id := by
  refine good.frame ?_
  obtain ⟨old,file,_⟩ := good
  rw [moved.result,if_neg fun same => other (payloadPath_injective same),if_neg,if_neg]
  · exact fun short => moved.parents _ old short file
  · exact fun same => tmpPath_outside id owner n (same ▸ files_in_folder id _)

theorem Grown.keeps {disk'' : Disk} {final : Path}
    (grown : Grown disk disk' final) (given : GivenUp disk' disk'' (tmpPath owner n)) (good : entry.Matches sha256 disk id) :
    entry.Matches sha256 disk'' id := by
  refine good.frame ?_
  obtain ⟨old,file,_⟩ := good
  have other : payloadPath id entry.path ≠ tmpPath owner n := fun same =>
    tmpPath_outside id owner n (same ▸ files_in_folder id _)
  exact (given.1 _ other).trans (grown.kept (by rw [file]; simp))

section

variable [BoostJson]

section Finish

variable {pending : List PendingUpload} {expected : Option Sha256Digest} {u : Upload} {w₁ : World}

section

variable (flow : Flow w pending) (here : pending[k]? = some p)
include flow here

theorem replaces_isOk
    (good : entry.Matches sha256 w.disk p.id) (same : entry.path = p.upload.path) (progress : p.upload.done = false)
    (agreed : ∀ want ∈ expected, want = sha256 p.upload.hashed) :
    (Svc.handle sha256 env (.commitUpload p.upload expected) w).1.1.isOk = true ↔
      ∀ n < 4, env.fails .commitUpload n = false := by
  obtain ⟨content,file,_⟩ := good
  have live := flow.live p (List.mem_of_getElem? here) progress
  have file : w.disk.lookup p.upload.final = some (.file content) := by rw [live.final,← same,file]
  have inner : p.upload.final ≠ [] := by simp [live.final,payloadPath,RelativePath.under,filesDir]
  have checked : p.upload.checkDigest (sha256 p.upload.hashed) expected = .ok () := by
    cases expected with
    | none => rfl
    | some want => exact if_pos (agreed want rfl)
  have moves : (exec env (p.upload.commit sha256 expected) (w.enter .commitUpload)).1.1.isOk = true ↔
      ∀ n < 4, env.fails .commitUpload (0 + n) = false :=
    commit_isOk progress live.content (Tree.parent_directory (ne_of_eq_of_ne file (by simp)) inner)
      (ne_of_eq_of_ne file (by simp)) inner checked
  simp only [Nat.zero_add] at moves
  exact moves

theorem refused_keeps {e : Error}
    (run : Svc.handle sha256 env (.commitUpload p.upload expected) w = ((.error e,u),w₁))
    (good : entry.Matches sha256 w.disk p.id) : entry.Matches sha256 w₁.disk p.id := by
  cases progress : p.upload.done with
  | true =>
    obtain ⟨_,rfl⟩ : _ ∧ w₁ = w.enter .commitUpload := by
      simpa using run.symm.trans (commitUpload_done sha256 env expected w progress)
    exact good
  | false =>
    have live := flow.live p (List.mem_of_getElem? here) progress
    obtain ⟨n,_,tmp⟩ := live.tmp
    obtain ⟨_,_,done⟩ := live.commit progress sha256 env expected
    rw [run] at done
    obtain ⟨bad,_⟩ | ⟨_,disk,_,grown,given,_⟩ := done
    · contradiction
    · exact grown.keeps (tmp ▸ given) good

/-- An upload that is stored was in progress, had the digest it was to have, and is moved to its place. -/
theorem stored_moves {file : StoredFile}
    (run : Svc.handle sha256 env (.commitUpload p.upload expected) w = ((.ok file,u),w₁)) :
    p.upload.done = false ∧ (∀ want ∈ expected, want = sha256 p.upload.hashed) ∧
      ∃ owner n, Moved w.disk w₁.disk (tmpPath owner n) (payloadPath p.id p.upload.path) p.upload.hashed := by
  have progress : p.upload.done = false := by
    cases progress : p.upload.done with
    | false => rfl
    | true => simpa using run.symm.trans (commitUpload_done sha256 env expected w progress)
  have live := flow.live p (List.mem_of_getElem? here) progress
  obtain ⟨n,_,tmp⟩ := live.tmp
  obtain ⟨_,_,done⟩ := live.commit progress sha256 env expected
  rw [run] at done
  obtain ⟨_,agreed,_,moved⟩ | ⟨_,_,bad,_⟩ := done
  · rw [tmp,live.final] at moved
    exact ⟨progress,agreed,_,n,moved⟩
  · contradiction

end

omit [BoostJson] in
/-- If the list is not saved, the file in place is no longer the listed one, unless both are the same. -/
theorem unsaved_usable {w₂ : World} (size : p.upload.size = UInt64.ofNat p.upload.hashed.length)
    (moved : Moved w.disk w₁.disk (tmpPath owner n) (payloadPath p.id p.upload.path) p.upload.hashed)
    (good : ∀ entry ∈ tx.files, entry.Matches sha256 w.disk p.id) (known : w₂.index.lookup p.id = some tx)
    (disk : ∀ path, w₂.disk.lookup (payloadPath p.id path) = w₁.disk.lookup (payloadPath p.id path)) :
    Usable sha256 p.id w₂ ↔ ∀ entry ∈ tx.files, entry.path = p.upload.path →
      entry.size = p.upload.size ∧ entry.sha256 = sha256 p.upload.hashed := by
  constructor
  · rintro ⟨tx',found,good'⟩ entry member same
    obtain rfl := Option.some.inj (known.symm.trans found)
    obtain ⟨content,file,right⟩ := good' entry member
    rw [disk,moved.result,same,if_pos rfl] at file
    obtain rfl : p.upload.hashed = content := by simpa using file
    rwa [size]
  · intro right
    refine ⟨tx,known,fun entry member => FileEntry.Matches.frame ?_ (disk entry.path)⟩
    by_cases other : entry.path = p.upload.path
    · refine ⟨p.upload.hashed,by rw [moved.result,other,if_pos rfl],?_⟩
      rw [← size]
      exact right entry member other
    · exact moved.keeps other (good entry member)

theorem finishUpload_usable (opts : ServiceOptions) (sturdy : Sturdy w)
    (placed : ∀ p ∈ pending, Placed p) (flow : Flow w pending) (here : pending[k]? = some p) (keyed : tx.id = p.id)
    (known : w.index.lookup p.id = some tx) (isOpen : tx.state = .open)
    (good : ∀ entry ∈ tx.files, entry.Matches sha256 w.disk p.id) (expected : Option Sha256Digest) :
    ((∃ e, (perform sha256 env (TransactionService.finishUpload p expected) w).1.1 = .error e) →
        Usable sha256 p.id (perform sha256 env (TransactionService.finishUpload p expected) w).2) ↔
      ¬ Op.Spoils sha256 env pending tx (.finishUpload k expected) := by
  have current : tx.state ≠ .expired := by simp [isOpen]
  have may : May sha256 opts env pending (.finishUpload k expected) (.commitUpload p.upload expected) w.index :=
    ⟨k,p,tx,rfl,here,rfl,known,isOpen⟩
  have sturdy₁ := may.sturdy placed sturdy
  have index₁ : (Svc.handle sha256 env (.commitUpload p.upload expected) w).2.index = w.index :=
    (handle_effect sha256 env w (.commitUpload p.upload expected)).1
  refine finishUpload_rule (P := fun result w' => ((∃ e, result.1 = .error e) → Usable sha256 p.id w') ↔
    ¬ Op.Spoils sha256 env pending tx (.finishUpload k expected)) (fun none => ?_) (fun tx' e found closed => ?_)
    (fun tx' e u w₁ found _ run => ?_) fun tx' file u w₁ found _ run => ?_
  · rw [known] at none
    contradiction
  · rw [known] at found
    exact absurd (Option.some.inj found ▸ isOpen) closed
  · rw [run] at index₁
    refine iff_of_true (fun _ => ⟨tx,by rw [index₁,known],fun entry member => refused_keeps flow here run
      (good entry member)⟩) ?_
    rintro ⟨p',here',progress,agreed,⟨entry,member,same,_⟩,moves,_⟩
    obtain rfl := Option.some.inj (here.symm.trans here')
    have stored := (replaces_isOk flow here (good entry member) same progress agreed).mpr moves
    rw [run] at stored
    simp [Except.isOk,Except.toBool] at stored
  · obtain rfl := Option.some.inj (known.symm.trans found)
    obtain ⟨progress,agreed,owner,n,moved⟩ := stored_moves flow here run
    have live := flow.live p (List.mem_of_getElem? here) progress
    rw [run] at sturdy₁ index₁
    have known₁ : w₁.index.lookup tx.id = some tx := by rw [index₁,keyed,known]
    have saves : (Svc.handle sha256 env (.save { tx with files := upsertFile tx.files file.entry }) w₁).1 = .ok () ↔ _ :=
      save_isOk sturdy₁ known₁ current
    refine ⟨fun e failed => ?_,fun saved _ => iff_of_true (by simp) fun spoils => ?_⟩
    · obtain ⟨index',disk'⟩ := save_failed sturdy₁.fresh failed
      have usable := unsaved_usable live.size moved good (by rw [index',index₁,known]) (disk' p.id)
      constructor
      · rintro kept ⟨p',here',_,_,⟨entry,member,same,different⟩,_⟩
        obtain rfl := Option.some.inj (here.symm.trans here')
        obtain ⟨size,digest⟩ := usable.mp (kept ⟨e,rfl⟩) entry member same
        exact different.elim (absurd size) (absurd digest)
      · intro spared _
        refine usable.mpr fun entry member same => ?_
        by_contra different
        refine spared ⟨p,here,progress,agreed,⟨entry,member,same,not_and_or.mp different⟩,?_,?_⟩
        · exact (replaces_isOk flow here (good entry member) same progress agreed).mp (by rw [run]; rfl)
        · refine not_all_false fun all => ?_
          rw [saves.mpr all] at failed
          contradiction
    · obtain ⟨_,_,_,_,_,_,n,small,fault⟩ := spoils
      rw [saves.mp saved n small] at fault
      contradiction

end Finish

structure Durable (s : Server) : Prop where
  orderly : Orderly s
  sturdy : Sturdy s.world
  flow : Flow s.world s.pending

theorem step_durable (durable : Durable s) (op : Op) : Durable (s.step sha256 opts env op) :=
  ⟨step_orderly durable.orderly op,step_sturdy durable.orderly durable.sturdy op,
    step_flow durable.flow durable.orderly durable.sturdy op⟩

theorem run_durable (durable : Durable s) (steps : List (Env × Op)) : Durable (s.run sha256 opts steps) := by
  induction steps generalizing s with
  | nil => exact durable
  | cons step rest ih => exact ih (step_durable durable step.2)

theorem empty_durable : Durable Server.empty := ⟨empty_orderly,empty_sturdy,nofun,List.Pairwise.nil⟩

/-- In every state that a server reaches, whatever has failed before, and for every open transaction whose entries
are borne out by their files: a removal or the end of an upload that returns an error leaves the transaction so,
exactly unless it had already removed or replaced a listed file when the rewrite of meta.json failed. -/
theorem failed_calls_keep_files (sha256 : Bytes → Sha256Digest) (opts : ServiceOptions) (steps : List (Env × Op)) (s : Server)
    (reached : s = Server.empty.run sha256 opts steps) (id : TransactionId) (tx : Transaction)
    (known : s.world.index.lookup id = some tx) (isOpen : tx.state = .open)
    (good : ∀ entry ∈ tx.files, entry.Matches sha256 s.world.disk id) (env : Env) (op : Op) (edits : op.Edits s.pending id) :
    ((∃ e, s.reply sha256 opts env op = .error e) → Usable sha256 id (s.step sha256 opts env op).world) ↔
      ¬ op.Spoils sha256 env s.pending tx := by
  have durable : Durable s := reached ▸ run_durable empty_durable steps
  have keyed : tx.id = id := durable.orderly.keyed id tx known
  cases op with
  | removeFile caller owner path =>
    obtain rfl : owner = id := edits
    have usable : Leads (Svc.handle sha256 env) (TransactionService.removeFile caller owner path) s.world _ :=
      removeFile_usable opts durable.sturdy keyed known isOpen good caller path s.pending
    rw [Leads] at usable
    rw [← usable]
    simp only [Server.reply,Server.step,Server.outcome,Op.program,perform,report,run_bind]
    generalize (TransactionService.removeFile caller owner path).run.run (Svc.handle sha256 env) s.world = outcome
    obtain ⟨_ | _,_⟩ := outcome <;> simp [Except.map]
  | finishUpload k expected =>
    obtain ⟨p,here,rfl⟩ := edits
    rw [← finishUpload_usable opts durable.sturdy durable.orderly.placed durable.flow here keyed known isOpen good expected]
    simp only [Server.reply,Server.step,Server.outcome,Op.program,here,perform,run_bind]
    generalize (TransactionService.finishUpload p expected).run (Svc.handle sha256 env) s.world = outcome
    obtain ⟨⟨_ | _,_⟩,_⟩ := outcome <;> simp [Except.map]
  | _ => exact edits.elim

end

/-- The unlink of the payload fails: the transaction is as it was. -/
theorem failed_unlink_keeps_file :
    let s := Server.empty.run Sample.sha256 Sample.opts uploadRun
    let faulty : Env := { Sample.env with fails := fun stage _ => stage == .removeFile }
    (∃ e, s.reply Sample.sha256 Sample.opts faulty (.removeFile Sample.alice Sample.id Sample.path) = .error e) ∧
      Usable Sample.sha256 Sample.id
        (s.step Sample.sha256 Sample.opts faulty (.removeFile Sample.alice Sample.id Sample.path)).world := by
  intro s faulty
  have refused : (s.reply Sample.sha256 Sample.opts faulty
      (.removeFile Sample.alice Sample.id Sample.path)).isOk = false := by decide +kernel
  have errs : ∃ e, s.reply Sample.sha256 Sample.opts faulty (.removeFile Sample.alice Sample.id Sample.path) = .error e := by
    generalize s.reply Sample.sha256 Sample.opts faulty _ = answer at refused
    cases answer with
    | ok => contradiction
    | error e => exact ⟨e,rfl⟩
  have file : s.world.disk.lookup (payloadPath Sample.id Sample.path) = some (.file []) := by decide +kernel
  have good : ∀ entry ∈ uploadedTransaction.files, entry.Matches Sample.sha256 s.world.disk Sample.id := by
    intro entry listed
    obtain rfl := List.mem_singleton.mp listed
    exact ⟨[],file,rfl,rfl⟩
  exact ⟨errs,(failed_calls_keep_files Sample.sha256 Sample.opts uploadRun s rfl Sample.id uploadedTransaction
    (by decide +kernel) rfl good faulty (.removeFile Sample.alice Sample.id Sample.path) rfl).mpr
    (fun spoils => absurd spoils.2.2.1 (by decide)) errs⟩

/-- The second upload to a path ends, or the file is removed, and then the rename of meta.json fails: the entry
stays, and the next commit is refused for it. -/
theorem failed_rewrites_spoil_files :
    let faulty : Env := { Sample.env with fails := fun stage n => stage == .save && n == 5 }
    let s := Server.empty.run Sample.sha256 Sample.opts (uploadRun ++
      [(Sample.env,.beginUpload Sample.alice Sample.id Sample.path),(Sample.env,.writeUpload 1 [0x78])])
    let removed := s.step Sample.sha256 Sample.opts faulty (.removeFile Sample.alice Sample.id Sample.path)
    let replaced := s.step Sample.sha256 Sample.opts faulty (.finishUpload 1 none)
    s.world.index.lookup Sample.id = some uploadedTransaction ∧
      s.world.disk.lookup (payloadPath Sample.id Sample.path) = some (.file []) ∧
      (s.reply Sample.sha256 Sample.opts faulty (.removeFile Sample.alice Sample.id Sample.path)).isOk = false ∧
      (s.reply Sample.sha256 Sample.opts faulty (.finishUpload 1 none)).isOk = false ∧
      removed.world.index.lookup Sample.id = some uploadedTransaction ∧
      removed.world.disk.lookup (payloadPath Sample.id Sample.path) = none ∧
      replaced.world.index.lookup Sample.id = some uploadedTransaction ∧
      replaced.world.disk.lookup (payloadPath Sample.id Sample.path) = some (.file [0x78]) ∧
      (removed.reply Sample.sha256 Sample.opts Sample.env (.commit Sample.alice Sample.id)).isOk = false ∧
      (replaced.reply Sample.sha256 Sample.opts Sample.env (.commit Sample.alice Sample.id)).isOk = false := by
  decide +kernel

end Confide
