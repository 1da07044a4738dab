import Confide.Health

/-! Every operation that meets no fault keeps the index and the disk in agreement, so every
run from an empty store does. -/
namespace Confide

open Bytes Resumption.Prog DirTree

variable {sha256 : Bytes → Sha256Digest} {disk disk' : Disk} {id : TransactionId} {tx tx' : Transaction}

variable [BoostJson]

section Operations

variable {env : Env} {w : World} {pending : List PendingUpload} {opts : ServiceOptions}

abbrev Keeps (sha256 : Bytes → Sha256Digest) (env : Env) (pending : List PendingUpload) (p : SvcM α) (w : World) : Prop :=
  Leads (Svc.handle sha256 env) p w fun _ w' => Healthy sha256 none ⟨w',pending⟩

theorem Healthy.logged {aside : Option TransactionId} (healthy : Healthy sha256 aside ⟨w,pending⟩) (log : List BizEvent) :
    Healthy sha256 aside ⟨{ w with log := log },pending⟩ :=
  ⟨healthy.tmp,healthy.top,healthy.fresh,healthy.agrees,
    fun p member progress => (healthy.live p member progress).frame (Nat.le_refl _) rfl,healthy.apart⟩

section

variable (healthy : Healthy sha256 none ⟨w,pending⟩)
include healthy

theorem create_keeps (faultless : env.Faultless) (caller : Caller)
    (req : CreateRequest) : Keeps sha256 env pending (TransactionService.create opts caller req) w := by
  unfold Keeps TransactionService.create
  simp only [leads_refuse_bind,leads_ensure_bind,leads_try_bind,leads_now_bind,leads_generate_bind,
    leads_record_bind,run_insert,
    run_checkDestination]
  refine ⟨fun _ => healthy,fun _ => ⟨fun _ => healthy,fun _ => ⟨fun _ => healthy,fun _ => ⟨fun _ => healthy,fun _ =>
    ⟨fun _ _ => healthy,fun _ _ => ⟨fun _ _ => healthy,fun _ _ => ⟨fun _ _ => healthy,fun expires _ => ⟨?_,?_⟩⟩⟩⟩⟩⟩⟩⟩
  · intro e _
    exact healthy.insert (faultless .insert) rfl rfl
  · intro _ _
    exact leads_pure.mpr ((healthy.insert (faultless .insert) rfl rfl).logged _)

theorem receive_keeps (faultless : env.Faultless) (peer : Caller)
    (req : ReceiveRequest) : Keeps sha256 env pending (TransactionService.receive opts peer req) w := by
  unfold Keeps TransactionService.receive
  simp only [leads_refuse_bind,leads_ensure_bind,leads_try_bind,leads_locked,run_insert,run_checkDestination]
  refine ⟨fun _ => healthy,fun _ => ⟨fun _ => healthy,fun _ => ⟨fun _ => healthy,fun _ => ⟨fun _ _ => healthy,fun _ _ =>
    ⟨fun _ _ => healthy,fun _ _ => ⟨?_,?_⟩⟩⟩⟩⟩⟩
  · intro e _
    exact healthy.insert (faultless .insert) rfl rfl
  · intro _ _
    exact leads_pure.mpr (healthy.insert (faultless .insert) rfl rfl)

/-- What the disk holds for a transaction in the index. -/
theorem Healthy.folder (known : w.index.lookup id = some tx) :
    Folder sha256 w.disk id tx := by
  have agrees := healthy.agrees id (by simp)
  rw [known] at agrees
  exact agrees

/-- A change of what is not in the folder needs a new meta.json only. -/
theorem Healthy.resave (tx' : Transaction) (clear : env.Clear .save)
    (known : w.index.lookup tx.id = some tx) (named : tx'.id = tx.id) (files : tx'.files = tx.files)
    (state : tx.state = .open ↔ tx'.state = .open) (current : tx'.state ≠ .expired → tx.state ≠ .expired) :
    (Svc.handle sha256 env (.save tx') w).1 = .ok () ∧
      (Svc.handle sha256 env (.save tx') w).2.index = w.index.insert tx'.id tx' ∧
      Healthy sha256 none ⟨(Svc.handle sha256 env (.save tx') w).2,pending⟩ := by
  have folder := healthy.folder known
  refine healthy.save tx' (.inl rfl) clear (by rw [named,known]; simp) ?_ ?_ ?_
  · rw [named,folder.document]
    simp
  · intro alive
    rw [named,folder.manifest (current alive),manifestOf,manifestOf,encodeManifest,encodeManifest,manifestFields,manifestFields,
      named,files]
    simp only [state]
  · rw [named,files]
    exact folder.payload

theorem markDelivered_keeps (faultless : env.Faultless)
    (id : TransactionId) : Keeps sha256 env pending (TransactionService.markDelivered id) w := by
  unfold Keeps TransactionService.markDelivered
  simp only [leads_locked,leads_find_bind]
  cases known : w.index.lookup id with
  | none => exact healthy
  | some tx =>
    have named := (healthy.folder known).named
    subst named
    simp only [leads_ensure_bind,leads_now_bind,leads_try_bind,run_save]
    refine ⟨fun _ _ => healthy,fun _ allowed => ?_⟩
    have committed := checkTransition_delivered.mp allowed
    have saved := healthy.resave { tx with state := .delivered, deliveredAt := some env.now } (faultless .save) known
      rfl rfl (by simp [committed]) (by simp [committed])
    rw [saved.1]
    exact ⟨fun _ bad => by contradiction,fun _ _ => saved.2.2.logged _⟩

theorem setRetention_keeps (faultless : env.Faultless) (admin : Caller)
    (id : TransactionId) (days : Int) :
    Keeps sha256 env pending (TransactionService.setRetention opts admin id days) w := by
  unfold Keeps TransactionService.setRetention
  simp only [leads_refuse_bind,leads_locked,leads_find_bind]
  refine ⟨fun _ => healthy,fun _ => ⟨fun _ => healthy,fun _ => ?_⟩⟩
  cases known : w.index.lookup id with
  | none => exact healthy
  | some tx =>
    have named := (healthy.folder known).named
    subst named
    simp only [leads_refuse_bind,leads_ensure_bind,leads_record_bind,
      leads_try_bind,run_save]
    refine ⟨fun _ => healthy,fun _ => ⟨fun _ _ => healthy,fun expires _ => ?_⟩⟩
    have saved := healthy.resave { tx with expiresAt := expires } (faultless .save) known rfl rfl Iff.rfl id
    rw [saved.1]
    exact ⟨fun _ bad => by contradiction,fun _ _ => leads_pure.mpr (saved.2.2.logged _)⟩

theorem Healthy.there (known : w.index.lookup id = some tx) :
    w.disk.lookup (transactionDir id) = some .directory :=
  w.disk.directory_above _ [ascii "files"] (by
    rw [show transactionDir id ++ [ascii "files"] = filesDir id from rfl,(healthy.folder known).payload.directory]
    simp) (by simp)

theorem markExpired_leads (faultless : env.Faultless)
    (known : w.index.lookup tx.id = some tx) :
    Leads (Svc.handle sha256 env) (TransactionService.markExpired tx) w fun result w' =>
      (∃ tx', result = .ok tx') ∧ Healthy sha256 none ⟨w',pending⟩ ∧
        w'.disk.lookup (transactionDir tx.id) = some .directory ∧ w'.index.erase tx.id = w.index.erase tx.id := by
  have there := healthy.there known
  have folder := healthy.folder known
  unfold TransactionService.markExpired
  split
  · exact leads_pure.mpr ⟨⟨_,rfl⟩,healthy,there,rfl⟩
  · rename_i current
    simp only [leads_ensure_bind,leads_try_bind,run_save]
    refine ⟨fun e refused => ?_,fun _ _ => ?_⟩
    · rw [checkTransition_expired.mpr current] at refused
      contradiction
    obtain ⟨ok,index,after⟩ := healthy.save { tx with state := .expired } (.inl rfl) (faultless .save)
      (by simp [known]) (by simp [folder.document]) (fun alive => absurd rfl alive) folder.payload
    have marked := (congrArg (Finmap.lookup tx.id) index).trans (Finmap.lookup_insert w.index)
    rw [ok]
    refine ⟨fun _ bad => by contradiction,fun _ _ => leads_pure.mpr ⟨⟨_,rfl⟩,after,after.there marked,?_⟩⟩
    rw [index,erase_insert]

/-- What is destroyed is gone, and nothing else. -/
theorem destroy_leads (faultless : env.Faultless) (id : TransactionId)
    (type : BizEventType) (actor : Caller) :
    Leads (Svc.handle sha256 env) (TransactionService.destroy id type actor) w fun _ w' =>
      Healthy sha256 none ⟨w',pending⟩ ∧ w'.index = w.index.erase id := by
  unfold TransactionService.destroy
  simp only [leads_locked_bind]
  rw [leads_bind]
  simp only [leads_find_bind]
  cases known : w.index.lookup id with
  | none => exact leads_throw.mpr ⟨healthy,(erase_absent _ _ known).symm⟩
  | some tx =>
    have named := (healthy.folder known).named
    subst named
    dsimp only
    rw [leads_bind]
    refine (markExpired_leads healthy faultless known).mono ?_
    rintro _ w₁ ⟨⟨tx',rfl⟩,marked,there,index₁⟩
    have removed := marked.remove (.inl rfl) (faultless .remove) (by rw [there]; simp)
    simp only [leads_try_bind,run_remove]
    generalize Svc.handle sha256 env (.remove tx.id) w₁ = outcome at removed
    obtain ⟨result,w₂⟩ := outcome
    obtain ⟨ok,index,after⟩ := removed
    refine ⟨fun _ bad => ?_,fun _ _ => ?_⟩
    · rw [ok] at bad
      contradiction
    · exact leads_record.mpr (leads_eraseLock.mpr ⟨after.logged _,index.trans index₁⟩)

end

theorem Healthy.idle {w' : World} {aside : Option TransactionId} (healthy : Healthy sha256 aside ⟨w,pending⟩)
    (disk : w'.disk = w.disk) (index : w'.index = w.index) (count : w.tmpCount ≤ w'.tmpCount) :
    Healthy sha256 aside ⟨w',pending⟩ := by
  refine ⟨disk ▸ healthy.tmp,disk ▸ healthy.top,healthy.fresh.same count fun _ _ => by rw [disk],?_,?_,healthy.apart⟩
  · simp only [disk,index]
    exact healthy.agrees
  · exact fun p member progress => (healthy.live p member progress).frame count (by rw [disk])

theorem removeFile_keeps (healthy : Healthy sha256 none ⟨w,pending⟩) (faultless : env.Faultless) (caller : Caller)
    (id : TransactionId) (path : RelativePath) :
    Keeps sha256 env pending (TransactionService.removeFile caller id path) w := by
  unfold Keeps TransactionService.removeFile
  rw [leads_locked]
  refine leads_findMutable_bind (fun _ => healthy) fun tx known allowed isOpen => ?_
  have folder := healthy.folder known
  obtain rfl := folder.named
  have removed := removeFile_spec env tx.id path (w.enter .removeFile)
  have still := (exec_still env (removeFile_quiet tx.id path) (w.enter .removeFile)).unindexed
  rw [leads_exec] at removed
  simp only [leads_refuse_bind,leads_try_bind,removeFile_run,run_save]
  generalize exec env (FileStore.removeFile tx.id path).run (w.enter .removeFile) = outcome at removed still
  obtain ⟨result,w₁⟩ := outcome
  dsimp only at removed still ⊢
  refine ⟨fun _ => healthy,fun _ => ?_⟩
  rcases removed with ⟨rfl,⟨content,file⟩,kept,gone,names,pruned,stopped⟩ | ⟨e,rfl,same,_⟩
  swap
  · exact ⟨fun _ _ => healthy.idle same still.index still.count,fun _ bad => by contradiction⟩
  refine ⟨fun _ bad => by contradiction,fun _ _ => ?_⟩
  have payload := folder.payload.erase names pruned file (stopped (faultless _))
  have outside : ∀ q, ¬ filesDir tx.id <+: q → w₁.disk.lookup q = w.disk.lookup q := fun q other => by
    rw [pruned,if_neg]
    · rfl
    · exact fun chain => other ((List.prefix_append _ _).trans chain.1)
  have document : ∀ doc, w₁.disk.lookup (documentPath tx.id doc) = w.disk.lookup (documentPath tx.id doc) := by
    intro doc
    apply outside
    rintro ⟨q,same⟩
    exact document_apart q same.symm
  have aside : Healthy sha256 (some tx.id) ⟨w₁,pending⟩ := by
    refine healthy.confined (.inl rfl) ?_ still.count (fun _ _ => by rw [still.index]) fun q other _ => outside q ?_
    · refine healthy.fresh.same still.count fun id n => outside _ fun above => ?_
      exact tmpPath_outside tx.id id n ((List.prefix_append _ _).trans above)
    · exact fun above => other ((List.prefix_append _ _).trans above)
  have saved := aside.save { tx with files := tx.files.eraseP fun file => file.path = path } (.inr rfl)
    (faultless .save) (by simp [still.index,known]) (by simp [document,folder.document]) 
    (fun _ => by simp [document,folder.manifest,manifestOf,isOpen]) payload
  rw [saved.1]
  exact ⟨fun _ bad => by contradiction,fun _ _ => saved.2.2.logged _⟩

theorem Healthy.saveManifest (healthy : Healthy sha256 none ⟨w,pending⟩) (tx : Transaction)
    (clear : env.Clear .saveManifest) (files : w.disk.lookup (filesDir tx.id) = some .directory)
    (free : w.disk.lookup (documentPath tx.id .manifest) ≠ some .directory) :
    (Svc.handle sha256 env (.saveManifest tx) w).1 = .ok () ∧
      (Svc.handle sha256 env (.saveManifest tx) w).2.index = w.index ∧
      (∀ q, (Svc.handle sha256 env (.saveManifest tx) w).2.disk.lookup q =
        if q = documentPath tx.id .manifest then some (.file (encodeManifest tx)) else w.disk.lookup q) ∧
      Healthy sha256 (some tx.id) ⟨(Svc.handle sha256 env (.saveManifest tx) w).2,pending⟩ := by
  obtain ⟨effect,index,works⟩ := saveManifest_effect sha256 env tx w healthy.fresh
  have ok := works clear ⟨healthy.tmp,files⟩ free
  have disk := effect.done ok
  refine ⟨ok,index,disk,?_⟩
  refine healthy.confined (.inl rfl) effect.fresh effect.count (fun _ _ => by rw [index]) fun q outside _ => ?_
  rw [disk,if_neg]
  rintro rfl
  exact outside (document_in_folder tx.id .manifest)

theorem commit_leads (healthy : Healthy sha256 none ⟨w,pending⟩) (faultless : env.Faultless) (caller : Caller)
    (id : TransactionId) : Leads (Svc.handle sha256 env) (TransactionService.commit caller id) w fun result w' =>
      Healthy sha256 none ⟨w',pending⟩ ∧ ∀ tx, w.index.lookup id = some tx → mayWrite caller tx = true →
        tx.state = .open → result = .ok { tx with state := .committed, committedAt := some env.now } := by
  unfold TransactionService.commit
  rw [leads_locked_bind,leads_bind]
  simp only [leads_find_bind]
  cases known : w.index.lookup id with
  | none => exact leads_throw.mpr ⟨healthy,by simp⟩
  | some tx =>
    have folder := healthy.folder known
    obtain rfl := folder.named
    simp only [leads_refuse_bind,leads_ensure_bind]
    refine ⟨fun refused => ⟨healthy,?_⟩,fun _ => ⟨fun e refused => ⟨healthy,?_⟩,fun _ allowed => ?_⟩⟩
    · rintro _ ⟨⟩ may
      simp [may] at refused
    · rintro _ ⟨⟩ _ isOpen
      rw [checkTransition_committed.mpr isOpen] at refused
      contradiction
    have isOpen := checkTransition_committed.mp allowed
    refine leads_checkFiles_bind (fun wrong => absurd folder.payload.stored wrong) fun _ => ?_
    simp only [leads_now_bind,leads_try_bind,run_saveManifest,run_save,leads_record_bind]
    obtain ⟨ok,index,disk,aside⟩ := healthy.saveManifest { tx with state := .committed, committedAt := some env.now }
      (faultless .saveManifest) folder.payload.directory (by simp [folder.manifest,manifestOf,isOpen])
    have kept : ∀ q, (Svc.handle sha256 env (.saveManifest { tx with state := .committed, committedAt := some env.now })
        w).2.disk.lookup (filesDir tx.id ++ q) = w.disk.lookup (filesDir tx.id ++ q) := fun q => by
      rw [disk,if_neg (document_apart q).symm]
    have saved := aside.save { tx with state := .committed, committedAt := some env.now } (.inr rfl) (faultless .save)
      (by simp [index,known]) (by
        rw [disk,if_neg (fun same => by cases documentPath_injective same)]
        simp [folder.document])
      (fun _ => by rw [disk,if_pos rfl,manifestOf]; simp) (folder.payload.frame kept)
    rw [ok,saved.1]
    refine ⟨fun _ bad => by contradiction,fun _ _ => ⟨fun _ bad => by contradiction,fun _ _ => leads_pure.mpr ?_⟩⟩
    refine leads_onCommitted_bind.mpr (leads_pure.mpr ⟨saved.2.2.logged _,?_⟩)
    rintro _ ⟨⟩ _ _
    rfl

end Operations

section Uploads

variable {env : Env} {w w' : World} {pending : List PendingUpload} {p p' : PendingUpload} {k : Nat}

/-- A change in the folder of temp files only. -/
theorem Healthy.scratch {spent : Path} (healthy : Healthy sha256 none ⟨w,pending⟩) (fresh : FreshTmp w')
    (count : w.tmpCount ≤ w'.tmpCount) (index : w'.index = w.index) (isTmp : ∃ id n, spent = tmpPath id n)
    (unclaimed : ∀ p ∈ pending, p.upload.done = false → p.upload.tmp ≠ spent)
    (frame : ∀ q, ¬ w.Unused q → q ≠ spent → w'.disk.lookup q = w.disk.lookup q) :
    Healthy sha256 none ⟨w',pending⟩ := by
  obtain ⟨owner,n,rfl⟩ := isTmp
  have rest : Healthy sha256 (some owner) ⟨w',pending⟩ :=
    healthy.inside (.inl rfl) fresh count (fun _ _ => by rw [index]) ⟨owner,n,rfl⟩ unclaimed
      fun q _ used other => frame q used other
  refine rest.settle ?_
  simp only [index]
  refine (healthy.agrees owner (by simp)).frame fun q inFolder => frame q ?_ ?_
  · rintro ⟨id,n,_,rfl⟩
    exact tmpPath_outside _ _ _ inFolder
  · rintro rfl
    exact tmpPath_outside _ _ _ inFolder

theorem Healthy.append (healthy : Healthy sha256 none ⟨w,pending⟩) (live : Live w p)
    (apart : ∀ q ∈ pending, q.upload.done = false → q.upload.tmp ≠ p.upload.tmp) :
    Healthy sha256 none ⟨w,pending ++ [p]⟩ := by
  refine ⟨healthy.tmp,healthy.top,healthy.fresh,healthy.agrees,fun q member progress => ?_,?_⟩
  · rcases List.mem_append.mp member with old | new
    · exact healthy.live q old progress
    · obtain rfl := List.mem_singleton.mp new
      exact live
  · refine List.pairwise_append.mpr ⟨healthy.apart,List.pairwise_singleton _ _,fun a old b new first _ => ?_⟩
    obtain rfl := List.mem_singleton.mp new
    exact apart a old first

theorem beginUpload_leads (healthy : Healthy sha256 none ⟨w,pending⟩) (caller : Caller)
    (id : TransactionId) (path : RelativePath) :
    Leads (Svc.handle sha256 env) (TransactionService.beginUpload caller id path) w fun result w' =>
      match result with
      | .ok p => Healthy sha256 none ⟨w',pending ++ [p]⟩
      | .error _ => Healthy sha256 none ⟨w',pending⟩ := by
  unfold TransactionService.beginUpload
  rw [leads_locked]
  refine leads_findMutable_bind (fun _ => healthy) fun tx known allowed isOpen => ?_
  obtain ⟨unindexed,effect⟩ := beginUpload_effect sha256 env id path w healthy.fresh
  simp only [leads_try_bind,run_beginUpload]
  generalize Svc.handle sha256 env (.beginUpload id path) w = outcome at unindexed effect ⊢
  obtain ⟨result,w₁⟩ := outcome
  dsimp only at unindexed effect ⊢
  rcases effect with ⟨rfl,_,count,disk⟩ | ⟨⟨e,rfl⟩,same⟩
  swap
  · exact ⟨fun _ _ => healthy.idle same unindexed.index unindexed.count,fun _ bad => by contradiction⟩
  refine ⟨fun _ bad => by contradiction,fun u same => ?_⟩
  cases same
  have claimed : ∀ q ∈ pending, q.upload.done = false → q.upload.tmp ≠ tmpPath id w.tmpCount :=
    fun q member progress same => (healthy.live q member progress).used (same ▸ w.unused_next id)
  have frame : ∀ q, q ≠ tmpPath id w.tmpCount → w₁.disk.lookup q = w.disk.lookup q := fun q other => by
    rw [disk,if_neg other]
  have fresh : FreshTmp w₁ :=
    healthy.fresh.kept (fun _ _ other => frame _ other) unindexed.count (by omega : w.tmpCount < w₁.tmpCount)
  have after := healthy.scratch fresh unindexed.count unindexed.index ⟨id,_,rfl⟩ claimed fun q _ other => frame q other
  refine leads_pure.mpr (after.append ⟨⟨w.tmpCount,by omega,rfl⟩,rfl,?_,rfl⟩ claimed)
  dsimp only
  rw [disk,if_pos rfl]

theorem Healthy.enter {aside : Option TransactionId} (healthy : Healthy sha256 aside ⟨w,pending⟩) (stage : Stage) :
    Healthy sha256 aside ⟨w.enter stage,pending⟩ := healthy.idle rfl rfl (Nat.le_refl _)

/-- A change of the temp file of one upload only, which is marked as over. -/
theorem Healthy.spent (healthy : Healthy sha256 none ⟨w,pending⟩) (here : pending[k]? = some p)
    (progress : p.upload.done = false) (p' : PendingUpload) (done : p'.upload.done = true) (unindexed : Unindexed w w')
    (frame : ∀ q, q ≠ p.upload.tmp → w'.disk.lookup q = w.disk.lookup q) :
    Healthy sha256 none ⟨w',pending.set k p'⟩ := by
  have live := healthy.live p (List.mem_of_getElem? here) progress
  obtain ⟨n,small,tmp⟩ := live.tmp
  have fresh : FreshTmp w' := healthy.fresh.kept (fun id' n' other => frame _ (tmp ▸ other)) unindexed.count
    (Nat.lt_of_lt_of_le small unindexed.count)
  exact (healthy.spend here done).scratch fresh unindexed.count unindexed.index ⟨p.id,n,tmp⟩
    (healthy.apart.unclaimed here progress done) fun q _ other => frame q other

omit [BoostJson] in
theorem mem_set_or {q a b : PendingUpload} (member : q ∈ pending.set k a) : q = a ∨ q ∈ pending.set k b := by
  obtain ⟨i,hi,rfl⟩ := List.getElem_of_mem member
  rw [List.length_set] at hi
  rw [List.getElem_set]
  split
  · exact .inl rfl
  · rename_i other
    right
    refine List.mem_iff_getElem.mpr ⟨i,by rwa [List.length_set],?_⟩
    rw [List.getElem_set,if_neg other]

theorem writeUpload_healthy (healthy : Healthy sha256 none ⟨w,pending⟩) (faultless : env.Faultless)
    (here : pending[k]? = some p) (chunk : Bytes) :
    Healthy sha256 none ⟨(perform sha256 env (TransactionService.writeUpload p chunk) w).2,
      pending.set k (perform sha256 env (TransactionService.writeUpload p chunk) w).1.2⟩ := by
  have run : perform sha256 env (TransactionService.writeUpload p chunk) w =
      (((exec env (p.upload.write chunk) (w.enter .writeUpload)).1.1,
        { p with upload := (exec env (p.upload.write chunk) (w.enter .writeUpload)).1.2 }),
        (exec env (p.upload.write chunk) (w.enter .writeUpload)).2) := rfl
  rw [run]
  have member := List.mem_of_getElem? here
  by_cases ended : p.upload.done = true
  · rw [write_done chunk ended]
    exact (healthy.enter .writeUpload).ended here
  have progress : p.upload.done = false := by simpa using ended
  have live := healthy.live p member progress
  have still := (exec_still env (write_quiet p.upload chunk) (w.enter .writeUpload)).unindexed
  have wrote := write_spec env p.upload chunk p.upload.hashed (w.enter .writeUpload) progress live.content
  generalize exec env (p.upload.write chunk) (w.enter .writeUpload) = outcome at still wrote ⊢
  obtain ⟨⟨result,u⟩,w₁⟩ := outcome
  dsimp only at still wrote ⊢
  rcases wrote with ⟨rfl,rfl,disk⟩ | ⟨_,_,_,fault⟩
  swap
  · exact absurd (faultless _) fault
  have after := healthy.spent here progress { p with upload := { p.upload with done := true } } rfl still
    fun q other => by rw [disk,if_neg other]; rfl
  refine ⟨after.tmp,after.top,after.fresh,after.agrees,fun q member _ => ?_,
    healthy.apart.set here fun _ => ⟨progress,rfl⟩⟩
  rcases mem_set_or member with rfl | other
  · obtain ⟨n,small,tmp⟩ := live.tmp
    refine ⟨⟨n,Nat.lt_of_lt_of_le small still.count,tmp⟩,live.final,by simp [disk],?_⟩
    simp only [live.size,List.length_append,UInt64.ofNat_add]
  · exact after.live q other (by assumption)

theorem dropUpload_healthy (healthy : Healthy sha256 none ⟨w,pending⟩) (here : pending[k]? = some p) :
    Healthy sha256 none ⟨(perform sha256 env (TransactionService.dropUpload p) w).2,pending.eraseIdx k⟩ := by
  have shorter : ∀ {v : World} {q : PendingUpload}, Healthy sha256 none ⟨v,pending.set k q⟩ →
      Healthy sha256 none ⟨v,pending.eraseIdx k⟩ := by
    intro v q whole
    have sub : (pending.eraseIdx k).Sublist (pending.set k q) := by
      rw [← List.eraseIdx_set_eq (a := q)]
      exact List.eraseIdx_sublist _ _
    exact ⟨whole.tmp,whole.top,whole.fresh,whole.agrees,fun p member => whole.live p (sub.subset member),
      whole.apart.sublist sub⟩
  unfold perform TransactionService.dropUpload
  split
  · exact shorter (healthy.ended here)
  · rename_i ended
    have progress : p.upload.done = false := by simpa using ended
    have live := healthy.live p (List.mem_of_getElem? here) progress
    have still := (exec_still env (discard_quiet p.upload) (w.enter .discardUpload)).unindexed
    obtain ⟨given,⟨frame,_⟩,_⟩ := discard_spec env p.upload (w.enter .discardUpload) (by simp [live.content]) (by
      obtain ⟨n,_,tmp⟩ := live.tmp
      simp [tmp,tmpPath])
    exact shorter (healthy.spent here progress { p with upload := { p.upload with done := true } } rfl still frame)

omit [BoostJson] in
theorem tmpPath_not_above (id id' : TransactionId) (n : Nat) (q : Path) : ¬ tmpPath id n <+: transactionDir id' ++ q := by
  intro above
  simp only [tmpPath,tmpDir,transactionDir,transactionsDir,List.cons_append,List.nil_append,
    List.cons_prefix_cons] at above
  exact absurd above.1 (by decide)

omit [BoostJson] in
/-- What a moved upload does to the rest of the disk: nothing. -/
theorem Moved.frame {u : Upload} {content : Bytes} (moved : Moved disk disk' u.tmp u.final content)
    (final : u.final = payloadPath id u.path) (folder : disk.lookup (transactionDir id) = some .directory)
    {q : Path} (outside : ¬ transactionDir id <+: q)
    (other : q ≠ u.tmp) : disk'.lookup q = disk.lookup q := by
  rw [moved.result,if_neg,if_neg other]
  · split
    · rename_i short
      rw [final,payloadPath_dropLast,filesDir,List.append_assoc] at short
      have above : q <+: transactionDir id :=
        (List.prefix_or_prefix_of_prefix short (List.prefix_append _ _)).resolve_right outside
      exact (Tree.directory_prefix folder above).symm
    · rfl
  · rintro rfl
    exact outside (final ▸ files_in_folder id _)

theorem Live.commit (live : Live w p) (progress : p.upload.done = false) (sha256 : Bytes → Sha256Digest) (env : Env)
    (expected : Option Sha256Digest) :
    (Svc.handle sha256 env (.commitUpload p.upload expected) w).1.2 = { p.upload with done := true } ∧
      Unindexed w (Svc.handle sha256 env (.commitUpload p.upload expected) w).2 ∧
      Committed sha256 p.upload expected p.upload.hashed env (w.enter .commitUpload)
        (Svc.handle sha256 env (.commitUpload p.upload expected) w).1.1
        (Svc.handle sha256 env (.commitUpload p.upload expected) w).2 := by
  obtain ⟨n,_,tmp⟩ := live.tmp
  obtain ⟨same,done⟩ := commit_spec sha256 p.upload expected env (w.enter .commitUpload) p.upload.hashed progress
    live.content (by simp [live.final,payloadPath,RelativePath.under,filesDir])
    (by rw [tmp,live.final]; exact fun same => tmpPath_outside p.id p.id n (same ▸ files_in_folder p.id _))
  exact ⟨same,(exec_still env (commit_quiet sha256 p.upload expected) (w.enter .commitUpload)).unindexed,done⟩

/-- A file that was moved into place is as good as listed. -/
theorem Healthy.moved {tx : Transaction} (healthy : Healthy sha256 none ⟨w,pending⟩) (here : pending[k]? = some p)
    (progress : p.upload.done = false) (p' : PendingUpload) (done : p'.upload.done = true)
    (known : w.index.lookup p.id = some tx) (unindexed : Unindexed w w')
    (moved : Moved w.disk w'.disk p.upload.tmp p.upload.final p.upload.hashed) :
    Healthy sha256 (some p.id) ⟨w',pending.set k p'⟩ ∧
      (∀ doc, w'.disk.lookup (documentPath p.id doc) = w.disk.lookup (documentPath p.id doc)) ∧
      Payload sha256 w'.disk p.id (upsertFile tx.files ⟨p.upload.path,p.upload.size,sha256 p.upload.hashed⟩) := by
  have live := healthy.live p (List.mem_of_getElem? here) progress
  have folder := healthy.folder known
  obtain ⟨n,small,tmp⟩ := live.tmp
  have frame : ∀ q, ¬ transactionDir p.id <+: q → q ≠ p.upload.tmp → w'.disk.lookup q = w.disk.lookup q :=
    fun q outside other => moved.frame live.final (healthy.there known) outside other
  refine ⟨?_,fun doc => ?_,?_⟩
  · refine (healthy.spend here done).inside (.inl rfl) ?_ unindexed.count (fun _ _ => by rw [unindexed.index])
      ⟨p.id,n,tmp⟩ (healthy.apart.unclaimed here progress done) fun q outside _ other => frame q outside other
    exact healthy.fresh.kept (fun id' n' other => frame _ (tmpPath_outside _ _ _) (tmp ▸ other)) unindexed.count
      (Nat.lt_of_lt_of_le small unindexed.count)
  · rw [moved.result,live.final,if_neg,if_neg,if_neg]
    · rw [payloadPath_dropLast,documentPath,filesDir,List.append_assoc,List.prefix_append_right_inj,List.cons_append,
        List.cons_prefix_cons]
      cases doc <;> exact fun short => absurd short.1 (by decide)
    · exact fun same => tmpPath_outside p.id p.id n (tmp ▸ same ▸ document_in_folder p.id doc)
    · exact document_apart _
  · rw [live.size]
    rw [tmp,live.final] at moved
    exact folder.payload.upsert moved

/-- Listing it saves the transaction, and all is in order again. -/
theorem Healthy.listed {tx : Transaction} (healthy : Healthy sha256 none ⟨w,pending⟩) (here : pending[k]? = some p)
    (progress : p.upload.done = false) (p' : PendingUpload) (done : p'.upload.done = true)
    (known : w.index.lookup p.id = some tx) (isOpen : tx.state = .open) (unindexed : Unindexed w w')
    (moved : Moved w.disk w'.disk p.upload.tmp p.upload.final p.upload.hashed) (faultless : env.Faultless) {tx' : Transaction}
    (its : tx' = { tx with files := upsertFile tx.files ⟨p.upload.path,p.upload.size,sha256 p.upload.hashed⟩ }) :
    (Svc.handle sha256 env (.save tx') w').1 = .ok () ∧
      (Svc.handle sha256 env (.save tx') w').2.index = w.index.insert p.id tx' ∧
      Healthy sha256 none ⟨(Svc.handle sha256 env (.save tx') w').2,pending.set k p'⟩ := by
  have folder := healthy.folder known
  have named : tx'.id = p.id := its ▸ folder.named
  obtain ⟨aside,documents,payload⟩ := healthy.moved here progress p' done known unindexed moved
  have saved := aside.save tx' (.inr (by rw [named])) (faultless .save) (by rw [unindexed.index,named,known]; simp)
    (by simp [named,documents,folder.document]) 
    (fun _ => by simp [its,folder.named,documents,folder.manifest,manifestOf,isOpen])
    (by rw [named,its]; exact payload)
  rwa [named,unindexed.index] at saved

theorem finishUpload_healthy (healthy : Healthy sha256 none ⟨w,pending⟩) (faultless : env.Faultless)
    (here : pending[k]? = some p) (expected : Option Sha256Digest) :
    Healthy sha256 none ⟨(perform sha256 env (TransactionService.finishUpload p expected) w).2,
      pending.set k (perform sha256 env (TransactionService.finishUpload p expected) w).1.2⟩ := by
  by_cases ended : p.upload.done = true
  · have run := commitUpload_done sha256 env expected w ended
    refine finishUpload_rule (P := fun result w' => Healthy sha256 none ⟨w',pending.set k result.2⟩)
      (fun _ => healthy.ended here) (fun _ _ _ _ => healthy.ended here) (fun tx e u w₁ _ _ same => ?_)
      fun tx file u w₁ _ _ same => ?_
    · rw [run] at same
      obtain ⟨⟨_,rfl⟩,rfl⟩ : (_ ∧ p.upload = u) ∧ w.enter .commitUpload = w₁ := by simpa using same
      exact (healthy.enter .commitUpload).ended here
    · rw [run] at same
      simp at same
  have progress : p.upload.done = false := by simpa using ended
  have live := healthy.live p (List.mem_of_getElem? here) progress
  obtain ⟨same,unindexed,done⟩ := live.commit progress sha256 env expected
  refine finishUpload_rule (P := fun result w' => Healthy sha256 none ⟨w',pending.set k result.2⟩)
    (fun _ => healthy.ended here) (fun _ _ _ _ => healthy.ended here) (fun tx e u w₁ known isOpen run => ?_)
    fun tx file u w₁ known isOpen run => ?_
  · rw [run] at same unindexed done
    dsimp only at unindexed done
    obtain rfl : u = { p.upload with done := true } := same
    obtain ⟨bad,_⟩ | ⟨_,disk,_,_,⟨frame,_⟩,clean⟩ := done
    · contradiction
    · obtain ⟨rfl,_⟩ := clean (faultless _)
      exact healthy.spent here progress _ rfl unindexed frame
  · rw [run] at same unindexed done
    dsimp only at unindexed done
    obtain rfl : u = { p.upload with done := true } := same
    obtain ⟨ok,_,_,moved⟩ | ⟨_,_,bad,_⟩ := done
    swap
    · contradiction
    obtain rfl : file = ⟨p.upload.path,p.upload.size,sha256 p.upload.hashed⟩ := Except.ok.inj ok
    have saved := healthy.listed here progress { p with upload := { p.upload with done := true } } rfl known isOpen
      unindexed moved
      faultless rfl
    refine ⟨fun e bad => ?_,fun _ log => saved.2.2.logged log⟩
    rw [StoredFile.entry,saved.1] at bad
    contradiction

end Uploads

/-- An operation that has no part in uploads leaves the list of them alone. -/
theorem report_healthy {env : Env} {w : World} {pending : List PendingUpload} {p : SvcM α}
    (keeps : Keeps sha256 env pending p w) :
    Healthy sha256 none ⟨(perform sha256 env (report pending p) w).2,(perform sha256 env (report pending p) w).1.2⟩ := by
  simp only [perform,report,run_bind]
  exact keeps

theorem step_healthy {s : Server} {env : Env} {opts : ServiceOptions} (healthy : Healthy sha256 none s)
    (faultless : env.Faultless) (op : Op) : Healthy sha256 none (s.step sha256 opts env op) := by
  obtain ⟨w,pending⟩ := s
  unfold Server.step Server.outcome
  cases op with
  | create caller req => exact report_healthy (create_keeps healthy faultless caller req)
  | beginUpload caller id path =>
    have begun : Leads (Svc.handle sha256 env) (TransactionService.beginUpload caller id path) w _ :=
      beginUpload_leads healthy caller id path
    rw [Leads] at begun
    simp only [Op.program,perform,run_bind]
    generalize (TransactionService.beginUpload caller id path).run.run (Svc.handle sha256 env) w = outcome at begun ⊢
    rcases outcome with ⟨_ | _,_⟩ <;> exact begun
  | writeUpload k chunk =>
    simp only [Op.program]
    cases here : pending[k]? with
    | none => exact healthy
    | some p => simpa [perform] using writeUpload_healthy healthy faultless here chunk
  | finishUpload k expected =>
    simp only [Op.program]
    cases here : pending[k]? with
    | none => exact healthy
    | some p => simpa [perform] using finishUpload_healthy healthy faultless here expected
  | dropUpload k =>
    simp only [Op.program]
    cases here : pending[k]? with
    | none => exact healthy
    | some p => simpa [perform] using dropUpload_healthy healthy here
  | removeFile caller id path => exact report_healthy (removeFile_keeps healthy faultless caller id path)
  | commit caller id => exact report_healthy (commit_leads healthy faultless caller id).1
  | receive peer req => exact report_healthy (receive_keeps healthy faultless peer req)
  | markDelivered id => exact report_healthy (markDelivered_keeps healthy faultless id)
  | setRetention admin id days => exact report_healthy (setRetention_keeps healthy faultless admin id days)
  | expire id => exact report_healthy (destroy_leads healthy faultless id .expired TransactionService.system).1
  | adminDelete admin id =>
    refine report_healthy ?_
    unfold TransactionService.adminDelete
    split
    · exact (destroy_leads healthy faultless id .adminDeleted admin).1
    · exact healthy

theorem run_healthy {s : Server} (opts : ServiceOptions) (healthy : Healthy sha256 none s) (steps : List (Env × Op))
    (faultless : ∀ step ∈ steps, step.1.Faultless) : Healthy sha256 none (s.run sha256 opts steps) := by
  induction steps generalizing s with
  | nil => exact healthy
  | cons step rest ih =>
    exact ih (step_healthy healthy (faultless step (List.mem_cons_self ..)) step.2)
      fun later member => faultless later (List.mem_cons_of_mem _ member)

omit [BoostJson] in
theorem emptyDisk_lookup (q : Path) : emptyDisk.lookup q =
    if q = [] ∨ q = tmpDir ∨ q = transactionsDir then some .directory else none := by
  unfold emptyDisk Tree.lookup
  dsimp only
  by_cases top : q = transactionsDir
  · rw [top]; decide
  rw [Finmap.lookup_insert_of_ne _ top]
  by_cases tmp : q = tmpDir
  · rw [tmp]; decide
  rw [Finmap.lookup_insert_of_ne _ tmp]
  by_cases root : q = []
  · rw [root]; decide
  rw [Finmap.lookup_insert_of_ne _ root]
  simp [root,tmp,top]

theorem empty_healthy (sha256 : Bytes → Sha256Digest) : Healthy sha256 none Server.empty := by
  refine ⟨by decide,by decide,?_,?_,by simp [Server.empty],List.Pairwise.nil⟩
  · intro id n present
    simp [Server.empty,emptyDisk_lookup,tmpPath,tmpDir,transactionsDir] at present
  · intro id _
    simp [Server.empty,Agrees,emptyDisk_lookup,transactionDir,tmpDir,transactionsDir]

end Confide
