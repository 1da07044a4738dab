import Confide.Footprint
import Confide.Ledger
import Confide.PayloadAgreement

/-! What a commit fixes: from then on, until its folder goes, neither the record of a
transaction nor its files change, whoever is still uploading to it. -/
namespace Confide

open Bytes Resumption.Prog

variable {sha256 : Bytes → Sha256Digest} {opts : ServiceOptions} {env : Env} {pending : List PendingUpload} {op : Op}
  {id : TransactionId} {tx tx' tx'' : Transaction}

/-- The record is the same but for its expiry and delivery, and its state has only moved on. -/
structure Frozen (tx tx' : Transaction) : Prop where
  id : tx'.id = tx.id
  sender : tx'.sender = tx.sender
  targetUser : tx'.targetUser = tx.targetUser
  targetServer : tx'.targetServer = tx.targetServer
  originServer : tx'.originServer = tx.originServer
  comment : tx'.comment = tx.comment
  createdAt : tx'.createdAt = tx.createdAt
  committedAt : tx'.committedAt = tx.committedAt
  files : tx'.files = tx.files
  state : tx'.state = tx.state ∨ canTransition tx.state tx'.state = true

theorem Frozen.refl (tx : Transaction) : Frozen tx tx := ⟨rfl,rfl,rfl,rfl,rfl,rfl,rfl,rfl,rfl,.inl rfl⟩

theorem canTransition_closed {a b : State} (moves : canTransition a b = true) : b ≠ .open := by
  cases a <;> cases b <;> simp_all [canTransition]

theorem canTransition_trans {a b c : State} (closed : a ≠ .open) (first : canTransition a b = true)
    (second : canTransition b c = true) : canTransition a c = true := by
  cases a <;> cases b <;> cases c <;> simp_all [canTransition]

theorem Frozen.closed (frozen : Frozen tx tx') (closed : tx.state ≠ .open) : tx'.state ≠ .open := by
  rcases frozen.state with same | moves
  · rw [same]
    exact closed
  · exact canTransition_closed moves

theorem Frozen.trans (closed : tx.state ≠ .open) (first : Frozen tx tx') (second : Frozen tx' tx'') : Frozen tx tx'' := by
  refine ⟨second.id.trans first.id,second.sender.trans first.sender,second.targetUser.trans first.targetUser,
    second.targetServer.trans first.targetServer,second.originServer.trans first.originServer,
    second.comment.trans first.comment,second.createdAt.trans first.createdAt,
    second.committedAt.trans first.committedAt,second.files.trans first.files,?_⟩
  rcases first.state with same | moves
  · exact same ▸ second.state
  · rcases second.state with same' | moves'
    · exact .inr (same' ▸ moves)
    · exact .inr (canTransition_trans closed moves moves')

/-- Uploads, removals and commits need an open transaction; the rest leaves the record alone. -/
theorem Updates.frozen (updates : Updates sha256 opts env pending op tx tx') (closed : tx.state ≠ .open) :
    Frozen tx tx' := by
  cases updates with
  | uploaded _ _ isOpen => exact absurd isOpen closed
  | erased _ isOpen => exact absurd isOpen closed
  | committed _ isOpen => exact absurd isOpen closed
  | delivered sent => exact ⟨rfl,rfl,rfl,rfl,rfl,rfl,rfl,rfl,rfl,.inr (by rw [sent]; rfl)⟩
  | retained => exact ⟨rfl,rfl,rfl,rfl,rfl,rfl,rfl,rfl,rfl,.inl rfl⟩
  | marked _ current =>
    refine ⟨rfl,rfl,rfl,rfl,rfl,rfl,rfl,rfl,rfl,.inr ?_⟩
    exact checkTransition_ok.mp (checkTransition_expired.mpr current)

/-- What a commit seals: everything under `files`, and the manifest. -/
def Sealed (id : TransactionId) (q : Path) : Prop := filesDir id <+: q ∨ q = documentPath id .manifest

theorem Sealed.folder {q : Path} (inside : Sealed id q) : transactionDir id <+: q := by
  rcases inside with below | rfl
  · exact (List.prefix_append _ _).trans below
  · exact document_in_folder id .manifest

theorem Sealed.deep {q : Path} (inside : Sealed id q) : 3 ≤ q.length := by
  rcases inside with below | rfl
  · exact below.length_le
  · rfl

theorem Sealed.not_tmp {q : Path} (inside : Sealed id q) (owner : TransactionId) (n : Nat) : q ≠ tmpPath owner n := by
  rintro rfl
  exact tmpPath_outside id owner n inside.folder

theorem Sealed.not_above {q : Path} {owner : TransactionId} (inside : Sealed id q) (other : owner ≠ id) {below : Path}
    (folder : transactionDir owner <+: below) : ¬ q <+: below := fun above =>
  other (transactionDir_apart folder (inside.folder.trans above))

/-- The only sealed path that is a document, or above one, is the manifest. -/
theorem Sealed.document {q : Path} {owner : TransactionId} {doc : Document} (inside : Sealed id q)
    (above : q <+: documentPath owner doc) : owner = id ∧ doc = .manifest := by
  obtain rfl := transactionDir_apart (document_in_folder owner doc) (inside.folder.trans above)
  obtain rfl := above.eq_of_length_le inside.deep
  rcases inside with ⟨below,same⟩ | same
  · exact absurd same.symm (document_apart below)
  · exact ⟨rfl,documentPath_injective same⟩

theorem insert_known [BoostJson] (w : World) (known : w.index.lookup tx.id ≠ none) :
    (Svc.handle sha256 env (.insert tx) w).2.disk = w.disk := by
  change Leads (Sys.handle env) (TransactionRepository.insert sha256 tx) w fun _ w' => w'.disk = w.disk
  simp only [TransactionRepository.insert,call_eq,leads_exec_bind,exec_enter,exec_indexFind,enter_index,leads_refuse_bind]
  refine ⟨fun _ => rfl,fun unknown => ?_⟩
  simp [known] at unknown

section Step

variable {w : World} {c : SvcCall} {q : Path}

/-- No call an operation may make reaches what is sealed, but for the removal of the whole folder. -/
theorem May.spares [BoostJson] (may : May sha256 opts env pending op c w.index) (placed : ∀ p ∈ pending, Placed p)
    (known : w.index.lookup id = some tx) (closed : tx.state ≠ .open) (stays : ¬ Drops op id) (inside : Sealed id q) :
    (Svc.handle sha256 env c w).2.disk.lookup q = w.disk.lookup q := by
  have outside : ¬ c.region q → (Svc.handle sha256 env c w).2.disk.lookup q = w.disk.lookup q :=
    (implement_confined sha256 c).whole
  have elsewhere : ∀ {owner : TransactionId} {tx' : Transaction}, w.index.lookup owner = some tx' → tx'.state = .open →
      owner ≠ id := by
    rintro owner tx' found isOpen rfl
    rw [known] at found
    exact closed (Option.some.inj found ▸ isOpen)
  have unplaced : ∀ {k : Nat} {p : PendingUpload}, pending[k]? = some p → q ≠ p.upload.tmp := by
    intro k p here
    obtain ⟨⟨n,tmp⟩,_⟩ := placed p (List.mem_of_getElem? here)
    exact tmp ▸ inside.not_tmp p.id n
  cases c with
  | env | find | findIf | hashFile | openRead => exact outside nofun
  | insert tx' =>
    by_cases same : tx'.id = id
    · rw [insert_known w (by rw [same,known]; simp)]
    · refine outside ?_
      rintro (⟨n,tmp⟩ | below | above)
      · exact inside.not_tmp _ n tmp
      · exact same (transactionDir_apart below inside.folder)
      · exact inside.not_above same (List.prefix_refl _) above
  | save tx' =>
    refine outside ?_
    rintro (⟨n,tmp⟩ | above)
    · exact inside.not_tmp _ n tmp
    · cases (inside.document above).2
  | saveManifest tx' =>
    obtain ⟨tx₀,found,isOpen,_,change⟩ := may
    refine outside ?_
    rintro (⟨n,tmp⟩ | above)
    · exact inside.not_tmp _ n tmp
    · exact elsewhere found isOpen (change.named ▸ (inside.document above).1)
  | remove owner =>
    refine outside fun below => stays ?_
    obtain rfl := transactionDir_apart below inside.folder
    exact may.1
  | beginUpload owner path => exact outside fun ⟨n,tmp⟩ => inside.not_tmp _ n tmp
  | writeUpload u chunk =>
    obtain ⟨k,p,_,here,rfl⟩ := may
    exact outside fun ⟨_,tmp⟩ => unplaced here tmp
  | commitUpload u expected =>
    obtain ⟨k,p,tx',_,here,rfl,found,isOpen⟩ := may
    refine outside ?_
    rintro ⟨_,tmp | above⟩
    · exact unplaced here tmp
    · rw [(placed p (List.mem_of_getElem? here)).2] at above
      exact inside.not_above (elsewhere found isOpen) (files_in_folder p.id _) above
  | discardUpload u =>
    obtain ⟨k,p,_,here,rfl,_⟩ := may
    exact outside (unplaced here)
  | removeFile owner path =>
    obtain ⟨_,tx',_,found,_,isOpen,_⟩ := may
    exact outside fun ⟨_,above⟩ => inside.not_above (elsewhere found isOpen) (files_in_folder owner _) above

/-- The transaction is there and frozen, or the operation has taken it away. -/
def Held (op : Op) (id : TransactionId) (tx : Transaction) (i : Index) : Prop :=
  (∃ tx', i.lookup id = some tx' ∧ Frozen tx tx') ∨ (i.lookup id = none ∧ Drops op id)

theorem Held.insert {i : Index} (held : Held op id tx i) {owner : TransactionId} {tx' : Transaction}
    (new : owner = id → Frozen tx tx') : Held op id tx (i.insert owner tx') := by
  by_cases same : id = owner
  · subst same
    exact .inl ⟨tx',Finmap.lookup_insert _,new rfl⟩
  · unfold Held
    rw [Finmap.lookup_insert_of_ne _ same]
    exact held

theorem May.held {i i' : Index} {reply : c.Reply} (may : May sha256 opts env pending op c i)
    (effect : c.Effect sha256 env i reply i') (closed : tx.state ≠ .open) (held : Held op id tx i) : Held op id tx i' := by
  cases c with
  | insert tx' =>
    obtain ⟨_,absent,rfl⟩ | ⟨_,rfl⟩ := effect
    · refine held.insert ?_
      rintro rfl
      obtain ⟨_,there,_⟩ | ⟨_,drops⟩ := held
      · rw [absent] at there
        contradiction
      · cases drops <;> cases may
    · exact held
  | save tx' =>
    obtain ⟨tx₀,known,change⟩ := may
    obtain ⟨_,_,rfl⟩ | ⟨_,rfl⟩ := effect
    · refine held.insert fun same => ?_
      rw [change.named] at same
      subst same
      obtain ⟨_,there,frozen⟩ | ⟨absent,_⟩ := held
      · rw [known] at there
        cases there
        exact frozen.trans closed (change.frozen (frozen.closed closed))
      · rw [known] at absent
        contradiction
    · exact held
  | remove owner =>
    obtain ⟨_,rfl⟩ | ⟨_,rfl⟩ := effect
    · by_cases same : id = owner
      · subst same
        exact .inr ⟨Finmap.lookup_erase _ _,may.1⟩
      · unfold Held
        rw [Finmap.lookup_erase_ne same]
        exact held
    · exact held
  | env | find | beginUpload | writeUpload | commitUpload | discardUpload =>
    obtain ⟨rfl,_⟩ := effect
    exact held
  | findIf | saveManifest | hashFile | removeFile | openRead =>
    obtain rfl := effect
    exact held

variable {s : Server}

variable [BoostJson]

/-- One operation on a closed transaction: only its removal touches what is sealed. -/
theorem step_frozen (orderly : Orderly s) (known : s.world.index.lookup id = some tx) (closed : tx.state ≠ .open)
    (op : Op) : (Held op id tx (s.step sha256 opts env op).world.index ∧
        (¬ Drops op id → ∀ q, Sealed id q → (s.step sha256 opts env op).world.disk.lookup q = s.world.disk.lookup q)) ∧
      ∀ call ∈ s.calls sha256 opts env op, Held op id tx call.2.index := by
  have may := (step_takes sha256 opts env orderly.keyed op).2
  have preserved : ∀ c w, May sha256 opts env s.pending op c w.index →
      Held op id tx w.index ∧ (¬ Drops op id → ∀ q, Sealed id q → w.disk.lookup q = s.world.disk.lookup q) →
      Held op id tx (Svc.handle sha256 env c w).2.index ∧ (¬ Drops op id → ∀ q, Sealed id q →
        (Svc.handle sha256 env c w).2.disk.lookup q = s.world.disk.lookup q) := by
    rintro c w may ⟨held,same⟩
    refine ⟨may.held (handle_effect sha256 env w c) closed held,fun stays q inside => ?_⟩
    obtain ⟨tx',there,frozen⟩ | ⟨_,drops⟩ := held
    · rw [may.spares orderly.placed there (frozen.closed closed) stays inside]
      exact same stays q inside
    · exact absurd drops stays
  obtain ⟨ends,along⟩ := calls_invariant (Svc.handle sha256 env) _ _ preserved _ _ may
    ⟨.inl ⟨tx,known,.refl tx⟩,fun _ _ _ => rfl⟩
  exact ⟨ends,fun call made => (along call made).1⟩

theorem saves_frozen (orderly : Orderly s) (known : s.world.index.lookup id = some tx) (closed : tx.state ≠ .open)
    (op : Op) : ∀ call ∈ s.calls sha256 opts env op, ∀ tx', call.1 = .save tx' → tx'.id = id → Frozen tx tx' := by
  intro call made tx' saves same
  have may := (step_takes sha256 opts env orderly.keyed op).2 call made
  have held := (step_frozen orderly known closed op).2 call made
  rw [saves] at may
  obtain ⟨tx₀,there,change⟩ := may
  rw [change.named] at same
  subst same
  obtain ⟨_,there',frozen⟩ | ⟨absent,_⟩ := held
  · rw [there] at there'
    cases there'
    exact frozen.trans closed (change.frozen (frozen.closed closed))
  · rw [there] at absent
    contradiction

section

variable (healthy : Healthy sha256 none s)
include healthy

theorem step_drops (faultless : env.Faultless) (drops : Drops op id) :
    (s.step sha256 opts env op).world.index.lookup id = none := by
  obtain ⟨w,pending⟩ := s
  have gone : ∀ type actor, (perform sha256 env (report pending (TransactionService.destroy id type actor))
    w).2.index.lookup id =
      none := by
    intro type actor
    have erased := (destroy_leads healthy faultless id type actor).2
    simp only [perform,report,run_bind]
    exact (congrArg (Finmap.lookup id) erased).trans (Finmap.lookup_erase _ _)
  cases drops with
  | expired => exact gone .expired TransactionService.system
  | deleted allowed =>
    simp only [Server.step,Server.outcome,Op.program,TransactionService.adminDelete,if_pos allowed]
    exact gone .adminDeleted _

theorem step_current (orderly : Orderly s) (faultless : env.Faultless) (op : Op)
    (current : Throughout (fun _ tx => tx.state ≠ .expired) s.world.index) :
    Throughout (fun _ tx => tx.state ≠ .expired) (s.step sha256 opts env op).world.index := by
  intro id tx' known
  have takes := (step_takes sha256 opts env orderly.keyed op).1.1
  rcases takes.origin id tx' known with ⟨tx,old,rfl | updates⟩ | ⟨_,opens,_⟩
  · exact current id _ old
  · have before := current id tx old
    cases updates with
    | uploaded | erased | retained => exact before
    | committed | delivered => simp
    | marked drops =>
      rw [orderly.keyed id tx old] at drops
      rw [step_drops healthy faultless drops] at known
      cases known
  · cases opens <;> simp

theorem run_current (orderly : Orderly s) (steps : List (Env × Op))
    (faultless : ∀ step ∈ steps, step.1.Faultless) (current : Throughout (fun _ tx => tx.state ≠ .expired) s.world.index) :
    Throughout (fun _ tx => tx.state ≠ .expired) (s.run sha256 opts steps).world.index := by
  induction steps generalizing s with
  | nil => exact current
  | cons step rest ih =>
    have quiet := faultless step (List.mem_cons_self ..)
    exact ih (step_healthy healthy quiet step.2) (step_orderly orderly step.2)
      (fun later member => faultless later (List.mem_cons_of_mem _ member)) (step_current healthy orderly quiet step.2 current)

theorem run_frozen (orderly : Orderly s) (known : s.world.index.lookup id = some tx)
    (closed : tx.state ≠ .open) (steps : List (Env × Op)) (faultless : ∀ step ∈ steps, step.1.Faultless)
    (stays : ∀ part, part <+: steps → (s.run sha256 opts part).world.index.lookup id ≠ none) :
    (∃ tx', (s.run sha256 opts steps).world.index.lookup id = some tx' ∧ Frozen tx tx') ∧
      ∀ q, Sealed id q → (s.run sha256 opts steps).world.disk.lookup q = s.world.disk.lookup q := by
  induction steps generalizing s tx with
  | nil => exact ⟨⟨tx,known,.refl tx⟩,fun _ _ => rfl⟩
  | cons step rest ih =>
    obtain ⟨env,op⟩ := step
    have quiet := faultless (env,op) (List.mem_cons_self ..)
    have there : (s.step sha256 opts env op).world.index.lookup id ≠ none := stays [(env,op)] (by simp)
    obtain ⟨⟨held,same⟩,_⟩ := step_frozen orderly known closed op
    obtain ⟨tx',known',frozen⟩ := held.resolve_right fun gone => there gone.1
    obtain ⟨⟨tx'',known'',frozen'⟩,same'⟩ := ih (step_healthy healthy quiet op) (step_orderly orderly op) known'
      (frozen.closed closed) (fun later member => faultless later (List.mem_cons_of_mem _ member))
      (fun part short => stays ((env,op) :: part) (by simpa using short))
    refine ⟨⟨tx'',known'',frozen.trans closed frozen'⟩,fun q inside => ?_⟩
    rw [show s.run sha256 opts ((env,op) :: rest) = (s.step sha256 opts env op).run sha256 opts rest from rfl,same' q inside]
    exact same (fun drops => there (step_drops healthy quiet drops)) q inside

end

end Step

def Op.Utf8Path : Op → Prop
  | .beginUpload _ _ path => isUtf8 path.value = true
  | _ => True

def Utf8Files (files : List FileEntry) : Prop := ∀ file ∈ files, isUtf8 file.path.value = true

structure Utf8Paths (s : Server) : Prop where
  stored : Throughout (fun _ tx => Utf8Files tx.files) s.world.index
  pending : ∀ p ∈ s.pending, isUtf8 p.upload.path.value = true

theorem mem_of_mem_upsertFile {files : List FileEntry} {entry file : FileEntry} (member : file ∈ upsertFile files entry) :
    file ∈ files ∨ file = entry := by
  have inserted : file ∈ files.insertIdx (lowerBound files entry.path) entry → file ∈ files ∨ file = entry :=
    fun member => (List.eq_or_mem_of_mem_insertIdx member).symm
  unfold upsertFile at member
  dsimp only at member
  split at member
  · split at member
    · exact List.mem_or_eq_of_mem_set member
    · exact inserted member
  · exact inserted member

theorem Updates.utf8 (updates : Updates sha256 opts env pending op tx tx')
    (uploads : ∀ p ∈ pending, isUtf8 p.upload.path.value = true) (paths : Utf8Files tx.files) : Utf8Files tx'.files := by
  cases updates with
  | uploaded here =>
    intro file member
    rcases mem_of_mem_upsertFile member with old | rfl
    · exact paths file old
    · exact uploads _ (List.mem_of_getElem? here)
  | erased => exact fun file member => paths file (List.mem_of_mem_eraseP member)
  | committed | delivered | retained | marked => exact paths

theorem step_utf8 [BoostJson] {s : Server} (orderly : Orderly s) (paths : Utf8Paths s) (utf8 : op.Utf8Path) :
    Utf8Paths (s.step sha256 opts env op) := by
  obtain ⟨⟨takes,holds⟩,_⟩ := step_takes sha256 opts env orderly.keyed op
  refine ⟨takes.throughout (fun tx opens _ => ?_) (fun _ _ change _ => change.utf8 paths.pending) paths.stored,?_⟩
  · cases opens <;> exact nofun
  · refine holds.forall ?_ (fun p u advance fine => ?_) paths.pending
    · rintro caller id path n tx rfl _ _
      exact utf8
    · rw [advance.path]
      exact fine

theorem run_utf8 [BoostJson] {s : Server} (orderly : Orderly s) (paths : Utf8Paths s) (steps : List (Env × Op))
    (utf8 : ∀ step ∈ steps, step.2.Utf8Path) : Utf8Paths (s.run sha256 opts steps) := by
  induction steps generalizing s with
  | nil => exact paths
  | cons step rest ih =>
    exact ih (step_orderly orderly step.2) (step_utf8 orderly paths (utf8 step (List.mem_cons_self ..)))
      fun later member => utf8 later (List.mem_cons_of_mem _ member)

theorem empty_utf8 : Utf8Paths Server.empty := ⟨nofun,nofun⟩

/-- Once a transaction is no longer open, its record is frozen in every later state and in everything a
later operation saves, the bytes under `files` and in the manifest stay as they are, and the manifest
reads back as the list of files if every uploaded path was UTF-8. -/
theorem committed_is_immutable [BoostJson] (sha256 : Bytes → Sha256Digest) (opts : ServiceOptions) (before after : List (Env × Op))
    (faultless : ∀ step ∈ before ++ after, step.1.Faultless) (s₁ s₂ : Server)
    (reached : s₁ = Server.empty.run sha256 opts before) (later : s₂ = s₁.run sha256 opts after) (id : TransactionId)
    (tx : Transaction) (stored : s₁.world.index.lookup id = some tx) (closed : tx.state ≠ .open)
    (stays : ∀ part, part <+: after → (s₁.run sha256 opts part).world.index.lookup id ≠ none) :
    (∃ tx', s₂.world.index.lookup id = some tx' ∧ Frozen tx tx' ∧ ∀ env op, ∀ call ∈ s₂.calls sha256 opts env op,
        ∀ saved, call.1 = .save saved → saved.id = id → Frozen tx' saved) ∧
      (∀ q, s₂.world.disk.lookup (filesDir id ++ q) = s₁.world.disk.lookup (filesDir id ++ q)) ∧
      ∃ content, s₁.world.disk.lookup (documentPath id .manifest) = some (.file content) ∧
        s₂.world.disk.lookup (documentPath id .manifest) = some (.file content) ∧
        ((∀ step ∈ before, step.2.Utf8Path) → decodeManifest content = .ok tx.files) := by
  subst reached later
  have early := fun step member => faultless step (List.mem_append_left after member)
  have late := fun step member => faultless step (List.mem_append_right before member)
  have healthy := run_healthy opts (empty_healthy sha256) before early
  have orderly : Orderly (Server.empty.run sha256 opts before) := run_orderly empty_orderly before
  have folder := healthy.folder stored
  have current : Throughout (fun _ tx => tx.state ≠ .expired) (Server.empty.run sha256 opts before).world.index :=
    run_current (empty_healthy sha256) empty_orderly before early fun _ _ found => by simp [Server.empty] at found
  have manifest := folder.manifest (current id tx stored)
  rw [manifestOf,if_neg closed] at manifest
  obtain ⟨⟨tx',there,frozen⟩,same⟩ := run_frozen healthy orderly stored closed after late stays
  refine ⟨⟨tx',there,frozen,fun env op => ?_⟩,fun q => same _ (.inl (List.prefix_append _ _)),encodeManifest tx,
    manifest,(same _ (.inr rfl)).trans manifest,fun utf8 => ?_⟩
  · exact saves_frozen (run_orderly orderly after) there (frozen.closed closed) op
  · have paths : Utf8Paths (Server.empty.run sha256 opts before) := run_utf8 empty_orderly empty_utf8 before utf8
    exact (decodeManifest_encodeManifest tx).mpr ⟨paths.stored id tx stored,folder.payload.sorted⟩

/-- An upload that is still in progress when the transaction is committed. -/
def lateUploadRun : List (Env × Op) :=
  uploadRun ++ [(Sample.env,.beginUpload Sample.alice Sample.id ⟨ascii "b.txt",by decide⟩),
    (Sample.env,.commit Sample.alice Sample.id)]

def committedTransaction : Transaction := { uploadedTransaction with state := .committed, committedAt := some 1750000000 }

/-- The late upload finds the transaction closed, and its delivery changes nothing but its state. -/
theorem immutable_under_late_upload :
    ∃ tx', (((Server.empty.run Sample.sha256 Sample.opts lateUploadRun).run Sample.sha256 Sample.opts
        [(Sample.env,.finishUpload 1 none),(Sample.env,.markDelivered Sample.id)]).world.index.lookup Sample.id) = some tx' ∧
      Frozen committedTransaction tx' := by
  obtain ⟨⟨tx',there,frozen,_⟩,_⟩ := committed_is_immutable Sample.sha256 Sample.opts lateUploadRun
    [(Sample.env,.finishUpload 1 none),(Sample.env,.markDelivered Sample.id)]
    (by simp [lateUploadRun,uploadRun,Sample.env_faultless]) _ _ rfl rfl Sample.id committedTransaction
    (by decide +kernel) (by decide) (by
      intro part short
      rw [← List.mem_inits] at short
      simp only [List.inits,List.map_cons,List.map_nil,List.mem_cons,List.not_mem_nil,or_false] at short
      rcases short with rfl | rfl | rfl <;> decide +kernel)
  exact ⟨tx',there,frozen⟩

def rawPath : RelativePath := ⟨[0xFF],by decide⟩

def rawPathRun : List (Env × Op) :=
  [(Sample.env,.create Sample.alice Sample.request),(Sample.env,.beginUpload Sample.alice Sample.id rawPath),
    (Sample.env,.finishUpload 0 none),(Sample.env,.commit Sample.alice Sample.id)]

def rawTransaction : Transaction := { committedTransaction with files := [⟨rawPath,0,Sample.sha256 []⟩] }

/-- The upload and the commit go through, and the manifest that is written cannot be read. -/
theorem raw_path_manifest_unreadable :
    (Server.empty.run Sample.sha256 Sample.opts rawPathRun).world.index.lookup Sample.id = some rawTransaction ∧
      rawTransaction.state = .committed ∧
      (Server.empty.run Sample.sha256 Sample.opts rawPathRun).world.disk.lookup (documentPath Sample.id .manifest) =
        some (.file (encodeManifest rawTransaction)) ∧
      decodeManifest (encodeManifest rawTransaction) ≠ .ok rawTransaction.files :=
  ⟨by decide +kernel,rfl,by decide +kernel,
    fun readable => absurd ((decodeManifest_encodeManifest rawTransaction).mp readable).1 (by decide)⟩

end Confide
