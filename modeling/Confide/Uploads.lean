import Confide.Endurance

/-! Uploads in progress, whatever fails: each has a temp file of its own that holds what was hashed. -/
namespace Confide

open Resumption.Prog

variable {sha256 : Bytes → Sha256Digest} {opts : ServiceOptions} {env : Env} {pending : List PendingUpload} {op : Op}
  {w w' : World} {s : Server} {k : Nat} {p p' : PendingUpload}

structure Flow (w : World) (pending : List PendingUpload) : Prop where
  live : ∀ p ∈ pending, p.upload.done = false → Live w p
  apart : Apart pending

def World.Used (w : World) (q : Path) : Prop := ∃ id n, n < w.tmpCount ∧ q = tmpPath id n

theorem World.Used.not_unused {q : Path} (used : w.Used q) : ¬ w.Unused q := by
  obtain ⟨id,n,small,rfl⟩ := used
  rintro ⟨id',n',large,same⟩
  have := (tmpPath_injective same).2
  omega

theorem World.Used.outside {q : Path} (used : w.Used q) (id : TransactionId) : ¬ transactionDir id <+: q := by
  obtain ⟨owner,n,_,rfl⟩ := used
  exact tmpPath_outside id owner n

theorem World.Used.not_in_folder {q : Path} (used : w.Used q) (id : TransactionId) (below : Path) :
    q ≠ transactionDir id ++ below := fun same => used.outside id (same ▸ List.prefix_append _ _)

theorem Live.used_tmp (live : Live w p) : w.Used p.upload.tmp := by
  obtain ⟨n,small,same⟩ := live.tmp
  exact ⟨p.id,n,small,same⟩

def Op.handles (pending : List PendingUpload) : Op → Option PendingUpload
  | .writeUpload k _ | .finishUpload k _ | .dropUpload k => pending[k]?
  | _ => none

def Op.begins : Op → Bool
  | .beginUpload _ _ _ => true
  | _ => false

/-- A call leaves the temp files of other uploads alone. -/
theorem May.spares_tmp [BoostJson] {c : SvcCall} {q : Path} (may : May sha256 opts env pending op c w.index)
    (placed : ∀ p ∈ pending, Placed p) (sturdy : Sturdy w) (used : w.Used q)
    (other : ∀ p, op.handles pending = some p → p.upload.done = false → p.upload.tmp ≠ q) :
    (Svc.handle sha256 env c w).2.disk.lookup q = w.disk.lookup q := by
  have confined : ¬ c.region q → (Svc.handle sha256 env c w).2.disk.lookup q = w.disk.lookup q :=
    (implement_confined sha256 c).whole
  have document : ∀ id doc, q ≠ documentPath id doc := fun id doc => used.not_in_folder id _
  cases c with
  | insert tx =>
    have effect := insert_effect sha256 env tx w sturdy.fresh
    by_cases ok : (Svc.handle sha256 env (.insert tx) w).1 = .ok ()
    · obtain ⟨_,_,_,disk⟩ := effect.done ok
      have folder := used.not_in_folder tx.id []
      rw [List.append_nil] at folder
      rw [disk,if_neg (document tx.id _),if_neg]
      rintro (same | same)
      · exact folder same
      · exact used.not_in_folder tx.id _ same
    · exact (effect.failed ok).2 q (used.outside _) used.not_unused
  | save tx =>
    have effect := (save_effect sha256 env tx w sturdy.fresh).document
    by_cases ok : (Svc.handle sha256 env (.save tx) w).1 = .ok ()
    · rw [effect.done ok,if_neg (document tx.id _)]
    · exact effect.failed ok q used.not_unused
  | saveManifest tx =>
    have effect := (saveManifest_effect sha256 env tx w sturdy.fresh).1
    by_cases ok : (Svc.handle sha256 env (.saveManifest tx) w).1 = .ok ()
    · rw [effect.done ok,if_neg (document tx.id _)]
    · exact effect.failed ok q used.not_unused
  | remove id => exact (remove_effect sha256 env id w sturdy.fresh).outside (used.outside id)
  | beginUpload id path =>
    obtain ⟨_,⟨_,_,_,disk⟩ | ⟨_,disk⟩⟩ := beginUpload_effect sha256 env id path w sturdy.fresh
    · rw [disk,if_neg]
      rintro rfl
      exact used.not_unused (w.unused_next id)
    · rw [disk]
  | writeUpload u chunk =>
    obtain ⟨k,p,rfl,here,rfl⟩ := may
    exact confined fun inside => other p here inside.1 inside.2.symm
  | commitUpload u expected =>
    obtain ⟨k,p,tx,rfl,here,rfl,_⟩ := may
    refine confined fun inside => ?_
    obtain ⟨progress,same | above⟩ := inside
    · exact other p here progress same.symm
    · obtain ⟨owner,n,_,rfl⟩ := used
      rw [(placed p (List.mem_of_getElem? here)).2,payloadPath,RelativePath.under,filesDir,List.append_assoc] at above
      exact tmpPath_not_above _ _ _ _ above
  | discardUpload u =>
    obtain ⟨k,p,rfl,here,rfl,progress⟩ := may
    exact confined fun inside => other p here progress inside.symm
  | removeFile id path => exact confined fun inside => used.outside id ((List.prefix_append _ _).trans inside.1)
  | env | find | findIf | hashFile | openRead => exact confined id

theorem handle_tmpCount [BoostJson] (c : SvcCall) (w : World) : w.tmpCount ≤ (Svc.handle sha256 env c w).2.tmpCount :=
  exec_tmpCount env (implement sha256 c) w

theorem step_spares_tmp [BoostJson] (orderly : Orderly s) (sturdy : Sturdy s.world) {q : Path} (used : s.world.Used q)
    (other : ∀ p, op.handles s.pending = some p → p.upload.done = false → p.upload.tmp ≠ q) :
    (s.step sha256 opts env op).world.disk.lookup q = s.world.disk.lookup q ∧
      s.world.tmpCount ≤ (s.step sha256 opts env op).world.tmpCount := by
  have may := (step_takes sha256 opts env orderly.keyed op).2
  have ends := (calls_invariant (Svc.handle sha256 env) (fun c w => May sha256 opts env s.pending op c w.index)
    (fun w => Sturdy w ∧ w.disk.lookup q = s.world.disk.lookup q ∧ s.world.tmpCount ≤ w.tmpCount)
    (fun c w may before => ?_) _ _ may ⟨sturdy,rfl,Nat.le_refl _⟩).1
  · exact ends.2
  · obtain ⟨sturdy,same,count⟩ := before
    have used : w.Used q := by
      obtain ⟨id,n,small,rfl⟩ := used
      exact ⟨id,n,Nat.lt_of_lt_of_le small count,rfl⟩
    exact ⟨may.sturdy orderly.placed sturdy,(may.spares_tmp orderly.placed sturdy used other).trans same,
      count.trans (handle_tmpCount c w)⟩

theorem Flow.set (flow : Flow w pending) (here : pending[k]? = some p) (done : p'.upload.done = true) :
    Flow w (pending.set k p') := by
  refine ⟨fun q member progress => ?_,flow.apart.set here fun progress => by rw [done] at progress; contradiction⟩
  rcases List.mem_or_eq_of_mem_set member with old | rfl
  · exact flow.live q old progress
  · rw [done] at progress
    contradiction

theorem Flow.unset (flow : Flow w pending) (here : pending[k]? = some p) : Flow w (pending.set k p) := by
  obtain ⟨bound,rfl⟩ := List.getElem?_eq_some_iff.mp here
  rwa [List.set_getElem_self]

variable [BoostJson]

/-- An operation on one upload that is over afterwards leaves the others in progress. -/
theorem Flow.spent (flow : Flow s.world s.pending) (orderly : Orderly s) (sturdy : Sturdy s.world)
    (here : s.pending[k]? = some p) (its : op.handles s.pending = some p) (done : p'.upload.done = true) :
    Flow (s.step sha256 opts env op).world (s.pending.set k p') := by
  have others : ∀ q ∈ s.pending.set k p', q.upload.done = false →
      (s.step sha256 opts env op).world.disk.lookup q.upload.tmp = s.world.disk.lookup q.upload.tmp ∧
        s.world.tmpCount ≤ (s.step sha256 opts env op).world.tmpCount := by
    intro q member progress
    refine step_spares_tmp orderly sturdy ((flow.set here done).live q member progress).used_tmp fun p₁ its' progress' => ?_
    obtain rfl := Option.some.inj (its.symm.trans its')
    exact (flow.apart.unclaimed here progress' done q member progress).symm
  exact ⟨fun q member progress => ((flow.set here done).live q member progress).frame (others q member progress).2
    (others q member progress).1,(flow.set here done).apart⟩

theorem beginUpload_flow (fresh : FreshTmp w) (caller : Caller) (id : TransactionId) (path : RelativePath) :
    Leads (Svc.handle sha256 env) (TransactionService.beginUpload caller id path) w fun result w' =>
      ∀ p, result = .ok p → Live w' p ∧ w.Unused p.upload.tmp := by
  unfold TransactionService.beginUpload
  rw [leads_locked]
  refine leads_findMutable_bind (fun _ => nofun) fun tx known allowed isOpen => ?_
  obtain ⟨unindexed,effect⟩ := beginUpload_effect sha256 env id path w fresh
  simp only [leads_try_bind,run_beginUpload]
  generalize Svc.handle sha256 env (.beginUpload id path) w = outcome at unindexed effect ⊢
  obtain ⟨result,w₁⟩ := outcome
  dsimp only at unindexed effect ⊢
  rcases effect with ⟨rfl,_,count,disk⟩ | ⟨⟨e,rfl⟩,_⟩
  swap
  · exact ⟨fun _ _ => nofun,fun _ bad => by contradiction⟩
  refine ⟨fun _ bad => by contradiction,fun u same => ?_⟩
  cases same
  rw [leads_pure]
  rintro p ⟨⟩
  exact ⟨⟨⟨w.tmpCount,by omega,rfl⟩,rfl,by dsimp only; rw [disk,if_pos rfl],rfl⟩,w.unused_next id⟩

omit [BoostJson] in
theorem Flow.append (flow : Flow w pending) (live : Live w p) (apart : ∀ q ∈ pending, q.upload.done = false →
    q.upload.tmp ≠ p.upload.tmp) : Flow w (pending ++ [p]) := by
  refine ⟨fun q member progress => ?_,?_⟩
  · rcases List.mem_append.mp member with old | new
    · exact flow.live q old progress
    · exact List.mem_singleton.mp new ▸ live
  · refine List.pairwise_append.mpr ⟨flow.apart,List.pairwise_singleton _ _,fun a old b new first _ => ?_⟩
    exact List.mem_singleton.mp new ▸ apart a old first

/-- What finishing does to the upload: nothing before the store is called, and then it is over. -/
theorem finishUpload_ends (sha256 : Bytes → Sha256Digest) (env : Env) (expected : Option Sha256Digest)
    (live : p.upload.done = false → Live w p) :
    ((perform sha256 env (TransactionService.finishUpload p expected) w).1.2 = p ∧
        (perform sha256 env (TransactionService.finishUpload p expected) w).2 = w) ∨
      (perform sha256 env (TransactionService.finishUpload p expected) w).1.2.upload.done = true := by
  have ended : ∀ {result : Result StoredFile} {u : Upload} {w₁ : World},
      Svc.handle sha256 env (.commitUpload p.upload expected) w = ((result,u),w₁) → u.done = true := by
    intro result u w₁ run
    cases progress : p.upload.done with
    | true =>
      obtain ⟨⟨_,rfl⟩,_⟩ : (_ ∧ u = p.upload) ∧ _ := by
        simpa using run.symm.trans (commitUpload_done sha256 env expected w progress)
      exact progress
    | false =>
      have same := ((live progress).commit progress sha256 env expected).1
      rw [run] at same
      exact congrArg Upload.done same
  exact finishUpload_rule (P := fun result w' => (result.2 = p ∧ w' = w) ∨ result.2.upload.done = true)
    (fun _ => .inl ⟨rfl,rfl⟩) (fun _ _ _ _ => .inl ⟨rfl,rfl⟩) (fun _ _ _ _ _ _ run => .inr (ended run))
    fun _ _ _ _ _ _ run => ⟨fun _ _ => .inr (ended run),fun _ _ => .inr (ended run)⟩

theorem writeUpload_flow (flow : Flow s.world s.pending) (orderly : Orderly s) (sturdy : Sturdy s.world)
    (here : s.pending[k]? = some p) (chunk : Bytes) : Flow (s.step sha256 opts env (.writeUpload k chunk)).world
      (s.pending.set k { p with upload := (exec env (p.upload.write chunk) (s.world.enter .writeUpload)).1.2 }) := by
  have world : (s.step sha256 opts env (.writeUpload k chunk)).world =
      (exec env (p.upload.write chunk) (s.world.enter .writeUpload)).2 := by
    simp only [Server.step,Server.outcome,Op.program,here]
    rfl
  have member := List.mem_of_getElem? here
  have spent : ∀ {p' : PendingUpload}, p'.upload.done = true →
      Flow (s.step sha256 opts env (.writeUpload k chunk)).world (s.pending.set k p') :=
    fun done => flow.spent orderly sturdy here here done
  cases progress : p.upload.done with
  | true =>
    rw [write_done chunk progress]
    exact spent progress
  | false =>
    have live := flow.live p member progress
    have still := (exec_still env (write_quiet p.upload chunk) (s.world.enter .writeUpload)).unindexed
    have wrote := write_spec env p.upload chunk p.upload.hashed (s.world.enter .writeUpload) progress live.content
    rw [← world] at still wrote
    generalize (exec env (p.upload.write chunk) (s.world.enter .writeUpload)).1 = outcome at wrote ⊢
    obtain ⟨result,u⟩ := outcome
    rcases wrote with ⟨rfl,rfl,disk⟩ | ⟨_,rfl,_⟩
    swap
    · exact spent rfl
    have after : Flow _ (s.pending.set k { p with upload := { p.upload with done := true } }) := spent rfl
    refine ⟨fun q member progress' => ?_,flow.apart.set here fun _ => ⟨progress,rfl⟩⟩
    rcases mem_set_or member with rfl | other
    · obtain ⟨n,small,tmp⟩ := live.tmp
      refine ⟨⟨n,Nat.lt_of_lt_of_le small still.count,tmp⟩,live.final,by simp [disk],?_⟩
      simp only [live.size,List.length_append,UInt64.ofNat_add]
    · exact after.live q other progress'

/-- The list of uploads changes only by an operation on one. -/
theorem pending_same (orderly : Orderly s) (op : Op) (none : op.handles s.pending = none) (other : op.begins = false) :
    (s.step sha256 opts env op).pending = s.pending := by
  have holds := (step_takes sha256 opts env orderly.keyed op).1.2
  generalize (s.step sha256 opts env op).pending = after at holds
  cases holds with
  | same => rfl
  | began => contradiction
  | wrote here | finished here => exact absurd (here.symm.trans none) (by simp)
  | dropped => exact List.eraseIdx_of_length_le (List.getElem?_eq_none_iff.mp none)

section

variable (flow : Flow s.world s.pending) (orderly : Orderly s) (sturdy : Sturdy s.world)
include flow orderly sturdy

/-- An operation on no upload leaves them all in progress. -/
theorem Flow.untouched
    (none : op.handles s.pending = none) : Flow (s.step sha256 opts env op).world s.pending := by
  have others : ∀ q ∈ s.pending, q.upload.done = false →
      (s.step sha256 opts env op).world.disk.lookup q.upload.tmp = s.world.disk.lookup q.upload.tmp ∧
        s.world.tmpCount ≤ (s.step sha256 opts env op).world.tmpCount := fun q member progress =>
    step_spares_tmp orderly sturdy (flow.live q member progress).used_tmp fun p its => by rw [none] at its; contradiction
  exact ⟨fun q member progress => (flow.live q member progress).frame (others q member progress).2
    (others q member progress).1,flow.apart⟩

theorem begun_flow (caller : Caller)
    (id : TransactionId) (path : RelativePath) : Flow (s.step sha256 opts env (.beginUpload caller id path)).world
      (s.step sha256 opts env (.beginUpload caller id path)).pending := by
  have begun : Leads (Svc.handle sha256 env) (TransactionService.beginUpload caller id path) s.world _ :=
    beginUpload_flow sturdy.fresh caller id path
  rw [Leads] at begun
  have still : Flow (s.step sha256 opts env (.beginUpload caller id path)).world s.pending := flow.untouched orderly sturdy rfl
  cases result : ((TransactionService.beginUpload caller id path).run.run (Svc.handle sha256 env) s.world).1 with
  | error e =>
    have outcome : s.step sha256 opts env (.beginUpload caller id path) =
        ⟨((TransactionService.beginUpload caller id path).run.run (Svc.handle sha256 env) s.world).2,s.pending⟩ := by
      simp only [Server.step,Server.outcome,Op.program,perform,run_bind,result]
      rfl
    rw [outcome] at still ⊢
    exact still
  | ok p =>
    have outcome : s.step sha256 opts env (.beginUpload caller id path) =
        ⟨((TransactionService.beginUpload caller id path).run.run (Svc.handle sha256 env) s.world).2,s.pending ++ [p]⟩ := by
      simp only [Server.step,Server.outcome,Op.program,perform,run_bind,result]
      rfl
    rw [outcome] at still ⊢
    obtain ⟨live,unused⟩ := begun p result
    refine still.append live fun q member progress same => ?_
    exact (flow.live q member progress).used (same ▸ unused)

theorem finished_flow
    (here : s.pending[k]? = some p) (expected : Option Sha256Digest) :
    Flow (s.step sha256 opts env (.finishUpload k expected)).world
      (s.step sha256 opts env (.finishUpload k expected)).pending := by
  have outcome : s.step sha256 opts env (.finishUpload k expected) =
      ⟨(perform sha256 env (TransactionService.finishUpload p expected) s.world).2,
        s.pending.set k (perform sha256 env (TransactionService.finishUpload p expected) s.world).1.2⟩ := by
    simp only [Server.step,Server.outcome,Op.program,here,perform,run_bind]
    rfl
  rcases finishUpload_ends sha256 env expected (flow.live p (List.mem_of_getElem? here)) with ⟨same,world⟩ | done
  · rw [outcome,same,world]
    exact flow.unset here
  · have after : Flow (s.step sha256 opts env (.finishUpload k expected)).world _ :=
      flow.spent orderly sturdy here here done
    rw [outcome] at after ⊢
    exact after

theorem dropped_flow
    (here : s.pending[k]? = some p) :
    Flow (s.step sha256 opts env (.dropUpload k)).world (s.step sha256 opts env (.dropUpload k)).pending := by
  have same : (s.step sha256 opts env (.dropUpload k)).pending = s.pending.eraseIdx k := by
    simp only [Server.step,Server.outcome,Op.program,here,perform,run_bind]
    rfl
  rw [same]
  generalize ended : { p with upload := { p.upload with done := true } } = p'
  have whole : Flow (s.step sha256 opts env (.dropUpload k)).world (s.pending.set k p') :=
    flow.spent orderly sturdy here here (ended ▸ rfl)
  have sub : (s.pending.eraseIdx k).Sublist (s.pending.set k p') := by
    rw [← List.eraseIdx_set_eq (a := p')]
    exact List.eraseIdx_sublist _ _
  exact ⟨fun q member => whole.live q (sub.subset member),whole.apart.sublist sub⟩

/-- Whatever fails, every upload in progress keeps its temp file. -/
theorem step_flow (op : Op) :
    Flow (s.step sha256 opts env op).world (s.step sha256 opts env op).pending := by
  have still : op.handles s.pending = none → op.begins = false →
      Flow (s.step sha256 opts env op).world (s.step sha256 opts env op).pending := by
    intro none other
    rw [pending_same orderly op none other]
    exact flow.untouched orderly sturdy none
  cases op with
  | beginUpload caller id path => exact begun_flow flow orderly sturdy caller id path
  | writeUpload k chunk =>
    cases here : s.pending[k]? with
    | none => exact still here rfl
    | some p =>
      have same : (s.step sha256 opts env (.writeUpload k chunk)).pending =
          s.pending.set k { p with upload := (exec env (p.upload.write chunk) (s.world.enter .writeUpload)).1.2 } := by
        simp only [Server.step,Server.outcome,Op.program,here]
        rfl
      rw [same]
      exact writeUpload_flow flow orderly sturdy here chunk
  | finishUpload k expected =>
    cases here : s.pending[k]? with
    | none => exact still here rfl
    | some p => exact finished_flow flow orderly sturdy here expected
  | dropUpload k =>
    cases here : s.pending[k]? with
    | none => exact still here rfl
    | some p => exact dropped_flow flow orderly sturdy here
  | _ => exact still rfl rfl

end

end Confide
