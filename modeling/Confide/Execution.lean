import Confide.Repository

/-! Running programs of the machine: an equation for each call, a rule for each way of
putting programs together, and what the fallible primitives do to the disk. -/
namespace Confide

open Bytes Resumption Resumption.Prog DirTree

variable {env : Env} {w w' : World} {α β : Type}

/-- No primitive fails in this stage. -/
def Env.Clear (env : Env) (stage : Stage) : Prop := ∀ n, env.fails stage n = false

/-- No primitive fails at all. -/
def Env.Faultless (env : Env) : Prop := ∀ stage, env.Clear stage

/-- Runs a program of the machine. -/
def exec (env : Env) (p : Prog Sys α) (w : World) : α × World := p.run (Sys.handle env) w

@[simp] theorem exec_ret (value : α) : exec env (Prog.ret value) w = (value,w) := rfl

@[simp] theorem exec_bind (p : Prog Sys α) (f : α → Prog Sys β) :
    exec env (p >>= f) w = exec env (f (exec env p w).1) (exec env p w).2 := Prog.run_bind _ p f w

@[simp] theorem exec_map (p : Prog Sys α) (f : α → β) :
    exec env (f <$> p) w = (f (exec env p w).1,(exec env p w).2) := Prog.run_map _ p f w

@[simp] theorem enter_index (w : World) (stage : Stage) : (w.enter stage).index = w.index := rfl
@[simp] theorem enter_disk (w : World) (stage : Stage) : (w.enter stage).disk = w.disk := rfl
@[simp] theorem enter_tmpCount (w : World) (stage : Stage) : (w.enter stage).tmpCount = w.tmpCount := rfl
@[simp] theorem enter_log (w : World) (stage : Stage) : (w.enter stage).log = w.log := rfl
@[simp] theorem enter_stage (w : World) (stage : Stage) : (w.enter stage).stage = stage := rfl
@[simp] theorem enter_tick (w : World) (stage : Stage) : (w.enter stage).tick = 0 := rfl

@[simp] theorem exec_bindM (p : SysM α) (f : α → SysM β) : exec env (p >>= f).run w =
    match exec env p.run w with
    | (.ok value,w') => exec env (f value).run w'
    | (.error e,w') => (.error e,w') := by
  simp only [exec,Prog.run_exceptT_bind]
  rcases p.run.run (Sys.handle env) w with ⟨_ | _,_⟩ <;> rfl

@[simp] theorem exec_pureM (value : α) : exec env (pure value : SysM α).run w = (.ok value,w) := rfl

@[simp] theorem exec_throwM (e : Error) : exec env (throw e : SysM α).run w = (.error e,w) := rfl

@[simp] theorem exec_liftM (p : Prog Sys α) :
    exec env (ExceptT.lift p : SysM α).run w = (.ok (exec env p w).1,(exec env p w).2) := by
  simp [ExceptT.run_lift]

/-! One equation for each call; the type of a reply depends on the call. -/

@[simp] theorem call_eq (c : SysCall) : call c = ExceptT.lift (sys c) := rfl

@[simp] theorem exec_enter (stage : Stage) : @exec Unit env (sys (.enter stage)) w = ((),w.enter stage) := rfl
@[simp] theorem exec_indexFind (id : TransactionId) :
    @exec (Option Transaction) env (sys (.indexFind id)) w = (w.index.lookup id,w) := rfl
@[simp] theorem exec_indexAll : @exec (List Transaction) env (sys .indexAll) w = (w.all,w) := rfl
@[simp] theorem exec_indexSet (tx : Transaction) :
    @exec Unit env (sys (.indexSet tx)) w = ((),{ w with index := w.index.insert tx.id tx }) := rfl
@[simp] theorem exec_indexErase (id : TransactionId) :
    @exec Unit env (sys (.indexErase id)) w = ((),{ w with index := w.index.erase id }) := rfl
@[simp] theorem exec_indexReset (txs : List Transaction) : @exec Unit env (sys (.indexReset txs)) w =
    ((),{ w with index := txs.foldr (fun tx index => index.insert tx.id tx) ∅ }) := rfl
@[simp] theorem exec_nextTmp :
    @exec Nat env (sys .nextTmp) w = (w.tmpCount,{ w with tmpCount := w.tmpCount + 1 }) := rfl
@[simp] theorem exec_status (path : Path) :
    @exec Status env (sys (.status path)) w = (nodeStatus (w.disk.lookup path),w) := rfl
@[simp] theorem exec_isEmpty (path : Path) :
    @exec Bool env (sys (.isEmpty path)) w = (w.disk.isDirectory path && w.disk.isEmpty path,w) := rfl
@[simp] theorem exec_children (path : Path) :
    @exec (List Bytes) env (sys (.children path)) w = (enumerate key key_injective (w.disk.children path),w) := rfl
@[simp] theorem exec_removalOrder (path : Path) :
    @exec (List Path) env (sys (.removalOrder path)) w = (removalOrder env w.disk path,w) := rfl
@[simp] theorem exec_read (path : Path) : @exec (Opened Bytes) env (sys (.read path)) w = (w.read path,w) := rfl
@[simp] theorem exec_mkdir (path : Path) : @exec Made env (sys (.mkdir path)) w = w.mkdir env path := rfl
@[simp] theorem exec_create (path : Path) : @exec (Opened Unit) env (sys (.create path)) w = w.create env path := rfl
@[simp] theorem exec_append (path : Path) (chunk : Bytes) :
    @exec Bool env (sys (.append path chunk)) w = w.append env path chunk := rfl
@[simp] theorem exec_flush (path : Path) : @exec Bool env (sys (.flush path)) w = w.attempt env (some w.disk) := rfl
@[simp] theorem exec_fsync (path : Path) : @exec Bool env (sys (.fsync path)) w = w.attempt env (some w.disk) := rfl
@[simp] theorem exec_close (path : Path) : @exec Bool env (sys (.close path)) w = w.attempt env (some w.disk) := rfl
@[simp] theorem exec_rename (source target : Path) :
    @exec Bool env (sys (.rename source target)) w = w.attempt env (w.disk.rename source target) := rfl
@[simp] theorem exec_remove (path : Path) : @exec Bool env (sys (.remove path)) w = w.remove env path := rfl

@[simp] theorem exec_refuse (bad : Bool) (e : Error) :
    exec env (refuse bad e : SysM Unit).run w = (if bad then .error e else .ok (),w) := by
  unfold refuse
  split <;> rfl

@[simp] theorem exec_ensure (result : Result α) : exec env (ensure result : SysM α).run w = (result,w) := rfl

section Leads

variable {sig : Signature} {S : Type} {handle : Prog.Handler sig S} {s : S} {post : Result β → S → Prop}

theorem leads_refuse_bind {bad : Bool} {e : Error} {f : Unit → ExceptT Error (Prog sig) β} :
    Leads handle (refuse bad e >>= f) s post ↔
      (bad = true → post (.error e) s) ∧ (bad = false → Leads handle (f ()) s post) := by
  rw [leads_bind,refuse]
  cases bad
  · simp [leads_pure]
  · simp [leads_throw]

theorem leads_ensure_bind {result : Result α} {f : α → ExceptT Error (Prog sig) β} :
    Leads handle (ensure result >>= f) s post ↔ (∀ e, result = .error e → post (.error e) s) ∧
      (∀ value, result = .ok value → Leads handle (f value) s post) := by
  rw [leads_bind,ensure,leads_mk]
  cases result <;> simp

section Guarantees

variable {step : (c : sig.Call) → S → sig.Reply c → S → Prop} {may : sig.Call → S → Prop}

theorem guarantees_refuse_bind {bad : Bool} {e : Error} {f : Unit → ExceptT Error (Prog sig) β} :
    (refuse bad e >>= f).run.Guarantees step may s post ↔
      (bad = true → post (.error e) s) ∧ (bad = false → (f ()).run.Guarantees step may s post) := by
  rw [guarantees_exceptT_bind]
  cases bad <;> simp [refuse]

theorem guarantees_ensure_bind {result : Result α} {f : α → ExceptT Error (Prog sig) β} :
    (ensure result >>= f).run.Guarantees step may s post ↔ (∀ e, result = .error e → post (.error e) s) ∧
      ∀ value, result = .ok value → (f value).run.Guarantees step may s post := by
  rw [guarantees_exceptT_bind]
  cases result <;> simp [ensure]

theorem guarantees_lift_bind {c : sig.Call} {f : sig.Reply c → ExceptT Error (Prog sig) β} :
    (ExceptT.lift (Prog.perform c) >>= f).run.Guarantees step may s post ↔
      may c s ∧ ∀ reply s', step c s reply s' → (f reply).run.Guarantees step may s' post := by
  rw [guarantees_exceptT_bind,ExceptT.run_lift,guarantees_map,guarantees_perform]

end Guarantees

theorem leads_exec {p : SysM β} {post : Result β → World → Prop} : Leads (Sys.handle env) p w post ↔
    post (exec env p.run w).1 (exec env p.run w).2 := Iff.rfl

theorem leads_exec_bind {p : Prog Sys α} {f : α → SysM β} {post : Result β → World → Prop} :
    Leads (Sys.handle env) (ExceptT.lift p >>= f) w post ↔
      Leads (Sys.handle env) (f (exec env p w).1) (exec env p w).2 post := leads_lift_bind

theorem leads_orIo_bind {done : Bool} {what subject : Bytes} {f : Unit → SysM β} {post : Result β → World → Prop} :
    Leads (Sys.handle env) (orIo done what subject >>= f) w post ↔
      (done = false → post (.error (ioError what subject)) w) ∧
      (done = true → Leads (Sys.handle env) (f ()) w post) := by
  rw [orIo,leads_refuse_bind]
  cases done <;> simp

end Leads

/-! Calls that leave the index, the log and the stage alone. -/

def SysCall.Quiet : SysCall → Prop
  | .env _ | .enter _ | .indexSet _ | .indexErase _ | .indexReset _ => False
  | _ => True

/-- Nothing but the disk and the counters has changed. -/
structure Still (w w' : World) : Prop where
  index : w'.index = w.index
  log : w'.log = w.log
  stage : w'.stage = w.stage
  tmpCount : w.tmpCount ≤ w'.tmpCount

theorem Still.refl (w : World) : Still w w := ⟨rfl,rfl,rfl,Nat.le_refl _⟩

theorem Still.trans {w₁ w₂ w₃ : World} (first : Still w₁ w₂) (second : Still w₂ w₃) : Still w₁ w₃ :=
  ⟨second.index.trans first.index,second.log.trans first.log,second.stage.trans first.stage,
    Nat.le_trans first.tmpCount second.tmpCount⟩

theorem attempt_still (env : Env) (w : World) (result : Option Disk) : Still w (w.attempt env result).2 := by
  unfold World.attempt
  split
  · exact ⟨rfl,rfl,rfl,Nat.le_refl _⟩
  · split <;> exact ⟨rfl,rfl,rfl,Nat.le_refl _⟩

@[simp] theorem attempt_tmpCount (env : Env) (w : World) (result : Option Disk) :
    (w.attempt env result).2.tmpCount = w.tmpCount := by
  unfold World.attempt
  split
  · rfl
  · split <;> rfl

@[simp] theorem attempt_stage (env : Env) (w : World) (result : Option Disk) :
    (w.attempt env result).2.stage = w.stage := (attempt_still env w result).stage

@[simp] theorem attempt_tick (env : Env) (w : World) (result : Option Disk) :
    (w.attempt env result).2.tick = w.tick + 1 := by
  unfold World.attempt
  split
  · rfl
  · split <;> rfl

theorem mkdir_world (env : Env) (w : World) (path : Path) :
    (w.mkdir env path).2 = (w.attempt env (w.disk.mkdir path)).2 := by
  unfold World.mkdir
  split
  · rename_i made; rw [made]
  · rename_i made
    rw [made]
    repeat' split
    all_goals rfl

theorem create_world (env : Env) (w : World) (path : Path) :
    (w.create env path).2 = (w.attempt env (w.disk.assign path (.file []))).2 := by
  unfold World.create
  split
  · rename_i made; rw [made]
  · rename_i made
    rw [made]
    split <;> rfl

theorem handle_still (env : Env) (c : SysCall) (quiet : c.Quiet) (w : World) :
    Still w (Sys.handle env c w).2 := by
  cases c with
  | env | enter | indexSet | indexErase | indexReset => exact absurd quiet id
  | mkdir path =>
    have same := attempt_still env w (w.disk.mkdir path)
    rwa [← mkdir_world] at same
  | create path =>
    have same := attempt_still env w (w.disk.assign path (.file []))
    rwa [← create_world] at same
  | append | flush | fsync | close | rename | remove => exact attempt_still env w _
  | nextTmp => exact ⟨rfl,rfl,rfl,Nat.le_succ _⟩
  | indexFind | indexAll | status | isEmpty | children | removalOrder | read => exact Still.refl w

/-- A quiet program changes nothing but the disk and the counters. -/
theorem exec_still (env : Env) {p : Prog Sys α} (quiet : p.Uses SysCall.Quiet) (w : World) : Still w (exec env p w).2 :=
  quiet.run (Sys.handle env) (Still w) (fun c w' allowed same => same.trans (handle_still env c allowed w'))
    w (Still.refl w)

theorem quiet_sys {c : SysCall} (quiet : c.Quiet) : (sys c).Uses SysCall.Quiet :=
  ⟨quiet,fun _ => trivial⟩

theorem quiet_lift {p : Prog Sys α} (quiet : p.Uses SysCall.Quiet) : Uses SysCall.Quiet (ExceptT.lift p : SysM α).run :=
  quiet.bind fun _ => trivial

theorem quiet_call {c : SysCall} (quiet : c.Quiet) : Uses SysCall.Quiet (call c).run :=
  quiet_lift (quiet_sys quiet)

theorem quiet_refuse (bad : Bool) (e : Error) :
    Uses SysCall.Quiet (refuse bad e : SysM Unit).run := by
  unfold refuse
  split <;> trivial

theorem quiet_orIo (done : Bool) (what subject : Bytes) : Uses SysCall.Quiet (orIo done what subject).run :=
  quiet_refuse _ _

theorem attempt_true {result : Option Disk} (done : (w.attempt env result).1 = true) :
    result = some (w.attempt env result).2.disk := by
  unfold World.attempt at done ⊢
  split at done
  · contradiction
  · rename_i fine
    rw [if_neg fine]
    cases result with
    | none => contradiction
    | some disk => rfl

theorem attempt_false {result : Option Disk} (failed : (w.attempt env result).1 = false) :
    (w.attempt env result).2.disk = w.disk := by
  unfold World.attempt at failed ⊢
  split
  · rfl
  · rename_i fine
    rw [if_neg fine] at failed
    cases result with
    | none => rfl
    | some disk => contradiction

theorem attempt_clear (clear : env.fails w.stage w.tick = false) (result : Option Disk) :
    (w.attempt env result).1 = result.isSome := by
  unfold World.attempt
  rw [clear,if_neg (by simp)]
  cases result <;> rfl

/-- A new directory, or an answer about a disk that stays as it is. -/
theorem mkdir_spec (env : Env) (w : World) (path : Path) :
    ((w.mkdir env path).1 = .created ∧ w.disk.mkdir path = some (w.mkdir env path).2.disk) ∨
      ((w.mkdir env path).1 ≠ .created ∧ (w.mkdir env path).2.disk = w.disk ∧
        ((w.mkdir env path).1 = .present → w.disk.lookup path = some .directory) ∧
        ((w.mkdir env path).1 = .clash → ∃ content, w.disk.lookup path = some (.file content) ∨
          w.disk.lookup path.dropLast = some (.file content)) ∧
        ((w.mkdir env path).1 = .failed → env.fails w.stage w.tick = false →
          w.disk.lookup path = none ∧ w.disk.lookup path.dropLast = none)) := by
  have yes := @attempt_true env w (w.disk.mkdir path)
  have no := @attempt_false env w (w.disk.mkdir path)
  have all := fun clear => @attempt_clear env w clear (w.disk.mkdir path)
  unfold World.mkdir
  cases outcome : w.attempt env (w.disk.mkdir path) with
  | mk done next =>
    rw [outcome] at yes no all
    cases done with
    | true => exact .inl ⟨rfl,yes rfl⟩
    | false =>
      right
      have same := no rfl
      dsimp only
      split
      · rename_i fault
        refine ⟨by simp,same,by simp,by simp,fun _ clear => ?_⟩
        rw [clear] at fault
        contradiction
      · cases here : w.disk.lookup path with
        | some node =>
          cases node with
          | directory => exact ⟨by simp,same,fun _ => rfl,by simp,by simp⟩
          | file content => exact ⟨by simp,same,by simp,fun _ => ⟨content,.inl rfl⟩,by simp⟩
        | none =>
          cases above : w.disk.lookup path.dropLast with
          | none => exact ⟨by simp,same,by simp,by simp,fun _ _ => ⟨rfl,rfl⟩⟩
          | some node =>
            cases node with
            | file content => exact ⟨by simp,same,by simp,fun _ => ⟨content,.inr rfl⟩,by simp⟩
            | directory =>
              refine ⟨by simp,same,by simp,by simp,fun _ clear => ?_⟩
              have := Tree.mkdir_isSome.mpr ⟨here,above⟩
              rw [← all clear] at this
              contradiction

/-- Flushing, syncing and closing change nothing. -/
@[simp] theorem attempt_idle (env : Env) (w : World) : (w.attempt env (some w.disk)).2.disk = w.disk := by
  cases outcome : (w.attempt env (some w.disk)).1 with
  | true => exact (Option.some.inj (attempt_true outcome)).symm
  | false => exact attempt_false outcome

theorem remove_spec (env : Env) (w : World) (path : Path) :
    (∀ q, q ≠ path → (w.remove env path).2.disk.lookup q = w.disk.lookup q) ∧
      ((w.remove env path).1 = true → (w.remove env path).2.disk.lookup path = none) ∧
      ((w.remove env path).1 = false → (w.remove env path).2.disk = w.disk) ∧
      (env.fails w.stage w.tick = false → w.disk.lookup path = none ∨ (path ≠ [] ∧ w.disk.isEmpty path = true) →
        (w.remove env path).1 = true) := by
  unfold World.remove
  by_cases absent : (w.disk.lookup path).isNone = true
  · rw [if_pos absent,attempt_idle]
    rw [Option.isNone_iff_eq_none] at absent
    exact ⟨fun _ _ => rfl,fun _ => absent,fun _ => rfl,fun clear _ => attempt_clear clear _⟩
  · rw [if_neg absent]
    rw [Option.isNone_iff_eq_none] at absent
    refine ⟨fun q other => ?_,fun done => ?_,attempt_false,fun clear removable => ?_⟩
    · cases outcome : (w.attempt env (w.disk.detach path)).1 with
      | false => rw [attempt_false outcome]
      | true => rw [Tree.detach_lookup (attempt_true outcome),if_neg other]
    · rw [Tree.detach_lookup (attempt_true done),if_pos rfl]
    · rw [attempt_clear clear]
      exact Tree.detach_isSome.mpr (removable.resolve_left absent)

end Confide
