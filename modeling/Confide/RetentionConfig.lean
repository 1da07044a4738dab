import Confide.PeerTokens
import Confide.Server

/-! How long the configuration lets transactions live, and what the service makes of it. The parser bounds the
days by the type of the setting, `expires_at` by ten years. -/
namespace Confide

open Bytes Resumption Resumption.Prog

namespace Config

structure RetentionCfg where
  defaultDays : Nat := 30
  maxDays : Nat := 365
  sweepIntervalS : Nat := 3600
  deriving DecidableEq

def parseRetention (root : Toml) : Result RetentionCfg := do
  let out : RetentionCfg := {}
  match ← getSection root (ascii "retention") with
  | none => return out
  | some tbl =>
    let defaultDays ← getUnsigned tbl (ascii "default_days") (ascii "retention") (2^32 - 1) out.defaultDays
    let maxDays ← getUnsigned tbl (ascii "max_days") (ascii "retention") (2^32 - 1) out.maxDays
    let sweepIntervalS ← getUnsigned tbl (ascii "sweep_interval_s") (ascii "retention") (2^32 - 1) out.sweepIntervalS
    if defaultDays = 0 then invalid (ascii "retention.default_days must be > 0")
    else if maxDays < defaultDays then
      invalid (ascii "retention.max_days (" ++ decimal maxDays ++ ascii ") must be >= default_days (" ++
        decimal defaultDays ++ ascii ")")
    else if sweepIntervalS = 0 then invalid (ascii "retention.sweep_interval_s must be > 0")
    else return ⟨defaultDays,maxDays,sweepIntervalS⟩

def toInt (n : Nat) : Int := (n : Int).bmod (2^32)

def serviceOptions (instanceName : Bytes) (maxCommentLength : Nat) (retention : RetentionCfg) : ServiceOptions :=
  ⟨instanceName,toInt retention.defaultDays,toInt retention.maxDays,maxCommentLength⟩

theorem toInt_small {n : Nat} (small : n < 2^31) : toInt n = n := by
  unfold toInt
  exact Int.bmod_eq_of_le (by omega) (by omega)

theorem parseRetention_ok {root : Toml} {out : RetentionCfg} (parsed : parseRetention root = .ok out) :
    1 ≤ out.defaultDays ∧ out.defaultDays ≤ out.maxDays := by
  unfold parseRetention at parsed
  obtain ⟨found,_,parsed⟩ := bind_eq_ok.mp parsed
  cases found with
  | none =>
    cases parsed
    decide
  | some tbl =>
    obtain ⟨defaultDays,_,parsed⟩ := bind_eq_ok.mp parsed
    obtain ⟨maxDays,_,parsed⟩ := bind_eq_ok.mp parsed
    obtain ⟨sweepIntervalS,_,parsed⟩ := bind_eq_ok.mp parsed
    split at parsed
    · contradiction
    split at parsed
    · contradiction
    split at parsed
    · contradiction
    cases parsed
    constructor
    · exact Nat.pos_of_ne_zero ‹_›
    · exact Nat.le_of_not_lt ‹_›

end Config

/-- A validation error about the days of retention, by its text. -/
def AboutRetention (e : Error) : Prop :=
  e.code = .validation ∧ (ascii "retention_days must" <+: e.detail ∨ ascii "days must be" <+: e.detail)

instance (e : Error) : Decidable (AboutRetention e) := inferInstanceAs (Decidable (_ ∧ _))

/-- What the service asks may fail, but for other reasons. -/
def OtherReasons : (c : SvcCall) → c.Reply → Prop
  | .env (.checkDestination _ _), reply => ∀ e, reply = .error e → ¬ AboutRetention e
  | .insert _, reply => ∀ e, reply = .error e → ¬ AboutRetention e
  | .save _, reply => ∀ e, reply = .error e → ¬ AboutRetention e
  | _, _ => True

/-- However the clock, the directory and the repository answer, the program ends like this. -/
def Always (p : SvcM α) (post : Result α → Prop) : Prop :=
  p.run.Guarantees (fun c (_ : Unit) reply _ => OtherReasons c reply) (fun _ _ => True) () fun result _ => post result

/-- No error about retention, and else that many days. -/
def Lasts (days : Int) : Result Transaction → Prop
  | .ok tx => tx.expiresAt = tx.createdAt + days * 86400
  | .error e => ¬ AboutRetention e

def RetentionWorks (opts : ServiceOptions) (retention : Config.RetentionCfg) : Prop :=
  (∀ (caller : Caller) (req : CreateRequest), 0 ≤ req.retentionDays → req.retentionDays ≤ retention.maxDays →
    Always (TransactionService.create opts caller req)
      (Lasts (if req.retentionDays = 0 then retention.defaultDays else req.retentionDays))) ∧
  ∀ admin id (days : Int), 1 ≤ days → days ≤ retention.maxDays →
    Always (TransactionService.setRetention opts admin id days) (Lasts days)

section Rules

variable {α β : Type} {post : Result β → Prop}

theorem always_refuse_bind {bad : Bool} {e : Error} {f : Unit → SvcM β} :
    Always (refuse bad e >>= f) post ↔ (bad = true → post (.error e)) ∧ (bad = false → Always (f ()) post) :=
  guarantees_refuse_bind

theorem always_ensure_bind {result : Result α} {f : α → SvcM β} : Always (ensure result >>= f) post ↔
    (∀ e, result = .error e → post (.error e)) ∧ ∀ value, result = .ok value → Always (f value) post :=
  guarantees_ensure_bind

theorem always_ask_bind {c : SvcCall} {f : c.Reply → SvcM β} :
    Always (ask c >>= f) post ↔ ∀ reply, OtherReasons c reply → Always (f reply) post := by
  refine guarantees_lift_bind.trans ?_
  simp only [true_and]
  exact ⟨fun holds reply fair => holds reply () fair,fun holds reply _ fair => holds reply fair⟩

theorem always_throw {e : Error} : Always (throw e) post ↔ post (.error e) := Iff.rfl

theorem always_try_bind {p : Prog Svc (Result α)} {f : α → SvcM β}
    (stop : ∀ e, ¬ AboutRetention e → post (.error e)) (next : ∀ value, Always (f value) post)
    (fair : p.Guarantees (fun c (_ : Unit) reply _ => OtherReasons c reply) (fun _ _ => True) ()
      fun result _ => ∀ e, result = .error e → ¬ AboutRetention e) :
    Always (tryCall p >>= f) post := by
  refine (guarantees_exceptT_bind _ _ _ _).mpr (fair.mono ?_)
  rintro (e | value) _ other
  · exact stop e (other e rfl)
  · exact next value

theorem always_locked {id : TransactionId} {body : SvcM β} (holds : Always body post) :
    Always (TransactionService.locked id body) post := by
  refine (guarantees_bind _ _ _ _).mpr ⟨trivial,fun mutex _ _ => ?_⟩
  refine (guarantees_bind _ _ _ _).mpr ⟨trivial,fun _ _ _ => ?_⟩
  refine (guarantees_bind _ _ _ _).mpr (holds.mono fun value _ ends => ?_)
  exact (guarantees_bind _ _ _ _).mpr ⟨trivial,fun _ _ _ => ends⟩

end Rules

variable {opts : ServiceOptions} {retention : Config.RetentionCfg}

theorem expiresAt_ok {created days : Int} (positive : 1 ≤ days) (bounded : days ≤ 3650) :
    expiresAt created days = .ok (created + days * 86400) :=
  if_neg (by unfold maxRetentionDays; omega)

theorem AboutRetention.head {e : Error} (about : AboutRetention e) :
    e.detail.head? = some 114 ∨ e.detail.head? = some 100 := by
  obtain ⟨_,⟨rest,text⟩ | ⟨rest,text⟩⟩ := about
  · rw [← text]
    exact .inl rfl
  · rw [← text]
    exact .inr rfl

theorem lasts_error {days : Int} {e : Error} (first : UInt8) (text : e.detail.head? = some first)
    (other : first ≠ 114 ∧ first ≠ 100) : Lasts days (.error e) := by
  intro about
  rcases about.head with starts | starts
  · exact other.1 (Option.some.inj (text.symm.trans starts))
  · exact other.2 (Option.some.inj (text.symm.trans starts))

theorem checkComment_error {comment : Bytes} {maxLength : Nat} {e : Error} {days : Int}
    (bad : checkComment comment maxLength = .error e) : Lasts days (.error e) := by
  unfold checkComment at bad
  split at bad
  · cases bad
    exact lasts_error 99 rfl (by decide)
  · dsimp only at bad
    split at bad
    · cases bad
      exact lasts_error 99 rfl (by decide)
    · contradiction

/-- A request within the limits of both the options and `expires_at`. -/
theorem create_always {caller : Caller} {req : CreateRequest} {days : Int} (positive : 0 ≤ req.retentionDays)
    (within : req.retentionDays ≤ opts.maxRetentionDays)
    (chosen : (if req.retentionDays = 0 then opts.defaultRetentionDays else req.retentionDays) = days)
    (first : 1 ≤ days) (last : days ≤ 3650) : Always (TransactionService.create opts caller req) (Lasts days) := by
  unfold TransactionService.create
  refine always_refuse_bind.mpr ⟨fun _ => lasts_error 112 rfl (by decide),fun _ => ?_⟩
  refine always_refuse_bind.mpr ⟨fun _ => lasts_error 116 rfl (by decide),fun _ => ?_⟩
  refine always_refuse_bind.mpr ⟨fun negative => absurd (of_decide_eq_true negative) (by omega),fun _ => ?_⟩
  refine always_refuse_bind.mpr ⟨fun ended => absurd (of_decide_eq_true ended) (by omega),fun _ => ?_⟩
  refine always_ensure_bind.mpr ⟨fun e bad => checkComment_error bad,fun _ _ => ?_⟩
  refine always_try_bind (fun e other => other) (fun _ => ?_) ⟨trivial,fun reply _ fair => fair⟩
  refine always_ask_bind.mpr fun created _ => ?_
  dsimp only
  rw [chosen,expiresAt_ok first last]
  refine always_ensure_bind.mpr ⟨nofun,fun expires same => always_ask_bind.mpr fun id _ => ?_⟩
  refine always_try_bind (fun e other => other) (fun _ => ?_) ⟨trivial,fun reply _ fair => fair⟩
  exact always_ask_bind.mpr fun _ _ => (Except.ok.inj same).symm

theorem setRetention_always {admin : Caller} {id : TransactionId} {days : Int} (first : 1 ≤ days)
    (within : days ≤ opts.maxRetentionDays) (last : days ≤ 3650) :
    Always (TransactionService.setRetention opts admin id days) (Lasts days) := by
  unfold TransactionService.setRetention
  refine always_refuse_bind.mpr ⟨fun _ => lasts_error 110 rfl (by decide),fun _ => ?_⟩
  refine always_refuse_bind.mpr ⟨fun outside => absurd (of_decide_eq_true outside) (by omega),fun _ => ?_⟩
  refine always_locked (always_ask_bind.mpr fun found _ => ?_)
  cases found with
  | none => exact always_throw.mpr (lasts_error 110 rfl (by decide))
  | some tx =>
    refine always_refuse_bind.mpr ⟨fun _ => lasts_error 116 rfl (by decide),fun _ => ?_⟩
    rw [expiresAt_ok first last]
    refine always_ensure_bind.mpr ⟨nofun,fun expires same => ?_⟩
    refine always_try_bind (fun e other => other) (fun _ => ?_) ⟨trivial,fun reply _ fair => fair⟩
    exact always_ask_bind.mpr fun _ _ => (Except.ok.inj same).symm

theorem create_refuses {req : CreateRequest} {caller : Caller} (user : caller.isPeer = false)
    (target : req.targetUser ≠ []) (plain : req.comment = []) (long : 3650 < req.retentionDays) :
    ¬ Always (TransactionService.create opts caller req) (Lasts req.retentionDays) := by
  intro holds
  unfold TransactionService.create at holds
  have holds := (always_refuse_bind.mp holds).2 user
  have holds := (always_refuse_bind.mp holds).2 (by simp [target])
  have holds := (always_refuse_bind.mp holds).2 (by simp; omega)
  by_cases ended : opts.maxRetentionDays < req.retentionDays
  · exact (always_refuse_bind.mp holds).1 (by simp [ended]) ⟨rfl,.inl (by simp [ascii])⟩
  have holds := (always_refuse_bind.mp holds).2 (by simp [ended])
  have holds := (always_ensure_bind.mp holds).2 () (by simp [checkComment,plain])
  have holds := ((guarantees_exceptT_bind _ _ _ _).mp holds).2 (.ok ()) () nofun
  have holds := always_ask_bind.mp holds (0 : Int) trivial
  have days : (if req.retentionDays = 0 then opts.defaultRetentionDays else req.retentionDays) = req.retentionDays :=
    if_neg (by omega)
  dsimp only at holds
  rw [days] at holds
  refine (always_ensure_bind.mp holds).1 _ (if_pos ?_) ⟨rfl,.inl (by simp [ascii])⟩
  unfold maxRetentionDays
  omega

/-- Every accepted setting works if the longest retention is at most ten years, and only then. -/
theorem accepted_retention_works (root : Toml) (retention : Config.RetentionCfg)
    (accepted : Config.parseRetention root = .ok retention) (instanceName : Bytes) (maxCommentLength : Nat) :
    RetentionWorks (Config.serviceOptions instanceName maxCommentLength retention) retention ↔
      retention.maxDays ≤ 3650 := by
  obtain ⟨positive,ordered⟩ := Config.parseRetention_ok accepted
  constructor
  · rintro ⟨creates,_⟩
    by_contra long
    have request : ∀ days : Int, 3650 < days → days ≤ retention.maxDays → False := by
      intro days more within
      have taken := creates ⟨[],false,false⟩ ⟨[98],[],days,[]⟩ (by dsimp only; omega) within
      rw [if_neg (by dsimp only; omega)] at taken
      exact create_refuses rfl (List.cons_ne_nil _ _) rfl more taken
    exact request 3651 (by omega) (by omega)
  · intro short
    rw [Config.serviceOptions,Config.toInt_small (show retention.defaultDays < 2^31 by omega),
      Config.toInt_small (show retention.maxDays < 2^31 by omega)]
    constructor
    · intro caller req first last
      apply create_always first last rfl
      · dsimp only
        split <;> omega
      · dsimp only
        split <;> omega
    · intro admin id days first last
      exact setRetention_always first last (by omega)

theorem accepted_retention_works_default : RetentionWorks (Config.serviceOptions (ascii "alpha") 500 {}) {} :=
  (accepted_retention_works (.table []) {} rfl (ascii "alpha") 500).mpr (by decide)

/-- The parser takes four thousand days. No transaction can then be created without a retention of its own. -/
theorem long_retention_refused :
    let retention : Config.RetentionCfg := ⟨4000,4000,3600⟩
    Config.parseRetention (.table [(ascii "retention",.table [(ascii "default_days",.int 4000),(ascii "max_days",.int 4000)])]) =
      .ok retention ∧
    (Prog.run (Svc.handle Sample.sha256 Sample.env) (TransactionService.create
      (Config.serviceOptions (ascii "alpha") 500 retention) Sample.alice Sample.request).run Server.empty.world).1 =
      .error ⟨.validation,ascii "retention_days must be 1..3650, got 4000"⟩ := by
  decide +kernel

end Confide
