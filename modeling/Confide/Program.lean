import Mathlib.Logic.Function.Basic
import Mathlib.Tactic.Common

/-! Programs as finite trees of calls on an environment. One program text has
several readings: a state-passing run, the list of calls it made, a run that is cut
after some number of calls, and a guarantee over every reply the environment may
give. Nothing here fixes what a call does. -/
namespace Resumption

/-- The calls a program may make, each with the type of its reply. -/
structure Signature where
  Call : Type
  Reply : Call → Type

inductive Prog (sig : Signature) (α : Type) where
  | ret (value : α)
  | call (c : sig.Call) (next : sig.Reply c → Prog sig α)

namespace Prog

variable {sig : Signature} {α β γ ε S W : Type}

def bind : Prog sig α → (α → Prog sig β) → Prog sig β
  | .ret value, f => f value
  | .call c next, f => .call c fun reply => (next reply).bind f

instance : Monad (Prog sig) where
  pure := .ret
  bind := bind

@[simp] theorem pure_eq (value : α) : (pure value : Prog sig α) = .ret value := rfl
@[simp] theorem ret_bind (value : α) (f : α → Prog sig β) : (Prog.ret value >>= f) = f value := rfl
@[simp] theorem call_bind (c : sig.Call) (next : sig.Reply c → Prog sig α) (f : α → Prog sig β) :
    (Prog.call c next >>= f) = .call c fun reply => next reply >>= f := rfl

theorem bind_ret (p : Prog sig α) : (p >>= fun value => Prog.ret value) = p := by
  induction p with
  | ret value => rfl
  | call c next ih => simp only [call_bind,ih]

theorem bind_assoc (p : Prog sig α) (f : α → Prog sig β) (g : β → Prog sig γ) :
    (p >>= f >>= g) = p >>= fun value => f value >>= g := by
  induction p with
  | ret value => rfl
  | call c next ih => simp only [call_bind,ih]

instance : LawfulMonad (Prog sig) :=
  LawfulMonad.mk' (Prog sig) (fun p => bind_ret p) (fun _ _ => rfl) bind_assoc

def perform (c : sig.Call) : Prog sig (sig.Reply c) := .call c .ret

/-- What an environment does with a call: its reply and its next state. -/
abbrev Handler (sig : Signature) (S : Type) := (c : sig.Call) → S → sig.Reply c × S

def run (handle : Handler sig S) : Prog sig α → S → α × S
  | .ret value, s => (value, s)
  | .call c next, s => (next (handle c s).1).run handle (handle c s).2

/-- Every call of a run, with the state in which it was made. -/
def calls (handle : Handler sig S) : Prog sig α → S → List (sig.Call × S)
  | .ret _, _ => []
  | .call c next, s => (c, s) :: (next (handle c s).1).calls handle (handle c s).2

/-- The state after at most `fuel` calls; the rest of the program is lost. -/
def cut (handle : Handler sig S) : Nat → Prog sig α → S → S
  | 0, _, s => s
  | _ + 1, .ret _, s => s
  | fuel + 1, .call c next, s => cut handle fuel (next (handle c s).1) (handle c s).2

section Run

variable (handle : Handler sig S)

@[simp] theorem run_ret (value : α) (s : S) : (Prog.ret value).run handle s = (value, s) := rfl
@[simp] theorem run_call (c : sig.Call) (next : sig.Reply c → Prog sig α) (s : S) :
    (Prog.call c next).run handle s = (next (handle c s).1).run handle (handle c s).2 := rfl
@[simp] theorem run_perform (c : sig.Call) (s : S) : (perform c).run handle s = handle c s := rfl

@[simp] theorem run_bind (p : Prog sig α) (f : α → Prog sig β) (s : S) :
    (p >>= f).run handle s = (f (p.run handle s).1).run handle (p.run handle s).2 := by
  induction p generalizing s with
  | ret value => rfl
  | call c next ih => exact ih _ _

@[simp] theorem run_map (p : Prog sig α) (f : α → β) (s : S) :
    (f <$> p).run handle s = (f (p.run handle s).1, (p.run handle s).2) := by
  rw [map_eq_pure_bind]; simp

@[simp] theorem calls_ret (value : α) (s : S) : (Prog.ret value).calls handle s = [] := rfl
@[simp] theorem calls_call (c : sig.Call) (next : sig.Reply c → Prog sig α) (s : S) :
    (Prog.call c next).calls handle s =
      (c, s) :: (next (handle c s).1).calls handle (handle c s).2 := rfl

@[simp] theorem calls_bind (p : Prog sig α) (f : α → Prog sig β) (s : S) : (p >>= f).calls handle s =
      p.calls handle s ++ (f (p.run handle s).1).calls handle (p.run handle s).2 := by
  induction p generalizing s with
  | ret value => rfl
  | call c next ih => simp [ih]

@[simp] theorem cut_zero (p : Prog sig α) (s : S) : p.cut handle 0 s = s := by
  cases p <;> rfl

theorem cut_bind (p : Prog sig α) (f : α → Prog sig β) (fuel : Nat) (s : S) :
    (p >>= f).cut handle fuel s = p.cut handle fuel s ∨
      ∃ rest, (p >>= f).cut handle fuel s =
        (f (p.run handle s).1).cut handle rest (p.run handle s).2 := by
  induction p generalizing fuel s with
  | ret value => exact .inr ⟨fuel,rfl⟩
  | call c next ih =>
    cases fuel with
    | zero => exact .inl rfl
    | succ fuel => exact ih _ fuel _

/-- A run that is not cut ends where some cut does. -/
theorem run_eq_cut (p : Prog sig α) (s : S) : ∃ fuel, p.cut handle fuel s = (p.run handle s).2 := by
  induction p generalizing s with
  | ret value => exact ⟨0,rfl⟩
  | call c next ih =>
    obtain ⟨fuel,same⟩ := ih (handle c s).1 (handle c s).2
    exact ⟨fuel + 1,same⟩

theorem run_invariant (property : S → Prop) (preserved : ∀ c s, property s → property (handle c s).2)
    (p : Prog sig α) (s : S) (initial : property s) : property (p.run handle s).2 := by
  induction p generalizing s with
  | ret value => exact initial
  | call c next ih => exact ih _ _ (preserved c s initial)

/-- A property that every call of a run preserves holds wherever the run is cut. -/
theorem cut_calls (allowed : sig.Call → Prop) (property : S → Prop)
    (preserved : ∀ c s, allowed c → property s → property (handle c s).2) (p : Prog sig α) (fuel : Nat) (s : S)
    (made : ∀ entry ∈ p.calls handle s, allowed entry.1) (initial : property s) : property (p.cut handle fuel s) := by
  induction p generalizing fuel s with
  | ret value => cases fuel <;> exact initial
  | call c next ih =>
    cases fuel with
    | zero => exact initial
    | succ fuel =>
      simp only [calls_call,List.forall_mem_cons] at made
      exact ih _ fuel _ made.2 (preserved c s made.1 initial)

/-- A property that every call a run makes preserves holds wherever the run makes one, and at its end. -/
theorem calls_invariant (allowed : sig.Call → S → Prop) (property : S → Prop)
    (preserved : ∀ c s, allowed c s → property s → property (handle c s).2) (p : Prog sig α) (s : S)
    (made : ∀ entry ∈ p.calls handle s, allowed entry.1 entry.2) (initial : property s) :
    property (p.run handle s).2 ∧ ∀ entry ∈ p.calls handle s, property entry.2 := by
  induction p generalizing s with
  | ret value => exact ⟨initial,by simp⟩
  | call c next ih =>
    simp only [calls_call,List.forall_mem_cons] at made ⊢
    obtain ⟨ends,later⟩ := ih _ _ made.2 (preserved c s made.1 initial)
    exact ⟨ends,initial,later⟩

end Run

/-- Whatever the replies, the program makes only allowed calls. -/
def Uses (allowed : sig.Call → Prop) : Prog sig α → Prop
  | .ret _ => True
  | .call c next => allowed c ∧ ∀ reply, (next reply).Uses allowed

variable {p : Prog sig α} {f : α → ExceptT ε (Prog sig) β}

section Uses

variable {allowed : sig.Call → Prop}

@[simp] theorem uses_ret (value : α) : (Prog.ret value : Prog sig α).Uses allowed := trivial

@[simp] theorem uses_perform (c : sig.Call) : (perform c).Uses allowed ↔ allowed c := by
  simp [perform,Uses]

theorem Uses.bind {f : α → Prog sig β} (first : p.Uses allowed)
    (rest : ∀ value, (f value).Uses allowed) : (p >>= f).Uses allowed := by
  induction p with
  | ret value => exact rest value
  | call c next ih => exact ⟨first.1,fun reply => ih reply (first.2 reply)⟩

theorem Uses.mono {allowed' : sig.Call → Prop} (uses : p.Uses allowed)
    (wider : ∀ c, allowed c → allowed' c) : p.Uses allowed' := by
  induction p with
  | ret value => trivial
  | call c next ih => exact ⟨wider c uses.1,fun reply => ih reply (uses.2 reply)⟩

theorem Uses.exceptT_bind {p : ExceptT ε (Prog sig) α}
    (first : Uses allowed p.run) (rest : ∀ value, Uses allowed (f value).run) : Uses allowed (p >>= f).run :=
  first.bind fun result => by
    cases result with
    | ok value => exact rest value
    | error e => trivial

/-- What every allowed call preserves, a cut run preserves. -/
theorem Uses.cut (uses : p.Uses allowed) (handle : Handler sig S) (property : S → Prop)
    (preserved : ∀ c s, allowed c → property s → property (handle c s).2) (fuel : Nat) (s : S)
    (initial : property s) : property (p.cut handle fuel s) := by
  induction p generalizing fuel s with
  | ret value => cases fuel <;> exact initial
  | call c next ih =>
    cases fuel with
    | zero => exact initial
    | succ fuel => exact ih _ (uses.2 _) fuel _ (preserved c s uses.1 initial)

theorem Uses.run (uses : p.Uses allowed) (handle : Handler sig S) (property : S → Prop)
    (preserved : ∀ c s, allowed c → property s → property (handle c s).2) (s : S)
    (initial : property s) : property (p.run handle s).2 := by
  induction p generalizing s with
  | ret value => exact initial
  | call c next ih => exact ih _ (uses.2 _) _ (preserved c s uses.1 initial)

end Uses

/-- Every call that the program makes against one of the handlers is allowed. -/
def Within {ι : Type} (handles : ι → Handler sig S) (allowed : sig.Call → Prop) (p : Prog sig α) : Prop :=
  ∀ i s, ∀ entry ∈ p.calls (handles i) s, allowed entry.1

/-- At most `n` of the calls that the program makes are of the counted kind. -/
def AtMost {ι : Type} (handles : ι → Handler sig S) (counted : sig.Call → Bool) (n : Nat) (p : Prog sig α) : Prop :=
  ∀ i s, (p.calls (handles i) s).countP (fun entry => counted entry.1) ≤ n

section Within

variable {ι : Type} {handles : ι → Handler sig S} {allowed allowed' : sig.Call → Prop} {counted : sig.Call → Bool}

theorem Uses.within (uses : p.Uses allowed) : p.Within handles allowed := by
  intro i
  induction p with
  | ret value => simp
  | call c next ih =>
    intro s
    simp only [calls_call,List.forall_mem_cons]
    exact ⟨uses.1,ih _ (uses.2 _) _⟩

theorem Within.mono (within : p.Within handles allowed) (wider : ∀ c, allowed c → allowed' c) :
    p.Within handles allowed' := fun i s entry made => wider _ (within i s entry made)

/-- What comes next need only be right for what the first program can return. -/
theorem Within.then {f : α → Prog sig β} (first : p.Within handles allowed)
    (rest : ∀ i s, (f (p.run (handles i) s).1).Within handles allowed) : (p >>= f).Within handles allowed := by
  intro i s entry made
  rw [calls_bind] at made
  rcases List.mem_append.mp made with early | late
  · exact first i s entry early
  · exact rest i s i _ entry late

theorem Within.bind {f : α → Prog sig β} (first : p.Within handles allowed)
    (rest : ∀ value, (f value).Within handles allowed) : (p >>= f).Within handles allowed := first.then fun _ _ => rest _

theorem Within.exceptT_then {p : ExceptT ε (Prog sig) α} (first : Within handles allowed p.run)
    (rest : ∀ i s value, (p.run.run (handles i) s).1 = .ok value → Within handles allowed (f value).run) :
    Within handles allowed (p >>= f).run := by
  refine Within.then first fun i s => ?_
  have rest := rest i s
  change Within handles allowed (ExceptT.bindCont f (p.run.run (handles i) s).1)
  cases returned : (p.run.run (handles i) s).1 with
  | ok value => exact rest value returned
  | error e => exact fun i s entry made => nomatch made

theorem Within.exceptT_bind {p : ExceptT ε (Prog sig) α}
    (first : Within handles allowed p.run) (rest : ∀ value, Within handles allowed (f value).run) :
    Within handles allowed (p >>= f).run := first.exceptT_then fun _ _ value _ => rest value

/-- What every allowed call preserves holds wherever the program is cut. -/
theorem Within.cut (within : p.Within handles allowed) (i : ι) (property : S → Prop)
    (preserved : ∀ c s, allowed c → property s → property (handles i c s).2) (fuel : Nat) (s : S)
    (initial : property s) : property (p.cut (handles i) fuel s) :=
  cut_calls (handles i) allowed property preserved p fuel s (within i s) initial

theorem Within.atMost (within : p.Within handles fun c => counted c = false) : p.AtMost handles counted 0 := fun i s =>
  Nat.le_of_eq (List.countP_eq_zero.mpr fun entry made => by simp [within i s entry made])

variable {n : Nat}

theorem AtMost.then {f : α → Prog sig β} {m : Nat} (first : p.AtMost handles counted n)
    (rest : ∀ i s, (f (p.run (handles i) s).1).AtMost handles counted m) : (p >>= f).AtMost handles counted (n + m) := by
  intro i s
  rw [calls_bind,List.countP_append]
  exact Nat.add_le_add (first i s) (rest i s i _)

theorem AtMost.exceptT_then {p : ExceptT ε (Prog sig) α} {m : Nat} (first : AtMost handles counted n p.run)
    (rest : ∀ i s value, (p.run.run (handles i) s).1 = .ok value → AtMost handles counted m (f value).run) :
    AtMost handles counted (n + m) (p >>= f).run := by
  refine AtMost.then first fun i s => ?_
  have rest := rest i s
  change AtMost handles counted m (ExceptT.bindCont f (p.run.run (handles i) s).1)
  cases returned : (p.run.run (handles i) s).1 with
  | ok value => exact rest value returned
  | error e => exact fun i s => Nat.zero_le _

theorem Within.exceptT_atMost {p : ExceptT ε (Prog sig) α} (first : Within handles (fun c => counted c = false) p.run)
    (rest : ∀ i s value, (p.run.run (handles i) s).1 = .ok value → AtMost handles counted n (f value).run) :
    AtMost handles counted n (p >>= f).run := Nat.zero_add n ▸ first.atMost.exceptT_then rest

/-- What a single call can change is as at the start or as at the end, wherever the program is cut. -/
theorem AtMost.cut (once : p.AtMost handles counted 1) (i : ι) (view : S → β)
    (blind : ∀ c s, counted c = false → view (handles i c s).2 = view s) (fuel : Nat) (s : S) :
    view (p.cut (handles i) fuel s) = view s ∨ view (p.cut (handles i) fuel s) = view (p.run (handles i) s).2 := by
  have made := once i s
  clear once
  induction p generalizing fuel s with
  | ret value => cases fuel <;> exact .inl rfl
  | call c next ih =>
    cases fuel with
    | zero => exact .inl rfl
    | succ fuel =>
      rw [calls_call,List.countP_cons] at made
      cases kind : counted c with
      | false =>
        rw [← blind c s kind]
        exact ih _ fuel _ (by simpa [kind] using made)
      | true =>
        have none : ((next (handles i c s).1).calls (handles i) (handles i c s).2).countP
          (fun entry => counted entry.1) = 0 := by
          simp only [kind,if_true] at made
          omega
        have cuts : ∀ fuel, view ((next (handles i c s).1).cut (handles i) fuel (handles i c s).2) = view (handles i c s).2 :=
          fun fuel => cut_calls (handles i) (fun c => counted c = false) (fun t => view t = view (handles i c s).2)
            (fun c t other same => (blind c t other).trans same) _ fuel _ (by simpa using List.countP_eq_zero.mp none) rfl
        obtain ⟨whole,same⟩ := run_eq_cut (handles i) (next (handles i c s).1) (handles i c s).2
        refine .inr ((cuts fuel).trans ?_)
        rw [run_call,← same]
        exact (cuts whole).symm

end Within

/-- Every call a program makes is one it may make in the state it is made in, and
its result satisfies `post`, whatever reply the environment chooses among those
`step` allows. -/
def Guarantees (step : (c : sig.Call) → S → sig.Reply c → S → Prop) (may : sig.Call → S → Prop) :
    Prog sig α → S → (α → S → Prop) → Prop
  | .ret value, s, post => post value s
  | .call c next, s, post =>
    may c s ∧ ∀ reply s', step c s reply s' → (next reply).Guarantees step may s' post

/-- Replaces every call by a program of a lower level. -/
def interpret {low : Signature} (impl : (c : sig.Call) → Prog low (sig.Reply c)) : Prog sig α → Prog low α
  | .ret value => .ret value
  | .call c next => impl c >>= fun reply => (next reply).interpret impl

theorem Uses.interpret {low : Signature} {impl : (c : sig.Call) → Prog low (sig.Reply c)} {allowed : low.Call → Prop}
    (each : ∀ c, (impl c).Uses allowed) (p : Prog sig α) : (p.interpret impl).Uses allowed := by
  induction p with
  | ret value => trivial
  | call c next ih => exact (each c).bind ih

@[simp] theorem run_interpret {low : Signature} (impl : (c : sig.Call) → Prog low (sig.Reply c))
    (handle : Handler low S) (p : Prog sig α) (s : S) :
    (p.interpret impl).run handle s = p.run (fun c s => (impl c).run handle s) s := by
  induction p generalizing s with
  | ret value => rfl
  | call c next ih => simp only [interpret,run_bind,run_call,ih]

theorem cut_bind_calls (handle : Handler sig S) (p : Prog sig α) (f : α → Prog sig β) (fuel : Nat) (s : S) :
    (p >>= f).cut handle fuel s = if fuel < (p.calls handle s).length then p.cut handle fuel s
      else (f (p.run handle s).1).cut handle (fuel - (p.calls handle s).length) (p.run handle s).2 := by
  induction p generalizing fuel s with
  | ret value => rfl
  | call c next ih =>
    cases fuel with
    | zero => rfl
    | succ fuel =>
      have rest := ih (handle c s).1 fuel (handle c s).2
      simpa [Prog.cut] using rest

variable {s : S}

section During

variable {low : Signature} (impl : (c : sig.Call) → Prog low (sig.Reply c)) (handle : Handler low S)

/-- The call that is being carried out when its implementation is cut; none if the cut is between two calls. -/
def during : Prog sig α → Nat → S → Option sig.Call
  | .ret _, _, _ => none
  | .call c next, fuel, s =>
    if fuel = 0 then none
    else if fuel < ((impl c).calls handle s).length then some c
    else (next ((impl c).run handle s).1).during (fuel - ((impl c).calls handle s).length) ((impl c).run handle s).2

variable {impl} {handle}

section Traces

variable {good : low.Call × S → Prop} {allowed : sig.Call → S → Prop} {property : S → Prop}
  (preserved : ∀ c s, allowed c s → (∀ entry ∈ (impl c).calls handle s, good entry) → property s →
    property ((impl c).run handle s).2)

include preserved

/-- What each call preserves whose implementation only makes good calls. -/
theorem interpret_invariant (p : Prog sig α)
    (made : ∀ entry ∈ p.calls (fun c s => (impl c).run handle s) s, allowed entry.1 entry.2)
    (goods : ∀ entry ∈ (p.interpret impl).calls handle s, good entry) (initial : property s) :
    property (p.run (fun c s => (impl c).run handle s) s).2 := by
  induction p generalizing s with
  | ret value => exact initial
  | call c next ih =>
    rw [interpret,calls_bind,List.forall_mem_append] at goods
    rw [calls_call,List.forall_mem_cons] at made
    exact ih _ made.2 goods.2 (preserved c s made.1 goods.1 initial)

/-- A cut is between two calls, or it is a cut of the implementation of one. -/
theorem cut_invariant (p : Prog sig α) {fuel : Nat}
    (made : ∀ entry ∈ p.calls (fun c s => (impl c).run handle s) s, allowed entry.1 entry.2)
    (goods : ∀ entry ∈ ((p.interpret impl).calls handle s).take fuel, good entry) (initial : property s) :
    (p.during impl handle fuel s = none ∧ property ((p.interpret impl).cut handle fuel s)) ∨
      ∃ c s' rest, p.during impl handle fuel s = some c ∧ (c,s') ∈ p.calls (fun c s => (impl c).run handle s) s ∧
        property s' ∧ (p.interpret impl).cut handle fuel s = (impl c).cut handle rest s' := by
  induction p generalizing fuel s with
  | ret value => exact .inl ⟨rfl,by cases fuel <;> exact initial⟩
  | call c next ih =>
    by_cases zero : fuel = 0
    · subst zero
      exact .inl ⟨rfl,by rwa [cut_zero]⟩
    rw [during,if_neg zero,interpret,cut_bind_calls]
    split
    · exact .inr ⟨c,s,fuel,rfl,List.mem_cons_self ..,initial,rfl⟩
    · rename_i long
      rw [interpret,calls_bind,List.take_append,List.take_of_length_le (by omega),List.forall_mem_append] at goods
      rw [calls_call,List.forall_mem_cons] at made
      rcases ih _ made.2 goods.2 (preserved c s made.1 goods.1 initial) with between | ⟨c',s',rest,inside,made',holds,same⟩
      · exact .inl between
      · exact .inr ⟨c',s',rest,inside,List.mem_cons_of_mem _ made',holds,same⟩

end Traces

end During

section Guarantees

variable {step : (c : sig.Call) → S → sig.Reply c → S → Prop} {may : sig.Call → S → Prop}

@[simp] theorem guarantees_ret (value : α) (s : S) (post : α → S → Prop) :
    (Prog.ret value).Guarantees step may s post ↔ post value s := Iff.rfl

@[simp] theorem guarantees_call (c : sig.Call) (next : sig.Reply c → Prog sig α) (s : S) (post : α → S → Prop) :
    (Prog.call c next).Guarantees step may s post ↔
      may c s ∧ ∀ reply s', step c s reply s' → (next reply).Guarantees step may s' post := Iff.rfl

@[simp] theorem guarantees_perform (c : sig.Call) (s : S) (post : sig.Reply c → S → Prop) :
    (perform c).Guarantees step may s post ↔
      may c s ∧ ∀ reply s', step c s reply s' → post reply s' := Iff.rfl

@[simp] theorem guarantees_bind (p : Prog sig α) (f : α → Prog sig β) (s : S) (post : β → S → Prop) :
    (p >>= f).Guarantees step may s post ↔
      p.Guarantees step may s fun value s' => (f value).Guarantees step may s' post := by
  induction p generalizing s with
  | ret value => rfl
  | call c next ih => simp only [call_bind,guarantees_call,ih]

@[simp] theorem guarantees_map (p : Prog sig α) (f : α → β) (s : S) (post : β → S → Prop) :
    (f <$> p).Guarantees step may s post ↔
      p.Guarantees step may s fun value s' => post (f value) s' := by
  rw [map_eq_pure_bind]; simp

theorem Guarantees.mono {post post' : α → S → Prop}
    (holds : p.Guarantees step may s post) (weaker : ∀ value s', post value s' → post' value s') :
    p.Guarantees step may s post' := by
  induction p generalizing s with
  | ret value => exact weaker _ _ holds
  | call c next ih => exact ⟨holds.1,fun reply s' taken => ih reply (holds.2 reply s' taken)⟩

/-- A guarantee about the abstract state of a concrete environment holds of its runs. -/
theorem Guarantees.sound {post : α → S → Prop} (handle : Handler sig W) (abstract : W → S)
    (refines : ∀ c w, step c (abstract w) (handle c w).1 (abstract (handle c w).2)) {w : W}
    (holds : p.Guarantees step may (abstract w) post) : post (p.run handle w).1 (abstract (p.run handle w).2) ∧
      ∀ entry ∈ p.calls handle w, may entry.1 (abstract entry.2) := by
  induction p generalizing w with
  | ret value => exact ⟨holds,by simp⟩
  | call c next ih =>
    obtain ⟨result,made⟩ := ih _ (holds.2 _ _ (refines c w))
    refine ⟨result,?_⟩
    simp only [calls_call,List.forall_mem_cons]
    exact ⟨holds.1,made⟩

end Guarantees

@[simp] theorem run_exceptT_bind (handle : Handler sig S) (p : ExceptT ε (Prog sig) α)
    (f : α → ExceptT ε (Prog sig) β) (s : S) : Prog.run handle (p >>= f).run s =
      match p.run.run handle s with
      | (.ok value, s') => (f value).run.run handle s'
      | (.error e, s') => (.error e, s') := by
  simp only [ExceptT.run_bind,run_bind]
  rcases p.run.run handle s with ⟨_ | value,s'⟩ <;> rfl

theorem calls_exceptT_bind (handle : Handler sig S) (p : ExceptT ε (Prog sig) α) (f : α → ExceptT ε (Prog sig) β) (s : S) :
    (p >>= f).run.calls handle s = p.run.calls handle s ++ (match (p.run.run handle s).1 with
      | .ok value => (f value).run.calls handle (p.run.run handle s).2
      | .error _ => []) := by
  change (p.run >>= ExceptT.bindCont f).calls handle s = _
  rw [calls_bind]
  cases (p.run.run handle s).1 <;> rfl

@[simp] theorem guarantees_exceptT_bind {step : (c : sig.Call) → S → sig.Reply c → S → Prop} {may : sig.Call → S → Prop}
    (p : ExceptT ε (Prog sig) α) (f : α → ExceptT ε (Prog sig) β) (s : S) (post : Except ε β → S → Prop) :
    Guarantees step may (p >>= f).run s post ↔
      p.run.Guarantees step may s fun result s' =>
        match result with
        | .ok value => (f value).run.Guarantees step may s' post
        | .error e => post (.error e) s' := by
  simp only [ExceptT.run_bind,guarantees_bind]
  constructor <;> refine fun holds => holds.mono ?_ <;> rintro (_ | value) s' h <;> exact h

/-- Run from `s`, the program ends with a result and a state that satisfy `post`. -/
def Leads (handle : Handler sig S) (p : ExceptT ε (Prog sig) α) (s : S) (post : Except ε α → S → Prop) : Prop :=
  post (p.run.run handle s).1 (p.run.run handle s).2

section Leads

variable {handle : Handler sig S} {s : S} {post : Except ε β → S → Prop}

theorem leads_pure {value : β} : Leads handle (pure value) s post ↔ post (.ok value) s := Iff.rfl

theorem leads_throw {e : ε} : Leads handle (throw e) s post ↔ post (.error e) s := Iff.rfl

theorem leads_mk {p : Prog sig (Except ε β)} :
    Leads handle (ExceptT.mk p) s post ↔ post (p.run handle s).1 (p.run handle s).2 := Iff.rfl

theorem leads_bind {p : ExceptT ε (Prog sig) α} :
    Leads handle (p >>= f) s post ↔ Leads handle p s fun result s' => match result with
      | .ok value => Leads handle (f value) s' post
      | .error e => post (.error e) s' := by
  unfold Leads
  rw [run_exceptT_bind]
  rcases p.run.run handle s with ⟨_ | _,_⟩ <;> rfl

theorem leads_lift_bind :
    Leads handle (ExceptT.lift p >>= f) s post ↔ Leads handle (f (p.run handle s).1) (p.run handle s).2 post := by
  rw [leads_bind,Leads,ExceptT.run_lift,run_map]

theorem Leads.mono {p : ExceptT ε (Prog sig) β} {post' : Except ε β → S → Prop} (holds : Leads handle p s post)
    (weaker : ∀ r s', post r s' → post' r s') : Leads handle p s post' := weaker _ _ holds

end Leads

end Prog
end Resumption
