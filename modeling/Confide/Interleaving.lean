import Confide.Program
import Mathlib.Data.List.Basic

/-! Programs that share a state: at each step one of them makes its next call, and the state may
make it wait. What a thread has seen so far is kept with the rest of its program. -/
namespace Resumption

variable {sig : Signature} {S E M α : Type}

/-- What the shared state does with a call made in some context; none while the caller has to wait. -/
abbrev Arbiter (sig : Signature) (S E : Type) := E → (c : sig.Call) → S → Option (sig.Reply c × S)

structure Thread (sig : Signature) (E M α : Type) where
  context : E
  memo : M
  rest : Prog sig α

structure Pool (sig : Signature) (S E M α : Type) where
  shared : S
  threads : List (Thread sig E M α)

def Thread.upcoming (t : Thread sig E M α) : Option sig.Call :=
  match t.rest with
  | .ret _ => none
  | .call c _ => some c

namespace Pool

def start (p : Pool sig S E M α) (t : Thread sig E M α) : Pool sig S E M α := { p with threads := p.threads ++ [t] }

def advance (arbiter : Arbiter sig S E) (remember : (c : sig.Call) → sig.Reply c → M → M) (p : Pool sig S E M α) (i : Nat) :
    Pool sig S E M α :=
  match p.threads[i]? with
  | none => p
  | some t => match t.rest with
    | .ret _ => p
    | .call c next => match arbiter t.context c p.shared with
      | none => p
      | some (reply,shared) => ⟨shared,p.threads.set i ⟨t.context,remember c reply t.memo,next reply⟩⟩

structure Makes (arbiter : Arbiter sig S E) (p : Pool sig S E M α) (i : Nat) (t : Thread sig E M α) (c : sig.Call)
    (next : sig.Reply c → Prog sig α) (reply : sig.Reply c) (shared : S) : Prop where
  here : p.threads[i]? = some t
  text : t.rest = .call c next
  answers : arbiter t.context c p.shared = some (reply,shared)

variable {arbiter : Arbiter sig S E} {remember : (c : sig.Call) → sig.Reply c → M → M} {p : Pool sig S E M α} {i : Nat}

theorem Makes.upcoming {t : Thread sig E M α} {c : sig.Call} {next : sig.Reply c → Prog sig α} {reply : sig.Reply c}
    {shared : S} (makes : p.Makes arbiter i t c next reply shared) : t.upcoming = some c := by
  rw [Thread.upcoming,makes.text]

theorem advance_cases : p.advance arbiter remember i = p ∨
    ∃ t c next reply shared, p.Makes arbiter i t c next reply shared ∧
      p.advance arbiter remember i = ⟨shared,p.threads.set i ⟨t.context,remember c reply t.memo,next reply⟩⟩ := by
  unfold advance
  cases here : p.threads[i]? with
  | none => exact .inl rfl
  | some t =>
    dsimp only
    cases text : t.rest with
    | ret value => exact .inl rfl
    | call c next =>
      dsimp only
      cases answers : arbiter t.context c p.shared with
      | none => exact .inl rfl
      | some outcome => exact .inr ⟨t,c,next,outcome.1,outcome.2,⟨here,text,answers⟩,rfl⟩

/-- Each thread's text keeps to the rules of its context from here on, and what the threads remember fits the
shared state. -/
structure Sound (step : E → (c : sig.Call) → M → sig.Reply c → M → Prop) (may : E → sig.Call → M → Prop)
    (post : E → α → M → Prop) (inv : S → List (E × M) → Prop) (p : Pool sig S E M α) : Prop where
  texts : ∀ t ∈ p.threads, t.rest.Guarantees (step t.context) (may t.context) t.memo (post t.context)
  fits : inv p.shared (p.threads.map fun t => (t.context,t.memo))

variable {step : E → (c : sig.Call) → M → sig.Reply c → M → Prop} {may : E → sig.Call → M → Prop}
  {post : E → α → M → Prop} {inv : S → List (E × M) → Prop} {t : Thread sig E M α}

theorem Sound.allows (sound : p.Sound step may post inv) (member : t ∈ p.threads) {c : sig.Call}
    (upcoming : t.upcoming = some c) : may t.context c t.memo := by
  have holds := sound.texts t member
  unfold Thread.upcoming at upcoming
  cases text : t.rest with
  | ret value => simp [text] at upcoming
  | call c' next =>
    obtain rfl : c' = c := by simpa [text] using upcoming
    rw [text] at holds
    exact holds.1

theorem Sound.start (sound : p.Sound step may post inv)
    (text : t.rest.Guarantees (step t.context) (may t.context) t.memo (post t.context))
    (fits : inv p.shared (p.threads.map (fun t => (t.context,t.memo)) ++ [(t.context,t.memo)])) :
    (p.start t).Sound step may post inv where
  texts := by
    intro t' member
    rcases List.mem_append.mp member with old | new
    · exact sound.texts t' old
    · rw [List.mem_singleton.mp new]
      exact text
  fits := by simpa [Pool.start] using fits

/-- It is enough that the calls the threads may make keep what holds of the shared state and the memories. -/
theorem Sound.advance (sound : p.Sound step may post inv)
    (kept : ∀ t c next reply shared, p.Makes arbiter i t c next reply shared → may t.context c t.memo →
      step t.context c t.memo reply (remember c reply t.memo) ∧
        inv shared ((p.threads.map fun t => (t.context,t.memo)).set i (t.context,remember c reply t.memo))) :
    (p.advance arbiter remember i).Sound step may post inv := by
  rcases @advance_cases sig S E M α arbiter remember p i with same | ⟨t,c,next,reply,shared,makes,taken⟩
  · rwa [same]
  · rw [taken]
    have member := List.mem_of_getElem? makes.here
    obtain ⟨stepped,fits⟩ := kept t c next reply shared makes (sound.allows member makes.upcoming)
    refine ⟨?_,by simpa [List.map_set] using fits⟩
    intro t' member'
    rcases List.mem_or_eq_of_mem_set member' with old | rfl
    · exact sound.texts t' old
    · have holds := sound.texts t member
      rw [makes.text] at holds
      exact holds.2 reply _ stepped

end Pool
end Resumption
