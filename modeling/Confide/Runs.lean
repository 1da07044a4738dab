import Mathlib.Data.List.Basic

/-! Runs of a system that answers inputs: the inputs drive a step function, and a condition on
the steps of a run is a condition on every state together with the input it is given. -/
namespace Runs

variable {State Input : Type*} (step : State → Input → State)

def run (s : State) (inputs : List Input) : State := inputs.foldl step s

/-- Every step of a run meets a condition on the state it is taken in. -/
def Along (ok : State → Input → Prop) : State → List Input → Prop
  | _, [] => True
  | s, input :: rest => ok s input ∧ Along ok (step s input) rest

instance Along.decidable (ok : State → Input → Prop) [∀ s input, Decidable (ok s input)] :
    ∀ s inputs, Decidable (Along step ok s inputs)
  | _, [] => inferInstanceAs (Decidable True)
  | s, input :: rest =>
    haveI := Along.decidable ok (step s input) rest
    inferInstanceAs (Decidable (_ ∧ _))

variable {step} {ok : State → Input → Prop} {s : State} {inputs : List Input}

@[simp] theorem run_nil : run step s [] = s := rfl

@[simp] theorem run_cons {input : Input} : run step s (input :: inputs) = run step (step s input) inputs := rfl

theorem run_append {first second : List Input} : run step s (first ++ second) = run step (run step s first) second :=
  List.foldl_append

theorem Along.append {first second : List Input} :
    Along step ok s (first ++ second) ↔ Along step ok s first ∧ Along step ok (run step s first) second := by
  induction first generalizing s with
  | nil => simp [Along]
  | cons input first ih => simp [Along,ih,and_assoc]

theorem Along.and {other : Input → Prop} (inputs_ok : ∀ input ∈ inputs, other input) (along : Along step ok s inputs) :
    Along step (fun s input => other input ∧ ok s input) s inputs := by
  induction inputs generalizing s with
  | nil => trivial
  | cons input rest ih =>
    exact ⟨⟨inputs_ok input (List.mem_cons_self ..),along.1⟩,
      ih (fun later member => inputs_ok later (List.mem_cons_of_mem _ member)) along.2⟩

theorem Along.both {ok' : State → Input → Prop} (along : Along step ok s inputs) (along' : Along step ok' s inputs) :
    Along step (fun s input => ok s input ∧ ok' s input) s inputs := by
  induction inputs generalizing s with
  | nil => trivial
  | cons input rest ih => exact ⟨⟨along.1,along'.1⟩,ih along.2 along'.2⟩

/-- What holds at the start and is kept by every step that meets the condition holds at the end. -/
theorem Along.invariant (property : State → Prop)
    (preserved : ∀ s input, property s → ok s input → property (step s input))
    (along : Along step ok s inputs) (initial : property s) : property (run step s inputs) := by
  induction inputs generalizing s with
  | nil => exact initial
  | cons input rest ih => exact ih along.2 (preserved s input initial along.1)

/-- It holds before every step as well, and the step meets the condition there. -/
theorem Along.before {first second : List Input} {input : Input} (property : State → Prop)
    (preserved : ∀ s input, property s → ok s input → property (step s input))
    (along : Along step ok s inputs) (initial : property s) (split : inputs = first ++ input :: second) :
    property (run step s first) ∧ ok (run step s first) input := by
  rw [split,Along.append] at along
  exact ⟨along.1.invariant property preserved initial,along.2.1⟩

end Runs
