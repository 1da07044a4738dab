import Confide.Requests

/-! Protocols: which calls may be made after which calls and replies. A program that keeps to a protocol whatever it is
answered keeps to it against every environment, and what the calls of the protocol preserve holds of its runs. -/
namespace Resumption

variable {sig : Signature} {S W α : Type}

structure Protocol (sig : Signature) (S : Type) where
  may : sig.Call → S → Prop
  after : (c : sig.Call) → sig.Reply c → S → S

namespace Protocol

variable (protocol : Protocol sig S)

def stage (s : S) (log : List (Event sig)) : S := log.foldl (fun s event => protocol.after event.1 event.2 s) s

def Spoken : S → List (Event sig) → Prop
  | _, [] => True
  | s, event :: log => protocol.may event.1 s ∧ Spoken (protocol.after event.1 event.2 s) log

/-- Whatever it is answered, the program makes only calls it may make, and ends as `post` says. -/
def Keeps (p : Prog sig α) (s : S) (post : α → S → Prop) : Prop :=
  p.Guarantees (fun c s reply s' => s' = protocol.after c reply s) protocol.may s post

variable {protocol} {s : S} {log : List (Event sig)} {event : Event sig} {p : Prog sig α} {post : α → S → Prop}

@[simp] theorem stage_nil : protocol.stage s [] = s := rfl

@[simp] theorem stage_append {later : List (Event sig)} :
    protocol.stage s (log ++ later) = protocol.stage (protocol.stage s log) later := List.foldl_append

theorem spoken_append {later : List (Event sig)} :
    protocol.Spoken s (log ++ later) ↔ protocol.Spoken s log ∧ protocol.Spoken (protocol.stage s log) later := by
  induction log generalizing s with
  | nil => simp [Spoken]
  | cons event log ih =>
    rw [List.cons_append]
    simp [Spoken,ih,stage,and_assoc]

end Protocol

def Prog.logged (handle : Prog.Handler sig W) : Prog.Handler sig (W × List (Event sig)) :=
  fun c world => ((handle c world.1).1,(handle c world.1).2,world.2 ++ [⟨c,(handle c world.1).1⟩])

namespace Protocol

variable {protocol : Protocol sig S} {s : S} {log : List (Event sig)} {event : Event sig} {p : Prog sig α}
  {post : α → S → Prop}

/-- What is preserved by the calls that may be made holds at the end of a run, and the run ends as `post` says. -/
theorem Keeps.invariant (keeps : protocol.Keeps p s post) (handle : Prog.Handler sig W)
    (property : W → List (Event sig) → Prop)
    (preserved : ∀ c w log, protocol.may c (protocol.stage s log) → property w log →
      property (handle c w).2 (log ++ [⟨c,(handle c w).1⟩])) (w : W) (initial : property w []) :
    property (p.run (Prog.logged handle) (w,[])).2.1 (p.run (Prog.logged handle) (w,[])).2.2 ∧
      post (p.run (Prog.logged handle) (w,[])).1 (protocol.stage s (p.run (Prog.logged handle) (w,[])).2.2) := by
  have sound := Prog.Guarantees.sound (Prog.logged handle) (fun world => protocol.stage s world.2)
    (fun c world => by simp [Prog.logged,stage]) (w := (w,[])) (p := p) keeps
  refine ⟨?_,sound.1⟩
  exact (Prog.calls_invariant (Prog.logged handle) (fun c world => protocol.may c (protocol.stage s world.2))
    (fun world => property world.1 world.2) (fun c world allowed holds => preserved c world.1 world.2 allowed holds) p
    (w,[]) sound.2 initial).1

theorem Keeps.spoken (keeps : protocol.Keeps p s post) (handle : Prog.Handler sig W) (w : W) :
    protocol.Spoken s (p.run (Prog.logged handle) (w,[])).2.2 ∧
      post (p.run (Prog.logged handle) (w,[])).1 (protocol.stage s (p.run (Prog.logged handle) (w,[])).2.2) :=
  keeps.invariant handle (fun _ log => protocol.Spoken s log)
    (fun _ _ _ allowed holds => spoken_append.mpr ⟨holds,allowed,trivial⟩) w trivial

end Protocol
end Resumption
