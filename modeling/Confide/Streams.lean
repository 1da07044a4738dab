import Mathlib.Data.List.Basic

/-! Messages in a stream of symbols, read by a parser that is handed the stream piece by piece. A message is a header and a
body. Where a body ends does not depend on the pieces it was read in. -/
namespace Streams

structure Framing (Symbol Head : Type) where
  Body : Type
  header : List Symbol → Option (Head × Body × List Symbol)
  read : Body → (room arrived : Nat) → List Symbol → List Symbol × Body × List Symbol
  done : Body → Bool
  /-- All that is left of a body, and the stream behind it, if the stream goes on that far. -/
  whole : Body → List Symbol → Option (List Symbol × List Symbol)
  done_whole : ∀ {body stream}, done body = true → whole body stream = some ([],stream)
  read_whole : ∀ {body room arrived stream}, done body = false → whole body stream =
    (whole (read body room arrived stream).2.1 (read body room arrived stream).2.2).map fun left =>
      ((read body room arrived stream).1 ++ left.1,left.2)
  read_fits : ∀ {body room arrived stream}, (read body room arrived stream).1.length ≤ room
  read_moves : ∀ {body room arrived stream}, done body = false → (whole body stream).isSome → 0 < room →
    stream.length ≤ arrived →
    (read body room arrived stream).1 ≠ [] ∨ done (read body room arrived stream).2.1 = true

namespace Framing

variable {Symbol Head : Type} (f : Framing Symbol Head)

/-- The messages stand one behind the other at the front of the stream, each with the body it was read with; the last may
have been read in part. -/
inductive Framed : List Symbol → List (Head × List Symbol) → Prop where
  | none {stream} : Framed stream []
  | last {stream head body behind got} (starts : f.header stream = some (head,body,behind))
      (part : ∀ payload later, f.whole body behind = some (payload,later) → got <+: payload) : Framed stream [(head,got)]
  | more {stream head body behind got later next rest} (starts : f.header stream = some (head,body,behind))
      (all : f.whole body behind = some (got,later)) (others : Framed later (next :: rest)) :
      Framed stream ((head,got) :: next :: rest)

/-- Of the last message `left` is to be read, from what is left of the stream. -/
inductive Upto (left : f.Body) (unread : List Symbol) : List Symbol → List (Head × List Symbol) → Prop where
  | last {stream head body behind got} (starts : f.header stream = some (head,body,behind))
      (part : f.whole body behind = (f.whole left unread).map fun rest => (got ++ rest.1,rest.2)) :
      Upto left unread stream [(head,got)]
  | more {stream head body behind got later next rest} (starts : f.header stream = some (head,body,behind))
      (all : f.whole body behind = some (got,later)) (others : Upto left unread later (next :: rest)) :
      Upto left unread stream ((head,got) :: next :: rest)

variable {f} {stream unread later : List Symbol} {messages : List (Head × List Symbol)} {head : Head}
  {got : List Symbol} {body left : f.Body}

theorem map_parts (first second : List Symbol) (left : Option (List Symbol × List Symbol)) :
    (left.map fun rest => (second ++ rest.1,rest.2)).map (fun rest => (first ++ rest.1,rest.2)) =
      left.map fun rest => ((first ++ second) ++ rest.1,rest.2) := by
  rw [Option.map_map]
  simp [Function.comp_def]

theorem Upto.framed (upto : f.Upto left unread stream messages) : f.Framed stream messages := by
  induction upto with
  | last starts part =>
    refine .last starts fun payload later whole => ?_
    rw [part,Option.map_eq_some_iff] at whole
    obtain ⟨rest,_,same⟩ := whole
    cases same
    exact List.prefix_append ..
  | more starts all _ ih => exact .more starts all ih

theorem upto_header (starts : f.header stream = some (head,body,later)) : f.Upto body later stream [(head,[])] :=
  .last starts (by simp)

theorem Upto.append (upto : f.Upto left unread stream messages) : ∃ earlier head got, messages = earlier ++ [(head,got)] := by
  induction upto with
  | last => exact ⟨[],_,_,rfl⟩
  | more _ _ _ ih =>
    obtain ⟨earlier,head,got,same⟩ := ih
    exact ⟨_ :: earlier,head,got,congrArg _ same⟩

theorem Upto.read {room arrived : Nat} (upto : f.Upto left unread stream (messages ++ [(head,got)]))
    (unfinished : f.done left = false) :
    f.Upto (f.read left room arrived unread).2.1 (f.read left room arrived unread).2.2 stream
      (messages ++ [(head,got ++ (f.read left room arrived unread).1)]) := by
  induction messages generalizing stream with
  | nil =>
    cases upto with
    | last starts part =>
      refine .last starts ?_
      rw [part,@read_whole _ _ f left room arrived unread unfinished,map_parts]
  | cons message rest ih =>
    cases rest with
    | nil =>
      cases upto with
      | more starts all others => exact .more starts all (ih others)
    | cons next rest =>
      cases upto with
      | more starts all others => exact .more starts all (ih others)

theorem Upto.next (upto : f.Upto left unread stream messages) (finished : f.done left = true)
    (starts : f.header unread = some (head,body,later)) : f.Upto body later stream (messages ++ [(head,[])]) := by
  induction upto with
  | last first part =>
    rw [f.done_whole finished] at part
    exact .more first (by simpa using part) (upto_header starts)
  | more first all _ ih => exact .more first all ih

section Counted

variable (stream : List Symbol) (left room arrived : Nat)

def countedRead : List Symbol × Nat × List Symbol :=
  let part := stream.take (min (min left room) arrived)
  (part,left - part.length,stream.drop (min (min left room) arrived))

def countedWhole : Option (List Symbol × List Symbol) :=
  if left ≤ stream.length then some (stream.take left,stream.drop left) else none

theorem countedRead_whole : countedWhole stream left =
    (countedWhole (countedRead stream left room arrived).2.2 (countedRead stream left room arrived).2.1).map fun rest =>
      ((countedRead stream left room arrived).1 ++ rest.1,rest.2) := by
  have bound : min (min left room) arrived ≤ left := by omega
  simp only [countedRead,countedWhole,List.length_take,List.length_drop]
  generalize min (min left room) arrived = taken at bound
  by_cases there : left ≤ stream.length
  · have part : min taken stream.length = taken := by omega
    rw [if_pos there,part,if_pos (by omega),Option.map_some,List.drop_drop,← List.take_add,Nat.add_sub_cancel' bound]
  · rw [if_neg there,if_neg (by omega),Option.map_none]

theorem countedRead_moves (unfinished : 0 < left) (there : (countedWhole stream left).isSome) (some_ : 0 < room)
    (all : stream.length ≤ arrived) : (countedRead stream left room arrived).1 ≠ [] := by
  have long : left ≤ stream.length := by
    by_contra short
    rw [countedWhole,if_neg short] at there
    cases there
  intro empty
  have length := congrArg List.length empty
  simp only [countedRead,List.length_take,List.length_nil] at length
  omega

def counted (header : List Symbol → Option (Head × Nat × List Symbol)) : Framing Symbol Head where
  Body := Nat
  header := header
  read := fun left room arrived stream => countedRead stream left room arrived
  done := fun left => left == 0
  whole := fun left stream => countedWhole stream left
  done_whole := fun {left stream} finished => by
    rw [beq_iff_eq.mp finished]
    simp [countedWhole]
  read_whole := fun {left room arrived stream} _ => countedRead_whole stream left room arrived
  read_fits := fun {left room arrived stream} => by
    simp only [countedRead,List.length_take]
    omega
  read_moves := fun {left room arrived stream} unfinished there some_ all =>
    .inl (countedRead_moves stream left room arrived (Nat.pos_of_ne_zero (beq_eq_false_iff_ne.mp unfinished)) there some_ all)

end Counted

end Framing
end Streams
