import Confide.Bytes

/-! Paths of a POSIX file system as texts. Appending and lexical normalisation follow the generic path
grammar: no link is followed and nothing is looked up. -/
namespace LexicalPath

open Bytes

def dot : Bytes := ascii "."
def dotDot : Bytes := ascii ".."

def isRooted (text : Bytes) : Bool := text.head? = some 47

def names (text : Bytes) : List Bytes := (text.splitOn 47).filter fun name => name ≠ []

/-- Appends a path after a separator, where one is missing. A path from the root replaces. -/
def append (root text : Bytes) : Bytes :=
  if isRooted text then text
  else if root = [] ∨ root.getLast? = some 47 then root ++ text
  else root ++ 47 :: text

/-- One name of the path, on top of the names that are left of those before it. -/
def climb (rooted : Bool) (stack : List Bytes) (name : Bytes) : List Bytes :=
  if name = dot then stack
  else if name = dotDot then match stack with
    | [] => if rooted then [] else [dotDot]
    | top :: below => if top = dotDot then dotDot :: top :: below else below
  else name :: stack

def resolve (rooted : Bool) (names : List Bytes) : List Bytes := (names.foldl (climb rooted) []).reverse

/-- The text ends in a separator, or would once its last name is taken away. -/
def isOpen (text : Bytes) : Bool :=
  match (text.splitOn 47).getLast? with
  | none => false
  | some last => last = [] || last = dot || last = dotDot

/-- The empty path and one of separators alone stay as they are; one with nothing left is a dot. No separator follows a
last dot-dot. -/
def lexicallyNormal (text : Bytes) : Bytes :=
  if text.all (· = 47) then text
  else
    let left := resolve (isRooted text) (names text)
    let closing := if isOpen text && left ≠ [] && left.getLast? ≠ some dotDot then [47] else []
    if isRooted text then 47 :: ([47].intercalate left ++ closing)
    else if left = [] then dot
    else [47].intercalate left ++ closing

/-- The names of a normal path; a dot stands for none. -/
def steps (text : Bytes) : List Bytes := (names text).filter fun name => name ≠ dot

/-- A normal path leads from another one downwards. -/
def Below (inner outer : Bytes) : Prop :=
  isRooted inner = isRooted outer ∧ ∃ rest, rest ≠ [] ∧ dotDot ∉ rest ∧ steps inner = steps outer ++ rest

structure Proper (name : Bytes) : Prop where
  inhabited : name ≠ []
  whole : 47 ∉ name

structure Plain (name : Bytes) : Prop extends Proper name where
  notDot : name ≠ dot
  notDotDot : name ≠ dotDot

section Names

variable {rooted : Bool} {root text : Bytes} {left more : List Bytes}

theorem proper_names {name : Bytes} (member : name ∈ names text) : Proper name := by
  obtain ⟨part,inhabited⟩ := List.mem_filter.mp member
  refine ⟨by simpa using inhabited,?_⟩
  clear inhabited member
  induction text generalizing name with
  | nil =>
    obtain rfl : name = [] := by simpa using part
    simp
  | cons c text ih =>
    rw [List.splitOn,List.splitOnP_cons_eq_if_modifyHead] at part
    split at part
    · rcases List.mem_cons.mp part with rfl | later
      · simp
      · exact ih later
    · rename_i other
      change name ∈ (text.splitOn 47).modifyHead (List.cons c) at part
      generalize text.splitOn 47 = parts at ih part
      cases parts with
      | nil => simp at part
      | cons first rest =>
        rcases List.mem_cons.mp part with rfl | later
        · intro inside
          rcases List.mem_cons.mp inside with same | inside
          · exact other (by simp [← same])
          · exact ih List.mem_cons_self inside
        · exact ih (List.mem_cons_of_mem _ later)

theorem splitOn_separated (front back : Bytes) : (front ++ 47 :: back).splitOn 47 = front.splitOn 47 ++ back.splitOn 47 :=
  List.splitOnP_append_cons front back (by simp)

theorem names_separated (front back : Bytes) : names (front ++ 47 :: back) = names front ++ names back := by
  rw [names,splitOn_separated,List.filter_append]
  rfl

theorem names_append (relative : isRooted text = false) : names (append root text) = names root ++ names text := by
  unfold append
  rw [relative,if_neg (by simp)]
  split
  · rename_i ends
    rcases ends with rfl | ends
    · rfl
    · obtain ⟨front,rfl⟩ := List.getLast?_eq_some_iff.mp ends
      have closed : names (front ++ [47]) = names front := by
        rw [names_separated]
        simp [names]
      rw [closed,List.append_assoc,List.singleton_append,names_separated]
  · exact names_separated root text

theorem isRooted_append (relative : isRooted text = false) : isRooted (append root text) = isRooted root := by
  unfold append
  rw [relative,if_neg (by simp)]
  cases root with
  | nil => exact relative
  | cons c root => split <;> rfl

theorem climb_plain {stack : List Bytes} {name : Bytes} (plain : Plain name) : climb rooted stack name = name :: stack := by
  unfold climb
  rw [if_neg plain.notDot,if_neg plain.notDotDot]

theorem resolve_append (base : List Bytes) (plain : ∀ name ∈ more, Plain name) :
    resolve rooted (base ++ more) = resolve rooted base ++ more := by
  have climbs : ∀ stack, more.foldl (climb rooted) stack = more.reverse ++ stack := by
    induction more with
    | nil => simp
    | cons name more ih =>
      intro stack
      rw [List.foldl_cons,climb_plain (plain name List.mem_cons_self),ih fun name member =>
        plain name (List.mem_cons_of_mem _ member)]
      simp
  rw [resolve,List.foldl_append,climbs,List.reverse_append,List.reverse_reverse]
  rfl

theorem proper_dotDot : Proper dotDot := ⟨by decide,by decide⟩

theorem climb_proper {stack : List Bytes} {next : Bytes} (below : ∀ name ∈ stack, Proper name ∧ name ≠ dot)
    (proper : Proper next) :
    ∀ name ∈ climb rooted stack next, Proper name ∧ name ≠ dot := by
  have up : Proper dotDot ∧ dotDot ≠ dot := ⟨proper_dotDot,by decide⟩
  by_cases isDot : next = dot
  · simpa [climb,isDot] using below
  by_cases isUp : next = dotDot
  · cases stack with
    | nil => cases rooted <;> simp [climb,isUp,up]
    | cons top stack =>
      rw [List.forall_mem_cons] at below
      by_cases again : top = dotDot
      · simpa [climb,isUp,up,again] using below.2
      · simpa [climb,isUp,up,again] using below.2
  · simpa [climb,isDot,isUp,proper] using below

theorem resolve_proper (rooted : Bool) (proper : ∀ name ∈ left, Proper name) :
    ∀ name ∈ resolve rooted left, Proper name ∧ name ≠ dot := by
  have climbs : ∀ stack, (∀ name ∈ stack, Proper name ∧ name ≠ dot) →
      ∀ name ∈ left.foldl (climb rooted) stack, Proper name ∧ name ≠ dot := by
    induction left with
    | nil => exact fun stack below => below
    | cons first left ih =>
      intro stack below
      exact ih (fun name member => proper name (List.mem_cons_of_mem _ member)) _
        (climb_proper below (proper first List.mem_cons_self))
  intro name member
  exact climbs [] (by simp) name (List.mem_reverse.mp member)

/-- Names that are written out one after the other are read back. -/
theorem names_intercalate (proper : ∀ name ∈ left, Proper name) : names ([47].intercalate left) = left := by
  cases left with
  | nil => rfl
  | cons first left =>
    unfold names
    rw [List.splitOn_intercalate 47 (fun name member => (proper name member).whole) (by simp),List.filter_eq_self]
    intro name member
    simpa using (proper name member).inhabited

theorem Proper.relative {name : Bytes} (proper : Proper name) : isRooted name = false := by
  cases name with
  | nil => rfl
  | cons c name =>
    have other : c ≠ 47 := fun same => proper.whole (same ▸ List.mem_cons_self)
    simpa [isRooted] using other

theorem names_child {name : Bytes} (proper : Proper name) : names (append root name) = names root ++ [name] := by
  have single : names name = [name] := by
    have joined := names_intercalate fun other (member : other ∈ [name]) => List.mem_singleton.mp member ▸ proper
    simpa using joined
  rw [names_append proper.relative,single]

/-- More text at the end of a path belongs to its last name. -/
theorem append_suffix {name : Bytes} (proper : Proper name) (suffix : Bytes) :
    append root name ++ suffix = append root (name ++ suffix) := by
  have relative : isRooted (name ++ suffix) = false := by
    have first : (name ++ suffix).head? = name.head? := by
      rw [List.head?_append_of_ne_nil _ proper.inhabited]
    rw [isRooted,first]
    exact proper.relative
  unfold append
  simp only [proper.relative,relative,Bool.false_eq_true,if_false]
  split <;> simp

theorem names_closing (front : Bytes) (closing : Bool) : names (front ++ if closing then [47] else []) = names front := by
  cases closing with
  | false => simp
  | true =>
    rw [if_pos rfl,names_separated]
    simp [names]

theorem names_rooted (text : Bytes) : names (47 :: text) = names text := by
  have front := names_separated [] text
  simpa [names] using front

theorem names_slashes (slashes : text.all (· = 47) = true) : names text = [] := by
  induction text with
  | nil => rfl
  | cons c text ih =>
    simp only [List.all_cons,Bool.and_eq_true,decide_eq_true_eq] at slashes
    rw [slashes.1,names_rooted]
    exact ih slashes.2

theorem steps_normal (text : Bytes) : steps (lexicallyNormal text) = resolve (isRooted text) (names text) := by
  unfold lexicallyNormal
  split
  · rename_i slashes
    rw [steps,names_slashes slashes]
    rfl
  have all := resolve_proper (isRooted text) fun name (member : name ∈ names text) => proper_names member
  generalize resolve (isRooted text) (names text) = left at all
  have written : names ([47].intercalate left) = left := names_intercalate fun name member => (all name member).1
  have kept : left.filter (fun name => name ≠ dot) = left := by
    rw [List.filter_eq_self]
    intro name member
    simpa using (all name member).2
  dsimp only
  split
  · rw [steps,names_rooted,names_closing,written,kept]
  · split
    · rename_i none
      rw [none]
      rfl
    · rw [steps,names_closing,written,kept]

theorem isRooted_normal (text : Bytes) : isRooted (lexicallyNormal text) = isRooted text := by
  unfold lexicallyNormal
  split
  · rfl
  have all := resolve_proper (isRooted text) fun name (member : name ∈ names text) => proper_names member
  generalize resolve (isRooted text) (names text) = left at all
  dsimp only
  split
  · rename_i rooted
    rw [rooted]
    rfl
  · rename_i relative
    rw [Bool.not_eq_true] at relative
    rw [relative]
    split
    · rfl
    · cases left with
      | nil => contradiction
      | cons first left =>
        obtain ⟨inhabited,whole⟩ := (all first List.mem_cons_self).1
        cases first with
        | nil => contradiction
        | cons c first =>
          have other : c ≠ 47 := fun same => whole (same ▸ List.mem_cons_self)
          cases left <;> simpa [isRooted,List.intercalate] using other

/-- Plain names are added to the names of the normal path. -/
theorem steps_append (relative : isRooted text = false) (plain : ∀ name ∈ names text, Plain name) :
    steps (lexicallyNormal (append root text)) = steps (lexicallyNormal root) ++ names text := by
  rw [steps_normal,steps_normal,isRooted_append relative,names_append relative,resolve_append _ plain]

theorem below_append (relative : isRooted text = false) (inhabited : names text ≠ []) (plain : ∀ name ∈ names text, Plain name) :
    Below (lexicallyNormal (append root text)) (lexicallyNormal root) := by
  constructor
  · rw [isRooted_normal,isRooted_normal,isRooted_append relative]
  · exact ⟨names text,inhabited,fun member => (plain _ member).notDotDot rfl,steps_append relative plain⟩

end Names
end LexicalPath
