import Confide.LexicalPath
import Confide.Storage

/-! Which paths are accepted, and where they lead: under any root a relative path names a place strictly
below it, and no other relative path names the same place. -/
namespace Confide

open Bytes LexicalPath

variable {raw : Bytes} {root : Bytes}

def findSlash (raw : Bytes) (start : Nat) : Option Nat := ((raw.drop start).findIdx? (· == 47)).map (start + ·)

/-- The loop over the components, from a position on; `fuel` bounds how many are left. -/
def scanComponents (raw : Bytes) : Nat → Nat → Option Bytes
  | 0, _ => none
  | fuel + 1, start =>
    let stop := findSlash raw start
    let part := match stop with
      | some stop => (raw.drop start).take (stop - start)
      | none => raw.drop start
    match componentProblem part with
    | some why => some why
    | none => match stop with
      | some stop => scanComponents raw fuel (stop + 1)
      | none => none

/-- A text is its first component, or that one, a separator and the rest. -/
theorem splitOn_findIdx (text : Bytes) : text.splitOn 47 = match text.findIdx? (· == 47) with
    | some i => text.take i :: (text.drop (i + 1)).splitOn 47
    | none => [text] := by
  cases found : text.findIdx? (· == 47) with
  | none =>
    apply List.splitOn_eq_singleton
    intro member
    have other := List.findIdx?_eq_none_iff.mp found 47 member
    simp at other
  | some i =>
    obtain ⟨bound,here,before⟩ := List.findIdx?_eq_some_iff_getElem.mp found
    have here : text[i] = 47 := by simpa using here
    have parts : text = text.take i ++ 47 :: text.drop (i + 1) := by
      rw [← here,List.getElem_cons_drop,List.take_append_drop]
    have first : ∀ c ∈ text.take i, (c == 47) = false := by
      intro c member
      obtain ⟨j,short,rfl⟩ := List.getElem_of_mem member
      rw [List.length_take] at short
      simpa using before j (by omega)
    dsimp only
    conv_lhs => rw [parts]
    exact List.splitOnP_append_cons_of_forall_mem first 47 rfl _

/-- The loop looks at the components in order, up to the first one that is refused. -/
theorem scanComponents_eq (raw : Bytes) (fuel start : Nat) (enough : raw.length - start < fuel) :
    scanComponents raw fuel start = ((raw.drop start).splitOn 47).findSome? componentProblem := by
  induction fuel generalizing start with
  | zero => omega
  | succ fuel ih =>
    rw [splitOn_findIdx]
    unfold scanComponents findSlash
    cases found : (raw.drop start).findIdx? (· == 47) with
    | none =>
      simp only [Option.map_none,List.findSome?_cons,List.findSome?_nil]
      split <;> simp_all
    | some i =>
      have bound := (List.findIdx?_eq_some_iff_getElem.mp found).1
      rw [List.length_drop] at bound
      simp only [Option.map_some,List.findSome?_cons,Nat.add_sub_cancel_left]
      rw [ih (start + i + 1) (by omega),List.drop_drop,Nat.add_assoc]
      cases componentProblem ((raw.drop start).take i) <;> rfl

theorem pathProblem_scan (raw : Bytes) : pathProblem raw =
    if raw = [] then some (ascii "empty")
    else if maxPathBytes < raw.length then some (ascii "too long")
    else if raw.head? = some 47 then some (ascii "absolute")
    else if raw.any isForbiddenChar then some (ascii "forbidden character")
    else scanComponents raw (raw.length + 1) 0 := by
  rw [scanComponents_eq raw _ _ (by omega)]
  rfl

theorem componentProblem_none (part : Bytes) : componentProblem part = none ↔
    1 ≤ part.length ∧ part.length ≤ 255 ∧ part ≠ dot ∧ part ≠ dotDot := by
  have empty : part = [] ↔ ¬ 1 ≤ part.length := by
    rw [← List.length_eq_zero_iff]
    omega
  unfold componentProblem
  split
  · rename_i isEmpty
    simp [empty.mp isEmpty]
  rename_i inhabited
  rw [empty,not_not] at inhabited
  split
  · rename_i dots
    rcases dots with dots | dots <;> simp [dots,dot,dotDot]
  rename_i names
  rw [not_or] at names
  split
  · rename_i long
    simp only [maxComponentBytes] at long
    simp only [reduceCtorEq,false_iff]
    omega
  · rename_i short
    simp only [maxComponentBytes,not_lt] at short
    exact ⟨fun _ => ⟨inhabited,short,names⟩,fun _ => rfl⟩

theorem isForbiddenChar_false (c : UInt8) : isForbiddenChar c = false ↔ 0x20 ≤ c ∧ c ≠ 0x7f ∧ c ≠ 92 ∧ c ≠ 58 := by
  simp only [isForbiddenChar,Bool.or_eq_false_iff,decide_eq_false_iff_not,beq_eq_false_iff_ne,UInt8.not_lt]
  tauto

structure Acceptable (raw : Bytes) : Prop where
  inhabited : 1 ≤ raw.length
  short : raw.length ≤ 4096
  printable : ∀ c ∈ raw, 0x20 ≤ c ∧ c ≠ 0x7f ∧ c ≠ 92 ∧ c ≠ 58
  components : ∀ part ∈ raw.splitOn 47, 1 ≤ part.length ∧ part.length ≤ 255 ∧ part ≠ dot ∧ part ≠ dotDot

theorem Acceptable.relative (acceptable : Acceptable raw) : raw.head? ≠ some 47 := by
  intro absolute
  obtain ⟨rest,rfl⟩ := List.head?_eq_some_iff.mp absolute
  have first : [] ∈ (47 :: rest : Bytes).splitOn 47 := by
    rw [List.splitOn,List.splitOnP_cons_eq_if_modifyHead]
    simp
  exact absurd (acceptable.components [] first).1 (by simp)

theorem pathProblem_none : pathProblem raw = none ↔ Acceptable raw := by
  constructor
  · intro accepted
    unfold pathProblem at accepted
    split at accepted
    · contradiction
    split at accepted
    · contradiction
    split at accepted
    · contradiction
    split at accepted
    · contradiction
    rename_i inhabited short relative printable
    constructor
    · exact List.length_pos_of_ne_nil inhabited
    · exact Nat.le_of_not_lt short
    · intro c member
      apply (isForbiddenChar_false c).mp
      simpa using fun forbidden => printable (List.any_eq_true.mpr ⟨c,member,forbidden⟩)
    · intro part member
      exact (componentProblem_none part).mp (List.findSome?_eq_none_iff.mp accepted part member)
  · intro acceptable
    have printable : raw.any isForbiddenChar = false := by
      rw [List.any_eq_false]
      intro c member
      simpa using (isForbiddenChar_false c).mpr (acceptable.printable c member)
    have short : ¬ maxPathBytes < raw.length := Nat.not_lt.mpr acceptable.short
    unfold pathProblem
    rw [if_neg (List.ne_nil_of_length_pos acceptable.inhabited),if_neg short,
      if_neg acceptable.relative,printable,if_neg (by simp),List.findSome?_eq_none_iff]
    intro part member
    exact (componentProblem_none part).mpr (acceptable.components part member)

theorem parse_isOk (raw : Bytes) : (∃ path, RelativePath.parse raw = .ok path) ↔ Acceptable raw := by
  rw [← pathProblem_none]
  constructor
  · rintro ⟨path,parsed⟩
    rw [← RelativePath.parse_ok parsed]
    exact path.valid
  · intro accepted
    exact ⟨⟨raw,accepted⟩,RelativePath.parse_value ⟨raw,accepted⟩⟩

def RelativePath.underRoot (path : RelativePath) (root : Bytes) : Bytes := append root path.value

section Under

variable (path : RelativePath)

theorem RelativePath.relative : isRooted path.value = false := by
  simpa [isRooted] using (pathProblem_none.mp path.valid).relative

theorem RelativePath.names_eq : names path.value = path.components := by
  unfold names RelativePath.components
  rw [List.filter_eq_self]
  intro part member
  have inhabited := ((pathProblem_none.mp path.valid).components part member).1
  simpa using List.ne_nil_of_length_pos inhabited

theorem RelativePath.plain : ∀ name ∈ names path.value, Plain name := by
  intro name member
  have proper := proper_names member
  rw [path.names_eq] at member
  have component := (pathProblem_none.mp path.valid).components name member
  exact ⟨proper,component.2.2.1,component.2.2.2⟩

theorem RelativePath.underRoot_steps (root : Bytes) :
    steps (lexicallyNormal (path.underRoot root)) = path.under (steps (lexicallyNormal root)) := by
  rw [RelativePath.underRoot,steps_append path.relative path.plain,path.names_eq]
  rfl

end Under

/-- A path is accepted exactly when it is made of safe components, it is kept as it is, under any root it
leads strictly below that root, and different paths lead to different places. -/
theorem relative_paths_are_safe (raw : Bytes) : ((∃ path, RelativePath.parse raw = .ok path) ↔ Acceptable raw) ∧
    (∀ path, RelativePath.parse raw = .ok path → path.value = raw) ∧
    (∀ (path : RelativePath) (root : Bytes), Below (lexicallyNormal (path.underRoot root)) (lexicallyNormal root)) ∧
    ∀ root : Bytes, Function.Injective fun path : RelativePath => lexicallyNormal (path.underRoot root) := by
  refine ⟨parse_isOk raw,fun path parsed => RelativePath.parse_ok parsed,fun path root => ?_,fun root path path' same => ?_⟩
  · apply below_append path.relative _ path.plain
    rw [path.names_eq]
    exact path.components_ne_nil
  · have same : steps (lexicallyNormal (path.underRoot root)) = steps (lexicallyNormal (path'.underRoot root)) :=
      congrArg steps same
    rw [path.underRoot_steps,path'.underRoot_steps,RelativePath.under,RelativePath.under,List.append_cancel_left_eq] at same
    exact RelativePath.components_injective same

end Confide
