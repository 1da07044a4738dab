import Mathlib.Data.List.Basic
import Mathlib.Data.List.TakeWhile
import Mathlib.Data.Nat.Digits.Lemmas
import Mathlib.Tactic.Common

/-! Byte strings: ASCII literals, decimal and hexadecimal numerals, and the
well-formed UTF-8 sequences. A string of the modelled program is its bytes. -/

abbrev Bytes := List UInt8

namespace Bytes

instance lawfulBEq : LawfulBEq Bytes := inferInstance

def ascii (text : String) : Bytes := text.toList.map fun c => UInt8.ofNat c.toNat

def isDigit (b : UInt8) : Bool := 48 ≤ b && b ≤ 57

def digit (n : Nat) : UInt8 := UInt8.ofNat (48 + n)

def digitValue (b : UInt8) : Nat := b.toNat - 48

/-- The number a string of digits denotes, read from the left. -/
def value (digits : Bytes) : Nat := digits.foldl (fun n b => 10 * n + digitValue b) 0

/-- Decimal numerals have no leading zero except in `0` itself. -/
def decimal (n : Nat) : Bytes :=
  if n = 0 then [48] else (Nat.digits 10 n).reverse.map digit

/-- Hexadecimal digits are written in lower case and read in either. -/
def hexDigit (n : Nat) : UInt8 := UInt8.ofNat (if n < 10 then 48 + n else 87 + n)

def hexValue (b : UInt8) : Option Nat :=
  if 48 ≤ b ∧ b ≤ 57 then some (b.toNat - 48)
  else if 97 ≤ b ∧ b ≤ 102 then some (b.toNat - 87)
  else if 65 ≤ b ∧ b ≤ 70 then some (b.toNat - 55)
  else none

def key (s : Bytes) : List Nat := s.map UInt8.toNat

theorem key_injective : Function.Injective key :=
  List.map_injective_iff.mpr fun _ _ same => UInt8.toNat_inj.mp same

theorem forall_byte {p : UInt8 → Prop} (all : ∀ n < 256, p (UInt8.ofNat n)) (b : UInt8) : p b := by
  have here := all b.toNat b.toNat_lt
  rwa [UInt8.ofNat_toNat] at here

theorem forall_byte_mem {f : UInt8 → Bytes} {p : UInt8 → Bool} (all : ∀ n < 256, (f (UInt8.ofNat n)).all p = true) (b : UInt8) :
    ∀ c ∈ f b, p c = true :=
  List.all_eq_true.mp (forall_byte (p := fun b => (f b).all p = true) all b)

theorem digitValue_digit (h : n < 10) : digitValue (digit n) = n := by
  simp only [digitValue,digit,UInt8.toNat_ofNat']
  omega

theorem isDigit_digit (h : n < 10) : isDigit (digit n) = true := by
  simp only [isDigit,digit,UInt8.le_iff_toNat_le,UInt8.toNat_ofNat',Bool.and_eq_true,decide_eq_true_eq]
  have : (48 : UInt8).toNat = 48 := rfl
  have : (57 : UInt8).toNat = 57 := rfl
  omega

theorem hexValue_hexDigit (h : n < 16) : hexValue (hexDigit n) = some n := by
  revert n
  decide

theorem hexValue_lt {b : UInt8} {n : Nat} (read : hexValue b = some n) : n < 16 := by
  unfold hexValue at read
  simp only [UInt8.le_iff_toNat_le] at read
  have h57 : (57 : UInt8).toNat = 57 := rfl
  have h102 : (102 : UInt8).toNat = 102 := rfl
  have h70 : (70 : UInt8).toNat = 70 := rfl
  split at read
  · cases read; omega
  · split at read
    · cases read; omega
    · split at read
      · cases read; omega
      · contradiction

theorem decimal_ne_nil (n : Nat) : decimal n ≠ [] := by
  unfold decimal
  split
  · simp
  · rename_i nonzero
    simpa using Nat.digits_ne_nil_iff_ne_zero.mpr nonzero

theorem decimal_digits (n : Nat) : ∀ b ∈ decimal n, isDigit b = true := by
  intro b member
  unfold decimal at member
  split at member
  · rw [List.mem_singleton.mp member]; rfl
  · obtain ⟨d,inside,rfl⟩ := List.mem_map.mp member
    exact isDigit_digit (Nat.digits_lt_base (by omega) (List.mem_reverse.mp inside))

theorem foldl_digits (ds : List Nat) (small : ∀ d ∈ ds, d < 10) :
    value (ds.reverse.map digit) = Nat.ofDigits 10 ds := by
  induction ds with
  | nil => rfl
  | cons d ds ih =>
    have tail := ih fun x h => small x (List.mem_cons_of_mem _ h)
    simp only [value] at tail ⊢
    rw [List.reverse_cons,List.map_append,List.foldl_append,tail,Nat.ofDigits_cons]
    simp [digitValue_digit (small d List.mem_cons_self)]
    omega

@[simp] theorem value_decimal (n : Nat) : value (decimal n) = n := by
  unfold decimal
  split
  · rename_i zero; subst zero; rfl
  · rw [foldl_digits _ fun d => Nat.digits_lt_base (by omega),Nat.ofDigits_digits]

theorem decimal_injective : Function.Injective decimal := by
  intro a b same
  rw [← value_decimal a,same,value_decimal]

/-- Only `0` has a numeral that starts with the digit zero. -/
theorem decimal_head (n : Nat) (tail : Bytes) (starts : decimal n = 48 :: tail) : tail = [] := by
  unfold decimal at starts
  split at starts
  · simpa using starts.symm
  · rename_i nonzero
    have last := Nat.getLast_digit_ne_zero 10 nonzero
    exfalso
    apply last
    have nonempty : Nat.digits 10 n ≠ [] := Nat.digits_ne_nil_iff_ne_zero.mpr nonzero
    have split := List.dropLast_append_getLast nonempty
    generalize (Nat.digits 10 n).getLast nonempty = d at *
    have small : d < 10 := Nat.digits_lt_base (b := 10) (m := n) (by omega) (by rw [← split]; simp)
    rw [← split] at starts
    simp only [List.reverse_append,List.reverse_cons,List.reverse_nil,List.nil_append,
      List.singleton_append,List.map_cons,List.cons.injEq] at starts
    have zero := congrArg digitValue starts.1
    rwa [digitValue_digit small] at zero

/-- The digits a text starts with, as a number up to `max`, and what follows them. -/
def fromChars (max : Nat) (text : Bytes) : Option (Nat × Bytes) :=
  if text.takeWhile isDigit = [] ∨ max < value (text.takeWhile isDigit) then none
  else some (value (text.takeWhile isDigit),text.dropWhile isDigit)

def fromCharsSigned (low high : Nat) : Bytes → Option (Int × Bytes)
  | [] => none
  | b :: text =>
    if b = 45 then (fromChars low text).map fun (n,rest) => (-n,rest)
    else (fromChars high (b :: text)).map fun (n,rest) => (n,rest)

/-- A text is a number to its end if it is nothing but digits. -/
theorem fromChars_whole {max n : Nat} {text : Bytes} :
    fromChars max text = some (n,[]) ↔ text ≠ [] ∧ (∀ b ∈ text, isDigit b = true) ∧ value text = n ∧ n ≤ max := by
  unfold fromChars
  by_cases digits : ∀ b ∈ text, isDigit b = true
  · rw [List.takeWhile_eq_self_iff.mpr digits,List.dropWhile_eq_nil_iff.mpr digits]
    by_cases bad : text = [] ∨ max < value text
    · rw [if_pos bad]
      refine iff_of_false nofun ?_
      rintro ⟨nonempty,_,rfl,small⟩
      exact bad.elim nonempty fun big => by omega
    · rw [if_neg bad]
      simp only [not_or,not_lt] at bad
      constructor
      · intro same
        cases same
        exact ⟨bad.1,digits,rfl,bad.2⟩
      · rintro ⟨_,_,rfl,_⟩
        rfl
  · refine iff_of_false (fun read => ?_) fun whole => digits whole.2.1
    split at read
    · contradiction
    · have rest := (Prod.mk.inj (Option.some.inj read)).2
      exact digits (List.dropWhile_eq_nil_iff.mp rest)

theorem fromChars_decimal {max n : Nat} (small : n ≤ max) : fromChars max (decimal n) = some (n,[]) :=
  fromChars_whole.mpr ⟨decimal_ne_nil n,decimal_digits n,value_decimal n,small⟩

/-- Octets still owed to a started character, and the range of the next one. -/
structure Utf8 where
  owed : Nat
  low : UInt8
  high : UInt8
  deriving DecidableEq, Repr

namespace Utf8

def start : Utf8 := ⟨0,0x80,0xBF⟩

/-- RFC 3629: overlong forms, surrogates and code points past U+10FFFF have no lead. -/
def lead (b : UInt8) : Option Utf8 :=
  if b < 0x80 then some start
  else if 0xC2 ≤ b ∧ b ≤ 0xDF then some ⟨1,0x80,0xBF⟩
  else if b = 0xE0 then some ⟨2,0xA0,0xBF⟩
  else if b = 0xED then some ⟨2,0x80,0x9F⟩
  else if 0xE1 ≤ b ∧ b ≤ 0xEF then some ⟨2,0x80,0xBF⟩
  else if b = 0xF0 then some ⟨3,0x90,0xBF⟩
  else if b = 0xF4 then some ⟨3,0x80,0x8F⟩
  else if 0xF1 ≤ b ∧ b ≤ 0xF3 then some ⟨3,0x80,0xBF⟩
  else none

def step (q : Utf8) (b : UInt8) : Option Utf8 :=
  if q.owed = 0 then lead b
  else if q.low ≤ b ∧ b ≤ q.high then some ⟨q.owed - 1,0x80,0xBF⟩
  else none

/-- The bytes complete the started character and go on as whole characters. -/
def accepts (q : Utf8) : Bytes → Bool
  | [] => q.owed == 0
  | b :: rest => match q.step b with
    | some q => q.accepts rest
    | none => false

/-- An ASCII byte is a character of its own and never continues another one. -/
theorem step_ascii (q : Utf8) (tail : q.owed = 0 ∨ 0x80 ≤ q.low) (b : UInt8) (small : b < 0x80) :
    q.step b = if q.owed = 0 then some start else none := by
  unfold step
  split
  · simp [lead,small]
  · rename_i inside
    have low := tail.resolve_left inside
    rw [if_neg]
    intro range
    have := UInt8.le_trans low range.1
    exact absurd small (UInt8.not_lt.mpr this)

/-- Every state a machine can be in asks for a continuation octet. -/
theorem step_tail {q next : Utf8} {b : UInt8} (stepped : q.step b = some next) :
    0x80 ≤ next.low := by
  unfold step lead at stepped
  split at stepped
  · repeat' (split at stepped)
    all_goals first | (cases stepped; decide) | contradiction
  · split at stepped
    · cases stepped; exact UInt8.le_refl _
    · contradiction

theorem accepts_cons {q next : Utf8} {b : UInt8} (stepped : q.step b = some next) (s : Bytes) :
    q.accepts (b :: s) = next.accepts s := by
  rw [accepts,stepped]

theorem step_lead (n : Nat) (byte : n < 256) : start.step (UInt8.ofNat n) =
    if n < 0x80 then some start
    else if 0xC2 ≤ n ∧ n ≤ 0xDF then some ⟨1,0x80,0xBF⟩
    else if n = 0xE0 then some ⟨2,0xA0,0xBF⟩
    else if n = 0xED then some ⟨2,0x80,0x9F⟩
    else if 0xE1 ≤ n ∧ n ≤ 0xEF then some ⟨2,0x80,0xBF⟩
    else if n = 0xF0 then some ⟨3,0x90,0xBF⟩
    else if n = 0xF4 then some ⟨3,0x80,0x8F⟩
    else if 0xF1 ≤ n ∧ n ≤ 0xF3 then some ⟨3,0x80,0xBF⟩
    else none := by
  simp [step,start,lead,UInt8.lt_iff_toNat_lt,UInt8.le_iff_toNat_le,← UInt8.toNat_inj,
    Nat.mod_eq_of_lt byte]

theorem step_continue (owed : Nat) (low high : UInt8) (n : Nat) (byte : n < 256)
    (range : low.toNat ≤ n ∧ n ≤ high.toNat) :
    (Utf8.mk (owed + 1) low high).step (UInt8.ofNat n) = some ⟨owed,0x80,0xBF⟩ := by
  simp [step,UInt8.le_iff_toNat_le,Nat.mod_eq_of_lt byte,range]

/-- After the lead of a character only the range of its next octet is not the plain one. -/
theorem accepts_tail1 (n : Nat) (low high : UInt8) (range : low.toNat ≤ 0x80 + n ∧ 0x80 + n ≤ high.toNat)
    (small : n < 64) (s : Bytes) : (Utf8.mk 1 low high).accepts (UInt8.ofNat (0x80 + n) :: s) = start.accepts s :=
  accepts_cons (step_continue 0 low high _ (by omega) range) s

theorem accepts_tail2 (n m : Nat) (low high : UInt8)
    (range : low.toNat ≤ 0x80 + n ∧ 0x80 + n ≤ high.toNat) (small : n < 64) (small' : m < 64) (s : Bytes) :
    (Utf8.mk 2 low high).accepts (UInt8.ofNat (0x80 + n) :: UInt8.ofNat (0x80 + m) :: s) =
      start.accepts s := by
  rw [accepts_cons (step_continue 1 low high _ (by omega) range)]
  exact accepts_tail1 m _ _ ⟨by simp,by simp; omega⟩ small' s

theorem accepts_tail3 (n m k : Nat) (low high : UInt8)
    (range : low.toNat ≤ 0x80 + n ∧ 0x80 + n ≤ high.toNat) (small : n < 64) (small' : m < 64)
    (small'' : k < 64) (s : Bytes) : (Utf8.mk 3 low high).accepts
      (UInt8.ofNat (0x80 + n) :: UInt8.ofNat (0x80 + m) :: UInt8.ofNat (0x80 + k) :: s) =
      start.accepts s := by
  rw [accepts_cons (step_continue 2 low high _ (by omega) range)]
  exact accepts_tail2 m k _ _ ⟨by simp,by simp; omega⟩ small' small'' s

end Utf8

def isUtf8 (s : Bytes) : Bool := Utf8.start.accepts s

theorem isUtf8_ascii (s : Bytes) (small : ∀ b ∈ s, b < 0x80) : isUtf8 s = true := by
  induction s with
  | nil => rfl
  | cons b s ih =>
    have step := Utf8.step_ascii Utf8.start (.inl rfl) b (small b List.mem_cons_self)
    exact (Utf8.accepts_cons step s).trans (ih fun c member => small c (List.mem_cons_of_mem _ member))

end Bytes
