import Confide.Bytes
import Mathlib.Data.List.Lex
import Mathlib.Order.Basic

/-! Errors, transaction ids, relative paths and digests. Ids, paths and digests come
only out of their parsers, so each carries the proof that it is well formed. -/
namespace Confide

open Bytes

inductive ErrCode where
  | validation | auth | forbidden | notfound | conflict | gone | integrity
  | unknownDestination | unavailable | throttled | io | internal
  deriving DecidableEq, Repr

def ErrCode.toString : ErrCode → Bytes
  | .validation => ascii "validation"
  | .auth => ascii "auth"
  | .forbidden => ascii "forbidden"
  | .notfound => ascii "notfound"
  | .conflict => ascii "conflict"
  | .gone => ascii "gone"
  | .integrity => ascii "integrity"
  | .unknownDestination => ascii "unknown_destination"
  | .unavailable => ascii "unavailable"
  | .throttled => ascii "throttled"
  | .io => ascii "io"
  | .internal => ascii "internal"

structure Error where
  code : ErrCode
  detail : Bytes
  deriving DecidableEq, Repr

abbrev Result (α : Type) := Except Error α

def fail (code : ErrCode) (detail : Bytes) : Result α := .error ⟨code,detail⟩

@[simp] theorem ok_bind (a : α) (f : α → Result β) : (Except.ok a >>= f) = f a := rfl
@[simp] theorem error_bind (e : Error) (f : α → Result β) : (Except.error e >>= f) = .error e := rfl
@[simp] theorem ok_map (a : α) (f : α → β) : (f <$> (Except.ok a : Result α)) = .ok (f a) := rfl

theorem bind_eq_ok {x : Result α} {f : α → Result β} {b : β} :
    (x >>= f) = .ok b ↔ ∃ a, x = .ok a ∧ f a = .ok b := by
  cases x <;> simp

theorem mapM_ok {f : α → Result β} {xs : List α} {ys : List β} (read : xs.mapM f = .ok ys) :
    (∀ y ∈ ys, ∃ x ∈ xs, f x = .ok y) ∧ ∀ x ∈ xs, ∃ y ∈ ys, f x = .ok y := by
  induction xs generalizing ys with
  | nil =>
    cases read
    exact ⟨nofun,nofun⟩
  | cons x xs ih =>
    rw [List.mapM_cons] at read
    obtain ⟨y,first,read⟩ := bind_eq_ok.mp read
    obtain ⟨rest,later,read⟩ := bind_eq_ok.mp read
    cases read
    obtain ⟨back,forth⟩ := ih later
    constructor
    · intro y' member
      rcases List.mem_cons.mp member with rfl | member
      · exact ⟨x,List.mem_cons_self ..,first⟩
      · obtain ⟨x',member,same⟩ := back y' member
        exact ⟨x',List.mem_cons_of_mem _ member,same⟩
    · intro x' member
      rcases List.mem_cons.mp member with rfl | member
      · exact ⟨y,List.mem_cons_self ..,first⟩
      · obtain ⟨y',member,same⟩ := forth x' member
        exact ⟨y',List.mem_cons_of_mem _ member,same⟩

theorem mapM_isOk {f : α → Result β} {xs : List α} (all : ∀ x ∈ xs, ∃ y, f x = .ok y) : ∃ ys, xs.mapM f = .ok ys := by
  induction xs with
  | nil => exact ⟨[],rfl⟩
  | cons x xs ih =>
    obtain ⟨y,first⟩ := all x (List.mem_cons_self ..)
    obtain ⟨ys,later⟩ := ih fun x' member => all x' (List.mem_cons_of_mem _ member)
    exact ⟨y :: ys,by rw [List.mapM_cons,first,ok_bind,later]; rfl⟩

/-! Transaction ids: canonical lower-case UUIDs of version 4. -/

def isDashPos (pos : Nat) : Bool := pos == 8 || pos == 13 || pos == 18 || pos == 23

def isLowerHex (b : UInt8) : Bool := (48 ≤ b && b ≤ 57) || (97 ≤ b && b ≤ 102)

def isTransactionId (s : Bytes) : Bool :=
  s.length == 36
    && s.zipIdx.all (fun (b,i) => if isDashPos i then b == 45 else isLowerHex b)
    && s[14]? == some 52
    && [(56 : UInt8),57,97,98].any (fun variant => s[19]? == some variant)

structure TransactionId where
  value : Bytes
  valid : isTransactionId value = true
  deriving Repr

theorem TransactionId.key_injective : Function.Injective fun id : TransactionId => key id.value := by
  rintro ⟨a,_⟩ ⟨b,_⟩ same
  obtain rfl : a = b := Bytes.key_injective same
  rfl

instance : LinearOrder TransactionId := LinearOrder.lift' _ TransactionId.key_injective

theorem TransactionId.value_injective : Function.Injective TransactionId.value := fun _ _ same =>
  TransactionId.key_injective (congrArg key same)

def TransactionId.parse (s : Bytes) : Result TransactionId :=
  if valid : isTransactionId s = true then .ok ⟨s,valid⟩
  else fail .validation (ascii "malformed transaction id")

@[simp] theorem TransactionId.parse_value (id : TransactionId) : TransactionId.parse id.value = .ok id := by
  simp [parse,id.valid]

theorem TransactionId.parse_ok {id : TransactionId} (parsed : TransactionId.parse s = .ok id) :
    id.value = s := by
  unfold parse at parsed
  split at parsed
  · cases parsed
    rfl
  · contradiction

theorem isLowerHex_small {b : UInt8} (hex : isLowerHex b = true) : b < 0x80 := by
  simp only [isLowerHex,Bool.or_eq_true,Bool.and_eq_true,decide_eq_true_eq] at hex
  rcases hex with ⟨_,high⟩ | ⟨_,high⟩ <;> exact UInt8.lt_of_le_of_lt high (by decide)

theorem TransactionId.digits (id : TransactionId) (b : UInt8) (member : b ∈ id.value) : b = 45 ∨ isLowerHex b = true := by
  have valid := id.valid
  simp only [isTransactionId,Bool.and_eq_true,List.all_eq_true] at valid
  obtain ⟨i,bound,rfl⟩ := List.getElem_of_mem member
  have shape := valid.1.1.2 (id.value[i],i) (by simp [List.mem_zipIdx_iff_getElem?])
  simp only at shape
  split at shape
  · exact .inl (beq_iff_eq.mp shape)
  · exact .inr shape

theorem TransactionId.ne_nil (id : TransactionId) : id.value ≠ [] := by
  intro empty
  have valid := id.valid
  rw [empty] at valid
  contradiction

/-- Ids are ASCII. -/
theorem TransactionId.isUtf8 (id : TransactionId) : Bytes.isUtf8 id.value = true := by
  apply isUtf8_ascii
  intro b member
  rcases id.digits b member with rfl | hex
  · decide
  · exact isLowerHex_small hex

/-! Relative paths. A path is accepted as it stands or refused with a reason. -/

def maxPathBytes : Nat := 4096
def maxComponentBytes : Nat := 255

def isForbiddenChar (c : UInt8) : Bool := c < 0x20 || c == 0x7f || c == 92 || c == 58

def componentProblem (part : Bytes) : Option Bytes :=
  if part = [] then some (ascii "empty component")
  else if part = ascii "." ∨ part = ascii ".." then some (ascii "dot component")
  else if maxComponentBytes < part.length then some (ascii "component too long")
  else none

def pathProblem (raw : Bytes) : Option Bytes :=
  if raw = [] then some (ascii "empty")
  else if maxPathBytes < raw.length then some (ascii "too long")
  else if raw.head? = some 47 then some (ascii "absolute")
  else if raw.any isForbiddenChar then some (ascii "forbidden character")
  else (raw.splitOn 47).findSome? componentProblem

structure RelativePath where
  value : Bytes
  valid : pathProblem value = none
  deriving Repr

theorem RelativePath.key_injective : Function.Injective fun path : RelativePath => key path.value := by
  rintro ⟨a,_⟩ ⟨b,_⟩ same
  obtain rfl : a = b := Bytes.key_injective same
  rfl

instance : LinearOrder RelativePath := LinearOrder.lift' _ RelativePath.key_injective

theorem RelativePath.value_injective : Function.Injective RelativePath.value := fun _ _ same =>
  RelativePath.key_injective (congrArg key same)

def RelativePath.parse (raw : Bytes) : Result RelativePath :=
  match valid : pathProblem raw with
  | some why => fail .validation (ascii "invalid path: " ++ why)
  | none => .ok ⟨raw,valid⟩

@[simp] theorem RelativePath.parse_value (path : RelativePath) :
    RelativePath.parse path.value = .ok path := by
  unfold parse
  split
  · rename_i why refused
    rw [path.valid] at refused
    contradiction
  · rfl

theorem RelativePath.parse_ok (parsed : RelativePath.parse s = .ok path) : path.value = s := by
  unfold parse at parsed
  split at parsed
  · contradiction
  · cases parsed
    rfl

/-- The names along the path, outermost first. -/
def RelativePath.components (path : RelativePath) : List Bytes := path.value.splitOn 47

theorem RelativePath.components_injective : Function.Injective RelativePath.components := by
  intro a b same
  apply RelativePath.value_injective
  have joined : ∀ path : RelativePath, [47].intercalate path.components = path.value :=
    fun path => List.intercalate_splitOn 47
  rw [← joined a,← joined b,same]

theorem RelativePath.component_fine (path : RelativePath) (part : Bytes) (member : part ∈ path.components) :
    componentProblem part = none := by
  have valid := path.valid
  unfold pathProblem at valid
  repeat' (split at valid)
  all_goals try contradiction
  exact List.findSome?_eq_none_iff.mp valid part member

theorem RelativePath.components_ne_nil (path : RelativePath) : path.components ≠ [] :=
  List.splitOn_ne_nil _ _

structure Sha256Digest where
  bytes : List UInt8
  size : bytes.length = 32
  deriving DecidableEq, Repr

def Sha256Digest.ofNat (n : Nat) : Sha256Digest :=
  ⟨(List.range 32).map fun i => UInt8.ofNat (n >>> (8 * (31 - i))),by simp⟩

def hexPairs : Bytes → Option (List UInt8)
  | [] => some []
  | [_] => none
  | high :: low :: rest =>
    match hexValue high, hexValue low, hexPairs rest with
    | some high, some low, some bytes => some (UInt8.ofNat (high * 16 + low) :: bytes)
    | _, _, _ => none

theorem hexPairs_length (text : Bytes) (bytes : List UInt8) (read : hexPairs text = some bytes) :
    text.length = 2 * bytes.length := by
  fun_induction hexPairs text generalizing bytes with
  | case1 => cases read; rfl
  | case3 high low rest h l tail readTail _ _ ih =>
    cases read
    simp only [List.length_cons,ih tail readTail]
    omega
  | _ => contradiction

def Sha256Digest.fromHex (hex : Bytes) : Result Sha256Digest :=
  if length : hex.length = 64 then
    match read : hexPairs hex with
    | some bytes => .ok ⟨bytes,by have := hexPairs_length hex bytes read; omega⟩
    | none => fail .validation (ascii "sha256 has non-hex character")
  else fail .validation (ascii "sha256 must be 64 hex digits")

def Sha256Digest.toHex (digest : Sha256Digest) : Bytes :=
  digest.bytes.flatMap fun b => [hexDigit (b.toNat / 16),hexDigit (b.toNat % 16)]

theorem hexPairs_toHex (bytes : List UInt8) :
    hexPairs (bytes.flatMap fun b => [hexDigit (b.toNat / 16),hexDigit (b.toNat % 16)]) = some bytes := by
  induction bytes with
  | nil => rfl
  | cons b bytes ih =>
    have high : b.toNat / 16 < 16 := by have := b.toNat_lt; omega
    have low : b.toNat % 16 < 16 := Nat.mod_lt _ (by omega)
    have same : b.toNat / 16 * 16 + b.toNat % 16 = b.toNat := by omega
    simp only [List.flatMap_cons,List.cons_append,List.nil_append,hexPairs,hexValue_hexDigit high,
      hexValue_hexDigit low,ih,same,UInt8.ofNat_toNat]

@[simp] theorem Sha256Digest.fromHex_toHex (digest : Sha256Digest) :
    Sha256Digest.fromHex digest.toHex = .ok digest := by
  have pairs := hexPairs_toHex digest.bytes
  have length : digest.toHex.length = 64 := by
    rw [toHex,hexPairs_length _ _ pairs,digest.size]
  unfold fromHex
  rw [dif_pos length]
  split
  · rename_i bytes read
    obtain rfl := Option.some.inj (pairs.symm.trans read)
    rfl
  · rename_i refused
    rw [show hexPairs digest.toHex = _ from pairs] at refused
    contradiction

theorem Sha256Digest.toHex_isUtf8 (digest : Sha256Digest) : Bytes.isUtf8 digest.toHex = true := by
  have small : ∀ n < 16, hexDigit n < 0x80 := by decide
  apply isUtf8_ascii
  intro b member
  obtain ⟨c,_,inside⟩ := List.mem_flatMap.mp member
  have := c.toNat_lt
  simp only [List.mem_cons,List.not_mem_nil,or_false] at inside
  rcases inside with rfl | rfl <;> exact small _ (by omega)

end Confide
