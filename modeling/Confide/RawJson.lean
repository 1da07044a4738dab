import Confide.Json

/-! JSON texts whose strings may hold any bytes: escapes are undone and bytes above 0x7f are passed through as they are. -/
namespace Json.Raw

open Bytes

/-- What an escape stands for, after its backslash, and the rest of the text. -/
def readEscape : Bytes → Option (Bytes × Bytes)
  | [] => none
  | c :: rest =>
    if c = 117 then
      match rest with
      | h1 :: h2 :: h3 :: h4 :: rest =>
        match hex4 h1 h2 h3 h4 with
        | none => none
        | some high =>
          if 0xD800 ≤ high ∧ high < 0xDC00 then
            match rest with
            | e :: u :: l1 :: l2 :: l3 :: l4 :: rest =>
              match hex4 l1 l2 l3 l4 with
              | none => none
              | some low =>
                if e = 92 ∧ u = 117 ∧ 0xDC00 ≤ low ∧ low < 0xE000 then
                  some (encodePoint (0x10000 + (high - 0xD800) * 1024 + (low - 0xDC00)),rest)
                else none
            | _ => none
          else if 0xDC00 ≤ high ∧ high < 0xE000 then none
          else some (encodePoint high,rest)
      | _ => none
    else (unescape c).map fun d => ([d],rest)

/-- The rest of a string after its opening quote; the fuel bounds the number of its characters. -/
def readString : Nat → Bytes → Option (Bytes × Bytes)
  | 0, _ => none
  | _, [] => none
  | fuel + 1, b :: rest =>
    if b = 34 then some ([],rest)
    else if b = 92 then
      match readEscape rest with
      | none => none
      | some (s,rest) => (readString fuel rest).map fun (more,after) => (s ++ more,after)
    else if b < 32 then none
    else (readString fuel rest).map fun (s,after) => (b :: s,after)

def readField (item : Bytes → Option (Json × Bytes)) (text : Bytes) : Option ((Bytes × Json) × Bytes) :=
  match skipSpace text with
  | [] => none
  | b :: rest =>
    if b = 34 then
      match readString rest.length rest with
      | none => none
      | some (key,rest) => match skipSpace rest with
        | [] => none
        | b :: rest => if b = 58 then (item rest).map fun (x,after) => ((key,x),after) else none
    else none

def readValue (depth : Nat) (text : Bytes) : Option (Json × Bytes) :=
  match skipSpace text with
  | [] => none
  | b :: rest =>
    if b = 34 then (readString rest.length rest).map fun (s,after) => (.str s,after)
    else if b = 91 then match depth with
      | 0 => none
      | depth + 1 => (readSequence (readValue depth) 93 rest).map fun (xs,after) => (.arr xs,after)
    else if b = 123 then match depth with
      | 0 => none
      | depth + 1 => (readSequence (readField (readValue depth)) 125 rest).map fun (xs,after) => (.obj xs,after)
    else if b = 110 then readLiteral (ascii "ull") .null rest
    else if b = 116 then readLiteral (ascii "rue") (.bool true) rest
    else if b = 102 then readLiteral (ascii "alse") (.bool false) rest
    else readNumber (b :: rest)

def parse (text : Bytes) : Option Json :=
  match readValue maxDepth text with
  | some (v,rest) => if skipSpace rest = [] then some v else none
  | none => none

/-- A text for each byte that the reader takes for that byte: the byte itself, or an escape. -/
def Escapes (write : UInt8 → Bytes) : Prop :=
  ∀ b, write b = [b] ∧ b ≠ 34 ∧ b ≠ 92 ∧ ¬ b < 32 ∨
    ∃ tail, write b = 92 :: tail ∧ ∀ rest, readEscape (tail ++ rest) = some ([b],rest)

variable {write : UInt8 → Bytes}

theorem readString_escaped (escapes : Escapes write) (s rest : Bytes) (fuel : Nat) (enough : s.length < fuel) :
    readString fuel (s.flatMap write ++ 34 :: rest) = some (s,rest) := by
  induction s generalizing fuel with
  | nil =>
    obtain ⟨fuel,rfl⟩ := Nat.exists_eq_succ_of_ne_zero (Nat.ne_of_gt enough)
    simp [readString]
  | cons b s ih =>
    obtain ⟨fuel,rfl⟩ := Nat.exists_eq_succ_of_ne_zero (Nat.ne_of_gt (Nat.lt_of_le_of_lt (Nat.zero_le _) enough))
    have later := ih fuel (by simpa using enough)
    rw [List.flatMap_cons,List.append_assoc]
    rcases escapes b with ⟨plain,quote,slash,control⟩ | ⟨tail,escaped,means⟩
    · rw [plain,List.singleton_append,readString]
      simp [quote,slash,control,later]
    · rw [escaped,List.cons_append,readString]
      simp [means,later]

theorem Escapes.length_le (escapes : Escapes write) (s : Bytes) : s.length ≤ (s.flatMap write).length := by
  induction s with
  | nil => exact le_rfl
  | cons b s ih =>
    have visible : 0 < (write b).length := by
      rcases escapes b with ⟨plain,_⟩ | ⟨tail,escaped,_⟩
      · simp [plain]
      · simp [escaped]
    rw [List.flatMap_cons,List.length_append,List.length_cons]
    omega

theorem readString_quoted (escapes : Escapes write) (s rest : Bytes) :
    readString (s.flatMap write ++ 34 :: rest).length (s.flatMap write ++ 34 :: rest) = some (s,rest) := by
  apply readString_escaped escapes
  have short := escapes.length_le s
  rw [List.length_append,List.length_cons]
  omega

def writeString (write : UInt8 → Bytes) (s : Bytes) : Bytes := 34 :: (s.flatMap write ++ [34])

/-- Strings and integers, which is all that a flat object holds. -/
def writeLeaf (write : UInt8 → Bytes) : Json → Bytes
  | .str s => writeString write s
  | .int i => serializeInt i
  | _ => []

def writeField (write : UInt8 → Bytes) (field : Bytes × Json) : Bytes :=
  writeString write field.1 ++ 58 :: writeLeaf write field.2

def isLeaf : Json → Bool
  | .str _ => true
  | .int i => -2 ^ 63 ≤ i && i < 2 ^ 64
  | _ => false

theorem readValue_leaf (escapes : Escapes write) (depth : Nat) (v : Json) (leaf : isLeaf v = true) (rest : Bytes)
    (ends : Ends rest) : readValue depth (writeLeaf write v ++ rest) = some (v,rest) := by
  cases v with
  | str s =>
    have text : writeLeaf write (.str s) ++ rest = 34 :: (s.flatMap write ++ 34 :: rest) := by simp [writeLeaf,writeString]
    have read := readString_quoted escapes s rest
    rw [text,readValue.eq_def,skipSpace_cons rfl]
    simp only [if_true]
    rw [read]
    rfl
  | int i =>
    have range : -2 ^ 63 ≤ i ∧ i < 2 ^ 64 := by simpa [isLeaf] using leaf
    obtain ⟨b,tail,text,visible,h1,h2,h3,h4,h5,h6⟩ := serializeInt_head i rest
    have number := readNumber_int range.1 range.2 ends
    rw [text] at number
    rw [writeLeaf,text,readValue.eq_def,skipSpace_cons visible.1]
    simp [h1,h2,h3,h4,h5,h6,number]
  | null | bool | double | arr | obj => simp [isLeaf] at leaf

theorem readField_write (escapes : Escapes write) (depth : Nat) (field : Bytes × Json) (leaf : isLeaf field.2 = true)
    (rest : Bytes) (ends : Ends rest) :
    readField (readValue depth) (writeField write field ++ rest) = some (field,rest) := by
  have text : writeField write field ++ rest =
      34 :: (field.1.flatMap write ++ 34 :: (58 :: (writeLeaf write field.2 ++ rest))) := by
    simp [writeField,writeString]
  have key := readString_quoted escapes field.1 (58 :: (writeLeaf write field.2 ++ rest))
  rw [readField,text,skipSpace_cons rfl]
  simp only [if_true]
  rw [key]
  simp only [skipSpace_cons (b := 58) rfl,if_true,readValue_leaf escapes depth field.2 leaf rest ends]
  rfl

theorem separated_flatMap (write : α → Bytes) (close : UInt8) (xs : List α) :
    separated write close xs = xs.flatMap (fun x => 44 :: write x) ++ [close] := by
  induction xs with
  | nil => rfl
  | cons x xs ih => simp [separated,ih]

theorem parse_flat (escapes : Escapes write) (field : Bytes × Json) (fields : List (Bytes × Json))
    (leaves : ∀ f ∈ field :: fields, isLeaf f.2 = true) :
    parse (123 :: (writeField write field ++ separated (writeField write) 125 fields)) = some (.obj (field :: fields)) := by
  have starts : ∀ rest, ∃ b tail, writeField write field ++ rest = b :: tail ∧ opens b := fun rest =>
    ⟨34,_,rfl,by simp [opens,isSpace]⟩
  have sequence : readSequence (readField (readValue 31)) 125
      (writeField write field ++ (separated (writeField write) 125 fields ++ [])) =
      if (field :: fields).all fun _ => true then some (field :: fields,[]) else none :=
    readSequence_separated (.inr rfl) field fields
      (fun f member rest ends => by rw [readField_write escapes 31 f (leaves f member) rest ends]; rfl) starts []
  rw [List.append_nil,List.all_eq_true.mpr fun _ _ => rfl,if_pos rfl] at sequence
  rw [parse,readValue.eq_def,skipSpace_cons rfl,maxDepth]
  simp only [show ¬ (123 : UInt8) = 34 by decide,show ¬ (123 : UInt8) = 91 by decide,if_false,if_true,sequence]
  rfl

end Json.Raw
