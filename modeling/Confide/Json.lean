import Confide.Bytes

/-! JSON texts as the server's JSON library writes and reads them: strings keep
their bytes above 0x7f, a text with an ill-formed UTF-8 string is refused, integers
are read exactly up to 64 bits, and nesting stops at 32 levels. -/

open Bytes

/-- Integers outside 64 bits and numbers with a fraction or an exponent are kept as
their text; nothing in this development reads one. -/
inductive Json where
  | null
  | bool (b : Bool)
  | int (i : Int)
  | double (text : Bytes)
  | str (s : Bytes)
  | arr (items : List Json)
  | obj (fields : List (Bytes × Json))

namespace Json

/-- Quotes, backslashes and control characters are escaped, every other byte is copied. -/
def escapeByte (b : UInt8) : Bytes :=
  if b = 34 then [92,34]
  else if b = 92 then [92,92]
  else if b = 8 then [92,98]
  else if b = 12 then [92,102]
  else if b = 10 then [92,110]
  else if b = 13 then [92,114]
  else if b = 9 then [92,116]
  else if b < 32 then [92,117,48,48,hexDigit (b.toNat / 16),hexDigit (b.toNat % 16)]
  else [b]

def escape (s : Bytes) : Bytes := s.flatMap escapeByte

def quote (s : Bytes) : Bytes := 34 :: (escape s ++ [34])

def serializeInt (i : Int) : Bytes :=
  if i < 0 then 45 :: decimal i.natAbs else decimal i.natAbs

mutual

def serialize : Json → Bytes
  | .null => ascii "null"
  | .bool true => ascii "true"
  | .bool false => ascii "false"
  | .int i => serializeInt i
  | .double text => text
  | .str s => quote s
  | .arr [] => [91,93]
  | .arr (item :: items) => 91 :: (serialize item ++ serializeItems items)
  | .obj [] => [123,125]
  | .obj ((key,item) :: fields) =>
    123 :: (quote key ++ 58 :: (serialize item ++ serializeFields fields))

def serializeItems : List Json → Bytes
  | [] => [93]
  | item :: items => 44 :: (serialize item ++ serializeItems items)

def serializeFields : List (Bytes × Json) → Bytes
  | [] => [125]
  | (key,item) :: fields => 44 :: (quote key ++ 58 :: (serialize item ++ serializeFields fields))

end

def isSpace (b : UInt8) : Bool := b == 32 || b == 9 || b == 10 || b == 13

def skipSpace (text : Bytes) : Bytes := text.dropWhile isSpace

/-- The UTF-8 form of a code point that is not a surrogate. -/
def encodePoint (point : Nat) : Bytes :=
  if point < 0x80 then [UInt8.ofNat point]
  else if point < 0x800 then [UInt8.ofNat (0xC0 + point / 64),UInt8.ofNat (0x80 + point % 64)]
  else if point < 0x10000 then
    [UInt8.ofNat (0xE0 + point / 4096),UInt8.ofNat (0x80 + point / 64 % 64),
      UInt8.ofNat (0x80 + point % 64)]
  else [UInt8.ofNat (0xF0 + point / 262144),UInt8.ofNat (0x80 + point / 4096 % 64),
      UInt8.ofNat (0x80 + point / 64 % 64),UInt8.ofNat (0x80 + point % 64)]

def hex4 (a b c d : UInt8) : Option Nat := do
  let a ← hexValue a
  let b ← hexValue b
  let c ← hexValue c
  let d ← hexValue d
  return ((a * 16 + b) * 16 + c) * 16 + d

def unescape (b : UInt8) : Option UInt8 :=
  if b = 34 ∨ b = 92 ∨ b = 47 then some b
  else if b = 98 then some 8
  else if b = 102 then some 12
  else if b = 110 then some 10
  else if b = 114 then some 13
  else if b = 116 then some 9
  else none

/-- The rest of a string after its opening quote: its bytes and what follows the
closing quote. `q` is the UTF-8 character in progress; escapes stand between characters. -/
def readString (q : Utf8) : Bytes → Option (Bytes × Bytes)
  | [] => none
  | b :: rest =>
    if q.owed = 0 ∧ b = 34 then some ([],rest)
    else if q.owed = 0 ∧ b = 92 then
      match rest with
      | [] => none
      | c :: rest =>
        if c = 117 then
          match rest with
          | h1 :: h2 :: h3 :: h4 :: rest =>
            match hex4 h1 h2 h3 h4 with
            | none => none
            | some high =>
              if 0xD800 ≤ high ∧ high < 0xDC00 then
                match rest with
                | e :: u :: l1 :: l2 :: l3 :: l4 :: rest =>
                  match hex4 l1 l2 l3 l4 with
                  | none => none
                  | some low =>
                    if e = 92 ∧ u = 117 ∧ 0xDC00 ≤ low ∧ low < 0xE000 then
                      (readString Utf8.start rest).map fun (s,after) =>
                        (encodePoint (0x10000 + (high - 0xD800) * 1024 + (low - 0xDC00)) ++ s,after)
                    else none
                | _ => none
              else if 0xDC00 ≤ high ∧ high < 0xE000 then none
              else (readString Utf8.start rest).map fun (s,after) => (encodePoint high ++ s,after)
          | _ => none
        else match unescape c with
          | some d => (readString Utf8.start rest).map fun (s,after) => (d :: s,after)
          | none => none
    else if q.owed = 0 ∧ b < 32 then none
    else match q.step b with
      | some q => (readString q rest).map fun (s,after) => (b :: s,after)
      | none => none

def readDigits (text : Bytes) : Option (Bytes × Bytes) :=
  match text.takeWhile isDigit with
  | [] => none
  | digits => some (digits,text.dropWhile isDigit)

/-- The fraction of a number, empty if there is none. -/
def readFraction : Bytes → Option (Bytes × Bytes)
  | [] => some ([],[])
  | b :: text =>
    if b = 46 then (readDigits text).map fun (digits,rest) => (b :: digits,rest)
    else some ([],b :: text)

def readExponent : Bytes → Option (Bytes × Bytes)
  | [] => some ([],[])
  | b :: text =>
    if b = 101 ∨ b = 69 then
      match text with
      | [] => none
      | sign :: digits =>
        if sign = 43 ∨ sign = 45 then
          (readDigits digits).map fun (digits,rest) => (b :: sign :: digits,rest)
        else (readDigits text).map fun (digits,rest) => (b :: digits,rest)
    else some ([],b :: text)

/-- Integers that fit 64 bits, signed if negative, are exact. -/
def integer (negative : Bool) (digits : Bytes) : Json :=
  if negative then
    if value digits ≤ 2^63 then .int (-(value digits : Int)) else .double (45 :: digits)
  else if value digits < 2^64 then .int (value digits) else .double digits

def readUnsigned (negative : Bool) (text : Bytes) : Option (Json × Bytes) :=
  match readDigits text with
  | none => none
  | some (digits,rest) =>
    if digits.head? = some 48 ∧ digits.tail ≠ [] then none
    else match readFraction rest with
    | none => none
    | some (fraction,rest) => match readExponent rest with
      | none => none
      | some (exponent,rest) =>
        if fraction = [] ∧ exponent = [] then some (integer negative digits,rest)
        else some (.double ((if negative then [45] else []) ++ digits ++ fraction ++ exponent),rest)

def readNumber : Bytes → Option (Json × Bytes)
  | [] => none
  | b :: text => if b = 45 then readUnsigned true text else readUnsigned false (b :: text)

/-- One or more items up to `close`; the fuel bounds the number of items. -/
def readItems (item : Bytes → Option (α × Bytes)) (close : UInt8) : Nat → Bytes → Option (List α × Bytes)
  | 0, _ => none
  | fuel + 1, text => match item text with
    | none => none
    | some (x,rest) => match skipSpace rest with
      | [] => none
      | b :: rest =>
        if b = 44 then (readItems item close fuel rest).map fun (xs,after) => (x :: xs,after)
        else if b = close then some ([x],rest)
        else none

def readSequence (item : Bytes → Option (α × Bytes)) (close : UInt8) (text : Bytes) : Option (List α × Bytes) :=
  match skipSpace text with
  | [] => none
  | b :: rest => if b = close then some ([],rest) else readItems item close text.length (b :: rest)

def readField (item : Bytes → Option (Json × Bytes)) (text : Bytes) : Option ((Bytes × Json) × Bytes) :=
  match skipSpace text with
  | [] => none
  | b :: rest =>
    if b = 34 then
      match readString Utf8.start rest with
      | none => none
      | some (key,rest) => match skipSpace rest with
        | [] => none
        | b :: rest =>
          if b = 58 then (item rest).map fun (x,after) => ((key,x),after) else none
    else none

def readLiteral (literal : Bytes) (v : Json) (text : Bytes) : Option (Json × Bytes) :=
  if literal.isPrefixOf text then some (v,text.drop literal.length) else none

/-- A value with at most `depth` levels of arrays and objects. -/
def readValue (depth : Nat) (text : Bytes) : Option (Json × Bytes) :=
  match skipSpace text with
  | [] => none
  | b :: rest =>
    if b = 34 then (readString Utf8.start rest).map fun (s,after) => (.str s,after)
    else if b = 91 then match depth with
      | 0 => none
      | depth + 1 => (readSequence (readValue depth) 93 rest).map fun (xs,after) => (.arr xs,after)
    else if b = 123 then match depth with
      | 0 => none
      | depth + 1 =>
        (readSequence (readField (readValue depth)) 125 rest).map fun (xs,after) => (.obj xs,after)
    else if b = 110 then readLiteral (ascii "ull") .null rest
    else if b = 116 then readLiteral (ascii "rue") (.bool true) rest
    else if b = 102 then readLiteral (ascii "alse") (.bool false) rest
    else readNumber (b :: rest)

def maxDepth : Nat := 32

/-- A whole text: one value with nothing but space after it. -/
def parse (text : Bytes) : Option Json :=
  match readValue maxDepth text with
  | some (v,rest) => if skipSpace rest = [] then some v else none
  | none => none

/-- The member of an object under a key; of repeated keys the last one counts. -/
def member (key : Bytes) : List (Bytes × Json) → Option Json
  | [] => none
  | (k,v) :: fields => match member key fields with
    | some later => some later
    | none => if k = key then some v else none

mutual

/-- Every string of the value, keys included, is UTF-8. -/
def isText : Json → Bool
  | .str s => isUtf8 s
  | .arr items => isTextItems items
  | .obj fields => isTextFields fields
  | _ => true

def isTextItems : List Json → Bool
  | [] => true
  | item :: items => item.isText && isTextItems items

def isTextFields : List (Bytes × Json) → Bool
  | [] => true
  | (key,item) :: fields => isUtf8 key && item.isText && isTextFields fields

end

/-- Values that keep their number and nesting when written: integers of 64 bits and
at most `depth` levels. -/
def fits : Nat → Json → Bool
  | _, .int i => -2^63 ≤ i && i < 2^64
  | _, .double _ => false
  | 0, .arr _ => false
  | 0, .obj _ => false
  | depth + 1, .arr items => items.all (fits depth)
  | depth + 1, .obj fields => fields.all fun field => fits depth field.2
  | _, _ => true

theorem hex4_control (n : Nat) (small : n < 32) :
    hex4 48 48 (hexDigit (n / 16)) (hexDigit (n % 16)) = some n := by
  revert n
  decide

theorem escapeByte_plain {b : UInt8} (quote : b ≠ 34) (slash : b ≠ 92) (control : ¬ b < 32) :
    escapeByte b = [b] := by
  have named : b ≠ 8 ∧ b ≠ 12 ∧ b ≠ 10 ∧ b ≠ 13 ∧ b ≠ 9 := by
    refine ⟨?_,?_,?_,?_,?_⟩ <;> rintro rfl <;> exact control (by decide)
  simp [escapeByte,quote,slash,control,named]

/-- A short escape is a backslash and the letter that stands for the byte. -/
theorem escapeByte_escaped {b : UInt8} (special : b = 34 ∨ b = 92 ∨ b < 32) :
    (∃ c, escapeByte b = [92,c] ∧ c ≠ 117 ∧ unescape c = some b) ∨
      (b < 32 ∧ escapeByte b = [92,117,48,48,hexDigit (b.toNat / 16),hexDigit (b.toNat % 16)]) := by
  by_cases short : b = 34 ∨ b = 92 ∨ b = 8 ∨ b = 12 ∨ b = 10 ∨ b = 13 ∨ b = 9
  · left
    rcases short with rfl | rfl | rfl | rfl | rfl | rfl | rfl <;> exact ⟨_,rfl,by decide,rfl⟩
  · simp only [not_or] at short
    obtain ⟨h1,h2,h3,h4,h5,h6,h7⟩ := short
    have control : b < 32 := by simpa [h1,h2] using special
    right
    exact ⟨control,by simp [escapeByte,h1,h2,h3,h4,h5,h6,h7,control]⟩

/-- Reading one written byte: the escape is undone, and the UTF-8 machine moves on the byte itself. -/
theorem readString_escapeByte (q : Utf8) (tail : q.owed = 0 ∨ 0x80 ≤ q.low) (b : UInt8) (text : Bytes) :
    readString q (escapeByte b ++ text) = (q.step b).bind fun q =>
      (readString q text).map fun (s,after) => (b :: s,after) := by
  by_cases special : b = 34 ∨ b = 92 ∨ b < 32
  · have small : b < 0x80 := by
      rcases special with rfl | rfl | control
      · decide
      · decide
      · exact UInt8.lt_trans control (by decide)
    rw [Utf8.step_ascii q tail b small]
    have stuck : q.owed ≠ 0 → q.step 92 = none := fun inside => by
      rw [Utf8.step_ascii q tail 92 (by decide),if_neg inside]
    rcases escapeByte_escaped special with ⟨c,written,letter,meaning⟩ | ⟨control,written⟩
    · by_cases between : q.owed = 0
      · rw [written,List.cons_append,readString.eq_def]
        simp [between,letter,meaning]
      · rw [written,List.cons_append,readString.eq_def]
        simp [between,stuck between]
    · by_cases between : q.owed = 0
      · have point : encodePoint b.toNat = [b] := by
          have := UInt8.lt_iff_toNat_lt.mp small
          simp [encodePoint,show b.toNat < 0x80 from this]
        have bound : b.toNat < 32 := UInt8.lt_iff_toNat_lt.mp control
        have low : ¬ (0xD800 ≤ b.toNat ∧ b.toNat < 0xDC00) := by omega
        have high : ¬ (0xDC00 ≤ b.toNat ∧ b.toNat < 0xE000) := by omega
        rw [written,List.cons_append,readString.eq_def]
        simp [between,hex4_control b.toNat bound,point,low,high]
      · rw [written,List.cons_append,readString.eq_def]
        simp [between,stuck between]
  · simp only [not_or] at special
    obtain ⟨quote,slash,control⟩ := special
    rw [escapeByte_plain quote slash control,List.singleton_append,readString.eq_def]
    simp only [quote,slash,control,and_false,if_false]
    cases q.step b <;> rfl

/-- A written string is read back if and only if it is UTF-8. -/
theorem readString_escape (q : Utf8) (tail : q.owed = 0 ∨ 0x80 ≤ q.low) (s rest : Bytes) :
    readString q (escape s ++ 34 :: rest) = if q.accepts s then some (s,rest) else none := by
  induction s generalizing q with
  | nil =>
    have closes := Utf8.step_ascii q tail 34 (by decide)
    by_cases between : q.owed = 0
    · simp [escape,readString.eq_def q (34 :: rest),Utf8.accepts,between]
    · simp [escape,readString.eq_def q (34 :: rest),Utf8.accepts,between,closes]
  | cons b s ih =>
    have text : escape (b :: s) ++ 34 :: rest = escapeByte b ++ (escape s ++ 34 :: rest) := by
      simp [escape]
    rw [text,readString_escapeByte q tail]
    cases moved : q.step b with
    | none => simp [Utf8.accepts,moved]
    | some next =>
      simp only [Option.bind_some,ih next (.inr (Utf8.step_tail moved)),Utf8.accepts,moved]
      split <;> rfl

/-- What follows a value inside a text the serializer wrote. -/
def Ends (rest : Bytes) : Prop := ∀ b ∈ rest.head?, b = 44 ∨ b = 93 ∨ b = 125

theorem ends_nil : Ends [] := by simp [Ends]

theorem readDigits_append {digits rest : Bytes} (nonempty : digits ≠ [])
    (all : ∀ b ∈ digits, isDigit b = true) (ends : Ends rest) :
    readDigits (digits ++ rest) = some (digits,rest) := by
  have stop : rest.takeWhile isDigit = [] ∧ rest.dropWhile isDigit = rest := by
    cases rest with
    | nil => simp
    | cons b rest =>
      have : isDigit b = false := by rcases ends b rfl with rfl | rfl | rfl <;> rfl
      simp [this]
  unfold readDigits
  rw [List.takeWhile_append_of_pos all,List.dropWhile_append_of_pos all,stop.1,stop.2,List.append_nil]
  cases digits with
  | nil => contradiction
  | cons => rfl

theorem readFraction_ends (ends : Ends rest) : readFraction rest = some ([],rest) := by
  cases rest with
  | nil => rfl
  | cons b rest => rcases ends b rfl with rfl | rfl | rfl <;> rfl

theorem readExponent_ends (ends : Ends rest) : readExponent rest = some ([],rest) := by
  cases rest with
  | nil => rfl
  | cons b rest => rcases ends b rfl with rfl | rfl | rfl <;> rfl

theorem decimal_head_digit (n : Nat) (rest : Bytes) :
    ∃ b tail, decimal n ++ rest = b :: tail ∧ isDigit b = true := by
  cases numeral : decimal n with
  | nil => exact absurd numeral (decimal_ne_nil n)
  | cons b tail =>
    exact ⟨b,tail ++ rest,rfl,decimal_digits n b (by simp [numeral])⟩

theorem isDigit_ne_minus {b : UInt8} (digit : isDigit b = true) : b ≠ 45 := by
  rintro rfl
  exact absurd digit (by decide)

theorem readUnsigned_decimal (negative : Bool) (n : Nat) (ends : Ends rest) :
    readUnsigned negative (decimal n ++ rest) = some (integer negative (decimal n),rest) := by
  have digits := readDigits_append (decimal_ne_nil n) (decimal_digits n) ends
  have leading : ¬ ((decimal n).head? = some 48 ∧ (decimal n).tail ≠ []) := by
    rintro ⟨zero,more⟩
    cases numeral : decimal n with
    | nil => simp [numeral] at zero
    | cons b tail =>
      simp only [numeral,List.head?_cons,Option.some.injEq,List.tail_cons] at zero more
      exact more (decimal_head n tail (by rw [numeral,zero]))
  simp [readUnsigned,digits,leading,readFraction_ends ends,readExponent_ends ends]

theorem readNumber_int {i : Int} (low : -2^63 ≤ i) (high : i < 2^64) (ends : Ends rest) :
    readNumber (serializeInt i ++ rest) = some (.int i,rest) := by
  unfold serializeInt
  by_cases negative : i < 0
  · rw [if_pos negative,List.cons_append,readNumber,if_pos rfl,readUnsigned_decimal true _ ends]
    have bound : i.natAbs ≤ 2^63 := by omega
    have same : -(i.natAbs : Int) = i := by omega
    rw [integer,if_pos rfl,value_decimal,if_pos bound,same]
  · rw [if_neg negative]
    have bound : i.natAbs < 2^64 := by omega
    have same : (i.natAbs : Int) = i := by omega
    have unsigned := readUnsigned_decimal false i.natAbs ends
    obtain ⟨b,tail,text,digit⟩ := decimal_head_digit i.natAbs rest
    rw [text] at unsigned ⊢
    rw [readNumber,if_neg (isDigit_ne_minus digit),unsigned,integer,if_neg (by simp),value_decimal,
      if_pos bound,same]

/-- Items after the first one, each behind a comma, and the closing byte. -/
def separated (write : α → Bytes) (close : UInt8) : List α → Bytes
  | [] => [close]
  | x :: xs => 44 :: (write x ++ separated write close xs)

def writeField (field : Bytes × Json) : Bytes := quote field.1 ++ 58 :: serialize field.2

theorem serializeItems_eq (items : List Json) : serializeItems items = separated serialize 93 items := by
  induction items with
  | nil => rfl
  | cons item items ih => simp [serializeItems,separated,ih]

theorem serializeFields_eq (fields : List (Bytes × Json)) :
    serializeFields fields = separated writeField 125 fields := by
  induction fields with
  | nil => rfl
  | cons field fields ih => simp [serializeFields,separated,writeField,ih]

theorem isTextItems_eq (items : List Json) : isTextItems items = items.all isText := by
  induction items with
  | nil => rfl
  | cons item items ih => simp [isTextItems,ih]

theorem isTextFields_eq (fields : List (Bytes × Json)) :
    isTextFields fields = fields.all fun field => isUtf8 field.1 && field.2.isText := by
  induction fields with
  | nil => rfl
  | cons field fields ih => simp [isTextFields,ih]

def opens (b : UInt8) : Prop := isSpace b = false ∧ b ≠ 93 ∧ b ≠ 125

theorem skipSpace_cons (visible : isSpace b = false) (text : Bytes) :
    skipSpace (b :: text) = b :: text := by
  simp [skipSpace,visible]

theorem ends_skipSpace (ends : Ends rest) : skipSpace rest = rest := by
  cases rest with
  | nil => rfl
  | cons b rest => exact skipSpace_cons (by rcases ends b rfl with rfl | rfl | rfl <;> rfl) rest

theorem isDigit_opens {b : UInt8} (digit : isDigit b = true) :
    opens b ∧ b ≠ 34 ∧ b ≠ 91 ∧ b ≠ 123 ∧ b ≠ 110 ∧ b ≠ 116 ∧ b ≠ 102 := by
  have no : ∀ c : UInt8, isDigit c = false → b ≠ c := by
    rintro c other rfl
    rw [digit] at other
    contradiction
  refine ⟨⟨?_,no _ rfl,no _ rfl⟩,no _ rfl,no _ rfl,no _ rfl,no _ rfl,no _ rfl,no _ rfl⟩
  simp [isSpace,no 32 rfl,no 9 rfl,no 10 rfl,no 13 rfl]

theorem serializeInt_head (i : Int) (rest : Bytes) : ∃ b tail, serializeInt i ++ rest = b :: tail ∧
    opens b ∧ b ≠ 34 ∧ b ≠ 91 ∧ b ≠ 123 ∧ b ≠ 110 ∧ b ≠ 116 ∧ b ≠ 102 := by
  unfold serializeInt
  split
  · exact ⟨45,decimal i.natAbs ++ rest,rfl,by simp [opens,isSpace]⟩
  · obtain ⟨b,tail,text,digit⟩ := decimal_head_digit i.natAbs rest
    exact ⟨b,tail,text,isDigit_opens digit⟩

theorem serialize_head (v : Json) (depth : Nat) (inside : v.fits depth = true) (rest : Bytes) :
    ∃ b tail, serialize v ++ rest = b :: tail ∧ opens b := by
  cases v with
  | null => exact ⟨110,_,rfl,by simp [opens,isSpace]⟩
  | bool b => cases b with
    | false => exact ⟨102,_,rfl,by simp [opens,isSpace]⟩
    | true => exact ⟨116,_,rfl,by simp [opens,isSpace]⟩
  | int i =>
    obtain ⟨b,tail,text,visible,-⟩ := serializeInt_head i rest
    exact ⟨b,tail,by simpa [serialize] using text,visible⟩
  | double text => cases depth <;> simp [fits] at inside
  | str s => exact ⟨34,_,rfl,by simp [opens,isSpace]⟩
  | arr items => cases items <;> exact ⟨91,_,rfl,by simp [opens,isSpace]⟩
  | obj fields => cases fields <;> exact ⟨123,_,rfl,by simp [opens,isSpace]⟩

section Sequence

variable {item : Bytes → Option (α × Bytes)} {write : α → Bytes} {ok : α → Bool} {close : UInt8}

theorem ends_separated (closing : close = 93 ∨ close = 125) (xs : List α) (rest : Bytes) :
    Ends (separated write close xs ++ rest) := by
  cases xs <;> simp [Ends,separated,closing]

/-- Items that are each read back are read back as a list, and one that is refused refuses the list. -/
theorem readItems_separated (closing : close = 93 ∨ close = 125) (x : α) (xs : List α)
    (reads : ∀ y ∈ x :: xs, ∀ rest, Ends rest →
      item (write y ++ rest) = if ok y then some (y,rest) else none)
    (fuel : Nat) (enough : xs.length < fuel) (rest : Bytes) :
    readItems item close fuel (write x ++ (separated write close xs ++ rest)) =
      if (x :: xs).all ok then some (x :: xs,rest) else none := by
  induction xs generalizing x fuel with
  | nil =>
    obtain ⟨fuel,rfl⟩ := Nat.exists_eq_succ_of_ne_zero (Nat.ne_of_gt enough)
    rw [readItems,reads x List.mem_cons_self _ (ends_separated closing [] rest)]
    by_cases accepted : ok x = true
    · have : ¬ (close = 44) := by rcases closing with rfl | rfl <;> decide
      simp only [accepted,if_true,ends_skipSpace (ends_separated closing ([] : List α) rest)]
      simp [separated,this,accepted]
    · simp [accepted]
  | cons y ys ih =>
    obtain ⟨fuel,rfl⟩ := Nat.exists_eq_succ_of_ne_zero (Nat.ne_of_gt (Nat.lt_of_le_of_lt (Nat.zero_le _) enough))
    rw [readItems,reads x List.mem_cons_self _ (ends_separated closing (y :: ys) rest)]
    by_cases accepted : ok x = true
    · simp only [accepted,if_true,ends_skipSpace (ends_separated closing (y :: ys) rest)]
      have more := ih y (fun z member => reads z (List.mem_cons_of_mem _ member)) fuel
        (by simpa using enough)
      simp only [separated,List.cons_append,List.append_assoc,if_true,more]
      rw [List.all_cons (a := x),accepted,Bool.true_and]
      split <;> rfl
    · simp [accepted]

theorem separated_length (write : α → Bytes) (close : UInt8) (xs : List α) :
    xs.length < (separated write close xs).length := by
  induction xs with
  | nil => simp [separated]
  | cons x xs ih => simp only [separated,List.length_cons,List.length_append]; omega

theorem readSequence_separated (closing : close = 93 ∨ close = 125) (x : α) (xs : List α)
    (reads : ∀ y ∈ x :: xs, ∀ rest, Ends rest →
      item (write y ++ rest) = if ok y then some (y,rest) else none)
    (starts : ∀ rest, ∃ b tail, write x ++ rest = b :: tail ∧ opens b) (rest : Bytes) :
    readSequence item close (write x ++ (separated write close xs ++ rest)) =
      if (x :: xs).all ok then some (x :: xs,rest) else none := by
  have long : xs.length < (write x ++ (separated write close xs ++ rest)).length := by
    have := separated_length write close xs
    simp only [List.length_append]
    omega
  have items := readItems_separated closing x xs reads _ long rest
  obtain ⟨b,tail,text,visible,array,object⟩ := starts (separated write close xs ++ rest)
  have other : ¬ b = close := by rcases closing with rfl | rfl <;> assumption
  rw [text] at items ⊢
  rw [readSequence,skipSpace_cons visible]
  simp only [if_neg other,items]

end Sequence

theorem quote_append (s rest : Bytes) : quote s ++ rest = 34 :: (escape s ++ 34 :: rest) := by
  simp [quote]

theorem readString_quote (s rest : Bytes) : readString Utf8.start (escape s ++ 34 :: rest) =
    if isUtf8 s then some (s,rest) else none :=
  readString_escape Utf8.start (.inl rfl) s rest

theorem readField_write {read : Bytes → Option (Json × Bytes)} (field : Bytes × Json) (rest : Bytes)
    (reads : read (serialize field.2 ++ rest) = if field.2.isText then some (field.2,rest) else none) :
    readField read (writeField field ++ rest) =
      if isUtf8 field.1 && field.2.isText then some (field,rest) else none := by
  have text : writeField field ++ rest =
      34 :: (escape field.1 ++ 34 :: (58 :: (serialize field.2 ++ rest))) := by
    simp [writeField,quote_append]
  rw [readField,text,skipSpace_cons rfl]
  simp only [if_true,readString_quote]
  by_cases key : isUtf8 field.1 = true
  · simp only [key,if_true,skipSpace_cons (b := 58) rfl,reads,Bool.true_and]
    split <;> rfl
  · simp [key]

/-- An array or object whose parts are read back. -/
theorem readValue_arr {depth : Nat} (items : List Json) (reads : ∀ v ∈ items, ∀ rest, Ends rest →
      readValue depth (serialize v ++ rest) = if v.isText then some (v,rest) else none)
    (inside : ∀ v ∈ items, v.fits depth = true) (rest : Bytes) :
    readValue (depth + 1) (serialize (.arr items) ++ rest) =
      if (Json.arr items).isText then some (.arr items,rest) else none := by
  cases items with
  | nil => rfl
  | cons item items =>
    have text : serialize (.arr (item :: items)) ++ rest =
        91 :: (serialize item ++ (separated serialize 93 items ++ rest)) := by
      simp [serialize,serializeItems_eq]
    have sequence := readSequence_separated (.inl rfl) item items reads
      (serialize_head item depth (inside item List.mem_cons_self)) rest
    rw [text,readValue,skipSpace_cons rfl]
    simp only [show ¬ (91 : UInt8) = 34 by decide,if_false,if_true,sequence,isText,isTextItems_eq]
    split <;> rfl

theorem readValue_obj {depth : Nat} (fields : List (Bytes × Json))
    (reads : ∀ field ∈ fields, ∀ rest, Ends rest → readValue depth (serialize field.2 ++ rest) =
      if field.2.isText then some (field.2,rest) else none) (rest : Bytes) :
    readValue (depth + 1) (serialize (.obj fields) ++ rest) =
      if (Json.obj fields).isText then some (.obj fields,rest) else none := by
  cases fields with
  | nil => rfl
  | cons field fields =>
    have text : serialize (.obj (field :: fields)) ++ rest =
        123 :: (writeField field ++ (separated writeField 125 fields ++ rest)) := by
      simp [serialize,writeField,serializeFields_eq]
    have starts : ∀ rest, ∃ b tail, writeField field ++ rest = b :: tail ∧ opens b := fun rest =>
      ⟨34,_,by rw [writeField,List.append_assoc,quote_append],by simp [opens,isSpace]⟩
    have sequence := readSequence_separated (.inr rfl) field fields
      (fun f member rest ends => readField_write f rest (reads f member rest ends)) starts rest
    rw [text,readValue,skipSpace_cons rfl]
    simp only [show ¬ (123 : UInt8) = 34 by decide,show ¬ (123 : UInt8) = 91 by decide,if_false,if_true,
      sequence,isText,isTextFields_eq]
    split <;> rfl

theorem readValue_leaf (depth : Nat) (v : Json) (inside : v.fits depth = true)
    (array : ∀ items, v ≠ .arr items) (object : ∀ fields, v ≠ .obj fields) (rest : Bytes) (ends : Ends rest) :
    readValue depth (serialize v ++ rest) = if v.isText then some (v,rest) else none := by
  cases v with
  | null => cases depth <;> rfl
  | bool b => cases depth <;> cases b <;> rfl
  | int i =>
    have range : -2^63 ≤ i ∧ i < 2^64 := by simpa [fits] using inside
    obtain ⟨b,tail,text,visible,h1,h2,h3,h4,h5,h6⟩ := serializeInt_head i rest
    have number := readNumber_int range.1 range.2 ends
    rw [text] at number
    rw [serialize,readValue.eq_def,text,skipSpace_cons visible.1]
    simp [h1,h2,h3,h4,h5,h6,number,isText]
  | double text => simp [fits] at inside
  | str s =>
    rw [serialize,readValue.eq_def,quote_append,skipSpace_cons rfl]
    simp only [if_true,readString_quote,isText]
    by_cases text : isUtf8 s = true <;> simp [text]
  | arr items => exact absurd rfl (array items)
  | obj fields => exact absurd rfl (object fields)

/-- Reading what was written gives the value back exactly when its strings are UTF-8. -/
theorem readValue_serialize (depth : Nat) (v : Json) (inside : v.fits depth = true) (rest : Bytes) (ends : Ends rest) :
    readValue depth (serialize v ++ rest) = if v.isText then some (v,rest) else none := by
  induction depth generalizing v rest with
  | zero =>
    refine readValue_leaf 0 v inside ?_ ?_ rest ends
    · rintro items rfl; simp [fits] at inside
    · rintro fields rfl; simp [fits] at inside
  | succ depth ih =>
    by_cases array : ∃ items, v = .arr items
    · obtain ⟨items,rfl⟩ := array
      have parts : ∀ v ∈ items, v.fits depth = true := by simpa [fits] using inside
      exact readValue_arr items (fun v member rest ends => ih v (parts v member) rest ends) parts rest
    by_cases object : ∃ fields, v = .obj fields
    · obtain ⟨fields,rfl⟩ := object
      have parts : ∀ field ∈ fields, field.2.fits depth = true := by
        simpa only [fits,List.all_eq_true] using inside
      exact readValue_obj fields (fun f member rest ends => ih f.2 (parts f member) rest ends) rest
    · exact readValue_leaf (depth + 1) v inside (not_exists.mp array) (not_exists.mp object) rest ends

theorem parse_serialize (v : Json) (inside : v.fits maxDepth = true) :
    parse (serialize v) = if v.isText then some v else none := by
  have read := readValue_serialize maxDepth v inside [] ends_nil
  rw [List.append_nil] at read
  rw [parse,read]
  cases v.isText <;> rfl

theorem hex4_lt {a b c d : UInt8} {n : Nat} (read : hex4 a b c d = some n) : n < 65536 := by
  unfold hex4 at read
  simp only [Option.bind_eq_bind,Option.bind_eq_some_iff,Option.pure_def,Option.some.injEq] at read
  obtain ⟨a,ha,b,hb,c,hc,d,hd,rfl⟩ := read
  have := hexValue_lt ha
  have := hexValue_lt hb
  have := hexValue_lt hc
  have := hexValue_lt hd
  omega

/-- The UTF-8 form of a code point is one whole character. -/
theorem accepts_encodePoint (point : Nat) (bound : point < 0x110000)
    (scalar : ¬ (0xD800 ≤ point ∧ point < 0xE000)) (s : Bytes) :
    Utf8.start.accepts (encodePoint point ++ s) = Utf8.start.accepts s := by
  unfold encodePoint
  split
  · exact Utf8.accepts_cons (by rw [Utf8.step_lead _ (by omega),if_pos (by omega)]) s
  split
  · simp only [List.cons_append,List.nil_append]
    rw [Utf8.accepts_cons (by rw [Utf8.step_lead _ (by omega),if_neg (by omega),if_pos (by omega)])]
    exact Utf8.accepts_tail1 _ _ _ ⟨by simp,by simp; omega⟩ (by omega) s
  split
  · simp only [List.cons_append,List.nil_append]
    by_cases first : point < 0x1000
    · rw [Utf8.accepts_cons (by
        rw [Utf8.step_lead _ (by omega),if_neg (by omega),if_neg (by omega),if_pos (by omega)])]
      exact Utf8.accepts_tail2 _ _ _ _ ⟨by simp; omega,by simp; omega⟩ (by omega) (by omega) s
    by_cases before : 0xD000 ≤ point ∧ point < 0xD800
    · rw [Utf8.accepts_cons (by
        rw [Utf8.step_lead _ (by omega),if_neg (by omega),if_neg (by omega),if_neg (by omega),
          if_pos (by omega)])]
      exact Utf8.accepts_tail2 _ _ _ _ ⟨by simp,by simp; omega⟩ (by omega) (by omega) s
    · rw [Utf8.accepts_cons (by
        rw [Utf8.step_lead _ (by omega),if_neg (by omega),if_neg (by omega),if_neg (by omega),
          if_neg (by omega),if_pos (by omega)])]
      exact Utf8.accepts_tail2 _ _ _ _ ⟨by simp,by simp; omega⟩ (by omega) (by omega) s
  · simp only [List.cons_append,List.nil_append]
    by_cases first : point < 0x40000
    · rw [Utf8.accepts_cons (by
        rw [Utf8.step_lead _ (by omega),if_neg (by omega),if_neg (by omega),if_neg (by omega),
          if_neg (by omega),if_neg (by omega),if_pos (by omega)])]
      exact Utf8.accepts_tail3 _ _ _ _ _ ⟨by simp; omega,by simp; omega⟩ (by omega) (by omega) (by omega) s
    by_cases last : 0x100000 ≤ point
    · rw [Utf8.accepts_cons (by
        rw [Utf8.step_lead _ (by omega),if_neg (by omega),if_neg (by omega),if_neg (by omega),
          if_neg (by omega),if_neg (by omega),if_neg (by omega),if_pos (by omega)])]
      exact Utf8.accepts_tail3 _ _ _ _ _ ⟨by simp,by simp; omega⟩ (by omega) (by omega) (by omega) s
    · rw [Utf8.accepts_cons (by
        rw [Utf8.step_lead _ (by omega),if_neg (by omega),if_neg (by omega),if_neg (by omega),
          if_neg (by omega),if_neg (by omega),if_neg (by omega),if_neg (by omega),if_pos (by omega)])]
      exact Utf8.accepts_tail3 _ _ _ _ _ ⟨by simp,by simp; omega⟩ (by omega) (by omega) (by omega) s

theorem unescape_ascii {c d : UInt8} (known : unescape c = some d) : d < 0x80 := by
  unfold unescape at known
  repeat' (split at known)
  all_goals first
    | contradiction
    | (cases known; decide)
    | (cases known; rename_i h; rcases h with rfl | rfl | rfl <;> decide)

theorem accepts_ascii {b : UInt8} (small : b < 0x80) (q : Utf8) (between : q.owed = 0) (s : Bytes) :
    q.accepts (b :: s) = Utf8.start.accepts s :=
  Utf8.accepts_cons (by rw [Utf8.step_ascii q (.inl between) b small,if_pos between]) s

/-- Between characters the machine is in its first state as far as it can be seen. -/
theorem accepts_between (q : Utf8) (between : q.owed = 0) (s : Bytes) :
    q.accepts s = Utf8.start.accepts s := by
  cases s with
  | nil => simp [Utf8.accepts,between,Utf8.start]
  | cons b s => simp [Utf8.accepts,Utf8.step,between,Utf8.start]

theorem readString_text (q : Utf8) (text s after : Bytes)
    (read : readString q text = some (s,after)) : q.accepts s = true := by
  fun_induction readString q text generalizing s after with
  | case2 q b rest closes =>
    obtain ⟨rfl,rfl⟩ := Prod.mk.inj (Option.some.inj read)
    simp [Utf8.accepts,closes.1]
  | case6 q b _ between h1 h2 h3 h4 high highRead highRange e u l1 l2 l3 l4 rest low lowRead pair ih =>
    obtain ⟨⟨s,after⟩,inner,same⟩ := Option.map_eq_some_iff.mp read
    obtain ⟨rfl,rfl⟩ := Prod.mk.inj same
    rw [accepts_between q between.1,accepts_encodePoint _ (by omega) (by omega)]
    exact ih s after inner
  | case10 q b _ between h1 h2 h3 h4 rest unit unitRead notHigh notLow ih =>
    obtain ⟨⟨s,after⟩,inner,same⟩ := Option.map_eq_some_iff.mp read
    obtain ⟨rfl,rfl⟩ := Prod.mk.inj same
    have := hex4_lt unitRead
    rw [accepts_between q between.1,accepts_encodePoint _ (by omega) (by omega)]
    exact ih s after inner
  | case12 q b _ between c rest _ d known ih =>
    obtain ⟨⟨s,after⟩,inner,same⟩ := Option.map_eq_some_iff.mp read
    obtain ⟨rfl,rfl⟩ := Prod.mk.inj same
    rw [accepts_ascii (unescape_ascii known) q between.1]
    exact ih s after inner
  | case15 q b rest _ _ _ next stepped ih =>
    obtain ⟨⟨s,after⟩,inner,same⟩ := Option.map_eq_some_iff.mp read
    obtain ⟨rfl,rfl⟩ := Prod.mk.inj same
    rw [Utf8.accepts_cons stepped]
    exact ih s after inner
  | _ => contradiction

section Sound

variable {item : Bytes → Option (α × Bytes)} {ok : α → Bool}

theorem readItems_sound (sound : ∀ text x after, item text = some (x,after) → ok x = true)
    (close : UInt8) (fuel : Nat) (text : Bytes) (xs : List α) (after : Bytes)
    (read : readItems item close fuel text = some (xs,after)) : xs.all ok = true := by
  fun_induction readItems item close fuel text generalizing xs after with
  | case4 fuel text x rest itemRead rest _ ih =>
    obtain ⟨⟨xs,after⟩,inner,same⟩ := Option.map_eq_some_iff.mp read
    cases same
    rw [List.all_cons,sound _ _ _ itemRead,ih xs after inner,Bool.and_self]
  | case5 fuel text x rest itemRead rest _ =>
    cases read
    simp [sound _ _ _ itemRead]
  | _ => contradiction

theorem readSequence_sound (sound : ∀ text x after, item text = some (x,after) → ok x = true)
    (close : UInt8) (text : Bytes) (xs : List α) (after : Bytes)
    (read : readSequence item close text = some (xs,after)) : xs.all ok = true := by
  unfold readSequence at read
  split at read
  · contradiction
  · split at read
    · cases read
      rfl
    · exact readItems_sound sound close _ _ xs after read

end Sound

theorem readField_sound {read : Bytes → Option (Json × Bytes)}
    (sound : ∀ text v after, read text = some (v,after) → v.isText = true)
    (text : Bytes) (field : Bytes × Json) (after : Bytes) (result : readField read text = some (field,after)) :
    (isUtf8 field.1 && field.2.isText) = true := by
  unfold readField at result
  split at result
  · contradiction
  split at result
  · split at result
    · contradiction
    · rename_i key rest keyRead
      split at result
      · contradiction
      · split at result
        · obtain ⟨⟨v,after⟩,inner,same⟩ := Option.map_eq_some_iff.mp result
          cases same
          simp [sound _ _ _ inner,isUtf8,readString_text _ _ _ _ keyRead]
        · contradiction
  · contradiction

theorem readUnsigned_isText (negative : Bool) (text : Bytes) (v : Json) (after : Bytes)
    (read : readUnsigned negative text = some (v,after)) : v.isText = true := by
  unfold readUnsigned integer at read
  repeat' (split at read)
  all_goals first
    | contradiction
    | (obtain ⟨rfl,rfl⟩ := Prod.mk.inj (Option.some.inj read); rfl)

theorem readLiteral_isText (literal : Bytes) (v : Json) (text : Bytes) (w : Json) (after : Bytes)
    (constant : v.isText = true) (read : readLiteral literal v text = some (w,after)) :
    w.isText = true := by
  unfold readLiteral at read
  split at read
  · cases read
    exact constant
  · contradiction

theorem readNumber_isText (text : Bytes) (v : Json) (after : Bytes)
    (read : readNumber text = some (v,after)) : v.isText = true := by
  unfold readNumber at read
  split at read
  · contradiction
  · split at read <;> exact readUnsigned_isText _ _ v after read

/-- Every string of a value that was read is UTF-8. -/
theorem readValue_isText (depth : Nat) (text : Bytes) (v : Json) (after : Bytes)
    (read : readValue depth text = some (v,after)) : v.isText = true := by
  induction depth generalizing text v after with
  | zero | succ depth ih =>
    rw [readValue.eq_def] at read
    split at read
    · contradiction
    split at read
    · obtain ⟨⟨s,after⟩,inner,same⟩ := Option.map_eq_some_iff.mp read
      cases same
      exact readString_text Utf8.start _ s after inner
    split at read
    · first
      | contradiction
      | obtain ⟨⟨xs,after⟩,inner,same⟩ := Option.map_eq_some_iff.mp read
        cases same
        rw [isText,isTextItems_eq]
        exact readSequence_sound ih _ _ xs after inner
    split at read
    · first
      | contradiction
      | obtain ⟨⟨xs,after⟩,inner,same⟩ := Option.map_eq_some_iff.mp read
        cases same
        rw [isText,isTextFields_eq]
        exact readSequence_sound (readField_sound ih) _ _ xs after inner
    repeat' (split at read)
    all_goals first
      | exact readLiteral_isText _ _ _ v after rfl read
      | exact readNumber_isText _ v after read

theorem parse_isText (text : Bytes) (v : Json) (parsed : parse text = some v) : v.isText = true := by
  unfold parse at parsed
  split at parsed
  · rename_i w rest read
    split at parsed
    · obtain rfl := Option.some.inj parsed
      exact readValue_isText maxDepth text w rest read
    · contradiction
  · contradiction

theorem member_isText (key : Bytes) (fields : List (Bytes × Json)) (v : Json)
    (text : (Json.obj fields).isText = true) (found : member key fields = some v) :
    v.isText = true := by
  induction fields with
  | nil => contradiction
  | cons field fields ih =>
    simp only [isText,isTextFields,Bool.and_eq_true] at text
    rw [member.eq_def] at found
    cases later : member key fields with
    | some w =>
      simp only [later,Option.some.injEq] at found
      exact found ▸ ih text.2 (found ▸ later)
    | none =>
      simp only [later,Option.ite_none_right_eq_some,Option.some.injEq] at found
      exact found.2 ▸ text.1.2

end Json

/-- What is assumed of Boost.JSON: values within its limits are read back as they were written if their strings are
UTF-8, what it reads is UTF-8, and an object is not written as nothing. -/
class BoostJson where
  serialize : Json → Bytes
  parse : Bytes → Option Json
  parse_serialize : ∀ v : Json, v.fits Json.maxDepth = true → parse (serialize v) = if v.isText then some v else none
  parse_isText : ∀ text v, parse text = some v → v.isText = true
  serialize_ne_nil : ∀ fields, serialize (.obj fields) ≠ []

/-- The reader and writer above, for concrete runs. -/
instance Json.codec : BoostJson where
  serialize := serialize
  parse := parse
  parse_serialize := parse_serialize
  parse_isText := parse_isText
  serialize_ne_nil fields := by
    cases fields with
    | nil => simp [serialize]
    | cons field fields => simp [serialize]
