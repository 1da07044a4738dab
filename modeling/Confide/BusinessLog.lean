import Confide.Machine
import Confide.RawJson

/-! The business log: one line of JSON for each event, and the timestamp that the reader finds in a line. -/
namespace Confide

open Bytes Json

def jsonEscapeByte (c : UInt8) : Bytes :=
  if c = 34 then [92,34]
  else if c = 92 then [92,92]
  else if c = 10 then [92,110]
  else if c = 13 then [92,114]
  else if c = 9 then [92,116]
  else if c < 0x20 then [92,117,48,48,hexDigit (c.toNat / 16),hexDigit (c.toNat % 16)]
  else [c]

def jsonEscape (s : Bytes) : Bytes := s.flatMap jsonEscapeByte

/-- The pieces of a JSON object after its first fields. -/
structure JsonLine where
  out : Bytes

namespace JsonLine

def empty : JsonLine := ⟨[]⟩

def piece (line : JsonLine) (key value : Bytes) : JsonLine :=
  ⟨line.out ++ (ascii ",\"" ++ key ++ ascii "\":" ++ value)⟩

def quoted (value : Bytes) : Bytes := ascii "\"" ++ jsonEscape value ++ ascii "\""

/-- An empty string is left out. -/
def str (line : JsonLine) (key value : Bytes) : JsonLine := if value = [] then line else line.piece key (quoted value)

def opt (line : JsonLine) (key : Bytes) : Option Bytes → JsonLine
  | some value => line.piece key (quoted value)
  | none => line

def num (line : JsonLine) (key : Bytes) : Option Int → JsonLine
  | some value => line.piece key (decimalInt value)
  | none => line

def finish (line : JsonLine) (head : Bytes) : Bytes := head ++ line.out ++ ascii "\x7d"

end JsonLine

def BizEventType.toString : BizEventType → Bytes
  | .txCreated => ascii "tx_created"
  | .fileAdded => ascii "file_added"
  | .fileRemoved => ascii "file_removed"
  | .committed => ascii "committed"
  | .forwarded => ascii "forwarded"
  | .received => ascii "received"
  | .downloaded => ascii "downloaded"
  | .expired => ascii "expired"
  | .adminDeleted => ascii "admin_deleted"
  | .retentionChanged => ascii "retention_changed"
  | .sessionsRevoked => ascii "sessions_revoked"

namespace BusinessLog

def schemaVersion : Int := 1

/-- The optional fields in their fixed order. -/
def pieces (e : BizEvent) : JsonLine :=
  let line := JsonLine.empty
  let line := match e.tx with
    | some tx => line.str (ascii "tx") tx.value
    | none => line
  let line := line.str (ascii "actor") e.actor
  let line := line.str (ascii "user") e.subject
  let line := line.str (ascii "from") e.fromUser
  let line := line.str (ascii "to") e.toUser
  let line := line.str (ascii "server") e.toServer
  let line := line.opt (ascii "file") e.file
  let line := line.num (ascii "size") (e.size.map fun n => n.toNat)
  let line := line.opt (ascii "sha256") e.sha256
  let line := line.num (ascii "files") (e.fileCount.map fun n => n.toNat)
  let line := line.num (ascii "bytes") (e.totalBytes.map fun n => n.toNat)
  line.num (ascii "days") e.retentionDays

def format (e : BizEvent) (ts : Int) : Bytes :=
  (pieces e).finish (ascii "\x7b\"v\":" ++ decimalInt schemaVersion ++ ascii ",\"ts\":\"" ++ formatIso8601 ts ++
    ascii "\",\"event\":\"" ++ e.type.toString ++ ascii "\"")

end BusinessLog

/-- What follows the first occurrence of a text in a line. -/
def after (pattern : Bytes) : Bytes → Option Bytes
  | [] => if pattern = [] then some [] else none
  | b :: line => if pattern.isPrefixOf (b :: line) then some ((b :: line).drop pattern.length) else after pattern line

def timestampOf (line : Bytes) : Option Int :=
  match after (ascii "\"ts\":\"") line with
  | none => none
  | some value =>
    if value.contains 34 then (parseIso8601 (value.takeWhile (· ≠ 34))).toOption else none

namespace BusinessLog

def strField (key value : Bytes) : List (Bytes × Json) := if value = [] then [] else [(key,.str value)]

def optField (key : Bytes) (value : Option Bytes) : List (Bytes × Json) := (value.map fun s => (key,Json.str s)).toList

def numField (key : Bytes) (value : Option Int) : List (Bytes × Json) := (value.map fun n => (key,Json.int n)).toList

/-- The fields of an event that are set, each with its value. -/
def setFields (e : BizEvent) : List (Bytes × Json) :=
  optField (ascii "tx") (e.tx.map (·.value)) ++ strField (ascii "actor") e.actor ++ strField (ascii "user") e.subject ++
    strField (ascii "from") e.fromUser ++ strField (ascii "to") e.toUser ++ strField (ascii "server") e.toServer ++
    optField (ascii "file") e.file ++ numField (ascii "size") (e.size.map fun n => n.toNat) ++
    optField (ascii "sha256") e.sha256 ++ numField (ascii "files") (e.fileCount.map fun n => n.toNat) ++
    numField (ascii "bytes") (e.totalBytes.map fun n => n.toNat) ++ numField (ascii "days") e.retentionDays

def lineFields (e : BizEvent) (ts : Int) : List (Bytes × Json) :=
  (ascii "v",.int schemaVersion) :: (ascii "ts",.str (formatIso8601 ts)) :: (ascii "event",.str e.type.toString) :: setFields e

def InRange (e : BizEvent) : Prop := ∀ days ∈ e.retentionDays, -2 ^ 31 ≤ days ∧ days < 2 ^ 31

end BusinessLog

theorem jsonEscapeByte_escapes : Raw.Escapes jsonEscapeByte := by
  intro b
  by_cases special : b = 34 ∨ b = 92 ∨ b < 32
  · right
    by_cases short : b = 34 ∨ b = 92 ∨ b = 10 ∨ b = 13 ∨ b = 9
    · rcases short with rfl | rfl | rfl | rfl | rfl
      all_goals exact ⟨[_],rfl,fun _ => rfl⟩
    · simp only [not_or] at short
      obtain ⟨h1,h2,h3,h4,h5⟩ := short
      have control : b < 32 := by simpa [h1,h2] using special
      have bound : b.toNat < 32 := UInt8.lt_iff_toNat_lt.mp control
      have point : encodePoint b.toNat = [b] := by simp [encodePoint,show b.toNat < 0x80 by omega]
      have low : ¬ (0xD800 ≤ b.toNat ∧ b.toNat < 0xDC00) := by omega
      have high : ¬ (0xDC00 ≤ b.toNat ∧ b.toNat < 0xE000) := by omega
      refine ⟨[117,48,48,hexDigit (b.toNat / 16),hexDigit (b.toNat % 16)],?_,fun rest => ?_⟩
      · simp [jsonEscapeByte,h1,h2,h3,h4,h5,control]
      simp [Raw.readEscape,hex4_control b.toNat bound,point,low,high]
  · left
    simp only [not_or] at special
    obtain ⟨quote,slash,control⟩ := special
    have others : ∀ c : UInt8, c < 32 → b ≠ c := by
      rintro c small rfl
      exact control small
    refine ⟨?_,quote,slash,control⟩
    simp [jsonEscapeByte,quote,slash,control,others 10 (by decide),others 13 (by decide),others 9 (by decide)]

/-- No control character comes out of an escape. -/
theorem jsonEscapeByte_visible (b : UInt8) : ∀ c ∈ jsonEscapeByte b, 0x20 ≤ c := by
  intro c member
  exact of_decide_eq_true (forall_byte_mem (p := fun c => decide (0x20 ≤ c)) (by decide +kernel) b c member)

/-- The text has nothing to escape. -/
def Unescaped (s : Bytes) : Prop := jsonEscape s = s

instance (s : Bytes) : Decidable (Unescaped s) := inferInstanceAs (Decidable (_ = _))

theorem unescaped_of_forall {s : Bytes} (plain : ∀ b ∈ s, jsonEscapeByte b = [b]) : Unescaped s := by
  unfold Unescaped jsonEscape
  rw [List.flatMap_congr plain]
  exact List.flatMap_pure_eq_map id s |>.trans (List.map_id s)

theorem formatIso8601_bytes (t : Int) : ∀ b ∈ formatIso8601 t, isDigit b = true ∨ b ∈ [45,84,58,90] := by
  have year : ∀ y, ∀ b ∈ formatYear y, isDigit b = true ∨ b ∈ [45,84,58,90] := by
    intro y b member
    unfold formatYear at member
    split at member
    · rcases List.mem_cons.mp member with rfl | member
      · simp
      · exact .inl (padded_digits _ _ b member)
    · exact .inl (padded_digits _ _ b member)
  intro b member
  simp only [formatIso8601,List.mem_append,List.mem_cons,List.not_mem_nil,or_false] at member
  rcases member with h | rfl | h | rfl | h | rfl | h | rfl | h | rfl | h | rfl
  all_goals first | exact .inl (padded_digits _ _ b h) | exact year _ b h | simp

theorem formatIso8601_plain (t : Int) : ∀ b ∈ formatIso8601 t, jsonEscapeByte b = [b] ∧ b ≠ 34 := by
  have plain : ∀ b : UInt8, isDigit b = true ∨ b ∈ [45,84,58,90] → jsonEscapeByte b = [b] ∧ b ≠ 34 :=
    forall_byte (by decide +kernel)
  exact fun b member => plain b (formatIso8601_bytes t b member)

theorem BizEventType.toString_unescaped (type : BizEventType) : Unescaped type.toString := by
  cases type <;> decide +kernel

theorem TransactionId.value_ne_nil (id : TransactionId) : id.value ≠ [] := by
  intro empty
  have valid := id.valid
  rw [empty] at valid
  exact absurd valid (by decide)

namespace JsonLine

/-- A field behind a comma. -/
def commaField (field : Bytes × Json) : Bytes := 44 :: Raw.writeField jsonEscapeByte field

variable (line : JsonLine) {key : Bytes}

theorem piece_str (plain : Unescaped key) (value : Bytes) :
    (line.piece key (quoted value)).out = line.out ++ commaField (key,.str value) := by
  have same : key.flatMap jsonEscapeByte = key := plain
  simp [piece,quoted,commaField,Raw.writeField,Raw.writeString,Raw.writeLeaf,jsonEscape,ascii,same]

theorem piece_num (plain : Unescaped key) (value : Int) :
    (line.piece key (decimalInt value)).out = line.out ++ commaField (key,.int value) := by
  have same : key.flatMap jsonEscapeByte = key := plain
  have number : decimalInt value = serializeInt value := rfl
  simp [piece,commaField,Raw.writeField,Raw.writeString,Raw.writeLeaf,ascii,same,number]

theorem str_out (plain : Unescaped key) (value : Bytes) :
    (line.str key value).out = line.out ++ (BusinessLog.strField key value).flatMap commaField := by
  unfold str BusinessLog.strField
  split
  · simp
  · simp [line.piece_str plain]

theorem opt_out (plain : Unescaped key) (value : Option Bytes) :
    (line.opt key value).out = line.out ++ (BusinessLog.optField key value).flatMap commaField := by
  cases value with
  | none => simp [opt,BusinessLog.optField]
  | some value => simp [opt,BusinessLog.optField,line.piece_str plain]

theorem num_out (plain : Unescaped key) (value : Option Int) :
    (line.num key value).out = line.out ++ (BusinessLog.numField key value).flatMap commaField := by
  cases value with
  | none => simp [num,BusinessLog.numField]
  | some value => simp [num,BusinessLog.numField,line.piece_num plain]

end JsonLine

namespace BusinessLog

theorem pieces_out (e : BizEvent) : (pieces e).out = (setFields e).flatMap JsonLine.commaField := by
  have tx : ∀ line : JsonLine, (match e.tx with
      | some tx => line.str (ascii "tx") tx.value
      | none => line) = line.opt (ascii "tx") (e.tx.map (·.value)) := by
    intro line
    cases e.tx with
    | none => rfl
    | some tx => exact if_neg tx.value_ne_nil
  unfold pieces
  dsimp only
  rw [tx]
  rw [JsonLine.num_out _ (by decide +kernel),JsonLine.num_out _ (by decide +kernel),JsonLine.num_out _ (by decide +kernel),
    JsonLine.opt_out _ (by decide +kernel),JsonLine.num_out _ (by decide +kernel),JsonLine.opt_out _ (by decide +kernel),
    JsonLine.str_out _ (by decide +kernel),JsonLine.str_out _ (by decide +kernel),JsonLine.str_out _ (by decide +kernel),
    JsonLine.str_out _ (by decide +kernel),JsonLine.str_out _ (by decide +kernel),JsonLine.opt_out _ (by decide +kernel)]
  simp [setFields,JsonLine.empty]

theorem iso_unescaped (ts : Int) : (formatIso8601 ts).flatMap jsonEscapeByte = formatIso8601 ts :=
  unescaped_of_forall fun b member => (formatIso8601_plain ts b member).1

/-- The line is an object with the fields of the event, written one after the other. -/
theorem format_eq (e : BizEvent) (ts : Int) :
    format e ts = 123 :: (Raw.writeField jsonEscapeByte (ascii "v",.int schemaVersion) ++
      separated (Raw.writeField jsonEscapeByte) 125
        ((ascii "ts",.str (formatIso8601 ts)) :: (ascii "event",.str e.type.toString) :: setFields e)) := by
  have type : e.type.toString.flatMap jsonEscapeByte = e.type.toString := e.type.toString_unescaped
  have key : ∀ text ∈ [ascii "v",ascii "ts",ascii "event"], text.flatMap jsonEscapeByte = text := by decide +kernel
  have commas : (fun field => 44 :: Raw.writeField jsonEscapeByte field) = JsonLine.commaField := rfl
  rw [format,JsonLine.finish,pieces_out,Raw.separated_flatMap,commas,List.flatMap_cons,List.flatMap_cons]
  generalize (setFields e).flatMap JsonLine.commaField = rest
  simp only [JsonLine.commaField,Raw.writeField,Raw.writeString,Raw.writeLeaf,iso_unescaped,type,key (ascii "v") (by simp),
    key (ascii "ts") (by simp),key (ascii "event") (by simp)]
  simp [ascii,decimalInt,serializeInt]

/-- The start of a line, up to the timestamp. -/
theorem format_starts (e : BizEvent) (ts : Int) : ∃ tail, format e ts =
    ascii "\x7b\"v\":1,\"ts\":\"" ++ (formatIso8601 ts ++ 34 :: tail) := by
  refine ⟨ascii ",\"event\":\"" ++ e.type.toString ++ ascii "\"" ++ (pieces e).out ++ ascii "\x7d",?_⟩
  have version : decimalInt schemaVersion = ascii "1" := by decide +kernel
  rw [format,JsonLine.finish,version]
  simp [ascii]

theorem setFields_leaf (e : BizEvent) (range : InRange e) : ∀ field ∈ setFields e, Raw.isLeaf field.2 = true := by
  have str : ∀ key value, ∀ field ∈ strField key value, Raw.isLeaf field.2 = true := by
    intro key value field member
    unfold strField at member
    split at member
    · contradiction
    · rw [List.mem_singleton.mp member]
      rfl
  have opt : ∀ key value, ∀ field ∈ optField key value, Raw.isLeaf field.2 = true := by
    intro key value field member
    obtain ⟨s,_,rfl⟩ := Option.map_eq_some_iff.mp (Option.mem_toList.mp member)
    rfl
  have num : ∀ key (value : Option Int), (∀ n ∈ value, -2 ^ 63 ≤ n ∧ n < 2 ^ 64) →
      ∀ field ∈ numField key value, Raw.isLeaf field.2 = true := by
    intro key value bounds field member
    obtain ⟨n,its,rfl⟩ := Option.map_eq_some_iff.mp (Option.mem_toList.mp member)
    have := bounds n its
    simpa [Raw.isLeaf] using this
  have long : ∀ value : Option UInt64, ∀ n ∈ value.map (fun n => (n.toNat : Int)), -2 ^ 63 ≤ n ∧ n < 2 ^ 64 := by
    intro value n member
    obtain ⟨m,_,rfl⟩ := Option.map_eq_some_iff.mp member
    have := m.toNat_lt
    omega
  have short : ∀ n ∈ e.fileCount.map (fun n => (n.toNat : Int)), -2 ^ 63 ≤ n ∧ n < 2 ^ 64 := by
    intro n member
    obtain ⟨m,_,rfl⟩ := Option.map_eq_some_iff.mp member
    have := m.toNat_lt
    omega
  have days : ∀ n ∈ e.retentionDays, -2 ^ 63 ≤ n ∧ n < 2 ^ 64 := fun n member => by
    have := range n member
    omega
  intro field member
  simp only [setFields,List.mem_append,or_assoc] at member
  rcases member with h | h | h | h | h | h | h | h | h | h | h | h
  · exact opt _ _ field h
  · exact str _ _ field h
  · exact str _ _ field h
  · exact str _ _ field h
  · exact str _ _ field h
  · exact str _ _ field h
  · exact opt _ _ field h
  · exact num _ _ (long e.size) field h
  · exact opt _ _ field h
  · exact num _ _ short field h
  · exact num _ _ (long e.totalBytes) field h
  · exact num _ _ days field h

/-- A line is read as the object with the fields of the event. -/
theorem parse_format (e : BizEvent) (ts : Int) (range : InRange e) :
    Raw.parse (format e ts) = some (.obj (lineFields e ts)) := by
  rw [format_eq]
  apply Raw.parse_flat jsonEscapeByte_escapes
  intro field member
  rcases List.mem_cons.mp member with rfl | member
  · rfl
  rcases List.mem_cons.mp member with rfl | member
  · rfl
  rcases List.mem_cons.mp member with rfl | member
  · rfl
  · exact setFields_leaf e range field member

theorem writeField_visible (field : Bytes × Json) : ∀ b ∈ Raw.writeField jsonEscapeByte field, 0x20 ≤ b := by
  have text : ∀ s, ∀ b ∈ Raw.writeString jsonEscapeByte s, 0x20 ≤ b := by
    intro s b member
    simp only [Raw.writeString,List.mem_cons,List.mem_append,List.mem_flatMap,List.not_mem_nil,or_false] at member
    rcases member with rfl | ⟨c,_,inside⟩ | rfl
    · decide
    · exact jsonEscapeByte_visible c b inside
    · decide
  have digit : ∀ b : UInt8, isDigit b = true → 0x20 ≤ b := forall_byte (by decide +kernel)
  have number : ∀ i, ∀ b ∈ serializeInt i, 0x20 ≤ b := by
    intro i b member
    unfold serializeInt at member
    split at member
    · rcases List.mem_cons.mp member with rfl | member
      · decide
      · exact digit b (decimal_digits _ b member)
    · exact digit b (decimal_digits _ b member)
  intro b member
  rcases List.mem_append.mp member with inKey | member
  · exact text _ b inKey
  rcases List.mem_cons.mp member with rfl | member
  · decide
  cases leaf : field.2 with
  | str s => exact text s b (by rwa [leaf] at member)
  | int i => exact number i b (by rwa [leaf] at member)
  | null | bool | double | arr | obj => rw [leaf] at member; exact absurd member List.not_mem_nil

/-- A line has no control characters, whatever the strings of the event are. -/
theorem format_visible (e : BizEvent) (ts : Int) : ∀ b ∈ format e ts, 0x20 ≤ b := by
  intro b member
  rw [format_eq,Raw.separated_flatMap] at member
  simp only [List.mem_cons,List.mem_append,List.mem_flatMap,List.not_mem_nil,or_false] at member
  rcases member with rfl | inside | ⟨field,_,rfl | inside⟩ | rfl
  · decide
  · exact writeField_visible _ b inside
  · decide
  · exact writeField_visible _ b inside
  · decide

end BusinessLog

theorem timestampOf_format (e : BizEvent) (ts : Int) (era : InEra ts) : timestampOf (BusinessLog.format e ts) = some ts := by
  obtain ⟨tail,text⟩ := BusinessLog.format_starts e ts
  have found : after (ascii "\"ts\":\"") (BusinessLog.format e ts) = some (formatIso8601 ts ++ 34 :: tail) := by
    rw [text]
    rfl
  have value : (formatIso8601 ts ++ 34 :: tail).takeWhile (· ≠ 34) = formatIso8601 ts := by
    rw [List.takeWhile_append_of_pos fun b member => by simpa using (formatIso8601_plain ts b member).2]
    simp
  rw [timestampOf,found]
  simp only [value,parseIso8601_formatIso8601,if_pos era]
  simp [Except.toOption]

end Confide
