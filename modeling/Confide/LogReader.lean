import Confide.BusinessLog

/-! Reading the business log back: the lines of a time range out of the two files of the log, the rotated one first. -/
namespace Confide

open Bytes Json

structure BizLogQuery where
  «from» : Int
  «to» : Int
  limit : Nat := 1000

/-- A log file as the reader finds it; reading may break off after some of its content. -/
inductive LogFile where
  | missing
  | unopened
  | opened (content : Bytes) (bad : Bool)

def getlines (content : Bytes) : List Bytes :=
  let parts := content.splitOn 10
  if parts.getLast? = some [] then parts.dropLast else parts

namespace BizLogQuery

variable (query : BizLogQuery)

def matches? (line : Bytes) : Bool :=
  match timestampOf line with
  | some ts => query.from ≤ ts && ts < query.«to»
  | none => false

def scanLines : List Bytes → List Bytes → List Bytes × Bool
  | [], out => (out,true)
  | line :: lines, out =>
    if !query.matches? line then scanLines lines out
    else if query.limit ≤ (out ++ [line]).length then (out ++ [line],false)
    else scanLines lines (out ++ [line])

def scan (path : Bytes) (file : LogFile) (out : List Bytes) : Result (List Bytes × Bool) :=
  match file with
  | .missing => .ok (out,true)
  | .unopened => fail .io (ascii "cannot open " ++ path)
  | .opened content bad =>
    match query.scanLines (getlines content) out with
    | (out,false) => .ok (out,false)
    | (out,true) => if bad then fail .io (ascii "cannot read " ++ path) else .ok (out,true)

end BizLogQuery

def readBusinessLog (path : Bytes) (query : BizLogQuery) (rotated current : LogFile) : Result (List Bytes) :=
  if query.limit = 0 ∨ query.«to» ≤ query.from then .ok []
  else do
    let (out,more) ← query.scan (path ++ ascii ".1") rotated []
    if more then
      let (out,_) ← query.scan path current out
      return out
    else return out

def written (lines : List Bytes) : Bytes := lines.flatMap (· ++ [10])

inductive LogFile.Holds : LogFile → List Bytes → Prop
  | missing : Holds .missing []
  | present (lines : List Bytes) : Holds (.opened (written lines) false) lines

theorem splitOn_written (lines : List Bytes) (whole : ∀ line ∈ lines, 10 ∉ line) :
    (written lines).splitOn 10 = lines ++ [[]] := by
  induction lines with
  | nil => rfl
  | cons line lines ih =>
    have first : 10 ∉ line := whole line (List.mem_cons_self ..)
    have later := ih fun other member => whole other (List.mem_cons_of_mem _ member)
    have text : written (line :: lines) = line ++ 10 :: written lines := by simp [written]
    rw [text,List.splitOn,List.splitOnP_append_cons_of_forall_mem]
    · rw [← List.splitOn,later]
      rfl
    · intro b member
      simpa using fun same : b = 10 => first (same ▸ member)
    · rfl

theorem getlines_written (lines : List Bytes) (whole : ∀ line ∈ lines, 10 ∉ line) : getlines (written lines) = lines := by
  simp [getlines,splitOn_written lines whole]

variable {query : BizLogQuery}

/-- A scan that starts below the limit takes the matching lines up to it. -/
theorem scanLines_eq (lines out : List Bytes) (room : out.length < query.limit) :
    query.scanLines lines out = ((out ++ lines.filter query.matches?).take query.limit,
      decide ((out ++ lines.filter query.matches?).length < query.limit)) := by
  induction lines generalizing out with
  | nil => simp [BizLogQuery.scanLines,List.take_of_length_le (Nat.le_of_lt room),room]
  | cons line lines ih =>
    unfold BizLogQuery.scanLines
    by_cases hit : query.matches? line = true
    · by_cases full : query.limit ≤ (out ++ [line]).length
      · have last : query.limit = (out ++ [line]).length := by
          rw [List.length_append,List.length_singleton] at full ⊢
          omega
        have grouped : out ++ line :: lines.filter query.matches? = (out ++ [line]) ++ lines.filter query.matches? := by simp
        have stops : ¬ ((out ++ [line]) ++ lines.filter query.matches?).length < query.limit := by
          rw [List.length_append]
          omega
        rw [if_neg (by simp [hit]),if_pos full,List.filter_cons_of_pos hit,grouped,List.take_left' last.symm,
          decide_eq_false stops]
      · rw [if_neg (by simp [hit]),if_neg full,ih _ (Nat.lt_of_not_le full),List.filter_cons_of_pos hit,List.append_assoc]
        rfl
    · rw [if_pos (by simpa using hit),ih out room,List.filter_cons_of_neg hit]

theorem scan_holds {file : LogFile} {lines : List Bytes} (holds : file.Holds lines) (whole : ∀ line ∈ lines, 10 ∉ line)
    (path : Bytes) (out : List Bytes) (room : out.length < query.limit) :
    query.scan path file out = .ok ((out ++ lines.filter query.matches?).take query.limit,
      decide ((out ++ lines.filter query.matches?).length < query.limit)) := by
  cases holds with
  | missing => simp [BizLogQuery.scan,List.take_of_length_le (Nat.le_of_lt room),room]
  | present =>
    rw [BizLogQuery.scan,getlines_written lines whole,scanLines_eq lines out room]
    split
    · rename_i stopped
      obtain ⟨rfl,more⟩ := Prod.mk.inj stopped
      rw [more]
    · rename_i continued
      obtain ⟨rfl,more⟩ := Prod.mk.inj continued
      rw [more]
      rfl

theorem filter_matches_empty (empty : query.«to» ≤ query.from) (lines : List Bytes) : lines.filter query.matches? = [] := by
  rw [List.filter_eq_nil_iff]
  intro line _
  unfold BizLogQuery.matches?
  split
  · simp
    omega
  · simp

/-- Over both files: the first matching lines in the order they were written. -/
theorem readBusinessLog_holds {rotated current : LogFile} {older newer : List Bytes} (first : rotated.Holds older)
    (second : current.Holds newer) (whole : ∀ line ∈ older ++ newer, 10 ∉ line) (path : Bytes) :
    readBusinessLog path query rotated current = .ok (((older ++ newer).filter query.matches?).take query.limit) := by
  have wholeFirst : ∀ line ∈ older, 10 ∉ line := fun line member => whole line (List.mem_append_left _ member)
  have wholeSecond : ∀ line ∈ newer, 10 ∉ line := fun line member => whole line (List.mem_append_right _ member)
  unfold readBusinessLog
  split
  · rename_i nothing
    rcases nothing with none | empty
    · rw [none,List.take_zero]
    · rw [filter_matches_empty empty,List.take_nil]
  rename_i some
  simp only [not_or] at some
  rw [scan_holds first wholeFirst _ [] (Nat.pos_of_ne_zero some.1),List.nil_append,ok_bind,List.filter_append]
  by_cases room : (older.filter query.matches?).length < query.limit
  · have all : (older.filter query.matches?).take query.limit = older.filter query.matches? :=
      List.take_of_length_le (Nat.le_of_lt room)
    simp only [room,decide_true,if_true,all]
    rw [scan_holds second wholeSecond _ _ room]
    rfl
  · simp only [room,decide_false,Bool.false_eq_true,if_false]
    rw [List.take_append_of_le_length (Nat.le_of_not_lt room)]
    rfl

/-- Every event gives one line that cannot be broken or forged, says all that is set, and carries its time; and the
reader gives back the lines of a range in the order of recording. -/
theorem business_log_reads_back : (∀ (e : BizEvent) (ts : Int), BusinessLog.InRange e → InEra ts →
      (∀ b ∈ BusinessLog.format e ts, 0x20 ≤ b) ∧
      Raw.parse (BusinessLog.format e ts) = some (.obj (BusinessLog.lineFields e ts)) ∧
      timestampOf (BusinessLog.format e ts) = some ts) ∧
    ∀ (older newer : List (BizEvent × Int)), (∀ record ∈ older ++ newer, InEra record.2) →
      ∀ (path : Bytes) (query : BizLogQuery) (rotated current : LogFile),
        rotated.Holds (older.map fun record => BusinessLog.format record.1 record.2) →
        current.Holds (newer.map fun record => BusinessLog.format record.1 record.2) →
        readBusinessLog path query rotated current = .ok ((((older ++ newer).filter fun record =>
          query.from ≤ record.2 && record.2 < query.«to»).take query.limit).map fun record =>
            BusinessLog.format record.1 record.2) := by
  constructor
  · intro e ts range era
    exact ⟨BusinessLog.format_visible e ts,BusinessLog.parse_format e ts range,timestampOf_format e ts era⟩
  · intro older newer era path query rotated current first second
    rw [readBusinessLog_holds first second ?_ path,← List.map_append,List.filter_map,List.map_take]
    · congr 3
      apply List.filter_congr
      intro record member
      simp [BizLogQuery.matches?,timestampOf_format record.1 record.2 (era record member)]
    · intro line member newline
      rw [← List.map_append] at member
      obtain ⟨record,_,rfl⟩ := List.mem_map.mp member
      exact absurd (BusinessLog.format_visible record.1 record.2 10 newline) (by decide)

namespace Sample

/-- A file name that tries to end the line and to bring its own timestamp. -/
def forged : BizEvent where
  type := .fileAdded
  tx := none
  actor := ascii "eve"
  file := some (ascii "a\",\"ts\":\"2099-01-01T00:00:00Z\"" ++ [10,0xff])

end Sample

theorem forged_name_reads_back : timestampOf (BusinessLog.format Sample.forged 0) = some 0 ∧
      readBusinessLog (ascii "business.log") ⟨0,1,10⟩ .missing (.opened (written [BusinessLog.format Sample.forged 0]) false) =
        .ok [BusinessLog.format Sample.forged 0] := by
  obtain ⟨lines,reads⟩ := business_log_reads_back
  have era : InEra 0 := by decide
  have range : BusinessLog.InRange Sample.forged := nofun
  exact ⟨(lines Sample.forged 0 range era).2.2,reads [] [(Sample.forged,0)] (by simpa using era) (ascii "business.log") ⟨0,1,10⟩
    .missing _ .missing (.present _)⟩

end Confide
