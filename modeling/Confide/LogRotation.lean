import Confide.LogReader
import Confide.Runs

/-! The log is written, and rotated, while it is read. The reader takes no lock: it scans the rotated file and then the
current one, with any number of writes in between. -/
namespace Confide

open Bytes

/-- A line in a file of the log, numbered in the order of writing. -/
structure LogRecord where
  index : Nat
  line : Bytes
  deriving DecidableEq

/-- The two files of the log, the bytes that the sink has counted, and the number of the next line. -/
structure FileSink where
  rotated : Option (List LogRecord)
  current : Option (List LogRecord)
  written : Nat
  next : Nat

structure LogWrite where
  line : Bytes
  renameFails : Bool := false
  openFails : Bool := false

namespace FileSink

def number (start : Nat) (lines : List Bytes) : List LogRecord := (lines.zipIdx start).map fun (line,index) => ⟨index,line⟩

def create (rotated current : Option (List Bytes)) : FileSink where
  rotated := rotated.map (number 0)
  current := current.map (number (rotated.getD []).length)
  written := (Confide.written (current.getD [])).length
  next := (rotated.getD []).length + (current.getD []).length

def rotate (s : FileSink) (renameFails : Bool) : FileSink :=
  let s := if s.current.isNone || renameFails then s else { s with rotated := s.current, current := none }
  { s with written := 0 }

variable (rotateBytes : Nat)

def isFull (s : FileSink) (line : Bytes) : Bool := 0 < rotateBytes && rotateBytes < s.written + line.length

def append (s : FileSink) (line : Bytes) : FileSink :=
  { s with current := some (s.current.getD [] ++ [⟨s.next,line⟩]), next := s.next + 1 }

def write (s : FileSink) (w : LogWrite) : FileSink :=
  let s := if s.isFull rotateBytes w.line then s.rotate w.renameFails else s
  let s := if w.openFails then s else s.append w.line
  { s with written := s.written + w.line.length + 1 }

def file : Option (List LogRecord) → LogFile
  | none => .missing
  | some records => .opened (Confide.written (records.map (·.line))) false

def records (s : FileSink) : List LogRecord := s.rotated.getD [] ++ s.current.getD []

structure Numbered (s : FileSink) : Prop where
  distinct : s.records.Nodup
  below : ∀ record ∈ s.records, record.index < s.next
  whole : ∀ record ∈ s.records, 10 ∉ record.line

variable {rotateBytes} {s : FileSink}

theorem rotate_records (s : FileSink) (renameFails : Bool) :
    ((s.rotate renameFails).records = s.records ∨ (s.rotate renameFails).records = s.current.getD []) ∧
      (s.rotate renameFails).next = s.next := by
  unfold rotate
  split
  · exact ⟨.inl rfl,rfl⟩
  · exact ⟨.inr (by simp [records]),rfl⟩

theorem rotate_sublist (s : FileSink) (renameFails : Bool) : (s.rotate renameFails).records.Sublist s.records := by
  rcases (s.rotate_records renameFails).1 with same | kept
  · rw [same]
  · rw [kept]
    exact List.sublist_append_right ..

theorem append_records (s : FileSink) (line : Bytes) : (s.append line).records = s.records ++ [⟨s.next,line⟩] := by
  simp [append,records]

/-- All that a write does: some old records may go, and the new one may come. -/
theorem write_records (rotateBytes : Nat) (s : FileSink) (w : LogWrite) : ∃ kept, kept.Sublist s.records ∧
    ((s.write rotateBytes w).records = kept ∧ (s.write rotateBytes w).next = s.next ∨
      (s.write rotateBytes w).records = kept ++ [⟨s.next,w.line⟩] ∧ (s.write rotateBytes w).next = s.next + 1) := by
  have rotates : ∃ s', (if s.isFull rotateBytes w.line then s.rotate w.renameFails else s) = s' ∧
      s'.records.Sublist s.records ∧ s'.next = s.next := by
    refine ⟨_,rfl,?_⟩
    split
    · exact ⟨s.rotate_sublist w.renameFails,(s.rotate_records w.renameFails).2⟩
    · exact ⟨List.Sublist.refl _,rfl⟩
  obtain ⟨s',after,kept,next⟩ := rotates
  refine ⟨s'.records,kept,?_⟩
  unfold write
  rw [after]
  cases w.openFails with
  | true => exact .inl ⟨rfl,next⟩
  | false =>
    rw [← next]
    exact .inr ⟨s'.append_records w.line,rfl⟩

theorem Numbered.write (numbered : s.Numbered) (w : LogWrite) (whole : 10 ∉ w.line) : (s.write rotateBytes w).Numbered := by
  obtain ⟨kept,sublist,⟨records,next⟩ | ⟨records,next⟩⟩ := write_records rotateBytes s w
  · constructor
    · rw [records]
      exact numbered.distinct.sublist sublist
    · rw [records,next]
      exact fun record member => numbered.below record (sublist.subset member)
    · rw [records]
      exact fun record member => numbered.whole record (sublist.subset member)
  · have new : ∀ record ∈ kept, record.index < s.next := fun record member => numbered.below record (sublist.subset member)
    constructor
    · rw [records]
      apply List.nodup_append.mpr
      refine ⟨numbered.distinct.sublist sublist,List.nodup_singleton _,?_⟩
      rintro record member _ last rfl
      rw [List.mem_singleton.mp last] at member
      exact absurd (new _ member) (Nat.lt_irrefl _)
    · rw [records,next]
      intro record member
      rcases List.mem_append.mp member with old | last
      · exact Nat.lt_succ_of_lt (new record old)
      · rw [List.mem_singleton.mp last]
        exact Nat.lt_succ_self _
    · rw [records]
      intro record member
      rcases List.mem_append.mp member with old | last
      · exact numbered.whole record (sublist.subset old)
      · rw [List.mem_singleton.mp last]
        exact whole

theorem number_index (start : Nat) (lines : List Bytes) :
    (number start lines).map (·.index) = List.range' start lines.length := by
  unfold number
  rw [List.map_map]
  exact List.zipIdx_map_snd start lines

theorem number_line {start : Nat} {lines : List Bytes} (member : record ∈ number start lines) : record.line ∈ lines := by
  obtain ⟨⟨line,index⟩,inside,rfl⟩ := List.mem_map.mp member
  exact List.fst_mem_of_mem_zipIdx inside

theorem create_records (rotated current : Option (List Bytes)) : (create rotated current).records =
    number 0 (rotated.getD []) ++ number (rotated.getD []).length (current.getD []) := by
  cases rotated <;> cases current <;> rfl

theorem create_numbered (rotated current : Option (List Bytes))
    (whole : ∀ line ∈ rotated.getD [] ++ current.getD [], 10 ∉ line) :
    (create rotated current).Numbered := by
  have indices : (create rotated current).records.map (·.index) = List.range' 0 (create rotated current).next := by
    rw [create_records,List.map_append,number_index,number_index,create,← List.range'_append_1,Nat.zero_add]
  constructor
  · apply List.Nodup.of_map (·.index)
    rw [indices]
    exact List.nodup_range'
  · intro record member
    have inside : record.index ∈ List.range' 0 (create rotated current).next :=
      indices ▸ List.mem_map_of_mem member
    simpa using inside
  · intro record member
    rw [create_records] at member
    rcases List.mem_append.mp member with first | second
    · exact whole _ (List.mem_append_left _ (number_line first))
    · exact whole _ (List.mem_append_right _ (number_line second))

theorem run_numbered (numbered : s.Numbered) (writes : List LogWrite) (whole : ∀ w ∈ writes, 10 ∉ w.line) :
    (Runs.run (FileSink.write rotateBytes) s writes).Numbered := by
  induction writes generalizing s with
  | nil => exact numbered
  | cons w writes ih =>
    exact ih (numbered.write w (whole w (List.mem_cons_self ..))) fun later member => whole later (List.mem_cons_of_mem _ member)

/-- What is found later and is not new was there before. -/
theorem run_older (rotateBytes : Nat) (s : FileSink) (writes : List LogWrite) :
    s.next ≤ (Runs.run (write rotateBytes) s writes).next ∧
    ∀ record ∈ (Runs.run (write rotateBytes) s writes).records, record.index < s.next → record ∈ s.records := by
  induction writes generalizing s with
  | nil => exact ⟨le_rfl,fun _ member _ => member⟩
  | cons w writes ih =>
    obtain ⟨grows,older⟩ := ih (s.write rotateBytes w)
    obtain ⟨kept,sublist,⟨records,next⟩ | ⟨records,next⟩⟩ := write_records rotateBytes s w
    · rw [next] at grows older
      refine ⟨grows,fun record member old => ?_⟩
      have before := older record member old
      rw [records] at before
      exact sublist.subset before
    · rw [next] at grows older
      refine ⟨by rw [Runs.run_cons]; omega,fun record member old => ?_⟩
      have before := older record member (by omega)
      rw [records] at before
      rcases List.mem_append.mp before with inside | last
      · exact sublist.subset inside
      · rw [List.mem_singleton.mp last] at old
        exact absurd old (Nat.lt_irrefl _)

/-- As long as nothing rotates, the rotated file stays and the current one grows. -/
theorem write_quiet (s : FileSink) (w : LogWrite) (quiet : s.isFull rotateBytes w.line = false) :
    (s.write rotateBytes w).rotated = s.rotated := by
  unfold write
  rw [if_neg (by simp [quiet])]
  cases w.openFails <;> rfl

theorem run_quiet (s : FileSink) (writes : List LogWrite)
    (quiet : Runs.Along (write rotateBytes) (fun s w => s.isFull rotateBytes w.line = false) s writes) :
    (Runs.run (write rotateBytes) s writes).rotated = s.rotated := by
  induction writes generalizing s with
  | nil => rfl
  | cons w writes ih => exact (ih _ quiet.2).trans (s.write_quiet w quiet.1)

theorem file_holds (file : Option (List LogRecord)) : (FileSink.file file).Holds ((file.getD []).map (·.line)) := by
  cases file with
  | none => exact .missing
  | some records => exact .present _

end FileSink

/-- A read while the log is written: the writes before it begins, up to its first scan, between its scans, and up to its end. -/
structure LogReadRun where
  rotateBytes : Nat
  rotated : Option (List Bytes)
  current : Option (List Bytes)
  before : List LogWrite
  early : List LogWrite
  between : List LogWrite
  late : List LogWrite

namespace LogReadRun

variable (r : LogReadRun)

def begins : FileSink := Runs.run (FileSink.write r.rotateBytes) (.create r.rotated r.current) r.before

def firstScan : FileSink := Runs.run (FileSink.write r.rotateBytes) r.begins r.early

def secondScan : FileSink := Runs.run (FileSink.write r.rotateBytes) r.firstScan r.between

def ends : FileSink := Runs.run (FileSink.write r.rotateBytes) r.secondScan r.late

def read (path : Bytes) (query : BizLogQuery) : Result (List Bytes) :=
  readBusinessLog path query (FileSink.file r.firstScan.rotated) (FileSink.file r.secondScan.current)

def Whole : Prop :=
  (∀ line ∈ r.rotated.getD [] ++ r.current.getD [], 10 ∉ line) ∧ ∀ w ∈ r.before ++ r.early ++ r.between ++ r.late, 10 ∉ w.line

/-- No write between the scans finds the current file full. -/
def Quiet : Prop :=
  Runs.Along (FileSink.write r.rotateBytes) (fun s w => s.isFull r.rotateBytes w.line = false) r.firstScan r.between

variable {r}

theorem secondScan_numbered (whole : r.Whole) : r.secondScan.Numbered := by
  obtain ⟨files,writes⟩ := whole
  have all : ∀ w ∈ r.before ++ (r.early ++ r.between), 10 ∉ w.line := by
    intro w member
    apply writes
    simp only [List.mem_append] at member ⊢
    tauto
  have run : r.secondScan =
      Runs.run (FileSink.write r.rotateBytes) (.create r.rotated r.current) (r.before ++ (r.early ++ r.between)) := by
    rw [Runs.run_append,Runs.run_append]
    rfl
  rw [run]
  exact FileSink.run_numbered (FileSink.create_numbered r.rotated r.current files) _ all

/-- A record that was there when the read began and is there at its end was in one of the files at the second scan. -/
theorem mem_secondScan {record : LogRecord} (member : record ∈ r.ends.records) (old : record.index < r.begins.next) :
    record ∈ r.secondScan.records := by
  apply (FileSink.run_older r.rotateBytes r.secondScan r.late).2 record member
  have first := (FileSink.run_older r.rotateBytes r.begins r.early).1
  have second := (FileSink.run_older r.rotateBytes r.firstScan r.between).1
  exact Nat.lt_of_lt_of_le old (first.trans second)

end LogReadRun

/-- A read during which nothing rotates between its two scans returns records of the two files, none twice, and among them
every one that was there when it began and is still there when it ends. -/
theorem log_read_finds_all (r : LogReadRun) (whole : r.Whole) (quiet : r.Quiet) (path : Bytes) (query : BizLogQuery)
    (lines : List Bytes) (read : r.read path query = .ok lines) (room : lines.length < query.limit) :
    ∃ returned : List LogRecord, lines = returned.map (·.line) ∧ returned.Sublist r.secondScan.records ∧ returned.Nodup ∧
      ∀ record ∈ r.ends.records, record.index < r.begins.next → query.matches? record.line = true →
        returned.count record = 1 := by
  have numbered := LogReadRun.secondScan_numbered whole
  have same : r.secondScan.rotated = r.firstScan.rotated := FileSink.run_quiet r.firstScan r.between quiet
  have first := FileSink.file_holds r.secondScan.rotated
  have second := FileSink.file_holds r.secondScan.current
  have plain : ∀ line ∈ (r.secondScan.rotated.getD []).map (·.line) ++ (r.secondScan.current.getD []).map (·.line),
    10 ∉ line := by
    intro line member
    rw [← List.map_append] at member
    obtain ⟨record,inside,rfl⟩ := List.mem_map.mp member
    exact numbered.whole record inside
  rw [LogReadRun.read,← same,readBusinessLog_holds first second plain path] at read
  have all := Except.ok.inj read
  rw [← all,List.length_take] at room
  rw [List.take_of_length_le (by omega),← List.map_append,List.filter_map] at all
  have distinct := numbered.distinct.filter (query.matches? ∘ fun record : LogRecord => record.line)
  refine ⟨_,all.symm,List.filter_sublist,distinct,fun record member old hit => ?_⟩
  apply List.count_eq_one_of_mem distinct
  exact List.mem_filter.mpr ⟨LogReadRun.mem_secondScan member old,hit⟩

namespace Sample

def created (ts : Int) : Bytes := BusinessLog.format { type := .txCreated, tx := none } ts

/-- Two events with a limit of one line for a file; the second one is written between the scans, or after them. -/
def overlapping : LogReadRun := ⟨64,none,none,[⟨created 0,false,false⟩],[],[⟨created 1,false,false⟩],[]⟩

def orderly : LogReadRun := ⟨64,none,none,[⟨created 0,false,false⟩],[],[],[⟨created 1,false,false⟩]⟩

end Sample

theorem orderly_read_finds_all : Sample.orderly.ends.records = [⟨0,Sample.created 0⟩,⟨1,Sample.created 1⟩] ∧
      ∃ returned : List LogRecord, [Sample.created 0] = returned.map (·.line) ∧
        returned.Sublist Sample.orderly.secondScan.records ∧ returned.count ⟨0,Sample.created 0⟩ = 1 := by
  have records : Sample.orderly.ends.records = [⟨0,Sample.created 0⟩,⟨1,Sample.created 1⟩] := by decide +kernel
  obtain ⟨returned,lines,inside,_,all⟩ := log_read_finds_all Sample.orderly ⟨by decide +kernel,by decide +kernel⟩ trivial
    (ascii "business.log") ⟨0,10,1000⟩ [Sample.created 0] (by decide +kernel) (by decide)
  refine ⟨records,returned,lines,inside,all _ ?_ (by decide +kernel) (by decide +kernel)⟩
  rw [records]
  exact List.mem_cons_self ..

/-- The first scan finds no rotated file, the second write rotates, and the second scan misses what was just moved. -/
theorem rotation_hides_a_line : Sample.overlapping.read (ascii "business.log") ⟨0,10,1000⟩ = .ok [Sample.created 1] ∧
      ⟨0,Sample.created 0⟩ ∈ Sample.overlapping.ends.records ∧ 0 < Sample.overlapping.begins.next ∧
      BizLogQuery.matches? ⟨0,10,1000⟩ (Sample.created 0) = true ∧ Sample.created 0 ∉ [Sample.created 1] := by
  decide +kernel

end Confide
