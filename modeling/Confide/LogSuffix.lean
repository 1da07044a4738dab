import Confide.LogRotation

/-! The files of a log, byte by byte: whatever is in them when the sink is opened, they hold the end of all that was ever
written, and the current one stays within its limit. -/
namespace Confide

open Bytes

/-- The two files and the bytes that the sink has counted. -/
structure SinkFiles where
  rotated : Option Bytes
  current : Option Bytes
  written : Nat
  deriving DecidableEq

namespace SinkFiles

def create (rotated current : Option Bytes) : SinkFiles := ⟨rotated,current,(current.getD []).length⟩

def rotate (s : SinkFiles) (renameFails : Bool) : SinkFiles :=
  let s := if s.current.isNone || renameFails then s else { s with rotated := s.current, current := none }
  { s with written := 0 }

variable (rotateBytes : Nat)

def isFull (s : SinkFiles) (line : Bytes) : Bool := 0 < rotateBytes && rotateBytes < s.written + line.length

def append (s : SinkFiles) (line : Bytes) : SinkFiles := { s with current := some (s.current.getD [] ++ (line ++ [10])) }

def write (s : SinkFiles) (w : LogWrite) : SinkFiles :=
  let s := if s.isFull rotateBytes w.line then s.rotate w.renameFails else s
  let s := if w.openFails then s else s.append w.line
  { s with written := s.written + w.line.length + 1 }

def kept (s : SinkFiles) : Bytes := s.rotated.getD [] ++ s.current.getD []

end SinkFiles

namespace FileSink

def files (s : FileSink) : SinkFiles where
  rotated := s.rotated.map fun records => Confide.written (records.map (·.line))
  current := s.current.map fun records => Confide.written (records.map (·.line))
  written := s.written

theorem create_files (rotated current : Option (List Bytes)) :
    (create rotated current).files = .create (rotated.map Confide.written) (current.map Confide.written) := by
  have lines : ∀ start (lines : List Bytes), (number start lines).map (·.line) = lines := by
    intro start lines
    simp [number,Function.comp_def]
  cases rotated <;> cases current <;> simp [create,files,SinkFiles.create,lines,Confide.written]

theorem rotate_files (s : FileSink) (renameFails : Bool) : (s.rotate renameFails).files = s.files.rotate renameFails := by
  cases here : s.current <;> cases renameFails <;> simp [rotate,files,SinkFiles.rotate,here]

theorem append_files (s : FileSink) (line : Bytes) :
    (s.append line).files = s.files.append line := by
  cases here : s.current <;> simp [append,SinkFiles.append,files,here,Confide.written]

theorem write_files (rotateBytes : Nat) (s : FileSink) (w : LogWrite) :
    (s.write rotateBytes w).files = s.files.write rotateBytes w := by
  have full : s.files.isFull rotateBytes w.line = s.isFull rotateBytes w.line := rfl
  have turned : (if s.isFull rotateBytes w.line then s.rotate w.renameFails else s).files =
      if s.files.isFull rotateBytes w.line then s.files.rotate w.renameFails else s.files := by
    rw [full]
    split
    · exact s.rotate_files w.renameFails
    · rfl
  unfold write SinkFiles.write
  rw [← turned]
  generalize (if s.isFull rotateBytes w.line then s.rotate w.renameFails else s) = s'
  cases w.openFails with
  | true => rfl
  | false =>
    simp only [Bool.false_eq_true,if_false]
    rw [← s'.append_files w.line]
    rfl

end FileSink

namespace SinkFiles

variable {rotateBytes : Nat} {s : SinkFiles} {log : Bytes}

/-- The end of the log is in the files, and the sink has counted the current one. -/
structure Holds (s : SinkFiles) (log : Bytes) : Prop where
  ends : s.kept <:+ log
  counted : s.written = (s.current.getD []).length

theorem create_holds (rotated current : Option Bytes) : (create rotated current).Holds (rotated.getD [] ++ current.getD []) :=
  ⟨List.suffix_refl _,rfl⟩

/-- Rotating loses the front of the log, if anything. -/
theorem Holds.rotate (holds : s.Holds log) : (s.rotate false).Holds log ∧ (s.rotate false).current = none := by
  have ends := holds.ends
  unfold SinkFiles.rotate
  cases here : s.current with
  | none =>
    refine ⟨⟨ends,?_⟩,here⟩
    simp [here]
  | some content =>
    refine ⟨⟨?_,rfl⟩,rfl⟩
    rw [kept,here] at ends
    simpa [kept] using (List.suffix_append _ content).trans ends

theorem Holds.write (holds : s.Holds log) (positive : 0 < rotateBytes) (line : Bytes) :
    (s.write rotateBytes ⟨line,false,false⟩).Holds (log ++ (line ++ [10])) ∧
      ((s.write rotateBytes ⟨line,false,false⟩).current.getD []).length ≤ max rotateBytes line.length + 1 := by
  have ready : ∃ s', (if s.isFull rotateBytes line then s.rotate false else s) = s' ∧ s'.Holds log ∧
      s'.written + line.length ≤ max rotateBytes line.length := by
    refine ⟨_,rfl,?_⟩
    split
    · obtain ⟨turned,empty⟩ := holds.rotate
      refine ⟨turned,?_⟩
      have none := turned.counted
      rw [empty] at none
      simp only [Option.getD_none,List.length_nil] at none
      omega
    · rename_i room
      refine ⟨holds,?_⟩
      simp only [isFull,Bool.and_eq_true,decide_eq_true_eq,not_and,Nat.not_lt] at room
      have := room positive
      omega
  obtain ⟨s',after,holds',room⟩ := ready
  have counted := holds'.counted
  unfold SinkFiles.write
  dsimp only
  rw [after]
  simp only [Bool.false_eq_true,if_false]
  refine ⟨⟨?_,?_⟩,?_⟩
  · obtain ⟨lost,split⟩ := holds'.ends
    exact ⟨lost,by simp [kept,append,← split]⟩
  · simp only [append,Option.getD_some,List.length_append,List.length_singleton]
    omega
  · simp only [append,Option.getD_some,List.length_append,List.length_singleton]
    omega

def writes (lines : List Bytes) : List LogWrite := lines.map fun line => ⟨line,false,false⟩

theorem run_holds (holds : s.Holds log) (positive : 0 < rotateBytes) (lines : List Bytes) :
    (Runs.run (write rotateBytes) s (writes lines)).Holds (log ++ Confide.written lines) := by
  induction lines generalizing s log with
  | nil => simpa [writes,Confide.written] using holds
  | cons line lines ih =>
    have next := ih (holds.write positive line).1
    simpa [writes,Confide.written] using next

/-- After every write the two files together are the end of what they held at first and all that was written since, and
the current one holds no more than the limit, or its last line, and a newline. -/
theorem rotation_keeps_suffix (rotateBytes : Nat) (positive : 0 < rotateBytes) (rotated current : Option Bytes)
    (lines : List Bytes) (last : Bytes) :
    let s := Runs.run (write rotateBytes) (create rotated current) (writes (lines ++ [last]))
    s.kept <:+ rotated.getD [] ++ current.getD [] ++ Confide.written (lines ++ [last]) ∧
      (s.current.getD []).length ≤ max rotateBytes last.length + 1 := by
  intro s
  have before := run_holds (create_holds rotated current) positive lines
  obtain ⟨holds,bound⟩ := before.write positive last
  have run : s = (Runs.run (write rotateBytes) (create rotated current) (writes lines)).write rotateBytes
    ⟨last,false,false⟩ := by
    simp [s,writes,Runs.run_append]
  have all : rotated.getD [] ++ current.getD [] ++ Confide.written (lines ++ [last]) =
      rotated.getD [] ++ current.getD [] ++ Confide.written lines ++ (last ++ [10]) := by
    simp [Confide.written]
  rw [run,all]
  exact ⟨holds.ends,bound⟩

/-- With a limit of four bytes the second line pushes out what was there, and then a long line the second. -/
theorem rotation_keeps_last_lines :
    let s := Runs.run (write 4) (create (some (ascii "old")) (some (ascii "x"))) (writes [ascii "ab",ascii "cde",ascii "fghijk"])
    s.rotated = some (ascii "cde\n") ∧ s.current = some (ascii "fghijk\n") ∧
      s.kept <:+ ascii "oldxab\ncde\nfghijk\n" ∧ (s.current.getD []).length ≤ 7 := by
  refine ⟨by decide,by decide,?_⟩
  exact rotation_keeps_suffix 4 (by decide) (some (ascii "old")) (some (ascii "x")) [ascii "ab",ascii "cde"] (ascii "fghijk")

end SinkFiles
end Confide
