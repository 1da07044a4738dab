import Confide.Time
import Mathlib.Data.List.Sort

/-! Transactions, their life cycle and their sorted file lists. -/
namespace Confide

open Bytes

inductive State where
  | «open» | committed | delivered | expired
  deriving DecidableEq, Repr

def State.toString : State → Bytes
  | .open => ascii "open"
  | .committed => ascii "committed"
  | .delivered => ascii "delivered"
  | .expired => ascii "expired"

def parseState (text : Bytes) : Result State :=
  match [State.open,.committed,.delivered,.expired].find? fun s => text = s.toString with
  | some s => .ok s
  | none => fail .validation (ascii "unknown state: " ++ text)

@[simp] theorem parseState_toString (s : State) : parseState s.toString = .ok s := by
  cases s <;> rfl

structure FileEntry where
  path : RelativePath
  size : UInt64
  sha256 : Sha256Digest
  deriving DecidableEq, Repr

structure Transaction where
  id : TransactionId
  sender : Bytes
  targetUser : Bytes
  targetServer : Bytes
  originServer : Bytes
  comment : Bytes
  state : State
  createdAt : Int
  expiresAt : Int
  committedAt : Option Int
  deliveredAt : Option Int
  files : List FileEntry
  deriving DecidableEq, Repr

def Transaction.totalBytes (tx : Transaction) : UInt64 :=
  tx.files.foldl (fun sum file => sum + file.size) 0

def isContinuation (c : UInt8) : Bool := c &&& 0xC0 == 0x80

def checkComment (comment : Bytes) (maxLength : Nat) : Result Unit :=
  if comment.any (fun c => c < 0x20 || c == 0x7f) then
    fail .validation (ascii "comment must not contain control characters")
  else
    let length := comment.countP fun c => !isContinuation c
    if maxLength < length then
      fail .validation (ascii "comment must be at most " ++ decimal maxLength ++
        ascii " characters, got " ++ decimal length)
    else .ok ()

def canTransition : State → State → Bool
  | .open, next => next == .committed || next == .expired
  | .committed, next => next == .delivered || next == .expired
  | .delivered, next => next == .expired
  | .expired, _ => false

def checkTransition (current next : State) : Result Unit :=
  if canTransition current next then .ok ()
  else fail (if current = .expired then .gone else .conflict)
    (ascii "transaction is " ++ current.toString ++ ascii ", cannot become " ++ next.toString)

def requireMutable : State → Result Unit
  | .open => .ok ()
  | .expired => fail .gone (ascii "transaction has expired")
  | state => fail .conflict (ascii "transaction is " ++ state.toString ++ ascii " and cannot be changed")

def requireReadable : State → Result Unit
  | .open => fail .conflict (ascii "transaction is not committed yet")
  | .expired => fail .gone (ascii "transaction has expired")
  | _ => .ok ()

variable {state : State}

theorem requireMutable_ok : requireMutable state = .ok () ↔ state = .open := by
  cases state <;> simp [requireMutable,fail]

theorem checkTransition_ok {a b : State} : checkTransition a b = .ok () ↔ canTransition a b = true := by
  unfold checkTransition
  split <;> simp_all [fail]

theorem checkTransition_committed : checkTransition state .committed = .ok () ↔ state = .open := by
  rw [checkTransition_ok]
  cases state <;> decide

theorem checkTransition_delivered :
    checkTransition state .delivered = .ok () ↔ state = .committed := by
  rw [checkTransition_ok]
  cases state <;> decide

theorem checkTransition_expired : checkTransition state .expired = .ok () ↔ state ≠ .expired := by
  rw [checkTransition_ok]
  cases state <;> decide

/-! File lists are sorted by path, and searched by halving. -/

def Sorted (files : List FileEntry) : Prop := files.Pairwise fun a b => a.path < b.path

instance (files : List FileEntry) : Decidable (Sorted files) :=
  inferInstanceAs (Decidable (List.Pairwise _ _))

/-- The search for the first entry that is not before `path`, in the `len` entries
from `first` on. -/
def lowerBoundFrom (files : List FileEntry) (path : RelativePath) : Nat → Nat → Nat → Nat
  | 0, first, _ => first
  | fuel + 1, first, len =>
    if len = 0 then first
    else
      let half := len / 2
      match files[first + half]? with
      | some middle =>
        if middle.path < path then lowerBoundFrom files path fuel (first + half + 1) (len - half - 1)
        else lowerBoundFrom files path fuel first half
      | none => first

def lowerBound (files : List FileEntry) (path : RelativePath) : Nat :=
  lowerBoundFrom files path files.length 0 files.length

def Transaction.findFile (tx : Transaction) (path : RelativePath) : Option FileEntry :=
  match tx.files[lowerBound tx.files path]? with
  | some file => if file.path = path then some file else none
  | none => none

def upsertFile (files : List FileEntry) (entry : FileEntry) : List FileEntry :=
  let it := lowerBound files entry.path
  match files[it]? with
  | some file => if file.path = entry.path then files.set it entry else files.insertIdx it entry
  | none => files.insertIdx it entry

variable {files : List FileEntry}

theorem Sorted.getElem_lt (sorted : Sorted files) {i j : Nat} {a b : FileEntry}
    (ha : files[i]? = some a) (hb : files[j]? = some b) (before : i < j) : a.path < b.path := by
  obtain ⟨hi,rfl⟩ := List.getElem?_eq_some_iff.mp ha
  obtain ⟨hj,rfl⟩ := List.getElem?_eq_some_iff.mp hb
  exact List.pairwise_iff_getElem.mp sorted i j hi hj before

/-- A cut of a file list: everything before it is smaller than `path`, nothing from it on is. -/
structure Cut (files : List FileEntry) (path : RelativePath) (k : Nat) : Prop where
  inside : k ≤ files.length
  before : ∀ i file, files[i]? = some file → i < k → file.path < path
  after : ∀ i file, files[i]? = some file → k ≤ i → ¬ file.path < path

theorem lowerBoundFrom_cut (sorted : Sorted files) (path : RelativePath)
    (fuel first len : Nat) (enough : len ≤ fuel) (inside : first + len ≤ files.length)
    (before : ∀ i file, files[i]? = some file → i < first → file.path < path)
    (after : ∀ i file, files[i]? = some file → first + len ≤ i → ¬ file.path < path) :
    Cut files path (lowerBoundFrom files path fuel first len) := by
  induction fuel generalizing first len with
  | zero =>
    obtain rfl : len = 0 := by omega
    exact ⟨by simpa [lowerBoundFrom] using inside,before,after⟩
  | succ fuel ih =>
    unfold lowerBoundFrom
    by_cases empty : len = 0
    · subst empty
      exact ⟨by simpa using inside,by simpa using before,by simpa using after⟩
    · rw [if_neg empty]
      have bound : first + len / 2 < files.length := by omega
      simp only [List.getElem?_eq_getElem bound]
      have middle : files[first + len / 2]? = some files[first + len / 2] := List.getElem?_eq_getElem bound
      by_cases smaller : files[first + len / 2].path < path
      · rw [if_pos smaller]
        refine ih _ _ (by omega) (by omega) ?_ ?_
        · intro i file found low
          by_cases left : i = first + len / 2
          · subst left
            exact Option.some.inj (middle.symm.trans found) ▸ smaller
          · exact lt_trans (sorted.getElem_lt found middle (by omega)) smaller
        · intro i file found high
          exact after i file found (by omega)
      · rw [if_neg smaller]
        refine ih _ _ (by omega) (by omega) before ?_
        intro i file found high
        by_cases here : i = first + len / 2
        · subst here
          exact Option.some.inj (middle.symm.trans found) ▸ smaller
        · intro low
          exact smaller (lt_trans (sorted.getElem_lt middle found (by omega)) low)

theorem lowerBound_cut (sorted : Sorted files) (path : RelativePath) : Cut files path (lowerBound files path) :=
  lowerBoundFrom_cut sorted path _ _ _ (Nat.le_refl _) (by omega) (by intro i file _ h; omega)
    (by
      intro i file found high
      have := (List.getElem?_eq_some_iff.mp found).1
      omega)

/-- At a cut of a sorted list stands the entry of `path` if the list has one. -/
theorem Cut.found (sorted : Sorted files) (cut : Cut files path k)
    {file : FileEntry} (member : file ∈ files) (same : file.path = path) : files[k]? = some file := by
  obtain ⟨i,bound,rfl⟩ := List.getElem_of_mem member
  have here := List.getElem?_eq_getElem bound
  have late : k ≤ i := by
    by_contra early
    exact absurd (cut.before i _ here (by omega)) (by rw [same]; exact lt_irrefl _)
  by_cases here' : i = k
  · subst here'; exact here
  · exfalso
    have bound' : k < files.length := by omega
    have smaller := sorted.getElem_lt (List.getElem?_eq_getElem bound') here (by omega)
    exact cut.after k _ (List.getElem?_eq_getElem bound') (Nat.le_refl _) (same ▸ smaller)

theorem insertIdx_split (files : List FileEntry) (entry : FileEntry) (k : Nat) (inside : k ≤ files.length) :
    files.insertIdx k entry = files.take k ++ entry :: files.drop k := by
  induction files generalizing k with
  | nil =>
    obtain rfl : k = 0 := by simpa using inside
    rfl
  | cons file files ih =>
    cases k with
    | zero => rfl
    | succ k => simp [ih k (by simpa using inside)]

/-- Inserting or replacing keeps everything that is smaller in front and everything that is larger behind. -/
theorem upsertFile_split (sorted : Sorted files) (entry : FileEntry) :
    ∃ smaller larger, (∀ file ∈ smaller, file.path < entry.path) ∧ (∀ file ∈ larger, entry.path < file.path) ∧
      upsertFile files entry = smaller ++ entry :: larger ∧
      (files = smaller ++ larger ∨ ∃ old, old.path = entry.path ∧ files = smaller ++ old :: larger) := by
  have cut := lowerBound_cut sorted entry.path
  generalize position : lowerBound files entry.path = k at cut
  have front : ∀ file ∈ files.take k, file.path < entry.path := by
    intro file member
    obtain ⟨i,bound,rfl⟩ := List.getElem_of_mem member
    simp only [List.length_take] at bound
    rw [List.getElem_take]
    exact cut.before i _ (List.getElem?_eq_getElem (by omega)) (by omega)
  have rest : ∀ (i : Nat) (file : FileEntry), (files.drop k)[i]? = some file → ¬ file.path < entry.path := by
    intro i file found
    rw [List.getElem?_drop] at found
    exact cut.after _ file found (by omega)
  have whole := List.take_append_drop k files
  have insert := insertIdx_split files entry k cut.inside
  cases tail : files.drop k with
  | nil =>
    have none : files[k]? = none := List.getElem?_eq_none (List.drop_eq_nil_iff.mp tail)
    refine ⟨files.take k,[],front,by simp,?_,.inl (by simpa [tail] using whole.symm)⟩
    simp only [upsertFile,position,none,insert,tail]
  | cons file larger =>
    have here : files[k]? = some file := by
      rw [← Nat.add_zero k,← List.getElem?_drop,tail]
      rfl
    have least : ¬ file.path < entry.path := rest 0 file (by simp [tail])
    have behind : ∀ other ∈ larger, file.path < other.path := by
      have sub : Sorted (files.drop k) := sorted.sublist (List.drop_sublist _ _)
      rw [tail] at sub
      exact (List.pairwise_cons.mp sub).1
    by_cases same : file.path = entry.path
    · refine ⟨files.take k,larger,front,fun other member => same ▸ behind other member,?_,
        .inr ⟨file,same,by simpa [tail] using whole.symm⟩⟩
      simp only [upsertFile,position,here,same,if_true]
      rw [List.set_eq_take_append_cons_drop,if_pos (List.getElem?_eq_some_iff.mp here).1]
      congr 2
      have := congrArg List.tail tail
      simpa using this
    · have above : entry.path < file.path := lt_of_le_of_ne (not_lt.mp least) (Ne.symm same)
      refine ⟨files.take k,file :: larger,front,?_,?_,.inl (by simpa [tail] using whole.symm)⟩
      · intro other member
        rcases List.mem_cons.mp member with rfl | member
        · exact above
        · exact lt_trans above (behind other member)
      · simp only [upsertFile,position,here,same,if_false,insert,tail]

theorem upsertFile_sorted (sorted : Sorted files) (entry : FileEntry) :
    Sorted (upsertFile files entry) := by
  obtain ⟨smaller,larger,below,above,result,shape⟩ := upsertFile_split sorted entry
  have parts : Sorted smaller ∧ Sorted larger := by
    rcases shape with rfl | ⟨old,_,rfl⟩
    · exact ⟨(List.pairwise_append.mp sorted).1,(List.pairwise_append.mp sorted).2.1⟩
    · exact ⟨(List.pairwise_append.mp sorted).1,(List.pairwise_cons.mp (List.pairwise_append.mp sorted).2.1).2⟩
  rw [result]
  refine List.pairwise_append.mpr ⟨parts.1,List.pairwise_cons.mpr ⟨above,parts.2⟩,?_⟩
  intro a left b right
  rcases List.mem_cons.mp right with rfl | right
  · exact below a left
  · exact lt_trans (below a left) (above b right)

theorem mem_upsertFile (sorted : Sorted files) (entry file : FileEntry) :
    file ∈ upsertFile files entry ↔ file = entry ∨ (file ∈ files ∧ file.path ≠ entry.path) := by
  obtain ⟨smaller,larger,below,above,result,shape⟩ := upsertFile_split sorted entry
  have low : file ∈ smaller → file.path ≠ entry.path := fun member => ne_of_lt (below file member)
  have high : file ∈ larger → file.path ≠ entry.path := fun member => ne_of_gt (above file member)
  have old : ∀ o : FileEntry, o.path = entry.path → file = o → file.path = entry.path := by
    rintro o same rfl
    exact same
  rw [result]
  rcases shape with rfl | ⟨o,same,rfl⟩
  · simp only [List.mem_append,List.mem_cons]
    tauto
  · have := old o same
    simp only [List.mem_append,List.mem_cons]
    tauto

theorem Sorted.unique (sorted : Sorted files) {a b : FileEntry}
    (ha : a ∈ files) (hb : b ∈ files) (same : a.path = b.path) : a = b := by
  obtain ⟨i,hi,rfl⟩ := List.getElem_of_mem ha
  obtain ⟨j,hj,rfl⟩ := List.getElem_of_mem hb
  rcases Nat.lt_trichotomy i j with before | rfl | after
  · exact absurd same (ne_of_lt (List.pairwise_iff_getElem.mp sorted i j hi hj before))
  · rfl
  · exact absurd same.symm (ne_of_lt (List.pairwise_iff_getElem.mp sorted j i hj hi after))

end Confide
