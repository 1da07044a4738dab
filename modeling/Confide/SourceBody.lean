import Confide.Common

/-! The body of an upload is pulled from a source in pieces, after its length has been announced. The source may say
anything; what goes out has the announced length or the request fails. -/
namespace Confide

open Bytes

/-- A request body that is read in pieces. A read is given the buffer; it says how many bytes it has put there, and it
has put some there, which need not agree. -/
structure BodySource (σ : Type) where
  size : UInt64
  read : σ → Bytes → (Result UInt64 × Bytes) × σ

namespace SourceBody

def sourceChunkBytes : Nat := 262144

structure Writer (σ : Type) where
  state : σ
  failure : Option Error
  left : UInt64
  buf : Bytes

inductive Chunk where
  | done
  | failed
  | bytes (data : Bytes) (more : Bool)
  deriving DecidableEq, Repr

variable {σ : Type} (source : BodySource σ)

def writer (state : σ) : Writer σ where
  state := state
  failure := none
  left := source.size
  buf := List.replicate (min source.size.toNat sourceChunkBytes) 0

def overwrite (buffer filled : Bytes) : Bytes := filled.take buffer.length ++ buffer.drop filled.length

def endedEarly (left : UInt64) : Error := ⟨.io,ascii "body source ended " ++ decimal left.toNat ++ ascii " bytes early"⟩

def get (w : Writer σ) : Chunk × Writer σ :=
  if w.left = 0 then (.done,w)
  else
    let want := min w.left.toNat w.buf.length
    let answer := source.read w.state (w.buf.take want)
    let buffer := overwrite (w.buf.take want) answer.1.2
    let after : Writer σ := { w with state := answer.2, buf := buffer ++ w.buf.drop want }
    match answer.1.1 with
    | .error e => (.failed,{ after with failure := some e })
    | .ok n =>
      if n = 0 ∨ want < n.toNat then (.failed,{ after with failure := some (endedEarly w.left) })
      else (.bytes (buffer.take n.toNat) (decide (0 < w.left - n)),{ after with left := w.left - n })

structure Sent (σ : Type) where
  ok : Bool
  bytes : Bytes
  writer : Writer σ

/-- The message is serialised with at most so many pieces: until one fails, there is none, or it is said to be the last. -/
def drive : Nat → Writer σ → Bytes → Option (Sent σ)
  | 0, _, _ => none
  | fuel + 1, w, sent => match get source w with
    | (.done,w) => some ⟨true,sent,w⟩
    | (.failed,w) => some ⟨false,sent,w⟩
    | (.bytes data more,w) => if more then drive fuel w (sent ++ data) else some ⟨true,sent ++ data,w⟩

/-- What the source hands over from one state to another: of every buffer it is given, as many bytes as it says. -/
inductive Delivers (start : σ) : Bytes → σ → Prop
  | nothing : Delivers start [] start
  | read {bytes : Bytes} {state : σ} {n : UInt64} (earlier : Delivers start bytes state) (buffer : Bytes)
    (small : buffer.length ≤ sourceChunkBytes) (counted : (source.read state buffer).1.1 = .ok n) :
    Delivers start (bytes ++ (overwrite buffer (source.read state buffer).1.2).take n.toNat) (source.read state buffer).2

@[simp] theorem length_overwrite (buffer filled : Bytes) : (overwrite buffer filled).length = buffer.length := by
  simp only [overwrite,List.length_append,List.length_take,List.length_drop]
  omega

/-- So far all is well: what was sent is what was delivered, and the rest is still to come. -/
structure Flowing (start : σ) (w : Writer σ) (sent : Bytes) : Prop where
  clean : w.failure = none
  balance : sent.length + w.left.toNat = source.size.toNat
  delivered : Delivers source start sent w.state
  room : w.buf.length = min source.size.toNat sourceChunkBytes

theorem writer_flowing (state : σ) : Flowing source state (writer source state) [] := by
  constructor
  · rfl
  · simp [writer]
  · exact .nothing
  · simp [writer]

inductive Gets (start : σ) (w : Writer σ) (sent : Bytes) : Chunk × Writer σ → Prop
  | done (all : w.left = 0) : Gets start w sent (.done,w)
  | failed {w' : Writer σ} (fails : w'.failure ≠ none) : Gets start w sent (.failed,w')
  | bytes {data : Bytes} {more : Bool} {w' : Writer σ} (some : data ≠ []) (last : more = decide (0 < w'.left))
    (flowing : Flowing source start w' (sent ++ data)) : Gets start w sent (.bytes data more,w')

variable {source} {start : σ}

theorem get_gets {w : Writer σ} {sent : Bytes} (flowing : Flowing source start w sent) :
    Gets source start w sent (get source w) := by
  unfold get
  split
  · rename_i all
    exact .done all
  rename_i more
  dsimp only
  split
  · exact .failed (Option.some_ne_none _)
  rename_i n counted
  split
  · exact .failed (Option.some_ne_none _)
  rename_i fair
  obtain ⟨positive,bounded⟩ := not_or.mp fair
  have small : (w.buf.take (min w.left.toNat w.buf.length)).length ≤ sourceChunkBytes := by
    rw [List.length_take,flowing.room]
    omega
  have delivered := Delivers.read flowing.delivered _ small counted
  generalize source.read w.state (w.buf.take (min w.left.toNat w.buf.length)) = answer at counted delivered
  obtain ⟨⟨count,filled⟩,state⟩ := answer
  cases counted
  have enough : n ≤ w.left := by
    rw [UInt64.le_iff_toNat_le]
    omega
  have length : ((overwrite (w.buf.take (min w.left.toNat w.buf.length)) filled).take n.toNat).length = n.toNat := by
    simp only [List.length_take,length_overwrite]
    omega
  have some : 0 < n.toNat := by
    apply Nat.pos_of_ne_zero
    intro zero
    exact positive (UInt64.toNat_inj.mp zero)
  refine .bytes ?_ rfl ?_
  · intro empty
    rw [empty] at length
    simp only [List.length_nil] at length
    omega
  constructor
  · exact flowing.clean
  · have balance := flowing.balance
    rw [UInt64.le_iff_toNat_le] at enough
    rw [List.length_append,length,UInt64.toNat_sub_of_le _ _ (UInt64.le_iff_toNat_le.mpr enough)]
    omega
  · exact delivered
  · rw [← flowing.room]
    simp only [List.length_append,length_overwrite,List.length_take,List.length_drop]
    omega

structure Settled (source : BodySource σ) (start : σ) (sent : Sent σ) : Prop where
  bounded : sent.bytes.length ≤ source.size.toNat
  done : sent.ok = true → sent.writer.failure = none ∧ sent.bytes.length = source.size.toNat ∧
    Delivers source start sent.bytes sent.writer.state
  failed : sent.ok = false → sent.writer.failure ≠ none

theorem drive_settles {fuel : Nat} {w : Writer σ} {sent : Bytes} (flowing : Flowing source start w sent)
    (enough : w.left.toNat < fuel) : ∃ result, drive source fuel w sent = some result ∧ Settled source start result := by
  induction fuel generalizing w sent with
  | zero => omega
  | succ fuel ih =>
    have gets := get_gets flowing
    have bounded : sent.length ≤ source.size.toNat := by
      have := flowing.balance
      omega
    rw [drive]
    generalize get source w = got at gets
    cases gets with
    | done all =>
      have balance := flowing.balance
      rw [all] at balance
      exact ⟨_,rfl,bounded,fun _ => ⟨flowing.clean,balance,flowing.delivered⟩,fun wrong => by cases wrong⟩
    | failed fails => exact ⟨_,rfl,bounded,(fun wrong => by cases wrong),fun _ => fails⟩
    | @bytes data more w' some last later =>
      dsimp only
      have shorter : w'.left.toNat < w.left.toNat := by
        have before := flowing.balance
        have after := later.balance
        have positive := List.length_pos_of_ne_nil some
        rw [List.length_append] at after
        omega
      split
      · exact ih later (by omega)
      · rename_i ended
        have none : w'.left.toNat = 0 := by simpa [last,UInt64.lt_iff_toNat_lt] using ended
        have balance := later.balance
        rw [none,Nat.add_zero] at balance
        exact ⟨_,rfl,balance.le,fun _ => ⟨later.clean,balance,later.delivered⟩,fun wrong => by cases wrong⟩

/-- However the source behaves, the writer stops: it has sent as many bytes as were announced, all that the source
has delivered up to then, or it has kept an error. It never sends more. -/
theorem body_has_announced_length (source : BodySource σ) (state : σ) :
    ∃ sent, drive source (source.size.toNat + 1) (writer source state) [] = some sent ∧
      sent.bytes.length ≤ source.size.toNat ∧
      (sent.ok = true ∧ sent.writer.failure = none ∧ sent.bytes.length = source.size.toNat ∧
          Delivers source state sent.bytes sent.writer.state ∨
        sent.ok = false ∧ sent.writer.failure ≠ none) := by
  obtain ⟨sent,drives,settled⟩ := drive_settles (writer_flowing source state) (Nat.lt_succ_self _)
  refine ⟨sent,drives,settled.bounded,?_⟩
  cases ok : sent.ok with
  | true => exact .inl ⟨rfl,settled.done ok⟩
  | false => exact .inr ⟨rfl,settled.failed ok⟩

def fileSource (size : UInt64) : BodySource Bytes where
  size := size
  read := fun rest buffer =>
    ((.ok (UInt64.ofNat (min buffer.length rest.length)),rest.take buffer.length),rest.drop buffer.length)

theorem overwrite_take (buffer rest : Bytes) :
    (overwrite buffer (rest.take buffer.length)).take (min buffer.length rest.length) = rest.take buffer.length := by
  have length : (rest.take buffer.length).length = min buffer.length rest.length := List.length_take
  rw [overwrite,List.take_take,Nat.min_self,← length]
  exact List.take_left

theorem Delivers.file {size : UInt64} {content bytes rest : Bytes} (delivers : Delivers (fileSource size) content bytes rest) :
    bytes ++ rest = content := by
  induction delivers with
  | nothing => rfl
  | @read bytes rest n earlier buffer small counted ih =>
    have whole : n.toNat = min buffer.length rest.length := by
      rw [← Except.ok.inj counted,UInt64.toNat_ofNat']
      have chunk : sourceChunkBytes < 2 ^ 64 := by decide
      exact Nat.mod_eq_of_lt (by omega)
    rw [whole,← ih,List.append_assoc]
    dsimp only [fileSource]
    rw [overwrite_take,List.take_append_drop]

/-- What goes out of a file is its beginning, up to the recorded size; the request fails if the file is shorter. -/
theorem file_body (size : UInt64) (content : Bytes) :
    ∃ sent, drive (fileSource size) (size.toNat + 1) (writer (fileSource size) content) [] = some sent ∧
      (sent.ok = true → sent.bytes = content.take size.toNat ∧ size.toNat ≤ content.length) := by
  obtain ⟨sent,drives,settled⟩ := drive_settles (writer_flowing (fileSource size) content) (Nat.lt_succ_self _)
  refine ⟨sent,drives,fun ok => ?_⟩
  obtain ⟨_,length,delivers⟩ := settled.done ok
  have length : sent.bytes.length = size.toNat := length
  rw [← delivers.file,← length,List.length_append]
  exact ⟨List.take_left.symm,Nat.le_add_right _ _⟩

end SourceBody
end Confide
