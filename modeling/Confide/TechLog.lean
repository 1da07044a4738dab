import Confide.BusinessLog
import Confide.Runs

/-! The technical log: any thread may push a line into the queue, and one thread takes them out and writes them. The queue
and the stop flag are touched under the lock only, so what is done there is one step; the writer is outside of it while
it writes, and while it sleeps. -/
namespace Confide

open Bytes

inductive LogLevel where
  | trace | debug | info | warn | error
  deriving DecidableEq, Repr

def LogLevel.toString : LogLevel → Bytes
  | .trace => ascii "trace"
  | .debug => ascii "debug"
  | .info => ascii "info"
  | .warn => ascii "warn"
  | .error => ascii "error"

namespace TechLog

structure Record where
  level : LogLevel
  line : Bytes
  deriving DecidableEq, Repr

/-- A call of push, with the time and the thread it is made at. -/
structure Push where
  ts : Int
  tid : UInt64
  level : LogLevel
  tag : Bytes
  message : Bytes

def Push.record (p : Push) : Record :=
  ⟨p.level,ascii "\x7b\"ts\":" ++ decimalInt p.ts ++ ascii ",\"lvl\":\"" ++ p.level.toString ++ ascii "\",\"tag\":\"" ++
    jsonEscape p.tag ++ ascii "\",\"msg\":\"" ++ jsonEscape p.message ++ ascii "\",\"tid\":" ++ decimal p.tid.toNat ++
    ascii "\x7d"⟩

/-- Where the writer thread is: before the lock, asleep until it is notified, with a line in its hand, or at its end. -/
inductive Writer where
  | ready
  | asleep
  | writing (record : Record)
  | ended
  deriving DecidableEq, Repr

def Writer.hand : Writer → List Record
  | .writing record => [record]
  | .ready | .asleep | .ended => []

def Writer.notified : Writer → Writer
  | .asleep => .ready
  | writer => writer

inductive Ending where
  | none
  | stopping
  | joining
  | returned
  deriving DecidableEq, Repr

end TechLog

structure TechLog where
  queue : List TechLog.Record
  dropped : UInt64
  stop : Bool
  writer : TechLog.Writer
  ending : TechLog.Ending
  sink : List TechLog.Record
  deriving DecidableEq

namespace TechLog

inductive Act where
  | push (p : Push)
  /-- The writer has the lock, and looks at the queue and the flag. -/
  | look
  | write
  | wake
  | stop
  | notify
  | join

def create : TechLog := ⟨[],0,false,.ready,.none,[]⟩

variable (capacity : Nat)

def push (s : TechLog) (p : Push) : TechLog :=
  if capacity ≤ s.queue.length then { s with dropped := s.dropped + 1 }
  else { s with queue := s.queue ++ [p.record], writer := s.writer.notified }

/-- The writer goes to sleep, ends, or takes the first line. -/
def look (s : TechLog) : TechLog :=
  match s.queue with
  | [] => if s.stop then { s with writer := .ended } else { s with writer := .asleep }
  | record :: rest => { s with queue := rest, writer := .writing record }

/-- What cannot happen yet changes nothing; nothing is pushed once the destructor runs. -/
def step (s : TechLog) : Act → TechLog
  | .push p => if s.ending = .none then s.push capacity p else s
  | .look => if s.writer = .ready then s.look else s
  | .write => match s.writer with
    | .writing record => { s with writer := .ready, sink := s.sink ++ [record] }
    | _ => s
  | .wake => { s with writer := s.writer.notified }
  | .stop => if s.ending = .none then { s with stop := true, ending := .stopping } else s
  | .notify => if s.ending = .stopping then { s with writer := s.writer.notified, ending := .joining } else s
  | .join => if s.ending = .joining ∧ s.writer = .ended then { s with ending := .returned } else s

/-! What the acts of a run say: the calls made, and which of them found room. -/

/-- The lines of the calls of push made before the destructor runs. -/
def made : List Act → List Record
  | [] => []
  | .stop :: _ => []
  | .push p :: acts => p.record :: made acts
  | _ :: acts => made acts

/-- The call that an act makes, with whether the queue has room for its line. -/
def call (s : TechLog) : Act → List (Record × Bool)
  | .push p => if s.ending = .none then [(p.record,decide (s.queue.length < capacity))] else []
  | _ => []

def calls (s : TechLog) : List Act → List (Record × Bool)
  | [] => []
  | act :: acts => s.call capacity act ++ calls (s.step capacity act) acts

def entered (calls : List (Record × Bool)) : List Record := (calls.filter (·.2)).map (·.1)

def lost (calls : List (Record × Bool)) : Nat := calls.countP (!·.2)

/-- The lines written, in the writer's hand and queued. -/
def lines (s : TechLog) : List Record := s.sink ++ s.writer.hand ++ s.queue

structure Sound (s : TechLog) : Prop where
  bounded : s.queue.length ≤ capacity
  flag : s.stop = true ↔ s.ending ≠ .none
  awake : s.writer = .asleep → s.queue = [] ∧ (s.ending = .none ∨ s.ending = .stopping)
  ended : s.writer = .ended → s.queue = [] ∧ s.ending ≠ .none
  returned : s.ending = .returned → s.writer = .ended

variable {capacity} {s : TechLog}

theorem create_sound : (create).Sound capacity := by
  constructor <;> simp [create]

@[simp] theorem hand_notified (writer : Writer) : writer.notified.hand = writer.hand := by
  cases writer <;> rfl

theorem notified_ne_asleep (writer : Writer) : writer.notified ≠ .asleep := by
  cases writer <;> simp [Writer.notified]

@[simp] theorem notified_ended {writer : Writer} : writer.notified = .ended ↔ writer = .ended := by
  cases writer <;> simp [Writer.notified]

section

variable (sound : s.Sound capacity)
include sound

theorem Sound.push (alive : s.ending = .none) (p : Push) : (s.push capacity p).Sound capacity := by
  have running : s.writer ≠ .ended := fun ended => (sound.ended ended).2 alive
  unfold TechLog.push
  split
  · exact ⟨sound.bounded,sound.flag,sound.awake,sound.ended,sound.returned⟩
  · rename_i room
    refine ⟨?_,sound.flag,?_,?_,?_⟩
    · simp only [List.length_append,List.length_singleton]
      omega
    · exact fun asleep => absurd asleep (notified_ne_asleep _)
    · exact fun ended => absurd (notified_ended.mp ended) running
    · intro returned
      rw [alive] at returned
      cases returned

theorem Sound.look (ready : s.writer = .ready) : s.look.Sound capacity := by
  have flag := sound.flag
  have unreturned : s.ending ≠ .returned := by
    intro returned
    have ended := sound.returned returned
    rw [ready] at ended
    cases ended
  unfold TechLog.look
  split
  · rename_i here
    split
    · rename_i stopped
      refine ⟨sound.bounded,flag,?_,?_,fun _ => rfl⟩
      · intro asleep
        cases asleep
      · exact fun _ => ⟨here,flag.mp stopped⟩
    · rename_i going
      have alive : s.ending = .none := by
        by_contra other
        exact going (flag.mpr other)
      refine ⟨sound.bounded,flag,?_,?_,?_⟩
      · exact fun _ => ⟨here,.inl alive⟩
      · intro ended
        cases ended
      · exact fun returned => absurd returned unreturned
  · rename_i record rest here
    have bounded := sound.bounded
    rw [here] at bounded
    refine ⟨?_,flag,?_,?_,?_⟩
    · exact (Nat.le_succ _).trans bounded
    · intro asleep
      cases asleep
    · intro ended
      cases ended
    · exact fun returned => absurd returned unreturned

theorem Sound.write {record : Record} (writing : s.writer = .writing record) :
    Sound capacity { s with writer := .ready, sink := s.sink ++ [record] } := by
  refine ⟨sound.bounded,sound.flag,?_,?_,?_⟩
  · intro asleep
    cases asleep
  · intro ended
    cases ended
  · intro returned
    have ended := sound.returned returned
    rw [writing] at ended
    cases ended

theorem Sound.wake : Sound capacity { s with writer := s.writer.notified } := by
  refine ⟨sound.bounded,sound.flag,?_,?_,?_⟩
  · exact fun asleep => absurd asleep (notified_ne_asleep _)
  · exact fun ended => sound.ended (notified_ended.mp ended)
  · exact fun returned => notified_ended.mpr (sound.returned returned)

theorem Sound.stop (alive : s.ending = .none) :
    Sound capacity { s with stop := true, ending := .stopping } := by
  have running : s.writer ≠ .ended := fun ended => (sound.ended ended).2 alive
  refine ⟨sound.bounded,by simp,?_,?_,?_⟩
  · exact fun asleep => ⟨(sound.awake asleep).1,.inr rfl⟩
  · exact fun ended => absurd ended running
  · intro returned
    cases returned

theorem Sound.notify (stopping : s.ending = .stopping) :
    Sound capacity { s with writer := s.writer.notified, ending := .joining } := by
  have stopped : s.stop = true := sound.flag.mpr (by simp [stopping])
  refine ⟨sound.bounded,by simp [stopped],?_,?_,?_⟩
  · exact fun asleep => absurd asleep (notified_ne_asleep _)
  · exact fun ended => ⟨(sound.ended (notified_ended.mp ended)).1,by simp⟩
  · intro returned
    cases returned

theorem Sound.join (joining : s.ending = .joining) (ended : s.writer = .ended) :
    Sound capacity { s with ending := .returned } := by
  have stopped : s.stop = true := sound.flag.mpr (by simp [joining])
  refine ⟨sound.bounded,by simp [stopped],?_,?_,fun _ => ended⟩
  · intro asleep
    rw [ended] at asleep
    cases asleep
  · exact fun ended => ⟨(sound.ended ended).1,by simp⟩

theorem step_sound (act : Act) : (s.step capacity act).Sound capacity := by
  unfold step
  split
  · split
    · rename_i alive
      exact sound.push alive _
    · exact sound
  · split
    · rename_i ready
      exact sound.look ready
    · exact sound
  · split
    · rename_i writing
      exact sound.write writing
    · exact sound
  · exact sound.wake
  · split
    · rename_i alive
      exact sound.stop alive
    · exact sound
  · split
    · rename_i stopping
      exact sound.notify stopping
    · exact sound
  · split
    · rename_i joins
      exact sound.join joins.1 joins.2
    · exact sound

theorem run_sound (acts : List Act) : (Runs.run (step capacity) s acts).Sound capacity := by
  induction acts generalizing s with
  | nil => exact sound
  | cons act acts ih => exact ih (step_sound sound act)

end

theorem entered_append (first second : List (Record × Bool)) : entered (first ++ second) = entered first ++ entered second := by
  simp [entered]

theorem lost_append (first second : List (Record × Bool)) : lost (first ++ second) = lost first + lost second :=
  List.countP_append

theorem length_entered_add_lost (calls : List (Record × Bool)) : (entered calls).length + lost calls = calls.length := by
  rw [entered,List.length_map,← List.countP_eq_length_filter,lost,
    List.length_eq_countP_add_countP (fun call => call.2) (l := calls)]
  simp

/-- A line gets in at its call, and then moves from the queue to the writer's hand and on to the sink. -/
theorem step_lines (s : TechLog) (act : Act) :
    (s.step capacity act).lines = s.lines ++ entered (s.call capacity act) := by
  cases act with
  | push p =>
    by_cases alive : s.ending = .none
    · by_cases full : capacity ≤ s.queue.length
      · simp [step,call,alive,push,full,lines,entered]
      · have room : s.queue.length < capacity := by omega
        simp [step,call,alive,push,full,room,lines,entered]
    · simp [step,call,alive,entered]
  | look =>
    by_cases ready : s.writer = .ready
    · simp only [step,if_pos ready,look,call]
      split
      · split <;> simp_all [lines,Writer.hand,entered]
      · simp_all [lines,Writer.hand,entered]
    · simp [step,ready,call,entered]
  | write => cases here : s.writer <;> simp [step,here,lines,call,entered,Writer.hand]
  | wake => simp [step,lines,call,entered]
  | stop | notify | join =>
    simp only [step]
    split <;> simp [lines,call,entered]

theorem step_dropped (s : TechLog) (act : Act) :
    (s.step capacity act).dropped = s.dropped + UInt64.ofNat (lost (s.call capacity act)) := by
  cases act with
  | push p =>
    by_cases alive : s.ending = .none
    · by_cases full : capacity ≤ s.queue.length
      · simp [step,call,alive,push,full,lost]
      · have room : s.queue.length < capacity := by omega
        simp [step,call,alive,push,full,room,lost]
    · simp [step,call,alive,lost]
  | look =>
    simp only [step,look]
    repeat' split
    all_goals simp [call,lost]
  | write => cases here : s.writer <;> simp [step,here,call,lost]
  | wake => simp [step,call,lost]
  | stop | notify | join =>
    simp only [step]
    split <;> simp [call,lost]

theorem run_lines (s : TechLog) (acts : List Act) :
    (Runs.run (step capacity) s acts).lines = s.lines ++ entered (s.calls capacity acts) := by
  induction acts generalizing s with
  | nil => simp [calls,entered]
  | cons act acts ih => rw [Runs.run_cons,ih,step_lines,calls,entered_append,List.append_assoc]

theorem run_dropped (s : TechLog) (acts : List Act) :
    (Runs.run (step capacity) s acts).dropped = s.dropped + UInt64.ofNat (lost (s.calls capacity acts)) := by
  induction acts generalizing s with
  | nil => simp [calls,lost]
  | cons act acts ih => rw [Runs.run_cons,ih,step_dropped,calls,lost_append,UInt64.ofNat_add,UInt64.add_assoc]

theorem step_ending (act : Act) (other : act ≠ .stop) (alive : s.ending = .none) :
    (s.step capacity act).ending = .none := by
  cases act with
  | push p =>
    simp only [step,push]
    repeat' split
    all_goals exact alive
  | look =>
    simp only [step,look]
    repeat' split
    all_goals exact alive
  | write => cases here : s.writer <;> simp [step,here,alive]
  | wake => exact alive
  | stop => exact absurd rfl other
  | notify | join => simp [step,alive]

theorem step_stays (act : Act) (stopped : s.ending ≠ .none) : (s.step capacity act).ending ≠ .none := by
  cases act with
  | look =>
    simp only [step,look]
    repeat' split
    all_goals exact stopped
  | write => cases here : s.writer <;> simp [step,here,stopped]
  | wake => exact stopped
  | push p | stop | notify | join =>
    simp only [step]
    split <;> simp_all

/-- Nobody calls push once the destructor runs. -/
theorem calls_stopped (acts : List Act) (stopped : s.ending ≠ .none) : s.calls capacity acts = [] := by
  induction acts generalizing s with
  | nil => rfl
  | cons act acts ih =>
    rw [calls,ih (step_stays act stopped),List.append_nil]
    cases act <;> simp [call,stopped]

theorem calls_made (acts : List Act) (alive : s.ending = .none) : (s.calls capacity acts).map (·.1) = made acts := by
  induction acts generalizing s with
  | nil => rfl
  | cons act acts ih =>
    rw [calls,List.map_append]
    cases act with
    | stop =>
      have stopped : (s.step capacity .stop).ending ≠ .none := by simp [step,alive]
      rw [calls_stopped acts stopped]
      rfl
    | push p =>
      rw [ih (step_ending _ Act.noConfusion alive),call,if_pos alive]
      rfl
    | look | write | wake | notify | join =>
      rw [ih (step_ending _ Act.noConfusion alive)]
      rfl

/-- In every state each call of push made so far is accounted for once: its line was lost at a full queue, or it is written,
in the writer's hand or queued, in the order of the calls. When the destructor has returned, all that were not dropped
have been written. -/
theorem lines_are_accounted_for (capacity : Nat) (acts : List Act) :
    let s := Runs.run (step capacity) create acts
    let calls := create.calls capacity acts
    calls.map (·.1) = made acts ∧
      (made acts).length = s.sink.length + s.writer.hand.length + s.queue.length + lost calls ∧
      s.dropped = UInt64.ofNat (lost calls) ∧ s.queue.length ≤ capacity ∧
      s.sink ++ s.writer.hand ++ s.queue = entered calls ∧
      (s.ending = .returned →
        s.queue = [] ∧ s.sink = entered calls ∧ (made acts).length = s.sink.length + lost calls) := by
  intro s calls
  have sound : s.Sound capacity := run_sound create_sound acts
  have order : s.sink ++ s.writer.hand ++ s.queue = entered calls := run_lines create acts
  have dropped : s.dropped = UInt64.ofNat (lost calls) := by
    rw [run_dropped]
    exact UInt64.zero_add _
  have counted : calls.map (·.1) = made acts := calls_made acts rfl
  have balance : (made acts).length = (entered calls).length + lost calls := by
    rw [← counted,List.length_map,length_entered_add_lost]
  refine ⟨counted,?_,dropped,sound.bounded,order,fun returned => ?_⟩
  · rw [balance,← order,List.length_append,List.length_append]
  · have ended := sound.returned returned
    have empty := (sound.ended ended).1
    rw [ended,empty,Writer.hand,List.append_nil,List.append_nil] at order
    exact ⟨empty,order,by rw [balance,order]⟩

def samplePush : Push := ⟨1750000000000,7,.info,ascii "main",ascii "started"⟩

/-- Two lines are pushed into a queue for one before the writer gets the lock. -/
def sampleActs : List Act := [.push samplePush,.push samplePush,.look,.stop,.write,.notify,.look,.join]

theorem full_queue_is_accounted_for :
    let s := Runs.run (step 1) create sampleActs
    s.ending = .returned ∧ s.dropped = 1 ∧ (made sampleActs).length = 2 ∧
      s.queue = [] ∧ s.sink = entered (create.calls 1 sampleActs) ∧
      (made sampleActs).length = s.sink.length + lost (create.calls 1 sampleActs) := by
  have returned : (Runs.run (step 1) create sampleActs).ending = .returned := by decide +kernel
  have counted : (Runs.run (step 1) create sampleActs).dropped = 1 := by decide +kernel
  exact ⟨returned,counted,rfl,(lines_are_accounted_for 1 sampleActs).2.2.2.2.2 returned⟩

end TechLog
end Confide
