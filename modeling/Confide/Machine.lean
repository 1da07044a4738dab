import Confide.Codec
import Confide.DirTree
import Confide.Program

/-! The process and its storage directory. Programs reach the index, the temp-file
counter, the file system and the outside world by calls; every primitive that changes
the disk may fail, and a failed one changes nothing. -/
namespace Confide

open Bytes Resumption DirTree

abbrev Path := List Bytes

abbrev Disk := Tree Bytes Bytes

inductive BizEventType where
  | txCreated | fileAdded | fileRemoved | committed | forwarded | received | downloaded | expired | adminDeleted
  | retentionChanged | sessionsRevoked
  deriving DecidableEq, Repr

structure BizEvent where
  type : BizEventType
  tx : Option TransactionId
  actor : Bytes := []
  subject : Bytes := []
  fromUser : Bytes := []
  toUser : Bytes := []
  toServer : Bytes := []
  file : Option Bytes := none
  size : Option UInt64 := none
  sha256 : Option Bytes := none
  fileCount : Option UInt32 := none
  totalBytes : Option UInt64 := none
  retentionDays : Option Int := none
  deriving DecidableEq, Repr

/-- What the service asks of the rest of the process. -/
inductive EnvCall where
  | now
  | generate
  | checkDestination (targetUser targetServer : Bytes)
  | isRecipient
  | record (event : BizEvent)
  | onCommitted (tx : Transaction)
  | lockFor (id : TransactionId)
  | acquire (mutex : Nat)
  | release (mutex : Nat)
  | eraseLock (id : TransactionId)

abbrev EnvCall.Reply : EnvCall → Type
  | .now => Int
  | .generate => TransactionId
  | .checkDestination _ _ => Result Unit
  | .isRecipient => Bytes → Bytes → Bool
  | .lockFor _ => Nat
  | _ => Unit

inductive Status where
  | absent
  | regular (size : UInt64)
  | directory
  deriving DecidableEq, Repr

/-- What creating a directory can come to: a clash is a file in its place or above it. -/
inductive Made where
  | created | present | clash | failed
  deriving DecidableEq, Repr

inductive Opened (α : Type) where
  | opened (value : α)
  | missing
  | failed

/-- The storage or repository call in progress; faults are told apart by it. -/
inductive Stage where
  | insert | save | saveManifest | remove | beginUpload | writeUpload | commitUpload | discardUpload
  | removeFile | openStore
  deriving DecidableEq, Repr

inductive SysCall where
  | env (c : EnvCall)
  | enter (stage : Stage)
  | indexFind (id : TransactionId)
  | indexAll
  | indexSet (tx : Transaction)
  | indexErase (id : TransactionId)
  | indexReset (txs : List Transaction)
  | nextTmp
  | status (path : Path)
  | isEmpty (path : Path)
  | children (path : Path)
  | removalOrder (path : Path)
  | read (path : Path)
  | mkdir (path : Path)
  | create (path : Path)
  | append (path : Path) (chunk : Bytes)
  | flush (path : Path)
  | fsync (path : Path)
  | close (path : Path)
  | rename (source target : Path)
  | remove (path : Path)

abbrev SysCall.Reply : SysCall → Type
  | .env c => c.Reply
  | .indexFind _ => Option Transaction
  | .indexAll => List Transaction
  | .nextTmp => Nat
  | .status _ => Status
  | .isEmpty _ => Bool
  | .children _ => List Bytes
  | .removalOrder _ => List Path
  | .read _ => Opened Bytes
  | .mkdir _ => Made
  | .create _ => Opened Unit
  | .append _ _ | .flush _ | .fsync _ | .close _ | .rename _ _ | .remove _ => Bool
  | _ => Unit

abbrev Sys : Signature := ⟨SysCall,SysCall.Reply⟩

abbrev Index := Finmap fun _ : TransactionId => Transaction

/-- What one operation meets: the clock, the next random id, the answers of the user
directory, the primitives that fail, counted within a stage, and the order in which a
recursive removal proceeds. -/
structure Env where
  now : Int
  fresh : TransactionId
  destination : Bytes → Bytes → Result Unit
  recipient : Bytes → Bytes → Bool
  fails : Stage → Nat → Bool
  order : Path → List Path

structure World where
  index : Index
  disk : Disk
  tmpCount : Nat
  log : List BizEvent
  stage : Stage
  tick : Nat

def pathRank (path : Path) : (List (List Nat))ᵒᵈ := OrderDual.toDual (path.map key)

theorem pathRank_injective : Function.Injective pathRank := fun _ _ same =>
  List.map_injective_iff.mpr key_injective (OrderDual.toDual_inj.mp same)

/-- The environment's order if it is one, else children before parents in reverse path order. -/
def removalOrder (env : Env) (disk : Disk) (path : Path) : List Path :=
  if disk.RemovalOrder path (env.order path) then env.order path
  else enumerate pathRank pathRank_injective (disk.subtree path)

theorem prefix_le {α : Type} [LinearOrder α] {a b : List α} (above : a <+: b) : a ≤ b := by
  obtain ⟨c,rfl⟩ := above
  rw [← not_lt]
  intro smaller
  induction a with
  | nil => exact absurd smaller (List.not_lt_nil _)
  | cons x a ih => exact ih (List.cons_lt_cons_self.mp smaller)

/-- Reverse path order takes what a directory holds before the directory. -/
theorem removalOrder_valid (env : Env) (disk : Disk) (path : Path) :
    disk.RemovalOrder path (removalOrder env disk path) := by
  unfold removalOrder
  split
  · assumption
  · refine ⟨by ext q; simp,?_⟩
    refine (enumerate_pairwise pathRank pathRank_injective (disk.subtree path)).imp ?_
    intro a b before above
    exact absurd (prefix_le (above.map key)) (not_le.mpr before)

def nodeStatus : Option (Node Bytes) → Status
  | none => .absent
  | some .directory => .directory
  | some (.file content) => .regular (UInt64.ofNat content.length)

def World.all (w : World) : List Transaction :=
  (enumerate id Function.injective_id w.index.keys).filterMap w.index.lookup

theorem World.mem_all {w : World} {tx : Transaction} : tx ∈ w.all ↔ ∃ id, w.index.lookup id = some tx := by
  simp only [World.all,List.mem_filterMap,mem_enumerate,Finmap.mem_keys]
  constructor
  · rintro ⟨id,_,known⟩
    exact ⟨id,known⟩
  · rintro ⟨id,known⟩
    exact ⟨id,Finmap.mem_of_lookup_eq_some known,known⟩

namespace World

variable (env : Env) (w : World)

def enter (stage : Stage) : World := { w with stage := stage, tick := 0 }

/-- One fallible primitive: it fails when the environment says so or the file system refuses. -/
def attempt (result : Option Disk) : Bool × World :=
  if env.fails w.stage w.tick then (false,{ w with tick := w.tick + 1 })
  else match result with
    | some disk => (true,{ w with disk := disk, tick := w.tick + 1 })
    | none => (false,{ w with tick := w.tick + 1 })

def mkdir (path : Path) : Made × World :=
  match w.attempt env (w.disk.mkdir path) with
  | (true,w') => (.created,w')
  | (false,w') =>
    if env.fails w.stage w.tick then (.failed,w')
    else match w.disk.lookup path, w.disk.lookup path.dropLast with
      | some .directory, _ => (.present,w')
      | some (.file _), _ => (.clash,w')
      | none, some (.file _) => (.clash,w')
      | none, _ => (.failed,w')

def create (path : Path) : Opened Unit × World :=
  match w.attempt env (w.disk.assign path (.file [])) with
  | (true,w') => (.opened (),w')
  | (false,w') =>
    if !env.fails w.stage w.tick && (w.disk.lookup path.dropLast).isNone then (.missing,w') else (.failed,w')

/-- Writing goes to the open file, whether or not its name still exists. -/
def append (path : Path) (chunk : Bytes) : Bool × World :=
  w.attempt env <| match w.disk.lookup path with
    | some (.file content) => w.disk.assign path (.file (content ++ chunk))
    | _ => some w.disk

def remove (path : Path) : Bool × World :=
  w.attempt env (if (w.disk.lookup path).isNone then some w.disk else w.disk.detach path)

def read (path : Path) : Opened Bytes :=
  match w.disk.lookup path with
  | some (.file content) => .opened content
  | some .directory => .failed
  | none => .missing

end World

/-- Locks mean nothing while operations run one after the other. -/
def EnvCall.handle (env : Env) : (c : EnvCall) → World → c.Reply × World
  | .now, w => (env.now,w)
  | .generate, w => (env.fresh,w)
  | .checkDestination user server, w => (env.destination user server,w)
  | .isRecipient, w => (env.recipient,w)
  | .record event, w => ((),{ w with log := w.log ++ [event] })
  | .onCommitted _, w => ((),w)
  | .lockFor _, w => ((0 : Nat),w)
  | .acquire _, w => ((),w)
  | .release _, w => ((),w)
  | .eraseLock _, w => ((),w)

def Sys.handle (env : Env) : Prog.Handler Sys World
  | .env c, w => c.handle env w
  | .enter stage, w => ((),w.enter stage)
  | .indexFind id, w => (w.index.lookup id,w)
  | .indexAll, w => (w.all,w)
  | .indexSet tx, w => ((),{ w with index := w.index.insert tx.id tx })
  | .indexErase id, w => ((),{ w with index := w.index.erase id })
  | .indexReset txs, w => ((),{ w with index := txs.foldr (fun tx index => index.insert tx.id tx) ∅ })
  | .nextTmp, w => (w.tmpCount,{ w with tmpCount := w.tmpCount + 1 })
  | .status path, w => (nodeStatus (w.disk.lookup path),w)
  | .isEmpty path, w => (w.disk.isDirectory path && w.disk.isEmpty path,w)
  | .children path, w => (enumerate key key_injective (w.disk.children path),w)
  | .removalOrder path, w => (removalOrder env w.disk path,w)
  | .read path, w => (w.read path,w)
  | .mkdir path, w => w.mkdir env path
  | .create path, w => w.create env path
  | .append path chunk, w => w.append env path chunk
  | .flush _, w => w.attempt env (some w.disk)
  | .fsync _, w => w.attempt env (some w.disk)
  | .close _, w => w.attempt env (some w.disk)
  | .rename source target, w => w.attempt env (w.disk.rename source target)
  | .remove path, w => w.remove env path

def sys (c : SysCall) : Prog Sys c.Reply := @Prog.perform Sys c

end Confide
