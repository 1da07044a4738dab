import Confide.Calls
import Confide.Runs

/-! A server: its process and storage directory, and the uploads its callers have in
progress. Operations run one after the other, each with its own environment. -/
namespace Confide

open Bytes Resumption DirTree

section

variable [BoostJson]

def perform (sha256 : Bytes → Sha256Digest) (env : Env) (p : Prog Svc α) (w : World) : α × World :=
  p.run (Svc.handle sha256 env) w

structure Server where
  world : World
  pending : List PendingUpload

/-- What callers, the forwarder and the retention worker can ask for. An upload that has
begun is referred to by its position. -/
inductive Op where
  | create (caller : Caller) (req : CreateRequest)
  | beginUpload (caller : Caller) (id : TransactionId) (path : RelativePath)
  | writeUpload (k : Nat) (chunk : Bytes)
  | finishUpload (k : Nat) (expected : Option Sha256Digest)
  | dropUpload (k : Nat)
  | removeFile (caller : Caller) (id : TransactionId) (path : RelativePath)
  | commit (caller : Caller) (id : TransactionId)
  | receive (peer : Caller) (req : ReceiveRequest)
  | markDelivered (id : TransactionId)
  | setRetention (admin : Caller) (id : TransactionId) (days : Int)
  | expire (id : TransactionId)
  | adminDelete (admin : Caller) (id : TransactionId)

def report (pending : List PendingUpload) (p : SvcM α) : Prog Svc (Result Unit × List PendingUpload) := do
  let result ← p.run
  pure (result.map fun _ => (),pending)

/-- The text of an operation: what it reports, and what becomes of the uploads in progress.
A position with no upload is one that is over. -/
def Op.program (opts : ServiceOptions) (pending : List PendingUpload) : Op → Prog Svc (Result Unit × List PendingUpload)
  | .create caller req => report pending (TransactionService.create opts caller req)
  | .beginUpload caller id path => do
    let begun ← (TransactionService.beginUpload caller id path).run
    match begun with
    | .ok upload => pure (.ok (),pending ++ [upload])
    | .error e => pure (.error e,pending)
  | .writeUpload k chunk =>
    match pending[k]? with
    | none => pure (.error Upload.finished,pending)
    | some upload => do
      let (written,upload) ← TransactionService.writeUpload upload chunk
      pure (written,pending.set k upload)
  | .finishUpload k expected =>
    match pending[k]? with
    | none => pure (.error Upload.finished,pending)
    | some upload => do
      let (finished,upload) ← TransactionService.finishUpload upload expected
      pure (finished.map fun _ => (),pending.set k upload)
  | .dropUpload k =>
    match pending[k]? with
    | none => pure (.error Upload.finished,pending)
    | some upload => do
      let _over ← TransactionService.dropUpload upload
      pure (.ok (),pending.eraseIdx k)
  | .removeFile caller id path => report pending (TransactionService.removeFile caller id path)
  | .commit caller id => report pending (TransactionService.commit caller id)
  | .receive peer req => report pending (TransactionService.receive opts peer req)
  | .markDelivered id => report pending (TransactionService.markDelivered id)
  | .setRetention admin id days => report pending (TransactionService.setRetention opts admin id days)
  | .expire id => report pending (TransactionService.expire id)
  | .adminDelete admin id => report pending (TransactionService.adminDelete admin id)

section Step

variable (sha256 : Bytes → Sha256Digest) (opts : ServiceOptions) (env : Env) (s : Server) (op : Op)

def Server.outcome : (Result Unit × List PendingUpload) × World :=
  perform sha256 env (op.program opts s.pending) s.world

def Server.reply : Result Unit := (s.outcome sha256 opts env op).1.1

def Server.step : Server := ⟨(s.outcome sha256 opts env op).2,(s.outcome sha256 opts env op).1.2⟩

/-- The calls the operation makes, each with the world it is made in. -/
def Server.calls : List (SvcCall × World) :=
  Prog.calls (Svc.handle sha256 env) (op.program opts s.pending) s.world

end Step

def Server.run (sha256 : Bytes → Sha256Digest) (opts : ServiceOptions) (s : Server) (steps : List (Env × Op)) : Server :=
  steps.foldl (fun s step => s.step sha256 opts step.1 step.2) s

/-- Every step of a run meets a condition on the state it is taken in. -/
def Server.Along (sha256 : Bytes → Sha256Digest) (opts : ServiceOptions) (ok : Server → Env → Op → Prop) (s : Server)
    (steps : List (Env × Op)) : Prop :=
  Runs.Along (fun s step => s.step sha256 opts step.1 step.2) (fun s step => ok s step.1 step.2) s steps

theorem run_append (sha256 : Bytes → Sha256Digest) (opts : ServiceOptions) (s : Server) (first second : List (Env × Op)) :
    s.run sha256 opts (first ++ second) = (s.run sha256 opts first).run sha256 opts second := List.foldl_append

end

/-- A storage directory with nothing in it but its two folders. -/
def emptyDisk : Disk where
  nodes := ((∅ : Finmap fun _ : Path => Node Bytes).insert [] .directory |>.insert tmpDir .directory).insert
    transactionsDir .directory
  root := by decide
  closed := by
    intro path member inner
    simp only [Finmap.mem_insert,Finmap.notMem_empty,or_false] at member
    rcases member with rfl | rfl | rfl <;> rfl

def Server.empty : Server := ⟨⟨∅,emptyDisk,0,[],.openStore,0⟩,[]⟩

/-! One small setting for concrete runs: every file in them is empty. -/
namespace Sample

theorem id_valid : isTransactionId (ascii "6f9619ff-8b86-4d01-b42d-00cf4fc964ff") = true := by decide

def id : TransactionId := ⟨ascii "6f9619ff-8b86-4d01-b42d-00cf4fc964ff",id_valid⟩

/-- SHA-256 of the files that are hashed; the last one is empty. -/
def sha256 (content : Bytes) : Sha256Digest :=
  .ofNat (if content = ascii "x" then 0x2d711642b726b04401627ca9fbac32f5c8530fb1903cc4db02258717921a4881
    else if content = ascii "hello" then 0x2cf24dba5fb0a30e26e83b2ac5b9e29e1b161e5c1fa7425e73043362938b9824
    else if content = [7,7,7] then 0x6a7dc6f4267242f01f6636a45c31da51c036da1e9879abce7e1d0aaa76aad876
    else 0xe3b0c44298fc1c149afbf4c8996fb92427ae41e4649b934ca495991b7852b855)

def env : Env where
  now := 1750000000
  fresh := id
  destination := fun _ _ => .ok ()
  recipient := fun _ _ => false
  fails := fun _ _ => false
  order := fun _ => []

theorem env_faultless : env.Faultless := fun _ _ => rfl

def opts : ServiceOptions := ⟨ascii "alpha",30,3650,500⟩

def alice : Caller := ⟨ascii "alice",false,false⟩

def request : CreateRequest := ⟨ascii "bob",[],0,[]⟩

def path : RelativePath := ⟨ascii "docs/a.txt",by decide⟩

end Sample
end Confide
