import Confide.Ledger
import Confide.PayloadAgreement

/-! Who may add files to a transaction: an upload is checked when it begins, and finished later,
perhaps into another transaction with the same id. -/
namespace Confide

open Bytes

/-- A new transaction takes no id that an upload in progress refers to, unless whoever began that
upload may write the new transaction as well. -/
def Server.Reserves (opts : ServiceOptions) (s : Server) (env : Env) (op : Op) : Prop :=
  ∀ tx, Opens opts env op tx → s.world.index.lookup tx.id = none →
    ∀ p ∈ s.pending, p.id = tx.id → p.upload.done = false → mayWrite p.caller tx = true

structure Authorised (s : Server) : Prop where
  orderly : Orderly s
  allowed : ∀ p ∈ s.pending, p.upload.done = false → ∀ tx, s.world.index.lookup p.id = some tx →
    mayWrite p.caller tx = true

variable {sha256 : Bytes → Sha256Digest} {opts : ServiceOptions} {env : Env} {pending : List PendingUpload} {op : Op}
  {tx tx' : Transaction} {s : Server}

theorem Updates.mayWrite_eq (updates : Updates sha256 opts env pending op tx tx') (caller : Caller) :
    mayWrite caller tx' = mayWrite caller tx := by
  cases updates <;> rfl

theorem Upload.Advances.done_mono {u u' : Upload} (advances : u.Advances u') (open' : u'.done = false) :
    u.done = false := by
  cases advances with
  | same | wrote => exact open'
  | ended => contradiction

theorem Authorised.step [BoostJson] (authorised : Authorised s) (reserves : s.Reserves opts env op) :
    Authorised (s.step sha256 opts env op) := by
  obtain ⟨⟨takes,holds⟩,_⟩ := step_takes sha256 opts env authorised.orderly.keyed op
  have same : ∀ id tx tx', s.world.index.lookup id = some tx → (s.step sha256 opts env op).world.index.lookup id = some tx' →
      ∀ caller, mayWrite caller tx' = mayWrite caller tx := by
    intro id tx tx' known stored caller
    rcases takes.origin id tx' stored with ⟨old,found,change⟩ | ⟨absent,_⟩
    · obtain rfl := Option.some.inj (known.symm.trans found)
      rcases change with rfl | updates
      · rfl
      · exact updates.mayWrite_eq caller
    · rw [known] at absent
      contradiction
  refine ⟨step_orderly authorised.orderly op,holds.forall ?_ ?_ ?_⟩
  · intro caller id path n tx _ known allowed _ tx' stored
    rw [same id tx tx' known stored]
    exact allowed
  · exact fun p u advances allowed isOpen => allowed (advances.done_mono isOpen)
  · intro p member isOpen tx' stored
    rcases takes.origin p.id tx' stored with ⟨tx,known,_⟩ | ⟨absent,opens,named⟩
    · rw [same p.id tx tx' known stored]
      exact authorised.allowed p member isOpen tx known
    · exact reserves tx' opens (named ▸ absent) p member named.symm isOpen

theorem finishUpload_adds [BoostJson] (keyed : Keyed s.world.index) {k : Nat} {expected : Option Sha256Digest}
    (finished : s.reply sha256 opts env (.finishUpload k expected) = .ok ()) :
    ∃ p tx, s.pending[k]? = some p ∧ p.upload.done = false ∧ s.world.index.lookup p.id = some tx ∧
      (s.step sha256 opts env (.finishUpload k expected)).world.index.lookup p.id =
        some { tx with files := upsertFile tx.files ⟨p.upload.path,p.upload.size,sha256 p.upload.hashed⟩ } := by
  obtain ⟨⟨takes,_⟩,_⟩ := step_takes sha256 opts env keyed (.finishUpload k expected)
  rw [finished] at takes
  generalize (s.step sha256 opts env (.finishUpload k expected)).world.index = i' at takes
  cases takes with
  | updated known updates =>
    cases updates with
    | uploaded here its isOpen progress =>
      refine ⟨_,_,here,progress,its ▸ known,?_⟩
      rw [its]
      exact Finmap.lookup_insert _
    | marked drops => cases drops
  | opened opens => cases opens
  | dropped _ drops => cases drops
  | streamed part => contradiction

/-- In every run in which no id is taken that another caller's upload refers to, whatever fails, an upload that
finishes adds its entry to a transaction that its caller may write. -/
theorem uploads_are_authorised [BoostJson] (sha256 : Bytes → Sha256Digest) (opts : ServiceOptions)
    (steps before after : List (Env × Op)) (env : Env) (k : Nat) (expected : Option Sha256Digest)
    (reserves : Server.empty.Along sha256 opts (fun s env op => s.Reserves opts env op) steps)
    (split : steps = before ++ (env,.finishUpload k expected) :: after)
    (finished : (Server.empty.run sha256 opts before).reply sha256 opts env (.finishUpload k expected) = .ok ()) :
    ∃ p tx, (Server.empty.run sha256 opts before).pending[k]? = some p ∧
      (Server.empty.run sha256 opts before).world.index.lookup p.id = some tx ∧
      (Server.empty.run sha256 opts (before ++ [(env,.finishUpload k expected)])).world.index.lookup p.id =
        some { tx with files := upsertFile tx.files ⟨p.upload.path,p.upload.size,sha256 p.upload.hashed⟩ } ∧
      mayWrite p.caller tx = true := by
  have initial : Authorised Server.empty := ⟨empty_orderly,nofun⟩
  have authorised : Authorised (Server.empty.run sha256 opts before) :=
    (reserves.before Authorised (fun s step authorised ok => authorised.step ok) initial split).1
  obtain ⟨p,tx,here,progress,known,added⟩ := finishUpload_adds authorised.orderly.keyed finished
  refine ⟨p,tx,here,known,?_,authorised.allowed p (List.mem_of_getElem? here) progress tx known⟩
  rw [run_append]
  exact added

theorem upload_is_authorised :
    ∃ p tx, (Server.empty.run Sample.sha256 Sample.opts (uploadRun.take 2)).pending[0]? = some p ∧
      mayWrite p.caller tx = true := by
  obtain ⟨p,tx,here,_,_,allowed⟩ := uploads_are_authorised Sample.sha256 Sample.opts uploadRun (uploadRun.take 2) [] Sample.env
    0 none ⟨fun _ _ _ _ member => (nomatch member),fun _ opens => (nomatch opens),fun _ opens => (nomatch opens),trivial⟩ rfl
    (by decide +kernel)
  exact ⟨p,tx,here,allowed⟩

def pushRequest : ReceiveRequest := ⟨Sample.id,ascii "carol",ascii "bob",1750000000,1752592000,[]⟩

/-- An upload to a transaction that an administrator deletes goes on, into the one that a peer
pushes under the same id. -/
def strayUploadRun : List (Env × Op) :=
  uploadRun.take 2 ++ [(Sample.env,.adminDelete ⟨ascii "root",false,true⟩ Sample.id),
    (Sample.env,.receive ⟨ascii "beta",true,false⟩ pushRequest)]

theorem stray_upload_finishes :
    let s := Server.empty.run Sample.sha256 Sample.opts strayUploadRun
    s.reply Sample.sha256 Sample.opts Sample.env (.finishUpload 0 none) = .ok () ∧
      s.pending.map (·.caller) = [Sample.alice] ∧
      (s.world.index.lookup Sample.id).map (mayWrite Sample.alice) = some false ∧
      ((s.step Sample.sha256 Sample.opts Sample.env (.finishUpload 0 none)).world.index.lookup Sample.id).map
        (fun tx => (tx.sender,tx.files.map (·.path))) = some (ascii "carol",[Sample.path]) := by
  decide +kernel

end Confide
