import Confide.Mirror
import Confide.PeerSteps

/-! The sending server's side of a push: while its operations, failures and restarts go on, a transaction that waits to be
sent is always the same. -/
namespace Confide

structure Cargo where
  sender : Bytes
  targetUser : Bytes
  comment : Bytes
  createdAt : Int
  files : List FileEntry

def Transaction.cargo (tx : Transaction) : Cargo := ⟨tx.sender,tx.targetUser,tx.comment,tx.createdAt,tx.files⟩

theorem Frozen.cargo {tx tx' : Transaction} (frozen : Frozen tx tx') : tx'.cargo = tx.cargo := by
  rw [Transaction.cargo,frozen.sender,frozen.targetUser,frozen.comment,frozen.createdAt,frozen.files,Transaction.cargo]

theorem Updates.targetServer {sha256 : Bytes → Sha256Digest} {opts : ServiceOptions} {env : Env} {pending : List PendingUpload}
    {op : Op} {tx tx' : Transaction} (updates : Updates sha256 opts env pending op tx tx') :
    tx'.targetServer = tx.targetServer := by
  cases updates <;> rfl

/-- The step creates a transaction on the sending server, under this id. -/
def PeerAct.creates (id : TransactionId) : PeerAct → Bool
  | .serve env (.create _ _) => env.fresh = id
  | _ => false

namespace Peering

variable {cfg : PeerConfig} {id : TransactionId} {a a' : Server} {act : PeerAct} {s : Peering} {acts : List PeerAct}

variable [BoostJson]

structure Settled (a : Server) : Prop where
  orderly : Orderly a
  mirrored : Mirrored a.world

theorem Settled.step (settled : Settled a) (env : Env) (op : Op) : Settled (a.step cfg.sha256 cfg.aOpts env op) :=
  ⟨step_orderly settled.orderly op,step_mirrored settled.orderly settled.mirrored op⟩

theorem restart_settled {env : Env} {disk : Disk} {w : World} (starts : exec env restart.run (World.boot disk) = (.ok (),w)) :
    Settled ⟨w,[]⟩ := by
  have searchable := restart_searchable (congrArg Prod.fst starts) []
  rw [starts] at searchable
  exact ⟨⟨searchable.keyed,fun _ member => by cases member⟩,(restart_loads starts).1⟩

theorem Own.settled (own : Own cfg a act a') (settled : Settled a) : Settled a' := by
  cases own with
  | idle => exact settled
  | served => exact settled.step _ _
  | marked => exact settled.step _ _
  | restarted starts => exact restart_settled starts

theorem run_settled (settled : Settled s.a) (acts : List PeerAct) : Settled (Runs.run (step cfg) s acts).a := by
  induction acts generalizing s with
  | nil => exact settled
  | cons act acts ih => exact ih ((step_did cfg s act).own.settled settled)

/-- What is stored after a step was there, is a change of what was there, or is new. -/
theorem Own.origin (own : Own cfg a act a') (settled : Settled a) :
    Throughout (fun id tx' => (∃ tx, a.world.index.lookup id = some tx ∧ (tx' = tx ∨ ∃ env op,
        Updates cfg.sha256 cfg.aOpts env a.pending op tx tx')) ∨
      (tx'.id = id ∧ ∃ env op, act = .serve env op ∧ Opens cfg.aOpts env op tx')) a'.world.index := by
  intro id tx' known
  have stepped : ∀ {env : Env} {op : Op}, (a.step cfg.sha256 cfg.aOpts env op).world.index.lookup id = some tx' →
      (∃ tx, a.world.index.lookup id = some tx ∧ (tx' = tx ∨ Updates cfg.sha256 cfg.aOpts env a.pending op tx tx')) ∨
        (a.world.index.lookup id = none ∧ Opens cfg.aOpts env op tx' ∧ tx'.id = id) := fun known =>
    (step_takes cfg.sha256 cfg.aOpts _ settled.orderly.keyed _).1.1.origin id tx' known
  cases own with
  | idle => exact .inl ⟨tx',known,.inl rfl⟩
  | @served env op =>
    rcases stepped known with ⟨tx,old,same | updates⟩ | ⟨_,opens,named⟩
    · exact .inl ⟨tx,old,.inl same⟩
    · exact .inl ⟨tx,old,.inr ⟨env,op,updates⟩⟩
    · exact .inr ⟨named,env,op,rfl,opens⟩
  | @marked i env ready id' =>
    rcases stepped known with ⟨tx,old,same | updates⟩ | ⟨_,opens,_⟩
    · exact .inl ⟨tx,old,.inl same⟩
    · exact .inl ⟨tx,old,.inr ⟨env,.markDelivered id',updates⟩⟩
    · cases opens
  | restarted starts => exact .inl ⟨tx',settled.mirrored.restart starts id tx' known,.inl rfl⟩

def Outbound (id : TransactionId) (a : Server) (tx : Transaction) : Prop :=
  a.world.index.lookup id = some tx ∧ tx.targetServer ≠ []

/-- It was there, and once it is closed it stays as it is, or it has just been created. -/
theorem Own.outbound (own : Own cfg a act a') (settled : Settled a) {tx' : Transaction} (outbound : Outbound id a' tx') :
    (∃ tx, Outbound id a tx ∧ (tx.state ≠ .open → tx'.state ≠ .open ∧ tx'.cargo = tx.cargo)) ∨ act.creates id = true := by
  obtain ⟨known,target⟩ := outbound
  rcases own.origin settled id tx' known with ⟨tx,old,rfl | ⟨_,_,updates⟩⟩ | ⟨rfl,env,op,rfl,opens⟩
  · exact .inl ⟨_,⟨old,target⟩,fun closed => ⟨closed,rfl⟩⟩
  · rw [updates.targetServer] at target
    refine .inl ⟨tx,⟨old,target⟩,fun closed => ?_⟩
    have frozen := updates.frozen closed
    exact ⟨frozen.closed closed,frozen.cargo⟩
  · cases opens with
    | created => exact .inr (by simp [PeerAct.creates])
    | received => exact absurd rfl target

structure Once (id : TransactionId) (a : Server) (acts : List PeerAct) : Prop where
  atMost : acts.countP (PeerAct.creates id) ≤ 1
  spent : ∀ tx, Outbound id a tx → acts.countP (PeerAct.creates id) = 0

theorem Once.step (once : Once id s.a (act :: acts)) (settled : Settled s.a) : Once id (s.step cfg act).a acts := by
  obtain ⟨atMost,spent⟩ := once
  rw [List.countP_cons] at atMost spent
  refine ⟨by omega,fun tx' outbound => ?_⟩
  rcases (step_did cfg s act).own.outbound settled outbound with ⟨tx,before,_⟩ | creates
  · have := spent tx before
    omega
  · rw [creates] at atMost
    simp only [if_true] at atMost
    omega

/-- If there is one it is closed, with these contents. -/
def Closed (id : TransactionId) (c : Cargo) (a : Server) : Prop := ∀ tx, Outbound id a tx → tx.state ≠ .open ∧ tx.cargo = c

theorem Closed.run {c : Cargo} (closed : Closed id c s.a) (settled : Settled s.a)
    (none : acts.countP (PeerAct.creates id) = 0) : Closed id c (Runs.run (step cfg) s acts).a := by
  induction acts generalizing s with
  | nil => exact closed
  | cons act acts ih =>
    have own := (step_did cfg s act).own
    rw [List.countP_cons] at none
    refine ih ?_ (own.settled settled) (by omega)
    intro tx' outbound
    rcases own.outbound settled outbound with ⟨tx,before,stays⟩ | creates
    · obtain ⟨shut,same⟩ := closed tx before
      exact ⟨(stays shut).1,(stays shut).2.trans same⟩
    · rw [creates] at none
      simp at none

/-- At some point of the run the transaction waits to be sent, with these contents. -/
def SentAs (cfg : PeerConfig) (id : TransactionId) (s : Peering) (acts : List PeerAct) (c : Cargo) : Prop :=
  ∃ first second tx, acts = first ++ second ∧ (Runs.run (step cfg) s first).a.world.index.lookup id = some tx ∧
    isOutgoing tx = true ∧ tx.cargo = c

omit [BoostJson] in
theorem isOutgoing_iff {tx : Transaction} : isOutgoing tx = true ↔
    tx.originServer = [] ∧ tx.targetServer ≠ [] ∧ tx.state = .committed := by
  simp [isOutgoing,and_assoc]

theorem sentAs_unique (settled : Settled s.a) (once : Once id s.a acts) {c c' : Cargo} (first : SentAs cfg id s acts c)
    (second : SentAs cfg id s acts c') : c = c' := by
  induction acts generalizing s with
  | nil =>
    obtain ⟨before,after,tx,split,known,_,rfl⟩ := first
    obtain ⟨before',after',tx',split',known',_,rfl⟩ := second
    obtain ⟨rfl,rfl⟩ := List.nil_eq_append_iff.mp split
    obtain ⟨rfl,rfl⟩ := List.nil_eq_append_iff.mp split'
    rw [known] at known'
    rw [Option.some.inj known']
  | cons act acts ih =>
    by_cases shut : ∃ tx, Outbound id s.a tx ∧ tx.state ≠ .open
    · obtain ⟨tx,outbound,shut⟩ := shut
      have closed : Closed id tx.cargo s.a := by
        rintro tx' ⟨known',_⟩
        rw [outbound.1] at known'
        cases known'
        exact ⟨shut,rfl⟩
      have alike : ∀ {c : Cargo}, SentAs cfg id s (act :: acts) c → c = tx.cargo := by
        rintro _ ⟨before,after,tx',split,known,ready,rfl⟩
        have none := once.spent tx outbound
        rw [split,List.countP_append] at none
        exact (closed.run settled (by omega) tx' ⟨known,(isOutgoing_iff.mp ready).2.1⟩).2
      rw [alike first,alike second]
    · have later : ∀ {c : Cargo}, SentAs cfg id s (act :: acts) c → SentAs cfg id (s.step cfg act) acts c := by
        rintro c ⟨before,after,tx,split,known,ready,same⟩
        cases before with
        | nil =>
          obtain ⟨_,target,state⟩ := isOutgoing_iff.mp ready
          exact absurd ⟨tx,⟨known,target⟩,by rw [state]; simp⟩ shut
        | cons act' before =>
          cases split
          exact ⟨before,after,tx,rfl,known,ready,same⟩
      exact ih ((step_did cfg s act).own.settled settled) (once.step settled) (later first) (later second)

end Peering
end Confide
