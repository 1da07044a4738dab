import Confide.Ledger

/-! The retention worker beside the rest of the service: it lists what has expired once, then
expires it one by one while other operations go on. -/
namespace Confide

open Bytes

structure SweepResult where
  expired : Nat
  failed : Nat
  deriving DecidableEq, Repr

/-- A server with its retention worker: what the sweep that is going on has left to do. -/
structure Retention where
  server : Server
  now : Int
  left : List TransactionId
  result : SweepResult

/-- Another operation, the list a sweep begins with, or the next `expire` of the sweep. -/
inductive Retention.Act where
  | serve (op : Op)
  | listExpired
  | expireNext

def SweepResult.count (result : SweepResult) : Result Unit → SweepResult
  | .ok _ => { result with expired := result.expired + 1 }
  | .error _ => { result with failed := result.failed + 1 }

section Step

variable (sha256 : Bytes → Sha256Digest) (opts : ServiceOptions)

def Retention.step [BoostJson] (s : Retention) : Env × Retention.Act → Retention
  | (env,.serve op) => { s with server := s.server.step sha256 opts env op, now := env.now }
  | (env,.listExpired) =>
    match s.left with
    | [] =>
      let listed := perform sha256 env TransactionService.listExpired s.server.world
      ⟨{ s.server with world := listed.2 },env.now,listed.1,⟨0,0⟩⟩
    | _ => { s with now := env.now }
  | (env,.expireNext) =>
    match s.left with
    | [] => { s with now := env.now }
    | id :: rest => ⟨s.server.step sha256 opts env (.expire id),env.now,rest,
        s.result.count (s.server.reply sha256 opts env (.expire id))⟩

end Step

def Retention.empty (start : Int) : Retention := ⟨Server.empty,start,[],⟨0,0⟩⟩

/-- No operation that is carried out gives a longer life to what the sweep is about to expire: a retention that ends in
the future, or a new transaction with its id that has not expired either. -/
def Retention.Spares [BoostJson] (sha256 : Bytes → Sha256Digest) (opts : ServiceOptions) (s : Retention) (env : Env) :
    Retention.Act → Prop
  | .serve op => s.server.reply sha256 opts env op = .ok () → match op with
    | .setRetention _ id days => id ∈ s.left → ∀ tx, s.server.world.index.lookup id = some tx →
      ∀ expires, expiresAt tx.createdAt days = .ok expires → expires ≤ env.now
    | .receive _ req => req.id ∈ s.left → req.expiresAt ≤ env.now
    | .create _ _ => env.fresh ∉ s.left
    | _ => True
  | _ => True

structure Retention.Due (s : Retention) : Prop where
  orderly : Orderly s.server
  due : Throughout (fun id tx => id ∈ s.left → tx.expiresAt ≤ s.now) s.server.world.index

variable {sha256 : Bytes → Sha256Digest} {opts : ServiceOptions} {env : Env} {pending : List PendingUpload} {op : Op}
  {tx tx' : Transaction} {s : Retention}

theorem Updates.expiry (updates : Updates sha256 opts env pending op tx tx') : tx'.expiresAt = tx.expiresAt ∨
    ∃ admin days, op = .setRetention admin tx.id days ∧ expiresAt tx.createdAt days = .ok tx'.expiresAt := by
  cases updates with
  | retained _ _ _ _ lasts => exact .inr ⟨_,_,rfl,lasts⟩
  | uploaded | erased | committed | delivered | marked => exact .inl rfl

section

variable (due : s.Due) (later : s.now ≤ env.now)
include due later

variable [BoostJson]

theorem Retention.Due.serve (spares : s.Spares sha256 opts env (.serve op)) :
    (s.step sha256 opts (env,.serve op)).Due := by
  obtain ⟨⟨takes,_⟩,_⟩ := step_takes sha256 opts env due.orderly.keyed op
  have all : Throughout (fun id tx => id ∈ s.left → tx.expiresAt ≤ env.now) s.server.world.index :=
    fun id tx known listed => (due.due id tx known listed).trans later
  refine ⟨step_orderly due.orderly op,?_⟩
  change Throughout (fun id tx => id ∈ s.left → tx.expiresAt ≤ env.now) (s.server.step sha256 opts env op).world.index
  generalize done : s.server.reply sha256 opts env op = result at takes
  generalize (s.server.step sha256 opts env op).world.index = after at takes ⊢
  cases takes with
  | opened opens _ =>
    refine all.insert fun listed => ?_
    cases opens with
    | created => exact absurd listed (spares done)
    | received => exact spares done listed
  | updated known updates =>
    refine all.insert fun listed => ?_
    rcases updates.expiry with same | ⟨admin,days,rfl,lasts⟩
    · exact same ▸ all _ _ known listed
    · exact spares done listed _ known _ lasts
  | dropped => exact all.erase _
  | streamed | refused => exact all
  | marked _ known drops updates =>
    refine all.insert fun listed => ?_
    rcases updates.expiry with same | ⟨_,_,rfl,_⟩
    · exact same ▸ all _ _ known listed
    · cases drops

theorem Retention.Due.listExpired :
    (s.step sha256 opts (env,.listExpired)).Due := by
  obtain ⟨server,now,_ | ⟨id,rest⟩,result⟩ := s
  · refine ⟨⟨due.orderly.keyed,due.orderly.placed⟩,?_⟩
    intro id tx known listed
    obtain ⟨tx',found,same⟩ := List.mem_map.mp (show id ∈ (server.world.all.filter _).map (·.id) from listed)
    obtain ⟨found,expired⟩ := List.mem_filter.mp found
    obtain ⟨key,found⟩ := World.mem_all.mp found
    have whose : key = id := (due.orderly.keyed key tx' found).symm.trans same
    obtain rfl : tx' = tx := Option.some.inj (found.symm.trans (whose ▸ known))
    exact of_decide_eq_true expired
  · exact ⟨due.orderly,fun id tx known listed => (due.due id tx known listed).trans later⟩

theorem Retention.Due.expireNext :
    (s.step sha256 opts (env,.expireNext)).Due := by
  obtain ⟨server,now,_ | ⟨next,rest⟩,result⟩ := s
  · exact ⟨due.orderly,fun id tx known listed => by cases listed⟩
  · obtain ⟨⟨takes,_⟩,_⟩ := step_takes sha256 opts env due.orderly.keyed (.expire next)
    refine ⟨step_orderly due.orderly _,takes.throughout ?_ ?_ ?_⟩
    · exact fun tx opens => by cases opens
    · intro tx tx' updates known before listed
      rcases updates.expiry with same | ⟨_,_,other,_⟩
      · exact same ▸ before listed
      · contradiction
    · exact fun id tx known listed => (due.due id tx known (List.mem_cons_of_mem _ listed)).trans later

theorem Retention.Due.step {act : Retention.Act} (spares : s.Spares sha256 opts env act) :
    (s.step sha256 opts (env,act)).Due := by
  cases act with
  | serve op => exact due.serve later spares
  | listExpired => exact due.listExpired later
  | expireNext => exact due.expireNext later

end

/-- In every run beside which nothing that a sweep has listed is given a longer life, whatever fails, a transaction has
expired at the moment the sweep removes it. -/
theorem sweep_removes_expired [BoostJson] (sha256 : Bytes → Sha256Digest) (opts : ServiceOptions) (start : Int)
    (inputs before after : List (Env × Retention.Act))
    (spared : Runs.Along (Retention.step sha256 opts) (fun s input => s.now ≤ input.1.now ∧
      s.Spares sha256 opts input.1 input.2) (.empty start) inputs)
    (env : Env) (split : inputs = before ++ (env,.expireNext) :: after) (id : TransactionId) (rest : List TransactionId)
    (next : (Runs.run (Retention.step sha256 opts) (.empty start) before).left = id :: rest) (call : SvcCall × World)
    (made : call ∈ (Runs.run (Retention.step sha256 opts) (.empty start) before).server.calls
      sha256 opts env (.expire id))
    (removed : TransactionId) (removes : call.1 = .remove removed) :
    ∃ tx, call.2.index.lookup removed = some tx ∧ tx.expiresAt ≤ env.now := by
  have initial : (Retention.empty start).Due := ⟨empty_orderly,nofun⟩
  obtain ⟨due,later,_⟩ := spared.before Retention.Due (fun s input due ok => due.step ok.1 ok.2) initial split
  generalize Runs.run (Retention.step sha256 opts) _ before = s at next made due later
  obtain ⟨_,may⟩ := step_takes sha256 opts env due.orderly.keyed (.expire id)
  have updates : ∀ tx tx', Updates sha256 opts env s.server.pending (.expire id) tx tx' →
      (tx.id ∈ s.left → tx.expiresAt ≤ env.now) → tx.id ∈ s.left → tx'.expiresAt ≤ env.now := by
    intro tx tx' updates before listed
    rcases updates.expiry with same | ⟨_,_,other,_⟩
    · exact same ▸ before listed
    · contradiction
  obtain ⟨there,_⟩ := calls_throughout due.orderly.keyed (fun tx opens => by cases opens) updates
    (fun id tx known listed => (due.due id tx known listed).trans later) call made
  have allowed := may call made
  obtain ⟨c,w⟩ := call
  subst removes
  obtain ⟨drops,tx,known,_⟩ := allowed
  cases drops with
  | expired => exact ⟨tx,known,there _ tx known (next ▸ List.mem_cons_self ..)⟩

def SvcCall.removed : SvcCall → Option TransactionId
  | .remove id => some id
  | _ => none

theorem SvcCall.removed_eq {c : SvcCall} {id : TransactionId} (removes : c.removed = some id) : c = .remove id := by
  cases c <;> simp_all [SvcCall.removed]

def lastDay : Env := { Sample.env with now := 1752592000 }

theorem sweep_removes_the_upload : ∃ call ∈ (Runs.run (Retention.step Sample.sha256 Sample.opts) (.empty 0)
        [(Sample.env,.serve (.create Sample.alice Sample.request)),(lastDay,.listExpired)]).server.calls
        Sample.sha256 Sample.opts lastDay (.expire Sample.id),
      ∃ tx, call.2.index.lookup Sample.id = some tx ∧ tx.expiresAt ≤ lastDay.now := by
  have some_removes : ((Runs.run (Retention.step Sample.sha256 Sample.opts) (.empty 0)
      [(Sample.env,.serve (.create Sample.alice Sample.request)),(lastDay,.listExpired)]).server.calls
      Sample.sha256 Sample.opts lastDay (.expire Sample.id)).any (fun call => call.1.removed == some Sample.id) = true := by
    decide +kernel
  obtain ⟨call,made,removes⟩ := List.any_eq_true.mp some_removes
  refine ⟨call,made,sweep_removes_expired Sample.sha256 Sample.opts 0 _ _ [] ?_ lastDay rfl Sample.id [] ?_ call made
    Sample.id (SvcCall.removed_eq (beq_iff_eq.mp removes))⟩
  · exact ⟨⟨by decide,fun _ listed => by cases listed⟩,⟨by decide,trivial⟩,⟨by decide +kernel,trivial⟩,trivial⟩
  · decide +kernel

/-- The retention of a transaction is prolonged after the sweep has listed it: the sweep removes
it ten years too early. -/
theorem sweep_removes_prolonged : ((Runs.run (Retention.step Sample.sha256 Sample.opts) (.empty 0)
      [(Sample.env,.serve (.create Sample.alice Sample.request)),(lastDay,.listExpired),
        (lastDay,.serve (.setRetention ⟨ascii "root",false,true⟩ Sample.id 3650))]).server.calls
      Sample.sha256 Sample.opts lastDay (.expire Sample.id)).any (fun call => call.1.removed == some Sample.id &&
        (call.2.index.lookup Sample.id).any fun tx => lastDay.now < tx.expiresAt) = true ∧
    (Runs.run (Retention.step Sample.sha256 Sample.opts) (.empty 0)
      [(Sample.env,.serve (.create Sample.alice Sample.request)),(lastDay,.listExpired),
        (lastDay,.serve (.setRetention ⟨ascii "root",false,true⟩ Sample.id 3650)),
        (lastDay,.expireNext)]).result = ⟨1,0⟩ := by
  decide +kernel

end Confide
