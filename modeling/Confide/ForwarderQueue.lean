import Confide.PushMetadata
import Mathlib.Data.List.MinMax

/-! The forwarder's queue: commits put transactions into it, one worker takes them out, pushes them and
puts back what may still work out. A commit has been saved for a while before its hook runs. -/
namespace Confide

open Bytes Resumption.Prog

namespace Forwarder

def isTransient : ErrCode → Bool
  | .unavailable | .throttled | .internal | .io | .integrity => true
  | _ => false

structure Pending where
  id : TransactionId
  attempts : UInt32
  due : Int
  deriving DecidableEq, Repr

structure Retries where
  firstRetry : Int
  maxRetry : Int

/-- The wait doubles with each attempt after the first until it reaches the longest. -/
def doubled (retries : Retries) : Nat → Int
  | 0 => retries.firstRetry
  | n + 1 => if doubled retries n < retries.maxRetry then doubled retries n * 2 else doubled retries n

def backoff (retries : Retries) (attempts : UInt32) : Int := min (doubled retries (attempts.toNat - 1)) retries.maxRetry

def enqueue (now : Int) (id : TransactionId) (queue : List Pending) : List Pending :=
  if queue.any fun pending => pending.id = id then queue else queue ++ [⟨id,0,now⟩]

def next (queue : List Pending) : Option Pending :=
  @List.argmin Pending Int Int.instLinearOrder.toPartialOrder.toPreorder Int.decLt (·.due) queue

end Forwarder

/-- What the worker thread is doing: it has not been started or has ended, it waits for something to do, it
pushes an item it has taken from the queue, or it is about to put one back. -/
inductive Worker where
  | off
  | waiting
  | pushing (item : Forwarder.Pending)
  | retrying (item : Forwarder.Pending)
  deriving DecidableEq, Repr

def Worker.hand : Worker → Option Forwarder.Pending
  | .off | .waiting => none
  | .pushing item | .retrying item => some item

/-- A server with its forwarder. `hooks` are commits that are saved but have not run their hook, and `listing` is what
`start` has listed and not yet queued. -/
structure Forwarding where
  server : Server
  queue : List Forwarder.Pending
  stop : Bool
  worker : Worker
  listing : Option (List TransactionId)
  hooks : List Transaction

namespace Forwarding

inductive Act where
  | serve (op : Op)
  | commit (caller : Caller) (id : TransactionId)
  | hook (k : Nat)
  | startList
  | startNext
  | startWorker
  | pop
  | pushFails (e : Error)
  /-- The push ends with the attempt to mark the transaction delivered. -/
  | pushMarks
  | requeue
  | stop
  | exit

def pushed (retries : Forwarder.Retries) (now : Int) (item : Forwarder.Pending) (result : Result Unit) (s : Forwarding) :
    Forwarding :=
  match result with
  | .ok _ => { s with worker := .waiting }
  | .error e =>
    if Forwarder.isTransient e.code then
      let attempts := item.attempts + 1
      { s with worker := .retrying ⟨item.id,attempts,now + Forwarder.backoff retries attempts⟩ }
    else { s with worker := .waiting }

variable (sha256 : Bytes → Sha256Digest) (opts : ServiceOptions) (retries : Forwarder.Retries)

variable [BoostJson]

/-- One step of some thread; `now` is the steady clock. An act whose time has not come does nothing. -/
def step (s : Forwarding) : Env × Int × Act → Forwarding
  | (env,_,.serve op) =>
    match op with
    | .commit _ _ => s
    | _ => { s with server := s.server.step sha256 opts env op }
  | (env,_,.commit caller id) =>
    let server := s.server.step sha256 opts env (.commit caller id)
    match s.server.reply sha256 opts env (.commit caller id), server.world.index.lookup id with
    | .ok _, some tx => { s with server := server, hooks := s.hooks ++ [tx] }
    | _, _ => { s with server := server }
  | (_,now,.hook k) =>
    match s.hooks[k]? with
    | none => s
    | some tx =>
      { s with
        hooks := s.hooks.eraseIdx k
        queue := if tx.targetServer = [] then s.queue else Forwarder.enqueue now tx.id s.queue }
  | (env,_,.startList) =>
    match s.worker, s.listing with
    | .off, none =>
      { s with listing := some (perform sha256 env TransactionService.listOutgoing s.server.world).1 }
    | _, _ => s
  | (_,now,.startNext) =>
    match s.listing with
    | some (id :: rest) => { s with listing := some rest, queue := Forwarder.enqueue now id s.queue }
    | _ => s
  | (_,_,.startWorker) =>
    match s.listing with
    | some [] => { s with listing := none, stop := false, worker := .waiting }
    | _ => s
  | (_,now,.pop) =>
    match s.worker, Forwarder.next s.queue with
    | .waiting, some item =>
      if s.stop ∨ now < item.due then s else { s with queue := s.queue.erase item, worker := .pushing item }
    | _, _ => s
  | (_,now,.pushFails e) =>
    match s.worker with
    | .pushing item => s.pushed retries now item (.error e)
    | _ => s
  | (env,now,.pushMarks) =>
    match s.worker with
    | .pushing item =>
      { s with server := s.server.step sha256 opts env (.markDelivered item.id) }.pushed retries now item
        (s.server.reply sha256 opts env (.markDelivered item.id))
    | _ => s
  | (_,_,.requeue) =>
    match s.worker with
    | .retrying item => { s with worker := .waiting, queue := if s.stop then s.queue else s.queue ++ [item] }
    | _ => s
  | (_,_,.stop) => if s.listing.isSome then s else { s with stop := true }
  | (_,_,.exit) =>
    match s.worker with
    | .waiting => if s.stop then { s with worker := .off } else s
    | _ => s

inductive Event where
  | started
  | ended (id : TransactionId) (result : Result Unit)

/-- What a step means for the pushes: a start has listed what is outgoing, or a push has ended. -/
def event (s : Forwarding) : Env × Int × Act → Option Event
  | (_,_,.startList) => if s.worker = .off ∧ s.listing = none then some .started else none
  | (_,_,.pushFails e) =>
    match s.worker with
    | .pushing item => some (.ended item.id (.error e))
    | _ => none
  | (env,_,.pushMarks) =>
    match s.worker with
    | .pushing item => some (.ended item.id (s.server.reply sha256 opts env (.markDelivered item.id)))
    | _ => none
  | _ => none

/-- Since the last start, the last push of the transaction has ended with an error that no retry follows. -/
inductive Refused (start : Forwarding) (id : TransactionId) : List (Env × Int × Act) → Prop
  | last {inputs : List (Env × Int × Act)} {input : Env × Int × Act} {e : Error}
    (ended : (Runs.run (step sha256 opts retries) start inputs).event sha256 opts input = some (.ended id (.error e)))
    (final : Forwarder.isTransient e.code = false) : Refused start id (inputs ++ [input])
  | earlier {inputs : List (Env × Int × Act)} {input : Env × Int × Act} (before : Refused start id inputs)
    (since : ∀ told ∈ (Runs.run (step sha256 opts retries) start inputs).event sha256 opts input,
      told ≠ .started ∧ ∀ result, told ≠ .ended id result) : Refused start id (inputs ++ [input])

end Forwarding

variable {sha256 : Bytes → Sha256Digest} {opts : ServiceOptions} {retries : Forwarder.Retries} {env : Env}
  {pending : List PendingUpload} {op : Op} {tx tx' : Transaction} {id : TransactionId}

theorem Opens.not_outgoing (opens : Opens opts env op tx) : isOutgoing tx = false := by
  cases opens <;> simp [isOutgoing]

theorem Updates.outgoing (updates : Updates sha256 opts env pending op tx tx') (outgoing : isOutgoing tx' = true) :
    isOutgoing tx = true ∨ ∃ caller, op = .commit caller tx.id := by
  cases updates with
  | uploaded | erased | retained => exact .inl outgoing
  | committed => exact .inr ⟨_,rfl⟩
  | delivered | marked => simp [isOutgoing] at outgoing

/-- A transaction is outgoing because it was, or because this operation has committed it. -/
theorem step_outgoing [BoostJson] {s : Server} (keyed : Keyed s.world.index) (op : Op) :
    Throughout (fun id tx' => isOutgoing tx' = true → (∃ tx, s.world.index.lookup id = some tx ∧ isOutgoing tx = true) ∨
      ((∃ caller, op = .commit caller id) ∧ s.reply sha256 opts env op = .ok ())) (s.step sha256 opts env op).world.index := by
  obtain ⟨⟨takes,_⟩,_⟩ := step_takes sha256 opts env keyed op
  have before : Throughout (fun id tx' => isOutgoing tx' = true →
      (∃ tx, s.world.index.lookup id = some tx ∧ isOutgoing tx = true) ∨
      ((∃ caller, op = .commit caller id) ∧ s.reply sha256 opts env op = .ok ())) s.world.index :=
    fun id tx known outgoing => .inl ⟨tx,known,outgoing⟩
  generalize (s.step sha256 opts env op).world.index = after at takes
  generalize s.reply sha256 opts env op = result at takes before ⊢
  cases takes with
  | opened opens =>
    apply before.insert
    simp [opens.not_outgoing]
  | updated known updates =>
    apply before.insert
    intro outgoing
    rcases updates.outgoing outgoing with earlier | committed
    · exact .inl ⟨_,known,earlier⟩
    · exact .inr ⟨committed,rfl⟩
  | dropped => exact before.erase _
  | streamed | refused => exact before
  | marked e known drops updates =>
    apply before.insert
    intro outgoing
    rcases updates.outgoing outgoing with earlier | ⟨caller,rfl⟩
    · exact .inl ⟨_,known,earlier⟩
    · cases drops

theorem markDelivered_over [BoostJson] {s : Server} (keyed : Keyed s.world.index)
    (marked : s.reply sha256 opts env (.markDelivered id) = .ok ())
    (known : (s.step sha256 opts env (.markDelivered id)).world.index.lookup id = some tx) : isOutgoing tx = false := by
  obtain ⟨⟨takes,_⟩,_⟩ := step_takes sha256 opts env keyed (.markDelivered id)
  rw [marked] at takes
  generalize (s.step sha256 opts env (.markDelivered id)).world.index = after at takes known
  cases takes with
  | opened opens => cases opens
  | updated _ updates =>
    cases updates with
    | delivered =>
      rw [Finmap.lookup_insert] at known
      cases known
      simp [isOutgoing]
    | marked drops => cases drops
  | dropped _ drops => cases drops
  | streamed part => contradiction

theorem mem_listOutgoing [BoostJson] {w : World} (keyed : Keyed w.index) (known : w.index.lookup id = some tx)
    (outgoing : isOutgoing tx = true) : id ∈ (perform sha256 env TransactionService.listOutgoing w).1 := by
  have listed : tx ∈ w.all.filter isOutgoing := List.mem_filter.mpr ⟨World.mem_all.mpr ⟨id,known⟩,outgoing⟩
  rw [perform,TransactionService.listOutgoing,run_bind]
  apply List.mem_map.mpr
  exact ⟨tx,(List.perm_insertionSort _ _).mem_iff.mpr listed,keyed id tx known⟩

namespace Forwarder

variable {queue : List Pending} {item : Pending} {now : Int}

theorem mem_enqueue {other : TransactionId} :
    other ∈ (enqueue now id queue).map (·.id) ↔ other ∈ queue.map (·.id) ∨ other = id := by
  unfold enqueue
  split
  · rename_i there
    have queued : id ∈ queue.map (·.id) := by simpa using there
    constructor
    · exact .inl
    · rintro (before | rfl)
      · exact before
      · exact queued
  · simp

theorem enqueue_nodup (once : (queue.map (·.id)).Nodup) : ((enqueue now id queue).map (·.id)).Nodup := by
  unfold enqueue
  split
  · exact once
  · rename_i new
    rw [List.map_append]
    apply List.Nodup.append once (List.nodup_singleton id)
    simpa [List.disjoint_singleton] using new

theorem erase_taken (once : (queue.map (·.id)).Nodup) (member : item ∈ queue) :
    ((queue.erase item).map (·.id)).Nodup ∧ item.id ∉ (queue.erase item).map (·.id) := by
  have same := (List.perm_cons_erase member).map (·.id)
  rw [same.nodup_iff,List.map_cons,List.nodup_cons] at once
  exact ⟨once.2,once.1⟩

end Forwarder

namespace Forwarding

variable {s : Forwarding} {refused refused' : TransactionId → Prop}

/-- The forwarder knows of the transaction: it is queued, in the worker's hand, refused since the last start, or
its commit is about to queue it. -/
inductive Kept (refused : TransactionId → Prop) (s : Forwarding) (id : TransactionId) : Prop
  | queued (there : id ∈ s.queue.map (·.id))
  | inHand (item : Forwarder.Pending) (held : s.worker.hand = some item) (its : item.id = id)
  | refused (last : refused id)
  | committing (tx : Transaction) (saved : tx ∈ s.hooks) (its : tx.id = id) (remote : tx.targetServer ≠ [])

/-- While a start goes on, the forwarder also knows what is listed. -/
structure Watchful (refused : TransactionId → Prop) (s : Forwarding) : Prop where
  keyed : Keyed s.server.world.index
  starting : ∀ waiting, s.listing = some waiting → s.worker = .off ∧
    ∀ id tx, s.server.world.index.lookup id = some tx → isOutgoing tx = true → id ∈ waiting ∨ s.Kept refused id
  running : s.worker ≠ .off → s.stop = false →
    ∀ id tx, s.server.world.index.lookup id = some tx → isOutgoing tx = true → s.Kept refused id

variable {s' : Forwarding}

/-- A step of the threads that neither starts nor ends the worker. -/
theorem Watchful.carry (watchful : s.Watchful refused) (keyed : Keyed s'.server.world.index)
    (listing : s'.listing = s.listing) (worker : s'.worker = .off ↔ s.worker = .off) (stop : s'.stop = s.stop)
    (carried : ∀ id tx', s'.server.world.index.lookup id = some tx' → isOutgoing tx' = true → s'.Kept refused' id ∨
      ((∃ tx, s.server.world.index.lookup id = some tx ∧ isOutgoing tx = true) ∧
        (s.Kept refused id → s'.Kept refused' id))) : s'.Watchful refused' := by
  constructor
  · exact keyed
  · intro waiting going
    obtain ⟨off,known⟩ := watchful.starting waiting (listing ▸ going)
    apply And.intro (worker.mpr off)
    intro id tx' stored outgoing
    rcases carried id tx' stored outgoing with kept | ⟨⟨tx,before,was⟩,keeps⟩
    · exact .inr kept
    · exact (known id tx before was).imp_right keeps
  · intro on go id tx' stored outgoing
    rcases carried id tx' stored outgoing with kept | ⟨⟨tx,before,was⟩,keeps⟩
    · exact kept
    · exact keeps (watchful.running (fun off => on (worker.mpr off)) (stop ▸ go) id tx before was)

/-- What was queued or in hand is looked at; the rest stays. -/
theorem Kept.map (kept : s.Kept refused id) (queued : id ∈ s.queue.map (·.id) → s'.Kept refused' id)
    (inHand : ∀ item, s.worker.hand = some item → item.id = id → s'.Kept refused' id) (last : refused id → refused' id)
    (hooks : s.hooks ⊆ s'.hooks) : s'.Kept refused' id := by
  cases kept with
  | queued there => exact queued there
  | inHand item held its => exact inHand item held its
  | refused was => exact .refused (last was)
  | committing tx saved its remote => exact .committing tx (hooks saved) its remote

theorem Kept.mono (kept : s.Kept refused id) (last : refused id → refused' id)
    (queue : s.queue.map (·.id) ⊆ s'.queue.map (·.id)) (worker : s'.worker = s.worker) (hooks : s.hooks ⊆ s'.hooks) :
    s'.Kept refused' id :=
  kept.map (fun there => .queued (queue there)) (fun item held its => .inHand item (worker ▸ held) its) last hooks

theorem Watchful.wider (watchful : s.Watchful refused) (wider : ∀ id, refused id → refused' id) : s.Watchful refused' :=
  watchful.carry watchful.keyed rfl Iff.rfl rfl fun id tx stored outgoing =>
    .inr ⟨⟨tx,stored,outgoing⟩,fun kept => kept.mono (wider id) (List.Subset.refl _) rfl (List.Subset.refl _)⟩

variable [BoostJson]

theorem Watchful.serve (watchful : s.Watchful refused) {op : Op} (other : ∀ caller id, op ≠ .commit caller id) :
    Watchful refused { s with server := s.server.step sha256 opts env op } := by
  refine watchful.carry (step_keyed watchful.keyed op) rfl Iff.rfl rfl ?_
  intro id tx' stored outgoing
  rcases step_outgoing watchful.keyed op id tx' stored outgoing with before | ⟨⟨caller,commits⟩,_⟩
  · exact .inr ⟨before,fun kept => kept.mono (fun last => last) (List.Subset.refl _) rfl (List.Subset.refl _)⟩
  · exact absurd commits (other caller id)

theorem Watchful.commit (watchful : s.Watchful refused) (env : Env) (now : Int) (caller : Caller) (id : TransactionId) :
    (s.step sha256 opts retries (env,now,.commit caller id)).Watchful refused := by
  have keyed : Keyed (s.server.step sha256 opts env (.commit caller id)).world.index := step_keyed watchful.keyed _
  have origin : Throughout _ (s.server.step sha256 opts env (.commit caller id)).world.index :=
    step_outgoing watchful.keyed (.commit caller id)
  unfold step
  dsimp only
  split
  · rename_i tx done stored
    refine watchful.carry keyed rfl Iff.rfl rfl ?_
    intro id' tx' stored' outgoing
    rcases origin id' tx' stored' outgoing with before | ⟨⟨_,commits⟩,_⟩
    · exact .inr ⟨before,fun kept => kept.mono (fun last => last) (List.Subset.refl _) rfl (List.subset_append_left _ _)⟩
    · left
      cases commits
      obtain rfl := Option.some.inj (stored.symm.trans stored')
      simp only [isOutgoing,Bool.and_eq_true,Bool.not_eq_true',List.isEmpty_eq_false_iff] at outgoing
      exact .committing tx (List.mem_append_right _ (List.mem_singleton_self tx)) (keyed _ _ stored) outgoing.1.2
  · rename_i failed
    refine watchful.carry keyed rfl Iff.rfl rfl ?_
    intro id' tx' stored outgoing
    rcases origin id' tx' stored outgoing with before | ⟨⟨_,commits⟩,done⟩
    · exact .inr ⟨before,fun kept => kept.mono (fun last => last) (List.Subset.refl _) rfl (List.Subset.refl _)⟩
    · cases commits
      exact (failed () tx' done stored).elim

omit [BoostJson] in
theorem mem_or_eraseIdx {α : Type} {xs : List α} {k : Nat} {x y : α} (here : xs[k]? = some x) (member : y ∈ xs) :
    y = x ∨ y ∈ xs.eraseIdx k := by
  obtain ⟨bound,rfl⟩ := List.getElem?_eq_some_iff.mp here
  obtain ⟨i,bound',rfl⟩ := List.getElem_of_mem member
  by_cases same : i = k
  · subst same
    exact .inl rfl
  · exact .inr (List.mem_eraseIdx_iff_getElem.mpr ⟨i,bound',same,rfl⟩)

section

variable (watchful : s.Watchful refused)
include watchful

theorem Watchful.hook (env : Env) (now : Int) (k : Nat) :
    (s.step sha256 opts retries (env,now,.hook k)).Watchful refused := by
  unfold step
  dsimp only
  split
  · exact watchful
  · rename_i tx here
    refine watchful.carry watchful.keyed rfl Iff.rfl rfl ?_
    intro id tx' stored outgoing
    right
    apply And.intro ⟨tx',stored,outgoing⟩
    intro kept
    cases kept with
    | queued there =>
      apply Kept.queued
      dsimp only
      split
      · exact there
      · exact Forwarder.mem_enqueue.mpr (.inl there)
    | inHand item held its => exact .inHand item held its
    | refused last => exact .refused last
    | committing tx₁ saved its remote =>
      rcases mem_or_eraseIdx here saved with rfl | later
      · apply Kept.queued
        dsimp only
        rw [if_neg remote,← its]
        exact Forwarder.mem_enqueue.mpr (.inr rfl)
      · exact .committing tx₁ later its remote

theorem Watchful.startList (env : Env) (now : Int)
    (since : s.event sha256 opts (env,now,.startList) = none → ∀ id, refused id → refused' id) :
    (s.step sha256 opts retries (env,now,.startList)).Watchful refused' := by
  unfold step
  dsimp only
  split
  · rename_i off none
    constructor
    · exact watchful.keyed
    · intro waiting listed
      cases listed
      exact ⟨off,fun id tx stored outgoing => .inl (mem_listOutgoing watchful.keyed stored outgoing)⟩
    · exact fun on => absurd off on
  · rename_i busy
    exact watchful.wider (since (if_neg fun idle => busy idle.1 idle.2))

theorem Watchful.startNext (env : Env) (now : Int) :
    (s.step sha256 opts retries (env,now,.startNext)).Watchful refused := by
  unfold step
  dsimp only
  split
  · rename_i next rest going
    obtain ⟨off,known⟩ := watchful.starting _ going
    constructor
    · exact watchful.keyed
    · intro waiting listed
      cases listed
      apply And.intro off
      intro id tx stored outgoing
      rcases known id tx stored outgoing with listed | kept
      · rcases List.mem_cons.mp listed with rfl | later
        · exact .inr (.queued (Forwarder.mem_enqueue.mpr (.inr rfl)))
        · exact .inl later
      · exact .inr (kept.mono (fun last => last) (fun _ there => Forwarder.mem_enqueue.mpr (.inl there)) rfl (List.Subset.refl _))
    · exact fun on => absurd off on
  · exact watchful

theorem Watchful.startWorker (env : Env) (now : Int) :
    (s.step sha256 opts retries (env,now,.startWorker)).Watchful refused := by
  unfold step
  dsimp only
  split
  · rename_i going
    obtain ⟨off,known⟩ := watchful.starting _ going
    refine ⟨watchful.keyed,nofun,?_⟩
    intro _ _ id tx stored outgoing
    rcases known id tx stored outgoing with listed | kept
    · cases listed
    · exact kept.map (fun there => .queued there) (fun item held => by simp [off,Worker.hand] at held) (fun last => last) (List.Subset.refl _)
  · exact watchful

theorem Watchful.pop (env : Env) (now : Int) :
    (s.step sha256 opts retries (env,now,.pop)).Watchful refused := by
  unfold step
  dsimp only
  split
  · rename_i item idle found
    split
    · exact watchful
    refine watchful.carry watchful.keyed rfl (by simp [idle]) rfl ?_
    intro id tx stored outgoing
    refine .inr ⟨⟨tx,stored,outgoing⟩,fun kept => kept.map (fun there => ?_) (fun item held => ?_) (fun last => last)
      (List.Subset.refl _)⟩
    · obtain ⟨pending,member,its⟩ := List.mem_map.mp there
      by_cases same : pending = item
      · exact .inHand item rfl (same ▸ its)
      · exact .queued (List.mem_map.mpr ⟨pending,(List.mem_erase_of_ne same).mpr member,its⟩)
    · simp [idle,Worker.hand] at held
  · exact watchful

omit [BoostJson] in
/-- At the end of a push the item is in the hand still, refused, or delivered. -/
theorem Watchful.pushed {server : Server} {item : Forwarder.Pending}
    (held : s.worker = .pushing item) (now : Int) (result : Result Unit) (keyed : Keyed server.world.index)
    (origin : ∀ id tx', server.world.index.lookup id = some tx' → isOutgoing tx' = true →
      ∃ tx, s.server.world.index.lookup id = some tx ∧ isOutgoing tx = true)
    (ended : result = .ok () → ∀ tx, server.world.index.lookup item.id = some tx → isOutgoing tx = false)
    (since : ∀ id, id ≠ item.id → refused id → refused' id)
    (last : ∀ e, result = .error e → Forwarder.isTransient e.code = false → refused' item.id) :
    (Forwarding.pushed retries now item result { s with server := server }).Watchful refused' := by
  have ends : ∀ worker, worker ≠ .off → (∀ tx, server.world.index.lookup item.id = some tx → isOutgoing tx = true →
      Kept refused' { s with server := server, worker := worker } item.id) →
      Watchful refused' { s with server := server, worker := worker } := by
    intro worker on its
    refine watchful.carry keyed rfl (by simp [held,on]) rfl ?_
    intro id tx' stored outgoing
    refine .inr ⟨origin id tx' stored outgoing,fun kept => ?_⟩
    by_cases same : id = item.id
    · subst same
      exact its tx' stored outgoing
    · refine kept.map (fun there => .queued there) (fun item' held' its => ?_) (since id same) (List.Subset.refl _)
      obtain rfl : item = item' := by simpa [held,Worker.hand] using held'
      exact absurd its.symm same
  unfold Forwarding.pushed
  split
  · exact ends _ (by simp) fun tx stored outgoing => absurd outgoing (by simp [ended rfl tx stored])
  · rename_i e
    dsimp only
    split
    · exact ends _ (by simp) fun _ _ _ => .inHand _ rfl rfl
    · rename_i final
      exact ends _ (by simp) fun _ _ _ => .refused (last e rfl (Bool.eq_false_iff.mpr final))

theorem Watchful.requeue (env : Env) (now : Int) :
    (s.step sha256 opts retries (env,now,.requeue)).Watchful refused := by
  unfold step
  dsimp only
  split
  · rename_i item held
    constructor
    · exact watchful.keyed
    · intro waiting going
      rw [(watchful.starting waiting going).1] at held
      contradiction
    · intro _ go id tx stored outgoing
      dsimp only at go
      have kept := watchful.running (by simp [held]) go id tx stored outgoing
      refine kept.map (fun there => .queued ?_) (fun item' held' its => .queued ?_) (fun last => last) (List.Subset.refl _)
      · simp only [go,Bool.false_eq_true,if_false,List.map_append]
        exact List.mem_append_left _ there
      · obtain rfl : item = item' := by simpa [held,Worker.hand] using held'
        simp [go,its]
  · exact watchful

theorem Watchful.step (input : Env × Int × Act)
    (since : ∀ id, refused id → (∀ told ∈ s.event sha256 opts input, told ≠ .started ∧ ∀ result, told ≠ .ended id result) →
      refused' id)
    (last : ∀ id e, s.event sha256 opts input = some (.ended id (.error e)) → Forwarder.isTransient e.code = false →
      refused' id) : (s.step sha256 opts retries input).Watchful refused' := by
  obtain ⟨env,now,act⟩ := input
  have quiet : s.event sha256 opts (env,now,act) = none → ∀ id, refused id → refused' id :=
    fun none id was => since id was (by simp [none])
  have other : ∀ {id'} {result : Result Unit}, s.event sha256 opts (env,now,act) = some (.ended id' result) →
      ∀ id, id ≠ id' → refused id → refused' id :=
    fun ended id apart was => since id was (by simp [ended,Ne.symm apart])
  cases act with
  | serve op =>
    unfold Forwarding.step
    dsimp only
    split
    · exact watchful.wider (quiet rfl)
    · rename_i other
      exact (watchful.serve other).wider (quiet rfl)
  | commit caller id => exact (watchful.commit env now caller id).wider (quiet rfl)
  | hook k => exact (watchful.hook env now k).wider (quiet rfl)
  | startList => exact watchful.startList env now quiet
  | startNext => exact (watchful.startNext env now).wider (quiet rfl)
  | startWorker => exact (watchful.startWorker env now).wider (quiet rfl)
  | pop => exact (watchful.pop env now).wider (quiet rfl)
  | pushFails e =>
    unfold Forwarding.step
    unfold event at quiet other last
    dsimp only at quiet other last ⊢
    split
    · rename_i item held
      rw [held] at other last
      exact watchful.pushed held now (.error e) watchful.keyed (fun id tx stored outgoing => ⟨tx,stored,outgoing⟩) nofun
        (other rfl) fun e same => last _ e (by rw [same])
    · rename_i idle
      refine watchful.wider (quiet ?_)
      split
      · exact absurd ‹_› (idle _)
      · rfl
  | pushMarks =>
    unfold Forwarding.step
    unfold event at quiet other last
    dsimp only at quiet other last ⊢
    split
    · rename_i item held
      rw [held] at other last
      apply watchful.pushed held now _ (step_keyed watchful.keyed _)
      · intro id tx' stored outgoing
        rcases step_outgoing watchful.keyed _ id tx' stored outgoing with before | ⟨⟨_,commits⟩,_⟩
        · exact before
        · cases commits
      · intro done tx stored
        exact markDelivered_over watchful.keyed done stored
      · exact other rfl
      · exact fun e same => last _ e (congrArg (fun result => some (Event.ended item.id result)) same)
    · rename_i idle
      refine watchful.wider (quiet ?_)
      split
      · exact absurd ‹_› (idle _)
      · rfl
  | requeue => exact (watchful.requeue env now).wider (quiet rfl)
  | stop =>
    unfold Forwarding.step
    dsimp only
    split
    · exact watchful.wider (quiet rfl)
    · rename_i idle
      exact ⟨watchful.keyed,fun waiting going => absurd (by simp [show s.listing = some waiting from going]) idle,nofun⟩
  | exit =>
    unfold Forwarding.step
    dsimp only
    split
    · rename_i idle
      split
      · refine ⟨watchful.keyed,?_,by simp⟩
        intro waiting going
        rw [(watchful.starting waiting going).1] at idle
        contradiction
      · exact watchful.wider (quiet rfl)
    · exact watchful.wider (quiet rfl)

end

def idle (server : Server) : Forwarding := ⟨server,[],false,.off,none,[]⟩

theorem Watchful.run {start : Forwarding} (watchful : start.Watchful fun _ => False) (inputs : List (Env × Int × Act)) :
    (Runs.run (Forwarding.step sha256 opts retries) start inputs).Watchful
      fun id => Refused sha256 opts retries start id inputs := by
  induction inputs using List.reverseRecOn with
  | nil => exact watchful.wider fun _ never => never.elim
  | append_singleton inputs input ih =>
    rw [Runs.run_append]
    exact ih.step input (fun _ before since => .earlier before since) fun _ _ ended final => .last ended final

end Forwarding

/-- From any storage directory that the server starts on, with any faults and any ends of the pushes, whenever the worker
runs and was not told to stop: a transaction that is outgoing is queued, in the worker's hand, refused by its last push
since the last start, or has been saved by a commit that has not run its hook yet. -/
theorem outgoing_is_never_lost [BoostJson] (sha256 : Bytes → Sha256Digest) (opts : ServiceOptions) (retries : Forwarder.Retries) (boot : Env)
    (disk : Disk) (started : (exec boot restart.run (World.boot disk)).1 = .ok ()) (inputs : List (Env × Int × Forwarding.Act))
    (s : Forwarding) (reached : s = Runs.run (Forwarding.step sha256 opts retries)
      (.idle ⟨(exec boot restart.run (World.boot disk)).2,[]⟩) inputs)
    (on : s.worker ≠ .off) (go : s.stop = false) (id : TransactionId) (tx : Transaction)
    (stored : s.server.world.index.lookup id = some tx) (outgoing : isOutgoing tx = true) :
    id ∈ s.queue.map (·.id) ∨ (∃ item, s.worker.hand = some item ∧ item.id = id) ∨
      Forwarding.Refused sha256 opts retries (.idle ⟨(exec boot restart.run (World.boot disk)).2,[]⟩) id inputs ∨
      ∃ tx' ∈ s.hooks, tx'.id = id := by
  have initial : (Forwarding.idle ⟨(exec boot restart.run (World.boot disk)).2,[]⟩).Watchful fun _ => False :=
    ⟨(restart_searchable started []).keyed,nofun,fun on => absurd rfl on⟩
  have watchful := @Forwarding.Watchful.run sha256 opts retries _ _ initial inputs
  rw [← reached] at watchful
  cases watchful.running on go id tx stored outgoing with
  | queued there => exact .inl there
  | inHand item held its => exact .inr (.inl ⟨item,held,its⟩)
  | refused last => exact .inr (.inr (.inl last))
  | committing tx' saved its => exact .inr (.inr (.inr ⟨tx',saved,its⟩))

namespace Sample

def patience : Forwarder.Retries := ⟨5000,600000⟩

/-- The start of the forwarder lists a transaction whose commit has not run its hook, and the worker takes it. -/
def earlyStart : List (Env × Int × Forwarding.Act) :=
  [(Sample.env,0,.serve (.create alice toBeta)),(Sample.env,0,.commit alice Sample.id),(Sample.env,0,.startList),
    (Sample.env,0,.startNext),(Sample.env,0,.startWorker),(Sample.env,0,.pop)]

def waiting : Transaction := ⟨Sample.id,ascii "alice",ascii "bob",ascii "beta",[],ascii "hello",.committed,1750000000,1752592000,
  some 1750000000,none,[]⟩

def retry : List (Env × Int × Forwarding.Act) :=
  [(Sample.env,0,.pushFails ⟨.unavailable,[]⟩),(Sample.env,0,.requeue)]

end Sample

theorem taken_transaction_is_known :
    let s := Runs.run (Forwarding.step Sample.sha256 Sample.opts Sample.patience)
      (.idle ⟨(exec Sample.env restart.run (World.boot emptyDisk)).2,[]⟩) Sample.earlyStart
    Sample.id ∈ s.queue.map (·.id) ∨ (∃ item, s.worker.hand = some item ∧ item.id = Sample.id) ∨
      Forwarding.Refused Sample.sha256 Sample.opts Sample.patience
        (.idle ⟨(exec Sample.env restart.run (World.boot emptyDisk)).2,[]⟩) Sample.id Sample.earlyStart ∨
      ∃ tx' ∈ s.hooks, tx'.id = Sample.id := by
  intro s
  exact outgoing_is_never_lost Sample.sha256 Sample.opts Sample.patience Sample.env emptyDisk (by decide +kernel)
    Sample.earlyStart s rfl
    (by decide +kernel) (by decide +kernel) Sample.id Sample.waiting (by decide +kernel) rfl

/-! No transaction is queued twice, if no hook queues what the worker has taken. -/

namespace Forwarding

/-- The hook of a commit does not queue the item in the worker's hand. -/
def sparesHand (s : Forwarding) : Act → Bool
  | .hook k => s.hooks[k]?.all fun tx => tx.targetServer = [] || s.worker.hand.all fun item => item.id ≠ tx.id
  | _ => true

structure Single (s : Forwarding) : Prop where
  once : (s.queue.map (·.id)).Nodup
  taken : ∀ item, s.worker.hand = some item → item.id ∉ s.queue.map (·.id)
  starting : s.listing ≠ none → s.worker = .off

variable {s : Forwarding}

section

variable (single : s.Single)
include single

variable [BoostJson]

theorem Single.hook {k : Nat} (spares : s.sparesHand (.hook k) = true) (env : Env) (now : Int) :
    (s.step sha256 opts retries (env,now,.hook k)).Single := by
  unfold step
  dsimp only
  split
  · exact single
  · rename_i tx here
    refine ⟨?_,?_,single.starting⟩
    · dsimp only
      split
      · exact single.once
      · exact Forwarder.enqueue_nodup single.once
    · intro item held
      dsimp only at held ⊢
      split
      · exact single.taken item held
      · rename_i remote
        rw [Forwarder.mem_enqueue]
        rintro (there | its)
        · exact single.taken item held there
        · simp [sparesHand,here,held,remote,its] at spares

theorem Single.startNext (env : Env) (now : Int) :
    (s.step sha256 opts retries (env,now,.startNext)).Single := by
  unfold step
  dsimp only
  split
  · rename_i id rest going
    have off := single.starting (by simp [going])
    refine ⟨Forwarder.enqueue_nodup single.once,?_,fun _ => off⟩
    intro item held
    simp [off,Worker.hand] at held
  · exact single

theorem Single.pop (env : Env) (now : Int) : (s.step sha256 opts retries (env,now,.pop)).Single := by
  unfold step
  dsimp only
  split
  · rename_i item idle found
    split
    · exact single
    obtain ⟨once,gone⟩ := Forwarder.erase_taken single.once (List.argmin_mem found)
    refine ⟨once,?_,?_⟩
    · intro item' held
      cases held
      exact gone
    · intro going
      rw [single.starting going] at idle
      contradiction
  · exact single

omit [BoostJson] in
theorem Single.pushed {item : Forwarder.Pending} (held : s.worker = .pushing item) (now : Int)
    (result : Result Unit) (server : Server) :
    (Forwarding.pushed retries now item result { s with server := server }).Single := by
  have ended : s.listing = none := by
    by_contra going
    rw [single.starting going] at held
    contradiction
  have taken := single.taken item (by rw [held]; rfl)
  unfold Forwarding.pushed
  split
  · exact ⟨single.once,nofun,fun going => absurd ended going⟩
  · dsimp only
    split
    · refine ⟨single.once,?_,fun going => absurd ended going⟩
      intro item' held'
      cases held'
      exact taken
    · exact ⟨single.once,nofun,fun going => absurd ended going⟩

theorem Single.requeue (env : Env) (now : Int) :
    (s.step sha256 opts retries (env,now,.requeue)).Single := by
  unfold step
  dsimp only
  split
  · rename_i item held
    refine ⟨?_,nofun,?_⟩
    · dsimp only
      split
      · exact single.once
      · rw [List.map_append]
        apply List.Nodup.append single.once (List.nodup_singleton item.id)
        simpa [List.disjoint_singleton] using single.taken item (by rw [held]; rfl)
    · intro going
      rw [single.starting going] at held
      contradiction
  · exact single

theorem Single.step {input : Env × Int × Act} (spares : s.sparesHand input.2.2 = true) :
    (s.step sha256 opts retries input).Single := by
  obtain ⟨env,now,act⟩ := input
  cases act with
  | serve op =>
    unfold Forwarding.step
    dsimp only
    split
    · exact single
    · exact ⟨single.once,single.taken,single.starting⟩
  | commit caller id =>
    unfold Forwarding.step
    dsimp only
    split <;> exact ⟨single.once,single.taken,single.starting⟩
  | hook k => exact single.hook spares env now
  | startList =>
    unfold Forwarding.step
    dsimp only
    split
    · rename_i off _
      exact ⟨single.once,single.taken,fun _ => off⟩
    · exact single
  | startNext => exact single.startNext env now
  | startWorker =>
    unfold Forwarding.step
    dsimp only
    split
    · exact ⟨single.once,nofun,fun going => absurd rfl going⟩
    · exact single
  | pop => exact single.pop env now
  | pushFails e =>
    unfold Forwarding.step
    dsimp only
    split
    · rename_i item held
      exact single.pushed held now (.error e) s.server
    · exact single
  | pushMarks =>
    unfold Forwarding.step
    dsimp only
    split
    · rename_i item held
      exact single.pushed held now _ _
    · exact single
  | requeue => exact single.requeue env now
  | stop =>
    unfold Forwarding.step
    dsimp only
    split
    · exact single
    · exact ⟨single.once,single.taken,single.starting⟩
  | exit =>
    unfold Forwarding.step
    dsimp only
    split
    · split
      · exact ⟨single.once,nofun,fun _ => rfl⟩
      · exact single
    · exact single

end

end Forwarding

/-- In every run in which no hook of a commit queues the transaction that the worker has taken, no transaction is queued
twice. -/
theorem queue_holds_each_once [BoostJson] (sha256 : Bytes → Sha256Digest) (opts : ServiceOptions) (retries : Forwarder.Retries)
    (server : Server) (inputs : List (Env × Int × Forwarding.Act))
    (spared : Runs.Along (Forwarding.step sha256 opts retries) (fun s input => s.sparesHand input.2.2 = true)
      (.idle server) inputs) :
    ((Runs.run (Forwarding.step sha256 opts retries) (.idle server) inputs).queue.map (·.id)).Nodup := by
  have initial : (Forwarding.idle server).Single := ⟨List.nodup_nil,nofun,nofun⟩
  exact (spared.invariant Forwarding.Single (fun _ _ single spares => single.step spares) initial).once

theorem retried_push_is_queued_once :
    ((Runs.run (Forwarding.step Sample.sha256 Sample.opts Sample.patience) (.idle Server.empty)
      (Sample.earlyStart ++ Sample.retry ++ [(Sample.env,0,.hook 0)])).queue.map (·.id)).Nodup :=
  queue_holds_each_once Sample.sha256 Sample.opts Sample.patience Server.empty _ (by decide +kernel)

/-- The hook runs while the worker pushes, and queues the transaction beside the one in hand. -/
theorem late_hook_queues_twice :
    (Runs.run (Forwarding.step Sample.sha256 Sample.opts Sample.patience) (.idle Server.empty)
      (Sample.earlyStart ++ [(Sample.env,0,.hook 0)] ++ Sample.retry)).queue.map (·.id) = [Sample.id,Sample.id] := by
  decide +kernel

end Confide
