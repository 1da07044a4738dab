import Confide.Attempts

/-! Delivered means delivered: what the sending server marks, the other one has had committed. -/
namespace Confide

open Bytes Resumption Resumption.Prog

namespace Peering

variable {cfg : PeerConfig} {id : TransactionId} {tx tx' : Transaction} {i i' : Index} {s s' : Peering} {act : PeerAct}

def Copied (cfg : PeerConfig) (id : TransactionId) (i : Index) (tx : Transaction) : Prop :=
  i.lookup id = some tx ∧ tx.originServer = cfg.aName

def CommittedThere (cfg : PeerConfig) (id : TransactionId) (s : Peering) : Prop :=
  ∃ tx, Copied cfg id s.b.world.index tx ∧ tx.state = .committed

def Past (tx : Transaction) : Prop := tx.state = .committed ∨ tx.state = .delivered ∨ tx.committedAt ≠ none

theorem past_updates {sha256 : Bytes → Sha256Digest} {opts : ServiceOptions} {env : Env} {pending : List PendingUpload}
    {op : Op} (updates : Updates sha256 opts env pending op tx tx') :
    tx'.originServer = tx.originServer ∧ (Past tx' → Past tx ∨ tx'.state = .committed) := by
  cases updates with
  | uploaded => exact ⟨rfl,.inl⟩
  | erased => exact ⟨rfl,.inl⟩
  | committed => exact ⟨rfl,fun _ => .inr rfl⟩
  | delivered sent => exact ⟨rfl,fun _ => .inl (.inl sent)⟩
  | retained => exact ⟨rfl,.inl⟩
  | marked =>
    refine ⟨rfl,fun past => .inl ?_⟩
    rcases past with wrong | wrong | stamped
    · cases wrong
    · cases wrong
    · exact .inr (.inr stamped)

/-- What an attempt has been told means that the other server has had the transaction committed. -/
def Known [BoostJson] (id : TransactionId) (seen : Prop) : Event Fwd → Prop
  | ⟨.inr (.commit id'),.ok _⟩ => id' = id → seen
  | ⟨.inr (.get id'),.ok reply⟩ => id' = id → ∀ state, Forwarder.stateOf reply = .ok state → state ≠ ascii "open" → seen
  | _ => True

theorem Known.mono [BoostJson] {seen seen' : Prop} (wider : seen → seen') (event : Event Fwd) (known : Known id seen event) :
    Known id seen' event := by
  unfold Known at known ⊢
  split at known
  · exact fun same => wider (known same)
  · exact fun same state said other => wider (known same state said other)
  · trivial

/-- So an attempt that goes on to mark the transaction rests on that. -/
theorem confirmed_seen [BoostJson] {seen : Prop} {past : List (Event Fwd)} (facts : ∀ event ∈ past, Known id seen event)
    (confirmed : Forwarder.Confirmed id past) : seen := by
  rcases confirmed with ⟨reply,told⟩ | ⟨reply,state,told,said,other⟩
  · exact facts _ told rfl
  · exact facts _ told rfl state said other

theorem mayWrite_peer (allowed : mayWrite (peer cfg) tx = true) : tx.originServer = cfg.aName := by
  simp [mayWrite,isSender,isOriginPeer,peer] at allowed
  exact allowed.2.symm

theorem mayRead_peer {isRecipient : Bytes → Bytes → Bool} (allowed : mayRead (peer cfg) tx isRecipient = true) :
    tx.originServer = cfg.aName := by
  simp [mayRead,isSender,isOriginPeer,isTarget,peer] at allowed
  exact allowed.2.symm

variable [BoostJson]

/-- What the other server shows to its peer is its copy. -/
theorem get_copied {env : Env} {b : World}
    (shown : (perform cfg.sha256 env (TransactionService.get (peer cfg) id).run b).1 = .ok tx) : Copied cfg id b.index tx := by
  have leads : Leads (Svc.handle cfg.sha256 env) (TransactionService.get (peer cfg) id) b fun result _ =>
      ∀ tx, result = .ok tx → Copied cfg id b.index tx := by
    unfold TransactionService.get
    refine leads_lift_bind.mpr (leads_find_bind.mpr ?_)
    have still : (run (Svc.handle cfg.sha256 env) (svc (.env .isRecipient)) b).2 = b := rfl
    rw [still]
    cases known : b.index.lookup id with
    | none => exact leads_throw.mpr nofun
    | some tx =>
      dsimp only
      split
      · rename_i allowed
        rw [leads_pure]
        rintro _ ⟨⟩
        exact ⟨known,mayRead_peer allowed⟩
      · exact leads_throw.mpr nofun
  exact leads tx shown

/-- The state that is shown is past if it is not open, a fair look taken for granted. -/
theorem shown_past {state : Bytes} (said : Forwarder.stateOf (Api.encodeTransaction tx) = .ok state)
    (other : state ≠ ascii "open") (fair : tx.state = .expired → tx.committedAt ≠ none) : Past tx := by
  rw [Forwarder.stateOf_encodeTransaction] at said
  split at said
  · cases said
    cases shown : tx.state with
    | «open» => exact absurd (by rw [shown]; rfl) other
    | committed => exact .inl shown
    | delivered => exact .inr (.inl shown)
    | expired => exact .inr (.inr (fair shown))
  · cases said

theorem commit_copied {env : Env} (keyed : Keyed s.b.world.index) (ok : s.result cfg env (.commit (peer cfg) id) = .ok ()) :
    ∃ tx, Copied cfg id (s.operate cfg env (.commit (peer cfg) id)).b.world.index tx ∧ tx.state = .committed := by
  have takes := operate_takes cfg s env keyed (.commit (peer cfg) id)
  rw [ok] at takes
  generalize (s.operate cfg env (.commit (peer cfg) id)).b.world.index = i at takes
  cases takes with
  | opened opens => cases opens
  | updated known updates =>
    cases updates with
    | committed allowed => exact ⟨_,⟨Finmap.lookup_insert _,mayWrite_peer allowed⟩,rfl⟩
    | marked drops => cases drops
  | dropped _ drops => cases drops
  | streamed part => cases part

/-- A request to look at the copy whose reply an attempt waits for does not arrive while the copy is expired and was never
committed. -/
def FairLook (cfg : PeerConfig) (id : TransactionId) (s : Peering) : PeerAct → Prop
  | .arrive k env => s.awaits (.arrive k env) = true → ∀ ticket, s.wire.arriving k = some (ticket,.get id) →
    ∀ tx, Copied cfg id s.b.world.index tx → tx.state = .expired → tx.committedAt ≠ none
  | _ => True

structure Backed (cfg : PeerConfig) (id : TransactionId) (seen : Prop) (s : Peering) : Prop where
  keyed : Keyed s.b.world.index
  past : ∀ tx, Copied cfg id s.b.world.index tx → Past tx → seen
  tracks : Tracks cfg s
  led : ∃ who, s.Led (Known id seen) who

theorem Backed.step {seen : Prop} (backed : Backed cfg id seen s) (act : PeerAct) (fair : FairLook cfg id s act) :
    Backed cfg id (seen ∨ CommittedThere cfg id (s.step cfg act)) (s.step cfg act) := by
  have did := step_did cfg s act
  generalize s.step cfg act = s' at did ⊢
  refine ⟨did.keyed backed.keyed,?_,did.tracks backed.keyed backed.tracks,?_⟩
  · rintro tx' ⟨known,origin⟩ past
    rcases (did.turns backed.keyed).origin id tx' known with ⟨tx,old,rfl | ⟨_,_,_,updates⟩⟩ | ⟨_,_,_,_,_,opens⟩
    · exact .inl (backed.past _ ⟨old,origin⟩ past)
    · obtain ⟨same,earlier⟩ := past_updates updates
      rcases earlier past with before | committed
      · exact .inl (backed.past tx ⟨old,same ▸ origin⟩ before)
      · exact .inr ⟨tx',⟨known,origin⟩,committed⟩
    · cases opens <;> simp [Past] at past
  · obtain ⟨who,led⟩ := backed.led
    refine did.leads backed.tracks led (Known.mono .inl) (fun _ _ _ _ _ _ _ _ _ _ => trivial) ?_ ?_
    · intro request e network
      cases request <;> trivial
    · intro request result answers awaits _
      cases answers with
      | unread | received | unopened | stuck | finished => trivial
      | @got k env ticket id' arrives =>
        cases shown : (perform cfg.sha256 env (TransactionService.get (peer cfg) id').run s.b.world).1 with
        | error => trivial
        | ok tx =>
          rintro rfl state said other
          have copied := get_copied shown
          exact .inl (backed.past tx copied (shown_past said other (fair awaits ticket arrives tx copied)))
      | @committed k env ticket id' arrives after =>
        cases ok : s.result cfg env (.commit (peer cfg) id') with
        | error => trivial
        | ok =>
          rintro rfl
          obtain ⟨tx,copied,committed⟩ := commit_copied backed.keyed ok
          exact .inr ⟨tx,by rw [after]; exact copied,committed⟩

def WasCommitted (cfg : PeerConfig) (id : TransactionId) (s : Peering) (acts : List PeerAct) : Prop :=
  ∃ first second, acts = first ++ second ∧ CommittedThere cfg id (Runs.run (step cfg) s first)

omit [BoostJson] in
theorem apart_tracks (cfg : PeerConfig) (a b : Server) : Tracks cfg (apart a b) := by
  constructor
  · simp [apart]
  · intro j put p here
    have member := List.mem_of_getElem? here
    simp [apart] at member

theorem run_backed {a b : Server} (keyed : Keyed b.world.index) (new : ∀ tx, ¬ Copied cfg id b.world.index tx)
    {acts : List PeerAct} (fair : Runs.Along (step cfg) (FairLook cfg id) (apart a b) acts) :
    Backed cfg id (WasCommitted cfg id (apart a b) acts) (Runs.run (step cfg) (apart a b) acts) := by
  induction acts using List.reverseRecOn with
  | nil => exact ⟨keyed,fun tx copied => absurd copied (new tx),apart_tracks cfg a b,[],Wire.led_empty⟩
  | append_singleton acts act ih =>
    obtain ⟨before,now,_⟩ := Runs.Along.append.mp fair
    have next := (ih before).step act now
    rw [Runs.run_append,Runs.run_cons,Runs.run_nil]
    have wider : WasCommitted cfg id (apart a b) acts ∨
        CommittedThere cfg id ((Runs.run (step cfg) (apart a b) acts).step cfg act) →
          WasCommitted cfg id (apart a b) (acts ++ [act]) := by
      rintro (⟨first,second,rfl,there⟩ | there)
      · exact ⟨first,second ++ [act],by simp,there⟩
      · exact ⟨acts ++ [act],[],by simp,by rwa [Runs.run_append]⟩
    obtain ⟨who,led⟩ := next.led
    exact ⟨next.keyed,fun tx copied past => wider (next.past tx copied past),next.tracks,who,
      Wire.Led.mono (Known.mono wider) led⟩

theorem Did.keyed_own (did : s.Did cfg act s') (keyed : Keyed s.a.world.index) : Keyed s'.a.world.index := by
  have own := did.own
  generalize s'.a = a at own ⊢
  cases own with
  | idle => exact keyed
  | served => exact step_keyed keyed _
  | marked => exact step_keyed keyed _
  | @restarted env w starts =>
    have searchable := restart_searchable (congrArg Prod.fst starts) []
    rw [starts] at searchable
    exact searchable.keyed

theorem run_keyed_own (keyed : Keyed s.a.world.index) (acts : List PeerAct) :
    Keyed (Runs.run (step cfg) s acts).a.world.index := by
  induction acts generalizing s with
  | nil => exact keyed
  | cons act acts ih => exact ih ((step_did cfg s act).keyed_own keyed)

def Delivered (id : TransactionId) (s : Peering) : Prop :=
  ∃ tx, s.a.world.index.lookup id = some tx ∧ tx.state = .delivered

/-- An attempt makes a transaction delivered only by marking it. -/
theorem call_marks {i : Nat} {env : Env} {ready : Result Unit} (keyed : Keyed s.a.world.index) (before : ¬ Delivered id s)
    (after : Delivered id (s.step cfg (.call i env ready))) :
    ∃ next, s.wire.upcoming i = some ⟨.markDelivered id,next⟩ := by
  unfold step at after
  dsimp only at after
  split at after
  · exact absurd after before
  rename_i c next upcoming
  cases c with
  | outgoing | findPeer | client | openRead => exact absurd after before
  | markDelivered id' =>
    obtain ⟨tx',known,delivered⟩ := after
    have takes := (step_takes cfg.sha256 cfg.aOpts env keyed (.markDelivered id')).1.1
    rcases takes.origin id tx' known with ⟨tx,old,rfl | updates⟩ | ⟨_,opens,_⟩
    · exact absurd ⟨_,old,delivered⟩ before
    · cases updates with
      | delivered =>
        obtain rfl := keyed id tx old
        exact ⟨next,upcoming⟩
      | marked drops => cases drops
    · cases opens

/-- Both servers as they start on their storage directories. -/
def starting (aEnv bEnv : Env) (aDisk bDisk : Disk) : Peering :=
  apart ⟨(exec aEnv restart.run (World.boot aDisk)).2,[]⟩ ⟨(exec bEnv restart.run (World.boot bDisk)).2,[]⟩

/-- In every run in which no attempt is told of a look at the copy after it expired without having been committed, a transaction
that an attempt makes delivered has been committed on the other server. -/
theorem delivered_means_delivered (cfg : PeerConfig) (aEnv bEnv : Env) (aDisk bDisk : Disk)
    (aStarts : (exec aEnv restart.run (World.boot aDisk)).1 = .ok ())
    (bStarts : (exec bEnv restart.run (World.boot bDisk)).1 = .ok ()) (id : TransactionId)
    (new : ∀ tx, ¬ Copied cfg id (starting aEnv bEnv aDisk bDisk).b.world.index tx) (acts : List PeerAct)
    (fair : Runs.Along (step cfg) (FairLook cfg id) (starting aEnv bEnv aDisk bDisk) acts) (i : Nat) (env : Env)
    (ready : Result Unit) (before : ¬ Delivered id (Runs.run (step cfg) (starting aEnv bEnv aDisk bDisk) acts))
    (after : Delivered id (Runs.run (step cfg) (starting aEnv bEnv aDisk bDisk) (acts ++ [.call i env ready]))) :
    WasCommitted cfg id (starting aEnv bEnv aDisk bDisk) acts := by
  have aKeyed : Keyed (starting aEnv bEnv aDisk bDisk).a.world.index := (restart_searchable aStarts []).keyed
  have backed := run_backed (restart_searchable bStarts []).keyed new fair
  rw [Runs.run_append] at after
  obtain ⟨next,upcoming⟩ := call_marks (run_keyed_own aKeyed acts) before after
  obtain ⟨who,led⟩ := backed.led
  obtain ⟨_,here⟩ := Wire.upcoming_eq upcoming
  obtain ⟨id',its⟩ := led.started here
  obtain ⟨_,past,facts,⟨⟨rfl,confirmed⟩,_⟩,_⟩ := (led.follows i id' _ its here).warranted
  exact confirmed_seen facts confirmed

/-! Runs: one without a hitch, and one in which the copy expires between two attempts. -/

instance (cfg : PeerConfig) (id : TransactionId) (s : Peering) : Decidable (CommittedThere cfg id s) :=
  decidable_of_iff ((s.b.world.index.lookup id).any fun tx => tx.originServer = cfg.aName && tx.state = .committed)
    (by simp [CommittedThere,Copied,Option.any_eq_true,and_assoc])

instance (id : TransactionId) (s : Peering) : Decidable (Delivered id s) :=
  decidable_of_iff ((s.a.world.index.lookup id).any fun tx => tx.state = .delivered)
    (by simp [Delivered,Option.any_eq_true])

def fairLook (cfg : PeerConfig) (id : TransactionId) (i : Index) : PeerRequest → Bool
  | .get id' => decide (id' = id → ∀ tx ∈ i.lookup id, tx.originServer = cfg.aName → tx.state = .expired → tx.committedAt ≠ none)
  | _ => true

omit [BoostJson] in
theorem fairLook_iff (k : Nat) (env : Env) : (s.awaits (.arrive k env) = true →
      (s.wire.arriving k).all (fun entry => fairLook cfg id s.b.world.index entry.2) = true) ↔
    FairLook cfg id s (.arrive k env) := by
  refine forall_congr' fun _ => ?_
  cases arrives : s.wire.arriving k with
  | none => simp
  | some entry =>
    obtain ⟨ticket,request⟩ := entry
    cases request with
    | get id' =>
      simp only [fairLook,Copied,Option.all_some,decide_eq_true_eq,Option.mem_def]
      constructor
      · rintro fair _ ⟨⟩ tx ⟨known,origin⟩
        exact fair rfl tx known origin
      · rintro fair rfl tx known origin
        exact fair ticket rfl tx ⟨known,origin⟩
    | receive | put | commit => simp [fairLook]

instance (cfg : PeerConfig) (id : TransactionId) (s : Peering) : (act : PeerAct) → Decidable (FairLook cfg id s act)
  | .arrive k env => decidable_of_iff _ (fairLook_iff k env)
  | .serve _ _ | .restart _ | .push _ | .call _ _ _ | .send _ | .hear _ | .lose _ _ | .vanish _ | .write _ _ _ | .finish _ _
  | .breakOff _ _ | .other _ _ | .mark _ _ _ | .remove _ _ => isTrue trivial

theorem not_wasCommitted (act : PeerAct) {acts : List PeerAct}
    (never : Runs.Along (step cfg) (fun s _ => ¬ CommittedThere cfg id s) s (acts ++ [act])) : ¬ WasCommitted cfg id s acts := by
  rintro ⟨first,second,rfl,there⟩
  rw [List.append_assoc,Runs.Along.append] at never
  cases second with
  | nil => exact never.2.1 there
  | cons => exact never.2.1 there

end Peering

namespace Sample

def pair : PeerConfig where
  sha256 := sha256
  aOpts := opts
  bOpts := { opts with localServer := ascii "beta" }
  aName := ascii "alpha"
  bName := ascii "beta"
  aValid := by decide
  bValid := by decide

def together : Peering := Peering.starting env env emptyDisk emptyDisk

def outgoing : List PeerAct :=
  [.serve env (.create alice ⟨ascii "bob",ascii "beta",0,[]⟩),.serve env (.commit alice id)]

def attempt (i : Nat) : List PeerAct :=
  [.push id,.call i env (.ok ()),.call i env (.ok ()),.call i env (.ok ()),.send i,.arrive 0 env]

def smoothPush : List PeerAct := outgoing ++ attempt 0 ++ [.hear 0,.send 0,.arrive 0 env,.hear 0]

/-- The reply to the first attempt is lost, and the copy is marked for removal when the second one looks. -/
def expiredCopy : List PeerAct :=
  outgoing ++ attempt 0 ++ [.lose 0 ⟨.unavailable,[]⟩] ++ attempt 1 ++
    [.hear 1,.send 1,.mark env id none,.arrive 0 env,.hear 1]

end Sample

namespace Peering

theorem sample_new (tx : Transaction) : ¬ Copied Sample.pair Sample.id Sample.together.b.world.index tx := by
  have none : Sample.together.b.world.index.lookup Sample.id = none := by decide +kernel
  rintro ⟨known,_⟩
  rw [none] at known
  cases known

theorem smooth_push_delivers : WasCommitted Sample.pair Sample.id Sample.together Sample.smoothPush := by
  have run : Runs.Along (step Sample.pair) (FairLook Sample.pair Sample.id) Sample.together Sample.smoothPush ∧
      ¬ Delivered Sample.id (Runs.run (step Sample.pair) Sample.together Sample.smoothPush) ∧
      Delivered Sample.id (Runs.run (step Sample.pair) Sample.together
        (Sample.smoothPush ++ [.call 0 Sample.env (.ok ())])) := by
    decide +kernel
  unfold Sample.together at run ⊢
  exact delivered_means_delivered Sample.pair Sample.env Sample.env emptyDisk emptyDisk (by decide +kernel) (by decide +kernel)
    Sample.id sample_new Sample.smoothPush run.1 0 Sample.env (.ok ()) run.2.1 run.2.2

/-- The transaction becomes delivered, and the other server has never had it committed. -/
theorem expired_copy_taken_for_delivered :
    ¬ Delivered Sample.id (Runs.run (step Sample.pair) Sample.together Sample.expiredCopy) ∧
      Delivered Sample.id (Runs.run (step Sample.pair) Sample.together (Sample.expiredCopy ++ [.call 1 Sample.env (.ok ())])) ∧
      ¬ WasCommitted Sample.pair Sample.id Sample.together Sample.expiredCopy := by
  have run : ¬ Delivered Sample.id (Runs.run (step Sample.pair) Sample.together Sample.expiredCopy) ∧
      Delivered Sample.id (Runs.run (step Sample.pair) Sample.together (Sample.expiredCopy ++ [.call 1 Sample.env (.ok ())])) ∧
      Runs.Along (step Sample.pair) (fun s _ => ¬ CommittedThere Sample.pair Sample.id s) Sample.together
        (Sample.expiredCopy ++ [.call 1 Sample.env (.ok ())]) := by
    decide +kernel
  exact ⟨run.1,run.2.1,not_wasCommitted _ run.2.2⟩

end Peering
end Confide
