import Confide.Exactness
import Confide.PeerReplies

/-! A push is not given up: while nothing fails and no request of an attempt meets a copy that an earlier attempt has closed,
an attempt succeeds or ends with an error after which it is made again. The sending server may be restarted, and both
servers may remove anything but the transaction and its copy. -/
namespace Confide

open Bytes Resumption Resumption.Prog

def PeerAct.Faultless : PeerAct → Prop
  | .serve env _ | .restart env | .call _ env _ | .arrive _ env | .write _ env _ | .finish _ env | .breakOff _ env | .other env _
  | .mark env _ _ | .remove _ env => env.Faultless
  | .push _ | .send _ | .hear _ | .lose _ _ | .vanish _ => True

namespace Peering

/-- The transaction is for the other server, and its announcement passes the checks there. -/
structure Sendable (cfg : PeerConfig) (tx : Transaction) : Prop where
  target : tx.targetServer = cfg.bName
  plain : (Forwarder.announce tx).Plain
  receivable : Receivable cfg.bOpts tx

variable [BoostJson]

def announcement (s : Peering) : PeerAct → Option ReceiveRequest
  | .arrive k _ => (s.wire.arriving k).bind fun entry => match entry.2 with
    | .receive body => (Api.decodeReceive body).toOption
    | .get _ | .put _ _ _ _ _ | .commit _ => none
  | _ => none

/-- What is taken for granted of a step: one attempt at a time, of a transaction that waits to be sent to a configured peer;
the other server accepts the destination; and as long as it waits the transaction is not removed. -/
def Given (cfg : PeerConfig) (id : TransactionId) (s : Peering) : PeerAct → Prop
  | .serve env op => (s.a.world.index.lookup id).any isOutgoing = true →
    ((s.step cfg (.serve env op)).a.world.index.lookup id).any (·.state ≠ .expired) = true
  | .push id' => s.wire.idle = true ∧ (id' = id → (s.a.world.index.lookup id).any isOutgoing = true)
  | .call _ _ ready => ready = .ok () ∧ ∀ tx ∈ s.a.world.index.lookup id, isOutgoing tx = true → tx.targetServer = cfg.bName
  | .arrive k env => ∀ req ∈ s.announcement (.arrive k env), req.id = id → env.destination req.targetUser [] = .ok ()
  | .restart _ | .send _ | .hear _ | .lose _ _ | .vanish _ | .write _ _ _ | .finish _ _ | .breakOff _ _ | .other _ _
  | .mark _ _ _ | .remove _ _ => True

def needsOpen : PeerRequest → Option TransactionId
  | .put id _ _ _ _ | .commit id => some id
  | .receive _ | .get _ => none

def alters (s : Peering) : PeerAct → Option TransactionId
  | .arrive k _ => (s.wire.arriving k).bind fun entry => needsOpen entry.2
  | .finish j _ => s.b.pending[j]?.map (·.id)
  | _ => none

def OpenThere (cfg : PeerConfig) (id : TransactionId) (s : Peering) : Prop :=
  ∃ tx, Copied cfg id s.b.world.index tx ∧ tx.state = .open

/-- A file or a commit that an attempt waits for finds the copy open. -/
def Timely (cfg : PeerConfig) (id : TransactionId) (s : Peering) (act : PeerAct) : Prop :=
  s.awaits act = true → s.alters act = some id → OpenThere cfg id s

/-- An announcement that an attempt waits for finds nothing under the id that has come from elsewhere. -/
def Unclaimed (cfg : PeerConfig) (id : TransactionId) (s : Peering) (act : PeerAct) : Prop :=
  s.awaits act = true → ∀ req ∈ s.announcement act, req.id = id → ∀ tx ∈ s.b.world.index.lookup id, tx.originServer = cfg.aName

/-- Nothing on the other server stands in the way of the attempts for the transaction. -/
structure Unhindered (cfg : PeerConfig) (id : TransactionId) (s : Peering) (act : PeerAct) : Prop where
  timely : Timely cfg id s act
  unmixed : Unmixed cfg id s act
  unclaimed : Unclaimed cfg id s act
  fit : ∀ tx ∈ s.a.world.index.lookup id, isOutgoing tx = true → (Forwarder.announce tx).Plain ∧ Receivable cfg.bOpts tx

variable {cfg : PeerConfig} {id : TransactionId} {tx tx' : Transaction} {a a' : Server} {s s' : Peering} {act : PeerAct}
  {sent : Cargo → Prop} {i : Index} {who : List TransactionId}

variable {sha256 : Bytes → Sha256Digest} {env : Env} {w : World}

theorem restart_in_order (settled : Settled a) (healthy : Healthy sha256 none a) (faultless : env.Faultless)
    (starts : exec env restart.run (World.boot a.world.disk) = (.ok (),w)) : Healthy sha256 none ⟨w,[]⟩ := by
  obtain ⟨works,loaded,frame,tmp,temps⟩ := restart_spec env a.world.disk (faultless .openStore) healthy.top
  rw [starts] at works loaded frame tmp temps
  have loadable := works.mp rfl
  have index : w.index = a.world.index := Finmap.ext_lookup fun id => Option.ext fun tx => by
    rw [(loaded loadable).recorded id tx]
    constructor
    · exact fun ⟨_,read⟩ => settled.mirrored.documents id tx read
    · intro known
      have folder := healthy.there known
      obtain ⟨tx',read⟩ := loadable id folder
      have same := settled.mirrored.documents id tx' read
      rw [known] at same
      exact ⟨folder,Option.some.inj same ▸ read⟩
  refine ⟨tmp,(frame _ (by decide)).trans healthy.top,?_,fun id other => ?_,(fun _ member => by cases member),.nil⟩
  · intro id n present
    exact absurd (temps (tmpPath id n) (List.prefix_append _ _) (by simp [tmpPath])) present
  · rw [index]
    exact (healthy.agrees id other).frame fun q inside => frame q (transactionDir_not_tmp inside)

theorem Own.healthy (own : Own cfg a act a') (settled : Settled a) (healthy : Healthy cfg.sha256 none a)
    (faultless : act.Faultless) : Healthy cfg.sha256 none a' := by
  cases own with
  | idle => exact healthy
  | served => exact step_healthy healthy faultless _
  | marked => exact step_healthy healthy faultless _
  | restarted starts => exact restart_in_order settled healthy faultless starts

theorem destroyBegin_healthy {pending : List PendingUpload}
    (healthy : Healthy sha256 none ⟨w,pending⟩) (faultless : env.Faultless) (id : TransactionId) :
    Healthy sha256 none ⟨(perform sha256 env (TransactionService.destroyBegin id).run w).2,pending⟩ := by
  change Leads (Svc.handle sha256 env) (TransactionService.destroyBegin id) w fun _ w' => Healthy sha256 none ⟨w',pending⟩
  unfold TransactionService.destroyBegin
  rw [leads_find_bind]
  cases known : w.index.lookup id with
  | none => exact healthy
  | some tx =>
    obtain rfl := (healthy.folder known).named
    exact (markExpired_leads healthy faultless known).mono fun _ _ after => after.2.1

theorem removal_healthy {pending : List PendingUpload}
    (healthy : Healthy sha256 none ⟨w,pending⟩) (faultless : env.Faultless) (removal : Removal) :
    Healthy sha256 none ⟨(perform sha256 env removal.finish.run w).2,pending⟩ := by
  have finish : ∀ type actor, Leads (Svc.handle sha256 env)
      (TransactionService.destroyEnd removal.tx.id type actor removal.tx) w fun _ w' => Healthy sha256 none ⟨w',pending⟩ := by
    intro type actor
    have removed := healthy.removed (faultless .remove) removal.tx.id
    unfold TransactionService.destroyEnd
    rw [leads_try_bind,run_remove]
    exact ⟨fun _ _ => removed,fun _ _ => leads_record.mpr (removed.logged _)⟩
  unfold Removal.finish
  split
  · exact finish .expired TransactionService.system
  · exact finish .adminDeleted _

theorem receive_healthy (healthy : Healthy cfg.sha256 none s.b) (faultless : env.Faultless) (ticket : Nat)
    (request : PeerRequest) : Healthy cfg.sha256 none (s.receive cfg env ticket request).b := by
  have received := receive_received cfg s env ticket request
  generalize s.receive cfg env ticket request = s' at received
  cases received with
  | unread | got => exact healthy
  | taken | committed | unopened | opened => exact step_healthy healthy faultless _

theorem Did.healthy (did : s.Did cfg act s') (healthy : Healthy cfg.sha256 none s.b) (faultless : act.Faultless) :
    Healthy cfg.sha256 none s'.b := by
  cases did with
  | nothing | served | restarted | pushed | called | sent | heard | lost | vanished => exact healthy
  | @arrived k env ticket request arrives free =>
    exact receive_healthy (s := { s with wire := s.wire.vanish k }) healthy faultless ticket request
  | wrote => exact step_healthy healthy faultless _
  | stuck => exact step_healthy (step_healthy healthy faultless _) faultless _
  | finished => exact step_healthy (step_healthy healthy faultless _) faultless _
  | broken => exact step_healthy healthy faultless _
  | others => exact step_healthy healthy faultless _
  | @marked env id admin tx w free marks =>
    have after := destroyBegin_healthy healthy faultless id
    rwa [marks] at after
  | @unmarked env id admin e w fails =>
    have after := destroyBegin_healthy healthy faultless id
    rwa [fails] at after
  | removed => exact removal_healthy healthy faultless _

/-- A transaction that waits to be sent goes on waiting until an attempt marks it. -/
theorem served_waits {op : Op} (settled : Settled a) (other : ∀ id', op ≠ .markDelivered id')
    (kept : ((a.step cfg.sha256 cfg.aOpts env op).world.index.lookup id).any (·.state ≠ .expired) = true)
    (known : a.world.index.lookup id = some tx) (waits : isOutgoing tx = true) :
    ∃ tx', (a.step cfg.sha256 cfg.aOpts env op).world.index.lookup id = some tx' ∧ isOutgoing tx' = true := by
  obtain ⟨origin,target,committed⟩ := isOutgoing_iff.mp waits
  obtain ⟨tx',known',alive⟩ := (Option.any_eq_true _ _).mp kept
  refine ⟨tx',known',?_⟩
  have takes := (step_takes cfg.sha256 cfg.aOpts env settled.orderly.keyed op).1.1
  rcases takes.origin id tx' known' with ⟨old,there,change⟩ | ⟨absent,_⟩
  · rw [known] at there
    cases there
    rcases change with rfl | updates
    · exact waits
    · cases updates with
      | uploaded _ _ isOpen => rw [committed] at isOpen; cases isOpen
      | erased _ isOpen => rw [committed] at isOpen; cases isOpen
      | committed _ isOpen => rw [committed] at isOpen; cases isOpen
      | delivered => exact absurd rfl (other _)
      | retained => exact isOutgoing_iff.mpr ⟨origin,target,committed⟩
      | marked => cases alive
  · rw [known] at absent
    cases absent

def Fair (cfg : PeerConfig) (id : TransactionId) (sent : Cargo → Prop) (i : Index) : Event Fwd → Prop
  | ⟨.inl (.outgoing id'),reply⟩ => id' = id → ∃ tx, reply = .ok tx ∧ tx.id = id ∧ sent tx.cargo ∧ Sendable cfg tx
  | ⟨.inl (.findPeer name),known⟩ => name = cfg.bName → known = true
  | ⟨.inl .client,reply⟩ => reply = .ok ()
  | ⟨.inl (.openRead id' _),reply⟩ => id' = id → ∃ source, reply = .ok source
  | ⟨.inl (.markDelivered id'),reply⟩ => id' = id → reply = .ok ()
  | ⟨.inr (.receive body),reply⟩ => ∀ e, reply = .error e → ∀ tx, body = Api.encodeReceive (Forwarder.announce tx) →
    tx.id = id → Sendable cfg tx → Forwarder.isTransient e.code = true ∨ (e.code = .conflict ∧ ∃ copy, Copied cfg id i copy)
  | ⟨.inr (.get id'),reply⟩ | ⟨.inr (.put id' _ _ _ _),reply⟩ | ⟨.inr (.commit id'),reply⟩ => id' = id →
    ∀ e, reply = .error e → Forwarder.isTransient e.code = true

variable {e : Error}

theorem stateOf_error {reply : Bytes} (unread : Forwarder.stateOf reply = .error e) : e.code = .internal := by
  unfold Forwarder.stateOf at unread
  split at unread
  · split at unread
    · cases unread
    · cases unread
      rfl
  · cases unread
    rfl

variable {body : Bytes}

section Facts

variable {past : List (Event Fwd)} (facts : ∀ event ∈ past, Fair cfg id sent i event) (allowed : Allowed (Forwarder.May id) past)

include facts

/-- What the attempt has read is the transaction as it is to be sent. -/
theorem fair_outgoing (read : Forwarder.answered (.outgoing id) (.ok tx) ∈ past) :
    tx.id = id ∧ sent tx.cargo ∧ Sendable cfg tx := by
  obtain ⟨tx',same,holds⟩ := facts _ read rfl
  cases same
  exact holds

include allowed

/-- So its announcement was refused for the moment, or because there is a copy. -/
theorem fair_refused (told : Forwarder.told (.receive body) (.error e) ∈ past) :
    Forwarder.isTransient e.code = true ∨ (e.code = .conflict ∧ ∃ copy, Copied cfg id i copy) := by
  obtain ⟨earlier,before,tx,read,rfl⟩ := allowed _ told
  obtain ⟨named,_,sendable⟩ := fair_outgoing facts (before read)
  exact facts _ told e rfl tx rfl named sendable

theorem stops_transient {event : Event Fwd} {code : ErrCode} (member : event ∈ past) (stops : Forwarder.Stops event code) :
    Forwarder.isTransient code = true := by
  obtain ⟨earlier,before,may⟩ := allowed event member
  have fact := facts event member
  cases stops with
  | outgoing =>
    obtain ⟨_,bad,_⟩ := fact may
    cases bad
  | unknown =>
    obtain ⟨tx,read,rfl⟩ := may
    have found := fact (fair_outgoing facts (before read)).2.2.target
    cases found
  | client => cases fact
  | refused other => exact (fair_refused facts allowed member).resolve_right fun conflict => other conflict.1
  | unseen => exact fact may.1 _ rfl
  | unclear unread => rw [stateOf_error unread]; rfl
  | unread =>
    obtain ⟨_,bad⟩ := fact may.1
    cases bad
  | unsent => exact fact may.1 _ rfl
  | «open» => exact fact may.1 _ rfl
  | unmarked => cases fact may.1

end Facts

structure Going (cfg : PeerConfig) (id : TransactionId) (sent : Cargo → Prop) (who : List TransactionId)
    (s : Peering) : Prop where
  settled : Settled s.a
  own : Healthy cfg.sha256 none s.a
  there : Healthy cfg.sha256 none s.b
  exact : Exact cfg id sent s
  alone : ∀ i j, s.wire.live i = true → s.wire.live j = true → i = j
  waiting : ∀ i, who[i]? = some id → s.wire.live i = true →
    ∃ tx, s.a.world.index.lookup id = some tx ∧ isOutgoing tx = true
  led : s.Led (Fair cfg id sent s.b.world.index) who

omit [BoostJson] in
theorem payload_apart {disk : Disk} {files : List FileEntry} {entry : FileEntry}
    (payload : Payload sha256 disk id files) (listed : entry ∈ files) : ¬ Clash files entry.path := by
  have single : ∀ {first second : FileEntry}, first ∈ files → second ∈ files → ¬ first.path.Above second.path := by
    intro first second member member' above
    obtain ⟨content,file,_⟩ := payload.stored first member
    have folder := payload.folder_at member' above
    rw [file] at folder
    cases folder
  rintro ⟨other,member,above | below⟩
  · exact single member listed above
  · exact single listed member below

omit [BoostJson] in
theorem originPeer (copied : Copied cfg id i tx) : isOriginPeer (peer cfg) tx = true := by
  have named := (isValidName_utf8 cfg.aValid).1
  simp [isOriginPeer,peer,copied.2,named]

theorem Going.answers (going : Going cfg id sent who s) (single : Single sent)
    (ready : ∀ tx, s.a.world.index.lookup id = some tx → isOutgoing tx = true → sent tx.cargo) {n : Nat}
    (faultless : env.Faultless)
    (sendable : ∀ tx ∈ s.a.world.index.lookup id, isOutgoing tx = true → Sendable cfg tx) {c : OwnCall}
    {next : c.Reply → Prog Fwd (Result Unit)} {id' : TransactionId} (upcoming : s.wire.upcoming n = some ⟨c,next⟩)
    (its : who[n]? = some id') (warrants : Warrants (Fair cfg id sent s.b.world.index) id' (.inl c)) (after : Index) :
    Fair cfg id sent after (Forwarder.answered c (ownCall cfg env (.ok ()) s.a c).1) := by
  obtain ⟨_,past,facts,⟨may,_⟩,_⟩ := warrants
  obtain ⟨_,here⟩ := Wire.upcoming_eq upcoming
  have waiting : id' = id → ∃ tx, s.a.world.index.lookup id = some tx ∧ isOutgoing tx = true := by
    rintro rfl
    exact going.waiting n its (Wire.live_call here)
  cases c with
  | outgoing x =>
    intro same
    obtain rfl : x = id' := may
    obtain ⟨tx,known,waits⟩ := waiting same
    subst same
    exact ⟨tx,outgoing_ok known waits,going.settled.orderly.keyed _ tx known,ready tx known waits,sendable tx known waits⟩
  | findPeer name => exact fun same => decide_eq_true same
  | client => rfl
  | openRead x path =>
    intro same
    obtain ⟨rfl,tx,read,file,listed,rfl⟩ := may
    obtain ⟨tx',known,waits⟩ := waiting same
    subst same
    obtain ⟨_,isSent,_⟩ := fair_outgoing facts read
    have cargo := single.unique _ _ isSent (ready tx' known waits)
    have files : tx.files = tx'.files := congrArg Cargo.files cargo
    exact openRead_ok going.own known (files ▸ listed)
  | markDelivered x =>
    intro same
    obtain ⟨rfl,_⟩ := may
    obtain ⟨tx,known,waits⟩ := waiting same
    subst same
    exact markDelivered_ok going.own faultless known (isOutgoing_iff.mp waits).2.2

theorem Going.announced (going : Going cfg id sent who s) (faultless : env.Faultless)
    {req : ReceiveRequest} (reads : Api.decodeReceive body = .ok req)
    (accepted : req.id = id → env.destination req.targetUser [] = .ok ())
    (unclaimed : req.id = id → ∀ tx ∈ s.b.world.index.lookup id, tx.originServer = cfg.aName)
    (failed : HttpClient.outcome ((s.result cfg env (.receive (peer cfg) req)).map fun _ => []) = .error e)
    (said : body = Api.encodeReceive (Forwarder.announce tx)) (named : tx.id = id) (sendable : Sendable cfg tx) :
    e.code = .conflict ∧ ∃ copy, Copied cfg id s.b.world.index copy := by
  subst said
  obtain rfl := Api.decodeReceive_reads reads
  rcases receive_ok (peer cfg) going.there faultless rfl sendable.plain sendable.receivable (accepted named)
    with ok | ⟨⟨e',refused,conflict⟩,known⟩
  · rw [result,ok] at failed
    cases failed
  · obtain ⟨copy,there⟩ := Option.ne_none_iff_exists'.mp known
    rw [named] at there
    obtain ⟨e'',same,code⟩ := HttpClient.outcome_conflict conflict
    rw [result,refused] at failed
    change HttpClient.outcome (.error e') = .error e at failed
    rw [same] at failed
    exact ⟨Except.error.inj failed ▸ code,copy,there,unclaimed named copy there⟩

theorem copy_shown (asked : s.Asked (Fair cfg id sent s.b.world.index) who (.get id)) (env : Env) :
    ∃ tx, (perform cfg.sha256 env (TransactionService.get (peer cfg) id).run s.b.world).1 = .ok tx := by
  obtain ⟨_,id',_,_,_,past,facts,⟨may,allowed⟩,_⟩ := asked
  obtain ⟨rfl,body,e,told,conflict⟩ := may
  rcases fair_refused facts allowed told with transient | ⟨_,copy,copied⟩
  · rw [conflict] at transient
    cases transient
  · exact ⟨copy,get_ok (s := s.b) copied.1 (originPeer copied)⟩

theorem Going.taken (going : Going cfg id sent who s) (single : Single sent)
    (ready : ∀ tx, s.a.world.index.lookup id = some tx → isOutgoing tx = true → sent tx.cargo)
    (faultless : env.Faultless) {j : Nat} {put : Put} {p : PendingUpload} {size : UInt64}
    (here : s.uploads[j]? = some (some put)) (there : s.b.pending[j]? = some p) (named : p.id = id)
    (asked : s.Asked (Fair cfg id sent s.b.world.index) who (.put p.id p.upload.path size put.sha256 body))
    (isOpen : OpenThere cfg id s) (failed : s.result cfg env (.finishUpload j (some put.sha256)) = .error e) :
    Forwarder.isTransient e.code = true := by
  obtain ⟨tx,copied,isOpen⟩ := isOpen
  obtain ⟨n,id',its,lives,_,past,facts,⟨may,_⟩,_⟩ := asked
  obtain ⟨rfl,_,tx',read,listed,_⟩ := may
  subst named
  obtain ⟨own,known,waits⟩ := going.waiting n its lives
  obtain ⟨_,isSent,_⟩ := fair_outgoing facts read
  have files : tx'.files = own.files := congrArg Cargo.files (single.unique _ _ isSent (ready own known waits))
  have clear := payload_apart (going.own.folder known).payload (files ▸ listed)
  obtain ⟨c,isSent',carried⟩ := going.exact.copied tx copied
  have inside : ∀ file ∈ tx.files, file ∈ own.files := by
    intro file member
    have all := carried.files file member
    rwa [single.unique _ _ isSent' (ready own known waits)] at all
  refine finishUpload_transient going.there faultless there (going.exact.tracks.carries j put p here there).progress
    copied.1 isOpen
    ?_ failed
  rintro ⟨entry,member,clash⟩
  exact clear ⟨entry,inside entry member,clash⟩

/-- Whatever the other server answers to an attempt, the attempt goes on or is made again. -/
theorem Going.replies (going : Going cfg id sent who s) (single : Single sent)
    (ready : ∀ tx, s.a.world.index.lookup id = some tx → isOutgoing tx = true → sent tx.cargo) (did : s.Did cfg act s')
    (faultless : act.Faultless) (given : Given cfg id s act) (unhindered : Unhindered cfg id s act)
    (keeps : s.holdsCopy cfg id = true → s'.holdsCopy cfg id = true) {request : PeerRequest}
    {result : Result Bytes} (answers : Answers cfg s s' act request result) (awaits : s.awaits act = true)
    (asked : s.Asked (Fair cfg id sent s.b.world.index) who request) :
    Fair cfg id sent s'.b.world.index (Forwarder.told request (HttpClient.outcome result)) := by
  have timely := unhindered.timely
  have passed : ∀ {e e' : Error}, Forwarder.isTransient e.code = true → HttpClient.outcome (.error e) = .error e' →
      Forwarder.isTransient e'.code = true := by
    intro e e' transient told
    obtain ⟨e'',same,also⟩ := HttpClient.outcome_transient transient
    rw [same] at told
    exact Except.error.inj told ▸ also
  cases answers with
  | unread arrives bad =>
    rintro e told tx rfl named sendable
    rw [Api.decodeReceive_encodeReceive sendable.plain] at bad
    cases bad
  | @received k env ticket body req arrives reads after =>
    intro e told tx said named sendable
    have announces : req ∈ s.announcement (.arrive k env) := by simp [announcement,arrives,reads,Except.toOption]
    obtain ⟨conflict,copied⟩ := going.announced faultless reads (given req announces)
      (unhindered.unclaimed awaits req announces) told said named sendable
    exact .inr ⟨conflict,holdsCopy_iff.mp (keeps (holdsCopy_iff.mpr copied))⟩
  | @got k env ticket id' arrives =>
    rintro rfl e told
    obtain ⟨tx,shown⟩ := copy_shown asked env
    rw [shown] at told
    cases told
  | @committed k env ticket id' arrives after =>
    rintro rfl e told
    obtain ⟨tx,copied,isOpen⟩ := timely awaits (by simp [alters,arrives,needsOpen])
    have ok : s.result cfg env (.commit (peer cfg) id') = .ok () :=
      commit_ok going.there faultless copied.1 (by simp [mayWrite,originPeer copied]) isOpen
    rw [ok] at told
    cases told
  | @unopened k env ticket id' path size sha256 body e arrives failed =>
    rintro rfl
    obtain ⟨tx,copied,isOpen⟩ := timely awaits (by simp [alters,arrives,needsOpen])
    have ok : s.result cfg env (.beginUpload (peer cfg) id' path) = .ok () :=
      beginUpload_ok going.there faultless copied.1 (by simp [mayWrite,originPeer copied]) isOpen path
    rw [ok] at failed
    cases failed
  | stuck here there failed =>
    rintro _ e told
    exact passed (writeUpload_transient failed) told
  | @finished j env put p size here there left whole free after =>
    rintro named e told
    cases failed : s.result cfg env (.finishUpload j (some put.sha256)) with
    | ok =>
      rw [failed] at told
      cases told
    | error e' =>
      rw [failed] at told
      refine passed ?_ told
      exact going.taken single ready faultless here there named asked (timely awaits (by simp [alters,there,named])) failed

theorem Going.waits (going : Going cfg id sent who s) (did : s.Did cfg act s') (other : act.pushes = none)
    (given : Given cfg id s act) {n : Nat} (its : who[n]? = some id) (lives : s'.wire.live n = true) :
    ∃ tx, s'.a.world.index.lookup id = some tx ∧ isOutgoing tx = true := by
  have before := did.live other lives
  obtain ⟨tx,known,waits⟩ := going.waiting n its before
  cases did with
  | @served env op unmarking =>
    have stepped : s.step cfg (.serve env op) = { s with a := s.a.step cfg.sha256 cfg.aOpts env op } := by
      cases op with
      | markDelivered id' => exact absurd rfl (unmarking id')
      | create | beginUpload | writeUpload | finishUpload | dropUpload | removeFile | commit | receive | setRetention | expire
      | adminDelete => rfl
    have kept := given (by simp [known,waits])
    rw [stepped] at kept
    exact served_waits going.settled unmarking kept known waits
  | restarted => cases lives
  | @called m env ready c next upcoming =>
    cases c with
    | outgoing | findPeer | client | openRead => exact ⟨tx,known,waits⟩
    | markDelivered id' =>
      obtain ⟨_,here⟩ := Wire.upcoming_eq upcoming
      obtain rfl := going.alone n m before (Wire.live_call here)
      obtain ⟨result,ended⟩ := Forwarder.marked_ends (going.led.follows n id _ its here)
        (ownCall cfg env ready s.a (.markDelivered id')).1
      have bound := (List.getElem?_eq_some_iff.mp here).1
      unfold Wire.live Wire.resume at lives
      dsimp only at lives
      rw [List.getElem?_set_self bound,ended] at lives
      cases lives
  | arrived =>
    rw [(receive_frame _ _ _ _ _).1]
    exact ⟨tx,known,waits⟩
  | nothing | pushed | sent | heard | lost | vanished | wrote | stuck | finished | broken | others | marked | unmarked
  | removed => exact ⟨tx,known,waits⟩

theorem fair_stays (keeps : s.holdsCopy cfg id = true → s'.holdsCopy cfg id = true) (event : Event Fwd)
    (fair : Fair cfg id sent s.b.world.index event) : Fair cfg id sent s'.b.world.index event := by
  obtain ⟨c | request,reply⟩ := event
  · cases c <;> exact fair
  cases request with
  | receive body =>
    intro e told tx said named sendable
    rcases fair e told tx said named sendable with transient | ⟨conflict,copied⟩
    · exact .inl transient
    · exact .inr ⟨conflict,holdsCopy_iff.mp (keeps (holdsCopy_iff.mpr copied))⟩
  | get | put | commit => exact fair

section

variable (going : Going cfg id sent who s)
include going

theorem Going.push {id' : TransactionId} (given : Given cfg id s (.push id'))
    (single : Single sent) (ready : ∀ tx, s.a.world.index.lookup id = some tx → isOutgoing tx = true → sent tx.cargo) :
    Going cfg id sent (who ++ [id']) (s.step cfg (.push id')) := by
  obtain ⟨idle,outgoing⟩ := given
  have only : ∀ {n : Nat}, (s.step cfg (.push id')).wire.live n = true → n = s.wire.sessions.length := by
    intro n lives
    rcases Wire.live_start lives with before | new
    · rw [Wire.live_idle idle] at before
      cases before
    · exact new
  refine ⟨going.settled,going.own,going.there,?_,?_,?_,push_led going.led id'⟩
  · exact going.exact.step single (.push id') (fun known => known) trivial going.settled.orderly.keyed ready
  · intro n m first second
    rw [only first,only second]
  · intro n its lives
    rw [only lives,going.led.length,List.getElem?_append_right (Nat.le_refl _),Nat.sub_self] at its
    obtain ⟨tx,known,waits⟩ := (Option.any_eq_true _ _).mp (outgoing (Option.some.inj its))
    exact ⟨tx,known,waits⟩

theorem Going.restart (faultless : env.Faultless)
    (starts : exec env restart.run (World.boot s.a.world.disk) = (.ok (),w))
    (exact : Exact cfg id sent { s with a := ⟨w,[]⟩, wire := s.wire.abandon }) :
    Going cfg id sent [] { s with a := ⟨w,[]⟩, wire := s.wire.abandon } := by
  refine ⟨restart_settled starts,restart_in_order going.settled going.own faultless starts,going.there,exact,?_,?_,?_⟩
  · exact fun _ _ lives => by cases lives
  · exact fun _ its => by cases its
  · exact going.led.abandon

theorem Going.step (single : Single sent) (act : PeerAct) (faultless : act.Faultless)
    (given : Given cfg id s act) (keeps : Keeps cfg id s act) (unhindered : Unhindered cfg id s act)
    (ready : ∀ tx, s.a.world.index.lookup id = some tx → isOutgoing tx = true → sent tx.cargo) :
    ∃ who', Going cfg id sent who' (s.step cfg act) ∧ ((∀ env, act ≠ .restart env) → who' = who ++ act.pushes.toList) := by
  have did := step_did cfg s act
  have exact := going.exact.step single act keeps unhindered.unmixed going.settled.orderly.keyed ready
  cases pushes : act.pushes with
  | some id' =>
    obtain rfl : act = .push id' := by
      cases act <;> cases pushes
      rfl
    exact ⟨_,going.push given single ready,fun _ => rfl⟩
  | none =>
    unfold Keeps at keeps
    generalize s.step cfg act = s' at did exact keeps ⊢
    by_cases restarts : ∃ env, act = .restart env
    · obtain ⟨env,rfl⟩ := restarts
      cases did with
      | nothing => exact ⟨who,going,fun stays => absurd rfl (stays env)⟩
      | restarted starts => exact ⟨[],going.restart faultless starts exact,fun stays => absurd rfl (stays env)⟩
    · refine ⟨who,⟨did.own.settled going.settled,did.own.healthy going.settled going.own faultless,
        did.healthy going.there faultless,exact,?_,?_,?_⟩,fun _ => (List.append_nil who).symm⟩
      · exact fun n m first second => going.alone n m (did.live pushes first) (did.live pushes second)
      · exact fun n its lives => going.waits did pushes given its lives
      · refine did.led going.exact.tracks (fun env same => restarts ⟨env,same⟩) pushes going.led (fair_stays keeps) ?_ ?_ ?_
        · rintro n env _ c next id' rfl upcoming its warrants
          obtain ⟨rfl,target⟩ := given
          have sendable : ∀ tx ∈ s.a.world.index.lookup id, isOutgoing tx = true → Sendable cfg tx := fun tx known waits =>
            ⟨target tx known waits,(unhindered.fit tx known waits).1,(unhindered.fit tx known waits).2⟩
          exact going.answers single ready faultless sendable upcoming its warrants _
        · intro request e network
          have transient : Forwarder.isTransient e.code = true := by rcases network with code | code <;> rw [code] <;> rfl
          cases request with
          | receive => exact fun e' same _ _ _ _ => .inl (Except.error.inj same ▸ transient)
          | get | put | commit => exact fun _ e' same => Except.error.inj same ▸ transient
        · exact fun request result answers awaits asked =>
            going.replies single ready did faultless given unhindered keeps answers awaits asked

/-- The attempts since the last restart, in the order in which they were started. -/
theorem Going.run (single : Single sent) (acts : List PeerAct)
    (faultless : ∀ act ∈ acts, act.Faultless) (given : Runs.Along (Peering.step cfg) (Given cfg id) s acts)
    (keeps : Runs.Along (Peering.step cfg) (Keeps cfg id) s acts)
    (unhindered : Runs.Along (Peering.step cfg) (Unhindered cfg id) s acts) (ready : Runs.Along (Peering.step cfg)
      (fun s _ => ∀ tx, s.a.world.index.lookup id = some tx → isOutgoing tx = true → sent tx.cargo) s acts) :
    ∃ who', Going cfg id sent who' (Runs.run (Peering.step cfg) s acts) ∧ ((∀ env, .restart env ∉ acts) → who <+: who') := by
  induction acts generalizing s who with
  | nil => exact ⟨who,going,fun _ => List.prefix_refl who⟩
  | cons act acts ih =>
    obtain ⟨who₁,next,same⟩ := going.step single act (faultless act (List.mem_cons_self ..)) given.1 keeps.1 unhindered.1 ready.1
    obtain ⟨who₂,last,longer⟩ := ih next (fun act member => faultless act (List.mem_cons_of_mem _ member)) given.2 keeps.2
      unhindered.2 ready.2
    refine ⟨who₂,last,fun stays => ?_⟩
    have first := same fun env restarts => stays env (restarts ▸ List.mem_cons_self ..)
    have rest := longer fun env member => stays env (List.mem_cons_of_mem _ member)
    exact (List.prefix_append who _).trans (first ▸ rest)

end

/-- In every run in which nothing fails, the transaction and its copy are not removed, and nothing on the other server stands in
the way, every attempt for the transaction that has ended has succeeded or is to be made again. -/
theorem pushes_are_kept (cfg : PeerConfig) (aEnv bEnv : Env) (aDisk bDisk : Disk)
    (aStarts : (exec aEnv restart.run (World.boot aDisk)).1 = .ok ())
    (bStarts : (exec bEnv restart.run (World.boot bDisk)).1 = .ok ())
    (aHealthy : Healthy cfg.sha256 none (starting aEnv bEnv aDisk bDisk).a)
    (bHealthy : Healthy cfg.sha256 none (starting aEnv bEnv aDisk bDisk).b) (id : TransactionId)
    (new : ∀ tx, ¬ Copied cfg id (starting aEnv bEnv aDisk bDisk).b.world.index tx) (before after acts : List PeerAct)
    (split : acts = before ++ .push id :: after) (once : Once id (starting aEnv bEnv aDisk bDisk).a acts)
    (faultless : ∀ act ∈ acts, act.Faultless)
    (given : Runs.Along (step cfg) (Given cfg id) (starting aEnv bEnv aDisk bDisk) acts)
    (keeps : Runs.Along (step cfg) (Keeps cfg id) (starting aEnv bEnv aDisk bDisk) acts)
    (unhindered : Runs.Along (step cfg) (Unhindered cfg id) (starting aEnv bEnv aDisk bDisk) acts)
    (stays : ∀ env, .restart env ∉ after) (result : Result Unit)
    (ended : (Runs.run (step cfg) (starting aEnv bEnv aDisk bDisk) acts).wire.result
      (Runs.run (step cfg) (starting aEnv bEnv aDisk bDisk) before).wire.sessions.length = some result) :
    result = .ok () ∨ ∃ e, result = .error e ∧ Forwarder.isTransient e.code = true := by
  have settled : Settled (starting aEnv bEnv aDisk bDisk).a := restart_settled (Prod.ext aStarts rfl)
  have single : Single (SentAs cfg id (starting aEnv bEnv aDisk bDisk) acts) := sentAs_single settled once
  have ready := sentAs_along cfg id (starting aEnv bEnv aDisk bDisk) acts
  have start : Going cfg id (SentAs cfg id (starting aEnv bEnv aDisk bDisk) acts) [] (starting aEnv bEnv aDisk bDisk) := by
    refine ⟨settled,aHealthy,bHealthy,starting_exact bStarts new,?_,?_,Wire.led_empty⟩
    · exact fun _ _ lives => by cases lives
    · exact fun _ its => by cases its
  generalize SentAs cfg id (starting aEnv bEnv aDisk bDisk) acts = sent at single ready start
  subst split
  rw [Runs.Along.append] at given keeps unhindered ready
  rw [Runs.run_append,Runs.run_cons] at ended
  obtain ⟨who,begun,_⟩ := start.run single before (fun act member => faultless act (List.mem_append_left _ member)) given.1
    keeps.1 unhindered.1 ready.1
  obtain ⟨who',going,longer⟩ := (begun.push given.2.1 single ready.2.1).run single after
    (fun act member => faultless act (List.mem_append_right _ (List.mem_cons_of_mem _ member))) given.2.2 keeps.2.2
    unhindered.2.2 ready.2.2
  obtain ⟨rest,rfl⟩ := longer stays
  rw [begun.led.length] at ended
  have its : (who ++ [id] ++ rest)[who.length]? = some id := by simp
  obtain ⟨past,facts,ends,allowed⟩ := going.led.ended its ended
  cases result with
  | ok => exact .inl rfl
  | error e =>
    obtain ⟨event,member,stops⟩ := ends
    exact .inr ⟨e,rfl,stops_transient facts allowed member stops⟩

/-! Runs: one in which an attempt is made again, and one in which it is given up. -/

instance (req : ReceiveRequest) : Decidable req.Plain :=
  decidable_of_iff ((req.sender ≠ [] ∧ isUtf8 req.sender = true) ∧ (req.targetUser ≠ [] ∧ isUtf8 req.targetUser = true) ∧
      InEra req.createdAt ∧ InEra req.expiresAt ∧ isUtf8 req.comment = true)
    ⟨fun plain => ⟨plain.1,plain.2.1,plain.2.2.1,plain.2.2.2.1,plain.2.2.2.2⟩,
      fun plain => ⟨plain.sender,plain.targetUser,plain.createdAt,plain.expiresAt,plain.comment⟩⟩

instance (opts : ServiceOptions) (tx : Transaction) : Decidable (Receivable opts tx) :=
  decidable_of_iff (tx.createdAt < tx.expiresAt ∧ checkComment tx.comment opts.maxCommentLength = .ok ())
    ⟨fun fine => ⟨fine.1,fine.2⟩,fun fine => ⟨fine.lasts,fine.comment⟩⟩

instance (cfg : PeerConfig) (id : TransactionId) (s : Peering) : (act : PeerAct) → Decidable (Given cfg id s act)
  | .serve _ _ => inferInstanceAs (Decidable (_ → _))
  | .push _ => inferInstanceAs (Decidable (_ ∧ (_ → _)))
  | .call _ _ _ => inferInstanceAs (Decidable (_ ∧ ∀ tx ∈ s.a.world.index.lookup id, isOutgoing tx = true → tx.targetServer = _))
  | .arrive k env => inferInstanceAs (Decidable (∀ req ∈ s.announcement (.arrive k env), req.id = id → _))
  | .restart _ | .send _ | .hear _ | .lose _ _ | .vanish _ | .write _ _ _ | .finish _ _ | .breakOff _ _ | .other _ _
  | .mark _ _ _ | .remove _ _ => isTrue trivial

instance (cfg : PeerConfig) (id : TransactionId) (s : Peering) : Decidable (OpenThere cfg id s) :=
  decidable_of_iff ((s.b.world.index.lookup id).any fun tx => tx.originServer = cfg.aName && tx.state = .open)
    (by simp [OpenThere,Copied,Option.any_eq_true,and_assoc])

instance (cfg : PeerConfig) (id : TransactionId) (s : Peering) (act : PeerAct) : Decidable (Timely cfg id s act) :=
  inferInstanceAs (Decidable (_ → _ → _))

instance (cfg : PeerConfig) (id : TransactionId) (s : Peering) (act : PeerAct) : Decidable (Unclaimed cfg id s act) :=
  inferInstanceAs (Decidable (_ → ∀ req ∈ s.announcement act, req.id = id → ∀ tx ∈ s.b.world.index.lookup id, _))

instance (cfg : PeerConfig) (id : TransactionId) (s : Peering) (act : PeerAct) : Decidable (Unhindered cfg id s act) :=
  decidable_of_iff (Timely cfg id s act ∧ Unmixed cfg id s act ∧ Unclaimed cfg id s act ∧
      ∀ tx ∈ s.a.world.index.lookup id, isOutgoing tx = true → (Forwarder.announce tx).Plain ∧ Receivable cfg.bOpts tx)
    ⟨fun fine => ⟨fine.1,fine.2.1,fine.2.2.1,fine.2.2.2⟩,fun fine => ⟨fine.timely,fine.unmixed,fine.unclaimed,fine.fit⟩⟩

end Peering

namespace Sample

def strangerId : TransactionId := ⟨ascii "0b1c2d3e-4f50-4a61-9b72-8c93a4b5c6d7",by decide⟩

/-- The sending server is restarted while it waits for the reply to the commit, and the other one removes something else. -/
def interrupted : List PeerAct :=
  .other { env with fresh := strangerId } (.create alice ⟨ascii "bob",[],0,[]⟩) :: filePush ++
    [.restart env,.mark env strangerId none,.remove 0 env]

/-- A second attempt finds out that there is a copy, and loses the connection. -/
def secondAttempt : List PeerAct :=
  [.call 0 env (.ok ()),.call 0 env (.ok ()),.call 0 env (.ok ()),.send 0,.arrive 0 env,.hear 0,.send 0,
    .lose 0 ⟨.unavailable,[]⟩]

def repeatedPush : List PeerAct := interrupted ++ .push id :: secondAttempt

def heldUp : List PeerAct := outgoing ++ attempt 0 ++ [.hear 0,.send 0,.lose 0 ⟨.unavailable,[]⟩]

/-- When the second attempt has looked at the copy and found it open, that commit takes effect before its own. -/
def overtaken : List PeerAct :=
  [.call 1 env (.ok ()),.call 1 env (.ok ()),.call 1 env (.ok ()),.send 1,.arrive 1 env,.hear 1,.send 1,.arrive 1 env,.hear 1,
    .send 1,.arrive 0 env,.arrive 0 env,.hear 1]

def staleCommit : List PeerAct := heldUp ++ .push id :: overtaken

end Sample

namespace Peering

theorem sample_healthy : Healthy Sample.sha256 none ⟨(exec Sample.env restart.run (World.boot emptyDisk)).2,[]⟩ := by
  have nodes : (exec Sample.env restart.run (World.boot emptyDisk)).2.disk.nodes = emptyDisk.nodes := by decide +kernel
  have index : (exec Sample.env restart.run (World.boot emptyDisk)).2.index = Server.empty.world.index := by decide +kernel
  have disk : (exec Sample.env restart.run (World.boot emptyDisk)).2.disk = emptyDisk :=
    DirTree.Tree.ext_lookup fun path => by rw [DirTree.Tree.lookup,nodes,DirTree.Tree.lookup]
  have empty : Healthy Sample.sha256 none ⟨Server.empty.world,[]⟩ := empty_healthy Sample.sha256
  exact empty.idle disk index (Nat.zero_le _)

theorem lost_reply_keeps_push : ∃ e,
    (Runs.run (step Sample.pair) Sample.together Sample.repeatedPush).wire.result 0 = some (.error e) ∧
      Forwarder.isTransient e.code = true := by
  have once : Once Sample.id Sample.together.a Sample.repeatedPush := sample_once (by decide +kernel)
  have faultless : ∀ act ∈ Sample.repeatedPush, act.Faultless := by
    have stranger : Env.Faultless { Sample.env with fresh := Sample.strangerId } := fun _ _ => rfl
    simp [Sample.repeatedPush,Sample.interrupted,Sample.secondAttempt,Sample.filePush,Sample.attempt,PeerAct.Faultless,
      Sample.env_faultless,stranger]
  have stays : ∀ env, .restart env ∉ Sample.secondAttempt := by simp [Sample.secondAttempt]
  have run : Runs.Along (step Sample.pair) (Given Sample.pair Sample.id) Sample.together Sample.repeatedPush ∧
      Runs.Along (step Sample.pair) (Keeps Sample.pair Sample.id) Sample.together Sample.repeatedPush ∧
      Runs.Along (step Sample.pair) (Unhindered Sample.pair Sample.id) Sample.together Sample.repeatedPush := by
    decide +kernel
  have ended : (Runs.run (step Sample.pair) Sample.together Sample.repeatedPush).wire.result 0 =
      some (.error ⟨.unavailable,[]⟩) := by decide +kernel
  have place : (Runs.run (step Sample.pair) Sample.together Sample.interrupted).wire.sessions.length = 0 := by decide +kernel
  obtain ⟨given,keeps,unhindered⟩ := run
  unfold Sample.together at once given keeps unhindered ended place ⊢
  have kept := pushes_are_kept Sample.pair Sample.env Sample.env emptyDisk emptyDisk (by decide +kernel) (by decide +kernel)
    sample_healthy sample_healthy Sample.id sample_new Sample.interrupted Sample.secondAttempt Sample.repeatedPush rfl once
    faultless given keeps unhindered stays _ (place ▸ ended)
  obtain ⟨e,same,transient⟩ := kept.resolve_left fun bad => by cases bad
  exact ⟨e,same ▸ ended,transient⟩

/-- The copy is committed, the transaction still waits, and the attempt has ended for good. -/
theorem stale_commit_ends_push : (∀ act ∈ Sample.staleCommit, act.Faultless) ∧
      Runs.Along (step Sample.pair) (Given Sample.pair Sample.id) Sample.together Sample.staleCommit ∧
      Runs.Along (step Sample.pair) (Keeps Sample.pair Sample.id) Sample.together Sample.staleCommit ∧
      Sample.staleCommit = Sample.heldUp ++ .push Sample.id :: Sample.overtaken ∧
      (Runs.run (step Sample.pair) Sample.together Sample.heldUp).wire.sessions.length = 1 ∧
      CommittedThere Sample.pair Sample.id (Runs.run (step Sample.pair) Sample.together Sample.staleCommit) ∧
      ((Runs.run (step Sample.pair) Sample.together Sample.staleCommit).a.world.index.lookup Sample.id).any isOutgoing = true ∧
      ∃ e, (Runs.run (step Sample.pair) Sample.together Sample.staleCommit).wire.result 1 = some (.error e) ∧
        Forwarder.isTransient e.code = false := by
  have run : Runs.Along (step Sample.pair) (Given Sample.pair Sample.id) Sample.together Sample.staleCommit ∧
      Runs.Along (step Sample.pair) (Keeps Sample.pair Sample.id) Sample.together Sample.staleCommit ∧
      (Runs.run (step Sample.pair) Sample.together Sample.heldUp).wire.sessions.length = 1 ∧
      CommittedThere Sample.pair Sample.id (Runs.run (step Sample.pair) Sample.together Sample.staleCommit) ∧
      ((Runs.run (step Sample.pair) Sample.together Sample.staleCommit).a.world.index.lookup Sample.id).any isOutgoing = true ∧
      (Runs.run (step Sample.pair) Sample.together Sample.staleCommit).wire.result 1 =
        some (.error ⟨.conflict,ascii "transaction is committed, cannot become committed"⟩) := by decide +kernel
  obtain ⟨given,keeps,place,committed,waits,ended⟩ := run
  refine ⟨?_,given,keeps,rfl,place,committed,waits,_,ended,rfl⟩
  simp [Sample.staleCommit,Sample.heldUp,Sample.overtaken,Sample.outgoing,Sample.attempt,PeerAct.Faultless,Sample.env_faultless]

end Peering
end Confide
