import Confide.ForwarderQueue
import Confide.PeerClient
import Confide.Requests

/-! Two servers: the forwarder of one pushes transactions to the other. Requests and replies travel on their own, may be
lost, and may be dealt with long after the attempt that sent them has ended. An operation of the receiving server
holds the transaction's lock and counts as one step, but a removal is two: what it marks can be read, without the
lock, before it is gone. -/
namespace Confide

open Bytes Resumption Resumption.Prog

/-- A request to the other server. A file is sent with its size and digest; the body is what could be read of it. -/
inductive PeerRequest where
  | receive (body : Bytes)
  | get (id : TransactionId)
  | put (id : TransactionId) (path : RelativePath) (size : UInt64) (sha256 : Sha256Digest) (body : Bytes)
  | commit (id : TransactionId)

inductive OwnCall where
  | outgoing (id : TransactionId)
  | findPeer (name : Bytes)
  | client
  | openRead (id : TransactionId) (path : RelativePath)
  | markDelivered (id : TransactionId)

abbrev OwnCall.Reply : OwnCall → Type
  | .outgoing _ => Result Transaction
  | .findPeer _ => Bool
  | .client => Result Unit
  | .openRead _ _ => Result FileStore.Download
  | .markDelivered _ => Result Unit

abbrev Own : Signature := ⟨OwnCall,OwnCall.Reply⟩

abbrev Fwd : Signature := Own.sending PeerRequest (Result Bytes)

abbrev FwdM (α : Type) := ExceptT Error (Prog Fwd) α

def own (c : OwnCall) : Prog Fwd c.Reply := @Prog.perform Fwd (.inl c)

def request (r : PeerRequest) : Prog Fwd (Result Bytes) := @Prog.perform Fwd (.inr r)

variable [BoostJson]

namespace Forwarder

/-- Whether the other server is past the point where it takes files. -/
def committedThere (id : TransactionId) : Result Bytes → FwdM Bool
  | .ok _ => pure false
  | .error e => do
    refuse (e.code ≠ .conflict) e
    let body : Bytes ← ExceptT.mk (request (.get id))
    let state ← ensure (stateOf body)
    pure (decide (state ≠ ascii "open"))

def sendFiles (id : TransactionId) : List FileEntry → FwdM Unit
  | [] => pure ()
  | file :: files => do
    let source : FileStore.Download ← ExceptT.mk (own (.openRead id file.path))
    let sent : Result Bytes ← ExceptT.lift
      (request (.put id file.path file.size file.sha256 (source.content.take file.size.toNat)))
    match sent with
    | .error e => throw ⟨e.code,file.path.value ++ ascii ": " ++ e.detail⟩
    | .ok _ => sendFiles id files

def push (id : TransactionId) : FwdM Unit := do
  let tx : Transaction ← ExceptT.mk (own (.outgoing id))
  let known : Bool ← ExceptT.lift (own (.findPeer tx.targetServer))
  refuse (!known) ⟨.unknownDestination,ascii "server '" ++ tx.targetServer ++ ascii "' is not a configured peer"⟩
  let _ready : Unit ← ExceptT.mk (own .client)
  let created : Result Bytes ← ExceptT.lift (request (.receive (Api.encodeReceive (announce tx))))
  let there ← committedThere id created
  if there then pure ()
  else do
    sendFiles id tx.files
    let _committed : Bytes ← ExceptT.mk (request (.commit id))
    pure ()
  ExceptT.mk (own (.markDelivered id))

def answered (c : OwnCall) (reply : c.Reply) : Event Fwd := ⟨.inl c,reply⟩

def told (r : PeerRequest) (reply : Result Bytes) : Event Fwd := ⟨.inr r,reply⟩

def Looked (id : TransactionId) (past : List (Event Fwd)) : Prop :=
  (∃ body reply, told (.receive body) (.ok reply) ∈ past) ∨
    ∃ reply, told (.get id) (.ok reply) ∈ past ∧ stateOf reply = .ok (ascii "open")

def Confirmed (id : TransactionId) (past : List (Event Fwd)) : Prop :=
  (∃ reply, told (.commit id) (.ok reply) ∈ past) ∨
    ∃ reply state, told (.get id) (.ok reply) ∈ past ∧ stateOf reply = .ok state ∧ state ≠ ascii "open"

/-- A call of a push, with what must have gone before it. -/
def May (id : TransactionId) : Fwd.Call → List (Event Fwd) → Prop
  | .inl (.outgoing id'), _ => id' = id
  | .inl (.findPeer name), past => ∃ tx, answered (.outgoing id) (.ok tx) ∈ past ∧ name = tx.targetServer
  | .inl .client, _ => True
  | .inl (.openRead id' path), past =>
    id' = id ∧ ∃ tx, answered (.outgoing id) (.ok tx) ∈ past ∧ ∃ file ∈ tx.files, path = file.path
  | .inl (.markDelivered id'), past => id' = id ∧ Confirmed id past
  | .inr (.receive body), past => ∃ tx, answered (.outgoing id) (.ok tx) ∈ past ∧ body = Api.encodeReceive (announce tx)
  | .inr (.get id'), past => id' = id ∧ ∃ body e, told (.receive body) (.error e) ∈ past ∧ e.code = .conflict
  | .inr (.put id' path size sha256 body), past =>
    id' = id ∧ Looked id past ∧ ∃ tx, answered (.outgoing id) (.ok tx) ∈ past ∧ (⟨path,size,sha256⟩ : FileEntry) ∈ tx.files ∧
      ∃ source, answered (.openRead id path) (.ok source) ∈ past ∧ body = source.content.take size.toNat
  | .inr (.commit id'), past =>
    id' = id ∧ Looked id past ∧ ∃ tx, answered (.outgoing id) (.ok tx) ∈ past ∧
      ∀ file ∈ tx.files, ∃ body reply, told (.put id file.path file.size file.sha256 body) (.ok reply) ∈ past

/-- A reply that ends a push, with the error it ends with. -/
inductive Stops : Event Fwd → ErrCode → Prop
  | outgoing {id : TransactionId} {e : Error} : Stops (answered (.outgoing id) (.error e)) e.code
  | unknown {name : Bytes} : Stops (answered (.findPeer name) false) .unknownDestination
  | client {e : Error} : Stops (answered .client (.error e)) e.code
  | refused {body : Bytes} {e : Error} (other : e.code ≠ .conflict) : Stops (told (.receive body) (.error e)) e.code
  | unseen {id : TransactionId} {e : Error} : Stops (told (.get id) (.error e)) e.code
  | unclear {id : TransactionId} {reply : Bytes} {e : Error} (unread : stateOf reply = .error e) :
    Stops (told (.get id) (.ok reply)) e.code
  | unread {id : TransactionId} {path : RelativePath} {e : Error} : Stops (answered (.openRead id path) (.error e)) e.code
  | unsent {id : TransactionId} {path : RelativePath} {size : UInt64} {sha256 : Sha256Digest} {body : Bytes} {e : Error} :
    Stops (told (.put id path size sha256 body) (.error e)) e.code
  | open {id : TransactionId} {e : Error} : Stops (told (.commit id) (.error e)) e.code
  | unmarked {id : TransactionId} {e : Error} : Stops (answered (.markDelivered id) (.error e)) e.code

def Ends (id : TransactionId) (result : Result Unit) (past : List (Event Fwd)) : Prop :=
  match result with
  | .ok _ => answered (.markDelivered id) (.ok ()) ∈ past
  | .error e => ∃ event ∈ past, Stops event e.code

section Script

variable {α β : Type} {id : TransactionId} {tx : Transaction} {past : List (Event Fwd)}
  {post : Result β → List (Event Fwd) → Prop}

theorem follows_lift_bind {c : Fwd.Call} {f : Fwd.Reply c → FwdM β} :
    (ExceptT.lift (Prog.perform c) >>= f).run.Guarantees recording (May id) past post ↔ May id c past ∧
      ∀ reply past', recording c past reply past' → (f reply).run.Guarantees recording (May id) past' post :=
  guarantees_lift_bind

theorem committedThere_follows {body : Bytes} {created : Result Bytes} (known : told (.receive body) created ∈ past) :
    (committedThere id created).run.Guarantees recording (May id) past fun result past' => past ⊆ past' ∧ match result with
      | .ok true => Confirmed id past'
      | .ok false => Looked id past'
      | .error e => ∃ event ∈ past', Stops event e.code := by
  cases created with
  | ok reply => exact ⟨fun _ member => member,.inl ⟨body,reply,known⟩⟩
  | error e =>
    unfold committedThere
    refine guarantees_refuse_bind.mpr ⟨fun other => ?_,fun same => ?_⟩
    · exact ⟨fun _ member => member,_,known,.refused (of_decide_eq_true other)⟩
    refine (guarantees_exceptT_bind _ _ _ _).mpr ⟨⟨rfl,body,e,known,by simpa using same⟩,?_⟩
    intro reply past₁ recorded
    have heard : told (.get id) reply ∈ past₁ := recorded.mem
    cases reply with
    | error e => exact ⟨recorded.subset,_,heard,.unseen⟩
    | ok reply =>
      refine guarantees_ensure_bind.mpr ⟨fun e unclear => ⟨recorded.subset,_,heard,.unclear unclear⟩,fun state said => ?_⟩
      refine ⟨recorded.subset,?_⟩
      by_cases isOpen : state = ascii "open"
      · rw [isOpen] at said
        simpa [isOpen] using .inr ⟨reply,heard,said⟩
      · simpa [isOpen] using .inr ⟨reply,state,heard,said,isOpen⟩

theorem Looked.mono {past' : List (Event Fwd)} (looked : Looked id past) (longer : past ⊆ past') : Looked id past' := by
  rcases looked with ⟨body,reply,member⟩ | ⟨reply,member,said⟩
  · exact .inl ⟨body,reply,longer member⟩
  · exact .inr ⟨reply,longer member,said⟩

theorem sendFiles_follows {files : List FileEntry} (looked : Looked id past) (read : answered (.outgoing id) (.ok tx) ∈ past)
    (inside : ∀ file ∈ files, file ∈ tx.files) :
    (sendFiles id files).run.Guarantees recording (May id) past fun result past' => past ⊆ past' ∧ match result with
      | .ok _ => ∀ file ∈ files, ∃ body reply, told (.put id file.path file.size file.sha256 body) (.ok reply) ∈ past'
      | .error e => ∃ event ∈ past', Stops event e.code := by
  induction files generalizing past with
  | nil => exact ⟨fun _ member => member,by simp⟩
  | cons file files ih =>
    obtain ⟨first,others⟩ := List.forall_mem_cons.mp inside
    unfold sendFiles
    refine (guarantees_exceptT_bind _ _ _ _).mpr ⟨⟨rfl,tx,read,file,first,rfl⟩,?_⟩
    intro opened past₁ recorded
    have opens : answered (.openRead id file.path) opened ∈ past₁ := recorded.mem
    have longer := recorded.subset
    cases opened with
    | error e => exact ⟨longer,_,opens,.unread⟩
    | ok source =>
      refine follows_lift_bind.mpr ⟨⟨rfl,looked.mono longer,tx,longer read,first,source,opens,rfl⟩,fun sent past₂ recorded => ?_⟩
      have heard : told (.put id file.path file.size file.sha256 (source.content.take file.size.toNat)) sent ∈ past₂ :=
        recorded.mem
      have before := List.Subset.trans longer recorded.subset
      cases sent with
      | error e => exact ⟨before,_,heard,.unsent⟩
      | ok reply =>
        refine (ih (looked.mono before) (before read) others).mono fun result past' ends => ?_
        refine ⟨List.Subset.trans before ends.1,?_⟩
        cases result with
        | error e => exact ends.2
        | ok => exact List.forall_mem_cons.mpr ⟨⟨_,reply,ends.1 heard⟩,ends.2⟩

theorem markDelivered_follows (confirmed : Confirmed id past) :
    (own (.markDelivered id)).Guarantees recording (May id) past (Ends id) := by
  refine ⟨⟨rfl,confirmed⟩,fun marked past' recorded => ?_⟩
  have heard : answered (.markDelivered id) marked ∈ past' := recorded.mem
  cases marked with
  | error e => exact ⟨_,heard,.unmarked⟩
  | ok => exact heard

/-- A push does nothing that it may not do, and ends with an error only if some reply was one. -/
theorem push_follows (id : TransactionId) : (push id).run.Guarantees recording (May id) [] (Ends id) := by
  unfold push
  refine (guarantees_exceptT_bind _ _ _ _).mpr ⟨rfl,?_⟩
  intro read past₁ recorded
  have start : answered (.outgoing id) read ∈ past₁ := recorded.mem
  cases read with
  | error e => exact ⟨_,start,.outgoing⟩
  | ok tx =>
    refine follows_lift_bind.mpr ⟨⟨tx,start,rfl⟩,fun known past₂ recorded => ?_⟩
    have found : answered (.findPeer tx.targetServer) known ∈ past₂ := recorded.mem
    replace start := recorded.subset start
    refine guarantees_refuse_bind.mpr ⟨fun unknown => ?_,fun _ => ?_⟩
    · obtain rfl := (Bool.not_eq_eq_eq_not (b := true)).mp unknown
      exact ⟨_,found,.unknown⟩
    refine (guarantees_exceptT_bind _ _ _ _).mpr ⟨trivial,?_⟩
    intro ready past₃ recorded
    have set : answered .client ready ∈ past₃ := recorded.mem
    replace start := recorded.subset start
    cases ready with
    | error e => exact ⟨_,set,.client⟩
    | ok =>
      refine follows_lift_bind.mpr ⟨⟨tx,start,rfl⟩,fun created past₄ recorded => ?_⟩
      have looks : told (.receive (Api.encodeReceive (announce tx))) created ∈ past₄ := recorded.mem
      replace start := recorded.subset start
      refine (guarantees_exceptT_bind _ _ _ _).mpr ((committedThere_follows looks).mono ?_)
      rintro (e | _ | _) past₅ ⟨longer,ends⟩
      · exact ends
      · refine (guarantees_exceptT_bind _ _ _ _).mpr ((sendFiles_follows ends (longer start) fun _ member => member).mono ?_)
        rintro (e | _) past₆ ⟨further,uploads⟩
        · exact uploads
        refine (guarantees_exceptT_bind _ _ _ _).mpr
          ⟨⟨rfl,Looked.mono ends further,tx,further (longer start),uploads⟩,fun committed past₇ recorded => ?_⟩
        have heard : told (.commit id) committed ∈ past₇ := recorded.mem
        cases committed with
        | error e => exact ⟨_,heard,.open⟩
        | ok reply => exact markDelivered_follows (.inl ⟨reply,heard⟩)
      · exact markDelivered_follows ends

end Script

end Forwarder

namespace TransactionService

def destroyBegin (id : TransactionId) : SvcM Transaction := do
  let found : Option Transaction ← ask (.find id)
  match found with
  | none => throw (notFound id)
  | some tx => markExpired tx

def destroyEnd (id : TransactionId) (type : BizEventType) (actor : Caller) (tx : Transaction) : SvcM Unit := do
  tryCall (svc (.remove id))
  ask (.env (.record (eventFor type tx actor)))

end TransactionService

structure Put where
  ticket : Nat
  sha256 : Sha256Digest
  left : Bytes
  whole : Bool

/-- A removal, by an administrator or by retention, that has marked its transaction. -/
structure Removal where
  tx : Transaction
  admin : Option Caller

def Removal.finish (removal : Removal) : SvcM Unit :=
  match removal.admin with
  | none => TransactionService.destroyEnd removal.tx.id .expired TransactionService.system removal.tx
  | some admin => TransactionService.destroyEnd removal.tx.id .adminDeleted admin removal.tx

structure PeerConfig where
  sha256 : Bytes → Sha256Digest
  aOpts : ServiceOptions
  bOpts : ServiceOptions
  aName : Bytes
  bName : Bytes
  aValid : isValidName aName = true
  bValid : isValidName bName = true

/-- The sending server with its attempts to push, and the receiving one. `uploads` says which of the uploads in
progress there belong to a request. -/
structure Peering where
  a : Server
  wire : Wire Own PeerRequest (Result Bytes) (Result Unit)
  b : Server
  uploads : List (Option Put)
  removals : List Removal

inductive PeerAct where
  | serve (env : Env) (op : Op)
  | restart (env : Env)
  | push (id : TransactionId)
  /-- An attempt makes a call that its own server answers. -/
  | call (i : Nat) (env : Env) (ready : Result Unit)
  | send (i : Nat)
  | hear (i : Nat)
  | lose (i : Nat) (e : Error)
  | vanish (k : Nat)
  | arrive (k : Nat) (env : Env)
  | write (j : Nat) (env : Env) (n : Nat)
  | finish (j : Nat) (env : Env)
  | breakOff (j : Nat) (env : Env)
  | other (env : Env) (op : Op)
  | mark (env : Env) (id : TransactionId) (admin : Option Caller)
  | remove (j : Nat) (env : Env)

def Op.caller : Op → Option Caller
  | .create caller _ | .beginUpload caller _ _ | .removeFile caller _ _ | .commit caller _ | .receive caller _
  | .setRetention caller _ _ | .adminDelete caller _ => some caller
  | .writeUpload _ _ | .finishUpload _ _ | .dropUpload _ | .markDelivered _ | .expire _ => none

def Op.locks (pending : List PendingUpload) : Op → Option TransactionId
  | .beginUpload _ id _ | .removeFile _ id _ | .commit _ id | .markDelivered id | .setRetention _ id _ | .expire id
  | .adminDelete _ id => some id
  | .receive _ req => some req.id
  | .finishUpload k _ => pending[k]?.map (·.id)
  | .create _ _ | .writeUpload _ _ | .dropUpload _ => none

def Op.removes : Op → Bool
  | .expire _ | .adminDelete _ _ => true
  | _ => false

def Op.upload : Op → Option Nat
  | .writeUpload k _ | .finishUpload k _ | .dropUpload k => some k
  | _ => none

namespace Peering

variable (cfg : PeerConfig)

def peer : Caller := ⟨cfg.aName,true,false⟩

def answer (s : Peering) (ticket : Nat) (result : Result Bytes) : Peering :=
  { s with wire := s.wire.answer ticket (HttpClient.outcome result) }

def busy (s : Peering) (id : TransactionId) : Bool := s.removals.any (·.tx.id = id)

def operate (s : Peering) (env : Env) (op : Op) : Peering := { s with b := s.b.step cfg.sha256 cfg.bOpts env op }

def result (s : Peering) (env : Env) (op : Op) : Result Unit := s.b.reply cfg.sha256 cfg.bOpts env op

/-- What the sending server answers an attempt; `ready` is what becomes of setting up a client. -/
def ownCall (env : Env) (ready : Result Unit) (a : Server) : (c : OwnCall) → c.Reply × Server
  | .outgoing id => ((perform cfg.sha256 env (TransactionService.outgoing id).run a.world).1,a)
  | .findPeer name => (decide (name = cfg.bName),a)
  | .client => (ready,a)
  | .openRead id path => ((exec env (FileStore.openRead id path).run a.world).1,a)
  | .markDelivered id =>
    (a.reply cfg.sha256 cfg.aOpts env (.markDelivered id),a.step cfg.sha256 cfg.aOpts env (.markDelivered id))

/-- The receiving server deals with a request; of a file only the upload begins. -/
def receive (s : Peering) (env : Env) (ticket : Nat) : PeerRequest → Peering
  | .receive body => match Api.decodeReceive body with
    | .error e => s.answer ticket (.error e)
    | .ok req =>
      (s.operate cfg env (.receive (peer cfg) req)).answer ticket ((s.result cfg env (.receive (peer cfg) req)).map fun _ => [])
  | .get id =>
    s.answer ticket ((perform cfg.sha256 env (TransactionService.get (peer cfg) id).run s.b.world).1.map Api.encodeTransaction)
  | .commit id =>
    (s.operate cfg env (.commit (peer cfg) id)).answer ticket ((s.result cfg env (.commit (peer cfg) id)).map fun _ => [])
  | .put id path size sha256 body =>
    let begun := s.operate cfg env (.beginUpload (peer cfg) id path)
    match s.result cfg env (.beginUpload (peer cfg) id path) with
    | .error e => begun.answer ticket (.error e)
    | .ok _ => { begun with uploads := begun.uploads ++ [some ⟨ticket,sha256,body,decide (body.length = size.toNat)⟩] }

def wants : PeerRequest → Option TransactionId
  | .receive body => (Api.decodeReceive body).toOption.map (·.id)
  | .get _ => none
  | .put id _ _ _ _ | .commit id => some id

def drop (s : Peering) (env : Env) (j : Nat) : Peering :=
  let ended := s.operate cfg env (.dropUpload j)
  { ended with uploads := ended.uploads.eraseIdx j }

def follow (s : Peering) (env : Env) (op : Op) : List (Option Put) :=
  match op with
  | .dropUpload k => s.uploads.eraseIdx k
  | .beginUpload _ _ _ => match s.result cfg env op with
    | .ok _ => s.uploads ++ [none]
    | .error _ => s.uploads
  | _ => s.uploads

/-- An operation of someone who does not have the sending server's token, on no upload of its, that needs no lock a
removal has; removals have steps of their own. -/
def foreign (s : Peering) (op : Op) : Bool :=
  op.caller.all (fun caller => !(caller.isPeer && caller.name == cfg.aName)) &&
    (op.locks s.b.pending).all (fun id => !s.busy id) && op.upload.all (fun k => (s.uploads[k]?).any (·.isNone)) && !op.removes

/-- One step of one of the parties. What cannot happen yet changes nothing. -/
def step (s : Peering) : PeerAct → Peering
  | .serve env op => match op with
    | .markDelivered _ => s
    | _ => { s with a := s.a.step cfg.sha256 cfg.aOpts env op }
  | .restart env => match exec env restart.run (World.boot s.a.world.disk) with
    | (.ok _,w) => { s with a := ⟨w,[]⟩, wire := s.wire.abandon }
    | (.error _,_) => s
  | .push id => { s with wire := s.wire.start (Forwarder.push id).run }
  | .call i env ready => match s.wire.upcoming i with
    | none => s
    | some ⟨c,next⟩ =>
      let (reply,a) := ownCall cfg env ready s.a c
      { s with a := a, wire := s.wire.resume i (next reply) }
  | .send i => { s with wire := s.wire.send i }
  | .hear i => { s with wire := s.wire.hear i }
  | .lose i e => if e.code = .unavailable ∨ e.code = .io then { s with wire := s.wire.lose i (.error e) } else s
  | .vanish k => { s with wire := s.wire.vanish k }
  | .arrive k env => match s.wire.arriving k with
    | none => s
    | some (ticket,request) =>
      if (wants request).any s.busy then s
      else { s with wire := s.wire.vanish k }.receive cfg env ticket request
  | .write j env n => match s.uploads[j]? with
    | some (some put) =>
      if put.left = [] then s
      else
        let written := s.operate cfg env (.writeUpload j (put.left.take (n + 1)))
        match s.result cfg env (.writeUpload j (put.left.take (n + 1))) with
        | .ok _ => { written with uploads := written.uploads.set j (some { put with left := put.left.drop (n + 1) }) }
        | .error e => (written.drop cfg env j).answer put.ticket (.error e)
    | _ => s
  | .finish j env => match s.uploads[j]? with
    | some (some put) =>
      if put.left ≠ [] ∨ put.whole = false ∨ (s.b.pending[j]?.map (·.id)).any s.busy then s
      else ((s.operate cfg env (.finishUpload j (some put.sha256))).drop cfg env j).answer put.ticket
        ((s.result cfg env (.finishUpload j (some put.sha256))).map fun _ => [])
    | _ => s
  | .breakOff j env => match s.uploads[j]? with
    | some (some _) => s.drop cfg env j
    | _ => s
  | .other env op => if s.foreign cfg op then { s.operate cfg env op with uploads := s.follow cfg env op } else s
  | .mark env id admin =>
    if s.busy id || admin.any (!·.isAdmin) then s
    else match perform cfg.sha256 env (TransactionService.destroyBegin id).run s.b.world with
      | (.ok tx,w) => { s with b := ⟨w,s.b.pending⟩, removals := s.removals ++ [⟨tx,admin⟩] }
      | (.error _,w) => { s with b := ⟨w,s.b.pending⟩ }
  | .remove j env => match s.removals[j]? with
    | none => s
    | some removal =>
      { s with
        b := ⟨(perform cfg.sha256 env removal.finish.run s.b.world).2,s.b.pending⟩
        removals := s.removals.eraseIdx j }

/-- Two servers that have not yet had to do with each other. -/
def apart (a b : Server) : Peering := ⟨a,.empty,b,b.pending.map fun _ => none,[]⟩

end Peering
end Confide
