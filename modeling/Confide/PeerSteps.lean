import Confide.Peering

/-! All that a step of the two servers can do. -/
namespace Confide

open Resumption Resumption.Prog

namespace Peering

variable (cfg : PeerConfig)

variable [BoostJson]

inductive Did (s : Peering) : PeerAct → Peering → Prop
  | nothing {act : PeerAct} : Did s act s
  | served {env : Env} {op : Op} (other : ∀ id, op ≠ .markDelivered id) :
    Did s (.serve env op) { s with a := s.a.step cfg.sha256 cfg.aOpts env op }
  | restarted {env : Env} {w : World} (starts : exec env restart.run (World.boot s.a.world.disk) = (.ok (),w)) :
    Did s (.restart env) { s with a := ⟨w,[]⟩, wire := s.wire.abandon }
  | pushed {id : TransactionId} : Did s (.push id) { s with wire := s.wire.start (Forwarder.push id).run }
  | called {i : Nat} {env : Env} {ready : Result Unit} {c : OwnCall} {next : c.Reply → Prog Fwd (Result Unit)}
    (upcoming : s.wire.upcoming i = some ⟨c,next⟩) :
    Did s (.call i env ready) { s with
      a := (ownCall cfg env ready s.a c).2
      wire := s.wire.resume i (next (ownCall cfg env ready s.a c).1) }
  | sent {i : Nat} : Did s (.send i) { s with wire := s.wire.send i }
  | heard {i : Nat} : Did s (.hear i) { s with wire := s.wire.hear i }
  | lost {i : Nat} {e : Error} (network : e.code = .unavailable ∨ e.code = .io) :
    Did s (.lose i e) { s with wire := s.wire.lose i (.error e) }
  | vanished {k : Nat} : Did s (.vanish k) { s with wire := s.wire.vanish k }
  | arrived {k : Nat} {env : Env} {ticket : Nat} {request : PeerRequest} (arrives : s.wire.arriving k = some (ticket,request))
    (free : (wants request).any s.busy = false) :
    Did s (.arrive k env) ({ s with wire := s.wire.vanish k }.receive cfg env ticket request)
  | wrote {j : Nat} {env : Env} {n : Nat} {put : Put} (here : s.uploads[j]? = some (some put)) (more : put.left ≠ [])
    (ok : s.result cfg env (.writeUpload j (put.left.take (n + 1))) = .ok ()) :
    Did s (.write j env n) { s.operate cfg env (.writeUpload j (put.left.take (n + 1))) with
      uploads := s.uploads.set j (some { put with left := put.left.drop (n + 1) }) }
  | stuck {j : Nat} {env : Env} {n : Nat} {put : Put} {e : Error} (here : s.uploads[j]? = some (some put))
    (failed : s.result cfg env (.writeUpload j (put.left.take (n + 1))) = .error e) :
    Did s (.write j env n) (((s.operate cfg env (.writeUpload j (put.left.take (n + 1)))).drop cfg env j).answer
      put.ticket (.error e))
  | finished {j : Nat} {env : Env} {put : Put} (here : s.uploads[j]? = some (some put)) (left : put.left = [])
    (whole : put.whole = true) (free : (s.b.pending[j]?.map (·.id)).any s.busy = false) :
    Did s (.finish j env) (((s.operate cfg env (.finishUpload j (some put.sha256))).drop cfg env j).answer put.ticket
      ((s.result cfg env (.finishUpload j (some put.sha256))).map fun _ => []))
  | broken {j : Nat} {env : Env} {put : Put} (here : s.uploads[j]? = some (some put)) :
    Did s (.breakOff j env) (s.drop cfg env j)
  | others {env : Env} {op : Op} (foreign : s.foreign cfg op = true) :
    Did s (.other env op) { s.operate cfg env op with uploads := s.follow cfg env op }
  | marked {env : Env} {id : TransactionId} {admin : Option Caller} {tx : Transaction} {w : World} (free : s.busy id = false)
    (marks : perform cfg.sha256 env (TransactionService.destroyBegin id).run s.b.world = (.ok tx,w)) :
    Did s (.mark env id admin) { s with b := ⟨w,s.b.pending⟩, removals := s.removals ++ [⟨tx,admin⟩] }
  | unmarked {env : Env} {id : TransactionId} {admin : Option Caller} {e : Error} {w : World}
    (fails : perform cfg.sha256 env (TransactionService.destroyBegin id).run s.b.world = (.error e,w)) :
    Did s (.mark env id admin) { s with b := ⟨w,s.b.pending⟩ }
  | removed {j : Nat} {env : Env} {removal : Removal} (here : s.removals[j]? = some removal) :
    Did s (.remove j env) { s with
      b := ⟨(perform cfg.sha256 env removal.finish.run s.b.world).2,s.b.pending⟩
      removals := s.removals.eraseIdx j }

theorem step_did (s : Peering) (act : PeerAct) : s.Did cfg act (s.step cfg act) := by
  cases act with
  | serve env op =>
    unfold step
    dsimp only
    split
    · exact .nothing
    · rename_i other
      exact .served other
  | restart env =>
    unfold step
    dsimp only
    split
    · rename_i starts
      exact .restarted starts
    · exact .nothing
  | push id => exact .pushed
  | call i env ready =>
    unfold step
    dsimp only
    split
    · exact .nothing
    · rename_i upcoming
      exact .called upcoming
  | send i => exact .sent
  | hear i => exact .heard
  | lose i e =>
    unfold step
    dsimp only
    split
    · rename_i network
      exact .lost network
    · exact .nothing
  | vanish k => exact .vanished
  | arrive k env =>
    unfold step
    dsimp only
    split
    · exact .nothing
    · rename_i arrives
      split
      · exact .nothing
      · rename_i free
        exact .arrived arrives (Bool.eq_false_iff.mpr free)
  | write j env n =>
    unfold step
    dsimp only
    split
    · rename_i put here
      split
      · exact .nothing
      · rename_i more
        split
        · rename_i ok
          exact .wrote here more ok
        · rename_i failed
          exact .stuck here failed
    · exact .nothing
  | finish j env =>
    unfold step
    dsimp only
    split
    · rename_i put here
      split
      · exact .nothing
      · rename_i done
        simp only [not_or,ne_eq,not_not,Bool.not_eq_false,Bool.not_eq_true] at done
        exact .finished here done.1 done.2.1 done.2.2
    · exact .nothing
  | breakOff j env =>
    unfold step
    dsimp only
    split
    · rename_i here
      exact .broken here
    · exact .nothing
  | other env op =>
    unfold step
    dsimp only
    split
    · rename_i foreign
      exact .others foreign
    · exact .nothing
  | mark env id admin =>
    unfold step
    dsimp only
    split
    · exact .nothing
    · rename_i free
      split
      · rename_i marks
        exact .marked (by simp only [Bool.or_eq_true,not_or,Bool.not_eq_true] at free; exact free.1) marks
      · rename_i fails
        exact .unmarked fails
  | remove j env =>
    unfold step
    dsimp only
    split
    · exact .nothing
    · rename_i here
      exact .removed here

/-- What the other server can do with a request that has arrived. -/
inductive Received (s : Peering) (env : Env) (ticket : Nat) : PeerRequest → Peering → Prop
  | unread {body : Bytes} {e : Error} (bad : Api.decodeReceive body = .error e) :
    Received s env ticket (.receive body) (s.answer ticket (.error e))
  | taken {body : Bytes} {req : ReceiveRequest} (reads : Api.decodeReceive body = .ok req) :
    Received s env ticket (.receive body) ((s.operate cfg env (.receive (peer cfg) req)).answer ticket
      ((s.result cfg env (.receive (peer cfg) req)).map fun _ => []))
  | got {id : TransactionId} : Received s env ticket (.get id) (s.answer ticket
      ((perform cfg.sha256 env (TransactionService.get (peer cfg) id).run s.b.world).1.map Api.encodeTransaction))
  | committed {id : TransactionId} : Received s env ticket (.commit id)
      ((s.operate cfg env (.commit (peer cfg) id)).answer ticket ((s.result cfg env (.commit (peer cfg) id)).map fun _ => []))
  | unopened {id : TransactionId} {path : RelativePath} {size : UInt64} {sha256 : Sha256Digest} {body : Bytes} {e : Error}
    (failed : s.result cfg env (.beginUpload (peer cfg) id path) = .error e) :
    Received s env ticket (.put id path size sha256 body)
      ((s.operate cfg env (.beginUpload (peer cfg) id path)).answer ticket (.error e))
  | opened {id : TransactionId} {path : RelativePath} {size : UInt64} {sha256 : Sha256Digest} {body : Bytes}
    (ok : s.result cfg env (.beginUpload (peer cfg) id path) = .ok ()) :
    Received s env ticket (.put id path size sha256 body) { s.operate cfg env (.beginUpload (peer cfg) id path) with
      uploads := s.uploads ++ [some ⟨ticket,sha256,body,decide (body.length = size.toNat)⟩] }

theorem receive_received (s : Peering) (env : Env) (ticket : Nat) (request : PeerRequest) :
    s.Received cfg env ticket request (s.receive cfg env ticket request) := by
  cases request with
  | receive body =>
    unfold receive
    dsimp only
    split
    · rename_i bad
      exact .unread bad
    · rename_i reads
      exact .taken reads
  | get id => exact .got
  | commit id => exact .committed
  | put id path size sha256 body =>
    unfold receive
    dsimp only
    split
    · rename_i failed
      exact .unopened failed
    · rename_i ok
      exact .opened ok

/-- Apart from the answer, a request leaves the sender, its attempts and the removals alone. -/
theorem receive_frame (s : Peering) (env : Env) (ticket : Nat) (request : PeerRequest) :
    (s.receive cfg env ticket request).a = s.a ∧ (s.receive cfg env ticket request).removals = s.removals ∧
      (s.receive cfg env ticket request).wire.sent = s.wire.sent ∧
      (s.receive cfg env ticket request).wire.sessions = s.wire.sessions := by
  have received := receive_received cfg s env ticket request
  generalize s.receive cfg env ticket request = s' at received
  cases received <;> exact ⟨rfl,rfl,rfl,rfl⟩

inductive Own (a : Server) : PeerAct → Server → Prop
  | idle {act : PeerAct} : Own a act a
  | served {env : Env} {op : Op} : Own a (.serve env op) (a.step cfg.sha256 cfg.aOpts env op)
  | marked {i : Nat} {env : Env} {ready : Result Unit} {id : TransactionId} :
    Own a (.call i env ready) (a.step cfg.sha256 cfg.aOpts env (.markDelivered id))
  | restarted {env : Env} {w : World} (starts : exec env restart.run (World.boot a.world.disk) = (.ok (),w)) :
    Own a (.restart env) ⟨w,[]⟩

variable {cfg} in
theorem Did.own {s s' : Peering} {act : PeerAct} (did : s.Did cfg act s') : Own cfg s.a act s'.a := by
  cases did with
  | served => exact .served
  | restarted starts => exact .restarted starts
  | @called i env ready c next upcoming =>
    cases c with
    | markDelivered id => exact .marked
    | outgoing | findPeer | client | openRead => exact .idle
  | arrived =>
    rw [(receive_frame _ _ _ _ _).1]
    exact .idle
  | nothing | pushed | sent | heard | lost | vanished | wrote | stuck | finished | broken | others | marked | unmarked
  | removed => exact .idle

/-- The operations that can change them, and where they come from. -/
inductive Cause (s : Peering) : PeerAct → Op → Prop
  | received {k : Nat} {env : Env} {ticket : Nat} {body : Bytes} {req : ReceiveRequest}
    (arrives : s.wire.arriving k = some (ticket,.receive body)) (reads : Api.decodeReceive body = .ok req) :
    Cause s (.arrive k env) (.receive (peer cfg) req)
  | committed {k : Nat} {env : Env} {ticket : Nat} {id : TransactionId}
    (arrives : s.wire.arriving k = some (ticket,.commit id)) : Cause s (.arrive k env) (.commit (peer cfg) id)
  | finished {j : Nat} {env : Env} {put : Put} (here : s.uploads[j]? = some (some put)) (left : put.left = [])
    (whole : put.whole = true) : Cause s (.finish j env) (.finishUpload j (some put.sha256))
  | others {env : Env} {op : Op} (foreign : s.foreign cfg op = true) (ok : s.result cfg env op = .ok ()) :
    Cause s (.other env op) op
  | marked {env : Env} {id : TransactionId} {admin : Option Caller} : Cause s (.mark env id admin) (.expire id)

inductive Turns (s : Peering) (act : PeerAct) : Index → Prop
  | same : Turns s act s.b.world.index
  | took {env : Env} {op : Op} {result : Result Unit} {i : Index} (cause : Cause cfg s act op)
    (takes : Takes cfg.sha256 cfg.bOpts env s.b.pending op result s.b.world.index i) : Turns s act i
  | erased {j : Nat} {removal : Removal} (here : s.removals[j]? = some removal) :
    Turns s act (s.b.world.index.erase removal.tx.id)

variable {cfg} {s s' : Peering} {act : PeerAct} {env : Env}

omit [BoostJson] in
theorem takes_streams {sha256 : Bytes → Sha256Digest} {opts : ServiceOptions} {pending : List PendingUpload} {op : Op}
    {result : Result Unit} {i i' : Index} (takes : Takes sha256 opts env pending op result i i') (streams : op.streams = true) :
    i' = i := by
  have stays : ∀ id, ¬ Drops op id := by
    intro id drops
    cases drops <;> cases streams
  cases takes with
  | opened opens => cases opens <;> cases streams
  | updated _ updates =>
    cases updates with
    | marked drops => exact absurd drops (stays _)
    | uploaded | erased | committed | delivered | retained => cases streams
  | dropped _ drops => exact absurd drops (stays _)
  | streamed => rfl
  | refused => rfl
  | marked _ _ drops => exact absurd drops (stays _)

omit [BoostJson] in
theorem takes_refused {sha256 : Bytes → Sha256Digest} {opts : ServiceOptions} {pending : List PendingUpload} {op : Op}
    {e : Error} {i i' : Index} (takes : Takes sha256 opts env pending op (.error e) i i') (stays : ∀ id, ¬ Drops op id) :
    i' = i := by
  cases takes with
  | refused => rfl
  | marked _ _ drops => exact absurd drops (stays _)

omit [BoostJson] in
theorem foreign_stays {op : Op} (foreign : s.foreign cfg op = true) (id : TransactionId) : ¬ Drops op id := by
  intro drops
  cases drops <;> simp [Peering.foreign,Op.removes] at foreign

variable (cfg s env) in
theorem operate_takes (keyed : Keyed s.b.world.index) (op : Op) :
    Takes cfg.sha256 cfg.bOpts env s.b.pending op (s.result cfg env op) s.b.world.index
      (s.operate cfg env op).b.world.index :=
  (step_takes cfg.sha256 cfg.bOpts env keyed op).1.1

variable (cfg env) in
theorem operate_keyed (keyed : Keyed s.b.world.index) (op : Op) : Keyed (s.operate cfg env op).b.world.index :=
  step_keyed keyed op

variable (cfg env) in
theorem drop_index (keyed : Keyed s.b.world.index) (j : Nat) : (s.drop cfg env j).b.world.index = s.b.world.index :=
  takes_streams (operate_takes cfg s env keyed (.dropUpload j)) rfl

/-- The first part of a removal marks the transaction, or does nothing. -/
theorem destroyBegin_takes (sha256 : Bytes → Sha256Digest) (opts : ServiceOptions) (env : Env) (pending : List PendingUpload)
    {w : World} (keyed : Keyed w.index) (id : TransactionId) :
    ∃ e, Takes sha256 opts env pending (.expire id) (.error e) w.index
      (perform sha256 env (TransactionService.destroyBegin id).run w).2.index := by
  have obeys : Obeys sha256 opts env pending (.expire id) (TransactionService.destroyBegin id) w.book fun _ b' =>
      ∃ e, Posts sha256 opts env pending (.expire id) (.error e) w.book b' := by
    unfold TransactionService.destroyBegin
    rw [obeys_find_bind]
    cases known : w.book.index.lookup id with
    | none => exact ⟨notFound id,.refused _⟩
    | some tx =>
      obtain rfl := keyed id tx known
      refine (markExpired_obeys known .expired).mono ?_
      rintro (e | tx') b' ends
      · exact ⟨e,ends ▸ .refused e⟩
      · exact ⟨notFound tx.id,ends.2.2.2.2 _⟩
  obtain ⟨e,posts⟩ := (obeys.sound (Svc.handle sha256 env) World.book fun c w => handle_books sha256 env c w).1
  exact ⟨e,posts.takes⟩

theorem destroyEnd_index (sha256 : Bytes → Sha256Digest) (env : Env) (removal : Removal) (w : World) :
    (perform sha256 env removal.finish.run w).2.index = w.index ∨
      (perform sha256 env removal.finish.run w).2.index = w.index.erase removal.tx.id := by
  have ends : ∀ type actor, Guarantees (SvcCall.Books sha256 env) (fun _ _ => True)
      (TransactionService.destroyEnd removal.tx.id type actor removal.tx).run w.book fun _ b' =>
        b'.index = w.index ∨ b'.index = w.index.erase removal.tx.id := by
    intro type actor
    refine (guarantees_exceptT_bind _ _ _ _).mpr ⟨trivial,?_⟩
    rintro _ _ ⟨_,⟨rfl,rfl⟩ | ⟨⟨e,rfl⟩,rfl⟩,rfl⟩
    · refine ⟨trivial,?_⟩
      rintro _ _ ⟨_,⟨rfl,_⟩,rfl⟩
      exact .inr rfl
    · exact .inl rfl
  have finish : ∀ type actor,
      let ended := perform sha256 env (TransactionService.destroyEnd removal.tx.id type actor removal.tx).run w
      ended.2.index = w.index ∨ ended.2.index = w.index.erase removal.tx.id := by
    intro type actor
    obtain ⟨after,_⟩ := (ends type actor).sound (Svc.handle sha256 env) World.book fun c w => handle_books sha256 env c w
    exact after
  unfold Removal.finish
  split
  · exact finish .expired TransactionService.system
  · exact finish .adminDeleted _

theorem Did.turns (did : s.Did cfg act s') (keyed : Keyed s.b.world.index) : s.Turns cfg act s'.b.world.index := by
  cases did with
  | nothing | served | restarted | pushed | called | sent | heard | lost | vanished => exact .same
  | @arrived k env ticket request arrives free =>
    have received := receive_received cfg { s with wire := s.wire.vanish k } env ticket request
    generalize receive cfg { s with wire := s.wire.vanish k } env ticket request = s' at received
    cases received with
    | unread | got => exact .same
    | taken reads => exact .took (.received arrives reads) (operate_takes cfg s env keyed _)
    | committed => exact .took (.committed arrives) (operate_takes cfg s env keyed _)
    | @unopened id path | @opened id path =>
      have still := takes_streams (operate_takes cfg s env keyed (.beginUpload (peer cfg) id path)) rfl
      exact still ▸ .same
  | @wrote j env n put here more ok =>
    have still := takes_streams (operate_takes cfg s env keyed (.writeUpload j (put.left.take (n + 1)))) rfl
    exact still ▸ .same
  | @stuck j env n put e here failed =>
    have still := takes_streams (operate_takes cfg s env keyed (.writeUpload j (put.left.take (n + 1)))) rfl
    have dropped := drop_index cfg env (operate_keyed cfg env keyed (.writeUpload j (put.left.take (n + 1)))) j
    exact (dropped.trans still) ▸ .same
  | @finished j env put here left whole free =>
    have dropped := drop_index cfg env (operate_keyed cfg env keyed (.finishUpload j (some put.sha256))) j
    exact dropped ▸ .took (.finished here left whole) (operate_takes cfg s env keyed _)
  | @broken j env put here => exact drop_index cfg env keyed j ▸ .same
  | @others env op foreign =>
    have takes := operate_takes cfg s env keyed op
    cases ok : s.result cfg env op with
    | error e =>
      rw [ok] at takes
      exact takes_refused takes (foreign_stays foreign) ▸ .same
    | ok => exact .took (.others foreign ok) takes
  | @marked env id admin tx w free marks =>
    obtain ⟨e,takes⟩ := destroyBegin_takes cfg.sha256 cfg.bOpts env s.b.pending keyed id
    rw [marks] at takes
    exact .took .marked takes
  | @unmarked env id admin e w fails =>
    obtain ⟨e,takes⟩ := destroyBegin_takes cfg.sha256 cfg.bOpts env s.b.pending keyed id
    rw [fails] at takes
    exact .took .marked takes
  | @removed j env removal here =>
    rcases destroyEnd_index cfg.sha256 env removal s.b.world with same | erased
    · exact same ▸ .same
    · exact erased ▸ .erased here

/-- What is stored after a step was there, is a change of what was there, or is new. -/
theorem Turns.origin {i : Index} (turns : s.Turns cfg act i) :
    Throughout (fun id tx' => (∃ tx, s.b.world.index.lookup id = some tx ∧ (tx' = tx ∨ ∃ env op, s.Cause cfg act op ∧
        Updates cfg.sha256 cfg.bOpts env s.b.pending op tx tx')) ∨
      (s.b.world.index.lookup id = none ∧ tx'.id = id ∧ ∃ env op, s.Cause cfg act op ∧ Opens cfg.bOpts env op tx')) i := by
  cases turns with
  | same => exact fun id tx known => .inl ⟨tx,known,.inl rfl⟩
  | @took env op result i cause takes =>
    intro id tx' known
    rcases takes.origin id tx' known with ⟨tx,old,same | updates⟩ | ⟨absent,opens,named⟩
    · exact .inl ⟨tx,old,.inl same⟩
    · exact .inl ⟨tx,old,.inr ⟨env,op,cause,updates⟩⟩
    · exact .inr ⟨absent,named,env,op,cause,opens⟩
  | erased => exact Throughout.erase (fun id tx known => .inl ⟨tx,known,.inl rfl⟩) _

theorem Did.keyed (did : s.Did cfg act s') (keyed : Keyed s.b.world.index) : Keyed s'.b.world.index := by
  intro id tx' known
  rcases (did.turns keyed).origin id tx' known with ⟨tx,old,rfl | ⟨_,_,_,updates⟩⟩ | ⟨_,named,_⟩
  · exact keyed id _ old
  · rw [updates.named]
    exact keyed id tx old
  · exact named

end Peering
end Confide
