import Confide.Conversations
import Confide.PeerUploads

/-! The attempts to push, by the transaction each one is for. -/
namespace Confide

open Resumption Resumption.Prog

variable [BoostJson]

namespace Forwarder

def marks : Fwd.Call → Bool
  | .inl (.markDelivered _) => true
  | _ => false

theorem committedThere_uses (id : TransactionId) (created : Result Bytes) :
    (committedThere id created).run.Uses (marks · = false) := by
  cases created with
  | ok => trivial
  | error e =>
    unfold committedThere
    apply Uses.exceptT_bind
    · unfold refuse
      split <;> trivial
    intro _
    apply Uses.exceptT_bind
    · exact ⟨rfl,fun _ => trivial⟩
    intro body
    apply Uses.exceptT_bind
    · trivial
    · exact fun _ => trivial

omit [BoostJson] in
theorem sendFiles_uses (id : TransactionId) (files : List FileEntry) : (sendFiles id files).run.Uses (marks · = false) := by
  induction files with
  | nil => trivial
  | cons file files ih =>
    unfold sendFiles
    apply Uses.exceptT_bind
    · exact ⟨rfl,fun _ => trivial⟩
    intro source
    apply Uses.exceptT_bind
    · exact ⟨rfl,fun _ => trivial⟩
    intro sent
    cases sent with
    | error => trivial
    | ok => exact ih

theorem push_marks_last (id : TransactionId) : (push id).run.Guarantees recording
    (fun _ past => ∀ event ∈ past, marks event.1 = false) [] fun _ _ => True := by
  have before : ∀ {β : Type} {p : FwdM β} {f : β → FwdM Unit} {past : List (Event Fwd)}, p.run.Uses (marks · = false) →
      (∀ event ∈ past, marks event.1 = false) →
      (∀ value past', (∀ event ∈ past', marks event.1 = false) →
        (f value).run.Guarantees recording (fun _ past => ∀ event ∈ past, marks event.1 = false) past' fun _ _ => True) →
      (p >>= f).run.Guarantees recording (fun _ past => ∀ event ∈ past, marks event.1 = false) past fun _ _ => True := by
    intro β p f past uses clean rest
    refine (guarantees_exceptT_bind _ _ _ _).mpr ((uses.records clean).mono ?_)
    rintro (e | value) past' clean'
    · trivial
    · exact rest value past' clean'
  have last : ∀ {past : List (Event Fwd)}, (∀ event ∈ past, marks event.1 = false) →
      (own (.markDelivered id)).Guarantees recording (fun _ past => ∀ event ∈ past, marks event.1 = false) past
        fun _ _ => True := fun clean => ⟨clean,fun _ _ _ => trivial⟩
  unfold push
  refine before ⟨rfl,fun _ => trivial⟩ (fun _ member => by cases member) fun tx _ clean => ?_
  refine before ⟨rfl,fun _ => trivial⟩ clean fun known _ clean => ?_
  refine before (by unfold refuse; split <;> trivial) clean fun _ _ clean => ?_
  refine before ⟨rfl,fun _ => trivial⟩ clean fun _ _ clean => ?_
  refine before ⟨rfl,fun _ => trivial⟩ clean fun created _ clean => ?_
  refine before (committedThere_uses id created) clean fun there _ clean => ?_
  cases there with
  | true => exact last clean
  | false =>
    refine before (sendFiles_uses id tx.files) clean fun _ _ clean => ?_
    exact before ⟨rfl,fun _ => trivial⟩ clean fun _ _ clean => last clean

def Rules (id : TransactionId) (c : Fwd.Call) (past : List (Event Fwd)) : Prop :=
  (May id c past ∧ Allowed (May id) past) ∧ ∀ event ∈ past, marks event.1 = false

def Outcome (id : TransactionId) (result : Result Unit) (past : List (Event Fwd)) : Prop :=
  Ends id result past ∧ Allowed (May id) past

theorem push_rules (id : TransactionId) : (push id).run.Guarantees recording (Rules id) [] (Outcome id) :=
  (guarantees_both (guarantees_allowed (push_follows id) allowed_nil) (push_marks_last id)).mono fun _ _ ends => ends.1

/-- Once it has marked the transaction an attempt is at its end. -/
theorem marked_ends {id id' : TransactionId} {fact : Event Fwd → Prop} {next : Result Unit → Prog Fwd (Result Unit)}
    (follows : Follows (fun _ : Unit => Rules id) (fun _ => Outcome id) fact (.call (.inl (.markDelivered id')) next))
    (reply : Result Unit) : ∃ result, next reply = .ret result := by
  obtain ⟨_,past,_,holds⟩ := follows
  have after := holds.2 reply _ rfl
  cases rest : next reply with
  | ret result => exact ⟨result,rfl⟩
  | call c next' =>
    rw [rest] at after
    have unmarked := after.1.2 _ (List.mem_append_right past (List.mem_singleton_self _))
    cases unmarked

end Forwarder

def PeerAct.pushes : PeerAct → Option TransactionId
  | .push id => some id
  | _ => none

namespace Peering

/-- The step deals with a request whose sender still waits for the reply. -/
def awaits (s : Peering) : PeerAct → Bool
  | .arrive k _ => (s.wire.arriving k).any fun entry => s.wire.awaited entry.1
  | .write j _ _ | .finish j _ => (s.uploads[j]?).any fun upload => upload.any fun put => s.wire.awaited put.ticket
  | _ => false

variable {cfg : PeerConfig} {s s' : Peering} {act : PeerAct} {fact fact' : Event Fwd → Prop} {who : List TransactionId}

abbrev Led (s : Peering) (fact : Event Fwd → Prop) (who : List TransactionId) : Prop :=
  s.wire.Led Forwarder.Rules Forwarder.Outcome fact who

abbrev Warrants (fact : Event Fwd → Prop) (id : TransactionId) (c : Fwd.Call) : Prop :=
  Warranted (fun _ : Unit => Forwarder.Rules id) fact c

/-- Some attempt that is under way has sent the request and could do so. -/
def Asked (s : Peering) (fact : Event Fwd → Prop) (who : List TransactionId) (request : PeerRequest) : Prop :=
  ∃ i id, who[i]? = some id ∧ s.wire.live i = true ∧ Warrants fact id (.inr request)

theorem receive_led {k ticket : Nat} {env : Env} {request : PeerRequest} (led : s.Led fact who)
    (arrives : s.wire.arriving k = some (ticket,request))
    (answers : ∀ result, Answers cfg s ({ s with wire := s.wire.vanish k }.receive cfg env ticket request)
      (.arrive k env) request result → s.wire.awaited ticket = true →
      fact (Forwarder.told request (HttpClient.outcome result))) :
    ({ s with wire := s.wire.vanish k }.receive cfg env ticket request).Led fact who := by
  have there : s.wire.sent[ticket]? = some request := Wire.arriving_eq arrives
  have vanished := led.vanish k
  have received := receive_received cfg { s with wire := s.wire.vanish k } env ticket request
  generalize receive cfg { s with wire := s.wire.vanish k } env ticket request = s' at received answers
  cases received with
  | unread bad => exact vanished.answer there (answers _ (.unread arrives bad))
  | taken reads => exact vanished.answer there (answers _ (.received arrives reads rfl))
  | got => exact vanished.answer there (answers _ (.got arrives))
  | committed => exact vanished.answer there (answers _ (.committed arrives rfl))
  | unopened failed => exact vanished.answer there (answers _ (.unopened arrives failed))
  | opened => exact vanished

/-- What the attempts are told stays true, if all that they wait for and get is true. -/
theorem Did.led (did : s.Did cfg act s') (tracks : Tracks cfg s) (stays : ∀ env, act ≠ .restart env)
    (other : act.pushes = none) (led : s.Led fact who) (wider : ∀ event, fact event → fact' event)
    (own : ∀ i env ready c next id, act = .call i env ready → s.wire.upcoming i = some ⟨c,next⟩ → who[i]? = some id →
      Warrants fact id (.inl c) → fact' (Forwarder.answered c (ownCall cfg env ready s.a c).1))
    (lost : ∀ request e, e.code = .unavailable ∨ e.code = .io → fact' (Forwarder.told request (.error e)))
    (answers : ∀ request result, Answers cfg s s' act request result → s.awaits act = true → s.Asked fact who request →
      fact' (Forwarder.told request (HttpClient.outcome result))) :
    s'.Led fact' who := by
  have after : s.Led fact' who := Wire.Led.mono wider led
  cases did with
  | nothing | served | broken | others | marked | unmarked | removed | wrote => exact after
  | restarted => exact absurd rfl (stays _)
  | pushed => cases other
  | @called i env ready c next upcoming =>
    obtain ⟨waits,here⟩ := Wire.upcoming_eq upcoming
    obtain ⟨id,its⟩ := led.started here
    have warrants : Warrants fact id (.inl c) := (led.follows i id _ its here).warranted
    exact after.called upcoming (own _ _ _ _ _ id rfl upcoming its warrants)
  | sent => exact after.send
  | heard => exact after.hear
  | lost network => exact after.lose fun request => lost request _ network
  | vanished => exact after.vanish _
  | @arrived k env ticket request arrives =>
    exact receive_led after arrives fun result answered awaited =>
      answers request result answered (by simpa [awaits,arrives] using awaited) (led.awaits awaited (Wire.arriving_eq arrives))
  | @stuck j env n put e here failed =>
    obtain ⟨p,there⟩ := tracks.pending here
    obtain ⟨_,_,_,size,request,_⟩ := tracks.carries j put p here there
    exact after.answer request fun awaited => answers _ _ (.stuck here there failed)
      (by simpa [awaits,here] using awaited) (led.awaits awaited request)
  | @finished j env put here left whole free =>
    obtain ⟨p,there⟩ := tracks.pending here
    obtain ⟨_,_,_,size,request,all⟩ := tracks.carries j put p here there
    rw [whole] at all
    rw [there] at free
    exact after.answer request fun awaited => answers _ _
      (.finished here there left (of_decide_eq_true all.symm) (by simpa using free) rfl)
      (by simpa [awaits,here] using awaited) (led.awaits awaited request)

theorem Did.live {i : Nat} (did : s.Did cfg act s') (other : act.pushes = none) (lives : s'.wire.live i = true) :
    s.wire.live i = true := by
  cases did with
  | nothing | served | broken | others | marked | unmarked | removed | wrote | stuck | finished | vanished => exact lives
  | restarted => cases lives
  | pushed => cases other
  | called upcoming =>
    obtain ⟨waits,here⟩ := Wire.upcoming_eq upcoming
    exact Wire.live_set (Wire.live_call here) rfl lives
  | sent => exact Wire.live_send lives
  | heard => exact Wire.live_hear lives
  | lost => exact Wire.live_lose lives
  | arrived =>
    unfold Wire.live at lives ⊢
    rwa [(receive_frame _ _ _ _ _).2.2.2] at lives

theorem push_led (led : s.Led fact who) (id : TransactionId) :
    Led { s with wire := s.wire.start (Forwarder.push id).run } fact (who ++ [id]) :=
  led.start ⟨(),[],(fun _ member => by cases member),Forwarder.push_rules id⟩

/-- Whatever the step, the attempts that are then there have been told what is true. -/
theorem Did.leads (did : s.Did cfg act s') (tracks : Tracks cfg s) (led : s.Led fact who)
    (wider : ∀ event, fact event → fact' event)
    (own : ∀ i env ready c next id, act = .call i env ready → s.wire.upcoming i = some ⟨c,next⟩ → who[i]? = some id →
      Warrants fact id (.inl c) → fact' (Forwarder.answered c (ownCall cfg env ready s.a c).1))
    (lost : ∀ request e, e.code = .unavailable ∨ e.code = .io → fact' (Forwarder.told request (.error e)))
    (answers : ∀ request result, Answers cfg s s' act request result → s.awaits act = true → s.Asked fact who request →
      fact' (Forwarder.told request (HttpClient.outcome result))) :
    ∃ who', s'.Led fact' who' := by
  have after : s.Led fact' who := Wire.Led.mono wider led
  have others : (∀ env, act ≠ .restart env) → act.pushes = none → s'.Led fact' who := fun stays other =>
    did.led tracks stays other led wider own lost answers
  cases did with
  | restarted => exact ⟨[],after.abandon⟩
  | @pushed id => exact ⟨_,push_led after id⟩
  | nothing => exact ⟨who,after⟩
  | served | called | sent | heard | lost | vanished | arrived | wrote | stuck | finished | broken | others | marked | unmarked
  | removed => exact ⟨who,others (fun _ => PeerAct.noConfusion) rfl⟩

end Peering
end Confide
