import Confide.Requests

/-! Sessions by what they were started for. A session hears only the replies to the request it waits for, so that what holds
of those replies holds of all it has been told. -/
namespace Resumption

variable {sig : Signature} {Req Rep α ι : Type}

/-- Every call of the past could be made when it was made. -/
def Allowed (may : sig.Call → List (Event sig) → Prop) (past : List (Event sig)) : Prop :=
  ∀ event ∈ past, ∃ earlier, earlier ⊆ past ∧ may event.1 earlier

variable {may : sig.Call → List (Event sig) → Prop}

theorem allowed_nil : Allowed may [] := fun _ member => by cases member

variable {past : List (Event sig)}

theorem Allowed.record {c : sig.Call} {past' : List (Event sig)}
    {reply : sig.Reply c} (allowed : Allowed may past) (now : may c past) (recorded : recording c past reply past') :
    Allowed may past' := by
  intro event member
  have longer := recorded.subset
  rw [recorded] at member
  rcases List.mem_append.mp member with old | new
  · obtain ⟨earlier,before,holds⟩ := allowed event old
    exact ⟨earlier,List.Subset.trans before longer,holds⟩
  · rw [List.mem_singleton.mp new]
    exact ⟨past,longer,now⟩

variable {p : Prog sig α}

/-- A program that does what it may has done so all along. -/
theorem guarantees_allowed {post : α → List (Event sig) → Prop}
    (holds : p.Guarantees recording may past post) (allowed : Allowed may past) :
    p.Guarantees recording (fun c past => may c past ∧ Allowed may past) past
      fun value past => post value past ∧ Allowed may past := by
  induction p generalizing past with
  | ret value => exact ⟨holds,allowed⟩
  | call c next ih =>
    constructor
    · exact ⟨holds.1,allowed⟩
    · intro reply past' recorded
      exact ih reply (holds.2 reply past' recorded) (allowed.record holds.1 recorded)

/-- What is true of every call of a program is true of all it remembers. -/
theorem Prog.Uses.records {allowed : sig.Call → Prop} (uses : p.Uses allowed)
    (clean : ∀ event ∈ past, allowed event.1) : p.Guarantees recording (fun _ past => ∀ event ∈ past, allowed event.1) past
      fun _ past => ∀ event ∈ past, allowed event.1 := by
  induction p generalizing past with
  | ret value => exact clean
  | call c next ih =>
    apply And.intro clean
    intro reply past' recorded
    apply ih reply (uses.2 reply)
    rw [recorded]
    intro event member
    rcases List.mem_append.mp member with old | new
    · exact clean event old
    · rw [List.mem_singleton.mp new]
      exact uses.1

theorem guarantees_both {may' : sig.Call → List (Event sig) → Prop} {post post' : α → List (Event sig) → Prop}
    (first : p.Guarantees recording may past post) (second : p.Guarantees recording may' past post') :
    p.Guarantees recording (fun c past => may c past ∧ may' c past) past fun value past => post value past ∧
      post' value past := by
  induction p generalizing past with
  | ret value => exact ⟨first,second⟩
  | call c next ih =>
    apply And.intro ⟨first.1,second.1⟩
    intro reply past' recorded
    exact ih reply (first.2 reply past' recorded) (second.2 reply past' recorded)

def Session.result (session : Session sig Req Rep α) : Option α :=
  match session.rest with
  | .ret value => some value
  | .call _ _ => none

variable {session : Session sig Req Rep α}

theorem Session.result_eq {value : α} (ended : session.result = some value) :
    session.rest = .ret value := by
  unfold Session.result at ended
  split at ended
  · rename_i ends
    rw [ends,Option.some.inj ended]
  · cases ended

namespace Wire

def result (w : Wire sig Req Rep α) (i : Nat) : Option α := w.sessions[i]?.bind Session.result

def live (w : Wire sig Req Rep α) (i : Nat) : Bool := w.sessions[i]?.any fun session => session.result.isNone

def idle (w : Wire sig Req Rep α) : Bool := w.sessions.all fun session => session.result.isSome

def awaited (w : Wire sig Req Rep α) (ticket : Nat) : Bool := w.sessions.any fun session => session.waits = some ticket

variable {w : Wire sig Req Rep α} {i : Nat}

theorem live_call {c : (sig.sending Req Rep).Call} {next : (sig.sending Req Rep).Reply c → Prog (sig.sending Req Rep) α}
    {waits : Option Nat} (here : w.sessions[i]? = some ⟨.call c next,waits⟩) : w.live i = true := by
  rw [live,here]
  rfl

theorem live_idle (idle : w.idle = true) : w.live i = false := by
  unfold live
  cases here : w.sessions[i]? with
  | none => rfl
  | some session =>
    have ended := List.all_eq_true.mp idle session (List.mem_of_getElem? here)
    simpa using ended

variable {j : Nat}

theorem live_start {p : Prog (sig.sending Req Rep) α} (lives : (w.start p).live j = true) :
    w.live j = true ∨ j = w.sessions.length := by
  unfold live start at lives
  dsimp only at lives
  rw [List.getElem?_append] at lives
  split at lives
  · exact .inl lives
  · rename_i beyond
    refine .inr (Nat.le_antisymm ?_ (Nat.le_of_not_lt beyond))
    by_contra later
    rw [List.getElem?_eq_none (by simp; omega)] at lives
    cases lives

/-- A session that was under way may have come to an end; the others are as they were. -/
theorem live_set {w' : Wire sig Req Rep α} (before : w.live i = true)
    (sessions : w'.sessions = w.sessions.set i session) (lives : w'.live j = true) : w.live j = true := by
  unfold live at lives
  rw [sessions,List.getElem?_set] at lives
  split at lives
  · rename_i same
    exact same ▸ before
  · exact lives

theorem live_send (lives : (w.send i).live j = true) : w.live j = true := by
  rcases w.send_cases (i := i) with same | ⟨request,next,here,sent⟩
  · rwa [same] at lives
  · exact live_set (live_call here) (by rw [sent]) lives

theorem live_hear (lives : (w.hear i).live j = true) : w.live j = true := by
  rcases w.hear_cases (i := i) with same | ⟨request,next,ticket,reply,here,_,heard⟩
  · rwa [same] at lives
  · exact live_set (live_call here) (by rw [heard]; rfl) lives

variable {reply : Rep}

theorem live_lose (lives : (w.lose i reply).live j = true) : w.live j = true := by
  rcases @lose_cases sig Req Rep α w i reply with same | ⟨request,next,ticket,here,lost⟩
  · rwa [same] at lives
  · exact live_set (live_call here) (by rw [lost]; rfl) lives

section Led

variable (may : ι → (sig.sending Req Rep).Call → List (Event (sig.sending Req Rep)) → Prop)
  (post : ι → α → List (Event (sig.sending Req Rep)) → Prop) (fact : Event (sig.sending Req Rep) → Prop)

/-- Each session follows the rules of what it was started for, on the strength of facts. -/
structure Led (who : List ι) (w : Wire sig Req Rep α) : Prop where
  length : w.sessions.length = who.length
  follows : ∀ (i : Nat) x session, who[i]? = some x → w.sessions[i]? = some session →
    Follows (fun _ : Unit => may x) (fun _ => post x) fact session.rest
  waits : ∀ session ∈ w.sessions, ∀ ticket ∈ session.waits, ∃ request next,
    session.rest = .call (.inr request) next ∧ w.sent[ticket]? = some request ∧
      ∀ reply, (ticket,reply) ∈ w.replies → fact ⟨.inr request,reply⟩
  answered : ∀ entry ∈ w.replies, entry.1 < w.sent.length

variable {may post fact} {who : List ι}

theorem led_empty : (empty : Wire sig Req Rep α).Led may post fact [] := by
  constructor <;> simp [empty]

theorem Led.mono {fact' : Event (sig.sending Req Rep) → Prop} (wider : ∀ event, fact event → fact' event)
    (led : w.Led may post fact who) : w.Led may post fact' who where
  length := led.length
  follows := fun i x session its here => (led.follows i x session its here).mono wider
  waits := by
    intro session member ticket waits
    obtain ⟨request,next,rest,there,told⟩ := led.waits session member ticket waits
    exact ⟨request,next,rest,there,fun reply heard => wider _ (told reply heard)⟩
  answered := led.answered

section

variable (led : w.Led may post fact who)
include led

theorem Led.started (here : w.sessions[i]? = some session) :
    ∃ x, who[i]? = some x := by
  have bound := (List.getElem?_eq_some_iff.mp here).1
  rw [led.length] at bound
  exact ⟨_,List.getElem?_eq_getElem bound⟩

/-- A session that has come to an end. -/
theorem Led.ended {x : ι} {value : α} (its : who[i]? = some x)
    (ended : w.result i = some value) :
    ∃ past, (∀ event ∈ past, fact event) ∧ post x value past := by
  obtain ⟨session,here,result⟩ := Option.bind_eq_some_iff.mp ended
  obtain ⟨_,past,facts,holds⟩ := led.follows i x session its here
  rw [Session.result_eq result] at holds
  exact ⟨past,facts,holds⟩

/-- A request that is waited for was sent by a session that could send it, and is under way. -/
theorem Led.awaits {ticket : Nat} {request : Req} (awaited : w.awaited ticket = true)
    (sent : w.sent[ticket]? = some request) :
    ∃ i x, who[i]? = some x ∧ w.live i = true ∧ Warranted (fun _ : Unit => may x) fact (.inr request) := by
  obtain ⟨session,member,waits⟩ := List.any_eq_true.mp awaited
  obtain ⟨request',next,rest,there,_⟩ := led.waits session member ticket (of_decide_eq_true waits)
  rw [sent] at there
  cases there
  obtain ⟨i,here⟩ := List.mem_iff_getElem?.mp member
  obtain ⟨x,its⟩ := led.started here
  have follows := led.follows i x session its here
  obtain ⟨_,_⟩ := session
  subst rest
  exact ⟨i,x,its,live_call here,follows.warranted⟩

theorem Led.start {x : ι} {p : Prog (sig.sending Req Rep) α}
    (follows : Follows (fun _ : Unit => may x) (fun _ => post x) fact p) : (w.start p).Led may post fact (who ++ [x]) where
  length := by simp [Wire.start,led.length]
  follows := by
    intro i y session its here
    change (w.sessions ++ [(⟨p,none⟩ : Session sig Req Rep α)])[i]? = some session at here
    rw [List.getElem?_append] at its here
    rw [led.length] at here
    split at its
    · rw [if_pos (by assumption)] at here
      exact led.follows i y session its here
    · rw [if_neg (by assumption)] at here
      obtain rfl := List.mem_singleton.mp (List.mem_of_getElem? its)
      obtain rfl := List.mem_singleton.mp (List.mem_of_getElem? here)
      exact follows
  waits := by
    intro session member ticket waits
    rcases List.mem_append.mp member with old | new
    · exact led.waits session old ticket waits
    · rw [List.mem_singleton.mp new] at waits
      cases waits
  answered := led.answered

theorem Led.resume {rest : Prog (sig.sending Req Rep) α}
    (follows : ∀ x, who[i]? = some x → Follows (fun _ : Unit => may x) (fun _ => post x) fact rest) :
    (w.resume i rest).Led may post fact who where
  length := by simp [Wire.resume,led.length]
  follows := by
    intro j x session its here
    change (w.sessions.set i ⟨rest,none⟩)[j]? = some session at here
    rw [List.getElem?_set] at here
    split at here
    · rename_i same
      subst same
      split at here
      · cases here
        exact follows x its
      · cases here
    · exact led.follows j x session its here
  waits := by
    intro session member ticket waits
    rcases List.mem_or_eq_of_mem_set member with old | rfl
    · exact led.waits session old ticket waits
    · cases waits
  answered := led.answered

theorem Led.called {c : sig.Call} {next : sig.Reply c → Prog (sig.sending Req Rep) α}
    (calls : w.upcoming i = some ⟨c,next⟩) {reply : sig.Reply c} (told : fact ⟨.inl c,reply⟩) :
    (w.resume i (next reply)).Led may post fact who := by
  obtain ⟨waits,here⟩ := upcoming_eq calls
  exact led.resume fun x its => (led.follows i x _ its here).continue told

theorem Led.send : (w.send i).Led may post fact who := by
  rcases w.send_cases (i := i) with same | ⟨request,next,here,sent⟩
  · rwa [same]
  rw [sent]
  constructor
  · simp [led.length]
  · intro j x session its there
    rw [List.getElem?_set] at there
    split at there
    · rename_i same
      subst same
      split at there
      · cases there
        have follows := led.follows i x _ its here
        exact follows
      · cases there
    · exact led.follows j x session its there
  · intro session member ticket waits
    rcases List.mem_or_eq_of_mem_set member with old | rfl
    · obtain ⟨request',next',rest,there,told⟩ := led.waits session old ticket waits
      exact ⟨request',next',rest,getElem?_append there,told⟩
    · cases waits
      refine ⟨request,next,rfl,by simp,fun reply heard => ?_⟩
      exact absurd (led.answered _ heard) (Nat.lt_irrefl _)
  · intro entry member
    rw [List.length_append]
    exact Nat.lt_add_right _ (led.answered entry member)

theorem Led.hear : (w.hear i).Led may post fact who := by
  rcases w.hear_cases (i := i) with same | ⟨request,next,ticket,reply,here,told,heard⟩
  · rwa [same]
  obtain ⟨request',next',rest,_,known⟩ := led.waits _ (List.mem_of_getElem? here) ticket rfl
  cases rest
  rw [heard]
  exact led.resume fun x its => (led.follows i x _ its here).continue (known reply told)

theorem Led.lose (known : ∀ request, fact ⟨.inr request,reply⟩) :
    (w.lose i reply).Led may post fact who := by
  rcases @lose_cases sig Req Rep α w i reply with same | ⟨request,next,ticket,here,lost⟩
  · rwa [same]
  · rw [lost]
    exact led.resume fun x its => (led.follows i x _ its here).continue (known request)

/-- With the sessions gone, nobody has been told anything. -/
theorem Led.abandon : w.abandon.Led may post fact [] :=
  ⟨rfl,(fun _ _ _ its => by cases its),(fun _ member => by cases member),led.answered⟩

theorem Led.vanish (k : Nat) : (w.vanish k).Led may post fact who :=
  ⟨led.length,led.follows,led.waits,led.answered⟩

/-- Only a reply that is waited for need be a fact. -/
theorem Led.answer {ticket : Nat} {request : Req}
    (sent : w.sent[ticket]? = some request) (holds : w.awaited ticket = true → fact ⟨.inr request,reply⟩) :
    (w.answer ticket reply).Led may post fact who where
  length := led.length
  follows := led.follows
  waits := by
    intro session member ticket' waits
    obtain ⟨request',next,rest,there,told⟩ := led.waits session member ticket' waits
    refine ⟨request',next,rest,there,fun reply' heard => ?_⟩
    rcases List.mem_append.mp heard with old | new
    · exact told reply' old
    · obtain ⟨rfl,rfl⟩ := Prod.mk.inj (List.mem_singleton.mp new)
      rw [sent] at there
      cases there
      exact holds (List.any_eq_true.mpr ⟨session,member,decide_eq_true waits⟩)
  answered := by
    intro entry member
    rcases List.mem_append.mp member with old | new
    · exact led.answered entry old
    · rw [List.mem_singleton.mp new]
      exact (List.getElem?_eq_some_iff.mp sent).1

end

end Led

end Wire
end Resumption
