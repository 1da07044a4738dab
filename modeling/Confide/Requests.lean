import Confide.Program
import Mathlib.Data.List.Basic

/-! Programs that send requests. Requests and replies travel on their own: either may be lost, and a request may be dealt
with when the program that sent it has long gone on. What a program has been told is enough to say what it may do
next; whatever holds of all it can be told then holds of all it does. -/
namespace Resumption

/-- The calls of `sig`, and requests to someone else. -/
abbrev Signature.sending (sig : Signature) (Req Rep : Type) : Signature where
  Call := sig.Call ⊕ Req
  Reply := Sum.elim sig.Reply fun _ => Rep

/-- A call with the reply it got. -/
abbrev Event (sig : Signature) := (c : sig.Call) × sig.Reply c

/-- What is left of a program, and the request it waits for. -/
structure Session (sig : Signature) (Req Rep α : Type) where
  rest : Prog (sig.sending Req Rep) α
  waits : Option Nat

/-- A request is known by its place among all that were sent. -/
structure Wire (sig : Signature) (Req Rep α : Type) where
  sessions : List (Session sig Req Rep α)
  sent : List Req
  flying : List Nat
  replies : List (Nat × Rep)

variable {sig : Signature} {Req Rep α ι : Type}

variable {c : sig.Call} {next : sig.Reply c → Prog (sig.sending Req Rep) α}

namespace Wire

def empty : Wire sig Req Rep α := ⟨[],[],[],[]⟩

def start (w : Wire sig Req Rep α) (p : Prog (sig.sending Req Rep) α) : Wire sig Req Rep α :=
  { w with sessions := w.sessions ++ [⟨p,none⟩] }

/-- The call a session makes next, if it is not a request. -/
def upcoming (w : Wire sig Req Rep α) (i : Nat) : Option ((c : sig.Call) × (sig.Reply c → Prog (sig.sending Req Rep) α)) :=
  match w.sessions[i]? with
  | some ⟨.call (.inl c) next,_⟩ => some ⟨c,next⟩
  | _ => none

def resume (w : Wire sig Req Rep α) (i : Nat) (rest : Prog (sig.sending Req Rep) α) : Wire sig Req Rep α :=
  { w with sessions := w.sessions.set i ⟨rest,none⟩ }

def send (w : Wire sig Req Rep α) (i : Nat) : Wire sig Req Rep α :=
  match w.sessions[i]? with
  | some ⟨.call (.inr request) next,none⟩ =>
    { w with
      sent := w.sent ++ [request]
      flying := w.flying ++ [w.sent.length]
      sessions := w.sessions.set i ⟨.call (.inr request) next,some w.sent.length⟩ }
  | _ => w

def hear (w : Wire sig Req Rep α) (i : Nat) : Wire sig Req Rep α :=
  match w.sessions[i]? with
  | some ⟨.call (.inr _) next,some ticket⟩ => match w.replies.lookup ticket with
    | some reply => w.resume i (next reply)
    | none => w
  | _ => w

/-- A session gives up on a request, with a reply of its own making. -/
def lose (w : Wire sig Req Rep α) (i : Nat) (reply : Rep) : Wire sig Req Rep α :=
  match w.sessions[i]? with
  | some ⟨.call (.inr _) next,some _⟩ => w.resume i (next reply)
  | _ => w

def vanish (w : Wire sig Req Rep α) (k : Nat) : Wire sig Req Rep α := { w with flying := w.flying.eraseIdx k }

/-- The request at this place of those that are on their way. -/
def arriving (w : Wire sig Req Rep α) (k : Nat) : Option (Nat × Req) :=
  w.flying[k]?.bind fun ticket => w.sent[ticket]?.map fun request => (ticket,request)

def answer (w : Wire sig Req Rep α) (ticket : Nat) (reply : Rep) : Wire sig Req Rep α :=
  { w with replies := w.replies ++ [(ticket,reply)] }

def abandon (w : Wire sig Req Rep α) : Wire sig Req Rep α := { w with sessions := [] }

variable {w : Wire sig Req Rep α} {i : Nat}

theorem upcoming_eq (calls : w.upcoming i = some ⟨c,next⟩) :
    ∃ waits, w.sessions[i]? = some ⟨.call (.inl c) next,waits⟩ := by
  unfold upcoming at calls
  split at calls
  · rename_i waits here
    cases calls
    exact ⟨waits,here⟩
  · cases calls

theorem arriving_eq {k ticket : Nat} {request : Req} (arrives : w.arriving k = some (ticket,request)) :
    w.sent[ticket]? = some request := by
  obtain ⟨ticket',_,found⟩ := Option.bind_eq_some_iff.mp arrives
  obtain ⟨request',there,same⟩ := Option.map_eq_some_iff.mp found
  cases same
  exact there

theorem send_cases : w.send i = w ∨ ∃ request next, w.sessions[i]? = some ⟨.call (.inr request) next,none⟩ ∧
    w.send i = { w with
      sent := w.sent ++ [request]
      flying := w.flying ++ [w.sent.length]
      sessions := w.sessions.set i ⟨.call (.inr request) next,some w.sent.length⟩ } := by
  unfold send
  split
  · rename_i request next here
    exact .inr ⟨request,next,here,rfl⟩
  · exact .inl rfl

theorem hear_cases : w.hear i = w ∨ ∃ request next ticket reply,
    w.sessions[i]? = some ⟨.call (.inr request) next,some ticket⟩ ∧ (ticket,reply) ∈ w.replies ∧
      w.hear i = w.resume i (next reply) := by
  unfold hear
  split
  · rename_i request next ticket here
    cases told : w.replies.lookup ticket with
    | none => exact .inl rfl
    | some reply =>
      obtain ⟨before,after,split,_⟩ := List.lookup_eq_some_iff.mp told
      exact .inr ⟨request,next,ticket,reply,here,by simp [split],rfl⟩
  · exact .inl rfl

theorem lose_cases {reply : Rep} : w.lose i reply = w ∨ ∃ request next ticket,
    w.sessions[i]? = some ⟨.call (.inr request) next,some ticket⟩ ∧ w.lose i reply = w.resume i (next reply) := by
  unfold lose
  split
  · rename_i request next ticket here
    exact .inr ⟨request,next,ticket,here,rfl⟩
  · exact .inl rfl

/-- Requests are not taken back. -/
theorem send_longer : w.sent <+: (w.send i).sent := by
  unfold send
  split
  · exact List.prefix_append _ _
  · exact List.prefix_refl _

theorem hear_sent : (w.hear i).sent = w.sent := by
  unfold hear
  split
  · split <;> rfl
  · rfl

theorem lose_sent {reply : Rep} : (w.lose i reply).sent = w.sent := by
  unfold lose
  split <;> rfl

end Wire

/-- Programs remember the calls they have made and the replies. -/
def recording (c : sig.Call) (past : List (Event sig)) (reply : sig.Reply c) (past' : List (Event sig)) : Prop :=
  past' = past ++ [⟨c,reply⟩]

theorem recording.mem {past past' : List (Event sig)} {reply : sig.Reply c}
    (recorded : recording c past reply past') : ⟨c,reply⟩ ∈ past' := by
  rw [recorded]
  exact List.mem_append_right past (List.mem_singleton_self _)

theorem recording.subset {past past' : List (Event sig)} {reply : sig.Reply c}
    (recorded : recording c past reply past') : past ⊆ past' := by
  rw [recorded]
  exact List.subset_append_left past _

section Follows

variable (may : ι → sig.Call → List (Event sig) → Prop) (post : ι → α → List (Event sig) → Prop)
  (fact : Event sig → Prop)

/-- The program does what it may, and all it was told is a fact. -/
def Follows (p : Prog sig α) : Prop :=
  ∃ x past, (∀ event ∈ past, fact event) ∧ p.Guarantees recording (may x) past (post x)

/-- A call that some program may make on the strength of facts. -/
def Warranted (c : sig.Call) : Prop := ∃ x past, (∀ event ∈ past, fact event) ∧ may x c past

variable {may post fact} {c : sig.Call} {next : sig.Reply c → Prog sig α}

theorem Follows.mono {fact' : Event sig → Prop} (wider : ∀ event, fact event → fact' event) {p : Prog sig α}
    (follows : Follows may post fact p) : Follows may post fact' p := by
  obtain ⟨x,past,facts,holds⟩ := follows
  exact ⟨x,past,fun event member => wider event (facts event member),holds⟩

theorem Warranted.mono {fact' : Event sig → Prop} (wider : ∀ event, fact event → fact' event)
    (warranted : Warranted may fact c) : Warranted may fact' c := by
  obtain ⟨x,past,facts,holds⟩ := warranted
  exact ⟨x,past,fun event member => wider event (facts event member),holds⟩

theorem Follows.warranted (follows : Follows may post fact (.call c next)) : Warranted may fact c := by
  obtain ⟨x,past,facts,holds⟩ := follows
  exact ⟨x,past,facts,holds.1⟩

theorem Follows.continue (follows : Follows may post fact (.call c next)) {reply : sig.Reply c} (told : fact ⟨c,reply⟩) :
    Follows may post fact (next reply) := by
  obtain ⟨x,past,facts,holds⟩ := follows
  refine ⟨x,past ++ [(⟨c,reply⟩ : Event sig)],?_,holds.2 reply _ rfl⟩
  intro event member
  rcases List.mem_append.mp member with old | new
  · exact facts event old
  · rwa [List.mem_singleton.mp new]

end Follows

/-! The sessions, the requests and the replies fit together. -/

namespace Wire

variable (may : ι → (sig.sending Req Rep).Call → List (Event (sig.sending Req Rep)) → Prop)
  (post : ι → α → List (Event (sig.sending Req Rep)) → Prop) (fact : Event (sig.sending Req Rep) → Prop)

structure Fits (w : Wire sig Req Rep α) : Prop where
  follows : ∀ session ∈ w.sessions, Follows may post fact session.rest
  waits : ∀ session ∈ w.sessions, ∀ ticket ∈ session.waits, ∃ request next,
    session.rest = .call (.inr request) next ∧ w.sent[ticket]? = some request
  warranted : ∀ request ∈ w.sent, Warranted may fact (.inr request)
  told : ∀ entry ∈ w.replies, ∃ request, w.sent[entry.1]? = some request ∧ fact ⟨.inr request,entry.2⟩

variable {may post fact} {w : Wire sig Req Rep α} {i : Nat}

theorem fits_empty : (empty : Wire sig Req Rep α).Fits may post fact := by
  constructor <;> simp [empty]

theorem Fits.mono {fact' : Event (sig.sending Req Rep) → Prop} (wider : ∀ event, fact event → fact' event)
    (fits : w.Fits may post fact) : w.Fits may post fact' where
  follows := fun session member => (fits.follows session member).mono wider
  waits := fits.waits
  warranted := fun request member => (fits.warranted request member).mono wider
  told := by
    intro entry member
    obtain ⟨request,there,holds⟩ := fits.told entry member
    exact ⟨request,there,wider _ holds⟩

theorem Fits.start (fits : w.Fits may post fact) {p : Prog (sig.sending Req Rep) α} (follows : Follows may post fact p) :
    (w.start p).Fits may post fact where
  follows := by
    intro session member
    rcases List.mem_append.mp member with old | new
    · exact fits.follows session old
    · rw [List.mem_singleton.mp new]
      exact follows
  waits := by
    intro session member ticket waits
    rcases List.mem_append.mp member with old | new
    · exact fits.waits session old ticket waits
    · rw [List.mem_singleton.mp new] at waits
      cases waits
  warranted := fits.warranted
  told := fits.told

theorem Fits.resume (fits : w.Fits may post fact) {rest : Prog (sig.sending Req Rep) α} (follows : Follows may post fact rest) :
    (w.resume i rest).Fits may post fact where
  follows := by
    intro session member
    rcases List.mem_or_eq_of_mem_set member with old | rfl
    · exact fits.follows session old
    · exact follows
  waits := by
    intro session member ticket waits
    rcases List.mem_or_eq_of_mem_set member with old | rfl
    · exact fits.waits session old ticket waits
    · cases waits
  warranted := fits.warranted
  told := fits.told

theorem Fits.called (fits : w.Fits may post fact)
    (calls : w.upcoming i = some ⟨c,next⟩) {reply : sig.Reply c} (told : fact ⟨.inl c,reply⟩) :
    (w.resume i (next reply)).Fits may post fact := by
  obtain ⟨waits,here⟩ := upcoming_eq calls
  exact fits.resume ((fits.follows _ (List.mem_of_getElem? here)).continue told)

theorem getElem?_append {β : Type} {l l' : List β} {k : Nat} {b : β} (there : l[k]? = some b) : (l ++ l')[k]? = some b := by
  rw [List.getElem?_append_left (List.getElem?_eq_some_iff.mp there).1,there]

section

variable (fits : w.Fits may post fact)
include fits

theorem Fits.send : (w.send i).Fits may post fact := by
  rcases w.send_cases (i := i) with same | ⟨request,next,here,sent⟩
  · rwa [same]
  have follows := fits.follows _ (List.mem_of_getElem? here)
  rw [sent]
  constructor
  · intro session member
    rcases List.mem_or_eq_of_mem_set member with old | rfl
    · exact fits.follows session old
    · exact follows
  · intro session member ticket waits
    rcases List.mem_or_eq_of_mem_set member with old | rfl
    · obtain ⟨request',next',rest,there⟩ := fits.waits session old ticket waits
      exact ⟨request',next',rest,getElem?_append there⟩
    · cases waits
      exact ⟨request,next,rfl,by simp⟩
  · intro request' member
    rcases List.mem_append.mp member with old | new
    · exact fits.warranted request' old
    · rw [List.mem_singleton.mp new]
      exact follows.warranted
  · intro entry member
    obtain ⟨request',there,holds⟩ := fits.told entry member
    exact ⟨request',getElem?_append there,holds⟩

theorem Fits.hear : (w.hear i).Fits may post fact := by
  rcases w.hear_cases (i := i) with same | ⟨request,next,ticket,reply,here,told,heard⟩
  · rwa [same]
  have member := List.mem_of_getElem? here
  obtain ⟨request',next',rest,there⟩ := fits.waits _ member ticket rfl
  obtain ⟨request'',there',holds⟩ := fits.told _ told
  cases rest
  rw [there] at there'
  cases there'
  rw [heard]
  exact fits.resume ((fits.follows _ member).continue holds)

theorem Fits.lose {reply : Rep} (known : ∀ request, fact ⟨.inr request,reply⟩) :
    (w.lose i reply).Fits may post fact := by
  rcases @lose_cases sig Req Rep α w i reply with same | ⟨request,next,ticket,here,lost⟩
  · rwa [same]
  · rw [lost]
    exact fits.resume ((fits.follows _ (List.mem_of_getElem? here)).continue (known request))

theorem Fits.vanish (k : Nat) : (w.vanish k).Fits may post fact :=
  ⟨fits.follows,fits.waits,fits.warranted,fits.told⟩

theorem Fits.answer {ticket : Nat} {request : Req} {reply : Rep}
    (sent : w.sent[ticket]? = some request) (holds : fact ⟨.inr request,reply⟩) :
    (w.answer ticket reply).Fits may post fact where
  follows := fits.follows
  waits := fits.waits
  warranted := fits.warranted
  told := by
    intro entry member
    rcases List.mem_append.mp member with old | new
    · exact fits.told entry old
    · rw [List.mem_singleton.mp new]
      exact ⟨request,sent,holds⟩

theorem Fits.abandon : w.abandon.Fits may post fact :=
  ⟨nofun,nofun,fits.warranted,fits.told⟩

end

end Wire
end Resumption
