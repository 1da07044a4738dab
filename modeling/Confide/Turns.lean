import Confide.AdminHandlers
import Confide.Protocols
import Confide.Server

/-! What a client sees of a connection, as a protocol: after which reads and writes the server may read or write what. -/
namespace Confide

open Bytes Resumption Streams

variable {f : Framing UInt8 RequestHeader} {sig : Signature}

/-- The request that is being answered. -/
structure Turn (f : Framing UInt8 RequestHeader) where
  request : RequestHeader
  body : f.Body
  /-- No read of the body has failed. -/
  readable : Bool := true
  continued : Bool := false
  /-- The responses begun, and whether the last of them promised to keep the connection. -/
  answers : Nat := 0
  promised : Bool := false
  /-- All that was written of responses got out, and no file failed to be read. -/
  intact : Bool := true
  /-- The size a file was announced with, and how much of it has been written. -/
  file : Option (UInt64 × Nat) := none

namespace Turn

def complete (t : Turn f) : Bool := t.file.all fun file => UInt64.ofNat file.2 == file.1

/-- The connection can carry another request. -/
def Settled (strict : Prop) (t : Turn f) : Prop :=
  f.done t.body = true ∧ t.readable = true ∧ t.request.keepAlive = true ∧ t.intact = true ∧ t.complete = true ∧
    t.answers ≠ 0 ∧ (strict → t.promised = true)

/-- The connection is promised only to a client that wants it and whose body has been read. -/
def MayAnswer (strict : Prop) (head : ResponseHead) (t : Turn f) : Prop :=
  head.version = t.request.version ∧ (strict → t.answers = 0) ∧
    (head.keepAlive = true → f.done t.body = true ∧ t.readable = true ∧ t.request.keepAlive = true ∧ t.intact = true ∧
      t.complete = true)

def Spent (t : Turn f) : Prop := t.promised = false ∨ t.intact = false ∨ t.complete = false

/-- With `strict` there is one response, and nothing is read behind it. -/
def May (strict : Prop) (t : Turn f) : NetCall f sig → Prop
  | .readHeader => t.Settled strict
  | .readSome body _ => t.body = body ∧ f.done body = false ∧ t.readable = true ∧ t.intact = true ∧
      (strict → t.answers = 0)
  | .write .continue => t.continued = false ∧ iequals t.request.expect (ascii "100-continue") = true ∧
      f.done t.body = false ∧ t.readable = true ∧ (strict → t.answers = 0)
  | .write (.response head _) => t.MayAnswer strict head
  | .write (.fileHeader head _) => t.MayAnswer strict head
  | .write (.filePart _) => t.file.isSome = true ∧ (strict → t.intact = true)
  | .readFile _ => t.file.isSome = true ∧ (strict → t.intact = true)
  | .authenticate _ request _ => request = t.request ∧ t.answers = 0
  | .inner _ => True

def heard (t : Turn f) : (c : NetCall f sig) → c.Reply → Turn f
  | .readHeader, .ok (request,body) => { request := request, body := body }
  | .readSome _ _, .ok (_,body) => { t with body := body }
  | .readSome _ _, .error _ => { t with readable := false }
  | .write .continue, _ => { t with continued := true }
  | .write (.response head _), written =>
    { t with answers := t.answers + 1, promised := head.keepAlive, intact := t.intact && written.isOk, file := none }
  | .write (.fileHeader head size), written =>
    { t with
      answers := t.answers + 1, promised := head.keepAlive, intact := t.intact && written.isOk, file := some (size,0) }
  | .write (.filePart part), written =>
    { t with intact := t.intact && written.isOk, file := t.file.map fun file => (file.1,file.2 + part.length) }
  | .readFile _, .error _ => { t with intact := false }
  | _, _ => t

end Turn

/-- Before the first request, after a header that could not be read, during a request, and when all is said. -/
inductive Talk (f : Framing UInt8 RequestHeader) where
  | idle | rejected | turn (t : Turn f) | hungUp

namespace Talk

def May (strict : Prop) (c : NetCall f sig) : Talk f → Prop
  | .idle => c = .readHeader
  | .rejected => ∃ head body, c = .write (.response head body) ∧ head.keepAlive = false
  | .turn t => t.May strict c
  | .hungUp => False

def after : (c : NetCall f sig) → c.Reply → Talk f → Talk f
  | .readHeader, .ok (request,body), _ => .turn { request := request, body := body }
  | .readHeader, .error .headerLimit, _ => .rejected
  | .readHeader, .error (.malformed _), _ => .rejected
  | .readHeader, .error _, _ => .hungUp
  | c, reply, .turn t => .turn (t.heard c reply)
  | _, _, .idle => .idle
  | _, _, .rejected => .hungUp
  | _, _, .hungUp => .hungUp

def Ended (strict : Prop) : Talk f → Prop
  | .hungUp => True
  | .turn t => t.answers ≠ 0 ∧ (strict → t.Spent)
  | _ => False

end Talk

/-- With `strict`, as it is with handlers that answer once. -/
def conversation (strict : Prop) : Protocol (Net f sig) (Talk f) where
  may := Talk.May strict
  after := Talk.after

/-- Asked during a request, the program ends during it, as `post` says. -/
def Serves (strict : Prop) {α : Type} (p : ServeM f sig α) (t : Turn f) (post : α → Turn f → Prop) : Prop :=
  (conversation strict).Keeps p.run (.turn t) fun result talk =>
    ∀ value, result = .ok value → ∃ t', talk = .turn t' ∧ post value t'

section Serves

variable {strict : Prop} {α β : Type} {t : Turn f}

theorem serves_pure {value : α} {post : α → Turn f → Prop} (holds : post value t) :
    Serves strict (pure value : ServeM f sig α) t post := by
  intro other same
  cases same
  exact ⟨t,rfl,holds⟩

theorem serves_throw {post : α → Turn f → Prop} : Serves strict (throw () : ServeM f sig α) t post :=
  fun _ same => by cases same

theorem serves_bind {p : ServeM f sig α} {g : α → ServeM f sig β} {post : β → Turn f → Prop}
    (first : Serves strict p t fun value t' => Serves strict (g value) t' post) : Serves strict (p >>= g) t post := by
  refine (Prog.guarantees_exceptT_bind ..).mpr (first.mono fun result talk holds => ?_)
  cases result with
  | error e => exact fun _ same => by cases same
  | ok value =>
    obtain ⟨t',rfl,rest⟩ := holds value rfl
    exact rest

theorem Serves.mono {p : ServeM f sig α} {post post' : α → Turn f → Prop} (serves : Serves strict p t post)
    (weaker : ∀ value t', post value t' → post' value t') : Serves strict p t post' := by
  refine Prog.Guarantees.mono serves fun result talk holds value same => ?_
  obtain ⟨t',at_,rest⟩ := holds value same
  exact ⟨t',at_,weaker value t' rest⟩

theorem after_turn {c : NetCall f sig} (inside : c ≠ .readHeader) (reply : c.Reply) :
    Talk.after c reply (.turn t) = .turn (t.heard c reply) := by
  cases c with
  | readHeader => exact absurd rfl inside
  | _ => rfl

theorem serves_net {c : NetCall f sig} {post : c.Reply → Turn f → Prop} (inside : c ≠ .readHeader)
    (allowed : t.May strict c) (next : ∀ reply, post reply (t.heard c reply)) : Serves strict (net c) t post := by
  refine ⟨allowed,fun reply talk heard value same => ?_⟩
  cases same
  exact ⟨_,heard.trans (after_turn inside reply),next reply⟩

end Serves

/-- The exchange knows how the request stands. -/
structure Fits (strict : Prop) (ex : SessionExchange f) (t : Turn f) : Prop where
  request : t.request = ex.request
  live : ex.close = false → t.body = ex.body ∧ t.readable = true ∧ t.intact = true ∧ t.complete = true
  continued : t.continued = true → ex.continueSent = true
  answers : t.answers = 0 ↔ ex.responded = false
  fresh : ex.responded = false → t.intact = true
  promised : strict → ex.responded = true → ex.close = false → t.promised = ex.keepAlive
  spent : strict → ex.responded = true → ex.close = true → t.Spent

section Exchange

@[simp] theorem isOk_ok {ε α : Type} (value : α) : (Except.ok value : Except ε α).isOk = true := rfl

@[simp] theorem isOk_error {ε α : Type} (e : ε) : (Except.error e : Except ε α).isOk = false := rfl

variable {strict : Prop} {ex : SessionExchange f} {t : Turn f}

/-- A function of the exchange that leaves it in step. -/
abbrev KeepsFit (strict : Prop) {α : Type} (p : ServeM f sig (α × SessionExchange f)) (t : Turn f) (answered : Bool) : Prop :=
  Serves strict p t fun value t' => Fits strict value.2 t' ∧ value.2.responded = answered

theorem fits_new (request : RequestHeader) (body : f.Body) :
    Fits strict ({ request := request, body := body } : SessionExchange f) { request := request, body := body } where
  request := rfl
  live := fun _ => ⟨rfl,rfl,rfl,rfl⟩
  continued := fun sent => by cases sent
  answers := by simp
  fresh := fun _ => rfl
  promised := fun _ answered => by cases answered
  spent := fun _ answered => by cases answered

theorem keepAlive_iff : ex.keepAlive = true ↔ ex.close = false ∧ ex.request.keepAlive = true ∧ f.done ex.body = true := by
  simp [SessionExchange.keepAlive,SessionExchange.isDone,and_assoc]

theorem keepAlive_shut (shut : ex.close = true) : ex.keepAlive = false := by simp [SessionExchange.keepAlive,shut]

theorem unanswered {P : Prop} (quiet : strict → ex.responded = false) (strictly : strict) (answered : ex.responded = true) :
    P := by
  rw [quiet strictly] at answered
  cases answered

/-- Before it has answered, an exchange may be shut at any time. -/
theorem Fits.shut (fits : Fits strict ex t) (quiet : strict → ex.responded = false) : Fits strict ex.shut t where
  request := fits.request
  live := fun open_ => by cases open_
  continued := fits.continued
  answers := fits.answers
  fresh := fits.fresh
  promised := fun _ _ open_ => by cases open_
  spent := fun strictly answered _ => unanswered quiet strictly answered

theorem sendContinue_fits (fits : Fits strict ex t) (open_ : ex.close = false) (quiet : strict → ex.responded = false) :
    Serves strict (ex.sendContinue : ServeM f sig _) t fun value t' =>
      Fits strict value.2 t' ∧ value.2.responded = ex.responded ∧ value.2.close = false := by
  unfold SessionExchange.sendContinue
  obtain ⟨body,readable,intact,complete⟩ := fits.live open_
  split
  · exact serves_pure ⟨fits,rfl,open_⟩
  · rename_i fresh
    simp only [Bool.or_eq_true,not_or,Bool.not_eq_true] at fresh
    have asked : Fits strict { ex with continueSent := true } t :=
      ⟨fits.request,fits.live,fun _ => rfl,fits.answers,fits.fresh,fits.promised,fits.spent⟩
    dsimp only
    split
    · exact serves_pure ⟨asked,rfl,open_⟩
    · rename_i expects
      have unsent : t.continued = false := by
        by_contra sent
        rw [fits.continued (by simpa using sent)] at fresh
        cases fresh.1
      apply serves_bind
      apply serves_net (by simp)
      · refine ⟨unsent,?_,?_,readable,fun strictly => fits.answers.mpr (quiet strictly)⟩
        · simpa [fits.request] using expects
        · rw [body]
          exact fresh.2
      · intro written
        refine serves_pure ⟨⟨fits.request,fits.live,fun _ => rfl,fits.answers,fits.fresh,fits.promised,fits.spent⟩,rfl,open_⟩

theorem readLoop_fits (turns room : Nat) (fits : Fits strict ex t) (open_ : ex.close = false)
    (quiet : strict → ex.responded = false) :
    KeepsFit strict (ex.readLoop room turns : ServeM f sig _) t ex.responded := by
  induction turns generalizing ex t with
  | zero => exact serves_throw
  | succ turns ih =>
    unfold SessionExchange.readLoop
    obtain ⟨body,readable,intact,complete⟩ := fits.live open_
    split
    · exact serves_pure ⟨fits,rfl⟩
    · rename_i unfinished
      apply serves_bind
      apply serves_net (by simp)
      · exact ⟨body,by simpa [SessionExchange.isDone] using unfinished,readable,intact,
          fun strictly => fits.answers.mpr (quiet strictly)⟩
      · intro got
        have broken : Fits strict ex.shut { t with readable := false } :=
          ⟨fits.request,(fun open_ => by cases open_),fits.continued,fits.answers,fits.fresh,(fun _ _ open_ => by cases open_),
            fun strictly answered _ => unanswered quiet strictly answered⟩
        rcases got with (fault | message) | ⟨part,rest⟩
        · exact serves_pure ⟨broken,rfl⟩
        · exact serves_pure ⟨broken,rfl⟩
        · have read : Fits strict { ex with body := rest } { t with body := rest } :=
            ⟨fits.request,fun _ => ⟨rfl,readable,intact,complete⟩,fits.continued,fits.answers,fits.fresh,
              fun strictly answered => unanswered quiet strictly answered,fits.spent⟩
          dsimp only
          split
          · exact serves_pure ⟨read,rfl⟩
          · exact ih read open_ quiet

theorem readBody_fits (turns room : Nat) (fits : Fits strict ex t) (quiet : strict → ex.responded = false) :
    KeepsFit strict (ex.readBody turns room : ServeM f sig _) t ex.responded := by
  unfold SessionExchange.readBody
  split
  · exact serves_pure ⟨fits,rfl⟩
  · rename_i open_
    apply serves_bind
    refine (sendContinue_fits fits (by simpa using open_) quiet).mono fun value t' sent => ?_
    obtain ⟨sent,ex'⟩ := value
    obtain ⟨fits',same,open_'⟩ := sent
    dsimp only at fits' same open_' ⊢
    rw [← same]
    split
    · exact serves_pure ⟨fits',rfl⟩
    · exact readLoop_fits turns room fits' open_' (same ▸ quiet)

theorem stringLoop_fits (reads maxBytes room turns : Nat) (out : Bytes) (fits : Fits strict ex t)
    (quiet : strict → ex.responded = false) :
    KeepsFit strict (ex.stringLoop reads maxBytes room turns out : ServeM f sig _) t ex.responded := by
  induction turns generalizing ex t out with
  | zero => exact serves_throw
  | succ turns ih =>
    unfold SessionExchange.stringLoop
    apply serves_bind
    refine (readBody_fits reads room fits quiet).mono fun value t' read => ?_
    obtain ⟨got,ex'⟩ := value
    obtain ⟨fits',same⟩ := read
    dsimp only at fits' same ⊢
    rw [← same] at quiet ⊢
    cases got with
    | error e => exact serves_pure ⟨fits',rfl⟩
    | ok part =>
      dsimp only
      split
      · exact serves_pure ⟨fits',rfl⟩
      · split
        · exact serves_pure ⟨fits'.shut quiet,rfl⟩
        · exact ih _ fits' quiet

theorem readBodyString_fits (turns maxBytes : Nat) (fits : Fits strict ex t) (quiet : strict → ex.responded = false) :
    KeepsFit strict (ex.readBodyString turns maxBytes : ServeM f sig _) t ex.responded := by
  unfold SessionExchange.readBodyString
  dsimp only
  split
  · split
    · exact serves_pure ⟨fits,rfl⟩
    · exact stringLoop_fits _ _ _ _ _ fits quiet
  · exact stringLoop_fits _ _ _ _ _ fits quiet

/-- An exchange answers with what it knows of the request. -/
theorem Fits.mayAnswer (fits : Fits strict ex t) (quiet : strict → ex.responded = false) {head : ResponseHead}
    (version : head.version = ex.request.version) (promise : head.keepAlive = ex.keepAlive) : t.MayAnswer strict head := by
  refine ⟨version.trans (congrArg _ fits.request.symm),fun strictly => fits.answers.mpr (quiet strictly),fun promised => ?_⟩
  obtain ⟨open_,wanted,done⟩ := keepAlive_iff.mp (promise ▸ promised)
  obtain ⟨body,readable,intact,complete⟩ := fits.live open_
  exact ⟨body ▸ done,readable,fits.request ▸ wanted,intact,complete⟩

theorem writeResponse_serves {version : Nat} {keepAlive : Bool} {status : WireStatus} {response : Response}
    {post : Bool → Turn f → Prop}
    (allowed : ∀ head : ResponseHead, head.version = version → head.keepAlive = keepAlive → t.MayAnswer strict head)
    (next : ∀ written, post written { t with
      answers := t.answers + 1, promised := keepAlive, intact := t.intact && written, file := none }) :
    Serves strict (writeResponse version keepAlive status response : ServeM f sig Bool) t post := by
  unfold writeResponse
  apply serves_bind
  apply serves_net (by simp)
  · exact allowed _ rfl rfl
  · intro written
    exact serves_pure (next _)

theorem send_fits (status : WireStatus) (response : Response) (fits : Fits strict ex t)
    (quiet : strict → ex.responded = false) :
    KeepsFit strict (ex.send status response : ServeM f sig _) t true := by
  unfold SessionExchange.send
  apply serves_bind
  apply writeResponse_serves
  · intro head version promise
    exact fits.mayAnswer quiet version promise
  · intro written
    cases written with
    | false =>
      apply serves_pure
      refine ⟨⟨fits.request,(fun open_ => by cases open_),fits.continued,by simp [SessionExchange.shut],
        (fun quiet => by cases quiet),(fun _ _ open_ => by cases open_),fun _ _ _ => .inr (.inl (by simp))⟩,rfl⟩
    | true =>
      apply serves_pure
      refine ⟨⟨fits.request,fun open_ => ?_,fits.continued,by simp,(fun quiet => by cases quiet),fun _ _ _ => rfl,
        fun _ _ shut => ?_⟩,rfl⟩
      · obtain ⟨body,readable,intact,_⟩ := fits.live open_
        exact ⟨body,readable,by simp [intact],rfl⟩
      · exact .inl (keepAlive_shut shut)

/-- A file is on its way behind its header. -/
structure Sending (strict : Prop) (ex : SessionExchange f) (size sent : UInt64) (t : Turn f) : Prop where
  request : t.request = ex.request
  live : ex.close = false → t.body = ex.body ∧ t.readable = true ∧ t.intact = true
  continued : t.continued = true → ex.continueSent = true
  answered : t.answers ≠ 0 ∧ ex.responded = true
  promised : t.promised = ex.keepAlive
  file : ∃ written, t.file = some (size,written) ∧ UInt64.ofNat written = sent
  intact : strict → t.intact = true

/-- Something went wrong with the file. -/
theorem Sending.broken {size sent : UInt64} (sending : Sending strict ex size sent t) {t' : Turn f}
    (request : t'.request = t.request) (continued : t'.continued = t.continued) (answers : t'.answers = t.answers)
    (spent : t'.intact = false ∨ t'.complete = false) : Fits strict ex.shut t' where
  request := request.trans sending.request
  live := fun open_ => by cases open_
  continued := fun sent => sending.continued (continued ▸ sent)
  answers := by simp [answers,sending.answered,SessionExchange.shut]
  fresh := fun quiet => unanswered (fun _ : True => quiet) trivial sending.answered.2
  promised := fun _ _ open_ => by cases open_
  spent := fun _ _ _ => .inr spent

theorem fileLoop_fits (size : UInt64) (turns : Nat) {sent : UInt64} (sending : Sending strict ex size sent t) :
    KeepsFit strict (ex.fileLoop size turns sent : ServeM f sig _) t true := by
  induction turns generalizing t sent with
  | zero => exact serves_throw
  | succ turns ih =>
    unfold SessionExchange.fileLoop
    obtain ⟨written,file,count⟩ := sending.file
    apply serves_bind
    apply serves_net (by simp)
    · exact ⟨by simp [file],sending.intact⟩
    intro got
    cases got with
    | error e => exact serves_pure ⟨sending.broken rfl rfl rfl (.inl rfl),sending.answered.2⟩
    | ok part =>
      dsimp only [Turn.heard]
      split
      · rename_i short
        refine serves_pure ⟨sending.broken rfl rfl rfl (.inr ?_),sending.answered.2⟩
        have other : UInt64.ofNat written ≠ size := by simpa [short.1,count] using short.2
        simpa [Turn.complete,file] using other
      · rename_i goes
        apply serves_bind
        apply serves_net (by simp)
        · exact ⟨by simp [file],sending.intact⟩
        intro out
        cases out with
        | error message => exact serves_pure ⟨sending.broken rfl rfl rfl (.inl (by simp [Turn.heard])),sending.answered.2⟩
        | ok done =>
          have next : Sending strict ex size (sent + UInt64.ofNat part.length)
              (t.heard (.write (.filePart part) : NetCall f sig) (.ok done)) := by
            refine ⟨sending.request,fun open_ => ?_,sending.continued,sending.answered,sending.promised,?_,fun strictly => ?_⟩
            · obtain ⟨body,readable,intact⟩ := sending.live open_
              exact ⟨body,readable,by simp [Turn.heard,intact]⟩
            · exact ⟨written + part.length,by simp [Turn.heard,file],by simp [count]⟩
            · simp [Turn.heard,sending.intact strictly]
          dsimp only
          split
          · rename_i last
            have all : sent = size := by simpa [last] using goes
            refine serves_pure ⟨⟨next.request,fun open_ => ?_,next.continued,?_,fun quiet => ?_,fun _ _ _ =>
              next.promised,fun _ _ shut => ?_⟩,
              sending.answered.2⟩
            · obtain ⟨body,readable,intact⟩ := next.live open_
              exact ⟨body,readable,intact,by simp [Turn.complete,Turn.heard,file,last,count,all]⟩
            · simp [Turn.heard,sending.answered]
            · exact unanswered (fun _ : True => quiet) trivial sending.answered.2
            · exact .inl (next.promised.trans (keepAlive_shut shut))
          · exact ih next

theorem sendFile_fits (turns : Nat) (size : UInt64) (sha256 : Sha256Digest) (fits : Fits strict ex t)
    (quiet : strict → ex.responded = false) :
    KeepsFit strict (ex.sendFile turns size sha256 : ServeM f sig _) t true := by
  unfold SessionExchange.sendFile
  apply serves_bind
  apply serves_net (by simp)
  · exact fits.mayAnswer quiet rfl rfl
  intro written
  cases written with
  | error message =>
    apply serves_pure
    refine ⟨⟨fits.request,(fun open_ => by cases open_),fits.continued,by simp [SessionExchange.shut,Turn.heard],
      (fun quiet => by cases quiet),(fun _ _ open_ => by cases open_),fun _ _ _ => .inr (.inl (by simp [Turn.heard]))⟩,rfl⟩
  | ok done =>
    apply fileLoop_fits
    refine ⟨fits.request,fun open_ => ?_,fits.continued,⟨by simp [Turn.heard],rfl⟩,rfl,⟨0,rfl,rfl⟩,fun strictly => ?_⟩
    · obtain ⟨body,readable,intact,_⟩ := fits.live open_
      exact ⟨body,readable,by simp [Turn.heard,intact]⟩
    · simp [Turn.heard,fits.fresh (quiet strictly)]

end Exchange

/-! Handlers that answer once, and read nothing when they have. -/

def ExchangeCall.answers : ExchangeCall sig → Bool
  | .send _ | .sendFile _ _ => true
  | _ => false

def ExchangeCall.talks : ExchangeCall sig → Bool
  | .responded | .inner _ => false
  | _ => true

def Mannered {α : Type} : Bool → Prog (Exchange sig) α → Prop
  | _, .ret _ => True
  | answered, .call c next =>
    (c.talks = true → answered = false) ∧ ∀ reply, Mannered (answered || c.answers) (next reply)

section Handlers

variable {strict : Prop} {ex : SessionExchange f} {t : Turn f}

theorem serve_fits {α : Type} (turns : Nat) (p : Prog (Exchange sig) α) (mannered : strict → Mannered ex.responded p)
    (fits : Fits strict ex t) :
    Serves strict (ex.serve turns p : ServeM f sig _) t fun value t' => Fits strict value.2 t' := by
  induction p generalizing ex t with
  | ret value => exact serves_pure fits
  | call c next ih =>
    have goes : ∀ {p : ServeM f sig ((Exchange sig).Reply c × SessionExchange f)},
        KeepsFit strict p t (ex.responded || c.answers) →
        Serves strict (do let (reply,ex) ← p; ex.serve turns (next reply)) t fun value t' => Fits strict value.2 t' := by
      intro p keeps
      apply serves_bind
      refine keeps.mono fun value t' after => ?_
      exact ih value.1 (fun strictly => after.2 ▸ (mannered strictly).2 value.1) after.1
    have quiet : c.talks = true → strict → ex.responded = false := fun talks strictly => (mannered strictly).1 talks
    cases c with
    | readBody room => exact goes (by simpa [ExchangeCall.answers] using readBody_fits turns room fits (quiet rfl))
    | readBodyString maxBytes =>
      exact goes (by simpa [ExchangeCall.answers] using readBodyString_fits turns maxBytes fits (quiet rfl))
    | send response => exact goes (by simpa [ExchangeCall.answers] using send_fits _ response fits (quiet rfl))
    | sendFile size sha256 =>
      exact goes (by simpa [ExchangeCall.answers] using sendFile_fits turns size sha256 fits (quiet rfl))
    | responded =>
      exact ih ex.responded (fun strictly => by simpa [ExchangeCall.answers] using (mannered strictly).2 ex.responded) fits
    | inner c =>
      apply serves_bind
      apply serves_net (by simp)
      · trivial
      intro reply
      exact ih reply (fun strictly => by simpa [ExchangeCall.answers] using (mannered strictly).2 reply) fits

theorem conclude_fits [BoostJson] (what : Bytes) (fits : Fits strict ex t) :
    Serves strict (HttpServer.conclude what ex : ServeM f sig _) t fun ex' t' =>
      Fits strict ex' t' ∧ ex'.responded = true := by
  unfold HttpServer.conclude
  split
  · rename_i silent
    apply serves_bind
    exact (send_fits _ _ fits fun _ => silent.2).mono fun value t' after => serves_pure after
  · rename_i answered
    refine serves_pure ⟨fits,?_⟩
    by_contra silent
    exact answered ⟨.inr (by simpa using silent),by simpa using silent⟩

variable {server : HttpServer sig}

theorem dispatch_fits [BoostJson] (turns : Nat) (source : Bytes)
    (mannered : strict → ∀ fn info, Mannered false (server.handlers fn info))
    (fits : Fits strict ex t) (quiet : ex.responded = false) :
    Serves strict (server.dispatch turns source ex : ServeM f sig _) t fun ex' t' =>
      Fits strict ex' t' ∧ ex'.responded = true := by
  unfold HttpServer.dispatch
  split
  · apply serves_bind
    exact (send_fits _ _ fits fun _ => quiet).mono fun value t' after => serves_pure after
  · rename_i found _
    apply serves_bind
    apply serves_net (by simp)
    · exact ⟨fits.request.symm,fits.answers.mpr quiet⟩
    intro caller
    cases caller with
    | error e =>
      apply serves_bind
      exact (send_fits _ _ fits fun _ => quiet).mono fun value t' after => serves_pure after
    | ok caller =>
      apply serves_bind
      have handled : Serves strict (server.handle turns found.route.handler
          ⟨ex.request,caller,found.params,found.query⟩ ex : ServeM f sig _) t fun value t' => Fits strict value.2 t' := by
        unfold HttpServer.handle
        cases found.route.handler with
        | none => exact serves_pure fits
        | some fn => exact serve_fits turns _ (fun strictly => quiet ▸ mannered strictly fn _) fits
      refine handled.mono fun value t' fits' => ?_
      obtain ⟨outcome,ex'⟩ := value
      cases outcome with
      | unfinished => exact serves_throw
      | returned => exact conclude_fits _ fits'
      | threw what => exact conclude_fits _ fits'

/-- A request that has been answered is settled, unless there is a reason to hang up. -/
theorem Fits.settled (fits : Fits strict ex t) (answered : ex.responded = true) :
    (ex.mustClose = false → t.Settled strict) ∧ (ex.mustClose = true → t.answers ≠ 0 ∧ (strict → t.Spent)) := by
  have answers : t.answers ≠ 0 := fun none => by
    rw [fits.answers.mp none] at answered
    cases answered
  constructor
  · intro kept
    have keepAlive : ex.keepAlive = true := by simp_all [SessionExchange.mustClose]
    obtain ⟨open_,wanted,done⟩ := keepAlive_iff.mp keepAlive
    obtain ⟨body,readable,intact,complete⟩ := fits.live open_
    exact ⟨body ▸ done,readable,fits.request ▸ wanted,intact,complete,answers,
      fun strictly => (fits.promised strictly answered open_).trans keepAlive⟩
  · intro closes
    refine ⟨answers,fun strictly => ?_⟩
    cases shut : ex.close with
    | true => exact fits.spent strictly answered shut
    | false =>
      have dropped : ex.keepAlive = false := by simpa [SessionExchange.mustClose,shut] using closes
      exact .inl ((fits.promised strictly answered shut).trans dropped)

theorem serveRequests_keeps [BoostJson] (turns : Nat) (source : Bytes)
    (mannered : strict → ∀ fn info, Mannered false (server.handlers fn info)) (rounds : Nat) {talk : Talk f}
    (ready : talk.May strict (.readHeader : NetCall f sig)) :
    (conversation strict).Keeps (server.serveRequests turns source rounds : ServeM f sig Unit).run talk
      fun result talk => result = .ok () → talk.Ended strict := by
  induction rounds generalizing talk with
  | zero => exact fun same => by cases same
  | succ rounds ih =>
    unfold HttpServer.serveRequests
    refine (Prog.guarantees_exceptT_bind ..).mpr ⟨ready,fun reply talk' heard => ?_⟩
    have rejects : ∀ (status : WireStatus) (response : Response),
        (conversation strict).Keeps (do
          let _written ← writeResponse 11 false status response
          pure () : ServeM f sig Unit).run (.rejected : Talk f) fun result talk => result = .ok () → talk.Ended strict := by
      intro status response
      refine (Prog.guarantees_exceptT_bind ..).mpr ?_
      refine (Prog.guarantees_exceptT_bind ..).mpr ⟨⟨_,_,rfl,rfl⟩,fun written talk after => ?_⟩
      cases after
      exact fun _ => trivial
    subst heard
    rcases reply with fault | ⟨request,body⟩
    · cases fault with
      | endOfStream => exact fun _ => trivial
      | headerLimit => exact rejects _ _
      | timeout => exact fun _ => trivial
      | malformed message => exact rejects _ _
    · refine (Prog.guarantees_exceptT_bind ..).mpr ?_
      have dispatched := dispatch_fits turns source mannered (fits_new request body) rfl
      refine Prog.Guarantees.mono dispatched fun result talk after => ?_
      cases result with
      | error e => exact fun same => by cases same
      | ok ex =>
        obtain ⟨t,rfl,fits,answered⟩ := after ex rfl
        have next := fits.settled answered
        dsimp only
        cases closes : ex.mustClose with
        | true => exact fun _ => next.2 closes
        | false => exact @ih (.turn t) (next.1 closes)

end Handlers

section Mannered

variable {α β : Type} {answered : Bool}

/-- The program sends no response. -/
abbrev Quiet (p : Prog (Exchange sig) α) : Prop := p.Uses fun c : ExchangeCall sig => c.answers = false

theorem Mannered.bind {p : Prog (Exchange sig) α} {g : α → Prog (Exchange sig) β}
    (uses : p.Uses fun c : ExchangeCall sig => c.answers = false ∧ (c.talks = true → answered = false))
    (rest : ∀ value, Mannered answered (g value)) : Mannered answered (p >>= g) := by
  induction p with
  | ret value => exact rest value
  | call c next ih =>
    refine ⟨uses.1.2,fun reply => ?_⟩
    rw [uses.1.1,Bool.or_false]
    exact ih reply (uses.2 reply)

theorem Quiet.then {p : Prog (Exchange sig) α} {g : α → Prog (Exchange sig) β} (quiet : Quiet p)
    (rest : ∀ value, Mannered false (g value)) : Mannered false (p >>= g) :=
  Mannered.bind (quiet.mono fun _ silent => ⟨silent,fun _ => rfl⟩) rest

theorem mannered_inService (p : Prog Svc α) {g : α → Prog (Exchange Svc) β} (rest : ∀ value, Mannered answered (g value)) :
    Mannered answered (inService p >>= g) :=
  Mannered.bind (Prog.Uses.interpret (fun _ => by exact ⟨⟨rfl,fun talks => by cases talks⟩,fun _ => trivial⟩) p) rest

theorem mannered_send (response : Response) {g : Result Unit → Prog (Exchange sig) β}
    (rest : ∀ value, Mannered true (g value)) : Mannered false (exchange (.send response) >>= g) :=
  ⟨fun _ => rfl,rest⟩

theorem mannered_sendError (response : Response) {g : Unit → Prog (Exchange sig) β}
    (rest : ∀ answered, Mannered answered (g ())) : Mannered false (sendError response >>= g) := by
  refine ⟨fun _ => rfl,fun reply => ?_⟩
  cases reply with
  | true => exact rest false
  | false => exact ⟨fun _ => rfl,fun _ => rest true⟩

theorem mannered_sendResult (told : Error → Response) {p : ExceptT Error (Prog (Exchange sig)) Response} (quiet : Quiet p.run)
    {g : Outcome → Prog (Exchange sig) β} (rest : ∀ answered outcome, Mannered answered (g outcome)) :
    Mannered false (sendResult (fun e => sendError (told e)) p >>= g) := by
  unfold sendResult
  rw [LawfulMonad.bind_assoc]
  refine quiet.then fun result => ?_
  cases result with
  | error e =>
    rw [LawfulMonad.bind_assoc]
    exact mannered_sendError _ fun answered => rest answered .returned
  | ok response => exact mannered_send response fun _ => rest true .returned

theorem sendResult_mannered (told : Error → Response) {p : ExceptT Error (Prog (Exchange sig)) Response}
    (quiet : Quiet p.run) : Mannered false (sendResult (fun e => sendError (told e)) p) := by
  have whole := @mannered_sendResult sig _ told p quiet pure fun _ _ => trivial
  rwa [bind_pure] at whole

theorem serviceCall_quiet (p : SvcM α) : Quiet (serviceCall p).run :=
  Prog.Uses.interpret (fun _ => by exact ⟨rfl,fun _ => trivial⟩) p.run

theorem lift_quiet {p : Prog (Exchange sig) α} (quiet : Quiet p) : Quiet (ExceptT.lift p : ExceptT Error _ α).run :=
  quiet.bind fun _ => trivial

theorem readBodyString_quiet (maxBytes : Nat) :
    Quiet (ExceptT.mk (@exchange sig (.readBodyString maxBytes)) : ExceptT Error _ Bytes).run :=
  ⟨rfl,fun _ => trivial⟩

variable (opts : ServiceOptions) (options : HandlerOptions) (turns : Nat) (info : RequestInfo)

section

variable [BoostJson]

theorem create_quiet : Quiet (WireHandlers.create opts options info).run := by
  refine Prog.Uses.exceptT_bind (readBodyString_quiet _) fun body => ?_
  refine Prog.Uses.exceptT_bind trivial fun req => ?_
  exact Prog.Uses.exceptT_bind (serviceCall_quiet _) fun tx => trivial

theorem receive_quiet : Quiet (WireHandlers.receive opts options info).run := by
  refine Prog.Uses.exceptT_bind (readBodyString_quiet _) fun body => ?_
  refine Prog.Uses.exceptT_bind trivial fun req => ?_
  exact Prog.Uses.exceptT_bind (serviceCall_quiet _) fun tx => trivial

omit [BoostJson] in
theorem writeBody_quiet (pending : PendingUpload) : Quiet (WireHandlers.writeBody turns pending) := by
  induction turns generalizing pending with
  | zero => trivial
  | succ turns ih =>
    refine Prog.Uses.bind ⟨rfl,fun _ => trivial⟩ fun got => ?_
    cases got with
    | error e => trivial
    | ok part =>
      dsimp only
      split
      · trivial
      · refine Prog.Uses.bind (Prog.Uses.interpret (fun _ => by exact ⟨rfl,fun _ => trivial⟩) _) fun value => ?_
        obtain ⟨written,pending⟩ := value
        cases written with
        | error e => trivial
        | ok done => exact ih pending

theorem endUpload_mannered (result : Result FileEntry) (pending : PendingUpload) :
    Mannered false (WireHandlers.endUpload result pending) := by
  apply mannered_sendResult
  · exact Prog.Uses.exceptT_bind trivial fun entry => trivial
  · exact fun answered outcome => mannered_inService _ fun _ => trivial

theorem upload_mannered : Mannered false (WireHandlers.upload turns info) := by
  refine mannered_inService _ fun begun => ?_
  rcases begun with e | ⟨expected,pending⟩
  · exact mannered_sendError _ fun _ => trivial
  · refine (writeBody_quiet turns pending).then fun written => ?_
    rcases written with _ | ⟨e | done,pending⟩
    · trivial
    · exact endUpload_mannered _ pending
    · exact mannered_inService _ fun value => endUpload_mannered value.1 value.2

theorem download_mannered : Mannered false (WireHandlers.download info) := by
  refine mannered_inService _ fun found => ?_
  rcases found with e | ⟨id,path,file,tx,entry⟩
  · exact mannered_sendError _ fun _ => trivial
  · refine ⟨fun _ => rfl,fun sent => ?_⟩
    cases sent with
    | error e => trivial
    | ok done => exact mannered_inService _ fun _ => trivial

theorem wireHandlers_mannered (fn : TransactionHandler) : Mannered false (WireHandlers.run opts options turns info fn) := by
  cases fn with
  | create => exact sendResult_mannered _ (create_quiet opts options info)
  | receive => exact sendResult_mannered _ (receive_quiet opts options info)
  | upload => exact upload_mannered turns info
  | download => exact download_mannered info
  | _ => exact sendResult_mannered _ (serviceCall_quiet _)

end

theorem Mannered.onApp {p : Prog (Exchange Svc) α} (mannered : Mannered answered p) : Mannered answered (onApp p) := by
  induction p generalizing answered with
  | ret value => trivial
  | call c next ih => cases c <;> exact ⟨mannered.1,fun reply => ih reply (mannered.2 reply)⟩

theorem ofService_quiet (p : Prog Svc α) : Quiet (ofService p) :=
    Prog.Uses.interpret (fun _ => by exact ⟨rfl,fun _ => trivial⟩) p

theorem ofFront_quiet (p : Prog Front α) : Quiet (ofFront p) := Prog.Uses.interpret (fun _ => by exact ⟨rfl,fun _ => trivial⟩) p

theorem readLog_quiet (path : Bytes) (query : BizLogQuery) : Quiet (readLog path query).run := by
  unfold readLog
  split
  · trivial
  · refine Prog.Uses.exceptT_bind ⟨rfl,fun _ => trivial⟩ fun rotated => ?_
    refine Prog.Uses.exceptT_bind trivial fun first => ?_
    obtain ⟨out,more⟩ := first
    cases more with
    | false => trivial
    | true => exact Prog.Uses.exceptT_bind ⟨rfl,fun _ => trivial⟩ fun current => Prog.Uses.exceptT_bind trivial fun _ => trivial

theorem log_quiet (admin : AdminOptions) : Quiet (AdminHandlers.log admin info).run := by
  refine Prog.Uses.exceptT_bind (by unfold refuse; split <;> trivial) fun _ => ?_
  refine Prog.Uses.exceptT_bind trivial fun start => ?_
  cases start with
  | none => trivial
  | some start =>
    refine Prog.Uses.exceptT_bind trivial fun _ => ?_
    refine Prog.Uses.exceptT_bind trivial fun _ => ?_
    refine Prog.Uses.exceptT_bind (lift_quiet (ofService_quiet _)) fun now => ?_
    exact Prog.Uses.exceptT_bind (readLog_quiet _ _) fun _ => trivial

variable [BoostJson]

theorem revokeUser_quiet : Quiet (AdminHandlers.revokeUser info).run := by
  unfold AdminHandlers.revokeUser
  split
  · trivial
  · refine Prog.Uses.exceptT_bind (lift_quiet (ofFront_quiet _)) fun count => ?_
    exact Prog.Uses.exceptT_bind (lift_quiet (ofService_quiet _)) fun _ => trivial

theorem status_quiet (admin : AdminOptions) (startedAt : Int) : Quiet (AdminHandlers.status admin startedAt info).run := by
  refine Prog.Uses.exceptT_bind (lift_quiet (ofService_quiet _)) fun now => ?_
  refine Prog.Uses.exceptT_bind (lift_quiet (ofService_quiet _)) fun outgoing => ?_
  refine Prog.Uses.exceptT_bind (lift_quiet (ofFront_quiet _)) fun sessions => ?_
  exact Prog.Uses.exceptT_bind (lift_quiet (ofService_quiet _)) fun txs => trivial

theorem retention_quiet (admin : AdminOptions) : Quiet (AdminHandlers.retention opts admin info).run := by
  refine Prog.Uses.exceptT_bind trivial fun id => ?_
  refine Prog.Uses.exceptT_bind (readBodyString_quiet _) fun body => ?_
  refine Prog.Uses.exceptT_bind trivial fun days => ?_
  exact Prog.Uses.exceptT_bind (ofService_quiet _) fun tx => trivial

theorem adminHandlers_mannered (admin : AdminOptions) (startedAt : Int) (fn : AdminHandler) :
    Mannered false (AdminHandlers.run opts admin startedAt info fn) := by
  cases fn with
  | login => exact sendResult_mannered _ (Prog.Uses.exceptT_bind (ofFront_quiet _) fun _ => trivial)
  | logout => exact sendResult_mannered _ (Prog.Uses.exceptT_bind (lift_quiet (ofFront_quiet _)) fun _ => trivial)
  | list =>
    exact sendResult_mannered _ (Prog.Uses.exceptT_bind trivial fun _ =>
      Prog.Uses.exceptT_bind (lift_quiet (ofService_quiet _)) fun _ => trivial)
  | get =>
    exact sendResult_mannered _ (Prog.Uses.exceptT_bind trivial fun _ =>
      Prog.Uses.exceptT_bind (ofService_quiet _) fun _ => trivial)
  | remove =>
    exact sendResult_mannered _ (Prog.Uses.exceptT_bind trivial fun _ =>
      Prog.Uses.exceptT_bind (ofService_quiet _) fun _ => trivial)
  | retention => exact sendResult_mannered _ (retention_quiet opts info admin)
  | status => exact sendResult_mannered _ (status_quiet info admin startedAt)
  | sessions => exact sendResult_mannered _ (Prog.Uses.exceptT_bind (lift_quiet (ofFront_quiet _)) fun _ => trivial)
  | revokeUser => exact sendResult_mannered _ (revokeUser_quiet info)
  | log => exact sendResult_mannered _ (log_quiet info admin)

theorem server_mannered (api : ApiOptions) (router : Router) (fn : Handler) :
    Mannered false ((api.server turns router).handlers fn info) := by
  cases fn with
  | transaction fn => exact (wireHandlers_mannered api.service api.transactions turns info fn).onApp
  | auth fn =>
    cases fn with
    | login => exact (ofFront_quiet _).then fun _ => mannered_send _ fun _ => trivial
    | logout => exact (ofFront_quiet _).then fun _ => mannered_send _ fun _ => trivial
  | admin fn => exact adminHandlers_mannered api.service info api.admin api.startedAt fn

end Mannered

def isRequest : Event (Net f sig) → Bool
  | ⟨.readHeader,.ok _⟩ => true
  | _ => false

/-- A header that the server could not read but answers. -/
def isRejection : Event (Net f sig) → Bool
  | ⟨.readHeader,.error .headerLimit⟩ => true
  | ⟨.readHeader,.error (.malformed _)⟩ => true
  | _ => false

def isResponse : Event (Net f sig) → Bool
  | ⟨.write (.response _ _),_⟩ => true
  | ⟨.write (.fileHeader _ _),_⟩ => true
  | _ => false

/-- The responses that are still to come. -/
def Talk.owed : Talk f → Nat
  | .rejected => 1
  | .turn t => 1 - t.answers
  | _ => 0

theorem owed_step (c : NetCall f sig) (reply : c.Reply) (talk : Talk f) (allowed : talk.May True c) :
    (Talk.after c reply talk).owed + (isResponse ⟨c,reply⟩ : Bool).toNat =
      talk.owed + (isRequest ⟨c,reply⟩ : Bool).toNat + (isRejection ⟨c,reply⟩ : Bool).toNat := by
  cases talk with
  | idle =>
    cases allowed
    rcases reply with (_ | _ | _ | _) | ⟨request,body⟩ <;> rfl
  | rejected =>
    obtain ⟨head,body,rfl,_⟩ := allowed
    rfl
  | hungUp => cases allowed
  | turn t =>
    cases c with
    | readHeader =>
      have settled : t.Settled True := allowed
      have answered : t.answers ≠ 0 := settled.2.2.2.2.2.1
      rcases reply with (_ | _ | _ | _) | ⟨request,body⟩ <;>
        simp [Talk.after,Talk.owed,isResponse,isRequest,isRejection] <;> omega
    | readSome body room => rcases reply with _ | ⟨part,body⟩ <;> rfl
    | write out =>
      cases out with
      | response head body =>
        have answers : t.answers = 0 := allowed.2.1 trivial
        simp [Talk.after,Talk.owed,Turn.heard,isResponse,isRequest,isRejection,answers]
      | fileHeader head size =>
        have answers : t.answers = 0 := allowed.2.1 trivial
        simp [Talk.after,Talk.owed,Turn.heard,isResponse,isRequest,isRejection,answers]
      | _ => rfl
    | readFile room => cases reply <;> rfl
    | authenticate access request source => rfl
    | inner c => rfl

theorem owed_spoken (log : List (Event (Net f sig))) (talk : Talk f) (spoken : (conversation True).Spoken talk log) :
    ((conversation True).stage talk log).owed + log.countP isResponse =
      talk.owed + log.countP isRequest + log.countP isRejection := by
  induction log generalizing talk with
  | nil => rfl
  | cons event log ih =>
    have step := owed_step event.1 event.2 talk spoken.1
    have rest := ih _ spoken.2
    have counts : ∀ count : Event (Net f sig) → Bool,
        (event :: log).countP count = log.countP count + (count event : Bool).toNat := by
      intro count
      rw [List.countP_cons]
      cases count event <;> rfl
    rw [counts,counts,counts]
    change ((conversation True).stage (Talk.after event.1 event.2 talk) log).owed + _ = _
    change ((conversation True).stage (Talk.after event.1 event.2 talk) log).owed + _ =
      (Talk.after event.1 event.2 talk).owed + _ + _ at rest
    obtain ⟨c,reply⟩ := event
    dsimp only at step rest ⊢
    omega

/-- A connection from its first byte on: how it ended, and all that was done on it. -/
def HttpServer.converse [BoostJson] {W : Type} (server : HttpServer sig) (network : Prog.Handler (Net f sig) W) (turns : Nat)
    (source : Bytes) (rounds : Nat) (w : W) : Except Unit Unit × W × List (Event (Net f sig)) :=
  (server.serveRequests turns source rounds : ServeM f sig Unit).run.run (Prog.logged network) (w,[])

theorem converse_spoken [BoostJson] {W : Type} {strict : Prop} {server : HttpServer sig}
    (mannered : strict → ∀ fn info, Mannered false (server.handlers fn info)) (network : Prog.Handler (Net f sig) W)
    (turns : Nat) (source : Bytes) (rounds : Nat) (w : W) :
    (conversation strict).Spoken .idle (server.converse network turns source rounds w).2.2 ∧
      ((server.converse network turns source rounds w).1 = .ok () →
        ((conversation strict).stage .idle (server.converse network turns source rounds w).2.2).Ended strict) :=
  (@serveRequests_keeps f sig strict server _ turns source mannered rounds .idle rfl).spoken network w

theorem Talk.Ended.owed {talk : Talk f} (ended : talk.Ended True) : talk.owed = 0 := by
  cases talk with
  | turn t =>
    have answered : t.answers ≠ 0 := ended.1
    simp only [Talk.owed]
    omega
  | rejected => exact ended.elim
  | _ => rfl

/-- Whatever comes in and whatever fails, what is read and written on a connection follows the protocol: one response to
each request and nothing read behind it, a connection that is kept only as promised, and promised only with the body read to
its end. The server hangs up for a reason, and then owes no response. -/
theorem one_answer_per_request [BoostJson] {W : Type} (api : ApiOptions) (router : Router) (network : Prog.Handler (Net f App) W)
    (turns : Nat) (source : Bytes) (rounds : Nat) (w : W) :
    let ended := (api.server turns router).converse network turns source rounds w
    (conversation True).Spoken .idle ended.2.2 ∧
      (ended.1 = .ok () → ((conversation True).stage .idle ended.2.2).Ended True ∧
        ended.2.2.countP isResponse = ended.2.2.countP isRequest + ended.2.2.countP isRejection) := by
  intro ended
  have spoken := converse_spoken (fun _ : True => fun fn info => server_mannered turns info api router fn) network turns source
    rounds w
  refine ⟨spoken.1,fun finished => ⟨spoken.2 finished,?_⟩⟩
  have owed := owed_spoken _ _ spoken.1
  rw [(spoken.2 finished).owed] at owed
  simpa [Talk.owed] using owed

namespace Sample

def line : Bytes → Option (Bytes × Bytes)
  | 13 :: 10 :: rest => some ([],rest)
  | b :: rest => (line rest).map fun (line,behind) => (b :: line,behind)
  | [] => none

/-- The fields of a header, up to the empty line. -/
def fields : Nat → Bytes → Option (List (Bytes × Bytes) × Bytes)
  | 0, _ => none
  | more + 1, text => match line text with
    | none => none
    | some ([],behind) => some ([],behind)
    | some (field,behind) => (fields more behind).map fun (others,behind) =>
      ((field.takeWhile (· ≠ 58),(field.dropWhile (· ≠ 58)).drop 2) :: others,behind)

/-- A request whose body, if it has one, is announced with its length. -/
def parseRequest (text : Bytes) : Option (RequestHeader × Nat × Bytes) :=
  match line text with
  | none => none
  | some (start,behind) => match start.splitOn 32,fields 20 behind with
    | [method,target,version],some (fields,behind) =>
      if version = ascii "HTTP/1.1" then
        let value := fun name => (fields.find? fun field => iequals field.1 (ascii name)).elim [] (·.2)
        let length := (fromChars (2^64 - 1) (value "Content-Length")).map (·.1)
        some ({ method := if method = ascii "GET" then .get else if method = ascii "POST" then .post else .unknown,
                target := target, version := 11, keepAlive := !iequals (value "Connection") (ascii "close"),
                expect := value "Expect", authorization := value "Authorization",
                checksum := value "X-Checksum-SHA256", contentLength := length },length.getD 0,behind)
      else none
    | _,_ => none

def framing : Framing UInt8 RequestHeader := Framing.counted parseRequest

def settings : AuthSettings := ⟨sha256,ascii "admins",[],⟨3600,900,20,3600,900⟩,{}⟩

/-- Bytes that have all arrived, a store and the sessions. -/
def network : Prog.Handler (Net framing App) (Bytes × World × FrontState)
  | .readHeader, (unread,w) => match framing.header unread with
    | some (request,body,rest) => (.ok (request,body),rest,w)
    | none => (.error .endOfStream,unread,w)
  | .readSome body room, (unread,w) =>
    let read := framing.read body room unread.length unread
    (.ok (read.1,read.2.1),read.2.2,w)
  | .write _, line => (.ok (),line)
  | .readFile _, line => (.ok [],line)
  | .authenticate _ _ _, line => (.ok alice,line)
  | .inner (.service c), (unread,w,s) => ((Svc.handle sha256 env c w).1,unread,(Svc.handle sha256 env c w).2,s)
  | .inner (.front c), (unread,w,s) => ((s.perform settings c).1,unread,w,(s.perform settings c).2)
  | .inner (.openLog _), line => (.missing,line)

def listRoute : Route := ⟨.get,ascii "/transactions",.user,some (.transaction .list)⟩

def api : ApiOptions := ⟨opts,⟨1000⟩,{},1000⟩

def router : Router := ⟨[⟨listRoute,[⟨ascii "transactions",false,false⟩]⟩]⟩

/-- A list, and a page that does not exist with a body that nobody reads. -/
def twoRequests : Bytes := ascii "GET /transactions HTTP/1.1\r\nHost: siteA\r\n\r\n" ++
  ascii "POST /nothing HTTP/1.1\r\nHost: siteA\r\nContent-Length: 2\r\n\r\nhi"

def twoRequestsArrived : Bytes × World × FrontState :=
  (twoRequests,Server.empty.world,(FrontDesk.fresh ⟨fun _ _ => denied [],fun _ _ => false⟩ 1000).shared)

end Sample

theorem two_requests_two_answers :
    let ended := (Sample.api.server 5 Sample.router).converse Sample.network 5 [] 5 Sample.twoRequestsArrived
    ended.1 = .ok () ∧ ended.2.2.countP isRequest = 2 ∧ ended.2.2.countP isResponse = 2 ∧ ended.2.1.1 = ascii "hi" := by
  have follows := one_answer_per_request Sample.api Sample.router Sample.network 5 [] 5 Sample.twoRequestsArrived
  have counted : let ended := (Sample.api.server 5 Sample.router).converse Sample.network 5 [] 5 Sample.twoRequestsArrived
      ended.1 = .ok () ∧ ended.2.2.countP isRequest = 2 ∧ ended.2.2.countP isRejection = 0 ∧ ended.2.1.1 = ascii "hi" := by
    decide +kernel
  refine ⟨counted.1,counted.2.1,?_,counted.2.2.2⟩
  rw [(follows.2 counted.1).2,counted.2.1,counted.2.2.1]

end Confide
