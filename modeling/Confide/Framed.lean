import Confide.Turns

/-! What a connection takes for requests is what the client sent as such: the server never reads a header out of a body,
whatever its handlers leave unread and whatever fails. A text body is all of the body. -/
namespace Confide

open Bytes Resumption Resumption.Prog Streams

variable {f : Framing UInt8 RequestHeader} {sig : Signature} {W : Type}

/-- The network brings the bytes of one stream, in whatever pieces. -/
structure Conforms (f : Framing UInt8 RequestHeader) (unread : W → Bytes) (network : Prog.Handler (Net f sig) W) : Prop where
  header : ∀ {w request body}, (network .readHeader w).1 = .ok (request,body) →
    f.header (unread w) = some (request,body,unread (network .readHeader w).2)
  read : ∀ {w body room part left}, (network (.readSome body room) w).1 = .ok (part,left) →
    ∃ arrived, f.read body room arrived (unread w) = (part,left,unread (network (.readSome body room) w).2)
  write : ∀ {w out}, unread (network (.write out) w).2 = unread w
  readFile : ∀ {w room}, unread (network (.readFile room) w).2 = unread w
  authenticate : ∀ {w access request source}, unread (network (.authenticate access request source) w).2 = unread w
  inner : ∀ {w c}, unread (network (.inner c) w).2 = unread w

def addPart (part : Bytes) (requests : List (RequestHeader × Bytes)) : List (RequestHeader × Bytes) :=
  requests.dropLast ++ (requests.getLast?.map fun last => (last.1,last.2 ++ part)).toList

@[simp] theorem addPart_append (part got : Bytes) (earlier : List (RequestHeader × Bytes)) (request : RequestHeader) :
    addPart part (earlier ++ [(request,got)]) = earlier ++ [(request,got ++ part)] := by simp [addPart]

def receive (requests : List (RequestHeader × Bytes)) : Event (Net f sig) → List (RequestHeader × Bytes)
  | ⟨.readHeader,.ok (request,_)⟩ => requests ++ [(request,[])]
  | ⟨.readSome _ _,.ok (part,_)⟩ => addPart part requests
  | _ => requests

/-- The requests read so far, each with what was read of its body. -/
def received (log : List (Event (Net f sig))) : List (RequestHeader × Bytes) := log.foldl receive []

@[simp] theorem received_append (log : List (Event (Net f sig))) (event : Event (Net f sig)) :
    received (log ++ [event]) = receive (received log) event := by simp [received]

/-- How far the requests reach into the stream, as far as the server could know. -/
def ReachesInto (input left : Bytes) (requests : List (RequestHeader × Bytes)) : Talk f → Prop
  | .idle => requests = [] ∧ left = input
  | .turn t => t.readable = true → f.Upto t.body left input requests
  | _ => True

section Step

variable {unread : W → Bytes} {network : Prog.Handler (Net f sig) W} {strict : Prop} {input : Bytes} {w : W}
  {requests : List (RequestHeader × Bytes)}

theorem readHeader_reaches (conforms : Conforms f unread network) {talk : Talk f}
    (allowed : talk.May strict (.readHeader : NetCall f sig)) (framed : f.Framed input requests)
    (reaches : ReachesInto input (unread w) requests talk) :
    let after := network .readHeader w
    f.Framed input (receive requests (⟨.readHeader,after.1⟩ : Event (Net f sig))) ∧
      ReachesInto input (unread after.2) (receive requests (⟨.readHeader,after.1⟩ : Event (Net f sig)))
        (Talk.after (.readHeader : NetCall f sig) after.1 talk) := by
  intro after
  cases read : after.1 with
  | error fault => cases fault <;> exact ⟨framed,trivial⟩
  | ok value =>
    obtain ⟨request,body⟩ := value
    have starts := conforms.header read
    have upto : f.Upto body (unread after.2) input (requests ++ [(request,[])]) := by
      cases talk with
      | idle =>
        rw [reaches.1]
        exact Framing.upto_header (reaches.2 ▸ starts)
      | turn t =>
        have settled : t.Settled strict := allowed
        exact (reaches settled.2.1).next settled.1 starts
      | rejected =>
        obtain ⟨head,body,same,_⟩ := allowed
        cases same
      | hungUp => cases allowed
    exact ⟨upto.framed,fun _ => upto⟩

theorem readSome_reaches (conforms : Conforms f unread network) {t : Turn f} {body : f.Body} {room : Nat}
    (allowed : t.May strict (.readSome body room : NetCall f sig)) (reaches : f.Upto t.body (unread w) input requests) :
    let after := network (.readSome body room) w
    f.Framed input (receive requests (⟨.readSome body room,after.1⟩ : Event (Net f sig))) ∧
      ReachesInto input (unread after.2) (receive requests (⟨.readSome body room,after.1⟩ : Event (Net f sig)))
        (.turn (t.heard (.readSome body room : NetCall f sig) after.1)) := by
  intro after
  cases read : after.1 with
  | error fault => exact ⟨reaches.framed,fun readable => by cases readable⟩
  | ok value =>
    obtain ⟨part,left⟩ := value
    obtain ⟨arrived,got⟩ := conforms.read read
    obtain ⟨earlier,request,before,rfl⟩ := reaches.append
    have unfinished : f.done t.body = false := by
      rw [show t.body = body from allowed.1]
      exact allowed.2.1
    have upto := @Framing.Upto.read _ _ f _ _ _ _ _ _ room arrived reaches unfinished
    rw [show t.body = body from allowed.1,got] at upto
    rw [receive,addPart_append]
    exact ⟨upto.framed,fun _ => upto⟩

theorem step_reaches (conforms : Conforms f unread network) (c : NetCall f sig) {talk : Talk f} (allowed : talk.May strict c)
    (framed : f.Framed input requests) (reaches : ReachesInto input (unread w) requests talk) :
    f.Framed input (receive requests (⟨c,(network c w).1⟩ : Event (Net f sig))) ∧
      ReachesInto input (unread (network c w).2) (receive requests (⟨c,(network c w).1⟩ : Event (Net f sig)))
        (Talk.after c (network c w).1 talk) := by
  by_cases header : c = .readHeader
  · subst header
    exact readHeader_reaches conforms allowed framed reaches
  cases talk with
  | idle => exact absurd allowed header
  | hungUp => cases allowed
  | rejected =>
    obtain ⟨head,body,rfl,_⟩ := allowed
    exact ⟨framed,trivial⟩
  | turn t =>
    rw [after_turn header]
    cases c with
    | readHeader => exact absurd rfl header
    | readSome body room => exact readSome_reaches conforms allowed (reaches allowed.2.2.1)
    | write out =>
      refine ⟨framed,fun readable => ?_⟩
      rw [conforms.write]
      cases out <;> exact reaches readable
    | readFile room =>
      refine ⟨framed,fun readable => ?_⟩
      rw [conforms.readFile]
      revert readable
      cases (network (.readFile room) w).1 <;> exact reaches
    | authenticate access request source =>
      refine ⟨framed,fun readable => ?_⟩
      rw [conforms.authenticate]
      exact reaches readable
    | inner c =>
      refine ⟨framed,fun readable => ?_⟩
      rw [conforms.inner]
      exact reaches readable

end Step

/-- The requests that are served are the messages of the stream, in their order, from its first byte on. Each but the last
was read to the end of its body before the next was looked for. -/
theorem requests_are_framed [BoostJson] (server : HttpServer sig) {unread : W → Bytes} {network : Prog.Handler (Net f sig) W}
    (conforms : Conforms f unread network) (turns : Nat) (source : Bytes) (rounds : Nat) (w : W) :
    f.Framed (unread w) (received (server.converse network turns source rounds w).2.2) := by
  have keeps := @serveRequests_keeps f sig False server _ turns source (fun never => never.elim) rounds .idle rfl
  have held := keeps.invariant network (fun w' log => f.Framed (unread w) (received log) ∧
    ReachesInto (unread w) (unread w') (received log) ((conversation False).stage .idle log)) (fun c w' log allowed holds => by
      rw [received_append,Protocol.stage_append]
      exact step_reaches conforms c allowed holds.1 holds.2) w ⟨.none,rfl,rfl⟩
  exact held.1.1

theorem sample_conforms : Conforms Sample.framing Prod.fst Sample.network where
  header := by
    rintro ⟨unread,w⟩ request body read
    unfold Sample.network at read ⊢
    dsimp only at read ⊢
    split at read
    · rename_i starts
      cases read
      rw [starts]
    · cases read
  read := by
    rintro ⟨unread,w⟩ body room part left read
    cases read
    exact ⟨unread.length,rfl⟩
  write := fun {w out} => rfl
  readFile := fun {w room} => rfl
  authenticate := fun {w access request source} => rfl
  inner := fun {w c} => by cases c <;> rfl

theorem unread_body_is_no_request :
    let log := ((Sample.api.server 5 Sample.router).converse Sample.network 5 [] 5 Sample.twoRequestsArrived).2.2
    Sample.framing.Framed Sample.twoRequests (received log) ∧ (received log).map (fun r => (r.1.target,r.1.contentLength,r.2)) =
      [(ascii "/transactions",none,[]),(ascii "/nothing",some 2,[])] := by
  constructor
  · exact requests_are_framed (Sample.api.server 5 Sample.router) sample_conforms 5 [] 5 Sample.twoRequestsArrived
  · decide +kernel

section Texts

variable {unread : W → Bytes} {network : Prog.Handler (Net f sig) W} {ex : SessionExchange f} {w : W}

structure Advanced (unread : W → Bytes) (ex : SessionExchange f) (w : W) (part : Bytes) (ex' : SessionExchange f) (w' : W) :
    Prop where
  body : f.whole ex.body (unread w) = (f.whole ex'.body (unread w')).map fun rest => (part ++ rest.1,rest.2)
  ends : part = [] → f.done ex'.body = true
  request : ex'.request = ex.request

section

variable (conforms : Conforms f unread network)
include conforms

theorem readLoop_advances (turns room : Nat) :
    Leads network (ex.readLoop room turns) w fun result w' => ∀ part ex', result = .ok (.ok part,ex') →
      part.length ≤ room ∧ Advanced unread ex w part ex' w' := by
  induction turns generalizing ex w with
  | zero => exact fun _ _ same => by cases same
  | succ turns ih =>
    unfold SessionExchange.readLoop
    split
    · rename_i finished
      intro part ex' same
      cases same
      exact ⟨Nat.zero_le _,by simp,fun _ => finished,rfl⟩
    · rename_i unfinished
      refine leads_lift_bind.mpr ?_
      rw [run_perform]
      cases read : (network (.readSome ex.body room) w).1 with
      | error fault => cases fault <;> exact fun _ _ same => by cases same
      | ok value =>
        obtain ⟨part,left⟩ := value
        obtain ⟨arrived,got⟩ := conforms.read read
        have whole := @Framing.read_whole _ _ f ex.body room arrived (unread w)
          (by simpa [SessionExchange.isDone] using unfinished)
        have fits := @Framing.read_fits _ _ f ex.body room arrived (unread w)
        rw [got] at whole fits
        dsimp only
        split
        · rename_i some_
          intro part' ex' same
          cases same
          exact ⟨fits,whole,fun none => absurd none some_,rfl⟩
        · rename_i none_
          have empty : part = [] := by simpa using none_
          intro part' ex' same
          obtain ⟨short,further⟩ := @ih { ex with body := left } _ part' ex' same
          refine ⟨short,whole.trans ?_,further.ends,further.request⟩
          rw [further.body,Framing.map_parts,empty]
          rfl

theorem sendContinue_advances :
    Leads network ex.sendContinue w fun result w' => ∃ sent ex', result = .ok (sent,ex') ∧ ex'.body = ex.body ∧
      ex'.request = ex.request ∧ ex'.close = ex.close ∧ unread w' = unread w := by
  unfold SessionExchange.sendContinue
  split
  · exact ⟨true,ex,rfl,rfl,rfl,rfl,rfl⟩
  · dsimp only
    split
    · exact ⟨true,_,rfl,rfl,rfl,rfl,rfl⟩
    · exact leads_lift_bind.mpr ⟨_,_,rfl,rfl,rfl,rfl,conforms.write⟩

theorem readBody_advances (turns room : Nat) :
    Leads network (ex.readBody turns room) w fun result w' => ∀ part ex', result = .ok (.ok part,ex') →
      part.length ≤ room ∧ Advanced unread ex w part ex' w' := by
  unfold SessionExchange.readBody
  split
  · exact fun _ _ same => by cases same
  · refine leads_bind.mpr ((sendContinue_advances conforms).mono fun result w' sent => ?_)
    obtain ⟨sent,ex',rfl,body,request,_,same⟩ := sent
    dsimp only
    split
    · exact fun _ _ same => by cases same
    · refine (readLoop_advances conforms turns room).mono fun result w'' read part ex'' got => ?_
      obtain ⟨short,further⟩ := read part ex'' got
      refine ⟨short,?_,further.ends,further.request.trans request⟩
      rw [← body,← same]
      exact further.body

theorem stringLoop_whole (reads maxBytes room turns : Nat) (out : Bytes)
    (short : out.length ≤ maxBytes) :
    Leads network (ex.stringLoop reads maxBytes room turns out) w fun result w' => ∀ text ex', result = .ok (.ok text,ex') →
      text.length ≤ maxBytes ∧ ∃ payload, text = out ++ payload ∧ f.whole ex.body (unread w) = some (payload,unread w') := by
  induction turns generalizing ex w out with
  | zero => exact fun _ _ same => by cases same
  | succ turns ih =>
    unfold SessionExchange.stringLoop
    refine leads_bind.mpr ((readBody_advances conforms reads room).mono fun result w' read => ?_)
    rcases result with _ | ⟨e | part,ex'⟩
    · exact fun _ _ same => by cases same
    · exact fun _ _ same => by cases same
    · obtain ⟨_,further⟩ := read part ex' rfl
      dsimp only
      split
      · rename_i empty
        intro text ex'' same
        cases same
        refine ⟨short,[],by simp,?_⟩
        rw [further.body,f.done_whole (further.ends empty),empty]
        rfl
      · split
        · exact fun _ _ same => by cases same
        · rename_i fits
          refine Leads.mono (ih (out ++ part) (by simp only [List.length_append]; omega))
            fun result w'' rest text ex'' same => ?_
          obtain ⟨bounded,payload,whole,left⟩ := rest text ex'' same
          refine ⟨bounded,part ++ payload,by simp [whole],?_⟩
          rw [further.body,left]
          rfl

end

/-- From these states on every read succeeds, and so does telling the client to go on; all that was sent has arrived. -/
structure Smooth (f : Framing UInt8 RequestHeader) (unread : W → Bytes) (network : Prog.Handler (Net f sig) W)
    (flows : W → Prop) : Prop extends Conforms f unread network where
  reads : ∀ w body room, flows w → ∃ arrived, (unread w).length ≤ arrived ∧
    (network (.readSome body room) w).1 =
      .ok ((f.read body room arrived (unread w)).1,(f.read body room arrived (unread w)).2.1)
  reads_on : ∀ w body room, flows w → flows (network (.readSome body room) w).2
  writes : ∀ {w}, flows w → (network (.write .continue) w).1 = .ok ()
  writes_on : ∀ {w}, flows w → flows (network (.write .continue) w).2

variable {flows : W → Prop}

theorem readLoop_flows (smooth : Smooth f unread network flows) (turns : Nat) {room : Nat} (some_ : 0 < room) (good : flows w)
    (there : (f.whole ex.body (unread w)).isSome) :
    Leads network (ex.readLoop room (turns + 2)) w fun result w' => ∃ part ex', result = .ok (.ok part,ex') ∧
      ex'.close = ex.close ∧ flows w' := by
  unfold SessionExchange.readLoop
  split
  · exact ⟨[],ex,rfl,rfl,good⟩
  · rename_i unfinished
    refine leads_lift_bind.mpr ?_
    obtain ⟨arrived,all,read⟩ := smooth.reads w ex.body room good
    have goes := smooth.reads_on w ex.body room good
    rw [run_perform,read]
    have moves := f.read_moves (by simpa [SessionExchange.isDone] using unfinished) there some_ all
    dsimp only
    split
    · exact ⟨_,_,rfl,rfl,goes⟩
    · rename_i empty
      have finished : f.done (f.read ex.body room arrived (unread w)).2.1 = true := moves.resolve_left (by simpa using empty)
      unfold SessionExchange.readLoop
      rw [if_pos (by simpa [SessionExchange.isDone] using finished)]
      exact ⟨[],_,rfl,rfl,goes⟩

theorem readBody_flows (smooth : Smooth f unread network flows) (turns : Nat) {room : Nat} (some_ : 0 < room) (good : flows w)
    (there : (f.whole ex.body (unread w)).isSome) (open_ : ex.close = false) :
    Leads network (ex.readBody (turns + 2) room) w fun result w' => ∃ part ex', result = .ok (.ok part,ex') ∧
      ex'.close = false ∧ flows w' := by
  unfold SessionExchange.readBody
  rw [if_neg (by simp [open_])]
  refine leads_bind.mpr ?_
  have continues : Leads network ex.sendContinue w fun result w' => ∃ ex', result = .ok (true,ex') ∧ ex'.body = ex.body ∧
      ex'.close = false ∧ unread w' = unread w ∧ flows w' := by
    unfold SessionExchange.sendContinue
    split
    · exact ⟨ex,rfl,rfl,open_,rfl,good⟩
    · dsimp only
      split
      · exact ⟨_,rfl,rfl,open_,rfl,good⟩
      · refine leads_lift_bind.mpr ⟨{ ex with continueSent := true },?_,rfl,open_,smooth.write,smooth.writes_on good⟩
        rw [run_perform,smooth.writes good]
        rfl
  refine continues.mono fun result w' sent => ?_
  obtain ⟨ex',rfl,body,open_',same,good'⟩ := sent
  refine (readLoop_flows smooth turns some_ good' (by rw [body,same]; exact there)).mono fun result w'' read => ?_
  obtain ⟨part,ex'',got,close,good''⟩ := read
  exact ⟨part,ex'',got,close.trans open_',good''⟩

theorem stringLoop_flows (smooth : Smooth f unread network flows) (reads : Nat) {maxBytes room : Nat} (some_ : 0 < room)
    (turns : Nat) (out payload rest : Bytes) (short : out.length ≤ maxBytes) (good : flows w)
    (there : f.whole ex.body (unread w) = some (payload,rest)) (enough : payload.length < turns) (open_ : ex.close = false) :
    Leads network (ex.stringLoop (reads + 2) maxBytes room turns out) w fun result _ => ∃ ex',
      result = .ok (if out.length + payload.length ≤ maxBytes then .ok (out ++ payload)
        else .error RequestContext.tooLarge,ex') := by
  induction turns generalizing ex w out payload with
  | zero => exact absurd enough (Nat.not_lt_zero _)
  | succ turns ih =>
    unfold SessionExchange.stringLoop
    refine leads_bind.mpr ?_
    have flowing := readBody_flows smooth reads some_ good (by rw [there]; rfl) open_
    have advances := @readBody_advances f sig W unread network ex w smooth.toConforms (reads + 2) room
    unfold Leads at flowing advances ⊢
    obtain ⟨part,ex',got,open_',good'⟩ := flowing
    obtain ⟨_,further⟩ := advances part ex' got
    rw [got]
    have left := further.body
    rw [there] at left
    obtain ⟨after,behind,same⟩ := Option.map_eq_some_iff.mp left.symm
    cases same
    dsimp only
    by_cases empty : part = []
    · rw [if_pos empty]
      rw [f.done_whole (further.ends empty)] at behind
      cases behind
      exact ⟨ex',by simp [empty,short]⟩
    · rw [if_neg empty]
      have nonempty : 0 < part.length := List.length_pos_of_ne_nil empty
      rw [List.length_append] at enough
      split
      · rename_i long
        refine ⟨ex'.shut,?_⟩
        rw [if_neg (by rw [List.length_append]; omega)]
        rfl
      · rename_i fits
        have grown : (out ++ part).length ≤ maxBytes := by
          rw [List.length_append]
          omega
        obtain ⟨ex'',rest⟩ := @ih ex' _ (out ++ part) after.1 grown good' behind (by omega) open_'
        rw [List.length_append,Nat.add_assoc,← List.length_append,List.append_assoc] at rest
        exact ⟨ex'',rest⟩

theorem readBodyString_whole (conforms : Conforms f unread network) (turns maxBytes : Nat) :
    Leads network (ex.readBodyString turns maxBytes) w fun result w' => ∀ text ex', result = .ok (.ok text,ex') →
      text.length ≤ maxBytes ∧ f.whole ex.body (unread w) = some (text,unread w') := by
  have loop : ∀ room, Leads network (ex.stringLoop turns maxBytes room turns []) w fun result w' => ∀ text ex',
      result = .ok (.ok text,ex') → text.length ≤ maxBytes ∧ f.whole ex.body (unread w) = some (text,unread w') := by
    intro room
    refine (stringLoop_whole conforms turns maxBytes room turns [] (Nat.zero_le _)).mono fun result w' read text ex' same => ?_
    obtain ⟨bounded,payload,rfl,left⟩ := read text ex' same
    exact ⟨bounded,left⟩
  unfold SessionExchange.readBodyString
  dsimp only
  split
  · split
    · exact fun _ _ same => by cases same
    · exact loop _
  · exact loop _

theorem readBodyString_flows (smooth : Smooth f unread network flows) {turns maxBytes : Nat} (room : maxBytes + 1 < 2^64)
    (good : flows w) {payload rest : Bytes} (there : f.whole ex.body (unread w) = some (payload,rest))
    (enough : payload.length + 1 < turns)
    (open_ : ex.close = false) (length : ∀ n, ex.request.contentLength = some n → n = payload.length) :
    Leads network (ex.readBodyString turns maxBytes) w fun result _ => ∃ ex',
      result = .ok (if payload.length ≤ maxBytes then .ok payload else .error RequestContext.tooLarge,ex') := by
  obtain ⟨reads,rfl⟩ : ∃ reads, turns = reads + 2 := ⟨turns - 2,by omega⟩
  have some_ : 0 < min ((maxBytes + 1) % 2^64) (64 * 1024) := by
    rw [Nat.mod_eq_of_lt room]
    omega
  have loop := @stringLoop_flows f sig W unread network ex w flows smooth reads maxBytes _ some_ (reads + 2) [] payload rest
    (Nat.zero_le _) good there (by omega) open_
  rw [List.length_nil,Nat.zero_add,List.nil_append] at loop
  unfold SessionExchange.readBodyString
  dsimp only
  split
  · rename_i n announced
    split
    · rename_i long
      refine ⟨ex,?_⟩
      rw [if_neg (by rw [← length n announced]; omega)]
      rfl
    · exact loop
  · exact loop

/-- A text body is all of the body or it is not accepted, whatever the network does. If no read of it fails it is accepted
exactly when it is not too long, in whatever pieces it comes. -/
theorem text_body_is_the_body (conforms : Conforms f unread network) (ex : SessionExchange f) (w : W) (turns maxBytes : Nat) :
    (∀ text ex' w', (ex.readBodyString turns maxBytes).run.run network w = (.ok (.ok text,ex'),w') →
      text.length ≤ maxBytes ∧ f.whole ex.body (unread w) = some (text,unread w')) ∧
    (∀ flows : W → Prop, Smooth f unread network flows → flows w → maxBytes + 1 < 2^64 → ex.close = false →
      ∀ payload rest, f.whole ex.body (unread w) = some (payload,rest) →
      (∀ n, ex.request.contentLength = some n → n = payload.length) → payload.length + 1 < turns →
      ∃ ex' w', (ex.readBodyString turns maxBytes).run.run network w =
        (.ok (if payload.length ≤ maxBytes then .ok payload else .error RequestContext.tooLarge,ex'),w')) := by
  constructor
  · intro text ex' w' run
    have whole := @readBodyString_whole f sig W unread network ex w conforms turns maxBytes
    unfold Leads at whole
    rw [run] at whole
    exact whole text ex' rfl
  · intro flows smooth good room open_ payload rest there length enough
    obtain ⟨ex',result⟩ := readBodyString_flows smooth room good there enough open_ length
    exact ⟨ex',_,Prod.ext result rfl⟩

end Texts

theorem sample_smooth : Smooth Sample.framing Prod.fst Sample.network fun _ => True where
  toConforms := sample_conforms
  reads := fun w _ _ _ => ⟨w.1.length,Nat.le_refl _,rfl⟩
  reads_on := fun _ _ _ _ => trivial
  writes := fun _ => rfl
  writes_on := fun _ => trivial

namespace Sample

def textRequest : Bytes := ascii "POST /transactions HTTP/1.1\r\nContent-Length: 3\r\n\r\nhi!GET"

end Sample

/-- What is left of the stream is the next request. -/
theorem text_of_three_bytes : ∃ request behind, Sample.framing.header Sample.textRequest = some (request,(3 : Nat),behind) ∧
    ∃ ex' w', (({ request := request, body := (3 : Nat) } : SessionExchange Sample.framing).readBodyString 9 4).run.run
      Sample.network (behind,Sample.twoRequestsArrived.2) = (.ok (.ok (ascii "hi!"),ex'),w') := by
  obtain ⟨request,starts,length⟩ : ∃ request : RequestHeader,
      Sample.parseRequest Sample.textRequest = some (request,3,ascii "hi!GET") ∧ request.contentLength = some 3 := by
    refine ⟨⟨.post,ascii "/transactions",11,true,[],[],[],some 3⟩,by decide +kernel,rfl⟩
  have told : ∀ n, request.contentLength = some n → n = (ascii "hi!").length := by
    intro n announced
    rw [length] at announced
    cases announced
    rfl
  refine ⟨request,ascii "hi!GET",starts,?_⟩
  exact (text_body_is_the_body sample_conforms _ (ascii "hi!GET",Sample.twoRequestsArrived.2) 9 4).2 _ sample_smooth trivial
    (by decide) rfl (ascii "hi!") (ascii "GET") rfl told (by decide)

end Confide
