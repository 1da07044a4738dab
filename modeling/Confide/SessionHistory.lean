import Confide.Sessions

/-! A token is accepted exactly if the history of the calls says so, although the store forgets expired sessions at
no fixed time. -/
namespace Confide

open Bytes SessionStore Table

section

variable (user : Bytes) (scope : Scope) (entries : List (Sha256Digest × Session)) (found : Nat × Option (Sha256Digest × Session))
include user scope entries found

theorem scan_counts :
    (entries.foldl (countOldest user scope) found).1 = found.1 + entries.countP (isOf user scope) := by
  induction entries generalizing found with
  | nil => rfl
  | cons entry entries ih =>
    rw [List.foldl_cons,ih,List.countP_cons]
    unfold countOldest
    cases isOf user scope entry with
    | false => simp
    | true => cases found.2 <;> simp <;> omega

/-- What is found is one of the sessions of the user, or was found before; and none of them is older. -/
theorem scan_finds (oldest : Sha256Digest × Session)
    (result : (entries.foldl (countOldest user scope) found).2 = some oldest) :
    (found.2 = some oldest ∨ oldest ∈ entries ∧ isOf user scope oldest = true) ∧
      (∀ other, found.2 = some other → oldest.2.created ≤ other.2.created) ∧
      ∀ other ∈ entries, isOf user scope other = true → oldest.2.created ≤ other.2.created := by
  induction entries generalizing found with
  | nil => exact ⟨.inl result,fun other same => by rw [Option.some.inj (result.symm.trans same)],nofun⟩
  | cons entry entries ih =>
    obtain ⟨source,earlier,least⟩ := ih _ result
    simp only [List.mem_cons,forall_eq_or_imp]
    unfold countOldest at source earlier
    cases mine : isOf user scope entry with
    | false =>
      simp only [mine,Bool.not_false,↓reduceIte] at source earlier
      refine ⟨?_,earlier,nofun,least⟩
      exact source.imp_right fun ⟨member,his⟩ => ⟨.inr member,his⟩
    | true =>
      simp only [mine,Bool.not_true,Bool.false_eq_true,↓reduceIte] at source earlier
      cases before : found.2 with
      | none =>
        simp only [before] at source earlier
        refine ⟨.inr ?_,nofun,fun _ => earlier entry rfl,least⟩
        rcases source with same | ⟨member,his⟩
        · cases same
          exact ⟨.inl rfl,mine⟩
        · exact ⟨.inr member,his⟩
      | some other =>
        simp only [before] at source earlier
        by_cases older : entry.2.created < other.2.created
        · simp only [older,↓reduceIte] at source earlier
          have bound := earlier entry rfl
          refine ⟨.inr ?_,?_,fun _ => bound,least⟩
          · rcases source with same | ⟨member,his⟩
            · cases same
              exact ⟨.inl rfl,mine⟩
            · exact ⟨.inr member,his⟩
          · intro _ same
            cases same
            omega
        · simp only [older,↓reduceIte] at source earlier
          have bound := earlier other rfl
          refine ⟨?_,fun _ same => Option.some.inj same ▸ bound,fun _ => by omega,least⟩
          exact source.imp_right fun ⟨member,his⟩ => ⟨.inr member,his⟩

theorem scan_none (result : (entries.foldl (countOldest user scope) found).2 = none) :
    found.2 = none ∧ ∀ entry ∈ entries, isOf user scope entry = false := by
  induction entries generalizing found with
  | nil => exact ⟨result,nofun⟩
  | cons entry entries ih =>
    obtain ⟨none,others⟩ := ih _ result
    unfold countOldest at none
    cases mine : isOf user scope entry with
    | false =>
      simp only [mine,Bool.not_false,↓reduceIte] at none
      exact ⟨none,by simpa [mine] using others⟩
    | true =>
      simp only [mine,Bool.not_true,Bool.false_eq_true,↓reduceIte] at none
      split at none
      · contradiction
      · dsimp only at none
        split at none <;> contradiction

end

/-- The session to go is the oldest of the user, and there are as many as allowed. -/
theorem SessionStore.oldestOf_spec {store : SessionStore} {opts : SessionOptions}
    (goes : store.oldestOf opts user scope = some digest) :
    ∃ s, (digest,s) ∈ store.table ∧ isOf user scope (digest,s) = true ∧
      (∀ other ∈ store.table, isOf user scope other = true → s.created ≤ other.2.created) ∧
      opts.maxPerUser ≤ store.table.countP (isOf user scope) := by
  have counted := scan_counts user scope store.table (0,none)
  have found := scan_finds user scope store.table (0,none)
  unfold oldestOf at goes
  generalize store.table.foldl (countOldest user scope) (0,none) = result at counted found goes
  obtain ⟨count,_ | ⟨oldest,s⟩⟩ := result
  · contradiction
  · dsimp only at goes counted found
    split at goes
    · rename_i full
      cases goes
      obtain ⟨none | ⟨member,mine⟩,_,least⟩ := found _ rfl
      · contradiction
      · exact ⟨s,member,mine,least,by omega⟩
    · contradiction

/-- A call, its reply, and the session that the cap cost, if any. -/
structure SessionEvent where
  step : SessionStep
  reply : SessionReply
  evicted : Option Sha256Digest

def SessionStore.evicts (opts : SessionOptions) (store : SessionStore) (step : SessionStep) : Option Sha256Digest :=
  match step.call with
  | .issue (some _) user scope => ((store.arranged step.order).dropExpired opts step.now).oldestOf opts user scope
  | _ => none

def SessionStore.history (opts : SessionOptions) (sha256 : Bytes → Sha256Digest) :
    SessionStore → List SessionStep → List SessionEvent
  | _, [] => []
  | store, step :: steps =>
    let (next,reply) := store.answer opts sha256 step
    ⟨step,reply,store.evicts opts step⟩ :: next.history opts sha256 steps

def SessionEvent.Issues (token user : Bytes) (scope : Scope) (event : SessionEvent) : Prop :=
  ∃ random issued, event.step.call = .issue random user scope ∧ event.reply = .issued (.ok issued) ∧ issued.token = token

/-- The call ended the session of this token: by the token, by its user, for the cap, or since the same token was
drawn again. -/
def SessionEvent.Ends (sha256 : Bytes → Sha256Digest) (token user : Bytes) (event : SessionEvent) : Prop :=
  event.step.call = .revoke token ∨ event.step.call = .revokeUser user ∨ event.evicted = some (sha256 token) ∨
    ∃ user scope, event.Issues token user scope

def SessionEvent.use (token : Bytes) (scope : Scope) (event : SessionEvent) : Option Int :=
  match event.step.call, event.reply with
  | .verify presented wanted, .verified (.ok _) => if presented = token ∧ wanted = scope then some event.step.now else none
  | _, _ => none

/-- The uses of a token: its issue, then the successful verifies. -/
def usesOf (token : Bytes) (scope : Scope) (event : SessionEvent) (after : List SessionEvent) : List Int :=
  event.step.now :: after.filterMap (·.use token scope)

def Accepted (sha256 : Bytes → Sha256Digest) (opts : SessionOptions) (history : List SessionEvent) (now : Int)
    (token : Bytes) (scope : Scope) (user : Bytes) : Prop :=
  ∃ before event after, history = before ++ event :: after ∧ event.Issues token user scope ∧
    (∀ later ∈ after, ¬ later.Ends sha256 token user) ∧ now < event.step.now + opts.ttlOf scope ∧
    (usesOf token scope event after ++ [now]).IsChain fun a b => b - a < opts.idleOf scope

/-! What the history tells of a token, as the session it should have. -/

variable {sha256 : Bytes → Sha256Digest} {opts : SessionOptions}

def Tells (sha256 : Bytes → Sha256Digest) (opts : SessionOptions) (history : List SessionEvent) (token : Bytes)
    (s : Session) : Prop :=
  ∃ before event after, history = before ++ event :: after ∧ event.Issues token s.user s.scope ∧
    (∀ later ∈ after, ¬ later.Ends sha256 token s.user) ∧ event.step.now = s.created ∧
    s.expiresAt = s.created + opts.ttlOf s.scope ∧ (usesOf token s.scope event after).getLast? = some s.lastUsed ∧
    (usesOf token s.scope event after).IsChain fun a b => b - a < opts.idleOf s.scope

theorem Session.expired_eq_false (s : Session) (now : Int) :
    s.expired opts now = false ↔ now < s.expiresAt ∧ now - s.lastUsed < opts.idleOf s.scope := by
  simp only [Session.expired,isExpired,Bool.or_eq_false_iff,decide_eq_false_iff_not,Int.not_le]
  omega

theorem Session.fresh_before {s : Session} (fresh : s.expired opts now = false) (earlier : t ≤ now) :
    s.expired opts t = false := by
  rw [Session.expired_eq_false] at fresh ⊢
  omega

theorem usesOf_append (token : Bytes) (scope : Scope) (first : SessionEvent) (after : List SessionEvent) (event : SessionEvent) :
    usesOf token scope first (after ++ [event]) = usesOf token scope first after ++ (event.use token scope).toList := by
  cases used : event.use token scope <;> simp [usesOf,used]

theorem usesOf_last (token : Bytes) (scope : Scope) (first : SessionEvent) (after : List SessionEvent) :
    ∃ used, (usesOf token scope first after).getLast? = some used :=
  Option.isSome_iff_exists.mp (by simp [usesOf])

theorem accepted_iff_tells (history : List SessionEvent) (now : Int) (token : Bytes) (scope : Scope) (user : Bytes) :
    Accepted sha256 opts history now token scope user ↔
      ∃ s, Tells sha256 opts history token s ∧ s.user = user ∧ s.scope = scope ∧ s.expired opts now = false := by
  constructor
  · rintro ⟨before,event,after,split,issues,open_,alive,chain⟩
    obtain ⟨gaps,_,last⟩ := List.isChain_append.mp chain
    obtain ⟨used,isLast⟩ := usesOf_last token scope event after
    refine ⟨⟨user,scope,event.step.now,used,event.step.now + opts.ttlOf scope⟩,
      ⟨before,event,after,split,issues,open_,rfl,rfl,isLast,gaps⟩,rfl,rfl,?_⟩
    rw [Session.expired_eq_false]
    exact ⟨alive,last used isLast now rfl⟩
  · rintro ⟨s,⟨before,event,after,split,issues,open_,created,expires,last,gaps⟩,rfl,rfl,fresh⟩
    obtain ⟨alive,idle⟩ := (Session.expired_eq_false s now).mp fresh
    refine ⟨before,event,after,split,issues,open_,by rw [created,← expires]; exact alive,?_⟩
    refine List.isChain_append.mpr ⟨gaps,List.isChain_singleton _,?_⟩
    intro used isLast next isNext
    obtain rfl := Option.some.inj (last.symm.trans isLast)
    cases isNext
    exact idle

def SessionEvent.Starts (opts : SessionOptions) (token : Bytes) (s : Session) (event : SessionEvent) : Prop :=
  event.Issues token s.user s.scope ∧ event.step.now = s.created ∧ s.lastUsed = s.created ∧
    s.expiresAt = s.created + opts.ttlOf s.scope

def SessionEvent.Continues (sha256 : Bytes → Sha256Digest) (opts : SessionOptions) (token : Bytes) (before s : Session)
    (event : SessionEvent) : Prop :=
  ¬ event.Ends sha256 token before.user ∧
    match event.use token before.scope with
    | none => s = before
    | some now => now - before.lastUsed < opts.idleOf before.scope ∧ s = { before with lastUsed := now }

/-- One more event: it starts the session, or the session goes on. -/
theorem tells_append (history : List SessionEvent) (event : SessionEvent) (token : Bytes) (s : Session) :
    Tells sha256 opts (history ++ [event]) token s ↔
      event.Starts opts token s ∨
        ∃ before, Tells sha256 opts history token before ∧ event.Continues sha256 opts token before s := by
  constructor
  · rintro ⟨before,first,after,split,issues,open_,created,expires,last,gaps⟩
    rcases List.eq_nil_or_concat after with rfl | ⟨rest,final,rfl⟩
    · obtain ⟨_,same⟩ := List.append_inj' split rfl
      cases same
      exact .inl ⟨issues,created,(Option.some.inj last).symm.trans created,expires⟩
    · right
      rw [List.concat_eq_append] at split open_ last gaps
      rw [← List.cons_append,← List.append_assoc] at split
      obtain ⟨rfl,same⟩ := List.append_inj' split rfl
      cases same
      have stays : ∀ later ∈ rest, ¬ later.Ends sha256 token s.user := fun later member =>
        open_ later (List.mem_append_left _ member)
      have ends := open_ event (List.mem_append_right _ (List.mem_singleton_self _))
      rw [usesOf_append] at last gaps
      cases used : event.use token s.scope with
      | none =>
        rw [used,Option.toList_none,List.append_nil] at last gaps
        refine ⟨s,⟨before,first,rest,rfl,issues,stays,created,expires,last,gaps⟩,ends,?_⟩
        rw [used]
      | some now =>
        rw [used,Option.toList_some] at last gaps
        obtain ⟨earlier,_,gap⟩ := List.isChain_append.mp gaps
        obtain ⟨previous,isPrevious⟩ := usesOf_last token s.scope first rest
        have latest : s.lastUsed = now := by simpa using last.symm
        refine ⟨{ s with lastUsed := previous },
          ⟨before,first,rest,rfl,issues,stays,created,expires,isPrevious,earlier⟩,ends,?_⟩
        rw [used]
        exact ⟨gap previous isPrevious now rfl,by rw [← latest]⟩
  · rintro (⟨issues,created,used,expires⟩ | ⟨before,⟨front,first,rest,rfl,issues,stays,created,expires,last,gaps⟩,ends,goes⟩)
    · refine ⟨history,event,[],rfl,issues,by simp,created,expires,?_,List.isChain_singleton _⟩
      rw [used,← created]
      rfl
    · have open_ : ∀ later ∈ rest ++ [event], ¬ later.Ends sha256 token before.user := by
        intro later member
        rcases List.mem_append.mp member with member | member
        · exact stays later member
        · exact List.mem_singleton.mp member ▸ ends
      have uses := usesOf_append token before.scope first rest event
      cases used : event.use token before.scope with
      | none =>
        rw [used] at goes uses
        obtain rfl := goes
        rw [Option.toList_none,List.append_nil] at uses
        exact ⟨front,first,rest ++ [event],by simp,issues,open_,created,expires,uses ▸ last,uses ▸ gaps⟩
      | some now =>
        rw [used] at goes uses
        obtain ⟨gap,rfl⟩ := goes
        refine ⟨front,first,rest ++ [event],by simp,issues,open_,created,expires,?_,?_⟩
        · rw [uses]
          simp
        · rw [uses]
          refine List.isChain_append.mpr ⟨gaps,List.isChain_singleton _,?_⟩
          intro previous isPrevious next isNext
          obtain rfl := Option.some.inj (last.symm.trans isPrevious)
          cases isNext
          exact gap

def SessionStore.event (opts : SessionOptions) (sha256 : Bytes → Sha256Digest) (store : SessionStore) (step : SessionStep) :
    SessionEvent :=
  ⟨step,(store.answer opts sha256 step).2,store.evicts opts step⟩

def SessionStep.Names (step : SessionStep) (token : Bytes) : Prop :=
  match step.call with
  | .issue random _ scope => ∃ r, random = some r ∧ token = tokenPrefix scope ++ r.toHex
  | .verify presented _ | .revoke presented => presented = token
  | .revokeUser _ | .list => False

/-- What is stored is told by the history, and what the history tells is stored until it expires. -/
structure Faithful (sha256 : Bytes → Sha256Digest) (opts : SessionOptions) (tokens : Set Bytes)
    (history : List SessionEvent) (store : SessionStore) (now : Int) : Prop where
  known : ∀ entry ∈ store.table, ∃ token ∈ tokens, entry.1 = sha256 token ∧ Tells sha256 opts history token entry.2
  kept : ∀ token ∈ tokens, ∀ s, Tells sha256 opts history token s → s.expired opts now = false →
    (sha256 token,s) ∈ store.table
  tagged : ∀ token s, Tells sha256 opts history token s → (tokenPrefix s.scope).isPrefixOf token = true

section
variable {tokens : Set Bytes} {history : List SessionEvent} {store next : SessionStore} {event : SessionEvent} {t : Int}

theorem use_now (used : event.use token scope = some now) : now = event.step.now := by
  unfold SessionEvent.use at used
  split at used
  · split at used
    · exact (Option.some.inj used).symm
    · contradiction
  · contradiction

theorem use_none (token : Bytes) (scope : Scope) (other : ∀ presented wanted, event.step.call ≠ .verify presented wanted) :
    event.use token scope = none := by
  unfold SessionEvent.use
  split
  · rename_i call _
    exact absurd call (other _ _)
  · rfl

/-- What is not expired after an event that it goes on with was not expired before. -/
theorem SessionEvent.Continues.fresh {before s : Session} (goes : event.Continues sha256 opts token before s)
    (fresh : s.expired opts event.step.now = false) : before.expired opts event.step.now = false := by
  obtain ⟨_,goes⟩ := goes
  cases used : event.use token before.scope with
  | none =>
    rw [used] at goes
    exact goes ▸ fresh
  | some now =>
    rw [used] at goes
    obtain ⟨gap,rfl⟩ := goes
    obtain rfl := use_now used
    rw [Session.expired_eq_false] at fresh ⊢
    exact ⟨fresh.1,gap⟩

/-- Each stored session is started by the event or goes on with it, and nothing else is lost. -/
theorem Faithful.append (faithful : Faithful sha256 opts tokens history store t) (later : t ≤ event.step.now)
    (known : ∀ entry ∈ next.table, (∃ token ∈ tokens, entry.1 = sha256 token ∧ event.Starts opts token entry.2) ∨
      ∃ before, (entry.1,before) ∈ store.table ∧
        ∀ token ∈ tokens, entry.1 = sha256 token → event.Continues sha256 opts token before entry.2)
    (started : ∀ token ∈ tokens, ∀ s, event.Starts opts token s → (sha256 token,s) ∈ next.table)
    (kept : ∀ token ∈ tokens, ∀ before s, (sha256 token,before) ∈ store.table →
      before.expired opts event.step.now = false → event.Continues sha256 opts token before s → (sha256 token,s) ∈ next.table)
    (tagged : ∀ token user scope, event.Issues token user scope → (tokenPrefix scope).isPrefixOf token = true) :
    Faithful sha256 opts tokens (history ++ [event]) next event.step.now where
  known := by
    intro entry member
    rcases known entry member with ⟨token,listed,digest,starts⟩ | ⟨before,stored,goes⟩
    · exact ⟨token,listed,digest,(tells_append ..).mpr (.inl starts)⟩
    · obtain ⟨token,listed,digest,told⟩ := faithful.known _ stored
      exact ⟨token,listed,digest,(tells_append ..).mpr (.inr ⟨before,told,goes token listed digest⟩)⟩
  kept := by
    intro token listed s told fresh
    rcases (tells_append ..).mp told with starts | ⟨before,told,goes⟩
    · exact started token listed s starts
    · have live := goes.fresh fresh
      exact kept token listed before s (faithful.kept token listed before told (Session.fresh_before live later)) live goes
  tagged := by
    intro token s told
    rcases (tells_append ..).mp told with starts | ⟨before,told,_,goes⟩
    · exact tagged token _ _ starts.1
    · have same : s.scope = before.scope := by
        cases used : event.use token before.scope with
        | none =>
          rw [used] at goes
          rw [goes]
        | some now =>
          rw [used] at goes
          rw [goes.2]
      exact same ▸ faithful.tagged token before told

/-- An event that starts and uses nothing only removes sessions: those it ends, and expired ones. -/
theorem Faithful.removes (faithful : Faithful sha256 opts tokens history store t) (later : t ≤ event.step.now)
    (unused : ∀ token scope, event.use token scope = none) (unissued : ∀ token user scope, ¬ event.Issues token user scope)
    (left : ∀ entry ∈ next.table, entry ∈ store.table ∧
      ∀ token ∈ tokens, entry.1 = sha256 token → ¬ event.Ends sha256 token entry.2.user)
    (kept : ∀ token ∈ tokens, ∀ s, (sha256 token,s) ∈ store.table → s.expired opts event.step.now = false →
      ¬ event.Ends sha256 token s.user → (sha256 token,s) ∈ next.table) :
    Faithful sha256 opts tokens (history ++ [event]) next event.step.now := by
  have goes : ∀ token before s, event.Continues sha256 opts token before s ↔
      ¬ event.Ends sha256 token before.user ∧ s = before := by
    intro token before s
    rw [SessionEvent.Continues,unused]
  apply faithful.append later
  · intro entry member
    obtain ⟨stored,open_⟩ := left entry member
    exact .inr ⟨entry.2,stored,fun token listed digest => (goes ..).mpr ⟨open_ token listed digest,rfl⟩⟩
  · exact fun token _ s starts => absurd starts.1 (unissued _ _ _)
  · intro token listed before s stored fresh continues
    obtain ⟨open_,rfl⟩ := (goes ..).mp continues
    exact kept token listed s stored fresh open_
  · exact fun token user scope issues => absurd issues (unissued _ _ _)

theorem event_ends (step : SessionStep) (unissued : ∀ token user scope, ¬ (store.event opts sha256 step).Issues token user scope)
    (noEviction : store.evicts opts step = none) :
    (store.event opts sha256 step).Ends sha256 token user ↔ step.call = .revoke token ∨ step.call = .revokeUser user := by
  have none : ¬ ∃ user scope, (store.event opts sha256 step).Issues token user scope := fun ⟨_,_,issues⟩ => unissued _ _ _ issues
  simp only [SessionEvent.Ends,none,or_false]
  simp [SessionStore.event,noEviction]

/-- A verify finds a live session and marks it used, or it is denied and at most an expired session goes. -/
theorem verify_cases (sha256 : Bytes → Sha256Digest) (opts : SessionOptions) (store : SessionStore) (now : Int)
    (token : Bytes) (scope : Scope) :
    (∃ s, (sha256 token,s) ∈ store.table ∧ s.scope = scope ∧ s.expired opts now = false ∧
      (tokenPrefix scope).isPrefixOf token = true ∧ store.verify opts sha256 now token scope =
        (store.insertOrAssign (sha256 token) { s with lastUsed := now },.ok s.user)) ∨
    ((∃ e, (store.verify opts sha256 now token scope).2 = .error e) ∧
      (∀ s, (sha256 token,s) ∈ store.table → s.scope = scope → (tokenPrefix scope).isPrefixOf token = true →
        s.expired opts now = true) ∧
      (∀ entry ∈ (store.verify opts sha256 now token scope).1.table, entry ∈ store.table) ∧
      ∀ entry ∈ store.table, entry.2.expired opts now = false →
        entry ∈ (store.verify opts sha256 now token scope).1.table) := by
  have found := store.find_eq_some (sha256 token)
  unfold verify
  split
  · rename_i other
    right
    exact ⟨⟨_,rfl⟩,fun s _ _ tagged => by simp [tagged] at other,fun _ => id,fun _ member _ => member⟩
  · rename_i tagged
    cases stored : store.find (sha256 token) with
    | none =>
      right
      exact ⟨⟨_,rfl⟩,fun s member => by simp [stored] at found; exact absurd member (found s),fun _ => id,
        fun _ member _ => member⟩
    | some s =>
      have member := (found s).mp stored
      dsimp only
      split
      · rename_i other
        right
        exact ⟨⟨_,rfl⟩,fun s' member' same => absurd (store.mem_unique member member' ▸ same) other,fun _ => id,
          fun _ member _ => member⟩
      · rename_i same
        split
        · rename_i expired
          right
          refine ⟨⟨_,rfl⟩,fun s' member' _ _ => store.mem_unique member member' ▸ expired,by simp +contextual,?_⟩
          intro entry inside fresh
          refine (mem_erase ..).mpr ⟨inside,fun digest => ?_⟩
          obtain ⟨_,s'⟩ := entry
          obtain rfl : _ = sha256 token := digest
          rw [← store.mem_unique member inside,expired] at fresh
          contradiction
        · rename_i fresh
          left
          exact ⟨s,member,not_not.mp same,Bool.eq_false_iff.mpr fresh,by simpa using tagged,rfl⟩

theorem verify_faithful (faithful : Faithful sha256 opts tokens history store t) (distinct : Set.InjOn sha256 tokens)
    (later : t ≤ now) (order : List Sha256Digest) (token : Bytes) (listed : token ∈ tokens) (scope : Scope) :
    Faithful sha256 opts tokens (history ++ [store.event opts sha256 ⟨now,order,.verify token scope⟩])
      (store.answer opts sha256 ⟨now,order,.verify token scope⟩).1 now := by
  have unissued : ∀ token' user scope',
      ¬ (store.event opts sha256 ⟨now,order,.verify token scope⟩).Issues token' user scope' := by
    rintro _ _ _ ⟨_,_,call,_⟩
    contradiction
  have open_ : ∀ token' user, ¬ (store.event opts sha256 ⟨now,order,.verify token scope⟩).Ends sha256 token' user := by
    intro _ _ ends
    rcases (event_ends _ unissued rfl).mp ends with call | call <;> contradiction
  change Faithful sha256 opts tokens _ ((store.arranged order).verify opts sha256 now token scope).1 now
  rcases verify_cases sha256 opts (store.arranged order) now token scope with
    ⟨s,stored,rfl,fresh,tagged,result⟩ | ⟨⟨e,refused⟩,_,left,kept⟩
  · have used : ∀ token' scope', (store.event opts sha256 ⟨now,order,.verify token s.scope⟩).use token' scope' =
        if token = token' ∧ s.scope = scope' then some now else none := by
      intro token' scope'
      simp [SessionStore.event,answer,result,SessionEvent.use]
    have stored := (mem_arrange ..).mp stored
    have other : ∀ token' before s', token' ≠ token →
        ((store.event opts sha256 ⟨now,order,.verify token s.scope⟩).Continues sha256 opts token' before s' ↔ s' = before) := by
      intro token' before s' different
      rw [SessionEvent.Continues,used,if_neg fun same => different same.1.symm]
      simp [open_]
    have same : ∀ s', (store.event opts sha256 ⟨now,order,.verify token s.scope⟩).Continues sha256 opts token s s' ↔
        s' = { s with lastUsed := now } := by
      intro s'
      rw [SessionEvent.Continues,used,if_pos ⟨rfl,rfl⟩]
      simp [open_,((Session.expired_eq_false s now).mp fresh).2]
    rw [result]
    apply faithful.append later
    · intro entry member
      rcases (mem_insertOrAssign ..).mp member with rfl | ⟨inside,different⟩
      · refine .inr ⟨s,stored,fun token' listed' digest => ?_⟩
        obtain rfl := distinct listed listed' digest
        exact (same _).mpr rfl
      · refine .inr ⟨entry.2,(mem_arrange ..).mp inside,fun token' _ digest => (other _ _ _ ?_).mpr rfl⟩
        rintro rfl
        exact different digest
    · exact fun token' _ s' starts => absurd starts.1 (unissued _ _ _)
    · intro token' listed' before s' inside _ continues
      rw [mem_insertOrAssign,mem_arrange]
      by_cases same' : token' = token
      · obtain rfl := same'
        obtain rfl := store.mem_unique stored inside
        exact .inl (by rw [(same _).mp continues])
      · rw [(other _ _ _ same').mp continues]
        exact .inr ⟨inside,fun digest => same' (distinct listed' listed digest)⟩
    · exact fun _ _ _ issues => absurd issues (unissued _ _ _)
  · refine faithful.removes later ?_ unissued ?_ ?_
    · intro token' scope'
      simp [SessionStore.event,answer,refused,SessionEvent.use]
    · exact fun entry member => ⟨(mem_arrange ..).mp (left entry member),fun _ _ _ => open_ _ _⟩
    · exact fun token' _ s' stored fresh _ => kept _ ((mem_arrange ..).mpr stored) fresh

theorem mem_dropOldestOf (store : SessionStore) (user : Bytes) (scope : Scope) (entry : Sha256Digest × Session) :
    entry ∈ (store.dropOldestOf opts user scope).table ↔
      entry ∈ store.table ∧ store.oldestOf opts user scope ≠ some entry.1 := by
  unfold dropOldestOf
  cases store.oldestOf opts user scope with
  | none => simp
  | some digest => simp [eq_comm]

theorem mem_issue (opts : SessionOptions) (sha256 : Bytes → Sha256Digest) (store : SessionStore) (now : Int)
    (order : List Sha256Digest) (random : TokenBytes) (user : Bytes) (scope : Scope) (entry : Sha256Digest × Session) :
    entry ∈ (store.answer opts sha256 ⟨now,order,.issue (some random) user scope⟩).1.table ↔
      entry = (sha256 (tokenPrefix scope ++ random.toHex),⟨user,scope,now,now,now + opts.ttlOf scope⟩) ∨
        (entry ∈ store.table ∧ entry.2.expired opts now = false ∧
          store.evicts opts ⟨now,order,.issue (some random) user scope⟩ ≠ some entry.1) ∧
        entry.1 ≠ sha256 (tokenPrefix scope ++ random.toHex) := by
  simp [answer,issue,mem_dropOldestOf,dropExpired,evicts,and_assoc]

section

variable (faithful : Faithful sha256 opts tokens history store t)
include faithful

theorem issue_faithful (distinct : Set.InjOn sha256 tokens)
    (later : t ≤ now) (order : List Sha256Digest) (random : TokenBytes) (user : Bytes) (scope : Scope)
    (listed : tokenPrefix scope ++ random.toHex ∈ tokens) :
    Faithful sha256 opts tokens (history ++ [store.event opts sha256 ⟨now,order,.issue (some random) user scope⟩])
      (store.answer opts sha256 ⟨now,order,.issue (some random) user scope⟩).1 now := by
  set token := tokenPrefix scope ++ random.toHex with isToken
  set event := store.event opts sha256 ⟨now,order,.issue (some random) user scope⟩ with isEvent
  have issues : ∀ token' user' scope', event.Issues token' user' scope' ↔ token' = token ∧ user' = user ∧ scope' = scope := by
    intro token' user' scope'
    constructor
    · rintro ⟨random',issued,call,reply,rfl⟩
      obtain ⟨_,rfl,rfl⟩ := SessionCall.issue.inj call
      obtain rfl := Except.ok.inj (SessionReply.issued.inj reply)
      exact ⟨rfl,rfl,rfl⟩
    · rintro ⟨rfl,rfl,rfl⟩
      exact ⟨some random,⟨token,now + opts.ttlOf scope'⟩,rfl,rfl,rfl⟩
  have ends : ∀ token' user', event.Ends sha256 token' user' ↔ event.evicted = some (sha256 token') ∨ token' = token := by
    intro token' user'
    have call : event.step.call = .issue (some random) user scope := rfl
    simp [SessionEvent.Ends,issues,call]
  have continues : ∀ token' before s, event.Continues sha256 opts token' before s ↔
      ¬ (event.evicted = some (sha256 token') ∨ token' = token) ∧ s = before := by
    intro token' before s
    rw [SessionEvent.Continues,ends]
    rfl
  have next := mem_issue opts sha256 store now order random user scope
  apply faithful.append later
  · intro entry member
    rcases (next entry).mp member with rfl | ⟨⟨inside,_,stays⟩,different⟩
    · exact .inl ⟨token,listed,rfl,(issues _ _ _).mpr ⟨rfl,rfl,rfl⟩,rfl,rfl,rfl⟩
    · refine .inr ⟨entry.2,inside,fun token' _ digest => (continues _ _ _).mpr ⟨?_,rfl⟩⟩
      rintro (evicted | rfl)
      · exact stays (evicted.trans (by rw [digest]))
      · exact different digest
  · rintro token' _ s ⟨issued,created,used,expires⟩
    obtain ⟨rfl,rfl,rfl⟩ := (issues _ _ _).mp issued
    have created : s.created = now := created.symm
    refine (next _).mpr (.inl (Prod.ext rfl (Session.ext rfl rfl created (used.trans created) ?_)))
    rw [expires,created]
  · intro token' listed' before s inside fresh goes
    obtain ⟨open_,rfl⟩ := (continues _ _ _).mp goes
    obtain ⟨stays,different⟩ := not_or.mp open_
    exact (next _).mpr (.inr ⟨⟨inside,fresh,stays⟩,fun digest => different (distinct listed' listed digest)⟩)
  · intro token' user' scope' issued
    obtain ⟨rfl,_,rfl⟩ := (issues _ _ _).mp issued
    exact List.isPrefixOf_iff_prefix.mpr (List.prefix_append _ _)

theorem answer_faithful (distinct : Set.InjOn sha256 tokens)
    (step : SessionStep) (later : t ≤ step.now) (listed : ∀ token, step.Names token → token ∈ tokens) :
    Faithful sha256 opts tokens (history ++ [store.event opts sha256 step]) (store.answer opts sha256 step).1 step.now := by
  obtain ⟨now,order,call⟩ := step
  cases call with
  | issue random user scope =>
    cases random with
    | some random => exact issue_faithful faithful distinct later order random user scope (listed _ ⟨random,rfl,rfl⟩)
    | none =>
      have unissued : ∀ token user' scope',
          ¬ (store.event opts sha256 ⟨now,order,.issue none user scope⟩).Issues token user' scope' := by
        rintro _ _ _ ⟨_,_,_,reply,_⟩
        simp [SessionStore.event,answer,issue,fail] at reply
      refine faithful.removes later (fun _ _ => use_none _ _ nofun) unissued ?_ ?_
      · simp [event_ends _ unissued rfl,answer,issue]
      · simp +contextual [answer,issue]
  | verify token scope => exact verify_faithful faithful distinct later order token (listed token rfl) scope
  | revoke token =>
    have unissued : ∀ token' user scope, ¬ (store.event opts sha256 ⟨now,order,.revoke token⟩).Issues token' user scope := by
      rintro _ _ _ ⟨_,_,call,_⟩
      contradiction
    refine faithful.removes later (fun _ _ => use_none _ _ nofun) unissued ?_ ?_
    · intro entry member
      obtain ⟨stored,other⟩ : entry ∈ store.table ∧ entry.1 ≠ sha256 token := by simpa [answer,revoke] using member
      refine ⟨stored,fun token' _ digest ends => ?_⟩
      rcases (event_ends _ unissued rfl).mp ends with call | call
      · cases call
        exact other digest
      · contradiction
    · intro token' member s stored _ open_
      have different : token' ≠ token := fun same => open_ ((event_ends _ unissued rfl).mpr (.inl (by rw [same])))
      have digests : sha256 token' ≠ sha256 token := fun same => different (distinct member (listed token rfl) same)
      simpa [answer,revoke] using ⟨stored,digests⟩
  | revokeUser user =>
    have unissued : ∀ token user' scope, ¬ (store.event opts sha256 ⟨now,order,.revokeUser user⟩).Issues token user' scope := by
      rintro _ _ _ ⟨_,_,call,_⟩
      contradiction
    refine faithful.removes later (fun _ _ => use_none _ _ nofun) unissued ?_ ?_
    · intro entry member
      obtain ⟨stored,other⟩ : entry ∈ store.table ∧ entry.2.user ≠ user := by simpa [answer,revokeUser] using member
      refine ⟨stored,fun token' _ digest ends => ?_⟩
      rcases (event_ends _ unissued rfl).mp ends with call | call
      · contradiction
      · exact other (SessionCall.revokeUser.inj call).symm
    · intro token' member s stored _ open_
      have different : s.user ≠ user := fun same => open_ ((event_ends _ unissued rfl).mpr (.inr (by rw [same])))
      simpa [answer,revokeUser] using ⟨stored,different⟩
  | list =>
    have unissued : ∀ token user scope, ¬ (store.event opts sha256 ⟨now,order,.list⟩).Issues token user scope := by
      rintro _ _ _ ⟨_,_,call,_⟩
      contradiction
    refine faithful.removes later (fun _ _ => use_none _ _ nofun) unissued ?_ ?_
    · intro entry member
      have stored : entry ∈ store.table ∧ entry.2.expired opts now = false := by
        simpa [answer,SessionStore.list,dropExpired] using member
      refine ⟨stored.1,fun token' _ _ ends => ?_⟩
      rcases (event_ends _ unissued rfl).mp ends with call | call <;> contradiction
    · intro token' _ s stored fresh _
      simpa [answer,SessionStore.list,dropExpired] using ⟨stored,fresh⟩

theorem Faithful.later (later : t ≤ now) :
    Faithful sha256 opts tokens history store now :=
  ⟨faithful.known,fun token listed s told fresh => faithful.kept token listed s told (Session.fresh_before fresh later),
    faithful.tagged⟩

end

theorem empty_faithful (t : Int) : Faithful sha256 opts tokens [] .empty t where
  known := nofun
  kept := by
    rintro _ _ _ ⟨before,event,after,split,_⟩
    simp at split
  tagged := by
    rintro _ _ ⟨before,event,after,split,_⟩
    simp at split

def SessionStore.run (opts : SessionOptions) (sha256 : Bytes → Sha256Digest) (steps : List SessionStep) : SessionStore :=
  Runs.run (fun store step => (store.answer opts sha256 step).1) .empty steps

/-- So does every sequence of calls along a clock that does not go back. -/
theorem run_faithful (distinct : Set.InjOn sha256 tokens) (steps : List SessionStep)
    (faithful : Faithful sha256 opts tokens history store t) (listed : ∀ step ∈ steps, ∀ token, step.Names token →
    token ∈ tokens) (ordered : (t :: (steps.map SessionStep.now ++ [now])).IsChain (· ≤ ·)) :
    Faithful sha256 opts tokens (history ++ store.history opts sha256 steps)
      (Runs.run (fun store step => (store.answer opts sha256 step).1) store steps) now := by
  induction steps generalizing store history t with
  | nil =>
    rw [SessionStore.history,List.append_nil]
    exact faithful.later (List.isChain_pair.mp ordered)
  | cons step steps ih =>
    rw [List.map_cons,List.cons_append,List.isChain_cons_cons] at ordered
    have next := answer_faithful faithful distinct step ordered.1 (listed step (List.mem_cons_self ..))
    have rest := ih next (fun step member => listed step (List.mem_cons_of_mem _ member)) ordered.2
    rw [List.append_assoc] at rest
    exact rest

end

def Capped (opts : SessionOptions) (store : SessionStore) : Prop :=
  ∀ user scope, store.table.countP (isOf user scope) ≤ opts.maxPerUser

theorem room_left (store : SessionStore) (positive : 1 ≤ opts.maxPerUser)
    (none : store.oldestOf opts user scope = none) : store.table.countP (isOf user scope) < opts.maxPerUser := by
  have counted := scan_counts user scope store.table (0,Option.none)
  have empty := scan_none user scope store.table (0,Option.none)
  unfold oldestOf at none
  generalize store.table.foldl (countOldest user scope) (0,Option.none) = result at counted empty none
  obtain ⟨count,_ | oldest⟩ := result
  · have zero : store.table.countP (isOf user scope) = 0 :=
      List.countP_eq_zero.mpr fun entry member => Bool.eq_false_iff.mp ((empty rfl).2 entry member)
    omega
  · dsimp only at none counted
    split at none
    · contradiction
    · omega

theorem Capped.dropOldestOf (capped : Capped opts store) (positive : 1 ≤ opts.maxPerUser) (user : Bytes) (scope : Scope) :
    (store.dropOldestOf opts user scope).table.countP (isOf user scope) < opts.maxPerUser := by
  unfold SessionStore.dropOldestOf
  cases goes : store.oldestOf opts user scope with
  | none => exact room_left store positive goes
  | some digest =>
    obtain ⟨s,stored,his,_,_⟩ := oldestOf_spec goes
    exact lt_of_lt_of_le (countP_erase_lt store _ stored his) (capped user scope)

theorem Capped.fewer {next : SessionStore} (capped : Capped opts store)
    (sublist : ∀ mine : Sha256Digest × Session → Bool, next.table.countP mine ≤ store.table.countP mine) : Capped opts next :=
  fun user scope => (sublist _).trans (capped user scope)

theorem countP_dropOldestOf_le (store : SessionStore) (user : Bytes) (scope : Scope) (mine : Sha256Digest × Session → Bool) :
    (store.dropOldestOf opts user scope).table.countP mine ≤ store.table.countP mine := by
  unfold SessionStore.dropOldestOf
  split
  · exact countP_eraseIf_le ..
  · exact le_rfl

theorem Capped.issue (capped : Capped opts store) (positive : 1 ≤ opts.maxPerUser) (now : Int) (random : Option TokenBytes)
    (user : Bytes) (scope : Scope) : Capped opts (store.issue opts sha256 now random user scope).1 := by
  cases random with
  | none => exact capped
  | some random =>
    have live : Capped opts (store.dropExpired opts now) := capped.fewer (countP_eraseIf_le store _)
    intro user' scope'
    refine (countP_insertOrAssign_le ..).trans ?_
    by_cases his : isOf user' scope' (sha256 (tokenPrefix scope ++ random.toHex),
        ⟨user,scope,now,now,now + opts.ttlOf scope⟩) = true
    · have room := live.dropOldestOf positive user scope
      obtain ⟨rfl,rfl⟩ : user = user' ∧ scope = scope' := by simpa [isOf] using his
      rw [if_pos his]
      exact room
    · rw [if_neg his]
      exact (countP_dropOldestOf_le ..).trans (live user' scope')

theorem Capped.verify (capped : Capped opts store) (now : Int) (token : Bytes) (scope : Scope) :
    Capped opts (store.verify opts sha256 now token scope).1 := by
  unfold SessionStore.verify
  split
  · exact capped
  · split
    · exact capped
    · rename_i s found
      split
      · exact capped
      · split
        · exact capped.fewer (countP_eraseIf_le store _)
        · intro user scope
          have stored := (store.find_eq_some _ s).mp found
          refine le_trans ?_ (capped user scope)
          simp only [insertOrAssign,List.countP_cons]
          by_cases his : isOf user scope (sha256 token,s) = true
          · have fewer := countP_erase_lt store (isOf user scope) stored his
            split <;> omega
          · have same : isOf user scope (sha256 token,{ s with lastUsed := now }) = isOf user scope (sha256 token,s) := rfl
            rw [same,if_neg his]
            exact countP_eraseIf_le ..

theorem Capped.answer (capped : Capped opts store) (positive : 1 ≤ opts.maxPerUser) (step : SessionStep) :
    Capped opts (store.answer opts sha256 step).1 := by
  have arranged : Capped opts (store.arranged step.order) := fun user scope => by
    rw [countP_arrange]
    exact capped user scope
  unfold SessionStore.answer
  split
  · exact arranged.issue positive _ _ _ _
  · exact arranged.verify _ _ _
  · exact arranged.fewer (countP_eraseIf_le _ _)
  · exact arranged.fewer (countP_eraseIf_le _ _)
  · exact arranged.fewer (countP_eraseIf_le _ _)

theorem run_capped (positive : 1 ≤ opts.maxPerUser) (steps : List SessionStep) :
    Capped opts (SessionStore.run opts sha256 steps) := by
  have from_ : ∀ store, Capped opts store →
      Capped opts (Runs.run (fun store step => (store.answer opts sha256 step).1) store steps) := by
    induction steps with
    | nil => exact fun _ capped => capped
    | cons step steps ih => exact fun store capped => ih _ (capped.answer positive step)
  exact from_ _ fun _ _ => Nat.zero_le _

/-- A live session that an issue costs is the oldest one of the same user and scope, and there were as many of
them as are allowed. -/
theorem evicted_oldest (store : SessionStore) (now : Int) (order : List Sha256Digest) (random : TokenBytes) (user : Bytes)
    (scope : Scope) (digest : Sha256Digest) (s : Session) (stored : (digest,s) ∈ store.table)
    (live : s.expired opts now = false) (other : digest ≠ sha256 (tokenPrefix scope ++ random.toHex))
    (gone : ∀ s, (digest,s) ∉ (store.answer opts sha256 ⟨now,order,.issue (some random) user scope⟩).1.table) :
    s.user = user ∧ s.scope = scope ∧
      (∀ entry ∈ store.table, isOf user scope entry = true → entry.2.expired opts now = false → s.created ≤ entry.2.created) ∧
      opts.maxPerUser ≤ store.table.countP fun entry => isOf user scope entry && !entry.2.expired opts now := by
  have evicted : store.evicts opts ⟨now,order,.issue (some random) user scope⟩ = some digest := by
    by_contra stays
    exact gone s ((mem_issue ..).mpr (.inr ⟨⟨stored,live,stays⟩,other⟩))
  obtain ⟨s',stored',his,least,full⟩ := oldestOf_spec evicted
  have members : ∀ entry, entry ∈ ((store.arranged order).dropExpired opts now).table ↔
      entry ∈ store.table ∧ entry.2.expired opts now = false := by
    intro entry
    simp [dropExpired]
  obtain rfl := store.mem_unique stored ((members _).mp stored').1
  obtain ⟨sameUser,sameScope⟩ : s.user = user ∧ s.scope = scope := by simpa [isOf] using his
  refine ⟨sameUser,sameScope,fun entry member mine fresh => least entry ((members _).mpr ⟨member,fresh⟩) mine,?_⟩
  simpa [dropExpired,eraseIf,List.countP_filter] using full

/-- The reply to a verify, in a store that is true to the history. -/
theorem verify_iff_accepted {tokens : Set Bytes} {history : List SessionEvent}
    (faithful : Faithful sha256 opts tokens history store now)
    (distinct : Set.InjOn sha256 tokens) (listed : token ∈ tokens) (order : List Sha256Digest) (scope : Scope) (user : Bytes) :
    (store.answer opts sha256 ⟨now,order,.verify token scope⟩).2 = .verified (.ok user) ↔
      Accepted sha256 opts history now token scope user := by
  have reply : (store.answer opts sha256 ⟨now,order,.verify token scope⟩).2 =
      .verified ((store.arranged order).verify opts sha256 now token scope).2 := rfl
  rw [reply,accepted_iff_tells]
  rcases verify_cases sha256 opts (store.arranged order) now token scope with
    ⟨s,stored,rfl,fresh,_,result⟩ | ⟨⟨e,refused⟩,expired,_,_⟩
  · have stored := (mem_arrange ..).mp stored
    rw [result]
    constructor
    · intro same
      obtain ⟨token',listed',digest,told⟩ := faithful.known _ stored
      obtain rfl := distinct listed listed' digest
      exact ⟨s,told,Except.ok.inj (SessionReply.verified.inj same),rfl,fresh⟩
    · rintro ⟨s',told,rfl,_,fresh'⟩
      rw [store.mem_unique stored (faithful.kept token listed s' told fresh')]
  · rw [refused]
    constructor
    · intro same
      exact nomatch SessionReply.verified.inj same
    · rintro ⟨s,told,_,rfl,fresh⟩
      have stale := expired s ((mem_arrange ..).mpr (faithful.kept token listed s told fresh)) rfl (faithful.tagged token s told)
      rw [fresh] at stale
      contradiction

/-- After every sequence of calls along a clock that does not go back: a token is accepted for a user and scope exactly
if the history says so, no user has more sessions of a scope than allowed, and the next issue evicts at most the oldest
live session of its user and scope, if there are as many as allowed. -/
theorem sessions_follow_history (sha256 : Bytes → Sha256Digest) (opts : SessionOptions) (positive : 1 ≤ opts.maxPerUser)
    (steps : List SessionStep) (now : Int) (ordered : (steps.map SessionStep.now ++ [now]).IsChain (· ≤ ·))
    (token : Bytes) (distinct : Set.InjOn sha256 { t | t = token ∨ ∃ step ∈ steps, step.Names t }) :
    (∀ order scope user, ((SessionStore.run opts sha256 steps).answer opts sha256 ⟨now,order,.verify token scope⟩).2 =
        .verified (.ok user) ↔
      Accepted sha256 opts (SessionStore.history opts sha256 .empty steps) now token scope user) ∧
    (∀ user scope, (SessionStore.run opts sha256 steps).table.countP (isOf user scope) ≤ opts.maxPerUser) ∧
    ∀ order random user scope digest s, (digest,s) ∈ (SessionStore.run opts sha256 steps).table → s.expired opts now = false →
      digest ≠ sha256 (tokenPrefix scope ++ TokenBytes.toHex random) →
      (∀ s, (digest,s) ∉ ((SessionStore.run opts sha256 steps).answer opts sha256
        ⟨now,order,.issue (some random) user scope⟩).1.table) →
      s.user = user ∧ s.scope = scope ∧
        (∀ entry ∈ (SessionStore.run opts sha256 steps).table, isOf user scope entry = true →
          entry.2.expired opts now = false → s.created ≤ entry.2.created) ∧
        opts.maxPerUser ≤ (SessionStore.run opts sha256 steps).table.countP
          fun entry => isOf user scope entry && !entry.2.expired opts now := by
  obtain ⟨start,chain⟩ : ∃ start, (start :: (steps.map SessionStep.now ++ [now])).IsChain (· ≤ ·) := by
    cases steps with
    | nil => exact ⟨now,List.isChain_pair.mpr le_rfl⟩
    | cons step steps => exact ⟨step.now,List.isChain_cons_cons.mpr ⟨le_rfl,ordered⟩⟩
  have faithful : Faithful sha256 opts _ (SessionStore.history opts sha256 .empty steps)
    (SessionStore.run opts sha256 steps) now :=
    run_faithful distinct steps (empty_faithful start) (fun step member t names => .inr ⟨step,member,names⟩) chain
  exact ⟨verify_iff_accepted faithful distinct (.inl rfl),run_capped positive steps,
    fun order random user scope digest s stored live other gone =>
      evicted_oldest _ now order random user scope digest s stored live other gone⟩

namespace Sample

def zeros : TokenBytes := ⟨List.replicate 32 0,by decide⟩

def userToken : Bytes := tokenPrefix .user ++ zeros.toHex
def adminToken : Bytes := tokenPrefix .admin ++ zeros.toHex

def tokenSha256 (token : Bytes) : Sha256Digest :=
  .ofNat (if token = userToken then 0xbeb3ab94cf4d935d6eeeb46d2498c682db87f83d70644a8ba864fb997542095f
    else 0x2daff81949e93816bcf8c070c0a1bdb4055eedc6c4321544f60c50add6209634)

def sessionOptions : SessionOptions := ⟨3600,900,20,3600,900⟩

def sessionSteps : List SessionStep :=
  [⟨1000,[],.issue (some zeros) (ascii "alice") .user⟩,⟨1010,[],.issue (some zeros) (ascii "root") .admin⟩,
    ⟨1500,[],.verify userToken .user⟩,⟨1600,[],.list⟩,⟨1700,[],.revoke adminToken⟩]

end Sample

/-- The token was last used nine minutes ago, and the other one was revoked. -/
theorem used_token_is_accepted : Accepted Sample.tokenSha256 Sample.sessionOptions
      (SessionStore.history Sample.sessionOptions Sample.tokenSha256 .empty Sample.sessionSteps) 2040 Sample.userToken .user
      (ascii "alice") := by
  have tokens : ∀ t, (t = Sample.userToken ∨ ∃ step ∈ Sample.sessionSteps, step.Names t) →
      t = Sample.userToken ∨ t = Sample.adminToken := by
    rintro t (rfl | ⟨step,member,names⟩)
    · exact .inl rfl
    · simp only [Sample.sessionSteps,List.mem_cons,List.not_mem_nil,or_false] at member
      rcases member with rfl | rfl | rfl | rfl | rfl
      · obtain ⟨r,same,rfl⟩ := names
        cases same
        exact .inl rfl
      · obtain ⟨r,same,rfl⟩ := names
        cases same
        exact .inr rfl
      · exact .inl names.symm
      · exact names.elim
      · exact .inr names.symm
  have distinct : Set.InjOn Sample.tokenSha256 { t | t = Sample.userToken ∨ ∃ step ∈ Sample.sessionSteps, step.Names t } := by
    intro a first b second same
    rcases tokens a first with rfl | rfl <;> rcases tokens b second with rfl | rfl
    · rfl
    · exact absurd same (by decide +kernel)
    · exact absurd same (by decide +kernel)
    · rfl
  exact ((sessions_follow_history Sample.tokenSha256 Sample.sessionOptions (by decide) Sample.sessionSteps 2040 (by decide)
    Sample.userToken distinct).1 [] .user (ascii "alice")).mp (by decide +kernel)

end Confide
