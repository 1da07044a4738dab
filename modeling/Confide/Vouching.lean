import Confide.Authentication
import Confide.Execution
import Confide.SessionHistory

/-! Every caller is vouched for: by a password that the directory has accepted, by a token that was issued on one, or by the
token of a peer. This holds however requests interleave and however the directory changes in between. -/
namespace Confide

open Bytes Resumption Resumption.Prog

variable {cfg : AuthSettings} {α : Type}

def listEvents (log : List FrontEntry) : List (Event Front) := log.map (·.event)

/-- The directory has answered that this is the user. -/
def Verified (name : Bytes) (events : List (Event Front)) : Prop :=
  ∃ user password, (⟨.verify user password,.ok name⟩ : Event Front) ∈ events

def Member (cfg : AuthSettings) (name : Bytes) (events : List (Event Front)) : Prop :=
  (⟨.isMember name cfg.adminGroup,true⟩ : Event Front) ∈ events

/-- What a token takes. -/
def Backed (cfg : AuthSettings) (name : Bytes) (scope : Scope) (events : List (Event Front)) : Prop :=
  Verified name events ∧ (scope = .admin → Member cfg name events)

variable {name : Bytes} {scope : Scope} {events more : List (Event Front)}

theorem Backed.mono (backed : Backed cfg name scope events)
    (grows : events ⊆ more) : Backed cfg name scope more := by
  obtain ⟨⟨user,password,verified⟩,member⟩ := backed
  exact ⟨⟨user,password,grows verified⟩,fun admin => grows (member admin)⟩

variable {caller : Caller}

section Threads

def Recall (c : FrontCall) (seen : List (Event Front)) (reply : c.Reply) (seen' : List (Event Front)) : Prop :=
  seen' = ⟨c,reply⟩ :: seen

/-- What a request may call on the strength of what it has seen: a password goes to the directory right after the limiter has
let it pass, and is a failed login right after the directory has refused it. -/
def Due (cfg : AuthSettings) : FrontCall → List (Event Front) → Prop
  | .issue name scope, seen => Backed cfg name scope seen
  | .verify user _, seen => ∃ source before, seen = ⟨.check user source,.ok ()⟩ :: before
  | .failed user source, seen => 58 ∉ user ∧ ∃ password e before,
      seen = ⟨.verify user password,.error e⟩ :: ⟨.check user source,.ok ()⟩ :: before
  | .succeeded user _, _ => 58 ∉ user
  | _, _ => True

def PasswordShown (authorization name : Bytes) (events : List (Event Front)) : Prop :=
  ∃ user password, Authenticator.basicCredentials authorization = .ok (user,password) ∧
    (⟨.verify user password,.ok name⟩ : Event Front) ∈ events

def TokenShown (authorization : Bytes) (scope : Scope) (name : Bytes) (events : List (Event Front)) : Prop :=
  ∃ token, credentials authorization (ascii "Bearer") = some token ∧
    (⟨.verifyToken token scope,.ok name⟩ : Event Front) ∈ events

def PeerShown (cfg : AuthSettings) (authorization name : Bytes) : Prop :=
  ∃ token, credentials authorization (ascii "Bearer") = some token ∧
    ∃ peer ∈ cfg.peers, peer.token = cfg.sha256 token ∧ peer.name = name

/-- Each way in asks for its own evidence; administrators are members at the time of the request. -/
def Shown (cfg : AuthSettings) (authorization : Bytes) (caller : Caller) (events : List (Event Front)) : Access → Prop
  | .peer => caller.isPeer = true ∧ PeerShown cfg authorization caller.name
  | .password => caller = ⟨caller.name,false,false⟩ ∧ PasswordShown authorization caller.name events
  | .user => caller = ⟨caller.name,false,false⟩ ∧
      (PasswordShown authorization caller.name events ∨ TokenShown authorization .user caller.name events)
  | .adminPassword => caller = ⟨caller.name,false,true⟩ ∧ PasswordShown authorization caller.name events ∧
      Member cfg caller.name events
  | .admin => caller = ⟨caller.name,false,true⟩ ∧ Member cfg caller.name events ∧
      (PasswordShown authorization caller.name events ∨ TokenShown authorization .admin caller.name events)

variable {seen : List (Event Front)}

theorem asks_bind {c : FrontCall} {f : c.Reply → FrontM α} {post : Result α → List (Event Front) → Prop} (due : Due cfg c seen)
    (next : ∀ reply, (f reply).run.Guarantees Recall (Due cfg) (⟨c,reply⟩ :: seen) post) :
    (ExceptT.lift (front c) >>= f).run.Guarantees Recall (Due cfg) seen post := by
  rw [guarantees_exceptT_bind,ExceptT.run_lift,guarantees_map]
  refine ⟨due,fun reply seen' recorded => ?_⟩
  rw [recorded]
  exact next reply

variable {authorization : Bytes}

theorem basicCredentials_plain {user password : Bytes}
    (read : Authenticator.basicCredentials authorization = .ok (user,password)) : 58 ∉ user := by
  unfold Authenticator.basicCredentials at read
  split at read
  · cases read
  · split at read
    · cases read
    · split at read
      · cases read
      · split at read
        · cases read
          intro colon
          simpa using List.mem_takeWhile_imp colon
        · cases read

theorem authenticatePassword_shows (authorization source : Bytes) :
    (Authenticator.authenticatePassword authorization source).run.Guarantees Recall (Due cfg) seen fun result seen' =>
      seen ⊆ seen' ∧ ∀ name, result = .ok name → PasswordShown authorization name seen' := by
  unfold Authenticator.authenticatePassword
  refine guarantees_ensure_bind.mpr ⟨fun e _ => ⟨List.Subset.refl _,fun _ same => by cases same⟩,fun pair read => ?_⟩
  obtain ⟨user,password⟩ := pair
  have plain := basicCredentials_plain read
  dsimp only
  refine (guarantees_exceptT_bind ..).mpr ⟨trivial,fun allowed checked recorded => ?_⟩
  subst recorded
  cases allowed with
  | error e => exact ⟨List.subset_cons_self _ _,fun _ same => by cases same⟩
  | ok _ =>
    refine asks_bind ⟨source,seen,rfl⟩ fun name => ?_
    have grows : ∀ event : Event Front, seen ⊆ event :: ⟨.verify user password,name⟩ :: ⟨.check user source,.ok ()⟩ :: seen :=
      fun event old member => by simp [member]
    cases name with
    | ok name =>
      refine asks_bind plain fun _ => ?_
      refine ⟨grows _,fun other same => ?_⟩
      cases same
      exact ⟨user,password,read,by simp⟩
    | error e =>
      have ends : ∀ seen', seen ⊆ seen' → (throw e : FrontM Bytes).run.Guarantees Recall (Due cfg) seen' fun result seen' =>
          seen ⊆ seen' ∧ ∀ name, result = .ok name → PasswordShown authorization name seen' :=
        fun seen' within => ⟨within,fun _ same => by cases same⟩
      dsimp only
      split
      · exact asks_bind ⟨plain,password,e,seen,rfl⟩ fun _ => ends _ (grows _)
      · exact ends _ fun old member => by simp [member]

theorem requireAdmin_shows (user : Bytes) :
    (Authenticator.requireAdmin cfg user).run.Guarantees Recall (Due cfg) seen fun result seen' =>
      seen ⊆ seen' ∧ ∀ name, result = .ok name → name = user ∧ Member cfg user seen' := by
  unfold Authenticator.requireAdmin
  dsimp only
  split
  · exact ⟨List.Subset.refl _,fun _ same => by cases same⟩
  · refine asks_bind trivial fun member => ?_
    cases member with
    | false => exact ⟨List.subset_cons_self _ _,fun _ same => by cases same⟩
    | true =>
      refine ⟨List.subset_cons_self _ _,fun name same => ?_⟩
      cases same
      exact ⟨rfl,List.mem_cons_self ..⟩

theorem PasswordShown.mono
    (shown : PasswordShown authorization name events) (grows : events ⊆ more) : PasswordShown authorization name more := by
  obtain ⟨user,password,read,verified⟩ := shown
  exact ⟨user,password,read,grows verified⟩

theorem verifyToken_shows {token : Bytes} (scope : Scope)
    (carried : credentials authorization (ascii "Bearer") = some token) :
    (front (.verifyToken token scope)).Guarantees Recall (Due cfg) seen fun result seen' =>
      seen ⊆ seen' ∧ ∀ name, result = .ok name → TokenShown authorization scope name seen' := by
  refine ⟨trivial,fun reply asked recorded => ?_⟩
  subst recorded
  refine ⟨List.subset_cons_self _ _,fun name same => ⟨token,carried,?_⟩⟩
  rw [same]
  exact List.mem_cons_self ..

theorem authenticateAdminPassword_shows (authorization source : Bytes) :
    (Authenticator.authenticateAdminPassword cfg authorization source).run.Guarantees Recall (Due cfg) seen
      fun result seen' => ∀ name, result = .ok name → PasswordShown authorization name seen' ∧ Member cfg name seen' := by
  refine (guarantees_exceptT_bind ..).mpr ((authenticatePassword_shows authorization source).mono fun result seen' shows => ?_)
  cases result with
  | error e => exact fun _ same => by cases same
  | ok user =>
    refine (requireAdmin_shows user).mono fun result seen'' admin name same => ?_
    obtain ⟨rfl,member⟩ := admin.2 name same
    exact ⟨(shows.2 name rfl).mono admin.1,member⟩

theorem authenticateUser_shows (authorization source : Bytes) :
    (Authenticator.authenticateUser authorization source).run.Guarantees Recall (Due cfg) seen fun result seen' =>
      ∀ name, result = .ok name → PasswordShown authorization name seen' ∨ TokenShown authorization .user name seen' := by
  unfold Authenticator.authenticateUser
  split
  · rename_i token carried
    exact (verifyToken_shows .user carried).mono fun result seen' shows name same => .inr (shows.2 name same)
  · exact (authenticatePassword_shows authorization source).mono fun result seen' shows name same => .inl (shows.2 name same)

theorem authenticateAdmin_shows (authorization source : Bytes) :
    (Authenticator.authenticateAdmin cfg authorization source).run.Guarantees Recall (Due cfg) seen fun result seen' =>
      ∀ name, result = .ok name → Member cfg name seen' ∧
        (PasswordShown authorization name seen' ∨ TokenShown authorization .admin name seen') := by
  unfold Authenticator.authenticateAdmin
  split
  · rename_i token carried
    refine (guarantees_exceptT_bind ..).mpr ((verifyToken_shows .admin carried).mono fun result seen' shows => ?_)
    cases result with
    | error e => exact fun _ same => by cases same
    | ok user =>
      refine (requireAdmin_shows user).mono fun result seen'' admin name same => ?_
      obtain ⟨rfl,member⟩ := admin.2 name same
      obtain ⟨token,carried,accepted⟩ := shows.2 name rfl
      exact ⟨member,.inr ⟨token,carried,admin.1 accepted⟩⟩
  · exact (authenticateAdminPassword_shows authorization source).mono fun result seen' shows name same =>
      ⟨(shows name same).2,.inl (shows name same).1⟩

theorem authenticatePeer_shows
    (accepted : Authenticator.authenticatePeer cfg.sha256 cfg.peers authorization = .ok name) :
    PeerShown cfg authorization name := by
  unfold Authenticator.authenticatePeer at accepted
  split at accepted
  · cases accepted
  · split at accepted
    · cases accepted
    · cases accepted
    · rename_i token _ carried
      split at accepted
      · cases accepted
      · split at accepted
        · cases accepted
        · rename_i peer found
          cases accepted
          have matches_ : ∀ (peers : List Peer) (first : Option Peer),
              peers.foldl (fun found p => if p.token = cfg.sha256 token then some p else found) first = some peer →
              first = some peer ∨ peer ∈ peers ∧ peer.token = cfg.sha256 token := by
            intro peers
            induction peers with
            | nil => exact fun first same => .inl same
            | cons p peers ih =>
              intro first same
              rcases ih _ same with here | later
              · dsimp only at here
                split at here
                · rename_i equal
                  cases here
                  exact .inr ⟨List.mem_cons_self ..,equal⟩
                · exact .inl here
              · exact .inr ⟨List.mem_cons_of_mem _ later.1,later.2⟩
          rcases matches_ cfg.peers none found with none | ⟨member,equal⟩
          · cases none
          · exact ⟨token,carried,peer,member,equal,rfl⟩

theorem caller_shows (access : Access) (authorization source : Bytes) :
    (Authenticator.caller cfg access authorization source).run.Guarantees Recall (Due cfg) seen fun result seen' =>
      ∀ caller, result = .ok caller → Shown cfg authorization caller seen' access := by
  unfold Authenticator.caller
  have named : ∀ (p : FrontM Bytes) (make : Bytes → Caller) (known : Bytes → List (Event Front) → Prop),
      (p.run.Guarantees Recall (Due cfg) seen fun result seen' => ∀ name, result = .ok name → known name seen') →
      ((do let name ← p; pure (make name)) : FrontM Caller).run.Guarantees Recall (Due cfg) seen
        fun result seen' => ∀ caller, result = .ok caller → ∃ name, caller = make name ∧ known name seen' := by
    intro p make known holds
    refine (guarantees_exceptT_bind ..).mpr (holds.mono fun result seen' shows => ?_)
    cases result with
    | error e => exact fun _ same => by cases same
    | ok name =>
      intro caller same
      cases same
      exact ⟨name,rfl,shows name rfl⟩
  cases access with
  | peer =>
    refine guarantees_ensure_bind.mpr ⟨(fun e _ _ same => by cases same),fun name accepted caller same => ?_⟩
    cases same
    exact ⟨rfl,authenticatePeer_shows accepted⟩
  | password =>
    refine (named _ _ _ ((authenticatePassword_shows authorization source).mono fun _ _ shows => shows.2)).mono
      fun result seen' shows caller same => ?_
    obtain ⟨name,rfl,shown⟩ := shows caller same
    exact ⟨rfl,shown⟩
  | user =>
    refine (named _ _ _ (authenticateUser_shows authorization source)).mono fun result seen' shows caller same => ?_
    obtain ⟨name,rfl,shown⟩ := shows caller same
    exact ⟨rfl,shown⟩
  | adminPassword =>
    refine (named _ _ _ (authenticateAdminPassword_shows authorization source)).mono fun result seen' shows caller same => ?_
    obtain ⟨name,rfl,shown⟩ := shows caller same
    exact ⟨rfl,shown⟩
  | admin =>
    refine (named _ _ _ (authenticateAdmin_shows authorization source)).mono fun result seen' shows caller same => ?_
    obtain ⟨name,rfl,shown⟩ := shows caller same
    exact ⟨rfl,shown⟩

theorem Shown.mono {access : Access} (shown : Shown cfg authorization caller events access) (grows : events ⊆ more) :
    Shown cfg authorization caller more access := by
  have token : ∀ {scope name}, TokenShown authorization scope name events → TokenShown authorization scope name more := by
    rintro scope name ⟨token,carried,accepted⟩
    exact ⟨token,carried,grows accepted⟩
  cases access with
  | peer => exact shown
  | password => exact ⟨shown.1,shown.2.mono grows⟩
  | user => exact ⟨shown.1,shown.2.imp (·.mono grows) token⟩
  | adminPassword => exact ⟨shown.1,shown.2.1.mono grows,grows shown.2.2⟩
  | admin => exact ⟨shown.1,grows shown.2.1,shown.2.2.imp (·.mono grows) token⟩

theorem PasswordShown.verified
    (shown : PasswordShown authorization name events) : Verified name events := by
  obtain ⟨user,password,_,verified⟩ := shown
  exact ⟨user,password,verified⟩

/-- Tokens are issued on the routes that ask for a password. -/
theorem login_routes : ∀ route ∈ TransactionHandler.routes ++ AuthHandler.routes ++ AdminHandler.routes,
    (route.handler = some (.auth .login) → route.access = .password) ∧
      (route.handler = some (.admin .login) → route.access = .adminPassword) := by decide

variable [BoostJson]

theorem handle_due (req : FrontRequest) (shown : Shown cfg req.authorization caller seen req.route.access) :
    (req.handle caller).Guarantees Recall (Due cfg) seen fun _ seen' => seen ⊆ seen' := by
  have once : ∀ {β : Type} (c : FrontCall) (f : c.Reply → β), Due cfg c seen →
      (do let reply ← front c; pure (f reply)).Guarantees Recall (Due cfg) seen fun _ seen' => seen ⊆ seen' := by
    intro β c f due
    refine ⟨due,fun reply seen' recorded => ?_⟩
    subst recorded
    exact List.subset_cons_self _ _
  have logout : (do Authenticator.revokeToken req.authorization; pure (some Response.noContent) :
      Prog Front (Option Response)).Guarantees Recall (Due cfg) seen fun _ seen' => seen ⊆ seen' := by
    unfold Authenticator.revokeToken
    split
    · exact once _ _ trivial
    · exact List.Subset.refl _
  have logins := login_routes req.route req.listed
  unfold FrontRequest.handle
  split
  · rename_i login
    rw [logins.1 login] at shown
    exact once _ _ ⟨shown.2.verified,fun admin => by cases admin⟩
  · exact logout
  · rename_i login
    rw [logins.2 login] at shown
    exact once _ _ ⟨shown.2.1.verified,fun _ => shown.2.2⟩
  · exact logout
  · exact once _ _ trivial
  · exact once _ _ trivial
  · split
    · exact List.Subset.refl _
    · exact once _ _ trivial
  · exact List.Subset.refl _

theorem program_due (req : FrontRequest) :
    (req.program cfg).Guarantees Recall (Due cfg) [] fun reply seen => ∀ caller response,
      reply = .served caller response → Shown cfg req.authorization caller seen req.route.access := by
  unfold FrontRequest.program
  refine (guarantees_bind ..).mpr ((caller_shows req.route.access req.authorization req.source).mono fun result seen shows => ?_)
  cases result with
  | error e => exact fun _ _ same => by cases same
  | ok caller =>
    refine (guarantees_bind ..).mpr ((handle_due req (shows caller rfl)).mono fun response seen' grows => ?_)
    intro other response' same
    cases same
    exact (shows caller rfl).mono grows

end Threads

def EndsSession (cfg : AuthSettings) (digest : Sha256Digest) (name : Bytes) : Event Front → Prop
  | ⟨.revoke token,_⟩ => cfg.sha256 token = digest
  | ⟨.revokeUser user,_⟩ => user = name
  | _ => False

/-- A token with this digest was issued to the user on the word of the directory, and nobody has revoked it since. -/
def Issued (cfg : AuthSettings) (log : List FrontEntry) (digest : Sha256Digest) (name : Bytes) (scope : Scope)
    (expires : Int) : Prop :=
  ∃ later time issued earlier, log = later ++ ⟨time,⟨.issue name scope,.ok issued⟩⟩ :: earlier ∧
    cfg.sha256 issued.token = digest ∧ expires = time + cfg.sessions.ttlOf scope ∧
    Backed cfg name scope (listEvents earlier) ∧ ∀ entry ∈ later, ¬ EndsSession cfg digest name entry.event

def Rooted (cfg : AuthSettings) (log : List FrontEntry) (sessions : SessionStore) : Prop :=
  ∀ entry ∈ sessions.table, Issued cfg log entry.1 entry.2.user entry.2.scope entry.2.expiresAt

/-- A token that is accepted was issued before, and has not expired. -/
def Proper (cfg : AuthSettings) (earlier : List FrontEntry) (entry : FrontEntry) : Prop :=
  match entry.event with
  | ⟨.verifyToken token scope,.ok name⟩ =>
    ∃ expires, Issued cfg earlier (cfg.sha256 token) name scope expires ∧ entry.time < expires
  | _ => True

def Honest (cfg : AuthSettings) (log : List FrontEntry) : Prop :=
  ∀ later entry earlier, log = later ++ entry :: earlier → Proper cfg earlier entry

section Log

variable {log : List FrontEntry} {entry : FrontEntry} {s : FrontState}

theorem Issued.cons {digest : Sha256Digest} {expires : Int}
    (issued : Issued cfg log digest name scope expires) (entry : FrontEntry)
    (lasts : ¬ EndsSession cfg digest name entry.event) :
    Issued cfg (entry :: log) digest name scope expires := by
  obtain ⟨later,time,token,earlier,same,digested,expiry,backed,kept⟩ := issued
  refine ⟨entry :: later,time,token,earlier,congrArg _ same,digested,expiry,backed,fun other member => ?_⟩
  rcases List.mem_cons.mp member with rfl | member
  · exact lasts
  · exact kept other member

theorem Honest.cons (honest : Honest cfg log) (proper : Proper cfg log entry) : Honest cfg (entry :: log) := by
  intro later other earlier same
  cases later with
  | nil =>
    cases same
    exact proper
  | cons first later =>
    rw [List.cons_append] at same
    exact honest later other earlier (List.cons.inj same).2

/-- Sessions that only go away stay rooted, unless the call ends them. -/
theorem Rooted.shrink {sessions sessions' : SessionStore} (rooted : Rooted cfg log sessions)
    (left : ∀ kept ∈ sessions'.table, kept ∈ sessions.table ∧ ¬ EndsSession cfg kept.1 kept.2.user entry.event) :
    Rooted cfg (entry :: log) sessions' :=
  fun kept member => (rooted kept (left kept member).1).cons entry (left kept member).2

theorem perform_rooted (c : FrontCall) (rooted : Rooted cfg log s.sessions)
    (backed : ∀ name scope, c = .issue name scope → Backed cfg name scope (listEvents log)) :
    let entry : FrontEntry := ⟨s.now,⟨c,(s.perform cfg c).1⟩⟩
    Rooted cfg (entry :: log) (s.perform cfg c).2.sessions ∧ Proper cfg log entry := by
  have same : ∀ {event : Event Front}, (∀ digest name, ¬ EndsSession cfg digest name event) →
      Rooted cfg (⟨s.now,event⟩ :: log) s.sessions :=
    fun lasts => rooted.shrink fun kept member => ⟨member,lasts _ _⟩
  cases c with
  | check user source => exact ⟨same fun _ _ ends => ends,trivial⟩
  | verify user password => exact ⟨same fun _ _ ends => ends,trivial⟩
  | succeeded user source => exact ⟨same fun _ _ ends => ends,trivial⟩
  | failed user source => exact ⟨same fun _ _ ends => ends,trivial⟩
  | isMember user group => exact ⟨same fun _ _ ends => ends,trivial⟩
  | verifyToken token scope =>
    rcases verify_cases cfg.sha256 cfg.sessions (s.sessions.arranged s.order) s.now token scope with
      ⟨session,stored,inScope,fresh,_,accepted⟩ | ⟨⟨e,denied⟩,_,left,_⟩
    · have root := rooted _ ((Table.mem_arrange ..).mp stored)
      simp only [FrontState.perform,accepted]
      constructor
      · intro kept member
        rcases (Table.mem_insertOrAssign ..).mp member with rfl | ⟨old,_⟩
        · exact root.cons _ fun ends => ends
        · exact (rooted kept ((Table.mem_arrange ..).mp old)).cons _ fun ends => ends
      · refine ⟨session.expiresAt,inScope ▸ root,?_⟩
        exact ((Session.expired_eq_false session s.now).mp fresh).1
    · have result : (s.perform cfg (.verifyToken token scope)).1 = .error e := denied
      rw [result]
      exact ⟨rooted.shrink fun kept member => ⟨(Table.mem_arrange ..).mp (left kept member),fun ends => ends⟩,trivial⟩
  | issue user scope =>
    refine ⟨?_,trivial⟩
    simp only [FrontState.perform,SessionStore.issue]
    cases s.random with
    | none => exact rooted.shrink fun kept member => ⟨(Table.mem_arrange ..).mp member,fun ends => ends⟩
    | some random =>
      intro kept member
      rcases (Table.mem_insertOrAssign ..).mp member with rfl | ⟨old,_⟩
      · exact ⟨[],s.now,_,log,rfl,rfl,rfl,backed user scope rfl,(fun _ member => by cases member)⟩
      · have stored := ((mem_dropOldestOf _ _ _ _).mp old).1
        simp only [SessionStore.dropExpired,Table.mem_eraseIf,Table.mem_arrange] at stored
        exact (rooted kept stored.1).cons _ fun ends => ends
  | revoke token =>
    refine ⟨rooted.shrink fun kept member => ?_,trivial⟩
    simp only [FrontState.perform,SessionStore.revoke,Table.mem_erase,Table.mem_arrange] at member
    exact ⟨member.1,fun ends => member.2 ends.symm⟩
  | revokeUser user =>
    refine ⟨rooted.shrink fun kept member => ?_,trivial⟩
    simp only [FrontState.perform,SessionStore.revokeUser,Table.mem_eraseIf,Table.mem_arrange] at member
    exact ⟨member.1,fun ends => by simp [show user = kept.2.user from ends] at member⟩
  | sessions =>
    refine ⟨rooted.shrink fun kept member => ?_,trivial⟩
    simp only [FrontState.perform,SessionStore.list,SessionStore.dropExpired,Table.mem_eraseIf,Table.mem_arrange] at member
    exact ⟨member.1,fun ends => ends⟩

end Log

section Desk

def FrontSound (cfg : AuthSettings) (desk : FrontDesk) : Prop :=
  Pool.Sound (fun _ => Recall) (fun _ => Due cfg)
    (fun req reply seen => ∀ caller response, reply = FrontReply.served caller response →
      Shown cfg req.authorization caller seen req.route.access)
    (fun s memories => Honest cfg s.log ∧ Rooted cfg s.log s.sessions ∧
      ∀ memory ∈ memories, memory.2 ⊆ listEvents s.log) desk

variable {desk : FrontDesk} {workers : Nat}

theorem fresh_sound (directory : DirectoryNow) (now : Int) : FrontSound cfg (.fresh directory now) where
  texts _ member := by cases member
  fits := by
    refine ⟨fun later _ _ same => ?_,fun _ member => ?_,fun _ member => ?_⟩
    · cases later <;> cases same
    · cases member
    · cases member

theorem arbiter_cases {t : Thread Front FrontRequest (List (Event Front)) FrontReply} {i : Nat} {c : FrontCall}
    {next : c.Reply → Prog Front FrontReply} {reply : c.Reply} {shared : FrontState}
    (makes : Pool.Makes (FrontState.arbiter cfg) desk i t c next reply shared) :
    reply = (desk.shared.perform cfg c).1 ∧ shared.sessions = (desk.shared.perform cfg c).2.sessions ∧
      shared.log = ⟨desk.shared.now,⟨c,reply⟩⟩ :: desk.shared.log := by
  have answers := makes.answers
  simp only [FrontState.arbiter,Option.some.injEq,Prod.mk.injEq] at answers
  obtain ⟨rfl,rfl⟩ := answers
  refine ⟨rfl,rfl,?_⟩
  cases c <;> rfl

theorem FrontSound.step [BoostJson] (sound : FrontSound cfg desk) (taken : FrontStep) : FrontSound cfg (desk.step cfg workers taken) := by
  obtain ⟨honest,rooted,known⟩ := sound.fits
  cases taken with
  | pass now directory random order => exact ⟨sound.texts,sound.fits⟩
  | arrive req =>
    simp only [FrontDesk.step]
    split
    · refine @Pool.Sound.start _ _ _ _ _ _ _ _ _ _ ⟨req,[],_⟩ sound (program_due req) ⟨honest,rooted,fun memory member => ?_⟩
      rcases List.mem_append.mp member with old | new
      · exact known memory old
      · rw [List.mem_singleton.mp new]
        exact List.nil_subset _
    · exact sound
  | advance i =>
    simp only [FrontDesk.step]
    apply Pool.Sound.advance sound
    intro t c next reply shared makes due
    refine ⟨rfl,?_⟩
    obtain ⟨replied,sessions,logged⟩ := arbiter_cases makes
    have mine : t.memo ⊆ listEvents desk.shared.log :=
      known _ (List.mem_map.mpr ⟨t,List.mem_of_getElem? makes.here,rfl⟩)
    have ⟨rooted',proper⟩ := perform_rooted c rooted fun name scope same => by
      subst same
      exact Backed.mono due mine
    rw [← replied] at rooted' proper
    rw [logged,sessions]
    refine ⟨honest.cons proper,rooted',fun memory member => ?_⟩
    rcases List.mem_or_eq_of_mem_set member with old | rfl
    · exact List.subset_cons_of_subset _ (known memory old)
    · exact List.cons_subset_cons _ mine

theorem run_sound [BoostJson] (steps : List FrontStep) (sound : FrontSound cfg desk) : FrontSound cfg (desk.run cfg workers steps) := by
  induction steps generalizing desk with
  | nil => exact sound
  | cons taken steps ih => exact ih (sound.step taken)

/-- The token was accepted when it had not expired, after it had been issued on the word of the directory and while nobody
had revoked it. -/
def TokenAccepted (cfg : AuthSettings) (log : List FrontEntry) (token : Bytes) (scope : Scope) (name : Bytes) : Prop :=
  ∃ later time earlier expires, log = later ++ ⟨time,⟨.verifyToken token scope,.ok name⟩⟩ :: earlier ∧
    Issued cfg earlier (cfg.sha256 token) name scope expires ∧ time < expires

theorem Honest.accepted {log : List FrontEntry} (honest : Honest cfg log) {token : Bytes}
    (member : (⟨.verifyToken token scope,.ok name⟩ : Event Front) ∈ listEvents log) :
    TokenAccepted cfg log token scope name := by
  obtain ⟨⟨time,event⟩,logged,same⟩ := List.mem_map.mp member
  obtain ⟨later,earlier,split⟩ := List.append_of_mem logged
  subst same
  obtain ⟨expires,issued,fresh⟩ := honest later _ earlier split
  exact ⟨later,time,earlier,expires,split,issued,fresh⟩

/-- The requests that were let in, as whom, and what they had asked. -/
def FrontDesk.served (desk : FrontDesk) : List (FrontRequest × Caller × List (Event Front)) :=
  desk.threads.filterMap fun t => match t.rest with
    | .ret (.served caller _) => some (t.context,caller,t.memo)
    | _ => none

end Desk

namespace Sample

def adminLogin : FrontRequest :=
  ⟨⟨.post,ascii "/admin/token",.adminPassword,some (.admin .login)⟩,by decide,{},ascii "Basic cm9vdDpwdw==",ascii "::1"⟩

end Sample

end Confide
