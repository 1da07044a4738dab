import Confide.Directory
import Confide.Ledger

/-! Who can read what is sent to an accepted name. The check of the destination, the name at login and the access rule
each have their own notion of a user's name. -/
namespace Confide

open Bytes

structure LdapDirectory.Coherent (d : LdapDirectory) : Prop where
  spells : d.server.Spells
  binds : ∀ entry ∈ d.binds.table, ∃ account, d.server.findUser entry.1 = some account ∧ entry.2.name = account.username
  users : ∀ entry ∈ d.users.table, entry.2.groups = (d.server.findUser entry.1).map (·.groups)

theorem mem_prune {since : α → Int} {ttl now : Int} {cache : Table Bytes α}
    (member : entry ∈ (prune since ttl now cache).table) :
    entry ∈ cache.table := by
  unfold prune at member
  split at member
  · exact ((Table.mem_eraseIf ..).mp member).1
  · exact member

theorem mem_prune_insert {since : α → Int} {ttl now : Int} {cache : Table Bytes α} {key : Bytes} {value : α}
    (member : entry ∈ ((prune since ttl now cache).insertOrAssign key value).table) :
    entry = (key,value) ∨ entry ∈ cache.table := by
  rcases (Table.mem_insertOrAssign ..).mp member with rfl | ⟨inside,_⟩
  · exact .inl rfl
  · exact .inr (mem_prune inside)

namespace LdapDirectory

variable {d : LdapDirectory} {ask : Asked}

theorem Coherent.verify (coherent : d.Coherent) (sha256 : Bytes → Sha256Digest) (ask : Asked) (user password : Bytes) :
    (d.verify sha256 ask user password).1.Coherent ∧ (d.verify sha256 ask user password).1.server = d.server ∧
      ∀ name, (d.verify sha256 ask user password).2 = .ok name →
        ∃ account, d.server.findUser user = some account ∧ name = account.username := by
  unfold LdapDirectory.verify
  split
  · exact ⟨coherent,rfl,fun _ bad => by cases bad⟩
  dsimp only
  split
  · rename_i bind cached
    obtain ⟨found,_⟩ := Option.filter_eq_some_iff.mp cached
    obtain ⟨account,known,same⟩ := coherent.binds _ ((Table.find_eq_some ..).mp found)
    exact ⟨coherent,rfl,fun name given => ⟨account,known,(Except.ok.inj given).symm.trans same⟩⟩
  split
  · exact ⟨coherent,rfl,fun _ bad => by cases bad⟩
  split
  · exact ⟨coherent,rfl,fun _ bad => by cases bad⟩
  · rename_i account right
    have known := coherent.spells.bound right
    refine ⟨⟨coherent.spells,?_,?_⟩,rfl,fun name given => ⟨account,known,(Except.ok.inj given).symm⟩⟩
    · intro entry member
      rcases mem_prune_insert member with rfl | inside
      · exact ⟨account,known,rfl⟩
      · exact coherent.binds entry inside
    · intro entry member
      rcases mem_prune_insert member with rfl | inside
      · rw [known]
        rfl
      · exact coherent.users entry inside

/-- Whether the groups of a user can be told: from the cache or from the server. -/
def canTell (d : LdapDirectory) (ask : Asked) (user : Bytes) : Bool :=
  (d.users.find user).any (fun entry => d.fresh ask entry.since) || ask.up

section

variable (coherent : d.Coherent) (ask)
include coherent

/-- The groups of a valid name, if they can be told, are those of the server. -/
theorem Coherent.groupsOf (user : Bytes) :
    (d.groupsOf ask user).1.Coherent ∧ (d.groupsOf ask user).1.server = d.server ∧
      (d.groupsOf ask user).2 = if !isValidName user then .ok none
        else if d.canTell ask user then .ok ((d.server.findUser user).map (·.groups)) else .error unavailable := by
  unfold LdapDirectory.groupsOf canTell
  split
  · exact ⟨coherent,rfl,rfl⟩
  split
  · rename_i entry cached
    obtain ⟨found,isFresh⟩ := Option.filter_eq_some_iff.mp cached
    refine ⟨coherent,rfl,?_⟩
    rw [found,Option.any_some,isFresh,Bool.true_or,if_pos rfl,← coherent.users _ ((Table.find_eq_some ..).mp found)]
  · rename_i stale
    have none : (d.users.find user).any (fun entry => d.fresh ask entry.since) = false := by
      cases found : d.users.find user with
      | none => rfl
      | some entry =>
        rw [found] at stale
        simpa [Option.filter] using stale
    rw [none,Bool.false_or]
    cases up : ask.up with
    | false => exact ⟨coherent,rfl,rfl⟩
    | true =>
      refine ⟨⟨coherent.spells,coherent.binds,?_⟩,rfl,rfl⟩
      intro entry member
      rcases mem_prune_insert member with rfl | inside
      · rfl
      · exact coherent.users entry inside

theorem Coherent.hasUser (name : Bytes) :
    (d.hasUser ask name).1.Coherent ∧ (d.hasUser ask name).1.server = d.server ∧
      ((d.hasUser ask name).2 = .ok true → isValidName name = true ∧ ∃ account, d.server.findUser name = some account) := by
  obtain ⟨kept,same,groups⟩ := coherent.groupsOf ask name
  refine ⟨kept,same,fun found => ?_⟩
  unfold LdapDirectory.hasUser at found
  dsimp only at found
  rw [groups] at found
  split at found
  · contradiction
  split at found
  · rename_i valid _
    refine ⟨by simpa using valid,?_⟩
    simpa [Except.map,Option.isSome_iff_exists] using found
  · contradiction

theorem Coherent.hasGroup (name : Bytes) :
    (d.hasGroup ask name).1.Coherent ∧ (d.hasGroup ask name).1.server = d.server := by
  unfold LdapDirectory.hasGroup
  split
  · exact ⟨coherent,rfl⟩
  split
  · exact ⟨coherent,rfl⟩
  split
  · exact ⟨coherent,rfl⟩
  split
  · exact ⟨coherent,rfl⟩
  · exact ⟨⟨coherent.spells,coherent.binds,coherent.users⟩,rfl⟩

theorem Coherent.isMember (user group : Bytes) :
    (d.isMember ask user group).1.Coherent ∧ (d.isMember ask user group).1.server = d.server ∧
      ((d.isMember ask user group).2 = true ↔ isValidName user = true ∧ d.canTell ask user = true ∧
        ∃ account, d.server.findUser user = some account ∧ ∃ name ∈ account.groups, iequals name group = true) := by
  obtain ⟨kept,same,groups⟩ := coherent.groupsOf ask user
  refine ⟨kept,same,?_⟩
  unfold LdapDirectory.isMember
  dsimp only
  rw [groups]
  cases isValidName user with
  | false => simp
  | true =>
    cases d.canTell ask user with
    | false => simp
    | true => cases d.server.findUser user <;> simp

end

end LdapDirectory

theorem isKept_toLower (b : UInt8) :
    ((97 ≤ b && b ≤ 122) || (65 ≤ b && b ≤ 90) || (48 ≤ b && b ≤ 57) || b == 45 || b == 95 || b == 46)
    = ((97 ≤ toLower b && toLower b ≤ 122) || (65 ≤ toLower b && toLower b ≤ 90) || (48 ≤ toLower b && toLower b ≤ 57) ||
      toLower b == 45 || toLower b == 95 || toLower b == 46) := by
  revert b
  exact forall_byte (by decide +kernel)

theorem isValidName_lower (name : Bytes) : isValidName name = isValidName (name.map toLower) := by
  unfold isValidName
  rw [List.all_map]
  simp only [List.length_map,Function.comp_def,← isKept_toLower]
  cases name <;> rfl

/-- Two spellings of one name are both valid or both not. -/
theorem isValidName_iequals (same : iequals a b = true) : isValidName a = isValidName b := by
  rw [isValidName_lower a,isValidName_lower b,beq_iff_eq.mp same]

theorem LocalDirectory.verify_name {d : LocalDirectory} (verified : (d.verify pbkdf2 sha256 user password).2 = .ok name) :
    name = user := by
  unfold LocalDirectory.verify at verified
  split at verified
  · contradiction
  · dsimp only at verified
    split at verified
    · exact (Except.ok.inj verified).symm
    · contradiction

namespace UserDirectory

variable {pbkdf2 : Pbkdf2} {sha256 : Bytes → Sha256Digest}

/-- The directory is the one of the configuration, and its caches say the same. -/
def Follows (d : UserDirectory) : DirectoryConfig → Prop
  | .local users _ => ∃ l, d = .local l ∧ l.users = users
  | .ldap server _ _ _ => ∃ l, d = .ldap l ∧ l.server = server ∧ l.Coherent

theorem follows_make (cfg : DirectoryConfig) : (makeDirectory cfg).Follows cfg := by
  cases cfg with
  | «local» users groups => exact ⟨_,rfl,rfl⟩
  | ldap server spells ttl salt => exact ⟨_,rfl,rfl,spells,nofun,nofun⟩

theorem Follows.answer {d : UserDirectory} {cfg : DirectoryConfig} (follows : d.Follows cfg) (step : Asked × DirectoryCall) :
    (d.answer pbkdf2 sha256 step).Follows cfg := by
  obtain ⟨ask,call⟩ := step
  cases cfg with
  | «local» users groups =>
    obtain ⟨l,rfl,same⟩ := follows
    cases call with
    | verify user password =>
      refine ⟨_,rfl,?_⟩
      rw [← same]
      split
      · rfl
      · unfold LocalDirectory.checkPassword
        dsimp only
        split
        · rfl
        · split <;> rfl
    | hasUser name | hasGroup name | isMember user group => exact ⟨l,rfl,same⟩
  | ldap server spells ttl salt =>
    obtain ⟨l,rfl,same,coherent⟩ := follows
    cases call with
    | verify user password =>
      obtain ⟨kept,server,_⟩ := coherent.verify sha256 ask user password
      exact ⟨_,rfl,server.trans same,kept⟩
    | hasUser name =>
      obtain ⟨kept,server,_⟩ := coherent.hasUser ask name
      exact ⟨_,rfl,server.trans same,kept⟩
    | hasGroup name =>
      obtain ⟨kept,server⟩ := coherent.hasGroup ask name
      exact ⟨_,rfl,server.trans same,kept⟩
    | isMember user group =>
      obtain ⟨kept,server,_⟩ := coherent.isMember ask user group
      exact ⟨_,rfl,server.trans same,kept⟩

end UserDirectory

def directoryAfter (pbkdf2 : Pbkdf2) (sha256 : Bytes → Sha256Digest) (cfg : DirectoryConfig)
    (calls : List (Asked × DirectoryCall)) : UserDirectory :=
  Runs.run (UserDirectory.answer pbkdf2 sha256) (makeDirectory cfg) calls

theorem directoryAfter_follows (pbkdf2 : Pbkdf2) (sha256 : Bytes → Sha256Digest) (cfg : DirectoryConfig)
    (calls : List (Asked × DirectoryCall)) : (directoryAfter pbkdf2 sha256 cfg calls).Follows cfg := by
  have from_ : ∀ d : UserDirectory, d.Follows cfg → (Runs.run (UserDirectory.answer pbkdf2 sha256) d calls).Follows cfg := by
    induction calls with
    | nil => exact fun _ follows => follows
    | cons step rest ih => exact fun _ follows => ih _ (follows.answer step)
  exact from_ _ (UserDirectory.follows_make cfg)

/-- The check lets the target pass as a user of this server. -/
def AcceptedAsUser (dest : DestinationConfig) (d : UserDirectory) (ask : Asked) (target server : Bytes) : Prop :=
  (server = [] ∨ server = dest.instanceName) ∧ (destinationCheck dest ask target server d).2 = .ok () ∧
    (d.hasUser ask target).2 = .ok true

def SameAccount (target login : Bytes) : DirectoryConfig → Prop
  | .local _ _ => login = target
  | .ldap server _ _ _ => server.findUser login = server.findUser target

def UserDirectory.canTell (ask : Asked) (user : Bytes) : UserDirectory → Bool
  | .local _ => true
  | .ldap d => d.canTell ask user

/-- The target is spelled as the directory spells it, or the account is in a group of that name. -/
def Reaches (d : UserDirectory) (ask : Asked) (target : Bytes) : DirectoryConfig → Prop
  | .local _ _ => True
  | .ldap server _ _ _ => ∃ account, server.findUser target = some account ∧
    (account.username = target ∨
      d.canTell ask account.username = true ∧ ∃ group ∈ account.groups, iequals group target = true)

/-- The operations that bring a transaction for a user of this server. -/
def Op.Addresses (opts : ServiceOptions) (target : Bytes) : Op → Prop
  | .create _ req => req.targetUser = target ∧ (req.targetServer = [] ∨ req.targetServer = opts.localServer)
  | .receive _ req => req.targetUser = target
  | _ => False

theorem Opens.addressed {opts : ServiceOptions} {env : Env} {op : Op} {tx : Transaction} (opens : Opens opts env op tx)
    (addresses : op.Addresses opts target) : tx.targetUser = target ∧ tx.targetServer = [] := by
  cases opens with
  | created => exact ⟨addresses.1,if_pos addresses.2⟩
  | received => exact ⟨addresses,rfl⟩

theorem new_addressed [BoostJson] {sha256 : Bytes → Sha256Digest} {opts : ServiceOptions} {env : Env} {s : Server} {op : Op}
    {id : TransactionId} {tx : Transaction} (keyed : Keyed s.world.index) (addresses : op.Addresses opts target)
    (absent : s.world.index.lookup id = none) (stored : (s.step sha256 opts env op).world.index.lookup id = some tx) :
    tx.targetUser = target ∧ tx.targetServer = [] := by
  have takes := (step_takes sha256 opts env keyed op).1.1
  generalize (s.step sha256 opts env op).world.index = after at takes stored
  generalize s.world.index = before at takes absent
  generalize s.reply sha256 opts env op = reply at takes
  have elsewhere : ∀ (owner : TransactionId) (other : Transaction), (before.insert owner other).lookup id = some tx →
      id = owner ∧ tx = other := by
    intro owner other found
    by_cases same : id = owner
    · subst same
      rw [Finmap.lookup_insert] at found
      exact ⟨rfl,(Option.some.inj found).symm⟩
    · rw [Finmap.lookup_insert_of_ne _ same,absent] at found
      contradiction
  cases takes with
  | opened opens _ =>
    obtain ⟨_,rfl⟩ := elsewhere _ _ stored
    exact opens.addressed addresses
  | updated known _ _ | marked _ known _ _ =>
    obtain ⟨rfl,_⟩ := elsewhere _ _ stored
    rw [known] at absent
    contradiction
  | dropped known drops => cases drops <;> exact addresses.elim
  | streamed _ | refused _ =>
    rw [stored] at absent
    contradiction

/-- A name that the directory accepts as a user, the transaction that is brought for it, and the name that the account's
login gives: they go together exactly if the target is spelled as in the directory, or names a group of the account. -/
theorem accepted_targets_read [BoostJson] (pbkdf2 : Pbkdf2) (sha256 : Bytes → Sha256Digest) (cfg : DirectoryConfig)
    (dest : DestinationConfig)
    (opts : ServiceOptions) (before login later : List (Asked × DirectoryCall)) (ask askLogin askLater : Asked)
    (target server : Bytes) (accepted : AcceptedAsUser dest (directoryAfter pbkdf2 sha256 cfg before) ask target server)
    (steps : List (Env × Op)) (s : Server) (reached : s = Server.empty.run sha256 opts steps) (env : Env) (op : Op)
    (addresses : op.Addresses opts target) (id : TransactionId) (tx : Transaction)
    (absent : s.world.index.lookup id = none) (stored : (s.step sha256 opts env op).world.index.lookup id = some tx)
    (user password name : Bytes) (own : SameAccount target user cfg)
    (verified : ((directoryAfter pbkdf2 sha256 cfg login).verify pbkdf2 sha256 askLogin user password).2 = .ok name)
    (isAdmin : Bool) : isTarget ⟨name,false,isAdmin⟩ tx (fun user group =>
        ((directoryAfter pbkdf2 sha256 cfg later).isMember askLater user group).2) = true ↔
      Reaches (directoryAfter pbkdf2 sha256 cfg later) askLater target cfg := by
  have orderly : Orderly s := reached ▸ run_orderly empty_orderly steps
  obtain ⟨toTarget,here⟩ := new_addressed orderly.keyed addresses absent stored
  have target_iff : isTarget ⟨name,false,isAdmin⟩ tx (fun user group =>
      ((directoryAfter pbkdf2 sha256 cfg later).isMember askLater user group).2) = true ↔
      name = target ∨ ((directoryAfter pbkdf2 sha256 cfg later).isMember askLater name target).2 = true := by
    simp [isTarget,here,toTarget]
  rw [target_iff]
  have first := directoryAfter_follows pbkdf2 sha256 cfg before
  have second := directoryAfter_follows pbkdf2 sha256 cfg login
  have third := directoryAfter_follows pbkdf2 sha256 cfg later
  generalize directoryAfter pbkdf2 sha256 cfg before = d₁ at accepted first
  generalize directoryAfter pbkdf2 sha256 cfg login = d₂ at verified second
  generalize directoryAfter pbkdf2 sha256 cfg later = d₃ at third
  cases cfg with
  | «local» users groups =>
    obtain ⟨l,rfl,_⟩ := second
    obtain rfl : user = target := own
    exact iff_of_true (.inl (LocalDirectory.verify_name verified)) trivial
  | ldap ldapServer spells ttl salt =>
    obtain ⟨l₁,rfl,rfl,coherent₁⟩ := first
    obtain ⟨l₂,rfl,same₂,coherent₂⟩ := second
    obtain ⟨l₃,rfl,same₃,coherent₃⟩ := third
    obtain ⟨valid,account,known⟩ := (coherent₁.hasUser ask target).2.2 accepted.2.2
    obtain ⟨account',known',rfl⟩ := (coherent₂.verify sha256 askLogin user password).2.2 name verified
    obtain rfl : account' = account := by
      rw [same₂,own,known] at known'
      exact (Option.some.inj known').symm
    obtain ⟨spelled,again⟩ := spells.spelled known
    have member : ((UserDirectory.ldap l₃).isMember askLater account'.username target).2 = true ↔ _ :=
      (coherent₃.isMember askLater account'.username target).2.2
    rw [member,same₃,again,isValidName_iequals spelled,valid]
    simp [Reaches,known,UserDirectory.canTell]

structure LdapAccount where
  username : Bytes
  password : Bytes
  groups : List Bytes

def LdapAccount.user (account : LdapAccount) : LdapUser := ⟨account.username,account.groups⟩

namespace LdapServer

variable (accounts : List LdapAccount)

def search (name : Bytes) : List LdapAccount := accounts.filter (iequals ·.username name)

def searchUser (name : Bytes) : Option LdapUser :=
  if name = [] then none
  else match search accounts name with
    | [account] => some account.user
    | _ => none

/-- An empty password is never sent to the server. -/
def bind (name password : Bytes) : Option LdapUser :=
  if name = [] ∨ password = [] then none
  else match search accounts name with
    | [account] => if account.password = password then some account.user else none
    | _ => none

variable {accounts} {name password : Bytes} {user : LdapUser}

theorem searchUser_of_bind (right : bind accounts name password = some user) : searchUser accounts name = some user := by
  unfold bind at right
  unfold searchUser
  split at right
  · contradiction
  · rename_i given
    rw [if_neg fun empty => given (.inl empty)]
    generalize search accounts name = found at right ⊢
    split at right
    · split at right
      · exact right
      · contradiction
    · contradiction

theorem searchUser_spelling (found : searchUser accounts name = some user) :
    iequals user.username name = true ∧ searchUser accounts user.username = some user := by
  unfold searchUser at found
  split at found
  · contradiction
  rename_i given
  split at found
  · rename_i only matching
    cases found
    have same : iequals only.username name = true := by
      have member : only ∈ search accounts name := by rw [matching]; exact List.mem_singleton_self _
      exact (List.mem_filter.mp member).2
    have lower : only.username.map toLower = name.map toLower := beq_iff_eq.mp same
    have nonempty : only.username ≠ [] := by
      intro empty
      rw [empty] at lower
      exact given (List.map_eq_nil_iff.mp lower.symm)
    have sameSearch : search accounts only.username = search accounts name := by
      simp only [search,iequals,lower]
    refine ⟨same,?_⟩
    rw [searchUser,LdapAccount.user,if_neg nonempty,sameSearch,matching]
    rfl
  · contradiction

/-- Several groups of one name are an error. -/
def listed (accounts : List LdapAccount) (groupNames : List Bytes) : LdapServer where
  authenticate := bind accounts
  findUser := searchUser accounts
  findGroup name := if name = [] then some false
    else match groupNames.filter (iequals · name) with
      | [] => some false
      | [_] => some true
      | _ => none
  groups_bound right := by rw [searchUser_of_bind right]; rfl

theorem listed_spells (groupNames : List Bytes) : (listed accounts groupNames).Spells :=
  ⟨searchUser_of_bind,searchUser_spelling⟩

end LdapServer

namespace Sample

def bobs : DirectoryConfig :=
  .ldap (.listed [⟨ascii "bob",ascii "secret",[ascii "staff"]⟩] [ascii "staff"]) (LdapServer.listed_spells _) 60
    ((List.range 16).map UInt8.ofNat)

def destinations : DestinationConfig := ⟨ascii "alpha",ascii "admins",[]⟩

def noon : Asked := ⟨43200,true⟩

/-- SHA-256 of what the password of bob is cached under, and of files. -/
def loginSha256 (content : Bytes) : Sha256Digest :=
  if content = (List.range 16).map UInt8.ofNat ++ ascii "bob" ++ 0 :: ascii "secret" then
    .ofNat 0xbd8f7b16bfbc6b343781fa50d1a2bb82949fd78ee29f55e88e51cb92829e8e45
  else sha256 content

def noPbkdf2 : Pbkdf2 := fun _ _ _ _ => none

def wiredEnv : Env := { env with
  destination := fun user server => (destinationCheck destinations noon user server (makeDirectory bobs)).2
  recipient := fun user group => ((makeDirectory bobs).isMember noon user group).2 }

def sendTo (target : Bytes) : List (Env × Op) :=
  [(wiredEnv,.create alice ⟨target,[],0,[]⟩),(wiredEnv,.beginUpload alice id path),(wiredEnv,.finishUpload 0 none),
    (wiredEnv,.commit alice id)]

end Sample

theorem spelled_target_reads :
    let s := Server.empty.step Sample.loginSha256 Sample.opts Sample.wiredEnv (.create Sample.alice ⟨ascii "bob",[],0,[]⟩)
    ∃ tx, s.world.index.lookup Sample.id = some tx ∧
      isTarget ⟨ascii "bob",false,false⟩ tx (fun user group =>
        ((directoryAfter Sample.noPbkdf2 Sample.loginSha256 Sample.bobs []).isMember Sample.noon user group).2) = true := by
  intro s
  obtain ⟨tx,stored⟩ : ∃ tx, s.world.index.lookup Sample.id = some tx := Option.isSome_iff_exists.mp (by decide +kernel)
  refine ⟨tx,stored,(accepted_targets_read Sample.noPbkdf2 Sample.loginSha256 Sample.bobs Sample.destinations
    Sample.opts [] [] []
    Sample.noon Sample.noon Sample.noon (ascii "bob") [] ⟨.inl rfl,by decide +kernel,by decide +kernel⟩ [] Server.empty rfl
    Sample.wiredEnv (.create Sample.alice ⟨ascii "bob",[],0,[]⟩) ⟨rfl,.inl rfl⟩ Sample.id tx rfl stored
    (ascii "bob") (ascii "secret") (ascii "bob") rfl (by decide +kernel) false).mpr ?_⟩
  exact ⟨⟨ascii "bob",[ascii "staff"]⟩,by decide +kernel,.inl rfl⟩

/-- The directory takes Bob for the account bob. The file is sent and committed, and bob cannot read it. -/
theorem other_spelling_unread :
    let s := Server.empty.run Sample.loginSha256 Sample.opts (Sample.sendTo (ascii "Bob"))
    (destinationCheck Sample.destinations Sample.noon (ascii "Bob") [] (makeDirectory Sample.bobs)).2 = .ok () ∧
      ((makeDirectory Sample.bobs).hasUser Sample.noon (ascii "Bob")).2 = .ok true ∧
      ((makeDirectory Sample.bobs).verify Sample.noPbkdf2 Sample.loginSha256 Sample.noon (ascii "bob") (ascii "secret")).2 =
        .ok (ascii "bob") ∧
      (s.world.index.lookup Sample.id).map (fun tx => (tx.state,tx.targetUser,tx.targetServer)) =
        some (.committed,ascii "Bob",[]) ∧
      (s.world.index.lookup Sample.id).map (fun tx => mayRead ⟨ascii "bob",false,false⟩ tx Sample.wiredEnv.recipient) =
        some false := by
  decide +kernel

end Confide
