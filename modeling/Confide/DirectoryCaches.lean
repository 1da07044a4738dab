import Confide.Recipients

/-! What the caches of the two directories can change. The local one remembers passwords that were right and
nothing else. The LDAP one answers from what the server said at an earlier call, for as long as its entries are
fresh; the server may change from call to call. -/
namespace Confide

open Bytes

namespace LocalDirectory

variable {pbkdf2 : Pbkdf2} {sha256 : Bytes → Sha256Digest} {d : LocalDirectory}

def login (pbkdf2 : Pbkdf2) (sha256 : Bytes → Sha256Digest) (d : LocalDirectory) (call : Bytes × Bytes) :
    LocalDirectory :=
  (d.verify pbkdf2 sha256 call.1 call.2).1

def uncached (pbkdf2 : Pbkdf2) (users : Table Bytes PasswordHash) (user password : Bytes) : Result Bytes :=
  match users.find user with
  | none => .error loginDenied
  | some hash => if hash.verify pbkdf2 password then .ok user else .error loginDenied

/-- Every fingerprint is that of a password which the user's own hash accepts. -/
def Proven (pbkdf2 : Pbkdf2) (sha256 : Bytes → Sha256Digest) (typed : Set Bytes) (d : LocalDirectory) : Prop :=
  ∀ user print, (user,print) ∈ d.verified.table → ∃ hash password, d.users.find user = some hash ∧
    password ∈ typed ∧ print = sha256 (hash.salt ++ password) ∧ hash.verify pbkdf2 password = true

theorem Proven.checkPassword {typed : Set Bytes} {user password : Bytes} {hash : PasswordHash}
    (proven : d.Proven pbkdf2 sha256 typed) (known : d.users.find user = some hash) (member : password ∈ typed)
    (apart : Set.InjOn (fun p => sha256 (hash.salt ++ p)) typed) :
    (d.checkPassword pbkdf2 sha256 user hash password).2 = hash.verify pbkdf2 password ∧
      (d.checkPassword pbkdf2 sha256 user hash password).1.users = d.users ∧
      (d.checkPassword pbkdf2 sha256 user hash password).1.Proven pbkdf2 sha256 typed := by
  unfold LocalDirectory.checkPassword
  dsimp only
  split
  · rename_i cached
    obtain ⟨hash',other,same,used,print,right⟩ := proven user _ ((Table.find_eq_some ..).mp cached)
    obtain rfl := Option.some.inj (known.symm.trans same)
    obtain rfl := apart member used print
    exact ⟨right.symm,rfl,proven⟩
  split
  · rename_i right
    refine ⟨right.symm,rfl,fun name print inside => ?_⟩
    rcases (Table.mem_insertOrAssign ..).mp inside with new | ⟨old,_⟩
    · cases new
      exact ⟨hash,password,known,member,rfl,right⟩
    · exact proven name print old
  · rename_i wrong
    exact ⟨(Bool.eq_false_of_not_eq_true wrong).symm,rfl,proven⟩

theorem Proven.verify {typed : Set Bytes} (proven : d.Proven pbkdf2 sha256 typed) (user : Bytes) {password : Bytes}
    (member : password ∈ typed)
    (apart : ∀ name hash, d.users.find name = some hash → Set.InjOn (fun p => sha256 (hash.salt ++ p)) typed) :
    (d.verify pbkdf2 sha256 user password).2 = uncached pbkdf2 d.users user password ∧
      (d.verify pbkdf2 sha256 user password).1.users = d.users ∧
      (d.verify pbkdf2 sha256 user password).1.Proven pbkdf2 sha256 typed := by
  unfold LocalDirectory.verify uncached
  cases known : d.users.find user with
  | none => exact ⟨rfl,rfl,proven⟩
  | some hash =>
    obtain ⟨answer,users,kept⟩ := proven.checkPassword known member (apart user hash known)
    refine ⟨?_,users,kept⟩
    dsimp only
    rw [answer]

theorem Proven.run {typed : Set Bytes} (calls : List (Bytes × Bytes)) (members : ∀ call ∈ calls, call.2 ∈ typed)
    (proven : d.Proven pbkdf2 sha256 typed)
    (apart : ∀ name hash, d.users.find name = some hash → Set.InjOn (fun p => sha256 (hash.salt ++ p)) typed) :
    (Runs.run (login pbkdf2 sha256) d calls).users = d.users ∧
      (Runs.run (login pbkdf2 sha256) d calls).Proven pbkdf2 sha256 typed := by
  induction calls generalizing d with
  | nil => exact ⟨rfl,proven⟩
  | cons call calls ih =>
    obtain ⟨_,users,kept⟩ := proven.verify call.1 (members call (List.mem_cons_self ..)) apart
    obtain ⟨same,proven⟩ := ih (fun later member => members later (List.mem_cons_of_mem _ member)) kept
      (fun name hash found => apart name hash (users ▸ found))
    exact ⟨same.trans users,proven⟩

theorem uncached_ok {users : Table Bytes PasswordHash} {user password name : Bytes} :
    uncached pbkdf2 users user password = .ok name ↔
      name = user ∧ ∃ hash, users.find user = some hash ∧ hash.verify pbkdf2 password = true := by
  unfold uncached
  constructor
  · intro answer
    split at answer
    · contradiction
    · rename_i hash known
      split at answer
      · rename_i right
        exact ⟨(Except.ok.inj answer).symm,hash,known,right⟩
      · contradiction
  · rintro ⟨rfl,hash,known,right⟩
    rw [known]
    exact if_pos right

end LocalDirectory

/-- After any logins, a login ends as it would without the cache. -/
theorem local_cache_unnoticed (pbkdf2 : Pbkdf2) (sha256 : Bytes → Sha256Digest) (users : Table Bytes PasswordHash)
    (groups : Table Bytes (List Bytes)) (calls : List (Bytes × Bytes)) (user password : Bytes)
    (apart : ∀ name hash, users.find name = some hash → Set.InjOn (fun p => sha256 (hash.salt ++ p))
      {p | p ∈ (calls ++ [(user,password)]).map Prod.snd}) :
    let empty : LocalDirectory := ⟨users,groups,.empty⟩
    let d := Runs.run (LocalDirectory.login pbkdf2 sha256) empty calls
    (d.verify pbkdf2 sha256 user password).2 = (empty.verify pbkdf2 sha256 user password).2 ∧
      ∀ name, (d.verify pbkdf2 sha256 user password).2 = .ok name ↔
        name = user ∧ ∃ hash, users.find user = some hash ∧ hash.verify pbkdf2 password = true := by
  intro empty d
  have start : empty.Proven pbkdf2 sha256 {p | p ∈ (calls ++ [(user,password)]).map Prod.snd} := nofun
  have last : password ∈ {p | p ∈ (calls ++ [(user,password)]).map Prod.snd} := by simp
  obtain ⟨same,proven⟩ := start.run calls (fun call member => List.mem_map.mpr ⟨call,by simp [member],rfl⟩) apart
  obtain ⟨after,_⟩ := proven.verify user last fun name hash found =>
    apart name hash ((congrArg (·.find name) same).symm.trans found)
  obtain ⟨without,_⟩ := start.verify user last apart
  rw [same] at after
  refine ⟨after.trans without.symm,fun name => ?_⟩
  rw [after]
  exact LocalDirectory.uncached_ok

namespace Sample

/-- SHA-256 of what passwords are cached under here. -/
def saltedSha256 (content : Bytes) : Sha256Digest :=
  .ofNat (if content = ascii "saltsecret" then 0xbede90386d450cea8b77b822f8887065e4e5abf132c2f9dccfcc7fbd4cba5e35
    else if content = ascii "saltguess" then 0x5a253a81c2a02d2ece12ecfa20a54e592e606484b079f2bce57295f35a5182c0
    else 0x57799ff389f26ee0eeb9db40d0b3da29f45c12c230bc0faf42429d9007cce9ce)

def plainPbkdf2 : Pbkdf2 := fun password _ _ _ => some password

def annes : Table Bytes PasswordHash := Table.empty.insertOrAssign (ascii "anne") ⟨1000,ascii "salt",ascii "secret"⟩

end Sample

/-- A right password is cached, and a wrong one is refused after it. -/
theorem local_cache_unnoticed_wrong :
    ((Runs.run (LocalDirectory.login Sample.plainPbkdf2 Sample.saltedSha256) ⟨Sample.annes,.empty,.empty⟩
      [(ascii "anne",ascii "secret")]).verify Sample.plainPbkdf2 Sample.saltedSha256 (ascii "anne") (ascii "guess")).2 =
      .error loginDenied := by
  refine (local_cache_unnoticed Sample.plainPbkdf2 Sample.saltedSha256 Sample.annes .empty [(ascii "anne",ascii "secret")]
    (ascii "anne") (ascii "guess") ?_).1.trans (by decide +kernel)
  intro name hash found
  obtain rfl : hash = ⟨1000,ascii "salt",ascii "secret"⟩ := by
    rw [Sample.annes,Table.find_insertOrAssign] at found
    split at found
    · exact (Option.some.inj found).symm
    · contradiction
  intro a first b second same
  simp only [List.map_cons,List.map_nil,List.cons_append,List.nil_append,Set.mem_ofPred_eq,
    List.mem_cons,List.not_mem_nil,or_false] at first second
  rcases first with rfl | rfl <;> rcases second with rfl | rfl
  · rfl
  · exact absurd same (by decide +kernel)
  · exact absurd same (by decide +kernel)
  · rfl

inductive Answer where
  | login (name : Result Bytes)
  | found (result : Result Bool)
  | member (yes : Bool)

def Answer.Positive : Answer → Prop
  | .login name => ∃ n, name = .ok n
  | .found result => result = .ok true
  | .member yes => yes = true

def LdapServer.answer (server : LdapServer) : DirectoryCall → Option Answer
  | .verify user password => some (.login (match server.authenticate user password with
    | some account => .ok account.username
    | none => .error loginDenied))
  | .hasUser name => some (.found (.ok (server.findUser name).isSome))
  | .hasGroup name => (server.findGroup name).map fun present => .found (.ok present)
  | .isMember user group => some (.member (match server.findUser user with
    | some account => account.groups.any (iequals · group)
    | none => false))

/-- A call, with the time and the content of the directory when it is made. -/
structure Moment where
  now : Int
  server : LdapServer
  up : Bool
  call : DirectoryCall

def DirectoryCall.subject : DirectoryCall → Bytes
  | .verify user _ => user
  | .hasUser name => name
  | .hasGroup name => name
  | .isMember user _ => user

namespace LdapDirectory

variable (sha256 : Bytes → Sha256Digest)

def printed (salt user password : Bytes) : Bytes := salt ++ user ++ [0] ++ password

def reply (d : LdapDirectory) (m : Moment) : LdapDirectory × Answer :=
  let d := { d with server := m.server }
  match m.call with
  | .verify user password =>
    let (d,name) := d.verify sha256 ⟨m.now,m.up⟩ user password
    (d,.login name)
  | .hasUser name =>
    let (d,result) := d.hasUser ⟨m.now,m.up⟩ name
    (d,.found result)
  | .hasGroup name =>
    let (d,result) := d.hasGroup ⟨m.now,m.up⟩ name
    (d,.found result)
  | .isMember user group =>
    let (d,yes) := d.isMember ⟨m.now,m.up⟩ user group
    (d,.member yes)

/-- No fresh entry answers the call, so the server is asked. -/
def Consults (d : LdapDirectory) (m : Moment) : Prop :=
  match m.call with
  | .verify user password => ∀ bind, d.binds.find user = some bind → d.fresh ⟨m.now,m.up⟩ bind.since = true →
    bind.print ≠ sha256 (printed d.salt user password)
  | .hasUser name => ∀ entry, d.users.find name = some entry → d.fresh ⟨m.now,m.up⟩ entry.since = false
  | .hasGroup name => ∀ entry, d.groups.find name = some entry → d.fresh ⟨m.now,m.up⟩ entry.since = false
  | .isMember user _ => ∀ entry, d.users.find user = some entry → d.fresh ⟨m.now,m.up⟩ entry.since = false

def Fails (d : LdapDirectory) (m : Moment) : Prop :=
  d.Consults sha256 m ∧ (m.up = false ∨ m.server.answer m.call = none)

/-- Every entry says what the server said at the call that made it. -/
structure Remembers (ttl : Int) (salt : Bytes) (past : List Moment) (d : LdapDirectory) : Prop where
  ttl : d.ttl = ttl
  salt : d.salt = salt
  binds : ∀ user bind, (user,bind) ∈ d.binds.table → ∃ m ∈ past, m.now = bind.since ∧ ∃ password account,
    m.call = .verify user password ∧ bind.print = sha256 (printed d.salt user password) ∧
      m.server.authenticate user password = some account ∧ bind.name = account.username
  users : ∀ user entry, (user,entry) ∈ d.users.table → ∃ m ∈ past, m.now = entry.since ∧
    entry.groups = (m.server.findUser user).map (·.groups)
  groups : ∀ name entry, (name,entry) ∈ d.groups.table → ∃ m ∈ past, m.now = entry.since ∧
    m.server.findGroup name = some entry.present

variable {sha256} {d : LdapDirectory} {ask : Asked} {user password name : Bytes}

theorem verify_cases (sha256 : Bytes → Sha256Digest) (d : LdapDirectory) (ask : Asked) (password : Bytes)
    (valid : isValidName user = true) : (∃ bind, d.binds.find user = some bind ∧ d.fresh ask bind.since = true ∧
      bind.print = sha256 (printed d.salt user password) ∧ d.verify sha256 ask user password = (d,.ok bind.name)) ∨
    (∀ bind, d.binds.find user = some bind → d.fresh ask bind.since = true →
      bind.print ≠ sha256 (printed d.salt user password)) ∧
    d.verify sha256 ask user password =
      if !ask.up then (d,.error unavailable)
      else match d.server.authenticate user password with
        | none => (d,.error loginDenied)
        | some account =>
          ({ d with
              binds := (prune Bind.since d.ttl ask.now d.binds).insertOrAssign user
                ⟨sha256 (printed d.salt user password),account.username,ask.now⟩
              users := (prune UserEntry.since d.ttl ask.now d.users).insertOrAssign user ⟨some account.groups,ask.now⟩ },
            .ok account.username) := by
  unfold LdapDirectory.verify
  rw [valid]
  simp only [Bool.not_true,Bool.false_eq_true,if_false]
  cases cached : (d.binds.find user).filter fun bind =>
      d.fresh ask bind.since && bind.print == sha256 (d.salt ++ user ++ [0] ++ password) with
  | some bind =>
    obtain ⟨found,use⟩ := Option.filter_eq_some_iff.mp cached
    obtain ⟨isFresh,same⟩ := Bool.and_eq_true_iff.mp use
    exact .inl ⟨bind,found,isFresh,beq_iff_eq.mp same,rfl⟩
  | none =>
    refine .inr ⟨fun bind found isFresh same => ?_,rfl⟩
    have dropped := Option.filter_eq_none_iff.mp cached bind found
    exact dropped (Bool.and_eq_true_iff.mpr ⟨isFresh,beq_iff_eq.mpr same⟩)

/-- A cached value that is no longer fresh is as good as none. -/
theorem filter_fresh {α : Type} (found : Option α) (fresh : α → Bool) :
    (∃ entry, found = some entry ∧ fresh entry = true ∧ found.filter fresh = some entry) ∨
      (∀ entry, found = some entry → fresh entry = false) ∧ found.filter fresh = none := by
  cases found with
  | none => exact .inr ⟨nofun,rfl⟩
  | some entry =>
    cases isFresh : fresh entry with
    | true => exact .inl ⟨entry,rfl,isFresh,Option.filter_eq_some_iff.mpr ⟨rfl,isFresh⟩⟩
    | false =>
      refine .inr ⟨fun other same => Option.some.inj same ▸ isFresh,Option.filter_eq_none_iff.mpr fun other same => ?_⟩
      cases same
      simp [isFresh]

theorem groupsOf_cases (d : LdapDirectory) (ask : Asked) (valid : isValidName user = true) :
    (∃ entry, d.users.find user = some entry ∧ d.fresh ask entry.since = true ∧
      d.groupsOf ask user = (d,.ok entry.groups)) ∨
    (∀ entry, d.users.find user = some entry → d.fresh ask entry.since = false) ∧ d.groupsOf ask user =
      if !ask.up then (d,.error unavailable)
      else
        let groups := (d.server.findUser user).map (·.groups)
        ({ d with users := (prune UserEntry.since d.ttl ask.now d.users).insertOrAssign user ⟨groups,ask.now⟩ },
          .ok groups) := by
  unfold LdapDirectory.groupsOf
  rw [valid]
  simp only [Bool.not_true,Bool.false_eq_true,if_false]
  rcases filter_fresh (d.users.find user) (fun entry => d.fresh ask entry.since) with
    ⟨entry,found,isFresh,kept⟩ | ⟨stale,dropped⟩
  · rw [kept]
    exact .inl ⟨entry,found,isFresh,rfl⟩
  · rw [dropped]
    exact .inr ⟨stale,rfl⟩

theorem hasGroup_cases (d : LdapDirectory) (ask : Asked) (valid : isValidName name = true) :
    (∃ entry, d.groups.find name = some entry ∧ d.fresh ask entry.since = true ∧
      d.hasGroup ask name = (d,.ok entry.present)) ∨
    (∀ entry, d.groups.find name = some entry → d.fresh ask entry.since = false) ∧ d.hasGroup ask name =
      if !ask.up then (d,.error unavailable)
      else match d.server.findGroup name with
        | none => (d,.error unavailable)
        | some present =>
          ({ d with groups := (prune GroupEntry.since d.ttl ask.now d.groups).insertOrAssign name ⟨present,ask.now⟩ },
            .ok present) := by
  unfold LdapDirectory.hasGroup
  rw [valid]
  simp only [Bool.not_true,Bool.false_eq_true,if_false]
  rcases filter_fresh (d.groups.find name) (fun entry => d.fresh ask entry.since) with
    ⟨entry,found,isFresh,kept⟩ | ⟨stale,dropped⟩
  · rw [kept]
    exact .inl ⟨entry,found,isFresh,rfl⟩
  · rw [dropped]
    exact .inr ⟨stale,rfl⟩

section Remembering

variable {ttl : Int} {salt : Bytes} {past : List Moment} {m : Moment}

section

variable (remembers : d.Remembers sha256 ttl salt past)
include remembers

theorem Remembers.later (m : Moment) :
    ({ d with server := m.server } : LdapDirectory).Remembers sha256 ttl salt (past ++ [m]) where
  ttl := remembers.ttl
  salt := remembers.salt
  binds user bind inside := by
    obtain ⟨before,member,rest⟩ := remembers.binds user bind inside
    exact ⟨before,List.mem_append_left _ member,rest⟩
  users user entry inside := by
    obtain ⟨before,member,rest⟩ := remembers.users user entry inside
    exact ⟨before,List.mem_append_left _ member,rest⟩
  groups name entry inside := by
    obtain ⟨before,member,rest⟩ := remembers.groups name entry inside
    exact ⟨before,List.mem_append_left _ member,rest⟩

theorem Remembers.assignUser (member : m ∈ past) (user : Bytes)
    (groups : Option (List Bytes)) (said : groups = (m.server.findUser user).map (·.groups)) :
    ({ d with users := (prune UserEntry.since d.ttl m.now d.users).insertOrAssign user ⟨groups,m.now⟩ } :
      LdapDirectory).Remembers sha256 ttl salt past where
  ttl := remembers.ttl
  salt := remembers.salt
  binds := remembers.binds
  groups := remembers.groups
  users name entry inside := by
    rcases mem_prune_insert inside with new | old
    · cases new
      exact ⟨m,member,rfl,said⟩
    · exact remembers.users name entry old

theorem Remembers.verify (member : m ∈ past) (server : d.server = m.server)
    (call : m.call = .verify user password) :
    (d.verify sha256 ⟨m.now,m.up⟩ user password).1.Remembers sha256 ttl salt past := by
  cases valid : isValidName user with
  | false => simpa [LdapDirectory.verify,valid] using remembers
  | true =>
    rcases verify_cases sha256 d ⟨m.now,m.up⟩ password valid with ⟨_,_,_,_,same⟩ | ⟨_,same⟩
    · rw [same]
      exact remembers
    rw [same]
    split
    · exact remembers
    split
    · exact remembers
    · rename_i account right
      rw [server] at right
      have users := remembers.assignUser member user (some account.groups) (m.server.groups_bound right).symm
      refine ⟨remembers.ttl,remembers.salt,fun name bind inside => ?_,users.users,remembers.groups⟩
      rcases mem_prune_insert inside with new | old
      · cases new
        exact ⟨m,member,rfl,password,account,call,rfl,right,rfl⟩
      · exact remembers.binds name bind old

theorem Remembers.groupsOf (member : m ∈ past) (server : d.server = m.server)
    (user : Bytes) : (d.groupsOf ⟨m.now,m.up⟩ user).1.Remembers sha256 ttl salt past := by
  cases valid : isValidName user with
  | false => simpa [LdapDirectory.groupsOf,valid] using remembers
  | true =>
    rcases groupsOf_cases d ⟨m.now,m.up⟩ valid with ⟨_,_,_,same⟩ | ⟨_,same⟩
    · rw [same]
      exact remembers
    rw [same]
    split
    · exact remembers
    · exact remembers.assignUser member user _ (by rw [server])

theorem Remembers.hasGroup (member : m ∈ past) (server : d.server = m.server)
    (name : Bytes) : (d.hasGroup ⟨m.now,m.up⟩ name).1.Remembers sha256 ttl salt past := by
  cases valid : isValidName name with
  | false => simpa [LdapDirectory.hasGroup,valid] using remembers
  | true =>
    rcases hasGroup_cases d ⟨m.now,m.up⟩ valid with ⟨_,_,_,same⟩ | ⟨_,same⟩
    · rw [same]
      exact remembers
    rw [same]
    split
    · exact remembers
    split
    · exact remembers
    · rename_i present said
      rw [server] at said
      refine ⟨remembers.ttl,remembers.salt,remembers.binds,remembers.users,fun group entry inside => ?_⟩
      rcases mem_prune_insert inside with new | old
      · cases new
        exact ⟨m,member,rfl,said⟩
      · exact remembers.groups group entry old

theorem Remembers.reply (m : Moment) :
    (d.reply sha256 m).1.Remembers sha256 ttl salt (past ++ [m]) := by
  have later := remembers.later m
  have member : m ∈ past ++ [m] := by simp
  unfold LdapDirectory.reply
  cases call : m.call with
  | verify user password => exact later.verify member rfl call
  | hasUser name => exact later.groupsOf member rfl name
  | hasGroup name => exact later.hasGroup member rfl name
  | isMember user group => exact later.groupsOf member rfl user

end

/-- The texts that the passwords of some calls are cached under. -/
def prints (salt : Bytes) (moments : List Moment) : Set Bytes :=
  {text | ∃ m ∈ moments, ∃ user password, m.call = .verify user password ∧ text = printed salt user password}

/-- The server said so at one of the calls: at this one, or not longer ago than entries are kept. -/
def Recent (ttl : Int) (past : List Moment) (m : Moment) (answer : Answer) : Prop :=
  ∃ before ∈ past ++ [m], (before = m ∨ m.now - ttl < before.now) ∧ before.server.answer m.call = some answer

theorem Recent.here {answer : Answer} (said : m.server.answer m.call = some answer) : Recent ttl past m answer :=
  ⟨m,by simp,.inl rfl,said⟩

section

variable (remembers : d.Remembers sha256 ttl salt past)
include remembers

theorem Remembers.cached {answer : Answer} {since : Int}
    (isFresh : d.fresh ⟨m.now,m.up⟩ since = true) {before : Moment} (member : before ∈ past) (time : before.now = since)
    (said : before.server.answer m.call = some answer) : Recent ttl past m answer := by
  have young : m.now - since < d.ttl := of_decide_eq_true isFresh
  rw [remembers.ttl] at young
  exact ⟨before,List.mem_append_left _ member,.inr (by omega),said⟩

theorem Remembers.verify_recent (valid : isValidName user = true)
    (apart : Set.InjOn sha256 (prints salt (past ++ [m]))) (server : d.server = m.server)
    (call : m.call = .verify user password) (works : ¬ d.Fails sha256 m) :
    Recent ttl past m (.login (d.verify sha256 ⟨m.now,m.up⟩ user password).2) := by
  rcases verify_cases sha256 d ⟨m.now,m.up⟩ password valid with ⟨bind,found,isFresh,print,same⟩ | ⟨consults,same⟩
  · obtain ⟨before,member,time,password',account,its,print',right,name⟩ :=
      remembers.binds user bind ((Table.find_eq_some ..).mp found)
    rw [remembers.salt] at print print'
    have texts : printed salt user password' = printed salt user password := by
      apply apart ⟨before,List.mem_append_left _ member,user,password',its,rfl⟩ ⟨m,by simp,user,password,call,rfl⟩
      exact print'.symm.trans print
    obtain rfl : password' = password := List.append_cancel_left texts
    apply remembers.cached isFresh member time
    simp [LdapServer.answer,call,right,same,name]
  · have up : m.up = true := by
      by_contra down
      exact works ⟨by simpa [Consults,call] using consults,.inl (Bool.eq_false_of_not_eq_true down)⟩
    apply Recent.here
    rw [same,server]
    cases right : m.server.authenticate user password with
    | none => simp [LdapServer.answer,call,right,up]
    | some account => simp [LdapServer.answer,call,right,up]

/-- The groups of a user are those of a recent server, unless it has to be asked and is down. -/
theorem Remembers.groupsOf_recent (valid : isValidName user = true)
    (server : d.server = m.server)
    (works : (∀ entry, d.users.find user = some entry → d.fresh ⟨m.now,m.up⟩ entry.since = false) → m.up = true) :
    ∃ before ∈ past ++ [m], (before = m ∨ m.now - ttl < before.now) ∧
      (d.groupsOf ⟨m.now,m.up⟩ user).2 = .ok ((before.server.findUser user).map (·.groups)) := by
  rcases groupsOf_cases d ⟨m.now,m.up⟩ valid with ⟨entry,found,isFresh,same⟩ | ⟨stale,same⟩
  · obtain ⟨before,member,time,said⟩ := remembers.users user entry ((Table.find_eq_some ..).mp found)
    have young : m.now - entry.since < d.ttl := of_decide_eq_true isFresh
    rw [remembers.ttl] at young
    exact ⟨before,List.mem_append_left _ member,.inr (by omega),by rw [same,said]⟩
  · refine ⟨m,by simp,.inl rfl,?_⟩
    rw [same,works stale,server]
    rfl

theorem Remembers.hasGroup_recent (valid : isValidName name = true)
    (server : d.server = m.server) (call : m.call = .hasGroup name) (works : ¬ d.Fails sha256 m) :
    Recent ttl past m (.found (d.hasGroup ⟨m.now,m.up⟩ name).2) := by
  rcases hasGroup_cases d ⟨m.now,m.up⟩ valid with ⟨entry,found,isFresh,same⟩ | ⟨stale,same⟩
  · obtain ⟨before,member,time,said⟩ := remembers.groups name entry ((Table.find_eq_some ..).mp found)
    apply remembers.cached isFresh member time
    simp [LdapServer.answer,call,said,same]
  · have consults : d.Consults sha256 m := by simpa [Consults,call] using stale
    have up : m.up = true := by
      by_contra down
      exact works ⟨consults,.inl (Bool.eq_false_of_not_eq_true down)⟩
    apply Recent.here
    rw [same,server]
    cases said : m.server.findGroup name with
    | none => exact absurd ⟨consults,.inr (by simp [LdapServer.answer,call,said])⟩ works
    | some present => simp [LdapServer.answer,call,said,up]

/-- An answer without a failure is one that a recent server gives. -/
theorem Remembers.reply_recent (valid : isValidName m.call.subject = true)
    (apart : Set.InjOn sha256 (prints salt (past ++ [m]))) (works : ¬ d.Fails sha256 m) :
    Recent ttl past m (d.reply sha256 m).2 := by
  have present : ({ d with server := m.server } : LdapDirectory).Remembers sha256 ttl salt past :=
    ⟨remembers.ttl,remembers.salt,remembers.binds,remembers.users,remembers.groups⟩
  have up : ∀ stale : d.Consults sha256 m, m.up = true := fun stale => by
    by_contra down
    exact works ⟨stale,.inl (Bool.eq_false_of_not_eq_true down)⟩
  unfold LdapDirectory.reply
  cases call : m.call with
  | verify user password =>
    rw [call] at valid
    exact present.verify_recent valid apart rfl call works
  | hasUser name =>
    rw [call] at valid
    have valid : isValidName name = true := valid
    obtain ⟨before,member,age,said⟩ := present.groupsOf_recent valid rfl fun stale => up (by
      unfold Consults
      rw [call]
      exact stale)
    refine ⟨before,member,age,?_⟩
    simp [LdapServer.answer,call,LdapDirectory.hasUser,said,Except.map]
  | hasGroup name =>
    rw [call] at valid
    exact present.hasGroup_recent valid rfl call works
  | isMember user group =>
    rw [call] at valid
    have valid : isValidName user = true := valid
    obtain ⟨before,member,age,said⟩ := present.groupsOf_recent valid rfl fun stale => up (by
      unfold Consults
      rw [call]
      exact stale)
    refine ⟨before,member,age,?_⟩
    simp only [LdapServer.answer,call,LdapDirectory.isMember,said]
    cases before.server.findUser user <;> rfl

end

theorem remembers_run (server : LdapServer) (past : List Moment) :
    (Runs.run (fun d m => (LdapDirectory.reply sha256 d m).1) ⟨server,ttl,salt,.empty,.empty,.empty⟩ past).Remembers
      sha256 ttl salt past := by
  induction past using List.reverseRecOn with
  | nil => exact ⟨rfl,rfl,nofun,nofun,nofun⟩
  | append_singleton past m ih =>
    rw [Runs.run_append]
    exact ih.reply m

end Remembering

theorem verify_down (valid : isValidName user = true) (down : ask.up = false)
    (consults : ∀ bind, d.binds.find user = some bind → d.fresh ask bind.since = true →
      bind.print ≠ sha256 (printed d.salt user password)) :
    d.verify sha256 ask user password = (d,.error unavailable) := by
  rcases verify_cases sha256 d ask password valid with ⟨bind,found,isFresh,print,_⟩ | ⟨_,same⟩
  · exact absurd print (consults bind found isFresh)
  · rw [same,down]
    rfl

theorem groupsOf_down (valid : isValidName user = true) (down : ask.up = false)
    (stale : ∀ entry, d.users.find user = some entry → d.fresh ask entry.since = false) :
    d.groupsOf ask user = (d,.error unavailable) := by
  rcases groupsOf_cases d ask valid with ⟨entry,found,isFresh,_⟩ | ⟨_,same⟩
  · rw [stale entry found] at isFresh
    contradiction
  · rw [same,down]
    rfl

theorem hasGroup_fails (valid : isValidName name = true) (failed : ask.up = false ∨ d.server.findGroup name = none)
    (stale : ∀ entry, d.groups.find name = some entry → d.fresh ask entry.since = false) :
    d.hasGroup ask name = (d,.error unavailable) := by
  rcases hasGroup_cases d ask valid with ⟨entry,found,isFresh,_⟩ | ⟨_,same⟩
  · rw [stale entry found] at isFresh
    contradiction
  rw [same]
  rcases failed with down | several
  · rw [down]
    rfl
  · rw [several]
    split <;> rfl

/-- A failed operation leaves the caches as they are, and its answer is not a positive one. -/
theorem Fails.reply {m : Moment} (fails : d.Fails sha256 m) (valid : isValidName m.call.subject = true) :
    (d.reply sha256 m).1 = { d with server := m.server } ∧ ¬ (d.reply sha256 m).2.Positive := by
  obtain ⟨now,server,up,call⟩ := m
  obtain ⟨consults,failed⟩ := fails
  cases call with
  | verify user password =>
    have down : up = false := failed.resolve_right nofun
    have same : ({ d with server := server } : LdapDirectory).verify sha256 ⟨now,up⟩ user password = (_,.error unavailable) :=
      verify_down valid down consults
    simp [LdapDirectory.reply,same,Answer.Positive]
  | hasUser name =>
    have down : up = false := failed.resolve_right nofun
    have same : ({ d with server := server } : LdapDirectory).groupsOf ⟨now,up⟩ name = (_,.error unavailable) :=
      groupsOf_down valid down consults
    simp [LdapDirectory.reply,LdapDirectory.hasUser,same,Answer.Positive,Except.map]
  | hasGroup name =>
    have same : ({ d with server := server } : LdapDirectory).hasGroup ⟨now,up⟩ name = (_,.error unavailable) :=
      hasGroup_fails valid (failed.imp id fun none => by simpa [LdapServer.answer] using none) consults
    simp [LdapDirectory.reply,same,Answer.Positive]
  | isMember user group =>
    have down : up = false := failed.resolve_right nofun
    have same : ({ d with server := server } : LdapDirectory).groupsOf ⟨now,up⟩ user = (_,.error unavailable) :=
      groupsOf_down valid down consults
    simp [LdapDirectory.reply,LdapDirectory.isMember,same,Answer.Positive]

end LdapDirectory

/-- Every answer that is given without an LDAP failure is what the directory said at that call, or at an earlier one
that is not older than the cache time. A failure is not cached and gives no positive answer. -/
theorem ldap_answers_recent (sha256 : Bytes → Sha256Digest) (server : LdapServer) (ttl : Int) (salt : Bytes)
    (past : List Moment) (m : Moment) (clock : (past ++ [m]).Pairwise fun a b => a.now ≤ b.now)
    (apart : Set.InjOn sha256 (LdapDirectory.prints salt (past ++ [m]))) (valid : isValidName m.call.subject = true) :
    let d := Runs.run (fun d m => (LdapDirectory.reply sha256 d m).1) ⟨server,ttl,salt,.empty,.empty,.empty⟩ past
    let answer := (d.reply sha256 m).2
    (¬ d.Fails sha256 m → ∃ before ∈ past ++ [m], (before = m ∨ m.now - ttl < before.now) ∧ before.now ≤ m.now ∧
      before.server.answer m.call = some answer) ∧
    (d.Fails sha256 m → (d.reply sha256 m).1 = { d with server := m.server } ∧ ¬ answer.Positive) ∧
    (ttl = 0 → ¬ d.Fails sha256 m → m.server.answer m.call = some answer) := by
  intro d answer
  have remembers : d.Remembers sha256 ttl salt past := LdapDirectory.remembers_run server past
  have recent : ¬ d.Fails sha256 m → ∃ before ∈ past ++ [m], (before = m ∨ m.now - ttl < before.now) ∧
      before.now ≤ m.now ∧ before.server.answer m.call = some answer := by
    intro works
    obtain ⟨before,member,age,said⟩ := remembers.reply_recent valid apart works
    refine ⟨before,member,age,?_,said⟩
    rcases List.mem_append.mp member with earlier | now
    · exact (List.pairwise_append.mp clock).2.2 before earlier m (List.mem_singleton_self m)
    · rw [List.mem_singleton.mp now]
  refine ⟨recent,fun fails => fails.reply valid,?_⟩
  rintro rfl works
  obtain ⟨before,_,rfl | late,order,said⟩ := recent works
  · exact said
  · omega

namespace Sample

/-- Bob logs in, and again half a minute later, when his account is gone. -/
def firstLogin : Moment :=
  ⟨0,.listed [⟨ascii "bob",ascii "secret",[]⟩] [],true,.verify (ascii "bob") (ascii "secret")⟩

def secondLogin : Moment := ⟨30,.listed [] [],true,.verify (ascii "bob") (ascii "secret")⟩

end Sample

theorem ldap_answers_recent_removed :
    let d := Runs.run (fun d m => (LdapDirectory.reply Sample.saltedSha256 d m).1)
      ⟨Sample.firstLogin.server,60,ascii "salt",.empty,.empty,.empty⟩ [Sample.firstLogin]
    ∃ before ∈ [Sample.firstLogin] ++ [Sample.secondLogin], (before = Sample.secondLogin ∨ -30 < before.now) ∧
      before.now ≤ 30 ∧ before.server.answer Sample.secondLogin.call =
        some (d.reply Sample.saltedSha256 Sample.secondLogin).2 := by
  have same : ∀ text ∈ LdapDirectory.prints (ascii "salt") ([Sample.firstLogin] ++ [Sample.secondLogin]),
      text = LdapDirectory.printed (ascii "salt") (ascii "bob") (ascii "secret") := by
    rintro text ⟨m,member,user,password,call,rfl⟩
    rcases List.mem_cons.mp member with rfl | member
    · cases call
      rfl
    · obtain rfl := List.mem_singleton.mp member
      cases call
      rfl
  apply (ldap_answers_recent Sample.saltedSha256 Sample.firstLogin.server 60 (ascii "salt") [Sample.firstLogin]
    Sample.secondLogin (by decide) _ (by decide)).1
  · rintro ⟨_,down | none⟩
    · contradiction
    · contradiction
  · intro a first b second _
    rw [same a first,same b second]

end Confide
