import Confide.LogReader
import Confide.Passwords
import Confide.PeerTokens
import Confide.Server
import Mathlib.Data.List.DropRight

/-! The users and groups of the configuration. They come from two files and two arrays of tables, and share one
set of names. -/
namespace Confide

open Bytes

variable {cfg : AuthCfg}

namespace Config

structure UserCfg where
  name : Bytes := []
  passwordHash : Bytes := []
  deriving DecidableEq

structure GroupCfg where
  name : Bytes := []
  members : List Bytes := []
  deriving DecidableEq

inductive AuthProvider where
  | local | ldap
  deriving DecidableEq

structure AuthCfg where
  users : List UserCfg := []
  usersFile : Bytes := []
  groups : List GroupCfg := []
  groupsFile : Bytes := []
  tokenTtlS : Nat := 3600
  tokenIdleS : Nat := 900
  adminGroup : Bytes := []
  adminTokenTtlS : Nat := 3600
  adminTokenIdleS : Nat := 900
  provider : AuthProvider := .local
  deriving DecidableEq

/-- A file as `for_each_line` finds it; reading may break off. -/
structure TextFile where
  content : Bytes
  bad : Bool

/-- What the parser meets: the files, paths as they are resolved, and the parser of the LDAP section. -/
structure Surroundings where
  openFile : Bytes → Option TextFile
  resolve : Bytes → Bytes
  parseLdap : Option Toml → Result Unit

/-- The names seen so far and the users they belong to. -/
structure UserScan where
  seen : List Bytes := []
  users : List UserCfg := []

structure GroupScan where
  seen : List Bytes := []
  groups : List GroupCfg := []

def addUser (place : Bytes) (scan : UserScan) (user : UserCfg) : Result UserScan :=
  if !isValidName user.name then
    invalid (place ++ ascii ".name: '" ++ user.name ++ ascii "' must be 1-64 chars of [A-Za-z0-9._-]")
  else if user.passwordHash = [] then invalid (place ++ ascii ".password_hash is required")
  else if user.name ∈ scan.seen then invalid (place ++ ascii ".name: duplicate user '" ++ user.name ++ ascii "'")
  else .ok ⟨scan.seen ++ [user.name],scan.users ++ [user]⟩

/-- The members one by one, with those before. -/
def checkMembers (place : Bytes) (users : List Bytes) : List Bytes → List Bytes → Result Unit
  | _, [] => .ok ()
  | before, m :: members =>
    if m ∉ users then invalid (place ++ ascii ".members: '" ++ m ++ ascii "' is not a configured user")
    else if m ∈ before then invalid (place ++ ascii ".members: '" ++ m ++ ascii "' is listed twice")
    else checkMembers place users (before ++ [m]) members

def addGroup (users : List Bytes) (place : Bytes) (scan : GroupScan) (group : GroupCfg) : Result GroupScan :=
  if !isValidName group.name then
    invalid (place ++ ascii ".name: '" ++ group.name ++ ascii "' must be 1-64 chars of [A-Za-z0-9._-]")
  else if group.name ∈ users then invalid (place ++ ascii ".name: '" ++ group.name ++ ascii "' is already a user name")
  else if group.name ∈ scan.seen then
    invalid (place ++ ascii ".name: duplicate group '" ++ group.name ++ ascii "'")
  else do
    checkMembers place users [] group.members
    return ⟨scan.seen ++ [group.name],scan.groups ++ [group]⟩

def isBlank (c : UInt8) : Bool := c = 32 || c = 9

/-- A line without the blanks around it. -/
def trimLine (line : Bytes) : Bytes := (line.rdropWhile fun c => c = 13 || isBlank c).dropWhile isBlank

/-- Every line that is not blank or a comment, with its place in the file. -/
def forEachLine (around : Surroundings) (path key : Bytes) (onLine : Bytes → α → Bytes → Result α) (start : α) : Result α :=
  match around.openFile path with
  | none => fail .io (key ++ ascii ": cannot open '" ++ path ++ ascii "'")
  | some file => do
    let result ← ((getlines file.content).zipIdx 1).foldlM (fun scan (line,lineno) =>
      match trimLine line with
      | [] => .ok scan
      | c :: text => if c = 35 then .ok scan else onLine (path ++ ascii ":" ++ decimal lineno) scan (c :: text)) start
    if file.bad then fail .io (key ++ ascii ": read error in '" ++ path ++ ascii "'") else return result

def splitMembers (s : Bytes) : List Bytes :=
  if s.all isBlank then [] else (s.splitOn 44).map fun item => (item.rdropWhile isBlank).dropWhile isBlank

/-- What is before and after the first colon. -/
def atColon (line : Bytes) : Option (Bytes × Bytes) :=
  if 58 ∈ line then some (line.takeWhile (· ≠ 58),(line.dropWhile (· ≠ 58)).drop 1) else none

def parseUsersFile (around : Surroundings) (path : Bytes) (scan : UserScan) : Result UserScan :=
  if path = [] then .ok scan
  else forEachLine around path (ascii "auth.users_file") (fun place scan line =>
    match atColon line with
    | none => invalid (place ++ ascii ": expected 'name:password_hash'")
    | some (name,hash) => addUser place scan ⟨name,hash⟩) scan

def parseGroupsFile (around : Surroundings) (path : Bytes) (users : List Bytes) (scan : GroupScan) : Result GroupScan :=
  if path = [] then .ok scan
  else forEachLine around path (ascii "auth.groups_file") (fun place scan line =>
    match atColon line with
    | none => invalid (place ++ ascii ": expected 'name:member,member,...'")
    | some (name,members) => addGroup users place scan ⟨name,splitMembers members⟩) scan

def parseInlineUser (place : Bytes) (scan : UserScan) (u : Toml) : Result UserScan :=
  if !u.isTable then invalid (place ++ ascii ": expected a table")
  else if (u.find (ascii "password")).isSome then
    invalid (place ++ ascii ".password: plaintext passwords are not allowed, use password_hash")
  else do
    let name ← getString u (ascii "name") place []
    let passwordHash ← getString u (ascii "password_hash") place []
    addUser place scan ⟨name,passwordHash⟩

def memberTexts (place : Bytes) : List Toml → Result (List Bytes)
  | [] => .ok []
  | .str m :: items => do
    let members ← memberTexts place items
    return m :: members
  | _ :: _ => invalid (place ++ ascii ".members: expected an array of strings")

def groupMembers (place : Bytes) (g : Toml) : Result (List Bytes) :=
  match g.find (ascii "members") with
  | none => .ok []
  | some (.arr items) => memberTexts place items
  | some _ => invalid (place ++ ascii ".members: expected an array of strings")

def parseInlineGroup (users : List Bytes) (place : Bytes) (scan : GroupScan) (g : Toml) : Result GroupScan :=
  if !g.isTable then invalid (place ++ ascii ": expected a table")
  else do
    let name ← getString g (ascii "name") place []
    let members ← groupMembers place g
    addGroup users place scan ⟨name,members⟩

/-- The tables of an array, numbered from zero; the array may be missing. -/
def parseInline (root : Toml) (key : Bytes) (one : Bytes → α → Toml → Result α) (scan : α) : Result α :=
  match root.find key with
  | none => .ok scan
  | some (.arr items) => items.zipIdx.foldlM (fun scan (item,i) =>
      one (key ++ ascii "[" ++ decimal i ++ ascii "]") scan item) scan
  | some _ => invalid (key ++ ascii ": expected an array of tables ([[" ++ key ++ ascii "]])")

def getPath (around : Surroundings) (tbl : Toml) (key place default : Bytes) : Result Bytes := do
  let s ← getString tbl key place []
  return if s = [] then default else around.resolve s

def parseAdmin (auth : Toml) (out : AuthCfg) : Result AuthCfg := do
  let adminGroup ← getString auth (ascii "admin_group") (ascii "auth") out.adminGroup
  if adminGroup ≠ [] ∧ isValidName adminGroup = false then
    invalid (ascii "auth.admin_group: '" ++ adminGroup ++ ascii "' must be 1-64 chars of [A-Za-z0-9._-]")
  else
    let ttl ← getUnsigned auth (ascii "admin_token_ttl_s") (ascii "auth") (2^32 - 1) out.tokenTtlS
    let idle ← getUnsigned auth (ascii "admin_token_idle_s") (ascii "auth") (2^32 - 1) out.tokenIdleS
    if ttl = 0 then invalid (ascii "auth.admin_token_ttl_s must be > 0")
    else if idle = 0 then invalid (ascii "auth.admin_token_idle_s must be > 0")
    else return { out with adminGroup := adminGroup, adminTokenTtlS := ttl, adminTokenIdleS := idle }

/-- The settings of the section itself; without one, all have their defaults. -/
def parseAuthSection (around : Surroundings) (out : AuthCfg) : Option Toml → Result AuthCfg
  | none => .ok out
  | some tbl => do
    let provider ← getString tbl (ascii "provider") (ascii "auth") []
    if provider ≠ ascii "ldap" ∧ provider ≠ [] ∧ provider ≠ ascii "local" then
      invalid (ascii "auth.provider: '" ++ provider ++ ascii "' is not one of local, ldap")
    else
      let ttl ← getUnsigned tbl (ascii "token_ttl_s") (ascii "auth") (2^32 - 1) out.tokenTtlS
      let idle ← getUnsigned tbl (ascii "token_idle_s") (ascii "auth") (2^32 - 1) out.tokenIdleS
      let usersFile ← getPath around tbl (ascii "users_file") (ascii "auth") out.usersFile
      let groupsFile ← getPath around tbl (ascii "groups_file") (ascii "auth") out.groupsFile
      if ttl = 0 then invalid (ascii "auth.token_ttl_s must be > 0")
      else if idle = 0 then invalid (ascii "auth.token_idle_s must be > 0")
      else parseAdmin tbl { out with
        provider := if provider = ascii "ldap" then .ldap else .local
        tokenTtlS := ttl, tokenIdleS := idle, usersFile := usersFile, groupsFile := groupsFile }

/-- The users first: the members of the groups are looked up among them. -/
def parseLocal (around : Surroundings) (root : Toml) (out : AuthCfg) : Result AuthCfg := do
  let users ← parseUsersFile around out.usersFile {}
  let users ← parseInline root (ascii "user") parseInlineUser users
  let groups ← parseGroupsFile around out.groupsFile users.seen {}
  let groups ← parseInline root (ascii "group") (parseInlineGroup users.seen) groups
  if out.adminGroup ≠ [] ∧ out.adminGroup ∉ groups.seen then
    invalid (ascii "auth.admin_group: '" ++ out.adminGroup ++ ascii "' is not a configured group")
  else return { out with users := users.users, groups := groups.groups }

def parseAuth (around : Surroundings) (root : Toml) : Result AuthCfg := do
  let tbl ← getSection root (ascii "auth")
  let out ← parseAuthSection around {} tbl
  match out.provider with
  | .ldap => do
    around.parseLdap tbl
    return out
  | .local => parseLocal around root out

variable {α : Type}

/-- What holds at the start and is kept by every step of a loop that may fail holds at its end. -/
theorem foldlM_invariant {β : Type} {f : β → α → Result β} {Inv : β → Prop} (items : List α) {b b' : β} (start : Inv b)
    (keeps : ∀ b a b', Inv b → f b a = .ok b' → Inv b') (done : items.foldlM f b = .ok b') : Inv b' := by
  induction items generalizing b with
  | nil =>
    cases done
    exact start
  | cons a items ih =>
    rw [List.foldlM_cons] at done
    obtain ⟨next,step,done⟩ := bind_eq_ok.mp done
    exact ih (keeps b a next start step) done

structure UserScan.Clean (scan : UserScan) : Prop where
  seen : scan.seen = scan.users.map (·.name)
  valid : ∀ user ∈ scan.users, isValidName user.name = true
  distinct : (scan.users.map (·.name)).Nodup

structure GroupCfg.Clean (users : List Bytes) (group : GroupCfg) : Prop where
  valid : isValidName group.name = true
  apart : group.name ∉ users
  members : ∀ m ∈ group.members, m ∈ users
  once : group.members.Nodup

structure GroupScan.Clean (users : List Bytes) (scan : GroupScan) : Prop where
  seen : scan.seen = scan.groups.map (·.name)
  groups : ∀ group ∈ scan.groups, group.Clean users
  distinct : (scan.groups.map (·.name)).Nodup

variable {scan scan' : UserScan} {place : Bytes}

theorem UserScan.Clean.addUser {user : UserCfg} (clean : scan.Clean)
    (added : addUser place scan user = .ok scan') : scan'.Clean := by
  unfold Config.addUser at added
  split at added
  · contradiction
  rename_i valid
  split at added
  · contradiction
  split at added
  · contradiction
  rename_i fresh
  cases added
  rw [clean.seen] at fresh
  refine ⟨by simp [clean.seen],?_,?_⟩
  · intro other member
    rcases List.mem_append.mp member with old | new
    · exact clean.valid other old
    · rw [List.mem_singleton.mp new]
      simpa using valid
  · rw [List.map_append,List.map_singleton]
    exact List.concat_eq_append ▸ clean.distinct.concat fresh

variable {users : List Bytes}

theorem checkMembers_ok {before members : List Bytes} (distinct : before.Nodup)
    (checked : checkMembers place users before members = .ok ()) :
    (∀ m ∈ members, m ∈ users) ∧ (before ++ members).Nodup := by
  induction members generalizing before with
  | nil => exact ⟨nofun,by simpa using distinct⟩
  | cons m members ih =>
    rw [checkMembers] at checked
    split at checked
    · contradiction
    rename_i known
    split at checked
    · contradiction
    rename_i fresh
    have longer : (before ++ [m]).Nodup := List.concat_eq_append ▸ distinct.concat fresh
    obtain ⟨rest,all⟩ := ih longer checked
    refine ⟨List.forall_mem_cons.mpr ⟨not_not.mp known,rest⟩,?_⟩
    rwa [List.append_assoc,List.singleton_append] at all

theorem GroupScan.Clean.addGroup {scan scan' : GroupScan} {group : GroupCfg}
    (clean : scan.Clean users) (added : addGroup users place scan group = .ok scan') : scan'.Clean users := by
  unfold Config.addGroup at added
  split at added
  · contradiction
  rename_i valid
  split at added
  · contradiction
  rename_i apart
  split at added
  · contradiction
  rename_i fresh
  obtain ⟨_,checked,added⟩ := bind_eq_ok.mp added
  cases added
  obtain ⟨members,once⟩ := checkMembers_ok List.nodup_nil checked
  rw [clean.seen] at fresh
  refine ⟨by simp [clean.seen],?_,?_⟩
  · intro other member
    rcases List.mem_append.mp member with old | new
    · exact clean.groups other old
    · rw [List.mem_singleton.mp new]
      exact ⟨by simpa using valid,apart,members,by simpa using once⟩
  · rw [List.map_append,List.map_singleton]
    exact List.concat_eq_append ▸ clean.distinct.concat fresh

variable {around : Surroundings} {path key : Bytes}

theorem forEachLine_invariant {Inv : α → Prop}
    {onLine : Bytes → α → Bytes → Result α} {start result : α} (initial : Inv start)
    (keeps : ∀ place a line b, Inv a → onLine place a line = .ok b → Inv b)
    (done : forEachLine around path key onLine start = .ok result) : Inv result := by
  unfold forEachLine at done
  split at done
  · contradiction
  · obtain ⟨last,fold,done⟩ := bind_eq_ok.mp done
    split at done
    · contradiction
    · cases done
      refine foldlM_invariant _ initial ?_ fold
      rintro a ⟨line,lineno⟩ b holds step
      dsimp only at step
      split at step
      · exact Except.ok.inj step ▸ holds
      · split at step
        · exact Except.ok.inj step ▸ holds
        · exact keeps _ a _ b holds step

variable {root : Toml}

theorem parseInline_invariant {Inv : α → Prop} {one : Bytes → α → Toml → Result α}
    {start result : α} (initial : Inv start) (keeps : ∀ place a item b, Inv a → one place a item = .ok b → Inv b)
    (done : parseInline root key one start = .ok result) : Inv result := by
  unfold parseInline at done
  split at done
  · exact Except.ok.inj done ▸ initial
  · exact foldlM_invariant _ initial (fun a item b holds step => keeps _ a item.1 b holds step) done
  · contradiction

theorem UserScan.Clean.file (clean : scan.Clean)
    (parsed : parseUsersFile around path scan = .ok scan') : scan'.Clean := by
  unfold parseUsersFile at parsed
  split at parsed
  · exact Except.ok.inj parsed ▸ clean
  refine forEachLine_invariant clean (fun place scan line next holds step => ?_) parsed
  split at step
  · contradiction
  · exact holds.addUser step

theorem UserScan.Clean.inline (clean : scan.Clean)
    (parsed : parseInline root key parseInlineUser scan = .ok scan') : scan'.Clean := by
  refine parseInline_invariant clean (fun place scan item next holds step => ?_) parsed
  unfold parseInlineUser at step
  split at step
  · contradiction
  split at step
  · contradiction
  obtain ⟨name,_,step⟩ := bind_eq_ok.mp step
  obtain ⟨passwordHash,_,step⟩ := bind_eq_ok.mp step
  exact holds.addUser step

theorem GroupScan.Clean.file {scan scan' : GroupScan}
    (clean : scan.Clean users) (parsed : parseGroupsFile around path users scan = .ok scan') : scan'.Clean users := by
  unfold parseGroupsFile at parsed
  split at parsed
  · exact Except.ok.inj parsed ▸ clean
  refine forEachLine_invariant clean (fun place scan line next holds step => ?_) parsed
  split at step
  · contradiction
  · exact holds.addGroup step

theorem GroupScan.Clean.inline {scan scan' : GroupScan}
    (clean : scan.Clean users) (parsed : parseInline root key (parseInlineGroup users) scan = .ok scan') :
    scan'.Clean users := by
  refine parseInline_invariant clean (fun place scan item next holds step => ?_) parsed
  unfold parseInlineGroup at step
  split at step
  · contradiction
  obtain ⟨name,_,step⟩ := bind_eq_ok.mp step
  obtain ⟨members,_,step⟩ := bind_eq_ok.mp step
  exact holds.addGroup step

/-- Users and groups share one set of names, each used once, and groups have configured users for members. -/
structure AuthCfg.Clean (cfg : AuthCfg) : Prop where
  users : ∀ user ∈ cfg.users, isValidName user.name = true
  distinctUsers : (cfg.users.map (·.name)).Nodup
  groups : ∀ group ∈ cfg.groups, isValidName group.name = true ∧ group.name ∉ cfg.users.map (·.name)
  distinctGroups : (cfg.groups.map (·.name)).Nodup
  members : ∀ group ∈ cfg.groups, group.members.Nodup ∧ ∀ m ∈ group.members, m ∈ cfg.users.map (·.name)
  admin : cfg.adminGroup ≠ [] → cfg.adminGroup ∈ cfg.groups.map (·.name)

theorem parseLocal_clean {out : AuthCfg}
    (parsed : parseLocal around root out = .ok cfg) : cfg.Clean := by
  unfold parseLocal at parsed
  obtain ⟨fromFile,file,parsed⟩ := bind_eq_ok.mp parsed
  obtain ⟨users,inline,parsed⟩ := bind_eq_ok.mp parsed
  obtain ⟨groupsFromFile,groupFile,parsed⟩ := bind_eq_ok.mp parsed
  obtain ⟨groups,groupInline,parsed⟩ := bind_eq_ok.mp parsed
  have none : ({} : UserScan).Clean := ⟨rfl,nofun,List.nodup_nil⟩
  have all := (none.file file).inline inline
  have noGroups : ({} : GroupScan).Clean users.seen := ⟨rfl,nofun,List.nodup_nil⟩
  have allGroups := (noGroups.file groupFile).inline groupInline
  split at parsed
  · contradiction
  rename_i admin
  cases parsed
  rw [all.seen] at allGroups
  refine ⟨all.valid,all.distinct,?_,allGroups.distinct,?_,?_⟩
  · intro group member
    exact ⟨(allGroups.groups group member).valid,(allGroups.groups group member).apart⟩
  · intro group member
    exact ⟨(allGroups.groups group member).once,(allGroups.groups group member).members⟩
  · intro named
    rw [← allGroups.seen]
    by_contra missing
    exact admin ⟨named,missing⟩

theorem parseAuth_clean (parsed : parseAuth around root = .ok cfg)
    (isLocal : cfg.provider = .local) : cfg.Clean := by
  unfold parseAuth at parsed
  obtain ⟨tbl,_,parsed⟩ := bind_eq_ok.mp parsed
  obtain ⟨out,_,parsed⟩ := bind_eq_ok.mp parsed
  split at parsed
  · rename_i ldap
    obtain ⟨_,_,parsed⟩ := bind_eq_ok.mp parsed
    cases parsed
    rw [isLocal] at ldap
    contradiction
  · exact parseLocal_clean parsed

end Config

namespace LocalDirectory

open Config

def createUsers : Table Bytes PasswordHash → List UserCfg → Result (Table Bytes PasswordHash)
  | users, [] => .ok users
  | users, u :: rest =>
    match PasswordHash.parse u.passwordHash with
    | .error e => fail .validation (ascii "user '" ++ u.name ++ ascii "': password_hash: " ++ e.detail)
    | .ok hash => createUsers (users.emplace u.name hash) rest

def createGroups (groups : List GroupCfg) : Table Bytes (List Bytes) :=
  groups.foldl (fun table g => table.emplace g.name g.members) .empty

def create (cfg : AuthCfg) : Result LocalDirectory := do
  let users ← createUsers .empty cfg.users
  return ⟨users,createGroups cfg.groups,.empty⟩

theorem createUsers_find {table made : Table Bytes PasswordHash} {users : List UserCfg}
    (created : createUsers table users = .ok made) (name : Bytes) :
    (made.find name).isSome ↔ (table.find name).isSome ∨ name ∈ users.map (·.name) := by
  induction users generalizing table with
  | nil =>
    cases created
    simp
  | cons u users ih =>
    rw [createUsers] at created
    split at created
    · contradiction
    · rw [ih created,Table.find_emplace,List.map_cons,List.mem_cons]
      by_cases same : name = u.name
      · simp [same]
      · simp [same]

theorem foldl_emplace_find (groups : List GroupCfg) (table : Table Bytes (List Bytes)) (name : Bytes) :
    (groups.foldl (fun table g => table.emplace g.name g.members) table).find name =
      (table.find name).or ((groups.find? (·.name = name)).map (·.members)) := by
  induction groups generalizing table with
  | nil => simp
  | cons g groups ih =>
    rw [List.foldl_cons,ih,Table.find_emplace,List.find?_cons]
    by_cases same : name = g.name
    · cases found : table.find g.name <;> simp [same,found]
    · simp [same,Ne.symm same]

theorem createGroups_find {groups : List GroupCfg} (distinct : (groups.map (·.name)).Nodup) {group : GroupCfg}
    (member : group ∈ groups) : (createGroups groups).find group.name = some group.members := by
  rw [createGroups,foldl_emplace_find]
  have first : groups.find? (·.name = group.name) = some group := by
    cases found : groups.find? (·.name = group.name) with
    | none => exact absurd (List.find?_eq_none.mp found group member) (by simp)
    | some other =>
      have same : other.name = group.name := by simpa using List.find?_some found
      rw [List.inj_on_of_nodup_map distinct (List.mem_of_find?_eq_some found) member same]
  rw [first]
  rfl

theorem createGroups_none {groups : List GroupCfg} {name : Bytes} (absent : name ∉ groups.map (·.name)) :
    (createGroups groups).find name = none := by
  rw [createGroups,foldl_emplace_find]
  have none : groups.find? (·.name = name) = none :=
    List.find?_eq_none.mpr fun group member same => absent (List.mem_map.mpr ⟨group,member,by simpa using same⟩)
  rw [none]
  rfl

/-- The names of the directory are those of the configuration. -/
theorem create_names {d : LocalDirectory} (created : create cfg = .ok d) :
    (∀ name, d.hasUser name = true ↔ name ∈ cfg.users.map (·.name)) ∧ d.groups = createGroups cfg.groups := by
  obtain ⟨users,made,created⟩ := bind_eq_ok.mp created
  cases created
  refine ⟨fun name => ?_,rfl⟩
  rw [hasUser,createUsers_find made]
  simp [Table.empty,Table.find]

end LocalDirectory

/-- Who may read what is sent to a name of this server. -/
def readers (cfg : Config.AuthCfg) (d : LocalDirectory) (admin : Bool) (tx : Transaction) : Set Bytes :=
  {u | u ∈ cfg.users.map (·.name) ∧ isTarget ⟨u,false,admin⟩ tx d.isMember = true}

section Readers

variable {cfg : Config.AuthCfg} {d : LocalDirectory} {tx : Transaction}

theorem mem_readers (here : tx.targetServer = []) (admin : Bool) (u : Bytes) : u ∈ readers cfg d admin tx ↔
    u ∈ cfg.users.map (·.name) ∧ (u = tx.targetUser ∨ d.isMember u tx.targetUser = true) := by
  simp [readers,isTarget,here]

theorem readers_user (clean : cfg.Clean) (created : LocalDirectory.create cfg = .ok d) (here : tx.targetServer = [])
    (user : tx.targetUser ∈ cfg.users.map (·.name)) (admin : Bool) : readers cfg d admin tx = {tx.targetUser} := by
  obtain ⟨_,groups⟩ := LocalDirectory.create_names created
  have noGroup : d.groups.find tx.targetUser = none := by
    rw [groups]
    apply LocalDirectory.createGroups_none
    intro isGroup
    obtain ⟨group,member,same⟩ := List.mem_map.mp isGroup
    exact (clean.groups group member).2 (same ▸ user)
  ext u
  rw [mem_readers here,LocalDirectory.isMember,noGroup,Set.mem_singleton_iff]
  constructor
  · rintro ⟨_,same | never⟩
    · exact same
    · contradiction
  · rintro rfl
    exact ⟨user,.inl rfl⟩

theorem readers_group (clean : cfg.Clean) (created : LocalDirectory.create cfg = .ok d) (here : tx.targetServer = [])
    {group : Config.GroupCfg} (member : group ∈ cfg.groups) (named : group.name = tx.targetUser) (admin : Bool) :
    readers cfg d admin tx = {u | u ∈ group.members} := by
  obtain ⟨_,groups⟩ := LocalDirectory.create_names created
  have found : d.groups.find tx.targetUser = some group.members := by
    rw [groups,← named]
    exact LocalDirectory.createGroups_find clean.distinctGroups member
  ext u
  rw [mem_readers here,LocalDirectory.isMember,found]
  constructor
  · rintro ⟨known,same | inside⟩
    · exact absurd (named ▸ same ▸ known) (clean.groups group member).2
    · exact List.contains_iff_mem.mp inside
  · intro inside
    exact ⟨(clean.members group member).2 u inside,.inr (List.contains_iff_mem.mpr inside)⟩

/-- A local target that is accepted is the name of a user or of a group. -/
theorem accepted_target {dest : DestinationConfig} {ask : Asked} {target server : Bytes}
    (created : LocalDirectory.create cfg = .ok d) (here : server = [] ∨ server = dest.instanceName)
    (accepted : (destinationCheck dest ask target server (.local d)).2 = .ok ()) :
    target ∈ cfg.users.map (·.name) ∨ ∃ group ∈ cfg.groups, group.name = target := by
  obtain ⟨users,groups⟩ := LocalDirectory.create_names created
  unfold destinationCheck at accepted
  rw [if_pos here] at accepted
  split at accepted
  · contradiction
  simp only [UserDirectory.hasUser,UserDirectory.hasGroup] at accepted
  cases isUser : d.hasUser target with
  | true => exact .inl ((users target).mp isUser)
  | false =>
    cases isGroup : d.hasGroup target with
    | false => simp [isUser,isGroup,fail] at accepted
    | true =>
      rw [LocalDirectory.hasGroup,groups] at isGroup
      by_contra neither
      have absent : target ∉ cfg.groups.map (·.name) := fun listed => neither (.inr (List.mem_map.mp listed))
      rw [LocalDirectory.createGroups_none absent] at isGroup
      contradiction

end Readers

/-- Accepted users and groups share one set of names. A name that is accepted as a target of this server is that of a
user, who alone can read what is sent there, or of a group, and then its members can. -/
theorem accepted_names_clean (around : Config.Surroundings) (root : Toml) (cfg : Config.AuthCfg)
    (accepted : Config.parseAuth around root = .ok cfg) (isLocal : cfg.provider = .local) : cfg.Clean ∧
    ∀ d, LocalDirectory.create cfg = .ok d → ∀ (dest : DestinationConfig) (ask : Asked) (target server : Bytes),
      dest.adminGroup = cfg.adminGroup → (server = [] ∨ server = dest.instanceName) →
      (destinationCheck dest ask target server (.local d)).2 = .ok () →
      (target ∈ cfg.users.map (·.name) ∨ ∃ group ∈ cfg.groups, group.name = target) ∧
      ∀ (tx : Transaction) (admin : Bool), tx.targetUser = target → tx.targetServer = [] →
        (target ∈ cfg.users.map (·.name) → readers cfg d admin tx = {target}) ∧
        ∀ group ∈ cfg.groups, group.name = target → readers cfg d admin tx = {u | u ∈ group.members} := by
  have clean := Config.parseAuth_clean accepted isLocal
  refine ⟨clean,fun d created dest ask target server _ here taken => ⟨accepted_target created here taken,?_⟩⟩
  rintro tx admin rfl home
  exact ⟨fun user => readers_user clean created home user admin,
    fun group member named => readers_group clean created home member named admin⟩

namespace Sample

/-- A users file and a groups file; everything else is as it is by default. -/
def authFiles : Config.Surroundings where
  openFile path :=
    if path = ascii "users" then
      some ⟨ascii "# logins\nanne:pbkdf2-sha256$1000$c2FsdA==$a2V5\n\nbob:pbkdf2-sha256$1000$c2FsdA==$a2V5",false⟩
    else if path = ascii "groups" then some ⟨ascii " staff: anne , bob \r\n",false⟩
    else none
  resolve path := path
  parseLdap _ := .ok ()

def authCfg : Config.AuthCfg where
  users := [⟨ascii "anne",ascii "pbkdf2-sha256$1000$c2FsdA==$a2V5"⟩,⟨ascii "bob",ascii "pbkdf2-sha256$1000$c2FsdA==$a2V5"⟩]
  usersFile := ascii "users"
  groups := [⟨ascii "staff",[ascii "anne",ascii "bob"]⟩]
  groupsFile := ascii "groups"

def toStaff : Transaction := ⟨id,ascii "anne",ascii "staff",[],[],[],.open,0,86400,none,none,[]⟩

def authRoot : Toml :=
  .table [(ascii "auth",.table [(ascii "users_file",.str (ascii "users")),(ascii "groups_file",.str (ascii "groups"))])]

end Sample

theorem accepted_names_clean_staff : Config.parseAuth Sample.authFiles Sample.authRoot = .ok Sample.authCfg ∧
    ∃ d, LocalDirectory.create Sample.authCfg = .ok d ∧
      (destinationCheck ⟨ascii "alpha",[],[]⟩ ⟨0,true⟩ (ascii "staff") [] (.local d)).2 = .ok () ∧
      readers Sample.authCfg d false Sample.toStaff = {u | u ∈ [ascii "anne",ascii "bob"]} := by
  have parsed : Config.parseAuth Sample.authFiles Sample.authRoot = .ok Sample.authCfg := by decide +kernel
  have checked : (LocalDirectory.create Sample.authCfg).toOption.map (fun d =>
      (destinationCheck ⟨ascii "alpha",[],[]⟩ ⟨0,true⟩ (ascii "staff") [] (.local d)).2) = some (.ok ()) := by
    decide +kernel
  cases created : LocalDirectory.create Sample.authCfg with
  | error e =>
    rw [created] at checked
    cases checked
  | ok d =>
    rw [created] at checked
    have taken := Option.some.inj checked
    refine ⟨parsed,d,rfl,taken,?_⟩
    exact ((accepted_names_clean Sample.authFiles Sample.authRoot Sample.authCfg parsed rfl).2 d created
      ⟨ascii "alpha",[],[]⟩ ⟨0,true⟩ (ascii "staff") [] rfl (.inl rfl) taken).2 Sample.toStaff false rfl rfl |>.2
      ⟨ascii "staff",[ascii "anne",ascii "bob"]⟩ (List.mem_singleton_self _) rfl

end Confide
