import Confide.Table
import Confide.ApiJson

/-! Where users and groups live: the local configuration, or an LDAP directory behind caches. -/
namespace Confide

open Bytes

def toLower (b : UInt8) : UInt8 := if 65 ≤ b && b ≤ 90 then b + 32 else b

def iequals (a b : Bytes) : Bool := a.map toLower == b.map toLower

def loginDenied : Error := ⟨.auth,ascii "invalid user name or password"⟩

structure PasswordHash where
  iterations : Nat
  salt : Bytes
  key : Bytes

/-- The key derived from a password, a salt, a number of iterations and a length. -/
abbrev Pbkdf2 := Bytes → Bytes → Nat → Nat → Option Bytes

def PasswordHash.verify (pbkdf2 : Pbkdf2) (hash : PasswordHash) (password : Bytes) : Bool :=
  pbkdf2 password hash.salt hash.iterations hash.key.length == some hash.key

structure LocalDirectory where
  users : Table Bytes PasswordHash
  groups : Table Bytes (List Bytes)
  verified : Table Bytes Sha256Digest

namespace LocalDirectory

variable (pbkdf2 : Pbkdf2) (sha256 : Bytes → Sha256Digest)

/-- A password that was right before is not derived again. -/
def checkPassword (d : LocalDirectory) (user : Bytes) (hash : PasswordHash) (password : Bytes) : LocalDirectory × Bool :=
  let print := sha256 (hash.salt ++ password)
  if d.verified.find user = some print then (d,true)
  else if hash.verify pbkdf2 password then ({ d with verified := d.verified.insertOrAssign user print },true)
  else (d,false)

def verify (d : LocalDirectory) (user password : Bytes) : LocalDirectory × Result Bytes :=
  match d.users.find user with
  | none => (d,.error loginDenied)
  | some hash =>
    let (d,right) := d.checkPassword pbkdf2 sha256 user hash password
    (d,if right then .ok user else .error loginDenied)

def hasUser (d : LocalDirectory) (name : Bytes) : Bool := (d.users.find name).isSome

def hasGroup (d : LocalDirectory) (name : Bytes) : Bool := (d.groups.find name).isSome

def isMember (d : LocalDirectory) (user group : Bytes) : Bool :=
  match d.groups.find group with
  | some members => members.contains user
  | none => false

end LocalDirectory

structure LdapUser where
  username : Bytes
  groups : List Bytes
  deriving DecidableEq

/-- LdapAuth with the service behind it. A login finds the groups that a search finds. -/
structure LdapServer where
  authenticate : Bytes → Bytes → Option LdapUser
  findUser : Bytes → Option LdapUser
  findGroup : Bytes → Option Bool
  groups_bound : ∀ {name password user}, authenticate name password = some user →
    (findUser name).map (·.groups) = some user.groups

/-- The service ignores the case of user names and has one spelling for each account. -/
structure LdapServer.Spells (server : LdapServer) : Prop where
  bound : ∀ {name password user}, server.authenticate name password = some user → server.findUser name = some user
  spelled : ∀ {name user}, server.findUser name = some user →
    iequals user.username name = true ∧ server.findUser user.username = some user

structure Bind where
  print : Sha256Digest
  name : Bytes
  since : Int

/-- The groups of a user; none if there is no such user. -/
structure UserEntry where
  groups : Option (List Bytes)
  since : Int

structure GroupEntry where
  present : Bool
  since : Int

structure LdapDirectory where
  server : LdapServer
  ttl : Int
  salt : Bytes
  binds : Table Bytes Bind
  users : Table Bytes UserEntry
  groups : Table Bytes GroupEntry

/-- The steady clock at a call, and whether the LDAP server can be reached then. -/
structure Asked where
  now : Int
  up : Bool

def unavailable : Error := ⟨.unavailable,ascii "user directory unavailable"⟩

/-- Expired entries are dropped once a cache grows past this. -/
def pruneAbove : Nat := 1024

def prune (since : α → Int) (ttl now : Int) (cache : Table Bytes α) : Table Bytes α :=
  if pruneAbove < cache.table.length then cache.eraseIf fun entry => ttl ≤ now - since entry.2 else cache

namespace LdapDirectory

def fresh (d : LdapDirectory) (ask : Asked) (since : Int) : Bool := ask.now - since < d.ttl

def verify (sha256 : Bytes → Sha256Digest) (d : LdapDirectory) (ask : Asked) (user password : Bytes) :
    LdapDirectory × Result Bytes :=
  if !isValidName user then (d,.error loginDenied)
  else
    let print := sha256 (d.salt ++ user ++ [0] ++ password)
    match (d.binds.find user).filter (fun bind => d.fresh ask bind.since && bind.print == print) with
    | some bind => (d,.ok bind.name)
    | none =>
      if !ask.up then (d,.error unavailable)
      else match d.server.authenticate user password with
        | none => (d,.error loginDenied)
        | some account =>
          ({ d with
              binds := (prune Bind.since d.ttl ask.now d.binds).insertOrAssign user ⟨print,account.username,ask.now⟩
              users := (prune UserEntry.since d.ttl ask.now d.users).insertOrAssign user ⟨some account.groups,ask.now⟩ },
            .ok account.username)

def groupsOf (d : LdapDirectory) (ask : Asked) (user : Bytes) : LdapDirectory × Result (Option (List Bytes)) :=
  if !isValidName user then (d,.ok none)
  else match (d.users.find user).filter (fun entry => d.fresh ask entry.since) with
    | some entry => (d,.ok entry.groups)
    | none =>
      if !ask.up then (d,.error unavailable)
      else
        let groups := (d.server.findUser user).map (·.groups)
        ({ d with users := (prune UserEntry.since d.ttl ask.now d.users).insertOrAssign user ⟨groups,ask.now⟩ },.ok groups)

def hasUser (d : LdapDirectory) (ask : Asked) (name : Bytes) : LdapDirectory × Result Bool :=
  let (d,groups) := d.groupsOf ask name
  (d,groups.map (·.isSome))

def hasGroup (d : LdapDirectory) (ask : Asked) (name : Bytes) : LdapDirectory × Result Bool :=
  if !isValidName name then (d,.ok false)
  else match (d.groups.find name).filter (fun entry => d.fresh ask entry.since) with
    | some entry => (d,.ok entry.present)
    | none =>
      if !ask.up then (d,.error unavailable)
      else match d.server.findGroup name with
        | none => (d,.error unavailable)
        | some present =>
          ({ d with groups := (prune GroupEntry.since d.ttl ask.now d.groups).insertOrAssign name ⟨present,ask.now⟩ },
            .ok present)

/-- Not a member if nobody can tell. -/
def isMember (d : LdapDirectory) (ask : Asked) (user group : Bytes) : LdapDirectory × Bool :=
  let (d,groups) := d.groupsOf ask user
  (d,match groups with
    | .ok (some names) => names.any (iequals · group)
    | _ => false)

end LdapDirectory

inductive UserDirectory where
  | local (d : LocalDirectory)
  | ldap (d : LdapDirectory)

/-- What the configuration says of the directory. -/
inductive DirectoryConfig where
  | local (users : Table Bytes PasswordHash) (groups : Table Bytes (List Bytes))
  | ldap (server : LdapServer) (spells : server.Spells) (ttl : Int) (salt : Bytes)

def makeDirectory : DirectoryConfig → UserDirectory
  | .local users groups => .local ⟨users,groups,.empty⟩
  | .ldap server _ ttl salt => .ldap ⟨server,ttl,salt,.empty,.empty,.empty⟩

inductive DirectoryCall where
  | verify (user password : Bytes)
  | hasUser (name : Bytes)
  | hasGroup (name : Bytes)
  | isMember (user group : Bytes)

namespace UserDirectory

def verify (pbkdf2 : Pbkdf2) (sha256 : Bytes → Sha256Digest) (ask : Asked) (user password : Bytes) :
    UserDirectory → UserDirectory × Result Bytes
  | .local d =>
    let (d,result) := d.verify pbkdf2 sha256 user password
    (.local d,result)
  | .ldap d =>
    let (d,result) := d.verify sha256 ask user password
    (.ldap d,result)

def hasUser (ask : Asked) (name : Bytes) : UserDirectory → UserDirectory × Result Bool
  | .local d => (.local d,.ok (d.hasUser name))
  | .ldap d =>
    let (d,result) := d.hasUser ask name
    (.ldap d,result)

def hasGroup (ask : Asked) (name : Bytes) : UserDirectory → UserDirectory × Result Bool
  | .local d => (.local d,.ok (d.hasGroup name))
  | .ldap d =>
    let (d,result) := d.hasGroup ask name
    (.ldap d,result)

def isMember (ask : Asked) (user group : Bytes) : UserDirectory → UserDirectory × Bool
  | .local d => (.local d,d.isMember user group)
  | .ldap d =>
    let (d,result) := d.isMember ask user group
    (.ldap d,result)

def answer (pbkdf2 : Pbkdf2) (sha256 : Bytes → Sha256Digest) (d : UserDirectory) : Asked × DirectoryCall → UserDirectory
  | (ask,.verify user password) => (d.verify pbkdf2 sha256 ask user password).1
  | (ask,.hasUser name) => (d.hasUser ask name).1
  | (ask,.hasGroup name) => (d.hasGroup ask name).1
  | (ask,.isMember user group) => (d.isMember ask user group).1

end UserDirectory

/-- What the check of a destination reads of the configuration. -/
structure DestinationConfig where
  instanceName : Bytes
  adminGroup : Bytes
  peers : List Bytes

/-- A local target is a user or a group, a remote one a configured peer. The admin group is no target. -/
def destinationCheck (cfg : DestinationConfig) (ask : Asked) (user server : Bytes) (d : UserDirectory) :
    UserDirectory × Result Unit :=
  if server = [] ∨ server = cfg.instanceName then
    if cfg.adminGroup ≠ [] ∧ user = cfg.adminGroup then
      (d,fail .unknownDestination (ascii "'" ++ user ++ ascii "' is the admin group, not a recipient"))
    else match d.hasUser ask user with
      | (d,.error e) => (d,.error e)
      | (d,.ok true) => (d,.ok ())
      | (d,.ok false) =>
        match d.hasGroup ask user with
        | (d,.error e) => (d,.error e)
        | (d,.ok true) => (d,.ok ())
        | (d,.ok false) =>
          (d,fail .unknownDestination (ascii "no user or group '" ++ user ++ ascii "' on this server"))
  else if server ∈ cfg.peers then (d,.ok ())
  else (d,fail .unknownDestination (ascii "unknown server '" ++ server ++ ascii "'"))

end Confide
