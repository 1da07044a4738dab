import Confide.Recipients

/-! The admin group as a target. The check of a destination refuses it by its spelling in the configuration; the
directory knows it, and counts its members, under any spelling. -/
namespace Confide

open Bytes

variable {pbkdf2 : Pbkdf2} {sha256 : Bytes → Sha256Digest} {cfg : DirectoryConfig} {dest : DestinationConfig}
  {target server : Bytes}

namespace LdapDirectory

variable {d : LdapDirectory}

def GroupsTrue (d : LdapDirectory) : Prop := ∀ entry ∈ d.groups.table, d.server.findGroup entry.1 = some entry.2.present

theorem groupsOf_groups (d : LdapDirectory) (ask : Asked) (user : Bytes) :
    (d.groupsOf ask user).1.groups = d.groups ∧ (d.groupsOf ask user).1.server = d.server := by
  unfold LdapDirectory.groupsOf
  split
  · exact ⟨rfl,rfl⟩
  split
  · exact ⟨rfl,rfl⟩
  split <;> exact ⟨rfl,rfl⟩

theorem verify_groups (d : LdapDirectory) (sha256 : Bytes → Sha256Digest) (ask : Asked) (user password : Bytes) :
    (d.verify sha256 ask user password).1.groups = d.groups ∧ (d.verify sha256 ask user password).1.server = d.server := by
  unfold LdapDirectory.verify
  split
  · exact ⟨rfl,rfl⟩
  dsimp only
  split
  · exact ⟨rfl,rfl⟩
  split
  · exact ⟨rfl,rfl⟩
  split <;> exact ⟨rfl,rfl⟩

theorem GroupsTrue.same {d' : LdapDirectory} (groups : d.GroupsTrue) (same : d'.groups = d.groups ∧ d'.server = d.server) :
    d'.GroupsTrue := by
  intro entry member
  rw [same.1] at member
  rw [same.2]
  exact groups entry member

/-- A group that is found, in the cache or by the server, is one of the server's. -/
theorem GroupsTrue.hasGroup (groups : d.GroupsTrue) (ask : Asked) (name : Bytes) : (d.hasGroup ask name).1.GroupsTrue ∧
      ((d.hasGroup ask name).2 = .ok true → isValidName name = true ∧ d.server.findGroup name = some true) := by
  unfold LdapDirectory.hasGroup
  split
  · exact ⟨groups,fun bad => by cases bad⟩
  rename_i valid
  have valid : isValidName name = true := by simpa using valid
  split
  · rename_i entry cached
    obtain ⟨found,_⟩ := Option.filter_eq_some_iff.mp cached
    refine ⟨groups,fun present => ⟨valid,?_⟩⟩
    rw [groups _ ((Table.find_eq_some ..).mp found),Except.ok.inj present]
  · split
    · exact ⟨groups,fun bad => by cases bad⟩
    split
    · exact ⟨groups,fun bad => by cases bad⟩
    · rename_i present asked
      refine ⟨?_,fun same => ⟨valid,by rw [asked,Except.ok.inj same]⟩⟩
      intro entry member
      rcases mem_prune_insert member with rfl | inside
      · exact asked
      · exact groups entry inside

end LdapDirectory

def UserDirectory.GroupsTrue : UserDirectory → Prop
  | .local _ => True
  | .ldap d => d.GroupsTrue

theorem UserDirectory.GroupsTrue.answer {d : UserDirectory} (groups : d.GroupsTrue) (step : Asked × DirectoryCall) :
    (d.answer pbkdf2 sha256 step).GroupsTrue := by
  obtain ⟨ask,call⟩ := step
  cases d with
  | «local» d => cases call <;> trivial
  | ldap d =>
    cases call with
    | verify user password => exact LdapDirectory.GroupsTrue.same groups (d.verify_groups sha256 ask user password)
    | hasUser name => exact LdapDirectory.GroupsTrue.same groups (d.groupsOf_groups ask name)
    | hasGroup name => exact (LdapDirectory.GroupsTrue.hasGroup groups ask name).1
    | isMember user group => exact LdapDirectory.GroupsTrue.same groups (d.groupsOf_groups ask user)

theorem directoryAfter_groupsTrue (pbkdf2 : Pbkdf2) (sha256 : Bytes → Sha256Digest) (cfg : DirectoryConfig)
    (calls : List (Asked × DirectoryCall)) : (directoryAfter pbkdf2 sha256 cfg calls).GroupsTrue := by
  have runs : ∀ d : UserDirectory, d.GroupsTrue → (Runs.run (UserDirectory.answer pbkdf2 sha256) d calls).GroupsTrue := by
    induction calls with
    | nil => exact fun _ groups => groups
    | cons step rest ih => exact fun _ groups => ih _ (groups.answer step)
  apply runs
  cases cfg with
  | «local» users groups => trivial
  | ldap server spells ttl salt => exact nofun

def DirectoryConfig.Names (group text : Bytes) : DirectoryConfig → Prop
  | .local _ _ => text = group
  | .ldap _ _ _ _ => iequals group text = true

def ByAnother (group text user : Bytes) : UserDirectory → Prop
  | .local d => text ≠ group ∧ (d.groups.find text).any (·.contains user) = true
  | .ldap d => ∃ account, d.server.findUser user = some account ∧
    ∃ name ∈ account.groups, iequals name text = true ∧ iequals name group = false

def DirectoryConfig.Known (name : Bytes) : DirectoryConfig → Prop
  | .local users groups => users.find name ≠ none ∨ groups.find name ≠ none
  | .ldap server _ _ _ => isValidName name = true ∧ (server.findUser name ≠ none ∨ server.findGroup name = some true)

theorem iequals_trans (first : iequals a b = true) (second : iequals b c = true) : iequals a c = true := by
  unfold iequals at *
  rw [beq_iff_eq] at *
  exact first.trans second

theorem iequals_symm (same : iequals a b = true) : iequals b a = true := beq_iff_eq.mpr (beq_iff_eq.mp same).symm

theorem byAnother_of_not_names {d : UserDirectory} (other : ¬ cfg.Names group text) (follows : d.Follows cfg)
    (ask : Asked) (user : Bytes) (member : (d.isMember ask user text).2 = true) : ByAnother group text user d := by
  cases cfg with
  | «local» users groups =>
    obtain ⟨l,rfl,_⟩ := follows
    refine ⟨other,?_⟩
    have member : l.isMember user text = true := member
    unfold LocalDirectory.isMember at member
    cases found : l.groups.find text with
    | none => simp [found] at member
    | some members => simpa [found] using member
  | ldap server spells ttl salt =>
    obtain ⟨l,rfl,_,coherent⟩ := follows
    obtain ⟨_,_,account,found,name,inside,same⟩ := (coherent.isMember ask user text).2.2.mp member
    refine ⟨account,found,name,inside,same,?_⟩
    rw [Bool.eq_false_iff]
    intro again
    exact other (iequals_trans (iequals_symm again) same)

/-- What passes the check on this server is known to the directory, and not spelled as the admin group. -/
theorem destinationCheck_known {calls : List (Asked × DirectoryCall)} {ask : Asked} (admins : dest.adminGroup ≠ [])
    (here : server = [] ∨ server = dest.instanceName)
    (accepted : (destinationCheck dest ask target server (directoryAfter pbkdf2 sha256 (.ldap ldap spells ttl salt)
    calls)).2 = .ok ()) :
    target ≠ dest.adminGroup ∧ (DirectoryConfig.ldap ldap spells ttl salt).Known target := by
  have groups := directoryAfter_groupsTrue pbkdf2 sha256 (.ldap ldap spells ttl salt) calls
  obtain ⟨d,after,rfl,coherent⟩ := directoryAfter_follows pbkdf2 sha256 (.ldap ldap spells ttl salt) calls
  rw [after] at accepted groups
  unfold destinationCheck at accepted
  rw [if_pos here] at accepted
  split at accepted
  · contradiction
  rename_i plain
  refine ⟨fun same => plain ⟨admins,same⟩,?_⟩
  have asked := coherent.hasUser ask target
  simp only [UserDirectory.hasUser] at accepted
  generalize (d.hasUser ask target).2 = known at accepted asked
  split at accepted
  · contradiction
  · rename_i said
    obtain ⟨valid,account,found⟩ := asked.2.2 (Prod.mk.inj said).2
    exact ⟨valid,.inl (by rw [found]; exact Option.some_ne_none _)⟩
  · rename_i after said
    cases said
    have kept : (d.hasUser ask target).1.GroupsTrue := LdapDirectory.GroupsTrue.same groups (d.groupsOf_groups ask target)
    simp only [UserDirectory.hasGroup] at accepted
    split at accepted
    · contradiction
    · rename_i said
      obtain ⟨valid,found⟩ := (kept.hasGroup ask target).2 (Prod.mk.inj said).2
      rw [asked.2.1] at found
      exact ⟨valid,.inr found⟩
    · contradiction

/-- A directory that was not asked before lets any known name pass, other than the admin group as it is spelled. -/
theorem known_accepted (here : server = [] ∨ server = dest.instanceName) (other : target ≠ dest.adminGroup)
    (known : (DirectoryConfig.ldap ldap spells ttl salt).Known target) :
    (destinationCheck dest ⟨0,true⟩ target server (makeDirectory (.ldap ldap spells ttl salt))).2 = .ok () := by
  obtain ⟨valid,known⟩ := known
  unfold destinationCheck
  rw [if_pos here,if_neg fun same => other same.2]
  have asked : (makeDirectory (.ldap ldap spells ttl salt)).hasUser ⟨0,true⟩ target =
      (((makeDirectory (.ldap ldap spells ttl salt)).hasUser ⟨0,true⟩ target).1,.ok (ldap.findUser target).isSome) := by
    simp [makeDirectory,UserDirectory.hasUser,LdapDirectory.hasUser,LdapDirectory.groupsOf,valid,Table.find,Table.empty,
      Except.map]
  rw [asked]
  cases found : ldap.findUser target with
  | some account => rfl
  | none =>
    have present : ldap.findGroup target = some true := known.resolve_left fun user => user found
    simp [makeDirectory,UserDirectory.hasUser,LdapDirectory.hasUser,LdapDirectory.groupsOf,UserDirectory.hasGroup,
      LdapDirectory.hasGroup,valid,Table.find,Table.empty,present]

/-- No accepted target names the admin group, and nobody reads by being in it, exactly for the targets that are no other
spelling of the admin group, or are neither a user nor a group. -/
theorem admin_group_is_no_recipient (pbkdf2 : Pbkdf2) (sha256 : Bytes → Sha256Digest) (cfg : DirectoryConfig)
    (dest : DestinationConfig) (admins : dest.adminGroup ≠ []) (target server : Bytes)
    (here : server = [] ∨ server = dest.instanceName) : (∀ before ask,
        (destinationCheck dest ask target server (directoryAfter pbkdf2 sha256 cfg before)).2 = .ok () →
          ¬ cfg.Names dest.adminGroup target ∧
            ∀ later askLater user, ((directoryAfter pbkdf2 sha256 cfg later).isMember askLater user target).2 = true →
              ByAnother dest.adminGroup target user (directoryAfter pbkdf2 sha256 cfg later)) ↔
      (cfg.Names dest.adminGroup target → target = dest.adminGroup ∨ ¬ cfg.Known target) := by
  constructor
  · intro safe names
    by_contra! known
    obtain ⟨other,known⟩ := known
    cases cfg with
    | «local» users groups => exact other names
    | ldap ldap spells ttl salt => exact (safe [] ⟨0,true⟩ (known_accepted here other known)).1 names
  · intro spelled before ask accepted
    have other : ¬ cfg.Names dest.adminGroup target := by
      intro names
      cases cfg with
      | «local» users groups =>
        unfold destinationCheck at accepted
        rw [if_pos here,if_pos ⟨admins,names⟩] at accepted
        contradiction
      | ldap ldap spells ttl salt =>
        obtain ⟨apart,known⟩ := destinationCheck_known admins here accepted
        exact (spelled names).elim apart fun unknown => unknown known
    refine ⟨other,fun later askLater user member => ?_⟩
    exact byAnother_of_not_names other (directoryAfter_follows pbkdf2 sha256 cfg later) askLater user member

namespace Sample

def carols : DirectoryConfig :=
  .ldap (.listed [⟨ascii "carol",ascii "secret",[ascii "admins"]⟩] [ascii "admins",ascii "staff"])
    (LdapServer.listed_spells _) 60 ((List.range 16).map UInt8.ofNat)

end Sample

theorem staff_is_a_recipient :
    (destinationCheck Sample.destinations Sample.noon (ascii "staff") [] (makeDirectory Sample.carols)).2 = .ok () ∧
      ¬ Sample.carols.Names Sample.destinations.adminGroup (ascii "staff") := by
  have accepted :
      (destinationCheck Sample.destinations Sample.noon (ascii "staff") [] (makeDirectory Sample.carols)).2 = .ok () := by
    decide +kernel
  have distinct : iequals Sample.destinations.adminGroup (ascii "staff") ≠ true := by decide +kernel
  exact ⟨accepted,((admin_group_is_no_recipient Sample.noPbkdf2 Sample.loginSha256 Sample.carols Sample.destinations
    (by decide) (ascii "staff") [] (.inl rfl)).mpr (fun names => absurd names distinct) [] Sample.noon accepted).1⟩

/-- The group is refused as admins and accepted as Admins, and then carol is a recipient by being an administrator. -/
theorem other_spelling_of_admins :
    (destinationCheck Sample.destinations Sample.noon (ascii "admins") [] (makeDirectory Sample.carols)).2 ≠ .ok () ∧
      (destinationCheck Sample.destinations Sample.noon (ascii "Admins") [] (makeDirectory Sample.carols)).2 = .ok () ∧
      ((makeDirectory Sample.carols).isMember Sample.noon (ascii "carol") (ascii "Admins")).2 = true ∧
      ¬ ByAnother Sample.destinations.adminGroup (ascii "Admins") (ascii "carol") (makeDirectory Sample.carols) := by
  refine ⟨by decide +kernel,by decide +kernel,by decide +kernel,?_⟩
  rintro ⟨account,found,name,inside,_,other⟩
  obtain rfl : account = ⟨ascii "carol",[ascii "admins"]⟩ := by
    have found' : some account = some ⟨ascii "carol",[ascii "admins"]⟩ := found.symm.trans (by decide +kernel)
    exact Option.some.inj found'
  obtain rfl := List.mem_singleton.mp inside
  exact absurd other (by decide +kernel)

end Confide
