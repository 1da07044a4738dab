import Confide.Directory
import Confide.Sessions

/-! Peers and their tokens. The parser of the configuration refuses every secret that appears twice, and the
authenticator tells a peer by its token alone. -/
namespace Confide

open Bytes

inductive Toml where
  | str (s : Bytes)
  | int (i : Int)
  | bool (b : Bool)
  | arr (items : List Toml)
  | table (fields : List (Bytes × Toml))
  | other

namespace Toml

def isTable : Toml → Bool
  | .table _ => true
  | _ => false

def find (key : Bytes) : Toml → Option Toml
  | .table fields => (fields.find? (·.1 = key)).map Prod.snd
  | _ => none

end Toml

namespace Config

def invalid (detail : Bytes) : Result α := fail .validation detail

def getString (tbl : Toml) (key place default : Bytes) : Result Bytes :=
  match tbl.find key with
  | none => .ok default
  | some (.str s) => .ok s
  | some _ => invalid (place ++ ascii "." ++ key ++ ascii ": expected a string")

def getUnsigned (tbl : Toml) (key place : Bytes) (max default : Nat) : Result Nat :=
  match tbl.find key with
  | none => .ok default
  | some (.int n) =>
    if n < 0 ∨ (max : Int) < n then
      invalid (place ++ ascii "." ++ key ++ ascii ": " ++ decimalInt n ++ ascii " is out of range [0, "
        ++ decimal max ++ ascii "]")
    else .ok n.toNat
  | some _ => invalid (place ++ ascii "." ++ key ++ ascii ": expected an integer")

def getSection (tbl : Toml) (key : Bytes) : Result (Option Toml) :=
  match tbl.find key with
  | none => .ok none
  | some v => if v.isTable then .ok (some v) else invalid (key ++ ascii ": expected a table")

structure PeerCfg where
  name : Bytes := []
  host : Bytes := []
  port : Nat := 8080
  token : Bytes := []
  acceptToken : Bytes := []
  deriving DecidableEq

def minPeerTokenLength : Nat := 32

def tokenProblem (secret : Bytes) : Option Bytes :=
  if secret.length < minPeerTokenLength then
    some (ascii "must be at least " ++ decimal minPeerTokenLength ++ ascii " characters (e.g. openssl rand -hex 32)")
  else if !secret.all (fun c => 32 < c && c < 0x7f) then some (ascii "must be visible ASCII characters only (no spaces)")
  else if (tokenPrefix .user).isPrefixOf secret || (tokenPrefix .admin).isPrefixOf secret then
    some (ascii "must not start with ftu_ or fta_ (the prefixes of user and admin tokens)")
  else none

/-- The secrets so far, each with where it was set. -/
abbrev Secrets := List (Bytes × Bytes)

def addSecret (secrets : Secrets) (field secret : Bytes) : Result Secrets :=
  match tokenProblem secret with
  | some problem => invalid (field ++ ascii " " ++ problem)
  | none => match secrets.find? (·.1 = secret) with
    | some other =>
      invalid (field ++ ascii " is the same secret as " ++ other.2 ++ ascii "; use a different one for each peer and direction")
    | none => .ok (secrets ++ [(secret,field)])

def readPeer (p : Toml) (place : Bytes) : Result PeerCfg := do
  let peer : PeerCfg := {}
  let name ← getString p (ascii "name") place peer.name
  let host ← getString p (ascii "host") place peer.host
  let port ← getUnsigned p (ascii "port") place 65535 peer.port
  let token ← getString p (ascii "token") place peer.token
  let acceptToken ← getString p (ascii "accept_token") place peer.acceptToken
  return ⟨name,host,port,token,acceptToken⟩

def checkPeer (instanceName : Bytes) (seen : List Bytes) (place : Bytes) (peer : PeerCfg) : Result Unit :=
  if !isValidName peer.name then
    invalid (place ++ ascii ".name: '" ++ peer.name ++ ascii "' must be 1-64 chars of [A-Za-z0-9._-]")
  else if peer.name = instanceName then
    invalid (place ++ ascii ".name: '" ++ peer.name ++ ascii "' is this instance's own name")
  else if peer.name ∈ seen then invalid (place ++ ascii ".name: duplicate peer '" ++ peer.name ++ ascii "'")
  else if peer.host = [] then invalid (place ++ ascii ".host is required")
  else if peer.port = 0 then invalid (place ++ ascii ".port must be in [1, 65535]")
  else if peer.token = [] ∨ peer.acceptToken = [] then
    invalid (place ++ ascii ": token and accept_token are both required")
  else if peer.token = peer.acceptToken then invalid (place ++ ascii ": token and accept_token must differ")
  else .ok ()

/-- What the loop over the peers has collected. -/
structure PeerScan where
  seen : List Bytes
  secrets : Secrets
  out : List PeerCfg

def parsePeer (instanceName : Bytes) (i : Nat) (scan : PeerScan) (p : Toml) : Result PeerScan := do
  let place := ascii "peer[" ++ decimal i ++ ascii "]"
  if !p.isTable then invalid (place ++ ascii ": expected a table")
  else
    let peer ← readPeer p place
    checkPeer instanceName scan.seen place peer
    let secrets ← addSecret scan.secrets (place ++ ascii ".token") peer.token
    let secrets ← addSecret secrets (place ++ ascii ".accept_token") peer.acceptToken
    return ⟨peer.name :: scan.seen,secrets,scan.out ++ [peer]⟩

def parsePeersFrom (instanceName : Bytes) : Nat → PeerScan → List Toml → Result PeerScan
  | _, scan, [] => .ok scan
  | i, scan, p :: rest => do
    let scan ← parsePeer instanceName i scan p
    parsePeersFrom instanceName (i + 1) scan rest

def parsePeers (root : Toml) (instanceName : Bytes) : Result (List PeerCfg) :=
  match root.find (ascii "peer") with
  | none => .ok []
  | some (.arr peers) => (·.out) <$> parsePeersFrom instanceName 0 ⟨[],[],[]⟩ peers
  | some _ => invalid (ascii "peer: expected an array of tables ([[peer]])")

end Config

open Config

/-- The credentials of a header of this scheme, whatever the case of the scheme. -/
def credentials (header scheme : Bytes) : Option Bytes :=
  if header.contains 32 && iequals (header.takeWhile (· ≠ 32)) scheme then
    some ((header.dropWhile (· ≠ 32)).dropWhile (· = 32))
  else none

structure Peer where
  name : Bytes
  token : Sha256Digest

namespace Authenticator

variable (sha256 : Bytes → Sha256Digest)

def create (peers : List PeerCfg) : List Peer :=
  (peers.filter (·.acceptToken ≠ [])).map fun p => ⟨p.name,sha256 p.acceptToken⟩

/-- Every peer is tried, and the last match counts. -/
def authenticatePeer (peers : List Peer) (authorization : Bytes) : Result Bytes :=
  if authorization = [] then denied (ascii "missing Authorization header")
  else match credentials authorization (ascii "Bearer") with
    | none | some [] => denied (ascii "expected Bearer peer token")
    | some token =>
      if (tokenPrefix .user).isPrefixOf token || (tokenPrefix .admin).isPrefixOf token then
        denied (ascii "user tokens are not accepted from peers")
      else match peers.foldl (fun found p => if p.token = sha256 token then some p else found) none with
        | none => denied (ascii "invalid peer token")
        | some p => .ok p.name

end Authenticator

/-- The secrets of the peers, in both directions. -/
def secretsOf (peers : List PeerCfg) : List Bytes := peers.flatMap fun p => [p.token,p.acceptToken]

/-- Every name and every secret is there once, and every secret can be a peer token. -/
structure Separate (peers : List PeerCfg) : Prop where
  names : (peers.map (·.name)).Nodup
  secrets : (secretsOf peers).Nodup
  usable : ∀ secret ∈ secretsOf peers, tokenProblem secret = none

structure Config.PeerScan.Sound (scan : PeerScan) : Prop where
  separate : Separate scan.out
  seen : ∀ name, name ∈ scan.seen ↔ name ∈ scan.out.map (·.name)
  listed : scan.secrets.map Prod.fst = secretsOf scan.out

theorem nodup_concat {xs : List Bytes} {x : Bytes} (distinct : xs.Nodup) (fresh : x ∉ xs) : (xs ++ [x]).Nodup :=
  List.nodup_append.mpr ⟨distinct,List.nodup_singleton _,fun _ member _ last same =>
    fresh (List.mem_singleton.mp last ▸ same ▸ member)⟩

theorem addSecret_ok {secrets after : Secrets} {field secret : Bytes} (added : addSecret secrets field secret = .ok after) :
    tokenProblem secret = none ∧ secret ∉ secrets.map Prod.fst ∧ after.map Prod.fst = secrets.map Prod.fst ++ [secret] := by
  unfold addSecret at added
  split at added
  · contradiction
  rename_i usable
  split at added
  · contradiction
  rename_i absent
  cases added
  refine ⟨usable,?_,by simp⟩
  intro member
  obtain ⟨entry,inside,rfl⟩ := List.mem_map.mp member
  exact List.find?_eq_none.mp absent entry inside (decide_eq_true rfl)

variable {instanceName : Bytes} {peer : PeerCfg}

theorem checkPeer_ok {place : Bytes} {seen : List Bytes}
    (checked : checkPeer instanceName seen place peer = .ok ()) : peer.name ∉ seen := by
  unfold checkPeer at checked
  split at checked
  · contradiction
  split at checked
  · contradiction
  split at checked
  · contradiction
  · assumption

theorem Config.PeerScan.Sound.parsePeer {scan after : PeerScan} {i : Nat} {p : Toml} (sound : scan.Sound)
    (parsed : Config.parsePeer instanceName i scan p = .ok after) : after.Sound := by
  unfold Config.parsePeer at parsed
  split at parsed
  · contradiction
  obtain ⟨peer,_,parsed⟩ := bind_eq_ok.mp parsed
  obtain ⟨_,checked,parsed⟩ := bind_eq_ok.mp parsed
  obtain ⟨first,addedFirst,parsed⟩ := bind_eq_ok.mp parsed
  obtain ⟨second,addedSecond,parsed⟩ := bind_eq_ok.mp parsed
  cases parsed
  obtain ⟨usable,fresh,listed⟩ := addSecret_ok addedFirst
  obtain ⟨usable',fresh',listed'⟩ := addSecret_ok addedSecond
  have new : peer.name ∉ scan.seen := checkPeer_ok checked
  rw [sound.listed] at fresh listed
  rw [listed] at fresh' listed'
  have grown : secretsOf (scan.out ++ [peer]) = secretsOf scan.out ++ [peer.token] ++ [peer.acceptToken] := by
    simp [secretsOf]
  refine ⟨⟨?_,?_,?_⟩,?_,?_⟩
  · rw [List.map_append]
    apply List.nodup_append.mpr ⟨sound.separate.names,List.nodup_singleton _,?_⟩
    rintro name member _ last rfl
    rw [List.mem_singleton.mp last] at member
    exact new ((sound.seen _).mpr member)
  · rw [grown]
    exact nodup_concat (nodup_concat sound.separate.secrets fresh) fresh'
  · rw [grown]
    intro secret member
    simp only [List.mem_append,List.mem_singleton] at member
    rcases member with (old | rfl) | rfl
    · exact sound.separate.usable secret old
    · exact usable
    · exact usable'
  · intro name
    rw [List.mem_cons,sound.seen,List.map_append,List.mem_append,List.map_singleton,List.mem_singleton,or_comm]
  · rw [listed',grown]

theorem parsePeersFrom_sound (blocks : List Toml) {i : Nat} {scan after : PeerScan} (sound : scan.Sound)
    (parsed : parsePeersFrom instanceName i scan blocks = .ok after) : after.Sound := by
  induction blocks generalizing i scan with
  | nil => exact Except.ok.inj parsed ▸ sound
  | cons p rest ih =>
    obtain ⟨next,first,parsed⟩ := bind_eq_ok.mp parsed
    exact ih (sound.parsePeer first) parsed

variable {peers : List PeerCfg}

/-- Over any number of blocks, an accepted configuration has no secret twice. -/
theorem parsePeers_separate {root : Toml}
    (parsed : parsePeers root instanceName = .ok peers) : Separate peers := by
  have none : Separate [] := ⟨List.nodup_nil,List.nodup_nil,nofun⟩
  unfold parsePeers at parsed
  split at parsed
  · exact Except.ok.inj parsed ▸ none
  · rename_i blocks _
    cases read : parsePeersFrom instanceName 0 ⟨[],[],[]⟩ blocks with
    | error e => rw [read] at parsed; contradiction
    | ok scan =>
      rw [read] at parsed
      cases parsed
      exact (parsePeersFrom_sound blocks ⟨none,fun _ => Iff.rfl,rfl⟩ read).separate
  · contradiction

theorem mem_secretsOf (member : peer ∈ peers) :
    peer.token ∈ secretsOf peers ∧ peer.acceptToken ∈ secretsOf peers := by
  constructor <;> exact List.mem_flatMap.mpr ⟨peer,member,by simp⟩

/-- Two peers share no secret, and the two secrets of a peer differ. -/
theorem Separate.apart (separate : Separate peers) {other : PeerCfg} (member : peer ∈ peers) (member' : other ∈ peers) :
    (peer.acceptToken = other.acceptToken → peer = other) ∧ peer.token ≠ other.acceptToken := by
  obtain ⟨own,pairs⟩ := List.nodup_flatMap.mp separate.secrets
  by_cases same : peer = other
  · subst same
    exact ⟨fun _ => rfl,by simpa using own peer member⟩
  · have : Std.Symm (Function.onFun List.Disjoint fun p : PeerCfg => [p.token,p.acceptToken]) :=
      ⟨fun _ _ disjoint => disjoint.symm⟩
    have disjoint : List.Disjoint [peer.token,peer.acceptToken] [other.token,other.acceptToken] :=
      pairs.forall member member' same
    exact ⟨fun shared => absurd (disjoint (a := peer.acceptToken) (by simp) (by simp [shared])) not_false,
      fun shared => disjoint (a := peer.token) (by simp) (by simp [shared])⟩

variable {sha256 : Bytes → Sha256Digest}

/-- The last match of the loop is the first one from the end. -/
theorem foldl_last_match (digest : Sha256Digest) (peers : List Peer) (found : Option Peer) :
    peers.foldl (fun found p => if p.token = digest then some p else found) found =
      (peers.reverse.find? (·.token = digest)).or found := by
  induction peers generalizing found with
  | nil => rfl
  | cons q peers ih =>
    rw [List.foldl_cons,ih,List.reverse_cons,List.find?_append,Option.or_assoc]
    by_cases hit : q.token = digest <;> simp [hit]

def bearer (authorization : Bytes) : Option Bytes := credentials authorization (ascii "Bearer")

/-- A token that belongs to a peer is not empty and has no prefix of a user token. -/
theorem tokenProblem_none {secret : Bytes} (usable : tokenProblem secret = none) :
    secret ≠ [] ∧ ((tokenPrefix .user).isPrefixOf secret || (tokenPrefix .admin).isPrefixOf secret) = false := by
  unfold tokenProblem at usable
  split at usable
  · contradiction
  rename_i long
  split at usable
  · contradiction
  split at usable
  · contradiction
  rename_i plain
  refine ⟨?_,Bool.eq_false_iff.mpr plain⟩
  rintro rfl
  exact long (by decide)

theorem mem_create {p : Peer} : p ∈ Authenticator.create sha256 peers ↔
    ∃ peer ∈ peers, peer.acceptToken ≠ [] ∧ p = ⟨peer.name,sha256 peer.acceptToken⟩ := by
  unfold Authenticator.create
  simp only [List.mem_map,List.mem_filter,decide_eq_true_eq,and_assoc,eq_comm (b := p)]

theorem authenticatePeer_ok (separate : Separate peers) {authorization : Bytes}
    (injective : Set.InjOn sha256 {token | bearer authorization = some token ∨ ∃ peer ∈ peers, token = peer.acceptToken})
    (name : Bytes) :
    Authenticator.authenticatePeer sha256 (Authenticator.create sha256 peers) authorization = .ok name ↔
      ∃ peer ∈ peers, peer.name = name ∧ bearer authorization = some peer.acceptToken := by
  have matching : ∀ token peer, bearer authorization = some token → peer ∈ peers →
      (sha256 peer.acceptToken = sha256 token ↔ peer.acceptToken = token) := by
    intro token peer carried member
    exact ⟨fun same => injective (.inr ⟨peer,member,rfl⟩) (.inl carried) same,fun same => same ▸ rfl⟩
  unfold Authenticator.authenticatePeer
  constructor
  · intro accepted
    split at accepted
    · contradiction
    split at accepted
    · contradiction
    · contradiction
    rename_i token _ carried
    split at accepted
    · contradiction
    rw [foldl_last_match,Option.or_none] at accepted
    split at accepted
    · contradiction
    · rename_i p found
      have hit : sha256 token = p.token := by simpa [eq_comm] using List.find?_some found
      obtain ⟨peer,member,_,rfl⟩ := mem_create.mp (List.mem_reverse.mp (List.mem_of_find?_eq_some found))
      obtain rfl := (matching token peer carried member).mp hit.symm
      exact ⟨peer,member,Except.ok.inj accepted,carried⟩
  · rintro ⟨peer,member,rfl,carried⟩
    obtain ⟨nonempty,plain⟩ := tokenProblem_none (separate.usable _ (mem_secretsOf member).2)
    have header : authorization ≠ [] := by
      rintro rfl
      contradiction
    have own : ⟨peer.name,sha256 peer.acceptToken⟩ ∈ (Authenticator.create sha256 peers).reverse :=
      List.mem_reverse.mpr (mem_create.mpr ⟨peer,member,nonempty,rfl⟩)
    have first : ∃ p, (Authenticator.create sha256 peers).reverse.find? (·.token = sha256 peer.acceptToken) = some p ∧
        p.name = peer.name := by
      cases found : (Authenticator.create sha256 peers).reverse.find? (·.token = sha256 peer.acceptToken) with
      | none => exact absurd (decide_eq_true rfl) (List.find?_eq_none.mp found _ own)
      | some p =>
        have hit : p.token = sha256 peer.acceptToken := by simpa using List.find?_some found
        obtain ⟨other,member',_,rfl⟩ := mem_create.mp (List.mem_reverse.mp (List.mem_of_find?_eq_some found))
        have same := (matching peer.acceptToken other carried member').mp hit
        exact ⟨_,rfl,by rw [(separate.apart member' member).1 same]⟩
    obtain ⟨p,found,named⟩ := first
    rw [if_neg header,show credentials authorization (ascii "Bearer") = some peer.acceptToken from carried]
    split
    · contradiction
    · rename_i empty
      exact absurd (Option.some.inj empty) nonempty
    · rename_i token _ its
      cases its
      rw [plain,foldl_last_match,found,← named]
      rfl

/-- For every accepted configuration: a header lets in the one peer whose token it carries, and nobody else. -/
theorem peer_tokens_name_peers (sha256 : Bytes → Sha256Digest) (root : Toml) (instanceName : Bytes) (peers : List PeerCfg)
    (parsed : parsePeers root instanceName = .ok peers) (authorization : Bytes)
    (injective : Set.InjOn sha256 {token | bearer authorization = some token ∨ ∃ peer ∈ peers, token = peer.acceptToken}) :
    (∀ name, Authenticator.authenticatePeer sha256 (Authenticator.create sha256 peers) authorization = .ok name ↔
      ∃ peer ∈ peers, peer.name = name ∧ bearer authorization = some peer.acceptToken) ∧
    (∀ peer ∈ peers, ∀ other ∈ peers, bearer authorization = some peer.acceptToken →
      bearer authorization = some other.acceptToken → peer = other) ∧
    ∀ token, bearer authorization = some token →
      (tokenPrefix .user <+: token ∨ tokenPrefix .admin <+: token ∨ ∃ peer ∈ peers, token = peer.token) →
      ∀ name, Authenticator.authenticatePeer sha256 (Authenticator.create sha256 peers) authorization ≠ .ok name := by
  have separate := parsePeers_separate parsed
  have exactly := authenticatePeer_ok separate injective
  refine ⟨exactly,?_,?_⟩
  · intro peer member other member' first second
    exact (separate.apart member member').1 (Option.some.inj (first.symm.trans second))
  · intro token carried foreign name accepted
    obtain ⟨peer,member,_,its⟩ := (exactly name).mp accepted
    obtain rfl : token = peer.acceptToken := Option.some.inj (carried.symm.trans its)
    have plain := (tokenProblem_none (separate.usable _ (mem_secretsOf member).2)).2
    rw [Bool.or_eq_false_iff] at plain
    rcases foreign with user | admin | ⟨other,member',same⟩
    · exact absurd (List.isPrefixOf_iff_prefix.mpr user) (by simp [plain.1])
    · exact absurd (List.isPrefixOf_iff_prefix.mpr admin) (by simp [plain.2])
    · exact (separate.apart member' member).2 same.symm

namespace Sample

def peerBlock (name token acceptToken : Bytes) : Toml :=
  .table [(ascii "name",.str name),(ascii "host",.str (ascii "example")),(ascii "token",.str token),
    (ascii "accept_token",.str acceptToken)]

def secret (letter : UInt8) : Bytes := List.replicate 32 letter

/-- SHA-256 of the two tokens that are accepted. -/
def secretSha256 (token : Bytes) : Sha256Digest :=
  .ofNat (if token = secret 98 then 0xbdb339768bc5e4fecbe55a442056919b2b325907d49bcbf3bf8de13781996a83
    else 0xfbbbb6de2aa74c3c9570d2d8db1de31eadb66113c96034a7adb21243754d7683)

def twoPeers : Toml :=
  .table [(ascii "peer",.arr [peerBlock (ascii "beta") (secret 97) (secret 98),peerBlock (ascii "gamma") (secret 99)
    (secret 100)])]

def twoPeerCfgs : List PeerCfg :=
  [⟨ascii "beta",ascii "example",8080,secret 97,secret 98⟩,⟨ascii "gamma",ascii "example",8080,secret 99,secret 100⟩]

end Sample

theorem gamma_is_let_in :
    let header := ascii "bearer  " ++ Sample.secret 100
    Authenticator.authenticatePeer Sample.secretSha256 (Authenticator.create Sample.secretSha256 Sample.twoPeerCfgs) header =
      .ok (ascii "gamma") := by
  intro header
  have parsed : parsePeers Sample.twoPeers (ascii "alpha") = .ok Sample.twoPeerCfgs := by rfl
  have carried : bearer header = some (Sample.secret 100) := by rfl
  have injective : Set.InjOn Sample.secretSha256
      {token | bearer header = some token ∨ ∃ peer ∈ Sample.twoPeerCfgs, token = peer.acceptToken} := by
    have few : ∀ token ∈ {token | bearer header = some token ∨ ∃ peer ∈ Sample.twoPeerCfgs, token = peer.acceptToken},
        token ∈ [Sample.secret 98,Sample.secret 100] := by
      rintro token (its | ⟨peer,member,rfl⟩)
      · simp [← Option.some.inj (carried.symm.trans its)]
      · revert peer
        decide +kernel
    have differ : ∀ a ∈ [Sample.secret 98,Sample.secret 100], ∀ b ∈ [Sample.secret 98,Sample.secret 100],
        Sample.secretSha256 a = Sample.secretSha256 b → a = b := by decide +kernel
    exact fun a first b second same => differ a (few a first) b (few b second) same
  apply ((peer_tokens_name_peers Sample.secretSha256 Sample.twoPeers (ascii "alpha") Sample.twoPeerCfgs parsed header injective).1
    (ascii "gamma")).mpr
  exact ⟨⟨ascii "gamma",ascii "example",8080,Sample.secret 99,Sample.secret 100⟩,by simp [Sample.twoPeerCfgs],rfl,carried⟩

end Confide
