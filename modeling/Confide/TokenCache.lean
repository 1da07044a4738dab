import Confide.LexicalPath
import Confide.Urls

/-! Where ftc keeps the token of a session. User and host are free text, escaped into one file name whose
separators are never part of what they separate. -/
namespace Confide

open Bytes

structure ServerUrl where
  tls : Bool
  host : Bytes
  port : Bytes
  deriving DecidableEq

namespace ServerUrl

def defaultPort : Bytes := ascii "8080"

/-- Digits read into an unsigned number of 32 bits, and what is left behind them. -/
def fromChars (text : Bytes) : Option (Nat × Bytes) :=
  let digits := text.takeWhile isDigit
  if digits = [] ∨ 2 ^ 32 ≤ value digits then none else some (value digits,text.dropWhile isDigit)

def acceptsPort (port : Bytes) : Bool :=
  match fromChars port with
  | none => false
  | some (n,rest) => rest = [] && n ≠ 0 && n ≤ 65535

def scheme (text : Bytes) : Option (Bool × Bytes) :=
  if (ascii "https://").isPrefixOf text then some (true,text.drop 8)
  else if (ascii "http://").isPrefixOf text then some (false,text.drop 7)
  else none

/-- The text on both sides of its last colon. -/
def hostAndPort (text : Bytes) : Bytes × Bytes :=
  if 58 ∈ text then
    let port := (text.reverse.takeWhile (· ≠ 58)).reverse
    (text.take (text.length - port.length - 1),port)
  else (text,defaultPort)

/-- What stands between the scheme and a closing slash. -/
def authority (tls : Bool) (text : Bytes) : Result ServerUrl :=
  if 47 ∈ text then fail .validation (ascii "server URL must not have a path")
  else
    let (host,port) := hostAndPort text
    if host = [] then fail .validation (ascii "server URL has no host")
    else if !acceptsPort port then fail .validation (ascii "bad port in server URL: " ++ port)
    else .ok ⟨tls,host,port⟩

def parse (text : Bytes) : Result ServerUrl :=
  match scheme text with
  | none => fail .validation (ascii "server URL must start with http:// or https://")
  | some (tls,rest) => authority tls (if rest.getLast? = some 47 then rest.dropLast else rest)

def Port (port : Bytes) : Prop := ∃ text url, parse text = .ok url ∧ url.port = port

theorem acceptsPort_digits {port : Bytes} (accepted : acceptsPort port = true) :
    port ≠ [] ∧ ∀ b ∈ port, isDigit b = true := by
  unfold acceptsPort at accepted
  split at accepted
  · cases accepted
  · rename_i n rest read
    unfold fromChars at read
    dsimp only at read
    split at read
    · cases read
    · rename_i filled
      cases read
      simp only [Bool.and_eq_true,decide_eq_true_eq] at accepted
      constructor
      · rintro rfl
        exact filled (.inl rfl)
      · exact List.dropWhile_eq_nil_iff.mp accepted.1.1

theorem authority_port {tls : Bool} (read : authority tls text = .ok url) : acceptsPort url.port = true := by
  unfold authority at read
  split at read
  · cases read
  · dsimp only at read
    split at read
    · cases read
    · split at read
      · cases read
      · rename_i accepted
        cases read
        simpa using accepted

theorem Port.digits (port : Port text) : text ≠ [] ∧ ∀ b ∈ text, isDigit b = true := by
  obtain ⟨source,url,read,rfl⟩ := port
  apply acceptsPort_digits
  unfold parse at read
  split at read
  · cases read
  · exact authority_port read

end ServerUrl

namespace Ftc

/-- Letters, digits, dots and hyphens stand for themselves in a file name. -/
def isFileChar (u : UInt8) : Bool :=
  (97 ≤ u && u ≤ 122) || (65 ≤ u && u ≤ 90) || (48 ≤ u && u ≤ 57) || u == 46 || u == 45

def filePartByte (u : UInt8) : Bytes :=
  if isFileChar u then [u] else [37,upperHexDigit (u.toNat / 16),upperHexDigit (u.toNat % 16)]

def filePart (text : Bytes) : Bytes := text.flatMap filePartByte

def adminMark (admin : Bool) : Bytes := if admin then ascii ".admin" else []

def tokenName (url : ServerUrl) (user : Bytes) (admin : Bool) : Bytes :=
  filePart user ++ ascii "@" ++ filePart url.host ++ ascii "_" ++ url.port ++ adminMark admin

structure TokenCache where
  file : Bytes
  deriving DecidableEq

namespace TokenCache

/-- The state folder, by the environment. A relative XDG folder is passed over. -/
def stateFolder (xdgStateHome home : Option Bytes) : Result Bytes :=
  if LexicalPath.isRooted (xdgStateHome.getD []) then .ok (xdgStateHome.getD [])
  else if home.getD [] ≠ [] then
    .ok (LexicalPath.append (LexicalPath.append (home.getD []) (ascii ".local")) (ascii "state"))
  else fail .validation (ascii "can't find a place for the token: set HOME")

def tokensFolder (state : Bytes) : Bytes := LexicalPath.append (LexicalPath.append state (ascii "ftc")) (ascii "tokens")

def forServer (xdgStateHome home : Option Bytes) (url : ServerUrl) (user : Bytes) (admin : Bool) : Result TokenCache := do
  let state ← stateFolder xdgStateHome home
  return ⟨LexicalPath.append (tokensFolder state) (tokenName url user admin)⟩

def tmp (cache : TokenCache) : Bytes := cache.file ++ ascii ".tmp"

end TokenCache

/-! Escaped text can be told apart, and holds no separator. -/

theorem filePartByte_safe (u : UInt8) : ∀ c ∈ filePartByte u, (c ≠ 64 && c ≠ 95 && c ≠ 47) = true :=
  forall_byte_mem (f := filePartByte) (p := fun c => c ≠ 64 && c ≠ 95 && c ≠ 47) (by decide +kernel) u

theorem filePart_avoids (text : Bytes) : 64 ∉ filePart text ∧ 95 ∉ filePart text ∧ 47 ∉ filePart text := by
  have safe : ∀ c ∈ filePart text, (c ≠ 64 && c ≠ 95 && c ≠ 47) = true := by
    intro c member
    obtain ⟨u,_,inside⟩ := List.mem_flatMap.mp member
    exact filePartByte_safe u c inside
  exact ⟨fun member => by simpa using safe _ member,fun member => by simpa using safe _ member,
    fun member => by simpa using safe _ member⟩

theorem upperHexDigit_inj (hn : n < 16) (hm : m < 16) (same : upperHexDigit n = upperHexDigit m) : n = m := by
  have read := congrArg hexValue same
  rw [hexValue_upperHexDigit hn,hexValue_upperHexDigit hm] at read
  exact Option.some.inj read

/-- No code is the beginning of another one. -/
theorem filePartByte_inj {u v : UInt8} {rest rest' : Bytes} (same : filePartByte u ++ rest = filePartByte v ++ rest') :
    u = v ∧ rest = rest' := by
  unfold filePartByte at same
  split at same <;> split at same
  · exact List.cons.inj same
  · rename_i kept _
    obtain rfl : u = 37 := (List.cons.inj same).1
    exact absurd kept (by decide)
  · rename_i kept
    obtain rfl : v = 37 := (List.cons.inj same).1.symm
    exact absurd kept (by decide)
  · obtain ⟨_,same⟩ := List.cons.inj same
    obtain ⟨high,same⟩ := List.cons.inj same
    obtain ⟨low,same⟩ := List.cons.inj same
    have high := upperHexDigit_inj (by have := u.toNat_lt; omega) (by have := v.toNat_lt; omega) high
    have low := upperHexDigit_inj (Nat.mod_lt _ (by decide)) (Nat.mod_lt _ (by decide)) low
    constructor
    · apply UInt8.toNat_inj.mp
      omega
    · exact same

theorem filePartByte_ne_nil (u : UInt8) : filePartByte u ≠ [] := by
  unfold filePartByte
  split <;> simp

theorem filePart_inj {text text' : Bytes} (same : filePart text = filePart text') : text = text' := by
  induction text generalizing text' with
  | nil =>
    cases text' with
    | nil => rfl
    | cons v text' => exact absurd (List.append_eq_nil_iff.mp same.symm).1 (filePartByte_ne_nil v)
  | cons u text ih =>
    cases text' with
    | nil => exact absurd (List.append_eq_nil_iff.mp same).1 (filePartByte_ne_nil u)
    | cons v text' =>
      obtain ⟨rfl,rest⟩ := filePartByte_inj same
      rw [ih rest]

section Names

variable {url url' : ServerUrl} {user user' : Bytes} {admin admin' : Bool}

/-- The port ends where the mark of an admin session begins. -/
theorem port_mark_inj (digits : ∀ b ∈ port, isDigit b = true) (digits' : ∀ b ∈ port', isDigit b = true)
    (same : port ++ adminMark admin = port' ++ adminMark admin') : port = port' ∧ admin = admin' := by
  have read : ∀ (port : Bytes) (admin : Bool), (∀ b ∈ port, isDigit b = true) →
      (port ++ adminMark admin).takeWhile isDigit = port := by
    intro port admin digits
    rw [List.takeWhile_append_of_pos digits]
    cases admin <;> simp [adminMark,ascii,isDigit]
  have ports : port = port' := by
    rw [← read port admin digits,same,read port' admin' digits']
  subst ports
  have marks := List.append_cancel_left same
  refine ⟨rfl,?_⟩
  revert marks
  cases admin <;> cases admin' <;> simp [adminMark,ascii]

theorem port_mark_avoids (digits : ∀ b ∈ port, isDigit b = true) {c : UInt8} (other : isDigit c = false)
    (unmarked : c ∉ ascii ".admin") : c ∉ port ++ adminMark admin := by
  intro member
  rcases List.mem_append.mp member with member | member
  · rw [digits c member] at other
    cases other
  · cases admin with
    | false => cases member
    | true => exact unmarked member

theorem tokenName_eq : tokenName url user admin =
    filePart user ++ 64 :: (filePart url.host ++ 95 :: (url.port ++ adminMark admin)) := by
  simp [tokenName,ascii]

theorem tokenName_inj (port : ServerUrl.Port url.port) (port' : ServerUrl.Port url'.port)
    (same : tokenName url user admin = tokenName url' user' admin') :
    user = user' ∧ url.host = url'.host ∧ url.port = url'.port ∧ admin = admin' := by
  rw [tokenName_eq,tokenName_eq] at same
  have rest : 64 ∉ filePart url.host ++ 95 :: (url.port ++ adminMark admin) := by
    intro member
    rcases List.mem_append.mp member with member | member
    · exact (filePart_avoids _).1 member
    · rcases List.mem_cons.mp member with equal | member
      · cases equal
      · exact port_mark_avoids port.digits.2 (by decide) (by decide) member
  obtain ⟨users,_,same⟩ := (List.append_cons_inj_of_notMem (filePart_avoids user).1 rest).mp same
  have last : 95 ∉ url.port ++ adminMark admin := port_mark_avoids port.digits.2 (by decide) (by decide)
  obtain ⟨hosts,_,same⟩ := (List.append_cons_inj_of_notMem (filePart_avoids url.host).2.1 last).mp same
  obtain ⟨ports,admins⟩ := port_mark_inj port.digits.2 port'.digits.2 same
  exact ⟨filePart_inj users,filePart_inj hosts,ports,admins⟩

/-- The separators make the name one that means itself. -/
theorem tokenName_plain (port : ServerUrl.Port url.port) : LexicalPath.Plain (tokenName url user admin) := by
  have at64 : 64 ∈ tokenName url user admin := by
    rw [tokenName_eq]
    simp
  constructor
  · constructor
    · exact List.ne_nil_of_mem at64
    · rw [tokenName_eq]
      intro member
      rcases List.mem_append.mp member with member | member
      · exact (filePart_avoids _).2.2 member
      · rcases List.mem_cons.mp member with equal | member
        · cases equal
        · rcases List.mem_append.mp member with member | member
          · exact (filePart_avoids _).2.2 member
          · rcases List.mem_cons.mp member with equal | member
            · cases equal
            · exact port_mark_avoids port.digits.2 (by decide) (by decide) member
  · intro equal
    rw [equal] at at64
    exact absurd at64 (by decide)
  · intro equal
    rw [equal] at at64
    exact absurd at64 (by decide)

/-- A token name ends in a digit or in the mark, a temporary one does not. -/
theorem tokenName_ne_tmp (port : ServerUrl.Port url.port) (other : Bytes) :
    tokenName url user admin ≠ other ++ ascii ".tmp" := by
  intro same
  have last := congrArg List.getLast? same
  rw [tokenName_eq] at last
  cases admin with
  | true => simp [adminMark,ascii,List.getLast?_append,List.getLast?_cons] at last
  | false =>
    obtain ⟨front,b,written⟩ := List.eq_nil_or_concat url.port |>.resolve_left port.digits.1
    have digit : isDigit b = true := port.digits.2 b (by simp [written])
    have p : b = 112 := by simpa [adminMark,ascii,written,List.getLast?_append,List.getLast?_cons] using last
    subst p
    cases digit

theorem names_file (folder user : Bytes) (admin : Bool) (port : ServerUrl.Port url.port) :
    LexicalPath.names (LexicalPath.append (TokenCache.tokensFolder folder) (tokenName url user admin)) =
      LexicalPath.names (TokenCache.tokensFolder folder) ++ [tokenName url user admin] :=
  LexicalPath.names_child (tokenName_plain port).toProper

theorem names_tmp (folder user : Bytes) (admin : Bool) (port : ServerUrl.Port url.port) :
    LexicalPath.names (TokenCache.tmp ⟨LexicalPath.append (TokenCache.tokensFolder folder) (tokenName url user admin)⟩) =
      LexicalPath.names (TokenCache.tokensFolder folder) ++ [tokenName url user admin ++ ascii ".tmp"] := by
  have plain : LexicalPath.Plain (tokenName url user admin) := tokenName_plain port
  have proper : LexicalPath.Proper (tokenName url user admin ++ ascii ".tmp") := by
    constructor
    · simp [plain.inhabited]
    · simp [plain.whole,ascii]
  rw [← LexicalPath.names_child proper,TokenCache.tmp,LexicalPath.append_suffix plain.toProper]

/-- Two sessions below one state folder share a file only if they are the same session. Paths are compared name
by name, so that a repeated separator in the state folder makes no difference. -/
theorem sessions_have_their_own_file {xdg home xdg' home' : Option Bytes} {cache cache' : TokenCache}
    (first : TokenCache.forServer xdg home url user admin = .ok cache)
    (second : TokenCache.forServer xdg' home' url' user' admin' = .ok cache')
    (state : TokenCache.stateFolder xdg home = TokenCache.stateFolder xdg' home')
    (port : ServerUrl.Port url.port) (port' : ServerUrl.Port url'.port) :
    (LexicalPath.names cache.file = LexicalPath.names cache'.file →
      user = user' ∧ url.host = url'.host ∧ url.port = url'.port ∧ admin = admin') ∧
    (∃ folder, TokenCache.stateFolder xdg home = .ok folder ∧ LexicalPath.names cache.file =
      LexicalPath.names (TokenCache.tokensFolder folder) ++ [tokenName url user admin]) ∧
    LexicalPath.Plain (tokenName url user admin) ∧
    LexicalPath.names cache.file ≠ LexicalPath.names cache'.tmp := by
  obtain ⟨folder,here,made⟩ := bind_eq_ok.mp first
  obtain ⟨folder',there,made'⟩ := bind_eq_ok.mp second
  obtain rfl : folder = folder' := Except.ok.inj (here.symm.trans (state.trans there))
  cases made
  cases made'
  have file := names_file folder user admin port
  have file' := names_file folder user' admin' port'
  have tmp := names_tmp folder user' admin' port'
  refine ⟨?_,⟨folder,here,file⟩,tokenName_plain port,?_⟩
  · intro same
    rw [file,file'] at same
    exact tokenName_inj port port' (List.singleton_inj.mp (List.append_cancel_left same))
  · intro same
    rw [file,tmp] at same
    exact tokenName_ne_tmp port _ (List.singleton_inj.mp (List.append_cancel_left same))

end Names

def sampleServer : ServerUrl := ⟨false,ascii "files.local",ascii "8080"⟩

theorem sampleServer_port : ServerUrl.Port sampleServer.port := ⟨ascii "http://files.local/",sampleServer,by decide +kernel,rfl⟩

def sampleCache (user : Bytes) (admin : Bool) : TokenCache :=
  ⟨LexicalPath.append (TokenCache.tokensFolder (ascii "/state")) (tokenName sampleServer user admin)⟩

/-- The other user's name looks like the mark and the suffix of other files. -/
theorem admin_file_is_not_the_users :
    (sampleCache (ascii "kay") true).file ≠ (sampleCache (ascii "kay.admin@.tmp") false).file ∧
    (sampleCache (ascii "kay") true).file ≠ (sampleCache (ascii "kay.admin@.tmp") false).tmp := by
  have first : TokenCache.forServer (some (ascii "/state")) none sampleServer (ascii "kay") true =
      .ok (sampleCache (ascii "kay") true) := rfl
  have second : TokenCache.forServer (some (ascii "/state")) none sampleServer (ascii "kay.admin@.tmp") false =
      .ok (sampleCache (ascii "kay.admin@.tmp") false) := rfl
  have apart := sessions_have_their_own_file first second rfl sampleServer_port sampleServer_port
  constructor
  · intro same
    exact absurd (apart.1 (congrArg LexicalPath.names same)).2.2.2 (by decide)
  · intro same
    exact apart.2.2.2 (congrArg LexicalPath.names same)

end Ftc
end Confide
