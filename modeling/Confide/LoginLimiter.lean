import Confide.Directory
import Confide.Runs

/-! Slowing down password guessing. The table of the limiter has a count for each user, each address and each pair of the
two, under keys that are texts. It is compared with the history of failed and successful logins. -/
namespace Confide

open Bytes

def lower (text : Bytes) : Bytes := text.map toLower

structure LoginLimiterOptions where
  freePerPair : Nat := 5
  freePerSource : Nat := 20
  freePerUser : Nat := 50
  baseDelay : Int := 30
  maxDelay : Int := 900
  maxKeys : Nat := 10000

structure LimiterEntry where
  failures : Nat := 0
  lastFailure : Int := 0
  blockedUntil : Int := 0
  deriving DecidableEq

abbrev LoginLimiter := Table Bytes LimiterEntry

def userKey (user : Bytes) : Bytes := ascii "u:" ++ lower user

def sourceKey (source : Bytes) : Bytes := ascii "s:" ++ source

def pairKey (user source : Bytes) : Bytes := ascii "p:" ++ lower user ++ ascii ":" ++ source

namespace LoginLimiter

/-- The search for the latest end of a block starts from the epoch. -/
def check (limiter : LoginLimiter) (now : Int) (user source : Bytes) : Result Unit :=
  let «until» := [pairKey user source,sourceKey source,userKey user].foldl (fun «until» key =>
    match limiter.find key with
    | some entry => max «until» entry.blockedUntil
    | none => «until») 0
  if now < «until» then
    fail .throttled (ascii "too many failed logins, retry in " ++ decimalInt («until» - now) ++ ascii " s")
  else .ok ()

variable (opts : LoginLimiterOptions)

/-- Seconds are 64 bits wide, and the delay is not doubled more than 20 times. -/
def delay (free failures : Nat) : Int :=
  min ((opts.baseDelay * 2 ^ min (failures - free - 1) 20).bmod (2 ^ 64)) opts.maxDelay

def bump (limiter : LoginLimiter) (key : Bytes) (free : Nat) (now : Int) : LoginLimiter :=
  let entry := (limiter.find key).getD {}
  let entry := { entry with failures := (entry.failures + 1) % 2 ^ 32, lastFailure := now }
  limiter.insertOrAssign key <|
    if entry.failures ≤ free then entry else { entry with blockedUntil := now + delay opts free entry.failures }

def isIdle (now : Int) (entry : Bytes × LimiterEntry) : Bool :=
  entry.2.blockedUntil ≤ now && entry.2.lastFailure + opts.maxDelay ≤ now

def dropIdle (limiter : LoginLimiter) (now : Int) : LoginLimiter := limiter.eraseIf (isIdle opts now)

def failed (limiter : LoginLimiter) (now : Int) (user source : Bytes) : LoginLimiter :=
  let limiter := if opts.maxKeys ≤ limiter.table.length then dropIdle opts limiter now else limiter
  let limiter := bump opts limiter (pairKey user source) opts.freePerPair now
  let limiter := bump opts limiter (sourceKey source) opts.freePerSource now
  bump opts limiter (userKey user) opts.freePerUser now

def succeeded (limiter : LoginLimiter) (user source : Bytes) : LoginLimiter :=
  (limiter.erase (pairKey user source)).erase (userKey user)

end LoginLimiter

inductive LoginKey where
  | pair (user source : Bytes)
  | source (source : Bytes)
  | user (user : Bytes)
  deriving DecidableEq

namespace LoginKey

def text : LoginKey → Bytes
  | .pair name address => ascii "p:" ++ name ++ ascii ":" ++ address
  | .source address => ascii "s:" ++ address
  | .user name => ascii "u:" ++ name

def Named : LoginKey → Prop
  | .pair name _ => 58 ∉ name
  | .source _ => True
  | .user name => 58 ∉ name

theorem colon_split {first second rest rest' : Bytes} (plain : 58 ∉ first) (plain' : 58 ∉ second)
    (same : first ++ 58 :: rest = second ++ 58 :: rest') : first = second ∧ rest = rest' := by
  have apart : ∀ (short tail more more' : Bytes), 58 ∉ short ++ tail → 58 :: more = tail ++ 58 :: more' →
      tail = [] ∧ more = more' := by
    intro short tail more more' plain same
    cases tail with
    | nil => exact ⟨rfl,(List.cons.inj same).2⟩
    | cons b tail =>
      have colon : 58 = b := (List.cons.inj same).1
      exact absurd (by simp [colon]) plain
  rcases List.append_eq_append_iff.mp same with ⟨tail,longer,later⟩ | ⟨tail,longer,later⟩
  · subst longer
    obtain ⟨rfl,rest⟩ := apart first tail _ _ plain' later
    exact ⟨(List.append_nil _).symm,rest⟩
  · subst longer
    obtain ⟨rfl,rest⟩ := apart second tail _ _ plain later
    exact ⟨List.append_nil _,rest.symm⟩

theorem text_inj {key other : LoginKey} (named : key.Named) (named' : other.Named) : key.text = other.text ↔ key = other := by
  constructor
  · intro same
    cases key with
    | pair name address =>
      cases other with
      | pair name' address' =>
        have same : name ++ 58 :: address = name' ++ 58 :: address' := by simpa [text,ascii] using same
        obtain ⟨rfl,rfl⟩ := colon_split named named' same
        rfl
      | source | user => simp [text,ascii] at same
    | source address =>
      cases other with
      | source address' => simpa [text] using same
      | pair | user => simp [text,ascii] at same
    | user name =>
      cases other with
      | user name' => simpa [text] using same
      | pair | source => simp [text,ascii] at same
  · rintro rfl
    rfl

/-- What a login of this user from this address is counted under. -/
def of (name address : Bytes) : List LoginKey := [.pair (lower name) address,.source address,.user (lower name)]

def free (opts : LoginLimiterOptions) : LoginKey → Nat
  | .pair _ _ => opts.freePerPair
  | .source _ => opts.freePerSource
  | .user _ => opts.freePerUser

end LoginKey

theorem colon_notMem_lower (user : Bytes) : 58 ∈ lower user ↔ 58 ∈ user := by
  have colon : ∀ b, toLower b = 58 ↔ b = 58 := forall_byte (by decide +kernel)
  simp [lower,colon]

theorem LoginKey.of_named {user : Bytes} (plain : 58 ∉ user) (source : Bytes) : ∀ key ∈ LoginKey.of user source, key.Named := by
  have plain : 58 ∉ lower user := fun colon => plain ((colon_notMem_lower user).mp colon)
  simp [LoginKey.of,LoginKey.Named,plain]

inductive LoginMark where
  | failure (key : LoginKey) (time : Int)
  | succeeded (user source : Bytes)
  | dropped (texts : List Bytes) (time : Int)

namespace LoginMark

/-- A success clears the pair and the user, never the address. -/
def clears (key : LoginKey) : LoginMark → Bool
  | .failure _ _ => false
  | .succeeded user source => key == .pair (lower user) source || key == .user (lower user)
  | .dropped texts _ => texts.contains key.text

def failureOf (key : LoginKey) : LoginMark → Option Int
  | .failure other time => if other = key then some time else none
  | _ => none

end LoginMark

/-- The times of the failures since the key was last cleared, latest first. -/
def failuresSince (key : LoginKey) (log : List LoginMark) : List Int :=
  (log.takeWhile (!·.clears key)).filterMap (·.failureOf key)

/-- The key is blocked: past its limit, and within the delay of its last failure. -/
def KeyBlocked (opts : LoginLimiterOptions) (key : LoginKey) (log : List LoginMark) (now : Int) : Prop :=
  ∃ last, (failuresSince key log).head? = some last ∧ key.free opts < (failuresSince key log).length ∧
    now < last + min (opts.baseDelay * 2 ^ min ((failuresSince key log).length - key.free opts - 1) 20) opts.maxDelay

inductive LoginCall where
  | failed (user source : Bytes)
  | succeeded (user source : Bytes)

def LoginCall.userName : LoginCall → Bytes
  | .failed user _ => user
  | .succeeded user _ => user

def LoginCall.fails (key : LoginKey) : LoginCall → Bool
  | .failed user source => (LoginKey.of user source).contains key
  | .succeeded _ _ => false

/-- A limiter next to its history. -/
structure Watched where
  limiter : LoginLimiter
  log : List LoginMark

namespace Watched

variable (opts : LoginLimiterOptions)

/-- What is removed to make place for a failure. -/
def dropped (limiter : LoginLimiter) (now : Int) : List Bytes :=
  if opts.maxKeys ≤ limiter.table.length then (limiter.table.filter (LoginLimiter.isIdle opts now)).map Prod.fst else []

def step (w : Watched) : Int × LoginCall → Watched
  | (now,.failed user source) =>
    ⟨LoginLimiter.failed opts w.limiter now user source,
      .failure (.user (lower user)) now :: .failure (.source source) now :: .failure (.pair (lower user) source) now ::
        .dropped (dropped opts w.limiter now) now :: w.log⟩
  | (_,.succeeded user source) => ⟨LoginLimiter.succeeded w.limiter user source,.succeeded user source :: w.log⟩

def watch (calls : List (Int × LoginCall)) : Watched := Runs.run (step opts) ⟨.empty,[]⟩ calls

end Watched

theorem Watched.mem_dropped {opts : LoginLimiterOptions} {limiter : LoginLimiter} {now : Int} {text : Bytes} :
    text ∈ dropped opts limiter now ↔ opts.maxKeys ≤ limiter.table.length ∧
      ∃ entry, limiter.find text = some entry ∧ LoginLimiter.isIdle opts now (text,entry) = true := by
  unfold dropped
  split
  · simp_all [Table.find_eq_some]
  · simp_all

theorem failuresSince_failure (key other : LoginKey) (time : Int) (log : List LoginMark) :
    failuresSince key (.failure other time :: log) =
      if other = key then time :: failuresSince key log else failuresSince key log := by
  unfold failuresSince
  rw [List.takeWhile_cons_of_pos rfl,List.filterMap_cons]
  split <;> simp_all [LoginMark.failureOf]

theorem failuresSince_clearing {key : LoginKey} {mark : LoginMark} (log : List LoginMark) (clears : mark.clears key = true) :
    failuresSince key (mark :: log) = [] := by
  simp [failuresSince,clears]

theorem failuresSince_other {key : LoginKey} {mark : LoginMark} (log : List LoginMark) (clears : mark.clears key = false)
    (other : mark.failureOf key = none) : failuresSince key (mark :: log) = failuresSince key log := by
  simp [failuresSince,clears,other]

theorem failuresSince_le {key : LoginKey} {mark : LoginMark} (log : List LoginMark) (other : mark.failureOf key = none) :
    (failuresSince key (mark :: log)).length ≤ (failuresSince key log).length := by
  cases clears : mark.clears key with
  | false => rw [failuresSince_other log clears other]
  | true => simp [failuresSince_clearing log clears]

section

variable {opts : LoginLimiterOptions} {limiter : LoginLimiter} {log : List LoginMark}

/-- What the table holds for a key with these failures. -/
def entryOf (opts : LoginLimiterOptions) (key : LoginKey) : List Int → Option LimiterEntry
  | [] => none
  | last :: earlier => some ⟨earlier.length + 1,last,
    if earlier.length + 1 ≤ key.free opts then 0
    else last + LoginLimiter.delay opts (key.free opts) (earlier.length + 1)⟩

theorem entryOf_cons (opts : LoginLimiterOptions) (key : LoginKey) (last : Int) (earlier : List Int) :
    entryOf opts key (last :: earlier) = some ⟨earlier.length + 1,last,
      if earlier.length + 1 ≤ key.free opts then 0
      else last + LoginLimiter.delay opts (key.free opts) (earlier.length + 1)⟩ := rfl

/-- The table tells the history of the key. -/
def CountedAs (opts : LoginLimiterOptions) (limiter : LoginLimiter) (log : List LoginMark) (key : LoginKey) : Prop :=
  limiter.find key.text = entryOf opts key (failuresSince key log)

variable {key other : LoginKey}

theorem CountedAs.bump (tells : CountedAs opts limiter log other) (named' : other.Named) (named : key.Named) (now : Int)
    (few : other = key → (failuresSince other log).length + 1 < 2 ^ 32) :
    CountedAs opts (LoginLimiter.bump opts limiter key.text (key.free opts) now) (.failure key now :: log) other := by
  unfold CountedAs LoginLimiter.bump
  rw [Table.find_insertOrAssign,failuresSince_failure]
  by_cases same : other = key
  · have room := few same
    subst same
    rw [if_pos rfl,if_pos rfl,tells]
    have counted : ((entryOf opts other (failuresSince other log)).getD {}).failures = (failuresSince other log).length := by
      cases failuresSince other log <;> rfl
    have unblocked : (failuresSince other log).length + 1 ≤ other.free opts →
        ((entryOf opts other (failuresSince other log)).getD {}).blockedUntil = 0 := by
      intro free
      cases failures : failuresSince other log with
      | nil => rfl
      | cons last earlier =>
        rw [failures,List.length_cons] at free
        exact if_pos (by omega)
    dsimp only
    rw [counted,Nat.mod_eq_of_lt room,entryOf_cons]
    split
    · rename_i free
      rw [unblocked free]
    · rfl
  · have apart : other.text ≠ key.text := fun text => same ((LoginKey.text_inj named' named).mp text)
    rw [if_neg apart,if_neg fun h => same h.symm,tells]

theorem CountedAs.dropped (tells : CountedAs opts limiter log key) (now : Int) :
    CountedAs opts (if opts.maxKeys ≤ limiter.table.length then LoginLimiter.dropIdle opts limiter now else limiter)
      (.dropped (Watched.dropped opts limiter now) now :: log) key := by
  unfold CountedAs at tells ⊢
  by_cases gone : key.text ∈ Watched.dropped opts limiter now
  · obtain ⟨full,entry,found,idle⟩ := Watched.mem_dropped.mp gone
    rw [if_pos full,failuresSince_clearing log (by simpa [LoginMark.clears] using gone),LoginLimiter.dropIdle,
      Table.find_eraseIf,found]
    simp [idle,entryOf]
  · rw [failuresSince_other log (by simpa [LoginMark.clears] using gone) rfl,← tells]
    split
    · rename_i full
      rw [LoginLimiter.dropIdle,Table.find_eraseIf]
      cases found : limiter.find key.text with
      | none => rfl
      | some entry =>
        have busy : LoginLimiter.isIdle opts now (key.text,entry) = false := by
          rw [Bool.eq_false_iff]
          exact fun idle => gone (Watched.mem_dropped.mpr ⟨full,entry,found,idle⟩)
        simp [busy]
    · rfl

theorem CountedAs.succeeded (tells : CountedAs opts limiter log key) (named : key.Named) {user source : Bytes}
    (plain : 58 ∉ user) :
    CountedAs opts (LoginLimiter.succeeded limiter user source) (.succeeded user source :: log) key := by
  have keys := LoginKey.of_named plain source
  have ofPair : key.text = pairKey user source ↔ key = .pair (lower user) source :=
    LoginKey.text_inj named (keys (.pair (lower user) source) (by simp [LoginKey.of]))
  have ofUser : key.text = userKey user ↔ key = .user (lower user) :=
    LoginKey.text_inj named (keys (.user (lower user)) (by simp [LoginKey.of]))
  unfold CountedAs LoginLimiter.succeeded at *
  rw [Table.find_erase,Table.find_erase]
  by_cases cleared : LoginMark.clears key (.succeeded user source) = true
  · rw [failuresSince_clearing log cleared]
    rcases (by simpa [LoginMark.clears] using cleared : key = _ ∨ key = _) with rfl | rfl
    · rw [if_pos (show LoginKey.text _ = pairKey user source from rfl),ite_self]
      rfl
    · exact if_pos rfl
  · have other : key ≠ .pair (lower user) source ∧ key ≠ .user (lower user) := by
      simpa [LoginMark.clears] using cleared
    rw [failuresSince_other log (Bool.eq_false_iff.mpr cleared) rfl,← tells]
    rw [if_neg (fun same => other.2 (ofUser.mp same)),if_neg (fun same => other.1 (ofPair.mp same))]

theorem CountedAs.step {w : Watched} (tells : CountedAs opts w.limiter w.log key) (named : key.Named) {step : Int × LoginCall}
    (plain : 58 ∉ step.2.userName) (few : step.2.fails key = true → (failuresSince key w.log).length + 1 < 2 ^ 32) :
    CountedAs opts (w.step opts step).limiter (w.step opts step).log key := by
  obtain ⟨now,call⟩ := step
  cases call with
  | succeeded user source => exact tells.succeeded named plain
  | failed user source =>
    have keys : ∀ key ∈ LoginKey.of user source, key.Named := LoginKey.of_named plain source
    have room : ∀ {log' : List LoginMark} {other : LoginKey}, (failuresSince key log').length
      ≤ (failuresSince key w.log).length →
        other ∈ LoginKey.of user source → key = other → (failuresSince key log').length + 1 < 2 ^ 32 := by
      rintro log' other fewer member rfl
      exact Nat.lt_of_le_of_lt (Nat.succ_le_succ fewer) (few (by simpa [LoginCall.fails] using member))
    have dropped := tells.dropped now
    have fewer : (failuresSince key (.dropped (Watched.dropped opts w.limiter now) now :: w.log)).length ≤
        (failuresSince key w.log).length := failuresSince_le _ rfl
    have pair := dropped.bump named (keys (.pair (lower user) source) (by simp [LoginKey.of])) now
      (room fewer (by simp [LoginKey.of]))
    have source_ := pair.bump named (keys (.source source) (by simp [LoginKey.of])) now
      (by rintro rfl; exact room ((failuresSince_le _ rfl).trans fewer) (by simp [LoginKey.of]) rfl)
    exact source_.bump named (keys (.user (lower user)) (by simp [LoginKey.of])) now
      (by
        rintro rfl
        exact room (((failuresSince_le _ rfl).trans (failuresSince_le _ rfl)).trans fewer) (by simp [LoginKey.of]) rfl)

/-- A failure is counted once under each of its three keys. -/
theorem failuresSince_step (opts : LoginLimiterOptions) (w : Watched) (step : Int × LoginCall) (key : LoginKey) :
    (failuresSince key (w.step opts step).log).length ≤
      (failuresSince key w.log).length + if step.2.fails key then 1 else 0 := by
  obtain ⟨now,call⟩ := step
  cases call with
  | succeeded user source => exact failuresSince_le w.log rfl
  | failed user source =>
    have before : (failuresSince key (.dropped (Watched.dropped opts w.limiter now) now :: w.log)).length ≤
        (failuresSince key w.log).length := failuresSince_le w.log rfl
    simp only [Watched.step,failuresSince_failure,LoginCall.fails,LoginKey.of,List.contains_eq_mem,List.mem_cons,
      List.not_mem_nil,or_false,eq_comm (a := key),decide_eq_true_eq]
    cases key with
    | pair name address => by_cases same : LoginKey.pair (lower user) source = .pair name address <;> simp [same] <;> omega
    | source address => by_cases same : LoginKey.source source = .source address <;> simp [same] <;> omega
    | user name => by_cases same : LoginKey.user (lower user) = .user name <;> simp [same] <;> omega

def LoginLimiterOptions.Fits (opts : LoginLimiterOptions) : Prop :=
  -2 ^ 63 ≤ opts.baseDelay * 2 ^ 20 ∧ opts.baseDelay * 2 ^ 20 < 2 ^ 63

theorem delay_eq (fits : opts.Fits) (free failures : Nat) : LoginLimiter.delay opts free failures =
    min (opts.baseDelay * 2 ^ min (failures - free - 1) 20) opts.maxDelay := by
  obtain ⟨lowest,highest⟩ := fits
  have steps : min (failures - free - 1) 20 ≤ 20 := Nat.min_le_right ..
  unfold LoginLimiter.delay
  generalize min (failures - free - 1) 20 = k at steps
  have smaller : (2 : Int) ^ k ≤ 2 ^ 20 := pow_le_pow_right₀ (by norm_num) steps
  have positive : (0 : Int) < 2 ^ k := by positivity
  have bounds : -2 ^ 63 ≤ opts.baseDelay * 2 ^ k ∧ opts.baseDelay * 2 ^ k < 2 ^ 63 := by
    rcases le_total 0 opts.baseDelay with positive' | negative
    · constructor <;> nlinarith
    · constructor <;> nlinarith
  have exact_ : (opts.baseDelay * 2 ^ k).bmod (2 ^ 64) = opts.baseDelay * 2 ^ k := by
    apply Int.bmod_eq_of_le <;> omega
  rw [exact_]

theorem CountedAs.blocked (tells : CountedAs opts limiter log key) (fits : opts.Fits) {now : Int}
    (blocked : KeyBlocked opts key log now) : ∃ entry, limiter.find key.text = some entry ∧ now < entry.blockedUntil := by
  obtain ⟨last,latest,past,soon⟩ := blocked
  obtain ⟨earlier,failures⟩ := List.head?_eq_some_iff.mp latest
  rw [failures,List.length_cons] at past soon
  refine ⟨_,by rw [tells,failures,entryOf_cons],?_⟩
  rw [if_neg (by omega),delay_eq fits]
  exact soon

theorem CountedAs.blocked_iff (tells : CountedAs opts limiter log key) (fits : opts.Fits) {now : Int} (epoch : 0 ≤ now) :
    KeyBlocked opts key log now ↔ ∃ entry, limiter.find key.text = some entry ∧ now < entry.blockedUntil := by
  refine ⟨tells.blocked fits,?_⟩
  rintro ⟨entry,found,soon⟩
  rw [tells] at found
  cases failures : failuresSince key log with
  | nil =>
    rw [failures] at found
    contradiction
  | cons last earlier =>
    rw [failures,entryOf_cons] at found
    cases found
    dsimp only at soon
    split at soon
    · omega
    · rename_i past
      rw [delay_eq fits] at soon
      exact ⟨last,by rw [failures]; rfl,by rw [failures,List.length_cons]; omega,by rw [failures]; exact soon⟩

/-- Every drop in the history spared the keys that were blocked then. -/
def Spares (opts : LoginLimiterOptions) (log : List LoginMark) : Prop :=
  ∀ texts now older, .dropped texts now :: older <:+ log →
    ∀ key : LoginKey, key.Named → key.text ∈ texts → ¬ KeyBlocked opts key older now

theorem Spares.cons {mark : LoginMark} (spares : Spares opts log) (first : ∀ texts now, mark = .dropped texts now →
      ∀ key : LoginKey, key.Named → key.text ∈ texts → ¬ KeyBlocked opts key log now) : Spares opts (mark :: log) := by
  intro texts now older inside
  rcases List.suffix_cons_iff.mp inside with same | inside
  · cases same
    exact first texts now rfl
  · exact spares texts now older inside

theorem Spares.step {w : Watched} (spares : Spares opts w.log)
    (tells : ∀ key : LoginKey, key.Named → CountedAs opts w.limiter w.log key) (fits : opts.Fits)
    (step : Int × LoginCall) : Spares opts (w.step opts step).log := by
  obtain ⟨now,call⟩ := step
  cases call with
  | succeeded user source => exact spares.cons nofun
  | failed user source =>
    have failure : ∀ {key time texts now'}, LoginMark.failure key time ≠ .dropped texts now' := nofun
    refine (((spares.cons ?_).cons fun _ _ same => absurd same failure).cons fun _ _ same => absurd same failure).cons
      fun _ _ same => absurd same failure
    rintro _ _ ⟨rfl,rfl⟩ key named gone blocked
    obtain ⟨_,entry,found,idle⟩ := Watched.mem_dropped.mp gone
    obtain ⟨entry',found',soon⟩ := (tells key named).blocked fits blocked
    obtain rfl : entry = entry' := Option.some.inj (found.symm.trans found')
    simp only [LoginLimiter.isIdle,Bool.and_eq_true,decide_eq_true_eq] at idle
    omega

/-- Over a whole run the table tells the history. -/
theorem watch_recounts (fits : opts.Fits) (calls : List (Int × LoginCall)) (named : ∀ step ∈ calls, 58 ∉ step.2.userName)
    (few : ∀ key, calls.countP (·.2.fails key) < 2 ^ 32) :
    (∀ key : LoginKey, key.Named → CountedAs opts (Watched.watch opts calls).limiter (Watched.watch opts calls).log key) ∧
      Spares opts (Watched.watch opts calls).log ∧
      ∀ key, (failuresSince key (Watched.watch opts calls).log).length ≤ calls.countP (·.2.fails key) := by
  induction calls using List.reverseRecOn with
  | nil => exact ⟨fun _ _ => rfl,fun _ _ _ inside => absurd (List.eq_nil_of_suffix_nil inside) nofun,fun _ => le_rfl⟩
  | append_singleton calls last ih =>
    have counted : ∀ key, (calls ++ [last]).countP (·.2.fails key) =
        calls.countP (·.2.fails key) + if last.2.fails key then 1 else 0 := by
      intro key
      rw [List.countP_append,List.countP_singleton]
    obtain ⟨tells,spares,atMost⟩ := ih (fun step member => named step (List.mem_append_left _ member))
      fun key => by have := few key; rw [counted] at this; omega
    have plain := named last (List.mem_append_right _ (List.mem_singleton_self _))
    unfold Watched.watch at *
    rw [Runs.run_append,Runs.run_cons,Runs.run_nil]
    refine ⟨fun key named => (tells key named).step named plain fun fails => ?_,spares.step tells fits last,fun key => ?_⟩
    · have total := few key
      have before := atMost key
      rw [counted,if_pos fails] at total
      omega
    · have before := atMost key
      have grows := failuresSince_step opts (Runs.run (Watched.step opts) ⟨.empty,[]⟩ calls) last key
      rw [counted]
      omega

/-- The login is refused for now. -/
def Throttled (result : Result Unit) : Prop := ∃ detail, result = .error ⟨.throttled,detail⟩

theorem lt_foldl_blocked (limiter : LoginLimiter) (now start : Int) (texts : List Bytes) :
    now < texts.foldl (fun «until» key =>
        match limiter.find key with
        | some entry => max «until» entry.blockedUntil
        | none => «until») start ↔
      now < start ∨ ∃ text ∈ texts, ∃ entry, limiter.find text = some entry ∧ now < entry.blockedUntil := by
  induction texts generalizing start with
  | nil => simp
  | cons text texts ih =>
    rw [List.foldl_cons,ih]
    cases found : limiter.find text with
    | none => simp [found]
    | some entry => simp [found,or_assoc]

theorem check_throttled (limiter : LoginLimiter) (now : Int) (user source : Bytes) :
    Throttled (limiter.check now user source) ↔ now < 0 ∨
      ∃ key ∈ LoginKey.of user source, ∃ entry, limiter.find key.text = some entry ∧ now < entry.blockedUntil := by
  have keys : ∀ P : Bytes → Prop, (∃ text ∈ [pairKey user source,sourceKey source,userKey user], P text) ↔
      ∃ key ∈ LoginKey.of user source, P key.text := by
    intro P
    simp [LoginKey.of,LoginKey.text,pairKey,sourceKey,userKey]
  rw [← keys fun text => ∃ entry, limiter.find text = some entry ∧ now < entry.blockedUntil,← lt_foldl_blocked]
  unfold LoginLimiter.check
  dsimp only
  split
  · rename_i blocked
    exact iff_of_true ⟨_,rfl⟩ blocked
  · rename_i free
    refine iff_of_false ?_ free
    rintro ⟨_,bad⟩
    cases bad

end

/-- The limiter throttles exactly by the failures of the history from the epoch on, and whatever they are before it; idle keys
are forgotten, blocked ones are not, and no two users or addresses share a count. -/
theorem throttling_follows_history (opts : LoginLimiterOptions) (fits : opts.Fits) (calls : List (Int × LoginCall))
    (named : ∀ step ∈ calls, 58 ∉ step.2.userName) (few : ∀ key, calls.countP (·.2.fails key) < 2 ^ 32) :
    (∀ user source now, 58 ∉ user → 0 ≤ now →
      (Throttled ((Watched.watch opts calls).limiter.check now user source) ↔
        ∃ key ∈ LoginKey.of user source, KeyBlocked opts key (Watched.watch opts calls).log now)) ∧
    (∀ user source now, now < 0 → Throttled ((Watched.watch opts calls).limiter.check now user source)) ∧
    (∀ key : LoginKey, key.Named →
      ((Watched.watch opts calls).limiter.find key.text).map (fun entry => (entry.failures,entry.lastFailure)) =
        (failuresSince key (Watched.watch opts calls).log).head?.map
          fun last => ((failuresSince key (Watched.watch opts calls).log).length,last)) ∧
    Spares opts (Watched.watch opts calls).log ∧
    ∀ user source user' source', 58 ∉ user → 58 ∉ user' → pairKey user source = pairKey user' source' →
      lower user = lower user' ∧ source = source' := by
  obtain ⟨tells,spares,_⟩ := watch_recounts fits calls named few
  refine ⟨?_,fun user source now early => (check_throttled _ now user source).mpr (.inl early),?_,spares,?_⟩
  · intro user source now plain epoch
    rw [check_throttled,or_iff_right (Int.not_lt.mpr epoch)]
    apply exists_congr
    intro key
    apply and_congr_right
    intro member
    exact ((tells key (LoginKey.of_named plain source key member)).blocked_iff fits epoch).symm
  · intro key named
    rw [show _ = _ from tells key named]
    cases failuresSince key (Watched.watch opts calls).log <;> rfl
  · intro user source user' source' plain plain' same
    have first := LoginKey.of_named plain source (.pair (lower user) source) (by simp [LoginKey.of])
    have second := LoginKey.of_named plain' source' (.pair (lower user') source') (by simp [LoginKey.of])
    exact LoginKey.pair.inj ((LoginKey.text_inj first second).mp same)

namespace Sample

/-- Somebody guesses the password of alice, six times within a minute. -/
def guesses : List (Int × LoginCall) :=
  (List.range 6).map fun i => (1000 + 10 * i,.failed (ascii "Alice") (ascii "10.0.0.1"))

end Sample

theorem guessing_is_blocked :
    let w := Watched.watch {} Sample.guesses
    w.limiter.check 1079 (ascii "alice") (ascii "10.0.0.1") =
        .error ⟨.throttled,ascii "too many failed logins, retry in 1 s"⟩ ∧
      (∃ key ∈ LoginKey.of (ascii "alice") (ascii "10.0.0.1"), KeyBlocked {} key w.log 1079) ∧
      ¬ ∃ key ∈ LoginKey.of (ascii "alice") (ascii "10.0.0.1"), KeyBlocked {} key w.log 1080 := by
  intro w
  have soon : w.limiter.check 1079 (ascii "alice") (ascii "10.0.0.1") =
      .error ⟨.throttled,ascii "too many failed logins, retry in 1 s"⟩ := by decide +kernel
  have later : w.limiter.check 1080 (ascii "alice") (ascii "10.0.0.1") = .ok () := by decide +kernel
  have plain : 58 ∉ ascii "alice" := by decide +kernel
  obtain ⟨exactly,_⟩ := throttling_follows_history {} (by unfold LoginLimiterOptions.Fits; decide) Sample.guesses
    (by decide +kernel) fun key => Nat.lt_of_le_of_lt List.countP_le_length (by decide +kernel)
  refine ⟨soon,(exactly _ _ 1079 plain (by decide)).mp ⟨_,soon⟩,fun blocked => ?_⟩
  obtain ⟨_,refused⟩ := (exactly _ _ 1080 plain (by decide)).mpr blocked
  rw [later] at refused
  contradiction

/-- Before the epoch every login is refused, with nothing in the history. -/
theorem throttled_before_epoch :
    Throttled ((Watched.watch {} []).limiter.check (-1) (ascii "alice") (ascii "10.0.0.1")) ∧
      ∀ key, ¬ KeyBlocked {} key (Watched.watch {} []).log (-1) := by
  refine ⟨⟨_,rfl⟩,?_⟩
  rintro key ⟨last,latest,_⟩
  contradiction

end Confide
