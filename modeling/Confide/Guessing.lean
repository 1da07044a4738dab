import Confide.Vouching

/-! How fast passwords can be guessed. Logins that are under way side by side have all passed the limiter before the first of
them is counted, so the server's threads add to what the limiter lets through, and nothing else does. -/
namespace Confide

open Bytes Resumption

variable {cfg : AuthSettings} {workers : Nat} {key : LoginKey}

namespace FrontEntry

/-- A login that counts against the key has failed. -/
def fails (key : LoginKey) (entry : FrontEntry) : Bool :=
  match entry.event with
  | ⟨.failed user source,_⟩ => (LoginKey.of user source).contains key
  | _ => false

def passes (key : LoginKey) (entry : FrontEntry) : Bool :=
  match entry.event with
  | ⟨.check user source,.ok _⟩ => (LoginKey.of user source).contains key
  | _ => false

/-- Somebody has logged in, and the failures of the key are forgotten. -/
def clears (key : LoginKey) (entry : FrontEntry) : Bool :=
  match entry.event with
  | ⟨.succeeded user source,_⟩ => (LoginMark.succeeded user source).clears key
  | _ => false

end FrontEntry

variable {entry : FrontEntry}

section Owing

abbrev FrontThread := Thread Front FrontRequest (List (Event Front)) FrontReply

/-- The limiter has let the login pass, and it is not known yet whether it fails. -/
def owes (key : LoginKey) (t : FrontThread) : Bool :=
  match t.upcoming with
  | some (.failed user source) => (LoginKey.of user source).contains key
  | some (.verify _ _) => match t.memo with
    | ⟨.check user source,_⟩ :: _ => (LoginKey.of user source).contains key
    | _ => false
  | _ => false

def FrontDesk.owing (key : LoginKey) (desk : FrontDesk) : Nat := desk.threads.countP (owes key)

variable {t : FrontThread}

theorem owes_cases (due : ∀ c, t.upcoming = some c → Due cfg c t.memo) (owing : owes key t = true) :
    ∃ user source before, key ∈ LoginKey.of user source ∧ (t.memo = ⟨.check user source,.ok ()⟩ :: before ∨
      ∃ password e, t.memo = ⟨.verify user password,.error e⟩ :: ⟨.check user source,.ok ()⟩ :: before) := by
  unfold owes at owing
  cases upcoming : t.upcoming with
  | none => simp [upcoming] at owing
  | some c =>
    have due := due c upcoming
    rw [upcoming] at owing
    cases c with
    | failed user source =>
      obtain ⟨_,password,e,before,seen⟩ := due
      exact ⟨user,source,before,by simpa using owing,.inr ⟨password,e,seen⟩⟩
    | verify user password =>
      obtain ⟨source,before,seen⟩ := due
      rw [seen] at owing
      exact ⟨user,source,before,by simpa using owing,.inl seen⟩
    | _ => simp at owing

/-- A login that fails was under way, and one that is under way was let pass. -/
theorem owes_step {c : FrontCall} {next : c.Reply → Prog Front FrontReply} {reply : c.Reply} (time : Int)
    (text : t.rest = .call c next)
    (due : ∀ c', Thread.upcoming (⟨t.context,⟨c,reply⟩ :: t.memo,next reply⟩ : FrontThread) = some c' →
      Due cfg c' (⟨c,reply⟩ :: t.memo)) :
    (FrontEntry.fails key ⟨time,⟨c,reply⟩⟩).toNat + (owes key ⟨t.context,⟨c,reply⟩ :: t.memo,next reply⟩).toNat ≤
      (FrontEntry.passes key ⟨time,⟨c,reply⟩⟩).toNat + (owes key t).toNat := by
  have upcoming : t.upcoming = some c := by rw [Thread.upcoming,text]
  cases owing : owes key ⟨t.context,⟨c,reply⟩ :: t.memo,next reply⟩ with
  | false =>
    cases failing : FrontEntry.fails key ⟨time,⟨c,reply⟩⟩ with
    | false => simp
    | true =>
      have owed : owes key t = true := by
        cases c with
        | failed user source => simpa [owes,upcoming,FrontEntry.fails] using failing
        | _ => simp [FrontEntry.fails] at failing
      simp [owed]
  | true =>
    obtain ⟨user,source,before,counted,seen | ⟨password,e,seen⟩⟩ := owes_cases due owing
    · cases seen
      simp [FrontEntry.fails,FrontEntry.passes,counted]
    · cases c with
      | verify user' password' =>
        obtain ⟨_,memo⟩ := List.cons.inj seen
        simp [FrontEntry.fails,owes,upcoming,memo,counted]
      | _ => cases (List.cons.inj seen).1

theorem countP_set_toNat {β : Type} (p : β → Bool) {l : List β} {i : Nat} {old : β} (here : l[i]? = some old) (new : β) :
    (l.set i new).countP p + (p old).toNat = l.countP p + (p new).toNat := by
  induction l generalizing i with
  | nil => simp at here
  | cons first rest ih =>
    cases i with
    | zero =>
      obtain rfl : first = old := by simpa using here
      cases h : p first <;> cases h' : p new <;> simp [h,h']
    | succ i =>
      have rest := ih (i := i) (by simpa using here)
      simp only [List.set_cons_succ,List.countP_cons]
      omega

variable {desk : FrontDesk}

theorem FrontDesk.step_cases [BoostJson] (cfg : AuthSettings) (workers : Nat) (desk : FrontDesk) (taken : FrontStep) :
    desk.step cfg workers taken = desk ∨
    (∃ now directory random order, taken = .pass now directory random order ∧ desk.step cfg workers taken =
      ⟨{ desk.shared with now := now, directory := directory, random := random, order := order },desk.threads⟩) ∨
    (∃ req, desk.live < workers ∧ desk.step cfg workers taken = desk.start ⟨req,[],req.program cfg⟩) ∨
    ∃ i t c next reply shared, Pool.Makes (FrontState.arbiter cfg) desk i t c next reply shared ∧
      desk.step cfg workers taken = ⟨shared,desk.threads.set i ⟨t.context,⟨c,reply⟩ :: t.memo,next reply⟩⟩ := by
  cases taken with
  | pass now directory random order => exact .inr (.inl ⟨now,directory,random,order,rfl,rfl⟩)
  | arrive req =>
    simp only [FrontDesk.step]
    split
    · rename_i free
      exact .inr (.inr (.inl ⟨req,free,rfl⟩))
    · exact .inl rfl
  | advance i =>
    simp only [FrontDesk.step]
    rcases @Pool.advance_cases _ _ _ _ _ (FrontState.arbiter cfg) (fun c reply seen => ⟨c,reply⟩ :: seen) desk i with
      same | ⟨t,c,next,reply,shared,makes,taken⟩
    · exact .inl same
    · exact .inr (.inr (.inr ⟨i,t,c,next,reply,shared,makes,taken⟩))

theorem live_start [BoostJson] (req : FrontRequest) : FrontDesk.live (desk.start ⟨req,[],req.program cfg⟩) ≤ desk.live + 1 := by
  simp only [FrontDesk.live,Pool.start,List.countP_append,List.countP_singleton]
  split <;> omega

theorem live_set {i : Nat} (here : desk.threads[i]? = some t) (busy : t.upcoming.isSome = true)
    (t' : FrontThread) (shared : FrontState) : FrontDesk.live ⟨shared,desk.threads.set i t'⟩ ≤ desk.live := by
  have counted := countP_set_toNat (fun t : Thread Front FrontRequest (List (Event Front)) FrontReply =>
    t.upcoming.isSome) here t'
  have most : (t'.upcoming.isSome).toNat ≤ 1 := Bool.toNat_le _
  simp only [busy,Bool.toNat_true] at counted
  simp only [FrontDesk.live]
  omega

theorem owing_le_live (key : LoginKey) (desk : FrontDesk) : desk.owing key ≤ desk.live := by
  apply List.countP_mono_left
  intro t _ owing
  unfold owes at owing
  cases upcoming : t.upcoming with
  | none => simp [upcoming] at owing
  | some c => rfl

/-- At any time as many logins are under way as there are threads, so failures run ahead of what is let pass by no more. -/
structure Metered (workers : Nat) (desk : FrontDesk) : Prop where
  live : desk.live ≤ workers
  since : ∀ key later earlier, desk.shared.log = later ++ earlier →
    later.countP (FrontEntry.fails key) + desk.owing key ≤ later.countP (FrontEntry.passes key) + workers
  stretches : ∀ key later stretch earlier, desk.shared.log = later ++ stretch ++ earlier →
    stretch.countP (FrontEntry.fails key) ≤ stretch.countP (FrontEntry.passes key) + workers

theorem Metered.log {desk' : FrontDesk} (metered : Metered workers desk)
    (logged : desk'.shared.log = entry :: desk.shared.log) (live : desk'.live ≤ workers)
    (owed : ∀ key, (entry.fails key).toNat + desk'.owing key ≤ (entry.passes key).toNat + desk.owing key) :
    Metered workers desk' := by
  have since : ∀ key later earlier, desk'.shared.log = later ++ earlier →
      later.countP (FrontEntry.fails key) + desk'.owing key ≤ later.countP (FrontEntry.passes key) + workers := by
    intro key later earlier split
    cases later with
    | nil =>
      have few := owing_le_live key desk'
      simpa using few.trans live
    | cons first later =>
      rw [logged,List.cons_append] at split
      obtain ⟨rfl,rest⟩ := List.cons.inj split
      have before := metered.since key later earlier rest
      have now := owed key
      simp only [List.countP_cons]
      cases h : entry.fails key <;> cases h' : entry.passes key <;> simp [h,h'] at now ⊢ <;> omega
  refine ⟨live,since,fun key later stretch earlier split => ?_⟩
  cases later with
  | nil => exact (Nat.le_add_right ..).trans (since key stretch earlier split)
  | cons first later =>
    rw [logged,List.cons_append,List.cons_append] at split
    exact metered.stretches key later stretch earlier (List.cons.inj split).2

theorem Metered.step [BoostJson] (metered : Metered workers desk) (sound : FrontSound cfg desk) (taken : FrontStep) :
    Metered workers (desk.step cfg workers taken) := by
  have sound' : FrontSound cfg (desk.step cfg workers taken) := sound.step taken
  rcases desk.step_cases cfg workers taken with same | ⟨now,directory,random,order,_,same⟩ | ⟨req,free,same⟩ |
    ⟨i,t,c,next,reply,shared,makes,same⟩
  · rwa [same]
  · rw [same]
    exact ⟨metered.live,metered.since,metered.stretches⟩
  · rw [same] at sound' ⊢
    have idle : ∀ key, owes key ⟨req,[],req.program cfg⟩ = false := by
      intro key
      cases owing : owes key ⟨req,[],req.program cfg⟩ with
      | false => rfl
      | true =>
        obtain ⟨_,_,_,_,seen | ⟨_,_,seen⟩⟩ := owes_cases
          (fun c upcoming => sound'.allows (List.mem_append_right _ (List.mem_singleton_self _)) upcoming) owing
        · cases seen
        · cases seen
    have same_owing : ∀ key, FrontDesk.owing key (desk.start ⟨req,[],req.program cfg⟩) = desk.owing key := by
      intro key
      simp [FrontDesk.owing,Pool.start,idle]
    refine ⟨(live_start req).trans free,fun key later earlier split => ?_,metered.stretches⟩
    rw [same_owing]
    exact metered.since key later earlier split
  · rw [same] at sound' ⊢
    obtain ⟨_,_,logged⟩ := arbiter_cases makes
    refine metered.log logged ((live_set makes.here (by rw [makes.upcoming]; rfl) _ _).trans metered.live) fun key => ?_
    have counted := countP_set_toNat (owes key) makes.here ⟨t.context,⟨c,reply⟩ :: t.memo,next reply⟩
    have inside : (⟨t.context,⟨c,reply⟩ :: t.memo,next reply⟩ : FrontThread) ∈
        desk.threads.set i ⟨t.context,⟨c,reply⟩ :: t.memo,next reply⟩ :=
      List.mem_set (List.getElem?_eq_some_iff.mp makes.here).1 _
    have owed := @owes_step cfg key t c next reply desk.shared.now makes.text fun c' upcoming => sound'.allows inside upcoming
    simp only [FrontDesk.owing]
    omega

end Owing

/-! The failures of a key, as the log has them and as the limiter counts them. -/

section Tallies

/-- The times of the key's failures, latest first. -/
def failedAt (key : LoginKey) (log : List FrontEntry) : List Int := (log.filter (FrontEntry.fails key)).map (·.time)

theorem length_failedAt (key : LoginKey) (log : List FrontEntry) :
    (failedAt key log).length = log.countP (FrontEntry.fails key) := by
  rw [failedAt,List.length_map,List.countP_eq_length_filter]

theorem failedAt_failed (key : LoginKey) (time : Int) (user source : Bytes) (log : List FrontEntry) :
    failedAt key (⟨time,⟨.failed user source,()⟩⟩ :: log) =
      if key ∈ LoginKey.of user source then time :: failedAt key log else failedAt key log := by
  simp only [failedAt,List.filter_cons,FrontEntry.fails,List.contains_iff_mem]
  split <;> rfl

/-- A stretch of the log that begins no earlier than this and lasts for no longer, in which nobody logs in who clears the
count. -/
structure Stretch (key : LoginKey) (start length : Int) (entries : List FrontEntry) : Prop where
  lasts : ∀ entry ∈ entries, entry.clears key = false
  within : ∀ entry ∈ entries, start ≤ entry.time ∧ entry.time ≤ start + length

variable {opts : LoginLimiterOptions}

variable {start length : Int}

theorem Stretch.sublist {entries fewer : List FrontEntry} (stretch : Stretch key start length entries)
    (inside : ∀ entry ∈ fewer, entry ∈ entries) : Stretch key start length fewer :=
  ⟨fun entry member => stretch.lasts entry (inside entry member),fun entry member => stretch.within entry (inside entry member)⟩

theorem failuresSince_dropped (key : LoginKey) (texts : List Bytes) (now : Int) (marks : List LoginMark) :
    failuresSince key (.dropped texts now :: marks) = if key.text ∈ texts then [] else failuresSince key marks := by
  split
  · rename_i gone
    exact failuresSince_clearing marks (by simpa [LoginMark.clears] using gone)
  · rename_i stays
    exact failuresSince_other marks (by simpa [LoginMark.clears] using stays) rfl

theorem failuresSince_failed (key : LoginKey) (w : Watched) (now : Int) (user source : Bytes) :
    failuresSince key (w.step opts (now,.failed user source)).log =
      if key ∈ LoginKey.of user source
      then now :: failuresSince key (.dropped (Watched.dropped opts w.limiter now) now :: w.log)
      else failuresSince key (.dropped (Watched.dropped opts w.limiter now) now :: w.log) := by
  simp only [Watched.step,failuresSince_failure,LoginKey.of,List.mem_cons,List.not_mem_nil,or_false]
  cases key with
  | pair name address => simp [eq_comm]
  | source address => simp [eq_comm]
  | user name => simp [eq_comm]

/-- What the limiter counts for the key is in the log, and it counts all the failures of any stretch up to now that is shorter
than the longest delay. -/
structure Tallies (cfg : AuthSettings) (key : LoginKey) (s : FrontState) : Prop where
  counted : CountedAs cfg.limits s.watched.limiter s.watched.log key
  few : (failuresSince key s.watched.log).length ≤ s.log.countP (FrontEntry.fails key)
  recalls : ∀ recent earlier start length, s.log = recent ++ earlier → length < cfg.limits.maxDelay →
    Stretch key start length recent → failedAt key recent <+: failuresSince key s.watched.log

variable {s : FrontState}

variable {recent earlier : List FrontEntry}

/-- The latest failure that is counted is the latest of the stretch. -/
theorem Tallies.latest (counts : Tallies cfg key s)
    (split : s.log = recent ++ earlier) (short : length < cfg.limits.maxDelay) (stretch : Stretch key start length recent)
    (some_ : failedAt key recent ≠ []) :
    ∃ last before, failuresSince key s.watched.log = last :: before ∧ start ≤ last ∧ last ≤ start + length := by
  obtain ⟨rest,told⟩ := counts.recalls recent earlier start length split short stretch
  cases failures : failedAt key recent with
  | nil => exact absurd failures some_
  | cons last before =>
    rw [failures] at told
    refine ⟨last,before ++ rest,told.symm,?_⟩
    have member : last ∈ failedAt key recent := by
      rw [failures]
      exact List.mem_cons_self ..
    obtain ⟨entry,inside,rfl⟩ := List.mem_map.mp member
    exact stretch.within entry (List.mem_filter.mp inside).1

/-- What is dropped has been idle for the longest delay, so that it has no failures in a shorter stretch. -/
theorem Tallies.dropped (counts : Tallies cfg key s)
    (split : s.log = recent ++ earlier) (short : length < cfg.limits.maxDelay) (stretch : Stretch key start length recent)
    (now : s.now ≤ start + length) (gone : key.text ∈ Watched.dropped cfg.limits s.watched.limiter s.now) :
    failedAt key recent = [] := by
  by_contra some_
  obtain ⟨last,before,told,late,_⟩ := counts.latest split short stretch some_
  obtain ⟨_,entry,found,idle⟩ := Watched.mem_dropped.mp gone
  rw [counts.counted,told,entryOf_cons,Option.some.injEq] at found
  subst found
  simp only [LoginLimiter.isIdle,Bool.and_eq_true,decide_eq_true_eq] at idle
  omega

/-- With one more entry the stretch up to now begins with it, or is empty. -/
theorem recalls_cons {log : List FrontEntry} {counted : List Int}
    (longer : ∀ recent earlier start length, log = recent ++ earlier → length < cfg.limits.maxDelay →
      Stretch key start length (entry :: recent) → failedAt key (entry :: recent) <+: counted)
    (recent earlier : List FrontEntry) (start length : Int) (split : entry :: log = recent ++ earlier)
    (short : length < cfg.limits.maxDelay) (stretch : Stretch key start length recent) : failedAt key recent <+: counted := by
  cases recent with
  | nil => exact List.nil_prefix
  | cons first recent =>
    obtain ⟨rfl,rest⟩ := List.cons.inj split
    exact longer recent earlier start length rest short stretch

theorem Stretch.tail (stretch : Stretch key start length (entry :: recent)) : Stretch key start length recent :=
  stretch.sublist fun _ member => List.mem_cons_of_mem _ member

variable {user : Bytes}

theorem Tallies.failed (counts : Tallies cfg key s) (named : key.Named) (plain : 58 ∉ user) (source : Bytes)
    (room : List.countP (FrontEntry.fails key) (⟨s.now,⟨.failed user source,()⟩⟩ :: s.log) < 2 ^ 32) :
    Tallies cfg key { s with
      watched := s.watched.step cfg.limits (s.now,.failed user source)
      log := ⟨s.now,⟨.failed user source,()⟩⟩ :: s.log } := by
  refine ⟨?_,?_,recalls_cons fun recent earlier start length split short stretch => ?_⟩
  · refine counts.counted.step named plain fun fails => Nat.lt_of_le_of_lt (Nat.succ_le_succ counts.few) ?_
    rwa [List.countP_cons_of_pos (by exact fails)] at room
  · refine (failuresSince_step cfg.limits s.watched _ key).trans ?_
    rw [List.countP_cons]
    exact Nat.add_le_add_right counts.few _
  · have now := (stretch.within _ (List.mem_cons_self ..)).2
    rw [failedAt_failed,failuresSince_failed,failuresSince_dropped]
    by_cases gone : key.text ∈ Watched.dropped cfg.limits s.watched.limiter s.now
    · rw [counts.dropped split short stretch.tail now gone,if_pos gone]
    · have before := counts.recalls recent earlier start length split short stretch.tail
      rw [if_neg gone]
      split
      · exact (List.prefix_cons_inj _).mpr before
      · exact before

theorem Tallies.succeeded (counts : Tallies cfg key s) (named : key.Named) (plain : 58 ∉ user) (source : Bytes) :
    Tallies cfg key { s with
      watched := s.watched.step cfg.limits (s.now,.succeeded user source)
      log := ⟨s.now,⟨.succeeded user source,()⟩⟩ :: s.log } := by
  refine ⟨?_,?_,recalls_cons fun recent earlier start length split short stretch => ?_⟩
  · exact counts.counted.step named plain fun fails => by cases fails
  · refine (failuresSince_step cfg.limits s.watched _ key).trans ?_
    rw [List.countP_cons]
    exact Nat.add_le_add_right counts.few _
  · have stays : (LoginMark.succeeded user source).clears key = false := stretch.lasts _ (List.mem_cons_self ..)
    have told : failuresSince key (s.watched.step cfg.limits (s.now,.succeeded user source)).log =
        failuresSince key s.watched.log := failuresSince_other s.watched.log stays rfl
    have same : failedAt key (⟨s.now,⟨.succeeded user source,()⟩⟩ :: recent) = failedAt key recent := by
      simp [failedAt,FrontEntry.fails]
    rw [told,same]
    exact counts.recalls recent earlier start length split short stretch.tail

theorem Tallies.other (counts : Tallies cfg key s) {s' : FrontState} {c : FrontCall} {reply : c.Reply}
    (watched : s'.watched = s.watched) (logged : s'.log = ⟨s.now,⟨c,reply⟩⟩ :: s.log)
    (stays : FrontEntry.fails key ⟨s.now,⟨c,reply⟩⟩ = false) : Tallies cfg key s' := by
  refine ⟨watched ▸ counts.counted,?_,?_⟩
  · rw [watched,logged,List.countP_cons_of_neg (by simp [stays])]
    exact counts.few
  · rw [watched,logged]
    refine recalls_cons fun recent earlier start length split short stretch => ?_
    have same : failedAt key (⟨s.now,⟨c,reply⟩⟩ :: recent) = failedAt key recent := by simp [failedAt,stays]
    rw [same]
    exact counts.recalls recent earlier start length split short stretch.tail

theorem Tallies.perform (counts : Tallies cfg key s) (named : key.Named) {c : FrontCall} {seen : List (Event Front)}
    (due : Due cfg c seen)
    (room : List.countP (FrontEntry.fails key) (⟨s.now,⟨c,(s.perform cfg c).1⟩⟩ :: s.log) < 2 ^ 32) :
    Tallies cfg key { (s.perform cfg c).2 with log := ⟨s.now,⟨c,(s.perform cfg c).1⟩⟩ :: (s.perform cfg c).2.log } := by
  cases c with
  | failed user source => exact counts.failed named due.1 source room
  | succeeded user source => exact counts.succeeded named due source
  | check | verify | isMember | verifyToken | issue | revoke | revokeUser | sessions => exact counts.other rfl rfl rfl

def Spaced (opts : LoginLimiterOptions) (key : LoginKey) (length : Int) (failures : Nat) : Prop :=
  failures ≤ key.free opts ∨ opts.baseDelay * 2 ^ min (failures - key.free opts - 1) 20 ≤ length

theorem Spaced.mono (nonneg : 0 ≤ length) {fewer more : Nat} (le : fewer ≤ more)
    (spaced : Spaced opts key length more) : Spaced opts key length fewer := by
  rcases spaced with free | delayed
  · exact .inl (le.trans free)
  · right
    rcases le_total 0 opts.baseDelay with positive | negative
    · refine le_trans ?_ delayed
      gcongr
      · norm_num
    · exact le_trans (mul_nonpos_of_nonpos_of_nonneg negative (by positivity)) nonneg

/-- The limiter lets nobody pass who has failed too often too recently. -/
theorem Tallies.spaced (counts : Tallies cfg key s) (fits : cfg.limits.Fits) {source : Bytes}
    (passed : s.watched.limiter.check s.now user source = .ok ()) (member : key ∈ LoginKey.of user source)
    (split : s.log = recent ++ earlier)
    (short : length < cfg.limits.maxDelay) (stretch : Stretch key start length recent) (begun : start ≤ s.now)
    (now : s.now ≤ start + length) : Spaced cfg.limits key length (recent.countP (FrontEntry.fails key)) := by
  rw [← length_failedAt]
  by_cases none : failedAt key recent = []
  · rw [none]
    exact .inl (Nat.zero_le _)
  · obtain ⟨last,before,told,late,_⟩ := counts.latest split short stretch none
    have fewer := (counts.recalls recent earlier start length split short stretch).length_le
    apply Spaced.mono (by omega) fewer
    by_cases many : key.free cfg.limits < (failuresSince key s.watched.log).length
    · have free : ¬ KeyBlocked cfg.limits key s.watched.log s.now := by
        intro blocked
        have throttled := (check_throttled s.watched.limiter s.now user source).mpr
          (.inr ⟨key,member,counts.counted.blocked fits blocked⟩)
        rw [passed] at throttled
        obtain ⟨_,bad⟩ := throttled
        cases bad
      have delay := not_lt.mp fun early => free ⟨last,by simp [told],many,early⟩
      rw [← le_sub_iff_add_le',min_le_iff] at delay
      exact .inr (by omega)
    · exact .inl (not_lt.mp many)

/-- Whenever a login was let pass, the failures of a stretch up to it had been spaced. -/
def Paced (cfg : AuthSettings) (key : LoginKey) (log : List FrontEntry) : Prop :=
  ∀ later entry recent earlier start length, log = later ++ entry :: (recent ++ earlier) → entry.passes key = true →
    length < cfg.limits.maxDelay → Stretch key start length recent → start ≤ entry.time → entry.time ≤ start + length →
    Spaced cfg.limits key length (recent.countP (FrontEntry.fails key))

theorem Tallies.paced (counts : Tallies cfg key s) (fits : cfg.limits.Fits) (paced : Paced cfg key s.log) (c : FrontCall) :
    Paced cfg key (⟨s.now,⟨c,(s.perform cfg c).1⟩⟩ :: s.log) := by
  intro later entry recent earlier start length split passes short stretch begun now
  cases later with
  | cons first later =>
    exact paced later entry recent earlier start length (List.cons.inj split).2 passes short stretch begun now
  | nil =>
    obtain ⟨rfl,rest⟩ := List.cons.inj split
    cases c with
    | check user source =>
      simp only [FrontEntry.passes,FrontState.perform] at passes
      cases passed : s.watched.limiter.check s.now user source with
      | error e => simp [passed] at passes
      | ok _ => exact counts.spaced fits passed (by simpa [passed] using passes) rest short stretch begun now
    | _ => cases passes

end Tallies

section Runs

variable {desk : FrontDesk}

structure Barred (cfg : AuthSettings) (workers : Nat) (key : LoginKey) (desk : FrontDesk) : Prop where
  sound : FrontSound cfg desk
  metered : Metered workers desk
  counts : Tallies cfg key desk.shared
  paced : Paced cfg key desk.shared.log

theorem fresh_barred (cfg : AuthSettings) (workers : Nat) (key : LoginKey) (directory : DirectoryNow) (now : Int) :
    Barred cfg workers key (.fresh directory now) where
  sound := fresh_sound directory now
  metered := by
    refine ⟨Nat.zero_le _,fun key later earlier split => ?_,fun key later stretch earlier split => ?_⟩
    · obtain ⟨rfl,_⟩ := List.append_eq_nil_iff.mp split.symm
      exact Nat.zero_le _
    · obtain ⟨nil,_⟩ := List.append_eq_nil_iff.mp split.symm
      obtain ⟨_,rfl⟩ := List.append_eq_nil_iff.mp nil
      exact Nat.zero_le _
  counts := by
    refine ⟨rfl,le_rfl,fun recent earlier _ _ split _ _ => ?_⟩
    obtain ⟨rfl,_⟩ := List.append_eq_nil_iff.mp split.symm
    exact List.nil_prefix
  paced := fun later _ _ _ _ _ split => by cases later <;> cases split

variable [BoostJson]

theorem step_log (cfg : AuthSettings) (workers : Nat) (desk : FrontDesk) (taken : FrontStep) :
    desk.shared.log <:+ (desk.step cfg workers taken).shared.log := by
  rcases desk.step_cases cfg workers taken with same | ⟨_,_,_,_,_,same⟩ | ⟨_,_,same⟩ | ⟨_,_,_,_,_,_,makes,same⟩
  · rw [same]
  · rw [same]
  · rw [same]
    exact List.suffix_refl _
  · rw [same]
    obtain ⟨_,_,logged⟩ := arbiter_cases makes
    rw [logged]
    exact List.suffix_cons _ _

theorem run_log (cfg : AuthSettings) (workers : Nat) (desk : FrontDesk) (steps : List FrontStep) :
    desk.shared.log <:+ (desk.run cfg workers steps).shared.log := by
  induction steps generalizing desk with
  | nil => exact List.suffix_refl _
  | cons taken steps ih => exact (step_log cfg workers desk taken).trans (ih _)

theorem Barred.step (barred : Barred cfg workers key desk) (fits : cfg.limits.Fits) (named : key.Named) (taken : FrontStep)
    (room : (desk.step cfg workers taken).shared.log.countP (FrontEntry.fails key) < 2 ^ 32) :
    Barred cfg workers key (desk.step cfg workers taken) := by
  obtain ⟨sound,metered,counts,paced⟩ := barred
  suffices held : Tallies cfg key (desk.step cfg workers taken).shared ∧
      Paced cfg key (desk.step cfg workers taken).shared.log from
    ⟨sound.step taken,metered.step sound taken,held.1,held.2⟩
  rcases desk.step_cases cfg workers taken with same | ⟨now,directory,random,order,rfl,same⟩ | ⟨req,free,same⟩ |
    ⟨i,t,c,next,reply,shared,makes,same⟩
  · rw [same]
    exact ⟨counts,paced⟩
  · rw [same]
    exact ⟨⟨counts.counted,counts.few,counts.recalls⟩,paced⟩
  · rw [same]
    exact ⟨counts,paced⟩
  · rw [same] at room ⊢
    obtain ⟨replied,_,logged⟩ := arbiter_cases makes
    have answers := makes.answers
    simp only [FrontState.arbiter,Option.some.injEq,Prod.mk.injEq] at answers
    have due := sound.allows (List.mem_of_getElem? makes.here) makes.upcoming
    rw [logged,replied] at room
    constructor
    · rw [← answers.2]
      exact counts.perform named due room
    · rw [logged,replied]
      exact counts.paced fits paced c

theorem run_barred (fits : cfg.limits.Fits) (named : key.Named) (steps : List FrontStep) (barred : Barred cfg workers key desk)
    (room : (desk.run cfg workers steps).shared.log.countP (FrontEntry.fails key) < 2 ^ 32) :
    Barred cfg workers key (desk.run cfg workers steps) := by
  induction steps generalizing desk with
  | nil => exact barred
  | cons taken steps ih =>
    have fewer := (run_log cfg workers (desk.step cfg workers taken) steps).sublist.countP_le (p := FrontEntry.fails key)
    exact ih (barred.step fits named taken (Nat.lt_of_le_of_lt fewer room)) room

end Runs

section Stretches

theorem split_at_count {β : Type} {p : β → Bool} {l : List β} {n : Nat} (more : n < l.countP p) :
    ∃ first x last, l = first ++ x :: last ∧ p x = true ∧ last.countP p = n := by
  induction l with
  | nil => simp at more
  | cons x l ih =>
    by_cases later : n < l.countP p
    · obtain ⟨first,y,last,rfl,holds,count⟩ := ih later
      exact ⟨x :: first,y,last,rfl,holds,count⟩
    · cases holds : p x with
      | false => simp [holds,later] at more
      | true =>
        rw [List.countP_cons_of_pos holds] at more
        exact ⟨[],x,l,rfl,holds,by omega⟩

theorem fails_not_passes (fails : entry.fails key = true) : entry.passes key = false := by
  obtain ⟨time,c,reply⟩ := entry
  cases c with
  | failed user source => rfl
  | _ => cases fails

end Stretches

/-- However requests interleave and whatever the clock does, in less than the longest delay nobody can fail more often than the
limiter's count allows, and the logins that were under way. This is so for an address, for a user, and for the two together,
as long as nobody logs in who clears the count. -/
theorem guesses_are_bounded [BoostJson] (fits : cfg.limits.Fits) (directory : DirectoryNow) (now : Int) (steps : List FrontStep)
    (named : key.Named)
    (few : (FrontDesk.run cfg workers (.fresh directory now) steps).shared.log.countP (FrontEntry.fails key) < 2 ^ 32)
    {later stretch earlier : List FrontEntry}
    (split : (FrontDesk.run cfg workers (.fresh directory now) steps).shared.log = later ++ stretch ++ earlier)
    {start length : Int} (short : length < cfg.limits.maxDelay) (brief : Stretch key start length stretch) :
    Spaced cfg.limits key length (stretch.countP (FrontEntry.fails key) - workers) := by
  obtain ⟨_,metered,_,paced⟩ := run_barred fits named steps (fresh_barred cfg workers key directory now) few
  by_cases all : stretch.countP (FrontEntry.fails key) ≤ workers
  · rw [Nat.sub_eq_zero_of_le all]
    exact .inl (Nat.zero_le _)
  · obtain ⟨upper,failure,lower,rfl,fails,count⟩ :=
      @split_at_count _ (FrontEntry.fails key) stretch (stretch.countP (FrontEntry.fails key) - workers - 1) (by omega)
    simp only [List.countP_append,List.countP_cons_of_pos fails] at all count ⊢
    have metered := metered.stretches key later (upper ++ [failure]) (lower ++ earlier) (by simpa using split)
    simp only [List.countP_append,List.countP_singleton,fails,fails_not_passes fails,if_true,Bool.false_eq_true,
      if_false] at metered
    obtain ⟨pass,member,passes⟩ := List.countP_pos_iff.mp (show 0 < upper.countP (FrontEntry.passes key) by omega)
    obtain ⟨upper,middle,rfl⟩ := List.append_of_mem member
    obtain ⟨begun,ended⟩ := brief.within pass (by simp)
    have spaced := paced (later ++ upper) pass (middle ++ failure :: lower) earlier start length (by simpa using split) passes
      short (brief.sublist fun entry member => by simp only [List.mem_append,List.mem_cons] at member ⊢; tauto) begun ended
    refine spaced.mono (by omega) ?_
    rw [@List.countP_append _ _ middle,List.countP_cons_of_pos fails]
    omega

namespace Sample

def strictSettings : AuthSettings := ⟨tokenSha256,ascii "admins",[],sessionOptions,{ freePerPair := 0 }⟩

def closedDirectory : DirectoryNow := ⟨fun _ _ => denied (ascii "wrong password"),fun _ _ => false⟩

def guessSteps : List FrontStep :=
  [.arrive adminLogin,.advance 0,.advance 0,.advance 0,.pass 1010 closedDirectory none [],
    .arrive adminLogin,.advance 1,.pass 1031 closedDirectory none [],
    .arrive adminLogin,.advance 2,.advance 2,.advance 2]

end Sample

theorem three_guesses_are_bounded :
    let log := (FrontDesk.run Sample.strictSettings 1 (.fresh Sample.closedDirectory 1000) Sample.guessSteps).shared.log
    log.countP (FrontEntry.fails (.pair (ascii "root") (ascii "::1"))) = 2 ∧
      Spaced Sample.strictSettings.limits (.pair (ascii "root") (ascii "::1")) 31 1 := by
  have counted : (FrontDesk.run Sample.strictSettings 1 (.fresh Sample.closedDirectory 1000) Sample.guessSteps).shared.log.countP
      (FrontEntry.fails (.pair (ascii "root") (ascii "::1"))) = 2 := by decide +kernel
  refine ⟨counted,?_⟩
  have named : LoginKey.Named (.pair (ascii "root") (ascii "::1")) := show 58 ∉ ascii "root" by decide
  have within : ∀ entry ∈ (FrontDesk.run Sample.strictSettings 1 (.fresh Sample.closedDirectory 1000)
      Sample.guessSteps).shared.log, 1000 ≤ entry.time ∧ entry.time ≤ 1000 + 31 := by decide +kernel
  have lasts : ∀ entry ∈ (FrontDesk.run Sample.strictSettings 1 (.fresh Sample.closedDirectory 1000)
      Sample.guessSteps).shared.log, entry.clears (.pair (ascii "root") (ascii "::1")) = false := by decide +kernel
  have bounded := @guesses_are_bounded Sample.strictSettings 1 _ _ (by unfold LoginLimiterOptions.Fits; decide)
    Sample.closedDirectory 1000 Sample.guessSteps named (by rw [counted]; decide) [] _ [] (by simp) 1000 31 (by decide)
    ⟨lasts,within⟩
  rwa [counted] at bounded

end Confide
