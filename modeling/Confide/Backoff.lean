import Confide.ForwarderQueue

/-! The wait before the next attempt, in the 64 bits of a count of milliseconds: it doubles up to the longest wait, and
nothing overflows on the way. -/
namespace Confide.Forwarder

def twice (wait : Int64) : Option Int64 := if (wait * 2).toInt = wait.toInt * 2 then some (wait * 2) else none

def doublings (maxRetry : Int64) : Nat → Int64 → Option Int64
  | 0, wait => some wait
  | n + 1, wait => if wait < maxRetry then (twice wait).bind (doublings maxRetry n) else some wait

def backoffMillis (firstRetry maxRetry : Int64) (attempts : UInt32) : Option Int64 :=
  (doublings maxRetry (attempts.toNat - 1) firstRetry).map fun wait => if maxRetry < wait then maxRetry else wait

theorem doubled_succ (first most : Int) (n : Nat) :
    doubled ⟨first,most⟩ (n + 1) = doubled ⟨if first < most then first * 2 else first,most⟩ n := by
  induction n with
  | zero => rfl
  | succ n ih => rw [doubled,ih,doubled]

theorem doubled_done {first most : Int} (done : most ≤ first) (n : Nat) : doubled ⟨first,most⟩ n = first := by
  induction n with
  | zero => rfl
  | succ n ih =>
    rw [doubled,ih]
    exact if_neg (Int.not_lt.mpr done)

theorem min_doubled {first most : Int} (positive : 0 < first) (n : Nat) :
    min (doubled ⟨first,most⟩ n) most = min (first * 2 ^ n) most := by
  induction n generalizing first with
  | zero => simp [doubled]
  | succ n ih =>
    rw [doubled_succ]
    split
    · rw [ih (by omega),Int.mul_assoc,← Int.pow_succ']
    · rename_i done
      have least : first ≤ first * 2 ^ (n + 1) := le_mul_of_one_le_right positive.le (one_le_pow₀ (by decide))
      rw [doubled_done (by omega)]
      omega

theorem twice_eq {wait : Int64} (positive : 0 < wait.toInt) (room : wait.toInt * 2 < 2 ^ 63) :
    twice wait = some (wait * 2) ∧ (wait * 2).toInt = wait.toInt * 2 := by
  have fits : (wait * 2).toInt = wait.toInt * 2 := by
    have two : Int64.toInt 2 = 2 := rfl
    rw [Int64.toInt_mul,two]
    apply Int.bmod_eq_of_le
    · omega
    · omega
  exact ⟨if_pos fits,fits⟩

/-- A wait that is doubled is below the longest, so there is room for its double. -/
theorem doublings_eq {maxRetry : Int64} (room : 2 * maxRetry.toInt < 2 ^ 63) (n : Nat) {wait : Int64}
    (positive : 0 < wait.toInt) :
    ∃ last, doublings maxRetry n wait = some last ∧ last.toInt = doubled ⟨wait.toInt,maxRetry.toInt⟩ n := by
  induction n generalizing wait with
  | zero => exact ⟨wait,rfl,rfl⟩
  | succ n ih =>
    rw [doublings,doubled_succ]
    by_cases shorter : wait < maxRetry
    · have below : wait.toInt < maxRetry.toInt := Int64.lt_iff_toInt_lt.mp shorter
      obtain ⟨doubles,value⟩ := twice_eq positive (by omega)
      rw [if_pos shorter,if_pos below,doubles,← value]
      exact ih (by omega)
    · have reached : maxRetry.toInt ≤ wait.toInt := Int.not_lt.mp fun below => shorter (Int64.lt_iff_toInt_lt.mpr below)
      rw [if_neg shorter,if_neg (Int.not_lt.mpr reached),doubled_done reached]
      exact ⟨wait,rfl,rfl⟩

theorem backoffMillis_eq {firstRetry maxRetry : Int64} (positive : 0 < firstRetry) (room : 2 * maxRetry.toInt < 2 ^ 63)
    (attempts : UInt32) : ∃ wait, backoffMillis firstRetry maxRetry attempts = some wait ∧
      wait.toInt = backoff ⟨firstRetry.toInt,maxRetry.toInt⟩ attempts := by
  obtain ⟨last,loops,value⟩ := doublings_eq room (attempts.toNat - 1) (Int64.lt_iff_toInt_lt.mp positive)
  rw [backoffMillis,loops,backoff,← value]
  refine ⟨_,rfl,?_⟩
  dsimp only
  split
  · rename_i longer
    exact (min_eq_right (Int64.lt_iff_toInt_lt.mp longer).le).symm
  · rename_i shorter
    exact (min_eq_left (Int.not_lt.mp fun longer => shorter (Int64.lt_iff_toInt_lt.mpr longer))).symm

/-- The wait is the first one, doubled with each attempt after the first, and at most the longest. No doubling overflows,
and no attempt waits less than an earlier one. -/
theorem backoff_caps_doubling (firstRetry maxRetry : Int64) (first : 0 < firstRetry)
    (room : 2 * maxRetry.toInt < 2 ^ 63) (attempts : UInt32) :
    ∃ wait, backoffMillis firstRetry maxRetry attempts = some wait ∧
      wait.toInt = min (firstRetry.toInt * 2 ^ (attempts.toNat - 1)) maxRetry.toInt ∧
      ∀ later, attempts ≤ later → ∃ wait', backoffMillis firstRetry maxRetry later = some wait' ∧ wait ≤ wait' := by
  have positive : 0 < firstRetry.toInt := Int64.lt_iff_toInt_lt.mp first
  have waits : ∀ attempts, ∃ wait, backoffMillis firstRetry maxRetry attempts = some wait ∧
      wait.toInt = min (firstRetry.toInt * 2 ^ (attempts.toNat - 1)) maxRetry.toInt := by
    intro attempts
    obtain ⟨wait,runs,value⟩ := backoffMillis_eq first room attempts
    exact ⟨wait,runs,value.trans (min_doubled positive _)⟩
  obtain ⟨wait,runs,value⟩ := waits attempts
  refine ⟨wait,runs,value,fun later order => ?_⟩
  obtain ⟨wait',runs',value'⟩ := waits later
  refine ⟨wait',runs',?_⟩
  have count : attempts.toNat ≤ later.toNat := UInt32.le_iff_toNat_le.mp order
  have grows : firstRetry.toInt * 2 ^ (attempts.toNat - 1) ≤ firstRetry.toInt * 2 ^ (later.toNat - 1) :=
    Int.mul_le_mul_of_nonneg_left (pow_le_pow_right₀ (by decide) (by omega)) positive.le
  rw [Int64.le_iff_toInt_le,value,value']
  exact min_le_min_right _ grows

/-- With five seconds first and ten minutes at most, the fourth attempt is followed by forty seconds. -/
theorem default_backoff_doubles : ∃ wait, backoffMillis 5000 600000 4 = some wait ∧ wait.toInt = 40000 := by
  obtain ⟨wait,runs,value,_⟩ := backoff_caps_doubling 5000 600000 (by decide) (by decide) 4
  exact ⟨wait,runs,value⟩

end Confide.Forwarder
