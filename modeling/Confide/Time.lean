import Confide.Calendar
import Confide.Common

/-! A timestamp is an integer: seconds of UTC since 1970-01-01. The text form has a four-digit year,
so exactly the instants of the years 0000 to 9999 can be read back. -/
namespace Confide

open Bytes

/-- At least `width` digits, padded with zeros on the left. -/
def padded : Nat → Nat → Bytes
  | 0, n => if n = 0 then [] else decimal n
  | width + 1, n => padded width (n / 10) ++ [digit (n % 10)]

def formatYear (year : Int) : Bytes :=
  if year < 0 then 45 :: padded 4 year.natAbs else padded 4 year.natAbs

def formatIso8601 (t : Int) : Bytes :=
  let date := Calendar.ofDays (t / 86400)
  let second := (t % 86400).toNat
  formatYear date.year ++ 45 :: (padded 2 date.month ++ 45 :: (padded 2 date.day ++
    84 :: (padded 2 (second / 3600) ++ 58 :: (padded 2 (second / 60 % 60) ++
      58 :: (padded 2 (second % 60) ++ [90])))))

def isoPattern : Bytes := ascii "dddd-dd-ddTdd:dd:ddZ"

def hasIsoShape (text : Bytes) : Bool :=
  text.length == isoPattern.length &&
    (text.zip isoPattern).all fun (c,want) => if want = 100 then isDigit c else c == want

def digits (text : Bytes) (pos len : Nat) : Nat := value ((text.drop pos).take len)

def parseIso8601 (text : Bytes) : Result Int :=
  if hasIsoShape text then
    let date : Calendar.Date := ⟨digits text 0 4,digits text 5 2,digits text 8 2⟩
    let hour := digits text 11 2
    let minute := digits text 14 2
    let second := digits text 17 2
    if date.ok = false ∨ 23 < hour ∨ 59 < minute ∨ 59 < second then
      fail .validation (ascii "malformed timestamp")
    else .ok (date.days * 86400 + hour * 3600 + minute * 60 + second)
  else fail .validation (ascii "malformed timestamp")

def maxRetentionDays : Int := 3650

def decimalInt (i : Int) : Bytes := if i < 0 then 45 :: decimal i.natAbs else decimal i.natAbs

def expiresAt (created : Int) (retentionDays : Int) : Result Int :=
  if retentionDays < 1 ∨ maxRetentionDays < retentionDays then
    fail .validation (ascii "retention_days must be 1.." ++ decimalInt maxRetentionDays ++
      ascii ", got " ++ decimalInt retentionDays)
  else .ok (created + retentionDays * 86400)

def isExpired (expiry now : Int) : Bool := expiry ≤ now

/-- The instants of the years 0000 to 9999. -/
def InEra (t : Int) : Prop := -62167219200 ≤ t ∧ t < 253402300800

instance (t : Int) : Decidable (InEra t) := inferInstanceAs (Decidable (_ ∧ _))

theorem inEra_iff (t : Int) :
    InEra t ↔ 0 ≤ (Calendar.ofDays (t / 86400)).year ∧ (Calendar.ofDays (t / 86400)).year ≤ 9999 := by
  have first : Calendar.daysBeforeYear 0 = 0 := by decide
  have last : Calendar.daysBeforeYear 10000 = 3652425 := by decide
  obtain ⟨low,high⟩ := Calendar.yearOf_spec (t / 86400 + Calendar.epoch)
  simp only [Calendar.ofDays]
  have offset : Calendar.epoch = 719528 := rfl
  unfold InEra
  constructor
  · rintro ⟨lower,upper⟩
    constructor
    · by_contra negative
      have := Calendar.daysBeforeYear_mono
        (show Calendar.yearOf (t / 86400 + Calendar.epoch) + 1 ≤ 0 by omega)
      omega
    · by_contra big
      have := Calendar.daysBeforeYear_mono
        (show 10000 ≤ Calendar.yearOf (t / 86400 + Calendar.epoch) by omega)
      omega
  · rintro ⟨lower,upper⟩
    have := Calendar.daysBeforeYear_mono lower
    have := Calendar.daysBeforeYear_mono
      (show Calendar.yearOf (t / 86400 + Calendar.epoch) + 1 ≤ 10000 by omega)
    omega

theorem padded_two (n : Nat) (small : n < 100) : padded 2 n = [digit (n / 10),digit (n % 10)] := by
  have tens : n / 10 % 10 = n / 10 := by omega
  have none : n / 10 / 10 = 0 := by omega
  simp [padded,tens,none]

theorem padded_four (n : Nat) (small : n < 10000) :
    padded 4 n = [digit (n / 1000),digit (n / 100 % 10),digit (n / 10 % 10),digit (n % 10)] := by
  have top : n / 1000 % 10 = n / 1000 := by omega
  have none : n / 10000 = 0 := by omega
  simp [padded,Nat.div_div_eq_div_mul,top,none]

theorem padded_length (width n : Nat) : width ≤ (padded width n).length := by
  induction width generalizing n with
  | zero => exact Nat.zero_le _
  | succ width ih =>
    have := ih (n / 10)
    simp only [padded,List.length_append,List.length_singleton]
    omega

theorem padded_long (width n : Nat) (big : 10^width ≤ n) : width < (padded width n).length := by
  induction width generalizing n with
  | zero =>
    have nonzero : n ≠ 0 := by simp at big; omega
    simpa [padded,nonzero] using List.length_pos_of_ne_nil (decimal_ne_nil n)
  | succ width ih =>
    have := ih (n / 10) ((Nat.le_div_iff_mul_le (by omega)).mpr (by rw [pow_succ] at big; omega))
    simp only [padded,List.length_append,List.length_singleton]
    omega

theorem formatIso8601_length (t : Int) :
    (formatYear (Calendar.ofDays (t / 86400)).year).length + 16 ≤ (formatIso8601 t).length := by
  simp only [formatIso8601,List.length_append,List.length_cons,List.length_nil]
  have := padded_length 2 (Calendar.ofDays (t / 86400)).month
  have := padded_length 2 (Calendar.ofDays (t / 86400)).day
  have := padded_length 2 ((t % 86400).toNat / 3600)
  have := padded_length 2 ((t % 86400).toNat / 60 % 60)
  have := padded_length 2 ((t % 86400).toNat % 60)
  omega

theorem formatYear_long (year : Int) (outside : year < 0 ∨ 9999 < year) :
    4 < (formatYear year).length := by
  unfold formatYear
  split
  · have := padded_length 4 year.natAbs
    simp only [List.length_cons]
    omega
  · exact padded_long 4 _ (by omega)

theorem value_two (n : Nat) (small : n < 100) : value [digit (n / 10),digit (n % 10)] = n := by
  simp only [value,List.foldl_cons,List.foldl_nil,digitValue_digit (show n / 10 < 10 by omega),
    digitValue_digit (show n % 10 < 10 by omega)]
  omega

theorem value_four (n : Nat) (small : n < 10000) :
    value [digit (n / 1000),digit (n / 100 % 10),digit (n / 10 % 10),digit (n % 10)] = n := by
  simp only [value,List.foldl_cons,List.foldl_nil,digitValue_digit (show n / 1000 < 10 by omega),
    digitValue_digit (show n / 100 % 10 < 10 by omega),digitValue_digit (show n / 10 % 10 < 10 by omega),
    digitValue_digit (show n % 10 < 10 by omega)]
  omega

/-- Six fields written in their widths are read back as they are. -/
theorem parseIso8601_fields (year month day hour minute second : Nat) (hy : year < 10000)
    (hm : month < 100) (hd : day < 100) (hh : hour < 24) (hn : minute < 60) (hs : second < 60)
    (real : (Calendar.Date.mk year month day).ok = true) :
    parseIso8601 (padded 4 year ++ 45 :: (padded 2 month ++ 45 :: (padded 2 day ++
      84 :: (padded 2 hour ++ 58 :: (padded 2 minute ++ 58 :: (padded 2 second ++ [90])))))) =
    .ok ((Calendar.Date.mk year month day).days * 86400 + hour * 3600 + minute * 60 + second) := by
  rw [padded_four year hy,padded_two month hm,padded_two day hd,padded_two hour (by omega),
    padded_two minute (by omega),padded_two second (by omega)]
  have shape : isoPattern = [100,100,100,100,45,100,100,45,100,100,84,100,100,58,100,100,58,100,100,90] := rfl
  have digit_two : ∀ n < 100, isDigit (digit (n / 10)) = true ∧ isDigit (digit (n % 10)) = true :=
    fun n small => ⟨isDigit_digit (by omega),isDigit_digit (by omega)⟩
  simp only [parseIso8601,hasIsoShape,shape,digits,List.cons_append,List.nil_append,List.zip_cons_cons,
    List.zip_nil_right,List.all_cons,List.all_nil,List.length_cons,List.length_nil,List.drop_succ_cons,
    List.drop_zero,List.take_succ_cons,List.take_zero,value_two _ hm,value_two _ hd,
    value_two hour (by omega),value_two minute (by omega),value_two second (by omega),value_four _ hy,
    isDigit_digit (show year / 1000 < 10 by omega),isDigit_digit (show year / 100 % 10 < 10 by omega),
    isDigit_digit (show year / 10 % 10 < 10 by omega),isDigit_digit (show year % 10 < 10 by omega),
    (digit_two month hm).1,(digit_two month hm).2,(digit_two day hd).1,(digit_two day hd).2,
    (digit_two hour (by omega)).1,(digit_two hour (by omega)).2,(digit_two minute (by omega)).1,
    (digit_two minute (by omega)).2,(digit_two second (by omega)).1,(digit_two second (by omega)).2]
  have fine : ¬ ((Calendar.Date.mk year month day).ok = false ∨ 23 < hour ∨ 59 < minute ∨ 59 < second) := by
    simp only [real,Bool.true_eq_false,false_or]
    omega
  simp [fine]

/-- A timestamp is read back from its text in the years 0000 to 9999, and in no other year. -/
theorem parseIso8601_formatIso8601 (t : Int) : parseIso8601 (formatIso8601 t) =
    if InEra t then .ok t else fail .validation (ascii "malformed timestamp") := by
  by_cases era : InEra t
  · rw [if_pos era]
    obtain ⟨low,high⟩ := (inEra_iff t).mp era
    obtain ⟨real,month⟩ := Calendar.ofDays_ok (t / 86400)
    have days := Calendar.days_ofDays (t / 86400)
    have short := Calendar.daysInMonth_lt (Calendar.isLeap (Calendar.ofDays (t / 86400)).year)
      (Calendar.ofDays (t / 86400)).month
    have last : (Calendar.ofDays (t / 86400)).day ≤ _ := (by simpa [Calendar.Date.ok] using real : _ ∧ _).2
    unfold formatIso8601
    generalize Calendar.ofDays (t / 86400) = date at *
    obtain ⟨year,month',day⟩ := date
    dsimp only at low high month short last
    obtain ⟨year,rfl⟩ := Int.eq_ofNat_of_zero_le low
    simp only [formatYear,if_neg (show ¬ (year : Int) < 0 by omega),Int.natAbs_natCast]
    rw [parseIso8601_fields year month' day _ _ _ (by omega) (by omega) (by omega) (by omega) (by omega)
      (by omega) real,days]
    congr 1
    omega
  · rw [if_neg era]
    have outside : (Calendar.ofDays (t / 86400)).year < 0 ∨ 9999 < (Calendar.ofDays (t / 86400)).year := by
      by_contra inside
      exact era ((inEra_iff t).mpr (by omega))
    have long := formatIso8601_length t
    have := formatYear_long _ outside
    have shape : hasIsoShape (formatIso8601 t) = false := by
      have : ¬ (formatIso8601 t).length = 20 := by omega
      simp [hasIsoShape,show isoPattern.length = 20 from rfl,this]
    simp [parseIso8601,shape]

theorem isDigit_value {b : UInt8} (digit : isDigit b = true) : digitValue b < 10 := by
  simp only [isDigit,Bool.and_eq_true,decide_eq_true_eq,UInt8.le_iff_toNat_le] at digit
  have : (57 : UInt8).toNat = 57 := rfl
  unfold digitValue
  omega

theorem value_lt (ds : Bytes) (all : ∀ b ∈ ds, isDigit b = true) : value ds < 10^ds.length := by
  induction ds using List.reverseRecOn with
  | nil => decide
  | append_singleton ds b ih =>
    have front := ih fun c member => all c (by simp [member])
    have last := isDigit_value (all b (by simp))
    simp only [value,List.foldl_append,List.foldl_cons,List.foldl_nil,List.length_append,
      List.length_singleton,pow_succ] at front ⊢
    omega

theorem hasIsoShape_year (text : Bytes) (shape : hasIsoShape text = true) : digits text 0 4 < 10000 := by
  simp only [hasIsoShape,Bool.and_eq_true,List.all_eq_true] at shape
  obtain ⟨length,matching⟩ := shape
  have length : text.length = 20 := (beq_iff_eq.mp length).trans rfl
  have bound := value_lt ((text.drop 0).take 4) (by
    intro b member
    obtain ⟨i,inside,rfl⟩ := List.getElem_of_mem member
    simp only [List.drop_zero,List.length_take] at inside
    have want : isoPattern[i]? = some 100 := by
      have : ∀ i < 4, isoPattern[i]? = some 100 := by decide
      exact this i (by omega)
    have := matching (text[i],100) (by
      apply List.mem_of_getElem? (i := i)
      rw [List.getElem?_zip_eq_some]
      exact ⟨List.getElem?_eq_getElem (by omega),want⟩)
    simpa using this)
  simpa [digits,length] using bound

/-- Only instants of the years 0000 to 9999 are read. -/
theorem parseIso8601_inEra (text : Bytes) (t : Int) (read : parseIso8601 text = .ok t) : InEra t := by
  unfold parseIso8601 at read
  split at read
  · rename_i shape
    have year := hasIsoShape_year text shape
    generalize digits text 0 4 = year at *
    dsimp only at read
    split at read
    · contradiction
    · rename_i fine
      cases read
      simp only [not_or,Bool.not_eq_false] at fine
      have date := Calendar.ofDays_days _ fine.1
      generalize Calendar.Date.days _ = days at *
      have whole : (days * 86400 + digits text 11 2 * 3600 + digits text 14 2 * 60 + digits text 17 2 : Int)
          / 86400 = days := by omega
      rw [inEra_iff,whole,date]
      exact ⟨by simp,by simp; omega⟩
  · contradiction

theorem isDigit_small {b : UInt8} (digit : isDigit b = true) : b < 0x80 := by
  simp only [isDigit,Bool.and_eq_true,decide_eq_true_eq] at digit
  exact UInt8.lt_of_le_of_lt digit.2 (by decide)

theorem padded_digits (width n : Nat) : ∀ b ∈ padded width n, isDigit b = true := by
  induction width generalizing n with
  | zero =>
    unfold padded
    split
    · simp
    · exact decimal_digits n
  | succ width ih =>
    intro b member
    rcases List.mem_append.mp member with front | last
    · exact ih (n / 10) b front
    · rw [List.mem_singleton.mp last]
      exact isDigit_digit (Nat.mod_lt _ (by omega))

theorem formatIso8601_isUtf8 (t : Int) : Bytes.isUtf8 (formatIso8601 t) = true := by
  have number : ∀ width n, ∀ b ∈ padded width n, b < 0x80 := fun width n b member =>
    isDigit_small (padded_digits width n b member)
  have year : ∀ y, ∀ b ∈ formatYear y, b < 0x80 := by
    intro y b member
    unfold formatYear at member
    split at member
    · rcases List.mem_cons.mp member with rfl | member
      · decide
      · exact number _ _ b member
    · exact number _ _ b member
  apply isUtf8_ascii
  intro b member
  simp only [formatIso8601,List.mem_append,List.mem_cons,List.not_mem_nil,or_false] at member
  rcases member with h | rfl | h | rfl | h | rfl | h | rfl | h | rfl | h | rfl
  all_goals first | decide | exact number _ _ b h | exact year _ b h

end Confide
