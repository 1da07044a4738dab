import Confide.Time

/-! The texts that stand for an instant: the one written form, and what a person may type instead. -/
namespace Confide

open Bytes

/-- An instant of the years 0000 to 9999 by its calendar fields. -/
structure Civil where
  year : Nat
  month : Nat
  day : Nat
  hour : Nat
  minute : Nat
  second : Nat
  four : year < 10000
  real : (Calendar.Date.mk year month day).ok = true
  hours : hour < 24
  minutes : minute < 60
  seconds : second < 60

namespace Civil

def date (c : Civil) : Calendar.Date := ⟨c.year,c.month,c.day⟩

def dayText (c : Civil) : Bytes := padded 4 c.year ++ 45 :: (padded 2 c.month ++ 45 :: padded 2 c.day)

def text (c : Civil) : Bytes :=
  c.dayText ++ 84 :: (padded 2 c.hour ++ 58 :: (padded 2 c.minute ++ 58 :: (padded 2 c.second ++ [90])))

def midnight (c : Civil) : Int := c.date.days * 86400

def instant (c : Civil) : Int := c.midnight + c.hour * 3600 + c.minute * 60 + c.second

end Civil

theorem digit_digitValue {b : UInt8} (decimal : isDigit b = true) : digit (digitValue b) = b := by
  simp only [isDigit,Bool.and_eq_true,decide_eq_true_eq,UInt8.le_iff_toNat_le] at decimal
  have low : (48 : UInt8).toNat = 48 := rfl
  have whole : 48 + (b.toNat - 48) = b.toNat := by omega
  rw [digit,digitValue,whole,UInt8.ofNat_toNat]

/-- Digits are the number they stand for, written in their own width. -/
theorem padded_value (ds : Bytes) (all : ∀ b ∈ ds, isDigit b = true) : padded ds.length (value ds) = ds := by
  induction ds using List.reverseRecOn with
  | nil => rfl
  | append_singleton ds b ih =>
    have front := ih fun c member => all c (by simp [member])
    have small := isDigit_value (all b (by simp))
    have number : value (ds ++ [b]) = 10 * value ds + digitValue b := by simp [value]
    rw [List.length_append,List.length_singleton,padded,number,
      show (10 * value ds + digitValue b) / 10 = value ds by omega,
      show (10 * value ds + digitValue b) % 10 = digitValue b by omega,front,
      digit_digitValue (all b (by simp))]

variable {text : Bytes}

theorem twenty_bytes (length : text.length = 20) : ∃ y1 y2 y3 y4 a m1 m2 b d1 d2 c h1 h2 d n1 n2 e s1 s2 z,
    text = [y1,y2,y3,y4,a,m1,m2,b,d1,d2,c,h1,h2,d,n1,n2,e,s1,s2,z] :=
  match text, length with
  | [_,_,_,_,_,_,_,_,_,_,_,_,_,_,_,_,_,_,_,_], _ => ⟨_,_,_,_,_,_,_,_,_,_,_,_,_,_,_,_,_,_,_,_,rfl⟩

theorem hasIsoShape_fields (shape : hasIsoShape text = true) : ∃ y m d h n s : Bytes,
    (y.length = 4 ∧ m.length = 2 ∧ d.length = 2 ∧ h.length = 2 ∧ n.length = 2 ∧ s.length = 2) ∧
    (∀ b ∈ y ++ m ++ d ++ h ++ n ++ s, isDigit b = true) ∧
    (digits text 0 4 = value y ∧ digits text 5 2 = value m ∧ digits text 8 2 = value d ∧
      digits text 11 2 = value h ∧ digits text 14 2 = value n ∧ digits text 17 2 = value s) ∧
    text = y ++ 45 :: (m ++ 45 :: (d ++ 84 :: (h ++ 58 :: (n ++ 58 :: (s ++ [90]))))) := by
  have pattern : isoPattern = [100,100,100,100,45,100,100,45,100,100,84,100,100,58,100,100,58,100,100,90] := rfl
  have length : text.length = 20 := by
    simp only [hasIsoShape,Bool.and_eq_true,beq_iff_eq] at shape
    exact shape.1
  obtain ⟨y1,y2,y3,y4,_,m1,m2,_,d1,d2,_,h1,h2,_,n1,n2,_,s1,s2,_,rfl⟩ := twenty_bytes length
  simp [hasIsoShape,pattern] at shape
  exact ⟨[y1,y2,y3,y4],[m1,m2],[d1,d2],[h1,h2],[n1,n2],[s1,s2],by simp,by simp [shape],
    ⟨rfl,rfl,rfl,rfl,rfl,rfl⟩,by simp [shape]⟩

variable {ds : Bytes}

theorem padded_inverse {width : Nat} (length : ds.length = width) (all : ∀ b ∈ ds, isDigit b = true) :
    value ds < 10^width ∧ padded width (value ds) = ds := by
  subst length
  exact ⟨value_lt ds all,padded_value ds all⟩

theorem ok_bounds {year : Int} {month day : Nat} (real : (Calendar.Date.mk year month day).ok = true) :
    month < 13 ∧ day < 32 := by
  simp only [Calendar.Date.ok,Bool.and_eq_true,decide_eq_true_eq] at real
  have short := Calendar.daysInMonth_lt (Calendar.isLeap year) month
  constructor
  · by_contra late
    have none : Calendar.daysInMonth (Calendar.isLeap year) month = 0 := by
      have outside : (0 :: Calendar.monthLengths (Calendar.isLeap year)).length ≤ month := by
        simp only [Calendar.monthLengths,List.length_cons,List.length_nil]
        omega
      simp [Calendar.daysInMonth,List.getElem?_eq_none outside]
    omega
  · omega

namespace Civil

theorem parse_text (c : Civil) : parseIso8601 c.text = .ok c.instant := by
  obtain ⟨month,day⟩ := ok_bounds c.real
  rw [instant,midnight,date,← parseIso8601_fields _ _ _ _ _ _ c.four (by omega) (by omega) c.hours c.minutes
    c.seconds c.real]
  simp [text,dayText]

theorem instant_days (c : Civil) : Calendar.ofDays (c.instant / 86400) = c.date := by
  have day : c.instant / 86400 = c.date.days := by
    have := c.hours
    have := c.minutes
    have := c.seconds
    unfold instant midnight
    omega
  rw [day]
  exact Calendar.ofDays_days _ c.real

theorem format_instant (c : Civil) : formatIso8601 c.instant = c.text := by
  have hours := c.hours
  have minutes := c.minutes
  have seconds := c.seconds
  have rest : (c.instant % 86400).toNat = c.hour * 3600 + c.minute * 60 + c.second := by
    unfold instant midnight
    omega
  have hour : (c.hour * 3600 + c.minute * 60 + c.second) / 3600 = c.hour := by omega
  have minute : (c.hour * 3600 + c.minute * 60 + c.second) / 60 % 60 = c.minute := by omega
  have second : (c.hour * 3600 + c.minute * 60 + c.second) % 60 = c.second := by omega
  have year : formatYear c.year = padded 4 c.year := if_neg (by omega)
  simp [formatIso8601,instant_days,rest,hour,minute,second,date,year,text,dayText]

end Civil

variable {t : Int}

/-- Exactly the instants that exist are read. -/
theorem parseIso8601_eq_ok :
    parseIso8601 text = .ok t ↔ ∃ c : Civil, c.text = text ∧ c.instant = t := by
  constructor
  · intro read
    unfold parseIso8601 at read
    split at read
    · rename_i shape
      obtain ⟨y,m,d,h,n,s,⟨ly,lm,ld,lh,ln,ls⟩,all,⟨vy,vm,vd,vh,vn,vs⟩,written⟩ := hasIsoShape_fields shape
      rw [vy,vm,vd,vh,vn,vs] at read
      dsimp only at read
      split at read
      · contradiction
      · rename_i fine
        simp only [not_or,Bool.not_eq_false,not_lt] at fine
        obtain ⟨four,year⟩ := padded_inverse ly fun b member => all b (by simp [member])
        obtain ⟨_,month⟩ := padded_inverse lm fun b member => all b (by simp [member])
        obtain ⟨_,day⟩ := padded_inverse ld fun b member => all b (by simp [member])
        obtain ⟨_,hour⟩ := padded_inverse lh fun b member => all b (by simp [member])
        obtain ⟨_,minute⟩ := padded_inverse ln fun b member => all b (by simp [member])
        obtain ⟨_,second⟩ := padded_inverse ls fun b member => all b (by simp [member])
        apply Exists.intro ⟨value y,value m,value d,value h,value n,value s,four,fine.1,by omega,by omega,by omega⟩
        apply And.intro _ (Except.ok.inj read)
        simp [Civil.text,Civil.dayText,year,month,day,hour,minute,second,written]
    · contradiction
  · rintro ⟨c,rfl,rfl⟩
    exact c.parse_text

/-- Instants have one text form: what is written is read back, and what is read is written again. -/
theorem one_text_form : (∀ t, 0 ≤ (Calendar.ofDays (t / 86400)).year → (Calendar.ofDays (t / 86400)).year ≤ 9999 →
      parseIso8601 (formatIso8601 t) = .ok t) ∧
    (∀ text t, parseIso8601 text = .ok t → formatIso8601 t = text) ∧
    ∀ text, (∃ t, parseIso8601 text = .ok t) ↔ ∃ t, 0 ≤ (Calendar.ofDays (t / 86400)).year ∧
      (Calendar.ofDays (t / 86400)).year ≤ 9999 ∧ text = formatIso8601 t := by
  have written : ∀ t, 0 ≤ (Calendar.ofDays (t / 86400)).year → (Calendar.ofDays (t / 86400)).year ≤ 9999 →
      parseIso8601 (formatIso8601 t) = .ok t := by
    intro t first last
    rw [parseIso8601_formatIso8601,if_pos ((inEra_iff t).mpr ⟨first,last⟩)]
  have read : ∀ text t, parseIso8601 text = .ok t → formatIso8601 t = text := by
    intro text t read
    obtain ⟨c,rfl,rfl⟩ := parseIso8601_eq_ok.mp read
    exact c.format_instant
  refine ⟨written,read,fun text => ⟨?_,?_⟩⟩
  · rintro ⟨t,accepted⟩
    obtain ⟨first,last⟩ := (inEra_iff t).mp (parseIso8601_inEra text t accepted)
    exact ⟨t,first,last,(read text t accepted).symm⟩
  · rintro ⟨t,first,last,rfl⟩
    exact ⟨t,written t first last⟩

theorem one_text_form_today : parseIso8601 (formatIso8601 1790251200) = .ok 1790251200 ∧
    formatIso8601 1790251200 = ascii "2026-09-24T12:00:00Z" :=
  ⟨one_text_form.1 1790251200 (by decide +kernel) (by decide +kernel),
    one_text_form.2.1 (ascii "2026-09-24T12:00:00Z") 1790251200 (by decide +kernel)⟩

/-! What a person types: `now`, a day, an instant, or an age such as 2h. -/

def ageUnit (c : UInt8) : Option Nat :=
  if c = 115 then some 1
  else if c = 109 then some 60
  else if c = 104 then some 3600
  else if c = 100 then some 86400
  else if c = 119 then some 604800
  else none

def ageArg (text : Bytes) : Option Int :=
  if 1 < text.length ∧ text.length ≤ 8 then
    match fromCharsSigned (2^63) (2^63 - 1) text.dropLast with
    | some (n,[]) => if 0 ≤ n then (text.getLast?.bind ageUnit).map (fun (seconds : Nat) => n * seconds) else none
    | _ => none
  else none

/-- Whether a number of seconds fits into 64 bits. -/
def IsSeconds (t : Int) : Prop := -2^63 ≤ t ∧ t < 2^63

instance (t : Int) : Decidable (IsSeconds t) := inferInstanceAs (Decidable (_ ∧ _))

def parseTimeArg (text : Bytes) (now : Int) : Option (Result Int) :=
  if text = ascii "now" then some (.ok now)
  else match if text.length = 10 then parseIso8601 (text ++ ascii "T00:00:00Z") else fail .validation [] with
    | .ok day => some (.ok day)
    | .error _ => match ageArg text with
      | some age => if IsSeconds (now - age) then some (.ok (now - age)) else none
      | none => match parseIso8601 text with
        | .ok exact => some (.ok exact)
        | .error _ => some (fail .validation (ascii "'" ++ text ++
            ascii "': expected YYYY-MM-DD[THH:MM:SSZ], now, or an age like 2h, 7d"))

/-- A number of one to seven digits and a unit. -/
def IsAge (text : Bytes) (age : Nat) : Prop := ∃ (ds : Bytes) (unit : UInt8) (seconds : Nat),
  text = ds ++ [unit] ∧ 1 ≤ ds.length ∧ ds.length ≤ 7 ∧ (∀ b ∈ ds, isDigit b = true) ∧
    ageUnit unit = some seconds ∧ age = value ds * seconds

/-- The documented texts and what each stands for. -/
inductive Means (now : Int) : Bytes → Int → Prop where
  | now : Means now (ascii "now") now
  | day (c : Civil) : Means now c.dayText c.midnight
  | instant (c : Civil) : Means now c.text c.instant
  | age (text : Bytes) (age : Nat) : IsAge text age → Means now text (now - age)

/-- The texts such as -0s: up to six zeros after a minus sign. -/
def IsMinusZero (text : Bytes) : Prop := ∃ (zeros : Nat) (unit : UInt8),
  text = 45 :: (List.replicate zeros 48 ++ [unit]) ∧ 1 ≤ zeros ∧ zeros ≤ 6 ∧ (ageUnit unit).isSome

/-- The argument is read as it is documented: for each result, and without an overflow. -/
def AsDocumented (text : Bytes) (now : Int) : Prop :=
  (∀ t, parseTimeArg text now = some (.ok t) ↔ Means now text t) ∧ parseTimeArg text now ≠ none

theorem value_zeros (zeros : Nat) : value (List.replicate zeros 48) = 0 := by
  induction zeros with
  | zero => rfl
  | succ zeros ih =>
    rw [List.replicate_succ',value,List.foldl_append,← value,ih]
    rfl

theorem value_eq_zero (all : ∀ b ∈ ds, isDigit b = true) (zero : value ds = 0) :
    ds = List.replicate ds.length 48 := by
  have one := padded_value ds all
  rw [zero] at one
  have two := padded_value (List.replicate ds.length 48) fun b member => by
    rw [List.eq_of_mem_replicate member]
    rfl
  rw [value_zeros,List.length_replicate] at two
  exact one.symm.trans two

theorem fromCharsSigned_whole {low high : Nat} {n : Int} (positive : 0 ≤ n) :
    fromCharsSigned low high text = some (n,[]) ↔ fromChars high text = some (n.toNat,[]) ∨
      n = 0 ∧ ∃ rest, text = 45 :: rest ∧ fromChars low rest = some (0,[]) := by
  cases text with
  | nil => simp [fromCharsSigned,fromChars]
  | cons b text =>
    rw [fromCharsSigned]
    by_cases minus : b = 45
    · subst minus
      have unread : fromChars high (45 :: text) = none := by simp [fromChars,isDigit]
      rw [if_pos rfl,unread,Option.map_eq_some_iff]
      constructor
      · rintro ⟨⟨m,rest⟩,read,same⟩
        cases same
        have zero : m = 0 := by omega
        subst zero
        exact .inr ⟨rfl,text,rfl,read⟩
      · rintro (unread | ⟨rfl,rest,same,read⟩)
        · contradiction
        · obtain rfl := List.tail_eq_of_cons_eq same
          exact ⟨_,read,rfl⟩
    · rw [if_neg minus,Option.map_eq_some_iff]
      constructor
      · rintro ⟨⟨m,rest⟩,read,same⟩
        cases same
        exact .inl read
      · rintro (read | ⟨_,rest,same,_⟩)
        · exact ⟨_,read,by simp [positive]⟩
        · exact absurd (List.head_eq_of_cons_eq same) minus

variable {age : Int}

theorem ageArg_concat {unit : UInt8} : ageArg (ds ++ [unit]) = some age ↔
    1 ≤ ds.length ∧ ds.length ≤ 7 ∧ ∃ (n : Int) (seconds : Nat), 0 ≤ n ∧
      fromCharsSigned (2^63) (2^63 - 1) ds = some (n,[]) ∧ ageUnit unit = some seconds ∧ age = n * seconds := by
  unfold ageArg
  simp only [List.length_append,List.length_singleton,List.dropLast_concat,List.getLast?_concat,Option.bind_some]
  by_cases short : 1 ≤ ds.length ∧ ds.length ≤ 7
  · rw [if_pos (by omega)]
    constructor
    · intro known
      split at known
      · rename_i n read
        split at known
        · rename_i positive
          obtain ⟨seconds,scale,same⟩ := Option.map_eq_some_iff.mp known
          exact ⟨short.1,short.2,n,seconds,positive,read,scale,same.symm⟩
        · contradiction
      · contradiction
    · rintro ⟨_,_,n,seconds,positive,read,scale,rfl⟩
      rw [read,scale]
      simp [positive]
  · rw [if_neg (by omega)]
    exact iff_of_false nofun fun known => short ⟨known.1,known.2.1⟩

/-- What is taken for an age: the documented ages, and a zero with a minus sign. -/
theorem ageArg_eq_some :
    ageArg text = some age ↔ (∃ n : Nat, IsAge text n ∧ age = n) ∨ IsMinusZero text ∧ age = 0 := by
  rcases List.eq_nil_or_concat' text with rfl | ⟨ds,unit,rfl⟩
  · simp [ageArg,IsAge,IsMinusZero]
  rw [ageArg_concat]
  constructor
  · rintro ⟨enough,few,n,seconds,positive,read,scale,rfl⟩
    rcases (fromCharsSigned_whole positive).mp read with plain | ⟨rfl,rest,rfl,plain⟩
    · obtain ⟨_,digits,number,_⟩ := fromChars_whole.mp plain
      apply Or.inl
      apply Exists.intro (n.toNat * seconds)
      apply And.intro ⟨ds,unit,seconds,rfl,enough,few,digits,scale,by rw [number]⟩
      push_cast
      rw [Int.toNat_of_nonneg positive]
    · obtain ⟨nonempty,digits,zero,_⟩ := fromChars_whole.mp plain
      apply Or.inr
      apply And.intro _ (zero_mul _)
      apply Exists.intro rest.length
      apply Exists.intro unit
      simp only [List.length_cons] at few
      refine ⟨?_,List.length_pos_of_ne_nil nonempty,by omega,by simp [scale]⟩
      rw [← value_eq_zero digits zero,List.cons_append]
  · rintro (⟨_,⟨_,_,seconds,same,enough,few,digits,scale,rfl⟩,rfl⟩ | ⟨⟨zeros,_,same,enough,few,known⟩,rfl⟩)
    · obtain ⟨rfl,rfl⟩ := List.append_singleton_inj.mp same
      have small : value ds ≤ 2^63 - 1 := by
        have below := value_lt ds digits
        have bound : 10^ds.length ≤ 10^7 := Nat.pow_le_pow_right (by decide) few
        omega
      refine ⟨enough,few,value ds,seconds,Int.natCast_nonneg _,?_,scale,Nat.cast_mul _ _⟩
      apply (fromCharsSigned_whole (Int.natCast_nonneg _)).mpr
      exact .inl (fromChars_whole.mpr ⟨List.ne_nil_of_length_pos enough,digits,rfl,small⟩)
    · rw [← List.cons_append] at same
      obtain ⟨rfl,rfl⟩ := List.append_singleton_inj.mp same
      obtain ⟨seconds,scale⟩ := Option.isSome_iff_exists.mp known
      simp only [List.length_cons,List.length_replicate]
      refine ⟨by omega,by omega,0,seconds,le_refl 0,?_,scale,(zero_mul _).symm⟩
      apply (fromCharsSigned_whole (le_refl 0)).mpr
      refine .inr ⟨rfl,_,rfl,fromChars_whole.mpr ⟨?_,?_,value_zeros zeros,Nat.zero_le _⟩⟩
      · exact List.ne_nil_of_length_pos (by simp; omega)
      · intro b member
        rw [List.eq_of_mem_replicate member]
        rfl

namespace Civil

theorem dayText_length (c : Civil) : c.dayText.length = 10 := by
  obtain ⟨month,day⟩ := ok_bounds c.real
  rw [dayText,padded_four _ c.four,padded_two _ (by omega),padded_two _ (by omega)]
  rfl

theorem text_length (c : Civil) : c.text.length = 20 := by
  have hours := c.hours
  have minutes := c.minutes
  have seconds := c.seconds
  rw [text,List.length_append,dayText_length,padded_two _ (by omega),padded_two _ (by omega),
    padded_two _ (by omega)]
  rfl

def atMidnight (c : Civil) : Civil :=
  { c with hour := 0, minute := 0, second := 0, hours := by decide, minutes := by decide, seconds := by decide }

theorem parse_dayText (c : Civil) : parseIso8601 (c.dayText ++ ascii "T00:00:00Z") = .ok c.midnight := by
  have zero : padded 2 0 = [48,48] := by decide +kernel
  have text : c.atMidnight.text = c.dayText ++ ascii "T00:00:00Z" := by simp [text,atMidnight,dayText,zero,ascii]
  have instant : c.atMidnight.instant = c.midnight := by simp [instant,atMidnight,midnight,date]
  rw [← text,parse_text,instant]

end Civil

theorem parse_day_ok (length : text.length = 10)
    (read : parseIso8601 (text ++ ascii "T00:00:00Z") = .ok t) : ∃ c : Civil, c.dayText = text := by
  obtain ⟨c,same,_⟩ := parseIso8601_eq_ok.mp read
  exact ⟨c,(List.append_inj same (c.dayText_length.trans length.symm)).1⟩

theorem IsAge.bounds {age : Nat} (is : IsAge text age) :
    text.length ≤ 8 ∧ ∃ b, text.head? = some b ∧ isDigit b = true := by
  obtain ⟨ds,unit,seconds,rfl,enough,few,digits,_,_⟩ := is
  obtain ⟨b,ds,rfl⟩ := List.exists_cons_of_length_pos enough
  simp only [List.length_append,List.length_singleton]
  exact ⟨by omega,b,rfl,digits b (by simp)⟩

theorem IsMinusZero.bounds (is : IsMinusZero text) :
    text.length ≤ 8 ∧ text.head? = some 45 := by
  obtain ⟨zeros,unit,rfl,enough,few,_⟩ := is
  simp only [List.length_cons,List.length_append,List.length_replicate,List.length_nil]
  exact ⟨by omega,rfl⟩

theorem IsAge.ne_now {age : Nat} (is : IsAge text age) : text ≠ ascii "now" := by
  rintro rfl
  obtain ⟨_,b,head,digit⟩ := is.bounds
  cases head
  contradiction

theorem IsMinusZero.ne_now (is : IsMinusZero text) : text ≠ ascii "now" := by
  rintro rfl
  exact absurd is.bounds.2 (by decide)

variable {now : Int}

/-- Any other result than a documented one is that of a zero with a minus sign. -/
theorem parseTimeArg_ok (read : parseTimeArg text now = some (.ok t)) :
    Means now text t ∨ IsMinusZero text := by
  unfold parseTimeArg at read
  split at read
  · rename_i same
    cases read
    exact .inl (same ▸ .now)
  split at read
  · rename_i day known
    cases read
    split at known
    · rename_i length
      obtain ⟨c,rfl⟩ := parse_day_ok length known
      rw [c.parse_dayText] at known
      exact .inl (Except.ok.inj known ▸ .day c)
    · contradiction
  split at read
  · rename_i age known
    split at read
    · cases read
      rcases ageArg_eq_some.mp known with ⟨n,is,rfl⟩ | ⟨minus,_⟩
      · exact .inl (.age text n is)
      · exact .inr minus
    · contradiction
  split at read
  · rename_i instant known
    cases read
    obtain ⟨c,rfl,rfl⟩ := parseIso8601_eq_ok.mp known
    exact .inl (.instant c)
  · exact nomatch Option.some.inj read

theorem parseTimeArg_none (undefined : parseTimeArg text now = none) :
    ∃ age, ageArg text = some age ∧ ¬ IsSeconds (now - age) := by
  unfold parseTimeArg at undefined
  split at undefined
  · contradiction
  split at undefined
  · contradiction
  split at undefined
  · rename_i age known
    split at undefined
    · contradiction
    · rename_i outside
      exact ⟨age,known,outside⟩
  · split at undefined <;> contradiction

/-- A text that is neither `now` nor as long as a day is an age, if it can be read as one. -/
theorem parseTimeArg_age (other : text ≠ ascii "now") (short : text.length ≤ 8) (known : ageArg text = some age) :
    parseTimeArg text now = if IsSeconds (now - age) then some (.ok (now - age)) else none := by
  have length : ¬ text.length = 10 := by omega
  simp only [parseTimeArg,if_neg other,if_neg length,fail,known]

theorem ageArg_long (long : 8 < text.length) : ageArg text = none := if_neg (by omega)

theorem Means.parse (means : Means now text t)
    (fits : ∀ age, IsAge text age → IsSeconds (now - age)) : parseTimeArg text now = some (.ok t) := by
  cases means with
  | now => rfl
  | day c =>
    have length := c.dayText_length
    have other : c.dayText ≠ ascii "now" := fun same => by simp [same,ascii] at length
    simp only [parseTimeArg,if_neg other,if_pos length,c.parse_dayText]
  | instant c =>
    have length := c.text_length
    have other : c.text ≠ ascii "now" := fun same => by simp [same,ascii] at length
    have notDay : ¬ c.text.length = 10 := by omega
    simp only [parseTimeArg,if_neg other,if_neg notDay,fail,ageArg_long (show 8 < c.text.length by omega),c.parse_text]
  | age _ age is =>
    rw [parseTimeArg_age is.ne_now is.bounds.1 (ageArg_eq_some.mpr (.inl ⟨age,is,rfl⟩)),if_pos (fits age is)]

theorem IsMinusZero.not_means (is : IsMinusZero text) : ¬ Means now text t := by
  obtain ⟨short,minus⟩ := is.bounds
  intro means
  cases means with
  | now => exact is.ne_now rfl
  | day c =>
    have := c.dayText_length
    omega
  | instant c =>
    have := c.text_length
    omega
  | age _ age is =>
    obtain ⟨_,b,head,digit⟩ := is.bounds
    rw [minus] at head
    cases head
    contradiction

/-- An argument is read as documented unless it is a zero with a minus sign or an age that reaches back
beyond the first instant of 64 bits. -/
theorem time_argument_as_documented (text : Bytes) (now : Int) (today : IsSeconds now) :
    AsDocumented text now ↔ ¬ IsMinusZero text ∧ ∀ age, IsAge text age → -2^63 ≤ now - age := by
  constructor
  · rintro ⟨documented,defined⟩
    constructor
    · intro minus
      apply minus.not_means
      apply (documented now).mp
      rw [parseTimeArg_age minus.ne_now minus.bounds.1 (ageArg_eq_some.mpr (.inr ⟨minus,rfl⟩)),sub_zero,if_pos today]
    · intro age is
      by_contra early
      apply defined
      rw [parseTimeArg_age is.ne_now is.bounds.1 (ageArg_eq_some.mpr (.inl ⟨age,is,rfl⟩)),
        if_neg fun fits => early fits.1]
  · rintro ⟨plain,early⟩
    have fits : ∀ age, IsAge text age → IsSeconds (now - age) := fun age is =>
      ⟨early age is,lt_of_le_of_lt (Int.sub_le_self _ (Int.natCast_nonneg _)) today.2⟩
    constructor
    · intro t
      exact ⟨fun read => (parseTimeArg_ok read).resolve_right plain,fun means => means.parse fits⟩
    · intro undefined
      obtain ⟨age,known,outside⟩ := parseTimeArg_none undefined
      rcases ageArg_eq_some.mp known with ⟨n,is,rfl⟩ | ⟨minus,_⟩
      · exact outside (fits n is)
      · exact plain minus

theorem time_argument_as_documented_hours : AsDocumented (ascii "2h") 1790251200 := by
  apply (time_argument_as_documented _ _ (by decide)).mpr
  constructor
  · intro minus
    exact absurd minus.bounds.2 (by decide)
  · rintro age ⟨ds,unit,seconds,same,_,_,_,scale,rfl⟩
    obtain ⟨rfl,rfl⟩ := List.append_singleton_inj.mp (show [50] ++ [104] = ds ++ [unit] from same)
    cases scale
    decide +kernel

/-- A zero with a minus sign is taken for an age. -/
theorem minus_zero_accepted : parseTimeArg (ascii "-0s") 1790251200 = some (.ok 1790251200) ∧
    ¬ ∃ t, Means 1790251200 (ascii "-0s") t := by
  have minus : IsMinusZero (ascii "-0s") := ⟨1,115,rfl,by decide,by decide,rfl⟩
  constructor
  · decide +kernel
  · rintro ⟨t,means⟩
    exact minus.not_means means

end Confide
