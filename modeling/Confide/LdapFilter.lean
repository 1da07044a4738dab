import Confide.Bytes

/-! The filters that are sent to the LDAP server. A template is cut into its pieces once, from left to right, and
the names typed by a user are escaped before they go in. -/
namespace Confide

open Bytes

namespace Ldap

/-- What has a meaning of its own in a filter. -/
def isStructural (c : UInt8) : Bool := c = 42 || c = 40 || c = 41 || c = 0

def escapeByte (c : UInt8) : Bytes :=
  if c = 42 || c = 40 || c = 41 || c = 92 || c = 0 then [92,hexDigit (c.toNat / 16),hexDigit (c.toNat % 16)] else [c]

def escapeFilterValue (value : Bytes) : Bytes := value.flatMap escapeByte

/-- The loop of `expand`; the number counts the bytes of a placeholder that are still to be passed over. -/
def expandFrom (placeholders : List (Bytes × Bytes)) : Nat → Bytes → Bytes
  | _, [] => []
  | skip + 1, _ :: text => expandFrom placeholders skip text
  | 0, c :: text =>
    match placeholders.find? (·.1.isPrefixOf (c :: text)) with
    | some (name,value) => value ++ expandFrom placeholders (name.length - 1) text
    | none => c :: expandFrom placeholders 0 text

def usernameMark : Bytes := ascii "\x7busername\x7d"

def dnMark : Bytes := ascii "\x7bdn\x7d"

def expand (filter username dn : Bytes) : Bytes :=
  expandFrom [(usernameMark,escapeFilterValue username),(dnMark,escapeFilterValue dn)] 0 filter

def groupFilterFor (groupFilter groupNameAttribute name : Bytes) : Bytes :=
  ascii "(&" ++ groupFilter ++ ascii "(" ++ groupNameAttribute ++ ascii "=" ++ escapeFilterValue name ++ ascii "))"

inductive Piece where
  | text (c : UInt8)
  | username
  | dn
  deriving DecidableEq

/-- A template read once from left to right: a byte is itself if no placeholder begins with it. -/
inductive Scans : Bytes → List Piece → Prop where
  | done : Scans [] []
  | username {rest pieces} : Scans rest pieces → Scans (usernameMark ++ rest) (.username :: pieces)
  | dn {rest pieces} : Scans rest pieces → Scans (dnMark ++ rest) (.dn :: pieces)
  | text {c rest pieces} : ¬ usernameMark <+: c :: rest → ¬ dnMark <+: c :: rest → Scans rest pieces →
      Scans (c :: rest) (.text c :: pieces)

def Piece.fill (username dn : Bytes) : Piece → Bytes
  | .text c => [c]
  | .username => escapeFilterValue username
  | .dn => escapeFilterValue dn

/-- The value that an escaped text stands for. -/
def unescape : Bytes → Option Bytes
  | [] => some []
  | c :: rest =>
    if c = 92 then match rest with
      | high :: low :: rest =>
        match hexValue high, hexValue low, unescape rest with
        | some high, some low, some value => some (UInt8.ofNat (high * 16 + low) :: value)
        | _, _, _ => none
      | _ => none
    else if isStructural c then none
    else (unescape rest).map (c :: ·)

/-- The structural bytes of a filter, without those that are written as an escape. -/
def skeleton : Bytes → Bytes
  | c :: high :: low :: rest =>
    if c = 92 ∧ (hexValue high).isSome ∧ (hexValue low).isSome then skeleton rest
    else if isStructural c then c :: skeleton (high :: low :: rest) else skeleton (high :: low :: rest)
  | c :: rest => if isStructural c then c :: skeleton rest else skeleton rest
  | [] => []

theorem expandFrom_skip (placeholders : List (Bytes × Bytes)) (skipped rest : Bytes) :
    expandFrom placeholders skipped.length (skipped ++ rest) = expandFrom placeholders 0 rest := by
  induction skipped with
  | nil => rfl
  | cons c skipped ih => simpa [expandFrom] using ih

/-- The first placeholder that begins here is passed over, and its value stands in its place. -/
theorem expandFrom_mark {placeholders : List (Bytes × Bytes)} {name rest : Bytes} (value : Bytes) (nonempty : name ≠ [])
    (first : placeholders.find? (·.1.isPrefixOf (name ++ rest)) = some (name,value)) :
    expandFrom placeholders 0 (name ++ rest) = value ++ expandFrom placeholders 0 rest := by
  obtain ⟨c,name,rfl⟩ := List.exists_cons_of_ne_nil nonempty
  rw [List.cons_append] at first ⊢
  simp [expandFrom,first,expandFrom_skip]

theorem Scans.expand {template : Bytes} {pieces : List Piece} (scans : Scans template pieces) (username dn : Bytes) :
    expand template username dn = pieces.flatMap (Piece.fill username dn) := by
  unfold Ldap.expand
  induction scans with
  | done => rfl
  | username _ ih =>
    refine (expandFrom_mark (escapeFilterValue username) (by decide) ?_).trans (by rw [ih]; rfl)
    simp
  | dn _ ih =>
    refine (expandFrom_mark (escapeFilterValue dn) (by decide) ?_).trans (by rw [ih]; rfl)
    simp [usernameMark,dnMark,ascii]
  | @text c rest _ other another _ ih =>
    have none : [(usernameMark,escapeFilterValue username),(dnMark,escapeFilterValue dn)].find?
        (·.1.isPrefixOf (c :: rest)) = none := by simp [other,another]
    rw [expandFrom,none]
    simp [ih,Piece.fill]

theorem exists_scans (template : Bytes) : ∃ pieces, Scans template pieces := by
  induction length : template.length using Nat.strong_induction_on generalizing template with
  | _ n ih =>
    by_cases username : usernameMark <+: template
    · obtain ⟨rest,rfl⟩ := username
      obtain ⟨pieces,scans⟩ := ih rest.length (by simp [← length,usernameMark,ascii]; omega) rest rfl
      exact ⟨_,.username scans⟩
    by_cases dn : dnMark <+: template
    · obtain ⟨rest,rfl⟩ := dn
      obtain ⟨pieces,scans⟩ := ih rest.length (by simp [← length,dnMark,ascii]; omega) rest rfl
      exact ⟨_,.dn scans⟩
    cases template with
    | nil => exact ⟨_,.done⟩
    | cons c rest =>
      obtain ⟨pieces,scans⟩ := ih rest.length (by simp [← length]) rest rfl
      exact ⟨_,.text username dn scans⟩

theorem marks_differ (rest other : Bytes) : usernameMark ++ rest ≠ dnMark ++ other := by
  simp [usernameMark,dnMark,ascii]

theorem Scans.unique {template : Bytes} {one two : List Piece} (first : Scans template one)
    (second : Scans template two) : one = two := by
  induction first generalizing two with
  | done =>
    generalize same : ([] : Bytes) = template at second
    cases second with
    | done => rfl
    | username | dn | text => contradiction
  | @username rest pieces _ ih =>
    generalize same : usernameMark ++ rest = template at second
    cases second with
    | done => contradiction
    | username later => rw [ih (List.append_cancel_left same ▸ later)]
    | dn => exact absurd same (marks_differ _ _)
    | text other => exact absurd ⟨rest,same⟩ other
  | @dn rest pieces _ ih =>
    generalize same : dnMark ++ rest = template at second
    cases second with
    | done => contradiction
    | username => exact absurd same.symm (marks_differ _ _)
    | dn later => rw [ih (List.append_cancel_left same ▸ later)]
    | text _ other => exact absurd ⟨rest,same⟩ other
  | @text c rest pieces notUser notDn _ ih =>
    generalize same : c :: rest = template at second
    cases second with
    | done => contradiction
    | username => exact absurd ⟨_,same.symm⟩ notUser
    | dn => exact absurd ⟨_,same.symm⟩ notDn
    | text _ _ later =>
      cases same
      rw [ih later]

theorem escapeByte_plain (c : UInt8) : ∀ b ∈ escapeByte c, isStructural b = false := by
  intro b member
  simpa using forall_byte_mem (p := fun b => !isStructural b) (by decide +kernel) c b member

theorem escapeFilterValue_plain (value : Bytes) : ∀ c ∈ escapeFilterValue value, isStructural c = false := by
  intro c member
  obtain ⟨b,_,member⟩ := List.mem_flatMap.mp member
  exact escapeByte_plain b c member

theorem unescape_escapeByte (c : UInt8) (rest : Bytes) :
    unescape (escapeByte c ++ rest) = (unescape rest).map (c :: ·) := by
  have high : c.toNat / 16 < 16 := by have := c.toNat_lt; omega
  have low : c.toNat % 16 < 16 := Nat.mod_lt _ (by decide)
  have same : c.toNat / 16 * 16 + c.toNat % 16 = c.toNat := by omega
  have plain := escapeByte_plain c
  unfold escapeByte at plain ⊢
  split
  · simp only [List.cons_append,List.nil_append,unescape,hexValue_hexDigit high,hexValue_hexDigit low,if_true]
    cases unescape rest with
    | none => rfl
    | some value => simp [same]
  · rename_i usual
    rw [if_neg usual] at plain
    have other : c ≠ 92 := by
      rintro rfl
      exact usual rfl
    rw [List.singleton_append,unescape.eq_def]
    simp [other,plain c (by simp)]

theorem unescape_escapeFilterValue (value : Bytes) : unescape (escapeFilterValue value) = some value := by
  induction value with
  | nil => rfl
  | cons c value ih =>
    rw [escapeFilterValue,List.flatMap_cons,unescape_escapeByte,← escapeFilterValue,ih]
    rfl

theorem isStructural_hex {b : UInt8} (hex : (hexValue b).isSome) : isStructural b = false := by
  revert hex
  exact forall_byte (p := fun b => (hexValue b).isSome → isStructural b = false) (by decide +kernel) b

/-- No byte of an escape is a structural one. -/
theorem skeleton_eq (text : Bytes) : skeleton text = text.filter isStructural := by
  fun_induction skeleton text with
  | case1 c high low rest escape ih =>
    obtain ⟨rfl,first,second⟩ := escape
    have slash : isStructural 92 = false := by decide
    simp [ih,slash,isStructural_hex first,isStructural_hex second]
  | case2 c high low rest _ special ih => rw [List.filter_cons_of_pos special,ih]
  | case3 c high low rest _ special ih => rw [List.filter_cons_of_neg special,ih]
  | case4 c rest _ special ih => rw [List.filter_cons_of_pos special,ih]
  | case5 c rest _ special ih => rw [List.filter_cons_of_neg special,ih]
  | case6 => rfl

theorem filter_escapeFilterValue (value : Bytes) : (escapeFilterValue value).filter isStructural = [] :=
  List.filter_eq_nil_iff.mpr fun c member => by simp [escapeFilterValue_plain value c member]

theorem filter_fill (piece : Piece) (username dn username' dn' : Bytes) :
    (piece.fill username dn).filter isStructural = (piece.fill username' dn').filter isStructural := by
  cases piece with
  | text c => rfl
  | username => rw [Piece.fill,Piece.fill,filter_escapeFilterValue,filter_escapeFilterValue]
  | dn => rw [Piece.fill,Piece.fill,filter_escapeFilterValue,filter_escapeFilterValue]

theorem expand_skeleton (template username dn username' dn' : Bytes) :
    skeleton (expand template username dn) = skeleton (expand template username' dn') := by
  obtain ⟨pieces,scans⟩ := exists_scans template
  rw [scans.expand,scans.expand,skeleton_eq,skeleton_eq,List.filter_flatMap,List.filter_flatMap]
  congr 1
  funext piece
  exact filter_fill piece username dn username' dn'

theorem groupFilterFor_skeleton (groupFilter groupNameAttribute name name' : Bytes) :
    skeleton (groupFilterFor groupFilter groupNameAttribute name) =
      skeleton (groupFilterFor groupFilter groupNameAttribute name') := by
  simp only [skeleton_eq,groupFilterFor,List.filter_append,filter_escapeFilterValue]

end Ldap

/-- The names go into a filter at the placeholders of the template and nowhere else, escaped so that they are
read back as they were typed, and leave the structure of the filter as it is. -/
theorem filters_not_injected :
    (∀ template, ∃ pieces, (∀ other, Ldap.Scans template other ↔ other = pieces) ∧ ∀ username dn,
      Ldap.expand template username dn = pieces.flatMap (Ldap.Piece.fill username dn)) ∧
    (∀ value, (42 ∉ Ldap.escapeFilterValue value ∧ 40 ∉ Ldap.escapeFilterValue value ∧
      41 ∉ Ldap.escapeFilterValue value ∧ 0 ∉ Ldap.escapeFilterValue value) ∧
      Ldap.unescape (Ldap.escapeFilterValue value) = some value) ∧
    (∀ template username dn username' dn',
      Ldap.skeleton (Ldap.expand template username dn) = Ldap.skeleton (Ldap.expand template username' dn')) ∧
    ∀ groupFilter groupNameAttribute name name',
      Ldap.skeleton (Ldap.groupFilterFor groupFilter groupNameAttribute name) =
        Ldap.skeleton (Ldap.groupFilterFor groupFilter groupNameAttribute name') := by
  refine ⟨fun template => ?_,fun value => ⟨?_,Ldap.unescape_escapeFilterValue value⟩,Ldap.expand_skeleton,
    Ldap.groupFilterFor_skeleton⟩
  · obtain ⟨pieces,scans⟩ := Ldap.exists_scans template
    refine ⟨pieces,fun other => ⟨fun another => another.unique scans,fun same => same ▸ scans⟩,scans.expand⟩
  · have plain := Ldap.escapeFilterValue_plain value
    refine ⟨fun star => ?_,fun left => ?_,fun right => ?_,fun zero => ?_⟩
    · exact absurd (plain _ star) (by decide)
    · exact absurd (plain _ left) (by decide)
    · exact absurd (plain _ right) (by decide)
    · exact absurd (plain _ zero) (by decide)

end Confide
