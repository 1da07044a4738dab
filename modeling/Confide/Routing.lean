import Confide.Router

/-! The route table leaves no choice: whatever the target, at most one route of a method matches it, the first
decoded segment decides who may call it, and the kind of failure says which patterns match. -/
namespace Confide

open Bytes

/-- Each percent sign is followed by two hexadecimal digits. -/
def WellFormedEscapes (text : Bytes) : Prop :=
  ∀ before after, text = before ++ 37 :: after →
    ∃ high low rest, after = high :: low :: rest ∧ hexValue high ≠ none ∧ hexValue low ≠ none

def EncodesNul (text : Bytes) : Prop := [37,48,48] <:+: text

def Piece (piece text : Bytes) : Prop :=
  ∃ before after, text = before ++ piece ++ after ∧ ∀ b ∈ after.head?, hexValue b = none

theorem Piece.refl (text : Bytes) : Piece text text := ⟨[],[],by simp,nofun⟩

theorem Piece.trans {c b a : Bytes} (inner : Piece c b) (outer : Piece b a) : Piece c a := by
  obtain ⟨u,v,rfl,ends⟩ := inner
  obtain ⟨u',v',rfl,ends'⟩ := outer
  refine ⟨u' ++ u,v ++ v',by simp,?_⟩
  cases v with
  | nil => exact ends'
  | cons b v => exact ends

theorem Piece.tail (b : UInt8) (text : Bytes) : Piece text (b :: text) := ⟨[b],[],by simp,nofun⟩

theorem Piece.split (sep : UInt8) (stops : hexValue sep = none) (text : Bytes) :
    ∀ piece ∈ text.splitOn sep, Piece piece text := by
  have joined : [sep].intercalate (text.splitOn sep) = text := List.intercalate_splitOn sep
  generalize text.splitOn sep = pieces at joined
  induction pieces generalizing text with
  | nil => nofun
  | cons first rest ih =>
    intro piece member
    cases rest with
    | nil =>
      obtain rfl := List.mem_singleton.mp member
      rw [List.intercalate_singleton] at joined
      exact joined ▸ Piece.refl _
    | cons second rest =>
      rw [List.intercalate_cons_cons] at joined
      rcases List.mem_cons.mp member with rfl | member
      · exact ⟨[],[sep] ++ [sep].intercalate (second :: rest),by simpa using joined.symm,by simpa using stops⟩
      · exact (ih _ rfl piece member).trans ⟨first ++ [sep],[],by simpa using joined.symm,nofun⟩

variable {part text : Bytes}

theorem WellFormedEscapes.piece (fine : WellFormedEscapes text) (inside : Piece part text) :
    WellFormedEscapes part := by
  obtain ⟨u,v,rfl,ends⟩ := inside
  rintro before after rfl
  obtain ⟨high,low,rest,split,isHigh,isLow⟩ := fine (u ++ before) (after ++ v) (by simp)
  cases after with
  | nil =>
    obtain rfl : v = high :: low :: rest := split
    exact absurd (ends high rfl) isHigh
  | cons b after =>
    obtain ⟨rfl,more⟩ := List.cons.inj split
    cases after with
    | nil =>
      obtain rfl : v = low :: rest := more
      exact absurd (ends low rfl) isLow
    | cons c after =>
      obtain ⟨rfl,_⟩ := List.cons.inj more
      exact ⟨b,c,after,rfl,isHigh,isLow⟩

theorem EncodesNul.piece (nul : EncodesNul part) (inside : Piece part text) : EncodesNul text := by
  obtain ⟨u,v,rfl,_⟩ := inside
  exact nul.trans ⟨u,v,rfl⟩

theorem hexValue_zero {b : UInt8} (zero : hexValue b = some 0) : b = 48 := by
  unfold hexValue at zero
  simp only [UInt8.le_iff_toNat_le] at zero
  have h97 : (97 : UInt8).toNat = 97 := rfl
  have h65 : (65 : UInt8).toNat = 65 := rfl
  split at zero
  · rename_i bounds
    have low : b.toNat - 48 = 0 := Option.some.inj zero
    exact UInt8.toNat_inj.mp (le_antisymm (Nat.sub_eq_zero_iff_le.mp low) bounds.1)
  · split at zero
    · have := Option.some.inj zero; omega
    · split at zero
      · have := Option.some.inj zero; omega
      · contradiction

theorem urlDecode_isOk (text : Bytes) (fine : WellFormedEscapes text) (noNul : ¬ EncodesNul text) :
    ∃ out, urlDecode text = .ok out := by
  fun_induction urlDecode text with
  | case1 => exact ⟨[],rfl⟩
  | case2 c text plain ih =>
    have inside := Piece.tail c text
    obtain ⟨out,decoded⟩ := ih (fine.piece inside) fun nul => noNul (nul.piece inside)
    exact ⟨c :: out,by rw [decoded]; rfl⟩
  | case3 c percent high low text h l isHigh isLow zero =>
    obtain rfl := not_not.mp percent
    exfalso
    apply noNul
    obtain ⟨rfl,rfl⟩ : h = 0 ∧ l = 0 := by omega
    obtain rfl := hexValue_zero isHigh
    obtain rfl := hexValue_zero isLow
    exact ⟨[],text,rfl⟩
  | case4 c percent high low text h l isHigh isLow nonzero ih =>
    have inside : Piece text (c :: high :: low :: text) :=
      (Piece.tail low text).trans ((Piece.tail high _).trans (Piece.tail c _))
    obtain ⟨out,decoded⟩ := ih (fine.piece inside) fun nul => noNul (nul.piece inside)
    exact ⟨_,by rw [decoded]; rfl⟩
  | case5 c percent high low text bad =>
    obtain rfl := not_not.mp percent
    obtain ⟨_,_,_,split,isHigh,isLow⟩ := fine [] _ rfl
    obtain ⟨rfl,rfl,rfl⟩ : _ ∧ _ ∧ _ := by simpa using split
    obtain ⟨h,isHigh⟩ := Option.ne_none_iff_exists'.mp isHigh
    obtain ⟨l,isLow⟩ := Option.ne_none_iff_exists'.mp isLow
    exact absurd isLow (bad h l isHigh)
  | case6 c text percent short =>
    obtain rfl := not_not.mp percent
    obtain ⟨high,low,rest,rfl,_⟩ := fine [] _ rfl
    exact absurd rfl (short high low rest)

theorem decodePath_isOk (target : Bytes) (fine : WellFormedEscapes (pathOf target)) (noNul : ¬ EncodesNul (pathOf target)) :
    ∃ segments, decodePath target = .ok segments := by
  apply mapM_isOk
  intro part member
  have inside : Piece part (pathOf target) := by
    unfold splitPath at member
    split at member
    · contradiction
    · have dropped : Piece ((pathOf target).drop 1) (pathOf target) :=
        ⟨(pathOf target).take 1,[],by rw [List.take_append_drop,List.append_nil],nofun⟩
      exact (Piece.split 47 rfl _ part member).trans dropped
  exact urlDecode_isOk part (fine.piece inside) fun nul => noNul (nul.piece inside)

/-- What is wrong with an escape is always reported in the same way. -/
theorem urlDecode_error {e : Error} (refused : urlDecode text = .error e) : e.code = .validation := by
  fun_induction urlDecode text with
  | case1 => contradiction
  | case2 c text plain ih | case4 c percent high low text h l isHigh isLow nonzero ih =>
    cases rest : urlDecode text with
    | ok out =>
      rw [rest] at refused
      contradiction
    | error e' =>
      rw [rest] at refused
      cases refused
      exact ih rest
  | case3 | case5 | case6 =>
    cases refused
    rfl

theorem parsePairs_error {pairs : List Bytes} {out : Params} {e : Error} (refused : parsePairs pairs out = .error e) :
    e.code = .validation := by
  induction pairs generalizing out with
  | nil => contradiction
  | cons pair pairs ih =>
    rw [parsePairs] at refused
    split at refused
    · exact ih refused
    · cases key : urlDecode (pair.takeWhile (· ≠ 61)) with
      | error e' =>
        rw [key] at refused
        cases refused
        exact urlDecode_error key
      | ok name =>
        cases value : urlDecode ((pair.dropWhile (· ≠ 61)).drop 1) with
        | error e' =>
          rw [key,value] at refused
          cases refused
          exact urlDecode_error value
        | ok text =>
          rw [key,value] at refused
          exact ih refused

def Entry.fits (entry : Entry) (segments : List Bytes) : Bool := (matchSegments entry.segments segments ∅).isSome

variable {method : Verb} {segments : List Bytes}

theorem matchEntries_unfit {query : Bytes} (entries : List Entry) (pathMatched : Bool)
    (unfit : ∀ entry ∈ entries, entry.fits segments = true → entry.route.method ≠ method) :
    matchEntries method segments query entries pathMatched =
      if pathMatched || entries.any (·.fits segments) then fail .conflict (ascii "method not allowed")
      else fail .notfound (ascii "no such endpoint") := by
  induction entries generalizing pathMatched with
  | nil => simp [matchEntries]
  | cons entry entries ih =>
    have later := fun matched => ih matched fun entry member => unfit entry (List.mem_cons_of_mem _ member)
    have here := unfit entry (List.mem_cons_self ..)
    simp only [matchEntries,List.any_cons]
    rcases Option.eq_none_or_eq_some (matchSegments entry.segments segments ∅) with unmatched | ⟨params,matched⟩
    · have fits : entry.fits segments = false := by rw [Entry.fits,unmatched]; rfl
      simp [unmatched,fits,later]
    · have fits : entry.fits segments = true := by rw [Entry.fits,matched]; rfl
      simp [matched,fits,later,here fits]

theorem matchEntries_fit {query : Bytes} (entries : List Entry) (pathMatched : Bool)
    (entry : Entry) (member : entry ∈ entries) (params : Params) (fits : matchSegments entry.segments segments ∅ = some params)
    (right : entry.route.method = method)
    (only : ∀ other ∈ entries, other.fits segments = true → other.route.method = method → other = entry) :
    matchEntries method segments query entries pathMatched =
      (parseQuery query).map fun query => ⟨entry.route,params,query⟩ := by
  induction entries generalizing pathMatched with
  | nil => contradiction
  | cons first entries ih =>
    have later := fun matched member => ih matched member fun other member => only other (List.mem_cons_of_mem _ member)
    have here := only first (List.mem_cons_self ..)
    simp only [matchEntries]
    by_cases same : first = entry
    · subst same
      rw [fits]
      simp only [right,ne_eq,not_true_eq_false,↓reduceIte]
      cases parseQuery query <;> rfl
    · have inRest : entry ∈ entries := (List.mem_cons.mp member).resolve_left fun h => same h.symm
      simp only [Entry.fits] at here
      generalize matchSegments first.segments segments ∅ = captured at here
      cases captured with
      | none => exact later _ inRest
      | some captured =>
        have other : first.route.method ≠ method := fun h => same (here rfl h)
        simp only [ne_eq,other,not_false_eq_true,↓reduceIte]
        exact later _ inRest

/-- Whether some path can match both patterns, as far as the kinds of their segments tell. -/
def overlaps : List Segment → List Segment → Bool
  | [], [] => true
  | a :: p, b :: q => (a.isRest || b.isRest) || ((a.isParam || b.isParam || a.text == b.text) && overlaps p q)
  | _, _ => false

theorem matchSegments_cons {seg : Segment} {pattern : List Segment} {path : List Bytes} {out : Params}
    (fits : (matchSegments (seg :: pattern) (part :: path) out).isSome = true) :
    seg.isRest = true ∨ (seg.isParam = true ∨ seg.text = part) ∧ ∃ out, (matchSegments pattern path out).isSome = true := by
  simp only [matchSegments] at fits
  split at fits
  · contradiction
  split at fits
  · rename_i rest
    exact .inl rest
  split at fits
  · rename_i param
    exact .inr ⟨.inl param,_,fits⟩
  split at fits
  · contradiction
  · rename_i same
    exact .inr ⟨.inr (not_not.mp same),_,fits⟩

theorem overlaps_of_matches (p q : List Segment) (path : List Bytes) (out out' : Params)
    (left : (matchSegments p path out).isSome = true) (right : (matchSegments q path out').isSome = true) :
    overlaps p q = true := by
  induction path generalizing p q out out' with
  | nil => cases p <;> cases q <;> simp_all [matchSegments,overlaps]
  | cons part path ih =>
    cases p with
    | nil => simp [matchSegments] at left
    | cons a p =>
      cases q with
      | nil => simp [matchSegments] at right
      | cons b q =>
        simp only [overlaps,Bool.or_eq_true,Bool.and_eq_true,beq_iff_eq]
        rcases matchSegments_cons left with rest | ⟨kind,_,left⟩
        · exact .inl (.inl rest)
        rcases matchSegments_cons right with rest | ⟨kind',_,right⟩
        · exact .inl (.inr rest)
        refine .inr ⟨?_,ih _ _ _ _ left right⟩
        rcases kind with param | rfl
        · exact .inl (.inl param)
        · rcases kind' with param | same
          · exact .inl (.inr param)
          · exact .inr same.symm

def Access.Suits (access : Access) (first : Bytes) : Prop :=
  (access = .peer ↔ first = ascii "internal") ∧ (access = .admin ∨ access = .adminPassword ↔ first = ascii "admin") ∧
    (access = .user ∨ access = .password ↔ first ≠ ascii "internal" ∧ first ≠ ascii "admin")

instance (access : Access) (first : Bytes) : Decidable (access.Suits first) :=
  inferInstanceAs (Decidable (_ ∧ _ ∧ _))

/-- The pattern starts with a literal, and the access is the one for it. -/
def Entry.Placed (entry : Entry) : Prop :=
  ∃ seg ∈ entry.segments.head?, seg.isParam = false ∧ seg.isRest = false ∧ entry.route.access.Suits seg.text

instance (entry : Entry) : Decidable entry.Placed := inferInstanceAs (Decidable (∃ seg ∈ entry.segments.head?, _))

structure Router.Sound (router : Router) : Prop where
  apart : ∀ a ∈ router.entries, ∀ b ∈ router.entries, a.route.method = b.route.method →
    overlaps a.segments b.segments = true → a = b
  placed : ∀ entry ∈ router.entries, entry.Placed

instance (router : Router) : Decidable router.Sound :=
  decidable_of_iff (_ ∧ _) ⟨fun ⟨apart,placed⟩ => Router.Sound.mk apart placed,fun sound => ⟨sound.apart,sound.placed⟩⟩

/-- There are two tables, with the admin routes and without. -/
theorem serveRoutes_cases {holds : Router → Prop}
    (both : ∀ group ∈ [[],[0]], ∃ router ∈ (serveRoutes group).toOption, holds router) (adminGroup : Bytes) :
    ∃ router, serveRoutes adminGroup = .ok router ∧ holds router := by
  obtain ⟨group,listed,same⟩ : ∃ group ∈ [[],[0]], serveRoutes adminGroup = serveRoutes group := by
    by_cases none : adminGroup = [] <;> simp [serveRoutes,none]
  obtain ⟨router,found,checked⟩ := both group listed
  refine ⟨router,?_,checked⟩
  rw [same]
  cases table : serveRoutes group with
  | error e =>
    rw [table] at found
    cases found
  | ok other =>
    rw [table] at found
    exact congrArg _ (Option.some.inj found)

theorem serveRoutes_sound (adminGroup : Bytes) : ∃ router, serveRoutes adminGroup = .ok router ∧ router.Sound :=
  serveRoutes_cases (by decide +kernel) adminGroup

/-- Entries of one method that fit the same path are one. -/
def OneFits (entries : List Entry) (method : Verb) (segments : List Bytes) : Prop :=
  ∀ a ∈ entries, ∀ b ∈ entries, a.route.method = method → b.route.method = method →
    a.fits segments = true → b.fits segments = true → a = b

variable {router : Router}

theorem Router.Sound.oneFits (sound : router.Sound) (method : Verb) (segments : List Bytes) :
    OneFits router.entries method segments := by
  intro a inA b inB methodA methodB fitsA fitsB
  exact sound.apart a inA b inB (methodA.trans methodB.symm) (overlaps_of_matches _ _ segments ∅ ∅ fitsA fitsB)

variable {entries : List Entry}

/-- The loop's result, whatever the order of the entries. -/
theorem OneFits.matchEntries (one : OneFits entries method segments) (query : Bytes) :
    (∃ entry ∈ entries, ∃ params, entry.route.method = method ∧ matchSegments entry.segments segments ∅ = some params ∧
      Confide.matchEntries method segments query entries false = (parseQuery query).map fun query =>
        ⟨entry.route,params,query⟩) ∨
    (∀ entry ∈ entries, entry.fits segments = true → entry.route.method ≠ method) ∧
      Confide.matchEntries method segments query entries false =
        if entries.any (·.fits segments) then fail .conflict (ascii "method not allowed")
        else fail .notfound (ascii "no such endpoint") := by
  by_cases found : ∃ entry ∈ entries, entry.fits segments = true ∧ entry.route.method = method
  · obtain ⟨entry,member,fits,right⟩ := found
    obtain ⟨params,captured⟩ := Option.isSome_iff_exists.mp fits
    refine .inl ⟨entry,member,params,right,captured,?_⟩
    exact matchEntries_fit entries false entry member params captured right fun other inside fitsToo rightToo =>
      one other inside entry member rightToo right fitsToo fits
  · have unfit : ∀ entry ∈ entries, entry.fits segments = true → entry.route.method ≠ method :=
      fun entry member fits right => found ⟨entry,member,fits,right⟩
    exact .inr ⟨unfit,by simpa using matchEntries_unfit entries false unfit⟩

theorem OneFits.matchEntries_perm {entries' : List Entry} (one : OneFits entries method segments)
    (same : entries'.Perm entries) (query : Bytes) :
    Confide.matchEntries method segments query entries' false = Confide.matchEntries method segments query entries false := by
  rcases one.matchEntries query with ⟨entry,member,params,right,captured,result⟩ | ⟨unfit,result⟩
  · rw [result]
    exact matchEntries_fit entries' false entry (same.mem_iff.mpr member) params captured right
      fun other inside fits rightToo => one other (same.mem_iff.mp inside) entry member rightToo right fits
        (by rw [Entry.fits,captured]; rfl)
  · rw [result,matchEntries_unfit entries' false fun entry member => unfit entry (same.mem_iff.mp member),same.any_eq]
    simp

theorem Entry.Placed.suits {entry : Entry} (placed : entry.Placed)
    (fits : entry.fits segments = true) : ∃ first rest, segments = first :: rest ∧ entry.route.access.Suits first := by
  obtain ⟨seg,head,literal,single,suits⟩ := placed
  obtain ⟨pattern,split⟩ := List.head?_eq_some_iff.mp head
  rw [Entry.fits,split] at fits
  cases segments with
  | nil => contradiction
  | cons first rest =>
    rcases matchSegments_cons fits with isRest | ⟨isParam | same,_⟩
    · rw [single] at isRest; contradiction
    · rw [literal] at isParam; contradiction
    · exact ⟨first,rest,rfl,same ▸ suits⟩

theorem Router.Sound.order_free (sound : router.Sound) (method : Verb) (target : Bytes)
    (same : entries.Perm router.entries) :
    Router.matchTarget ⟨entries⟩ method target = router.matchTarget method target := by
  unfold Router.matchTarget
  split
  · rfl
  · cases decodePath target with
    | error e => rfl
    | ok segments => exact (sound.oneFits method segments).matchEntries_perm same _

theorem Router.Sound.access (sound : router.Sound) {found : Match}
    (matched : router.matchTarget method target = .ok found) :
    ∃ first rest, decodePath target = .ok (first :: rest) ∧ found.route.access.Suits first := by
  unfold Router.matchTarget at matched
  split at matched
  · contradiction
  obtain ⟨segments,decoded,matched⟩ := bind_eq_ok.mp matched
  rcases (sound.oneFits method segments).matchEntries (queryOf target) with
    ⟨entry,member,params,_,captured,result⟩ | ⟨_,result⟩
  · have fits : entry.fits segments = true := by rw [Entry.fits,captured]; rfl
    obtain ⟨first,rest,rfl,suits⟩ := (sound.placed entry member).suits fits
    refine ⟨first,rest,decoded,?_⟩
    rw [result] at matched
    cases parsed : parseQuery (queryOf target) with
    | error e => rw [parsed] at matched; contradiction
    | ok query =>
      rw [parsed] at matched
      cases matched
      exact suits
  · rw [result] at matched
    split at matched <;> contradiction

theorem matchTarget_decoded (slash : target.head? = some 47) (decoded : decodePath target = .ok segments) :
    router.matchTarget method target = matchEntries method segments (queryOf target) router.entries false := by
  obtain ⟨rest,rfl⟩ := List.head?_eq_some_iff.mp slash
  simp [Router.matchTarget,pathOf,decoded]

/-- Without an error in the path the kind of a refusal tells the two cases apart, whatever the query. -/
theorem Router.Sound.refusal (sound : router.Sound) (method : Verb) (slash : target.head? = some 47)
    (decoded : decodePath target = .ok segments) :
    ((∃ detail, router.matchTarget method target = .error ⟨.conflict,detail⟩) ↔
      (∃ entry ∈ router.entries, entry.fits segments = true) ∧
        ∀ entry ∈ router.entries, entry.fits segments = true → entry.route.method ≠ method) ∧
    ((∃ detail, router.matchTarget method target = .error ⟨.notfound,detail⟩) ↔
      ∀ entry ∈ router.entries, entry.fits segments = false) := by
  rw [matchTarget_decoded slash decoded]
  rcases (sound.oneFits method segments).matchEntries (queryOf target) with
    ⟨entry,member,params,right,captured,result⟩ | ⟨unfit,result⟩
  · have fits : entry.fits segments = true := by rw [Entry.fits,captured]; rfl
    have answered : ∀ e, matchEntries method segments (queryOf target) router.entries false = .error e →
        e.code = .validation := by
      intro e refused
      rw [result] at refused
      cases parsed : parseQuery (queryOf target) with
      | ok query =>
        rw [parsed] at refused
        contradiction
      | error e' =>
        rw [parsed] at refused
        cases refused
        exact parsePairs_error parsed
    constructor
    · exact ⟨fun ⟨_,refused⟩ => absurd (answered _ refused) ErrCode.noConfusion,
        fun ⟨_,unfit⟩ => absurd right (unfit entry member fits)⟩
    · refine ⟨fun ⟨_,refused⟩ => absurd (answered _ refused) ErrCode.noConfusion,fun none => ?_⟩
      rw [none entry member] at fits
      contradiction
  · rw [result]
    by_cases some : ∃ entry ∈ router.entries, entry.fits segments = true
    · rw [if_pos (List.any_eq_true.mpr some)]
      obtain ⟨entry,member,fits⟩ := some
      constructor
      · exact ⟨fun _ => ⟨⟨entry,member,fits⟩,unfit⟩,fun _ => ⟨_,rfl⟩⟩
      · refine ⟨fun ⟨_,other⟩ => (nomatch other),fun none => ?_⟩
        rw [none entry member] at fits
        contradiction
    · rw [if_neg (fun any => some (List.any_eq_true.mp any))]
      constructor
      · exact ⟨fun ⟨_,other⟩ => (nomatch other),fun ⟨fits,_⟩ => absurd fits some⟩
      · exact ⟨fun _ entry member => Bool.eq_false_iff.mpr fun fits => some ⟨entry,member,fits⟩,fun _ => ⟨_,rfl⟩⟩

/-- With an admin group or without: the routes are all registered; a target matches at most one of a method, so
their order does not matter; a match has the access for the first decoded segment; and if every escape of the path is
well formed and none of them is a NUL, a refusal says whether some pattern matches. -/
theorem routing_keeps_access (adminGroup : Bytes) :
    ∃ router, serveRoutes adminGroup = .ok router ∧ ∀ (method : Verb) (target : Bytes),
      (∀ segments, decodePath target = .ok segments → OneFits router.entries method segments) ∧
      (∀ entries : List Entry, entries.Perm router.entries →
        Router.matchTarget ⟨entries⟩ method target = router.matchTarget method target) ∧
      (∀ found, router.matchTarget method target = .ok found →
        ∃ first rest, decodePath target = .ok (first :: rest) ∧ found.route.access.Suits first) ∧
      (target.head? = some 47 → WellFormedEscapes (pathOf target) → ¬ EncodesNul (pathOf target) →
        ∃ segments, decodePath target = .ok segments ∧
          ((∃ detail, router.matchTarget method target = .error ⟨.conflict,detail⟩) ↔
            (∃ entry ∈ router.entries, entry.fits segments = true) ∧
              ∀ entry ∈ router.entries, entry.fits segments = true → entry.route.method ≠ method) ∧
          ((∃ detail, router.matchTarget method target = .error ⟨.notfound,detail⟩) ↔
            ∀ entry ∈ router.entries, entry.fits segments = false)) := by
  obtain ⟨router,registered,sound⟩ := serveRoutes_sound adminGroup
  refine ⟨router,registered,fun method target => ⟨fun segments _ => sound.oneFits method segments,
    fun entries same => sound.order_free method target same,fun found matched => sound.access matched,?_⟩⟩
  intro slash fine noNul
  obtain ⟨segments,decoded⟩ := decodePath_isOk target fine noNul
  exact ⟨segments,decoded,sound.refusal method slash decoded⟩

/-- The escape of a NUL is well formed, yet it is refused before any pattern is tried. -/
theorem nul_escape_is_invalid : ∃ router, serveRoutes (ascii "admins") = .ok router ∧ WellFormedEscapes (ascii "/%00") ∧
      (∀ entry ∈ router.entries, entry.fits [[0]] = false) ∧
      (router.matchTarget .get (ascii "/%00")).map (·.route) = .error ⟨.validation,ascii "encoded NUL"⟩ := by
  obtain ⟨router,registered,_⟩ := serveRoutes_sound (ascii "admins")
  have checked : ∀ router ∈ (serveRoutes (ascii "admins")).toOption, (∀ entry ∈ router.entries, entry.fits [[0]] = false) ∧
      (router.matchTarget .get (ascii "/%00")).map (·.route) = .error ⟨.validation,ascii "encoded NUL"⟩ := by
    decide +kernel
  refine ⟨router,registered,?_,checked router (by rw [registered]; rfl)⟩
  intro before after split
  change [47,37,48,48] = before ++ 37 :: after at split
  match before, split with
  | [_], split =>
    obtain ⟨_,rfl⟩ : _ ∧ [48,48] = after := by simpa using split
    exact ⟨48,48,[],rfl,by decide,by decide⟩
  | [], split | [_,_], split | [_,_,_], split | _ :: _ :: _ :: _ :: _, split => simp at split

end Confide
