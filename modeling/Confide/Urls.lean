import Confide.Routing

/-! The targets the clients build are read back by the router: what the encoder escapes is what the decoder
unescapes, and the separators survive on both sides. -/
namespace Confide

open Bytes

def upperHexDigit (n : Nat) : UInt8 := UInt8.ofNat (if n < 10 then 48 + n else 55 + n)

/-- Letters, digits, and the marks - . _ ~ and / are kept. -/
def isKept (u : UInt8) : Bool :=
  (97 ≤ u && u ≤ 122) || (65 ≤ u && u ≤ 90) || (48 ≤ u && u ≤ 57) || u == 45 || u == 46 || u == 95 || u == 126 || u == 47

def urlEncodeByte (u : UInt8) : Bytes :=
  if isKept u then [u] else [37,upperHexDigit (u.toNat / 16),upperHexDigit (u.toNat % 16)]

def urlEncodePath (path : Bytes) : Bytes := path.flatMap urlEncodeByte

/-- Pairs with an empty value are left out; the keys are not encoded. -/
def query (pairs : List (Bytes × Bytes)) : Bytes :=
  pairs.foldl (fun out (key,value) =>
    if value = [] then out else out ++ [if out = [] then 63 else 38] ++ key ++ [61] ++ urlEncodePath value) []

/-- Where the client of a user and the forwarder of a peer find a file. -/
def userFile (id : TransactionId) (path : RelativePath) : Bytes :=
  ascii "/transactions/" ++ id.value ++ ascii "/files/" ++ urlEncodePath path.value

def peerFile (id : TransactionId) (path : RelativePath) : Bytes :=
  ascii "/internal/transactions/" ++ id.value ++ ascii "/files/" ++ urlEncodePath path.value

theorem takeWhile_avoids {sep : UInt8} {text : Bytes} (avoids : sep ∉ text) (rest : Bytes) :
    (text ++ rest).takeWhile (· ≠ sep) = text ++ rest.takeWhile (· ≠ sep) :=
  List.takeWhile_append_of_pos fun _ member => decide_eq_true fun same => avoids (same ▸ member)

theorem dropWhile_avoids {sep : UInt8} {text : Bytes} (avoids : sep ∉ text) (rest : Bytes) :
    (text ++ rest).dropWhile (· ≠ sep) = rest.dropWhile (· ≠ sep) :=
  List.dropWhile_append_of_pos fun _ member => decide_eq_true fun same => avoids (same ▸ member)

theorem pathOf_plain (plain : 63 ∉ path) : pathOf path = path := by
  simpa [pathOf] using takeWhile_avoids plain []

theorem queryOf_plain (plain : 63 ∉ path) : queryOf path = [] := by
  simpa [queryOf] using congrArg (List.drop 1) (dropWhile_avoids plain [])

theorem queryOf_append (plain : 63 ∉ path) (text : Bytes) : queryOf (path ++ 63 :: text) = text := by
  rw [queryOf,dropWhile_avoids plain]
  rfl

theorem hexValue_upperHexDigit (h : n < 16) : hexValue (upperHexDigit n) = some n := by
  revert n
  decide

theorem isKept_ne (u : UInt8) (kept : isKept u = true) : u ≠ 37 ∧ u ≠ 38 ∧ u ≠ 61 ∧ u ≠ 63 := by
  revert u
  exact forall_byte (by decide +kernel)

theorem urlEncodeByte_avoids (u : UInt8) : 38 ∉ urlEncodeByte u ∧ 61 ∉ urlEncodeByte u ∧ 63 ∉ urlEncodeByte u ∧
    (u ≠ 47 → 47 ∉ urlEncodeByte u) := by
  revert u
  exact forall_byte (by decide +kernel)

theorem urlDecode_cons_plain (plain : u ≠ 37) (text : Bytes) : urlDecode (u :: text) = (u :: ·) <$> urlDecode text := by
  rw [urlDecode.eq_def]
  simp only [ne_eq,plain,not_false_eq_true,↓reduceIte]
  cases urlDecode text <;> rfl

theorem urlDecode_encodeByte (u : UInt8) (nonzero : u ≠ 0) (text : Bytes) :
    urlDecode (urlEncodeByte u ++ text) = (u :: ·) <$> urlDecode text := by
  unfold urlEncodeByte
  split
  · rename_i kept
    exact urlDecode_cons_plain (isKept_ne u kept).1 text
  · have bound : u.toNat < 256 := u.toNat_lt
    have high := hexValue_upperHexDigit (n := u.toNat / 16) (by omega)
    have low := hexValue_upperHexDigit (n := u.toNat % 16) (by omega)
    have whole : u.toNat / 16 * 16 + u.toNat % 16 = u.toNat := by omega
    have positive : u.toNat ≠ 0 := fun zero => nonzero (UInt8.toNat_inj.mp zero)
    simp only [List.cons_append,List.nil_append,urlDecode,ne_eq,not_true_eq_false,↓reduceIte,high,low,whole,positive,
      UInt8.ofNat_toNat]
    cases urlDecode text <;> rfl

/-- What is encoded is decoded to itself, unless it holds a NUL. -/
theorem urlDecode_encodePath (text : Bytes) (noNul : 0 ∉ text) : urlDecode (urlEncodePath text) = .ok text := by
  induction text with
  | nil => rfl
  | cons u text ih =>
    obtain ⟨nonzero,later⟩ := not_or.mp (mt List.mem_cons.mpr noNul)
    rw [urlEncodePath,List.flatMap_cons,urlDecode_encodeByte u (Ne.symm nonzero)]
    rw [urlEncodePath] at ih
    rw [ih later]
    rfl

theorem urlDecode_plain (text : Bytes) (plain : 37 ∉ text) : urlDecode text = .ok text := by
  induction text with
  | nil => rfl
  | cons u text ih =>
    obtain ⟨notPercent,later⟩ := not_or.mp (mt List.mem_cons.mpr plain)
    rw [urlDecode_cons_plain (Ne.symm notPercent),ih later]
    rfl

theorem urlEncodePath_kept (text : Bytes) (kept : ∀ u ∈ text, isKept u = true) : urlEncodePath text = text := by
  induction text with
  | nil => rfl
  | cons u text ih =>
    rw [urlEncodePath,List.flatMap_cons,urlEncodeByte,if_pos (kept u (List.mem_cons_self ..))]
    exact congrArg _ (ih fun u member => kept u (List.mem_cons_of_mem _ member))

theorem urlEncodePath_avoids (text : Bytes) : 38 ∉ urlEncodePath text ∧ 61 ∉ urlEncodePath text ∧ 63 ∉ urlEncodePath text ∧
    (47 ∉ text → 47 ∉ urlEncodePath text) := by
  simp only [urlEncodePath,List.mem_flatMap,not_exists,not_and]
  refine ⟨fun u _ => (urlEncodeByte_avoids u).1,fun u _ => (urlEncodeByte_avoids u).2.1,
    fun u _ => (urlEncodeByte_avoids u).2.2.1,fun slashless u member => (urlEncodeByte_avoids u).2.2.2 ?_⟩
  rintro rfl
  exact slashless member

theorem urlEncodePath_eq_nil (empty : urlEncodePath text = []) : text = [] := by
  cases text with
  | nil => rfl
  | cons u text =>
    rw [urlEncodePath,List.flatMap_cons,urlEncodeByte] at empty
    split at empty <;> contradiction

theorem urlEncodePath_join (parts : List Bytes) :
    urlEncodePath ([47].intercalate parts) = [47].intercalate (parts.map urlEncodePath) := by
  induction parts with
  | nil => rfl
  | cons first parts ih =>
    cases parts with
    | nil => simp
    | cons second parts =>
      rw [List.intercalate_cons_cons,List.map_cons,List.map_cons,List.intercalate_cons_cons,← List.map_cons,← ih]
      simp only [urlEncodePath,List.flatMap_append]
      rfl

theorem mapM_urlDecode (parts : List Bytes) (noNul : ∀ part ∈ parts, 0 ∉ part) :
    (parts.map urlEncodePath).mapM urlDecode = .ok parts := by
  induction parts with
  | nil => rfl
  | cons part parts ih =>
    rw [List.map_cons,List.mapM_cons,urlDecode_encodePath part (noNul part (List.mem_cons_self ..)),
      ih fun part member => noNul part (List.mem_cons_of_mem _ member)]
    rfl

/-- A target made of encoded parts is taken apart into them. -/
theorem decodePath_join (parts : List Bytes) (filled : [47].intercalate parts ≠ []) (noNul : ∀ part ∈ parts, 0 ∉ part)
    (slashless : ∀ part ∈ parts, 47 ∉ part) :
    decodePath (47 :: urlEncodePath ([47].intercalate parts)) = .ok parts := by
  have question : 63 ∉ 47 :: urlEncodePath ([47].intercalate parts) := by
    simpa using (urlEncodePath_avoids ([47].intercalate parts)).2.2.1
  have pieces : (urlEncodePath ([47].intercalate parts)).splitOn 47 = parts.map urlEncodePath := by
    rw [urlEncodePath_join]
    apply List.splitOn_intercalate
    · simp only [List.mem_map,forall_exists_index,and_imp,forall_apply_eq_imp_iff₂]
      exact fun part member => (urlEncodePath_avoids part).2.2.2 (slashless part member)
    · intro none
      obtain rfl := List.map_eq_nil_iff.mp none
      exact filled rfl
  have long : 47 :: urlEncodePath ([47].intercalate parts) ≠ [47] := fun short =>
    filled (urlEncodePath_eq_nil (List.cons.inj short).2)
  rw [decodePath,pathOf_plain question,splitPath,if_neg long,List.drop_one,List.tail_cons,pieces]
  exact mapM_urlDecode parts noNul

theorem splitOn_avoids (sep : UInt8) (text : Bytes) : ∀ part ∈ text.splitOn sep, sep ∉ part := by
  induction text with
  | nil => simp
  | cons u text ih =>
    intro part member
    rw [List.splitOn,List.splitOnP_cons_eq_if_modifyHead] at member
    split at member
    · rcases List.mem_cons.mp member with rfl | member
      · exact List.not_mem_nil
      · exact ih part member
    · rename_i different
      change part ∈ (text.splitOn sep).modifyHead (List.cons u) at member
      generalize text.splitOn sep = parts at ih member
      cases parts with
      | nil => contradiction
      | cons first parts =>
        rcases List.mem_cons.mp member with rfl | member
        · intro inside
          rcases List.mem_cons.mp inside with rfl | inside
          · exact different (beq_self_eq_true _)
          · exact ih first (List.mem_cons_self ..) inside
        · exact ih part (List.mem_cons_of_mem _ member)

theorem RelativePath.allowed (path : RelativePath) (b : UInt8) (member : b ∈ path.value) : isForbiddenChar b = false := by
  have valid := path.valid
  unfold pathProblem at valid
  repeat' (split at valid)
  all_goals try contradiction
  rename_i allowed
  exact Bool.eq_false_iff.mpr fun forbidden => allowed (List.any_eq_true.mpr ⟨b,member,forbidden⟩)

theorem RelativePath.component_noNul (path : RelativePath) (part : Bytes) (member : part ∈ path.components) : 0 ∉ part := by
  intro zero
  obtain ⟨before,after,split,_⟩ := Piece.split 47 rfl path.value part member
  have allowed := path.allowed 0 (by rw [split]; simp [zero])
  contradiction

theorem isKept_id (id : TransactionId) : ∀ u ∈ id.value, isKept u = true := by
  intro u member
  have kept : isLowerHex u = true → isKept u = true := by
    simp only [isLowerHex,isKept,Bool.or_eq_true,Bool.and_eq_true,decide_eq_true_eq,UInt8.le_iff_toNat_le,UInt8.reduceToNat]
    omega
  rcases id.digits u member with rfl | hex
  · rfl
  · exact kept hex

/-- The parts of a target: the first ones, the id, then the components of the path. -/
def fileParts (first : List Bytes) (id : TransactionId) (path : RelativePath) : List Bytes :=
  first ++ id.value :: ascii "files" :: path.components

theorem intercalate_append (first : List Bytes) {rest : List Bytes} (nonempty : rest ≠ []) :
    [47].intercalate (first ++ rest) = first.flatMap (fun part => part ++ [47]) ++ [47].intercalate rest := by
  induction first with
  | nil => rfl
  | cons part first ih =>
    obtain ⟨next,later,split⟩ := List.exists_cons_of_ne_nil (List.append_ne_nil_of_right_ne_nil first nonempty)
    rw [List.cons_append,split,List.intercalate_cons_cons,← split,ih]
    simp

theorem join_fileParts (first : List Bytes) (id : TransactionId) (path : RelativePath) :
    [47].intercalate (fileParts first id path) =
      first.flatMap (fun part => part ++ [47]) ++ (id.value ++ ascii "/files/") ++ path.value := by
  have components : [47].intercalate path.components = path.value := List.intercalate_splitOn 47
  have split : fileParts first id path = (first ++ [id.value,ascii "files"]) ++ path.components := by simp [fileParts]
  have slashes : ascii "/files/" = 47 :: ascii "files" ++ [47] := by decide
  rw [split,intercalate_append _ path.components_ne_nil,components,slashes]
  simp

/-- What is in front of an encoded path is not changed by encoding it too. -/
theorem encode_fileParts (first : List Bytes) (id : TransactionId) (path : RelativePath)
    (kept : ∀ u ∈ first.flatMap (fun part => part ++ [47]), isKept u = true) :
    urlEncodePath ([47].intercalate (fileParts first id path)) =
      first.flatMap (fun part => part ++ [47]) ++ id.value ++ ascii "/files/" ++ urlEncodePath path.value := by
  have front : ∀ u ∈ first.flatMap (fun part => part ++ [47]) ++ (id.value ++ ascii "/files/"), isKept u = true := by
    have files : ∀ u ∈ ascii "/files/", isKept u = true := List.all_eq_true.mp (by decide)
    intro u member
    rcases List.mem_append.mp member with inside | member
    · exact kept u inside
    · rcases List.mem_append.mp member with inside | inside
      · exact isKept_id id u inside
      · exact files u inside
  rw [join_fileParts,urlEncodePath,List.flatMap_append]
  change urlEncodePath _ ++ urlEncodePath _ = _
  rw [urlEncodePath_kept _ front]
  simp

theorem userFile_eq (id : TransactionId) (path : RelativePath) :
    userFile id path = 47 :: urlEncodePath ([47].intercalate (fileParts [ascii "transactions"] id path)) := by
  rw [encode_fileParts _ id path (List.all_eq_true.mp (by decide))]
  rfl

theorem peerFile_eq (id : TransactionId) (path : RelativePath) : peerFile id path =
      47 :: urlEncodePath ([47].intercalate (fileParts [ascii "internal",ascii "transactions"] id path)) := by
  rw [encode_fileParts _ id path (List.all_eq_true.mp (by decide))]
  rfl

theorem decodePath_file (first : List Bytes) (plain : ∀ part ∈ first, 0 ∉ part ∧ 47 ∉ part) (id : TransactionId)
    (path : RelativePath) :
    decodePath (47 :: urlEncodePath ([47].intercalate (fileParts first id path))) = .ok (fileParts first id path) := by
  have parts : ∀ part ∈ fileParts first id path, 0 ∉ part ∧ 47 ∉ part := by
    have digits : 0 ∉ id.value ∧ 47 ∉ id.value :=
      ⟨fun member => by rcases id.digits _ member with h | h <;> contradiction,
        fun member => by rcases id.digits _ member with h | h <;> contradiction⟩
    simp only [fileParts,List.mem_append,List.mem_cons]
    rintro part (member | rfl | rfl | member)
    · exact plain part member
    · exact digits
    · decide
    · exact ⟨path.component_noNul part member,splitOn_avoids 47 path.value part member⟩
  apply decodePath_join _ ?_ (fun part member => (parts part member).1) (fun part member => (parts part member).2)
  rw [join_fileParts]
  simp [id.ne_nil]

def literal (text : Bytes) : Segment := ⟨text,false,false⟩

/-- The last segments of a files route. -/
def fileSegments : List Segment := [⟨ascii "id",true,false⟩,literal (ascii "files"),⟨ascii "path",true,true⟩]

def fileParams (id : TransactionId) (path : RelativePath) : Params :=
  (Params.emplace ∅ (ascii "id") id.value).emplace (ascii "path") path.value

theorem match_fileParts (first : List Bytes) (id : TransactionId) (path : RelativePath) :
    matchSegments (first.map literal ++ fileSegments) (fileParts first id path) ∅ = some (fileParams id path) := by
  induction first with
  | nil =>
    have components : [47].intercalate path.components = path.value := List.intercalate_splitOn 47
    have fine := path.component_fine
    obtain ⟨part,parts,split⟩ := List.exists_cons_of_ne_nil path.components_ne_nil
    rw [split] at components fine
    have filled : part ≠ [] := by
      rintro rfl
      exact absurd (fine [] (List.mem_cons_self ..)) (by decide)
    simp [fileParts,fileSegments,split,matchSegments,literal,id.ne_nil,filled,components,fileParams]
  | cons text first ih => simpa [fileParts,matchSegments,literal] using ih

/-- The file route of a method, for users and for peers. -/
def userFileEntry (method : Verb) (fn : TransactionHandler) : Entry :=
  ⟨⟨method,ascii "/transactions/\x7bid\x7d/files/\x7bpath*\x7d",.user,some (.transaction fn)⟩,
    [ascii "transactions"].map literal ++ fileSegments⟩

def peerFileEntry : Entry :=
  ⟨⟨.put,ascii "/internal/transactions/\x7bid\x7d/files/\x7bpath*\x7d",.peer,some (.transaction .upload)⟩,
    [ascii "internal",ascii "transactions"].map literal ++ fileSegments⟩

def fileMethods : List (Verb × TransactionHandler) := [(.put,.upload),(.get,.download),(.delete,.removeFile)]

theorem serveRoutes_files (adminGroup : Bytes) : ∃ router, serveRoutes adminGroup = .ok router ∧ router.Sound ∧
    (∀ m ∈ fileMethods, userFileEntry m.1 m.2 ∈ router.entries) ∧ peerFileEntry ∈ router.entries := by
  obtain ⟨router,registered,sound⟩ := serveRoutes_sound adminGroup
  obtain ⟨_,again,users,peers⟩ : ∃ router, serveRoutes adminGroup = .ok router ∧
      (∀ m ∈ fileMethods, userFileEntry m.1 m.2 ∈ router.entries) ∧ peerFileEntry ∈ router.entries :=
    serveRoutes_cases (by decide +kernel) adminGroup
  obtain rfl := Except.ok.inj (registered.symm.trans again)
  exact ⟨router,registered,sound,users,peers⟩

theorem Router.Sound.reaches_file {router : Router} (sound : router.Sound) {entry : Entry} (member : entry ∈ router.entries)
    (first : List Bytes) (pattern : entry.segments = first.map literal ++ fileSegments)
    (plain : ∀ part ∈ first, 0 ∉ part ∧ 47 ∉ part) (id : TransactionId) (path : RelativePath) :
    router.matchTarget entry.route.method (47 :: urlEncodePath ([47].intercalate (fileParts first id path))) =
      .ok ⟨entry.route,fileParams id path,∅⟩ := by
  have captured : matchSegments entry.segments (fileParts first id path) ∅ = some (fileParams id path) := by
    rw [pattern]
    exact match_fileParts first id path
  have fits : entry.fits (fileParts first id path) = true := by rw [Entry.fits,captured]; rfl
  have question : 63 ∉ 47 :: urlEncodePath ([47].intercalate (fileParts first id path)) := by
    simpa using (urlEncodePath_avoids _).2.2.1
  rw [matchTarget_decoded rfl (decodePath_file first plain id path),queryOf_plain question]
  exact matchEntries_fit router.entries false entry member _ captured rfl fun other inside fitsToo right =>
    sound.oneFits _ _ other inside entry member right rfl fitsToo fits

theorem fileParams_lookup (id : TransactionId) (path : RelativePath) :
    (fileParams id path).lookup (ascii "id") = some id.value ∧ (fileParams id path).lookup (ascii "path") = some path.value := by
  have fresh : ascii "path" ∉ Finmap.insert (ascii "id") id.value (∅ : Params) := by
    rw [Finmap.mem_insert]
    exact not_or.mpr ⟨by decide,Finmap.notMem_empty⟩
  have params : fileParams id path = ((∅ : Params).insert (ascii "id") id.value).insert (ascii "path") path.value := by
    rw [fileParams,Params.emplace,Params.emplace,if_neg (Finmap.notMem_empty),if_neg fresh]
  rw [params]
  exact ⟨(Finmap.lookup_insert_of_ne _ (by decide)).trans (Finmap.lookup_insert _),Finmap.lookup_insert _⟩

def encodePair (pair : Bytes × Bytes) : Bytes := pair.1 ++ 61 :: urlEncodePath pair.2

/-- The keys are sent as they are, so they must not hold what separates or escapes. -/
def PlainKey (key : Bytes) : Prop := 37 ∉ key ∧ 38 ∉ key ∧ 61 ∉ key

theorem query_append (out : Bytes) (filled : out ≠ []) (pairs : List (Bytes × Bytes)) (values : ∀ pair ∈ pairs, pair.2 ≠ []) :
    pairs.foldl (fun out (key,value) =>
      if value = [] then out else out ++ [if out = [] then 63 else 38] ++ key ++ [61] ++ urlEncodePath value) out =
      out ++ pairs.flatMap fun pair => 38 :: encodePair pair := by
  induction pairs generalizing out with
  | nil => simp
  | cons pair pairs ih =>
    rw [List.foldl_cons,ih _ (by simp [values pair (List.mem_cons_self ..),filled])
      fun pair member => values pair (List.mem_cons_of_mem _ member)]
    simp [values pair (List.mem_cons_self ..),filled,encodePair]

theorem intercalate_cons_eq (sep : UInt8) (first : Bytes) (rest : List Bytes) :
    [sep].intercalate (first :: rest) = first ++ rest.flatMap fun part => sep :: part := by
  induction rest generalizing first with
  | nil => simp
  | cons second rest ih =>
    rw [List.intercalate_cons_cons,ih]
    simp

theorem query_eq (pair : Bytes × Bytes) (pairs : List (Bytes × Bytes)) (values : ∀ other ∈ pair :: pairs, other.2 ≠ []) :
    query (pair :: pairs) = 63 :: [38].intercalate ((pair :: pairs).map encodePair) := by
  rw [query,List.foldl_cons,query_append _ (by simp [values pair (List.mem_cons_self ..)]) pairs
    fun other member => values other (List.mem_cons_of_mem _ member),List.map_cons,intercalate_cons_eq]
  simp [values pair (List.mem_cons_self ..),encodePair,List.flatMap_map]

theorem parsePairs_encoded (pairs : List (Bytes × Bytes)) (out : Params) (distinct : (pairs.map Prod.fst).Nodup)
    (plain : ∀ pair ∈ pairs, PlainKey pair.1 ∧ 0 ∉ pair.2) :
    ∃ params, parsePairs (pairs.map encodePair) out = .ok params ∧
      ∀ key value, params.lookup key = some value ↔
        (key,value) ∈ pairs ∨ key ∉ pairs.map Prod.fst ∧ out.lookup key = some value := by
  induction pairs generalizing out with
  | nil => exact ⟨out,rfl,by simp⟩
  | cons pair pairs ih =>
    obtain ⟨key,value⟩ := pair
    obtain ⟨first,distinct⟩ := List.nodup_cons.mp distinct
    obtain ⟨⟨noPercent,_,noEquals⟩,noNul⟩ := plain (key,value) (List.mem_cons_self ..)
    obtain ⟨params,parsed,found⟩ := ih (out.insert key value) distinct fun pair member =>
      plain pair (List.mem_cons_of_mem _ member)
    refine ⟨params,?_,?_⟩
    · have name : (encodePair (key,value)).takeWhile (· ≠ 61) = key := by
        simpa [encodePair] using takeWhile_avoids noEquals (61 :: urlEncodePath value)
      have text : ((encodePair (key,value)).dropWhile (· ≠ 61)).drop 1 = urlEncodePath value := by
        rw [encodePair,dropWhile_avoids noEquals]
        rfl
      have filled : encodePair (key,value) ≠ [] := by simp [encodePair]
      rw [List.map_cons,parsePairs,if_neg filled,name,text,urlDecode_plain key noPercent,urlDecode_encodePath value noNul]
      exact parsed
    · intro other text
      rw [found]
      by_cases same : other = key
      · subst same
        have absent : (other,text) ∉ pairs := fun member => first (List.mem_map.mpr ⟨_,member,rfl⟩)
        rw [Finmap.lookup_insert]
        simp only [List.map_cons,List.mem_cons,not_true_eq_false,false_and,or_false,absent,first,not_false_eq_true,
          true_and,false_or,Prod.mk.injEq,Option.some.injEq]
        exact eq_comm
      · rw [Finmap.lookup_insert_of_ne _ same]
        simp [same]

/-- What the client's query holds is what the server reads. -/
theorem parseQuery_query (path : Bytes) (plainPath : 63 ∉ path) (pairs : List (Bytes × Bytes))
    (distinct : (pairs.map Prod.fst).Nodup) (plain : ∀ pair ∈ pairs, PlainKey pair.1 ∧ pair.2 ≠ [] ∧ 0 ∉ pair.2) :
    ∃ params, parseQuery (queryOf (path ++ query pairs)) = .ok params ∧
      ∀ key value, params.lookup key = some value ↔ (key,value) ∈ pairs := by
  cases pairs with
  | nil => exact ⟨∅,by simp [query,queryOf_plain plainPath,parseQuery,parsePairs],by simp⟩
  | cons pair pairs =>
    obtain ⟨params,parsed,found⟩ := parsePairs_encoded (pair :: pairs) ∅ distinct fun other member =>
      ⟨(plain other member).1,(plain other member).2.2⟩
    refine ⟨params,?_,by simpa using found⟩
    rw [query_eq pair pairs fun other member => (plain other member).2.1,queryOf_append plainPath,parseQuery,
      List.splitOn_intercalate 38 ?_ (by simp)]
    · exact parsed
    · simp only [List.mem_map,forall_exists_index,and_imp,forall_apply_eq_imp_iff₂]
      intro other member
      have key := (plain other member).1.2.1
      simp [encodePair,key,(urlEncodePath_avoids other.2).1]

/-- Every file target of a client selects the files route of its method with the id and the path as they were, and
every query is read back as the pairs it was built from. -/
theorem client_urls_round_trip (adminGroup : Bytes) : ∃ router, serveRoutes adminGroup = .ok router ∧
      (∀ (id : TransactionId) (path : RelativePath),
        (∀ m ∈ fileMethods, router.matchTarget m.1 (userFile id path) =
          .ok ⟨(userFileEntry m.1 m.2).route,fileParams id path,∅⟩) ∧
        router.matchTarget .put (peerFile id path) = .ok ⟨peerFileEntry.route,fileParams id path,∅⟩ ∧
        (fileParams id path).lookup (ascii "id") = some id.value ∧
        (fileParams id path).lookup (ascii "path") = some path.value ∧
        TransactionId.parse id.value = .ok id ∧ RelativePath.parse path.value = .ok path) ∧
      ∀ (path : Bytes) (pairs : List (Bytes × Bytes)), 63 ∉ path → (pairs.map Prod.fst).Nodup →
        (∀ pair ∈ pairs, PlainKey pair.1 ∧ pair.2 ≠ [] ∧ 0 ∉ pair.2) →
        ∃ params, parseQuery (queryOf (path ++ query pairs)) = .ok params ∧
          ∀ key value, params.lookup key = some value ↔ (key,value) ∈ pairs := by
  obtain ⟨router,registered,sound,user,peer⟩ := serveRoutes_files adminGroup
  refine ⟨router,registered,fun id path => ?_,fun path pairs plainPath distinct plain =>
    parseQuery_query path plainPath pairs distinct plain⟩
  obtain ⟨isId,isPath⟩ := fileParams_lookup id path
  refine ⟨fun m listed => ?_,?_,isId,isPath,TransactionId.parse_value id,RelativePath.parse_value path⟩
  · rw [userFile_eq]
    exact sound.reaches_file (user m listed) [ascii "transactions"] rfl (by decide) id path
  · rw [peerFile_eq]
    exact sound.reaches_file peer [ascii "internal",ascii "transactions"] rfl (by decide) id path

end Confide
