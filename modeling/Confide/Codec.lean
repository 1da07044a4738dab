import Confide.Json
import Confide.Transaction

/-! The documents of a transaction folder: meta.json holds the whole transaction,
manifest.json the file list it was committed with. -/
namespace Confide

open Bytes

def documentVersion : Nat := 1

def invalid (detail : Bytes) : Result α := fail .validation detail

/-- Prefixes a parse error with the field it was found in. -/
def inField (key : Bytes) : Result α → Result α
  | .ok value => .ok value
  | .error e => invalid (key ++ ascii ": " ++ e.detail)

section

variable [BoostJson]

/-- The JSON library's own message is left out of the detail. -/
def parseObject (text : Bytes) : Result (List (Bytes × Json)) :=
  match BoostJson.parse text with
  | none => invalid (ascii "malformed JSON: ")
  | some (.obj fields) => .ok fields
  | some _ => invalid (ascii "JSON document is not an object")

def getString (obj : List (Bytes × Json)) (key : Bytes) : Result Bytes :=
  match Json.member key obj with
  | some (.str s) => .ok s
  | _ => invalid (ascii "missing or non-string field: " ++ key)

def getOptionalString (obj : List (Bytes × Json)) (key : Bytes) : Result Bytes :=
  match Json.member key obj with
  | none => .ok []
  | some .null => .ok []
  | some _ => getString obj key

def getName (obj : List (Bytes × Json)) (key : Bytes) : Result Bytes := do
  let s ← getString obj key
  if s = [] then invalid (ascii "empty field: " ++ key) else .ok s

def getUint64 (obj : List (Bytes × Json)) (key : Bytes) : Result UInt64 :=
  match Json.member key obj with
  | some (.int i) =>
    if 0 ≤ i then .ok (UInt64.ofNat i.toNat)
    else invalid (ascii "missing or non-negative integer field: " ++ key)
  | _ => invalid (ascii "missing or non-negative integer field: " ++ key)

def getTimestamp (obj : List (Bytes × Json)) (key : Bytes) : Result Int := do
  let text ← getString obj key
  inField key (parseIso8601 text)

def getOptionalTimestamp (obj : List (Bytes × Json)) (key : Bytes) : Result (Option Int) :=
  match Json.member key obj with
  | none => .ok none
  | some .null => .ok none
  | some _ => do
    let ts ← getTimestamp obj key
    return some ts

def checkVersion (obj : List (Bytes × Json)) : Result Unit := do
  let v ← getUint64 obj (ascii "v")
  if v.toNat = documentVersion then .ok ()
  else invalid (ascii "unsupported document version: " ++ decimal v.toNat)

def encodeFile (file : FileEntry) : Json := .obj
  [(ascii "path",.str file.path.value),
   (ascii "size",.int file.size.toNat),
   (ascii "sha256",.str file.sha256.toHex)]

def encodeFiles (files : List FileEntry) : Json := .arr (files.map encodeFile)

def decodeFile : Json → Result FileEntry
  | .obj f => do
    let pathText ← getString f (ascii "path")
    let path ← inField (ascii "path") (RelativePath.parse pathText)
    let size ← getUint64 f (ascii "size")
    let hex ← getString f (ascii "sha256")
    let sha256 ← inField (ascii "sha256") (Sha256Digest.fromHex hex)
    return ⟨path,size,sha256⟩
  | _ => invalid (ascii "files: entry is not an object")

def sortFiles (files : List FileEntry) : List FileEntry := files.insertionSort fun a b => a.path ≤ b.path

/-- The first entry that has the path of its successor. -/
def adjacentFind : List FileEntry → Option FileEntry
  | a :: b :: rest => if a.path = b.path then some a else adjacentFind (b :: rest)
  | _ => none

def decodeFiles (obj : List (Bytes × Json)) : Result (List FileEntry) :=
  match Json.member (ascii "files") obj with
  | some (.arr items) => do
    let files ← items.mapM decodeFile
    match adjacentFind (sortFiles files) with
    | some dup => invalid (ascii "files: duplicate path " ++ dup.path.value)
    | none => .ok (sortFiles files)
  | _ => invalid (ascii "missing or non-array field: files")

def optionalTimestamp (key : Bytes) : Option Int → List (Bytes × Json)
  | some t => [(key,.str (formatIso8601 t))]
  | none => []

def metaFields (tx : Transaction) : List (Bytes × Json) :=
  [(ascii "v",.int documentVersion),
   (ascii "id",.str tx.id.value),
   (ascii "sender",.str tx.sender),
   (ascii "target_user",.str tx.targetUser),
   (ascii "target_server",.str tx.targetServer),
   (ascii "origin_server",.str tx.originServer),
   (ascii "comment",.str tx.comment),
   (ascii "state",.str tx.state.toString),
   (ascii "created_at",.str (formatIso8601 tx.createdAt)),
   (ascii "expires_at",.str (formatIso8601 tx.expiresAt))] ++
  (optionalTimestamp (ascii "committed_at") tx.committedAt ++
  (optionalTimestamp (ascii "delivered_at") tx.deliveredAt ++
  [(ascii "files",encodeFiles tx.files)]))

def encodeMeta (tx : Transaction) : Bytes := BoostJson.serialize (.obj (metaFields tx))

def decodeMetaFields (obj : List (Bytes × Json)) : Result Transaction := do
  checkVersion obj
  let idText ← getString obj (ascii "id")
  let id ← inField (ascii "id") (TransactionId.parse idText)
  let sender ← getName obj (ascii "sender")
  let targetUser ← getName obj (ascii "target_user")
  let targetServer ← getString obj (ascii "target_server")
  let originServer ← getString obj (ascii "origin_server")
  let comment ← getOptionalString obj (ascii "comment")
  let stateText ← getString obj (ascii "state")
  let state ← inField (ascii "state") (parseState stateText)
  let createdAt ← getTimestamp obj (ascii "created_at")
  let expiresAt ← getTimestamp obj (ascii "expires_at")
  let committedAt ← getOptionalTimestamp obj (ascii "committed_at")
  let deliveredAt ← getOptionalTimestamp obj (ascii "delivered_at")
  let files ← decodeFiles obj
  return ⟨id,sender,targetUser,targetServer,originServer,comment,state,createdAt,expiresAt,committedAt,
    deliveredAt,files⟩

def decodeMeta (text : Bytes) : Result Transaction := do
  let obj ← parseObject text
  decodeMetaFields obj

def manifestFields (tx : Transaction) : List (Bytes × Json) :=
  [(ascii "v",.int documentVersion),(ascii "id",.str tx.id.value),(ascii "files",encodeFiles tx.files)]

def encodeManifest (tx : Transaction) : Bytes := BoostJson.serialize (.obj (manifestFields tx))

def decodeManifestFields (obj : List (Bytes × Json)) : Result (List FileEntry) := do
  checkVersion obj
  decodeFiles obj

def decodeManifest (text : Bytes) : Result (List FileEntry) := do
  let obj ← parseObject text
  decodeManifestFields obj

end

variable {key : Bytes}

theorem getString_member (found : Json.member key obj = some (.str s)) : getString obj key = .ok s := by
  simp [getString,found]

theorem decodeFile_encodeFile (file : FileEntry) : decodeFile (encodeFile file) = .ok file := by
  have path : Json.member (ascii "path") [(ascii "path",.str file.path.value),
      (ascii "size",.int file.size.toNat),(ascii "sha256",.str file.sha256.toHex)] =
      some (.str file.path.value) := rfl
  have size : Json.member (ascii "size") [(ascii "path",.str file.path.value),
      (ascii "size",.int file.size.toNat),(ascii "sha256",.str file.sha256.toHex)] =
      some (.int file.size.toNat) := rfl
  have sha256 : Json.member (ascii "sha256") [(ascii "path",.str file.path.value),
      (ascii "size",.int file.size.toNat),(ascii "sha256",.str file.sha256.toHex)] =
      some (.str file.sha256.toHex) := rfl
  simp only [encodeFile,decodeFile,getString,path,sha256,size,getUint64,inField,RelativePath.parse_value,
    Sha256Digest.fromHex_toHex,ok_bind]
  simp

theorem decodeFiles_items (files : List FileEntry) : (files.map encodeFile).mapM decodeFile = .ok files := by
  induction files with
  | nil => rfl
  | cons file files ih => simp [List.mapM_cons,decodeFile_encodeFile,ih]

variable {files : List FileEntry}

theorem sortFiles_sorted (sorted : Sorted files) : sortFiles files = files :=
  List.Pairwise.insertionSort_eq (sorted.imp le_of_lt)

/-- Duplicates are found exactly in lists that are sorted but not strictly. -/
theorem adjacentFind_none (ordered : files.Pairwise fun a b => a.path ≤ b.path) :
    adjacentFind files = none ↔ Sorted files := by
  fun_induction adjacentFind files with
  | case1 a b rest same =>
    simp only [reduceCtorEq,false_iff]
    intro sorted
    exact absurd same (ne_of_lt ((List.pairwise_cons.mp sorted).1 b List.mem_cons_self))
  | case2 a b rest different ih =>
    obtain ⟨first,tail⟩ := List.pairwise_cons.mp ordered
    rw [ih tail,Sorted,Sorted,List.pairwise_cons (a := a)]
    refine ⟨fun sorted => ⟨?_,sorted⟩,fun sorted => sorted.2⟩
    have below : a.path < b.path := lt_of_le_of_ne (first b List.mem_cons_self) different
    intro c member
    rcases List.mem_cons.mp member with rfl | member
    · exact below
    · exact lt_trans below ((List.pairwise_cons.mp sorted).1 c member)
  | case3 files short =>
    cases files with
    | nil => simp [Sorted]
    | cons a rest =>
      cases rest with
      | nil => simp [Sorted]
      | cons b rest => exact absurd rfl (short a b rest)

theorem sortFiles_ordered (files : List FileEntry) :
    (sortFiles files).Pairwise fun a b => a.path ≤ b.path := by
  have total : Std.Total fun a b : FileEntry => a.path ≤ b.path := ⟨fun a b => le_total a.path b.path⟩
  have trans : IsTrans FileEntry fun a b => a.path ≤ b.path := ⟨fun _ _ _ => le_trans⟩
  exact List.pairwise_insertionSort _ files

variable {obj : List (Bytes × Json)}

/-- The file list of a document comes back exactly when it was strictly sorted. -/
theorem decodeFiles_encodeFiles (found : Json.member (ascii "files") obj = some (encodeFiles files)) :
    decodeFiles obj = .ok files ↔ Sorted files := by
  simp only [decodeFiles,found,encodeFiles,decodeFiles_items,ok_bind]
  constructor
  · intro decoded
    split at decoded
    · contradiction
    · rename_i none
      have sorted := (adjacentFind_none (sortFiles_ordered files)).mp none
      rwa [← Except.ok.inj decoded]
  · intro sorted
    rw [sortFiles_sorted sorted,(adjacentFind_none (sorted.imp le_of_lt)).mpr sorted]

theorem decodeFiles_sorted
    (decoded : decodeFiles obj = .ok files) : Sorted files := by
  unfold decodeFiles at decoded
  split at decoded
  · obtain ⟨items,_,decoded⟩ := bind_eq_ok.mp decoded
    split at decoded
    · contradiction
    · rename_i none
      exact Except.ok.inj decoded ▸ (adjacentFind_none (sortFiles_ordered items)).mp none
  · contradiction

/-- What meta.json can hold: UTF-8 texts, named parties, four-digit years, strictly sorted files. -/
structure Storable (tx : Transaction) : Prop where
  sender : tx.sender ≠ [] ∧ isUtf8 tx.sender = true
  targetUser : tx.targetUser ≠ [] ∧ isUtf8 tx.targetUser = true
  targetServer : isUtf8 tx.targetServer = true
  originServer : isUtf8 tx.originServer = true
  comment : isUtf8 tx.comment = true
  createdAt : InEra tx.createdAt
  expiresAt : InEra tx.expiresAt
  committedAt : ∀ t ∈ tx.committedAt, InEra t
  deliveredAt : ∀ t ∈ tx.deliveredAt, InEra t
  paths : ∀ file ∈ tx.files, isUtf8 file.path.value = true
  files : Sorted tx.files

theorem encodeFile_isText (file : FileEntry) : (encodeFile file).isText = isUtf8 file.path.value := by
  have known : isUtf8 (ascii "path") = true ∧ isUtf8 (ascii "size") = true ∧
      isUtf8 (ascii "sha256") = true := by decide
  simp [encodeFile,Json.isText,Json.isTextFields,known,file.sha256.toHex_isUtf8]

theorem encodeFiles_isText (files : List FileEntry) :
    (encodeFiles files).isText = true ↔ ∀ file ∈ files, isUtf8 file.path.value = true := by
  simp [encodeFiles,Json.isText,Json.isTextItems_eq,encodeFile_isText]

theorem encodeFiles_fits (files : List FileEntry) (depth : Nat) :
    (encodeFiles files).fits (depth + 2) = true := by
  simp only [encodeFiles,Json.fits,List.all_map,List.all_eq_true]
  intro file _
  have := file.size.toNat_lt
  simp [encodeFile,Json.fits]
  omega

variable {t : Int} {s : Bytes}

section Meta

variable (tx : Transaction)

theorem getString_metaFields : getString (metaFields tx) (ascii "id") = .ok tx.id.value ∧
    getString (metaFields tx) (ascii "sender") = .ok tx.sender ∧
    getString (metaFields tx) (ascii "target_user") = .ok tx.targetUser ∧
    getString (metaFields tx) (ascii "target_server") = .ok tx.targetServer ∧
    getString (metaFields tx) (ascii "origin_server") = .ok tx.originServer ∧
    getOptionalString (metaFields tx) (ascii "comment") = .ok tx.comment ∧
    getString (metaFields tx) (ascii "state") = .ok tx.state.toString ∧
    getString (metaFields tx) (ascii "created_at") = .ok (formatIso8601 tx.createdAt) ∧
    getString (metaFields tx) (ascii "expires_at") = .ok (formatIso8601 tx.expiresAt) := by
  unfold metaFields
  cases tx.committedAt <;> cases tx.deliveredAt <;> exact ⟨rfl,rfl,rfl,rfl,rfl,rfl,rfl,rfl,rfl⟩

theorem checkVersion_metaFields : checkVersion (metaFields tx) = .ok () := by
  unfold metaFields
  cases tx.committedAt <;> cases tx.deliveredAt <;> rfl

theorem member_metaFields_files :
    Json.member (ascii "files") (metaFields tx) = some (encodeFiles tx.files) := by
  unfold metaFields
  cases tx.committedAt <;> cases tx.deliveredAt <;> rfl

/-- A timestamp field comes back exactly in the years the text form covers. -/
theorem getTimestamp_format (text : getString obj key = .ok (formatIso8601 t)) :
    getTimestamp obj key = if InEra t then .ok t
      else invalid (key ++ ascii ": " ++ ascii "malformed timestamp") := by
  rw [getTimestamp,text,ok_bind,parseIso8601_formatIso8601]
  split <;> rfl

theorem getOptionalTimestamp_some (found : Json.member key obj = some (.str (formatIso8601 t))) :
    getOptionalTimestamp obj key = .ok (some t) ↔ InEra t := by
  rw [getOptionalTimestamp,found]
  simp only [getTimestamp_format (getString_member found)]
  split
  · rename_i era
    simp [era,pure,Except.pure]
  · rename_i era
    simp [era,invalid,fail]

theorem getOptionalTimestamp_none
    (absent : Json.member key obj = none) : getOptionalTimestamp obj key = .ok none := by
  rw [getOptionalTimestamp,absent]

theorem member_metaFields_committedAt :
    Json.member (ascii "committed_at") (metaFields tx) = tx.committedAt.map fun t => .str (formatIso8601 t) := by
  unfold metaFields
  cases tx.committedAt <;> cases tx.deliveredAt <;> rfl

theorem member_metaFields_deliveredAt :
    Json.member (ascii "delivered_at") (metaFields tx) = tx.deliveredAt.map fun t => .str (formatIso8601 t) := by
  unfold metaFields
  cases tx.committedAt <;> cases tx.deliveredAt <;> rfl

section Optional

variable {obj : List (Bytes × Json)} {key : Bytes} {t u : Option Int}
  (found : Json.member key obj = t.map fun t => .str (formatIso8601 t))

include found

/-- A timestamp that may be missing comes back on the same condition. -/
theorem getOptionalTimestamp_format : getOptionalTimestamp obj key = .ok t ↔ ∀ u ∈ t, InEra u := by
  cases t with
  | none => simp [getOptionalTimestamp_none found]
  | some t => simp [getOptionalTimestamp_some found]

/-- It comes back as it was, or not at all. -/
theorem getOptionalTimestamp_reads (read : getOptionalTimestamp obj key = .ok u) : u = t := by
  have whole := getOptionalTimestamp_format found
  cases t with
  | none =>
    rw [whole.mpr (by simp)] at read
    exact (Except.ok.inj read).symm
  | some t =>
    by_cases era : InEra t
    · rw [whole.mpr (by simpa using era)] at read
      exact (Except.ok.inj read).symm
    · rw [getOptionalTimestamp,found] at read
      simp [getTimestamp_format (getString_member found),era,invalid,fail] at read

end Optional

theorem getName_eq_ok {name : Bytes} (found : getString obj key = .ok s) :
    getName obj key = .ok name ↔ s ≠ [] ∧ s = name := by
  rw [getName,found,ok_bind]
  split <;> simp_all [invalid,fail]

theorem getTimestamp_eq_ok {u : Int}
    (text : getString obj key = .ok (formatIso8601 t)) : getTimestamp obj key = .ok u ↔ InEra t ∧ t = u := by
  rw [getTimestamp_format text]
  split <;> simp_all [invalid,fail]

/-- The object of meta.json decodes to the transaction exactly when names are given, years have four
digits and the files are strictly sorted. -/
theorem decodeMetaFields_metaFields : decodeMetaFields (metaFields tx) = .ok tx ↔
    tx.sender ≠ [] ∧ tx.targetUser ≠ [] ∧ InEra tx.createdAt ∧ InEra tx.expiresAt ∧
      (∀ t ∈ tx.committedAt, InEra t) ∧ (∀ t ∈ tx.deliveredAt, InEra t) ∧ Sorted tx.files := by
  obtain ⟨id,sender,user,server,origin,comment,state,created,expires⟩ := getString_metaFields tx
  rw [← getOptionalTimestamp_format (member_metaFields_committedAt tx),
    ← getOptionalTimestamp_format (member_metaFields_deliveredAt tx),← decodeFiles_encodeFiles (member_metaFields_files tx)]
  simp only [decodeMetaFields,checkVersion_metaFields,id,server,origin,comment,state,ok_bind,inField,
    TransactionId.parse_value,parseState_toString,bind_eq_ok,getName_eq_ok sender,getName_eq_ok user,
    getTimestamp_eq_ok created,getTimestamp_eq_ok expires,pure,Except.pure,Except.ok.injEq]
  constructor
  · rintro ⟨_,⟨hs,rfl⟩,_,⟨hu,rfl⟩,_,⟨hc,rfl⟩,_,⟨he,rfl⟩,c,hcommitted,d,hdelivered,f,hfiles,same⟩
    cases tx
    simp_all
  · rintro ⟨hs,hu,hc,he,hcommitted,hdelivered,hfiles⟩
    exact ⟨_,⟨hs,rfl⟩,_,⟨hu,rfl⟩,_,⟨hc,rfl⟩,_,⟨he,rfl⟩,_,hcommitted,_,hdelivered,_,hfiles,rfl⟩

/-- What is read of it is the transaction, if its files were sorted. -/
theorem decodeMetaFields_reads {tx : Transaction} {tx' : Transaction} (sorted : Sorted tx.files)
    (read : decodeMetaFields (metaFields tx) = .ok tx') : tx' = tx := by
  obtain ⟨id,sender,user,server,origin,comment,state,created,expires⟩ := getString_metaFields tx
  have listed := (decodeFiles_encodeFiles (member_metaFields_files tx)).mpr sorted
  simp only [decodeMetaFields,checkVersion_metaFields,id,server,origin,comment,state,ok_bind,inField,
    TransactionId.parse_value,parseState_toString,bind_eq_ok,getName_eq_ok sender,getName_eq_ok user,
    getTimestamp_eq_ok created,getTimestamp_eq_ok expires,listed,pure,Except.pure,Except.ok.injEq] at read
  obtain ⟨_,⟨_,rfl⟩,_,⟨_,rfl⟩,_,⟨_,rfl⟩,_,⟨_,rfl⟩,committed,stamped,delivered,marked,rfl⟩ := read
  rw [getOptionalTimestamp_reads (member_metaFields_committedAt tx) stamped,
    getOptionalTimestamp_reads (member_metaFields_deliveredAt tx) marked]

theorem toString_isUtf8 (state : State) : isUtf8 state.toString = true := by
  cases state <;> decide

theorem optionalTimestamp_isText (known : isUtf8 key = true) (t : Option Int) :
    Json.isTextFields (optionalTimestamp key t) = true := by
  cases t <;> simp [optionalTimestamp,Json.isTextFields,Json.isText,known,formatIso8601_isUtf8]

theorem metaFields_isText : (Json.obj (metaFields tx)).isText = true ↔
    isUtf8 tx.sender = true ∧ isUtf8 tx.targetUser = true ∧ isUtf8 tx.targetServer = true ∧
      isUtf8 tx.originServer = true ∧ isUtf8 tx.comment = true ∧
      ∀ file ∈ tx.files, isUtf8 file.path.value = true := by
  have keys : ∀ key ∈ ["v","id","sender","target_user","target_server","origin_server","comment","state",
      "created_at","expires_at","committed_at","delivered_at","files"], isUtf8 (ascii key) = true := by decide
  have committed := optionalTimestamp_isText (keys "committed_at" (by simp)) tx.committedAt
  have delivered := optionalTimestamp_isText (keys "delivered_at" (by simp)) tx.deliveredAt
  rw [Json.isTextFields_eq] at committed delivered
  simp only [Json.isText,Json.isTextFields_eq,metaFields,List.all_append,List.all_cons,List.all_nil,committed,
    delivered,Bool.and_true,Bool.true_and,Bool.and_eq_true,← encodeFiles_isText,tx.id.isUtf8,toString_isUtf8,
    formatIso8601_isUtf8,keys _ (by simp : "v" ∈ _),keys _ (by simp : "id" ∈ _),keys _ (by simp : "sender" ∈ _),
    keys _ (by simp : "target_user" ∈ _),keys _ (by simp : "target_server" ∈ _),
    keys _ (by simp : "origin_server" ∈ _),keys _ (by simp : "comment" ∈ _),keys _ (by simp : "state" ∈ _),
    keys _ (by simp : "created_at" ∈ _),keys _ (by simp : "expires_at" ∈ _),keys _ (by simp : "files" ∈ _)]
  tauto

theorem optionalTimestamp_fits (key : Bytes) (t : Option Int) (depth : Nat) :
    (optionalTimestamp key t).all (fun field => Json.fits depth field.2) = true := by
  cases t <;> simp [optionalTimestamp,Json.fits]

theorem metaFields_fits : (Json.obj (metaFields tx)).fits Json.maxDepth = true := by
  have files := encodeFiles_fits tx.files 29
  rw [show Json.maxDepth = 31 + 1 from rfl,Json.fits]
  simp only [metaFields,List.all_append,List.all_cons,List.all_nil,optionalTimestamp_fits,Bool.and_true,
    Json.fits,documentVersion,files]
  decide

end Meta

/-- Writing and reading an object: it comes back unless one of its strings is not UTF-8. -/
theorem parseObject_serialize [BoostJson] {fields : List (Bytes × Json)} (inside : (Json.obj fields).fits Json.maxDepth = true) :
    parseObject (BoostJson.serialize (.obj fields)) =
      if (Json.obj fields).isText then .ok fields else invalid (ascii "malformed JSON: ") := by
  rw [parseObject,BoostJson.parse_serialize _ inside]
  cases (Json.obj fields).isText <;> rfl

/-- meta.json can be read back exactly for the transactions it can hold. -/
theorem decodeMeta_encodeMeta [BoostJson] (tx : Transaction) :
    decodeMeta (encodeMeta tx) = .ok tx ↔ Storable tx := by
  have text := metaFields_isText tx
  have fields := decodeMetaFields_metaFields tx
  rw [decodeMeta,encodeMeta,parseObject_serialize (metaFields_fits tx)]
  constructor
  · intro decoded
    obtain ⟨obj,parsed,decoded⟩ := bind_eq_ok.mp decoded
    split at parsed
    · rename_i clean
      cases parsed
      obtain ⟨s,u,v,o,c,p⟩ := text.mp clean
      obtain ⟨hs,hu,hc,he,hcommitted,hdelivered,hfiles⟩ := fields.mp decoded
      exact ⟨⟨hs,s⟩,⟨hu,u⟩,v,o,c,hc,he,hcommitted,hdelivered,p,hfiles⟩
    · contradiction
  · intro h
    rw [if_pos (text.mpr ⟨h.sender.2,h.targetUser.2,h.targetServer,h.originServer,h.comment,h.paths⟩),ok_bind]
    exact fields.mpr ⟨h.sender.1,h.targetUser.1,h.createdAt,h.expiresAt,h.committedAt,h.deliveredAt,h.files⟩

/-- What is read of a meta.json is the transaction it was written for. -/
theorem decodeMeta_reads [BoostJson] {tx tx' : Transaction} (sorted : Sorted tx.files) (read : decodeMeta (encodeMeta tx) = .ok tx') :
    tx' = tx := by
  rw [decodeMeta,encodeMeta,parseObject_serialize (metaFields_fits tx)] at read
  obtain ⟨obj,parsed,read⟩ := bind_eq_ok.mp read
  split at parsed
  · cases parsed
    exact decodeMetaFields_reads sorted read
  · contradiction

theorem manifestFields_isText (tx : Transaction) : (Json.obj (manifestFields tx)).isText = true ↔
    ∀ file ∈ tx.files, isUtf8 file.path.value = true := by
  have keys : isUtf8 (ascii "v") = true ∧ isUtf8 (ascii "id") = true ∧ isUtf8 (ascii "files") = true := by decide
  simp only [Json.isText,Json.isTextFields,manifestFields,keys,tx.id.isUtf8,Bool.and_true,
    ← encodeFiles_isText,Bool.true_and]

theorem manifestFields_fits (tx : Transaction) :
    (Json.obj (manifestFields tx)).fits Json.maxDepth = true := by
  have files := encodeFiles_fits tx.files 29
  rw [show Json.maxDepth = 31 + 1 from rfl,Json.fits]
  simp only [manifestFields,List.all_cons,List.all_nil,Bool.and_true,Json.fits,documentVersion,
    files]
  decide

/-- manifest.json can be read back exactly when the files are sorted and every path is UTF-8. -/
theorem decodeManifest_encodeManifest [BoostJson] (tx : Transaction) : decodeManifest (encodeManifest tx) = .ok tx.files ↔
    (∀ file ∈ tx.files, isUtf8 file.path.value = true) ∧ Sorted tx.files := by
  have text := manifestFields_isText tx
  have files : decodeManifestFields (manifestFields tx) = .ok tx.files ↔ Sorted tx.files := by
    rw [decodeManifestFields,show checkVersion (manifestFields tx) = .ok () from rfl,ok_bind]
    exact decodeFiles_encodeFiles rfl
  rw [decodeManifest,encodeManifest,parseObject_serialize (manifestFields_fits tx)]
  constructor
  · intro decoded
    obtain ⟨obj,parsed,decoded⟩ := bind_eq_ok.mp decoded
    split at parsed
    · rename_i clean
      cases parsed
      exact ⟨text.mp clean,files.mp decoded⟩
    · contradiction
  · rintro ⟨paths,sorted⟩
    rw [if_pos (text.mpr paths),ok_bind]
    exact files.mpr sorted

theorem getString_utf8 (text : (Json.obj obj).isText = true)
    (read : getString obj key = .ok s) : isUtf8 s = true := by
  unfold getString at read
  split at read
  · rename_i found
    have := Json.member_isText _ _ _ text found
    rw [Except.ok.inj read] at this
    exact this
  · contradiction

theorem getOptionalString_utf8 (text : (Json.obj obj).isText = true)
    (read : getOptionalString obj key = .ok s) : isUtf8 s = true := by
  unfold getOptionalString at read
  split at read
  · exact Except.ok.inj read ▸ rfl
  · exact Except.ok.inj read ▸ rfl
  · exact getString_utf8 text read

theorem getName_ok (read : getName obj key = .ok s) :
    s ≠ [] ∧ getString obj key = .ok s := by
  obtain ⟨s',found,read⟩ := bind_eq_ok.mp read
  split at read
  · contradiction
  · cases read
    exact ⟨by assumption,found⟩

theorem inField_ok {result : Result α} {value : α} (read : inField key result = .ok value) :
    result = .ok value := by
  cases result with
  | ok value => exact read
  | error e => contradiction

theorem getTimestamp_inEra (read : getTimestamp obj key = .ok t) :
    InEra t := by
  obtain ⟨text,_,read⟩ := bind_eq_ok.mp read
  exact parseIso8601_inEra text t (inField_ok read)

theorem getOptionalTimestamp_inEra {t : Option Int}
    (read : getOptionalTimestamp obj key = .ok t) : ∀ u ∈ t, InEra u := by
  unfold getOptionalTimestamp at read
  split at read
  · exact Except.ok.inj read ▸ nofun
  · exact Except.ok.inj read ▸ nofun
  · obtain ⟨u,found,read⟩ := bind_eq_ok.mp read
    cases read
    exact fun v same => Option.some.inj same ▸ getTimestamp_inEra found

variable {text : Bytes}

theorem parseObject_isText [BoostJson] (read : parseObject text = .ok obj) :
    (Json.obj obj).isText = true := by
  unfold parseObject at read
  split at read
  · contradiction
  · rename_i parsed
    exact BoostJson.parse_isText text _ (Except.ok.inj read ▸ parsed)
  · contradiction

theorem decodeFile_utf8 {item : Json} {file : FileEntry} (text : item.isText = true) (read : decodeFile item = .ok file) :
    isUtf8 file.path.value = true := by
  unfold decodeFile at read
  split at read
  · obtain ⟨pathText,found,read⟩ := bind_eq_ok.mp read
    obtain ⟨path,parsed,read⟩ := bind_eq_ok.mp read
    obtain ⟨size,_,read⟩ := bind_eq_ok.mp read
    obtain ⟨hex,_,read⟩ := bind_eq_ok.mp read
    obtain ⟨digest,_,read⟩ := bind_eq_ok.mp read
    cases read
    have same : path.value = pathText := RelativePath.parse_ok (inField_ok parsed)
    exact same ▸ getString_utf8 text found
  · contradiction

theorem decodeFiles_utf8 (text : (Json.obj obj).isText = true)
    (read : decodeFiles obj = .ok files) : ∀ file ∈ files, isUtf8 file.path.value = true := by
  unfold decodeFiles at read
  split at read
  · rename_i items found
    obtain ⟨decoded,each,read⟩ := bind_eq_ok.mp read
    split at read
    · contradiction
    · cases read
      intro file member
      obtain ⟨item,there,decodes⟩ := (mapM_ok each).1 file ((List.mem_insertionSort _).mp member)
      have clean := Json.member_isText _ _ _ text found
      rw [Json.isText,Json.isTextItems_eq,List.all_eq_true] at clean
      exact decodeFile_utf8 (clean item there) decodes
  · contradiction

/-- Whatever decode_meta accepts, meta.json can hold. -/
theorem decodeMeta_storable [BoostJson] {tx : Transaction} (read : decodeMeta text = .ok tx) : Storable tx := by
  obtain ⟨obj,parsed,read⟩ := bind_eq_ok.mp read
  have clean := parseObject_isText parsed
  obtain ⟨_,_,read⟩ := bind_eq_ok.mp read
  obtain ⟨idText,_,read⟩ := bind_eq_ok.mp read
  obtain ⟨id,_,read⟩ := bind_eq_ok.mp read
  obtain ⟨sender,first,read⟩ := bind_eq_ok.mp read
  obtain ⟨targetUser,second,read⟩ := bind_eq_ok.mp read
  obtain ⟨targetServer,server,read⟩ := bind_eq_ok.mp read
  obtain ⟨originServer,origin,read⟩ := bind_eq_ok.mp read
  obtain ⟨comment,words,read⟩ := bind_eq_ok.mp read
  obtain ⟨stateText,_,read⟩ := bind_eq_ok.mp read
  obtain ⟨state,_,read⟩ := bind_eq_ok.mp read
  obtain ⟨createdAt,created,read⟩ := bind_eq_ok.mp read
  obtain ⟨expiresAt,expires,read⟩ := bind_eq_ok.mp read
  obtain ⟨committedAt,committed,read⟩ := bind_eq_ok.mp read
  obtain ⟨deliveredAt,delivered,read⟩ := bind_eq_ok.mp read
  obtain ⟨files,listed,read⟩ := bind_eq_ok.mp read
  cases read
  obtain ⟨named,first⟩ := getName_ok first
  obtain ⟨aimed,second⟩ := getName_ok second
  exact {
    sender := ⟨named,getString_utf8 clean first⟩
    targetUser := ⟨aimed,getString_utf8 clean second⟩
    targetServer := getString_utf8 clean server
    originServer := getString_utf8 clean origin
    comment := getOptionalString_utf8 clean words
    createdAt := getTimestamp_inEra created
    expiresAt := getTimestamp_inEra expires
    committedAt := getOptionalTimestamp_inEra committed
    deliveredAt := getOptionalTimestamp_inEra delivered
    paths := decodeFiles_utf8 clean listed
    files := decodeFiles_sorted listed }

theorem decodeManifest_ok [BoostJson] (read : decodeManifest text = .ok files) :
    (∀ file ∈ files, isUtf8 file.path.value = true) ∧ Sorted files := by
  obtain ⟨obj,parsed,read⟩ := bind_eq_ok.mp read
  obtain ⟨_,_,read⟩ := bind_eq_ok.mp read
  exact ⟨decodeFiles_utf8 (parseObject_isText parsed) read,decodeFiles_sorted read⟩

/-- The format of the two documents: everything they can hold comes back, and everything that is
accepted, from whatever text, is in order and survives being written again. -/
theorem documents_round_trip [BoostJson] :
    (∀ tx, Storable tx → decodeMeta (encodeMeta tx) = .ok tx ∧ decodeManifest (encodeManifest tx) = .ok tx.files) ∧
      (∀ text tx, decodeMeta text = .ok tx → Sorted tx.files ∧ decodeMeta (encodeMeta tx) = .ok tx) ∧
      (∀ text files, decodeManifest text = .ok files →
        Sorted files ∧ ∀ tx : Transaction, tx.files = files → decodeManifest (encodeManifest tx) = .ok files) := by
  refine ⟨fun tx storable => ⟨?_,?_⟩,fun text tx read => ⟨?_,?_⟩,fun text files read => ⟨(decodeManifest_ok read).2,?_⟩⟩
  · exact (decodeMeta_encodeMeta tx).mpr storable
  · exact (decodeManifest_encodeManifest tx).mpr ⟨storable.paths,storable.files⟩
  · exact (decodeMeta_storable read).files
  · exact (decodeMeta_encodeMeta tx).mpr (decodeMeta_storable read)
  · rintro tx rfl
    exact (decodeManifest_encodeManifest tx).mpr (decodeManifest_ok read)

/-- A transaction at the edges of the format: the last second of the last year, a size of 64 bits. -/
def edgeTransaction : Transaction where
  id := ⟨ascii "6f9619ff-8b86-4d01-b42d-00cf4fc964ff",by decide⟩
  sender := ascii "alice"
  targetUser := ascii "bob"
  targetServer := []
  originServer := []
  comment := [0xc3,0xa9]
  state := .committed
  createdAt := -62167219200
  expiresAt := 253402300799
  committedAt := some 0
  deliveredAt := none
  files := [⟨⟨ascii "a",by decide⟩,18446744073709551615,⟨List.replicate 32 0xab,by decide⟩⟩]

theorem edgeTransaction_round_trip : decodeMeta (encodeMeta edgeTransaction) = .ok edgeTransaction :=
  (documents_round_trip.1 edgeTransaction
    ⟨by decide,by decide,by decide,by decide,by decide,by decide,by decide,by decide,
      nofun,by decide,by simp [Sorted,edgeTransaction]⟩).1

end Confide
