import Confide.Service

/-! The bodies of the HTTP API: what its decoders admit, and what its encoders write. -/
namespace Confide

open Bytes

/-- The name check of the configuration, which users, peers and instances have passed. -/
def isValidName (s : Bytes) : Bool :=
  !s.isEmpty && s.length ≤ 64 && s.all fun c =>
    (97 ≤ c && c ≤ 122) || (65 ≤ c && c ≤ 90) || (48 ≤ c && c ≤ 57) || c == 45 || c == 95 || c == 46

section

variable [BoostJson]

namespace Api

def parseObject (text : Bytes) : Result (List (Bytes × Json)) :=
  match BoostJson.parse text with
  | none => invalid (ascii "malformed JSON: ")
  | some (.obj fields) => .ok fields
  | some _ => invalid (ascii "JSON body is not an object")

/-- A number in the range of a 32-bit integer; none counts as zero. -/
def getOptionalInt (obj : List (Bytes × Json)) (key : Bytes) : Result Int :=
  match Json.member key obj with
  | none => .ok 0
  | some .null => .ok 0
  | some (.int n) =>
    if -2^31 ≤ n ∧ n < 2^31 then .ok n else invalid (ascii "field is not a small integer: " ++ key)
  | some _ => invalid (ascii "field is not a small integer: " ++ key)

def decodeCreate (text : Bytes) : Result CreateRequest := do
  let obj ← parseObject text
  let targetUser ← getName obj (ascii "target_user")
  let targetServer ← getOptionalString obj (ascii "target_server")
  let retentionDays ← getOptionalInt obj (ascii "retention_days")
  let comment ← getOptionalString obj (ascii "comment")
  return ⟨targetUser,targetServer,retentionDays,comment⟩

def decodeReceive (text : Bytes) : Result ReceiveRequest := do
  let obj ← parseObject text
  let idText ← getString obj (ascii "id")
  let id ← inField (ascii "id") (TransactionId.parse idText)
  let sender ← getName obj (ascii "sender")
  let targetUser ← getName obj (ascii "target_user")
  let createdAt ← getTimestamp obj (ascii "created_at")
  let expiresAt ← getTimestamp obj (ascii "expires_at")
  let comment ← getOptionalString obj (ascii "comment")
  return ⟨id,sender,targetUser,createdAt,expiresAt,comment⟩

def decodeRetention (text : Bytes) : Result Int := do
  let obj ← parseObject text
  match Json.member (ascii "days") obj with
  | none => invalid (ascii "missing field: days")
  | some _ => getOptionalInt obj (ascii "days")

def receiveFields (req : ReceiveRequest) : List (Bytes × Json) :=
  [(ascii "id",.str req.id.value),
   (ascii "sender",.str req.sender),
   (ascii "target_user",.str req.targetUser),
   (ascii "created_at",.str (formatIso8601 req.createdAt)),
   (ascii "expires_at",.str (formatIso8601 req.expiresAt)),
   (ascii "comment",.str req.comment)]

def encodeReceive (req : ReceiveRequest) : Bytes := BoostJson.serialize (.obj (receiveFields req))

def transactionFields (tx : Transaction) : List (Bytes × Json) :=
  [(ascii "id",.str tx.id.value),
   (ascii "state",.str tx.state.toString),
   (ascii "sender",.str tx.sender),
   (ascii "target_user",.str tx.targetUser),
   (ascii "target_server",.str tx.targetServer),
   (ascii "comment",.str tx.comment),
   (ascii "created_at",.str (formatIso8601 tx.createdAt)),
   (ascii "expires_at",.str (formatIso8601 tx.expiresAt))] ++
  (optionalTimestamp (ascii "committed_at") tx.committedAt ++
  (optionalTimestamp (ascii "delivered_at") tx.deliveredAt ++
  [(ascii "file_count",.int (UInt64.ofNat tx.files.length).toNat),
   (ascii "total_bytes",.int tx.totalBytes.toNat)]))

def transactionObject (tx : Transaction) : Json := .obj (transactionFields tx)

def encodeTransaction (tx : Transaction) : Bytes := BoostJson.serialize (transactionObject tx)

def encodeTransactionList (txs : List Transaction) : Bytes :=
  BoostJson.serialize (.obj [(ascii "transactions",.arr (txs.map transactionObject))])

def encodeFiles (files : List FileEntry) : Bytes :=
  BoostJson.serialize (.obj [(ascii "files",Confide.encodeFiles files)])

def encodeFile (file : FileEntry) : Bytes := BoostJson.serialize (Confide.encodeFile file)

def adminFields (tx : Transaction) : List (Bytes × Json) :=
  transactionFields tx ++ [(ascii "origin_server",.str tx.originServer)]

def encodeAdminTransaction (tx : Transaction) : Bytes :=
  BoostJson.serialize (.obj (adminFields tx ++ [(ascii "files",Confide.encodeFiles tx.files)]))

def encodeAdminTransactionList (txs : List Transaction) : Bytes :=
  BoostJson.serialize (.obj [(ascii "transactions",.arr (txs.map fun tx => .obj (adminFields tx)))])

end Api

theorem Api.parseObject_isText {text : Bytes} {obj : List (Bytes × Json)} (read : Api.parseObject text = .ok obj) :
    (Json.obj obj).isText = true := by
  unfold Api.parseObject at read
  split at read
  · contradiction
  · rename_i parsed
    exact BoostJson.parse_isText text _ (Except.ok.inj read ▸ parsed)
  · contradiction

/-- The texts of an admitted request are UTF-8. -/
theorem Api.decodeCreate_utf8 {text : Bytes} {req : CreateRequest} (read : Api.decodeCreate text = .ok req) :
    isUtf8 req.targetUser = true ∧ isUtf8 req.targetServer = true ∧ isUtf8 req.comment = true := by
  obtain ⟨obj,parsed,read⟩ := bind_eq_ok.mp read
  obtain ⟨targetUser,user,read⟩ := bind_eq_ok.mp read
  obtain ⟨targetServer,server,read⟩ := bind_eq_ok.mp read
  obtain ⟨retentionDays,_,read⟩ := bind_eq_ok.mp read
  obtain ⟨comment,words,read⟩ := bind_eq_ok.mp read
  cases read
  have text := Api.parseObject_isText parsed
  exact ⟨getString_utf8 text (getName_ok user).2,getOptionalString_utf8 text server,getOptionalString_utf8 text words⟩

/-- So are those of an admitted push, and its times are in years of four digits. -/
theorem Api.decodeReceive_utf8 {text : Bytes} {req : ReceiveRequest} (read : Api.decodeReceive text = .ok req) :
    isUtf8 req.sender = true ∧ isUtf8 req.targetUser = true ∧ isUtf8 req.comment = true ∧ InEra req.createdAt ∧
      InEra req.expiresAt := by
  obtain ⟨obj,parsed,read⟩ := bind_eq_ok.mp read
  obtain ⟨idText,_,read⟩ := bind_eq_ok.mp read
  obtain ⟨id,_,read⟩ := bind_eq_ok.mp read
  obtain ⟨sender,first,read⟩ := bind_eq_ok.mp read
  obtain ⟨targetUser,second,read⟩ := bind_eq_ok.mp read
  obtain ⟨createdAt,created,read⟩ := bind_eq_ok.mp read
  obtain ⟨expiresAt,expires,read⟩ := bind_eq_ok.mp read
  obtain ⟨comment,words,read⟩ := bind_eq_ok.mp read
  cases read
  have text := Api.parseObject_isText parsed
  exact ⟨getString_utf8 text (getName_ok first).2,getString_utf8 text (getName_ok second).2,
    getOptionalString_utf8 text words,getTimestamp_inEra created,getTimestamp_inEra expires⟩

end

theorem isValidName_utf8 {s : Bytes} (valid : isValidName s = true) : s ≠ [] ∧ isUtf8 s = true := by
  simp only [isValidName,Bool.and_eq_true,Bool.not_eq_true',List.isEmpty_eq_false_iff,List.all_eq_true] at valid
  refine ⟨valid.1.1,isUtf8_ascii s fun b member => ?_⟩
  have char := valid.2 b member
  simp only [Bool.or_eq_true,Bool.and_eq_true,decide_eq_true_eq,beq_iff_eq] at char
  rcases char with ((((⟨_,high⟩ | ⟨_,high⟩) | ⟨_,high⟩) | rfl) | rfl) | rfl
  · exact UInt8.lt_of_le_of_lt high (by decide)
  · exact UInt8.lt_of_le_of_lt high (by decide)
  · exact UInt8.lt_of_le_of_lt high (by decide)
  all_goals decide

end Confide
