import Confide.Handlers
import Confide.PushMetadata

/-! What a server reads out of another server's responses: the error of a request that failed, and the state of a
transaction. -/

namespace Confide

open Bytes

variable [BoostJson]

namespace HttpClient

def codeFor : HttpStatus → ErrCode
  | .badRequest => .validation
  | .unauthorized => .auth
  | .forbidden => .forbidden
  | .notFound => .notfound
  | .conflict => .conflict
  | .gone => .gone
  | .unprocessableEntity => .integrity
  | .serviceUnavailable => .unavailable
  | .tooManyRequests => .throttled
  | .ok | .created | .noContent | .internalServerError => .internal

def number : HttpStatus → Nat
  | .ok => 200
  | .created => 201
  | .noContent => 204
  | .badRequest => 400
  | .unauthorized => 401
  | .forbidden => 403
  | .notFound => 404
  | .conflict => 409
  | .gone => 410
  | .unprocessableEntity => 422
  | .tooManyRequests => 429
  | .internalServerError => 500
  | .serviceUnavailable => 503

def namedCode (name : Bytes) : Option ErrCode :=
  [.validation,.auth,.forbidden,.notfound,.conflict,.gone,.integrity,.unknownDestination,.unavailable,.throttled,.io,
    .internal].find? (·.toString = name)

/-- The body names the code and says more; the status stands in for what it does not say. -/
def serverError (status : HttpStatus) (body : Bytes) : Error :=
  match BoostJson.parse body with
  | some (.obj fields) =>
    ⟨match Json.member (ascii "error") fields with
      | some (.str name) => (namedCode name).getD (codeFor status)
      | _ => codeFor status,
     match Json.member (ascii "detail") fields with
      | some (.str text) => text
      | _ => ascii "HTTP " ++ decimal (number status)⟩
  | _ => ⟨codeFor status,ascii "HTTP " ++ decimal (number status)⟩

def outcome : Result Bytes → Result Bytes
  | .ok body => .ok body
  | .error e => .error (serverError (TransactionHandlers.fail e).status (TransactionHandlers.fail e).body)

end HttpClient

namespace Forwarder

/-- The state of a transaction as the other server tells it. -/
def stateOf (body : Bytes) : Result Bytes :=
  match BoostJson.parse body with
  | some (.obj fields) => match Json.member (ascii "state") fields with
    | some (.str state) => .ok state
    | _ => fail .internal (ascii "peer sent a transaction without a state")
  | _ => fail .internal (ascii "peer sent a transaction without a state")

omit [BoostJson] in
theorem transactionObject_fits (tx : Transaction) : (Api.transactionObject tx).fits Json.maxDepth = true := by
  have number : ∀ n : UInt64, Json.fits 31 (.int n.toNat) = true := by
    intro n
    have := n.toNat_lt
    simp only [Json.fits,Bool.and_eq_true,decide_eq_true_eq]
    omega
  rw [show Json.maxDepth = 31 + 1 from rfl,Api.transactionObject,Json.fits]
  simp only [Api.transactionFields,List.all_append,List.all_cons,List.all_nil,optionalTimestamp_fits,number,Bool.and_true]
  simp only [Json.fits,Bool.and_true]

/-- A transaction whose texts are no texts cannot be read; else its state can. -/
theorem stateOf_encodeTransaction (tx : Transaction) : stateOf (Api.encodeTransaction tx) =
    if (Api.transactionObject tx).isText then .ok tx.state.toString
    else fail .internal (ascii "peer sent a transaction without a state") := by
  have state : Json.member (ascii "state") (Api.transactionFields tx) = some (.str tx.state.toString) := by
    unfold Api.transactionFields
    cases tx.committedAt <;> cases tx.deliveredAt <;> rfl
  rw [stateOf,Api.encodeTransaction,BoostJson.parse_serialize _ (transactionObject_fits tx)]
  cases (Api.transactionObject tx).isText with
  | false => rfl
  | true => simp only [if_true,Api.transactionObject,state]

end Forwarder
end Confide
