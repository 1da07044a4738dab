import Confide.Storage

/-! The repository: an index in memory over the documents on disk. -/
namespace Confide

open Bytes Resumption

namespace TransactionRepository

variable (sha256 : Bytes → Sha256Digest)

variable [BoostJson]

/-- Reads meta.json of every id; the first one that cannot be read fails the whole load. -/
def loadEach : List TransactionId → SysM (List Transaction)
  | [] => pure []
  | id :: ids => do
    let json ← FileStore.readDocument id .meta
    match decodeMeta json with
    | .error e => throw ⟨e.code,ascii "transaction " ++ id.value ++ ascii ": " ++ e.detail⟩
    | .ok tx =>
      refuse (tx.id ≠ id)
        ⟨.validation,ascii "transaction " ++ id.value ++ ascii ": meta.json holds id " ++ tx.id.value⟩
      let rest ← loadEach ids
      pure (tx :: rest)

def load : SysM Unit := do
  let ids ← FileStore.listTransactions
  let loaded ← loadEach ids
  call (.indexReset loaded)

def insert (tx : Transaction) : SysM Unit := do
  call (.enter .insert)
  let known : Option Transaction ← call (.indexFind tx.id)
  refuse known.isSome ⟨.conflict,ascii "transaction " ++ tx.id.value ++ ascii " exists"⟩
  FileStore.createTransaction tx.id
  let written ← ExceptT.lift (FileStore.writeDocument sha256 tx.id .meta (encodeMeta tx)).run
  match written with
  | .error e =>
    let _removed ← ExceptT.lift (FileStore.removeTransaction tx.id).run
    throw e
  | .ok _ => call (.indexSet tx)

def save (tx : Transaction) : SysM Unit := do
  call (.enter .save)
  let known : Option Transaction ← call (.indexFind tx.id)
  refuse known.isNone ⟨.notfound,ascii "no transaction " ++ tx.id.value⟩
  FileStore.writeDocument sha256 tx.id .meta (encodeMeta tx)
  call (.indexSet tx)

def saveManifest (tx : Transaction) : SysM Unit := do
  call (.enter .saveManifest)
  FileStore.writeDocument sha256 tx.id .manifest (encodeManifest tx)

def remove (id : TransactionId) : SysM Unit := do
  call (.enter .remove)
  FileStore.removeTransaction id
  call (.indexErase id)

def find (id : TransactionId) : Prog Sys (Option Transaction) := sys (.indexFind id)

def findIf (pred : Transaction → Bool) : Prog Sys (List Transaction) := do
  let all : List Transaction ← sys .indexAll
  pure (all.filter pred)

end TransactionRepository
end Confide
