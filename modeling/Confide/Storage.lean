import Confide.Machine

/-! The file store: a folder for each transaction with its two documents and a
`files` tree, and a folder of temp files that are renamed into place. -/
namespace Confide

open Bytes Resumption

/-- Programs of the machine that may return an error. -/
abbrev SysM (α : Type) := ExceptT Error (Prog Sys) α

def call (c : SysCall) : SysM c.Reply := ExceptT.lift (sys c)

/-- Ends the program with `e` when `bad` holds. -/
def refuse {sig : Signature} (bad : Bool) (e : Error) : ExceptT Error (Prog sig) Unit :=
  if bad then throw e else pure ()

/-- Ends the program with the error of a failed check. -/
def ensure {sig : Signature} (result : Result α) : ExceptT Error (Prog sig) α := ExceptT.mk (pure result)

/-- The operating system's own message is left out of the detail. -/
def ioError (what subject : Bytes) : Error :=
  ⟨.io,ascii "storage: " ++ what ++ ascii " '" ++ subject ++ ascii "': "⟩

def noSuchFile (subject : Bytes) : Error := ⟨.notfound,ascii "storage: no such file '" ++ subject ++ ascii "'"⟩

def noSuchTransaction (id : TransactionId) : Error := ⟨.notfound,ascii "storage: no transaction " ++ id.value⟩

/-- Ends the program when `what` did not work out. -/
def orIo (done : Bool) (what subject : Bytes) : SysM Unit := refuse (!done) (ioError what subject)

inductive Document where
  | «meta» | manifest
  deriving DecidableEq, Repr

def Document.fileName : Document → Bytes
  | .meta => ascii "meta.json"
  | .manifest => ascii "manifest.json"

def Document.path : Document → RelativePath
  | .meta => ⟨ascii "meta.json",by decide⟩
  | .manifest => ⟨ascii "manifest.json",by decide⟩

def tmpDir : Path := [ascii "tmp"]
def transactionsDir : Path := [ascii "transactions"]
def transactionDir (id : TransactionId) : Path := transactionsDir ++ [id.value]
def filesDir (id : TransactionId) : Path := transactionDir id ++ [ascii "files"]
def documentPath (id : TransactionId) (doc : Document) : Path := transactionDir id ++ [doc.fileName]
def RelativePath.under (path : RelativePath) (root : Path) : Path := root ++ path.components
def payloadPath (id : TransactionId) (path : RelativePath) : Path := path.under (filesDir id)

def tmpName (id : TransactionId) (n : Nat) : Bytes := id.value ++ ascii "-" ++ decimal n ++ ascii ".part"
def tmpPath (id : TransactionId) (n : Nat) : Path := tmpDir ++ [tmpName id n]

/-- An open temp file with everything hashed so far. -/
structure Upload where
  tmp : Path
  final : Path
  path : RelativePath
  hashed : Bytes
  size : UInt64
  done : Bool
  deriving DecidableEq, Repr

structure StoredFile where
  path : RelativePath
  size : UInt64
  sha256 : Sha256Digest
  deriving DecidableEq, Repr

/-- Creates what is missing of a directory and its parents; the names come innermost first. -/
def createDirectories : List Bytes → Prog Sys Made
  | [] => pure .present
  | name :: up => do
    let status : Status ← sys (.status (name :: up).reverse)
    match status with
    | .directory => pure .present
    | .regular _ => pure .clash
    | .absent =>
      let above ← createDirectories up
      match above with
      | .clash => pure .clash
      | .failed => pure .failed
      | _ => sys (.mkdir (name :: up).reverse)

/-- Takes the paths away in order, up to the first one that cannot be. -/
def removeEach : List Path → Prog Sys Bool
  | [] => pure true
  | path :: rest => do
    let removed : Bool ← sys (.remove path)
    if removed then removeEach rest else pure false

def removeAll (path : Path) : Prog Sys (Option Nat) := do
  let order : List Path ← sys (.removalOrder path)
  let done ← removeEach order
  pure (if done then some order.length else none)

namespace FileStore

def «open» : SysM Unit := do
  let made ← ExceptT.lift (createDirectories transactionsDir.reverse)
  orIo (made == .created || made == .present) (ascii "create") (ascii "transactions")
  let cleaned ← ExceptT.lift (removeAll tmpDir)
  orIo cleaned.isSome (ascii "clean") (ascii "tmp")
  let made ← ExceptT.lift (createDirectories tmpDir.reverse)
  orIo (made == .created || made == .present) (ascii "create") (ascii "tmp")

def createTransaction (id : TransactionId) : SysM Unit := do
  let folder : Made ← call (.mkdir (transactionDir id))
  match folder with
  | .present => throw ⟨.conflict,ascii "storage: transaction " ++ id.value ++ ascii " exists"⟩
  | .created =>
    let files : Made ← call (.mkdir (filesDir id))
    orIo (files == .created || files == .present) (ascii "create transaction") id.value
  | _ => throw (ioError (ascii "create transaction") id.value)

def removeTransaction (id : TransactionId) : SysM Unit := do
  let removed ← ExceptT.lift (removeAll (transactionDir id))
  match removed with
  | none => throw (ioError (ascii "remove transaction") id.value)
  | some 0 => throw (noSuchTransaction id)
  | some _ => pure ()

def hasTransaction (id : TransactionId) : Prog Sys Bool := do
  let status : Status ← sys (.status (filesDir id))
  pure (status == .directory)

/-- The folders among `names` that are named by an id. -/
def transactionFolders : List Bytes → Prog Sys (List TransactionId)
  | [] => pure []
  | name :: names => do
    let status : Status ← sys (.status (transactionsDir ++ [name]))
    let rest ← transactionFolders names
    match status, TransactionId.parse name with
    | .directory, .ok id => pure (id :: rest)
    | _, _ => pure rest

def listTransactions : SysM (List TransactionId) := do
  let names : List Bytes ← call (.children transactionsDir)
  let ids ← ExceptT.lift (transactionFolders names)
  pure (ids.insertionSort (· ≤ ·))

def beginWrite (id : TransactionId) (final : Path) (path : RelativePath) : SysM Upload := do
  let known ← ExceptT.lift (hasTransaction id)
  refuse (!known) (noSuchTransaction id)
  let n : Nat ← call .nextTmp
  let opened : Opened Unit ← call (.create (tmpPath id n))
  match opened with
  | .opened _ => pure ⟨tmpPath id n,final,path,[],0,false⟩
  | .missing => throw (noSuchFile path.value)
  | .failed => throw (ioError (ascii "open") path.value)

def beginUpload (id : TransactionId) (path : RelativePath) : SysM Upload :=
  beginWrite id (payloadPath id path) path

end FileStore

namespace Upload

variable (u : Upload)

def finished : Error := ⟨.internal,ascii "storage: upload already finished"⟩

/-- The result of the removal is ignored. -/
def discard : Prog Sys Upload := do
  let _removed : Bool ← sys (.remove u.tmp)
  pure { u with done := true }

def write (chunk : Bytes) : Prog Sys (Result Unit × Upload) :=
  if u.done then pure (.error finished,u)
  else if chunk = [] then pure (.ok (),u)
  else do
    let written : Bool ← sys (.append u.tmp chunk)
    if written then
      pure (.ok (),{ u with hashed := u.hashed ++ chunk, size := u.size + UInt64.ofNat chunk.length })
    else do
      let u' ← u.discard
      pure (.error (ioError (ascii "write") u.path.value),u')

variable (sha256 : Bytes → Sha256Digest)

def checkDigest (digest : Sha256Digest) : Option Sha256Digest → Result Unit
  | none => .ok ()
  | some want =>
    if want = digest then .ok ()
    else fail .integrity (ascii "storage: checksum mismatch for '" ++ u.path.value ++ ascii "': expected " ++
      want.toHex ++ ascii ", got " ++ digest.toHex)

def finish (expected : Option Sha256Digest) : SysM StoredFile := do
  let flushed : Bool ← call (.flush u.tmp)
  orIo flushed (ascii "flush") u.path.value
  let synced : Bool ← call (.fsync u.tmp)
  orIo synced (ascii "fsync") u.path.value
  let closed : Bool ← call (.close u.tmp)
  orIo closed (ascii "close") u.path.value
  ensure (u.checkDigest (sha256 u.hashed) expected)
  let made ← ExceptT.lift (createDirectories u.final.dropLast.reverse)
  refuse (made = .clash) ⟨.conflict,ascii "storage: a parent of '" ++ u.path.value ++ ascii "' is a file"⟩
  orIo (made ≠ .failed) (ascii "create directories for") u.path.value
  let status : Status ← call (.status u.final)
  refuse (status = .directory) ⟨.conflict,ascii "storage: '" ++ u.path.value ++ ascii "' is a directory"⟩
  let renamed : Bool ← call (.rename u.tmp u.final)
  orIo renamed (ascii "rename") u.path.value
  pure ⟨u.path,u.size,sha256 u.hashed⟩

def commit (expected : Option Sha256Digest) : Prog Sys (Result StoredFile × Upload) :=
  if u.done then pure (.error finished,u)
  else do
    let result ← (u.finish sha256 expected).run
    match result with
    | .ok stored => pure (.ok stored,{ u with done := true })
    | .error e => do
      let u' ← u.discard
      pure (.error e,u')

end Upload

/-- Reads through the file in chunks; `fuel` is one more than its length. -/
def hashChunks (chunk : Nat) : Nat → Bytes → Bytes → UInt64 → Bytes × UInt64
  | 0, _, hashed, size => (hashed,size)
  | fuel + 1, rest, hashed, size =>
    if rest.take chunk = [] then (hashed,size)
    else hashChunks chunk fuel (rest.drop chunk) (hashed ++ rest.take chunk)
      (size + UInt64.ofNat (rest.take chunk).length)

def chunkBytes : Nat := 2^20

namespace FileStore

variable (sha256 : Bytes → Sha256Digest)

/-- The opened file: its size when it was opened, and what reading it will give. -/
structure Download where
  size : UInt64
  content : Bytes

def openRead (id : TransactionId) (path : RelativePath) : SysM Download := do
  let status : Status ← call (.status (payloadPath id path))
  match status with
  | .regular size =>
    let opened : Opened Bytes ← call (.read (payloadPath id path))
    match opened with
    | .opened content => pure ⟨size,content⟩
    | .missing => throw (noSuchFile path.value)
    | .failed => throw (ioError (ascii "open") path.value)
  | _ => throw (noSuchFile path.value)

def hashFile (id : TransactionId) (path : RelativePath) : SysM StoredFile := do
  let download ← openRead id path
  let (hashed,size) := hashChunks chunkBytes (download.content.length + 1) download.content [] 0
  pure ⟨path,size,sha256 hashed⟩

/-- Drops the folders a removal has emptied, innermost first, up to `files` itself. -/
def pruneFolders (files : Path) : List Bytes → Prog Sys Unit
  | [] => pure ()
  | name :: up => do
    let empty : Bool ← sys (.isEmpty (files ++ (name :: up).reverse))
    if empty then do
      let removed : Bool ← sys (.remove (files ++ (name :: up).reverse))
      if removed then pruneFolders files up else pure ()
    else pure ()

def removeFile (id : TransactionId) (path : RelativePath) : SysM Unit := do
  let status : Status ← call (.status (payloadPath id path))
  match status with
  | .regular _ =>
    let removed : Bool ← call (.remove (payloadPath id path))
    orIo removed (ascii "remove") path.value
    ExceptT.lift (pruneFolders (filesDir id) path.components.dropLast.reverse)
  | _ => throw (noSuchFile path.value)

def writeDocument (id : TransactionId) (doc : Document) (content : Bytes) : SysM Unit := do
  let upload ← beginWrite id (documentPath id doc) doc.path
  let (written,upload) ← ExceptT.lift (upload.write content)
  ensure written
  let (committed,_) ← ExceptT.lift (upload.commit sha256 none)
  let _stored ← ensure committed

def readDocument (id : TransactionId) (doc : Document) : SysM Bytes := do
  let opened : Opened Bytes ← call (.read (documentPath id doc))
  match opened with
  | .opened content => pure content
  | .missing => throw (noSuchFile doc.fileName)
  | .failed => throw (ioError (ascii "open") doc.fileName)

end FileStore
end Confide
