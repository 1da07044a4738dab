import Confide.Common
import Mathlib.Data.Finmap

/-! The router: a request target is split into decoded segments and a query, and matched against the
patterns that were added at start-up. -/
namespace Confide

open Bytes

inductive Verb where
  | unknown | delete | get | head | post | put | connect | options | trace | copy | lock | mkcol | move
  | propfind | proppatch | search | unlock | bind | rebind | unbind | acl | report | mkactivity | checkout
  | merge | msearch | notify | subscribe | unsubscribe | patch | purge | mkcalendar | link | unlink
  deriving DecidableEq, Repr

inductive Access where
  | user | password | peer | admin | adminPassword
  deriving DecidableEq, Repr

inductive TransactionHandler where
  | create | list | get | commit | listFiles | upload | download | removeFile | receive
  deriving DecidableEq, Repr

inductive AuthHandler where
  | login | logout
  deriving DecidableEq, Repr

inductive AdminHandler where
  | login | logout | list | get | remove | retention | status | sessions | revokeUser | log
  deriving DecidableEq, Repr

inductive Handler where
  | transaction (fn : TransactionHandler)
  | auth (fn : AuthHandler)
  | admin (fn : AdminHandler)
  deriving DecidableEq, Repr

structure Route where
  method : Verb
  pattern : Bytes
  access : Access
  handler : Option Handler
  deriving DecidableEq, Repr

/-- A literal, a parameter for one segment, or one for all that is left. -/
structure Segment where
  text : Bytes
  isParam : Bool
  isRest : Bool
  deriving DecidableEq, Repr

structure Entry where
  route : Route
  segments : List Segment
  deriving DecidableEq, Repr

structure Router where
  entries : List Entry
  deriving DecidableEq, Repr

abbrev Params := Finmap fun _ : Bytes => Bytes

def Params.emplace (params : Params) (name value : Bytes) : Params :=
  if name ∈ params then params else params.insert name value

structure Match where
  route : Route
  params : Params
  query : Params

/-- Decodes every escape once; a plus stays a plus. -/
def urlDecode : Bytes → Result Bytes
  | [] => .ok []
  | c :: text =>
    if c ≠ 37 then do
      let out ← urlDecode text
      pure (c :: out)
    else match text with
      | high :: low :: text =>
        match hexValue high, hexValue low with
        | some high, some low =>
          if high * 16 + low = 0 then fail .validation (ascii "encoded NUL")
          else do
            let out ← urlDecode text
            pure (UInt8.ofNat (high * 16 + low) :: out)
        | _, _ => fail .validation (ascii "bad %-escape")
      | _ => fail .validation (ascii "truncated %-escape")

/-- The text starts with a slash; a slash alone has no segments. -/
def splitPath (text : Bytes) : List Bytes := if text = [47] then [] else (text.drop 1).splitOn 47

def parsePairs : List Bytes → Params → Result Params
  | [], out => .ok out
  | pair :: pairs, out =>
    if pair = [] then parsePairs pairs out
    else do
      let key ← urlDecode (pair.takeWhile (· ≠ 61))
      let value ← urlDecode ((pair.dropWhile (· ≠ 61)).drop 1)
      parsePairs pairs (out.insert key value)

def parseQuery (text : Bytes) : Result Params := parsePairs (text.splitOn 38) ∅

/-- The segments of a pattern, after those read so far. -/
def parseSegments (pattern : Bytes) : List Bytes → List Segment → Result (List Segment)
  | [], segments => .ok segments
  | part :: parts, segments =>
    if part = [] then fail .internal (ascii "empty segment in route pattern: " ++ pattern)
    else if part.head? ≠ some 123 then parseSegments pattern parts (segments ++ [⟨part,false,false⟩])
    else if part.length < 3 ∨ part.getLast? ≠ some 125 then
      fail .internal (ascii "bad parameter in route pattern: " ++ pattern)
    else
      let inner := (part.drop 1).dropLast
      let rest := inner.getLast? = some 42
      let name := if rest then inner.dropLast else inner
      if rest ∧ (name = [] ∨ parts ≠ []) then
        fail .internal (ascii "\x7bname*\x7d must be the last segment: " ++ pattern)
      else if segments.any (fun seg => seg.isParam && seg.text == name) then
        fail .internal (ascii "duplicate parameter in route pattern: " ++ pattern)
      else parseSegments pattern parts (segments ++ [⟨name,true,rest⟩])

/-- Parameters of `path`, after those captured so far. A parameter never captures an empty segment. -/
def matchSegments : List Segment → List Bytes → Params → Option Params
  | [], [], params => some params
  | [], _ :: _, _ => none
  | _ :: _, [], _ => none
  | seg :: pattern, part :: path, params =>
    if seg.isParam && part == [] then none
    else if seg.isRest then some (params.emplace seg.text ([47].intercalate (part :: path)))
    else if seg.isParam then matchSegments pattern path (params.emplace seg.text part)
    else if seg.text ≠ part then none
    else matchSegments pattern path params

/-- The loop over the entries; `pathMatched` says whether an entry of another method has matched. -/
def matchEntries (method : Verb) (segments : List Bytes) (query : Bytes) : List Entry → Bool → Result Match
  | [], pathMatched =>
    if pathMatched then fail .conflict (ascii "method not allowed") else fail .notfound (ascii "no such endpoint")
  | entry :: entries, pathMatched =>
    match matchSegments entry.segments segments ∅ with
    | none => matchEntries method segments query entries pathMatched
    | some params =>
      if entry.route.method ≠ method then matchEntries method segments query entries true
      else do
        let query ← parseQuery query
        pure ⟨entry.route,params,query⟩

/-- What stands before and after the first question mark. -/
def pathOf (target : Bytes) : Bytes := target.takeWhile (· ≠ 63)
def queryOf (target : Bytes) : Bytes := (target.dropWhile (· ≠ 63)).drop 1

def decodePath (target : Bytes) : Result (List Bytes) := (splitPath (pathOf target)).mapM urlDecode

namespace Router

def empty : Router := ⟨[]⟩

def add (router : Router) (route : Route) : Result Router :=
  if route.pattern.head? ≠ some 47 then fail .internal (ascii "route pattern must start with '/': " ++ route.pattern)
  else if route.handler = none then fail .internal (ascii "route without handler: " ++ route.pattern)
  else do
    let segments ← parseSegments route.pattern (splitPath route.pattern) []
    if router.entries.any (fun e => e.route.method == route.method && e.route.pattern == route.pattern) then
      fail .internal (ascii "duplicate route: " ++ route.pattern)
    else pure ⟨router.entries ++ [⟨route,segments⟩]⟩

def matchTarget (router : Router) (method : Verb) (target : Bytes) : Result Match :=
  if (pathOf target).head? ≠ some 47 then fail .validation (ascii "request target must start with '/'")
  else do
    let segments ← decodePath target
    matchEntries method segments (queryOf target) router.entries false

end Router

def TransactionHandler.routes : List Route :=
  [⟨.post,ascii "/transactions",.user,some (.transaction .create)⟩,
    ⟨.get,ascii "/transactions",.user,some (.transaction .list)⟩,
    ⟨.get,ascii "/transactions/\x7bid\x7d",.user,some (.transaction .get)⟩,
    ⟨.post,ascii "/transactions/\x7bid\x7d/commit",.user,some (.transaction .commit)⟩,
    ⟨.get,ascii "/transactions/\x7bid\x7d/files",.user,some (.transaction .listFiles)⟩,
    ⟨.put,ascii "/transactions/\x7bid\x7d/files/\x7bpath*\x7d",.user,some (.transaction .upload)⟩,
    ⟨.get,ascii "/transactions/\x7bid\x7d/files/\x7bpath*\x7d",.user,some (.transaction .download)⟩,
    ⟨.delete,ascii "/transactions/\x7bid\x7d/files/\x7bpath*\x7d",.user,some (.transaction .removeFile)⟩,
    ⟨.post,ascii "/internal/transactions",.peer,some (.transaction .receive)⟩,
    ⟨.get,ascii "/internal/transactions/\x7bid\x7d",.peer,some (.transaction .get)⟩,
    ⟨.put,ascii "/internal/transactions/\x7bid\x7d/files/\x7bpath*\x7d",.peer,some (.transaction .upload)⟩,
    ⟨.post,ascii "/internal/transactions/\x7bid\x7d/commit",.peer,some (.transaction .commit)⟩]

def AuthHandler.routes : List Route :=
  [⟨.post,ascii "/auth/token",.password,some (.auth .login)⟩,
    ⟨.delete,ascii "/auth/token",.user,some (.auth .logout)⟩]

def AdminHandler.routes : List Route :=
  [⟨.post,ascii "/admin/token",.adminPassword,some (.admin .login)⟩,
    ⟨.delete,ascii "/admin/token",.admin,some (.admin .logout)⟩,
    ⟨.get,ascii "/admin/transactions",.admin,some (.admin .list)⟩,
    ⟨.get,ascii "/admin/transactions/\x7bid\x7d",.admin,some (.admin .get)⟩,
    ⟨.delete,ascii "/admin/transactions/\x7bid\x7d",.admin,some (.admin .remove)⟩,
    ⟨.put,ascii "/admin/transactions/\x7bid\x7d/retention",.admin,some (.admin .retention)⟩,
    ⟨.get,ascii "/admin/status",.admin,some (.admin .status)⟩,
    ⟨.get,ascii "/admin/sessions",.admin,some (.admin .sessions)⟩,
    ⟨.delete,ascii "/admin/sessions/\x7buser\x7d",.admin,some (.admin .revokeUser)⟩,
    ⟨.get,ascii "/admin/log",.admin,some (.admin .log)⟩]

def registerRoutes (router : Router) (routes : List Route) : Result Router := routes.foldlM Router.add router

/-- Without an admin group the admin routes are not there at all. -/
def serveRoutes (adminGroup : Bytes) : Result Router := do
  let router ← registerRoutes .empty TransactionHandler.routes
  let router ← registerRoutes router AuthHandler.routes
  if adminGroup = [] then pure router else registerRoutes router AdminHandler.routes

end Confide
