import Confide.SafePaths
import Confide.Server
import Mathlib.Data.List.DropRight

/-! `ftc get`: every file is downloaded next to its place, under a name that ends in .part, and moved there once
its checksum is right. The names come from the server; the directory may hold anything. -/
namespace Confide

open Bytes DirTree

namespace Ftc

def str (fields : List (Bytes × Json)) (key : Bytes) : Bytes :=
  match Json.member key fields with
  | some (.str s) => s
  | _ => []

/-- What the server and the disk do while one file is fetched. -/
inductive Download where
  | refused (e : Error)
  | unopened
  | broken (received : Bytes) (e : Error)
  | complete (received : Bytes)

structure Fetch where
  mkdirFails : Path → Bool
  download : Download
  hashFails : Option Error
  renameFails : Bool
  removeFails : Bool
  message : Bytes

def partOf (out : Path) : Path := out.dropLast ++ [out.getLast?.getD [] ++ ascii ".part"]

def parentPath (text : Bytes) : Bytes :=
  let front := text.rdropWhile (· != 47)
  match front.rdropWhile (· == 47) with
  | [] => front.take 1
  | parent => parent

/-- The directories that are missing, from the outermost. -/
def createDirectories (fails : Path → Bool) : Path → List Bytes → Disk → Disk × Bool
  | _, [], disk => (disk,true)
  | above, name :: rest, disk =>
    match disk.lookup (above ++ [name]) with
    | some .directory => createDirectories fails (above ++ [name]) rest disk
    | some (.file _) => (disk,false)
    | none => match if fails (above ++ [name]) then none else disk.mkdir (above ++ [name]) with
      | some disk => createDirectories fails (above ++ [name]) rest disk
      | none => (disk,false)

def createParent (fetch : Fetch) (parentText : Bytes) (parent : Path) (disk : Disk) : Disk × Result Unit :=
  let uncreated := fail .io (parentText ++ ascii ": " ++ fetch.message)
  if parentText = [] then (disk,uncreated)
  else match createDirectories fetch.mkdirFails [] parent disk with
    | (disk,true) => (disk,.ok ())
    | (disk,false) => (disk,uncreated)

def download (fetch : Fetch) (partText : Bytes) (part : Path) (disk : Disk) : Disk × Result Unit :=
  let unopened := fail .io (partText ++ ascii ": " ++ fetch.message)
  match fetch.download with
  | .refused e => (disk,.error e)
  | .unopened => (disk,unopened)
  | .broken received e => match disk.assign part (.file received) with
    | some disk => (disk,.error e)
    | none => (disk,unopened)
  | .complete received => match disk.assign part (.file received) with
    | some disk => (disk,.ok ())
    | none => (disk,unopened)

def hashFile (sha256 : Bytes → Sha256Digest) (fetch : Fetch) (partText : Bytes) (part : Path) (disk : Disk) :
    Result Sha256Digest :=
  match fetch.hashFails, disk.lookup part with
  | some e, _ => .error e
  | none, some (.file content) => .ok (sha256 content)
  | none, _ => fail .io (ascii "cannot open " ++ partText)

def move (fetch : Fetch) (outText : Bytes) (part out : Path) (disk : Disk) : Disk × Result Unit :=
  match if fetch.renameFails then none else disk.rename part out with
  | some disk => (disk,.ok ())
  | none => (disk,fail .io (outText ++ ascii ": " ++ fetch.message))

def checked (sha256 : Bytes → Sha256Digest) (fetch : Fetch) (rel : RelativePath) (expected : Sha256Digest)
    (outText : Bytes) (out : Path) (disk : Disk) : Disk × Result Unit :=
  match download fetch (outText ++ ascii ".part") (partOf out) disk with
  | (disk,.error e) => (disk,.error e)
  | (disk,.ok ()) => match hashFile sha256 fetch (outText ++ ascii ".part") (partOf out) disk with
    | .error e => (disk,.error e)
    | .ok actual =>
      if actual ≠ expected then (disk,fail .integrity (rel.value ++ ascii ": SHA-256 does not match the server's"))
      else move fetch outText (partOf out) out disk

/-- Removes a file or an empty directory; what goes wrong is ignored. -/
def remove (fetch : Fetch) (path : Path) (disk : Disk) : Disk :=
  if fetch.removeFails then disk else (disk.detach path).getD disk

def getFile (sha256 : Bytes → Sha256Digest) (force : Bool) (dirText : Bytes) (dir : Path) (fetch : Fetch)
    (rel : RelativePath) (expected : Sha256Digest) (disk : Disk) : Disk × Result Unit :=
  let out := rel.under dir
  let outText := rel.underRoot dirText
  if !force && (disk.lookup out).isSome then
    (disk,fail .conflict (outText ++ ascii " exists (use --force to overwrite)"))
  else match createParent fetch (parentPath outText) out.dropLast disk with
    | (disk,.error e) => (disk,.error e)
    | (disk,.ok ()) => match checked sha256 fetch rel expected outText out disk with
      | (disk,.error e) => (remove fetch (partOf out) disk,.error e)
      | (disk,.ok ()) => (disk,.ok ())

/-- Path and checksum of an entry; paths from the server are untrusted. -/
def readEntry : Json → Result (RelativePath × Sha256Digest)
  | .obj fields => do
    let rel ← RelativePath.parse (str fields (ascii "path"))
    let expected ← Sha256Digest.fromHex (str fields (ascii "sha256"))
    return (rel,expected)
  | _ => fail .internal (ascii "server sent a malformed file list")

/-- The files in the order of the list, up to the first error. -/
def getFiles (sha256 : Bytes → Sha256Digest) (force : Bool) (dirText : Bytes) (dir : Path) :
    List (Json × Fetch) → Disk → Disk × Result Unit
  | [], disk => (disk,.ok ())
  | (v,fetch) :: rest, disk => match readEntry v with
    | .error e => (disk,.error e)
    | .ok (rel,expected) => match getFile sha256 force dirText dir fetch rel expected disk with
      | (disk,.error e) => (disk,.error e)
      | (disk,.ok ()) => getFiles sha256 force dirText dir rest disk

/-- The list as it was received, and what happens at each of its entries. -/
def runGet (sha256 : Bytes → Sha256Digest) (force : Bool) (dirText : Bytes) (dir : Path)
    (listing : Result (List (Json × Fetch))) (disk : Disk) : Disk × Result Unit :=
  match listing with
  | .error e => (disk,.error e)
  | .ok list => getFiles sha256 force dirText dir list disk

/-! Nothing but the two names of a file changes, and directories are only added. -/

def Keeps (before after : Disk) : Prop := ∀ p node, before.lookup p = some node → after.lookup p = some node

def Intact (before after : Disk) : Prop :=
  ∀ p content, before.lookup p = some (.file content) → after.lookup p = some (.file content)

variable {before disk after : Disk} {part out : Path}

theorem Keeps.refl (disk : Disk) : Keeps disk disk := fun _ _ found => found

theorem Keeps.trans (first : Keeps before disk) (second : Keeps disk after) : Keeps before after :=
  fun p node found => second p node (first p node found)

theorem Keeps.intact (keeps : Keeps before after) : Intact before after := fun p content => keeps p (.file content)

theorem keeps_mkdir {path : Path} (made : disk.mkdir path = some after) : Keeps disk after := by
  obtain ⟨absent,all⟩ := Tree.mkdir_lookup made
  intro p node found
  rw [all,if_neg]
  · exact found
  · rintro rfl
    simp [absent] at found

theorem createDirectories_keeps (fails : Path → Bool) (above : Path) (names : List Bytes) (disk : Disk) :
    Keeps disk (createDirectories fails above names disk).1 := by
  induction names generalizing above disk with
  | nil => exact Keeps.refl disk
  | cons name rest ih =>
    unfold createDirectories
    split
    · exact ih _ _
    · exact Keeps.refl disk
    · split
      · rename_i made
        split at made
        · contradiction
        · exact (keeps_mkdir made).trans (ih _ _)
      · exact Keeps.refl disk

theorem createParent_keeps (fetch : Fetch) (parentText : Bytes) (parent : Path) (disk : Disk) :
    Keeps disk (createParent fetch parentText parent disk).1 := by
  have keeps := createDirectories_keeps fetch.mkdirFails [] parent disk
  unfold createParent
  split
  · exact Keeps.refl disk
  · split <;> simp_all

/-- Where the directories are there, nothing is created. -/
theorem createDirectories_present (fails : Path → Bool) (above : Path) (names : List Bytes)
    (present : disk.lookup (above ++ names) = some .directory) :
    createDirectories fails above names disk = (disk,true) := by
  induction names generalizing above with
  | nil => rfl
  | cons name rest ih =>
    have joined : above ++ name :: rest = above ++ [name] ++ rest := by simp
    rw [joined] at present
    have here := Tree.directory_prefix present (List.prefix_append _ rest)
    unfold createDirectories
    rw [here]
    exact ih _ present

def Beside (part out : Path) (before after : Disk) : Prop :=
  ∀ p, p ≠ part → p ≠ out → after.lookup p = before.lookup p

theorem Beside.refl (part out : Path) (disk : Disk) : Beside part out disk disk := fun _ _ _ => rfl

theorem Beside.trans (first : Beside part out before disk) (second : Beside part out disk after) :
    Beside part out before after := by
  intro p notPart notOut
  rw [second p notPart notOut,first p notPart notOut]

theorem beside_assign {node : Node Bytes} (assigned : disk.assign part node = some after) :
    Beside part out disk after := by
  intro p notPart _
  rw [Tree.assign_lookup assigned,if_neg notPart]

theorem download_beside (fetch : Fetch) (partText : Bytes) (part out : Path) (disk : Disk) :
    Beside part out disk (download fetch partText part disk).1 := by
  unfold download
  split
  · exact Beside.refl _ _ _
  · exact Beside.refl _ _ _
  · split
    · rename_i assigned
      exact beside_assign assigned
    · exact Beside.refl _ _ _
  · split
    · rename_i assigned
      exact beside_assign assigned
    · exact Beside.refl _ _ _

theorem download_ok {fetch : Fetch} {partText : Bytes} (done : (download fetch partText part disk).2 = .ok ()) :
    disk.lookup part ≠ some .directory := by
  unfold download at done
  split at done
  · contradiction
  · contradiction
  · split at done <;> contradiction
  · split at done
    · rename_i assigned
      exact (Tree.assign_isSome.mp (by rw [assigned]; rfl)).2.2
    · contradiction

theorem move_beside (fetch : Fetch) (outText : Bytes) (part out : Path) (disk : Disk) :
    Beside part out disk (move fetch outText part out disk).1 := by
  unfold move
  split
  · rename_i moved
    split at moved
    · contradiction
    · exact fun p notPart notOut => Tree.rename_frame moved notPart notOut
  · exact Beside.refl _ _ _

theorem remove_beside (fetch : Fetch) (part out : Path) (disk : Disk) :
    Beside part out disk (remove fetch part disk) := by
  unfold remove
  split
  · exact Beside.refl _ _ _
  · cases detached : disk.detach part with
    | none => exact Beside.refl _ _ _
    | some after =>
      intro p notPart _
      rw [Option.getD_some,Tree.detach_lookup detached,if_neg notPart]

section Checked

variable (sha256 : Bytes → Sha256Digest) (fetch : Fetch) (rel : RelativePath) (expected : Sha256Digest)
  (outText : Bytes) (out : Path) (disk : Disk)

theorem checked_beside :
    Beside (partOf out) out disk (checked sha256 fetch rel expected outText out disk).1 := by
  have fetched := download_beside fetch (outText ++ ascii ".part") (partOf out) out disk
  unfold checked
  split
  · rename_i done
    rwa [done] at fetched
  · rename_i done
    rw [done] at fetched
    split
    · exact fetched
    · split
      · exact fetched
      · exact fetched.trans (move_beside fetch outText (partOf out) out _)

theorem checked_ok (done : (checked sha256 fetch rel expected outText out disk).2 = .ok ()) :
    disk.lookup (partOf out) ≠ some .directory := by
  unfold checked at done
  split at done
  · contradiction
  · rename_i fetched
    exact download_ok (by rw [fetched])

end Checked

/-- No file has the name of a download in progress, where the file itself is missing. -/
def NoStrayPart (dirText : Bytes) (dir : Path) (disk : Disk) : Prop :=
  ∀ rel : RelativePath, parentPath (rel.underRoot dirText) ≠ [] → ∀ content,
    disk.lookup (partOf (rel.under dir)) = some (.file content) → disk.lookup (rel.under dir) ≠ none

/-- What a step may leave behind: no file is harmed, and nothing is lost before an error. -/
structure Spares (before : Disk) (result : Disk × Result Unit) : Prop where
  intact : Intact before result.1
  keeps : result.2 = .ok () → Keeps before result.1

theorem Keeps.spares (keeps : Keeps before after) (result : Result Unit) : Spares before (after,result) :=
  ⟨keeps.intact,fun _ => keeps⟩

theorem Keeps.intact_beside (keeps : Keeps before disk) (absent : before.lookup out = none)
    (free : ∀ content, before.lookup part ≠ some (.file content)) (beside : Beside part out disk after) :
    Intact before after := by
  intro p content found
  rw [beside p]
  · exact keeps p _ found
  · rintro rfl
    exact free content found
  · rintro rfl
    simp [absent] at found

section Run

variable (sha256 : Bytes → Sha256Digest) (dirText : Bytes) (dir : Path)

theorem getFile_spares (clear : NoStrayPart dirText dir before) (keeps : Keeps before disk) (fetch : Fetch)
    (rel : RelativePath) (expected : Sha256Digest) :
    Spares before (getFile sha256 false dirText dir fetch rel expected disk) := by
  unfold getFile
  dsimp only
  split
  · exact keeps.spares _
  rename_i missing
  have absent : before.lookup (rel.under dir) = none := by
    cases found : before.lookup (rel.under dir) with
    | none => rfl
    | some node => simp [keeps _ _ found] at missing
  have created := keeps.trans
    (createParent_keeps fetch (parentPath (rel.underRoot dirText)) (rel.under dir).dropLast disk)
  split
  · rename_i made
    rw [made] at created
    exact created.spares _
  rename_i disk made
  rw [made] at created
  have free : ∀ content, before.lookup (partOf (rel.under dir)) ≠ some (.file content) := by
    intro content found
    refine clear rel ?_ content found absent
    intro empty
    simp [createParent,empty,fail] at made
  have beside := checked_beside sha256 fetch rel expected (rel.underRoot dirText) (rel.under dir) disk
  have opened := checked_ok sha256 fetch rel expected (rel.underRoot dirText) (rel.under dir) disk
  split
  · rename_i broken
    rw [broken] at beside
    constructor
    · exact created.intact_beside absent free (beside.trans (remove_beside fetch _ _ _))
    · intro ok
      contradiction
  · rename_i after done
    rw [done] at beside opened
    refine ⟨created.intact_beside absent free beside,fun _ p node found => ?_⟩
    rw [beside p]
    · exact created p node found
    · rintro rfl
      cases node with
      | file content => exact free content found
      | directory => exact opened rfl (created _ _ found)
    · rintro rfl
      simp [absent] at found

theorem getFiles_spares (clear : NoStrayPart dirText dir before) (list : List (Json × Fetch))
    (keeps : Keeps before disk) : Spares before (getFiles sha256 false dirText dir list disk) := by
  induction list generalizing disk with
  | nil => exact keeps.spares _
  | cons entry rest ih =>
    obtain ⟨v,fetch⟩ := entry
    unfold getFiles
    split
    · exact keeps.spares _
    · rename_i rel expected _
      have step := getFile_spares sha256 dirText dir clear keeps fetch rel expected
      split
      · rename_i failed
        rw [failed] at step
        exact step
      · rename_i done
        rw [done] at step
        exact ih (step.keeps rfl)

/-- The server refuses the download, and nothing goes wrong on the disk. -/
def refusal : Fetch :=
  { mkdirFails := fun _ => false, download := .refused ⟨.notfound,ascii "no such file"⟩, hashFails := none
    renameFails := false, removeFails := false, message := [] }

/-- A download that is refused takes the file of the other name away. -/
theorem refusal_removes {rel : RelativePath} {content : Bytes} (expected : Sha256Digest)
    (parent : parentPath (rel.underRoot dirText) ≠ [])
    (stray : disk.lookup (partOf (rel.under dir)) = some (.file content)) (absent : disk.lookup (rel.under dir) = none) :
    ∃ after e, getFile sha256 false dirText dir refusal rel expected disk = (after,.error e) ∧
      after.lookup (partOf (rel.under dir)) = none := by
  have inner : partOf (rel.under dir) ≠ [] := by simp [partOf]
  have above : disk.lookup (rel.under dir).dropLast = some .directory := by
    have found := Tree.parent_directory (by rw [stray]; simp) inner
    rwa [partOf,List.dropLast_concat] at found
  have created : createParent refusal (parentPath (rel.underRoot dirText)) (rel.under dir).dropLast disk =
      (disk,.ok ()) := by
    rw [createParent,if_neg parent,createDirectories_present _ [] _ above]
  obtain ⟨after,detached⟩ := Option.isSome_iff_exists.mp (Tree.detach_isSome.mpr
    ⟨inner,Tree.isEmpty_of_not_directory (by rw [stray]; simp)⟩)
  refine ⟨after,⟨.notfound,ascii "no such file"⟩,?_,?_⟩
  · rw [getFile]
    simp only [absent,created]
    simp [checked,download,remove,detached,refusal]
  · rw [Tree.detach_lookup detached,if_pos rfl]

def entry (rel : RelativePath) (expected : Sha256Digest) : Json :=
  .obj [(ascii "path",.str rel.value),(ascii "sha256",.str expected.toHex)]

theorem readEntry_entry (rel : RelativePath) (expected : Sha256Digest) :
    readEntry (entry rel expected) = .ok (rel,expected) := by
  have path : str [(ascii "path",.str rel.value),(ascii "sha256",.str expected.toHex)] (ascii "path") = rel.value := by
    simp [str,Json.member,show ascii "sha256" ≠ ascii "path" by decide]
  have digest : str [(ascii "path",.str rel.value),(ascii "sha256",.str expected.toHex)] (ascii "sha256") =
      expected.toHex := by
    simp [str,Json.member]
  simp [entry,readEntry,path,digest,Sha256Digest.fromHex_toHex]

/-- Without --force every file stays as it is, whatever the server sends, if and only if no file ends in .part beside
a missing one. -/
theorem get_spares_files (disk : Disk) :
    (∀ listing, Intact disk (runGet sha256 false dirText dir listing disk).1) ↔ NoStrayPart dirText dir disk := by
  constructor
  · intro spared rel parent content stray absent
    obtain ⟨after,e,failed,gone⟩ := refusal_removes sha256 dirText dir (sha256 []) parent stray absent
    have kept := spared (.ok [(entry rel (sha256 []),refusal)]) _ _ stray
    rw [runGet,getFiles,readEntry_entry] at kept
    simp [failed,gone] at kept
  · intro clear listing
    unfold runGet
    split
    · exact (Keeps.refl disk).intact
    · exact (getFiles_spares sha256 dirText dir clear _ (Keeps.refl disk)).intact

end Run

def strayDisk : Disk := (emptyDisk.assign [ascii "a.part"] (.file (ascii "notes"))).getD emptyDisk

/-- The file a is refused, and a.part is gone. -/
theorem refused_download_removes : strayDisk.lookup [ascii "a.part"] = some (.file (ascii "notes")) ∧
      (runGet Sample.sha256 false (ascii ".") [] (.ok [(.obj [(ascii "path",.str (ascii "a")),
        (ascii "sha256",.str (Sample.sha256 []).toHex)],refusal)]) strayDisk).1.lookup [ascii "a.part"] = none := by
  decide +kernel

end Ftc

end Confide
