import Confide.HealthyRuns
import Confide.SafePaths

/-! An upload is in conflict with a listed file above or below its own path, and with nothing else. -/
namespace Confide

open Bytes Resumption.Prog DirTree

variable {sha256 : Bytes → Sha256Digest} {env : Env} {w : World} {disk : Disk} {id : TransactionId} {tx : Transaction}
  {files : List FileEntry} {path : RelativePath} {u : Upload} {expected : Option Sha256Digest}

def RelativePath.Above (a b : RelativePath) : Prop := a.value ++ [47] <+: b.value

/-- A listed file is where the path needs a folder, or needs a folder where the path is. -/
def Clash (files : List FileEntry) (path : RelativePath) : Prop :=
  ∃ entry ∈ files, entry.path.Above path ∨ path.Above entry.path

theorem RelativePath.components_whole (path : RelativePath) {part : Bytes} (member : part ∈ path.components) : 47 ∉ part := by
  have inhabited : part ≠ [] := List.length_pos_iff.mp ((componentProblem_none part).mp (path.component_fine part member)).1
  exact (LexicalPath.proper_names (List.mem_filter.mpr ⟨member,by simpa using inhabited⟩)).whole

theorem RelativePath.above_iff {a b : RelativePath} : a.Above b ↔ ∃ rest, rest ≠ [] ∧ b.components = a.components ++ rest := by
  constructor
  · rintro ⟨below,joined⟩
    rw [List.append_assoc,List.singleton_append] at joined
    apply Exists.intro (below.splitOn 47)
    apply And.intro (List.splitOn_ne_nil _ _)
    rw [RelativePath.components,← joined,LexicalPath.splitOn_separated]
    rfl
  · rintro ⟨rest,more,split⟩
    have whole : ∀ part ∈ rest, 47 ∉ part := fun part member =>
      b.components_whole (split ▸ List.mem_append_right _ member)
    have parts : (a.value ++ 47 :: [47].intercalate rest).splitOn 47 = b.components := by
      rw [LexicalPath.splitOn_separated,List.splitOn_intercalate 47 whole more]
      exact split.symm
    have joined : [47].intercalate b.components = b.value := List.intercalate_splitOn 47
    rw [RelativePath.Above,← joined,← parts,List.intercalate_splitOn]
    exact ⟨[47].intercalate rest,by simp⟩

section

variable (payload : Payload sha256 disk id files)
include payload

theorem Payload.file_above {entry : FileEntry} (member : entry ∈ files)
    (above : entry.path.Above path) :
    ∃ q content, q <+: (payloadPath id path).dropLast ∧ disk.lookup q = some (.file content) := by
  obtain ⟨rest,more,split⟩ := RelativePath.above_iff.mp above
  obtain ⟨content,file,_⟩ := payload.stored entry member
  apply Exists.intro (payloadPath id entry.path)
  apply Exists.intro content
  apply And.intro _ file
  rw [payloadPath_dropLast,split,List.dropLast_append_of_ne_nil more,payloadPath,RelativePath.under,← List.append_assoc]
  exact List.prefix_append _ _

theorem Payload.folder_at {entry : FileEntry} (member : entry ∈ files)
    (above : path.Above entry.path) : disk.lookup (payloadPath id path) = some .directory := by
  obtain ⟨rest,more,split⟩ := RelativePath.above_iff.mp above
  obtain ⟨content,file,_⟩ := payload.stored entry member
  apply disk.directory_above _ rest _ more
  rw [payloadPath,RelativePath.under,List.append_assoc,← split]
  change disk.lookup (payloadPath id entry.path) ≠ none
  rw [file]
  exact Option.some_ne_none _

theorem Payload.above_of_file {q : Path} {content : Bytes}
    (above : q <+: (payloadPath id path).dropLast) (file : disk.lookup q = some (.file content)) :
    ∃ entry ∈ files, entry.path.Above path := by
  rw [payloadPath_dropLast] at above
  rcases List.prefix_or_prefix_of_prefix above (List.prefix_append (filesDir id) _) with outer | ⟨inner,rfl⟩
  · simp [Tree.directory_prefix payload.directory outer] at file
  · obtain ⟨entry,member,named⟩ := payload.listed inner content file
    obtain ⟨rest,joined⟩ := (List.prefix_append_right_inj _).mp above
    apply Exists.intro entry
    apply And.intro member
    apply RelativePath.above_iff.mpr
    apply Exists.intro (rest ++ [path.components.getLast path.components_ne_nil])
    apply And.intro (by simp)
    rw [← List.append_assoc,named,joined,List.dropLast_append_getLast]

theorem Payload.above_of_folder
    (folder : disk.lookup (payloadPath id path) = some .directory) : ∃ entry ∈ files, path.Above entry.path := by
  obtain ⟨entry,member,rest,joined⟩ := payload.folders path.components path.components_ne_nil folder
  apply Exists.intro entry
  apply And.intro member
  apply RelativePath.above_iff.mpr
  apply Exists.intro rest
  apply And.intro _ joined.symm
  rintro rfl
  obtain ⟨content,file,_⟩ := payload.stored entry member
  rw [payloadPath,RelativePath.under,← joined,List.append_nil] at file
  simp [payloadPath,RelativePath.under,file] at folder

theorem Payload.clash_of_refused (final : u.final = payloadPath id u.path)
    (agreed : ∀ want ∈ expected, want = sha256 u.hashed) {code : ErrCode} (refused : Refused sha256 disk u expected code) :
    code = .conflict ∧ Clash files u.path := by
  cases refused with
  | checksum want asked different => exact absurd (agreed want asked) different
  | fileAbove q content above file =>
    obtain ⟨entry,member,above⟩ := payload.above_of_file (final ▸ above) file
    exact ⟨rfl,entry,member,.inl above⟩
  | folder there =>
    obtain ⟨entry,member,above⟩ := payload.above_of_folder (final ▸ there)
    exact ⟨rfl,entry,member,.inr above⟩

theorem Payload.no_clash {disk' : Disk} {content : Bytes}
    (final : u.final = payloadPath id u.path) (free : disk.lookup u.final ≠ some .directory)
    (moved : Moved disk disk' u.tmp u.final content) : ¬ Clash files u.path := by
  rintro ⟨entry,member,above | below⟩
  · obtain ⟨q,old,inside,file⟩ := payload.file_above member above
    exact moved.parents q old (final ▸ inside) file
  · exact free (final ▸ payload.folder_at member below)

end

/-- A clash ends the upload, and without one the file is listed. -/
structure Listing (sha256 : Bytes → Sha256Digest) (tx : Transaction) (p : PendingUpload) (result : Result FileEntry)
    (w : World) :
    Prop where
  refused : Clash tx.files p.upload.path → ∃ e, result = .error e ∧ e.code = .conflict
  stored : ¬ Clash tx.files p.upload.path →
    result = .ok ⟨p.upload.path,p.upload.size,sha256 p.upload.hashed⟩ ∧ w.index.lookup p.id = some { tx with
      files := upsertFile tx.files ⟨p.upload.path,p.upload.size,sha256 p.upload.hashed⟩ }

theorem finishUpload_listing [BoostJson] {pending : List PendingUpload} {p : PendingUpload} {k : Nat}
    (healthy : Healthy sha256 none ⟨w,pending⟩)
    (faultless : env.Faultless) (here : pending[k]? = some p) (progress : p.upload.done = false)
    (known : w.index.lookup p.id = some tx) (isOpen : tx.state = .open) (agreed : ∀ want ∈ expected,
    want = sha256 p.upload.hashed) :
    Listing sha256 tx p (perform sha256 env (TransactionService.finishUpload p expected) w).1.1
      (perform sha256 env (TransactionService.finishUpload p expected) w).2 := by
  have live := healthy.live p (List.mem_of_getElem? here) progress
  have folder := healthy.folder known
  obtain ⟨spent,unindexed,done⟩ := live.commit progress sha256 env expected
  apply finishUpload_rule (P := fun result w' => Listing sha256 tx p result.1 w')
  · exact fun absent => absurd absent (by simp [known])
  · intro tx' e known' closed
    obtain rfl := Option.some.inj (known.symm.trans known')
    exact absurd isOpen closed
  · intro tx' e u w₁ known' _ run
    rw [run] at done
    obtain ⟨bad,_⟩ | ⟨e',disk,failed,_,_,clean⟩ := done
    · contradiction
    cases failed
    obtain ⟨_,_,refused⟩ := clean (faultless _)
    obtain ⟨code,clash⟩ := folder.payload.clash_of_refused live.final agreed refused
    exact ⟨fun _ => ⟨e,rfl,code⟩,fun clear => absurd clash clear⟩
  · intro tx' file u w₁ known' _ run
    obtain rfl := Option.some.inj (known.symm.trans known')
    rw [run] at spent unindexed done
    obtain rfl : u = { p.upload with done := true } := spent
    obtain ⟨ok,_,free,moved⟩ | ⟨_,_,bad,_⟩ := done
    swap
    · contradiction
    obtain rfl : file = ⟨p.upload.path,p.upload.size,sha256 p.upload.hashed⟩ := Except.ok.inj ok
    have clear := folder.payload.no_clash live.final free moved
    obtain ⟨ok,index,_⟩ := healthy.listed here progress { p with upload := { p.upload with done := true } } rfl known isOpen
      unindexed moved faultless rfl
    constructor
    · intro e failed
      rw [StoredFile.entry,ok] at failed
      contradiction
    · intro _ log
      apply Listing.mk fun clash => absurd clash clear
      intro _
      apply And.intro rfl
      rw [StoredFile.entry,index,Finmap.lookup_insert]

/-- In every state that operations without a fault lead to, the end of an upload with the right checksum is a conflict
exactly if the path of a listed file is a folder of its own path, or the other way round; else the file is listed. -/
theorem clashes_are_conflicts [BoostJson] (sha256 : Bytes → Sha256Digest) (opts : ServiceOptions) (steps : List (Env × Op))
    (faultless : ∀ step ∈ steps, step.1.Faultless) (s : Server) (reached : s = Server.empty.run sha256 opts steps) (k : Nat)
    (p : PendingUpload) (here : s.pending[k]? = some p) (progress : p.upload.done = false) (tx : Transaction)
    (known : s.world.index.lookup p.id = some tx) (isOpen : tx.state = .open) (env : Env) (fine : env.Faultless)
    (expected : Option Sha256Digest) (agreed : ∀ want ∈ expected, want = sha256 p.upload.hashed) :
    ((∃ e, s.reply sha256 opts env (.finishUpload k expected) = .error e ∧ e.code = .conflict) ↔ Clash tx.files p.upload.path) ∧
      (¬ Clash tx.files p.upload.path → s.reply sha256 opts env (.finishUpload k expected) = .ok () ∧
        ∃ files, (s.step sha256 opts env (.finishUpload k expected)).world.index.lookup p.id = some { tx with files := files } ∧
          Sorted files ∧ ∀ entry, entry ∈ files ↔ entry = ⟨p.upload.path,p.upload.size,sha256 p.upload.hashed⟩ ∨
            (entry ∈ tx.files ∧ entry.path ≠ p.upload.path)) := by
  have healthy : Healthy sha256 none s := reached ▸ run_healthy opts (empty_healthy sha256) steps faultless
  have sorted := (healthy.folder known).payload.sorted
  have outcome := finishUpload_listing healthy fine here progress known isOpen agreed
  have reply : s.reply sha256 opts env (.finishUpload k expected) =
      (perform sha256 env (TransactionService.finishUpload p expected) s.world).1.1.map fun _ => () := by
    simp only [Server.reply,Server.outcome,Op.program,here,perform,run_bind]
    rfl
  have world : (s.step sha256 opts env (.finishUpload k expected)).world =
      (perform sha256 env (TransactionService.finishUpload p expected) s.world).2 := by
    simp only [Server.step,Server.outcome,Op.program,here,perform,run_bind]
    rfl
  rw [reply,world]
  constructor
  · constructor
    · rintro ⟨e,failed,_⟩
      by_contra clear
      rw [(outcome.stored clear).1] at failed
      contradiction
    · intro clash
      obtain ⟨e,failed,code⟩ := outcome.refused clash
      exact ⟨e,by rw [failed]; rfl,code⟩
  · intro clear
    obtain ⟨done,listed⟩ := outcome.stored clear
    exact ⟨by rw [done]; rfl,_,listed,upsertFile_sorted sorted _,mem_upsertFile sorted _⟩

namespace Sample

def docs : RelativePath := ⟨ascii "docs",by decide⟩

/-- The file that made a folder of the name is gone when an upload takes the name itself. -/
def folderToFile : List (Env × Op) :=
  [(Sample.env,.create alice request),(Sample.env,.beginUpload alice Sample.id Sample.path),(Sample.env,.finishUpload 0 none),
    (Sample.env,.beginUpload alice Sample.id docs),(Sample.env,.removeFile alice Sample.id Sample.path)]

def draft : Transaction := ⟨Sample.id,ascii "alice",ascii "bob",[],[],[],.open,1750000000,1752592000,none,none,[]⟩

end Sample

theorem former_folder_is_free :
    let s := Server.empty.run Sample.sha256 Sample.opts Sample.folderToFile
    s.reply Sample.sha256 Sample.opts Sample.env (.finishUpload 1 none) = .ok () := by
  intro s
  have clear : ¬ Clash Sample.draft.files Sample.docs := by simp [Clash,Sample.draft]
  have settled := clashes_are_conflicts Sample.sha256 Sample.opts Sample.folderToFile
    (by simp [Sample.folderToFile,Sample.env_faultless]) s rfl 1
    ⟨Sample.id,Sample.alice,tmpPath Sample.id 3,payloadPath Sample.id Sample.docs,Sample.docs,[],0,false⟩ (by decide +kernel) rfl
    Sample.draft (by decide +kernel) rfl Sample.env Sample.env_faultless none nofun
  exact (settled.2 clear).1

end Confide
