import Confide.HealthyRuns

/-! What a file list is worth: as long as no primitive fails, the files of a transaction are
exactly those its list names, and a commit finds nothing wrong with them. -/
namespace Confide

open Bytes

variable {sha256 : Bytes → Sha256Digest} {disk : Disk} {id : TransactionId} {files : List FileEntry}

theorem Payload.file_iff (payload : Payload sha256 disk id files) (q : Path) :
    (∃ content, disk.lookup (filesDir id ++ q) = some (.file content)) ↔
      ∃ entry ∈ files, entry.path.components = q := by
  constructor
  · rintro ⟨content,found⟩
    exact payload.listed q content found
  · rintro ⟨entry,member,rfl⟩
    obtain ⟨content,file,_⟩ := payload.stored entry member
    exact ⟨content,file⟩

theorem Payload.directory_iff (payload : Payload sha256 disk id files) (q : Path) (inner : q ≠ []) :
    disk.lookup (filesDir id ++ q) = some .directory ↔
      ∃ entry ∈ files, q <+: entry.path.components ∧ q ≠ entry.path.components := by
  constructor
  · intro found
    obtain ⟨entry,member,short⟩ := payload.folders q inner found
    refine ⟨entry,member,short,?_⟩
    rintro rfl
    obtain ⟨content,file,_⟩ := payload.stored entry member
    rw [payloadPath,RelativePath.under,found] at file
    simp at file
  · rintro ⟨entry,member,⟨below,whole⟩,other⟩
    obtain ⟨content,file,_⟩ := payload.stored entry member
    refine disk.directory_above _ below ?_ ?_
    · rw [List.append_assoc,whole]
      exact ne_of_eq_of_ne file (by simp)
    · rintro rfl
      exact other (by simpa using whole)

/-- In every state of every run without faults, the regular files of a stored transaction are the
paths of its list, each with the recorded size and digest, its folders are the proper prefixes of
those paths, and whoever may commit it while it is open can. -/
theorem payload_agrees_with_index [BoostJson] (sha256 : Bytes → Sha256Digest) (opts : ServiceOptions) (steps : List (Env × Op))
    (faultless : ∀ step ∈ steps, step.1.Faultless) (s : Server) (reached : s = Server.empty.run sha256 opts steps)
    (id : TransactionId) (tx : Transaction) (stored : s.world.index.lookup id = some tx) :
    (∀ q, (∃ content, s.world.disk.lookup (filesDir id ++ q) = some (.file content)) ↔
        ∃ entry ∈ tx.files, entry.path.components = q) ∧
      (∀ entry ∈ tx.files, ∃ content, s.world.disk.lookup (payloadPath id entry.path) = some (.file content) ∧
        entry.size = UInt64.ofNat content.length ∧ entry.sha256 = sha256 content) ∧
      (∀ q, q ≠ [] → (s.world.disk.lookup (filesDir id ++ q) = some .directory ↔
        ∃ entry ∈ tx.files, q <+: entry.path.components ∧ q ≠ entry.path.components)) ∧
      ∀ env caller, env.Faultless → mayWrite caller tx = true → tx.state = .open →
        (perform sha256 env (TransactionService.commit caller id).run s.world).1 =
          .ok { tx with state := .committed, committedAt := some env.now } := by
  have healthy : Healthy sha256 none s := reached ▸ run_healthy opts (empty_healthy sha256) steps faultless
  have payload := (healthy.folder stored).payload
  refine ⟨payload.file_iff,payload.stored,payload.directory_iff,fun env caller quiet allowed isOpen => ?_⟩
  exact (commit_leads healthy quiet caller id).2 tx stored allowed isOpen

def uploadRun : List (Env × Op) :=
  [(Sample.env,.create Sample.alice Sample.request),(Sample.env,.beginUpload Sample.alice Sample.id Sample.path),
    (Sample.env,.finishUpload 0 none)]

def uploadedTransaction : Transaction where
  id := Sample.id
  sender := ascii "alice"
  targetUser := ascii "bob"
  targetServer := []
  originServer := []
  comment := []
  state := .open
  createdAt := 1750000000
  expiresAt := 1752592000
  committedAt := none
  deliveredAt := none
  files := [⟨Sample.path,0,Sample.sha256 []⟩]

/-- After the upload the list has one path, its folder is there, and the commit goes through. -/
theorem payload_agrees_after_upload :
    (∃ content, (Server.empty.run Sample.sha256 Sample.opts uploadRun).world.disk.lookup
        (filesDir Sample.id ++ [ascii "docs",ascii "a.txt"]) = some (.file content)) ∧
      (Server.empty.run Sample.sha256 Sample.opts uploadRun).world.disk.lookup
        (filesDir Sample.id ++ [ascii "docs"]) = some .directory ∧
      (perform Sample.sha256 Sample.env (TransactionService.commit Sample.alice Sample.id).run
        (Server.empty.run Sample.sha256 Sample.opts uploadRun).world).1 =
          .ok { uploadedTransaction with state := .committed, committedAt := some 1750000000 } := by
  obtain ⟨files,_,folders,commits⟩ := payload_agrees_with_index Sample.sha256 Sample.opts uploadRun
    (by simp [uploadRun,Sample.env_faultless]) _ rfl Sample.id uploadedTransaction (by decide +kernel)
  exact ⟨(files _).mpr ⟨_,List.mem_singleton_self _,by decide⟩,
    (folders _ (by simp)).mpr ⟨_,List.mem_singleton_self _,by decide,by decide⟩,
    commits Sample.env Sample.alice Sample.env_faultless (by decide) rfl⟩

end Confide
