import Confide.Server

/-! As long as nothing fails, the index and the disk say the same: a folder for each
transaction with its documents and exactly its files, no folder for anything else, and a
temp file for each upload in progress. -/
namespace Confide

open Bytes DirTree

variable {sha256 : Bytes → Sha256Digest} {disk disk' : Disk} {id : TransactionId} {tx tx' : Transaction}

/-- A file for each entry, a folder above one, and nothing else. -/
structure Payload (sha256 : Bytes → Sha256Digest) (disk : Disk) (id : TransactionId) (files : List FileEntry) :
    Prop where
  sorted : Sorted files
  directory : disk.lookup (filesDir id) = some .directory
  stored : ∀ entry ∈ files, entry.Matches sha256 disk id
  listed : ∀ q content, disk.lookup (filesDir id ++ q) = some (.file content) →
    ∃ entry ∈ files, entry.path.components = q
  folders : ∀ q, q ≠ [] → disk.lookup (filesDir id ++ q) = some .directory →
    ∃ entry ∈ files, q <+: entry.path.components

section

variable [BoostJson]

def manifestOf (tx : Transaction) : Option (Node Bytes) :=
  if tx.state = .open then none else some (.file (encodeManifest tx))

/-- The folder of a transaction: its documents, of which the manifest comes with the commit, and its files. One that was
marked for removal while it was open has no manifest. -/
structure Folder (sha256 : Bytes → Sha256Digest) (disk : Disk) (id : TransactionId) (tx : Transaction) : Prop where
  named : tx.id = id
  document : disk.lookup (documentPath id .meta) = some (.file (encodeMeta tx))
  manifest : tx.state ≠ .expired → disk.lookup (documentPath id .manifest) = manifestOf tx
  payload : Payload sha256 disk id tx.files

def Agrees (sha256 : Bytes → Sha256Digest) (disk : Disk) (id : TransactionId) : Option Transaction → Prop
  | none => disk.lookup (transactionDir id) = none
  | some tx => Folder sha256 disk id tx

/-- An upload in progress has a temp file that holds what was hashed. -/
structure Live (w : World) (p : PendingUpload) : Prop where
  tmp : ∃ n, n < w.tmpCount ∧ p.upload.tmp = tmpPath p.id n
  final : p.upload.final = payloadPath p.id p.upload.path
  content : w.disk.lookup p.upload.tmp = some (.file p.upload.hashed)
  size : p.upload.size = UInt64.ofNat p.upload.hashed.length

def Apart (pending : List PendingUpload) : Prop :=
  pending.Pairwise fun p q => p.upload.done = false → q.upload.done = false → p.upload.tmp ≠ q.upload.tmp

/-- The index and the disk agree on every id, except perhaps on one that is being changed. -/
structure Healthy (sha256 : Bytes → Sha256Digest) (aside : Option TransactionId) (s : Server) : Prop where
  tmp : s.world.disk.lookup tmpDir = some .directory
  top : s.world.disk.lookup transactionsDir = some .directory
  fresh : FreshTmp s.world
  agrees : ∀ id, some id ≠ aside → Agrees sha256 s.world.disk id (s.world.index.lookup id)
  live : ∀ p ∈ s.pending, p.upload.done = false → Live s.world p
  apart : Apart s.pending

end

variable {files : List FileEntry}

theorem Payload.frame (payload : Payload sha256 disk id files)
    (same : ∀ q, disk'.lookup (filesDir id ++ q) = disk.lookup (filesDir id ++ q)) :
    Payload sha256 disk' id files := by
  refine ⟨payload.sorted,?_,?_,?_,?_⟩
  · have := same []
    rw [List.append_nil] at this
    rw [this,payload.directory]
  · intro entry member
    obtain ⟨content,file,right⟩ := payload.stored entry member
    exact ⟨content,by rw [payloadPath,RelativePath.under,same]; exact file,right⟩
  · intro q content found
    exact payload.listed q content (by rw [← same,found])
  · intro q inner found
    exact payload.folders q inner (by rw [← same,found])

theorem Agrees.frame [BoostJson] {entry : Option Transaction} (agrees : Agrees sha256 disk id entry)
    (same : ∀ q, transactionDir id <+: q → disk'.lookup q = disk.lookup q) : Agrees sha256 disk' id entry := by
  cases entry with
  | none => exact (same _ (List.prefix_refl _)).trans agrees
  | some tx =>
    exact ⟨agrees.named,(same _ (document_in_folder id .meta)).trans agrees.document,
      fun current => (same _ (document_in_folder id .manifest)).trans (agrees.manifest current),
      agrees.payload.frame fun q => same _ (files_in_folder id q)⟩

theorem Payload.ready (payload : Payload sha256 disk id files)
    (tmp : disk.lookup tmpDir = some .directory) : Ready disk id := ⟨tmp,payload.directory⟩

variable {w : World} {p : PendingUpload}

theorem Live.used (live : Live w p) : ¬ w.Unused p.upload.tmp := by
  obtain ⟨n,small,path⟩ := live.tmp
  rintro ⟨id,n',large,same⟩
  have := (tmpPath_injective (path.symm.trans same)).2
  omega

theorem Live.outside (live : Live w p) (id : TransactionId) :
    ¬ transactionDir id <+: p.upload.tmp := by
  obtain ⟨n,_,path⟩ := live.tmp
  rw [path]
  exact tmpPath_outside id p.id n

variable {w' : World}

theorem Live.frame (live : Live w p) (count : w.tmpCount ≤ w'.tmpCount)
    (same : w'.disk.lookup p.upload.tmp = w.disk.lookup p.upload.tmp) : Live w' p := by
  obtain ⟨n,small,path⟩ := live.tmp
  exact ⟨⟨n,Nat.lt_of_lt_of_le small count,path⟩,live.final,same.trans live.content,live.size⟩

variable {aside : Option TransactionId}

/-- A change that keeps to one folder, to new temp files and to one that is spent leaves everything
else in order. -/
theorem Healthy.inside [BoostJson] {pending : List PendingUpload} {spent : Path}
    (healthy : Healthy sha256 aside ⟨w,pending⟩) (only : aside = none ∨ aside = some id) (fresh : FreshTmp w')
    (count : w.tmpCount ≤ w'.tmpCount) (index : ∀ id', id' ≠ id → w'.index.lookup id' = w.index.lookup id')
    (isTmp : ∃ id n, spent = tmpPath id n) (unclaimed : ∀ p ∈ pending, p.upload.done = false → p.upload.tmp ≠ spent)
    (frame : ∀ q, ¬ transactionDir id <+: q → ¬ w.Unused q → q ≠ spent → w'.disk.lookup q = w.disk.lookup q) :
    Healthy sha256 (some id) ⟨w',pending⟩ := by
  obtain ⟨owner,k,rfl⟩ := isTmp
  have top : ∀ name : Bytes, w'.disk.lookup [name] = w.disk.lookup [name] := by
    refine fun name => frame _ (fun above => ?_) ?_ (by simp [tmpPath,tmpDir])
    · have := above.length_le
      simp [transactionDir,transactionsDir] at this
    · rintro ⟨id',n,_,same⟩
      simp [tmpPath,tmpDir] at same
  refine ⟨(top _).trans healthy.tmp,(top _).trans healthy.top,fresh,?_,?_,healthy.apart⟩
  · intro id' other
    have different : id' ≠ id := fun same => other (same ▸ rfl)
    have known := healthy.agrees id' (by rcases only with rfl | rfl <;> simp [different])
    simp only [index id' different]
    refine known.frame fun q inFolder => frame q ?_ ?_ ?_
    · intro here
      exact different (transactionDir_apart inFolder here)
    · rintro ⟨id'',n,_,rfl⟩
      exact tmpPath_outside _ _ _ inFolder
    · rintro rfl
      exact tmpPath_outside _ _ _ inFolder
  · intro p member progress
    have live := healthy.live p member progress
    exact live.frame count (frame _ (live.outside id) live.used (unclaimed p member progress))

/-- The same for a change that needs no upload's temp file. -/
theorem Healthy.confined [BoostJson] {pending : List PendingUpload}
    (healthy : Healthy sha256 aside ⟨w,pending⟩) (only : aside = none ∨ aside = some id) (fresh : FreshTmp w')
    (count : w.tmpCount ≤ w'.tmpCount) (index : ∀ id', id' ≠ id → w'.index.lookup id' = w.index.lookup id')
    (frame : ∀ q, ¬ transactionDir id <+: q → ¬ w.Unused q → w'.disk.lookup q = w.disk.lookup q) :
    Healthy sha256 (some id) ⟨w',pending⟩ := by
  refine healthy.inside only fresh count index ⟨id,w.tmpCount,rfl⟩ ?_ fun q outside used _ => frame q outside used
  intro p member progress same
  exact (healthy.live p member progress).used (same ▸ w.unused_next id)

variable {s : Server}

theorem Healthy.settle [BoostJson] (healthy : Healthy sha256 (some id) s)
    (agrees : Agrees sha256 s.world.disk id (s.world.index.lookup id)) : Healthy sha256 none s := by
  refine ⟨healthy.tmp,healthy.top,healthy.fresh,fun id' _ => ?_,healthy.live,healthy.apart⟩
  by_cases same : id' = id
  · exact same ▸ agrees
  · exact healthy.agrees id' (by simpa using same)

section Calls

variable {env : Env} {w : World} {pending : List PendingUpload} {aside : Option TransactionId}

variable [BoostJson]

theorem Healthy.touch (healthy : Healthy sha256 aside ⟨w,pending⟩) (tx : Transaction) (only : aside = none ∨ aside = some tx.id)
    (clear : env.Clear .save) (known : w.index.lookup tx.id ≠ none)
    (files : w.disk.lookup (filesDir tx.id) = some .directory)
    (free : w.disk.lookup (documentPath tx.id .meta) ≠ some .directory) :
    (Svc.handle sha256 env (.save tx) w).1 = .ok () ∧
      (Svc.handle sha256 env (.save tx) w).2.index = w.index.insert tx.id tx ∧
      (∀ q, (Svc.handle sha256 env (.save tx) w).2.disk.lookup q =
        if q = documentPath tx.id .meta then some (.file (encodeMeta tx)) else w.disk.lookup q) ∧
      Healthy sha256 (some tx.id) ⟨(Svc.handle sha256 env (.save tx) w).2,pending⟩ := by
  have effect := save_effect sha256 env tx w healthy.fresh
  have ok := effect.works clear known ⟨healthy.tmp,files⟩ free
  have disk := effect.document.done ok
  obtain ⟨_,index⟩ := effect.done ok
  refine ⟨ok,index,disk,?_⟩
  refine healthy.confined only effect.document.fresh effect.document.count (fun id' other => ?_) fun q outside _ => ?_
  · rw [index,Finmap.lookup_insert_of_ne _ other]
  · rw [disk,if_neg]
    rintro rfl
    exact outside (document_in_folder tx.id .meta)

/-- Saving brings the index in line with a folder that is up to date but for meta.json. -/
theorem Healthy.save (healthy : Healthy sha256 aside ⟨w,pending⟩) (tx : Transaction) (only : aside = none ∨ aside = some tx.id)
    (clear : env.Clear .save) (known : w.index.lookup tx.id ≠ none)
    (free : w.disk.lookup (documentPath tx.id .meta) ≠ some .directory)
    (manifest : tx.state ≠ .expired → w.disk.lookup (documentPath tx.id .manifest) = manifestOf tx)
    (payload : Payload sha256 w.disk tx.id tx.files) : (Svc.handle sha256 env (.save tx) w).1 = .ok () ∧
      (Svc.handle sha256 env (.save tx) w).2.index = w.index.insert tx.id tx ∧
      Healthy sha256 none ⟨(Svc.handle sha256 env (.save tx) w).2,pending⟩ := by
  obtain ⟨ok,index,disk,rest⟩ := healthy.touch tx only clear known payload.directory free
  refine ⟨ok,index,rest.settle ?_⟩
  simp only [index,Finmap.lookup_insert]
  refine ⟨rfl,by rw [disk,if_pos rfl],?_,payload.frame fun q => ?_⟩
  · intro current
    rw [disk,if_neg (fun same => by cases documentPath_injective same),manifest current]
  · rw [disk,if_neg (document_apart q).symm]

/-- A transaction comes with an empty folder, or nothing changes. -/
theorem Healthy.insert (healthy : Healthy sha256 none ⟨w,pending⟩) (clear : env.Clear .insert)
    (isOpen : tx.state = .open) (empty : tx.files = []) :
    Healthy sha256 none ⟨(Svc.handle sha256 env (.insert tx) w).2,pending⟩ := by
  have effect := insert_effect sha256 env tx w healthy.fresh
  have agrees := healthy.agrees tx.id (by simp)
  cases known : w.index.lookup tx.id with
  | some old =>
    obtain ⟨failed,same⟩ := effect.known (by rw [known]; simp)
    have rest : Healthy sha256 (some tx.id) ⟨(Svc.handle sha256 env (.insert tx) w).2,pending⟩ :=
      healthy.confined (.inl rfl) effect.fresh effect.count (fun id' _ => by rw [(effect.failed failed).1])
        fun q _ _ => by rw [same]
    refine rest.settle ?_
    simp only [(effect.failed failed).1,same]
    exact agrees
  | none =>
    simp only [known] at agrees
    have ok := effect.works clear known healthy.tmp healthy.top agrees
    obtain ⟨_,index,_,disk⟩ := effect.done ok
    have rest : Healthy sha256 (some tx.id) ⟨(Svc.handle sha256 env (.insert tx) w).2,pending⟩ := by
      refine healthy.confined (.inl rfl) effect.fresh effect.count (fun id' other => ?_) fun q outside _ => ?_
      · rw [index,Finmap.lookup_insert_of_ne _ other]
      · rw [disk,if_neg (by rintro rfl; exact outside (document_in_folder tx.id .meta)),if_neg]
        rintro (rfl | rfl)
        · exact outside (List.prefix_refl _)
        · exact outside (List.prefix_append _ _)
    refine rest.settle ?_
    simp only [index,Finmap.lookup_insert]
    have below : ∀ q, q ≠ [] → w.disk.lookup (transactionDir tx.id ++ q) = none := fun q inner =>
      Tree.nothing_below (by rw [show w.disk.lookup (transactionDir tx.id) = none from agrees]; simp) q inner
    have files : ∀ q, q ≠ [] →
        (Svc.handle sha256 env (.insert tx) w).2.disk.lookup (filesDir tx.id ++ q) = none := fun q inner => by
      rw [disk,if_neg (document_apart q).symm,if_neg (by simp [filesDir,inner]),filesDir,List.append_assoc,
        below _ (by simp)]
    refine ⟨rfl,by rw [disk,if_pos rfl],?_,?_⟩
    · intro _
      rw [disk,if_neg (fun same => by cases documentPath_injective same),if_neg,documentPath,below _ (by simp),
        manifestOf,if_pos isOpen]
      rintro (same | same)
      · simp [documentPath] at same
      · exact document_apart [] (by simpa using same)
    · rw [empty]
      refine ⟨List.Pairwise.nil,?_,by simp,fun q content found => ?_,fun q inner found => ?_⟩
      · rw [disk,if_neg (fun same => document_apart [] (by simpa using same.symm)),if_pos (.inr rfl)]
      · by_cases inner : q = []
        · subst inner
          rw [List.append_nil,disk,if_neg (fun same => document_apart [] (by simpa using same.symm)),
            if_pos (.inr rfl)] at found
          simp at found
        · rw [files q inner] at found
          contradiction
      · rw [files q inner] at found
        contradiction

theorem Healthy.remove (healthy : Healthy sha256 aside ⟨w,pending⟩) (only : aside = none ∨ aside = some id)
    (clear : env.Clear .remove) (there : w.disk.lookup (transactionDir id) ≠ none) :
    (Svc.handle sha256 env (.remove id) w).1 = .ok () ∧
      (Svc.handle sha256 env (.remove id) w).2.index = w.index.erase id ∧
      Healthy sha256 none ⟨(Svc.handle sha256 env (.remove id) w).2,pending⟩ := by
  have effect := remove_effect sha256 env id w healthy.fresh
  have ok := effect.works clear there
  obtain ⟨index,gone⟩ := effect.done ok
  have rest : Healthy sha256 (some id) ⟨(Svc.handle sha256 env (.remove id) w).2,pending⟩ := by
    refine healthy.confined only effect.fresh effect.count (fun id' other => ?_) fun q outside _ => ?_
    · rw [index,Finmap.lookup_erase_ne other]
    · exact effect.outside outside
  refine ⟨ok,index,rest.settle ?_⟩
  simp only [index,Finmap.lookup_erase]
  exact gone _ (List.prefix_refl _)

theorem Healthy.removed (healthy : Healthy sha256 none ⟨w,pending⟩) (clear : env.Clear .remove) (id : TransactionId) :
    Healthy sha256 none ⟨(Svc.handle sha256 env (.remove id) w).2,pending⟩ := by
  by_cases there : w.disk.lookup (transactionDir id) = none
  · have effect := remove_effect sha256 env id w healthy.fresh
    have index : ∀ id', id' ≠ id → (Svc.handle sha256 env (.remove id) w).2.index.lookup id' = w.index.lookup id' := by
      intro id' other
      by_cases ok : (Svc.handle sha256 env (.remove id) w).1 = .ok ()
      · rw [(effect.done ok).1,Finmap.lookup_erase_ne other]
      · rw [(effect.failed ok).1]
    have unknown : w.index.lookup id = none := by
      have agrees := healthy.agrees id (by simp)
      cases known : w.index.lookup id with
      | none => rfl
      | some tx =>
        rw [known] at agrees
        have inside := w.disk.nothing_below (by rw [there]; simp) [ascii "files"] (by simp)
        have files := agrees.payload.directory
        rw [filesDir,inside] at files
        cases files
    refine (healthy.confined (.inl rfl) effect.fresh effect.count index fun q outside _ => effect.outside outside).settle ?_
    have gone : (Svc.handle sha256 env (.remove id) w).2.index.lookup id = none := by
      by_cases ok : (Svc.handle sha256 env (.remove id) w).1 = .ok ()
      · rw [(effect.done ok).1,Finmap.lookup_erase]
      · rw [(effect.failed ok).1,unknown]
    dsimp only
    rw [gone]
    exact (effect.frame _).elim (fun same => same.trans there) fun erased => erased.2
  · exact (healthy.remove (.inl rfl) clear there).2.2

end Calls

theorem payloadPath_injective {path path' : RelativePath} (same : payloadPath id path = payloadPath id path') :
    path = path' := by
  rw [payloadPath,payloadPath,RelativePath.under,RelativePath.under,List.append_cancel_left_eq] at same
  exact RelativePath.components_injective same

theorem payloadPath_dropLast (id : TransactionId) (path : RelativePath) :
    (payloadPath id path).dropLast = filesDir id ++ path.components.dropLast := by
  rw [payloadPath,RelativePath.under,List.dropLast_append_of_ne_nil path.components_ne_nil]

/-- The path of an uploaded file takes the place of whatever had it before. -/
theorem Payload.upsert {path : RelativePath} {content : Bytes} {owner : TransactionId} {n : Nat}
    (payload : Payload sha256 disk id files)
    (moved : Moved disk disk' (tmpPath owner n) (payloadPath id path) content) :
    Payload sha256 disk' id (upsertFile files ⟨path,UInt64.ofNat content.length,sha256 content⟩) := by
  have notTmp : ∀ q, filesDir id ++ q ≠ tmpPath owner n := fun q same =>
    tmpPath_outside id owner n (same ▸ files_in_folder id q)
  have result : ∀ q, disk'.lookup (filesDir id ++ q) = if q = path.components then some (.file content)
      else if q <+: path.components.dropLast then some .directory else disk.lookup (filesDir id ++ q) := fun q => by
    rw [moved.result,if_neg (notTmp q),payloadPath_dropLast,payloadPath,RelativePath.under]
    simp only [List.append_cancel_left_eq,List.prefix_append_right_inj]
  have mem := fun file => mem_upsertFile payload.sorted ⟨path,UInt64.ofNat content.length,sha256 content⟩ file
  refine ⟨upsertFile_sorted payload.sorted _,?_,?_,?_,?_⟩
  · have := result []
    rw [List.append_nil,if_neg path.components_ne_nil.symm,if_pos (List.nil_prefix)] at this
    exact this
  · intro entry member
    rcases (mem entry).mp member with rfl | ⟨old,other⟩
    · exact ⟨content,by rw [payloadPath,RelativePath.under,result,if_pos rfl],rfl,rfl⟩
    · obtain ⟨stored,file,same⟩ := payload.stored entry old
      refine ⟨stored,?_,same⟩
      rw [payloadPath,RelativePath.under] at file ⊢
      rw [result,if_neg fun same => other (RelativePath.components_injective same),if_neg,file]
      intro short
      refine moved.parents _ stored ?_ file
      rw [payloadPath_dropLast]
      exact (List.prefix_append_right_inj _).mpr short
  · intro q old found
    rw [result] at found
    split at found
    · rename_i here
      exact ⟨_,(mem _).mpr (.inl rfl),here.symm⟩
    split at found
    · simp at found
    · rename_i other _
      obtain ⟨entry,member,comps⟩ := payload.listed q old found
      refine ⟨entry,(mem entry).mpr (.inr ⟨member,?_⟩),comps⟩
      rintro rfl
      exact other comps.symm
  · intro q inner found
    rw [result] at found
    split at found
    · simp at found
    split at found
    · rename_i short
      exact ⟨_,(mem _).mpr (.inl rfl),short.trans (List.dropLast_prefix _)⟩
    · obtain ⟨entry,member,short⟩ := payload.folders q inner found
      by_cases same : entry.path = path
      · exact ⟨_,(mem _).mpr (.inl rfl),same ▸ short⟩
      · exact ⟨entry,(mem entry).mpr (.inr ⟨member,same⟩),short⟩

theorem mem_eraseFile (sorted : Sorted files) (path : RelativePath) (entry : FileEntry) :
    entry ∈ files.eraseP (fun file => file.path = path) ↔ entry ∈ files ∧ entry.path ≠ path := by
  induction files with
  | nil => simp
  | cons file files ih =>
    obtain ⟨first,rest⟩ := List.pairwise_cons.mp sorted
    by_cases here : file.path = path
    · rw [List.eraseP_cons_of_pos (by simpa using here)]
      have later : entry ∈ files → entry.path ≠ path := fun member same =>
        absurd (first entry member) (by rw [here,same]; exact lt_irrefl _)
      constructor
      · exact fun member => ⟨List.mem_cons_of_mem _ member,later member⟩
      · rintro ⟨member,other⟩
        exact (List.mem_cons.mp member).resolve_left (by rintro rfl; exact other here)
    · rw [List.eraseP_cons_of_neg (by simpa using here),List.mem_cons,List.mem_cons,ih rest]
      constructor
      · rintro (rfl | ⟨member,other⟩)
        · exact ⟨.inl rfl,here⟩
        · exact ⟨.inr member,other⟩
      · rintro ⟨rfl | member,other⟩
        · exact .inl rfl
        · exact .inr ⟨member,other⟩

section Erase

variable {files : List FileEntry} {path : RelativePath} {kept gone : Path} {content : Bytes}

theorem kept_above (names : path.components.dropLast = kept ++ gone) : kept <+: path.components := by
  have above := List.dropLast_prefix path.components
  rw [names] at above
  exact (List.prefix_append _ _).trans above

theorem kept_shorter (names : path.components.dropLast = kept ++ gone) : path.components ≠ kept := by
  intro same
  have := congrArg List.length names
  have := List.length_pos_of_ne_nil path.components_ne_nil
  rw [← same] at *
  simp only [List.length_dropLast,List.length_append] at *
  omega

theorem Pruned.inside (pruned : Pruned disk disk' (filesDir id ++ kept) (payloadPath id path)) (q : Path) :
    disk'.lookup (filesDir id ++ q) = if kept <+: q ∧ q ≠ kept ∧ q <+: path.components then none
      else disk.lookup (filesDir id ++ q) := by
  rw [pruned,payloadPath,RelativePath.under]
  simp only [List.prefix_append_right_inj,ne_eq,List.append_cancel_left_eq]

variable (payload : Payload sha256 disk id files) (names : path.components.dropLast = kept ++ gone)
  (pruned : Pruned disk disk' (filesDir id ++ kept) (payloadPath id path))

include payload pruned

theorem Payload.spares {entry : FileEntry} (file : disk.lookup (payloadPath id path) = some (.file content))
    (member : entry ∈ files) (other : entry.path ≠ path) :
    disk'.lookup (payloadPath id entry.path) = disk.lookup (payloadPath id entry.path) := by
  rw [payloadPath,RelativePath.under,pruned.inside,if_neg]
  rintro ⟨_,_,below,whole⟩
  obtain ⟨stored,isFile,_⟩ := payload.stored entry member
  cases below with
  | nil => exact other (RelativePath.components_injective (by simpa using whole))
  | cons name below =>
    have folder := disk.directory_above (filesDir id ++ entry.path.components) (name :: below)
      (by rw [List.append_assoc,whole]; exact ne_of_eq_of_ne file (by simp)) (by simp)
    rw [payloadPath,RelativePath.under,folder] at isFile
    simp at isFile

include names

theorem Payload.leaves {q : Path} {old : Bytes} (found : disk'.lookup (filesDir id ++ q) = some (.file old)) :
    ∃ entry ∈ files, entry.path ≠ path ∧ entry.path.components = q := by
  rw [pruned.inside] at found
  split at found
  · contradiction
  · rename_i notPruned
    obtain ⟨entry,member,comps⟩ := payload.listed q old found
    refine ⟨entry,member,?_,comps⟩
    rintro rfl
    exact notPruned ⟨comps ▸ kept_above names,comps ▸ kept_shorter names,comps ▸ List.prefix_refl _⟩

/-- What is left in the folder where pruning stopped belongs to another file. -/
theorem Payload.holds_more (full : disk'.isEmpty (filesDir id ++ kept) = false) :
    ∃ entry ∈ files, entry.path ≠ path ∧ kept <+: entry.path.components := by
  rw [← Bool.not_eq_true,Tree.isEmpty_iff] at full
  push Not at full
  obtain ⟨r,present,notRoot,parent⟩ := full
  obtain ⟨name,rfl⟩ : ∃ name, r = filesDir id ++ (kept ++ [name]) :=
    ⟨r.getLast notRoot,by rw [← List.append_assoc,← parent,List.dropLast_append_getLast]⟩
  have deeper : kept <+: kept ++ [name] := List.prefix_append _ _
  rcases node : disk'.lookup (filesDir id ++ (kept ++ [name])) with _ | _ | old
  · exact absurd node present
  · rw [pruned.inside] at node
    split at node
    · contradiction
    rename_i notPruned
    obtain ⟨entry,member,short⟩ := payload.folders _ (by simp) node
    refine ⟨entry,member,fun same => ?_,deeper.trans short⟩
    exact notPruned ⟨deeper,by simp,same ▸ short⟩
  · obtain ⟨entry,member,different,comps⟩ := payload.leaves names pruned node
    exact ⟨entry,member,different,comps ▸ deeper⟩

theorem Payload.stays_above {q : Path} (stopped : kept = [] ∨ disk'.isEmpty (filesDir id ++ kept) = false)
    (inner : q ≠ []) (found : disk'.lookup (filesDir id ++ q) = some .directory) :
    ∃ entry ∈ files, entry.path ≠ path ∧ q <+: entry.path.components := by
  rw [pruned.inside] at found
  split at found
  · contradiction
  rename_i notPruned
  obtain ⟨entry,member,short⟩ := payload.folders q inner found
  by_cases same : entry.path = path
  swap
  · exact ⟨entry,member,same,short⟩
  subst same
  have qKept : q <+: kept := by
    rcases List.prefix_or_prefix_of_prefix short (kept_above names) with qKept | keptQ
    · exact qKept
    · by_cases equal : q = kept
      · exact equal ▸ List.prefix_refl _
      · exact absurd ⟨keptQ,equal,short⟩ notPruned
  have full := stopped.resolve_left (by rintro rfl; exact inner (List.prefix_nil.mp qKept))
  obtain ⟨other,member',different,above⟩ := payload.holds_more names pruned full
  exact ⟨other,member',different,qKept.trans above⟩

theorem Payload.erase (file : disk.lookup (payloadPath id path) = some (.file content))
    (stopped : kept = [] ∨ disk'.isEmpty (filesDir id ++ kept) = false) :
    Payload sha256 disk' id (files.eraseP fun file => file.path = path) := by
  have mem := fun entry => mem_eraseFile payload.sorted path entry
  refine ⟨payload.sorted.sublist List.eraseP_sublist,?_,?_,?_,?_⟩
  · have top := pruned.inside []
    rw [List.append_nil,if_neg (by rintro ⟨short,other,_⟩; exact other (List.prefix_nil.mp short).symm)] at top
    rw [top,payload.directory]
  · intro entry member
    obtain ⟨old,other⟩ := (mem entry).mp member
    obtain ⟨content,isFile,right⟩ := payload.stored entry old
    exact ⟨content,(payload.spares pruned file old other).trans isFile,right⟩
  · intro q old found
    obtain ⟨entry,member,other,comps⟩ := payload.leaves names pruned found
    exact ⟨entry,(mem entry).mpr ⟨member,other⟩,comps⟩
  · intro q inner found
    obtain ⟨entry,member,other,above⟩ := payload.stays_above names pruned stopped inner found
    exact ⟨entry,(mem entry).mpr ⟨member,other⟩,above⟩

end Erase

section Pending

variable {pending : List PendingUpload} {p p' : PendingUpload} {k : Nat}

theorem Apart.set (apart : Apart pending) (here : pending[k]? = some p)
    (same : p'.upload.done = false → p.upload.done = false ∧ p'.upload.tmp = p.upload.tmp) :
    Apart (pending.set k p') := by
  obtain ⟨bound,rfl⟩ := List.getElem?_eq_some_iff.mp here
  refine List.pairwise_iff_getElem.mpr fun i j hi hj before => ?_
  rw [List.length_set] at hi hj
  have old := List.pairwise_iff_getElem.mp apart i j hi hj before
  rw [List.getElem_set,List.getElem_set]
  split
  · rename_i equal
    subst equal
    rw [if_neg (by omega)]
    intro progress other
    obtain ⟨was,tmp⟩ := same progress
    exact tmp ▸ old was other
  · split
    · rename_i equal
      subst equal
      intro other progress
      obtain ⟨was,tmp⟩ := same progress
      exact tmp ▸ old other was
    · exact old

theorem Apart.unclaimed (apart : Apart pending) (here : pending[k]? = some p) (progress : p.upload.done = false)
    (done : p'.upload.done = true) : ∀ q ∈ pending.set k p', q.upload.done = false → q.upload.tmp ≠ p.upload.tmp := by
  obtain ⟨bound,rfl⟩ := List.getElem?_eq_some_iff.mp here
  intro q member other
  obtain ⟨i,hi,rfl⟩ := List.getElem_of_mem member
  rw [List.length_set] at hi
  rw [List.getElem_set] at other ⊢
  split at other
  · rw [done] at other
    contradiction
  · rename_i different
    rw [if_neg different]
    rcases Nat.lt_or_gt_of_ne different with after | before
    · exact (List.pairwise_iff_getElem.mp apart k i bound hi after progress other).symm
    · exact List.pairwise_iff_getElem.mp apart i k hi bound before other progress

variable [BoostJson]

theorem Healthy.spend (healthy : Healthy sha256 aside s)
    (here : s.pending[k]? = some p) (done : p'.upload.done = true) :
    Healthy sha256 aside { s with pending := s.pending.set k p' } := by
  refine ⟨healthy.tmp,healthy.top,healthy.fresh,healthy.agrees,fun q member progress => ?_,
    healthy.apart.set here fun progress => by rw [done] at progress; contradiction⟩
  rcases List.mem_or_eq_of_mem_set member with old | rfl
  · exact healthy.live q old progress
  · rw [done] at progress
    contradiction

theorem Healthy.ended (healthy : Healthy sha256 aside s)
    (here : s.pending[k]? = some p) : Healthy sha256 aside { s with pending := s.pending.set k p } := by
  obtain ⟨bound,rfl⟩ := List.getElem?_eq_some_iff.mp here
  rw [List.set_getElem_self]
  exact healthy

end Pending

end Confide
