import Confide.Server

/-! An upload written in pieces is stored as their concatenation, or leaves nothing behind. -/
namespace Confide

open Bytes Resumption Resumption.Prog DirTree

inductive UploadCall where
  | write (chunk : Bytes)
  | commit (expected : Option Sha256Digest)

def Upload.serve (sha256 : Bytes → Sha256Digest) (u : Upload) : UploadCall → Prog Sys (Result (Option StoredFile) × Upload)
  | .write chunk => do
    let (written,u) ← u.write chunk
    pure (written.map fun _ => none,u)
  | .commit expected => do
    let (stored,u) ← u.commit sha256 expected
    pure (stored.map some,u)

def Upload.writeAll : Upload → List Bytes → Prog Sys (List (Result Unit) × Upload)
  | u, [] => pure ([],u)
  | u, chunk :: chunks => do
    let (written,u) ← u.write chunk
    let (rest,u) ← u.writeAll chunks
    pure (written :: rest,u)

/-- The loop of a file's hash over what its reads return, up to the first that returns nothing. -/
def hashReads (hashed : Bytes) (size : UInt64) : List Bytes → Bytes × UInt64
  | [] => (hashed,size)
  | piece :: pieces =>
    if piece = [] then (hashed,size)
    else hashReads (hashed ++ piece) (size + UInt64.ofNat piece.length) pieces

theorem hashReads_eq (hashed : Bytes) (size : UInt64) {pieces : List Bytes} (full : [] ∉ pieces) :
    hashReads hashed size pieces = (hashed ++ pieces.flatten,size + UInt64.ofNat pieces.flatten.length) := by
  induction pieces generalizing hashed size with
  | nil => simp [hashReads]
  | cons piece pieces ih =>
    simp only [List.mem_cons,not_or] at full
    rw [hashReads,if_neg (Ne.symm full.1),ih _ _ full.2]
    simp [UInt64.add_assoc]

variable {sha256 : Bytes → Sha256Digest} {env : Env} {w v : World} {id : TransactionId} {path : RelativePath} {u : Upload}
  {start : Disk} {tmp : Path} {content chunk : Bytes} {e : Error}

/-- An open upload: the temp file holds what was written, and nothing else has changed since the start. -/
structure Filling (id : TransactionId) (path : RelativePath) (start : Disk) (tmp : Path) (u : Upload) (content : Bytes)
    (w : World) : Prop where
  named : ∃ n, tmp = tmpPath id n
  shape : u = ⟨tmp,payloadPath id path,path,content,UInt64.ofNat content.length,false⟩
  disk : ∀ q, w.disk.lookup q = if q = tmp then some (.file content) else start.lookup q

theorem Filling.apart (filling : Filling id path start tmp u content w) : payloadPath id path ≠ tmp := by
  obtain ⟨n,rfl⟩ := filling.named
  exact fun same => tmpPath_outside id id n (same ▸ files_in_folder id _)

theorem Filling.file (filling : Filling id path start tmp u content w) : w.disk.lookup tmp = some (.file content) := by
  rw [filling.disk,if_pos rfl]

/-- An upload that is over without having reached its place. The last thing it did was to unlink the temp file. -/
structure Abandoned (id : TransactionId) (path : RelativePath) (start : Disk) (tmp : Path) (env : Env) (u : Upload) (w : World) :
    Prop where
  done : u.done = true
  final : w.disk.lookup (payloadPath id path) = start.lookup (payloadPath id path)
  unlinked : env.fails w.stage (w.tick - 1) = false → w.disk.lookup tmp = none

theorem beginUpload_filling (begun : exec env (FileStore.beginUpload id path).run w = (.ok u,v)) :
    Filling id path w.disk u.tmp u [] v := by
  have opens : Leads (Sys.handle env) (FileStore.beginUpload id path) w fun result v => ∀ u, result = .ok u →
      u = ⟨tmpPath id w.tmpCount,payloadPath id path,path,[],0,false⟩ ∧
        ∀ q, v.disk.lookup q = if q = tmpPath id w.tmpCount then some (.file []) else w.disk.lookup q := by
    unfold FileStore.beginUpload FileStore.beginWrite FileStore.hasTransaction
    rw [leads_exec_bind,leads_refuse_bind]
    simp only [exec_bind,exec_status,pure_eq,exec_ret,call_eq,leads_exec_bind,exec_nextTmp,exec_create]
    apply And.intro fun _ => nofun
    intro _
    have made := create_spec env { w with tmpCount := w.tmpCount + 1 } (tmpPath id w.tmpCount)
    generalize World.create env { w with tmpCount := w.tmpCount + 1 } (tmpPath id w.tmpCount) = outcome at made
    obtain ⟨opened,v⟩ := outcome
    cases opened with
    | opened =>
      intro u returned
      rcases made with ⟨_,disk⟩ | ⟨refused,_⟩
      · exact ⟨(Except.ok.inj returned).symm,disk⟩
      · exact absurd rfl refused
    | missing | failed => exact nofun
  rw [leads_exec,begun] at opens
  obtain ⟨rfl,disk⟩ := opens u rfl
  exact ⟨⟨_,rfl⟩,rfl,disk⟩

/-- Giving up takes away the temp file, if that works, and nothing else. -/
theorem Filling.give_up (filling : Filling id path start tmp u content w)
    (grown : Grown w.disk v.disk (payloadPath id path).dropLast) :
    Abandoned id path start tmp env (exec env u.discard v).1 (exec env u.discard v).2 := by
  have file : v.disk.lookup tmp = some (.file content) := by
    rw [grown.kept (by rw [filling.file]; simp),filling.file]
  have inner : tmp ≠ [] := by
    obtain ⟨n,rfl⟩ := filling.named
    simp [tmpPath]
  have apart := filling.apart
  have before := filling.disk (payloadPath id path)
  rw [if_neg apart] at before
  obtain rfl := filling.shape
  obtain ⟨frame,removed,_,works⟩ := remove_spec env v tmp
  unfold Upload.discard
  simp only [exec_bind,exec_remove]
  constructor
  · rfl
  · have outside : ¬ payloadPath id path <+: (payloadPath id path).dropLast := by
      intro above
      have short := above.length_le
      have long : 0 < (payloadPath id path).length := by simp [payloadPath,RelativePath.under,filesDir]
      rw [List.length_dropLast] at short
      omega
    change (v.remove env tmp).2.disk.lookup _ = _
    rw [frame _ apart,(grown _).resolve_right fun added => outside added.2.2,before]
  · intro unlink
    change env.fails (v.remove env tmp).2.stage ((v.remove env tmp).2.tick - 1) = false at unlink
    rw [World.remove,attempt_stage,attempt_tick,Nat.add_sub_cancel] at unlink
    exact removed (works unlink (.inr ⟨inner,Tree.isEmpty_of_not_directory (by rw [file]; simp)⟩))

theorem Filling.append (filling : Filling id path start tmp u content w)
    (written : ∀ q, v.disk.lookup q = if q = tmp then some (.file (content ++ chunk)) else w.disk.lookup q) :
    Filling id path start tmp { u with hashed := u.hashed ++ chunk, size := u.size + UInt64.ofNat chunk.length }
      (content ++ chunk) v := by
  constructor
  · exact filling.named
  · rw [filling.shape]
    simp
  · intro q
    rw [written]
    split
    · rfl
    · rename_i other
      rw [filling.disk,if_neg other]

theorem Filling.write (env : Env) (filling : Filling id path start tmp u content w) (chunk : Bytes) :
    ((exec env (u.write chunk) w).1.1 = .ok () ∧
        Filling id path start tmp (exec env (u.write chunk) w).1.2 (content ++ chunk) (exec env (u.write chunk) w).2) ∨
      ((∃ e, (exec env (u.write chunk) w).1.1 = .error e) ∧
        Abandoned id path start tmp env (exec env (u.write chunk) w).1.2 (exec env (u.write chunk) w).2) := by
  have file := filling.file
  have shape := filling.shape
  subst shape
  unfold Upload.write
  rw [if_neg (by simp)]
  by_cases nothing : chunk = []
  · rw [if_pos nothing,nothing,List.append_nil]
    exact .inl ⟨rfl,filling⟩
  rw [if_neg nothing]
  simp only [exec_bind,exec_append,World.append,file]
  cases outcome : (w.attempt env (w.disk.assign tmp (.file (content ++ chunk)))).1 with
  | true =>
    left
    apply And.intro rfl
    exact filling.append (Tree.assign_lookup (attempt_true outcome))
  | false =>
    right
    apply And.intro ⟨_,rfl⟩
    apply filling.give_up
    rw [attempt_false outcome]
    exact Grown.refl _ _

theorem Filling.commit (env : Env) (filling : Filling id path start tmp u content w) (sha256 : Bytes → Sha256Digest)
    (expected : Option Sha256Digest) :
    ((exec env (u.commit sha256 expected) w).1.1 = .ok ⟨path,UInt64.ofNat content.length,sha256 content⟩ ∧
        (∀ want ∈ expected, want = sha256 content) ∧
        (exec env (u.commit sha256 expected) w).2.disk.lookup (payloadPath id path) = some (.file content)) ∨
      ((∃ e, (exec env (u.commit sha256 expected) w).1.1 = .error e) ∧
        Abandoned id path start tmp env (exec env (u.commit sha256 expected) w).1.2
          (exec env (u.commit sha256 expected) w).2) := by
  have file := filling.file
  have apart := filling.apart
  have shape := filling.shape
  subst shape
  have inner : payloadPath id path ≠ [] := by simp [payloadPath,RelativePath.under,filesDir]
  have finished := finish_spec sha256 ⟨tmp,payloadPath id path,path,content,UInt64.ofNat content.length,false⟩
    expected env w content
    file inner
  unfold Upload.commit
  rw [if_neg (by simp)]
  rw [leads_exec] at finished
  simp only [exec_bind]
  generalize exec env (Upload.finish _ sha256 expected).run w = outcome at finished
  obtain ⟨result,next⟩ := outcome
  obtain ⟨disk,grown,⟨rfl,digest,folder,_,moved⟩ | ⟨e,rfl,same,_⟩⟩ := finished
  · left
    have stored := (grown.moved folder apart.symm file moved).result (payloadPath id path)
    rw [if_pos rfl] at stored
    exact ⟨rfl,digest,stored⟩
  · right
    apply And.intro ⟨e,rfl⟩
    apply filling.give_up
    rw [show next.disk = disk from same]
    exact grown

theorem Upload.serve_done (done : u.done = true) (call : UploadCall) (w : World) :
    exec env (u.serve sha256 call) w = ((.error Upload.finished,u),w) := by
  cases call with
  | write chunk =>
    simp only [Upload.serve,exec_bind,write_done chunk done]
    rfl
  | commit expected =>
    simp only [Upload.serve,exec_bind,commit_done sha256 expected done]
    rfl

theorem Filling.serve (filling : Filling id path start tmp u content w) {call : UploadCall}
    (failed : (exec env (u.serve sha256 call) w).1.1 = .error e) :
    Abandoned id path start tmp env (exec env (u.serve sha256 call) w).1.2 (exec env (u.serve sha256 call) w).2 := by
  cases call with
  | write chunk =>
    simp only [Upload.serve,exec_bind] at failed ⊢
    obtain ⟨done,_⟩ | ⟨_,abandoned⟩ := filling.write env chunk
    · rw [done] at failed
      contradiction
    · exact abandoned
  | commit expected =>
    simp only [Upload.serve,exec_bind] at failed ⊢
    obtain ⟨done,_⟩ | ⟨_,abandoned⟩ := filling.commit env sha256 expected
    · rw [done] at failed
      contradiction
    · exact abandoned

theorem Filling.writeAll (filling : Filling id path start tmp u content w) (chunks : List Bytes)
    (ok : ∀ written ∈ (exec env (u.writeAll chunks) w).1.1, written = .ok ()) :
    Filling id path start tmp (exec env (u.writeAll chunks) w).1.2 (content ++ chunks.flatten)
      (exec env (u.writeAll chunks) w).2 := by
  induction chunks generalizing u content w with
  | nil => simpa [Upload.writeAll] using filling
  | cons chunk chunks ih =>
    simp only [Upload.writeAll,exec_bind] at ok ⊢
    have first : (exec env (u.write chunk) w).1.1 = .ok () := ok _ (List.mem_cons_self ..)
    obtain ⟨_,next⟩ | ⟨⟨e,failed⟩,_⟩ := filling.write env chunk
    · have last := ih next fun written member => ok written (List.mem_cons_of_mem _ member)
      rwa [List.append_assoc] at last
    · rw [first] at failed
      contradiction

/-- An upload whose writes have all worked is stored by its commit as the pieces in a row, with their size and digest,
which reading the file in any pieces gives again. A write or commit that fails leaves what was at the path, takes the
temp file away if it can be unlinked, and is the last that touches the disk. -/
theorem streamed_upload_is_stored (sha256 : Bytes → Sha256Digest) (env : Env) (w w₀ : World) (id : TransactionId)
    (path : RelativePath) (u : Upload) (begun : exec env (FileStore.beginUpload id path).run w = (.ok u,w₀))
    (chunks : List Bytes) (u₁ : Upload) (w₁ : World)
    (written : exec env (u.writeAll chunks) w₀ = ((chunks.map fun _ => .ok (),u₁),w₁)) :
    (∀ expected stored u₂ w₂, exec env (u₁.commit sha256 expected) w₁ = ((.ok stored,u₂),w₂) →
      w₂.disk.lookup (payloadPath id path) = some (.file chunks.flatten) ∧
        stored = ⟨path,UInt64.ofNat chunks.flatten.length,sha256 chunks.flatten⟩ ∧ (∀ want ∈ expected, stored.sha256 = want) ∧
        exec env (FileStore.hashFile sha256 id path).run w₂ = (.ok stored,w₂) ∧
        ∀ pieces : List Bytes, [] ∉ pieces → pieces.flatten = chunks.flatten →
          (hashReads [] 0 pieces).2 = stored.size ∧ sha256 (hashReads [] 0 pieces).1 = stored.sha256) ∧
      ∀ call e u₂ w₂, exec env (u₁.serve sha256 call) w₁ = ((.error e,u₂),w₂) →
        w₂.disk.lookup (payloadPath id path) = w.disk.lookup (payloadPath id path) ∧
          (env.fails w₂.stage (w₂.tick - 1) = false → w₂.disk.lookup u.tmp = none) ∧
          ∀ later env' w', ∃ e', exec env' (u₂.serve sha256 later) w' = ((.error e',u₂),w') ∧ e'.code = .internal := by
  have filled : Filling id path w.disk u.tmp u₁ chunks.flatten w₁ := by
    have filling := (beginUpload_filling begun).writeAll chunks (by rw [written]; simp)
    rwa [written] at filling
  constructor
  · intro expected stored u₂ w₂ committed
    obtain ⟨done,agreed,file⟩ | ⟨⟨e,failed⟩,_⟩ := filled.commit env sha256 expected
    · rw [committed] at done file
      cases done
      apply And.intro file
      apply And.intro rfl
      apply And.intro fun want asked => (agreed want asked).symm
      constructor
      · rw [hashFile_spec,file]
      · intro pieces full same
        rw [hashReads_eq [] 0 full,same]
        simp
    · rw [committed] at failed
      contradiction
  · intro call e u₂ w₂ failed
    have abandoned := filled.serve (by rw [failed])
    rw [failed] at abandoned
    apply And.intro abandoned.final
    apply And.intro abandoned.unlinked
    intro later env' w'
    exact ⟨Upload.finished,Upload.serve_done abandoned.done later w',rfl⟩

namespace Sample

def upload (content : Bytes) (done : Bool) : Upload :=
  ⟨tmpPath Sample.id 1,payloadPath Sample.id Sample.path,Sample.path,content,UInt64.ofNat content.length,done⟩

end Sample

theorem three_pieces_are_stored :
    let w := (Server.empty.step Sample.sha256 Sample.opts Sample.env (.create Sample.alice Sample.request)).world
    let begun := exec Sample.env (FileStore.beginUpload Sample.id Sample.path).run w
    let written := exec Sample.env ((Sample.upload [] false).writeAll [ascii "he",[],ascii "llo"]) begun.2
    let committed := exec Sample.env ((Sample.upload (ascii "hello") false).commit Sample.sha256 none) written.2
    committed.2.disk.lookup (payloadPath Sample.id Sample.path) = some (.file (ascii "hello")) := by
  intro w begun written committed
  have first : begun.1 = .ok (Sample.upload [] false) := by decide +kernel
  have second : written.1 = ([.ok (),.ok (),.ok ()],Sample.upload (ascii "hello") false) := by decide +kernel
  have third : committed.1 = (.ok ⟨Sample.path,5,Sample.sha256 (ascii "hello")⟩,Sample.upload (ascii "hello") true) := by decide +kernel
  obtain ⟨stores,_⟩ := streamed_upload_is_stored Sample.sha256 Sample.env w begun.2 Sample.id Sample.path
    (Sample.upload [] false)
    (by rw [← first]) [ascii "he",[],ascii "llo"] (Sample.upload (ascii "hello") false) written.2 (by
      change written = _
      rw [List.map_cons,List.map_cons,List.map_cons,List.map_nil,← second])
  exact (stores none ⟨Sample.path,5,Sample.sha256 (ascii "hello")⟩ (Sample.upload (ascii "hello") true) committed.2 (by
    change committed = _
    rw [← third])).1

end Confide
