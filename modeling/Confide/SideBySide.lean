import Confide.Calls
import Confide.TwoRuns

/-! Two worlds that agree on one transaction. What the store does in the folder of that transaction it
does alike in both, whatever fails, and although its temp files go by other names. -/
namespace Confide

open Bytes Resumption Resumption.Prog DirTree

variable {env : Env} {w w' : World} {α β : Type} {id : TransactionId} {pair : Option (Nat × Nat)} {d d' e e' : Disk}
  {p p' q q' : Path}

/-- The folder of a transaction, and the folders it and the temp files stand in. -/
def Near (id : TransactionId) (q : Path) : Prop := transactionDir id <+: q ∨ q = transactionsDir ∨ q = [] ∨ q = tmpDir

theorem Near.not_tmp (near : Near id q) (owner : TransactionId) (n : Nat) : q ≠ tmpPath owner n := by
  rintro rfl
  rcases near with inside | same | same | same
  · exact tmpPath_outside id owner n inside
  · exact absurd (congrArg List.length same) (by simp [tmpPath,tmpDir,transactionsDir])
  · exact absurd (congrArg List.length same) (by simp [tmpPath,tmpDir])
  · exact absurd (congrArg List.length same) (by simp [tmpPath,tmpDir])

/-- Paths with one meaning in both worlds: a temp file of the one stands for a temp file of the other. -/
inductive Stands (id : TransactionId) (pair : Option (Nat × Nat)) : Path → Path → Prop
  | near {q : Path} (near : Near id q) : Stands id pair q q
  | tmp {n m : Nat} (paired : pair = some (n,m)) : Stands id pair (tmpPath id n) (tmpPath id m)

theorem Stands.eq_iff (stands : Stands id pair q q') (stands' : Stands id pair p p') : q = p ↔ q' = p' := by
  cases stands with
  | near near =>
    cases stands' with
    | near near' => rfl
    | tmp paired => exact ⟨fun same => absurd same (near.not_tmp _ _),fun same => absurd same (near.not_tmp _ _)⟩
  | tmp paired =>
    cases stands' with
    | near near' => exact ⟨fun same => absurd same.symm (near'.not_tmp _ _),fun same => absurd same.symm (near'.not_tmp _ _)⟩
    | tmp paired' =>
      obtain ⟨rfl,rfl⟩ := Prod.mk.inj (Option.some.inj (paired.symm.trans paired'))
      simp

/-- The disks agree where paths have one meaning, and no temp name from the counter on is taken. -/
structure Coupled (id : TransactionId) (pair : Option (Nat × Nat)) (count count' : Nat) (d d' : Disk) : Prop where
  same : ∀ q q', Stands id pair q q' → d.lookup q = d'.lookup q'
  plain : ∀ n m, pair = some (n,m) → d.lookup (tmpPath id n) ≠ some .directory ∧ n < count ∧ m < count'
  fresh : ∀ owner n, d.lookup (tmpPath owner n) ≠ none → n < count
  fresh' : ∀ owner n, d'.lookup (tmpPath owner n) ≠ none → n < count'

section Coupled

variable {count count' : Nat} {node : Option (Node Bytes)}

/-- The same is put into both disks at paths with one meaning. -/
theorem Coupled.put (coupled : Coupled id pair count count' d d') (stands : Stands id pair p p')
    (file : node = some .directory → ∀ n m, pair = some (n,m) → p ≠ tmpPath id n)
    (first : ∀ q, e.lookup q = if q = p then node else d.lookup q)
    (second : ∀ q, e'.lookup q = if q = p' then node else d'.lookup q) : Coupled id pair count count' e e' := by
  have kept : ∀ {p : Path} {d e : Disk} {c : Nat}, (∀ owner n, p = tmpPath owner n → n < c) →
      (∀ owner n, d.lookup (tmpPath owner n) ≠ none → n < c) → (∀ q, e.lookup q = if q = p then node else d.lookup q) →
      ∀ owner n, e.lookup (tmpPath owner n) ≠ none → n < c := by
    intro p d e c own fresh after owner n present
    rw [after] at present
    split at present
    · rename_i same
      exact own owner n same.symm
    · exact fresh owner n present
  have own : (∀ owner n, p = tmpPath owner n → n < count) ∧ ∀ owner n, p' = tmpPath owner n → n < count' := by
    cases stands with
    | near near => exact ⟨fun owner n same => absurd same (near.not_tmp owner n),fun owner n same =>
        absurd same (near.not_tmp owner n)⟩
    | tmp paired =>
      have used := (coupled.plain _ _ paired).2
      exact ⟨fun owner n same => (tmpPath_injective same).2 ▸ used.1,fun owner n same => (tmpPath_injective same).2 ▸ used.2⟩
  constructor
  · intro q q' here
    rw [first,second,coupled.same q q' here]
    simp only [here.eq_iff stands]
  · intro n m paired
    refine ⟨?_,(coupled.plain n m paired).2⟩
    rw [first]
    split
    · rename_i same
      exact fun directory => file directory n m paired same.symm
    · exact (coupled.plain n m paired).1
  · exact kept own.1 coupled.fresh first
  · exact kept own.2 coupled.fresh' second

theorem Coupled.forget (coupled : Coupled id pair count count' d d') : Coupled id none count count' d d' where
  same := by
    intro q q' stands
    cases stands with
    | near near => exact coupled.same q q (.near near)
    | tmp paired => contradiction
  plain := nofun
  fresh := coupled.fresh
  fresh' := coupled.fresh'

theorem relates {r r' : Option Disk} {related : Disk → Disk → Prop} (both : r.isSome = r'.isSome)
    (ends : ∀ d d', r = some d → r' = some d' → related d d') : Option.Rel related r r' := by
  cases r with
  | none => cases r' with
    | none => exact .none
    | some d' => simp at both
  | some d => cases r' with
    | none => simp at both
    | some d' => exact .some (ends d d' rfl rfl)

theorem Stands.nil_iff (stands : Stands id pair p p') : p = [] ↔ p' = [] :=
  stands.eq_iff (.near (.inr (.inr (.inl rfl))))

section

variable (coupled : Coupled id pair count count' d d')
include coupled

theorem Coupled.assign (stands : Stands id pair p p')
    (above : Stands id pair p.dropLast p'.dropLast) (content : Bytes) :
    Option.Rel (Coupled id pair count count') (d.assign p (.file content)) (d'.assign p' (.file content)) := by
  apply relates
  · rw [Bool.eq_iff_iff,Tree.assign_isSome,Tree.assign_isSome,coupled.same _ _ stands,coupled.same _ _ above]
    simp only [ne_eq,stands.nil_iff]
  · intro e e' first second
    exact coupled.put stands (by simp) (Tree.assign_lookup first) (Tree.assign_lookup second)

theorem Coupled.mkdir (near : Near id p) (above : Near id p.dropLast) :
    Option.Rel (Coupled id pair count count') (d.mkdir p) (d'.mkdir p) := by
  apply relates
  · rw [Bool.eq_iff_iff,Tree.mkdir_isSome,Tree.mkdir_isSome,coupled.same _ _ (.near near),coupled.same _ _ (.near above)]
  · intro e e' first second
    exact coupled.put (.near near) (fun _ _ _ _ => near.not_tmp _ _) (Tree.mkdir_lookup first).2 (Tree.mkdir_lookup second).2

/-- What stands in the folder of the transaction is empty in both worlds or in neither. -/
theorem Coupled.isEmpty (inside : transactionDir id <+: p) :
    d.isEmpty p = d'.isEmpty p := by
  rw [Bool.eq_iff_iff,Tree.isEmpty_iff,Tree.isEmpty_iff]
  apply forall_congr'
  intro q
  by_cases below : q.dropLast = p
  · rw [coupled.same q q (.near (.inl (inside.trans (below ▸ List.dropLast_prefix q))))]
  · simp [below]

theorem Coupled.detach (stands : Stands id pair p p')
    (empty : d.isEmpty p = d'.isEmpty p') : Option.Rel (Coupled id pair count count') (d.detach p) (d'.detach p') := by
  apply relates
  · rw [Bool.eq_iff_iff,Tree.detach_isSome,Tree.detach_isSome,empty]
    simp only [ne_eq,stands.nil_iff]
  · intro e e' first second
    exact coupled.put stands (by simp) (Tree.detach_lookup first) (Tree.detach_lookup second)

end

theorem Coupled.tmp_isEmpty {n m : Nat} (coupled : Coupled id (some (n,m)) count count' d d') :
    d.isEmpty (tmpPath id n) = d'.isEmpty (tmpPath id m) := by
  have file := (coupled.plain n m rfl).1
  rw [Tree.isEmpty_of_not_directory file,Tree.isEmpty_of_not_directory]
  rwa [← coupled.same _ _ (.tmp rfl)]

theorem Coupled.rename {n m : Nat} (coupled : Coupled id (some (n,m)) count count' d d') (near : Near id p)
    (above : Near id p.dropLast) :
    Option.Rel (Coupled id (some (n,m)) count count') (d.rename (tmpPath id n) p) (d'.rename (tmpPath id m) p) := by
  unfold Tree.rename
  rw [← coupled.same _ _ (.tmp rfl)]
  cases d.lookup (tmpPath id n) with
  | none => exact .none
  | some node =>
    cases node with
    | directory => exact .none
    | file content =>
      simp only [(near.not_tmp _ _).symm,if_false]
      have placed := coupled.assign (.near near) (.near above) content
      generalize d.assign p (.file content) = r at placed ⊢
      generalize d'.assign p (.file content) = r' at placed ⊢
      cases placed with
      | none => exact .none
      | some coupled => exact coupled.detach (.tmp rfl) coupled.tmp_isEmpty

end Coupled

/-- Worlds that agree on a transaction. -/
structure Agree (id : TransactionId) (pair : Option (Nat × Nat)) (w w' : World) : Prop where
  entry : w.index.lookup id = w'.index.lookup id
  named : ∀ tx, w.index.lookup id = some tx → tx.id = id
  disks : Coupled id pair w.tmpCount w'.tmpCount w.disk w'.disk

/-- They have come equally far in what they are doing. -/
structure Abreast (id : TransactionId) (pair : Option (Nat × Nat)) (w w' : World) : Prop extends Agree id pair w w' where
  stage : w.stage = w'.stage
  tick : w.tick = w'.tick

theorem Agree.forget (agree : Agree id pair w w') : Agree id none w w' := ⟨agree.entry,agree.named,agree.disks.forget⟩

theorem Abreast.forget (abreast : Abreast id pair w w') : Abreast id none w w' :=
  ⟨abreast.toAgree.forget,abreast.stage,abreast.tick⟩

theorem Agree.enter (agree : Agree id pair w w') (stage : Stage) : Abreast id pair (w.enter stage) (w'.enter stage) :=
  ⟨⟨agree.entry,agree.named,agree.disks⟩,rfl,rfl⟩

theorem Abreast.attempt (abreast : Abreast id pair w w') (env : Env) {r r' : Option Disk}
    (results : Option.Rel (Coupled id pair w.tmpCount w'.tmpCount) r r') :
    Same (Abreast id pair) (w.attempt env r).1 (w'.attempt env r').1 (w.attempt env r).2 (w'.attempt env r').2 := by
  unfold World.attempt
  rw [abreast.stage,abreast.tick]
  split
  · exact ⟨rfl,⟨abreast.entry,abreast.named,abreast.disks⟩,rfl,rfl⟩
  · cases results with
    | none => exact ⟨rfl,⟨abreast.entry,abreast.named,abreast.disks⟩,rfl,rfl⟩
    | some coupled => exact ⟨rfl,⟨abreast.entry,abreast.named,coupled⟩,rfl,rfl⟩

/-- Two programs of the store that do alike. -/
abbrev Alike (env : Env) (id : TransactionId) (pair : Option (Nat × Nat)) (p q : Prog Sys α) : Prop :=
  Twin (Sys.handle env) (Abreast id pair) p q (Same (Abreast id pair))

section Calls

variable {n m : Nat}

theorem alike_ret (value : α) : Alike env id pair (Prog.ret value) (Prog.ret value) := Twin.ret fun _ _ abreast => ⟨rfl,abreast⟩

section Reads

variable {related : World → World → Prop} (agrees : ∀ w w', related w w' → Agree id pair w w')
include agrees

theorem status_twin (stands : Stands id pair p p') :
    Twin (Sys.handle env) related (sys (.status p)) (sys (.status p')) (Same (α := Status) related) := by
  constructor
  intro w w' here
  exact ⟨congrArg nodeStatus ((agrees w w' here).disks.same _ _ stands),here⟩

theorem read_twin (near : Near id p) :
    Twin (Sys.handle env) related (sys (.read p)) (sys (.read p)) (Same (α := Opened Bytes) related) := by
  constructor
  intro w w' here
  refine ⟨?_,here⟩
  change w.read p = w'.read p
  unfold World.read
  rw [(agrees w w' here).disks.same _ _ (.near near)]

end Reads

theorem alike_status (stands : Stands id pair p p') : @Alike Status env id pair (sys (.status p)) (sys (.status p')) :=
  status_twin (fun _ _ abreast => abreast.toAgree) stands

theorem alike_isEmpty (inside : transactionDir id <+: p) : @Alike Bool env id pair (sys (.isEmpty p)) (sys (.isEmpty p)) := by
  constructor
  intro w w' abreast
  refine ⟨?_,abreast⟩
  change (w.disk.isDirectory p && w.disk.isEmpty p) = (w'.disk.isDirectory p && w'.disk.isEmpty p)
  unfold Tree.isDirectory
  rw [abreast.disks.same _ _ (.near (.inl inside)),abreast.disks.isEmpty inside]

theorem alike_indexFind : @Alike (Option Transaction) env id pair (sys (.indexFind id)) (sys (.indexFind id)) :=
  ⟨fun _ _ abreast => ⟨abreast.entry,abreast⟩⟩

theorem alike_indexSet {tx : Transaction} (own : tx.id = id) :
    @Alike Unit env id pair (sys (.indexSet tx)) (sys (.indexSet tx)) := by
  constructor
  intro w w' abreast
  refine ⟨rfl,⟨?_,?_,abreast.disks⟩,abreast.stage,abreast.tick⟩
  · change (w.index.insert tx.id tx).lookup id = (w'.index.insert tx.id tx).lookup id
    rw [own,Finmap.lookup_insert,Finmap.lookup_insert]
  · intro tx' (known : (w.index.insert tx.id tx).lookup id = some tx')
    rw [own,Finmap.lookup_insert] at known
    exact Option.some.inj known ▸ own

theorem alike_mkdir (near : Near id p) (above : Near id p.dropLast) :
    @Alike Made env id pair (sys (.mkdir p)) (sys (.mkdir p)) := by
  constructor
  intro w w' abreast
  have results := abreast.attempt env (abreast.disks.mkdir near above)
  change Same _ (w.mkdir env p).1 (w'.mkdir env p).1 (w.mkdir env p).2 (w'.mkdir env p).2
  unfold World.mkdir
  rw [abreast.disks.same _ _ (.near near),abreast.disks.same _ _ (.near above),abreast.stage,abreast.tick]
  generalize w.attempt env (w.disk.mkdir p) = outcome at results ⊢
  generalize w'.attempt env (w'.disk.mkdir p) = outcome' at results ⊢
  obtain ⟨made,next⟩ := outcome
  obtain ⟨made',next'⟩ := outcome'
  obtain ⟨rfl,abreast'⟩ := results
  cases made with
  | true => exact ⟨rfl,abreast'⟩
  | false =>
    dsimp only
    split
    · exact ⟨rfl,abreast'⟩
    · split <;> exact ⟨rfl,abreast'⟩

theorem stands_above : Stands id (some (n,m)) (tmpPath id n).dropLast (tmpPath id m).dropLast := by
  rw [tmpPath_dropLast,tmpPath_dropLast]
  exact .near (.inr (.inr (.inr rfl)))

theorem alike_create : @Alike (Opened Unit) env id (some (n,m)) (sys (.create (tmpPath id n)))
    (sys (.create (tmpPath id m))) := by
  constructor
  intro w w' abreast
  have stands : Stands id (some (n,m)) (tmpPath id n) (tmpPath id m) := .tmp rfl
  have results := abreast.attempt env (abreast.disks.assign stands stands_above [])
  change Same _ (w.create env _).1 (w'.create env _).1 (w.create env _).2 (w'.create env _).2
  unfold World.create
  rw [abreast.disks.same _ _ stands_above,abreast.stage,abreast.tick]
  generalize w.attempt env (w.disk.assign (tmpPath id n) (.file [])) = outcome at results ⊢
  generalize w'.attempt env (w'.disk.assign (tmpPath id m) (.file [])) = outcome' at results ⊢
  obtain ⟨made,next⟩ := outcome
  obtain ⟨made',next'⟩ := outcome'
  obtain ⟨rfl,abreast'⟩ := results
  cases made with
  | true => exact ⟨rfl,abreast'⟩
  | false =>
    dsimp only
    split <;> exact ⟨rfl,abreast'⟩

theorem alike_append (chunk : Bytes) :
    @Alike Bool env id (some (n,m)) (sys (.append (tmpPath id n) chunk)) (sys (.append (tmpPath id m) chunk)) := by
  constructor
  intro w w' abreast
  have stands : Stands id (some (n,m)) (tmpPath id n) (tmpPath id m) := .tmp rfl
  apply abreast.attempt env
  rw [← abreast.disks.same _ _ stands]
  split
  · exact abreast.disks.assign stands stands_above _
  · exact .some abreast.disks

theorem alike_remove (stands : Stands id pair p p')
    (empty : ∀ {w w' : World}, Agree id pair w w' → w.disk.isEmpty p = w'.disk.isEmpty p') :
    @Alike Bool env id pair (sys (.remove p)) (sys (.remove p')) := by
  constructor
  intro w w' abreast
  apply abreast.attempt env
  rw [← abreast.disks.same _ _ stands]
  split
  · exact .some abreast.disks
  · exact abreast.disks.detach stands (empty abreast.toAgree)

theorem alike_discard : @Alike Bool env id (some (n,m)) (sys (.remove (tmpPath id n))) (sys (.remove (tmpPath id m))) :=
  alike_remove (.tmp rfl) fun agree => agree.disks.tmp_isEmpty

theorem alike_rename (near : Near id p) (above : Near id p.dropLast) :
    @Alike Bool env id (some (n,m)) (sys (.rename (tmpPath id n) p)) (sys (.rename (tmpPath id m) p)) :=
  ⟨fun _ _ abreast => abreast.attempt env (abreast.disks.rename near above)⟩

/-- Flushing, syncing and closing leave the disk as it is. -/
theorem alike_flush (p p' : Path) : @Alike Bool env id pair (sys (.flush p)) (sys (.flush p')) :=
  ⟨fun _ _ abreast => abreast.attempt env (.some abreast.disks)⟩

theorem alike_fsync (p p' : Path) : @Alike Bool env id pair (sys (.fsync p)) (sys (.fsync p')) :=
  ⟨fun _ _ abreast => abreast.attempt env (.some abreast.disks)⟩

theorem alike_close (p p' : Path) : @Alike Bool env id pair (sys (.close p)) (sys (.close p')) :=
  ⟨fun _ _ abreast => abreast.attempt env (.some abreast.disks)⟩

end Calls

section Store

variable {n m : Nat} {γ : Type}

theorem alike_refuse (bad : Bool) (e : Error) :
    Alike env id pair (refuse bad e : SysM Unit).run (refuse bad e : SysM Unit).run := by
  unfold refuse
  split <;> exact alike_ret _

theorem alike_ensure (result : Result α) :
    Alike env id pair (ensure result : SysM α).run (ensure result : SysM α).run := alike_ret _

theorem Alike.bindM {p q : SysM α} {f g : α → SysM γ} (first : Alike env id pair p.run q.run)
    (rest : ∀ a, Alike env id pair (f a).run (g a).run) : Alike env id pair (p >>= f).run (q >>= g).run :=
  Twin.same_exceptT_bind first (fun _ _ _ abreast => ⟨rfl,abreast⟩) rest

theorem alike_call {c : SysCall} (alike : Alike env id pair (sys c) (sys c)) : Alike env id pair (call c).run (call c).run :=
  Twin.same_lift alike

/-- The folders above what is in the folder of the transaction. -/
theorem near_above (inside : transactionDir id <+: p) (above : q <+: p) (inner : q ≠ []) : Near id q := by
  rcases List.prefix_or_prefix_of_prefix inside above with below | short
  · exact .inl below
  · rcases List.prefix_concat_iff.mp short with rfl | short
    · exact .inl (List.prefix_refl _)
    · rcases List.prefix_concat_iff.mp (show q <+: [] ++ [ascii "transactions"] from short) with rfl | short
      · exact .inr (.inl rfl)
      · exact absurd (List.prefix_nil.mp short) inner

theorem near_dropLast (near : Near id p) (inner : p ≠ []) (other : p ≠ tmpDir) : Near id p.dropLast := by
  rcases near with inside | rfl | rfl | rfl
  · by_cases top : p.dropLast = []
    · exact .inr (.inr (.inl top))
    · exact near_above inside (List.dropLast_prefix p) top
  · exact .inr (.inr (.inl rfl))
  · contradiction
  · contradiction

theorem createDirectories_alike (names : List Bytes) (inside : ∀ q, q <+: names.reverse → q ≠ [] → Near id q ∧
    Near id q.dropLast) :
    Alike env id pair (createDirectories names) (createDirectories names) := by
  induction names with
  | nil => exact alike_ret _
  | cons name up ih =>
    have here := inside _ (List.prefix_refl _) (by simp)
    apply Twin.same_bind (alike_status (.near here.1))
    intro status
    cases status with
    | directory => exact alike_ret _
    | regular => exact alike_ret _
    | absent =>
      apply Twin.same_bind (ih fun q short => inside q (short.trans (by simp)))
      intro above
      cases above with
      | clash => exact alike_ret _
      | failed => exact alike_ret _
      | created => exact alike_mkdir here.1 here.2
      | present => exact alike_mkdir here.1 here.2

theorem openRead_twin (env : Env) (path : RelativePath) :
    Twin (Sys.handle env) (Agree id pair) (FileStore.openRead id path).run (FileStore.openRead id path).run
      (Same (Agree id pair)) := by
  have near : Near id (payloadPath id path) := .inl (files_in_folder id _)
  have stop : ∀ (e : Error) (w w' : World), Agree id pair w w' →
      Same (Agree id pair) (.error e : Result FileStore.Download) (.error e) w w' := fun e w w' agree => ⟨rfl,agree⟩
  apply Twin.same_exceptT_bind (Twin.same_lift (status_twin (fun _ _ agree => agree) (.near near))) stop
  intro status
  cases status with
  | absent => exact Twin.ret (stop _)
  | directory => exact Twin.ret (stop _)
  | regular size =>
    apply Twin.same_exceptT_bind (Twin.same_lift (read_twin (fun _ _ agree => agree) near)) stop
    intro opened
    cases opened with
    | opened content => exact Twin.ret fun w w' agree => ⟨rfl,agree⟩
    | missing => exact Twin.ret (stop _)
    | failed => exact Twin.ret (stop _)

theorem hashFile_twin (env : Env) (sha256 : Bytes → Sha256Digest) (path : RelativePath) :
    Twin (Sys.handle env) (Agree id pair) (FileStore.hashFile sha256 id path).run (FileStore.hashFile sha256 id path).run
      (Same (Agree id pair)) := by
  apply Twin.same_exceptT_bind (openRead_twin env path)
  · exact fun e w w' agree => ⟨rfl,agree⟩
  intro download
  exact Twin.ret fun w w' agree => ⟨rfl,agree⟩

/-- One upload in two worlds, on its way into the folder of the transaction. -/
structure Counterpart (id : TransactionId) (n m : Nat) (u u' : Upload) : Prop where
  tmp : u.tmp = tmpPath id n
  folder : transactionDir id <+: u.final.dropLast
  other : u' = { u with tmp := tmpPath id m }

/-- A temp name that neither world has used. -/
theorem nextTmp_twin : Twin (Sys.handle env) (Abreast id none) (sys .nextTmp) (sys .nextTmp) fun (n m : Nat) w w' =>
    Abreast id (some (n,m)) w w' := by
  constructor
  intro w w' abreast
  have absent : w.disk.lookup (tmpPath id w.tmpCount) = none :=
    by_contra fun present => Nat.lt_irrefl _ (abreast.disks.fresh _ _ present)
  have absent' : w'.disk.lookup (tmpPath id w'.tmpCount) = none :=
    by_contra fun present => Nat.lt_irrefl _ (abreast.disks.fresh' _ _ present)
  refine ⟨⟨abreast.entry,abreast.named,?_,?_,?_,?_⟩,abreast.stage,abreast.tick⟩
  · intro q q' stands
    cases stands with
    | near near => exact abreast.disks.same _ _ (.near near)
    | tmp paired =>
      cases paired
      exact absent.trans absent'.symm
  · intro n m paired
    cases paired
    exact ⟨fun directory => (nomatch absent.symm.trans directory),Nat.lt_succ_self _,Nat.lt_succ_self _⟩
  · exact fun owner n present => Nat.lt_succ_of_lt (abreast.disks.fresh owner n present)
  · exact fun owner n present => Nat.lt_succ_of_lt (abreast.disks.fresh' owner n present)

/-- An upload has begun in both worlds. -/
def Begun (id : TransactionId) (u u' : Upload) (w w' : World) : Prop :=
  ∃ n m, Counterpart id n m u u' ∧ Abreast id (some (n,m)) w w'

theorem beginWrite_alike (final : Path) (folder : transactionDir id <+: final.dropLast) (path : RelativePath) :
    Twin (Sys.handle env) (Abreast id none) (FileStore.beginWrite id final path).run (FileStore.beginWrite id final path).run
      (Paired (Begun id) (Abreast id none)) := by
  have known : Alike env id none (FileStore.hasTransaction id) (FileStore.hasTransaction id) :=
    Twin.same_bind (alike_status (.near (.inl (files_in_folder id [])))) fun _ => alike_ret _
  apply Twin.same_exceptT_bind (Twin.same_lift known)
  · exact fun e s t abreast => ⟨rfl,abreast⟩
  intro known
  apply Twin.same_exceptT_bind (alike_refuse _ _)
  · exact fun e s t abreast => ⟨rfl,abreast⟩
  intro _
  apply Twin.exceptT_bind (Twin.lift nextTmp_twin)
  · exact fun e s t abreast => ⟨rfl,abreast⟩
  intro n m
  apply Twin.same_exceptT_bind (Twin.same_lift alike_create)
  · exact fun e s t abreast => ⟨rfl,abreast.forget⟩
  intro opened
  cases opened with
  | opened => exact Twin.ret fun w w' abreast => ⟨n,m,⟨rfl,folder,rfl⟩,abreast⟩
  | missing => exact Twin.ret fun w w' abreast => ⟨rfl,abreast.forget⟩
  | failed => exact Twin.ret fun w w' abreast => ⟨rfl,abreast.forget⟩

/-- A step of an upload that has begun. -/
theorem Begun.twin {f g : Upload → Prog Sys α} {after : α → α → World → World → Prop}
    (steps : ∀ n m u u', Counterpart id n m u u' → Twin (Sys.handle env) (Abreast id (some (n,m))) (f u) (g u') after)
    (u u' : Upload) : Twin (Sys.handle env) (Begun id u u') (f u) (g u') after := by
  constructor
  intro w w' begun
  obtain ⟨n,m,counterpart,abreast⟩ := begun
  exact (steps n m u u' counterpart).ends w w' abreast

/-- An upload that is over. -/
def Spent (id : TransactionId) (u u' : Upload) (w w' : World) : Prop := u.done = true ∧ Begun id u u' w w'

theorem discard_alike (env : Env) {u u' : Upload} (counterpart : Counterpart id n m u u') :
    Twin (Sys.handle env) (Abreast id (some (n,m))) u.discard u'.discard (Spent id) := by
  obtain ⟨tmp,folder,rfl⟩ := counterpart
  unfold Upload.discard
  rw [tmp]
  exact Twin.same_bind alike_discard fun _ => Twin.ret fun _ _ abreast => ⟨rfl,n,m,⟨rfl,folder,rfl⟩,abreast⟩

theorem write_alike (chunk : Bytes) (u u' : Upload) :
    Twin (Sys.handle env) (Begun id u u') (u.write chunk) (u'.write chunk) (Equally (Begun id)) := by
  revert u u'
  apply Begun.twin
  intro n m u u' counterpart
  have discards := discard_alike env counterpart
  have self := counterpart
  obtain ⟨tmp,folder,rfl⟩ := counterpart
  unfold Upload.write
  split
  · exact Twin.ret fun _ _ abreast => ⟨rfl,n,m,self,abreast⟩
  split
  · exact Twin.ret fun _ _ abreast => ⟨rfl,n,m,self,abreast⟩
  apply Twin.same_bind (p := sys (.append u.tmp chunk))
  · rw [tmp]
    exact alike_append chunk
  intro written
  cases written with
  | true => exact Twin.ret fun _ _ abreast => ⟨rfl,n,m,⟨tmp,folder,rfl⟩,abreast⟩
  | false =>
    apply Twin.bind discards
    intro v v'
    exact Twin.ret fun _ _ spent => ⟨rfl,spent.2⟩

theorem finish_alike (env : Env) (sha256 : Bytes → Sha256Digest) {u u' : Upload} (counterpart : Counterpart id n m u u')
    (expected : Option Sha256Digest) :
    Alike env id (some (n,m)) (u.finish sha256 expected).run (u'.finish sha256 expected).run := by
  obtain ⟨tmp,folder,rfl⟩ := counterpart
  have near : Near id u.final := .inl (folder.trans (List.dropLast_prefix _))
  have above : Near id u.final.dropLast := .inl folder
  apply Alike.bindM (Twin.same_lift (alike_flush _ _))
  intro _
  apply Alike.bindM (alike_refuse _ _)
  intro _
  apply Alike.bindM (Twin.same_lift (alike_fsync _ _))
  intro _
  apply Alike.bindM (alike_refuse _ _)
  intro _
  apply Alike.bindM (Twin.same_lift (alike_close _ _))
  intro _
  apply Alike.bindM (alike_refuse _ _)
  intro _
  apply Alike.bindM (alike_ensure _)
  intro _
  apply Alike.bindM (Twin.same_lift (createDirectories_alike _ ?_))
  · intro made
    apply Alike.bindM (alike_refuse _ _)
    intro _
    apply Alike.bindM (alike_refuse _ _)
    intro _
    apply Alike.bindM (Twin.same_lift (alike_status (.near near)))
    intro status
    apply Alike.bindM (alike_refuse _ _)
    intro _
    rw [tmp]
    apply Alike.bindM (Twin.same_lift (alike_rename near above))
    intro renamed
    apply Alike.bindM (alike_refuse _ _)
    intro _
    exact alike_ret _
  · intro q short inner
    rw [List.reverse_reverse] at short
    have near := near_above folder short inner
    refine ⟨near,near_dropLast near inner ?_⟩
    rintro rfl
    have same := List.prefix_of_prefix_length_le short folder (by simp [tmpDir,transactionDir,transactionsDir])
    obtain ⟨rest,same⟩ := same
    simp [tmpDir,transactionDir,transactionsDir] at same
    exact absurd same.1 (by decide)

theorem commit_alike (sha256 : Bytes → Sha256Digest) (expected : Option Sha256Digest) (u u' : Upload) :
    Twin (Sys.handle env) (Begun id u u') (u.commit sha256 expected) (u'.commit sha256 expected) (Equally (Spent id)) := by
  revert u u'
  apply Begun.twin
  intro n m u u' counterpart
  have finishes := finish_alike env sha256 counterpart expected
  have discards := discard_alike env counterpart
  have self := counterpart
  obtain ⟨tmp,folder,rfl⟩ := counterpart
  unfold Upload.commit
  split
  · rename_i ended
    exact Twin.ret fun _ _ abreast => ⟨rfl,ended,n,m,self,abreast⟩
  apply Twin.same_bind finishes
  intro result
  cases result with
  | ok stored => exact Twin.ret fun _ _ abreast => ⟨rfl,rfl,n,m,⟨tmp,folder,rfl⟩,abreast⟩
  | error e =>
    apply Twin.bind discards
    intro v v'
    exact Twin.ret fun _ _ spent => ⟨rfl,spent⟩

theorem writeDocument_alike (env : Env) (sha256 : Bytes → Sha256Digest) (doc : Document) (content : Bytes) :
    Alike env id none (FileStore.writeDocument sha256 id doc content).run
      (FileStore.writeDocument sha256 id doc content).run := by
  have folder : transactionDir id <+: (documentPath id doc).dropLast := by
    rw [documentPath_dropLast]
  have forget : ∀ {u u' : Upload} {w w' : World}, Begun id u u' w w' → Abreast id none w w' := by
    rintro u u' w w' ⟨n,m,_,abreast⟩
    exact abreast.forget
  apply Twin.exceptT_bind (beginWrite_alike _ folder _)
  · exact fun e w w' abreast => ⟨rfl,abreast⟩
  intro u u'
  apply Twin.shared_lift_bind (write_alike content u u')
  intro written u u'
  apply Twin.same_exceptT_bind (Twin.ret fun w w' begun => ⟨rfl,begun⟩)
  · exact fun e w w' begun => ⟨rfl,forget begun⟩
  intro _
  apply Twin.shared_lift_bind (commit_alike sha256 none u u')
  intro committed u u'
  apply Twin.same_exceptT_bind (Twin.ret fun w w' spent => ⟨rfl,spent⟩)
  · exact fun e w w' spent => ⟨rfl,forget spent.2⟩
  intro _
  exact Twin.ret fun w w' spent => ⟨rfl,forget spent.2⟩

theorem pruneFolders_alike (names : List Bytes) :
    Alike env id none (FileStore.pruneFolders (filesDir id) names) (FileStore.pruneFolders (filesDir id) names) := by
  induction names with
  | nil => exact alike_ret _
  | cons name up ih =>
    have inside : transactionDir id <+: filesDir id ++ (name :: up).reverse := files_in_folder id _
    apply Twin.same_bind (alike_isEmpty inside)
    intro empty
    cases empty with
    | false => exact alike_ret _
    | true =>
      apply Twin.same_bind (alike_remove (.near (.inl inside)) fun agree => agree.disks.isEmpty inside)
      intro removed
      cases removed with
      | false => exact alike_ret _
      | true => exact ih

theorem removeFile_alike (path : RelativePath) :
    Alike env id none (FileStore.removeFile id path).run (FileStore.removeFile id path).run := by
  have inside : transactionDir id <+: payloadPath id path := files_in_folder id _
  apply Alike.bindM (alike_call (alike_status (.near (.inl inside))))
  intro status
  cases status with
  | absent => exact alike_ret _
  | directory => exact alike_ret _
  | regular size =>
    apply Alike.bindM (alike_call (alike_remove (.near (.inl inside)) fun agree => agree.disks.isEmpty inside))
    intro removed
    apply Alike.bindM (alike_refuse _ _)
    intro _
    exact Twin.same_lift (pruneFolders_alike _)

end Store

end Confide
