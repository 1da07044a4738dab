import Mathlib.Data.Finmap
import Mathlib.Data.Finset.Image
import Mathlib.Data.List.Sort

/-! Directory trees. A tree is a finite map from paths to nodes in which every node
but the root stands in a directory; each operation either gives such a tree again or
is refused. -/
namespace DirTree

section Enumerate

variable {α β : Type} [LinearOrder β] (rank : α → β) (injective : Function.Injective rank)

theorem ranked_pairwise (l : List α) :
    (l.insertionSort fun a b => rank a ≤ rank b).Pairwise fun a b => rank a ≤ rank b := by
  have total : Std.Total fun a b => rank a ≤ rank b := ⟨fun a b => le_total (rank a) (rank b)⟩
  have trans : IsTrans α fun a b => rank a ≤ rank b := ⟨fun _ _ _ => le_trans⟩
  exact List.pairwise_insertionSort _ l

include injective in
theorem ranked_unique {a b : List α} (same : a.Perm b) :
    (a.insertionSort fun a b => rank a ≤ rank b) = b.insertionSort fun a b => rank a ≤ rank b :=
  List.Perm.eq_of_pairwise (fun _ _ _ _ low high => injective (le_antisymm low high))
    (ranked_pairwise rank a) (ranked_pairwise rank b)
    (((List.perm_insertionSort _ a).trans same).trans (List.perm_insertionSort _ b).symm)

/-- The elements of a finite set in the order of their ranks. -/
def enumerate (s : Finset α) : List α :=
  Quot.liftOn s.val (fun l => l.insertionSort fun a b => rank a ≤ rank b) fun _ _ =>
    ranked_unique rank injective

@[simp] theorem mem_enumerate (s : Finset α) (a : α) : a ∈ enumerate rank injective s ↔ a ∈ s := by
  obtain ⟨m,nodup⟩ := s
  induction m using Quot.inductionOn with
  | h l => exact (List.perm_insertionSort _ l).mem_iff

theorem enumerate_pairwise (s : Finset α) :
    (enumerate rank injective s).Pairwise fun a b => rank a < rank b := by
  obtain ⟨m,nodup⟩ := s
  induction m using Quot.inductionOn with
  | h l =>
    have distinct := (List.perm_insertionSort (fun a b => rank a ≤ rank b) l).nodup_iff.mpr nodup
    exact ((ranked_pairwise rank l).and distinct).imp fun h => lt_of_le_of_ne h.1 fun same => h.2 (injective same)

/-- Elements that are left out do not show in an enumeration. -/
theorem enumerate_filterMap {γ : Type} {s t : Finset α} {f : α → Option γ} (cover : ∀ a, f a ≠ none → (a ∈ s ↔ a ∈ t)) :
    (enumerate rank injective s).filterMap f = (enumerate rank injective t).filterMap f := by
  have kept : ∀ l : List α, l.filterMap f = (l.filter fun a => (f a).isSome).filterMap f := by
    intro l
    rw [List.filterMap_filter]
    congr 1
    funext a
    cases f a <;> rfl
  have sorted : ∀ s : Finset α, ((enumerate rank injective s).filter fun a => (f a).isSome).Pairwise
      fun a b => rank a < rank b := fun s => (enumerate_pairwise rank injective s).filter _
  have nodup : ∀ s : Finset α, ((enumerate rank injective s).filter fun a => (f a).isSome).Nodup := fun s =>
    (sorted s).imp fun less same => absurd (same ▸ less) (lt_irrefl _)
  rw [kept,kept (enumerate rank injective t)]
  congr 1
  apply List.Perm.eq_of_pairwise (fun _ _ _ _ low high => absurd low (lt_asymm high)) (sorted s) (sorted t)
  apply (List.perm_ext_iff_of_nodup (nodup s) (nodup t)).mpr
  intro a
  simp only [List.mem_filter,mem_enumerate]
  constructor
  · rintro ⟨member,some⟩
    exact ⟨(cover a (by intro none; simp [none] at some)).mp member,some⟩
  · rintro ⟨member,some⟩
    exact ⟨(cover a (by intro none; simp [none] at some)).mpr member,some⟩

end Enumerate

variable {Name Content : Type} [DecidableEq Name]

inductive Node (Content : Type) where
  | directory
  | file (content : Content)
  deriving DecidableEq, Repr

structure Tree (Name Content : Type) [DecidableEq Name] where
  nodes : Finmap fun _ : List Name => Node Content
  root : nodes.lookup [] = some .directory
  closed : ∀ path ∈ nodes, path ≠ [] → nodes.lookup path.dropLast = some .directory

namespace Tree

variable {t t' : Tree Name Content} {p q : List Name} {node : Node Content}

def lookup (t : Tree Name Content) (path : List Name) : Option (Node Content) := t.nodes.lookup path

theorem ext_lookup (same : ∀ path, t.lookup path = t'.lookup path) : t = t' := by
  obtain ⟨nodes,_,_⟩ := t
  obtain ⟨nodes',_,_⟩ := t'
  obtain rfl : nodes = nodes' := Finmap.ext_lookup same
  rfl

theorem mem_nodes (t : Tree Name Content) (p : List Name) : p ∈ t.nodes ↔ t.lookup p ≠ none := by
  rw [lookup,ne_eq,Finmap.lookup_eq_none,not_not]

@[simp] theorem lookup_root (t : Tree Name Content) : t.lookup [] = some .directory := t.root

theorem parent_directory (present : t.lookup p ≠ none) (inner : p ≠ []) : t.lookup p.dropLast = some .directory :=
  t.closed p ((t.mem_nodes p).mpr present) inner

def isDirectory (t : Tree Name Content) (path : List Name) : Bool :=
  match t.lookup path with
  | some .directory => true
  | _ => false

theorem isDirectory_iff : t.isDirectory p = true ↔ t.lookup p = some .directory := by
  unfold isDirectory
  split <;> simp_all

def isEmpty (t : Tree Name Content) (path : List Name) : Bool :=
  decide (∀ q ∈ t.nodes.keys, q ≠ [] → q.dropLast ≠ path)

theorem isEmpty_iff (t : Tree Name Content) (path : List Name) :
    t.isEmpty path = true ↔ ∀ q, t.lookup q ≠ none → q ≠ [] → q.dropLast ≠ path := by
  simp only [isEmpty,decide_eq_true_eq,Finmap.mem_keys,mem_nodes]

def children (t : Tree Name Content) (path : List Name) : Finset Name :=
  (t.nodes.keys.filter fun q => q.dropLast = path).image (fun q => q.getLast?) |>.eraseNone

theorem mem_children {name : Name} : name ∈ t.children p ↔ t.lookup (p ++ [name]) ≠ none := by
  simp only [children,Finset.mem_eraseNone,Finset.mem_image,Finset.mem_filter,Finmap.mem_keys,mem_nodes]
  constructor
  · rintro ⟨q,⟨present,rfl⟩,last⟩
    rwa [List.dropLast_append_getLast? name last]
  · exact fun present => ⟨p ++ [name],⟨present,by simp⟩,by simp⟩

/-- Puts a node where there is no directory, in a directory. -/
def assign (t : Tree Name Content) (path : List Name) (node : Node Content) : Option (Tree Name Content) :=
  if fits : path ≠ [] ∧ t.isDirectory path.dropLast = true ∧ ¬ t.isDirectory path = true then
    some {
      nodes := t.nodes.insert path node
      root := by rw [Finmap.lookup_insert_of_ne _ fits.1.symm]; exact t.root
      closed := by
        intro q member inner
        have other : q.dropLast ≠ path := by
          intro same
          rcases Finmap.mem_insert.mp member with rfl | old
          · have := congrArg List.length same
            have := List.length_pos_of_ne_nil inner
            simp only [List.length_dropLast] at *
            omega
          · exact fits.2.2 (isDirectory_iff.mpr (same ▸ t.closed q old inner))
        rw [Finmap.lookup_insert_of_ne _ other]
        rcases Finmap.mem_insert.mp member with rfl | old
        · exact isDirectory_iff.mp fits.2.1
        · exact t.closed q old inner }
  else none

/-- Takes away a node with nothing in it. -/
def detach (t : Tree Name Content) (path : List Name) : Option (Tree Name Content) :=
  if fits : path ≠ [] ∧ t.isEmpty path = true then
    some {
      nodes := t.nodes.erase path
      root := by rw [Finmap.lookup_erase_ne fits.1.symm]; exact t.root
      closed := by
        intro q member inner
        have old := (Finmap.mem_erase.mp member).2
        have other : q.dropLast ≠ path := (t.isEmpty_iff path).mp fits.2 q ((t.mem_nodes q).mp old) inner
        rw [Finmap.lookup_erase_ne other]
        exact t.closed q old inner }
  else none

theorem assign_lookup (assigned : t.assign p node = some t') (q : List Name) :
    t'.lookup q = if q = p then some node else t.lookup q := by
  unfold assign at assigned
  split at assigned
  · cases assigned
    unfold lookup
    split
    · rename_i same
      rw [same,Finmap.lookup_insert]
    · rename_i other
      rw [Finmap.lookup_insert_of_ne _ other]
  · contradiction

theorem assign_isSome : (t.assign p node).isSome = true ↔
    p ≠ [] ∧ t.lookup p.dropLast = some .directory ∧ t.lookup p ≠ some .directory := by
  simp only [ne_eq,← isDirectory_iff]
  unfold assign
  split <;> simp_all

theorem detach_lookup (detached : t.detach p = some t') (q : List Name) :
    t'.lookup q = if q = p then none else t.lookup q := by
  unfold detach at detached
  split at detached
  · cases detached
    unfold lookup
    split
    · rename_i same
      rw [same,Finmap.lookup_erase]
    · rename_i other
      rw [Finmap.lookup_erase_ne other]
  · contradiction

theorem detach_isSome : (t.detach p).isSome = true ↔ p ≠ [] ∧ t.isEmpty p = true := by
  unfold detach
  split <;> simp_all

/-- Whatever has something below it is a directory. -/
theorem directory_above (t : Tree Name Content) (p below : List Name) (present : t.lookup (p ++ below) ≠ none)
    (more : below ≠ []) : t.lookup p = some .directory := by
  induction below using List.reverseRecOn with
  | nil => contradiction
  | append_singleton front last ih =>
    have parent := parent_directory present (by simp)
    rw [← List.append_assoc,List.dropLast_concat] at parent
    cases front with
    | nil => simpa using parent
    | cons => exact ih (by rw [parent]; simp) (by simp)

theorem directory_prefix {q : List Name} (folder : t.lookup q = some .directory) (short : p <+: q) :
    t.lookup p = some .directory := by
  obtain ⟨below,rfl⟩ := short
  cases below with
  | nil => simpa using folder
  | cons name below => exact t.directory_above p (name :: below) (by simp [folder]) (by simp)

theorem nothing_below (closed : t.lookup p ≠ some .directory) (below : List Name) (more : below ≠ []) :
    t.lookup (p ++ below) = none := by
  by_contra present
  exact closed (t.directory_above p below present more)

/-- A path that is no directory has nothing in it. -/
theorem isEmpty_of_not_directory (closed : t.lookup p ≠ some .directory) : t.isEmpty p = true := by
  rw [isEmpty_iff]
  rintro q present inner rfl
  exact closed (parent_directory present inner)

def mkdir (t : Tree Name Content) (path : List Name) : Option (Tree Name Content) :=
  if (t.lookup path).isNone then t.assign path .directory else none

/-- Moves a file over a file or to a free place. -/
def rename (t : Tree Name Content) (source target : List Name) : Option (Tree Name Content) :=
  match t.lookup source with
  | some (.file content) =>
    if source = target then some t else (t.assign target (.file content)).bind (·.detach source)
  | _ => none

theorem mkdir_lookup (made : t.mkdir p = some t') :
    t.lookup p = none ∧ ∀ q, t'.lookup q = if q = p then some .directory else t.lookup q := by
  unfold mkdir at made
  split at made
  · rename_i absent
    exact ⟨Option.isNone_iff_eq_none.mp absent,assign_lookup made⟩
  · contradiction

theorem mkdir_isSome : (t.mkdir p).isSome = true ↔
    t.lookup p = none ∧ t.lookup p.dropLast = some .directory := by
  unfold mkdir
  split
  · rename_i absent
    rw [Option.isNone_iff_eq_none] at absent
    rw [assign_isSome]
    refine ⟨fun fits => ⟨absent,fits.2.1⟩,fun fits => ⟨?_,fits.2,by simp [absent]⟩⟩
    rintro rfl
    simp at absent
  · rename_i present
    simp only [Option.isNone_iff_eq_none] at present
    simp [present]

theorem rename_lookup (moved : t.rename p q = some t') (other : p ≠ q) : ∃ content, t.lookup p = some (.file content) ∧
      ∀ r, t'.lookup r = if r = q then some (.file content) else if r = p then none else t.lookup r := by
  unfold rename at moved
  split at moved
  · rename_i content source
    rw [if_neg other] at moved
    obtain ⟨middle,assigned,detached⟩ := Option.bind_eq_some_iff.mp moved
    refine ⟨content,source,fun r => ?_⟩
    rw [detach_lookup detached,assign_lookup assigned]
    split <;> split <;> simp_all
  · contradiction

theorem rename_frame (moved : t.rename p q = some t') (first : r ≠ p) (second : r ≠ q) : t'.lookup r = t.lookup r := by
  by_cases same : p = q
  · unfold rename at moved
    split at moved
    · rw [if_pos same] at moved
      exact Option.some.inj moved ▸ rfl
    · contradiction
  · obtain ⟨content,_,all⟩ := rename_lookup moved same
    rw [all,if_neg second,if_neg first]

/-- A file can be moved to any place in a directory that is not itself a directory. -/
theorem rename_isSome (source : t.lookup p = some (.file content)) (inner : q ≠ [])
    (parent : t.lookup q.dropLast = some .directory) (free : t.lookup q ≠ some .directory) :
    (t.rename p q).isSome = true := by
  unfold rename
  rw [source]
  dsimp only
  split
  · rfl
  · rename_i other
    obtain ⟨middle,assigned⟩ := Option.isSome_iff_exists.mp
      (assign_isSome.mpr ⟨inner,parent,free⟩ : (t.assign q (.file content)).isSome = true)
    rw [assigned,Option.bind_some,detach_isSome]
    refine ⟨?_,isEmpty_of_not_directory ?_⟩
    · rintro rfl
      simp at source
    · rw [assign_lookup assigned,if_neg other,source]
      simp

/-- A path and everything below it. -/
def subtree (t : Tree Name Content) (path : List Name) : Finset (List Name) :=
  t.nodes.keys.filter fun q => path <+: q

theorem mem_subtree : q ∈ t.subtree p ↔ t.lookup q ≠ none ∧ p <+: q := by
  rw [subtree,Finset.mem_filter,Finmap.mem_keys,mem_nodes]

/-- An order in which a path and everything below it can be taken away one by one:
what a directory holds comes before it. -/
def RemovalOrder (t : Tree Name Content) (path : List Name) (order : List (List Name)) : Prop :=
  order.toFinset = t.subtree path ∧ order.Pairwise fun a b => ¬ a <+: b

instance (t : Tree Name Content) (path : List Name) (order : List (List Name)) :
    Decidable (RemovalOrder t path order) := inferInstanceAs (Decidable (_ ∧ _))

end Tree
end DirTree
