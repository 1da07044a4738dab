import Mathlib.Data.List.Basic
import Mathlib.Data.List.Nodup
import Mathlib.Data.List.Sort

/-! Hash tables with distinct keys, as the list of their entries in the order of iteration. -/

structure Table (κ α : Type) where
  table : List (κ × α)
  distinct : (table.map Prod.fst).Nodup

namespace Table

variable {κ α : Type} [DecidableEq κ]

def empty : Table κ α := ⟨[],List.nodup_nil⟩

/-- The same entries in another order. -/
def arrange (store : Table κ α) (order : List κ) : Table κ α where
  table := store.table.insertionSort fun a b => order.idxOf a.1 ≤ order.idxOf b.1
  distinct := ((List.perm_insertionSort _ store.table).map Prod.fst).nodup_iff.mpr store.distinct

def find (store : Table κ α) (key : κ) : Option α := (store.table.find? (·.1 = key)).map Prod.snd

def eraseIf (store : Table κ α) (gone : κ × α → Bool) : Table κ α where
  table := store.table.filter (!gone ·)
  distinct := store.distinct.sublist (List.filter_sublist.map Prod.fst)

def erase (store : Table κ α) (key : κ) : Table κ α := store.eraseIf (·.1 = key)

def insertOrAssign (store : Table κ α) (key : κ) (value : α) : Table κ α where
  table := (key,value) :: (store.erase key).table
  distinct := by
    refine List.nodup_cons.mpr ⟨?_,(store.erase key).distinct⟩
    simp [erase,eraseIf]

theorem find_eq_some (store : Table κ α) (key : κ) (value : α) :
    store.find key = some value ↔ (key,value) ∈ store.table := by
  obtain ⟨table,distinct⟩ := store
  simp only [find,Option.map_eq_some_iff]
  induction table with
  | nil => simp
  | cons entry table ih =>
    obtain ⟨fresh,distinct⟩ := List.nodup_cons.mp distinct
    by_cases same : entry.1 = key
    · subst same
      have absent : (entry.1,value) ∉ table := fun member => fresh (List.mem_map.mpr ⟨_,member,rfl⟩)
      simp only [List.find?_cons_of_pos,decide_true,Option.some.injEq,exists_eq_left',List.mem_cons,absent,or_false]
      exact ⟨fun h => by rw [← h],fun h => by rw [← h]⟩
    · have other : entry ≠ (key,value) := fun h => same (by rw [h])
      simp only [List.find?_cons,same,decide_false,List.mem_cons,other.symm,false_or]
      exact ih distinct

theorem mem_unique (store : Table κ α) {key : κ} {value value' : α} (first : (key,value) ∈ store.table)
    (second : (key,value') ∈ store.table) : value = value' := by
  have found := (store.find_eq_some key value).mpr first
  rw [(store.find_eq_some key value').mpr second] at found
  exact (Option.some.inj found).symm

@[simp] theorem mem_arrange (store : Table κ α) (order : List κ) (entry : κ × α) :
    entry ∈ (store.arrange order).table ↔ entry ∈ store.table := by
  simp [arrange]

omit [DecidableEq κ] in
@[simp] theorem mem_eraseIf (store : Table κ α) (gone : κ × α → Bool) (entry : κ × α) :
    entry ∈ (store.eraseIf gone).table ↔ entry ∈ store.table ∧ gone entry = false := by
  simp [eraseIf]

@[simp] theorem mem_erase (store : Table κ α) (key : κ) (entry : κ × α) :
    entry ∈ (store.erase key).table ↔ entry ∈ store.table ∧ entry.1 ≠ key := by
  simp [erase]

@[simp] theorem mem_insertOrAssign (store : Table κ α) (key : κ) (value : α) (entry : κ × α) :
    entry ∈ (store.insertOrAssign key value).table ↔ entry = (key,value) ∨ entry ∈ store.table ∧ entry.1 ≠ key := by
  simp [insertOrAssign]

theorem find_eraseIf (store : Table κ α) (gone : κ × α → Bool) (key : κ) :
    (store.eraseIf gone).find key = (store.find key).filter fun value => !gone (key,value) := by
  ext value
  rw [find_eq_some,mem_eraseIf,Option.filter_eq_some_iff,find_eq_some]
  simp

theorem find_erase (store : Table κ α) (key other : κ) :
    (store.erase key).find other = if other = key then none else store.find other := by
  ext value
  rw [find_eq_some,mem_erase]
  by_cases same : other = key
  · simp [same]
  · simp [same,find_eq_some]

theorem find_insertOrAssign (store : Table κ α) (key other : κ) (value : α) :
    (store.insertOrAssign key value).find other = if other = key then some value else store.find other := by
  ext found
  rw [find_eq_some,mem_insertOrAssign,Prod.mk.injEq]
  by_cases same : other = key
  · simp [same,eq_comm]
  · simp [same,find_eq_some]

/-- The first entry of a key stays. -/
def emplace (store : Table κ α) (key : κ) (value : α) : Table κ α :=
  if (store.find key).isSome then store else store.insertOrAssign key value

theorem find_emplace (store : Table κ α) (key other : κ) (value : α) :
    (store.emplace key value).find other = if other = key then some ((store.find key).getD value) else store.find other := by
  unfold emplace
  split
  · rename_i there
    obtain ⟨old,found⟩ := Option.isSome_iff_exists.mp there
    split
    · rename_i same
      rw [same,found,Option.getD_some]
    · rfl
  · rename_i absent
    rw [find_insertOrAssign,Option.not_isSome_iff_eq_none.mp absent,Option.getD_none]

omit [DecidableEq κ] in
theorem countP_eraseIf_le (store : Table κ α) (gone mine : κ × α → Bool) :
    (store.eraseIf gone).table.countP mine ≤ store.table.countP mine :=
  List.filter_sublist.countP_le

theorem countP_erase_lt (store : Table κ α) (mine : κ × α → Bool) (stored : (key,value) ∈ store.table)
    (his : mine (key,value) = true) : (store.erase key).table.countP mine < store.table.countP mine := by
  have split := List.countP_eq_countP_filter_add store.table mine (fun entry => !decide (entry.1 = key))
  have removed : 0 < (store.table.filter fun entry => !(!decide (entry.1 = key))).countP mine :=
    List.countP_pos_iff.mpr ⟨(key,value),by simpa using stored,his⟩
  simp only [erase,eraseIf]
  omega

theorem countP_insertOrAssign_le (store : Table κ α) (mine : κ × α → Bool) (key : κ) (value : α) :
    (store.insertOrAssign key value).table.countP mine ≤ store.table.countP mine + (if mine (key,value) then 1 else 0) := by
  have fewer := countP_eraseIf_le store (fun entry => decide (entry.1 = key)) mine
  simp only [insertOrAssign,List.countP_cons,erase]
  omega

@[simp] theorem countP_arrange (store : Table κ α) (order : List κ) (mine : κ × α → Bool) :
    (store.arrange order).table.countP mine = store.table.countP mine :=
  (List.perm_insertionSort _ store.table).countP_eq _

end Table
