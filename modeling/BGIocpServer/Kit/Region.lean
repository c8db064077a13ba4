import Mathlib.Data.List.Basic
import Mathlib.Data.List.Range

/-!
# Reading and writing runs of cells

A memory block is a function from offsets to cells; its bounds are the business
of whoever uses it. `load m off n` reads `n` cells and `store m off src` writes a
list of cells. Overlapping copies need no case of their own: `store` takes the
loaded list as a value.
-/

namespace Kit

universe u
variable {β : Type u}

/-- The `n` cells from `off` on. -/
def load (m : ℕ → β) (off n : ℕ) : List β := (List.range n).map fun i => m (off + i)

/-- Overwrite the cells from `off` on with `src`. -/
def store (m : ℕ → β) (off : ℕ) (src : List β) : ℕ → β := fun i =>
  if off ≤ i then (src[i - off]?).getD (m i) else m i

variable {m : ℕ → β} {off n k : ℕ} {src : List β}

@[simp] theorem length_load (m : ℕ → β) (off n : ℕ) : (load m off n).length = n := by
  simp [load]

@[simp] theorem load_zero (m : ℕ → β) (off : ℕ) : load m off 0 = [] := rfl

theorem getElem_load {i : ℕ} (h : i < (load m off n).length) : (load m off n)[i] = m (off + i) := by
  simp [load]

/-- A run is read piece by piece. -/
theorem load_add (m : ℕ → β) (off n k : ℕ) :
    load m off (n + k) = load m off n ++ load m (off + n) k := by
  simp only [load, List.range_add, List.map_append, List.map_map, Function.comp_def, Nat.add_assoc]

/-- The head of a non-empty run. -/
theorem load_succ (m : ℕ → β) (off n : ℕ) : load m off (n + 1) = m off :: load m (off + 1) n := by
  rw [Nat.add_comm n 1, load_add]
  simp [load]

/-- Two blocks that agree on a run give the same list. -/
theorem load_congr {m' : ℕ → β} (h : ∀ i, off ≤ i → i < off + n → m i = m' i) :
    load m off n = load m' off n := by
  simp only [load]
  refine List.map_congr_left fun i hi => h _ (Nat.le_add_right _ _) ?_
  have := List.mem_range.mp hi
  omega

/-- Reading back what was written. -/
theorem load_store (m : ℕ → β) (off : ℕ) (src : List β) :
    load (store m off src) off src.length = src := by
  apply List.ext_getElem (by simp)
  intro i _ h
  rw [getElem_load]
  simp [store, List.getElem?_eq_getElem h]

/-- Reading back what was written, the length given separately. -/
theorem load_store_of_length (m : ℕ → β) (off : ℕ) (h : src.length = n) :
    load (store m off src) off n = src := by
  subst h
  exact load_store m off src

/-- A run that ends before the written cells is untouched. -/
theorem load_store_of_le (h : k + n ≤ off) : load (store m off src) k n = load m k n := by
  refine load_congr fun i hlo hhi => ?_
  have hi : ¬ off ≤ i := by omega
  simp [store, hi]

/-- Writing directly behind a run appends to it. -/
theorem load_store_append (m : ℕ → β) (n : ℕ) (src : List β) :
    load (store m n src) 0 (n + src.length) = load m 0 n ++ src := by
  rw [load_add, load_store_of_le (by omega), Nat.zero_add, load_store]

/-- A cell outside the written run keeps its value. -/
theorem store_apply_of_le {i : ℕ} (h : off + src.length ≤ i) : store m off src i = m i := by
  have hnone : src[i - off]? = none := List.getElem?_eq_none (by omega)
  simp [store, hnone]

end Kit
