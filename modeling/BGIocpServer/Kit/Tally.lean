import Mathlib.Algebra.BigOperators.Group.Finset.Piecewise
import Mathlib.Algebra.BigOperators.Ring.Finset
import Mathlib.Algebra.Order.BigOperators.Group.Finset
import Mathlib.Data.Fintype.BigOperators
import Mathlib.Data.Fintype.Card

/-!
# Counting the threads at a set of program points

The state of `ι` threads is a function `f : ι → κ` to program points, and one
step moves one thread: `Function.update f i k`. `weigh w f` adds up a weight of the
program points, and `tally P f` counts the threads at the points of `P`. The update
rules `weigh_update` and `tally_update` are equations between natural numbers, so a
counting invariant is kept by arithmetic alone.
-/

namespace Kit

universe u v
variable {ι : Type u} {κ : Type v} [Fintype ι]

/-- The weights of the program points of all threads, added up. -/
def weigh (w : κ → ℕ) (f : ι → κ) : ℕ := ∑ i, w (f i)

/-- How many threads are at a program point of `P`. -/
def tally (P : κ → Bool) (f : ι → κ) : ℕ := weigh (fun k => (P k).toNat) f

variable {w w' : κ → ℕ} {P Q : κ → Bool} {f : ι → κ} {i : ι}

/-- One thread moves from `f i` to `k`: only its own weight changes. -/
theorem weigh_update [DecidableEq ι] (w : κ → ℕ) (f : ι → κ) (i : ι) (k : κ) :
    weigh w (Function.update f i k) + w (f i) = weigh w f + w k := by
  have hnew := Finset.add_sum_erase Finset.univ
    (fun j => w (Function.update f i k j)) (Finset.mem_univ i)
  have hold := Finset.add_sum_erase Finset.univ (fun j => w (f j)) (Finset.mem_univ i)
  have hrest : ∑ j ∈ Finset.univ.erase i, w (Function.update f i k j)
      = ∑ j ∈ Finset.univ.erase i, w (f j) :=
    Finset.sum_congr rfl fun j hj => by
      rw [Function.update_of_ne (Finset.ne_of_mem_erase hj)]
  simp only [Function.update_self] at hnew
  simp only [weigh]
  omega

theorem weigh_add (w w' : κ → ℕ) (f : ι → κ) :
    weigh (fun k => w k + w' k) f = weigh w f + weigh w' f := Finset.sum_add_distrib

theorem weigh_mul (c : ℕ) (w : κ → ℕ) (f : ι → κ) :
    weigh (fun k => c * w k) f = c * weigh w f := (Finset.mul_sum ..).symm

/-- One thread weighs at most as much as all. -/
theorem le_weigh (w : κ → ℕ) (f : ι → κ) (i : ι) : w (f i) ≤ weigh w f :=
  Finset.single_le_sum (f := fun j => w (f j)) (fun _ _ => Nat.zero_le _) (Finset.mem_univ i)

/-- A decided point counts 1 or 0. -/
theorem toNat_decide (p : Prop) [Decidable p] : (decide p).toNat = if p then 1 else 0 := by
  by_cases h : p <;> simp [h]

/-- One thread moves from `f i` to `k`: only its own contribution changes. -/
theorem tally_update [DecidableEq ι] (P : κ → Bool) (f : ι → κ) (i : ι) (k : κ) :
    tally P (Function.update f i k) + (P (f i)).toNat = tally P f + (P k).toNat :=
  weigh_update (fun k => (P k).toNat) f i k

/-- A thread at a point of `P` is counted. -/
theorem tally_pos (h : P (f i) = true) : 0 < tally P f := by
  have hle := le_weigh (fun k => (P k).toNat) f i
  simp only [h, Bool.toNat_true] at hle
  exact hle

/-- Two different threads at points of `P` are both counted. -/
theorem two_le_tally [DecidableEq ι] {j : ι} (hij : i ≠ j) (hi : P (f i) = true)
    (hj : P (f j) = true) : 2 ≤ tally P f := by
  have hsub := Finset.sum_le_sum_of_subset (f := fun j => (P (f j)).toNat)
    (Finset.subset_univ ({i, j} : Finset ι))
  rw [Finset.sum_pair hij, hi, hj] at hsub
  exact hsub

/-- If some thread is counted, one can be named. -/
theorem exists_of_tally_pos (h : 0 < tally P f) : ∃ i, P (f i) = true := by
  by_contra hnone
  push Not at hnone
  have hzero : tally P f = 0 :=
    Finset.sum_eq_zero fun j _ => by simp [hnone j]
  omega

/-- The threads weigh nothing exactly when each of them weighs nothing. -/
theorem weigh_eq_zero : weigh w f = 0 ↔ ∀ i, w (f i) = 0 := by
  simp [weigh, Finset.sum_eq_zero_iff]

/-- Nobody is counted exactly when no thread is at a point of `P`. -/
theorem tally_eq_zero : tally P f = 0 ↔ ∀ i, P (f i) = false := by
  simp [tally, weigh_eq_zero]

/-- Threads that are counted by another count are no more than are counted there. -/
theorem tally_mono {κ' : Type*} {Q' : κ' → Bool} {g : ι → κ'}
    (h : ∀ i, P (f i) = true → Q' (g i) = true) : tally P f ≤ tally Q' g :=
  Finset.sum_le_sum fun i _ => Bool.toNat_le_toNat (h i)

/-- Threads of two groups. -/
theorem tally_sum {ι' : Type*} [Fintype ι'] (P : κ → Bool) (f : ι ⊕ ι' → κ) :
    tally P f = tally P (fun i => f (.inl i)) + tally P (fun j => f (.inr j)) :=
  Fintype.sum_sum_type fun i => (P (f i)).toNat

/-- All threads start at the same point. -/
@[simp] theorem tally_const (P : κ → Bool) (k : κ) :
    tally P (fun _ : ι => k) = Fintype.card ι * (P k).toNat := by
  simp [tally, weigh]

end Kit
