import Mathlib.Data.List.Basic

/-!
# What the top of a priority queue is

A priority queue is known by its elements, kept here as a list whose order means
nothing. `HeapTop lt q a` is what the documentation of a heap promises of its top: an
element that no other one exceeds, provided `lt` is a strict weak order on the
elements. Without that proviso it promises an element and no more. Which of several
equal elements it is stays open.

## Main results

* `HeapTop.key_le`: the top has the smallest key, when `lt` compares keys downwards.
-/

namespace Kit

universe u
variable {α : Type u}

/-- `lt` is a strict weak order on the elements of a list. -/
structure StrictWeakOn (lt : α → α → Prop) (q : List α) : Prop where
  irrefl : ∀ a ∈ q, ¬ lt a a
  trans : ∀ a ∈ q, ∀ b ∈ q, ∀ c ∈ q, lt a b → lt b c → lt a c
  incomp_trans : ∀ a ∈ q, ∀ b ∈ q, ∀ c ∈ q,
    ¬ lt a b → ¬ lt b a → ¬ lt b c → ¬ lt c b → ¬ lt a c ∧ ¬ lt c a

/-- `a` can be the top of a queue of these elements. -/
def HeapTop (lt : α → α → Prop) (q : List α) (a : α) : Prop :=
  a ∈ q ∧ (StrictWeakOn lt q → ∀ b ∈ q, ¬ lt a b)

section Keys
variable {lt : α → α → Prop} {q : List α} {a b : α} {key : α → ℕ}

/-- A comparison of keys is a strict weak order. -/
theorem strictWeakOn_of_key (h : ∀ a ∈ q, ∀ b ∈ q, lt a b ↔ key b < key a) :
    StrictWeakOn lt q where
  irrefl a ha := by
    rw [h a ha a ha]
    omega
  trans a ha b hb c hc := by
    rw [h a ha b hb, h b hb c hc, h a ha c hc]
    omega
  incomp_trans a ha b hb c hc := by
    rw [h a ha b hb, h b hb a ha, h b hb c hc, h c hc b hb, h a ha c hc, h c hc a ha]
    omega

/-- The top of a queue that compares keys downwards has the smallest key. -/
theorem HeapTop.key_le (htop : HeapTop lt q a) (h : ∀ a ∈ q, ∀ b ∈ q, lt a b ↔ key b < key a)
    (hb : b ∈ q) : key a ≤ key b := by
  have hnot := htop.2 (strictWeakOn_of_key h) b hb
  rw [h a htop.1 b hb] at hnot
  omega

end Keys

end Kit
