import Mathlib.Data.List.Basic
import Mathlib.Logic.Function.Basic

/-!
# Singly linked lists in a pointer heap

`Chain next p xs`: following `next` from the pointer `p` visits the nodes `xs` in
order and ends at null. The nodes are determined by the pointer (`Chain.unique`),
a write to a node off the list does not change it (`Chain.update`), and linking a
new node behind the last one appends it (`Chain.append`).
-/

namespace Kit

universe u
variable {π : Type u}

/-- The null-terminated list of nodes reached from a pointer. -/
def Chain (next : π → Option π) : Option π → List π → Prop
  | q, [] => q = none
  | q, p :: xs => q = some p ∧ Chain next (next p) xs

namespace Chain
variable {next : π → Option π} {p : π} {q : Option π} {xs ys : List π}

@[simp] theorem nil_iff : Chain next q [] ↔ q = none := Iff.rfl

@[simp] theorem cons_iff : Chain next q (p :: xs) ↔ q = some p ∧ Chain next (next p) xs := Iff.rfl

@[simp] theorem none_iff : Chain next none xs ↔ xs = [] := by
  cases xs <;> simp

/-- The head pointer is the first node. -/
theorem head?_eq (h : Chain next q xs) : xs.head? = q := by
  cases xs with
  | nil => simpa using h.symm
  | cons x xs => simpa using (cons_iff.mp h).1.symm

/-- A pointer heads at most one list. -/
theorem unique (h : Chain next q xs) (h' : Chain next q ys) : xs = ys := by
  induction xs generalizing q ys with
  | nil =>
      rw [nil_iff] at h
      subst h
      exact (none_iff.mp h').symm
  | cons x xs ih =>
      obtain ⟨rfl, hx⟩ := cons_iff.mp h
      cases ys with
      | nil => simp at h'
      | cons y ys =>
          obtain ⟨hxy, hy⟩ := cons_iff.mp h'
          rw [Option.some.injEq] at hxy
          subst hxy
          rw [ih hx hy]

/-- The list depends on the links of its own nodes only. -/
theorem congr {next' : π → Option π} (h : Chain next q xs)
    (heq : ∀ x ∈ xs, next' x = next x) : Chain next' q xs := by
  induction xs generalizing q with
  | nil => simpa using h
  | cons x xs ih =>
      obtain ⟨rfl, hx⟩ := cons_iff.mp h
      rw [cons_iff, heq x (by simp)]
      exact ⟨rfl, ih hx fun y hy => heq y (by simp [hy])⟩

variable [DecidableEq π]

/-- Relinking a node that is not on the list. -/
theorem update {r : π} {v : Option π} (h : Chain next q xs) (hr : r ∉ xs) :
    Chain (Function.update next r v) q xs :=
  h.congr fun x hx => Function.update_of_ne (by rintro rfl; exact hr hx) _ _

/-- Linking a fresh node behind the last one appends it. -/
theorem append {last r : π} (h : Chain next q xs) (hlast : xs.getLast? = some last)
    (hnodup : xs.Nodup) (hr : r ∉ xs) (hend : next r = none) :
    Chain (Function.update next last (some r)) q (xs ++ [r]) := by
  induction xs generalizing q with
  | nil => simp at hlast
  | cons x xs ih =>
      obtain ⟨rfl, hx⟩ := cons_iff.mp h
      rw [List.cons_append, cons_iff]
      refine ⟨rfl, ?_⟩
      rw [List.nodup_cons] at hnodup
      cases xs with
      | nil =>
          simp only [List.getLast?_singleton, Option.some.injEq] at hlast
          subst hlast
          have hne : r ≠ x := by simpa using hr
          simp [Function.update_of_ne hne, hend]
      | cons y ys =>
          have hlast' : (y :: ys).getLast? = some last := by simpa using hlast
          have hmem : last ∈ y :: ys := List.mem_of_getLast? hlast'
          have hne : x ≠ last := by rintro rfl; exact hnodup.1 hmem
          rw [Function.update_of_ne hne]
          exact ih hx hlast' hnodup.2 fun hm => hr (by simp [hm])

end Chain
end Kit
