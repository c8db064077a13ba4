import Mathlib.Logic.Function.Basic
import Mathlib.Data.Option.Basic
import Mathlib.Data.Nat.Notation

/-!
# Runs of a labelled machine

A machine is a partial function `step : σ → α → Option σ`: a label `α` names the
party that moves and every choice the environment makes, and `none` says the
label is not enabled. `Reaches step C s t` is a run from `s` to `t` all of whose
steps meet `C`, a condition on the state before the step and on the label.

## Main definitions

* `Reaches step C s t`: the runs, and with them the reachable states.
* `Reaches.invariant`: what one step preserves, every run preserves.
* `runAll step s labels`: the state after a list of labels, executable.
* `Repeats step a s t`: one label taken any number of times.
* `Along step Q s labels`, `Throughout step P s labels`: what holds of each executed step, and
  after it.
* `runAll_decreases`: steps that lower a measure come to an end.
* `along_iff`, `completes_along_iff`: a condition that is exact for each step is exact for runs.
-/

namespace Kit

universe u v
variable {σ : Type u} {α : Type v}

/-- A run of `step` from `s` whose every step meets `C`. -/
inductive Reaches (step : σ → α → Option σ) (C : σ → α → Prop) (s : σ) : σ → Prop
  /-- The empty run. -/
  | refl : Reaches step C s s
  /-- One more enabled step that meets the condition. -/
  | tail {t u : σ} {a : α} : Reaches step C s t → C t a → step t a = some u → Reaches step C s u

/-- The condition every step meets. -/
def Always (_ : σ) (_ : α) : Prop := True

namespace Reaches
variable {step : σ → α → Option σ} {C D : σ → α → Prop} {s t u : σ}

/-- The invariant rule: a property of the start that every step keeps holds of
every state the run visits. -/
theorem invariant (P : σ → Prop) (h : Reaches step C s t) (h0 : P s)
    (hstep : ∀ t a u, P t → C t a → step t a = some u → P u) : P t := by
  induction h with
  | refl => exact h0
  | tail _ hC hs ih => exact hstep _ _ _ ih hC hs

/-- A run is empty, or its first state has a step. -/
theorem eq_or_step (h : Reaches step C s t) : s = t ∨ ∃ a u, step s a = some u := by
  induction h with
  | refl => exact .inl rfl
  | tail _ _ hs ih =>
      rcases ih with rfl | ih
      · exact .inr ⟨_, _, hs⟩
      · exact .inr ih

/-- Two runs, one after the other. -/
theorem trans (h : Reaches step C s t) (h' : Reaches step C t u) : Reaches step C s u := by
  induction h' with
  | refl => exact h
  | tail _ hC hs ih => exact ih.tail hC hs

/-- A run under a stronger condition is a run under a weaker one. -/
theorem mono (h : Reaches step C s t) (hCD : ∀ t a, C t a → D t a) : Reaches step D s t := by
  induction h with
  | refl => exact .refl
  | tail _ hC hs ih => exact .tail ih (hCD _ _ hC) hs

end Reaches

/-- The state after the labels of a list, if each is enabled in turn. -/
def runAll (step : σ → α → Option σ) : σ → List α → Option σ
  | s, [] => some s
  | s, a :: as => (step s a).bind fun t => runAll step t as

/-- Two lists of labels, one after the other. -/
theorem runAll_append (step : σ → α → Option σ) (s : σ) (as bs : List α) :
    runAll step s (as ++ bs) = (runAll step s as).bind fun t => runAll step t bs := by
  induction as generalizing s with
  | nil => rfl
  | cons a as ih =>
      cases h : step s a with
      | none => simp [runAll, h]
      | some t => simpa [runAll, h] using ih t

/-- An enabled label in front of others. -/
theorem runAll_cons {step : σ → α → Option σ} {s t : σ} {a : α} (h : step s a = some t)
    (as : List α) : runAll step s (a :: as) = runAll step t as := by
  rw [runAll, h, Option.bind_some]

/-- From `s` to `t` by one label, taken any number of times: a party left alone. -/
def Repeats (step : σ → α → Option σ) (a : α) (s t : σ) : Prop :=
  ∃ m, runAll step s (List.replicate m a) = some t

namespace Repeats
variable {step : σ → α → Option σ} {a : α} {s t u : σ}

theorem refl : Repeats step a s s := ⟨0, rfl⟩

/-- One step first. -/
theorem head (h : step s a = some t) (hrest : Repeats step a t u) : Repeats step a s u := by
  obtain ⟨m, hm⟩ := hrest
  exact ⟨m + 1, (runAll_cons h _).trans hm⟩

theorem trans (h : Repeats step a s t) (h' : Repeats step a t u) : Repeats step a s u := by
  obtain ⟨m, hm⟩ := h
  obtain ⟨m', hm'⟩ := h'
  refine ⟨m + m', ?_⟩
  rw [← List.replicate_append_replicate, runAll_append, hm]
  exact hm'

end Repeats

/-- The steps of an executed list, each with the state before it. -/
def visited (step : σ → α → Option σ) : σ → List α → List (σ × α)
  | _, [] => []
  | s, a :: as => (s, a) :: ((step s a).map fun t => visited step t as).getD []

/-- The labels of the executed steps are those of the list. -/
theorem label_mem_of_mem_visited {step : σ → α → Option σ} {s : σ} {as : List α} {p : σ × α}
    (h : p ∈ visited step s as) : p.2 ∈ as := by
  induction as generalizing s with
  | nil => simp [visited] at h
  | cons a as ih =>
      rw [visited, List.mem_cons] at h
      rcases h with rfl | h
      · exact List.mem_cons_self
      · cases hs : step s a with
        | none => simp [hs] at h
        | some t =>
            rw [hs, Option.map_some, Option.getD_some] at h
            exact List.mem_cons_of_mem a (ih h)

/-- `Q` holds of each step of the executed list. -/
def Along (step : σ → α → Option σ) (Q : σ → α → σ → Prop) (s : σ) (as : List α) : Prop :=
  ∀ p ∈ visited step s as, ∀ t, step p.1 p.2 = some t → Q p.1 p.2 t

/-- `P` holds after each step of the executed list. -/
def Throughout (step : σ → α → Option σ) (P : σ → Prop) (s : σ) (as : List α) : Prop :=
  Along step (fun _ _ t => P t) s as

section Along
variable {step : σ → α → Option σ} {Q : σ → α → σ → Prop} {I P : σ → Prop} {ok : σ → α → Prop}
  {s t : σ} {a : α} {as : List α}

theorem along_cons (h : step s a = some t) :
    Along step Q s (a :: as) ↔ Q s a t ∧ Along step Q t as := by
  simp [Along, visited, h]

theorem throughout_cons (h : step s a = some t) :
    Throughout step P s (a :: as) ↔ P t ∧ Throughout step P t as := along_cons h

/-- Where `ok` tells of each step from a state of the invariant whether `Q` holds of it, and
such a step keeps the invariant, `ok` tells of each run whether `Q` holds along it. -/
theorem along_iff (hstep : ∀ s a t, I s → step s a = some t →
      (Q s a t ↔ ok s a) ∧ (ok s a → I t))
    (h0 : I s) (hrun : runAll step s as = some t) :
    Along step Q s as ↔ ∀ p ∈ visited step s as, ok p.1 p.2 := by
  induction as generalizing s with
  | nil => simp [Along, visited]
  | cons a as ih =>
      simp only [runAll, Option.bind_eq_some_iff] at hrun
      obtain ⟨u, hu, hrun⟩ := hrun
      obtain ⟨hhead, hnext⟩ := hstep s a u h0 hu
      have hvisited : visited step s (a :: as) = (s, a) :: visited step u as := by
        simp [visited, hu]
      rw [along_cons hu, hvisited, List.forall_mem_cons, hhead]
      exact and_congr_right fun hok => ih (hnext hok) hrun

/-- The same for what holds after each step, which is then its own invariant. -/
theorem throughout_iff (hstep : ∀ s a t, P s → step s a = some t → (P t ↔ ok s a))
    (h0 : P s) (hrun : runAll step s as = some t) :
    Throughout step P s as ↔ ∀ p ∈ visited step s as, ok p.1 p.2 :=
  along_iff (fun s a t hP hs => ⟨hstep s a t hP hs, (hstep s a t hP hs).2⟩) h0 hrun

/-- The same for a condition on the labels, where `I` tells of the labels to come that the next
one is enabled: whether the list runs to its end is then part of what `ok` tells. -/
theorem completes_along_iff {I : σ → List α → Prop} {ok : α → Prop}
    (hstep : ∀ s a as, I s (a :: as) → ∃ t, step s a = some t ∧
      (Q s a t ↔ ok a) ∧ (ok a → I t as))
    (h0 : I s as) :
    (∃ t, runAll step s as = some t) ∧ Along step Q s as ↔ ∀ a ∈ as, ok a := by
  induction as generalizing s with
  | nil => simp [Along, visited, runAll]
  | cons a as ih =>
      obtain ⟨u, hu, hhead, hnext⟩ := hstep s a as h0
      rw [runAll_cons hu, along_cons hu, List.forall_mem_cons, and_left_comm, hhead]
      exact and_congr_right fun hok => ih (hnext hok)

end Along

section Executed
variable {step : σ → α → Option σ} {C : σ → α → Prop} {s t : σ}

/-- An executed list of labels, each meeting the condition, is a run. -/
theorem Reaches.of_runAll {as : List α} (h : runAll step s as = some t)
    (hC : ∀ p ∈ visited step s as, C p.1 p.2) : Reaches step C s t := by
  have key : ∀ (as : List α) (r : σ), Reaches step C s r →
      runAll step r as = some t → (∀ p ∈ visited step r as, C p.1 p.2) →
      Reaches step C s t := by
    intro as
    induction as with
    | nil =>
        intro r hr h _
        simp only [runAll, Option.some.injEq] at h
        exact h ▸ hr
    | cons a as ih =>
        intro r hr h hC
        simp only [runAll, Option.bind_eq_some_iff] at h
        obtain ⟨q, hq, h⟩ := h
        have hhead : C r a := hC (r, a) (by simp [visited])
        refine ih q (hr.tail hhead hq) h ?_
        intro p hp
        exact hC p (by simp [visited, hq, hp])
  exact key as s .refl h hC

/-- The same for a condition on the labels alone. -/
theorem Reaches.of_labels {as : List α} (h : runAll step s as = some t)
    (hC : ∀ a ∈ as, ∀ r, C r a) : Reaches step C s t :=
  Reaches.of_runAll h fun p hp => hC p.2 (label_mem_of_mem_visited hp) p.1

/-- An executed list of labels is a run of the unconstrained machine. -/
theorem Reaches.always_of_runAll {as : List α} (h : runAll step s as = some t) :
    Reaches step Always s t :=
  Reaches.of_runAll h fun _ _ => trivial

end Executed

/-- Where each step that meets `C` lowers a measure, a list of such labels is no longer than the
measure of the first state. -/
theorem runAll_decreases {step : σ → α → Option σ} {I : σ → Prop} {C : α → Prop} {m : σ → ℕ}
    (hstep : ∀ s a t, I s → C a → step s a = some t → I t ∧ m t < m s) {s t : σ} (h0 : I s)
    {as : List α} (hC : ∀ a ∈ as, C a) (hrun : runAll step s as = some t) :
    I t ∧ as.length + m t ≤ m s := by
  induction as generalizing s with
  | nil =>
      obtain rfl := Option.some.inj hrun
      exact ⟨h0, by simp⟩
  | cons a as ih =>
      simp only [runAll, Option.bind_eq_some_iff] at hrun
      obtain ⟨u, hu, hrun⟩ := hrun
      rw [List.forall_mem_cons] at hC
      obtain ⟨hnext, hless⟩ := hstep s a u h0 hC.1 hu
      obtain ⟨hlast, hle⟩ := ih hnext hC.2 hrun
      refine ⟨hlast, ?_⟩
      rw [List.length_cons]
      omega

end Kit
