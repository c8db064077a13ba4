import BGIocpServer.ObjectSteps

/-!
# An object is freed once

The call that takes the last reference finds the total 0, reads the other two counters,
and runs `OnFree`; no reference is left with which another call could be made. All of
it follows from what is counted, as long as a word of 32 bits can count it.

## Main results

* `kept_of_reaches`: the counters, and that `OnFree` runs once, in every run with
  fewer than 2^31 references at a time.
* `not_kept_overflow`: with more, an error branch is reached.
* `addRef_alone`, `release_alone`: undisturbed, the steps are `addRef` and `release`.
-/

namespace BGIocpServer
open Kit

section Kept
variable {ι : Type} [DecidableEq ι] [Fintype ι] {s s' : RefState ι}

/-- What the counters promise. -/
structure RefState.Kept (s : RefState ι) : Prop where
  /-- The total is never below the sum of the other two. -/
  le : (s.pRef .timer).toInt + (s.pRef .general).toInt ≤ s.nRef.toInt
  /-- It equals the sum when no call is in progress. -/
  eq : (∀ t, s.pc t = .idle) → s.nRef.toInt = (s.pRef .timer).toInt + (s.pRef .general).toInt
  errors : s.errors = 0
  /-- The call that has found the total 0 is the only one, and nothing is held. -/
  last : ∀ t, (s.pc t).ending = true →
    s.freed = 0 ∧ (∀ k, s.held k = 0) ∧ ∀ u, u ≠ t → s.pc u = .idle
  once : s.freed ≤ 1
  /-- After `OnFree` nothing is held and no call is in progress. -/
  after : s.freed = 1 → (∀ k, s.held k = 0) ∧ ∀ u, s.pc u = .idle
  /-- With no call in progress and nothing held, `OnFree` has run. -/
  before : (∀ t, s.pc t = .idle) → (∀ k, s.held k = 0) → s.freed = 1

namespace RefState.Counted
variable {t : ι}

omit [DecidableEq ι] in
/-- Nothing is left: no reference is held, and no call has one. -/
theorem empty (hzero : s.total = 0) : (∀ k, s.held k = 0) ∧ ∀ u, (s.pc u).refs = 0 := by
  rw [total] at hzero
  refine ⟨fun k => ?_, weigh_eq_zero.mp (by omega)⟩
  cases k <;> omega

omit [DecidableEq ι] in
/-- The readings of the three counters. -/
theorem toInt (h : s.Counted) : s.nRef.toInt = s.total ∧
    (s.pRef .timer).toInt = s.held .timer ∧ (s.pRef .general).toInt = s.held .general := by
  have hsmall := h.small
  have htotal : s.total = s.held .timer + s.held .general + weigh RefPc.refs s.pc := rfl
  rw [h.nRef, h.pRef, h.pRef]
  exact ⟨toInt_ofNat_of_lt hsmall, toInt_ofNat_of_lt (by omega), toInt_ofNat_of_lt (by omega)⟩

theorem kept (h : s.Counted) : s.Kept := by
  obtain ⟨hn, hp, hg⟩ := h.toInt
  have htotal : s.total = s.held .timer + s.held .general + weigh RefPc.refs s.pc := rfl
  have hfreeing := h.freeing
  constructor
  · omega
  · intro hidle
    have hrefs : weigh RefPc.refs s.pc = 0 := weigh_eq_zero.mpr fun t => by rw [hidle t]; rfl
    omega
  · exact h.errors
  · intro t ht
    have hzero := h.total_of_ending ht
    obtain ⟨hheld, hrefs⟩ := empty hzero
    have hpos : 0 < tally RefPc.ending s.pc := tally_pos ht
    rw [if_pos hzero] at hfreeing
    refine ⟨by omega, hheld, fun u hu => RefPc.eq_idle (hrefs u) ?_ (h.failing u)⟩
    by_contra hending
    rw [Bool.not_eq_false] at hending
    have htwo := two_le_tally hu hending ht
    omega
  · split at hfreeing <;> omega
  · intro hfreed
    have hzero : s.total = 0 := by
      by_contra hne
      rw [if_neg hne] at hfreeing
      omega
    obtain ⟨hheld, hrefs⟩ := empty hzero
    rw [if_pos hzero] at hfreeing
    have hnone : tally RefPc.ending s.pc = 0 := by omega
    exact ⟨hheld, fun u => RefPc.eq_idle (hrefs u) (tally_eq_zero.mp hnone u) (h.failing u)⟩
  · intro hidle hheld
    have hrefs : weigh RefPc.refs s.pc = 0 := weigh_eq_zero.mpr fun t => by rw [hidle t]; rfl
    have hnone : tally RefPc.ending s.pc = 0 := tally_eq_zero.mpr fun t => by rw [hidle t]; rfl
    have hzero : s.total = 0 := by rw [htotal, hheld, hheld, hrefs]
    rw [if_pos hzero] at hfreeing
    omega

end RefState.Counted

/-! ## One call alone -/

omit [DecidableEq ι] [Fintype ι] in
/-- The counters as `BGIOObject` has them. -/
def RefState.object (s : RefState ι) : BGIOObject where
  nRef := s.nRef.toInt
  nTimerRef := (s.pRef .timer).toInt
  nGeneralRef := (s.pRef .general).toInt
  freed := 0 < s.freed

/-- No call is in progress. -/
def RefState.Idle (s : RefState ι) : Prop := ∀ t, s.pc t = .idle

namespace RefState.Counted
variable {t : ι} {k : RefKind}

/-- With no call in progress, the object counts what is held. -/
theorem object_counted (h : s.Counted) (hidle : s.Idle) :
    s.object.Counted (s.held .timer) (s.held .general) := by
  obtain ⟨-, ht, hg⟩ := h.toInt
  have hk := h.kept
  refine ⟨ht, hg, ?_, ?_⟩
  · simp only [object]
    rw [hk.eq hidle, ht, hg]
  · simp only [object, decide_eq_true_eq]
    constructor
    · intro hfreed
      have hone := hk.once
      have hheld := (hk.after (by omega)).1
      rw [hheld, hheld]
    · intro hzero
      rw [hk.before hidle fun k => by cases k <;> omega]
      exact Nat.one_pos

omit [Fintype ι] in
/-- The thread ends its call. -/
theorem idle_goto (hidle : ∀ u, u ≠ t → s.pc u = .idle) : (s.goto t .idle).Idle :=
  (Function.forall_update_iff s.pc fun _ l => l = .idle).mpr ⟨rfl, hidle⟩

/-- Undisturbed, the two steps of `AddRef` are `addRef`. -/
theorem addRef_alone (h : s.Counted) (hidle : s.Idle)
    (hpos : 0 < s.held .timer + s.held .general) (hfit : s.total + 1 < 2 ^ 31) :
    ∃ s', runAll refStep s [.addRef t k, .step t] = some s' ∧ s'.Idle ∧
      s'.object = s.object.addRef k := by
  have htotal : s.held .timer + s.held .general ≤ s.total := Nat.le_add_right _ _
  have h1 := h.addRef (t := t) (k := k) (hidle t) hpos hfit
  have hstep1 : refStep s (.addRef t k) = some (s.addRef t k) := by
    rw [refStep]
    exact if_pos ⟨hidle t, hpos⟩
  rw [h.addRef_eq (by omega) hfit] at h1 hstep1
  have hpc : ({ s with nRef := BitVec.ofNat 32 (s.total + 1) }.goto t (.addCounter k)).pc t =
      .addCounter k := Function.update_self ..
  have h2 := h1.addCounter hpc
  have hidle2 := idle_goto (t := t)
    (s := { (({ s with nRef := BitVec.ofNat 32 (s.total + 1) }.goto t (.addCounter k)).setRef k
      (s.pRef k + 1)) with held := Function.update s.held k (s.held k + 1) })
    fun u hu => (Function.update_of_ne hu _ _).trans (hidle u)
  refine ⟨_, ?_, hidle2, ?_⟩
  · have hstep2 : refStep _ (.step t) = some _ := congrArg (next _ t) hpc
    rw [runAll_cons hstep1, runAll_cons hstep2]
    rfl
  · have hobj := h2.object_counted hidle2
    have hbefore := h.object_counted hidle
    refine hobj.unique ?_
    cases k with
    | timer => simpa [goto, setRef] using hbefore.addRef_timer hpos
    | general => simpa [goto, setRef] using hbefore.addRef_general hpos

/-- The thread can end its call alone, with what is held unchanged. -/
def Ends (s : RefState ι) : Prop :=
  ∃ as s', runAll refStep s as = some s' ∧ s'.Counted ∧ s'.Idle ∧ s'.held = s.held

omit [Fintype ι] in
/-- Where the other threads are outside, they stay there. -/
theorem others_goto {c : RefPc} (hothers : ∀ u, u ≠ t → s.pc u = .idle) :
    ∀ u, u ≠ t → (s.goto t c).pc u = .idle :=
  fun u hu => (Function.update_of_ne hu _ _).trans (hothers u hu)

/-- One more step before the end. -/
theorem Ends.step (h : s.Counted) (hstep : refStep s (.step t) = some s') (hheld : s'.held = s.held)
    (hends : s'.Counted → Ends s') : Ends s := by
  obtain ⟨as, r, hrun, hr, hidle, hsame⟩ := hends (h.step (a := .step t) trivial hstep)
  refine ⟨.step t :: as, r, ?_, hr, hidle, hsame.trans hheld⟩
  rw [runAll_cons hstep]
  exact hrun

theorem ends_onFree (h : s.Counted) (ht : s.pc t = .onFree)
    (hothers : ∀ u, u ≠ t → s.pc u = .idle) : Ends s := by
  have hstep : refStep s (.step t) = some ({ s with freed := s.freed + 1 }.goto t .idle) := by
    rw [refStep, ht]
    rfl
  exact Ends.step h hstep rfl fun hr => ⟨[], _, rfl, hr, idle_goto hothers, rfl⟩

theorem ends_checkGeneral (h : s.Counted) (ht : s.pc t = .checkGeneral)
    (hothers : ∀ u, u ≠ t → s.pc u = .idle) : Ends s := by
  have hread := h.pRef_of_total (h.total_of_ending (t := t) (by rw [ht]; rfl)) .general
  have hstep : refStep s (.step t) = some (s.goto t .onFree) := by
    rw [refStep, ht, next, if_neg hread]
  exact Ends.step h hstep rfl fun hr =>
    ends_onFree hr (Function.update_self ..) (others_goto hothers)

theorem ends_checkTimer (h : s.Counted) (ht : s.pc t = .checkTimer)
    (hothers : ∀ u, u ≠ t → s.pc u = .idle) : Ends s := by
  have hread := h.pRef_of_total (h.total_of_ending (t := t) (by rw [ht]; rfl)) .timer
  have hstep : refStep s (.step t) = some (s.goto t .checkGeneral) := by
    rw [refStep, ht, next, if_neg hread]
  exact Ends.step h hstep rfl fun hr =>
    ends_checkGeneral hr (Function.update_self ..) (others_goto hothers)

theorem ends_dropTotal (h : s.Counted) (ht : s.pc t = .dropTotal)
    (hothers : ∀ u, u ≠ t → s.pc u = .idle) : Ends s := by
  have hpos := total_of_dropTotal ht
  have hstep : refStep s (.step t) = some (s.dropTotal t) := by
    rw [refStep, ht]
    rfl
  rw [h.dropTotal_eq hpos] at hstep
  by_cases hlast : s.total = 1
  · rw [if_pos hlast] at hstep
    exact Ends.step h hstep rfl fun hr =>
      ends_checkTimer hr (Function.update_self ..) (others_goto hothers)
  · rw [if_neg hlast] at hstep
    exact Ends.step h hstep rfl fun hr => ⟨[], _, rfl, hr, idle_goto hothers, rfl⟩

/-- Undisturbed, the steps of `Release` are `release`, `OnFree` included. -/
theorem release_alone (h : s.Counted) (hidle : s.Idle) (t : ι) (hpos : 0 < s.held k) :
    ∃ as s', runAll refStep s (.release t k :: as) = some s' ∧ s'.Idle ∧
      s'.object = s.object.release k := by
  have h1 := h.release (hidle t) hpos
  have hstep1 : refStep s (.release t k) = some (s.release t k) := by
    rw [refStep]
    exact if_pos ⟨hidle t, hpos⟩
  rw [h.release_eq hpos] at h1 hstep1
  obtain ⟨as, s', hrun, hs', hidle', hheld⟩ :=
    ends_dropTotal h1 (Function.update_self ..) (others_goto fun u _ => hidle u)
  refine ⟨as, s', ?_, hidle', ?_⟩
  · rw [runAll_cons hstep1]
    exact hrun
  · have hobj := hs'.object_counted hidle'
    have hbefore := h.object_counted hidle
    refine hobj.unique ?_
    rw [hheld]
    cases k with
    | timer =>
        obtain ⟨m, hm⟩ := Nat.exists_eq_succ_of_ne_zero hpos.ne'
        rw [hm] at hbefore
        simpa [goto, hm] using hbefore.release_timer
    | general =>
        obtain ⟨m, hm⟩ := Nat.exists_eq_succ_of_ne_zero hpos.ne'
        rw [hm] at hbefore
        simpa [goto, hm] using hbefore.release_general

end RefState.Counted

/-- **References are counted, and `OnFree` runs once**, in every run with fewer than 2^31
references at a time. -/
theorem kept_of_reaches (h : Reaches refStep RefsFit (.start ι) s) : s.Kept := by
  have hcounted : s.Counted :=
    h.invariant RefState.Counted RefState.counted_start fun _ _ _ ht hfit hstep =>
      ht.step hfit hstep
  exact hcounted.kept

end Kept

/-- A timer reference is taken while another thread drops the general one, which was the
last; then the object is freed. -/
theorem kept_of_reaches_freed : ∃ s : RefState Bool, s.freed = 1 ∧ s.Kept := by
  obtain ⟨s, hrun, hfreed⟩ : ∃ s, runAll refStep (.start Bool)
      [.addRef true .timer, .release false .general, .step true, .release true .timer,
        .step false, .step true, .step true, .step true, .step true] = some s ∧ s.freed = 1 :=
    ⟨_, rfl, rfl⟩
  exact ⟨s, hfreed, kept_of_reaches (Reaches.of_runAll hrun (by decide +kernel))⟩

/-! ## 2^31 references -/

/-- One thread has called `AddRef()` this often. -/
def RefState.afterAddRefs (n : ℕ) : RefState Unit where
  nRef := BitVec.ofNat 32 (n + 1)
  pRef := fun k => match k with
    | .timer => 0
    | .general => BitVec.ofNat 32 (n + 1)
  pc := fun _ => .idle
  held := fun k => match k with
    | .timer => 0
    | .general => n + 1
  freed := 0
  errors := 0

theorem RefState.reaches_afterAddRefs {n : ℕ} (hn : n ≤ 2 ^ 31) :
    Reaches refStep Always (.start Unit) (afterAddRefs n) := by
  induction n with
  | zero => exact .refl
  | succ n ih =>
      have hword : BitVec.ofNat 32 (n + 1) + 1 = BitVec.ofNat 32 (n + 1 + 1) := by
        rw [BitVec.ofNat_add (n + 1) 1]
        rfl
      have hne : ¬ BitVec.ofNat 32 (n + 1 + 1) = 1 := by
        intro heq
        have hnat : (n + 1 + 1) % 2 ^ 32 = 1 := congrArg BitVec.toNat heq
        omega
      have hadd : refStep (afterAddRefs n) (.addRef () .general) =
          some ((afterAddRefs n).addRef () .general) := by
        rw [refStep]
        exact if_pos ⟨rfl, Nat.succ_pos _⟩
      have hmid : (afterAddRefs n).addRef () .general =
          { afterAddRefs n with nRef := BitVec.ofNat 32 (n + 1 + 1) }.goto ()
            (.addCounter .general) := by
        simp only [addRef, afterAddRefs, hword, hne, if_false]
      refine .tail (.tail (ih (by omega)) trivial hadd) trivial (a := .step ()) ?_
      rw [hmid]
      simp only [refStep, goto, Function.update_self, next, setRef, afterAddRefs, hword,
        Option.some.injEq, RefState.mk.injEq, true_and, and_true]
      refine ⟨?_, ?_, ?_⟩
      · funext k
        cases k <;> rfl
      · funext t
        rfl
      · funext k
        cases k <;> rfl

/-- With 2^31 + 1 general references, `Release` takes the reference for an error. -/
theorem not_kept_overflow : ¬ ∀ s : RefState Unit,
    Reaches refStep Always (.start Unit) s → s.errors = 0 := by
  intro hall
  have hreach := RefState.reaches_afterAddRefs (le_refl (2 ^ 31))
  have hstep : refStep (.afterAddRefs (2 ^ 31)) (.release () .general) =
      some ((RefState.afterAddRefs (2 ^ 31)).release () .general) := by
    rw [refStep]
    exact if_pos ⟨rfl, Nat.succ_pos _⟩
  have hneg : (BitVec.ofNat 32 (2 ^ 31 + 1) - 1).toInt < 0 := by decide
  have herrors : ((RefState.afterAddRefs (2 ^ 31)).release () .general).errors = 1 := by
    simp only [RefState.release, RefState.setRef, RefState.afterAddRefs, Function.update_self, hneg,
      if_true]
    rfl
  rw [hall _ (.tail hreach trivial hstep)] at herrors
  cases herrors

end BGIocpServer
