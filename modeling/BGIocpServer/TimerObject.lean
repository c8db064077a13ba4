import BGIocpServer.ObjectSteps

/-!
# The references of one kind

The steps of `AddRef` and `Release` on the references of one kind, and on the counters of
`s_TimerInstance`, where `OnTimerCallback` raises `m_nTimerRef` and leaves `m_nRef`: one of the
general references of the guard is not counted there.

## Main definitions

* `RefState.owned`: the references of a kind that are held or being taken.
* `RefState.guardStart`: the guard after `Init`.
* `RefState.CountedFor`: what is counted, for the guard and for any other object.

## Main results

* `RefState.owned_addRef`, `RefState.owned_release`, `RefState.owned_next`: each step.
* `RefState.CountedFor.addRef`, `RefState.CountedFor.release`, `RefState.CountedFor.next`: every
  step keeps what is counted.
-/

namespace BGIocpServer
open Kit

/-- The call has begun to take a reference of this kind, and has not counted it. -/
def RefPc.taking (k : RefKind) : RefPc → Bool
  | .addReset l | .addCounter l => l = k
  | .idle | .resetCounter _ | .resetTotal | .dropTotal | .checkTimer | .checkGeneral | .onFree =>
      false

namespace RefState
variable {ι : Type} [DecidableEq ι]

/-! ## Where the threads are -/

section Moves
variable {s s' : RefState ι} {t : ι} {k l : RefKind}

/-- `AddRef` is at the counter of its kind, or about to correct `m_nRef`. -/
theorem addRef_pc (s : RefState ι) (t : ι) (l : RefKind) : ∃ c : RefPc,
    (∀ k, c.taking k = decide (l = k)) ∧
    (s.addRef t l).pc = Function.update s.pc t c ∧ (s.addRef t l).held = s.held := by
  simp only [addRef]
  split
  · exact ⟨.addReset l, fun _ => rfl, rfl, rfl⟩
  · exact ⟨.addCounter l, fun _ => rfl, rfl, rfl⟩

/-- `Release` has given up its reference. -/
theorem release_pc (s : RefState ι) (t : ι) (l : RefKind) : ∃ c : RefPc,
    (∀ k, c.taking k = false) ∧
    (s.release t l).pc = Function.update s.pc t c ∧
      (s.release t l).held = Function.update s.held l (s.held l - 1) := by
  simp only [release]
  split
  · exact ⟨.resetCounter l, fun _ => rfl, rfl, rfl⟩
  · exact ⟨.dropTotal, fun _ => rfl, rfl, rfl⟩

/-- The next step of a call counts the reference that it takes, or changes nothing of this. -/
theorem next_pc (h : s.next t (s.pc t) = some s') : s.pc t ≠ .idle ∧ ∃ c : RefPc,
    s'.pc = Function.update s.pc t c ∧
      ((∃ l, s.pc t = .addCounter l ∧ c = .idle ∧
          s'.held = Function.update s.held l (s.held l + 1)) ∨
        (∀ k, c.taking k = (s.pc t).taking k) ∧ s'.held = s.held) := by
  cases hpc : s.pc t with
  | idle => simp [hpc, next] at h
  | addReset l =>
      simp only [hpc, next, Option.some.injEq] at h
      subst h
      exact ⟨by simp, .addCounter l, rfl, .inr ⟨fun _ => rfl, rfl⟩⟩
  | addCounter l =>
      simp only [hpc, next, Option.some.injEq] at h
      subst h
      exact ⟨by simp, .idle, rfl, .inl ⟨l, rfl, rfl, rfl⟩⟩
  | resetCounter l =>
      simp only [hpc, next, Option.some.injEq] at h
      subst h
      exact ⟨by simp, .resetTotal, rfl, .inr ⟨fun _ => rfl, rfl⟩⟩
  | resetTotal =>
      simp only [hpc, next, Option.some.injEq] at h
      subst h
      exact ⟨by simp, .idle, rfl, .inr ⟨fun _ => rfl, rfl⟩⟩
  | dropTotal =>
      simp only [hpc, next, dropTotal, Option.some.injEq] at h
      refine ⟨by simp, ?_⟩
      split at h
      · exact ⟨.idle, h ▸ rfl, .inr ⟨fun _ => rfl, h ▸ rfl⟩⟩
      · split at h
        · exact ⟨.idle, h ▸ rfl, .inr ⟨fun _ => rfl, h ▸ rfl⟩⟩
        · exact ⟨.checkTimer, h ▸ rfl, .inr ⟨fun _ => rfl, h ▸ rfl⟩⟩
  | checkTimer =>
      simp only [hpc, next] at h
      refine ⟨by simp, ?_⟩
      split at h <;> cases h
      · exact ⟨.resetTotal, rfl, .inr ⟨fun _ => rfl, rfl⟩⟩
      · exact ⟨.checkGeneral, rfl, .inr ⟨fun _ => rfl, rfl⟩⟩
  | checkGeneral =>
      simp only [hpc, next] at h
      refine ⟨by simp, ?_⟩
      split at h <;> cases h
      · exact ⟨.resetTotal, rfl, .inr ⟨fun _ => rfl, rfl⟩⟩
      · exact ⟨.onFree, rfl, .inr ⟨fun _ => rfl, rfl⟩⟩
  | onFree =>
      simp only [hpc, next, Option.some.injEq] at h
      subst h
      exact ⟨by simp, .idle, rfl, .inr ⟨fun _ => rfl, rfl⟩⟩

/-- The next step of a call gives up no reference. -/
theorem le_held_next (h : s.next t (s.pc t) = some s') (k : RefKind) : s.held k ≤ s'.held k := by
  obtain ⟨-, c, -, hc⟩ := next_pc h
  rcases hc with ⟨l, -, -, hheld⟩ | ⟨-, hheld⟩
  · rw [hheld]
    by_cases hkl : k = l
    · subst hkl
      rw [Function.update_self]
      exact Nat.le_succ _
    · rw [Function.update_of_ne hkl]
  · rw [hheld]

/-- A step of a call takes up no reference. -/
theorem taking_next (h : s.next t (s.pc t) = some s') {u : ι} (hu : (s'.pc u).taking k = true) :
    (s.pc u).taking k = true := by
  obtain ⟨-, c, hpc, hc⟩ := next_pc h
  rw [hpc] at hu
  by_cases hut : u = t
  · subst hut
    rw [Function.update_self] at hu
    rcases hc with ⟨l, -, rfl, -⟩ | ⟨htaking, -⟩
    · simp [RefPc.taking] at hu
    · rwa [← htaking]
  · rwa [Function.update_of_ne hut] at hu

end Moves

/-! ## The references of a kind -/

section Owned
variable [Fintype ι] {s s' : RefState ι} {t : ι} {k l : RefKind}

omit [DecidableEq ι] in
/-- The references of a kind that are held, or that a call is taking. -/
def owned (s : RefState ι) (k : RefKind) : ℕ := s.held k + tally (RefPc.taking k) s.pc

theorem owned_addRef (ht : s.pc t = .idle) :
    (s.addRef t l).owned k = s.owned k + if l = k then 1 else 0 := by
  obtain ⟨c, hc, hpc, hheld⟩ := s.addRef_pc t l
  have hupd := tally_update (RefPc.taking k) s.pc t c
  rw [ht, hc, toNat_decide] at hupd
  simp only [RefPc.taking, Bool.toNat_false] at hupd
  rw [owned, hpc, hheld, owned]
  omega

theorem owned_release (ht : s.pc t = .idle) (hpos : 0 < s.held l) :
    (s.release t l).owned k + (if l = k then 1 else 0) = s.owned k := by
  obtain ⟨c, hc, hpc, hheld⟩ := s.release_pc t l
  have hupd := tally_update (RefPc.taking k) s.pc t c
  rw [ht, hc] at hupd
  simp only [RefPc.taking, Bool.toNat_false] at hupd
  rw [owned, hpc, hheld, owned]
  by_cases hlk : l = k
  · subst hlk
    rw [Function.update_self, if_pos rfl]
    omega
  · rw [Function.update_of_ne (Ne.symm hlk), if_neg hlk]
    omega

theorem owned_next (h : s.next t (s.pc t) = some s') : s'.owned k = s.owned k := by
  obtain ⟨-, c, hpc, hc⟩ := next_pc h
  have hupd := tally_update (RefPc.taking k) s.pc t c
  rw [owned, hpc, owned]
  rcases hc with ⟨l, hl, rfl, hheld⟩ | ⟨htaking, hheld⟩
  · rw [hl] at hupd
    simp only [RefPc.taking, Bool.toNat_false, toNat_decide] at hupd
    rw [hheld]
    by_cases hlk : l = k
    · subst hlk
      rw [if_pos rfl] at hupd
      rw [Function.update_self]
      omega
    · rw [if_neg hlk] at hupd
      rw [Function.update_of_ne (Ne.symm hlk)]
      omega
  · rw [htaking] at hupd
    rw [hheld]
    omega

end Owned

/-! ## The guard -/

/-- The guard after `Init`: `OnTimerCallback` has counted it in `m_nTimerRef` only, and
`AddRef` in `m_nRef` and `m_nGeneralRef`. -/
def guardStart (ι : Type) : RefState ι where
  nRef := 2
  pRef := fun k => match k with
    | .timer => 1
    | .general => 2
  pc := fun _ => .idle
  held := fun k => match k with
    | .timer => 1
    | .general => 2
  freed := 0
  errors := 0

/-- The counters without the general reference that is not in `m_nRef`. -/
def lower (s : RefState ι) : RefState ι :=
  { s with
    pRef := Function.update s.pRef .general (s.pRef .general - 1)
    held := Function.update s.held .general (s.held .general - 1) }

section Lower
variable (s : RefState ι) (t : ι)

omit [DecidableEq ι] in
theorem lower_held_timer : s.lower.held .timer = s.held .timer := by
  simp only [lower, Function.update_of_ne (show RefKind.timer ≠ .general by decide)]

omit [DecidableEq ι] in
theorem lower_held_general : s.lower.held .general = s.held .general - 1 := by
  simp only [lower, Function.update_self]

/-- One counter is written, the other read and written. -/
theorem update_timer {α : Type} (f : RefKind → α) (g : α → α) (x : α) :
    Function.update (Function.update f .timer x) .general
        (g (Function.update f .timer x .general)) =
      Function.update (Function.update f .general (g (f .general))) .timer x := by
  have hne : RefKind.general ≠ .timer := by decide
  rw [Function.update_of_ne hne]
  exact Function.update_comm hne.symm _ _ _

theorem lower_addRef (k : RefKind) : (s.addRef t k).lower = s.lower.addRef t k := by
  by_cases hone : s.nRef + 1 = 1
  · simp only [addRef, lower, hone, if_true]
    rfl
  · simp only [addRef, lower, hone, if_false]
    rfl

theorem lower_release : (s.release t .timer).lower = s.lower.release t .timer := by
  have hne : RefKind.timer ≠ .general := by decide
  have hpRef := update_timer s.pRef (· - 1) (s.pRef .timer - 1)
  have hheld := update_timer s.held (· - 1) (s.held .timer - 1)
  by_cases hneg : (s.pRef .timer - 1).toInt < 0
  · simp only [release, setRef, lower, Function.update_self, Function.update_of_ne hne, hneg,
      if_true, error, goto, hpRef, hheld]
  · simp only [release, setRef, lower, Function.update_self, Function.update_of_ne hne, hneg,
      if_false, goto, hpRef, hheld]

theorem lower_dropTotal : (s.dropTotal t).lower = s.lower.dropTotal t := by
  by_cases hpos : 0 < (s.nRef - 1).toInt
  · simp only [dropTotal, lower, hpos, if_true]
    rfl
  · by_cases hneg : (s.nRef - 1).toInt < 0
    · simp only [dropTotal, lower, hpos, hneg, if_true, if_false]
      rfl
    · simp only [dropTotal, lower, hpos, hneg, if_false]
      rfl

/-- `InterlockedIncrement(pRef)`. -/
def count (k : RefKind) : RefState ι :=
  { s.setRef k (s.pRef k + 1) with
    held := Function.update s.held k (s.held k + 1) }.goto t .idle

theorem lower_count (k : RefKind) (h : 0 < s.held .general) :
    (s.count t k).lower = s.lower.count t k := by
  cases k with
  | timer =>
      have hpRef := update_timer s.pRef (· - 1) (s.pRef .timer + 1)
      have hheld := update_timer s.held (· - 1) (s.held .timer + 1)
      have hne : RefKind.timer ≠ .general := by decide
      simp only [count, setRef, lower, goto, Function.update_of_ne hne, hpRef, hheld]
  | general =>
      have hword : s.pRef .general + 1 - 1 = s.pRef .general - 1 + 1 := by
        rw [BitVec.add_sub_cancel, BitVec.sub_add_cancel]
      have hnat : s.held .general + 1 - 1 = s.held .general - 1 + 1 := by omega
      simp only [count, setRef, lower, goto, Function.update_self, Function.update_idem, hword,
        hnat]

end Lower

section CountedFor
variable [Fintype ι] {s s' : RefState ι} {t : ι} {k : RefKind} {b : Bool}

omit [DecidableEq ι] in
/-- Every counter is what it counts, but for the guard. -/
def CountedFor (guard : Bool) (s : RefState ι) : Prop :=
  if guard then s.lower.Counted ∧ 2 ≤ s.held .general else s.Counted

omit [DecidableEq ι] in
theorem lower_total (h : 2 ≤ s.held .general) : s.lower.total + 1 = s.total := by
  simp only [total, lower_held_timer, lower_held_general]
  change s.held .timer + (s.held .general - 1) + weigh RefPc.refs s.pc + 1 = _
  omega

namespace CountedFor

theorem addRef (h : s.CountedFor b) (ht : s.pc t = .idle)
    (hpos : 0 < s.held .timer + s.held .general) (hfit : s.total + 1 < 2 ^ 31) :
    (s.addRef t .timer).CountedFor b := by
  cases b with
  | false => exact Counted.addRef h ht hpos hfit
  | true =>
      obtain ⟨hcounted, htwo⟩ := h
      have htotal := lower_total htwo
      obtain ⟨-, -, -, hheld⟩ := s.addRef_pc t .timer
      refine ⟨?_, hheld ▸ htwo⟩
      rw [lower_addRef]
      refine hcounted.addRef ht ?_ (by omega)
      rw [lower_held_timer, lower_held_general]
      omega

theorem release (h : s.CountedFor b) (ht : s.pc t = .idle) (hpos : 0 < s.held .timer) :
    (s.release t .timer).CountedFor b := by
  cases b with
  | false => exact Counted.release h ht hpos
  | true =>
      obtain ⟨hcounted, htwo⟩ := h
      obtain ⟨-, -, -, hheld⟩ := s.release_pc t .timer
      refine ⟨?_, ?_⟩
      · rw [lower_release]
        exact hcounted.release ht (s.lower_held_timer ▸ hpos)
      · rw [hheld, Function.update_of_ne (by decide)]
        exact htwo

/-- The next step of a call. -/
theorem next (h : s.CountedFor b) (hstep : s.next t (s.pc t) = some s') : s'.CountedFor b := by
  cases b with
  | false => exact Counted.step (a := .step t) h trivial hstep
  | true =>
      obtain ⟨hcounted, htwo⟩ := h
      have hheld := le_held_next hstep
      have hpos : 0 < s.lower.total := by
        rw [total, lower_held_general]
        omega
      have hending := tally_eq_zero.mp (hcounted.total_pos hpos).1 t
      have hfailing := hcounted.failing t
      change (s.pc t).ending = false at hending
      change (s.pc t).failing = false at hfailing
      cases hpc : s.pc t with
      | idle => simp [hpc, RefState.next] at hstep
      | addReset l => simp [hpc, RefPc.failing] at hfailing
      | resetCounter l => simp [hpc, RefPc.failing] at hfailing
      | resetTotal => simp [hpc, RefPc.failing] at hfailing
      | checkTimer => simp [hpc, RefPc.ending] at hending
      | checkGeneral => simp [hpc, RefPc.ending] at hending
      | onFree => simp [hpc, RefPc.ending] at hending
      | addCounter l =>
          simp only [hpc, RefState.next, Option.some.injEq] at hstep
          have heq : s' = s.count t l := hstep.symm
          subst heq
          refine ⟨?_, htwo.trans (hheld .general)⟩
          rw [lower_count s t l (by omega)]
          exact hcounted.addCounter hpc
      | dropTotal =>
          simp only [hpc, RefState.next, Option.some.injEq] at hstep
          subst hstep
          refine ⟨?_, htwo.trans (hheld .general)⟩
          rw [lower_dropTotal]
          exact hcounted.dropTotal hpc

omit [DecidableEq ι] in
/-- `m_nTimerRef` counts the timer references that are held. -/
theorem pRef_timer (h : s.CountedFor b) : s.pRef .timer = BitVec.ofNat 32 (s.held .timer) := by
  cases b with
  | false => exact Counted.pRef h .timer
  | true =>
      have hpRef := h.1.pRef .timer
      rw [lower_held_timer] at hpRef
      have hne : RefKind.timer ≠ .general := by decide
      simpa only [lower, Function.update_of_ne hne] using hpRef

omit [DecidableEq ι] in
/-- The guard after `Init`. -/
theorem guardStart : (RefState.guardStart ι).CountedFor true := by
  have hsame : (RefState.guardStart ι).lower.total = 2 := by
    have hnone : weigh RefPc.refs (RefState.guardStart ι).pc = 0 := weigh_eq_zero.mpr fun _ => rfl
    rw [total, lower_held_timer, lower_held_general]
    exact congrArg (1 + (2 - 1) + ·) hnone
  have hending : tally RefPc.ending (RefState.guardStart ι).lower.pc = 0 :=
    tally_eq_zero.mpr fun _ => rfl
  refine ⟨⟨?_, ?_, ?_, ?_, rfl, fun _ => rfl⟩, le_rfl⟩
  · rw [hsame]
    rfl
  · intro k
    cases k with
    | timer => rfl
    | general =>
        rw [lower_held_general]
        exact (by decide : (2 : BitVec 32) - 1 = BitVec.ofNat 32 (2 - 1))
  · rw [hsame]
    decide
  · rw [hsame, hending]
    rfl

end CountedFor
end CountedFor

end RefState
end BGIocpServer
