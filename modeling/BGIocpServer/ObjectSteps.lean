import BGIocpServer.Kit.Reaches
import BGIocpServer.Kit.Tally
import BGIocpServer.Object

/-!
# AddRef and Release of many threads

`AddRef` and `Release` taken apart into their interlocked operations and reads, for any
number of threads on one object. The counters are words of 32 bits. A reference is held
from the end of its `AddRef` to the first step of its `Release`. `AddRef` is only called
while a reference is held, and a `Release` gives up a reference that is.

## Main definitions

* `RefPc`, `RefState`, `RefAct`, `refStep`: the steps.
* `RefState.total`: the references that are held or in the hands of a call.

## Main results

* `RefState.Counted`: what is counted, `RefState.Counted.step`: every step keeps it.
-/

namespace BGIocpServer
open Kit

/-- Where a thread is in `AddRef(pRef)` or `Release(pRef)`. -/
inductive RefPc
  /-- Outside. -/
  | idle
  /-- In `AddRef`, at `m_nRef = 100`. -/
  | addReset (k : RefKind)
  /-- In `AddRef`, at `InterlockedIncrement(pRef)`. -/
  | addCounter (k : RefKind)
  /-- In `Release`, at `*pRef = 100`. -/
  | resetCounter (k : RefKind)
  /-- In `Release`, at `m_nRef = 100`. -/
  | resetTotal
  /-- In `Release`, at `InterlockedDecrement(&m_nRef)`. -/
  | dropTotal
  /-- At the read of `m_nTimerRef`, with `m_nRef` found 0. -/
  | checkTimer
  /-- At the read of `m_nGeneralRef`. -/
  | checkGeneral
  /-- At `OnFree()`. -/
  | onFree
  deriving DecidableEq, Repr

/-- The counters and the threads. The last three fields are history. -/
structure RefState (ι : Type) where
  nRef : BitVec 32
  /-- `m_nTimerRef` and `m_nGeneralRef`. -/
  pRef : RefKind → BitVec 32
  pc : ι → RefPc
  /-- The references that are held. -/
  held : RefKind → ℕ
  /-- How often `OnFree` has run. -/
  freed : ℕ
  /-- How often an error was found. -/
  errors : ℕ

/-- The steps of a thread. -/
inductive RefAct (ι : Type)
  /-- `AddRef(pRef)` is called, up to its `InterlockedIncrement(&m_nRef)`. -/
  | addRef (t : ι) (k : RefKind)
  /-- `Release(pRef)` is called, up to its `InterlockedDecrement(pRef)`. -/
  | release (t : ι) (k : RefKind)
  /-- The next step of the call. -/
  | step (t : ι)

namespace RefState
variable {ι : Type} [DecidableEq ι]

/-- The thread goes on at `k`. -/
def goto (s : RefState ι) (t : ι) (k : RefPc) : RefState ι :=
  { s with pc := Function.update s.pc t k }

/-- An error is logged. -/
def error (s : RefState ι) : RefState ι := { s with errors := s.errors + 1 }

/-- Assignment to `*pRef`. -/
def setRef (s : RefState ι) (k : RefKind) (n : BitVec 32) : RefState ι :=
  { s with pRef := Function.update s.pRef k n }

/-- `InterlockedIncrement(&m_nRef)` of `AddRef`. -/
def addRef (s : RefState ι) (t : ι) (k : RefKind) : RefState ι :=
  let s := { s with nRef := s.nRef + 1 }
  if s.nRef = 1 then s.error.goto t (.addReset k) else s.goto t (.addCounter k)

/-- `InterlockedDecrement(pRef)` of `Release`. -/
def release (s : RefState ι) (t : ι) (k : RefKind) : RefState ι :=
  let s := { s.setRef k (s.pRef k - 1) with held := Function.update s.held k (s.held k - 1) }
  if (s.pRef k).toInt < 0 then s.error.goto t (.resetCounter k) else s.goto t .dropTotal

/-- `InterlockedDecrement(&m_nRef)` of `Release`. -/
def dropTotal (s : RefState ι) (t : ι) : RefState ι :=
  let s := { s with nRef := s.nRef - 1 }
  if 0 < s.nRef.toInt then s.goto t .idle
  else if s.nRef.toInt < 0 then s.error.goto t .idle
  else s.goto t .checkTimer

/-- The next step of a call. -/
def next (s : RefState ι) (t : ι) : RefPc → Option (RefState ι)
  | .idle => none
  | .addReset k => some ({ s with nRef := 100 }.goto t (.addCounter k))
  | .addCounter k => some ({ s.setRef k (s.pRef k + 1) with
      held := Function.update s.held k (s.held k + 1) }.goto t .idle)
  | .resetCounter k => some ((s.setRef k 100).goto t .resetTotal)
  | .resetTotal => some ({ s with nRef := 100 }.goto t .idle)
  | .dropTotal => some (s.dropTotal t)
  | .checkTimer =>
      if 0 < (s.pRef .timer).toInt then some (s.error.goto t .resetTotal)
      else some (s.goto t .checkGeneral)
  | .checkGeneral =>
      if 0 < (s.pRef .general).toInt then some (s.error.goto t .resetTotal)
      else some (s.goto t .onFree)
  | .onFree => some ({ s with freed := s.freed + 1 }.goto t .idle)

/-- The object as its constructor leaves it, with its one general reference. -/
def start (ι : Type) : RefState ι where
  nRef := 1
  pRef := fun k => match k with
    | .timer => 0
    | .general => 1
  pc := fun _ => .idle
  held := fun k => match k with
    | .timer => 0
    | .general => 1
  freed := 0
  errors := 0

end RefState

section Steps
variable {ι : Type} [DecidableEq ι]

/-- One step of the object. -/
def refStep (s : RefState ι) : RefAct ι → Option (RefState ι)
  | .addRef t k =>
      if s.pc t = .idle ∧ 0 < s.held .timer + s.held .general then some (s.addRef t k) else none
  | .release t k => if s.pc t = .idle ∧ 0 < s.held k then some (s.release t k) else none
  | .step t => s.next t (s.pc t)

end Steps

/-! ## What is counted -/

namespace RefPc

/-- The reference that a call has in `m_nRef` and not in the other counter. -/
def refs : RefPc → ℕ
  | .addReset _ | .addCounter _ | .dropTotal => 1
  | .idle | .resetCounter _ | .resetTotal | .checkTimer | .checkGeneral | .onFree => 0

/-- The call has found `m_nRef` 0. -/
def ending : RefPc → Bool
  | .checkTimer | .checkGeneral | .onFree => true
  | .idle | .addReset _ | .addCounter _ | .resetCounter _ | .resetTotal | .dropTotal => false

/-- The call is in an error branch. -/
def failing : RefPc → Bool
  | .addReset _ | .resetCounter _ | .resetTotal => true
  | .idle | .addCounter _ | .dropTotal | .checkTimer | .checkGeneral | .onFree => false

/-- Anywhere else a call is outside. -/
theorem eq_idle {k : RefPc} (h0 : k.refs = 0) (h1 : k.ending = false) (h2 : k.failing = false) :
    k = .idle := by
  cases k <;> first | rfl | simp [refs, ending, failing] at h0 h1 h2

end RefPc

/-- A word that counts up to 2^31 references reads as their number. -/
theorem toInt_ofNat_of_lt {m : ℕ} (h : m < 2 ^ 31) : (BitVec.ofNat 32 m).toInt = m := by
  have hmod : (BitVec.ofNat 32 m).toNat = m := Nat.mod_eq_of_lt (by omega)
  rw [BitVec.toInt_eq_toNat_of_lt (by omega), hmod]

theorem ofNat_sub_one {m : ℕ} (h : 0 < m) :
    BitVec.ofNat 32 m - 1 = BitVec.ofNat 32 (m - 1) := by
  obtain ⟨k, rfl⟩ := Nat.exists_eq_succ_of_ne_zero h.ne'
  rw [Nat.succ_sub_one, Nat.succ_eq_add_one, BitVec.ofNat_add]
  exact BitVec.add_sub_cancel _ _

section Counted
variable {ι : Type} [DecidableEq ι] [Fintype ι] {s s' : RefState ι}

omit [DecidableEq ι] in
/-- The references that are held, being taken or being dropped. -/
def RefState.total (s : RefState ι) : ℕ :=
  s.held .timer + s.held .general + weigh RefPc.refs s.pc

/-- There are fewer than 2^31 references at a time. -/
def RefsFit (s : RefState ι) : RefAct ι → Prop
  | .addRef _ _ => s.total + 1 < 2 ^ 31
  | .release _ _ | .step _ => True

omit [DecidableEq ι] in
instance : ∀ (s : RefState ι) (a : RefAct ι), Decidable (RefsFit s a)
  | s, .addRef _ _ => inferInstanceAs (Decidable (s.total + 1 < 2 ^ 31))
  | _, .release _ _ | _, .step _ => isTrue trivial

/-- Every counter is what it counts, `OnFree` is on its way when nothing is left, and no
error was found. -/
structure RefState.Counted (s : RefState ι) : Prop where
  nRef : s.nRef = BitVec.ofNat 32 s.total
  pRef : ∀ k, s.pRef k = BitVec.ofNat 32 (s.held k)
  small : s.total < 2 ^ 31
  freeing : tally RefPc.ending s.pc + s.freed = if s.total = 0 then 1 else 0
  errors : s.errors = 0
  failing : ∀ t, (s.pc t).failing = false

namespace RefState
namespace Counted
variable {t : ι} {k : RefKind}

omit [DecidableEq ι] in
theorem total_pos (h : s.Counted) (hpos : 0 < s.total) :
    tally RefPc.ending s.pc = 0 ∧ s.freed = 0 := by
  have hfreeing := h.freeing
  rw [if_neg hpos.ne'] at hfreeing
  omega

omit [Fintype ι] in
/-- A thread goes on to a point outside the error branches. -/
theorem failing_goto (h : ∀ u, (s.pc u).failing = false) {c : RefPc} (hc : c.failing = false) :
    ∀ u, ((s.goto t c).pc u).failing = false :=
  (Function.forall_update_iff s.pc fun _ l => l.failing = false).mpr ⟨hc, fun u _ => h u⟩

/-- `AddRef` of an object that is in use is no error. -/
theorem addRef_eq (h : s.Counted) (hpos : 0 < s.total) (hfit : s.total + 1 < 2 ^ 31) :
    s.addRef t k = { s with nRef := BitVec.ofNat 32 (s.total + 1) }.goto t (.addCounter k) := by
  have hnRef : s.nRef + 1 = BitVec.ofNat 32 (s.total + 1) := by
    rw [h.nRef, BitVec.ofNat_add]
    rfl
  have hne : ¬ BitVec.ofNat 32 (s.total + 1) = 1 := by
    intro heq
    have hnat : (s.total + 1) % 2 ^ 32 = 1 := congrArg BitVec.toNat heq
    omega
  simp only [RefState.addRef, hnRef, hne, if_false]

/-- `AddRef` begins. -/
theorem addRef (h : s.Counted) (ht : s.pc t = .idle)
    (hpos : 0 < s.held .timer + s.held .general) (hfit : s.total + 1 < 2 ^ 31) :
    (s.addRef t k).Counted := by
  have hw := weigh_update RefPc.refs s.pc t (.addCounter k)
  have he := tally_update RefPc.ending s.pc t (.addCounter k)
  rw [ht] at hw he
  simp only [RefPc.refs, RefPc.ending, Bool.toNat_false] at hw he
  have hge : 0 < s.total := by
    rw [total]
    omega
  obtain ⟨hending, hfreed⟩ := h.total_pos hge
  rw [h.addRef_eq hge hfit]
  have htotal : ({ s with nRef := BitVec.ofNat 32 (s.total + 1) }.goto t (.addCounter k)).total =
      s.total + 1 := by
    simp only [total, goto]
    omega
  refine ⟨?_, h.pRef, by omega, ?_, h.errors, failing_goto h.failing rfl⟩
  · rw [htotal]
    rfl
  · rw [htotal, if_neg (Nat.succ_ne_zero _)]
    simp only [goto]
    omega

omit [Fintype ι] [DecidableEq ι] in
/-- One more reference of a kind is held. -/
theorem held_add (held : RefKind → ℕ) (k : RefKind) :
    Function.update held k (held k + 1) .timer + Function.update held k (held k + 1) .general =
      held .timer + held .general + 1 := by
  cases k with
  | timer =>
      rw [Function.update_self, Function.update_of_ne (by decide)]
      omega
  | general =>
      rw [Function.update_self, Function.update_of_ne (by decide)]
      omega

/-- `AddRef` ends. -/
theorem addCounter (h : s.Counted) (ht : s.pc t = .addCounter k) :
    ({ s.setRef k (s.pRef k + 1) with
      held := Function.update s.held k (s.held k + 1) }.goto t .idle).Counted := by
  have hw := weigh_update RefPc.refs s.pc t .idle
  have he := tally_update RefPc.ending s.pc t .idle
  rw [ht] at hw he
  simp only [RefPc.refs, RefPc.ending, Bool.toNat_false] at hw he
  have hheld := held_add s.held k
  have htotal : ({ s.setRef k (s.pRef k + 1) with
      held := Function.update s.held k (s.held k + 1) }.goto t .idle).total = s.total := by
    simp only [total, goto, setRef]
    omega
  refine ⟨?_, ?_, by rw [htotal]; exact h.small, ?_, h.errors, failing_goto h.failing rfl⟩
  · rw [htotal]
    exact h.nRef
  · intro l
    simp only [goto, setRef]
    by_cases hl : l = k
    · rw [hl, Function.update_self, Function.update_self, h.pRef k, BitVec.ofNat_add]
      rfl
    · rw [Function.update_of_ne hl, Function.update_of_ne hl]
      exact h.pRef l
  · rw [htotal, ← h.freeing]
    simp only [goto, setRef]
    omega

/-- `Release` of a reference that is held is no error. -/
theorem release_eq (h : s.Counted) (hpos : 0 < s.held k) :
    s.release t k = { s with
      pRef := Function.update s.pRef k (BitVec.ofNat 32 (s.held k - 1))
      held := Function.update s.held k (s.held k - 1) }.goto t .dropTotal := by
  have hcount : s.pRef k - 1 = BitVec.ofNat 32 (s.held k - 1) := by
    rw [h.pRef k, ofNat_sub_one hpos]
  have hle : s.held k ≤ s.total := by
    rw [total]
    cases k <;> omega
  have hneg : ¬ (BitVec.ofNat 32 (s.held k - 1)).toInt < 0 := by
    rw [toInt_ofNat_of_lt (lt_of_le_of_lt (Nat.sub_le _ _) (hle.trans_lt h.small))]
    omega
  simp only [RefState.release, setRef, Function.update_self, hcount, hneg, if_false]

/-- `Release` begins. -/
theorem release (h : s.Counted) (ht : s.pc t = .idle) (hpos : 0 < s.held k) :
    (s.release t k).Counted := by
  have hw := weigh_update RefPc.refs s.pc t .dropTotal
  have he := tally_update RefPc.ending s.pc t .dropTotal
  rw [ht] at hw he
  simp only [RefPc.refs, RefPc.ending, Bool.toNat_false] at hw he
  have hheld := held_add (Function.update s.held k (s.held k - 1)) k
  simp only [Function.update_self, Function.update_idem, Nat.sub_add_cancel hpos,
    Function.update_eq_self] at hheld
  rw [h.release_eq hpos]
  have htotal : ({ s with
      pRef := Function.update s.pRef k (BitVec.ofNat 32 (s.held k - 1))
      held := Function.update s.held k (s.held k - 1) }.goto t .dropTotal).total = s.total := by
    simp only [total, goto]
    omega
  refine ⟨?_, ?_, by rw [htotal]; exact h.small, ?_, h.errors, failing_goto h.failing rfl⟩
  · rw [htotal]
    exact h.nRef
  · intro l
    simp only [goto]
    by_cases hl : l = k
    · rw [hl, Function.update_self, Function.update_self]
    · rw [Function.update_of_ne hl, Function.update_of_ne hl]
      exact h.pRef l
  · rw [htotal, ← h.freeing]
    simp only [goto]
    omega

/-- The last reference takes `Release` on to `OnFree`. -/
theorem dropTotal_eq (h : s.Counted) (hpos : 0 < s.total) :
    s.dropTotal t = { s with nRef := BitVec.ofNat 32 (s.total - 1) }.goto t
      (if s.total = 1 then .checkTimer else .idle) := by
  have hnRef : s.nRef - 1 = BitVec.ofNat 32 (s.total - 1) := by
    rw [h.nRef, ofNat_sub_one hpos]
  have hint : (BitVec.ofNat 32 (s.total - 1)).toInt = (s.total - 1 : ℕ) :=
    toInt_ofNat_of_lt (lt_of_le_of_lt (Nat.sub_le _ _) h.small)
  have hneg : ¬ (BitVec.ofNat 32 (s.total - 1)).toInt < 0 := by omega
  simp only [RefState.dropTotal, hnRef, hneg, if_false]
  by_cases hlast : s.total = 1
  · rw [if_pos hlast, if_neg (by omega)]
  · rw [if_neg hlast, if_pos (by omega)]

omit [DecidableEq ι] in
/-- A `Release` that has not dropped its reference from the total has one. -/
theorem total_of_dropTotal (ht : s.pc t = .dropTotal) : 0 < s.total := by
  have hle := le_weigh RefPc.refs s.pc t
  rw [ht] at hle
  simp only [RefPc.refs] at hle
  rw [total]
  omega

/-- `Release` drops its reference from the total. -/
theorem dropTotal (h : s.Counted) (ht : s.pc t = .dropTotal) : (s.dropTotal t).Counted := by
  have hpos := total_of_dropTotal ht
  obtain ⟨hnone, hfreed⟩ := h.total_pos hpos
  obtain ⟨c, hc, hrefs, hfail, hending⟩ : ∃ c : RefPc,
      (if s.total = 1 then .checkTimer else .idle) = c ∧ c.refs = 0 ∧ c.failing = false ∧
        c.ending.toNat = if s.total - 1 = 0 then 1 else 0 := by
    refine ⟨_, rfl, ?_⟩
    by_cases hlast : s.total = 1
    · rw [if_pos hlast, hlast]
      exact ⟨rfl, rfl, rfl⟩
    · rw [if_neg hlast, if_neg (by omega)]
      exact ⟨rfl, rfl, rfl⟩
  have hw := weigh_update RefPc.refs s.pc t c
  have he := tally_update RefPc.ending s.pc t c
  have hone : RefPc.dropTotal.refs = 1 := rfl
  have hnot : RefPc.dropTotal.ending.toNat = 0 := rfl
  rw [hrefs, ht, hone] at hw
  rw [ht, hnot] at he
  rw [h.dropTotal_eq hpos, hc]
  have htotal :
      ({ s with nRef := BitVec.ofNat 32 (s.total - 1) }.goto t c).total = s.total - 1 := by
    simp only [total, goto]
    omega
  refine ⟨?_, h.pRef, ?_, ?_, h.errors, failing_goto h.failing hfail⟩
  · rw [htotal]
    rfl
  · rw [htotal]
    exact lt_of_le_of_lt (Nat.sub_le _ _) h.small
  · rw [htotal, ← hending]
    simp only [goto]
    omega

omit [DecidableEq ι] in
/-- With a call past the last `InterlockedDecrement(&m_nRef)`, nothing is left. -/
theorem total_of_ending (h : s.Counted) (ht : (s.pc t).ending = true) : s.total = 0 := by
  have hpos : 0 < tally RefPc.ending s.pc := tally_pos ht
  have hfreeing := h.freeing
  by_contra hne
  rw [if_neg hne] at hfreeing
  omega

/-- One of the last steps, which leaves the counters. -/
theorem finish (h : s.Counted) (ht : (s.pc t).ending = true) {c : RefPc} {n : ℕ}
    (hrefs : c.refs = 0) (hfail : c.failing = false) (hn : c.ending.toNat + n = s.freed + 1) :
    ({ s with freed := n }.goto t c).Counted := by
  have hw := weigh_update RefPc.refs s.pc t c
  have he := tally_update RefPc.ending s.pc t c
  have hzero : (s.pc t).refs = 0 := by
    cases hpc : s.pc t <;> simp_all [RefPc.ending, RefPc.refs]
  have htotal : ({ s with freed := n }.goto t c).total = s.total := by
    simp only [total, goto]
    omega
  refine ⟨?_, h.pRef, by rw [htotal]; exact h.small, ?_, h.errors, failing_goto h.failing hfail⟩
  · rw [htotal]
    exact h.nRef
  · rw [htotal, ← h.freeing]
    simp only [goto]
    rw [ht, Bool.toNat_true] at he
    omega

omit [DecidableEq ι] in
/-- A read of a counter in a state where nothing is left. -/
theorem pRef_of_total (h : s.Counted) (hzero : s.total = 0) (k : RefKind) :
    ¬ 0 < (s.pRef k).toInt := by
  have hheld : s.held k = 0 := by
    rw [total] at hzero
    cases k <;> omega
  rw [h.pRef k, hheld]
  decide

/-- Every step keeps `Counted`. -/
theorem step {a : RefAct ι} (h : s.Counted) (hfit : RefsFit s a) (hstep : refStep s a = some s') :
    s'.Counted := by
  cases a with
  | addRef t k =>
      simp only [refStep, Option.ite_none_right_eq_some, Option.some.injEq] at hstep
      obtain ⟨⟨ht, hpos⟩, rfl⟩ := hstep
      exact h.addRef ht hpos hfit
  | release t k =>
      simp only [refStep, Option.ite_none_right_eq_some, Option.some.injEq] at hstep
      obtain ⟨⟨ht, hpos⟩, rfl⟩ := hstep
      exact h.release ht hpos
  | step t =>
      simp only [refStep] at hstep
      have hfailing := h.failing t
      cases hpc : s.pc t with
      | idle => simp [hpc, next] at hstep
      | addReset k => simp [hpc, RefPc.failing] at hfailing
      | resetCounter k => simp [hpc, RefPc.failing] at hfailing
      | resetTotal => simp [hpc, RefPc.failing] at hfailing
      | addCounter k =>
          simp only [hpc, next, Option.some.injEq] at hstep
          exact hstep ▸ h.addCounter hpc
      | dropTotal =>
          simp only [hpc, next, Option.some.injEq] at hstep
          exact hstep ▸ h.dropTotal hpc
      | checkTimer =>
          have hending : (s.pc t).ending = true := by rw [hpc]; rfl
          have hread := h.pRef_of_total (h.total_of_ending hending) .timer
          simp only [hpc, next, hread, if_false, Option.some.injEq] at hstep
          exact hstep ▸ h.finish (n := s.freed) hending rfl rfl (Nat.add_comm _ _)
      | checkGeneral =>
          have hending : (s.pc t).ending = true := by rw [hpc]; rfl
          have hread := h.pRef_of_total (h.total_of_ending hending) .general
          simp only [hpc, next, hread, if_false, Option.some.injEq] at hstep
          exact hstep ▸ h.finish (n := s.freed) hending rfl rfl (Nat.add_comm _ _)
      | onFree =>
          have hending : (s.pc t).ending = true := by rw [hpc]; rfl
          simp only [hpc, next, Option.some.injEq] at hstep
          exact hstep ▸ h.finish hending rfl rfl (Nat.zero_add _)

end Counted
end RefState

omit [DecidableEq ι] in
/-- The object as its constructor leaves it. -/
theorem RefState.counted_start : (RefState.start ι).Counted := by
  have hnone : ∀ w : RefPc → ℕ, w .idle = 0 → weigh w (RefState.start ι).pc = 0 :=
    fun w hw => weigh_eq_zero.mpr fun _ => hw
  have htotal : (RefState.start ι).total = 1 := by
    rw [RefState.total, hnone RefPc.refs rfl]
    rfl
  refine ⟨?_, ?_, ?_, ?_, rfl, fun _ => rfl⟩
  · rw [htotal]
    rfl
  · intro k
    cases k <;> rfl
  · rw [htotal]
    decide
  · rw [htotal, tally, hnone _ rfl]
    rfl

end Counted

end BGIocpServer
