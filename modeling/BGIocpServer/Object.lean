import Mathlib.Data.Int.Notation
import Mathlib.Tactic.Common

/-!
# Reference counts

`BGIOObject` and its `AddRef` and `Release`. Every reference is counted in
`m_nRef` and in one of `m_nTimerRef` and `m_nGeneralRef`; `Release` runs `OnFree`,
which deletes the object, when the last one is dropped. The branches that the
source reports as errors are kept: they write 100 into the counters.

The counters are `long`s, kept as integers here. That is the same as long as fewer than
2^31 references of an object are held at a time, as for a slot, whose holders are a few
callbacks and players; where any number may be held, `ObjectSteps` has the words of 32 bits.
-/

namespace BGIocpServer

/-- The counter that the argument `pRef` of `AddRef` and `Release` points at. -/
inductive RefKind
  /-- `m_nTimerRef` -/
  | timer
  /-- `m_nGeneralRef` -/
  | general
  deriving DecidableEq, Repr

structure BGIOObject where
  nRef : ℤ
  nTimerRef : ℤ
  nGeneralRef : ℤ
  /-- `OnFree` has run: the object is deleted. -/
  freed : Bool
  deriving DecidableEq, Repr

namespace BGIOObject

/-- The constructor: one reference, a general one. -/
def new : BGIOObject := ⟨1, 0, 1, false⟩

/-- The value of `*pRef`. -/
def ref (o : BGIOObject) : RefKind → ℤ
  | .timer => o.nTimerRef
  | .general => o.nGeneralRef

/-- Assignment to `*pRef`. -/
def setRef (o : BGIOObject) (k : RefKind) (n : ℤ) : BGIOObject :=
  match k with
  | .timer => { o with nTimerRef := n }
  | .general => { o with nGeneralRef := n }

/-- `AddRef(pRef)`. -/
def addRef (o : BGIOObject) (k : RefKind) : BGIOObject :=
  let o := { o with nRef := o.nRef + 1 }
  -- the count was 0: the source reports the error and writes 100
  let o := if o.nRef = 1 then { o with nRef := 100 } else o
  o.setRef k (o.ref k + 1)

/-- `Release(pRef)`. -/
def release (o : BGIOObject) (k : RefKind) : BGIOObject :=
  let o := o.setRef k (o.ref k - 1)
  if o.ref k < 0 then { o.setRef k 100 with nRef := 100 }
  else
    let o := { o with nRef := o.nRef - 1 }
    if o.nRef > 0 then o
    else if o.nRef < 0 then o
    else if o.nTimerRef > 0 ∨ o.nGeneralRef > 0 then { o with nRef := 100 }
    else { o with freed := true }

/-- The counters when `timer` timer references and `general` general ones are held:
the object is deleted exactly when there are none. -/
structure Counted (o : BGIOObject) (timer general : ℕ) : Prop where
  timer_eq : o.nTimerRef = timer
  general_eq : o.nGeneralRef = general
  sum_eq : o.nRef = timer + general
  freed_iff : o.freed = true ↔ timer + general = 0

theorem counted_new : Counted new 0 1 := ⟨rfl, rfl, rfl, by decide⟩

namespace Counted
variable {o : BGIOObject} {timer general : ℕ}

/-- What is held determines the counters. -/
theorem unique {o' : BGIOObject} (h : o.Counted timer general) (h' : o'.Counted timer general) :
    o = o' := by
  have hfreed : o.freed = o'.freed := by
    rw [Bool.eq_iff_iff, h.freed_iff, h'.freed_iff]
  obtain ⟨nRef, nTimerRef, nGeneralRef, freed⟩ := o
  obtain ⟨nRef', nTimerRef', nGeneralRef', freed'⟩ := o'
  obtain ⟨ht, hg, hs, -⟩ := h
  obtain ⟨ht', hg', hs', -⟩ := h'
  simp only at ht hg hs ht' hg' hs' hfreed
  rw [ht, hg, hs, ht', hg', hs', hfreed]

/-- A live object has not been deleted. -/
theorem alive (h : o.Counted timer general) (hpos : 0 < timer + general) : o.freed = false := by
  rw [Bool.eq_false_iff]
  intro hf
  have := h.freed_iff.mp hf
  omega

/-- Taking a timer reference of a live object. -/
theorem addRef_timer (h : o.Counted timer general) (hpos : 0 < timer + general) :
    (o.addRef .timer).Counted (timer + 1) general := by
  have halive := h.alive hpos
  obtain ⟨ht, hg, hs, -⟩ := h
  have hne : ¬ o.nRef + 1 = 1 := by omega
  constructor
  · simp only [addRef, hne, if_false, setRef, ref]
    omega
  · simpa only [addRef, hne, if_false, setRef, ref] using hg
  · simp only [addRef, hne, if_false, setRef, ref]
    omega
  · simp [addRef, hne, setRef, halive]

/-- Taking a general reference of a live object. -/
theorem addRef_general (h : o.Counted timer general) (hpos : 0 < timer + general) :
    (o.addRef .general).Counted timer (general + 1) := by
  have halive := h.alive hpos
  obtain ⟨ht, hg, hs, -⟩ := h
  have hne : ¬ o.nRef + 1 = 1 := by omega
  constructor
  · simpa only [addRef, hne, if_false, setRef, ref] using ht
  · simp only [addRef, hne, if_false, setRef, ref]
    omega
  · simp only [addRef, hne, if_false, setRef, ref]
    omega
  · simp [addRef, hne, setRef, halive]

/-- Dropping a timer reference; the last reference of all deletes the object. -/
theorem release_timer (h : o.Counted (timer + 1) general) :
    (o.release .timer).Counted timer general := by
  have halive := h.alive (by omega)
  obtain ⟨ht, hg, hs, -⟩ := h
  have hneg : ¬ o.nTimerRef - 1 < 0 := by omega
  by_cases hlast : timer + general = 0
  · have h0 : ¬ o.nRef - 1 > 0 := by omega
    have h1 : ¬ o.nRef - 1 < 0 := by omega
    have h2 : ¬ (o.nTimerRef - 1 > 0 ∨ o.nGeneralRef > 0) := by omega
    simp only [release, setRef, ref, hneg, h0, h1, h2, if_false]
    exact ⟨by simp only; omega, hg, by simp only; omega, by simp [hlast]⟩
  · have h0 : o.nRef - 1 > 0 := by omega
    simp only [release, setRef, ref, hneg, h0, if_false, if_true]
    exact ⟨by simp only; omega, hg, by simp only; omega, by simp only [halive, hlast]; decide⟩

/-- Dropping a general reference; the last reference of all deletes the object. -/
theorem release_general (h : o.Counted timer (general + 1)) :
    (o.release .general).Counted timer general := by
  have halive := h.alive (by omega)
  obtain ⟨ht, hg, hs, -⟩ := h
  have hneg : ¬ o.nGeneralRef - 1 < 0 := by omega
  by_cases hlast : timer + general = 0
  · have h0 : ¬ o.nRef - 1 > 0 := by omega
    have h1 : ¬ o.nRef - 1 < 0 := by omega
    have h2 : ¬ (o.nTimerRef > 0 ∨ o.nGeneralRef - 1 > 0) := by omega
    simp only [release, setRef, ref, hneg, h0, h1, h2, if_false]
    exact ⟨ht, by simp only; omega, by simp only; omega, by simp [hlast]⟩
  · have h0 : o.nRef - 1 > 0 := by omega
    simp only [release, setRef, ref, hneg, h0, if_false, if_true]
    exact ⟨ht, by simp only; omega, by simp only; omega, by simp only [halive, hlast]; decide⟩

end Counted
end BGIOObject
end BGIocpServer
