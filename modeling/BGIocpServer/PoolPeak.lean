import BGIocpServer.BufferPool
import BGIocpServer.Kit.Reaches
import Mathlib.Data.Finset.Card

/-!
# How many buffers the pool makes

`Alloc` and `Free` one at a time. The two counters go round the slots on their own, so a
slot may be empty while the other has buffers. The calls of `Alloc` at a slot, less the
calls of `Free` at it, never exceed half of the live buffers, and one more for the slot
that both start with; a buffer is made only where this number reaches a new maximum.

## Main definitions

* `PoolRun`, `PoolCall`, `poolCall`: the pool with its live buffers, and the calls.
* `Balanced`: the lengths of the lists against the buffers made at each slot.

## Main results

* `created_le_peak`: at most one buffer more than were ever live at once.
-/

namespace BGIocpServer
open Kit

/-- The pool, and its history. -/
structure PoolRun where
  pool : BufferPool
  /-- The buffers that `Alloc` has returned and `Free` was not called for since. -/
  live : Finset Ptr
  /-- The largest number of buffers that were live at the same time. -/
  peak : ℕ

/-- The calls. A holder of a buffer writes whatever it likes into it. -/
inductive PoolCall
  | alloc
  | free (p : Ptr)
  | write (p : Ptr) (b : BGIOBuffer)

namespace PoolRun

/-- The pool before the first call. -/
def start (heap : Heap) : PoolRun := ⟨.start heap, ∅, 0⟩

/-- `Alloc` -/
def alloc (s : PoolRun) : PoolRun where
  pool := s.pool.alloc.2
  live := insert s.pool.alloc.1 s.live
  peak := max s.peak (insert s.pool.alloc.1 s.live).card

/-- `Free` -/
def free (s : PoolRun) (p : Ptr) : PoolRun :=
  { s with pool := s.pool.free p, live := s.live.erase p }

end PoolRun

/-- One call; `Free` and writes are for live buffers. -/
def poolCall (s : PoolRun) : PoolCall → Option PoolRun
  | .alloc => some s.alloc
  | .free p => if p ∈ s.live then some (s.free p) else none
  | .write p b => if p ∈ s.live then some { s with pool := s.pool.setBuf p b } else none

/-! ## The turns of the counters -/

namespace BufferPool

theorem slotIndex_eq (n : BitVec 32) : slotIndex n = n.toNat % 2 := by
  rw [slotIndex, BitVec.toNat_and]
  exact Nat.and_one_is_mod _

/-- The next call goes to the other slot, also where the counter wraps. -/
theorem slotIndex_add_one (n : BitVec 32) : slotIndex (n + 1) + slotIndex n = 1 := by
  rw [slotIndex_eq, slotIndex_eq, BitVec.toNat_add]
  have hn := n.isLt
  change (n.toNat + 1) % 2 ^ 32 % 2 + n.toNat % 2 = 1
  omega

theorem slotIndex_sub_one (n : BitVec 32) : slotIndex (n - 1) + slotIndex n = 1 := by
  have h := slotIndex_add_one (n - 1)
  rw [BitVec.sub_add_cancel] at h
  omega

end BufferPool

/-! ## Lengths and misses -/

/-- The lengths of the two lists, the buffers made at each slot, the slots that the next
`Alloc` and the next `Free` go to, and the numbers of live buffers now and at most. -/
structure Balanced (len missed : ℕ → ℕ) (allocAt freeAt live peak : ℕ) : Prop where
  allocAt_lt : allocAt < bufferPoolSize
  freeAt_lt : freeAt < bufferPoolSize
  total : len 0 + len 1 + live = missed 0 + missed 1
  /-- `Alloc` begins with the slot 0 and `Free` with the slot 1. -/
  skew : missed 0 + len 1 + freeAt = missed 1 + len 0 + allocAt + 1
  missed_zero : missed 0 ≤ peak / 2 + 1
  missed_one : missed 1 ≤ peak / 2
  live_le : live ≤ peak

namespace Balanced
variable {len missed : ℕ → ℕ} {allocAt freeAt allocAt' freeAt' live peak m : ℕ}

theorem start : Balanced (fun _ => 0) (fun _ => 0) 0 1 0 0 := by
  constructor <;> simp [bufferPoolSize]

/-- The bound that the numbers keep. -/
theorem made_le (h : Balanced len missed allocAt freeAt live peak) :
    missed 0 + missed 1 ≤ peak + 1 := by
  have hzero := h.missed_zero
  have hone := h.missed_one
  omega

/-- `Alloc` at a slot whose list has a buffer. -/
theorem take (h : Balanced len missed allocAt freeAt live peak) (hturn : allocAt' + allocAt = 1)
    (hlen : len allocAt = m + 1) :
    Balanced (Function.update len allocAt m) missed allocAt' freeAt (live + 1)
      (max peak (live + 1)) := by
  obtain ⟨hlt, hfree, htotal, hskew, hzero, hone, hlive⟩ := h
  obtain rfl | rfl : allocAt = 0 ∨ allocAt = 1 := by omega
  all_goals
    constructor <;> simp only [Function.update_self, Function.update_of_ne, ne_eq, zero_ne_one,
      one_ne_zero, not_false_eq_true, bufferPoolSize] at * <;> omega

/-- `Alloc` at a slot whose list is empty. -/
theorem make (h : Balanced len missed allocAt freeAt live peak) (hturn : allocAt' + allocAt = 1)
    (hlen : len allocAt = 0) :
    Balanced len (Function.update missed allocAt (missed allocAt + 1)) allocAt' freeAt (live + 1)
      (max peak (live + 1)) := by
  obtain ⟨hlt, hfree, htotal, hskew, hzero, hone, hlive⟩ := h
  obtain rfl | rfl : allocAt = 0 ∨ allocAt = 1 := by omega
  all_goals
    constructor <;> simp only [Function.update_self, Function.update_of_ne, ne_eq, zero_ne_one,
      one_ne_zero, not_false_eq_true, bufferPoolSize] at * <;> omega

/-- `Free` of a live buffer. -/
theorem give (h : Balanced len missed allocAt freeAt (live + 1) peak)
    (hturn : freeAt' + freeAt = 1) :
    Balanced (Function.update len freeAt (len freeAt + 1)) missed allocAt freeAt' live peak := by
  obtain ⟨hlt, hfree, htotal, hskew, hzero, hone, hlive⟩ := h
  obtain rfl | rfl : freeAt = 0 ∨ freeAt = 1 := by omega
  all_goals
    constructor <;> simp only [Function.update_self, Function.update_of_ne, ne_eq, zero_ne_one,
      one_ne_zero, not_false_eq_true, bufferPoolSize] at * <;> omega

end Balanced

/-! ## Runs -/

/-- The buffers that are not live are on the lists, each once, and the numbers balance. -/
structure Recycled (s : PoolRun) (lists : ℕ → List Ptr) (missed : ℕ → ℕ) : Prop where
  chains : s.pool.FreeLists lists
  running : s.pool.nStop = false
  created : s.pool.created = missed 0 + missed 1
  live_lt : ∀ p ∈ s.live, p < s.pool.created
  listed_lt : ∀ k, ∀ p ∈ lists k, p < s.pool.created
  apart : ∀ k, ∀ p ∈ lists k, p ∉ s.live
  nodup : ∀ k, (lists k).Nodup
  disjoint : ∀ j k p, p ∈ lists j → p ∈ lists k → j = k
  balanced : Balanced (fun k => (lists k).length) missed
    (BufferPool.slotIndex (s.pool.nAllocBuffer + 1))
    (BufferPool.slotIndex (s.pool.nFreeBuffer - 1)) s.live.card s.peak

namespace Recycled
variable {s : PoolRun} {lists : ℕ → List Ptr} {missed : ℕ → ℕ} {p : Ptr} {rest : List Ptr}

theorem start (heap : Heap) : Recycled (.start heap) (fun _ => []) fun _ => 0 where
  chains := fun _ => rfl
  running := rfl
  created := rfl
  live_lt := by simp [PoolRun.start]
  listed_lt := by simp
  apart := by simp
  nodup := fun _ => .nil
  disjoint := by simp
  balanced := by simpa [PoolRun.start, BufferPool.start, BufferPool.slotIndex, bufferPoolSize]
    using Balanced.start

/-- A change of one list. -/
theorem length_update (lists : ℕ → List Ptr) (i : ℕ) (xs : List Ptr) :
    (fun k => (Function.update lists i xs k).length) =
      Function.update (fun k => (lists k).length) i xs.length := by
  funext k
  by_cases hk : k = i
  · subst hk
    simp
  · simp [hk]

/-- `Alloc` at a list that has a buffer. -/
theorem take (h : Recycled s lists missed)
    (hcons : lists (BufferPool.slotIndex (s.pool.nAllocBuffer + 1)) = p :: rest) :
    Recycled s.alloc
      (Function.update lists (BufferPool.slotIndex (s.pool.nAllocBuffer + 1)) rest) missed := by
  obtain ⟨i, hi⟩ : ∃ i, i = BufferPool.slotIndex (s.pool.nAllocBuffer + 1) := ⟨_, rfl⟩
  rw [← hi] at hcons ⊢
  have hp : p ∈ lists i := by simp [hcons]
  have hnodup := h.nodup i
  rw [hcons, List.nodup_cons] at hnodup
  have hother : ∀ k, k ≠ i → p ∉ lists k := fun k hk hmem => hk (h.disjoint k i p hmem hp)
  have hsub : ∀ k, ∀ q ∈ Function.update lists i rest k, q ∈ lists k ∧ q ≠ p := by
    intro k q hq
    by_cases hk : k = i
    · subst hk
      rw [Function.update_self] at hq
      exact ⟨by simp [hcons, hq], by rintro rfl; exact hnodup.1 hq⟩
    · rw [Function.update_of_ne hk] at hq
      exact ⟨hq, by rintro rfl; exact hother k hk hq⟩
  obtain ⟨hval, hchains, hcreated⟩ :=
    BufferPool.alloc_take h.chains (hi ▸ hcons) hnodup.1 (hi ▸ hother)
  obtain ⟨hnAlloc, hnFree, hstop⟩ := s.pool.alloc_counters
  refine { chains := hi ▸ hchains, running := hstop.trans h.running
           created := hcreated.trans h.created, live_lt := fun q hq => ?_
           listed_lt := fun k q hq => ?_, apart := fun k q hq => ?_, nodup := fun k => ?_
           disjoint := fun j k q hj hk => h.disjoint j k q (hsub j q hj).1 (hsub k q hk).1
           balanced := ?_ }
  · rw [PoolRun.alloc, hcreated]
    rw [PoolRun.alloc, hval, Finset.mem_insert] at hq
    rcases hq with rfl | hq
    · exact h.listed_lt i q hp
    · exact h.live_lt q hq
  · rw [PoolRun.alloc, hcreated]
    exact h.listed_lt k q (hsub k q hq).1
  · rw [PoolRun.alloc, hval, Finset.mem_insert, not_or]
    exact ⟨(hsub k q hq).2, h.apart k q (hsub k q hq).1⟩
  · by_cases hk : k = i
    · subst hk
      rw [Function.update_self]
      exact hnodup.2
    · rw [Function.update_of_ne hk]
      exact h.nodup k
  · have hbal := h.balanced.take (m := rest.length)
      (BufferPool.slotIndex_add_one (s.pool.nAllocBuffer + 1))
      (congrArg List.length (hi ▸ hcons))
    simp only [PoolRun.alloc, hval, hnAlloc, hnFree, length_update,
      Finset.card_insert_of_notMem (h.apart i p hp)]
    rw [← hi] at hbal
    exact hbal

/-- `Alloc` at an empty list. -/
theorem make (h : Recycled s lists missed)
    (hnil : lists (BufferPool.slotIndex (s.pool.nAllocBuffer + 1)) = []) :
    Recycled s.alloc lists
      (Function.update missed (BufferPool.slotIndex (s.pool.nAllocBuffer + 1))
        (missed (BufferPool.slotIndex (s.pool.nAllocBuffer + 1)) + 1)) := by
  have hfresh : ∀ k, s.pool.created ∉ lists k := fun k hmem =>
    lt_irrefl _ (h.listed_lt k _ hmem)
  have hnew : s.pool.created ∉ s.live := fun hmem => lt_irrefl _ (h.live_lt _ hmem)
  obtain ⟨hval, hchains, hcreated⟩ := BufferPool.alloc_new h.chains hnil hfresh
  obtain ⟨hnAlloc, hnFree, hstop⟩ := s.pool.alloc_counters
  have hbal := h.balanced.make (BufferPool.slotIndex_add_one (s.pool.nAllocBuffer + 1))
    (congrArg List.length hnil)
  refine { chains := hchains, running := hstop.trans h.running, created := ?_
           live_lt := fun q hq => ?_, listed_lt := fun k q hq => ?_, apart := fun k q hq => ?_
           nodup := h.nodup, disjoint := h.disjoint, balanced := ?_ }
  · have hnow := hbal.total
    have hbefore := h.balanced.total
    have hmade := h.created
    simp only [PoolRun.alloc, hcreated]
    omega
  · rw [PoolRun.alloc, hcreated]
    rw [PoolRun.alloc, hval, Finset.mem_insert] at hq
    rcases hq with rfl | hq
    · exact Nat.lt_succ_self _
    · exact (h.live_lt q hq).trans (Nat.lt_succ_self _)
  · rw [PoolRun.alloc, hcreated]
    exact (h.listed_lt k q hq).trans (Nat.lt_succ_self _)
  · rw [PoolRun.alloc, hval, Finset.mem_insert, not_or]
    exact ⟨by rintro rfl; exact hfresh k hq, h.apart k q hq⟩
  · simp only [PoolRun.alloc, hval, hnAlloc, hnFree, Finset.card_insert_of_notMem hnew]
    exact hbal

/-- `Free` of a live buffer. -/
theorem give (h : Recycled s lists missed) (hp : p ∈ s.live) :
    Recycled (s.free p) (Function.update lists (BufferPool.slotIndex (s.pool.nFreeBuffer - 1))
      (p :: lists (BufferPool.slotIndex (s.pool.nFreeBuffer - 1)))) missed := by
  obtain ⟨i, hi⟩ : ∃ i, i = BufferPool.slotIndex (s.pool.nFreeBuffer - 1) := ⟨_, rfl⟩
  have hout : ∀ k, p ∉ lists k := fun k hmem => h.apart k p hmem hp
  have hchains := BufferPool.free_lists h.chains h.running hout
  obtain ⟨hnAlloc, hnFree, hstop, hcreated⟩ := BufferPool.free_counters h.running p
  rw [← hi] at hchains ⊢
  have hmem : ∀ k q, q ∈ Function.update lists i (p :: lists i) k →
      q ∈ lists k ∨ q = p ∧ k = i := by
    intro k q hq
    by_cases hk : k = i
    · subst hk
      rw [Function.update_self, List.mem_cons] at hq
      exact hq.elim (fun hqp => .inr ⟨hqp, rfl⟩) .inl
    · rw [Function.update_of_ne hk] at hq
      exact .inl hq
  refine { chains := hchains, running := hstop, created := hcreated.trans h.created
           live_lt := fun q hq => ?_, listed_lt := fun k q hq => ?_, apart := fun k q hq => ?_
           nodup := fun k => ?_, disjoint := fun j k q hj hk => ?_, balanced := ?_ }
  · rw [PoolRun.free, hcreated]
    exact h.live_lt q (Finset.mem_of_mem_erase hq)
  · rw [PoolRun.free, hcreated]
    rcases hmem k q hq with hq | ⟨rfl, -⟩
    · exact h.listed_lt k q hq
    · exact h.live_lt q hp
  · rw [PoolRun.free, Finset.mem_erase, not_and]
    rcases hmem k q hq with hq | ⟨rfl, -⟩
    · exact fun _ => h.apart k q hq
    · exact fun hne => absurd rfl hne
  · by_cases hk : k = i
    · subst hk
      rw [Function.update_self, List.nodup_cons]
      exact ⟨hout k, h.nodup k⟩
    · rw [Function.update_of_ne hk]
      exact h.nodup k
  · rcases hmem j q hj with hj' | ⟨hqp, hji⟩
    · rcases hmem k q hk with hk' | ⟨hqp, -⟩
      · exact h.disjoint j k q hj' hk'
      · exact absurd (hqp ▸ hj') (hout j)
    · rcases hmem k q hk with hk' | ⟨-, hki⟩
      · exact absurd (hqp ▸ hk') (hout k)
      · exact hji.trans hki.symm
  · have hcard : s.live.card = (s.live.erase p).card + 1 := (Finset.card_erase_add_one hp).symm
    have hbal := h.balanced
    rw [hcard] at hbal
    have hgive := hbal.give (BufferPool.slotIndex_sub_one (s.pool.nFreeBuffer - 1))
    simp only [PoolRun.free, hnAlloc, hnFree, length_update, List.length_cons]
    rw [← hi] at hgive
    exact hgive

/-- What a holder writes into its buffer. -/
theorem write (h : Recycled s lists missed) (hp : p ∈ s.live) (b : BGIOBuffer) :
    Recycled { s with pool := s.pool.setBuf p b } lists missed where
  chains := fun k => (h.chains k).congr fun q hq => by
    simp only [BufferPool.setBuf]
    rw [Function.update_of_ne (by rintro rfl; exact h.apart k q hq hp)]
  running := h.running
  created := h.created
  live_lt := h.live_lt
  listed_lt := h.listed_lt
  apart := h.apart
  nodup := h.nodup
  disjoint := h.disjoint
  balanced := h.balanced

/-- One call. -/
theorem step {a : PoolCall} {s' : PoolRun} (h : Recycled s lists missed)
    (hs : poolCall s a = some s') : ∃ lists' missed', Recycled s' lists' missed' := by
  cases a with
  | alloc =>
      obtain rfl := Option.some.inj hs
      cases hlist : lists (BufferPool.slotIndex (s.pool.nAllocBuffer + 1)) with
      | nil => exact ⟨_, _, h.make hlist⟩
      | cons p rest => exact ⟨_, _, h.take hlist⟩
  | free p =>
      simp only [poolCall, Option.ite_none_right_eq_some, Option.some.injEq] at hs
      obtain ⟨hp, rfl⟩ := hs
      exact ⟨_, _, h.give hp⟩
  | write p b =>
      simp only [poolCall, Option.ite_none_right_eq_some, Option.some.injEq] at hs
      obtain ⟨hp, rfl⟩ := hs
      exact ⟨_, _, h.write hp b⟩

end Recycled

/-- **The pool makes at most one buffer more than were ever live at the same time.** -/
theorem created_le_peak (heap : Heap) {s : PoolRun}
    (hrun : Reaches poolCall Always (.start heap) s) : s.pool.created ≤ s.peak + 1 := by
  have hinv : ∃ lists missed, Recycled s lists missed := by
    refine hrun.invariant (fun s => ∃ lists missed, Recycled s lists missed)
      ⟨_, _, Recycled.start heap⟩ ?_
    rintro t a u ⟨lists, missed, h⟩ - hs
    exact h.step hs
  obtain ⟨lists, missed, h⟩ := hinv
  rw [h.created]
  exact h.balanced.made_le

/-- Two buffers are live at most, and the third `Alloc` finds its slot empty. -/
theorem created_le_peak_two : ∃ s : PoolRun,
    s.pool.created = 3 ∧ s.peak = 2 ∧ s.pool.created ≤ s.peak + 1 := by
  obtain ⟨s, hrun, hcreated, hpeak⟩ : ∃ s,
      runAll poolCall (.start fun _ => .blank) [.alloc, .alloc, .free 0, .alloc] = some s ∧
        s.pool.created = 3 ∧ s.peak = 2 := ⟨_, rfl, rfl, rfl⟩
  exact ⟨s, hcreated, hpeak, created_le_peak _ (Reaches.always_of_runAll hrun)⟩

end BGIocpServer
