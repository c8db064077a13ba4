import BGIocpServer.WriteQueue
import Mathlib.Data.BitVec

/-!
# The buffer pool

`BGIOBuffer::Alloc`, `Free` and `Release`: a pool of `BUFFER_POOL_SIZE` slots, each
with a list of free buffers, and two counters that choose the slot to take from and
the slot to put back to. `new` makes a buffer at an address that was never used.

## Main definitions

* `BufferPool`: the buffers, the slots and the counters.
* `FreeLists pool free`: the free lists of the slots are the lists `free`.
-/

namespace BGIocpServer
open Kit

/-- `BUFFER_POOL_SIZE` -/
def bufferPoolSize : ℕ := 2

structure BufferPool where
  heap : Heap
  /-- `new` has made the buffers at the addresses below. -/
  created : ℕ
  deleted : Ptr → Bool
  /-- `g_slotBuffer[i].m_pBuffer` -/
  slotBuffer : ℕ → Option Ptr
  nAllocBuffer : BitVec 32
  nFreeBuffer : BitVec 32
  nStop : Bool

namespace BufferPool

/-- The pool before the first `Alloc`, over buffers as `new` will find them. -/
def start (heap : Heap) : BufferPool := ⟨heap, 0, fun _ => false, fun _ => none, -1#32, 0#32, false⟩

/-- The slot that a counter chooses. -/
def slotIndex (n : BitVec 32) : ℕ := (n &&& BitVec.ofNat 32 (bufferPoolSize - 1)).toNat

theorem slotIndex_lt (n : BitVec 32) : slotIndex n < bufferPoolSize := by
  have hle : (n &&& 1#32).toNat ≤ 1 := by
    rw [BitVec.toNat_and]
    exact Nat.and_le_right
  exact Nat.lt_succ_of_le hle

/-- Assignment to the buffer at `p`. -/
def setBuf (s : BufferPool) (p : Ptr) (b : BGIOBuffer) : BufferPool :=
  { s with heap := Function.update s.heap p b }

/-- `Alloc` -/
def alloc (s : BufferPool) : Ptr × BufferPool :=
  let s := { s with nAllocBuffer := s.nAllocBuffer + 1 }
  match s.slotBuffer (slotIndex s.nAllocBuffer) with
  | some newBuffer =>
      let next := (s.heap newBuffer).pNext
      let s := { s with
        slotBuffer := Function.update s.slotBuffer (slotIndex s.nAllocBuffer) next }
      (newBuffer, s.setBuf newBuffer (s.heap newBuffer).init)
  | none =>
      let newBuffer := s.created
      (newBuffer, { s with created := s.created + 1 }.setBuf newBuffer (s.heap newBuffer).init)

/-- `Free` -/
def free (s : BufferPool) (p : Ptr) : BufferPool :=
  if s.nStop then { s with deleted := Function.update s.deleted p true }
  else
    let s := { s with nFreeBuffer := s.nFreeBuffer - 1 }
    let s := s.setBuf p { s.heap p with pNext := s.slotBuffer (slotIndex s.nFreeBuffer) }
    { s with slotBuffer := Function.update s.slotBuffer (slotIndex s.nFreeBuffer) (some p) }

/-- `Release` -/
def release (s : BufferPool) (p : Ptr) : BufferPool :=
  let s := s.setBuf p { s.heap p with nRef := (s.heap p).nRef - 1 }
  if (s.heap p).nRef = 0 then s.free p else s

/-- The slots hold the lists `free`. -/
def FreeLists (s : BufferPool) (free : ℕ → List Ptr) : Prop :=
  ∀ k, Chain (fun p => (s.heap p).pNext) (s.slotBuffer k) (free k)

variable {s : BufferPool} {lists : ℕ → List Ptr} {p : Ptr}

/-- `Alloc` from a pool without free buffers makes a new one. -/
theorem alloc_empty (h : ∀ k, s.slotBuffer k = none) :
    s.alloc = (s.created, { s with
      nAllocBuffer := s.nAllocBuffer + 1
      created := s.created + 1
      heap := Function.update s.heap s.created (s.heap s.created).init }) := by
  simp only [alloc, h, setBuf]

/-- `Alloc` takes the first buffer of a list that has one, and unlinks it. -/
theorem alloc_take {rest : List Ptr} (h : s.FreeLists lists)
    (hcons : lists (slotIndex (s.nAllocBuffer + 1)) = p :: rest) (hrest : p ∉ rest)
    (hother : ∀ k, k ≠ slotIndex (s.nAllocBuffer + 1) → p ∉ lists k) :
    s.alloc.1 = p ∧
      s.alloc.2.FreeLists (Function.update lists (slotIndex (s.nAllocBuffer + 1)) rest) ∧
      s.alloc.2.created = s.created := by
  have hhead := h (slotIndex (s.nAllocBuffer + 1))
  rw [hcons, Chain.cons_iff] at hhead
  obtain ⟨hslot, htail⟩ := hhead
  simp only [alloc, hslot, setBuf]
  refine ⟨trivial, fun k => ?_, trivial⟩
  by_cases hk : k = slotIndex (s.nAllocBuffer + 1)
  · subst hk
    simp only [Function.update_self]
    exact htail.congr fun q hq => by
      rw [Function.update_of_ne (by rintro rfl; exact hrest hq)]
  · simp only [Function.update_of_ne hk]
    exact (h k).congr fun q hq => by
      rw [Function.update_of_ne (by rintro rfl; exact hother k hk hq)]

/-- `Alloc` at an empty list makes a new buffer. -/
theorem alloc_new (h : s.FreeLists lists) (hnil : lists (slotIndex (s.nAllocBuffer + 1)) = [])
    (hfresh : ∀ k, s.created ∉ lists k) :
    s.alloc.1 = s.created ∧ s.alloc.2.FreeLists lists ∧ s.alloc.2.created = s.created + 1 := by
  have hslot := h (slotIndex (s.nAllocBuffer + 1))
  rw [hnil, Chain.nil_iff] at hslot
  simp only [alloc, hslot, setBuf]
  refine ⟨trivial, fun k => ?_, trivial⟩
  exact (h k).congr fun q hq => by
    change (Function.update s.heap s.created _ q).pNext = _
    rw [Function.update_of_ne (by rintro rfl; exact hfresh k hq)]

/-- `Alloc` moves its counter and leaves that of `Free` and the stop flag alone. -/
theorem alloc_counters (s : BufferPool) :
    s.alloc.2.nAllocBuffer = s.nAllocBuffer + 1 ∧ s.alloc.2.nFreeBuffer = s.nFreeBuffer ∧
      s.alloc.2.nStop = s.nStop := by
  cases hslot : s.slotBuffer (slotIndex (s.nAllocBuffer + 1)) with
  | none => simp only [alloc, hslot, setBuf, and_self]
  | some p => simp only [alloc, hslot, setBuf, and_self]

/-- `Free` puts the buffer in front of the list of the slot its counter chooses. -/
theorem free_lists (h : s.FreeLists lists) (hstop : s.nStop = false) (hp : ∀ k, p ∉ lists k) :
    (s.free p).FreeLists (Function.update lists (slotIndex (s.nFreeBuffer - 1))
      (p :: lists (slotIndex (s.nFreeBuffer - 1)))) := by
  intro k
  have hkeep : ∀ k, Chain (fun q => (Function.update s.heap p { s.heap p with
      pNext := s.slotBuffer (slotIndex (s.nFreeBuffer - 1)) } q).pNext)
        (s.slotBuffer k) (lists k) :=
    fun k => (h k).congr fun q hq => by
      rw [Function.update_of_ne (by rintro rfl; exact hp k hq)]
  simp only [free, hstop, Bool.false_eq_true, if_false, setBuf]
  by_cases hk : k = slotIndex (s.nFreeBuffer - 1)
  · subst hk
    simp only [Function.update_self, Chain.cons_iff, true_and]
    exact hkeep _
  · simp only [Function.update_of_ne hk]
    exact hkeep k

/-- `Free` puts the buffer on the list of some slot. -/
theorem free_spec (h : s.FreeLists lists) (hstop : s.nStop = false) (hp : ∀ k, p ∉ lists k) :
    ∃ i < bufferPoolSize, (s.free p).FreeLists (Function.update lists i (p :: lists i)) :=
  ⟨slotIndex (s.nFreeBuffer - 1), slotIndex_lt _, free_lists h hstop hp⟩

/-- `Free` moves its counter and leaves the rest alone. -/
theorem free_counters (hstop : s.nStop = false) (p : Ptr) :
    (s.free p).nAllocBuffer = s.nAllocBuffer ∧ (s.free p).nFreeBuffer = s.nFreeBuffer - 1 ∧
      (s.free p).nStop = false ∧ (s.free p).created = s.created := by
  simp [free, hstop, setBuf]

/-- `Release` of the last reference frees the buffer, and touches no other one. -/
theorem release_last (h : s.FreeLists lists) (hstop : s.nStop = false)
    (href : (s.heap p).nRef = 1) (hp : ∀ k, p ∉ lists k) :
    (∃ i < bufferPoolSize, (s.release p).FreeLists (Function.update lists i (p :: lists i))) ∧
      (s.release p).nStop = false ∧ (s.release p).created = s.created ∧
      (s.release p).deleted = s.deleted ∧ ∀ q, q ≠ p → (s.release p).heap q = s.heap q := by
  have hdrop : (s.setBuf p { s.heap p with nRef := (s.heap p).nRef - 1 }).FreeLists lists :=
    fun k => (h k).congr fun q hq => by
      simp only [setBuf]
      rw [Function.update_of_ne (by rintro rfl; exact hp k hq)]
  have hrelease : s.release p =
      (s.setBuf p { s.heap p with nRef := (s.heap p).nRef - 1 }).free p := by
    simp [release, setBuf, href]
  rw [hrelease]
  refine ⟨free_spec hdrop hstop hp, ?_, ?_, ?_, fun q hq => ?_⟩
  · simp [free, setBuf, hstop]
  · simp [free, setBuf, hstop]
  · simp [free, setBuf, hstop]
  · simp [free, setBuf, hstop, hq]

end BufferPool
end BGIocpServer
