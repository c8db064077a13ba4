import BGIocpServer.BufferPool
import BGIocpServer.Kit.Reaches

/-!
# Alloc and Free of many threads

`Alloc` and `Free` of the buffer pool taken apart into the update of the counter, the
lock of the slot, the accesses to the list and the initialisation of the fields, for any
number of threads. A holder of a buffer writes whatever it likes into it, `m_pNext`
included: the write queue of a socket links buffers through the same field. A buffer is
given back at most once for each time it was returned.

## Main definitions

* `PoolPc`, `PoolState`, `PoolAct`, `poolStep`: the steps.

## Main results

* `alloc_alone`, `free_alone`: undisturbed, the steps are `alloc` and `free`.
-/

namespace BGIocpServer
open Kit

/-- Where a thread is in `Alloc` or in the `Free` of the buffer `p`; `i` is the slot. -/
inductive PoolPc
  /-- Outside. -/
  | idle
  /-- In `Alloc`, at `m_lock.Enter()`. -/
  | allocEnter (i : ℕ)
  /-- At the read of `pSlot->m_pBuffer`. -/
  | allocHead (i : ℕ)
  /-- At the read of `newBuffer->m_pNext`. -/
  | allocNext (i : ℕ) (p : Ptr)
  /-- At the assignment to `pSlot->m_pBuffer`. -/
  | allocSet (i : ℕ) (p : Ptr) (next : Option Ptr)
  /-- At `m_lock.Leave()`, with a buffer off the list. -/
  | allocLeave (i : ℕ) (p : Ptr)
  /-- At `m_lock.Leave()`, the list being empty. -/
  | allocLeaveNew (i : ℕ)
  /-- At `new BGIOBuffer`. -/
  | allocNew
  /-- At `m_dwSize = 0`. -/
  | initSize (p : Ptr)
  /-- At `m_nRef = 1`. -/
  | initRef (p : Ptr)
  /-- At `m_pNext = nullptr`. -/
  | initNext (p : Ptr)
  /-- At `return newBuffer`. -/
  | allocReturn (p : Ptr)
  /-- In `Free`, at the test of `g_nStop`. -/
  | freeTest (p : Ptr)
  /-- At `InterlockedDecrement(&g_nFreeBuffer)`. -/
  | freeCount (p : Ptr)
  /-- At `m_lock.Enter()`. -/
  | freeEnter (i : ℕ) (p : Ptr)
  /-- At `m_pNext = pSlot->m_pBuffer`. -/
  | freeLink (i : ℕ) (p : Ptr)
  /-- At `pSlot->m_pBuffer = this`. -/
  | freeHead (i : ℕ) (p : Ptr)
  /-- At `m_lock.Leave()`. -/
  | freeLeave (i : ℕ)
  deriving DecidableEq, Repr

/-- The pool and the threads. The last three fields are history. -/
structure PoolState (ι : Type) where
  pool : BufferPool
  /-- Who is between `Enter` and `Leave` of `g_slotBuffer[i].m_lock`. -/
  lock : ℕ → Option ι
  pc : ι → PoolPc
  /-- How often the buffer was returned by `Alloc` and not yet given to `Free`. -/
  holders : Ptr → ℕ
  /-- How often `Free` has put the buffer on a list. -/
  freed : Ptr → ℕ
  /-- How often `Alloc` has taken the buffer off a list. -/
  handed : Ptr → ℕ

/-- The steps of a thread. -/
inductive PoolAct (ι : Type)
  /-- `Alloc` is called, up to its `InterlockedIncrement(&g_nAllocBuffer)`. -/
  | alloc (t : ι)
  /-- A holder of the buffer calls `Free`. -/
  | free (t : ι) (p : Ptr)
  /-- The next step of the call. -/
  | step (t : ι)
  /-- A holder of the buffer changes it. -/
  | write (p : Ptr) (b : BGIOBuffer)

namespace PoolState
variable {ι : Type} [DecidableEq ι]

/-- The thread goes on at `k`. -/
def goto (s : PoolState ι) (t : ι) (k : PoolPc) : PoolState ι :=
  { s with pc := Function.update s.pc t k }

/-- `InterlockedIncrement(&g_nAllocBuffer)` of `Alloc`. -/
def alloc (s : PoolState ι) (t : ι) : PoolState ι :=
  let nAllocBuffer := s.pool.nAllocBuffer + 1
  { s with pool := { s.pool with nAllocBuffer } }.goto t
    (.allocEnter (BufferPool.slotIndex nAllocBuffer))

/-- `InterlockedDecrement(&g_nFreeBuffer)` of `Free`. -/
def freeCount (s : PoolState ι) (t : ι) (p : Ptr) : PoolState ι :=
  let nFreeBuffer := s.pool.nFreeBuffer - 1
  { s with pool := { s.pool with nFreeBuffer } }.goto t
    (.freeEnter (BufferPool.slotIndex nFreeBuffer) p)

/-- `m_lock.Enter()`: it returns when nobody else is inside. -/
def enter (s : PoolState ι) (t : ι) (i : ℕ) (k : PoolPc) : Option (PoolState ι) :=
  if s.lock i = none then
    some ({ s with lock := Function.update s.lock i (some t) }.goto t k)
  else none

/-- `m_lock.Leave()` -/
def leave (s : PoolState ι) (t : ι) (i : ℕ) (k : PoolPc) : PoolState ι :=
  { s with lock := Function.update s.lock i none }.goto t k

/-- Assignment to `pSlot->m_pBuffer`. -/
def setSlot (s : PoolState ι) (i : ℕ) (p : Option Ptr) : PoolState ι :=
  { s with pool := { s.pool with slotBuffer := Function.update s.pool.slotBuffer i p } }

/-- Assignment to the buffer at `p`. -/
def setBuf (s : PoolState ι) (p : Ptr) (b : BGIOBuffer) : PoolState ι :=
  { s with pool := s.pool.setBuf p b }

/-- The next step of a call. -/
def next (s : PoolState ι) (t : ι) : PoolPc → Option (PoolState ι)
  | .idle => none
  | .allocEnter i => s.enter t i (.allocHead i)
  | .allocHead i =>
      match s.pool.slotBuffer i with
      | some p => some (s.goto t (.allocNext i p))
      | none => some (s.goto t (.allocLeaveNew i))
  | .allocNext i p => some (s.goto t (.allocSet i p (s.pool.heap p).pNext))
  | .allocSet i p v => some ({ s.setSlot i v with
      handed := Function.update s.handed p (s.handed p + 1) }.goto t (.allocLeave i p))
  | .allocLeave i p => some (s.leave t i (.initSize p))
  | .allocLeaveNew i => some (s.leave t i .allocNew)
  | .allocNew => some ({ s with pool := { s.pool with created := s.pool.created + 1 } }.goto t
      (.initSize s.pool.created))
  | .initSize p => some ((s.setBuf p { s.pool.heap p with dwSize := 0 }).goto t (.initRef p))
  | .initRef p => some ((s.setBuf p { s.pool.heap p with nRef := 1 }).goto t (.initNext p))
  | .initNext p =>
      some ((s.setBuf p { s.pool.heap p with pNext := none }).goto t (.allocReturn p))
  | .allocReturn p => some ({ s with
      holders := Function.update s.holders p (s.holders p + 1) }.goto t .idle)
  | .freeTest p =>
      if s.pool.nStop then
        some ({ s with pool := { s.pool with
          deleted := Function.update s.pool.deleted p true } }.goto t .idle)
      else some (s.goto t (.freeCount p))
  | .freeCount p => some (s.freeCount t p)
  | .freeEnter i p => s.enter t i (.freeLink i p)
  | .freeLink i p =>
      some ((s.setBuf p { s.pool.heap p with pNext := s.pool.slotBuffer i }).goto t (.freeHead i p))
  | .freeHead i p => some ({ s.setSlot i (some p) with
      freed := Function.update s.freed p (s.freed p + 1) }.goto t (.freeLeave i))
  | .freeLeave i => some (s.leave t i .idle)

/-- No `Alloc` has been called, and `new` will find the memory as it is in `heap`. -/
def start (ι : Type) (heap : Heap) : PoolState ι where
  pool := .start heap
  lock := fun _ => none
  pc := fun _ => .idle
  holders := fun _ => 0
  freed := fun _ => 0
  handed := fun _ => 0

end PoolState

section Steps
variable {ι : Type} [DecidableEq ι]

/-- One step of the pool. -/
def poolStep (s : PoolState ι) : PoolAct ι → Option (PoolState ι)
  | .alloc t => if s.pc t = .idle then some (s.alloc t) else none
  | .free t p =>
      if s.pc t = .idle ∧ 0 < s.holders p then
        some ({ s with holders := Function.update s.holders p (s.holders p - 1) }.goto t
          (.freeTest p))
      else none
  | .step t => s.next t (s.pc t)
  | .write p b => if 0 < s.holders p then some (s.setBuf p b) else none

end Steps

/-! ## Undisturbed calls -/

section Alone
variable {ι : Type} [DecidableEq ι] {s s' : PoolState ι} {t : ι} {k : PoolPc} {i : ℕ} {p : Ptr}

@[simp] theorem pc_goto (s : PoolState ι) (t : ι) (k : PoolPc) : (s.goto t k).pc t = k :=
  Function.update_self _ _ _

@[simp] theorem pc_leave (s : PoolState ι) (t : ι) (i : ℕ) (k : PoolPc) :
    (s.leave t i k).pc t = k :=
  Function.update_self _ _ _

/-- One more step of a call. -/
theorem runAll_step (hpc : s.pc t = k) (hnext : s.next t k = some s') (as : List (PoolAct ι)) :
    runAll poolStep s (.step t :: as) = runAll poolStep s' as := by
  rw [runAll, poolStep, hpc, hnext, Option.bind_some]

/-- A free lock is taken. -/
theorem enter_of_free (hfree : s.lock i = none) (t : ι) (k : PoolPc) : s.enter t i k =
    some ({ s with lock := Function.update s.lock i (some t) }.goto t k) :=
  if_pos hfree

/-- The list of the slot has a first buffer. -/
theorem head_of_some (hhead : s.pool.slotBuffer i = some p) :
    s.next t (.allocHead i) = some (s.goto t (.allocNext i p)) := by
  rw [PoolState.next, hhead]

/-- The list of the slot is empty. -/
theorem head_of_none (hhead : s.pool.slotBuffer i = none) :
    s.next t (.allocHead i) = some (s.goto t (.allocLeaveNew i)) := by
  rw [PoolState.next, hhead]

/-- From the first assignment to a field to the return. -/
theorem init_alone (hpc : s.pc t = .initSize p) :
    runAll poolStep s (List.replicate 4 (.step t)) = some ({ s with
      pool := s.pool.setBuf p (s.pool.heap p).init
      holders := Function.update s.holders p (s.holders p + 1) }.goto t .idle) := by
  change runAll poolStep s [.step t, .step t, .step t, .step t] = _
  rw [runAll_step hpc rfl, runAll_step (pc_goto _ _ _) rfl, runAll_step (pc_goto _ _ _) rfl,
    runAll_step (pc_goto _ _ _) rfl, runAll]
  simp only [PoolState.goto, PoolState.setBuf, BufferPool.setBuf, BGIOBuffer.init,
    Function.update_idem, Function.update_self]

/-- Undisturbed, the steps of `Alloc` are `alloc`. -/
theorem alloc_alone (hidle : s.pc t = .idle) (hfree : ∀ i, s.lock i = none) :
    ∃ n handed, runAll poolStep s (.alloc t :: List.replicate n (.step t)) =
      some { s with
        pool := s.pool.alloc.2
        holders := Function.update s.holders s.pool.alloc.1 (s.holders s.pool.alloc.1 + 1)
        handed := handed } := by
  have hpc : Function.update s.pc t .idle = s.pc := by
    rw [← hidle, Function.update_eq_self]
  have hlock : ∀ i, Function.update s.lock i none = s.lock := by
    intro i
    rw [← hfree i, Function.update_eq_self]
  have halloc : poolStep s (.alloc t) = some (s.alloc t) := if_pos hidle
  obtain ⟨i, hi⟩ : ∃ i, i = BufferPool.slotIndex (s.pool.nAllocBuffer + 1) := ⟨_, rfl⟩
  have hpc1 : (s.alloc t).pc t = .allocEnter i := by
    rw [hi]
    exact pc_goto _ _ _
  obtain ⟨c, hc⟩ : ∃ c, c = { s.alloc t with
    lock := Function.update s.lock i (some t) }.goto t (.allocHead i) := ⟨_, rfl⟩
  have henter : (s.alloc t).next t (.allocEnter i) = some c := by
    have hlock : (s.alloc t).lock i = none := hfree i
    rw [hc]
    exact enter_of_free hlock _ _
  have hpc2 : c.pc t = .allocHead i := by
    rw [hc]
    exact pc_goto _ _ _
  have hslot : c.pool.slotBuffer = s.pool.slotBuffer := by
    rw [hc]
    rfl
  cases hhead : c.pool.slotBuffer i with
  | some p =>
      refine ⟨9, Function.update s.handed p (s.handed p + 1), ?_⟩
      change runAll poolStep s (.alloc t :: .step t :: .step t :: .step t :: .step t :: .step t ::
        List.replicate 4 (.step t)) = _
      rw [runAll_cons halloc, runAll_step hpc1 henter,
        runAll_step hpc2 (head_of_some hhead), runAll_step (pc_goto _ _ _) rfl,
        runAll_step (pc_goto _ _ _) rfl, runAll_step (pc_goto _ _ _) rfl,
        init_alone (pc_leave _ _ _ _)]
      rw [hslot, hi] at hhead
      simp only [hc, hi, PoolState.goto, PoolState.alloc, PoolState.leave, PoolState.setSlot,
        BufferPool.alloc, hhead, Function.update_idem, hpc, hlock]
  | none =>
      refine ⟨8, s.handed, ?_⟩
      change runAll poolStep s (.alloc t :: .step t :: .step t :: .step t :: .step t ::
        List.replicate 4 (.step t)) = _
      rw [runAll_cons halloc, runAll_step hpc1 henter,
        runAll_step hpc2 (head_of_none hhead), runAll_step (pc_goto _ _ _) rfl,
        runAll_step (pc_leave _ _ _ _) rfl,
        init_alone (pc_goto _ _ _)]
      rw [hslot, hi] at hhead
      simp only [hc, hi, PoolState.goto, PoolState.alloc, PoolState.leave,
        BufferPool.alloc, hhead, Function.update_idem, hpc, hlock]

/-- Undisturbed, the steps of `Free` are `free`. -/
theorem free_alone (hidle : s.pc t = .idle) (hfree : ∀ i, s.lock i = none)
    (hheld : 0 < s.holders p) :
    ∃ n freed, runAll poolStep s (.free t p :: List.replicate n (.step t)) =
      some { s with
        pool := s.pool.free p
        holders := Function.update s.holders p (s.holders p - 1)
        freed := freed } := by
  have hpc : Function.update s.pc t .idle = s.pc := by
    rw [← hidle, Function.update_eq_self]
  have hlock : ∀ i, Function.update s.lock i none = s.lock := by
    intro i
    rw [← hfree i, Function.update_eq_self]
  obtain ⟨c, hc⟩ : ∃ c, c = { s with
    holders := Function.update s.holders p (s.holders p - 1) }.goto t (.freeTest p) := ⟨_, rfl⟩
  have hcall : poolStep s (.free t p) = some c := by
    rw [hc]
    exact if_pos ⟨hidle, hheld⟩
  have hpc1 : c.pc t = .freeTest p := by
    rw [hc]
    exact pc_goto _ _ _
  have hsame : c.pool = s.pool := by rw [hc]; rfl
  by_cases hstop : c.pool.nStop = true
  · refine ⟨1, s.freed, ?_⟩
    change runAll poolStep s [.free t p, .step t] = _
    rw [runAll_cons hcall, runAll_step hpc1 (if_pos hstop), runAll]
    rw [hsame] at hstop
    simp only [hc, PoolState.goto, BufferPool.free, hstop, Function.update_idem, hpc, if_true]
  · refine ⟨6, Function.update s.freed p (s.freed p + 1), ?_⟩
    change runAll poolStep s [.free t p, .step t, .step t, .step t, .step t, .step t, .step t] = _
    obtain ⟨i, hi⟩ : ∃ i, i = BufferPool.slotIndex (c.pool.nFreeBuffer - 1) := ⟨_, rfl⟩
    obtain ⟨d, hd⟩ : ∃ d, d = (c.goto t (.freeCount p)).freeCount t p := ⟨_, rfl⟩
    have hcount : (c.goto t (.freeCount p)).next t (.freeCount p) = some d := by
      rw [hd]
      rfl
    have hpc2 : d.pc t = .freeEnter i p := by
      rw [hd, hi]
      exact pc_goto _ _ _
    have henter : d.next t (.freeEnter i p) =
        some ({ d with lock := Function.update d.lock i (some t) }.goto t (.freeLink i p)) := by
      refine enter_of_free ?_ _ _
      rw [hd, hc]
      exact hfree i
    rw [runAll_cons hcall, runAll_step hpc1 (if_neg hstop),
      runAll_step (pc_goto _ _ _) hcount, runAll_step hpc2 henter,
      runAll_step (pc_goto _ _ _) rfl, runAll_step (pc_goto _ _ _) rfl,
      runAll_step (pc_goto _ _ _) rfl, runAll]
    rw [hsame] at hstop hi
    simp only [hd, hc, hi, PoolState.goto, PoolState.freeCount, PoolState.leave, PoolState.setSlot,
      PoolState.setBuf, BufferPool.free, BufferPool.setBuf, Function.update_idem, hpc, hlock,
      if_neg hstop]

end Alone

end BGIocpServer
