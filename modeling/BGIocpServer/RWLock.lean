import BGIocpServer.Kit.Packed
import BGIocpServer.Kit.Reaches
import BGIocpServer.Kit.Tally
import Mathlib.Data.Nat.ModEq

/-!
# The reader-writer lock

`BGRWLock` as atomic steps of any number of threads: the interlocked operations on
`m_nCount` and `m_nLock`, `SetEvent` and `WaitForSingleObject` on the two auto-reset
events. The spin loop of `Wait` has no effect until `m_nLock` is free, so `Enter` is
one step that is enabled only then. A thread calls `ReadUnlock` and `WriteUnlock`
only while it holds the lock.

## Main definitions

* `BGRWLock`, `RWPc`: the shared words, and where a thread is inside a call.
* `threadStep`: one atomic step of one thread, over one definition for each function.
* `RWField`, `RWPc.field`: the field of `m_nCount` in which a thread is counted.
* `LocalStep`: what one step does to the shared words, `threadStep_spec`.
-/

namespace BGIocpServer
open Kit

/-- The two events of the lock. -/
inductive RWEvent
  /-- `m_hREvent`. -/
  | read
  /-- `m_hWEvent`. -/
  | write
  deriving DecidableEq, Repr

/-- The members of `BGRWLock`. An event is `true` while it is signalled. -/
structure BGRWLock where
  nCount : BitVec 32
  nLock : Bool
  hREvent : Bool
  hWEvent : Bool
  deriving DecidableEq, Repr

namespace BGRWLock

/-- The constructor: both events are auto-reset and not signalled. -/
def new : BGRWLock := { nCount := 0, nLock := false, hREvent := false, hWEvent := false }

/-- `InterlockedExchangeAdd(&m_nCount, v)`. -/
def add (m : BGRWLock) (v : BitVec 32) : BGRWLock := { m with nCount := m.nCount + v }

/-- `Enter` returns once its `InterlockedExchange` finds `m_nLock` at 0. -/
def enter (m : BGRWLock) : Option BGRWLock :=
  if m.nLock then none else some { m with nLock := true }

-- Not by `rfl`: the kernel would compare `m.nCount + v` with `m.nCount` first.
@[simp] theorem add_hREvent (m : BGRWLock) (v : BitVec 32) : (m.add v).hREvent = m.hREvent := by
  simp only [add]

@[simp] theorem add_hWEvent (m : BGRWLock) (v : BitVec 32) : (m.add v).hWEvent = m.hWEvent := by
  simp only [add]

def leave (m : BGRWLock) : BGRWLock := { m with nLock := false }

/-- Whether the event is signalled. -/
def event (m : BGRWLock) : RWEvent → Bool
  | .read => m.hREvent
  | .write => m.hWEvent

def setEvent (m : BGRWLock) : RWEvent → BGRWLock
  | .read => { m with hREvent := true }
  | .write => { m with hWEvent := true }

/-- `WaitForSingleObject` returns when the event is signalled, and resets it. -/
def waitForSingleObject (m : BGRWLock) : RWEvent → Option BGRWLock
  | .read => if m.hREvent then some { m with hREvent := false } else none
  | .write => if m.hWEvent then some { m with hWEvent := false } else none

end BGRWLock

/-- Inside `ReadLock`, after its increment. -/
inductive ReadLockPc
  /-- At the first `Enter`. -/
  | enter
  /-- At `nCount = m_nCount`. -/
  | load
  /-- At the head of the loop, with the local `nCount`. -/
  | back (nCount : BitVec 32)
  /-- At `Leave`, before a wait for the event; `wake` if `SetEvent(m_hWEvent)` follows. -/
  | leave (e : RWEvent) (wake : Bool)
  /-- At `SetEvent(m_hWEvent)`. -/
  | set (e : RWEvent)
  /-- At `WaitForSingleObject`. -/
  | wait (e : RWEvent)
  /-- At the `Enter` after the wait. -/
  | enterAgain (e : RWEvent)
  /-- At the addition that undoes the back-off. -/
  | retry (e : RWEvent)
  /-- Past the loop, at the last `Leave`. -/
  | done (nCount : BitVec 32)
  /-- At `SetEvent(m_hREvent)`. -/
  | setRead
  deriving DecidableEq, Repr

/-- Inside `WriteLock`, after its addition. -/
inductive WriteLockPc
  /-- At the first `Enter`. -/
  | enter
  /-- At the head of the loop. -/
  | back
  /-- At `Leave`, before the wait; `wake` if `SetEvent(m_hWEvent)` follows. -/
  | leave (wake : Bool)
  /-- At `SetEvent(m_hWEvent)`. -/
  | set
  /-- At `WaitForSingleObject`. -/
  | wait
  /-- At the `Enter` after the wait. -/
  | enterAgain
  /-- At the addition that undoes the back-off. -/
  | retry
  /-- Past the loop, at the last `Leave`. -/
  | done
  deriving DecidableEq, Repr

/-- Where a thread is. -/
inductive RWPc
  /-- Outside every call, without the lock. -/
  | idle
  /-- Outside every call, after `ReadLock`. -/
  | reading
  /-- Outside every call, after `WriteLock` or a successful `WriteTryLock`. -/
  | writing
  | readLock (k : ReadLockPc)
  | writeLock (k : WriteLockPc)
  /-- At `SetEvent` in `ReadUnlock`. -/
  | readUnlock
  /-- At `SetEvent` in `WriteUnlock`. -/
  | writeUnlock
  /-- At the second addition of `WriteTryLock`. -/
  | writeTryLock
  deriving DecidableEq, Repr

/-- What a thread does next: a call it starts, or the next step of the one it is in. -/
inductive RWCall
  | readLock
  | readUnlock
  | writeLock
  | writeUnlock
  | writeTryLock
  | next
  deriving DecidableEq, Repr

/-- `(short)nCount`. -/
def short (n : BitVec 32) : BitVec 16 := n.setWidth 16

namespace BGRWLock

/-- What a reader that waits for the event adds to `m_nCount` in place of its 1. -/
def readerUnit : RWEvent → BitVec 32
  | .read => 0x10000#32
  | .write => 0x80000000#32

/-- `ReadLock` up to its first test. -/
def readLock (m : BGRWLock) : BGRWLock × RWPc :=
  let m := m.add 1
  if m.nCount &&& 0xff00#32 ≠ 0 then (m, .readLock .enter) else (m, .reading)

/-- The steps of `ReadLock` after its first test. -/
def readLockNext (m : BGRWLock) : ReadLockPc → Option (BGRWLock × RWPc)
  | .enter => m.enter.map fun m => (m, .readLock .load)
  | .load => some (m, .readLock (.back m.nCount))
  | .back nCount =>
      let e := if 0 ≤ nCount.toInt then .write else .read
      let m := m.add (readerUnit e - 1)
      some (m, .readLock (.leave e (short m.nCount = 0)))
  | .leave e wake => some (m.leave, .readLock (if wake then .set e else .wait e))
  | .set e => some (m.setEvent .write, .readLock (.wait e))
  | .wait e => (m.waitForSingleObject e).map fun m => (m, .readLock (.enterAgain e))
  | .enterAgain e => m.enter.map fun m => (m, .readLock (.retry e))
  | .retry e =>
      let m := m.add (-readerUnit e + 1)
      some (m, .readLock (if m.nCount &&& 0xff00#32 ≠ 0 then .back m.nCount else .done m.nCount))
  | .done nCount =>
      some (m.leave, if nCount &&& 0xff0000#32 ≠ 0 then .readLock .setRead else .reading)
  | .setRead => some (m.setEvent .read, .reading)

/-- The test of both unlock functions: nobody holds or tries, and a thread waits for
`m_hWEvent`. -/
def mustWake (n : BitVec 32) : Prop := short n = 0 ∧ n &&& 0xff000000#32 ≠ 0

instance (n : BitVec 32) : Decidable (mustWake n) := inferInstanceAs (Decidable (_ ∧ _))

/-- `ReadUnlock` up to its `SetEvent`. -/
def readUnlock (m : BGRWLock) : BGRWLock × RWPc :=
  let m := m.add (-1)
  (m, if mustWake m.nCount then .readUnlock else .idle)

/-- `WriteLock` up to its first test, which reads the value before the addition. -/
def writeLock (m : BGRWLock) : BGRWLock × RWPc :=
  (m.add 0x100#32, if short m.nCount ≠ 0 then .writeLock .enter else .writing)

/-- The steps of `WriteLock` after its first test. -/
def writeLockNext (m : BGRWLock) : WriteLockPc → Option (BGRWLock × RWPc)
  | .enter => m.enter.map fun m => (m, .writeLock .back)
  | .back =>
      let m := m.add (0x1000000#32 - 0x100#32)
      some (m, .writeLock (.leave (short m.nCount = 0)))
  | .leave wake => some (m.leave, .writeLock (if wake then .set else .wait))
  | .set => some (m.setEvent .write, .writeLock .wait)
  | .wait => (m.waitForSingleObject .write).map fun m => (m, .writeLock .enterAgain)
  | .enterAgain => m.enter.map fun m => (m, .writeLock .retry)
  | .retry =>
      -- unlike the retry of `ReadLock`, the loop tests the value before the addition
      some (m.add (-0x1000000#32 + 0x100#32),
        .writeLock (if short m.nCount ≠ 0 then .back else .done))
  | .done => some (m.leave, .writing)

/-- `WriteUnlock` up to its `SetEvent`. -/
def writeUnlock (m : BGRWLock) : BGRWLock × RWPc :=
  let m := m.add (-0x100#32)
  (m, if mustWake m.nCount then .writeUnlock else .idle)

/-- `WriteTryLock` up to its test. -/
def writeTryLock (m : BGRWLock) : BGRWLock × RWPc :=
  (m.add 0x100#32, if short m.nCount ≠ 0 then .writeTryLock else .writing)

end BGRWLock

/-- One atomic step of a thread. -/
def threadStep (m : BGRWLock) : RWCall → RWPc → Option (BGRWLock × RWPc)
  | .readLock, .idle => some m.readLock
  | .writeLock, .idle => some m.writeLock
  | .writeTryLock, .idle => some m.writeTryLock
  | .readUnlock, .reading => some m.readUnlock
  | .writeUnlock, .writing => some m.writeUnlock
  | .next, .readLock k => m.readLockNext k
  | .next, .writeLock k => m.writeLockNext k
  | .next, .readUnlock => some (m.setEvent .read, .idle)
  | .next, .writeUnlock => some (m.setEvent .write, .idle)
  | .next, .writeTryLock => some (m.add (-0x100#32), .idle)
  | _, _ => none

/-- The lock and the threads that use it. -/
structure RWSystem (ι : Type) where
  lock : BGRWLock
  pc : ι → RWPc

/-- The steps: a thread moves, or an event is signalled from nowhere. -/
inductive RWAct (ι : Type)
  | thread (t : ι) (call : RWCall)
  | signal (e : RWEvent)

section System
variable {ι : Type} [DecidableEq ι]

/-- A new lock, and no thread in a call. -/
def RWSystem.start : RWSystem ι := { lock := .new, pc := fun _ => .idle }

/-- One step of the system. -/
def rwStep (s : RWSystem ι) : RWAct ι → Option (RWSystem ι)
  | .thread t call => (threadStep s.lock call (s.pc t)).map fun r =>
      { lock := r.1, pc := Function.update s.pc t r.2 }
  | .signal e => some { s with lock := s.lock.setEvent e }

end System

/-! ## Program points -/

/-- The fields of `m_nCount`. -/
inductive RWField
  /-- The low byte. -/
  | readers
  /-- The second byte. -/
  | writers
  /-- The third byte. -/
  | waitingReaders
  /-- Bits 24 to 30. -/
  | waitingWriters
  /-- The sign bit. -/
  | firstReader
  deriving DecidableEq, Repr

/-- What one thread adds to `m_nCount`. -/
def RWField.unit : RWField → ℕ
  | .readers => 0x1
  | .writers => 0x100
  | .waitingReaders => 0x10000
  | .waitingWriters => 0x1000000
  | .firstReader => 0x80000000

/-- The field of a reader that waits for the event. -/
def RWEvent.readerField : RWEvent → RWField
  | .read => .waitingReaders
  | .write => .firstReader

/-- Inside `ReadLock`: the field in which the thread is counted. -/
def ReadLockPc.field : ReadLockPc → RWField
  | .enter | .load | .back _ | .done _ | .setRead => .readers
  | .leave e _ | .set e | .wait e | .enterAgain e | .retry e => e.readerField

/-- Inside `WriteLock`: the field in which the thread is counted. -/
def WriteLockPc.field : WriteLockPc → RWField
  | .enter | .back | .done => .writers
  | .leave _ | .set | .wait | .enterAgain | .retry => .waitingWriters

/-- Inside `ReadLock`, between `Enter` and `Leave`. -/
def ReadLockPc.isInside : ReadLockPc → Bool
  | .load | .back _ | .leave _ _ | .retry _ | .done _ => true
  | .enter | .set _ | .wait _ | .enterAgain _ | .setRead => false

/-- Inside `WriteLock`, between `Enter` and `Leave`. -/
def WriteLockPc.isInside : WriteLockPc → Bool
  | .back | .leave _ | .retry | .done => true
  | .enter | .set | .wait | .enterAgain => false

/-- The local `nCount` of `ReadLock`, where it is used. -/
def ReadLockPc.seen : ReadLockPc → Option (BitVec 32)
  | .back n | .done n => some n
  | .enter | .load | .leave _ _ | .set _ | .wait _ | .enterAgain _ | .retry _ | .setRead => none

/-- `ReadLock` has the lock and is about to return. -/
def ReadLockPc.granted : ReadLockPc → Bool
  | .done _ | .setRead => true
  | .enter | .load | .back _ | .leave _ _ | .set _ | .wait _ | .enterAgain _ | .retry _ => false

namespace RWPc

/-- The field in which a thread is counted. -/
def field : RWPc → Option RWField
  | .idle | .readUnlock | .writeUnlock => none
  | .reading => some .readers
  | .readLock k => some k.field
  | .writing | .writeTryLock => some .writers
  | .writeLock k => some k.field

/-- Between `Enter` and `Leave`. -/
def isInside : RWPc → Bool
  | .readLock k => k.isInside
  | .writeLock k => k.isInside
  | .idle | .reading | .writing | .readUnlock | .writeUnlock | .writeTryLock => false

/-- The local `nCount` of `ReadLock`, where it is used. -/
def seen : RWPc → Option (BitVec 32)
  | .readLock k => k.seen
  | .idle | .reading | .writing | .writeLock _ | .readUnlock | .writeUnlock
  | .writeTryLock => none

/-- From the step that grants the lock to a reader to the one that gives it back. -/
def holdsRead : RWPc → Bool
  | .reading => true
  | .readLock k => k.granted
  | .idle | .writing | .writeLock _ | .readUnlock | .writeUnlock | .writeTryLock => false

/-- From the step that grants the lock to a writer to the one that gives it back. -/
def holdsWrite : RWPc → Bool
  | .writing => true
  | .writeLock k => k = .done
  | .idle | .reading | .readLock _ | .readUnlock | .writeUnlock | .writeTryLock => false

/-- What the thread adds to `m_nCount`. -/
def weight (k : RWPc) : ℕ := k.field.elim 0 RWField.unit

/-- What it adds to the low half, the threads that hold or try. -/
def loWeight (k : RWPc) : ℕ := k.weight % 2 ^ 16

/-- What it adds to the high half, the threads that wait. -/
def hiWeight (k : RWPc) : ℕ := k.weight / 2 ^ 16

end RWPc

/-! ## What one step does -/

/-- What a step of one thread from `k` to `k'` does to the shared words. The first
three say that the word, the mutex and the high half change by what the thread adds to
them; the others say what the thread knows when it waits or is granted the lock. -/
structure LocalStep (m : BGRWLock) (k : RWPc) (m' : BGRWLock) (k' : RWPc) : Prop where
  word : m'.nCount.toNat + k.weight ≡ m.nCount.toNat + k'.weight [MOD 2 ^ 32]
  mutex : m'.nLock.toNat + k.isInside.toNat = m.nLock.toNat + k'.isInside.toNat
  hiWeight_eq : k.isInside = false → k'.hiWeight = k.hiWeight
  seen_eq : ∀ n ∈ k'.seen, n = m'.nCount
  firstReader : k'.field = some .firstReader →
    k.field = some .firstReader ∨ ∃ n ∈ k.seen, 0 ≤ n.toInt
  holdsWrite : k'.holdsWrite = true →
    k.holdsWrite = true ∨ short m.nCount = 0 ∧ k.loWeight = 0
  holdsRead : k'.holdsRead = true →
    k.holdsRead = true ∨ m'.nCount &&& 0xff00#32 = 0

section LocalSteps
variable {m m' : BGRWLock} {k k' : RWPc} {v : BitVec 32} {e : RWEvent}

/-- An interlocked addition on `m_nCount`. -/
theorem LocalStep.of_add (hv : (v.toNat + k.weight) % 2 ^ 32 = k'.weight)
    (hin : k'.isInside = k.isInside) (hhi : k.isInside = false → k'.hiWeight = k.hiWeight)
    (hseen : ∀ n ∈ k'.seen, n = (m.add v).nCount)
    (hfirst : k'.field = some .firstReader →
      k.field = some .firstReader ∨ ∃ n ∈ k.seen, 0 ≤ n.toInt)
    (hwrite : k'.holdsWrite = true → short m.nCount = 0 ∧ k.loWeight = 0)
    (hread : k'.holdsRead = true → (m.add v).nCount &&& 0xff00#32 = 0) :
    LocalStep m k (m.add v) k' where
  word := by
    simp only [BGRWLock.add, BitVec.toNat_add, Nat.ModEq]
    omega
  mutex := by rw [hin]; rfl
  hiWeight_eq := hhi
  seen_eq := hseen
  firstReader := hfirst
  holdsWrite h := .inr (hwrite h)
  holdsRead h := .inr (hread h)

/-- A step that leaves `m_nCount` alone. -/
theorem LocalStep.of_same (hcount : m'.nCount = m.nCount)
    (hmutex : m'.nLock.toNat + k.isInside.toNat = m.nLock.toNat + k'.isInside.toNat)
    (hfield : k'.field = k.field) (hseen : ∀ n ∈ k'.seen, n = m.nCount)
    (hwrite : k'.holdsWrite = true → k.holdsWrite = true)
    (hread : k'.holdsRead = true → k.holdsRead = true) : LocalStep m k m' k' where
  word := by rw [hcount, RWPc.weight, RWPc.weight, hfield]
  mutex := hmutex
  hiWeight_eq _ := by rw [RWPc.hiWeight, RWPc.hiWeight, RWPc.weight, RWPc.weight, hfield]
  seen_eq n hn := by rw [hcount, hseen n hn]
  firstReader h := .inl (hfield ▸ h)
  holdsWrite h := .inl (hwrite h)
  holdsRead h := .inl (hread h)

attribute [local simp] RWPc.weight RWPc.field ReadLockPc.field WriteLockPc.field RWField.unit
  RWPc.isInside ReadLockPc.isInside WriteLockPc.isInside RWPc.loWeight RWPc.hiWeight RWPc.seen
  ReadLockPc.seen RWPc.holdsRead ReadLockPc.granted RWPc.holdsWrite BGRWLock.leave

theorem readLock_spec (h : m.readLock = (m', k')) : LocalStep m .idle m' k' := by
  simp only [BGRWLock.readLock] at h
  split at h
  · cases h
    apply LocalStep.of_add <;> simp
  · rename_i hfree
    cases h
    apply LocalStep.of_add <;> simp_all

theorem readUnlock_spec (h : m.readUnlock = (m', k')) : LocalStep m .reading m' k' := by
  simp only [BGRWLock.readUnlock, Prod.mk.injEq] at h
  obtain ⟨rfl, rfl⟩ := h
  split <;> apply LocalStep.of_add <;> simp

theorem writeLock_spec (h : m.writeLock = (m', k')) : LocalStep m .idle m' k' := by
  cases h
  split
  · apply LocalStep.of_add <;> simp
  · apply LocalStep.of_add <;> simp_all

theorem writeUnlock_spec (h : m.writeUnlock = (m', k')) : LocalStep m .writing m' k' := by
  simp only [BGRWLock.writeUnlock, Prod.mk.injEq] at h
  obtain ⟨rfl, rfl⟩ := h
  split <;> apply LocalStep.of_add <;> simp

theorem writeTryLock_spec (h : m.writeTryLock = (m', k')) : LocalStep m .idle m' k' := by
  cases h
  split
  · apply LocalStep.of_add <;> simp
  · apply LocalStep.of_add <;> simp_all

/-- `Enter` takes the lock when it is free, and changes nothing else. -/
theorem enter_eq (h : m.enter = some m') : m.nLock = false ∧ m' = { m with nLock := true } := by
  simp only [BGRWLock.enter, Option.ite_none_left_eq_some, Bool.not_eq_true, Option.some.injEq] at h
  exact ⟨h.1, h.2.symm⟩

theorem enter_spec (h : m.enter = some m') :
    m'.nCount = m.nCount ∧ m.nLock = false ∧ m'.nLock = true := by
  obtain ⟨hfree, rfl⟩ := enter_eq h
  exact ⟨rfl, hfree, rfl⟩

@[simp] theorem setEvent_nCount : (m.setEvent e).nCount = m.nCount := by cases e <;> rfl

@[simp] theorem setEvent_nLock : (m.setEvent e).nLock = m.nLock := by cases e <;> rfl

theorem waitForSingleObject_spec (h : m.waitForSingleObject e = some m') :
    m'.nCount = m.nCount ∧ m'.nLock = m.nLock := by
  cases e <;> simp only [BGRWLock.waitForSingleObject] at h <;> split at h <;>
    simp_all <;> cases h <;> simp

theorem LocalStep.of_enter (h : m.enter = some m') (hin : k.isInside = false)
    (hin' : k'.isInside = true) (hfield : k'.field = k.field) (hseen : k'.seen = none)
    (hwrite : k'.holdsWrite = false) (hread : k'.holdsRead = false) : LocalStep m k m' k' := by
  obtain ⟨hcount, hfree, htaken⟩ := enter_spec h
  apply LocalStep.of_same hcount <;> simp_all

theorem LocalStep.of_wait (h : m.waitForSingleObject e = some m') (hin : k'.isInside = k.isInside)
    (hfield : k'.field = k.field) (hseen : k'.seen = none)
    (hwrite : k'.holdsWrite = false) (hread : k'.holdsRead = false) : LocalStep m k m' k' := by
  obtain ⟨hcount, hlock⟩ := waitForSingleObject_spec h
  apply LocalStep.of_same hcount <;> simp_all

theorem LocalStep.of_leave (hlock : m.nLock = true) (hin : k.isInside = true)
    (hin' : k'.isInside = false) (hfield : k'.field = k.field) (hseen : k'.seen = none)
    (hwrite : k'.holdsWrite = true → k.holdsWrite = true)
    (hread : k'.holdsRead = true → k.holdsRead = true) : LocalStep m k m.leave k' := by
  apply LocalStep.of_same <;> simp_all

/-- A reader that starts to wait is counted by the unit of its event. -/
theorem readerUnit_back (e : RWEvent) :
    ((BGRWLock.readerUnit e - 1).toNat + 1) % 2 ^ 32 = e.readerField.unit := by
  cases e <;> decide

/-- A reader that tries again is counted by 1. -/
theorem readerUnit_retry (e : RWEvent) :
    ((-BGRWLock.readerUnit e + 1).toNat + e.readerField.unit) % 2 ^ 32 = 1 := by
  cases e <;> decide

theorem readLockNext_spec {k : ReadLockPc} (hlock : k.isInside = true → m.nLock = true)
    (h : m.readLockNext k = some (m', k')) : LocalStep m (.readLock k) m' k' := by
  cases k with
  | enter =>
      simp only [BGRWLock.readLockNext, Option.map_eq_some_iff] at h
      obtain ⟨_, henter, heq⟩ := h
      cases heq
      apply LocalStep.of_enter henter <;> rfl
  | load =>
      cases h
      apply LocalStep.of_same <;> simp
  | back n =>
      simp only [BGRWLock.readLockNext, Option.some.injEq, Prod.mk.injEq] at h
      obtain ⟨rfl, rfl⟩ := h
      apply LocalStep.of_add (readerUnit_back _) <;> simp
      split <;> simp_all [RWEvent.readerField]
  | leave e wake =>
      simp only [BGRWLock.readLockNext, Option.some.injEq, Prod.mk.injEq] at h
      obtain ⟨rfl, rfl⟩ := h
      split <;> apply LocalStep.of_leave (hlock rfl) <;> simp
  | set e =>
      cases h
      apply LocalStep.of_same <;> simp
  | wait e =>
      simp only [BGRWLock.readLockNext, Option.map_eq_some_iff] at h
      obtain ⟨_, hwait, heq⟩ := h
      cases heq
      apply LocalStep.of_wait hwait <;> rfl
  | enterAgain e =>
      simp only [BGRWLock.readLockNext, Option.map_eq_some_iff] at h
      obtain ⟨_, henter, heq⟩ := h
      cases heq
      apply LocalStep.of_enter henter <;> rfl
  | retry e =>
      simp only [BGRWLock.readLockNext, Option.some.injEq, Prod.mk.injEq] at h
      obtain ⟨rfl, rfl⟩ := h
      split
      · apply LocalStep.of_add (readerUnit_retry e) <;> simp
      · apply LocalStep.of_add (readerUnit_retry e) <;> simp_all
  | done n =>
      simp only [BGRWLock.readLockNext, Option.some.injEq, Prod.mk.injEq] at h
      obtain ⟨rfl, rfl⟩ := h
      split <;> apply LocalStep.of_leave (hlock rfl) <;> simp
  | setRead =>
      cases h
      apply LocalStep.of_same <;> simp

theorem writeLockNext_spec {k : WriteLockPc} (hlock : k.isInside = true → m.nLock = true)
    (h : m.writeLockNext k = some (m', k')) : LocalStep m (.writeLock k) m' k' := by
  cases k with
  | enter =>
      simp only [BGRWLock.writeLockNext, Option.map_eq_some_iff] at h
      obtain ⟨_, henter, heq⟩ := h
      cases heq
      apply LocalStep.of_enter henter <;> rfl
  | back =>
      simp only [BGRWLock.writeLockNext, Option.some.injEq, Prod.mk.injEq] at h
      obtain ⟨rfl, rfl⟩ := h
      apply LocalStep.of_add <;> simp
  | leave wake =>
      simp only [BGRWLock.writeLockNext, Option.some.injEq, Prod.mk.injEq] at h
      obtain ⟨rfl, rfl⟩ := h
      split <;> apply LocalStep.of_leave (hlock rfl) <;> simp
  | set =>
      cases h
      apply LocalStep.of_same <;> simp
  | wait =>
      simp only [BGRWLock.writeLockNext, Option.map_eq_some_iff] at h
      obtain ⟨_, hwait, heq⟩ := h
      cases heq
      apply LocalStep.of_wait hwait <;> rfl
  | enterAgain =>
      simp only [BGRWLock.writeLockNext, Option.map_eq_some_iff] at h
      obtain ⟨_, henter, heq⟩ := h
      cases heq
      apply LocalStep.of_enter henter <;> rfl
  | retry =>
      simp only [BGRWLock.writeLockNext, Option.some.injEq, Prod.mk.injEq] at h
      obtain ⟨rfl, rfl⟩ := h
      split
      · apply LocalStep.of_add <;> simp
      · apply LocalStep.of_add <;> simp_all
  | done =>
      simp only [BGRWLock.writeLockNext, Option.some.injEq, Prod.mk.injEq] at h
      obtain ⟨rfl, rfl⟩ := h
      apply LocalStep.of_leave (hlock rfl) <;> simp

/-- **Every step of a thread is a `LocalStep`.** -/
theorem threadStep_spec {call : RWCall} (hlock : k.isInside = true → m.nLock = true)
    (h : threadStep m call k = some (m', k')) : LocalStep m k m' k' := by
  cases k with
  | idle =>
      cases call <;> simp only [threadStep, Option.some.injEq, reduceCtorEq] at h
      · exact readLock_spec h
      · exact writeLock_spec h
      · exact writeTryLock_spec h
  | reading =>
      cases call <;> simp only [threadStep, Option.some.injEq, reduceCtorEq] at h
      exact readUnlock_spec h
  | writing =>
      cases call <;> simp only [threadStep, Option.some.injEq, reduceCtorEq] at h
      exact writeUnlock_spec h
  | readLock k =>
      cases call <;> simp only [threadStep, reduceCtorEq] at h
      exact readLockNext_spec hlock h
  | writeLock k =>
      cases call <;> simp only [threadStep, reduceCtorEq] at h
      exact writeLockNext_spec hlock h
  | readUnlock | writeUnlock =>
      cases call <;> simp only [threadStep, Option.some.injEq, reduceCtorEq] at h
      cases h
      apply LocalStep.of_same <;> simp
  | writeTryLock =>
      cases call <;> simp only [threadStep, Option.some.injEq, Prod.mk.injEq, reduceCtorEq] at h
      obtain ⟨rfl, rfl⟩ := h
      apply LocalStep.of_add <;> simp

end LocalSteps

end BGIocpServer
