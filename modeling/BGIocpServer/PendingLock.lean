import BGIocpServer.LockInfo
import Mathlib.Data.List.Basic

/-!
# The count of a thread's locks

`m_dwPendingLock` of one thread, over its calls on any locks of the three classes: an
acquiring call counts when it starts, and a release counts down before it lets go. Only
the thread itself writes its counter. Whether a lock is free, and so how long a wait is
and whether a try succeeds, is left open.

`TryEnter` and `WriteTryLock` do not count a lock that they take, and the release of such
a lock counts down like any other.

## Main definitions

* `LockHold`: how a lock is held, with the functions that take it and give it up.
* `LockUser`, `LockUse`, `lockUse`: a thread, its locks and its calls.
* `LockUser.Exact`: the counter is the number of the locks.

## Main results

* `exact_throughout_iff`: when the counter is exact all along a run.
-/

namespace BGIocpServer
open Kit

/-- How a thread holds a lock. -/
inductive LockHold
  /-- Inside a `BGIOSpinLock`. -/
  | spin
  /-- Inside a `BGIOCriticalSection`. -/
  | criticalSection
  /-- A `BGRWLock`, for reading. -/
  | read
  /-- A `BGRWLock`, for writing. -/
  | write
  deriving DecidableEq, Repr

namespace BGLockInfo

/-- What `Enter` of `BGIOSpinLock` and of `BGIOCriticalSection`, `ReadLock` and `WriteLock`
do to the caller's words before they wait. -/
def acquire (info : BGLockInfo) (now : BitVec 64) : LockHold → BGLockInfo
  | .spin => (info.exchangeTicks now).incPendingLock
  | .criticalSection => (info.exchangeTicks now).incPendingLock
  | .read => (info.exchangeTicks now).incPendingLock
  | .write => (info.exchangeTicks now).incPendingLock

/-- What the two `TryEnter` and `WriteTryLock` do to them, where they succeed: there is no
call of `IncPendingLock`. A lock cannot be tried for reading. -/
def tryAcquire (info : BGLockInfo) : LockHold → Option BGLockInfo
  | .spin => some info
  | .criticalSection => some info
  | .read => none
  | .write => some info

/-- What the two `Leave`, `ReadUnlock` and `WriteUnlock` do to them. -/
def giveUp (info : BGLockInfo) : LockHold → BGLockInfo
  | .spin => info.decPendingLock
  | .criticalSection => info.decPendingLock
  | .read => info.decPendingLock
  | .write => info.decPendingLock

theorem acquire_eq (info : BGLockInfo) (now : BitVec 64) (hold : LockHold) :
    info.acquire now hold = (info.exchangeTicks now).incPendingLock := by
  cases hold <;> rfl

theorem giveUp_eq (info : BGLockInfo) (hold : LockHold) :
    info.giveUp hold = info.decPendingLock := by
  cases hold <;> rfl

theorem eq_of_tryAcquire {info info' : BGLockInfo} {hold : LockHold}
    (h : info.tryAcquire hold = some info') : info' = info := by
  cases hold with
  | read => simp [tryAcquire] at h
  | spin | criticalSection | write => exact (Option.some.inj h).symm

end BGLockInfo

/-- A thread with its locks. -/
structure LockUser (ι : Type) where
  info : BGLockInfo
  /-- The locks that the thread holds. A recursive one is listed once for each `Enter`. -/
  held : List (ι × LockHold)
  /-- The lock that it waits for. -/
  waiting : Option (ι × LockHold)

/-- What the thread does. -/
inductive LockUse (ι : Type)
  /-- `Enter`, `ReadLock` or `WriteLock`, up to its wait. -/
  | acquire (lock : ι) (hold : LockHold) (now : BitVec 64)
  /-- The wait is over and the call returns. -/
  | acquired
  /-- `TryEnter` or `WriteTryLock`. -/
  | tryAcquire (lock : ι) (hold : LockHold) (success : Bool)
  /-- `Leave`, `ReadUnlock` or `WriteUnlock` of a lock that is held so. -/
  | giveUp (lock : ι) (hold : LockHold)
  deriving DecidableEq

namespace LockUser
variable {ι : Type}

/-- A thread that holds nothing. -/
def start (ι : Type) : LockUser ι := ⟨.new, [], none⟩

/-- How many locks the thread holds or waits for. -/
def locks (s : LockUser ι) : ℕ := s.held.length + s.waiting.toList.length

/-- The counter is the number of locks that the thread holds or waits for. -/
def Exact (s : LockUser ι) : Prop := s.info.dwPendingLock.toNat = s.locks

instance (s : LockUser ι) : Decidable s.Exact := inferInstanceAs (Decidable (_ = _))

end LockUser

/-- One call, or the end of a wait. A thread that waits does nothing else. -/
def lockUse {ι : Type} [DecidableEq ι] (s : LockUser ι) : LockUse ι → Option (LockUser ι)
  | .acquire lock hold now =>
      match s.waiting with
      | none => some { s with info := s.info.acquire now hold, waiting := some (lock, hold) }
      | some _ => none
  | .acquired =>
      match s.waiting with
      | none => none
      | some l => some { s with held := l :: s.held, waiting := none }
  | .tryAcquire lock hold success =>
      match s.waiting with
      | none =>
          (s.info.tryAcquire hold).map fun info =>
            if success then { s with info := info, held := (lock, hold) :: s.held } else s
      | some _ => none
  | .giveUp lock hold =>
      if s.waiting = none ∧ (lock, hold) ∈ s.held then
        some { s with info := s.info.giveUp hold, held := s.held.erase (lock, hold) }
      else none

/-- The call takes a lock by trying, or makes the locks too many for the counter. -/
def LockUse.Miscounts {ι : Type} (s : LockUser ι) : LockUse ι → Prop
  | .acquire _ _ _ => s.locks + 1 = 2 ^ 32
  | .acquired => False
  | .tryAcquire _ _ success => success = true
  | .giveUp _ _ => False

instance {ι : Type} (s : LockUser ι) (a : LockUse ι) : Decidable (a.Miscounts s) :=
  match a with
  | .acquire _ _ _ => inferInstanceAs (Decidable (_ = _))
  | .tryAcquire _ _ _ => inferInstanceAs (Decidable (_ = _))
  | .acquired | .giveUp _ _ => isFalse not_false

namespace LockUser
variable {ι : Type} [DecidableEq ι] {s s' : LockUser ι} {lock : ι} {hold : LockHold}

/-- A call that counts and waits. -/
theorem exact_acquire_iff {now : BitVec 64} (h : s.Exact)
    (hs : lockUse s (.acquire lock hold now) = some s') :
    s'.Exact ↔ s.locks + 1 ≠ 2 ^ 32 := by
  cases hwait : s.waiting with
  | some l => simp [lockUse, hwait] at hs
  | none =>
      simp only [lockUse, hwait, Option.some.injEq] at hs
      subst hs
      have hcount : s.info.dwPendingLock.toNat = s.locks := h
      have hlt := s.info.dwPendingLock.isLt
      simp only [locks, hwait, Option.toList_none, List.length_nil, Nat.add_zero] at hcount ⊢
      simp only [Exact, locks, BGLockInfo.acquire_eq, BGLockInfo.incPendingLock,
        BGLockInfo.exchangeTicks, Option.toList_some, List.length_singleton, BitVec.toNat_add]
      change (s.info.dwPendingLock.toNat + 1) % 2 ^ 32 = _ ↔ _
      omega

/-- The end of a wait. -/
theorem exact_acquired (h : s.Exact) (hs : lockUse s .acquired = some s') : s'.Exact := by
  cases hwait : s.waiting with
  | none => simp [lockUse, hwait] at hs
  | some l =>
      simp only [lockUse, hwait, Option.some.injEq] at hs
      subst hs
      have hcount : s.info.dwPendingLock.toNat = s.locks := h
      simp only [locks, hwait, Option.toList_some, List.length_singleton] at hcount
      simpa [Exact, locks] using hcount

/-- A try that succeeds is not counted. -/
theorem exact_tryAcquire_iff {success : Bool} (h : s.Exact)
    (hs : lockUse s (.tryAcquire lock hold success) = some s') :
    s'.Exact ↔ success ≠ true := by
  cases hwait : s.waiting with
  | some l => simp [lockUse, hwait] at hs
  | none =>
      simp only [lockUse, hwait, Option.map_eq_some_iff] at hs
      obtain ⟨info, hinfo, hs⟩ := hs
      obtain rfl := BGLockInfo.eq_of_tryAcquire hinfo
      have hcount : s.info.dwPendingLock.toNat = s.locks := h
      cases success with
      | false =>
          obtain rfl : s = s' := by simpa using hs
          exact iff_of_true h (by simp)
      | true =>
          rw [if_pos rfl] at hs
          subst hs
          refine iff_of_false (fun hexact => ?_) (by simp)
          have hmore : s.info.dwPendingLock.toNat = s.locks + 1 := by
            simpa [Exact, locks, hwait] using hexact
          omega

/-- A release of a lock that is counted. -/
theorem exact_giveUp (h : s.Exact) (hs : lockUse s (.giveUp lock hold) = some s') :
    s'.Exact := by
  simp only [lockUse, Option.ite_none_right_eq_some, Option.some.injEq] at hs
  obtain ⟨⟨hwait, hmem⟩, rfl⟩ := hs
  have hcount : s.info.dwPendingLock.toNat = s.locks := h
  have hpos := List.length_pos_of_mem hmem
  have hlt := s.info.dwPendingLock.isLt
  simp only [locks, hwait, Option.toList_none, List.length_nil, Nat.add_zero] at hcount
  simp only [Exact, locks, hwait, BGLockInfo.giveUp_eq, BGLockInfo.decPendingLock,
    Option.toList_none, List.length_nil, Nat.add_zero, List.length_erase_of_mem hmem,
    BitVec.toNat_sub]
  change (2 ^ 32 - 1 + s.info.dwPendingLock.toNat) % 2 ^ 32 = _
  omega

/-- One call of a thread whose counter is exact. -/
theorem exact_step_iff {a : LockUse ι} (h : s.Exact) (hs : lockUse s a = some s') :
    s'.Exact ↔ ¬a.Miscounts s := by
  cases a with
  | acquire lock hold now => exact exact_acquire_iff h hs
  | acquired => exact iff_of_true (exact_acquired h hs) not_false
  | tryAcquire lock hold success => exact exact_tryAcquire_iff h hs
  | giveUp lock hold => exact iff_of_true (exact_giveUp h hs) not_false

/-- **The counter is exact all along a run if and only if no try takes a lock in it and the
locks never get too many for the counter.** -/
theorem exact_throughout_iff {uses : List (LockUse ι)}
    (hrun : runAll lockUse (.start ι) uses = some s) :
    Throughout lockUse Exact (.start ι) uses ↔
      ∀ p ∈ visited lockUse (.start ι) uses, ¬p.2.Miscounts p.1 :=
  throughout_iff (fun _ _ _ h hs => exact_step_iff h hs) rfl hrun

/-- Two nested locks, and a try that fails. -/
theorem exact_throughout_iff_nested : Throughout lockUse Exact (.start ℕ)
    [.acquire 0 .spin 5, .acquired, .tryAcquire 1 .write false, .acquire 1 .read 6, .acquired,
      .giveUp 0 .spin, .giveUp 1 .read] := by
  obtain ⟨s, hrun⟩ : ∃ s, runAll lockUse (.start ℕ)
      [.acquire 0 .spin 5, .acquired, .tryAcquire 1 .write false, .acquire 1 .read 6, .acquired,
        .giveUp 0 .spin, .giveUp 1 .read] = some s := ⟨_, rfl⟩
  exact (exact_throughout_iff hrun).2 (by decide)

/-- After `TryEnter` and `Leave` of one lock, the counter of a thread that holds nothing is
the largest there is. -/
theorem not_exact_throughout_try : ∃ s,
    runAll lockUse (.start ℕ) [.tryAcquire 0 .spin true, .giveUp 0 .spin] = some s ∧
      s.locks = 0 ∧ s.info.dwPendingLock = 0xffffffff#32 ∧
      ¬Throughout lockUse Exact (.start ℕ) [.tryAcquire 0 .spin true, .giveUp 0 .spin] := by
  refine ⟨_, rfl, rfl, rfl, fun h => ?_⟩
  have hfirst := ((throughout_cons (P := Exact) rfl).1 h).1
  exact absurd hfirst (by decide)

end LockUser
end BGIocpServer
