import BGIocpServer.LockInfo
import BGIocpServer.RWLock

/-!
# Who holds the lock of the registry

`IsDeadLock`, the constructors of `BGILock` and the ends of threads, one after another,
with the words of `BGILock::s_rwLock` as `BGRWLock` changes them. A call that would have
to wait for `s_rwLock` does not return: nobody runs that could wake it. Each test of the
loop of `IsDeadLock` reads `GetTickCount64` again.

`return TRUE` leaves the loop of `IsDeadLock` without the `ReadUnlock` behind it.

## Main definitions

* `LockProcess`, `RegistryAct`, `registryStep`: the registry, and what is done to it.
* `LockProcess.finds`: an entry is late when `IsDeadLock` looks at it.
* `LockProcess.Free`: nobody holds `s_rwLock`, and a write lock of it is given at once.

## Main results

* `free_throughout_iff`: when `s_rwLock` is free after every operation of a run.
-/

namespace BGIocpServer
open Kit

namespace BGRWLock
variable {m : BGRWLock}

/-- A read lock of a lock that nobody holds. -/
theorem readLock_free (h : m.nCount = 0) : m.readLock = ({ m with nCount := 1#32 }, .reading) := by
  simp [readLock, add, h]

/-- The only reader leaves. -/
theorem readUnlock_one (h : m.nCount = 1#32) : m.readUnlock = ({ m with nCount := 0 }, .idle) := by
  have hadd : m.add (-1) = { m with nCount := 0 } := by
    rw [add, h]
    rfl
  have hwake : ¬mustWake 0 := by decide
  simp only [readUnlock, hadd, if_neg hwake]

/-- A write lock of a lock that nobody holds. -/
theorem writeLock_free (h : m.nCount = 0) :
    m.writeLock = ({ m with nCount := 0x100#32 }, .writing) := by
  simp [writeLock, add, h, short]

/-- The writer leaves. -/
theorem writeUnlock_one (h : m.nCount = 0x100#32) :
    m.writeUnlock = ({ m with nCount := 0 }, .idle) := by
  have hadd : m.add (-0x100#32) = { m with nCount := 0 } := by
    rw [add, h]
    rfl
  have hwake : ¬mustWake 0 := by decide
  simp only [writeUnlock, hadd, if_neg hwake]

end BGRWLock

/-- The members of `BGILock` and the words of the threads. -/
structure LockProcess (ι : Type) where
  /-- The keys of `GetLockInfoMap`, in the order of the iteration. -/
  map : List ι
  info : ι → BGLockInfo
  /-- `s_rwLock` -/
  rwLock : BGRWLock

/-- What a thread does. -/
inductive RegistryAct (ι : Type)
  /-- `IsDeadLock`, where the test of the entry of `u` reads the tick `ticks u`. -/
  | isDeadLock (t : ι) (nLimitSec : BitVec 32) (now : BitVec 64) (ticks : ι → BitVec 64)
  /-- A constructor of a `BGILock`. -/
  | construct (t : ι) (now : BitVec 64)
  /-- The destructor of the thread's `BGLockInfo`. -/
  | exit (t : ι) (now : BitVec 64)
  /-- Whatever the thread does with other locks. -/
  | count (t : ι) (info : BGLockInfo)

namespace LockProcess
variable {ι : Type} [DecidableEq ι]

/-- Assignment to the words of a thread. -/
def setInfo (s : LockProcess ι) (t : ι) (info : BGLockInfo) : LockProcess ι :=
  { s with info := Function.update s.info t info }

/-- `IncPendingLock` of the thread. -/
def incPendingLock (s : LockProcess ι) (t : ι) (now : BitVec 64) : LockProcess ι :=
  s.setInfo t ((s.info t).exchangeTicks now).incPendingLock

/-- `DecPendingLock` of the thread. -/
def decPendingLock (s : LockProcess ι) (t : ι) : LockProcess ι :=
  s.setInfo t (s.info t).decPendingLock

/-- `s_rwLock.ReadLock()` -/
def readLock (s : LockProcess ι) (t : ι) (now : BitVec 64) : Option (LockProcess ι) :=
  match s.rwLock.readLock with
  | (m, .reading) => some { s.incPendingLock t now with rwLock := m }
  | _ => none

/-- `s_rwLock.ReadUnlock()` -/
def readUnlock (s : LockProcess ι) (t : ι) : LockProcess ι :=
  let r := s.rwLock.readUnlock
  { s.decPendingLock t with rwLock := if r.2 = .readUnlock then r.1.setEvent .read else r.1 }

/-- `s_rwLock.WriteLock()` -/
def writeLock (s : LockProcess ι) (t : ι) (now : BitVec 64) : Option (LockProcess ι) :=
  match s.rwLock.writeLock with
  | (m, .writing) => some { s.incPendingLock t now with rwLock := m }
  | _ => none

/-- `s_rwLock.WriteUnlock()` -/
def writeUnlock (s : LockProcess ι) (t : ι) : LockProcess ι :=
  let r := s.rwLock.writeUnlock
  { s.decPendingLock t with rwLock := if r.2 = .writeUnlock then r.1.setEvent .write else r.1 }

/-- The loop of `IsDeadLock`. -/
def scan (info : ι → BGLockInfo) (nLimitSec : BitVec 32) (ticks : ι → BitVec 64) :
    List ι → Bool
  | [] => false
  | u :: rest =>
      if (info u).late nLimitSec (ticks u) then true else scan info nLimitSec ticks rest

/-- `IsDeadLock` -/
def isDeadLock (s : LockProcess ι) (t : ι) (nLimitSec : BitVec 32) (now : BitVec 64)
    (ticks : ι → BitVec 64) : Option (Bool × LockProcess ι) :=
  (s.readLock t now).map fun s =>
    if scan s.info nLimitSec ticks s.map then (true, s) else (false, s.readUnlock t)

/-- The constructor of a `BGILock`. -/
def construct (s : LockProcess ι) (t : ι) (now : BitVec 64) : Option (LockProcess ι) :=
  (s.writeLock t now).map fun s => { s with map := s.map.insert t }.writeUnlock t

/-- The destructor of a `BGLockInfo`. -/
def exit (s : LockProcess ι) (t : ι) (now : BitVec 64) : Option (LockProcess ι) :=
  (s.writeLock t now).map fun s => { s with map := s.map.filter (· ≠ t) }.writeUnlock t

end LockProcess

/-- One operation, from its first step to its last. -/
def registryStep {ι : Type} [DecidableEq ι] (s : LockProcess ι) :
    RegistryAct ι → Option (LockProcess ι)
  | .isDeadLock t nLimitSec now ticks => (s.isDeadLock t nLimitSec now ticks).map Prod.snd
  | .construct t now => s.construct t now
  | .exit t now => s.exit t now
  | .count t info => some (s.setInfo t info)

namespace LockProcess
variable {ι : Type} [DecidableEq ι] {s s' : LockProcess ι} {t : ι} {now : BitVec 64}
  {nLimitSec : BitVec 32} {ticks : ι → BitVec 64}

/-- Nobody holds `s_rwLock`, and a write lock of it is given at once. -/
structure Free (s : LockProcess ι) : Prop where
  nCount : s.rwLock.nCount = 0
  atOnce : s.rwLock.writeLock.2 = .writing

omit [DecidableEq ι] in
theorem free_iff : s.Free ↔ s.rwLock.nCount = 0 := by
  refine ⟨Free.nCount, fun h => ⟨h, ?_⟩⟩
  rw [BGRWLock.writeLock, h]
  rfl

/-- `IsDeadLock` looks at an entry that is late. The caller has counted its own `ReadLock`. -/
def finds (s : LockProcess ι) : RegistryAct ι → Prop
  | .isDeadLock t nLimitSec now ticks =>
      ∃ u ∈ s.map, ((s.incPendingLock t now).info u).late nLimitSec (ticks u) = true
  | .construct _ _ | .exit _ _ | .count _ _ => False

instance (s : LockProcess ι) (a : RegistryAct ι) : Decidable (s.finds a) :=
  match a with
  | .isDeadLock _ _ _ _ => inferInstanceAs (Decidable (∃ _ ∈ s.map, _))
  | .construct _ _ | .exit _ _ | .count _ _ => isFalse not_false

omit [DecidableEq ι] in
theorem scan_iff {info : ι → BGLockInfo} (us : List ι) :
    scan info nLimitSec ticks us = true ↔
      ∃ u ∈ us, (info u).late nLimitSec (ticks u) = true := by
  induction us with
  | nil => simp [scan]
  | cons u us ih =>
      by_cases hlate : (info u).late nLimitSec (ticks u) = true
      · simp [scan, hlate]
      · simp [scan, hlate, ih]

/-! ## Operations -/

/-- A constructor takes the lock and gives it back. -/
theorem free_construct (h : s.Free) (hs : s.construct t now = some s') : s'.Free := by
  rw [construct, writeLock, BGRWLock.writeLock_free h.nCount, Option.map_some,
    Option.some.injEq] at hs
  have hunlock := BGRWLock.writeUnlock_one (m := { s.rwLock with nCount := 0x100#32 }) rfl
  rw [← hs, free_iff]
  simp [writeUnlock, hunlock]

/-- So does the end of a thread. -/
theorem free_exit (h : s.Free) (hs : s.exit t now = some s') : s'.Free := by
  rw [exit, writeLock, BGRWLock.writeLock_free h.nCount, Option.map_some,
    Option.some.injEq] at hs
  have hunlock := BGRWLock.writeUnlock_one (m := { s.rwLock with nCount := 0x100#32 }) rfl
  rw [← hs, free_iff]
  simp [writeUnlock, hunlock]

/-- `IsDeadLock` gives the lock back exactly if it finds no entry that is late. -/
theorem free_isDeadLock_iff {r : Bool} (h : s.Free)
    (hs : s.isDeadLock t nLimitSec now ticks = some (r, s')) :
    s'.Free ↔ ¬s.finds (.isDeadLock t nLimitSec now ticks) := by
  rw [isDeadLock, readLock, BGRWLock.readLock_free h.nCount, Option.map_some,
    Option.some.injEq] at hs
  have hscan : scan (s.incPendingLock t now).info nLimitSec ticks s.map = true ↔
      s.finds (.isDeadLock t nLimitSec now ticks) := scan_iff _
  split at hs
  · rename_i hfound
    obtain ⟨-, rfl⟩ := Prod.mk.inj hs
    refine iff_of_false (fun hfree => ?_) (not_not_intro (hscan.1 hfound))
    have hone : (1#32 : BitVec 32) = 0 := hfree.nCount
    exact absurd hone (by decide)
  · rename_i hfound
    obtain ⟨-, rfl⟩ := Prod.mk.inj hs
    have hunlock := BGRWLock.readUnlock_one (m := { s.rwLock with nCount := 1#32 }) rfl
    refine iff_of_true (free_iff.2 ?_) fun hfinds => hfound (hscan.2 hfinds)
    simp [readUnlock, hunlock]

/-- One operation on the free lock. -/
theorem free_step_iff {a : RegistryAct ι} (h : s.Free) (hs : registryStep s a = some s') :
    s'.Free ↔ ¬s.finds a := by
  cases a with
  | isDeadLock t nLimitSec now ticks =>
      simp only [registryStep, Option.map_eq_some_iff, Prod.exists, exists_eq_right] at hs
      obtain ⟨r, hs⟩ := hs
      exact free_isDeadLock_iff h hs
  | construct t now => exact iff_of_true (free_construct h hs) not_false
  | exit t now => exact iff_of_true (free_exit h hs) not_false
  | count t info =>
      obtain rfl := Option.some.inj hs
      exact iff_of_true (free_iff.2 h.nCount) not_false

/-- **`s_rwLock` is free after each of a sequence of operations, whatever the registry
holds, if and only if no `IsDeadLock` among them finds an entry that is late.** -/
theorem free_throughout_iff (hfree : s.rwLock.nCount = 0) {acts : List (RegistryAct ι)}
    (hrun : runAll registryStep s acts = some s') :
    Throughout registryStep Free s acts ↔ ∀ p ∈ visited registryStep s acts, ¬p.1.finds p.2 :=
  throughout_iff (fun _ _ _ h hs => free_step_iff h hs) (free_iff.2 hfree) hrun

/-- A thread that has counted a lock at the tick 0, and nothing else. -/
def oneStuck : LockProcess Bool where
  map := [true]
  info := Function.update (fun _ => .new) true { dwPendingLock := 1, n64LastLockedTicks := 0 }
  rwLock := .new

/-- The entry is not late after 4 seconds, and the other thread builds a lock and exits. -/
theorem free_throughout_iff_quiet : Throughout registryStep Free oneStuck
    [.isDeadLock false 5 4000 fun _ => 4000, .construct false 4001, .exit false 4002] := by
  obtain ⟨s', hrun⟩ : ∃ s', runAll registryStep oneStuck
      [.isDeadLock false 5 4000 fun _ => 4000, .construct false 4001, .exit false 4002] =
        some s' := ⟨_, rfl⟩
  exact (free_throughout_iff rfl hrun).2 (by decide)

/-- The entry is late after 6 seconds. The next constructor has to wait. -/
theorem not_free_throughout_late : ∃ s', registryStep oneStuck
      (.isDeadLock false 5 6000 fun _ => 6000) = some s' ∧ s'.rwLock.nCount = 1 ∧ ¬s'.Free ∧
    s'.rwLock.writeLock.2 = .writeLock .enter ∧ registryStep s' (.construct false 6001) = none := by
  refine ⟨_, rfl, rfl, fun hfree => ?_, rfl, rfl⟩
  exact absurd hfree.nCount (by decide)

end LockProcess
end BGIocpServer
