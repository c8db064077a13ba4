import BGIocpServer.Kit.Reaches
import Mathlib.Algebra.Group.Nat.Defs
import Mathlib.Data.List.Basic

/-!
# The registry of the deadlock detector

Every thread has a `BGLockInfo`. A constructor of `BGILock` enters the one of the
calling thread into the map of `GetLockInfoMap`, the destructor of a thread's
`BGLockInfo` erases it, and `IsDeadLock` looks at the entries of the map.

The threads take atomic steps: the two interlocked operations of `IncPendingLock`, the
wait for the lock, the access to the map, `DecPendingLock`, the release. `s_rwLock` is
kept as what it grants, any number of readers or one writer. When a wait for another lock
ends is left open.

## Main definitions

* `BGLockInfo`, `incPendingLock`, `decPendingLock`, `late`: one thread's words.
* `LockRegistry`: the map, `s_rwLock` and the threads.
* `LockRegistry.isDeadLock`: what `IsDeadLock` finds in a state.
* `lockStep`: one step of one thread.
-/

namespace BGIocpServer
open Kit

/-- `CLOCKS_PER_SEC`, a `long`. -/
def clocksPerSec : BitVec 32 := 1000

/-- The members of `BGLockInfo`. -/
structure BGLockInfo where
  dwPendingLock : BitVec 32
  n64LastLockedTicks : BitVec 64
  deriving DecidableEq, Repr

namespace BGLockInfo

/-- The constructor. -/
def new : BGLockInfo := { dwPendingLock := 0, n64LastLockedTicks := 0 }

/-- The exchange of `IncPendingLock`, with the value of `GetTickCount64`. -/
def exchangeTicks (info : BGLockInfo) (now : BitVec 64) : BGLockInfo :=
  { info with n64LastLockedTicks := now }

/-- The increment of `IncPendingLock`. -/
def incPendingLock (info : BGLockInfo) : BGLockInfo :=
  { info with dwPendingLock := info.dwPendingLock + 1 }

/-- `DecPendingLock`. -/
def decPendingLock (info : BGLockInfo) : BGLockInfo :=
  { info with dwPendingLock := info.dwPendingLock - 1 }

@[simp] theorem decPendingLock_incPendingLock (info : BGLockInfo) :
    info.incPendingLock.decPendingLock = info := by
  simp only [incPendingLock, decPendingLock, BitVec.add_sub_cancel]

/-- The test in the loop of `IsDeadLock`. The product is an `int` times a `long`, the sum
a `ULONGLONG`. -/
def late (info : BGLockInfo) (nLimitSec : BitVec 32) (now : BitVec 64) : Bool :=
  0 < info.dwPendingLock &&
    info.n64LastLockedTicks + (nLimitSec * clocksPerSec).signExtend 64 < now

end BGLockInfo

/-- The calls that count a lock. -/
inductive LockCall
  /-- `Enter`, `ReadLock` or `WriteLock` of a lock other than `s_rwLock`. -/
  | enter
  /-- The constructor of a `BGILock`. -/
  | construct
  /-- The destructor of the thread's `BGLockInfo`: the thread exits. -/
  | exit
  /-- `IsDeadLock`. -/
  | isDeadLock (nLimitSec : BitVec 32)
  deriving DecidableEq, Repr

/-- Where a thread is. -/
inductive LockPc (ι : Type)
  /-- Not started. -/
  | unborn
  /-- Outside every call. -/
  | idle
  /-- At the increment of `IncPendingLock`. -/
  | inc (c : LockCall)
  /-- Counted, and the lock not taken yet. -/
  | wait (c : LockCall)
  /-- In the constructor, with `s_rwLock` taken. -/
  | insert
  /-- In the destructor, with `s_rwLock` taken. -/
  | erase
  /-- In the loop of `IsDeadLock`, before the entries of `rest`. -/
  | scan (nLimitSec : BitVec 32) (rest : List ι)
  /-- At `DecPendingLock` of the unlock that ends the call. -/
  | dec (c : LockCall)
  /-- At the release of the lock. -/
  | release (c : LockCall)
  /-- Exited. -/
  | gone
  deriving DecidableEq, Repr

/-- A thread counts from its start to the end of its `BGLockInfo`, which is out of the
reach of the others once it is erased. -/
def LockPc.live {ι : Type} : LockPc ι → Bool
  | .unborn | .dec .exit | .release .exit | .gone => false
  | .idle | .inc _ | .wait _ | .insert | .erase | .scan _ _ | .dec _ | .release _ => true

/-- The thread is about to count a lock. -/
def LockPc.atInc {ι : Type} : LockPc ι → Bool
  | .inc _ => true
  | .unborn | .idle | .wait _ | .insert | .erase | .scan _ _ | .dec _ | .release _ | .gone => false

/-- One thread. The last two fields are history. -/
structure LockThread (ι : Type) where
  pc : LockPc ι
  info : BGLockInfo
  /-- How many locks it has entered and not left. -/
  held : ℕ
  /-- How many locks it holds or waits for, `s_rwLock` included. -/
  locks : ℕ

/-- The members of `BGILock`, and the threads. -/
structure LockRegistry (ι : Type) where
  /-- The keys of `GetLockInfoMap`, in the order of the iteration. -/
  map : List ι
  /-- How many threads hold `s_rwLock` for reading. -/
  readers : ℕ
  /-- A thread holds `s_rwLock` for writing. -/
  writer : Bool
  threads : ι → LockThread ι

/-- The labels of the steps. -/
inductive LockAct (ι : Type)
  /-- A thread starts. -/
  | start (t : ι)
  /-- A call begins, up to the exchange of its `IncPendingLock`. -/
  | call (t : ι) (c : LockCall) (now : BitVec 64)
  /-- `Leave`, `ReadUnlock` or `WriteUnlock`, up to its `DecPendingLock`. -/
  | leave (t : ι)
  /-- The next step of a call; a test of `IsDeadLock` reads `now`. -/
  | next (t : ι) (now : BitVec 64)
  /-- A constructor or a destructor runs with no step of another thread in it. -/
  | whole (t : ι) (exits : Bool) (now : BitVec 64)

/-- `GetTickCount64` counts milliseconds from the start of the system: half of its range
is never reached. -/
def TickOk (now : BitVec 64) : Prop := now.toNat < 2 ^ 63

instance (now : BitVec 64) : Decidable (TickOk now) := inferInstanceAs (Decidable (_ < _))

namespace LockRegistry
variable {ι : Type} [DecidableEq ι]

/-- One thread goes on. -/
def set (s : LockRegistry ι) (t : ι) (th : LockThread ι) : LockRegistry ι :=
  { s with threads := Function.update s.threads t th }

/-- The loop of `IsDeadLock`. -/
def scan (s : LockRegistry ι) (nLimitSec : BitVec 32) (now : BitVec 64) : List ι → Bool
  | [] => false
  | t :: rest =>
      if (s.threads t).info.late nLimitSec now then true else s.scan nLimitSec now rest

/-- What `IsDeadLock` returns if its loop runs in this state, at this tick. -/
def isDeadLock (s : LockRegistry ι) (nLimitSec : BitVec 32) (now : BitVec 64) : Bool :=
  s.scan nLimitSec now s.map

/-- The lock is free and the thread takes it. -/
def take (s : LockRegistry ι) (t : ι) (th : LockThread ι) : LockCall → Option (LockRegistry ι)
  | .enter => some (s.set t { th with pc := .idle, held := th.held + 1 })
  | .construct =>
      if s.readers = 0 ∧ s.writer = false then
        some ({ s with writer := true }.set t { th with pc := .insert })
      else none
  | .exit =>
      if s.readers = 0 ∧ s.writer = false then
        some ({ s with writer := true }.set t { th with pc := .erase })
      else none
  | .isDeadLock nLimitSec =>
      if s.writer = false then
        some ({ s with readers := s.readers + 1 }.set t { th with pc := .scan nLimitSec s.map })
      else none

/-- The release of the lock. -/
def giveUp (s : LockRegistry ι) (t : ι) (th : LockThread ι) : LockCall → LockRegistry ι
  | .enter => s.set t { th with pc := .idle, locks := th.locks - 1 }
  | .construct => { s with writer := false }.set t { th with pc := .idle, locks := th.locks - 1 }
  | .exit => { s with writer := false }.set t { th with pc := .gone, locks := th.locks - 1 }
  | .isDeadLock _ =>
      { s with readers := s.readers - 1 }.set t { th with pc := .idle, locks := th.locks - 1 }

/-- The next step of a call. -/
def next (s : LockRegistry ι) (t : ι) (now : BitVec 64) (th : LockThread ι) :
    LockPc ι → Option (LockRegistry ι)
  | .unborn | .idle | .gone => none
  | .inc c => some (s.set t
      { th with pc := .wait c, info := th.info.incPendingLock, locks := th.locks + 1 })
  | .wait c => s.take t th c
  | .insert => some ({ s with map := s.map.insert t }.set t { th with pc := .dec .construct })
  | .erase => some ({ s with map := s.map.filter (· ≠ t) }.set t { th with pc := .dec .exit })
  | .scan nLimitSec [] => some (s.set t { th with pc := .dec (.isDeadLock nLimitSec) })
  -- `return TRUE` leaves out the `ReadUnlock`.
  | .scan nLimitSec (u :: rest) => some (s.set t { th with
      pc := if (s.threads u).info.late nLimitSec now then .idle else .scan nLimitSec rest })
  | .dec c => some (s.set t { th with pc := .release c, info := th.info.decPendingLock })
  | .release c => some (s.giveUp t th c)

/-- The start of a call. -/
def call (s : LockRegistry ι) (t : ι) (c : LockCall) (now : BitVec 64) :
    Option (LockRegistry ι) :=
  let th := s.threads t
  if th.pc = .idle ∧ TickOk now then
    some (s.set t { th with pc := .inc c, info := th.info.exchangeTicks now })
  else none

/-- `n` steps of a call. -/
def nexts (s : LockRegistry ι) (t : ι) (now : BitVec 64) : ℕ → Option (LockRegistry ι)
  | 0 => some s
  | n + 1 => (s.next t now (s.threads t) (s.threads t).pc).bind fun s => s.nexts t now n

/-- Before `main`: the constructors of the static locks have run on the main thread. -/
def start (main : ι) : LockRegistry ι where
  map := [main]
  readers := 0
  writer := false
  threads := Function.update
    (fun _ => { pc := .unborn, info := .new, held := 0, locks := 0 }) main
    { pc := .idle, info := .new, held := 0, locks := 0 }

end LockRegistry

/-- One step. A constructor and a destructor each take five steps after their exchange. -/
def lockStep {ι : Type} [DecidableEq ι] (s : LockRegistry ι) :
    LockAct ι → Option (LockRegistry ι)
  | .start t =>
      if (s.threads t).pc = .unborn then
        some (s.set t { pc := .idle, info := .new, held := 0, locks := 0 })
      else none
  | .call t c now => s.call t c now
  | .leave t =>
      let th := s.threads t
      if th.pc = .idle ∧ 0 < th.held then
        some (s.set t { th with
          pc := .release .enter, info := th.info.decPendingLock, held := th.held - 1 })
      else none
  | .next t now => s.next t now (s.threads t) (s.threads t).pc
  | .whole t exits now =>
      (s.call t (if exits then .exit else .construct) now).bind fun s => s.nexts t now 5

end BGIocpServer
