import BGIocpServer.Socket
import BGIocpServer.WriteQueue
import BGIocpServer.Kit.Reaches
import BGIocpServer.Kit.Tally

/-!
# The send side of a slot

`BGIOSocket::Write` and `BGIOSocket::WriteCallback` as atomic steps of any number
of threads: the regions under `m_lock`, the `WSASend` calls, the `Free`. The
completion port hands a completion to any idle thread. The same slot serves one
connection after another: `Close` may come at any moment, `CreateSocket` whenever
the slot is not in use.

A step that is not enabled, or that the source leaves undefined (a null pointer
followed, a copy past the end of the buffer object), is `none`.

## Main definitions

* `SendPc`: where a thread is inside `Write` or `WriteCallback`.
* `SendSide`: the heap of buffers, the socket, the threads, the outstanding sends,
  and the history of bytes by connection.
* `SendAct`, `sendStep`: the steps.
-/

namespace BGIocpServer
open Kit

/-- A value stored in a `long`. -/
def toLong (n : ℤ) : ℤ := Int.bmod n (2 ^ 32)

theorem toLong_of_lt {n : ℤ} (hlo : 0 ≤ n) (hhi : n < 2 ^ 31) : toLong n = n := by
  rw [toLong, Int.bmod_eq_of_le] <;> omega

theorem toLong_toLong_add (m n : ℤ) : toLong (toLong m + n) = toLong (m + n) := Int.bmod_add_bmod

theorem toLong_toLong_sub (m n : ℤ) : toLong (toLong m - n) = toLong (m - n) := Int.bmod_sub_bmod

/-- How the locked region of `Write` ends. -/
inductive Enqueued
  /-- The queue was empty: the caller sends. -/
  | first
  /-- The bytes were copied behind those of `m_pLastBuf`: the caller frees its buffer. -/
  | coalesced
  /-- The buffer was linked behind `m_pLastBuf`. -/
  | appended
  deriving DecidableEq, Repr

/-- The region of `Write` under `m_lock`. -/
def BGTestSocket.enqueue (sock : BGTestSocket) (heap : Heap) (pBuffer : Ptr) :
    Option (Enqueued × Heap × BGTestSocket) :=
  let b := heap pBuffer
  let sock := { sock with nPendingWrite := toLong (sock.nPendingWrite + b.dwSize) }
  match sock.pLastBuf with
  | none => some (.first, heap, { sock with pFirstBuf := some pBuffer, pLastBuf := some pBuffer })
  | some last =>
      if sock.pFirstBuf ≠ some last ∧ ((heap last).dwSize + b.dwSize) % 2 ^ 32 ≤ bufferSize then
        ((heap last).coalesce b.bytes).map fun c =>
          (.coalesced, Function.update heap last c, sock)
      else
        some (.appended, Function.update heap last { heap last with pNext := some pBuffer },
          { sock with pLastBuf := some pBuffer })

/-- How the locked region of `WriteCallback` ends. -/
inductive Dequeued
  /-- The completion was short: the call ends. -/
  | short
  /-- The first buffer is off the queue, and more is queued: the caller sends. -/
  | more (pFirstBuf : Ptr)
  /-- The first buffer is off the queue, which is empty. -/
  | empty (pFirstBuf : Ptr)
  deriving DecidableEq, Repr

/-- The region of `WriteCallback` under `m_lock`. -/
def BGTestSocket.dequeue (sock : BGTestSocket) (heap : Heap) (dwTransferred : ℕ) :
    Option (Dequeued × BGTestSocket) :=
  match sock.pFirstBuf with
  | none => none
  | some pFirstBuf =>
      let b := heap pFirstBuf
      if dwTransferred ≠ b.dwSize then some (.short, sock)
      else
        let sock := { sock with
          nPendingWrite := toLong (sock.nPendingWrite - b.dwSize)
          pFirstBuf := b.pNext }
        match b.pNext with
        | some _ => some (.more pFirstBuf, sock)
        | none => some (.empty pFirstBuf, { sock with pLastBuf := none })

section Regions
variable {sock : BGTestSocket} {heap : Heap} {p last : Ptr} {c : BGIOBuffer} {n : ℕ}

/-- The counter after the first statement of the region of `Write`. -/
def BGTestSocket.pendingAfter (sock : BGTestSocket) (heap : Heap) (p : Ptr) : ℤ :=
  toLong (sock.nPendingWrite + (heap p).dwSize)

theorem enqueue_first (hlast : sock.pLastBuf = none) :
    sock.enqueue heap p = some (.first, heap, { sock with
      pFirstBuf := some p, pLastBuf := some p, nPendingWrite := sock.pendingAfter heap p }) := by
  simp only [BGTestSocket.enqueue, hlast, BGTestSocket.pendingAfter]

theorem enqueue_coalesced (hlast : sock.pLastBuf = some last)
    (hguard : sock.pFirstBuf ≠ some last ∧
      ((heap last).dwSize + (heap p).dwSize) % 2 ^ 32 ≤ bufferSize)
    (hc : (heap last).coalesce (heap p).bytes = some c) :
    sock.enqueue heap p = some (.coalesced, Function.update heap last c, { sock with
      nPendingWrite := sock.pendingAfter heap p }) := by
  simp only [BGTestSocket.enqueue, hlast, BGTestSocket.pendingAfter]
  rw [if_pos hguard, hc, Option.map_some]

theorem enqueue_appended (hlast : sock.pLastBuf = some last)
    (hguard : ¬ (sock.pFirstBuf ≠ some last ∧
      ((heap last).dwSize + (heap p).dwSize) % 2 ^ 32 ≤ bufferSize)) :
    sock.enqueue heap p = some (.appended,
      Function.update heap last { heap last with pNext := some p }, { sock with
        pLastBuf := some p, nPendingWrite := sock.pendingAfter heap p }) := by
  simp only [BGTestSocket.enqueue, hlast, BGTestSocket.pendingAfter]
  rw [if_neg hguard]

theorem dequeue_short (hfirst : sock.pFirstBuf = some p) (hn : n ≠ (heap p).dwSize) :
    sock.dequeue heap n = some (.short, sock) := by
  simp only [BGTestSocket.dequeue, hfirst]
  rw [if_pos hn]

theorem dequeue_more {q : Ptr} (hfirst : sock.pFirstBuf = some p) (hn : n = (heap p).dwSize)
    (hnext : (heap p).pNext = some q) :
    sock.dequeue heap n = some (.more p, { sock with
      pFirstBuf := some q, nPendingWrite := toLong (sock.nPendingWrite - (heap p).dwSize) }) := by
  simp only [BGTestSocket.dequeue, hfirst]
  rw [if_neg (not_not.mpr hn), hnext]

theorem dequeue_empty (hfirst : sock.pFirstBuf = some p) (hn : n = (heap p).dwSize)
    (hnext : (heap p).pNext = none) :
    sock.dequeue heap n = some (.empty p, { sock with
      pFirstBuf := none, pLastBuf := none
      nPendingWrite := toLong (sock.nPendingWrite - (heap p).dwSize) }) := by
  simp only [BGTestSocket.dequeue, hfirst]
  rw [if_neg (not_not.mpr hn), hnext]

end Regions

/-- Where a thread is inside `Write` or `WriteCallback`. -/
inductive SendPc
  | idle
  /-- `Write`, before `m_lock.Enter()`. -/
  | writeLock (pBuffer : Ptr)
  /-- `Write`, the queue was empty: before `AddRef` and `WSASend`. -/
  | writeSend (pBuffer : Ptr)
  /-- `Write`, before `pBuffer->Free()`. -/
  | writeFree (pBuffer : Ptr)
  /-- `WriteCallback`, before `m_lock.Enter()`. -/
  | cbLock (dwTransferred : ℕ)
  /-- `WriteCallback`, more is queued: before `AddRef` and `WSASend`. -/
  | cbSend (pFirstBuf : Ptr)
  /-- `WriteCallback`, before `pFirstBuf->Free()`. -/
  | cbFree (pFirstBuf : Ptr)
  deriving DecidableEq, Repr

/-- An outstanding `WSASend`. -/
structure Send where
  /-- The buffer `wsabuf.buf` points into, at offset 0. -/
  buf : Ptr
  /-- `wsabuf.len` -/
  len : ℕ
  /-- The bytes it was given. -/
  data : List UInt8
  deriving DecidableEq, Repr

/-- The send side of a slot. The last fields are history: which connection the
slot serves (counted by `CreateSocket`); by thread, the connection that its last
call of `Write` was made for; and by connection the payloads in the order of
their locked regions, the bytes given to `WSASend`, and the bytes dequeued by
`WriteCallback`. `clean` says that no send of the slot has failed, at once or at
completion, or completed short. -/
structure SendSide (ι : Type) where
  heap : Heap
  live : Ptr → Bool
  sock : BGTestSocket
  pc : ι → SendPc
  sends : List Send
  conn : ℕ
  callConn : ι → ℕ
  written : ℕ → List UInt8
  sent : ℕ → List UInt8
  completed : ℕ → List UInt8
  clean : Bool

/-- Append to the history of connection `n`. -/
def record (f : ℕ → List UInt8) (n : ℕ) (xs : List UInt8) : ℕ → List UInt8 :=
  Function.update f n (f n ++ xs)

@[simp] theorem record_self (f : ℕ → List UInt8) (n : ℕ) (xs : List UInt8) :
    record f n xs n = f n ++ xs := by simp [record]

theorem record_of_ne {f : ℕ → List UInt8} {m n : ℕ} (xs : List UInt8) (h : m ≠ n) :
    record f n xs m = f m := by simp [record, h]

namespace SendSide
variable {ι : Type} [DecidableEq ι]

/-- Thread `t` moves on. -/
def goto (s : SendSide ι) (t : ι) (k : SendPc) : SendSide ι :=
  { s with pc := Function.update s.pc t k }

/-- Assignment to the buffer at `p`. -/
def setBuf (s : SendSide ι) (p : Ptr) (b : BGIOBuffer) : SendSide ι :=
  { s with heap := Function.update s.heap p b }

/-- A thread calls `Write(p)` with a buffer it got from `Alloc` and filled with
`data`: the checks before the locked region. -/
def callWrite (s : SendSide ι) (t : ι) (p : Ptr) (data : List UInt8) : SendSide ι :=
  let b := (s.heap p).init.fill data
  let s := { s.setBuf p b with
    live := Function.update s.live p true
    callConn := Function.update s.callConn t s.conn }
  if b.dwSize = 0 then s.goto t (.writeFree p)
  else if b.dwSize > bufferSize then s.goto t (.writeFree p)
  else s.goto t (.writeLock p)

/-- Thread `t` runs the region of `Write` under `m_lock`. -/
def writeRegion (s : SendSide ι) (t : ι) (pBuffer : Ptr) : Option (SendSide ι) :=
  (s.sock.enqueue s.heap pBuffer).map fun (e, heap, sock) =>
    let s := { s with
      heap := heap
      sock := sock
      written := record s.written (s.callConn t) (s.heap pBuffer).bytes }
    match e with
    | .first => s.goto t (.writeSend pBuffer)
    | .coalesced => s.goto t (.writeFree pBuffer)
    | .appended => s.goto t .idle

/-- Thread `t` runs the region of `WriteCallback` under `m_lock`; on a short
completion the whole call, with the `Release` of `OnIOCallback`. -/
def writeCallbackRegion (s : SendSide ι) (t : ι) (dwTransferred : ℕ) : Option (SendSide ι) :=
  (s.sock.dequeue s.heap dwTransferred).map fun (d, sock) =>
    match d with
    | .short => { s with sock := sock.release }.goto t .idle
    | .more pFirstBuf =>
        { s with
          sock := sock
          completed := record s.completed s.conn (s.heap pFirstBuf).bytes }.goto t
          (.cbSend pFirstBuf)
    | .empty pFirstBuf =>
        { s with
          sock := sock
          completed := record s.completed s.conn (s.heap pFirstBuf).bytes }.goto t
          (.cbFree pFirstBuf)

/-- `AddRef`, then `WSASend(m_hSocket, ..)` on the buffer `p`; if it fails at once,
`Release`. It fails on `INVALID_SOCKET`. -/
def wsaSend (s : SendSide ι) (p : Ptr) (ok : Bool) : Option (SendSide ι) :=
  let b := s.heap p
  let s := { s with sock := s.sock.addRef }
  if ok then
    if s.sock.hSocket.isSome then
      some { s with
        sends := s.sends ++ [⟨p, b.dwSize, b.bytes⟩]
        sent := record s.sent s.conn b.bytes }
    else none
  else some { s with sock := s.sock.release, clean := false }

/-- The `WSASend` that thread `t` has come to. -/
def sendRegion (s : SendSide ι) (t : ι) (ok : Bool) : Option (SendSide ι) :=
  match s.pc t with
  | .writeSend pBuffer => (s.wsaSend pBuffer ok).map fun s => s.goto t .idle
  | .cbSend pFirstBuf =>
      -- the new first buffer and its size are read again, outside the lock
      match s.sock.pFirstBuf with
      | none => none
      | some p => (s.wsaSend p ok).map fun s => s.goto t (.cbFree pFirstBuf)
  | _ => none

/-- `Free`: the pool links the buffer in front of `next`. Behind `WriteCallback`
comes the `Release` of `OnIOCallback`. -/
def freeRegion (s : SendSide ι) (t : ι) (next : Option Ptr) : Option (SendSide ι) :=
  let free (s : SendSide ι) (p : Ptr) : SendSide ι :=
    { s.setBuf p { s.heap p with pNext := next } with live := Function.update s.live p false }
  match s.pc t with
  | .writeFree p => some ((free s p).goto t .idle)
  | .cbFree p => some ({ free s p with sock := s.sock.release }.goto t .idle)
  | _ => none

/-- The completion port hands the completion of the `i`-th outstanding send to the
idle thread `t`, which runs `OnIOCallback`. -/
def complete (s : SendSide ι) (t : ι) (i : ℕ) (bSuccess : Bool) (dwTransferred : ℕ) :
    Option (SendSide ι) :=
  match s.sends[i]? with
  | none => none
  | some snd =>
      let s := { s with
        sends := s.sends.eraseIdx i
        clean := s.clean && bSuccess && dwTransferred == snd.len }
      -- a failed completion is only logged
      if bSuccess then some (s.goto t (.cbLock dwTransferred)) else some s

/-- `CreateSocket` tries the slot; the connection counter moves if it takes it. -/
def create (s : SendSide ι) (newId : ℕ) (newSocket : Handle) (addr port : ℕ) : SendSide ι :=
  match s.sock.claim newId (some newSocket) addr port with
  | (.taken, sock) => { s with sock := sock, conn := s.conn + 1 }
  | (_, sock) => { s with sock := sock }

omit [DecidableEq ι] in
/-- `CreateSocket` touches the socket and the connection counter. -/
theorem create_eq (s : SendSide ι) (newId : ℕ) (newSocket : Handle) (addr port : ℕ) :
    s.create newId newSocket addr port =
      let c := s.sock.claim newId (some newSocket) addr port
      { s with sock := c.2, conn := if c.1 = .taken then s.conn + 1 else s.conn } := by
  simp only [create]
  rcases s.sock.claim newId (some newSocket) addr port with ⟨c, sock⟩
  cases c <;> rfl

end SendSide

/-- The labels of the machine. -/
inductive SendAct (ι : Type)
  /-- An idle thread calls `Write` with the buffer at `p`, filled with `data`. -/
  | callWrite (t : ι) (p : Ptr) (data : List UInt8)
  /-- Thread `t` runs its locked region. -/
  | lock (t : ι)
  /-- Thread `t` calls `WSASend`, which succeeds or fails at once. -/
  | send (t : ι) (ok : Bool)
  /-- Thread `t` frees its buffer. -/
  | free (t : ι) (next : Option Ptr)
  /-- An idle thread takes the completion of an outstanding send. -/
  | complete (t : ι) (i : ℕ) (bSuccess : Bool) (dwTransferred : ℕ)
  /-- `Close` -/
  | close
  /-- `CreateSocket` -/
  | create (newId : ℕ) (newSocket : Handle) (addr port : ℕ)

/-- One step of the send side. -/
def sendStep {ι : Type} [DecidableEq ι] (s : SendSide ι) : SendAct ι → Option (SendSide ι)
  | .callWrite t p data =>
      if s.pc t = .idle ∧ s.live p = false then some (s.callWrite t p data) else none
  | .lock t =>
      match s.pc t with
      | .writeLock p => s.writeRegion t p
      | .cbLock n => s.writeCallbackRegion t n
      | _ => none
  | .send t ok => s.sendRegion t ok
  | .free t next => s.freeRegion t next
  | .complete t i bSuccess n => if s.pc t = .idle then s.complete t i bSuccess n else none
  | .close => some { s with sock := s.sock.close }
  | .create newId newSocket addr port => some (s.create newId newSocket addr port)

/-- The send side of a slot that has served no connection yet. -/
def SendSide.start (ι : Type) (heap : Heap) (pReadBuf : Ptr) : SendSide ι where
  heap := heap
  live := Function.update (fun _ => false) pReadBuf true
  sock := .new pReadBuf
  pc := fun _ => .idle
  sends := []
  conn := 0
  callConn := fun _ => 0
  written := fun _ => []
  sent := fun _ => []
  completed := fun _ => []
  clean := true

end BGIocpServer
