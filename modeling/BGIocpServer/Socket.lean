import BGIocpServer.Buffer
import BGIocpServer.Object

/-!
# The socket object

The fields of `BGIOSocket` and `BGTestSocket` and the operations on one socket
that touch nothing else: the bits, `OnClose`, `Close`, the reset check, and the
region of `CreateSocket` under the slot's lock. A socket is an element of the
array `s_arrSocket`; it is reused from one connection to the next.
-/

namespace BGIocpServer

/-- A `SOCKET`; `INVALID_SOCKET` is `none` of `Option Handle`. -/
abbrev Handle := ℕ

structure BGIOSocket extends BGIOObject where
  hSocket : Option Handle
  pReadBuf : Ptr
  pFirstBuf : Option Ptr
  pLastBuf : Option Ptr
  /-- A `long`, kept as an integer in its range. -/
  nPendingWrite : ℤ

structure BGTestSocket extends BGIOSocket where
  nId : ℤ
  nBit : BitVec 32
  nAddr : ℕ
  nPort : ℕ
  nWorldId : ℤ
  pPlayer : Option Ptr

/-- `SOCKET_BIT_NOT_USED` -/
def socketBitNotUsed : BitVec 32 := 0x00000001#32
/-- `SOCKET_BIT_CONNECTED` -/
def socketBitConnected : BitVec 32 := 0x00000002#32
/-- `SOCKET_BIT_LOGIN` -/
def socketBitLogin : BitVec 32 := 0x00000004#32
/-- `SOCKET_BIT_LOADING` -/
def socketBitLoading : BitVec 32 := 0x00000008#32

namespace BGTestSocket

/-- The default constructor, with the buffer its `Alloc` returned. -/
def new (pReadBuf : Ptr) : BGTestSocket where
  toBGIOObject := .new
  hSocket := none
  pReadBuf := pReadBuf
  pFirstBuf := none
  pLastBuf := none
  nPendingWrite := 0
  nId := 0
  nBit := socketBitNotUsed
  nAddr := 0
  nPort := 0
  nWorldId := 1
  pPlayer := none

/-- `AddRef()` -/
def addRef (s : BGTestSocket) : BGTestSocket :=
  { s with toBGIOObject := s.toBGIOObject.addRef .general }

/-- `Release()` -/
def release (s : BGTestSocket) : BGTestSocket :=
  { s with toBGIOObject := s.toBGIOObject.release .general }

/-- `BitSet` -/
def bitSet (s : BGTestSocket) (bit : BitVec 32) : BGTestSocket := { s with nBit := s.nBit ||| bit }
/-- `BitReset` -/
def bitReset (s : BGTestSocket) (bit : BitVec 32) : BGTestSocket :=
  { s with nBit := s.nBit &&& ~~~bit }
/-- `BitIs` -/
def bitIs (s : BGTestSocket) (bit : BitVec 32) : Bool := s.nBit &&& bit == bit

/-- `OnClose`. What `Disconnect` does to the player is no part of the socket. -/
def onClose (s : BGTestSocket) : BGTestSocket :=
  let s := { s with pPlayer := none }
  let s := s.bitReset socketBitConnected
  let s := { s with nId := 0 }
  let s := s.bitSet 0#32
  s.bitSet socketBitNotUsed

/-- `Close` up to the `Release` at its end. Only the call that finds a handle does
anything. -/
def closeHandle (s : BGTestSocket) : BGTestSocket :=
  match s.hSocket with
  | none => s
  | some _ => onClose { s with hSocket := none }

/-- `Close` -/
def close (s : BGTestSocket) : BGTestSocket :=
  match s.hSocket with
  | none => s
  | some _ => s.closeHandle.release

/-- `CheckResetData` -/
def checkResetData (s : BGTestSocket) : Bool :=
  !(s.nId != 0 || !s.bitIs socketBitNotUsed || s.pPlayer.isSome)

/-- `ResetDataOnForce` -/
def resetDataOnForce (s : BGTestSocket) : BGTestSocket :=
  { s with nBit := socketBitNotUsed, nId := 0, pPlayer := none }

/-- How the region of `CreateSocket` under the slot's lock ends. -/
inductive Claim
  /-- The slot is returned. -/
  | taken
  /-- The slot was not reset: it is forced, and the scan starts again. -/
  | forced
  /-- The slot is in use after all: the scan starts again. -/
  | busy
  deriving DecidableEq, Repr

/-- The region of `CreateSocket` under the lock of the slot `newId`. -/
def claim (s : BGTestSocket) (newId : ℕ) (newSocket : Option Handle) (addr port : ℕ) :
    Claim × BGTestSocket :=
  if s.bitIs socketBitNotUsed then
    if !s.checkResetData then (.forced, s.resetDataOnForce)
    else
      let s := s.bitReset socketBitNotUsed
      let s := s.bitSet socketBitConnected
      (.taken, { s with nId := newId, hSocket := newSocket, nAddr := addr, nPort := port }.addRef)
  else (.busy, s)

/-- A slot that is taken was not used, and is used from then on. -/
theorem claim_taken {s : BGTestSocket} {newId : ℕ} {newSocket : Option Handle} {addr port : ℕ}
    (h : (s.claim newId newSocket addr port).1 = .taken) :
    s.bitIs socketBitNotUsed = true ∧
      (s.claim newId newSocket addr port).2.bitIs socketBitNotUsed = false ∧
      (s.claim newId newSocket addr port).2.hSocket = newSocket ∧
      (s.claim newId newSocket addr port).2.toBGIOObject = s.toBGIOObject.addRef .general := by
  by_cases hbit : s.bitIs socketBitNotUsed = true
  · by_cases hreset : s.checkResetData = true
    · simp only [claim, hbit, hreset, if_true, Bool.not_true, Bool.false_eq_true, if_false]
      refine ⟨trivial, ?_, rfl, rfl⟩
      have hclear : ∀ b : BitVec 32, (b &&& ~~~socketBitNotUsed ||| socketBitConnected) &&&
          socketBitNotUsed = 0#32 := by
        intro b
        apply BitVec.eq_of_getLsbD_eq
        intro i hi
        by_cases h0 : i = 0
        · subst h0
          simp [socketBitNotUsed, socketBitConnected]
        · simp [socketBitNotUsed, h0]
      simp only [bitIs, addRef, bitSet, bitReset, hclear]
      rfl
    · simp [claim, hbit, hreset] at h
  · simp [claim, hbit] at h

/-- A slot that is not taken keeps its references and its handle. -/
theorem claim_not_taken {s : BGTestSocket} {newId : ℕ} {newSocket : Option Handle} {addr port : ℕ}
    (h : (s.claim newId newSocket addr port).1 ≠ .taken) :
    (s.claim newId newSocket addr port).2.toBGIOObject = s.toBGIOObject ∧
      (s.claim newId newSocket addr port).2.hSocket = s.hSocket ∧
      ((s.claim newId newSocket addr port).2.bitIs socketBitNotUsed = true →
        s.bitIs socketBitNotUsed = true) := by
  by_cases hbit : s.bitIs socketBitNotUsed = true
  · by_cases hreset : s.checkResetData = true
    · simp [claim, hbit, hreset] at h
    · simp only [claim, hbit, hreset, if_true, Bool.not_false]
      exact ⟨rfl, rfl, fun _ => trivial⟩
  · simp [claim, hbit]

/-- No path through the lock region touches the write queue. -/
theorem claim_queue (s : BGTestSocket) (newId : ℕ) (newSocket : Option Handle) (addr port : ℕ) :
    (s.claim newId newSocket addr port).2.pFirstBuf = s.pFirstBuf ∧
      (s.claim newId newSocket addr port).2.pLastBuf = s.pLastBuf ∧
      (s.claim newId newSocket addr port).2.nPendingWrite = s.nPendingWrite := by
  simp only [claim]
  split
  · split
    · exact ⟨rfl, rfl, rfl⟩
    · exact ⟨rfl, rfl, rfl⟩
  · exact ⟨rfl, rfl, rfl⟩

/-- Nor does `Close`: it leaves the queue of the connection it ends in the slot. -/
theorem close_queue (s : BGTestSocket) :
    s.close.pFirstBuf = s.pFirstBuf ∧ s.close.pLastBuf = s.pLastBuf ∧
      s.close.nPendingWrite = s.nPendingWrite := by
  simp only [close, closeHandle]
  cases h : s.hSocket with
  | none => exact ⟨rfl, rfl, rfl⟩
  | some hSocket => exact ⟨rfl, rfl, rfl⟩

@[simp] theorem hSocket_closeHandle (s : BGTestSocket) : s.closeHandle.hSocket = none := by
  simp only [closeHandle]
  cases h : s.hSocket with
  | none => exact h
  | some hSocket => rfl

end BGTestSocket
end BGIocpServer
