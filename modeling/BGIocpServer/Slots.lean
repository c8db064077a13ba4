import BGIocpServer.Kit.Reaches
import BGIocpServer.Socket
import Mathlib.Data.Finset.Option
import Mathlib.Data.Fintype.Basic
import Mathlib.Data.List.FinRange

/-!
# The slot array, its players and its handles

`s_arrSocket` with the players of the game worlds and the handles that are open, as
operations of one thread after the other: a completion of `accept` up to the end of
`BGIOServer::OnIOCallback`, a `CS_Login` packet, and `Close` or `GracefulClose`. The
write queues and read buffers have modules of their own. `LoginOn` returns with the
slot's lock held when it fails; a single thread may go on all the same, so the lock is
left out and every order of operations is a run. So is one that goes on with a slot whose last
reference was released, which is `freed`; `SlotRefs` says when none is.

## Main definitions

* `BGTestPlayer`, `SlotTable`: the data.
* `SlotTable.onIOCallback`, `SlotTable.loginOn`, `SlotTable.close`: the operations.
* `slotStep`, `SlotTable.start`: the machine, and the state that `Initialize` leaves.
-/

namespace BGIocpServer
open Kit

/-- What `m_pSocket` of a player points at: a slot, or anything else, since the
constructor leaves it unset. -/
inductive SocketPtr (n : ℕ)
  | slot (i : Fin n)
  | stray (address : ℕ)

/-- The fields of `BGTestPlayer` that connections use. -/
structure BGTestPlayer (n : ℕ) where
  bConnected : Bool
  pSocket : Option (SocketPtr n)

namespace BGTestPlayer
variable {n : ℕ}

/-- `isConnected` -/
def isConnected (p : BGTestPlayer n) : Bool := p.bConnected

/-- `Connect` -/
def connect (p : BGTestPlayer n) : Bool × BGTestPlayer n :=
  match p.pSocket with
  | none => (false, p)
  | some _ => (true, { p with bConnected := true })

end BGTestPlayer

/-- The slots, the players and the open handles. -/
structure SlotTable (n : ℕ) where
  arrSocket : Fin n → BGTestSocket
  players : Ptr → BGTestPlayer n
  /-- For each game world, the players of its `m_arrObject`. -/
  arrGameWorld : List (List Ptr)
  /-- Handles that `accept` returned and `closesocket` has not closed. -/
  opened : Finset Handle
  /-- History: `LoginOn` has completed during the slot's current connection. -/
  loggedIn : Fin n → Bool

namespace SlotTable
variable {n : ℕ}

/-- Assignment to a slot. -/
def setSocket (s : SlotTable n) (i : Fin n) (sock : BGTestSocket) : SlotTable n :=
  { s with arrSocket := Function.update s.arrSocket i sock }

/-- Assignment to a player. -/
def setPlayer (s : SlotTable n) (p : Ptr) (player : BGTestPlayer n) : SlotTable n :=
  { s with players := Function.update s.players p player }

/-- Assignment to the counters of a slot. -/
def setObject (s : SlotTable n) (i : Fin n) (o : BGIOObject) : SlotTable n :=
  s.setSocket i { s.arrSocket i with toBGIOObject := o }

/-- `AddRef()` of a slot. -/
def addRef (s : SlotTable n) (i : Fin n) : SlotTable n :=
  s.setObject i ((s.arrSocket i).toBGIOObject.addRef .general)

/-- `Release()` of a slot. -/
def release (s : SlotTable n) (i : Fin n) : SlotTable n :=
  s.setObject i ((s.arrSocket i).toBGIOObject.release .general)

/-- `if (m_pSocket) m_pSocket->Release()`. What a stray pointer hits is not a slot. -/
def releasePtr (s : SlotTable n) : Option (SocketPtr n) → SlotTable n
  | none => s
  | some (.stray _) => s
  | some (.slot i) => s.release i

/-- `BGTestPlayer::Disconnect` -/
def disconnect (s : SlotTable n) (p : Ptr) : SlotTable n :=
  let s := s.setPlayer p { s.players p with bConnected := false }
  s.releasePtr (s.players p).pSocket

/-- `BGTestPlayer::SetSocket` -/
def setSocketOf (s : SlotTable n) (p : Ptr) (i : Fin n) : SlotTable n :=
  let s := s.releasePtr (s.players p).pSocket
  let s := s.setPlayer p { s.players p with pSocket := some (.slot i) }
  s.addRef i

/-- `BGTestSocket::OnClose` -/
def onClose (s : SlotTable n) (i : Fin n) : SlotTable n :=
  let s := match (s.arrSocket i).pPlayer with
    | none => s
    | some p => s.disconnect p
  { s.setSocket i (s.arrSocket i).onClose with loggedIn := Function.update s.loggedIn i false }

/-- `closesocket` -/
def closesocket (s : SlotTable n) : Option Handle → SlotTable n
  | none => s
  | some hSocket => { s with opened := s.opened.erase hSocket }

/-- `Close` and `GracefulClose`, which differ in how the connection is shut down. -/
def close (s : SlotTable n) (i : Fin n) : SlotTable n :=
  match (s.arrSocket i).hSocket with
  | none => s
  | some hSocket =>
      let s := s.setSocket i { s.arrSocket i with hSocket := none }
      ((s.onClose i).closesocket (some hSocket)).release i

/-- The scan of `CreateSocket` for a slot that is not used. -/
def scan (s : SlotTable n) : Option (Fin n) :=
  (List.finRange n).find? fun i => (s.arrSocket i).bitIs socketBitNotUsed

/-- `CreateSocket`, with the retries that are left. -/
def createSocket (newSocket : Option Handle) (addr port : ℕ) :
    ℕ → SlotTable n → Option (Fin n) × SlotTable n
  | 0, s => (none, s)
  | retries + 1, s =>
      match s.scan with
      | none => (none, s)
      | some newId =>
          let c := (s.arrSocket newId).claim newId newSocket addr port
          match c.1 with
          | .taken => (some newId, { s.setSocket newId c.2 with
              loggedIn := Function.update s.loggedIn newId false })
          | .forced => createSocket newSocket addr port retries (s.setSocket newId c.2)
          | .busy => createSocket newSocket addr port retries (s.setSocket newId c.2)

/-- `s_createSocketRetryCnt` -/
def createSocketRetryCnt : ℕ := 3

/-- `BGIOSocket::Initialize`: `added` is what `HandleAdd` returns, `ok` says whether the
`WSARecv` of the first `Read` succeeds. -/
def initSocket (s : SlotTable n) (i : Fin n) (added ok : Bool) : SlotTable n :=
  if !added then s.close i
  else
    let s := s.addRef i
    if ok then s else s.close i

/-- `BGIOServer::OnIOCallback`, where `accept` returns `newSocket`. -/
def onIOCallback (s : SlotTable n) (newSocket : Option Handle) (addr port : ℕ) (added ok : Bool) :
    SlotTable n :=
  let s := { s with opened := s.opened ∪ newSocket.toFinset }
  match s.createSocket newSocket addr port createSocketRetryCnt with
  | (none, s) => s.closesocket newSocket
  | (some i, s) => (s.initSocket i added ok).release i

/-- `BGTestServer::FindGameWorld`, in an array of `BG_MAX_GAME_WORLD_NUM` worlds. -/
def findGameWorld (s : SlotTable n) (nId : ℤ) : Option (List Ptr) :=
  if s.arrGameWorld.length ≤ nId then none else s.arrGameWorld[nId.toNat]?

/-- The loop of `BGGameWorld::AddPlayer`. -/
def addPlayer : List Ptr → SlotTable n → Option Ptr × SlotTable n
  | [], s => (none, s)
  | p :: ps, s =>
      if (s.players p).isConnected then addPlayer ps s
      else
        match (s.players p).connect with
        | (true, player) => (some p, s.setPlayer p player)
        | (false, _) => addPlayer ps s

/-- `LoginOn` around `RequestDataLoad`, which is empty. -/
def loading (s : SlotTable n) (i : Fin n) : SlotTable n :=
  let s := s.setSocket i ((s.arrSocket i).bitSet socketBitLoading)
  s.setSocket i ((s.arrSocket i).bitReset socketBitLoading)

/-- `LoginOn` in the world that it found. `LoadComplete` sends two packets. -/
def enterWorld (s : SlotTable n) (i : Fin n) (world : List Ptr) : SlotTable n :=
  let (pPlayer, s) := addPlayer world s
  let s := s.setSocket i { s.arrSocket i with pPlayer := pPlayer }
  match pPlayer with
  | none => s
  | some p =>
      let s := s.setSocketOf p i
      { s.setSocket i ((s.arrSocket i).bitSet socketBitLogin) with
        loggedIn := Function.update s.loggedIn i true }

/-- `LoginOn` -/
def loginOn (s : SlotTable n) (i : Fin n) : SlotTable n :=
  if !(s.arrSocket i).bitIs socketBitConnected then s
  else
    let s := s.loading i
    match s.findGameWorld (s.arrSocket i).nWorldId with
    | none => s
    | some world => s.enterWorld i world

/-- The state that `Initialize` leaves: every slot as it was constructed, with a read
buffer of its own, and players that are not connected. -/
def start (arrGameWorld : List (List Ptr)) (pSocket : Ptr → Option (SocketPtr n)) :
    SlotTable n where
  arrSocket := fun i => .new i
  players := fun p => ⟨false, pSocket p⟩
  arrGameWorld := arrGameWorld
  opened := ∅
  loggedIn := fun _ => false

end SlotTable

/-- The operations. -/
inductive SlotAct (n : ℕ)
  /-- `accept` returns `newSocket`, and `OnIOCallback` goes on with it. -/
  | accept (newSocket : Option Handle) (addr port : ℕ) (added ok : Bool)
  /-- A `CS_Login` packet on the slot. -/
  | login (i : Fin n)
  /-- `Close` or `GracefulClose` of the slot. The `Release` that ends a read completion is the
  subject of `Lifecycle`. -/
  | close (i : Fin n)

/-- One operation. `accept` returns a handle that is not open, and
`CreateIoCompletionPort` refuses `INVALID_SOCKET`. -/
def slotStep {n : ℕ} (s : SlotTable n) : SlotAct n → Option (SlotTable n)
  | .accept newSocket addr port added ok =>
      if Disjoint s.opened newSocket.toFinset ∧ (newSocket = none → added = false) then
        some (s.onIOCallback newSocket addr port added ok)
      else none
  | .login i => some (s.loginOn i)
  | .close i => some (s.close i)

end BGIocpServer
