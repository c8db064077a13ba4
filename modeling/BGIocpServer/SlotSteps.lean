import BGIocpServer.Slots

/-!
# What an operation does to the slots

The counters, the addresses and the pointers of players back to slots decide nothing
about bits, handles and players. `SlotTable.view` leaves them out, and `ViewStep` says
what each operation does to the rest, with its guards. It holds of `Tidy` states, in
which the forced reset of `CreateSocket` is never taken; all states of a run are tidy.

## Main results

* `slotStep_spec`: every operation is a `ViewStep`.
* `tidy_of_reaches`: all reachable states are tidy.
-/

namespace BGIocpServer
open Kit

/-- The fields of a slot that the operations read. -/
structure SlotCore where
  nBit : BitVec 32
  hSocket : Option Handle
  nId : ℤ
  pPlayer : Option Ptr

def BGTestSocket.core (sock : BGTestSocket) : SlotCore :=
  ⟨sock.nBit, sock.hSocket, sock.nId, sock.pPlayer⟩

/-- `BitIs` -/
def SlotCore.bitIs (c : SlotCore) (bit : BitVec 32) : Bool := c.nBit &&& bit == bit

/-- The slots, which players are connected, which handles are open. -/
structure SlotView (n : ℕ) where
  slots : Fin n → SlotCore
  connected : Ptr → Bool
  opened : Finset Handle
  loggedIn : Fin n → Bool

def SlotTable.view {n : ℕ} (s : SlotTable n) : SlotView n where
  slots := fun i => (s.arrSocket i).core
  connected := fun p => (s.players p).bConnected
  opened := s.opened
  loggedIn := s.loggedIn

/-- The bits between operations. -/
def slotBits (used login : Bool) : BitVec 32 :=
  (if used then socketBitConnected else socketBitNotUsed) |||
    (if login then socketBitLogin else 0#32)

/-- What `OnClose` writes to `m_nBit`. -/
def closedBits (b : BitVec 32) : BitVec 32 :=
  ((b &&& ~~~socketBitConnected) ||| 0#32) ||| socketBitNotUsed

/-- What `CreateSocket` writes. -/
def takenBits (b : BitVec 32) : BitVec 32 := (b &&& ~~~socketBitNotUsed) ||| socketBitConnected

/-- What `LoginOn` writes before it looks for a world. -/
def loadedBits (b : BitVec 32) : BitVec 32 := (b ||| socketBitLoading) &&& ~~~socketBitLoading

section Bits
variable (used login : Bool)

@[simp] theorem closedBits_slotBits : closedBits (slotBits used login) = slotBits false login := by
  cases used <;> cases login <;> decide

@[simp] theorem takenBits_slotBits : takenBits (slotBits used login) = slotBits true login := by
  cases used <;> cases login <;> decide

@[simp] theorem loadedBits_slotBits : loadedBits (slotBits used login) = slotBits used login := by
  cases used <;> cases login <;> decide

@[simp] theorem login_slotBits : slotBits used login ||| socketBitLogin = slotBits used true := by
  cases used <;> cases login <;> decide

@[simp] theorem notUsed_slotBits :
    (slotBits used login &&& socketBitNotUsed == socketBitNotUsed) = !used := by
  cases used <;> cases login <;> decide

@[simp] theorem connected_slotBits :
    (slotBits used login &&& socketBitConnected == socketBitConnected) = used := by
  cases used <;> cases login <;> decide

@[simp] theorem loginBit_slotBits :
    (slotBits used login &&& socketBitLogin == socketBitLogin) = login := by
  cases used <;> cases login <;> decide

end Bits

namespace SlotView
variable {n : ℕ}

/-- `CreateSocket` takes the slot. -/
def take (v : SlotView n) (i : Fin n) (newSocket : Option Handle) : SlotView n :=
  { v with
    slots := Function.update v.slots i
      ⟨takenBits (v.slots i).nBit, newSocket, i, (v.slots i).pPlayer⟩
    opened := v.opened ∪ newSocket.toFinset
    loggedIn := Function.update v.loggedIn i false }

/-- The player of the slot is disconnected. -/
def disconnect (v : SlotView n) (i : Fin n) : Ptr → Bool :=
  match (v.slots i).pPlayer with
  | none => v.connected
  | some p => Function.update v.connected p false

/-- `Close` of a slot with this handle. -/
def shut (v : SlotView n) (i : Fin n) (hSocket : Handle) : SlotView n where
  slots := Function.update v.slots i ⟨closedBits (v.slots i).nBit, none, 0, none⟩
  connected := v.disconnect i
  opened := v.opened.erase hSocket
  loggedIn := Function.update v.loggedIn i false

/-- `LoginOn` before it looks for a world. -/
def load (v : SlotView n) (i : Fin n) : SlotView n :=
  { v with
    slots := Function.update v.slots i { v.slots i with nBit := loadedBits (v.slots i).nBit } }

/-- `LoginOn` with no player left. -/
def refuse (v : SlotView n) (i : Fin n) : SlotView n :=
  { v with
    slots := Function.update v.slots i
      { v.slots i with nBit := loadedBits (v.slots i).nBit, pPlayer := none } }

/-- `LoginOn` with the player that `AddPlayer` found. -/
def seat (v : SlotView n) (i : Fin n) (p : Ptr) : SlotView n :=
  { v with
    slots := Function.update v.slots i { v.slots i with
      nBit := loadedBits (v.slots i).nBit ||| socketBitLogin, pPlayer := some p }
    connected := Function.update v.connected p true
    loggedIn := Function.update v.loggedIn i true }

/-- Between operations a slot has the bits of one of four states; an unused one was
reset, and every handle is that of an open connection. -/
structure Tidy (v : SlotView n) : Prop where
  bits : ∀ i, ∃ used login, (v.slots i).nBit = slotBits used login
  free : ∀ i, (v.slots i).bitIs socketBitNotUsed = true →
    (v.slots i).hSocket = none ∧ (v.slots i).nId = 0 ∧ (v.slots i).pPlayer = none
  owned : ∀ i h, (v.slots i).hSocket = some h → h ∈ v.opened
  owner : ∀ i j h, (v.slots i).hSocket = some h → (v.slots j).hSocket = some h → i = j

end SlotView

/-- What each operation does. -/
inductive ViewStep {n : ℕ} (v : SlotView n) : SlotAct n → SlotView n → Prop
  /-- No slot is free: the handle is closed again. -/
  | full (newSocket : Option Handle) (addr port : ℕ) (added ok : Bool)
      (hfull : ∀ i, (v.slots i).bitIs socketBitNotUsed = false) :
      ViewStep v (.accept newSocket addr port added ok) v
  /-- A slot is taken and its connection starts. -/
  | opened (newSocket : Handle) (addr port : ℕ) (i : Fin n) (hnew : newSocket ∉ v.opened)
      (hfree : (v.slots i).bitIs socketBitNotUsed = true) :
      ViewStep v (.accept (some newSocket) addr port true true) (v.take i (some newSocket))
  /-- `HandleAdd` or `WSARecv` fails: the slot is closed. -/
  | failed (newSocket : Handle) (addr port : ℕ) (added ok : Bool) (i : Fin n)
      (hnew : newSocket ∉ v.opened) (hfree : (v.slots i).bitIs socketBitNotUsed = true)
      (hfail : (added && ok) = false) :
      ViewStep v (.accept (some newSocket) addr port added ok)
        ((v.take i (some newSocket)).shut i newSocket)
  /-- `accept` has failed: the slot is taken, and `Close` finds no handle. -/
  | leaked (addr port : ℕ) (ok : Bool) (i : Fin n)
      (hfree : (v.slots i).bitIs socketBitNotUsed = true) :
      ViewStep v (.accept none addr port false ok) (v.take i none)
  | closed (i : Fin n) (hSocket : Handle) (h : (v.slots i).hSocket = some hSocket) :
      ViewStep v (.close i) (v.shut i hSocket)
  /-- `Close` of a slot without a handle. -/
  | idle (i : Fin n) (h : (v.slots i).hSocket = none) : ViewStep v (.close i) v
  /-- `LoginOn` of a slot that is not connected. -/
  | stale (i : Fin n) (h : (v.slots i).bitIs socketBitConnected = false) :
      ViewStep v (.login i) v
  | noWorld (i : Fin n) (h : (v.slots i).bitIs socketBitConnected = true) :
      ViewStep v (.login i) (v.load i)
  | noPlayer (i : Fin n) (h : (v.slots i).bitIs socketBitConnected = true) :
      ViewStep v (.login i) (v.refuse i)
  | seated (i : Fin n) (p : Ptr) (h : (v.slots i).bitIs socketBitConnected = true)
      (hp : v.connected p = false) : ViewStep v (.login i) (v.seat i p)

namespace SlotTable
variable {n : ℕ} (s : SlotTable n)

/-! ## The operations on the view -/

theorem view_setSocket (i : Fin n) (sock : BGTestSocket) : (s.setSocket i sock).view =
    { s.view with slots := Function.update s.view.slots i sock.core } := by
  simp only [view, setSocket, SlotView.mk.injEq, and_true]
  funext j
  by_cases hj : j = i
  · subst hj
    simp only [Function.update_self]
  · simp only [Function.update_of_ne hj]

/-- Assignment of what the view already shows. -/
theorem view_setSocket_self {i : Fin n} {sock : BGTestSocket}
    (h : sock.core = (s.arrSocket i).core) : (s.setSocket i sock).view = s.view := by
  rw [view_setSocket, h]
  exact congrArg (fun slots => { s.view with slots := slots }) (Function.update_eq_self i _)

/-- The counters are not in the view. -/
@[simp] theorem view_setObject (i : Fin n) (o : BGIOObject) : (s.setObject i o).view = s.view :=
  s.view_setSocket_self rfl

@[simp] theorem view_addRef (i : Fin n) : (s.addRef i).view = s.view := s.view_setObject i _

@[simp] theorem view_release (i : Fin n) : (s.release i).view = s.view := s.view_setObject i _

@[simp] theorem view_releasePtr (q : Option (SocketPtr n)) : (s.releasePtr q).view = s.view := by
  match q with
  | none => rfl
  | some (.stray _) => rfl
  | some (.slot i) => exact s.view_release i

theorem view_setPlayer (p : Ptr) (player : BGTestPlayer n) :
    (s.setPlayer p player).view =
      { s.view with connected := Function.update s.view.connected p player.bConnected } := by
  simp only [view, setPlayer, SlotView.mk.injEq, and_true, true_and]
  funext q
  by_cases hq : q = p
  · subst hq
    simp only [Function.update_self]
  · simp only [Function.update_of_ne hq]

theorem view_disconnect (p : Ptr) : (s.disconnect p).view =
    { s.view with connected := Function.update s.view.connected p false } := by
  rw [disconnect, view_releasePtr, view_setPlayer]

/-- `SetSocket` connects and disconnects nobody. -/
@[simp] theorem view_setSocketOf (p : Ptr) (i : Fin n) : (s.setSocketOf p i).view = s.view := by
  rw [setSocketOf, view_addRef, view_setPlayer]
  have hrel := s.view_releasePtr (s.players p).pSocket
  generalize s.releasePtr (s.players p).pSocket = r at hrel ⊢
  rw [← hrel]
  exact congrArg (fun connected => { r.view with connected := connected })
    (Function.update_eq_self p _)

theorem view_onClose (i : Fin n) : (s.onClose i).view = { s.view with
    slots := Function.update s.view.slots i
      ⟨closedBits (s.view.slots i).nBit, (s.view.slots i).hSocket, 0, none⟩
    connected := s.view.disconnect i
    loggedIn := Function.update s.view.loggedIn i false } := by
  have key : ∀ r : SlotTable n, r.view = { s.view with connected := s.view.disconnect i } →
      ({ r.setSocket i (r.arrSocket i).onClose with
        loggedIn := Function.update r.loggedIn i false } : SlotTable n).view = { s.view with
          slots := Function.update s.view.slots i
            ⟨closedBits (s.view.slots i).nBit, (s.view.slots i).hSocket, 0, none⟩
          connected := s.view.disconnect i
          loggedIn := Function.update s.view.loggedIn i false } := by
    intro r hr
    have hset := r.view_setSocket i (r.arrSocket i).onClose
    have hcore : (r.arrSocket i).onClose.core =
        ⟨closedBits (r.view.slots i).nBit, (r.view.slots i).hSocket, 0, none⟩ := rfl
    rw [hcore, hr] at hset
    have hlogged : r.loggedIn = s.view.loggedIn := congrArg SlotView.loggedIn hr
    rw [hlogged]
    exact congrArg (fun v : SlotView n =>
      { v with loggedIn := Function.update s.view.loggedIn i false }) hset
  simp only [onClose]
  cases hp : (s.arrSocket i).pPlayer with
  | none => exact key s (by simp only [SlotView.disconnect, view, BGTestSocket.core, hp])
  | some p =>
      refine key (s.disconnect p) ?_
      rw [view_disconnect]
      simp only [SlotView.disconnect, view, BGTestSocket.core, hp]

theorem view_closesocket (hSocket : Handle) : (s.closesocket (some hSocket)).view =
    { s.view with opened := s.view.opened.erase hSocket } := rfl

/-- `Close` of a slot that has a handle. -/
theorem view_close {i : Fin n} {hSocket : Handle} (h : (s.arrSocket i).hSocket = some hSocket) :
    (s.close i).view = s.view.shut i hSocket := by
  simp only [close, h, view_release]
  have hset := s.view_setSocket i { s.arrSocket i with hSocket := none }
  have hclose := (s.setSocket i { s.arrSocket i with hSocket := none }).view_onClose i
  have hdisc : (s.setSocket i { s.arrSocket i with hSocket := none }).view.disconnect i =
      s.view.disconnect i := by
    simp only [SlotView.disconnect, hset, Function.update_self]
    rfl
  rw [hdisc, hset] at hclose
  simp only [Function.update_self, Function.update_idem] at hclose
  rw [view_closesocket, hclose]
  rfl

/-- `Close` of a slot that has none. -/
theorem close_idle {i : Fin n} (h : (s.arrSocket i).hSocket = none) : s.close i = s := by
  simp only [close, h]

/-- `AddPlayer` finds nobody and changes nothing, or connects a player that was not
connected. -/
theorem addPlayer_spec (world : List Ptr) : addPlayer world s = (none, s) ∨
    ∃ p ∈ world, (s.players p).bConnected = false ∧
      addPlayer world s = (some p, s.setPlayer p { s.players p with bConnected := true }) := by
  induction world with
  | nil => exact .inl rfl
  | cons p ps ih =>
      have hnext : addPlayer ps s = (none, s) ∨ ∃ q ∈ p :: ps, (s.players q).bConnected = false ∧
          addPlayer ps s = (some q, s.setPlayer q { s.players q with bConnected := true }) := by
        refine ih.imp_right ?_
        rintro ⟨q, hq, hrest⟩
        exact ⟨q, List.mem_cons_of_mem p hq, hrest⟩
      rw [addPlayer]
      by_cases hconn : (s.players p).isConnected = true
      · rw [if_pos hconn]
        exact hnext
      · rw [if_neg hconn]
        cases hptr : (s.players p).pSocket with
        | none =>
            simp only [BGTestPlayer.connect, hptr]
            exact hnext
        | some q =>
            simp only [BGTestPlayer.connect, hptr]
            refine .inr ⟨p, List.mem_cons_self, ?_, by rw [hptr]⟩
            simpa only [BGTestPlayer.isConnected, Bool.not_eq_true] using hconn

theorem view_loading (i : Fin n) : (s.loading i).view = s.view.load i := by
  simp only [loading, view_setSocket]
  simp only [setSocket, Function.update_self, Function.update_idem]
  rfl

/-- Assignment to `m_pPlayer`. -/
theorem view_setPPlayer (i : Fin n) (pPlayer : Option Ptr) :
    (s.setSocket i { s.arrSocket i with pPlayer := pPlayer }).view = { s.view with
      slots := Function.update s.view.slots i { s.view.slots i with pPlayer := pPlayer } } :=
  s.view_setSocket i _

/-- The end of a successful `LoginOn`. -/
theorem view_loggedIn (i : Fin n) : ({ s.setSocket i ((s.arrSocket i).bitSet socketBitLogin) with
      loggedIn := Function.update s.loggedIn i true } : SlotTable n).view = { s.view with
        slots := Function.update s.view.slots i
          { s.view.slots i with nBit := (s.view.slots i).nBit ||| socketBitLogin }
        loggedIn := Function.update s.view.loggedIn i true } :=
  congrArg (fun v : SlotView n => { v with loggedIn := Function.update s.view.loggedIn i true })
    (s.view_setSocket i _)

/-- `LoginOn` in a world: with no player left, or with one that was not connected. -/
theorem view_enterWorld (i : Fin n) (world : List Ptr) :
    (s.enterWorld i world).view = { s.view with
        slots := Function.update s.view.slots i { s.view.slots i with pPlayer := none } } ∨
      ∃ p, s.view.connected p = false ∧ (s.enterWorld i world).view =
        { s.view with
          slots := Function.update s.view.slots i { s.view.slots i with
            nBit := (s.view.slots i).nBit ||| socketBitLogin, pPlayer := some p }
          connected := Function.update s.view.connected p true
          loggedIn := Function.update s.view.loggedIn i true } := by
  rcases s.addPlayer_spec world with hadd | ⟨p, -, hp, hadd⟩
  · left
    simp only [enterWorld, hadd]
    exact s.view_setPPlayer i none
  · right
    refine ⟨p, hp, ?_⟩
    simp only [enterWorld, hadd]
    rw [view_loggedIn, view_setSocketOf, view_setPPlayer, view_setPlayer]
    simp only [Function.update_self, Function.update_idem]

/-- `LoginOn` writes the bits, then a player, or none, then the login bit. -/
theorem view_loginOn (i : Fin n) : ViewStep s.view (.login i) (s.loginOn i).view := by
  by_cases hconn : (s.view.slots i).bitIs socketBitConnected = true
  · have hbit : (!(s.arrSocket i).bitIs socketBitConnected) = false := by
      rw [Bool.not_eq_false']
      exact hconn
    simp only [loginOn, hbit, Bool.false_eq_true, if_false]
    have hload := s.view_loading i
    generalize s.loading i = r at hload ⊢
    cases r.findGameWorld (r.arrSocket i).nWorldId with
    | none =>
        change ViewStep s.view (.login i) r.view
        rw [hload]
        exact .noWorld i hconn
    | some world =>
        change ViewStep s.view (.login i) (r.enterWorld i world).view
        rcases r.view_enterWorld i world with hview | ⟨p, hp, hview⟩
        · rw [hview, hload]
          simp only [SlotView.load, Function.update_self, Function.update_idem]
          exact .noPlayer i hconn
        · rw [hload] at hp
          rw [hview, hload]
          simp only [SlotView.load, Function.update_self, Function.update_idem]
          exact .seated i p hconn hp
  · simp only [Bool.not_eq_true] at hconn
    have hbit : (!(s.arrSocket i).bitIs socketBitConnected) = true := by
      rw [Bool.not_eq_true']
      exact hconn
    simp only [loginOn, hbit, if_true]
    exact .stale i hconn

/-- The region of `CreateSocket` on a slot that was reset. -/
theorem claim_of_reset {sock : BGTestSocket} (newId : ℕ) (newSocket : Option Handle)
    (addr port : ℕ) (hbit : sock.bitIs socketBitNotUsed = true) (hid : sock.nId = 0)
    (hplayer : sock.pPlayer = none) :
    (sock.claim newId newSocket addr port).1 = .taken ∧
      (sock.claim newId newSocket addr port).2.core =
        ⟨takenBits sock.nBit, newSocket, newId, none⟩ := by
  have hreset : sock.checkResetData = true := by
    simp [BGTestSocket.checkResetData, hbit, hid, hplayer]
  simp only [BGTestSocket.claim, hbit, hreset, Bool.not_true, Bool.false_eq_true, if_true, if_false]
  refine ⟨trivial, ?_⟩
  simp only [BGTestSocket.core, BGTestSocket.addRef, BGTestSocket.bitSet, BGTestSocket.bitReset,
    hplayer, takenBits]

/-- `CreateSocket` on slots that are reset when they are not used: it finds none, or takes
the one it finds. -/
theorem createSocket_spec (newSocket : Option Handle) (addr port retries : ℕ)
    (hfree : ∀ i, (s.view.slots i).bitIs socketBitNotUsed = true →
      (s.view.slots i).nId = 0 ∧ (s.view.slots i).pPlayer = none) :
    (∀ i, (s.view.slots i).bitIs socketBitNotUsed = false) ∧
        createSocket newSocket addr port (retries + 1) s = (none, s) ∨
      ∃ i t, (s.view.slots i).bitIs socketBitNotUsed = true ∧
        createSocket newSocket addr port (retries + 1) s = (some i, t) ∧ t.view = { s.view with
          slots := Function.update s.view.slots i
            ⟨takenBits (s.view.slots i).nBit, newSocket, i, (s.view.slots i).pPlayer⟩
          loggedIn := Function.update s.view.loggedIn i false } := by
  rw [createSocket]
  cases hscan : s.scan with
  | none =>
      refine .inl ⟨fun i => ?_, rfl⟩
      have hnone := List.find?_eq_none.mp hscan i (List.mem_finRange i)
      exact Bool.not_eq_true _ ▸ hnone
  | some i =>
      have hbit : (s.arrSocket i).bitIs socketBitNotUsed = true :=
        List.find?_some (p := fun j => (s.arrSocket j).bitIs socketBitNotUsed) hscan
      obtain ⟨hid, hplayer⟩ := hfree i hbit
      obtain ⟨htaken, hcore⟩ := claim_of_reset i newSocket addr port hbit hid hplayer
      simp only [htaken]
      refine .inr ⟨i, _, hbit, rfl, ?_⟩
      have hset := s.view_setSocket i ((s.arrSocket i).claim i newSocket addr port).2
      rw [hcore] at hset
      rw [hplayer]
      exact congrArg (fun v : SlotView n =>
        { v with loggedIn := Function.update s.view.loggedIn i false }) hset

/-- `Initialize` whose calls succeed. -/
theorem view_initSocket_ok (i : Fin n) : (s.initSocket i true true).view = s.view :=
  s.view_addRef i

/-- `Initialize` that fails ends in `Close`, on a slot that looks as before. -/
theorem initSocket_failed {i : Fin n} {added ok : Bool} (h : (added && ok) = false) :
    ∃ r : SlotTable n, r.view = s.view ∧ s.initSocket i added ok = r.close i := by
  cases added with
  | false => exact ⟨s, rfl, rfl⟩
  | true =>
      cases ok with
      | false => exact ⟨s.addRef i, s.view_addRef i, rfl⟩
      | true => simp at h

/-- A slot that looks the same has the same handle. -/
theorem hSocket_of_view {r : SlotTable n} (h : r.view = s.view) (i : Fin n) :
    (r.arrSocket i).hSocket = (s.arrSocket i).hSocket :=
  congrArg (fun v : SlotView n => (v.slots i).hSocket) h

/-- A completion of `accept`, up to the end of `OnIOCallback`. -/
theorem view_onIOCallback (h : s.view.Tidy) (newSocket : Option Handle) (addr port : ℕ)
    (added ok : Bool) (hnew : Disjoint s.opened newSocket.toFinset)
    (hadded : newSocket = none → added = false) :
    ViewStep s.view (.accept newSocket addr port added ok)
      (s.onIOCallback newSocket addr port added ok).view := by
  simp only [onIOCallback]
  rcases createSocket_spec { s with opened := s.opened ∪ newSocket.toFinset } newSocket addr port 2
    (fun i hi => (h.free i hi).2) with ⟨hfull, hcreate⟩ | ⟨i, t, hbit, hcreate, ht⟩
  · have hview : (closesocket { s with opened := s.opened ∪ newSocket.toFinset } newSocket).view =
        s.view := by
      cases newSocket with
      | none => simp [closesocket, view]
      | some hSocket =>
          have hnot : hSocket ∉ s.opened := by simpa using hnew
          simp [closesocket, view, hnot]
    simp only [createSocketRetryCnt, hcreate]
    rw [hview]
    exact .full newSocket addr port added ok hfull
  · simp only [createSocketRetryCnt, hcreate, view_release]
    have htake : t.view = s.view.take i newSocket := ht
    have hhandle : (t.arrSocket i).hSocket = newSocket := by
      change (t.view.slots i).hSocket = newSocket
      rw [htake]
      simp only [SlotView.take, Function.update_self]
    cases newSocket with
    | none =>
        have hfail : (added && ok) = false := by simp [hadded rfl]
        obtain ⟨r, hr, hinit⟩ := t.initSocket_failed (i := i) hfail
        rw [hinit, close_idle r ((t.hSocket_of_view hr i).trans hhandle), hr, htake, hadded rfl]
        exact .leaked addr port ok i hbit
    | some hSocket =>
        have hnot : hSocket ∉ s.opened := by simpa using hnew
        cases hfail : added && ok with
        | false =>
            obtain ⟨r, hr, hinit⟩ := t.initSocket_failed (i := i) hfail
            rw [hinit, view_close r ((t.hSocket_of_view hr i).trans hhandle), hr, htake]
            exact .failed hSocket addr port added ok i hnot hbit hfail
        | true =>
            simp only [Bool.and_eq_true] at hfail
            obtain ⟨rfl, rfl⟩ := hfail
            rw [view_initSocket_ok, htake]
            exact .opened hSocket addr port i hnot hbit

end SlotTable

/-- Every operation is one of these. -/
theorem slotStep_spec {n : ℕ} {s s' : SlotTable n} {a : SlotAct n} (h : s.view.Tidy)
    (hstep : slotStep s a = some s') : ViewStep s.view a s'.view := by
  cases a with
  | accept newSocket addr port added ok =>
      simp only [slotStep, Option.ite_none_right_eq_some, Option.some.injEq] at hstep
      obtain ⟨⟨hnew, hadded⟩, rfl⟩ := hstep
      exact s.view_onIOCallback h newSocket addr port added ok hnew hadded
  | login i =>
      simp only [slotStep, Option.some.injEq] at hstep
      exact hstep ▸ s.view_loginOn i
  | close i =>
      simp only [slotStep, Option.some.injEq] at hstep
      subst hstep
      cases hhandle : (s.arrSocket i).hSocket with
      | none =>
          rw [s.close_idle hhandle]
          exact .idle i hhandle
      | some hSocket =>
          rw [s.view_close hhandle]
          exact .closed i hSocket hhandle

/-! ## Tidy states -/

namespace SlotView
variable {n : ℕ} {v w : SlotView n}

/-- What the fields of one slot have to meet. -/
def TidyCore (c : SlotCore) : Prop :=
  ∃ used login, c.nBit = slotBits used login ∧
    (used = false → c.hSocket = none ∧ c.nId = 0 ∧ c.pPlayer = none)

namespace Tidy

theorem core (h : v.Tidy) (i : Fin n) : TidyCore (v.slots i) := by
  obtain ⟨used, login, hbits⟩ := h.bits i
  refine ⟨used, login, hbits, fun hused => h.free i ?_⟩
  rw [SlotCore.bitIs, hbits, notUsed_slotBits, hused]
  rfl

/-- A slot is written, and handles are opened or closed. -/
theorem set (h : v.Tidy) {i : Fin n} {c : SlotCore} (hslots : w.slots = Function.update v.slots i c)
    (hcore : TidyCore c)
    (hself : ∀ x, c.hSocket = some x → x ∈ w.opened ∧ ∀ j, j ≠ i → (v.slots j).hSocket ≠ some x)
    (hothers : ∀ j x, j ≠ i → (v.slots j).hSocket = some x → x ∈ w.opened) : w.Tidy := by
  have hall : ∀ j, TidyCore (w.slots j) := by
    intro j
    rw [hslots]
    by_cases hj : j = i
    · rw [hj, Function.update_self]
      exact hcore
    · rw [Function.update_of_ne hj]
      exact h.core j
  constructor
  · intro j
    obtain ⟨used, login, hbits, -⟩ := hall j
    exact ⟨used, login, hbits⟩
  · intro j hj
    obtain ⟨used, login, hbits, hfree⟩ := hall j
    rw [SlotCore.bitIs, hbits, notUsed_slotBits, Bool.not_eq_true'] at hj
    exact hfree hj
  · intro j x hx
    by_cases hj : j = i
    · rw [hslots, hj, Function.update_self] at hx
      exact (hself x hx).1
    · rw [hslots, Function.update_of_ne hj] at hx
      exact hothers j x hj hx
  · intro j k x hj hk
    rw [hslots] at hj hk
    by_cases hji : j = i <;> by_cases hki : k = i
    · rw [hji, hki]
    · rw [hji, Function.update_self] at hj
      rw [Function.update_of_ne hki] at hk
      exact absurd hk ((hself x hj).2 k hki)
    · rw [hki, Function.update_self] at hk
      rw [Function.update_of_ne hji] at hj
      exact absurd hj ((hself x hk).2 j hji)
    · rw [Function.update_of_ne hji] at hj
      rw [Function.update_of_ne hki] at hk
      exact h.owner j k x hj hk

/-- A slot keeps its handle, and so do the others. -/
theorem keep (h : v.Tidy) {i : Fin n} {c : SlotCore}
    (hslots : w.slots = Function.update v.slots i c)
    (hopened : w.opened = v.opened) (hcore : TidyCore c)
    (hhandle : c.hSocket = (v.slots i).hSocket) : w.Tidy := by
  refine h.set hslots hcore (fun x hx => ?_) (fun j x _ hx => ?_)
  · rw [hhandle] at hx
    refine ⟨hopened ▸ h.owned i x hx, fun j hj hjx => hj (h.owner j i x hjx hx)⟩
  · exact hopened ▸ h.owned j x hx

theorem take (h : v.Tidy) {i : Fin n} {newSocket : Option Handle}
    (hnew : ∀ x, newSocket = some x → x ∉ v.opened) : (v.take i newSocket).Tidy := by
  obtain ⟨used, login, hbits⟩ := h.bits i
  refine h.set rfl ⟨true, login, ?_, by simp⟩ (fun x hx => ?_) (fun j x _ hx => ?_)
  · simp only [hbits, takenBits_slotBits]
  · change newSocket = some x at hx
    refine ⟨?_, fun j _ hjx => hnew x hx (h.owned j x hjx)⟩
    simp [SlotView.take, hx]
  · exact Finset.mem_union_left _ (h.owned j x hx)

theorem shut (h : v.Tidy) {i : Fin n} {hSocket : Handle} (hi : (v.slots i).hSocket = some hSocket) :
    (v.shut i hSocket).Tidy := by
  obtain ⟨used, login, hbits⟩ := h.bits i
  refine h.set rfl ⟨false, login, ?_, fun _ => ⟨rfl, rfl, rfl⟩⟩ (by simp) (fun j x hj hx => ?_)
  · simp only [hbits, closedBits_slotBits]
  · refine Finset.mem_erase.mpr ⟨fun heq => hj (h.owner j i x hx (heq ▸ hi)), h.owned j x hx⟩

/-- `LoginOn` on a connected slot. -/
theorem login (h : v.Tidy) {i : Fin n} (pPlayer : Option Ptr) (b : BitVec 32)
    (hconn : (v.slots i).bitIs socketBitConnected = true)
    (hslots : w.slots = Function.update v.slots i
      { v.slots i with nBit := loadedBits (v.slots i).nBit ||| b, pPlayer := pPlayer })
    (hopened : w.opened = v.opened) (hb : b = 0#32 ∨ b = socketBitLogin) : w.Tidy := by
  obtain ⟨used, login, hbits⟩ := h.bits i
  rw [SlotCore.bitIs, hbits, connected_slotBits] at hconn
  subst hconn
  refine h.keep hslots hopened ?_ rfl
  rcases hb with rfl | rfl
  · exact ⟨true, login, by simp [hbits], by simp⟩
  · exact ⟨true, true, by simp [hbits], by simp⟩

end Tidy

/-- Every operation keeps `Tidy`. -/
theorem Tidy.step {a : SlotAct n} (h : v.Tidy) (hstep : ViewStep v a w) : w.Tidy := by
  cases hstep with
  | full newSocket addr port added ok hfull => exact h
  | opened newSocket addr port i hnew hfree =>
      exact h.take fun x hx => Option.some.inj hx ▸ hnew
  | failed newSocket addr port added ok i hnew hfree hfail =>
      refine (h.take fun x hx => Option.some.inj hx ▸ hnew).shut ?_
      simp only [SlotView.take, Function.update_self]
  | leaked addr port ok i hfree => exact h.take fun x hx => by simp at hx
  | closed i hSocket hi => exact h.shut hi
  | idle i hi => exact h
  | stale i hi => exact h
  | noWorld i hi =>
      refine h.login (v.slots i).pPlayer 0#32 hi ?_ rfl (.inl rfl)
      simp only [load, BitVec.or_zero]
  | noPlayer i hi =>
      refine h.login none 0#32 hi ?_ rfl (.inl rfl)
      simp only [refuse, BitVec.or_zero]
  | seated i p hi hp => exact h.login (some p) socketBitLogin hi rfl rfl (.inr rfl)

end SlotView

section Runs
variable {n : ℕ} {arrGameWorld : List (List Ptr)} {pSocket : Ptr → Option (SocketPtr n)}
  {s : SlotTable n}

/-- The state that `Initialize` leaves is tidy. -/
theorem SlotTable.tidy_start : (SlotTable.start arrGameWorld pSocket).view.Tidy := by
  constructor
  · exact fun i => ⟨false, false, (BitVec.or_zero : _ ||| 0#32 = _).symm⟩
  · exact fun i _ => ⟨rfl, rfl, rfl⟩
  · intro i x hx
    simp [SlotTable.view, SlotTable.start, BGTestSocket.core, BGTestSocket.new] at hx
  · intro i j x hx
    simp [SlotTable.view, SlotTable.start, BGTestSocket.core, BGTestSocket.new] at hx

/-- **All reachable states are tidy**, whatever the operations. -/
theorem tidy_of_reaches {C : SlotTable n → SlotAct n → Prop}
    (h : Reaches slotStep C (.start arrGameWorld pSocket) s) : s.view.Tidy := by
  refine h.invariant (fun s => s.view.Tidy) SlotTable.tidy_start ?_
  intro t a u ht _ hstep
  exact ht.step (slotStep_spec ht hstep)

end Runs

end BGIocpServer
