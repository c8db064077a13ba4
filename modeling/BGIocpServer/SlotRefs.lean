import BGIocpServer.SlotSteps

/-!
# The references of the slots

A slot is an element of an array, but `Release` of its last reference deletes it all the
same. Each slot has the reference of its constructor, `CreateSocket` and `Read` take one, and
`Close` and the end of `BGIOServer::OnIOCallback` release one. A `HandleAdd` that fails skips
`Read`, and so one reference more is released than was taken.

## Main definitions

* `SlotTable.givesBack`: the references that an operation releases without having taken them.
* `SlotTable.Alive`: every slot has a reference.

## Main results

* `SlotTable.Alive.step`: an operation that leaves each slot a reference deletes none.
* `freed_of_refused`: a `HandleAdd` that fails on a valid handle deletes the slot.
-/

namespace BGIocpServer
open Kit

variable {n : ℕ}

/-- The reference of the slot that `Release` through this pointer gives back. -/
def SocketPtr.gives (j : Fin n) : Option (SocketPtr n) → ℕ
  | some (.slot i) => if i = j then 1 else 0
  | some (.stray _) | none => 0

/-- What `Initialize` does to the counters of a slot with this handle: nothing, where `Close`
finds none; else `Read` takes a reference, and `Close` releases one after a failure. -/
def BGIOObject.initialized (o : BGIOObject) (newSocket : Option Handle) (added ok : Bool) :
    BGIOObject :=
  match newSocket, added, ok with
  | none, _, _ => o
  | some _, false, _ => o.release .general
  | some _, true, false => (o.addRef .general).release .general
  | some _, true, true => o.addRef .general

/-- What a connection attempt does to them. -/
def BGIOObject.attempted (o : BGIOObject) (newSocket : Option Handle) (added ok : Bool) :
    BGIOObject :=
  ((o.addRef .general).initialized newSocket added ok).release .general

namespace SlotTable

/-- `m_pSocket` of the player that `AddPlayer` finds for the slot. -/
def seatPtr (s : SlotTable n) (i : Fin n) : Option (SocketPtr n) :=
  if (s.arrSocket i).bitIs socketBitConnected then
    (s.findGameWorld (s.arrSocket i).nWorldId).bind fun world =>
      (addPlayer world s).1.bind fun p => (s.players p).pSocket
  else none

/-- `m_pSocket` of the slot's player. -/
def playerPtr (s : SlotTable n) (i : Fin n) : Option (SocketPtr n) :=
  (s.arrSocket i).pPlayer.bind fun p => (s.players p).pSocket

/-- The references of the slot `j` that an operation releases without having taken them: one
that `Close` or the player gives back, and that of the slot that `HandleAdd` refuses, for which
`Close` and `OnIOCallback` release one each and only `CreateSocket` has taken one. -/
def givesBack (s : SlotTable n) (j : Fin n) : SlotAct n → ℕ
  | .accept (some _) _ _ false _ => if s.scan = some j then 1 else 0
  | .accept .. => 0
  | .login i => SocketPtr.gives j (s.seatPtr i)
  | .close i =>
      match (s.arrSocket i).hSocket with
      | none => 0
      | some _ => SocketPtr.gives j (s.playerPtr i) + if i = j then 1 else 0

/-- The counters of the slots. -/
def objects (s : SlotTable n) (i : Fin n) : BGIOObject := (s.arrSocket i).toBGIOObject

/-! ## The operations on the counters -/

variable (s : SlotTable n)

theorem objects_setSocket (i : Fin n) (sock : BGTestSocket) :
    (s.setSocket i sock).objects = Function.update s.objects i sock.toBGIOObject := by
  funext j
  simp only [objects, setSocket]
  by_cases hj : j = i
  · subst hj
    rw [Function.update_self, Function.update_self]
  · rw [Function.update_of_ne hj, Function.update_of_ne hj]
    rfl

/-- Assignment to other fields. -/
theorem objects_setSocket_same (i : Fin n) (sock : BGTestSocket)
    (h : sock.toBGIOObject = s.objects i) : (s.setSocket i sock).objects = s.objects := by
  rw [objects_setSocket, h, Function.update_eq_self]

theorem objects_addRef (i : Fin n) :
    (s.addRef i).objects = Function.update s.objects i ((s.objects i).addRef .general) :=
  s.objects_setSocket i _

theorem objects_release (i : Fin n) :
    (s.release i).objects = Function.update s.objects i ((s.objects i).release .general) :=
  s.objects_setSocket i _

end SlotTable

/-- `Release` through a pointer. -/
def dropPtr (objects : Fin n → BGIOObject) : Option (SocketPtr n) → Fin n → BGIOObject
  | some (.slot i) => Function.update objects i ((objects i).release .general)
  | some (.stray _) | none => objects

namespace SlotTable
variable (s : SlotTable n)

theorem objects_releasePtr (q : Option (SocketPtr n)) :
    (s.releasePtr q).objects = dropPtr s.objects q := by
  match q with
  | none => rfl
  | some (.stray _) => rfl
  | some (.slot i) => exact s.objects_release i

theorem objects_disconnect (p : Ptr) :
    (s.disconnect p).objects = dropPtr s.objects (s.players p).pSocket := by
  rw [disconnect, objects_releasePtr]
  simp only [setPlayer, Function.update_self]
  rfl

theorem objects_onClose (i : Fin n) :
    (s.onClose i).objects = dropPtr s.objects (s.playerPtr i) := by
  rw [playerPtr]
  cases hp : (s.arrSocket i).pPlayer with
  | none =>
      simp only [onClose, hp]
      exact s.objects_setSocket_same i _ rfl
  | some p =>
      simp only [onClose, hp]
      have hset := (s.disconnect p).objects_setSocket_same i
        ((s.disconnect p).arrSocket i).onClose rfl
      exact hset.trans (s.objects_disconnect p)

/-- `Close` of a slot that has a handle. -/
theorem objects_close {i : Fin n} {hSocket : Handle} (h : (s.arrSocket i).hSocket = some hSocket) :
    (s.close i).objects = Function.update (dropPtr s.objects (s.playerPtr i)) i
      ((dropPtr s.objects (s.playerPtr i) i).release .general) := by
  have hset := s.objects_setSocket_same i { s.arrSocket i with hSocket := none } rfl
  have hptr : (s.setSocket i { s.arrSocket i with hSocket := none }).playerPtr i =
      s.playerPtr i := by
    simp only [playerPtr, setSocket, Function.update_self]
  have hclose := (s.setSocket i { s.arrSocket i with hSocket := none }).objects_onClose i
  rw [hptr, hset] at hclose
  simp only [close, h]
  rw [objects_release]
  change Function.update (onClose _ i).objects i (((onClose _ i).objects i).release .general) = _
  rw [hclose]

/-- `SetSocket` releases the reference through the old pointer and takes one of the slot. -/
theorem objects_setSocketOf (p : Ptr) (i : Fin n) :
    (s.setSocketOf p i).objects = Function.update (dropPtr s.objects (s.players p).pSocket) i
      ((dropPtr s.objects (s.players p).pSocket i).addRef .general) := by
  rw [setSocketOf, objects_addRef]
  change Function.update (s.releasePtr (s.players p).pSocket).objects i
    (((s.releasePtr (s.players p).pSocket).objects i).addRef .general) = _
  rw [objects_releasePtr]

/-- Whom `AddPlayer` finds depends on the players. -/
theorem addPlayer_congr {s t : SlotTable n} (h : s.players = t.players) (world : List Ptr) :
    (addPlayer world s).1 = (addPlayer world t).1 := by
  induction world with
  | nil => rfl
  | cons p ps ih =>
      rw [addPlayer, addPlayer, ← h]
      split
      · exact ih
      · split
        · rfl
        · exact ih

/-- Assignment to `m_pPlayer`. -/
theorem objects_setPPlayer (i : Fin n) (pPlayer : Option Ptr) :
    (s.setSocket i { s.arrSocket i with pPlayer := pPlayer }).objects = s.objects :=
  s.objects_setSocket_same i { s.arrSocket i with pPlayer := pPlayer } rfl

/-- `LoginOn` in a world releases the reference through the player's old pointer, and takes
one of the slot. -/
theorem objects_enterWorld (i : Fin n) (world : List Ptr) :
    ((addPlayer world s).1 = none ∧ (s.enterWorld i world).objects = s.objects) ∨
      ∃ p, (addPlayer world s).1 = some p ∧ (s.enterWorld i world).objects =
        Function.update (dropPtr s.objects (s.players p).pSocket) i
          ((dropPtr s.objects (s.players p).pSocket i).addRef .general) := by
  rcases s.addPlayer_spec world with hadd | ⟨p, -, -, hadd⟩
  · refine .inl ⟨by rw [hadd], ?_⟩
    simp only [enterWorld, hadd]
    exact s.objects_setPPlayer i none
  · refine .inr ⟨p, by rw [hadd], ?_⟩
    simp only [enterWorld, hadd]
    obtain ⟨r, hr⟩ : ∃ r, r = s.setPlayer p { s.players p with bConnected := true } := ⟨_, rfl⟩
    have hplayer : ((r.setSocket i { r.arrSocket i with pPlayer := some p }).players p).pSocket =
        (s.players p).pSocket := by
      rw [hr]
      simp only [setSocket, setPlayer, Function.update_self]
    have hset := (r.setSocket i { r.arrSocket i with pPlayer := some p }).objects_setSocketOf p i
    rw [objects_setPPlayer, hplayer] at hset
    rw [← hr]
    obtain ⟨t, ht⟩ : ∃ t, t = (r.setSocket i
      { r.arrSocket i with pPlayer := some p }).setSocketOf p i := ⟨_, rfl⟩
    rw [← ht] at hset ⊢
    have hbit := t.objects_setSocket_same i ((t.arrSocket i).bitSet socketBitLogin) rfl
    refine hbit.trans (hset.trans ?_)
    rw [hr]
    rfl

/-- `LoginOn` before it looks for a world. -/
theorem objects_loading (i : Fin n) : (s.loading i).objects = s.objects := by
  have hset := s.objects_setSocket_same i ((s.arrSocket i).bitSet socketBitLoading) rfl
  refine Eq.trans ?_ hset
  exact (s.setSocket i ((s.arrSocket i).bitSet socketBitLoading)).objects_setSocket_same i _ rfl

/-- `LoginOn`. -/
theorem objects_loginOn (i : Fin n) : (s.loginOn i).objects = s.objects ∨
    (s.loginOn i).objects = Function.update (dropPtr s.objects (s.seatPtr i)) i
      ((dropPtr s.objects (s.seatPtr i) i).addRef .general) := by
  by_cases hconn : (s.arrSocket i).bitIs socketBitConnected = true
  · have hfind : (s.loading i).findGameWorld ((s.loading i).arrSocket i).nWorldId =
        s.findGameWorld (s.arrSocket i).nWorldId := by
      simp only [loading, setSocket, Function.update_self]
      rfl
    simp only [loginOn, hconn, Bool.not_true, Bool.false_eq_true, if_false, hfind]
    cases hworld : s.findGameWorld (s.arrSocket i).nWorldId with
    | none => exact .inl (s.objects_loading i)
    | some world =>
        rcases (s.loading i).objects_enterWorld i world with ⟨-, heq⟩ | ⟨p, hadd, heq⟩
        · exact .inl (heq.trans (s.objects_loading i))
        · have hsame : (addPlayer world s).1 = some p :=
            (addPlayer_congr (s := s) (t := s.loading i) rfl world).trans hadd
          have hptr : s.seatPtr i = (s.players p).pSocket := by
            simp only [seatPtr, if_pos hconn, hworld, hsame, Option.bind_some]
          right
          rw [hptr, ← s.objects_loading i]
          exact heq
  · left
    rw [Bool.not_eq_true] at hconn
    simp only [loginOn, hconn, Bool.not_false, if_true]

/-- `CreateSocket` takes the slot that the scan finds, if it was reset. -/
theorem createSocket_eq (h : s.view.Tidy) (newSocket : Option Handle) (addr port retries : ℕ) :
    (s.scan = none ∧ createSocket newSocket addr port (retries + 1) s = (none, s)) ∨
      ∃ i t, s.scan = some i ∧
        createSocket newSocket addr port (retries + 1) s = (some i, t) ∧
        t.objects = Function.update s.objects i ((s.objects i).addRef .general) ∧
        (t.arrSocket i).hSocket = newSocket ∧ t.playerPtr i = none := by
  rw [createSocket]
  cases hscan : s.scan with
  | none => exact .inl ⟨rfl, rfl⟩
  | some i =>
      have hbit : (s.arrSocket i).bitIs socketBitNotUsed = true :=
        List.find?_some (p := fun j => (s.arrSocket j).bitIs socketBitNotUsed) hscan
      obtain ⟨-, hid, hplayer⟩ := h.free i hbit
      obtain ⟨htaken, hcore⟩ := claim_of_reset i newSocket addr port hbit hid hplayer
      have hobject := (BGTestSocket.claim_taken htaken).2.2.2
      simp only [htaken]
      refine .inr ⟨i, _, rfl, rfl, ?_, ?_, ?_⟩
      · exact (s.objects_setSocket i _).trans (congrArg (Function.update s.objects i) hobject)
      · simp only [setSocket, Function.update_self]
        exact congrArg SlotCore.hSocket hcore
      · simp only [playerPtr, setSocket, Function.update_self]
        rw [show ((s.arrSocket i).claim i newSocket addr port).2.pPlayer = none from
          congrArg SlotCore.pPlayer hcore]
        rfl

/-- `BGIOSocket::Initialize` of a slot whose player is not set. -/
theorem objects_initSocket {i : Fin n} {newSocket : Option Handle}
    (hhandle : (s.arrSocket i).hSocket = newSocket) (hplayer : s.playerPtr i = none)
    {added ok : Bool} (hadded : newSocket = none → added = false) :
    (s.initSocket i added ok).objects =
      Function.update s.objects i ((s.objects i).initialized newSocket added ok) := by
  have hclose : ∀ r : SlotTable n, (r.arrSocket i).hSocket = newSocket → r.playerPtr i = none →
      newSocket ≠ none → (r.close i).objects =
        Function.update r.objects i ((r.objects i).release .general) := by
    intro r hr hnone hne
    obtain ⟨hSocket, hsome⟩ := Option.ne_none_iff_exists'.mp hne
    rw [r.objects_close (hr.trans hsome), hnone]
    rfl
  have hadd := s.objects_addRef i
  cases newSocket with
  | none =>
      rw [hadded rfl]
      simp only [initSocket, Bool.not_false, if_true, s.close_idle hhandle]
      exact (Function.update_eq_self i s.objects).symm
  | some hSocket =>
      cases added with
      | false => exact hclose s hhandle hplayer (Option.some_ne_none hSocket)
      | true =>
          cases ok with
          | false =>
              have hself : ((s.addRef i).arrSocket i).hSocket = some hSocket := by
                simpa only [addRef, setObject, setSocket, Function.update_self] using hhandle
              have hptr : (s.addRef i).playerPtr i = none := by
                simpa only [playerPtr, addRef, setObject, setSocket, Function.update_self]
                  using hplayer
              have hshut := hclose (s.addRef i) hself hptr (Option.some_ne_none hSocket)
              rw [hadd, Function.update_self, Function.update_idem] at hshut
              exact hshut
          | true => exact hadd

/-- A completion of `accept`, up to the end of `OnIOCallback`. -/
theorem objects_onIOCallback (h : s.view.Tidy) (newSocket : Option Handle) (addr port : ℕ)
    (added ok : Bool) (hadded : newSocket = none → added = false) :
    (s.scan = none ∧ (s.onIOCallback newSocket addr port added ok).objects = s.objects) ∨
      ∃ i, s.scan = some i ∧ (s.onIOCallback newSocket addr port added ok).objects =
        Function.update s.objects i ((s.objects i).attempted newSocket added ok) := by
  simp only [onIOCallback]
  rcases createSocket_eq { s with opened := s.opened ∪ newSocket.toFinset }
    ⟨h.bits, h.free, fun i x hx => Finset.mem_union_left _ (h.owned i x hx), h.owner⟩
    newSocket addr port 2 with ⟨hscan, hcreate⟩ | ⟨i, t, hscan, hcreate, hobjects, hhandle, hptr⟩
  · simp only [createSocketRetryCnt, hcreate]
    refine .inl ⟨hscan, ?_⟩
    cases newSocket <;> rfl
  · simp only [createSocketRetryCnt, hcreate]
    refine .inr ⟨i, hscan, ?_⟩
    rw [objects_release, t.objects_initSocket hhandle hptr hadded, hobjects]
    simp only [Function.update_self, Function.update_idem]
    rfl

end SlotTable

/-! ## Slots that have a reference -/

/-- The slots have these references, at least one each. -/
structure SlotTable.Alive (objects : Fin n → BGIOObject) (refs : Fin n → ℕ) : Prop where
  counted : ∀ i, (objects i).Counted 0 (refs i)
  pos : ∀ i, 0 < refs i

namespace SlotTable.Alive
variable {objects : Fin n → BGIOObject} {refs : Fin n → ℕ} {i : Fin n}

theorem update (h : Alive objects refs) {o : BGIOObject} {m : ℕ} (ho : o.Counted 0 m)
    (hm : 0 < m) : Alive (Function.update objects i o) (Function.update refs i m) := by
  constructor
  · intro j
    by_cases hj : j = i
    · subst hj
      rw [Function.update_self, Function.update_self]
      exact ho
    · rw [Function.update_of_ne hj, Function.update_of_ne hj]
      exact h.counted j
  · intro j
    by_cases hj : j = i
    · subst hj
      rw [Function.update_self]
      exact hm
    · rw [Function.update_of_ne hj]
      exact h.pos j

theorem addRef (h : Alive objects refs) (i : Fin n) :
    Alive (Function.update objects i ((objects i).addRef .general))
      (Function.update refs i (refs i + 1)) := by
  have hpos := h.pos i
  exact h.update ((h.counted i).addRef_general (by omega)) (Nat.succ_pos _)

/-- A reference that is not the last one is released. -/
theorem release (h : Alive objects refs) (hi : 1 < refs i) :
    Alive (Function.update objects i ((objects i).release .general))
      (Function.update refs i (refs i - 1)) := by
  have hcounted := h.counted i
  rw [← Nat.sub_add_cancel (Nat.le_of_lt hi)] at hcounted
  exact h.update hcounted.release_general (by omega)

/-- The same through a pointer. -/
theorem dropPtr (h : Alive objects refs) {q : Option (SocketPtr n)}
    (hq : ∀ j, SocketPtr.gives j q < refs j) :
    Alive (dropPtr objects q) fun j => refs j - SocketPtr.gives j q := by
  match q with
  | none => exact h
  | some (.stray _) => exact h
  | some (.slot i) =>
      have hi := hq i
      simp only [SocketPtr.gives, if_true] at hi
      have hrel := h.release hi
      have hsame : Function.update refs i (refs i - 1) =
          fun j => refs j - SocketPtr.gives j (some (.slot i)) := by
        funext j
        by_cases hj : j = i
        · subst hj
          rw [Function.update_self, SocketPtr.gives, if_pos rfl]
        · rw [Function.update_of_ne hj, SocketPtr.gives, if_neg (Ne.symm hj)]
          rfl
      rw [hsame] at hrel
      exact hrel

/-- What the counter of a slot shows. -/
theorem nRef_eq (h : Alive objects refs) (i : Fin n) : (objects i).nRef = refs i := by
  rw [(h.counted i).sum_eq]
  push_cast
  omega

theorem not_freed (h : Alive objects refs) (i : Fin n) : (objects i).freed = false := by
  have hpos := h.pos i
  exact (h.counted i).alive (by omega)

/-- A connection attempt; two references are needed where `HandleAdd` fails. -/
theorem attempted (h : Alive objects refs) {newSocket : Option Handle} {added ok : Bool}
    (hlast : newSocket ≠ none → added = false → 1 < refs i) :
    ∃ refs', Alive (Function.update objects i ((objects i).attempted newSocket added ok))
      refs' := by
  have hpos := h.pos i
  have hadd := (h.counted i).addRef_general (by omega)
  have hfin : ∀ {o : BGIOObject} {m : ℕ}, o.Counted 0 (m + 1) → 0 < m →
      ∃ refs', Alive (Function.update objects i (o.release .general)) refs' :=
    fun ho hm => ⟨_, h.update ho.release_general hm⟩
  match newSocket, added, ok with
  | none, _, _ => exact hfin hadd hpos
  | some hSocket, false, _ =>
      have htwo := hlast (Option.some_ne_none hSocket) rfl
      have hclosed := hadd.release_general
      rw [show refs i = refs i - 1 + 1 by omega] at hclosed
      exact hfin hclosed (by omega)
  | some _, true, false =>
      have hread := hadd.addRef_general (by omega)
      exact hfin hread.release_general hpos
  | some _, true, true =>
      have hread := hadd.addRef_general (by omega)
      exact hfin hread (by omega)

/-- An operation that gives back no slot's last reference leaves every slot one. -/
theorem step {s s' : SlotTable n} {a : SlotAct n} (h : Alive s.objects refs) (ht : s.view.Tidy)
    (hlast : ∀ j, (s.givesBack j a : ℤ) < (s.arrSocket j).nRef) (hstep : slotStep s a = some s') :
    ∃ refs', Alive s'.objects refs' := by
  have hgives : ∀ j, s.givesBack j a < refs j := by
    intro j
    have hj := hlast j
    have hn : (s.arrSocket j).nRef = refs j := h.nRef_eq j
    omega
  cases a with
  | accept newSocket addr port added ok =>
      simp only [slotStep, Option.ite_none_right_eq_some, Option.some.injEq] at hstep
      obtain ⟨⟨-, hadded⟩, rfl⟩ := hstep
      rcases s.objects_onIOCallback ht newSocket addr port added ok hadded with
        ⟨-, heq⟩ | ⟨i, hscan, heq⟩
      · exact ⟨refs, heq ▸ h⟩
      · rw [heq]
        refine h.attempted fun hsome hfail => ?_
        obtain ⟨hSocket, rfl⟩ := Option.ne_none_iff_exists'.mp hsome
        subst hfail
        have hi := hgives i
        simp only [givesBack, hscan, if_true] at hi
        exact hi
  | login i =>
      simp only [slotStep, Option.some.injEq] at hstep
      subst hstep
      rcases s.objects_loginOn i with heq | heq
      · exact ⟨refs, heq ▸ h⟩
      · exact ⟨_, heq ▸ (h.dropPtr hgives).addRef i⟩
  | close i =>
      simp only [slotStep, Option.some.injEq] at hstep
      subst hstep
      cases hhandle : (s.arrSocket i).hSocket with
      | none => exact ⟨refs, by rwa [s.close_idle hhandle]⟩
      | some hSocket =>
          simp only [givesBack, hhandle] at hgives
          have hptr : ∀ j, SocketPtr.gives j (s.playerPtr i) < refs j := by
            intro j
            have hj := hgives j
            omega
          have hi := hgives i
          rw [if_pos rfl] at hi
          refine ⟨_, s.objects_close hhandle ▸ (h.dropPtr hptr).release ?_⟩
          omega

end SlotTable.Alive

section Runs
variable {arrGameWorld : List (List Ptr)} {pSocket : Ptr → Option (SocketPtr n)}
  {s s' : SlotTable n}

/-- `Initialize` leaves every slot the reference of its constructor. -/
theorem SlotTable.alive_start :
    Alive (start arrGameWorld pSocket : SlotTable n).objects fun _ => 1 :=
  ⟨fun _ => BGIOObject.counted_new, fun _ => Nat.one_pos⟩

/-- A `HandleAdd` that fails on a valid handle, on a slot that has only the reference of its
constructor: two references are released and one was taken, so `OnFree` deletes the slot. -/
theorem freed_of_refused {i : Fin n} {newSocket : Handle} {addr port : ℕ} {ok : Bool}
    (ht : s.view.Tidy) (hscan : s.scan = some i) (hone : (s.objects i).Counted 0 1)
    (hstep : slotStep s (.accept (some newSocket) addr port false ok) = some s') :
    (s'.arrSocket i).freed = true := by
  simp only [slotStep, Option.ite_none_right_eq_some, Option.some.injEq] at hstep
  obtain ⟨-, rfl⟩ := hstep
  rcases s.objects_onIOCallback ht (some newSocket) addr port false ok fun _ => rfl with
    ⟨hnone, -⟩ | ⟨j, hj, heq⟩
  · simp [hnone] at hscan
  · obtain rfl : j = i := Option.some.inj (hj.symm.trans hscan)
    have hnow := congrFun heq j
    rw [Function.update_self] at hnow
    have hzero := (hone.addRef_general Nat.one_pos).release_general.release_general
    exact (congrArg BGIOObject.freed hnow).trans (hzero.freed_iff.mpr rfl)

end Runs

end BGIocpServer
