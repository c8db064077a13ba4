import BGIocpServer.GameWorld
import BGIocpServer.StressClient
import Mathlib.Data.List.Find

/-!
# The exits of `LoginOn`

`LoginOn` with what the slot array leaves out: the depth of each slot's `m_lock`, which a
thread may enter again, and the packets handed to `Send`. `SlotTable.loginOn` is what it
does to the slots (`toSlotTable_loginOn`), and the search is that of the game worlds
(`addPlayerOver_fst`).

## Main definitions

* `LoginState.loginOn`: `LoginOn` with its `Lock` and `Unlock`.
* `LoginState.Refused`: the three ways not to complete a login.
* `LoginState.AllOrNothing`: what such a login should leave behind.

## Main results

* `allOrNothing_iff`: `LoginOn` is all or nothing if the slot is not connected or the
  login completes, and never else.
-/

namespace BGIocpServer

variable {n : ℕ}

/-! ## The search -/

/-- `AddPlayer` returns this player when it comes to it. -/
def SlotTable.canTake (s : SlotTable n) (p : Ptr) : Bool :=
  !(s.players p).isConnected && (s.players p).pSocket.isSome

/-- The player that `AddPlayer` returns. -/
theorem SlotTable.addPlayer_fst (s : SlotTable n) (world : List Ptr) :
    (addPlayer world s).1 = world.find? s.canTake := by
  induction world with
  | nil => rfl
  | cons p ps ih =>
      rw [addPlayer, List.find?_cons]
      cases hconn : (s.players p).isConnected with
      | true => simpa [canTake, hconn] using ih
      | false =>
          cases hptr : (s.players p).pSocket with
          | none => simpa [canTake, hconn, hptr, BGTestPlayer.connect] using ih
          | some q => simp [canTake, hconn, hptr, BGTestPlayer.connect]

/-- A game world whose players are those of the table gives the same answer. -/
theorem BGGameWorld.addPlayerOver_fst (s : SlotTable n) (world : BGGameWorld n) (is : List ℕ)
    (h : ∀ i ∈ is, ∃ object, world.arrObject[i]? = some (some (.player object (s.players i)))) :
    (world.addPlayerOver is).map Prod.fst = some (SlotTable.addPlayer is s).1 := by
  have hplayers : ∀ i ∈ is, ∃ object fields,
      world.arrObject[i]? = some (some (.player object fields)) := by
    intro i hi
    obtain ⟨object, hget⟩ := h i hi
    exact ⟨object, _, hget⟩
  have hpred : ∀ i ∈ is, (world.isFree i && world.hasSocket i) = s.canTake i := by
    intro i hi
    obtain ⟨object, hget⟩ := h i hi
    rw [isFree_of hget, hasSocket_of hget, SlotTable.canTake]
  rw [addPlayerOver_eq is hplayers, SlotTable.addPlayer_fst, Option.map_some]
  exact congrArg some (List.find?_congr hpred)

/-! ## `LoginOn` -/

/-- `sc_packet_login` -/
structure ScPacketLogin where
  size : ℕ
  type : PacketType
  clientId : ℤ
  worldId : ℤ
  objectId : ℤ
  deriving DecidableEq, Repr

/-- `sc_packet_put_object` -/
structure ScPacketPutObject where
  size : ℕ
  type : PacketType
  objectType : ℤ
  objectId : ℤ
  x : ℤ
  y : ℤ
  deriving DecidableEq, Repr

inductive ScPacket
  | login (packet : ScPacketLogin)
  | putObject (packet : ScPacketPutObject)
  deriving DecidableEq, Repr

structure LoginState (n : ℕ) extends SlotTable n where
  /-- How often `m_lock` of a slot has been entered and not left. -/
  lock : Fin n → ℕ
  /-- The base classes of the players. -/
  objects : Ptr → BGGameObject
  /-- What has been handed to `Send` of a slot. -/
  sent : Fin n → List ScPacket

namespace LoginState

/-- `Lock` of a slot. -/
def enter (s : LoginState n) (i : Fin n) : LoginState n :=
  { s with lock := Function.update s.lock i (s.lock i + 1) }

/-- `Unlock` of a slot. -/
def leave (s : LoginState n) (i : Fin n) : LoginState n :=
  { s with lock := Function.update s.lock i (s.lock i - 1) }

/-- What an operation leaves in the slots and players. -/
def setTable (s : LoginState n) (t : SlotTable n) : LoginState n := { s with toSlotTable := t }

/-- `Send` -/
def send (s : LoginState n) (i : Fin n) (packet : ScPacket) : LoginState n :=
  { s with sent := Function.update s.sent i (s.sent i ++ [packet]) }

/-- `LoadComplete`, where `m_pPlayer` is `p`. -/
def loadComplete (s : LoginState n) (i : Fin n) (p : Ptr) : LoginState n :=
  let s := s.send i (.login
    { size := 19, type := .scLogin, clientId := (s.arrSocket i).nId
      worldId := (s.objects p).nGameWorIdIndex, objectId := (s.objects p).nObjectId })
  s.send i (.putObject
    { size := 16, type := .scPutObject, objectType := ObjectType.player.value
      objectId := (s.objects p).nObjectId, x := (s.objects p).position.x
      y := (s.objects p).position.y })

/-- `LoginOn` -/
def loginOn (s : LoginState n) (i : Fin n) : LoginState n :=
  let s := s.enter i
  if !(s.arrSocket i).bitIs socketBitConnected then s.leave i
  else
    let s := s.setTable (s.loading i)
    match s.findGameWorld (s.arrSocket i).nWorldId with
    -- `return` without `Unlock`
    | none => s
    | some world =>
        let (pPlayer, t) := SlotTable.addPlayer world s.toSlotTable
        let s := s.setTable t
        let s := s.setTable (s.setSocket i { s.arrSocket i with pPlayer := pPlayer })
        match pPlayer with
        -- again, and `m_pPlayer` is null by now
        | none => s
        | some p =>
            let s := s.setTable (s.setSocketOf p i)
            let s := s.loadComplete i p
            let s := s.setTable { s.setSocket i ((s.arrSocket i).bitSet socketBitLogin) with
              loggedIn := Function.update s.loggedIn i true }
            s.leave i

/-- How a login is refused. -/
inductive Refused (s : LoginState n) (i : Fin n) : Prop
  | notConnected (h : (s.arrSocket i).bitIs socketBitConnected = false)
  | noWorld (h : s.findGameWorld (s.arrSocket i).nWorldId = none)
  | noPlayer (world : List Ptr) (h : s.findGameWorld (s.arrSocket i).nWorldId = some world)
      (hadd : (SlotTable.addPlayer world s.toSlotTable).1 = none)

/-- What `LoginOn` should leave. -/
structure AllOrNothing (s : LoginState n) (i : Fin n) : Prop where
  lock : (s.loginOn i).lock i = s.lock i
  bits : s.Refused i → ((s.loginOn i).arrSocket i).nBit = (s.arrSocket i).nBit
  player : s.Refused i → ((s.loginOn i).arrSocket i).pPlayer = (s.arrSocket i).pPlayer
  silent : s.Refused i → (s.loginOn i).sent i = s.sent i

/-- The world exists and has a player that `AddPlayer` can return. -/
def HasSeat (s : LoginState n) (i : Fin n) : Prop :=
  ∃ world, s.arrGameWorld[(s.arrSocket i).nWorldId.toNat]? = some world ∧
    ∃ p ∈ world, (s.players p).bConnected = false ∧ (s.players p).pSocket ≠ none

section Exits
variable {s : LoginState n} {i : Fin n}

@[simp] theorem toSlotTable_setTable (t : SlotTable n) : (s.setTable t).toSlotTable = t := rfl
@[simp] theorem toSlotTable_enter : (s.enter i).toSlotTable = s.toSlotTable := rfl
@[simp] theorem toSlotTable_leave : (s.leave i).toSlotTable = s.toSlotTable := rfl
@[simp] theorem toSlotTable_loadComplete (p : Ptr) :
    (s.loadComplete i p).toSlotTable = s.toSlotTable := rfl
@[simp] theorem lock_setTable (t : SlotTable n) : (s.setTable t).lock = s.lock := rfl
@[simp] theorem lock_loadComplete (p : Ptr) : (s.loadComplete i p).lock = s.lock := rfl
@[simp] theorem leave_enter : (s.enter i).leave i = s := by
  simp [enter, leave]

/-- The players decide, and `RequestDataLoad` does not change them. -/
@[simp] theorem canTake_loading (t : SlotTable n) : (t.loading i).canTake = t.canTake := rfl

@[simp] theorem findGameWorld_loading (t : SlotTable n) (nId : ℤ) :
    (t.loading i).findGameWorld nId = t.findGameWorld nId := rfl

@[simp] theorem nWorldId_loading (t : SlotTable n) :
    ((t.loading i).arrSocket i).nWorldId = (t.arrSocket i).nWorldId := by
  simp [SlotTable.loading, SlotTable.setSocket, BGTestSocket.bitSet, BGTestSocket.bitReset]

/-- What `LoginOn` does to the slots. -/
theorem toSlotTable_loginOn (s : LoginState n) (i : Fin n) :
    (s.loginOn i).toSlotTable = s.toSlotTable.loginOn i := by
  cases hbit : (s.arrSocket i).bitIs socketBitConnected with
  | false => simp [loginOn, SlotTable.loginOn, hbit]
  | true =>
      cases hworld : s.findGameWorld (s.arrSocket i).nWorldId with
      | none => simp [loginOn, SlotTable.loginOn, hbit, hworld]
      | some world =>
          cases hadd : SlotTable.addPlayer world (s.loading i) with
          | mk pPlayer t =>
              cases pPlayer with
              | none =>
                  simp [loginOn, SlotTable.loginOn, SlotTable.enterWorld, hbit, hworld, hadd]
              | some p =>
                  simp [loginOn, SlotTable.loginOn, SlotTable.enterWorld, hbit, hworld, hadd]

theorem loginOn_notConnected (h : (s.arrSocket i).bitIs socketBitConnected = false) :
    s.loginOn i = s := by
  simp [loginOn, h]

/-- Without a world, or without a player in it, `m_lock` stays entered. -/
theorem lock_refused (h : (s.arrSocket i).bitIs socketBitConnected = true)
    (hrefused : s.Refused i) : (s.loginOn i).lock i = s.lock i + 1 := by
  cases hrefused with
  | notConnected hbit => exact absurd (h.symm.trans hbit) (by decide)
  | noWorld hworld => simp [loginOn, h, hworld, enter]
  | noPlayer world hworld hadd =>
      rw [SlotTable.addPlayer_fst] at hadd
      simp [loginOn, h, hworld, SlotTable.addPlayer_fst, hadd, enter]

/-- A refused login sends nothing: what `LoginOn` misses is the lock and `m_pPlayer`. -/
theorem sent_refused (hrefused : s.Refused i) : (s.loginOn i).sent = s.sent := by
  by_cases h : (s.arrSocket i).bitIs socketBitConnected = true
  · cases hrefused with
    | notConnected hbit => exact absurd (h.symm.trans hbit) (by decide)
    | noWorld hworld => simp [loginOn, h, hworld, enter, setTable]
    | noPlayer world hworld hadd =>
        rw [SlotTable.addPlayer_fst] at hadd
        simp [loginOn, h, hworld, SlotTable.addPlayer_fst, hadd, enter, setTable]
  · rw [loginOn_notConnected (Bool.not_eq_true _ ▸ h)]

/-- A login that completes unlocks. -/
theorem lock_completed (hrefused : ¬s.Refused i) : (s.loginOn i).lock i = s.lock i := by
  have hbit : (s.arrSocket i).bitIs socketBitConnected = true := by
    by_contra hbit
    exact hrefused (.notConnected (Bool.not_eq_true _ ▸ hbit))
  cases hworld : s.findGameWorld (s.arrSocket i).nWorldId with
  | none => exact absurd (.noWorld hworld) hrefused
  | some world =>
      cases hadd : (SlotTable.addPlayer world s.toSlotTable).1 with
      | none => exact absurd (.noPlayer world hworld hadd) hrefused
      | some p =>
          rw [SlotTable.addPlayer_fst] at hadd
          simp [loginOn, hbit, hworld, SlotTable.addPlayer_fst, hadd, enter, leave]

/-- The bound of `FindGameWorld` is that of the array. -/
theorem findGameWorld_eq {nId : ℤ} (h : 0 ≤ nId) :
    s.findGameWorld nId = s.arrGameWorld[nId.toNat]? := by
  rw [SlotTable.findGameWorld]
  split
  · exact (List.getElem?_eq_none (by omega)).symm
  · rfl

theorem not_refused_iff (hworld : 0 ≤ (s.arrSocket i).nWorldId) :
    ¬s.Refused i ↔ (s.arrSocket i).bitIs socketBitConnected = true ∧ s.HasSeat i := by
  constructor
  · intro h
    refine ⟨?_, ?_⟩
    · by_contra hbit
      exact h (.notConnected (Bool.not_eq_true _ ▸ hbit))
    · cases hfind : s.findGameWorld (s.arrSocket i).nWorldId with
      | none => exact absurd (.noWorld hfind) h
      | some world =>
          cases hadd : (SlotTable.addPlayer world s.toSlotTable).1 with
          | none => exact absurd (.noPlayer world hfind hadd) h
          | some p =>
              rw [SlotTable.addPlayer_fst] at hadd
              have htake := List.find?_some hadd
              rw [findGameWorld_eq hworld] at hfind
              refine ⟨world, hfind, p, List.mem_of_find?_eq_some hadd, ?_⟩
              simpa [SlotTable.canTake, BGTestPlayer.isConnected, Option.isSome_iff_ne_none]
                using htake
  · rintro ⟨hbit, world, hget, p, hp, hfree, hptr⟩ h
    rw [← findGameWorld_eq hworld] at hget
    cases h with
    | notConnected hbit' => exact absurd (hbit.symm.trans hbit') (by decide)
    | noWorld hfind => exact absurd (hget.symm.trans hfind) (by simp)
    | noPlayer world' hfind hadd =>
        obtain rfl := Option.some.inj (hget.symm.trans hfind)
        rw [SlotTable.addPlayer_fst, List.find?_eq_none] at hadd
        refine hadd p hp ?_
        simp [SlotTable.canTake, BGTestPlayer.isConnected, hfree,
          Option.isSome_iff_ne_none.mpr hptr]

end Exits
end LoginState

/-- **When `LoginOn` is all or nothing**: exactly if the slot is not connected, or its
world exists and has a player that is free and has had a socket. Otherwise the slot's
lock stays entered. -/
theorem allOrNothing_iff (s : LoginState n) (i : Fin n)
    (hworld : 0 ≤ (s.arrSocket i).nWorldId) :
    s.AllOrNothing i ↔ (s.arrSocket i).bitIs socketBitConnected = false ∨ s.HasSeat i := by
  constructor
  · intro h
    by_cases hbit : (s.arrSocket i).bitIs socketBitConnected = true
    · refine .inr ((LoginState.not_refused_iff hworld).mp fun hrefused => ?_).2
      have hheld := LoginState.lock_refused hbit hrefused
      rw [h.lock] at hheld
      omega
    · exact .inl (Bool.not_eq_true _ ▸ hbit)
  · intro h
    by_cases hbit : (s.arrSocket i).bitIs socketBitConnected = true
    · have hseat := h.resolve_left (by simp [hbit])
      have hcompletes := (LoginState.not_refused_iff hworld).mpr ⟨hbit, hseat⟩
      exact ⟨LoginState.lock_completed hcompletes, fun hr => absurd hr hcompletes,
        fun hr => absurd hr hcompletes, fun hr => absurd hr hcompletes⟩
    · have hsame := LoginState.loginOn_notConnected (Bool.not_eq_true _ ▸ hbit)
      constructor <;> rw [hsame]
      all_goals exact fun _ => rfl

/-- One slot that has just been accepted, with the `m_nWorldId` of its constructor. -/
def acceptedSlot (arrGameWorld : List (List Ptr)) (pSocket : Ptr → Option (SocketPtr 1)) :
    LoginState 1 where
  toSlotTable := (SlotTable.start arrGameWorld pSocket).onIOCallback (some 5) 1 2 true true
  lock := fun _ => 0
  objects := fun p => ⟨0, p, .player, ⟨0, 0⟩, 0⟩
  sent := fun _ => []

/-- With two worlds and a player that has had a socket, the login completes. -/
theorem allOrNothing_iff_seated :
    (acceptedSlot [[], [0]] fun _ => some (.stray 0)).AllOrNothing 0 :=
  (allOrNothing_iff _ 0 (by decide)).mpr (.inr ⟨[0], rfl, 0, by decide, rfl, by decide⟩)

/-- In the server as it is, with one world, the first login leaves the lock entered. -/
theorem not_allOrNothing_accepted :
    ¬(acceptedSlot [[0]] fun _ => some (.stray 0)).AllOrNothing 0 := by
  intro h
  exact absurd h.lock (by decide)

end BGIocpServer
