import BGIocpServer.SlotPlayers
import BGIocpServer.SlotRefs

/-!
# Slots and handles

`BGIOServer::OnIOCallback` only logs that `accept` has failed, and goes on: the slot that
`CreateSocket` returns gets `INVALID_SOCKET`, `HandleAdd` refuses it, and `Close` finds
nothing to close. A valid handle is always given back.

## Main results

* `owned_of_reaches`: every used slot owns an open handle and no slot is deleted, as long as
  `accept` succeeds and every slot keeps a reference.
* `leaked_of_reaches`: a slot taken by a failed `accept` is never free again.
-/

namespace BGIocpServer
open Kit

variable {n : ℕ}

/-- `accept` returns `INVALID_SOCKET`. -/
def SlotAct.noHandle : SlotAct n → Bool
  | .accept none _ _ _ _ => true
  | .accept (some _) _ _ _ _ | .login _ | .close _ => false

/-- `accept` fails only when no slot is free, and no operation releases the last reference
of a slot. -/
def Accepted (s : SlotTable n) (a : SlotAct n) : Prop :=
  (a.noHandle = true → ∀ i, (s.arrSocket i).bitIs socketBitNotUsed = false) ∧
    ∀ i, (s.givesBack i a : ℤ) < (s.arrSocket i).nRef

instance (s : SlotTable n) (a : SlotAct n) : Decidable (Accepted s a) :=
  inferInstanceAs (Decidable (_ ∧ _))

namespace SlotView
variable {v w : SlotView n}

/-- Every used slot has a handle. -/
def Handled (v : SlotView n) : Prop :=
  ∀ i, (v.slots i).bitIs socketBitNotUsed = false → (v.slots i).hSocket ≠ none

/-- One slot is written. -/
theorem Handled.set (h : v.Handled) {i : Fin n} {c : SlotCore}
    (hslots : w.slots = Function.update v.slots i c)
    (hself : c.bitIs socketBitNotUsed = false → c.hSocket ≠ none) : w.Handled := by
  intro j hj
  rw [hslots] at hj ⊢
  by_cases hji : j = i
  · rw [hji, Function.update_self] at hj ⊢
    exact hself hj
  · rw [Function.update_of_ne hji] at hj ⊢
    exact h j hj

/-- A closed slot is not used. -/
theorem Tidy.notUsed_shut (ht : v.Tidy) (i : Fin n) (hSocket : Handle) :
    ((v.shut i hSocket).slots i).bitIs socketBitNotUsed = true := by
  obtain ⟨used, login, hbits⟩ := ht.bits i
  simp only [SlotView.shut, Function.update_self, SlotCore.bitIs, hbits, closedBits_slotBits,
    notUsed_slotBits, Bool.not_false]

/-- `Close` of any slot. -/
theorem Handled.shut (h : v.Handled) (ht : v.Tidy) {i : Fin n} {hSocket : Handle} :
    (v.shut i hSocket).Handled := by
  refine h.set rfl fun hused => ?_
  have hfree := ht.notUsed_shut i hSocket
  simp only [SlotView.shut, Function.update_self] at hfree
  simp [hfree] at hused

/-- `LoginOn` does not write `SOCKET_BIT_NOT_USED`. -/
theorem Tidy.notUsed_login (ht : v.Tidy) (i : Fin n) {b : BitVec 32}
    (hb : b = 0#32 ∨ b = socketBitLogin) :
    ((loadedBits (v.slots i).nBit ||| b) &&& socketBitNotUsed == socketBitNotUsed) =
      (v.slots i).bitIs socketBitNotUsed := by
  obtain ⟨used, login, hbits⟩ := ht.bits i
  rw [SlotCore.bitIs, hbits, loadedBits_slotBits]
  rcases hb with rfl | rfl
  · rw [BitVec.or_zero]
  · rw [login_slotBits, notUsed_slotBits, notUsed_slotBits]

/-- Nor does it write the handle. -/
theorem Handled.login (h : v.Handled) (ht : v.Tidy) {i : Fin n} {c : SlotCore} {b : BitVec 32}
    (hslots : w.slots = Function.update v.slots i c)
    (hbit : c.nBit = loadedBits (v.slots i).nBit ||| b) (hb : b = 0#32 ∨ b = socketBitLogin)
    (hhandle : c.hSocket = (v.slots i).hSocket) : w.Handled := by
  refine h.set hslots fun hused => ?_
  rw [hhandle]
  rw [SlotCore.bitIs, hbit, ht.notUsed_login i hb] at hused
  exact h i hused

/-- Every operation in which `accept` takes no slot in vain. -/
theorem Handled.step {a : SlotAct n} (h : v.Handled) (ht : v.Tidy) (hstep : ViewStep v a w)
    (hok : a.noHandle = true → ∀ i, (v.slots i).bitIs socketBitNotUsed = false) : w.Handled := by
  cases hstep with
  | full newSocket addr port added ok hfull => exact h
  | opened newSocket addr port i hnew hfree => exact h.set rfl fun _ => by simp
  | failed newSocket addr port added ok i hnew hfree hfail =>
      have htake : (v.take i (some newSocket)).Handled := h.set rfl fun _ => by simp
      exact htake.shut (ht.take fun x hx => Option.some.inj hx ▸ hnew)
  | leaked addr port ok i hfree => simp [hok rfl i] at hfree
  | closed i hSocket hi => exact h.shut ht
  | idle i hi => exact h
  | stale i hi => exact h
  | noWorld i hi => exact h.login ht rfl (BitVec.or_zero).symm (.inl rfl) rfl
  | noPlayer i hi => exact h.login ht rfl (BitVec.or_zero).symm (.inl rfl) rfl
  | seated i p hi hp => exact h.login ht rfl rfl (.inr rfl) rfl

/-- A connection attempt that fails with a handle. -/
theorem notUsed_of_failed (ht : v.Tidy) {newSocket : Handle} {addr port : ℕ} {added ok : Bool}
    (hfail : (added && ok) = false)
    (hstep : ViewStep v (.accept (some newSocket) addr port added ok) w) (i : Fin n)
    (hi : (v.slots i).bitIs socketBitNotUsed = true) :
    (w.slots i).bitIs socketBitNotUsed = true := by
  cases hstep with
  | full newSocket addr port added ok hfull => exact hi
  | opened newSocket addr port j hnew hfree => simp at hfail
  | failed newSocket addr port added ok j hnew hfree hfail' =>
      by_cases hij : i = j
      · subst hij
        exact (ht.take fun x hx => Option.some.inj hx ▸ hnew).notUsed_shut i newSocket
      · simpa [SlotView.shut, SlotView.take, hij] using hi

/-- A slot is used and has no handle. -/
def Leaked (v : SlotView n) (i : Fin n) : Prop :=
  (v.slots i).bitIs socketBitNotUsed = false ∧ (v.slots i).hSocket = none

/-- Nothing frees such a slot. -/
theorem Leaked.step {a : SlotAct n} {i : Fin n} (h : v.Leaked i) (ht : v.Tidy)
    (hstep : ViewStep v a w) : w.Leaked i := by
  have hother : ∀ j c, i ≠ j → w.slots = Function.update v.slots j c → w.Leaked i := by
    intro j c hij hslots
    rw [Leaked, hslots, Function.update_of_ne hij]
    exact h
  have hlogin : ∀ j b pPlayer, (b = 0#32 ∨ b = socketBitLogin) →
      w.slots = Function.update v.slots j { v.slots j with
        nBit := loadedBits (v.slots j).nBit ||| b, pPlayer := pPlayer } → w.Leaked i := by
    intro j b pPlayer hb hslots
    by_cases hij : i = j
    · subst hij
      rw [Leaked, hslots, Function.update_self]
      exact ⟨(ht.notUsed_login i hb).trans h.1, h.2⟩
    · exact hother j _ hij hslots
  obtain ⟨hused, hnone⟩ := h
  cases hstep with
  | full newSocket addr port added ok hfull => exact ⟨hused, hnone⟩
  | opened newSocket addr port j hnew hfree =>
      exact hother j _ (fun hij => by simp [← hij, hused] at hfree) rfl
  | failed newSocket addr port added ok j hnew hfree hfail =>
      have hslots : ((v.take j (some newSocket)).shut j newSocket).slots = Function.update v.slots j
          ⟨closedBits (takenBits (v.slots j).nBit), none, 0, none⟩ := by
        simp only [SlotView.shut, SlotView.take, Function.update_idem, Function.update_self]
      exact hother j _ (fun hij => by simp [← hij, hused] at hfree) hslots
  | leaked addr port ok j hfree =>
      exact hother j _ (fun hij => by simp [← hij, hused] at hfree) rfl
  | closed j hSocket hj => exact hother j _ (fun hij => by simp [← hij, hnone] at hj) rfl
  | idle j hj => exact ⟨hused, hnone⟩
  | stale j hj => exact ⟨hused, hnone⟩
  | noWorld j hj =>
      refine hlogin j 0#32 (v.slots j).pPlayer (.inl rfl) ?_
      simp only [load, BitVec.or_zero]
  | noPlayer j hj =>
      refine hlogin j 0#32 none (.inl rfl) ?_
      simp only [refuse, BitVec.or_zero]
  | seated j p hj hp => exact hlogin j socketBitLogin (some p) (.inr rfl) rfl

end SlotView

section Runs
variable {arrGameWorld : List (List Ptr)} {pSocket : Ptr → Option (SocketPtr n)} {s : SlotTable n}

/-- What holds between the operations of a run. -/
theorem handled_of_reaches (h : Reaches slotStep Accepted (.start arrGameWorld pSocket) s) :
    s.view.Tidy ∧ s.view.Handled ∧ ∃ refs, SlotTable.Alive s.objects refs := by
  refine h.invariant
    (fun s => s.view.Tidy ∧ s.view.Handled ∧ ∃ refs, SlotTable.Alive s.objects refs) ?_ ?_
  · refine ⟨SlotTable.tidy_start, fun i hi => ?_, _, SlotTable.alive_start⟩
    have hfree : (socketBitNotUsed &&& socketBitNotUsed == socketBitNotUsed) = true := by decide
    exact absurd (hfree.symm.trans hi) (by decide)
  · rintro t a u ⟨ht, hh, refs, halive⟩ ⟨hok, hlast⟩ hstep
    have hview := slotStep_spec ht hstep
    exact ⟨ht.step hview, hh.step ht hview hok, halive.step ht hlast hstep⟩

/-- A slot that a failed `accept` has taken stays taken, in every run. -/
theorem leaked_of_reaches {C : SlotTable n → SlotAct n → Prop} {t : SlotTable n} {i : Fin n}
    (hs : s.view.Tidy) (hleak : s.view.Leaked i) (h : Reaches slotStep C s t) :
    t.view.Leaked i := by
  have hinv : t.view.Tidy ∧ t.view.Leaked i := by
    refine h.invariant (fun s => s.view.Tidy ∧ s.view.Leaked i) ⟨hs, hleak⟩ ?_
    rintro t a u ⟨ht, hl⟩ _ hstep
    have hview := slotStep_spec ht hstep
    exact ⟨ht.step hview, hl.step ht hview⟩
  exact hinv.2

end Runs

end BGIocpServer
