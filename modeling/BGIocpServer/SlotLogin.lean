import BGIocpServer.SlotSteps

/-!
# The login bit over the connections of a slot

`LoginOn` sets `SOCKET_BIT_LOGIN`, and only the forced reset, which no sequence of
operations reaches, clears it: `OnClose` resets `SOCKET_BIT_CONNECTED` alone. The bit is
right as long as nobody closes a connection that has logged in.

## Main results

* `login_of_reaches`: the bit, and the bits of a slot that `CreateSocket` returns.
* `not_login_reused`: after a login and a close, the next connection is logged in.
-/

namespace BGIocpServer
open Kit

variable {n : ℕ}

/-- The login bit belongs to a connection that is there and has logged in. -/
def SlotView.LoginOk (v : SlotView n) : Prop :=
  ∀ i, (v.slots i).bitIs socketBitLogin = true →
    (v.slots i).bitIs socketBitConnected = true ∧ v.loggedIn i = true

/-- No connection is closed that has logged in. -/
def LoggedOut (s : SlotTable n) : SlotAct n → Prop
  | .close i => (s.arrSocket i).hSocket ≠ none → (s.arrSocket i).bitIs socketBitLogin = false
  | .accept .. | .login _ => True

instance (s : SlotTable n) : ∀ a, Decidable (LoggedOut s a)
  | .close i => inferInstanceAs (Decidable
      ((s.arrSocket i).hSocket ≠ none → (s.arrSocket i).bitIs socketBitLogin = false))
  | .accept .. | .login _ => isTrue trivial

namespace SlotView
variable {v w : SlotView n}

/-- One slot is written, by an operation that keeps the bit right there. -/
theorem LoginOk.set (h : v.LoginOk) {i : Fin n} {c : SlotCore} {b : Bool}
    (hslots : w.slots = Function.update v.slots i c)
    (hlogged : w.loggedIn = Function.update v.loggedIn i b)
    (hself : c.bitIs socketBitLogin = true → c.bitIs socketBitConnected = true ∧ b = true) :
    w.LoginOk := by
  intro j hj
  rw [hslots] at hj ⊢
  rw [hlogged]
  by_cases hji : j = i
  · subst hji
    rw [Function.update_self] at hj ⊢
    rw [Function.update_self]
    exact hself hj
  · rw [Function.update_of_ne hji] at hj ⊢
    rw [Function.update_of_ne hji]
    exact h j hj

/-- A slot that is not used has no login bit. -/
theorem LoginOk.free (h : v.LoginOk) (ht : v.Tidy) {i : Fin n}
    (hfree : (v.slots i).bitIs socketBitNotUsed = true) :
    (v.slots i).nBit = slotBits false false := by
  obtain ⟨used, login, hbits⟩ := ht.bits i
  have hlogin := h i
  rw [SlotCore.bitIs, hbits, notUsed_slotBits, Bool.not_eq_true'] at hfree
  simp only [SlotCore.bitIs, hbits, loginBit_slotBits, connected_slotBits, hfree] at hlogin ⊢
  cases login with
  | false => rfl
  | true => simp at hlogin

/-- `CreateSocket` returns a slot without the login bit. -/
theorem LoginOk.take (h : v.LoginOk) (ht : v.Tidy) {i : Fin n} {newSocket : Option Handle}
    (hfree : (v.slots i).bitIs socketBitNotUsed = true) : (v.take i newSocket).LoginOk := by
  refine h.set rfl rfl fun hlogin => ?_
  simp only [SlotCore.bitIs, h.free ht hfree, takenBits_slotBits, loginBit_slotBits] at hlogin
  simp at hlogin

/-- `Close` of a slot without the bit. -/
theorem LoginOk.shut (h : v.LoginOk) (ht : v.Tidy) {i : Fin n} {hSocket : Handle}
    (hlogout : (v.slots i).bitIs socketBitLogin = false) : (v.shut i hSocket).LoginOk := by
  obtain ⟨used, login, hbits⟩ := ht.bits i
  rw [SlotCore.bitIs, hbits, loginBit_slotBits] at hlogout
  refine h.set rfl rfl fun hlogin => ?_
  simp only [SlotCore.bitIs, hbits, closedBits_slotBits, loginBit_slotBits, hlogout] at hlogin
  simp at hlogin

/-- `LoginOn` that does not get to its end leaves the bit. -/
theorem LoginOk.loaded (h : v.LoginOk) (ht : v.Tidy) {i : Fin n} {c : SlotCore}
    (hslots : w.slots = Function.update v.slots i c) (hlogged : w.loggedIn = v.loggedIn)
    (hbit : c.nBit = loadedBits (v.slots i).nBit) : w.LoginOk := by
  obtain ⟨used, login, hbits⟩ := ht.bits i
  refine h.set hslots (hlogged.trans (Function.update_eq_self i v.loggedIn).symm) fun hlogin => ?_
  rw [hbits, loadedBits_slotBits, ← hbits] at hbit
  simp only [SlotCore.bitIs, hbit] at hlogin ⊢
  exact h i hlogin

/-- Every operation that closes nobody who has logged in. -/
theorem LoginOk.step {a : SlotAct n} (h : v.LoginOk) (ht : v.Tidy) (hstep : ViewStep v a w)
    (hok : ∀ i, a = .close i → (v.slots i).hSocket ≠ none →
      (v.slots i).bitIs socketBitLogin = false) : w.LoginOk := by
  cases hstep with
  | full newSocket addr port added ok hfull => exact h
  | opened newSocket addr port i hnew hfree => exact h.take ht hfree
  | failed newSocket addr port added ok i hnew hfree hfail =>
      refine (h.take ht hfree).shut (ht.take fun x hx => Option.some.inj hx ▸ hnew) ?_
      simp only [SlotCore.bitIs, SlotView.take, Function.update_self, h.free ht hfree,
        takenBits_slotBits, loginBit_slotBits]
  | leaked addr port ok i hfree => exact h.take ht hfree
  | closed i hSocket hi => exact h.shut ht (hok i rfl (by simp [hi]))
  | idle i hi => exact h
  | stale i hi => exact h
  | noWorld i hi => exact h.loaded ht rfl rfl rfl
  | noPlayer i hi => exact h.loaded ht rfl rfl rfl
  | seated i p hi hp =>
      obtain ⟨used, login, hbits⟩ := ht.bits i
      refine h.set rfl rfl fun _ => ⟨?_, rfl⟩
      rw [SlotCore.bitIs, hbits, connected_slotBits] at hi
      simp only [SlotCore.bitIs, hbits, loadedBits_slotBits, login_slotBits, connected_slotBits, hi]

end SlotView

section Runs
variable {arrGameWorld : List (List Ptr)} {pSocket : Ptr → Option (SocketPtr n)} {s : SlotTable n}

/-- **The login bit is that of the current connection** in every run that closes nobody
who has logged in: it is set only if `LoginOn` has completed during the connection, and
`CreateSocket` returns a slot with `SOCKET_BIT_CONNECTED` alone. -/
theorem login_of_reaches (h : Reaches slotStep LoggedOut (.start arrGameWorld pSocket) s) :
    (∀ i, (s.arrSocket i).bitIs socketBitLogin = true → s.loggedIn i = true) ∧
      ∀ newSocket addr port i t,
        s.createSocket newSocket addr port SlotTable.createSocketRetryCnt = (some i, t) →
          (t.arrSocket i).nBit = socketBitConnected := by
  have hinv : s.view.Tidy ∧ s.view.LoginOk := by
    refine h.invariant (fun s => s.view.Tidy ∧ s.view.LoginOk) ?_ ?_
    · refine ⟨SlotTable.tidy_start, fun i hi => ?_⟩
      exact absurd hi (by change ¬ (socketBitNotUsed &&& socketBitLogin == socketBitLogin) = true
                          decide)
    · rintro t a u ⟨ht, hl⟩ hok hstep
      have hview := slotStep_spec ht hstep
      refine ⟨ht.step hview, hl.step ht hview ?_⟩
      intro i hi
      subst hi
      exact hok
  obtain ⟨ht, hl⟩ := hinv
  refine ⟨fun i hi => (hl i hi).2, fun newSocket addr port i t hcreate => ?_⟩
  rcases s.createSocket_spec newSocket addr port 2 (fun i hi => (ht.free i hi).2) with
    ⟨-, hnone⟩ | ⟨j, u, hfree, hsome, hu⟩
  · simp [SlotTable.createSocketRetryCnt, hnone] at hcreate
  · rw [SlotTable.createSocketRetryCnt, hsome, Prod.mk.injEq, Option.some.injEq] at hcreate
    obtain ⟨rfl, rfl⟩ := hcreate
    change (u.view.slots j).nBit = socketBitConnected
    rw [hu]
    simp only [Function.update_self, hl.free ht hfree, takenBits_slotBits]
    decide

end Runs

/-- A server with one slot, where `m_nWorldId` finds a world with one player. -/
def oneSlot : SlotTable 1 := .start [[], [0]] fun _ => some (.stray 0)

/-- One connection closes without a login, the next one logs in. -/
theorem login_of_reaches_second : ∃ s : SlotTable 1,
    (s.arrSocket 0).bitIs socketBitLogin = true ∧ s.loggedIn 0 = true := by
  obtain ⟨s, hrun, hbit⟩ : ∃ s, runAll slotStep oneSlot
      [.accept (some 7) 1 2 true true, .close 0, .accept (some 8) 1 2 true true, .login 0] =
        some s ∧ (s.arrSocket 0).bitIs socketBitLogin = true := ⟨_, rfl, by decide⟩
  exact ⟨s, hbit, (login_of_reaches (Reaches.of_runAll hrun (by decide))).1 0 hbit⟩

/-- A login, a close, and the next connection on the slot is logged in without `LoginOn`. -/
theorem not_login_reused : ¬ ∀ s : SlotTable 1, Reaches slotStep Always oneSlot s →
    ∀ i, (s.arrSocket i).bitIs socketBitLogin = true → s.loggedIn i = true := by
  intro hall
  obtain ⟨s, hrun, hbit, hlogged⟩ : ∃ s, runAll slotStep oneSlot
      [.accept (some 7) 1 2 true true, .login 0, .close 0, .accept (some 8) 3 4 true true] =
        some s ∧ (s.arrSocket 0).bitIs socketBitLogin = true ∧ s.loggedIn 0 = false :=
    ⟨_, rfl, by decide, by decide⟩
  have htrue := hall s (.always_of_runAll hrun) 0 hbit
  rw [hlogged] at htrue
  cases htrue

end BGIocpServer
