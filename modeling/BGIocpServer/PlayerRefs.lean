import BGIocpServer.Slots

/-!
# The references that players take

One player object over the logins and logouts that it serves. `SetSocket` takes a reference
of the socket, and both `Disconnect` and the next `SetSocket` release it, since
`Disconnect` keeps `m_pSocket`. The events are the calls of `AddRef` and `Release`, in
order; `setSocketOf_eq` and `disconnect_eq` say that the slots' counters follow them.

## Main definitions

* `PlayerLog`: a player with its events.
* `PlayerAct`, `playerStep`: logins and logouts.
* `RefsBalanced`: every `AddRef` has its one `Release`.

## Main results

* `refsBalanced_iff`: the references balance exactly as long as the player has served no
  more than one login.
-/

namespace BGIocpServer
open Kit

variable {n : ℕ}

/-- A call on a socket that was passed to `SetSocket`. -/
inductive RefEvent (n : ℕ)
  | addRef (i : Fin n)
  | release (i : Fin n)
  deriving DecidableEq

/-- A player and what it has done to its sockets. `initial` says that `m_pSocket` still is
what the constructor found; releasing that is no event. -/
structure PlayerLog (n : ℕ) where
  player : BGTestPlayer n
  initial : Bool
  events : List (RefEvent n)

namespace PlayerLog

/-- `if (m_pSocket) m_pSocket->Release()` -/
def released (s : PlayerLog n) : List (RefEvent n) :=
  match s.initial, s.player.pSocket with
  | false, some (.slot i) => [.release i]
  | _, _ => []

/-- `SetSocket` -/
def setSocket (s : PlayerLog n) (i : Fin n) : PlayerLog n where
  player := { s.player with pSocket := some (.slot i) }
  initial := false
  events := s.events ++ (s.released ++ [.addRef i])

/-- `Disconnect` -/
def disconnect (s : PlayerLog n) : PlayerLog n :=
  { s with
    player := { s.player with bConnected := false }
    events := s.events ++ s.released }

/-- The constructor of `BGTestPlayer`, which leaves `m_pSocket` as it is. -/
def start (pSocket : Option (SocketPtr n)) : PlayerLog n := ⟨⟨false, pSocket⟩, true, []⟩

end PlayerLog

inductive PlayerAct (n : ℕ)
  /-- `AddPlayer` comes to the player and takes it, and `SetSocket` follows. -/
  | login (i : Fin n)
  /-- `OnClose` of the player's socket. -/
  | logout

/-- One login or logout. `AddPlayer` takes no player that is connected, and none that
`Connect` refuses. -/
def playerStep (s : PlayerLog n) : PlayerAct n → Option (PlayerLog n)
  | .login i =>
      if s.player.isConnected then none
      else
        match s.player.connect with
        | (true, player) => some ({ s with player := player }.setSocket i)
        | (false, _) => none
  | .logout => if s.player.isConnected then some s.disconnect else none

def PlayerAct.isLogin : PlayerAct n → Bool
  | .login _ => true
  | .logout => false

/-- No socket is ever released more often than it was referenced, and between two logins
every reference is released. -/
structure RefsBalanced (s : PlayerLog n) : Prop where
  le : ∀ events, events <+: s.events → ∀ i,
    events.count (.release i) ≤ events.count (.addRef i)
  out : s.player.isConnected = false → ∀ i,
    s.events.count (.release i) = s.events.count (.addRef i)

/-! ## The slots -/

/-- What an event does to the counters. -/
def RefEvent.apply (s : SlotTable n) : RefEvent n → SlotTable n
  | .addRef i => s.addRef i
  | .release i => s.release i

section Table
variable {s : SlotTable n} {log : PlayerLog n} {p : Ptr}

/-- The release of `m_pSocket`, if it is not that of the constructor's value. -/
theorem releasePtr_eq (hinitial : log.initial = true →
      ∀ i, log.player.pSocket ≠ some (.slot i)) :
    s.releasePtr log.player.pSocket = log.released.foldl RefEvent.apply s := by
  cases hptr : log.player.pSocket with
  | none => simp [PlayerLog.released, hptr, SlotTable.releasePtr]
  | some q =>
      cases q with
      | stray address => simp [PlayerLog.released, hptr, SlotTable.releasePtr]
      | slot i =>
          have hfalse : log.initial = false := by
            by_contra htrue
            exact hinitial (Bool.not_eq_false _ ▸ htrue) i hptr
          simp [PlayerLog.released, hptr, hfalse, SlotTable.releasePtr, RefEvent.apply]

/-- `SetSocket` in the slot array. -/
theorem setSocketOf_eq (hp : s.players p = log.player)
    (hinitial : log.initial = true → ∀ i, log.player.pSocket ≠ some (.slot i)) (i : Fin n) :
    s.setSocketOf p i =
      ((log.released ++ [RefEvent.addRef i]).foldl RefEvent.apply s).setPlayer p
        (log.setSocket i).player := by
  have hrelease := releasePtr_eq (s := s) hinitial
  have hplayers : (s.releasePtr log.player.pSocket).players = s.players := by
    match log.player.pSocket with
    | none => rfl
    | some (.stray _) => rfl
    | some (.slot _) => rfl
  rw [List.foldl_append, ← hrelease, SlotTable.setSocketOf, hp]
  simp only [hplayers, hp]
  rfl

/-- Releasing a slot changes no player. -/
theorem releasePtr_setPlayer (player : BGTestPlayer n) (q : Option (SocketPtr n)) :
    (s.setPlayer p player).releasePtr q = (s.releasePtr q).setPlayer p player := by
  match q with
  | none => rfl
  | some (.stray _) => rfl
  | some (.slot _) => rfl

/-- `Disconnect` in the slot array. -/
theorem disconnect_eq (hp : s.players p = log.player)
    (hinitial : log.initial = true → ∀ i, log.player.pSocket ≠ some (.slot i)) :
    s.disconnect p =
      (log.released.foldl RefEvent.apply s).setPlayer p log.disconnect.player := by
  have hptr : ((s.setPlayer p { s.players p with bConnected := false }).players p).pSocket =
      log.player.pSocket := by
    simp only [SlotTable.setPlayer, Function.update_self, hp]
  rw [← releasePtr_eq hinitial, ← releasePtr_setPlayer, SlotTable.disconnect, hptr, hp]
  rfl

end Table

/-! ## The logins of a player -/

/-- A player after `k` logins. -/
inductive PlayerLog.Served : PlayerLog n → ℕ → Prop
  /-- Never used. -/
  | fresh (s : PlayerLog n) (hconn : s.player.isConnected = false) (hinit : s.initial = true)
      (hev : s.events = []) : Served s 0
  /-- In its first login. -/
  | first (s : PlayerLog n) (i : Fin n) (hconn : s.player.isConnected = true)
      (hinit : s.initial = false) (hptr : s.player.pSocket = some (.slot i))
      (hev : s.events = [.addRef i]) : Served s 1
  /-- After its first logout. -/
  | left (s : PlayerLog n) (i : Fin n) (hconn : s.player.isConnected = false)
      (hinit : s.initial = false) (hptr : s.player.pSocket = some (.slot i))
      (hev : s.events = [.addRef i, .release i]) : Served s 1
  /-- The second login has released the socket of the first one again. -/
  | again (s : PlayerLog n) (k : ℕ) (i : Fin n)
      (hev : [RefEvent.addRef i, .release i, .release i] <+: s.events) : Served s (k + 2)

section Steps
variable {s t : PlayerLog n}

/-- What a login does. -/
theorem login_spec {i : Fin n} (hs : playerStep s (.login i) = some t) :
    s.player.isConnected = false ∧ t.player.isConnected = true ∧ t.initial = false ∧
      t.player.pSocket = some (.slot i) ∧
      t.events = s.events ++ (s.released ++ [RefEvent.addRef i]) := by
  cases hconn : s.player.isConnected with
  | true => simp [playerStep, hconn] at hs
  | false =>
      cases hptr : s.player.pSocket with
      | none => simp [playerStep, hconn, BGTestPlayer.connect, hptr] at hs
      | some q =>
          simp only [playerStep, hconn, Bool.false_eq_true, if_false, BGTestPlayer.connect, hptr,
            Option.some.injEq] at hs
          subst hs
          refine ⟨rfl, rfl, rfl, rfl, ?_⟩
          simp [PlayerLog.setSocket, PlayerLog.released, hptr]

/-- What a logout does: the pointer stays. -/
theorem logout_spec (hs : playerStep s .logout = some t) :
    s.player.isConnected = true ∧ t.player.isConnected = false ∧ t.initial = s.initial ∧
      t.player.pSocket = s.player.pSocket ∧ t.events = s.events ++ s.released := by
  simp only [playerStep, Option.ite_none_right_eq_some, Option.some.injEq] at hs
  obtain ⟨hconn, rfl⟩ := hs
  exact ⟨hconn, rfl, rfl, rfl, rfl⟩

theorem released_of {i : Fin n} (hinit : s.initial = false)
    (hptr : s.player.pSocket = some (.slot i)) : s.released = [.release i] := by
  simp [PlayerLog.released, hinit, hptr]

end Steps

namespace PlayerLog.Served
variable {s t : PlayerLog n} {k : ℕ}

theorem login {i : Fin n} (h : s.Served k) (hs : playerStep s (.login i) = some t) :
    t.Served (k + 1) := by
  obtain ⟨hfree, hconn', hinit', hptr', hev'⟩ := login_spec hs
  cases h with
  | fresh hconn hinit hev =>
      have hnone : s.released = [] := by simp [PlayerLog.released, hinit]
      rw [hev, hnone, List.nil_append, List.nil_append] at hev'
      exact .first t i hconn' hinit' hptr' hev'
  | first j hconn hinit hptr hev => exact absurd (hconn.symm.trans hfree) (by decide)
  | left j hconn hinit hptr hev =>
      refine .again t 0 j ⟨[.addRef i], ?_⟩
      rw [hev', hev, released_of hinit hptr]
      rfl
  | again k j hev => exact .again t (k + 1) j (hev.trans ⟨_, hev'.symm⟩)

theorem logout (h : s.Served k) (hs : playerStep s .logout = some t) : t.Served k := by
  obtain ⟨hused, hconn', hinit', hptr', hev'⟩ := logout_spec hs
  cases h with
  | fresh hconn hinit hev => exact absurd (hused.symm.trans hconn) (by decide)
  | first j hconn hinit hptr hev =>
      rw [hev, released_of hinit hptr] at hev'
      exact .left t j hconn' (hinit'.trans hinit) (hptr'.trans hptr) hev'
  | left j hconn hinit hptr hev => exact absurd (hused.symm.trans hconn) (by decide)
  | again k j hev => exact .again t k j (hev.trans ⟨_, hev'.symm⟩)

/-- Along a run the logins add up. -/
theorem run {as : List (PlayerAct n)} (h : s.Served k) (hs : runAll playerStep s as = some t) :
    t.Served (k + as.countP PlayerAct.isLogin) := by
  induction as generalizing s k with
  | nil =>
      simp only [runAll, Option.some.injEq] at hs
      exact hs ▸ h
  | cons a as ih =>
      simp only [runAll, Option.bind_eq_some_iff] at hs
      obtain ⟨r, hr, hs⟩ := hs
      cases a with
      | login i =>
          have hrest := ih (h.login hr) hs
          have hcount : (.login i :: as).countP PlayerAct.isLogin =
              as.countP PlayerAct.isLogin + 1 := List.countP_cons_of_pos rfl
          rwa [hcount, ← Nat.add_assoc, Nat.add_right_comm]
      | logout =>
          have hcount : (.logout :: as).countP PlayerAct.isLogin =
              as.countP PlayerAct.isLogin := List.countP_cons_of_neg (by simp [PlayerAct.isLogin])
          rw [hcount]
          exact ih (h.logout hr) hs

theorem balanced_iff (h : s.Served k) : RefsBalanced s ↔ k ≤ 1 := by
  cases h with
  | fresh hconn hinit hev =>
      refine iff_of_true ⟨fun events hpre i => ?_, fun _ i => by simp [hev]⟩ (Nat.zero_le 1)
      rw [hev, List.prefix_nil] at hpre
      simp [hpre]
  | first j hconn hinit hptr hev =>
      refine iff_of_true ⟨fun events hpre i => ?_, fun hfree => ?_⟩ (Nat.le_refl 1)
      · rw [hev] at hpre
        have hle := hpre.sublist.count_le (.release i)
        simp at hle
        omega
      · exact absurd (hconn.symm.trans hfree) (by decide)
  | left j hconn hinit hptr hev =>
      refine iff_of_true ⟨fun events hpre i => ?_, fun _ i => ?_⟩ (Nat.le_refl 1)
      · rw [hev] at hpre
        simp only [List.prefix_cons_iff, List.prefix_nil] at hpre
        obtain rfl | ⟨_, rfl, rfl | ⟨_, rfl, rfl⟩⟩ := hpre
        · exact Nat.le_refl 0
        · simp
        · by_cases hji : j = i <;> simp [hji]
      · rw [hev]
        by_cases hji : j = i <;> simp [hji]
  | again k j hev =>
      refine iff_of_false (fun hb => ?_) (by omega)
      have hle := hb.le _ hev j
      simp at hle

end PlayerLog.Served

/-- **When the references of a player balance**: after any logins and logouts, exactly if
there was at most one login. -/
theorem refsBalanced_iff {pSocket : Option (SocketPtr n)} {as : List (PlayerAct n)}
    {s : PlayerLog n} (h : runAll playerStep (.start pSocket) as = some s) :
    RefsBalanced s ↔ as.countP PlayerAct.isLogin ≤ 1 := by
  have hserved := (PlayerLog.Served.fresh (.start pSocket) rfl rfl rfl).run h
  rw [Nat.zero_add] at hserved
  exact hserved.balanced_iff

/-- One login and its logout. -/
theorem refsBalanced_iff_once : ∃ s : PlayerLog 2,
    runAll playerStep (.start (some (.stray 0))) [.login 0, .logout] = some s ∧
      s.events = [.addRef 0, .release 0] ∧ RefsBalanced s := by
  have hrun : ∃ s : PlayerLog 2,
      runAll playerStep (.start (some (.stray 0))) [.login 0, .logout] = some s ∧
        s.events = [.addRef 0, .release 0] := ⟨_, rfl, rfl⟩
  obtain ⟨s, hs, hev⟩ := hrun
  exact ⟨s, hs, hev, (refsBalanced_iff hs).mpr (by decide)⟩

/-- **The second login releases the socket of the first one again**, whose slot another
client may have by then. -/
theorem not_refsBalanced_twice : ¬∀ (as : List (PlayerAct 2)) (s : PlayerLog 2),
    runAll playerStep (.start (some (.stray 0))) as = some s → RefsBalanced s := by
  intro h
  have hrun : ∃ s : PlayerLog 2,
      runAll playerStep (.start (some (.stray 0))) [.login 0, .logout, .login 1] = some s ∧
        s.events = [.addRef 0, .release 0, .release 0, .addRef 1] := ⟨_, rfl, rfl⟩
  obtain ⟨s, hs, hev⟩ := hrun
  have hle := (h _ s hs).le [.addRef 0, .release 0, .release 0] ⟨[.addRef 1], hev.symm⟩ 0
  exact absurd hle (by decide)

end BGIocpServer
