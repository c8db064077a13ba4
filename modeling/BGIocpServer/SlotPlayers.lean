import BGIocpServer.SlotLogin

/-!
# Players and connections

`LoginOn` gives its slot the player that `AddPlayer` connects, without a look at the one
the slot has (`pPlayerOld` is read and not used), and `OnClose` disconnects the one it
finds. So players and connections match as long as nobody logs in twice.

## Main results

* `matched_of_reaches`: the matching, in every run in which nobody logs in twice.
* `second_login_leaks`: a second login leaves the first player connected for good.
-/

namespace BGIocpServer
open Kit

variable {n : ℕ}

/-- Every connected player is that of exactly one connected slot, and every slot's player
is connected. -/
structure SlotTable.Matched (s : SlotTable n) : Prop where
  slot : ∀ p, (s.players p).isConnected = true →
    ∃! i, (s.arrSocket i).bitIs socketBitConnected = true ∧ (s.arrSocket i).pPlayer = some p
  player : ∀ i p, (s.arrSocket i).pPlayer = some p → (s.players p).isConnected = true

/-- Nobody logs in who has a player. -/
def FirstLogin (s : SlotTable n) : SlotAct n → Prop
  | .login i => (s.arrSocket i).bitIs socketBitConnected = true → (s.arrSocket i).pPlayer = none
  | .accept .. | .close _ => True

instance (s : SlotTable n) : ∀ a, Decidable (FirstLogin s a)
  | .login i => inferInstanceAs (Decidable
      ((s.arrSocket i).bitIs socketBitConnected = true → (s.arrSocket i).pPlayer = none))
  | .accept .. | .close _ => isTrue trivial

namespace SlotView
variable {v w : SlotView n}

/-- The connected players are those of the slots, each of one slot. -/
structure Paired (v : SlotView n) : Prop where
  connected : ∀ p, v.connected p = true ↔ ∃ i, (v.slots i).pPlayer = some p
  unique : ∀ i j p, (v.slots i).pPlayer = some p → (v.slots j).pPlayer = some p → i = j

namespace Paired

/-- One slot is written, and keeps its player. -/
theorem keep (h : v.Paired) {i : Fin n} {c : SlotCore}
    (hslots : w.slots = Function.update v.slots i c) (hplayer : c.pPlayer = (v.slots i).pPlayer)
    (hconn : w.connected = v.connected) : w.Paired := by
  have hsame : ∀ j, (w.slots j).pPlayer = (v.slots j).pPlayer := by
    intro j
    rw [hslots]
    by_cases hj : j = i
    · rw [hj, Function.update_self, hplayer]
    · rw [Function.update_of_ne hj]
  constructor
  · intro p
    simp only [hsame, hconn]
    exact h.connected p
  · intro j k p
    rw [hsame, hsame]
    exact h.unique j k p

/-- The slot gives its player away, and the player is disconnected. -/
theorem leave (h : v.Paired) {i : Fin n} {c : SlotCore}
    (hslots : w.slots = Function.update v.slots i c) (hplayer : c.pPlayer = none)
    (hconn : w.connected = v.disconnect i) : w.Paired := by
  have hsame : ∀ j p, (w.slots j).pPlayer = some p ↔ j ≠ i ∧ (v.slots j).pPlayer = some p := by
    intro j p
    rw [hslots]
    by_cases hj : j = i
    · simp [hj, hplayer]
    · simp [hj]
  constructor
  · intro p
    simp only [hsame, hconn, disconnect]
    cases hi : (v.slots i).pPlayer with
    | none =>
        simp only [h.connected p]
        refine exists_congr fun j => ⟨fun hj => ⟨?_, hj⟩, And.right⟩
        rintro rfl
        simp [hi] at hj
    | some q =>
        by_cases hpq : p = q
        · subst hpq
          simp only [Function.update_self, Bool.false_eq_true, false_iff, not_exists, not_and]
          exact fun j hj hjp => hj (h.unique j i p hjp hi)
        · simp only [Function.update_of_ne hpq, h.connected p]
          refine exists_congr fun j => ⟨fun hj => ⟨?_, hj⟩, And.right⟩
          rintro rfl
          rw [hi, Option.some.injEq] at hj
          exact hpq hj.symm
  · intro j k p hj hk
    exact h.unique j k p ((hsame j p).mp hj).2 ((hsame k p).mp hk).2

/-- A slot without a player gets one that was not connected. -/
theorem join (h : v.Paired) {i : Fin n} {c : SlotCore} {p : Ptr}
    (hslots : w.slots = Function.update v.slots i c) (hplayer : c.pPlayer = some p)
    (hconn : w.connected = Function.update v.connected p true)
    (hnone : (v.slots i).pPlayer = none) (hp : v.connected p = false) : w.Paired := by
  have hfresh : ∀ j, (v.slots j).pPlayer ≠ some p := by
    intro j hj
    simp [(h.connected p).mpr ⟨j, hj⟩] at hp
  have hsame : ∀ j q, (w.slots j).pPlayer = some q ↔
      (j = i ∧ q = p) ∨ (v.slots j).pPlayer = some q := by
    intro j q
    rw [hslots]
    by_cases hj : j = i
    · simp [hj, hplayer, hnone, eq_comm]
    · simp [hj]
  constructor
  · intro q
    simp only [hsame, hconn]
    by_cases hq : q = p
    · subst hq
      simp only [Function.update_self, true_iff]
      exact ⟨i, .inl ⟨rfl, trivial⟩⟩
    · simp only [Function.update_of_ne hq, hq, and_false, false_or]
      exact h.connected q
  · intro j k q hj hk
    rcases (hsame j q).mp hj with ⟨rfl, rfl⟩ | hj <;> rcases (hsame k q).mp hk with ⟨rfl, hq⟩ | hk
    · rfl
    · exact absurd hk (hfresh k)
    · exact absurd hj (hq ▸ hfresh j)
    · exact h.unique j k q hj hk

/-- Every operation in which nobody logs in twice. -/
theorem step {a : SlotAct n} (h : v.Paired) (hstep : ViewStep v a w)
    (hok : ∀ i, a = .login i → (v.slots i).bitIs socketBitConnected = true →
      (v.slots i).pPlayer = none) : w.Paired := by
  cases hstep with
  | full newSocket addr port added ok hfull => exact h
  | opened newSocket addr port i hnew hfree => exact h.keep rfl rfl rfl
  | failed newSocket addr port added ok i hnew hfree hfail =>
      have htake : (v.take i (some newSocket)).Paired := h.keep rfl rfl rfl
      exact htake.leave rfl rfl rfl
  | leaked addr port ok i hfree => exact h.keep rfl rfl rfl
  | closed i hSocket hi => exact h.leave rfl rfl rfl
  | idle i hi => exact h
  | stale i hi => exact h
  | noWorld i hi => exact h.keep rfl rfl rfl
  | noPlayer i hi => exact h.keep rfl (hok i rfl hi).symm rfl
  | seated i p hi hp => exact h.join rfl rfl rfl (hok i rfl hi) hp

/-- In a tidy state the slot of a player is connected. -/
theorem matched {s : SlotTable n} (h : s.view.Paired) (ht : s.view.Tidy) : s.Matched := by
  have hused : ∀ i p, (s.arrSocket i).pPlayer = some p →
      (s.arrSocket i).bitIs socketBitConnected = true := by
    intro i p hi
    obtain ⟨used, login, hbits, hfree⟩ := ht.core i
    cases used with
    | false =>
        have hnone : (s.arrSocket i).pPlayer = none := (hfree rfl).2.2
        simp [hnone] at hi
    | true =>
        change (s.view.slots i).bitIs socketBitConnected = true
        rw [SlotCore.bitIs, hbits, connected_slotBits]
  constructor
  · intro p hp
    obtain ⟨i, hi⟩ := (h.connected p).mp hp
    exact ⟨i, ⟨hused i p hi, hi⟩, fun j hj => h.unique j i p hj.2 hi⟩
  · exact fun i p hi => (h.connected p).mpr ⟨i, hi⟩

end Paired
end SlotView

section Runs
variable {arrGameWorld : List (List Ptr)} {pSocket : Ptr → Option (SocketPtr n)} {s : SlotTable n}

theorem paired_of_reaches (h : Reaches slotStep FirstLogin (.start arrGameWorld pSocket) s) :
    s.view.Paired ∧ s.view.Tidy := by
  refine h.invariant (fun s => s.view.Paired ∧ s.view.Tidy) ?_ ?_
  · refine ⟨⟨fun p => ?_, fun i j p hi => ?_⟩, SlotTable.tidy_start⟩
    · simp [SlotTable.view, SlotTable.start, BGTestSocket.core, BGTestSocket.new]
    · simp [SlotTable.view, SlotTable.start, BGTestSocket.core, BGTestSocket.new] at hi
  · rintro t a u ⟨hp, ht⟩ hok hstep
    have hview := slotStep_spec ht hstep
    refine ⟨hp.step hview ?_, ht.step hview⟩
    intro i hi
    subst hi
    exact hok

/-- **Players and connections match one to one** in every run in which nobody logs in
who has a player; when all slots have closed, nobody is left connected. -/
theorem matched_of_reaches (h : Reaches slotStep FirstLogin (.start arrGameWorld pSocket) s) :
    s.Matched ∧ ((∀ i, (s.arrSocket i).bitIs socketBitConnected = false) →
      ∀ p, (s.players p).isConnected = false) := by
  obtain ⟨hp, ht⟩ := paired_of_reaches h
  refine ⟨hp.matched ht, fun hclosed p => ?_⟩
  by_contra hconn
  rw [Bool.not_eq_false] at hconn
  obtain ⟨i, ⟨hi, -⟩, -⟩ := (hp.matched ht).slot p hconn
  simp [hclosed i] at hi

/-- A login of a slot that has a player already, in a world that it finds: nobody is the
slot of that player any more, and the player stays connected. -/
theorem second_login_leaks (h : Reaches slotStep FirstLogin (.start arrGameWorld pSocket) s)
    {i : Fin n} {q : Ptr} {world : List Ptr} (hq : (s.arrSocket i).pPlayer = some q)
    (hworld : s.findGameWorld (s.arrSocket i).nWorldId = some world) :
    ((s.loginOn i).players q).isConnected = true ∧
      ∀ j, ((s.loginOn i).arrSocket j).pPlayer ≠ some q := by
  obtain ⟨hp, ht⟩ := paired_of_reaches h
  have hconn : s.view.connected q = true := (hp.connected q).mpr ⟨i, hq⟩
  have hothers : ∀ j, j ≠ i → (s.view.slots j).pPlayer ≠ some q :=
    fun j hj hjq => hj (hp.unique j i q hjq hq)
  have hlogin : s.loginOn i = (s.loading i).enterWorld i world := by
    have hused := (hp.matched ht).slot q hconn
    obtain ⟨j, ⟨hj, hjq⟩, -⟩ := hused
    rw [hp.unique j i q hjq hq] at hj
    have hfound :
        (s.loading i).findGameWorld ((s.loading i).arrSocket i).nWorldId = some world := by
      rw [← hworld]
      simp only [SlotTable.loading, SlotTable.setSocket, Function.update_self]
      rfl
    simp only [SlotTable.loginOn, hj, hfound, Bool.not_true, Bool.false_eq_true, if_false]
  -- whichever way `AddPlayer` ends, it is not `q` that the slot gets
  suffices hview : (s.loginOn i).view.connected q = true ∧
      ∀ j, ((s.loginOn i).view.slots j).pPlayer ≠ some q from hview
  rw [hlogin]
  rcases (s.loading i).view_enterWorld i world with hview | ⟨p, hfresh, hview⟩
  · rw [hview, s.view_loading]
    refine ⟨hconn, fun j => ?_⟩
    by_cases hj : j = i
    · subst hj
      simp [SlotView.load]
    · simpa [SlotView.load, hj] using hothers j hj
  · rw [s.view_loading] at hfresh
    have hpq : p ≠ q := by
      rintro rfl
      have hfalse : s.view.connected p = false := hfresh
      simp [hconn] at hfalse
    rw [hview, s.view_loading]
    refine ⟨?_, fun j => ?_⟩
    · simpa [SlotView.load, Ne.symm hpq] using hconn
    · by_cases hj : j = i
      · subst hj
        simpa [SlotView.load] using hpq
      · simpa [SlotView.load, hj] using hothers j hj

end Runs

/-- A server with one slot, where `m_nWorldId` finds a world with two players. -/
def twoPlayers : SlotTable 1 := .start [[], [0, 1]] fun p => if p = 0 then none else some (.stray 0)

/-- A connection logs in and closes, and the next one logs in: it has the player that can
be connected. -/
theorem matched_of_reaches_second : ∃ s : SlotTable 1,
    (s.arrSocket 0).pPlayer = some 1 ∧ s.Matched := by
  obtain ⟨s, hrun, hplayer⟩ : ∃ s, runAll slotStep twoPlayers
      [.accept (some 7) 1 2 true true, .login 0, .close 0, .accept (some 8) 1 2 true true,
        .login 0] = some s ∧ (s.arrSocket 0).pPlayer = some 1 := ⟨_, rfl, by decide⟩
  exact ⟨s, hplayer, (matched_of_reaches (Reaches.of_runAll hrun (by decide))).1⟩

/-- A connection logs in twice: the first player stays connected without a slot. -/
theorem not_matched_twice : ¬ ∀ s : SlotTable 1,
    Reaches slotStep Always (.start [[], [0, 1]] fun _ => some (.stray 0)) s → s.Matched := by
  intro hall
  obtain ⟨s, hrun, hconn, hplayer⟩ : ∃ s : SlotTable 1, runAll slotStep
      (.start [[], [0, 1]] fun _ => some (.stray 0))
      [.accept (some 7) 1 2 true true, .login 0, .login 0] = some s ∧
        (s.players 0).isConnected = true ∧ (s.arrSocket 0).pPlayer = some 1 :=
    ⟨_, rfl, by decide, by decide⟩
  obtain ⟨i, ⟨-, hi⟩, -⟩ := (hall s (.always_of_runAll hrun)).slot 0 hconn
  rw [Fin.fin_one_eq_zero i, hplayer] at hi
  cases hi

end BGIocpServer
