import BGIocpServer.Kit.Reaches
import BGIocpServer.Kit.Tally
import BGIocpServer.Socket

/-!
# Closing one connection

`Close` and `GracefulClose` of any number of threads on one connection, with the
`CloseSocket` that `BGTestServer::Stop` calls after its test of `SOCKET_BIT_CONNECTED`:
the exchange of `m_hSocket`, `OnClose`, `closesocket` and `Release` are one step each.
`Close` leaves `INVALID_SOCKET` and goes on if it has found anything else; `CloseSocket`
leaves 0, whatever it has found.

## Main results

* `closedOnce_of_reaches`: everything happens once, unless `Close` runs into the 0.
* `not_closedOnce_stop`: `CloseSocket` between two calls of `Close`.
-/

namespace BGIocpServer
open Kit

/-- Where a thread is in `Close` or `GracefulClose`. -/
inductive ClosePc
  /-- Outside. -/
  | idle
  /-- Past the exchange, at `OnClose()`. -/
  | onClose (hSocket : Handle)
  /-- At `closesocket`. -/
  | closesocket (hSocket : Handle)
  /-- At `Release()`. -/
  | release
  deriving DecidableEq, Repr

/-- Where `Stop` is with this connection. -/
inductive StopPc
  /-- At `BitIs(SOCKET_BIT_CONNECTED)`. -/
  | test
  /-- At the exchange of `CloseSocket`. -/
  | exchange
  /-- At its `closesocket`. -/
  | closesocket (hSocket : Option Handle)
  /-- Past it. -/
  | done
  deriving DecidableEq, Repr

/-- The connection. The last four fields are history. -/
structure CloseState (ι : Type) where
  hSocket : Option Handle
  /-- `SOCKET_BIT_CONNECTED` is set. -/
  connected : Bool
  pc : ι → ClosePc
  stop : StopPc
  /-- What the exchange of `CloseSocket` has found. -/
  stopFound : Option (Option Handle)
  /-- How often `OnClose` has run. -/
  onCloses : ℕ
  /-- The arguments of `closesocket`. -/
  closed : List (Option Handle)
  /-- How often `Release` has been called. -/
  released : ℕ

/-- The steps. -/
inductive CloseAct (ι : Type)
  /-- `Close` or `GracefulClose` is called, up to its exchange. -/
  | close (t : ι)
  /-- The next step of the call. -/
  | step (t : ι)
  /-- The next step of `Stop`. -/
  | stop

namespace CloseState
variable {ι : Type} [DecidableEq ι]

/-- The thread goes on at `k`. -/
def goto (s : CloseState ι) (t : ι) (k : ClosePc) : CloseState ι :=
  { s with pc := Function.update s.pc t k }

/-- The exchange of `Close` and `GracefulClose`. -/
def close (s : CloseState ι) (t : ι) : CloseState ι :=
  match s.hSocket with
  | none => s
  | some hSocket => { s with hSocket := none }.goto t (.onClose hSocket)

/-- The next step of a call. -/
def next (s : CloseState ι) (t : ι) : ClosePc → Option (CloseState ι)
  | .idle => none
  | .onClose hSocket => some ({ s with
      connected := false, onCloses := s.onCloses + 1 }.goto t (.closesocket hSocket))
  | .closesocket hSocket => some ({ s with
      closed := some hSocket :: s.closed }.goto t .release)
  | .release => some ({ s with released := s.released + 1 }.goto t .idle)

/-- The next step of `Stop`. -/
def stopNext (s : CloseState ι) : StopPc → Option (CloseState ι)
  | .test => some { s with stop := if s.connected then .exchange else .done }
  | .exchange => some { s with
      hSocket := some 0, stop := .closesocket s.hSocket, stopFound := some s.hSocket }
  | .closesocket hSocket => some { s with closed := hSocket :: s.closed, stop := .done }
  | .done => none

/-- A connection with this handle. -/
def start (ι : Type) (hSocket : Handle) : CloseState ι where
  hSocket := some hSocket
  connected := true
  pc := fun _ => .idle
  stop := .test
  stopFound := none
  onCloses := 0
  closed := []
  released := 0

end CloseState

/-- One step. -/
def closeStep {ι : Type} [DecidableEq ι] (s : CloseState ι) : CloseAct ι → Option (CloseState ι)
  | .close t => if s.pc t = .idle then some (s.close t) else none
  | .step t => s.next t (s.pc t)
  | .stop => s.stopNext s.stop

/-! ## Who has the handle -/

namespace ClosePc

/-- The call has not run `OnClose` yet. -/
def beforeOnClose : ClosePc → Bool
  | .onClose _ => true
  | .idle | .closesocket _ | .release => false

/-- The call has not called `Release` yet. -/
def beforeRelease : ClosePc → Bool
  | .onClose _ | .closesocket _ | .release => true
  | .idle => false

/-- The call will pass this handle to `closesocket`. -/
def holds (hSocket : Handle) : ClosePc → Bool
  | .onClose h | .closesocket h => h = hSocket
  | .idle | .release => false

end ClosePc

/-- `Stop` will pass this handle to `closesocket`. -/
def StopPc.holds (hSocket : Handle) : StopPc → Bool
  | .closesocket h => h = some hSocket
  | .test | .exchange | .done => false

section Invariant
variable {ι : Type} [DecidableEq ι] [Fintype ι] {s s' : CloseState ι} {hSocket : Handle}

omit [DecidableEq ι] in
/-- The calls that have found something. -/
def CloseState.taken (s : CloseState ι) : ℕ := tally ClosePc.beforeOnClose s.pc + s.onCloses

/-- `Close` and `GracefulClose` do not run into what `CloseSocket` has left: there is no
such call once `CloseSocket` has found `INVALID_SOCKET`, or a handle that is itself 0. -/
def StopFirst (s : CloseState ι) : CloseAct ι → Prop
  | .close _ => s.stopFound ≠ some none ∧ s.stopFound ≠ some (some 0)
  | .step _ | .stop => True

omit [DecidableEq ι] [Fintype ι] in
instance : ∀ (s : CloseState ι) (a : CloseAct ι), Decidable (StopFirst s a)
  | s, .close _ =>
      inferInstanceAs (Decidable (s.stopFound ≠ some none ∧ s.stopFound ≠ some (some 0)))
  | _, .step _ | _, .stop => isTrue trivial

/-- One call has found the handle, or `CloseSocket` has, or nobody yet. -/
structure CloseState.Once (hSocket : Handle) (s : CloseState ι) : Prop where
  taken_le : s.taken ≤ 1
  found : s.stopFound = none ∨ s.stopFound = some none ∨ s.stopFound = some (some hSocket)
  stop : s.stop = .test ∨ s.stop = .exchange → s.stopFound = none
  free : s.taken = 0 → s.stopFound ≠ some none ∧
    s.hSocket = if s.stopFound = none then some hSocket else some 0
  gone : s.taken = 1 → s.stopFound ≠ some none → s.hSocket = none
  released : tally ClosePc.beforeRelease s.pc + s.released = s.taken
  closed : s.closed.count (some hSocket) + tally (ClosePc.holds hSocket) s.pc +
    (s.stop.holds hSocket).toNat = if s.taken = 0 ∧ s.stopFound = none then 0 else 1

namespace CloseState.Once
variable {t : ι}

/-- The exchange of `Close`. -/
theorem close (h : s.Once hSocket) (ht : s.pc t = .idle) (hok : StopFirst s (.close t)) :
    (s.close t).Once hSocket := by
  cases hfound : s.hSocket with
  | none =>
      simp only [CloseState.close, hfound]
      exact h
  | some x =>
      simp only [CloseState.close, hfound]
      have hzero : s.taken = 0 := by
        by_contra hne
        have hgone := h.gone (by have := h.taken_le; omega) hok.1
        simp [hgone] at hfound
      have htaken : ({ s with hSocket := none }.goto t (.onClose x)).taken = 1 := by
        have hupd := tally_update ClosePc.beforeOnClose s.pc t (.onClose x)
        rw [ht] at hupd
        simp only [ClosePc.beforeOnClose, Bool.toNat_true, Bool.toNat_false] at hupd
        simp only [taken, goto] at hzero ⊢
        omega
      refine ⟨htaken.le, h.found, h.stop, by simp [htaken], fun _ _ => rfl, ?_, ?_⟩
      · have hupd := tally_update ClosePc.beforeRelease s.pc t (.onClose x)
        rw [ht] at hupd
        simp only [ClosePc.beforeRelease, Bool.toNat_true, Bool.toNat_false] at hupd
        have hreleased := h.released
        rw [htaken]
        simp only [goto]
        omega
      · have hupd := tally_update (ClosePc.holds hSocket) s.pc t (.onClose x)
        rw [ht] at hupd
        simp only [ClosePc.holds, Bool.toNat_false, toNat_decide] at hupd
        have hclosed := h.closed
        -- before `CloseSocket` it is the handle that is found, and the 0 after it
        rw [if_neg (by simp [htaken])]
        simp only [goto]
        have hfree := (h.free hzero).2
        rw [hfound] at hfree
        rcases h.found with hnone | hlate | hstop
        · rw [if_pos hnone, Option.some.injEq] at hfree
          rw [if_pos ⟨hzero, hnone⟩] at hclosed
          rw [if_pos hfree] at hupd
          omega
        · exact absurd hlate hok.1
        · have hne : s.stopFound ≠ none := by simp [hstop]
          have hx : ¬ x = hSocket := by
            rw [if_neg hne, Option.some.injEq] at hfree
            rintro rfl
            exact hok.2 (by rw [hstop, hfree])
          rw [if_neg (fun hand => hne hand.2)] at hclosed
          rw [if_neg hx] at hupd
          omega

omit [DecidableEq ι] in
/-- A step that leaves `m_hSocket` alone and hands on what the call has. -/
theorem of_same (h : s.Once hSocket) {r : CloseState ι} (hsock : r.hSocket = s.hSocket)
    (hstop : r.stop = s.stop) (hfound : r.stopFound = s.stopFound) (htaken : r.taken = s.taken)
    (hreleased : tally ClosePc.beforeRelease r.pc + r.released =
      tally ClosePc.beforeRelease s.pc + s.released)
    (hclosed : r.closed.count (some hSocket) + tally (ClosePc.holds hSocket) r.pc =
      s.closed.count (some hSocket) + tally (ClosePc.holds hSocket) s.pc) : r.Once hSocket := by
  constructor
  · exact htaken ▸ h.taken_le
  · exact hfound ▸ h.found
  · rw [hfound, hstop]
    exact h.stop
  · rw [htaken, hfound, hsock]
    exact h.free
  · rw [htaken, hfound, hsock]
    exact h.gone
  · rw [hreleased, htaken]
    exact h.released
  · rw [hclosed, htaken, hfound, hstop]
    exact h.closed

/-- A later step of a call. -/
theorem next (h : s.Once hSocket) (hstep : s.next t (s.pc t) = some s') : s'.Once hSocket := by
  have h1 := fun k => tally_update ClosePc.beforeOnClose s.pc t k
  have h2 := fun k => tally_update ClosePc.beforeRelease s.pc t k
  have h3 := fun k => tally_update (ClosePc.holds hSocket) s.pc t k
  cases hpc : s.pc t with
  | idle => simp [hpc, CloseState.next] at hstep
  | onClose x =>
      simp only [hpc, CloseState.next, Option.some.injEq] at hstep
      have h1 := h1 (.closesocket x)
      have h2 := h2 (.closesocket x)
      have h3 := h3 (.closesocket x)
      rw [hpc] at h1 h2 h3
      simp only [ClosePc.beforeOnClose, ClosePc.beforeRelease, ClosePc.holds, Bool.toNat_true,
        Bool.toNat_false] at h1 h2 h3
      subst hstep
      refine h.of_same rfl rfl rfl ?_ ?_ ?_
      all_goals
        simp only [taken, goto]
        omega
  | closesocket x =>
      simp only [hpc, CloseState.next, Option.some.injEq] at hstep
      have h1 := h1 .release
      have h2 := h2 .release
      have h3 := h3 .release
      rw [hpc] at h1 h2 h3
      simp only [ClosePc.beforeOnClose, ClosePc.beforeRelease, ClosePc.holds, Bool.toNat_true,
        Bool.toNat_false, toNat_decide] at h1 h2 h3
      subst hstep
      refine h.of_same rfl rfl rfl ?_ ?_ ?_
      all_goals
        simp only [taken, goto, List.count_cons, beq_iff_eq, Option.some.injEq]
        omega
  | release =>
      simp only [hpc, CloseState.next, Option.some.injEq] at hstep
      have h1 := h1 .idle
      have h2 := h2 .idle
      have h3 := h3 .idle
      rw [hpc] at h1 h2 h3
      simp only [ClosePc.beforeOnClose, ClosePc.beforeRelease, ClosePc.holds, Bool.toNat_true,
        Bool.toNat_false] at h1 h2 h3
      subst hstep
      refine h.of_same rfl rfl rfl ?_ ?_ ?_
      all_goals
        simp only [taken, goto]
        omega

omit [DecidableEq ι] in
/-- The exchange of `CloseSocket`: it takes the handle, or comes too late. -/
theorem stopExchange (h : s.Once hSocket) (hstop : s.stop = .exchange) :
    ({ s with hSocket := some 0, stop := .closesocket s.hSocket,
              stopFound := some s.hSocket } : CloseState ι).Once hSocket := by
  have hnone := h.stop (.inr hstop)
  have hclosed := h.closed
  rw [hstop] at hclosed
  have hle := h.taken_le
  by_cases hzero : s.taken = 0
  · have hsock : s.hSocket = some hSocket := by rw [(h.free hzero).2, if_pos hnone]
    rw [if_pos ⟨hzero, hnone⟩] at hclosed
    rw [hsock]
    refine ⟨hle, .inr (.inr rfl), by simp, fun _ => ⟨by simp, rfl⟩, ?_, h.released, ?_⟩
    · intro hone
      exact absurd (hone.symm.trans hzero) (by decide)
    · simp only [StopPc.holds, decide_true, Bool.toNat_true, Bool.toNat_false] at hclosed ⊢
      rw [if_neg (by simp)]
      omega
  · have hsock : s.hSocket = none := h.gone (by omega) (by simp [hnone])
    rw [if_neg (fun hand => hzero hand.1)] at hclosed
    rw [hsock]
    refine ⟨hle, .inr (.inl rfl), by simp, ?_, fun _ hne => absurd rfl hne, h.released, ?_⟩
    · exact fun hz => absurd hz hzero
    · rw [if_neg (by simp)]
      exact hclosed

omit [DecidableEq ι] in
/-- A step of `Stop`. -/
theorem stopNext (h : s.Once hSocket) (hstep : s.stopNext s.stop = some s') :
    s'.Once hSocket := by
  have hclosed := h.closed
  cases hstop : s.stop with
  | test =>
      simp only [hstop, CloseState.stopNext, Option.some.injEq] at hstep
      subst hstep
      refine ⟨h.taken_le, h.found, fun _ => h.stop (.inl hstop), h.free, h.gone, h.released, ?_⟩
      rw [hstop] at hclosed
      refine Eq.trans ?_ hclosed
      cases s.connected <;> rfl
  | exchange =>
      simp only [hstop, CloseState.stopNext, Option.some.injEq] at hstep
      exact hstep ▸ h.stopExchange hstop
  | closesocket x =>
      simp only [hstop, CloseState.stopNext, Option.some.injEq] at hstep
      subst hstep
      refine ⟨h.taken_le, h.found, by simp, h.free, h.gone, h.released, ?_⟩
      rw [hstop] at hclosed
      refine Eq.trans ?_ hclosed
      simp only [List.count_cons, beq_iff_eq, StopPc.holds, toNat_decide, Bool.toNat_false]
      omega
  | done => simp [hstop, CloseState.stopNext] at hstep

/-- Every step. -/
theorem step {a : CloseAct ι} (h : s.Once hSocket) (hok : StopFirst s a)
    (hstep : closeStep s a = some s') : s'.Once hSocket := by
  cases a with
  | close t =>
      simp only [closeStep, Option.ite_none_right_eq_some, Option.some.injEq] at hstep
      exact hstep.2 ▸ h.close hstep.1 hok
  | step t => exact h.next hstep
  | stop => exact h.stopNext hstep

end CloseState.Once

omit [DecidableEq ι] in
/-- A connection that nobody has closed. -/
theorem CloseState.once_start (hSocket : Handle) : (CloseState.start ι hSocket).Once hSocket := by
  have hnone : ∀ P : ClosePc → Bool, P .idle = false →
      tally P (CloseState.start ι hSocket).pc = 0 :=
    fun P hP => tally_eq_zero.mpr fun _ => hP
  have htaken : (CloseState.start ι hSocket).taken = 0 := by
    rw [CloseState.taken, hnone _ rfl]
    rfl
  refine ⟨by omega, .inl rfl, fun _ => rfl, fun _ => ⟨by simp [start], rfl⟩, by omega, ?_, ?_⟩
  · rw [htaken, hnone _ rfl]
    rfl
  · rw [if_pos ⟨htaken, rfl⟩, hnone _ rfl]
    rfl

/-- What may have happened to a connection with this handle. -/
structure CloseState.ClosedOnce (hSocket : Handle) (s : CloseState ι) : Prop where
  onCloses : s.onCloses ≤ 1
  closes : s.closed.count (some hSocket) ≤ 1
  released : s.released ≤ 1
  /-- After a close, or the exchange of `CloseSocket`, with no call in progress, the handle
  was closed. -/
  closed : 0 < s.onCloses ∨ s.stopFound ≠ none → (∀ t, s.pc t = .idle) →
    (∀ x, s.stop ≠ .closesocket x) → s.closed.count (some hSocket) = 1

omit [DecidableEq ι] in
theorem CloseState.Once.closedOnce (h : s.Once hSocket) : s.ClosedOnce hSocket := by
  have hle := h.taken_le
  have htaken : s.taken = tally ClosePc.beforeOnClose s.pc + s.onCloses := rfl
  have hreleased := h.released
  have hclosed := h.closed
  constructor
  · omega
  · split at hclosed <;> omega
  · omega
  · intro hgone hidle hstop
    have hnone : tally (ClosePc.holds hSocket) s.pc = 0 :=
      tally_eq_zero.mpr fun t => by rw [hidle t]; rfl
    have hpast : (s.stop.holds hSocket).toNat = 0 := by
      cases hpc : s.stop with
      | closesocket x => exact absurd hpc (hstop x)
      | _ => rfl
    have hfree : ¬ (s.taken = 0 ∧ s.stopFound = none) := by
      rintro ⟨hzero, hfound⟩
      rcases hgone with hpos | hne
      · omega
      · exact hne hfound
    rw [if_neg hfree, hnone, hpast] at hclosed
    exact hclosed

/-- **A connection is closed exactly once** in every run in which no `Close` makes its
exchange after that of `CloseSocket` has come too late. -/
theorem closedOnce_of_reaches (h : Reaches closeStep StopFirst (.start ι hSocket) s) :
    s.ClosedOnce hSocket := by
  have honce : s.Once hSocket := by
    refine h.invariant (fun s => s.Once hSocket) (CloseState.once_start hSocket) ?_
    intro t a u ht hok hstep
    exact ht.step hok hstep
  exact honce.closedOnce

end Invariant

/-- `CloseSocket` takes the handle, and the `Close` of a failed read follows. -/
theorem closedOnce_of_reaches_stop : ∃ s : CloseState Unit,
    s.closed = [some 0, some 7] ∧ s.released = 1 ∧ s.ClosedOnce 7 := by
  obtain ⟨s, hrun, hclosed, hreleased⟩ : ∃ s, runAll closeStep (.start Unit 7)
      [.stop, .stop, .stop, .close (), .step (), .step (), .step ()] = some s ∧
        s.closed = [some 0, some 7] ∧ s.released = 1 := ⟨_, rfl, rfl, rfl⟩
  exact ⟨s, hclosed, hreleased, closedOnce_of_reaches (Reaches.of_runAll hrun (by decide))⟩

/-- `CloseSocket` comes between two calls of `Close`: the second finds 0. -/
theorem not_closedOnce_stop : ¬ ∀ s : CloseState Bool,
    Reaches closeStep Always (.start Bool 7) s → s.ClosedOnce 7 := by
  intro hall
  obtain ⟨s, hrun, honCloses⟩ : ∃ s, runAll closeStep (.start Bool 7)
      [.stop, .close true, .stop, .close false, .step true, .step false] = some s ∧
        s.onCloses = 2 := ⟨_, rfl, rfl⟩
  have hle := (hall s (.always_of_runAll hrun)).onCloses
  omega

end BGIocpServer
