import BGIocpServer.Kit.Tally
import BGIocpServer.TimerWait

/-!
# The timers of the timer thread

How many timers each step of the timer thread, and of the threads in `AddTimer`, puts into the
queue and the port and takes from them, and how many of these threads have a timer in hand.

## Main results

* `timerStep_stock`: every step adds what it gains and takes what it loses.
* `timerStep_held`: a step that is not refused loses no timer of an object.
-/

namespace BGIocpServer
open Kit

variable {ι Obj : Type} [DecidableEq Obj]

/-- How many timers that are queued or posted satisfy `P`. -/
def TimerState.stock (s : TimerState ι Obj) (P : BGIOTimer Obj → Bool) : ℕ :=
  s.timerQueue.countP P + s.port.countP P

/-- The timers that a step adds to them. -/
def TimerState.gained (s : TimerState ι Obj) : TimerAct ι Obj → List (BGIOTimer Obj)
  | .addRegion t =>
      match s.adding t with
      | .region timer => if s.nStop then [] else [timer]
      | _ => []
  | _ => []

/-- The timers that a step takes from them. -/
def TimerState.lost (s : TimerState ι Obj) : TimerAct ι Obj → List (BGIOTimer Obj)
  | .callback i => s.port[i]?.toList
  | .run (.top timer) =>
      match s.run with
      | .drain => [timer]
      | _ => []
  | _ => []

variable {s s' : TimerState ι Obj}

/-- What `Run` knows of the queue where it pops, and of `s_nStop` where it ends. -/
def TimerState.Sound (s : TimerState ι Obj) : Prop :=
  match s.run with
  | .pop _ top => top ∈ s.timerQueue
  | .drain => s.nStop = true
  | .ended => s.nStop = true ∧ s.timerQueue = []
  | .start | .tick | .enter _ | .first _ | .next _ | .leave _ _ | .wait _ _ | .drainEnter => True

/-- A step of `Run` keeps `Sound`. -/
theorem RunStep.sound {a : RunAct Obj} (hstep : RunStep s a s') (h : s.Sound) : s'.Sound := by
  cases hstep with
  | enter n64Tick hrun =>
      rcases s.enter_cases n64Tick with ⟨-, heq⟩ | ⟨-, heq⟩ <;> rw [heq] <;> trivial
  | first scan timer hrun hmem => exact hmem
  | next scan timer hrun hmem =>
      rcases s.nextTop_cases scan timer with ⟨-, heq⟩ | ⟨-, heq⟩ <;> rw [heq]
      · trivial
      · exact hmem
  | drainEnter hrun => exact rfl
  | drain timer hrun hmem =>
      simp only [TimerState.Sound, hrun] at h ⊢
      exact h
  | ended hrun hempty =>
      simp only [TimerState.Sound, hrun] at h
      exact ⟨h, hempty⟩
  | _ => trivial

/-- A step of `Run` moves timers from the queue to the port, or drains one. -/
theorem RunStep.stock {a : RunAct Obj} (hstep : RunStep s a s') (h : s.Sound)
    (P : BGIOTimer Obj → Bool) : s'.stock P + (s.lost (.run a)).countP P = s.stock P := by
  cases hstep with
  | enter n64Tick hrun => simp [TimerState.lost, TimerState.stock]
  | first scan timer hrun hmem =>
      simp only [TimerState.lost, hrun]
      rfl
  | next scan timer hrun hmem => simp [TimerState.lost, hrun, TimerState.stock]
  | pop scan top hrun =>
      simp only [TimerState.Sound, hrun] at h
      have hperm := (List.perm_cons_erase h).countP_eq P
      rw [List.countP_cons] at hperm
      simp only [TimerState.popPost, TimerState.lost, TimerState.stock, List.countP_append,
        List.countP_singleton, List.countP_nil]
      omega
  | drain timer hrun hmem =>
      simp only [TimerState.lost, hrun, TimerState.stock]
      have hperm := (List.perm_cons_erase hmem).countP_eq P
      rw [List.countP_cons] at hperm
      rw [List.countP_singleton]
      omega
  | _ => rfl

/-- The thread in `AddTimer` holds a reference of the object that it has not handed over. -/
def AddTimerPc.holds (pObject : Obj) : AddTimerPc Obj → Bool
  | .tick o _ _ => o = pObject
  | .region timer => timer.pObject = pObject
  | .idle | .setEvent => false

variable [DecidableEq ι]

/-- Any step keeps `Sound`. -/
theorem timerStep_sound {a : TimerAct ι Obj} (h : s.Sound) (hstep : timerStep s a = some s') :
    s'.Sound := by
  cases timerStep_spec hstep with
  | run a s' hrun => exact hrun.sound h
  | earlier t timer ht hfree hstop hlt =>
      cases hrun : s.run <;> simp_all [TimerState.Sound, TimerState.locked]
  | later t timer ht hfree hstop hle =>
      cases hrun : s.run <;> simp_all [TimerState.Sound, TimerState.locked]
  | _ => exact h

/-- Every step adds what it gains and takes what it loses. -/
theorem timerStep_stock {a : TimerAct ι Obj} (h : s.Sound) (hstep : timerStep s a = some s')
    (P : BGIOTimer Obj → Bool) :
    s'.stock P + (s.lost a).countP P = s.stock P + (s.gained a).countP P := by
  cases timerStep_spec hstep with
  | run a s' hrun => exact hrun.stock h P
  | refused t timer ht hfree hstop =>
      simp only [TimerState.lost, TimerState.gained, ht, hstop, if_true]
      rfl
  | earlier t timer ht hfree hstop hlt =>
      simp only [TimerState.lost, TimerState.gained, ht, hstop, TimerState.stock, List.countP_cons,
        List.countP_nil, Bool.false_eq_true, if_false]
      omega
  | later t timer ht hfree hstop hle =>
      simp only [TimerState.lost, TimerState.gained, ht, hstop, TimerState.stock, List.countP_cons,
        List.countP_nil, Bool.false_eq_true, if_false]
      omega
  | callback i timer hport =>
      obtain ⟨hi, hget⟩ := List.getElem?_eq_some_iff.mp hport
      have hperm := (List.getElem_cons_eraseIdx_perm hi).countP_eq P
      rw [List.countP_cons, hget] at hperm
      simp only [TimerState.lost, TimerState.gained, hport, TimerState.stock, Option.toList_some,
        List.countP_cons, List.countP_nil]
      omega
  | _ => rfl

variable [Fintype ι]

omit [DecidableEq ι] in
/-- The timer references of an object: `AddTimer` calls that have not handed theirs over,
timers that are queued, and timers that are posted. -/
def TimerState.held (s : TimerState ι Obj) (pObject : Obj) : ℕ :=
  tally (AddTimerPc.holds pObject) s.adding + s.stock fun timer => timer.pObject = pObject

/-- The references that a step takes. -/
def TimerAct.taken (pObject : Obj) : TimerAct ι Obj → ℕ
  | .addTimer _ o _ _ => if o = pObject then 1 else 0
  | _ => 0

/-- A step that is not refused loses no reference. -/
theorem timerStep_held {a : TimerAct ι Obj} (h : s.Sound) (hstep : timerStep s a = some s')
    (hok : ∀ t, a = .addRegion t → s.nStop = false) (pObject : Obj) :
    s'.held pObject + (s.lost a).countP (fun timer => timer.pObject = pObject) =
      s.held pObject + a.taken pObject := by
  have hstock := timerStep_stock h hstep fun timer => timer.pObject = pObject
  simp only [TimerState.held]
  cases timerStep_spec hstep with
  | run a s' hrun =>
      rw [hrun.subset.1]
      simp only [TimerState.gained, TimerAct.taken, List.countP_nil] at hstock ⊢
      omega
  | addTimer t o n64Time nId ht =>
      have hupd := tally_update (AddTimerPc.holds pObject) s.adding t (.tick o n64Time nId)
      rw [ht] at hupd
      simp only [AddTimerPc.holds, Bool.toNat_false, toNat_decide] at hupd
      simp only [TimerState.gained, TimerAct.taken, List.countP_nil] at hstock ⊢
      omega
  | addTick t n64Tick o n64Time nId ht =>
      have hupd := tally_update (AddTimerPc.holds pObject) s.adding t
        (.region ⟨o, n64Time + n64Tick, nId⟩)
      rw [ht] at hupd
      simp only [AddTimerPc.holds] at hupd
      simp only [TimerState.gained, TimerAct.taken, List.countP_nil] at hstock ⊢
      omega
  | refused t timer ht hfree hstop => simp [hok t rfl] at hstop
  | earlier t timer ht hfree hstop hlt =>
      have hupd := tally_update (AddTimerPc.holds pObject) s.adding t .setEvent
      rw [ht] at hupd
      simp only [AddTimerPc.holds, Bool.toNat_false, toNat_decide] at hupd
      simp only [TimerState.gained, TimerAct.taken, ht, hstop, List.countP_cons, List.countP_nil,
        Bool.false_eq_true, if_false, decide_eq_true_eq] at hstock ⊢
      omega
  | later t timer ht hfree hstop hle =>
      have hupd := tally_update (AddTimerPc.holds pObject) s.adding t .idle
      rw [ht] at hupd
      simp only [AddTimerPc.holds, Bool.toNat_false, toNat_decide] at hupd
      simp only [TimerState.gained, TimerAct.taken, ht, hstop, List.countP_cons, List.countP_nil,
        Bool.false_eq_true, if_false, decide_eq_true_eq] at hstock ⊢
      omega
  | setEvent t ht =>
      have hupd := tally_update (AddTimerPc.holds pObject) s.adding t .idle
      rw [ht] at hupd
      simp only [AddTimerPc.holds, Bool.toNat_false] at hupd
      simp only [TimerState.gained, TimerAct.taken, List.countP_nil] at hstock ⊢
      omega
  | callback i timer hport =>
      simp only [TimerState.gained, TimerAct.taken, List.countP_nil] at hstock ⊢
      omega
  | terminate =>
      simp only [TimerState.gained, TimerAct.taken, List.countP_nil] at hstock ⊢
      omega

end BGIocpServer
