import BGIocpServer.TimerThread

/-!
# The guard timer, and reads of an empty queue

`Run` reads `s_timerQueue.top()` without a test. The guard of `Init` keeps the queue
from being empty for a day; then it is popped like any other timer, the worker calls
`OnTimer` and not `OnTimerCallback`, and it does not come back. A run reads an empty
queue only in a scan that finds nothing left to wait for.

## Main results

* `timerStep_fed`: one step, `not_readsEmpty_of_reaches`: every run.
* `not_never_empty`: the guard alone, a day after `Init`.
-/

namespace BGIocpServer
open Kit

variable {ι Obj : Type}

/-- `Run` is at a `top()`, and the queue is empty. -/
def TimerState.ReadsEmpty (s : TimerState ι Obj) : Prop :=
  s.timerQueue = [] ∧ ((∃ scan, s.run = .first scan) ∨ ∃ scan, s.run = .next scan)

/-- The timer is one that the scan does not post: `(LONG)(m_n64Time - n64Tick) > 0`. -/
def BGIOTimer.Later (n64Tick : BitVec 64) (timer : BGIOTimer Obj) : Prop :=
  0 < asLong (timer.n64Time - n64Tick)

instance (n64Tick : BitVec 64) (timer : BGIOTimer Obj) : Decidable (timer.Later n64Tick) :=
  inferInstanceAs (Decidable (_ < _))

/-- Every read of the queue that `Run` is bound to make finds a timer. -/
def TimerState.Fed [DecidableEq Obj] (s : TimerState ι Obj) : Prop :=
  match s.run with
  | .start | .tick | .enter _ | .first _ | .leave _ _ | .wait _ _ => s.timerQueue ≠ []
  | .pop scan top => ∃ b ∈ s.timerQueue.erase top, b.Later scan.n64Tick
  | .next scan => ∃ b ∈ s.timerQueue, b.Later scan.n64Tick
  | .drainEnter | .drain | .ended => True

/-- When `top()` returns `timer` to a scan that starts to post, the queue holds another
timer, which the scan does not post. -/
def RunPc.Leaves [DecidableEq Obj] (timerQueue : List (BGIOTimer Obj)) (timer : BGIOTimer Obj) :
    RunPc Obj → Prop
  | .first scan => ∃ b ∈ timerQueue.erase timer, b.Later scan.n64Tick
  | .start | .tick | .enter _ | .pop _ _ | .next _ | .leave _ _ | .wait _ _ | .drainEnter | .drain
  | .ended => True

/-- A scan that posts leaves a timer. -/
def ScanLeaves [DecidableEq Obj] (s : TimerState ι Obj) : TimerAct ι Obj → Prop
  | .run (.top timer) => s.run.Leaves s.timerQueue timer
  | _ => True

section Steps
variable [DecidableEq Obj] {s s' : TimerState ι Obj}

/-- What a step of `Run` preserves. -/
theorem RunStep.fed {a : RunAct Obj} (hstep : RunStep s a s') (h : s.Fed)
    (hok : ScanLeaves s (.run a)) : s'.Fed := by
  cases hstep with
  | start hrun | tick n64Tick hrun | leave scan nWait hrun | wakeTimer scan nWait hrun hsig
  | timeout scan nWait hrun hsig =>
      simp only [TimerState.Fed, hrun] at h
      exact h
  | enter n64Tick hrun =>
      simp only [TimerState.Fed, hrun] at h
      rcases s.enter_cases n64Tick with ⟨-, heq⟩ | ⟨-, heq⟩ <;> rw [heq] <;> exact h
  | first scan timer hrun hmem =>
      simp only [ScanLeaves, hrun, RunPc.Leaves] at hok
      exact hok
  | pop scan top hrun =>
      simp only [TimerState.Fed, hrun] at h
      exact h
  | next scan timer hrun hmem =>
      simp only [TimerState.Fed, hrun] at h
      rcases s.nextTop_cases scan timer with ⟨-, heq⟩ | ⟨hnow, heq⟩ <;> rw [heq]
      · exact List.ne_nil_of_mem hmem
      · -- the timer that is left is not the one popped now
        obtain ⟨b, hb, hlater⟩ := h
        have hne : b ≠ timer := by
          rintro rfl
          exact hnow hlater
        exact ⟨b, (List.mem_erase_of_ne hne).mpr hb, hlater⟩
  | wakeTerminate scan nWait hrun hsig => trivial
  | drainEnter hrun => trivial
  | drain timer hrun hmem => simp only [TimerState.Fed, hrun]
  | ended hrun hempty => trivial

/-- Outside the regions of `Run`, a queue with a timer in it is enough. -/
theorem TimerState.fed_push (hfree : s.locked = false) (timer : BGIOTimer Obj)
    (n64TopTime : BitVec 64) (adding : ι → AddTimerPc Obj) :
    { s with timerQueue := timer :: s.timerQueue, n64TopTime := n64TopTime,
             adding := adding : TimerState ι Obj }.Fed := by
  cases hrun : s.run <;> simp_all [TimerState.Fed, TimerState.locked]

variable [DecidableEq ι]

/-- What every step preserves. -/
theorem timerStep_fed {a : TimerAct ι Obj} (h : s.Fed) (hok : ScanLeaves s a)
    (hstep : timerStep s a = some s') : s'.Fed := by
  cases timerStep_spec hstep with
  | run a s' hrun => exact hrun.fed h hok
  | earlier t timer hadd hfree hstop hlt => exact TimerState.fed_push hfree timer _ _
  | later t timer hadd hfree hstop hle => exact TimerState.fed_push hfree timer _ _
  | _ => exact h

/-- **The queue is never read while empty** in a run whose scans all leave a timer. -/
theorem not_readsEmpty_of_reaches {guard : Obj} {n64Tick : BitVec 64}
    (h : Reaches timerStep ScanLeaves (.init ι guard n64Tick) s) : ¬ s.ReadsEmpty := by
  have hfed : s.Fed := by
    refine h.invariant TimerState.Fed ?_ fun _ _ _ hinv hok hstep => timerStep_fed hinv hok hstep
    simp [TimerState.Fed, TimerState.init, TimerState.onTimerCallback, TimerState.blank]
  rintro ⟨hempty, ⟨scan, hrun⟩ | ⟨scan, hrun⟩⟩
  · simp [TimerState.Fed, hrun, hempty] at hfed
  · simp [TimerState.Fed, hrun, hempty] at hfed

instance (timerQueue : List (BGIOTimer Obj)) (timer : BGIOTimer Obj) :
    ∀ k, Decidable (RunPc.Leaves timerQueue timer k)
  | .first _ => inferInstanceAs (Decidable (∃ b ∈ _, _))
  | .start | .tick | .enter _ | .pop _ _ | .next _ | .leave _ _ | .wait _ _ | .drainEnter | .drain
  | .ended => isTrue trivial

instance (s : TimerState ι Obj) : ∀ a, Decidable (ScanLeaves s a)
  | .run (.top _) => inferInstanceAs (Decidable (RunPc.Leaves _ _ _))
  | .run .step | .run (.tick _) | .run .wakeTimer | .run .wakeTerminate | .run .timeout
  | .addTimer _ _ _ _ | .addTick _ _ | .addRegion _ | .setEvent _ | .callback _
  | .terminate => isTrue trivial

end Steps

/-- The guard timer of an `Init` at tick 0. -/
def guardTimer : BGIOTimer Bool := ⟨true, 86400000, 0⟩

/-- A timer of one second is posted while the guard stays. -/
theorem not_readsEmpty_of_reaches_fired : ∃ s, runAll timerStep (.init Unit true 0)
    [.run .step, .addTimer () false 1000 7, .addTick () 0, .addRegion (), .setEvent (),
      .run (.tick 1000), .run .step, .run (.top ⟨false, 1000, 7⟩), .run .step,
      .run (.top guardTimer)] = some s ∧
    s.port = [⟨false, 1000, 7⟩] ∧ ¬ s.ReadsEmpty := by
  obtain ⟨s, hs, hport⟩ : ∃ s, runAll timerStep (.init Unit true 0)
    [.run .step, .addTimer () false 1000 7, .addTick () 0, .addRegion (), .setEvent (),
      .run (.tick 1000), .run .step, .run (.top ⟨false, 1000, 7⟩), .run .step,
      .run (.top guardTimer)] = some s ∧ s.port = [⟨false, 1000, 7⟩] := ⟨_, rfl, rfl⟩
  exact ⟨s, hs, hport, not_readsEmpty_of_reaches (Reaches.of_runAll hs (by decide))⟩

/-- A day after `Init` the scan pops the guard, and reads the empty queue. -/
theorem not_never_empty : ¬ ∀ s, Reaches timerStep HeapRun (.init Unit true 0) s →
    ¬ s.ReadsEmpty := by
  intro h
  refine h _ (.tail (a := .run .step) (.tail (a := .run (.top guardTimer)) (.tail (a := .run .step)
    (.tail (a := .run (.tick 86400000)) (.tail (a := .run .step) .refl trivial rfl)
      trivial rfl) trivial rfl) ?_ rfl) trivial rfl) ⟨rfl, .inr ⟨_, rfl⟩⟩
  exact ⟨List.mem_singleton_self _, fun _ => by decide⟩

end BGIocpServer
