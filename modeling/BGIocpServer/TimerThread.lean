import BGIocpServer.Kit.PriorityQueue
import BGIocpServer.Kit.Reaches
import Mathlib.Data.Int.Notation

/-!
# The timer thread

`BGIOTimerThread` as atomic steps: `Run` of the one timer thread, and any number of
threads in `BGIOObject::AddTimer`. The regions of `Run` under `s_lockTimer` are taken
apart into their reads of `s_timerQueue.top()`, so that a step is enabled exactly where
the source is defined; no other thread touches the queue while `Run` is inside one. The
region of `AddTimer` is one step. Which timer `top()` returns is a choice of the label:
`HeapRun` says what `std::priority_queue` promises about it.

## Main definitions

* `BGIOTimer`, `asLong`: timers, and the cast to `LONG`.
* `RunPc`, `AddTimerPc`: where the timer thread, and a thread in `AddTimer`, is.
* `TimerState`, `TimerAct`, `timerStep`: the steps.
* `TimerState.init`: the state that `BGIOTimerThread::Init` leaves.

## Main results

* `TimerState.runStep_spec`, `timerStep_spec`: what a step can do.
* `TimerState.enter_cases`, `TimerState.nextTop_cases`: how a scan goes on.
-/

namespace BGIocpServer
open Kit

/-- A timer: the object to call, the due time, and the argument of the call. -/
structure BGIOTimer (Obj : Type) where
  pObject : Obj
  n64Time : BitVec 64
  nId : ℤ
  deriving DecidableEq, Repr

/-- `operator<`: the difference is taken as a signed number of 64 bits. -/
def BGIOTimer.lt {Obj : Type} (a b : BGIOTimer Obj) : Prop := 0 < (a.n64Time - b.n64Time).toInt

instance {Obj : Type} (a b : BGIOTimer Obj) : Decidable (a.lt b) :=
  inferInstanceAs (Decidable (_ < _))

/-- `(LONG)n` for a number of 64 bits. -/
def asLong (n : BitVec 64) : ℤ := (n.setWidth 32).toInt

/-- One scan of `Run`: the tick it read, the queue it found, what it has posted so far. -/
structure Scan (Obj : Type) where
  n64Tick : BitVec 64
  found : List (BGIOTimer Obj)
  posted : List (BGIOTimer Obj)

/-- Where the timer thread is in `Run`. -/
inductive RunPc (Obj : Type)
  /-- At `s_nStop = FALSE`. -/
  | start
  /-- At `GetTickCount64()`. -/
  | tick
  /-- At `s_lockTimer.Enter()`. -/
  | enter (n64Tick : BitVec 64)
  /-- At `s_timerQueue.top()`, before the inner loop. -/
  | first (scan : Scan Obj)
  /-- At `s_timerQueue.pop()`, with `pObject` and `id` of the timer. -/
  | pop (scan : Scan Obj) (top : BGIOTimer Obj)
  /-- At `s_timerQueue.top()`, after a pop. -/
  | next (scan : Scan Obj)
  /-- At `s_lockTimer.Leave()`. -/
  | leave (scan : Scan Obj) (nWait : ℤ)
  /-- At `WaitForMultipleObjects`. -/
  | wait (scan : Scan Obj) (nWait : ℤ)
  /-- At the `Enter` after `m_vHandle[1]` was signalled. -/
  | drainEnter
  /-- In the loop that empties the queue. -/
  | drain
  /-- `Run` has returned. -/
  | ended

/-- Where a thread is in `BGIOObject::AddTimer`. -/
inductive AddTimerPc (Obj : Type)
  /-- Outside. -/
  | idle
  /-- Past `AddRef(&m_nTimerRef)`, at `n64Time += GetTickCount64()`. -/
  | tick (pObject : Obj) (n64Time : BitVec 64) (nId : ℤ)
  /-- At the region under `s_lockTimer`. -/
  | region (timer : BGIOTimer Obj)
  /-- Past the region, at `SetEvent(s_hTimer)`. -/
  | setEvent

/-- The static members of `BGIOTimerThread`, the completion port, and the threads. -/
structure TimerState (ι Obj : Type) where
  timerQueue : List (BGIOTimer Obj)
  n64TopTime : BitVec 64
  nStop : Bool
  /-- `s_hTimer` is signalled. -/
  hTimer : Bool
  /-- `m_vHandle[1]` is signalled. -/
  hTerminate : Bool
  run : RunPc Obj
  adding : ι → AddTimerPc Obj
  /-- Posted to the workers, not yet taken. -/
  port : List (BGIOTimer Obj)

/-- What the timer thread does next. -/
inductive RunAct (Obj : Type)
  | step
  /-- `GetTickCount64()` returns. -/
  | tick (n64Tick : BitVec 64)
  /-- `s_timerQueue.top()` returns. -/
  | top (timer : BGIOTimer Obj)
  /-- `WaitForMultipleObjects` returns `WAIT_OBJECT_0`. -/
  | wakeTimer
  /-- It returns `WAIT_OBJECT_0 + 1`. -/
  | wakeTerminate
  /-- It times out. -/
  | timeout

/-- The steps. -/
inductive TimerAct (ι Obj : Type)
  | run (a : RunAct Obj)
  /-- A thread calls `BGIOObject::AddTimer`, up to its `AddRef`. -/
  | addTimer (t : ι) (pObject : Obj) (n64Time : BitVec 64) (nId : ℤ)
  | addTick (t : ι) (n64Tick : BitVec 64)
  | addRegion (t : ι)
  | setEvent (t : ι)
  /-- A worker takes a posted timer and runs `OnIOCallback` of its object. -/
  | callback (i : ℕ)
  /-- `OnTerminate` up to its `join`. -/
  | terminate

namespace TimerState
variable {ι Obj : Type}

/-- `Run` is inside a region under `s_lockTimer`. -/
def locked (s : TimerState ι Obj) : Bool :=
  match s.run with
  | .first _ | .pop _ _ | .next _ | .leave _ _ | .drain => true
  | .start | .tick | .enter _ | .wait _ _ | .drainEnter | .ended => false

/-- A day, in milliseconds. -/
def guardDelay : BitVec 64 := 24 * 3600 * 1000

/-- `BGIOTimerInstance::OnTimerCallback`, on a queue whose top is then `top`. -/
def onTimerCallback (s : TimerState ι Obj) (guard : Obj) (n64Tick : BitVec 64) (nId : ℤ)
    (top : BGIOTimer Obj) : TimerState ι Obj :=
  { s with
    timerQueue := ⟨guard, n64Tick + guardDelay, nId⟩ :: s.timerQueue
    n64TopTime := top.n64Time }

/-- Before `Init`. -/
def blank : TimerState ι Obj :=
  { timerQueue := [], n64TopTime := 0, nStop := false, hTimer := false, hTerminate := false
    run := .start, adding := fun _ => .idle, port := [] }

/-- `Init`: the guard is in the queue, and the constructor has set `s_nStop`. -/
def init (ι : Type) {Obj : Type} (guard : Obj) (n64Tick : BitVec 64) : TimerState ι Obj :=
  { blank.onTimerCallback guard n64Tick 0 ⟨guard, n64Tick + guardDelay, 0⟩ with nStop := true }

/-- The region of `AddTimer`. -/
def addRegion (s : TimerState ι Obj) (timer : BGIOTimer Obj) : TimerState ι Obj × AddTimerPc Obj :=
  if s.nStop then (s, .idle)
  else
    let s := { s with timerQueue := timer :: s.timerQueue }
    if timer.n64Time.toNat < s.n64TopTime.toNat then
      ({ s with n64TopTime := timer.n64Time }, .setEvent)
    else (s, .idle)

/-- `Enter` and the test of `nWait`. -/
def enter (s : TimerState ι Obj) (n64Tick : BitVec 64) : TimerState ι Obj :=
  let nWait := asLong (s.n64TopTime - n64Tick)
  let scan : Scan Obj := ⟨n64Tick, s.timerQueue, []⟩
  if nWait ≤ 0 then { s with run := .first scan } else { s with run := .leave scan nWait }

/-- After a pop, `top()` has returned `nextTop`. -/
def nextTop (s : TimerState ι Obj) (scan : Scan Obj) (nextTop : BGIOTimer Obj) : TimerState ι Obj :=
  let nWait := asLong (nextTop.n64Time - scan.n64Tick)
  if 0 < nWait then { s with n64TopTime := nextTop.n64Time, run := .leave scan nWait }
  else { s with run := .pop scan nextTop }

/-- `OnTimer`: that of `BGIOObject`, which `BGIOTimerInstance` inherits, is empty, and the
one that overrides it only logs. -/
def onTimer (s : TimerState ι Obj) (_pObject : Obj) (_nId : ℤ) : TimerState ι Obj := s

/-- `OnIOCallback` calls `OnTimer`, and not `OnTimerCallback`. -/
def onIOCallback (s : TimerState ι Obj) (timer : BGIOTimer Obj) : TimerState ι Obj :=
  s.onTimer timer.pObject timer.nId

variable [DecidableEq Obj]

/-- `pop()`, and the `Post` that follows. -/
def popPost (s : TimerState ι Obj) (scan : Scan Obj) (top : BGIOTimer Obj) : TimerState ι Obj :=
  { s with
    timerQueue := s.timerQueue.erase top
    port := s.port ++ [top]
    run := .next { scan with posted := scan.posted ++ [top] } }

/-- One step of `Run`. `top()` is undefined on an empty queue. -/
def runStep (s : TimerState ι Obj) : RunPc Obj → RunAct Obj → Option (TimerState ι Obj)
  | .start, .step => some { s with nStop := false, run := .tick }
  | .tick, .tick n64Tick => some { s with run := .enter n64Tick }
  | .enter n64Tick, .step => some (s.enter n64Tick)
  | .first scan, .top timer =>
      if timer ∈ s.timerQueue then some { s with run := .pop scan timer } else none
  | .pop scan top, .step => some (s.popPost scan top)
  | .next scan, .top timer => if timer ∈ s.timerQueue then some (s.nextTop scan timer) else none
  | .leave scan nWait, .step => some { s with run := .wait scan nWait }
  | .wait _ _, .wakeTimer =>
      if s.hTimer then some { s with hTimer := false, run := .tick } else none
  | .wait _ _, .wakeTerminate =>
      if !s.hTimer && s.hTerminate then some { s with hTerminate := false, run := .drainEnter }
      else none
  | .wait _ _, .timeout =>
      if !s.hTimer && !s.hTerminate then some { s with run := .tick } else none
  | .drainEnter, .step => some { s with nStop := true, run := .drain }
  | .drain, .top timer =>
      if timer ∈ s.timerQueue then some { s with timerQueue := s.timerQueue.erase timer } else none
  | .drain, .step => if s.timerQueue = [] then some { s with run := .ended } else none
  | _, _ => none

section Frame
omit [DecidableEq Obj]
variable (s : TimerState ι Obj) (n64Tick : BitVec 64) (scan : Scan Obj) (top : BGIOTimer Obj)

/-- `Enter` goes on to `top()` when it is time, and to `Leave` when it is not. -/
theorem enter_cases :
    (asLong (s.n64TopTime - n64Tick) ≤ 0 ∧
      s.enter n64Tick = { s with run := .first ⟨n64Tick, s.timerQueue, []⟩ }) ∨
    (0 < asLong (s.n64TopTime - n64Tick) ∧ s.enter n64Tick = { s with
      run := .leave ⟨n64Tick, s.timerQueue, []⟩ (asLong (s.n64TopTime - n64Tick)) }) := by
  by_cases hnow : asLong (s.n64TopTime - n64Tick) ≤ 0
  · exact .inl ⟨hnow, if_pos hnow⟩
  · exact .inr ⟨Int.not_le.mp hnow, if_neg hnow⟩

/-- The scan leaves the timer that `top()` returned, or pops it. -/
theorem nextTop_cases :
    (0 < asLong (top.n64Time - scan.n64Tick) ∧ s.nextTop scan top = { s with
      n64TopTime := top.n64Time, run := .leave scan (asLong (top.n64Time - scan.n64Tick)) }) ∨
    (¬ 0 < asLong (top.n64Time - scan.n64Tick) ∧
      s.nextTop scan top = { s with run := .pop scan top }) := by
  by_cases hlater : 0 < asLong (top.n64Time - scan.n64Tick)
  · exact .inl ⟨hlater, if_pos hlater⟩
  · exact .inr ⟨hlater, if_neg hlater⟩

@[simp] theorem enter_timerQueue : (s.enter n64Tick).timerQueue = s.timerQueue := by
  rcases s.enter_cases n64Tick with ⟨-, h⟩ | ⟨-, h⟩ <;> rw [h]

@[simp] theorem enter_adding : (s.enter n64Tick).adding = s.adding := by
  rcases s.enter_cases n64Tick with ⟨-, h⟩ | ⟨-, h⟩ <;> rw [h]

@[simp] theorem enter_port : (s.enter n64Tick).port = s.port := by
  rcases s.enter_cases n64Tick with ⟨-, h⟩ | ⟨-, h⟩ <;> rw [h]

@[simp] theorem nextTop_timerQueue : (s.nextTop scan top).timerQueue = s.timerQueue := by
  rcases s.nextTop_cases scan top with ⟨-, h⟩ | ⟨-, h⟩ <;> rw [h]

@[simp] theorem nextTop_adding : (s.nextTop scan top).adding = s.adding := by
  rcases s.nextTop_cases scan top with ⟨-, h⟩ | ⟨-, h⟩ <;> rw [h]

@[simp] theorem nextTop_port : (s.nextTop scan top).port = s.port := by
  rcases s.nextTop_cases scan top with ⟨-, h⟩ | ⟨-, h⟩ <;> rw [h]

end Frame

end TimerState

section RunSteps
variable {ι Obj : Type} [DecidableEq Obj]

/-- What a step of `Run` can do. -/
inductive RunStep (s : TimerState ι Obj) : RunAct Obj → TimerState ι Obj → Prop
  | start (h : s.run = .start) : RunStep s .step { s with nStop := false, run := .tick }
  | tick (n64Tick : BitVec 64) (h : s.run = .tick) :
      RunStep s (.tick n64Tick) { s with run := .enter n64Tick }
  | enter (n64Tick : BitVec 64) (h : s.run = .enter n64Tick) : RunStep s .step (s.enter n64Tick)
  | first (scan : Scan Obj) (timer : BGIOTimer Obj) (h : s.run = .first scan)
      (hmem : timer ∈ s.timerQueue) : RunStep s (.top timer) { s with run := .pop scan timer }
  | pop (scan : Scan Obj) (top : BGIOTimer Obj) (h : s.run = .pop scan top) :
      RunStep s .step (s.popPost scan top)
  | next (scan : Scan Obj) (timer : BGIOTimer Obj) (h : s.run = .next scan)
      (hmem : timer ∈ s.timerQueue) : RunStep s (.top timer) (s.nextTop scan timer)
  | leave (scan : Scan Obj) (nWait : ℤ) (h : s.run = .leave scan nWait) :
      RunStep s .step { s with run := .wait scan nWait }
  | wakeTimer (scan : Scan Obj) (nWait : ℤ) (h : s.run = .wait scan nWait)
      (hsig : s.hTimer = true) : RunStep s .wakeTimer { s with hTimer := false, run := .tick }
  | wakeTerminate (scan : Scan Obj) (nWait : ℤ) (h : s.run = .wait scan nWait)
      (hsig : s.hTimer = false ∧ s.hTerminate = true) :
      RunStep s .wakeTerminate { s with hTerminate := false, run := .drainEnter }
  | timeout (scan : Scan Obj) (nWait : ℤ) (h : s.run = .wait scan nWait)
      (hsig : s.hTimer = false ∧ s.hTerminate = false) : RunStep s .timeout { s with run := .tick }
  | drainEnter (h : s.run = .drainEnter) : RunStep s .step { s with nStop := true, run := .drain }
  | drain (timer : BGIOTimer Obj) (h : s.run = .drain) (hmem : timer ∈ s.timerQueue) :
      RunStep s (.top timer) { s with timerQueue := s.timerQueue.erase timer }
  | ended (h : s.run = .drain) (hempty : s.timerQueue = []) :
      RunStep s .step { s with run := .ended }

theorem TimerState.runStep_spec {s s' : TimerState ι Obj} {a : RunAct Obj}
    (h : s.runStep s.run a = some s') : RunStep s a s' := by
  generalize hrun : s.run = k at h
  cases k with
  | start =>
      cases a <;> simp only [runStep, Option.some.injEq, reduceCtorEq] at h
      exact h ▸ .start hrun
  | tick =>
      cases a <;> simp only [runStep, Option.some.injEq, reduceCtorEq] at h
      exact h ▸ .tick _ hrun
  | enter n64Tick =>
      cases a <;> simp only [runStep, Option.some.injEq, reduceCtorEq] at h
      exact h ▸ .enter n64Tick hrun
  | first scan =>
      cases a <;> simp only [runStep, Option.ite_none_right_eq_some, Option.some.injEq,
        reduceCtorEq] at h
      exact h.2 ▸ .first scan _ hrun h.1
  | pop scan top =>
      cases a <;> simp only [runStep, Option.some.injEq, reduceCtorEq] at h
      exact h ▸ .pop scan top hrun
  | next scan =>
      cases a <;> simp only [runStep, Option.ite_none_right_eq_some, Option.some.injEq,
        reduceCtorEq] at h
      exact h.2 ▸ .next scan _ hrun h.1
  | leave scan nWait =>
      cases a <;> simp only [runStep, Option.some.injEq, reduceCtorEq] at h
      exact h ▸ .leave scan nWait hrun
  | wait scan nWait =>
      cases a <;> simp only [runStep, Option.ite_none_right_eq_some, Option.some.injEq,
        Bool.and_eq_true, Bool.not_eq_true', reduceCtorEq] at h
      · exact h.2 ▸ .wakeTimer scan nWait hrun h.1
      · exact h.2 ▸ .wakeTerminate scan nWait hrun h.1
      · exact h.2 ▸ .timeout scan nWait hrun h.1
  | drainEnter =>
      cases a <;> simp only [runStep, Option.some.injEq, reduceCtorEq] at h
      exact h ▸ .drainEnter hrun
  | drain =>
      cases a <;> simp only [runStep, Option.ite_none_right_eq_some, Option.some.injEq,
        reduceCtorEq] at h
      · exact h.2 ▸ .ended hrun h.1
      · exact h.2 ▸ .drain _ hrun h.1
  | ended => cases a <;> simp only [runStep, reduceCtorEq] at h

end RunSteps

section Steps
variable {ι Obj : Type} [DecidableEq ι] [DecidableEq Obj]

/-- One step of the system. -/
def timerStep (s : TimerState ι Obj) : TimerAct ι Obj → Option (TimerState ι Obj)
  | .run a => s.runStep s.run a
  | .addTimer t pObject n64Time nId =>
      match s.adding t with
      | .idle => some { s with adding := Function.update s.adding t (.tick pObject n64Time nId) }
      | _ => none
  | .addTick t n64Tick =>
      match s.adding t with
      | .tick pObject n64Time nId => some { s with
          adding := Function.update s.adding t (.region ⟨pObject, n64Time + n64Tick, nId⟩) }
      | _ => none
  | .addRegion t =>
      match s.adding t with
      | .region timer =>
          if s.locked then none
          else
            let r := s.addRegion timer
            some { r.1 with adding := Function.update s.adding t r.2 }
      | _ => none
  | .setEvent t =>
      match s.adding t with
      | .setEvent =>
          some { s with hTimer := true, adding := Function.update s.adding t .idle }
      | _ => none
  | .callback i =>
      match s.port[i]? with
      | some timer => some ({ s with port := s.port.eraseIdx i }.onIOCallback timer)
      | none => none
  | .terminate => some { s with hTerminate := true }

/-- What any step can do. -/
inductive TimerStep (s : TimerState ι Obj) : TimerAct ι Obj → TimerState ι Obj → Prop
  | run (a : RunAct Obj) (s' : TimerState ι Obj) (h : RunStep s a s') : TimerStep s (.run a) s'
  | addTimer (t : ι) (pObject : Obj) (n64Time : BitVec 64) (nId : ℤ) (h : s.adding t = .idle) :
      TimerStep s (.addTimer t pObject n64Time nId)
        { s with adding := Function.update s.adding t (.tick pObject n64Time nId) }
  | addTick (t : ι) (n64Tick : BitVec 64) (pObject : Obj) (n64Time : BitVec 64) (nId : ℤ)
      (h : s.adding t = .tick pObject n64Time nId) :
      TimerStep s (.addTick t n64Tick) { s with
        adding := Function.update s.adding t (.region ⟨pObject, n64Time + n64Tick, nId⟩) }
  | refused (t : ι) (timer : BGIOTimer Obj) (h : s.adding t = .region timer)
      (hfree : s.locked = false) (hstop : s.nStop = true) :
      TimerStep s (.addRegion t) { s with adding := Function.update s.adding t .idle }
  | earlier (t : ι) (timer : BGIOTimer Obj) (h : s.adding t = .region timer)
      (hfree : s.locked = false) (hstop : s.nStop = false)
      (hlt : timer.n64Time.toNat < s.n64TopTime.toNat) :
      TimerStep s (.addRegion t) { s with
        timerQueue := timer :: s.timerQueue, n64TopTime := timer.n64Time
        adding := Function.update s.adding t .setEvent }
  | later (t : ι) (timer : BGIOTimer Obj) (h : s.adding t = .region timer)
      (hfree : s.locked = false) (hstop : s.nStop = false)
      (hle : s.n64TopTime.toNat ≤ timer.n64Time.toNat) :
      TimerStep s (.addRegion t) { s with
        timerQueue := timer :: s.timerQueue, adding := Function.update s.adding t .idle }
  | setEvent (t : ι) (h : s.adding t = .setEvent) :
      TimerStep s (.setEvent t)
        { s with hTimer := true, adding := Function.update s.adding t .idle }
  | callback (i : ℕ) (timer : BGIOTimer Obj) (h : s.port[i]? = some timer) :
      TimerStep s (.callback i) { s with port := s.port.eraseIdx i }
  | terminate : TimerStep s .terminate { s with hTerminate := true }

/-- Every step is one of these. -/
theorem timerStep_spec {s s' : TimerState ι Obj} {a : TimerAct ι Obj}
    (h : timerStep s a = some s') : TimerStep s a s' := by
  cases a with
  | run a => exact .run a s' (TimerState.runStep_spec h)
  | addTimer t pObject n64Time nId =>
      simp only [timerStep] at h
      split at h
      · rename_i hidle
        cases h
        exact .addTimer t pObject n64Time nId hidle
      · simp at h
  | addTick t n64Tick =>
      simp only [timerStep] at h
      split at h
      · rename_i pObject n64Time nId htick
        cases h
        exact .addTick t n64Tick pObject n64Time nId htick
      · simp at h
  | addRegion t =>
      simp only [timerStep] at h
      split at h
      · rename_i timer hregion
        split at h
        · simp at h
        · rename_i hfree
          simp only [Bool.not_eq_true] at hfree
          simp only [Option.some.injEq] at h
          subst h
          by_cases hstop : s.nStop = true
          · simpa [TimerState.addRegion, hstop] using TimerStep.refused t timer hregion hfree hstop
          · simp only [Bool.not_eq_true] at hstop
            by_cases hlt : timer.n64Time.toNat < s.n64TopTime.toNat
            · simpa [TimerState.addRegion, hstop, hlt] using
                TimerStep.earlier t timer hregion hfree hstop hlt
            · have hle := Nat.not_lt.mp hlt
              simpa [TimerState.addRegion, hstop, hlt] using
                TimerStep.later t timer hregion hfree hstop hle
      · simp at h
  | setEvent t =>
      simp only [timerStep] at h
      split at h
      · rename_i hset
        cases h
        exact .setEvent t hset
      · simp at h
  | callback i =>
      simp only [timerStep] at h
      split at h
      · rename_i timer htimer
        cases h
        exact .callback i timer htimer
      · simp at h
  | terminate =>
      cases h
      exact .terminate

/-- `top()` returns what `std::priority_queue` promises. -/
def HeapRun (s : TimerState ι Obj) : TimerAct ι Obj → Prop
  | .run (.top timer) => HeapTop BGIOTimer.lt s.timerQueue timer
  | _ => True

end Steps

end BGIocpServer
