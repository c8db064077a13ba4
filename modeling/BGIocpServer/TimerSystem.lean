import BGIocpServer.TimerObject
import BGIocpServer.TimerStock
import BGIocpServer.WorkerThread

/-!
# The timer thread, the workers and the objects

`BGIOObject::AddTimer` takes a reference of the object before it hands the timer over; the
worker that calls the object back, or the timer thread when it ends, releases it. This is the
timer thread of `TimerThread`, the workers and `BGIOThread::Terminate` of `WorkerThread`, and
the words and steps of `ObjectSteps` for each object, from `Init` to the end of `Terminate`,
which stops the workers first. The objects are those whose `OnIOCallback` is that of
`BGIOObject`, or that of `BGIOSocket`, which does the same with a timer. A worker may be
suspended anywhere, and so may be left inside a callback.

## Main definitions

* `TimerSystem`, `SystemAct`, `systemStep`: the machine.
* `uncalled`, `unreleased`: the timers that the workers have.
* `Conserving`: the condition on each step under which no reference is lost.
-/

namespace BGIocpServer
open Kit

/-- Where a worker is in `OnIOCallback` of a timer's object. -/
inductive TimerCallPc
  /-- At `OnTimer(dwTransferred)`, or not there yet. -/
  | onTimer
  /-- At `Release(&m_nTimerRef)`. -/
  | release
  /-- In this `Release`. -/
  | releasing
  deriving DecidableEq, Repr

/-- The threads that use the counters: those in `AddTimer` and other holders of references, the
timer thread, and the workers. -/
abbrev RefThread (ι : Type) (n : ℕ) := ι ⊕ Option (Fin n)

/-- The timer thread, the workers, the counters of the objects, and the history of the timers.
A completion is a timer, or `none` for that of another object. -/
structure TimerSystem (ι Obj : Type) (n : ℕ) where
  timer : TimerState ι Obj
  workers : WorkerState n (Option (BGIOTimer Obj))
  objects : Obj → RefState (RefThread ι n)
  callback : Fin n → TimerCallPc
  /-- The object whose `Release` the timer thread called last. -/
  draining : Option Obj
  /-- Put into the queue, by `Init` or by `AddTimer`. -/
  accepted : List (BGIOTimer Obj)
  /-- Called back by a worker. -/
  called : List (BGIOTimer Obj)
  /-- Taken out by the timer thread when it ended. -/
  drained : List (BGIOTimer Obj)

/-- The steps. -/
inductive SystemAct (ι Obj : Type) (n : ℕ)
  /-- The timer thread, or a thread in `AddTimer`, goes on, or `OnTerminate` of the former. -/
  | timer (a : TimerAct ι Obj)
  /-- A worker goes on. -/
  | worker (w : Fin n)
  /-- `Terminate` goes on with the workers. -/
  | terminateWorkers
  /-- The timer thread calls `Post`, which fails, and goes on all the same. -/
  | lostPost
  /-- Another completion is posted. -/
  | post
  /-- A thread calls `AddRef()`. -/
  | hold (t : ι) (pObject : Obj)
  /-- A thread calls `Release()`. -/
  | drop (t : ι) (pObject : Obj)
  /-- A thread goes on in `AddRef` or `Release`. -/
  | object (u : RefThread ι n) (pObject : Obj)

namespace TimerSystem
variable {ι Obj : Type} {n : ℕ} [DecidableEq ι] [DecidableEq Obj]

/-- The state that `Init` leaves, with the workers begun. -/
def init (ι : Type) (n : ℕ) (guard : Obj) (n64Tick : BitVec 64) : TimerSystem ι Obj n where
  timer := .init ι guard n64Tick
  workers := .start n []
  objects := fun o => if o = guard then .guardStart _ else .start _
  callback := fun _ => .onTimer
  draining := none
  accepted := [⟨guard, n64Tick + TimerState.guardDelay, 0⟩]
  called := []
  drained := []

/-- Assignment to the counters of an object. -/
def setObject (s : TimerSystem ι Obj n) (pObject : Obj) (r : RefState (RefThread ι n)) :
    TimerSystem ι Obj n :=
  { s with objects := Function.update s.objects pObject r }

/-- The first step of `Release(&m_nTimerRef)`. -/
def release (s : TimerSystem ι Obj n) (u : Option (Fin n)) (pObject : Obj) :
    TimerSystem ι Obj n :=
  s.setObject pObject ((s.objects pObject).release (.inr u) .timer)

/-- The call of a thread on an object has returned. -/
def returned (s : TimerSystem ι Obj n) (u : RefThread ι n) (pObject : Obj) : Bool :=
  (s.objects pObject).pc u = .idle

/-- What `Run` has posted goes to the port of the workers. -/
def forward (s : TimerSystem ι Obj n) (t : TimerState ι Obj) : TimerSystem ι Obj n :=
  { s with
    timer := { t with port := [] }
    workers := { s.workers with
      port := s.workers.port ++ t.port.map fun timer => .job (some timer) } }

/-- What a step of the timer thread, or of a thread in `AddTimer`, does to the counters and to
the history, where it is enabled. -/
def account (s : TimerSystem ι Obj n) : TimerAct ι Obj → Option (TimerSystem ι Obj n)
  | .addTimer t pObject _ _ =>
      (refStep (s.objects pObject) (.addRef (.inl t) .timer)).map (s.setObject pObject)
  | .addTick t _ =>
      match s.timer.adding t with
      | .tick pObject _ _ => if s.returned (.inl t) pObject then some s else none
      | _ => some s
  | .addRegion t =>
      match s.timer.adding t with
      | .region timer =>
          -- a refused request does nothing, and leaves the reference taken
          if s.timer.nStop then some s else some { s with accepted := timer :: s.accepted }
      | _ => some s
  | .setEvent _ => some s
  | .run a =>
      if s.draining.all (s.returned (.inr none)) then
        match s.timer.run, a with
        | .drain, .top timer => some ({ s with
            draining := some timer.pObject, drained := timer :: s.drained }.release none
              timer.pObject)
        | _, _ => some s
      else none
  -- the workers have their own steps
  | .callback _ => none
  | .terminate =>
      -- `Terminate` has come to the end of the workers
      match s.workers.terminate with
      | .post k => if k = n then some s else none
      | .wait _ => none

/-- A worker goes on outside `OnTimer` and `Release`. -/
def advance (s : TimerSystem ι Obj n) (w : Fin n) : Option (TimerSystem ι Obj n) :=
  (workerStep s.workers (.step w)).map fun workers =>
    { s with workers := workers, callback := Function.update s.callback w .onTimer }

/-- The next step of a worker. -/
def workerNext (s : TimerSystem ι Obj n) (w : Fin n) : Option (TimerSystem ι Obj n) :=
  match s.workers.worker w with
  | .callback (some timer) =>
      match s.callback w with
      | .onTimer => some { s with
          callback := Function.update s.callback w .release, called := timer :: s.called }
      | .release => some ({ s with
          callback := Function.update s.callback w .releasing }.release (some w) timer.pObject)
      | .releasing => if s.returned (.inr (some w)) timer.pObject then s.advance w else none
  | _ => s.advance w

/-- The thread is not suspended. -/
def runs (s : TimerSystem ι Obj n) : RefThread ι n → Bool
  | .inl _ | .inr none => true
  | .inr (some w) => !s.workers.suspended w

end TimerSystem

section Steps
variable {ι Obj : Type} {n : ℕ} [DecidableEq ι] [DecidableEq Obj]

/-- `Run` is at `pop()` and the `Post` that follows. -/
def RunPc.posting : RunPc Obj → Bool
  | .pop _ _ => true
  | _ => false

/-- One step of the system. Nobody else takes or releases references of the guard. -/
def systemStep (guard : Obj) (s : TimerSystem ι Obj n) :
    SystemAct ι Obj n → Option (TimerSystem ι Obj n)
  | .timer a => (timerStep s.timer a).bind fun t => (s.account a).map (·.forward t)
  | .worker w => if s.runs (.inr (some w)) then s.workerNext w else none
  | .terminateWorkers =>
      (workerStep s.workers .terminate).map fun workers => { s with workers := workers }
  | .lostPost =>
      if s.timer.run.posting then
        (timerStep s.timer (.run .step)).map fun t => { s with timer := { t with port := [] } }
      else none
  | .post => (workerStep s.workers (.post none)).map fun workers => { s with workers := workers }
  | .hold t pObject =>
      if pObject = guard then none
      else (refStep (s.objects pObject) (.addRef (.inl t) .general)).map (s.setObject pObject)
  | .drop t pObject =>
      if pObject = guard then none
      else (refStep (s.objects pObject) (.release (.inl t) .general)).map (s.setObject pObject)
  | .object u pObject =>
      if s.runs u then (refStep (s.objects pObject) (.step u)).map (s.setObject pObject) else none

end Steps

/-! ## Who has a timer -/

section Hands
variable {n : ℕ} {Obj : Type}

/-- The completion is a timer that satisfies `P`. -/
def Posted.has (P : BGIOTimer Obj → Bool) : Posted n (Option (BGIOTimer Obj)) → Bool
  | .job (some timer) => P timer
  | .job none | .terminate _ => false

/-- The worker has a timer, from `Get` to the end of `OnIOCallback`. -/
def WorkerPc.timed : WorkerPc n (Option (BGIOTimer Obj)) → Bool
  | .increment (.job (some _)) | .callback (some _) => true
  | _ => false

/-- It has not called `OnTimer`. -/
def uncalled (P : BGIOTimer Obj → Bool) : WorkerPc n (Option (BGIOTimer Obj)) × TimerCallPc → Bool
  | (.increment (.job (some timer)), _) | (.callback (some timer), .onTimer) => P timer
  | _ => false

/-- It has not called `Release(&m_nTimerRef)`. -/
def unreleased (P : BGIOTimer Obj → Bool) : WorkerPc n (Option (BGIOTimer Obj)) × TimerCallPc → Bool
  | (.increment (.job (some timer)), _) | (.callback (some timer), .onTimer)
  | (.callback (some timer), .release) => P timer
  | _ => false

/-- A completion that is no timer. -/
theorem Posted.has_eq_false {p : Posted n (Option (BGIOTimer Obj))} {P : BGIOTimer Obj → Bool}
    (h : p.has (fun _ => true) = false) : p.has P = false := by
  match p with
  | .job none | .terminate _ => rfl

/-- What a worker has when `Get` has returned. -/
theorem uncalled_increment (P : BGIOTimer Obj → Bool) (p : Posted n (Option (BGIOTimer Obj)))
    (c : TimerCallPc) : uncalled P (.increment p, c) = p.has P ∧
      unreleased P (.increment p, c) = p.has P := by
  match p with
  | .job none => exact ⟨rfl, rfl⟩
  | .job (some timer) => exact ⟨rfl, rfl⟩
  | .terminate v => exact ⟨rfl, rfl⟩

/-- A worker without a timer. -/
theorem uncalled_eq_false {k : WorkerPc n (Option (BGIOTimer Obj))} {c : TimerCallPc}
    {P : BGIOTimer Obj → Bool} (h : k.timed = false) :
    uncalled P (k, c) = false ∧ unreleased P (k, c) = false := by
  match k with
  | .get | .increment (.job none) | .increment (.terminate _) | .callback none
  | .setEvent _ | .suspend _ | .decrement => exact ⟨rfl, rfl⟩

/-- The program points of the workers. -/
def TimerSystem.hands {ι : Type} (s : TimerSystem ι Obj n) (w : Fin n) :
    WorkerPc n (Option (BGIOTimer Obj)) × TimerCallPc := (s.workers.worker w, s.callback w)

end Hands

section Conserving
variable {ι Obj : Type} {n : ℕ} [DecidableEq ι] [DecidableEq Obj] [Fintype ι]

omit [DecidableEq ι] [DecidableEq Obj] [Fintype ι] in
/-- A worker that goes on from here does not suspend one that has a timer, nor the last one that
runs while timers are posted. -/
def TimerSystem.Spares (s : TimerSystem ι Obj n) : WorkerPc n (Option (BGIOTimer Obj)) → Prop
  | .suspend v => (s.workers.worker v).timed = false ∧
      ((∀ u, u ≠ v → s.workers.suspended u = true) →
        ∀ p ∈ s.workers.port, p.has (fun _ => true) = false)
  | .get | .increment _ | .callback _ | .setEvent _ | .decrement => True

omit [DecidableEq ι] [DecidableEq Obj] [Fintype ι] in
instance (s : TimerSystem ι Obj n) : ∀ k, Decidable (s.Spares k)
  | .suspend _ => inferInstanceAs (Decidable (_ ∧ _))
  | .get | .increment _ | .callback _ | .setEvent _ | .decrement => isTrue trivial

omit [DecidableEq ι] [DecidableEq Obj] in
/-- `AddTimer` is not refused; `Post` does not fail; no worker is suspended that has a timer, and
timers are neither posted when no worker runs nor left then; the references of an object are
fewer than 2^31. -/
def Conserving (s : TimerSystem ι Obj n) : SystemAct ι Obj n → Prop
  | .timer (.addTimer _ pObject _ _) | .hold _ pObject => (s.objects pObject).total + 1 < 2 ^ 31
  | .timer (.addRegion _) => s.timer.nStop = false
  | .timer (.run .step) => s.timer.run.posting = true → ∃ w, s.workers.suspended w = false
  | .worker w => s.Spares (s.workers.worker w)
  | .lostPost => False
  | _ => True

omit [DecidableEq ι] [DecidableEq Obj] in
instance : ∀ (s : TimerSystem ι Obj n) (a : SystemAct ι Obj n), Decidable (Conserving s a)
  | s, .timer (.addTimer _ pObject _ _) | s, .hold _ pObject =>
      inferInstanceAs (Decidable ((s.objects pObject).total + 1 < 2 ^ 31))
  | s, .timer (.addRegion _) => inferInstanceAs (Decidable (s.timer.nStop = false))
  | s, .timer (.run .step) => inferInstanceAs
      (Decidable (s.timer.run.posting = true → ∃ w, s.workers.suspended w = false))
  | s, .worker w => inferInstanceAs (Decidable (s.Spares (s.workers.worker w)))
  | _, .lostPost => isFalse id
  | _, .timer (.run (.tick _)) | _, .timer (.run (.top _)) | _, .timer (.run .wakeTimer)
  | _, .timer (.run .wakeTerminate) | _, .timer (.run .timeout) => isTrue trivial
  | _, .timer (.addTick _ _) | _, .timer (.setEvent _) => isTrue trivial
  | _, .timer (.callback _) | _, .timer .terminate => isTrue trivial
  | _, .terminateWorkers | _, .post | _, .drop _ _ | _, .object _ _ => isTrue trivial

end Conserving

end BGIocpServer
