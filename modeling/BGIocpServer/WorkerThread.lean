import BGIocpServer.Kit.Reaches
import Mathlib.Data.Fintype.Basic
import Mathlib.Data.Int.Notation

/-!
# Stopping the workers

The workers of one completion port, and `BGIOThread::Terminate`, which runs `OnTerminate`
of each in turn: it posts a `BGIOTerminate` that names the thread, and waits until its
`OnIOCallback` has set the event. Any worker that waits in `Get` may take the next
completion, also a message that names another worker; the `OnIOCallback` of the message
suspends the thread that is named. `m_pThread` is read from an object on the stack of
`OnTerminate` after the event is set; what is read is taken to be what `PostObject` wrote.

## Main results

* `never_inside_iff`: no worker is suspended inside another callback exactly if there is
  at most one.
* `never_inside_of_reaches`: nor in any run in which every worker takes its own message.
-/

namespace BGIocpServer
open Kit

/-- A completion in the port. -/
inductive Posted (n : ℕ) (Job : Type)
  /-- A completion of another object. -/
  | job (j : Job)
  /-- The `BGIOTerminate` that names a worker. -/
  | terminate (pThread : Fin n)

/-- Where a worker is in `Run`. -/
inductive WorkerPc (n : ℕ) (Job : Type)
  /-- At `Get`. -/
  | get
  /-- At `InterlockedIncrement(&s_nRunningThread)`, with what `Get` has returned. -/
  | increment (p : Posted n Job)
  /-- In the `OnIOCallback` of an object that is no `BGIOTerminate`. -/
  | callback (j : Job)
  /-- In that of a `BGIOTerminate`, at `SetEvent(m_hEvent)`. -/
  | setEvent (pThread : Fin n)
  /-- At `SuspendThread(m_pThread->native_handle())`. -/
  | suspend (pThread : Fin n)
  /-- At `InterlockedDecrement(&s_nRunningThread)`. -/
  | decrement

/-- Where `Terminate` is in its loop over the workers. -/
inductive TerminatePc
  /-- In `OnTerminate` of a worker, at `PostObject`. -/
  | post (k : ℕ)
  /-- At `WaitForSingleObject`. -/
  | wait (k : ℕ)

/-- The port, the workers, and the thread in `Terminate`. -/
structure WorkerState (n : ℕ) (Job : Type) where
  port : List (Posted n Job)
  worker : Fin n → WorkerPc n Job
  suspended : Fin n → Bool
  nRunningThread : ℤ
  terminate : TerminatePc
  /-- The event of a worker's `OnTerminate` is signalled. -/
  hEvent : Fin n → Bool

/-- The steps. -/
inductive WorkerAct (n : ℕ) (Job : Type)
  /-- A completion is posted. -/
  | post (j : Job)
  /-- A worker takes the next completion, or goes on. -/
  | step (w : Fin n)
  /-- `Terminate` goes on. -/
  | terminate

namespace WorkerState
variable {n : ℕ} {Job : Type}

/-- The worker goes on at `k`. -/
def goto (s : WorkerState n Job) (w : Fin n) (k : WorkerPc n Job) : WorkerState n Job :=
  { s with worker := Function.update s.worker w k }

/-- The next step of a worker. -/
def next (s : WorkerState n Job) (w : Fin n) : WorkerPc n Job → Option (WorkerState n Job)
  | .get =>
      match s.port with
      | [] => none
      | p :: port => some ({ s with port := port }.goto w (.increment p))
  | .increment (.job j) =>
      some ({ s with nRunningThread := s.nRunningThread + 1 }.goto w (.callback j))
  | .increment (.terminate v) =>
      some ({ s with nRunningThread := s.nRunningThread + 1 }.goto w (.setEvent v))
  | .callback _ => some (s.goto w .decrement)
  | .setEvent v => some ({ s with hEvent := Function.update s.hEvent v true }.goto w (.suspend v))
  | .suspend v =>
      some ({ s with suspended := Function.update s.suspended v true }.goto w .decrement)
  | .decrement => some ({ s with nRunningThread := s.nRunningThread - 1 }.goto w .get)

/-- The next step of `Terminate`. -/
def terminateNext (s : WorkerState n Job) : TerminatePc → Option (WorkerState n Job)
  | .post k =>
      if hk : k < n then some { s with
        port := s.port ++ [.terminate ⟨k, hk⟩], terminate := .wait k }
      else none
  | .wait k =>
      if hk : k < n then
        if s.hEvent ⟨k, hk⟩ then some { s with
          hEvent := Function.update s.hEvent ⟨k, hk⟩ false, terminate := .post (k + 1) }
        else none
      else none

/-- `Terminate` begins, with this backlog in the port. -/
def start (n : ℕ) (backlog : List Job) : WorkerState n Job where
  port := backlog.map .job
  worker := fun _ => .get
  suspended := fun _ => false
  nRunningThread := 0
  terminate := .post 0
  hEvent := fun _ => false

end WorkerState

/-- One step; a suspended worker makes none. -/
def workerStep {n : ℕ} {Job : Type} (s : WorkerState n Job) :
    WorkerAct n Job → Option (WorkerState n Job)
  | .post j => some { s with port := s.port ++ [.job j] }
  | .step w => if s.suspended w then none else s.next w (s.worker w)
  | .terminate => s.terminateNext s.terminate

/-- The worker is in the `OnIOCallback` of an object other than the message that names
`v`. -/
def WorkerPc.insideOther {n : ℕ} {Job : Type} (v : Fin n) : WorkerPc n Job → Bool
  | .callback _ => true
  | .setEvent u | .suspend u => u ≠ v
  | .get | .increment _ | .decrement => false

/-- A worker is about to suspend one that is inside the `OnIOCallback` of another object. -/
def WorkerState.SuspendsInside {n : ℕ} {Job : Type} (s : WorkerState n Job) : Prop :=
  ∃ w v, s.worker w = .suspend v ∧ s.suspended w = false ∧ (s.worker v).insideOther v = true

section Workers
variable {n : ℕ} {Job : Type} {s : WorkerState n Job}

/-! ## Every worker its own message -/

/-- The message that a worker has taken names the worker. -/
def WorkerPc.Own (w : Fin n) : WorkerPc n Job → Prop
  | .increment (.terminate v) | .setEvent v | .suspend v => v = w
  | .get | .increment (.job _) | .callback _ | .decrement => True

/-- A worker that takes a message takes its own. -/
def TakesOwn (s : WorkerState n Job) : WorkerAct n Job → Prop
  | .step w => s.worker w = .get → ∀ v port, s.port = .terminate v :: port → v = w
  | .post _ | .terminate => True

theorem WorkerState.own_step {s' : WorkerState n Job} {a : WorkerAct n Job}
    (h : ∀ w, (s.worker w).Own w) (hok : TakesOwn s a) (hstep : workerStep s a = some s') :
    ∀ w, (s'.worker w).Own w := by
  have hgoto : ∀ (r : WorkerState n Job) w k, r.worker = s.worker → k.Own w →
      ∀ u, ((r.goto w k).worker u).Own u := by
    intro r w k hr hk u
    simp only [goto, hr]
    by_cases hu : u = w
    · rw [hu, Function.update_self]
      exact hk
    · rw [Function.update_of_ne hu]
      exact h u
  cases a with
  | post j =>
      simp only [workerStep, Option.some.injEq] at hstep
      exact hstep ▸ h
  | terminate =>
      simp only [workerStep] at hstep
      cases hpc : s.terminate with
      | post k =>
          simp only [hpc, terminateNext] at hstep
          split at hstep
          · cases hstep
            exact h
          · simp at hstep
      | wait k =>
          simp only [hpc, terminateNext] at hstep
          split at hstep
          · split at hstep
            · cases hstep
              exact h
            · simp at hstep
          · simp at hstep
  | step w =>
      simp only [workerStep, Option.ite_none_left_eq_some] at hstep
      have hw := h w
      obtain ⟨-, hstep⟩ := hstep
      cases hpc : s.worker w with
      | get =>
          cases hport : s.port with
          | nil => simp [hpc, hport, next] at hstep
          | cons p port =>
              simp only [hpc, hport, next, Option.some.injEq] at hstep
              rw [← hstep]
              refine hgoto _ w _ rfl ?_
              cases p with
              | job j => trivial
              | terminate v => exact hok hpc v port hport
      | increment p =>
          rw [hpc] at hw
          cases p with
          | job j =>
              simp only [hpc, next, Option.some.injEq] at hstep
              rw [← hstep]
              exact hgoto _ w _ rfl trivial
          | terminate v =>
              simp only [hpc, next, Option.some.injEq] at hstep
              rw [← hstep]
              exact hgoto _ w _ rfl hw
      | callback j =>
          simp only [hpc, next, Option.some.injEq] at hstep
          rw [← hstep]
          exact hgoto _ w _ rfl trivial
      | setEvent v =>
          rw [hpc] at hw
          simp only [hpc, next, Option.some.injEq] at hstep
          rw [← hstep]
          exact hgoto _ w _ rfl hw
      | suspend v =>
          simp only [hpc, next, Option.some.injEq] at hstep
          rw [← hstep]
          exact hgoto _ w _ rfl trivial
      | decrement =>
          simp only [hpc, next, Option.some.injEq] at hstep
          rw [← hstep]
          exact hgoto _ w _ rfl trivial

/-- A worker that suspends itself is in the callback of its own message. -/
theorem WorkerState.not_suspendsInside (h : ∀ w, (s.worker w).Own w) : ¬ s.SuspendsInside := by
  rintro ⟨w, v, hw, -, hv⟩
  have hown := h w
  rw [hw] at hown
  cases hown
  simp [hw, WorkerPc.insideOther] at hv

/-- No worker is suspended inside the callback of another object in a run in which every
worker takes its own message. -/
theorem never_inside_of_reaches {backlog : List Job}
    (h : Reaches workerStep TakesOwn (.start n backlog) s) : ¬ s.SuspendsInside := by
  refine WorkerState.not_suspendsInside ?_
  refine h.invariant (fun s => ∀ w, (s.worker w).Own w) (fun _ => trivial) ?_
  intro t a u ht hok hstep
  exact WorkerState.own_step ht hok hstep

/-! ## Two workers -/

/-- A worker takes the first job of the backlog. -/
theorem WorkerState.runAll_job (w : Fin n) (j : Job) (backlog : List Job) :
    runAll workerStep (start n (j :: backlog)) [.step w, .step w, .step w, .step w] =
      some (start n backlog) := by
  simp [runAll, workerStep, start, next, goto]

/-- It takes all of them, one after the other. -/
theorem WorkerState.runAll_backlog (w : Fin n) (backlog : List Job) :
    ∃ as, runAll workerStep (start n backlog) as = some (start n []) := by
  induction backlog with
  | nil => exact ⟨[], rfl⟩
  | cons j backlog ih =>
      obtain ⟨as, has⟩ := ih
      refine ⟨[.step w, .step w, .step w, .step w] ++ as, ?_⟩
      rw [runAll_append, runAll_job]
      exact has

/-- A takes the message for B, and before A suspends B, B takes the message for A. -/
def crossedRun (a b : Fin n) : List (WorkerAct n Job) :=
  [.terminate, .step b, .step b, .step b, .terminate, .terminate, .step a, .step a, .step a]

/-- With two workers the messages can cross, whatever the backlog. -/
theorem WorkerState.suspendsInside_of_two (hn : 2 ≤ n) (backlog : List Job) :
    ∃ s, Reaches workerStep Always (start n backlog) s ∧ s.SuspendsInside := by
  let a : Fin n := ⟨0, by omega⟩
  let b : Fin n := ⟨1, by omega⟩
  have hab : a ≠ b := by simp [a, b]
  obtain ⟨as, has⟩ := runAll_backlog a backlog
  let s : WorkerState n Job := {
    port := []
    worker := Function.update (Function.update (fun _ => .get) b (.suspend a)) a (.suspend b)
    suspended := fun _ => false
    nRunningThread := 2
    terminate := .wait 1
    hEvent := Function.update (fun _ => false) b true }
  have hs : runAll workerStep (start n ([] : List Job)) (crossedRun a b) = some s := by
    have h0 : 0 < n := by omega
    have h1 : 1 < n := by omega
    simp [crossedRun, runAll, workerStep, start, next, terminateNext, goto, a, b, s, h0, h1]
  have hinside : s.SuspendsInside := by
    have ha : s.worker a = .suspend b := by
      simp only [s]
      rw [Function.update_self]
    refine ⟨a, b, ha, rfl, ?_⟩
    have hb : s.worker b = .suspend a := by
      simp only [s]
      rw [Function.update_of_ne hab.symm, Function.update_self]
    rw [hb, WorkerPc.insideOther, decide_eq_true_eq]
    exact hab
  have hrun : runAll workerStep (start n backlog) (as ++ crossedRun a b) = some s := by
    rw [runAll_append, has]
    exact hs
  exact ⟨s, .always_of_runAll hrun, hinside⟩

/-- **Stopping the workers never interrupts other work exactly if there is at most one**,
whatever the backlog. -/
theorem never_inside_iff (n : ℕ) (backlog : List Job) :
    (∀ s, Reaches workerStep Always (.start n backlog) s → ¬ s.SuspendsInside) ↔ n ≤ 1 := by
  constructor
  · intro hall
    by_contra hn
    obtain ⟨s, hreach, hinside⟩ := WorkerState.suspendsInside_of_two (n := n) (by omega) backlog
    exact hall s hreach hinside
  · rintro hn s hreach
    have hone : Subsingleton (Fin n) := ⟨fun a b => by
      have ha := a.isLt
      have hb := b.isLt
      exact Fin.ext (by omega)⟩
    exact never_inside_of_reaches (hreach.mono fun t a _ => by
      cases a with
      | step w => exact fun _ v _ _ => hone.elim v w
      | post j => trivial
      | terminate => trivial)

end Workers

/-- Two workers and an empty backlog. -/
theorem not_never_inside : ¬ ∀ (n : ℕ) (backlog : List Unit) (s : WorkerState n Unit),
    Reaches workerStep Always (.start n backlog) s → ¬ s.SuspendsInside := by
  intro hall
  obtain ⟨s, hreach, hinside⟩ := WorkerState.suspendsInside_of_two (le_refl 2) ([] : List Unit)
  exact hall 2 [] s hreach hinside

end BGIocpServer
