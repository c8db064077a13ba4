import BGIocpServer.Kit.Reaches
import BGIocpServer.LogManager
import Mathlib.Logic.Function.Basic

/-!
# The log thread and its producers

Any number of threads in `PushLog`, the log thread in `Run`, and one call of `Stop`. What
stands between `lock` and `unlock` of `m_queueLock` is one step; `Write` takes a step for
the renewal of the files, for each stream and for the `printf` between them.

## Main results

* `logExact_of_reaches`: no log is lost, repeated or reordered, and `Run` returns after
  `Stop`, as long as no text before the stop request has a conversion for `printf`.
* `not_logExact_percent`: a warning with a `%` ends in a `printf` without arguments.
-/

namespace BGIocpServer
open Kit

/-- Where the log thread is. -/
inductive LogPc
  /-- At `Pick`. -/
  | pick
  /-- In `Write`, at the test of the file names. -/
  | renew (log : BGLog)
  /-- In `Write`, at `log.Write(pDefault)`. -/
  | writeDefault (log : BGLog)
  /-- In `Write`, at `printf`. -/
  | printf (log : BGLog)
  /-- In `Write`, at `log.Write(pSpecific)`. -/
  | writeSpecific (log : BGLog)
  /-- `Run` has returned. -/
  | returned
  /-- `printf` was called with a format that wants arguments: anything may happen. -/
  | undefined
  deriving DecidableEq, Repr

/-- Where the call of `Stop` is. -/
inductive LogStop
  /-- Not called. -/
  | before
  /-- At `join`. -/
  | join
  /-- Past it. -/
  | done
  deriving DecidableEq, Repr

/-- The log system after `Start`. -/
structure LogState (ι : Type) where
  mgr : BGLogManager
  pc : LogPc
  stop : LogStop
  /-- The log of a thread that is in `PushLog`, at `m_queueLock.lock()`. -/
  producers : ι → Option BGLog
  /-- History: the logs pushed before the stop request, in this order. -/
  accepted : List BGLog

/-- The labels of the steps. -/
inductive LogAct (ι : Type)
  /-- `PushLog` is called at this time, up to the lock; `tmp` is the formatted message. -/
  | pushLog (t : ι) (level : ELogLevel) (funcName tmp : Text) (ltm : Tm)
  /-- The rest of `PushLog`. -/
  | push (t : ι)
  /-- `Stop` is called, up to `join`. -/
  | stop
  /-- The rest of `Stop`, once `Run` has returned. -/
  | join
  /-- The next step of the log thread, at this time. -/
  | run (ltm : Tm)

/-- The label is a step of the log thread. -/
def LogAct.isRun {ι : Type} : LogAct ι → Bool
  | .run _ => true
  | .pushLog _ _ _ _ _ | .push _ | .stop | .join => false

namespace LogState
variable {ι : Type} [DecidableEq ι]

/-- `PushLog` up to the lock. -/
def pushLog (logLevel : ℤ) (s : LogState ι) (t : ι) (level : ELogLevel) (funcName tmp : Text)
    (ltm : Tm) : Option (LogState ι) :=
  if s.producers t ≠ none ∨ level = .bgNone then none
  else if level.toInt ≤ logLevel then some s
  else (format level funcName tmp ltm).bind fun content =>
    let log : BGLog := { logLevel := level, content := content }
    if FitsFormat tmp content then
      some { s with producers := Function.update s.producers t (some log) }
    else none

/-- The rest of `PushLog`. -/
def push (s : LogState ι) (t : ι) : Option (LogState ι) :=
  (s.producers t).map fun log => { s with
    mgr := s.mgr.push log
    producers := Function.update s.producers t none
    accepted := if s.stop = .before then s.accepted ++ [log] else s.accepted }

/-- One turn of `Run` up to `Write`: `Pick`, and what `Run` makes of the log. -/
def pick (s : LogState ι) : LogState ι :=
  match s.mgr.queue with
  | [] => s
  | log :: rest =>
      { s with
        mgr := { s.mgr with queue := rest }
        pc := if !log.valid then .pick else if log.isStopRequest then .returned else .renew log }

/-- The next step of the log thread. -/
def run (s : LogState ι) (ltm : Tm) : LogPc → Option (LogState ι)
  | .pick => some s.pick
  | .renew log => some { s with mgr := s.mgr.renew ltm, pc := .writeDefault log }
  | .writeDefault log => some { s with
      mgr := s.mgr.writeTo (pDefault log) log
      pc := if (pDefault log).isSome then .printf log else .writeSpecific log }
  | .printf log => some { s with
      pc := if printfDefined log.content then .writeSpecific log else .undefined }
  | .writeSpecific log => some { s with mgr := s.mgr.writeTo (pSpecific log) log, pc := .pick }
  | .returned | .undefined => none

/-- After `Start`. -/
def start (ι : Type) : LogState ι where
  mgr := .init
  pc := .pick
  stop := .before
  producers := fun _ => none
  accepted := []

end LogState

/-- One step, under the `LogLevel` of the configuration. `localtime_s` gives an hour that is
not negative. -/
def logStep {ι : Type} [DecidableEq ι] (logLevel : ℤ) (s : LogState ι) :
    LogAct ι → Option (LogState ι)
  | .pushLog t level funcName tmp ltm => s.pushLog logLevel t level funcName tmp ltm
  | .push t => s.push t
  | .stop =>
      if s.stop = .before then some { s with mgr := s.mgr.push .stop, stop := .join } else none
  | .join =>
      if s.stop = .join ∧ s.pc = .returned then
        some { s with mgr := s.mgr.closeAll, stop := .done }
      else none
  | .run ltm => if 0 ≤ ltm.tmHour then s.run ltm s.pc else none

/-! ## What the pipeline is for -/

/-- The texts of logs. -/
def texts (logs : List BGLog) : List Text := logs.map BGLog.content

/-- `WARNING` and above. -/
def isErr (log : BGLog) : Bool := ELogLevel.bgWarning.toInt ≤ log.logLevel.toInt

namespace LogPc

/-- The log thread is still to do this many steps with the log it has. -/
def remaining : LogPc → ℕ
  | .pick | .returned | .undefined => 0
  | .renew _ => 4
  | .writeDefault _ => 3
  | .printf _ => 2
  | .writeSpecific _ => 1

end LogPc

/-- How many steps the log thread takes up to the stop request, once that is in the queue. -/
def LogState.remaining {ι : Type} (s : LogState ι) : ℕ :=
  if s.pc = .returned then 0
  else s.pc.remaining + 5 * (s.mgr.queue.takeWhile fun log => !log.isStopRequest).length + 1

/-- **No log is lost, repeated or reordered.** The first stream has the logs that `PushLog`
let pass, in the order of their pushes, the second those from `WARNING` on; `Run` returns
only after the call of `Stop`, with all that came before it written; it is never held up,
and whatever the others do, it returns after `remaining` steps of its own. -/
structure LogExact {ι : Type} [DecidableEq ι] (logLevel : ℤ) (s : LogState ι) : Prop where
  level : ∀ log ∈ s.accepted, logLevel < log.logLevel.toInt
  default_prefix : s.mgr.written 0 <+: texts s.accepted
  err_prefix : s.mgr.written 1 <+: texts (s.accepted.filter isErr)
  returned : s.pc = .returned → s.stop ≠ .before ∧ s.mgr.written 0 = texts s.accepted ∧
    s.mgr.written 1 = texts (s.accepted.filter isErr)
  progress : s.pc ≠ .returned → ∀ ltm : Tm, 0 ≤ ltm.tmHour →
    (logStep logLevel s (.run ltm)).isSome = true
  returns : s.stop ≠ .before → ∀ acts t, runAll (logStep logLevel) s acts = some t →
    s.remaining ≤ acts.countP LogAct.isRun → t.pc = .returned

/-- Whatever is pushed before the stop request has no conversion for `printf`. -/
def NoConversion {ι : Type} (s : LogState ι) : LogAct ι → Prop
  | .push t => s.stop = .before → ∀ log ∈ s.producers t, printfDefined log.content = true
  | .pushLog _ _ _ _ _ | .stop | .join | .run _ => True

instance {ι : Type} (s : LogState ι) (a : LogAct ι) : Decidable (NoConversion s a) :=
  match a with
  | .push _ => inferInstanceAs (Decidable (_ → _))
  | .pushLog _ _ _ _ _ | .stop | .join | .run _ => isTrue trivial

/-! ## One step -/

/-- A log that `PushLog` lets pass. -/
structure BGLog.Passed (logLevel : ℤ) (log : BGLog) : Prop where
  level : logLevel < log.logLevel.toInt
  basic : log.logLevel ≠ .bgNone
  head : log.content.head? = some '['

namespace BGLog.Passed
variable {logLevel : ℤ} {log : BGLog}

theorem valid (h : log.Passed logLevel) : log.valid = true := by
  simpa [BGLog.valid] using h.basic

/-- No formatted text is the text of the stop request. -/
theorem not_stop (h : log.Passed logLevel) : log.isStopRequest = false := by
  simp only [isStopRequest, decide_eq_false_iff_not, not_and]
  intro _ hcontent
  have hhead := h.head
  rw [hcontent] at hhead
  exact absurd hhead (by decide)

theorem pDefault (h : log.Passed logLevel) : pDefault log = some 0 := by
  have hbasic : isBasicLogLevel log = true := by
    have hne := h.basic
    simp only [isBasicLogLevel]
    split
    all_goals first | rfl | exact absurd ‹_› hne
  rw [BGIocpServer.pDefault, hbasic]
  rfl

theorem pSpecific (h : log.Passed logLevel) :
    pSpecific log = if isErr log then some 1 else none := by
  have hne := h.basic
  obtain ⟨level, content⟩ := log
  cases level with
  | bgNone => exact absurd rfl hne
  | _ => rfl

end BGLog.Passed

@[simp] theorem texts_append (logs logs' : List BGLog) :
    texts (logs ++ logs') = texts logs ++ texts logs' := List.map_append

@[simp] theorem texts_singleton (log : BGLog) : texts [log] = [log.content] := rfl

namespace LogPc

/-- The log that the log thread has taken out. -/
def current : LogPc → List BGLog
  | .renew log | .writeDefault log | .printf log | .writeSpecific log => [log]
  | .pick | .returned | .undefined => []

/-- That log, once it is in the first stream. -/
def inDefault : LogPc → List BGLog
  | .printf log | .writeSpecific log => [log]
  | .pick | .renew _ | .writeDefault _ | .returned | .undefined => []

theorem inDefault_prefix (k : LogPc) : k.inDefault <+: k.current := by
  cases k with
  | printf log => exact List.prefix_rfl
  | writeSpecific log => exact List.prefix_rfl
  | _ => exact List.nil_prefix

/-- The files are open. -/
def writing : LogPc → Bool
  | .writeDefault _ | .printf _ | .writeSpecific _ => true
  | .pick | .renew _ | .returned | .undefined => false

end LogPc

/-- What the two streams hold, and whether they are open. -/
def BGLogManager.Holds (m : BGLogManager) (isOpen : Prop) (logs errs : List BGLog) : Prop :=
  ∃ f g, m.logFileStreamVec = [{ folder := "log\\".toList, file := f, written := texts logs },
    { folder := "err\\".toList, file := g, written := texts errs }] ∧
    (isOpen → f.isSome = true ∧ g.isSome = true)

namespace BGLogManager.Holds
variable {m : BGLogManager} {isOpen : Prop} {logs errs : List BGLog} {log : BGLog}

theorem written (h : m.Holds isOpen logs errs) :
    m.written 0 = texts logs ∧ m.written 1 = texts errs := by
  obtain ⟨f, g, hvec, -⟩ := h
  simp [BGLogManager.written, hvec]

theorem mono {isOpen' : Prop} (h : m.Holds isOpen logs errs) (himp : isOpen' → isOpen) :
    m.Holds isOpen' logs errs := by
  obtain ⟨f, g, hvec, hopen⟩ := h
  exact ⟨f, g, hvec, fun ho => hopen (himp ho)⟩

/-- The first stream takes the log. -/
theorem writeDefault (h : m.Holds isOpen logs errs) (ho : isOpen) :
    (m.writeTo (some 0) log).Holds isOpen (logs ++ [log]) errs := by
  obtain ⟨f, g, hvec, hopen⟩ := h
  refine ⟨f, g, ?_, hopen⟩
  simp [BGLogManager.writeTo, hvec, LogStream.write, (hopen ho).1]

/-- The second stream takes the log. -/
theorem writeErr (h : m.Holds isOpen logs errs) (ho : isOpen) :
    (m.writeTo (some 1) log).Holds isOpen logs (errs ++ [log]) := by
  obtain ⟨f, g, hvec, hopen⟩ := h
  refine ⟨f, g, ?_, hopen⟩
  simp [BGLogManager.writeTo, hvec, LogStream.write, (hopen ho).2]

/-- `Write` has its files open: the hour has changed, or they were open before. -/
theorem renew {ltm : Tm} (h : m.Holds (m.lastCreateFileName.tmHour ≠ -1) logs errs)
    (hhour : 0 ≤ ltm.tmHour) :
    (m.renew ltm).Holds True logs errs ∧ (m.renew ltm).lastCreateFileName.tmHour ≠ -1 ∧
      (m.renew ltm).queue = m.queue := by
  obtain ⟨f, g, hvec, hopen⟩ := h
  by_cases hsame : ltm.tmHour = m.lastCreateFileName.tmHour
  · have hne : m.lastCreateFileName.tmHour ≠ -1 := by omega
    simp only [BGLogManager.renew, checkLogFileNameAndRenew, hsame, ne_eq, not_true, if_false]
    exact ⟨⟨f, g, hvec, fun _ => hopen hne⟩, hne, trivial⟩
  · have hne : ltm.tmHour ≠ -1 := by omega
    simp only [BGLogManager.renew, checkLogFileNameAndRenew, ne_eq, hsame, not_false_eq_true,
      if_true, renewLogFileStream]
    refine ⟨⟨some ("log\\".toList ++ timestr ltm), some ("err\\".toList ++ timestr ltm), ?_,
      fun _ => ⟨rfl, rfl⟩⟩, hne, trivial⟩
    rw [hvec]
    rfl

end BGLogManager.Holds

/-- The queue behind the logs that are still to be written. -/
def LogState.behind {ι : Type} (s : LogState ι) (rest : List BGLog) : List BGLog :=
  if s.stop = .before then [] else if s.pc = .returned then rest else .stop :: rest

/-- The state between two steps: the logs `past` are written, `pend` are in the queue, and
`rest` have been pushed after the stop request. -/
structure LogInv {ι : Type} (logLevel : ℤ) (s : LogState ι) (past pend rest : List BGLog) :
    Prop where
  accepted : s.accepted = past ++ s.pc.current ++ pend
  queue : s.mgr.queue = pend ++ s.behind rest
  streams : s.mgr.Holds (s.stop ≠ .done ∧ s.mgr.lastCreateFileName.tmHour ≠ -1)
    (past ++ s.pc.inDefault) (past.filter isErr)
  writing : s.pc.writing = true → s.mgr.lastCreateFileName.tmHour ≠ -1
  done : s.stop = .done → s.pc = .returned
  returned : s.pc = .returned → s.stop ≠ .before ∧ pend = []
  undefined : s.pc ≠ .undefined
  logs : ∀ log ∈ s.accepted, log.Passed logLevel ∧ printfDefined log.content = true
  producers : ∀ t, ∀ log ∈ s.producers t, log.Passed logLevel

/-- The steps the log thread has left, by the logs in the queue. -/
def LogState.left {ι : Type} (s : LogState ι) (pend : List BGLog) : ℕ :=
  if s.pc = .returned then 0 else s.pc.remaining + 5 * pend.length + 1

/-- What one step does to the logs in the queue and to the steps that are left. -/
structure LogGoesOn {ι : Type} (logLevel : ℤ) (s t : LogState ι) (pend : List BGLog)
    (steps : ℕ) : Prop where
  inv : ∃ past' pend' rest', LogInv logLevel t past' pend' rest' ∧
    (s.stop ≠ .before → t.left pend' + steps = s.left pend)
  stop : s.stop ≠ .before → t.stop ≠ .before

namespace LogInv
variable {ι : Type} {logLevel : ℤ} {s t : LogState ι} {past pend rest : List BGLog}

theorem current_logs (h : LogInv logLevel s past pend rest) {log : BGLog}
    (hcur : s.pc.current = [log]) : log.Passed logLevel ∧ printfDefined log.content = true := by
  refine h.logs log ?_
  rw [h.accepted, hcur]
  simp

theorem stop_ne_done (h : LogInv logLevel s past pend rest) (hpc : s.pc ≠ .returned) :
    s.stop ≠ .done := fun hdone => hpc (h.done hdone)

/-- The streams are open while the log thread writes. -/
theorem isOpen (h : LogInv logLevel s past pend rest) (hpc : s.pc.writing = true) :
    s.stop ≠ .done ∧ s.mgr.lastCreateFileName.tmHour ≠ -1 := by
  refine ⟨h.stop_ne_done ?_, h.writing hpc⟩
  rintro hret
  rw [hret] at hpc
  exact absurd hpc (by decide)

theorem remaining_eq (h : LogInv logLevel s past pend rest) (hstop : s.stop ≠ .before) :
    s.remaining = s.left pend := by
  rw [LogState.remaining, LogState.left]
  split
  · rfl
  · rename_i hpc
    have hpend : ∀ log ∈ pend, (!log.isStopRequest) = true := by
      intro log hlog
      rw [(h.logs log (by rw [h.accepted]; simp [hlog])).1.not_stop]
      rfl
    have hstopLog : BGLog.stop.isStopRequest = true := by decide
    rw [h.queue, LogState.behind, if_neg hstop, if_neg hpc, List.takeWhile_append_of_pos hpend,
      List.takeWhile_cons, hstopLog]
    simp

/-- `Stop` pushes its request. -/
theorem stopPush (h : LogInv logLevel s past pend rest) (hstop : s.stop = .before) :
    LogGoesOn logLevel s { s with mgr := s.mgr.push .stop, stop := .join } pend 0 := by
  have hpc : s.pc ≠ .returned := fun hret => (h.returned hret).1 hstop
  refine ⟨⟨past, pend, [], ⟨h.accepted, ?_, ?_, h.writing, ?_, ?_, h.undefined, h.logs,
    h.producers⟩, fun hne => absurd hstop hne⟩, fun hne => absurd hstop hne⟩
  · simp [LogState.behind, hpc, BGLogManager.push, h.queue, hstop]
  · exact h.streams.mono fun ho => ⟨by simp [hstop], ho.2⟩
  · simp
  · exact fun hret => absurd hret hpc

/-- `Stop` joins the log thread and closes the files. -/
theorem join (h : LogInv logLevel s past pend rest) (hpc : s.pc = .returned) :
    LogGoesOn logLevel s { s with mgr := s.mgr.closeAll, stop := .done } pend 0 := by
  obtain ⟨hstop, hpend⟩ := h.returned hpc
  refine ⟨⟨past, pend, rest, ⟨h.accepted, ?_, ?_, h.writing, fun _ => hpc, ?_, h.undefined,
    h.logs, h.producers⟩, fun _ => rfl⟩, fun _ => by simp⟩
  · simp [LogState.behind, hpc, BGLogManager.closeAll, h.queue, hstop]
  · obtain ⟨f, g, hvec, -⟩ := h.streams
    refine ⟨none, none, ?_, fun ho => absurd rfl ho.1⟩
    simp [BGLogManager.closeAll, hvec, LogStream.close]
  · exact fun _ => ⟨by simp, hpend⟩

section Producers
variable [DecidableEq ι]

/-- A thread calls `PushLog`. -/
theorem pushLog (h : LogInv logLevel s past pend rest) {i : ι} {level : ELogLevel}
    {funcName tmp : Text} {ltm : Tm}
    (hs : s.pushLog logLevel i level funcName tmp ltm = some t) :
    LogGoesOn logLevel s t pend 0 := by
  simp only [LogState.pushLog] at hs
  split at hs
  · cases hs
  rename_i hfree
  split at hs
  · obtain rfl := Option.some.inj hs
    exact ⟨⟨past, pend, rest, h, fun _ => rfl⟩, id⟩
  rename_i hlevel
  simp only [Option.bind_eq_some_iff, Option.ite_none_right_eq_some, Option.some.injEq] at hs
  obtain ⟨content, hcontent, -, rfl⟩ := hs
  have hpassed : BGLog.Passed logLevel { logLevel := level, content := content } :=
    ⟨by simpa using hlevel, fun hl => hfree (.inr hl), head?_format hcontent⟩
  refine ⟨⟨past, pend, rest, ⟨h.accepted, h.queue, h.streams, h.writing, h.done, h.returned,
    h.undefined, h.logs, fun u log hlog => ?_⟩, fun _ => rfl⟩, id⟩
  by_cases hu : u = i
  · subst hu
    simp only [Function.update_self, Option.mem_def, Option.some.injEq] at hlog
    exact hlog ▸ hpassed
  · simp only [Function.update_of_ne hu] at hlog
    exact h.producers u log hlog

/-- A log is pushed: in front of the stop request it is accepted, behind it nobody reads
it. -/
theorem push (h : LogInv logLevel s past pend rest) {i : ι}
    (hdef : s.stop = .before → ∀ log ∈ s.producers i, printfDefined log.content = true)
    (hs : s.push i = some t) : LogGoesOn logLevel s t pend 0 := by
  simp only [LogState.push, Option.map_eq_some_iff] at hs
  obtain ⟨log, hlog, rfl⟩ := hs
  have hpassed := h.producers i log hlog
  have hproducers : ∀ u, ∀ log ∈ Function.update s.producers i none u, log.Passed logLevel := by
    intro u log' hlog'
    by_cases hu : u = i
    · subst hu
      simp at hlog'
    · rw [Function.update_of_ne hu] at hlog'
      exact h.producers u log' hlog'
  by_cases hstop : s.stop = .before
  · have hpc : s.pc ≠ .returned := fun hret => (h.returned hret).1 hstop
    refine ⟨⟨past, pend ++ [log], rest, ⟨?_, ?_, h.streams, h.writing, h.done, ?_, h.undefined,
      ?_, hproducers⟩, fun hne => absurd hstop hne⟩, fun hne => absurd hstop hne⟩
    · simp [hstop, h.accepted]
    · simp [LogState.behind, hstop, BGLogManager.push, h.queue]
    · exact fun hret => absurd hret hpc
    · intro log' hlog'
      simp only [hstop, if_true, List.mem_append, List.mem_singleton] at hlog'
      rcases hlog' with hlog' | rfl
      · exact h.logs log' hlog'
      · exact ⟨hpassed, hdef hstop log' hlog⟩
  · refine ⟨⟨past, pend, rest ++ [log], ⟨?_, ?_, h.streams, h.writing, h.done, h.returned,
      h.undefined, ?_, hproducers⟩, fun _ => rfl⟩, fun _ => hstop⟩
    · simp [hstop, h.accepted]
    · simp only [LogState.behind, hstop, if_false, BGLogManager.push, h.queue]
      split <;> simp
    · intro log' hlog'
      simp only [hstop, if_false] at hlog'
      exact h.logs log' hlog'

end Producers

/-- The log thread takes an entry of the queue, if there is one. -/
theorem pick (h : LogInv logLevel s past pend rest) (hpc : s.pc = .pick) :
    LogGoesOn logLevel s s.pick pend 1 ∨ s.stop = .before ∧ s.pick = s := by
  have hacc := h.accepted
  have hqueue := h.queue
  have hstreams := h.streams
  have hdone : s.stop ≠ .done := h.stop_ne_done (by simp [hpc])
  rw [hpc] at hacc hstreams
  simp only [LogPc.current, LogPc.inDefault, List.append_nil] at hacc hstreams
  cases pend with
  | cons log pend =>
      have hlog := h.logs log (by simp [hacc])
      have hpick : s.pick = { s with
          mgr := { s.mgr with queue := pend ++ s.behind rest }, pc := .renew log } := by
        simp [LogState.pick, hqueue, hlog.1.valid, hlog.1.not_stop]
      rw [hpick]
      refine .inl ⟨⟨past, pend, rest, ⟨?_, ?_, ?_, ?_, ?_, ?_, ?_, h.logs, h.producers⟩, ?_⟩, id⟩
      · simp [LogPc.current, hacc]
      · simp [LogState.behind, hpc]
      · simp only [LogPc.inDefault, List.append_nil]
        exact hstreams
      · simp [LogPc.writing]
      · exact fun hd => absurd hd hdone
      · simp
      · simp
      · intro _
        simp only [LogState.left, hpc, LogPc.remaining, List.length_cons, reduceCtorEq, if_false]
        omega
  | nil =>
      by_cases hstop : s.stop = .before
      · right
        have hempty : s.mgr.queue = [] := by simp [hqueue, LogState.behind, hstop]
        exact ⟨hstop, by simp [LogState.pick, hempty]⟩
      · left
        have hpick : s.pick = { s with
            mgr := { s.mgr with queue := rest }, pc := .returned } := by
          have hvalid : BGLog.stop.valid = true := by decide
          have hrequest : BGLog.stop.isStopRequest = true := by decide
          simp [LogState.pick, hqueue, LogState.behind, hpc, hstop, hvalid, hrequest]
        rw [hpick]
        refine ⟨⟨past, [], rest, ⟨?_, ?_, ?_, ?_, ?_, ?_, ?_, h.logs, h.producers⟩, ?_⟩, id⟩
        · simp [LogPc.current, hacc]
        · simp [LogState.behind, hstop]
        · simp only [LogPc.inDefault, List.append_nil]
          exact hstreams
        · simp [LogPc.writing]
        · exact fun _ => rfl
        · exact fun _ => ⟨hstop, rfl⟩
        · simp
        · intro _
          simp [LogState.left, hpc, LogPc.remaining]

/-- The log thread goes on in `Write`: the pc moves, and the streams may. -/
theorem goto (h : LogInv logLevel s past pend rest) (past' : List BGLog) {m : BGLogManager}
    {k : LogPc} (hwrites : s.pc.current ≠ []) (hk : k ≠ .returned) (hk' : k ≠ .undefined)
    (hqueue : m.queue = s.mgr.queue) (hcur : past' ++ k.current = past ++ s.pc.current)
    (hstreams : m.Holds (s.stop ≠ .done ∧ m.lastCreateFileName.tmHour ≠ -1)
      (past' ++ k.inDefault) (past'.filter isErr))
    (hwriting : k.writing = true → m.lastCreateFileName.tmHour ≠ -1)
    (hleft : k.remaining + 1 = s.pc.remaining) :
    LogGoesOn logLevel s { s with mgr := m, pc := k } pend 1 := by
  have hpc : s.pc ≠ .returned := by
    rintro hret
    rw [hret] at hwrites
    exact hwrites rfl
  refine ⟨⟨past', pend, rest, ⟨?_, ?_, hstreams, hwriting, ?_, fun hret => absurd hret hk, hk',
    h.logs, h.producers⟩, ?_⟩, id⟩
  · simpa only [hcur] using h.accepted
  · simpa only [LogState.behind, hqueue, hpc, hk, if_false] using h.queue
  · exact fun hd => absurd (h.done hd) hpc
  · intro _
    simp only [LogState.left, hpc, hk, if_false]
    omega

/-- The next step of the log thread. -/
theorem run (h : LogInv logLevel s past pend rest) {ltm : Tm} (hhour : 0 ≤ ltm.tmHour)
    (hs : s.run ltm s.pc = some t) :
    LogGoesOn logLevel s t pend 1 ∨ s.stop = .before ∧ t = s := by
  have hstreams := h.streams
  have hisOpen := h.isOpen
  cases hpc : s.pc with
  | pick =>
      simp only [hpc, LogState.run, Option.some.injEq] at hs
      exact hs ▸ h.pick hpc
  | renew log =>
      simp only [hpc, LogState.run, Option.some.injEq] at hs
      subst hs
      have hdone : s.stop ≠ .done := h.stop_ne_done (by simp [hpc])
      obtain ⟨hnew, hne, hqueue⟩ := (hstreams.mono fun ho => ⟨hdone, ho⟩).renew hhour
      refine .inl (h.goto past ?_ ?_ ?_ hqueue ?_ ?_ (fun _ => hne) ?_)
      · simp [hpc, LogPc.current]
      · simp
      · simp
      · simp [hpc, LogPc.current]
      · simpa [hpc, LogPc.inDefault] using hnew.mono fun _ => trivial
      · simp [hpc, LogPc.remaining]
  | writeDefault log =>
      have hcur : s.pc.current = [log] := by rw [hpc, LogPc.current]
      have hlog := h.current_logs hcur
      have ho := hisOpen (by rw [hpc]; rfl)
      simp only [hpc, LogState.run, hlog.1.pDefault, Option.isSome_some, if_true,
        Option.some.injEq] at hs
      subst hs
      refine .inl (h.goto past ?_ ?_ ?_ rfl ?_ ?_ (fun _ => ho.2) ?_)
      · simp [hpc, LogPc.current]
      · simp
      · simp
      · simp [hpc, LogPc.current]
      · rw [hpc] at hstreams
        simp only [LogPc.inDefault, List.append_nil] at hstreams
        exact hstreams.writeDefault ho
      · simp [hpc, LogPc.remaining]
  | printf log =>
      have hcur : s.pc.current = [log] := by rw [hpc, LogPc.current]
      have hlog := h.current_logs hcur
      have ho := hisOpen (by rw [hpc]; rfl)
      simp only [hpc, LogState.run, hlog.2, if_true, Option.some.injEq] at hs
      subst hs
      refine .inl (h.goto past ?_ ?_ ?_ rfl ?_ ?_ (fun _ => ho.2) ?_)
      · simp [hpc, LogPc.current]
      · simp
      · simp
      · simp [hpc, LogPc.current]
      · simpa [hpc, LogPc.inDefault] using hstreams
      · simp [hpc, LogPc.remaining]
  | writeSpecific log =>
      have hcur : s.pc.current = [log] := by rw [hpc, LogPc.current]
      have hlog := h.current_logs hcur
      have ho := hisOpen (by rw [hpc]; rfl)
      simp only [hpc, LogState.run, hlog.1.pSpecific, Option.some.injEq] at hs
      rw [hpc] at hstreams
      simp only [LogPc.inDefault] at hstreams
      subst hs
      by_cases herr : isErr log = true
      · rw [if_pos herr]
        refine .inl (h.goto (past ++ [log]) ?_ ?_ ?_ rfl ?_ ?_ (fun _ => ho.2) ?_)
        · simp [hpc, LogPc.current]
        · simp
        · simp
        · simp [hpc, LogPc.current]
        · have herrs : (past ++ [log]).filter isErr = past.filter isErr ++ [log] := by
            simp [herr]
          rw [herrs, LogPc.inDefault, List.append_nil]
          exact hstreams.writeErr ho
        · simp [hpc, LogPc.remaining]
      · rw [if_neg herr]
        refine .inl (h.goto (past ++ [log]) ?_ ?_ ?_ rfl ?_ ?_ (fun _ => ho.2) ?_)
        · simp [hpc, LogPc.current]
        · simp
        · simp
        · simp [hpc, LogPc.current]
        · have herrs : (past ++ [log]).filter isErr = past.filter isErr := by
            simp [herr]
          rw [herrs, LogPc.inDefault, List.append_nil]
          exact hstreams
        · simp [hpc, LogPc.remaining]
  | returned => simp [hpc, LogState.run] at hs
  | undefined => simp [hpc, LogState.run] at hs

end LogInv

variable {ι : Type} [DecidableEq ι] {logLevel : ℤ} {s t : LogState ι}

/-- One step of anybody keeps the invariant, and brings the log thread nearer to its end
if it is one of its own. -/
theorem logStep_inv {past pend rest : List BGLog} (h : LogInv logLevel s past pend rest)
    {a : LogAct ι} (hcond : NoConversion s a) (hs : logStep logLevel s a = some t) :
    LogGoesOn logLevel s t pend a.isRun.toNat ∨ s.stop = .before ∧ t = s := by
  cases a with
  | pushLog i level funcName tmp ltm => exact .inl (h.pushLog hs)
  | push i => exact .inl (h.push hcond hs)
  | stop =>
      simp only [logStep, Option.ite_none_right_eq_some, Option.some.injEq] at hs
      obtain ⟨hstop, rfl⟩ := hs
      exact .inl (h.stopPush hstop)
  | join =>
      simp only [logStep, Option.ite_none_right_eq_some, Option.some.injEq] at hs
      obtain ⟨⟨-, hpc⟩, rfl⟩ := hs
      exact .inl (h.join hpc)
  | run ltm =>
      simp only [logStep, Option.ite_none_right_eq_some] at hs
      exact h.run hs.1 hs.2

/-- What every run meeting the condition preserves. -/
def LogState.Inv (logLevel : ℤ) (s : LogState ι) : Prop :=
  ∃ past pend rest, LogInv logLevel s past pend rest

theorem LogState.Inv.step (h : s.Inv logLevel) {a : LogAct ι} (hcond : NoConversion s a)
    (hs : logStep logLevel s a = some t) : t.Inv logLevel := by
  obtain ⟨past, pend, rest, h⟩ := h
  rcases logStep_inv h hcond hs with ⟨⟨past', pend', rest', h', -⟩, -⟩ | ⟨-, rfl⟩
  · exact ⟨past', pend', rest', h'⟩
  · exact ⟨past, pend, rest, h⟩

theorem LogState.start_inv (ι : Type) (logLevel : ℤ) : (LogState.start ι).Inv logLevel := by
  refine ⟨[], [], [], ⟨rfl, rfl, ⟨none, none, rfl, fun ho => absurd rfl ho.2⟩, ?_, ?_, ?_, ?_,
    ?_, ?_⟩⟩
  all_goals simp [LogState.start, LogPc.writing]

/-- After the stop request, every step of the log thread takes one of those that are left,
and no other step adds any. -/
theorem LogState.Inv.remaining_step (h : s.Inv logLevel) {a : LogAct ι}
    (hstop : s.stop ≠ .before) (hs : logStep logLevel s a = some t) :
    t.stop ≠ .before ∧ t.remaining + a.isRun.toNat = s.remaining := by
  obtain ⟨past, pend, rest, h⟩ := h
  have hcond : NoConversion s a := by
    cases a with
    | push i => exact fun hbefore => absurd hbefore hstop
    | _ => trivial
  rcases logStep_inv h hcond hs with ⟨⟨past', pend', rest', h', hleft⟩, hstop'⟩ | ⟨hbefore, -⟩
  · rw [h'.remaining_eq (hstop' hstop), h.remaining_eq hstop]
    exact ⟨hstop' hstop, hleft hstop⟩
  · exact absurd hbefore hstop

/-- The log thread has returned once it has taken the steps that were left. -/
theorem LogState.Inv.returns (h : s.Inv logLevel) (hstop : s.stop ≠ .before)
    {acts : List (LogAct ι)} (hrun : runAll (logStep logLevel) s acts = some t)
    (hsteps : s.remaining ≤ acts.countP LogAct.isRun) : t.pc = .returned := by
  induction acts generalizing s with
  | nil =>
      simp only [runAll, Option.some.injEq] at hrun
      subst hrun
      by_contra hpc
      simp [LogState.remaining, hpc] at hsteps
  | cons a acts ih =>
      simp only [runAll, Option.bind_eq_some_iff] at hrun
      obtain ⟨r, hr, hrun⟩ := hrun
      have hcond : NoConversion s a := by
        cases a with
        | push i => exact fun hbefore => absurd hbefore hstop
        | _ => trivial
      obtain ⟨hstop', hleft⟩ := h.remaining_step hstop hr
      refine ih (h.step hcond hr) hstop' hrun ?_
      rw [List.countP_cons] at hsteps
      cases hisRun : a.isRun with
      | false =>
          simp only [hisRun, Bool.toNat_false, Bool.false_eq_true, if_false] at hleft hsteps
          omega
      | true =>
          simp only [hisRun, Bool.toNat_true, if_true] at hleft hsteps
          omega

/-- The invariant carries the purpose. -/
theorem LogState.Inv.logExact (h : s.Inv logLevel) : LogExact logLevel s where
  level log hlog := by
    obtain ⟨past, pend, rest, h⟩ := h
    exact (h.logs log hlog).1.level
  default_prefix := by
    obtain ⟨past, pend, rest, h⟩ := h
    rw [h.streams.written.1, h.accepted]
    have hcur : past ++ s.pc.inDefault <+: past ++ s.pc.current :=
      (List.prefix_append_right_inj past).mpr s.pc.inDefault_prefix
    exact (hcur.trans (List.prefix_append _ pend)).map BGLog.content
  err_prefix := by
    obtain ⟨past, pend, rest, h⟩ := h
    rw [h.streams.written.2, h.accepted, List.append_assoc]
    exact ((List.prefix_append past _).filter isErr).map BGLog.content
  returned hpc := by
    obtain ⟨past, pend, rest, h⟩ := h
    obtain ⟨hstop, rfl⟩ := h.returned hpc
    have hacc := h.accepted
    have hwritten := h.streams.written
    rw [hpc] at hacc hwritten
    simp only [LogPc.current, LogPc.inDefault, List.append_nil] at hacc hwritten
    rw [hacc]
    exact ⟨hstop, hwritten⟩
  progress hpc ltm hhour := by
    obtain ⟨past, pend, rest, h⟩ := h
    have hundefined := h.undefined
    simp only [logStep, hhour, if_true]
    cases hk : s.pc with
    | returned => exact absurd hk hpc
    | undefined => exact absurd hk hundefined
    | _ => rfl
  returns hstop acts t hrun hsteps := h.returns hstop hrun hsteps

/-- **No log is lost, repeated or reordered, and `Stop` ends the log thread**: in every run
of any number of threads in which no text pushed before the stop request has a conversion
for `printf`. -/
theorem logExact_of_reaches
    (h : Reaches (logStep logLevel) NoConversion (LogState.start ι) s) : LogExact logLevel s :=
  (h.invariant (LogState.Inv logLevel) (LogState.start_inv ι logLevel)
    fun _ _ _ h hcond hs => h.step hcond hs).logExact

/-- One producer pushes a warning, `Stop` is called, and the log thread runs. -/
def warningRun (tmp : String) (steps : ℕ) : List (LogAct Unit) :=
  let ltm : Tm := { tmYear := 117, tmMon := 0, tmMday := 1, tmHour := 9, tmMin := 5, tmSec := 7 }
  [.pushLog () .bgWarning "Run".toList tmp.toList ltm, .push (), .stop] ++
    List.replicate steps (.run ltm)

theorem logExact_of_reaches_warning :
    ∃ s, runAll (logStep 0) (LogState.start Unit) (warningRun "STOP" 6) = some s ∧
      s.pc = .returned ∧ s.mgr.written 0 = ["[09:05:07] [WARNING] STOP - (Run)\n".toList] ∧
      LogExact 0 s := by
  have hrun : ∃ s, runAll (logStep 0) (LogState.start Unit) (warningRun "STOP" 6) = some s :=
    ⟨_, rfl⟩
  obtain ⟨s, hs⟩ := hrun
  have hreach := Reaches.of_runAll (C := NoConversion) hs (by decide)
  refine ⟨s, hs, ?_, ?_, logExact_of_reaches hreach⟩
  · obtain rfl := Option.some.inj hs
    decide
  · obtain rfl := Option.some.inj hs
    decide

/-- The text `100%` of a warning reaches `printf`: it is in the first stream and never gets
into the second, and `Run` never returns. -/
theorem not_logExact_percent :
    ∃ s, Reaches (logStep 0) Always (LogState.start Unit) s ∧ s.stop = .join ∧
      s.mgr.written 1 = [] ∧ s.accepted.filter isErr ≠ [] ∧
      (∀ ltm, logStep 0 s (.run ltm) = none) ∧ ¬LogExact 0 s := by
  have hrun : ∃ s, runAll (logStep 0) (LogState.start Unit) (warningRun "100%" 4) = some s :=
    ⟨_, rfl⟩
  obtain ⟨s, hs⟩ := hrun
  have hstate : s.pc = .undefined ∧ s.stop = .join ∧ s.mgr.written 1 = [] ∧
      s.accepted.filter isErr ≠ [] := by
    obtain rfl := Option.some.inj hs
    decide
  obtain ⟨hpc, hstop, herr, hacc⟩ := hstate
  have hstuck : ∀ ltm, logStep 0 s (.run ltm) = none := by
    intro ltm
    simp [logStep, hpc, LogState.run]
  refine ⟨s, .always_of_runAll hs, hstop, herr, hacc, hstuck, fun hexact => ?_⟩
  have hprogress := hexact.progress (by simp [hpc]) ⟨0, 0, 0, 0, 0, 0⟩ (Int.le_refl 0)
  simp [hstuck] at hprogress

end BGIocpServer
