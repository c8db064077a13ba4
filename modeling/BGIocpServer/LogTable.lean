import BGIocpServer.Kit.InsertMap
import BGIocpServer.Kit.Reaches
import BGIocpServer.LogManager
import Mathlib.Logic.Function.Basic

/-!
# The tables of the log manager over starts and stops

`Start`, `Stop` and the calls of `Write` between them, with the streams as what `new` has
made and `delete` has not freed. `Start` initialises before it looks whether the log thread
runs, `Init` adds to the vector and inserts into maps where an older entry stays, and `Stop`
frees the streams through copies of the entries, which stay in the tables. So only the first
`Start` ever leaves tables that agree. What uses a stream that was freed is `none`.

## Main definitions

* `LogSystem`, `LogSystemCall`, `logSystemStep`: the tables and the calls.
* `Called`: the sequences of calls that come about.
* `LogSystem.TableOk`, `LogSystem.Keeps`: one live stream for each folder, the same in the
  vector and the map; and what a call must keep.

## Main results

* `tables_along_iff`: when the tables survive a sequence of calls.
-/

namespace BGIocpServer
open Kit

/-- The members of `BGLogManager`, less the queue, and the heap of its streams. -/
structure LogSystem where
  /-- `m_pRunThread` is not null. -/
  runThread : Bool
  lastCreateFileName : Tm
  logFileStreamVec : List (Text × ℕ)
  logLevelLogNameMap : List (ELogLevel × String)
  forderNameFileStreamMap : List (String × ℕ)
  logLevelForderNameMap : List (ELogLevel × String)
  /-- `new` has made the streams at the addresses below. -/
  created : ℕ
  /-- The streams that were made and not freed. -/
  stream : ℕ → Option LogStream

/-- The calls. -/
inductive LogSystemCall
  | start
  | stop
  /-- The log thread hands a log to `Write` at this time. -/
  | write (ltm : Tm) (log : BGLog)
  deriving DecidableEq

/-- The folder as it stands in the vector. -/
def dirName (forder : String) : Text := forder.toList ++ ['\\']

namespace LogSystem

/-- The constructor; the time has no value yet. -/
def new (tm : Tm) : LogSystem where
  runThread := false
  lastCreateFileName := tm
  logFileStreamVec := []
  logLevelLogNameMap := []
  forderNameFileStreamMap := []
  logLevelForderNameMap := []
  created := 0
  stream := fun _ => none

/-- The three lines of `Init` for a folder. -/
def addStream (s : LogSystem) (forder : String) : LogSystem :=
  let pFileStream := s.created
  { s with
    created := s.created + 1
    stream := Function.update s.stream pFileStream
      (some { folder := dirName forder, file := none, written := [] })
    logFileStreamVec := s.logFileStreamVec ++ [(dirName forder, pFileStream)]
    forderNameFileStreamMap := mapInsert s.forderNameFileStreamMap forder pFileStream }

/-- `Init` -/
def init (s : LogSystem) : LogSystem :=
  let s := { s with
    lastCreateFileName := { s.lastCreateFileName with tmHour := -1 }
    logLevelLogNameMap := mapInsertAll s.logLevelLogNameMap BGIocpServer.logLevelLogNameMap }
  let s := (s.addStream "log").addStream "err"
  { s with
    logLevelForderNameMap :=
      mapInsertAll s.logLevelForderNameMap BGIocpServer.logLevelForderNameMap }

/-- `Start` -/
def start (s : LogSystem) : Bool × LogSystem :=
  let s := s.init
  if s.runThread then (false, s) else (true, { s with runThread := true })

/-- The loop of `Stop` over copies of the entries. -/
def deleteStreams : List (Text × ℕ) → (ℕ → Option LogStream) → Option (ℕ → Option LogStream)
  | [], stream => some stream
  | (_, pFileStream) :: rest, stream =>
      (stream pFileStream).bind fun _ =>
        deleteStreams rest (Function.update stream pFileStream none)

/-- `Stop`; the log thread has come to the stop request. -/
def stop (s : LogSystem) : Option LogSystem :=
  (deleteStreams s.logFileStreamVec s.stream).map fun stream =>
    { s with runThread := false, stream := stream }

/-- The loop of `RenewLogFileStream`. -/
def renewStreams (timestr : Text) :
    List (Text × ℕ) → (ℕ → Option LogStream) → Option (ℕ → Option LogStream)
  | [], stream => some stream
  | (dir, pFileStream) :: rest, stream =>
      (stream pFileStream).bind fun fs =>
        renewStreams timestr rest
          (Function.update stream pFileStream (some (fs.close.openFile (dir ++ timestr))))

/-- The first lines of `Write`. -/
def renew (s : LogSystem) (ltm : Tm) : Option LogSystem :=
  if ltm.tmHour ≠ s.lastCreateFileName.tmHour then
    (renewStreams (BGLogManager.timestr ltm) s.logFileStreamVec s.stream).map fun stream =>
      { s with lastCreateFileName := ltm, stream := stream }
  else some s

/-- `log.Write(pFileStream)` -/
def output (s : LogSystem) (pFileStream : ℕ) (log : BGLog) : Option LogSystem :=
  (s.stream pFileStream).map fun fs =>
    { s with stream := Function.update s.stream pFileStream (some (fs.write log.content)) }

/-- `pDefault->` -/
def outputDefault (s : LogSystem) (log : BGLog) : Option LogSystem :=
  if isBasicLogLevel log then s.logFileStreamVec.head?.bind fun e => s.output e.2 log else some s

/-- `pSpecific->` -/
def outputSpecific (s : LogSystem) (log : BGLog) : Option LogSystem :=
  match (s.logLevelForderNameMap.lookup log.logLevel).bind fun forderName =>
      s.forderNameFileStreamMap.lookup forderName with
  | none => some s
  | some pSpecific => s.output pSpecific log

/-- `Write`, less its `printf`. -/
def write (s : LogSystem) (ltm : Tm) (log : BGLog) : Option LogSystem :=
  (s.renew ltm).bind fun s => (s.outputDefault log).bind fun s => s.outputSpecific log

end LogSystem

/-- One call; `none` where it uses a stream that is not there. -/
def logSystemStep (s : LogSystem) : LogSystemCall → Option LogSystem
  | .start => some s.start.2
  | .stop => s.stop
  | .write ltm log => s.write ltm log

/-- The calls that come about: `Stop` while the log thread runs, and `Write` by it. -/
def Called : Bool → List LogSystemCall → Prop
  | _, [] => True
  | _, .start :: calls => Called true calls
  | runThread, .stop :: calls => runThread = true ∧ Called false calls
  | runThread, .write _ _ :: calls => runThread = true ∧ Called runThread calls

namespace LogSystem
variable {s s' s'' : LogSystem} {ltm : Tm} {log : BGLog}

/-- One entry for each folder, with a live stream, the same in the vector and in the map. -/
structure TableOk (s : LogSystem) : Prop where
  folders : s.logFileStreamVec.map Prod.fst = [dirName "log", dirName "err"]
  live : ∀ e ∈ s.logFileStreamVec, (s.stream e.2).isSome = true
  agree : ∀ forder pFileStream, s.forderNameFileStreamMap.lookup forder = some pFileStream ↔
    (dirName forder, pFileStream) ∈ s.logFileStreamVec

/-- What a call must keep: the tables agree while the log thread runs, and a `Start` that is
refused changes nothing. -/
def Keeps (s : LogSystem) (call : LogSystemCall) (s' : LogSystem) : Prop :=
  (s'.runThread = true → s'.TableOk) ∧ (call = .start → s.start.1 = false → s' = s)

/-! ## Output -/

/-- The tables and the streams that are live stay. -/
structure Frame (s s' : LogSystem) : Prop where
  vec : s'.logFileStreamVec = s.logFileStreamVec
  map : s'.forderNameFileStreamMap = s.forderNameFileStreamMap
  runThread : s'.runThread = s.runThread
  live : ∀ p, (s.stream p).isSome = true → (s'.stream p).isSome = true

theorem Frame.refl (s : LogSystem) : s.Frame s := ⟨rfl, rfl, rfl, fun _ h => h⟩

theorem Frame.trans (h : s.Frame s') (h' : s'.Frame s'') : s.Frame s'' where
  vec := h'.vec.trans h.vec
  map := h'.map.trans h.map
  runThread := h'.runThread.trans h.runThread
  live := fun p hp => h'.live p (h.live p hp)

/-- A stream that is used stays live. -/
theorem isSome_update {stream : ℕ → Option LogStream} {q : ℕ} {fs : LogStream} {p : ℕ}
    (h : (stream p).isSome = true) :
    (Function.update stream q (some fs) p).isSome = true := by
  by_cases hp : p = q
  · subst hp
    rw [Function.update_self]
    rfl
  · rwa [Function.update_of_ne hp]

theorem isSome_renewStreams {timestr : Text} {p : ℕ} (vec : List (Text × ℕ)) :
    ∀ {stream stream' : ℕ → Option LogStream}, renewStreams timestr vec stream = some stream' →
      (stream p).isSome = true → (stream' p).isSome = true := by
  induction vec with
  | nil =>
      intro stream stream' h hp
      obtain rfl := Option.some.inj h
      exact hp
  | cons e vec ih =>
      intro stream stream' h hp
      simp only [renewStreams, Option.bind_eq_some_iff] at h
      obtain ⟨fs, -, h⟩ := h
      exact ih h (isSome_update hp)

theorem exists_renewStreams (timestr : Text) {vec : List (Text × ℕ)} :
    ∀ {stream : ℕ → Option LogStream}, (∀ e ∈ vec, (stream e.2).isSome = true) →
      ∃ stream', renewStreams timestr vec stream = some stream' := by
  induction vec with
  | nil => exact fun _ => ⟨_, rfl⟩
  | cons e vec ih =>
      intro stream hlive
      rw [List.forall_mem_cons] at hlive
      obtain ⟨fs, hfs⟩ := Option.isSome_iff_exists.mp hlive.1
      obtain ⟨stream', hstream'⟩ := ih fun e he => isSome_update (hlive.2 e he)
      exact ⟨stream', by rw [renewStreams, hfs]; exact hstream'⟩

theorem frame_renew (h : s.renew ltm = some s') : s.Frame s' := by
  simp only [renew] at h
  split at h
  · rw [Option.map_eq_some_iff] at h
    obtain ⟨stream, hstream, rfl⟩ := h
    exact ⟨rfl, rfl, rfl, fun _ => isSome_renewStreams _ hstream⟩
  · obtain rfl := Option.some.inj h
    exact .refl s

theorem exists_output {p : ℕ} (h : (s.stream p).isSome = true) :
    ∃ s', s.output p log = some s' := by
  obtain ⟨fs, hfs⟩ := Option.isSome_iff_exists.mp h
  exact ⟨_, by rw [output, hfs]; rfl⟩

theorem frame_output {p : ℕ} (h : s.output p log = some s') : s.Frame s' := by
  rw [output, Option.map_eq_some_iff] at h
  obtain ⟨fs, -, rfl⟩ := h
  exact ⟨rfl, rfl, rfl, fun _ => isSome_update⟩

theorem frame_outputDefault (h : s.outputDefault log = some s') : s.Frame s' := by
  simp only [outputDefault] at h
  split at h
  · rw [Option.bind_eq_some_iff] at h
    obtain ⟨e, -, h⟩ := h
    exact frame_output h
  · obtain rfl := Option.some.inj h
    exact .refl s

theorem frame_outputSpecific (h : s.outputSpecific log = some s') : s.Frame s' := by
  simp only [outputSpecific] at h
  split at h
  · obtain rfl := Option.some.inj h
    exact .refl s
  · exact frame_output h

/-- `Write` leaves the tables and frees no stream. -/
theorem frame_write (h : s.write ltm log = some s') : s.Frame s' := by
  simp only [write, Option.bind_eq_some_iff] at h
  obtain ⟨r, hrenew, q, hdefault, hspecific⟩ := h
  exact ((frame_renew hrenew).trans (frame_outputDefault hdefault)).trans
    (frame_outputSpecific hspecific)

/-! ## After the first start -/

/-- The folder tells the name. -/
theorem dirName_inj_iff {a b : String} : dirName a = dirName b ↔ a = b := by
  rw [dirName, dirName, List.append_cancel_right_eq, String.toList_inj]

/-- The tables as the first `Start` leaves them. -/
structure Started (s : LogSystem) : Prop where
  vec : s.logFileStreamVec = [(dirName "log", 0), (dirName "err", 1)]
  map : s.forderNameFileStreamMap = [("log", 0), ("err", 1)]
  live : s.runThread = true → (s.stream 0).isSome = true ∧ (s.stream 1).isSome = true

theorem started_start (tm : Tm) : (new tm).start.2.Started where
  vec := rfl
  map := rfl
  live := fun _ => ⟨rfl, rfl⟩

namespace Started

theorem tableOk (h : s.Started) (hrun : s.runThread = true) : s.TableOk where
  folders := by
    rw [h.vec]
    rfl
  live := by
    obtain ⟨hzero, hone⟩ := h.live hrun
    intro e he
    rw [h.vec] at he
    simp only [List.mem_cons, List.not_mem_nil, or_false] at he
    rcases he with rfl | rfl
    · exact hzero
    · exact hone
  agree := by
    intro forder p
    have hmem : (dirName forder, p) ∈ s.logFileStreamVec ↔
        forder = "log" ∧ p = 0 ∨ forder = "err" ∧ p = 1 := by
      simp [h.vec, dirName_inj_iff]
    rw [h.map, hmem]
    by_cases hlog : forder = "log"
    · subst hlog
      simp [eq_comm]
    · have hlog' : (forder == "log") = false := beq_false_of_ne hlog
      by_cases herr : forder = "err"
      · subst herr
        simp [List.lookup_cons, eq_comm]
      · have herr' : (forder == "err") = false := beq_false_of_ne herr
        simp [List.lookup_cons, hlog, hlog', herr, herr']

/-- A second `Start` keeps nothing: it adds two entries, whether it is refused or not. -/
theorem not_keeps_start (h : s.Started) : ¬s.Keeps .start s.start.2 := by
  have hvec : s.start.2.logFileStreamVec = s.logFileStreamVec ++
      [(dirName "log", s.created), (dirName "err", s.created + 1)] := by
    simp only [start]
    split <;> simp [init, addStream]
  intro hkeeps
  cases hrun : s.runThread with
  | true =>
      have hrefused : s.start.1 = false := by simp [start, init, addStream, hrun]
      have hlen := congrArg (fun q => q.logFileStreamVec.length) (hkeeps.2 rfl hrefused)
      simp [hvec] at hlen
  | false =>
      have hstarted : s.start.2.runThread = true := by simp [start, init, addStream, hrun]
      have hlen := congrArg List.length (hkeeps.1 hstarted).folders
      simp [hvec, h.vec] at hlen

theorem frame (h : s.Started) (hframe : s.Frame s') : s'.Started where
  vec := hframe.vec.trans h.vec
  map := hframe.map.trans h.map
  live := fun hrun => by
    obtain ⟨hzero, hone⟩ := h.live (hframe.runThread.symm.trans hrun)
    exact ⟨hframe.live 0 hzero, hframe.live 1 hone⟩

/-- `Stop` finds its streams and leaves the tables, and nothing runs. -/
theorem stop (h : s.Started) (hrun : s.runThread = true) :
    ∃ s', s.stop = some s' ∧ s'.Started ∧ s'.runThread = false := by
  obtain ⟨hzero, hone⟩ := h.live hrun
  obtain ⟨logs, hlogs⟩ := Option.isSome_iff_exists.mp hzero
  obtain ⟨errs, herrs⟩ := Option.isSome_iff_exists.mp hone
  have hdelete : deleteStreams s.logFileStreamVec s.stream =
      some (Function.update (Function.update s.stream 0 none) 1 none) := by
    simp [h.vec, deleteStreams, hlogs, herrs]
  rw [LogSystem.stop, hdelete]
  exact ⟨_, rfl, ⟨h.vec, h.map, fun hrun' => absurd hrun' Bool.false_ne_true⟩, rfl⟩

/-- `Write` finds its streams. -/
theorem write (ltm : Tm) (log : BGLog) (h : s.Started) (hrun : s.runThread = true) :
    ∃ s', s.write ltm log = some s' := by
  have hrenew : ∃ r, s.renew ltm = some r := by
    rw [renew]
    split
    · obtain ⟨stream, hstream⟩ := exists_renewStreams (BGLogManager.timestr ltm)
        (h.tableOk hrun).live
      exact ⟨_, by rw [hstream]; rfl⟩
    · exact ⟨s, rfl⟩
  obtain ⟨r, hr⟩ := hrenew
  have hrframe := frame_renew hr
  have hrstarted := h.frame hrframe
  have hrrun := hrframe.runThread.trans hrun
  have hdefault : ∃ q, r.outputDefault log = some q := by
    rw [outputDefault]
    split
    · rw [hrstarted.vec]
      exact exists_output (hrstarted.live hrrun).1
    · exact ⟨r, rfl⟩
  obtain ⟨q, hq⟩ := hdefault
  have hqframe := frame_outputDefault hq
  have htable := (hrstarted.frame hqframe).tableOk (hqframe.runThread.trans hrrun)
  have hspecific : ∃ s', q.outputSpecific log = some s' := by
    rw [outputSpecific]
    split
    · exact ⟨q, rfl⟩
    · next p hp =>
        obtain ⟨forderName, -, hp⟩ := Option.bind_eq_some_iff.mp hp
        exact exists_output (htable.live _ ((htable.agree forderName p).mp hp))
  obtain ⟨s', hs'⟩ := hspecific
  exact ⟨s', by simp [LogSystem.write, hr, hq, hs']⟩

end Started

/-- What holds after the first start, and of the calls to come. -/
def AfterStart (s : LogSystem) (calls : List LogSystemCall) : Prop :=
  s.Started ∧ Called s.runThread calls

/-- One call after the first start. -/
theorem keeps_iff (s : LogSystem) (call : LogSystemCall) (calls : List LogSystemCall)
    (h : s.AfterStart (call :: calls)) :
    ∃ s', logSystemStep s call = some s' ∧ (s.Keeps call s' ↔ call ≠ .start) ∧
      (call ≠ .start → s'.AfterStart calls) := by
  obtain ⟨hstarted, hcalled⟩ := h
  cases call with
  | start =>
      exact ⟨_, rfl, iff_of_false hstarted.not_keeps_start (by simp), fun hne => absurd rfl hne⟩
  | stop =>
      obtain ⟨hrun, hcalled⟩ := hcalled
      obtain ⟨s', hs', hstarted', hrun'⟩ := hstarted.stop hrun
      refine ⟨s', hs', iff_of_true ⟨fun hruns => ?_, by simp⟩ (by simp), fun _ => ?_⟩
      · rw [hrun'] at hruns
        exact absurd hruns Bool.false_ne_true
      · rw [AfterStart, hrun']
        exact ⟨hstarted', hcalled⟩
  | write ltm log =>
      obtain ⟨hrun, hcalled⟩ := hcalled
      obtain ⟨s', hs'⟩ := hstarted.write ltm log hrun
      have hframe := frame_write hs'
      have hstarted' := hstarted.frame hframe
      refine ⟨s', hs', iff_of_true ⟨hstarted'.tableOk, by simp⟩ (by simp), fun _ => ?_⟩
      rw [AfterStart, hframe.runThread]
      exact ⟨hstarted', hcalled⟩

/-- The first `Start` of all keeps what it must. -/
theorem keeps_start_new (tm : Tm) : (new tm).Keeps .start (new tm).start.2 :=
  ⟨(started_start tm).tableOk, fun _ hrefused => absurd hrefused Bool.true_eq_false.mp⟩

/-- **All the calls find their streams and keep the tables if and only if `Start` is called at
most once.** -/
theorem tables_along_iff (tm : Tm) {calls : List LogSystemCall} (hcalled : Called false calls) :
    (∃ s, runAll logSystemStep (new tm) calls = some s) ∧
      Along logSystemStep Keeps (new tm) calls ↔ calls.count .start ≤ 1 := by
  cases calls with
  | nil => simp [Along, visited, runAll]
  | cons call calls =>
      -- nothing but a `Start` can come first
      cases call with
      | start =>
          have hafter : (new tm).start.2.AfterStart calls := ⟨started_start tm, hcalled⟩
          have hrest := completes_along_iff keeps_iff hafter
          have hcount : (∀ call ∈ calls, call ≠ .start) ↔ calls.count .start = 0 := by
            simp [List.count_eq_zero, List.forall_mem_ne']
          rw [runAll_cons rfl, along_cons rfl, and_iff_right (keeps_start_new tm)]
          rw [hrest, hcount, List.count_cons_self]
          omega
      | stop => exact absurd hcalled.1 Bool.false_ne_true
      | write ltm log => exact absurd hcalled.1 Bool.false_ne_true

/-- A start, a log and a stop. -/
theorem tables_along_iff_main :
    (∃ s, runAll logSystemStep (new ⟨0, 0, 0, 0, 0, 0⟩)
      [.start, .write ⟨124, 0, 1, 10, 0, 0⟩ ⟨.bgError, "full".toList⟩, .stop] = some s) ∧
    Along logSystemStep Keeps (new ⟨0, 0, 0, 0, 0, 0⟩)
      [.start, .write ⟨124, 0, 1, 10, 0, 0⟩ ⟨.bgError, "full".toList⟩, .stop] := by
  have hcalled : Called false
      [.start, .write ⟨124, 0, 1, 10, 0, 0⟩ ⟨.bgError, "full".toList⟩, .stop] :=
    ⟨rfl, rfl, trivial⟩
  exact (tables_along_iff _ hcalled).2 (by decide)

/-- After a stop, the next start leaves four entries and the first stream freed, and the first
log goes through it; and a start that is refused adds its two entries as well. -/
theorem not_tables_along_restart :
    (Called false [.start, .stop, .start] ∧
      ¬Along logSystemStep Keeps (new ⟨0, 0, 0, 0, 0, 0⟩) [.start, .stop, .start] ∧
      runAll logSystemStep (new ⟨0, 0, 0, 0, 0, 0⟩)
        [.start, .stop, .start, .write ⟨124, 0, 1, 10, 0, 0⟩ ⟨.bgInfo, "up".toList⟩] = none) ∧
    Called false [.start, .start] ∧
      ¬Along logSystemStep Keeps (new ⟨0, 0, 0, 0, 0, 0⟩) [.start, .start] := by
  refine ⟨⟨⟨rfl, trivial⟩, ?_, rfl⟩, trivial, ?_⟩
  · rw [along_cons rfl, along_cons rfl, along_cons rfl]
    rintro ⟨-, -, hkeeps, -⟩
    exact absurd ((hkeeps.1 rfl).live (dirName "log", 0) List.mem_cons_self) Bool.false_ne_true
  · rw [along_cons rfl, along_cons rfl]
    rintro ⟨-, hkeeps, -⟩
    exact absurd (congrArg (fun s => s.logFileStreamVec.length) (hkeeps.2 rfl rfl)) (by decide)

end LogSystem
end BGIocpServer
