import Mathlib.Data.Int.Notation
import Mathlib.Data.List.Basic

/-!
# The log manager

`PushLog` formats a log and puts it into `m_queue`; the log thread takes the logs out
with `Pick` and hands them to `Write`; `Stop` puts the stop request into the same queue.
A text is a list of characters, a stream is what has been written to it, and a pointer to
a stream is its index in `m_logFileStreamVec`.

## Main definitions

* `ELogLevel`, `BGLog`: a level, and a log as it stands in the queue.
* `format`: the text that `PushLog` builds.
* `BGLogManager`: the queue and the streams, with the functions that change them.
* `printfDefined`: the formats that `printf` accepts without further arguments.
-/

namespace BGIocpServer

/-- A string of the source. -/
abbrev Text := List Char

/-- `ELogLevel`. -/
inductive ELogLevel
  | bgNone
  | bgTrace
  | bgDebug
  | bgInfo
  | bgWarning
  | bgError
  | bgFatal
  deriving DecidableEq, Repr

/-- `static_cast<int>(level)`. -/
def ELogLevel.toInt : ELogLevel → ℤ
  | .bgNone => 0
  | .bgTrace => 1
  | .bgDebug => 2
  | .bgInfo => 3
  | .bgWarning => 4
  | .bgError => 5
  | .bgFatal => 6

/-- `BGLog`. -/
structure BGLog where
  logLevel : ELogLevel
  content : Text
  deriving DecidableEq, Repr

namespace BGLog

def valid (log : BGLog) : Bool := log.logLevel ≠ .bgNone

def isStopRequest (log : BGLog) : Bool :=
  log.logLevel = .bgInfo ∧ log.content = "STOP".toList

/-- The log that `Stop` pushes. -/
def stop : BGLog := { logLevel := .bgInfo, content := "STOP".toList }

end BGLog

/-- The members of `struct tm` that are used. -/
structure Tm where
  tmYear : ℤ
  tmMon : ℤ
  tmMday : ℤ
  tmHour : ℤ
  tmMin : ℤ
  tmSec : ℤ
  deriving DecidableEq, Repr

/-! ## `PushLog` -/

/-- `%-ns`. -/
def padRight (n : ℕ) (s : Text) : Text := s ++ List.replicate (n - s.length) ' '

/-- `%0nd`. -/
def padZero (n : ℕ) (i : ℤ) : Text :=
  let digits := (toString i).toList
  List.replicate (n - digits.length) '0' ++ digits

/-- `m_logLevelLogNameMap`, as `Init` fills it. -/
def logLevelLogNameMap : List (ELogLevel × String) :=
  [(.bgNone, "NONE"), (.bgTrace, "TRACE"), (.bgDebug, "DEBUG"), (.bgInfo, "INFO"),
    (.bgWarning, "WARNING"), (.bgError, "ERROR"), (.bgFatal, "FATAL")]

/-- `logTime`. -/
def logTime (ltm : Tm) : Text :=
  '[' :: padZero 2 ltm.tmHour ++ ':' :: padZero 2 ltm.tmMin ++ ':' :: padZero 2 ltm.tmSec ++ [']']

/-- `result`: the time, the name of the level, and the message `tmp` with the name of the
function. `none` if the level has no name. -/
def format (level : ELogLevel) (funcName tmp : Text) (ltm : Tm) : Option Text :=
  (logLevelLogNameMap.lookup level).map fun name =>
    padRight 10 (logTime ltm) ++ ' ' :: padRight 7 ('[' :: name.toList ++ [']']) ++
      ' ' :: tmp ++ " - ".toList ++ '(' :: funcName ++ [')'] ++ ['\n']

/-- Every level has a name, so `PushLog` never reports the error of a missing one. -/
theorem format_isSome (level : ELogLevel) (funcName tmp : Text) (ltm : Tm) :
    (format level funcName tmp ltm).isSome = true := by
  rw [format, Option.isSome_map]
  cases level <;> rfl

/-- What `PushLog` pushes begins with the bracket of its time. -/
theorem head?_format {level : ELogLevel} {funcName tmp content : Text} {ltm : Tm}
    (h : format level funcName tmp ltm = some content) : content.head? = some '[' := by
  simp only [format, Option.map_eq_some_iff] at h
  obtain ⟨name, -, rfl⟩ := h
  simp [padRight, logTime]

/-- The texts that fit `tmp` and `result`. -/
def FitsFormat (tmp content : Text) : Prop := tmp.length < 4000 ∧ content.length < 4096

instance (tmp content : Text) : Decidable (FitsFormat tmp content) :=
  inferInstanceAs (Decidable (_ ∧ _))

/-- `printf(format)` is defined only if every `%` in it stands for itself, as `%%`: any
other conversion wants an argument. -/
def printfDefined : Text → Bool
  | [] => true
  | ['%'] => false
  | '%' :: c :: rest => c = '%' && printfDefined rest
  | _ :: rest => printfDefined rest

/-! ## `Write` -/

/-- An `std::fstream` with the folder it belongs to. -/
structure LogStream where
  folder : Text
  /-- The name of the open file. -/
  file : Option Text
  /-- What has been written, over all files. -/
  written : List Text
  deriving DecidableEq, Repr

namespace LogStream

/-- `*fs << content`, which does nothing on a closed stream. -/
def write (fs : LogStream) (content : Text) : LogStream :=
  if fs.file.isSome then { fs with written := fs.written ++ [content] } else fs

def close (fs : LogStream) : LogStream := { fs with file := none }

/-- `open(fileName, std::ios::app)`; the folders are there. -/
def openFile (fs : LogStream) (fileName : Text) : LogStream := { fs with file := some fileName }

end LogStream

/-- The members of `BGLogManager` that change after `Init`. -/
structure BGLogManager where
  queue : List BGLog
  lastCreateFileName : Tm
  logFileStreamVec : List LogStream
  deriving DecidableEq, Repr

/-- `m_forderNameFileStreamMap`, as `Init` fills it. -/
def forderNameFileStreamMap : List (String × ℕ) := [("log", 0), ("err", 1)]

/-- `m_logLevelForderNameMap`, as `Init` fills it. -/
def logLevelForderNameMap : List (ELogLevel × String) :=
  [(.bgNone, "err"), (.bgWarning, "err"), (.bgError, "err"), (.bgFatal, "err")]

/-- `IsBasicLogLevel`. -/
def isBasicLogLevel (log : BGLog) : Bool :=
  match log.logLevel with
  | .bgTrace | .bgDebug | .bgInfo | .bgWarning | .bgError | .bgFatal => true
  | .bgNone => false

/-- `pDefault`. -/
def pDefault (log : BGLog) : Option ℕ := if isBasicLogLevel log then some 0 else none

/-- `pSpecific`. -/
def pSpecific (log : BGLog) : Option ℕ :=
  (logLevelForderNameMap.lookup log.logLevel).bind fun forderName =>
    forderNameFileStreamMap.lookup forderName

namespace BGLogManager

/-- The constructor and `Init`. The other members of the time are never read before they
are set. -/
def init : BGLogManager where
  queue := []
  lastCreateFileName :=
    { tmYear := 0, tmMon := 0, tmMday := 0, tmHour := -1, tmMin := 0, tmSec := 0 }
  logFileStreamVec :=
    [{ folder := "log\\".toList, file := none, written := [] },
      { folder := "err\\".toList, file := none, written := [] }]

/-- `CheckLogFileNameAndRenew`. -/
def checkLogFileNameAndRenew (m : BGLogManager) (ltm : Tm) : Bool × BGLogManager :=
  if ltm.tmHour ≠ m.lastCreateFileName.tmHour then (false, { m with lastCreateFileName := ltm })
  else (true, m)

/-- `timestr`. -/
def timestr (ltm : Tm) : Text :=
  padZero 4 (ltm.tmYear + 1900) ++ '-' :: padZero 2 (ltm.tmMon + 1) ++ '-' ::
    padZero 2 ltm.tmMday ++ '_' :: padZero 2 ltm.tmHour ++ ".LOG".toList

/-- `RenewLogFileStream`. -/
def renewLogFileStream (m : BGLogManager) : BGLogManager :=
  { m with logFileStreamVec := m.logFileStreamVec.map fun fs =>
      fs.close.openFile (fs.folder ++ timestr m.lastCreateFileName) }

/-- The first lines of `Write`. -/
def renew (m : BGLogManager) (ltm : Tm) : BGLogManager :=
  match m.checkLogFileNameAndRenew ltm with
  | (false, m) => m.renewLogFileStream
  | (true, m) => m

/-- `log.Write(stream)`, unless the pointer is null. -/
def writeTo (m : BGLogManager) (stream : Option ℕ) (log : BGLog) : BGLogManager :=
  match stream with
  | none => m
  | some i => { m with logFileStreamVec := m.logFileStreamVec.modify i (·.write log.content) }

/-- `Write`, less its `printf`. -/
def write (m : BGLogManager) (ltm : Tm) (log : BGLog) : BGLogManager :=
  ((m.renew ltm).writeTo (pDefault log) log).writeTo (pSpecific log) log

/-- `m_queue.push`. -/
def push (m : BGLogManager) (log : BGLog) : BGLogManager := { m with queue := m.queue ++ [log] }

/-- The last lines of `Stop`. -/
def closeAll (m : BGLogManager) : BGLogManager :=
  { m with logFileStreamVec := m.logFileStreamVec.map LogStream.close }

/-- What has been written to a stream. -/
def written (m : BGLogManager) (i : ℕ) : List Text :=
  (m.logFileStreamVec.map LogStream.written).getD i []

end BGLogManager

end BGIocpServer
