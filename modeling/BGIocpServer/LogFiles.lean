import BGIocpServer.LogRun

/-!
# Which file a log goes to

`Write` gives its streams new files when the hour of the clock is not the hour of the last
renewal. The name of a file has the date as well: a quiet period of a day, or of several,
that ends in the same hour leaves the streams with the file of the earlier day.

## Main definitions

* `LocalTime`: the times that `localtime_s` gives.
* `GoesTo`: a log is written to streams whose files have the name of a time.
* `FilesOk`: each of a sequence of logs goes to the files of its own time.

## Main results

* `timestr_inj`: the name of a file tells the date and the hour.
* `filesOk_iff`: when each log goes to the files of its own time.
-/

namespace BGIocpServer
open Kit

/-! ## Digits -/

/-- The digits of `%0nd`. -/
theorem padZero_natCast (n k : ℕ) : padZero n (k : ℤ) =
    List.replicate (n - (Nat.toDigits 10 k).length) '0' ++ Nat.toDigits 10 k := by
  have hdigits : (toString (k : ℤ)).toList = Nat.toDigits 10 k := Nat.toList_repr
  simp only [padZero, hdigits]

theorem isDigit_of_mem_padZero {n : ℕ} {i : ℤ} (hi : 0 ≤ i) {c : Char} (h : c ∈ padZero n i) :
    c.isDigit = true := by
  obtain ⟨k, rfl⟩ := Int.eq_ofNat_of_zero_le hi
  rw [padZero_natCast, List.mem_append] at h
  rcases h with h | h
  · rw [(List.mem_replicate.mp h).2]
    rfl
  · exact Nat.isDigit_of_mem_toDigits (by decide) (by decide) h

/-- The digits tell the number. -/
theorem padZero_inj {n : ℕ} {i j : ℤ} (hi : 0 ≤ i) (hj : 0 ≤ j) (h : padZero n i = padZero n j) :
    i = j := by
  obtain ⟨k, rfl⟩ := Int.eq_ofNat_of_zero_le hi
  obtain ⟨l, rfl⟩ := Int.eq_ofNat_of_zero_le hj
  have hvalue : ∀ k : ℕ, Nat.ofDigitChars 10 (padZero n (k : ℤ)) 0 = k := by
    intro k
    rw [padZero_natCast, Nat.ofDigitChars_append, Nat.ofDigitChars_replicate_zero, Nat.mul_zero,
      Nat.ofDigitChars_ten_toDigits]
  have hkl := congrArg (fun s => Nat.ofDigitChars 10 s 0) h
  simp only [hvalue] at hkl
  rw [hkl]

/-- A text that ends at the first separator. -/
theorem append_cons_inj {c : Char} {xs ys rest rest' : Text} (hx : c ∉ xs) (hy : c ∉ ys)
    (h : xs ++ c :: rest = ys ++ c :: rest') : xs = ys ∧ rest = rest' := by
  have htake : ∀ {zs : Text} (tail : Text), c ∉ zs →
      (zs ++ c :: tail).takeWhile (· ≠ c) = zs := by
    intro zs tail hz
    rw [List.takeWhile_append_of_pos]
    · simp
    · intro z hmem
      simp only [ne_eq, decide_not, Bool.not_eq_true', decide_eq_false_iff_not]
      rintro rfl
      exact hz hmem
  have heq : xs = ys := by rw [← htake rest hx, h, htake rest' hy]
  subst heq
  exact ⟨rfl, (List.cons.inj (List.append_cancel_left h)).2⟩

/-! ## File names -/

/-- A time of `localtime_s`. -/
structure LocalTime (ltm : Tm) : Prop where
  year : 0 ≤ ltm.tmYear + 1900
  mon : 0 ≤ ltm.tmMon
  mday : 0 ≤ ltm.tmMday
  hour : 0 ≤ ltm.tmHour

instance (ltm : Tm) : Decidable (LocalTime ltm) :=
  decidable_of_iff (0 ≤ ltm.tmYear + 1900 ∧ 0 ≤ ltm.tmMon ∧ 0 ≤ ltm.tmMday ∧ 0 ≤ ltm.tmHour)
    ⟨fun h => ⟨h.1, h.2.1, h.2.2.1, h.2.2.2⟩, fun h => ⟨h.year, h.mon, h.mday, h.hour⟩⟩

/-- Two times of one day. -/
def SameDate (a b : Tm) : Prop :=
  a.tmYear = b.tmYear ∧ a.tmMon = b.tmMon ∧ a.tmMday = b.tmMday

instance (a b : Tm) : Decidable (SameDate a b) := inferInstanceAs (Decidable (_ ∧ _))

namespace BGLogManager
variable {a b ltm : Tm} {m : BGLogManager} {log : BGLog} {name : Text}

/-- The name of a file tells the date and the hour. -/
theorem timestr_inj (ha : LocalTime a) (hb : LocalTime b) :
    timestr a = timestr b ↔ SameDate a b ∧ a.tmHour = b.tmHour := by
  constructor
  · intro h
    simp only [timestr, List.append_assoc, List.cons_append] at h
    have hsep : ∀ {c : Char} {n : ℕ} {i : ℤ}, c.isDigit = false → 0 ≤ i → c ∉ padZero n i := by
      intro c n i hc hi hmem
      rw [isDigit_of_mem_padZero hi hmem] at hc
      exact absurd hc (by simp)
    have hmon : ∀ {t : Tm}, LocalTime t → 0 ≤ t.tmMon + 1 := fun h => by
      have := h.mon
      omega
    obtain ⟨hyear, h⟩ := append_cons_inj (hsep rfl ha.year) (hsep rfl hb.year) h
    obtain ⟨hmonth, h⟩ := append_cons_inj (hsep rfl (hmon ha)) (hsep rfl (hmon hb)) h
    obtain ⟨hmday, h⟩ := append_cons_inj (hsep rfl ha.mday) (hsep rfl hb.mday) h
    have hyear := padZero_inj ha.year hb.year hyear
    have hmonth := padZero_inj (hmon ha) (hmon hb) hmonth
    exact ⟨⟨by omega, by omega, padZero_inj ha.mday hb.mday hmday⟩,
      padZero_inj ha.hour hb.hour (List.append_cancel_right h)⟩
  · rintro ⟨⟨hyear, hmon, hmday⟩, hhour⟩
    rw [timestr, timestr, hyear, hmon, hmday, hhour]

/-! ## The files of the streams -/

/-- The streams have files of the given name open, and these texts have been written. -/
def Named (m : BGLogManager) (name : Text) (logs errs : List Text) : Prop :=
  m.logFileStreamVec =
    [{ folder := "log\\".toList, file := some ("log\\".toList ++ name), written := logs },
      { folder := "err\\".toList, file := some ("err\\".toList ++ name), written := errs }]

/-- The log goes to streams whose files have the name of this time. -/
def GoesTo (m : BGLogManager) (log : BGLog) (ltm : Tm) : Prop :=
  ∀ i, pDefault log = some i ∨ pSpecific log = some i → ∃ fs, m.logFileStreamVec[i]? = some fs ∧
    fs.file = some (fs.folder ++ timestr ltm)

/-- The streams a log goes to: the second one alone, the first one alone, or both. -/
theorem streams_cases (log : BGLog) :
    pDefault log = none ∧ pSpecific log = some 1 ∨ pDefault log = some 0 ∧ pSpecific log = none ∨
      pDefault log = some 0 ∧ pSpecific log = some 1 := by
  obtain ⟨level, content⟩ := log
  cases level with
  | bgNone => exact .inl ⟨rfl, rfl⟩
  | bgTrace | bgDebug | bgInfo => exact .inr (.inl ⟨rfl, rfl⟩)
  | bgWarning | bgError | bgFatal => exact .inr (.inr ⟨rfl, rfl⟩)

namespace Named
variable {logs errs : List Text}

/-- Each log goes to a stream, so its files are those of the time if the name is. -/
theorem goesTo_iff (h : m.Named name logs errs) :
    m.GoesTo log ltm ↔ name = timestr ltm := by
  have hvec : m.logFileStreamVec = _ := h
  constructor
  · intro hto
    obtain ⟨i, hi, hused⟩ : ∃ i < 2, pDefault log = some i ∨ pSpecific log = some i := by
      rcases streams_cases log with ⟨-, hs⟩ | ⟨hd, -⟩ | ⟨hd, -⟩
      · exact ⟨1, by decide, .inr hs⟩
      · exact ⟨0, by decide, .inl hd⟩
      · exact ⟨0, by decide, .inl hd⟩
    obtain ⟨fs, hfs, hfile⟩ := hto i hused
    rw [hvec] at hfs
    obtain rfl | rfl : i = 0 ∨ i = 1 := by omega
    all_goals
      obtain rfl := Option.some.inj hfs
      exact List.append_cancel_left (Option.some.inj hfile)
  · rintro rfl i hused
    obtain rfl | rfl : i = 0 ∨ i = 1 := by
      rcases streams_cases log with ⟨hd, hs⟩ | ⟨hd, hs⟩ | ⟨hd, hs⟩ <;>
        simp only [hd, hs, Option.some.injEq, reduceCtorEq, or_false, false_or] at hused <;> omega
    all_goals exact ⟨_, by rw [hvec]; rfl, rfl⟩

/-- The first stream takes the text. -/
theorem writeTo_zero (h : m.Named name logs errs) :
    (m.writeTo (some 0) log).Named name (logs ++ [log.content]) errs := by
  have hvec : m.logFileStreamVec = _ := h
  simp [BGLogManager.writeTo, hvec, Named, LogStream.write]

/-- The second stream takes the text. -/
theorem writeTo_one (h : m.Named name logs errs) :
    (m.writeTo (some 1) log).Named name logs (errs ++ [log.content]) := by
  have hvec : m.logFileStreamVec = _ := h
  simp [BGLogManager.writeTo, hvec, Named, LogStream.write]

/-- What `Write` puts out behind its renewal. -/
theorem output (log : BGLog) (h : m.Named name logs errs) :
    ((m.writeTo (pDefault log) log).writeTo (pSpecific log) log).Named name
      (if pDefault log = some 0 then logs ++ [log.content] else logs)
      (if pSpecific log = some 1 then errs ++ [log.content] else errs) := by
  rcases streams_cases log with ⟨hd, hs⟩ | ⟨hd, hs⟩ | ⟨hd, hs⟩
  · rw [hd, hs, if_neg (by simp), if_pos rfl]
    exact h.writeTo_one
  · rw [hd, hs, if_pos rfl, if_neg (by simp)]
    exact h.writeTo_zero
  · rw [hd, hs, if_pos rfl, if_pos rfl]
    exact h.writeTo_zero.writeTo_one

theorem written_zero (h : m.Named name logs errs) : m.written 0 = logs := by
  have hvec : m.logFileStreamVec = _ := h
  simp [written, hvec]

end Named

theorem lastCreateFileName_writeTo (m : BGLogManager) (i : Option ℕ) (log : BGLog) :
    (m.writeTo i log).lastCreateFileName = m.lastCreateFileName := by
  cases i <;> rfl

/-- In the hour of the last renewal everything stays. -/
theorem renew_same (h : ltm.tmHour = m.lastCreateFileName.tmHour) : m.renew ltm = m := by
  simp [renew, checkLogFileNameAndRenew, h]

/-- In another hour both streams get files of the new name. -/
theorem renew_new (h : ltm.tmHour ≠ m.lastCreateFileName.tmHour) {f g : Option Text}
    {logs errs : List Text} (hvec : m.logFileStreamVec =
      [{ folder := "log\\".toList, file := f, written := logs },
        { folder := "err\\".toList, file := g, written := errs }]) :
    (m.renew ltm).Named (timestr ltm) logs errs ∧ (m.renew ltm).lastCreateFileName = ltm := by
  simp only [renew, checkLogFileNameAndRenew, ne_eq, h, not_false_eq_true, if_true,
    renewLogFileStream, Named, hvec]
  exact ⟨rfl, trivial⟩

end BGLogManager

/-! ## Sequences of logs -/

/-- Each log goes to the files of the time of its `Write`. -/
def FilesOk : BGLogManager → List (Tm × BGLog) → Prop
  | _, [] => True
  | m, (ltm, log) :: rest => (m.renew ltm).GoesTo log ltm ∧ FilesOk (m.write ltm log) rest

/-- Two writes in the same hour of the clock are on the same day. -/
def SameHourSameDate (a b : Tm) : Prop := a.tmHour = b.tmHour → SameDate a b

instance (a b : Tm) : Decidable (SameHourSameDate a b) := inferInstanceAs (Decidable (_ → _))

/-- The four steps of the log thread in `Write`, one after the other, are `write`. -/
theorem write_alone {ι : Type} [DecidableEq ι] {logLevel : ℤ} {s : LogState ι} {log : BGLog}
    {ltm : Tm} (hpc : s.pc = .renew log) (hdefault : pDefault log = some 0)
    (hprintf : printfDefined log.content = true) (hhour : 0 ≤ ltm.tmHour) :
    runAll (logStep logLevel) s (List.replicate 4 (.run ltm)) =
      some { s with mgr := s.mgr.write ltm log, pc := .pick } := by
  simp [runAll, logStep, hhour, hpc, LogState.run, hdefault, hprintf, BGLogManager.write]

namespace BGLogManager
variable {prev ltm : Tm} {m : BGLogManager} {log : BGLog}

/-- The last `Write` was at `prev`, and its files had the name of that time. -/
structure WroteAt (m : BGLogManager) (prev : Tm) : Prop where
  named : ∃ logs errs, m.Named (timestr prev) logs errs
  hour : m.lastCreateFileName.tmHour = prev.tmHour

/-- The output of `Write` comes after its renewal and leaves the files. -/
theorem WroteAt.write (log : BGLog) (h : (m.renew ltm).WroteAt prev) :
    (m.write ltm log).WroteAt prev := by
  obtain ⟨⟨logs, errs, hnamed⟩, hhour⟩ := h
  refine ⟨⟨_, _, hnamed.output log⟩, ?_⟩
  rw [BGLogManager.write, lastCreateFileName_writeTo, lastCreateFileName_writeTo]
  exact hhour

/-- The first `Write` finds the hour -1 and opens the files. -/
theorem wroteAt_init (h : LocalTime ltm) : (init.renew ltm).WroteAt ltm := by
  have hhour : ltm.tmHour ≠ init.lastCreateFileName.tmHour := by
    have hpos := h.hour
    change ltm.tmHour ≠ -1
    omega
  have hvec : init.logFileStreamVec =
      [{ folder := "log\\".toList, file := none, written := [] },
        { folder := "err\\".toList, file := none, written := [] }] := rfl
  obtain ⟨hnamed, hlast⟩ := renew_new hhour hvec
  exact ⟨⟨_, _, hnamed⟩, by rw [hlast]⟩

/-- One `Write` after another. -/
theorem WroteAt.renew (log : BGLog) (h : m.WroteAt prev) (hprev : LocalTime prev)
    (hltm : LocalTime ltm) :
    ((m.renew ltm).GoesTo log ltm ↔ SameHourSameDate prev ltm) ∧
      (SameHourSameDate prev ltm → (m.renew ltm).WroteAt ltm) := by
  obtain ⟨⟨logs, errs, hnamed⟩, hhour⟩ := h
  by_cases hsame : ltm.tmHour = m.lastCreateFileName.tmHour
  · have hclock : prev.tmHour = ltm.tmHour := hhour.symm.trans hsame.symm
    have hname : timestr prev = timestr ltm ↔ SameHourSameDate prev ltm := by
      rw [timestr_inj hprev hltm]
      exact ⟨fun hdate _ => hdate.1, fun hdate => ⟨hdate hclock, hclock⟩⟩
    rw [renew_same hsame, hnamed.goesTo_iff, hname]
    refine ⟨Iff.rfl, fun hdate => ⟨⟨logs, errs, ?_⟩, hsame.symm⟩⟩
    rw [← hname.2 hdate]
    exact hnamed
  · obtain ⟨hnew, hlast⟩ := renew_new hsame hnamed
    have hclock : prev.tmHour ≠ ltm.tmHour := fun heq => hsame (heq.symm.trans hhour.symm)
    refine ⟨iff_of_true (hnew.goesTo_iff.2 rfl) fun heq => absurd heq hclock,
      fun _ => ⟨⟨logs, errs, hnew⟩, by rw [hlast]⟩⟩

/-- What follows a `Write` at `prev`. -/
theorem WroteAt.rest_ok_iff (writes : List (Tm × BGLog)) : ∀ {m : BGLogManager} {prev : Tm},
    m.WroteAt prev → LocalTime prev → (∀ w ∈ writes, LocalTime w.1) →
    (FilesOk m writes ↔ (prev :: writes.map Prod.fst).IsChain SameHourSameDate) := by
  induction writes with
  | nil =>
      intro m prev _ _ _
      exact iff_of_true trivial (.singleton prev)
  | cons w writes ih =>
      obtain ⟨ltm, log⟩ := w
      intro m prev h hprev hlocal
      have hltm : LocalTime ltm := hlocal _ List.mem_cons_self
      obtain ⟨hgoes, hnext⟩ := h.renew log hprev hltm
      rw [FilesOk, hgoes, List.map_cons, List.isChain_cons_cons]
      exact and_congr_right fun hdate => ih ((hnext hdate).write log) hltm fun w hw =>
        hlocal w (List.mem_cons_of_mem _ hw)

/-- **Each log goes to the files of its own date and hour if and only if any two successive
writes in the same hour of the clock are on the same day.** -/
theorem filesOk_iff (writes : List (Tm × BGLog)) (hlocal : ∀ w ∈ writes, LocalTime w.1) :
    FilesOk .init writes ↔ (writes.map Prod.fst).IsChain SameHourSameDate := by
  cases writes with
  | nil => exact iff_of_true trivial .nil
  | cons w writes =>
      obtain ⟨ltm, log⟩ := w
      have hltm : LocalTime ltm := hlocal _ List.mem_cons_self
      have hfirst := wroteAt_init hltm
      obtain ⟨logs, errs, hnamed⟩ := hfirst.named
      have hrest := (hfirst.write log).rest_ok_iff writes hltm fun w hw =>
        hlocal w (List.mem_cons_of_mem _ hw)
      rw [FilesOk, hrest, List.map_cons]
      exact and_iff_right (hnamed.goesTo_iff.2 rfl)

/-- A log shortly before midnight and two after it. -/
theorem filesOk_iff_midnight :
    FilesOk .init
      [(⟨124, 11, 31, 23, 59, 59⟩, ⟨.bgInfo, "a".toList⟩),
        (⟨125, 0, 1, 0, 0, 0⟩, ⟨.bgError, "b".toList⟩),
        (⟨125, 0, 1, 0, 30, 0⟩, ⟨.bgInfo, "c".toList⟩)] :=
  (filesOk_iff _ (by decide)).2 (by decide)

/-- Two logs a day apart: the second one goes to the file of the first day. -/
theorem not_filesOk_dayApart :
    ¬FilesOk .init
      [(⟨124, 0, 1, 10, 0, 0⟩, ⟨.bgInfo, "a".toList⟩),
        (⟨124, 0, 2, 10, 0, 0⟩, ⟨.bgInfo, "b".toList⟩)] := by
  rintro ⟨-, hsecond, -⟩
  obtain ⟨fs, hfs, hfile⟩ := hsecond 0 (.inl rfl)
  obtain rfl := Option.some.inj hfs
  exact absurd hfile (by decide)

end BGLogManager
end BGIocpServer
