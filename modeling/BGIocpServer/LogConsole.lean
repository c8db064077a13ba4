import BGIocpServer.LogFiles

/-!
# What the console shows of a log

`Write` puts a log into the default file as it is, and hands the same text to `printf` as a
format. The text of a log is the result of two formatting stages, so a `%` in it is one
that an argument, the message or the name of the function has brought along: `%%` comes out
as one `%`, and any other conversion reads an argument that is not there.

## Main definitions

* `printf`: what a format prints without further arguments.
* `BGLogManager.printed`: what `Write` prints of a log.

## Main results

* `printf_eq_self_iff`: a format that prints itself.
* `printed_iff`: when the console gets what the default file gets.
-/

namespace BGIocpServer
open Kit

/-! ## `printf` -/

/-- What `printf(format)` prints; `none` where it would read an argument. -/
def printf : Text → Option Text
  | [] => some []
  | ['%'] => none
  | '%' :: c :: rest => if c = '%' then (printf rest).map fun out => '%' :: out else none
  | c :: rest => (printf rest).map fun out => c :: out

/-- A character that stands for itself. -/
theorem printf_cons {c : Char} (hc : c ≠ '%') (rest : Text) :
    printf (c :: rest) = (printf rest).map fun out => c :: out := by
  rw [printf]
  · exact fun h _ => hc h
  · exact fun _ _ h _ => hc h

theorem isSome_printf (fmt : Text) : (printf fmt).isSome = printfDefined fmt := by
  induction fmt using printf.induct with
  | case1 => rfl
  | case2 => rfl
  | case3 rest ih => simpa [printf, printfDefined] using ih
  | case4 c rest hc => simp [printf, printfDefined, hc]
  | case5 c rest h1 h2 ih => simpa [printf, printfDefined, h1, h2] using ih

/-- What is printed is not longer than the format, and shorter if that has a `%`. -/
theorem length_printf {fmt : Text} : ∀ {out : Text}, printf fmt = some out →
    out.length ≤ fmt.length ∧ ('%' ∈ fmt → out.length < fmt.length) := by
  induction fmt using printf.induct with
  | case1 => simp [printf]
  | case2 => simp [printf]
  | case3 rest ih =>
      intro out h
      simp only [printf, if_true, Option.map_eq_some_iff] at h
      obtain ⟨tail, htail, rfl⟩ := h
      have hle := (ih htail).1
      simp only [List.length_cons]
      omega
  | case4 c rest hc => simp [printf, hc]
  | case5 c rest h1 h2 ih =>
      intro out h
      have hne : c ≠ '%' := by
        rintro rfl
        cases rest with
        | nil => exact h1 rfl rfl
        | cons d rest => exact h2 d rest rfl rfl
      simp only [printf_cons hne, Option.map_eq_some_iff] at h
      obtain ⟨tail, htail, rfl⟩ := h
      obtain ⟨hle, hlt⟩ := ih htail
      refine ⟨Nat.succ_le_succ hle, fun hmem => Nat.succ_lt_succ (hlt ?_)⟩
      exact (List.mem_cons.mp hmem).resolve_left hne.symm

/-- **A format prints itself exactly if there is no `%` in it.** -/
theorem printf_eq_self_iff (fmt : Text) : printf fmt = some fmt ↔ '%' ∉ fmt := by
  constructor
  · intro h hmem
    exact Nat.lt_irrefl _ ((length_printf h).2 hmem)
  · intro hnone
    induction fmt with
    | nil => rfl
    | cons c rest ih =>
        rw [List.mem_cons, not_or] at hnone
        rw [printf_cons (Ne.symm hnone.1), ih hnone.2, Option.map_some]

/-! ## The text of a log -/

/-- No number has a `%`. -/
theorem percent_not_mem_padZero (n : ℕ) (i : ℤ) : '%' ∉ padZero n i := by
  have hdigits : ∀ k : ℕ, '%' ∉ Nat.toDigits 10 k := by
    intro k hmem
    have hdigit := Nat.isDigit_of_mem_toDigits (by decide) (by decide) hmem
    exact absurd hdigit (by decide)
  have hint : '%' ∉ i.repr.toList := by
    cases i with
    | ofNat k => simpa [Int.repr] using hdigits k
    | negSucc k => simpa [Int.repr] using hdigits (k + 1)
  simp [padZero, hint]

/-- Only the message and the name of the function can bring a `%` into the text. -/
theorem percent_mem_format_iff {level : ELogLevel} {funcName tmp content : Text} {ltm : Tm}
    (h : format level funcName tmp ltm = some content) :
    '%' ∈ content ↔ '%' ∈ tmp ∨ '%' ∈ funcName := by
  simp only [format, Option.map_eq_some_iff] at h
  obtain ⟨name, hname, rfl⟩ := h
  have hlevel : '%' ∉ name.toList := by
    cases level <;>
      (obtain rfl := Option.some.inj hname
       decide)
  have htime : '%' ∉ logTime ltm := by
    simp [logTime, percent_not_mem_padZero]
  simp [padRight, hlevel, htime]

namespace BGLogManager
variable {m : BGLogManager} {log : BGLog} {ltm : Tm}

/-- What `Write` prints of a log; `none` where that is undefined. -/
def printed (log : BGLog) : Option Text :=
  match pDefault log with
  | some _ => printf log.content
  | none => some []

/-- The manager after any number of calls of `Write`. -/
def writes (ws : List (Tm × BGLog)) : BGLogManager := ws.foldl (fun m w => m.write w.1 w.2) init

/-- A manager that has not written yet, or has its files open. -/
def Ready (m : BGLogManager) : Prop := m = init ∨ ∃ name logs errs, m.Named name logs errs

/-- Behind the renewal of `Write` the files are open, and nothing is lost. -/
theorem Ready.renew (h : m.Ready) (hltm : LocalTime ltm) :
    ∃ name errs, (m.renew ltm).Named name (m.written 0) errs := by
  rcases h with rfl | ⟨name, logs, errs, hnamed⟩
  · have hhour : ltm.tmHour ≠ init.lastCreateFileName.tmHour := by
      have hpos := hltm.hour
      change ltm.tmHour ≠ -1
      omega
    exact ⟨_, _, (renew_new (f := none) (g := none) hhour rfl).1⟩
  · rw [hnamed.written_zero]
    by_cases hsame : ltm.tmHour = m.lastCreateFileName.tmHour
    · rw [renew_same hsame]
      exact ⟨name, errs, hnamed⟩
    · exact ⟨_, errs, (renew_new hsame hnamed).1⟩

theorem Ready.write (log : BGLog) (h : m.Ready) (hltm : LocalTime ltm) :
    (m.write ltm log).Ready := by
  obtain ⟨name, errs, hnamed⟩ := h.renew hltm
  exact .inr ⟨_, _, _, hnamed.output log⟩

theorem ready_writes (ws : List (Tm × BGLog)) (hlocal : ∀ w ∈ ws, LocalTime w.1) :
    (writes ws).Ready := by
  have key : ∀ (ws : List (Tm × BGLog)) {m : BGLogManager}, m.Ready →
      (∀ w ∈ ws, LocalTime w.1) → (ws.foldl (fun m w => m.write w.1 w.2) m).Ready := by
    intro ws
    induction ws with
    | nil => exact fun h _ => h
    | cons w ws ih =>
        exact fun h hlocal => ih (h.write w.2 (hlocal w List.mem_cons_self)) fun w hw =>
          hlocal w (List.mem_cons_of_mem _ hw)
  exact key ws (.inl rfl) hlocal

/-- **The console gets of a log what the default file gets if and only if the log goes to
neither or there is no `%` in the message and the name of the function.** -/
theorem printed_iff (ws : List (Tm × BGLog)) (hlocal : ∀ w ∈ ws, LocalTime w.1)
    {level : ELogLevel} {funcName tmp content : Text} {ltm now : Tm}
    (hnow : LocalTime now) (hformat : format level funcName tmp ltm = some content) :
    ∃ bytes, (((writes ws).write now ⟨level, content⟩).written 0).flatten =
        ((writes ws).written 0).flatten ++ bytes ∧
      (printed ⟨level, content⟩ = some bytes ↔ level = .bgNone ∨ '%' ∉ tmp ∧ '%' ∉ funcName) := by
  obtain ⟨name, errs, hnamed⟩ := (ready_writes ws hlocal).renew hnow
  have hwritten := (hnamed.output ⟨level, content⟩).written_zero
  by_cases hlevel : level = .bgNone
  · subst hlevel
    refine ⟨[], ?_, iff_of_true rfl (.inl rfl)⟩
    have hdefault : pDefault ⟨.bgNone, content⟩ = none := rfl
    rw [if_neg (by simp [hdefault])] at hwritten
    rw [write, hwritten, List.append_nil]
  · have hdefault : pDefault ⟨level, content⟩ = some 0 := by
      cases level with
      | bgNone => exact absurd rfl hlevel
      | _ => rfl
    refine ⟨content, ?_, ?_⟩
    · rw [if_pos hdefault] at hwritten
      rw [write, hwritten]
      simp
    · rw [printed, hdefault]
      change printf content = some content ↔ _
      rw [printf_eq_self_iff, percent_mem_format_iff hformat, not_or, or_iff_right hlevel]

/-- A warning whose message has no `%`, the first log of all. -/
theorem printed_iff_warning :
    ∃ bytes, (((writes []).write ⟨124, 0, 1, 10, 0, 0⟩
        ⟨.bgWarning, "[09:05:07] [WARNING] full - (Run)\n".toList⟩).written 0).flatten =
        ((writes []).written 0).flatten ++ bytes ∧
      (printed ⟨.bgWarning, "[09:05:07] [WARNING] full - (Run)\n".toList⟩ = some bytes ↔
        ELogLevel.bgWarning = .bgNone ∨ '%' ∉ "full".toList ∧ '%' ∉ "Run".toList) := by
  have hformat : format .bgWarning "Run".toList "full".toList ⟨124, 0, 1, 9, 5, 7⟩ =
      some "[09:05:07] [WARNING] full - (Run)\n".toList := by decide
  exact printed_iff [] (by simp) (by decide) hformat

/-- A message that ends in two percent signs: the console shows one of them. -/
theorem not_printed_percent : ∃ content shown,
    format .bgInfo "Run".toList "100%%".toList ⟨124, 0, 1, 9, 5, 7⟩ = some content ∧
      FitsFormat "100%%".toList content ∧
      (((writes []).write ⟨124, 0, 1, 10, 0, 0⟩ ⟨.bgInfo, content⟩).written 0).flatten =
        content ∧
      content = "[09:05:07] [INFO]  100%% - (Run)\n".toList ∧
      printed ⟨.bgInfo, content⟩ = some shown ∧
      shown = "[09:05:07] [INFO]  100% - (Run)\n".toList ∧ shown ≠ content :=
  ⟨_, _, rfl, by decide, by decide, rfl, rfl, rfl, by decide⟩

end BGLogManager
end BGIocpServer
