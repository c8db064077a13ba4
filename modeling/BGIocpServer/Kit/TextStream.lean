import Mathlib.Data.List.TakeWhile

/-!
# Reading a text stream

A stream has the text that is still to come and the two flags that a read sets. `extract` is
the read of a token, which passes over line ends, and `getline` the read of a whole line. A
read that fails leaves the variable it was to fill. What the reads do is told by the tokens of
the lines to come, `tokenLines`.

## Main definitions

* `IStream`, `extract`, `getline`: the stream and its reads.
* `lines`, `tokens`, `tokenLines`: a text as lines, and a line as tokens.

## Main results

* `extract_spec`, `getline_spec`: the two reads on a stream that has not failed.
* `tokenLines_unlines`: the lines of a text that is put together from lines.
-/

namespace Kit

/-- White space of the C locale. -/
def isSpace (c : Char) : Bool := c ∈ [' ', '\t', '\n', '\x0b', '\x0c', '\r']

/-- An input stream. -/
structure IStream where
  /-- The text that is still to come. -/
  rest : List Char
  eof : Bool
  fail : Bool
  deriving DecidableEq, Repr

namespace IStream

/-- The stream of an opened file. -/
def ofText (text : List Char) : IStream := { rest := text, eof := false, fail := false }

/-- `good()` -/
def good (fs : IStream) : Bool := !fs.eof && !fs.fail

/-- `fs >> v` for a string: the stream and the value behind it. -/
def extract (fs : IStream) (v : List Char) : IStream × List Char :=
  if fs.good then
    match fs.rest.dropWhile isSpace with
    | [] => ({ rest := [], eof := true, fail := true }, v)
    | c :: cs =>
        let after := (c :: cs).dropWhile fun c => !isSpace c
        ({ rest := after, eof := after.isEmpty, fail := false },
          (c :: cs).takeWhile fun c => !isSpace c)
  else ({ fs with fail := true }, v)

/-- `getline(fs, v)`: the stream and the value behind it. -/
def getline (fs : IStream) (v : List Char) : IStream × List Char :=
  if fs.good then
    let line := fs.rest.takeWhile (· ≠ '\n')
    match fs.rest.dropWhile (· ≠ '\n') with
    | [] => ({ rest := [], eof := true, fail := line.isEmpty }, line)
    | _ :: rest => ({ rest := rest, eof := false, fail := false }, line)
  else ({ fs with fail := true }, v)

end IStream

/-! ## Lines and tokens -/

/-- The lines of a text. -/
def lines (text : List Char) : List (List Char) := text.splitOn '\n'

/-- The text of some lines. -/
def unlines (ls : List (List Char)) : List Char := ['\n'].intercalate ls

/-- The tokens of a line. -/
def tokens (line : List Char) : List (List Char) :=
  (line.splitOnP isSpace).filter fun token => !token.isEmpty

/-- The tokens of each line of a text. -/
def tokenLines (text : List Char) : List (List (List Char)) := (lines text).map tokens

variable {c : Char} {text rest w : List Char}

theorem tokens_append_cons (h : isSpace c = true) (line rest : List Char) :
    tokens (line ++ c :: rest) = tokens line ++ tokens rest := by
  rw [tokens, List.splitOnP_append_cons _ _ h, List.filter_append]
  rfl

theorem tokens_nil : tokens [] = [] := rfl

/-- A text without white space is a token. -/
theorem tokens_word (hne : w ≠ []) (hw : ∀ c ∈ w, isSpace c = false) : tokens w = [w] := by
  rw [tokens, List.splitOnP_eq_singleton hw]
  simp [hne]

theorem lines_nil : lines [] = [[]] := rfl

theorem lines_newline (rest : List Char) : lines ('\n' :: rest) = [] :: lines rest := by
  simp [lines, List.splitOn_cons_eq_if_modifyHead]

/-- The first line of a text and the others. -/
theorem exists_lines (text : List Char) : ∃ line ls, lines text = line :: ls :=
  List.exists_cons_of_ne_nil (List.splitOn_ne_nil '\n' text)

/-- A character that does not end its line. -/
theorem lines_cons {line : List Char} {ls : List (List Char)} (hc : c ≠ '\n')
    (h : lines rest = line :: ls) : lines (c :: rest) = (c :: line) :: ls := by
  have hbeq : (c == '\n') = false := beq_false_of_ne hc
  rw [lines] at h ⊢
  rw [List.splitOn_cons_eq_if_modifyHead, hbeq, h]
  rfl

theorem lines_append {line : List Char} {ls : List (List Char)} (hw : '\n' ∉ w)
    (h : lines rest = line :: ls) : lines (w ++ rest) = (w ++ line) :: ls := by
  induction w with
  | nil => exact h
  | cons c w ih =>
      rw [List.mem_cons, not_or] at hw
      exact lines_cons (Ne.symm hw.1) (ih hw.2)

/-- No line has a line end in it. -/
theorem newline_not_mem {line : List Char} (h : line ∈ lines text) : '\n' ∉ line := by
  induction text generalizing line with
  | nil =>
      obtain rfl := List.mem_singleton.mp h
      exact List.not_mem_nil
  | cons c text ih =>
      have ih : ∀ l ∈ lines text, '\n' ∉ l := fun _ hl => ih hl
      by_cases hc : c = '\n'
      · subst hc
        rw [lines_newline, List.mem_cons] at h
        rcases h with rfl | h
        · exact List.not_mem_nil
        · exact ih line h
      · obtain ⟨first, ls, hlines⟩ := exists_lines text
        rw [lines_cons hc hlines, List.mem_cons] at h
        rw [hlines, List.forall_mem_cons] at ih
        rcases h with rfl | h
        · simp [Ne.symm hc, ih.1]
        · exact ih.2 line h

theorem tokenLines_nil : tokenLines [] = [[]] := rfl

theorem tokenLines_newline (rest : List Char) :
    tokenLines ('\n' :: rest) = [] :: tokenLines rest := by
  rw [tokenLines, lines_newline]
  rfl

theorem exists_tokenLines (text : List Char) : ∃ ts ls, tokenLines text = ts :: ls := by
  obtain ⟨line, ls, h⟩ := exists_lines text
  exact ⟨tokens line, ls.map tokens, by rw [tokenLines, h, List.map_cons]⟩

/-- White space inside a line stands for nothing. -/
theorem tokenLines_space (hc : isSpace c = true) (hne : c ≠ '\n') (rest : List Char) :
    tokenLines (c :: rest) = tokenLines rest := by
  obtain ⟨line, ls, h⟩ := exists_lines rest
  have htokens : tokens (c :: line) = tokens line := tokens_append_cons hc [] line
  rw [tokenLines, tokenLines, lines_cons hne h, h, List.map_cons, List.map_cons, htokens]

/-- A word in front of white space or of the end is the next token. -/
theorem tokenLines_word {ts : List (List Char)} {ls : List (List (List Char))} (hne : w ≠ [])
    (hw : ∀ c ∈ w, isSpace c = false) (hrest : ∀ c ∈ rest.head?, isSpace c = true)
    (h : tokenLines rest = ts :: ls) : tokenLines (w ++ rest) = (w :: ts) :: ls := by
  have hnewline : '\n' ∉ w := fun hmem => absurd (hw _ hmem) (by decide)
  obtain ⟨line, later, hlines⟩ := exists_lines rest
  rw [tokenLines, hlines, List.map_cons, List.cons.injEq] at h
  obtain ⟨rfl, rfl⟩ := h
  rw [tokenLines, lines_append hnewline hlines, List.map_cons]
  -- the white space behind the word is the end of its line, or stands in it
  have htokens : tokens (w ++ line) = w :: tokens line := by
    cases rest with
    | nil =>
        rw [lines_nil, List.cons.injEq] at hlines
        rw [← hlines.1, List.append_nil, tokens_word hne hw, tokens_nil]
    | cons c rest =>
        have hc : isSpace c = true := hrest c rfl
        by_cases hend : c = '\n'
        · subst hend
          rw [lines_newline, List.cons.injEq] at hlines
          rw [← hlines.1, List.append_nil, tokens_word hne hw, tokens_nil]
        · obtain ⟨tail, others, htail⟩ := exists_lines rest
          rw [lines_cons hend htail, List.cons.injEq] at hlines
          rw [← hlines.1, tokens_append_cons hc, tokens_word hne hw]
          exact congrArg (List.cons w) (tokens_append_cons hc [] tail).symm
  rw [htokens]

/-- Passing over white space passes over blank lines. -/
theorem tokenLines_dropWhile (text : List Char) :
    ∃ n, tokenLines text = List.replicate n [] ++ tokenLines (text.dropWhile isSpace) := by
  induction text with
  | nil => exact ⟨0, rfl⟩
  | cons c text ih =>
      obtain ⟨n, ih⟩ := ih
      by_cases hc : isSpace c = true
      · rw [List.dropWhile_cons_of_pos hc]
        by_cases hend : c = '\n'
        · subst hend
          exact ⟨n + 1, by rw [tokenLines_newline, ih, List.replicate_succ, List.cons_append]⟩
        · exact ⟨n, by rw [tokenLines_space hc hend, ih]⟩
      · rw [List.dropWhile_cons_of_neg hc]
        exact ⟨0, rfl⟩

/-- The line ends of a text, counted by its lines. -/
theorem length_lines (text : List Char) : (lines text).length = text.count '\n' + 1 := by
  induction text with
  | nil => rfl
  | cons c text ih =>
      by_cases hc : c = '\n'
      · subst hc
        rw [lines_newline, List.length_cons, ih, List.count_cons_self]
      · obtain ⟨line, ls, h⟩ := exists_lines text
        rw [lines_cons hc h, List.length_cons, List.count_cons_of_ne hc, ← ih, h,
          List.length_cons]

/-- The line ends behind the first line. -/
theorem count_newline {ts : List (List Char)} {ls : List (List (List Char))}
    (h : tokenLines text = ts :: ls) : text.count '\n' = ls.length := by
  have hlength := length_lines text
  rw [← List.length_map tokens, ← tokenLines, h, List.length_cons] at hlength
  exact (Nat.succ_inj.mp hlength).symm

/-- The lines of a text put together from lines. -/
theorem tokenLines_unlines {ls : List (List Char)} (hls : ls ≠ []) (h : ∀ l ∈ ls, '\n' ∉ l) :
    tokenLines (unlines ls) = ls.map tokens := by
  rw [tokenLines, lines, unlines, List.splitOn_intercalate _ h hls]

/-! ## The reads -/

/-- The first element that is not dropped. -/
theorem eq_false_of_dropWhile {p : Char → Bool} {cs : List Char}
    (h : text.dropWhile p = c :: cs) : p c = false := by
  have hhead := List.head?_dropWhile_not p text
  rw [h] at hhead
  exact hhead

namespace IStream
variable {fs : IStream}

/-- A stream that has not failed; at the end of the file nothing is to come. -/
structure Ok (fs : IStream) : Prop where
  fail : fs.fail = false
  eof : fs.eof = true → fs.rest = []

theorem ok_ofText (text : List Char) : (ofText text).Ok where
  fail := rfl
  eof := fun h => absurd h Bool.false_ne_true

/-- A stream with something to come is good. -/
theorem Ok.good (h : fs.Ok) (hne : fs.rest ≠ []) : fs.good = true := by
  have heof : fs.eof = false := Bool.eq_false_iff.mpr fun heof => hne (h.eof heof)
  simp [IStream.good, h.fail, heof]

/-- With nothing but white space to come no token is read. -/
theorem extract_of_nil (h : fs.rest.dropWhile isSpace = []) (v : List Char) :
    (fs.extract v).1.fail = true ∧ (fs.extract v).2 = v := by
  rw [extract, h]
  split <;> exact ⟨rfl, rfl⟩

/-- The token behind the white space. -/
theorem extract_of_cons {cs : List Char} (hgood : fs.good = true)
    (h : fs.rest.dropWhile isSpace = c :: cs) (v : List Char) : fs.extract v =
      ({ rest := (c :: cs).dropWhile fun c => !isSpace c,
         eof := ((c :: cs).dropWhile fun c => !isSpace c).isEmpty, fail := false },
        (c :: cs).takeWhile fun c => !isSpace c) := by
  rw [extract, if_pos hgood, h]

/-- What `fs >> v` does. -/
inductive Extracts (fs : IStream) (v : List Char) (r : IStream × List Char) : Prop
  /-- There is no token left. -/
  | none : (∀ ts ∈ tokenLines fs.rest, ts = []) → r.1.fail = true → r.2 = v → Extracts fs v r
  /-- The next token stands behind `n` line ends. -/
  | token (n : ℕ) (ts : List (List Char)) (ls : List (List (List Char))) :
      tokenLines fs.rest = List.replicate n [] ++ (r.2 :: ts) :: ls → r.1.Ok →
      tokenLines r.1.rest = ts :: ls → Extracts fs v r

theorem extract_spec (h : fs.Ok) (v : List Char) : fs.Extracts v (fs.extract v) := by
  obtain ⟨n, hskip⟩ := tokenLines_dropWhile fs.rest
  cases hdrop : fs.rest.dropWhile isSpace with
  | nil =>
      have hblank : ∀ ts ∈ tokenLines fs.rest, ts = [] := by
        rw [hskip, hdrop, tokenLines_nil]
        simp +contextual [or_imp]
      obtain ⟨hfail, hvalue⟩ := extract_of_nil hdrop v
      exact .none hblank hfail hvalue
  | cons c cs =>
      have hne : fs.rest ≠ [] := by
        intro hnil
        rw [hnil] at hdrop
        exact absurd hdrop (by simp)
      have hc : isSpace c = false := eq_false_of_dropWhile hdrop
      rw [extract_of_cons (h.good hne) hdrop]
      obtain ⟨ts, ls, hlines⟩ := exists_tokenLines ((c :: cs).dropWhile fun c => !isSpace c)
      refine .token n ts ls ?_ ⟨rfl, fun heof => List.isEmpty_iff.mp heof⟩ hlines
      have hword : ∀ d ∈ (c :: cs).takeWhile (fun c => !isSpace c), isSpace d = false := by
        intro d hd
        simpa using List.mem_takeWhile_imp hd
      have hend : ∀ d ∈ ((c :: cs).dropWhile fun c => !isSpace c).head?, isSpace d = true := by
        intro d hd
        have hhead := List.head?_dropWhile_not (fun c => !isSpace c) (c :: cs)
        rw [Option.mem_def.mp hd] at hhead
        simpa using hhead
      have hnonempty : (c :: cs).takeWhile (fun c => !isSpace c) ≠ [] := by simp [hc]
      rw [hskip, hdrop, ← tokenLines_word hnonempty hword hend hlines,
        List.takeWhile_append_dropWhile]

/-- What `getline(fs, v)` does to the stream. -/
theorem getline_spec (h : fs.Ok) (v : List Char) {ts : List (List Char)}
    {ls : List (List (List Char))} (hlines : tokenLines fs.rest = ts :: ls) :
    (ls = [] ∧ (fs.getline v).1.rest = []) ∨
      ((fs.getline v).1.Ok ∧ tokenLines (fs.getline v).1.rest = ls) := by
  cases hdrop : fs.rest.dropWhile (· ≠ '\n') with
  | nil =>
      have hnone : '\n' ∉ fs.rest := by
        intro hmem
        have hall := List.dropWhile_eq_nil_iff.mp hdrop '\n' hmem
        exact absurd hall (by decide)
      have hsingle : lines fs.rest = [fs.rest] := List.splitOn_eq_singleton hnone
      rw [tokenLines, hsingle, List.map_cons, List.cons.injEq] at hlines
      refine .inl ⟨hlines.2.symm, ?_⟩
      rw [getline, hdrop]
      split
      · rfl
      · next hgood => exact by_contra fun hne => hgood (h.good hne)
  | cons d rest =>
      have hne : fs.rest ≠ [] := by
        intro hnil
        rw [hnil] at hdrop
        exact absurd hdrop (by simp)
      obtain rfl : d = '\n' := by simpa using eq_false_of_dropWhile hdrop
      have hbefore : '\n' ∉ fs.rest.takeWhile (· ≠ '\n') := fun hmem =>
        absurd (List.mem_takeWhile_imp hmem) (by decide)
      have hsplit := List.takeWhile_append_dropWhile (l := fs.rest) (p := (· ≠ '\n'))
      rw [hdrop] at hsplit
      rw [← hsplit, tokenLines, lines_append hbefore (lines_newline rest), List.map_cons,
        List.cons.injEq] at hlines
      have hread : (fs.getline v).1 = { rest := rest, eof := false, fail := false } := by
        rw [getline, h.good hne, hdrop]
        rfl
      rw [hread]
      exact .inr ⟨⟨rfl, fun heof => absurd heof Bool.false_ne_true⟩, hlines.2⟩

/-- A token that is read is gone. -/
theorem length_extract_lt {fs : IStream} {v : List Char} (h : (fs.extract v).1.fail = false) :
    (fs.extract v).1.rest.length < fs.rest.length := by
  have hskip := (List.dropWhile_sublist (l := fs.rest) isSpace).length_le
  cases hdrop : fs.rest.dropWhile isSpace with
  | nil => exact absurd ((extract_of_nil hdrop v).1.symm.trans h) (by simp)
  | cons c cs =>
      cases hgood : fs.good with
      | false =>
          rw [extract, hgood] at h
          exact absurd h (by simp)
      | true =>
          have hword := (List.dropWhile_sublist (l := cs) fun c => !isSpace c).length_le
          rw [hdrop, List.length_cons] at hskip
          rw [extract_of_cons hgood hdrop]
          change ((c :: cs).dropWhile fun c => !isSpace c).length < _
          rw [List.dropWhile_cons_of_pos (by simp [eq_false_of_dropWhile hdrop])]
          omega

theorem length_extract_le (fs : IStream) (v : List Char) :
    (fs.extract v).1.rest.length ≤ fs.rest.length := by
  cases h : (fs.extract v).1.fail with
  | false => exact Nat.le_of_lt (length_extract_lt h)
  | true =>
      cases hgood : fs.good with
      | false =>
          rw [extract, hgood]
          exact Nat.le_refl _
      | true =>
          cases hdrop : fs.rest.dropWhile isSpace with
          | nil =>
              rw [extract, if_pos hgood, hdrop]
              exact Nat.zero_le _
          | cons c cs =>
              rw [extract_of_cons hgood hdrop] at h
              exact absurd h Bool.false_ne_true

/-- Reading a line gives nothing back. -/
theorem length_getline_le (fs : IStream) (v : List Char) :
    (fs.getline v).1.rest.length ≤ fs.rest.length := by
  have hle := (List.dropWhile_sublist (l := fs.rest) (· ≠ '\n')).length_le
  rw [getline]
  split
  · split
    · exact Nat.zero_le _
    · next hdrop =>
        rw [hdrop, List.length_cons] at hle
        exact Nat.le_of_succ_le hle
  · exact Nat.le_refl _

end IStream
end Kit
