import BGIocpServer.ConfigManager

/-!
# A configuration by its lines

A line is as it should be if it is blank, a comment, or a key and a value and then at most a
comment. Such a file is read line by line, although the loop of `Load` does not look at line
ends. It is still read line by line if a line has several pairs; but a key without a value on
its line is paired with something from another line.

## Main definitions

* `linePairs`, `wellFormed`, `keyAlone`: the pairs of a line, the lines that are as they should
  be, and those with a key that has no value.
* `fileStores`: the pairs of a file, line by line.
* `DamagesOnlyItself`: each pair is of one line, and a malformed line leaves the others alone.

## Main results

* `stores_eq`: where each key has its value on its line, the loop makes the pairs of the lines.
* `exists_foreign`: a key without a value makes a pair whose tokens are not of one line.
* `getString_load`: what is found in a file of well-formed lines.
* `damagesOnlyItself_iff`: when a malformed line damages only itself.
-/

namespace BGIocpServer
open Kit

/-- The pairs of a line in front of its comment. -/
def linePairs : List Value → List (Value × Value)
  | k :: v :: ts => if k = commentMark then [] else (k, v) :: linePairs ts
  | _ => []

/-- A key has no value on the line. -/
def keyAlone : List Value → Bool
  | [] => false
  | [k] => k ≠ commentMark
  | k :: _ :: ts => k ≠ commentMark && keyAlone ts

/-- A blank line, a comment, or a key and a value and then at most a comment. -/
def wellFormed : List Value → Bool
  | [] => true
  | [k] => k = commentMark
  | [_, _] => true
  | k :: _ :: c :: _ => k = commentMark || c = commentMark

/-- The value of a line with this key. -/
def valueOf (k : Value) : List Value → Option Value
  | key :: v :: _ => if key ≠ commentMark ∧ key = k then some v else none
  | _ => none

/-- The pairs of a line that `n` line ends follow. -/
def lineStores (n : ℕ) (ts : List Value) : List Store :=
  (linePairs ts).map fun p => { key := p.1, value := p.2, keyLine := n, valueLine := some n }

/-- The pairs of some lines, line by line. -/
def fileStores : List (List Value) → List Store
  | [] => []
  | ts :: ls => lineStores ls.length ts ++ fileStores ls

theorem linePairs_comment (ts : List Value) : linePairs (commentMark :: ts) = [] := by
  cases ts with
  | nil => rfl
  | cons v ts => rw [linePairs, if_pos rfl]

theorem linePairs_pair {k : Value} (hk : k ≠ commentMark) (v : Value) (ts : List Value) :
    linePairs (k :: v :: ts) = (k, v) :: linePairs ts := by
  rw [linePairs, if_neg hk]

/-- Some line has a key without a value. -/
def anyAlone (ls : List (List Value)) : Bool := ls.any keyAlone

section anyAlone
variable {k : Value} {ls : List (List Value)}

theorem anyAlone_blank (n : ℕ) (ls : List (List Value)) :
    anyAlone (List.replicate n [] ++ ls) = anyAlone ls := by
  induction n with
  | zero => rfl
  | succ n ih => exact ih

theorem anyAlone_nil (h : ∀ ts ∈ ls, ts = []) : anyAlone ls = false := by
  rw [List.eq_replicate_of_mem h, ← List.append_nil (List.replicate _ _), anyAlone_blank]
  rfl

theorem anyAlone_comment (ts : List Value) (ls : List (List Value)) :
    anyAlone ((commentMark :: ts) :: ls) = anyAlone ls := by
  cases ts <;> rfl

theorem anyAlone_pair (hk : k ≠ commentMark) (v : Value) (ts : List Value)
    (ls : List (List Value)) : anyAlone ((k :: v :: ts) :: ls) = anyAlone (ts :: ls) := by
  simp [anyAlone, keyAlone, hk]

theorem anyAlone_alone (hk : k ≠ commentMark) (ls : List (List Value)) :
    anyAlone ([k] :: ls) = true := by
  simp [anyAlone, keyAlone, hk]

end anyAlone

section fileStores
variable {k : Value} {ls : List (List Value)}

theorem fileStores_blank (n : ℕ) (ls : List (List Value)) :
    fileStores (List.replicate n [] ++ ls) = fileStores ls := by
  induction n with
  | zero => rfl
  | succ n ih => exact ih

theorem fileStores_nil (h : ∀ ts ∈ ls, ts = []) : fileStores ls = [] := by
  rw [List.eq_replicate_of_mem h, ← List.append_nil (List.replicate _ _), fileStores_blank]
  rfl

theorem fileStores_comment (ts : List Value) (ls : List (List Value)) :
    fileStores ((commentMark :: ts) :: ls) = fileStores ls := by
  rw [fileStores, lineStores, linePairs_comment]
  rfl

theorem fileStores_pair (hk : k ≠ commentMark) (v : Value) (ts : List Value)
    (ls : List (List Value)) : fileStores ((k :: v :: ts) :: ls) =
      { key := k, value := v, keyLine := ls.length, valueLine := some ls.length } ::
        fileStores (ts :: ls) := by
  rw [fileStores, lineStores, linePairs_pair hk]
  rfl

end fileStores

/-! ## The loop, line by line -/

/-- Where each key has its value on its line, the loop makes the pairs of the lines, one line
after the other. -/
theorem stores_eq {fs : IStream} (hok : fs.Ok) (k v : Value)
    (h : anyAlone (tokenLines fs.rest) = false) :
    stores fs k v = fileStores (tokenLines fs.rest) := by
  induction hlength : fs.rest.length using Nat.strongRecOn generalizing fs k v with
  | ind m ih =>
    subst hlength
    cases loadTurn hok k v with
    | done hblank hstores => rw [hstores, fileStores_nil hblank]
    | lastComment n ts hlines hstores =>
        rw [hstores, hlines, fileStores_blank, fileStores_comment]
        rfl
    | comment n ts ls fs' k' v' hlines hok' hrest hless hstores =>
        rw [hlines, anyAlone_blank, anyAlone_comment, ← hrest] at h
        rw [hstores, ih _ hless hok' k' v' h rfl, hrest, hlines, fileStores_blank,
          fileStores_comment]
    | pair n key value ts ls fs' hlines hkey hok' hrest hless hstores =>
        rw [hlines, anyAlone_blank, anyAlone_pair hkey, ← hrest] at h
        rw [hstores, ih _ hless hok' key value h rfl, hrest, hlines, fileStores_blank,
          fileStores_pair hkey]
    | alone n key ls s later hlines hkey _ _ _ _ =>
        rw [hlines, anyAlone_blank, anyAlone_alone hkey] at h
        exact absurd h (by simp)

/-- A key without a value makes a pair whose tokens are not of one line. -/
theorem exists_foreign {fs : IStream} (hok : fs.Ok) (k v : Value)
    (h : anyAlone (tokenLines fs.rest) = true) :
    ∃ s ∈ stores fs k v, s.valueLine ≠ some s.keyLine := by
  induction hlength : fs.rest.length using Nat.strongRecOn generalizing fs k v with
  | ind m ih =>
    subst hlength
    cases loadTurn hok k v with
    | done hblank _ =>
        rw [anyAlone_nil hblank] at h
        exact absurd h Bool.false_ne_true
    | lastComment n ts hlines _ =>
        rw [hlines, anyAlone_blank, anyAlone_comment] at h
        exact absurd h Bool.false_ne_true
    | comment n ts ls fs' k' v' hlines hok' hrest hless hstores =>
        rw [hlines, anyAlone_blank, anyAlone_comment, ← hrest] at h
        rw [hstores]
        exact ih _ hless hok' k' v' h rfl
    | pair n key value ts ls fs' hlines hkey hok' hrest hless hstores =>
        rw [hlines, anyAlone_blank, anyAlone_pair hkey, ← hrest] at h
        obtain ⟨s, hs, hforeign⟩ := ih _ hless hok' key value h rfl
        rw [hstores]
        exact ⟨s, List.mem_cons_of_mem _ hs, hforeign⟩
    | alone n key ls s later _ _ _ hkeyLine hvalueLine hstores =>
        rw [← hkeyLine] at hvalueLine
        rw [hstores]
        exact ⟨s, List.mem_cons_self, hvalueLine⟩

/-! ## Well-formed files -/

theorem pairs_lineStores (n : ℕ) (ts : List Value) :
    (lineStores n ts).map Store.pair = linePairs ts := by
  rw [lineStores, List.map_map]
  exact List.map_id _

theorem pairs_fileStores (ls : List (List Value)) :
    (fileStores ls).map Store.pair = ls.flatMap linePairs := by
  induction ls with
  | nil => rfl
  | cons ts ls ih => rw [fileStores, List.map_append, ih, pairs_lineStores, List.flatMap_cons]

/-- The pairs of a text, one line after the other. -/
theorem pairs_stores {text : List Char} (h : anyAlone (tokenLines text) = false) :
    (stores (.ofText text) [] []).map Store.pair = (tokenLines text).flatMap linePairs := by
  rw [stores_eq (IStream.ok_ofText text) [] [] h, pairs_fileStores]
  rfl

/-- A well-formed line has no key without a value, and one pair at most. -/
theorem keyAlone_of_wellFormed {ts : List Value} (h : wellFormed ts = true) :
    keyAlone ts = false := by
  match ts with
  | [] => rfl
  | [k] => simpa [wellFormed, keyAlone] using h
  | [k, v] => simp [keyAlone]
  | k :: v :: c :: ts =>
      by_cases hk : k = commentMark
      · simp [keyAlone, hk]
      · obtain rfl : c = commentMark := by simpa [wellFormed, hk] using h
        cases ts <;> simp [keyAlone]

theorem lookup_of_wellFormed {ts : List Value} (h : wellFormed ts = true) (k : Value) :
    (linePairs ts).lookup k = valueOf k ts := by
  match ts with
  | [] | [_] => rfl
  | key :: v :: ts =>
      by_cases hkey : key = commentMark
      · rw [linePairs, if_pos hkey, valueOf, if_neg fun hv => hv.1 hkey]
        rfl
      · have hrest : linePairs ts = [] := by
          match ts with
          | [] => rfl
          | c :: ts =>
              obtain rfl : c = commentMark := by simpa [wellFormed, hkey] using h
              exact linePairs_comment ts
        rw [linePairs_pair hkey, hrest, valueOf]
        by_cases hk : key = k
        · subst hk
          rw [List.lookup_cons_self, if_pos ⟨hkey, rfl⟩]
        · rw [if_neg fun hv => hk hv.2]
          simpa using Ne.symm hk

/-- The first pair with a key stands on the first line with the key. -/
theorem lookup_flatMap (k : Value) {ls : List (List Value)}
    (h : ∀ ts ∈ ls, wellFormed ts = true) :
    (ls.flatMap linePairs).lookup k = ls.findSome? (valueOf k) := by
  induction ls with
  | nil => rfl
  | cons ts ls ih =>
      rw [List.forall_mem_cons] at h
      rw [List.flatMap_cons, List.lookup_append, lookup_of_wellFormed h.1, ih h.2,
        List.findSome?_cons]
      cases valueOf k ts <;> rfl

namespace BGConfigManager

/-- **A file of well-formed lines gives for each key the value of the first line that has it, and
the empty string if none does.** -/
theorem getString_load (text : List Char)
    (h : ∀ line ∈ lines text, wellFormed (tokens line) = true) (k : Value) :
    (new.load (some text)).2.getString k =
      ((lines text).findSome? fun line => valueOf k (tokens line)).getD [] := by
  have hformed : ∀ ts ∈ tokenLines text, wellFormed ts = true := by
    intro ts hts
    obtain ⟨line, hline, rfl⟩ := List.mem_map.mp hts
    exact h line hline
  have halone : anyAlone (tokenLines text) = false := by
    rw [anyAlone, List.any_eq_false]
    intro ts hts
    rw [keyAlone_of_wellFormed (hformed ts hts)]
    exact Bool.false_ne_true
  change ((loadLoop (.ofText text) [] [] []).lookup k).getD [] = _
  rw [loadLoop_eq, lookup_mapInsertAll, List.nil_append, pairs_stores halone,
    lookup_flatMap k hformed, tokenLines, List.findSome?_map]
  rfl

/-- Comments, a blank line, a key that comes twice and a comment behind a value. -/
theorem getString_load_port :
    (new.load (some "// server\nport 1\n\n port\t2 // later".toList)).2.getString "port".toList =
      "1".toList := by
  have hload := getString_load "// server\nport 1\n\n port\t2 // later".toList (by decide)
    "port".toList
  rw [hload]
  decide

end BGConfigManager

/-! ## Malformed lines -/

/-- The pairs of a text, as the loop of `Load` hands them to `insert`. -/
def storesOf (text : List Char) : List Store := stores (.ofText text) [] []

/-- Each pair that is handed to `insert` has its key and its value from one line, outside
comments; and a malformed line leaves the pairs of the other lines as they are without it. -/
structure DamagesOnlyItself (text : List Char) : Prop where
  sameLine : ∀ s ∈ storesOf text, ∃ before line after, lines text = before ++ line :: after ∧
    s.keyLine = after.length ∧ s.valueLine = some after.length ∧ s.pair ∈ linePairs (tokens line)
  others : ∀ before line after, lines text = before ++ line :: after →
    wellFormed (tokens line) = false →
    ((storesOf text).filter fun s => s.keyLine ≠ after.length).map Store.pair =
      (storesOf (unlines (before ++ after))).map Store.pair

theorem mem_lineStores {s : Store} {n : ℕ} {ts : List Value} (h : s ∈ lineStores n ts) :
    s.keyLine = n ∧ s.valueLine = some n ∧ s.pair ∈ linePairs ts := by
  obtain ⟨p, hp, rfl⟩ := List.mem_map.mp h
  exact ⟨rfl, rfl, hp⟩

/-- The line of a pair. -/
theorem mem_fileStores {s : Store} {ls : List (List Char)} (h : s ∈ fileStores (ls.map tokens)) :
    ∃ before line after, ls = before ++ line :: after ∧ s.keyLine = after.length ∧
      s.valueLine = some after.length ∧ s.pair ∈ linePairs (tokens line) := by
  induction ls with
  | nil => exact absurd h List.not_mem_nil
  | cons line ls ih =>
      rw [List.map_cons, fileStores, List.mem_append, List.length_map] at h
      rcases h with h | h
      · exact ⟨[], line, ls, rfl, mem_lineStores h⟩
      · obtain ⟨before, other, after, rfl, hs⟩ := ih h
        exact ⟨line :: before, other, after, rfl, hs⟩

theorem keyLine_lt {s : Store} {ls : List (List Value)} (h : s ∈ fileStores ls) :
    s.keyLine < ls.length := by
  induction ls with
  | nil => exact absurd h List.not_mem_nil
  | cons ts ls ih =>
      rw [fileStores, List.mem_append] at h
      rw [List.length_cons]
      rcases h with h | h
      · rw [(mem_lineStores h).1]
        exact Nat.lt_succ_self _
      · exact Nat.lt_succ_of_lt (ih h)

/-- Without the pairs of one line. -/
theorem filter_fileStores (before : List (List Value)) (ts : List Value)
    (after : List (List Value)) :
    ((fileStores (before ++ ts :: after)).filter fun s => s.keyLine ≠ after.length).map
      Store.pair = (before ++ after).flatMap linePairs := by
  induction before with
  | nil =>
      have hown : (lineStores after.length ts).filter (fun s => s.keyLine ≠ after.length) = [] := by
        rw [List.filter_eq_nil_iff]
        intro s hs
        simp [(mem_lineStores hs).1]
      have hafter : (fileStores after).filter (fun s => s.keyLine ≠ after.length) =
          fileStores after := by
        rw [List.filter_eq_self]
        intro s hs
        simpa using Nat.ne_of_lt (keyLine_lt hs)
      rw [List.nil_append, fileStores, List.filter_append, hown, hafter, List.nil_append,
        pairs_fileStores, List.nil_append]
  | cons us before ih =>
      have hbefore : (lineStores (before ++ ts :: after).length us).filter
          (fun s => s.keyLine ≠ after.length) = lineStores (before ++ ts :: after).length us := by
        rw [List.filter_eq_self]
        intro s hs
        rw [(mem_lineStores hs).1, List.length_append, List.length_cons]
        simp only [ne_eq, decide_not, Bool.not_eq_true', decide_eq_false_iff_not]
        omega
      rw [List.cons_append, fileStores, List.filter_append, hbefore, List.map_append, ih,
        pairs_lineStores, List.cons_append, List.flatMap_cons]

/-- The lines of a text without one of them. -/
theorem pairs_unlines {ls : List (List Char)} (hls : ∀ l ∈ ls, '\n' ∉ l)
    (halone : anyAlone (ls.map tokens) = false) :
    (storesOf (unlines ls)).map Store.pair = (ls.map tokens).flatMap linePairs := by
  by_cases hnil : ls = []
  · subst hnil
    exact pairs_stores rfl
  · have hlines := tokenLines_unlines hnil hls
    rw [storesOf, pairs_stores (by rw [hlines]; exact halone), hlines]

theorem DamagesOnlyItself.of_keyAlone {text : List Char}
    (halone : anyAlone (tokenLines text) = false) : DamagesOnlyItself text := by
  have hstores : storesOf text = fileStores ((lines text).map tokens) :=
    stores_eq (IStream.ok_ofText text) [] [] halone
  refine ⟨fun s hs => mem_fileStores (hstores ▸ hs), fun before line after hsplit _ => ?_⟩
  have hline : ∀ l ∈ before ++ after, '\n' ∉ l := by
    intro l hl
    have hsub : l ∈ before ++ line :: after :=
      List.Sublist.mem hl (List.Sublist.append_left (List.sublist_cons_self line after) before)
    rw [← hsplit] at hsub
    exact newline_not_mem hsub
  have hrest : anyAlone ((before ++ after).map tokens) = false := by
    rw [tokenLines, hsplit, anyAlone, List.map_append, List.map_cons, List.any_append,
      List.any_cons, Bool.or_eq_false_iff, Bool.or_eq_false_iff] at halone
    rw [anyAlone, List.map_append, List.any_append, halone.1, halone.2.2]
    rfl
  have hfilter := filter_fileStores (before.map tokens) (tokens line) (after.map tokens)
  rw [List.length_map, ← List.map_cons, ← List.map_append, ← hsplit, ← List.map_append] at hfilter
  rw [hstores, hfilter, pairs_unlines hline hrest]

/-- **A malformed line damages only itself if and only if each key has its value on its line.**
So a line with several pairs does no harm, and a key without a value always does. -/
theorem damagesOnlyItself_iff (text : List Char) :
    DamagesOnlyItself text ↔ ∀ line ∈ lines text, keyAlone (tokens line) = false := by
  have hany : anyAlone (tokenLines text) = false ↔
      ∀ line ∈ lines text, keyAlone (tokens line) = false := by
    simp [anyAlone, tokenLines]
  rw [← hany]
  constructor
  · intro h
    rw [Bool.eq_false_iff]
    intro halone
    obtain ⟨s, hs, hforeign⟩ := exists_foreign (IStream.ok_ofText text) [] [] halone
    obtain ⟨before, line, after, -, hkeyLine, hvalueLine, -⟩ := h.sameLine s hs
    exact hforeign (by rw [hkeyLine, hvalueLine])
  · exact .of_keyAlone

/-- A name that is missing takes the next key as its value, and the last key of the file the
value of the pair before it. -/
theorem not_damagesOnlyItself_missing :
    ¬DamagesOnlyItself "serverName\nmaxUser 2000".toList ∧
      (BGConfigManager.new.load (some "serverName\nmaxUser 2000".toList)).2.configMap =
        [("serverName".toList, "maxUser".toList), ("2000".toList, "maxUser".toList)] := by
  constructor
  · intro h
    have hstores : storesOf "serverName\nmaxUser 2000".toList =
        [⟨"serverName".toList, "maxUser".toList, 1, some 0⟩,
          ⟨"2000".toList, "maxUser".toList, 0, none⟩] := by
      simp [storesOf, stores, IStream.ofText, IStream.extract, IStream.good, isSpace, commentMark]
    obtain ⟨_, _, after, -, hkeyLine, hvalueLine, -⟩ :=
      h.sameLine ⟨"serverName".toList, "maxUser".toList, 1, some 0⟩
        (by rw [hstores]; exact List.mem_cons_self)
    have hzero : 0 = after.length := Option.some.inj hvalueLine
    exact absurd (hkeyLine.trans hzero.symm) (by decide)
  · simp [BGConfigManager.load, BGConfigManager.loadLoop, BGConfigManager.new, IStream.ofText,
      IStream.extract, IStream.good, isSpace, commentMark, mapInsert]

end BGIocpServer
