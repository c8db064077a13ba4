import BGIocpServer.ConfigLines
import BGIocpServer.LogRun

/-!
# The main configuration

`GetInt` reads a value with `std::stoi`, which takes the number that a text begins with and
throws where there is none or it is no `int`. `BGMainConfig::Open` loads the file and reads what
the server needs from it; `CheckLogLevel` reads the `LogLevel` anew for each log.

## Main definitions

* `stoi`, `BGConfigManager.getInt`: numbers in the configuration.
* `Spells`: the texts of a number.
* `BGMainConfig.open_`, `checkLogLevel`: their readers.

## Main results

* `stoi_eq_ok_iff`: the texts that `stoi` accepts.
* `open_load_iff`: what `Open` makes of a file of well-formed lines.
* `open_render`: what is written to a configuration is read back.
-/

namespace BGIocpServer
open Kit

/-! ## Numbers -/

/-- What `std::stoi` throws. -/
inductive StoiError
  | invalidArgument
  | outOfRange
  deriving DecidableEq, Repr

/-- The range of an `int`. -/
def IsInt (n : ℤ) : Prop := -2147483648 ≤ n ∧ n ≤ 2147483647

instance (n : ℤ) : Decidable (IsInt n) := inferInstanceAs (Decidable (_ ∧ _))

/-- An optional sign, `true` for a minus, and what is behind it. -/
def signOf : Value → Bool × Value
  | '-' :: cs => (true, cs)
  | '+' :: cs => (false, cs)
  | cs => (false, cs)

/-- `std::stoi`, in base ten. -/
def stoi (s : Value) : Except StoiError ℤ :=
  let (minus, cs) := signOf (s.dropWhile isSpace)
  let digits := cs.takeWhile Char.isDigit
  let n : ℤ := Nat.ofDigitChars 10 digits 0
  let n := if minus then -n else n
  if digits = [] then .error .invalidArgument
  else if IsInt n then .ok n
  else .error .outOfRange

/-- What stands for the sign of a number. -/
inductive IsSign : Value → Bool → Prop
  | none : IsSign [] false
  | plus : IsSign ['+'] false
  | minus : IsSign ['-'] true

/-- The text begins with the number `n`, as far as the digits go: white space, a sign, digits, and
something that is no digit. -/
def Spells (s : Value) (n : ℤ) : Prop :=
  ∃ (space sign digits rest : Value) (minus : Bool), s = space ++ (sign ++ (digits ++ rest)) ∧
    (∀ c ∈ space, isSpace c = true) ∧ IsSign sign minus ∧ digits ≠ [] ∧
    (∀ c ∈ digits, c.isDigit = true) ∧ (∀ c ∈ rest.head?, c.isDigit = false) ∧
    n = if minus then -(Nat.ofDigitChars 10 digits 0 : ℤ) else Nat.ofDigitChars 10 digits 0

section Stoi
variable {s xs ys : Value} {c : Char} {n : ℤ}

/-- A digit is neither white space nor a sign. -/
theorem not_space_of_isDigit (h : c.isDigit = true) : isSpace c = false ∧ c ≠ '-' ∧ c ≠ '+' := by
  refine ⟨?_, ?_, ?_⟩
  · rw [Bool.eq_false_iff]
    intro hspace
    simp only [isSpace, decide_eq_true_eq, List.mem_cons, List.not_mem_nil, or_false] at hspace
    rcases hspace with rfl | rfl | rfl | rfl | rfl | rfl <;> exact absurd h (by decide)
  · rintro rfl
    exact absurd h (by decide)
  · rintro rfl
    exact absurd h (by decide)

/-- Skipping what is in front. -/
theorem dropWhile_append_stop {p : Char → Bool} (hxs : ∀ c ∈ xs, p c = true)
    (hys : ∀ c ∈ ys.head?, p c = false) : (xs ++ ys).dropWhile p = ys := by
  rw [List.dropWhile_append_of_pos hxs]
  cases ys with
  | nil => rfl
  | cons y ys => exact List.dropWhile_cons_of_neg (by simp [hys y rfl])

theorem takeWhile_append_stop {p : Char → Bool} (hxs : ∀ c ∈ xs, p c = true)
    (hys : ∀ c ∈ ys.head?, p c = false) : (xs ++ ys).takeWhile p = xs := by
  rw [List.takeWhile_append_of_pos hxs]
  cases ys with
  | nil => rw [List.takeWhile_nil, List.append_nil]
  | cons y ys => rw [List.takeWhile_cons_of_neg (by simp [hys y rfl]), List.append_nil]

/-- A sign in front of digits. -/
theorem signOf_append {sign digits : Value} {minus : Bool} (h : IsSign sign minus)
    (hne : digits ≠ []) (hdigits : ∀ c ∈ digits, c.isDigit = true) (rest : Value) :
    signOf (sign ++ (digits ++ rest)) = (minus, digits ++ rest) := by
  obtain ⟨d, ds, rfl⟩ := List.exists_cons_of_ne_nil hne
  obtain ⟨-, hminus, hplus⟩ := not_space_of_isDigit (hdigits d List.mem_cons_self)
  cases h with
  | none =>
      rw [List.nil_append, List.cons_append, signOf]
      · exact fun cs hcs => hminus (List.cons.inj hcs).1
      · exact fun cs hcs => hplus (List.cons.inj hcs).1
  | plus => rfl
  | minus => rfl

/-- What `stoi` makes of a number. -/
theorem stoi_of_spells (h : Spells s n) :
    stoi s = if IsInt n then .ok n else .error .outOfRange := by
  obtain ⟨space, sign, digits, rest, minus, rfl, hspace, hsign, hne, hdigits, hrest, rfl⟩ := h
  have hhead : ∀ c ∈ (sign ++ (digits ++ rest)).head?, isSpace c = false := by
    intro c hc
    cases hsign with
    | none =>
        obtain ⟨d, ds, rfl⟩ := List.exists_cons_of_ne_nil hne
        obtain rfl := Option.some.inj hc
        exact (not_space_of_isDigit (hdigits d List.mem_cons_self)).1
    | plus => exact Option.some.inj hc ▸ rfl
    | minus => exact Option.some.inj hc ▸ rfl
  simp only [stoi, dropWhile_append_stop hspace hhead, signOf_append hsign hne hdigits rest,
    takeWhile_append_stop hdigits hrest, if_neg hne]

/-- What `signOf` takes off. -/
theorem signOf_spec (t : Value) : ∃ sign, IsSign sign (signOf t).1 ∧ t = sign ++ (signOf t).2 := by
  fun_cases signOf t with
  | case1 cs => exact ⟨['-'], .minus, rfl⟩
  | case2 cs => exact ⟨['+'], .plus, rfl⟩
  | case3 cs hminus hplus => exact ⟨[], .none, rfl⟩

/-- A text begins with a number, or `stoi` says that it does not. -/
theorem spells_or_invalid (s : Value) :
    (∃ n, Spells s n) ∨ stoi s = .error .invalidArgument := by
  obtain ⟨sign, hsign, hsplit⟩ := signOf_spec (s.dropWhile isSpace)
  by_cases hne : (signOf (s.dropWhile isSpace)).2.takeWhile Char.isDigit = []
  · exact .inr (by simp only [stoi, hne, if_true])
  · refine .inl ⟨_, s.takeWhile isSpace, sign, _,
      (signOf (s.dropWhile isSpace)).2.dropWhile Char.isDigit, _, ?_,
      fun c hc => List.mem_takeWhile_imp hc, hsign, hne, fun c hc => List.mem_takeWhile_imp hc,
      fun c hc => ?_, rfl⟩
    · rw [List.takeWhile_append_dropWhile, ← hsplit, List.takeWhile_append_dropWhile]
    · obtain ⟨cs, hcs⟩ := List.head?_eq_some_iff.mp hc
      have hhead := List.head?_dropWhile_not Char.isDigit (signOf (s.dropWhile isSpace)).2
      rw [hcs] at hhead
      exact hhead

/-- **What `stoi` accepts** is a number in the range of an `int`, and it returns that number. -/
theorem stoi_eq_ok_iff : stoi s = .ok n ↔ Spells s n ∧ IsInt n := by
  constructor
  · intro h
    rcases spells_or_invalid s with ⟨m, hm⟩ | hinvalid
    · rw [stoi_of_spells hm] at h
      split at h
      · rename_i hint
        obtain rfl := Except.ok.inj h
        exact ⟨hm, hint⟩
      · cases h
    · rw [hinvalid] at h
      cases h
  · rintro ⟨hspells, hint⟩
    rw [stoi_of_spells hspells, if_pos hint]

/-- The number in decimal. -/
def decimal (n : ℤ) : Value :=
  if n < 0 then '-' :: Nat.toDigits 10 n.natAbs else Nat.toDigits 10 n.natAbs

theorem spells_decimal (n : ℤ) : Spells (decimal n) n := by
  have hdigits : ∀ c ∈ Nat.toDigits 10 n.natAbs, c.isDigit = true := fun c hc =>
    Nat.isDigit_of_mem_toDigits (by decide) (by decide) hc
  have hvalue : Nat.ofDigitChars 10 (Nat.toDigits 10 n.natAbs) 0 = n.natAbs :=
    Nat.ofDigitChars_ten_toDigits
  by_cases hneg : n < 0
  · refine ⟨[], ['-'], Nat.toDigits 10 n.natAbs, [], true, ?_, by simp, .minus,
      Nat.toDigits_ne_nil, hdigits, by simp, ?_⟩
    · rw [decimal, if_pos hneg]
      simp
    · rw [if_pos rfl, hvalue]
      omega
  · refine ⟨[], [], Nat.toDigits 10 n.natAbs, [], false, ?_, by simp, .none,
      Nat.toDigits_ne_nil, hdigits, by simp, ?_⟩
    · rw [decimal, if_neg hneg]
      simp
    · rw [if_neg Bool.false_ne_true, hvalue]
      omega

end Stoi

/-! ## The readers of the configuration -/

namespace BGConfigManager

/-- `GetInt` -/
def getInt (m : BGConfigManager) (k : Value) : Except StoiError ℤ :=
  let v := m.getString k
  if v = [] then .ok 0 else stoi v

/-- `CheckLogLevel`, for the manager `g_Config`. -/
def checkLogLevel (m : BGConfigManager) (level : ELogLevel) : Except StoiError Bool :=
  (m.getInt "LogLevel".toList).map fun logLevel => decide (level.toInt > logLevel)

end BGConfigManager

/-- The members of `BGMainConfig` that `Open` assigns. -/
structure BGMainConfig where
  strTitle : Value
  nNumberOfThreads : ℤ
  nMaxUser : ℤ
  nPort : ℤ
  deriving DecidableEq, Repr

/-- `BG_SERVER_PORT` -/
def bgServerPort : ℤ := 8800

/-- `Open`, where `g_Config` is `m`: what it returns, and `g_Config` and the members after it.
Nothing catches what `GetInt` throws. -/
def BGMainConfig.open_ (m : BGConfigManager) (file : Option (List Char)) (c : BGMainConfig) :
    Except StoiError (Bool × BGConfigManager × BGMainConfig) :=
  let (loaded, m) := m.load file
  if loaded = false then .ok (false, m, c)
  else do
    let nNumberOfThreads ← m.getInt "workerThreadNum".toList
    let nMaxUser ← m.getInt "maxUser".toList
    return (true, m,
      { strTitle := m.getString "serverName".toList
        nNumberOfThreads := nNumberOfThreads
        nMaxUser := nMaxUser
        nPort := bgServerPort })

/-- The value of the first line that has the key. -/
def valueIn (text : List Char) (k : Value) : Option Value :=
  (lines text).findSome? fun line => valueOf k (tokens line)

/-- The number of a key: that of its first line, and 0 if it has none. -/
def NumberIn (text : List Char) (k : Value) (n : ℤ) : Prop :=
  match valueIn text k with
  | none => n = 0
  | some v => Spells v n ∧ IsInt n

section Load
variable {text : List Char} {k : Value} {n : ℤ}

/-- What a file of well-formed lines has stored. -/
theorem lookup_load (h : ∀ line ∈ lines text, wellFormed (tokens line) = true) (k : Value) :
    (BGConfigManager.new.load (some text)).2.configMap.lookup k = valueIn text k := by
  have hformed : ∀ ts ∈ tokenLines text, wellFormed ts = true := by
    intro ts hts
    obtain ⟨line, hline, rfl⟩ := List.mem_map.mp hts
    exact h line hline
  have halone : anyAlone (tokenLines text) = false :=
    List.any_eq_false.mpr fun ts hts =>
      Bool.eq_false_iff.mp (keyAlone_of_wellFormed (hformed ts hts))
  change (BGConfigManager.loadLoop (.ofText text) [] [] []).lookup k = _
  rw [loadLoop_eq, lookup_mapInsertAll, List.nil_append, pairs_stores halone,
    lookup_flatMap k hformed, tokenLines, List.findSome?_map]
  rfl

/-- A value is not empty. -/
theorem ne_nil_of_valueIn {v : Value} (h : valueIn text k = some v) : v ≠ [] := by
  obtain ⟨line, -, hvalue⟩ := List.exists_of_findSome?_eq_some h
  have hmem : v ∈ tokens line := by
    cases htokens : tokens line with
    | nil => rw [htokens] at hvalue; cases hvalue
    | cons key ts =>
        cases ts with
        | nil => rw [htokens] at hvalue; cases hvalue
        | cons w ts =>
            rw [htokens, valueOf] at hvalue
            split at hvalue
            · obtain rfl := Option.some.inj hvalue
              simp
            · cases hvalue
  rintro rfl
  simp [tokens] at hmem

/-- What number `GetInt` gives. -/
theorem getInt_load_iff (h : ∀ line ∈ lines text, wellFormed (tokens line) = true) :
    (BGConfigManager.new.load (some text)).2.getInt k = .ok n ↔ NumberIn text k n := by
  rw [BGConfigManager.getInt, BGConfigManager.getString, lookup_load h, NumberIn]
  cases hvalue : valueIn text k with
  | none =>
      rw [Option.getD_none, if_pos rfl, Except.ok.injEq]
      exact eq_comm
  | some v =>
      rw [Option.getD_some, if_neg (ne_nil_of_valueIn hvalue)]
      exact stoi_eq_ok_iff

/-- What `Open` reads, by way of `GetString` and `GetInt`. -/
theorem open_ok_iff {m m' : BGConfigManager} {c c' : BGMainConfig} {b : Bool} :
    BGMainConfig.open_ m (some text) c = .ok (b, m', c') ↔
      b = true ∧ m' = (m.load (some text)).2 ∧
        c'.strTitle = m'.getString "serverName".toList ∧
        m'.getInt "workerThreadNum".toList = .ok c'.nNumberOfThreads ∧
        m'.getInt "maxUser".toList = .ok c'.nMaxUser ∧ c'.nPort = bgServerPort := by
  obtain ⟨g, hg⟩ : ∃ g, g = (m.load (some text)).2 := ⟨_, rfl⟩
  have hload : m.load (some text) = (true, g) := by rw [hg]; rfl
  rw [← hg]
  simp only [BGMainConfig.open_, hload, Bool.true_eq_false, if_false]
  constructor
  · intro hopen
    cases hthreads : g.getInt "workerThreadNum".toList with
    | error e => rw [hthreads] at hopen; cases hopen
    | ok nNumberOfThreads =>
        cases huser : g.getInt "maxUser".toList with
        | error e => rw [hthreads, huser] at hopen; cases hopen
        | ok nMaxUser =>
            rw [hthreads, huser] at hopen
            have hout := Except.ok.inj hopen
            rw [Prod.mk.injEq, Prod.mk.injEq] at hout
            obtain ⟨rfl, rfl, rfl⟩ := hout
            exact ⟨rfl, rfl, rfl, hthreads, huser, rfl⟩
  · rintro ⟨rfl, rfl, htitle, hthreads, huser, hport⟩
    rw [hthreads, huser, ← htitle, ← hport]
    rfl

end Load

/-! ## A file that is written from its entries -/

/-- A text that is one token. -/
def IsWord (w : Value) : Prop := w ≠ [] ∧ ∀ c ∈ w, isSpace c = false

instance (w : Value) : Decidable (IsWord w) := inferInstanceAs (Decidable (_ ∧ _))

/-- A key and its value on a line. -/
def entryLine (e : Value × Value) : List Char := e.1 ++ ' ' :: e.2

/-- The text of some entries. -/
def render (entries : List (Value × Value)) : List Char := unlines (entries.map entryLine)

section Render
variable {entries : List (Value × Value)} {k v : Value}

theorem tokens_entryLine {e : Value × Value} (hk : IsWord e.1) (hv : IsWord e.2) :
    tokens (entryLine e) = [e.1, e.2] := by
  rw [entryLine, tokens_append_cons rfl, tokens_word hk.1 hk.2, tokens_word hv.1 hv.2]
  rfl

/-- The lines of the text hold the entries. -/
theorem tokenLines_render (h : ∀ e ∈ entries, IsWord e.1 ∧ IsWord e.2) (hne : entries ≠ []) :
    tokenLines (render entries) = entries.map fun e => [e.1, e.2] := by
  have hline : ∀ l ∈ entries.map entryLine, '\n' ∉ l := by
    intro l hl hmem
    obtain ⟨e, he, rfl⟩ := List.mem_map.mp hl
    obtain ⟨hk, hv⟩ := h e he
    rw [entryLine, List.mem_append, List.mem_cons] at hmem
    rcases hmem with hmem | hmem | hmem
    · exact absurd (hk.2 _ hmem) (by decide)
    · exact absurd hmem (by decide)
    · exact absurd (hv.2 _ hmem) (by decide)
  rw [render, tokenLines_unlines (List.map_eq_nil_iff.not.mpr hne) hline, List.map_map]
  exact List.map_congr_left fun e he => tokens_entryLine (h e he).1 (h e he).2

/-- The value of a key, entry by entry. -/
theorem findSome?_entries (h : ∀ e ∈ entries, e.1 ≠ commentMark) (k : Value) :
    (entries.map fun e => [e.1, e.2]).findSome? (valueOf k) = entries.lookup k := by
  induction entries with
  | nil => rfl
  | cons e entries ih =>
      obtain ⟨key, v⟩ := e
      rw [List.forall_mem_cons] at h
      rw [List.map_cons, List.findSome?_cons, ih h.2, valueOf]
      by_cases hk : key = k
      · subst hk
        rw [if_pos ⟨h.1, rfl⟩]
        exact List.lookup_cons_self.symm
      · rw [if_neg fun hv => hk hv.2, List.lookup_cons, beq_false_of_ne (Ne.symm hk)]

/-- The values of the text are those of the entries. -/
theorem valueIn_render (h : ∀ e ∈ entries, IsWord e.1 ∧ IsWord e.2)
    (hkey : ∀ e ∈ entries, e.1 ≠ commentMark) (k : Value) :
    valueIn (render entries) k = entries.lookup k := by
  by_cases hne : entries = []
  · subst hne
    rfl
  · rw [← findSome?_entries hkey k, ← tokenLines_render h hne, tokenLines, List.findSome?_map]
    rfl

/-- The lines of the text are well formed. -/
theorem wellFormed_render (h : ∀ e ∈ entries, IsWord e.1 ∧ IsWord e.2) :
    ∀ line ∈ lines (render entries), wellFormed (tokens line) = true := by
  intro line hline
  by_cases hne : entries = []
  · subst hne
    obtain rfl := List.mem_singleton.mp hline
    rfl
  · have hmem : tokens line ∈ tokenLines (render entries) := List.mem_map_of_mem hline
    rw [tokenLines_render h hne] at hmem
    obtain ⟨e, -, he⟩ := List.mem_map.mp hmem
    rw [← he]
    rfl

/-- What is read of a number that is written in decimal. -/
theorem numberIn_render (h : ∀ e ∈ entries, IsWord e.1 ∧ IsWord e.2)
    (hkey : ∀ e ∈ entries, e.1 ≠ commentMark) {n : ℤ} (hn : IsInt n)
    (hlookup : entries.lookup k = some (decimal n)) : NumberIn (render entries) k n := by
  rw [NumberIn, valueIn_render h hkey, hlookup]
  exact ⟨spells_decimal n, hn⟩

/-- **What is written to a configuration is read back**: the title and the numbers of `Open`, and
the level that each log is compared with, also where further keys stand around them. -/
theorem open_render (h : ∀ e ∈ entries, IsWord e.1 ∧ IsWord e.2)
    (hkey : ∀ e ∈ entries, e.1 ≠ commentMark) {title : Value} {threads user logLevel : ℤ}
    (hthreads : IsInt threads) (huser : IsInt user) (hlevel : IsInt logLevel)
    (htitle : entries.lookup "serverName".toList = some title)
    (hthreadNum : entries.lookup "workerThreadNum".toList = some (decimal threads))
    (hmaxUser : entries.lookup "maxUser".toList = some (decimal user))
    (hlogLevel : entries.lookup "LogLevel".toList = some (decimal logLevel)) (c : BGMainConfig) :
    ∃ g, BGMainConfig.open_ .new (some (render entries)) c =
        .ok (true, g, ⟨title, threads, user, bgServerPort⟩) ∧
      ∀ level, g.checkLogLevel level = .ok (decide (level.toInt > logLevel)) := by
  have hformed := wellFormed_render h
  have hserver : (BGConfigManager.new.load (some (render entries))).2.getString
      "serverName".toList = title := by
    rw [BGConfigManager.getString, lookup_load hformed, valueIn_render h hkey, htitle]
    rfl
  have hget : ∀ {k : Value} {n : ℤ}, IsInt n → entries.lookup k = some (decimal n) →
      (BGConfigManager.new.load (some (render entries))).2.getInt k = .ok n :=
    fun hn hlookup => (getInt_load_iff hformed).mpr (numberIn_render h hkey hn hlookup)
  refine ⟨(BGConfigManager.new.load (some (render entries))).2, open_ok_iff.mpr
    ⟨rfl, rfl, hserver.symm, hget hthreads hthreadNum, hget huser hmaxUser, rfl⟩, fun level => ?_⟩
  rw [BGConfigManager.checkLogLevel, hget hlevel hlogLevel]
  rfl

/-- Four keys of the server and one that nothing reads. -/
theorem open_render_negative :
    ∃ g, BGMainConfig.open_ .new (some
        "serverName BG\nworkerThreadNum 4\nmode test\nmaxUser 2000\nLogLevel -1".toList)
          ⟨[], 0, 0, 0⟩ = .ok (true, g, ⟨['B', 'G'], 4, 2000, bgServerPort⟩) ∧
      ∀ level, g.checkLogLevel level = .ok (decide (level.toInt > -1)) :=
  @open_render [("serverName".toList, "BG".toList), ("workerThreadNum".toList, "4".toList),
      ("mode".toList, "test".toList), ("maxUser".toList, "2000".toList),
      ("LogLevel".toList, "-1".toList)]
    (by simp [IsWord, isSpace]) (by decide)
    "BG".toList 4 2000 (-1) (by decide) (by decide) (by decide) rfl rfl rfl rfl ⟨[], 0, 0, 0⟩

end Render

end BGIocpServer
