import BGIocpServer.Kit.InsertMap
import BGIocpServer.Kit.TextStream

/-!
# The configuration manager

`Load` reads a key and then a value with `>>`, which passes over line ends, and leaves out the
rest of a line that it finds to begin with `//`. The variables of its loop keep what they had
where a read fails. So a key at the end of its line takes its value from a later line, or from
an earlier pair if there is no token left.

## Main definitions

* `BGConfigManager`, `load`, `getString`: the manager and its functions.
* `stores`: the pairs that the loop hands to `insert`, with the lines of their tokens.

## Main results

* `loadLoop_eq`: the loop inserts its pairs, one after the other.
* `loadTurn`: what one turn of the loop does, told by the tokens of the lines to come.
-/

namespace BGIocpServer
open Kit

/-- `std::string`, as a key and as a value. -/
abbrev Value := List Char

/-- What begins a comment. -/
def commentMark : Value := ['/', '/']

/-- `BGConfigManager`. -/
structure BGConfigManager where
  configMap : List (Value × Value)
  deriving DecidableEq, Repr

namespace BGConfigManager

def new : BGConfigManager := { configMap := [] }

/-- The loop of `Load`. -/
def loadLoop (fs : IStream) (k v : Value) (configMap : List (Value × Value)) :
    List (Value × Value) :=
  let key := fs.extract k
  if _h : key.1.fail = true then configMap
  else if key.2 = commentMark then
    let line := key.1.getline v
    loadLoop line.1 key.2 line.2 configMap
  else
    let value := key.1.extract v
    loadLoop value.1 key.2 value.2 (mapInsert configMap key.2 value.2)
termination_by fs.rest.length
decreasing_by
  all_goals
    have hkey := IStream.length_extract_lt (Bool.eq_false_iff.mpr _h)
  · exact Nat.lt_of_le_of_lt (IStream.length_getline_le _ v) hkey
  · exact Nat.lt_of_le_of_lt (IStream.length_extract_le _ v) hkey

/-- `Load`; the file is `none` if it cannot be opened. -/
def load (m : BGConfigManager) (file : Option (List Char)) : Bool × BGConfigManager :=
  match file with
  | none => (false, m)
  | some text => (true, { m with configMap := loadLoop (.ofText text) [] [] m.configMap })

/-- `GetString` -/
def getString (m : BGConfigManager) (k : Value) : Value := (m.configMap.lookup k).getD []

end BGConfigManager

/-! ## The pairs of the loop -/

/-- A pair that is handed to `insert`. A line is told by the line ends behind it. -/
structure Store where
  key : Value
  value : Value
  /-- The line of the key. -/
  keyLine : ℕ
  /-- The line of the value; `none` where the read of the value has failed. -/
  valueLine : Option ℕ
  deriving DecidableEq, Repr

/-- The pair alone. -/
def Store.pair (s : Store) : Value × Value := (s.key, s.value)

/-- The pairs that the loop hands to `insert`. -/
def stores (fs : IStream) (k v : Value) : List Store :=
  let key := fs.extract k
  if _h : key.1.fail = true then []
  else if key.2 = commentMark then
    let line := key.1.getline v
    stores line.1 key.2 line.2
  else
    let value := key.1.extract v
    { key := key.2
      value := value.2
      keyLine := key.1.rest.count '\n'
      valueLine := if value.1.fail then none else some (value.1.rest.count '\n') } ::
      stores value.1 key.2 value.2
termination_by fs.rest.length
decreasing_by
  all_goals
    have hkey := IStream.length_extract_lt (Bool.eq_false_iff.mpr _h)
  · exact Nat.lt_of_le_of_lt (IStream.length_getline_le _ v) hkey
  · exact Nat.lt_of_le_of_lt (IStream.length_extract_le _ v) hkey

/-- The loop inserts its pairs, one after the other. -/
theorem loadLoop_eq (fs : IStream) (k v : Value) (configMap : List (Value × Value)) :
    BGConfigManager.loadLoop fs k v configMap =
      mapInsertAll configMap ((stores fs k v).map Store.pair) := by
  induction fs, k, v, configMap using BGConfigManager.loadLoop.induct with
  | case1 fs k v configMap key h =>
      rw [BGConfigManager.loadLoop, stores, dif_pos h, dif_pos h]
      rfl
  | case2 fs k v configMap key h hcomment line ih =>
      rw [BGConfigManager.loadLoop, stores, dif_neg h, dif_neg h, if_pos hcomment,
        if_pos hcomment]
      exact ih
  | case3 fs k v configMap key h hcomment value ih =>
      rw [BGConfigManager.loadLoop, stores, dif_neg h, dif_neg h, if_neg hcomment,
        if_neg hcomment]
      exact ih

/-! ## One turn -/

/-- Behind the end of the file there are no pairs. -/
theorem stores_end {fs : IStream} (h : fs.rest = []) (k v : Value) : stores fs k v = [] := by
  have hnone : fs.rest.dropWhile isSpace = [] := by rw [h]; rfl
  rw [stores, dif_pos (IStream.extract_of_nil hnone k).1]

/-- What one turn of the loop does, told by the tokens of the lines to come. -/
inductive LoadTurn (fs : IStream) (k v : Value) : Prop
  /-- No token is left. -/
  | done : (∀ ts ∈ tokenLines fs.rest, ts = []) → stores fs k v = [] → LoadTurn fs k v
  /-- A comment on the last line. -/
  | lastComment (n : ℕ) (ts : List Value) :
      tokenLines fs.rest = List.replicate n [] ++ [commentMark :: ts] →
      stores fs k v = [] → LoadTurn fs k v
  /-- A comment in front of other lines. -/
  | comment (n : ℕ) (ts : List Value) (ls : List (List Value)) (fs' : IStream) (k' v' : Value) :
      tokenLines fs.rest = List.replicate n [] ++ (commentMark :: ts) :: ls →
      fs'.Ok → tokenLines fs'.rest = ls → fs'.rest.length < fs.rest.length →
      stores fs k v = stores fs' k' v' → LoadTurn fs k v
  /-- A key and its value. -/
  | pair (n : ℕ) (key value : Value) (ts : List Value) (ls : List (List Value)) (fs' : IStream) :
      tokenLines fs.rest = List.replicate n [] ++ (key :: value :: ts) :: ls →
      key ≠ commentMark → fs'.Ok → tokenLines fs'.rest = ts :: ls →
      fs'.rest.length < fs.rest.length →
      stores fs k v = ⟨key, value, ls.length, some ls.length⟩ :: stores fs' key value →
      LoadTurn fs k v
  /-- A key at the end of its line. -/
  | alone (n : ℕ) (key : Value) (ls : List (List Value)) (s : Store) (later : List Store) :
      tokenLines fs.rest = List.replicate n [] ++ [key] :: ls → key ≠ commentMark →
      s.key = key → s.keyLine = ls.length → s.valueLine ≠ some ls.length →
      stores fs k v = s :: later → LoadTurn fs k v

theorem loadTurn {fs : IStream} (hok : fs.Ok) (k v : Value) : LoadTurn fs k v := by
  cases IStream.extract_spec hok k with
  | none hblank hfail _ => exact .done hblank (by rw [stores, dif_pos hfail])
  | token n ts ls hlines hkey hrest =>
      have hgood : ¬(fs.extract k).1.fail = true := by simp [hkey.fail]
      have hless := IStream.length_extract_lt hkey.fail
      have hcount := count_newline hrest
      by_cases hcomment : (fs.extract k).2 = commentMark
      · rw [hcomment] at hlines
        have hstores : stores fs k v = stores ((fs.extract k).1.getline v).1 (fs.extract k).2
            ((fs.extract k).1.getline v).2 := by
          rw [stores, dif_neg hgood, if_pos hcomment]
        rcases IStream.getline_spec hkey v hrest with ⟨rfl, hend⟩ | ⟨hok', hrest'⟩
        · exact .lastComment n ts hlines (by rw [hstores, stores_end hend])
        · exact .comment n ts ls _ _ _ hlines hok' hrest'
            (Nat.lt_of_le_of_lt (IStream.length_getline_le _ v) hless) hstores
      · have hstores := stores.eq_1 fs k v
        rw [dif_neg hgood, if_neg hcomment] at hstores
        cases IStream.extract_spec hkey v with
        | none hblank hfail _ =>
            rw [hrest, List.forall_mem_cons] at hblank
            obtain ⟨rfl, -⟩ := hblank
            refine .alone n _ ls _ _ hlines hcomment rfl hcount ?_ hstores
            simp [hfail]
        | token m ts' ls' hlines' hvalue hrest' =>
            have hcount' := count_newline hrest'
            rw [hrest] at hlines'
            cases m with
            | zero =>
                rw [List.replicate_zero, List.nil_append, List.cons.injEq] at hlines'
                obtain ⟨rfl, rfl⟩ := hlines'
                refine .pair n _ _ ts' ls _ hlines hcomment hvalue hrest'
                  (Nat.lt_of_le_of_lt (IStream.length_extract_le _ v) hless) (hstores.trans ?_)
                simp only [hvalue.fail, hcount, hcount', Bool.false_eq_true, if_false]
            | succ m =>
                -- the token stands on a later line
                rw [List.replicate_succ, List.cons_append, List.cons.injEq] at hlines'
                obtain ⟨rfl, rfl⟩ := hlines'
                refine .alone n _ _ _ _ hlines hcomment rfl hcount ?_ hstores
                intro hline
                simp only [hvalue.fail, hcount', Bool.false_eq_true, if_false, Option.some.injEq,
                  List.length_append, List.length_cons] at hline
                omega

end BGIocpServer
