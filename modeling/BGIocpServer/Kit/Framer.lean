import Mathlib.Data.List.Basic
import Mathlib.Data.List.TakeDrop

/-!
# Cutting a stream into packets, incrementally

A `Framer` decides from the bytes at hand whether to wait for more, to reject the
stream, or to cut off a packet of a given length. The decision to cut or to
reject may not depend on bytes that have not arrived yet: this is what makes the
one-pass parse of a stream equal to its parse chunk by chunk (`Framer.parse_append`).

## Main definitions

* `Framer.parse`: the one-pass parse, packets and what is left.
* `Framer.feed`: one received chunk, appended to what was left.
-/

namespace Kit

universe u
variable {β : Type u}

/-- What a framer decides about the bytes at hand. -/
inductive Verdict
  /-- No complete packet yet: keep the bytes. -/
  | wait
  /-- The stream is malformed. -/
  | reject
  /-- The first `n` bytes are a packet. -/
  | accept (n : ℕ)
  deriving DecidableEq, Repr

/-- A framing rule whose packets are non-empty and whose decisions are not revised
when more bytes arrive. -/
structure Framer (β : Type u) where
  cut : List β → Verdict
  accept_pos : ∀ {xs n}, cut xs = .accept n → 0 < n
  accept_le : ∀ {xs n}, cut xs = .accept n → n ≤ xs.length
  accept_append : ∀ {xs n} (ys), cut xs = .accept n → cut (xs ++ ys) = .accept n
  reject_append : ∀ {xs} (ys), cut xs = .reject → cut (xs ++ ys) = .reject

/-- The packets cut so far, and the bytes kept: `none` after a rejection. -/
structure Parsed (β : Type u) where
  packets : List (List β)
  rest : Option (List β)
  deriving DecidableEq, Repr

namespace Framer
variable (F : Framer β)

/-- Cut packets off until the framer waits or rejects. -/
def parse (xs : List β) : Parsed β :=
  match _h : F.cut xs with
  | .wait => ⟨[], some xs⟩
  | .reject => ⟨[], none⟩
  | .accept n =>
      let later := parse (xs.drop n)
      ⟨xs.take n :: later.packets, later.rest⟩
termination_by xs.length
decreasing_by
  have hpos := F.accept_pos _h
  have hle := F.accept_le _h
  rw [List.length_drop]
  omega

variable {F} {xs ys : List β} {n : ℕ}

theorem parse_wait (h : F.cut xs = .wait) : F.parse xs = ⟨[], some xs⟩ := by
  rw [parse]
  split <;> simp_all

theorem parse_reject (h : F.cut xs = .reject) : F.parse xs = ⟨[], none⟩ := by
  rw [parse]
  split <;> simp_all

theorem parse_accept (h : F.cut xs = .accept n) :
    F.parse xs =
      ⟨xs.take n :: (F.parse (xs.drop n)).packets, (F.parse (xs.drop n)).rest⟩ := by
  rw [parse]
  split
  · simp_all
  · simp_all
  · rename_i m hm
    rw [h, Verdict.accept.injEq] at hm
    subst hm
    rfl

variable (F)

/-- One more chunk: it is parsed behind the bytes that were kept. -/
def feed (p : Parsed β) (chunk : List β) : Parsed β :=
  match p.rest with
  | none => p
  | some kept =>
      let later := F.parse (kept ++ chunk)
      ⟨p.packets ++ later.packets, later.rest⟩

variable {F}

/-- Whatever is kept, no packet can be cut off it. -/
theorem cut_rest {kept : List β} (h : (F.parse xs).rest = some kept) : F.cut kept = .wait := by
  induction hn : xs.length using Nat.strongRecOn generalizing xs with
  | _ k ih =>
    cases hc : F.cut xs with
    | wait =>
        rw [parse_wait hc, Option.some.injEq] at h
        exact h ▸ hc
    | reject =>
        rw [parse_reject hc] at h
        exact absurd h (by simp)
    | accept n =>
        rw [parse_accept hc] at h
        have hpos := F.accept_pos hc
        have hle := F.accept_le hc
        exact ih (xs.drop n).length (by rw [List.length_drop]; omega) h rfl

/-- The packets and the kept bytes are the stream again: nothing is lost. -/
theorem flatten_parse {kept : List β} (h : (F.parse xs).rest = some kept) :
    (F.parse xs).packets.flatten ++ kept = xs := by
  induction hn : xs.length using Nat.strongRecOn generalizing xs with
  | _ k ih =>
    cases hc : F.cut xs with
    | wait =>
        rw [parse_wait hc, Option.some.injEq] at h
        subst h
        simp [parse_wait hc]
    | reject =>
        rw [parse_reject hc] at h
        exact absurd h (by simp)
    | accept n =>
        rw [parse_accept hc] at h ⊢
        have hpos := F.accept_pos hc
        have hle := F.accept_le hc
        have htail := ih (xs.drop n).length (by rw [List.length_drop]; omega) h rfl
        simp only [List.flatten_cons, List.append_assoc]
        rw [htail, List.take_append_drop]

/-- **Framing does not depend on the chunks**: parsing a longer stream is parsing its
beginning and then feeding the end. -/
theorem parse_append (xs ys : List β) : F.parse (xs ++ ys) = F.feed (F.parse xs) ys := by
  induction hn : xs.length using Nat.strongRecOn generalizing xs with
  | _ k ih =>
    cases hc : F.cut xs with
    | wait => simp [parse_wait hc, feed]
    | reject => simp [parse_reject hc, parse_reject (F.reject_append ys hc), feed]
    | accept n =>
        have hpos := F.accept_pos hc
        have hle := F.accept_le hc
        have htail := ih (xs.drop n).length (by rw [List.length_drop]; omega) (xs.drop n) rfl
        rw [parse_accept (F.accept_append ys hc), parse_accept hc,
          List.take_append_of_le_length hle, List.drop_append_of_le_length hle, htail]
        cases hr : (F.parse (xs.drop n)).rest <;> simp [feed, hr]

/-! ### Streams made of packets -/

/-- A list that the framer cuts off as a whole, and waits for until all of it is there. -/
structure Whole (F : Framer β) (u : List β) : Prop where
  cut : F.cut u = .accept u.length
  wait : ∀ n < u.length, F.cut (u.take n) = .wait

/-- How many of the lists lie whole in the first `n` elements of their concatenation. -/
def wholeWithin : List (List β) → ℕ → ℕ
  | [], _ => 0
  | u :: us, n => if u.length ≤ n then wholeWithin us (n - u.length) + 1 else 0

theorem wholeWithin_mono (us : List (List β)) {m n : ℕ} (h : m ≤ n) :
    wholeWithin us m ≤ wholeWithin us n := by
  induction us generalizing m n with
  | nil => exact Nat.le_refl _
  | cons u us ih =>
      rw [wholeWithin, wholeWithin]
      split
      · rw [if_pos (by omega)]
        exact Nat.succ_le_succ (ih (by omega))
      · exact Nat.zero_le _

/-- **The beginning of a stream of packets is cut into those that lie whole in it**, and the
framer waits for more. -/
theorem parse_take_flatten {us : List (List β)} (hnil : F.cut [] = .wait)
    (h : ∀ u ∈ us, F.Whole u) (n : ℕ) :
    (F.parse (us.flatten.take n)).packets = us.take (wholeWithin us n) ∧
      (F.parse (us.flatten.take n)).rest ≠ none := by
  induction us generalizing n with
  | nil =>
      rw [List.flatten_nil, List.take_nil, parse_wait hnil]
      exact ⟨rfl, by simp⟩
  | cons u us ih =>
      obtain ⟨hcut, hwait⟩ := h u List.mem_cons_self
      obtain ⟨hpackets, hrest⟩ := ih (fun v hv => h v (List.mem_cons_of_mem u hv)) (n - u.length)
      rw [List.flatten_cons, wholeWithin]
      by_cases hle : u.length ≤ n
      · rw [if_pos hle, List.take_append, List.take_of_length_le hle,
          parse_accept (F.accept_append _ hcut), List.take_left, List.drop_left, hpackets,
          List.take_succ_cons]
        exact ⟨rfl, hrest⟩
      · rw [if_neg hle, List.take_append_of_le_length (by omega),
          parse_wait (hwait n (by omega))]
        exact ⟨rfl, by simp⟩

end Framer
end Kit
