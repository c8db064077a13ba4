import BGIocpServer.Kit.Region
import Mathlib.Algebra.Group.Int.Defs
import Mathlib.Algebra.GroupWithZero.Nat

/-!
# Records without padding

A record is a list of members, each an integer with its width in bytes. In memory the members
stand one behind the other, each with its low byte first; a value that is too large for its
width is cut off, a negative one is kept in two's complement.

## Main results

* `leNat_leBytes`: the bytes of an integer spell it, modulo the range of its width.
* `load_member`: what is read at the offset of a member is the member.
-/

namespace Kit

/-- An integer in `n` bytes, low byte first. -/
def leBytes : ℕ → ℤ → List UInt8
  | 0, _ => []
  | n + 1, v => UInt8.ofNat (v % 256).toNat :: leBytes n (v / 256)

/-- The number that bytes spell, low byte first. -/
def leNat : List UInt8 → ℕ
  | [] => 0
  | b :: bs => b.toNat + 256 * leNat bs

@[simp] theorem length_leBytes (n : ℕ) (v : ℤ) : (leBytes n v).length = n := by
  induction n generalizing v with
  | zero => rfl
  | succ n ih => rw [leBytes, List.length_cons, ih]

/-- The low bytes and the high bytes of an integer. -/
theorem leBytes_add (n k : ℕ) (v : ℤ) :
    leBytes (n + k) v = leBytes n v ++ leBytes k (v / 256 ^ n) := by
  induction n generalizing v with
  | zero => rw [Nat.zero_add, Int.pow_zero, Int.ediv_one, leBytes, List.nil_append]
  | succ n ih =>
      have hdiv : v / 256 / 256 ^ n = v / 256 ^ (n + 1) := by
        rw [Int.ediv_ediv_of_nonneg (by decide), Int.pow_succ, Int.mul_comm]
      rw [Nat.add_right_comm, leBytes, leBytes, ih, List.cons_append, hdiv]

theorem leNat_append (xs ys : List UInt8) :
    leNat (xs ++ ys) = leNat xs + 256 ^ xs.length * leNat ys := by
  induction xs with
  | nil => simp [leNat]
  | cons x xs ih =>
      rw [List.cons_append, leNat, ih, leNat, List.length_cons, Nat.pow_succ, Nat.mul_add,
        Nat.add_assoc, Nat.mul_comm (256 ^ xs.length) 256, Nat.mul_assoc]

/-- The bytes of an integer spell it, modulo the range of its width. -/
theorem leNat_leBytes (n : ℕ) (v : ℤ) : (leNat (leBytes n v) : ℤ) = v % 256 ^ n := by
  induction n generalizing v with
  | zero => simp [leBytes, leNat]
  | succ n ih =>
      have hlow : 0 ≤ v % 256 ∧ v % 256 < 256 := by omega
      have hhead : ((UInt8.ofNat (v % 256).toNat).toNat : ℤ) = v % 256 := by
        rw [UInt8.toNat_ofNat', Nat.mod_eq_of_lt (by omega)]
        omega
      have hpow : (0 : ℤ) < 256 ^ n := Int.pow_pos (by decide)
      have hhigh := Int.emod_nonneg (v / 256) (Int.ne_of_gt hpow)
      have hlt := Int.emod_lt_of_pos (v / 256) hpow
      have hdiv := Int.mul_ediv_add_emod (v / 256) (256 ^ n)
      rw [leBytes, leNat, Int.natCast_add, Int.natCast_mul, ih, hhead, Int.pow_succ]
      -- the quotient of `v` by the larger range is that of its high part
      have hsplit : v = v % 256 + 256 * (v / 256 % 256 ^ n) +
          256 ^ n * 256 * (v / 256 / 256 ^ n) := by
        rw [Int.mul_comm (256 ^ n) 256, Int.mul_assoc]
        omega
      generalize v / 256 % 256 ^ n = high at *
      generalize v / 256 / 256 ^ n = q at *
      generalize v % 256 = low at *
      rw [hsplit, Int.add_mul_emod_self_left, Int.emod_eq_of_lt (by omega) (by omega)]
      rfl

/-- A value that the width can hold is spelled by its bytes. -/
theorem leNat_leBytes_of_lt {n v : ℕ} (h : v < 256 ^ n) : leNat (leBytes n v) = v := by
  have hspell := leNat_leBytes n v
  have hcast : ((256 ^ n : ℕ) : ℤ) = 256 ^ n := Int.natCast_pow 256 n
  rw [Int.emod_eq_of_lt (by omega) (by omega)] at hspell
  exact Int.ofNat.inj hspell

/-! ## Members one behind the other -/

/-- A member of a record. -/
structure Member where
  /-- Its width in bytes. -/
  width : ℕ
  value : ℤ
  deriving DecidableEq, Repr

/-- The bytes of a member. -/
def Member.bytes (m : Member) : List UInt8 := leBytes m.width m.value

@[simp] theorem Member.length_bytes (m : Member) : m.bytes.length = m.width :=
  length_leBytes _ _

/-- The bytes of a record. -/
def packed (ms : List Member) : List UInt8 := (ms.map Member.bytes).flatten

/-- The size of a record: where the member behind its last one would stand. -/
def sizeOfMembers : List Member → ℕ
  | [] => 0
  | m :: ms => m.width + sizeOfMembers ms

@[simp] theorem packed_nil : packed [] = [] := rfl

@[simp] theorem packed_cons (m : Member) (ms : List Member) :
    packed (m :: ms) = m.bytes ++ packed ms := rfl

theorem packed_append (ms ms' : List Member) : packed (ms ++ ms') = packed ms ++ packed ms' := by
  rw [packed, List.map_append, List.flatten_append]
  rfl

@[simp] theorem length_packed (ms : List Member) : (packed ms).length = sizeOfMembers ms := by
  induction ms with
  | nil => rfl
  | cons m ms ih => rw [packed_cons, List.length_append, m.length_bytes, ih, sizeOfMembers]

/-- **What is read at the offset of a member is the member**, in any memory that has the record
at `off`: the offset is the size of the members in front of it. -/
theorem load_member {mem : ℕ → UInt8} (off : ℕ) (front : List Member) (m : Member)
    (back : List Member)
    (h : load mem off (sizeOfMembers (front ++ m :: back)) = packed (front ++ m :: back)) :
    load mem (off + sizeOfMembers front) m.width = m.bytes := by
  have hsize : sizeOfMembers (front ++ m :: back) =
      sizeOfMembers front + (m.width + sizeOfMembers back) := by
    rw [← length_packed, packed_append, List.length_append, length_packed, length_packed,
      sizeOfMembers]
  rw [hsize, load_add, load_add, packed_append, packed_cons] at h
  have hrest := (List.append_inj h (by simp)).2
  exact (List.append_inj hrest (by simp)).1

end Kit
