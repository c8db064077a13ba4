import BGIocpServer.Kit.Region
import Mathlib.Algebra.GroupWithZero.Nat

/-!
# The I/O buffer

`BGIOBuffer` and what the socket code does to its bytes. The array `m_buffer` has
`BG_BUFFER_SIZE` bytes and `m_dwSize` is the field laid out directly behind it,
so a copy that runs past the array goes on into the size. `BUFFER_SIZE`, the
bound the socket code tests, is a different constant.

Sizes are `DWORD`s, kept as natural numbers; a subtraction on them wraps.
-/

namespace BGIocpServer
open Kit

/-- `BG_BUFFER_SIZE`: the bytes of `m_buffer`. -/
def bgBufferSize : ℕ := 4096

/-- `BUFFER_SIZE`: the bound that `Read`, `Write` and `OnRead` test. -/
def bufferSize : ℕ := 8000

/-- The address of a `BGIOBuffer`; a null pointer is `none` of `Option Ptr`. -/
abbrev Ptr := ℕ

/-- Subtraction on `DWORD`s. -/
def dwordSub (a b : ℕ) : ℕ := (a + 2 ^ 32 - b) % 2 ^ 32

/-- Without a borrow the `DWORD` subtraction is the natural one. -/
theorem dwordSub_of_le {a b : ℕ} (hb : b ≤ a) (ha : a < 2 ^ 32) : dwordSub a b = a - b := by
  rw [dwordSub]
  omega

structure BGIOBuffer where
  /-- `m_nRef` -/
  nRef : ℤ
  /-- `m_buffer`, by offset; the array ends at `bgBufferSize`. -/
  buffer : ℕ → UInt8
  /-- `m_dwSize` -/
  dwSize : ℕ
  /-- `m_pNext` -/
  pNext : Option Ptr

namespace BGIOBuffer

/-- A buffer as `new` leaves it, taken to be zeroed. -/
def blank : BGIOBuffer := ⟨0, fun _ => 0, 0, none⟩

/-- The bytes in use: the first `m_dwSize` of `m_buffer`. -/
def bytes (b : BGIOBuffer) : List UInt8 := load b.buffer 0 b.dwSize

@[simp] theorem length_bytes (b : BGIOBuffer) : b.bytes.length = b.dwSize := length_load _ _ _

/-- What `Alloc` writes into a buffer before it hands it out; the bytes of the
buffer's former life stay in `m_buffer`. -/
def init (b : BGIOBuffer) : BGIOBuffer := { b with dwSize := 0, nRef := 1, pNext := none }

/-- A buffer filled by its caller: `data` at the front, `m_dwSize` its length. -/
def fill (b : BGIOBuffer) (data : List UInt8) : BGIOBuffer :=
  { b with buffer := store b.buffer 0 data, dwSize := data.length }

@[simp] theorem bytes_fill (b : BGIOBuffer) (data : List UInt8) : (b.fill data).bytes = data :=
  load_store b.buffer 0 data

/-- The memory of `m_buffer` and of the four bytes of `m_dwSize` behind it. -/
def image (b : BGIOBuffer) : ℕ → UInt8 := fun i =>
  if i < bgBufferSize then b.buffer i else UInt8.ofNat (b.dwSize / 256 ^ (i - bgBufferSize))

/-- Read `m_buffer` and `m_dwSize` back from that memory. -/
def ofImage (b : BGIOBuffer) (m : ℕ → UInt8) : BGIOBuffer :=
  { b with
    buffer := m
    dwSize := (m bgBufferSize).toNat + 256 * (m (bgBufferSize + 1)).toNat
      + 65536 * (m (bgBufferSize + 2)).toNat + 16777216 * (m (bgBufferSize + 3)).toNat }

/-- `memcpy(m_buffer + off, src, ..)`. Past the end of `m_buffer` it overwrites
`m_dwSize`; what lies behind `m_dwSize` is not modelled, and a copy that reaches
it is `none`. -/
def memcpy (b : BGIOBuffer) (off : ℕ) (src : List UInt8) : Option BGIOBuffer :=
  if off + src.length ≤ bgBufferSize + 4 then some (b.ofImage (store b.image off src)) else none

/-- The size field read back from its own four bytes. -/
theorem ofImage_dwSize (b : BGIOBuffer) (h : b.dwSize < 2 ^ 32) :
    (b.ofImage b.image).dwSize = b.dwSize := by
  simp only [ofImage, image, lt_irrefl, if_false, Nat.not_lt.mpr (Nat.le_add_right _ _),
    Nat.sub_self, Nat.add_sub_cancel_left, UInt8.toNat_ofNat']
  omega

/-- A copy that stays inside `m_buffer` changes these bytes and nothing else. -/
theorem memcpy_inside {b : BGIOBuffer} {off : ℕ} {src : List UInt8}
    (h : off + src.length ≤ bgBufferSize) (hs : b.dwSize < 2 ^ 32) :
    ∃ c, b.memcpy off src = some c ∧ c.dwSize = b.dwSize ∧ c.pNext = b.pNext ∧ c.nRef = b.nRef ∧
      load c.buffer 0 (off + src.length) = load b.buffer 0 off ++ src := by
  refine ⟨b.ofImage (store b.image off src), by rw [memcpy, if_pos (by omega)], ?_, rfl, rfl, ?_⟩
  · rw [← ofImage_dwSize b hs]
    simp only [ofImage]
    rw [store_apply_of_le h, store_apply_of_le (by omega), store_apply_of_le (by omega),
      store_apply_of_le (by omega)]
  · simp only [ofImage]
    rw [load_store_append]
    congr 1
    refine load_congr fun i _ hi => ?_
    rw [image, if_pos (by omega)]

/-- `memcpy(m_pLastBuf->m_buffer + m_pLastBuf->m_dwSize, ..)` followed by
`m_pLastBuf->m_dwSize += ..`: the two statements of the coalescing branch. -/
def coalesce (last : BGIOBuffer) (src : List UInt8) : Option BGIOBuffer :=
  (last.memcpy last.dwSize src).map fun b => { b with dwSize := (b.dwSize + src.length) % 2 ^ 32 }

/-- Coalescing that fits in `m_buffer` appends the bytes. -/
theorem coalesce_inside {b : BGIOBuffer} {src : List UInt8}
    (h : b.dwSize + src.length ≤ bgBufferSize) :
    ∃ c, b.coalesce src = some c ∧ c.dwSize = b.dwSize + src.length ∧ c.pNext = b.pNext ∧
      c.bytes = b.bytes ++ src := by
  have hsize : bgBufferSize = 4096 := rfl
  have hdword : b.dwSize < 2 ^ 32 := by omega
  obtain ⟨c, hc, hsz, hnext, -, hload⟩ := memcpy_inside h hdword
  have hlen : (c.dwSize + src.length) % 2 ^ 32 = b.dwSize + src.length := by omega
  exact ⟨{ c with dwSize := (c.dwSize + src.length) % 2 ^ 32 }, by rw [coalesce, hc]; rfl,
    hlen, hnext, by simp only [bytes, hlen]; exact hload⟩

/-- Coalescing four bytes behind a full `m_buffer` writes them into the size, to
which their number is then added. -/
theorem coalesce_overrun {b : BGIOBuffer} (w x y z : UInt8) (h : b.dwSize = bgBufferSize) :
    ∃ c, b.coalesce [w, x, y, z] = some c ∧ c.pNext = b.pNext ∧
      c.dwSize = (w.toNat + 256 * x.toNat + 65536 * y.toNat + 16777216 * z.toNat + 4) % 2 ^ 32 := by
  have hfits : b.dwSize + [w, x, y, z].length ≤ bgBufferSize + 4 := by rw [h]; rfl
  simp only [coalesce, memcpy, if_pos hfits, Option.map_some]
  refine ⟨_, rfl, rfl, ?_⟩
  simp [ofImage, store, h]

end BGIOBuffer
end BGIocpServer
