import BGIocpServer.ReadPath
import BGIocpServer.StressClient
import Mathlib.Data.Nat.Find

/-!
# What `Process` reads

`BGTestSocket::Process` on a packet that `OnRead` has framed. It dispatches on the type
and, for a login, builds the nickname from `packet->strId` up to the first terminating
zero, wherever that is: `OnRead` has compared the size byte with the bytes received, and
nobody compares it with the structure. A read past the end of `m_buffer` is `none`.

## Main definitions

* `cString`: the `std::string` of a `char` pointer.
* `process`: `Process` up to the call of `LoginOn`.
* `OwnBytesOnly`: `Process` depends on the packet's own bytes.

## Main results

* `ownBytesOnly_iff`: it does exactly if the type is another one, or the identifier is
  terminated inside the packet and inside `strId`.
-/

namespace BGIocpServer
open Kit

/-- `std::string{ p }` for `p` at `off`, with `n` bytes up to the end of the array. -/
def cString (buffer : ℕ → UInt8) : ℕ → ℕ → Option (List UInt8)
  | _, 0 => none
  | off, n + 1 =>
      if buffer off = 0 then some []
      else (cString buffer (off + 1) n).map (buffer off :: ·)

/-- Everything up to the first zero. -/
theorem cString_eq {buffer : ℕ → UInt8} {off n k : ℕ} (hzero : buffer (off + k) = 0)
    (hne : ∀ j < k, buffer (off + j) ≠ 0) (hk : k < n) :
    cString buffer off n = some (load buffer off k) := by
  induction k generalizing off n with
  | zero =>
      obtain ⟨m, rfl⟩ : ∃ m, n = m + 1 := ⟨n - 1, by omega⟩
      rw [cString, if_pos (by simpa using hzero), load_zero]
  | succ k ih =>
      obtain ⟨m, rfl⟩ : ∃ m, n = m + 1 := ⟨n - 1, by omega⟩
      have hhead : buffer off ≠ 0 := by simpa using hne 0 (by omega)
      have htail : cString buffer (off + 1) m = some (load buffer (off + 1) k) := by
        refine ih ?_ ?_ (by omega)
        · rwa [show off + 1 + k = off + (k + 1) by omega]
        · intro j hj
          rw [show off + 1 + j = off + (j + 1) by omega]
          exact hne (j + 1) (by omega)
      rw [cString, if_neg hhead, htail, Option.map_some, load_succ]

/-- Only a terminated string has a value, and its bytes are not zero. -/
theorem cString_some {buffer : ℕ → UInt8} {off n : ℕ} {xs : List UInt8}
    (h : cString buffer off n = some xs) :
    xs.length < n ∧ buffer (off + xs.length) = 0 ∧ ∀ j < xs.length, buffer (off + j) ≠ 0 := by
  induction n generalizing off xs with
  | zero => cases h
  | succ n ih =>
      rw [cString] at h
      split at h
      · rename_i hzero
        obtain rfl := Option.some.inj h
        exact ⟨Nat.succ_pos n, hzero, fun j hj => absurd hj (Nat.not_lt_zero j)⟩
      · rename_i hhead
        rw [Option.map_eq_some_iff] at h
        obtain ⟨ys, hys, rfl⟩ := h
        obtain ⟨hlen, hzero, hne⟩ := ih hys
        refine ⟨Nat.succ_lt_succ hlen, ?_, ?_⟩
        · rw [List.length_cons, show off + (ys.length + 1) = off + 1 + ys.length by omega]
          exact hzero
        · intro j hj
          cases j with
          | zero => simpa using hhead
          | succ j =>
              rw [show off + (j + 1) = off + 1 + j by omega]
              exact hne j (by simpa using hj)

/-- The size of `strId`. -/
def strIdSize : ℕ := 30

/-- What `Process` does with a packet. -/
inductive Processed
  /-- `Send` of an answer to the ping. -/
  | pingTest
  /-- `LoginOn(0, nickName)`. -/
  | login (nickName : List UInt8)
  /-- `return false`. -/
  | invalid (type : ℕ)
  deriving DecidableEq, Repr

/-- `packet->type`, low byte first. -/
def packetType (buffer : ℕ → UInt8) (packet : ℕ) : ℕ :=
  (buffer (packet + 1)).toNat + 256 * (buffer (packet + 2)).toNat

/-- `Process` on the packet at this offset; `none` if it reads past `m_buffer`. -/
def process (buffer : ℕ → UInt8) (packet : ℕ) : Option Processed :=
  match PacketType.ofValue (packetType buffer packet) with
  | some .csPingTest => some .pingTest
  | some .csLogin =>
      let strId := packet + packetReservedLength
      (cString buffer strId (bgBufferSize - strId)).map .login
  | _ => some (.invalid (packetType buffer packet))

/-- The two buffers have the same packet. -/
def SamePacket (buffer buffer' : ℕ → UInt8) (packet nSize : ℕ) : Prop :=
  ∀ i, packet ≤ i → i < packet + nSize → buffer' i = buffer i

/-- Whatever stands behind the packet, `Process` does the same, and a nickname fits in
`strId`. -/
structure OwnBytesOnly (buffer : ℕ → UInt8) (packet nSize : ℕ) : Prop where
  same : ∀ buffer', SamePacket buffer buffer' packet nSize →
    process buffer' packet = process buffer packet
  inside : (process buffer packet).isSome = true
  fits : ∀ nickName, process buffer packet = some (.login nickName) →
    nickName.length ≤ strIdSize

/-- The identifier ends inside `strId`, and inside the packet. -/
def Terminated (buffer : ℕ → UInt8) (packet nSize : ℕ) : Prop :=
  ∃ k ≤ strIdSize, packetReservedLength + k < nSize ∧
    buffer (packet + packetReservedLength + k) = 0

section Packet
variable {buffer buffer' : ℕ → UInt8} {packet dwSize nSize : ℕ}

/-- A packet that `OnRead` hands over has its header, and has been received. -/
theorem size_of_process (h : onReadTurn buffer packet dwSize = .process nSize) :
    packetReservedLength ≤ nSize ∧ nSize ≤ dwSize := by
  simp only [onReadTurn] at h
  split_ifs at h with hlen hfit hbig hmin
  rw [Turn.process.injEq] at h
  omega

theorem SamePacket.packetType_eq (h : SamePacket buffer buffer' packet nSize)
    (hsize : packetReservedLength ≤ nSize) :
    packetType buffer' packet = packetType buffer packet := by
  have hthree : packetReservedLength = 3 := rfl
  rw [packetType, packetType, h (packet + 1) (by omega) (by omega),
    h (packet + 2) (by omega) (by omega)]

theorem process_login (h : packetType buffer packet = PacketType.csLogin.value) :
    process buffer packet = (cString buffer (packet + packetReservedLength)
      (bgBufferSize - (packet + packetReservedLength))).map .login := by
  rw [process, h, PacketType.ofValue_value]

/-- Any other packet is handled by its type alone. -/
theorem process_other (h : packetType buffer packet ≠ PacketType.csLogin.value) :
    process buffer packet =
      some (if packetType buffer packet = PacketType.csPingTest.value then .pingTest
        else .invalid (packetType buffer packet)) := by
  rw [process]
  generalize packetType buffer packet = type at h ⊢
  match type with
  | 0 | 1 | 2 | 4 | 5 => rfl
  | 3 => exact absurd rfl h
  | n + 6 => rfl

/-- A terminated identifier is read from the packet, and is the same behind any other. -/
theorem Terminated.ownBytesOnly (hterm : Terminated buffer packet nSize)
    (htype : packetType buffer packet = PacketType.csLogin.value)
    (hsize : packetReservedLength ≤ nSize) (hin : packet + nSize ≤ bgBufferSize) :
    OwnBytesOnly buffer packet nSize := by
  -- The first zero: the packet has one, and the one it has may not be the first.
  let strId := packet + packetReservedLength
  obtain ⟨k, hk, hzero, hne⟩ : ∃ k, (k ≤ strIdSize ∧ packetReservedLength + k < nSize) ∧
      buffer (strId + k) = 0 ∧ ∀ j < k, buffer (strId + j) ≠ 0 := by
    obtain ⟨k₀, hk₀, hown, hzero⟩ := hterm
    have hex : ∃ k, buffer (strId + k) = 0 := ⟨k₀, hzero⟩
    have hfirst := Nat.find_min' hex hzero
    exact ⟨Nat.find hex, ⟨by omega, by omega⟩, Nat.find_spec hex, fun j hj => Nat.find_min hex hj⟩
  have key : ∀ buffer', SamePacket buffer buffer' packet nSize →
      process buffer' packet = some (.login (load buffer strId k)) := by
    intro buffer' hsame
    have hcell : ∀ j ≤ k, buffer' (strId + j) = buffer (strId + j) := fun j hj =>
      hsame (strId + j) (by simp only [strId]; omega) (by simp only [strId]; omega)
    have hload : load buffer' strId k = load buffer strId k :=
      load_congr fun i hlo hhi => hsame i (by simp only [strId] at hlo; omega)
        (by simp only [strId] at hhi; omega)
    rw [process_login ((hsame.packetType_eq hsize).trans htype), cString_eq (k := k), hload]
    · rfl
    · exact (hcell k le_rfl).trans hzero
    · intro j hj
      rw [show packet + packetReservedLength + j = strId + j from rfl, hcell j hj.le]
      exact hne j hj
    · omega
  have hself := key buffer fun _ _ _ => rfl
  refine ⟨fun buffer' hsame => (key buffer' hsame).trans hself.symm, by rw [hself]; rfl, ?_⟩
  intro nickName hnick
  rw [hself, Option.some.injEq, Processed.login.injEq] at hnick
  rw [← hnick, length_load]
  exact hk.1

/-- A packet of another type never depends on what follows it. -/
theorem ownBytesOnly_other (htype : packetType buffer packet ≠ PacketType.csLogin.value)
    (hsize : packetReservedLength ≤ nSize) : OwnBytesOnly buffer packet nSize := by
  have key : ∀ buffer', SamePacket buffer buffer' packet nSize →
      process buffer' packet = process buffer packet := by
    intro buffer' hsame
    have heq := hsame.packetType_eq hsize
    rw [process_other htype, process_other (heq.symm ▸ htype), heq]
  refine ⟨key, by rw [process_other htype]; rfl, fun nickName hnick => ?_⟩
  rw [process_other htype, Option.some.injEq] at hnick
  split at hnick <;> cases hnick

/-- Without a zero of its own, a login reads what follows it. -/
theorem OwnBytesOnly.terminated (h : OwnBytesOnly buffer packet nSize)
    (htype : packetType buffer packet = PacketType.csLogin.value)
    (hsize : packetReservedLength ≤ nSize) : Terminated buffer packet nSize := by
  have hinside := h.inside
  rw [process_login htype, Option.isSome_map, Option.isSome_iff_exists] at hinside
  obtain ⟨xs, hxs⟩ := hinside
  obtain ⟨hlen, hzero, hne⟩ := cString_some hxs
  have hfits := h.fits xs (by rw [process_login htype, hxs]; rfl)
  refine ⟨xs.length, hfits, ?_, hzero⟩
  by_contra hown
  -- The same packet in a buffer that has no zero behind it.
  let buffer' : ℕ → UInt8 := fun i => if i < packet + nSize then buffer i else 1
  have hsame : SamePacket buffer buffer' packet nSize := fun i _ hi => if_pos hi
  have heq := h.same buffer' hsame
  rw [process_login htype, process_login ((hsame.packetType_eq hsize).trans htype), hxs] at heq
  rw [Option.map_some, Option.map_eq_some_iff] at heq
  obtain ⟨ys, hys, -⟩ := heq
  obtain ⟨-, hzero', -⟩ := cString_some hys
  by_cases hi : packet + packetReservedLength + ys.length < packet + nSize
  · have hcell : buffer' (packet + packetReservedLength + ys.length) =
        buffer (packet + packetReservedLength + ys.length) := if_pos hi
    exact hne ys.length (by omega) (hcell ▸ hzero')
  · have hcell : buffer' (packet + packetReservedLength + ys.length) = 1 := if_neg hi
    rw [hcell] at hzero'
    exact absurd hzero' (by decide)

/-- **When a packet is processed from its own bytes only**: always, but for a login whose
identifier is not terminated inside the packet and inside `strId`. -/
theorem ownBytesOnly_iff (hturn : onReadTurn buffer packet dwSize = .process nSize)
    (hin : packet + dwSize ≤ bgBufferSize) :
    OwnBytesOnly buffer packet nSize ↔
      (packetType buffer packet = PacketType.csLogin.value → Terminated buffer packet nSize) := by
  obtain ⟨hsize, hle⟩ := size_of_process hturn
  constructor
  · exact fun h htype => h.terminated htype hsize
  · intro hterm
    by_cases htype : packetType buffer packet = PacketType.csLogin.value
    · exact (hterm htype).ownBytesOnly htype hsize (by omega)
    · exact ownBytesOnly_other htype hsize

end Packet

/-- A read buffer with these bytes, and zeros behind them. -/
def received (bytes : List UInt8) (i : ℕ) : UInt8 := bytes.getD i 0

/-- A login of `A` with its terminator, and the next packet behind it. -/
theorem ownBytesOnly_iff_short : OwnBytesOnly (received [5, 3, 0, 65, 0, 3, 1, 0]) 0 5 := by
  have hturn : onReadTurn (received [5, 3, 0, 65, 0, 3, 1, 0]) 0 8 = .process 5 := by decide
  refine (ownBytesOnly_iff hturn (by decide)).mpr fun _ => ?_
  exact ⟨1, by decide, by decide, by decide⟩

/-- A login of `A` without a terminator: the nickname goes on with the next packet. -/
theorem not_ownBytesOnly_unterminated :
    onReadTurn (received [4, 3, 0, 65]) 0 4 = .process 4 ∧
      process (received [4, 3, 0, 65]) 0 = some (.login [65]) ∧
      process (received [4, 3, 0, 65, 66, 67]) 0 = some (.login [65, 66, 67]) ∧
      ¬OwnBytesOnly (received [4, 3, 0, 65]) 0 4 := by
  have hshort : process (received [4, 3, 0, 65]) 0 = some (.login [65]) := by decide
  have hlong : process (received [4, 3, 0, 65, 66, 67]) 0 = some (.login [65, 66, 67]) := by decide
  refine ⟨by decide, hshort, hlong, fun h => ?_⟩
  have hsame := h.same (received [4, 3, 0, 65, 66, 67]) ?_
  · rw [hshort, hlong] at hsame
    exact absurd hsame (by decide)
  · intro i _ hi
    match i with
    | 0 | 1 | 2 | 3 => rfl
    | i + 4 => omega

end BGIocpServer
