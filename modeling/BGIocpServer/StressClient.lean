import BGIocpServer.Kit.Framer
import BGIocpServer.Kit.Region
import BGIocpServer.Kit.Reaches

/-!
# The receive loop of the stress client

The `IO_RECV` branch of the stress client's `WorkerThread` and
`BGDummyClient::ProcessPacket`. The client does not cut packets out of its receive
buffer: it collects each packet in `m_uncomplete_packet` and remembers the size byte
across chunks. Both buffers have `MAX_BUFF_SIZE` bytes, and an access outside of them
is `none`.

The `int`s are integers: a size that leaves the range of an `int` would have left the
buffers before.

## Main definitions

* `SentPacket`: a packet with its header, as the server sends it.
* `DummyClient.receiveLoop`, `DummyClient.receive`: the loop, and one received chunk.
* `clientFramer`: the framing rule the loop follows.
* `ClientView`, `ClientView.told`: what `ProcessPacket` changes, by the type of the packet.
* `Reassembled`: what the first bytes of a sequence of packets must leave behind.
-/

namespace BGIocpServer
open Kit

/-- `MAX_BUFF_SIZE`. -/
def maxBuffSize : ℕ := 4096

/-- `CLIENT_BIT_CONNECT` -/
def clientBitConnect : BitVec 32 := 1

/-- `CLIENT_BIT_LOGIN` -/
def clientBitLogin : BitVec 32 := 2

/-! ## Packets -/

inductive PacketType
  | scPingTest
  | csPingTest
  | scLogin
  | csLogin
  | scPutObject
  | scRemoveObject
  deriving DecidableEq, Repr

namespace PacketType

/-- The value of an enumerator, an `unsigned short`. -/
def value : PacketType → ℕ
  | scPingTest => 0
  | csPingTest => 1
  | scLogin => 2
  | csLogin => 3
  | scPutObject => 4
  | scRemoveObject => 5

/-- The enumerator with the given value, if one is declared. -/
def ofValue : ℕ → Option PacketType
  | 0 => some scPingTest
  | 1 => some csPingTest
  | 2 => some scLogin
  | 3 => some csLogin
  | 4 => some scPutObject
  | 5 => some scRemoveObject
  | _ => none

@[simp] theorem ofValue_value (t : PacketType) : ofValue t.value = some t := by
  cases t <;> rfl

theorem value_lt (t : PacketType) : t.value < 256 := by
  cases t <;> decide

end PacketType

/-- A packet of a declared type: the header, and the members behind it. -/
structure SentPacket where
  type : PacketType
  members : List UInt8
  /-- The size byte can hold the length. -/
  length_le : members.length + 3 ≤ 255

namespace SentPacket

/-- The `size` byte. -/
def size (p : SentPacket) : ℕ := p.members.length + 3

/-- The bytes on the wire: `size`, the 16-bit `type` low byte first, the members. -/
def bytes (p : SentPacket) : List UInt8 :=
  UInt8.ofNat p.size :: UInt8.ofNat p.type.value :: UInt8.ofNat (p.type.value / 256) :: p.members

@[simp] theorem length_bytes (p : SentPacket) : p.bytes.length = p.size := rfl

theorem size_pos (p : SentPacket) : 0 < p.size := Nat.succ_pos _

/-- The size byte is the length. -/
theorem toNat_head (p : SentPacket) : (p.bytes.headD 0).toNat = p.size := by
  have hle := p.length_le
  have hlt : p.size < 256 := by
    simp only [size]
    omega
  simp [bytes, UInt8.toNat_ofNat', Nat.mod_eq_of_lt hlt]

/-- The byte behind the size byte is all of the type that is ever set. -/
theorem ofValue_type (p : SentPacket) :
    PacketType.ofValue (UInt8.ofNat p.type.value).toNat = some p.type := by
  rw [UInt8.toNat_ofNat', Nat.mod_eq_of_lt p.type.value_lt, PacketType.ofValue_value]

end SentPacket

/-- The packets, concatenated in order. -/
def sent (packets : List SentPacket) : List UInt8 := (packets.map SentPacket.bytes).flatten

@[simp] theorem sent_nil : sent [] = [] := rfl

@[simp] theorem sent_cons (p : SentPacket) (packets : List SentPacket) :
    sent (p :: packets) = p.bytes ++ sent packets := rfl

/-- The packets of which all bytes are among the first `n`. -/
def completed : List SentPacket → ℕ → List SentPacket
  | [], _ => []
  | p :: packets, n => if p.size ≤ n then p :: completed packets (n - p.size) else []

/-! ## `BGDummyClient` -/

/-- A line that `ProcessPacket` prints. -/
inductive Line
  | ping
  | loginId (clientId : BitVec 64)
  | putObject (objectId x y : BitVec 32)
  deriving DecidableEq, Repr

/-- A call of `ProcessPacket`: the memory its argument points at, and the type it
dispatches on. -/
structure ProcessCall where
  packet : ℕ → UInt8
  type : Option PacketType

/-- The client, with a record of the calls of `ProcessPacket` and of its output. -/
structure DummyClient where
  nBit : BitVec 32
  /-- `m_sId` -/
  sId : BitVec 32
  objectId : BitVec 32
  /-- `real_recv_buf`, by offset. -/
  realRecvBuf : ℕ → UInt8
  /-- `m_uncomplete_packet`, by offset. -/
  uncompletePacket : ℕ → UInt8
  currentPacketSize : ℤ
  uncompleteSize : ℤ
  calls : List ProcessCall
  lines : List Line

/-- Four bytes, low byte first. -/
def dwordAt (packet : ℕ → UInt8) (off : ℕ) : BitVec 32 :=
  (packet (off + 3)).toBitVec ++ (packet (off + 2)).toBitVec ++ (packet (off + 1)).toBitVec ++
    (packet off).toBitVec

/-- `memcpy` between two buffers of `MAX_BUFF_SIZE` bytes. A negative length is a huge
`size_t`. -/
def memcpy (dst : ℕ → UInt8) (dstOff : ℤ) (src : ℕ → UInt8) (srcOff n : ℤ) :
    Option (ℕ → UInt8) :=
  if 0 ≤ dstOff ∧ 0 ≤ srcOff ∧ 0 ≤ n ∧ dstOff + n ≤ maxBuffSize ∧ srcOff + n ≤ maxBuffSize then
    some (store dst dstOff.toNat (load src srcOff.toNat n.toNat))
  else none

theorem memcpy_eq (dst src : ℕ → UInt8) {dstOff srcOff n : ℕ} (hdst : dstOff + n ≤ maxBuffSize)
    (hsrc : srcOff + n ≤ maxBuffSize) :
    memcpy dst dstOff src srcOff n = some (store dst dstOff (load src srcOff n)) := by
  rw [memcpy, if_pos (by omega)]
  simp

namespace DummyClient

/-- A new client, its memory taken to be zeroed. -/
def blank : DummyClient := ⟨0, 0, 0, fun _ => 0, fun _ => 0, 0, 0, [], []⟩

/-- `ProcessPacket(packet)`, `packet` being `m_uncomplete_packet`. It reads one byte
of the type. -/
def processPacket (c : DummyClient) : DummyClient :=
  let packet := c.uncompletePacket
  let packetType := PacketType.ofValue (packet 1).toNat
  let c := { c with calls := c.calls ++ [⟨packet, packetType⟩] }
  match packetType with
  | some .scPingTest => { c with lines := c.lines ++ [.ping] }
  | some .scLogin =>
      { c with
        -- `client_id` is an `__int64`, `m_sId` an `int`
        sId := dwordAt packet 3
        objectId := dwordAt packet 15
        nBit := c.nBit ||| clientBitLogin
        lines := c.lines ++ [.loginId (dwordAt packet 7 ++ dwordAt packet 3)] }
  | some .scPutObject =>
      { c with
        lines := c.lines ++ [.putObject (dwordAt packet 4) (dwordAt packet 8)
          (dwordAt packet 12)] }
  | some .scRemoveObject => c
  | _ => c

@[simp] theorem calls_processPacket (c : DummyClient) :
    c.processPacket.calls =
      c.calls ++ [⟨c.uncompletePacket, PacketType.ofValue (c.uncompletePacket 1).toNat⟩] := by
  simp only [processPacket]
  split <;> rfl

@[simp] theorem realRecvBuf_processPacket (c : DummyClient) :
    c.processPacket.realRecvBuf = c.realRecvBuf := by
  simp only [processPacket]
  split <;> rfl

/-- `buf[0]`, `buf` pointing into `real_recv_buf`. -/
def recvByte (c : DummyClient) (buf : ℤ) : Option UInt8 :=
  if 0 ≤ buf ∧ buf < maxBuffSize then some (c.realRecvBuf buf.toNat) else none

/-- The first statement of the loop: the size of the packet being received. -/
def packetSize (c : DummyClient) (buf : ℤ) : Option ℤ :=
  if c.currentPacketSize = 0 then (c.recvByte buf).map fun size => (size.toNat : ℤ)
  else some c.currentPacketSize

/-- One turn of the loop: the client, `buf` and `remained_io_data_size` after it. -/
def receiveTurn (c : DummyClient) (buf remainedIo : ℤ) : Option (DummyClient × ℤ × ℤ) := do
  let size ← c.packetSize buf
  let remainedPacket := size - c.uncompleteSize
  if remainedPacket ≤ remainedIo then
    let packet ← memcpy c.uncompletePacket c.uncompleteSize c.realRecvBuf buf remainedPacket
    let c := { c with uncompletePacket := packet, currentPacketSize := size }.processPacket
    some ({ c with uncompleteSize := 0, currentPacketSize := 0 }, buf + remainedPacket,
      remainedIo - remainedPacket)
  else
    let packet ← memcpy c.uncompletePacket c.uncompleteSize c.realRecvBuf buf remainedIo
    some ({ c with
      uncompletePacket := packet
      currentPacketSize := size
      uncompleteSize := c.uncompleteSize + remainedIo }, buf, 0)

/-- The loop, for fewer than `fuel` turns; `none` also if it has not ended by then. -/
def receiveLoop : ℕ → DummyClient → ℤ → ℤ → Option DummyClient
  | 0, _, _, _ => none
  | fuel + 1, c, buf, remainedIo =>
      if remainedIo > 0 then do
        let (c, buf, remainedIo) ← c.receiveTurn buf remainedIo
        receiveLoop fuel c buf remainedIo
      else some c

/-- One completed `WSARecv` of one or more bytes: they are in `real_recv_buf`, and the loop
runs over them. A zero byte in the place of a size byte would keep it turning. -/
def receive (c : DummyClient) (chunk : List UInt8) : Option DummyClient :=
  receiveLoop (chunk.length + 1) { c with realRecvBuf := store c.realRecvBuf 0 chunk } 0
    chunk.length

/-- The completions of a connection, one after the other. -/
def receiveAll (c : DummyClient) : List (List UInt8) → Option DummyClient
  | [] => some c
  | chunk :: chunks => (c.receive chunk).bind fun c => c.receiveAll chunks

/-- `ConnectThread`, once `Connect` has succeeded: nothing has been received. -/
def connectThread (c : DummyClient) : DummyClient :=
  { c with
    nBit := c.nBit ||| clientBitConnect
    uncompleteSize := 0
    currentPacketSize := 0
    calls := []
    lines := [] }

end DummyClient

/-! ## The framing rule of the loop -/

/-- The first byte is the length of the packet, whatever it is. -/
def sizeCut (xs : List UInt8) : Verdict :=
  if xs.length = 0 then .wait
  else if (xs.headD 0).toNat = 0 then .reject
  else if (xs.headD 0).toNat ≤ xs.length then .accept (xs.headD 0).toNat
  else .wait

theorem headD_append {xs : List UInt8} (ys : List UInt8) (h : xs.length ≠ 0) :
    (xs ++ ys).headD 0 = xs.headD 0 := by
  cases xs with
  | nil => exact absurd rfl h
  | cons x xs => rfl

section sizeCut
variable {xs : List UInt8} {n : ℕ}

theorem sizeCut_pos (h : sizeCut xs = .accept n) : 0 < n := by
  simp only [sizeCut] at h
  split_ifs at h with hnil hzero
  rw [Verdict.accept.injEq] at h
  omega

theorem sizeCut_le (h : sizeCut xs = .accept n) : n ≤ xs.length := by
  simp only [sizeCut] at h
  split_ifs at h
  rw [Verdict.accept.injEq] at h
  omega

theorem sizeCut_append (ys : List UInt8) (h : sizeCut xs = .accept n) :
    sizeCut (xs ++ ys) = .accept n := by
  simp only [sizeCut] at h ⊢
  split_ifs at h with hnil hzero hfit
  rw [headD_append ys hnil, List.length_append, if_neg (by omega), if_neg hzero,
    if_pos (by omega)]
  exact h

theorem sizeCut_reject_append (ys : List UInt8) (h : sizeCut xs = .reject) :
    sizeCut (xs ++ ys) = .reject := by
  simp only [sizeCut] at h ⊢
  split_ifs at h with hnil hzero
  rw [headD_append ys hnil, List.length_append, if_neg (by omega), if_pos hzero]

end sizeCut

/-- The framing rule the client follows. -/
def clientFramer : Framer UInt8 where
  cut := sizeCut
  accept_pos := sizeCut_pos
  accept_le := sizeCut_le
  accept_append := sizeCut_append
  reject_append := sizeCut_reject_append

/-- A size byte that waits is larger than what is at hand. -/
theorem lt_head_of_wait {xs : List UInt8} (hcut : clientFramer.cut xs = .wait)
    (hne : xs.length ≠ 0) : xs.length < (xs.headD 0).toNat := by
  have hwait : sizeCut xs = .wait := hcut
  simp only [sizeCut, if_neg hne] at hwait
  split_ifs at hwait with hzero hfit
  omega

/-- A packet is as long as its size byte says. -/
theorem head_of_accept {xs : List UInt8} {n : ℕ} (hcut : clientFramer.cut xs = .accept n) :
    (xs.headD 0).toNat = n := by
  have haccept : sizeCut xs = .accept n := hcut
  simp only [sizeCut] at haccept
  split_ifs at haccept
  exact Verdict.accept.inj haccept

/-- The argument of a call starts with the bytes `xs`, and the call dispatches on the type
byte found there. -/
def ProcessCall.Of (call : ProcessCall) (xs : List UInt8) : Prop :=
  load call.packet 0 xs.length = xs ∧ call.type = PacketType.ofValue (call.packet 1).toNat

namespace DummyClient

/-- The client has collected the bytes `held` of a packet that is not complete. -/
structure Holding (c : DummyClient) (held : List UInt8) : Prop where
  size : c.uncompleteSize = held.length
  bytes : load c.uncompletePacket 0 held.length = held
  current : c.currentPacketSize = (held.headD 0).toNat
  wait : clientFramer.cut held = .wait

/-- A client between two packets. -/
theorem holding_nil {c : DummyClient} (hsize : c.uncompleteSize = 0)
    (hcurrent : c.currentPacketSize = 0) : c.Holding [] :=
  ⟨hsize, rfl, hcurrent, rfl⟩

namespace Holding
variable {c : DummyClient} {held : List UInt8} {buf remainedIo n : ℕ}

/-- Whether the size byte is among the bytes held or is the first of the chunk, it is the
first byte of both together. -/
theorem packetSize_eq (h : c.Holding held) (hbuf : buf + remainedIo ≤ maxBuffSize)
    (hpos : 0 < remainedIo) :
    c.packetSize buf =
      some (((held ++ load c.realRecvBuf buf remainedIo).headD 0).toNat : ℤ) := by
  by_cases hnil : held.length = 0
  · obtain rfl := List.length_eq_zero_iff.mp hnil
    obtain ⟨k, rfl⟩ : ∃ k, remainedIo = k + 1 := ⟨remainedIo - 1, by omega⟩
    have hin : (0 : ℤ) ≤ buf ∧ (buf : ℤ) < maxBuffSize := by omega
    have hzero : c.currentPacketSize = 0 := h.current
    rw [packetSize, if_pos hzero, recvByte, if_pos hin, load_succ]
    rfl
  · have hcur := h.current
    have hlt := lt_head_of_wait h.wait hnil
    rw [packetSize, if_neg (by omega), headD_append _ hnil, hcur]

/-- The packet stays incomplete: the chunk is used up. -/
theorem turn_wait (h : c.Holding held) (hbuf : buf + remainedIo ≤ maxBuffSize)
    (hpos : 0 < remainedIo)
    (hcut : clientFramer.cut (held ++ load c.realRecvBuf buf remainedIo) = .wait) :
    ∃ c' : DummyClient, c.receiveTurn buf remainedIo = some (c', (buf : ℤ), 0) ∧
      c'.Holding (held ++ load c.realRecvBuf buf remainedIo) ∧ c'.calls = c.calls := by
  set data := load c.realRecvBuf buf remainedIo with hdata
  have hlen : (held ++ data).length = held.length + remainedIo := by simp [hdata]
  have hlong : held.length + remainedIo < ((held ++ data).headD 0).toNat := by
    have := lt_head_of_wait hcut (by omega)
    omega
  have hbyte : ((held ++ data).headD 0).toNat < 256 := UInt8.toNat_lt _
  have hroom : held.length + remainedIo ≤ maxBuffSize := by
    simp only [maxBuffSize]
    omega
  have hcopy := memcpy_eq c.uncompletePacket c.realRecvBuf hroom hbuf
  have hsize := h.size
  have hfirst := h.packetSize_eq hbuf hpos
  rw [← hdata] at hfirst hcopy
  have hturn : c.receiveTurn buf remainedIo = some ({ c with
      uncompletePacket := store c.uncompletePacket held.length data
      currentPacketSize := ((held ++ data).headD 0).toNat
      uncompleteSize := c.uncompleteSize + remainedIo }, (buf : ℤ), 0) := by
    simp only [receiveTurn, hfirst, Option.bind_eq_bind, Option.bind_some]
    rw [if_neg (by omega), hsize, hcopy, Option.bind_some]
  have happend := load_store_append c.uncompletePacket held.length data
  rw [h.bytes] at happend
  refine ⟨_, hturn, ⟨?_, ?_, rfl, hcut⟩, rfl⟩
  · change c.uncompleteSize + remainedIo = _
    omega
  · rw [List.length_append]
    exact happend

/-- The packet is complete: it is handed over, and the client holds nothing. -/
theorem turn_accept (h : c.Holding held) (hbuf : buf + remainedIo ≤ maxBuffSize)
    (hpos : 0 < remainedIo)
    (hcut : clientFramer.cut (held ++ load c.realRecvBuf buf remainedIo) = .accept n) :
    ∃ (c' : DummyClient) (call : ProcessCall) (k : ℕ),
      n = held.length + k ∧ 0 < k ∧ k ≤ remainedIo ∧
      c.receiveTurn buf remainedIo = some (c', ((buf + k : ℕ) : ℤ), ((remainedIo - k : ℕ) : ℤ)) ∧
      c'.Holding [] ∧ c'.realRecvBuf = c.realRecvBuf ∧ c'.calls = c.calls ++ [call] ∧
      call.Of (held ++ load c.realRecvBuf buf k) := by
  have hfirst := h.packetSize_eq hbuf hpos
  rw [head_of_accept hcut] at hfirst
  have hbyte := head_of_accept hcut ▸ UInt8.toNat_lt _
  have hle := clientFramer.accept_le hcut
  rw [List.length_append, length_load] at hle
  have hlt : held.length < n := by
    by_cases hnil : held.length = 0
    · have := clientFramer.accept_pos hcut
      omega
    · have hlong := lt_head_of_wait h.wait hnil
      rw [← headD_append (load c.realRecvBuf buf remainedIo) hnil, head_of_accept hcut] at hlong
      exact hlong
  obtain ⟨k, rfl⟩ : ∃ k, n = held.length + k := ⟨n - held.length, by omega⟩
  have hroom : held.length + k ≤ maxBuffSize := by
    simp only [maxBuffSize]
    omega
  have hfits : buf + k ≤ maxBuffSize := by omega
  have hcopy := memcpy_eq c.uncompletePacket c.realRecvBuf hroom hfits
  have hsize := h.size
  have hrest : ((held.length + k : ℕ) : ℤ) - c.uncompleteSize = k := by omega
  have hnext : (buf : ℤ) + k = (buf + k : ℕ) := by omega
  have hleft : (remainedIo : ℤ) - k = (remainedIo - k : ℕ) := by omega
  have hturn : c.receiveTurn buf remainedIo = some
      ({ { c with
          uncompletePacket := store c.uncompletePacket held.length (load c.realRecvBuf buf k)
          currentPacketSize := (held.length + k : ℕ) }.processPacket with
        uncompleteSize := 0
        currentPacketSize := 0 }, ((buf + k : ℕ) : ℤ), ((remainedIo - k : ℕ) : ℤ)) := by
    simp only [receiveTurn, hfirst, Option.bind_eq_bind, Option.bind_some, hrest]
    rw [if_pos (by omega), hsize, hcopy, Option.bind_some, ← hnext, ← hleft]
  have happend := load_store_append c.uncompletePacket held.length (load c.realRecvBuf buf k)
  rw [h.bytes] at happend
  refine ⟨_, _, k, rfl, by omega, by omega, hturn, holding_nil rfl rfl,
    realRecvBuf_processPacket _, calls_processPacket _, ?_, rfl⟩
  rw [List.length_append]
  exact happend

end Holding

/-- The client `c` has become `c'` over the bytes `xs`: the packets of their framing have
been handed over, and the rest is held. -/
structure Follows (c c' : DummyClient) (xs : List UInt8) : Prop where
  calls : ∃ new, c'.calls = c.calls ++ new ∧
    List.Forall₂ ProcessCall.Of new (clientFramer.parse xs).packets
  holding : ∃ held, (clientFramer.parse xs).rest = some held ∧ c'.Holding held

/-- The loop frames what was held together with what is left of the chunk. -/
theorem receiveLoop_follows : ∀ (fuel : ℕ) {c : DummyClient} {held : List UInt8}
    {buf remainedIo : ℕ}, remainedIo < fuel → c.Holding held → buf + remainedIo ≤ maxBuffSize →
    (clientFramer.parse (held ++ load c.realRecvBuf buf remainedIo)).rest ≠ none →
    ∃ c', receiveLoop fuel c buf remainedIo = some c' ∧
      c.Follows c' (held ++ load c.realRecvBuf buf remainedIo) := by
  intro fuel
  induction fuel with
  | zero => intro c held buf remainedIo hfuel; omega
  | succ fuel ih =>
      intro c held buf remainedIo hfuel h hbuf hrest
      by_cases hpos : 0 < remainedIo
      · have hloop : (remainedIo : ℤ) > 0 := by omega
        simp only [receiveLoop, if_pos hloop, Option.bind_eq_bind]
        cases hcut : clientFramer.cut (held ++ load c.realRecvBuf buf remainedIo) with
        | wait =>
            obtain ⟨c', hturn, hheld, hcalls⟩ := h.turn_wait hbuf hpos hcut
            have hdone : receiveLoop fuel c' buf (0 : ℕ) = some c' := by
              obtain ⟨k, rfl⟩ : ∃ k, fuel = k + 1 := ⟨fuel - 1, by omega⟩
              rfl
            refine ⟨c', ?_, ⟨[], ?_, ?_⟩, _, ?_, hheld⟩
            · rw [hturn, Option.bind_some]
              exact hdone
            · rw [hcalls, List.append_nil]
            · rw [Framer.parse_wait hcut]
              exact List.Forall₂.nil
            · rw [Framer.parse_wait hcut]
        | reject => exact absurd (congrArg Parsed.rest (Framer.parse_reject hcut)) hrest
        | accept n =>
            obtain ⟨c₁, call, k, rfl, hk, hle, hturn, hnil, hrecv, hcalls, hcall⟩ :=
              h.turn_accept hbuf hpos hcut
            have hsplit : held ++ load c.realRecvBuf buf remainedIo =
                (held ++ load c.realRecvBuf buf k) ++
                  load c.realRecvBuf (buf + k) (remainedIo - k) := by
              rw [List.append_assoc, ← load_add, Nat.add_sub_cancel' hle]
            have hlen : (held ++ load c.realRecvBuf buf k).length = held.length + k := by simp
            have hparse := Framer.parse_accept hcut
            rw [hsplit, List.take_left' hlen, List.drop_left' hlen] at hparse
            rw [hsplit, hparse] at hrest
            rw [← hrecv, ← List.nil_append (load _ _ _)] at hrest
            obtain ⟨c', hrun, ⟨new, hnew, hall⟩, hheld⟩ :=
              ih (by omega) hnil (by omega) hrest
            rw [List.nil_append, hrecv] at hall hheld
            refine ⟨c', ?_, ⟨call :: new, ?_, ?_⟩, ?_⟩
            · rw [hturn, Option.bind_some]
              exact hrun
            · rw [hnew, hcalls, List.append_assoc, List.singleton_append]
            · rw [hsplit, hparse]
              exact List.Forall₂.cons hcall hall
            · rw [hsplit, hparse]
              exact hheld
      · have hzero : remainedIo = 0 := by omega
        subst hzero
        rw [load_zero, List.append_nil]
        exact ⟨c, rfl, ⟨[], by simp, by simp [Framer.parse_wait h.wait]⟩, held,
          by rw [Framer.parse_wait h.wait], h⟩

/-- One more chunk, after the bytes `xs`. -/
theorem Follows.receive {c c₁ : DummyClient} {xs chunk : List UInt8} (h : c.Follows c₁ xs)
    (hle : chunk.length ≤ maxBuffSize) (hrest : (clientFramer.parse (xs ++ chunk)).rest ≠ none) :
    ∃ c', c₁.receive chunk = some c' ∧ c.Follows c' (xs ++ chunk) := by
  obtain ⟨⟨new, hnew, hall⟩, held, hheld, hholding⟩ := h
  have hparse : clientFramer.parse (xs ++ chunk) =
      ⟨(clientFramer.parse xs).packets ++ (clientFramer.parse (held ++ chunk)).packets,
        (clientFramer.parse (held ++ chunk)).rest⟩ := by
    rw [Framer.parse_append, Framer.feed, hheld]
  have hload : load (store c₁.realRecvBuf 0 chunk) 0 chunk.length = chunk :=
    load_store c₁.realRecvBuf 0 chunk
  have hstored : { c₁ with realRecvBuf := store c₁.realRecvBuf 0 chunk }.Holding held :=
    ⟨hholding.size, hholding.bytes, hholding.current, hholding.wait⟩
  have hloop := receiveLoop_follows (chunk.length + 1) (Nat.lt_succ_self _) hstored
    (Nat.zero_add chunk.length ▸ hle)
  rw [hload] at hloop
  rw [hparse] at hrest
  obtain ⟨c', hrun, ⟨more, hmore, hothers⟩, hheld'⟩ := hloop hrest
  refine ⟨c', hrun, ⟨new ++ more, ?_, ?_⟩, ?_⟩
  · rw [hmore, ← List.append_assoc, ← hnew]
  · rw [hparse]
    exact List.rel_append hall hothers
  · rw [hparse]
    exact hheld'

/-- All chunks, one after the other. -/
theorem Follows.receiveAll {c : DummyClient} (chunks : List (List UInt8)) {c₁ : DummyClient}
    {xs : List UInt8} (h : c.Follows c₁ xs)
    (hle : ∀ chunk ∈ chunks, chunk.length ≤ maxBuffSize)
    (hrest : (clientFramer.parse (xs ++ chunks.flatten)).rest ≠ none) :
    ∃ c', c₁.receiveAll chunks = some c' ∧ c.Follows c' (xs ++ chunks.flatten) := by
  induction chunks generalizing c₁ xs with
  | nil =>
      rw [List.flatten_nil, List.append_nil]
      exact ⟨c₁, rfl, h⟩
  | cons chunk chunks ih =>
      rw [List.flatten_cons, ← List.append_assoc] at hrest ⊢
      have hfirst : (clientFramer.parse (xs ++ chunk)).rest ≠ none := by
        intro hnone
        rw [Framer.parse_append, Framer.feed, hnone] at hrest
        exact hrest hnone
      obtain ⟨c₂, hreceive, hfollows⟩ := h.receive (hle _ List.mem_cons_self) hfirst
      obtain ⟨c', hrun, hdone⟩ :=
        ih hfollows (fun x hx => hle x (List.mem_cons_of_mem _ hx)) hrest
      refine ⟨c', ?_, hdone⟩
      rw [DummyClient.receiveAll, hreceive, Option.bind_some, hrun]

end DummyClient

/-! ## What the calls do -/

/-- What `ProcessPacket` changes. -/
structure ClientView where
  nBit : BitVec 32
  sId : BitVec 32
  objectId : BitVec 32
  lines : List Line
  deriving DecidableEq

/-- The fields of a client. -/
def DummyClient.view (c : DummyClient) : ClientView := ⟨c.nBit, c.sId, c.objectId, c.lines⟩

/-- The effect of a call of `ProcessPacket`, by the memory that it is given. -/
def ClientView.told (v : ClientView) (call : ProcessCall) : ClientView :=
  match call.type with
  | some .scPingTest => { v with lines := v.lines ++ [.ping] }
  | some .scLogin =>
      { nBit := v.nBit ||| clientBitLogin
        sId := dwordAt call.packet 3
        objectId := dwordAt call.packet 15
        lines := v.lines ++ [.loginId (dwordAt call.packet 7 ++ dwordAt call.packet 3)] }
  | some .scPutObject =>
      { v with lines := v.lines ++ [.putObject (dwordAt call.packet 4) (dwordAt call.packet 8)
        (dwordAt call.packet 12)] }
  | _ => v

namespace DummyClient
variable {v : ClientView} {c c' : DummyClient} {buf remainedIo buf' remainedIo' : ℤ}

/-- The client's fields are what its calls of `ProcessPacket` have made of `v`. -/
def Told (v : ClientView) (c : DummyClient) : Prop := c.view = c.calls.foldl ClientView.told v

/-- A call of `ProcessPacket` on fields that were right. -/
theorem Told.processPacket (h : Told v c) : Told v c.processPacket := by
  have hview : c.processPacket.view =
      c.view.told ⟨c.uncompletePacket, PacketType.ofValue (c.uncompletePacket 1).toNat⟩ := by
    simp only [DummyClient.processPacket, ClientView.told, view]
    cases PacketType.ofValue (c.uncompletePacket 1).toNat with
    | none => rfl
    | some type => cases type <;> rfl
  rw [Told, calls_processPacket, List.foldl_append, ← h]
  exact hview

/-- A turn calls `ProcessPacket` or leaves the fields. -/
theorem Told.receiveTurn (h : Told v c)
    (hturn : c.receiveTurn buf remainedIo = some (c', buf', remainedIo')) : Told v c' := by
  simp only [DummyClient.receiveTurn, Option.bind_eq_bind, Option.bind_eq_some_iff] at hturn
  obtain ⟨size, -, hturn⟩ := hturn
  split at hturn
  · rw [Option.bind_eq_some_iff] at hturn
    obtain ⟨packet, -, hturn⟩ := hturn
    rw [Option.some.injEq, Prod.mk.injEq] at hturn
    obtain ⟨rfl, -⟩ := hturn
    have hstored : Told v { c with uncompletePacket := packet, currentPacketSize := size } := h
    exact hstored.processPacket
  · rw [Option.bind_eq_some_iff] at hturn
    obtain ⟨packet, -, hturn⟩ := hturn
    rw [Option.some.injEq, Prod.mk.injEq] at hturn
    obtain ⟨rfl, -⟩ := hturn
    exact h

theorem Told.receiveLoop {fuel : ℕ} (h : Told v c)
    (hrun : receiveLoop fuel c buf remainedIo = some c') : Told v c' := by
  induction fuel generalizing c buf remainedIo with
  | zero => cases hrun
  | succ fuel ih =>
      rw [DummyClient.receiveLoop] at hrun
      split at hrun
      · rw [Option.bind_eq_bind, Option.bind_eq_some_iff] at hrun
        obtain ⟨⟨d, buf', remainedIo'⟩, hturn, hrun⟩ := hrun
        exact ih (h.receiveTurn hturn) hrun
      · exact Option.some.inj hrun ▸ h

theorem Told.receiveAll {chunks : List (List UInt8)} (h : Told v c)
    (hrun : c.receiveAll chunks = some c') : Told v c' := by
  induction chunks generalizing c with
  | nil => exact Option.some.inj hrun ▸ h
  | cons chunk chunks ih =>
      rw [DummyClient.receiveAll, Option.bind_eq_some_iff] at hrun
      obtain ⟨d, hreceive, hrun⟩ := hrun
      have hstored : Told v { c with realRecvBuf := store c.realRecvBuf 0 chunk } := h
      exact ih (hstored.receiveLoop hreceive) hrun

end DummyClient

/-! ## What was sent -/

/-- A packet at the front of the stream is cut off it. -/
theorem cut_bytes (p : SentPacket) (xs : List UInt8) :
    clientFramer.cut (p.bytes ++ xs) = .accept p.size := by
  have hpos := p.size_pos
  have hcut : clientFramer.cut p.bytes = .accept p.size := by
    change sizeCut p.bytes = _
    rw [sizeCut, p.toNat_head, p.length_bytes, if_neg (by omega), if_neg (by omega),
      if_pos (Nat.le_refl _)]
  exact clientFramer.accept_append xs hcut

/-- The beginning of a packet waits for the rest of it. -/
theorem cut_take (p : SentPacket) {n : ℕ} (hn : n < p.size) :
    clientFramer.cut (p.bytes.take n) = .wait := by
  change sizeCut _ = _
  have hlen : (p.bytes.take n).length = n := by
    rw [List.length_take, p.length_bytes]
    omega
  rw [sizeCut, hlen]
  split_ifs with hzero hhead hfit
  · rfl
  all_goals
    obtain ⟨k, rfl⟩ : ∃ k, n = k + 1 := ⟨n - 1, by omega⟩
    have hhead : ((p.bytes.take (k + 1)).headD 0).toNat = p.size := p.toNat_head
  · omega
  · omega
  · rfl

theorem parse_nil : clientFramer.parse [] = ⟨[], some []⟩ := Framer.parse_wait rfl

/-- Nothing of a packet is held after `Connect`. -/
theorem DummyClient.follows_connectThread (c : DummyClient) :
    c.connectThread.Follows c.connectThread [] := by
  refine ⟨⟨[], rfl, ?_⟩, [], ?_, holding_nil rfl rfl⟩
  · rw [parse_nil]
    exact List.Forall₂.nil
  · rw [parse_nil]

/-- The framing of the first `n` bytes sent: the packets completed, and what there is of the
next one. -/
theorem parse_take_sent (packets : List SentPacket) (n : ℕ) :
    clientFramer.parse ((sent packets).take n) =
      ⟨(completed packets n).map SentPacket.bytes,
        some (((sent packets).take n).drop (sent (completed packets n)).length)⟩ := by
  induction packets generalizing n with
  | nil =>
      rw [sent_nil, List.take_nil, parse_nil]
      rfl
  | cons p packets ih =>
      by_cases hfit : p.size ≤ n
      · have htake : (sent (p :: packets)).take n =
            p.bytes ++ (sent packets).take (n - p.size) := by
          rw [sent_cons, List.take_append, List.take_of_length_le (by simpa using hfit),
            p.length_bytes]
        rw [htake, Framer.parse_accept (cut_bytes p _), ← p.length_bytes, List.take_left,
          List.drop_left, ih, completed, if_pos hfit, List.map_cons, sent_cons,
          p.length_bytes, List.length_append, ← List.drop_drop, List.drop_left]
      · have htake : (sent (p :: packets)).take n = p.bytes.take n := by
          rw [sent_cons, List.take_append_of_le_length (by rw [p.length_bytes]; omega)]
        rw [htake, Framer.parse_wait (cut_take p (by omega)), completed, if_neg hfit]
        rfl

/-- All bytes have arrived: all packets are complete. -/
theorem completed_sent (packets : List SentPacket) :
    completed packets (sent packets).length = packets := by
  induction packets with
  | nil => rfl
  | cons p packets ih =>
      rw [sent_cons, List.length_append, p.length_bytes, completed,
        if_pos (Nat.le_add_right _ _), Nat.add_sub_cancel_left, ih]

/-- The call of `ProcessPacket` has the packet's bytes at the start of `m_uncomplete_packet`
and dispatches on its type. -/
def Receives (call : ProcessCall) (p : SentPacket) : Prop :=
  load call.packet 0 p.size = p.bytes ∧ call.type = some p.type

/-- What the first `n` bytes of the packets must leave behind: one call of `ProcessPacket`
for each packet completed, in order, each of which has done what its type calls for to the
fields `v`, and what there is of the next packet, its length in `m_uncomplete_size`. -/
structure Reassembled (packets : List SentPacket) (n : ℕ) (v : ClientView) (c : DummyClient) :
    Prop where
  calls : List.Forall₂ Receives c.calls (completed packets n)
  view : c.view = c.calls.foldl ClientView.told v
  size : c.uncompleteSize = n - (sent (completed packets n)).length
  held : load c.uncompletePacket 0 c.uncompleteSize.toNat =
    ((sent packets).take n).drop (sent (completed packets n)).length

/-- The call a packet's bytes lead to. -/
theorem ProcessCall.Of.receives {call : ProcessCall} {p : SentPacket} (h : call.Of p.bytes) :
    Receives call p := by
  obtain ⟨hload, htype⟩ := h
  rw [p.length_bytes] at hload
  have hbyte : call.packet 1 = UInt8.ofNat p.type.value := by
    have hget := congrArg (fun xs : List UInt8 => xs.getD 1 0) hload
    have hone : 1 < p.size := by
      simp only [SentPacket.size]
      omega
    simpa [load, hone, SentPacket.bytes] using hget
  exact ⟨hload, by rw [htype, hbyte, p.ofValue_type]⟩

/-- The packets completed are among those sent, from the first on. -/
theorem length_sent_completed (packets : List SentPacket) (n : ℕ) :
    (sent (completed packets n)).length ≤ n := by
  induction packets generalizing n with
  | nil => exact Nat.zero_le _
  | cons p packets ih =>
      rw [completed]
      split_ifs with hfit
      · have := ih (n - p.size)
        rw [sent_cons, List.length_append, p.length_bytes]
        omega
      · exact Nat.zero_le _

/-- **The stress client reassembles what was sent.** However the packets are cut into
chunks, the receive loop ends on each of them without leaving the two buffers, and has then
handed over the packets completed so far, each to the branch of its type. -/
theorem receiveAll_reassembled (c : DummyClient) (packets : List SentPacket)
    (chunks : List (List UInt8))
    (hchunks : ∀ chunk ∈ chunks, 1 ≤ chunk.length ∧ chunk.length ≤ maxBuffSize)
    (hstream : chunks.flatten <+: sent packets) :
    ∃ c', c.connectThread.receiveAll chunks = some c' ∧
      Reassembled packets chunks.flatten.length c.connectThread.view c' ∧
      (chunks.flatten = sent packets →
        List.Forall₂ Receives c'.calls packets ∧ c'.uncompleteSize = 0) := by
  have hstart := c.follows_connectThread
  have hparse := parse_take_sent packets chunks.flatten.length
  rw [← List.prefix_iff_eq_take.mp hstream] at hparse
  have hrest : (clientFramer.parse ([] ++ chunks.flatten)).rest ≠ none := by
    rw [List.nil_append, hparse]
    simp
  obtain ⟨c', hrun, ⟨new, hnew, hall⟩, held, hheld, hholding⟩ :=
    hstart.receiveAll chunks (fun chunk hmem => (hchunks chunk hmem).2) hrest
  rw [List.nil_append, hparse] at hall hheld
  have hcalls : List.Forall₂ Receives c'.calls (completed packets chunks.flatten.length) := by
    rw [hnew]
    exact (List.forall₂_map_right_iff.mp hall).imp fun _ _ h => h.receives
  have hlen : held.length = chunks.flatten.length -
      (sent (completed packets chunks.flatten.length)).length := by
    rw [← Option.some.inj hheld, List.length_drop]
  have hle := length_sent_completed packets chunks.flatten.length
  have hsize := hholding.size
  have htold : DummyClient.Told c.connectThread.view c.connectThread := rfl
  refine ⟨c', hrun, ⟨hcalls, htold.receiveAll hrun, by omega, ?_⟩, ?_⟩
  · rw [hsize, Int.toNat_natCast, hholding.bytes, ← List.prefix_iff_eq_take.mp hstream]
    exact (Option.some.inj hheld).symm
  · intro heq
    have hcompleted : completed packets chunks.flatten.length = packets := by
      rw [heq, completed_sent]
    rw [hcompleted] at hcalls hlen
    refine ⟨hcalls, ?_⟩
    rw [heq] at hlen
    omega

/-- A ping and the removal of an object: the first chunk ends behind a size byte, the last in
the middle of a packet. -/
theorem receiveAll_reassembled_split : ∃ c',
    DummyClient.blank.connectThread.receiveAll [[3], [0, 0, 7, 5], [0, 1]] = some c' ∧
      c'.uncompleteSize = 4 ∧ c'.calls.map (·.type) = [some .scPingTest] ∧
      c'.lines = [.ping] := by
  obtain ⟨c', hrun, h, -⟩ := receiveAll_reassembled .blank
    [⟨.scPingTest, [], by decide⟩, ⟨.scRemoveObject, [1, 0, 0, 0], by decide⟩]
    [[3], [0, 0, 7, 5], [0, 1]] (by decide) (by decide)
  refine ⟨c', hrun, h.size, ?_⟩
  obtain ⟨call, hcall, hone⟩ : ∃ call, Receives call ⟨.scPingTest, [], by decide⟩ ∧
      c'.calls = [call] := by
    cases hcalls : c'.calls with
    | nil => exact absurd (hcalls ▸ h.calls) (by intro hnone; cases hnone)
    | cons call calls =>
        cases hcalls ▸ h.calls with
        | cons hcall hrest =>
            cases hrest
            exact ⟨call, hcall, rfl⟩
  have hview := h.view
  rw [hone, List.foldl_cons, List.foldl_nil, ClientView.told, hcall.2] at hview
  refine ⟨?_, congrArg ClientView.lines hview⟩
  rw [hone, List.map_cons, hcall.2]
  rfl

end BGIocpServer
