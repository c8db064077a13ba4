import BGIocpServer.Kit.Layout
import BGIocpServer.LoginOn
import BGIocpServer.Process

/-!
# The packets

The structures of the protocol header as records without padding, in both directions. A
packet says its own size and type; `WellFormed` ones say those of their structure, and all
that the two programs build are (`sent_loadComplete`, `wellFormed_connectPacket`).

## Main definitions

* `ServerPacket`, `ClientPacket`: the packets of either direction, with their bytes.
* `ServerPacket.toSent`: a packet as the stress client's receive loop sees it.

## Main results

* `process_clientPacket`: the server reads what the client has written.
* `nickName_connectPacket`: what it reads of the packet that `Connect` sends.
-/

namespace BGIocpServer
open Kit

/-- The members in front of every packet. -/
def packetHeader (size : ℕ) (type : PacketType) : List Member := [⟨1, size⟩, ⟨2, type.value⟩]

/-! ## From the server -/

/-- `sc_packet_ping_test` -/
structure ScPacketPingTest where
  size : ℕ
  type : PacketType
  deriving DecidableEq, Repr

/-- `sc_packet_remove_object` -/
structure ScPacketRemoveObject where
  size : ℕ
  type : PacketType
  objectId : ℤ
  deriving DecidableEq, Repr

/-- A packet from the server to the client. -/
inductive ServerPacket
  | pingTest (packet : ScPacketPingTest)
  | login (packet : ScPacketLogin)
  | putObject (packet : ScPacketPutObject)
  | removeObject (packet : ScPacketRemoveObject)
  deriving DecidableEq, Repr

namespace ServerPacket

def size : ServerPacket → ℕ
  | pingTest p => p.size
  | login p => p.size
  | putObject p => p.size
  | removeObject p => p.size

def type : ServerPacket → PacketType
  | pingTest p => p.type
  | login p => p.type
  | putObject p => p.type
  | removeObject p => p.type

/-- The type of the structure, the default of its member `type`. -/
def declaredType : ServerPacket → PacketType
  | pingTest _ => .scPingTest
  | login _ => .scLogin
  | putObject _ => .scPutObject
  | removeObject _ => .scRemoveObject

/-- The members behind `size` and `type`. -/
def body : ServerPacket → List Member
  | pingTest _ => []
  | login p => [⟨8, p.clientId⟩, ⟨4, p.worldId⟩, ⟨4, p.objectId⟩]
  | putObject p => [⟨1, p.objectType⟩, ⟨4, p.objectId⟩, ⟨4, p.x⟩, ⟨4, p.y⟩]
  | removeObject p => [⟨4, p.objectId⟩]

def members (p : ServerPacket) : List Member := packetHeader p.size p.type ++ p.body

/-- The bytes of the structure. -/
def bytes (p : ServerPacket) : List UInt8 := packed p.members

/-- The packet says its own size and type. -/
structure WellFormed (p : ServerPacket) : Prop where
  size : p.size = sizeOfMembers p.members
  type : p.type = p.declaredType

theorem sizeOfMembers_members (p : ServerPacket) :
    sizeOfMembers p.members = 3 + sizeOfMembers p.body := by
  change 1 + (2 + sizeOfMembers p.body) = _
  omega

theorem sizeOfMembers_body_le (p : ServerPacket) : sizeOfMembers p.body ≤ 252 := by
  cases p <;> exact Nat.le_of_ble_eq_true rfl

/-- The packet with the members behind its header taken as bytes. -/
def toSent (p : ServerPacket) : SentPacket where
  type := p.type
  members := packed p.body
  length_le := by
    have hle := p.sizeOfMembers_body_le
    rw [length_packed]
    omega

theorem WellFormed.size_toSent {p : ServerPacket} (h : p.WellFormed) : p.toSent.size = p.size := by
  rw [h.size, p.sizeOfMembers_members, ← length_packed, Nat.add_comm]
  rfl

theorem leBytes_one (n : ℕ) (h : n < 256) : leBytes 1 n = [UInt8.ofNat n] := by
  rw [leBytes, leBytes]
  congr 2
  omega

theorem leBytes_type (type : PacketType) :
    leBytes 2 type.value = [UInt8.ofNat type.value, UInt8.ofNat (type.value / 256)] := by
  cases type <;> decide

/-- The client's receive loop sees the bytes of the structure. -/
theorem WellFormed.bytes_toSent {p : ServerPacket} (h : p.WellFormed) :
    p.toSent.bytes = p.bytes := by
  have hle := p.sizeOfMembers_body_le
  have hsize := h.size
  rw [p.sizeOfMembers_members] at hsize
  rw [SentPacket.bytes, h.size_toSent, bytes, members, packed_append, packetHeader, packed_cons,
    packed_cons, packed_nil, Member.bytes, Member.bytes, leBytes_one p.size (by omega),
    leBytes_type]
  rfl

end ServerPacket

/-- What `LoginOn` sends. -/
def ServerPacket.ofSc : ScPacket → ServerPacket
  | .login packet => .login packet
  | .putObject packet => .putObject packet

/-- What `Process` sends for a ping. -/
def pingReply : ServerPacket := .pingTest ⟨3, .scPingTest⟩

theorem wellFormed_pingReply : pingReply.WellFormed := ⟨rfl, rfl⟩

/-- The packet of `LoadComplete` that answers a login. -/
def loginPacket {n : ℕ} (s : LoginState n) (i : Fin n) (p : Ptr) : ScPacketLogin where
  size := 19
  type := .scLogin
  clientId := (s.arrSocket i).nId
  worldId := (s.objects p).nGameWorIdIndex
  objectId := (s.objects p).nObjectId

/-- The packet of `LoadComplete` that shows the player. -/
def putObjectPacket {n : ℕ} (s : LoginState n) (p : Ptr) : ScPacketPutObject where
  size := 16
  type := .scPutObject
  objectType := ObjectType.player.value
  objectId := (s.objects p).nObjectId
  x := (s.objects p).position.x
  y := (s.objects p).position.y

/-- `LoadComplete` sends these two, in this order. -/
theorem sent_loadComplete {n : ℕ} (s : LoginState n) (i : Fin n) (p : Ptr) :
    (s.loadComplete i p).sent = Function.update s.sent i
      (s.sent i ++ [.login (loginPacket s i p), .putObject (putObjectPacket s p)]) := by
  simp only [LoginState.loadComplete, LoginState.send, Function.update_self,
    Function.update_idem, List.append_assoc, List.singleton_append]
  rfl

/-- Each says its own size and type. -/
theorem wellFormed_loadComplete {n : ℕ} (s : LoginState n) (i : Fin n) (p : Ptr) :
    (ServerPacket.login (loginPacket s i p)).WellFormed ∧
      (ServerPacket.putObject (putObjectPacket s p)).WellFormed :=
  ⟨⟨rfl, rfl⟩, rfl, rfl⟩

/-! ## From the client -/

/-- `cs_packet_ping_test` -/
structure CsPacketPingTest where
  size : ℕ
  type : PacketType
  deriving DecidableEq, Repr

/-- `cs_packet_login` -/
structure CsPacketLogin where
  size : ℕ
  type : PacketType
  strId : List UInt8
  strPassward : List UInt8
  length_strId : strId.length = strIdSize
  length_strPassward : strPassward.length = strIdSize

/-- A packet from the client to the server. -/
inductive ClientPacket
  | pingTest (packet : CsPacketPingTest)
  | login (packet : CsPacketLogin)

/-- An array of `char`. -/
def charMembers (xs : List UInt8) : List Member := xs.map fun x => ⟨1, x.toNat⟩

theorem packed_charMembers (xs : List UInt8) : packed (charMembers xs) = xs := by
  induction xs with
  | nil => rfl
  | cons x xs ih =>
      have hx : leBytes 1 x.toNat = [x] := by
        rw [ServerPacket.leBytes_one _ x.toNat_lt, UInt8.ofNat_toNat]
      change leBytes 1 x.toNat ++ packed (charMembers xs) = _
      rw [hx, ih, List.singleton_append]

namespace ClientPacket

def size : ClientPacket → ℕ
  | pingTest p => p.size
  | login p => p.size

def type : ClientPacket → PacketType
  | pingTest p => p.type
  | login p => p.type

/-- The type of the structure, the default of its member `type`. -/
def declaredType : ClientPacket → PacketType
  | pingTest _ => .csPingTest
  | login _ => .csLogin

/-- The characters behind `size` and `type`. -/
def chars : ClientPacket → List UInt8
  | pingTest _ => []
  | login p => p.strId ++ p.strPassward

def members (p : ClientPacket) : List Member :=
  packetHeader p.size p.type ++ charMembers p.chars

/-- The bytes of the structure. -/
def bytes (p : ClientPacket) : List UInt8 := packed p.members

/-- The packet says its own size and type. -/
structure WellFormed (p : ClientPacket) : Prop where
  size : p.size = p.bytes.length
  type : p.type = p.declaredType

/-- The two arrays of a login have a terminating zero. -/
def Terminated : ClientPacket → Prop
  | pingTest _ => True
  | login p => 0 ∈ p.strId ++ p.strPassward

/-- What `Process` is to do with the packet. -/
def request : ClientPacket → Processed
  | pingTest _ => .pingTest
  | login p => .login ((p.strId ++ p.strPassward).takeWhile (· ≠ 0))

theorem bytes_eq (p : ClientPacket) :
    p.bytes = leBytes 1 p.size ++ (leBytes 2 p.type.value ++ p.chars) := by
  rw [bytes, members, packed_append, packed_charMembers, packetHeader, packed_cons, packed_cons,
    packed_nil, List.append_nil, List.append_assoc]
  rfl

theorem length_bytes (p : ClientPacket) :
    p.bytes.length = packetReservedLength + p.chars.length := by
  rw [bytes_eq, List.length_append, List.length_append, length_leBytes, length_leBytes,
    packetReservedLength]
  omega

theorem length_chars_le (p : ClientPacket) : p.chars.length ≤ 60 := by
  cases p with
  | pingTest p => exact Nat.zero_le _
  | login p =>
      have h₁ := p.length_strId
      have h₂ := p.length_strPassward
      simp only [strIdSize] at h₁ h₂
      rw [chars, List.length_append]
      omega

end ClientPacket

section Read
variable {buffer : ℕ → UInt8} {off : ℕ}

/-- The type of a packet in memory. -/
theorem packetType_of_load {p : ClientPacket} (h : load buffer off p.bytes.length = p.bytes) :
    packetType buffer off = p.type.value := by
  have htype : load buffer (off + 1) 2 = leBytes 2 p.type.value := by
    have hmem := h
    rw [p.length_bytes, packetReservedLength, show 3 + p.chars.length = 1 + (2 + p.chars.length) by
      omega, load_add, load_add, p.bytes_eq] at hmem
    exact (List.append_inj (List.append_inj hmem (by simp)).2 (by simp)).1
  have hspell := leNat_leBytes_of_lt (n := 2) (v := p.type.value)
    (p.type.value_lt.trans (by decide))
  rw [← htype, load_succ, load_succ, load_zero, leNat, leNat, leNat] at hspell
  rw [packetType]
  simpa using hspell

/-- The characters of a packet in memory. -/
theorem chars_of_load {p : ClientPacket} (h : load buffer off p.bytes.length = p.bytes) :
    load buffer (off + packetReservedLength) p.chars.length = p.chars := by
  rw [p.length_bytes, load_add, p.bytes_eq, ← List.append_assoc] at h
  exact (List.append_inj h (by simp [packetReservedLength])).2

/-- A terminated string in memory. -/
theorem cString_of_load {xs : List UInt8} {n : ℕ} (h : load buffer off xs.length = xs)
    (hzero : 0 ∈ xs) (hn : xs.length ≤ n) :
    cString buffer off n = some (xs.takeWhile (· ≠ 0)) := by
  induction xs generalizing off n with
  | nil => cases hzero
  | cons x xs ih =>
      obtain ⟨m, rfl⟩ : ∃ m, n = m + 1 := ⟨n - 1, by simp only [List.length_cons] at hn; omega⟩
      rw [List.length_cons, load_succ, List.cons.injEq] at h
      obtain ⟨hhead, htail⟩ := h
      rw [cString, hhead]
      by_cases hx : x = 0
      · rw [if_pos hx, List.takeWhile_cons_of_neg (by simpa using hx)]
      · have hmem : 0 ∈ xs := (List.mem_cons.mp hzero).resolve_left (Ne.symm hx)
        rw [if_neg hx, ih htail hmem (Nat.le_of_succ_le_succ hn), Option.map_some,
          List.takeWhile_cons_of_pos (by simpa using hx)]

/-- **The server reads what the client has written**, wherever the packet stands in the read
buffer and whatever stands behind it. -/
theorem process_clientPacket {p : ClientPacket} (hwf : p.WellFormed) (hterm : p.Terminated)
    (h : load buffer off p.bytes.length = p.bytes) (hin : off + p.bytes.length ≤ bgBufferSize) :
    process buffer off = some p.request := by
  have htype := packetType_of_load h
  rw [hwf.type] at htype
  rw [p.length_bytes] at hin
  cases p with
  | pingTest p =>
      rw [process, htype]
      rfl
  | login p =>
      have hchars := chars_of_load h
      rw [process_login htype, cString_of_load hchars hterm (by omega), Option.map_some]
      rfl

end Read

/-! ## What the stress client sends -/

/-- `PingTestThread` -/
def pingPacket : ClientPacket := .pingTest ⟨3, .csPingTest⟩

theorem wellFormed_pingPacket : pingPacket.WellFormed := ⟨rfl, rfl⟩

/-- `strncpy` of a string literal that is shorter than the array: `n` characters, and no
terminating zero. What the array has from the stack stays behind them. -/
def strncpy (array literal : List UInt8) (n : ℕ) : List UInt8 :=
  literal.take n ++ array.drop n

/-- `"test_id"` -/
def testId : List UInt8 := [116, 101, 115, 116, 95, 105, 100]

/-- `"test_passward"` -/
def testPassward : List UInt8 := [116, 101, 115, 116, 95, 112, 97, 115, 115, 119, 97, 114, 100]

theorem length_strncpy (array literal : List UInt8) {n : ℕ} (hlit : n ≤ literal.length)
    (harr : n ≤ array.length) : (strncpy array literal n).length = array.length := by
  rw [strncpy, List.length_append, List.length_take, List.length_drop]
  omega

/-- The login packet of `Connect`, whose two arrays are not initialised. -/
def connectPacket (strId strPassward : List UInt8) (hId : strId.length = strIdSize)
    (hPassward : strPassward.length = strIdSize) : ClientPacket :=
  .login
    { size := 63
      type := .csLogin
      strId := strncpy strId testId 7
      strPassward := strncpy strPassward testPassward 13
      length_strId := (length_strncpy strId testId (by decide) (hId ▸ by decide)).trans hId
      length_strPassward :=
        (length_strncpy strPassward testPassward (by decide) (hPassward ▸ by decide)).trans
          hPassward }

section Connect
variable {strId strPassward : List UInt8} {hId : strId.length = strIdSize}
  {hPassward : strPassward.length = strIdSize}

theorem wellFormed_connectPacket : (connectPacket strId strPassward hId hPassward).WellFormed := by
  refine ⟨?_, rfl⟩
  have h₁ := length_strncpy strId testId (n := 7) (by decide) (hId ▸ by decide)
  have h₂ := length_strncpy strPassward testPassward (n := 13) (by decide)
    (hPassward ▸ by decide)
  rw [ClientPacket.length_bytes, connectPacket, ClientPacket.chars, List.length_append, h₁, h₂,
    hId, hPassward]
  rfl

/-- `strncpy` has not written the terminating zero: the nickname that the server reads goes on
with what the stack had behind the seventh byte, to the first zero there. -/
theorem nickName_connectPacket :
    (connectPacket strId strPassward hId hPassward).request =
      .login (testId ++ (strId.drop 7 ++ strncpy strPassward testPassward 13).takeWhile
        (· ≠ 0)) := by
  change Processed.login ((strncpy strId testId 7 ++ strncpy strPassward testPassward 13).takeWhile
    (· ≠ 0)) = _
  have htest : testId.take 7 = testId := rfl
  have hstrId : strncpy strId testId 7 = testId ++ strId.drop 7 := by rw [strncpy, htest]
  rw [hstrId, List.append_assoc, List.takeWhile_append_of_pos (List.all_eq_true.mp rfl)]

end Connect

end BGIocpServer
