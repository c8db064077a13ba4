import BGIocpServer.Protocol

/-!
# What the client learns

The effect of `ProcessPacket` on the stress client's own fields and on its output, and how
it depends on what the server has written into its packets.

## Main definitions

* `ClientView.learn`: what a packet tells the client.
* `arrived`: the packets of which all bytes have arrived.

## Main results

* `receiveAll_learns`: the client has learnt the packets that have arrived, in their order.
-/

namespace BGIocpServer
open Kit

/-! ## Words in memory -/

/-- Four bytes as a number. -/
theorem toNat_dwordAt (packet : ℕ → UInt8) (off : ℕ) :
    (dwordAt packet off).toNat = leNat (load packet off 4) := by
  have step : ∀ {w : ℕ} (x : BitVec w) (b : UInt8),
      (x ++ b.toBitVec).toNat = 256 * x.toNat + b.toNat := by
    intro w x b
    rw [BitVec.toNat_append, ← Nat.shiftLeft_add_eq_or_of_lt b.toBitVec.isLt, Nat.shiftLeft_eq,
      Nat.mul_comm]
    rfl
  rw [dwordAt, step, step, step, load_succ, load_succ, load_succ, load_succ, load_zero, leNat,
    leNat, leNat, leNat, leNat, Nat.mul_zero, Nat.add_zero]
  change 256 * (256 * (256 * (packet (off + 3)).toNat + (packet (off + 2)).toNat) +
    (packet (off + 1)).toNat) + (packet off).toNat = (packet off).toNat +
      256 * ((packet (off + 1)).toNat + 256 * ((packet (off + 2)).toNat +
        256 * (packet (off + 3)).toNat))
  omega

/-- A number modulo the range of a word is the word. -/
theorem bitVec_eq_ofInt {w : ℕ} {x : BitVec w} {v : ℤ} (h : (x.toNat : ℤ) = v % 2 ^ w) :
    x = BitVec.ofInt w v := by
  apply BitVec.eq_of_toNat_eq
  have hcast : ((2 ^ w : ℕ) : ℤ) = 2 ^ w := Int.natCast_pow 2 w
  rw [BitVec.toNat_ofInt, hcast, ← h, Int.toNat_natCast]

/-- A `long` in memory. -/
theorem dwordAt_of_load {packet : ℕ → UInt8} {off : ℕ} {v : ℤ}
    (h : load packet off 4 = leBytes 4 v) : dwordAt packet off = BitVec.ofInt 32 v := by
  refine bitVec_eq_ofInt ?_
  rw [toNat_dwordAt, h, leNat_leBytes]
  rfl

/-- An `__int64` in memory, and its low half. -/
theorem qwordAt_of_load {packet : ℕ → UInt8} {off : ℕ} {v : ℤ}
    (h : load packet off 8 = leBytes 8 v) :
    dwordAt packet (off + 4) ++ dwordAt packet off = BitVec.ofInt 64 v ∧
      dwordAt packet off = BitVec.ofInt 32 v := by
  have hsplit := h
  rw [show 8 = 4 + 4 from rfl, load_add, leBytes_add] at hsplit
  obtain ⟨hlow, hhigh⟩ := List.append_inj hsplit (by simp)
  refine ⟨bitVec_eq_ofInt ?_, dwordAt_of_load hlow⟩
  have hlen : (load packet off 4).length = 4 := length_load _ _ _
  have hlt := (dwordAt packet off).isLt
  rw [BitVec.toNat_append, ← Nat.shiftLeft_add_eq_or_of_lt hlt, toNat_dwordAt, toNat_dwordAt,
    Nat.shiftLeft_eq, Nat.add_comm, Nat.mul_comm]
  have happend := leNat_append (load packet off 4) (load packet (off + 4) 4)
  rw [hlen, ← load_add, h] at happend
  have hspell := leNat_leBytes 8 v
  rw [happend] at hspell
  exact hspell

/-! ## What a packet tells -/

namespace ClientView

/-- What a packet tells the client. -/
def learn (v : ClientView) : ServerPacket → ClientView
  | .pingTest _ => { v with lines := v.lines ++ [.ping] }
  | .login p =>
      { nBit := v.nBit ||| clientBitLogin
        sId := BitVec.ofInt 32 p.clientId
        objectId := BitVec.ofInt 32 p.objectId
        lines := v.lines ++ [.loginId (BitVec.ofInt 64 p.clientId)] }
  | .putObject p =>
      { v with lines := v.lines ++ [.putObject (BitVec.ofInt 32 p.objectId) (BitVec.ofInt 32 p.x)
        (BitVec.ofInt 32 p.y)] }
  | .removeObject _ => v

end ClientView

/-- `ProcessPacket` on a packet that the server has written: the client reads each member where
the server has put it. -/
theorem told_of_receives {call : ProcessCall} {p : ServerPacket} (hwf : p.WellFormed)
    (h : Receives call p.toSent) (v : ClientView) : v.told call = v.learn p := by
  obtain ⟨hload, htype⟩ := h
  have hmem : load call.packet 0 (sizeOfMembers p.members) = packed p.members := by
    rw [hwf.bytes_toSent, hwf.size_toSent, hwf.size] at hload
    exact hload
  have hdeclared : call.type = some p.declaredType := htype.trans (congrArg some hwf.type)
  cases p with
  | pingTest p => rw [ClientView.told, hdeclared]; rfl
  | removeObject p => rw [ClientView.told, hdeclared]; rfl
  | login p =>
      have hclient : load call.packet 3 8 = leBytes 8 p.clientId :=
        load_member 0 (packetHeader p.size p.type) ⟨8, p.clientId⟩
          [⟨4, p.worldId⟩, ⟨4, p.objectId⟩] hmem
      have hobject : load call.packet 15 4 = leBytes 4 p.objectId :=
        load_member 0 (packetHeader p.size p.type ++ [⟨8, p.clientId⟩, ⟨4, p.worldId⟩])
          ⟨4, p.objectId⟩ [] hmem
      obtain ⟨hwide, hlow⟩ := qwordAt_of_load hclient
      rw [ClientView.told, hdeclared]
      simp only [ServerPacket.declaredType, ClientView.learn, hlow, dwordAt_of_load hobject,
        ← hwide]
  | putObject p =>
      have hobject : load call.packet 4 4 = leBytes 4 p.objectId :=
        load_member 0 (packetHeader p.size p.type ++ [⟨1, p.objectType⟩]) ⟨4, p.objectId⟩
          [⟨4, p.x⟩, ⟨4, p.y⟩] hmem
      have hx : load call.packet 8 4 = leBytes 4 p.x :=
        load_member 0 (packetHeader p.size p.type ++ [⟨1, p.objectType⟩, ⟨4, p.objectId⟩])
          ⟨4, p.x⟩ [⟨4, p.y⟩] hmem
      have hy : load call.packet 12 4 = leBytes 4 p.y :=
        load_member 0
          (packetHeader p.size p.type ++ [⟨1, p.objectType⟩, ⟨4, p.objectId⟩, ⟨4, p.x⟩])
          ⟨4, p.y⟩ [] hmem
      rw [ClientView.told, hdeclared]
      simp only [ServerPacket.declaredType, ClientView.learn, dwordAt_of_load hobject,
        dwordAt_of_load hx, dwordAt_of_load hy]

/-! ## What has arrived -/

/-- The bytes of packets, one behind the other. -/
def wire (packets : List ServerPacket) : List UInt8 := (packets.map ServerPacket.bytes).flatten

/-- The packets of which all bytes are among the first `n`. -/
def arrived : List ServerPacket → ℕ → List ServerPacket
  | [], _ => []
  | p :: packets, n => if p.size ≤ n then p :: arrived packets (n - p.size) else []

section Arrived
variable {packets : List ServerPacket}

theorem sent_toSent (hwf : ∀ p ∈ packets, p.WellFormed) :
    sent (packets.map ServerPacket.toSent) = wire packets := by
  rw [sent, wire, List.map_map]
  exact congrArg List.flatten (List.map_congr_left fun p hp => (hwf p hp).bytes_toSent)

theorem completed_toSent (hwf : ∀ p ∈ packets, p.WellFormed) (n : ℕ) :
    completed (packets.map ServerPacket.toSent) n =
      (arrived packets n).map ServerPacket.toSent := by
  induction packets generalizing n with
  | nil => rfl
  | cons p packets ih =>
      have hp := (hwf p List.mem_cons_self).size_toSent
      rw [List.map_cons, completed, arrived, hp,
        ih (fun q hq => hwf q (List.mem_cons_of_mem p hq))]
      split <;> rfl

/-- The packets that have arrived are the first ones sent. -/
theorem arrived_isPrefix (packets : List ServerPacket) (n : ℕ) : arrived packets n <+: packets := by
  induction packets generalizing n with
  | nil => exact List.nil_prefix
  | cons p packets ih =>
      rw [arrived]
      split
      · exact (List.prefix_cons_inj p).mpr (ih _)
      · exact List.nil_prefix

/-- Once all bytes have arrived, so have all packets. -/
theorem arrived_wire (hwf : ∀ p ∈ packets, p.WellFormed) :
    arrived packets (wire packets).length = packets := by
  induction packets with
  | nil => rfl
  | cons p packets ih =>
      have hp := (hwf p List.mem_cons_self).size
      have hlen : (wire (p :: packets)).length = p.size + (wire packets).length := by
        rw [hp, ← length_packed, ← List.length_append]
        rfl
      rw [arrived, hlen, if_pos (Nat.le_add_right _ _), Nat.add_sub_cancel_left,
        ih fun q hq => hwf q (List.mem_cons_of_mem p hq)]

end Arrived

/-- Calls on packets of the server tell the client what the packets say. -/
theorem foldl_told {calls : List ProcessCall} {packets : List ServerPacket}
    (hwf : ∀ p ∈ packets, p.WellFormed)
    (h : List.Forall₂ Receives calls (packets.map ServerPacket.toSent)) (v : ClientView) :
    calls.foldl ClientView.told v = packets.foldl ClientView.learn v := by
  induction packets generalizing calls v with
  | nil => cases h; rfl
  | cons p packets ih =>
      cases h with
      | cons hcall hcalls =>
          rw [List.foldl_cons, List.foldl_cons, told_of_receives (hwf p List.mem_cons_self) hcall,
            ih (fun q hq => hwf q (List.mem_cons_of_mem p hq)) hcalls]

/-- **The client has learnt the packets that have arrived**, in their order and nothing else,
however TCP cuts what the server has sent. -/
theorem receiveAll_learns (c : DummyClient) {packets : List ServerPacket}
    (hwf : ∀ p ∈ packets, p.WellFormed) {chunks : List (List UInt8)}
    (hchunks : ∀ chunk ∈ chunks, chunk.length ≤ maxBuffSize)
    (hstream : chunks.flatten <+: wire packets) :
    ∃ c', c.connectThread.receiveAll chunks = some c' ∧
      c'.view = (arrived packets chunks.flatten.length).foldl ClientView.learn
        c.connectThread.view := by
  have hstart := c.follows_connectThread
  have hparse := parse_take_sent (packets.map ServerPacket.toSent) chunks.flatten.length
  rw [sent_toSent hwf, ← List.prefix_iff_eq_take.mp hstream, completed_toSent hwf] at hparse
  have hrest : (clientFramer.parse ([] ++ chunks.flatten)).rest ≠ none := by
    rw [List.nil_append, hparse]
    simp
  obtain ⟨c', hrun, ⟨new, hnew, hall⟩, -⟩ := hstart.receiveAll chunks hchunks hrest
  rw [List.nil_append, hparse] at hall
  have hcalls : List.Forall₂ Receives c'.calls
      ((arrived packets chunks.flatten.length).map ServerPacket.toSent) := by
    rw [hnew]
    exact (List.forall₂_map_right_iff.mp hall).imp fun _ _ h => h.receives
  have htold : DummyClient.Told c.connectThread.view c.connectThread := rfl
  refine ⟨c', hrun, ?_⟩
  rw [htold.receiveAll hrun]
  exact foldl_told (fun p hp => hwf p ((arrived_isPrefix packets _).subset hp)) hcalls _

end BGIocpServer
