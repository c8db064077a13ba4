import BGIocpServer.Protocol

/-!
# The requests of a client

The receive path with the calls of `Process` that `OnRead` makes on the way. `ReadPath` keeps
the bytes of each packet that is handed over; here `Process` runs on the read buffer itself, at
the place where the packet stands in it.

## Main definitions

* `serveLoop`, `Session.serve`: `OnRead` and one received chunk, with the requests processed.

## Main results

* `runAll_serve`: the server processes the requests that have arrived whole, in their order.
-/

namespace BGIocpServer
open Kit

/-! ## The packets of the client as a stream -/

/-- The bytes of packets, one behind the other. -/
def clientWire (packets : List ClientPacket) : List UInt8 :=
  (packets.map ClientPacket.bytes).flatten

/-- How many packets are whole in the first `n` bytes. -/
def requestsWithin (packets : List ClientPacket) (n : ℕ) : ℕ :=
  Framer.wholeWithin (packets.map ClientPacket.bytes) n

/-- The server's framing cuts a packet off as a whole. -/
theorem ClientPacket.WellFormed.whole {p : ClientPacket} (h : p.WellFormed) :
    packetFramer.Whole p.bytes := by
  have hlen := p.length_bytes
  have hchars := p.length_chars_le
  have hsize := h.size
  simp only [packetReservedLength] at hlen
  have hbytes : p.bytes = UInt8.ofNat p.size :: (leBytes 2 p.type.value ++ p.chars) := by
    rw [p.bytes_eq, ServerPacket.leBytes_one p.size (by omega), List.singleton_append]
  have hhead : ∀ n, (p.bytes.take (n + 1)).headD 0 = UInt8.ofNat p.size := by
    intro n
    rw [hbytes, List.take_succ_cons]
    rfl
  have hbyte : (UInt8.ofNat p.size).toNat = p.bytes.length := by
    rw [UInt8.toNat_ofNat', Nat.mod_eq_of_lt (by omega), hsize]
  constructor
  · change packetCut p.bytes = _
    have hfull := hhead (p.bytes.length - 1)
    rw [show p.bytes.length - 1 + 1 = p.bytes.length by omega, List.take_length] at hfull
    rw [packetCut, hfull, hbyte, packetReservedLength, if_neg (by omega), if_neg (by omega),
      if_pos (Nat.le_refl _)]
  · intro n hn
    change packetCut (p.bytes.take n) = _
    have htake : (p.bytes.take n).length = n := by
      rw [List.length_take]
      omega
    rw [packetCut, htake, packetReservedLength]
    split
    · rfl
    · obtain ⟨k, rfl⟩ : ∃ k, n = k + 1 := ⟨n - 1, by omega⟩
      rw [hhead k, hbyte, if_neg (by omega), if_neg (by omega)]

/-- The framing of the beginning of a stream of packets. -/
theorem parse_take_clientWire {packets : List ClientPacket} (hwf : ∀ p ∈ packets, p.WellFormed)
    (n : ℕ) :
    (packetFramer.parse ((clientWire packets).take n)).packets =
        (packets.take (requestsWithin packets n)).map ClientPacket.bytes ∧
      (packetFramer.parse ((clientWire packets).take n)).rest ≠ none := by
  have hwhole : ∀ u ∈ packets.map ClientPacket.bytes, packetFramer.Whole u := by
    intro u hu
    obtain ⟨p, hp, rfl⟩ := List.mem_map.mp hu
    exact (hwf p hp).whole
  obtain ⟨hpackets, hrest⟩ := Framer.parse_take_flatten (F := packetFramer) rfl hwhole n
  exact ⟨hpackets.trans List.map_take.symm, hrest⟩

/-! ## `OnRead` with its calls of `Process` -/

/-- The loop of `OnRead`, for at most `fuel` turns: what each call of `Process` is asked, and
the turn that leaves the loop. `none` also if a call reads past `m_buffer`. -/
def serveLoop (buffer : ℕ → UInt8) : ℕ → ℕ → ℕ → Option (List Processed × Turn)
  | 0, _, _ => none
  | fuel + 1, szBuffer, dwSize =>
      match onReadTurn buffer szBuffer dwSize with
      | .process nSize =>
          (process buffer szBuffer).bind fun request =>
            (serveLoop buffer fuel (szBuffer + nSize) (dwordSub dwSize nSize)).map fun out =>
              (request :: out.1, out.2)
      | turn => some ([], turn)

/-- The loop runs as `onReadLoop` does, and each packet is processed where it stands. -/
theorem serveLoop_eq {buffer : ℕ → UInt8} {packets : List ClientPacket}
    (hwf : ∀ p ∈ packets, p.WellFormed) (hterm : ∀ p ∈ packets, p.Terminated)
    {fuel szBuffer dwSize : ℕ} (hin : szBuffer + dwSize ≤ bgBufferSize) {out : LoopOut}
    (hloop : onReadLoop buffer fuel szBuffer dwSize = some out)
    (hpackets : out.packets = packets.map ClientPacket.bytes) :
    serveLoop buffer fuel szBuffer dwSize =
      some (packets.map ClientPacket.request, out.last) := by
  induction fuel generalizing szBuffer dwSize packets out with
  | zero => cases hloop
  | succ fuel ih =>
      rw [onReadLoop] at hloop
      rw [serveLoop]
      cases hturn : onReadTurn buffer szBuffer dwSize with
      | read dwLeft =>
          rw [hturn] at hloop
          obtain rfl := Option.some.inj hloop
          rw [List.map_eq_nil_iff.mp hpackets.symm]
          rfl
      | close =>
          rw [hturn] at hloop
          obtain rfl := Option.some.inj hloop
          rw [List.map_eq_nil_iff.mp hpackets.symm]
          rfl
      | process nSize =>
          simp only [hturn, Option.map_eq_some_iff] at hloop
          obtain ⟨later, hlater, rfl⟩ := hloop
          obtain ⟨p, rest, rfl, hp, hrest⟩ := List.map_eq_cons_iff.mp hpackets.symm
          have hlen : p.bytes.length = nSize := by rw [hp, length_load]
          obtain ⟨-, hle⟩ := size_of_process hturn
          have hmax : bgBufferSize = 4096 := rfl
          have hsub : dwordSub dwSize nSize = dwSize - nSize := dwordSub_of_le hle (by omega)
          rw [hsub] at hlater
          have hrequest : process buffer szBuffer = some p.request :=
            process_clientPacket (hwf p List.mem_cons_self) (hterm p List.mem_cons_self)
              (by rw [hlen, hp]) (by omega)
          have htail := ih (fun q hq => hwf q (List.mem_cons_of_mem p hq))
            (fun q hq => hterm q (List.mem_cons_of_mem p hq)) (by omega) hlater hrest.symm
          simp only [hrequest, Option.bind_some, hsub, htail, Option.map_some, List.map_cons]

/-! ## The connection -/

/-- The receive side of a connection, and the requests that `Process` has been called with. -/
structure Session where
  side : ReadSide
  requests : List Processed

namespace Session

/-- The calls of `Process` for one received chunk. -/
def newRequests (s : ReadSide) (ev : Recv) : Option (List Processed) :=
  match s.window with
  | none => some []
  | some (start, _) =>
      if ev.chunk.length = 0 ∨ ev.nPendingWrite > pendingWrite then some []
      else
        let dwSize := s.readBuf.dwSize + ev.chunk.length
        (serveLoop (store s.readBuf.buffer start ev.chunk) (dwSize + 1) 0 dwSize).map Prod.fst

/-- One received chunk. -/
def serve (s : Session) (ev : Recv) : Option Session :=
  (s.side.deliver ev).bind fun side =>
    (newRequests s.side ev).map fun new => ⟨side, s.requests ++ new⟩

/-- The connection after `OnCreate`. -/
def start (b fresh : BGIOBuffer) : Session := ⟨.start b fresh, []⟩

end Session

/-- The first bytes `xs` of the client's packets have been received: the packets that are whole
in them have been processed. -/
structure Served (packets : List ClientPacket) (s : Session) (xs : List UInt8) : Prop where
  framed : Framed s.side xs
  stream : xs <+: clientWire packets
  requests : s.requests =
    (packets.take (requestsWithin packets xs.length)).map ClientPacket.request

section Served
variable {packets : List ClientPacket} {s : Session} {ev : Recv} {xs : List UInt8}

/-- The framing of the bytes received so far. -/
theorem parse_of_isPrefix (hwf : ∀ p ∈ packets, p.WellFormed)
    (hstream : xs <+: clientWire packets) :
    (packetFramer.parse xs).packets =
        (packets.take (requestsWithin packets xs.length)).map ClientPacket.bytes ∧
      (packetFramer.parse xs).rest ≠ none := by
  have hparse := parse_take_clientWire hwf xs.length
  rwa [← List.prefix_iff_eq_take.mp hstream] at hparse

/-- The packets that a chunk makes whole. -/
theorem packets_of_chunk (hwf : ∀ p ∈ packets, p.WellFormed) {chunk kept : List UInt8}
    (hstream : xs ++ chunk <+: clientWire packets)
    (hkept : (packetFramer.parse xs).rest = some kept) :
    ∃ new, packets.take (requestsWithin packets (xs ++ chunk).length) =
        packets.take (requestsWithin packets xs.length) ++ new ∧
      (packetFramer.parse (kept ++ chunk)).packets = new.map ClientPacket.bytes ∧
      (packetFramer.parse (kept ++ chunk)).rest ≠ none := by
  have hbefore := (parse_of_isPrefix hwf ((List.prefix_append xs chunk).trans hstream)).1
  obtain ⟨hafter, hrest⟩ := parse_of_isPrefix hwf hstream
  have hmono : requestsWithin packets xs.length ≤ requestsWithin packets (xs ++ chunk).length :=
    Framer.wholeWithin_mono _ (by simp)
  obtain ⟨new, hnew⟩ := List.take_prefix_take_left (l := packets) hmono
  rw [Framer.parse_append, Framer.feed, hkept] at hafter hrest
  simp only [hbefore, ← hnew, List.map_append] at hafter
  exact ⟨new, hnew.symm, List.append_cancel_left hafter, hrest⟩

/-- One more chunk. -/
theorem Served.serve (h : Served packets s xs) (hwf : ∀ p ∈ packets, p.WellFormed)
    (hterm : ∀ p ∈ packets, p.Terminated) (hstream : xs ++ ev.chunk <+: clientWire packets)
    (hne : ev.chunk ≠ []) (hpending : ev.nPendingWrite ≤ pendingWrite)
    (hfits : ∀ kept, (packetFramer.parse xs).rest = some kept →
      kept.length + ev.chunk.length ≤ bgBufferSize) :
    ∃ s', s.serve ev = some s' ∧ Served packets s' (xs ++ ev.chunk) := by
  obtain ⟨side, hdeliver, hframed⟩ := deliver_framed h.framed hne hpending hfits
  obtain ⟨kept, hkept⟩ := Option.ne_none_iff_exists'.mp (parse_of_isPrefix hwf h.stream).2
  obtain ⟨new, hnew, hpackets, -⟩ := packets_of_chunk hwf hstream hkept
  have hmem : ∀ p ∈ new, p ∈ packets := fun p hp =>
    List.mem_of_mem_take (hnew ▸ List.mem_append_right _ hp)
  obtain ⟨hwindow, hbytes, -⟩ := h.framed.kept kept hkept
  have hsize : s.side.readBuf.dwSize = kept.length := by
    rw [← BGIOBuffer.length_bytes, hbytes]
  have hroom := hfits kept hkept
  have hmax : bgBufferSize = 4096 := rfl
  -- the buffer has the kept bytes and the chunk behind them
  have hload : load (store s.side.readBuf.buffer kept.length ev.chunk) 0
      (kept.length + ev.chunk.length) = kept ++ ev.chunk := by
    rw [load_store_append, ← hsize]
    exact congrArg (· ++ ev.chunk) hbytes
  obtain ⟨out, hloop, spec⟩ := onReadLoop_spec
    (store s.side.readBuf.buffer kept.length ev.chunk) _ 0 (kept.length + ev.chunk.length)
    (Nat.lt_succ_self _) (by omega)
  have hout := spec.packets
  rw [hload, hpackets] at hout
  have hserve := serveLoop_eq (fun p hp => hwf p (hmem p hp)) (fun p hp => hterm p (hmem p hp))
    (by omega) hloop hout
  have hrequests : Session.newRequests s.side ev = some (new.map ClientPacket.request) := by
    have hpos : ¬(ev.chunk.length = 0 ∨ ev.nPendingWrite > pendingWrite) := by
      rintro (hzero | hbig)
      · exact hne (List.eq_nil_of_length_eq_zero hzero)
      · omega
    simp only [Session.newRequests, hwindow, if_neg hpos, hsize, hserve, Option.map_some]
  refine ⟨⟨side, s.requests ++ new.map ClientPacket.request⟩, ?_, hframed, hstream, ?_⟩
  · rw [Session.serve, hdeliver, Option.bind_some, hrequests, Option.map_some]
  · rw [h.requests, hnew, List.map_append]

end Served

/-- Nothing is received, and nothing has been processed. -/
theorem served_start (packets : List ClientPacket) (b fresh : BGIOBuffer) :
    Served packets (.start b fresh) [] := by
  refine ⟨framed_start b fresh, List.nil_prefix, ?_⟩
  have hzero : ∀ us : List (List UInt8), (∀ u ∈ us, u ≠ []) → Framer.wholeWithin us 0 = 0 := by
    intro us hus
    cases us with
    | nil => rfl
    | cons u us =>
        rw [Framer.wholeWithin, if_neg]
        have hpos := List.length_pos_iff.mpr (hus u List.mem_cons_self)
        omega
  have hnone : requestsWithin packets ([] : List UInt8).length = 0 := by
    refine hzero _ fun u hu => ?_
    obtain ⟨p, -, rfl⟩ := List.mem_map.mp hu
    intro hnil
    have hlen := p.length_bytes
    rw [hnil, packetReservedLength, List.length_nil] at hlen
    omega
  rw [hnone]
  rfl

/-- **The server processes the requests that have arrived whole**, each once and in order,
however TCP cuts what the client has sent and wherever in the buffer a packet comes to stand. -/
theorem runAll_serve {packets : List ClientPacket} (hwf : ∀ p ∈ packets, p.WellFormed)
    (hterm : ∀ p ∈ packets, p.Terminated) (b fresh : BGIOBuffer) {evs : List Recv}
    (hstream : stream evs <+: clientWire packets) (hrecv : Receivable evs) :
    ∃ s, runAll Session.serve (.start b fresh) evs = some s ∧ Served packets s (stream evs) := by
  have key : ∀ (post pre : List Recv) (s : Session), evs = pre ++ post →
      Served packets s (stream pre) →
      ∃ s', runAll Session.serve s post = some s' ∧ Served packets s' (stream evs) := by
    intro post
    induction post with
    | nil =>
        intro pre s hevs hs
        rw [List.append_nil] at hevs
        exact ⟨s, rfl, hevs ▸ hs⟩
    | cons ev post ih =>
        intro pre s hevs hs
        obtain ⟨hne, hpending, hfits⟩ := hrecv pre ev post hevs
        have happend : stream (pre ++ [ev]) = stream pre ++ ev.chunk := by simp [stream]
        have hprefix : stream pre ++ ev.chunk <+: clientWire packets := by
          refine List.IsPrefix.trans ?_ hstream
          rw [hevs, ← happend]
          exact ⟨stream post, by simp [stream]⟩
        obtain ⟨t, hserve, ht⟩ := hs.serve hwf hterm hprefix hne hpending hfits
        obtain ⟨s', hrun, hs'⟩ := ih (pre ++ [ev]) t (by simp [hevs]) (happend ▸ ht)
        exact ⟨s', by rw [runAll_cons hserve, hrun], hs'⟩
  exact key evs [] _ rfl (served_start packets b fresh)

/-- Two pings, the second of which has not arrived whole. -/
theorem runAll_serve_pings :
    ∃ s, runAll Session.serve (.start .blank .blank)
        [⟨[3], 0, 1, .blank⟩, ⟨[1, 0, 3], 0, 2, .blank⟩] = some s ∧
      Served [pingPacket, pingPacket] s [3, 1, 0, 3] ∧ s.requests = [.pingTest] := by
  have hwf : ∀ p ∈ [pingPacket, pingPacket], p.WellFormed := List.forall_mem_cons.mpr
    ⟨wellFormed_pingPacket, List.forall_mem_singleton.mpr wellFormed_pingPacket⟩
  have hreceivable : Receivable [⟨[3], 0, 1, .blank⟩, ⟨[1, 0, 3], 0, 2, .blank⟩] :=
    receivable_of_length_le (by decide) (by decide) (by decide)
  obtain ⟨s, hrun, hserved⟩ := runAll_serve hwf
    (List.forall_mem_cons.mpr ⟨trivial, List.forall_mem_singleton.mpr trivial⟩) .blank .blank
    (by decide) hreceivable
  exact ⟨s, hrun, hserved, hserved.requests⟩

end BGIocpServer
