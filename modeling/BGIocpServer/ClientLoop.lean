import BGIocpServer.StressClient

/-!
# When the receive loop of the stress client ends

The client takes the first byte of a packet for its size without looking at it. A turn
over a packet of size 0 copies no byte and calls `ProcessPacket`, and leaves `buf`,
`remained_io_data_size` and the size as it found them: the loop never ends. Any other byte
makes a turn consume a byte at least.

## Main definitions

* `sizesNonzero`: no packet of the stream has size 0.
* `DummyClient.LoopEnds`: the loop ends, and each of its turns consumes a byte.

## Main results

* `loopEnds_iff`: when the loop ends, for every chunk after any other chunks.
-/

namespace BGIocpServer
open Kit

/-! ## The size bytes of a stream -/

/-- No byte in the place of a size byte is 0, where `left` bytes of a packet are still to
come. -/
def sizesNonzero : ℕ → List UInt8 → Bool
  | _, [] => true
  | 0, size :: xs => size.toNat != 0 && sizesNonzero (size.toNat - 1) xs
  | left + 1, _ :: xs => sizesNonzero left xs

/-- The bytes of the packet that has begun do not matter. -/
theorem sizesNonzero_drop (left : ℕ) (xs : List UInt8) :
    sizesNonzero left xs = sizesNonzero 0 (xs.drop left) := by
  induction xs generalizing left with
  | nil => cases left <;> rfl
  | cons x xs ih =>
      cases left with
      | zero => rfl
      | succ left => exact ih left

/-- A stream is rejected where a packet has size 0. -/
theorem head_of_reject {xs : List UInt8} (hcut : clientFramer.cut xs = .reject) :
    (xs.headD 0).toNat = 0 := by
  have hreject : sizeCut xs = .reject := hcut
  simp only [sizeCut] at hreject
  by_contra hne
  rw [if_neg hne] at hreject
  split_ifs at hreject

/-- What is left of a chunk behind a packet that ends in it. -/
theorem rest_of_accept {held : List UInt8} {recv : ℕ → UInt8} {buf remainedIo k : ℕ}
    (hle : k ≤ remainedIo)
    (hcut : clientFramer.cut (held ++ load recv buf remainedIo) = .accept (held.length + k)) :
    (clientFramer.parse (held ++ load recv buf remainedIo)).rest =
      (clientFramer.parse (load recv (buf + k) (remainedIo - k))).rest := by
  have hsplit : held ++ load recv buf remainedIo =
      (held ++ load recv buf k) ++ load recv (buf + k) (remainedIo - k) := by
    rw [List.append_assoc, ← load_add, Nat.add_sub_cancel' hle]
  rw [Framer.parse_accept hcut, hsplit, List.drop_left' (by simp)]

/-- The framing of a stream comes to its end unless a packet has size 0. -/
theorem sizesNonzero_iff (xs : List UInt8) :
    sizesNonzero 0 xs = true ↔ (clientFramer.parse xs).rest ≠ none := by
  induction hn : xs.length using Nat.strongRecOn generalizing xs with
  | _ n ih =>
    cases xs with
    | nil => simp [sizesNonzero, parse_nil]
    | cons size xs =>
        rw [sizesNonzero, Bool.and_eq_true, bne_iff_ne, sizesNonzero_drop]
        cases hcut : clientFramer.cut (size :: xs) with
        | wait =>
            have hlong : xs.length + 1 < size.toNat := lt_head_of_wait hcut (by simp)
            have hnil : xs.drop (size.toNat - 1) = [] := List.drop_of_length_le (by omega)
            have hne : size.toNat ≠ 0 := by omega
            rw [Framer.parse_wait hcut, hnil]
            simp [sizesNonzero, hne]
        | reject =>
            have hzero : size.toNat = 0 := head_of_reject hcut
            rw [Framer.parse_reject hcut]
            simp [hzero]
        | accept k =>
            have hsize : size.toNat = k := head_of_accept hcut
            have hpos := clientFramer.accept_pos hcut
            obtain ⟨j, rfl⟩ : ∃ j, k = j + 1 := ⟨k - 1, by omega⟩
            have hshort : (xs.drop j).length < n := by
              rw [List.length_drop, ← hn, List.length_cons]
              omega
            rw [Framer.parse_accept hcut, hsize, Nat.add_sub_cancel, List.drop_succ_cons,
              ih _ hshort _ rfl]
            simp

namespace DummyClient

/-! ## Turns over a packet of size 0 -/

/-- A turn over a packet of size 0 consumes nothing. -/
theorem Holding.turn_reject {c : DummyClient} {held : List UInt8} {buf remainedIo : ℕ}
    (h : c.Holding held) (hbuf : buf + remainedIo ≤ maxBuffSize) (hpos : 0 < remainedIo)
    (hcut : clientFramer.cut (held ++ load c.realRecvBuf buf remainedIo) = .reject) :
    held = [] ∧ ∃ c' : DummyClient,
      c.receiveTurn buf remainedIo = some (c', (buf : ℤ), (remainedIo : ℤ)) ∧ c'.Holding [] ∧
        c'.realRecvBuf = c.realRecvBuf := by
  have hzero := head_of_reject hcut
  have hnil : held.length = 0 := by
    by_contra hne
    have hlong := lt_head_of_wait h.wait hne
    rw [headD_append _ hne] at hzero
    omega
  have hsize : c.uncompleteSize = 0 := by
    rw [h.size, hnil]
    rfl
  have hfirst := h.packetSize_eq hbuf hpos
  rw [hzero] at hfirst
  have hcopy : memcpy c.uncompletePacket 0 c.realRecvBuf buf 0 =
      some (store c.uncompletePacket 0 (load c.realRecvBuf buf 0)) :=
    memcpy_eq c.uncompletePacket c.realRecvBuf (n := 0) (Nat.zero_le _) (by omega)
  have hle : (0 : ℤ) ≤ remainedIo := Int.natCast_nonneg _
  refine ⟨List.length_eq_zero_iff.mp hnil, { { c with
      uncompletePacket := store c.uncompletePacket 0 (load c.realRecvBuf buf 0)
      currentPacketSize := 0 }.processPacket with
    uncompleteSize := 0
    currentPacketSize := 0 }, ?_, holding_nil rfl rfl, realRecvBuf_processPacket _⟩
  simp only [receiveTurn, hfirst, Option.bind_eq_bind, Option.bind_some, hsize]
  rw [show (((0 : ℕ) : ℤ) - 0) = 0 from rfl, if_pos hle, hcopy, Option.bind_some]
  simp

/-- Once the framing of what is held and what is left meets a packet of size 0, no number of
turns is enough. -/
theorem receiveLoop_spins : ∀ (fuel : ℕ) {c : DummyClient} {held : List UInt8}
    {buf remainedIo : ℕ}, c.Holding held → buf + remainedIo ≤ maxBuffSize →
    (clientFramer.parse (held ++ load c.realRecvBuf buf remainedIo)).rest = none →
    receiveLoop fuel c buf remainedIo = none := by
  intro fuel
  induction fuel with
  | zero => intros; rfl
  | succ fuel ih =>
      intro c held buf remainedIo h hbuf hrest
      have hpos : 0 < remainedIo := by
        by_contra hzero
        obtain rfl : remainedIo = 0 := by omega
        rw [load_zero, List.append_nil, Framer.parse_wait h.wait] at hrest
        exact absurd hrest (by simp)
      have hloop : (remainedIo : ℤ) > 0 := by omega
      simp only [receiveLoop, if_pos hloop, Option.bind_eq_bind]
      cases hcut : clientFramer.cut (held ++ load c.realRecvBuf buf remainedIo) with
      | wait =>
          rw [Framer.parse_wait hcut] at hrest
          exact absurd hrest (by simp)
      | reject =>
          obtain ⟨rfl, c', hturn, hnil, hrecv⟩ := h.turn_reject hbuf hpos hcut
          rw [hturn, Option.bind_some]
          exact ih hnil hbuf (by rw [hrecv]; exact hrest)
      | accept n =>
          obtain ⟨c', call, k, rfl, hk, hle, hturn, hnil, hrecv, -, -⟩ :=
            h.turn_accept hbuf hpos hcut
          rw [hturn, Option.bind_some]
          rw [rest_of_accept hle hcut] at hrest
          exact ih hnil (by omega) (by rw [hrecv]; exact hrest)

/-! ## The loop -/

/-- The loop ends, and each of its turns consumes at least one byte. -/
inductive LoopEnds : DummyClient → ℤ → ℤ → Prop
  /-- `remained_io_data_size` is 0. -/
  | done {c : DummyClient} {buf remainedIo : ℤ} : ¬remainedIo > 0 → LoopEnds c buf remainedIo
  /-- One turn, and the rest of the loop. -/
  | turn {c c' : DummyClient} {buf remainedIo buf' remainedIo' : ℤ} : remainedIo > 0 →
      c.receiveTurn buf remainedIo = some (c', buf', remainedIo') →
      remainedIo' + 1 ≤ remainedIo → LoopEnds c' buf' remainedIo' → LoopEnds c buf remainedIo

/-- A loop that ends does so within some number of turns. -/
theorem LoopEnds.receiveLoop {c : DummyClient} {buf remainedIo : ℤ}
    (h : LoopEnds c buf remainedIo) : ∃ fuel c', receiveLoop fuel c buf remainedIo = some c' := by
  induction h with
  | done hzero => exact ⟨1, _, by rw [DummyClient.receiveLoop, if_neg hzero]⟩
  | turn hpos hturn _ _ ih =>
      obtain ⟨fuel, c', hrun⟩ := ih
      refine ⟨fuel + 1, c', ?_⟩
      simp only [DummyClient.receiveLoop, if_pos hpos, Option.bind_eq_bind, hturn,
        Option.bind_some]
      exact hrun

/-- Without a packet of size 0, the loop ends. -/
theorem Holding.loopEnds {c : DummyClient} {held : List UInt8} {buf remainedIo : ℕ}
    (h : c.Holding held) (hbuf : buf + remainedIo ≤ maxBuffSize)
    (hrest : (clientFramer.parse (held ++ load c.realRecvBuf buf remainedIo)).rest ≠ none) :
    LoopEnds c buf remainedIo := by
  induction hn : remainedIo using Nat.strongRecOn generalizing c held buf remainedIo with
  | _ n ih =>
    subst hn
    by_cases hpos : 0 < remainedIo
    · have hloop : (remainedIo : ℤ) > 0 := by omega
      cases hcut : clientFramer.cut (held ++ load c.realRecvBuf buf remainedIo) with
      | wait =>
          obtain ⟨c', hturn, -, -⟩ := h.turn_wait hbuf hpos hcut
          exact .turn hloop hturn (by omega) (.done (by omega))
      | reject => exact absurd (congrArg Parsed.rest (Framer.parse_reject hcut)) hrest
      | accept n =>
          obtain ⟨c', call, k, rfl, hk, hle, hturn, hnil, hrecv, -, -⟩ :=
            h.turn_accept hbuf hpos hcut
          rw [rest_of_accept hle hcut, ← hrecv] at hrest
          exact .turn hloop hturn (by omega) (ih _ (by omega) hnil (by omega) hrest rfl)
    · exact .done (by omega)

/-- The client when `GetQueuedCompletionStatus` has returned the chunk. -/
def recv (c : DummyClient) (chunk : List UInt8) : DummyClient :=
  { c with realRecvBuf := store c.realRecvBuf 0 chunk }

/-- A client that follows a stream, at one more chunk: what it holds, and the framing. -/
theorem Follows.recv {c c₁ : DummyClient} {xs : List UInt8} (h : c.Follows c₁ xs)
    (chunk : List UInt8) : ∃ held, (c₁.recv chunk).Holding held ∧
      (clientFramer.parse (xs ++ chunk)).rest =
        (clientFramer.parse (held ++ load (c₁.recv chunk).realRecvBuf 0 chunk.length)).rest := by
  obtain ⟨-, held, hheld, hholding⟩ := h
  refine ⟨held, ⟨hholding.size, hholding.bytes, hholding.current, hholding.wait⟩, ?_⟩
  have hload : load (c₁.recv chunk).realRecvBuf 0 chunk.length = chunk :=
    load_store c₁.realRecvBuf 0 chunk
  rw [Framer.parse_append, Framer.feed, hheld, hload]

/-- The loop over a chunk never ends if the stream meets a packet of size 0 there. -/
theorem Follows.receive_none {c c₁ : DummyClient} {xs chunk : List UInt8} (h : c.Follows c₁ xs)
    (hle : chunk.length ≤ maxBuffSize) (hrest : (clientFramer.parse (xs ++ chunk)).rest = none) :
    c₁.receive chunk = none := by
  obtain ⟨held, hholding, hparse⟩ := h.recv chunk
  rw [hparse] at hrest
  have hbuf : 0 + chunk.length ≤ maxBuffSize := by omega
  exact receiveLoop_spins _ hholding hbuf hrest

/-- A client that has come through all earlier chunks follows their bytes. -/
theorem Follows.of_receiveAll {c : DummyClient} : ∀ (chunks : List (List UInt8))
    {c₁ c' : DummyClient} {xs : List UInt8}, c.Follows c₁ xs →
    (∀ chunk ∈ chunks, chunk.length ≤ maxBuffSize) → c₁.receiveAll chunks = some c' →
    c.Follows c' (xs ++ chunks.flatten) := by
  intro chunks
  induction chunks with
  | nil =>
      intro c₁ c' xs h _ hrun
      obtain rfl := Option.some.inj hrun
      rw [List.flatten_nil, List.append_nil]
      exact h
  | cons chunk chunks ih =>
      intro c₁ c' xs h hle hrun
      have hchunk := hle chunk List.mem_cons_self
      by_cases hrest : (clientFramer.parse (xs ++ chunk)).rest = none
      · rw [DummyClient.receiveAll, h.receive_none hchunk hrest] at hrun
        exact absurd hrun (by simp)
      · obtain ⟨c₂, hreceive, hfollows⟩ := h.receive hchunk hrest
        rw [DummyClient.receiveAll, hreceive, Option.bind_some] at hrun
        rw [List.flatten_cons, ← List.append_assoc]
        exact ih hfollows (fun x hx => hle x (List.mem_cons_of_mem _ hx)) hrun

/-- **The receive loop ends, consuming a byte in each turn, if and only if no packet of what
has been received on the connection has size 0**; else no number of turns is enough. -/
theorem loopEnds_iff (c : DummyClient) (earlier : List (List UInt8)) (chunk : List UInt8)
    (hearlier : ∀ x ∈ earlier, x.length ≤ maxBuffSize) (hchunk : chunk.length ≤ maxBuffSize)
    {c₁ : DummyClient} (hreached : c.connectThread.receiveAll earlier = some c₁) :
    (LoopEnds (c₁.recv chunk) 0 chunk.length ↔
        sizesNonzero 0 (earlier.flatten ++ chunk) = true) ∧
      (sizesNonzero 0 (earlier.flatten ++ chunk) = false →
        ∀ fuel, receiveLoop fuel (c₁.recv chunk) 0 chunk.length = none) := by
  have hfollows := c.follows_connectThread.of_receiveAll earlier hearlier hreached
  rw [List.nil_append] at hfollows
  obtain ⟨held, hholding, hparse⟩ := hfollows.recv chunk
  have hbuf : 0 + chunk.length ≤ maxBuffSize := by omega
  have hspins : sizesNonzero 0 (earlier.flatten ++ chunk) = false →
      ∀ fuel, receiveLoop fuel (c₁.recv chunk) 0 chunk.length = none := by
    intro hzero fuel
    have hrest : (clientFramer.parse (earlier.flatten ++ chunk)).rest = none := by
      by_contra hne
      rw [(sizesNonzero_iff _).2 hne] at hzero
      exact absurd hzero (by simp)
    rw [hparse] at hrest
    exact receiveLoop_spins fuel hholding hbuf hrest
  refine ⟨⟨fun hends => ?_, fun hsizes => ?_⟩, hspins⟩
  · by_contra hzero
    obtain ⟨fuel, c', hrun⟩ := hends.receiveLoop
    rw [hspins (by simpa using hzero)] at hrun
    exact absurd hrun (by simp)
  · rw [sizesNonzero_iff, hparse] at hsizes
    exact hholding.loopEnds hbuf hsizes

/-- A size byte of 3 in a chunk of its own, then the rest of the packet and half of another. -/
theorem loopEnds_iff_split : ∃ c₁, blank.connectThread.receiveAll [[3]] = some c₁ ∧
    LoopEnds (c₁.recv [0, 0, 7, 5]) 0 4 := by
  obtain ⟨c₁, hreached⟩ : ∃ c₁, blank.connectThread.receiveAll [[3]] = some c₁ := ⟨_, rfl⟩
  exact ⟨c₁, hreached, (loopEnds_iff blank [[3]] [0, 0, 7, 5] (by decide) (by decide)
    hreached).1.2 (by decide)⟩

/-- A chunk of one zero byte, the first that the client receives. -/
theorem not_loopEnds_zero : ∃ c₁, blank.connectThread.receiveAll [] = some c₁ ∧
    ¬LoopEnds (c₁.recv [0]) 0 1 ∧ ∀ fuel, receiveLoop fuel (c₁.recv [0]) 0 1 = none := by
  have hspins : ∀ fuel, receiveLoop fuel (blank.connectThread.recv [0]) 0 1 = none := by
    intro fuel
    have hholding : (blank.connectThread.recv [0]).Holding [] := holding_nil rfl rfl
    refine receiveLoop_spins fuel hholding (by decide) ?_
    exact congrArg Parsed.rest (Framer.parse_reject rfl)
  refine ⟨_, rfl, fun hends => ?_, hspins⟩
  obtain ⟨fuel, c', hrun⟩ := hends.receiveLoop
  rw [hspins fuel] at hrun
  exact absurd hrun (by simp)

end DummyClient
end BGIocpServer
