import BGIocpServer.Buffer
import BGIocpServer.Kit.Framer
import BGIocpServer.Kit.Reaches

/-!
# The receive path

`BGIOSocket::Read`, `BGIOSocket::ReadCallback` and `BGTestSocket::OnRead`, chunk
by chunk, against the reference framing of the byte stream. The environment
chooses, for each completed `WSARecv`, the bytes received, the value of
`m_nPendingWrite` that `OnRead` tests, whether the read buffer is shared
(`m_nRef`), and the stale contents of the buffer `Alloc` returns.

That buffer is taken to be another one than `m_pReadBuf`, as a pool does that returns no
buffer which somebody has. The slots' start-up can break this: the copies that `Initialize`
makes of the slots release `m_pReadBuf` once more than it was taken.

## Main definitions

* `packetFramer`: the reference framing.
* `onReadLoop`: the loop of `OnRead`; `BGIOBuffer.keepTail`: the buffer work of `Read`.
* `ReadSide`, `deliver`: the receive state of a connection and one received chunk.
* `Framed`: the state a stream must leave behind.
* `ReadSide.WindowInside`: the window of `WSARecv` against `m_buffer`.
-/

namespace BGIocpServer
open Kit

/-- `PACKET_RESERVED_LENGTH`: the size byte and the 16-bit type. -/
def packetReservedLength : ℕ := 3

/-- `PENDING_WRITE`: `OnRead` closes a connection with more unsent bytes. -/
def pendingWrite : ℤ := 65535

/-! ## The reference framing -/

/-- The framing rule: with a complete header, the size byte is the packet's length. -/
def packetCut (xs : List UInt8) : Verdict :=
  if xs.length < packetReservedLength then .wait
  else if (xs.headD 0).toNat < packetReservedLength then .reject
  else if (xs.headD 0).toNat ≤ xs.length then .accept (xs.headD 0).toNat
  else .wait

theorem packetCut_append {xs : List UInt8} (ys : List UInt8)
    (h : packetReservedLength ≤ xs.length) :
    ((xs ++ ys).headD 0) = xs.headD 0 := by
  cases xs with
  | nil => simp [packetReservedLength] at h
  | cons x xs => rfl

/-- The reference framing of a byte stream. -/
def packetFramer : Framer UInt8 where
  cut := packetCut
  accept_pos := by
    intro xs n h
    have hthree : packetReservedLength = 3 := rfl
    simp only [packetCut] at h
    split_ifs at h
    · rw [Verdict.accept.injEq] at h
      omega
  accept_le := by
    intro xs n h
    simp only [packetCut] at h
    split_ifs at h
    · rw [Verdict.accept.injEq] at h
      omega
  accept_append := by
    intro xs n ys h
    simp only [packetCut] at h ⊢
    split_ifs at h with hlen hsize hfit
    rw [packetCut_append ys (by omega), List.length_append, if_neg (by omega), if_neg hsize,
      if_pos (by omega)]
    exact h
  reject_append := by
    intro xs ys h
    simp only [packetCut] at h ⊢
    split_ifs at h with hlen hsize
    rw [packetCut_append ys (by omega), List.length_append, if_neg (by omega), if_pos hsize]

/-- What waits for more bytes is shorter than any packet can be. -/
theorem length_le_of_wait {xs : List UInt8} (h : packetFramer.cut xs = .wait) :
    xs.length ≤ 254 := by
  have hbyte : (xs.headD 0).toNat < 256 := UInt8.toNat_lt _
  by_contra hlong
  have hlen : ¬ xs.length < packetReservedLength := by simp only [packetReservedLength]; omega
  have hfit : (xs.headD 0).toNat ≤ xs.length := by omega
  simp only [packetFramer, packetCut, if_neg hlen, if_pos hfit] at h
  split_ifs at h

/-! ## `BGTestSocket::OnRead` -/

/-- What one turn of the loop of `OnRead` does. -/
inductive Turn
  /-- `Read(dwLeft); return;` -/
  | read (dwLeft : ℕ)
  /-- `Close(); return;` -/
  | close
  /-- `Process(packet)`, then on to the next packet. -/
  | process (nSize : ℕ)
  deriving DecidableEq, Repr

/-- One turn of the loop, at `szBuffer` with `dwSize` bytes left. -/
def onReadTurn (buffer : ℕ → UInt8) (szBuffer dwSize : ℕ) : Turn :=
  if dwSize < packetReservedLength then .read dwSize
  else
    let nSize := (buffer szBuffer).toNat
    if dwSize < nSize then
      if nSize > bufferSize then .close else .read dwSize
    else if nSize < packetReservedLength then .close
    else .process nSize

/-- What the loop did: the packets handed to `Process`, every subtraction
`dwSize -= nSize`, and the turn that left the loop. -/
structure LoopOut where
  packets : List (List UInt8)
  subs : List (ℕ × ℕ)
  last : Turn

/-- The loop of `OnRead`, for at most `fuel` turns. -/
def onReadLoop (buffer : ℕ → UInt8) : ℕ → ℕ → ℕ → Option LoopOut
  | 0, _, _ => none
  | fuel + 1, szBuffer, dwSize =>
      match onReadTurn buffer szBuffer dwSize with
      | .process nSize =>
          (onReadLoop buffer fuel (szBuffer + nSize) (dwordSub dwSize nSize)).map fun out =>
            ⟨load buffer szBuffer nSize :: out.packets, (dwSize, nSize) :: out.subs, out.last⟩
      | turn => some ⟨[], [], turn⟩

/-- A turn decides as the reference framing does on the bytes that are left. -/
theorem onReadTurn_eq (buffer : ℕ → UInt8) (szBuffer dwSize : ℕ) :
    onReadTurn buffer szBuffer dwSize =
      match packetFramer.cut (load buffer szBuffer dwSize) with
      | .wait => .read dwSize
      | .reject => .close
      | .accept n => .process n := by
  simp only [onReadTurn, packetFramer, packetCut, length_load]
  by_cases hlen : dwSize < packetReservedLength
  · simp [hlen]
  · obtain ⟨k, rfl⟩ : ∃ k, dwSize = k + 1 :=
      ⟨dwSize - 1, by simp only [packetReservedLength] at hlen; omega⟩
    have hhead : (load buffer szBuffer (k + 1)).headD 0 = buffer szBuffer := by
      rw [load_succ]
      rfl
    have hbyte : (buffer szBuffer).toNat < 256 := UInt8.toNat_lt _
    -- a size byte never exceeds `BUFFER_SIZE`, so the inner `Close` is dead
    have hdead : ¬ (buffer szBuffer).toNat > bufferSize := by simp only [bufferSize]; omega
    simp only [if_neg hlen, hhead, if_neg hdead]
    by_cases hfit : k + 1 < (buffer szBuffer).toNat
    · have hmin : ¬ (buffer szBuffer).toNat < packetReservedLength := by
        simp only [packetReservedLength] at hlen ⊢
        omega
      simp [hfit, hmin, Nat.not_le.mpr hfit]
    · by_cases hmin : (buffer szBuffer).toNat < packetReservedLength
      · simp [hfit, hmin]
      · simp [hfit, hmin, Nat.not_lt.mp hfit]

/-- The loop agrees with the reference parse of the bytes it is given: it ends,
hands over the packets of the parse, never borrows, and leaves the kept bytes at
the end of the region it has read. -/
structure LoopSpec (buffer : ℕ → UInt8) (szBuffer dwSize : ℕ) (out : LoopOut) : Prop where
  packets : out.packets = (packetFramer.parse (load buffer szBuffer dwSize)).packets
  no_borrow : ∀ p ∈ out.subs, p.2 ≤ p.1
  last_close : (packetFramer.parse (load buffer szBuffer dwSize)).rest = none → out.last = .close
  last_read : ∀ kept, (packetFramer.parse (load buffer szBuffer dwSize)).rest = some kept →
    out.last = .read kept.length ∧ kept.length ≤ dwSize ∧
      load buffer (szBuffer + dwSize - kept.length) kept.length = kept

theorem onReadLoop_spec (buffer : ℕ → UInt8) :
    ∀ fuel szBuffer dwSize, dwSize < fuel → dwSize < 2 ^ 32 →
      ∃ out, onReadLoop buffer fuel szBuffer dwSize = some out ∧
        LoopSpec buffer szBuffer dwSize out := by
  intro fuel
  induction fuel with
  | zero => intro szBuffer dwSize h; omega
  | succ fuel ih =>
      intro szBuffer dwSize hfuel hword
      rw [onReadLoop, onReadTurn_eq]
      cases hc : packetFramer.cut (load buffer szBuffer dwSize) with
      | wait =>
          refine ⟨_, rfl, ?_, by simp, ?_, ?_⟩
          · simp [Framer.parse_wait hc]
          · simp [Framer.parse_wait hc]
          · intro kept hkept
            rw [Framer.parse_wait hc, Option.some.injEq] at hkept
            subst hkept
            simp
      | reject =>
          refine ⟨_, rfl, ?_, by simp, fun _ => rfl, ?_⟩
          · simp [Framer.parse_reject hc]
          · simp [Framer.parse_reject hc]
      | accept n =>
          have hpos := packetFramer.accept_pos hc
          have hle := packetFramer.accept_le hc
          rw [length_load] at hle
          have hsub : dwordSub dwSize n = dwSize - n := dwordSub_of_le hle hword
          have hsplit : load buffer szBuffer dwSize =
              load buffer szBuffer n ++ load buffer (szBuffer + n) (dwSize - n) := by
            rw [← load_add]
            congr 1
            omega
          have htake : (load buffer szBuffer dwSize).take n = load buffer szBuffer n := by
            rw [hsplit, List.take_left' (length_load _ _ _)]
          have hdrop : (load buffer szBuffer dwSize).drop n =
              load buffer (szBuffer + n) (dwSize - n) := by
            rw [hsplit, List.drop_left' (length_load _ _ _)]
          obtain ⟨out, hout, spec⟩ := ih (szBuffer + n) (dwSize - n) (by omega) (by omega)
          have hparse := Framer.parse_accept hc
          rw [htake, hdrop] at hparse
          simp only [hsub, hout, Option.map_some, Option.some.injEq, exists_eq_left']
          refine ⟨?_, ?_, ?_, ?_⟩
          · rw [hparse, ← spec.packets]
          · intro p hp
            rcases List.mem_cons.mp hp with rfl | hp
            · exact hle
            · exact spec.no_borrow p hp
          · intro hrest
            rw [hparse] at hrest
            exact spec.last_close hrest
          · intro kept hrest
            rw [hparse] at hrest
            obtain ⟨hlast, hshort, hkept⟩ := spec.last_read kept hrest
            have hoff : szBuffer + dwSize - kept.length
                = szBuffer + n + (dwSize - n) - kept.length := by omega
            exact ⟨hlast, by omega, by rw [hoff, hkept]⟩

/-! ## `BGIOSocket::Read` and `BGIOSocket::ReadCallback` -/

/-- The receive side of a connection. -/
structure ReadSide where
  /-- The buffer `m_pReadBuf` points at. -/
  readBuf : BGIOBuffer
  /-- The outstanding `WSARecv`: `wsabuf.buf` as an offset into `m_buffer`, and
  `wsabuf.len`. Once the connection is closed there is none. -/
  window : Option (ℕ × ℕ)
  /-- The packets handed to `Process` so far. -/
  processed : List (List UInt8)
  /-- Minuend and subtrahend of every `DWORD` subtraction made so far. -/
  subs : List (ℕ × ℕ)

/-- One completed `WSARecv`, and what the environment decides until the next. -/
structure Recv where
  /-- The bytes received; `dwTransferred` is their number. -/
  chunk : List UInt8
  /-- `m_nPendingWrite` when `OnRead` tests it. -/
  nPendingWrite : ℤ
  /-- `m_nRef` of the read buffer when `Read` tests it. -/
  nRef : ℤ
  /-- The buffer `Alloc` returns, should `Read` need one. -/
  fresh : BGIOBuffer

/-- `Read` on its buffer: the unprocessed tail moves to the front, of a new buffer
if the old one is shared. -/
def BGIOBuffer.keepTail (b fresh : BGIOBuffer) (dwLeft : ℕ) : BGIOBuffer :=
  let b := { b with dwSize := dwordSub b.dwSize dwLeft }
  if b.nRef ≠ 1 then
    let pNextBuf := fresh.init
    { pNextBuf with
      buffer := store pNextBuf.buffer 0 (load b.buffer b.dwSize dwLeft)
      dwSize := dwLeft }
  else
    { b with buffer := store b.buffer 0 (load b.buffer b.dwSize dwLeft), dwSize := dwLeft }

namespace ReadSide

/-- `BGIOSocket::Read(dwLeft)`, the `WSARecv` at its end succeeding. -/
def read (s : ReadSide) (nRef : ℤ) (fresh : BGIOBuffer) (dwLeft : ℕ) : ReadSide :=
  let b := { s.readBuf with nRef := nRef }.keepTail fresh dwLeft
  { s with
    readBuf := b
    window := some (b.dwSize, dwordSub bufferSize b.dwSize)
    subs := s.subs ++ [(s.readBuf.dwSize, dwLeft)] }

/-- `BGIOSocket::Close`, as far as receiving goes: no `WSARecv` follows. -/
def close (s : ReadSide) : ReadSide := { s with window := none }

/-- `BGTestSocket::OnRead`; `none` if the loop does not end. -/
def onRead (s : ReadSide) (ev : Recv) : Option ReadSide :=
  if ev.nPendingWrite > pendingWrite then some s.close
  else
    (onReadLoop s.readBuf.buffer (s.readBuf.dwSize + 1) 0 s.readBuf.dwSize).map fun out =>
      let s := { s with processed := s.processed ++ out.packets, subs := s.subs ++ out.subs }
      match out.last with
      | .read dwLeft => s.read ev.nRef ev.fresh dwLeft
      | _ => s.close

/-- `BGIOSocket::ReadCallback(dwTransferred)`, the bytes already in the buffer. -/
def readCallback (s : ReadSide) (ev : Recv) : Option ReadSide :=
  if ev.chunk.length = 0 then some s.close
  else { s with readBuf.dwSize := s.readBuf.dwSize + ev.chunk.length }.onRead ev

/-- One received chunk: `WSARecv` stores it at the start of its window and
completes. A closed connection has no `WSARecv` outstanding and receives nothing. -/
def deliver (s : ReadSide) (ev : Recv) : Option ReadSide :=
  match s.window with
  | none => some s
  | some (start, _) =>
      { s with readBuf.buffer := store s.readBuf.buffer start ev.chunk }.readCallback ev

/-- The receive side after `OnCreate`, whatever buffer the slot came with. -/
def start (b : BGIOBuffer) (fresh : BGIOBuffer) : ReadSide :=
  read ⟨b, none, [], []⟩ b.nRef fresh 0

end ReadSide

/-- The bytes received by a list of chunks. -/
def stream (evs : List Recv) : List UInt8 := (evs.map (·.chunk)).flatten

/-- Every chunk is non-empty and fits in `m_buffer` behind the bytes the reference
framing keeps, and `m_nPendingWrite` stays within its bound. -/
def Receivable (evs : List Recv) : Prop :=
  ∀ pre ev post, evs = pre ++ ev :: post →
    ev.chunk ≠ [] ∧ ev.nPendingWrite ≤ pendingWrite ∧
      ∀ kept, (packetFramer.parse (stream pre)).rest = some kept →
        kept.length + ev.chunk.length ≤ bgBufferSize

/-- What the stream `xs` must leave behind: the packets of its reference framing
handed over in order, no `DWORD` subtraction that borrows, and either a closed
connection or the kept bytes, at most 254 of them, at the front of the buffer. -/
structure Framed (s : ReadSide) (xs : List UInt8) : Prop where
  processed : s.processed = (packetFramer.parse xs).packets
  no_borrow : ∀ p ∈ s.subs, p.2 ≤ p.1
  closed : (packetFramer.parse xs).rest = none → s.window = none
  kept : ∀ kept, (packetFramer.parse xs).rest = some kept →
    s.window = some (kept.length, bufferSize - kept.length) ∧ s.readBuf.bytes = kept ∧
      kept.length ≤ 254

/-- Either branch of `Read` leaves the unprocessed tail at the front. -/
theorem bytes_keepTail {b : BGIOBuffer} (fresh : BGIOBuffer) {dwLeft : ℕ} (hle : dwLeft ≤ b.dwSize)
    (hword : b.dwSize < 2 ^ 32) :
    (b.keepTail fresh dwLeft).dwSize = dwLeft ∧
      (b.keepTail fresh dwLeft).bytes = load b.buffer (b.dwSize - dwLeft) dwLeft := by
  have hlen : (load b.buffer (b.dwSize - dwLeft) dwLeft).length = dwLeft := length_load _ _ _
  simp only [BGIOBuffer.keepTail, dwordSub_of_le hle hword]
  split
  · exact ⟨rfl, load_store_of_length _ 0 hlen⟩
  · exact ⟨rfl, load_store_of_length _ 0 hlen⟩

/-- A `Read` that keeps at most what the buffer holds: no borrow, and a window
that starts directly behind the kept bytes. -/
theorem read_spec {s : ReadSide} (nRef : ℤ) (fresh : BGIOBuffer) {dwLeft : ℕ}
    (hle : dwLeft ≤ s.readBuf.dwSize) (hword : s.readBuf.dwSize < 2 ^ 32)
    (hfit : dwLeft ≤ bufferSize) :
    (s.read nRef fresh dwLeft).readBuf.bytes =
        load s.readBuf.buffer (s.readBuf.dwSize - dwLeft) dwLeft ∧
      (s.read nRef fresh dwLeft).window = some (dwLeft, bufferSize - dwLeft) := by
  obtain ⟨hsize, hbytes⟩ := bytes_keepTail (b := { s.readBuf with nRef := nRef }) fresh
    hle hword
  refine ⟨hbytes, ?_⟩
  simp only [ReadSide.read, hsize]
  rw [dwordSub_of_le hfit (by simp only [bufferSize]; omega)]

/-- `OnRead` on a buffer that holds the stream's unprocessed end. -/
theorem onRead_framed {s : ReadSide} {ev : Recv} {xs kept : List UInt8}
    (hproc : s.processed = (packetFramer.parse xs).packets) (hsubs : ∀ p ∈ s.subs, p.2 ≤ p.1)
    (hkept : (packetFramer.parse xs).rest = some kept)
    (hbuf : s.readBuf.bytes = kept ++ ev.chunk) (hsize : s.readBuf.dwSize ≤ bgBufferSize)
    (hpending : ev.nPendingWrite ≤ pendingWrite) :
    ∃ s', s.onRead ev = some s' ∧ Framed s' (xs ++ ev.chunk) := by
  have hbound : bgBufferSize = 4096 := rfl
  have hword : s.readBuf.dwSize < 2 ^ 32 := by omega
  obtain ⟨out, hout, spec⟩ := onReadLoop_spec s.readBuf.buffer (s.readBuf.dwSize + 1) 0
    s.readBuf.dwSize (Nat.lt_succ_self _) hword
  -- the loop parses the kept bytes and the chunk, which is feeding the chunk to the parse
  have hfeed : packetFramer.parse (xs ++ ev.chunk) =
      ⟨(packetFramer.parse xs).packets ++ (packetFramer.parse (kept ++ ev.chunk)).packets,
        (packetFramer.parse (kept ++ ev.chunk)).rest⟩ := by
    rw [Framer.parse_append, Framer.feed, hkept]
  have hload : load s.readBuf.buffer 0 s.readBuf.dwSize = kept ++ ev.chunk := hbuf
  have hpackets := spec.packets
  have hclose := spec.last_close
  have hread := spec.last_read
  rw [hload] at hpackets hclose hread
  have hnb : ∀ p ∈ s.subs ++ out.subs, p.2 ≤ p.1 := by
    intro p hp
    rcases List.mem_append.mp hp with hp | hp
    · exact hsubs p hp
    · exact spec.no_borrow p hp
  have hcheck : ¬ ev.nPendingWrite > pendingWrite := by omega
  rw [ReadSide.onRead, if_neg hcheck, hout]
  refine ⟨_, rfl, ?_⟩
  cases hrest : (packetFramer.parse (kept ++ ev.chunk)).rest with
  | none =>
      simp only [hclose hrest]
      refine ⟨?_, hnb, fun _ => rfl, ?_⟩
      · simp [ReadSide.close, hfeed, hproc, hpackets]
      · intro rest hr
        simp [hfeed, hrest] at hr
  | some rest =>
      obtain ⟨hlast, hshort, hrestLoad⟩ := hread rest hrest
      have hwait : rest.length ≤ 254 := length_le_of_wait (Framer.cut_rest hrest)
      simp only [hlast]
      obtain ⟨hbytes, hwindow⟩ := read_spec (s := { s with
        processed := s.processed ++ out.packets, subs := s.subs ++ out.subs })
        ev.nRef ev.fresh hshort hword (by simp only [bufferSize]; omega)
      refine ⟨?_, ?_, ?_, ?_⟩
      · simp [ReadSide.read, hfeed, hproc, hpackets]
      · intro p hp
        rcases List.mem_append.mp hp with hp | hp
        · exact hnb p hp
        · rw [List.mem_singleton.mp hp]
          exact hshort
      · intro hr
        simp [hfeed, hrest] at hr
      · intro rest' hr
        simp only [hfeed, hrest, Option.some.injEq] at hr
        subst hr
        refine ⟨hwindow, ?_, hwait⟩
        rw [hbytes, ← hrestLoad]
        simp

/-- One received chunk. -/
theorem deliver_framed {s : ReadSide} {ev : Recv} {xs : List UInt8} (h : Framed s xs)
    (hne : ev.chunk ≠ []) (hpending : ev.nPendingWrite ≤ pendingWrite)
    (hfits : ∀ kept, (packetFramer.parse xs).rest = some kept →
      kept.length + ev.chunk.length ≤ bgBufferSize) :
    ∃ s', s.deliver ev = some s' ∧ Framed s' (xs ++ ev.chunk) := by
  cases hrest : (packetFramer.parse xs).rest with
  | none =>
      have hfeed : packetFramer.parse (xs ++ ev.chunk) = packetFramer.parse xs := by
        rw [Framer.parse_append, Framer.feed, hrest]
      refine ⟨s, by rw [ReadSide.deliver, h.closed hrest], ?_, h.no_borrow, ?_, ?_⟩
      · rw [hfeed, h.processed]
      · intro _
        exact h.closed hrest
      · intro kept hr
        simp [hfeed, hrest] at hr
  | some kept =>
      obtain ⟨hwindow, hbytes, -⟩ := h.kept kept hrest
      have hlen : s.readBuf.dwSize = kept.length := by
        rw [← BGIOBuffer.length_bytes, hbytes]
      have hpos : ev.chunk.length ≠ 0 := by simpa using hne
      rw [ReadSide.deliver, hwindow]
      simp only [ReadSide.readCallback, if_neg hpos]
      refine onRead_framed h.processed h.no_borrow hrest ?_ ?_ hpending
      · simp only [BGIOBuffer.bytes, hlen]
        rw [load_store_append, ← hlen]
        exact congrArg (· ++ ev.chunk) hbytes
      · simpa only [hlen] using hfits kept hrest

/-- After `OnCreate` nothing is processed and nothing is kept, whatever the slot's
buffer held before. -/
theorem framed_start (b fresh : BGIOBuffer) : Framed (ReadSide.start b fresh) [] := by
  have hparse : packetFramer.parse [] = ⟨[], some []⟩ :=
    Framer.parse_wait (by simp [packetFramer, packetCut, packetReservedLength])
  have hsize : (b.keepTail fresh 0).dwSize = 0 := by
    simp only [BGIOBuffer.keepTail]
    split <;> rfl
  have hbytes : (b.keepTail fresh 0).bytes = [] := by
    rw [← List.length_eq_zero_iff, BGIOBuffer.length_bytes, hsize]
  refine ⟨?_, ?_, ?_, ?_⟩
  · simp [ReadSide.start, ReadSide.read, hparse]
  · simp [ReadSide.start, ReadSide.read]
  · simp [hparse]
  · intro kept hkept
    rw [hparse, Option.some.injEq] at hkept
    subst hkept
    refine ⟨?_, hbytes, by simp⟩
    simp only [ReadSide.start, ReadSide.read, hsize]
    rfl

/-- A stream that fits in the buffer as a whole is received however it is cut. -/
theorem receivable_of_length_le {evs : List Recv} (hlen : (stream evs).length ≤ bgBufferSize)
    (hne : ∀ ev ∈ evs, ev.chunk ≠ []) (hpending : ∀ ev ∈ evs, ev.nPendingWrite ≤ pendingWrite) :
    Receivable evs := by
  rintro pre ev post rfl
  refine ⟨hne ev (by simp), hpending ev (by simp), ?_⟩
  intro kept hkept
  have hshort := congrArg List.length (Framer.flatten_parse hkept)
  simp only [stream, List.map_append, List.map_cons, List.flatten_append, List.flatten_cons,
    List.length_append] at hlen hshort ⊢
  omega

/-- **Packet framing does not depend on how TCP cuts the stream.** However the
bytes arrive, and whether or not the read buffer is shared at each `Read`, every
`OnRead` returns and the connection ends up as the reference framing of the whole
stream says. -/
theorem runAll_deliver_framed (b fresh : BGIOBuffer) (evs : List Recv) (h : Receivable evs) :
    ∃ s, runAll ReadSide.deliver (ReadSide.start b fresh) evs = some s ∧ Framed s (stream evs) := by
  have key : ∀ (post pre : List Recv) (s : ReadSide), evs = pre ++ post → Framed s (stream pre) →
      ∃ s', runAll ReadSide.deliver s post = some s' ∧ Framed s' (stream evs) := by
    intro post
    induction post with
    | nil =>
        intro pre s hevs hs
        rw [List.append_nil] at hevs
        exact ⟨s, rfl, hevs ▸ hs⟩
    | cons ev post ih =>
        intro pre s hevs hs
        obtain ⟨hne, hpending, hfits⟩ := h pre ev post hevs
        obtain ⟨t, hdeliver, ht⟩ := deliver_framed hs hne hpending hfits
        have hstream : stream (pre ++ [ev]) = stream pre ++ ev.chunk := by simp [stream]
        obtain ⟨s', hrun, hs'⟩ := ih (pre ++ [ev]) t (by simp [hevs]) (hstream ▸ ht)
        exact ⟨s', by rw [runAll_cons hdeliver, hrun], hs'⟩
  exact key evs [] _ rfl (framed_start b fresh)

/-- A login header split inside its type field, the buffer shared at the first
`Read`, then a size byte below the header length: one packet, then closed. -/
theorem runAll_deliver_framed_split :
    ∃ s, runAll ReadSide.deliver (ReadSide.start .blank .blank)
        [⟨[3, 3], 0, 2, .blank⟩, ⟨[0, 1], 10, 1, .blank⟩, ⟨[0, 0, 9], 0, 1, .blank⟩] = some s ∧
      Framed s [3, 3, 0, 1, 0, 0, 9] :=
  runAll_deliver_framed .blank .blank _
    (receivable_of_length_le (by decide) (by decide) (by decide))

/-! ## The window given to `WSARecv` -/

namespace ReadSide
variable {s t : ReadSide} {ev : Recv}

/-- The outstanding `WSARecv` is the one that `Read` starts: behind the kept bytes, and as
long as `BUFFER_SIZE` allows. -/
def Windowed (s : ReadSide) : Prop :=
  ∀ w ∈ s.window, w = (s.readBuf.dwSize, dwordSub bufferSize s.readBuf.dwSize)

theorem read_windowed (s : ReadSide) (nRef : ℤ) (fresh : BGIOBuffer) (dwLeft : ℕ) :
    (s.read nRef fresh dwLeft).Windowed := by
  intro w hw
  exact (Option.some.inj hw).symm

theorem close_windowed (s : ReadSide) : s.close.Windowed := by
  intro w hw
  cases hw

theorem onRead_windowed (h : s.onRead ev = some t) : t.Windowed := by
  rw [onRead] at h
  split at h
  · obtain rfl := Option.some.inj h
    exact s.close_windowed
  · rw [Option.map_eq_some_iff] at h
    obtain ⟨out, -, rfl⟩ := h
    cases out.last with
    | read dwLeft => exact read_windowed _ _ _ _
    | close => exact close_windowed _
    | process nSize => exact close_windowed _

theorem deliver_windowed (hs : s.Windowed) (h : s.deliver ev = some t) : t.Windowed := by
  rw [deliver] at h
  split at h
  · exact Option.some.inj h ▸ hs
  · rw [readCallback] at h
    split at h
    · obtain rfl := Option.some.inj h
      exact close_windowed _
    · exact onRead_windowed h

/-- `BUFFER_SIZE` is past the end of `m_buffer`, so no size leaves the window inside. -/
theorem bgBufferSize_lt_windowEnd (dwSize : ℕ) :
    bgBufferSize < dwSize + dwordSub bufferSize dwSize := by
  simp only [bgBufferSize, bufferSize, dwordSub]
  omega

end ReadSide

/-- The window of the outstanding `WSARecv` ends inside `m_buffer`, and `m_dwSize` stays
inside whatever number of bytes comes. -/
structure ReadSide.WindowInside (s : ReadSide) : Prop where
  inside : ∀ w ∈ s.window, w.1 + w.2 ≤ bgBufferSize
  size : ∀ w ∈ s.window, ∀ dwTransferred ≤ w.2, s.readBuf.dwSize + dwTransferred ≤ bgBufferSize

/-- **Every `WSARecv` may write past `m_buffer`**: whatever has been received, the window
ends behind the array, and a transfer that `WSARecv` may return takes `m_dwSize` there. -/
theorem not_windowInside_of_reaches {b fresh : BGIOBuffer} {s : ReadSide}
    (h : Reaches ReadSide.deliver Always (ReadSide.start b fresh) s) {start len : ℕ}
    (hwindow : s.window = some (start, len)) :
    bgBufferSize < start + len ∧
      (∃ dwTransferred ≤ len, bgBufferSize < s.readBuf.dwSize + dwTransferred) ∧
      ¬s.WindowInside := by
  have hwindowed : s.Windowed :=
    h.invariant ReadSide.Windowed (ReadSide.read_windowed _ _ _ _)
      fun _ _ _ hs _ hstep => ReadSide.deliver_windowed hs hstep
  have hend := ReadSide.bgBufferSize_lt_windowEnd s.readBuf.dwSize
  obtain ⟨rfl, rfl⟩ := Prod.mk.inj (hwindowed _ hwindow)
  refine ⟨hend, ⟨_, le_rfl, hend⟩, fun hinside => ?_⟩
  exact absurd (hinside.inside _ hwindow) (Nat.not_le.mpr hend)

/-- After one packet and two bytes of the next. -/
theorem not_windowInside_of_reaches_split :
    ∃ s, runAll ReadSide.deliver (ReadSide.start .blank .blank)
        [⟨[3, 3, 0, 9, 3], 0, 1, .blank⟩] = some s ∧
      s.window = some (2, 7998) ∧ bgBufferSize < 2 + 7998 ∧ ¬s.WindowInside := by
  have hrun : ∃ s, runAll ReadSide.deliver (ReadSide.start .blank .blank)
      [⟨[3, 3, 0, 9, 3], 0, 1, .blank⟩] = some s ∧ s.window = some (2, 7998) :=
    ⟨_, rfl, rfl⟩
  obtain ⟨s, hs, hwindow⟩ := hrun
  obtain ⟨hend, -, hnot⟩ := not_windowInside_of_reaches (Reaches.always_of_runAll hs) hwindow
  exact ⟨s, hs, hwindow, hend, hnot⟩

/-- The first `Read` of a connection, from `OnCreate`: 8000 bytes into an array of 4096. -/
theorem not_windowInside_start :
    (ReadSide.start .blank .blank).window = some (0, 8000) ∧
      ¬(ReadSide.start .blank .blank).WindowInside := by
  refine ⟨rfl, fun hinside => ?_⟩
  exact absurd (hinside.inside (0, 8000) rfl) (by decide)

end BGIocpServer
