import BGIocpServer.SendSteps

/-!
# The write queue is a FIFO of bytes, and a reused slot starts clean

Two results about whole runs of the send side, and for each the run that shows
where it ends.

* Within a connection (`fifo_of_reaches`): the bytes completed and the bytes queued
  are the bytes written. `Write` tests the coalesced size against `bufferSize`, which
  is larger than `m_buffer`, and the copy then runs into `m_dwSize`
  (`not_fifo_overrun`).
* From one connection to the next (`reuse_of_reaches`): what is sent was written on
  the same connection. Nothing empties the queue of the connection that ends
  (`not_reuse_leak`).
-/

namespace BGIocpServer
open Kit

variable {ι : Type} [DecidableEq ι]

/-- The write queue as a FIFO of bytes, with the list `ids` of its buffers. -/
structure Fifo (s : SendSide ι) (ids : List Ptr) : Prop where
  chain : Chain (fun p => (s.heap p).pNext) s.sock.pFirstBuf ids
  last_eq : s.sock.pLastBuf = ids.getLast?
  null_iff : s.sock.pFirstBuf = none ↔ s.sock.pLastBuf = none
  bytes : s.completed s.conn ++ contents s.heap ids = s.written s.conn
  one_send : s.sends.length ≤ 1
  /-- The outstanding send is that of `m_pFirstBuf`, whose size and bytes are still
  those it was given. -/
  send_first : ∀ snd ∈ s.sends, s.sock.pFirstBuf = some snd.buf ∧
    (s.heap snd.buf).dwSize = snd.len ∧ (s.heap snd.buf).bytes = snd.data
  pending : s.sock.nPendingWrite = queuedSize s.heap ids

/-- The steps of one connection: the payloads are non-empty and fit in a buffer,
every `WSASend` succeeds and completes in full. -/
def OneConnection (s : SendSide ι) : SendAct ι → Prop
  | .callWrite _ _ data => data ≠ [] ∧ data.length ≤ bgBufferSize
  | .send _ ok => ok = true
  | .complete _ i bSuccess n => bSuccess = true ∧ ∀ snd, s.sends[i]? = some snd → n = snd.len
  | .close | .create .. => False
  | .lock _ | .free .. => True

/-- `Write` stays inside `m_buffer` and inside the range of `m_nPendingWrite`. -/
def WritesFit (s : SendSide ι) : SendAct ι → Prop
  | .lock t => ∀ p, s.pc t = .writeLock p → s.FitsBuffer p ∧ s.FitsLong p
  | _ => True

omit [DecidableEq ι] in
theorem SendInv.fifo [Fintype ι] {s : SendSide ι} {ids unsent : List Ptr}
    (h : SendInv True s ids unsent) : Fifo s ids where
  chain := h.queue.chain
  last_eq := h.queue.last_eq
  null_iff := by
    rw [h.queue.first_eq, h.queue.last_eq, List.head?_eq_none_iff, List.getLast?_eq_none_iff]
  bytes := h.history.completed_eq
  one_send := by
    have := h.tokens.le_one
    omega
  send_first := by
    intro snd hsnd
    obtain ⟨hhead, -, hlen, hdata⟩ := h.sends_ok snd hsnd
    exact ⟨by rw [h.queue.first_eq, hhead], hlen.symm, hdata.symm⟩
  pending := h.pending_eq trivial

/-- **The write queue is an exact FIFO** at every point of a connection whose
writes fit, on a slot whose life so far met `SendOk`. -/
theorem fifo_of_reaches [Fintype ι] {heap : Heap} {pReadBuf : Ptr} {s₀ s : SendSide ι}
    (h₀ : Reaches sendStep (SendOk True) (.start ι heap pReadBuf) s₀)
    (h : Reaches sendStep (fun s a => OneConnection s a ∧ WritesFit s a) s₀ s) :
    ∃ ids, Fifo s ids := by
  have hstart := SendSide.inv_of_reaches h₀
  have hinv := h.invariant (fun s => ∃ ids unsent, SendInv True s ids unsent) hstart ?_
  · obtain ⟨ids, unsent, hinv⟩ := hinv
    exact ⟨ids, hinv.fifo⟩
  intro t a u hinv hC hs
  apply sendStep_inv hinv ?_ hs
  cases a with
  | callWrite t p data => exact hC.1.2
  | lock t => exact fun p hp => ⟨(hC.2 p hp).1, fun _ => (hC.2 p hp).2⟩
  | create newId newSocket addr port => exact hC.1.elim
  | send t ok => trivial
  | free t next => trivial
  | complete t i bSuccess n => trivial
  | close => trivial

/-- The slot's first connection, taken by `CreateSocket`. -/
def SendSide.opened (ι : Type) (pReadBuf : Ptr) : SendSide ι :=
  (SendSide.start ι (fun _ => .blank) pReadBuf).create 0 1 0 0

/-- Three writes on the first connection, the third coalesced into the second. -/
theorem fifo_of_reaches_coalesced : ∃ s, runAll sendStep (.opened Unit 0)
    [.callWrite () 1 [7], .lock (), .send () true, .callWrite () 2 [8], .lock (),
      .callWrite () 3 [9], .lock ()] = some s ∧
    s.written 1 = [7, 8, 9] ∧ (s.heap 2).dwSize = 2 ∧ ∃ ids, Fifo s ids := by
  have h₀ : Reaches sendStep (SendOk True) (.start Unit (fun _ => .blank) 0) (.opened Unit 0) :=
    .tail (a := .create 0 1 0 0) .refl (fun _ => ⟨fun _ => .inl rfl, rfl, rfl⟩) rfl
  refine ⟨_, rfl, rfl, rfl, fifo_of_reaches h₀ ?_⟩
  refine .tail (a := .lock ()) (.tail (a := .callWrite () 3 [9]) (.tail (a := .lock ())
    (.tail (a := .callWrite () 2 [8]) (.tail (a := .send () true) (.tail (a := .lock ())
      (.tail (a := .callWrite () 1 [7]) .refl ?_ rfl) ?_ rfl) ?_ rfl) ?_ rfl) ?_ rfl) ?_ rfl) ?_ rfl
  · exact ⟨⟨by decide, by decide⟩, trivial⟩
  · refine ⟨trivial, fun p hp => ?_⟩
    cases hp
    exact ⟨by decide, by decide⟩
  · exact ⟨rfl, trivial⟩
  · exact ⟨⟨by decide, by decide⟩, trivial⟩
  · refine ⟨trivial, fun p hp => ?_⟩
    cases hp
    exact ⟨by decide, by decide⟩
  · exact ⟨⟨by decide, by decide⟩, trivial⟩
  · refine ⟨trivial, fun p hp => ?_⟩
    cases hp
    exact ⟨by decide, by decide⟩

/-! ## A write that runs past its buffer -/

/-- A `Write` that passes the checks comes to its locked region. -/
theorem callWrite_eq {s : SendSide ι} {t : ι} {p : Ptr} {data : List UInt8} (hne : data ≠ [])
    (hle : data.length ≤ bgBufferSize) :
    s.callWrite t p data =
      { s.setBuf p ((s.heap p).init.fill data) with
        live := Function.update s.live p true
        callConn := Function.update s.callConn t s.conn }.goto t (.writeLock p) := by
  have hmax : bgBufferSize ≤ bufferSize := by decide
  have h0 : ¬ ((s.heap p).init.fill data).dwSize = 0 :=
    fun h => hne (List.eq_nil_of_length_eq_zero h)
  have hbig : ¬ ((s.heap p).init.fill data).dwSize > bufferSize := Nat.not_lt.mpr (hle.trans hmax)
  simp only [SendSide.callWrite, h0, hbig, if_false]

/-- `Write` of `data` behind the only buffer of the queue, which is being sent. -/
theorem runAll_append_write {s : SendSide ι} {t : ι} {p l : Ptr} {data : List UInt8}
    (hne : data ≠ []) (hle : data.length ≤ bgBufferSize) (ht : s.pc t = .idle)
    (hp : s.live p = false) (hpl : l ≠ p) (hfirst : s.sock.pFirstBuf = some l)
    (hlast : s.sock.pLastBuf = some l) :
    runAll sendStep s [.callWrite t p data, .lock t] = some { s with
      heap := Function.update (Function.update s.heap p ((s.heap p).init.fill data)) l
        { s.heap l with pNext := some p }
      live := Function.update s.live p true
      callConn := Function.update s.callConn t s.conn
      pc := Function.update s.pc t .idle
      sock.pLastBuf := some p
      sock.nPendingWrite := toLong (s.sock.nPendingWrite + data.length)
      written := record s.written s.conn data } := by
  have hlen : ((s.heap p).init.fill data).dwSize = data.length := rfl
  simp [runAll, sendStep, ht, hp, callWrite_eq hne hle, SendSide.goto, SendSide.setBuf,
    SendSide.writeRegion, BGTestSocket.enqueue, hfirst, hlast, hpl, hlen]

/-- `Write` of `data` into the last buffer of the queue, which is not the first one. -/
theorem runAll_coalesce_write {s : SendSide ι} {t : ι} {p first l : Ptr} {data : List UInt8}
    {c : BGIOBuffer} (hne : data ≠ []) (hle : data.length ≤ bgBufferSize) (ht : s.pc t = .idle)
    (hp : s.live p = false) (hpl : l ≠ p) (hfirst : s.sock.pFirstBuf = some first)
    (hlast : s.sock.pLastBuf = some l) (hfl : first ≠ l)
    (hguard : ((s.heap l).dwSize + data.length) % 2 ^ 32 ≤ bufferSize)
    (hc : (s.heap l).coalesce data = some c) :
    runAll sendStep s [.callWrite t p data, .lock t] = some { s with
      heap := Function.update (Function.update s.heap p ((s.heap p).init.fill data)) l c
      live := Function.update s.live p true
      callConn := Function.update s.callConn t s.conn
      pc := Function.update s.pc t (.writeFree p)
      sock.nPendingWrite := toLong (s.sock.nPendingWrite + data.length)
      written := record s.written s.conn data } := by
  have hlen : ((s.heap p).init.fill data).dwSize = data.length := rfl
  rw [show (2 : ℕ) ^ 32 = 4294967296 from rfl] at hguard
  simp [runAll, sendStep, ht, hp, callWrite_eq hne hle, SendSide.goto, SendSide.setBuf,
    SendSide.writeRegion, BGTestSocket.enqueue, hfirst, hlast, hpl, hfl, hlen, hguard, hc]

/-- A byte is written and sent; a full buffer and four more bytes are queued behind it. -/
def overrunWrites (full : List UInt8) (w x y z : UInt8) : List (SendAct Unit) :=
  [.callWrite () 1 [7], .lock (), .send () true] ++
    ([.callWrite () 2 full, .lock ()] ++ [.callWrite () 3 [w, x, y, z], .lock ()])

/-- The same with four zero bytes. -/
def overrunRun (full : List UInt8) : List (SendAct Unit) :=
  [.callWrite () 1 [7], .lock (), .send () true] ++
    ([.callWrite () 2 full, .lock ()] ++ [.callWrite () 3 [0, 0, 0, 0], .lock ()])

theorem ne_nil_of_full {full : List UInt8} (hfull : full.length = bgBufferSize) : full ≠ [] := by
  intro h
  rw [h] at hfull
  exact absurd hfull (by decide)

/-- The four bytes land in `m_dwSize` of the full buffer, and 4 is added to them. -/
theorem overrunWrites_spec {full : List UInt8} (w x y z : UInt8)
    (hfull : full.length = bgBufferSize) :
    ∃ s, runAll sendStep (.opened Unit 0) (overrunWrites full w x y z) = some s ∧
      s.sock.pFirstBuf = some 1 ∧ (s.heap 1).pNext = some 2 ∧ (s.heap 2).pNext = none ∧
      (s.heap 1).dwSize = 1 ∧ (s.heap 2).dwSize =
        (w.toNat + 256 * x.toNat + 65536 * y.toNat + 16777216 * z.toNat + 4) % 2 ^ 32 ∧
      s.sock.nPendingWrite = 4101 := by
  obtain ⟨s₁, h₁, ht, ⟨hlive2, hlive3⟩, hfirst, hlast, hsize, hpend⟩ :
      ∃ s₁, runAll sendStep (.opened Unit 0) [.callWrite () 1 [7], .lock (), .send () true] =
          some s₁ ∧ s₁.pc () = .idle ∧ (s₁.live 2 = false ∧ s₁.live 3 = false) ∧
        s₁.sock.pFirstBuf = some 1 ∧ s₁.sock.pLastBuf = some 1 ∧ (s₁.heap 1).dwSize = 1 ∧
        s₁.sock.nPendingWrite = 1 :=
    ⟨_, rfl, rfl, ⟨rfl, rfl⟩, rfl, rfl, rfl, rfl⟩
  have hne := ne_nil_of_full hfull
  have happ := runAll_append_write hne hfull.le ht hlive2 (by decide) hfirst hlast
  obtain ⟨s₂, h₂, ht, hlive, hfirst, hlast, hnext₁, hbuf₂, hsize₁, hpend⟩ :
      ∃ s₂, runAll sendStep s₁ [.callWrite () 2 full, .lock ()] = some s₂ ∧ s₂.pc () = .idle ∧
        s₂.live 3 = false ∧ s₂.sock.pFirstBuf = some 1 ∧ s₂.sock.pLastBuf = some 2 ∧
        (s₂.heap 1).pNext = some 2 ∧ s₂.heap 2 = (s₁.heap 2).init.fill full ∧
        (s₂.heap 1).dwSize = 1 ∧ s₂.sock.nPendingWrite = toLong (1 + bgBufferSize) :=
    ⟨_, happ, by simp, by simpa using hlive3, hfirst, rfl, by simp, by simp, by simpa using hsize,
      by simp [hpend, hfull]⟩
  have hfull₂ : (s₂.heap 2).dwSize = bgBufferSize := by rw [hbuf₂]; exact hfull
  obtain ⟨c, hc, hnext, hcsize⟩ := BGIOBuffer.coalesce_overrun w x y z hfull₂
  have hguard : ((s₂.heap 2).dwSize + ([w, x, y, z] : List UInt8).length) % 2 ^ 32 ≤
      bufferSize := by
    rw [hfull₂]
    change (4096 + 4) % 2 ^ 32 ≤ 8000
    decide
  have hfour : ([w, x, y, z] : List UInt8) ≠ [] := List.cons_ne_nil w [x, y, z]
  have hlen : ([w, x, y, z] : List UInt8).length ≤ bgBufferSize := Nat.le_of_ble_eq_true rfl
  have hcoal := runAll_coalesce_write hfour hlen ht hlive (by decide) hfirst hlast (by decide)
    hguard hc
  obtain ⟨s₃, h₃, hrest⟩ :
      ∃ s₃, runAll sendStep s₂ [.callWrite () 3 [w, x, y, z], .lock ()] = some s₃ ∧
        s₃.sock.pFirstBuf = some 1 ∧ (s₃.heap 1).pNext = some 2 ∧ (s₃.heap 2).pNext = none ∧
        (s₃.heap 1).dwSize = 1 ∧ (s₃.heap 2).dwSize =
          (w.toNat + 256 * x.toNat + 65536 * y.toNat + 16777216 * z.toNat + 4) % 2 ^ 32 ∧
        s₃.sock.nPendingWrite = 4101 := by
    refine ⟨_, hcoal, hfirst, by simpa using hnext₁, ?_, by simpa using hsize₁, ?_, ?_⟩
    · simp [hnext, hbuf₂, BGIOBuffer.fill, BGIOBuffer.init]
    · simpa using hcsize
    · change toLong (s₂.sock.nPendingWrite + 4) = 4101
      rw [hpend]
      decide
  refine ⟨s₃, ?_, hrest⟩
  rw [overrunWrites, runAll_append, h₁, Option.bind_some, runAll_append, h₂, Option.bind_some, h₃]

theorem overrunRun_spec {full : List UInt8} (hfull : full.length = bgBufferSize) :
    ∃ s, runAll sendStep (.opened Unit 0) (overrunRun full) = some s ∧
      s.sock.pFirstBuf = some 1 ∧ (s.heap 1).pNext = some 2 ∧ (s.heap 2).pNext = none ∧
      (s.heap 1).dwSize = 1 ∧ (s.heap 2).dwSize = 4 ∧ s.sock.nPendingWrite = 4101 :=
  overrunWrites_spec 0 0 0 0 hfull

/-- **Coalescing breaks the FIFO** when it runs past `m_buffer`: here five bytes are
left of the 4101 that are queued. -/
theorem not_fifo_overrun :
    ¬ ∀ s, Reaches sendStep OneConnection (.opened Unit 0) s → ∃ ids, Fifo s ids := by
  intro h
  obtain ⟨full, hfull⟩ : ∃ full : List UInt8, full.length = bgBufferSize :=
    ⟨List.replicate bgBufferSize 0, List.length_replicate ..⟩
  obtain ⟨s, hrun, hfirst, hnext₁, hnext₂, hsize₁, hsize₂, hpend⟩ := overrunRun_spec hfull
  have hne := ne_nil_of_full hfull
  have hreach : Reaches sendStep OneConnection (.opened Unit 0) s :=
    .of_labels hrun (by simp [overrunRun, OneConnection, hfull, hne, bgBufferSize])
  obtain ⟨ids, hfifo⟩ := h s hreach
  have hids : ids = [1, 2] := by
    refine hfifo.chain.unique ?_
    rw [hfirst]
    simp [Chain.cons_iff, hnext₁, hnext₂]
  have hsum := hfifo.pending
  rw [hids, hpend] at hsum
  simp [hsize₁, hsize₂] at hsum

/-! ## From one connection to the next -/

/-- The payloads fit in a buffer. -/
def PayloadsFit (_ : SendSide ι) : SendAct ι → Prop
  | .callWrite _ _ data => data.length ≤ bgBufferSize
  | _ => True

/-- An empty write queue, with nothing pending. -/
def BGTestSocket.QueueEmpty (sock : BGTestSocket) : Prop :=
  sock.pFirstBuf = none ∧ sock.pLastBuf = none ∧ sock.nPendingWrite = 0

/-- **A reused slot starts clean** in a life that meets `SendOk`: on every connection
the bytes sent are a prefix of those written, and `CreateSocket` returns the slot
with an empty queue. -/
theorem reuse_of_reaches [Fintype ι] {heap : Heap} {pReadBuf : Ptr} {s : SendSide ι}
    (h : Reaches sendStep (SendOk False) (.start ι heap pReadBuf) s) :
    (∀ n, s.sent n <+: s.written n) ∧
      ∀ newId newSocket addr port, SendOk False s (.create newId newSocket addr port) →
        (s.sock.claim newId (some newSocket) addr port).1 = .taken →
          (s.create newId newSocket addr port).sock.QueueEmpty := by
  obtain ⟨ids, unsent, hinv⟩ := SendSide.inv_of_reaches h
  refine ⟨hinv.history.prefix_all, ?_⟩
  intro newId newSocket addr port hok htaken
  obtain ⟨rfl, rfl⟩ := hinv.settled (hok htaken)
  have hcreate := hinv.create hok
  refine ⟨hcreate.queue.first_eq, hcreate.queue.last_eq, ?_⟩
  rw [hcreate.pending, queuedSize_nil]
  exact toLong_of_lt (by decide) (by decide)

/-- Two connections, each with a byte written and sent. -/
theorem reuse_of_reaches_twice : ∃ s, runAll sendStep (.start Unit (fun _ => .blank) 0)
    [.create 0 1 0 0, .callWrite () 1 [7], .lock (), .send () true, .complete () 0 true 1,
      .lock (), .free () none, .close, .create 0 2 0 0, .callWrite () 1 [8], .lock (),
      .send () true] = some s ∧
    s.written 1 = [7] ∧ s.sent 2 = [8] ∧ (∀ n, s.sent n <+: s.written n) := by
  refine ⟨_, rfl, rfl, rfl, (@reuse_of_reaches Unit _ _ (fun _ => .blank) 0 _ ?_).1⟩
  refine .tail (a := .send () true) (.tail (a := .lock ()) (.tail (a := .callWrite () 1 [8])
    (.tail (a := .create 0 2 0 0) (.tail (a := .close) (.tail (a := .free () none)
      (.tail (a := .lock ()) (.tail (a := .complete () 0 true 1) (.tail (a := .send () true)
        (.tail (a := .lock ()) (.tail (a := .callWrite () 1 [7]) (.tail (a := .create 0 1 0 0)
          .refl ?_ rfl) ?_ rfl) ?_ rfl) trivial rfl) trivial rfl) ?_ rfl) trivial rfl) trivial rfl)
            ?_ rfl) ?_ rfl) ?_ rfl) trivial rfl
  · exact fun _ => ⟨fun _ => .inl rfl, rfl, rfl⟩
  · exact (by decide : (1 : ℕ) ≤ bgBufferSize)
  · intro p hp
    cases hp
    exact ⟨by decide, False.elim⟩
  · intro p hp
    cases hp
  · exact fun _ => ⟨fun _ => .inl rfl, rfl, rfl⟩
  · exact (by decide : (1 : ℕ) ≤ bgBufferSize)
  · intro p hp
    cases hp
    exact ⟨by decide, False.elim⟩

/-- A connection closes with one buffer outstanding and one queued; the slot is taken
again, and the old send completes. -/
def leakRun : List (SendAct Unit) :=
  [.create 0 1 0 0, .callWrite () 1 [7], .lock (), .send () true, .callWrite () 2 [8], .lock (),
    .close, .create 0 2 0 0, .complete () 0 true 1, .lock (), .send () true]

/-- **Reuse leaks the queue** of the connection before: here the second connection is
sent a byte, and nothing was written on it. -/
theorem not_reuse_leak :
    ¬ ∀ s, Reaches sendStep PayloadsFit (.start Unit (fun _ => .blank) 0) s →
      (∀ n, s.sent n <+: s.written n) ∧
        ∀ newId newSocket addr port,
          (s.sock.claim newId (some newSocket) addr port).1 = .taken →
            (s.create newId newSocket addr port).sock.QueueEmpty := by
  intro h
  obtain ⟨s, hrun, hsent, hwritten⟩ :
      ∃ s, runAll sendStep (.start Unit (fun _ => .blank) 0) leakRun = some s ∧
        s.sent 2 = [8] ∧ s.written 2 = [] := ⟨_, rfl, rfl, rfl⟩
  have hreach : Reaches sendStep PayloadsFit (.start Unit (fun _ => .blank) 0) s :=
    .of_labels hrun (by simp [leakRun, PayloadsFit, bgBufferSize])
  have hprefix := (h s hreach).1 2
  rw [hsent, hwritten] at hprefix
  exact absurd hprefix (by decide)

end BGIocpServer
