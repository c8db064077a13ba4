import BGIocpServer.SendFifo

/-!
# The sizes of the queued buffers

No buffer of the write queue holds more than its array, whatever becomes of the sends and
of the connections, as long as `Write` coalesces only what fits in `m_buffer`. The
invariant of the send side ties the queue to a history by connection, which `CreateSocket`
breaks when it takes a slot that still has sends; sizes do not depend on the history, so
any other history will do (`Inv.step`).

## Main results

* `sizesFit_of_reaches`: the sizes along every run.
* `not_sizesFit_overrun`: a full buffer and four bytes behind it.
-/

namespace BGIocpServer
open Kit

variable {ι : Type}

/-- The history fields of the send side. -/
structure SendHistory (ι : Type) where
  conn : ℕ
  callConn : ι → ℕ
  written : ℕ → List UInt8
  sent : ℕ → List UInt8
  completed : ℕ → List UInt8

namespace SendSide
variable {s t : SendSide ι}

/-- The same buffers, socket, threads and sends with another history. -/
def setHistory (s : SendSide ι) (h : SendHistory ι) : SendSide ι :=
  { s with
    conn := h.conn
    callConn := h.callConn
    written := h.written
    sent := h.sent
    completed := h.completed }

@[simp] theorem setHistory_pc (s : SendSide ι) (h : SendHistory ι) :
    (s.setHistory h).pc = s.pc := rfl
@[simp] theorem setHistory_heap (s : SendSide ι) (h : SendHistory ι) :
    (s.setHistory h).heap = s.heap := rfl
@[simp] theorem setHistory_sock (s : SendSide ι) (h : SendHistory ι) :
    (s.setHistory h).sock = s.sock := rfl
@[simp] theorem setHistory_sends (s : SendSide ι) (h : SendHistory ι) :
    (s.setHistory h).sends = s.sends := rfl

/-- The history as it is. -/
def history (s : SendSide ι) : SendHistory ι where
  conn := s.conn
  callConn := s.callConn
  written := s.written
  sent := s.sent
  completed := s.completed

/-- Two states that differ in their histories only. -/
def SameButHistory (s t : SendSide ι) : Prop := s.setHistory t.history = t

/-- `WSASend` does not depend on the history. -/
theorem wsaSend_setHistory {p : Ptr} {ok : Bool} (h : SendHistory ι)
    (hs : (s.setHistory h).wsaSend p ok = some t) :
    ∃ t', s.wsaSend p ok = some t' ∧ t'.SameButHistory t := by
  simp only [wsaSend] at hs ⊢
  cases ok with
  | false =>
      simp only [Bool.false_eq_true, if_false, Option.some.injEq] at hs ⊢
      exact ⟨_, rfl, hs ▸ rfl⟩
  | true =>
      simp only [if_true, Option.ite_none_right_eq_some, Option.some.injEq] at hs ⊢
      obtain ⟨hopen, rfl⟩ := hs
      exact ⟨_, ⟨hopen, rfl⟩, rfl⟩

variable [DecidableEq ι]

/-- `WSASend`, by the thread that has come to it. -/
theorem sendRegion_setHistory {u : ι} {ok : Bool} (h : SendHistory ι)
    (hs : (s.setHistory h).sendRegion u ok = some t) :
    ∃ t', s.sendRegion u ok = some t' ∧ t'.SameButHistory t := by
  have goto : ∀ (p : Ptr) (k : SendPc),
      ((s.setHistory h).wsaSend p ok).map (fun s => s.goto u k) = some t →
      ∃ t', (s.wsaSend p ok).map (fun s => s.goto u k) = some t' ∧ t'.SameButHistory t := by
    intro p k hs
    rw [Option.map_eq_some_iff] at hs
    obtain ⟨r, hr, rfl⟩ := hs
    obtain ⟨r', hr', hsame⟩ := wsaSend_setHistory h hr
    refine ⟨r'.goto u k, by rw [hr', Option.map_some], ?_⟩
    change (r'.setHistory r.history).goto u k = r.goto u k
    rw [hsame]
  simp only [sendRegion] at hs ⊢
  simp only [setHistory_pc, setHistory_sock] at hs
  cases hk : s.pc u with
  | writeSend p => exact goto p .idle (by simpa only [hk] using hs)
  | cbSend q =>
      cases hf : s.sock.pFirstBuf with
      | none => simp [hk, hf] at hs
      | some p => exact goto p (.cbFree q) (by simpa only [hk, hf] using hs)
  | _ => simp [hk] at hs

/-- No step depends on the history. -/
theorem sendStep_setHistory {a : SendAct ι} (h : SendHistory ι)
    (hs : sendStep (s.setHistory h) a = some t) :
    ∃ t', sendStep s a = some t' ∧ t'.SameButHistory t := by
  cases a with
  | callWrite u p data =>
      simp only [sendStep, Option.ite_none_right_eq_some, Option.some.injEq] at hs ⊢
      obtain ⟨hen, rfl⟩ := hs
      refine ⟨_, ⟨hen, rfl⟩, ?_⟩
      simp only [callWrite, setHistory_heap]
      by_cases h0 : ((s.heap p).init.fill data).dwSize = 0
      · simp only [h0, if_true]
        rfl
      · by_cases hbig : ((s.heap p).init.fill data).dwSize > bufferSize
        · simp only [h0, hbig, if_true, if_false]
          rfl
        · simp only [h0, hbig, if_false]
          rfl
  | lock u =>
      simp only [sendStep, setHistory_pc] at hs ⊢
      cases hk : s.pc u with
      | writeLock p =>
          simp only [hk, writeRegion, Option.map_eq_some_iff] at hs ⊢
          obtain ⟨⟨e, heap, sock⟩, he, rfl⟩ := hs
          refine ⟨_, ⟨⟨e, heap, sock⟩, he, rfl⟩, ?_⟩
          cases e <;> rfl
      | cbLock n =>
          simp only [hk, writeCallbackRegion, Option.map_eq_some_iff] at hs ⊢
          obtain ⟨⟨d, sock⟩, hd, rfl⟩ := hs
          refine ⟨_, ⟨⟨d, sock⟩, hd, rfl⟩, ?_⟩
          cases d <;> rfl
      | _ => simp [hk] at hs
  | send u ok => exact sendRegion_setHistory h hs
  | free u next =>
      simp only [sendStep, freeRegion, setHistory_pc] at hs ⊢
      cases hk : s.pc u with
      | writeFree p =>
          simp only [hk, Option.some.injEq] at hs ⊢
          exact ⟨_, rfl, hs ▸ rfl⟩
      | cbFree p =>
          simp only [hk, Option.some.injEq] at hs ⊢
          exact ⟨_, rfl, hs ▸ rfl⟩
      | _ => simp [hk] at hs
  | complete u i bSuccess n =>
      simp only [sendStep, Option.ite_none_right_eq_some] at hs ⊢
      obtain ⟨hpc, hs⟩ := hs
      simp only [complete, setHistory_sends] at hs ⊢
      cases hi : s.sends[i]? with
      | none => simp [hi] at hs
      | some snd =>
          simp only [hi] at hs ⊢
          cases bSuccess with
          | false =>
              simp only [Bool.false_eq_true, if_false, Option.some.injEq] at hs ⊢
              exact ⟨_, ⟨hpc, rfl⟩, hs ▸ rfl⟩
          | true =>
              simp only [if_true, Option.some.injEq] at hs ⊢
              exact ⟨_, ⟨hpc, rfl⟩, hs ▸ rfl⟩
  | close =>
      simp only [sendStep, Option.some.injEq] at hs ⊢
      exact ⟨_, rfl, hs ▸ rfl⟩
  | create newId newSocket addr port =>
      simp only [sendStep, Option.some.injEq] at hs ⊢
      refine ⟨_, rfl, ?_⟩
      subst hs
      simp only [create, setHistory_sock]
      split <;> rfl

end SendSide

/-! ## The sizes along a run -/

/-- Every buffer of the write queue holds at most its array, and so does what `WSASend`
was given. -/
structure SizesFit (s : SendSide ι) : Prop where
  queued : ∃ ids, Chain (fun p => (s.heap p).pNext) s.sock.pFirstBuf ids ∧
    s.sock.pLastBuf = ids.getLast? ∧ ∀ p ∈ ids, (s.heap p).dwSize ≤ bgBufferSize
  sends : ∀ snd ∈ s.sends, snd.len ≤ bgBufferSize

/-- The locked region that a thread has come to copies nothing past `m_buffer`. -/
def SendSide.RegionFits (s : SendSide ι) : SendPc → Prop
  | .writeLock p => s.FitsBuffer p
  | .idle | .writeSend _ | .writeFree _ | .cbLock _ | .cbSend _ | .cbFree _ => True

instance (s : SendSide ι) (k : SendPc) : Decidable (s.RegionFits k) :=
  match k with
  | .writeLock p => inferInstanceAs (Decidable (s.FitsBuffer p))
  | .idle | .writeSend _ | .writeFree _ | .cbLock _ | .cbSend _ | .cbFree _ => isTrue trivial

/-- The payloads fit in a buffer, and `Write` coalesces no size between that of `m_buffer`
and the limit it tests. Sends may fail, connections may close and slots be reused. -/
def CoalesceFits (s : SendSide ι) : SendAct ι → Prop
  | .callWrite _ _ data => data.length ≤ bgBufferSize
  | .lock t => s.RegionFits (s.pc t)
  | .send _ _ | .free _ _ | .complete _ _ _ _ | .close | .create _ _ _ _ => True

instance (s : SendSide ι) (a : SendAct ι) : Decidable (CoalesceFits s a) :=
  match a with
  | .callWrite _ _ data => inferInstanceAs (Decidable (data.length ≤ bgBufferSize))
  | .lock t => inferInstanceAs (Decidable (s.RegionFits (s.pc t)))
  | .send _ _ | .free _ _ | .complete _ _ _ _ | .close | .create _ _ _ _ => isTrue trivial

section Runs
variable [Fintype ι] [DecidableEq ι] {s t : SendSide ι}

/-- The invariant of the send side, for some history. -/
def SendSide.Inv (s : SendSide ι) : Prop :=
  ∃ h ids unsent, SendInv False (s.setHistory h) ids unsent

namespace SendSide.Inv

omit [DecidableEq ι] in
/-- `CreateSocket` leaves the queue of the slot as it is. -/
theorem create (hs : s.Inv) (newId : ℕ) (newSocket : Handle) (addr port : ℕ) :
    (s.create newId newSocket addr port).Inv := by
  obtain ⟨h, ids, unsent, hinv⟩ := hs
  have hq := s.sock.claim_queue newId (some newSocket) addr port
  have hsock : (s.create newId newSocket addr port).setHistory h =
      { s.setHistory h with sock := (s.sock.claim newId (some newSocket) addr port).2 } := by
    rw [SendSide.create_eq]
    rfl
  refine ⟨h, ids, unsent, ?_⟩
  rw [hsock]
  exact hinv.setSock hq

/-- One step, under the condition on its copy. -/
theorem step (hs : s.Inv) {a : SendAct ι} (hok : CoalesceFits s a)
    (hstep : sendStep s a = some t) : t.Inv := by
  obtain ⟨h, ids, unsent, hinv⟩ := hs
  by_cases hcreate : ∃ newId newSocket addr port, a = .create newId newSocket addr port
  · obtain ⟨newId, newSocket, addr, port, rfl⟩ := hcreate
    simp only [sendStep, Option.some.injEq] at hstep
    exact hstep ▸ create ⟨h, ids, unsent, hinv⟩ newId newSocket addr port
  · -- The same step from the state of the invariant.
    obtain ⟨t', ht', hsame⟩ :=
      SendSide.sendStep_setHistory (s := s.setHistory h) s.history hstep
    have hok' : SendOk False (s.setHistory h) a := by
      cases a with
      | callWrite u p data => exact hok
      | lock u =>
          intro p hp
          have hfits : s.RegionFits (s.pc u) := hok
          rw [show s.pc u = .writeLock p from hp] at hfits
          exact ⟨hfits, False.elim⟩
      | create newId newSocket addr port => exact absurd ⟨_, _, _, _, rfl⟩ hcreate
      | _ => trivial
    obtain ⟨ids', unsent', hinv'⟩ := sendStep_inv ⟨ids, unsent, hinv⟩ hok' ht'
    refine ⟨t'.history, ids', unsent', ?_⟩
    rwa [← hsame]

omit [DecidableEq ι] in
theorem sizesFit (hs : s.Inv) : SizesFit s := by
  obtain ⟨h, ids, unsent, hinv⟩ := hs
  refine ⟨⟨ids, hinv.queue.chain, hinv.queue.last_eq, hinv.queue.size_le⟩, ?_⟩
  intro snd hsnd
  obtain ⟨hhead, -, hlen, -⟩ := hinv.sends_ok snd hsnd
  rw [hlen]
  exact hinv.queue.size_le snd.buf (List.mem_of_mem_head? hhead)

end SendSide.Inv

/-- **No queued buffer is overfilled** along a run in which `Write` coalesces only what
fits in `m_buffer`, whatever else happens to the slot. -/
theorem sizesFit_of_reaches {heap : Heap} {pReadBuf : Ptr}
    (h : Reaches sendStep CoalesceFits (.start ι heap pReadBuf) s) : SizesFit s :=
  (h.invariant SendSide.Inv
    ⟨(SendSide.start ι heap pReadBuf).history, [], [], SendSide.start_inv False heap pReadBuf⟩
    fun _ _ _ hs hok hstep => hs.step hok hstep).sizesFit

end Runs

/-- Three writes, the third coalesced into the second, and a failed completion. -/
def coalescedRun : List (SendAct Unit) :=
  [.create 0 1 0 0, .callWrite () 1 [7], .lock (), .send () true, .callWrite () 2 [8], .lock (),
    .callWrite () 3 [9], .lock (), .free () none, .complete () 0 false 0]

theorem sizesFit_of_reaches_coalesced :
    ∃ s, runAll sendStep (.start Unit (fun _ => .blank) 0) coalescedRun = some s ∧
      (s.heap 2).dwSize = 2 ∧ SizesFit s := by
  have hrun : ∃ s, runAll sendStep (.start Unit (fun _ => .blank) 0) coalescedRun = some s ∧
      (s.heap 2).dwSize = 2 := ⟨_, rfl, rfl⟩
  obtain ⟨s, hs, hsize⟩ := hrun
  have hreach := Reaches.of_runAll (C := CoalesceFits) hs (by decide)
  exact ⟨s, hs, hsize, sizesFit_of_reaches hreach⟩

/-- **Coalescing overfills a buffer**: behind a full one, the bytes 0, 255, 0, 0 make its
size 65284. -/
theorem not_sizesFit_overrun :
    ¬∀ s, Reaches sendStep PayloadsFit (.start Unit (fun _ => .blank) 0) s → SizesFit s := by
  intro h
  obtain ⟨full, hfull⟩ : ∃ full : List UInt8, full.length = bgBufferSize :=
    ⟨List.replicate bgBufferSize 0, List.length_replicate ..⟩
  obtain ⟨s, hrun, hfirst, hnext₁, hnext₂, -, hsize₂, -⟩ := overrunWrites_spec 0 255 0 0 hfull
  have hopened : runAll sendStep (.start Unit (fun _ => .blank) 0)
      (.create 0 1 0 0 :: overrunWrites full 0 255 0 0) = some s := hrun
  have hreach : Reaches sendStep PayloadsFit (.start Unit (fun _ => .blank) 0) s :=
    .of_labels hopened (by simp [overrunWrites, PayloadsFit, hfull, bgBufferSize])
  obtain ⟨ids, hchain, -, hsizes⟩ := (h s hreach).queued
  have hids : ids = [1, 2] := by
    refine hchain.unique ?_
    rw [hfirst]
    simp [Chain.cons_iff, hnext₁, hnext₂]
  have hle := hsizes 2 (by simp [hids])
  rw [hsize₂] at hle
  exact absurd hle (by decide)

end BGIocpServer
