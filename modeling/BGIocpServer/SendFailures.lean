import BGIocpServer.Lifecycle
import BGIocpServer.SendSizes

/-!
# Failed sends

What a send that goes wrong does to the connection it was made on. There are four places:
`WSASend` fails at once in `Write` or in `WriteCallback`, a completion without success is
only logged, and a short one is not followed by another send. Each leaves the queue as it
is and nobody to send it, for good (`Wedged.step`).

`clean` and the history of bytes decide no step, so the invariant of the send side may be
taken for other values of them (`sendStep_setClean`); a connection that begins with an
empty queue begins with `clean` set.

## Main definitions

* `SendsLand`: the steps in which no send of an open connection goes wrong.
* `NotWedged`: a quiet connection with something queued has its send outstanding, and the
  references balance.
* `Wedged`: something is queued, and no thread or completion will send it.

## Main results

* `notWedged_of_reaches`: the runs whose steps meet `SendsLand`.
* `wedged_of_reaches`: a failure wedges the slot for good.
-/

namespace BGIocpServer
open Kit

variable {ι : Type}

namespace SendSide
variable {s t : SendSide ι}

/-- The same with another value of `clean`. -/
def setClean (s : SendSide ι) (c : Bool) : SendSide ι := { s with clean := c }

@[simp] theorem setClean_pc (c : Bool) : (s.setClean c).pc = s.pc := rfl
@[simp] theorem setClean_live (c : Bool) : (s.setClean c).live = s.live := rfl
@[simp] theorem setClean_heap (c : Bool) : (s.setClean c).heap = s.heap := rfl
@[simp] theorem setClean_sock (c : Bool) : (s.setClean c).sock = s.sock := rfl
@[simp] theorem setClean_sends (c : Bool) : (s.setClean c).sends = s.sends := rfl

/-- The step is no send that fails, and no completion that is short or failed. -/
def lands (s : SendSide ι) : SendAct ι → Bool
  | .send _ ok => ok
  | .complete _ i bSuccess n => bSuccess && s.sends[i]?.all fun snd => n == snd.len
  | _ => true

theorem wsaSend_setClean (c : Bool) (p : Ptr) (ok : Bool) :
    (s.setClean c).wsaSend p ok = (s.wsaSend p ok).map (setClean · (c && ok)) := by
  cases ok with
  | false => simp [wsaSend, setClean]
  | true =>
      by_cases hopen : s.sock.addRef.hSocket.isSome = true
      · simp [wsaSend, setClean, hopen]
      · simp [wsaSend, setClean, hopen]

variable [DecidableEq ι]

theorem callWrite_setClean (c : Bool) (u : ι) (p : Ptr) (data : List UInt8) :
    (s.setClean c).callWrite u p data = (s.callWrite u p data).setClean c := by
  simp only [callWrite, setClean_heap]
  by_cases h0 : ((s.heap p).init.fill data).dwSize = 0
  · simp only [h0, if_true]
    rfl
  · by_cases hbig : ((s.heap p).init.fill data).dwSize > bufferSize
    · simp only [h0, hbig, if_true, if_false]
      rfl
    · simp only [h0, hbig, if_false]
      rfl

/-- No step depends on `clean`, and only a send that goes wrong clears it. -/
theorem sendStep_setClean (s : SendSide ι) (c : Bool) (a : SendAct ι) :
    sendStep (s.setClean c) a = (sendStep s a).map (setClean · (c && s.lands a)) := by
  cases a with
  | callWrite u p data =>
      by_cases hen : s.pc u = .idle ∧ s.live p = false
      · simp [sendStep, hen, lands, callWrite_setClean]
      · simp [sendStep, hen]
  | lock u =>
      simp only [sendStep, setClean_pc, lands, Bool.and_true]
      cases s.pc u with
      | writeLock p =>
          simp only [writeRegion, setClean_sock, setClean_heap, Option.map_map]
          congr 1
          funext r
          obtain ⟨e, heap, sock⟩ := r
          cases e <;> rfl
      | cbLock n =>
          simp only [writeCallbackRegion, setClean_sock, setClean_heap, Option.map_map]
          congr 1
          funext r
          obtain ⟨d, sock⟩ := r
          cases d <;> rfl
      | _ => rfl
  | send u ok =>
      simp only [sendStep, sendRegion, setClean_pc, setClean_sock, lands]
      cases hk : s.pc u with
      | writeSend p =>
          simp only [wsaSend_setClean, Option.map_map]
          rfl
      | cbSend q =>
          cases hf : s.sock.pFirstBuf with
          | none => rfl
          | some p =>
              simp only [wsaSend_setClean, Option.map_map]
              rfl
      | _ => rfl
  | free u next =>
      simp only [sendStep, freeRegion, setClean_pc, lands, Bool.and_true]
      cases s.pc u <;> rfl
  | complete u i bSuccess n =>
      by_cases hidle : s.pc u = .idle
      · cases hi : s.sends[i]? with
        | none => simp [sendStep, complete, hidle, hi]
        | some snd =>
            cases bSuccess with
            | false => simp [sendStep, complete, hidle, hi, lands, setClean]
            | true => simp [sendStep, complete, hidle, hi, lands, setClean, goto]
      · simp [sendStep, hidle]
  | close => simp [sendStep, setClean, lands]
  | create newId newSocket addr port =>
      simp only [sendStep, create, setClean_sock, lands, Bool.and_true, Option.map_some]
      split <;> rfl

/-- The same step with another history and another `clean`. -/
theorem sendStep_other {a : SendAct ι} (hs : sendStep s a = some t) (c : Bool)
    (h : SendHistory ι) : ∃ t', sendStep ((s.setClean c).setHistory h) a = some t' ∧
      (t.setClean t'.clean).setHistory t'.history = t' := by
  have hclean := (((s.setClean c).setHistory h).setHistory s.history).sendStep_setClean s.clean a
  have hself : (((s.setClean c).setHistory h).setHistory s.history).setClean s.clean = s := rfl
  rw [hself, hs, eq_comm, Option.map_eq_some_iff] at hclean
  obtain ⟨t₁, ht₁, heq₁⟩ := hclean
  obtain ⟨t₂, ht₂, heq₂⟩ := sendStep_setHistory s.history ht₁
  refine ⟨t₂, ht₂, ?_⟩
  rw [← heq₁, ← heq₂]
  rfl

/-- What becomes of `clean`. -/
theorem clean_sendStep {a : SendAct ι} (h : sendStep s a = some t) :
    t.clean = (s.clean && s.lands a) := by
  have heq := s.sendStep_setClean s.clean a
  have hself : s.setClean s.clean = s := rfl
  rw [hself, h, Option.map_some, Option.some.injEq] at heq
  exact congrArg SendSide.clean heq

end SendSide

/-! ## The runs without a failure on an open connection -/

/-- No send of an open connection goes wrong, no completion is without success, and
`CreateSocket` takes the slot with an empty queue. Payloads and coalesced buffers fit in
`m_buffer`. -/
def SendsLand (s : SendSide ι) : SendAct ι → Prop
  | .callWrite _ _ data => data.length ≤ bgBufferSize
  | .lock t => s.RegionFits (s.pc t)
  | .send _ ok => s.sock.hSocket ≠ none → ok = true
  | .complete _ i bSuccess n =>
      bSuccess = true ∧ (s.sock.hSocket ≠ none → ∀ snd ∈ s.sends[i]?, n = snd.len)
  | .create newId newSocket addr port =>
      (s.sock.claim newId (some newSocket) addr port).1 = .taken → s.sock.pFirstBuf = none
  | .free _ _ | .close => True

instance (s : SendSide ι) (a : SendAct ι) : Decidable (SendsLand s a) :=
  match a with
  | .callWrite _ _ data => inferInstanceAs (Decidable (data.length ≤ bgBufferSize))
  | .lock t => inferInstanceAs (Decidable (s.RegionFits (s.pc t)))
  | .send _ ok => inferInstanceAs (Decidable (s.sock.hSocket ≠ none → ok = true))
  | .complete _ i bSuccess n => inferInstanceAs (Decidable (bSuccess = true ∧
      (s.sock.hSocket ≠ none → ∀ snd ∈ s.sends[i]?, n = snd.len)))
  | .create newId newSocket addr port => inferInstanceAs (Decidable
      ((s.sock.claim newId (some newSocket) addr port).1 = .taken → s.sock.pFirstBuf = none))
  | .free _ _ | .close => isTrue trivial

/-- No call of `Write` or `WriteCallback` is in progress. -/
def SendSide.Quiet (s : SendSide ι) : Prop := ∀ t, s.pc t = .idle

/-- What the send side owes a connection and its slot. -/
structure NotWedged [Fintype ι] (s : SendSide ι) : Prop where
  outstanding : s.Quiet → s.sock.hSocket ≠ none → s.sock.pFirstBuf ≠ none →
    ∃ snd, s.sends = [snd] ∧ s.sock.pFirstBuf = some snd.buf
  /-- The references are that of the constructor, that of the connection, and one for each
  send that is outstanding or in its callback. -/
  balanced : s.sock.toBGIOObject.Counted 0
    (1 + (if s.sock.hSocket.isSome then 1 else 0) + s.heldRefs)

section Runs
variable [Fintype ι] [DecidableEq ι] {s t : SendSide ι}

/-- The invariant of the send side, for some history and a `clean` that is set as long as
the connection is open. -/
def SendSide.Flows (s : SendSide ι) : Prop :=
  ∃ h c ids unsent, SendInv False ((s.setClean c).setHistory h) ids unsent ∧
    (s.sock.hSocket ≠ none → c = true)

omit [Fintype ι] [DecidableEq ι] in
theorem SendsLand.lands {a : SendAct ι} (h : SendsLand s a) (hopen : s.sock.hSocket ≠ none) :
    s.lands a = true := by
  cases a with
  | send u ok => exact h hopen
  | complete u i bSuccess n =>
      simp only [SendSide.lands, h.1, Bool.true_and]
      cases hi : s.sends[i]? with
      | none => rfl
      | some snd => simpa using h.2 hopen snd hi
  | _ => rfl

omit [Fintype ι] [DecidableEq ι] in
theorem SendsLand.sendOk {a : SendAct ι} (h : SendsLand s a) (c : Bool) (old : SendHistory ι)
    (hcreate : ∀ newId newSocket addr port, a ≠ .create newId newSocket addr port) :
    SendOk False ((s.setClean c).setHistory old) a := by
  cases a with
  | callWrite u p data => exact h
  | lock u =>
      intro p hp
      have hfits : s.RegionFits (s.pc u) := h
      rw [show s.pc u = .writeLock p from hp] at hfits
      exact ⟨hfits, False.elim⟩
  | create newId newSocket addr port => exact absurd rfl (hcreate _ _ _ _)
  | _ => trivial

/-- Only `CreateSocket` opens a connection. -/
theorem open_of_sendStep {a : SendAct ι} (hs : sendStep s a = some t)
    (hcreate : ∀ newId newSocket addr port, a ≠ .create newId newSocket addr port)
    (hopen : t.sock.hSocket ≠ none) : s.sock.hSocket ≠ none := by
  by_cases hclose : a = .close
  · subst hclose
    simp only [sendStep, Option.some.injEq] at hs
    subst hs
    intro hnone
    exact hopen (by simp [BGTestSocket.close, hnone])
  · have hsame := (SendSide.sendStep_refs hclose hcreate hs).1.hSocket
    rwa [← hsame]

namespace SendSide.Flows

theorem step {a : SendAct ι} (hs : s.Flows) (hok : SendsLand s a)
    (hcreate : ∀ newId newSocket addr port, a ≠ .create newId newSocket addr port)
    (hstep : sendStep s a = some t) : t.Flows := by
  obtain ⟨h, c, ids, unsent, hinv, hc⟩ := hs
  obtain ⟨t', ht', heq⟩ := SendSide.sendStep_other hstep c h
  obtain ⟨ids', unsent', hinv'⟩ := sendStep_inv ⟨ids, unsent, hinv⟩ (hok.sendOk c h hcreate) ht'
  refine ⟨t'.history, t'.clean, ids', unsent', heq.symm ▸ hinv', fun hopen => ?_⟩
  · have hopen' := open_of_sendStep hstep hcreate hopen
    rw [SendSide.clean_sendStep ht']
    have hlands : ((s.setClean c).setHistory h).lands a = true := hok.lands hopen'
    rw [hlands, Bool.and_true]
    exact hc hopen'

omit [DecidableEq ι] in
/-- A slot that is taken with an empty queue begins anew. -/
theorem create (hs : s.Flows) {newId : ℕ} {newSocket : Handle} {addr port : ℕ}
    (hempty : (s.sock.claim newId (some newSocket) addr port).1 = .taken →
      s.sock.pFirstBuf = none) : (s.create newId newSocket addr port).Flows := by
  obtain ⟨h, c, ids, unsent, hinv, hc⟩ := hs
  have hq := s.sock.claim_queue newId (some newSocket) addr port
  have hsock : ∀ c', ((s.create newId newSocket addr port).setClean c').setHistory h =
      { (s.setClean c').setHistory h with
        sock := (s.sock.claim newId (some newSocket) addr port).2 } := by
    intro c'
    rw [SendSide.create_eq]
    rfl
  by_cases htaken : (s.sock.claim newId (some newSocket) addr port).1 = .taken
  · have hids : ids = [] := by
      rw [← List.head?_eq_none_iff, ← hinv.queue.first_eq]
      exact hempty htaken
    subst hids
    obtain ⟨hsends, hrest⟩ := hinv.tokens.none
    have hclean : SendInv False ((s.setClean true).setHistory h) [] unsent :=
      { hinv with
        pc_ok := fun u => (hinv.pc_ok u).of_not_token (hrest u) _ _ _
        tokens := ⟨hinv.tokens.le_one, hinv.tokens.zero, fun _ hne => absurd rfl hne⟩ }
    refine ⟨h, true, [], unsent, ?_, fun _ => rfl⟩
    rw [hsock]
    exact hclean.setSock hq
  · refine ⟨h, c, ids, unsent, ?_, fun hopen => hc ?_⟩
    · rw [hsock]
      exact hinv.setSock hq
    · have hsame := (BGTestSocket.claim_not_taken htaken).2.1
      rw [← hsame]
      have hcreated : (s.create newId newSocket addr port).sock =
          (s.sock.claim newId (some newSocket) addr port).2 :=
        congrArg SendSide.sock (hsock c)
      rwa [← hcreated]

omit [DecidableEq ι] in
/-- A quiet open connection with something queued has its send outstanding. -/
theorem outstanding (hs : s.Flows) (hquiet : s.Quiet) (hopen : s.sock.hSocket ≠ none)
    (hqueue : s.sock.pFirstBuf ≠ none) :
    ∃ snd, s.sends = [snd] ∧ s.sock.pFirstBuf = some snd.buf := by
  obtain ⟨h, c, ids, unsent, hinv, hc⟩ := hs
  have hfirst : s.sock.pFirstBuf = ids.head? := hinv.queue.first_eq
  have hne : ids ≠ [] := by
    rintro rfl
    exact hqueue hfirst
  have hone := hinv.tokens.one (hc hopen) hne
  have hzero : tally SendPc.isToken s.pc = 0 :=
    tally_eq_zero.mpr fun u => by rw [hquiet u]; rfl
  have hlen : s.sends.length = 1 := by
    change tally SendPc.isToken s.pc + s.sends.length = 1 at hone
    omega
  obtain ⟨snd, hsends⟩ := List.length_eq_one_iff.mp hlen
  have hhead := (hinv.sends_ok snd (by simp [hsends])).1
  exact ⟨snd, hsends, hfirst.trans hhead⟩

end SendSide.Flows

/-! ## The references -/

/-- The references of the send side, and the bit of a slot without a connection. -/
structure SendSide.RefsHeld (s : SendSide ι) : Prop where
  counted : s.sock.toBGIOObject.Counted 0
    (1 + (if s.sock.hSocket.isSome then 1 else 0) + s.heldRefs)
  free : s.sock.bitIs socketBitNotUsed = true → s.sock.hSocket = none

namespace SendSide.RefsHeld

/-- The steps of `Write`, `WriteCallback` and the completions that lose no reference. -/
theorem sendSide {a : SendAct ι} (hs : s.RefsHeld) (hclose : a ≠ .close)
    (hcreate : ∀ newId newSocket addr port, a ≠ .create newId newSocket addr port)
    (hlost : a.lost = 0) (hstep : sendStep s a = some t) : t.RefsHeld := by
  obtain ⟨hsame, hrefs⟩ := SendSide.sendStep_refs hclose hcreate hstep
  obtain ⟨n, hn, heq⟩ := hrefs.counted hs.counted (by omega)
  rw [hlost] at heq
  refine ⟨?_, ?_⟩
  · rw [hsame.hSocket]
    have hn' : n = 1 + (if s.sock.hSocket.isSome then 1 else 0) + t.heldRefs := by omega
    exact hn' ▸ hn
  · simp only [BGTestSocket.bitIs, hsame.nBit, hsame.hSocket]
    exact hs.free

omit [DecidableEq ι] in
/-- `Close` drops the reference of the connection. -/
theorem close (hs : s.RefsHeld) : ({ s with sock := s.sock.close } : SendSide ι).RefsHeld := by
  cases hopen : s.sock.hSocket with
  | none =>
      have hsock : s.sock.close = s.sock := by simp only [BGTestSocket.close, hopen]
      rw [hsock]
      exact hs
  | some hSocket =>
      have hsock : s.sock.close = s.sock.closeHandle.release := by
        simp only [BGTestSocket.close, hopen]
      have hnone : s.sock.close.hSocket = none := by
        rw [hsock]
        exact s.sock.hSocket_closeHandle
      refine ⟨?_, fun _ => hnone⟩
      have hcounted := hs.counted
      rw [hopen, Option.isSome_some, if_pos rfl,
        show 1 + 1 + s.heldRefs = (1 + s.heldRefs) + 1 by omega] at hcounted
      simp only [hnone, Option.isSome_none, Bool.false_eq_true, if_false, Nat.add_zero]
      rw [hsock]
      simp only [BGTestSocket.release, SlotLife.closeHandle_eq]
      exact hcounted.release_general

omit [DecidableEq ι] in
/-- `CreateSocket` takes one for the connection. -/
theorem create (hs : s.RefsHeld) (newId : ℕ) (newSocket : Handle) (addr port : ℕ) :
    (s.create newId newSocket addr port).RefsHeld := by
  have hsock : (s.create newId newSocket addr port).sock =
      (s.sock.claim newId (some newSocket) addr port).2 := by rw [SendSide.create_eq]
  have hheld : (s.create newId newSocket addr port).heldRefs = s.heldRefs := by
    rw [SendSide.create_eq]
    rfl
  by_cases htaken : (s.sock.claim newId (some newSocket) addr port).1 = .taken
  · obtain ⟨hfree, hused, hsocket, hobj⟩ := BGTestSocket.claim_taken htaken
    have hcounted := hs.counted
    rw [hs.free hfree] at hcounted
    refine ⟨?_, fun hbit => ?_⟩
    · rw [hheld, hsock, hobj, hsocket]
      have hadd := hcounted.addRef_general (by omega)
      rwa [show 1 + (if (none : Option Handle).isSome then 1 else 0) + s.heldRefs + 1 =
        1 + (if (some newSocket).isSome then 1 else 0) + s.heldRefs by simp; omega] at hadd
    · rw [hsock, hused] at hbit
      exact absurd hbit (by decide)
  · obtain ⟨hobj, hsocket, hbits⟩ := BGTestSocket.claim_not_taken htaken
    refine ⟨?_, fun hbit => ?_⟩
    · rw [hheld, hsock, hobj, hsocket]
      exact hs.counted
    · rw [hsock] at hbit ⊢
      rw [hsocket]
      exact hs.free (hbits hbit)

theorem step {a : SendAct ι} (hs : s.RefsHeld) (hok : SendsLand s a)
    (hstep : sendStep s a = some t) : t.RefsHeld := by
  cases a with
  | close =>
      simp only [sendStep, Option.some.injEq] at hstep
      exact hstep ▸ hs.close
  | create newId newSocket addr port =>
      simp only [sendStep, Option.some.injEq] at hstep
      exact hstep ▸ hs.create newId newSocket addr port
  | complete u i bSuccess n =>
      refine hs.sendSide (by simp) (by simp) ?_ hstep
      rw [hok.1]
      rfl
  | _ => exact hs.sendSide (by simp) (by simp) rfl hstep

end SendSide.RefsHeld

theorem SendSide.Flows.step_all {a : SendAct ι} (hs : s.Flows) (hok : SendsLand s a)
    (hstep : sendStep s a = some t) : t.Flows := by
  by_cases hcreate : ∃ newId newSocket addr port, a = .create newId newSocket addr port
  · obtain ⟨newId, newSocket, addr, port, rfl⟩ := hcreate
    simp only [sendStep, Option.some.injEq] at hstep
    exact hstep ▸ hs.create hok
  · exact hs.step hok (fun newId newSocket addr port h => hcreate ⟨_, _, _, _, h⟩) hstep

theorem SendSide.flows_of_reaches {heap : Heap} {pReadBuf : Ptr}
    (h : Reaches sendStep SendsLand (.start ι heap pReadBuf) s) : s.Flows :=
  h.invariant SendSide.Flows
    ⟨(SendSide.start ι heap pReadBuf).history, true, [], [],
      SendSide.start_inv False heap pReadBuf, fun _ => rfl⟩
    fun _ _ _ hs hok hstep => hs.step_all hok hstep

/-- **No send wedges a connection**, and every reference taken for one is released, along
the runs in which no send of an open connection goes wrong. -/
theorem notWedged_of_reaches {heap : Heap} {pReadBuf : Ptr}
    (h : Reaches sendStep SendsLand (.start ι heap pReadBuf) s) : NotWedged s := by
  have hrefs : s.RefsHeld := by
    refine h.invariant SendSide.RefsHeld ⟨?_, fun _ => rfl⟩
      fun _ _ _ hs hok hstep => hs.step hok hstep
    have hzero : (SendSide.start ι heap pReadBuf).heldRefs = 0 := by
      simp [SendSide.heldRefs, SendSide.start, SendPc.isCallback]
    rw [hzero]
    exact BGIOObject.counted_new
  exact ⟨(SendSide.flows_of_reaches h).outstanding, hrefs.counted⟩

/-! ## A failure is for good -/

/-- Something is queued, and no thread or completion is on the way to send it. -/
structure Wedged (s : SendSide ι) : Prop where
  first : s.sock.pFirstBuf ≠ none
  last : s.sock.pLastBuf ≠ none
  sends : s.sends = []
  rest : ∀ t, (s.pc t).isToken = false

/-- The step is a send that fails, a completion that is only logged, or the callback of a
short one. -/
def SendSide.Fails (s : SendSide ι) : SendAct ι → Prop
  | .send _ ok => ok = false
  | .complete _ _ bSuccess _ => bSuccess = false
  | .lock t => ∃ n p, s.pc t = .cbLock n ∧ s.sock.pFirstBuf = some p ∧ n ≠ (s.heap p).dwSize
  | .callWrite .. | .free .. | .close | .create .. => False

namespace Wedged

omit [Fintype ι] in
/-- A thread moves on without coming to a send. -/
theorem rest_goto (h : ∀ u, (s.pc u).isToken = false) {u : ι} {k : SendPc}
    (hk : k.isToken = false) : ∀ v, (Function.update s.pc u k v).isToken = false :=
  (Function.forall_update_iff s.pc fun _ k => k.isToken = false).mpr ⟨hk, fun v _ => h v⟩

omit [Fintype ι] in
/-- `Write` links its buffer behind the others, or copies it there, and relies on the send
that is outstanding. -/
theorem writeRegion (h : Wedged s) {u : ι} {p : Ptr} (hs : s.writeRegion u p = some t) :
    Wedged t := by
  obtain ⟨last, hlast⟩ := Option.ne_none_iff_exists'.mp h.last
  simp only [SendSide.writeRegion, BGTestSocket.enqueue, hlast] at hs
  split at hs
  · cases hc : (s.heap last).coalesce (s.heap p).bytes with
    | none => simp [hc] at hs
    | some c =>
        simp only [hc, Option.map_some, Option.some.injEq] at hs
        subst hs
        exact ⟨h.first, by simp [SendSide.goto], h.sends, rest_goto h.rest rfl⟩
  · simp only [Option.map_some, Option.some.injEq] at hs
    subst hs
    exact ⟨h.first, by simp [SendSide.goto], h.sends, rest_goto h.rest rfl⟩

omit [Fintype ι] in
/-- No step, `Close` and `CreateSocket` included, gets the queue going again. -/
theorem step {a : SendAct ι} (h : Wedged s) (hs : sendStep s a = some t) : Wedged t := by
  cases a with
  | callWrite u p data =>
      simp only [sendStep, Option.ite_none_right_eq_some, Option.some.injEq] at hs
      obtain ⟨-, rfl⟩ := hs
      simp only [SendSide.callWrite]
      split
      · exact ⟨h.first, h.last, h.sends, rest_goto h.rest rfl⟩
      · split <;> exact ⟨h.first, h.last, h.sends, rest_goto h.rest rfl⟩
  | lock u =>
      simp only [sendStep] at hs
      split at hs
      case h_1 p hp => exact h.writeRegion hs
      case h_2 n hn =>
        have htoken := h.rest u
        simp [hn, SendPc.isToken] at htoken
      case h_3 => exact absurd hs (by simp)
  | send u ok =>
      have htoken := h.rest u
      simp only [sendStep, SendSide.sendRegion] at hs
      cases hk : s.pc u with
      | writeSend p => simp [hk, SendPc.isToken] at htoken
      | cbSend p => simp [hk, SendPc.isToken] at htoken
      | _ => simp [hk] at hs
  | free u next =>
      simp only [sendStep, SendSide.freeRegion] at hs
      cases hk : s.pc u with
      | writeFree p =>
          simp only [hk, Option.some.injEq] at hs
          subst hs
          exact ⟨h.first, h.last, h.sends, rest_goto h.rest rfl⟩
      | cbFree p =>
          simp only [hk, Option.some.injEq] at hs
          subst hs
          exact ⟨h.first, h.last, h.sends, rest_goto h.rest rfl⟩
      | _ => simp [hk] at hs
  | complete u i bSuccess n => simp [sendStep, SendSide.complete, h.sends] at hs
  | close =>
      simp only [sendStep, Option.some.injEq] at hs
      subst hs
      obtain ⟨hfirst, hlast, -⟩ := s.sock.close_queue
      exact ⟨hfirst ▸ h.first, hlast ▸ h.last, h.sends, h.rest⟩
  | create newId newSocket addr port =>
      simp only [sendStep, Option.some.injEq] at hs
      subst hs
      obtain ⟨hfirst, hlast, -⟩ := s.sock.claim_queue newId (some newSocket) addr port
      rw [SendSide.create_eq]
      exact ⟨hfirst ▸ h.first, hlast ▸ h.last, h.sends, h.rest⟩

omit [DecidableEq ι] in
/-- A quiet open connection that is wedged sends nothing. -/
theorem not_notWedged (h : Wedged s) (hquiet : s.Quiet) (hopen : s.sock.hSocket ≠ none) :
    ¬NotWedged s := by
  intro hok
  obtain ⟨snd, hsends, -⟩ := hok.outstanding hquiet hopen h.first
  rw [h.sends] at hsends
  exact absurd hsends (by simp)

end Wedged

/-- The queue of the invariant, when something is in it. -/
theorem SendInv.wedged {bounded : Prop} {ids unsent : List Ptr} {u : ι} {k : SendPc}
    (h : SendInv bounded s ids unsent) (hne : ids ≠ []) (hsends : t.sends = [])
    (hrest : ∀ v, v ≠ u → (s.pc v).isToken = false) (hk : k.isToken = false)
    (hpc : t.pc = Function.update s.pc u k) (hfirst : t.sock.pFirstBuf = s.sock.pFirstBuf)
    (hlast : t.sock.pLastBuf = s.sock.pLastBuf) : Wedged t where
  first := by
    rw [hfirst, h.queue.first_eq, ne_eq, List.head?_eq_none_iff]
    exact hne
  last := by
    rw [hlast, h.queue.last_eq, ne_eq, List.getLast?_eq_none_iff]
    exact hne
  sends := hsends
  rest := by
    rw [hpc]
    exact (Function.forall_update_iff s.pc fun _ k => k.isToken = false).mpr ⟨hk, hrest⟩

/-- Each of the failures takes the token away and leaves the queue. -/
theorem SendInv.wedged_of_fails {bounded : Prop} {ids unsent : List Ptr} {a : SendAct ι}
    (h : SendInv bounded s ids unsent) (hfails : s.Fails a) (hs : sendStep s a = some t) :
    Wedged t := by
  cases a with
  | send u ok =>
      obtain rfl : ok = false := hfails
      simp only [sendStep, SendSide.sendRegion] at hs
      cases hk : s.pc u with
      | writeSend p =>
          obtain ⟨hne, hsends, hrest⟩ := h.tokens.sole (t := u) (by rw [hk]; rfl)
          simp only [hk, SendSide.wsaSend, Bool.false_eq_true, if_false, Option.map_some,
            Option.some.injEq] at hs
          subst hs
          exact h.wedged hne hsends hrest rfl rfl rfl rfl
      | cbSend q =>
          obtain ⟨hne, hsends, hrest⟩ := h.tokens.sole (t := u) (by rw [hk]; rfl)
          cases hfirst : s.sock.pFirstBuf with
          | none => simp [hk, hfirst] at hs
          | some p =>
              simp only [hk, hfirst, SendSide.wsaSend, Bool.false_eq_true, if_false,
                Option.map_some, Option.some.injEq] at hs
              subst hs
              exact h.wedged hne hsends hrest rfl rfl rfl rfl
      | _ => simp [hk] at hs
  | complete u i bSuccess n =>
      obtain rfl : bSuccess = false := hfails
      simp only [sendStep, Option.ite_none_right_eq_some, SendSide.complete] at hs
      cases hi : s.sends[i]? with
      | none => simp [hi] at hs
      | some snd =>
          obtain ⟨hne, hsends, hrest⟩ := h.tokens.sole_send (List.mem_of_getElem? hi)
          have hlt : i < s.sends.length := (List.getElem?_eq_some_iff.mp hi).1
          have herase : s.sends.eraseIdx i = [] := by
            rw [hsends, List.length_singleton] at hlt
            rw [hsends, Nat.lt_one_iff.mp hlt]
            rfl
          simp only [hi, herase, Bool.false_eq_true, if_false, Option.some.injEq] at hs
          obtain ⟨-, rfl⟩ := hs
          exact h.wedged hne rfl (fun v _ => hrest v) (hrest u)
            (Function.update_eq_self u s.pc).symm rfl rfl
  | lock u =>
      obtain ⟨n, p, hk, hfirst, hn⟩ := hfails
      obtain ⟨hne, hsends, hrest⟩ := h.tokens.sole (t := u) (by rw [hk]; rfl)
      simp only [sendStep, hk, SendSide.writeCallbackRegion, dequeue_short hfirst hn,
        Option.map_some, Option.some.injEq] at hs
      subst hs
      exact h.wedged hne hsends hrest rfl rfl rfl rfl
  | callWrite u p data => exact hfails.elim
  | free u next => exact hfails.elim
  | close => exact hfails.elim
  | create newId newSocket addr port => exact hfails.elim

theorem SendSide.Flows.wedged_of_fails {a : SendAct ι} (hs : s.Flows) (hfails : s.Fails a)
    (hstep : sendStep s a = some t) : Wedged t := by
  obtain ⟨h, c, ids, unsent, hinv, -⟩ := hs
  obtain ⟨t', ht', heq⟩ := SendSide.sendStep_other hstep c h
  have hfails' : ((s.setClean c).setHistory h).Fails a := by
    cases a <;> exact hfails
  have hwedged := hinv.wedged_of_fails hfails' ht'
  rw [← heq] at hwedged
  exact ⟨hwedged.first, hwedged.last, hwedged.sends, hwedged.rest⟩

/-- **A failed send is for good**: whatever happens behind it, new connections on the slot
included, the queue is not empty and nobody sends it. -/
theorem wedged_of_reaches {heap : Heap} {pReadBuf : Ptr} {a : SendAct ι} {u : SendSide ι}
    (h : Reaches sendStep SendsLand (.start ι heap pReadBuf) s) (hfails : s.Fails a)
    (hstep : sendStep s a = some t) (h' : Reaches sendStep Always t u) : Wedged u :=
  h'.invariant Wedged ((SendSide.flows_of_reaches h).wedged_of_fails hfails hstep)
    fun _ _ _ hw _ hs => hw.step hs

end Runs

/-- Two writes; the second is sent from the callback of the first. -/
def landedRun : List (SendAct Unit) :=
  [.create 0 1 0 0, .callWrite () 1 [7], .lock (), .send () true, .callWrite () 2 [8, 9], .lock (),
    .complete () 0 true 1, .lock (), .send () true, .free () none]

theorem notWedged_of_reaches_landed :
    ∃ s, runAll sendStep (.start Unit (fun _ => .blank) 0) landedRun = some s ∧
      s.sock.pFirstBuf = some 2 ∧ NotWedged s := by
  have hrun : ∃ s, runAll sendStep (.start Unit (fun _ => .blank) 0) landedRun = some s ∧
      s.sock.pFirstBuf = some 2 := ⟨_, rfl, rfl⟩
  obtain ⟨s, hs, hfirst⟩ := hrun
  have hreach := Reaches.of_runAll (C := SendsLand) hs (by decide)
  exact ⟨s, hs, hfirst, notWedged_of_reaches hreach⟩

/-- A `WSASend` that fails at once on an open connection. -/
def failedSendRun : List (SendAct Unit) :=
  [.create 0 1 0 0, .callWrite () 1 [7], .lock (), .send () false]

/-- **A failed send wedges the connection**: the byte is queued, and nothing is
outstanding. -/
theorem not_notWedged_failed :
    ¬∀ s, Reaches sendStep PayloadsFit (.start Unit (fun _ => .blank) 0) s → NotWedged s := by
  intro h
  have hrun : ∃ s, runAll sendStep (.start Unit (fun _ => .blank) 0) failedSendRun = some s ∧
      s.Quiet ∧ s.sock.hSocket = some 1 ∧ s.sock.pFirstBuf = some 1 ∧ s.sends = [] :=
    ⟨_, rfl, fun _ => rfl, rfl, rfl, rfl⟩
  obtain ⟨s, hs, hquiet, hopen, hfirst, hsends⟩ := hrun
  have hreach : Reaches sendStep PayloadsFit (.start Unit (fun _ => .blank) 0) s :=
    .of_labels hs (by simp [failedSendRun, PayloadsFit, bgBufferSize])
  obtain ⟨snd, hsnd, -⟩ := (h s hreach).outstanding hquiet (by simp [hopen]) (by simp [hfirst])
  rw [hsends] at hsnd
  exact absurd hsnd (by simp)

end BGIocpServer
