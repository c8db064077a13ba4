import BGIocpServer.SendInvariant

/-!
# The steps of the send side

`SendInv` is kept by every step that meets `SendOk`: a payload fits in its buffer,
`Write` coalesces only what fits in `m_buffer`, and `CreateSocket` takes the slot
when its former sends are settled. There is one lemma for each branch of the two
functions. The counter `m_nPendingWrite` is a `long`: it is the number of queued
bytes up to overflow, and the number itself in runs where `bounded` holds, which
keep it in its range.

## Main results

* `sendStep_inv`: one step.
* `SendSide.inv_of_reaches`: every run from a fresh slot.
-/

namespace BGIocpServer
open Kit

variable {ι : Type} [Fintype ι] [DecidableEq ι]

/-- The invariant, with the queue and its unsent part. -/
structure SendInv (bounded : Prop) (s : SendSide ι) (ids unsent : List Ptr) : Prop where
  queue : QueueHolds s.heap s.sock.pFirstBuf s.sock.pLastBuf ids
  unsent_eq : unsent = ids ∨ unsent = ids.tail
  owned : Owned s.live s.pc ids
  pending : s.sock.nPendingWrite = toLong (queuedSize s.heap ids)
  pending_lt : bounded → queuedSize s.heap ids < 2 ^ 31
  pc_ok : ∀ t, (s.pc t).Ok s.heap s.clean ids unsent
  sends_ok : ∀ snd ∈ s.sends, ids.head? = some snd.buf ∧ unsent = ids.tail ∧
    snd.len = (s.heap snd.buf).dwSize ∧ snd.data = (s.heap snd.buf).bytes
  tokens : Tokens s.pc s.sends s.clean ids
  called : ∀ t p, s.pc t = .writeLock p → s.callConn t = s.conn
  history : History s.heap s.conn s.written s.sent s.completed ids unsent

/-- Every call of `Write` and `WriteCallback` on the slot is past its `WSASend`,
no send is outstanding, and none has failed or completed short. -/
def SendSide.Settled (s : SendSide ι) : Prop :=
  (∀ t, s.pc t = .idle ∨ (∃ p, s.pc t = .writeFree p) ∨ ∃ p, s.pc t = .cbFree p) ∧
    s.sends = [] ∧ s.clean = true

/-- The locked region of `Write` stays inside `m_buffer` when it coalesces, which it
does when the queue has two buffers or more and the test of the size passes. -/
def SendSide.FitsBuffer (s : SendSide ι) (p : Ptr) : Prop :=
  ∀ last ∈ s.sock.pLastBuf, s.sock.pFirstBuf ≠ some last →
    (s.heap last).dwSize + (s.heap p).dwSize ≤ bufferSize →
      (s.heap last).dwSize + (s.heap p).dwSize ≤ bgBufferSize

/-- It stays inside the range of `m_nPendingWrite`. -/
def SendSide.FitsLong (s : SendSide ι) (p : Ptr) : Prop :=
  s.sock.nPendingWrite + (s.heap p).dwSize < 2 ^ 31

instance (s : SendSide ι) (p : Ptr) : Decidable (s.FitsBuffer p) :=
  inferInstanceAs (Decidable (∀ last ∈ s.sock.pLastBuf, _ → _ → _))

instance (s : SendSide ι) (p : Ptr) : Decidable (s.FitsLong p) :=
  inferInstanceAs (Decidable (_ < _))

/-- The steps under which the invariant is kept. -/
def SendOk (bounded : Prop) (s : SendSide ι) : SendAct ι → Prop
  | .callWrite _ _ data => data.length ≤ bgBufferSize
  | .lock t => ∀ p, s.pc t = .writeLock p → s.FitsBuffer p ∧ (bounded → s.FitsLong p)
  | .create newId newSocket addr port =>
      (s.sock.claim newId (some newSocket) addr port).1 = .taken → s.Settled
  | _ => True

namespace SendInv
variable {bounded : Prop} {s : SendSide ι} {ids unsent : List Ptr} {t : ι} {p : Ptr}

omit [DecidableEq ι] in
/-- Only the queue fields of the socket matter. -/
theorem setSock (h : SendInv bounded s ids unsent) {sock : BGTestSocket}
    (hq : sock.pFirstBuf = s.sock.pFirstBuf ∧ sock.pLastBuf = s.sock.pLastBuf ∧
      sock.nPendingWrite = s.sock.nPendingWrite) :
    SendInv bounded { s with sock := sock } ids unsent := by
  obtain ⟨hf, hl, hn⟩ := hq
  refine ⟨?_, h.unsent_eq, h.owned, ?_, h.pending_lt, h.pc_ok, h.sends_ok, h.tokens, h.called,
    h.history⟩
  · simp only [hf, hl]
    exact h.queue
  · simp only [hn]
    exact h.pending

omit [DecidableEq ι] in
/-- In its range the counter is the number of queued bytes. -/
theorem pending_eq (h : SendInv bounded s ids unsent) (hb : bounded) :
    s.sock.nPendingWrite = queuedSize s.heap ids := by
  have hlt := h.pending_lt hb
  rw [h.pending, toLong_of_lt (by omega) (by omega)]

omit [DecidableEq ι] in
/-- `InterlockedExchangeAdd` of the payload, when the queue grows by it. -/
theorem pending_add (h : SendInv bounded s ids unsent) {heap' : Heap} {ids' : List Ptr} {n : ℕ}
    (hsum : queuedSize heap' ids' = queuedSize s.heap ids + n) :
    toLong (s.sock.nPendingWrite + n) = toLong (queuedSize heap' ids') := by
  rw [h.pending, toLong_toLong_add, hsum]
  norm_cast

omit [DecidableEq ι] in
theorem pending_add_lt (h : SendInv bounded s ids unsent) {heap' : Heap} {ids' : List Ptr}
    (hlong : bounded → s.FitsLong p)
    (hsum : queuedSize heap' ids' = queuedSize s.heap ids + (s.heap p).dwSize) :
    bounded → queuedSize heap' ids' < 2 ^ 31 := by
  intro hb
  have hlt := hlong hb
  rw [SendSide.FitsLong, h.pending_eq hb] at hlt
  omega

/-- A thread that moves on is not before the locked region of `Write`. -/
theorem called_goto (h : SendInv bounded s ids unsent) {k : SendPc} (hk : ∀ q, k ≠ .writeLock q) :
    ∀ u q, Function.update s.pc t k u = .writeLock q → s.callConn u = s.conn := by
  intro u q hu
  by_cases hut : u = t
  · subst hut
    rw [Function.update_self] at hu
    exact absurd hu (hk q)
  · rw [Function.update_of_ne hut] at hu
    exact h.called u q hu

/-- A call of `Write` up to its locked region. -/
theorem callWrite (h : SendInv bounded s ids unsent) {data : List UInt8} (ht : s.pc t = .idle)
    (hp : s.live p = false) (hdata : data.length ≤ bgBufferSize) :
    SendInv bounded (s.callWrite t p data) ids unsent := by
  have hmem : p ∉ ids := fun hm => by simpa [hp] using h.owned.queued p hm
  have hmem' : p ∉ unsent := by
    rcases h.unsent_eq with he | he
    · rwa [he]
    · rw [he]
      exact fun hm => hmem (List.mem_of_mem_tail hm)
  have hheld : ∀ u, (s.pc u).held ≠ some p := fun u hu => by
    simpa [hp] using (h.owned.held u p hu).1
  have key : ∀ k : SendPc, k.held = some p → k.isToken = false →
      k.Ok (Function.update s.heap p ((s.heap p).init.fill data)) s.clean ids unsent →
      SendInv bounded ({ s.setBuf p ((s.heap p).init.fill data) with
        live := Function.update s.live p true
        callConn := Function.update s.callConn t s.conn }.goto t k) ids unsent := by
    intro k hk htok hok
    refine ⟨h.queue.frame hmem _, h.unsent_eq, h.owned.alloc hp hk, ?_, ?_, ?_, ?_, ?_, ?_, ?_⟩
    · change s.sock.nPendingWrite = toLong (queuedSize (Function.update s.heap p _) ids)
      rw [queuedSize_update hmem, h.pending]
    · change bounded → queuedSize (Function.update s.heap p _) ids < 2 ^ 31
      rw [queuedSize_update hmem]
      exact h.pending_lt
    · refine (Function.forall_update_iff s.pc fun _ k => k.Ok _ _ _ _).mpr ⟨hok, fun u _ => ?_⟩
      refine (h.pc_ok u).setBuf _ (hheld u) fun hhead => ?_
      exact absurd (List.mem_of_mem_head? hhead) hmem
    · intro snd hsnd
      have hne : snd.buf ≠ p := by
        rintro rfl
        exact hmem (List.mem_of_mem_head? (h.sends_ok snd hsnd).1)
      change _ ∧ _ ∧ snd.len = (Function.update s.heap p _ snd.buf).dwSize ∧
        snd.data = (Function.update s.heap p _ snd.buf).bytes
      rw [Function.update_of_ne hne]
      exact h.sends_ok snd hsnd
    · exact h.tokens.keep (by rw [htok, ht]; rfl) Iff.rfl
    · intro u q hu
      by_cases hut : u = t
      · subst hut
        exact Function.update_self ..
      · have hu' : s.pc u = .writeLock q := by
          rw [← hu]
          exact (Function.update_of_ne hut ..).symm
        exact (Function.update_of_ne hut ..).trans (h.called u q hu')
    · exact h.history.congr (contents_update hmem') (contents_update hmem)
  simp only [SendSide.callWrite]
  by_cases h0 : ((s.heap p).init.fill data).dwSize = 0
  · rw [if_pos h0]
    exact key _ rfl rfl trivial
  · rw [if_neg h0]
    by_cases hbig : ((s.heap p).init.fill data).dwSize > bufferSize
    · rw [if_pos hbig]
      exact key _ rfl rfl trivial
    · rw [if_neg hbig]
      refine key _ rfl rfl ?_
      change (Function.update s.heap p _ p).pNext = none ∧
        (Function.update s.heap p _ p).dwSize ≤ bgBufferSize
      rw [Function.update_self]
      exact ⟨rfl, hdata⟩

/-! ### The locked region of `Write` -/

/-- The queue is empty: the buffer becomes its only node. -/
theorem writeFirst (h : SendInv bounded s ids unsent) (ht : s.pc t = .writeLock p)
    (hlong : bounded → s.FitsLong p) (hlast : s.sock.pLastBuf = none) {s' : SendSide ι}
    (hs : s.writeRegion t p = some s') : SendInv bounded s' [p] [p] := by
  simp only [SendSide.writeRegion, enqueue_first hlast, Option.map_some, Option.some.injEq] at hs
  subst hs
  have hnil : ids = [] := (hlast ▸ h.queue).eq_nil
  subst hnil
  have hunsent : unsent = [] := by simpa using h.unsent_eq
  subst hunsent
  obtain ⟨hsends, hrest⟩ := h.tokens.none
  have hok : (s.heap p).pNext = none ∧ (s.heap p).dwSize ≤ bgBufferSize := by
    simpa only [ht, SendPc.Ok] using h.pc_ok t
  have hsum : queuedSize s.heap [p] = queuedSize s.heap [] + (s.heap p).dwSize := by simp
  refine ⟨.singleton hok.1 hok.2, .inl rfl, ?_, ?_, ?_, ?_, ?_, ?_, ?_, ?_⟩
  · exact h.owned.enqueue (by rw [ht]; rfl) rfl
  · exact h.pending_add hsum
  · exact h.pending_add_lt hlong hsum
  · refine (Function.forall_update_iff s.pc fun _ k => k.Ok _ _ _ _).mpr ⟨⟨rfl, rfl⟩, ?_⟩
    exact fun u _ => (h.pc_ok u).of_not_token (hrest u) _ _ _
  · intro snd hsnd
    exact absurd (show snd ∈ s.sends from hsnd) (by simp [hsends])
  · refine .of_eq (by simp) ?_
    have hupd := tally_update SendPc.isToken s.pc t (.writeSend p)
    have hzero := h.tokens.zero rfl
    rw [ht] at hupd
    simp only [SendPc.isToken, Bool.toNat_false, Bool.toNat_true] at hupd
    change tally SendPc.isToken (Function.update s.pc t _) + s.sends.length = 1
    omega
  · exact h.called_goto (by simp)
  · change History s.heap s.conn (record s.written (s.callConn t) _) s.sent s.completed _ _
    rw [h.called t p ht]
    exact h.history.write (by simp) (by simp)

/-- The buffer is copied behind the last one, which is not the first. -/
theorem writeCoalesce (h : SendInv bounded s ids unsent) (ht : s.pc t = .writeLock p)
    (hfit : s.FitsBuffer p) (hlong : bounded → s.FitsLong p) {last : Ptr}
    (hlast : s.sock.pLastBuf = some last)
    (hne : s.sock.pFirstBuf ≠ some last)
    (hsize : ((s.heap last).dwSize + (s.heap p).dwSize) % 2 ^ 32 ≤ bufferSize) {s' : SendSide ι}
    (hs : s.writeRegion t p = some s') : SendInv bounded s' ids unsent := by
  obtain ⟨q, qs, hids, hqs, hlq⟩ := (hlast ▸ h.queue).last_ne_first hne
  have hmem : last ∈ ids := by
    rw [hids]
    exact List.mem_cons_of_mem q (List.mem_of_getLast? hqs)
  have hok : (s.heap p).pNext = none ∧ (s.heap p).dwSize ≤ bgBufferSize := by
    simpa only [ht, SendPc.Ok] using h.pc_ok t
  have hbound : bgBufferSize = 4096 := rfl
  have hlast_le := h.queue.size_le last hmem
  -- both sizes are small: the sum of the `DWORD`s does not wrap
  have hroom := hfit last hlast hne (by rwa [Nat.mod_eq_of_lt (by omega)] at hsize)
  have hroom' : (s.heap last).dwSize + (s.heap p).bytes.length ≤ bgBufferSize := by
    rwa [BGIOBuffer.length_bytes]
  obtain ⟨c, hc, hcsize, hcnext, hcbytes⟩ := BGIOBuffer.coalesce_inside hroom'
  rw [BGIOBuffer.length_bytes] at hcsize
  simp only [SendSide.writeRegion, enqueue_coalesced hlast ⟨hne, hsize⟩ hc, Option.map_some,
    Option.some.injEq] at hs
  subst hs
  have hlast_ids : ids.getLast? = some last := by rw [← h.queue.last_eq, hlast]
  have hcontents : contents (Function.update s.heap last c) ids =
      contents s.heap ids ++ (s.heap p).bytes :=
    contents_update_last hlast_ids h.queue.nodup hcbytes
  have hsum : queuedSize (Function.update s.heap last c) ids =
      queuedSize s.heap ids + (s.heap p).dwSize := by
    rw [← length_contents, hcontents, List.length_append, length_contents,
      BGIOBuffer.length_bytes]
  have hhead : ids.head? ≠ some last := by
    rw [hids, List.head?_cons, ne_eq, Option.some.injEq]
    exact fun he => hlq he.symm
  have hheld : ∀ u, (s.pc u).held ≠ some last := fun u hu => (h.owned.held u last hu).2 hmem
  have hqueue : QueueHolds (Function.update s.heap last c) s.sock.pFirstBuf (some last) ids :=
    (hlast ▸ h.queue).coalesce hcnext (by omega)
  refine ⟨?_, h.unsent_eq, h.owned.keep (.inr (by rw [ht]; rfl)), ?_, ?_, ?_, ?_, ?_, ?_, ?_⟩
  · simpa only [SendSide.goto, SendSide.setBuf, hlast] using hqueue
  · exact h.pending_add hsum
  · exact h.pending_add_lt hlong hsum
  · refine (Function.forall_update_iff s.pc fun _ k => k.Ok _ _ _ _).mpr ⟨trivial, fun u _ => ?_⟩
    exact (h.pc_ok u).setBuf c (hheld u) fun he => absurd he hhead
  · intro snd hsnd
    have hsnd' := h.sends_ok snd hsnd
    have hbuf : snd.buf ≠ last := by
      rintro rfl
      exact hhead hsnd'.1
    change _ ∧ _ ∧ snd.len = (Function.update s.heap last c snd.buf).dwSize ∧
      snd.data = (Function.update s.heap last c snd.buf).bytes
    rw [Function.update_of_ne hbuf]
    exact hsnd'
  · exact h.tokens.keep (by rw [ht]; rfl) Iff.rfl
  · exact h.called_goto (by simp)
  · change History _ s.conn (record s.written (s.callConn t) _) s.sent s.completed _ _
    rw [h.called t p ht]
    refine h.history.write ?_ hcontents
    rcases h.unsent_eq with he | he
    · rw [he]
      exact hcontents
    · have hnodup := h.queue.nodup
      rw [hids, List.nodup_cons] at hnodup
      rw [he, hids, List.tail_cons]
      exact contents_update_last hqs hnodup.2 hcbytes

/-- The buffer is linked behind the last one. -/
theorem writeAppend (h : SendInv bounded s ids unsent) (ht : s.pc t = .writeLock p)
    (hlong : bounded → s.FitsLong p) {last : Ptr} (hlast : s.sock.pLastBuf = some last)
    (hno : ¬ (s.sock.pFirstBuf ≠ some last ∧
      ((s.heap last).dwSize + (s.heap p).dwSize) % 2 ^ 32 ≤ bufferSize)) {s' : SendSide ι}
    (hs : s.writeRegion t p = some s') : SendInv bounded s' (ids ++ [p]) (unsent ++ [p]) := by
  have hlast_ids : ids.getLast? = some last := by rw [← h.queue.last_eq, hlast]
  have hmem : last ∈ ids := List.mem_of_getLast? hlast_ids
  have hne : ids ≠ [] := List.ne_nil_of_mem hmem
  have hok : (s.heap p).pNext = none ∧ (s.heap p).dwSize ≤ bgBufferSize := by
    simpa only [ht, SendPc.Ok] using h.pc_ok t
  have hp : p ∉ ids := (h.owned.held t p (by rw [ht]; rfl)).2
  have hpl : p ≠ last := by
    rintro rfl
    exact hp hmem
  simp only [SendSide.writeRegion, enqueue_appended hlast hno, Option.map_some,
    Option.some.injEq] at hs
  subst hs
  -- linking changes no bytes
  have hcontents : ∀ xs, contents (Function.update s.heap last
      { s.heap last with pNext := some p }) xs = contents s.heap xs :=
    fun xs => contents_update_same rfl
  have hsum : queuedSize (Function.update s.heap last { s.heap last with pNext := some p })
      (ids ++ [p]) = queuedSize s.heap ids + (s.heap p).dwSize := by
    rw [← length_contents, hcontents, contents_append, List.length_append, length_contents]
    simp
  have hheld : ∀ u, (s.pc u).held ≠ some last := fun u hu => (h.owned.held u last hu).2 hmem
  have hqueue := QueueHolds.append (hlast ▸ h.queue) hp hok.1 hok.2
  refine ⟨hqueue, ?_, h.owned.enqueue (by rw [ht]; rfl) rfl, ?_, ?_, ?_, ?_, ?_, ?_, ?_⟩
  · rcases h.unsent_eq with he | he
    · exact .inl (by rw [he])
    · exact .inr (by rw [he, List.tail_append_of_ne_nil hne])
  · exact h.pending_add hsum
  · exact h.pending_add_lt hlong hsum
  · refine (Function.forall_update_iff s.pc fun _ k => k.Ok _ _ _ _).mpr ⟨trivial, fun u _ => ?_⟩
    have hset := (h.pc_ok u).setBuf { s.heap last with pNext := some p } (hheld u) fun _ => rfl
    exact hset.append p hne
  · intro snd hsnd
    obtain ⟨hhead, hun, hlen, hdata⟩ := h.sends_ok snd hsnd
    refine ⟨?_, by rw [hun, List.tail_append_of_ne_nil hne], ?_⟩
    · rw [List.head?_append_of_ne_nil _ hne, hhead]
    · change snd.len = (Function.update s.heap last _ snd.buf).dwSize ∧
        snd.data = (Function.update s.heap last _ snd.buf).bytes
      by_cases hbuf : snd.buf = last
      · rw [hbuf, Function.update_self]
        rw [hbuf] at hlen hdata
        exact ⟨hlen, hdata⟩
      · rw [Function.update_of_ne hbuf]
        exact ⟨hlen, hdata⟩
  · exact h.tokens.keep (by rw [ht]; rfl) (by simp [hne])
  · exact h.called_goto (by simp)
  · change History _ s.conn (record s.written (s.callConn t) _) s.sent s.completed _ _
    rw [h.called t p ht]
    exact h.history.write ((hcontents _).trans (by simp)) ((hcontents _).trans (by simp))

/-- The locked region of `Write`. -/
theorem writeRegion (h : SendInv bounded s ids unsent) (ht : s.pc t = .writeLock p)
    (hfit : s.FitsBuffer p) (hlong : bounded → s.FitsLong p) {s' : SendSide ι}
    (hs : s.writeRegion t p = some s') :
    ∃ ids' unsent', SendInv bounded s' ids' unsent' := by
  cases hlast : s.sock.pLastBuf with
  | none => exact ⟨_, _, h.writeFirst ht hlong hlast hs⟩
  | some last =>
      by_cases hno : s.sock.pFirstBuf ≠ some last ∧
          ((s.heap last).dwSize + (s.heap p).dwSize) % 2 ^ 32 ≤ bufferSize
      · exact ⟨_, _, h.writeCoalesce ht hfit hlong hlast hno.1 hno.2 hs⟩
      · exact ⟨_, _, h.writeAppend ht hlong hlast hno hs⟩

/-! ### The locked region of `WriteCallback` -/

/-- The completion is short: the call ends there, and nobody sends any more. -/
theorem cbShort (h : SendInv bounded s ids unsent) {n : ℕ} (ht : s.pc t = .cbLock n)
    (hhead : ids.head? = some p) (hshort : n ≠ (s.heap p).dwSize) :
    SendInv bounded (s.goto t .idle) ids unsent := by
  have hok : unsent = ids.tail ∧ (s.clean = true → ∀ p, ids.head? = some p →
      n = (s.heap p).dwSize) := by simpa only [ht, SendPc.Ok] using h.pc_ok t
  have hdirty : s.clean = false := by
    by_contra hc
    exact hshort (hok.2 (by simpa using hc) p hhead)
  refine ⟨h.queue, h.unsent_eq, h.owned.keep (.inl rfl), h.pending, h.pending_lt, ?_, h.sends_ok,
    ?_, h.called_goto (by simp), h.history⟩
  · exact (Function.forall_update_iff s.pc fun _ k => k.Ok _ _ _ _).mpr
      ⟨trivial, fun u _ => h.pc_ok u⟩
  · change Tokens (Function.update s.pc t .idle) s.sends s.clean ids
    rw [hdirty]
    refine h.tokens.lose ?_
    have hupd := tally_update SendPc.isToken s.pc t .idle
    simp only [SendPc.isToken, Bool.toNat_false] at hupd
    omega

/-- The first buffer was sent in full: it leaves the queue. -/
theorem cbPop {rest : List Ptr} (h : SendInv bounded s (p :: rest) unsent) {n : ℕ}
    (ht : s.pc t = .cbLock n) (k : SendPc) (last' : Option Ptr)
    (hlast' : last' = if rest = [] then none else s.sock.pLastBuf)
    (hk : k = if rest = [] then .cbFree p else .cbSend p) :
    SendInv bounded ({ s with
      sock.nPendingWrite := toLong (s.sock.nPendingWrite - (s.heap p).dwSize)
      sock.pFirstBuf := (s.heap p).pNext
      sock.pLastBuf := last'
      completed := record s.completed s.conn (s.heap p).bytes }.goto t k) rest rest := by
  obtain ⟨hne, hsends, hrest⟩ := h.tokens.sole (t := t) (by rw [ht]; rfl)
  have hunsent : unsent = rest := by
    have hok := h.pc_ok t
    simp only [ht, SendPc.Ok, List.tail_cons] at hok
    exact hok.1
  subst hunsent
  obtain ⟨-, hqueue⟩ := h.queue.pop
  have hheld : k.held = some p := by
    rw [hk]
    split <;> rfl
  have hnodup := h.queue.nodup
  refine ⟨hlast' ▸ hqueue, .inl rfl, h.owned.dequeue hnodup hheld, ?_, ?_, ?_, ?_, ?_, ?_, ?_⟩
  · change toLong (s.sock.nPendingWrite - (s.heap p).dwSize) = toLong (queuedSize s.heap unsent)
    rw [h.pending, toLong_toLong_sub, queuedSize_cons]
    congr 1
    omega
  · intro hb
    have hlt := h.pending_lt hb
    rw [queuedSize_cons] at hlt
    exact (Nat.le_add_left _ _).trans_lt hlt
  · refine (Function.forall_update_iff s.pc fun _ k => k.Ok _ _ _ _).mpr ⟨?_, fun u hu => ?_⟩
    · rw [hk]
      split
      · trivial
      · rfl
    · exact (h.pc_ok u).of_not_token (hrest u hu) _ _ _
  · intro snd hsnd
    exact absurd (show snd ∈ s.sends from hsnd) (by simp [hsends])
  · have hupd := tally_update SendPc.isToken s.pc t k
    have hone := h.tokens.le_one
    have hpos := tally_pos (P := SendPc.isToken) (f := s.pc) (i := t) (by rw [ht]; rfl)
    have hlen : s.sends.length = 0 := by rw [hsends]; rfl
    rw [ht] at hupd
    change Tokens (Function.update s.pc t k) s.sends s.clean unsent
    by_cases hnil : unsent = []
    · rw [if_pos hnil] at hk
      subst hk
      simp only [SendPc.isToken, Bool.toNat_false, Bool.toNat_true] at hupd
      exact ⟨by omega, fun _ => by omega, fun _ hne => absurd hnil hne⟩
    · rw [if_neg hnil] at hk
      subst hk
      simp only [SendPc.isToken, Bool.toNat_true] at hupd
      exact .of_eq hnil (by omega)
  · refine h.called_goto fun q => ?_
    rw [hk]
    split <;> simp
  · exact h.history.complete (contents_cons ..)

/-- The locked region of `WriteCallback`. -/
theorem writeCallbackRegion (h : SendInv bounded s ids unsent) {n : ℕ} (ht : s.pc t = .cbLock n)
    {s' : SendSide ι} (hs : s.writeCallbackRegion t n = some s') :
    ∃ ids' unsent', SendInv bounded s' ids' unsent' := by
  obtain ⟨p, rest, rfl⟩ :=
    List.exists_cons_of_ne_nil (h.tokens.sole (t := t) (by rw [ht]; rfl)).1
  have hfirst : s.sock.pFirstBuf = some p := h.queue.first_eq
  have hnext : (s.heap p).pNext = rest.head? := h.queue.pop.1
  by_cases hshort : n ≠ (s.heap p).dwSize
  · simp only [SendSide.writeCallbackRegion, dequeue_short hfirst hshort, Option.map_some,
      Option.some.injEq] at hs
    subst hs
    exact ⟨_, _, (h.cbShort ht rfl hshort).setSock ⟨rfl, rfl, rfl⟩⟩
  · have hfull : n = (s.heap p).dwSize := not_not.mp hshort
    cases rest with
    | nil =>
        rw [List.head?_nil] at hnext
        simp only [SendSide.writeCallbackRegion, dequeue_empty hfirst hfull hnext, Option.map_some,
          Option.some.injEq] at hs
        subst hs
        have hpop := h.cbPop ht (.cbFree p) none rfl rfl
        rw [hnext] at hpop
        exact ⟨_, _, hpop⟩
    | cons q qs =>
        rw [List.head?_cons] at hnext
        simp only [SendSide.writeCallbackRegion, dequeue_more hfirst hfull hnext, Option.map_some,
          Option.some.injEq] at hs
        subst hs
        have hpop := h.cbPop ht (.cbSend p) s.sock.pLastBuf rfl rfl
        rw [hnext] at hpop
        exact ⟨_, _, hpop⟩

/-! ### `WSASend` and its completion -/

/-- A thread that has come to its `WSASend`: the buffer to send is the first one,
nothing is outstanding, and all of the queue is unsent. -/
theorem sendOk (h : SendInv bounded s ids unsent) {k : SendPc} (hid : ids.head? = some p)
    (hun : unsent = ids) (ht : (s.pc t).isToken = true) (hk : k.isToken = false)
    (hheld : k.held = none ∨ k.held = (s.pc t).held) (hok : ∀ ids unsent,
      k.Ok s.heap s.clean ids unsent) (hnot : ∀ q, k ≠ .writeLock q) {sock : BGTestSocket}
    (hq : sock.pFirstBuf = s.sock.pFirstBuf ∧ sock.pLastBuf = s.sock.pLastBuf ∧
      sock.nPendingWrite = s.sock.nPendingWrite) :
    SendInv bounded ({ s with
      sock := sock
      sends := s.sends ++ [(⟨p, (s.heap p).dwSize, (s.heap p).bytes⟩ : Send)]
      sent := record s.sent s.conn (s.heap p).bytes }.goto t k) ids ids.tail := by
  obtain ⟨q, qs, rfl⟩ := List.exists_cons_of_ne_nil (h.tokens.sole ht).1
  obtain ⟨-, hsends, hrest⟩ := h.tokens.sole ht
  rw [List.head?_cons, Option.some.injEq] at hid
  subst hid hun
  have hbase := h.setSock hq
  refine ⟨hbase.queue, .inr rfl, h.owned.keep hheld, hbase.pending, h.pending_lt, ?_, ?_, ?_,
    h.called_goto hnot, h.history.send (contents_cons ..)⟩
  · refine (Function.forall_update_iff s.pc fun _ k => k.Ok _ _ _ _).mpr ⟨hok _ _, fun u hu => ?_⟩
    exact (h.pc_ok u).of_not_token (hrest u hu) _ _ _
  · intro snd hsnd
    have hsnd' : snd ∈ s.sends ++ [⟨q, (s.heap q).dwSize, (s.heap q).bytes⟩] := hsnd
    rw [hsends, List.nil_append, List.mem_singleton] at hsnd'
    subst hsnd'
    exact ⟨rfl, rfl, rfl, rfl⟩
  · have hupd := tally_update SendPc.isToken s.pc t k
    have hone := h.tokens.le_one
    have hpos := tally_pos (P := SendPc.isToken) ht
    rw [ht, hk] at hupd
    simp only [Bool.toNat_false, Bool.toNat_true] at hupd
    refine .of_eq (by simp) ?_
    change tally SendPc.isToken (Function.update s.pc t k) + (s.sends ++ [_]).length = 1
    rw [List.length_append, List.length_singleton]
    omega

/-- `WSASend` fails at once: nobody sends any more. -/
theorem sendFail (h : SendInv bounded s ids unsent) {k : SendPc} (ht : (s.pc t).isToken = true)
    (hk : k.isToken = false) (hheld : k.held = none ∨ k.held = (s.pc t).held)
    (hok : ∀ ids unsent, k.Ok s.heap false ids unsent) (hnot : ∀ q, k ≠ .writeLock q)
    {sock : BGTestSocket}
    (hq : sock.pFirstBuf = s.sock.pFirstBuf ∧ sock.pLastBuf = s.sock.pLastBuf ∧
      sock.nPendingWrite = s.sock.nPendingWrite) :
    SendInv bounded ({ s with sock := sock, clean := false }.goto t k) ids unsent := by
  have hbase := h.setSock hq
  refine ⟨hbase.queue, h.unsent_eq, h.owned.keep hheld, hbase.pending, h.pending_lt, ?_,
    h.sends_ok, ?_, h.called_goto hnot, h.history⟩
  · exact (Function.forall_update_iff s.pc fun _ k => k.Ok _ _ _ _).mpr
      ⟨hok _ _, fun u _ => (h.pc_ok u).dirty⟩
  · have hupd := tally_update SendPc.isToken s.pc t k
    rw [ht, hk] at hupd
    simp only [Bool.toNat_false, Bool.toNat_true] at hupd
    refine h.tokens.lose ?_
    change _ + s.sends.length ≤ _
    omega

/-- The `WSASend` of `Write` or of `WriteCallback`. -/
theorem sendRegion (h : SendInv bounded s ids unsent) {ok : Bool} {s' : SendSide ι}
    (hs : s.sendRegion t ok = some s') : ∃ ids' unsent', SendInv bounded s' ids' unsent' := by
  -- what both callers do, for the buffer `p` and the program point `k` behind the call
  have key : ∀ (p : Ptr) (k : SendPc) (s' : SendSide ι), ids.head? = some p → unsent = ids →
      (s.pc t).isToken = true → k.isToken = false → (k.held = none ∨ k.held = (s.pc t).held) →
      (∀ clean ids unsent, k.Ok s.heap clean ids unsent) → (∀ q, k ≠ .writeLock q) →
      (s.wsaSend p ok).map (fun s => s.goto t k) = some s' →
      ∃ ids' unsent', SendInv bounded s' ids' unsent' := by
    intro p k s' hid hun ht hk hheld hok hnot hs
    rw [Option.map_eq_some_iff] at hs
    obtain ⟨r, hr, rfl⟩ := hs
    simp only [SendSide.wsaSend] at hr
    cases ok with
    | true =>
        rw [if_pos rfl] at hr
        split at hr
        · rw [Option.some.injEq] at hr
          subst hr
          exact ⟨ids, ids.tail, h.sendOk hid hun ht hk hheld (hok _) hnot ⟨rfl, rfl, rfl⟩⟩
        · exact absurd hr (by simp)
    | false =>
        simp only [Bool.false_eq_true, if_false, Option.some.injEq] at hr
        subst hr
        exact ⟨_, _, h.sendFail ht hk hheld (hok _) hnot ⟨rfl, rfl, rfl⟩⟩
  simp only [SendSide.sendRegion] at hs
  cases ht : s.pc t with
  | writeSend q =>
      rw [ht] at hs
      have hok := h.pc_ok t
      simp only [ht, SendPc.Ok] at hok
      exact key q .idle s' hok.1 hok.2 (by rw [ht]; rfl) rfl (.inl rfl) (fun _ _ _ => trivial)
        (by simp) hs
  | cbSend q =>
      rw [ht] at hs
      have hok := h.pc_ok t
      simp only [ht, SendPc.Ok] at hok
      cases hfirst : s.sock.pFirstBuf with
      | none =>
          rw [hfirst] at hs
          exact absurd hs (by simp)
      | some p =>
          simp only [hfirst] at hs
          have hid : ids.head? = some p := by rw [← h.queue.first_eq, hfirst]
          exact key p (.cbFree q) s' hid hok (by rw [ht]; rfl) rfl (.inr (by rw [ht]; rfl))
            (fun _ _ _ => trivial) (by simp) hs
  | idle => simp [ht] at hs
  | writeLock q => simp [ht] at hs
  | writeFree q => simp [ht] at hs
  | cbLock n => simp [ht] at hs
  | cbFree q => simp [ht] at hs

/-- A completion, successful or failed. -/
theorem complete (h : SendInv bounded s ids unsent) {i n : ℕ} {bSuccess : Bool}
    (ht : s.pc t = .idle) {s' : SendSide ι} (hs : s.complete t i bSuccess n = some s') :
    SendInv bounded s' ids unsent := by
  simp only [SendSide.complete] at hs
  cases hi : s.sends[i]? with
  | none => simp [hi] at hs
  | some snd =>
      have hmem : snd ∈ s.sends := List.mem_of_getElem? hi
      obtain ⟨hne, hsends, hrest⟩ := h.tokens.sole_send hmem
      obtain ⟨hhead, hun, hlen, -⟩ := h.sends_ok snd hmem
      have hlt : i < s.sends.length := (List.getElem?_eq_some_iff.mp hi).1
      have hi0 : i = 0 := by
        rw [hsends, List.length_singleton] at hlt
        omega
      have herase : s.sends.eraseIdx i = [] := by rw [hsends, hi0]; rfl
      have hzero : tally SendPc.isToken s.pc = 0 := tally_eq_zero.mpr hrest
      simp only [hi, herase] at hs
      by_cases hb : bSuccess = true
      · simp only [hb, if_true, Option.some.injEq, Bool.and_true] at hs
        subst hs
        refine ⟨h.queue, h.unsent_eq, h.owned.keep (.inl rfl), h.pending, h.pending_lt, ?_,
          fun _ hm => absurd hm List.not_mem_nil, ?_, h.called_goto (by simp), h.history⟩
        · refine (Function.forall_update_iff s.pc fun _ k => k.Ok _ _ _ _).mpr ⟨?_, fun u _ => ?_⟩
          · refine ⟨hun, fun hc q hq => ?_⟩
            rw [hhead, Option.some.injEq] at hq
            have hc' : (s.clean && n == snd.len) = true := hc
            rw [Bool.and_eq_true, beq_iff_eq] at hc'
            rw [hc'.2, hlen, hq]
            rfl
          · exact (h.pc_ok u).of_not_token (hrest u) _ _ _
        · have hupd := tally_update SendPc.isToken s.pc t (.cbLock n)
          rw [ht] at hupd
          simp only [SendPc.isToken, Bool.toNat_false, Bool.toNat_true] at hupd
          refine .of_eq hne ?_
          change tally SendPc.isToken (Function.update s.pc t _) + 0 = 1
          omega
      · rw [Bool.not_eq_true] at hb
        simp only [hb, Bool.and_false, Bool.false_and, Bool.false_eq_true, if_false,
          Option.some.injEq] at hs
        subst hs
        refine ⟨h.queue, h.unsent_eq, h.owned, h.pending, h.pending_lt,
          fun u => (h.pc_ok u).dirty, fun _ hm => absurd hm List.not_mem_nil, ?_, h.called,
          h.history⟩
        have hlose : Tokens (Function.update s.pc t (s.pc t)) [] false ids :=
          h.tokens.lose (by simp)
        rwa [Function.update_eq_self] at hlose

/-! ### The rest of the slot's life -/

/-- `Free`, behind `Write` or `WriteCallback`. -/
theorem freeRegion (h : SendInv bounded s ids unsent) {next : Option Ptr} {s' : SendSide ι}
    (hs : s.freeRegion t next = some s') : SendInv bounded s' ids unsent := by
  have key : ∀ (p : Ptr) (sock : BGTestSocket), (s.pc t).held = some p →
      (s.pc t).isToken = false → (sock.pFirstBuf = s.sock.pFirstBuf ∧
        sock.pLastBuf = s.sock.pLastBuf ∧ sock.nPendingWrite = s.sock.nPendingWrite) →
      SendInv bounded ({ s.setBuf p { s.heap p with pNext := next } with
        live := Function.update s.live p false, sock := sock }.goto t .idle) ids unsent := by
    intro p sock hheld htok hq
    have hmem : p ∉ ids := (h.owned.held t p hheld).2
    have hbase := h.setSock hq
    have hcontents : ∀ xs, contents (Function.update s.heap p { s.heap p with pNext := next }) xs =
        contents s.heap xs := fun xs => contents_update_same rfl
    refine ⟨hbase.queue.frame hmem _, h.unsent_eq, h.owned.free hheld rfl, ?_, ?_, ?_, ?_, ?_,
      h.called_goto (by simp), h.history.congr (hcontents _) (hcontents _)⟩
    · exact hbase.pending.trans (congrArg (fun n : ℕ => toLong n) (queuedSize_update hmem).symm)
    · exact fun hb => (queuedSize_update hmem).trans_lt (h.pending_lt hb)
    · refine (Function.forall_update_iff s.pc fun _ k => k.Ok _ _ _ _).mpr ⟨trivial, fun u hu => ?_⟩
      exact (h.pc_ok u).setBuf { s.heap p with pNext := next } (h.owned.held_ne hheld hu)
        fun hhead => absurd (List.mem_of_mem_head? hhead) hmem
    · intro snd hsnd
      have hne : snd.buf ≠ p := by
        rintro rfl
        exact hmem (List.mem_of_mem_head? (h.sends_ok snd hsnd).1)
      change _ ∧ _ ∧ snd.len = (Function.update s.heap p _ snd.buf).dwSize ∧
        snd.data = (Function.update s.heap p _ snd.buf).bytes
      rw [Function.update_of_ne hne]
      exact h.sends_ok snd hsnd
    · exact h.tokens.keep (by rw [htok]; rfl) Iff.rfl
  simp only [SendSide.freeRegion] at hs
  cases ht : s.pc t with
  | writeFree p =>
      simp only [ht, Option.some.injEq] at hs
      subst hs
      exact key p s.sock (by rw [ht]; rfl) (by rw [ht]; rfl) ⟨rfl, rfl, rfl⟩
  | cbFree p =>
      simp only [ht, Option.some.injEq] at hs
      subst hs
      exact key p _ (by rw [ht]; rfl) (by rw [ht]; rfl) ⟨rfl, rfl, rfl⟩
  | idle => simp [ht] at hs
  | writeLock p => simp [ht] at hs
  | writeSend p => simp [ht] at hs
  | cbLock n => simp [ht] at hs
  | cbSend p => simp [ht] at hs

omit [DecidableEq ι] in
/-- A settled slot has an empty queue. -/
theorem settled (h : SendInv bounded s ids unsent) (hset : s.Settled) : ids = [] ∧ unsent = [] := by
  obtain ⟨hpc, hsends, hclean⟩ := hset
  have hids : ids = [] := by
    by_contra hne
    have hone := h.tokens.one hclean hne
    have hzero : tally SendPc.isToken s.pc = 0 := by
      refine tally_eq_zero.mpr fun u => ?_
      rcases hpc u with hu | ⟨p, hu⟩ | ⟨p, hu⟩ <;> rw [hu] <;> rfl
    rw [hzero, hsends] at hone
    exact absurd hone (by simp)
  refine ⟨hids, ?_⟩
  rcases h.unsent_eq with he | he <;> rw [he, hids]
  rfl

omit [DecidableEq ι] in
/-- `CreateSocket` tries the slot. -/
theorem create (h : SendInv bounded s ids unsent) {newId : ℕ} {newSocket : Handle} {addr port : ℕ}
    (hset : (s.sock.claim newId (some newSocket) addr port).1 = .taken → s.Settled) :
    SendInv bounded (s.create newId newSocket addr port) ids unsent := by
  have hq := s.sock.claim_queue newId (some newSocket) addr port
  simp only [SendSide.create]
  rcases hcl : s.sock.claim newId (some newSocket) addr port with ⟨c, sock⟩
  rw [hcl] at hq hset
  cases c with
  | taken =>
      obtain ⟨rfl, rfl⟩ := h.settled (hset rfl)
      have hbase := h.setSock hq
      refine ⟨hbase.queue, .inl rfl, h.owned, hbase.pending, h.pending_lt, h.pc_ok, h.sends_ok,
        h.tokens, fun u q hu => ?_, h.history.next⟩
      rcases (hset rfl).1 u with he | ⟨p, he⟩ | ⟨p, he⟩ <;>
        exact absurd (he.symm.trans hu) (by simp)
  | forced => exact h.setSock hq
  | busy => exact h.setSock hq

end SendInv

omit [DecidableEq ι] in
/-- The invariant holds of a slot that has served no connection. -/
theorem SendSide.start_inv (bounded : Prop) (heap : Heap) (pReadBuf : Ptr) :
    SendInv bounded (.start ι heap pReadBuf) [] [] where
  queue := .empty heap
  unsent_eq := .inl rfl
  owned := ⟨by simp, fun t p h => absurd h (by simp [SendSide.start, SendPc.held]),
    fun t u p h => absurd h (by simp [SendSide.start, SendPc.held])⟩
  pending := by
    rw [queuedSize_nil, toLong_of_lt (by decide) (by decide)]
    rfl
  pending_lt := fun _ => by rw [queuedSize_nil]; decide
  pc_ok := fun _ => trivial
  sends_ok := fun _ h => absurd h List.not_mem_nil
  tokens := by
    have hzero : tally SendPc.isToken (fun _ : ι => SendPc.idle) = 0 :=
      tally_eq_zero.mpr fun _ => rfl
    refine ⟨?_, fun _ => ?_, fun _ hne => absurd rfl hne⟩ <;> simp [SendSide.start, hzero]
  called := fun t p h => absurd h (by simp [SendSide.start])
  history := ⟨rfl, rfl, fun _ _ => List.prefix_rfl, fun _ _ => ⟨rfl, rfl, rfl⟩⟩

/-- One step keeps the invariant. -/
theorem sendStep_inv {bounded : Prop} {s s' : SendSide ι} {a : SendAct ι}
    (h : ∃ ids unsent, SendInv bounded s ids unsent) (hok : SendOk bounded s a)
    (hs : sendStep s a = some s') : ∃ ids unsent, SendInv bounded s' ids unsent := by
  obtain ⟨ids, unsent, h⟩ := h
  cases a with
  | callWrite t p data =>
      simp only [sendStep] at hs
      split at hs
      · rename_i hen
        rw [Option.some.injEq] at hs
        subst hs
        exact ⟨_, _, h.callWrite hen.1 hen.2 hok⟩
      · exact absurd hs (by simp)
  | lock t =>
      simp only [sendStep] at hs
      split at hs
      · rename_i p ht
        exact h.writeRegion ht (hok p ht).1 (hok p ht).2 hs
      · rename_i n ht
        exact h.writeCallbackRegion ht hs
      · exact absurd hs (by simp)
  | send t ok => exact h.sendRegion hs
  | free t next => exact ⟨_, _, h.freeRegion hs⟩
  | complete t i bSuccess n =>
      simp only [sendStep] at hs
      split at hs
      · rename_i ht
        exact ⟨_, _, h.complete ht hs⟩
      · exact absurd hs (by simp)
  | close =>
      simp only [sendStep, Option.some.injEq] at hs
      subst hs
      exact ⟨_, _, h.setSock s.sock.close_queue⟩
  | create newId newSocket addr port =>
      simp only [sendStep, Option.some.injEq] at hs
      subst hs
      exact ⟨_, _, h.create hok⟩

/-- **The invariant holds along every run from a fresh slot.** -/
theorem SendSide.inv_of_reaches {bounded : Prop} {heap : Heap} {pReadBuf : Ptr} {s : SendSide ι}
    (h : Reaches sendStep (SendOk bounded) (.start ι heap pReadBuf) s) :
    ∃ ids unsent, SendInv bounded s ids unsent :=
  h.invariant (fun s => ∃ ids unsent, SendInv bounded s ids unsent)
    ⟨_, _, start_inv bounded heap pReadBuf⟩
    fun _ _ _ hinv hok hs => sendStep_inv hinv hok hs

end BGIocpServer
