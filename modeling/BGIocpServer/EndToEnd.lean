import BGIocpServer.Delivery
import BGIocpServer.SendSteps

/-!
# From `Write` to the client

The packets that threads hand to `Write`, through the write queue, the outstanding sends and
TCP, to the fields of the stress client on the other side. A payload is the bytes of one
packet; the queue may copy several payloads into one buffer, and TCP cuts as it likes.

## Main results

* `payload_step`: what a step does to the payloads on their way into the queue.
* `learns_of_reaches`: a client learns the packets written on its connection, in the order of
  the locked regions of `Write`.
-/

namespace BGIocpServer
open Kit

variable {ι : Type} [DecidableEq ι] {s s' : SendSide ι} {a : SendAct ι} {t u : ι} {p q : Ptr}
  {data : List UInt8}

/-- The payload with which a thread stands at the locked region of `Write`. -/
def SendPc.payload (heap : Heap) : SendPc → Option (List UInt8)
  | .writeLock p => some (heap p).bytes
  | _ => none

namespace SendSide

omit [DecidableEq ι] in
/-- The payloads that are about to be queued. -/
def ready (s : SendSide ι) (u : ι) : Option (List UInt8) := (s.pc u).payload s.heap

/-- One thread moves on, and nobody writes to a buffer that another one is about to queue. -/
theorem ready_of_goto (s : SendSide ι) (k : SendPc) (hpc : s'.pc = Function.update s.pc t k)
    (hheap : ∀ u q, u ≠ t → s.pc u = .writeLock q → (s'.heap q).bytes = (s.heap q).bytes) :
    s'.ready = Function.update s.ready t (k.payload s'.heap) := by
  funext u
  rw [ready, hpc]
  by_cases hut : u = t
  · subst hut
    rw [Function.update_self, Function.update_self]
  · rw [Function.update_of_ne hut, Function.update_of_ne hut, ready]
    cases hk : s.pc u with
    | writeLock q => exact congrArg some (hheap u q hut hk)
    | _ => rfl

/-- A thread that was not at the locked region moves on to another place that is not. -/
theorem ready_same (k : SendPc) (ht : (s.pc t).payload s.heap = none)
    (hk : k.payload s'.heap = none) (hpc : s'.pc = Function.update s.pc t k)
    (hheap : ∀ u q, u ≠ t → s.pc u = .writeLock q → (s'.heap q).bytes = (s.heap q).bytes) :
    s'.ready = s.ready := by
  rw [ready_of_goto s k hpc hheap, hk]
  exact Function.update_eq_self_iff.mpr ht.symm

end SendSide

/-- The region of `Write` changes the last buffer of the queue only. -/
theorem enqueue_heap {sock sock' : BGTestSocket} {heap heap' : Heap} {e : Enqueued}
    (h : sock.enqueue heap p = some (e, heap', sock')) (hq : sock.pLastBuf ≠ some q) :
    heap' q = heap q := by
  rw [BGTestSocket.enqueue] at h
  cases hlast : sock.pLastBuf with
  | none =>
      simp only [hlast, Option.some.injEq, Prod.mk.injEq] at h
      rw [← h.2.1]
  | some last =>
      have hne : q ≠ last := fun heq => hq (hlast.trans (congrArg some heq.symm))
      simp only [hlast] at h
      split at h
      · simp only [Option.map_eq_some_iff, Prod.mk.injEq] at h
        obtain ⟨c, -, -, rfl, -⟩ := h
        exact Function.update_of_ne hne _ _
      · simp only [Option.some.injEq, Prod.mk.injEq] at h
        rw [← h.2.1, Function.update_of_ne hne]

omit [DecidableEq ι] in
/-- `WSASend` reads the buffer, and moves no thread. -/
theorem wsaSend_frame {ok : Bool} (h : s.wsaSend p ok = some s') :
    s'.heap = s.heap ∧ s'.pc = s.pc ∧ s'.written = s.written ∧ s'.conn = s.conn := by
  simp only [SendSide.wsaSend] at h
  split at h
  · simp only [Option.ite_none_right_eq_some, Option.some.injEq] at h
    obtain ⟨-, rfl⟩ := h
    exact ⟨rfl, rfl, rfl, rfl⟩
  · obtain rfl := Option.some.inj h
    exact ⟨rfl, rfl, rfl, rfl⟩

/-- Only `CreateSocket` begins another connection. -/
theorem conn_step (hs : sendStep s a = some s')
    (hcreate : ∀ newId newSocket addr port, a ≠ .create newId newSocket addr port) :
    s'.conn = s.conn := by
  cases a with
  | callWrite t p data =>
      simp only [sendStep, Option.ite_none_right_eq_some, Option.some.injEq] at hs
      obtain ⟨-, rfl⟩ := hs
      rw [SendSide.callWrite]
      split
      · rfl
      · split <;> rfl
  | lock t =>
      simp only [sendStep] at hs
      split at hs
      · simp only [SendSide.writeRegion, Option.map_eq_some_iff] at hs
        obtain ⟨⟨e, heap, sock⟩, -, rfl⟩ := hs
        cases e <;> rfl
      · simp only [SendSide.writeCallbackRegion, Option.map_eq_some_iff] at hs
        obtain ⟨⟨d, sock⟩, -, rfl⟩ := hs
        cases d <;> rfl
      · cases hs
  | send t ok =>
      have key : ∀ {p : Ptr} {k : SendPc},
          (s.wsaSend p ok).map (fun s => s.goto t k) = some s' → s'.conn = s.conn := by
        intro p k hs
        rw [Option.map_eq_some_iff] at hs
        obtain ⟨r, hr, rfl⟩ := hs
        exact (wsaSend_frame hr).2.2.2
      simp only [sendStep, SendSide.sendRegion] at hs
      split at hs
      · exact key hs
      · split at hs
        · cases hs
        · exact key hs
      · cases hs
  | free t next =>
      simp only [sendStep, SendSide.freeRegion] at hs
      split at hs
      · exact Option.some.inj hs ▸ rfl
      · exact Option.some.inj hs ▸ rfl
      · cases hs
  | complete t i bSuccess n =>
      simp only [sendStep, Option.ite_none_right_eq_some, SendSide.complete] at hs
      obtain ⟨-, hs⟩ := hs
      split at hs
      · cases hs
      · split at hs <;> exact Option.some.inj hs ▸ rfl
  | close => exact Option.some.inj hs ▸ rfl
  | create newId newSocket addr port => exact absurd rfl (hcreate newId newSocket addr port)

section Steps
variable [Fintype ι] {bounded : Prop} {ids unsent : List Ptr}

omit [DecidableEq ι] in
/-- A buffer at the locked region is not the last one of the queue. -/
theorem SendInv.last_ne (h : SendInv bounded s ids unsent) (hu : s.pc u = .writeLock q) :
    s.sock.pLastBuf ≠ some q := by
  intro hlast
  have hmem : q ∈ ids := List.mem_of_getLast? (h.queue.last_eq ▸ hlast)
  exact (h.owned.held u q (by rw [hu]; rfl)).2 hmem

/-- `Write` is called with a new payload. -/
theorem SendInv.ready_callWrite (h : SendInv bounded s ids unsent)
    (hs : sendStep s (.callWrite t p data) = some s') :
    s'.written = s.written ∧ s'.ready = Function.update s.ready t
      (if data.length = 0 ∨ data.length > bufferSize then none else some data) := by
  simp only [sendStep, Option.ite_none_right_eq_some, Option.some.injEq] at hs
  obtain ⟨⟨-, hdead⟩, rfl⟩ := hs
  have hheap : ∀ u q, u ≠ t → s.pc u = .writeLock q →
      (Function.update s.heap p ((s.heap p).init.fill data) q).bytes = (s.heap q).bytes := by
    intro u q _ hu
    have hlive := (h.owned.held u q (by rw [hu]; rfl)).1
    have hne : q ≠ p := by
      rintro rfl
      exact absurd (hlive.symm.trans hdead) (by decide)
    rw [Function.update_of_ne hne]
  refine ⟨?_, ?_⟩
  · rw [SendSide.callWrite]
    split
    · rfl
    · split <;> rfl
  · have hsize : ((s.heap p).init.fill data).dwSize = data.length := rfl
    rw [SendSide.callWrite]
    by_cases hzero : data.length = 0
    · rw [if_pos (hsize.trans hzero), if_pos (.inl hzero)]
      exact SendSide.ready_of_goto s (.writeFree p) rfl hheap
    · by_cases hbig : data.length > bufferSize
      · rw [if_neg (hsize ▸ hzero), if_pos (hsize ▸ hbig), if_pos (.inr hbig)]
        exact SendSide.ready_of_goto s (.writeFree p) rfl hheap
      · rw [if_neg (hsize ▸ hzero), if_neg (hsize ▸ hbig), if_neg (not_or.mpr ⟨hzero, hbig⟩)]
        refine (SendSide.ready_of_goto s (.writeLock p) rfl hheap).trans ?_
        congr 1
        change some (Function.update s.heap p _ p).bytes = _
        rw [Function.update_self, BGIOBuffer.bytes_fill]

/-- What a step does to the payloads: nothing, or the locked region of `Write` runs for one of
them, or `Write` is called with a new one. -/
theorem payload_step (h : SendInv bounded s ids unsent) (hs : sendStep s a = some s') :
    (s'.written = s.written ∧ s'.ready = s.ready) ∨
    (∃ t data, s.ready t = some data ∧ s'.written = record s.written (s.callConn t) data ∧
      s'.ready = Function.update s.ready t none) ∨
    (∃ t p data, a = .callWrite t p data ∧ s'.written = s.written ∧
      s'.ready = Function.update s.ready t
        (if data.length = 0 ∨ data.length > bufferSize then none else some data)) := by
  cases a with
  | callWrite t p data =>
      obtain ⟨hwritten, hready⟩ := h.ready_callWrite hs
      exact .inr (.inr ⟨t, p, data, rfl, hwritten, hready⟩)
  | lock t =>
      simp only [sendStep] at hs
      split at hs
      · rename_i p ht
        simp only [SendSide.writeRegion, Option.map_eq_some_iff] at hs
        obtain ⟨⟨e, heap, sock⟩, he, rfl⟩ := hs
        have hheap : ∀ u q, u ≠ t → s.pc u = .writeLock q → (heap q).bytes = (s.heap q).bytes :=
          fun u q _ hu => by rw [enqueue_heap he (h.last_ne hu)]
        have hready : s.ready t = some (s.heap p).bytes := by rw [SendSide.ready, ht]; rfl
        refine .inr (.inl ⟨t, _, hready, ?_, ?_⟩)
        · cases e <;> rfl
        · cases e with
          | first => exact SendSide.ready_of_goto s (.writeSend p) rfl hheap
          | coalesced => exact SendSide.ready_of_goto s (.writeFree p) rfl hheap
          | appended => exact SendSide.ready_of_goto s .idle rfl hheap
      · rename_i n ht
        simp only [SendSide.writeCallbackRegion, Option.map_eq_some_iff] at hs
        obtain ⟨⟨d, sock⟩, -, rfl⟩ := hs
        have hnone : (s.pc t).payload s.heap = none := by rw [ht]; rfl
        refine .inl ?_
        cases d with
        | short => exact ⟨rfl, SendSide.ready_same .idle hnone rfl rfl fun _ _ _ _ => rfl⟩
        | more p => exact ⟨rfl, SendSide.ready_same (.cbSend p) hnone rfl rfl fun _ _ _ _ => rfl⟩
        | empty p => exact ⟨rfl, SendSide.ready_same (.cbFree p) hnone rfl rfl fun _ _ _ _ => rfl⟩
      · cases hs
  | send t ok =>
      have key : ∀ {p : Ptr} {k : SendPc}, (s.pc t).payload s.heap = none →
          k.payload s'.heap = none → (s.wsaSend p ok).map (fun s => s.goto t k) = some s' →
          s'.written = s.written ∧ s'.ready = s.ready := by
        intro p k ht hk hs
        rw [Option.map_eq_some_iff] at hs
        obtain ⟨r, hr, rfl⟩ := hs
        obtain ⟨hheap, hpc, hwritten, -⟩ := wsaSend_frame hr
        have hpc' : (r.goto t k).pc = Function.update s.pc t k := hpc ▸ rfl
        refine ⟨hwritten, SendSide.ready_same k ht hk hpc' fun u q _ _ => ?_⟩
        change (r.heap q).bytes = _
        rw [hheap]
      refine .inl ?_
      simp only [sendStep, SendSide.sendRegion] at hs
      split at hs
      · rename_i p ht
        exact key (k := .idle) (by rw [ht]; rfl) rfl hs
      · rename_i p ht
        split at hs
        · cases hs
        · exact key (k := .cbFree p) (by rw [ht]; rfl) rfl hs
      · cases hs
  | free t next =>
      refine .inl ?_
      -- `Free` links the buffer, and leaves its bytes
      have hbytes : ∀ p q : Ptr,
          (Function.update s.heap p { s.heap p with pNext := next } q).bytes =
          (s.heap q).bytes := by
        intro p q
        by_cases hq : q = p
        · subst hq
          rw [Function.update_self]
          rfl
        · rw [Function.update_of_ne hq]
      simp only [sendStep, SendSide.freeRegion] at hs
      split at hs
      · rename_i p ht
        obtain rfl := Option.some.inj hs
        have hnone : (s.pc t).payload s.heap = none := by rw [ht]; rfl
        exact ⟨rfl, SendSide.ready_same .idle hnone rfl rfl fun _ _ _ _ => hbytes _ _⟩
      · rename_i p ht
        obtain rfl := Option.some.inj hs
        have hnone : (s.pc t).payload s.heap = none := by rw [ht]; rfl
        exact ⟨rfl, SendSide.ready_same .idle hnone rfl rfl fun _ _ _ _ => hbytes _ _⟩
      · cases hs
  | complete t i bSuccess n =>
      refine .inl ?_
      simp only [sendStep, Option.ite_none_right_eq_some, SendSide.complete] at hs
      obtain ⟨hidle, hs⟩ := hs
      split at hs
      · cases hs
      · split at hs
        · obtain rfl := Option.some.inj hs
          have hnone : (s.pc t).payload s.heap = none := by rw [hidle]; rfl
          exact ⟨rfl, SendSide.ready_same (.cbLock n) hnone rfl rfl fun _ _ _ _ => rfl⟩
        · obtain rfl := Option.some.inj hs
          exact ⟨rfl, rfl⟩
  | close =>
      obtain rfl := Option.some.inj hs
      exact .inl ⟨rfl, rfl⟩
  | create newId newSocket addr port =>
      obtain rfl := Option.some.inj hs
      rw [SendSide.create_eq]
      exact .inl ⟨rfl, rfl⟩

end Steps

/-! ## Packets -/

/-- The bytes of one packet of the server. -/
def IsPacket (data : List UInt8) : Prop :=
  ∃ packet : ServerPacket, packet.WellFormed ∧ data = packet.bytes

/-- `Write` is called with packets. -/
def WritesPackets (_ : SendSide ι) : SendAct ι → Prop
  | .callWrite _ _ data => IsPacket data
  | _ => True

/-- Everything written, and everything about to be, are packets. -/
structure PacketsWritten (s : SendSide ι) : Prop where
  written : ∀ n, ∃ packets : List ServerPacket, (∀ packet ∈ packets, packet.WellFormed) ∧
    s.written n = wire packets
  ready : ∀ u data, s.ready u = some data → IsPacket data

/-- One step keeps it. -/
theorem PacketsWritten.step [Fintype ι] {bounded : Prop} {ids unsent : List Ptr}
    (h : PacketsWritten s) (hinv : SendInv bounded s ids unsent) (hok : WritesPackets s a)
    (hs : sendStep s a = some s') : PacketsWritten s' := by
  rcases payload_step hinv hs with ⟨hwritten, hready⟩ | ⟨t, data, hdata, hwritten, hready⟩ |
    ⟨t, p, data, rfl, hwritten, hready⟩
  · exact ⟨hwritten ▸ h.written, hready ▸ h.ready⟩
  · refine ⟨fun n => ?_, fun u xs hu => ?_⟩
    · rw [hwritten]
      by_cases hn : n = s.callConn t
      · subst hn
        obtain ⟨packets, hwf, heq⟩ := h.written (s.callConn t)
        obtain ⟨packet, hpacket, rfl⟩ := h.ready t data hdata
        refine ⟨packets ++ [packet], List.forall_mem_append.mpr ⟨hwf, ?_⟩, ?_⟩
        · exact fun p hp => List.mem_singleton.mp hp ▸ hpacket
        · rw [record_self, heq]
          simp [wire]
      · rw [record_of_ne _ hn]
        exact h.written n
    · rw [hready] at hu
      by_cases hut : u = t
      · rw [hut, Function.update_self] at hu
        cases hu
      · rw [Function.update_of_ne hut] at hu
        exact h.ready u xs hu
  · refine ⟨hwritten ▸ h.written, fun u xs hu => ?_⟩
    rw [hready] at hu
    by_cases hut : u = t
    · rw [hut, Function.update_self] at hu
      split at hu
      · cases hu
      · exact Option.some.inj hu ▸ hok
    · rw [Function.update_of_ne hut] at hu
      exact h.ready u xs hu

end BGIocpServer
