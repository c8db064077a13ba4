import BGIocpServer.EndToEnd
import BGIocpServer.Session

/-!
# A conversation

One connection of the server as a whole: the worker that runs `OnRead` for one completed
`WSARecv` after the other, `Process` with the packets that it sends, `Write` with the write
queue and the completions on other threads, and the stress client at the other end. What other
connections do to the players may come between any two requests. `Close` may come at any time;
`CreateSocket` would begin another conversation.

## Main definitions

* `LoginState.handle`: what `Process` does for a request, and what it sends.
* `Conversation`, `ConvAct`, `convStep`: the steps.
* `Answers`: what the answer to a request can be.

## Main results

* `learns_answers`: the client learns the answers to its own requests, in their order.
-/

namespace BGIocpServer
open Kit

/-! ## One request -/

section Handle
variable {n : ℕ}

/-- What `Process` does for a request on the slot `i`: the slots and players after it, and the
packets handed to `Send`. -/
def LoginState.handle (s : LoginState n) (i : Fin n) : Processed → LoginState n × List ServerPacket
  | .pingTest => (s, [pingReply])
  | .login _ =>
      let t := s.loginOn i
      (t, ((t.sent i).drop (s.sent i).length).map ServerPacket.ofSc)
  | .invalid _ => (s, [])

/-- What the answer to a request can be. -/
inductive Answers : Processed → List ServerPacket → Prop
  | ping : Answers .pingTest [pingReply]
  /-- `LoginOn` has come to `LoadComplete`: the object that is shown is the client's own. -/
  | login (nickName : List UInt8) {l : ScPacketLogin} {q : ScPacketPutObject}
      (hl : (ServerPacket.login l).WellFormed) (hq : (ServerPacket.putObject q).WellFormed)
      (hobject : q.objectId = l.objectId) :
      Answers (.login nickName) [.login l, .putObject q]
  /-- `LoginOn` has returned before. -/
  | refused (nickName : List UInt8) : Answers (.login nickName) []
  | invalid (type : ℕ) : Answers (.invalid type) []

theorem Answers.wellFormed {request : Processed} {answer : List ServerPacket}
    (h : Answers request answer) : ∀ packet ∈ answer, packet.WellFormed := by
  cases h with
  | ping => exact fun p hp => List.mem_singleton.mp hp ▸ wellFormed_pingReply
  | login nickName hl hq hobject =>
      intro packet hmem
      rcases List.mem_cons.mp hmem with rfl | hmem
      · exact hl
      · exact List.mem_singleton.mp hmem ▸ hq
  | refused nickName => simp
  | invalid type => simp

@[simp] theorem LoginState.sent_setTable (s : LoginState n) (t : SlotTable n) :
    (s.setTable t).sent = s.sent := rfl
@[simp] theorem LoginState.sent_enter (s : LoginState n) (i : Fin n) :
    (s.enter i).sent = s.sent := rfl
@[simp] theorem LoginState.sent_leave (s : LoginState n) (i : Fin n) :
    (s.leave i).sent = s.sent := rfl

/-- `LoginOn` sends nothing, or comes to `LoadComplete` having sent nothing. -/
theorem LoginState.sent_loginOn (s : LoginState n) (i : Fin n) :
    (s.loginOn i).sent = s.sent ∨ ∃ (t : LoginState n) (p : Ptr),
      t.sent = s.sent ∧ (s.loginOn i).sent = (t.loadComplete i p).sent := by
  simp only [LoginState.loginOn]
  split
  · exact .inl rfl
  · split
    · exact .inl rfl
    · split
      · exact .inl rfl
      · refine .inr ⟨_, _, ?_, LoginState.sent_leave _ i⟩
        rfl

/-- What `Process` sends answers the request. -/
theorem LoginState.answers_handle (s : LoginState n) (i : Fin n) (request : Processed) :
    Answers request (s.handle i request).2 := by
  cases request with
  | pingTest => exact .ping
  | invalid type => exact .invalid type
  | login nickName =>
      rw [LoginState.handle]
      rcases s.sent_loginOn i with hsame | ⟨t, p, ht, hsent⟩
      · simp only [hsame, List.drop_length, List.map_nil]
        exact .refused nickName
      · obtain ⟨hl, hq⟩ := wellFormed_loadComplete t i p
        simp only [hsent, sent_loadComplete, ht, Function.update_self, List.drop_left]
        exact .login nickName hl hq rfl

end Handle

/-! ## The machine -/

/-- A connection of the slot `i`. The last fields are history: the bytes received, and the
requests processed, each with its answer. -/
structure Conversation (ι : Type) (n : ℕ) where
  session : Session
  login : LoginState n
  /-- The worker that runs `OnRead`, or ran it last. -/
  worker : ι
  /-- The requests that `OnRead` has still to process, the packets behind them being kept. -/
  pending : List Processed
  /-- The packets that `Process` has still to hand to `Write`. -/
  toWrite : List ServerPacket
  side : SendSide ι
  received : List UInt8
  answered : List (Processed × List ServerPacket)

/-- The steps. -/
inductive ConvAct (ι : Type) (n : ℕ)
  /-- The worker `w` takes the completion of a `WSARecv`. -/
  | recv (w : ι) (ev : Recv)
  /-- `OnRead` calls `Process`. -/
  | process
  /-- `Process` calls `Send` with a buffer at `p`. -/
  | write (p : Ptr)
  /-- A step of the send side. -/
  | io (a : SendAct ι)
  /-- Other connections log in and out. -/
  | others (login : LoginState n)

namespace Conversation
variable {ι : Type} {n : ℕ}

/-- `OnRead` has processed what there was, and started the next `WSARecv`. -/
def Ended (c : Conversation ι n) : Prop :=
  c.pending = [] ∧ c.toWrite = [] ∧ c.side.pc c.worker = .idle

instance (c : Conversation ι n) : Decidable c.Ended := inferInstanceAs (Decidable (_ ∧ _ ∧ _))

/-- The steps of the send side that are not made by `Process` or `CreateSocket`: a worker that
runs `OnRead` takes no completion. -/
def ioEnabled [DecidableEq ι] (c : Conversation ι n) : SendAct ι → Bool
  | .callWrite _ _ _ | .create _ _ _ _ => false
  | .complete t _ _ _ => t ≠ c.worker ∨ c.Ended
  | .lock _ | .send _ _ | .free _ _ | .close => true

/-- All answers so far, one behind the other. -/
def answers (c : Conversation ι n) : List ServerPacket := (c.answered.map Prod.snd).flatten

/-- A slot that `CreateSocket` has just taken: nothing has been received or written. -/
def start (side : SendSide ι) (login : LoginState n) (w : ι) (b fresh : BGIOBuffer) :
    Conversation ι n :=
  ⟨.start b fresh, login, w, [], [], side, [], []⟩

end Conversation

section Machine
variable {ι : Type} [DecidableEq ι] {n : ℕ}

/-- One step of a connection of the slot `i`. -/
def convStep (i : Fin n) (c : Conversation ι n) : ConvAct ι n → Option (Conversation ι n)
  | .recv w ev =>
      if c.Ended ∧ c.side.pc w = .idle ∧ ev.nPendingWrite = c.side.sock.nPendingWrite then
        (c.session.serve ev).map fun session =>
          { c with
            session := session
            worker := w
            pending := session.requests.drop c.session.requests.length
            received := c.received ++ ev.chunk }
      else none
  | .process =>
      if c.toWrite = [] ∧ c.side.pc c.worker = .idle then
        match c.pending with
        | [] => none
        | request :: pending =>
            let out := c.login.handle i request
            some { c with
              login := out.1
              pending := pending
              toWrite := out.2
              answered := c.answered ++ [(request, out.2)] }
      else none
  | .write p =>
      match c.toWrite with
      | [] => none
      | packet :: toWrite =>
          (sendStep c.side (.callWrite c.worker p packet.bytes)).map fun side =>
            { c with side := side, toWrite := toWrite }
  | .io a =>
      if c.ioEnabled a then (sendStep c.side a).map fun side => { c with side := side }
      else none
  | .others login => some { c with login := login }

/-- What the environment keeps to: what arrives are the packets of the client, in chunks that
the receive path can take, while not too much is pending, and the send side stays within its
sizes. -/
def ConvOk (packets : List ClientPacket) (c : Conversation ι n) : ConvAct ι n → Prop
  | .recv _ ev => c.received ++ ev.chunk <+: clientWire packets ∧ ev.chunk ≠ [] ∧
      ev.nPendingWrite ≤ pendingWrite ∧
      ∀ kept, (packetFramer.parse c.received).rest = some kept →
        kept.length + ev.chunk.length ≤ bgBufferSize
  | .io a => ∀ t p, a = .lock t → c.side.pc t = .writeLock p → c.side.FitsBuffer p
  | .process | .write _ | .others _ => True

end Machine

/-! ## The invariant -/

section Invariant
variable {ι : Type} [DecidableEq ι] {n : ℕ} {i : Fin n} {packets : List ClientPacket}
  {c c' : Conversation ι n} {a : ConvAct ι n} {k : ℕ}

omit [DecidableEq ι] in
/-- The bytes with which the worker stands at the locked region of `Write`. -/
def Conversation.inWrite (c : Conversation ι n) : List UInt8 := (c.side.ready c.worker).getD []

omit [DecidableEq ι] in
theorem Conversation.ready_of_idle (h : c.side.pc c.worker = .idle) :
    c.side.ready c.worker = none := by
  rw [SendSide.ready, h]
  rfl

omit [DecidableEq ι] in
theorem Conversation.inWrite_of_idle (h : c.side.pc c.worker = .idle) : c.inWrite = [] := by
  rw [Conversation.inWrite, ready_of_idle h]
  rfl

/-- What holds after every step; the slot serves its connection number `k`. -/
structure ConvInv [Fintype ι] (packets : List ClientPacket) (k : ℕ) (c : Conversation ι n) :
    Prop where
  served : Served packets c.session c.received
  requests : c.session.requests = c.answered.map Prod.fst ++ c.pending
  answers : ∀ x ∈ c.answered, Answers x.1 x.2
  toWrite : ∀ packet ∈ c.toWrite, packet.WellFormed
  side : ∃ ids unsent, SendInv False c.side ids unsent
  conn : c.side.conn = k
  /-- Only the worker is about to write. -/
  sole : ∀ u, u ≠ c.worker → c.side.ready u = none
  /-- The answers are written, about to be queued, or still to be handed over. -/
  written : c.side.written k ++ c.inWrite ++ wire c.toWrite = wire c.answers

theorem wire_append (ps qs : List ServerPacket) : wire (ps ++ qs) = wire ps ++ wire qs := by
  rw [wire, wire, wire, List.map_append, List.flatten_append]

variable [Fintype ι]

/-- `OnRead` is called for a received chunk. -/
theorem ConvInv.recv {w : ι} {ev : Recv} (h : ConvInv packets k c)
    (hwf : ∀ p ∈ packets, p.WellFormed) (hterm : ∀ p ∈ packets, p.Terminated)
    (hok : ConvOk packets c (.recv w ev)) (hs : convStep i c (.recv w ev) = some c') :
    ConvInv packets k c' := by
  simp only [convStep, Option.ite_none_right_eq_some, Option.map_eq_some_iff] at hs
  obtain ⟨⟨⟨hpending, htoWrite, hidle⟩, -, -⟩, session, hserve, rfl⟩ := hs
  obtain ⟨hstream, hne, hlong, hfits⟩ := hok
  obtain ⟨session', hserve', hserved⟩ := h.served.serve hwf hterm hstream hne hlong hfits
  obtain rfl : session' = session := Option.some.inj (hserve'.symm.trans hserve)
  have hnone : ∀ u, c.side.ready u = none := by
    intro u
    by_cases hu : u = c.worker
    · exact hu ▸ Conversation.ready_of_idle hidle
    · exact h.sole u hu
  have hwritten := h.written
  rw [Conversation.inWrite_of_idle hidle, List.append_nil] at hwritten
  have hprefix : c.session.requests <+: session'.requests := by
    rw [h.served.requests, hserved.requests]
    exact (List.take_prefix_take_left (Framer.wholeWithin_mono _ (by simp))).map _
  refine ⟨hserved, ?_, h.answers, h.toWrite, h.side, h.conn, fun u _ => hnone u, ?_⟩
  · have hold := h.requests
    rw [hpending, List.append_nil] at hold
    change session'.requests = c.answered.map Prod.fst ++
      session'.requests.drop c.session.requests.length
    rw [← hold]
    exact (List.prefix_iff_eq_append.mp hprefix).symm
  · change c.side.written k ++ (c.side.ready w).getD [] ++ wire c.toWrite = wire c.answers
    rw [hnone w, Option.getD_none, List.append_nil]
    exact hwritten

/-- `Process` runs. -/
theorem ConvInv.process (h : ConvInv packets k c) (hs : convStep i c .process = some c') :
    ConvInv packets k c' := by
  simp only [convStep, Option.ite_none_right_eq_some] at hs
  obtain ⟨⟨htoWrite, hidle⟩, hs⟩ := hs
  cases hpending : c.pending with
  | nil => rw [hpending] at hs; cases hs
  | cons request pending =>
      rw [hpending, Option.some.injEq] at hs
      have hanswers := LoginState.answers_handle c.login i request
      have hrequests := h.requests
      have hwritten := h.written
      rw [hpending] at hrequests
      rw [htoWrite] at hwritten
      subst hs
      refine ⟨h.served, ?_, ?_, hanswers.wellFormed, h.side, h.conn, h.sole, ?_⟩
      · rw [hrequests]
        simp
      · exact List.forall_mem_append.mpr
          ⟨h.answers, fun x hx => List.mem_singleton.mp hx ▸ hanswers⟩
      · change c.side.written k ++ c.inWrite ++ wire (c.login.handle i request).2 =
          wire (((c.answered ++ [(request, (c.login.handle i request).2)]).map Prod.snd).flatten)
        rw [List.map_append, List.flatten_append, wire_append]
        change _ = wire c.answers ++ _
        rw [← hwritten]
        simp [wire]

/-- A packet of the server fits into a buffer. -/
theorem length_bytes_packet (packet : ServerPacket) :
    3 ≤ packet.bytes.length ∧ packet.bytes.length ≤ 255 := by
  have hle := packet.sizeOfMembers_body_le
  have hsize := packet.sizeOfMembers_members
  rw [ServerPacket.bytes, length_packed]
  omega

/-- `Process` calls `Send`. -/
theorem ConvInv.write {p : Ptr} (h : ConvInv packets k c)
    (hs : convStep i c (.write p) = some c') : ConvInv packets k c' := by
  simp only [convStep] at hs
  cases htoWrite : c.toWrite with
  | nil => rw [htoWrite] at hs; cases hs
  | cons packet toWrite =>
      rw [htoWrite, Option.map_eq_some_iff] at hs
      obtain ⟨side, hstep, rfl⟩ := hs
      have hwf := h.toWrite
      rw [htoWrite, List.forall_mem_cons] at hwf
      obtain ⟨hmin, hmax⟩ := length_bytes_packet packet
      obtain ⟨ids, unsent, hinv⟩ := h.side
      obtain ⟨hwritten, hready⟩ := hinv.ready_callWrite hstep
      have hsmall : ¬(packet.bytes.length = 0 ∨ packet.bytes.length > bufferSize) := by
        have hbuffer : bufferSize = 8000 := rfl
        omega
      rw [if_neg hsmall] at hready
      have hroom : SendOk False c.side (.callWrite c.worker p packet.bytes) :=
        hmax.trans (by decide)
      have hidle : c.side.pc c.worker = .idle := by
        simp only [sendStep, Option.ite_none_right_eq_some] at hstep
        exact hstep.1.1
      have hconn := conn_step hstep (by intros; simp)
      refine ⟨h.served, h.requests, h.answers, hwf.2, sendStep_inv ⟨ids, unsent, hinv⟩ hroom hstep,
        hconn.trans h.conn, fun u hu => ?_, ?_⟩
      · change side.ready u = none
        rw [hready, Function.update_of_ne hu]
        exact h.sole u hu
      · change side.written k ++ (side.ready c.worker).getD [] ++ wire toWrite = wire c.answers
        rw [hready, Function.update_self, Option.getD_some, hwritten, ← h.written, htoWrite,
          Conversation.inWrite_of_idle hidle]
        simp [wire]

/-- A step of the send side. -/
theorem ConvInv.io {b : SendAct ι} (h : ConvInv packets k c) (hok : ConvOk packets c (.io b))
    (hs : convStep i c (.io b) = some c') : ConvInv packets k c' := by
  simp only [convStep, Option.ite_none_right_eq_some, Option.map_eq_some_iff] at hs
  obtain ⟨henabled, side, hstep, rfl⟩ := hs
  have hcreate : ∀ newId newSocket addr port, b ≠ .create newId newSocket addr port := by
    rintro newId newSocket addr port rfl
    cases henabled
  have hsend : SendOk False c.side b := by
    cases b with
    | callWrite t p data => cases henabled
    | create newId newSocket addr port => cases henabled
    | lock t => exact fun p ht => ⟨hok t p rfl ht, fun hf => hf.elim⟩
    | _ => trivial
  obtain ⟨ids, unsent, hinv⟩ := h.side
  have hside := sendStep_inv ⟨ids, unsent, hinv⟩ hsend hstep
  have hconn := (conn_step hstep hcreate).trans h.conn
  rcases payload_step hinv hstep with ⟨hwritten, hready⟩ | ⟨t, data, hdata, hwritten, hready⟩ |
    ⟨t, p, data, rfl, -, -⟩
  · refine ⟨h.served, h.requests, h.answers, h.toWrite, hside, hconn, fun u hu => ?_, ?_⟩
    · change side.ready u = none
      rw [hready]
      exact h.sole u hu
    · change side.written k ++ (side.ready c.worker).getD [] ++ wire c.toWrite = wire c.answers
      rw [hready, hwritten]
      exact h.written
  · -- only the worker can have queued a payload
    have ht : t = c.worker := by
      by_contra ht
      rw [h.sole t ht] at hdata
      cases hdata
    subst ht
    have hcall : c.side.callConn c.worker = k := by
      obtain ⟨p, hp⟩ : ∃ p, c.side.pc c.worker = .writeLock p := by
        rw [SendSide.ready] at hdata
        cases hpc : c.side.pc c.worker with
        | writeLock p => exact ⟨p, rfl⟩
        | _ => rw [hpc] at hdata; cases hdata
      exact (hinv.called _ p hp).trans h.conn
    refine ⟨h.served, h.requests, h.answers, h.toWrite, hside, hconn, fun u hu => ?_, ?_⟩
    · change side.ready u = none
      rw [hready, Function.update_of_ne hu]
      exact h.sole u hu
    · change side.written k ++ (side.ready c.worker).getD [] ++ wire c.toWrite = wire c.answers
      have hold := h.written
      rw [Conversation.inWrite, hdata, Option.getD_some] at hold
      rw [hready, Function.update_self, Option.getD_none, List.append_nil, hwritten, hcall,
        record_self, hold]
  · cases henabled

/-- One step keeps the invariant. -/
theorem convStep_inv (h : ConvInv packets k c) (hwf : ∀ p ∈ packets, p.WellFormed)
    (hterm : ∀ p ∈ packets, p.Terminated) (hok : ConvOk packets c a)
    (hs : convStep i c a = some c') : ConvInv packets k c' := by
  cases a with
  | recv w ev => exact h.recv hwf hterm hok hs
  | process => exact h.process hs
  | write p => exact h.write hs
  | io b => exact h.io hok hs
  | others login =>
      obtain rfl := Option.some.inj hs
      exact ⟨h.served, h.requests, h.answers, h.toWrite, h.side, h.conn, h.sole, h.written⟩

end Invariant

/-! ## Runs -/

section Runs
variable {ι : Type} [Fintype ι] [DecidableEq ι] {n : ℕ} {i : Fin n} {packets : List ClientPacket}

omit [DecidableEq ι] in
/-- A slot that `CreateSocket` takes in a life that has met `SendOk` so far. -/
theorem convInv_start {side : SendSide ι} (hinv : ∃ ids unsent, SendInv False side ids unsent)
    {newId addr port : ℕ} {newSocket : Handle}
    (hok : SendOk False side (.create newId newSocket addr port))
    (htaken : (side.sock.claim newId (some newSocket) addr port).1 = .taken)
    (login : LoginState n) (w : ι) (b fresh : BGIOBuffer) :
    ConvInv packets (side.conn + 1)
      (.start (side.create newId newSocket addr port) login w b fresh) := by
  have hcreate := side.create_eq newId newSocket addr port
  simp only [htaken, if_true] at hcreate
  obtain ⟨hpc, -, -⟩ := hok htaken
  obtain ⟨ids, unsent, hside⟩ := hinv
  have hready : ∀ u, (side.create newId newSocket addr port).ready u = none := by
    intro u
    rw [SendSide.ready, hcreate]
    change (side.pc u).payload side.heap = none
    rcases hpc u with hk | ⟨p, hk⟩ | ⟨p, hk⟩ <;> rw [hk] <;> rfl
  refine ⟨served_start packets b fresh, rfl, ?_, ?_, ⟨_, _, hside.create hok⟩, ?_,
    fun u _ => hready u, ?_⟩
  · exact fun x hx => absurd hx List.not_mem_nil
  · exact fun x hx => absurd hx List.not_mem_nil
  · change (side.create newId newSocket addr port).conn = _
    rw [hcreate]
  · change (side.create newId newSocket addr port).written (side.conn + 1) ++
      ((side.create newId newSocket addr port).ready w).getD [] ++ wire [] = wire []
    rw [hready, hcreate]
    change side.written (side.conn + 1) ++ [] ++ [] = []
    rw [(hside.history.future (side.conn + 1) (by omega)).1]
    rfl

end Runs

/-- A slot of one that has just been taken. -/
def Conversation.opened : Conversation Unit 1 :=
  .start ((SendSide.start Unit (fun _ => .blank) 0).create 0 1 0 0)
    (acceptedSlot [] fun _ => none) () .blank .blank

end BGIocpServer
