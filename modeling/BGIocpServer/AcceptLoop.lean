import BGIocpServer.Kit.Reaches
import BGIocpServer.Kit.Tally
import Mathlib.Data.List.ReduceOption

/-!
# The accept loop

The accept thread waits for `m_hAcceptEvent`, resets it and posts the server to the port; a worker
then runs `BGIOServer::OnIOCallback`, which accepts one connection. The system signals the event
for a connection, and does so again only after a call of `accept`: then at once, if a further
connection waits.

## Main definitions

* `AcceptState`, `AcceptAct`, `acceptStep`: the thread, the workers, and the system.
* `AcceptState.Quiet`: none of the threads has a step.

## Main results

* `accounts_of_reaches`: where each connection is.
* `accepts_all`: no connection is left waiting.
* `deaf_of_lost`: what one `Post` that fails comes to.
-/

namespace BGIocpServer
open Kit

/-- Where the accept thread is. -/
inductive AcceptPc
  /-- In `WaitForMultipleObjects`. -/
  | wait
  /-- In `OnWaitCallback`, at `WSAResetEvent`. -/
  | reset
  /-- At `Post`. -/
  | post
  /-- `Run` has returned. -/
  | ended
  deriving DecidableEq, Repr

/-- Where a worker is, as far as the server is concerned. -/
inductive CallbackPc (κ : Type)
  /-- Not in a call for the server. -/
  | get
  /-- In `OnIOCallback`, at `accept`. -/
  | accept
  /-- `accept` has returned this, `none` for `INVALID_SOCKET`. -/
  | createSocket (newSocket : Option κ)
  deriving DecidableEq, Repr

/-- Where `OnTerminate` is. -/
inductive OnTerminatePc
  | before
  /-- `SetEvent` is done. -/
  | join
  | returned
  deriving DecidableEq, Repr

/-- The server, its threads, and what the system keeps for it. -/
structure AcceptState (ι κ : Type) where
  /-- The connections that no `accept` has returned. -/
  pending : List κ
  /-- The system signals the event at the next connection. -/
  armed : Bool
  hAcceptEvent : Bool
  /-- The second handle of the accept thread. -/
  stopEvent : Bool
  thread : AcceptPc
  onTerminate : OnTerminatePc
  /-- The packets of the server in the port. -/
  port : ℕ
  worker : ι → CallbackPc κ
  /-- All connections so far, how many of them were given up, and how many packets `Post` failed
  to post. -/
  arrived : List κ
  aborted : ℕ
  lost : ℕ
  /-- What the calls of `accept` have returned, and where it went. -/
  taken : List (Option κ)
  served : List (Option κ)
  closed : List (Option κ)

/-- The steps. -/
inductive AcceptAct (ι κ : Type)
  /-- A client connects. -/
  | connect (k : κ)
  /-- A client gives up a connection that waits. -/
  | abort (k : κ)
  /-- The next step of the accept thread; `ok` is what `Post` returns, if it is called. -/
  | thread (ok : Bool)
  /-- A worker gets a packet of the server. -/
  | get (w : ι)
  /-- The next step of a worker in `OnIOCallback`; `created` tells that `CreateSocket` returns a
  socket, if it is called. -/
  | worker (w : ι) (created : Bool)
  /-- `OnTerminate` is called: `SetEvent`. -/
  | terminate
  /-- `join` of `OnTerminate` returns. -/
  | join

/-- A step of the server's own threads, where `Post` does not fail. -/
def AcceptAct.own {ι κ : Type} : AcceptAct ι κ → Bool
  | .thread ok => ok
  | .get _ | .worker _ _ | .join => true
  | .connect _ | .abort _ | .terminate => false

namespace AcceptState
variable {ι κ : Type}

/-- `Start` -/
def start : AcceptState ι κ where
  pending := []
  armed := true
  hAcceptEvent := false
  stopEvent := false
  thread := .wait
  onTerminate := .before
  port := 0
  worker := fun _ => .get
  arrived := []
  aborted := 0
  lost := 0
  taken := []
  served := []
  closed := []

/-- The system signals the event if a connection waits, and then not before the next `accept`. -/
def signal (s : AcceptState ι κ) : AcceptState ι κ :=
  if s.armed = true ∧ s.pending ≠ [] then { s with hAcceptEvent := true, armed := false } else s

/-- `Run` of the accept thread, which has `OnWaitCallback` in it. Of two signalled events the
system reports the first. -/
def threadNext (s : AcceptState ι κ) (ok : Bool) : AcceptPc → Option (AcceptState ι κ)
  | .wait =>
      if s.hAcceptEvent = true then some { s with thread := .reset }
      else if s.stopEvent = true then some { s with stopEvent := false, thread := .ended }
      else none
  | .reset => some { s with hAcceptEvent := false, thread := .post }
  | .post =>
      if ok = true then some { s with port := s.port + 1, thread := .wait }
      else some { s with lost := s.lost + 1, thread := .wait }
  | .ended => none

variable [DecidableEq ι]

/-- The worker goes on at `k`. -/
def goto (s : AcceptState ι κ) (w : ι) (k : CallbackPc κ) : AcceptState ι κ :=
  { s with worker := Function.update s.worker w k }

/-- `accept` takes the first connection that waits, and lets the system signal again. -/
def accept (s : AcceptState ι κ) (w : ι) : AcceptState ι κ :=
  ({ s with
      pending := s.pending.tail
      armed := true
      taken := s.taken ++ [s.pending.head?] }.goto w (.createSocket s.pending.head?)).signal

/-- `OnIOCallback` of the server. -/
def workerNext (s : AcceptState ι κ) (w : ι) (created : Bool) :
    CallbackPc κ → Option (AcceptState ι κ)
  | .get => none
  | .accept => some (s.accept w)
  | .createSocket newSocket =>
      if created = true then some ({ s with served := s.served ++ [newSocket] }.goto w .get)
      else some ({ s with closed := s.closed ++ [newSocket] }.goto w .get)

end AcceptState

/-- One step of the server. -/
def acceptStep {ι κ : Type} [DecidableEq ι] [DecidableEq κ] (s : AcceptState ι κ) :
    AcceptAct ι κ → Option (AcceptState ι κ)
  | .connect k =>
      some ({ s with pending := s.pending ++ [k], arrived := s.arrived ++ [k] }.signal)
  | .abort k =>
      if k ∈ s.pending then some { s with pending := s.pending.erase k, aborted := s.aborted + 1 }
      else none
  | .thread ok => s.threadNext ok s.thread
  | .get w =>
      if s.worker w = .get ∧ 0 < s.port then
        some ({ s with port := s.port - 1 }.goto w .accept)
      else none
  | .worker w created => s.workerNext w created (s.worker w)
  | .terminate =>
      if s.onTerminate = .before then some { s with stopEvent := true, onTerminate := .join }
      else none
  | .join =>
      if s.onTerminate = .join ∧ s.thread = .ended then some { s with onTerminate := .returned }
      else none

/-! ## What tells of a connection -/

/-- The worker is about to accept. -/
def CallbackPc.accepts {κ : Type} : CallbackPc κ → Bool
  | .accept => true
  | .get | .createSocket _ => false

/-- The thread has reset the event and not posted yet. -/
def AcceptPc.posts : AcceptPc → ℕ
  | .post => 1
  | .wait | .reset | .ended => 0

/-- Everything that leads to a call of `accept`: the event, the thread behind it, a packet and a
worker that has got one. -/
def AcceptState.notices {ι κ : Type} [Fintype ι] (s : AcceptState ι κ) : ℕ :=
  s.hAcceptEvent.toNat + s.thread.posts + s.port + tally CallbackPc.accepts s.worker

/-- One thing leads to a call of `accept`, unless the system would signal the next connection or a
packet is lost. -/
structure AcceptState.Notified {ι κ : Type} [Fintype ι] (s : AcceptState ι κ) : Prop where
  notices : s.notices + s.armed.toNat + s.lost = 1
  reset : s.thread = .reset → s.hAcceptEvent = true
  armed : s.armed = true → s.pending = []
  waits : s.armed = false → s.pending = [] → 0 < s.aborted

/-- What the second event says. -/
structure AcceptState.Stops {ι κ : Type} (s : AcceptState ι κ) : Prop where
  set : s.stopEvent = true → s.onTerminate = .join ∧ s.thread ≠ .ended
  join : s.onTerminate = .join → s.stopEvent = true ∨ s.thread = .ended
  ended : s.thread = .ended → s.onTerminate ≠ .before

/-- Where the connections are. -/
structure AcceptState.Accounts {ι κ : Type} [Fintype ι] [DecidableEq κ] (s : AcceptState ι κ) :
    Prop where
  order : List.Sublist (s.taken.reduceOption ++ s.pending) s.arrived
  length : s.arrived.length = s.taken.reduceOption.length + s.pending.length + s.aborted
  failed : none ∈ s.taken → 0 < s.aborted
  ledger : ∀ r, s.taken.count r = s.served.count r + s.closed.count r +
    tally (fun k => decide (k = .createSocket r)) s.worker

section Steps
variable {ι κ : Type} {s s' : AcceptState ι κ} {w : ι} {k : κ}

theorem signal_cases (s : AcceptState ι κ) :
    (s.armed = true ∧ s.pending ≠ [] ∧ s.signal = { s with hAcceptEvent := true, armed := false }) ∨
    ((s.armed = true → s.pending = []) ∧ s.signal = s) := by
  rw [AcceptState.signal]
  split
  · rename_i h
    exact .inl ⟨h.1, h.2, rfl⟩
  · rename_i h
    exact .inr ⟨fun harmed => by_contra fun hne => h ⟨harmed, hne⟩, rfl⟩

/-- The accept thread does not touch the connections. -/
theorem thread_frame {ok : Bool} (hs : s.threadNext ok s.thread = some s') :
    ∃ hAcceptEvent stopEvent thread port lost, s' = { s with
      hAcceptEvent := hAcceptEvent
      stopEvent := stopEvent
      thread := thread
      port := port
      lost := lost } := by
  cases hpc : s.thread with
  | wait =>
      rw [hpc, AcceptState.threadNext] at hs
      split at hs
      · exact ⟨_, _, _, _, _, (Option.some.inj hs).symm⟩
      · rw [Option.ite_none_right_eq_some] at hs
        exact ⟨_, _, _, _, _, (Option.some.inj hs.2).symm⟩
  | reset =>
      rw [hpc] at hs
      exact ⟨_, _, _, _, _, (Option.some.inj hs).symm⟩
  | post =>
      rw [hpc, AcceptState.threadNext] at hs
      split at hs
      · exact ⟨_, _, _, _, _, (Option.some.inj hs).symm⟩
      · exact ⟨_, _, _, _, _, (Option.some.inj hs).symm⟩
  | ended => rw [hpc] at hs; cases hs

variable [Fintype ι]

/-- The system signals a connection once. -/
theorem AcceptState.notified_signal (hnotices : s.notices + s.armed.toNat + s.lost = 1)
    (hreset : s.thread = .reset → s.hAcceptEvent = true)
    (hwaits : s.armed = false → s.pending = [] → 0 < s.aborted) : s.signal.Notified := by
  rcases signal_cases s with ⟨harmed, hne, hsignal⟩ | ⟨harmed, hsignal⟩
  · rw [hsignal]
    refine ⟨?_, fun _ => rfl, nofun, fun _ hnil => absurd hnil hne⟩
    rw [harmed, AcceptState.notices] at hnotices
    change true.toNat + s.thread.posts + s.port + tally CallbackPc.accepts s.worker + false.toNat +
      s.lost = 1
    simp only [Bool.toNat_true, Bool.toNat_false] at hnotices ⊢
    omega
  · rw [hsignal]
    exact ⟨hnotices, hreset, harmed, hwaits⟩

namespace AcceptState.Notified

/-- The accept thread goes on. -/
theorem thread {ok : Bool} (h : s.Notified) (hs : s.threadNext ok s.thread = some s') :
    s'.Notified := by
  obtain ⟨hnotices, hreset, harmed, hwaits⟩ := h
  cases hpc : s.thread with
  | wait =>
      rw [hpc, AcceptState.threadNext] at hs
      rw [AcceptState.notices, hpc] at hnotices
      split at hs
      · rename_i hevent
        obtain rfl := Option.some.inj hs
        exact ⟨hnotices, fun _ => hevent, harmed, hwaits⟩
      · rw [Option.ite_none_right_eq_some] at hs
        obtain rfl := Option.some.inj hs.2
        exact ⟨hnotices, nofun, harmed, hwaits⟩
  | reset =>
      obtain rfl := Option.some.inj (hpc ▸ hs)
      rw [AcceptState.notices, hpc, hreset hpc] at hnotices
      refine ⟨?_, nofun, harmed, hwaits⟩
      change false.toNat + 1 + s.port + tally CallbackPc.accepts s.worker + s.armed.toNat +
        s.lost = 1
      exact hnotices
  | post =>
      rw [hpc, AcceptState.threadNext] at hs
      rw [AcceptState.notices, hpc] at hnotices
      change s.hAcceptEvent.toNat + 1 + s.port + _ + _ + _ = 1 at hnotices
      split at hs
      · obtain rfl := Option.some.inj hs
        refine ⟨?_, nofun, harmed, hwaits⟩
        change s.hAcceptEvent.toNat + 0 + (s.port + 1) + tally CallbackPc.accepts s.worker +
          s.armed.toNat + s.lost = 1
        omega
      · obtain rfl := Option.some.inj hs
        refine ⟨?_, nofun, harmed, hwaits⟩
        change s.hAcceptEvent.toNat + 0 + s.port + tally CallbackPc.accepts s.worker +
          s.armed.toNat + (s.lost + 1) = 1
        omega
  | ended => rw [hpc] at hs; cases hs

variable [DecidableEq ι]

/-- A worker goes on, not to `accept`. -/
theorem goto {k : CallbackPc κ} (h : s.Notified) (hpc : (s.worker w).accepts = false)
    (hk : k.accepts = false) : (s.goto w k).Notified := by
  refine ⟨?_, h.reset, h.armed, h.waits⟩
  have htally := tally_update CallbackPc.accepts s.worker w k
  rw [hpc, hk, Nat.add_right_cancel_iff] at htally
  change s.hAcceptEvent.toNat + s.thread.posts + s.port +
    tally CallbackPc.accepts (Function.update s.worker w k) + s.armed.toNat + s.lost = 1
  rw [htally]
  exact h.notices

/-- A worker gets a packet. -/
theorem get (h : s.Notified) (hpc : s.worker w = .get) (hport : 0 < s.port) :
    ({ s with port := s.port - 1 }.goto w .accept : AcceptState ι κ).Notified := by
  refine ⟨?_, h.reset, h.armed, h.waits⟩
  have htally := tally_update CallbackPc.accepts s.worker w .accept
  have hnotices := h.notices
  rw [hpc] at htally
  rw [AcceptState.notices] at hnotices
  change s.hAcceptEvent.toNat + s.thread.posts + (s.port - 1) +
    tally CallbackPc.accepts (Function.update s.worker w .accept) + s.armed.toNat + s.lost = 1
  change _ + 0 = _ + 1 at htally
  omega

/-- A worker accepts: before it, the system would not have signalled anything. -/
theorem accept (h : s.Notified) (hpc : s.worker w = .accept) :
    s.armed = false ∧ (s.accept w).Notified := by
  have hacc : (s.worker w).accepts = true := by rw [hpc]; rfl
  have hpos := tally_pos hacc
  have htally := tally_update CallbackPc.accepts s.worker w (.createSocket s.pending.head?)
  have hnotices := h.notices
  rw [hpc] at htally
  rw [AcceptState.notices] at hnotices
  change _ + 1 = _ + 0 at htally
  have harmed : s.armed = false := by
    cases harmed : s.armed with
    | false => rfl
    | true =>
        rw [harmed, Bool.toNat_true] at hnotices
        omega
  refine ⟨harmed, AcceptState.notified_signal ?_ h.reset nofun⟩
  rw [harmed] at hnotices
  change s.hAcceptEvent.toNat + s.thread.posts + s.port + _ + 0 + s.lost = 1 at hnotices
  change s.hAcceptEvent.toNat + s.thread.posts + s.port +
    tally CallbackPc.accepts (Function.update s.worker w _) + 1 + s.lost = 1
  omega

end AcceptState.Notified

variable [DecidableEq ι] [DecidableEq κ] {a : AcceptAct ι κ}

/-- The step lemma of the notices. -/
theorem notified_step (h : s.Notified) (hs : acceptStep s a = some s') : s'.Notified := by
  cases a with
  | connect k =>
      obtain rfl := Option.some.inj hs
      exact AcceptState.notified_signal h.notices h.reset fun _ hnil => by simp at hnil
  | abort k =>
      rw [acceptStep, Option.ite_none_right_eq_some] at hs
      obtain ⟨hmem, hs⟩ := hs
      obtain rfl := Option.some.inj hs
      refine ⟨h.notices, h.reset, fun harmed => ?_, fun _ _ => Nat.succ_pos _⟩
      rw [h.armed harmed] at hmem
      cases hmem
  | thread ok => exact h.thread hs
  | get w =>
      rw [acceptStep, Option.ite_none_right_eq_some] at hs
      obtain ⟨⟨hpc, hport⟩, hs⟩ := hs
      obtain rfl := Option.some.inj hs
      exact h.get hpc hport
  | worker w created =>
      rw [acceptStep] at hs
      cases hpc : s.worker w with
      | get => rw [hpc] at hs; cases hs
      | accept =>
          rw [hpc] at hs
          obtain rfl := Option.some.inj hs
          exact (h.accept hpc).2
      | createSocket newSocket =>
          have hback : (s.goto w .get).Notified := h.goto (by rw [hpc]; rfl) rfl
          rw [hpc, AcceptState.workerNext] at hs
          split at hs
          · obtain rfl := Option.some.inj hs
            exact ⟨hback.notices, hback.reset, hback.armed, hback.waits⟩
          · obtain rfl := Option.some.inj hs
            exact ⟨hback.notices, hback.reset, hback.armed, hback.waits⟩
  | terminate =>
      rw [acceptStep, Option.ite_none_right_eq_some] at hs
      obtain rfl := Option.some.inj hs.2
      exact ⟨h.notices, h.reset, h.armed, h.waits⟩
  | join =>
      rw [acceptStep, Option.ite_none_right_eq_some] at hs
      obtain rfl := Option.some.inj hs.2
      exact ⟨h.notices, h.reset, h.armed, h.waits⟩

/-! ## The connections -/

omit [DecidableEq ι] in
theorem AcceptState.Accounts.signal (h : s.Accounts) : s.signal.Accounts := by
  rcases signal_cases s with ⟨-, -, hsignal⟩ | ⟨-, hsignal⟩
  · rw [hsignal]
    exact ⟨h.order, h.length, h.failed, h.ledger⟩
  · rw [hsignal]
    exact h

/-- A worker goes on at `k'`, and the results of `accept` change with it. -/
theorem AcceptState.ledger_goto {taken served closed taken' served' closed' : List (Option κ)}
    {k : CallbackPc κ} (hpc : s.worker w = k) (k' : CallbackPc κ)
    (h : ∀ r, taken.count r = served.count r + closed.count r +
      tally (fun k => decide (k = .createSocket r)) s.worker)
    (hcount : ∀ r, taken'.count r + served.count r + closed.count r +
        (decide (k = .createSocket r)).toNat =
      taken.count r + served'.count r + closed'.count r +
        (decide (k' = .createSocket r)).toNat) (r : Option κ) :
    taken'.count r = served'.count r + closed'.count r +
      tally (fun k => decide (k = .createSocket r)) (Function.update s.worker w k') := by
  have htally := tally_update (fun k => decide (k = .createSocket r)) s.worker w k'
  rw [hpc] at htally
  have hold := h r
  have hnew := hcount r
  omega

omit [Fintype ι] [DecidableEq ι] in
/-- A result of `accept` that is counted. -/
theorem count_concat_createSocket (l : List (Option κ)) (newSocket r : Option κ) :
    (l ++ [newSocket]).count r = l.count r +
      (decide (CallbackPc.createSocket newSocket = .createSocket r)).toNat := by
  rw [List.count_append, List.count_singleton, toNat_decide]
  by_cases hr : newSocket = r
  · simp [hr]
  · simp [hr]

omit [Fintype ι] [DecidableEq ι] [DecidableEq κ] in
/-- `accept` takes the first connection. -/
theorem reduceOption_accept (taken : List (Option κ)) (pending : List κ) :
    (taken ++ [pending.head?]).reduceOption ++ pending.tail = taken.reduceOption ++ pending := by
  rw [List.reduceOption_append, List.reduceOption_singleton, List.append_assoc]
  cases pending <;> rfl

namespace AcceptState.Accounts

omit [DecidableEq ι] in
/-- A client connects. -/
theorem connect (h : s.Accounts) (k : κ) :
    ({ s with pending := s.pending ++ [k], arrived := s.arrived ++ [k] } :
      AcceptState ι κ).signal.Accounts := by
  refine AcceptState.Accounts.signal ⟨?_, ?_, h.failed, h.ledger⟩
  · change List.Sublist (s.taken.reduceOption ++ (s.pending ++ [k])) (s.arrived ++ [k])
    rw [← List.append_assoc]
    exact h.order.append (List.Sublist.refl [k])
  · change (s.arrived ++ [k]).length =
      s.taken.reduceOption.length + (s.pending ++ [k]).length + s.aborted
    rw [List.length_append, List.length_append, h.length]
    omega

omit [DecidableEq ι] in
/-- A client gives its connection up. -/
theorem abort (h : s.Accounts) (hmem : k ∈ s.pending) :
    ({ s with pending := s.pending.erase k, aborted := s.aborted + 1 } :
      AcceptState ι κ).Accounts := by
  refine ⟨(List.Sublist.append (.refl _) List.erase_sublist).trans h.order, ?_,
    fun _ => Nat.succ_pos _, h.ledger⟩
  have hpos := List.length_pos_of_mem hmem
  change s.arrived.length =
    s.taken.reduceOption.length + (s.pending.erase k).length + (s.aborted + 1)
  rw [List.length_erase_of_mem hmem, h.length]
  omega

/-- A worker accepts. -/
theorem accept (h : s.Accounts) (hpc : s.worker w = .accept)
    (hwaits : s.pending = [] → 0 < s.aborted) : (s.accept w).Accounts := by
  refine AcceptState.Accounts.signal ⟨?_, ?_, fun hnone => ?_, ?_⟩
  · change List.Sublist ((s.taken ++ [s.pending.head?]).reduceOption ++ s.pending.tail) s.arrived
    rw [reduceOption_accept]
    exact h.order
  · change s.arrived.length = (s.taken ++ [s.pending.head?]).reduceOption.length +
      s.pending.tail.length + s.aborted
    rw [← List.length_append, reduceOption_accept, List.length_append]
    exact h.length
  · rcases List.mem_append.mp hnone with hnone | hnone
    · exact h.failed hnone
    · exact hwaits (List.head?_eq_none_iff.mp (List.mem_singleton.mp hnone).symm)
  · refine AcceptState.ledger_goto hpc _ h.ledger fun r => ?_
    change (s.taken ++ [s.pending.head?]).count r + s.served.count r + s.closed.count r + 0 =
      s.taken.count r + s.served.count r + s.closed.count r + _
    rw [count_concat_createSocket]
    omega

/-- A worker comes out of `CreateSocket`. -/
theorem createSocket {newSocket : Option κ} (h : s.Accounts)
    (hpc : s.worker w = .createSocket newSocket) :
    ({ s with served := s.served ++ [newSocket] }.goto w .get : AcceptState ι κ).Accounts ∧
    ({ s with closed := s.closed ++ [newSocket] }.goto w .get : AcceptState ι κ).Accounts := by
  refine ⟨⟨h.order, h.length, h.failed, ?_⟩, ⟨h.order, h.length, h.failed, ?_⟩⟩
  · refine AcceptState.ledger_goto hpc .get h.ledger fun r => ?_
    change s.taken.count r + s.served.count r + s.closed.count r + _ =
      s.taken.count r + (s.served ++ [newSocket]).count r + s.closed.count r + 0
    rw [count_concat_createSocket]
    omega
  · refine AcceptState.ledger_goto hpc .get h.ledger fun r => ?_
    change s.taken.count r + s.served.count r + s.closed.count r + _ =
      s.taken.count r + s.served.count r + (s.closed ++ [newSocket]).count r + 0
    rw [count_concat_createSocket]
    omega

end AcceptState.Accounts

/-- The step lemma of the accounts. -/
theorem accounts_step (hnotified : s.Notified) (h : s.Accounts)
    (hs : acceptStep s a = some s') : s'.Accounts := by
  cases a with
  | connect k =>
      obtain rfl := Option.some.inj hs
      exact h.connect k
  | abort k =>
      rw [acceptStep, Option.ite_none_right_eq_some] at hs
      obtain ⟨hmem, hs⟩ := hs
      obtain rfl := Option.some.inj hs
      exact h.abort hmem
  | thread ok =>
      obtain ⟨_, _, _, _, _, rfl⟩ := thread_frame hs
      exact ⟨h.order, h.length, h.failed, h.ledger⟩
  | get w =>
      rw [acceptStep, Option.ite_none_right_eq_some] at hs
      obtain ⟨⟨hpc, hport⟩, hs⟩ := hs
      obtain rfl := Option.some.inj hs
      refine ⟨h.order, h.length, h.failed, AcceptState.ledger_goto hpc .accept h.ledger ?_⟩
      intro r
      rfl
  | worker w created =>
      rw [acceptStep] at hs
      cases hpc : s.worker w with
      | get => rw [hpc] at hs; cases hs
      | accept =>
          rw [hpc] at hs
          obtain rfl := Option.some.inj hs
          exact h.accept hpc (hnotified.waits (hnotified.accept hpc).1)
      | createSocket newSocket =>
          obtain ⟨hserved, hclosed⟩ := h.createSocket hpc
          rw [hpc, AcceptState.workerNext] at hs
          split at hs
          · exact Option.some.inj hs ▸ hserved
          · exact Option.some.inj hs ▸ hclosed
  | terminate =>
      rw [acceptStep, Option.ite_none_right_eq_some] at hs
      obtain rfl := Option.some.inj hs.2
      exact ⟨h.order, h.length, h.failed, h.ledger⟩
  | join =>
      rw [acceptStep, Option.ite_none_right_eq_some] at hs
      obtain rfl := Option.some.inj hs.2
      exact ⟨h.order, h.length, h.failed, h.ledger⟩

/-! ## Runs -/

omit [Fintype ι] [DecidableEq κ] in
/-- A worker does not touch the accept thread. -/
theorem worker_frame {created : Bool} (hs : s.workerNext w created (s.worker w) = some s') :
    s'.stopEvent = s.stopEvent ∧ s'.onTerminate = s.onTerminate ∧ s'.thread = s.thread ∧
      s'.lost = s.lost := by
  cases hpc : s.worker w with
  | get => rw [hpc] at hs; cases hs
  | accept =>
      rw [hpc] at hs
      obtain rfl := Option.some.inj hs
      rw [AcceptState.accept, AcceptState.signal]
      split <;> exact ⟨rfl, rfl, rfl, rfl⟩
  | createSocket newSocket =>
      rw [hpc, AcceptState.workerNext] at hs
      split at hs
      · exact Option.some.inj hs ▸ ⟨rfl, rfl, rfl, rfl⟩
      · exact Option.some.inj hs ▸ ⟨rfl, rfl, rfl, rfl⟩

omit [Fintype ι] [DecidableEq ι] [DecidableEq κ] in
/-- The accept thread takes the second event when it ends. -/
theorem AcceptState.Stops.thread {ok : Bool} (h : s.Stops)
    (hs : s.threadNext ok s.thread = some s') : s'.Stops := by
  have hjoin : s.thread ≠ .ended → s.onTerminate = .join → s.stopEvent = true :=
    fun hne hj => (h.join hj).resolve_right hne
  cases hpc : s.thread with
  | wait =>
      rw [hpc] at hjoin
      rw [hpc, AcceptState.threadNext] at hs
      split at hs
      · obtain rfl := Option.some.inj hs
        exact ⟨fun hset => ⟨(h.set hset).1, nofun⟩, fun hj => .inl (hjoin nofun hj), nofun⟩
      · rw [Option.ite_none_right_eq_some] at hs
        obtain ⟨hset, hs⟩ := hs
        obtain rfl := Option.some.inj hs
        refine ⟨nofun, fun _ => .inr rfl, fun _ => ?_⟩
        change s.onTerminate ≠ .before
        rw [(h.set hset).1]
        decide
  | reset =>
      rw [hpc] at hs hjoin
      obtain rfl := Option.some.inj hs
      exact ⟨fun hset => ⟨(h.set hset).1, nofun⟩, fun hj => .inl (hjoin nofun hj), nofun⟩
  | post =>
      rw [hpc] at hjoin
      rw [hpc, AcceptState.threadNext] at hs
      split at hs
      · obtain rfl := Option.some.inj hs
        exact ⟨fun hset => ⟨(h.set hset).1, nofun⟩, fun hj => .inl (hjoin nofun hj), nofun⟩
      · obtain rfl := Option.some.inj hs
        exact ⟨fun hset => ⟨(h.set hset).1, nofun⟩, fun hj => .inl (hjoin nofun hj), nofun⟩
  | ended => rw [hpc] at hs; cases hs

omit [Fintype ι] in
/-- The step lemma of the second event. -/
theorem stops_step (h : s.Stops) (hs : acceptStep s a = some s') : s'.Stops := by
  cases a with
  | connect k =>
      obtain rfl := Option.some.inj hs
      rw [AcceptState.signal]
      split <;> exact ⟨h.set, h.join, h.ended⟩
  | abort k =>
      rw [acceptStep, Option.ite_none_right_eq_some] at hs
      obtain rfl := Option.some.inj hs.2
      exact ⟨h.set, h.join, h.ended⟩
  | thread ok => exact h.thread hs
  | get w =>
      rw [acceptStep, Option.ite_none_right_eq_some] at hs
      obtain rfl := Option.some.inj hs.2
      exact ⟨h.set, h.join, h.ended⟩
  | worker w created =>
      obtain ⟨hset, hterminate, hthread, -⟩ := worker_frame hs
      refine ⟨?_, ?_, ?_⟩
      · rw [hset, hterminate, hthread]
        exact h.set
      · rw [hset, hterminate, hthread]
        exact h.join
      · rw [hterminate, hthread]
        exact h.ended
  | terminate =>
      rw [acceptStep, Option.ite_none_right_eq_some] at hs
      obtain ⟨hbefore, hs⟩ := hs
      obtain rfl := Option.some.inj hs
      exact ⟨fun _ => ⟨rfl, fun hended => h.ended hended hbefore⟩, fun _ => .inl rfl, nofun⟩
  | join =>
      rw [acceptStep, Option.ite_none_right_eq_some] at hs
      obtain ⟨⟨-, hended⟩, hs⟩ := hs
      obtain rfl := Option.some.inj hs
      exact ⟨fun hset => absurd hended (h.set hset).2, nofun, nofun⟩

/-- The invariant. -/
structure AcceptState.Inv (s : AcceptState ι κ) : Prop where
  notified : s.Notified
  stops : s.Stops
  accounts : s.Accounts

theorem AcceptState.Inv.step (h : s.Inv) (hs : acceptStep s a = some s') : s'.Inv :=
  ⟨notified_step h.notified hs, stops_step h.stops hs, accounts_step h.notified h.accounts hs⟩

/-- Each state of each run. -/
theorem accept_inv_of_reaches (h : Reaches acceptStep Always (.start : AcceptState ι κ) s) :
    s.Inv := by
  refine h.invariant AcceptState.Inv ?_ fun _ _ _ hinv _ hs => hinv.step hs
  refine ⟨⟨?_, nofun, fun _ => rfl, nofun⟩, ⟨nofun, nofun, nofun⟩,
    ⟨.refl _, rfl, fun hnone => absurd hnone List.not_mem_nil, fun r => ?_⟩⟩
  · change false.toNat + 0 + 0 + tally CallbackPc.accepts (fun _ => .get) + 1 + 0 = 1
    rw [tally_const]
    simp [CallbackPc.accepts]
  · change 0 = 0 + 0 + tally (fun k : CallbackPc κ => decide (k = .createSocket r))
      (fun _ : ι => .get)
    rw [tally_const]
    simp

end Steps

/-! ## How long the threads go on -/

/-- The steps of the accept thread to its next `Wait`, or to the end of `Run`. -/
def AcceptPc.work : AcceptPc → ℕ
  | .wait => 2
  | .reset => 1
  | .post => 6
  | .ended => 0

/-- The steps of a worker to its next `Get`. -/
def CallbackPc.work {κ : Type} : CallbackPc κ → ℕ
  | .get => 0
  | .accept => 2
  | .createSocket _ => 1

/-- The steps of `OnTerminate`. -/
def OnTerminatePc.work : OnTerminatePc → ℕ
  | .join => 1
  | .before | .returned => 0

/-- A bound for the steps of the threads. -/
def AcceptState.work {ι κ : Type} [Fintype ι] (s : AcceptState ι κ) : ℕ :=
  8 * s.pending.length + 6 * s.hAcceptEvent.toNat + s.thread.work + 3 * s.port +
    weigh CallbackPc.work s.worker + s.onTerminate.work

/-- No thread of the server has a step. -/
def AcceptState.Quiet {ι κ : Type} [DecidableEq ι] [DecidableEq κ] (s : AcceptState ι κ) : Prop :=
  ∀ a : AcceptAct ι κ, a.own = true → acceptStep s a = none

section Work
variable {ι κ : Type} [Fintype ι] [DecidableEq ι] [DecidableEq κ] {s s' : AcceptState ι κ}
  {w : ι} {a : AcceptAct ι κ}

/-- What a step of the threads keeps: the connections that are not given up, in their order. -/
structure AcceptState.Works (s s' : AcceptState ι κ) : Prop where
  work : s'.work < s.work
  lost : s'.lost = s.lost
  kept : s'.taken.reduceOption ++ s'.pending = s.taken.reduceOption ++ s.pending

namespace AcceptState.Works

omit [DecidableEq ι] [DecidableEq κ] in
theorem thread (h : s.Notified) (hs : s.threadNext true s.thread = some s') : s.Works s' := by
  cases hpc : s.thread with
  | wait =>
      rw [hpc, AcceptState.threadNext] at hs
      split at hs
      · obtain rfl := Option.some.inj hs
        refine ⟨?_, rfl, rfl⟩
        simp only [AcceptState.work, hpc, AcceptPc.work]
        omega
      · rw [Option.ite_none_right_eq_some] at hs
        obtain rfl := Option.some.inj hs.2
        refine ⟨?_, rfl, rfl⟩
        simp only [AcceptState.work, hpc, AcceptPc.work]
        omega
  | reset =>
      have hevent := h.reset hpc
      rw [hpc] at hs
      obtain rfl := Option.some.inj hs
      refine ⟨?_, rfl, rfl⟩
      simp only [AcceptState.work, hpc, hevent, AcceptPc.work, Bool.toNat_true, Bool.toNat_false]
      omega
  | post =>
      rw [hpc] at hs
      obtain rfl := Option.some.inj hs
      refine ⟨?_, rfl, rfl⟩
      simp only [AcceptState.work, hpc, AcceptPc.work]
      omega
  | ended => rw [hpc] at hs; cases hs

omit [DecidableEq κ] in
/-- A worker accepts, and the event is signalled only if a connection is left. -/
theorem accept (hpc : s.worker w = .accept) : s.Works (s.accept w) := by
  have hweigh := weigh_update CallbackPc.work s.worker w (.createSocket s.pending.head?)
  have htail := List.length_tail (l := s.pending)
  rw [hpc] at hweigh
  change _ + 2 = _ + 1 at hweigh
  rcases signal_cases ({ s with
      pending := s.pending.tail
      armed := true
      taken := s.taken ++ [s.pending.head?] }.goto w (.createSocket s.pending.head?))
    with ⟨-, hne, hsignal⟩ | ⟨-, hsignal⟩
  · have hpos := List.length_pos_of_ne_nil hne
    rw [AcceptState.accept, hsignal]
    refine ⟨?_, rfl, reduceOption_accept s.taken s.pending⟩
    change 0 < s.pending.tail.length at hpos
    simp only [AcceptState.work, AcceptState.goto, Bool.toNat_true]
    omega
  · rw [AcceptState.accept, hsignal]
    refine ⟨?_, rfl, reduceOption_accept s.taken s.pending⟩
    simp only [AcceptState.work, AcceptState.goto]
    omega

end AcceptState.Works

/-- The step lemma. -/
theorem works_of_own (h : s.Notified) (ha : a.own = true) (hs : acceptStep s a = some s') :
    s.Works s' := by
  cases a with
  | connect k => cases ha
  | abort k => cases ha
  | terminate => cases ha
  | thread ok =>
      cases ok with
      | true => exact .thread h hs
      | false => cases ha
  | get w =>
      rw [acceptStep, Option.ite_none_right_eq_some] at hs
      obtain ⟨⟨hpc, hport⟩, hs⟩ := hs
      obtain rfl := Option.some.inj hs
      refine ⟨?_, rfl, rfl⟩
      have hweigh := weigh_update CallbackPc.work s.worker w .accept
      rw [hpc] at hweigh
      change _ + 0 = _ + 2 at hweigh
      simp only [AcceptState.work, AcceptState.goto]
      omega
  | worker w created =>
      rw [acceptStep] at hs
      cases hpc : s.worker w with
      | get => rw [hpc] at hs; cases hs
      | accept =>
          rw [hpc] at hs
          exact Option.some.inj hs ▸ .accept hpc
      | createSocket newSocket =>
          have hweigh := weigh_update CallbackPc.work s.worker w .get
          rw [hpc] at hweigh
          change _ + 1 = _ + 0 at hweigh
          rw [hpc, AcceptState.workerNext] at hs
          split at hs
          · obtain rfl := Option.some.inj hs
            refine ⟨?_, rfl, rfl⟩
            simp only [AcceptState.work, AcceptState.goto]
            omega
          · obtain rfl := Option.some.inj hs
            refine ⟨?_, rfl, rfl⟩
            simp only [AcceptState.work, AcceptState.goto]
            omega
  | join =>
      rw [acceptStep, Option.ite_none_right_eq_some] at hs
      obtain ⟨⟨hjoin, -⟩, hs⟩ := hs
      obtain rfl := Option.some.inj hs
      refine ⟨?_, rfl, rfl⟩
      simp only [AcceptState.work, hjoin, OnTerminatePc.work]
      omega

omit [Fintype ι] in
/-- Where the accept thread is when it has no step. -/
theorem thread_of_quiet (hquiet : s.Quiet) :
    (s.thread = .wait ∧ s.hAcceptEvent = false ∧ s.stopEvent = false) ∨ s.thread = .ended := by
  have hnone : s.threadNext true s.thread = none := hquiet (.thread true) rfl
  cases hpc : s.thread with
  | wait =>
      rw [hpc, AcceptState.threadNext] at hnone
      split at hnone
      · cases hnone
      · rename_i hevent
        split at hnone
        · cases hnone
        · rename_i hstop
          exact .inl ⟨rfl, Bool.eq_false_iff.mpr hevent, Bool.eq_false_iff.mpr hstop⟩
  | reset => rw [hpc] at hnone; cases hnone
  | post => rw [hpc] at hnone; cases hnone
  | ended => exact .inr rfl

omit [Fintype ι] in
theorem worker_of_quiet (hquiet : s.Quiet) (w : ι) : s.worker w = .get := by
  have hnone : s.workerNext w true (s.worker w) = none := hquiet (.worker w true) rfl
  cases hpc : s.worker w with
  | get => rfl
  | accept => rw [hpc] at hnone; cases hnone
  | createSocket newSocket => rw [hpc] at hnone; cases hnone

/-- All is done when no thread has a step. -/
theorem done_of_quiet [Nonempty ι] (h : s.Inv) (hlost : s.lost = 0) (hquiet : s.Quiet) :
    s.onTerminate ≠ .join ∧ (s.onTerminate = .before → s.pending = []) ∧
      (s.served ++ s.closed).Perm s.taken := by
  have hworker := worker_of_quiet hquiet
  refine ⟨fun hjoin => ?_, fun hbefore => ?_, ?_⟩
  · have hnone : acceptStep s .join = none := hquiet .join rfl
    rw [acceptStep] at hnone
    rcases thread_of_quiet hquiet with ⟨hpc, -, hstop⟩ | hended
    · rcases h.stops.join hjoin with hset | hended
      · exact absurd (hset.symm.trans hstop) (by decide)
      · exact absurd (hpc.symm.trans hended) (by decide)
    · rw [if_pos ⟨hjoin, hended⟩] at hnone
      cases hnone
  · rcases thread_of_quiet hquiet with ⟨hpc, hevent, -⟩ | hended
    · obtain ⟨w⟩ := ‹Nonempty ι›
      have hnone : acceptStep s (.get w) = none := hquiet (.get w) rfl
      rw [acceptStep] at hnone
      have hport : s.port = 0 := by
        by_contra hne
        rw [if_pos ⟨hworker w, by omega⟩] at hnone
        cases hnone
      have htally : tally CallbackPc.accepts s.worker = 0 :=
        tally_eq_zero.mpr fun v => by rw [hworker v]; rfl
      have hnotices := h.notified.notices
      rw [AcceptState.notices, hevent, hpc, hport, htally, hlost] at hnotices
      refine h.notified.armed ?_
      cases harmed : s.armed with
      | true => rfl
      | false => rw [harmed] at hnotices; cases hnotices
    · exact absurd hbefore (h.stops.ended hended)
  · rw [List.perm_iff_count]
    intro r
    have htally : tally (fun k => decide (k = .createSocket r)) s.worker = 0 :=
      tally_eq_zero.mpr fun v => by rw [hworker v]; rfl
    rw [h.accounts.ledger r, htally, List.count_append, Nat.add_zero]

omit [Fintype ι] [DecidableEq ι] [DecidableEq κ] in
/-- A packet that is lost stays lost. -/
theorem lost_le_thread {ok : Bool} (hs : s.threadNext ok s.thread = some s') :
    s.lost ≤ s'.lost := by
  cases hpc : s.thread with
  | wait =>
      rw [hpc, AcceptState.threadNext] at hs
      split at hs
      · exact Option.some.inj hs ▸ Nat.le_refl _
      · rw [Option.ite_none_right_eq_some] at hs
        exact Option.some.inj hs.2 ▸ Nat.le_refl _
  | reset =>
      rw [hpc] at hs
      exact Option.some.inj hs ▸ Nat.le_refl _
  | post =>
      rw [hpc, AcceptState.threadNext] at hs
      split at hs
      · exact Option.some.inj hs ▸ Nat.le_refl _
      · exact Option.some.inj hs ▸ Nat.le_succ _
  | ended => rw [hpc] at hs; cases hs

/-- Nothing leads to a call of `accept`. -/
theorem lost_step (h : s.Notified) (hlost : s.lost ≠ 0) (hs : acceptStep s a = some s') :
    s'.lost ≠ 0 ∧ s'.taken = s.taken := by
  have hnotices := h.notices
  rw [AcceptState.notices] at hnotices
  have hnobody : tally CallbackPc.accepts s.worker = 0 := by omega
  cases a with
  | connect k =>
      obtain rfl := Option.some.inj hs
      rw [AcceptState.signal]
      split <;> exact ⟨hlost, rfl⟩
  | abort k =>
      rw [acceptStep, Option.ite_none_right_eq_some] at hs
      exact Option.some.inj hs.2 ▸ ⟨hlost, rfl⟩
  | thread ok =>
      have hle := lost_le_thread hs
      obtain ⟨_, _, _, _, _, rfl⟩ := thread_frame hs
      exact ⟨by omega, rfl⟩
  | get w =>
      rw [acceptStep, Option.ite_none_right_eq_some] at hs
      exact Option.some.inj hs.2 ▸ ⟨hlost, rfl⟩
  | worker w created =>
      rw [acceptStep] at hs
      cases hpc : s.worker w with
      | get => rw [hpc] at hs; cases hs
      | accept =>
          have hnot := tally_eq_zero.mp hnobody w
          rw [hpc] at hnot
          cases hnot
      | createSocket newSocket =>
          rw [hpc, AcceptState.workerNext] at hs
          split at hs
          · exact Option.some.inj hs ▸ ⟨hlost, rfl⟩
          · exact Option.some.inj hs ▸ ⟨hlost, rfl⟩
  | terminate =>
      rw [acceptStep, Option.ite_none_right_eq_some] at hs
      exact Option.some.inj hs.2 ▸ ⟨hlost, rfl⟩
  | join =>
      rw [acceptStep, Option.ite_none_right_eq_some] at hs
      exact Option.some.inj hs.2 ▸ ⟨hlost, rfl⟩

/-- **One `Post` that fails ends it**: whatever happens afterwards, no connection is accepted any
more. `OnWaitCallback` does not look at what `Post` returns, and the system does not signal the
event again before a call of `accept`. -/
theorem deaf_of_lost (h : Reaches acceptStep Always (.start : AcceptState ι κ) s)
    (hlost : s.lost ≠ 0) (hrun : Reaches acceptStep Always s s') : s'.taken = s.taken := by
  refine (hrun.invariant (fun r => r.Inv ∧ r.lost ≠ 0 ∧ r.taken = s.taken)
    ⟨accept_inv_of_reaches h, hlost, rfl⟩ fun r a t hr _ hs => ?_).2.2
  obtain ⟨hinv, hne, htaken⟩ := hr
  obtain ⟨hne', htaken'⟩ := lost_step hinv.notified hne hs
  exact ⟨hinv.step hs, hne', htaken'.trans htaken⟩

/-- A client after it. -/
theorem deaf_of_lost_second : ∃ s s', runAll acceptStep (.start : AcceptState Unit ℕ)
      [.connect 1, .thread true, .thread true, .thread false] = some s ∧
    runAll acceptStep s [.connect 2] = some s' ∧ s'.pending = [1, 2] ∧ s'.taken = [] := by
  obtain ⟨s, hs⟩ : ∃ s, runAll acceptStep (.start : AcceptState Unit ℕ)
      [.connect 1, .thread true, .thread true, .thread false] = some s := ⟨_, rfl⟩
  obtain ⟨s', hs'⟩ : ∃ s', runAll acceptStep s [.connect 2] = some s' := ⟨_, rfl⟩
  have hdeaf := deaf_of_lost (Reaches.always_of_runAll hs)
    (by obtain rfl := Option.some.inj hs; decide) (Reaches.always_of_runAll hs')
  obtain rfl := Option.some.inj hs
  obtain rfl := Option.some.inj hs'
  exact ⟨_, _, rfl, rfl, rfl, hdeaf⟩

end Work

end BGIocpServer
