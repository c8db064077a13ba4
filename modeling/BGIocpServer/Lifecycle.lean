import BGIocpServer.SendSide
import BGIocpServer.ReadPath
import BGIocpServer.Server

/-!
# The references of a slot over its connections

Every function that takes or drops a reference of a socket, as steps: accept and
`CreateSocket`, `Initialize` with its first `Read`, the completions of `WSARecv`
and what `OnRead` does with them, the send side with its completions, and `Close`.
The calls of `Release` that a thread has still to make are counted in `due`; they
may come in any order and interleaved with everything else.

## Main definitions

* `SlotLife`, `LifeAct`, `lifeStep`: the machine. It ends when the slot is deleted.
* `SlotLife.Settled`: no operation of the slot is outstanding.
* `SlotLife.held`: the references that somebody will drop.
-/

namespace BGIocpServer
open Kit

/-- Where the chain of reads of a connection is. -/
inductive ReadChain
  /-- There is none: the slot is closed. -/
  | idle
  /-- `CreateSocket` has returned the slot; `Initialize` comes next. -/
  | accepted
  /-- A `WSARecv` is outstanding. -/
  | reading
  /-- A completed read is in `OnRead`. -/
  | onRead
  deriving DecidableEq, Repr

/-- How a call of `OnRead` ends. -/
inductive ReadEnd
  /-- In `Read`, whose `WSARecv` succeeds or fails at once. -/
  | read (ok : Bool)
  /-- In `Close`: the size byte of a packet is wrong. -/
  | framing
  deriving DecidableEq, Repr

/-- A slot with all its references. The last two fields are history: the sends that
completed with a failure, and the closes by something else than a failed read. -/
structure SlotLife (ι : Type) where
  side : SendSide ι
  chain : ReadChain
  due : ℕ
  failedSends : ℕ
  otherCloses : ℕ

namespace SlotLife
variable {ι : Type} [DecidableEq ι]

def setSock (s : SlotLife ι) (sock : BGTestSocket) : SlotLife ι := { s with side.sock := sock }

/-- `Close`, with its `Release` still to come. -/
def close (s : SlotLife ι) : SlotLife ι :=
  match s.side.sock.hSocket with
  | none => s
  | some _ => { s.setSock s.side.sock.closeHandle with due := s.due + 1 }

/-- `Close` at the end of a chain of reads. `failed` says that a read failed. -/
def endChain (s : SlotLife ι) (failed : Bool) : SlotLife ι :=
  { s.close with
    chain := .idle
    otherCloses := if failed then s.otherCloses else s.otherCloses + 1 }

/-- `AddRef` and `WSARecv`; if it fails at once, `Close`. -/
def read (s : SlotLife ι) (ok : Bool) : SlotLife ι :=
  let s := s.setSock s.side.sock.addRef
  if ok then { s with chain := .reading } else s.endChain true

/-- A `Release` that the thread makes after everything else it does. -/
def releaseLater (s : SlotLife ι) : SlotLife ι := { s with due := s.due + 1 }

/-- `CreateSocket` on the slot. -/
def create (s : SlotLife ι) (newId : ℕ) (newSocket : Handle) (addr port : ℕ) : SlotLife ι :=
  { s with
    side := s.side.create newId newSocket addr port
    chain := if (s.side.sock.claim newId (some newSocket) addr port).1 = .taken then .accepted
      else s.chain }

/-- `BGIOSocket::Initialize` and the `Release` of `BGIOServer::OnIOCallback` after it:
`added` is the result of `HandleAdd`, `ok` that of the first `WSARecv`. -/
def initSocket (s : SlotLife ι) (added ok : Bool) : SlotLife ι :=
  (if added then s.read ok else s.endChain false).releaseLater

/-- A read completes with `dwTransferred` bytes: `ReadCallback` up to the loop of
`OnRead`. -/
def readCallback (s : SlotLife ι) (dwTransferred : ℕ) : SlotLife ι :=
  if dwTransferred = 0 then (s.endChain false).releaseLater
  else if s.side.sock.nPendingWrite > pendingWrite then (s.endChain false).releaseLater
  else { s with chain := .onRead }

/-- The loop of `OnRead` ends, and `OnIOCallback` goes on to its `Release`. -/
def onReadEnd (s : SlotLife ι) (e : ReadEnd) : SlotLife ι :=
  match e with
  | .read ok => (s.read ok).releaseLater
  | .framing => (s.endChain false).releaseLater

end SlotLife

/-- The labels of the machine. -/
inductive LifeAct (ι : Type)
  /-- A step of `Write`, `WriteCallback` or a completed send. -/
  | side (a : SendAct ι)
  /-- `CreateSocket` tries the slot. -/
  | create (newId : ℕ) (newSocket : Handle) (addr port : ℕ)
  /-- `Initialize` -/
  | initSocket (added ok : Bool)
  /-- The outstanding read completes with a failure. -/
  | readFailed
  /-- The outstanding read completes. -/
  | readDone (dwTransferred : ℕ)
  /-- The loop of `OnRead` ends. -/
  | onReadEnd (e : ReadEnd)
  /-- A thread makes a `Release` that is due. -/
  | release

/-- The references that a step of the send side loses: a failed send is only logged. -/
def SendAct.lost {ι : Type} : SendAct ι → ℕ
  | .complete _ _ false _ => 1
  | _ => 0

/-- A step of `Write`, `WriteCallback` or a completed send; `Close` and `CreateSocket`
are steps of the slot. -/
def SlotLife.sideStep {ι : Type} [DecidableEq ι] (s : SlotLife ι) (a : SendAct ι) :
    Option (SlotLife ι) :=
  match a with
  | .close | .create .. => none
  | a => (sendStep s.side a).map fun side =>
      { s with side := side, failedSends := s.failedSends + a.lost }

/-- One step of a slot that has not been deleted. -/
def lifeStep {ι : Type} [DecidableEq ι] (s : SlotLife ι) (a : LifeAct ι) : Option (SlotLife ι) :=
  if s.side.sock.freed then none
  else match a with
    | .side a => s.sideStep a
    | .create newId newSocket addr port => some (s.create newId newSocket addr port)
    | .initSocket added ok =>
        if s.chain = .accepted then some (s.initSocket added ok) else none
    | .readFailed => if s.chain = .reading then some (s.endChain true) else none
    | .readDone n => if s.chain = .reading then some (s.readCallback n) else none
    | .onReadEnd e => if s.chain = .onRead then some (s.onReadEnd e) else none
    | .release =>
        if 0 < s.due then some { s.setSock s.side.sock.release with due := s.due - 1 } else none

/-- A slot of the array that `BGTestServer::Initialize` leaves. -/
def SlotLife.start (ι : Type) (heap : Heap) (sock : BGTestSocket) : SlotLife ι where
  side := { SendSide.start ι heap sock.pReadBuf with sock := sock }
  chain := .idle
  due := 0
  failedSends := 0
  otherCloses := 0

/-! ## The ledger -/

/-- The thread is in `WriteCallback`, with the `Release` of `OnIOCallback` to come. -/
def SendPc.isCallback : SendPc → Bool
  | .cbLock _ | .cbSend _ | .cbFree _ => true
  | _ => false

variable {ι : Type} [Fintype ι] [DecidableEq ι]

/-- The references that the send side will drop. -/
def SendSide.heldRefs (s : SendSide ι) : ℕ := s.sends.length + tally SendPc.isCallback s.pc

/-- The reference of a chain of reads. -/
def ReadChain.refs : ReadChain → ℕ
  | .idle => 0
  | .accepted | .reading | .onRead => 1

theorem ReadChain.refs_of_ne {c : ReadChain} (h : c ≠ .idle) : c.refs = 1 := by
  cases c with
  | idle => exact absurd rfl h
  | accepted => rfl
  | reading => rfl
  | onRead => rfl

/-- The references that somebody will drop: a due `Release`, a completion, or the
`Close` that ends a chain of reads. -/
def SlotLife.held (s : SlotLife ι) : ℕ :=
  s.due + s.side.heldRefs + s.chain.refs

/-- No operation of the slot is outstanding. -/
structure SlotLife.Settled (s : SlotLife ι) : Prop where
  chain : s.chain = .idle
  due : s.due = 0
  sends : s.side.sends = []
  callbacks : ∀ t, (s.side.pc t).isCallback = false

/-- What a step does to the counters, `m` and `m'` being the references held before
and after it. -/
inductive RefsStep (o : BGIOObject) (m : ℕ) : BGIOObject → ℕ → Prop
  | keep : RefsStep o m o m
  | take : RefsStep o m (o.addRef .general) (m + 1)
  | takeDrop : RefsStep o m ((o.addRef .general).release .general) m
  | drop {m' : ℕ} : m' + 1 = m → RefsStep o m (o.release .general) m'

theorem RefsStep.of_eq {o : BGIOObject} {m m' : ℕ} (h : m' = m) : RefsStep o m o m' := h ▸ .keep

/-- A step of the machine keeps the difference between the counters and what is held. -/
theorem RefsStep.counted {o o' : BGIOObject} {m m' n : ℕ} (h : RefsStep o m o' m')
    (hn : o.Counted 0 n) (hpos : 0 < n) : ∃ n', o'.Counted 0 n' ∧ n' + m = n + m' := by
  cases h with
  | keep => exact ⟨n, hn, rfl⟩
  | take => exact ⟨n + 1, hn.addRef_general (by omega), by omega⟩
  | takeDrop => exact ⟨n, (hn.addRef_general (by omega)).release_general, rfl⟩
  | drop hm =>
      obtain ⟨k, rfl⟩ := Nat.exists_eq_add_of_lt hpos
      rw [Nat.zero_add] at hn
      exact ⟨k, hn.release_general, by omega⟩

namespace SendSide
variable {s s' : SendSide ι} {t : ι} {p : Ptr} {k : SendPc}

/-- A thread moves on between two points that hold the same. -/
theorem heldRefs_goto (hk : k.isCallback = (s.pc t).isCallback) :
    (s.goto t k).heldRefs = s.heldRefs := by
  have hupd := tally_update SendPc.isCallback s.pc t k
  rw [hk] at hupd
  simp only [heldRefs, goto]
  omega

/-- `WriteCallback` begins. -/
theorem heldRefs_enter (ht : (s.pc t).isCallback = false) (hk : k.isCallback = true) :
    (s.goto t k).heldRefs = s.heldRefs + 1 := by
  have hupd := tally_update SendPc.isCallback s.pc t k
  rw [hk, ht] at hupd
  simp only [heldRefs, goto, Bool.toNat_true, Bool.toNat_false] at hupd ⊢
  omega

/-- `OnIOCallback` ends behind `WriteCallback`. -/
theorem heldRefs_leave (ht : (s.pc t).isCallback = true) (hk : k.isCallback = false) :
    (s.goto t k).heldRefs + 1 = s.heldRefs := by
  have hupd := tally_update SendPc.isCallback s.pc t k
  rw [hk, ht] at hupd
  simp only [heldRefs, goto, Bool.toNat_true, Bool.toNat_false] at hupd ⊢
  omega

/-- What a step of the send side leaves alone. -/
structure SameSlot (s s' : SendSide ι) : Prop where
  hSocket : s'.sock.hSocket = s.sock.hSocket
  nBit : s'.sock.nBit = s.sock.nBit

/-- The steps of the send side, except a completion, as the ledger sees them. -/
def RefsOk (s s' : SendSide ι) (lost : ℕ) : Prop :=
  SameSlot s s' ∧
    RefsStep s.sock.toBGIOObject s.heldRefs s'.sock.toBGIOObject (s'.heldRefs + lost)

omit [Fintype ι] [DecidableEq ι] in
theorem enqueue_same {sock sock' : BGTestSocket} {heap heap' : Heap} {e : Enqueued}
    (h : sock.enqueue heap p = some (e, heap', sock')) :
    sock'.toBGIOObject = sock.toBGIOObject ∧ sock'.hSocket = sock.hSocket ∧
      sock'.nBit = sock.nBit := by
  simp only [BGTestSocket.enqueue] at h
  split at h
  · simp only [Option.some.injEq, Prod.mk.injEq] at h
    obtain ⟨-, -, rfl⟩ := h
    exact ⟨rfl, rfl, rfl⟩
  · split at h
    · simp only [Option.map_eq_some_iff, Prod.mk.injEq] at h
      obtain ⟨c, -, -, -, rfl⟩ := h
      exact ⟨rfl, rfl, rfl⟩
    · simp only [Option.some.injEq, Prod.mk.injEq] at h
      obtain ⟨-, -, rfl⟩ := h
      exact ⟨rfl, rfl, rfl⟩

omit [Fintype ι] [DecidableEq ι] in
theorem dequeue_same {sock sock' : BGTestSocket} {heap : Heap} {n : ℕ} {d : Dequeued}
    (h : sock.dequeue heap n = some (d, sock')) :
    sock'.toBGIOObject = sock.toBGIOObject ∧ sock'.hSocket = sock.hSocket ∧
      sock'.nBit = sock.nBit := by
  simp only [BGTestSocket.dequeue] at h
  split at h
  · exact absurd h (by simp)
  · split at h
    · simp only [Option.some.injEq, Prod.mk.injEq] at h
      obtain ⟨-, rfl⟩ := h
      exact ⟨rfl, rfl, rfl⟩
    · split at h
      · simp only [Option.some.injEq, Prod.mk.injEq] at h
        obtain ⟨-, rfl⟩ := h
        exact ⟨rfl, rfl, rfl⟩
      · simp only [Option.some.injEq, Prod.mk.injEq] at h
        obtain ⟨-, rfl⟩ := h
        exact ⟨rfl, rfl, rfl⟩

omit [Fintype ι] [DecidableEq ι] in
theorem SameSlot.of_eq {s s' : SendSide ι} (h : s'.sock.hSocket = s.sock.hSocket ∧
    s'.sock.nBit = s.sock.nBit) : SameSlot s s' := ⟨h.1, h.2⟩

theorem callWrite_refs {data : List UInt8} (ht : s.pc t = .idle) :
    RefsOk s (s.callWrite t p data) 0 := by
  have key : ∀ (r : SendSide ι) (k : SendPc), r.sock = s.sock → r.sends = s.sends →
      r.pc = s.pc → k.isCallback = false → RefsOk s (r.goto t k) 0 := by
    intro r k hsock hsends hpc hk
    have hheld : (r.goto t k).heldRefs = s.heldRefs := by
      rw [heldRefs_goto (by rw [hk, hpc, ht]; rfl)]
      simp only [heldRefs, hsends, hpc]
    refine ⟨.of_eq ?_, ?_⟩
    · simp only [goto, hsock, and_self]
    · rw [Nat.add_zero, hheld]
      simp only [goto, hsock]
      exact .keep
  simp only [callWrite]
  split
  · exact key _ _ rfl rfl rfl rfl
  · split
    · exact key _ _ rfl rfl rfl rfl
    · exact key _ _ rfl rfl rfl rfl

theorem writeRegion_refs (ht : s.pc t = .writeLock p) (h : s.writeRegion t p = some s') :
    RefsOk s s' 0 := by
  simp only [writeRegion, Option.map_eq_some_iff] at h
  obtain ⟨⟨e, heap, sock⟩, henq, rfl⟩ := h
  obtain ⟨hobj, hslot⟩ := enqueue_same henq
  have key : ∀ k : SendPc, k.isCallback = false → RefsOk s ({ s with
      heap := heap
      sock := sock
      written := record s.written (s.callConn t) (s.heap p).bytes }.goto t k) 0 := by
    intro k hk
    refine ⟨.of_eq hslot, ?_⟩
    have hheld : ({ s with
      heap := heap
      sock := sock
      written := record s.written (s.callConn t) (s.heap p).bytes }.goto t k).heldRefs =
        s.heldRefs := heldRefs_goto (by rw [hk, ht]; rfl)
    rw [Nat.add_zero, hheld]
    simp only [goto, hobj]
    exact .keep
  cases e with
  | first => exact key _ rfl
  | coalesced => exact key _ rfl
  | appended => exact key _ rfl

theorem writeCallbackRegion_refs {n : ℕ} (ht : s.pc t = .cbLock n)
    (h : s.writeCallbackRegion t n = some s') : RefsOk s s' 0 := by
  simp only [writeCallbackRegion, Option.map_eq_some_iff] at h
  obtain ⟨⟨d, sock⟩, hdeq, rfl⟩ := h
  obtain ⟨hobj, hslot⟩ := dequeue_same hdeq
  have hcb : (s.pc t).isCallback = true := by rw [ht]; rfl
  cases d with
  | short =>
      refine ⟨.of_eq hslot, ?_⟩
      have hheld : ({ s with sock := sock.release }.goto t .idle).heldRefs + 1 = s.heldRefs :=
        heldRefs_leave hcb rfl
      simp only [goto, BGTestSocket.release, hobj]
      exact .drop hheld
  | more q =>
      refine ⟨.of_eq hslot, ?_⟩
      have hheld : ({ s with
        sock := sock
        completed := record s.completed s.conn (s.heap q).bytes }.goto t (.cbSend q)).heldRefs =
          s.heldRefs := heldRefs_goto hcb.symm
      rw [Nat.add_zero, hheld]
      simp only [goto, hobj]
      exact .keep
  | empty q =>
      refine ⟨.of_eq hslot, ?_⟩
      have hheld : ({ s with
        sock := sock
        completed := record s.completed s.conn (s.heap q).bytes }.goto t (.cbFree q)).heldRefs =
          s.heldRefs := heldRefs_goto hcb.symm
      rw [Nat.add_zero, hheld]
      simp only [goto, hobj]
      exact .keep

/-- `AddRef` and `WSASend`: the outstanding send, if there is one, holds the reference. -/
theorem wsaSend_refs {ok : Bool} {r : SendSide ι} (hk : k.isCallback = (s.pc t).isCallback)
    (h : s.wsaSend p ok = some r) : RefsOk s (r.goto t k) 0 := by
  have hpc : r.pc = s.pc ∧ r.sock.hSocket = s.sock.hSocket ∧ r.sock.nBit = s.sock.nBit ∧
      RefsStep s.sock.toBGIOObject s.heldRefs r.sock.toBGIOObject r.heldRefs := by
    simp only [wsaSend] at h
    cases ok with
    | true =>
        rw [if_pos rfl] at h
        split at h
        · rw [Option.some.injEq] at h
          subst h
          refine ⟨rfl, rfl, rfl, ?_⟩
          have hheld : s.sends.length + 1 + tally SendPc.isCallback s.pc = s.heldRefs + 1 := by
            simp only [heldRefs]
            omega
          simp only [heldRefs, List.length_append, List.length_singleton] at hheld ⊢
          rw [hheld]
          exact .take
        · exact absurd h (by simp)
    | false =>
        simp only [Bool.false_eq_true, if_false, Option.some.injEq] at h
        subst h
        exact ⟨rfl, rfl, rfl, .takeDrop⟩
  obtain ⟨hpc, hsocket, hbit, hrefs⟩ := hpc
  refine ⟨⟨hsocket, hbit⟩, ?_⟩
  rw [Nat.add_zero, heldRefs_goto (by rw [hk, hpc])]
  exact hrefs

theorem sendRegion_refs {ok : Bool} (h : s.sendRegion t ok = some s') : RefsOk s s' 0 := by
  simp only [sendRegion] at h
  cases ht : s.pc t with
  | writeSend q =>
      simp only [ht, Option.map_eq_some_iff] at h
      obtain ⟨r, hr, rfl⟩ := h
      exact wsaSend_refs (by rw [ht]; rfl) hr
  | cbSend q =>
      cases hfirst : s.sock.pFirstBuf with
      | none => simp [ht, hfirst] at h
      | some p =>
          simp only [ht, hfirst, Option.map_eq_some_iff] at h
          obtain ⟨r, hr, rfl⟩ := h
          exact wsaSend_refs (by rw [ht]; rfl) hr
  | idle => simp [ht] at h
  | writeLock q => simp [ht] at h
  | writeFree q => simp [ht] at h
  | cbLock n => simp [ht] at h
  | cbFree q => simp [ht] at h

theorem freeRegion_refs {next : Option Ptr} (h : s.freeRegion t next = some s') :
    RefsOk s s' 0 := by
  simp only [freeRegion] at h
  cases ht : s.pc t with
  | writeFree q =>
      simp only [ht, Option.some.injEq] at h
      subst h
      have hpc : (SendPc.idle).isCallback = (s.pc t).isCallback := by rw [ht]; rfl
      exact ⟨⟨rfl, rfl⟩, .of_eq (heldRefs_goto hpc)⟩
  | cbFree q =>
      simp only [ht, Option.some.injEq] at h
      subst h
      have hpc : (s.pc t).isCallback = true := by rw [ht]; rfl
      refine ⟨⟨rfl, rfl⟩, .drop ?_⟩
      exact heldRefs_leave hpc rfl
  | idle => simp [ht] at h
  | writeLock q => simp [ht] at h
  | writeSend q => simp [ht] at h
  | cbLock n => simp [ht] at h
  | cbSend q => simp [ht] at h

/-- A completion: a failed one is only logged, and its reference is lost. -/
theorem complete_refs {i n : ℕ} {bSuccess : Bool} (ht : s.pc t = .idle)
    (h : s.complete t i bSuccess n = some s') :
    RefsOk s s' (if bSuccess then 0 else 1) := by
  simp only [complete] at h
  cases hi : s.sends[i]? with
  | none => simp [hi] at h
  | some snd =>
      have hlt : i < s.sends.length := (List.getElem?_eq_some_iff.mp hi).1
      have herase : (s.sends.eraseIdx i).length + 1 = s.sends.length := by
        rw [List.length_eraseIdx_of_lt hlt]
        omega
      simp only [hi] at h
      cases bSuccess with
      | true =>
          simp only [if_true, Option.some.injEq] at h
          subst h
          refine ⟨⟨rfl, rfl⟩, ?_⟩
          have hpc : (s.pc t).isCallback = false := by rw [ht]; rfl
          have hheld : ({ s with sends := s.sends.eraseIdx i }.goto t (.cbLock n)).heldRefs =
              s.heldRefs := by
            refine Eq.trans (heldRefs_enter hpc rfl) ?_
            simp only [heldRefs]
            omega
          exact .of_eq hheld
      | false =>
          simp only [Bool.false_eq_true, if_false, Option.some.injEq] at h
          subst h
          refine ⟨⟨rfl, rfl⟩, ?_⟩
          have hheld : (s.sends.eraseIdx i).length + tally SendPc.isCallback s.pc + 1 =
              s.heldRefs := by
            simp only [heldRefs]
            omega
          exact .of_eq hheld

/-- Every step of `Write`, `WriteCallback` and the completions. -/
theorem sendStep_refs {a : SendAct ι} (hclose : a ≠ .close)
    (hcreate : ∀ newId newSocket addr port, a ≠ .create newId newSocket addr port)
    (h : sendStep s a = some s') : RefsOk s s' a.lost := by
  cases a with
  | callWrite t p data =>
      simp only [sendStep] at h
      split at h
      · rename_i hen
        rw [Option.some.injEq] at h
        subst h
        exact callWrite_refs hen.1
      · exact absurd h (by simp)
  | lock t =>
      simp only [sendStep] at h
      split at h
      · rename_i p ht
        exact writeRegion_refs ht h
      · rename_i n ht
        exact writeCallbackRegion_refs ht h
      · exact absurd h (by simp)
  | send t ok => exact sendRegion_refs h
  | free t next => exact freeRegion_refs h
  | complete t i bSuccess n =>
      simp only [sendStep] at h
      split at h
      · rename_i ht
        have hrefs := complete_refs ht h
        cases bSuccess with
        | true => exact hrefs
        | false => exact hrefs
      · exact absurd h (by simp)
  | close => exact absurd rfl hclose
  | create newId newSocket addr port => exact absurd rfl (hcreate newId newSocket addr port)

end SendSide

namespace SlotLife

/-- The ledger: the slot's counters are its one reference from the constructor, those
held, one more for each failed send and one less for each close without a failed
read. Inside a step they may be `surplus` more, which the step's `Release` takes. -/
structure Ledger (surplus : ℕ) (s : SlotLife ι) : Prop where
  counted : ∃ n, s.side.sock.toBGIOObject.Counted 0 n ∧
    n + s.otherCloses = 1 + s.failedSends + s.held + surplus
  /-- The handle is valid along a chain of reads. -/
  handle : s.side.sock.hSocket.isSome = true ↔ s.chain ≠ .idle
  used : s.side.sock.bitIs socketBitNotUsed = true → s.chain = .idle

variable {s s' : SlotLife ι} {d : ℕ}

omit [DecidableEq ι] in
/-- A slot that is not deleted has a reference. -/
theorem Ledger.pos (h : Ledger d s) (halive : s.side.sock.freed = false) :
    ∃ n, 0 < n ∧ s.side.sock.toBGIOObject.Counted 0 n ∧
      n + s.otherCloses = 1 + s.failedSends + s.held + d := by
  obtain ⟨n, hn, heq⟩ := h.counted
  refine ⟨n, ?_, hn, heq⟩
  by_contra hzero
  have hfreed := hn.freed_iff.mpr (by omega)
  rw [halive] at hfreed
  exact absurd hfreed (by simp)

/-- The steps of the send side. -/
theorem Ledger.sideStep {a : SendAct ι} (h : Ledger d s) (halive : s.side.sock.freed = false)
    (hs : s.sideStep a = some s') : Ledger d s' := by
  have key : a ≠ .close →
      (∀ newId newSocket addr port, a ≠ .create newId newSocket addr port) →
      ((sendStep s.side a).map fun side =>
        { s with side := side, failedSends := s.failedSends + a.lost }) = some s' →
      Ledger d s' := by
    intro hclose hcreate hs
    obtain ⟨side, hside, rfl⟩ := Option.map_eq_some_iff.mp hs
    obtain ⟨n, hpos, hn, heq⟩ := h.pos halive
    obtain ⟨hsame, hstep⟩ := SendSide.sendStep_refs hclose hcreate hside
    obtain ⟨n', hn', heq'⟩ := hstep.counted hn hpos
    refine ⟨⟨n', hn', ?_⟩, ?_, ?_⟩
    · simp only [held] at heq ⊢
      omega
    · simp only [hsame.hSocket]
      exact h.handle
    · simp only [BGTestSocket.bitIs, hsame.nBit]
      exact h.used
  cases a with
  | close => exact absurd hs (by simp [SlotLife.sideStep])
  | create newId newSocket addr port => exact absurd hs (by simp [SlotLife.sideStep])
  | callWrite t p data => exact key (by simp) (by simp) hs
  | lock t => exact key (by simp) (by simp) hs
  | send t ok => exact key (by simp) (by simp) hs
  | free t next => exact key (by simp) (by simp) hs
  | complete t i bSuccess n => exact key (by simp) (by simp) hs

omit [DecidableEq ι] in
/-- `AddRef` -/
theorem Ledger.addRef (h : Ledger d s) (halive : s.side.sock.freed = false) :
    Ledger (d + 1) (s.setSock s.side.sock.addRef) := by
  obtain ⟨n, hpos, hn, heq⟩ := h.pos halive
  refine ⟨⟨n + 1, hn.addRef_general (by omega), ?_⟩, h.handle, h.used⟩
  change n + 1 + s.otherCloses = 1 + s.failedSends + s.held + (d + 1)
  omega

omit [DecidableEq ι] in
/-- A `Release` is put off. -/
theorem Ledger.releaseLater (h : Ledger (d + 1) s) : Ledger d s.releaseLater := by
  obtain ⟨n, hn, heq⟩ := h.counted
  refine ⟨⟨n, hn, ?_⟩, h.handle, h.used⟩
  simp only [held, SlotLife.releaseLater] at heq ⊢
  omega

omit [DecidableEq ι] in
/-- A `Release` that was put off is made. -/
theorem Ledger.release (h : Ledger d s) (halive : s.side.sock.freed = false) (hdue : 0 < s.due) :
    Ledger d { s.setSock s.side.sock.release with due := s.due - 1 } := by
  obtain ⟨n, hpos, hn, heq⟩ := h.pos halive
  obtain ⟨k, rfl⟩ := Nat.exists_eq_add_of_lt hpos
  rw [Nat.zero_add] at hn
  refine ⟨⟨k, hn.release_general, ?_⟩, h.handle, h.used⟩
  simp only [held, setSock, SendSide.heldRefs] at heq ⊢
  omega

omit [DecidableEq ι] in
/-- The chain of reads goes on. -/
theorem Ledger.chain (h : Ledger d s) {c : ReadChain} (hchain : s.chain ≠ .idle)
    (hc : c ≠ .idle) : Ledger d { s with chain := c } := by
  obtain ⟨n, hn, heq⟩ := h.counted
  refine ⟨⟨n, hn, ?_⟩, ?_, fun hbit => absurd (h.used hbit) hchain⟩
  · simpa only [held, ReadChain.refs_of_ne hchain, ReadChain.refs_of_ne hc] using heq
  · exact ⟨fun _ => hc, fun _ => h.handle.mpr hchain⟩

omit [Fintype ι] [DecidableEq ι] in
theorem closeHandle_eq {sock : BGTestSocket} :
    sock.closeHandle.toBGIOObject = sock.toBGIOObject := by
  simp only [BGTestSocket.closeHandle]
  cases sock.hSocket with
  | none => rfl
  | some hSocket => rfl

omit [DecidableEq ι] in
/-- The chain of reads ends in `Close`: its reference becomes the `Release` of `Close`. -/
theorem Ledger.endChain (h : Ledger d s) (hchain : s.chain ≠ .idle) (failed : Bool) :
    Ledger (if failed then d else d + 1) (s.endChain failed) := by
  obtain ⟨hSocket, hsome⟩ := Option.isSome_iff_exists.mp (h.handle.mpr hchain)
  obtain ⟨n, hn, heq⟩ := h.counted
  have hclose : s.close = { s.setSock s.side.sock.closeHandle with due := s.due + 1 } := by
    simp only [close, hsome]
  simp only [held, ReadChain.refs_of_ne hchain] at heq
  refine ⟨⟨n, ?_, ?_⟩, ?_, fun _ => rfl⟩
  · simpa only [SlotLife.endChain, hclose, setSock, closeHandle_eq] using hn
  · simp only [SlotLife.endChain, hclose, setSock, held, SendSide.heldRefs, ReadChain.refs] at heq ⊢
    cases failed <;> simp only [Bool.false_eq_true, if_true, if_false] <;> omega
  · simp only [SlotLife.endChain, hclose, setSock, BGTestSocket.hSocket_closeHandle]
    decide

omit [DecidableEq ι] in
/-- `Read` at the end of a read callback or of `Initialize`. -/
theorem Ledger.read (h : Ledger d s) (halive : s.side.sock.freed = false)
    (hchain : s.chain ≠ .idle) (ok : Bool) : Ledger (d + 1) (s.read ok) := by
  have href := h.addRef halive
  have hchain' : (s.setSock s.side.sock.addRef).chain ≠ .idle := hchain
  cases ok with
  | true => exact href.chain hchain' (by decide)
  | false => exact href.endChain hchain' true

omit [DecidableEq ι] in
/-- `CreateSocket` tries the slot: a chain of reads begins only in a closed one. -/
theorem Ledger.create (h : Ledger d s) (halive : s.side.sock.freed = false) (newId : ℕ)
    (newSocket : Handle) (addr port : ℕ) : Ledger d (s.create newId newSocket addr port) := by
  obtain ⟨n, hpos, hn, heq⟩ := h.pos halive
  have hsock : (s.side.create newId newSocket addr port).sock =
      (s.side.sock.claim newId (some newSocket) addr port).2 := by rw [SendSide.create_eq]
  have hheld : (s.side.create newId newSocket addr port).heldRefs = s.side.heldRefs := by
    rw [SendSide.create_eq]
    rfl
  by_cases htaken : (s.side.sock.claim newId (some newSocket) addr port).1 = .taken
  · obtain ⟨hfree, hused, hsocket, hobj⟩ := BGTestSocket.claim_taken htaken
    have hidle := h.used hfree
    have hchain : (s.create newId newSocket addr port).chain = .accepted := if_pos htaken
    refine ⟨⟨n + 1, ?_, ?_⟩, ?_, fun hbit => ?_⟩
    · simpa only [SlotLife.create, hsock, hobj] using hn.addRef_general (by omega)
    · simp only [held, hchain, hidle, ReadChain.refs] at heq ⊢
      simp only [SlotLife.create, hheld]
      omega
    · rw [hchain]
      simp [SlotLife.create, hsock, hsocket]
    · simp only [SlotLife.create, hsock, hused] at hbit
      exact absurd hbit (by decide)
  · obtain ⟨hobj, hsocket, hbits⟩ := BGTestSocket.claim_not_taken htaken
    have hchain : (s.create newId newSocket addr port).chain = s.chain := if_neg htaken
    refine ⟨⟨n, ?_, ?_⟩, ?_, fun hbit => ?_⟩
    · simpa only [SlotLife.create, hsock, hobj] using hn
    · simp only [held, hchain] at heq ⊢
      simp only [SlotLife.create, hheld]
      omega
    · rw [hchain]
      simp only [SlotLife.create, hsock, hsocket]
      exact h.handle
    · rw [hchain]
      simp only [SlotLife.create, hsock] at hbit
      exact h.used (hbits hbit)

omit [Fintype ι] in
/-- The machine ends when the slot is deleted. -/
theorem alive_of_lifeStep {a : LifeAct ι} (h : lifeStep s a = some s') :
    s.side.sock.freed = false := by
  by_contra hfreed
  rw [Bool.not_eq_false] at hfreed
  simp [lifeStep, hfreed] at h

/-- Every step keeps the ledger. -/
theorem Ledger.step {a : LifeAct ι} (h : Ledger 0 s) (hs : lifeStep s a = some s') :
    Ledger 0 s' := by
  have halive := alive_of_lifeStep hs
  simp only [lifeStep, halive, Bool.false_eq_true, if_false] at hs
  cases a with
  | side a => exact h.sideStep halive hs
  | create newId newSocket addr port =>
      rw [Option.some.injEq] at hs
      exact hs ▸ h.create halive newId newSocket addr port
  | initSocket added ok =>
      obtain ⟨hchain, ⟨⟩⟩ := Option.ite_none_right_eq_some.mp hs
      have hne : s.chain ≠ .idle := by rw [hchain]; decide
      cases added with
      | true => exact (h.read halive hne ok).releaseLater
      | false => exact (h.endChain hne false).releaseLater
  | readFailed =>
      obtain ⟨hchain, ⟨⟩⟩ := Option.ite_none_right_eq_some.mp hs
      exact h.endChain (by rw [hchain]; decide) true
  | readDone n =>
      obtain ⟨hchain, ⟨⟩⟩ := Option.ite_none_right_eq_some.mp hs
      have hne : s.chain ≠ .idle := by rw [hchain]; decide
      simp only [readCallback]
      split
      · exact (h.endChain hne false).releaseLater
      · split
        · exact (h.endChain hne false).releaseLater
        · exact h.chain hne (by decide)
  | onReadEnd e =>
      obtain ⟨hchain, ⟨⟩⟩ := Option.ite_none_right_eq_some.mp hs
      have hne : s.chain ≠ .idle := by rw [hchain]; decide
      cases e with
      | read ok => exact (h.read halive hne ok).releaseLater
      | framing => exact (h.endChain hne false).releaseLater
  | release =>
      obtain ⟨hdue, ⟨⟩⟩ := Option.ite_none_right_eq_some.mp hs
      exact h.release halive hdue

omit [DecidableEq ι] in
/-- The ledger holds of a slot that `BGTestServer::Initialize` leaves: `AddRef` has
counted on a copy, and the slot has the reference of its constructor only. -/
theorem ledger_start {heap heap' : Heap} {n : ℕ} {sock : BGTestSocket}
    (hsock : sock ∈ (Server.construct heap n).initializeSlots.arrSocket) :
    Ledger 0 (.start ι heap' sock) := by
  rw [(initializeSlots_spec heap n).1, List.mem_map] at hsock
  obtain ⟨p, -, rfl⟩ := hsock
  refine ⟨⟨1, BGIOObject.counted_new, ?_⟩, ?_, fun _ => rfl⟩
  · simp [held, start, SendSide.heldRefs, SendSide.start, ReadChain.refs, SendPc.isCallback]
  · simp [start, BGTestSocket.new]

omit [DecidableEq ι] in
/-- In a settled slot nothing is held. -/
theorem Settled.held_eq (h : s.Settled) : s.held = 0 := by
  have hzero : tally SendPc.isCallback s.side.pc = 0 := tally_eq_zero.mpr h.callbacks
  simp only [held, h.due, h.chain, SendSide.heldRefs, h.sends, hzero]
  rfl

/-- The references balance between two settled states `q₁` and `q₂` of a slot. -/
structure Balanced (q₁ q₂ : SlotLife ι) : Prop where
  nRef : q₂.side.sock.nRef = q₁.side.sock.nRef
  nGeneralRef : q₂.side.sock.nGeneralRef = q₁.side.sock.nGeneralRef
  alive : ∀ s, Reaches lifeStep Always q₁ s → Reaches lifeStep Always s q₂ →
    0 < s.side.sock.nRef ∧ s.side.sock.freed = false

end SlotLife

/-- **When the references of a slot balance**: over any connections, exactly if as
many sends have completed with a failure as connections were closed by something
else than a failed read. -/
theorem refs_balanced_iff {heap heap' : Heap} {n : ℕ} {sock : BGTestSocket}
    (hsock : sock ∈ (Server.construct heap n).initializeSlots.arrSocket) {q₁ q₂ : SlotLife ι}
    (h₁ : Reaches lifeStep Always (.start ι heap' sock) q₁) (hq₁ : q₁.Settled)
    (halive : q₁.side.sock.freed = false) (h₂ : Reaches lifeStep Always q₁ q₂)
    (hq₂ : q₂.Settled) :
    q₁.Balanced q₂ ↔
      q₁.otherCloses + q₂.failedSends = q₂.otherCloses + q₁.failedSends := by
  have hledger₁ : SlotLife.Ledger 0 q₁ :=
    h₁.invariant _ (SlotLife.ledger_start hsock) fun _ _ _ hl _ hs => hl.step hs
  have hledger : ∀ {s}, Reaches lifeStep Always q₁ s → SlotLife.Ledger 0 s :=
    fun hr => hr.invariant _ hledger₁ fun _ _ _ hl _ hs => hl.step hs
  obtain ⟨n₁, hpos, hn₁, heq₁⟩ := hledger₁.pos halive
  obtain ⟨n₂, hn₂, heq₂⟩ := (hledger h₂).counted
  have hsum₁ := hn₁.sum_eq
  have hsum₂ := hn₂.sum_eq
  have hgeneral₁ := hn₁.general_eq
  have hgeneral₂ := hn₂.general_eq
  rw [hq₁.held_eq] at heq₁
  rw [hq₂.held_eq] at heq₂
  constructor
  · intro hbal
    have := hbal.nRef
    omega
  · intro hcount
    refine ⟨by omega, by omega, fun s hs hs₂ => ?_⟩
    have hfreed : s.side.sock.freed = false := by
      rcases hs₂.eq_or_step with rfl | ⟨a, u, hstep⟩
      · exact hn₂.alive (by omega)
      · exact SlotLife.alive_of_lifeStep hstep
    obtain ⟨k, hk, hcounted, -⟩ := (hledger hs).pos hfreed
    have := hcounted.sum_eq
    exact ⟨by omega, hfreed⟩

/-- A connection that a failed read ends. -/
def failedReadRun : List (LifeAct Unit) :=
  [.create 0 1 0 0, .initSocket true true, .release, .readFailed, .release]

theorem refs_balanced_failedRead :
    ∃ q, runAll lifeStep (.start Unit (fun _ => .blank) (.new 0)) failedReadRun = some q ∧
      (SlotLife.start Unit (fun _ => .blank) (.new 0)).Balanced q := by
  have hsock : BGTestSocket.new 0 ∈
      (Server.construct (fun _ => .blank) 1).initializeSlots.arrSocket := List.mem_cons_self
  obtain ⟨q, hrun, hsettled, hcount⟩ :
      ∃ q, runAll lifeStep (.start Unit (fun _ => .blank) (.new 0)) failedReadRun = some q ∧
        q.Settled ∧ 0 + q.failedSends = q.otherCloses + 0 :=
    ⟨_, rfl, ⟨rfl, rfl, rfl, fun _ => rfl⟩, rfl⟩
  refine ⟨q, hrun, ?_⟩
  exact (refs_balanced_iff hsock .refl ⟨rfl, rfl, rfl, fun _ => rfl⟩ rfl
    (.always_of_runAll hrun) hsettled).mpr hcount

/-- A connection that its client closes: a read of zero bytes. -/
def zeroByteRun : List (LifeAct Unit) :=
  [.create 0 1 0 0, .initSocket true true, .release, .readDone 0, .release, .release]

/-- **A client that closes its connection deletes the slot.** -/
theorem not_refs_balanced :
    ¬ ∀ q : SlotLife Unit,
      Reaches lifeStep Always (.start Unit (fun _ => .blank) (.new 0)) q → q.Settled →
        (SlotLife.start Unit (fun _ => .blank) (.new 0)).Balanced q := by
  intro h
  obtain ⟨q, hrun, hsettled, hfreed⟩ :
      ∃ q, runAll lifeStep (.start Unit (fun _ => .blank) (.new 0)) zeroByteRun = some q ∧
        q.Settled ∧ q.side.sock.freed = true :=
    ⟨_, rfl, ⟨rfl, rfl, rfl, fun _ => rfl⟩, rfl⟩
  have hreach := Reaches.always_of_runAll hrun
  have halive := ((h q hreach hsettled).alive q hreach .refl).2
  rw [hfreed] at halive
  exact absurd halive (by decide)

end BGIocpServer
