import BGIocpServer.SendSteps

/-!
# The locked regions, statement by statement

`Write` and `WriteCallback` with the statements between `m_lock.Enter()` and `m_lock.Leave()` as
steps of their own. Whoever does not want the lock goes on in between: `Alloc` and `Free`, the
completion port, `Close`, and the `WSASend` of a thread that has left its region, which looks at
`m_pFirstBuf` without the lock.

## Main definitions

* `RegionPc`, `regionNext`: the statements.
* `RegionSide`, `RegionAct`, `regionStep`: the machine.

## Main results

* `region_alone`: undisturbed, the statements of a region come to what the region comes to.
-/

namespace BGIocpServer
open Kit

/-- The statement that the thread in the region comes to. -/
inductive RegionPc
  /-- `Write`, at `m_nPendingWrite += pBuffer->m_dwSize`. -/
  | writeAdd (pBuffer : Ptr)
  /-- At the tests of `m_pLastBuf`. -/
  | writeTest (pBuffer : Ptr)
  /-- At `m_pLastBuf = pBuffer`, the queue being empty. -/
  | setLast (pBuffer : Ptr)
  /-- At the assignment to `m_pFirstBuf` of the same statement. -/
  | setFirst (pBuffer : Ptr)
  /-- At `memcpy`. -/
  | copy (pBuffer : Ptr)
  /-- At `m_pLastBuf->m_dwSize += pBuffer->m_dwSize`. -/
  | grow (pBuffer : Ptr)
  /-- At `m_pLastBuf->m_pNext = pBuffer`. -/
  | link (pBuffer : Ptr)
  /-- At `m_pLastBuf = pBuffer` behind it. -/
  | move (pBuffer : Ptr)
  /-- At `m_lock.Leave()`. -/
  | writeLeave (e : Enqueued) (pBuffer : Ptr)
  /-- `WriteCallback`, at the test of `dwTransferred`. -/
  | cbTest (dwTransferred : ℕ)
  /-- At `m_nPendingWrite -= m_pFirstBuf->m_dwSize`. -/
  | cbSubtract (dwTransferred : ℕ)
  /-- At `pFirstBuf = m_pFirstBuf`. -/
  | cbTake (dwTransferred : ℕ)
  /-- At `m_pFirstBuf = m_pFirstBuf->m_pNext` and its test. -/
  | cbNext (dwTransferred : ℕ) (pFirstBuf : Ptr)
  /-- At `m_pLastBuf = nullptr`. -/
  | cbClear (dwTransferred : ℕ) (pFirstBuf : Ptr)
  /-- At `m_lock.Leave()`. -/
  | cbLeave (dwTransferred : ℕ) (d : Dequeued)

/-- The thread is at `memcpy`. -/
def RegionPc.copies : RegionPc → Bool
  | .copy _ => true
  | _ => false

/-- The send side, and who is in its region. -/
structure RegionSide (ι : Type) where
  side : SendSide ι
  region : Option (ι × RegionPc)

/-- The steps. -/
inductive RegionAct (ι : Type)
  /-- `m_lock.Enter()` returns. -/
  | enter (t : ι)
  /-- The next statement of the thread in the region. -/
  | statement
  /-- A step that is in no region. -/
  | act (a : SendAct ι)

namespace SendSide
variable {ι : Type}

/-- Assignment to `m_nPendingWrite`. -/
def setPending (s : SendSide ι) (n : ℤ) : SendSide ι :=
  { s with sock := { s.sock with nPendingWrite := n } }

/-- Assignment to `m_pFirstBuf`. -/
def setFirst (s : SendSide ι) (p : Option Ptr) : SendSide ι :=
  { s with sock := { s.sock with pFirstBuf := p } }

/-- Assignment to `m_pLastBuf`. -/
def setLast (s : SendSide ι) (p : Option Ptr) : SendSide ι :=
  { s with sock := { s.sock with pLastBuf := p } }

/-- One statement of a region. -/
def regionNext (s : SendSide ι) : RegionPc → Option (SendSide ι × RegionPc)
  | .writeAdd p => some (s.setPending (s.sock.pendingAfter s.heap p), .writeTest p)
  | .writeTest p =>
      match s.sock.pLastBuf with
      | none => some (s, .setLast p)
      | some last =>
          if s.sock.pFirstBuf ≠ some last ∧
              ((s.heap last).dwSize + (s.heap p).dwSize) % 2 ^ 32 ≤ bufferSize then
            some (s, .copy p)
          else some (s, .link p)
  | .setLast p => some (s.setLast (some p), .setFirst p)
  | .setFirst p => some (s.setFirst (some p), .writeLeave .first p)
  | .copy p => s.sock.pLastBuf.bind fun last =>
      ((s.heap last).memcpy (s.heap last).dwSize (s.heap p).bytes).map fun b =>
        (s.setBuf last b, .grow p)
  | .grow p => s.sock.pLastBuf.map fun last =>
      (s.setBuf last { s.heap last with
        dwSize := ((s.heap last).dwSize + (s.heap p).dwSize) % 2 ^ 32 }, .writeLeave .coalesced p)
  | .link p => s.sock.pLastBuf.map fun last =>
      (s.setBuf last { s.heap last with pNext := some p }, .move p)
  | .move p => some (s.setLast (some p), .writeLeave .appended p)
  | .cbTest n => s.sock.pFirstBuf.map fun p =>
      (s, if n ≠ (s.heap p).dwSize then .cbLeave n .short else .cbSubtract n)
  | .cbSubtract n => s.sock.pFirstBuf.map fun p =>
      (s.setPending (toLong (s.sock.nPendingWrite - (s.heap p).dwSize)), .cbTake n)
  | .cbTake n => s.sock.pFirstBuf.map fun p => (s, .cbNext n p)
  | .cbNext n pFirstBuf => s.sock.pFirstBuf.map fun p =>
      (s.setFirst (s.heap p).pNext,
        if (s.heap p).pNext ≠ none then .cbLeave n (.more pFirstBuf) else .cbClear n pFirstBuf)
  | .cbClear n pFirstBuf => some (s.setLast none, .cbLeave n (.empty pFirstBuf))
  | .writeLeave _ _ | .cbLeave _ _ => none

variable [DecidableEq ι]

/-- The thread leaves the region of `Write`. -/
def leaveWrite (s : SendSide ι) (t : ι) (p : Ptr) (e : Enqueued) : SendSide ι :=
  let s := { s with written := record s.written (s.callConn t) (s.heap p).bytes }
  match e with
  | .first => s.goto t (.writeSend p)
  | .coalesced => s.goto t (.writeFree p)
  | .appended => s.goto t .idle

/-- The thread leaves the region of `WriteCallback`; on a short completion the whole call, with
the `Release` of `OnIOCallback`. -/
def leaveCallback (s : SendSide ι) (t : ι) : Dequeued → SendSide ι
  | .short => { s with sock := s.sock.release }.goto t .idle
  | .more p =>
      { s with completed := record s.completed s.conn (s.heap p).bytes }.goto t (.cbSend p)
  | .empty p =>
      { s with completed := record s.completed s.conn (s.heap p).bytes }.goto t (.cbFree p)

end SendSide

/-- `m_lock` is not needed, or free: `CreateSocket` takes it, too. -/
def SendAct.passes {ι : Type} (free : Bool) : SendAct ι → Bool
  | .lock _ => false
  | .create .. => free
  | .callWrite .. | .send .. | .free .. | .complete .. | .close => true

namespace RegionSide
variable {ι : Type} [DecidableEq ι]

/-- `m_lock.Enter()` of `Write` and `WriteCallback`. -/
def enter (f : RegionSide ι) (t : ι) : Option (RegionSide ι) :=
  if f.region = none then
    match f.side.pc t with
    | .writeLock p => some { f with region := some (t, .writeAdd p) }
    | .cbLock n => some { f with region := some (t, .cbTest n) }
    | _ => none
  else none

/-- The next statement of a region. -/
def statement (f : RegionSide ι) : Option (RegionSide ι) :=
  match f.region with
  | none => none
  | some (t, .writeLeave e p) => some ⟨f.side.leaveWrite t p e, none⟩
  | some (t, .cbLeave _ d) => some ⟨f.side.leaveCallback t d, none⟩
  | some (t, k) => (f.side.regionNext k).map fun (s, k) => ⟨s, some (t, k)⟩

end RegionSide

/-- One step. -/
def regionStep {ι : Type} [DecidableEq ι] (f : RegionSide ι) :
    RegionAct ι → Option (RegionSide ι)
  | .enter t => f.enter t
  | .statement => f.statement
  | .act a =>
      if a.passes f.region.isNone then (sendStep f.side a).map fun s => { f with side := s }
      else none

/-- A copy of the region stays inside `m_buffer`. -/
def SendSide.CopyFits {ι : Type} (s : SendSide ι) (p : Ptr) : Prop :=
  ∀ last ∈ s.sock.pLastBuf, (s.heap last).dwSize + (s.heap p).dwSize ≤ bgBufferSize

/-- The steps meet `SendOk`, where the copy is now a statement. -/
def RegionOk {ι : Type} [DecidableEq ι] (f : RegionSide ι) : RegionAct ι → Prop
  | .enter _ => True
  | .statement => ∀ t p, f.region = some (t, .copy p) → f.side.CopyFits p
  | .act a => SendOk False f.side a

/-! ## Undisturbed regions -/

section Alone
variable {ι : Type} [DecidableEq ι] {s s' : SendSide ι} {t : ι} {k k' : RegionPc} {p last : Ptr}
  {n : ℕ}

/-- A statement in front of `Leave`. -/
theorem statement_of_next (hnext : s.regionNext k = some (s', k')) :
    (⟨s, some (t, k)⟩ : RegionSide ι).statement = some ⟨s', some (t, k')⟩ := by
  cases k with
  | writeLeave e p => cases hnext
  | cbLeave n d => cases hnext
  | _ => simp only [RegionSide.statement, hnext, Option.map_some]

/-- One more statement. -/
theorem reaches_statement {f : RegionSide ι} (hnext : s.regionNext k = some (s', k'))
    (hfits : ∀ p, k = .copy p → s.CopyFits p)
    (hrest : Reaches regionStep RegionOk ⟨s', some (t, k')⟩ f) :
    Reaches regionStep RegionOk ⟨s, some (t, k)⟩ f := by
  have hok : RegionOk (⟨s, some (t, k)⟩ : RegionSide ι) .statement := by
    intro u p hregion
    rw [Option.some.injEq, Prod.mk.injEq] at hregion
    exact hfits p hregion.2
  exact (Reaches.refl.tail hok (statement_of_next hnext)).trans hrest

/-- One more statement, which is no copy. -/
theorem reaches_quiet {f : RegionSide ι} (hnext : s.regionNext k = some (s', k'))
    (hk : k.copies = false) (hrest : Reaches regionStep RegionOk ⟨s', some (t, k')⟩ f) :
    Reaches regionStep RegionOk ⟨s, some (t, k)⟩ f := by
  refine reaches_statement hnext (fun p hcopy => ?_) hrest
  rw [hcopy] at hk
  cases hk

/-- `Leave` of `Write`. -/
theorem reaches_leaveWrite {e : Enqueued} (h : s.leaveWrite t p e = s') :
    Reaches regionStep RegionOk ⟨s, some (t, .writeLeave e p)⟩ ⟨s', none⟩ :=
  .tail (a := .statement) .refl nofun (congrArg (fun s => some (⟨s, none⟩ : RegionSide ι)) h)

/-- `Leave` of `WriteCallback`. -/
theorem reaches_leaveCallback {d : Dequeued} (h : s.leaveCallback t d = s') :
    Reaches regionStep RegionOk ⟨s, some (t, .cbLeave n d)⟩ ⟨s', none⟩ :=
  .tail (a := .statement) .refl nofun (congrArg (fun s => some (⟨s, none⟩ : RegionSide ι)) h)

/-- The statements of `Write` for each end of its region. -/
theorem writePc_alone (hne : s.sock.pLastBuf ≠ some p)
    (hfits : ∀ last, s.sock.pLastBuf = some last → s.sock.pFirstBuf ≠ some last ∧
      ((s.heap last).dwSize + (s.heap p).dwSize) % 2 ^ 32 ≤ bufferSize → s.CopyFits p)
    (hregion : s.writeRegion t p = some s') :
    Reaches regionStep RegionOk ⟨s, some (t, .writeAdd p)⟩ ⟨s', none⟩ := by
  rw [SendSide.writeRegion] at hregion
  refine reaches_quiet rfl rfl ?_
  obtain ⟨u, hu⟩ : ∃ u, u = s.setPending (s.sock.pendingAfter s.heap p) := ⟨_, rfl⟩
  have hsock : u.sock.pLastBuf = s.sock.pLastBuf := by rw [hu]; rfl
  have hfirst : u.sock.pFirstBuf = s.sock.pFirstBuf := by rw [hu]; rfl
  have hheap : u.heap = s.heap := by rw [hu]; rfl
  rw [← hu]
  cases hlast : s.sock.pLastBuf with
  | none =>
      rw [enqueue_first hlast] at hregion
      have htest : u.regionNext (.writeTest p) = some (u, .setLast p) := by
        rw [SendSide.regionNext, hsock, hlast]
      refine reaches_quiet htest rfl (reaches_quiet rfl rfl
        (reaches_quiet rfl rfl (reaches_leaveWrite ?_)))
      rw [← Option.some.inj hregion, hu]
      rfl
  | some last =>
      have hpl : p ≠ last := fun heq => hne (hlast.trans (congrArg some heq.symm))
      by_cases hguard : s.sock.pFirstBuf ≠ some last ∧
          ((s.heap last).dwSize + (s.heap p).dwSize) % 2 ^ 32 ≤ bufferSize
      · have htest : u.regionNext (.writeTest p) = some (u, .copy p) := by
          rw [SendSide.regionNext, hsock, hlast, hfirst, hheap]
          exact if_pos hguard
        cases hcopy : (s.heap last).memcpy (s.heap last).dwSize (s.heap p).bytes with
        | none =>
            have hnone : s.sock.enqueue s.heap p = none := by
              simp only [BGTestSocket.enqueue, hlast, if_pos hguard, BGIOBuffer.coalesce, hcopy,
                Option.map_none]
            rw [hnone] at hregion
            cases hregion
        | some b =>
            have hc : (s.heap last).coalesce (s.heap p).bytes =
                some { b with dwSize := (b.dwSize + (s.heap p).dwSize) % 2 ^ 32 } := by
              rw [BGIOBuffer.coalesce, hcopy, Option.map_some, BGIOBuffer.length_bytes]
            rw [enqueue_coalesced hlast hguard hc] at hregion
            have hnext : u.regionNext (.copy p) = some (u.setBuf last b, .grow p) := by
              rw [SendSide.regionNext, hsock, hlast, hheap, Option.bind_some, hcopy]
              rfl
            have hbuf : (u.setBuf last b).heap last = b := Function.update_self _ _ _
            have hown : (u.setBuf last b).heap p = s.heap p := by
              rw [← hheap]
              exact Function.update_of_ne hpl _ _
            have hgrow : (u.setBuf last b).regionNext (.grow p) =
                some ((u.setBuf last b).setBuf last
                  { b with dwSize := (b.dwSize + (s.heap p).dwSize) % 2 ^ 32 },
                  .writeLeave .coalesced p) := by
              have hlast' : (u.setBuf last b).sock.pLastBuf = some last := hsock.trans hlast
              rw [SendSide.regionNext, hlast', Option.map_some, hbuf, hown]
            have hok : ∀ q, RegionPc.copy p = .copy q → u.CopyFits q := by
              rintro q ⟨⟩
              rw [hu]
              exact hfits last hlast hguard
            refine reaches_quiet htest rfl (reaches_statement hnext hok
              (reaches_quiet hgrow rfl (reaches_leaveWrite ?_)))
            rw [← Option.some.inj hregion, hu]
            simp only [SendSide.leaveWrite, SendSide.setBuf, SendSide.setPending,
              Function.update_idem, Function.update_of_ne hpl]
      · have htest : u.regionNext (.writeTest p) = some (u, .link p) := by
          rw [SendSide.regionNext, hsock, hlast, hfirst, hheap]
          exact if_neg hguard
        have hlink : u.regionNext (.link p) =
            some (u.setBuf last { s.heap last with pNext := some p }, .move p) := by
          rw [SendSide.regionNext, hsock, hlast, hheap, Option.map_some]
        rw [enqueue_appended hlast hguard] at hregion
        refine reaches_quiet htest rfl (reaches_quiet hlink rfl
          (reaches_quiet rfl rfl (reaches_leaveWrite ?_)))
        rw [← Option.some.inj hregion, hu]
        simp only [SendSide.leaveWrite, SendSide.setBuf, SendSide.setPending, SendSide.setLast,
          Function.update_of_ne hpl]

/-- The statements of `WriteCallback`. -/
theorem callback_alone (hregion : s.writeCallbackRegion t n = some s') :
    Reaches regionStep RegionOk ⟨s, some (t, .cbTest n)⟩ ⟨s', none⟩ := by
  rw [SendSide.writeCallbackRegion] at hregion
  cases hfirst : s.sock.pFirstBuf with
  | none =>
      have hnone : s.sock.dequeue s.heap n = none := by simp only [BGTestSocket.dequeue, hfirst]
      rw [hnone] at hregion
      cases hregion
  | some p =>
      by_cases hn : n = (s.heap p).dwSize
      · have htest : s.regionNext (.cbTest n) = some (s, .cbSubtract n) := by
          rw [SendSide.regionNext, hfirst, Option.map_some, if_neg (not_not.mpr hn)]
        have hsub : s.regionNext (.cbSubtract n) =
            some (s.setPending (toLong (s.sock.nPendingWrite - (s.heap p).dwSize)), .cbTake n) := by
          rw [SendSide.regionNext, hfirst, Option.map_some]
        obtain ⟨u, hu⟩ : ∃ u, u = s.setPending (toLong (s.sock.nPendingWrite -
          (s.heap p).dwSize)) := ⟨_, rfl⟩
        have htake : u.regionNext (.cbTake n) = some (u, .cbNext n p) := by
          have hfirst' : u.sock.pFirstBuf = some p := by rw [hu]; exact hfirst
          rw [SendSide.regionNext, hfirst', Option.map_some]
        rw [← hu] at hsub
        cases hnext : (s.heap p).pNext with
        | some q =>
            rw [dequeue_more hfirst hn hnext] at hregion
            have hgo : u.regionNext (.cbNext n p) =
                some (u.setFirst (some q), .cbLeave n (.more p)) := by
              have hfirst' : u.sock.pFirstBuf = some p := by rw [hu]; exact hfirst
              have hheap : (u.heap p).pNext = some q := by rw [hu]; exact hnext
              rw [SendSide.regionNext, hfirst', Option.map_some, hheap]
              rfl
            refine reaches_quiet htest rfl (reaches_quiet hsub rfl
              (reaches_quiet htake rfl (reaches_quiet hgo rfl
                (reaches_leaveCallback ?_))))
            rw [← Option.some.inj hregion, hu]
            rfl
        | none =>
            rw [dequeue_empty hfirst hn hnext] at hregion
            have hgo : u.regionNext (.cbNext n p) = some (u.setFirst none, .cbClear n p) := by
              have hfirst' : u.sock.pFirstBuf = some p := by rw [hu]; exact hfirst
              have hheap : (u.heap p).pNext = none := by rw [hu]; exact hnext
              rw [SendSide.regionNext, hfirst', Option.map_some, hheap]
              rfl
            refine reaches_quiet htest rfl (reaches_quiet hsub rfl
              (reaches_quiet htake rfl (reaches_quiet hgo rfl
                (reaches_quiet rfl rfl (reaches_leaveCallback ?_)))))
            rw [← Option.some.inj hregion, hu]
            rfl
      · have htest : s.regionNext (.cbTest n) = some (s, .cbLeave n .short) := by
          rw [SendSide.regionNext, hfirst, Option.map_some, if_pos hn]
        rw [dequeue_short hfirst hn] at hregion
        refine reaches_quiet htest rfl (reaches_leaveCallback ?_)
        exact Option.some.inj hregion

/-- Undisturbed, the statements of a region come to what the region comes to. -/
theorem region_alone (hs : sendStep s (.lock t) = some s')
    (hne : ∀ p, s.pc t = .writeLock p → s.sock.pLastBuf ≠ some p)
    (hfits : ∀ p last, s.pc t = .writeLock p → s.sock.pLastBuf = some last →
      s.sock.pFirstBuf ≠ some last ∧
        ((s.heap last).dwSize + (s.heap p).dwSize) % 2 ^ 32 ≤ bufferSize → s.CopyFits p) :
    Reaches regionStep RegionOk ⟨s, none⟩ ⟨s', none⟩ := by
  rw [sendStep] at hs
  cases hpc : s.pc t with
  | writeLock p =>
      rw [hpc] at hs
      have henter : regionStep ⟨s, none⟩ (.enter t) = some ⟨s, some (t, .writeAdd p)⟩ := by
        simp only [regionStep, RegionSide.enter, hpc, if_true]
      exact (Reaches.refl.tail trivial henter).trans
        (writePc_alone (hne p hpc) (fun last => hfits p last hpc) hs)
  | cbLock n =>
      rw [hpc] at hs
      have henter : regionStep ⟨s, none⟩ (.enter t) = some ⟨s, some (t, .cbTest n)⟩ := by
        simp only [regionStep, RegionSide.enter, hpc, if_true]
      exact (Reaches.refl.tail trivial henter).trans (callback_alone hs)
  | idle => rw [hpc] at hs; cases hs
  | writeSend p => rw [hpc] at hs; cases hs
  | writeFree p => rw [hpc] at hs; cases hs
  | cbSend p => rw [hpc] at hs; cases hs
  | cbFree p => rw [hpc] at hs; cases hs

end Alone

end BGIocpServer
