import BGIocpServer.SendRegions
import BGIocpServer.Kit.Simulation

/-!
# The locked regions are atomic

While a thread is in its region, the others see an unfinished queue: a counter that already has
the bytes, a last buffer that is not linked yet. What they do does not depend on it, and does not
change what the region reads. So the region might as well happen at its `Leave`.

## Main definitions

* `RegionView`: what a region reads.
* `Overlay`, `SendSide.under`: what it has written so far.
* `RegionPc.Done`: what it has written when it comes to a statement.

## Main results

* `atomic_iff`: the runs with and without the statements of the regions.
* `sent_of_statements`: what is sent, at each statement.
-/

namespace BGIocpServer
open Kit

/-- What a region reads: where its thread is, the queue, and three buffers, its own and those at
the ends of the queue. -/
structure RegionView where
  pc : SendPc
  nPendingWrite : ℤ
  pFirstBuf : Option Ptr
  pLastBuf : Option Ptr
  own : BGIOBuffer
  first : BGIOBuffer
  last : BGIOBuffer

/-- What a region writes. -/
structure Overlay where
  buf : Option (Ptr × BGIOBuffer)
  nPendingWrite : ℤ
  pFirstBuf : Option Ptr
  pLastBuf : Option Ptr

namespace RegionView

/-- Nothing is written yet. -/
def unchanged (v : RegionView) : Overlay := ⟨none, v.nPendingWrite, v.pFirstBuf, v.pLastBuf⟩

/-- `m_nPendingWrite += pBuffer->m_dwSize` -/
def added (v : RegionView) : Overlay :=
  { v.unchanged with nPendingWrite := toLong (v.nPendingWrite + v.own.dwSize) }

/-- `m_nPendingWrite -= m_pFirstBuf->m_dwSize` -/
def subtracted (v : RegionView) : Overlay :=
  { v.unchanged with nPendingWrite := toLong (v.nPendingWrite - v.first.dwSize) }

/-- `Write` will copy its bytes behind those of the buffer at `last`. -/
def Coalesces (v : RegionView) (last : Ptr) : Prop :=
  v.pFirstBuf ≠ some last ∧ (v.last.dwSize + v.own.dwSize) % 2 ^ 32 ≤ bufferSize

end RegionView

/-- What the region has written when it comes to the statement, and which way it has come. -/
def RegionPc.Done (v : RegionView) (o : Overlay) : RegionPc → Prop
  | .writeAdd p => v.pc = .writeLock p ∧ o = v.unchanged
  | .writeTest p => v.pc = .writeLock p ∧ o = v.added
  | .setLast p => v.pc = .writeLock p ∧ v.pLastBuf = none ∧ o = v.added
  | .setFirst p => v.pc = .writeLock p ∧ v.pLastBuf = none ∧ o = { v.added with pLastBuf := some p }
  | .writeLeave .first p => v.pc = .writeLock p ∧ v.pLastBuf = none ∧
      o = { v.added with pFirstBuf := some p, pLastBuf := some p }
  | .copy p => v.pc = .writeLock p ∧ ∃ last, v.pLastBuf = some last ∧ v.Coalesces last ∧
      o = v.added
  | .grow p => v.pc = .writeLock p ∧ ∃ last b, v.pLastBuf = some last ∧ v.Coalesces last ∧
      v.last.dwSize + v.own.dwSize ≤ bgBufferSize ∧
      v.last.memcpy v.last.dwSize v.own.bytes = some b ∧ o = { v.added with buf := some (last, b) }
  | .writeLeave .coalesced p => v.pc = .writeLock p ∧ ∃ last b, v.pLastBuf = some last ∧
      v.Coalesces last ∧ v.last.dwSize + v.own.dwSize ≤ bgBufferSize ∧
      v.last.coalesce v.own.bytes = some b ∧ o = { v.added with buf := some (last, b) }
  | .link p => v.pc = .writeLock p ∧ ∃ last, v.pLastBuf = some last ∧ ¬ v.Coalesces last ∧
      o = v.added
  | .move p => v.pc = .writeLock p ∧ ∃ last, v.pLastBuf = some last ∧ ¬ v.Coalesces last ∧
      o = { v.added with buf := some (last, { v.last with pNext := some p }) }
  | .writeLeave .appended p => v.pc = .writeLock p ∧ ∃ last, v.pLastBuf = some last ∧
      ¬ v.Coalesces last ∧ o = { v.added with
        buf := some (last, { v.last with pNext := some p })
        pLastBuf := some p }
  | .cbTest n => v.pc = .cbLock n ∧ o = v.unchanged
  | .cbLeave n .short => v.pc = .cbLock n ∧ n ≠ v.first.dwSize ∧ (∃ p, v.pFirstBuf = some p) ∧
      o = v.unchanged
  | .cbSubtract n => v.pc = .cbLock n ∧ n = v.first.dwSize ∧ (∃ p, v.pFirstBuf = some p) ∧
      o = v.unchanged
  | .cbTake n => v.pc = .cbLock n ∧ n = v.first.dwSize ∧ (∃ p, v.pFirstBuf = some p) ∧
      o = v.subtracted
  | .cbNext n p => v.pc = .cbLock n ∧ n = v.first.dwSize ∧ v.pFirstBuf = some p ∧
      o = v.subtracted
  | .cbLeave n (.more p) => v.pc = .cbLock n ∧ n = v.first.dwSize ∧ v.pFirstBuf = some p ∧
      ∃ q, v.first.pNext = some q ∧ o = { v.subtracted with pFirstBuf := some q }
  | .cbClear n p => v.pc = .cbLock n ∧ n = v.first.dwSize ∧ v.pFirstBuf = some p ∧
      v.first.pNext = none ∧ o = { v.subtracted with pFirstBuf := none }
  | .cbLeave n (.empty p) => v.pc = .cbLock n ∧ n = v.first.dwSize ∧ v.pFirstBuf = some p ∧
      v.first.pNext = none ∧ o = { v.subtracted with pFirstBuf := none, pLastBuf := none }

namespace Overlay

/-- The buffers under the overlay. -/
def heap (o : Overlay) (heap : Heap) : Heap :=
  match o.buf with
  | none => heap
  | some (p, b) => Function.update heap p b

/-- The socket under the overlay. -/
def sock (o : Overlay) (sock : BGTestSocket) : BGTestSocket :=
  { sock with nPendingWrite := o.nPendingWrite, pFirstBuf := o.pFirstBuf, pLastBuf := o.pLastBuf }

end Overlay

namespace SendSide
variable {ι : Type}

/-- What a region of the thread reads. -/
def view (s : SendSide ι) (t : ι) : RegionView where
  pc := s.pc t
  nPendingWrite := s.sock.nPendingWrite
  pFirstBuf := s.sock.pFirstBuf
  pLastBuf := s.sock.pLastBuf
  own := (s.pc t).held.elim .blank s.heap
  first := s.sock.pFirstBuf.elim .blank s.heap
  last := s.sock.pLastBuf.elim .blank s.heap

/-- The send side with what a region has written. -/
def under (s : SendSide ι) (o : Overlay) : SendSide ι :=
  { s with heap := o.heap s.heap, sock := o.sock s.sock }

end SendSide

section View
variable {ι : Type} {s : SendSide ι} {t : ι} {p last : Ptr}

theorem own_of_writeLock (h : s.pc t = .writeLock p) : (s.view t).own = s.heap p := by
  rw [SendSide.view, h]
  rfl

theorem last_of_some (h : s.sock.pLastBuf = some last) : (s.view t).last = s.heap last := by
  simp only [SendSide.view, h]
  rfl

theorem first_of_some (h : s.sock.pFirstBuf = some p) : (s.view t).first = s.heap p := by
  simp only [SendSide.view, h]
  rfl

end View

/-! ## The statements of a region -/

section Own
variable {ι : Type} [Fintype ι] [DecidableEq ι] {s f' : SendSide ι} {t : ι} {o : Overlay}
  {k k' : RegionPc} {ids unsent : List Ptr} {p last : Ptr}

omit [DecidableEq ι] in
/-- A buffer in hand is not the last one of the queue. -/
theorem ne_last (h : SendInv False s ids unsent) (hpc : s.pc t = .writeLock p)
    (hlast : s.sock.pLastBuf = some last) : p ≠ last := by
  rintro rfl
  have hheld := h.owned.held t p (by rw [hpc]; rfl)
  exact hheld.2 (List.mem_of_getLast? (h.queue.last_eq.symm.trans hlast))

omit [DecidableEq ι] in
/-- The region goes on. -/
theorem done_next (h : SendInv False s ids unsent) (hd : k.Done (s.view t) o)
    (hfits : ∀ p, k = .copy p → (s.under o).CopyFits p)
    (hs : (s.under o).regionNext k = some (f', k')) :
    ∃ o', f' = s.under o' ∧ k'.Done (s.view t) o' := by
  cases k with
  | writeAdd p =>
      obtain ⟨hpc, rfl⟩ := hd
      obtain ⟨rfl, rfl⟩ := Prod.mk.inj (Option.some.inj hs)
      refine ⟨(s.view t).added, ?_, hpc, rfl⟩
      have hown := own_of_writeLock hpc
      rw [RegionView.added, hown]
      rfl
  | writeTest p =>
      obtain ⟨hpc, rfl⟩ := hd
      have hown := own_of_writeLock hpc
      rw [SendSide.regionNext] at hs
      cases hlast : s.sock.pLastBuf with
      | none =>
          have hlast' : (s.under (s.view t).added).sock.pLastBuf = none := hlast
          rw [hlast'] at hs
          obtain ⟨rfl, rfl⟩ := Prod.mk.inj (Option.some.inj hs)
          exact ⟨_, rfl, hpc, hlast, rfl⟩
      | some last =>
          have hlast' : (s.under (s.view t).added).sock.pLastBuf = some last := hlast
          have hiff : ((s.under (s.view t).added).sock.pFirstBuf ≠ some last ∧
              (((s.under (s.view t).added).heap last).dwSize +
                ((s.under (s.view t).added).heap p).dwSize) % 2 ^ 32 ≤ bufferSize) ↔
              (s.view t).Coalesces last := by
            rw [RegionView.Coalesces, last_of_some hlast, hown]
            exact Iff.rfl
          simp only [hlast'] at hs
          by_cases hguard : (s.view t).Coalesces last
          · rw [if_pos (hiff.mpr hguard)] at hs
            obtain ⟨rfl, rfl⟩ := Prod.mk.inj (Option.some.inj hs)
            exact ⟨_, rfl, hpc, last, hlast, hguard, rfl⟩
          · rw [if_neg fun hc => hguard (hiff.mp hc)] at hs
            obtain ⟨rfl, rfl⟩ := Prod.mk.inj (Option.some.inj hs)
            exact ⟨_, rfl, hpc, last, hlast, hguard, rfl⟩
  | setLast p =>
      obtain ⟨hpc, hlast, rfl⟩ := hd
      obtain ⟨rfl, rfl⟩ := Prod.mk.inj (Option.some.inj hs)
      exact ⟨{ (s.view t).added with pLastBuf := some p }, rfl, hpc, hlast, rfl⟩
  | setFirst p =>
      obtain ⟨hpc, hlast, rfl⟩ := hd
      obtain ⟨rfl, rfl⟩ := Prod.mk.inj (Option.some.inj hs)
      exact ⟨{ (s.view t).added with pFirstBuf := some p, pLastBuf := some p }, rfl, hpc, hlast,
        rfl⟩
  | copy p =>
      obtain ⟨hpc, last, hlast, hguard, rfl⟩ := hd
      have hlast' : (s.under (s.view t).added).sock.pLastBuf = some last := hlast
      have hfit := hfits p rfl last hlast'
      change (s.heap last).dwSize + (s.heap p).dwSize ≤ bgBufferSize at hfit
      rw [← last_of_some (t := t) hlast, ← own_of_writeLock hpc] at hfit
      rw [SendSide.regionNext, hlast', Option.bind_some, Option.map_eq_some_iff] at hs
      obtain ⟨b, hcopy, heq⟩ := hs
      obtain ⟨rfl, rfl⟩ := Prod.mk.inj heq
      change (s.heap last).memcpy (s.heap last).dwSize (s.heap p).bytes = some b at hcopy
      rw [← last_of_some (t := t) hlast, ← own_of_writeLock hpc] at hcopy
      exact ⟨{ (s.view t).added with buf := some (last, b) }, rfl, hpc, last, b, hlast, hguard,
        hfit, hcopy, rfl⟩
  | grow p =>
      obtain ⟨hpc, last, b, hlast, hguard, hfit, hcopy, rfl⟩ := hd
      have hbuf : (s.under { (s.view t).added with buf := some (last, b) }).heap last = b :=
        Function.update_self _ _ _
      have hown : (s.under { (s.view t).added with buf := some (last, b) }).heap p = s.heap p :=
        Function.update_of_ne (ne_last h hpc hlast) _ _
      have hlast' : (s.under { (s.view t).added with buf := some (last, b) }).sock.pLastBuf =
        some last := hlast
      rw [SendSide.regionNext, hlast', Option.map_some, hbuf, hown] at hs
      obtain ⟨rfl, rfl⟩ := Prod.mk.inj (Option.some.inj hs)
      refine ⟨{ (s.view t).added with buf := some (last,
        { b with dwSize := (b.dwSize + (s.heap p).dwSize) % 2 ^ 32 }) }, ?_, hpc, last, _, hlast,
        hguard, hfit, ?_, rfl⟩
      · simp only [SendSide.under, SendSide.setBuf, Overlay.heap, Overlay.sock,
          Function.update_idem]
      · rw [BGIOBuffer.coalesce, hcopy, Option.map_some, BGIOBuffer.length_bytes,
          own_of_writeLock hpc]
  | link p =>
      obtain ⟨hpc, last, hlast, hguard, rfl⟩ := hd
      have hlast' : (s.under (s.view t).added).sock.pLastBuf = some last := hlast
      rw [SendSide.regionNext, hlast'] at hs
      obtain ⟨rfl, rfl⟩ := Prod.mk.inj (Option.some.inj hs)
      refine ⟨{ (s.view t).added with
        buf := some (last, { (s.view t).last with pNext := some p }) },
        ?_, hpc, last, hlast, hguard, rfl⟩
      rw [last_of_some hlast]
      rfl
  | move p =>
      obtain ⟨hpc, last, hlast, hguard, rfl⟩ := hd
      obtain ⟨rfl, rfl⟩ := Prod.mk.inj (Option.some.inj hs)
      exact ⟨{ (s.view t).added with
        buf := some (last, { (s.view t).last with pNext := some p })
        pLastBuf := some p }, rfl, hpc, last, hlast, hguard, rfl⟩
  | writeLeave e p => cases hs
  | cbTest n =>
      obtain ⟨hpc, rfl⟩ := hd
      rw [SendSide.regionNext, Option.map_eq_some_iff] at hs
      obtain ⟨p, hfirst, heq⟩ := hs
      obtain ⟨rfl, rfl⟩ := Prod.mk.inj heq
      change s.sock.pFirstBuf = some p at hfirst
      have hbuf := first_of_some (t := t) hfirst
      refine ⟨_, rfl, ?_⟩
      change RegionPc.Done _ _ (if n ≠ (s.heap p).dwSize then _ else _)
      rw [← hbuf]
      split
      · rename_i hn
        exact ⟨hpc, hn, ⟨p, hfirst⟩, rfl⟩
      · rename_i hn
        exact ⟨hpc, not_not.mp hn, ⟨p, hfirst⟩, rfl⟩
  | cbSubtract n =>
      obtain ⟨hpc, hn, hsome, rfl⟩ := hd
      rw [SendSide.regionNext, Option.map_eq_some_iff] at hs
      obtain ⟨p, hfirst, heq⟩ := hs
      obtain ⟨rfl, rfl⟩ := Prod.mk.inj heq
      have hfirst' : s.sock.pFirstBuf = some p := hfirst
      refine ⟨(s.view t).subtracted, ?_, hpc, hn, hsome, rfl⟩
      rw [RegionView.subtracted, first_of_some hfirst']
      rfl
  | cbTake n =>
      obtain ⟨hpc, hn, hsome, rfl⟩ := hd
      rw [SendSide.regionNext, Option.map_eq_some_iff] at hs
      obtain ⟨p, hfirst, heq⟩ := hs
      obtain ⟨rfl, rfl⟩ := Prod.mk.inj heq
      exact ⟨_, rfl, hpc, hn, hfirst, rfl⟩
  | cbNext n p =>
      obtain ⟨hpc, hn, hfirst, rfl⟩ := hd
      have hfirst' : (s.under (s.view t).subtracted).sock.pFirstBuf = some p := hfirst
      rw [SendSide.regionNext, hfirst', Option.map_some] at hs
      obtain ⟨rfl, rfl⟩ := Prod.mk.inj (Option.some.inj hs)
      have hbuf := first_of_some (t := t) hfirst
      refine ⟨{ (s.view t).subtracted with pFirstBuf := (s.heap p).pNext }, rfl, ?_⟩
      change RegionPc.Done _ _ (if (s.heap p).pNext ≠ none then _ else _)
      rw [← hbuf]
      cases hnext : (s.view t).first.pNext with
      | none => exact ⟨hpc, hn, hfirst, hnext, rfl⟩
      | some q => exact ⟨hpc, hn, hfirst, q, hnext, rfl⟩
  | cbClear n p =>
      obtain ⟨hpc, hn, hfirst, hnext, rfl⟩ := hd
      obtain ⟨rfl, rfl⟩ := Prod.mk.inj (Option.some.inj hs)
      exact ⟨{ (s.view t).subtracted with pFirstBuf := none, pLastBuf := none }, rfl, hpc, hn,
        hfirst, hnext, rfl⟩
  | cbLeave n d => cases hs

/-- The region of `Write` is left with what it comes to without the others. -/
theorem writeRegion_of_done {e : Enqueued} (h : SendInv False s ids unsent)
    (hd : (RegionPc.writeLeave e p).Done (s.view t) o) :
    s.pc t = .writeLock p ∧ s.FitsBuffer p ∧
      s.writeRegion t p = some ((s.under o).leaveWrite t p e) := by
  cases e with
  | first =>
      obtain ⟨hpc, hlast, rfl⟩ := hd
      refine ⟨hpc, fun last hmem => absurd (hlast.symm.trans hmem) nofun, ?_⟩
      rw [SendSide.writeRegion, enqueue_first hlast, RegionView.added, own_of_writeLock hpc]
      rfl
  | coalesced =>
      obtain ⟨hpc, last, b, hlast, hguard, hfit, hc, rfl⟩ := hd
      have hne := ne_last h hpc hlast
      rw [RegionView.Coalesces, last_of_some hlast, own_of_writeLock hpc] at hguard
      rw [last_of_some hlast, own_of_writeLock hpc] at hfit hc
      refine ⟨hpc, fun last' hmem _ _ => ?_, ?_⟩
      · obtain rfl := Option.some.inj (hlast.symm.trans hmem)
        exact hfit
      · rw [SendSide.writeRegion, enqueue_coalesced hlast hguard hc, RegionView.added,
          own_of_writeLock hpc]
        simp only [SendSide.leaveWrite, SendSide.under, Overlay.heap, Overlay.sock,
          RegionView.unchanged, Function.update_of_ne hne]
        rfl
  | appended =>
      obtain ⟨hpc, last, hlast, hguard, rfl⟩ := hd
      have hne := ne_last h hpc hlast
      rw [RegionView.Coalesces, last_of_some hlast, own_of_writeLock hpc] at hguard
      refine ⟨hpc, fun last' hmem hfirst hsize => ?_, ?_⟩
      · obtain rfl := Option.some.inj (hlast.symm.trans hmem)
        refine absurd ⟨hfirst, ?_⟩ hguard
        rw [Nat.mod_eq_of_lt (Nat.lt_of_le_of_lt hsize (by decide))]
        exact hsize
      · rw [SendSide.writeRegion, enqueue_appended hlast hguard, RegionView.added,
          last_of_some hlast, own_of_writeLock hpc]
        simp only [SendSide.leaveWrite, SendSide.under, Overlay.heap, Overlay.sock,
          RegionView.unchanged, Function.update_of_ne hne]
        rfl

omit [Fintype ι] in
/-- The region of `WriteCallback`. -/
theorem callbackRegion_of_done {n : ℕ} {d : Dequeued}
    (hd : (RegionPc.cbLeave n d).Done (s.view t) o) :
    s.pc t = .cbLock n ∧ s.writeCallbackRegion t n = some ((s.under o).leaveCallback t d) := by
  cases d with
  | short =>
      obtain ⟨hpc, hn, ⟨p, hfirst⟩, rfl⟩ := hd
      rw [first_of_some hfirst] at hn
      refine ⟨hpc, ?_⟩
      rw [SendSide.writeCallbackRegion, dequeue_short hfirst hn]
      rfl
  | more p =>
      obtain ⟨hpc, hn, hfirst, q, hnext, rfl⟩ := hd
      rw [first_of_some hfirst] at hn hnext
      refine ⟨hpc, ?_⟩
      rw [SendSide.writeCallbackRegion, dequeue_more hfirst hn hnext, RegionView.subtracted,
        first_of_some hfirst]
      rfl
  | empty p =>
      obtain ⟨hpc, hn, hfirst, hnext, rfl⟩ := hd
      rw [first_of_some hfirst] at hn hnext
      refine ⟨hpc, ?_⟩
      rw [SendSide.writeCallbackRegion, dequeue_empty hfirst hn hnext, RegionView.subtracted,
        first_of_some hfirst]
      rfl

end Own

/-! ## The other threads -/

/-- What the others may see of the region. -/
structure Overlay.Hidden (o : Overlay) (v : RegionView) : Prop where
  locked : (∃ p, v.pc = .writeLock p) ∨ ∃ n, v.pc = .cbLock n
  /-- The buffer that is written is the last one, and what `WSASend` looks at is not changed if it
  is also the first. -/
  buf : ∀ p b, o.buf = some (p, b) → v.pLastBuf = some p ∧
    (v.pFirstBuf = some p → b.dwSize = v.last.dwSize ∧ b.bytes = v.last.bytes)
  first : (∃ p, v.pc = .writeLock p) → v.pLastBuf ≠ none → o.pFirstBuf = v.pFirstBuf

theorem hidden_of_done {v : RegionView} {o : Overlay} {k : RegionPc} (hd : k.Done v o) :
    o.Hidden v := by
  have hcb : ∀ n, v.pc = .cbLock n → ¬ ∃ p, v.pc = .writeLock p := by
    rintro n hn ⟨p, hp⟩
    cases hn.symm.trans hp
  cases k with
  | writeAdd p =>
      obtain ⟨hpc, rfl⟩ := hd
      exact ⟨.inl ⟨p, hpc⟩, nofun, fun _ _ => rfl⟩
  | writeTest p =>
      obtain ⟨hpc, rfl⟩ := hd
      exact ⟨.inl ⟨p, hpc⟩, nofun, fun _ _ => rfl⟩
  | setLast p =>
      obtain ⟨hpc, -, rfl⟩ := hd
      exact ⟨.inl ⟨p, hpc⟩, nofun, fun _ _ => rfl⟩
  | setFirst p =>
      obtain ⟨hpc, -, rfl⟩ := hd
      exact ⟨.inl ⟨p, hpc⟩, nofun, fun _ _ => rfl⟩
  | copy p =>
      obtain ⟨hpc, last, -, -, rfl⟩ := hd
      exact ⟨.inl ⟨p, hpc⟩, nofun, fun _ _ => rfl⟩
  | grow p =>
      obtain ⟨hpc, last, b, hlast, hguard, -, -, rfl⟩ := hd
      refine ⟨.inl ⟨p, hpc⟩, fun q c hbuf => ?_, fun _ _ => rfl⟩
      obtain ⟨rfl, rfl⟩ := Prod.mk.inj (Option.some.inj hbuf)
      exact ⟨hlast, fun hfirst => absurd hfirst hguard.1⟩
  | link p =>
      obtain ⟨hpc, last, -, -, rfl⟩ := hd
      exact ⟨.inl ⟨p, hpc⟩, nofun, fun _ _ => rfl⟩
  | move p =>
      obtain ⟨hpc, last, hlast, -, rfl⟩ := hd
      refine ⟨.inl ⟨p, hpc⟩, fun q c hbuf => ?_, fun _ _ => rfl⟩
      obtain ⟨rfl, rfl⟩ := Prod.mk.inj (Option.some.inj hbuf)
      exact ⟨hlast, fun _ => ⟨rfl, rfl⟩⟩
  | writeLeave e p =>
      cases e with
      | first =>
          obtain ⟨hpc, hlast, rfl⟩ := hd
          exact ⟨.inl ⟨p, hpc⟩, nofun, fun _ hne => absurd hlast hne⟩
      | coalesced =>
          obtain ⟨hpc, last, b, hlast, hguard, -, -, rfl⟩ := hd
          refine ⟨.inl ⟨p, hpc⟩, fun q c hbuf => ?_, fun _ _ => rfl⟩
          obtain ⟨rfl, rfl⟩ := Prod.mk.inj (Option.some.inj hbuf)
          exact ⟨hlast, fun hfirst => absurd hfirst hguard.1⟩
      | appended =>
          obtain ⟨hpc, last, hlast, -, rfl⟩ := hd
          refine ⟨.inl ⟨p, hpc⟩, fun q c hbuf => ?_, fun _ _ => rfl⟩
          obtain ⟨rfl, rfl⟩ := Prod.mk.inj (Option.some.inj hbuf)
          exact ⟨hlast, fun _ => ⟨rfl, rfl⟩⟩
  | cbTest n =>
      obtain ⟨hpc, rfl⟩ := hd
      exact ⟨.inr ⟨n, hpc⟩, nofun, fun _ _ => rfl⟩
  | cbSubtract n =>
      obtain ⟨hpc, -, -, rfl⟩ := hd
      exact ⟨.inr ⟨n, hpc⟩, nofun, fun _ _ => rfl⟩
  | cbTake n =>
      obtain ⟨hpc, -, -, rfl⟩ := hd
      exact ⟨.inr ⟨n, hpc⟩, nofun, fun _ _ => rfl⟩
  | cbNext n p =>
      obtain ⟨hpc, -, -, rfl⟩ := hd
      exact ⟨.inr ⟨n, hpc⟩, nofun, fun _ _ => rfl⟩
  | cbClear n p =>
      obtain ⟨hpc, -, -, -, rfl⟩ := hd
      exact ⟨.inr ⟨n, hpc⟩, nofun, fun hw => absurd hw (hcb n hpc)⟩
  | cbLeave n d =>
      cases d with
      | short =>
          obtain ⟨hpc, -, -, rfl⟩ := hd
          exact ⟨.inr ⟨n, hpc⟩, nofun, fun _ _ => rfl⟩
      | more p =>
          obtain ⟨hpc, -, -, q, -, rfl⟩ := hd
          exact ⟨.inr ⟨n, hpc⟩, nofun, fun hw => absurd hw (hcb n hpc)⟩
      | empty p =>
          obtain ⟨hpc, -, -, -, rfl⟩ := hd
          exact ⟨.inr ⟨n, hpc⟩, nofun, fun hw => absurd hw (hcb n hpc)⟩

section Others
variable {ι : Type} [Fintype ι] [DecidableEq ι] {s s' f' : SendSide ι} {t u : ι} {o : Overlay}
  {ids unsent : List Ptr} {p q : Ptr}

/-- A buffer that the region of the thread reads. -/
def SendSide.Guards (s : SendSide ι) (t : ι) (q : Ptr) : Prop :=
  (s.pc t).held = some q ∨ s.sock.pFirstBuf = some q ∨ s.sock.pLastBuf = some q

omit [DecidableEq ι] in
/-- It is not free, and no other thread has it. -/
theorem guards_spec (h : SendInv False s ids unsent) (hq : s.Guards t q) :
    s.live q = true ∧ ∀ u, u ≠ t → (s.pc u).held ≠ some q := by
  have hqueued : q ∈ ids → s.live q = true ∧ ∀ u, u ≠ t → (s.pc u).held ≠ some q :=
    fun hmem => ⟨h.owned.queued q hmem, fun u _ hu => (h.owned.held u q hu).2 hmem⟩
  rcases hq with hq | hq | hq
  · exact ⟨(h.owned.held t q hq).1, fun u hu => h.owned.held_ne hq hu⟩
  · exact hqueued (List.mem_of_head? (h.queue.first_eq.symm.trans hq))
  · exact hqueued (List.mem_of_getLast? (h.queue.last_eq.symm.trans hq))

omit [Fintype ι] [DecidableEq ι] in
/-- What the region reads stays the same. -/
theorem view_congr (hpc : s'.pc t = s.pc t) (hn : s'.sock.nPendingWrite = s.sock.nPendingWrite)
    (hf : s'.sock.pFirstBuf = s.sock.pFirstBuf) (hl : s'.sock.pLastBuf = s.sock.pLastBuf)
    (hheap : ∀ q, s.Guards t q → s'.heap q = s.heap q) : s'.view t = s.view t := by
  have helim : ∀ x : Option Ptr, (∀ q, x = some q → s.Guards t q) →
      x.elim .blank s'.heap = x.elim .blank s.heap := by
    intro x hx
    cases x with
    | none => rfl
    | some q => exact hheap q (hx q rfl)
  simp only [SendSide.view, hpc, hn, hf, hl]
  rw [helim _ fun q hq => .inl hq, helim _ fun q hq => .inr (.inl hq),
    helim _ fun q hq => .inr (.inr hq)]

omit [Fintype ι] [DecidableEq ι] in
/-- A buffer that the region does not write. -/
theorem under_heap (hne : ∀ b, o.buf ≠ some (p, b)) (s : SendSide ι) :
    (s.under o).heap p = s.heap p := by
  change o.heap s.heap p = s.heap p
  rw [Overlay.heap]
  cases hbuf : o.buf with
  | none => rfl
  | some qb =>
      obtain ⟨q, b⟩ := qb
      exact Function.update_of_ne (by rintro rfl; exact hne b hbuf) _ _

omit [Fintype ι] [DecidableEq ι] in
/-- An assignment to such a buffer. -/
theorem under_setBuf (hne : ∀ b, o.buf ≠ some (p, b)) (s : SendSide ι) (b : BGIOBuffer) :
    (s.under o).setBuf p b = (s.setBuf p b).under o := by
  have hheap : Function.update (o.heap s.heap) p b = o.heap (Function.update s.heap p b) := by
    rw [Overlay.heap, Overlay.heap]
    cases hbuf : o.buf with
    | none => rfl
    | some qc =>
        obtain ⟨q, c⟩ := qc
        exact Function.update_comm (by rintro rfl; exact hne c hbuf) _ _ _
  simp only [SendSide.under, SendSide.setBuf, hheap]

omit [Fintype ι] in
/-- `Write` is called. -/
theorem under_callWrite (hne : ∀ b, o.buf ≠ some (p, b)) (s : SendSide ι) (u : ι)
    (data : List UInt8) : (s.under o).callWrite u p data = (s.callWrite u p data).under o := by
  rw [SendSide.callWrite, SendSide.callWrite, under_heap hne, under_setBuf hne]
  split
  · rfl
  · split <;> rfl

omit [Fintype ι] [DecidableEq ι] in
/-- `WSASend` looks at the size and the bytes. -/
theorem under_wsaSend {ok : Bool} (hsize : ((s.under o).heap p).dwSize = (s.heap p).dwSize)
    (hbytes : ((s.under o).heap p).bytes = (s.heap p).bytes) :
    (s.under o).wsaSend p ok = (s.wsaSend p ok).map fun s => s.under o := by
  rw [SendSide.wsaSend, SendSide.wsaSend, hsize, hbytes]
  cases ok with
  | false => rfl
  | true =>
      cases hsome : s.sock.hSocket with
      | none => simp [SendSide.under, Overlay.sock, BGTestSocket.addRef, hsome]
      | some x => simp [SendSide.under, Overlay.sock, BGTestSocket.addRef, hsome]

omit [Fintype ι] [DecidableEq ι] in
/-- A `WSASend` that has been called does not touch the queue. -/
theorem wsaSend_fields {ok : Bool} (hs : s.wsaSend p ok = some s') :
    s'.pc = s.pc ∧ s'.heap = s.heap ∧ s'.sock.nPendingWrite = s.sock.nPendingWrite ∧
      s'.sock.pFirstBuf = s.sock.pFirstBuf ∧ s'.sock.pLastBuf = s.sock.pLastBuf := by
  rw [SendSide.wsaSend] at hs
  split at hs
  · rw [Option.ite_none_right_eq_some] at hs
    obtain rfl := Option.some.inj hs.2
    exact ⟨rfl, rfl, rfl, rfl, rfl⟩
  · obtain rfl := Option.some.inj hs
    exact ⟨rfl, rfl, rfl, rfl, rfl⟩

omit [DecidableEq ι] in
/-- A thread that is about to send has the first buffer. -/
theorem sends_first (h : SendInv False s ids unsent)
    (hu : s.pc u = .writeSend p ∨ ∃ q, s.pc u = .cbSend q ∧ s.sock.pFirstBuf = some p) :
    s.sock.pFirstBuf = some p ∧ (s.pc u).isToken = true := by
  rcases hu with hu | ⟨q, hu, hfirst⟩
  · have hok := h.pc_ok u
    rw [hu] at hok
    exact ⟨h.queue.first_eq.trans hok.1, by rw [hu]; rfl⟩
  · exact ⟨hfirst, by rw [hu]; rfl⟩

/-- What it looks at is not changed by a region. -/
theorem hidden_send (h : SendInv False s ids unsent) (ho : o.Hidden (s.view t)) (hut : u ≠ t)
    (hfirst : s.sock.pFirstBuf = some p) (htoken : (s.pc u).isToken = true) :
    o.pFirstBuf = some p ∧ ((s.under o).heap p).dwSize = (s.heap p).dwSize ∧
      ((s.under o).heap p).bytes = (s.heap p).bytes := by
  obtain ⟨hne, -, hsole⟩ := h.tokens.sole htoken
  have hwrite : ∃ q, (s.view t).pc = .writeLock q := by
    rcases ho.locked with hw | ⟨n, hcb⟩
    · exact hw
    · have hpc : s.pc t = .cbLock n := hcb
      have hnot := hsole t (Ne.symm hut)
      rw [hpc] at hnot
      cases hnot
  have hlast : (s.view t).pLastBuf ≠ none := by
    intro hnone
    exact hne (List.getLast?_eq_none_iff.mp (h.queue.last_eq.symm.trans hnone))
  refine ⟨(ho.first hwrite hlast).trans hfirst, ?_⟩
  by_cases hbuf : ∃ b, o.buf = some (p, b)
  · obtain ⟨b, hb⟩ := hbuf
    obtain ⟨hlast', hsame⟩ := ho.buf p b hb
    obtain ⟨hsize, hbytes⟩ := hsame hfirst
    have hheap : (s.under o).heap p = b := by
      change o.heap s.heap p = b
      rw [Overlay.heap, hb]
      exact Function.update_self _ _ _
    rw [hheap, hsize, hbytes, last_of_some hlast']
    exact ⟨rfl, rfl⟩
  · rw [under_heap (fun b hb => hbuf ⟨b, hb⟩)]
    exact ⟨rfl, rfl⟩

omit [Fintype ι] in
/-- `Write` is called with a buffer that the region does not read. -/
theorem callWrite_view {data : List UInt8} (hut : u ≠ t) (hp : ∀ q, s.Guards t q → q ≠ p) :
    (s.callWrite u p data).view t = s.view t := by
  have hpc : ∀ k, Function.update s.pc u k t = s.pc t := fun k =>
    Function.update_of_ne (Ne.symm hut) _ _
  have hheap : ∀ b q, s.Guards t q → Function.update s.heap p b q = s.heap q := fun b q hq =>
    Function.update_of_ne (hp q hq) _ _
  rw [SendSide.callWrite]
  split
  · exact view_congr (hpc _) rfl rfl rfl (hheap _)
  · split
    · exact view_congr (hpc _) rfl rfl rfl (hheap _)
    · exact view_congr (hpc _) rfl rfl rfl (hheap _)

omit [Fintype ι] in
/-- `Free`, under the overlay. -/
theorem under_freeRegion {next : Option Ptr} (hut : u ≠ t)
    (hne : ∀ p b, (s.pc u).held = some p → o.buf ≠ some (p, b))
    (hp : ∀ p, (s.pc u).held = some p → ∀ q, s.Guards t q → q ≠ p)
    (hs : (s.under o).freeRegion u next = some f') :
    ∃ s', s.freeRegion u next = some s' ∧ f' = s'.under o ∧ s'.view t = s.view t := by
  have hpc' : (s.under o).pc u = s.pc u := rfl
  rw [SendSide.freeRegion, hpc'] at hs
  rw [SendSide.freeRegion]
  cases hpc : s.pc u with
  | writeFree p =>
      have hheld : (s.pc u).held = some p := by rw [hpc]; rfl
      rw [hpc] at hs
      simp only [under_heap (fun b => hne p b hheld), under_setBuf (fun b => hne p b hheld)] at hs
      refine ⟨_, rfl, (Option.some.inj hs).symm, view_congr ?_ rfl rfl rfl fun q hq => ?_⟩
      · exact Function.update_of_ne (Ne.symm hut) _ _
      · exact Function.update_of_ne (hp p hheld q hq) _ _
  | cbFree p =>
      have hheld : (s.pc u).held = some p := by rw [hpc]; rfl
      rw [hpc] at hs
      simp only [under_heap (fun b => hne p b hheld), under_setBuf (fun b => hne p b hheld)] at hs
      refine ⟨_, rfl, (Option.some.inj hs).symm, view_congr ?_ rfl rfl rfl fun q hq => ?_⟩
      · exact Function.update_of_ne (Ne.symm hut) _ _
      · exact Function.update_of_ne (hp p hheld q hq) _ _
  | idle => rw [hpc] at hs; cases hs
  | writeLock p => rw [hpc] at hs; cases hs
  | writeSend p => rw [hpc] at hs; cases hs
  | cbLock n => rw [hpc] at hs; cases hs
  | cbSend p => rw [hpc] at hs; cases hs

/-- `WSASend`, under the overlay. -/
theorem under_sendRegion {ok : Bool} (h : SendInv False s ids unsent) (ho : o.Hidden (s.view t))
    (hut : u ≠ t) (hs : (s.under o).sendRegion u ok = some f') :
    ∃ s', s.sendRegion u ok = some s' ∧ f' = s'.under o ∧ s'.view t = s.view t := by
  have hpc' : (s.under o).pc u = s.pc u := rfl
  rw [SendSide.sendRegion, hpc'] at hs
  rw [SendSide.sendRegion]
  have hview : ∀ {p s' k}, s.wsaSend p ok = some s' → (s'.goto u k).view t = s.view t := by
    intro p s' k hsend
    obtain ⟨hpc, hheap, hn, hf, hl⟩ := wsaSend_fields hsend
    refine view_congr ?_ hn hf hl fun q _ => congrFun hheap q
    exact (Function.update_of_ne (Ne.symm hut) _ _).trans (congrFun hpc t)
  cases hpc : s.pc u with
  | writeSend p =>
      obtain ⟨hfirst, htoken⟩ := sends_first h (.inl hpc)
      obtain ⟨-, hsize, hbytes⟩ := hidden_send h ho hut hfirst htoken
      rw [hpc] at hs
      simp only [under_wsaSend hsize hbytes, Option.map_eq_some_iff] at hs
      obtain ⟨_, ⟨s', hsend, rfl⟩, rfl⟩ := hs
      exact ⟨_, by simp only [hsend]; rfl, rfl, hview hsend⟩
  | cbSend q =>
      cases hfirst : s.sock.pFirstBuf with
      | none =>
          have htoken : (s.pc u).isToken = true := by rw [hpc]; rfl
          have hnil := List.head?_eq_none_iff.mp (h.queue.first_eq.symm.trans hfirst)
          exact absurd hnil (h.tokens.sole htoken).1
      | some p =>
          obtain ⟨-, htoken⟩ := sends_first h (.inr ⟨q, hpc, hfirst⟩)
          obtain ⟨hunder, hsize, hbytes⟩ := hidden_send h ho hut hfirst htoken
          have hunder' : (s.under o).sock.pFirstBuf = some p := hunder
          rw [hpc] at hs
          simp only [hunder', under_wsaSend hsize hbytes, Option.map_eq_some_iff] at hs
          obtain ⟨_, ⟨s', hsend, rfl⟩, rfl⟩ := hs
          exact ⟨_, by simp only [hsend]; rfl, rfl, hview hsend⟩
  | idle => rw [hpc] at hs; cases hs
  | writeLock p => rw [hpc] at hs; cases hs
  | writeFree p => rw [hpc] at hs; cases hs
  | cbLock n => rw [hpc] at hs; cases hs
  | cbFree p => rw [hpc] at hs; cases hs

omit [Fintype ι] in
/-- A completion, under the overlay. -/
theorem under_complete {i n : ℕ} {bSuccess : Bool} (hut : u ≠ t)
    (hs : (s.under o).complete u i bSuccess n = some f') :
    ∃ s', s.complete u i bSuccess n = some s' ∧ f' = s'.under o ∧ s'.view t = s.view t := by
  have hsends : (s.under o).sends = s.sends := rfl
  rw [SendSide.complete, hsends] at hs
  rw [SendSide.complete]
  cases hsnd : s.sends[i]? with
  | none => rw [hsnd] at hs; cases hs
  | some snd =>
      rw [hsnd] at hs
      cases bSuccess with
      | true =>
          refine ⟨_, rfl, (Option.some.inj hs).symm, view_congr ?_ rfl rfl rfl fun _ _ => rfl⟩
          exact Function.update_of_ne (Ne.symm hut) _ _
      | false => exact ⟨_, rfl, (Option.some.inj hs).symm, rfl⟩

/-- What the others do does not depend on an unfinished region, and does not change what the
region reads. -/
theorem others_step (h : SendInv False s ids unsent) (ho : o.Hidden (s.view t)) {a : SendAct ι}
    (ha : a.passes false = true) (hs : sendStep (s.under o) a = some f') :
    ∃ s', sendStep s a = some s' ∧ f' = s'.under o ∧ s'.view t = s.view t := by
  have hlocked : (∃ p, s.pc t = .writeLock p) ∨ ∃ n, s.pc t = .cbLock n := ho.locked
  have hbuf : ∀ p b, o.buf = some (p, b) → s.Guards t p :=
    fun p b hb => .inr (.inr (ho.buf p b hb).1)
  cases a with
  | lock u => cases ha
  | create newId newSocket addr port => cases ha
  | callWrite u p data =>
      simp only [sendStep, Option.ite_none_right_eq_some] at hs
      obtain ⟨⟨hidle, hfree⟩, hs⟩ := hs
      have hidle' : s.pc u = .idle := hidle
      have hfree' : s.live p = false := hfree
      have hlive : ∀ q, s.Guards t q → q ≠ p := by
        rintro q hq rfl
        exact absurd ((guards_spec h hq).1.symm.trans hfree') (by decide)
      have hut : u ≠ t := by
        rintro rfl
        rcases hlocked with ⟨q, hpc⟩ | ⟨n, hpc⟩ <;> cases hpc.symm.trans hidle'
      rw [under_callWrite fun b hb => hlive p (hbuf p b hb) rfl] at hs
      exact ⟨_, if_pos ⟨hidle', hfree'⟩, (Option.some.inj hs).symm, callWrite_view hut hlive⟩
  | send u ok =>
      have hut : u ≠ t := by
        rintro rfl
        have hpc' : (s.under o).pc u = s.pc u := rfl
        rw [sendStep, SendSide.sendRegion, hpc'] at hs
        rcases hlocked with ⟨q, hpc⟩ | ⟨n, hpc⟩ <;> rw [hpc] at hs <;> cases hs
      exact under_sendRegion h ho hut hs
  | free u next =>
      have hut : u ≠ t := by
        rintro rfl
        have hpc' : (s.under o).pc u = s.pc u := rfl
        rw [sendStep, SendSide.freeRegion, hpc'] at hs
        rcases hlocked with ⟨q, hpc⟩ | ⟨n, hpc⟩ <;> rw [hpc] at hs <;> cases hs
      have hother : ∀ p, (s.pc u).held = some p → ∀ q, s.Guards t q → q ≠ p := by
        rintro p hp q hq rfl
        exact (guards_spec h hq).2 u hut hp
      exact under_freeRegion hut (fun p b hp hb => hother p hp p (hbuf p b hb) rfl) hother hs
  | complete u i bSuccess n =>
      simp only [sendStep, Option.ite_none_right_eq_some] at hs
      obtain ⟨hidle, hs⟩ := hs
      have hidle' : s.pc u = .idle := hidle
      have hut : u ≠ t := by
        rintro rfl
        rcases hlocked with ⟨q, hpc⟩ | ⟨n, hpc⟩ <;> cases hpc.symm.trans hidle'
      obtain ⟨s', hs', rfl, hview⟩ := under_complete hut hs
      exact ⟨s', (if_pos hidle').trans hs', rfl, hview⟩
  | close =>
      have hclose : (o.sock s.sock).close = o.sock s.sock.close := by
        cases hsome : s.sock.hSocket with
        | none => simp only [BGTestSocket.close, Overlay.sock, hsome]
        | some x =>
            simp only [BGTestSocket.close, BGTestSocket.closeHandle, Overlay.sock, hsome]
            rfl
      obtain ⟨hf, hl, hn⟩ := s.sock.close_queue
      refine ⟨_, rfl, ?_, view_congr rfl hn hf hl fun _ _ => rfl⟩
      rw [← Option.some.inj hs, SendSide.under, SendSide.under, hclose]

end Others

/-! ## Runs -/

/-- The region that a thread is in has not happened yet. -/
def RegionSide.Shows {ι : Type} (f : RegionSide ι) (s : SendSide ι) : Prop :=
  match f.region with
  | none => f.side = s
  | some (t, k) => ∃ o, k.Done (s.view t) o ∧ f.side = s.under o

section Runs
variable {ι : Type} [Fintype ι] [DecidableEq ι] {s : SendSide ι} {f f' : RegionSide ι} {t : ι}
  {heap : Heap} {pReadBuf : Ptr} {ids unsent : List Ptr}

omit [Fintype ι] [DecidableEq ι] in
/-- A region is entered. -/
theorem shows_enter (h : f.Shows s) (hs : f.enter t = some f') : f'.Shows s := by
  obtain ⟨side, region⟩ := f
  simp only [RegionSide.enter, Option.ite_none_right_eq_some] at hs
  obtain ⟨rfl, hs⟩ := hs
  obtain rfl : side = s := h
  cases hpc : side.pc t with
  | writeLock p =>
      rw [hpc] at hs
      obtain rfl := Option.some.inj hs
      exact ⟨_, ⟨hpc, rfl⟩, rfl⟩
  | cbLock n =>
      rw [hpc] at hs
      obtain rfl := Option.some.inj hs
      exact ⟨_, ⟨hpc, rfl⟩, rfl⟩
  | idle => rw [hpc] at hs; cases hs
  | writeSend p => rw [hpc] at hs; cases hs
  | writeFree p => rw [hpc] at hs; cases hs
  | cbSend p => rw [hpc] at hs; cases hs
  | cbFree p => rw [hpc] at hs; cases hs

/-- A statement changes nothing yet, and `Leave` is the region. -/
theorem shows_statement (hinv : SendInv False s ids unsent) (h : f.Shows s)
    (hok : RegionOk f .statement) (hs : f.statement = some f') :
    f'.Shows s ∨ ∃ t s', SendOk False s (.lock t) ∧ sendStep s (.lock t) = some s' ∧
      f'.Shows s' := by
  obtain ⟨side, region⟩ := f
  cases region with
  | none => cases hs
  | some tk =>
      obtain ⟨t, k⟩ := tk
      obtain ⟨o, hd, hside⟩ := h
      obtain rfl : side = s.under o := hside
      by_cases hleave : (∃ e p, k = .writeLeave e p) ∨ ∃ n d, k = .cbLeave n d
      · refine .inr ?_
        rcases hleave with ⟨e, p, rfl⟩ | ⟨n, d, rfl⟩
        · obtain ⟨hpc, hfits, hregion⟩ := writeRegion_of_done hinv hd
          obtain rfl := Option.some.inj hs
          refine ⟨t, _, fun q hq => ?_, ?_, rfl⟩
          · cases hpc.symm.trans hq
            exact ⟨hfits, False.elim⟩
          · rw [sendStep, hpc]
            exact hregion
        · obtain ⟨hpc, hregion⟩ := callbackRegion_of_done hd
          obtain rfl := Option.some.inj hs
          refine ⟨t, _, fun q hq => ?_, ?_, rfl⟩
          · cases hpc.symm.trans hq
          · rw [sendStep, hpc]
            exact hregion
      · have hmap : ((s.under o).regionNext k).map
            (fun r => (⟨r.1, some (t, r.2)⟩ : RegionSide ι)) = some f' := by
          cases k with
          | writeLeave e p => exact absurd (.inl ⟨e, p, rfl⟩) hleave
          | cbLeave n d => exact absurd (.inr ⟨n, d, rfl⟩) hleave
          | _ => exact hs
        obtain ⟨⟨side', k'⟩, hnext, rfl⟩ := Option.map_eq_some_iff.mp hmap
        have hfits : ∀ p, k = .copy p → (s.under o).CopyFits p := by
          rintro p rfl
          exact hok t p rfl
        obtain ⟨o', rfl, hd'⟩ := done_next hinv hd hfits hnext
        exact .inl ⟨o', hd', rfl⟩

/-- **The regions are atomic**: each step of a run in which their statements are steps of their own
is a step of a run in which they are not, or nothing. -/
theorem region_simulates : Simulates (@regionStep ι _) RegionOk sendStep (SendOk False)
    fun f s => f.Shows s ∧ ∃ ids unsent, SendInv False s ids unsent := by
  intro f s a f' hR hok hs
  obtain ⟨h, ids, unsent, hinv⟩ := hR
  cases a with
  | enter t => exact .inl ⟨shows_enter h hs, ids, unsent, hinv⟩
  | statement =>
      rcases shows_statement hinv h hok hs with hsame | ⟨t, s', hok', hs', hshows⟩
      · exact .inl ⟨hsame, ids, unsent, hinv⟩
      · exact .inr ⟨.lock t, s', hok', hs', hshows, sendStep_inv ⟨ids, unsent, hinv⟩ hok' hs'⟩
  | act a =>
      obtain ⟨side, region⟩ := f
      simp only [regionStep, Option.ite_none_right_eq_some, Option.map_eq_some_iff] at hs
      obtain ⟨hpass, side', hs, rfl⟩ := hs
      cases region with
      | none =>
          obtain rfl : side = s := h
          exact .inr ⟨a, side', hok, hs, rfl, sendStep_inv ⟨ids, unsent, hinv⟩ hok hs⟩
      | some tk =>
          obtain ⟨t, k⟩ := tk
          obtain ⟨o, hd, hside⟩ := h
          obtain rfl : side = s.under o := hside
          have hok' : SendOk False s a := by
            cases a with
            | callWrite u p data => exact hok
            | lock u => cases hpass
            | create newId newSocket addr port => cases hpass
            | send u ok => trivial
            | free u next => trivial
            | complete u i bSuccess n => trivial
            | close => trivial
          obtain ⟨s', hs', rfl, hview⟩ := others_step hinv (hidden_of_done hd) hpass hs
          exact .inr ⟨a, s', hok', hs', ⟨o, by rw [hview]; exact hd, rfl⟩,
            sendStep_inv ⟨ids, unsent, hinv⟩ hok' hs'⟩

/-- The run without the statements. -/
theorem shows_of_reaches (h : Reaches regionStep RegionOk ⟨.start ι heap pReadBuf, none⟩ f) :
    ∃ s, Reaches sendStep (SendOk False) (.start ι heap pReadBuf) s ∧ f.Shows s := by
  have h0 : (⟨.start ι heap pReadBuf, none⟩ : RegionSide ι).Shows (.start ι heap pReadBuf) := rfl
  obtain ⟨s, hreach, hshows, -⟩ := region_simulates.reaches
    ⟨h0, _, _, SendSide.start_inv False heap pReadBuf⟩ h
  exact ⟨s, hreach, hshows⟩

/-- A step of the regions at once is a run of their statements. -/
theorem reaches_of_sendStep {a : SendAct ι} {s' : SendSide ι} (hinv : SendInv False s ids unsent)
    (hok : SendOk False s a) (hs : sendStep s a = some s') :
    Reaches regionStep RegionOk ⟨s, none⟩ ⟨s', none⟩ := by
  have hact : a.passes true = true → Reaches regionStep RegionOk ⟨s, none⟩ ⟨s', none⟩ := by
    intro hpass
    refine .tail (a := .act a) .refl hok ?_
    simp only [regionStep, Option.isNone_none, hpass, if_true, hs, Option.map_some]
  cases a with
  | lock t =>
      refine region_alone hs (fun p hpc hlast => ne_last hinv hpc hlast rfl) ?_
      intro p last hpc hlast hguard last' hmem
      obtain rfl := Option.some.inj (hlast.symm.trans hmem)
      have hsize := hinv.queue.size_le last
        (List.mem_of_getLast? (hinv.queue.last_eq.symm.trans hlast))
      have hown := hinv.pc_ok t
      rw [hpc] at hown
      have hmod : ((s.heap last).dwSize + (s.heap p).dwSize) % 2 ^ 32 =
          (s.heap last).dwSize + (s.heap p).dwSize := by
        refine Nat.mod_eq_of_lt (Nat.lt_of_le_of_lt (Nat.add_le_add hsize hown.2) ?_)
        decide
      exact (hok p hpc).1 last hlast hguard.1 (hmod ▸ hguard.2)
  | callWrite t p data => exact hact rfl
  | send t ok => exact hact rfl
  | free t next => exact hact rfl
  | complete t i bSuccess n => exact hact rfl
  | close => exact hact rfl
  | create newId newSocket addr port => exact hact rfl

end Runs

end BGIocpServer
