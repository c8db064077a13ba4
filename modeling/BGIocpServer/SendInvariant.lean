import BGIocpServer.SendSide

/-!
# The invariant of the send side

What every step of the send side preserves, connection after connection. The
queue from `m_pFirstBuf` to `m_pLastBuf` is represented by a list `ids`; the part
of it that has not been given to `WSASend` is `unsent`, all of `ids` or its tail.
Three things are coupled: who owns which buffer (`Owned`), who may send next (the
token: a thread about to send or to dequeue, or an outstanding send, at most one
and only while something is queued), and the history of bytes.
-/

namespace BGIocpServer
open Kit

namespace SendPc

/-- The thread is about to send, or about to dequeue the buffer that was sent. -/
def isToken : SendPc → Bool
  | .writeSend _ | .cbLock _ | .cbSend _ => true
  | _ => false

/-- The buffer that the thread, and nobody else, holds. -/
def held : SendPc → Option Ptr
  | .writeLock p | .writeFree p | .cbSend p | .cbFree p => some p
  | _ => none

/-- What a thread at a program point relies on. -/
def Ok (heap : Heap) (clean : Bool) (ids unsent : List Ptr) : SendPc → Prop
  | .writeLock p => (heap p).pNext = none ∧ (heap p).dwSize ≤ bgBufferSize
  | .writeSend p => ids.head? = some p ∧ unsent = ids
  | .cbLock n => unsent = ids.tail ∧
      (clean = true → ∀ p, ids.head? = some p → n = (heap p).dwSize)
  | .cbSend _ => unsent = ids
  | _ => True

variable {heap : Heap} {clean : Bool} {ids unsent : List Ptr} {k : SendPc}

/-- A thread without the token relies on its own buffer only. -/
theorem Ok.of_not_token (h : k.Ok heap clean ids unsent) (hk : k.isToken = false)
    (clean' : Bool) (ids' unsent' : List Ptr) : k.Ok heap clean' ids' unsent' := by
  cases k <;> simp_all [Ok, isToken]

/-- A failure only weakens what is relied on. -/
theorem Ok.dirty (h : k.Ok heap clean ids unsent) : k.Ok heap false ids unsent := by
  cases k <;> simp_all [Ok]

/-- Nobody relies on a buffer that is neither held nor first in the queue. -/
theorem Ok.setBuf {p : Ptr} (b : BGIOBuffer) (h : k.Ok heap clean ids unsent)
    (hheld : k.held ≠ some p) (hhead : ids.head? = some p → b.dwSize = (heap p).dwSize) :
    k.Ok (Function.update heap p b) clean ids unsent := by
  cases k with
  | writeLock q =>
      have hq : q ≠ p := by rintro rfl; exact hheld rfl
      simpa [Ok, Function.update_of_ne hq] using h
  | cbLock n =>
      refine ⟨h.1, fun hc q hq => ?_⟩
      by_cases hqp : q = p
      · subst hqp
        rw [Function.update_self, hhead hq]
        exact h.2 hc q hq
      · rw [Function.update_of_ne hqp]
        exact h.2 hc q hq
  | idle => trivial
  | writeSend q => exact h
  | writeFree q => trivial
  | cbSend q => exact h
  | cbFree q => trivial

/-- A buffer appended to a non-empty queue is unsent. -/
theorem Ok.append (p : Ptr) (h : k.Ok heap clean ids unsent) (hne : ids ≠ []) :
    k.Ok heap clean (ids ++ [p]) (unsent ++ [p]) := by
  obtain ⟨q, qs, rfl⟩ := List.exists_cons_of_ne_nil hne
  cases k <;> simp_all [Ok]

end SendPc

variable {ι : Type} [DecidableEq ι]

/-! ## Ownership -/

/-- Every buffer in the queue or in the hands of a thread is live, and in one
place only. -/
structure Owned (live : Ptr → Bool) (pc : ι → SendPc) (ids : List Ptr) : Prop where
  queued : ∀ p ∈ ids, live p = true
  held : ∀ t p, (pc t).held = some p → live p = true ∧ p ∉ ids
  held_inj : ∀ t u p, (pc t).held = some p → (pc u).held = some p → t = u

namespace Owned
variable {live : Ptr → Bool} {pc : ι → SendPc} {ids : List Ptr} {t : ι} {p : Ptr} {k : SendPc}

omit [DecidableEq ι] in
/-- Another thread holds another buffer. -/
theorem held_ne (h : Owned live pc ids) (ht : (pc t).held = some p) {u : ι} (hu : u ≠ t) :
    (pc u).held ≠ some p := fun hup => hu (h.held_inj u t p hup ht)

/-- The thread keeps its buffer, or takes and drops nothing. -/
theorem keep (h : Owned live pc ids) (hk : k.held = none ∨ k.held = (pc t).held) :
    Owned live (Function.update pc t k) ids := by
  have hback : ∀ u q, (Function.update pc t k u).held = some q → (pc u).held = some q := by
    intro u q hq
    by_cases hu : u = t
    · subst hu
      rw [Function.update_self] at hq
      rcases hk with hk | hk
      · rw [hk] at hq
        exact absurd hq (by simp)
      · rw [← hk, hq]
    · rwa [Function.update_of_ne hu] at hq
  exact ⟨h.queued, fun u q hq => h.held u q (hback u q hq),
    fun u v q hu hv => h.held_inj u v q (hback u q hu) (hback v q hv)⟩

/-- The thread comes to hold `p`, which nobody else holds. -/
theorem take {live' : Ptr → Bool} {ids' : List Ptr} (h : Owned live pc ids)
    (hk : k.held = some p) (hother : ∀ u, u ≠ t → (pc u).held ≠ some p)
    (hqueued : ∀ q ∈ ids', live' q = true) (hp : live' p = true ∧ p ∉ ids')
    (hmono : ∀ q, live q = true → q ∉ ids → live' q = true ∧ q ∉ ids') :
    Owned live' (Function.update pc t k) ids' := by
  refine ⟨hqueued, ?_, ?_⟩
  · intro u q hq
    by_cases hu : u = t
    · subst hu
      rw [Function.update_self, hk, Option.some.injEq] at hq
      exact hq ▸ hp
    · rw [Function.update_of_ne hu] at hq
      exact hmono q (h.held u q hq).1 (h.held u q hq).2
  · intro u v q hu hv
    by_cases hut : u = t <;> by_cases hvt : v = t
    · rw [hut, hvt]
    · subst hut
      rw [Function.update_self, hk, Option.some.injEq] at hu
      rw [Function.update_of_ne hvt] at hv
      exact absurd (hu ▸ hv) (hother v hvt)
    · subst hvt
      rw [Function.update_self, hk, Option.some.injEq] at hv
      rw [Function.update_of_ne hut] at hu
      exact absurd (hv ▸ hu) (hother u hut)
    · rw [Function.update_of_ne hut] at hu
      rw [Function.update_of_ne hvt] at hv
      exact h.held_inj u v q hu hv

/-- `Alloc`: the buffer was not live. -/
theorem alloc (h : Owned live pc ids) (hp : live p = false) (hk : k.held = some p) :
    Owned (Function.update live p true) (Function.update pc t k) ids := by
  have hne : ∀ q, live q = true → q ≠ p := by
    rintro q hq rfl
    rw [hp] at hq
    exact absurd hq (by simp)
  refine h.take hk (fun u _ hu => hne p (h.held u p hu).1 rfl) ?_ ?_ ?_
  · intro q hq
    rw [Function.update_of_ne (hne q (h.queued q hq))]
    exact h.queued q hq
  · exact ⟨by simp, fun hm => hne p (h.queued p hm) rfl⟩
  · intro q hq hm
    exact ⟨by rw [Function.update_of_ne (hne q hq), hq], hm⟩

/-- The thread hands its buffer over to the queue. -/
theorem enqueue (h : Owned live pc ids) (ht : (pc t).held = some p) (hk : k.held = none) :
    Owned live (Function.update pc t k) (ids ++ [p]) := by
  have hkeep := h.keep (t := t) (k := k) (Or.inl hk)
  refine ⟨?_, ?_, hkeep.held_inj⟩
  · intro q hq
    rcases List.mem_append.mp hq with hq | hq
    · exact h.queued q hq
    · rw [List.mem_singleton.mp hq]
      exact (h.held t p ht).1
  · intro u q hq
    refine ⟨(hkeep.held u q hq).1, ?_⟩
    have hut : u ≠ t := by
      rintro rfl
      rw [Function.update_self, hk] at hq
      exact absurd hq (by simp)
    rw [Function.update_of_ne hut] at hq
    rw [List.mem_append, List.mem_singleton, not_or]
    refine ⟨(h.held u q hq).2, ?_⟩
    rintro rfl
    exact h.held_ne ht hut hq

/-- The thread takes the first buffer off the queue. -/
theorem dequeue (h : Owned live pc (p :: ids)) (hnodup : (p :: ids).Nodup)
    (hk : k.held = some p) : Owned live (Function.update pc t k) ids := by
  refine h.take hk (fun u _ hu => (h.held u p hu).2 (by simp)) ?_ ?_ ?_
  · intro q hq
    exact h.queued q (by simp [hq])
  · exact ⟨h.queued p (by simp), (List.nodup_cons.mp hnodup).1⟩
  · intro q hq hm
    exact ⟨hq, fun hmem => hm (by simp [hmem])⟩

/-- `Free`: the thread's buffer dies. -/
theorem free (h : Owned live pc ids) (ht : (pc t).held = some p) (hk : k.held = none) :
    Owned (Function.update live p false) (Function.update pc t k) ids := by
  have hkeep := h.keep (t := t) (k := k) (Or.inl hk)
  refine ⟨?_, ?_, hkeep.held_inj⟩
  · intro q hq
    rw [Function.update_of_ne (by rintro rfl; exact (h.held t q ht).2 hq)]
    exact h.queued q hq
  · intro u q hq
    have hut : u ≠ t := by
      rintro rfl
      rw [Function.update_self, hk] at hq
      exact absurd hq (by simp)
    obtain ⟨hlive, hmem⟩ := hkeep.held u q hq
    rw [Function.update_of_ne hut] at hq
    refine ⟨?_, hmem⟩
    rw [Function.update_of_ne (by rintro rfl; exact h.held_ne ht hut hq)]
    exact hlive

end Owned

/-! ## The token -/

/-- At most one party may send next, or dequeue what was sent, and only while
something is queued; until a send goes wrong somebody always may. -/
structure Tokens [Fintype ι] (pc : ι → SendPc) (sends : List Send) (clean : Bool)
    (ids : List Ptr) : Prop where
  le_one : tally SendPc.isToken pc + sends.length ≤ 1
  zero : ids = [] → tally SendPc.isToken pc + sends.length = 0
  one : clean = true → ids ≠ [] → tally SendPc.isToken pc + sends.length = 1

namespace Tokens
variable [Fintype ι] {pc : ι → SendPc} {sends : List Send} {clean : Bool} {ids : List Ptr} {t : ι}
  {k : SendPc}

/-- A thread with the token: something is queued, nothing is outstanding, and no
other thread has it. -/
theorem sole (h : Tokens pc sends clean ids) (ht : (pc t).isToken = true) :
    ids ≠ [] ∧ sends = [] ∧ ∀ u, u ≠ t → (pc u).isToken = false := by
  have hpos := tally_pos (P := SendPc.isToken) ht
  have hle := h.le_one
  refine ⟨fun hnil => ?_, List.eq_nil_of_length_eq_zero (by omega), fun u hu => ?_⟩
  · have := h.zero hnil
    omega
  · by_contra htok
    rw [Bool.not_eq_false] at htok
    have := two_le_tally hu htok ht
    omega

omit [DecidableEq ι] in
/-- An outstanding send: it is the only one, something is queued, and no thread
has the token. -/
theorem sole_send {snd : Send} (h : Tokens pc sends clean ids) (hmem : snd ∈ sends) :
    ids ≠ [] ∧ sends = [snd] ∧ ∀ u, (pc u).isToken = false := by
  have hpos := List.length_pos_of_mem hmem
  have hle := h.le_one
  refine ⟨fun hnil => ?_, ?_, tally_eq_zero.mp (by omega)⟩
  · have := h.zero hnil
    omega
  · obtain ⟨a, ha⟩ := List.length_eq_one_iff.mp (show sends.length = 1 by omega)
    rw [ha, List.mem_singleton] at hmem
    rw [ha, hmem]

omit [DecidableEq ι] in
/-- With an empty queue nobody has the token. -/
theorem none (h : Tokens pc sends clean []) : sends = [] ∧ ∀ u, (pc u).isToken = false := by
  have := h.zero rfl
  exact ⟨List.eq_nil_of_length_eq_zero (by omega), tally_eq_zero.mp (by omega)⟩

/-- A thread moves on without getting or losing the token. -/
theorem keep {ids' : List Ptr} (h : Tokens pc sends clean ids)
    (hk : k.isToken = (pc t).isToken) (hids : ids' = [] ↔ ids = []) :
    Tokens (Function.update pc t k) sends clean ids' := by
  have hupd := tally_update SendPc.isToken pc t k
  rw [hk] at hupd
  have heq : tally SendPc.isToken (Function.update pc t k) = tally SendPc.isToken pc := by omega
  refine ⟨?_, ?_, ?_⟩ <;> rw [heq]
  · exact h.le_one
  · exact fun hnil => h.zero (hids.mp hnil)
  · exact fun hc hne => h.one hc fun hnil => hne (hids.mpr hnil)

/-- A send goes wrong: the token is gone. -/
theorem lose {sends' : List Send} (h : Tokens pc sends clean ids)
    (hle : tally SendPc.isToken (Function.update pc t k) + sends'.length ≤
      tally SendPc.isToken pc + sends.length) :
    Tokens (Function.update pc t k) sends' false ids := by
  refine ⟨hle.trans h.le_one, fun hnil => ?_, fun hc => absurd hc (by simp)⟩
  have := h.zero hnil
  omega

/-- The token as it stands, counted anew. -/
theorem of_eq {sends' : List Send} {ids' : List Ptr} (hne : ids' ≠ [])
    (h : tally SendPc.isToken (Function.update pc t k) + sends'.length = 1) :
    Tokens (Function.update pc t k) sends' clean ids' :=
  ⟨by omega, fun hnil => absurd hnil hne, fun _ _ => h⟩

end Tokens

/-! ## The history of bytes -/

/-- The history against the queue: of what the current connection has written, the
unsent part of the queue is yet to be sent and all of the queue is yet to be
completed; what was sent on another connection was written on it. -/
structure History (heap : Heap) (conn : ℕ) (written sent completed : ℕ → List UInt8)
    (ids unsent : List Ptr) : Prop where
  sent_eq : sent conn ++ contents heap unsent = written conn
  completed_eq : completed conn ++ contents heap ids = written conn
  past : ∀ n, n ≠ conn → sent n <+: written n
  future : ∀ n, conn < n → written n = [] ∧ sent n = [] ∧ completed n = []

namespace History
variable {heap heap' : Heap} {conn : ℕ} {written sent completed : ℕ → List UInt8}
  {ids ids' unsent unsent' : List Ptr} {xs : List UInt8}

/-- What is sent on any connection is a prefix of what is written on it. -/
theorem prefix_all (h : History heap conn written sent completed ids unsent) (n : ℕ) :
    sent n <+: written n := by
  by_cases hn : n = conn
  · subst hn
    exact ⟨_, h.sent_eq⟩
  · exact h.past n hn

/-- The queue changes, its bytes do not. -/
theorem congr (h : History heap conn written sent completed ids unsent)
    (hunsent : contents heap' unsent' = contents heap unsent)
    (hids : contents heap' ids' = contents heap ids) :
    History heap' conn written sent completed ids' unsent' :=
  ⟨by rw [hunsent, h.sent_eq], by rw [hids, h.completed_eq], h.past, h.future⟩

/-- `Write` puts bytes behind the queued ones. -/
theorem write (h : History heap conn written sent completed ids unsent)
    (hunsent : contents heap' unsent' = contents heap unsent ++ xs)
    (hids : contents heap' ids' = contents heap ids ++ xs) :
    History heap' conn (record written conn xs) sent completed ids' unsent' := by
  refine ⟨?_, ?_, fun n hn => ?_, fun n hn => ?_⟩
  · rw [record_self, hunsent, ← h.sent_eq, List.append_assoc]
  · rw [record_self, hids, ← h.completed_eq, List.append_assoc]
  · rw [record_of_ne xs hn]
    exact h.past n hn
  · rw [record_of_ne xs (by omega)]
    exact h.future n hn

/-- `WSASend` is given the first unsent bytes. -/
theorem send (h : History heap conn written sent completed ids unsent)
    (hunsent : contents heap unsent = xs ++ contents heap unsent') :
    History heap conn written (record sent conn xs) completed ids unsent' := by
  refine ⟨?_, h.completed_eq, fun n hn => ?_, fun n hn => ?_⟩
  · rw [record_self, List.append_assoc, ← hunsent, h.sent_eq]
  · rw [record_of_ne xs hn]
    exact h.past n hn
  · rw [record_of_ne xs (by omega)]
    exact h.future n hn

/-- `WriteCallback` takes the first bytes off the queue. -/
theorem complete (h : History heap conn written sent completed ids unsent)
    (hids : contents heap ids = xs ++ contents heap ids') :
    History heap conn written sent (record completed conn xs) ids' unsent := by
  refine ⟨h.sent_eq, ?_, h.past, fun n hn => ?_⟩
  · rw [record_self, List.append_assoc, ← hids, h.completed_eq]
  · rw [record_of_ne xs (by omega)]
    exact h.future n hn

/-- `CreateSocket` takes the slot, and its queue is empty. -/
theorem next (h : History heap conn written sent completed [] []) :
    History heap (conn + 1) written sent completed [] [] := by
  obtain ⟨hw, hs, hc⟩ := h.future (conn + 1) (by omega)
  exact ⟨by simp [hw, hs], by simp [hw, hc], fun n _ => h.prefix_all n,
    fun n hn => h.future n (by omega)⟩

end History

end BGIocpServer
