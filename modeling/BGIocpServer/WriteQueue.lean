import BGIocpServer.Buffer
import BGIocpServer.Kit.Chain
import Mathlib.Data.List.Nodup

/-!
# The write queue in memory

The buffers queued on a socket form a list linked through `m_pNext`, from
`m_pFirstBuf` to `m_pLastBuf`. `QueueHolds heap first last ids` says that the two
pointers represent the list `ids`; the three ways `Write` enqueues and the way
`WriteCallback` dequeues each have a lemma here, with what they do to the queued
bytes (`contents`) and to their number (`queuedSize`).
-/

namespace BGIocpServer
open Kit

/-- The buffers by address. -/
abbrev Heap := Ptr → BGIOBuffer

/-- The bytes of the queued buffers, in order. -/
def contents (heap : Heap) (ids : List Ptr) : List UInt8 :=
  (ids.map fun p => (heap p).bytes).flatten

/-- The sizes of the queued buffers, added up. -/
def queuedSize (heap : Heap) (ids : List Ptr) : ℕ := (ids.map fun p => (heap p).dwSize).sum

section Contents
variable {heap : Heap} {ids : List Ptr} {p : Ptr} {b : BGIOBuffer}

@[simp] theorem contents_nil (heap : Heap) : contents heap [] = [] := rfl
@[simp] theorem contents_cons (heap : Heap) (p : Ptr) (ids : List Ptr) :
    contents heap (p :: ids) = (heap p).bytes ++ contents heap ids := rfl
@[simp] theorem contents_append (heap : Heap) (ids ids' : List Ptr) :
    contents heap (ids ++ ids') = contents heap ids ++ contents heap ids' := by
  simp [contents]

@[simp] theorem queuedSize_nil (heap : Heap) : queuedSize heap [] = 0 := rfl
@[simp] theorem queuedSize_cons (heap : Heap) (p : Ptr) (ids : List Ptr) :
    queuedSize heap (p :: ids) = (heap p).dwSize + queuedSize heap ids := by
  simp [queuedSize]

/-- The queued bytes are as many as the sizes say. -/
theorem length_contents (heap : Heap) (ids : List Ptr) :
    (contents heap ids).length = queuedSize heap ids := by
  induction ids with
  | nil => rfl
  | cons p ids ih => simp [ih]

/-- A buffer off the queue does not matter. -/
theorem contents_update (hp : p ∉ ids) :
    contents (Function.update heap p b) ids = contents heap ids := by
  simp only [contents]
  congr 1
  refine List.map_congr_left fun q hq => ?_
  rw [Function.update_of_ne (by rintro rfl; exact hp hq)]

theorem queuedSize_update (hp : p ∉ ids) :
    queuedSize (Function.update heap p b) ids = queuedSize heap ids := by
  rw [← length_contents, contents_update hp, length_contents]

/-- Changing a buffer without touching its bytes does not matter either. -/
theorem contents_update_same (h : b.bytes = (heap p).bytes) :
    contents (Function.update heap p b) ids = contents heap ids := by
  simp only [contents]
  congr 1
  refine List.map_congr_left fun q _ => ?_
  by_cases hq : q = p
  · subst hq
    simpa using h
  · rw [Function.update_of_ne hq]

/-- Bytes put behind those of the last buffer are the last bytes of the queue. -/
theorem contents_update_last {src : List UInt8} (hlast : ids.getLast? = some p)
    (hnodup : ids.Nodup) (h : b.bytes = (heap p).bytes ++ src) :
    contents (Function.update heap p b) ids = contents heap ids ++ src := by
  obtain ⟨init, rfl⟩ := List.getLast?_eq_some_iff.mp hlast
  have hp : p ∉ init := by
    rw [List.nodup_append] at hnodup
    intro hm
    exact hnodup.2.2 p hm p (by simp) rfl
  simp [contents_update hp, h]

end Contents

/-- The pointers `first` and `last` represent the queue `ids`. -/
structure QueueHolds (heap : Heap) (first last : Option Ptr) (ids : List Ptr) : Prop where
  chain : Chain (fun p => (heap p).pNext) first ids
  last_eq : last = ids.getLast?
  nodup : ids.Nodup
  size_le : ∀ p ∈ ids, (heap p).dwSize ≤ bgBufferSize

namespace QueueHolds
variable {heap : Heap} {first last : Option Ptr} {ids : List Ptr} {p : Ptr} {b : BGIOBuffer}

theorem first_eq (h : QueueHolds heap first last ids) : first = ids.head? := h.chain.head?_eq.symm

theorem empty (heap : Heap) : QueueHolds heap none none [] := by
  constructor <;> simp

theorem eq_nil (h : QueueHolds heap first none ids) : ids = [] :=
  List.getLast?_eq_none_iff.mp h.last_eq.symm

/-- Links change as the buffers do. -/
theorem pNext_update (heap : Heap) (p : Ptr) (b : BGIOBuffer) :
    (fun q => (Function.update heap p b q).pNext) =
      Function.update (fun q => (heap q).pNext) p b.pNext := by
  funext q
  by_cases hq : q = p
  · subst hq
    simp
  · simp [Function.update_of_ne hq]

/-- A buffer off the queue may change at will. -/
theorem frame (h : QueueHolds heap first last ids) (hp : p ∉ ids) (b : BGIOBuffer) :
    QueueHolds (Function.update heap p b) first last ids := by
  refine ⟨?_, h.last_eq, h.nodup, ?_⟩
  · rw [pNext_update]
    exact h.chain.update hp
  · intro q hq
    rw [Function.update_of_ne (by rintro rfl; exact hp hq)]
    exact h.size_le q hq

/-- `m_pFirstBuf = m_pLastBuf = pBuffer` -/
theorem singleton (hnext : (heap p).pNext = none) (hsize : (heap p).dwSize ≤ bgBufferSize) :
    QueueHolds heap (some p) (some p) [p] :=
  ⟨by simp [hnext], rfl, by simp, by simpa using hsize⟩

/-- `m_pLastBuf->m_pNext = pBuffer; m_pLastBuf = pBuffer;` -/
theorem append {l : Ptr} (h : QueueHolds heap first (some l) ids) (hp : p ∉ ids)
    (hnext : (heap p).pNext = none) (hsize : (heap p).dwSize ≤ bgBufferSize) :
    QueueHolds (Function.update heap l { heap l with pNext := some p }) first (some p)
      (ids ++ [p]) := by
  have hlast : ids.getLast? = some l := h.last_eq.symm
  have hne : p ≠ l := by rintro rfl; exact hp (List.mem_of_getLast? hlast)
  refine ⟨?_, by simp, ?_, ?_⟩
  · rw [pNext_update]
    exact h.chain.append hlast h.nodup hp hnext
  · rw [List.nodup_append]
    refine ⟨h.nodup, by simp, ?_⟩
    intro a ha b hb
    rw [List.mem_singleton.mp hb]
    rintro rfl
    exact hp ha
  · intro q hq
    by_cases hql : q = l
    · subst hql
      simpa using h.size_le q (List.mem_of_getLast? hlast)
    · rw [Function.update_of_ne hql]
      rcases List.mem_append.mp hq with hq | hq
      · exact h.size_le q hq
      · rw [List.mem_singleton.mp hq]
        exact hsize

/-- Bytes copied behind those of `m_pLastBuf`, as long as they fit. -/
theorem coalesce {l : Ptr} (h : QueueHolds heap first (some l) ids)
    (hnext : b.pNext = (heap l).pNext) (hsize : b.dwSize ≤ bgBufferSize) :
    QueueHolds (Function.update heap l b) first (some l) ids := by
  refine ⟨?_, h.last_eq, h.nodup, ?_⟩
  · rw [pNext_update, hnext]
    exact h.chain.congr fun q _ => by
      by_cases hq : q = l
      · subst hq
        simp
      · rw [Function.update_of_ne hq]
  · intro q hq
    by_cases hql : q = l
    · subst hql
      simpa using hsize
    · rw [Function.update_of_ne hql]
      exact h.size_le q hq

/-- `m_pFirstBuf = m_pFirstBuf->m_pNext`, and `m_pLastBuf = nullptr` if that is null. -/
theorem pop (h : QueueHolds heap first last (p :: ids)) :
    (heap p).pNext = ids.head? ∧
      QueueHolds heap (heap p).pNext (if ids = [] then none else last) ids := by
  obtain ⟨-, hrest⟩ := Chain.cons_iff.mp h.chain
  refine ⟨hrest.head?_eq.symm, hrest, ?_, (List.nodup_cons.mp h.nodup).2, ?_⟩
  · by_cases hids : ids = []
    · simp [hids]
    · obtain ⟨q, qs, rfl⟩ := List.exists_cons_of_ne_nil hids
      simp [h.last_eq]
  · intro q hq
    exact h.size_le q (by simp [hq])

/-- With two different ends the last buffer is not the first one. -/
theorem last_ne_first {l : Ptr} (h : QueueHolds heap first (some l) ids) (hne : first ≠ some l) :
    ∃ q qs, ids = q :: qs ∧ qs.getLast? = some l ∧ l ≠ q := by
  cases ids with
  | nil => exact absurd h.last_eq (by simp)
  | cons q qs =>
      have hql : l ≠ q := by
        rintro rfl
        exact hne h.first_eq
      refine ⟨q, qs, rfl, ?_, hql⟩
      cases qs with
      | nil =>
          have := h.last_eq
          simp only [List.getLast?_singleton, Option.some.injEq] at this
          exact absurd this hql
      | cons r rs => simpa using h.last_eq.symm

end QueueHolds
end BGIocpServer
