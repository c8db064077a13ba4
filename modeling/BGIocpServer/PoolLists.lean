import BGIocpServer.PoolSteps
import BGIocpServer.Kit.Reaches

/-!
# The free lists of the pool

The invariant of the buffer pool under any number of threads: every buffer is in one
place, on the list of a slot, in the hands of one call, or with a holder. The link of a
buffer counts only while the buffer is on a list, and then nobody writes to it.

## Main definitions

* `Place`: where a buffer is.
* `Pooled`: every buffer is in one place.

## Main results

* `separated_of_reaches`: the free lists, and that no `Alloc` returns a buffer in use.
-/

namespace BGIocpServer
open Kit

namespace PoolPc

/-- The buffer that is in the hands of the call alone. -/
def mine : PoolPc → Option Ptr
  | .allocLeave _ p | .initSize p | .initRef p | .initNext p | .allocReturn p | .freeTest p
  | .freeCount p | .freeEnter _ p | .freeLink _ p | .freeHead _ p => some p
  | _ => none

/-- The slot whose lock the call holds. -/
def region : PoolPc → Option ℕ
  | .allocHead i | .allocNext i _ | .allocSet i _ _ | .allocLeave i _ | .allocLeaveNew i
  | .freeLink i _ | .freeHead i _ | .freeLeave i => some i
  | _ => none

/-- The slot the call has chosen. -/
def slot : PoolPc → Option ℕ
  | .allocEnter i | .freeEnter i _ => some i
  | k => k.region

end PoolPc

/-- Where a buffer is. -/
inductive Place (ι : Type)
  /-- `new` has not made it yet. -/
  | unborn
  /-- On the free list of a slot. -/
  | slot (i : ℕ)
  /-- In the hands of a call of `Alloc` or `Free`. -/
  | thread (t : ι)
  /-- With whoever has it from `Alloc`. -/
  | held

/-- What is known at the accesses to a list. -/
def PoolPc.Here {ι : Type} (pool : BufferPool) (place : Ptr → Place ι) : PoolPc → Prop
  | .allocNext i p => pool.slotBuffer i = some p ∧ place p = .slot i
  | .allocSet i p v => pool.slotBuffer i = some p ∧ place p = .slot i ∧ (pool.heap p).pNext = v
  | .freeHead i p => (pool.heap p).pNext = pool.slotBuffer i
  | _ => True

variable {ι : Type} {s s' : PoolState ι} {pool pool' : BufferPool} {lock lock' : ℕ → Option ι}
  {lists : ℕ → List Ptr} {place place' : Ptr → Place ι} {t u : ι} {k l : PoolPc} {i : ℕ} {p : Ptr}

/-- What is known of a thread at `k`. -/
structure ThreadOk (pool : BufferPool) (lock : ℕ → Option ι) (place : Ptr → Place ι) (t : ι)
    (k : PoolPc) : Prop where
  mine : ∀ p, k.mine = some p → place p = .thread t
  region : ∀ i, k.region = some i → lock i = some t
  slot : ∀ i, k.slot = some i → i < bufferPoolSize
  here : k.Here pool place

/-- The lists of the slots hold the buffers that are there, each once. -/
structure Listed (lists : ℕ → List Ptr) (place : Ptr → Place ι) : Prop where
  nodup : ∀ i, (lists i).Nodup
  mem : ∀ i p, p ∈ lists i ↔ place p = .slot i
  outside : ∀ i, bufferPoolSize ≤ i → lists i = []

/-- Every buffer is in one place. -/
structure Pooled (s : PoolState ι) (lists : ℕ → List Ptr) (place : Ptr → Place ι) : Prop where
  chains : s.pool.FreeLists lists
  listed : Listed lists place
  unborn : ∀ p, s.pool.created ≤ p → place p = .unborn
  threads : ∀ t, ThreadOk s.pool s.lock place t (s.pc t)
  holders : ∀ p, s.holders p ≤ 1 ∧ (s.holders p = 1 ↔ place p = .held)
  counts : ∀ p, s.handed p ≤ s.freed p ∧ s.freed p ≤ s.handed p + 1 ∧
    (s.freed p = s.handed p + 1 ↔ ∃ i, place p = .slot i)
  running : s.pool.nStop = false

/-- What others do leaves the thread where it is, if it touches neither the buffer in its
hands, nor its slot, nor a link that counts. -/
theorem ThreadOk.frame (h : ThreadOk pool lock place u k)
    (hplace : ∀ p, place p = .thread u → place' p = .thread u)
    (hlock : ∀ i, lock i = some u → lock' i = some u)
    (hslot : ∀ i, lock i = some u → pool'.slotBuffer i = pool.slotBuffer i)
    (hlisted : ∀ i p, lock i = some u → place p = .slot i → place' p = .slot i)
    (hheap : ∀ p, (∃ i, k = .freeHead i p) ∨ (∃ i, place p = .slot i) →
      (pool'.heap p).pNext = (pool.heap p).pNext) : ThreadOk pool' lock' place' u k where
  mine := fun p hp => hplace p (h.mine p hp)
  region := fun i hi => hlock i (h.region i hi)
  slot := h.slot
  here := by
    have hhere := h.here
    cases k with
    | allocNext i p =>
        have hi := h.region i rfl
        exact ⟨(hslot i hi).trans hhere.1, hlisted i p hi hhere.2⟩
    | allocSet i p v =>
        have hi := h.region i rfl
        exact ⟨(hslot i hi).trans hhere.1, hlisted i p hi hhere.2.1,
          (hheap p (.inr ⟨i, hhere.2.1⟩)).trans hhere.2.2⟩
    | freeHead i p =>
        have hi := h.region i rfl
        exact (hheap p (.inl ⟨i, rfl⟩)).trans (hhere.trans (hslot i hi).symm)
    | _ => trivial

/-- A value that is neither the old nor the new one at `p` is found where it was. -/
theorem update_eq_iff {f : Ptr → Place ι} {x y : Place ι} (hold : f p ≠ y) (hnew : x ≠ y)
    (q : Ptr) : Function.update f p x q = y ↔ f q = y := by
  by_cases hq : q = p
  · subst hq
    simp [hold, hnew]
  · rw [Function.update_of_ne hq]

/-- One thread goes on, the others stay where they are. -/
theorem threads_update [DecidableEq ι] {pc : ι → PoolPc} (hk : ThreadOk pool lock place t k)
    (hothers : ∀ u, u ≠ t → ThreadOk pool lock place u (pc u)) :
    ∀ u, ThreadOk pool lock place u (Function.update pc t k u) :=
  (Function.forall_update_iff pc fun u l => ThreadOk pool lock place u l).mpr ⟨hk, hothers⟩

/-- A list loses its first buffer to a call. -/
theorem Listed.take (h : Listed lists place) {xs : List Ptr} (hxs : lists i = p :: xs) :
    Listed (Function.update lists i xs) (Function.update place p (.thread t)) := by
  have hnodup := h.nodup i
  rw [hxs, List.nodup_cons] at hnodup
  have hplace : place p = .slot i := (h.mem i p).mp (by simp [hxs])
  refine ⟨?_, ?_, ?_⟩
  · intro j
    by_cases hj : j = i
    · subst hj
      rw [Function.update_self]
      exact hnodup.2
    · rw [Function.update_of_ne hj]
      exact h.nodup j
  · intro j q
    have hold := h.mem j q
    by_cases hq : q = p
    · subst hq
      rw [Function.update_self]
      refine iff_of_false ?_ (by simp)
      by_cases hj : j = i
      · subst hj
        rw [Function.update_self]
        exact hnodup.1
      · rw [Function.update_of_ne hj, hold, hplace, Place.slot.injEq]
        exact Ne.symm hj
    · rw [Function.update_of_ne hq, ← hold]
      by_cases hj : j = i
      · subst hj
        simp [hxs, hq]
      · rw [Function.update_of_ne hj]
  · intro j hj
    have hne : j ≠ i := by
      rintro rfl
      simp [h.outside j hj] at hxs
    rw [Function.update_of_ne hne]
    exact h.outside j hj

/-- A list gains a buffer of a call. -/
theorem Listed.put (h : Listed lists place) (hplace : place p = .thread t)
    (hi : i < bufferPoolSize) :
    Listed (Function.update lists i (p :: lists i)) (Function.update place p (.slot i)) := by
  have hnone : ∀ j, p ∉ lists j := by
    intro j hj
    rw [h.mem, hplace] at hj
    simp at hj
  refine ⟨?_, ?_, ?_⟩
  · intro j
    by_cases hj : j = i
    · subst hj
      rw [Function.update_self]
      exact List.nodup_cons.mpr ⟨hnone j, h.nodup j⟩
    · rw [Function.update_of_ne hj]
      exact h.nodup j
  · intro j q
    have hold := h.mem j q
    by_cases hq : q = p
    · subst hq
      rw [Function.update_self, Place.slot.injEq]
      by_cases hj : j = i
      · subst hj
        simp
      · rw [Function.update_of_ne hj]
        exact iff_of_false (hnone j) (Ne.symm hj)
    · rw [Function.update_of_ne hq, ← hold]
      by_cases hj : j = i
      · subst hj
        simp [hq]
      · rw [Function.update_of_ne hj]
  · intro j hj
    have hne : j ≠ i := by omega
    rw [Function.update_of_ne hne]
    exact h.outside j hj

namespace Pooled

/-- The counters choose the slot; where the buffers are does not depend on them. -/
theorem counters (h : Pooled s lists place) (n m : BitVec 32) :
    Pooled { s with pool := { s.pool with nAllocBuffer := n, nFreeBuffer := m } } lists place where
  chains := h.chains
  listed := h.listed
  unborn := h.unborn
  threads := fun u => (h.threads u).frame (fun _ hp => hp) (fun _ hi => hi) (fun _ _ => rfl)
    (fun _ _ _ hp => hp) fun _ _ => rfl
  holders := h.holders
  counts := h.counts
  running := h.running

variable [DecidableEq ι]

/-- A thread goes on, and takes or leaves a lock. -/
theorem move (h : Pooled s lists place)
    (hothers : ∀ u, u ≠ t → ∀ i, s.lock i = some u → lock i = some u)
    (hk : ThreadOk s.pool lock place t k) :
    Pooled ({ s with lock := lock }.goto t k) lists place where
  chains := h.chains
  listed := h.listed
  unborn := h.unborn
  threads := threads_update hk fun u hu => (h.threads u).frame (fun _ hp => hp) (hothers u hu)
    (fun _ _ => rfl) (fun _ _ _ hp => hp) fun _ _ => rfl
  holders := h.holders
  counts := h.counts
  running := h.running

/-- A thread goes on. -/
theorem goto (h : Pooled s lists place) (hk : ThreadOk s.pool s.lock place t k) :
    Pooled (s.goto t k) lists place :=
  h.move (fun _ _ _ hi => hi) hk

omit [DecidableEq ι] in
/-- The buffer may change while it is on no list, its link not being read right now. -/
theorem setBuf (h : Pooled s lists place) (hp : ∀ i, place p ≠ .slot i)
    (hlink : ∀ u i, s.pc u ≠ .freeHead i p) (b : BGIOBuffer) :
    Pooled (s.setBuf p b) lists place where
  chains := fun i => (h.chains i).congr fun q hq => by
    have hne : q ≠ p := by
      rintro rfl
      exact hp i ((h.listed.mem i q).mp hq)
    simp only [PoolState.setBuf, BufferPool.setBuf, Function.update_of_ne hne]
  listed := h.listed
  unborn := h.unborn
  threads := by
    intro u
    refine (h.threads u).frame (fun _ hp => hp) (fun _ hi => hi) (fun _ _ => rfl)
      (fun _ _ _ hp => hp) ?_
    intro q hq
    have hne : q ≠ p := by
      rintro rfl
      rcases hq with ⟨i, hi⟩ | ⟨i, hi⟩
      · exact hlink u i hi
      · exact hp i hi
    simp only [PoolState.setBuf, BufferPool.setBuf, Function.update_of_ne hne]
  holders := h.holders
  counts := h.counts
  running := h.running

omit [DecidableEq ι] in
/-- A buffer of a call is not on a list, and no other call is at its link. -/
theorem not_link (h : Pooled s lists place) (hp : place p = .thread t)
    (hk : ∀ i, s.pc t ≠ .freeHead i p) (u : ι) (i : ℕ) : s.pc u ≠ .freeHead i p := by
  intro hu
  have hplace := (h.threads u).mine p (by rw [hu]; rfl)
  rw [hp, Place.thread.injEq] at hplace
  exact hk i (hplace ▸ hu)

/-- A thread changes the buffer in its hands, and goes on. -/
theorem init (h : Pooled s lists place) (hmine : (s.pc t).mine = some p)
    (hpc : ∀ i, s.pc t ≠ .freeHead i p) (b : BGIOBuffer)
    (hk : ThreadOk (s.pool.setBuf p b) s.lock place t k) :
    Pooled ((s.setBuf p b).goto t k) lists place := by
  have hplace := (h.threads t).mine p hmine
  have hset := h.setBuf (by rw [hplace]; simp) (h.not_link hplace hpc) b
  exact hset.goto hk

/-- A buffer passes from a call to a holder, or back. -/
theorem pass (h : Pooled s lists place) {dest : Place ι}
    (hfrom : place p = .thread t ∨ place p = .held) (hdest : dest = .thread t ∨ dest = .held)
    (hk : ThreadOk s.pool s.lock (Function.update place p dest) t k) {n : ℕ}
    (hn : n ≤ 1 ∧ (n = 1 ↔ dest = .held)) :
    Pooled ({ s with holders := Function.update s.holders p n }.goto t k) lists
      (Function.update place p dest) := by
  have hslot : ∀ i q, Function.update place p dest q = .slot i ↔ place q = .slot i := by
    intro i q
    refine update_eq_iff ?_ ?_ q
    · rcases hfrom with hf | hf <;> simp [hf]
    · rcases hdest with rfl | rfl <;> simp
  have hother : ∀ u, u ≠ t → ∀ q, place q = .thread u →
      Function.update place p dest q = .thread u := by
    intro u hu q hq
    refine (update_eq_iff ?_ ?_ q).mpr hq
    · rcases hfrom with hf | hf <;> simp [hf, hu.symm]
    · rcases hdest with rfl | rfl <;> simp [hu.symm]
  refine ⟨h.chains, ⟨h.listed.nodup, fun i q => (h.listed.mem i q).trans (hslot i q).symm,
    h.listed.outside⟩, ?_,
    threads_update hk fun u hu => (h.threads u).frame (hother u hu) (fun _ hi => hi)
      (fun _ _ => rfl) (fun i q _ hq => (hslot i q).mpr hq) fun _ _ => rfl, ?_, ?_, h.running⟩
  · intro q hq
    have hborn := h.unborn q hq
    refine (update_eq_iff ?_ ?_ q).mpr hborn
    · rcases hfrom with hf | hf <;> simp [hf]
    · rcases hdest with rfl | rfl <;> simp
  · intro q
    by_cases hq : q = p
    · subst hq
      simpa only [PoolState.goto, Function.update_self] using hn
    · simpa only [PoolState.goto, Function.update_of_ne hq] using h.holders q
  · intro q
    simp only [hslot]
    exact h.counts q

/-- `Alloc` takes the first buffer off the list. -/
theorem take (h : Pooled s lists place) {v : Option Ptr} (hpc : s.pc t = .allocSet i p v) :
    ∃ xs, lists i = p :: xs ∧
      Pooled ({ s.setSlot i v with
        handed := Function.update s.handed p (s.handed p + 1) }.goto t (.allocLeave i p))
      (Function.update lists i xs) (Function.update place p (.thread t)) := by
  have hok := h.threads t
  rw [hpc] at hok
  obtain ⟨hhead, hplace, rfl⟩ := hok.here
  have hlock := hok.region i rfl
  have hchain := h.chains i
  obtain ⟨xs, hxs⟩ : ∃ xs, lists i = p :: xs := by
    cases hl : lists i with
    | nil =>
        rw [hl, Chain.nil_iff, hhead] at hchain
        exact absurd hchain (by simp)
    | cons q xs =>
        rw [hl, Chain.cons_iff, hhead, Option.some.injEq] at hchain
        exact ⟨xs, by rw [hchain.1]⟩
  rw [hxs, Chain.cons_iff] at hchain
  refine ⟨xs, hxs, ?_, h.listed.take hxs, ?_, ?_, ?_, ?_, h.running⟩
  · intro j
    by_cases hj : j = i
    · subst hj
      simpa [PoolState.goto, PoolState.setSlot] using hchain.2
    · simpa [PoolState.goto, PoolState.setSlot, Function.update_of_ne hj] using h.chains j
  · intro q hq
    exact (update_eq_iff (by simp [hplace]) (by simp) q).mpr (h.unborn q hq)
  · refine threads_update ⟨?_, ?_, hok.slot, trivial⟩ fun u hu => (h.threads u).frame ?_
      (fun _ hi => hi) ?_ ?_ fun _ _ => rfl
    · intro q hq
      obtain rfl := Option.some.inj hq
      exact Function.update_self _ _ _
    · exact hok.region
    · intro q hq
      exact (update_eq_iff (by simp [hplace]) (by simp [hu.symm]) q).mpr hq
    · intro j hj
      have hne : j ≠ i := by
        rintro rfl
        rw [hlock, Option.some.injEq] at hj
        exact hu hj.symm
      exact Function.update_of_ne hne _ _
    · intro j q hj hq
      have hne : q ≠ p := by
        rintro rfl
        rw [hplace, Place.slot.injEq] at hq
        rw [← hq, hlock, Option.some.injEq] at hj
        exact hu hj.symm
      rw [Function.update_of_ne hne]
      exact hq
  · intro q
    rw [update_eq_iff (by simp [hplace]) (by simp) q]
    exact h.holders q
  · intro q
    by_cases hq : q = p
    · subst hq
      have hcounts := h.counts q
      have hfreed := hcounts.2.2.mpr ⟨i, hplace⟩
      have hnone : ¬ ∃ j, (Place.thread t : Place ι) = .slot j := by simp
      simp only [PoolState.goto, PoolState.setSlot, Function.update_self, iff_false_right hnone]
      omega
    · simpa only [PoolState.goto, PoolState.setSlot, Function.update_of_ne hq] using h.counts q

/-- `Free` puts the buffer in front of the list. -/
theorem put (h : Pooled s lists place) (hpc : s.pc t = .freeHead i p) :
    Pooled ({ s.setSlot i (some p) with
        freed := Function.update s.freed p (s.freed p + 1) }.goto t (.freeLeave i))
      (Function.update lists i (p :: lists i)) (Function.update place p (.slot i)) := by
  have hok := h.threads t
  rw [hpc] at hok
  have hlink : (s.pool.heap p).pNext = s.pool.slotBuffer i := hok.here
  have hplace := hok.mine p rfl
  have hlock := hok.region i rfl
  refine ⟨?_, h.listed.put hplace (hok.slot i rfl), ?_, ?_, ?_, ?_, h.running⟩
  · intro j
    by_cases hj : j = i
    · subst hj
      simpa [PoolState.goto, PoolState.setSlot, hlink] using h.chains j
    · simpa [PoolState.goto, PoolState.setSlot, Function.update_of_ne hj] using h.chains j
  · intro q hq
    exact (update_eq_iff (by simp [hplace]) (by simp) q).mpr (h.unborn q hq)
  · refine threads_update ⟨?_, hok.region, hok.slot, trivial⟩ fun u hu => (h.threads u).frame ?_
      (fun _ hi => hi) ?_ ?_ fun _ _ => rfl
    · intro q hq
      exact absurd hq (by simp [PoolPc.mine])
    · intro q hq
      exact (update_eq_iff (by simp [hplace, hu.symm]) (by simp) q).mpr hq
    · intro j hj
      have hne : j ≠ i := by
        rintro rfl
        rw [hlock, Option.some.injEq] at hj
        exact hu hj.symm
      exact Function.update_of_ne hne _ _
    · intro j q hj hq
      have hne : q ≠ p := by
        rintro rfl
        rw [hplace] at hq
        exact absurd hq (by simp)
      rw [Function.update_of_ne hne]
      exact hq
  · intro q
    rw [update_eq_iff (by simp [hplace]) (by simp) q]
    exact h.holders q
  · intro q
    by_cases hq : q = p
    · subst hq
      have hcounts := h.counts q
      have hnone : ¬ ∃ j, place q = .slot j := by simp [hplace]
      have hsome : ∃ j, (Place.slot i : Place ι) = .slot j := ⟨i, rfl⟩
      rw [iff_false_right hnone] at hcounts
      simp only [PoolState.goto, PoolState.setSlot, Function.update_self, iff_true_right hsome]
      omega
    · simpa only [PoolState.goto, PoolState.setSlot, Function.update_of_ne hq] using h.counts q

/-- `new` makes a buffer. -/
theorem create (h : Pooled s lists place) (t : ι) :
    Pooled ({ s with pool := { s.pool with created := s.pool.created + 1 } }.goto t
      (.initSize s.pool.created)) lists (Function.update place s.pool.created (.thread t)) := by
  have hplace := h.unborn s.pool.created (Nat.le_refl _)
  have hslot : ∀ i q, Function.update place s.pool.created (.thread t) q = .slot i ↔
      place q = .slot i := fun i q => update_eq_iff (by simp [hplace]) (by simp) q
  refine ⟨h.chains, ⟨h.listed.nodup, fun i q => (h.listed.mem i q).trans (hslot i q).symm,
    h.listed.outside⟩, ?_, ?_, ?_, ?_, h.running⟩
  · intro q hq
    have hne : q ≠ s.pool.created := by
      rintro rfl
      exact Nat.not_succ_le_self _ hq
    rw [Function.update_of_ne hne]
    exact h.unborn q (Nat.le_of_succ_le hq)
  · refine threads_update ⟨?_, ?_, ?_, trivial⟩ fun u hu => (h.threads u).frame ?_
      (fun _ hi => hi) (fun _ _ => rfl) (fun i q _ hq => (hslot i q).mpr hq) fun _ _ => rfl
    · intro q hq
      obtain rfl := Option.some.inj hq
      exact Function.update_self _ _ _
    · intro i hi
      exact absurd hi (by simp [PoolPc.region])
    · intro i hi
      exact absurd hi (by simp [PoolPc.slot, PoolPc.region])
    · intro q hq
      exact (update_eq_iff (by simp [hplace]) (by simp [hu.symm]) q).mpr hq
  · intro q
    rw [update_eq_iff (by simp [hplace]) (by simp) q]
    exact h.holders q
  · intro q
    simp only [hslot]
    exact h.counts q

/-- A call of `Enter` that returns. -/
theorem enter (h : Pooled s lists place) (hpc : s.pc t = l) (hstep : s.enter t i k = some s')
    (hslot : l.slot = some i) (hregion' : k.region = some i) (hslot' : k.slot = some i)
    (hmine : k.mine = l.mine) (hhere : k.Here s.pool place) : Pooled s' lists place := by
  simp only [PoolState.enter, Option.ite_none_right_eq_some, Option.some.injEq] at hstep
  obtain ⟨hfree, rfl⟩ := hstep
  have hok := hpc ▸ h.threads t
  refine h.move ?_ ⟨hmine ▸ hok.mine, ?_, hslot' ▸ hslot ▸ hok.slot, hhere⟩
  · intro u _ j hj
    have hne : j ≠ i := by
      rintro rfl
      rw [hfree] at hj
      exact absurd hj (by simp)
    rw [Function.update_of_ne hne]
    exact hj
  · intro j hj
    rw [hregion', Option.some.injEq] at hj
    subst hj
    exact Function.update_self _ _ _

/-- `Leave` -/
theorem leave (h : Pooled s lists place) (hpc : s.pc t = l) (hregion : l.region = some i)
    (hregion' : k.region = none) (hslot' : k.slot = none) (hmine : k.mine = l.mine)
    (hhere : k.Here s.pool place) : Pooled (s.leave t i k) lists place := by
  have hok := hpc ▸ h.threads t
  have hlock := hok.region i hregion
  refine h.move ?_ ⟨hmine ▸ hok.mine, by simp [hregion'], by simp [hslot'], hhere⟩
  intro u hu j hj
  have hne : j ≠ i := by
    rintro rfl
    rw [hlock, Option.some.injEq] at hj
    exact hu hj.symm
  rw [Function.update_of_ne hne]
  exact hj

/-- A thread goes on with the same buffer in its hands and the same slot. -/
theorem goto_same (h : Pooled s lists place) (hpc : s.pc t = l) (hmine : k.mine = l.mine)
    (hregion : k.region = l.region) (hslot : k.slot = l.slot) (hhere : k.Here s.pool place) :
    Pooled (s.goto t k) lists place := by
  have hok := hpc ▸ h.threads t
  exact h.goto ⟨hmine ▸ hok.mine, hregion ▸ hok.region, hslot ▸ hok.slot, hhere⟩

/-- The same, with an assignment to the buffer. -/
theorem init_same (h : Pooled s lists place) (hpc : s.pc t = l) (hmine : l.mine = some p)
    (hlink : ∀ i, l ≠ .freeHead i p) (b : BGIOBuffer) (hmine' : k.mine = l.mine)
    (hregion : k.region = l.region) (hslot : k.slot = l.slot)
    (hhere : k.Here (s.pool.setBuf p b) place) : Pooled ((s.setBuf p b).goto t k) lists place := by
  have hok := hpc ▸ h.threads t
  exact h.init (hpc ▸ hmine) (hpc ▸ hlink) b
    ⟨hmine' ▸ hok.mine, hregion ▸ hok.region, hslot ▸ hok.slot, hhere⟩

/-- The next step of a call. -/
theorem next (h : Pooled s lists place) (hstep : s.next t (s.pc t) = some s') :
    ∃ lists' place', Pooled s' lists' place' := by
  have hok := h.threads t
  generalize hpc : s.pc t = l at hstep hok
  cases l with
  | idle => exact absurd hstep (by simp [PoolState.next])
  | allocEnter i =>
      have henter : s.enter t i (.allocHead i) = some s' := hstep
      exact ⟨_, _, h.enter hpc henter rfl rfl rfl rfl trivial⟩
  | allocHead i =>
      cases hhead : s.pool.slotBuffer i with
      | some p =>
          simp only [PoolState.next, hhead, Option.some.injEq] at hstep
          subst hstep
          have hchain := h.chains i
          have hmem : p ∈ lists i := by
            rw [hhead] at hchain
            exact List.mem_of_mem_head? hchain.head?_eq
          exact ⟨_, _, h.goto_same hpc rfl rfl rfl ⟨hhead, (h.listed.mem i p).mp hmem⟩⟩
      | none =>
          simp only [PoolState.next, hhead, Option.some.injEq] at hstep
          subst hstep
          exact ⟨_, _, h.goto_same hpc rfl rfl rfl trivial⟩
  | allocNext i p =>
      obtain rfl := Option.some.inj hstep
      exact ⟨_, _, h.goto_same hpc rfl rfl rfl ⟨hok.here.1, hok.here.2, rfl⟩⟩
  | allocSet i p v =>
      obtain rfl := Option.some.inj hstep
      obtain ⟨xs, _, htake⟩ := h.take hpc
      exact ⟨_, _, htake⟩
  | allocLeave i p =>
      obtain rfl := Option.some.inj hstep
      exact ⟨_, _, h.leave hpc rfl rfl rfl rfl trivial⟩
  | allocLeaveNew i =>
      obtain rfl := Option.some.inj hstep
      exact ⟨_, _, h.leave hpc rfl rfl rfl rfl trivial⟩
  | allocNew =>
      obtain rfl := Option.some.inj hstep
      exact ⟨_, _, h.create t⟩
  | initSize p =>
      obtain rfl := Option.some.inj hstep
      exact ⟨_, _, h.init_same hpc rfl (by simp) _ rfl rfl rfl trivial⟩
  | initRef p =>
      obtain rfl := Option.some.inj hstep
      exact ⟨_, _, h.init_same hpc rfl (by simp) _ rfl rfl rfl trivial⟩
  | initNext p =>
      obtain rfl := Option.some.inj hstep
      exact ⟨_, _, h.init_same hpc rfl (by simp) _ rfl rfl rfl trivial⟩
  | allocReturn p =>
      obtain rfl := Option.some.inj hstep
      have hplace := hok.mine p rfl
      have hnone : s.holders p = 0 := by
        have hone := h.holders p
        rw [hplace] at hone
        have hne : s.holders p ≠ 1 := fun h1 => by simpa using hone.2.mp h1
        omega
      have hidle : ThreadOk s.pool s.lock (Function.update place p .held) t .idle :=
        ⟨by simp [PoolPc.mine], by simp [PoolPc.region], by simp [PoolPc.slot, PoolPc.region],
          trivial⟩
      exact ⟨_, _, h.pass (.inl hplace) (.inr rfl) hidle (by simp [hnone])⟩
  | freeTest p =>
      simp only [PoolState.next, h.running, Bool.false_eq_true, if_false,
        Option.some.injEq] at hstep
      subst hstep
      exact ⟨_, _, h.goto_same hpc rfl rfl rfl trivial⟩
  | freeCount p =>
      obtain rfl := Option.some.inj hstep
      have hslot : ∀ i, some (BufferPool.slotIndex (s.pool.nFreeBuffer - 1)) = some i →
          i < bufferPoolSize := by
        intro i hi
        exact Option.some.inj hi ▸ BufferPool.slotIndex_lt _
      exact ⟨_, _, (h.counters s.pool.nAllocBuffer (s.pool.nFreeBuffer - 1)).goto
        ⟨hok.mine, hok.region, hslot, trivial⟩⟩
  | freeEnter i p =>
      have henter : s.enter t i (.freeLink i p) = some s' := hstep
      exact ⟨_, _, h.enter hpc henter rfl rfl rfl rfl trivial⟩
  | freeLink i p =>
      obtain rfl := Option.some.inj hstep
      have hlink :
          ((s.pool.setBuf p { s.pool.heap p with pNext := s.pool.slotBuffer i }).heap p).pNext =
          s.pool.slotBuffer i := by
        simp [BufferPool.setBuf]
      exact ⟨_, _, h.init_same hpc rfl (by simp) _ rfl rfl rfl hlink⟩
  | freeHead i p =>
      obtain rfl := Option.some.inj hstep
      exact ⟨_, _, h.put hpc⟩
  | freeLeave i =>
      obtain rfl := Option.some.inj hstep
      exact ⟨_, _, h.leave hpc rfl rfl rfl rfl trivial⟩

/-- Every step. -/
theorem step {a : PoolAct ι} (h : Pooled s lists place) (hstep : poolStep s a = some s') :
    ∃ lists' place', Pooled s' lists' place' := by
  cases a with
  | alloc t =>
      simp only [poolStep, Option.ite_none_right_eq_some, Option.some.injEq] at hstep
      obtain ⟨hidle, rfl⟩ := hstep
      have hslot : ∀ i, some (BufferPool.slotIndex (s.pool.nAllocBuffer + 1)) = some i →
          i < bufferPoolSize := by
        intro i hi
        exact Option.some.inj hi ▸ BufferPool.slotIndex_lt _
      exact ⟨_, _, (h.counters (s.pool.nAllocBuffer + 1) s.pool.nFreeBuffer).goto
        ⟨by simp [PoolPc.mine], by simp [PoolPc.region], hslot, trivial⟩⟩
  | free t p =>
      simp only [poolStep, Option.ite_none_right_eq_some, Option.some.injEq] at hstep
      obtain ⟨⟨hidle, hpos⟩, rfl⟩ := hstep
      have hone := h.holders p
      have hplace : place p = .held := hone.2.mp (by omega)
      have hleft : s.holders p - 1 = 0 := by omega
      have htest : ThreadOk s.pool s.lock (Function.update place p (.thread t)) t
          (.freeTest p) := by
        refine ⟨?_, by simp [PoolPc.region], by simp [PoolPc.slot, PoolPc.region], trivial⟩
        intro q hq
        obtain rfl := Option.some.inj hq
        exact Function.update_self _ _ _
      exact ⟨_, _, h.pass (.inr hplace) (.inl rfl) htest (by simp [hleft])⟩
  | step t => exact h.next hstep
  | write p b =>
      simp only [poolStep, Option.ite_none_right_eq_some, Option.some.injEq] at hstep
      obtain ⟨hpos, rfl⟩ := hstep
      have hone := h.holders p
      have hplace : place p = .held := hone.2.mp (by omega)
      refine ⟨_, _, h.setBuf (by simp [hplace]) ?_ b⟩
      intro u i hu
      have hmine := (h.threads u).mine p (by rw [hu]; rfl)
      rw [hplace] at hmine
      exact absurd hmine (by simp)

end Pooled

/-- No buffer has been made. -/
theorem pooled_start (ι : Type) (heap : Heap) :
    Pooled (PoolState.start ι heap) (fun _ => []) fun _ => .unborn where
  chains := fun _ => rfl
  listed := ⟨fun _ => List.nodup_nil, by simp, fun _ _ => rfl⟩
  unborn := fun _ _ => rfl
  threads := fun t => by
    constructor <;> simp [PoolState.start, PoolPc.mine, PoolPc.region, PoolPc.slot, PoolPc.Here]
  holders := by simp [PoolState.start]
  counts := by simp [PoolState.start]
  running := rfl

/-! ## The pool never hands out a live buffer -/

/-- The free lists of the slots are `lists`, and what `Alloc` returns is nobody else's. -/
structure Separated (s : PoolState ι) (lists : ℕ → List Ptr) : Prop where
  /-- Each list ends. -/
  chains : s.pool.FreeLists lists
  /-- It does not come back to a buffer it has passed. -/
  acyclic : ∀ i, (lists i).Nodup
  disjoint : ∀ i j p, p ∈ lists i → p ∈ lists j → i = j
  /-- The lists hold the buffers whose `Free` has run once more than they were handed out
  again. -/
  mem : ∀ p, (∃ i < bufferPoolSize, p ∈ lists i) ↔ s.freed p = s.handed p + 1
  counts : ∀ p, s.handed p ≤ s.freed p ∧ s.freed p ≤ s.handed p + 1
  /-- No buffer has two holders, and none on a list has one. -/
  holders : ∀ p, s.holders p ≤ 1 ∧ ∀ i, p ∈ lists i → s.holders p = 0
  /-- `Alloc` returns a buffer that nobody has. -/
  fresh : ∀ t p, s.pc t = .allocReturn p → s.holders p = 0 ∧ (∀ i, p ∉ lists i) ∧
    ∀ u, u ≠ t → (s.pc u).mine ≠ some p

theorem Pooled.separated (h : Pooled s lists place) : Separated s lists where
  chains := h.chains
  acyclic := h.listed.nodup
  disjoint := by
    intro i j p hi hj
    rw [h.listed.mem] at hi hj
    rw [hi, Place.slot.injEq] at hj
    exact hj
  mem := by
    intro p
    rw [(h.counts p).2.2]
    constructor
    · rintro ⟨i, _, hi⟩
      exact ⟨i, (h.listed.mem i p).mp hi⟩
    · rintro ⟨i, hi⟩
      have hmem := (h.listed.mem i p).mpr hi
      refine ⟨i, ?_, hmem⟩
      by_contra hout
      rw [h.listed.outside i (by omega)] at hmem
      exact absurd hmem (by simp)
  counts := fun p => ⟨(h.counts p).1, (h.counts p).2.1⟩
  holders := by
    intro p
    have hone := h.holders p
    refine ⟨hone.1, fun i hi => ?_⟩
    rw [h.listed.mem] at hi
    have hne : s.holders p ≠ 1 := fun h1 => by
      have hheld := hone.2.mp h1
      rw [hi] at hheld
      exact absurd hheld (by simp)
    omega
  fresh := by
    intro t p hpc
    have hplace := (h.threads t).mine p (by rw [hpc]; rfl)
    have hone := h.holders p
    refine ⟨?_, ?_, ?_⟩
    · have hne : s.holders p ≠ 1 := fun h1 => by
        have hheld := hone.2.mp h1
        rw [hplace] at hheld
        exact absurd hheld (by simp)
      omega
    · intro i hi
      rw [h.listed.mem, hplace] at hi
      exact absurd hi (by simp)
    · intro u hu hmine
      have hother := (h.threads u).mine p hmine
      rw [hplace, Place.thread.injEq] at hother
      exact hu hother.symm

/-- **The pool never hands out a live buffer.** -/
theorem separated_of_reaches [DecidableEq ι] {heap : Heap}
    (h : Reaches poolStep Always (.start ι heap) s) : ∃ lists, Separated s lists := by
  have hpooled : ∃ lists place, Pooled s lists place := by
    refine h.invariant (fun s => ∃ lists place, Pooled s lists place)
      ⟨_, _, pooled_start ι heap⟩ ?_
    intro t a u ⟨lists, place, ht⟩ _ hstep
    exact ht.step hstep
  obtain ⟨lists, _, hs⟩ := hpooled
  exact ⟨lists, hs.separated⟩

/-- A thread makes a buffer and gives it back, another is about to return it again. -/
theorem separated_of_reaches_reused : ∃ s : PoolState Bool,
    s.freed 0 = 1 ∧ s.handed 0 = 1 ∧ s.pc true = .allocReturn 0 ∧ ∃ lists, Separated s lists := by
  obtain ⟨s, hrun, hfreed, hhanded, hpc⟩ : ∃ s,
      runAll poolStep (.start Bool fun _ => .blank)
        (.alloc false :: List.replicate 8 (.step false) ++
          .free false 0 :: List.replicate 6 (.step false) ++
          .alloc true :: List.replicate 8 (.step true)) = some s ∧
        s.freed 0 = 1 ∧ s.handed 0 = 1 ∧ s.pc true = .allocReturn 0 := ⟨_, rfl, rfl, rfl, rfl⟩
  exact ⟨s, hfreed, hhanded, hpc, separated_of_reaches (Reaches.always_of_runAll hrun)⟩

end BGIocpServer
