import BGIocpServer.RWLock

/-!
# Mutual exclusion, and what `m_nCount` counts

In every reachable state of at most 127 threads, signals from nowhere included,
`m_nCount` is the sum of what the threads add to it, field by field without a carry,
and a writer that holds the lock excludes everybody else.

## Main results

* `RWInv`: the invariant, `rwStep_inv`.
* `exclusion_of_reaches`: exclusion, and the five fields.
-/

namespace BGIocpServer
open Kit

variable {ι : Type} [Fintype ι]

/-- How many threads are counted in a field of `m_nCount`. -/
def countIn (f : RWField) (pc : ι → RWPc) : ℕ := tally (fun k => k.field = some f) pc

/-- The parties of the lock. -/
structure RWInv (s : RWSystem ι) : Prop where
  count : s.lock.nCount.toNat = weigh RWPc.weight s.pc
  mutex : s.lock.nLock.toNat = tally RWPc.isInside s.pc
  first : countIn .firstReader s.pc ≤ 1
  seen : ∀ t, ∀ n ∈ (s.pc t).seen, n.toNat / 2 ^ 16 = weigh RWPc.hiWeight s.pc
  excludes : ∀ t u, t ≠ u → (s.pc t).holdsWrite = true →
    (s.pc u).holdsWrite = false ∧ (s.pc u).holdsRead = false

section Fields
variable {pc : ι → RWPc} {k : RWPc} {n : BitVec 32}

theorem weight_eq (k : RWPc) : k.weight = k.loWeight + 2 ^ 16 * k.hiWeight := by
  simp only [RWPc.loWeight, RWPc.hiWeight]
  omega

/-- The low half of the sum is that of the threads that hold or try. -/
theorem weigh_weight_eq (pc : ι → RWPc) :
    weigh RWPc.weight pc = weigh RWPc.loWeight pc + 2 ^ 16 * weigh RWPc.hiWeight pc := by
  rw [← weigh_mul, ← weigh_add]
  congr 1
  funext k
  exact weight_eq k

theorem loWeight_eq (k : RWPc) : k.loWeight =
    (decide (k.field = some .readers)).toNat +
      2 ^ 8 * (decide (k.field = some .writers)).toNat := by
  simp only [RWPc.loWeight, RWPc.weight]
  rcases k.field with _ | f
  · rfl
  · cases f <;> decide

theorem hiWeight_eq (k : RWPc) : k.hiWeight =
    (decide (k.field = some .waitingReaders)).toNat +
      2 ^ 8 * (decide (k.field = some .waitingWriters)).toNat +
      2 ^ 15 * (decide (k.field = some .firstReader)).toNat := by
  simp only [RWPc.hiWeight, RWPc.weight]
  rcases k.field with _ | f
  · rfl
  · cases f <;> decide

theorem weigh_loWeight (pc : ι → RWPc) :
    weigh RWPc.loWeight pc = countIn .readers pc + 2 ^ 8 * countIn .writers pc := by
  simp only [countIn, tally]
  rw [← weigh_mul, ← weigh_add]
  congr 1
  funext k
  exact loWeight_eq k

theorem weigh_hiWeight (pc : ι → RWPc) :
    weigh RWPc.hiWeight pc = countIn .waitingReaders pc + 2 ^ 8 * countIn .waitingWriters pc +
      2 ^ 15 * countIn .firstReader pc := by
  simp only [countIn, tally]
  rw [← weigh_mul, ← weigh_mul, ← weigh_add, ← weigh_add]
  congr 1
  funext k
  exact hiWeight_eq k

/-- Every thread is counted in at most one field. -/
theorem countIn_add_le (pc : ι → RWPc) : countIn .readers pc + countIn .writers pc +
    countIn .waitingReaders pc + countIn .waitingWriters pc + countIn .firstReader pc ≤
      Fintype.card ι := by
  simp only [countIn, tally, ← weigh_add]
  calc weigh _ pc ≤ ∑ _i : ι, 1 := Finset.sum_le_sum fun t _ => ?_
    _ = Fintype.card ι := by simp
  rcases (pc t).field with _ | f
  · exact Nat.zero_le _
  · cases f <;> decide

/-- The low half has no carry into the high half. -/
theorem weigh_loWeight_lt (hcard : Fintype.card ι ≤ 127) : weigh RWPc.loWeight pc < 2 ^ 16 := by
  have hle := countIn_add_le pc
  rw [weigh_loWeight]
  omega

/-- The whole sum has none out of the word, if one reader at most has the sign bit. -/
theorem weigh_weight_lt (hcard : Fintype.card ι ≤ 127) (hfirst : countIn .firstReader pc ≤ 1) :
    weigh RWPc.weight pc < 2 ^ 32 := by
  have hle := countIn_add_le pc
  have hlo : weigh RWPc.loWeight pc < 2 ^ 16 := weigh_loWeight_lt hcard
  rw [weigh_weight_eq, weigh_hiWeight]
  omega

/-- `(short)n == 0`. -/
theorem short_eq_zero_iff : short n = 0 ↔ n.toNat % 2 ^ 16 = 0 := setWidth_eq_zero_iff n 16

/-- `(n & 0xff00) == 0`. -/
theorem writersField_eq_zero_iff : n &&& 0xff00#32 = 0 ↔ n.toNat / 2 ^ 8 % 2 ^ 8 = 0 :=
  bv_and_mask_eq_zero_iff n _ 8 8 rfl

theorem field_of_holdsWrite (h : k.holdsWrite = true) : k.field = some .writers := by
  cases k with
  | writing => rfl
  | writeLock k =>
      simp only [RWPc.holdsWrite, decide_eq_true_eq] at h
      rw [h]
      rfl
  | _ => simp [RWPc.holdsWrite] at h

theorem field_of_holdsRead (h : k.holdsRead = true) : k.field = some .readers := by
  cases k with
  | reading => rfl
  | readLock k => cases k <;> first | rfl | simp [RWPc.holdsRead, ReadLockPc.granted] at h
  | _ => simp [RWPc.holdsRead] at h

/-- A thread that adds nothing to the low half does not hold the lock. -/
theorem not_holds_of_loWeight (h : k.loWeight = 0) :
    k.holdsWrite = false ∧ k.holdsRead = false := by
  rw [loWeight_eq] at h
  constructor
  · by_contra hw
    rw [field_of_holdsWrite (Bool.not_eq_false _ ▸ hw)] at h
    simp at h
  · by_contra hr
    rw [field_of_holdsRead (Bool.not_eq_false _ ▸ hr)] at h
    simp at h

/-- The high half of the word is that of the threads that wait. -/
theorem hi_of_count (hcard : Fintype.card ι ≤ 127) (hcount : n.toNat = weigh RWPc.weight pc) :
    n.toNat / 2 ^ 16 = weigh RWPc.hiWeight pc := by
  have hlo : weigh RWPc.loWeight pc < 2 ^ 16 := weigh_loWeight_lt hcard
  rw [hcount, weigh_weight_eq]
  omega

/-- The low half of the word is that of the threads that hold or try. -/
theorem lo_of_count (hcard : Fintype.card ι ≤ 127) (hcount : n.toNat = weigh RWPc.weight pc) :
    n.toNat % 2 ^ 16 = weigh RWPc.loWeight pc := by
  have hlo : weigh RWPc.loWeight pc < 2 ^ 16 := weigh_loWeight_lt hcard
  rw [hcount, weigh_weight_eq]
  omega

/-- With the low half 0, nobody holds or tries. -/
theorem loWeight_eq_zero (hcard : Fintype.card ι ≤ 127) (hcount : n.toNat = weigh RWPc.weight pc)
    (hshort : short n = 0) (t : ι) : (pc t).loWeight = 0 := by
  rw [short_eq_zero_iff, lo_of_count hcard hcount] at hshort
  exact weigh_eq_zero.mp hshort t

/-- With the second byte 0, no writer holds or tries. -/
theorem field_ne_writers (hcard : Fintype.card ι ≤ 127) (hcount : n.toNat = weigh RWPc.weight pc)
    (hfield : n &&& 0xff00#32 = 0) (t : ι) : (pc t).field ≠ some .writers := by
  have hle := countIn_add_le pc
  have hlo := lo_of_count hcard hcount
  rw [weigh_loWeight] at hlo
  rw [writersField_eq_zero_iff] at hfield
  have hzero : countIn .writers pc = 0 := by omega
  simpa using tally_eq_zero.mp hzero t

theorem isInside_of_seen (h : n ∈ k.seen) : k.isInside = true := by
  cases k with
  | readLock k => cases k <;> first | rfl | simp [RWPc.seen, ReadLockPc.seen] at h
  | _ => simp [RWPc.seen] at h

end Fields

namespace RWInv
variable {s : RWSystem ι} {t : ι} {m' : BGRWLock} {k' : RWPc}

variable [DecidableEq ι]

/-- The sign bit is taken only by a reader that has seen it clear. -/
theorem first_step (h : RWInv s) (hs : LocalStep s.lock (s.pc t) m' k') :
    countIn .firstReader (Function.update s.pc t k') ≤ 1 := by
  have hupd := tally_update (fun k => k.field = some .firstReader) s.pc t k'
  have hfirst := h.first
  simp only [countIn] at hfirst ⊢
  by_cases hk' : k'.field = some .firstReader
  · rcases hs.firstReader hk' with hk | ⟨n, hn, hpos⟩
    · simp only [hk, hk', decide_true, Bool.toNat_true] at hupd
      omega
    · have hseen := h.seen t n hn
      rw [weigh_hiWeight] at hseen
      have hlt : n.toNat < 2 ^ 31 := by
        rw [BitVec.toInt_eq_toNat_cond] at hpos
        split at hpos <;> omega
      simp only [countIn] at hseen
      simp only [hk', decide_true, Bool.toNat_true] at hupd
      omega
  · simp only [hk', decide_false, Bool.toNat_false] at hupd
    omega

theorem count_step (h : RWInv s) (hcard : Fintype.card ι ≤ 127)
    (hs : LocalStep s.lock (s.pc t) m' k') :
    m'.nCount.toNat = weigh RWPc.weight (Function.update s.pc t k') := by
  have hupd := weigh_update RWPc.weight s.pc t k'
  have hlt := weigh_weight_lt hcard (h.first_step hs)
  have hword := hs.word
  have hm' := m'.nCount.isLt
  rw [Nat.ModEq, h.count] at hword
  omega

theorem mutex_step (h : RWInv s) (hs : LocalStep s.lock (s.pc t) m' k') :
    m'.nLock.toNat = tally RWPc.isInside (Function.update s.pc t k') := by
  have hupd := tally_update RWPc.isInside s.pc t k'
  have hmutex := h.mutex
  have hlock := hs.mutex
  omega

/-- Who is inside holds the mutex, alone. -/
theorem outside_of_inside (h : RWInv s) {u : ι} (hne : u ≠ t)
    (hu : (s.pc u).isInside = true) : (s.pc t).isInside = false := by
  by_contra ht
  have htwo := two_le_tally hne hu (Bool.not_eq_false _ ▸ ht)
  have hmutex := h.mutex
  have hle := Bool.toNat_le s.lock.nLock
  omega

/-- Only the thread inside changes the high half, so what it has seen stays current. -/
theorem seen_step (h : RWInv s) (hcard : Fintype.card ι ≤ 127)
    (hs : LocalStep s.lock (s.pc t) m' k') (u : ι) :
    ∀ n ∈ (Function.update s.pc t k' u).seen,
      n.toNat / 2 ^ 16 = weigh RWPc.hiWeight (Function.update s.pc t k') := by
  intro n hn
  by_cases hut : u = t
  · rw [hut, Function.update_self] at hn
    rw [hs.seen_eq n hn]
    exact hi_of_count hcard (h.count_step hcard hs)
  · rw [Function.update_of_ne hut] at hn
    have hout := h.outside_of_inside hut (isInside_of_seen hn)
    have hupd := weigh_update RWPc.hiWeight s.pc t k'
    rw [hs.hiWeight_eq hout] at hupd
    rw [h.seen u n hn]
    omega

/-- A thread that is granted the write lock excludes the others, and one that is granted
the read lock excludes the writers. -/
theorem excludes_step (h : RWInv s) (hcard : Fintype.card ι ≤ 127)
    (hs : LocalStep s.lock (s.pc t) m' k') (u v : ι) (hne : u ≠ v)
    (hu : (Function.update s.pc t k' u).holdsWrite = true) :
    (Function.update s.pc t k' v).holdsWrite = false ∧
      (Function.update s.pc t k' v).holdsRead = false := by
  by_cases hut : u = t
  · subst hut
    rw [Function.update_self] at hu
    rw [Function.update_of_ne hne.symm]
    rcases hs.holdsWrite hu with hold | ⟨hshort, -⟩
    · exact h.excludes u v hne hold
    · exact not_holds_of_loWeight (loWeight_eq_zero hcard h.count hshort v)
  · rw [Function.update_of_ne hut] at hu
    by_cases hvt : v = t
    · subst hvt
      rw [Function.update_self]
      constructor
      · by_contra hv
        rcases hs.holdsWrite (Bool.not_eq_false _ ▸ hv) with hold | ⟨hshort, -⟩
        · simp [(h.excludes v u hne.symm hold).1] at hu
        · simp [(not_holds_of_loWeight (loWeight_eq_zero hcard h.count hshort u)).1] at hu
      · by_contra hv
        rcases hs.holdsRead (Bool.not_eq_false _ ▸ hv) with hold | hzero
        · simp [(h.excludes u v hne hu).2] at hold
        · have hno := field_ne_writers hcard (h.count_step hcard hs) hzero u
          rw [Function.update_of_ne hut] at hno
          exact hno (field_of_holdsWrite hu)
    · rw [Function.update_of_ne hvt]
      exact h.excludes u v hne hu

/-- What a step of one thread preserves. -/
theorem thread (h : RWInv s) (hcard : Fintype.card ι ≤ 127)
    (hs : LocalStep s.lock (s.pc t) m' k') : RWInv ⟨m', Function.update s.pc t k'⟩ where
  count := h.count_step hcard hs
  mutex := h.mutex_step hs
  first := h.first_step hs
  seen := h.seen_step hcard hs
  excludes := h.excludes_step hcard hs

omit [DecidableEq ι] in
/-- What every step needs to know of the mutex. -/
theorem lock_of_inside (h : RWInv s) (ht : (s.pc t).isInside = true) : s.lock.nLock = true := by
  have hpos := tally_pos (P := RWPc.isInside) ht
  have hmutex := h.mutex
  by_contra hfree
  simp only [Bool.not_eq_true] at hfree
  rw [hfree, Bool.toNat_false] at hmutex
  omega

end RWInv

variable [DecidableEq ι] {s s' : RWSystem ι}

/-- What one step of the system preserves, a signal from nowhere included. -/
theorem rwStep_inv (hcard : Fintype.card ι ≤ 127) {a : RWAct ι} (h : RWInv s)
    (hstep : rwStep s a = some s') : RWInv s' := by
  cases a with
  | thread t call =>
      simp only [rwStep, Option.map_eq_some_iff] at hstep
      obtain ⟨r, hr, rfl⟩ := hstep
      exact h.thread hcard (threadStep_spec h.lock_of_inside hr)
  | signal e =>
      simp only [rwStep, Option.some.injEq] at hstep
      subst hstep
      constructor
      · rw [setEvent_nCount]
        exact h.count
      · rw [setEvent_nLock]
        exact h.mutex
      · exact h.first
      · exact h.seen
      · exact h.excludes

omit [DecidableEq ι] in
theorem RWSystem.start_inv : RWInv (RWSystem.start : RWSystem ι) where
  count := by simp [RWSystem.start, BGRWLock.new, weigh, RWPc.weight, RWPc.field]
  mutex := by simp [RWSystem.start, BGRWLock.new, RWPc.isInside]
  first := by simp [RWSystem.start, countIn, RWPc.field]
  seen t n hn := by simp [RWSystem.start, RWPc.seen] at hn
  excludes t u _ ht := by simp [RWSystem.start, RWPc.holdsWrite] at ht

/-- What every run preserves. -/
theorem RWSystem.inv_of_reaches (hcard : Fintype.card ι ≤ 127) {C : RWSystem ι → RWAct ι → Prop}
    (h : Reaches rwStep C .start s) : RWInv s :=
  h.invariant RWInv start_inv fun _ _ _ hinv _ hstep => rwStep_inv hcard hinv hstep

/-- A thread that holds the write lock excludes every other reader and writer. -/
def RWSystem.Exclusive (s : RWSystem ι) : Prop :=
  ∀ t u, t ≠ u → (s.pc t).holdsWrite = true →
    (s.pc u).holdsWrite = false ∧ (s.pc u).holdsRead = false

/-- `m_nCount` decodes to the counts: its five fields, and the word as their sum. -/
structure RWSystem.Decodes (s : RWSystem ι) : Prop where
  readers : s.lock.nCount.toNat % 2 ^ 8 = countIn .readers s.pc
  writers : s.lock.nCount.toNat / 2 ^ 8 % 2 ^ 8 = countIn .writers s.pc
  waitingReaders : s.lock.nCount.toNat / 2 ^ 16 % 2 ^ 8 = countIn .waitingReaders s.pc
  waitingWriters : s.lock.nCount.toNat / 2 ^ 24 % 2 ^ 7 = countIn .waitingWriters s.pc
  firstReader : s.lock.nCount.msb.toNat = countIn .firstReader s.pc
  sum : s.lock.nCount.toNat = countIn .readers s.pc + 0x100 * countIn .writers s.pc +
    0x10000 * countIn .waitingReaders s.pc + 0x1000000 * countIn .waitingWriters s.pc +
      0x80000000 * countIn .firstReader s.pc

omit [DecidableEq ι] in
theorem RWInv.decodes (h : RWInv s) (hcard : Fintype.card ι ≤ 127) : s.Decodes := by
  have hle := countIn_add_le s.pc
  have hfirst := h.first
  have hcount := h.count
  rw [weigh_weight_eq, weigh_loWeight, weigh_hiWeight] at hcount
  have hn : s.lock.nCount.toNat = countIn .readers s.pc + 2 ^ 8 * (countIn .writers s.pc +
      2 ^ 8 * (countIn .waitingReaders s.pc + 2 ^ 8 * (countIn .waitingWriters s.pc +
        2 ^ 7 * countIn .firstReader s.pc))) := by omega
  obtain ⟨hreaders, h8⟩ := split_field hn (by omega)
  obtain ⟨hwriters, h16⟩ := split_field h8 (by omega)
  obtain ⟨hwaitingReaders, h24⟩ := split_field h16 (by omega)
  obtain ⟨hwaitingWriters, h31⟩ := split_field h24 (by omega)
  constructor
  · exact hreaders
  · exact hwriters
  · simpa [Nat.div_div_eq_div_mul] using hwaitingReaders
  · simpa [Nat.div_div_eq_div_mul] using hwaitingWriters
  · rw [BitVec.msb_eq_decide, ← h31]
    by_cases hbig : 2 ^ (32 - 1) ≤ s.lock.nCount.toNat
    · rw [decide_eq_true hbig, Bool.toNat_true]
      omega
    · rw [decide_eq_false hbig, Bool.toNat_false]
      omega
  · omega

/-- **Mutual exclusion.** In every reachable state of at most 127 threads, signals from
nowhere included, a writer that holds the lock is alone, `m_nCount` decodes to the
counts of its fields, and it is 0 when no thread uses the lock. -/
theorem exclusion_of_reaches (hcard : Fintype.card ι ≤ 127)
    (h : Reaches rwStep Always (.start : RWSystem ι) s) :
    s.Exclusive ∧ s.Decodes ∧ ((∀ t, s.pc t = .idle) → s.lock.nCount = 0) := by
  have hinv := RWSystem.inv_of_reaches hcard h
  refine ⟨hinv.excludes, hinv.decodes hcard, fun hidle => ?_⟩
  have hzero : weigh RWPc.weight s.pc = 0 := weigh_eq_zero.mpr fun t => by
    rw [hidle t]
    rfl
  have hcount := hinv.count
  rw [hzero] at hcount
  exact BitVec.eq_of_toNat_eq hcount

/-- A writer that holds the lock, and a reader that a stale signal wakes. -/
theorem exclusion_of_reaches_stale : ∃ s, runAll rwStep (.start : RWSystem (Fin 2))
    [.thread 0 .writeLock, .thread 1 .readLock, .thread 1 .next, .thread 1 .next, .thread 1 .next,
      .thread 1 .next, .signal .write, .thread 1 .next, .thread 1 .next, .thread 1 .next,
      .thread 1 .next] = some s ∧ s.pc 1 = .readLock (.leave .write false) ∧
    s.Exclusive ∧ s.Decodes ∧ ((∀ t, s.pc t = .idle) → s.lock.nCount = 0) := by
  obtain ⟨s, hs, hpc⟩ : ∃ s, runAll rwStep (.start : RWSystem (Fin 2))
    [.thread 0 .writeLock, .thread 1 .readLock, .thread 1 .next, .thread 1 .next, .thread 1 .next,
      .thread 1 .next, .signal .write, .thread 1 .next, .thread 1 .next, .thread 1 .next,
      .thread 1 .next] = some s ∧ s.pc 1 = .readLock (.leave .write false) := ⟨_, rfl, rfl⟩
  exact ⟨s, hs, hpc, exclusion_of_reaches (by decide) (Reaches.always_of_runAll hs)⟩

end BGIocpServer
