import BGIocpServer.RWLockExclusion
import Mathlib.Tactic.FinCases

/-!
# Lost wakeups

When the low half of `m_nCount` becomes 0 while a thread waits for `m_hWEvent`,
somebody must signal that event. `WriteUnlock` and the two back-offs do. `ReadUnlock`
signals `m_hREvent` instead, and the undo of a failed `WriteTryLock` signals nothing:
each of them can leave every thread asleep. No run without these two steps does.

## Main results

* `not_stuck_of_reaches`: runs in which no such step is the last chance to wake.
* `not_lossless`: a reader and a writer are enough to get stuck.
-/

namespace BGIocpServer
open Kit

/-- The event a thread is blocked on in `WaitForSingleObject`. -/
def RWPc.blockedOn : RWPc → Option RWEvent
  | .readLock (.wait e) => some e
  | .writeLock .wait => some .write
  | _ => none

/-- Counted among those who wait for `m_hWEvent`. -/
def RWPc.waitsWrite (k : RWPc) : Bool :=
  k.field = some .waitingWriters ∨ k.field = some .firstReader

/-- Inside `ReadLock`, about to signal `m_hWEvent` or just woken by it. -/
def ReadLockPc.wakesWrite : ReadLockPc → Bool
  | .leave _ wake => wake
  | .set _ => true
  | .enterAgain e | .retry e => e = .write
  | .enter | .load | .back _ | .wait _ | .done _ | .setRead => false

/-- Inside `WriteLock`, about to signal `m_hWEvent` or just woken by it. -/
def WriteLockPc.wakesWrite : WriteLockPc → Bool
  | .leave wake => wake
  | .set | .enterAgain | .retry => true
  | .enter | .back | .wait | .done => false

/-- Inside `ReadLock`, about to signal `m_hREvent`, to wait in place of the first reader,
or just woken by `m_hREvent`. -/
def ReadLockPc.wakesRead : ReadLockPc → Bool
  | .back _ | .setRead => true
  | .done n => n &&& 0xff0000#32 ≠ 0
  | .enterAgain e | .retry e => e = .read
  | .enter | .load | .leave _ _ | .set _ | .wait _ => false

/-- About to signal `m_hWEvent`, or just woken by it. -/
def RWPc.wakesWrite : RWPc → Bool
  | .readLock k => k.wakesWrite
  | .writeLock k => k.wakesWrite
  | .writeUnlock => true
  | .idle | .reading | .writing | .readUnlock | .writeTryLock => false

/-- About to deal with the readers that wait for `m_hREvent`. -/
def RWPc.wakesRead : RWPc → Bool
  | .readLock k => k.wakesRead
  | .idle | .reading | .writing | .writeLock _ | .readUnlock | .writeUnlock
  | .writeTryLock => false

variable {ι : Type}

/-- Nobody holds or tries, every thread in a call is blocked, one is, and no event that a
thread is blocked on is signalled. -/
def RWSystem.Stuck (s : RWSystem ι) : Prop :=
  (∀ t, s.pc t = .idle ∨ ∃ e ∈ (s.pc t).blockedOn, s.lock.event e = false) ∧
    ∃ t, (s.pc t).blockedOn ≠ none

/-- Nobody else holds or tries, and somebody else waits for `m_hWEvent`. -/
def RWSystem.LastOut (s : RWSystem ι) (t : ι) : Prop :=
  (∀ u, u ≠ t → (s.pc u).loWeight = 0) ∧ ∃ u, u ≠ t ∧ (s.pc u).waitsWrite = true

/-- No thread gives up its place in the low half by `ReadUnlock` or by the undo of
`WriteTryLock` as the last one. -/
def Wakes (s : RWSystem ι) : RWAct ι → Prop
  | .thread t .readUnlock => ¬ s.LastOut t
  | .thread t .next => s.pc t = .writeTryLock → ¬ s.LastOut t
  | _ => True

/-- Nobody holds or tries, and somebody waits for `m_hWEvent`. -/
def NeedsWrite (pc : ι → RWPc) : Prop :=
  (∀ t, (pc t).loWeight = 0) ∧ ∃ t, (pc t).waitsWrite = true

/-- Readers wait for `m_hREvent`, and none for `m_hWEvent`. -/
def NeedsRead (pc : ι → RWPc) : Prop :=
  (∃ t, (pc t).field = some .waitingReaders) ∧ ∀ t, (pc t).field ≠ some .firstReader

/-- Whoever needs an event finds it signalled, or somebody on the way to wake him. -/
structure WakeInv (s : RWSystem ι) : Prop where
  write : NeedsWrite s.pc → s.lock.hWEvent = true ∨ ∃ t, (s.pc t).wakesWrite = true
  read : NeedsRead s.pc → s.lock.hREvent = true ∨ ∃ t, (s.pc t).wakesRead = true

/-- How a step of one thread leaves the need of `m_hWEvent`. -/
inductive WriteNeed (m : BGRWLock) (k : RWPc) (m' : BGRWLock) (k' : RWPc) : Prop
  | signalled (h : m'.hWEvent = true)
  | waker (h : k'.wakesWrite = true)
  /-- The thread has read that there is no need. -/
  | met (h : ¬ BGRWLock.mustWake m'.nCount)
  /-- The thread gives up its place without a signal. -/
  | leaves (hk : k = .reading ∨ k = .writeTryLock) (hk' : k'.waitsWrite = false)
  | quiet (hm : m.hWEvent = true → m'.hWEvent = true) (hk : k.wakesWrite = false)
      (hfield : k'.field = k.field)

/-- How a step of one thread leaves the need of `m_hREvent`. -/
inductive ReadNeed (m : BGRWLock) (k : RWPc) (m' : BGRWLock) (k' : RWPc) : Prop
  | signalled (h : m'.hREvent = true)
  | waker (h : k'.wakesRead = true)
  | first (h : k'.field = some .firstReader)
  /-- The thread has seen the sign bit, which is not its own. -/
  | notFirst (n : BitVec 32) (hn : n ∈ k.seen) (hneg : n.toInt < 0)
      (hk : k.field ≠ some .firstReader)
  /-- The thread has seen that nobody waits for `m_hREvent`. -/
  | met (n : BitVec 32) (hn : n ∈ k'.seen) (hzero : n &&& 0xff0000#32 = 0)
  | quiet (hm : m.hREvent = true → m'.hREvent = true) (hk : k.wakesRead = false)
      (hwaiting : k'.field = some .waitingReaders → k.field = some .waitingReaders)
      (hfirst : k.field = some .firstReader → k'.field = some .firstReader)

/-- How a step of one thread deals with the two needs. -/
structure LocalWake (m : BGRWLock) (k : RWPc) (m' : BGRWLock) (k' : RWPc) : Prop where
  write : k'.loWeight = 0 → WriteNeed m k m' k'
  read : ReadNeed m k m' k'

section LocalSteps
variable {m m' : BGRWLock} {k k' : RWPc} {call : RWCall} {e : RWEvent}

/-- A step that moves no thread into or out of the waiting fields. -/
theorem LocalWake.of_same (hr : m.hREvent = true → m'.hREvent = true)
    (hw : m.hWEvent = true → m'.hWEvent = true) (hkr : k.wakesRead = false)
    (hkw : k.wakesWrite = false) (hfield : k'.field = k.field) : LocalWake m k m' k' where
  write _ := .quiet hw hkw hfield
  read := .quiet hr hkr (fun h => hfield ▸ h) fun h => hfield ▸ h

/-- A step to a point of the low half that leaves the read event alone. -/
theorem LocalWake.of_trying (hr : m.hREvent = true → m'.hREvent = true)
    (hlo : k'.loWeight ≠ 0) (hkr : k.wakesRead = false)
    (hk : k.field ≠ some .firstReader) (hk' : k'.field ≠ some .waitingReaders) :
    LocalWake m k m' k' where
  write h := absurd h hlo
  read := .quiet hr hkr (fun h => absurd h hk') fun h => absurd h hk

/-- The two back-offs: when the low half is 0, the thread will signal. -/
theorem WriteNeed.of_back (hwake : k'.wakesWrite = decide (short m'.nCount = 0)) :
    WriteNeed m k m' k' := by
  by_cases hshort : short m'.nCount = 0
  · exact .waker (by rw [hwake, decide_eq_true hshort])
  · exact .met fun h => hshort h.1

theorem enter_events (h : m.enter = some m') :
    m'.hREvent = m.hREvent ∧ m'.hWEvent = m.hWEvent := by
  obtain ⟨-, rfl⟩ := enter_eq h
  exact ⟨rfl, rfl⟩

theorem wait_write_events (h : m.waitForSingleObject .write = some m') :
    m'.hREvent = m.hREvent := by
  simp only [BGRWLock.waitForSingleObject] at h
  split at h
  · cases h
    rfl
  · simp at h

theorem wait_read_events (h : m.waitForSingleObject .read = some m') :
    m'.hWEvent = m.hWEvent := by
  simp only [BGRWLock.waitForSingleObject] at h
  split at h
  · cases h
    rfl
  · simp at h

attribute [local simp] RWPc.weight RWPc.field ReadLockPc.field WriteLockPc.field RWField.unit
  RWPc.loWeight RWPc.seen ReadLockPc.seen RWPc.waitsWrite RWPc.wakesWrite ReadLockPc.wakesWrite
  WriteLockPc.wakesWrite RWPc.wakesRead ReadLockPc.wakesRead BGRWLock.leave

theorem readLockNext_wake {k : ReadLockPc} (h : m.readLockNext k = some (m', k')) :
    LocalWake m (.readLock k) m' k' := by
  cases k with
  | enter =>
      simp only [BGRWLock.readLockNext, Option.map_eq_some_iff] at h
      obtain ⟨_, henter, heq⟩ := h
      cases heq
      apply LocalWake.of_trying <;> simp [enter_events henter]
  | load =>
      cases h
      exact ⟨by simp, .waker rfl⟩
  | back n =>
      simp only [BGRWLock.readLockNext, Option.some.injEq, Prod.mk.injEq] at h
      obtain ⟨rfl, rfl⟩ := h
      refine ⟨fun _ => .of_back rfl, ?_⟩
      by_cases hn : 0 ≤ n.toInt
      · exact .first (by simp [hn, RWEvent.readerField])
      · exact .notFirst n rfl (by omega) (by simp)
  | leave e wake =>
      simp only [BGRWLock.readLockNext, Option.some.injEq, Prod.mk.injEq] at h
      obtain ⟨rfl, rfl⟩ := h
      cases wake
      · apply LocalWake.of_same <;> simp
      · exact ⟨fun _ => .waker rfl, .quiet id rfl (by simp) (by simp)⟩
  | set e =>
      cases h
      exact ⟨fun _ => .signalled rfl, .quiet id rfl id id⟩
  | wait e =>
      simp only [BGRWLock.readLockNext, Option.map_eq_some_iff] at h
      obtain ⟨_, hwait, heq⟩ := h
      cases heq
      cases e
      · exact ⟨fun _ => .quiet (by simp [wait_read_events hwait]) rfl rfl, .waker rfl⟩
      · exact ⟨fun _ => .waker rfl, .quiet (by simp [wait_write_events hwait]) rfl id id⟩
  | enterAgain e =>
      simp only [BGRWLock.readLockNext, Option.map_eq_some_iff] at h
      obtain ⟨_, henter, heq⟩ := h
      cases heq
      obtain ⟨hr, hw⟩ := enter_events henter
      cases e
      · exact ⟨fun _ => .quiet (by simp [hw]) rfl rfl, .waker rfl⟩
      · exact ⟨fun _ => .waker rfl, .quiet (by simp [hr]) rfl id id⟩
  | retry e =>
      simp only [BGRWLock.readLockNext, Option.some.injEq, Prod.mk.injEq] at h
      obtain ⟨rfl, rfl⟩ := h
      split
      · exact ⟨by simp, .waker rfl⟩
      · refine ⟨by simp, ?_⟩
        by_cases hmore : (m.add (-BGRWLock.readerUnit e + 1)).nCount &&& 0xff0000#32 = 0
        · exact .met _ rfl hmore
        · exact .waker (decide_eq_true hmore)
  | done n =>
      simp only [BGRWLock.readLockNext, Option.some.injEq, Prod.mk.injEq] at h
      obtain ⟨rfl, rfl⟩ := h
      split
      · exact ⟨by simp, .waker rfl⟩
      · rename_i hzero
        exact ⟨by simp, .quiet id (decide_eq_false hzero) (by simp) (by simp)⟩
  | setRead =>
      cases h
      exact ⟨by simp, .signalled rfl⟩

theorem wakesWrite_leave (wake : Bool) : (RWPc.writeLock (.leave wake)).wakesWrite = wake := rfl

theorem writeLockNext_wake {k : WriteLockPc} (h : m.writeLockNext k = some (m', k')) :
    LocalWake m (.writeLock k) m' k' := by
  cases k with
  | enter =>
      simp only [BGRWLock.writeLockNext, Option.map_eq_some_iff] at h
      obtain ⟨_, henter, heq⟩ := h
      cases heq
      apply LocalWake.of_trying <;> simp [enter_events henter]
  | back =>
      obtain ⟨rfl, rfl⟩ := Prod.mk.inj (Option.some.inj h)
      exact ⟨fun _ => .of_back (wakesWrite_leave _), .quiet (by simp) rfl (by simp) (by simp)⟩
  | leave wake =>
      simp only [BGRWLock.writeLockNext, Option.some.injEq, Prod.mk.injEq] at h
      obtain ⟨rfl, rfl⟩ := h
      cases wake
      · apply LocalWake.of_same <;> simp
      · exact ⟨fun _ => .waker rfl, .quiet id rfl (by simp) (by simp)⟩
  | set =>
      cases h
      exact ⟨fun _ => .signalled rfl, .quiet id rfl id id⟩
  | wait =>
      simp only [BGRWLock.writeLockNext, Option.map_eq_some_iff] at h
      obtain ⟨_, hwait, heq⟩ := h
      cases heq
      exact ⟨fun _ => .waker rfl, .quiet (by simp [wait_write_events hwait]) rfl id id⟩
  | enterAgain =>
      simp only [BGRWLock.writeLockNext, Option.map_eq_some_iff] at h
      obtain ⟨_, henter, heq⟩ := h
      cases heq
      exact ⟨fun _ => .waker rfl, .quiet (by simp [enter_events henter]) rfl id id⟩
  | retry =>
      obtain ⟨rfl, rfl⟩ := Prod.mk.inj (Option.some.inj h)
      split <;> apply LocalWake.of_trying <;> simp
  | done =>
      simp only [BGRWLock.writeLockNext, Option.some.injEq, Prod.mk.injEq] at h
      obtain ⟨rfl, rfl⟩ := h
      apply LocalWake.of_trying <;> simp

/-- Every step of a thread is a `LocalWake`. -/
theorem threadStep_wake (h : threadStep m call k = some (m', k')) : LocalWake m k m' k' := by
  cases k with
  | idle =>
      cases call <;> simp only [threadStep, BGRWLock.readLock, BGRWLock.writeLock,
        BGRWLock.writeTryLock, Option.some.injEq, Prod.mk.injEq, reduceCtorEq] at h
      · split at h <;> simp only [Prod.mk.injEq] at h <;> obtain ⟨rfl, rfl⟩ := h <;>
          apply LocalWake.of_trying <;> simp
      · obtain ⟨rfl, rfl⟩ := h
        split <;> apply LocalWake.of_trying <;> simp
      · obtain ⟨rfl, rfl⟩ := h
        split <;> apply LocalWake.of_trying <;> simp
  | reading =>
      cases call <;> simp only [threadStep, BGRWLock.readUnlock, Option.some.injEq,
        Prod.mk.injEq, reduceCtorEq] at h
      obtain ⟨rfl, rfl⟩ := h
      split <;> exact ⟨fun _ => .leaves (.inl rfl) rfl, .quiet (by simp) rfl (by simp) (by simp)⟩
  | writing =>
      cases call <;> simp only [threadStep, BGRWLock.writeUnlock, Option.some.injEq,
        Prod.mk.injEq, reduceCtorEq] at h
      obtain ⟨rfl, rfl⟩ := h
      split
      · exact ⟨fun _ => .waker rfl, .quiet (by simp) rfl (by simp) (by simp)⟩
      · rename_i hno
        exact ⟨fun _ => .met hno, .quiet (by simp) rfl (by simp) (by simp)⟩
  | readLock k =>
      cases call <;> simp only [threadStep, reduceCtorEq] at h
      exact readLockNext_wake h
  | writeLock k =>
      cases call <;> simp only [threadStep, reduceCtorEq] at h
      exact writeLockNext_wake h
  | readUnlock =>
      cases call <;> simp only [threadStep, Option.some.injEq, Prod.mk.injEq, reduceCtorEq] at h
      obtain ⟨rfl, rfl⟩ := h
      exact ⟨fun _ => .quiet id rfl rfl, .signalled rfl⟩
  | writeUnlock =>
      cases call <;> simp only [threadStep, Option.some.injEq, Prod.mk.injEq, reduceCtorEq] at h
      obtain ⟨rfl, rfl⟩ := h
      exact ⟨fun _ => .signalled rfl, .quiet id rfl (by simp) (by simp)⟩
  | writeTryLock =>
      cases call <;> simp only [threadStep, Option.some.injEq, Prod.mk.injEq, reduceCtorEq] at h
      obtain ⟨rfl, rfl⟩ := h
      exact ⟨fun _ => .leaves (.inr rfl) rfl, .quiet (by simp) rfl (by simp) (by simp)⟩

end LocalSteps

variable [Fintype ι]

section Needs
variable {pc : ι → RWPc} {n : BitVec 32}

/-- The test of the unlock functions finds every need of `m_hWEvent`. -/
theorem mustWake_of_needsWrite (hcard : Fintype.card ι ≤ 127)
    (hcount : n.toNat = weigh RWPc.weight pc) (hfirst : countIn .firstReader pc ≤ 1)
    (h : NeedsWrite pc) : BGRWLock.mustWake n := by
  obtain ⟨hlo, t, ht⟩ := h
  have hzero : weigh RWPc.loWeight pc = 0 := weigh_eq_zero.mpr hlo
  have hhi := hi_of_count hcard hcount
  have hle := countIn_add_le pc
  rw [weigh_hiWeight] at hhi
  constructor
  · rw [short_eq_zero_iff, lo_of_count hcard hcount]
    exact hzero
  · intro hmask
    have hbyte := (bv_and_mask_eq_zero_iff n _ 8 24 rfl).mp hmask
    simp only [RWPc.waitsWrite, Bool.decide_or, Bool.or_eq_true, decide_eq_true_eq] at ht
    rcases ht with ht | ht
    · have hpos : 0 < countIn .waitingWriters pc := tally_pos (i := t) (by simp [ht])
      omega
    · have hpos : 0 < countIn .firstReader pc := tally_pos (i := t) (by simp [ht])
      omega

/-- With the third byte 0, no reader waits for `m_hREvent`. -/
theorem field_ne_waitingReaders (hcard : Fintype.card ι ≤ 127)
    (hcount : n.toNat = weigh RWPc.weight pc) (hzero : n &&& 0xff0000#32 = 0) (t : ι) :
    (pc t).field ≠ some .waitingReaders := by
  intro ht
  have hbyte := (bv_and_mask_eq_zero_iff n _ 8 16 rfl).mp hzero
  have hhi := hi_of_count hcard hcount
  have hle := countIn_add_le pc
  have hpos : 0 < countIn .waitingReaders pc := tally_pos (i := t) (by simp [ht])
  rw [weigh_hiWeight] at hhi
  omega

/-- With the sign bit set, some reader is the first. -/
theorem exists_firstReader (hcard : Fintype.card ι ≤ 127)
    (hseen : n.toNat / 2 ^ 16 = weigh RWPc.hiWeight pc) (hneg : n.toInt < 0) :
    ∃ t, (pc t).field = some .firstReader := by
  have hle := countIn_add_le pc
  have hbig : 2 ^ 31 ≤ n.toNat := by
    rw [BitVec.toInt_eq_toNat_cond] at hneg
    split at hneg <;> omega
  rw [weigh_hiWeight] at hseen
  have hpos : 0 < countIn .firstReader pc := by omega
  obtain ⟨t, ht⟩ := exists_of_tally_pos hpos
  exact ⟨t, by simpa using ht⟩

end Needs

variable [DecidableEq ι] {s s' : RWSystem ι} {t : ι} {m' : BGRWLock} {k' : RWPc}

/-- What a step of one thread preserves of the need of `m_hWEvent`. -/
theorem WakeInv.write_step (hcard : Fintype.card ι ≤ 127) (hinv : RWInv s) (h : WakeInv s)
    (hs : LocalStep s.lock (s.pc t) m' k') (hw : LocalWake s.lock (s.pc t) m' k')
    (hlast : s.pc t = .reading ∨ s.pc t = .writeTryLock → ¬ s.LastOut t)
    (hneed : NeedsWrite (Function.update s.pc t k')) :
    m'.hWEvent = true ∨ ∃ u, (Function.update s.pc t k' u).wakesWrite = true := by
  have hlo := hneed.1
  have hlo' : k'.loWeight = 0 := by simpa using hlo t
  rcases hw.write hlo' with hsig | hwaker | hmet | ⟨hk, hk'⟩ | ⟨hm, hk, hfield⟩
  · exact .inl hsig
  · exact .inr ⟨t, by simpa using hwaker⟩
  · exact absurd (mustWake_of_needsWrite hcard (hinv.count_step hcard hs) (hinv.first_step hs)
      hneed) hmet
  · -- the thread leaves as the last one, which the run excludes
    obtain ⟨u, hu⟩ := hneed.2
    have hne : u ≠ t := by
      rintro rfl
      simp [hk'] at hu
    refine absurd ⟨fun v hv => ?_, u, hne, ?_⟩ (hlast hk)
    · simpa [hv] using hlo v
    · simpa [hne] using hu
  · -- the need was there before, and so was whoever deals with it
    have hold : NeedsWrite s.pc := by
      constructor
      · intro u
        by_cases hu : u = t
        · rw [hu]
          simpa [RWPc.loWeight, RWPc.weight, hfield] using hlo'
        · simpa [hu] using hlo u
      · obtain ⟨u, hu⟩ := hneed.2
        refine ⟨u, ?_⟩
        by_cases hut : u = t
        · subst hut
          simpa [RWPc.waitsWrite, hfield] using hu
        · simpa [hut] using hu
    rcases h.write hold with hsig | ⟨u, hu⟩
    · exact .inl (hm hsig)
    · have hne : u ≠ t := by
        rintro rfl
        simp [hk] at hu
      exact .inr ⟨u, by simpa [hne] using hu⟩

/-- What a step of one thread preserves of the need of `m_hREvent`. -/
theorem WakeInv.read_step (hcard : Fintype.card ι ≤ 127) (hinv : RWInv s) (h : WakeInv s)
    (hs : LocalStep s.lock (s.pc t) m' k') (hw : LocalWake s.lock (s.pc t) m' k')
    (hneed : NeedsRead (Function.update s.pc t k')) :
    m'.hREvent = true ∨ ∃ u, (Function.update s.pc t k' u).wakesRead = true := by
  obtain ⟨⟨w, hwait⟩, hnone⟩ := hneed
  rcases hw.read with hsig | hwaker | hfirst | ⟨n, hn, hneg, hk⟩ | ⟨n, hn, hzero⟩ |
    ⟨hm, hk, hwaiting, hfirst⟩
  · exact .inl hsig
  · exact .inr ⟨t, by simpa using hwaker⟩
  · exact absurd hfirst (by simpa using hnone t)
  · obtain ⟨u, hu⟩ := exists_firstReader hcard (hinv.seen t n hn) hneg
    have hne : u ≠ t := by
      rintro rfl
      exact hk hu
    exact absurd hu (by simpa [hne] using hnone u)
  · rw [hs.seen_eq n hn] at hzero
    exact absurd hwait (field_ne_waitingReaders hcard (hinv.count_step hcard hs) hzero w)
  · -- the need was there before, and so was whoever deals with it
    have hold : NeedsRead s.pc := by
      constructor
      · refine ⟨w, ?_⟩
        by_cases hwt : w = t
        · subst hwt
          exact hwaiting (by simpa using hwait)
        · simpa [hwt] using hwait
      · intro u hu
        by_cases hut : u = t
        · subst hut
          exact hnone u (by simpa using hfirst hu)
        · exact hnone u (by simpa [hut] using hu)
    rcases h.read hold with hsig | ⟨u, hu⟩
    · exact .inl (hm hsig)
    · have hne : u ≠ t := by
        rintro rfl
        simp [hk] at hu
      exact .inr ⟨u, by simpa [hne] using hu⟩

/-- What one step preserves, if it does not leave the lock as the last one without a signal. -/
theorem rwStep_wake (hcard : Fintype.card ι ≤ 127) {a : RWAct ι} (hinv : RWInv s)
    (h : WakeInv s) (hwakes : Wakes s a) (hstep : rwStep s a = some s') : WakeInv s' := by
  cases a with
  | thread t call =>
      simp only [rwStep, Option.map_eq_some_iff] at hstep
      obtain ⟨r, hr, rfl⟩ := hstep
      have hs := threadStep_spec hinv.lock_of_inside hr
      have hw := threadStep_wake hr
      have hlast : s.pc t = .reading ∨ s.pc t = .writeTryLock → ¬ s.LastOut t := by
        rintro (hk | hk) <;> rw [hk] at hr
        · cases call <;> simp only [threadStep, reduceCtorEq] at hr
          exact hwakes
        · cases call <;> simp only [threadStep, reduceCtorEq] at hr
          exact hwakes hk
      exact ⟨h.write_step hcard hinv hs hw hlast, h.read_step hcard hinv hs hw⟩
  | signal e =>
      simp only [rwStep, Option.some.injEq] at hstep
      subst hstep
      constructor
      · intro hneed
        rcases h.write hneed with hsig | hwaker
        · exact .inl (by cases e <;> simp [BGRWLock.setEvent, hsig])
        · exact .inr hwaker
      · intro hneed
        rcases h.read hneed with hsig | hwaker
        · exact .inl (by cases e <;> simp [BGRWLock.setEvent, hsig])
        · exact .inr hwaker

/-- A blocked thread is counted in the field of its event, and wakes nobody. -/
theorem blockedOn_spec {k : RWPc} {e : RWEvent} (h : k.blockedOn = some e) :
    k.loWeight = 0 ∧ k.wakesWrite = false ∧ k.wakesRead = false ∧
      (k.waitsWrite = true ↔ e = .write) ∧ (e = .read → k.field = some .waitingReaders) := by
  cases k with
  | readLock k =>
      cases k <;> simp only [RWPc.blockedOn, Option.some.injEq, reduceCtorEq] at h
      subst h
      rename_i e
      cases e <;> decide
  | writeLock k =>
      cases k <;> simp only [RWPc.blockedOn, Option.some.injEq, reduceCtorEq] at h
      subst h
      decide
  | _ => simp [RWPc.blockedOn] at h

omit [DecidableEq ι] in
/-- Where nobody is on the way to wake another thread, some event is signalled for one
that is blocked on it. -/
theorem WakeInv.not_stuck {s : RWSystem ι} (h : WakeInv s) : ¬ s.Stuck := by
  rintro ⟨hasleep, t, ht⟩
  have hquiet : ∀ u, (s.pc u).loWeight = 0 ∧ (s.pc u).wakesWrite = false ∧
      (s.pc u).wakesRead = false := by
    intro u
    rcases hasleep u with hidle | ⟨e, he, -⟩
    · rw [hidle]
      decide
    · have hspec := blockedOn_spec he
      exact ⟨hspec.1, hspec.2.1, hspec.2.2.1⟩
  by_cases hneed : ∃ u, (s.pc u).waitsWrite = true
  · rcases h.write ⟨fun u => (hquiet u).1, hneed⟩ with hsig | ⟨u, hu⟩
    · obtain ⟨u, hu⟩ := hneed
      rcases hasleep u with hidle | ⟨e, he, hevent⟩
      · rw [hidle] at hu
        simp [RWPc.waitsWrite, RWPc.field] at hu
      · rw [(blockedOn_spec he).2.2.2.1.mp hu] at hevent
        exact absurd hsig (by simpa [BGRWLock.event] using hevent)
    · simp [(hquiet u).2.1] at hu
  · -- only readers are blocked, and the first of them is not among them
    have hblocked : ∃ e ∈ (s.pc t).blockedOn, s.lock.event e = false := by
      rcases hasleep t with hidle | hblocked
      · rw [hidle] at ht
        exact absurd rfl ht
      · exact hblocked
    obtain ⟨e, he, hevent⟩ := hblocked
    have heread : e = .read := by
      cases e with
      | read => rfl
      | write => exact absurd ⟨t, (blockedOn_spec he).2.2.2.1.mpr rfl⟩ hneed
    have hread : NeedsRead s.pc := by
      constructor
      · exact ⟨t, (blockedOn_spec he).2.2.2.2 heread⟩
      · exact fun u hu => hneed ⟨u, by simp [RWPc.waitsWrite, hu]⟩
    rw [heread] at hevent
    rcases h.read hread with hsig | ⟨u, hu⟩
    · exact absurd hsig (by simpa [BGRWLock.event] using hevent)
    · simp [(hquiet u).2.2] at hu

omit [Fintype ι] [DecidableEq ι] in
theorem RWSystem.start_wake : WakeInv (RWSystem.start : RWSystem ι) where
  write := fun ⟨_, t, ht⟩ => by simp [RWSystem.start, RWPc.waitsWrite, RWPc.field] at ht
  read := fun ⟨⟨t, ht⟩, _⟩ => by simp [RWSystem.start, RWPc.field] at ht

/-- **No wakeup is lost** in a run of at most 127 threads, signals from nowhere included,
in which no `ReadUnlock` and no failed `WriteTryLock` is the last to give up the low half
while a thread waits for `m_hWEvent`. -/
theorem not_stuck_of_reaches (hcard : Fintype.card ι ≤ 127)
    (h : Reaches rwStep Wakes (.start : RWSystem ι) s) : ¬ s.Stuck := by
  have hboth : RWInv s ∧ WakeInv s := by
    refine h.invariant (fun s => RWInv s ∧ WakeInv s) ⟨RWSystem.start_inv, RWSystem.start_wake⟩ ?_
    intro t a u hinv hwakes hstep
    exact ⟨rwStep_inv hcard hinv.1 hstep, rwStep_wake hcard hinv.1 hinv.2 hwakes hstep⟩
  exact hboth.2.not_stuck

/-- A step of a thread, not a signal from nowhere. -/
def ByThread (_ : RWSystem ι) : RWAct ι → Prop
  | .thread _ _ => True
  | .signal _ => False

instance (s : RWSystem ι) (t : ι) : Decidable (s.LastOut t) :=
  inferInstanceAs (Decidable ((∀ _, _ → _) ∧ ∃ _, _ ∧ _))

instance (s : RWSystem ι) : ∀ a, Decidable (Wakes s a)
  | .thread _ .readUnlock => inferInstanceAs (Decidable (¬ _))
  | .thread _ .next => inferInstanceAs (Decidable (_ → _))
  | .thread _ .readLock | .thread _ .writeLock | .thread _ .writeUnlock
  | .thread _ .writeTryLock | .signal _ => isTrue trivial

/-- A second writer waits, and the first one's `WriteUnlock` signals its event. -/
theorem not_stuck_of_reaches_signalled : ∃ s, runAll rwStep (.start : RWSystem (Fin 2))
    [.thread 0 .writeLock, .thread 1 .writeLock, .thread 1 .next, .thread 1 .next,
      .thread 1 .next, .thread 0 .writeUnlock, .thread 0 .next] = some s ∧
    s.pc 0 = .idle ∧ s.pc 1 = .writeLock .wait ∧ ¬ s.Stuck := by
  obtain ⟨s, hs, h0, h1⟩ : ∃ s, runAll rwStep (.start : RWSystem (Fin 2))
    [.thread 0 .writeLock, .thread 1 .writeLock, .thread 1 .next, .thread 1 .next,
      .thread 1 .next, .thread 0 .writeUnlock, .thread 0 .next] = some s ∧
    s.pc 0 = .idle ∧ s.pc 1 = .writeLock .wait := ⟨_, rfl, rfl, rfl⟩
  exact ⟨s, hs, h0, h1, not_stuck_of_reaches (by decide) (Reaches.of_runAll hs (by decide))⟩

/-- A writer waits for a reader, whose `ReadUnlock` signals the other event. -/
theorem not_lossless : ¬ ∀ s, Reaches rwStep ByThread (.start : RWSystem (Fin 2)) s →
    ¬ s.Stuck := by
  intro h
  obtain ⟨s, hs, hstuck⟩ : ∃ s, runAll rwStep (.start : RWSystem (Fin 2))
      [.thread 0 .readLock, .thread 1 .writeLock, .thread 1 .next, .thread 1 .next,
        .thread 1 .next, .thread 0 .readUnlock, .thread 0 .next] = some s ∧ s.Stuck := by
    refine ⟨_, rfl, fun t => ?_, 1, by decide⟩
    fin_cases t
    · exact .inl rfl
    · exact .inr ⟨.write, rfl, rfl⟩
  exact h s (.of_labels hs (by simp [ByThread])) hstuck

end BGIocpServer
