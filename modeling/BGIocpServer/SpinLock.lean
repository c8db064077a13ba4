import BGIocpServer.LockInfo
import BGIocpServer.Kit.Mutex
import BGIocpServer.Kit.Simulation
import Mathlib.Logic.Function.Basic

/-!
# `BGIOSpinLock`

One spin lock under any number of threads. Every access to `m_nLock` is an interlocked exchange
and a step of its own: that of `Enter`, those of the three loops of `Wait`, that of `TryEnter`
and that of `Leave`. A thread that is inside may call `Enter` again; the lock is not recursive.

## Main definitions

* `SpinPc`, `SpinLock`, `SpinAct`, `spinStep`: the steps.
* `SpinLock.Grants`: who is inside, as the value of `m_nLock` tells.

## Main results

* `mutex_of_reaches`: the lock is a mutex.
* `enter_returns_iff`: when a call of `Enter` can still return.
-/

namespace BGIocpServer
open Kit

/-- Where a thread is in a call on the lock. -/
inductive SpinPc
  /-- Outside every call. -/
  | idle
  /-- In `Enter`, at its `InterlockedExchange`. -/
  | enter
  /-- In `Wait`, at the test of the loop with `_mm_pause`. -/
  | pause (count : ℤ)
  /-- At the test of the loop with `SwitchToThread`. -/
  | switch (count : ℤ)
  /-- In the loop with `Sleep`. -/
  | sleep
  /-- In `Leave`, at its `InterlockedExchange`. -/
  | leave
  deriving DecidableEq, Repr

/-- The thread is in `Enter`. -/
def SpinPc.waiting : SpinPc → Bool
  | .enter | .pause _ | .switch _ | .sleep => true
  | .idle | .leave => false

/-- A thread in `Enter` is not in `Leave`. -/
theorem ne_of_waiting {k : SpinPc} (h : k.waiting = true) : k ≠ .leave := by
  rintro rfl
  cases h

/-- A lock and the threads. -/
structure SpinLock (ι : Type) where
  /-- A `long`. -/
  nLock : ℤ
  info : ι → BGLockInfo
  pc : ι → SpinPc
  /-- `Enter`, or a `TryEnter` that succeeds, has returned, and `Leave` has not let go since. -/
  inside : ι → Bool

/-- The steps of a thread. -/
inductive SpinAct (ι : Type)
  /-- `Enter` is called: `IncPendingLock`. -/
  | enter (t : ι) (now : BitVec 64)
  /-- `TryEnter` -/
  | tryEnter (t : ι)
  /-- A thread that is inside calls `Leave`: `DecPendingLock`. -/
  | leave (t : ι)
  /-- The next step of a call. -/
  | step (t : ι)

namespace SpinLock
variable {ι : Type}

/-- The constructor. -/
def new (info : ι → BGLockInfo) : SpinLock ι where
  nLock := 0
  info := info
  pc := fun _ => .idle
  inside := fun _ => false

variable [DecidableEq ι]

/-- The thread goes on at `k`. -/
def goto (s : SpinLock ι) (t : ι) (k : SpinPc) : SpinLock ι :=
  { s with pc := Function.update s.pc t k }

/-- The thread's words change. -/
def setInfo (s : SpinLock ι) (t : ι) (info : BGLockInfo) : SpinLock ι :=
  { s with info := Function.update s.info t info }

/-- `InterlockedExchange(&m_nLock, 1)` and the test of what it returns: the thread is inside, or
goes on at `k`. -/
def exchange (s : SpinLock ι) (t : ι) (k : SpinPc) : SpinLock ι :=
  if s.nLock = 0 then
    { s with nLock := 1, inside := Function.update s.inside t true }.goto t .idle
  else { s with nLock := 1 }.goto t k

/-- `InterlockedExchange(&m_nLock, 0)` of `Leave`. -/
def letGo (s : SpinLock ι) (t : ι) : SpinLock ι :=
  { s with nLock := 0, inside := Function.update s.inside t false }.goto t .idle

/-- The next step of a call. -/
def next (s : SpinLock ι) (t : ι) : SpinPc → Option (SpinLock ι)
  | .idle => none
  | .enter => some (s.exchange t (.pause 4000))
  | .pause count =>
      if 0 ≤ count - 1 then some (s.exchange t (.pause (count - 1)))
      else some (s.goto t (.switch 4000))
  | .switch count =>
      if 0 ≤ count - 1 then some (s.exchange t (.switch (count - 1)))
      else some (s.goto t .sleep)
  | .sleep => some (s.exchange t .sleep)
  | .leave => some (s.letGo t)

end SpinLock

/-- One step of a spin lock. -/
def spinStep {ι : Type} [DecidableEq ι] (s : SpinLock ι) : SpinAct ι → Option (SpinLock ι)
  | .enter t now =>
      if s.pc t = .idle then
        some ((s.setInfo t ((s.info t).exchangeTicks now).incPendingLock).goto t .enter)
      else none
  | .tryEnter t => if s.pc t = .idle then some (s.exchange t .idle) else none
  | .leave t =>
      if s.pc t = .idle ∧ s.inside t = true then
        some ((s.setInfo t (s.info t).decPendingLock).goto t .leave)
      else none
  | .step t => s.next t (s.pc t)

variable {ι : Type} {s s' : SpinLock ι} {a : SpinAct ι} {o : Option ι} {t u : ι} {k : SpinPc}

/-! ## Mutual exclusion -/

/-- The thread `o`, if there is one, is inside and nobody else is, and `m_nLock` tells so. -/
structure SpinLock.Grants (s : SpinLock ι) (o : Option ι) : Prop where
  nLock : s.nLock = if o = none then 0 else 1
  inside : ∀ t, s.inside t = true ↔ o = some t
  leaving : ∀ t, s.pc t = .leave → s.inside t = true

namespace SpinLock.Grants

/-- The value of `m_nLock` says whether somebody is inside. -/
theorem eq_zero_iff (h : s.Grants o) : s.nLock = 0 ↔ o = none := by
  rw [h.nLock]
  split
  · exact iff_of_true rfl ‹_›
  · exact iff_of_false (by decide) ‹_›

variable [DecidableEq ι]

/-- A thread goes on, not to `Leave`. -/
theorem goto (h : s.Grants o) (hk : k ≠ .leave) : (s.goto t k).Grants o := by
  refine ⟨h.nLock, h.inside, fun u hu => ?_⟩
  change Function.update s.pc t k u = .leave at hu
  by_cases hut : u = t
  · subst hut
    rw [Function.update_self] at hu
    exact absurd hu hk
  · rw [Function.update_of_ne hut] at hu
    exact h.leaving u hu

/-- A free lock is taken. -/
theorem exchange_free (h : s.Grants none) (t : ι) (k : SpinPc) :
    (s.exchange t k).Grants (some t) := by
  have hfree : s.nLock = 0 := h.eq_zero_iff.mpr rfl
  have hnobody : ∀ u, s.inside u ≠ true := by
    intro u hu
    cases (h.inside u).mp hu
  rw [SpinLock.exchange, if_pos hfree]
  refine ⟨rfl, fun u => ?_, fun u hu => ?_⟩
  · change Function.update s.inside t true u = true ↔ _
    by_cases hut : u = t
    · subst hut
      rw [Function.update_self]
      exact iff_of_true rfl rfl
    · rw [Function.update_of_ne hut]
      exact iff_of_false (hnobody u) fun heq => hut (Option.some.inj heq).symm
  · change Function.update s.pc t .idle u = .leave at hu
    by_cases hut : u = t
    · subst hut
      rw [Function.update_self] at hu
      cases hu
    · rw [Function.update_of_ne hut] at hu
      exact absurd (h.leaving u hu) (hnobody u)

/-- A lock that is taken stays as it is. -/
theorem exchange_held (h : s.Grants o) (ho : o ≠ none) (t : ι) : s.exchange t k = s.goto t k := by
  have hone : s.nLock = 1 := by rw [h.nLock, if_neg ho]
  have hsame : ({ s with nLock := 1 } : SpinLock ι) = s := by rw [← hone]
  rw [SpinLock.exchange, if_neg (by omega), hsame]

/-- `Leave` gives the lock back. -/
theorem release (h : s.Grants o) (ht : s.pc t = .leave) :
    o = some t ∧ (s.letGo t).Grants none := by
  have ho : o = some t := (h.inside t).mp (h.leaving t ht)
  refine ⟨ho, rfl, fun u => ?_, fun u hu => ?_⟩
  · change Function.update s.inside t false u = true ↔ _
    by_cases hut : u = t
    · subst hut
      rw [Function.update_self]
      exact iff_of_false (by decide) (by simp)
    · rw [Function.update_of_ne hut, h.inside u, ho]
      exact iff_of_false (fun heq => hut (Option.some.inj heq).symm) (by simp)
  · change Function.update s.pc t .idle u = .leave at hu
    by_cases hut : u = t
    · subst hut
      rw [Function.update_self] at hu
      cases hu
    · rw [Function.update_of_ne hut] at hu
      have hother := (h.inside u).mp (h.leaving u hu)
      exact absurd (Option.some.inj (hother.symm.trans ho)) hut

end SpinLock.Grants

section Steps
variable [DecidableEq ι]

/-- What the next step of a call can do. -/
theorem next_cases (hs : s.next t (s.pc t) = some s') :
    ((s.pc t).waiting = true ∧ ∃ k : SpinPc, k.waiting = true ∧
      (s' = s.exchange t k ∨ s' = s.goto t k)) ∨
    (s.pc t = .leave ∧ s' = s.letGo t) := by
  cases hpc : s.pc t with
  | idle => rw [hpc] at hs; cases hs
  | enter =>
      rw [hpc, SpinLock.next, Option.some.injEq] at hs
      exact .inl ⟨rfl, _, rfl, .inl hs.symm⟩
  | pause count =>
      rw [hpc, SpinLock.next] at hs
      split at hs
      · exact .inl ⟨rfl, _, rfl, .inl (Option.some.inj hs).symm⟩
      · exact .inl ⟨rfl, _, rfl, .inr (Option.some.inj hs).symm⟩
  | switch count =>
      rw [hpc, SpinLock.next] at hs
      split at hs
      · exact .inl ⟨rfl, _, rfl, .inl (Option.some.inj hs).symm⟩
      · exact .inl ⟨rfl, _, rfl, .inr (Option.some.inj hs).symm⟩
  | sleep =>
      rw [hpc, SpinLock.next, Option.some.injEq] at hs
      exact .inl ⟨rfl, _, rfl, .inl hs.symm⟩
  | leave =>
      rw [hpc, SpinLock.next, Option.some.injEq] at hs
      exact .inr ⟨rfl, hs.symm⟩

namespace SpinLock.Grants

/-- `Enter` is called. -/
theorem enter_call {now : BitVec 64} (h : s.Grants o) (hs : spinStep s (.enter t now) = some s') :
    s'.pc = Function.update s.pc t .enter ∧ s'.Grants o := by
  simp only [spinStep, Option.ite_none_right_eq_some, Option.some.injEq] at hs
  obtain ⟨-, rfl⟩ := hs
  have hinfo : (s.setInfo t ((s.info t).exchangeTicks now).incPendingLock).Grants o :=
    ⟨h.nLock, h.inside, h.leaving⟩
  exact ⟨rfl, hinfo.goto (by decide)⟩

/-- `Leave` is called. -/
theorem leave_call (h : s.Grants o) (hs : spinStep s (.leave t) = some s') :
    s'.pc = Function.update s.pc t .leave ∧ s'.Grants o := by
  simp only [spinStep, Option.ite_none_right_eq_some, Option.some.injEq] at hs
  obtain ⟨⟨-, hin⟩, rfl⟩ := hs
  refine ⟨rfl, h.nLock, h.inside, fun u hu => ?_⟩
  change Function.update s.pc t .leave u = .leave at hu
  by_cases hut : u = t
  · exact hut ▸ hin
  · rw [Function.update_of_ne hut] at hu
    exact h.leaving u hu

/-- A thread in `Enter` goes on waiting, or finds the lock free and takes it. -/
theorem enter_step (h : s.Grants o) (ht : (s.pc t).waiting = true)
    (hs : spinStep s (.step t) = some s') :
    (∃ k : SpinPc, k.waiting = true ∧ s'.pc = Function.update s.pc t k ∧ s'.Grants o) ∨
      (o = none ∧ s'.pc = Function.update s.pc t .idle ∧ s'.Grants (some t)) := by
  rcases next_cases hs with ⟨-, k, hk, rfl | rfl⟩ | ⟨hpc, -⟩
  · cases o with
    | none =>
        have hpc : (s.exchange t k).pc = Function.update s.pc t .idle := by
          rw [SpinLock.exchange, if_pos (h.eq_zero_iff.mpr rfl)]
          rfl
        exact .inr ⟨rfl, hpc, h.exchange_free t k⟩
    | some u =>
        rw [h.exchange_held (Option.some_ne_none u) t]
        exact .inl ⟨k, hk, rfl, h.goto (ne_of_waiting hk)⟩
  · exact .inl ⟨k, hk, rfl, h.goto (ne_of_waiting hk)⟩
  · rw [hpc] at ht
    cases ht

/-- The thread in `Leave` lets go. -/
theorem leave_step (h : s.Grants o) (ht : s.pc t = .leave)
    (hs : spinStep s (.step t) = some s') :
    o = some t ∧ s'.pc = Function.update s.pc t .idle ∧ s'.Grants none := by
  rcases next_cases hs with ⟨hwait, -⟩ | ⟨-, rfl⟩
  · rw [ht] at hwait
    cases hwait
  · obtain ⟨ho, hgrants⟩ := h.release ht
    exact ⟨ho, rfl, hgrants⟩

end SpinLock.Grants

/-- Each step takes the lock for a thread when nobody has it, gives it back for the thread that
has it, or changes nothing of who is inside. -/
theorem spinLock_simulates :
    Simulates (@spinStep ι _) Always mutexStep Always SpinLock.Grants := by
  intro s o a s' h _ hs
  cases a with
  | enter t now => exact .inl (h.enter_call hs).2
  | leave t => exact .inl (h.leave_call hs).2
  | tryEnter t =>
      simp only [spinStep, Option.ite_none_right_eq_some, Option.some.injEq] at hs
      obtain ⟨-, rfl⟩ := hs
      cases o with
      | none => exact .inr ⟨.acquire t, some t, trivial, rfl, h.exchange_free t .idle⟩
      | some u =>
          rw [h.exchange_held (Option.some_ne_none u) t]
          exact .inl (h.goto (by decide))
  | step t =>
      rcases next_cases hs with ⟨hwait, -⟩ | ⟨hpc, -⟩
      · rcases h.enter_step hwait hs with ⟨k, -, -, hgrants⟩ | ⟨rfl, -, hgrants⟩
        · exact .inl hgrants
        · exact .inr ⟨.acquire t, some t, trivial, rfl, hgrants⟩
      · obtain ⟨rfl, -, hgrants⟩ := h.leave_step hpc hs
        exact .inr ⟨.release t, none, trivial, if_pos rfl, hgrants⟩

/-- Each run has its counterpart at a mutex. -/
theorem grants_of_reaches {info : ι → BGLockInfo} (h : Reaches spinStep Always (.new info) s) :
    ∃ o, Reaches mutexStep Always none o ∧ s.Grants o := by
  refine spinLock_simulates.reaches ⟨rfl, fun t => ?_, fun t ht => ?_⟩ h
  · exact iff_of_false (by simp [SpinLock.new]) (by simp)
  · cases ht

/-- **The lock is a mutex**: in every run the threads come inside and leave as at a lock that one
thread holds at a time, and `m_nLock` tells whether there is one. -/
theorem mutex_of_reaches {info : ι → BGLockInfo} (h : Reaches spinStep Always (.new info) s) :
    ∃ o, Reaches mutexStep Always none o ∧ (∀ t, s.inside t = true ↔ o = some t) ∧
      (s.nLock = 0 ↔ o = none) ∧ ∀ t u, s.inside t = true → s.inside u = true → t = u := by
  obtain ⟨o, hreach, hgrants⟩ := grants_of_reaches h
  refine ⟨o, hreach, hgrants.inside, hgrants.eq_zero_iff, fun t u ht hu => ?_⟩
  have hsame := ((hgrants.inside t).mp ht).symm.trans ((hgrants.inside u).mp hu)
  exact Option.some.inj hsame

/-- Two threads, one of which is inside and the other in the first loop of `Wait`. -/
theorem mutex_of_reaches_contended : ∃ s : SpinLock Bool,
    runAll spinStep (.new fun _ => .new) [.enter true 0, .step true, .enter false 5, .step false,
      .step false] = some s ∧
    s.pc false = .pause 3999 ∧ ∃ o, Reaches mutexStep Always none o ∧ o = some true := by
  obtain ⟨s, hrun, hin, hpc⟩ : ∃ s : SpinLock Bool, runAll spinStep (.new fun _ => .new)
      [.enter true 0, .step true, .enter false 5, .step false, .step false] = some s ∧
      s.inside true = true ∧ s.pc false = .pause 3999 := ⟨_, rfl, rfl, rfl⟩
  obtain ⟨o, hreach, hinside, -⟩ := mutex_of_reaches (.always_of_runAll hrun)
  exact ⟨s, hrun, hpc, o, hreach, (hinside true).mp hin⟩

/-! ## Whether `Enter` returns -/

/-- Entering twice is a deadlock: while the thread that is inside waits in `Enter`, it stays
inside, and everybody who waits goes on waiting. -/
theorem stuck_step (h : s.Grants (some u)) (hu : (s.pc u).waiting = true)
    (hs : spinStep s a = some s') :
    s'.Grants (some u) ∧ ∀ t, (s.pc t).waiting = true → (s'.pc t).waiting = true := by
  have nobody_leaves : ∀ v, s.inside v = true → (s.pc v).waiting = true := by
    intro v hv
    exact Option.some.inj ((h.inside v).mp hv) ▸ hu
  have kept : ∀ {v : ι} {l : SpinPc}, (∀ t, (s.pc t).waiting = true → t = v → l.waiting = true) →
      s'.pc = Function.update s.pc v l →
      ∀ t, (s.pc t).waiting = true → (s'.pc t).waiting = true := by
    intro v l hwait hpc t ht
    rw [hpc]
    by_cases htv : t = v
    · rw [htv, Function.update_self]
      exact hwait t ht htv
    · rwa [Function.update_of_ne htv]
  cases a with
  | enter v now =>
      obtain ⟨hpc, hgrants⟩ := h.enter_call hs
      exact ⟨hgrants, kept (fun _ _ _ => rfl) hpc⟩
  | tryEnter v =>
      simp only [spinStep, Option.ite_none_right_eq_some, Option.some.injEq] at hs
      obtain ⟨hidle, rfl⟩ := hs
      have hsame : s.exchange v .idle = s.goto v .idle :=
        h.exchange_held (Option.some_ne_none u) v
      refine ⟨hsame ▸ h.goto (by decide), kept (fun t ht htv => ?_) (congrArg SpinLock.pc hsame)⟩
      rw [htv, hidle] at ht
      cases ht
  | leave v =>
      simp only [spinStep, Option.ite_none_right_eq_some] at hs
      have hwait := nobody_leaves v hs.1.2
      rw [hs.1.1] at hwait
      cases hwait
  | step v =>
      rcases next_cases hs with ⟨hwait, -⟩ | ⟨hpc, -⟩
      · rcases h.enter_step hwait hs with ⟨k, hk, hpc, hgrants⟩ | ⟨ho, -, -⟩
        · exact ⟨hgrants, kept (fun _ _ _ => hk) hpc⟩
        · cases ho
      · have hwait := nobody_leaves v (h.leaving v hpc)
        rw [hpc] at hwait
        cases hwait

/-- The exchange of a thread finds the lock free. -/
theorem pc_exchange_free (h : s.nLock = 0) (t : ι) (k : SpinPc) :
    (s.exchange t k).pc t = .idle := by
  rw [SpinLock.exchange, if_pos h]
  exact Function.update_self _ _ _

/-- A thread that waits for a free lock and is left alone gets in by one step or by two. -/
theorem steps_of_free (h : s.nLock = 0) (ht : (s.pc t).waiting = true) :
    (∃ l, spinStep s (.step t) = some l ∧ l.pc t = .idle) ∨
      ∃ k m, k.waiting = true ∧ spinStep s (.step t) = some (s.goto t k) ∧
        spinStep (s.goto t k) (.step t) = some m ∧ m.pc t = .idle := by
  have one : ∀ {l m : SpinPc}, s.pc t = l → s.next t l = some (s.exchange t m) →
      ∃ l, spinStep s (.step t) = some l ∧ l.pc t = .idle := by
    intro l m hpc hnext
    exact ⟨_, by rw [spinStep, hpc, hnext], pc_exchange_free h t m⟩
  have two : ∀ {k m : SpinPc}, k.waiting = true → s.next t (s.pc t) = some (s.goto t k) →
      (s.goto t k).next t k = some ((s.goto t k).exchange t m) →
      ∃ k m, k.waiting = true ∧ spinStep s (.step t) = some (s.goto t k) ∧
        spinStep (s.goto t k) (.step t) = some m ∧ m.pc t = .idle := by
    intro k m hk hfirst hnext
    have hpc : (s.goto t k).pc t = k := Function.update_self _ _ _
    exact ⟨k, _, hk, hfirst, by rw [spinStep, hpc, hnext],
      pc_exchange_free (s := s.goto t k) h t m⟩
  cases hpc : s.pc t with
  | idle => rw [hpc] at ht; cases ht
  | leave => rw [hpc] at ht; cases ht
  | enter => exact .inl (one hpc rfl)
  | sleep => exact .inl (one hpc rfl)
  | pause count =>
      by_cases hcount : 0 ≤ count - 1
      · exact .inl (one hpc (by rw [SpinLock.next, if_pos hcount]))
      · exact .inr (two (k := .switch 4000) rfl (by rw [hpc, SpinLock.next, if_neg hcount]) rfl)
  | switch count =>
      by_cases hcount : 0 ≤ count - 1
      · exact .inl (one hpc (by rw [SpinLock.next, if_pos hcount]))
      · exact .inr (two (k := .sleep) rfl (by rw [hpc, SpinLock.next, if_neg hcount]) rfl)

theorem returns_of_free (h : s.nLock = 0) (ht : (s.pc t).waiting = true) :
    ∃ s', Reaches spinStep Always s s' ∧ s'.pc t = .idle := by
  rcases steps_of_free h ht with ⟨l, hstep, hidle⟩ | ⟨k, m, -, hfirst, hstep, hidle⟩
  · exact ⟨l, .tail .refl trivial hstep, hidle⟩
  · exact ⟨m, .tail (.tail .refl trivial hfirst) trivial hstep, hidle⟩

/-- The thread that is inside lets go. -/
theorem free_of_inside (h : s.Grants (some u)) (hu : (s.pc u).waiting = false) :
    ∃ s', Reaches spinStep Always s s' ∧ s'.nLock = 0 ∧ ∀ t, t ≠ u → s'.pc t = s.pc t := by
  have hin : s.inside u = true := (h.inside u).mpr rfl
  have last : ∀ r : SpinLock ι, r.pc u = .leave →
      ∃ r', Reaches spinStep Always r r' ∧ r'.nLock = 0 ∧ ∀ t, t ≠ u → r'.pc t = r.pc t := by
    intro r hpc
    have hstep : spinStep r (.step u) = some (r.letGo u) := by rw [spinStep, hpc, SpinLock.next]
    exact ⟨_, .tail .refl trivial hstep, rfl, fun t ht => Function.update_of_ne ht _ _⟩
  cases hpc : s.pc u with
  | leave => exact last s hpc
  | idle =>
      have hstep : spinStep s (.leave u) =
          some ((s.setInfo u (s.info u).decPendingLock).goto u .leave) := if_pos ⟨hpc, hin⟩
      obtain ⟨s', hreach, hfree, hothers⟩ :=
        last ((s.setInfo u (s.info u).decPendingLock).goto u .leave) (Function.update_self _ _ _)
      refine ⟨s', (Reaches.tail .refl trivial hstep).trans hreach, hfree, fun t ht => ?_⟩
      exact (hothers t ht).trans (Function.update_of_ne ht _ _)
  | enter => rw [hpc] at hu; cases hu
  | pause count => rw [hpc] at hu; cases hu
  | switch count => rw [hpc] at hu; cases hu
  | sleep => rw [hpc] at hu; cases hu

/-- **When a call of `Enter` can still return**: exactly if the thread that is inside, should
there be one, is not itself in `Enter`. -/
theorem enter_returns_iff {info : ι → BGLockInfo} (h : Reaches spinStep Always (.new info) s)
    (ht : (s.pc t).waiting = true) :
    (∃ s', Reaches spinStep Always s s' ∧ s'.pc t = .idle) ↔
      ∀ u, s.inside u = true → (s.pc u).waiting = false := by
  obtain ⟨o, -, hgrants⟩ := grants_of_reaches h
  constructor
  · rintro ⟨s', hreach, hidle⟩ u hu
    by_contra hwaiting
    rw [Bool.not_eq_false] at hwaiting
    have ho : o = some u := (hgrants.inside u).mp hu
    subst ho
    have hstuck : s'.Grants (some u) ∧ (s'.pc u).waiting = true ∧ (s'.pc t).waiting = true :=
      hreach.invariant (fun r => r.Grants (some u) ∧ (r.pc u).waiting = true ∧
        (r.pc t).waiting = true) ⟨hgrants, hwaiting, ht⟩ fun r a r' hr _ hs => by
          obtain ⟨hgrants', hkeep⟩ := stuck_step hr.1 hr.2.1 hs
          exact ⟨hgrants', hkeep u hr.2.1, hkeep t hr.2.2⟩
    rw [hidle] at hstuck
    cases hstuck.2.2
  · intro hfine
    cases o with
    | none => exact returns_of_free (hgrants.eq_zero_iff.mpr rfl) ht
    | some u =>
        have hu := hfine u ((hgrants.inside u).mpr rfl)
        have htu : t ≠ u := by
          rintro rfl
          rw [ht] at hu
          cases hu
        obtain ⟨r, hreach, hfree, hothers⟩ := free_of_inside hgrants hu
        obtain ⟨s', hreach', hidle⟩ := returns_of_free hfree (hothers t htu ▸ ht)
        exact ⟨s', hreach.trans hreach', hidle⟩

/-- A thread that enters twice, and another one that then waits in vain. -/
theorem enter_returns_iff_twice : ∃ s : SpinLock Bool,
    runAll spinStep (.new fun _ => .new) [.enter true 0, .step true, .enter true 0, .step true,
      .enter false 0] = some s ∧
    ¬∃ s', Reaches spinStep Always s s' ∧ s'.pc false = .idle := by
  obtain ⟨s, hrun, hin, hwait, hother⟩ : ∃ s : SpinLock Bool, runAll spinStep (.new fun _ => .new)
      [.enter true 0, .step true, .enter true 0, .step true, .enter false 0] = some s ∧
      s.inside true = true ∧ (s.pc true).waiting = true ∧ (s.pc false).waiting = true :=
    ⟨_, rfl, rfl, rfl, rfl⟩
  refine ⟨s, hrun, fun hreturns => ?_⟩
  have hfree := (enter_returns_iff (.always_of_runAll hrun) hother).mp hreturns true hin
  rw [hwait] at hfree
  cases hfree

end Steps

end BGIocpServer
