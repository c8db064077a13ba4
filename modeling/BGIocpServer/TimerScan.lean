import BGIocpServer.TimerGuard
import Mathlib.Data.List.Perm.Basic
import Mathlib.Data.List.Sort
import Mathlib.Data.Finset.Max

/-!
# What a scan posts

As long as `top()` returns the earliest timer, `s_n64TopTime` is the earliest due time
in the queue and a scan posts in order of due time, from the earliest one on, until it
meets a timer whose due time minus the tick is positive as a `LONG`. So a scan posts
exactly the due timers when, and only when, that cast has the right sign for the due
timers and for the earliest of the others.

## Main results

* `RunStep.timed`, `timerStep_timed`: one step.
* `exact_iff_of_reaches`: every scan of every run.
* `not_exact_far`: a timer of 2 ^ 32 ms that is posted after a day.
-/

namespace BGIocpServer
open Kit

variable {ι Obj : Type}

/-- The due time, as a number. -/
def BGIOTimer.due (timer : BGIOTimer Obj) : ℕ := timer.n64Time.toNat

/-- `n64Time` is the due time of the earliest timers of a queue. -/
structure IsEarliest (n64Time : BitVec 64) (queue : List (BGIOTimer Obj)) : Prop where
  mem : ∃ a ∈ queue, a.n64Time = n64Time
  le : ∀ b ∈ queue, n64Time.toNat ≤ b.due

/-- A scan has posted timers in order, none of them later than the queue and none that
it should leave. -/
structure Scan.Ordered (scan : Scan Obj) (queue : List (BGIOTimer Obj)) : Prop where
  perm : (scan.posted ++ queue).Perm scan.found
  sorted : scan.posted.Pairwise fun a b => a.due ≤ b.due
  ahead : ∀ a ∈ scan.posted, ∀ b ∈ queue, a.due ≤ b.due
  now : ∀ a ∈ scan.posted, ¬ a.Later scan.n64Tick

/-- The queue, `s_n64TopTime` and the timeout agree, at every point of `Run`. -/
def TimerState.Timed (s : TimerState ι Obj) : Prop :=
  match s.run with
  | .start | .tick | .enter _ | .wait _ _ => IsEarliest s.n64TopTime s.timerQueue
  | .first scan => IsEarliest s.n64TopTime s.timerQueue ∧ scan.found = s.timerQueue ∧
      scan.posted = [] ∧ asLong (s.n64TopTime - scan.n64Tick) ≤ 0
  | .pop scan top => scan.Ordered s.timerQueue ∧ top ∈ s.timerQueue ∧
      (∀ b ∈ s.timerQueue, top.due ≤ b.due) ∧ ¬ top.Later scan.n64Tick
  | .next scan => scan.Ordered s.timerQueue
  | .leave scan nWait => scan.Ordered s.timerQueue ∧ IsEarliest s.n64TopTime s.timerQueue ∧
      nWait = asLong (s.n64TopTime - scan.n64Tick) ∧ 0 < nWait
  | .drainEnter | .drain | .ended => True

/-- In a scan, `top()` returns an earliest timer. -/
def EarliestTop (s : TimerState ι Obj) : TimerAct ι Obj → Prop
  | .run (.top timer) =>
      (∃ scan, s.run = .first scan ∨ s.run = .next scan) → ∀ b ∈ s.timerQueue, timer.due ≤ b.due
  | _ => True

section Earliest
variable {queue : List (BGIOTimer Obj)} {n : BitVec 64} {timer : BGIOTimer Obj}

/-- Two times that are equal as numbers are equal. -/
theorem IsEarliest.eq (h : IsEarliest n queue) (hmem : timer ∈ queue)
    (hle : ∀ b ∈ queue, timer.due ≤ b.due) : timer.n64Time = n := by
  obtain ⟨a, ha, rfl⟩ := h.mem
  have h1 := hle a ha
  have h2 := h.le timer hmem
  exact BitVec.eq_of_toNat_eq (Nat.le_antisymm h1 h2)

theorem isEarliest_of_mem (hmem : timer ∈ queue) (hle : ∀ b ∈ queue, timer.due ≤ b.due) :
    IsEarliest timer.n64Time queue := ⟨⟨timer, hmem, rfl⟩, hle⟩

/-- A timer that is earlier than the rest. -/
theorem IsEarliest.push_earlier (h : IsEarliest n queue) (hlt : timer.due < n.toNat) :
    IsEarliest timer.n64Time (timer :: queue) := by
  constructor
  · exact ⟨timer, List.mem_cons_self, rfl⟩
  · intro b hb
    rcases List.mem_cons.mp hb with rfl | hb
    · exact le_refl _
    · have hle := h.le b hb
      change timer.due ≤ b.due
      omega

/-- A timer that is not. -/
theorem IsEarliest.push_later (h : IsEarliest n queue) (hle : n.toNat ≤ timer.due) :
    IsEarliest n (timer :: queue) := by
  constructor
  · obtain ⟨a, ha, heq⟩ := h.mem
    exact ⟨a, List.mem_cons_of_mem _ ha, heq⟩
  · intro b hb
    rcases List.mem_cons.mp hb with rfl | hb
    · exact hle
    · exact h.le b hb

end Earliest

section Steps
variable [DecidableEq Obj] {s s' : TimerState ι Obj}

/-- The timer popped is the next one in order. -/
theorem Scan.Ordered.pop {scan : Scan Obj} {queue : List (BGIOTimer Obj)} {top : BGIOTimer Obj}
    (h : scan.Ordered queue) (hmem : top ∈ queue) (hle : ∀ b ∈ queue, top.due ≤ b.due)
    (hnow : ¬ top.Later scan.n64Tick) :
    { scan with posted := scan.posted ++ [top] : Scan Obj }.Ordered (queue.erase top) where
  perm := by
    have hcons := List.perm_cons_erase hmem
    have happ := (hcons.symm.append_left scan.posted).trans h.perm
    simpa using happ
  sorted := by
    rw [List.pairwise_append]
    refine ⟨h.sorted, List.pairwise_singleton _ _, fun a ha b hb => ?_⟩
    rw [List.mem_singleton.mp hb]
    exact h.ahead a ha top hmem
  ahead := by
    intro a ha b hb
    rcases List.mem_append.mp ha with ha | ha
    · exact h.ahead a ha b (List.mem_of_mem_erase hb)
    · rw [List.mem_singleton.mp ha]
      exact hle b (List.mem_of_mem_erase hb)
  now := by
    intro a ha
    rcases List.mem_append.mp ha with ha | ha
    · exact h.now a ha
    · rw [List.mem_singleton.mp ha]
      exact hnow

/-- What a step of `Run` preserves. -/
theorem RunStep.timed {a : RunAct Obj} (hstep : RunStep s a s') (h : s.Timed)
    (htop : EarliestTop s (.run a)) : s'.Timed := by
  cases hstep with
  | start hrun | tick n64Tick hrun | wakeTimer scan nWait hrun hsig
  | timeout scan nWait hrun hsig =>
      simp only [TimerState.Timed, hrun] at h
      exact h
  | enter n64Tick hrun =>
      simp only [TimerState.Timed, hrun] at h
      rcases s.enter_cases n64Tick with ⟨hnow, heq⟩ | ⟨hlater, heq⟩ <;> rw [heq]
      · exact ⟨h, rfl, rfl, hnow⟩
      · refine ⟨⟨List.Perm.refl _, List.Pairwise.nil, ?_, ?_⟩, h, rfl, hlater⟩ <;> simp
  | first scan timer hrun hmem =>
      simp only [TimerState.Timed, hrun] at h
      obtain ⟨hearliest, hfound, hposted, hnow⟩ := h
      have htop := htop ⟨scan, .inl hrun⟩
      refine ⟨⟨?_, ?_, ?_, ?_⟩, hmem, htop, ?_⟩
      · simp [hposted, hfound]
      · simp [hposted]
      · simp [hposted]
      · simp [hposted]
      · rw [BGIOTimer.Later, hearliest.eq hmem htop]
        omega
  | pop scan top hrun =>
      simp only [TimerState.Timed, hrun] at h
      exact h.1.pop h.2.1 h.2.2.1 h.2.2.2
  | next scan timer hrun hmem =>
      simp only [TimerState.Timed, hrun] at h
      have htop := htop ⟨scan, .inr hrun⟩
      rcases s.nextTop_cases scan timer with ⟨hlater, heq⟩ | ⟨hnow, heq⟩ <;> rw [heq]
      · exact ⟨h, isEarliest_of_mem hmem htop, rfl, hlater⟩
      · exact ⟨h, hmem, htop, hnow⟩
  | leave scan nWait hrun =>
      simp only [TimerState.Timed, hrun] at h
      exact h.2.1
  | wakeTerminate scan nWait hrun hsig => trivial
  | drainEnter hrun => trivial
  | drain timer hrun hmem => simp only [TimerState.Timed, hrun]
  | ended hrun hempty => trivial

variable [DecidableEq ι]

/-- What every step preserves. -/
theorem timerStep_timed {a : TimerAct ι Obj} (h : s.Timed) (htop : EarliestTop s a)
    (hstep : timerStep s a = some s') : s'.Timed := by
  cases timerStep_spec hstep with
  | run a s' hrun => exact hrun.timed h htop
  | earlier t timer hadd hfree hstop hlt =>
      cases hrun : s.run <;>
        simp only [TimerState.Timed, TimerState.locked, hrun, reduceCtorEq] at h hfree ⊢ <;>
        exact h.push_earlier hlt
  | later t timer hadd hfree hstop hle =>
      cases hrun : s.run <;>
        simp only [TimerState.Timed, TimerState.locked, hrun, reduceCtorEq] at h hfree ⊢ <;>
        exact h.push_later hle
  | _ => exact h

/-! ## Due times below 2 ^ 63 -/

omit [DecidableEq Obj] [DecidableEq ι] in
/-- The signed difference compares due times that are less than 2 ^ 63 apart. -/
theorem lt_iff_of_near {a b : BGIOTimer Obj} (hab : a.due < b.due + 2 ^ 63)
    (hba : b.due < a.due + 2 ^ 63) : a.lt b ↔ b.due < a.due := by
  simp only [BGIOTimer.due] at hab hba ⊢
  have ha := a.n64Time.isLt
  have hb := b.n64Time.isLt
  rw [BGIOTimer.lt, BitVec.toInt_eq_toNat_cond, BitVec.toNat_sub]
  split <;> omega

/-- Every due time is less than 2 ^ 63. -/
structure TimerState.Bounded (s : TimerState ι Obj) : Prop where
  queue : ∀ a ∈ s.timerQueue, a.due < 2 ^ 63
  adding : ∀ t timer, s.adding t = .region timer → timer.due < 2 ^ 63

/-- `AddTimer` computes such a due time. -/
def AddBounded (s : TimerState ι Obj) : TimerAct ι Obj → Prop
  | .addTick t n64Tick => ∀ pObject n64Time nId, s.adding t = .tick pObject n64Time nId →
      n64Time.toNat + n64Tick.toNat < 2 ^ 63
  | _ => True

omit [DecidableEq ι] in
/-- `Run` adds no timer. -/
theorem RunStep.subset {a : RunAct Obj} (hstep : RunStep s a s') :
    s'.adding = s.adding ∧ ∀ b ∈ s'.timerQueue, b ∈ s.timerQueue := by
  cases hstep with
  | enter n64Tick hrun => simp
  | next scan timer hrun hmem => simp
  | pop scan top hrun => exact ⟨rfl, fun _ => List.mem_of_mem_erase⟩
  | drain timer hrun hmem => exact ⟨rfl, fun _ => List.mem_of_mem_erase⟩
  | _ => exact ⟨rfl, fun _ => id⟩

omit [DecidableEq Obj] in
/-- One thread moves, with no timer in hand that is too late. -/
theorem TimerState.Bounded.adding_update (h : s.Bounded) (t : ι) {k : AddTimerPc Obj}
    (hk : ∀ timer, k = .region timer → timer.due < 2 ^ 63) :
    ∀ u timer, Function.update s.adding t k u = .region timer → timer.due < 2 ^ 63 :=
  (Function.forall_update_iff s.adding fun _ l =>
    ∀ timer, l = .region timer → timer.due < 2 ^ 63).mpr ⟨hk, fun u _ => h.adding u⟩

omit [DecidableEq Obj] [DecidableEq ι] in
/-- A thread puts its timer into the queue. -/
theorem TimerState.Bounded.queue_push (h : s.Bounded) {t : ι} {timer : BGIOTimer Obj}
    (ht : s.adding t = .region timer) : ∀ b ∈ timer :: s.timerQueue, b.due < 2 ^ 63 :=
  List.forall_mem_cons.mpr ⟨h.adding t timer ht, h.queue⟩

/-- What every step preserves. -/
theorem timerStep_bounded {a : TimerAct ι Obj} (h : s.Bounded) (hadd : AddBounded s a)
    (hstep : timerStep s a = some s') : s'.Bounded := by
  cases timerStep_spec hstep with
  | run a s' hrun =>
      obtain ⟨hadding, hsub⟩ := hrun.subset
      exact ⟨fun b hb => h.queue b (hsub b hb), hadding ▸ h.adding⟩
  | addTimer t pObject n64Time nId ht => exact ⟨h.queue, h.adding_update t (by simp)⟩
  | addTick t n64Tick pObject n64Time nId ht =>
      refine ⟨h.queue, h.adding_update t fun timer heq => ?_⟩
      cases heq
      have hsum := hadd pObject n64Time nId ht
      change (n64Time + n64Tick).toNat < 2 ^ 63
      rw [BitVec.toNat_add]
      omega
  | refused t timer ht hfree hstop => exact ⟨h.queue, h.adding_update t (by simp)⟩
  | earlier t timer ht hfree hstop hlt => exact ⟨h.queue_push ht, h.adding_update t (by simp)⟩
  | later t timer ht hfree hstop hle => exact ⟨h.queue_push ht, h.adding_update t (by simp)⟩
  | setEvent t ht => exact ⟨h.queue, h.adding_update t (by simp)⟩
  | callback i timer hport => exact ⟨h.queue, h.adding⟩
  | terminate => exact ⟨h.queue, h.adding⟩

omit [DecidableEq Obj] [DecidableEq ι] in
/-- Then the top of the heap is an earliest timer. -/
theorem TimerState.Bounded.earliestTop {a : TimerAct ι Obj} (h : s.Bounded)
    (hheap : HeapRun s a) : EarliestTop s a := by
  cases a with
  | run a =>
      cases a with
      | top timer =>
          intro _ b hb
          refine HeapTop.key_le hheap (fun a ha b hb => ?_) hb
          have h1 := h.queue a ha
          have h2 := h.queue b hb
          exact lt_iff_of_near (by omega) (by omega)
      | _ => trivial
  | _ => trivial

/-! ## What a scan posts -/

/-- The timer is due. -/
def BGIOTimer.Due (n64Tick : BitVec 64) (timer : BGIOTimer Obj) : Prop :=
  timer.due ≤ n64Tick.toNat

instance (n64Tick : BitVec 64) (timer : BGIOTimer Obj) : Decidable (timer.Due n64Tick) :=
  inferInstanceAs (Decidable (_ ≤ _))

/-- The scan has posted the due timers of the queue it found, in order, and left the others. -/
structure Scan.Exact (scan : Scan Obj) (queue : List (BGIOTimer Obj)) : Prop where
  posted : scan.posted.Perm (scan.found.filter fun a => a.Due scan.n64Tick)
  sorted : scan.posted.Pairwise fun a b => a.due ≤ b.due
  left : queue.Perm (scan.found.filter fun a => ¬ a.Due scan.n64Tick)

/-- The cast to `LONG` has the right sign for the due timers and for the earliest of the
others. -/
structure Scan.Fits (scan : Scan Obj) : Prop where
  due : ∀ a ∈ scan.found, a.Due scan.n64Tick → ¬ a.Later scan.n64Tick
  next : ∀ a ∈ scan.found, ¬ a.Due scan.n64Tick →
    (∀ b ∈ scan.found, ¬ b.Due scan.n64Tick → a.due ≤ b.due) → a.Later scan.n64Tick

section Scans
variable {scan : Scan Obj} {queue : List (BGIOTimer Obj)} {a b c : BGIOTimer Obj}

omit [DecidableEq Obj] [DecidableEq ι] in
/-- Timers of one due time are treated alike. -/
theorem BGIOTimer.Later.of_due_eq {n64Tick : BitVec 64} (h : a.Later n64Tick)
    (heq : a.due = b.due) : b.Later n64Tick := by
  have htime : a.n64Time = b.n64Time := BitVec.eq_of_toNat_eq heq
  rw [BGIOTimer.Later, ← htime]
  exact h

omit [DecidableEq ι] in
/-- Among the timers found that are not due there is an earliest. -/
theorem exists_earliest_not_due (ha : a ∈ scan.found) (hdue : ¬ a.Due scan.n64Tick) :
    ∃ e ∈ scan.found, ¬ e.Due scan.n64Tick ∧
      ∀ b ∈ scan.found, ¬ b.Due scan.n64Tick → e.due ≤ b.due := by
  let rest := (scan.found.filter fun a => ¬ a.Due scan.n64Tick).toFinset
  have hmem : ∀ b, b ∈ rest ↔ b ∈ scan.found ∧ ¬ b.Due scan.n64Tick := by simp [rest]
  obtain ⟨e, he, hle⟩ := Finset.exists_min_image rest BGIOTimer.due ⟨a, (hmem a).mpr ⟨ha, hdue⟩⟩
  exact ⟨e, ((hmem e).mp he).1, ((hmem e).mp he).2,
    fun b hb hnot => hle b ((hmem b).mpr ⟨hb, hnot⟩)⟩

omit [DecidableEq Obj] [DecidableEq ι] in
/-- A scan that posts the due timers has cast them, and the first one it left, rightly. -/
theorem Scan.Exact.fits (h : scan.Exact queue) (hord : scan.Ordered queue) (hc : c ∈ queue)
    (hmin : ∀ b ∈ queue, c.due ≤ b.due) (hlater : c.Later scan.n64Tick) : scan.Fits := by
  constructor
  · intro a ha hdue
    have hposted : a ∈ scan.posted := h.posted.mem_iff.mpr (List.mem_filter.mpr ⟨ha, by simpa⟩)
    exact hord.now a hposted
  · intro a ha hdue hfirst
    have haq : a ∈ queue := h.left.mem_iff.mpr (List.mem_filter.mpr ⟨ha, by simpa⟩)
    have hcf := List.mem_filter.mp (h.left.mem_iff.mp hc)
    have hac : a.due ≤ c.due := hfirst c hcf.1 (by simpa using hcf.2)
    exact hlater.of_due_eq (Nat.le_antisymm (hmin a haq) hac)

omit [DecidableEq ι] in
/-- A scan that casts them rightly posts the due timers. -/
theorem Scan.Fits.exact (h : scan.Fits) (hord : scan.Ordered queue) (hc : c ∈ queue)
    (hmin : ∀ b ∈ queue, c.due ≤ b.due) (hlater : c.Later scan.n64Tick) : scan.Exact queue := by
  have hfound : ∀ a, a ∈ scan.posted ∨ a ∈ queue ↔ a ∈ scan.found := by
    intro a
    rw [← hord.perm.mem_iff, List.mem_append]
  have hqueue : ∀ b ∈ queue, ¬ b.Due scan.n64Tick := by
    intro b hb hdue
    have hcdue : c.Due scan.n64Tick := (hmin b hb).trans hdue
    exact h.due c ((hfound c).mp (.inr hc)) hcdue hlater
  have hposted : ∀ a ∈ scan.posted, a.Due scan.n64Tick := by
    intro a ha
    by_contra hdue
    have haf := (hfound a).mp (.inl ha)
    obtain ⟨e, he, hedue, hfirst⟩ := exists_earliest_not_due haf hdue
    have helater := h.next e he hedue hfirst
    rcases (hfound e).mpr he with hep | heq
    · exact hord.now e hep helater
    · -- `a` was posted before `e`, so it has the same due time
      have hsame : e.due = a.due := Nat.le_antisymm (hfirst a haf hdue) (hord.ahead a ha e heq)
      exact hord.now a ha (helater.of_due_eq hsame)
  constructor
  · have hfilter := hord.perm.filter fun a => decide (a.Due scan.n64Tick)
    have hp : scan.posted.filter (fun a => decide (a.Due scan.n64Tick)) = scan.posted :=
      List.filter_eq_self.mpr (by simpa using hposted)
    have hq : queue.filter (fun a => decide (a.Due scan.n64Tick)) = [] :=
      List.filter_eq_nil_iff.mpr (by simpa using hqueue)
    rw [List.filter_append, hp, hq, List.append_nil] at hfilter
    exact hfilter
  · exact hord.sorted
  · have hfilter := hord.perm.filter fun a => decide (¬ a.Due scan.n64Tick)
    have hp : scan.posted.filter (fun a => decide (¬ a.Due scan.n64Tick)) = [] :=
      List.filter_eq_nil_iff.mpr (by simpa using hposted)
    have hq : queue.filter (fun a => decide (¬ a.Due scan.n64Tick)) = queue :=
      List.filter_eq_self.mpr (by simpa using hqueue)
    rw [List.filter_append, hp, hq, List.nil_append] at hfilter
    exact hfilter

end Scans

omit [DecidableEq ι] [DecidableEq Obj] in
/-- The state that `Init` leaves. -/
theorem TimerState.init_timed (guard : Obj) (n64Tick : BitVec 64) :
    (init ι guard n64Tick).Timed := by
  refine ⟨⟨_, List.mem_singleton_self _, rfl⟩, fun b hb => ?_⟩
  rw [List.mem_singleton.mp hb]
  exact le_refl _

omit [DecidableEq ι] [DecidableEq Obj] in
theorem TimerState.init_bounded {guard : Obj} {n64Tick : BitVec 64}
    (h₀ : n64Tick.toNat + 24 * 3600 * 1000 < 2 ^ 63) : (init ι guard n64Tick).Bounded := by
  refine ⟨fun b hb => ?_, fun t timer ht => by simp [init, onTimerCallback, blank] at ht⟩
  rw [List.mem_singleton.mp hb]
  change (n64Tick + guardDelay).toNat < 2 ^ 63
  have hday : guardDelay.toNat = 24 * 3600 * 1000 := by decide
  rw [BitVec.toNat_add, hday]
  omega

/-- A run in the domain: due times below 2 ^ 63, and a heap that keeps its promise. -/
def InTime (s : TimerState ι Obj) (a : TimerAct ι Obj) : Prop := AddBounded s a ∧ HeapRun s a

/-- **A scan posts exactly the due timers, in order of due time**, when and only when the
cast to `LONG` has the right sign for them and for the earliest of the others. -/
theorem exact_iff_of_reaches {guard : Obj} {n64Tick : BitVec 64} {scan : Scan Obj} {nWait : ℤ}
    (h₀ : n64Tick.toNat + 24 * 3600 * 1000 < 2 ^ 63)
    (h : Reaches timerStep InTime (.init ι guard n64Tick) s) (hrun : s.run = .leave scan nWait) :
    scan.Exact s.timerQueue ↔ scan.Fits := by
  have hinv : s.Bounded ∧ s.Timed := by
    refine h.invariant (fun s => s.Bounded ∧ s.Timed) ?_ fun t a u ht hC hstep => ?_
    · exact ⟨TimerState.init_bounded h₀, TimerState.init_timed guard n64Tick⟩
    · exact ⟨timerStep_bounded ht.1 hC.1 hstep, timerStep_timed ht.2 (ht.1.earliestTop hC.2) hstep⟩
  have htimed := hinv.2
  simp only [TimerState.Timed, hrun] at htimed
  obtain ⟨hord, hearliest, hwait, hpos⟩ := htimed
  obtain ⟨c, hc, hctime⟩ := hearliest.mem
  have hmin : ∀ b ∈ s.timerQueue, c.due ≤ b.due := by
    intro b hb
    have hle := hearliest.le b hb
    rw [← hctime] at hle
    exact hle
  have hlater : c.Later scan.n64Tick := by
    rw [BGIOTimer.Later, hctime]
    omega
  exact ⟨fun hexact => hexact.fits hord hc hmin hlater,
    fun hfits => hfits.exact hord hc hmin hlater⟩

end Steps

/-- The guard is due a day after `Init`, and is posted; the timer of a second more stays. -/
theorem exact_iff_of_reaches_day : ∃ s : TimerState Unit Bool, ∃ scan nWait,
    s.run = .leave scan nWait ∧ scan.posted = [guardTimer] ∧ s.timerQueue = [⟨false, 86400001, 1⟩] ∧
      (scan.Exact s.timerQueue ↔ scan.Fits) := by
  obtain ⟨s, scan, nWait, hrun, hposted, hqueue, hreach⟩ : ∃ s : TimerState Unit Bool,
      ∃ scan nWait, s.run = .leave scan nWait ∧ scan.posted = [guardTimer] ∧
        s.timerQueue = [⟨false, 86400001, 1⟩] ∧
        Reaches timerStep InTime (.init Unit true 0) s := by
    refine ⟨_, _, _, rfl, rfl, rfl, .tail (a := .run (.top ⟨false, 86400001, 1⟩))
      (.tail (a := .run .step) (.tail (a := .run (.top guardTimer)) (.tail (a := .run .step)
      (.tail (a := .run (.tick 86400000)) (.tail (a := .addRegion ()) (.tail (a := .addTick () 0)
      (.tail (a := .addTimer () false 86400001 1) (.tail (a := .run .step) .refl
        ⟨trivial, trivial⟩ rfl) ⟨trivial, trivial⟩ rfl) ⟨?_, trivial⟩ rfl) ⟨trivial, trivial⟩ rfl)
        ⟨trivial, trivial⟩ rfl) ⟨trivial, trivial⟩ rfl) ⟨trivial, ?_⟩ rfl) ⟨trivial, trivial⟩ rfl)
        ⟨trivial, ?_⟩ rfl⟩
    · intro pObject n64Time nId ht
      cases ht
      decide
    · exact ⟨by decide, fun _ => by decide⟩
    · exact ⟨by decide, fun _ => by decide⟩
  exact ⟨s, scan, nWait, hrun, hposted, hqueue, exact_iff_of_reaches (by decide) hreach hrun⟩

/-- A timer of 2 ^ 32 ms. -/
def farTimer : BGIOTimer Bool := ⟨false, 4294967296, 1⟩

/-- A timer of a day and a millisecond more. -/
def laterTimer : BGIOTimer Bool := ⟨false, 4381367297, 2⟩

/-- The scan after a day casts the due time of `farTimer` to a negative `LONG` and posts it. -/
theorem not_exact_far : ¬ ∀ (s : TimerState Unit Bool) (scan : Scan Bool) (nWait : ℤ),
    Reaches timerStep InTime (.init Unit true 0) s → s.run = .leave scan nWait →
      scan.Exact s.timerQueue := by
  intro h
  obtain ⟨s, scan, nWait, hrun, hposted, hfound, htick, hreach⟩ : ∃ s : TimerState Unit Bool,
      ∃ scan nWait, s.run = .leave scan nWait ∧ scan.posted = [guardTimer, farTimer] ∧
        scan.found = [laterTimer, farTimer, guardTimer] ∧ scan.n64Tick = 86400000 ∧
        Reaches timerStep InTime (.init Unit true 0) s := by
    refine ⟨_, _, _, rfl, rfl, rfl, rfl, .tail (a := .run (.top laterTimer))
      (.tail (a := .run .step) (.tail (a := .run (.top farTimer)) (.tail (a := .run .step)
      (.tail (a := .run (.top guardTimer)) (.tail (a := .run .step)
      (.tail (a := .run (.tick 86400000)) (.tail (a := .addRegion ()) (.tail (a := .addTick () 0)
      (.tail (a := .addTimer () false 4381367297 2) (.tail (a := .addRegion ())
      (.tail (a := .addTick () 0) (.tail (a := .addTimer () false 4294967296 1)
      (.tail (a := .run .step) .refl ⟨trivial, trivial⟩ rfl) ⟨trivial, trivial⟩ rfl)
        ⟨?_, trivial⟩ rfl) ⟨trivial, trivial⟩ rfl) ⟨trivial, trivial⟩ rfl) ⟨?_, trivial⟩ rfl)
        ⟨trivial, trivial⟩ rfl) ⟨trivial, trivial⟩ rfl) ⟨trivial, trivial⟩ rfl) ⟨trivial, ?_⟩ rfl)
        ⟨trivial, trivial⟩ rfl) ⟨trivial, ?_⟩ rfl) ⟨trivial, trivial⟩ rfl) ⟨trivial, ?_⟩ rfl⟩
    · intro pObject n64Time nId ht
      cases ht
      decide
    · intro pObject n64Time nId ht
      cases ht
      decide
    · exact ⟨by decide, fun _ => by decide⟩
    · exact ⟨by decide, fun _ => by decide⟩
    · exact ⟨by decide, fun _ => by decide⟩
  have hlength := (h s scan nWait hreach hrun).posted.length_eq
  rw [hposted, hfound, htick] at hlength
  exact absurd hlength (by decide)

end BGIocpServer
