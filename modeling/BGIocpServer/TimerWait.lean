import BGIocpServer.TimerScan

/-!
# The timeout of the timer thread

`Run` waits until the earliest due time that its last scan found. A timer that
`AddTimer` puts before it comes with a `SetEvent` on `s_hTimer`, so when no signal is
there or on its way, the timeout in use is the right one.

## Main results

* `timerStep_awake`: one step, `nWait_of_reaches`: every run.
-/

namespace BGIocpServer
open Kit

variable {ι Obj : Type}

/-- The due time is less than 2 ^ 31 ms from the tick. -/
structure BGIOTimer.Near (n64Tick : BitVec 64) (timer : BGIOTimer Obj) : Prop where
  above : timer.due < n64Tick.toNat + 2 ^ 31
  below : n64Tick.toNat < timer.due + 2 ^ 31

instance (n64Tick : BitVec 64) (timer : BGIOTimer Obj) : Decidable (timer.Near n64Tick) :=
  decidable_of_iff (timer.due < n64Tick.toNat + 2 ^ 31 ∧ n64Tick.toNat < timer.due + 2 ^ 31)
    ⟨fun h => ⟨h.1, h.2⟩, fun h => ⟨h.above, h.below⟩⟩

/-- A scan starts with every due time near its tick, and the heap keeps its promise. -/
def NearRun (s : TimerState ι Obj) (a : TimerAct ι Obj) : Prop :=
  (∀ n64Tick, s.run = .enter n64Tick → a = .run .step →
    ∀ b ∈ s.timerQueue, b.Near n64Tick) ∧ HeapRun s a

/-- The timeout is the time that is left until `s_n64TopTime`, or a signal is due. -/
def TimerState.Awake (s : TimerState ι Obj) : Prop :=
  match s.run with
  | .first scan | .pop scan _ | .next scan => ∀ b ∈ s.timerQueue, b.Near scan.n64Tick
  | .leave scan nWait => nWait = (s.n64TopTime.toNat : ℤ) - scan.n64Tick.toNat
  | .wait scan nWait => nWait = (s.n64TopTime.toNat : ℤ) - scan.n64Tick.toNat ∨
      s.hTimer = true ∨ ∃ t, s.adding t = .setEvent
  | .start | .tick | .enter _ | .drainEnter | .drain | .ended => True

/-- The cast to `LONG` is exact near the tick. -/
theorem asLong_of_near {n64Time n64Tick : BitVec 64}
    (habove : n64Time.toNat < n64Tick.toNat + 2 ^ 31)
    (hbelow : n64Tick.toNat < n64Time.toNat + 2 ^ 31) :
    asLong (n64Time - n64Tick) = (n64Time.toNat : ℤ) - n64Tick.toNat := by
  have ha := n64Time.isLt
  have hb := n64Tick.isLt
  rw [asLong, BitVec.toInt_eq_toNat_cond, BitVec.toNat_setWidth, BitVec.toNat_sub]
  split <;> omega

section Steps
variable [DecidableEq Obj] {s s' : TimerState ι Obj}

/-- What a step of `Run` preserves. -/
theorem RunStep.awake {a : RunAct Obj} (hstep : RunStep s a s') (htimed : s.Timed) (h : s.Awake)
    (hnear : NearRun s (.run a)) : s'.Awake := by
  cases hstep with
  | enter n64Tick hrun =>
      have hqueue := hnear.1 n64Tick hrun rfl
      simp only [TimerState.Timed, hrun] at htimed
      obtain ⟨b, hb, htime⟩ := htimed.mem
      rcases s.enter_cases n64Tick with ⟨-, heq⟩ | ⟨-, heq⟩ <;> rw [heq]
      · exact hqueue
      · have hb := hqueue b hb
        change asLong (s.n64TopTime - n64Tick) = _
        rw [← htime]
        exact asLong_of_near hb.above hb.below
  | first scan timer hrun hmem =>
      simp only [TimerState.Awake, hrun] at h
      exact h
  | pop scan top hrun =>
      simp only [TimerState.Awake, hrun] at h
      exact fun b hb => h b (List.mem_of_mem_erase hb)
  | next scan timer hrun hmem =>
      simp only [TimerState.Awake, hrun] at h
      rcases s.nextTop_cases scan timer with ⟨-, heq⟩ | ⟨-, heq⟩ <;> rw [heq]
      · exact asLong_of_near (h timer hmem).above (h timer hmem).below
      · exact h
  | leave scan nWait hrun =>
      simp only [TimerState.Awake, hrun] at h
      exact .inl h
  | drain timer hrun hmem => simp only [TimerState.Awake, hrun]
  | _ => trivial

omit [DecidableEq Obj] in
/-- The top of a heap of near timers is an earliest one. -/
theorem NearRun.earliestTop {a : TimerAct ι Obj} (hnear : NearRun s a) (h : s.Awake) :
    EarliestTop s a := by
  cases a with
  | run a =>
      cases a with
      | top timer =>
          rintro ⟨scan, hrun⟩ b hb
          have hqueue : ∀ b ∈ s.timerQueue, b.Near scan.n64Tick := by
            rcases hrun with hrun | hrun <;> simp only [TimerState.Awake, hrun] at h <;> exact h
          refine HeapTop.key_le hnear.2 (fun a ha b hb => ?_) hb
          have h1 := hqueue a ha
          have h2 := hqueue b hb
          exact lt_iff_of_near (by have := h1.above; have := h2.below; omega)
            (by have := h2.above; have := h1.below; omega)
      | _ => trivial
  | _ => trivial

variable [DecidableEq ι]

omit [DecidableEq Obj] in
/-- A thread that is not at `SetEvent` moves: the others still are. -/
theorem TimerState.Awake.move (h : s.Awake) {t : ι} (ht : s.adding t ≠ .setEvent)
    (k : AddTimerPc Obj) : { s with adding := Function.update s.adding t k }.Awake := by
  cases hrun : s.run with
  | wait scan nWait =>
      simp only [TimerState.Awake, hrun] at h ⊢
      rcases h with hwait | hsig | ⟨u, hu⟩
      · exact .inl hwait
      · exact .inr (.inl hsig)
      · have hne : u ≠ t := by
          rintro rfl
          exact ht hu
        exact .inr (.inr ⟨u, (Function.update_of_ne hne ..).trans hu⟩)
  | first scan | pop scan top | next scan | leave scan nWait =>
      simp only [TimerState.Awake, hrun] at h ⊢
      exact h
  | _ => simp only [TimerState.Awake]

omit [DecidableEq Obj] [DecidableEq ι] in
/-- Outside the regions of `Run` the queue may change. -/
theorem TimerState.Awake.requeue (h : s.Awake) (hfree : s.locked = false)
    (queue : List (BGIOTimer Obj)) : { s with timerQueue := queue }.Awake := by
  cases hrun : s.run <;>
    simp only [TimerState.Awake, TimerState.locked, hrun, reduceCtorEq] at h hfree ⊢
  exact h

/-- What every step preserves. -/
theorem timerStep_awake {a : TimerAct ι Obj} (htimed : s.Timed) (h : s.Awake) (hnear : NearRun s a)
    (hstep : timerStep s a = some s') : s'.Awake := by
  cases timerStep_spec hstep with
  | run a s' hrun => exact hrun.awake htimed h hnear
  | addTimer t pObject n64Time nId ht => exact h.move (by simp [ht]) _
  | addTick t n64Tick pObject n64Time nId ht => exact h.move (by simp [ht]) _
  | refused t timer ht hfree hstop => exact h.move (by simp [ht]) _
  | earlier t timer ht hfree hstop hlt =>
      cases hrun : s.run <;>
        simp only [TimerState.Awake, TimerState.locked, hrun, reduceCtorEq] at hfree ⊢
      exact .inr (.inr ⟨t, Function.update_self ..⟩)
  | later t timer ht hfree hstop hle =>
      exact (h.requeue hfree (timer :: s.timerQueue)).move (by simp [ht]) _
  | setEvent t ht =>
      cases hrun : s.run with
      | wait scan nWait =>
          simp only [TimerState.Awake]
          exact .inr (.inl trivial)
      | first scan | pop scan top | next scan | leave scan nWait =>
          simp only [TimerState.Awake, hrun] at h ⊢
          exact h
      | _ => simp only [TimerState.Awake]
  | callback i timer hport => exact h
  | terminate => exact h

/-- **The timer thread never sleeps past an earlier timer.** Blocked, with `s_hTimer` not
signalled and no `AddTimer` between its region and its `SetEvent`, it waits until the
earliest due time in the queue. -/
theorem nWait_of_reaches {guard : Obj} {n64Tick : BitVec 64} {scan : Scan Obj} {nWait : ℤ}
    (h : Reaches timerStep NearRun (.init ι guard n64Tick) s) (hrun : s.run = .wait scan nWait)
    (hsig : s.hTimer = false) (hadd : ∀ t, s.adding t ≠ .setEvent) :
    IsEarliest s.n64TopTime s.timerQueue ∧
      nWait = (s.n64TopTime.toNat : ℤ) - scan.n64Tick.toNat := by
  have hinv : s.Timed ∧ s.Awake := by
    refine h.invariant (fun s => s.Timed ∧ s.Awake) ?_ fun t a u ht hC hstep => ?_
    · exact ⟨TimerState.init_timed guard n64Tick, trivial⟩
    · exact ⟨timerStep_timed ht.1 (hC.earliestTop ht.2) hstep, timerStep_awake ht.1 ht.2 hC hstep⟩
  obtain ⟨htimed, hawake⟩ := hinv
  simp only [TimerState.Timed, hrun] at htimed
  simp only [TimerState.Awake, hrun] at hawake
  refine ⟨htimed, ?_⟩
  rcases hawake with hwait | hset | ⟨t, ht⟩
  · exact hwait
  · simp [hset] at hsig
  · exact absurd ht (hadd t)

end Steps

/-- A timer of one second comes while `Run` waits for the guard, and wakes it. -/
theorem nWait_of_reaches_second : ∃ s : TimerState Unit Bool, ∃ scan,
    s.run = .wait scan 900 ∧ s.n64TopTime = 1000 ∧
      IsEarliest s.n64TopTime s.timerQueue ∧
        (900 : ℤ) = (s.n64TopTime.toNat : ℤ) - scan.n64Tick.toNat := by
  obtain ⟨s, scan, hrun, htop, hsig, hadd, hreach⟩ : ∃ s : TimerState Unit Bool, ∃ scan,
      s.run = .wait scan 900 ∧ s.n64TopTime = 1000 ∧ s.hTimer = false ∧ s.adding () = .idle ∧
        Reaches timerStep NearRun (.init Unit true 0) s := by
    refine ⟨_, _, rfl, rfl, rfl, rfl, .tail (a := .run .step) (.tail (a := .run .step)
      (.tail (a := .run (.tick 100)) (.tail (a := .run .wakeTimer) (.tail (a := .setEvent ())
      (.tail (a := .addRegion ()) (.tail (a := .addTick () 0)
      (.tail (a := .addTimer () false 1000 7) (.tail (a := .run .step) (.tail (a := .run .step)
      (.tail (a := .run (.tick 0)) (.tail (a := .run .step) .refl ?_ rfl) ?_ rfl) ?_ rfl) ?_ rfl)
        ?_ rfl) ?_ rfl) ?_ rfl) ?_ rfl) ?_ rfl) ?_ rfl) ?_ rfl) ?_ rfl⟩
    all_goals refine ⟨fun n64Tick htick _ => ?_, trivial⟩
    all_goals first
      | cases htick; done
      | cases htick; decide
  exact ⟨s, scan, hrun, htop, nWait_of_reaches hreach hrun hsig fun t => by simp [hadd]⟩

end BGIocpServer
