import BGIocpServer.TimerLedger

/-!
# The references of timers

Every timer that is accepted is called back or drained, once, and every object gets its
references back, in the runs whose steps meet `Conserving`.

## Main results

* `TimerSystem.Inv.timer`: a step of the timer thread, or of a thread in `AddTimer`.
* `systemStep_conserved`: one step, `conserved_of_reaches`: every run.
* `not_conserved_refused`: a refused `AddTimer` keeps its reference.
-/

namespace BGIocpServer
open Kit

section Refs
variable {ι Obj : Type} {n : ℕ} [DecidableEq ι] [DecidableEq Obj] [Fintype ι]
  {guard : Obj} {s s' : TimerSystem ι Obj n} {o : Obj} {r r' : RefState (RefThread ι n)}

namespace TimerSystem

/-! ## The timer thread and the threads in AddTimer -/

section Timer
variable {a : TimerAct ι Obj} {t : TimerState ι Obj}

/-- What `account` does to the counters. -/
inductive Accounted (s : TimerSystem ι Obj n) :
    TimerAct ι Obj → (Obj → RefState (RefThread ι n)) → Option Obj → Prop
  /-- `AddRef` of an object that is in use begins. -/
  | addTimer (t : ι) (o : Obj) (n64Time : BitVec 64) (nId : ℤ)
      (hidle : (s.objects o).pc (.inl t) = .idle)
      (hpos : 0 < (s.objects o).held .timer + (s.objects o).held .general) :
      Accounted s (.addTimer t o n64Time nId)
        (Function.update s.objects o ((s.objects o).addRef (.inl t) .timer)) s.draining
  /-- The `Release` of a timer that is drained begins, the one before has returned. -/
  | drain (timer : BGIOTimer Obj) (hrun : s.timer.run = .drain)
      (hidle : s.draining.all (s.returned (.inr none)) = true) :
      Accounted s (.run (.top timer)) (Function.update s.objects timer.pObject
        ((s.objects timer.pObject).release (.inr none) .timer)) (some timer.pObject)
  /-- A step without a call. -/
  | other (a : TimerAct ι Obj) (htaken : ∀ o, a.taken o = 0) (hlost : s.timer.lost a = [])
      (htick : ∀ t n64Tick o n64Time nId, a = .addTick t n64Tick →
        s.timer.adding t = .tick o n64Time nId → (s.objects o).pc (.inl t) = .idle) :
      Accounted s a s.objects s.draining

omit [Fintype ι] in
theorem account_spec (h : s.account a = some s') : ∃ objects draining,
    Accounted s a objects draining ∧ s' = { s with
      objects := objects, draining := draining
      accepted := s.timer.gained a ++ s.accepted, drained := s.timer.lost a ++ s.drained } := by
  have hother : (∀ o, a.taken o = 0) → s.timer.lost a = [] → (∀ t n64Tick, a ≠ .addTick t n64Tick) →
      Accounted s a s.objects s.draining := fun htaken hlost hnot =>
    .other a htaken hlost fun t n64Tick _ _ _ ha => absurd ha (hnot t n64Tick)
  cases a with
  | addTimer t o n64Time nId =>
      simp only [account, refStep, Option.map_eq_some_iff, Option.ite_none_right_eq_some,
        Option.some.injEq] at h
      obtain ⟨r, ⟨⟨hidle, hpos⟩, rfl⟩, rfl⟩ := h
      exact ⟨_, _, .addTimer t o n64Time nId hidle hpos, rfl⟩
  | addTick t n64Tick =>
      simp only [account] at h
      split at h
      · rename_i o n64Time nId htick
        simp only [Option.ite_none_right_eq_some, Option.some.injEq] at h
        obtain ⟨hreturned, rfl⟩ := h
        refine ⟨_, _, .other _ (fun _ => rfl) rfl fun u _ p _ _ hu hp => ?_, rfl⟩
        cases hu
        rw [htick] at hp
        cases hp
        exact of_decide_eq_true hreturned
      · rename_i hnot
        simp only [Option.some.injEq] at h
        subst h
        refine ⟨_, _, .other _ (fun _ => rfl) rfl fun u _ p _ _ hu hp => ?_, rfl⟩
        cases hu
        exact absurd hp (hnot _ _ _)
  | addRegion t =>
      have hother := hother (fun _ => rfl) rfl fun _ _ ha => by cases ha
      simp only [account] at h
      split at h
      · rename_i timer hregion
        refine ⟨_, _, hother, ?_⟩
        simp only [TimerState.gained, hregion]
        split at h <;> cases h
        · rename_i hstop
          rw [if_pos hstop]
          rfl
        · rename_i hstop
          rw [if_neg hstop]
          rfl
      · cases h
        refine ⟨_, _, hother, ?_⟩
        simp only [TimerState.gained]
        rfl
  | setEvent t =>
      cases h
      exact ⟨_, _, hother (fun _ => rfl) rfl (fun _ _ ha => by cases ha), rfl⟩
  | callback i => cases h
  | terminate =>
      simp only [account] at h
      split at h
      · simp only [Option.ite_none_right_eq_some, Option.some.injEq] at h
        obtain ⟨-, rfl⟩ := h
        exact ⟨_, _, hother (fun _ => rfl) rfl (fun _ _ ha => by cases ha), rfl⟩
      · cases h
  | run b =>
      simp only [account, Option.ite_none_right_eq_some] at h
      obtain ⟨hidle, h⟩ := h
      split at h
      · rename_i timer hrun
        cases h
        refine ⟨_, _, .drain timer hrun hidle, ?_⟩
        simp only [TimerState.lost, hrun]
        rfl
      · rename_i b _ _ hnot
        cases h
        have hlost : s.timer.lost (.run b) = [] := by
          cases b with
          | top timer =>
              simp only [TimerState.lost]
              split
              · rename_i hrun
                exact (hnot timer hrun rfl).elim
              · rfl
          | _ => rfl
        refine ⟨_, _, hother (fun _ => rfl) hlost (fun _ _ ha => by cases ha), ?_⟩
        rw [hlost]
        rfl

omit [Fintype ι] in
/-- Only `addTick` takes a thread in `AddTimer` from `GetTickCount64()`. -/
theorem adding_tick {q : TimerState ι Obj} {u : ι} {n64Time : BitVec 64} {nId : ℤ}
    (hstep : timerStep q a = some t) (hu : q.adding u = .tick o n64Time nId) :
    t.adding u = .tick o n64Time nId ∨ ∃ n64Tick, a = .addTick u n64Tick := by
  have hupdate : ∀ v k, v ≠ u → Function.update q.adding v k u = .tick o n64Time nId := by
    intro v k hv
    rw [Function.update_of_ne hv.symm, hu]
  cases timerStep_spec hstep with
  | run a s' hrun => exact .inl (hrun.subset.1 ▸ hu)
  | addTimer v p x i hv => exact .inl (hupdate v _ fun hvu => by simp [hvu, hu] at hv)
  | addTick v n64Tick p x i hv =>
      by_cases hvu : v = u
      · exact .inr ⟨n64Tick, by rw [hvu]⟩
      · exact .inl (hupdate v _ hvu)
  | refused v timer hv => exact .inl (hupdate v _ fun hvu => by simp [hvu, hu] at hv)
  | earlier v timer hv => exact .inl (hupdate v _ fun hvu => by simp [hvu, hu] at hv)
  | later v timer hv => exact .inl (hupdate v _ fun hvu => by simp [hvu, hu] at hv)
  | setEvent v hv => exact .inl (hupdate v _ fun hvu => by simp [hvu, hu] at hv)
  | callback i timer hport => exact .inl hu
  | terminate => exact .inl hu

omit [Fintype ι] in
/-- Only `Run` posts. -/
theorem port_of_step {q : TimerState ι Obj} (hstep : timerStep q a = some t) (hport : q.port = []) :
    t.port = [] ∨ a = .run .step ∧ q.run.posting = true := by
  cases timerStep_spec hstep with
  | run a s' hrun =>
      cases hrun with
      | pop scan top hpop => exact .inr ⟨rfl, by rw [hpop]; rfl⟩
      | enter n64Tick hrun => exact .inl ((q.enter_port n64Tick).trans hport)
      | next scan timer hrun hmem => exact .inl ((q.nextTop_port scan timer).trans hport)
      | _ => exact .inl hport
  | callback i timer hget => simp [hport] at hget
  | _ => exact .inl hport

omit [DecidableEq ι] [DecidableEq Obj] [Fintype ι] in
/-- What is posted is moved to the port of the workers. -/
theorem stock_forward (P : BGIOTimer Obj → Bool) : (s.forward t).timer.stock P +
    (s.forward t).workers.port.countP (Posted.has P) =
      t.stock P + s.workers.port.countP (Posted.has P) := by
  simp only [forward, TimerState.stock, List.countP_append, List.countP_map, List.countP_nil]
  have hsame : (Posted.has P ∘ fun timer => (.job (some timer) : Posted n (Option (BGIOTimer Obj))))
      = P := rfl
  rw [hsame]
  omega

omit [DecidableEq ι] in
/-- With what the timer thread and the threads in `AddTimer` have, the references that are out
change. -/
theorem due_forward (o : Obj) : (s.forward t).due o + s.timer.held o = s.due o + t.held o := by
  have hstock := stock_forward (s := s) (t := t) fun timer => timer.pObject = o
  rw [due, due, TimerState.held, TimerState.held]
  change tally _ t.adding + _ + (_ + tally _ s.hands) + _ = _
  rw [TimerState.held]
  omega

omit [DecidableEq ι] in
/-- The counters on which the step makes no call. -/
theorem Tended.forward (h : s.Tended guard o r) (hdue : (s'.forward t).due o = s.due o)
    (hhands : s'.hands = s.hands)
    (hadding : ∀ u n64Time nId, s.timer.adding u = .tick o n64Time nId →
      (r.pc (.inl u)).taking .timer = true → t.adding u = .tick o n64Time nId)
    (hdraining : r.pc (.inr none) ≠ .idle → s'.draining = some o) :
    (s'.forward t).Tended guard o r where
  refs := h.refs.trans hdue.symm
  counted := h.counted
  taking u hu := by
    obtain ⟨v, n64Time, nId, rfl, htick⟩ := h.taking u hu
    exact ⟨v, n64Time, nId, rfl, hadding v n64Time nId htick hu⟩
  releasing w hw := by
    obtain ⟨timer, htimer, ho⟩ := h.releasing w hw
    exact ⟨timer, (congrFun hhands w).trans htimer, ho⟩
  draining := hdraining

/-- A thread begins the `AddRef(&m_nTimerRef)` of `AddTimer`. -/
theorem Tended.addTimer (h : s.Tended guard o r) {u : ι} {n64Time : BitVec 64} {nId : ℤ}
    (hidle : r.pc (.inl u) = .idle) (hpos : 0 < r.held .timer + r.held .general)
    (hfit : r.total + 1 < 2 ^ 31) (hdue : (s'.forward t).due o = s.due o + 1)
    (hhands : s'.hands = s.hands) (hself : t.adding u = .tick o n64Time nId)
    (hadding : ∀ v x i, s.timer.adding v = .tick o x i → t.adding v = .tick o x i)
    (hdraining : s'.draining = s.draining) :
    (s'.forward t).Tended guard o (r.addRef (.inl u) .timer) := by
  obtain ⟨c, -, hpcs, -⟩ := r.addRef_pc (.inl u) .timer
  refine ⟨?_, h.counted.addRef hidle hpos hfit, fun v hv => ?_, fun w hw => ?_, fun hw => ?_⟩
  · have hrefs := h.refs
    rw [RefState.owned_addRef hidle, if_pos rfl]
    omega
  · rw [hpcs] at hv
    by_cases hvu : v = .inl u
    · exact ⟨u, n64Time, nId, hvu, hself⟩
    · rw [Function.update_of_ne hvu] at hv
      obtain ⟨v, x, i, rfl, htick⟩ := h.taking v hv
      exact ⟨v, x, i, rfl, hadding v x i htick⟩
  · rw [hpcs, Function.update_of_ne (by simp)] at hw
    obtain ⟨timer, htimer, ho⟩ := h.releasing w hw
    exact ⟨timer, (congrFun hhands w).trans htimer, ho⟩
  · rw [hpcs, Function.update_of_ne (by simp)] at hw
    exact hdraining.trans (h.draining hw)

omit [Fintype ι] in
/-- A timer that is drained was queued. -/
theorem drain_spec {q : TimerState ι Obj} {timer : BGIOTimer Obj}
    (hstep : timerStep q (.run (.top timer)) = some t) (hrun : q.run = .drain) :
    timer ∈ q.timerQueue ∧ t.adding = q.adding := by
  cases timerStep_spec hstep with
  | run a s' hstep =>
      refine ⟨?_, hstep.subset.1⟩
      cases hstep with
      | first scan timer hfirst => simp [hrun] at hfirst
      | next scan timer hnext => simp [hrun] at hnext
      | drain timer hdrain hmem => exact hmem

omit [DecidableEq ι] in
/-- The thread that drains is in no call. -/
theorem Inv.drained (h : s.Inv guard) (hreturned : s.draining.all (s.returned (.inr none)) = true)
    (o : Obj) : (s.objects o).pc (.inr none) = .idle := by
  by_contra hbusy
  rw [(h.tended o).draining hbusy, Option.all_some] at hreturned
  exact hbusy (of_decide_eq_true hreturned)

/-- The counters after a step of the timer thread, or of a thread in `AddTimer`. -/
theorem Inv.accounted (h : s.Inv guard) (hok : Conserving s (.timer a))
    (hstep : timerStep s.timer a = some t)
    (hcase : Accounted s a s'.objects s'.draining) (hhands : s'.hands = s.hands)
    (hdue : ∀ o, (s'.forward t).due o +
      (s.timer.lost a).countP (fun timer => timer.pObject = o) = s.due o + a.taken o) (o : Obj) :
    (s'.forward t).Tended guard o (s'.objects o) := by
  have hadding : (∀ u n64Tick, a ≠ .addTick u n64Tick) → ∀ o u n64Time nId,
      s.timer.adding u = .tick o n64Time nId → t.adding u = .tick o n64Time nId := by
    intro hnot o u n64Time nId hu
    refine (adding_tick hstep hu).resolve_right ?_
    rintro ⟨n64Tick, ha⟩
    exact hnot u n64Tick ha
  generalize hobjects : s'.objects = objects at hcase ⊢
  generalize hdraining : s'.draining = draining at hcase
  cases hcase with
  | other _ htaken hlost htick =>
      have ho := hdue o
      rw [hlost, htaken] at ho
      refine (h.tended o).forward ho hhands (fun u n64Time nId hu htaking => ?_) fun hbusy => ?_
      · refine (adding_tick hstep hu).resolve_right ?_
        rintro ⟨n64Tick, rfl⟩
        rw [htick u n64Tick o n64Time nId rfl hu] at htaking
        simp [RefPc.taking] at htaking
      · exact hdraining.trans ((h.tended o).draining hbusy)
  | addTimer u pObject n64Time nId hidle hpos =>
      have hkeep := hadding fun _ _ ha => by cases ha
      have hnone : s.timer.lost (.addTimer u pObject n64Time nId) = [] := rfl
      refine (Function.forall_update_iff s.objects
        fun p r => (s'.forward t).Tended guard p r).mpr ⟨?_, fun p hp => ?_⟩ o
      · have ho := hdue pObject
        rw [hnone, TimerAct.taken, if_pos rfl] at ho
        have hself : t.adding u = .tick pObject n64Time nId := by
          cases timerStep_spec hstep
          exact Function.update_self ..
        exact (h.tended pObject).addTimer hidle hpos hok ho hhands hself (hkeep pObject) hdraining
      · have ho := hdue p
        rw [hnone, TimerAct.taken, if_neg (Ne.symm hp)] at ho
        exact (h.tended p).forward ho hhands (fun u x i hu _ => hkeep p u x i hu)
          fun hbusy => hdraining.trans ((h.tended p).draining hbusy)
  | drain timer hrun hreturned =>
      have hlost : s.timer.lost (.run (.top timer)) = [timer] := by
        simp only [TimerState.lost, hrun]
      have hidle := h.drained hreturned
      obtain ⟨hmem, hsame⟩ := drain_spec hstep hrun
      refine (Function.forall_update_iff s.objects
        fun p r => (s'.forward t).Tended guard p r).mpr ⟨?_, fun p hp => ?_⟩ o
      · have ho := hdue timer.pObject
        rw [hlost, List.countP_singleton, if_pos (decide_eq_true rfl)] at ho
        have hqueued : 0 < s.timer.timerQueue.countP fun t => t.pObject = timer.pObject :=
          List.countP_pos_iff.mpr ⟨timer, hmem, decide_eq_true rfl⟩
        refine (h.tended timer.pObject).callRelease (hidle _) ?_ ho hsame
          (fun _ _ => congrFun hhands _) (fun hnone => absurd rfl hnone) (fun w hw => by cases hw)
          fun _ => hdraining
        refine (h.tended timer.pObject).held_pos ?_
        rw [due, TimerState.held, TimerState.stock]
        omega
      · have ho := hdue p
        rw [hlost, List.countP_singleton, if_neg (by simpa using Ne.symm hp)] at ho
        refine (h.tended p).forward ho hhands (fun u x i hu _ => ?_) fun hbusy => ?_
        · rw [hsame]
          exact hu
        · exact absurd (hidle p) hbusy

/-- What a step of the timer thread, or of a thread in `AddTimer`, preserves. -/
theorem Inv.timer (h : s.Inv guard) (hok : Conserving s (.timer a))
    (hstep : timerStep s.timer a = some t) (hacc : s.account a = some s') :
    (s'.forward t).Inv guard := by
  obtain ⟨objects, draining, hcase, hs'⟩ := account_spec hacc
  have hhands : s'.hands = s.hands := by
    rw [hs']
    rfl
  have hdue : ∀ o, (s'.forward t).due o +
      (s.timer.lost a).countP (fun timer => timer.pObject = o) = s.due o + a.taken o := by
    intro o
    have hforward := due_forward (s := s') (t := t) o
    have hheld := timerStep_held h.orderly.sound hstep (fun _ ha => by subst ha; exact hok) o
    have hsame : s'.due o = s.due o := by
      rw [hs']
      rfl
    have htimer : s'.timer = s.timer := by rw [hs']
    rw [htimer, hsame] at hforward
    omega
  have hobjects : Accounted s a s'.objects s'.draining := by
    rw [hs']
    exact hcase
  refine ⟨fun P => ?_, h.accounted hok hstep hobjects hhands hdue, ?_⟩
  · have hledger := h.ledger P
    have hstock := timerStep_stock h.orderly.sound hstep P
    have hforward := stock_forward (s := s') (t := t) P
    rw [hs'] at hforward ⊢
    rw [posted] at hledger ⊢
    change s.called.countP P + (s.timer.lost a ++ s.drained).countP P + _ +
      (_ + tally (uncalled P) s.hands) = (s.timer.gained a ++ s.accepted).countP P
    rw [List.countP_append, List.countP_append]
    change _ = t.stock P + s.workers.port.countP (Posted.has P) at hforward
    omega
  · have hsound : t.Sound := timerStep_sound h.orderly.sound hstep
    have hworkers : (s'.forward t).workers.suspended = s.workers.suspended ∧
        (s'.forward t).workers.worker = s.workers.worker := by
      rw [hs']
      exact ⟨rfl, rfl⟩
    refine ⟨hsound, rfl, ?_, fun hall => ?_⟩
    · rw [hworkers.1, hworkers.2]
      exact h.orderly.suspended
    · rw [hworkers.1] at hall
      have hport : t.port = [] := by
        refine (port_of_step hstep h.orderly.empty).resolve_right ?_
        rintro ⟨rfl, hposting⟩
        obtain ⟨w, hw⟩ := hok hposting
        simp [hall w] at hw
      rw [hs']
      simp only [forward, hport, List.map_nil, List.append_nil]
      exact h.orderly.gone hall

end Timer

end TimerSystem

/-- What every step preserves. -/
theorem systemStep_conserved {a : SystemAct ι Obj n} (h : s.Inv guard) (hok : Conserving s a)
    (hstep : systemStep guard s a = some s') : s'.Inv guard := by
  cases a with
  | timer a =>
      simp only [systemStep, Option.bind_eq_some_iff, Option.map_eq_some_iff] at hstep
      obtain ⟨t, ht, r, hacc, rfl⟩ := hstep
      exact h.timer hok ht hacc
  | worker w =>
      simp only [systemStep, TimerSystem.runs, Option.ite_none_right_eq_some,
        Bool.not_eq_true'] at hstep
      exact h.workerNext hok hstep.1 hstep.2
  | terminateWorkers =>
      simp only [systemStep, workerStep, Option.map_eq_some_iff] at hstep
      obtain ⟨workers, hnext, rfl⟩ := hstep
      cases hpc : s.workers.terminate with
      | post k =>
          simp only [hpc, WorkerState.terminateNext] at hnext
          split at hnext
          · cases hnext
            refine h.post rfl (fun p hp P => ?_) rfl rfl
            rw [List.mem_singleton.mp hp]
            rfl
          · cases hnext
      | wait k =>
          simp only [hpc, WorkerState.terminateNext] at hnext
          split at hnext
          · split at hnext
            · cases hnext
              exact h.post (List.append_nil _).symm (fun p hp => by cases hp) rfl rfl
            · cases hnext
          · cases hnext
  | lostPost => exact hok.elim
  | post =>
      simp only [systemStep, workerStep, Option.map_some, Option.some.injEq] at hstep
      subst hstep
      refine h.post rfl (fun p hp P => ?_) rfl rfl
      rw [List.mem_singleton.mp hp]
      rfl
  | hold t pObject =>
      simp only [systemStep, Option.ite_none_left_eq_some, Option.map_eq_some_iff] at hstep
      obtain ⟨hne, r, hr, rfl⟩ := hstep
      exact h.setObject ((h.tended pObject).hold hne hok hr)
  | drop t pObject =>
      simp only [systemStep, Option.ite_none_left_eq_some, Option.map_eq_some_iff] at hstep
      obtain ⟨hne, r, hr, rfl⟩ := hstep
      exact h.setObject ((h.tended pObject).drop hne hr)
  | object u pObject =>
      simp only [systemStep, Option.ite_none_right_eq_some, Option.map_eq_some_iff] at hstep
      obtain ⟨-, r, hr, rfl⟩ := hstep
      exact h.setObject ((h.tended pObject).next hr)

/-- The threads have been terminated: the workers are suspended, the timer thread has ended, and
the calls of `AddTimer` are past their region. -/
def TimerSystem.Terminated (s : TimerSystem ι Obj n) : Prop :=
  (∀ w, s.workers.suspended w = true) ∧ s.timer.run = .ended ∧
    ∀ t, s.timer.adding t = .idle ∨ s.timer.adding t = .setEvent

omit [DecidableEq ι] in
/-- The state that `Init` leaves. -/
theorem TimerSystem.init_inv (guard : Obj) (n64Tick : BitVec 64) :
    (init ι n guard n64Tick).Inv guard := by
  have huncalled : ∀ P, tally (uncalled P) (init ι n guard n64Tick).hands = 0 :=
    fun P => tally_eq_zero.mpr fun _ => rfl
  have hunreleased : ∀ P, tally (unreleased P) (init ι n guard n64Tick).hands = 0 :=
    fun P => tally_eq_zero.mpr fun _ => rfl
  refine ⟨fun P => ?_, fun o => ?_, trivial, rfl, fun v hv => ?_, fun _ p hp => ?_⟩
  · rw [posted, huncalled]
    simp [init, WorkerState.start, TimerState.stock, TimerState.init, TimerState.onTimerCallback,
      TimerState.blank]
  · have hheld : (TimerState.init ι guard n64Tick).held o = if guard = o then 1 else 0 := by
      have hnone : tally (AddTimerPc.holds o) (TimerState.init ι guard n64Tick).adding = 0 :=
        tally_eq_zero.mpr fun _ => rfl
      rw [TimerState.held, hnone]
      simp [TimerState.stock, TimerState.init, TimerState.onTimerCallback, TimerState.blank,
        List.countP_cons]
    have hdue : (init ι n guard n64Tick).due o = if guard = o then 1 else 0 := by
      rw [due, hunreleased]
      exact hheld
    have hobject : (init ι n guard n64Tick).objects o =
      if o = guard then .guardStart _ else .start _ := rfl
    have hidle : ∀ u, ((init ι n guard n64Tick).objects o).pc u = .idle := by
      intro u
      rw [hobject]
      split <;> rfl
    refine ⟨?_, ?_, fun u hu => ?_, fun w hw => absurd (hidle _) hw, fun hw => absurd (hidle _) hw⟩
    · have hnone : tally (RefPc.taking .timer) ((init ι n guard n64Tick).objects o).pc = 0 :=
        tally_eq_zero.mpr fun u => by rw [hidle]; rfl
      rw [RefState.owned, hnone, hdue, hobject]
      by_cases ho : o = guard
      · rw [if_pos ho, if_pos ho.symm]
        rfl
      · rw [if_neg ho, if_neg (Ne.symm ho)]
        rfl
    · rw [hobject]
      by_cases ho : o = guard
      · rw [if_pos ho, decide_eq_true ho]
        exact .guardStart
      · rw [if_neg ho, decide_eq_false ho]
        exact RefState.counted_start
    · rw [hidle] at hu
      cases hu
  · cases hv
  · cases hp

/-- **Timer references are conserved** in every run that meets the condition. When all threads
have been terminated, every accepted timer was called back or drained, once, and `m_nTimerRef`
of every object is 0. -/
theorem conserved_of_reaches {n64Tick : BitVec 64}
    (h : Reaches (systemStep guard) Conserving (.init ι n guard n64Tick) s) :
    s.Conserved guard ∧ (s.Terminated →
      (s.called ++ s.drained).Perm s.accepted ∧ ∀ o, (s.objects o).pRef .timer = 0) := by
  have hinv : s.Inv guard :=
    h.invariant (·.Inv guard) (TimerSystem.init_inv guard n64Tick)
      fun _ _ _ ht hok hstep => systemStep_conserved ht hok hstep
  refine ⟨⟨hinv.ledger, fun o => (hinv.tended o).refs, fun o => (hinv.tended o).counted⟩, ?_⟩
  rintro ⟨hsuspended, hended, hidle⟩
  have hsound := hinv.orderly.sound
  simp only [TimerState.Sound, hended] at hsound
  have hstock : ∀ P, s.timer.stock P = 0 := fun P => by
    simp [TimerState.stock, hsound.2, hinv.orderly.empty]
  have hport : ∀ P, s.workers.port.countP (Posted.has P) = 0 := fun P =>
    List.countP_eq_zero.mpr fun p hp => by
      simp [Posted.has_eq_false (hinv.orderly.gone hsuspended p hp)]
  have hhands : ∀ P, tally (uncalled P) s.hands = 0 ∧ tally (unreleased P) s.hands = 0 := fun P =>
    ⟨tally_eq_zero.mpr fun w => (uncalled_eq_false (hinv.orderly.suspended w (hsuspended w))).1,
      tally_eq_zero.mpr fun w => (uncalled_eq_false (hinv.orderly.suspended w (hsuspended w))).2⟩
  constructor
  · rw [List.perm_iff_count]
    intro x
    have hledger := hinv.ledger (· == x)
    rw [hstock, TimerSystem.posted, hport, (hhands _).1] at hledger
    rw [List.count_append]
    exact hledger
  · intro o
    have hnone : tally (AddTimerPc.holds o) s.timer.adding = 0 := by
      refine tally_eq_zero.mpr fun t => ?_
      rcases hidle t with ht | ht <;> rw [ht] <;> rfl
    have hrefs := (hinv.tended o).refs
    rw [TimerSystem.due, TimerState.held, hnone, hstock, hport, (hhands _).2,
      RefState.owned] at hrefs
    have hheld : (s.objects o).held .timer = 0 := by omega
    rw [(hinv.tended o).counted.pRef_timer, hheld]
    rfl

end Refs

/-- Two timers are added, the first is called back, the worker is stopped, and the timer thread
drains the rest. -/
def endedRun : List (SystemAct Unit Bool 1) :=
  [.timer (.run .step), .timer (.run (.tick 0)), .timer (.run .step), .timer (.run .step),
    .timer (.addTimer () false 1000 9), .object (.inl ()) false, .timer (.addTick () 10),
    .timer (.addRegion ()), .timer (.setEvent ()),
    .timer (.addTimer () false 0 7), .object (.inl ()) false, .timer (.addTick () 5),
    .timer (.addRegion ()), .timer (.setEvent ()),
    .timer (.run .wakeTimer), .timer (.run (.tick 10)), .timer (.run .step),
    .timer (.run (.top ⟨false, 5, 7⟩)), .timer (.run .step),
    .timer (.run (.top ⟨false, 1010, 9⟩)), .timer (.run .step),
    .worker 0, .worker 0, .worker 0, .worker 0, .object (.inr (some 0)) false, .worker 0, .worker 0,
    .terminateWorkers, .worker 0, .worker 0, .worker 0, .terminateWorkers, .worker 0,
    .timer .terminate, .timer (.run .wakeTerminate), .timer (.run .step),
    .timer (.run (.top ⟨false, 1010, 9⟩)), .object (.inr none) false,
    .timer (.run (.top ⟨true, 86400000, 0⟩)), .object (.inr none) true, .timer (.run .step)]

/-- The run `endedRun`, in which all threads end. -/
theorem conserved_of_reaches_ended : ∃ s : TimerSystem Unit Bool 1,
    s.called = [⟨false, 5, 7⟩] ∧ s.Terminated ∧ s.Conserved true ∧
      (s.called ++ s.drained).Perm s.accepted ∧ ∀ o, (s.objects o).pRef .timer = 0 := by
  obtain ⟨s, hrun, hcalled, hend⟩ : ∃ s, runAll (systemStep true) (.init Unit 1 true 0) endedRun =
      some s ∧ s.called = [⟨false, 5, 7⟩] ∧ s.Terminated :=
    ⟨_, rfl, rfl, by decide, rfl, fun _ => .inl rfl⟩
  obtain ⟨hcons, hterm⟩ := conserved_of_reaches (Reaches.of_runAll hrun (by decide +kernel))
  exact ⟨s, hcalled, hend, hcons, hterm hend⟩

/-- An `AddTimer` that comes before `Run` has cleared `s_nStop` is refused: nothing is
queued, and the reference it took is kept. -/
theorem not_conserved_refused : ¬ ∀ s : TimerSystem Unit Bool 1,
    Reaches (systemStep true) Always (.init Unit 1 true 0) s → s.Conserved true := by
  intro hall
  obtain ⟨s, hrun, howned, hdue⟩ : ∃ s : TimerSystem Unit Bool 1,
      runAll (systemStep true) (.init Unit 1 true 0) [.timer (.addTimer () false 1000 7),
        .object (.inl ()) false, .timer (.addTick () 0), .timer (.addRegion ())] = some s ∧
        (s.objects false).owned .timer = 1 ∧ s.due false = 0 :=
    ⟨_, rfl, by decide, by decide⟩
  have hrefs := (hall s (.always_of_runAll hrun)).refs false
  rw [howned, hdue] at hrefs
  cases hrefs

end BGIocpServer
