import BGIocpServer.TimerSystem

/-!
# The ledger of the timers

What is true of the timer thread, the workers and the counters at any time. The timers and the
timer references are counted at each place where they can be: the threads in `AddTimer`, the
queue, the port, and the workers in `OnIOCallback`.

## Main definitions

* `TimerSystem.Conserved`: every timer and every reference is accounted for.
* `TimerSystem.Inv`: this, and what it rests on.

## Main results

* `TimerSystem.Tended.next`, `TimerSystem.Tended.hold`, `TimerSystem.Tended.drop`: the steps of
  `AddRef` and `Release`.
* `TimerSystem.Inv.workerNext`: a step of a worker.
-/

namespace BGIocpServer
open Kit

section Ledger
variable {ι Obj : Type} {n : ℕ} [DecidableEq ι] [DecidableEq Obj] [Fintype ι]

omit [DecidableEq ι] in
/-- The timers that the workers have not called back: in the port, or taken from it. -/
def TimerSystem.posted (s : TimerSystem ι Obj n) (P : BGIOTimer Obj → Bool) : ℕ :=
  s.workers.port.countP (Posted.has P) + tally (uncalled P) s.hands

omit [DecidableEq ι] in
/-- The timer references that are out: each call of `AddTimer` that has not handed its timer
over, and each timer in the queue, in the port or with a worker that has not released it, has
one. -/
def TimerSystem.due (s : TimerSystem ι Obj n) (pObject : Obj) : ℕ :=
  s.timer.held pObject +
    (s.workers.port.countP (Posted.has fun timer => timer.pObject = pObject) +
      tally (unreleased fun timer => timer.pObject = pObject) s.hands)

omit [DecidableEq ι] in
/-- Every timer is where the history says, every timer reference is one that is due, and every
counter is what it counts. -/
structure TimerSystem.Conserved (guard : Obj) (s : TimerSystem ι Obj n) : Prop where
  ledger : ∀ P : BGIOTimer Obj → Bool,
    s.called.countP P + s.drained.countP P + s.timer.stock P + s.posted P = s.accepted.countP P
  refs : ∀ o, (s.objects o).owned .timer = s.due o
  counted : ∀ o, (s.objects o).CountedFor (o = guard)

/-- What holds of the counters of an object, and of the calls on it. -/
structure TimerSystem.Tended (guard : Obj) (s : TimerSystem ι Obj n) (o : Obj)
    (r : RefState (RefThread ι n)) : Prop where
  refs : r.owned .timer = s.due o
  counted : r.CountedFor (o = guard)
  taking : ∀ u, (r.pc u).taking .timer = true →
    ∃ t n64Time nId, u = .inl t ∧ s.timer.adding t = .tick o n64Time nId
  releasing : ∀ w, r.pc (.inr (some w)) ≠ .idle →
    ∃ timer, s.hands w = (.callback (some timer), .releasing) ∧ timer.pObject = o
  draining : r.pc (.inr none) ≠ .idle → s.draining = some o

/-- What `Run` knows of the queue, and what suspended workers have left. -/
structure TimerSystem.Orderly (s : TimerSystem ι Obj n) : Prop where
  sound : s.timer.Sound
  empty : s.timer.port = []
  suspended : ∀ v, s.workers.suspended v = true → (s.workers.worker v).timed = false
  gone : (∀ v, s.workers.suspended v = true) → ∀ p ∈ s.workers.port, p.has (fun _ => true) = false

/-- All of this. -/
structure TimerSystem.Inv (guard : Obj) (s : TimerSystem ι Obj n) : Prop where
  ledger : ∀ P : BGIOTimer Obj → Bool,
    s.called.countP P + s.drained.countP P + s.timer.stock P + s.posted P = s.accepted.countP P
  tended : ∀ o, s.Tended guard o (s.objects o)
  orderly : s.Orderly

variable {guard : Obj} {s s' : TimerSystem ι Obj n} {o : Obj} {r r' : RefState (RefThread ι n)}

namespace TimerSystem

/-! ## AddRef and Release -/

omit [DecidableEq ι] in
/-- While a timer reference is out that is not of a thread in `AddTimer`, one is counted. -/
theorem Tended.held_pos (h : s.Tended guard o r)
    (hsome : tally (AddTimerPc.holds o) s.timer.adding < s.due o) : 0 < r.held .timer := by
  have hrefs := h.refs
  -- a reference that is being taken is that of a thread in `AddTimer`
  have hinl : tally (RefPc.taking .timer) (fun t => r.pc (.inl t)) ≤
      tally (AddTimerPc.holds o) s.timer.adding := by
    refine tally_mono fun t ht => ?_
    obtain ⟨u, n64Time, nId, hu, htick⟩ := h.taking (.inl t) ht
    cases hu
    rw [htick]
    exact decide_eq_true rfl
  have hinr : tally (RefPc.taking .timer) (fun u => r.pc (.inr u)) = 0 := by
    refine tally_eq_zero.mpr fun u => ?_
    by_contra hu
    obtain ⟨t, -, -, ht, -⟩ := h.taking (.inr u) (Bool.not_eq_false _ ▸ hu)
    cases ht
  rw [RefState.owned, tally_sum, hinr] at hrefs
  omega

omit [DecidableEq ι] in
/-- A step in `AddRef` or `Release` that takes and gives up no timer reference. -/
theorem Tended.congr (h : s.Tended guard o r) (howned : r'.owned .timer = r.owned .timer)
    (hkept : r'.CountedFor (o = guard))
    (htaking : ∀ u, (r'.pc u).taking .timer = true → (r.pc u).taking .timer = true)
    (hcalls : ∀ u, r'.pc (.inr u) ≠ .idle → r.pc (.inr u) ≠ .idle) : s.Tended guard o r' where
  refs := howned.trans h.refs
  counted := hkept
  taking u hu := h.taking u (htaking u hu)
  releasing w hw := h.releasing w (hcalls _ hw)
  draining hw := h.draining (hcalls _ hw)

omit [DecidableEq ι] in
/-- The counters of one object are written. -/
theorem tended_setObject (hothers : ∀ p, p ≠ o → s.Tended guard p (s.objects p))
    (hr : s.Tended guard o r) (p : Obj) :
    (s.setObject o r).Tended guard p ((s.setObject o r).objects p) := by
  have hall := (Function.forall_update_iff s.objects fun p r => s.Tended guard p r).mpr
    ⟨hr, hothers⟩ p
  exact ⟨hall.refs, hall.counted, hall.taking, hall.releasing, hall.draining⟩

omit [DecidableEq ι] in
theorem Inv.setObject (h : s.Inv guard) (hr : s.Tended guard o r) :
    (s.setObject o r).Inv guard where
  ledger := h.ledger
  tended := tended_setObject (fun p _ => h.tended p) hr
  orderly := ⟨h.orderly.sound, h.orderly.empty, h.orderly.suspended, h.orderly.gone⟩

/-- A thread goes on in `AddRef` or `Release`. -/
theorem Tended.next (h : s.Tended guard o r) {u : RefThread ι n}
    (hstep : r.next u (r.pc u) = some r') : s.Tended guard o r' := by
  obtain ⟨hbusy, c, hpc, -⟩ := RefState.next_pc hstep
  refine h.congr (RefState.owned_next hstep) (h.counted.next hstep)
    (fun v => RefState.taking_next hstep) fun v hv => ?_
  by_cases huv : .inr v = u
  · rw [huv]
    exact hbusy
  · rwa [hpc, Function.update_of_ne huv] at hv

/-- A thread that is no worker begins a call that takes and gives up no timer reference. -/
theorem Tended.call (h : s.Tended guard o r) {t : ι} {c : RefPc} (hc : c.taking .timer = false)
    (hpc : r'.pc = Function.update r.pc (.inl t) c) (howned : r'.owned .timer = r.owned .timer)
    (hkept : r'.CountedFor (o = guard)) : s.Tended guard o r' := by
  refine h.congr howned hkept (fun u hu => ?_) fun u hu => ?_
  · rw [hpc] at hu
    by_cases hut : u = .inl t
    · rw [hut, Function.update_self, hc] at hu
      cases hu
    · rwa [Function.update_of_ne hut] at hu
  · rwa [hpc, Function.update_of_ne (by simp)] at hu

/-- It begins an `AddRef()` of an object that is not the guard. -/
theorem Tended.hold (h : s.Tended guard o r) {t : ι} (hne : o ≠ guard)
    (hfit : r.total + 1 < 2 ^ 31) (hstep : refStep r (.addRef (.inl t) .general) = some r') :
    s.Tended guard o r' := by
  have hcounted := h.counted
  rw [decide_eq_false hne] at hcounted
  have hkept := RefState.Counted.step (a := .addRef (.inl t) .general) hcounted hfit hstep
  simp only [refStep, Option.ite_none_right_eq_some, Option.some.injEq] at hstep
  obtain ⟨⟨hidle, -⟩, rfl⟩ := hstep
  obtain ⟨c, hc, hpc, -⟩ := r.addRef_pc (.inl t) .general
  refine h.call (hc .timer) hpc (RefState.owned_addRef hidle) ?_
  rw [decide_eq_false hne]
  exact hkept

/-- It begins a `Release()`. -/
theorem Tended.drop (h : s.Tended guard o r) {t : ι} (hne : o ≠ guard)
    (hstep : refStep r (.release (.inl t) .general) = some r') : s.Tended guard o r' := by
  have hcounted := h.counted
  rw [decide_eq_false hne] at hcounted
  have hkept := RefState.Counted.step (a := .release (.inl t) .general) hcounted trivial hstep
  simp only [refStep, Option.ite_none_right_eq_some, Option.some.injEq] at hstep
  obtain ⟨⟨hidle, hpos⟩, rfl⟩ := hstep
  obtain ⟨c, hc, hpc, -⟩ := r.release_pc (.inl t) .general
  refine h.call (hc .timer) hpc (RefState.owned_release (k := .timer) hidle hpos) ?_
  rw [decide_eq_false hne]
  exact hkept

/-- The timer thread or a worker calls `Release(&m_nTimerRef)` of an object with a timer reference
to give up, and goes on where `s'` says. -/
theorem Tended.callRelease (h : s.Tended guard o r) {u : Option (Fin n)}
    (hidle : r.pc (.inr u) = .idle) (hpos : 0 < r.held .timer) (hdue : s'.due o + 1 = s.due o)
    (hadding : s'.timer.adding = s.timer.adding)
    (hhands : ∀ v, some v ≠ u → s'.hands v = s.hands v)
    (hdraining : none ≠ u → s'.draining = s.draining)
    (hworker : ∀ v, some v = u →
      ∃ timer, s'.hands v = (.callback (some timer), .releasing) ∧ timer.pObject = o)
    (htimer : none = u → s'.draining = some o) :
    s'.Tended guard o (r.release (.inr u) .timer) := by
  obtain ⟨c, hc, hpcs, -⟩ := r.release_pc (.inr u) .timer
  have howned := RefState.owned_release (k := .timer) hidle hpos
  rw [if_pos rfl] at howned
  have hother : ∀ v, v ≠ u → (r.release (.inr u) .timer).pc (.inr v) = r.pc (.inr v) := by
    intro v hv
    rw [hpcs, Function.update_of_ne fun heq => hv (Sum.inr.inj heq)]
  refine ⟨?_, h.counted.release hidle hpos, fun v hv => ?_, fun v hv => ?_, fun hv => ?_⟩
  · have hrefs := h.refs
    omega
  · rw [hpcs] at hv
    by_cases hvu : v = .inr u
    · rw [hvu, Function.update_self, hc] at hv
      simp at hv
    · rw [Function.update_of_ne hvu] at hv
      rw [hadding]
      exact h.taking v hv
  · by_cases hvu : some v = u
    · exact hworker v hvu
    · rw [hother _ hvu] at hv
      rw [hhands v hvu]
      exact h.releasing v hv
  · by_cases hvu : none = u
    · exact htimer hvu
    · rw [hother _ hvu] at hv
      rw [hdraining hvu]
      exact h.draining hv

/-! ## The workers -/

section Workers
variable {w : Fin n} {k : WorkerPc n (Option (BGIOTimer Obj))} {c : TimerCallPc}
  {workers : WorkerState n (Option (BGIOTimer Obj))} {called : List (BGIOTimer Obj)}

/-- A worker moves. -/
def move (s : TimerSystem ι Obj n) (w : Fin n) (c : TimerCallPc)
    (workers : WorkerState n (Option (BGIOTimer Obj))) (called : List (BGIOTimer Obj)) :
    TimerSystem ι Obj n :=
  { s with workers := workers, callback := Function.update s.callback w c, called := called }

omit [DecidableEq ι] [DecidableEq Obj] [Fintype ι] in
theorem hands_move (hworker : workers.worker = Function.update s.workers.worker w k) :
    (s.move w c workers called).hands = Function.update s.hands w (k, c) := by
  funext v
  simp only [hands, move, hworker]
  by_cases hv : v = w
  · subst hv
    simp only [Function.update_self]
  · simp only [Function.update_of_ne hv]
    rfl

omit [DecidableEq ι] [DecidableEq Obj] [Fintype ι] in
/-- The timers of the port and the workers, of which `w` is one. -/
theorem posted_move (c : TimerCallPc) (called : List (BGIOTimer Obj))
    (hworker : workers.worker = Function.update s.workers.worker w k)
    (W : (BGIOTimer Obj → Bool) → WorkerPc n (Option (BGIOTimer Obj)) × TimerCallPc → Bool)
    (P : BGIOTimer Obj → Bool) :
    tally (W P) (s.move w c workers called).hands + (W P (s.hands w)).toNat =
      tally (W P) s.hands + (W P (k, c)).toNat := by
  rw [hands_move hworker]
  exact tally_update (W P) s.hands w (k, c)

omit [DecidableEq ι] in
/-- The calls of the other threads, when a worker moves that is in no call. -/
theorem Tended.move (h : s.Tended guard o r)
    (hworker : workers.worker = Function.update s.workers.worker w k)
    (hdue : (s.move w c workers called).due o = s.due o)
    (hidle : r.pc (.inr (some w)) = .idle) : (s.move w c workers called).Tended guard o r where
  refs := h.refs.trans hdue.symm
  counted := h.counted
  taking := h.taking
  releasing v hv := by
    have hvw : v ≠ w := by
      rintro rfl
      exact hv hidle
    obtain ⟨timer, hhands, htimer⟩ := h.releasing v hv
    refine ⟨timer, ?_, htimer⟩
    rw [hands_move hworker, Function.update_of_ne hvw]
    exact hhands
  draining := h.draining

omit [DecidableEq ι] in
/-- A worker outside `Release` moves, and takes the timer along. -/
theorem Inv.move (h : s.Inv guard)
    (hworker : workers.worker = Function.update s.workers.worker w k)
    (hledger : ∀ P, called.countP P + workers.port.countP (Posted.has P) +
      (uncalled P (k, c)).toNat = s.called.countP P + s.workers.port.countP (Posted.has P) +
        (uncalled P (s.hands w)).toNat)
    (hrefs : ∀ P, workers.port.countP (Posted.has P) + (unreleased P (k, c)).toNat =
      s.workers.port.countP (Posted.has P) + (unreleased P (s.hands w)).toNat)
    (hidle : ∀ o, (s.objects o).pc (.inr (some w)) = .idle)
    (hsuspended : ∀ v, workers.suspended v = true → (workers.worker v).timed = false)
    (hgone : (∀ v, workers.suspended v = true) →
      ∀ p ∈ workers.port, p.has (fun _ => true) = false) :
    (s.move w c workers called).Inv guard where
  ledger P := by
    have hold := h.ledger P
    have hmove := posted_move c called hworker uncalled P
    have hnew := hledger P
    rw [posted] at hold ⊢
    change called.countP P + s.drained.countP P + s.timer.stock P +
      (workers.port.countP (Posted.has P) + _) = s.accepted.countP P
    omega
  tended o := by
    refine (h.tended o).move hworker ?_ (hidle o)
    have hmove := posted_move c called hworker unreleased fun timer => timer.pObject = o
    have hnew := hrefs fun timer => timer.pObject = o
    rw [due, due]
    change s.timer.held o + (workers.port.countP _ + _) = _
    omega
  orderly := ⟨h.orderly.sound, h.orderly.empty, hsuspended, hgone⟩

omit [DecidableEq ι] in
/-- A worker goes on outside `OnTimer` and `Release`. -/
theorem Inv.advance (h : s.Inv guard) (hok : s.Spares (s.workers.worker w))
    (hrun : s.workers.suspended w = false)
    (hidle : ∀ o, (s.objects o).pc (.inr (some w)) = .idle)
    (hout : ∀ timer, s.workers.worker w = .callback (some timer) → s.callback w = .releasing)
    (hstep : s.advance w = some s') : s'.Inv guard := by
  simp only [TimerSystem.advance, workerStep, hrun, Bool.false_eq_true, if_false,
    Option.map_eq_some_iff] at hstep
  obtain ⟨workers, hnext, rfl⟩ := hstep
  -- what holds where the worker suspends nobody: it runs on
  have hkeep : ∀ {k}, workers.worker = Function.update s.workers.worker w k →
      workers.suspended = s.workers.suspended →
      (∀ P, workers.port.countP (Posted.has P) + (uncalled P (k, .onTimer)).toNat =
        s.workers.port.countP (Posted.has P) + (uncalled P (s.hands w)).toNat) →
      (∀ P, workers.port.countP (Posted.has P) + (unreleased P (k, .onTimer)).toNat =
        s.workers.port.countP (Posted.has P) + (unreleased P (s.hands w)).toNat) →
      (s.move w .onTimer workers s.called).Inv guard := by
    intro k hworker hsame hledger hrefs
    refine h.move hworker (fun P => ?_) hrefs hidle (fun v hv => ?_) fun hall => ?_
    · have hP := hledger P
      omega
    · rw [hsame] at hv
      rw [hworker, Function.update_of_ne (fun hvw => by simp [hvw, hrun] at hv)]
      exact h.orderly.suspended v hv
    · have hw := hall w
      simp [hsame, hrun] at hw
  have hhands : s.hands w = (s.workers.worker w, s.callback w) := rfl
  -- what holds where the port stays as it is
  have hstay : ∀ {k}, workers.worker = Function.update s.workers.worker w k →
      workers.suspended = s.workers.suspended → workers.port = s.workers.port →
      (∀ P, uncalled P (k, .onTimer) = uncalled P (s.hands w)) →
      (∀ P, unreleased P (k, .onTimer) = unreleased P (s.hands w)) →
      (s.move w .onTimer workers s.called).Inv guard := by
    intro k hworker hsame hport hledger hrefs
    exact hkeep hworker hsame (fun P => by rw [hport, hledger]) fun P => by rw [hport, hrefs]
  cases hpc : s.workers.worker w with
  | get =>
      cases hport : s.workers.port with
      | nil => simp [hpc, hport, WorkerState.next] at hnext
      | cons p port =>
          simp only [hpc, hport, WorkerState.next, Option.some.injEq] at hnext
          subst hnext
          refine hkeep rfl rfl (fun P => ?_) fun P => ?_
          · rw [hhands, hpc, hport, (uncalled_increment P p .onTimer).1, List.countP_cons]
            cases hp : p.has P <;> simp [WorkerState.goto, uncalled]
          · rw [hhands, hpc, hport, (uncalled_increment P p .onTimer).2, List.countP_cons]
            cases hp : p.has P <;> simp [WorkerState.goto, unreleased]
  | increment p =>
      rw [hpc] at hhands
      cases p with
      | job j =>
          simp only [hpc, WorkerState.next, Option.some.injEq] at hnext
          subst hnext
          cases j with
          | none => exact hstay rfl rfl rfl (fun P => hhands ▸ rfl) fun P => hhands ▸ rfl
          | some timer => exact hstay rfl rfl rfl (fun P => hhands ▸ rfl) fun P => hhands ▸ rfl
      | terminate v =>
          simp only [hpc, WorkerState.next, Option.some.injEq] at hnext
          subst hnext
          exact hstay rfl rfl rfl (fun P => hhands ▸ rfl) fun P => hhands ▸ rfl
  | callback j =>
      simp only [hpc, WorkerState.next, Option.some.injEq] at hnext
      subst hnext
      cases j with
      | none =>
          rw [hpc] at hhands
          exact hstay rfl rfl rfl (fun P => hhands ▸ rfl) fun P => hhands ▸ rfl
      | some timer =>
          rw [hpc, hout timer hpc] at hhands
          exact hstay rfl rfl rfl (fun P => hhands ▸ rfl) fun P => hhands ▸ rfl
  | setEvent v =>
      simp only [hpc, WorkerState.next, Option.some.injEq] at hnext
      subst hnext
      rw [hpc] at hhands
      exact hstay rfl rfl rfl (fun P => hhands ▸ rfl) fun P => hhands ▸ rfl
  | suspend v =>
      simp only [hpc, WorkerState.next, Option.some.injEq] at hnext
      subst hnext
      rw [hpc] at hhands
      rw [hpc] at hok
      obtain ⟨htimed, hlast⟩ := hok
      refine h.move rfl (fun P => hhands ▸ rfl) (fun P => hhands ▸ rfl) hidle (fun u hu => ?_)
        fun hall => hlast fun u hu => ?_
      · simp only [WorkerState.goto] at hu ⊢
        by_cases huw : u = w
        · rw [huw, Function.update_self]
          rfl
        · rw [Function.update_of_ne huw]
          by_cases huv : u = v
          · rw [huv]
            exact htimed
          · rw [Function.update_of_ne huv] at hu
            exact h.orderly.suspended u hu
      · have hsuspended := hall u
        simp only [WorkerState.goto, Function.update_of_ne hu] at hsuspended
        exact hsuspended
  | decrement =>
      simp only [hpc, WorkerState.next, Option.some.injEq] at hnext
      subst hnext
      rw [hpc] at hhands
      exact hstay rfl rfl rfl (fun P => hhands ▸ rfl) fun P => hhands ▸ rfl

/-- A worker calls `Release(&m_nTimerRef)` of the object of its timer. -/
theorem Inv.callRelease (h : s.Inv guard) {timer : BGIOTimer Obj}
    (hpc : s.workers.worker w = .callback (some timer)) (hcall : s.callback w = .release) :
    ((s.move w .releasing s.workers s.called).release (some w) timer.pObject).Inv guard := by
  have hworker : s.workers.worker =
      Function.update s.workers.worker w (.callback (some timer)) := by
    rw [← hpc, Function.update_eq_self]
  have hhands : s.hands w = (.callback (some timer), .release) := by rw [hands, hpc, hcall]
  have hidle : ∀ o, (s.objects o).pc (.inr (some w)) = .idle := by
    intro o
    by_contra hbusy
    obtain ⟨timer', htimer', -⟩ := (h.tended o).releasing w hbusy
    simp [hhands] at htimer'
  have hdue : ∀ o, (s.move w .releasing s.workers s.called).due o +
      (if timer.pObject = o then 1 else 0) = s.due o := by
    intro o
    have hmove := posted_move .releasing s.called hworker unreleased fun timer => timer.pObject = o
    rw [hhands] at hmove
    simp only [unreleased, Bool.toNat_false, toNat_decide] at hmove
    rw [due, due]
    change s.timer.held o + (s.workers.port.countP _ + _) + _ = _
    omega
  refine ⟨fun P => ?_, tended_setObject (fun o hne => ?_) ?_, ?_⟩
  · have hmove := posted_move .releasing s.called hworker uncalled P
    rw [hhands] at hmove
    simp only [uncalled, Bool.toNat_false] at hmove
    have hledger := h.ledger P
    rw [posted] at hledger
    change s.called.countP P + s.drained.countP P + s.timer.stock P +
      (s.workers.port.countP (Posted.has P) +
        tally (uncalled P) (s.move w .releasing s.workers s.called).hands) = s.accepted.countP P
    omega
  · refine (h.tended o).move hworker ?_ (hidle o)
    have ho := hdue o
    rwa [if_neg (Ne.symm hne)] at ho
  · have htended := h.tended timer.pObject
    have hpos : 0 < (s.objects timer.pObject).held .timer := by
      refine htended.held_pos ?_
      have hone : 0 < tally (unreleased fun t => t.pObject = timer.pObject) s.hands := by
        refine tally_pos (i := w) ?_
        rw [hhands]
        exact decide_eq_true rfl
      rw [due, TimerState.held]
      omega
    have ho := hdue timer.pObject
    rw [if_pos rfl] at ho
    refine htended.callRelease (hidle _) hpos ho rfl (fun v hv => ?_) (fun _ => rfl)
      (fun v hv => ?_) fun hnone => by simp at hnone
    · rw [hands_move hworker, Function.update_of_ne fun hvw => hv (congrArg some hvw)]
    · cases hv
      rw [hands_move hworker, Function.update_self]
      exact ⟨timer, rfl, rfl⟩
  · exact ⟨h.orderly.sound, h.orderly.empty, h.orderly.suspended, h.orderly.gone⟩

omit [DecidableEq ι] in
/-- A worker that is not in its `Release` is in no call. -/
theorem Inv.idle (h : s.Inv guard)
    (hhands : ∀ timer, s.hands w ≠ (.callback (some timer), .releasing)) (o : Obj) :
    (s.objects o).pc (.inr (some w)) = .idle := by
  by_contra hbusy
  obtain ⟨timer, htimer, -⟩ := (h.tended o).releasing w hbusy
  exact hhands timer htimer

/-- The next step of a worker. -/
theorem Inv.workerNext (h : s.Inv guard) (hok : s.Spares (s.workers.worker w))
    (hrun : s.workers.suspended w = false) (hstep : s.workerNext w = some s') : s'.Inv guard := by
  have hhands : s.hands w = (s.workers.worker w, s.callback w) := rfl
  have hadvance : (∀ timer, s.workers.worker w ≠ .callback (some timer)) →
      s.advance w = some s' → s'.Inv guard := by
    intro hnot hstep
    refine h.advance hok hrun (h.idle fun timer htimer => ?_) (fun timer htimer => ?_) hstep
    · exact hnot timer (congrArg Prod.fst htimer)
    · exact absurd htimer (hnot timer)
  cases hpc : s.workers.worker w with
  | callback j =>
      cases j with
      | none =>
          simp only [TimerSystem.workerNext, hpc] at hstep
          exact hadvance (fun timer => by simp [hpc]) hstep
      | some timer =>
          cases hcall : s.callback w with
          | onTimer =>
              simp only [TimerSystem.workerNext, hpc, hcall, Option.some.injEq] at hstep
              subst hstep
              rw [hpc, hcall] at hhands
              have hworker : s.workers.worker =
                  Function.update s.workers.worker w (.callback (some timer)) := by
                rw [← hpc, Function.update_eq_self]
              refine h.move hworker (fun P => ?_) (fun P => ?_)
                (h.idle fun _ heq => by simp [hhands] at heq) h.orderly.suspended h.orderly.gone
              · rw [hhands, List.countP_cons]
                cases hP : P timer <;> simp [uncalled, hP]
                omega
              · rw [hhands]
                rfl
          | release =>
              simp only [TimerSystem.workerNext, hpc, hcall, Option.some.injEq] at hstep
              exact hstep ▸ h.callRelease hpc hcall
          | releasing =>
              simp only [TimerSystem.workerNext, hpc, hcall, Option.ite_none_right_eq_some] at hstep
              obtain ⟨hreturned, hstep⟩ := hstep
              refine h.advance hok hrun (fun o => ?_) (fun _ _ => hcall) hstep
              by_contra hbusy
              obtain ⟨timer', htimer', rfl⟩ := (h.tended o).releasing w hbusy
              rw [hhands, hpc, hcall] at htimer'
              cases htimer'
              exact hbusy (of_decide_eq_true hreturned)
  | _ =>
      simp only [TimerSystem.workerNext, hpc] at hstep
      exact hadvance (fun timer => by simp [hpc]) hstep

end Workers

omit [DecidableEq ι] in
/-- Another completion is put into the port, or none. -/
theorem Inv.post (h : s.Inv guard) {workers : WorkerState n (Option (BGIOTimer Obj))}
    {ps : List (Posted n (Option (BGIOTimer Obj)))} (hport : workers.port = s.workers.port ++ ps)
    (hps : ∀ p ∈ ps, ∀ P, p.has P = false) (hworker : workers.worker = s.workers.worker)
    (hsuspended : workers.suspended = s.workers.suspended) :
    { s with workers := workers }.Inv guard := by
  obtain ⟨m, hm⟩ : ∃ m : TimerSystem ι Obj n, m = { s with workers := workers } := ⟨_, rfl⟩
  rw [← hm]
  have hcount : ∀ P, workers.port.countP (Posted.has P) =
      s.workers.port.countP (Posted.has P) := by
    intro P
    have hnone : ps.countP (Posted.has P) = 0 :=
      List.countP_eq_zero.mpr fun p hp => by simp [hps p hp P]
    rw [hport, List.countP_append, hnone, Nat.add_zero]
  have hhands : m.hands = s.hands := by
    funext v
    rw [hm, hands, hands, hworker]
  have hposted : ∀ P, m.posted P = s.posted P := by
    intro P
    rw [posted, posted, hhands, hm, hcount]
  have hdue : ∀ o, m.due o = s.due o := by
    intro o
    rw [due, due, hhands, hm, hcount]
  refine ⟨fun P => ?_, fun o => ?_, ?_⟩
  · rw [hposted, hm]
    exact h.ledger P
  · have htended := h.tended o
    rw [show m.objects = s.objects by rw [hm]]
    refine ⟨htended.refs.trans (hdue o).symm, htended.counted, ?_, ?_, ?_⟩
    · rw [hm]
      exact htended.taking
    · rw [hhands]
      exact htended.releasing
    · rw [hm]
      exact htended.draining
  · rw [hm]
    refine ⟨h.orderly.sound, h.orderly.empty, ?_, fun hall p hp => ?_⟩
    · rw [hsuspended, hworker]
      exact h.orderly.suspended
    · rw [hport, List.mem_append] at hp
      rw [hsuspended] at hall
      rcases hp with hp | hp
      · exact h.orderly.gone hall p hp
      · exact hps p hp _

end TimerSystem

end Ledger

end BGIocpServer
