import BGIocpServer.PoolLists
import BGIocpServer.SpinLock

/-!
# The pool on its spin locks

`Alloc` and `Free` with the `Enter` and `Leave` of `BGIOSpinLock` that they call, for any number
of threads: a thread that waits runs the loops of `Wait`. `PoolSteps` has each lock as what it
grants; here it is a word that the threads exchange.

## Main definitions

* `PoolPc.entering`, `PoolPc.leaving`: the calls on a lock.
* `SpinPool`, `spinPoolStep`: the steps.
* `SpinPool.Shows`: the pool with locks as what they grant.

## Main results

* `separated_of_spins`: the pool never hands out a live buffer, on its spin locks.
* `call_returns`: no call waits for ever of necessity.
-/

namespace BGIocpServer
open Kit

namespace PoolPc

/-- At `m_lock.Enter()` of a slot: where the call goes on. -/
def entering : PoolPc → Option (ℕ × PoolPc)
  | .allocEnter i => some (i, .allocHead i)
  | .freeEnter i p => some (i, .freeLink i p)
  | _ => none

/-- At `m_lock.Leave()` of a slot: where the call goes on. -/
def leaving : PoolPc → Option (ℕ × PoolPc)
  | .allocLeave i p => some (i, .initSize p)
  | .allocLeaveNew i => some (i, .allocNew)
  | .freeLeave i => some (i, .idle)
  | _ => none

/-- How many more steps the call takes at most, the waiting at a lock not counted. -/
def rank : PoolPc → ℕ
  | .idle => 0
  | .allocReturn _ | .freeLeave _ => 1
  | .initNext _ | .freeHead _ _ => 2
  | .initRef _ | .freeLink _ _ => 3
  | .initSize _ | .freeEnter _ _ => 4
  | .allocLeave _ _ | .allocNew | .freeCount _ => 5
  | .allocSet _ _ _ | .allocLeaveNew _ | .freeTest _ => 6
  | .allocNext _ _ => 7
  | .allocHead _ => 8
  | .allocEnter _ => 9

end PoolPc

/-- The pool with the locks of its slots. Nothing reads the field `lock` of the state. -/
structure SpinPool (ι : Type) where
  state : PoolState ι
  /-- `g_slotBuffer[i].m_lock` -/
  spin : ℕ → SpinLock ι

variable {ι : Type} [DecidableEq ι]

namespace SpinPool

/-- No `Alloc` has been called. -/
def start (info : ι → BGLockInfo) (heap : Heap) : SpinPool ι := ⟨.start ι heap, fun _ => .new info⟩

/-- The lock of a slot after a step of it. -/
def setSpin (s : SpinPool ι) (i : ℕ) (l : SpinLock ι) : SpinPool ι :=
  { s with spin := Function.update s.spin i l }

/-- The thread goes on at `k`. -/
def goto (s : SpinPool ι) (t : ι) (k : PoolPc) : SpinPool ι := { s with state := s.state.goto t k }

/-- A step of `Enter`: the call, or its next step, with which it may return. -/
def enter (s : SpinPool ι) (t : ι) (now : BitVec 64) (i : ℕ) (k : PoolPc) : Option (SpinPool ι) :=
  if (s.spin i).pc t = .idle then (spinStep (s.spin i) (.enter t now)).map (s.setSpin i)
  else (spinStep (s.spin i) (.step t)).map fun l =>
    if l.pc t = .idle then (s.setSpin i l).goto t k else s.setSpin i l

/-- A step of `Leave`: the call, or its exchange, with which it returns. -/
def leave (s : SpinPool ι) (t : ι) (i : ℕ) (k : PoolPc) : Option (SpinPool ι) :=
  if (s.spin i).pc t = .idle then (spinStep (s.spin i) (.leave t)).map (s.setSpin i)
  else (spinStep (s.spin i) (.step t)).map fun l => (s.setSpin i l).goto t k

/-- The next step of a call at the tick `now`. -/
def next (s : SpinPool ι) (t : ι) (now : BitVec 64) : Option (SpinPool ι) :=
  match (s.state.pc t).entering, (s.state.pc t).leaving with
  | some (i, k), _ => s.enter t now i k
  | none, some (i, k) => s.leave t i k
  | none, none => (s.state.next t (s.state.pc t)).map fun state => { s with state := state }

end SpinPool

/-- One step of the pool. -/
def spinPoolStep (s : SpinPool ι) : PoolAct ι × BitVec 64 → Option (SpinPool ι)
  | (.step t, now) => s.next t now
  | (a, _) => (poolStep s.state a).map fun state => { s with state := state }

/-! ## The locks as what they grant -/

section Frame
variable {s s' : PoolState ι} {t u : ι} {k k' : PoolPc} {i : ℕ}

theorem PoolPc.leaving_of_entering {x : ℕ × PoolPc} (h : k.entering = some x) :
    k.leaving = none := by
  cases k with
  | allocEnter j => rfl
  | freeEnter j p => rfl
  | _ => cases h

theorem next_entering (h : k.entering = some (i, k')) : s.next t k = s.enter t i k' := by
  cases k with
  | allocEnter j =>
      obtain ⟨rfl, rfl⟩ := Prod.mk.inj (Option.some.inj h)
      rfl
  | freeEnter j p =>
      obtain ⟨rfl, rfl⟩ := Prod.mk.inj (Option.some.inj h)
      rfl
  | _ => cases h

theorem next_leaving (h : k.leaving = some (i, k')) : s.next t k = some (s.leave t i k') := by
  cases k with
  | allocLeave j p =>
      obtain ⟨rfl, rfl⟩ := Prod.mk.inj (Option.some.inj h)
      rfl
  | allocLeaveNew j =>
      obtain ⟨rfl, rfl⟩ := Prod.mk.inj (Option.some.inj h)
      rfl
  | freeLeave j =>
      obtain ⟨rfl, rfl⟩ := Prod.mk.inj (Option.some.inj h)
      rfl
  | _ => cases h

/-- Another table of the locks. -/
def PoolState.setLock (s : PoolState ι) (lock : ℕ → Option ι) : PoolState ι :=
  { s with lock := lock }

/-- The other steps of a call do not look at the locks, and move one thread, which stays inside
the locks it is in. -/
theorem next_frame (henter : k.entering = none) (hleave : k.leaving = none)
    (lock : ℕ → Option ι) : (s.setLock lock).next t k = (s.next t k).map (·.setLock lock) ∧
      ∀ s', s.next t k = some s' → s'.lock = s.lock ∧ s'.pc = Function.update s.pc t (s'.pc t) ∧
        (s'.pc t).rank < k.rank ∧ (s'.pc t).region = k.region := by
  have moved : ∀ {r : PoolState ι} {l : PoolPc}, r.lock = s.lock → r.pc = s.pc →
      l.rank < k.rank → l.region = k.region → ∀ s', some (r.goto t l) = some s' →
      s'.lock = s.lock ∧ s'.pc = Function.update s.pc t (s'.pc t) ∧
        (s'.pc t).rank < k.rank ∧ (s'.pc t).region = k.region := by
    rintro r l hlock hpc hrank hregion s' hs
    obtain rfl := Option.some.inj hs
    have hself : (r.goto t l).pc t = l := Function.update_self _ _ _
    refine ⟨hlock, ?_, hself.symm ▸ hrank, hself.symm ▸ hregion⟩
    rw [hself, ← hpc]
    rfl
  cases k with
  | idle => exact ⟨rfl, fun s' hs => by cases hs⟩
  | allocEnter j => cases henter
  | freeEnter j p => cases henter
  | allocLeave j p => cases hleave
  | allocLeaveNew j => cases hleave
  | freeLeave j => cases hleave
  | allocHead j =>
      cases hhead : s.pool.slotBuffer j with
      | none =>
          have hhead' : (s.setLock lock).pool.slotBuffer j = none := hhead
          rw [head_of_none hhead, head_of_none hhead']
          exact ⟨rfl, moved rfl rfl (Nat.le_of_ble_eq_true rfl) rfl⟩
      | some p =>
          have hhead' : (s.setLock lock).pool.slotBuffer j = some p := hhead
          rw [head_of_some hhead, head_of_some hhead']
          exact ⟨rfl, moved rfl rfl (Nat.le_of_ble_eq_true rfl) rfl⟩
  | freeTest p =>
      simp only [PoolState.next]
      by_cases hstop : s.pool.nStop = true
      · have hstop' : (s.setLock lock).pool.nStop = true := hstop
        rw [if_pos hstop, if_pos hstop']
        exact ⟨rfl, moved rfl rfl (Nat.le_of_ble_eq_true rfl) rfl⟩
      · have hstop' : ¬(s.setLock lock).pool.nStop = true := hstop
        rw [if_neg hstop, if_neg hstop']
        exact ⟨rfl, moved rfl rfl (Nat.le_of_ble_eq_true rfl) rfl⟩
  | allocNext j p => exact ⟨rfl, moved rfl rfl (Nat.le_of_ble_eq_true rfl) rfl⟩
  | allocSet j p v => exact ⟨rfl, moved rfl rfl (Nat.le_of_ble_eq_true rfl) rfl⟩
  | allocNew => exact ⟨rfl, moved rfl rfl (Nat.le_of_ble_eq_true rfl) rfl⟩
  | initSize p => exact ⟨rfl, moved rfl rfl (Nat.le_of_ble_eq_true rfl) rfl⟩
  | initRef p => exact ⟨rfl, moved rfl rfl (Nat.le_of_ble_eq_true rfl) rfl⟩
  | initNext p => exact ⟨rfl, moved rfl rfl (Nat.le_of_ble_eq_true rfl) rfl⟩
  | allocReturn p => exact ⟨rfl, moved rfl rfl (Nat.le_of_ble_eq_true rfl) rfl⟩
  | freeCount p => exact ⟨rfl, moved rfl rfl (Nat.le_of_ble_eq_true rfl) rfl⟩
  | freeLink j p => exact ⟨rfl, moved rfl rfl (Nat.le_of_ble_eq_true rfl) rfl⟩
  | freeHead j p => exact ⟨rfl, moved rfl rfl (Nat.le_of_ble_eq_true rfl) rfl⟩

/-- Outside the calls on locks a step of the pool does not look at the locks, and moves threads
that are at no such call. -/
theorem poolStep_frame {b : PoolAct ι}
    (hb : ∀ t, b = .step t → (s.pc t).entering = none ∧ (s.pc t).leaving = none)
    (lock : ℕ → Option ι) :
    poolStep (s.setLock lock) b = (poolStep s b).map (·.setLock lock) ∧
      ∀ s', poolStep s b = some s' → ∀ u, s'.pc u = s.pc u ∨
        (s.pc u).entering = none ∧ (s.pc u).leaving = none := by
  have moved : ∀ {t : ι} {l : PoolPc}, s.pc t = .idle → ∀ u,
      Function.update s.pc t l u = s.pc u ∨ (s.pc u).entering = none ∧ (s.pc u).leaving = none := by
    intro t l hidle u
    by_cases hu : u = t
    · rw [hu, hidle]
      exact .inr ⟨rfl, rfl⟩
    · exact .inl (Function.update_of_ne hu _ _)
  cases b with
  | alloc t =>
      by_cases hidle : s.pc t = .idle
      · have hidle' : (s.setLock lock).pc t = .idle := hidle
        rw [poolStep, poolStep, if_pos hidle, if_pos hidle']
        exact ⟨rfl, fun s' hs => Option.some.inj hs ▸ moved hidle⟩
      · have hidle' : ¬(s.setLock lock).pc t = .idle := hidle
        rw [poolStep, poolStep, if_neg hidle, if_neg hidle']
        exact ⟨rfl, fun s' hs => by cases hs⟩
  | free t p =>
      by_cases hen : s.pc t = .idle ∧ 0 < s.holders p
      · have hen' : (s.setLock lock).pc t = .idle ∧ 0 < (s.setLock lock).holders p := hen
        rw [poolStep, poolStep, if_pos hen, if_pos hen']
        exact ⟨rfl, fun s' hs => Option.some.inj hs ▸ moved hen.1⟩
      · have hen' : ¬((s.setLock lock).pc t = .idle ∧ 0 < (s.setLock lock).holders p) := hen
        rw [poolStep, poolStep, if_neg hen, if_neg hen']
        exact ⟨rfl, fun s' hs => by cases hs⟩
  | write p b =>
      by_cases hheld : 0 < s.holders p
      · have hheld' : 0 < (s.setLock lock).holders p := hheld
        rw [poolStep, poolStep, if_pos hheld, if_pos hheld']
        exact ⟨rfl, fun s' hs u => .inl (Option.some.inj hs ▸ rfl)⟩
      · have hheld' : ¬0 < (s.setLock lock).holders p := hheld
        rw [poolStep, poolStep, if_neg hheld, if_neg hheld']
        exact ⟨rfl, fun s' hs => by cases hs⟩
  | step t =>
      obtain ⟨henter, hleave⟩ := hb t rfl
      obtain ⟨hsame, hframe⟩ := next_frame (s := s) (t := t) henter hleave lock
      refine ⟨hsame, fun s' hs u => ?_⟩
      by_cases hu : u = t
      · exact .inr (hu ▸ ⟨henter, hleave⟩)
      · rw [(hframe s' hs).2.1]
        exact .inl (Function.update_of_ne hu _ _)

end Frame

/-- The thread is in a call on the lock `i`, or outside. -/
def SpinPc.Fits (l : SpinPc) (i : ℕ) (k : PoolPc) : Prop :=
  l = .idle ∨ (l.waiting = true ∧ ∃ k', k.entering = some (i, k')) ∨
    (l = .leave ∧ ∃ k', k.leaving = some (i, k'))

/-- `a` is the pool with each lock as what it grants. -/
structure SpinPool.Shows (s : SpinPool ι) (a : PoolState ι) : Prop where
  state : a = s.state.setLock a.lock
  locks : ∀ i, (s.spin i).Grants (a.lock i)
  calls : ∀ t i, ((s.spin i).pc t).Fits i (s.state.pc t)

namespace SpinPool.Shows
variable {s s' : SpinPool ι} {a : PoolState ι} {l : SpinLock ι} {o : Option ι} {t : ι}
  {k k' : PoolPc} {i : ℕ}

omit [DecidableEq ι] in
theorem pc (h : s.Shows a) : s.state.pc = a.pc := by
  rw [h.state]
  rfl

/-- A thread takes a step on the lock `i`. -/
theorem setSpin (h : s.Shows a) (hl : l.Grants o)
    (hothers : ∀ u, u ≠ t → l.pc u = (s.spin i).pc u) (ht : (l.pc t).Fits i (s.state.pc t)) :
    (s.setSpin i l).Shows (a.setLock (Function.update a.lock i o)) := by
  refine ⟨congrArg (·.setLock (Function.update a.lock i o)) h.state, fun j => ?_, fun u j => ?_⟩
  · change (Function.update s.spin i l j).Grants (Function.update a.lock i o j)
    by_cases hj : j = i
    · subst hj
      rw [Function.update_self, Function.update_self]
      exact hl
    · rw [Function.update_of_ne hj, Function.update_of_ne hj]
      exact h.locks j
  · change ((Function.update s.spin i l j).pc u).Fits j (s.state.pc u)
    by_cases hj : j = i
    · subst hj
      rw [Function.update_self]
      by_cases hu : u = t
      · exact hu ▸ ht
      · rw [hothers u hu]
        exact h.calls u j
    · rw [Function.update_of_ne hj]
      exact h.calls u j

/-- A thread outside the calls on locks goes on. -/
theorem goto (h : s.Shows a) (ht : ∀ j, (s.spin j).pc t = .idle) :
    (s.goto t k).Shows (a.goto t k) := by
  refine ⟨congrArg (·.goto t k) h.state, h.locks, fun u j => ?_⟩
  change ((s.spin j).pc u).Fits j (Function.update s.state.pc t k u)
  by_cases hu : u = t
  · exact .inl (hu ▸ ht j)
  · rw [Function.update_of_ne hu]
    exact h.calls u j

omit [DecidableEq ι] in
/-- A thread at a call on one lock is in no call on another. -/
theorem idle_of_ne (h : s.Shows a)
    (hcall : (s.state.pc t).entering = some (i, k) ∨ (s.state.pc t).leaving = some (i, k)) {j : ℕ}
    (hj : j ≠ i) : (s.spin j).pc t = .idle := by
  rcases h.calls t j with hidle | ⟨-, k', hk'⟩ | ⟨-, k', hk'⟩
  · exact hidle
  · rcases hcall with hcall | hcall
    · rw [hcall, Option.some.injEq, Prod.mk.injEq] at hk'
      exact absurd hk'.1.symm hj
    · rw [PoolPc.leaving_of_entering hk'] at hcall
      cases hcall
  · rcases hcall with hcall | hcall
    · rw [PoolPc.leaving_of_entering hcall] at hk'
      cases hk'
    · rw [hcall, Option.some.injEq, Prod.mk.injEq] at hk'
      exact absurd hk'.1.symm hj

omit [DecidableEq ι] in
/-- A thread that is at no call on a lock is in none. -/
theorem idle_of_none (h : s.Shows a) (henter : (s.state.pc t).entering = none)
    (hleave : (s.state.pc t).leaving = none) (j : ℕ) : (s.spin j).pc t = .idle := by
  rcases h.calls t j with hidle | ⟨-, k', hk'⟩ | ⟨-, k', hk'⟩
  · exact hidle
  · rw [henter] at hk'
    cases hk'
  · rw [hleave] at hk'
    cases hk'

/-- The thread moves on in a call on the lock `i`. -/
theorem move {m : SpinPc} (h : s.Shows a) (hpc : l.pc = Function.update (s.spin i).pc t m)
    (hl : l.Grants o) (hm : m.Fits i (s.state.pc t)) :
    (s.setSpin i l).Shows (a.setLock (Function.update a.lock i o)) := by
  refine h.setSpin hl (fun u hu => ?_) (t := t) ?_
  · rw [hpc, Function.update_of_ne hu]
  · rw [hpc, Function.update_self]
    exact hm

/-- It moves on, and who is inside stays inside. -/
theorem move_same {m : SpinPc} (h : s.Shows a) (hpc : l.pc = Function.update (s.spin i).pc t m)
    (hl : l.Grants (a.lock i)) (hm : m.Fits i (s.state.pc t)) : (s.setSpin i l).Shows a := by
  have hmove := h.move hpc hl hm
  rw [Function.update_eq_self] at hmove
  exact hmove

/-- The call on the lock `i` returns. -/
theorem return_goto (h : s.Shows a) (hpc : l.pc = Function.update (s.spin i).pc t .idle)
    (hl : l.Grants o)
    (hcall : (s.state.pc t).entering = some (i, k) ∨ (s.state.pc t).leaving = some (i, k)) :
    ((s.setSpin i l).goto t k').Shows ((a.setLock (Function.update a.lock i o)).goto t k') := by
  refine (h.move hpc hl (.inl rfl)).goto fun j => ?_
  change (Function.update s.spin i l j).pc t = .idle
  by_cases hj : j = i
  · subst hj
    rw [Function.update_self, hpc, Function.update_self]
  · rw [Function.update_of_ne hj]
    exact h.idle_of_ne hcall hj

/-- A step of `Enter`: the thread goes on waiting, or it takes the lock. -/
theorem enter {now : BitVec 64} (h : s.Shows a) (hcall : (s.state.pc t).entering = some (i, k))
    (hs : s.enter t now i k = some s') :
    s'.Shows a ∨ ∃ a', poolStep a (.step t) = some a' ∧ s'.Shows a' := by
  simp only [SpinPool.enter] at hs
  split at hs
  · rw [Option.map_eq_some_iff] at hs
    obtain ⟨l, hl, rfl⟩ := hs
    obtain ⟨hpc, hgrants⟩ := (h.locks i).enter_call hl
    exact .inl (h.move_same hpc hgrants (.inr (.inl ⟨rfl, k, hcall⟩)))
  · rename_i hbusy
    rw [Option.map_eq_some_iff] at hs
    obtain ⟨l, hl, rfl⟩ := hs
    have hwait : ((s.spin i).pc t).waiting = true := by
      rcases h.calls t i with hidle | ⟨hwait, -⟩ | ⟨-, k', hk'⟩
      · exact absurd hidle hbusy
      · exact hwait
      · rw [PoolPc.leaving_of_entering hcall] at hk'
        cases hk'
    rcases (h.locks i).enter_step hwait hl with ⟨m, hm, hpc, hgrants⟩ | ⟨hfree, hpc, hgrants⟩
    · have hnot : l.pc t ≠ .idle := by
        rw [hpc, Function.update_self]
        rintro rfl
        cases hm
      rw [if_neg hnot]
      exact .inl (h.move_same hpc hgrants (.inr (.inl ⟨hm, k, hcall⟩)))
    · have hidle : l.pc t = .idle := by rw [hpc, Function.update_self]
      rw [if_pos hidle]
      refine .inr ⟨_, ?_, h.return_goto hpc hgrants (.inl hcall)⟩
      rw [poolStep, ← h.pc, next_entering hcall, enter_of_free hfree]
      rfl

/-- A step of `Leave`: the call, or the thread lets go. -/
theorem leave (h : s.Shows a) (hcall : (s.state.pc t).leaving = some (i, k))
    (hs : s.leave t i k = some s') :
    s'.Shows a ∨ ∃ a', poolStep a (.step t) = some a' ∧ s'.Shows a' := by
  simp only [SpinPool.leave] at hs
  split at hs
  · rw [Option.map_eq_some_iff] at hs
    obtain ⟨l, hl, rfl⟩ := hs
    obtain ⟨hpc, hgrants⟩ := (h.locks i).leave_call hl
    exact .inl (h.move_same hpc hgrants (.inr (.inr ⟨rfl, k, hcall⟩)))
  · rename_i hbusy
    rw [Option.map_eq_some_iff] at hs
    obtain ⟨l, hl, rfl⟩ := hs
    have hleaving : (s.spin i).pc t = .leave := by
      rcases h.calls t i with hidle | ⟨-, k', hk'⟩ | ⟨hleaving, -⟩
      · exact absurd hidle hbusy
      · rw [PoolPc.leaving_of_entering hk'] at hcall
        cases hcall
      · exact hleaving
    obtain ⟨-, hpc, hgrants⟩ := (h.locks i).leave_step hleaving hl
    refine .inr ⟨_, ?_, h.return_goto hpc hgrants (.inr hcall)⟩
    rw [poolStep, ← h.pc, next_leaving hcall]
    rfl

/-- A step of the pool outside the calls on locks. -/
theorem inner {b : PoolAct ι} {state : PoolState ι} (h : s.Shows a)
    (hb : ∀ t, b = .step t → (s.state.pc t).entering = none ∧ (s.state.pc t).leaving = none)
    (hs : poolStep s.state b = some state) :
    ∃ a', poolStep a b = some a' ∧ SpinPool.Shows { s with state := state } a' := by
  obtain ⟨hsame, hmoved⟩ := poolStep_frame (s := s.state) hb a.lock
  refine ⟨state.setLock a.lock, ?_, rfl, h.locks, fun u j => ?_⟩
  · rw [← h.state, hs, Option.map_some] at hsame
    exact hsame
  · change ((s.spin j).pc u).Fits j (state.pc u)
    rcases hmoved state hs u with hu | ⟨henter, hleave⟩
    · rw [hu]
      exact h.calls u j
    · exact .inl (h.idle_of_none henter hleave j)

end SpinPool.Shows

/-- The pool on its spin locks is the pool with the locks as what they grant. -/
theorem spinPool_simulates :
    Simulates (@spinPoolStep ι _) Always poolStep Always SpinPool.Shows := by
  rintro s a ⟨b, now⟩ s' h _ hs
  have inner : ∀ {c : PoolAct ι},
      (∀ t, c = .step t → (s.state.pc t).entering = none ∧ (s.state.pc t).leaving = none) →
      (poolStep s.state c).map (fun state => { s with state := state }) = some s' →
      s'.Shows a ∨ ∃ b a', Always a b ∧ poolStep a b = some a' ∧ s'.Shows a' := by
    intro c hc hmap
    rw [Option.map_eq_some_iff] at hmap
    obtain ⟨state, hstate, rfl⟩ := hmap
    obtain ⟨a', ha', hshows⟩ := h.inner hc hstate
    exact .inr ⟨c, a', trivial, ha', hshows⟩
  cases b with
  | alloc t => exact inner (fun _ => by simp) hs
  | free t p => exact inner (fun _ => by simp) hs
  | write p b => exact inner (fun _ => by simp) hs
  | step t =>
      simp only [spinPoolStep, SpinPool.next] at hs
      cases henter : (s.state.pc t).entering with
      | some x =>
          rw [henter] at hs
          rcases h.enter henter hs with hsame | ⟨a', ha', hshows⟩
          · exact .inl hsame
          · exact .inr ⟨.step t, a', trivial, ha', hshows⟩
      | none =>
          cases hleave : (s.state.pc t).leaving with
          | some x =>
              rw [henter, hleave] at hs
              rcases h.leave hleave hs with hsame | ⟨a', ha', hshows⟩
              · exact .inl hsame
              · exact .inr ⟨.step t, a', trivial, ha', hshows⟩
          | none =>
              rw [henter, hleave] at hs
              refine inner (c := .step t) (fun u hu => ?_) hs
              obtain rfl := PoolAct.step.inj hu
              exact ⟨henter, hleave⟩

omit [DecidableEq ι] in
/-- No thread is in a call. -/
theorem shows_start (info : ι → BGLockInfo) (heap : Heap) :
    (SpinPool.start info heap).Shows (.start ι heap) := by
  refine ⟨rfl, fun i => ⟨rfl, fun t => ?_, fun t ht => by cases ht⟩, fun t i => .inl rfl⟩
  exact iff_of_false (by simp [SpinPool.start, SpinLock.new]) (by simp [PoolState.start])

/-! ## Who is inside a lock -/

section Regions
variable {a a' : PoolState ι} {b : PoolAct ι} {k k' : PoolPc} {t : ι} {i : ℕ}

theorem PoolPc.region_of_entering {x : ℕ × PoolPc} (h : k.entering = some x) : k.region = none := by
  cases k with
  | allocEnter j => rfl
  | freeEnter j p => rfl
  | _ => cases h

theorem PoolPc.region_entered (h : k.entering = some (i, k')) : k'.region = some i := by
  cases k with
  | allocEnter j =>
      obtain ⟨rfl, rfl⟩ := Prod.mk.inj (Option.some.inj h)
      rfl
  | freeEnter j p =>
      obtain ⟨rfl, rfl⟩ := Prod.mk.inj (Option.some.inj h)
      rfl
  | _ => cases h

theorem PoolPc.rank_entered (h : k.entering = some (i, k')) : k'.rank < k.rank := by
  cases k with
  | allocEnter j =>
      obtain ⟨rfl, rfl⟩ := Prod.mk.inj (Option.some.inj h)
      exact Nat.le_of_ble_eq_true rfl
  | freeEnter j p =>
      obtain ⟨rfl, rfl⟩ := Prod.mk.inj (Option.some.inj h)
      exact Nat.le_of_ble_eq_true rfl
  | _ => cases h

theorem PoolPc.region_leaving (h : k.leaving = some (i, k')) :
    k.region = some i ∧ k'.region = none ∧ k'.rank < k.rank := by
  cases k with
  | allocLeave j p =>
      obtain ⟨rfl, rfl⟩ := Prod.mk.inj (Option.some.inj h)
      exact ⟨rfl, rfl, Nat.le_of_ble_eq_true rfl⟩
  | allocLeaveNew j =>
      obtain ⟨rfl, rfl⟩ := Prod.mk.inj (Option.some.inj h)
      exact ⟨rfl, rfl, Nat.le_of_ble_eq_true rfl⟩
  | freeLeave j =>
      obtain ⟨rfl, rfl⟩ := Prod.mk.inj (Option.some.inj h)
      exact ⟨rfl, rfl, Nat.le_of_ble_eq_true rfl⟩
  | _ => cases h

/-- Whoever has a lock is between its `Enter` and its `Leave`. -/
def PoolState.Inside (a : PoolState ι) : Prop :=
  ∀ i t, a.lock i = some t → (a.pc t).region = some i

/-- A thread that is inside no lock goes on. -/
theorem PoolState.Inside.move (h : a.Inside) (hregion : k.region = (a.pc t).region)
    (hlock : a'.lock = a.lock) (hpc : a'.pc = Function.update a.pc t k) : a'.Inside := by
  intro i u hu
  rw [hlock] at hu
  have hold := h i u hu
  rw [hpc]
  by_cases hut : u = t
  · subst hut
    rw [Function.update_self, hregion, hold]
  · rw [Function.update_of_ne hut, hold]

theorem PoolState.Inside.step (h : a.Inside) (hs : poolStep a b = some a') : a'.Inside := by
  cases b with
  | alloc t =>
      simp only [poolStep, Option.ite_none_right_eq_some, Option.some.injEq] at hs
      obtain ⟨hidle, rfl⟩ := hs
      exact h.move (t := t) (by rw [hidle]; rfl) rfl rfl
  | free t p =>
      simp only [poolStep, Option.ite_none_right_eq_some, Option.some.injEq] at hs
      obtain ⟨⟨hidle, -⟩, rfl⟩ := hs
      exact h.move (t := t) (by rw [hidle]; rfl) rfl rfl
  | write p b =>
      simp only [poolStep, Option.ite_none_right_eq_some, Option.some.injEq] at hs
      obtain ⟨-, rfl⟩ := hs
      exact h
  | step t =>
      simp only [poolStep] at hs
      cases henter : (a.pc t).entering with
      | some x =>
          rw [next_entering henter, PoolState.enter] at hs
          simp only [Option.ite_none_right_eq_some, Option.some.injEq] at hs
          obtain ⟨hfree, rfl⟩ := hs
          intro i u hu
          change Function.update a.lock x.1 (some t) i = some u at hu
          change (Function.update a.pc t x.2 u).region = some i
          by_cases hi : i = x.1
          · subst hi
            rw [Function.update_self, Option.some.injEq] at hu
            subst hu
            rw [Function.update_self]
            exact PoolPc.region_entered henter
          · rw [Function.update_of_ne hi] at hu
            have hold := h i u hu
            have hut : u ≠ t := by
              rintro rfl
              rw [PoolPc.region_of_entering henter] at hold
              cases hold
            rw [Function.update_of_ne hut, hold]
      | none =>
          cases hleave : (a.pc t).leaving with
          | some x =>
              rw [next_leaving hleave, Option.some.injEq] at hs
              subst hs
              obtain ⟨hregion, -, -⟩ := PoolPc.region_leaving hleave
              intro i u hu
              change Function.update a.lock x.1 none i = some u at hu
              change (Function.update a.pc t x.2 u).region = some i
              by_cases hi : i = x.1
              · subst hi
                rw [Function.update_self] at hu
                cases hu
              · rw [Function.update_of_ne hi] at hu
                have hold := h i u hu
                have hut : u ≠ t := by
                  rintro rfl
                  rw [hregion, Option.some.injEq] at hold
                  exact hi hold.symm
                rw [Function.update_of_ne hut, hold]
          | none =>
              obtain ⟨hlock, hpc, -, hregion⟩ := (next_frame henter hleave a.lock).2 a' hs
              exact h.move hregion hlock hpc

end Regions

/-- What holds in every run of the pool on its spin locks. -/
def SpinPool.Runs (s : SpinPool ι) : Prop :=
  ∃ a lists place, s.Shows a ∧ a.Inside ∧ Pooled a lists place

/-- Each step keeps it. -/
theorem SpinPool.Runs.step {s s' : SpinPool ι} {b : PoolAct ι × BitVec 64} (h : s.Runs)
    (hs : spinPoolStep s b = some s') : s'.Runs := by
  obtain ⟨a, lists, place, hshows, hinside, hpooled⟩ := h
  rcases spinPool_simulates s a b s' hshows trivial hs with hsame | ⟨c, a', -, hstep, hshows'⟩
  · exact ⟨a, lists, place, hsame, hinside, hpooled⟩
  · obtain ⟨lists', place', hpooled'⟩ := hpooled.step hstep
    exact ⟨a', lists', place', hshows', hinside.step hstep, hpooled'⟩

theorem SpinPool.Runs.reaches {s s' : SpinPool ι} (h : s.Runs)
    (hrun : Reaches spinPoolStep Always s s') : s'.Runs :=
  hrun.invariant SpinPool.Runs h fun _ _ _ hr _ hs => hr.step hs

omit [DecidableEq ι] in
theorem SpinPool.runs_start (info : ι → BGLockInfo) (heap : Heap) :
    (SpinPool.start info heap).Runs :=
  ⟨_, _, _, shows_start info heap, (fun i t h => by cases h), pooled_start ι heap⟩

/-- **On its spin locks the pool never hands out a live buffer**: every run of the pool with the
loops of `Wait` shows one in which each lock is what it grants, and the free lists are there. -/
theorem separated_of_spins {info : ι → BGLockInfo} {heap : Heap} {s : SpinPool ι}
    (h : Reaches spinPoolStep Always (.start info heap) s) :
    ∃ a lists, Reaches poolStep Always (.start ι heap) a ∧ s.Shows a ∧ Separated a lists := by
  obtain ⟨a, hreach, hshows⟩ := spinPool_simulates.reaches (shows_start info heap) h
  have hpooled : ∃ lists place, Pooled a lists place :=
    hreach.invariant (fun a => ∃ lists place, Pooled a lists place) ⟨_, _, pooled_start ι heap⟩
      fun a b a' ⟨lists, place, ha⟩ _ hstep => ha.step hstep
  obtain ⟨lists, place, ha⟩ := hpooled
  exact ⟨a, lists, hreach, hshows, ha.separated⟩

/-- One thread makes a buffer and gives it back, and another one takes it again. -/
theorem separated_of_spins_reused : ∃ s : SpinPool Bool,
    runAll spinPoolStep (.start (fun _ => .new) fun _ => .blank)
      ((.alloc false, 0) :: List.replicate 10 (.step false, 0) ++
        (.free false 0, 0) :: List.replicate 8 (.step false, 0) ++
        (.alloc true, 0) :: List.replicate 10 (.step true, 0)) = some s ∧
    ∃ a lists, Reaches poolStep Always (.start Bool fun _ => .blank) a ∧ s.Shows a ∧
      Separated a lists ∧ a.pc true = .allocReturn 0 := by
  obtain ⟨s, hrun, hpc⟩ : ∃ s : SpinPool Bool,
      runAll spinPoolStep (.start (fun _ => .new) fun _ => .blank)
        ((.alloc false, 0) :: List.replicate 10 (.step false, 0) ++
          (.free false 0, 0) :: List.replicate 8 (.step false, 0) ++
          (.alloc true, 0) :: List.replicate 10 (.step true, 0)) = some s ∧
      s.state.pc true = .allocReturn 0 := ⟨_, rfl, rfl⟩
  obtain ⟨a, lists, hreach, hshows, hseparated⟩ := separated_of_spins (.always_of_runAll hrun)
  exact ⟨s, hrun, a, lists, hreach, hshows, hseparated, hshows.pc ▸ hpc⟩

/-! ## Whether a call returns -/

section Progress
variable {s s' : SpinPool ι} {t u : ι} {k k' : PoolPc} {i : ℕ}

/-- Outside the calls on locks a call never waits. -/
theorem next_enabled {r : PoolState ι} (henter : k.entering = none) (hk : k ≠ .idle) :
    ∃ r', r.next t k = some r' := by
  cases k with
  | idle => exact absurd rfl hk
  | allocEnter j => cases henter
  | freeEnter j p => cases henter
  | allocHead j =>
      cases hhead : r.pool.slotBuffer j with
      | none => exact ⟨_, head_of_none hhead⟩
      | some p => exact ⟨_, head_of_some hhead⟩
  | freeTest p =>
      by_cases hstop : r.pool.nStop = true
      · exact ⟨_, if_pos hstop⟩
      · exact ⟨_, if_neg hstop⟩
  | _ => exact ⟨_, rfl⟩

/-- A step outside the calls on locks. -/
theorem inner_runs (henter : (s.state.pc t).entering = none)
    (hleave : (s.state.pc t).leaving = none) (hk : s.state.pc t ≠ .idle) :
    ∃ s', Reaches spinPoolStep Always s s' ∧ (s'.state.pc t).rank < (s.state.pc t).rank ∧
      (s'.state.pc t).region = (s.state.pc t).region ∧
      ∀ u, u ≠ t → s'.state.pc u = s.state.pc u := by
  obtain ⟨r, hr⟩ := next_enabled (r := s.state) (t := t) henter hk
  obtain ⟨-, hpc, hrank, hregion⟩ := (next_frame henter hleave s.state.lock).2 r hr
  have hstep : spinPoolStep s (.step t, 0) = some { s with state := r } := by
    simp only [spinPoolStep, SpinPool.next, henter, hleave, hr, Option.map_some]
  refine ⟨_, .tail .refl trivial hstep, hrank, hregion, fun u hu => ?_⟩
  exact (congrFun hpc u).trans (Function.update_of_ne hu _ _)

/-- A thread lets a lock go. -/
theorem leave_runs (h : s.Runs) (hcall : (s.state.pc t).leaving = some (i, k)) :
    ∃ s', Reaches spinPoolStep Always s s' ∧ (s'.spin i).nLock = 0 ∧
      s'.state.pc = Function.update s.state.pc t k := by
  have henter : (s.state.pc t).entering = none := by
    cases hsome : (s.state.pc t).entering with
    | none => rfl
    | some x => rw [PoolPc.leaving_of_entering hsome] at hcall; cases hcall
  have next : ∀ r : SpinPool ι, r.state = s.state →
      spinPoolStep r (.step t, 0) = r.leave t i k := by
    intro r hr
    simp only [spinPoolStep, SpinPool.next, hr, henter, hcall]
  have last : ∀ r : SpinPool ι, r.state = s.state → (r.spin i).pc t = .leave →
      ∃ s', spinPoolStep r (.step t, 0) = some s' ∧ (s'.spin i).nLock = 0 ∧
        s'.state.pc = Function.update s.state.pc t k := by
    intro r hr hpc
    have hspin : spinStep (r.spin i) (.step t) = some ((r.spin i).letGo t) := by
      rw [spinStep, hpc, SpinLock.next]
    have hbusy : ¬(r.spin i).pc t = .idle := by rw [hpc]; decide
    refine ⟨(r.setSpin i ((r.spin i).letGo t)).goto t k, ?_, ?_, ?_⟩
    · rw [next r hr, SpinPool.leave, if_neg hbusy, hspin, Option.map_some]
    · change (Function.update r.spin i ((r.spin i).letGo t) i).nLock = 0
      rw [Function.update_self]
      rfl
    · change Function.update r.state.pc t k = _
      rw [hr]
  obtain ⟨a, lists, place, hshows, -, hpooled⟩ := h
  rcases hshows.calls t i with hidle | ⟨-, k', hk'⟩ | ⟨hpc, -⟩
  · -- the call of `Leave`, by the thread that is inside
    have hin : (s.spin i).inside t = true := by
      refine ((hshows.locks i).inside t).mpr ((hpooled.threads t).region i ?_)
      rw [← hshows.pc]
      exact (PoolPc.region_leaving hcall).1
    obtain ⟨l, hl⟩ : ∃ l, spinStep (s.spin i) (.leave t) = some l := ⟨_, if_pos ⟨hidle, hin⟩⟩
    obtain ⟨hpc, -⟩ := (hshows.locks i).leave_call hl
    have hfirst : spinPoolStep s (.step t, 0) = some (s.setSpin i l) := by
      rw [next s rfl, SpinPool.leave, if_pos hidle, hl, Option.map_some]
    have hat : ((s.setSpin i l).spin i).pc t = .leave := by
      change (Function.update s.spin i l i).pc t = .leave
      rw [Function.update_self, hpc, Function.update_self]
    obtain ⟨s', hstep, hfree, hstate⟩ := last (s.setSpin i l) rfl hat
    exact ⟨s', .tail (.tail .refl trivial hfirst) trivial hstep, hfree, hstate⟩
  · rw [henter] at hk'
    cases hk'
  · obtain ⟨s', hstep, hfree, hstate⟩ := last s rfl hpc
    exact ⟨s', .tail .refl trivial hstep, hfree, hstate⟩

/-- A thread takes a lock that is free. -/
theorem enter_runs (h : s.Runs) (hcall : (s.state.pc t).entering = some (i, k))
    (hfree : (s.spin i).nLock = 0) :
    ∃ s', Reaches spinPoolStep Always s s' ∧ s'.state.pc t = k := by
  have next : ∀ r : SpinPool ι, r.state = s.state →
      spinPoolStep r (.step t, 0) = r.enter t 0 i k := by
    intro r hr
    simp only [spinPoolStep, SpinPool.next, hr, hcall]
  -- a step of a thread that waits, and the one with which it comes in
  have busy : ∀ (r : SpinPool ι) (l : SpinLock ι), r.state = s.state →
      ((r.spin i).pc t).waiting = true → spinStep (r.spin i) (.step t) = some l →
      spinPoolStep r (.step t, 0) =
        some (if l.pc t = .idle then (r.setSpin i l).goto t k else r.setSpin i l) := by
    intro r l hr hwait hl
    have hnot : ¬(r.spin i).pc t = .idle := by
      intro hidle
      rw [hidle] at hwait
      cases hwait
    rw [next r hr, SpinPool.enter, if_neg hnot, hl, Option.map_some]
  have come : ∀ (r : SpinPool ι) (l : SpinLock ι), r.state = s.state →
      ((r.spin i).pc t).waiting = true → spinStep (r.spin i) (.step t) = some l →
      l.pc t = .idle → ∃ s', spinPoolStep r (.step t, 0) = some s' ∧ s'.state.pc t = k := by
    intro r l hr hwait hl hidle
    refine ⟨(r.setSpin i l).goto t k, ?_, Function.update_self _ _ _⟩
    rw [busy r l hr hwait hl, if_pos hidle]
  have waits : ∀ r : SpinPool ι, r.state = s.state → ((r.spin i).pc t).waiting = true →
      (r.spin i).nLock = 0 → ∃ s', Reaches spinPoolStep Always r s' ∧ s'.state.pc t = k := by
    intro r hr hwait hfree
    rcases steps_of_free hfree hwait with ⟨l, hl, hidle⟩ | ⟨m, l, hm, hfirst, hl, hidle⟩
    · obtain ⟨s', hstep, hstate⟩ := come r l hr hwait hl hidle
      exact ⟨s', .tail .refl trivial hstep, hstate⟩
    · have hpc : ((r.spin i).goto t m).pc t = m := Function.update_self _ _ _
      have hspin : (r.setSpin i ((r.spin i).goto t m)).spin i = (r.spin i).goto t m :=
        Function.update_self _ _ _
      have hnot : ¬((r.spin i).goto t m).pc t = .idle := by
        rw [hpc]
        rintro rfl
        cases hm
      have hstep₁ := busy r _ hr hwait hfirst
      rw [if_neg hnot] at hstep₁
      obtain ⟨s', hstep₂, hstate⟩ := come (r.setSpin i ((r.spin i).goto t m)) l hr
        (by rw [hspin, hpc, hm]) (by rw [hspin, hl]) hidle
      exact ⟨s', .tail (.tail .refl trivial hstep₁) trivial hstep₂, hstate⟩
  obtain ⟨a, lists, place, hshows, -, -⟩ := h
  rcases hshows.calls t i with hidle | ⟨hwait, -⟩ | ⟨-, k', hk'⟩
  · obtain ⟨l, hl⟩ : ∃ l, spinStep (s.spin i) (.enter t 0) = some l := ⟨_, if_pos hidle⟩
    obtain ⟨hpc, hgrants⟩ := (hshows.locks i).enter_call hl
    have hfirst : spinPoolStep s (.step t, 0) = some (s.setSpin i l) := by
      rw [next s rfl, SpinPool.enter, if_pos hidle, hl, Option.map_some]
    have hspin : (s.setSpin i l).spin i = l := Function.update_self _ _ _
    have hwait : (((s.setSpin i l).spin i).pc t).waiting = true := by
      rw [hspin, hpc, Function.update_self]
      rfl
    have hstill : ((s.setSpin i l).spin i).nLock = 0 := by
      rw [hspin, hgrants.eq_zero_iff, ← (hshows.locks i).eq_zero_iff, hfree]
    obtain ⟨s', hreach, hstate⟩ := waits (s.setSpin i l) rfl hwait hstill
    exact ⟨s', (Reaches.tail .refl trivial hfirst).trans hreach, hstate⟩
  · exact waits s rfl hwait hfree
  · rw [PoolPc.leaving_of_entering hcall] at hk'
    cases hk'

/-- Whoever is inside a lock can come to let it go, while the others stay where they are. -/
theorem region_runs (h : s.Runs) (hregion : (s.state.pc u).region = some i) :
    ∃ s', Reaches spinPoolStep Always s s' ∧ (s'.spin i).nLock = 0 ∧
      ∀ t, t ≠ u → s'.state.pc t = s.state.pc t := by
  induction hn : (s.state.pc u).rank using Nat.strong_induction_on generalizing s with
  | _ n ih =>
      cases hleave : (s.state.pc u).leaving with
      | some x =>
          obtain ⟨hsame, -, -⟩ := PoolPc.region_leaving hleave
          obtain rfl : x.1 = i := Option.some.inj (hsame.symm.trans hregion)
          obtain ⟨s', hreach, hfree, hpc⟩ := leave_runs h hleave
          exact ⟨s', hreach, hfree, fun t ht => by rw [hpc, Function.update_of_ne ht]⟩
      | none =>
          have henter : (s.state.pc u).entering = none := by
            cases hsome : (s.state.pc u).entering with
            | none => rfl
            | some x => rw [PoolPc.region_of_entering hsome] at hregion; cases hregion
          have hk : s.state.pc u ≠ .idle := by
            intro hidle
            rw [hidle] at hregion
            cases hregion
          obtain ⟨r, hreach, hrank, hsame, hothers⟩ := inner_runs henter hleave hk
          obtain ⟨s', hreach', hfree, hpc⟩ :=
            ih _ (hn ▸ hrank) (h.reaches hreach) (hsame.trans hregion) rfl
          exact ⟨s', hreach.trans hreach', hfree, fun t ht => (hpc t ht).trans (hothers t ht)⟩

/-- From here the call of the thread can return. -/
theorem SpinPool.Runs.returns (h : s.Runs) (t : ι) :
    ∃ s', Reaches spinPoolStep Always s s' ∧ s'.state.pc t = .idle := by
  induction hn : (s.state.pc t).rank using Nat.strong_induction_on generalizing s with
  | _ n ih =>
      have onward : ∀ {r : SpinPool ι}, Reaches spinPoolStep Always s r →
          (r.state.pc t).rank < n → ∃ s', Reaches spinPoolStep Always s s' ∧
            s'.state.pc t = .idle := by
        intro r hreach hrank
        obtain ⟨s', hreach', hidle⟩ := ih _ hrank (h.reaches hreach) rfl
        exact ⟨s', hreach.trans hreach', hidle⟩
      by_cases hk : s.state.pc t = .idle
      · exact ⟨s, .refl, hk⟩
      cases henter : (s.state.pc t).entering with
      | some x =>
          -- whoever is inside lets go first
          obtain ⟨r, hreach, hfree, hpc⟩ : ∃ r, Reaches spinPoolStep Always s r ∧
              (r.spin x.1).nLock = 0 ∧ r.state.pc t = s.state.pc t := by
            obtain ⟨a, lists, place, hshows, hinside, hpooled⟩ := h
            cases ho : a.lock x.1 with
            | none => exact ⟨s, .refl, (hshows.locks x.1).eq_zero_iff.mpr ho, rfl⟩
            | some u =>
                have hu := hinside x.1 u ho
                rw [← hshows.pc] at hu
                obtain ⟨r, hreach, hfree, hothers⟩ :=
                  region_runs ⟨a, lists, place, hshows, hinside, hpooled⟩ hu
                refine ⟨r, hreach, hfree, hothers t ?_⟩
                rintro rfl
                rw [PoolPc.region_of_entering henter] at hu
                cases hu
          obtain ⟨r', hreach', hstate⟩ := enter_runs (h.reaches hreach) (hpc ▸ henter) hfree
          refine onward (hreach.trans hreach') ?_
          rw [hstate, ← hn]
          exact PoolPc.rank_entered henter
      | none =>
          cases hleave : (s.state.pc t).leaving with
          | some x =>
              obtain ⟨r, hreach, -, hpc⟩ := leave_runs h hleave
              refine onward hreach ?_
              rw [hpc, Function.update_self, ← hn]
              exact (PoolPc.region_leaving hleave).2.2
          | none =>
              obtain ⟨r, hreach, hrank, -, -⟩ := inner_runs henter hleave hk
              exact onward hreach (hn ▸ hrank)

/-- **Every call of `Alloc` and `Free` can return**, from every state that a run comes to: no
thread is ever left at a lock that nobody can let go. -/
theorem call_returns {info : ι → BGLockInfo} {heap : Heap}
    (h : Reaches spinPoolStep Always (.start info heap) s) (t : ι) :
    ∃ s', Reaches spinPoolStep Always s s' ∧ s'.state.pc t = .idle :=
  ((SpinPool.runs_start info heap).reaches h).returns t

/-- The second `Alloc` of a thread waits at the lock that another one is inside. -/
theorem call_returns_waiting : ∃ s : SpinPool Bool,
    runAll spinPoolStep (.start (fun _ => .new) fun _ => .blank)
      ((.alloc true, 0) :: List.replicate 2 (.step true, 0) ++
        (.alloc false, 0) :: List.replicate 10 (.step false, 0) ++
        (.alloc false, 0) :: List.replicate 3 (.step false, 7)) = some s ∧
    (s.spin 0).pc false = .pause 3999 ∧
    ∃ s', Reaches spinPoolStep Always s s' ∧ s'.state.pc false = .idle := by
  obtain ⟨s, hrun, hpc⟩ : ∃ s : SpinPool Bool,
      runAll spinPoolStep (.start (fun _ => .new) fun _ => .blank)
        ((.alloc true, 0) :: List.replicate 2 (.step true, 0) ++
          (.alloc false, 0) :: List.replicate 10 (.step false, 0) ++
          (.alloc false, 0) :: List.replicate 3 (.step false, 7)) = some s ∧
      (s.spin 0).pc false = .pause 3999 := ⟨_, rfl, rfl⟩
  exact ⟨s, hrun, hpc, call_returns (.always_of_runAll hrun) false⟩

end Progress

end BGIocpServer
