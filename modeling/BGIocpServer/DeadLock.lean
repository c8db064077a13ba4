import BGIocpServer.LockInfo
import Mathlib.Algebra.Group.Int.Defs

/-!
# Which threads the deadlock detector sees

A thread enters the map only in a constructor of a `BGILock`, after it has counted the
`s_rwLock` it takes there, and locks that others have built register nobody. As long as
no thread outside the map counts a lock that it then has to wait for or to hold, the
detector misses nobody.

## Main results

* `isDeadLock_iff_mem`: `IsDeadLock` is a test of the entries of the map.
* `scan_alone`: the loop of `IsDeadLock`, run through, returns what it finds.
* `detectsAll_iff_registered`: the detector sees every thread exactly as long as only
  threads of the map count a lock.
-/

namespace BGIocpServer
open Kit

namespace LockRegistry
variable {ι : Type}

/-- The loop finds an entry that is late. -/
theorem scan_iff {s : LockRegistry ι} {nLimitSec : BitVec 32} {now : BitVec 64} {ts : List ι} :
    s.scan nLimitSec now ts = true ↔ ∃ t ∈ ts, (s.threads t).info.late nLimitSec now = true := by
  induction ts with
  | nil => simp [scan]
  | cons t ts ih =>
      rw [scan]
      split
      · rename_i h
        simp [h]
      · rename_i h
        simp [h, ih]

/-- **`IsDeadLock` is a test of the entries of the map.** -/
theorem isDeadLock_iff_mem {s : LockRegistry ι} {nLimitSec : BitVec 32} {now : BitVec 64} :
    s.isDeadLock nLimitSec now = true ↔
      ∃ t ∈ s.map, (s.threads t).info.late nLimitSec now = true := scan_iff

end LockRegistry

/-- A positive limit whose product with `CLOCKS_PER_SEC` stays in a `long`. -/
def LimitOk (nLimitSec : BitVec 32) : Prop :=
  0 < nLimitSec.toInt ∧ nLimitSec.toInt * 1000 < 2 ^ 31

/-- The product and the sum of the test do not overflow. -/
theorem late_iff {info : BGLockInfo} {nLimitSec : BitVec 32} {now : BitVec 64}
    (hlimit : LimitOk nLimitSec) (htick : TickOk info.n64LastLockedTicks) :
    info.late nLimitSec now = true ↔ 0 < info.dwPendingLock ∧
      info.n64LastLockedTicks.toNat + nLimitSec.toNat * 1000 < now.toNat := by
  obtain ⟨hpos, hmax⟩ := hlimit
  have hint : nLimitSec.toInt = nLimitSec.toNat := by
    rw [BitVec.toInt_eq_toNat_cond] at hpos ⊢
    split at hpos
    · rw [if_pos ‹_›]
    · have := nLimitSec.isLt
      omega
  have hprod : (nLimitSec * clocksPerSec).toNat = nLimitSec.toNat * 1000 := by
    rw [BitVec.toNat_mul]
    exact Nat.mod_eq_of_lt (by change nLimitSec.toNat * 1000 < _; omega)
  have hext : ((nLimitSec * clocksPerSec).signExtend 64).toNat = nLimitSec.toNat * 1000 := by
    rw [BitVec.signExtend_eq_setWidth_of_msb_false, BitVec.toNat_setWidth, hprod]
    · exact Nat.mod_eq_of_lt (by omega)
    · rw [BitVec.msb_eq_decide, hprod]
      simp only [decide_eq_false_iff_not]
      omega
  have hsum : (info.n64LastLockedTicks + (nLimitSec * clocksPerSec).signExtend 64).toNat
      = info.n64LastLockedTicks.toNat + nLimitSec.toNat * 1000 := by
    rw [BitVec.toNat_add, hext]
    exact Nat.mod_eq_of_lt (by simp only [TickOk] at htick; omega)
  simp only [BGLockInfo.late, Bool.and_eq_true, decide_eq_true_eq]
  rw [← hsum]
  exact Iff.rfl

/-- What the detector is for: it sees every thread that lives and no other. -/
structure DetectsAll {ι : Type} (s : LockRegistry ι) : Prop where
  detects : ∀ nLimitSec now, LimitOk nLimitSec →
    (s.isDeadLock nLimitSec now = true ↔ ∃ t, (s.threads t).pc.live = true ∧
      0 < (s.threads t).info.dwPendingLock ∧
      (s.threads t).info.n64LastLockedTicks.toNat + nLimitSec.toNat * 1000 < now.toNat)
  mem_of_locks : ∀ t, (s.threads t).pc.live = true → 0 < (s.threads t).locks → t ∈ s.map
  live_of_mem : ∀ t ∈ s.map, (s.threads t).pc.live = true

/-- Only a thread of the map counts a lock. -/
def Registered {ι : Type} (s : LockRegistry ι) : LockAct ι → Prop
  | .next t _ => (s.threads t).pc.atInc = true → t ∈ s.map
  | .start _ | .call _ _ _ | .leave _ | .whole _ _ _ => True

instance {ι : Type} [DecidableEq ι] (s : LockRegistry ι) (a : LockAct ι) :
    Decidable (Registered s a) :=
  match a with
  | .next _ _ => inferInstanceAs (Decidable (_ → _))
  | .start _ | .call _ _ _ | .leave _ | .whole _ _ _ => isTrue trivial

/-! ## One step -/

namespace LockThread
variable {ι : Type}

/-- A thread that has not counted a lock. -/
structure Fresh (th : LockThread ι) : Prop where
  pending : th.info.dwPendingLock = 0
  held : th.held = 0
  locks : th.locks = 0
  pc : th.pc = .idle ∨ th.pc.atInc = true

/-- What holds of a thread, by whether it is in the map. -/
structure Ok (mem : Prop) (th : LockThread ι) : Prop where
  live_of_mem : mem → th.pc.live = true
  fresh : th.pc.live = true → ¬mem → th.Fresh
  tick : TickOk th.info.n64LastLockedTicks

namespace Ok
variable {mem : Prop} {th : LockThread ι}

/-- A thread inside a call, past the increment, is in the map while it lives. -/
theorem mem_of_live (h : th.Ok mem) (hlive : th.pc.live = true) (hidle : th.pc ≠ .idle)
    (hinc : th.pc.atInc = false) : mem := by
  by_contra hmem
  rcases (h.fresh hlive hmem).pc with hpc | hpc
  · exact hidle hpc
  · simp [hinc] at hpc

/-- A thread in the map goes on, alive. -/
theorem of_mem (hmem : mem) (hlive : th.pc.live = true) (ht : TickOk th.info.n64LastLockedTicks) :
    th.Ok mem :=
  ⟨fun _ => hlive, fun _ h => absurd hmem h, ht⟩

/-- A thread outside the map that does not live. -/
theorem of_dead (hmem : ¬mem) (hlive : th.pc.live = false)
    (ht : TickOk th.info.n64LastLockedTicks) : th.Ok mem :=
  ⟨fun h => absurd h hmem, fun h => by simp [hlive] at h, ht⟩

end Ok

end LockThread

namespace LockRegistry
variable {ι : Type} [DecidableEq ι] {s s' s'' : LockRegistry ι} {t : ι} {th th' : LockThread ι}

/-- A step of `t`: the other threads and their entries stay. -/
structure Local (s s' : LockRegistry ι) (t : ι) (th : LockThread ι) : Prop where
  threads : s'.threads = Function.update s.threads t th
  mem : ∀ u, u ≠ t → (u ∈ s'.map ↔ u ∈ s.map)

namespace Local

/-- The map stays. -/
theorem of_map (hmap : s'.map = s.map) (ht : s'.threads = Function.update s.threads t th) :
    s.Local s' t th :=
  ⟨ht, fun _ _ => by rw [hmap]⟩

theorem trans (h : s.Local s' t th) (h' : s'.Local s'' t th') : s.Local s'' t th' where
  threads := by rw [h'.threads, h.threads, Function.update_idem]
  mem u hu := (h'.mem u hu).trans (h.mem u hu)

end Local

/-- Every thread, by whether it is in the map. -/
def Inv (s : LockRegistry ι) : Prop := ∀ t, (s.threads t).Ok (t ∈ s.map)

theorem Inv.of_local (h : s.Inv) (hl : s.Local s' t th) (hok : th.Ok (t ∈ s'.map)) : s'.Inv := by
  intro u
  rw [hl.threads]
  by_cases hu : u = t
  · subst hu
    rwa [Function.update_self]
  · rw [Function.update_of_ne hu]
    obtain ⟨h1, h2, h3⟩ := h u
    refine ⟨fun hm => h1 ((hl.mem u hu).mp hm), fun hlive hm => h2 hlive ?_, h3⟩
    exact fun hm' => hm ((hl.mem u hu).mpr hm')

/-- A step of a thread that keeps the map. -/
theorem Inv.set (h : s.Inv) (hok : th.Ok (t ∈ s.map)) : (s.set t th).Inv :=
  h.of_local (.of_map rfl rfl) hok

/-- The lock is taken: the thread is in the map and lives, before and after. -/
theorem Inv.take (h : s.Inv) {c : LockCall} (hpc : (s.threads t).pc = .wait c)
    (hs : s.take t (s.threads t) c = some s') : s'.Inv := by
  have hmem : t ∈ s.map :=
    (h t).mem_of_live (by rw [hpc]; rfl) (by simp [hpc]) (by rw [hpc]; rfl)
  have htick := (h t).tick
  cases c with
  | enter =>
      simp only [LockRegistry.take, Option.some.injEq] at hs
      subst hs
      exact h.set (.of_mem hmem rfl htick)
  | construct =>
      simp only [LockRegistry.take, Option.ite_none_right_eq_some, Option.some.injEq] at hs
      obtain ⟨-, rfl⟩ := hs
      exact h.of_local (.of_map rfl rfl) (.of_mem hmem rfl htick)
  | exit =>
      simp only [LockRegistry.take, Option.ite_none_right_eq_some, Option.some.injEq] at hs
      obtain ⟨-, rfl⟩ := hs
      exact h.of_local (.of_map rfl rfl) (.of_mem hmem rfl htick)
  | isDeadLock nLimitSec =>
      simp only [LockRegistry.take, Option.ite_none_right_eq_some, Option.some.injEq] at hs
      obtain ⟨-, rfl⟩ := hs
      exact h.of_local (.of_map rfl rfl) (.of_mem hmem rfl htick)

/-- The lock is released. Only the destructor of a thread's `BGLockInfo` gets here
outside the map. -/
theorem Inv.giveUp (h : s.Inv) {c : LockCall} (hpc : (s.threads t).pc = .release c) :
    (s.giveUp t (s.threads t) c).Inv := by
  have hmem : (LockPc.release (ι := ι) c).live = true → t ∈ s.map := fun hlive =>
    (h t).mem_of_live (by rw [hpc]; exact hlive) (by simp [hpc]) (by rw [hpc]; rfl)
  have htick := (h t).tick
  cases c with
  | enter => exact h.set (.of_mem (hmem rfl) rfl htick)
  | construct => exact h.of_local (.of_map rfl rfl) (.of_mem (hmem rfl) rfl htick)
  | exit =>
      have hnot : t ∉ s.map := fun hm => by simpa [hpc, LockPc.live] using (h t).live_of_mem hm
      exact h.of_local (.of_map rfl rfl) (.of_dead hnot rfl htick)
  | isDeadLock nLimitSec => exact h.of_local (.of_map rfl rfl) (.of_mem (hmem rfl) rfl htick)

/-- The next step of a call, if it does not count a lock for a thread outside the map. -/
theorem Inv.next (h : s.Inv) {now : BitVec 64}
    (hreg : (s.threads t).pc.atInc = true → t ∈ s.map)
    (hs : s.next t now (s.threads t) (s.threads t).pc = some s') : s'.Inv := by
  have htick := (h t).tick
  have hin : (s.threads t).pc.live = true → (s.threads t).pc ≠ .idle →
      (s.threads t).pc.atInc = false → t ∈ s.map := (h t).mem_of_live
  cases hpc : (s.threads t).pc with
  | unborn => simp [LockRegistry.next, hpc] at hs
  | idle => simp [LockRegistry.next, hpc] at hs
  | gone => simp [LockRegistry.next, hpc] at hs
  | inc c =>
      simp only [hpc, LockRegistry.next, Option.some.injEq] at hs
      subst hs
      exact h.set (.of_mem (hreg (by rw [hpc]; rfl)) rfl htick)
  | wait c =>
      simp only [hpc, LockRegistry.next] at hs
      exact h.take hpc hs
  | insert =>
      simp only [hpc, LockRegistry.next, Option.some.injEq] at hs
      subst hs
      refine h.of_local (t := t) ⟨rfl, fun u hu => ?_⟩ (.of_mem ?_ rfl htick)
      · simp [LockRegistry.set, hu]
      · simp [LockRegistry.set]
  | erase =>
      simp only [hpc, LockRegistry.next, Option.some.injEq] at hs
      subst hs
      refine h.of_local (t := t) ⟨rfl, fun u hu => ?_⟩ (.of_dead ?_ rfl htick)
      · simp [LockRegistry.set, hu]
      · simp [LockRegistry.set]
  | scan nLimitSec rest =>
      have hmem := hin (by rw [hpc]; rfl) (by simp [hpc]) (by rw [hpc]; rfl)
      cases rest with
      | nil =>
          simp only [hpc, LockRegistry.next, Option.some.injEq] at hs
          subst hs
          exact h.set (.of_mem hmem rfl htick)
      | cons u rest =>
          simp only [hpc, LockRegistry.next, Option.some.injEq] at hs
          subst hs
          refine h.set (.of_mem hmem ?_ htick)
          split <;> rfl
  | dec c =>
      simp only [hpc, LockRegistry.next, Option.some.injEq] at hs
      subst hs
      by_cases hc : c = .exit
      · subst hc
        have hnot : t ∉ s.map := fun hm => by
          simpa [hpc, LockPc.live] using (h t).live_of_mem hm
        exact h.set (.of_dead hnot rfl htick)
      · have hlive : (LockPc.dec (ι := ι) c).live = true ∧
            (LockPc.release (ι := ι) c).live = true := by
          cases c <;> simp_all [LockPc.live]
        have hmem := hin (by rw [hpc]; exact hlive.1) (by simp [hpc]) (by rw [hpc]; rfl)
        exact h.set (.of_mem hmem hlive.2 htick)
  | release c =>
      simp only [hpc, LockRegistry.next, Option.some.injEq] at hs
      subst hs
      exact h.giveUp hpc

/-- A call begins. -/
theorem call_spec {c : LockCall} {now : BitVec 64} (hs : s.call t c now = some s') :
    (s.threads t).pc = .idle ∧ TickOk now ∧ s' = s.set t { s.threads t with
      pc := .inc c, info := (s.threads t).info.exchangeTicks now } := by
  simp only [LockRegistry.call, Option.ite_none_right_eq_some, Option.some.injEq] at hs
  exact ⟨hs.1.1, hs.1.2, hs.2.symm⟩

theorem Inv.call (h : s.Inv) {c : LockCall} {now : BitVec 64}
    (hs : s.call t c now = some s') : s'.Inv := by
  obtain ⟨hpc, hnow, rfl⟩ := call_spec hs
  have hlive : (s.threads t).pc.live = true := by rw [hpc]; rfl
  refine h.set ⟨fun _ => rfl, fun _ hm => ?_, hnow⟩
  obtain ⟨hpending, hheld, hlocks, -⟩ := (h t).fresh hlive hm
  exact ⟨hpending, hheld, hlocks, .inr rfl⟩

/-- A constructor or destructor that nobody interrupts: the thread is back outside, or
gone, its words but the tick as before, and the map holds it or not. -/
theorem whole_spec {exits : Bool} {now : BitVec 64}
    (hs : lockStep s (.whole t exits now) = some s') :
    TickOk now ∧ s.Local s' t { s.threads t with
      pc := if exits then .gone else .idle, info := (s.threads t).info.exchangeTicks now } ∧
      (t ∈ s'.map ↔ exits = false) := by
  simp only [lockStep, Option.bind_eq_some_iff] at hs
  obtain ⟨r, hr, hs⟩ := hs
  obtain ⟨hpc, hnow, rfl⟩ := call_spec hr
  by_cases hfree : s.readers = 0 ∧ s.writer = false
  · cases exits
    all_goals
      simp only [Bool.false_eq_true, nexts, LockRegistry.next, LockRegistry.take,
        LockRegistry.giveUp, LockRegistry.set, Function.update_self, Function.update_idem,
        Option.bind_some, hfree, and_self, if_true, if_false,
        BGLockInfo.decPendingLock_incPendingLock, Nat.add_sub_cancel, Option.some.injEq] at hs
      subst hs
      exact ⟨hnow, ⟨rfl, fun u hu => by simp [hu]⟩, by simp⟩
  · cases exits <;>
      simp [nexts, LockRegistry.next, LockRegistry.take, LockRegistry.set, hfree] at hs

/-- What one step under the condition preserves. -/
theorem Inv.step (h : s.Inv) {a : LockAct ι} (hreg : Registered s a)
    (hs : lockStep s a = some s') : s'.Inv := by
  cases a with
  | start t =>
      simp only [lockStep, Option.ite_none_right_eq_some, Option.some.injEq] at hs
      obtain ⟨hpc, rfl⟩ := hs
      have hnot : t ∉ s.map := fun hm => by simpa [hpc, LockPc.live] using (h t).live_of_mem hm
      refine h.set ⟨fun hm => absurd hm hnot, fun _ _ => ⟨rfl, rfl, rfl, .inl rfl⟩, ?_⟩
      change TickOk 0
      decide
  | call t c now => exact h.call hs
  | leave t =>
      simp only [lockStep, Option.ite_none_right_eq_some, Option.some.injEq] at hs
      obtain ⟨⟨hpc, hheld⟩, rfl⟩ := hs
      have hmem : t ∈ s.map := by
        by_contra hm
        have := ((h t).fresh (by rw [hpc]; rfl) hm).held
        omega
      exact h.set (.of_mem hmem rfl (h t).tick)
  | next t now => exact h.next hreg hs
  | whole t exits now =>
      obtain ⟨hnow, hl, hmem⟩ := whole_spec hs
      cases exits with
      | false => exact h.of_local hl (.of_mem (hmem.mpr rfl) rfl hnow)
      | true => exact h.of_local hl (.of_dead (by simp [hmem]) rfl hnow)

/-- The loop of `IsDeadLock` with no step of another thread in it returns what it finds in
the state, and leaves `s_rwLock` taken if that is TRUE. -/
theorem scan_alone {nLimitSec : BitVec 32} {now : BitVec 64} {rest : List ι}
    (hpc : (s.threads t).pc = .scan nLimitSec rest) :
    ∃ n, s.nexts t now n = some (s.set t { s.threads t with
      pc := if s.scan nLimitSec now rest then .idle else .dec (.isDeadLock nLimitSec) }) := by
  induction rest generalizing s with
  | nil =>
      exact ⟨1, by simp [nexts, hpc, LockRegistry.next, scan]⟩
  | cons u rest ih =>
      by_cases hlate : (s.threads u).info.late nLimitSec now = true
      · exact ⟨1, by simp [nexts, hpc, LockRegistry.next, scan, hlate]⟩
      · -- The test of `u` moves only the pc of `t`, so the words stay for the rest.
        obtain ⟨n, hn⟩ := ih (s := s.set t { s.threads t with pc := .scan nLimitSec rest })
          (by simp [LockRegistry.set])
        have hwords : ∀ v, ((s.set t { s.threads t with
            pc := .scan nLimitSec rest }).threads v).info = (s.threads v).info := by
          intro v
          by_cases hv : v = t
          · subst hv
            simp [LockRegistry.set]
          · simp [LockRegistry.set, Function.update_of_ne hv]
        have hscan : (s.set t { s.threads t with pc := .scan nLimitSec rest }).scan
            nLimitSec now rest = s.scan nLimitSec now rest := by
          rw [Bool.eq_iff_iff, scan_iff, scan_iff]
          simp only [hwords]
        refine ⟨n + 1, ?_⟩
        rw [nexts, hpc]
        simp only [LockRegistry.next, hlate, Bool.false_eq_true, if_false, Option.bind_some]
        rw [hn, hscan]
        simp [LockRegistry.set, scan, hlate]

theorem start_inv (main : ι) : (start main).Inv := by
  intro t
  by_cases ht : t = main
  · subst ht
    have hmem : t ∈ (start t).map := by simp [start]
    refine .of_mem hmem ?_ ?_
    · simp [start, LockPc.live]
    · simp only [start, Function.update_self]
      decide
  · refine .of_dead ?_ ?_ ?_
    · simp [start, ht]
    · simp [start, Function.update_of_ne ht, LockPc.live]
    · simp only [start, Function.update_of_ne ht]
      decide

/-- The invariant carries the purpose. -/
theorem Inv.detectsAll (h : s.Inv) : DetectsAll s where
  detects nLimitSec now hlimit := by
    rw [isDeadLock_iff_mem]
    constructor
    · rintro ⟨t, hmem, hlate⟩
      exact ⟨t, (h t).live_of_mem hmem, (late_iff hlimit (h t).tick).mp hlate⟩
    · rintro ⟨t, hlive, hpending, hticks⟩
      refine ⟨t, ?_, (late_iff hlimit (h t).tick).mpr ⟨hpending, hticks⟩⟩
      by_contra hmem
      rw [((h t).fresh hlive hmem).pending] at hpending
      exact absurd hpending (by decide)
  mem_of_locks t hlive hlocks := by
    by_contra hmem
    have := ((h t).fresh hlive hmem).locks
    omega
  live_of_mem t := (h t).live_of_mem

/-- A thread outside the map counts a lock: from then on the detector misses it. -/
theorem not_detectsAll_of_count {now : BitVec 64} (hpc : (s.threads t).pc.atInc = true)
    (hmem : t ∉ s.map) (hs : lockStep s (.next t now) = some s') : ¬DetectsAll s' := by
  cases hk : (s.threads t).pc with
  | inc c =>
      simp only [lockStep, hk, LockRegistry.next, Option.some.injEq] at hs
      subst hs
      intro hall
      refine hmem (hall.mem_of_locks t ?_ ?_)
      · simp [LockRegistry.set, LockPc.live]
      · simp [LockRegistry.set]
  | _ => simp [hk, LockPc.atInc] at hpc

end LockRegistry

/-- **The detector sees every thread exactly as long as only threads of the map count
a lock.** In every run in which a thread outside the map counts none, except for the one of
a constructor or destructor that nobody interrupts, `IsDeadLock` is right at every tick and
for every limit; and the first step against the condition makes it wrong. -/
theorem detectsAll_iff_registered {ι : Type} [DecidableEq ι] {main : ι} {s : LockRegistry ι}
    (h : Reaches lockStep Registered (LockRegistry.start main) s) :
    DetectsAll s ∧ ∀ a s', lockStep s a = some s' → (DetectsAll s' ↔ Registered s a) := by
  have hinv : s.Inv := h.invariant LockRegistry.Inv (LockRegistry.start_inv main)
    fun _ _ _ h hreg hs => h.step hreg hs
  refine ⟨hinv.detectsAll, fun a s' hs => ⟨fun hall => ?_, ?_⟩⟩
  swap
  · exact fun hreg => (hinv.step hreg hs).detectsAll
  cases a with
  | start t => trivial
  | call t c now => trivial
  | leave t => trivial
  | whole t exits now => trivial
  | next t now =>
      intro hpc
      by_contra hmem
      exact LockRegistry.not_detectsAll_of_count hpc hmem hs hall

/-- A worker builds a lock and holds it. -/
def ownLockRun : List (LockAct Bool) :=
  [.start true, .whole true false 0, .call true .enter 1000, .next true 0, .next true 0]

/-- A worker holds a lock that another thread has built. -/
def foreignLockRun : List (LockAct Bool) :=
  [.start true, .call true .enter 1000, .next true 0, .next true 0]

theorem detectsAll_iff_registered_worker :
    ∃ s, runAll lockStep (LockRegistry.start false) ownLockRun = some s ∧
      DetectsAll s ∧ s.isDeadLock 1 2001 = true := by
  have hrun : ∃ s, runAll lockStep (LockRegistry.start false) ownLockRun = some s := ⟨_, rfl⟩
  obtain ⟨s, hs⟩ := hrun
  have hreach := Reaches.of_runAll (C := Registered) hs (by decide)
  refine ⟨s, hs, (detectsAll_iff_registered hreach).1, ?_⟩
  obtain rfl := Option.some.inj hs
  decide

/-- The worker stays, and `IsDeadLock` returns FALSE at every tick. -/
theorem not_detectsAll_foreign :
    ∃ s, Reaches lockStep Always (LockRegistry.start false) s ∧
      (s.threads true).info = { dwPendingLock := 1, n64LastLockedTicks := 1000 } ∧
      (∀ now, s.isDeadLock 1 now = false) ∧ ¬DetectsAll s := by
  have hrun : ∃ s, runAll lockStep (LockRegistry.start false) foreignLockRun = some s := ⟨_, rfl⟩
  obtain ⟨s, hs⟩ := hrun
  refine ⟨s, .always_of_runAll hs, ?_⟩
  obtain rfl := Option.some.inj hs
  refine ⟨rfl, fun _ => rfl, fun hall => ?_⟩
  exact absurd (hall.mem_of_locks true rfl (by decide)) (by decide)

end BGIocpServer
