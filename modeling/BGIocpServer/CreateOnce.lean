import BGIocpServer.CreateSteps

/-!
# A slot has one connection at a time

What the check, the lock and the second check of `CreateSocket` achieve together. Every
slot is in one phase. Only `CreateSocket` under the lock takes a slot out of the free
phase, and only the end of `OnClose` brings it back; the scan decides nothing.

## Main definitions

* `Phase`, `Phase.Ok`: the phase of a slot, and what the slot looks like in it.
* `CreatePc.needs`: the phase that a thread relies on.

## Main results

* `exclusive_of_reaches`: no slot in use is returned or changed by `CreateSocket`.
-/

namespace BGIocpServer
open Kit

namespace BGTestSocket
variable (sock : BGTestSocket) (bit : BitVec 32)

/-- `SOCKET_BIT_NOT_USED` is the lowest bit. -/
theorem bitIs_notUsed : sock.bitIs socketBitNotUsed = sock.nBit.getLsbD 0 := by
  rw [bitIs, socketBitNotUsed, BitVec.and_one_eq_setWidth_ofBool_getLsbD]
  cases sock.nBit.getLsbD 0 <;> rfl

theorem notUsed_bitSet : (sock.bitSet bit).bitIs socketBitNotUsed =
    (sock.bitIs socketBitNotUsed || bit.getLsbD 0) := by
  rw [bitIs_notUsed, bitIs_notUsed]
  exact BitVec.getLsbD_or ..

theorem notUsed_bitReset : (sock.bitReset bit).bitIs socketBitNotUsed =
    (sock.bitIs socketBitNotUsed && !bit.getLsbD 0) := by
  rw [bitIs_notUsed, bitIs_notUsed, bitReset, BitVec.getLsbD_and, BitVec.getLsbD_not]
  simp

end BGTestSocket

/-- The phase of a slot. -/
inductive Phase (ι : Type)
  /-- Not used. -/
  | free
  /-- A call of `CreateSocket` has it, and has not returned it yet. -/
  | taken (t : ι)
  /-- Returned, and nobody has closed it. -/
  | live
  /-- A call of `Close` has its handle, and `OnClose` has not ended. -/
  | closing (t : ι)

variable {ι : Type} {n : ℕ}

namespace CreatePc

/-- The slot whose lock the call holds. -/
def region : CreatePc n → Option (Fin n)
  | .recheck _ i | .check _ i | .forceBit _ i | .forceId _ i | .forcePlayer _ i
  | .retryLeave _ i | .resetNotUsed _ i | .setConnected _ i | .setId _ i | .setSocket _ i
  | .setAddr _ i | .setPort _ i | .addRef i | .leave i | .resetConnected i | .clearId i
  | .setZero i | .setNotUsed i | .closeLeave i => some i
  | _ => none

/-- The slot that the call relies on, and the phase it is in. -/
def needs (t : ι) : CreatePc n → Option (Fin n × Phase ι)
  | .check _ i | .forceBit _ i | .forceId _ i | .forcePlayer _ i | .resetNotUsed _ i =>
      some (i, .free)
  | .setConnected _ i | .setId _ i | .setSocket _ i | .setAddr _ i | .setPort _ i | .addRef i
  | .leave i | .ret i => some (i, .taken t)
  | .readPlayer i | .clearPlayer i | .closeEnter i | .resetConnected i | .clearId i
  | .setZero i | .setNotUsed i | .closeLeave i => some (i, .closing t)
  | _ => none

end CreatePc

namespace CreateCall
variable (c : CreateCall)

theorem scanAgain_ne (j : Fin n) : c.scanAgain ≠ .closeLeave j := by
  rw [scanAgain]
  split <;> simp

theorem region_scanAgain : (c.scanAgain : CreatePc n).region = none := by
  rw [scanAgain]
  split <;> rfl

theorem needs_scanAgain (t : ι) : (c.scanAgain : CreatePc n).needs t = none := by
  rw [scanAgain]
  split <;> rfl

end CreateCall

/-- What a slot looks like in its phase; `pc` says where the threads are. -/
def Phase.Ok (pc : ι → CreatePc n) (i : Fin n) (sock : BGTestSocket) (inUse : Bool) :
    Phase ι → Prop
  | .free => sock.bitIs socketBitNotUsed = true ∧ inUse = false
  | .taken _ => sock.bitIs socketBitNotUsed = false ∧ inUse = false
  | .live => sock.bitIs socketBitNotUsed = false ∧ inUse = true
  | .closing t => inUse = true ∧ sock.hSocket = none ∧
      (sock.bitIs socketBitNotUsed = true ↔ pc t = .closeLeave i)

/-- What is known of a thread at `k`. -/
structure CallOk (lock : Fin n → Option ι) (phase : Fin n → Phase ι) (t : ι) (k : CreatePc n) :
    Prop where
  region : ∀ i, k.region = some i → lock i = some t
  needs : ∀ i x, k.needs t = some (i, x) → phase i = x

/-- Every slot is in its phase. -/
structure Phased (s : CreateState ι n) (phase : Fin n → Phase ι) : Prop where
  slots : ∀ i, (phase i).Ok s.pc i (s.arrSocket i) (s.inUse i)
  calls : ∀ t, CallOk s.lock phase t (s.pc t)

variable {s s' : CreateState ι n} {lock lock' : Fin n → Option ι} {phase : Fin n → Phase ι}
  {t u : ι} {i : Fin n} {k l : CreatePc n} {x y : Phase ι}

namespace CreatePc

/-- Who relies on a free slot has its lock. -/
theorem region_of_needs_free (h : k.needs t = some (i, .free)) : k.region = some i := by
  cases k <;> simp_all [needs, region]

/-- Who relies on a slot that is taken has taken it. -/
theorem eq_of_needs_taken (h : k.needs u = some (i, .taken t)) : u = t := by
  cases k <;> simp_all [needs]

/-- Who relies on a slot that is being closed is closing it. -/
theorem eq_of_needs_closing (h : k.needs u = some (i, .closing t)) : u = t := by
  cases k <;> simp_all [needs]

/-- Nobody relies on a slot that is live. -/
theorem needs_ne_live : k.needs u ≠ some (i, .live) := by
  cases k <;> simp [needs]

end CreatePc

/-- What a slot looks like depends on the thread that closes it only. -/
theorem Phase.Ok.frame {pc pc' : ι → CreatePc n} {sock : BGTestSocket} {inUse : Bool}
    (h : x.Ok pc i sock inUse)
    (hpc : ∀ u, pc' u = .closeLeave i ↔ pc u = .closeLeave i) :
    x.Ok pc' i sock inUse := by
  cases x with
  | closing u => exact ⟨h.1, h.2.1, h.2.2.trans (hpc u).symm⟩
  | _ => exact h

namespace Phased

/-- Only who has the lock relies on a free slot. -/
theorem others_free (h : Phased s phase) (hlock : s.lock i = some t) (hfree : phase i = .free) :
    ∀ u, u ≠ t → (s.pc u).needs u ≠ some (i, phase i) := by
  intro u hu hneeds
  rw [hfree] at hneeds
  have hother := (h.calls u).region i (CreatePc.region_of_needs_free hneeds)
  rw [hlock, Option.some.injEq] at hother
  exact hu hother.symm

variable [DecidableEq ι]

/-- A thread goes on, and takes or leaves a lock. -/
theorem move (h : Phased s phase) (hothers : ∀ u, u ≠ t → ∀ j, s.lock j = some u → lock j = some u)
    (hleave : ∀ j, s.pc t ≠ .closeLeave j) (hleave' : ∀ j, k ≠ .closeLeave j)
    (hk : CallOk lock phase t k) : Phased ({ s with lock := lock }.goto t k) phase where
  slots := by
    intro j
    refine (h.slots j).frame fun u => ?_
    by_cases hu : u = t
    · subst hu
      simp only [CreateState.goto, Function.update_self]
      exact iff_of_false (hleave' j) (hleave j)
    · simp only [CreateState.goto, Function.update_of_ne hu]
  calls := by
    refine (Function.forall_update_iff s.pc fun u l => CallOk lock phase u l).mpr ⟨hk, ?_⟩
    intro u hu
    exact ⟨fun j hj => hothers u hu j ((h.calls u).region j hj), (h.calls u).needs⟩

omit [DecidableEq ι] in
/-- A slot is written to, and stays in its phase. -/
theorem set (h : Phased s phase) {sock : BGTestSocket}
    (hok : (phase i).Ok s.pc i sock (s.inUse i)) : Phased (s.set i sock) phase where
  slots := by
    intro j
    by_cases hj : j = i
    · subst hj
      simpa only [CreateState.set, Function.update_self] using hok
    · simpa only [CreateState.set, Function.update_of_ne hj] using h.slots j
  calls := h.calls

/-- A thread takes the slot `i` into the phase `y`. -/
theorem change (h : Phased s phase) (harr : ∀ j, j ≠ i → s'.arrSocket j = s.arrSocket j)
    (hinUse : ∀ j, j ≠ i → s'.inUse j = s.inUse j) (hpc : ∀ u, u ≠ t → s'.pc u = s.pc u)
    (hlock : ∀ u, u ≠ t → ∀ j, s.lock j = some u → s'.lock j = some u)
    (hleave : ∀ j, j ≠ i → s.pc t ≠ .closeLeave j)
    (hleave' : ∀ j, j ≠ i → s'.pc t ≠ .closeLeave j)
    (hothers : ∀ u, u ≠ t → (s.pc u).needs u ≠ some (i, phase i))
    (hslot : y.Ok s'.pc i (s'.arrSocket i) (s'.inUse i))
    (hcall : CallOk s'.lock (Function.update phase i y) t (s'.pc t)) :
    Phased s' (Function.update phase i y) where
  slots := by
    intro j
    by_cases hj : j = i
    · subst hj
      rw [Function.update_self]
      exact hslot
    · rw [Function.update_of_ne hj, harr j hj, hinUse j hj]
      refine (h.slots j).frame fun u => ?_
      by_cases hu : u = t
      · subst hu
        exact iff_of_false (hleave' j hj) (hleave j hj)
      · rw [hpc u hu]
  calls := by
    intro u
    by_cases hu : u = t
    · subst hu
      exact hcall
    · rw [hpc u hu]
      refine ⟨fun j hj => hlock u hu j ((h.calls u).region j hj), fun j x hneeds => ?_⟩
      have hold := (h.calls u).needs j x hneeds
      have hne : j ≠ i := by
        rintro rfl
        exact hothers u hu (by rw [hneeds, hold])
      rw [Function.update_of_ne hne]
      exact hold

/-- A thread goes on under the locks it has. -/
theorem goto (h : Phased s phase) (hpc : s.pc t = l) (hleave : ∀ j, l ≠ .closeLeave j)
    (hleave' : ∀ j, k ≠ .closeLeave j) (hregion : ∀ j, k.region = some j → l.region = some j)
    (hneeds : ∀ j x, k.needs t = some (j, x) → phase j = x) : Phased (s.goto t k) phase := by
  have hcall := hpc ▸ h.calls t
  refine h.move (fun _ _ _ hj => hj) (hpc ▸ hleave) hleave' ⟨fun j hj => ?_, hneeds⟩
  exact hcall.region j (hregion j hj)

/-- A thread takes a lock. -/
theorem enter (h : Phased s phase) (hpc : s.pc t = l) (hleave : ∀ j, l ≠ .closeLeave j)
    (hleave' : ∀ j, k ≠ .closeLeave j) (hstep : s.enter t i k = some s')
    (hregion : ∀ j, k.region = some j → j = i)
    (hneeds : ∀ j x, k.needs t = some (j, x) → l.needs t = some (j, x)) : Phased s' phase := by
  simp only [CreateState.enter, Option.ite_none_right_eq_some, Option.some.injEq] at hstep
  obtain ⟨hfree, rfl⟩ := hstep
  have hcall := hpc ▸ h.calls t
  refine h.move ?_ (hpc ▸ hleave) hleave' ⟨?_, fun j x hj => hcall.needs j x (hneeds j x hj)⟩
  · intro u _ j hj
    have hne : j ≠ i := by
      rintro rfl
      rw [hfree] at hj
      exact absurd hj (by simp)
    rw [Function.update_of_ne hne]
    exact hj
  · intro j hj
    obtain rfl := hregion j hj
    exact Function.update_self _ _ _

omit [DecidableEq ι] in
/-- The locks of the others are theirs after an `Unlock`. -/
theorem locks_leave (h : Phased s phase) (hpc : s.pc t = l) (hregion : l.region = some i) :
    ∀ u, u ≠ t → ∀ j, s.lock j = some u → Function.update s.lock i none j = some u := by
  intro u hu j hj
  have hlock := (hpc ▸ h.calls t).region i hregion
  have hne : j ≠ i := by
    rintro rfl
    rw [hlock, Option.some.injEq] at hj
    exact hu hj.symm
  rw [Function.update_of_ne hne]
  exact hj

/-- A thread leaves a lock. -/
theorem leave (h : Phased s phase) (hpc : s.pc t = l) (hleave : ∀ j, l ≠ .closeLeave j)
    (hleave' : ∀ j, k ≠ .closeLeave j) (hregion : l.region = some i) (hregion' : k.region = none)
    (hneeds : ∀ j x, k.needs t = some (j, x) → l.needs t = some (j, x)) :
    Phased (s.leave t i k) phase := by
  have hcall := hpc ▸ h.calls t
  exact h.move (h.locks_leave hpc hregion) (hpc ▸ hleave) hleave'
    ⟨by simp [hregion'], fun j x hj => hcall.needs j x (hneeds j x hj)⟩

/-- A thread writes to the slot it relies on, and goes on. -/
theorem write (h : Phased s phase) (hpc : s.pc t = l) (hleave : ∀ j, l ≠ .closeLeave j)
    (hleave' : ∀ j, k ≠ .closeLeave j) {sock : BGTestSocket}
    (hok : (phase i).Ok s.pc i sock (s.inUse i))
    (hregion : ∀ j, k.region = some j → l.region = some j)
    (hneeds : ∀ j x, k.needs t = some (j, x) → l.needs t = some (j, x)) :
    Phased ((s.set i sock).goto t k) phase := by
  have hcall := hpc ▸ h.calls t
  exact (h.set hok).goto hpc hleave hleave' hregion fun j x hj => hcall.needs j x (hneeds j x hj)

omit [DecidableEq ι] in
/-- A write that leaves the bit `SOCKET_BIT_NOT_USED` and the handle alone. -/
theorem ok_of_same (h : Phased s phase) {sock : BGTestSocket}
    (hbit : sock.bitIs socketBitNotUsed = (s.arrSocket i).bitIs socketBitNotUsed)
    (hhandle : sock.hSocket = (s.arrSocket i).hSocket) :
    (phase i).Ok s.pc i sock (s.inUse i) := by
  have hold := h.slots i
  cases hx : phase i with
  | _ =>
      rw [hx] at hold
      simpa only [Phase.Ok, hbit, hhandle] using hold

omit [DecidableEq ι] in
/-- Under the lock the bit tells the truth: only the end of `OnClose` is under it with the
bit set and the slot not yet free. -/
theorem free_of_notUsed (h : Phased s phase) (hlock : s.lock i = some t)
    (hpc : s.pc t ≠ .closeLeave i) (hbit : (s.arrSocket i).bitIs socketBitNotUsed = true) :
    phase i = .free := by
  have hslot := h.slots i
  cases hx : phase i with
  | free => rfl
  | taken u =>
      rw [hx] at hslot
      exact absurd hbit (by simp [hslot.1])
  | live =>
      rw [hx] at hslot
      exact absurd hbit (by simp [hslot.1])
  | closing u =>
      rw [hx] at hslot
      have hleave := hslot.2.2.mp hbit
      have hother := (h.calls u).region i (by rw [hleave]; rfl)
      rw [hlock, Option.some.injEq] at hother
      exact absurd (hother ▸ hleave) hpc

/-- `CreateSocket` takes the slot: `BitReset(SOCKET_BIT_NOT_USED)`. -/
theorem take {c : CreateCall} (h : Phased s phase) (hpc : s.pc t = .resetNotUsed c i) :
    Phased ((s.set i ((s.arrSocket i).bitReset socketBitNotUsed)).goto t (.setConnected c i))
      (Function.update phase i (.taken t)) := by
  have hcall := hpc ▸ h.calls t
  have hlock := hcall.region i rfl
  have hfree := hcall.needs i .free rfl
  have hslot := h.slots i
  rw [hfree] at hslot
  refine h.change (t := t) (fun j hj => Function.update_of_ne hj _ _) (fun _ _ => rfl)
    (fun u hu => Function.update_of_ne hu _ _) (fun _ _ _ hj => hj) (by simp [hpc])
    (by simp [CreateState.goto]) (h.others_free hlock hfree) ?_ ?_
  · refine ⟨?_, hslot.2⟩
    simp only [CreateState.goto, CreateState.set, Function.update_self,
      BGTestSocket.notUsed_bitReset]
    simp [socketBitNotUsed]
  · simp only [CreateState.goto, Function.update_self]
    refine ⟨hcall.region, ?_⟩
    intro j x hj
    obtain ⟨rfl, rfl⟩ := Prod.mk.inj (Option.some.inj hj)
    exact Function.update_self _ _ _

/-- `CreateSocket` returns the slot. -/
theorem ret (h : Phased s phase) (hpc : s.pc t = .ret i) :
    Phased ({ s with inUse := Function.update s.inUse i true }.goto t .idle)
      (Function.update phase i .live) := by
  have hcall := hpc ▸ h.calls t
  have htaken := hcall.needs i (.taken t) rfl
  have hslot := h.slots i
  rw [htaken] at hslot
  refine h.change (t := t) (fun _ _ => rfl) (fun j hj => Function.update_of_ne hj _ _)
    (fun u hu => Function.update_of_ne hu _ _) (fun _ _ _ hj => hj) (by simp [hpc])
    (by simp [CreateState.goto]) ?_ ⟨hslot.1, Function.update_self _ _ _⟩ ?_
  · intro u hu hneeds
    rw [htaken] at hneeds
    exact hu (CreatePc.eq_of_needs_taken hneeds)
  · simp only [CreateState.goto, Function.update_self]
    exact ⟨by simp [CreatePc.region], by simp [CreatePc.needs]⟩

/-- `Close` finds the handle. -/
theorem exchange (h : Phased s phase) (hidle : s.pc t = .idle) (hused : s.inUse i = true)
    {x : Handle} (hhandle : (s.arrSocket i).hSocket = some x) :
    Phased ((s.set i { s.arrSocket i with hSocket := none }).goto t (.readPlayer i))
      (Function.update phase i (.closing t)) := by
  have hslot := h.slots i
  have hlive : phase i = .live := by
    cases hx : phase i with
    | free => rw [hx] at hslot; exact absurd hused (by simp [hslot.2])
    | taken u => rw [hx] at hslot; exact absurd hused (by simp [hslot.2])
    | live => rfl
    | closing u => rw [hx] at hslot; exact absurd hslot.2.1 (by simp [hhandle])
  rw [hlive] at hslot
  refine h.change (t := t) (fun j hj => Function.update_of_ne hj _ _) (fun _ _ => rfl)
    (fun u hu => Function.update_of_ne hu _ _) (fun _ _ _ hj => hj) (by simp [hidle])
    (by simp [CreateState.goto]) ?_ ?_ ?_
  · intro u _ hneeds
    rw [hlive] at hneeds
    exact CreatePc.needs_ne_live hneeds
  · have hbit : ({ s.arrSocket i with hSocket := none } : BGTestSocket).bitIs
        socketBitNotUsed = false := hslot.1
    refine ⟨hused, by simp [CreateState.goto, CreateState.set], ?_⟩
    simp only [CreateState.goto, CreateState.set, Function.update_self, hbit]
    simp
  · simp only [CreateState.goto, Function.update_self]
    refine ⟨by simp [CreatePc.region], ?_⟩
    intro j x hj
    obtain ⟨rfl, rfl⟩ := Prod.mk.inj (Option.some.inj hj)
    exact Function.update_self _ _ _

/-- `OnClose` sets `SOCKET_BIT_NOT_USED`, and goes on to its `Unlock`. -/
theorem giveUp (h : Phased s phase) (hpc : s.pc t = .setNotUsed i) :
    Phased ((s.set i ((s.arrSocket i).bitSet socketBitNotUsed)).goto t (.closeLeave i)) phase := by
  have hcall := hpc ▸ h.calls t
  have hclosing := hcall.needs i (.closing t) rfl
  have hslot := h.slots i
  rw [hclosing] at hslot
  rw [← Function.update_eq_self i phase, hclosing]
  refine h.change (t := t) (fun j hj => Function.update_of_ne hj _ _) (fun _ _ => rfl)
    (fun u hu => Function.update_of_ne hu _ _) (fun _ _ _ hj => hj) (by simp [hpc]) ?_ ?_ ?_ ?_
  · intro j hj
    simpa [CreateState.goto] using hj.symm
  · intro u hu hneeds
    rw [hclosing] at hneeds
    exact hu (CreatePc.eq_of_needs_closing hneeds)
  · have hhandle : ((s.arrSocket i).bitSet socketBitNotUsed).hSocket = none := hslot.2.1
    refine ⟨hslot.1, ?_, ?_⟩
    · simp only [CreateState.goto, CreateState.set, Function.update_self, hhandle]
    · simp only [CreateState.goto, CreateState.set, Function.update_self,
        BGTestSocket.notUsed_bitSet]
      simp [socketBitNotUsed]
  · simp only [CreateState.goto, Function.update_self]
    refine ⟨hcall.region, ?_⟩
    intro j x hj
    obtain ⟨rfl, rfl⟩ := Prod.mk.inj (Option.some.inj hj)
    exact Function.update_self _ _ _

/-- `OnClose` ends, and the slot is free. -/
theorem closeLeave (h : Phased s phase) (hpc : s.pc t = .closeLeave i) :
    Phased ({ s with inUse := Function.update s.inUse i false }.leave t i (.release i))
      (Function.update phase i .free) := by
  have hcall := hpc ▸ h.calls t
  have hclosing := hcall.needs i (.closing t) rfl
  have hslot := h.slots i
  rw [hclosing] at hslot
  refine h.change (t := t) (fun _ _ => rfl) (fun j hj => Function.update_of_ne hj _ _)
    (fun u hu => Function.update_of_ne hu _ _) (h.locks_leave hpc rfl) ?_
    (by simp [CreateState.leave, CreateState.goto]) ?_
    ⟨hslot.2.2.mpr hpc, Function.update_self _ _ _⟩ ?_
  · intro j hj
    rw [hpc]
    simpa using hj.symm
  · intro u hu hneeds
    rw [hclosing] at hneeds
    exact hu (CreatePc.eq_of_needs_closing hneeds)
  · simp only [CreateState.leave, CreateState.goto, Function.update_self]
    exact ⟨by simp [CreatePc.region], by simp [CreatePc.needs]⟩

/-- A write to a slot that stays as it is for the others. -/
theorem write_same (h : Phased s phase) (hpc : s.pc t = l) (hleave : ∀ j, l ≠ .closeLeave j)
    (hleave' : ∀ j, k ≠ .closeLeave j) {sock : BGTestSocket}
    (hbit : sock.bitIs socketBitNotUsed = (s.arrSocket i).bitIs socketBitNotUsed)
    (hhandle : sock.hSocket = (s.arrSocket i).hSocket)
    (hregion : ∀ j, k.region = some j → l.region = some j)
    (hneeds : ∀ j x, k.needs t = some (j, x) → l.needs t = some (j, x)) :
    Phased ((s.set i sock).goto t k) phase :=
  h.write hpc hleave hleave' (h.ok_of_same hbit hhandle) hregion hneeds

/-- The next step of a call. -/
theorem next (h : Phased s phase) (hstep : s.next t (s.pc t) = some s') :
    ∃ phase', Phased s' phase' := by
  have hcall := h.calls t
  generalize hpc : s.pc t = l at hstep hcall
  cases l with
  | idle => exact absurd hstep (by simp [CreateState.next])
  | scan c j =>
      simp only [CreateState.next] at hstep
      split_ifs at hstep
      all_goals
        obtain rfl := Option.some.inj hstep
        exact ⟨_, h.goto hpc (by simp) (by simp) (by simp [CreatePc.region])
          (by simp [CreatePc.needs])⟩
  | enter c i =>
      have henter : s.enter t i (.recheck c i) = some s' := hstep
      exact ⟨_, h.enter hpc (by simp) (by simp) henter (by simp [CreatePc.region])
        (by simp [CreatePc.needs])⟩
  | recheck c i =>
      simp only [CreateState.next] at hstep
      split_ifs at hstep with hbit
      · obtain rfl := Option.some.inj hstep
        have hfree := h.free_of_notUsed (hcall.region i rfl) (by simp [hpc]) hbit
        refine ⟨_, h.goto hpc (by simp) (by simp) (by simp [CreatePc.region]) ?_⟩
        intro j x hj
        obtain ⟨rfl, rfl⟩ := Prod.mk.inj (Option.some.inj hj)
        exact hfree
      · obtain rfl := Option.some.inj hstep
        exact ⟨_, h.goto hpc (by simp) (by simp) (by simp [CreatePc.region])
          (by simp [CreatePc.needs])⟩
  | check c i =>
      simp only [CreateState.next] at hstep
      split_ifs at hstep
      all_goals
        obtain rfl := Option.some.inj hstep
        exact ⟨_, h.goto hpc (by simp) (by simp) (by simp [CreatePc.region]) hcall.needs⟩
  | forceBit c i =>
      obtain rfl := Option.some.inj hstep
      have hok : (phase i).Ok s.pc i { s.arrSocket i with nBit := socketBitNotUsed }
          (s.inUse i) := by
        have hslot := h.slots i
        rw [hcall.needs i .free rfl] at hslot ⊢
        exact ⟨by simp [BGTestSocket.bitIs], hslot.2⟩
      exact ⟨_, h.write hpc (by simp) (by simp) hok (by simp [CreatePc.region])
        (by simp [CreatePc.needs])⟩
  | forceId c i | forcePlayer c i | setId c i | setAddr c i | setPort c i =>
      obtain rfl := Option.some.inj hstep
      exact ⟨_, h.write_same hpc (by simp) (by simp) rfl rfl (by simp [CreatePc.region])
        (by simp [CreatePc.needs])⟩
  | retryLeave c i =>
      obtain rfl := Option.some.inj hstep
      exact ⟨_, h.leave hpc (by simp) c.scanAgain_ne rfl c.region_scanAgain
        (by simp [c.needs_scanAgain])⟩
  | resetNotUsed c i =>
      obtain rfl := Option.some.inj hstep
      exact ⟨_, h.take hpc⟩
  | setConnected c i =>
      obtain rfl := Option.some.inj hstep
      have hbit : ((s.arrSocket i).bitSet socketBitConnected).bitIs socketBitNotUsed =
          (s.arrSocket i).bitIs socketBitNotUsed := by
        rw [BGTestSocket.notUsed_bitSet]
        simp [socketBitConnected]
      exact ⟨_, h.write_same hpc (by simp) (by simp) hbit rfl (by simp [CreatePc.region])
        (by simp [CreatePc.needs])⟩
  | setSocket c i =>
      obtain rfl := Option.some.inj hstep
      have hok : (phase i).Ok s.pc i { s.arrSocket i with hSocket := c.newSocket }
          (s.inUse i) := by
        have hslot := h.slots i
        rw [hcall.needs i (.taken t) rfl] at hslot ⊢
        exact hslot
      exact ⟨_, h.write hpc (by simp) (by simp) hok (by simp [CreatePc.region])
        (by simp [CreatePc.needs])⟩
  | leave i =>
      obtain rfl := Option.some.inj hstep
      exact ⟨_, h.leave hpc (by simp) (by simp) rfl rfl (by simp [CreatePc.needs])⟩
  | ret i =>
      obtain rfl := Option.some.inj hstep
      exact ⟨_, h.ret hpc⟩
  | readPlayer i =>
      simp only [CreateState.next] at hstep
      split at hstep
      all_goals
        obtain rfl := Option.some.inj hstep
        exact ⟨_, h.goto hpc (by simp) (by simp) (by simp [CreatePc.region]) hcall.needs⟩
  | addRef i | clearPlayer i | clearId i | release i =>
      obtain rfl := Option.some.inj hstep
      exact ⟨_, h.write_same hpc (by simp) (by simp) rfl rfl (by simp [CreatePc.region])
        (by simp [CreatePc.needs])⟩
  | closeEnter i =>
      have henter : s.enter t i (.resetConnected i) = some s' := hstep
      exact ⟨_, h.enter hpc (by simp) (by simp) henter (by simp [CreatePc.region])
        (by simp [CreatePc.needs])⟩
  | resetConnected i =>
      obtain rfl := Option.some.inj hstep
      have hbit : ((s.arrSocket i).bitReset socketBitConnected).bitIs socketBitNotUsed =
          (s.arrSocket i).bitIs socketBitNotUsed := by
        rw [BGTestSocket.notUsed_bitReset]
        simp [socketBitConnected]
      exact ⟨_, h.write_same hpc (by simp) (by simp) hbit rfl (by simp [CreatePc.region])
        (by simp [CreatePc.needs])⟩
  | setZero i =>
      obtain rfl := Option.some.inj hstep
      have hbit : ((s.arrSocket i).bitSet 0#32).bitIs socketBitNotUsed =
          (s.arrSocket i).bitIs socketBitNotUsed := by
        rw [BGTestSocket.notUsed_bitSet]
        simp
      exact ⟨_, h.write_same hpc (by simp) (by simp) hbit rfl (by simp [CreatePc.region])
        (by simp [CreatePc.needs])⟩
  | setNotUsed i =>
      obtain rfl := Option.some.inj hstep
      exact ⟨_, h.giveUp hpc⟩
  | closeLeave i =>
      obtain rfl := Option.some.inj hstep
      exact ⟨_, h.closeLeave hpc⟩

/-- Every step. -/
theorem step {a : CreateAct ι n} (h : Phased s phase) (hstep : createStep s a = some s') :
    ∃ phase', Phased s' phase' := by
  cases a with
  | create t newSocket addr port =>
      simp only [createStep, Option.ite_none_right_eq_some, Option.some.injEq] at hstep
      obtain ⟨hidle, rfl⟩ := hstep
      exact ⟨_, h.goto hidle (by simp) (CreateCall.scanAgain_ne _)
        (by simp [CreateCall.region_scanAgain]) (by simp [CreateCall.needs_scanAgain])⟩
  | close t i =>
      simp only [createStep, Option.ite_none_right_eq_some, Option.some.injEq] at hstep
      obtain ⟨⟨hidle, hused⟩, rfl⟩ := hstep
      cases hhandle : (s.arrSocket i).hSocket with
      | none =>
          simp only [CreateState.close, hhandle]
          exact ⟨_, h⟩
      | some x =>
          simp only [CreateState.close, hhandle]
          exact ⟨_, h.exchange hidle hused hhandle⟩
  | step t => exact h.next hstep
  | login i p =>
      simp only [createStep, Option.ite_none_right_eq_some, Option.some.injEq] at hstep
      obtain ⟨-, rfl⟩ := hstep
      simp only [CreateState.login]
      split_ifs
      · have hbit : ({ s.arrSocket i with pPlayer := some p }.bitSet socketBitLogin).bitIs
            socketBitNotUsed = (s.arrSocket i).bitIs socketBitNotUsed := by
          rw [BGTestSocket.notUsed_bitSet]
          simp [socketBitLogin, BGTestSocket.bitIs]
        exact ⟨_, h.set (h.ok_of_same hbit rfl)⟩
      · exact ⟨_, h⟩

end Phased

/-- Every slot is free. -/
theorem phased_start (ι : Type) (n : ℕ) :
    Phased (CreateState.start ι n) fun _ => Phase.free where
  slots := fun _ => ⟨by simp [CreateState.start, BGTestSocket.new, BGTestSocket.bitIs], rfl⟩
  calls := fun _ => ⟨by simp [CreateState.start, CreatePc.region],
    by simp [CreateState.start, CreatePc.needs]⟩

/-- The call is one of `CreateSocket`. -/
def CreatePc.creating : CreatePc n → Bool
  | .idle | .readPlayer _ | .clearPlayer _ | .closeEnter _ | .resetConnected _ | .clearId _
  | .setZero _ | .setNotUsed _ | .closeLeave _ | .release _ => false
  | _ => true

/-- The step is one of `CreateSocket`. -/
def CreateState.Creates (s : CreateState ι n) : CreateAct ι n → Prop
  | .create _ _ _ _ => True
  | .step t => (s.pc t).creating = true
  | .close _ _ | .login _ _ => False

/-- No call of `CreateSocket` returns a slot in use, or one that another call is about to
return, and none changes a slot in use. -/
structure CreateState.Exclusive [DecidableEq ι] (s : CreateState ι n) : Prop where
  returned : ∀ t i, s.pc t = .ret i → s.inUse i = false ∧ ∀ u, s.pc u = .ret i → u = t
  unchanged : ∀ a s', s.Creates a → createStep s a = some s' →
    ∀ i, s.inUse i = true → s'.arrSocket i = s.arrSocket i

/-- `CreateSocket` writes to a slot that it relies on. -/
theorem needs_of_ne [DecidableEq ι] (hcreating : (s.pc t).creating = true)
    (hstep : createStep s (.step t) = some s') (hne : s'.arrSocket i ≠ s.arrSocket i) :
    (s.pc t).needs t = some (i, .free) ∨ (s.pc t).needs t = some (i, .taken t) := by
  have hset : ∀ (j : Fin n) (sock : BGTestSocket) (l : CreatePc n),
      ((s.set j sock).goto t l).arrSocket i ≠ s.arrSocket i → i = j := by
    intro j sock l hdiff
    by_contra hij
    exact hdiff (Function.update_of_ne hij _ _)
  simp only [createStep] at hstep
  generalize hpc : s.pc t = l at hcreating hstep
  cases l with
  | idle | readPlayer | clearPlayer | closeEnter | resetConnected | clearId | setZero
  | setNotUsed | closeLeave | release => exact absurd hcreating (by simp [CreatePc.creating])
  | scan c j =>
      simp only [CreateState.next] at hstep
      split_ifs at hstep
      all_goals
        obtain rfl := Option.some.inj hstep
        exact absurd rfl hne
  | enter c j =>
      simp only [CreateState.next, CreateState.enter, Option.ite_none_right_eq_some,
        Option.some.injEq] at hstep
      obtain ⟨-, rfl⟩ := hstep
      exact absurd rfl hne
  | recheck c j | check c j =>
      simp only [CreateState.next] at hstep
      split_ifs at hstep
      all_goals
        obtain rfl := Option.some.inj hstep
        exact absurd rfl hne
  | retryLeave c j =>
      obtain rfl := Option.some.inj hstep
      exact absurd rfl hne
  | leave j | ret j =>
      obtain rfl := Option.some.inj hstep
      exact absurd rfl hne
  | forceBit c j | forceId c j | forcePlayer c j | resetNotUsed c j =>
      obtain rfl := Option.some.inj hstep
      obtain rfl := hset _ _ _ hne
      exact .inl rfl
  | setConnected c j | setId c j | setSocket c j | setAddr c j | setPort c j =>
      obtain rfl := Option.some.inj hstep
      obtain rfl := hset _ _ _ hne
      exact .inr rfl
  | addRef j =>
      obtain rfl := Option.some.inj hstep
      obtain rfl := hset _ _ _ hne
      exact .inr rfl

theorem Phased.exclusive [DecidableEq ι] (h : Phased s phase) : s.Exclusive where
  returned := by
    intro t i hpc
    have htaken := (h.calls t).needs i (.taken t) (by rw [hpc]; rfl)
    have hslot := h.slots i
    rw [htaken] at hslot
    refine ⟨hslot.2, fun u hu => ?_⟩
    have hother := (h.calls u).needs i (.taken u) (by rw [hu]; rfl)
    rw [htaken, Phase.taken.injEq] at hother
    exact hother.symm
  unchanged := by
    intro a s' hcreates hstep i hused
    by_contra hne
    have hslot := h.slots i
    cases a with
    | create t newSocket addr port =>
        simp only [createStep, Option.ite_none_right_eq_some, Option.some.injEq] at hstep
        obtain ⟨-, rfl⟩ := hstep
        exact hne rfl
    | step t =>
        rcases needs_of_ne hcreates hstep hne with hneeds | hneeds
        · rw [(h.calls t).needs i _ hneeds] at hslot
          exact absurd hused (by simp [hslot.2])
        · rw [(h.calls t).needs i _ hneeds] at hslot
          exact absurd hused (by simp [hslot.2])
    | close t j => exact hcreates
    | login j p => exact hcreates

/-- **A slot is never given to two live connections**, and `CreateSocket` does not touch
one that is in use. -/
theorem exclusive_of_reaches [DecidableEq ι] (h : Reaches createStep Always (.start ι n) s) :
    s.Exclusive := by
  have hphased : ∃ phase, Phased s phase := by
    refine h.invariant (fun s => ∃ phase, Phased s phase) ⟨_, phased_start ι n⟩ ?_
    intro s a s' ⟨phase, hs⟩ _ hstep
    exact hs.step hstep
  obtain ⟨_, hs⟩ := hphased
  exact hs.exclusive

/-- Two threads find the one slot not used; the second looks again under the lock, when the
slot has been returned to the first. -/
theorem exclusive_of_reaches_recheck : ∃ s : CreateState Bool 1,
    s.inUse 0 = true ∧ s.pc true = .retryLeave ⟨some 8, 3, 4, 2⟩ 0 ∧ s.Exclusive := by
  obtain ⟨s, hrun, hused, hpc⟩ : ∃ s, runAll createStep (.start Bool 1)
      (.create false (some 7) 1 2 :: .create true (some 8) 3 4 :: .step true ::
        List.replicate 13 (.step false) ++ [.step true, .step true]) = some s ∧
        s.inUse 0 = true ∧ s.pc true = .retryLeave ⟨some 8, 3, 4, 2⟩ 0 := ⟨_, rfl, rfl, rfl⟩
  exact ⟨s, hused, hpc, exclusive_of_reaches (Reaches.always_of_runAll hrun)⟩

end BGIocpServer
