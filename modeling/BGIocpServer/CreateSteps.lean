import BGIocpServer.Kit.Reaches
import BGIocpServer.Slots

/-!
# CreateSocket and OnClose of many threads

`CreateSocket` taken apart into the unlocked steps of its scan and the statements of the
region under the slot's lock, and `Close` from the exchange of `m_hSocket` through the
statements of `OnClose` to the `Release` at its end, for any number of threads. `Close` is
called for a connection that `CreateSocket` has returned and whose `OnClose` has not ended.
`BitSet` and `BitReset` are one step: `m_nBit` is only written under the lock.

`LoginOn` runs from `Lock` to `Unlock` in one step. It may come between the two halves of
`OnClose`, and then leaves a player in a slot that is free: this is what the check of
`CreateSocket` is for.

## Main definitions

* `CreateCall`, `CreatePc`, `CreateState`, `CreateAct`, `createStep`: the steps.

## Main results

* `create_alone`, `close_alone`: undisturbed, the steps are `createSocket` and `close`.
-/

namespace BGIocpServer
open Kit

/-- The arguments of `CreateSocket`, and the retries it has left. -/
structure CreateCall where
  newSocket : Option Handle
  addr : ℕ
  port : ℕ
  retries : ℕ
  deriving DecidableEq

/-- Where a thread is in `CreateSocket`, or in `Close` of the slot `i`. -/
inductive CreatePc (n : ℕ)
  /-- Outside. -/
  | idle
  /-- In the scan, at `BitIs` of the slot `i`, or at its end. -/
  | scan (c : CreateCall) (i : ℕ)
  /-- At `Lock()`. -/
  | enter (c : CreateCall) (i : Fin n)
  /-- At `BitIs(SOCKET_BIT_NOT_USED)` under the lock. -/
  | recheck (c : CreateCall) (i : Fin n)
  /-- At `CheckResetData()`. -/
  | check (c : CreateCall) (i : Fin n)
  /-- In `ResetDataOnForce`, at `m_nBit = SOCKET_BIT_NOT_USED`. -/
  | forceBit (c : CreateCall) (i : Fin n)
  /-- At `m_nId = 0`. -/
  | forceId (c : CreateCall) (i : Fin n)
  /-- At `m_pPlayer = nullptr`. -/
  | forcePlayer (c : CreateCall) (i : Fin n)
  /-- At the `Unlock()` before another scan. -/
  | retryLeave (c : CreateCall) (i : Fin n)
  /-- At `BitReset(SOCKET_BIT_NOT_USED)`. -/
  | resetNotUsed (c : CreateCall) (i : Fin n)
  /-- At `BitSet(SOCKET_BIT_CONNECTED)`. -/
  | setConnected (c : CreateCall) (i : Fin n)
  /-- At `m_nId = newId`. -/
  | setId (c : CreateCall) (i : Fin n)
  /-- At `m_hSocket = newSocket`. -/
  | setSocket (c : CreateCall) (i : Fin n)
  /-- At `m_nAddr = addr->sin_addr`. -/
  | setAddr (c : CreateCall) (i : Fin n)
  /-- At `m_nPort = addr->sin_port`. -/
  | setPort (c : CreateCall) (i : Fin n)
  /-- At `AddRef()`. -/
  | addRef (i : Fin n)
  /-- At `Unlock()`. -/
  | leave (i : Fin n)
  /-- At `return pNewSocket`. -/
  | ret (i : Fin n)
  /-- In `OnClose`, at the read of `m_pPlayer`. -/
  | readPlayer (i : Fin n)
  /-- At `m_pPlayer = nullptr`. -/
  | clearPlayer (i : Fin n)
  /-- At `Lock()`. -/
  | closeEnter (i : Fin n)
  /-- At `BitReset(SOCKET_BIT_CONNECTED)`. -/
  | resetConnected (i : Fin n)
  /-- At `m_nId = 0`. -/
  | clearId (i : Fin n)
  /-- At `BitSet(0)`. -/
  | setZero (i : Fin n)
  /-- At `BitSet(SOCKET_BIT_NOT_USED)`. -/
  | setNotUsed (i : Fin n)
  /-- At `Unlock()`. -/
  | closeLeave (i : Fin n)
  /-- In `Close`, at `Release()`. -/
  | release (i : Fin n)
  deriving DecidableEq

/-- The next scan, or the end of the call. -/
def CreateCall.scanAgain {n : ℕ} (c : CreateCall) : CreatePc n :=
  match c.retries with
  | 0 => .idle
  | retries + 1 => .scan { c with retries := retries } 0

/-- The slots and the threads. -/
structure CreateState (ι : Type) (n : ℕ) where
  arrSocket : Fin n → BGTestSocket
  /-- Who is between `Lock` and `Unlock` of the slot. -/
  lock : Fin n → Option ι
  pc : ι → CreatePc n
  /-- History: `CreateSocket` has returned the slot, and the `OnClose` of that connection
  has not ended. -/
  inUse : Fin n → Bool

/-- The steps. -/
inductive CreateAct (ι : Type) (n : ℕ)
  /-- `CreateSocket` is called. -/
  | create (t : ι) (newSocket : Option Handle) (addr port : ℕ)
  /-- `Close` or `GracefulClose` of the slot's connection, up to the exchange. -/
  | close (t : ι) (i : Fin n)
  /-- The next step of the call. -/
  | step (t : ι)
  /-- `LoginOn`, where `AddPlayer` returns `p`. -/
  | login (i : Fin n) (p : Ptr)

namespace CreateState
variable {ι : Type} [DecidableEq ι] {n : ℕ}

/-- The thread goes on at `k`. -/
def goto (s : CreateState ι n) (t : ι) (k : CreatePc n) : CreateState ι n :=
  { s with pc := Function.update s.pc t k }

/-- Assignment to a slot. -/
def set (s : CreateState ι n) (i : Fin n) (sock : BGTestSocket) : CreateState ι n :=
  { s with arrSocket := Function.update s.arrSocket i sock }

/-- `Lock()`: it returns when nobody else is inside. -/
def enter (s : CreateState ι n) (t : ι) (i : Fin n) (k : CreatePc n) :
    Option (CreateState ι n) :=
  if s.lock i = none then
    some ({ s with lock := Function.update s.lock i (some t) }.goto t k)
  else none

/-- `Unlock()` -/
def leave (s : CreateState ι n) (t : ι) (i : Fin n) (k : CreatePc n) : CreateState ι n :=
  { s with lock := Function.update s.lock i none }.goto t k

/-- The next step of a call. -/
def next (s : CreateState ι n) (t : ι) : CreatePc n → Option (CreateState ι n)
  | .idle => none
  | .scan c i =>
      if h : i < n then
        if (s.arrSocket ⟨i, h⟩).bitIs socketBitNotUsed then some (s.goto t (.enter c ⟨i, h⟩))
        else some (s.goto t (.scan c (i + 1)))
      else some (s.goto t .idle)
  | .enter c i => s.enter t i (.recheck c i)
  | .recheck c i =>
      if (s.arrSocket i).bitIs socketBitNotUsed then some (s.goto t (.check c i))
      else some (s.goto t (.retryLeave c i))
  | .check c i =>
      if (s.arrSocket i).checkResetData then some (s.goto t (.resetNotUsed c i))
      else some (s.goto t (.forceBit c i))
  | .forceBit c i =>
      some ((s.set i { s.arrSocket i with nBit := socketBitNotUsed }).goto t (.forceId c i))
  | .forceId c i => some ((s.set i { s.arrSocket i with nId := 0 }).goto t (.forcePlayer c i))
  | .forcePlayer c i =>
      some ((s.set i { s.arrSocket i with pPlayer := none }).goto t (.retryLeave c i))
  | .retryLeave c i => some (s.leave t i c.scanAgain)
  | .resetNotUsed c i =>
      some ((s.set i ((s.arrSocket i).bitReset socketBitNotUsed)).goto t (.setConnected c i))
  | .setConnected c i =>
      some ((s.set i ((s.arrSocket i).bitSet socketBitConnected)).goto t (.setId c i))
  | .setId c i => some ((s.set i { s.arrSocket i with nId := i.val }).goto t (.setSocket c i))
  | .setSocket c i =>
      some ((s.set i { s.arrSocket i with hSocket := c.newSocket }).goto t (.setAddr c i))
  | .setAddr c i => some ((s.set i { s.arrSocket i with nAddr := c.addr }).goto t (.setPort c i))
  | .setPort c i => some ((s.set i { s.arrSocket i with nPort := c.port }).goto t (.addRef i))
  | .addRef i => some ((s.set i (s.arrSocket i).addRef).goto t (.leave i))
  | .leave i => some (s.leave t i (.ret i))
  | .ret i => some ({ s with inUse := Function.update s.inUse i true }.goto t .idle)
  | .readPlayer i =>
      match (s.arrSocket i).pPlayer with
      | some _ => some (s.goto t (.clearPlayer i))
      | none => some (s.goto t (.closeEnter i))
  | .clearPlayer i =>
      some ((s.set i { s.arrSocket i with pPlayer := none }).goto t (.closeEnter i))
  | .closeEnter i => s.enter t i (.resetConnected i)
  | .resetConnected i =>
      some ((s.set i ((s.arrSocket i).bitReset socketBitConnected)).goto t (.clearId i))
  | .clearId i => some ((s.set i { s.arrSocket i with nId := 0 }).goto t (.setZero i))
  | .setZero i => some ((s.set i ((s.arrSocket i).bitSet 0#32)).goto t (.setNotUsed i))
  | .setNotUsed i =>
      some ((s.set i ((s.arrSocket i).bitSet socketBitNotUsed)).goto t (.closeLeave i))
  | .closeLeave i =>
      some ({ s with inUse := Function.update s.inUse i false }.leave t i (.release i))
  | .release i => some ((s.set i (s.arrSocket i).release).goto t .idle)

/-- The exchange of `m_hSocket`, and what `Close` does next. -/
def close (s : CreateState ι n) (t : ι) (i : Fin n) : CreateState ι n :=
  match (s.arrSocket i).hSocket with
  | none => s
  | some _ => (s.set i { s.arrSocket i with hSocket := none }).goto t (.readPlayer i)

/-- `LoginOn`. Only a player that `AddPlayer` returns lets it unlock the slot. -/
def login (s : CreateState ι n) (i : Fin n) (p : Ptr) : CreateState ι n :=
  if (s.arrSocket i).bitIs socketBitConnected then
    s.set i ({ s.arrSocket i with pPlayer := some p }.bitSet socketBitLogin)
  else s

/-- The slots as `Initialize` leaves them. -/
def start (ι : Type) (n : ℕ) : CreateState ι n where
  arrSocket := fun i => .new i
  lock := fun _ => none
  pc := fun _ => .idle
  inUse := fun _ => false

end CreateState

section Steps
variable {ι : Type} [DecidableEq ι] {n : ℕ}

/-- One step. -/
def createStep (s : CreateState ι n) : CreateAct ι n → Option (CreateState ι n)
  | .create t newSocket addr port =>
      if s.pc t = .idle then
        some (s.goto t
          (CreateCall.scanAgain ⟨newSocket, addr, port, SlotTable.createSocketRetryCnt⟩))
      else none
  | .close t i => if s.pc t = .idle ∧ s.inUse i = true then some (s.close t i) else none
  | .step t => s.next t (s.pc t)
  | .login i p => if s.lock i = none then some (s.login i p) else none

end Steps

/-! ## Undisturbed calls -/

namespace CreateState
variable {ι : Type} [DecidableEq ι] {n : ℕ} {s s' : CreateState ι n} {t : ι} {i : Fin n}
  {k l : CreatePc n} {sock : BGTestSocket}

@[simp] theorem pc_goto (s : CreateState ι n) (t : ι) (k : CreatePc n) : (s.goto t k).pc t = k :=
  Function.update_self _ _ _

@[simp] theorem goto_goto (s : CreateState ι n) (t : ι) (k l : CreatePc n) :
    (s.goto t k).goto t l = s.goto t l := by
  simp only [goto, Function.update_idem]

omit [DecidableEq ι] in
@[simp] theorem set_set (s : CreateState ι n) (i : Fin n) (x y : BGTestSocket) :
    (s.set i x).set i y = s.set i y := by
  simp only [set, Function.update_idem]

omit [DecidableEq ι] in
@[simp] theorem arrSocket_set (s : CreateState ι n) (i : Fin n) (x : BGTestSocket) :
    (s.set i x).arrSocket i = x :=
  Function.update_self _ _ _

@[simp] theorem set_goto (s : CreateState ι n) (t : ι) (k : CreatePc n) (i : Fin n)
    (x : BGTestSocket) : (s.goto t k).set i x = (s.set i x).goto t k := rfl

@[simp] theorem arrSocket_goto (s : CreateState ι n) (t : ι) (k : CreatePc n) :
    (s.goto t k).arrSocket = s.arrSocket := rfl

omit [DecidableEq ι] in
@[simp] theorem set_self (s : CreateState ι n) (i : Fin n) : s.set i (s.arrSocket i) = s := by
  simp only [set, Function.update_eq_self]

@[simp] theorem pc_leave (s : CreateState ι n) (t : ι) (i : Fin n) (k : CreatePc n) :
    (s.leave t i k).pc t = k :=
  Function.update_self _ _ _

/-- The thread runs, alone, from `s` to `s'`. -/
abbrev Alone (t : ι) (s s' : CreateState ι n) : Prop := Repeats createStep (.step t) s s'

/-- One step of a call. -/
theorem alone_head (hpc : s.pc t = k) (hnext : s.next t k = some s') {r : CreateState ι n}
    (h : Alone t s' r) : Alone t s r :=
  Repeats.head (by rw [createStep, hpc, hnext]) h

/-- The lock of the slot is the thread's. -/
def lockBy (s : CreateState ι n) (t : ι) (i : Fin n) : CreateState ι n :=
  { s with lock := Function.update s.lock i (some t) }

theorem enter_eq (hfree : s.lock i = none) (t : ι) (k : CreatePc n) :
    s.enter t i k = some ((s.lockBy t i).goto t k) :=
  if_pos hfree

/-- What is left after `Unlock`. -/
theorem leave_eq (hfree : s.lock i = none) (t : ι) (x : BGTestSocket) (k l : CreatePc n) :
    (((s.lockBy t i).set i x).goto t k).leave t i l = (s.set i x).goto t l := by
  have hlock : Function.update s.lock i none = s.lock := by
    rw [← hfree, Function.update_eq_self]
  simp only [leave, lockBy, set, goto, Function.update_idem, hlock]

/-- Where a call of `CreateSocket` is after its region. -/
def afterClaim (s : CreateState ι n) (t : ι) (c : CreateCall) (i : Fin n) :
    BGTestSocket.Claim → CreateState ι n
  | .taken => { s with inUse := Function.update s.inUse i true }.goto t .idle
  | .forced | .busy => s.goto t c.scanAgain

@[simp] theorem afterClaim_goto (s : CreateState ι n) (t : ι) (k : CreatePc n) (c : CreateCall)
    (i : Fin n) (r : BGTestSocket.Claim) :
    (s.goto t k).afterClaim t c i r = s.afterClaim t c i r := by
  cases r <;> simp only [afterClaim, goto, Function.update_idem]

/-- Undisturbed, the claim of a slot that is not used and reset comes to its `return`. -/
theorem taken_alone {c : CreateCall} (hpc : s.pc t = .enter c i) (hfree : s.lock i = none)
    (hbit : (s.arrSocket i).bitIs socketBitNotUsed = true)
    (hreset : (s.arrSocket i).checkResetData = true) :
    Alone t s ((s.set i
      { ((s.arrSocket i).bitReset socketBitNotUsed).bitSet socketBitConnected with
        nId := i, hSocket := c.newSocket, nAddr := c.addr, nPort := c.port }.addRef).goto t
      (.ret i)) := by
  refine alone_head hpc (enter_eq hfree t _) ?_
  refine alone_head (s := (s.lockBy t i).goto t (.recheck c i)) (pc_goto _ _ _) (if_pos hbit) ?_
  refine alone_head (s := ((s.lockBy t i).goto t (.recheck c i)).goto t (.check c i))
    (pc_goto _ _ _) (if_pos hreset) ?_
  refine alone_head (pc_goto _ _ _) rfl (alone_head (pc_goto _ _ _) rfl
    (alone_head (pc_goto _ _ _) rfl (alone_head (pc_goto _ _ _) rfl
    (alone_head (pc_goto _ _ _) rfl (alone_head (pc_goto _ _ _) rfl
    (alone_head (pc_goto _ _ _) rfl (alone_head (pc_goto _ _ _) rfl ?_)))))))
  simp only [goto_goto, set_goto, set_set, arrSocket_goto, arrSocket_set, leave_eq hfree]
  exact .refl

/-- Undisturbed, the region under the lock is `claim`. -/
theorem claim_alone {c : CreateCall} (hpc : s.pc t = .enter c i) (hfree : s.lock i = none) :
    Alone t s (((s.set i ((s.arrSocket i).claim i c.newSocket c.addr c.port).2)).afterClaim t c i
      ((s.arrSocket i).claim i c.newSocket c.addr c.port).1) := by
  by_cases hbit : (s.arrSocket i).bitIs socketBitNotUsed = true
  · by_cases hreset : (s.arrSocket i).checkResetData = true
    · have hclaim : (s.arrSocket i).claim i c.newSocket c.addr c.port =
          (.taken, { ((s.arrSocket i).bitReset socketBitNotUsed).bitSet socketBitConnected with
            nId := i, hSocket := c.newSocket, nAddr := c.addr, nPort := c.port }.addRef) := by
        simp [BGTestSocket.claim, hbit, hreset]
      rw [hclaim]
      refine (taken_alone hpc hfree hbit hreset).trans (alone_head (pc_goto _ _ _) rfl ?_)
      simp only [afterClaim, goto, Function.update_idem]
      exact .refl
    · have hclaim : (s.arrSocket i).claim i c.newSocket c.addr c.port =
          (.forced, (s.arrSocket i).resetDataOnForce) := by
        simp [BGTestSocket.claim, hbit, hreset]
      rw [hclaim]
      refine alone_head hpc (enter_eq hfree t _) ?_
      refine alone_head (s := (s.lockBy t i).goto t (.recheck c i)) (pc_goto _ _ _)
        (if_pos hbit) ?_
      refine alone_head (s := ((s.lockBy t i).goto t (.recheck c i)).goto t (.check c i))
        (pc_goto _ _ _) (if_neg hreset) ?_
      refine alone_head (pc_goto _ _ _) rfl (alone_head (pc_goto _ _ _) rfl
        (alone_head (pc_goto _ _ _) rfl (alone_head (pc_goto _ _ _) rfl ?_)))
      simp only [goto_goto, set_goto, set_set, arrSocket_goto, arrSocket_set, leave_eq hfree]
      exact .refl
  · have hclaim : (s.arrSocket i).claim i c.newSocket c.addr c.port = (.busy, s.arrSocket i) := by
      simp [BGTestSocket.claim, hbit]
    rw [hclaim]
    refine alone_head hpc (enter_eq hfree t _) ?_
    refine alone_head (s := (s.lockBy t i).goto t (.recheck c i)) (pc_goto _ _ _) (if_neg hbit) ?_
    refine alone_head (pc_goto _ _ _) rfl ?_
    have hleave := leave_eq hfree t (s.arrSocket i) (.retryLeave c i) c.scanAgain
    have hsame : (s.lockBy t i).set i (s.arrSocket i) = s.lockBy t i :=
      set_self (s.lockBy t i) i
    rw [hsame] at hleave
    rw [goto_goto, hleave]
    exact .refl

omit [DecidableEq ι] in
/-- The scan ends at the first slot that is not used. -/
theorem scan_eq_some {table : SlotTable n} (i : Fin n)
    (hbit : (table.arrSocket i).bitIs socketBitNotUsed = true)
    (hbefore : ∀ j < i, (table.arrSocket j).bitIs socketBitNotUsed = false) :
    table.scan = some i := by
  rw [SlotTable.scan, List.find?_eq_some_iff_getElem]
  refine ⟨hbit, i, by simp, by simp, fun j hj => ?_⟩
  have hlt : (⟨j, hj.trans i.isLt⟩ : Fin n) < i := hj
  simpa using hbefore _ hlt

/-- Undisturbed, the scan finds what `SlotTable.scan` does. -/
theorem scan_alone {c : CreateCall} (table : SlotTable n) (m : ℕ) :
    ∀ {s : CreateState ι n} {j : ℕ}, table.arrSocket = s.arrSocket → j + m = n →
      (∀ i : Fin n, i < j → (s.arrSocket i).bitIs socketBitNotUsed = false) →
      s.pc t = .scan c j →
      Alone t s (s.goto t (match table.scan with
        | some i => .enter c i
        | none => .idle)) := by
  induction m with
  | zero =>
      intro s j htable hj hbefore hpc
      have hnone : table.scan = none := by
        rw [SlotTable.scan, List.find?_eq_none]
        intro i _
        rw [htable, hbefore i (by omega)]
        simp
      rw [hnone]
      exact alone_head hpc (dif_neg (by omega)) .refl
  | succ m ih =>
      intro s j htable hj hbefore hpc
      have hlt : j < n := by omega
      by_cases hbit : (s.arrSocket ⟨j, hlt⟩).bitIs socketBitNotUsed = true
      · have hsome : table.scan = some ⟨j, hlt⟩ := by
          refine scan_eq_some _ (by rw [htable]; exact hbit) fun i hi => ?_
          rw [htable]
          exact hbefore i hi
        rw [hsome]
        exact alone_head hpc ((dif_pos hlt).trans (if_pos hbit)) .refl
      · have hnext := ih (s := s.goto t (.scan c (j + 1))) htable (by omega) ?_ (pc_goto _ _ _)
        · rw [goto_goto] at hnext
          exact alone_head hpc ((dif_pos hlt).trans (if_neg hbit)) hnext
        · intro i hi
          by_cases heq : i.val = j
          · have hi : i = ⟨j, hlt⟩ := Fin.ext heq
            rw [hi]
            simpa using hbit
          · exact hbefore i (by omega)

/-- The slots after a call, and whether it has returned one. -/
def Created (t : ι) (s s' : CreateState ι n) (r : Option (Fin n) × SlotTable n) : Prop :=
  s'.arrSocket = r.2.arrSocket ∧ s'.lock = s.lock ∧ s'.pc = Function.update s.pc t .idle ∧
    s'.inUse = match r.1 with
      | some i => Function.update s.inUse i true
      | none => s.inUse

/-- **Undisturbed, the steps of `CreateSocket` are `createSocket`.** -/
theorem create_alone (newSocket : Option Handle) (addr port : ℕ) (retries : ℕ) :
    ∀ {s : CreateState ι n} {table : SlotTable n}, table.arrSocket = s.arrSocket →
      (∀ i, s.lock i = none) →
      s.pc t = CreateCall.scanAgain ⟨newSocket, addr, port, retries⟩ →
      ∃ s', Alone t s s' ∧
        Created t s s' (table.createSocket newSocket addr port retries) := by
  induction retries with
  | zero =>
      intro s table htable _ hpc
      have hidle : s.pc t = .idle := hpc
      refine ⟨s, .refl, htable.symm, rfl, ?_, rfl⟩
      rw [← hidle, Function.update_eq_self]
  | succ retries ih =>
      intro s table htable hfree hpc
      have hscan := scan_alone (c := ⟨newSocket, addr, port, retries⟩) table n htable
        (Nat.zero_add n) (fun i hi => absurd hi (Nat.not_lt_zero _)) hpc
      rw [SlotTable.createSocket]
      cases hfound : table.scan with
      | none =>
          rw [hfound] at hscan
          exact ⟨_, hscan, htable.symm, rfl, rfl, rfl⟩
      | some i =>
          rw [hfound] at hscan
          have hclaim := claim_alone (pc_goto s t (.enter ⟨newSocket, addr, port, retries⟩ i))
            (hfree i)
          simp only [htable]
          simp only [arrSocket_goto] at hclaim
          generalize (s.arrSocket i).claim i newSocket addr port = r at hclaim ⊢
          obtain ⟨res, sock⟩ := r
          simp only [set_goto, afterClaim_goto] at hclaim
          have hset : (table.setSocket i sock).arrSocket = (s.set i sock).arrSocket := by
            simp only [SlotTable.setSocket, set, htable]
          have hretry : res ≠ .taken → ∃ s', Alone t s s' ∧ Created t s s'
              (SlotTable.createSocket newSocket addr port retries (table.setSocket i sock)) := by
            intro hres
            obtain ⟨s', hrun, harr, hlock, hidle, hused⟩ :=
              ih (s := (s.set i sock).goto t
                  (CreateCall.scanAgain ⟨newSocket, addr, port, retries⟩))
                hset hfree (pc_goto _ _ _)
            have hagain : (s.set i sock).afterClaim t ⟨newSocket, addr, port, retries⟩ i res =
                (s.set i sock).goto t (CreateCall.scanAgain ⟨newSocket, addr, port, retries⟩) := by
              cases res with
              | taken => exact absurd rfl hres
              | forced | busy => rfl
            rw [hagain] at hclaim
            refine ⟨s', (hscan.trans hclaim).trans hrun, harr, hlock, ?_, hused⟩
            rw [hidle]
            exact Function.update_idem _ _ _
          cases res with
          | taken => exact ⟨_, hscan.trans hclaim, hset.symm, rfl, rfl, rfl⟩
          | forced => exact hretry (by simp)
          | busy => exact hretry (by simp)

/-- Where a call of `Close` that has found the handle ends. -/
def afterClose (s : CreateState ι n) (t : ι) (i : Fin n) : CreateState ι n :=
  { s with inUse := Function.update s.inUse i false }.goto t .idle

@[simp] theorem afterClose_goto (s : CreateState ι n) (t : ι) (k : CreatePc n) (i : Fin n) :
    (s.goto t k).afterClose t i = s.afterClose t i := by
  simp only [afterClose, goto, Function.update_idem]

/-- The locked half of `OnClose`, and the `Release` of `Close`. -/
theorem closeEnter_alone (sock : BGTestSocket) (hpc : s.pc t = .closeEnter i)
    (hfree : s.lock i = none) (hsock : s.arrSocket i = { sock with pPlayer := none }) :
    Alone t s ((s.set i sock.onClose.release).afterClose t i) := by
  have hlock : Function.update s.lock i none = s.lock := by
    rw [← hfree, Function.update_eq_self]
  refine alone_head hpc (enter_eq hfree t _) ?_
  refine alone_head (pc_goto _ _ _) rfl (alone_head (pc_goto _ _ _) rfl
    (alone_head (pc_goto _ _ _) rfl (alone_head (pc_goto _ _ _) rfl
    (alone_head (pc_goto _ _ _) rfl (alone_head (pc_leave _ _ _ _) rfl ?_)))))
  simp only [leave, lockBy, set, goto, Function.update_idem, Function.update_self, hlock, hsock,
    afterClose]
  exact .refl

/-- **Undisturbed, the steps of `Close` are `close`.** -/
theorem close_alone (hidle : s.pc t = .idle) (hfree : s.lock i = none) :
    ∃ s', Alone t (s.close t i) s' ∧
      s'.arrSocket = Function.update s.arrSocket i (s.arrSocket i).close ∧ s'.lock = s.lock ∧
      s'.pc = s.pc := by
  have hpc : Function.update s.pc t .idle = s.pc := by
    rw [← hidle, Function.update_eq_self]
  cases hhandle : (s.arrSocket i).hSocket with
  | none =>
      refine ⟨s, ?_, ?_, rfl, rfl⟩
      · simp only [close, hhandle]
        exact .refl
      · simp only [BGTestSocket.close, hhandle, Function.update_eq_self]
  | some x =>
      have hclose : (s.arrSocket i).close =
          (BGTestSocket.onClose { s.arrSocket i with hSocket := none }).release := by
        simp only [BGTestSocket.close, BGTestSocket.closeHandle, hhandle]
      obtain ⟨old, hold⟩ : ∃ old, old = { s.arrSocket i with hSocket := none } := ⟨_, rfl⟩
      have hrest := closeEnter_alone (s := (s.set i { old with pPlayer := none }).goto t
        (.closeEnter i)) old (pc_goto _ _ _) hfree (arrSocket_set s i _)
      simp only [set_goto, set_set, afterClose_goto] at hrest
      rw [hclose, close, hhandle, ← hold]
      have hrun : Alone t ((s.set i old).goto t (.readPlayer i))
          ((s.set i old.onClose.release).afterClose t i) := by
        have hplayer :
            (((s.set i old).goto t (.readPlayer i)).arrSocket i).pPlayer = old.pPlayer := by
          rw [arrSocket_goto, arrSocket_set]
        cases hp : old.pPlayer with
        | none =>
            have hnext : ((s.set i old).goto t (.readPlayer i)).next t (.readPlayer i) =
                some (((s.set i old).goto t (.readPlayer i)).goto t (.closeEnter i)) := by
              simp only [next, hplayer, hp]
            refine alone_head (pc_goto _ _ _) hnext ?_
            have hsame : { old with pPlayer := none } = old := by rw [← hp]
            rw [hsame] at hrest
            rw [goto_goto]
            exact hrest
        | some p =>
            have hnext : ((s.set i old).goto t (.readPlayer i)).next t (.readPlayer i) =
                some (((s.set i old).goto t (.readPlayer i)).goto t (.clearPlayer i)) := by
              simp only [next, hplayer, hp]
            refine alone_head (pc_goto _ _ _) hnext (alone_head (pc_goto _ _ _) rfl ?_)
            simp only [goto_goto, set_goto, set_set, arrSocket_goto, arrSocket_set]
            exact hrest
      exact ⟨_, hrun, rfl, rfl, hpc⟩

end CreateState
end BGIocpServer
