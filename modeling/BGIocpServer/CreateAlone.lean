import BGIocpServer.CreateSteps

/-!
# CreateSocket without interference

One thread runs a call of `CreateSocket` from any array of slots while nobody else moves.
A slot that is not used but not reset costs one try: `ResetDataOnForce` leaves it not used
and reset, the next scan ends at the same slot, and takes it.

## Main definitions

* `LowestNotUsed`: the slot that the scan of `CreateSocket` ends at.
* `CreateState.Returns`: a call runs to its end and returns.

## Main results

* `createSocket_undisturbed`: what the call returns, and what it leaves.
-/

namespace BGIocpServer
open Kit

namespace BGTestSocket
variable {sock : BGTestSocket} {newId : ℕ} {newSocket : Option Handle} {addr port : ℕ}

/-- A reset by force leaves the slot not used, and reset. -/
theorem resetDataOnForce_reset (sock : BGTestSocket) :
    sock.resetDataOnForce.bitIs socketBitNotUsed = true ∧
      sock.resetDataOnForce.checkResetData = true := by
  simp [resetDataOnForce, bitIs, checkResetData]

/-- The claim of a slot that passes the check. -/
theorem claim_of_reset (hbit : sock.bitIs socketBitNotUsed = true)
    (hreset : sock.checkResetData = true) :
    sock.claim newId newSocket addr port =
      (.taken, { (sock.bitReset socketBitNotUsed).bitSet socketBitConnected with
        nId := newId, hSocket := newSocket, nAddr := addr, nPort := port }.addRef) := by
  simp [claim, hbit, hreset]

/-- The claim of a slot that does not. -/
theorem claim_of_not_reset (hbit : sock.bitIs socketBitNotUsed = true)
    (hreset : sock.checkResetData = false) :
    sock.claim newId newSocket addr port = (.forced, sock.resetDataOnForce) := by
  simp [claim, hbit, hreset]

/-- What `CreateSocket` promises of the slot it returns. -/
structure ReadyFor (sock : BGTestSocket) (newId : ℕ) (newSocket : Option Handle)
    (addr port : ℕ) : Prop where
  notUsed : sock.bitIs socketBitNotUsed = false
  connected : sock.bitIs socketBitConnected = true
  nId : sock.nId = newId
  pPlayer : sock.pPlayer = none
  hSocket : sock.hSocket = newSocket
  nAddr : sock.nAddr = addr
  nPort : sock.nPort = port

/-- A slot that is taken is ready: the check has seen that it has no player. -/
theorem readyFor_claim (hbit : sock.bitIs socketBitNotUsed = true)
    (hreset : sock.checkResetData = true) :
    (sock.claim newId newSocket addr port).2.ReadyFor newId newSocket addr port := by
  have hclaim : sock.claim newId newSocket addr port = _ := claim_of_reset hbit hreset
  have hnotUsed := (claim_taken (congrArg Prod.fst hclaim)).2.1
  have hplayer : sock.pPlayer = none := by
    cases hp : sock.pPlayer with
    | none => rfl
    | some p => simp [checkResetData, hp] at hreset
  have hset : ∀ a b : BitVec 32, (a ||| b) &&& b = b := by
    intro a b
    apply BitVec.eq_of_getLsbD_eq
    intro i _
    rw [BitVec.getLsbD_and, BitVec.getLsbD_or]
    cases b.getLsbD i with
    | true => rw [Bool.or_true, Bool.and_true]
    | false => rw [Bool.and_false]
  rw [hclaim] at hnotUsed ⊢
  exact { notUsed := hnotUsed
          connected := beq_iff_eq.2 (hset _ _)
          nId := rfl
          pPlayer := hplayer
          hSocket := rfl
          nAddr := rfl
          nPort := rfl }

end BGTestSocket

/-- The slot `i` is the first one that is not used. -/
def LowestNotUsed {n : ℕ} (arrSocket : Fin n → BGTestSocket) (i : Fin n) : Prop :=
  (arrSocket i).bitIs socketBitNotUsed = true ∧
    ∀ j < i, (arrSocket j).bitIs socketBitNotUsed = false

namespace CreateState
variable {ι : Type} [DecidableEq ι] {n : ℕ} {s s' : CreateState ι n} {t : ι} {i : Fin n}
  {c : CreateCall}

/-- The value that the last step of a call returns. -/
def returned : CreatePc n → Option (Fin n)
  | .ret i => some i
  | _ => none

@[simp] theorem returned_scan (c : CreateCall) (k : ℕ) :
    returned (.scan c k : CreatePc n) = none := rfl

@[simp] theorem returned_ret (i : Fin n) : returned (.ret i) = some i := rfl

/-- The thread's call runs alone from `s` to its end, leaves `s'` and returns `r`. -/
def Returns (t : ι) (s : CreateState ι n) (r : Option (Fin n)) (s' : CreateState ι n) : Prop :=
  ∃ last, Alone t s last ∧ last.pc t ≠ .idle ∧ createStep last (.step t) = some s' ∧
    s'.pc t = .idle ∧ returned (last.pc t) = r

/-- The scan passes the slots that are used. -/
theorem scan_to (hpc : s.pc t = .scan c 0) (k : ℕ) (hk : k ≤ n)
    (hused : ∀ j : Fin n, j < k → (s.arrSocket j).bitIs socketBitNotUsed = false) :
    Alone t s (s.goto t (.scan c k)) := by
  induction k with
  | zero =>
      have hsame : s.goto t (.scan c 0) = s := by
        rw [goto, ← hpc, Function.update_eq_self]
      rw [hsame]
      exact .refl
  | succ k ih =>
      have hrun := ih (by omega) fun j hj => hused j (by omega)
      have hbit : ¬(s.arrSocket ⟨k, hk⟩).bitIs socketBitNotUsed = true := by
        rw [hused ⟨k, hk⟩ (Nat.lt_succ_self k)]
        exact Bool.false_ne_true
      have hnext : (s.goto t (.scan c k)).next t (.scan c k) =
          some (s.goto t (.scan c (k + 1))) := by
        rw [next, dif_pos (Nat.lt_of_succ_le hk), arrSocket_goto, if_neg hbit, goto_goto]
      exact hrun.trans (alone_head (pc_goto _ _ _) hnext .refl)

/-- The scan ends at the first slot that is not used. -/
theorem scan_lowest (hpc : s.pc t = .scan c 0) (h : LowestNotUsed s.arrSocket i) :
    Alone t s (s.goto t (.enter c i)) := by
  have hrun := scan_to hpc i i.isLt.le h.2
  have hnext : (s.goto t (.scan c i)).next t (.scan c i) = some (s.goto t (.enter c i)) := by
    rw [next, dif_pos i.isLt, arrSocket_goto, if_pos h.1, goto_goto]
  exact hrun.trans (alone_head (pc_goto _ _ _) hnext .refl)

/-- Without a slot that is not used, the call returns null at the end of its scan. -/
theorem returns_null (hpc : s.pc t = .scan c 0)
    (hused : ∀ j, (s.arrSocket j).bitIs socketBitNotUsed = false) :
    Returns t s none (s.goto t .idle) := by
  have hstep : createStep (s.goto t (.scan c n)) (.step t) = some (s.goto t .idle) := by
    simp [createStep, next]
  exact ⟨_, scan_to hpc n le_rfl fun j _ => hused j, by simp, hstep, pc_goto _ _ _, by simp⟩

/-- What a call does before its scan may be left out. -/
theorem Returns.head {r : Option (Fin n)} {q : CreateState ι n} (hrun : Alone t s s')
    (h : Returns t s' r q) : Returns t s r q := by
  obtain ⟨last, hlast, hrest⟩ := h
  exact ⟨last, hrun.trans hlast, hrest⟩

/-- The state that the call leaves when it returns the slot. -/
def taken (s : CreateState ι n) (t : ι) (c : CreateCall) (i : Fin n) : CreateState ι n :=
  { s.set i ((s.arrSocket i).claim i c.newSocket c.addr c.port).2 with
    inUse := Function.update s.inUse i true }.goto t .idle

/-- A scan whose lowest slot is reset takes it. -/
theorem returns_of_reset (hpc : s.pc t = .scan c 0) (hlow : LowestNotUsed s.arrSocket i)
    (hfree : s.lock i = none) (hreset : (s.arrSocket i).checkResetData = true) :
    Returns t s (some i) (s.taken t c i) := by
  have hclaim := taken_alone (pc_goto s t (.enter c i)) hfree hlow.1 hreset
  refine ⟨_, (scan_lowest hpc hlow).trans hclaim, by simp, ?_, pc_goto _ _ _, by simp⟩
  rw [createStep, pc_goto, taken, BGTestSocket.claim_of_reset hlow.1 hreset]
  simp only [next, goto, set, Function.update_idem]

/-- A scan whose lowest slot is not reset resets it by force, and scans again. -/
theorem scan_forced (hpc : s.pc t = .scan c 0) (hlow : LowestNotUsed s.arrSocket i)
    (hfree : s.lock i = none) (hreset : (s.arrSocket i).checkResetData = false) :
    Alone t s ((s.set i (s.arrSocket i).resetDataOnForce).goto t c.scanAgain) := by
  have hclaim := claim_alone (pc_goto s t (.enter c i)) hfree
  rw [arrSocket_goto, BGTestSocket.claim_of_not_reset hlow.1 hreset, set_goto,
    afterClaim_goto] at hclaim
  exact (scan_lowest hpc hlow).trans hclaim

end CreateState

/-- A reset by force does not move the lowest slot. -/
theorem LowestNotUsed.update {n : ℕ} {arrSocket : Fin n → BGTestSocket} {i : Fin n}
    (h : LowestNotUsed arrSocket i) {sock : BGTestSocket}
    (hbit : sock.bitIs socketBitNotUsed = true) :
    LowestNotUsed (Function.update arrSocket i sock) i := by
  refine ⟨by rwa [Function.update_self], fun j hj => ?_⟩
  rw [Function.update_of_ne hj.ne]
  exact h.2 j hj

/-- Some slot is the first one that is not used, if there is one at all. -/
theorem exists_lowestNotUsed {n : ℕ} {arrSocket : Fin n → BGTestSocket}
    (h : ∃ j, (arrSocket j).bitIs socketBitNotUsed = true) : ∃ i, LowestNotUsed arrSocket i := by
  obtain ⟨j, hj⟩ := h
  induction j using WellFoundedLT.induction with
  | ind j ih =>
      by_cases hbefore : ∃ k < j, (arrSocket k).bitIs socketBitNotUsed = true
      · obtain ⟨k, hk, hbit⟩ := hbefore
        exact ih k hk hbit
      · refine ⟨j, hj, fun k hk => ?_⟩
        by_contra hbit
        exact hbefore ⟨k, hk, by simpa using hbit⟩

namespace CreateState
variable {ι : Type} [DecidableEq ι] {n : ℕ}

/-- **Undisturbed, `CreateSocket` returns null iff every slot is used, and otherwise the
lowest slot that is not, ready for the new connection.** -/
theorem createSocket_undisturbed (s : CreateState ι n) (t : ι) (newSocket : Option Handle)
    (addr port : ℕ) (hidle : s.pc t = .idle)
    (hfree : ∀ i, LowestNotUsed s.arrSocket i → s.lock i = none) :
    ∃ called r s', createStep s (.create t newSocket addr port) = some called ∧
      Returns t called r s' ∧ s'.lock = s.lock ∧
      (r = none ↔ ∀ i, (s.arrSocket i).bitIs socketBitNotUsed = false) ∧
      (r = none → s'.arrSocket = s.arrSocket) ∧
      ∀ i, r = some i → LowestNotUsed s.arrSocket i ∧
        (s'.arrSocket i).ReadyFor i newSocket addr port ∧
        ∀ j, j ≠ i → s'.arrSocket j = s.arrSocket j := by
  by_cases hany : ∃ j, (s.arrSocket j).bitIs socketBitNotUsed = true
  · obtain ⟨i, hlow⟩ := exists_lowestNotUsed hany
    have hiff : (some i : Option (Fin n)) = none ↔
        ∀ i, (s.arrSocket i).bitIs socketBitNotUsed = false := by
      refine iff_of_false (by simp) fun hused => ?_
      exact Bool.false_ne_true ((hused i).symm.trans hlow.1)
    cases hreset : (s.arrSocket i).checkResetData with
    | true =>
        refine ⟨_, some i, _, if_pos hidle, returns_of_reset (pc_goto _ _ _) hlow (hfree i hlow)
          hreset, rfl, hiff, by simp, ?_⟩
        rintro _ ⟨⟩
        refine ⟨hlow, ?_, fun j hj => Function.update_of_ne hj _ _⟩
        simp only [taken, arrSocket_goto, arrSocket_set]
        exact BGTestSocket.readyFor_claim hlow.1 hreset
    | false =>
        -- the second try finds the slot that the first one has reset
        have hforced := (s.arrSocket i).resetDataOnForce_reset
        have hrun := scan_forced (i := i) (pc_goto s t (.scan ⟨newSocket, addr, port, 2⟩ 0)) hlow
          (hfree i hlow) hreset
        have hreturns := returns_of_reset
          (s := (s.set i (s.arrSocket i).resetDataOnForce).goto t
            (.scan ⟨newSocket, addr, port, 1⟩ 0)) (i := i)
          (pc_goto _ _ _) (hlow.update hforced.1) (hfree i hlow)
          (by simpa using hforced.2)
        rw [set_goto, goto_goto] at hrun
        refine ⟨_, some i, _, if_pos hidle, hreturns.head hrun, rfl, hiff, by simp, ?_⟩
        rintro _ ⟨⟩
        refine ⟨hlow, ?_, fun j hj => ?_⟩
        · simp only [taken, arrSocket_goto, arrSocket_set]
          exact BGTestSocket.readyFor_claim hforced.1 hforced.2
        · simp only [taken, arrSocket_goto, set, Function.update_idem]
          exact Function.update_of_ne hj _ _
  · have hused : ∀ j, (s.arrSocket j).bitIs socketBitNotUsed = false := by
      intro j
      by_contra hbit
      exact hany ⟨j, by simpa using hbit⟩
    refine ⟨_, none, _, if_pos hidle, returns_null (pc_goto _ _ _) hused, rfl,
      iff_of_true rfl hused, fun _ => rfl, by simp⟩

/-- Slot 0 is used, and slot 1 is not used but still has the id of an old connection. -/
def unresetSecond : CreateState Unit 2 where
  arrSocket := fun i =>
    if i = 0 then { BGTestSocket.new 0 with nBit := socketBitConnected }
    else { BGTestSocket.new 1 with nId := 1 }
  lock := fun _ => none
  pc := fun _ => .idle
  inUse := fun _ => false

theorem createSocket_undisturbed_unreset :
    ∃ called r s', createStep unresetSecond (.create () (some 7) 1 2) = some called ∧
      Returns () called r s' ∧ s'.lock = unresetSecond.lock ∧
      (r = none ↔ ∀ i, (unresetSecond.arrSocket i).bitIs socketBitNotUsed = false) ∧
      (r = none → s'.arrSocket = unresetSecond.arrSocket) ∧
      ∀ i, r = some i → LowestNotUsed unresetSecond.arrSocket i ∧
        (s'.arrSocket i).ReadyFor i (some 7) 1 2 ∧
        ∀ j, j ≠ i → s'.arrSocket j = unresetSecond.arrSocket j :=
  createSocket_undisturbed unresetSecond () (some 7) 1 2 rfl fun _ _ => rfl

end CreateState
end BGIocpServer
