import BGIocpServer.Slots

/-!
# The game worlds

`BGGameWorld` with the objects of `m_arrObject`: how `BGTestServer::Initialize` fills the
worlds, and how `AddPlayer` looks for a player. An object is part of the world that has
created it, a null entry is `none`, and a null pointer that is followed makes the whole
call `none`. What a constructor leaves unset is a parameter. The names of the objects,
which nothing reads, are left out.

## Main definitions

* `WorldObject`, `BGGameWorld`: the data.
* `BGGameWorld.init`, `initializeWorlds`: start-up.
* `BGGameWorld.addPlayer`: the search for a player.

## Main results

* `not_populated`: start-up leaves every world empty.
* `addPlayer_takes_iff`: `AddPlayer` takes the first free player exactly if that one has
  had a socket, or something else, in `m_pSocket`.
-/

namespace BGIocpServer

variable {n : ℕ}

/-- `ObjectType` -/
inductive ObjectType
  | testBasicMonster
  | player
  | none
  deriving DecidableEq, Repr

/-- `static_cast<unsigned char>` of an object type. -/
def ObjectType.value : ObjectType → ℤ
  | .testBasicMonster => 0
  | .player => 1
  | .none => 2

structure Position where
  x : ℤ
  y : ℤ
  deriving DecidableEq, Repr

/-- The fields of `BGGameObject` that worlds and logins use. -/
structure BGGameObject where
  nGameWorIdIndex : ℤ
  nObjectId : ℤ
  eObjectType : ObjectType
  position : Position
  /-- How often `m_lock` has been entered and not left. -/
  lock : ℕ
  deriving DecidableEq, Repr

namespace BGGameObject

/-- `Lock` -/
def enter (o : BGGameObject) : BGGameObject := { o with lock := o.lock + 1 }
/-- `Unlock` -/
def leave (o : BGGameObject) : BGGameObject := { o with lock := o.lock - 1 }

@[simp] theorem leave_enter (o : BGGameObject) : o.enter.leave = o := rfl

end BGGameObject

/-- What an entry of `m_arrObject` points at. -/
inductive WorldObject (n : ℕ)
  | monster (object : BGGameObject)
  | player (object : BGGameObject) (fields : BGTestPlayer n)

/-- The base class of an object. -/
def WorldObject.object : WorldObject n → BGGameObject
  | .monster object => object
  | .player object _ => object

/-- What the constructors of the objects of a world find in their memory. -/
structure Unset (n : ℕ) where
  nObjectId : ℕ → ℤ
  position : ℕ → Position
  pSocket : ℕ → Option (SocketPtr n)

structure BGGameWorld (n : ℕ) where
  nId : ℤ
  nNPCNum : ℕ
  /-- `m_arrObject`, of `BG_MAX_OBJECT_NUM` entries. -/
  arrObject : List (Option (WorldObject n))

/-! ## Start-up -/

/-- The constructor of `BGGameObject`, for the object that will have this index. -/
def newObject (unset : Unset n) (nGameWorIdIndex : ℤ) (objectType : ObjectType) (i : ℕ) :
    BGGameObject where
  nGameWorIdIndex := nGameWorIdIndex
  nObjectId := unset.nObjectId i
  eObjectType := objectType
  position := unset.position i
  lock := 0

/-- `new BGTestBasicMonster(m_nId)` -/
def newMonster (unset : Unset n) (nId : ℤ) (i : ℕ) : WorldObject n :=
  .monster (newObject unset nId .testBasicMonster i)

/-- `new BGTestPlayer(m_nId)` -/
def newPlayer (unset : Unset n) (nId : ℤ) (i : ℕ) : WorldObject n :=
  .player (newObject unset nId .player i) { bConnected := false, pSocket := unset.pSocket i }

/-- `for (int i = lo; i < hi; i++) arr[i] = f(i);` -/
def assignFrom {α : Type} (f : ℕ → α) (lo hi : ℕ) (arr : List (Option α)) : List (Option α) :=
  arr.mapIdx fun i entry => if lo ≤ i ∧ i < hi then some (f i) else entry

/-- `BGGameWorld::Initialize` -/
def BGGameWorld.init (world : BGGameWorld n) (id : ℤ) (unset : Unset n) : BGGameWorld n :=
  let monsters := assignFrom (newMonster unset id) 0 world.nNPCNum world.arrObject
  let objects := assignFrom (newPlayer unset id) world.nNPCNum world.arrObject.length monsters
  { world with nId := id, arrObject := objects }

/-- `for (T object : arr) f(object)`: each turn works on a copy of its element. The array
and the copies. -/
def forEachCopy {α : Type} (f : ℕ → α → α) (arr : List α) : List α × List α := (arr, arr.mapIdx f)

/-- The loop of `BGTestServer::Initialize` over `s_arrGameWorld`. -/
def initializeWorlds (unset : ℕ → Unset n) (arrGameWorld : List (BGGameWorld n)) :
    List (BGGameWorld n) × List (BGGameWorld n) :=
  forEachCopy (fun index object => object.init index (unset index)) arrGameWorld

/-- A world of the static array before `Initialize`: its memory is zeroed. -/
def BGGameWorld.static (n nNPCNum maxObject : ℕ) : BGGameWorld n where
  nId := 0
  nNPCNum := nNPCNum
  arrObject := List.replicate maxObject none

/-- The world with index `id` is ready for its clients. -/
structure BGGameWorld.Populated (world : BGGameWorld n) (id : ℤ) : Prop where
  entry : ∀ i, i < world.arrObject.length → ∃ object, world.arrObject[i]? = some (some object) ∧
    object.object.nGameWorIdIndex = id ∧
    object.object.eObjectType = if i < world.nNPCNum then .testBasicMonster else .player
  distinct : ∀ (i j : ℕ) (object object' : WorldObject n),
    world.arrObject[i]? = some (some object) → world.arrObject[j]? = some (some object') →
    object.object.nObjectId = object'.object.nObjectId → i = j

/-- Start-up populates the worlds. -/
def WorldsPopulated (arrGameWorld : List (BGGameWorld n)) : Prop :=
  ∀ (w : ℕ) (world : BGGameWorld n), arrGameWorld[w]? = some world → world.Populated w

theorem assignFrom_getElem? {α : Type} (f : ℕ → α) (lo hi : ℕ) (arr : List (Option α)) (i : ℕ) :
    (assignFrom f lo hi arr)[i]? =
      (arr[i]?).map fun entry => if lo ≤ i ∧ i < hi then some (f i) else entry := by
  simp [assignFrom, List.getElem?_mapIdx]

@[simp] theorem length_assignFrom {α : Type} (f : ℕ → α) (lo hi : ℕ) (arr : List (Option α)) :
    (assignFrom f lo hi arr).length = arr.length := List.length_mapIdx ..

namespace BGGameWorld
variable {world : BGGameWorld n} {id : ℤ} {unset : Unset n} {i : ℕ}

@[simp] theorem length_init (world : BGGameWorld n) (id : ℤ) (unset : Unset n) :
    (world.init id unset).arrObject.length = world.arrObject.length := by
  simp [init]

/-- Every entry of a world on which `Initialize` is called. -/
theorem init_getElem? (hi : i < world.arrObject.length) :
    (world.init id unset).arrObject[i]? = some (some
      (if i < world.nNPCNum then newMonster unset id i else newPlayer unset id i)) := by
  simp only [init, assignFrom_getElem?, List.getElem?_eq_getElem hi, Option.map_some]
  by_cases hnpc : i < world.nNPCNum
  · have hplayer : ¬(world.nNPCNum ≤ i ∧ i < world.arrObject.length) := by omega
    simp [hplayer, hnpc]
  · have hplayer : world.nNPCNum ≤ i ∧ i < world.arrObject.length := by omega
    simp [hplayer, hnpc]

/-- `Initialize` does populate the world it is called on, but for the ids: nobody sets
`m_nObjectId`. -/
theorem init_populated_iff : (world.init id unset).Populated id ↔
    ∀ i j, i < world.arrObject.length → j < world.arrObject.length →
      unset.nObjectId i = unset.nObjectId j → i = j := by
  have hid : ∀ i, (if i < world.nNPCNum then newMonster unset id i
      else newPlayer unset id i).object.nObjectId = unset.nObjectId i := by
    intro i
    split <;> rfl
  constructor
  · intro h i j hi hj heq
    refine h.distinct i j _ _ (init_getElem? hi) (init_getElem? hj) ?_
    rw [hid, hid, heq]
  · intro h
    refine ⟨fun i hi => ⟨_, init_getElem? (by simpa using hi), ?_⟩, ?_⟩
    · change _ ∧ _ = if i < world.nNPCNum then _ else _
      split <;> exact ⟨rfl, rfl⟩
    · intro i j object object' hobject hobject' heq
      have hi : i < world.arrObject.length := by
        simpa using (List.getElem?_eq_some_iff.mp hobject).1
      have hj : j < world.arrObject.length := by
        simpa using (List.getElem?_eq_some_iff.mp hobject').1
      rw [init_getElem? hi, Option.some.injEq, Option.some.injEq] at hobject
      rw [init_getElem? hj, Option.some.injEq, Option.some.injEq] at hobject'
      subst hobject hobject'
      rw [hid, hid] at heq
      exact h i j hi hj heq

end BGGameWorld

/-! ## `AddPlayer` -/

namespace BGGameWorld

/-- Assignment to the object at this index. -/
def setObject (world : BGGameWorld n) (i : ℕ) (object : WorldObject n) : BGGameWorld n :=
  { world with arrObject := world.arrObject.set i (some object) }

/-- The loop of `AddPlayer` over these indices. -/
def addPlayerOver : List ℕ → BGGameWorld n → Option (Option ℕ × BGGameWorld n)
  | [], world => some (none, world)
  | i :: is, world =>
      match world.arrObject[i]? with
      | some (some (.player object fields)) =>
          let world := world.setObject i (.player object.enter fields)
          let unlock (fields : BGTestPlayer n) : BGGameWorld n :=
            world.setObject i (.player object.enter.leave fields)
          if fields.isConnected then addPlayerOver is (unlock fields)
          else
            match fields.connect with
            | (true, fields) => some (some i, unlock fields)
            | (false, fields) => addPlayerOver is (unlock fields)
      -- a null pointer, or not a player
      | _ => none

/-- The indices of the loop of `AddPlayer`. -/
def playerIndices (world : BGGameWorld n) : List ℕ :=
  List.range' world.nNPCNum (world.arrObject.length - world.nNPCNum)

/-- `AddPlayer` -/
def addPlayer (world : BGGameWorld n) : Option (Option ℕ × BGGameWorld n) :=
  world.addPlayerOver world.playerIndices

/-- The player at this index. -/
def playerAt (world : BGGameWorld n) (i : ℕ) : Option (BGTestPlayer n) :=
  match world.arrObject[i]? with
  | some (some (.player _ fields)) => some fields
  | _ => none

/-- The entry is a player that is not connected. -/
def isFree (world : BGGameWorld n) (i : ℕ) : Bool :=
  (world.playerAt i).any fun fields => !fields.isConnected

/-- The entry is a player whose `m_pSocket` is not null. -/
def hasSocket (world : BGGameWorld n) (i : ℕ) : Bool :=
  (world.playerAt i).any fun fields => fields.pSocket.isSome

/-- The same world, the player at this index connected. -/
def connectAt (world : BGGameWorld n) (i : ℕ) : BGGameWorld n :=
  match world.arrObject[i]? with
  | some (some (.player object fields)) =>
      world.setObject i (.player object { fields with bConnected := true })
  | _ => world

/-- From `m_nNPCNum` on, every entry is a player. -/
def HasPlayers (world : BGGameWorld n) : Prop :=
  ∀ i ∈ world.playerIndices, ∃ object fields,
    world.arrObject[i]? = some (some (.player object fields))

/-- No lock of a player is held. -/
def Unlocked (world : BGGameWorld n) : Prop :=
  ∀ (i : ℕ) (object : BGGameObject) (fields : BGTestPlayer n),
    world.arrObject[i]? = some (some (.player object fields)) → object.lock = 0

/-- What `AddPlayer` is for. -/
structure AddPlayerTakes (world : BGGameWorld n) (result : Option ℕ) (world' : BGGameWorld n) :
    Prop where
  null_iff : result = none ↔ ∀ i ∈ world.playerIndices, world.isFree i = false
  lowest : ∀ i, result = some i → i ∈ world.playerIndices ∧ world.isFree i = true ∧
    ∀ j ∈ world.playerIndices, j < i → world.isFree j = false
  /-- Only that player changes, and it is connected. -/
  others : world' = result.elim world world.connectAt
  unlocked : world'.Unlocked

/-- A world after `Initialize`, its players as logins and logouts have left them. -/
def occupied (world : BGGameWorld n) (id : ℤ) (unset : Unset n) (fields : ℕ → BGTestPlayer n) :
    BGGameWorld n :=
  { world.init id unset with
    arrObject := (world.init id unset).arrObject.mapIdx fun i entry =>
      entry.map fun object =>
        match object with
        | .monster object => .monster object
        | .player object _ => .player object (fields i) }

section Search
variable {world : BGGameWorld n} {i : ℕ} {object : BGGameObject} {fields : BGTestPlayer n}

theorem mem_playerIndices :
    i ∈ world.playerIndices ↔ world.nNPCNum ≤ i ∧ i < world.arrObject.length := by
  rw [playerIndices, List.mem_range'_1]
  omega

theorem setObject_eq_self {o : WorldObject n} (h : world.arrObject[i]? = some (some o)) :
    world.setObject i o = world := by
  obtain ⟨hi, hget⟩ := List.getElem?_eq_some_iff.mp h
  simp only [setObject, ← hget, List.set_getElem_self]

@[simp] theorem setObject_setObject (o o' : WorldObject n) :
    (world.setObject i o).setObject i o' = world.setObject i o' := by
  simp [setObject]

theorem playerAt_of (h : world.arrObject[i]? = some (some (.player object fields))) :
    world.playerAt i = some fields := by
  simp [playerAt, h]

theorem isFree_of (h : world.arrObject[i]? = some (some (.player object fields))) :
    world.isFree i = !fields.isConnected := by
  simp [isFree, playerAt_of h]

theorem hasSocket_of (h : world.arrObject[i]? = some (some (.player object fields))) :
    world.hasSocket i = fields.pSocket.isSome := by
  simp [hasSocket, playerAt_of h]

/-- The loop finds the first player that is free and has a socket, and every lock that
it has entered it has left. -/
theorem addPlayerOver_eq (is : List ℕ) (h : ∀ i ∈ is, ∃ object fields,
    world.arrObject[i]? = some (some (.player object fields))) :
    world.addPlayerOver is =
      let result := is.find? fun i => world.isFree i && world.hasSocket i
      some (result, result.elim world world.connectAt) := by
  induction is with
  | nil => rfl
  | cons i is ih =>
      obtain ⟨object, fields, hi⟩ := h i List.mem_cons_self
      have ih := ih fun j hj => h j (List.mem_cons_of_mem _ hj)
      rw [addPlayerOver, hi]
      simp only [setObject_setObject, BGGameObject.leave_enter, List.find?_cons, isFree_of hi,
        hasSocket_of hi]
      cases hc : fields.isConnected with
      | true => simpa [setObject_eq_self hi] using ih
      | false =>
          cases hs : fields.pSocket with
          | none => simpa [BGTestPlayer.connect, hs, setObject_eq_self hi] using ih
          | some pSocket => simp [BGTestPlayer.connect, hs, connectAt, hi]

theorem addPlayer_eq (h : world.HasPlayers) :
    world.addPlayer =
      let result := world.playerIndices.find? fun i => world.isFree i && world.hasSocket i
      some (result, result.elim world world.connectAt) :=
  addPlayerOver_eq _ h

theorem Unlocked.connectAt (h : world.Unlocked) (j : ℕ) : (world.connectAt j).Unlocked := by
  intro i object fields hi
  rw [BGGameWorld.connectAt] at hi
  split at hi
  case h_1 object' fields' hj =>
    by_cases hij : j = i
    · subst hij
      have hlen := (List.getElem?_eq_some_iff.mp hj).1
      rw [setObject, List.getElem?_set_self hlen, Option.some.injEq, Option.some.injEq,
        WorldObject.player.injEq] at hi
      exact hi.1 ▸ h j object' fields' hj
    · rw [setObject, List.getElem?_set_ne hij] at hi
      exact h i object fields hi
  case h_2 => exact h i object fields hi

/-- In a world of players, the search is right exactly if the first free player has a
socket. -/
theorem takes_iff (h : world.HasPlayers) (hlock : world.Unlocked) :
    (∃ result world', world.addPlayer = some (result, world') ∧
      world.AddPlayerTakes result world') ↔
    ∀ i, world.playerIndices.find? world.isFree = some i → world.hasSocket i = true := by
  rw [addPlayer_eq h]
  simp only [Option.some.injEq, Prod.mk.injEq]
  constructor
  · rintro ⟨result, _, ⟨hresult, rfl⟩, htakes⟩ i hi
    obtain ⟨hfree, hmem, hfirst⟩ := List.find?_range'_eq_some.mp hi
    cases result with
    | none =>
        have hnone := htakes.null_iff.mp rfl i hmem
        rw [hfree] at hnone
        exact absurd hnone (by decide)
    | some j =>
        have hj := List.find?_range'_eq_some.mp hresult
        rw [Bool.and_eq_true] at hj
        obtain ⟨-, hjfree, hlowest⟩ := htakes.lowest j rfl
        -- two indices that are each the lowest free one
        have hij : i = j := by
          by_contra hne
          rcases Nat.lt_or_gt_of_ne hne with hlt | hgt
          · simp [hlowest i hmem hlt] at hfree
          · simpa [hjfree] using hfirst j (mem_playerIndices.mp hj.2.1).1 hgt
        exact hij ▸ hj.1.2
  · intro hcond
    have hboth : (world.playerIndices.find? fun i => world.isFree i && world.hasSocket i) =
        world.playerIndices.find? world.isFree := by
      cases hfind : world.playerIndices.find? world.isFree with
      | none =>
          rw [List.find?_eq_none] at hfind ⊢
          intro i hi
          simp [hfind i hi]
      | some i =>
          obtain ⟨hfree, hmem, hfirst⟩ := List.find?_range'_eq_some.mp hfind
          refine List.find?_range'_eq_some.mpr ⟨?_, hmem, fun j hj hji => ?_⟩
          · rw [hfree, hcond i hfind]
            rfl
          · have hnot := hfirst j hj hji
            rw [Bool.not_eq_true'] at hnot
            simp [hnot]
    refine ⟨_, _, ⟨rfl, rfl⟩, ?_⟩
    rw [hboth]
    refine ⟨?_, fun i hi => ?_, rfl, ?_⟩
    · rw [List.find?_eq_none]
      simp
    · obtain ⟨hfree, hmem, hfirst⟩ := List.find?_range'_eq_some.mp hi
      refine ⟨hmem, hfree, fun j hj hji => ?_⟩
      simpa using hfirst j (mem_playerIndices.mp hj).1 hji
    · cases world.playerIndices.find? world.isFree with
      | none => exact hlock
      | some i => exact hlock.connectAt i

end Search

section Occupied
variable {world : BGGameWorld n} {id : ℤ} {unset : Unset n} {fields : ℕ → BGTestPlayer n} {i : ℕ}

theorem occupied_getElem? (hi : i < world.arrObject.length) :
    (world.occupied id unset fields).arrObject[i]? = some (some
      (if i < world.nNPCNum then newMonster unset id i
        else .player (newObject unset id .player i) (fields i))) := by
  simp only [occupied, List.getElem?_mapIdx, init_getElem? hi, Option.map_some]
  by_cases hnpc : i < world.nNPCNum <;> simp [hnpc, newMonster, newPlayer]

@[simp] theorem length_occupied :
    (world.occupied id unset fields).arrObject.length = world.arrObject.length := by
  simp [occupied]

theorem occupied_hasPlayers : (world.occupied id unset fields).HasPlayers := by
  intro i hi
  obtain ⟨hnpc, hlen⟩ := mem_playerIndices.mp hi
  change world.nNPCNum ≤ i at hnpc
  rw [length_occupied] at hlen
  rw [occupied_getElem? hlen, if_neg (by omega)]
  exact ⟨_, _, rfl⟩

theorem occupied_unlocked : (world.occupied id unset fields).Unlocked := by
  intro i object player h
  have hi : i < world.arrObject.length := by
    simpa using (List.getElem?_eq_some_iff.mp h).1
  rw [occupied_getElem? hi, Option.some.injEq, Option.some.injEq] at h
  split at h
  · exact absurd h (by simp [newMonster])
  · rw [WorldObject.player.injEq] at h
    rw [← h.1]
    rfl

end Occupied
/-- Where `Initialize` was called on a copy, the first entry that the search looks at is
null. -/
theorem addPlayer_static {nNPCNum maxObject : ℕ} (h : nNPCNum < maxObject) :
    (BGGameWorld.static n nNPCNum maxObject).addPlayer = none := by
  obtain ⟨k, rfl⟩ := Nat.exists_eq_add_of_lt h
  have hindices : (BGGameWorld.static n nNPCNum (nNPCNum + k + 1)).playerIndices =
      nNPCNum :: List.range' (nNPCNum + 1) k := by
    rw [playerIndices, ← List.range'_succ]
    congr 1
    simp [BGGameWorld.static]
    omega
  have hnull : (BGGameWorld.static n nNPCNum (nNPCNum + k + 1)).arrObject[nNPCNum]? =
      some none := by
    simp only [BGGameWorld.static, List.getElem?_replicate, if_pos h]
  rw [addPlayer, hindices, addPlayerOver, hnull]

end BGGameWorld

/-- **Start-up leaves every world empty**: with any number of worlds and objects, no
entry of a world is set, and `AddPlayer` follows a null pointer in each of them. -/
theorem not_populated (worlds objects nNPCNum : ℕ) (unset : ℕ → Unset n) :
    let arrGameWorld := (initializeWorlds unset
      (List.replicate (worlds + 1) (BGGameWorld.static n nNPCNum (objects + 1)))).1
    ¬WorldsPopulated arrGameWorld ∧ ∀ world ∈ arrGameWorld,
      (∀ id, ¬world.Populated id) ∧ (nNPCNum < objects + 1 → world.addPlayer = none) := by
  have hempty (id : ℤ) : ¬(BGGameWorld.static n nNPCNum (objects + 1)).Populated id := by
    intro h
    obtain ⟨object, hget, -⟩ := h.entry 0 (by simp [BGGameWorld.static])
    simp [BGGameWorld.static] at hget
  refine ⟨fun h => hempty _ (h 0 _ (by simp [initializeWorlds, forEachCopy])), ?_⟩
  intro world hworld
  obtain rfl := List.eq_of_mem_replicate hworld
  exact ⟨hempty, BGGameWorld.addPlayer_static⟩

/-- One world of one monster and one player. -/
theorem not_populated_single :
    ¬WorldsPopulated (initializeWorlds (fun _ => ⟨fun i => i, fun _ => ⟨0, 0⟩, fun _ => none⟩)
      [BGGameWorld.static 1 1 2]).1 := by
  intro h
  obtain ⟨object, hget, -⟩ := (h 0 _ rfl).entry 0 (by decide)
  exact absurd hget (by simp [BGGameWorld.static])

/-- **When `AddPlayer` takes the player it should take**: in a world on which
`Initialize` has been called, whoever is connected, `AddPlayer` takes the first free
player, or returns null if there is none, exactly if the `m_pSocket` of that player is
not null. -/
theorem addPlayer_takes_iff (world : BGGameWorld n) (id : ℤ) (unset : Unset n)
    (fields : ℕ → BGTestPlayer n) :
    let w := world.occupied id unset fields
    (∃ result w', w.addPlayer = some (result, w') ∧ w.AddPlayerTakes result w') ↔
      ∀ i, w.playerIndices.find? w.isFree = some i → w.hasSocket i = true :=
  BGGameWorld.takes_iff BGGameWorld.occupied_hasPlayers BGGameWorld.occupied_unlocked

/-- One player that has never been used, in memory that was zero: `AddPlayer` returns
null. -/
theorem not_addPlayer_takes_fresh :
    let unset : Unset 1 := ⟨fun _ => 0, fun _ => ⟨0, 0⟩, fun _ => none⟩
    let w := (BGGameWorld.static 1 0 1).init 0 unset
    (w.addPlayer.map (·.1)) = some none ∧ w.isFree 0 = true ∧
      ¬∃ result w', w.addPlayer = some (result, w') ∧ w.AddPlayerTakes result w' := by
  refine ⟨rfl, rfl, ?_⟩
  rintro ⟨result, w', heq, htakes⟩
  obtain ⟨rfl, -⟩ := Prod.mk.inj (Option.some.inj heq)
  have hfree := htakes.null_iff.mp rfl 0 (by decide)
  exact absurd hfree (by decide)

end BGIocpServer
