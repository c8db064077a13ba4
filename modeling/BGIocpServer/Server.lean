import BGIocpServer.BufferPool
import BGIocpServer.ReadPath
import BGIocpServer.SendSide
import BGIocpServer.Kit.Reaches

/-!
# The buffers of the server

The array `s_arrSocket`, the buffer pool, and who holds which buffer. The array is
built by the default constructor of its elements and then looped over by
`BGTestServer::Initialize`, whose loop variable is a copy of the element; the copy
dies at the end of each turn, and with it goes the reference to the read buffer
that the element still points at.

## Main definitions

* `Server`, `Server.construct`, `Server.initializeSlots`: the start of the server.
* `serverStep`: the operations on buffers after that.
* `OneOwner`: every live buffer is in exactly one place.

## Main results

* `not_one_owner`: the start itself breaks `OneOwner`, for any number of slots.
-/

namespace BGIocpServer
open Kit

/-- `BG_MAX_CLIENT_NUM` -/
def bgMaxClientNum : ℕ := 10000

/-- The part of the server that buffers live in. `held` are the pointers in the
hands of callers of `Alloc`. -/
structure Server where
  pool : BufferPool
  arrSocket : List BGTestSocket
  held : List Ptr

namespace Server

/-- The static array: the default constructor of `n` elements in turn. -/
def construct (heap : Heap) : ℕ → Server
  | 0 => ⟨.start heap, [], []⟩
  | n + 1 =>
      let s := construct heap n
      let (pReadBuf, pool) := s.pool.alloc
      { s with pool := pool, arrSocket := s.arrSocket ++ [.new pReadBuf] }

/-- The loop of `~BGIOSocket` over the write queue; `fuel` bounds its turns. -/
def freeQueue : ℕ → BufferPool → Option Ptr → BufferPool
  | 0, pool, _ => pool
  | _, pool, none => pool
  | fuel + 1, pool, some pBuf => freeQueue fuel (pool.free pBuf) (pool.heap pBuf).pNext

/-- `~BGIOSocket` -/
def destroy (pool : BufferPool) (sock : BGTestSocket) : BufferPool :=
  freeQueue pool.created (pool.release sock.pReadBuf) sock.pFirstBuf

/-- The loop of `BGTestServer::Initialize` over the sockets. Its variable is a copy:
`AddRef` counts on the copy, and the destructor of the copy runs. -/
def initializeSlots (s : Server) : Server :=
  { s with pool := s.arrSocket.foldl (fun pool sock => destroy pool sock.addRef) s.pool }

/-- Assignment to the `i`-th slot. -/
def setSocket (s : Server) (i : ℕ) (sock : BGTestSocket) : Server :=
  { s with arrSocket := s.arrSocket.set i sock }

/-- `AddRef` and `WSASend`; if it fails at once, `Release`. -/
def wsaSend (sock : BGTestSocket) (ok : Bool) : BGTestSocket :=
  if ok then sock.addRef else sock.addRef.release

/-- `BGIOSocket::Write` on the `i`-th slot. -/
def write (s : Server) (i : ℕ) (pBuffer : Ptr) (ok : Bool) : Option Server :=
  match s.arrSocket[i]? with
  | none => none
  | some sock =>
      let b := s.pool.heap pBuffer
      if b.dwSize = 0 then some { s with pool := s.pool.free pBuffer }
      else if b.dwSize > bufferSize then some { s with pool := s.pool.free pBuffer }
      else
        (sock.enqueue s.pool.heap pBuffer).map fun (e, heap, sock) =>
          let s := { s with pool.heap := heap }
          match e with
          | .first => s.setSocket i (wsaSend sock ok)
          | .coalesced => { s with pool := s.pool.free pBuffer }.setSocket i sock
          | .appended => s.setSocket i sock

/-- `BGIOSocket::WriteCallback` on the `i`-th slot. -/
def writeCallback (s : Server) (i : ℕ) (dwTransferred : ℕ) (ok : Bool) : Option Server :=
  match s.arrSocket[i]? with
  | none => none
  | some sock =>
      (sock.dequeue s.pool.heap dwTransferred).map fun (d, sock) =>
        match d with
        | .short => s.setSocket i sock
        | .more pFirstBuf =>
            { s with pool := s.pool.free pFirstBuf }.setSocket i (wsaSend sock ok)
        | .empty pFirstBuf => { s with pool := s.pool.free pFirstBuf }.setSocket i sock

/-- `BGTestSocket::Send` on the `i`-th slot. With `bAlloc` the copy is made, and it is
the caller's own buffer that is written. -/
def send (s : Server) (i : ℕ) (pBuffer : Ptr) (bAlloc ok : Bool) : Option Server :=
  if bAlloc then
    let (pNewBuffer, pool) := s.pool.alloc
    let b := pool.heap pBuffer
    let copy := { pool.heap pNewBuffer with
      buffer := store (pool.heap pNewBuffer).buffer 0 (load b.buffer 0 b.dwSize)
      dwSize := b.dwSize }
    { s with pool := pool.setBuf pNewBuffer copy }.write i pBuffer ok
  else s.write i pBuffer ok

/-- `BGIOSocket::Read` on the `i`-th slot; `ok` says whether `WSARecv` succeeds. -/
def read (s : Server) (i : ℕ) (dwLeft : ℕ) (ok : Bool) : Option Server :=
  match s.arrSocket[i]? with
  | none => none
  | some sock =>
      let p := sock.pReadBuf
      let pool := s.pool.setBuf p
        { s.pool.heap p with dwSize := dwordSub (s.pool.heap p).dwSize dwLeft }
      let (pool, sock) :=
        if (pool.heap p).nRef ≠ 1 then
          let (pNextBuf, pool) := pool.alloc
          let left := load (pool.heap p).buffer (pool.heap p).dwSize dwLeft
          let pool := pool.setBuf pNextBuf { pool.heap pNextBuf with
            buffer := store (pool.heap pNextBuf).buffer 0 left }
          (pool.release p, { sock with pReadBuf := pNextBuf })
        else
          let left := load (pool.heap p).buffer (pool.heap p).dwSize dwLeft
          (pool.setBuf p { pool.heap p with buffer := store (pool.heap p).buffer 0 left }, sock)
      let pool := pool.setBuf sock.pReadBuf { pool.heap sock.pReadBuf with dwSize := dwLeft }
      let sock := sock.addRef
      some ({ s with pool := pool }.setSocket i (if ok then sock else sock.close))

end Server

/-- The operations on buffers. -/
inductive ServerAct
  /-- A caller gets a buffer from `Alloc`. -/
  | alloc
  /-- The caller that holds `p` fills it. -/
  | fill (p : Ptr) (data : List UInt8)
  /-- `Send` of a buffer that the caller holds; with `bAlloc` the caller keeps it. -/
  | send (i : ℕ) (p : Ptr) (bAlloc ok : Bool)
  /-- `Write` of a buffer that the caller holds. -/
  | write (i : ℕ) (p : Ptr) (ok : Bool)
  /-- `WriteCallback` -/
  | writeCallback (i : ℕ) (dwTransferred : ℕ) (ok : Bool)
  /-- `Read` -/
  | read (i : ℕ) (dwLeft : ℕ) (ok : Bool)
  /-- The caller that holds `p` calls `p->Release()`. -/
  | release (p : Ptr)
  /-- The caller that holds `p` calls `p->Free()`. -/
  | free (p : Ptr)

/-- One operation; a caller only uses a pointer that it holds. -/
def serverStep (s : Server) : ServerAct → Option Server
  | .alloc =>
      let (p, pool) := s.pool.alloc
      some { s with pool := pool, held := p :: s.held }
  | .fill p data =>
      if p ∈ s.held then some { s with pool := s.pool.setBuf p ((s.pool.heap p).fill data) }
      else none
  | .send i p bAlloc ok =>
      if p ∈ s.held then
        (s.send i p bAlloc ok).map fun s' =>
          if bAlloc then s' else { s' with held := s'.held.erase p }
      else none
  | .write i p ok =>
      if p ∈ s.held then (s.write i p ok).map fun s' => { s' with held := s'.held.erase p }
      else none
  | .writeCallback i dwTransferred ok => s.writeCallback i dwTransferred ok
  | .read i dwLeft ok => s.read i dwLeft ok
  | .release p =>
      if p ∈ s.held then some { s with pool := s.pool.release p, held := s.held.erase p } else none
  | .free p =>
      if p ∈ s.held then some { s with pool := s.pool.free p, held := s.held.erase p } else none

/-- The write queues of the slots are `queues` and the free lists are `free`. -/
structure Server.Placed (s : Server) (queues : List (List Ptr)) (free : ℕ → List Ptr) : Prop where
  queues : List.Forall₂ (fun sock ids => Chain (fun p => (s.pool.heap p).pNext) sock.pFirstBuf ids)
    s.arrSocket queues
  free : s.pool.FreeLists free

/-- The places of buffers: read buffers, write queues, free lists, callers. -/
def Server.places (s : Server) (queues : List (List Ptr)) (free : ℕ → List Ptr) : List Ptr :=
  s.arrSocket.map (fun sock => sock.pReadBuf) ++ queues.flatten ++
    (List.range bufferPoolSize).flatMap free ++ s.held

/-- Every buffer that was created and not deleted is in exactly one place. -/
def OneOwner (s : Server) : Prop :=
  ∃ queues free, s.Placed queues free ∧
    ∀ p, p < s.pool.created → s.pool.deleted p = false → (s.places queues free).count p = 1

/-! ## What the start leaves -/

/-- The array as its constructor leaves it: each slot has a read buffer of its own. -/
theorem construct_spec (heap : Heap) (n : ℕ) :
    (Server.construct heap n).arrSocket = (List.range n).map .new ∧
      (Server.construct heap n).pool.created = n ∧
      (∀ k, (Server.construct heap n).pool.slotBuffer k = none) ∧
      (Server.construct heap n).pool.nStop = false ∧
      (∀ p, (Server.construct heap n).pool.deleted p = false) ∧
      (∀ p < n, ((Server.construct heap n).pool.heap p).nRef = 1) := by
  induction n with
  | zero => exact ⟨rfl, rfl, fun _ => rfl, rfl, fun _ => rfl, fun p hp => absurd hp (by omega)⟩
  | succ n ih =>
      obtain ⟨harr, hcreated, hslot, hstop, hdel, href⟩ := ih
      simp only [Server.construct, BufferPool.alloc_empty hslot, hcreated, harr]
      refine ⟨by rw [List.range_succ, List.map_append]; rfl, trivial, hslot, hstop, hdel, ?_⟩
      intro p hp
      by_cases hpn : p = n
      · subst hpn
        rw [Function.update_self]
        rfl
      · rw [Function.update_of_ne hpn]
        exact href p (by omega)

/-- The loop frees the read buffer of every socket of the list, each of which holds
its last reference. -/
theorem foldl_destroy_spec (socks : List BGTestSocket) {pool : BufferPool} {free : ℕ → List Ptr}
    (hfree : pool.FreeLists free) (hstop : pool.nStop = false)
    (hqueue : ∀ sock ∈ socks, sock.pFirstBuf = none)
    (href : ∀ sock ∈ socks, (pool.heap sock.pReadBuf).nRef = 1 ∧ ∀ k, sock.pReadBuf ∉ free k)
    (hnodup : (socks.map fun sock => sock.pReadBuf).Nodup) :
    let pool' := socks.foldl (fun pool sock => Server.destroy pool sock.addRef) pool
    pool'.created = pool.created ∧ pool'.deleted = pool.deleted ∧
      ∃ free', pool'.FreeLists free' ∧ (∀ k p, p ∈ free k → p ∈ free' k) ∧
        ∀ sock ∈ socks, ∃ k < bufferPoolSize, sock.pReadBuf ∈ free' k := by
  induction socks generalizing pool free with
  | nil => exact ⟨rfl, rfl, free, hfree, fun _ _ h => h, fun _ h => absurd h List.not_mem_nil⟩
  | cons sock socks ih =>
      obtain ⟨hone, hnot⟩ := href sock List.mem_cons_self
      obtain ⟨⟨i, hi, hlists⟩, hstop', hcreated, hdel, hheap⟩ :=
        BufferPool.release_last hfree hstop hone hnot
      rw [List.map_cons, List.nodup_cons] at hnodup
      have hdestroy : Server.destroy pool sock.addRef = pool.release sock.pReadBuf := by
        have hnone : sock.addRef.pFirstBuf = none := hqueue sock List.mem_cons_self
        rw [Server.destroy, hnone]
        cases pool.created <;> rfl
      have hne : ∀ other ∈ socks, other.pReadBuf ≠ sock.pReadBuf := by
        intro other hother heq
        exact hnodup.1 (heq ▸ List.mem_map_of_mem hother)
      have hmono : ∀ k p, p ∈ free k →
          p ∈ Function.update free i (sock.pReadBuf :: free i) k := by
        intro k p hp
        by_cases hk : k = i
        · subst hk
          rw [Function.update_self]
          exact List.mem_cons_of_mem _ hp
        · rwa [Function.update_of_ne hk]
      obtain ⟨hcreated', hdel', free', hfree', hkeep, hall⟩ := ih hlists hstop'
        (fun other hother => hqueue other (List.mem_cons_of_mem _ hother))
        (by
          intro other hother
          obtain ⟨hone', hnot'⟩ := href other (List.mem_cons_of_mem _ hother)
          refine ⟨by rwa [hheap _ (hne other hother)], fun k hk => ?_⟩
          by_cases hki : k = i
          · subst hki
            rw [Function.update_self, List.mem_cons] at hk
            rcases hk with hk | hk
            · exact hne other hother hk
            · exact hnot' k hk
          · rw [Function.update_of_ne hki] at hk
            exact hnot' k hk)
        hnodup.2
      simp only [List.foldl_cons, hdestroy]
      refine ⟨hcreated'.trans hcreated, hdel'.trans hdel, free', hfree',
        fun k p hp => hkeep k p (hmono k p hp), ?_⟩
      intro other hother
      rcases List.mem_cons.mp hother with rfl | hother
      · exact ⟨i, hi, hkeep i _ (by rw [Function.update_self]; exact List.mem_cons_self)⟩
      · exact hall other hother

/-- After `Initialize` the slots are as they were constructed, their read buffers
live, and each read buffer is on a free list. -/
theorem initializeSlots_spec (heap : Heap) (n : ℕ) :
    let s := (Server.construct heap n).initializeSlots
    s.arrSocket = (List.range n).map .new ∧ s.pool.created = n ∧
      (∀ p, s.pool.deleted p = false) ∧
      ∃ free, s.pool.FreeLists free ∧ ∀ p < n, ∃ k < bufferPoolSize, p ∈ free k := by
  obtain ⟨harr, hcreated, hslot, hstop, hdel, href⟩ := construct_spec heap n
  have hempty : (Server.construct heap n).pool.FreeLists fun _ => [] := fun k => hslot k
  have hloop := foldl_destroy_spec (Server.construct heap n).arrSocket hempty hstop
    (by
      intro sock hsock
      rw [harr, List.mem_map] at hsock
      obtain ⟨p, -, rfl⟩ := hsock
      rfl)
    (by
      intro sock hsock
      rw [harr, List.mem_map] at hsock
      obtain ⟨p, hp, rfl⟩ := hsock
      exact ⟨href p (List.mem_range.mp hp), fun _ => List.not_mem_nil⟩)
    (by
      rw [harr, List.map_map]
      exact (List.map_id _).symm ▸ List.nodup_range)
  obtain ⟨hcreated', hdel', free, hfree, -, hall⟩ := hloop
  refine ⟨harr, hcreated'.trans hcreated, fun p => ?_, free, hfree, fun p hp => ?_⟩
  · exact (congrFun hdel' p).trans (hdel p)
  · exact hall (.new p) (by rw [harr]; exact List.mem_map_of_mem (List.mem_range.mpr hp))

/-- With a slot or more, the state that `Initialize` leaves has a buffer in two
places. -/
theorem initializeSlots_not_oneOwner (heap : Heap) (n : ℕ) :
    ¬ OneOwner (Server.construct heap (n + 1)).initializeSlots := by
  obtain ⟨harr, hcreated, hdel, lists, hlists, hall⟩ := initializeSlots_spec heap (n + 1)
  rintro ⟨queues, free, hplaced, hone⟩
  obtain ⟨k, hk, hmem⟩ := hall 0 (by omega)
  have hsame : free k = lists k := (hplaced.free k).unique (hlists k)
  have hcount := hone 0 (by rw [hcreated]; omega) (hdel 0)
  have hread : 0 < ((Server.construct heap (n + 1)).initializeSlots.arrSocket.map
      fun sock => sock.pReadBuf).count 0 := by
    rw [List.count_pos_iff, harr, List.mem_map]
    exact ⟨.new 0, List.mem_map_of_mem (List.mem_range.mpr (by omega)), rfl⟩
  have hfreed : 0 < ((List.range bufferPoolSize).flatMap free).count 0 := by
    rw [List.count_pos_iff, List.mem_flatMap]
    exact ⟨k, List.mem_range.mpr hk, hsame ▸ hmem⟩
  simp only [Server.places, List.count_append] at hcount
  omega

/-- **A buffer with two owners**: whatever the number of slots, not every state
reachable after `Initialize` has one owner for each buffer. -/
theorem not_one_owner (heap : Heap) (n : ℕ) :
    ¬ ∀ s, Reaches serverStep Always (Server.construct heap (n + 1)).initializeSlots s →
      OneOwner s :=
  fun h => initializeSlots_not_oneOwner heap n (h _ .refl)

/-- The server with its `BG_MAX_CLIENT_NUM` slots. -/
theorem not_one_owner_maxClient :
    ¬ ∀ s, Reaches serverStep Always
      (Server.construct (fun _ => .blank) bgMaxClientNum).initializeSlots s → OneOwner s :=
  fun h => initializeSlots_not_oneOwner _ 9999 (h _ .refl)

end BGIocpServer
