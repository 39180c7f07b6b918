import DpuOffload.Cache.Revoke
import DpuOffload.Lib.Transition

/-!
# The memory of the group caches

What a group cache points at: its own arrays, hashes and bitsets, and the objects of its two
hashes, which come from pools shared by all groups (`free_sp_cache_hash_obj`,
`free_host_cache_hash_obj`) and have pointers of their own. The pointers are created when a group is looked
up, when it learns its size, when a rank is added, and when the lookup tables are filled. A revoke
releases them (`GROUP_CACHE_HASHES_FINI`, `RESET_GROUP_CACHE`).

A pointer is `none` when it is `NULL`, otherwise the number of an allocation. The memory of a hash object has any
contents until it is written: the chunks of a pool come from `malloc`. The values are those of
`GroupCache`; a hash has the keys of the values, and the address of an object for each key. A group that
is not in the table of groups is as the pool of group caches hands it out. `ranks_initialized` is left out,
which nothing reads.

Each step is a macro or function that touches a pointer, for any group; the callbacks are made of such
steps and of writes to the values. An access that leaves its array is undefined in C: it is recorded in `fault`,
which stays set.
-/

namespace DpuOffload

/-! ### Pools -/

/-- `dyn_list_t`. The elements are numbered as they are allocated. -/
structure DynList where
  /-- How many elements a growth adds. -/
  allocationSize : ℕ
  /-- How many elements were allocated. -/
  capacity : ℕ
  /-- The elements in the pool. -/
  list : List ℕ

namespace DynList

variable (d : DynList)

/-- `GROW_DYN_LIST`: the elements of the new chunk are put in front, one after the other. -/
def grow : DynList :=
  { d with
    capacity := d.capacity + d.allocationSize
    list := (List.range' d.capacity d.allocationSize).reverse ++ d.list }

/-- `DYN_LIST_ALLOC`. -/
def alloc (n : ℕ) : DynList := grow ⟨n, 0, []⟩

/-- The pool `DYN_LIST_GET` takes from: it grows when it is empty. -/
def ready : DynList := if d.list = [] then d.grow else d

/-- The element `DYN_LIST_GET` takes. -/
def first : ℕ := d.ready.list.headD 0

/-- `DYN_LIST_GET`. -/
def get : DynList := { d.ready with list := d.ready.list.tail }

/-- `DYN_LIST_RETURN`. -/
def ret (o : ℕ) : DynList := { d with list := o :: d.list }

end DynList

/-! ### Pointers -/

/-- The pointers of `group_cache_t`. -/
inductive GroupPtr
  | ranks
  | hostsHash
  | hostsBitset
  | hosts
  | spsHash
  | spsBitset
  | sps
  | revokesRanks
  deriving DecidableEq

/-- The pointers of `sp_cache_data_t`. -/
inductive SpPtr
  | ranksBitset
  | ranks
  deriving DecidableEq

/-- The pointers of `host_cache_data_t`. -/
inductive HostPtr
  | spsBitset
  | sps
  | ranksBitset
  deriving DecidableEq

/-- What a group has memory for. -/
inductive Table
  /-- A pointer of the group cache. -/
  | own (t : GroupPtr)
  /-- A pointer of the object of an SP, by global id. -/
  | sp (gid : ℕ) (t : SpPtr)
  /-- A pointer of the object of a host, by uid. -/
  | host (uid : ℕ) (t : HostPtr)
  deriving DecidableEq

/-- A group cache with its pointers. -/
structure GroupMem where
  /-- The values. -/
  gp : GroupCache
  /-- Is `engine` set? -/
  engine : Bool
  /-- The pointers. -/
  ptrs : GroupPtr → Option ℕ
  /-- The values of `sps_hash`: the object of each SP. -/
  spAt : ℕ → ℕ
  /-- The values of `hosts_hash`: the object of each host. -/
  hostAt : ℕ → ℕ
  /-- What was allocated for the group since its last reset. Not in the source. -/
  allocated : List (Table × ℕ)

/-- A group cache that has just been reset. -/
def GroupMem.blank (persistent : Persistent) : GroupMem where
  gp := { newGroupCache with persistent := persistent }
  engine := false
  ptrs _ := none
  spAt _ := 0
  hostAt _ := 0
  allocated := []

/-- The group caches of a process and what they point at. -/
structure Memory where
  /-- The groups, by uid. -/
  groups : ℤ → GroupMem
  /-- `free_sp_cache_hash_obj`. -/
  spPool : DynList
  /-- The pointers of its objects. -/
  spMem : ℕ → SpPtr → Option ℕ
  /-- `free_host_cache_hash_obj`. -/
  hostPool : DynList
  /-- The pointers of its objects. -/
  hostMem : ℕ → HostPtr → Option ℕ
  /-- `sps_initialized` of its objects. -/
  spsInitialized : ℕ → Bool
  /-- The number of allocations. -/
  next : ℕ
  /-- What was released. Not in the source. -/
  freed : List (Table × ℕ)
  /-- Has an access left its array? Not in the source. -/
  fault : Bool
  /-- The groups the handler of `MIMOSA_GROUP_REVOKE_EVENT_ID` was invoked for. Not in the source. -/
  handled : List ℤ

/-- What the memory of the objects of the pools holds before it is written. -/
structure Junk where
  /-- The pointers of the objects of SPs. -/
  sp : ℕ → SpPtr → Option ℕ
  /-- The pointers of the objects of hosts. -/
  host : ℕ → HostPtr → Option ℕ
  /-- `sps_initialized`. -/
  spsInitialized : ℕ → Bool

namespace Memory

/-- An engine that has just been initialised. -/
def start (junk : Junk) : Memory where
  groups _ := .blank Persistent.init
  spPool := .alloc 1024
  spMem := junk.sp
  hostPool := .alloc 32
  hostMem := junk.host
  spsInitialized := junk.spsInitialized
  next := 0
  freed := []
  fault := false
  handled := []

variable (m : Memory) (u : ℤ)

/-- Note whether an access has left its array. -/
def note (b : Bool) : Memory := { m with fault := m.fault || b }

/-- Change the cache of a group. -/
def modify (f : GroupMem → GroupMem) : Memory := { m with groups := Function.update m.groups u (f (m.groups u)) }

/-- Change the values of a group. -/
def setGp (gp : GroupCache) : Memory := m.modify u fun g => { g with gp := gp }

/-- A pointer of a group. -/
def ptr : Table → Option ℕ
  | .own t => (m.groups u).ptrs t
  | .sp gid t => if gid ∈ (m.groups u).gp.topo.spsHash then m.spMem ((m.groups u).spAt gid) t else none
  | .host uid t => if uid ∈ (m.groups u).gp.topo.hostsHash then m.hostMem ((m.groups u).hostAt uid) t else none

/-- Write a pointer of a group. -/
def setPtr (t : Table) (p : Option ℕ) : Memory :=
  match t with
  | .own t => m.modify u fun g => { g with ptrs := Function.update g.ptrs t p }
  | .sp gid t =>
    let o := (m.groups u).spAt gid
    { m with spMem := Function.update m.spMem o (Function.update (m.spMem o) t p) }
  | .host uid t =>
    let o := (m.groups u).hostAt uid
    { m with hostMem := Function.update m.hostMem o (Function.update (m.hostMem o) t p) }

/-- `malloc`, `calloc` or `kh_init`, for a pointer. -/
def malloc (t : Table) : Memory :=
  { (m.setPtr u t (some m.next)).modify u fun g => { g with allocated := (t, m.next) :: g.allocated } with
    next := m.next + 1 }

/-- `GROUP_CACHE_BITSET_CREATE` and its like: allocate unless there is one. -/
def create (t : Table) : Memory := if m.ptr u t = none then m.malloc u t else m

/-- Release what a pointer points at, if it is not `NULL`. -/
def release (t : Table) : Memory := { m with freed := m.freed ++ ((m.ptr u t).map fun a => (t, a)).toList }

/-- Release what a pointer points at, and make it `NULL`. -/
def free (t : Table) : Memory := (m.release u t).setPtr u t none

/-! ### Looking a group up -/

/-- `BASIC_INIT_GROUP_CACHE`. -/
def basicInitGroupCache : Memory :=
  m.modify u fun g => { GroupMem.blank g.gp.persistent with allocated := g.allocated }

/-- The fields of a group are reset: nothing is allocated for it. -/
def blank : Memory := m.modify u fun g => .blank g.gp.persistent

/-- `INIT_GROUP_CACHE`, with the values it gives to the group. It initialises `gpSize` entries, and there are fewer
where the byte count wraps. -/
def initGroupCache (gp : GroupCache) (gpSize : ℕ) : Memory :=
  ((((m.basicInitGroupCache u).setGp u gp).malloc u (.own .ranks)).malloc u (.own .spsHash)).malloc u
    (.own .hostsHash) |>.note (gp.entries.length < gpSize)

/-- `GET_GROUP_CACHE_INTERNAL`, with the number of SPs of the engine. -/
def getGroupCacheInternal (gpSize : ℤ) (numServiceProcs : ℕ) : Memory :=
  let gp := (m.groups u).gp
  let m := if gp.groupUid = INT_MAX then
      m.initGroupCache u (DpuOffload.getGroupCacheInternal u (some gp) gpSize) (sizeT gpSize)
    else m
  let m := m.modify u fun g => { g with engine := g.engine || g.gp.numLocalEntries == 0 }
  if 0 < numServiceProcs then m.create u (.own .sps) else m

/-- The part of `GET_GROUP_RANK_CACHE_ENTRY` after the lookup. -/
def learnGroupSize (cfg : HostsConfig) (gpSize : ℤ) : Memory :=
  let gp := (m.groups u).gp
  if gp.initialized ∧ gp.groupSize = 0 ∧ 0 ≤ gpSize then
    (((m.create u (.own .spsBitset)).create u (.own .hostsBitset)).create u (.own .revokesRanks)).setGp u
      (gp.learnGroupSize cfg gpSize)
  else m

/-- `GROUP_CACHE_BITSET_CREATE` of `revokes.ranks`. -/
def createRevokes : Memory :=
  let gp := (m.groups u).gp
  (m.create u (.own .revokesRanks)).setGp u
    { gp with revokesRanks := some (bitsetCreate gp.revokesRanks gp.groupSize) }

/-! ### Adding a rank -/

/-- Change the topology of a group. -/
def setTopo (topo : Topology) : Memory := m.modify u fun g => { g with gp := { g.gp with topo := topo } }

/-- `DYN_LIST_GET`, `RESET_SP_CACHE_DATA` and `ADD_GROUP_SP_HASH_ENTRY`, before the bitsets are created. The reset
leaves the pointer to the ranks as it is. -/
def acquireSp (gid : ℕ) (topo : Topology) : Memory :=
  let o := m.spPool.first
  { m.modify u fun g => { g with gp := { g.gp with topo := topo }, spAt := Function.update g.spAt gid o } with
    spPool := m.spPool.get
    spMem := Function.update m.spMem o (Function.update (m.spMem o) .ranksBitset none) }

/-- `DYN_LIST_GET`, `RESET_HOST_CACHE_DATA` and `ADD_GROUP_HOST_HASH_ENTRY`, before the bitsets are created. -/
def acquireHost (uid : ℕ) (topo : Topology) : Memory :=
  let o := m.hostPool.first
  { m.modify u fun g => { g with gp := { g.gp with topo := topo }, hostAt := Function.update g.hostAt uid o } with
    hostPool := m.hostPool.get
    hostMem := Function.update m.hostMem o fun _ => none
    spsInitialized := Function.update m.spsInitialized o false }

/-- The part of `update_topology_data` about the SP. -/
def updateSp (groupRank spGid hostUid : ℕ) : Memory :=
  let gp := (m.groups u).gp
  let topo := gp.topo.updateSp gp.groupUid gp.groupSize groupRank spGid hostUid
  match gp.topo.spsHash.lookup spGid with
  | none => ((m.acquireSp u spGid topo).create u (.sp spGid .ranksBitset)).create u (.own .spsBitset)
  | some _ => m.setTopo u topo

/-- The part of `update_topology_data` about the host. -/
def updateHost (cfg : HostsConfig) (groupRank spGid hostUid : ℕ) : Memory :=
  let gp := (m.groups u).gp
  let topo := gp.topo.updateHost cfg gp.groupSize groupRank spGid hostUid
  match gp.topo.hostsHash.lookup hostUid with
  | none =>
    let m := m.acquireHost u hostUid topo
    ((m.create u (.host hostUid .spsBitset)).create u (.host hostUid .ranksBitset)).create u (.own .hostsBitset)
  | some _ => m.setTopo u topo

/-- `update_topology_data`. -/
def updateTopologyData (cfg : HostsConfig) (groupRank spGid hostUid : ℕ) : Memory :=
  let m := (m.updateSp u groupRank spGid hostUid).updateHost u cfg groupRank spGid hostUid
  m.note (m.groups u).gp.topo.fault

/-! ### Filling the lookup tables -/

/-- `populate_sp_ranks`, for all SPs: each table is allocated anew. -/
def populateSpRanks : Memory :=
  (m.groups u).gp.topo.spsHash.keys.foldl (fun m gid => m.malloc u (.sp gid .ranks)) m

/-- `populate_host_sps`, for all hosts. -/
def populateHostSps : Memory :=
  (m.groups u).gp.topo.hostsHash.keys.foldl (fun m uid => m.create u (.host uid .sps)) m

/-- The tables that `do_populate_group_cache_lookup_table` allocates. -/
def fillTables : Memory :=
  (((m.create u (.own .sps)).populateSpRanks u).create u (.own .hosts)).populateHostSps u

/-- `do_populate_group_cache_lookup_table`. -/
def doPopulateGroupCacheLookupTable : Memory :=
  let topo := (m.groups u).gp.topo
  if topo.lookupTablesPopulated then m
  else
    ((m.fillTables u).setTopo u topo.doPopulateGroupCacheLookupTable).note topo.doPopulateGroupCacheLookupTable.fault

/-! ### Revoking a group -/

/-- `RESET_PEER_CACHE_ENTRY` of an entry of `ranks`. -/
def resetEntry (i : ℕ) : Memory :=
  let gp := (m.groups u).gp
  (m.setGp u (gp.setEntryAt i initPeerCacheEntry)).note (gp.entries.length ≤ i)

/-- The loop of `revoke_group_cache` over the ranks. -/
def resetEntries : Memory := (List.range (m.groups u).gp.groupSize).foldl (fun m i => m.resetEntry u i) m

/-- `GROUP_CACHE_HASHES_FINI`, for one SP. -/
def finiSp (gid : ℕ) : Memory :=
  let m := (m.free u (.sp gid .ranksBitset)).free u (.sp gid .ranks)
  { m with spPool := m.spPool.ret ((m.groups u).spAt gid) }

/-- `GROUP_CACHE_HASHES_FINI`, for one host: its table of SPs is released if `sps_initialized` says so. -/
def finiHost (uid : ℕ) : Memory :=
  let o := (m.groups u).hostAt uid
  let m := (m.free u (.host uid .spsBitset)).free u (.host uid .ranksBitset)
  let m := if m.spsInitialized o then
      { m.release u (.host uid .sps) with spsInitialized := Function.update m.spsInitialized o false }
    else m
  { m with hostPool := m.hostPool.ret o }

/-- `GROUP_CACHE_HASHES_FINI`, for the SPs. -/
def spsHashFini : Memory :=
  if m.ptr u (.own .spsHash) = none then m
  else ((m.groups u).gp.topo.spsHash.keys.foldl (fun m gid => m.finiSp u gid) m).free u (.own .spsHash)

/-- `GROUP_CACHE_HASHES_FINI`, for the hosts. -/
def hostsHashFini : Memory :=
  if m.ptr u (.own .hostsHash) = none then m
  else ((m.groups u).gp.topo.hostsHash.keys.foldl (fun m uid => m.finiHost u uid) m).free u (.own .hostsHash)

/-- `RESET_GROUP_CACHE`. -/
def resetGroupCache : Memory :=
  let m := (m.spsHashFini u).hostsHashFini u
  ((((m.free u (.own .sps)).free u (.own .hosts)).free u (.own .ranks)).free u (.own .revokesRanks)).blank u

/-- The handler of `MIMOSA_GROUP_REVOKE_EVENT_ID` is invoked, if one is registered. -/
def invokeHandler (handler : Bool) : Memory := { m with handled := m.handled ++ if handler then [u] else [] }

/-- `revoke_group_cache`. What the handler does, and `HANDLE_PENDING_CACHE_ENTRIES` for entries put aside, are further
steps. -/
def revokeGroupCache (numServiceProcs : ℕ) (handler : Bool) : Memory :=
  let m := (m.getGroupCacheInternal u 0 numServiceProcs).resetEntries u
  (((m.free u (.own .spsBitset)).free u (.own .hostsBitset)).resetGroupCache u).invokeHandler u handler

/-! ### Runs -/

/-- Other writes to the values of a group: they leave the topology as it is, and write to bitsets that are there and
within the array of entries. A group that is reset has only what a revoke does not reset. -/
def write (v : GroupCache) : Memory :=
  let gp := (m.groups u).gp
  m.setGp u
    (if gp.groupUid = INT_MAX then { gp with persistent := v.persistent }
    else { v with
      initialized := gp.initialized
      groupUid := gp.groupUid
      revokesRanks := gp.revokesRanks.map fun b => v.revokesRanks.getD b
      ranks := gp.ranks.map fun es => if v.entries.length = es.length then v.entries else es
      topo := gp.topo })

end Memory

/-- What a process does with the memory of a group. -/
inductive MemOp
  /-- `GET_GROUP_CACHE_INTERNAL`. -/
  | lookup (gpSize : ℤ) (numServiceProcs : ℕ)
  /-- The rest of `GET_GROUP_RANK_CACHE_ENTRY`. -/
  | learnGroupSize (cfg : HostsConfig) (gpSize : ℤ)
  /-- `revokes.ranks` is created. -/
  | createRevokes
  /-- `update_topology_data`. -/
  | updateTopologyData (cfg : HostsConfig) (groupRank spGid hostUid : ℕ)
  /-- `do_populate_group_cache_lookup_table`. -/
  | populate
  /-- Other writes. -/
  | write (v : GroupCache)
  /-- `revoke_group_cache`. -/
  | revoke (numServiceProcs : ℕ) (handler : Bool)

/-- One step of a process, about a group. The source looks a group up before it does anything else with it. -/
def Memory.step (m : Memory) (a : ℤ × MemOp) : Option Memory :=
  let u := a.1
  let live := (m.groups u).gp.groupUid ≠ INT_MAX
  match a.2 with
  | .lookup gpSize n => some (m.getGroupCacheInternal u gpSize n)
  | .learnGroupSize cfg gpSize => if live then some (m.learnGroupSize u cfg gpSize) else none
  | .createRevokes => if live then some (m.createRevokes u) else none
  | .updateTopologyData cfg rank gid uid => if live then some (m.updateTopologyData u cfg rank gid uid) else none
  | .populate => if live then some (m.doPopulateGroupCacheLookupTable u) else none
  | .write v => some (m.write u v)
  | .revoke n handler => some (m.revokeGroupCache u n handler)

/-- `INT_MAX` stands for no group. -/
def NamesGroup (a : ℤ × MemOp) : Prop := a.1 ≠ INT_MAX

instance (a : ℤ × MemOp) : Decidable (NamesGroup a) := inferInstanceAs (Decidable (_ ≠ _))

end DpuOffload
