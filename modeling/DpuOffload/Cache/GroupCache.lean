import DpuOffload.Cache.Topology

/-!
# The cache of a group

`group_cache_t` with the macros that initialise it, reset it, look it up and reach
its entries (`dpu_offload_types.h`): `INIT_GROUP_CACHE`, `RESET_GROUP_CACHE`,
`GET_GROUP_CACHE_INTERNAL`, `GET_GROUP_CACHE`, `GET_GROUP_RANK_CACHE_ENTRY`, and
`is_in_cache`.

The build is the default one, with `NDEBUG`: assertions and what stands under
`#if !NDEBUG` are compiled out. Allocation succeeds. `ranks` is the allocated array
of entries; an access past its end is undefined in C, and here reads a blank entry
and writes nothing, so that statements about such accesses can be made.
-/

namespace DpuOffload

/-- `group_cache_t.persistent`: what a revoke does not reset. -/
structure Persistent where
  /-- The version of the group, `0` before the group was ever created. -/
  num : ℕ
  /-- The last version whose cache was sent to the local ranks. -/
  sentToHost : ℕ
  /-- The last version whose final revoke was posted to the local ranks. -/
  revokeSendToHostPosted : ℕ
  /-- The last version whose final revoke was sent to the local ranks. -/
  revokeSentToHost : ℕ
  /-- Revoke messages of SPs put aside. -/
  pendingGroupRevokeMsgsFromSps : List GroupRevokeMsgFromSp
  /-- Revoke messages of local ranks put aside. -/
  pendingGroupRevokeMsgsFromRanks : List RankInfo
  /-- Add messages put aside. -/
  pendingGroupAddMsgs : List PendingGroupAdd
  /-- On a host, add requests put aside. -/
  pendingSendGroupAddMsgs : List PendingSendGroupAdd
  /-- Batches of entries put aside. -/
  pendingRecvCacheEntries : List PendingRecvCacheEntry

/-- `persistent` as a new group cache has it. -/
def Persistent.init : Persistent where
  num := 0
  sentToHost := 0
  revokeSendToHostPosted := 0
  revokeSentToHost := 0
  pendingGroupRevokeMsgsFromSps := []
  pendingGroupRevokeMsgsFromRanks := []
  pendingGroupAddMsgs := []
  pendingSendGroupAddMsgs := []
  pendingRecvCacheEntries := []

/-- `group_cache_t`. -/
structure GroupCache where
  /-- Has the group cache been initialised? -/
  initialized : Bool
  /-- What a revoke does not reset. -/
  persistent : Persistent
  /-- `revokes.global`: how many ranks revoked the group. -/
  revokesGlobal : ℕ
  /-- `revokes.local`: how many local ranks revoked the group. -/
  revokesLocal : ℕ
  /-- `revokes.ranks`: which ranks revoked the group. -/
  revokesRanks : Option Bitset
  /-- Number of ranks in the group, `0` until it is known. -/
  groupSize : ℕ
  /-- Uid of the group, `INT_MAX` after a reset. -/
  groupUid : ℤ
  /-- How many entries are set. -/
  numLocalEntries : ℕ
  /-- Number of ranks on the local host. -/
  nLocalRanks : ℕ
  /-- How many of them are known. -/
  nLocalRanksPopulated : ℕ
  /-- Number of ranks of the group associated with the local SP. -/
  spRanks : ℕ
  /-- The entries. -/
  ranks : Option (List PeerCacheEntry)
  /-- The topology. -/
  topo : Topology

/-- `BASIC_INIT_GROUP_CACHE`. -/
def basicInitGroupCache (g : GroupCache) : GroupCache where
  initialized := false
  persistent := g.persistent
  revokesGlobal := 0
  revokesLocal := 0
  revokesRanks := none
  groupSize := 0
  groupUid := INT_MAX
  numLocalEntries := 0
  nLocalRanks := 0
  nLocalRanksPopulated := 0
  spRanks := 0
  ranks := none
  topo := Topology.empty

/-- `INIT_GROUP_CACHE`. Its loop over the `gp_size` entries stays in the array only where
the byte count does not wrap (`Allocatable`). -/
def initGroupCache (g : GroupCache) (gpSize : ℕ) : GroupCache :=
  { basicInitGroupCache g with
    ranks := some (List.replicate (allocEntries gpSize) initPeerCacheEntry)
    initialized := true }

/-- `RESET_GROUP_CACHE`. The hashes, tables and bitsets are released first. -/
def resetGroupCache (g : GroupCache) : GroupCache := basicInitGroupCache g

/-- A group cache as the pool hands it out. -/
def newGroupCache : GroupCache where
  initialized := false
  persistent := Persistent.init
  revokesGlobal := 0
  revokesLocal := 0
  revokesRanks := none
  groupSize := 0
  groupUid := INT_MAX
  numLocalEntries := 0
  nLocalRanks := 0
  nLocalRanksPopulated := 0
  spRanks := 0
  ranks := none
  topo := Topology.empty

/-- `GET_GROUP_CACHE_INTERNAL`, on the slot of the hash table that belongs to the group:
a group not in the table is added, and one that was reset is initialised again. -/
def getGroupCacheInternal (gpUid : ℤ) (slot : Option GroupCache) (gpSize : ℤ) : GroupCache :=
  match slot with
  | none => { initGroupCache newGroupCache (sizeT gpSize) with groupUid := gpUid }
  | some g => if g.groupUid = INT_MAX then { initGroupCache g (sizeT gpSize) with groupUid := gpUid } else g

/-- `GET_GROUP_CACHE`: a query, with size `0`. -/
def getGroupCache (gpUid : ℤ) (slot : Option GroupCache) : GroupCache := getGroupCacheInternal gpUid slot 0

/-- The part of `GET_GROUP_RANK_CACHE_ENTRY` after the lookup: a group initialised
without its size learns it. -/
def GroupCache.learnGroupSize (g : GroupCache) (cfg : HostsConfig) (gpSize : ℤ) : GroupCache :=
  if g.initialized ∧ g.groupSize = 0 ∧ 0 ≤ gpSize then
    { g with
      groupSize := sizeT gpSize
      topo := { g.topo with
        spsBitset := some (bitsetCreate g.topo.spsBitset (sizeT gpSize))
        hostsBitset := some (bitsetCreate g.topo.hostsBitset cfg.numHosts) }
      revokesRanks := some (bitsetCreate g.revokesRanks (sizeT gpSize)) }
  else g

/-- `GET_GROUP_RANK_CACHE_ENTRY`, which leaves the group cache changed; the entry is
then `entryAt`. -/
def getGroupRankCacheEntry (cfg : HostsConfig) (gpUid : ℤ) (slot : Option GroupCache) (gpSize : ℤ) : GroupCache :=
  (getGroupCacheInternal gpUid slot gpSize).learnGroupSize cfg gpSize

/-- The allocated entries. -/
def GroupCache.entries (g : GroupCache) : List PeerCacheEntry := g.ranks.getD []

/-- `ranks[rank]`. -/
def GroupCache.entryAt (g : GroupCache) (rank : ℕ) : PeerCacheEntry := g.entries.getD rank initPeerCacheEntry

/-- Write `ranks[rank]`. -/
def GroupCache.setEntryAt (g : GroupCache) (rank : ℕ) (e : PeerCacheEntry) : GroupCache :=
  { g with ranks := g.ranks.map (·.set rank e) }

/-- Is rank `rank` set in the cache? -/
def GroupCache.isSet (g : GroupCache) (rank : ℕ) : Bool := (g.entryAt rank).set

/-- Is the group complete? `num_local_entries == group_size`. -/
def GroupCache.full (g : GroupCache) : Bool := g.groupSize == g.numLocalEntries

/-- Did rank `rank` revoke the group? -/
def GroupCache.revoked (g : GroupCache) (rank : ℕ) : Bool := (g.revokesRanks.getD []).test rank

/-! ### What the lookups leave -/

theorem getGroupCacheInternal_of_live {gpUid : ℤ} {g : GroupCache} (h : g.groupUid ≠ INT_MAX) (gpSize : ℤ) :
    getGroupCacheInternal gpUid (some g) gpSize = g := by
  simp [getGroupCacheInternal, h]

theorem learnGroupSize_of_known {g : GroupCache} (h : g.groupSize ≠ 0) (cfg : HostsConfig) (gpSize : ℤ) :
    g.learnGroupSize cfg gpSize = g := by
  simp [GroupCache.learnGroupSize, h]

@[simp] theorem learnGroupSize_persistent (g : GroupCache) (cfg : HostsConfig) (gpSize : ℤ) :
    (g.learnGroupSize cfg gpSize).persistent = g.persistent := by
  unfold GroupCache.learnGroupSize; split <;> rfl

@[simp] theorem learnGroupSize_ranks (g : GroupCache) (cfg : HostsConfig) (gpSize : ℤ) :
    (g.learnGroupSize cfg gpSize).ranks = g.ranks := by
  unfold GroupCache.learnGroupSize; split <;> rfl

@[simp] theorem learnGroupSize_initialized (g : GroupCache) (cfg : HostsConfig) (gpSize : ℤ) :
    (g.learnGroupSize cfg gpSize).initialized = g.initialized := by
  unfold GroupCache.learnGroupSize; split <;> rfl

@[simp] theorem learnGroupSize_groupUid (g : GroupCache) (cfg : HostsConfig) (gpSize : ℤ) :
    (g.learnGroupSize cfg gpSize).groupUid = g.groupUid := by
  unfold GroupCache.learnGroupSize; split <;> rfl

/-! ### Which ranks are set -/

theorem entryAt_of_ranks_none {g : GroupCache} (h : g.ranks = none) (r : ℕ) : g.entryAt r = initPeerCacheEntry := by
  simp [GroupCache.entryAt, GroupCache.entries, h]

theorem entryAt_replicate {g : GroupCache} {k : ℕ} (h : g.ranks = some (List.replicate k initPeerCacheEntry)) (r : ℕ) :
    g.entryAt r = initPeerCacheEntry := by
  simp only [GroupCache.entryAt, GroupCache.entries, h, Option.getD_some, List.getD_eq_getElem?_getD,
    List.getElem?_replicate]
  split <;> rfl

theorem isSet_replicate {g : GroupCache} {k : ℕ} (h : g.ranks = some (List.replicate k initPeerCacheEntry)) (r : ℕ) :
    g.isSet r = false := by
  rw [GroupCache.isSet, entryAt_replicate h]
  rfl

theorem isSet_of_ranks_none {g : GroupCache} (h : g.ranks = none) (r : ℕ) : g.isSet r = false := by
  rw [GroupCache.isSet, entryAt_of_ranks_none h]
  rfl

theorem isSet_congr {g g' : GroupCache} (h : g'.ranks = g.ranks) (r : ℕ) : g'.isSet r = g.isSet r := by
  simp only [GroupCache.isSet, GroupCache.entryAt, GroupCache.entries, h]

/-- A lookup sets no rank. -/
theorem isSet_getGroupCacheInternal {g : GroupCache} {r : ℕ} (hset : g.isSet r = false) (uid size : ℤ) :
    (getGroupCacheInternal uid (some g) size).isSet r = false := by
  unfold getGroupCacheInternal
  dsimp only
  split
  · exact isSet_replicate (k := allocEntries (sizeT size)) rfl _
  · exact hset

theorem length_entries_map_set {g g' : GroupCache} {r : ℕ} {e : PeerCacheEntry}
    (hg : g'.ranks = g.ranks.map (·.set r e)) : g'.entries.length = g.entries.length := by
  simp only [GroupCache.entries, hg]
  cases g.ranks <;> simp

/-- Writing an entry changes that entry only. -/
theorem entryAt_map_set {g g' : GroupCache} {r : ℕ} (hr : r < g.entries.length) {e : PeerCacheEntry}
    (hg : g'.ranks = g.ranks.map (·.set r e)) (q : ℕ) : g'.entryAt q = if q = r then e else g.entryAt q := by
  cases hl : g.ranks with
  | none => simp [GroupCache.entries, hl] at hr
  | some l =>
    have hr : r < l.length := by simpa [GroupCache.entries, hl] using hr
    simp only [GroupCache.entryAt, GroupCache.entries, hg, hl, Option.map_some, Option.getD_some,
      List.getD_eq_getElem?_getD, List.getElem?_set]
    by_cases h : q = r
    · subst h; simp [hr]
    · rw [if_neg (Ne.symm h), if_neg h]

theorem isSet_setEntryAt {g : GroupCache} {l : List PeerCacheEntry} (hl : g.ranks = some l) {r : ℕ}
    (hr : r < l.length) (e : PeerCacheEntry) (q : ℕ) :
    (g.setEntryAt r e).isSet q = if q = r then e.set else g.isSet q := by
  have hlen : r < g.entries.length := by simpa [GroupCache.entries, hl] using hr
  have hat : (g.setEntryAt r e).entryAt q = if q = r then e else g.entryAt q := entryAt_map_set hlen rfl q
  rw [GroupCache.isSet, hat]
  split <;> rfl

end DpuOffload
