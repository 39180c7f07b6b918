import DpuOffload.Cache.BitsetBounds
import DpuOffload.Protocol.Freshness

/-!
# The topology getters

The functions of `dpu_offload_group_cache.c` that answer questions about a group: which SPs,
hosts and ranks it has, how many, and where each stands. All but two of them fill the lookup
tables first, if they are not filled (`topologyGetter`), and then read tables, hashes, counters
and bitsets; none of them changes anything else, so a getter is modelled by its answer.

Identifiers of two kinds are passed around: the global id of an SP in the engine, and its
number among the SPs of the group. Both are `uint64_t`.

No function checks an index into a table or into a bitset, or the result of a hash lookup once the
assertions are compiled out. Such an access, past the end of a table or of a bitset or through a null
pointer, is undefined in C and is the answer `fault` here, also when it was made before, while the
group was built or its tables were filled (`GroupCache.answer`).
-/

namespace DpuOffload

/-- What a getter does. -/
inductive Answer (α : Type) where
  /-- `DO_SUCCESS`, with the value it returns. -/
  | success (a : α)
  /-- `DO_ERROR`, with what it writes nevertheless. -/
  | error (out : Option α)
  /-- It reads past the end of a table or of a bitset, or through a null pointer. -/
  | fault
  deriving DecidableEq, Repr

namespace Answer

/-- Read a table entry, a hash entry or a bit, and go on. -/
def read {α β : Type} (o : Option β) (k : β → Answer α) : Answer α :=
  match o with
  | none => fault
  | some b => k b

@[simp] theorem read_none {α β : Type} (k : β → Answer α) : read none k = fault := rfl

@[simp] theorem read_some {α β : Type} (b : β) (k : β → Answer α) : read (some b) k = k b := rfl

/-- Did the getter return `DO_SUCCESS`? -/
def ok {α : Type} : Answer α → Bool
  | success _ => true
  | _ => false

/-- Did it return `DO_ERROR`? -/
def failed {α : Type} : Answer α → Bool
  | error _ => true
  | _ => false

end Answer

/-- `UINT32_MAX`. -/
def UINT32_MAX : ℕ := 2 ^ 32 - 1

/-- `GROUP_CACHE_BITSET_TEST`, by a signed index. -/
def testAt (b : Bitset) (i : ℤ) : Option Bool := if b.hasBit i then some (b.test i.toNat) else none

theorem testAt_of_lt {b : Bitset} {i : ℕ} (h : i < b.capacity) : testAt b i = some (b.test i) := by
  have hbit : b.hasBit i = true := decide_eq_true ⟨Int.natCast_nonneg i, Int.ofNat_lt.2 h⟩
  rw [testAt, if_pos hbit, Int.toNat_natCast]

theorem testAt_of_le {b : Bitset} {i : ℕ} (h : b.capacity ≤ i) : testAt b i = none := by
  refine if_neg fun hbit => ?_
  exact absurd (Int.ofNat_lt.1 (of_decide_eq_true hbit).2) (not_lt.2 h)

theorem testAt_of_neg {b : Bitset} {i : ℤ} (h : i < 0) : testAt b i = none :=
  if_neg fun hbit => absurd (of_decide_eq_true hbit).1 (not_le.2 h)

/-- The answer of a getter that finds the group `g`. -/
def GroupCache.answer {α : Type} (g : GroupCache) (a : Answer α) : Answer α := if g.topo.fault then .fault else a

theorem GroupCache.answer_safe {α : Type} {g : GroupCache} (h : g.topo.fault = false) (a : Answer α) : g.answer a = a :=
  if_neg (by rw [h]; exact Bool.false_ne_true)

/-- An answer is no fault when no access left a bitset. -/
theorem GroupCache.safe_of_answer {α : Type} {g : GroupCache} {a : Answer α} (h : g.answer a ≠ .fault) :
    g.topo.fault = false := by
  by_contra hf
  exact h (if_pos (Bool.not_eq_false _ ▸ hf))

/-- The uid of the host at a place of the configuration. -/
def HostsConfig.uidAt (cfg : HostsConfig) (idx : ℕ) : Option ℕ :=
  (cfg.hostLookupTable.find? fun p => p.2 == idx).map (·.1)

/-- `MIMOSA_GET_HOST_FROM_GROUP_CACHE`, and the uid of what it returns. -/
def Topology.hostUidAt (t : Topology) (cfg : HostsConfig) (hostIdx : ℕ) : Option ℕ :=
  t.hosts[hostIdx]?.bind cfg.uidAt

/-- The host at a place of the table: `MIMOSA_GET_HOST_FROM_GROUP_CACHE` followed by
`GET_GROUP_HOST_HASH_ENTRY`. -/
def Topology.hostData (t : Topology) (cfg : HostsConfig) (hostIdx : ℕ) : Option HostCacheData :=
  (t.hostUidAt cfg hostIdx).bind t.hostsHash.lookup

/-- The SP at a place of the table: `MIMOSA_GET_SP_FROM_GROUP_CACHE` followed by
`GET_GROUP_SP_HASH_ENTRY`. -/
def Topology.spData (t : Topology) (spIdx : ℕ) : Option SpCacheData := t.sps[spIdx]?.bind t.spsHash.lookup

theorem GroupCache.safe_of_success {α : Type} {g : GroupCache} {a : Answer α} {x : α} (h : g.answer a = .success x) :
    g.topo.fault = false := by
  refine GroupCache.safe_of_answer (a := a) fun hf => ?_
  rw [h] at hf
  cases hf

/-! ### SPs -/

/-- The loop of `get_global_sp_id_by_group`. -/
def findSp (sps : List ℕ) (gid : ℕ) : List ℕ → Answer ℕ
  | [] => .error none
  | i :: is => .read sps[i]? fun sp => if sp = gid then .success gid else findSp sps gid is

/-- `get_global_sp_id_by_group`. It does not fill the tables. -/
def getGlobalSpIdByGroup (ctx : GpCtx) (slot : Option GroupCache) : Answer ℕ :=
  if !ctx.onDpu then .error none
  else
    let g := getGroupCache ctx.gpUid slot
    g.answer (findSp g.topo.sps ctx.globalId (List.range g.topo.nSps))

/-- The scan of `get_local_sp_id_by_group`: the index of bit number `guid`, and `stop` when the
indices are used up. -/
def scanBits (b : Bitset) (guid stop : ℕ) : List ℕ → ℕ → Option ℕ
  | [], _ => some stop
  | idx :: is, spGpIdx =>
    (testAt b idx).bind fun spInGroup =>
      if spInGroup then if spGpIdx = guid then some idx else scanBits b guid stop is (spGpIdx + 1)
      else scanBits b guid stop is spGpIdx

/-- `get_local_sp_id_by_group`. -/
def getLocalSpIdByGroup (ctx : GpCtx) (slot : Option GroupCache) (spGpGuid : ℕ) : Answer ℕ :=
  let g := topologyGetter ctx slot
  g.answer <|
    if spGpGuid > g.topo.nSps then .error (some UINT64_MAX)
    else
      .read (scanBits (g.topo.spsBitset.getD []) spGpGuid ctx.numServiceProcs (List.range ctx.numServiceProcs) 0) fun idx =>
        .read (g.topo.spsHash.lookup idx) fun d => .success d.lid

/-- The loop of `get_sp_group_gid`: how many of the bits are set. -/
def countBits (b : Bitset) : List ℕ → ℕ → Option ℕ
  | [], spGpIdx => some spGpIdx
  | idx :: is, spGpIdx => (testAt b idx).bind fun spInGroup => countBits b is (if spInGroup then spGpIdx + 1 else spGpIdx)

/-- `get_sp_group_gid`. It tests the bit before it compares the id. -/
def getSpGroupGid (ctx : GpCtx) (slot : Option GroupCache) (spGid : ℕ) : Answer ℕ :=
  let g := topologyGetter ctx slot
  g.answer <|
    .read (testAt (g.topo.spsBitset.getD []) (toInt spGid)) fun spInGroup =>
      if spGid > g.topo.nSps ∨ spInGroup = false then .error (some UINT64_MAX)
      else .read (countBits (g.topo.spsBitset.getD []) (List.range spGid) 0) fun spGpIdx => .success spGpIdx

/-- `get_num_ranks_for_group_sp`. -/
def getNumRanksForGroupSp (ctx : GpCtx) (slot : Option GroupCache) (spGpGid : ℕ) : Answer ℕ :=
  let g := topologyGetter ctx slot
  g.answer <| .read (g.topo.spData spGpGid) fun d => .success d.nRanks

/-- The loop of `get_rank_idx_by_group_sp_id`. -/
def findRank (g : GroupCache) (ranks : List ℕ) (rank : ℤ) : List ℕ → Answer ℕ
  | [] => .error (some UINT32_MAX)
  | i :: is => .read ranks[i]? fun r =>
    if (g.entryAt r).peer.procInfo.groupRank = rank then .success i else findRank g ranks rank is

/-- `get_rank_idx_by_group_sp_id`. -/
def getRankIdxByGroupSpId (ctx : GpCtx) (slot : Option GroupCache) (spGpGid : ℕ) (rank : ℤ) : Answer ℕ :=
  let g := topologyGetter ctx slot
  g.answer <| .read (g.topo.spData spGpGid) fun d => findRank g d.ranks rank (List.range d.nRanks)

/-! ### Hosts -/

/-- The loop of `get_host_idx_by_group`. -/
def findHost (t : Topology) (cfg : HostsConfig) (uid : ℕ) : List ℕ → Answer ℕ
  | [] => .error none
  | i :: is => .read (t.hostUidAt cfg i) fun u => if u = uid then .success i else findHost t cfg uid is

/-- `get_host_idx_by_group`. -/
def getHostIdxByGroup (ctx : GpCtx) (slot : Option GroupCache) : Answer ℕ :=
  let g := topologyGetter ctx slot
  g.answer <| findHost g.topo ctx.hosts ctx.hostUid (List.range g.topo.nHosts)

/-- `get_num_sps_by_group_host_idx`. -/
def getNumSpsByGroupHostIdx (ctx : GpCtx) (slot : Option GroupCache) (hostIdx : ℕ) : Answer ℕ :=
  let g := topologyGetter ctx slot
  g.answer <| .read (g.topo.hostData ctx.hosts hostIdx) fun d => .success d.numSps

/-- `get_num_ranks_for_group_host_idx`. -/
def getNumRanksForGroupHostIdx (ctx : GpCtx) (slot : Option GroupCache) (hostIdx : ℕ) : Answer ℕ :=
  let g := topologyGetter ctx slot
  g.answer <| .read (g.topo.hostData ctx.hosts hostIdx) fun d => .success d.numRanks

/-- `get_num_ranks_for_group_host_local_sp`. -/
def getNumRanksForGroupHostLocalSp (ctx : GpCtx) (slot : Option GroupCache) (hostIdx localHostSpId : ℕ) : Answer ℕ :=
  let g := topologyGetter ctx slot
  g.answer <| .read (g.topo.hostData ctx.hosts hostIdx) fun d =>
    if localHostSpId ≥ d.numSps then .error none
    else .read (d.sps[localHostSpId]?.bind g.topo.spsHash.lookup) fun sp => .success sp.nRanks

/-- `get_nth_sp_by_group_host_idx`. -/
def getNthSpByGroupHostIdx (ctx : GpCtx) (slot : Option GroupCache) (hostIdx n : ℕ) : Answer ℕ :=
  let g := topologyGetter ctx slot
  g.answer <| .read (g.topo.hostData ctx.hosts hostIdx) fun d =>
    if n ≥ d.numSps then .error none
    else .read (d.sps[n]?.bind g.topo.spsHash.lookup) fun sp => .success sp.gid

/-- The loop of `get_rank_idx_by_group_host_idx` over the indices `is`, with `rank_index`, which is
`SIZE_MAX` (`none`) until a rank is found. -/
def rankIndex (b : Bitset) (rank : ℤ) : List ℕ → Option ℕ → Option (Option ℕ)
  | [], acc => some acc
  | i :: is, acc =>
    (testAt b (toInt i)).bind fun status =>
      let acc := if status then some (acc.elim 0 (· + 1)) else acc
      if i = sizeT rank then some acc else rankIndex b rank is acc

/-- `get_rank_idx_by_group_host_idx`. -/
def getRankIdxByGroupHostIdx (ctx : GpCtx) (slot : Option GroupCache) (hostIdx : ℕ) (rank : ℤ) : Answer ℕ :=
  let g := topologyGetter ctx slot
  g.answer <| .read (g.topo.hostData ctx.hosts hostIdx) fun d =>
    .read (testAt (d.ranksBitset.getD []) rank) fun onHost =>
      if onHost = false then .error (some UINT64_MAX)
      else
        .read (rankIndex (d.ranksBitset.getD []) rank (List.range g.groupSize) none) fun idx =>
          .success (idx.getD (sizeT (-1)))

/-! ### Ranks -/

/-- `get_group_ranks_on_host`: the ranks it puts into the array. Their number is the other value it
returns. -/
def getGroupRanksOnHost (ctx : GpCtx) (slot : Option GroupCache) (hostId : ℕ) : Answer (List ℕ) :=
  let g := topologyGetter ctx slot
  g.answer (.success ((List.range g.groupSize).filter fun i => (g.entryAt i).peer.hostInfo = hostId))

/-- `get_group_local_sps`: the SPs it puts into the array, and their number is the other value it
returns. `hostId` is `engine->host_id`. -/
def getGroupLocalSps (ctx : GpCtx) (slot : Option GroupCache) (hostId : ℕ) : Answer (List ℕ) :=
  if !ctx.onDpu then .success []
  else
    let g := topologyGetter ctx slot
    g.answer (.success (((List.range g.groupSize).filter fun i => (g.entryAt i).peer.hostInfo = hostId).flatMap fun i =>
      (g.entryAt i).shadowServiceProcs))

/-- `get_group_rank_host`, for a rank that is not negative. -/
def getGroupRankHost (ctx : GpCtx) (slot : Option GroupCache) (rank : ℕ) : Answer ℕ :=
  let g := getGroupRankCacheEntry ctx.hosts ctx.gpUid slot (-1)
  if g.isSet rank then .success (g.entryAt rank).peer.hostInfo else .error (some UINT64_MAX)

/-- `on_same_host`. -/
def onSameHost (ctx : GpCtx) (slot : Option GroupCache) (rank₁ rank₂ : ℕ) : Bool :=
  match getGroupRankHost ctx slot rank₁, getGroupRankHost ctx slot rank₂ with
  | .success host₁, .success host₂ => host₁ == host₂
  | _, _ => false

/-- The loop of `on_same_sp` over the SPs of the first rank. -/
def sharesSp (t : Topology) (rank₂ : ℕ) : List ℕ → Answer Bool
  | [] => .success false
  | sp :: sps => .read (t.spsHash.lookup sp) fun d =>
    .read (testAt (d.ranksBitset.getD []) rank₂) fun shared => if shared then .success true else sharesSp t rank₂ sps

/-- `on_same_sp`, which returns a truth value and no status. -/
def onSameSp (ctx : GpCtx) (slot : Option GroupCache) (rank₁ rank₂ : ℕ) : Answer Bool :=
  let g := topologyGetter ctx slot
  g.answer (sharesSp g.topo rank₂ (g.entryAt rank₁).shadowServiceProcs)

end DpuOffload
