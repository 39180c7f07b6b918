import DpuOffload.Cache.Revoke

/-!
# Ranks that connect

A rank of the first group, the world group, gets into the caches when it connects to
its SP and not through an add message. On the SP, `finalize_client_connection` adds the
entry (`add_cache_entry_for_new_client`), runs the exchange, and calls the default
callback of the server, `local_rank_connect_default_callback`. On the host,
`progress_client_econtext` adds the rank once the bootstrapping is done.
-/

namespace DpuOffload

/-- `add_cache_entry_for_new_client`, on an SP, for a client that has a rank. -/
def addCacheEntryForNewClient (ctx : GpCtx) (slot : Option GroupCache) (clientId : ℕ) (info : RankInfo) : GroupCache :=
  let g := getGroupCacheInternal ctx.gpUid slot info.groupSize
  let g := if g.persistent.num = 0 then { g with persistent := { g.persistent with num := 1 } } else g
  let g := g.learnGroupSize ctx.hosts info.groupSize
  let rank := sizeT info.groupRank
  let g := g.putLocalEntry rank info.nLocalRanks (localEntry ctx clientId info)
  { g with topo := g.topo.updateTopologyData ctx.hosts g.groupUid g.groupSize rank ctx.globalId ctx.hostUid }

theorem addCacheEntryForNewClient_getD (ctx : GpCtx) (slot : Option GroupCache) (c : ℕ) (info : RankInfo) :
    addCacheEntryForNewClient ctx slot c info = addCacheEntryForNewClient ctx (some (slot.getD newGroupCache)) c info := by
  cases slot <;> rfl

/-- `add_cache_entry_for_new_client` looks the group up, starts its first version if it has none,
and puts the entry. -/
theorem addCacheEntryForNewClient_put (ctx : GpCtx) (g : GroupCache) (c : ℕ) (info : RankInfo) :
    ∃ (num : ℕ) (g₀ g₁ : GroupCache), g₀ = { getGroupCacheInternal ctx.gpUid (some g) info.groupSize with
        persistent := { (getGroupCacheInternal ctx.gpUid (some g) info.groupSize).persistent with num := num } } ∧
      g₁ = g₀.learnGroupSize ctx.hosts info.groupSize ∧ addCacheEntryForNewClient ctx (some g) c info =
        { g₁.putLocalEntry (sizeT info.groupRank) info.nLocalRanks (localEntry ctx c info) with
          topo := g₁.topo.updateTopologyData ctx.hosts g₁.groupUid g₁.groupSize (sizeT info.groupRank) ctx.globalId
            ctx.hostUid } := by
  unfold addCacheEntryForNewClient
  generalize getGroupCacheInternal ctx.gpUid (some g) info.groupSize = g₀
  dsimp only
  split
  · exact ⟨1, _, _, rfl, rfl, rfl⟩
  · exact ⟨g₀.persistent.num, g₀, _, rfl, rfl, rfl⟩

/-- `local_rank_connect_default_callback`, with what was emitted before it. -/
def localRankConnectDefaultCallback (ctx : GpCtx) (r : Option GroupCache × List Effect) (info : RankInfo) :
    Option GroupCache × List Effect :=
  if info.groupUid = INT_MAX then r
  else
    let g := getGroupCacheInternal ctx.gpUid r.1 info.groupSize
    let s : GpState := if g.full then sendGpCacheToHost ⟨g, r.2⟩ else ⟨g, r.2⟩
    (some s.gp, s.out)

/-- `finalize_client_connection`, for a rank that connects to its SP. -/
def finalizeClientConnection (ctx : GpCtx) (slot : Option GroupCache) (clientId : ℕ) (info : RankInfo) :
    Option GroupCache × List Effect :=
  if info.groupUid = INT_MAX ∨ info.groupRank = INVALID_RANK then
    localRankConnectDefaultCallback ctx (slot, []) info
  else
    let s := groupCacheExchange ctx ⟨addCacheEntryForNewClient ctx slot clientId info, []⟩ (sizeT info.nLocalRanks)
    localRankConnectDefaultCallback ctx (some s.gp, s.out) info

/-- The end of the bootstrapping in `progress_client_econtext`, with what it does to the
group of the rank. -/
def progressClientEcontextDone (ctx : GpCtx) (slot : Option GroupCache) (info : RankInfo) : Option GroupCache :=
  if info.groupUid = INT_MAX ∨ info.groupRank = INVALID_RANK then slot
  else
    let g := getGroupCacheInternal ctx.gpUid slot info.groupSize
    let g := if ctx.onDpu then g else hostAddLocalRankToCache ctx (some g) info
    some { g with
      topo := g.topo.updateTopologyData ctx.hosts g.groupUid g.groupSize (sizeT info.groupRank) ctx.globalId
        info.hostInfo }

end DpuOffload
