import DpuOffload.Cache.GroupCache

/-!
# Filling and exchanging the cache of a group

The callbacks that add entries to a group cache and send it around: a batch of
entries from another process (`peer_cache_entries_recv_cb`,
`handle_peer_cache_entries_recv`), an add message of a local rank
(`do_add_group_rank_recv_cb`), the broadcast of the local entries to the other SPs
(`GROUP_CACHE_EXCHANGE`, `broadcast_group_cache`, `send_local_rank_group_cache`), and
the sending of the complete cache to the local ranks (`send_gp_cache_to_host`).

A callback works on the slot of one group and returns the new slot with what it
emitted, in order. What it reads of the engine besides is a `GpCtx`. Sends to the
local ranks are tracked by a meta-event whose callback runs when they are complete;
here that is always later, as a step of its own.
-/

namespace DpuOffload

/-- What the callbacks for a group read of the engine. -/
structure GpCtx where
  /-- The key of the group in the cache. -/
  gpUid : ℤ
  /-- Is the engine an SP? -/
  onDpu : Bool
  /-- `num_service_procs`. -/
  numServiceProcs : ℕ
  /-- `num_connected_service_procs`. -/
  numConnectedServiceProcs : ℕ
  /-- `config->num_service_procs_per_dpu`. -/
  numServiceProcsPerDpu : ℕ
  /-- `config->local_service_proc.info.global_id`. -/
  globalId : ℕ
  /-- `config->local_service_proc.info.local_id`. -/
  localId : ℕ
  /-- `config->local_service_proc.host_uid`. -/
  hostUid : ℕ
  /-- The hosts of the configuration. -/
  hosts : HostsConfig
  /-- `procs_cache.size`, once the group is in the cache. -/
  cacheSize : ℕ
  /-- The entries of the world group, unless this group is the world group. -/
  world : Option (List PeerCacheEntry)
  /-- The address of a connected client. -/
  peerAddr : ℕ → List UInt8

/-- What a callback emits. The last four record what it did. -/
inductive Effect where
  /-- Entries to another SP. -/
  | entriesToSp (dest : ℕ) (batch : List PeerCacheEntry)
  /-- A revoke message to another SP. -/
  | revokeToSp (dest : ℕ) (msg : GroupRevokeMsgFromSp)
  /-- The complete cache to the connected ranks, under a meta-event. -/
  | cacheToRanks (entries : List PeerCacheEntry)
  /-- The final revoke to the connected ranks, under a meta-event. -/
  | revokeToRanks (groupSize gpSeqNum : ℕ)
  /-- On a host, an add message to the SP. -/
  | addToSp (msg : GroupAddMsg)
  /-- On a host, a revoke message to the SP. -/
  | revokeRankToSp (info : RankInfo)
  /-- The local entries were broadcast. -/
  | broadcast
  /-- A rank was marked as revoked, for a message of version `seq`, at version `num`. -/
  | markedFromSp (rank seq num : ℕ)
  /-- A local rank was marked as revoked. -/
  | markedFromRank (rank seq num : ℕ)
  /-- The group was reset. -/
  | revoked (num : ℕ)
  deriving DecidableEq

/-- A group cache in a callback, and what the callback has emitted. -/
structure GpState where
  /-- The group cache. -/
  gp : GroupCache
  /-- What was emitted. -/
  out : List Effect

/-- Emit. -/
def GpState.emit (s : GpState) (es : List Effect) : GpState := { s with out := s.out ++ es }

/-! ### The cache to the local ranks -/

/-- `send_gp_cache_to_host`: once per version, as far as completed sends tell. -/
def sendGpCacheToHost (s : GpState) : GpState :=
  if s.gp.persistent.sentToHost < s.gp.persistent.num then
    { gp := { s.gp with topo := s.gp.topo.doPopulateGroupCacheLookupTable }
      out := s.out ++ [.cacheToRanks (s.gp.entries.take s.gp.groupSize)] }
  else s

/-! ### A batch of entries -/

/-- A first entry in an empty group is a new version of the group. -/
def GroupCache.switchVersion (g : GroupCache) : GroupCache :=
  if g.numLocalEntries = 0 then { g with persistent := { g.persistent with num := g.persistent.num + 1 } } else g

/-- The loop of `handle_peer_cache_entries_recv` for an entry that is not in the cache. -/
def GroupCache.addPeerEntry (g : GroupCache) (ctx : GpCtx) (e : PeerCacheEntry) : GroupCache :=
  let rank := sizeT e.peer.procInfo.groupRank
  let g := g.switchVersion
  let g := { g with
    numLocalEntries := g.numLocalEntries + 1
    topo := e.shadowServiceProcs.foldl
      (fun t sp => t.updateTopologyData ctx.hosts g.groupUid g.groupSize rank sp e.peer.hostInfo) g.topo }
  g.setEntryAt rank
    { set := true
      peer := e.peer
      clientId := e.clientId
      shadowServiceProcs := (g.entryAt rank).shadowServiceProcs ++ e.shadowServiceProcs }

/-- One turn of the loop of `handle_peer_cache_entries_recv`; `groupSize` is that of
the first entry of the batch, and the second component counts the entries added. -/
def recvPeerEntry (ctx : GpCtx) (groupSize : ℤ) (acc : GroupCache × ℕ) (e : PeerCacheEntry) : GroupCache × ℕ :=
  let g := acc.1.learnGroupSize ctx.hosts groupSize
  if g.isSet (sizeT e.peer.procInfo.groupRank) then (g, acc.2) else (g.addPeerEntry ctx e, acc.2 + 1)

/-- The group size a batch announces. -/
def batchGroupSize (batch : List PeerCacheEntry) : ℤ :=
  (batch.headD initPeerCacheEntry).peer.procInfo.groupSize

/-- The version a batch announces. -/
def batchSeqNum (batch : List PeerCacheEntry) : ℕ :=
  (batch.headD initPeerCacheEntry).peer.procInfo.groupSeqNum

/-- `handle_peer_cache_entries_recv`. -/
def handlePeerCacheEntriesRecv (ctx : GpCtx) (s : GpState) (batch : List PeerCacheEntry) : GpState :=
  let g := getGroupCacheInternal ctx.gpUid (some s.gp) (batchGroupSize batch)
  let r := batch.foldl (recvPeerEntry ctx (batchGroupSize batch)) (g, 0)
  let allRanksAreLocal : Bool := ctx.numServiceProcsPerDpu == 1 && r.1.groupSize == r.1.nLocalRanks
  if ctx.onDpu ∧ 0 < r.2 ∧ 0 < r.1.groupSize ∧ r.1.full ∧ !allRanksAreLocal then sendGpCacheToHost ⟨r.1, s.out⟩
  else ⟨r.1, s.out⟩

/-- `HANDLE_PENDING_CACHE_ENTRIES`. -/
def handlePendingCacheEntries (ctx : GpCtx) (s : GpState) : GpState :=
  s.gp.persistent.pendingRecvCacheEntries.foldl (fun s p => handlePeerCacheEntriesRecv ctx s p.payload)
    { s with gp := { s.gp with persistent := { s.gp.persistent with pendingRecvCacheEntries := [] } } }

/-- `is_group_ready`: can entries of version `recvdSeqNum` be handled? -/
def isGroupReady (g : GroupCache) (recvdSeqNum : ℕ) : Bool :=
  if 0 < g.persistent.num then
    if g.persistent.num = recvdSeqNum + 1 ∧ g.numLocalEntries = 0 then false
    else if g.persistent.num ≠ recvdSeqNum then false
    else true
  else true

/-- `peer_cache_entries_recv_cb`: a batch of entries that came from SP `spGid`. -/
def peerCacheEntriesRecvCb (ctx : GpCtx) (slot : Option GroupCache) (spGid : ℕ) (batch : List PeerCacheEntry) :
    GpState :=
  let g := getGroupCacheInternal ctx.gpUid slot (batchGroupSize batch)
  if 0 < g.revokesGlobal ∨ !isGroupReady g (batchSeqNum batch) then
    -- queued until the group is fully revoked
    { gp := { g with persistent := { g.persistent with
        pendingRecvCacheEntries := g.persistent.pendingRecvCacheEntries ++ [⟨spGid, batch⟩] } }
      out := [] }
  else handlePeerCacheEntriesRecv ctx ⟨g, []⟩ batch

/-! ### The broadcast of the local entries -/

/-- The loop of `find_range_local_ranks` over the entries from `idx` on: the start of
the range, once found, and the number of local entries in it. It gives the start,
the number, and where it stopped; it gives nothing when it runs off the array. -/
def findRangeLoop (gid totalCount curCount : ℕ) :
    List PeerCacheEntry → ℕ → Option ℕ → ℕ → Option (ℕ × ℕ × ℕ)
  | es, idx, some start, count =>
    if curCount + count = totalCount then some (start, count, idx)
    else match es with
      | [] => none
      | e :: es =>
        if !e.set then findRangeLoop gid totalCount curCount es (idx + 1) (some start) count
        else if start < idx ∧ INVALID_RANK ≠ e.peer.procInfo.groupRank then some (start, count, idx)
        else findRangeLoop gid totalCount curCount es (idx + 1) (some start)
          (if e.shadow0 = gid then count + 1 else count)
  | [], _, none, _ => none
  | e :: es, idx, none, count =>
    if !e.set then findRangeLoop gid totalCount curCount es (idx + 1) none count
    else if e.shadow0 = gid then
      -- the range starts here; the test for its end needs a later entry
      findRangeLoop gid totalCount curCount es (idx + 1) (some idx) (count + 1)
    else findRangeLoop gid totalCount curCount es (idx + 1) none count

/-- `find_range_local_ranks`. -/
def findRangeLocalRanks (g : GroupCache) (gid startIdx totalCount curCount : ℕ) : Option (ℕ × ℕ × ℕ) :=
  findRangeLoop gid totalCount curCount (g.entries.drop startIdx) startIdx none 0

/-- The loop of `send_local_rank_group_cache`: the batches from `idx` on, when `count`
local entries have been sent. Each turn sends at least one entry. -/
def sendLocalRanksLoop (g : GroupCache) (gid : ℕ) : ℕ → ℕ → ℕ → Option (List (List PeerCacheEntry))
  | 0, _, _ => some []
  | fuel + 1, count, idx =>
    if count < g.nLocalRanksPopulated then do
      let (start, num, idx) ← findRangeLocalRanks g gid idx g.nLocalRanksPopulated count
      let rest ← sendLocalRanksLoop g gid fuel (count + num) idx
      some ((g.entries.drop start).take num :: rest)
    else some []

/-- `send_local_rank_group_cache`: the batches it sends to a destination. -/
def sendLocalRankGroupCache (g : GroupCache) (gid : ℕ) : Option (List (List PeerCacheEntry)) :=
  if !g.initialized then some [] else sendLocalRanksLoop g gid g.nLocalRanksPopulated 0 0

/-- The other SPs, in the order broadcasts go through them. -/
def GpCtx.otherSps (ctx : GpCtx) : List ℕ := (List.range ctx.numServiceProcs).filter (· ≠ ctx.globalId)

/-- `all_service_procs_connected`. -/
def GpCtx.allServiceProcsConnected (ctx : GpCtx) : Bool :=
  ctx.onDpu && ctx.numServiceProcs == ctx.numConnectedServiceProcs + 1

/-- The notifications of a broadcast of the local entries. -/
def broadcastMsgs (ctx : GpCtx) (g : GroupCache) : List Effect :=
  ctx.otherSps.flatMap fun dest => ((sendLocalRankGroupCache g ctx.globalId).getD []).map (.entriesToSp dest)

/-- `broadcast_group_cache`. -/
def broadcastGroupCache (ctx : GpCtx) (s : GpState) : GpState :=
  if !ctx.allServiceProcsConnected then s
  else
    let s := s.emit (.broadcast :: if 1 < ctx.numServiceProcs then broadcastMsgs ctx s.gp else [])
    if s.gp.full then sendGpCacheToHost s else s

/-- `get_num_connecting_ranks`. -/
def getNumConnectingRanks (numServiceProcsPerDpu nLocalRanks spLid : ℕ) : ℕ :=
  let base := nLocalRanks / numServiceProcsPerDpu
  let rest := nLocalRanks - numServiceProcsPerDpu * base
  if spLid < rest then base + 1 else base

/-- `GROUP_CACHE_EXCHANGE`. Its last test, `n_local_ranks < 0`, is about a `size_t`. -/
def groupCacheExchange (ctx : GpCtx) (s : GpState) (nLocalRanks : ℕ) : GpState :=
  if ctx.cacheSize = 1 then
    if 0 < s.gp.nLocalRanks ∧
        s.gp.nLocalRanksPopulated = getNumConnectingRanks ctx.numServiceProcsPerDpu nLocalRanks ctx.localId then
      broadcastGroupCache ctx s
    else s
  else if nLocalRanks = s.gp.nLocalRanksPopulated then broadcastGroupCache ctx s
  else s

/-! ### An add message of a local rank -/

/-- `rank_is_on_sp`. -/
def rankIsOnSp (ctx : GpCtx) (g : GroupCache) (worldRank : ℤ) : Bool :=
  ((ctx.world.getD g.entries).getD (sizeT worldRank) initPeerCacheEntry).shadow0 == ctx.globalId

/-- The entry `do_add_group_rank_recv_cb` writes. -/
def localEntry (ctx : GpCtx) (clientId : ℕ) (info : RankInfo) : PeerCacheEntry where
  set := true
  peer := { procInfo := info, hostInfo := info.hostInfo, addr := ctx.peerAddr clientId }
  clientId := clientId
  shadowServiceProcs := [ctx.globalId]

/-- What an addition of a local rank does to the entry and the counters. -/
def GroupCache.putLocalEntry (g : GroupCache) (rank : ℕ) (nLocalRanks : ℤ) (e : PeerCacheEntry) : GroupCache :=
  { g.setEntryAt rank e with
    nLocalRanks := if g.nLocalRanks = 0 ∧ 0 ≤ nLocalRanks then sizeT nLocalRanks else g.nLocalRanks
    nLocalRanksPopulated := g.nLocalRanksPopulated + 1
    numLocalEntries := g.numLocalEntries + 1 }

/-- The body of `do_add_group_rank_recv_cb` for a rank that is not in the cache. -/
def GroupCache.addGroupRank (g : GroupCache) (ctx : GpCtx) (clientId : ℕ) (m : GroupAddMsg) : GroupCache :=
  let rank := sizeT m.rankInfo.groupRank
  let g := g.switchVersion.putLocalEntry rank m.rankInfo.nLocalRanks (localEntry ctx clientId m.rankInfo)
  { g with
    spRanks := if g.spRanks = 0 then (m.worldRanks.filter (rankIsOnSp ctx g)).length else g.spRanks
    topo := g.topo.updateTopologyData ctx.hosts g.groupUid g.groupSize rank ctx.globalId ctx.hostUid }

/-- `do_add_group_rank_recv_cb`, after the group has been looked up. -/
def doAddGroupRank (ctx : GpCtx) (s : GpState) (clientId : ℕ) (m : GroupAddMsg) : GpState :=
  if 0 < s.gp.revokesGlobal then
    { s with gp := { s.gp with persistent := { s.gp.persistent with
        pendingGroupAddMsgs := s.gp.persistent.pendingGroupAddMsgs ++ [⟨clientId, m⟩] } } }
  else
    let g := s.gp.learnGroupSize ctx.hosts m.rankInfo.groupSize
    let g := if g.isSet (sizeT m.rankInfo.groupRank) then g else g.addGroupRank ctx clientId m
    let s := handlePendingCacheEntries ctx { s with gp := g }
    groupCacheExchange ctx s s.gp.spRanks

/-- `do_add_group_rank_recv_cb`. -/
def doAddGroupRankRecvCb (ctx : GpCtx) (slot : Option GroupCache) (clientId : ℕ) (m : GroupAddMsg) :
    Option GroupCache × List Effect :=
  if m.rankInfo.groupUid = INT_MAX ∨ m.rankInfo.groupRank = INVALID_RANK then (slot, [])
  else
    let s := doAddGroupRank ctx ⟨getGroupCacheInternal ctx.gpUid slot m.rankInfo.groupSize, []⟩ clientId m
    (some s.gp, s.out)

/-! ### What additions do -/

/-- The entry `handle_peer_cache_entries_recv` writes. -/
def GroupCache.peerEntry (g : GroupCache) (e : PeerCacheEntry) : PeerCacheEntry where
  set := true
  peer := e.peer
  clientId := e.clientId
  shadowServiceProcs := (g.entryAt (sizeT e.peer.procInfo.groupRank)).shadowServiceProcs ++ e.shadowServiceProcs

theorem addPeerEntry_eq (ctx : GpCtx) (g : GroupCache) (e : PeerCacheEntry) :
    ∃ t, g.addPeerEntry ctx e = { g with
      persistent := g.switchVersion.persistent
      topo := t
      numLocalEntries := g.numLocalEntries + 1
      ranks := g.ranks.map (·.set (sizeT e.peer.procInfo.groupRank) (g.peerEntry e)) } := by
  unfold GroupCache.addPeerEntry GroupCache.switchVersion
  split <;> exact ⟨_, rfl⟩

theorem addGroupRank_eq (ctx : GpCtx) (g : GroupCache) (c : ℕ) (m : GroupAddMsg) :
    ∃ t k sp, g.addGroupRank ctx c m = { g with
      persistent := g.switchVersion.persistent
      topo := t
      numLocalEntries := g.numLocalEntries + 1
      nLocalRanks := k
      nLocalRanksPopulated := g.nLocalRanksPopulated + 1
      spRanks := if g.spRanks = 0 then sp else g.spRanks
      ranks := g.ranks.map (·.set (sizeT m.rankInfo.groupRank) (localEntry ctx c m.rankInfo)) } ∧
      ∃ g', sp = (m.worldRanks.filter (rankIsOnSp ctx g')).length := by
  unfold GroupCache.addGroupRank GroupCache.switchVersion
  split <;> exact ⟨_, _, _, rfl, _, rfl⟩

end DpuOffload
