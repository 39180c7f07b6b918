import DpuOffload.Cache.Exchange

/-!
# Revoking a group

The callbacks of the revoke protocol. A local rank that frees the group tells its SP
(`handle_revoke_group_rank_through_rank_info`); when all its local ranks have, the SP
tells the other SPs (`broadcast_group_cache_revoke`), which mark the ranks reported or
put the message aside (`handle_revoke_group_rank_through_list_ranks`). When all ranks
of the group are marked, the SP posts the final revoke to its local ranks
(`send_revoke_group_to_ranks`), and resets the group when these sends are complete
(`revoke_send_to_host_cb`, `revoke_group_cache`). Messages put aside are taken up by
`HANDLE_PENDING_GROUP_REVOKE_MSGS_FROM_SPS`, which also runs when the cache has been
sent to the local ranks (`group_cache_send_to_local_ranks_cb`).
-/

namespace DpuOffload

/-! ### Marking ranks -/

/-- The marking loop shared by the two places that apply a message of an SP: the bitset
with the ranks reported set, and the ranks that were not set before. -/
def markRanks (b : Bitset) (ranks : List ℕ) : Bitset × List ℕ :=
  ranks.foldl (fun acc r => if acc.1.test r then acc else (acc.1.set r, acc.2 ++ [r])) (b, [])

/-- Apply a revoke message of an SP: the new group cache and the ranks newly marked. -/
def GroupCache.applyRevokeMsg (g : GroupCache) (m : GroupRevokeMsgFromSp) : GroupCache × List ℕ :=
  let r := markRanks (g.revokesRanks.getD []) m.carried
  ({ g with revokesRanks := some r.1, revokesGlobal := g.revokesGlobal + r.2.length }, r.2)

/-- The record of an applied message. -/
def marksOf (g : GroupCache) (m : GroupRevokeMsgFromSp) (new : List ℕ) : List Effect :=
  new.map fun r => .markedFromSp r m.gpSeqNum g.persistent.num

/-- One turn of `HANDLE_PENDING_GROUP_REVOKE_MSGS_FROM_SPS`. -/
def handlePendingRevokeMsg (acc : GpState × ℕ) (m : GroupRevokeMsgFromSp) : GpState × ℕ :=
  let g := { acc.1.gp with revokesRanks := some (bitsetCreate acc.1.gp.revokesRanks acc.1.gp.groupSize) }
  let r := g.applyRevokeMsg m
  (⟨r.1, acc.1.out ++ marksOf g m r.2⟩, acc.2 + r.2.length)

/-- `HANDLE_PENDING_GROUP_REVOKE_MSGS_FROM_SPS`, with the number of new revokes. -/
def handlePendingGroupRevokeMsgsFromSps (s : GpState) : GpState × ℕ :=
  s.gp.persistent.pendingGroupRevokeMsgsFromSps.foldl handlePendingRevokeMsg
    ({ s with gp := { s.gp with persistent := { s.gp.persistent with pendingGroupRevokeMsgsFromSps := [] } } }, 0)

/-! ### The final revoke -/

/-- `send_revoke_group_to_ranks`. -/
def sendRevokeGroupToRanks (s : GpState) : GpState where
  gp := { s.gp with persistent := { s.gp.persistent with revokeSendToHostPosted := s.gp.persistent.num } }
  out := s.out ++ [.revokeToRanks s.gp.groupSize s.gp.persistent.num]

/-- Has every rank revoked the group, with the final revoke still to be posted? -/
def GroupCache.finalRevokeDue (g : GroupCache) : Bool :=
  g.revokesGlobal == g.groupSize && g.persistent.revokeSendToHostPosted < g.persistent.num

/-- `group_cache_send_to_local_ranks_cb`: the sends of the cache to the local ranks are complete. -/
def groupCacheSendToLocalRanksCb (g : GroupCache) : GpState :=
  let s : GpState := ⟨{ g with persistent := { g.persistent with sentToHost := g.persistent.num } }, []⟩
  let r := handlePendingGroupRevokeMsgsFromSps s
  if 0 < r.2 ∧ r.1.gp.finalRevokeDue then sendRevokeGroupToRanks r.1 else r.1

/-- `revoke_group_cache`. The query it starts with initialises a group that was reset. -/
def revokeGroupCache (ctx : GpCtx) (s : GpState) : GpState :=
  let g := getGroupCache ctx.gpUid (some s.gp)
  handlePendingCacheEntries ctx ⟨resetGroupCache g, s.out ++ [.revoked g.persistent.num]⟩

/-- `handle_pending_group_cache_add_msgs`. -/
def handlePendingGroupCacheAddMsgs (ctx : GpCtx) (s : GpState) : GpState :=
  s.gp.persistent.pendingGroupAddMsgs.foldl
    (fun s p => doAddGroupRank ctx
      { s with gp := getGroupCacheInternal ctx.gpUid (some s.gp) p.data.rankInfo.groupSize } p.clientId p.data)
    { s with gp := { s.gp with persistent := { s.gp.persistent with pendingGroupAddMsgs := [] } } }

/-- `revoke_send_to_host_cb`: the sends of the final revoke are complete. -/
def revokeSendToHostCb (ctx : GpCtx) (g : GroupCache) : GpState :=
  let g := { g with persistent := { g.persistent with revokeSentToHost := g.persistent.revokeSendToHostPosted } }
  handlePendingGroupCacheAddMsgs ctx (revokeGroupCache ctx ⟨g, []⟩)

/-! ### Revokes of local ranks -/

/-- A message of `send_local_revoke_rank_group_cache`: `num` ranks from `start` on. -/
def GroupCache.revokeMsg (g : GroupCache) (start num : ℕ) : GroupRevokeMsgFromSp where
  rankStart := start
  ranks := (List.range num).map fun k => if g.revoked (start + k) then 1 else 0
  gpUid := g.groupUid
  groupSize := g.groupSize
  gpSeqNum := g.persistent.num

/-- The loop of `send_local_revoke_rank_group_cache` from rank `sent` on, `1024` ranks
at most in a message. -/
def sendLocalRevokeLoop (g : GroupCache) : ℕ → ℕ → List GroupRevokeMsgFromSp
  | 0, _ => []
  | fuel + 1, sent =>
    if sent < g.groupSize then
      let current := if g.groupSize - sent < 1024 then g.groupSize - sent else 1024
      g.revokeMsg sent current :: sendLocalRevokeLoop g fuel (sent + current)
    else []

/-- `send_local_revoke_rank_group_cache`: the messages it sends to a destination. -/
def sendLocalRevokeRankGroupCache (g : GroupCache) : List GroupRevokeMsgFromSp :=
  if !g.initialized then [] else sendLocalRevokeLoop g g.groupSize 0

/-- `broadcast_group_cache_revoke`. -/
def broadcastGroupCacheRevoke (ctx : GpCtx) (s : GpState) : GpState :=
  if ctx.numServiceProcs = 1 then s
  else s.emit (ctx.otherSps.flatMap fun dest => (sendLocalRevokeRankGroupCache s.gp).map (.revokeToSp dest))

/-- Mark a local rank. -/
def GroupCache.markLocalRank (g : GroupCache) (rank : ℕ) : GroupCache :=
  { g with
    revokesRanks := g.revokesRanks.map (·.set rank)
    revokesLocal := g.revokesLocal + 1
    revokesGlobal := g.revokesGlobal + 1 }

/-- `handle_revoke_group_rank_through_rank_info`, once the group has been looked up. -/
def handleRankRevoke (ctx : GpCtx) (g : GroupCache) (info : RankInfo) : GpState :=
  if g.groupSize ≠ g.numLocalEntries then
    ⟨{ g with persistent := { g.persistent with
      pendingGroupRevokeMsgsFromRanks := g.persistent.pendingGroupRevokeMsgsFromRanks ++ [info] } }, []⟩
  else
    let rank := sizeT info.groupRank
    let s : GpState := ⟨g.markLocalRank rank, [.markedFromRank rank info.groupSeqNum g.persistent.num]⟩
    let s := if s.gp.revokesLocal = s.gp.spRanks then
        -- all the local ranks are there: tell the other SPs, and take up what they told us
        (handlePendingGroupRevokeMsgsFromSps (broadcastGroupCacheRevoke ctx s)).1
      else s
    if s.gp.finalRevokeDue then sendRevokeGroupToRanks s else s

/-- `handle_revoke_group_rank_through_rank_info`. -/
def handleRevokeGroupRankThroughRankInfo (ctx : GpCtx) (slot : Option GroupCache) (info : RankInfo) :
    Option GroupCache × List Effect :=
  if info.groupUid = INT_MAX then (slot, [])
  else
    let s := handleRankRevoke ctx (getGroupCacheInternal ctx.gpUid slot info.groupSize) info
    (some s.gp, s.out)

/-! ### Revokes of other SPs -/

/-- Must a revoke message of an SP wait? -/
def GroupCache.delaysSpRevoke (g : GroupCache) : Bool :=
  !g.initialized || g.groupSize != g.numLocalEntries || g.spRanks != g.revokesLocal

/-- A group first heard of through the message learns its size from it. -/
def GroupCache.learnFromRevoke (g : GroupCache) (m : GroupRevokeMsgFromSp) : GroupCache :=
  if g.groupSize = 0 then
    { g with groupSize := m.groupSize, revokesRanks := some (bitsetCreate g.revokesRanks m.groupSize) }
  else g

/-- `handle_revoke_group_rank_through_list_ranks` on an SP, once the group has been looked up. -/
def handleSpRevoke (g : GroupCache) (m : GroupRevokeMsgFromSp) : GpState :=
  if g.delaysSpRevoke then
    ⟨{ g with persistent := { g.persistent with
      pendingGroupRevokeMsgsFromSps := g.persistent.pendingGroupRevokeMsgsFromSps ++ [m] } }, []⟩
  else
    let g := g.learnFromRevoke m
    let r := g.applyRevokeMsg m
    let s : GpState := ⟨r.1, marksOf g m r.2⟩
    if r.2 ≠ [] ∧ s.gp.finalRevokeDue then sendRevokeGroupToRanks s else s

/-! ### On a host -/

/-- `host_add_local_rank_to_cache`. -/
def hostAddLocalRankToCache (ctx : GpCtx) (slot : Option GroupCache) (info : RankInfo) : GroupCache :=
  let g := getGroupRankCacheEntry ctx.hosts ctx.gpUid slot info.groupSize
  let rank := sizeT info.groupRank
  let g := if g.numLocalEntries = 0 then { g with persistent := { g.persistent with num := info.groupSeqNum } } else g
  let old := g.entryAt rank
  let g := g.setEntryAt rank
    { old with
      shadowServiceProcs := old.shadowServiceProcs ++ [ctx.globalId]
      peer := { old.peer with
        procInfo := { old.peer.procInfo with
          groupUid := info.groupUid, groupRank := info.groupRank
          groupSize := info.groupSize, nLocalRanks := info.nLocalRanks }
        hostInfo := info.hostInfo }
      set := true }
  let g := { g with numLocalEntries := g.numLocalEntries + 1 }
  if ctx.globalId ≠ UINT64_MAX then
    { g with topo := g.topo.updateTopologyData ctx.hosts g.groupUid g.groupSize rank ctx.globalId info.hostInfo }
  else g

/-- `do_send_add_group_rank_request`. -/
def doSendAddGroupRankRequest (ctx : GpCtx) (s : GpState) (m : GroupAddMsg) : GpState :=
  let g := (getGroupCacheInternal ctx.gpUid (some s.gp) m.rankInfo.groupSize).switchVersion
  let info := { m.rankInfo with groupSeqNum := g.persistent.num }
  let g := g.learnGroupSize ctx.hosts info.groupSize
  let g := if g.isSet (sizeT info.groupRank) then g else hostAddLocalRankToCache ctx (some g) info
  ⟨g, s.out ++ [.addToSp { m with rankInfo := info }]⟩

/-- `send_add_group_rank_request`: a rank asks to join; a group being revoked makes it wait. -/
def sendAddGroupRankRequest (ctx : GpCtx) (slot : Option GroupCache) (m : GroupAddMsg) : GpState :=
  let g := getGroupCacheInternal ctx.gpUid slot m.rankInfo.groupSize
  if g.revokesGlobal = 0 then doSendAddGroupRankRequest ctx ⟨g, []⟩ m
  else
    ⟨{ g with persistent := { g.persistent with
      pendingSendGroupAddMsgs := g.persistent.pendingSendGroupAddMsgs ++ [⟨m⟩] } }, []⟩

/-- `send_revoke_group_rank_request_through_rank_info`, on a host, for a group that is not the world group. -/
def sendRevokeGroupRankRequestThroughRankInfo (ctx : GpCtx) (slot : Option GroupCache) (info : RankInfo) : GpState :=
  let g := getGroupCacheInternal ctx.gpUid slot info.groupSize
  ⟨{ g with revokesLocal := g.revokesLocal + 1, revokesGlobal := g.revokesGlobal + 1 },
    [.revokeRankToSp { info with groupSeqNum := g.persistent.num }]⟩

/-- `handle_revoke_group_rank_through_list_ranks` on a host, once the group has been looked
up: the final revoke, after which one add request that waited is sent. -/
def handleFinalRevoke (ctx : GpCtx) (g : GroupCache) : GpState :=
  let s := revokeGroupCache ctx ⟨g, []⟩
  match s.gp.persistent.pendingSendGroupAddMsgs with
  | [] => s
  | p :: ps =>
    doSendAddGroupRankRequest ctx
      { s with gp := { s.gp with persistent := { s.gp.persistent with pendingSendGroupAddMsgs := ps } } } p.msg

/-- `handle_revoke_group_rank_through_list_ranks`. -/
def handleRevokeGroupRankThroughListRanks (ctx : GpCtx) (slot : Option GroupCache) (m : GroupRevokeMsgFromSp) :
    GpState :=
  let g := getGroupCacheInternal ctx.gpUid slot m.groupSize
  if ctx.onDpu then handleSpRevoke g m else handleFinalRevoke ctx g

/-! ### What an addition on a host does -/

/-- The entry `host_add_local_rank_to_cache` writes. -/
def GroupCache.hostEntry (g : GroupCache) (ctx : GpCtx) (info : RankInfo) : PeerCacheEntry :=
  let old := g.entryAt (sizeT info.groupRank)
  { old with
    shadowServiceProcs := old.shadowServiceProcs ++ [ctx.globalId]
    peer := { old.peer with
      procInfo := { old.peer.procInfo with
        groupUid := info.groupUid, groupRank := info.groupRank
        groupSize := info.groupSize, nLocalRanks := info.nLocalRanks }
      hostInfo := info.hostInfo }
    set := true }

theorem hostAddLocalRankToCache_eq (ctx : GpCtx) (slot : Option GroupCache) (info : RankInfo) {g : GroupCache}
    (hg : getGroupRankCacheEntry ctx.hosts ctx.gpUid slot info.groupSize = g) :
    hostAddLocalRankToCache ctx slot info = { g with
      persistent := { g.persistent with num := if g.numLocalEntries = 0 then info.groupSeqNum else g.persistent.num }
      topo := if ctx.globalId ≠ UINT64_MAX then
          g.topo.updateTopologyData ctx.hosts g.groupUid g.groupSize (sizeT info.groupRank) ctx.globalId info.hostInfo
        else g.topo
      numLocalEntries := g.numLocalEntries + 1
      ranks := g.ranks.map (·.set (sizeT info.groupRank) (g.hostEntry ctx info)) } := by
  simp only [hostAddLocalRankToCache, hg]
  by_cases hm : ctx.globalId ≠ UINT64_MAX
  · rw [if_pos hm, if_pos hm]
    by_cases hn : g.numLocalEntries = 0
    · simp only [if_pos hn]; rfl
    · simp only [if_neg hn]; rfl
  · rw [if_neg hm, if_neg hm]
    by_cases hn : g.numLocalEntries = 0
    · simp only [if_pos hn]; rfl
    · simp only [if_neg hn]; rfl

/-! ### What marking does -/

theorem mem_carried {m : GroupRevokeMsgFromSp} {r : ℕ} (h : r ∈ m.carried) : r < m.rankStart + m.numRanks := by
  unfold GroupRevokeMsgFromSp.carried at h
  obtain ⟨k, hk, h⟩ := List.mem_filterMap.1 h
  have hk := List.mem_range.1 hk
  split at h
  · cases h; omega
  · cases h

/-- The marking loop from any point on. -/
theorem markRanks_foldl (ranks : List ℕ) (acc : Bitset × List ℕ) (h : ∀ r ∈ ranks, r < acc.1.capacity) :
    let res := ranks.foldl (fun acc r => if acc.1.test r then acc else (acc.1.set r, acc.2 ++ [r])) acc
    res.1.capacity = acc.1.capacity ∧ res.1.bits = acc.1.bits ∪ ranks.toFinset ∧
      res.1.bits.card + acc.2.length = acc.1.bits.card + res.2.length ∧
      ∀ r, r ∈ res.2 ↔ r ∈ acc.2 ∨ r ∈ ranks ∧ r ∉ acc.1.bits := by
  induction ranks generalizing acc with
  | nil => simp
  | cons r ranks ih =>
    have hr : r < acc.1.capacity := h r (by simp)
    simp only [List.foldl_cons]
    split
    · rename_i ht
      have hmem : r ∈ acc.1.bits := Bitset.mem_bits.2 ht
      obtain ⟨h₁, h₂, h₃, h₄⟩ := ih acc fun q hq => h q (by simp [hq])
      refine ⟨h₁, ?_, h₃, fun q => ?_⟩
      · rw [h₂]
        ext q
        by_cases hq : q = r <;> simp [hq, hmem]
      · rw [h₄]
        by_cases hq : q = r <;> simp [hq, hmem]
    · rename_i ht
      have hmem : r ∉ acc.1.bits := fun hm => ht (Bitset.mem_bits.1 hm)
      have hc : (acc.1.set r).capacity = acc.1.capacity := Bitset.capacity_set _ _
      obtain ⟨h₁, h₂, h₃, h₄⟩ := ih (acc.1.set r, acc.2 ++ [r]) fun q hq => by rw [hc]; exact h q (by simp [hq])
      refine ⟨h₁.trans hc, ?_, ?_, fun q => ?_⟩
      · rw [h₂, Bitset.bits_set hr]
        ext q
        simp
      · rw [Bitset.bits_set hr, Finset.card_insert_of_notMem hmem, List.length_append, List.length_singleton] at h₃
        omega
      · rw [h₄, Bitset.bits_set hr]
        by_cases hq : q = r <;> simp [hq, hmem]

theorem capacity_markRanks {b : Bitset} {ranks : List ℕ} (h : ∀ r ∈ ranks, r < b.capacity) :
    (markRanks b ranks).1.capacity = b.capacity :=
  (markRanks_foldl ranks (b, []) h).1

theorem bits_markRanks {b : Bitset} {ranks : List ℕ} (h : ∀ r ∈ ranks, r < b.capacity) :
    (markRanks b ranks).1.bits = b.bits ∪ ranks.toFinset :=
  (markRanks_foldl ranks (b, []) h).2.1

theorem card_bits_markRanks {b : Bitset} {ranks : List ℕ} (h : ∀ r ∈ ranks, r < b.capacity) :
    (markRanks b ranks).1.bits.card = b.bits.card + (markRanks b ranks).2.length := by
  simpa [markRanks] using (markRanks_foldl ranks (b, []) h).2.2.1

theorem mem_markRanks {b : Bitset} {ranks : List ℕ} (h : ∀ r ∈ ranks, r < b.capacity) {r : ℕ} :
    r ∈ (markRanks b ranks).2 ↔ r ∈ ranks ∧ r ∉ b.bits := by
  simpa [markRanks] using (markRanks_foldl ranks (b, []) h).2.2.2 r

end DpuOffload
