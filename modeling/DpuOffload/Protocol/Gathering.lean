import DpuOffload.Lib.Gather
import DpuOffload.Protocol.LocalSends
import DpuOffload.Protocol.VersionRuns

/-!
# Gathering the cache of a group

Every SP of a group ends up with the entries of all its ranks, during one version of the group. `Gather` says why: an SP
that has the entries of all its own ranks sends them to the others, and here the SPs do just that
(`Crew.Gathers.step`). What an SP does about a rank that joins and about the entry of a rank of another SP is computed
from its callbacks (`Crew.Holds.join`, `Crew.Holds.recv`). That takes what `Crew.Ready` and `Crew.Joins` say: SPs are
connected before, and know from the world group where the ranks are.

* `gathered_of_reach` — when all ranks have joined and no message is on its way, **every SP has the same complete
  cache**, and has sent it to its ranks once.
* `gather_run` — up to there a run takes a known number of steps, and cannot get stuck.
-/

namespace DpuOffload

open Gather Transition

/-! ### The cache of an SP -/

namespace Crew

variable (C : Crew)

/-- **What the SPs are started with**: each is connected to all others, and knows how many ranks of the group there are
on its host. -/
structure Ready : Prop where
  /-- All SPs are connected. -/
  connected : ∀ i < C.num, (C.sys i).allServiceProcsConnected = true
  /-- When an SP is the only one of its DPU, its ranks are those of the host. -/
  host : ∀ r < C.size, (C.sys (C.spOf r)).numServiceProcsPerDpu = 1 →
    (C.msg r 1).rankInfo.nLocalRanks ≤ (C.locals (C.spOf r)).card

/-- **The cache of an SP that has the entries of some ranks.** -/
structure Holds (i : ℕ) (S : Finset ℕ) (g : GroupCache) : Prop where
  /-- They are ranks of the group. -/
  sub : S ⊆ Finset.range C.size
  /-- A group not in use has none. -/
  idle : ¬ g.Live → S = ∅
  /-- A group in use has room for all. -/
  live : g.Live → g.initialized = true ∧ g.entries.length = C.size
  /-- The size is known once there is one. -/
  size : g.groupSize = C.size ∨ g.groupSize = 0 ∧ S = ∅
  /-- These entries are set. -/
  entry : ∀ r, g.entryAt r = if r ∈ S then C.entry r else initPeerCacheEntry
  /-- `num_local_entries` counts them, -/
  count : g.numLocalEntries = S.card
  /-- `n_local_ranks_populated` those of local ranks, -/
  populated : g.nLocalRanksPopulated = (S ∩ C.locals i).card
  /-- and `sp_ranks` says how many there will be, once there is one. -/
  spRanks : g.spRanks = if S ∩ C.locals i = ∅ then 0 else (C.locals i).card
  /-- No more ranks are on the host than on its only SP. -/
  host : (C.sys i).numServiceProcsPerDpu = 1 → g.nLocalRanks ≤ (C.locals i).card
  /-- It is the first version. -/
  num : g.persistent.num = if S = ∅ then 0 else 1
  /-- It is sent to the ranks when it is complete. -/
  sentToHost : S ≠ Finset.range C.size → g.persistent.sentToHost = 0
  /-- Nothing is put aside, -/
  parked : g.persistent.pendingRecvCacheEntries = []
  /-- nor are revokes, -/
  delayed : g.persistent.pendingGroupRevokeMsgsFromSps = []
  /-- and there are none. -/
  calm : g.revokesGlobal = 0

variable {C} {i r : ℕ} {S : Finset ℕ} {g g' : GroupCache} {v : View}

theorem holds_new : C.Holds i ∅ newGroupCache where
  sub := Finset.empty_subset _
  idle _ := rfl
  live h := absurd rfl h
  size := .inr ⟨rfl, rfl⟩
  entry _ := rfl
  count := rfl
  populated := by rw [Finset.empty_inter]; rfl
  spRanks := by rw [Finset.empty_inter, if_pos rfl]; rfl
  host _ := Nat.zero_le _
  num := rfl
  sentToHost _ := rfl
  parked := rfl
  delayed := rfl
  calm := rfl

theorem Holds.isSet (h : C.Holds i S g) (q : ℕ) : g.isSet q = decide (q ∈ S) := by
  rw [GroupCache.isSet, h.entry]
  split
  · rename_i hq
    rw [decide_eq_true hq]
    exact C.canonical.set q (Finset.mem_range.1 (h.sub hq))
  · rename_i hq
    rw [decide_eq_false hq]
    rfl

/-- The array of entries. -/
theorem Holds.entries (h : C.Holds i S g) (hl : g.Live) :
    g.entries = (List.range C.size).map fun q => if q ∈ S then C.entry q else initPeerCacheEntry := by
  refine List.ext_getElem (by simp [(h.live hl).2]) fun q hq _ => ?_
  rw [List.getElem_map, List.getElem_range, ← h.entry, GroupCache.entryAt, List.getD_eq_getElem _ _ hq]

/-- A lookup. -/
theorem Holds.lookup (h : C.Holds i S g) :
    C.Holds i S (getGroupCacheInternal C.uid (some g) C.size) ∧ (getGroupCacheInternal C.uid (some g) C.size).Live := by
  refine ⟨?_, @live_lookup { C.sys 0 with gpUid := C.uid } C.uid_ne g C.size⟩
  by_cases hl : g.Live
  · rw [getGroupCacheInternal_of_live hl]
    exact h
  · obtain rfl := h.idle hl
    have huid : g.groupUid = INT_MAX := not_not.1 hl
    have hlen : allocEntries (sizeT C.size) = C.size := by rw [sizeT_natCast C.alloc.lt, C.alloc.allocEntries_eq]
    have heq : getGroupCacheInternal C.uid (some g) C.size =
        { initGroupCache g (sizeT C.size) with groupUid := C.uid } := if_pos huid
    rw [heq]
    refine { @holds_new C i with
      idle := fun hd => rfl
      live := fun _ => ⟨rfl, ?_⟩
      entry := fun q => entryAt_replicate (k := allocEntries (sizeT C.size)) rfl q
      num := h.num, sentToHost := h.sentToHost, parked := h.parked, delayed := h.delayed }
    simpa [GroupCache.entries, initGroupCache] using hlen

/-- The size becomes known. -/
theorem Holds.learn (h : C.Holds i S g) (hl : g.Live) (cfg : HostsConfig) :
    C.Holds i S (g.learnGroupSize cfg C.size) ∧ (g.learnGroupSize cfg C.size).groupSize = C.size := by
  have hi := (h.live hl).1
  rcases h.size with hs | ⟨hs, rfl⟩
  · rw [learnGroupSize_of_known (by rw [hs]; exact C.pos.ne')]
    exact ⟨h, hs⟩
  · have hcond : g.initialized = true ∧ g.groupSize = 0 ∧ 0 ≤ (C.size : ℤ) := ⟨hi, hs, Int.natCast_nonneg _⟩
    rw [GroupCache.learnGroupSize, if_pos hcond, sizeT_natCast C.alloc.lt]
    exact ⟨{ h with size := .inl rfl }, rfl⟩

/-- **An entry is added.** -/
theorem Holds.put (h : C.Holds i S g) (hl : g.Live) (hsize : g.groupSize = C.size) (hr : r < C.size) (hnew : r ∉ S)
    (hranks : g'.ranks = g.ranks.map (·.set r (C.entry r))) (huid : g'.groupUid = g.groupUid)
    (hinit : g'.initialized = g.initialized) (hsz : g'.groupSize = g.groupSize)
    (hn : g'.numLocalEntries = g.numLocalEntries + 1) (hp : g'.persistent = g.switchVersion.persistent)
    (hrev : g'.revokesGlobal = g.revokesGlobal)
    (hpop : g'.nLocalRanksPopulated = g.nLocalRanksPopulated + if r ∈ C.locals i then 1 else 0)
    (hsp : g'.spRanks = if r ∈ C.locals i ∧ g.spRanks = 0 then (C.locals i).card else g.spRanks)
    (hloc : (C.sys i).numServiceProcsPerDpu = 1 → g'.nLocalRanks ≤ (C.locals i).card) :
    C.Holds i (insert r S) g' := by
  have hlen : r < g.entries.length := hr.trans_eq (h.live hl).2.symm
  have hl' : g'.Live := by rw [GroupCache.Live, huid]; exact hl
  have hne : S ≠ Finset.range C.size := fun hS => hnew (hS ▸ Finset.mem_range.2 hr)
  have hpers : g'.persistent = { g.persistent with num := 1 } := by
    rw [hp, GroupCache.switchVersion, h.count]
    have hnum := h.num
    by_cases hS : S = ∅
    · rw [if_pos hS] at hnum
      rw [if_pos (by rw [hS]; rfl), hnum]
    · rw [if_neg hS] at hnum
      rw [if_neg (Finset.card_ne_zero.2 (Finset.nonempty_iff_ne_empty.2 hS)), ← hnum]
  refine ⟨Finset.insert_subset (Finset.mem_range.2 hr) h.sub, fun hd => absurd hl' hd, fun _ => ?_,
    .inl (hsz.trans hsize), fun q => ?_, ?_, ?_, ?_, hloc, ?_, fun _ => ?_, ?_, ?_, hrev.trans h.calm⟩
  · rw [hinit, length_entries_map_set hranks]
    exact h.live hl
  · rw [entryAt_map_set hlen hranks, h.entry]
    by_cases hq : q = r
    · rw [if_pos hq, if_pos (Finset.mem_insert.2 (.inl hq)), hq]
    · rw [if_neg hq]
      exact if_congr (Finset.mem_insert.trans (or_iff_right hq)).symm rfl rfl
  · rw [hn, h.count, Finset.card_insert_of_notMem hnew]
  · rw [hpop, h.populated]
    by_cases hrl : r ∈ C.locals i
    · rw [if_pos hrl, Finset.insert_inter_of_mem hrl,
        Finset.card_insert_of_notMem fun hm => hnew (Finset.mem_inter.1 hm).1]
    · rw [if_neg hrl, Finset.insert_inter_of_notMem hrl, Nat.add_zero]
  · rw [hsp]
    have hspr := h.spRanks
    by_cases hrl : r ∈ C.locals i
    · rw [Finset.insert_inter_of_mem hrl, if_neg (Finset.insert_ne_empty _ _)]
      split
      · rfl
      · rename_i hz
        rw [hspr, if_neg]
        intro he
        rw [if_pos he] at hspr
        exact hz ⟨hrl, hspr⟩
    · rw [if_neg fun hc => hrl hc.1, Finset.insert_inter_of_notMem hrl]
      exact hspr
  · rw [hpers, if_neg (Finset.insert_ne_empty _ _)]
  · rw [hpers]
    exact h.sentToHost hne
  · rw [hpers]
    exact h.parked
  · rw [hpers]
    exact h.delayed

/-- The entry of a rank of another SP is added. -/
theorem Holds.addPeer (h : C.Holds i S g) (hl : g.Live) (hsize : g.groupSize = C.size) (hr : r < C.size) (hnew : r ∉ S)
    (hloc : r ∉ C.locals i) (ctx : GpCtx) : C.Holds i (insert r S) (g.addPeerEntry ctx (C.entry r)) := by
  obtain ⟨t, ht⟩ := addPeerEntry_eq ctx g (C.entry r)
  have hrank : sizeT (C.entry r).peer.procInfo.groupRank = r := C.canonical.rank r hr
  have hent : g.peerEntry (C.entry r) = C.entry r := by
    rw [GroupCache.peerEntry, hrank, h.entry, if_neg hnew]
    rfl
  rw [hrank, hent] at ht
  refine h.put hl hsize hr hnew ?_ ?_ ?_ ?_ ?_ ?_ ?_ ?_ ?_ ?_
  all_goals rw [ht]
  · rw [if_neg hloc]
    rfl
  · rw [if_neg fun hc => hloc hc.1]
  · exact h.host

/-- The entry of a local rank is added. -/
theorem Holds.addLocal (h : C.Holds i S g) (hc : C.Ready) (hv : C.Tells v) (hl : g.Live) (hsize : g.groupSize = C.size)
    (hr : r ∈ C.locals i) (hnew : r ∉ S) :
    C.Holds i (insert r S) (g.addGroupRank (C.ctx i v) (C.client r) (C.msg r 1)) := by
  obtain ⟨hrs, rfl⟩ := mem_locals.1 hr
  obtain ⟨t, k, sp, ht, g', hsp⟩ := addGroupRank_eq (C.ctx (C.spOf r) v) g (C.client r) (C.msg r 1)
  have hrank : sizeT (C.msg r 1).rankInfo.groupRank = r := Cluster.rank_msg hrs 1
  have hcount : sp = (C.locals (C.spOf r)).card := by
    rw [hsp, C.msg_worldRanks]
    exact (Site.length_filter_worldRanks (C.site (C.spOf r) v hv) g').trans (congrArg Finset.card site_locals)
  have hk : (g.addGroupRank (C.ctx (C.spOf r) v) (C.client r) (C.msg r 1)).nLocalRanks =
      if g.nLocalRanks = 0 ∧ 0 ≤ (C.msg r 1).rankInfo.nLocalRanks then sizeT (C.msg r 1).rankInfo.nLocalRanks
      else g.nLocalRanks := by
    unfold GroupCache.addGroupRank GroupCache.switchVersion
    split <;> rfl
  have hhost : (C.sys (C.spOf r)).numServiceProcsPerDpu = 1 →
      (g.addGroupRank (C.ctx (C.spOf r) v) (C.client r) (C.msg r 1)).nLocalRanks ≤ (C.locals (C.spOf r)).card := by
    intro h1
    rw [hk]
    split
    · have hle := hc.host r hrs h1
      have hlt : (C.locals (C.spOf r)).card ≤ (Finset.range C.size).card :=
        Finset.card_le_card (Finset.filter_subset _ _)
      rw [Finset.card_range] at hlt
      have hsz := C.alloc.lt
      unfold sizeT
      omega
    · exact h.host h1
  rw [hrank, hcount] at ht
  refine h.put hl hsize hrs hnew ?_ ?_ ?_ ?_ ?_ ?_ ?_ ?_ ?_ hhost
  all_goals rw [ht]
  · rfl
  · rw [if_pos hr]
  · exact if_congr (and_iff_right hr).symm rfl rfl

/-! ### The callbacks -/

variable (C) in
/-- The complete cache. -/
def table : List PeerCacheEntry := (List.range C.size).map C.entry

variable (C) in
/-- The ranks of an SP, in order. -/
def own (i : ℕ) : List ℕ := (List.range C.size).filter fun r => C.spOf r = i

variable (C) in
/-- The message with the entry of a rank. -/
def announce (r : ℕ) : Event := .peerCacheEntries (C.spOf r) [C.entry r]

theorem mem_own : r ∈ C.own i ↔ r < C.size ∧ C.spOf r = i := by
  simp [own]

theorem Holds.full_iff (h : C.Holds i S g) (hs : g.groupSize = C.size) : g.full = true ↔ S = Finset.range C.size := by
  rw [GroupCache.full, beq_iff_eq, hs, h.count]
  constructor
  · intro hc
    exact Finset.eq_of_subset_of_card_le h.sub (by rw [Finset.card_range]; exact hc.le)
  · rintro rfl
    exact (Finset.card_range _).symm

/-- The complete cache is sent to the ranks. -/
theorem Holds.sendAll (h : C.Holds i (Finset.range C.size) g) (hl : g.Live) (hs : g.groupSize = C.size)
    (hz : g.persistent.sentToHost = 0) (out : List Effect) :
    ∃ t, sendGpCacheToHost ⟨g, out⟩ = ⟨{ g with topo := t }, out ++ [.cacheToRanks C.table]⟩ := by
  have hnum : g.persistent.num = 1 := h.num.trans (if_neg (Finset.nonempty_range_iff.2 C.pos.ne').ne_empty)
  have htake : g.entries.take g.groupSize = C.table := by
    rw [hs, List.take_of_length_le (h.live hl).2.le, h.entries hl, table]
    exact List.map_congr_left fun q hq => if_pos (Finset.mem_range.2 (List.mem_range.1 hq))
  refine ⟨g.topo.doPopulateGroupCacheLookupTable, ?_⟩
  rw [sendGpCacheToHost, if_pos (by rw [hz, hnum]; exact Nat.one_pos)]
  dsimp only
  rw [htake]

/-- A batch of the first version is taken up at once. -/
theorem Holds.ready (h : C.Holds i S g) (r : ℕ) : isGroupReady g (batchSeqNum [C.entry r]) = true := by
  have hseq : batchSeqNum [C.entry r] = 1 := C.msg_groupSeqNum r 1
  have hnum := h.num
  rw [isGroupReady, hseq]
  split at hnum <;> simp [hnum]

/-- **The entry of a rank of another SP arrives.** -/
theorem Holds.recv {slot : Option GroupCache} (h : C.Holds i S (slot.getD newGroupCache)) (hr : r < C.size)
    (hloc : r ∉ C.locals i) (hnew : r ∉ S) (v : View) (sp : ℕ) :
    ∃ g', peerCacheEntriesRecvCb (C.ctx i v) slot sp [C.entry r] =
        ⟨g', if insert r S = Finset.range C.size then [.cacheToRanks C.table] else []⟩ ∧
      C.Holds i (insert r S) g' ∧ g'.Live := by
  have hsz : batchGroupSize [C.entry r] = C.size := C.msg_groupSize r 1
  have huid : (C.ctx i v).gpUid = C.uid := C.gpUid i
  obtain ⟨h₁, hl₁⟩ := h.lookup
  rw [← getGroupCacheInternal_getD] at h₁ hl₁
  generalize hg₁ : getGroupCacheInternal C.uid slot C.size = g₁ at h₁ hl₁
  obtain ⟨h₂, hs₂⟩ := h₁.learn hl₁ (C.ctx i v).hosts
  have hl₂ : (g₁.learnGroupSize (C.ctx i v).hosts C.size).Live := by
    rw [GroupCache.Live, learnGroupSize_groupUid]
    exact hl₁
  generalize hg₂ : g₁.learnGroupSize (C.ctx i v).hosts C.size = g₂ at h₂ hs₂ hl₂
  have h₃ := h₂.addPeer hl₂ hs₂ hr hnew hloc (C.ctx i v)
  obtain ⟨t, ht⟩ := addPeerEntry_eq (C.ctx i v) g₂ (C.entry r)
  have hset : g₂.isSet (sizeT (C.entry r).peer.procInfo.groupRank) = false := by
    rw [show sizeT (C.entry r).peer.procInfo.groupRank = r from C.canonical.rank r hr, h₂.isSet, decide_eq_false hnew]
  have hfold : ([C.entry r].foldl (recvPeerEntry (C.ctx i v) C.size) (g₁, 0)) =
      (g₂.addPeerEntry (C.ctx i v) (C.entry r), 1) := by
    simp [recvPeerEntry, hg₂, hset]
  have hl₃ : (g₂.addPeerEntry (C.ctx i v) (C.entry r)).Live := by
    rw [GroupCache.Live, addPeerEntry_groupUid]
    exact hl₂
  have hs₃ : (g₂.addPeerEntry (C.ctx i v) (C.entry r)).groupSize = C.size := by
    rw [ht]
    exact hs₂
  have hz₃ : (g₂.addPeerEntry (C.ctx i v) (C.entry r)).persistent.sentToHost = 0 := by
    have hq := congrArg Persistent.sentToHost (@addPeerEntry_queues (C.ctx i v) g₂ (C.entry r))
    exact hq.trans (h₂.sentToHost fun hS => hnew (hS ▸ Finset.mem_range.2 hr))
  generalize g₂.addPeerEntry (C.ctx i v) (C.entry r) = g₃ at h₃ hfold hl₃ hs₃ hz₃
  -- an SP with the only ranks of its host hears of no other rank
  have hall : ((C.ctx i v).numServiceProcsPerDpu == 1 && g₃.groupSize == g₃.nLocalRanks) = false := by
    rw [Bool.and_eq_false_iff, beq_eq_false_iff_ne, beq_eq_false_iff_ne]
    by_cases h1 : (C.ctx i v).numServiceProcsPerDpu = 1
    · right
      have hle := h₃.host h1
      have hlt : (C.locals i).card < (Finset.range C.size).card := by
        refine Finset.card_lt_card (Finset.filter_ssubset.2 ⟨r, Finset.mem_range.2 hr, fun hri => ?_⟩)
        exact hloc (mem_locals.2 ⟨hr, hri⟩)
      rw [Finset.card_range] at hlt
      rw [hs₃]
      omega
    · exact .inl h1
  have hrecv : peerCacheEntriesRecvCb (C.ctx i v) slot sp [C.entry r] =
      if insert r S = Finset.range C.size then sendGpCacheToHost ⟨g₃, []⟩ else ⟨g₃, []⟩ := by
    have hnot : ¬ (0 < g₁.revokesGlobal ∨ (!isGroupReady g₁ (batchSeqNum [C.entry r])) = true) := by
      rw [h₁.calm, h₁.ready r]
      simp
    have hcond : ((C.ctx i v).onDpu = true ∧ 0 < 1 ∧ 0 < g₃.groupSize ∧ g₃.full = true ∧ True) ↔
        insert r S = Finset.range C.size := by
      rw [h₃.full_iff hs₃, hs₃]
      have hd : (C.ctx i v).onDpu = true := C.onDpu i
      simp [hd, C.pos]
    have hagain : getGroupCacheInternal C.uid (some g₁) C.size = g₁ := getGroupCacheInternal_of_live hl₁ _
    simp only [peerCacheEntriesRecvCb, handlePeerCacheEntriesRecv, hsz, huid, hg₁, if_neg hnot, hagain, hfold, hall,
      Bool.not_false, hcond]
  by_cases hS : insert r S = Finset.range C.size
  · rw [hS] at h₃
    obtain ⟨t, ht⟩ := h₃.sendAll hl₃ hs₃ hz₃ []
    refine ⟨{ g₃ with topo := t }, ?_, ?_, hl₃⟩
    · rw [hrecv, if_pos hS, if_pos hS, ht]
      rfl
    · rw [hS]
      exact { h₃ with }
  · refine ⟨g₃, ?_, h₃, hl₃⟩
    rw [hrecv, if_neg hS, if_neg hS]

/-- All ranks of an SP have joined exactly when there are as many as `sp_ranks` says. -/
theorem Holds.spRanks_eq_iff (h : C.Holds i S g) (hne : S ∩ C.locals i ≠ ∅) :
    g.spRanks = g.nLocalRanksPopulated ↔ C.locals i ⊆ S := by
  rw [h.spRanks, if_neg hne, h.populated]
  constructor
  · intro hc
    exact Finset.inter_eq_right.1 (Finset.eq_of_subset_of_card_le Finset.inter_subset_right hc.le)
  · intro hsub
    rw [Finset.inter_eq_right.2 hsub]

/-- **The entries of the local ranks are sent** when all of them are there, each by itself. -/
theorem Holds.sends (h : C.Holds i S g) (hl : g.Live) (hsub : C.locals i ⊆ S) :
    sendLocalRankGroupCache g i = some ((C.own i).map fun r => [C.entry r]) := by
  have hloc : ∀ q, PeerCacheEntry.isLocal i (if q ∈ S then C.entry q else initPeerCacheEntry) =
      decide (q ∈ S ∧ C.spOf q = i) := by
    intro q
    by_cases hq : q ∈ S
    · rw [if_pos hq, PeerCacheEntry.isLocal, C.canonical.set q (Finset.mem_range.1 (h.sub hq)), Bool.true_and]
      have hsp : (C.entry q).shadow0 = C.spOf q := C.globalId (C.spOf q)
      rw [hsp, beq_eq_decide]
      exact decide_eq_decide.2 (and_iff_right hq).symm
    · rw [if_neg hq, decide_eq_false fun hc => hq hc.1]
      rfl
  have hfilter : g.entries.filter (PeerCacheEntry.isLocal i) = (C.own i).map C.entry := by
    rw [h.entries hl, List.filter_map, own]
    have hcongr : (List.range C.size).filter (PeerCacheEntry.isLocal i ∘ fun q =>
        if q ∈ S then C.entry q else initPeerCacheEntry) = (List.range C.size).filter fun r => C.spOf r = i := by
      refine List.filter_congr fun q hq => ?_
      rw [Function.comp_apply, hloc]
      refine decide_eq_decide.2 ⟨fun hc => hc.2, fun hc => ⟨hsub (mem_locals.2 ⟨List.mem_range.1 hq, hc⟩), hc⟩⟩
    rw [hcongr]
    refine List.map_congr_left fun q hq => if_pos (hsub (mem_locals.2 (mem_own.1 hq)))
  have hvalid : ∀ e ∈ g.entries, e.set = true → e.peer.procInfo.groupRank ≠ INVALID_RANK := by
    rw [h.entries hl]
    intro e he hset
    obtain ⟨q, hq, rfl⟩ := List.mem_map.1 he
    by_cases hS : q ∈ S
    · rw [if_pos hS]
      exact C.canonical.valid q (List.mem_range.1 hq)
    · rw [if_neg hS] at hset
      cases hset
  have hcount : g.entries.countP (PeerCacheEntry.isLocal i) = g.nLocalRanksPopulated := by
    rw [List.countP_eq_length_filter, hfilter, List.length_map, h.populated, Finset.inter_eq_right.2 hsub]
    exact (List.toFinset_card_of_nodup (List.nodup_range.filter _)).symm.trans (congrArg Finset.card (by
      ext q; simp [locals]))
  have hinit := (h.live hl).1
  rw [sendLocalRankGroupCache, hinit]
  simp only [Bool.not_true, Bool.false_eq_true, if_false]
  rw [sendLocalRanksLoop_singles hvalid (by rw [List.drop_zero, Nat.zero_add]; exact hcount) (by omega), List.drop_zero,
    hfilter, List.map_map]
  rfl

theorem handlePendingCacheEntries_of_nil {ctx : GpCtx} {s : GpState}
    (h : s.gp.persistent.pendingRecvCacheEntries = []) : handlePendingCacheEntries ctx s = s := by
  obtain ⟨g, out⟩ := s
  have hp : { g.persistent with pendingRecvCacheEntries := [] } = g.persistent := by
    rw [← h]
  rw [handlePendingCacheEntries, h, List.foldl_nil]
  dsimp only
  rw [hp]

/-- A broadcast sends them to every other SP. -/
theorem Holds.sent_broadcast (h : C.Holds i S g) (hi : i < C.num) (hl : g.Live) (hsub : C.locals i ⊆ S) (d : ℕ) :
    (Effect.broadcast :: if 1 < (C.ctx i v).numServiceProcs then broadcastMsgs (C.ctx i v) g else []).filterMap
      (Effect.toSp i d) =
        if C.locals i ⊆ S ∧ d < C.num ∧ d ≠ i then (C.own i).map C.announce else [] := by
  have hgid : (C.ctx i v).globalId = i := C.globalId i
  have hnum : (C.ctx i v).numServiceProcs = C.num := C.numServiceProcs i
  have hmsgs : (broadcastMsgs (C.ctx i v) g).filterMap (Effect.toSp i d) =
      if d ∈ (C.ctx i v).otherSps then (C.own i).map C.announce else [] := by
    rw [broadcastMsgs, hgid, h.sends hl hsub, Option.getD_some,
      filterMap_toSp_flatMap i d (nodup_otherSps _) _ _ (.peerCacheEntries i) fun _ _ => rfl, List.map_map]
    congr 1
    refine List.map_congr_left fun q hq => ?_
    rw [announce, (mem_own.1 hq).2]
    rfl
  have hmem : d ∈ (C.ctx i v).otherSps ↔ C.locals i ⊆ S ∧ d < C.num ∧ d ≠ i := by
    rw [mem_otherSps, hgid, hnum]
    exact (and_iff_right hsub).symm
  rw [List.filterMap_cons, hnum]
  dsimp only [Effect.toSp]
  by_cases h1 : 1 < C.num
  · rw [if_pos h1, hmsgs]
    exact if_congr hmem rfl rfl
  · rw [if_neg h1, if_neg]
    · rfl
    · rintro ⟨-, hd, hne⟩
      omega

/-- A broadcast sends no complete cache. -/
theorem filter_broadcast (ctx : GpCtx) (g : GroupCache) :
    (Effect.broadcast :: if 1 < ctx.numServiceProcs then broadcastMsgs ctx g else []).filter Effect.isCacheToRanks =
      [] := by
  refine List.filter_eq_nil_iff.2 fun x hx hcache => ?_
  rcases List.mem_cons.1 hx with rfl | hx
  · cases hcache
  · split at hx
    · simp only [broadcastMsgs, List.mem_flatMap, List.mem_map] at hx
      obtain ⟨_, _, _, _, rfl⟩ := hx
      cases hcache
    · exact absurd hx List.not_mem_nil

/-- **A rank joins.** -/
theorem Holds.join {slot : Option GroupCache} (h : C.Holds i S (slot.getD newGroupCache)) (hc : C.Ready)
    (hv : C.Tells v) (hr : r ∈ C.locals i) (hnew : r ∉ S) :
    ∃ g' out, doAddGroupRankRecvCb (C.ctx i v) slot (C.client r) (C.msg r 1) = (some g', out) ∧
      C.Holds i (insert r S) g' ∧ g'.Live ∧
      (∀ d, out.filterMap (Effect.toSp i d) =
        if C.locals i ⊆ insert r S ∧ d < C.num ∧ d ≠ i then (C.own i).map C.announce else []) ∧
      out.filter Effect.isCacheToRanks = if insert r S = Finset.range C.size then [.cacheToRanks C.table] else [] := by
  have hrs := (mem_locals.1 hr).1
  have hi : i < C.num := (mem_locals.1 hr).2 ▸ C.spOf_lt r hrs
  have hsz : (C.msg r 1).rankInfo.groupSize = C.size := C.msg_groupSize r 1
  have huid : (C.ctx i v).gpUid = C.uid := C.gpUid i
  have hok : ¬ ((C.msg r 1).rankInfo.groupUid = INT_MAX ∨ (C.msg r 1).rankInfo.groupRank = INVALID_RANK) :=
    not_or.2 ⟨by rw [C.msg_groupUid]; exact C.uid_ne, C.canonical.valid r hrs⟩
  obtain ⟨h₁, hl₁⟩ := h.lookup
  rw [← getGroupCacheInternal_getD] at h₁ hl₁
  generalize hg₁ : getGroupCacheInternal C.uid slot C.size = g₁ at h₁ hl₁
  obtain ⟨h₂, hs₂⟩ := h₁.learn hl₁ (C.ctx i v).hosts
  have hl₂ : (g₁.learnGroupSize (C.ctx i v).hosts C.size).Live := by
    rw [GroupCache.Live, learnGroupSize_groupUid]
    exact hl₁
  generalize hg₂ : g₁.learnGroupSize (C.ctx i v).hosts C.size = g₂ at h₂ hs₂ hl₂
  have h₃ := h₂.addLocal hc hv hl₂ hs₂ hr hnew
  obtain ⟨t, k, sp, ht, -⟩ := addGroupRank_eq (C.ctx i v) g₂ (C.client r) (C.msg r 1)
  have hset : g₂.isSet (sizeT (C.msg r 1).rankInfo.groupRank) = false := by
    rw [show sizeT (C.msg r 1).rankInfo.groupRank = r from Cluster.rank_msg hrs 1, h₂.isSet, decide_eq_false hnew]
  have hl₃ : (g₂.addGroupRank (C.ctx i v) (C.client r) (C.msg r 1)).Live := by
    rw [GroupCache.Live, addGroupRank_groupUid]
    exact hl₂
  have hs₃ : (g₂.addGroupRank (C.ctx i v) (C.client r) (C.msg r 1)).groupSize = C.size := by
    rw [ht]
    exact hs₂
  have hz₃ : (g₂.addGroupRank (C.ctx i v) (C.client r) (C.msg r 1)).persistent.sentToHost = 0 := by
    have hq := congrArg Persistent.sentToHost (@addGroupRank_queues (C.ctx i v) g₂ (C.client r) (C.msg r 1))
    exact hq.trans (h₂.sentToHost fun hS => hnew (hS ▸ Finset.mem_range.2 hrs))
  generalize hg₃ : g₂.addGroupRank (C.ctx i v) (C.client r) (C.msg r 1) = g₃ at h₃ hl₃ hs₃ hz₃
  have hcb : doAddGroupRankRecvCb (C.ctx i v) slot (C.client r) (C.msg r 1) =
      (some (groupCacheExchange (C.ctx i v) ⟨g₃, []⟩ g₃.spRanks).gp,
        (groupCacheExchange (C.ctx i v) ⟨g₃, []⟩ g₃.spRanks).out) := by
    have h0 : ¬ 0 < g₁.revokesGlobal := by rw [h₁.calm]; exact Nat.lt_irrefl 0
    have hpend : handlePendingCacheEntries (C.ctx i v) ⟨g₃, []⟩ = ⟨g₃, []⟩ := handlePendingCacheEntries_of_nil h₃.parked
    simp only [doAddGroupRankRecvCb, if_neg hok, doAddGroupRank, hsz, huid, hg₁, if_neg h0, hg₂, hset, hg₃,
      Bool.false_eq_true, if_false, hpend]
  have hne : insert r S ∩ C.locals i ≠ ∅ :=
    Finset.nonempty_iff_ne_empty.1 ⟨r, Finset.mem_inter.2 ⟨Finset.mem_insert_self r S, hr⟩⟩
  have hiff := h₃.spRanks_eq_iff hne
  have hsize : (C.ctx i v).cacheSize ≠ 1 := hv.1
  rw [hcb]
  by_cases hsub : C.locals i ⊆ insert r S
  · -- all ranks of the SP have joined: their entries are broadcast
    have hconn : (C.ctx i v).allServiceProcsConnected = true := hc.connected i hi
    generalize hout :
      (Effect.broadcast :: if 1 < (C.ctx i v).numServiceProcs then broadcastMsgs (C.ctx i v) g₃ else []) = out
    have hsent : ∀ d, out.filterMap (Effect.toSp i d) =
        if C.locals i ⊆ insert r S ∧ d < C.num ∧ d ≠ i then (C.own i).map C.announce else [] := by
      intro d
      rw [← hout]
      exact h₃.sent_broadcast hi hl₃ hsub d
    have hnone : out.filter Effect.isCacheToRanks = [] := by
      rw [← hout]
      exact filter_broadcast (C.ctx i v) g₃
    have hx : groupCacheExchange (C.ctx i v) ⟨g₃, []⟩ g₃.spRanks =
        if g₃.full = true then sendGpCacheToHost ⟨g₃, out⟩ else ⟨g₃, out⟩ := by
      rw [groupCacheExchange, if_neg hsize, if_pos (hiff.2 hsub), broadcastGroupCache, hconn]
      simp only [Bool.not_true, Bool.false_eq_true, if_false, GpState.emit, List.nil_append, hout]
    by_cases hS : insert r S = Finset.range C.size
    · rw [hS] at h₃
      obtain ⟨t, ht⟩ := h₃.sendAll hl₃ hs₃ hz₃ out
      rw [hx, if_pos ((h₃.full_iff hs₃).2 rfl), ht, if_pos hS]
      refine ⟨{ g₃ with topo := t }, _, rfl, by rw [hS]; exact { h₃ with }, hl₃, fun d => ?_, ?_⟩
      · rw [List.filterMap_append, hsent]
        exact List.append_nil _
      · rw [List.filter_append, hnone]
        rfl
    · rw [hx, if_neg fun hf => hS ((h₃.full_iff hs₃).1 hf), if_neg hS]
      exact ⟨g₃, out, rfl, h₃, hl₃, hsent, hnone⟩
  · have hx : groupCacheExchange (C.ctx i v) ⟨g₃, []⟩ g₃.spRanks = ⟨g₃, []⟩ := by
      rw [groupCacheExchange, if_neg hsize, if_neg fun hc => hsub (hiff.1 hc)]
    have hS : insert r S ≠ Finset.range C.size := fun hS => hsub (hS ▸ Finset.filter_subset _ _)
    rw [hx, if_neg hS]
    refine ⟨g₃, [], rfl, h₃, hl₃, fun d => ?_, rfl⟩
    rw [if_neg fun hc => hsub hc.1]
    rfl

end Crew

/-! ### The SPs -/

variable {s s' : Net} {i j : ℕ} {e : Engine} {out : List Effect}

/-- What a step is to the entries. -/
def NetLabel.move : NetLabel → Option (Move ℕ ℕ)
  | .own _ _ (.addGroupRank _ m) => some (.put m.rankInfo.rank)
  | .own _ _ _ => none
  | .deliver i j _ => some (.hand i j)

namespace Crew

variable (C : Crew)

/-- **What an SP keeps** that has the entries of some ranks. -/
structure Keeps (i : ℕ) (S : Finset ℕ) (e : Engine) : Prop where
  /-- It holds them. -/
  holds : C.Holds i S e.gp
  /-- The local ones are those of the ranks that have joined. -/
  seen : ∀ r ∈ C.locals i, .addGroupRank (C.client r) (C.msg r 1) ∈ e.seen ↔ r ∈ S
  /-- The complete cache is sent to the ranks once. -/
  posts : e.log.filter Effect.isCacheToRanks = if S = Finset.range C.size then [.cacheToRanks C.table] else []

/-- The entries of a group are gathered. -/
def gather : Gathering ℕ ℕ where
  parties := Finset.range C.num
  items := Finset.range C.size
  owner := C.spOf
  own := C.own
  owner_mem r hr := Finset.mem_range.2 (C.spOf_lt r (Finset.mem_range.1 hr))
  mem_own i r := by rw [mem_own, Finset.mem_range]
  nodup_own _ := List.nodup_range.filter _

/-- **The SPs gather the entries.** -/
structure Gathers (s : Net) (a : Spread ℕ ℕ) : Prop where
  /-- An SP holds what it has. -/
  sp : ∀ i, C.Keeps i (a.has i) (s.sp i)
  /-- The entries on their way are on the links. -/
  link : ∀ i j, s.link i j = (a.wire i j).map C.announce
  /-- What was received was sent. -/
  got : ∀ i j, s.got i j ≤ (s.sent i j).length

/-- Does an SP that a rank joins through know where the ranks are? -/
def Informed : NetLabel → Prop
  | .own _ v (.addGroupRank _ _) => C.Tells v
  | _ => True

instance Informed.decidable : (l : NetLabel) → Decidable (C.Informed l)
  | .own _ v (.addGroupRank _ _) => inferInstanceAs (Decidable (C.Tells v))
  | .own _ _ .cacheSent | .own _ _ .revokeSent | .own _ _ (.peerCacheEntries _ _) | .own _ _ (.revokeFromRank _)
  | .own _ _ (.revokeFromSp _) | .own _ _ (.requestAdd _) | .own _ _ (.requestRevoke _)
  | .deliver _ _ _ => inferInstanceAs (Decidable True)

/-- **One version**: each rank joins once, through its SP, which knows where the ranks are. -/
def Joins (s : Net) (l : NetLabel) : Prop := C.Joining s l ∧ C.Informed l

instance (s : Net) (l : NetLabel) : Decidable (C.Joins s l) := inferInstanceAs (Decidable (_ ∧ _))

variable {C} {a : Spread ℕ ℕ} {r : ℕ} {S : Finset ℕ} {v : View}

theorem gathers_init : C.Gathers Net.init Spread.start where
  sp _ :=
    { holds := holds_new
      seen := fun r _ => iff_of_false List.not_mem_nil (Finset.notMem_empty r)
      posts := (if_neg (Finset.nonempty_range_iff.2 C.pos.ne').ne_empty.symm).symm }
  link _ _ := rfl
  got _ _ := Nat.zero_le _

/-- **The sends of the cache are complete.** -/
theorem Keeps.cacheSent {e' : Engine} (h : C.Keeps i S e) (hs : e.step (C.ctx i v) .cacheSent = some e') :
    C.Keeps i S e' ∧ e'.log = e.log := by
  obtain ⟨hen, hslot, hlog, hseen⟩ := Engine.step_eq_some hs
  -- they were posted, so the cache is complete
  have hS : S = Finset.range C.size := by
    by_contra hne
    have hposts := h.posts
    rw [if_neg hne] at hposts
    simp only [Engine.enabled, Bool.and_eq_true, decide_eq_true_eq, List.countP_eq_length_filter, hposts,
      List.length_nil] at hen
    exact absurd hen.2 (Nat.not_lt_zero _)
  have hout : (handle (C.ctx i v) e.slot .cacheSent).2 = [] ∧
      (handle (C.ctx i v) e.slot .cacheSent).1.getD newGroupCache =
        if e.slot.isSome then { e.gp with persistent := { e.gp.persistent with sentToHost := e.gp.persistent.num } }
        else newGroupCache := by
    cases hg : e.slot with
    | none => exact ⟨rfl, rfl⟩
    | some g =>
      have hgp : e.gp = g := by rw [Engine.gp, hg]; rfl
      have hdel : g.persistent.pendingGroupRevokeMsgsFromSps = [] := by rw [← hgp]; exact h.holds.delayed
      have hcb : groupCacheSendToLocalRanksCb g =
          ⟨{ g with persistent := { g.persistent with sentToHost := g.persistent.num } }, []⟩ := by
        simp [groupCacheSendToLocalRanksCb, handlePendingGroupRevokeMsgsFromSps, hdel]
      rw [handle, Option.elim_some, hcb, hgp]
      exact ⟨rfl, rfl⟩
  rw [hout.1, List.append_nil] at hlog
  refine ⟨⟨?_, fun r hr => ?_, by rw [hlog]; exact h.posts⟩, hlog⟩
  · rw [Engine.gp, hslot, hout.2]
    cases hg : e.slot with
    | none =>
      have hnew : e.gp = newGroupCache := by rw [Engine.gp, hg]; rfl
      have := h.holds
      rw [hnew] at this
      exact this
    | some g => exact { h.holds with sentToHost := fun hne => absurd hS hne }
  · rw [hseen, List.mem_append, h.seen r hr]
    exact or_iff_left fun hm => by cases List.mem_singleton.1 hm

/-- **A rank joins.** -/
theorem Keeps.join {e' : Engine} (h : C.Keeps i S e) (hc : C.Ready) (hv : C.Tells v) (hr : r ∈ C.locals i)
    (hnew : r ∉ S) (hs : e.step (C.ctx i v) (.addGroupRank (C.client r) (C.msg r 1)) = some e') :
    C.Keeps i (insert r S) e' ∧ ∃ out, e'.log = e.log ++ out ∧ ∀ d, out.filterMap (Effect.toSp i d) =
      if C.locals i ⊆ insert r S ∧ d < C.num ∧ d ≠ i then (C.own i).map C.announce else [] := by
  obtain ⟨-, hslot, hlog, hseen⟩ := Engine.step_eq_some hs
  obtain ⟨g', out, hcb, hholds, -, hsent, hposts⟩ := h.holds.join hc hv hr hnew
  have hh : handle (C.ctx i v) e.slot (.addGroupRank (C.client r) (C.msg r 1)) = (some g', out) := hcb
  rw [hh] at hslot hlog
  refine ⟨⟨?_, fun q hq => ?_, ?_⟩, out, hlog, hsent⟩
  · rw [Engine.gp, hslot]
    exact hholds
  · rw [hseen, List.mem_append, h.seen q hq, List.mem_singleton, Finset.mem_insert]
    constructor
    · rintro (hm | hm)
      · exact .inr hm
      · -- a rank says which one it is
        have hrank : ∀ p ∈ C.locals i, (C.msg p 1).rankInfo.rank = p := fun p hp =>
          Cluster.rank_msg (mem_locals.1 hp).1 1
        injection hm with _ hm
        exact .inl ((hrank q hq).symm.trans ((congrArg (fun m : GroupAddMsg => m.rankInfo.rank) hm).trans (hrank r hr)))
    · rintro (rfl | hm)
      · exact .inr rfl
      · exact .inl hm
  · have hne : S ≠ Finset.range C.size := fun hS => hnew (hS ▸ Finset.mem_range.2 (mem_locals.1 hr).1)
    rw [hlog, List.filter_append, h.posts, if_neg hne, hposts]
    rfl

/-- **The entry of a rank of another SP arrives.** -/
theorem Keeps.recv {e' : Engine} (h : C.Keeps i S e) (hr : r < C.size) (hloc : r ∉ C.locals i) (hnew : r ∉ S)
    (hs : e.step (C.ctx i v) (C.announce r) = some e') :
    C.Keeps i (insert r S) e' ∧ ∃ out, e'.log = e.log ++ out ∧ ∀ a d, out.filterMap (Effect.toSp a d) = [] := by
  obtain ⟨-, hslot, hlog, hseen⟩ := Engine.step_eq_some hs
  obtain ⟨g', hcb, hholds, -⟩ := h.holds.recv hr hloc hnew v (C.spOf r)
  have hh : handle (C.ctx i v) e.slot (C.announce r) =
      (some g', if insert r S = Finset.range C.size then [.cacheToRanks C.table] else []) := by
    rw [announce, handle, hcb]
    rfl
  rw [hh] at hslot hlog
  refine ⟨⟨?_, fun q hq => ?_, ?_⟩, _, hlog, fun a d => ?_⟩
  · rw [Engine.gp, hslot]
    exact hholds
  · rw [hseen, List.mem_append, h.seen q hq, Finset.mem_insert]
    have hqr : q ≠ r := fun hqr => hloc (hqr ▸ hq)
    constructor
    · rintro (hm | hm)
      · exact .inr hm
      · cases List.mem_singleton.1 hm
    · rintro (hm | hm)
      · exact absurd hm hqr
      · exact .inl hm
  · have hne : S ≠ Finset.range C.size := fun hS => hnew (hS ▸ Finset.mem_range.2 hr)
    rw [hlog, List.filter_append, h.posts, if_neg hne]
    dsimp only
    split <;> rfl
  · dsimp only
    split <;> rfl

/-- An SP takes a step, and sends. -/
theorem Gathers.put {a' : Spread ℕ ℕ} (h : C.Gathers s a) (hk : C.Keeps i (a'.has i) e)
    (hhas : ∀ j, j ≠ i → a'.has j = a.has j) (hlog : e.log = (s.sp i).log ++ out)
    (hown : ∀ d, (a'.wire i d).map C.announce = (a.wire i d).map C.announce ++ out.filterMap (Effect.toSp i d))
    (hwire : ∀ j, j ≠ i → a'.wire j = a.wire j) : C.Gathers (s.put i e) a' where
  sp j := by
    by_cases hj : j = i
    · subst hj
      rw [Net.put_sp_self]
      exact hk
    · rw [Net.put_sp_of_ne hj, hhas j hj]
      exact h.sp j
  link j d := by
    by_cases hj : j = i
    · subst hj
      rw [Net.link_put_self hlog (h.got j d), h.link, hown]
    · rw [Net.link_put_of_ne hj, h.link, hwire j hj]
  got j d := by
    rw [Net.put_got]
    by_cases hj : j = i
    · subst hj
      rw [Net.sent, Net.put_sp_self, hlog, List.filterMap_append, List.length_append]
      exact (h.got j d).trans (Nat.le_add_right _ _)
    · rw [Net.sent, Net.put_sp_of_ne hj]
      exact h.got j d

/-- A message is received. -/
theorem Gathers.receive (h : C.Gathers s a) {rs : List ℕ} (hw : a.wire i j = r :: rs) :
    C.Gathers (s.receive i j) (a.leave i j rs) where
  sp k := by
    rw [Net.receive_sp]
    exact h.sp k
  link k d := by
    rw [Net.link_receive, Gathering.wire_leave]
    split
    · rw [h.link, hw]
      rfl
    · exact h.link k d
  got k d := by
    have hlt : s.got i j < (s.sent i j).length := by
      have hlink := congrArg List.length (h.link i j)
      rw [hw, Net.link, List.length_drop, List.length_map, List.length_cons] at hlink
      rw [Net.sent]
      omega
    by_cases hk : k = i
    · subst hk
      by_cases hd : d = j
      · subst hd
        change Function.update s.got k (Function.update (s.got k) d (s.got k d + 1)) k d ≤ (s.sent k d).length
        rw [Function.update_self, Function.update_self]
        exact hlt
      · simpa [Net.receive, Net.sent, hd] using h.got k d
    · simpa [Net.receive, Net.sent, hk] using h.got k d

theorem complete_iff : C.gather.Complete a i ↔ C.locals i ⊆ a.has i :=
  forall_congr' fun _ => imp_congr (mem_own.trans mem_locals.symm) Iff.rfl

/-- **The SPs gather the entries, step by step**: a rank that joins and a message that is received are steps of the
gathering, and nothing else is. -/
theorem Gathers.step (h : C.Gathers s a) (hkept : C.gather.Kept a) (hc : C.Ready) {l : NetLabel} (hl : C.Joins s l)
    (hs : s.step C.toCluster l = some s') :
    (l.move = none ∧ C.Gathers s' a) ∨
      ∃ m a', l.move = some m ∧ C.gather.step a m = some a' ∧ C.Gathers s' a' := by
  rcases Net.step_cases hs with ⟨i, v, ev, e, rfl, he, rfl⟩ | ⟨i, j, v, ev, es, e, rfl, hlink, he, rfl⟩
  · cases ev with
    | addGroupRank c m =>
      obtain ⟨⟨hr, hsp, rfl, hm, hnot⟩, hv⟩ := hl
      generalize m.rankInfo.rank = r at hr hsp hm hnot he
      subst hm hsp
      have hrl : r ∈ C.locals (C.spOf r) := mem_locals.2 ⟨hr, rfl⟩
      have hnew : r ∉ a.has (C.spOf r) := fun hm => hnot (((h.sp _).seen r hrl).2 hm)
      obtain ⟨hk, out, hlog, hsent⟩ := (h.sp (C.spOf r)).join hc hv hrl hnew he
      have hadd : (a.add (C.spOf r) r).has (C.spOf r) = insert r (a.has (C.spOf r)) := Function.update_self ..
      have hiff : C.gather.Complete (a.add (C.spOf r) r) (C.spOf r) ↔
          C.locals (C.spOf r) ⊆ insert r (a.has (C.spOf r)) := by
        rw [complete_iff, hadd]
      have hother : ∀ j, j ≠ C.spOf r → (a.add (C.spOf r) r).has j = a.has j := fun j hj => Function.update_of_ne hj ..
      refine .inr ⟨.put r, _, ?_, if_pos ⟨Finset.mem_range.2 hr, hnew⟩, ?_⟩
      · rw [NetLabel.move, Cluster.rank_msg hr]
      · change C.Gathers (s.put (C.spOf r) e) (if C.gather.Complete (a.add (C.spOf r) r) (C.spOf r) then
          C.gather.send (a.add (C.spOf r) r) (C.spOf r) else a.add (C.spOf r) r)
        by_cases hcomp : C.gather.Complete (a.add (C.spOf r) r) (C.spOf r)
        · rw [if_pos hcomp]
          refine h.put (by rw [Gathering.send, hadd]; exact hk) hother hlog (fun d => ?_) fun j hj =>
            Gathering.wire_send_of_ne hj
          rw [Gathering.wire_send_self, List.map_append, hsent]
          congr 1
          have hd : (d ∈ C.gather.parties ∧ d ≠ C.spOf r) ↔
              C.locals (C.spOf r) ⊆ insert r (a.has (C.spOf r)) ∧ d < C.num ∧ d ≠ C.spOf r := by
            rw [and_iff_right (hiff.1 hcomp)]
            exact and_congr_left' Finset.mem_range
          by_cases hdd : d ∈ C.gather.parties ∧ d ≠ C.spOf r
          · rw [if_pos hdd, if_pos (hd.1 hdd)]
            rfl
          · rw [if_neg hdd, if_neg (mt hd.2 hdd)]
            rfl
        · rw [if_neg hcomp]
          refine h.put (by rw [hadd]; exact hk) hother hlog (fun d => ?_) fun _ _ => rfl
          rw [hsent, if_neg fun hc => hcomp (hiff.2 hc.1), List.append_nil]
          rfl
    | cacheSent =>
      obtain ⟨hk, hlog⟩ := (h.sp i).cacheSent he
      have hlog : e.log = (s.sp i).log ++ [] := hlog.trans (List.append_nil _).symm
      exact .inl ⟨rfl, h.put hk (fun _ _ => rfl) hlog (fun _ => (List.append_nil _).symm) fun _ _ => rfl⟩
    | peerCacheEntries _ _ | revokeFromRank _ | revokeFromSp _ | revokeSent | requestAdd _ | requestRevoke _ =>
      exact hl.1.elim
  · have hwire := h.link i j
    rw [hlink] at hwire
    obtain ⟨r, rs, hw, rfl, rfl⟩ := List.map_eq_cons_iff.1 hwire.symm
    obtain ⟨hr, hsp, -, hji, hnew, -⟩ := hkept.wire i j r (by rw [hw]; exact List.mem_cons_self)
    have hloc : r ∉ C.locals j := fun hm => hji ((mem_locals.1 hm).2.symm.trans hsp)
    obtain ⟨hk, out, hlog, hsent⟩ := (h.sp j).recv (Finset.mem_range.1 hr) hloc hnew he
    have hadd : (a.add j r).has j = insert r (a.has j) := Function.update_self ..
    refine .inr ⟨.hand i j, (a.add j r).leave i j rs, rfl, by rw [Gathering.step, hw], ?_⟩
    refine (h.receive hw).put (by rw [Spread.leave, hadd]; exact hk) (fun k hk => Function.update_of_ne hk ..) hlog
      (fun d => ?_) fun _ _ => rfl
    rw [hsent, List.append_nil]
    rfl

/-- **Every run gathers the entries.** -/
theorem gathers_of_reach (hc : C.Ready) (h : Reach (Net.step C.toCluster) C.Joins Net.init s) :
    ∃ a, C.Gathers s a ∧ C.gather.Kept a := by
  refine h.invariant (I := fun s => ∃ a, C.Gathers s a ∧ C.gather.Kept a)
    ⟨_, gathers_init, Gathering.kept_start⟩ ?_
  rintro s l s' ⟨a, ha, hk⟩ hl hs
  rcases ha.step hk hc hl hs with ⟨-, ha'⟩ | ⟨m, a', -, hstep, ha'⟩
  · exact ⟨a, ha', hk⟩
  · exact ⟨a', ha', hk.step hstep⟩

variable (C) in
/-- How many entries are missing, over all SPs. -/
def missing (s : Net) : ℕ :=
  ∑ i ∈ Finset.range C.num, ((Finset.range C.size).filter fun r => (s.sp i).gp.isSet r = false).card

theorem Gathers.missing_eq (h : C.Gathers s a) : C.missing s = C.gather.rest a := by
  refine Finset.sum_congr rfl fun i _ => congrArg Finset.card ?_
  ext r
  rw [Finset.mem_filter, (h.sp i).holds.isSet, decide_eq_false_iff_not, Finset.mem_sdiff]
  rfl

/-- **As long as an entry is missing, a rank can join or a message can be received.** -/
theorem Gathers.exists_step (h : C.Gathers s a) (hkept : C.gather.Kept a) (hv : C.Tells v) (hne : C.missing s ≠ 0) :
    ∃ l s', C.Joins s l ∧ l.move.isSome = true ∧ s.step C.toCluster l = some s' := by
  obtain ⟨m, a', hm⟩ := hkept.exists_step (by rw [← h.missing_eq]; exact hne)
  rcases Gathering.step_cases hm with ⟨r, -, hr, hnew, -⟩ | ⟨i, j, r, rs, -, hw, -⟩
  · have hrs : r < C.size := Finset.mem_range.1 hr
    have hrank : (C.msg r 1).rankInfo.rank = r := Cluster.rank_msg hrs 1
    have hnot : .addGroupRank (C.client r) (C.msg r 1) ∉ (s.sp (C.spOf r)).seen := fun hm =>
      hnew (((h.sp _).seen r (mem_locals.2 ⟨hrs, rfl⟩)).1 hm)
    have hen : (s.sp (C.spOf r)).enabled (C.ctx (C.spOf r) v) (.addGroupRank (C.client r) (C.msg r 1)) = true :=
      C.onDpu (C.spOf r)
    obtain ⟨s', hs'⟩ := Net.exists_own (s := s) hen
    refine ⟨.own (C.spOf r) v (.addGroupRank (C.client r) (C.msg r 1)), s', ⟨?_, hv⟩, rfl, hs'⟩
    rw [Cluster.Joining, hrank]
    exact ⟨hrs, rfl, rfl, rfl, hnot⟩
  · have hlink : s.link i j = C.announce r :: rs.map C.announce := by
      rw [h.link, hw]
      rfl
    obtain ⟨s', hs'⟩ := Net.exists_deliver (C := C.toCluster) (v := v) hlink rfl
    exact ⟨.deliver i j v, s', ⟨trivial, trivial⟩, rfl, hs'⟩

end Crew

/-- **When all ranks have joined and no message is on its way, every SP has the complete cache**, and has sent it to its
ranks once. -/
theorem gathered_of_reach (C : Crew) (hc : C.Ready) {s : Net} (h : Reach (Net.step C.toCluster) C.Joins Net.init s)
    (hjoined : ∀ r < C.size, .addGroupRank (C.client r) (C.msg r 1) ∈ (s.sp (C.spOf r)).seen)
    (hquiet : ∀ i < C.num, ∀ j < C.num, s.link i j = []) :
    ∀ i < C.num, (s.sp i).gp.entries = C.table ∧
      (s.sp i).log.filter Effect.isCacheToRanks = [.cacheToRanks C.table] := by
  obtain ⟨a, ha, hk⟩ := Crew.gathers_of_reach hc h
  intro i hi
  have hall : a.has i = Finset.range C.size := by
    refine hk.gathered (fun r hr => ?_) (fun i hi j hj => ?_) i (Finset.mem_range.2 hi)
    · have hr := Finset.mem_range.1 hr
      exact ((ha.sp _).seen r (Crew.mem_locals.2 ⟨hr, rfl⟩)).1 (hjoined r hr)
    · have hlink := ha.link i j
      rw [hquiet i (Finset.mem_range.1 hi) j (Finset.mem_range.1 hj)] at hlink
      exact List.map_eq_nil_iff.1 hlink.symm
  have hsp := ha.sp i
  rw [hall] at hsp
  have hl : (s.sp i).gp.Live := by
    by_contra hl
    exact (Finset.nonempty_range_iff.2 C.pos.ne').ne_empty (hsp.holds.idle hl)
  refine ⟨(hsp.holds.entries hl).trans ?_, hsp.posts.trans (if_pos rfl)⟩
  exact List.map_congr_left fun q hq => if_pos (Finset.mem_range.2 (List.mem_range.1 hq))

/-- The two SPs are ready. -/
theorem pairCrew_ready : pairCrew.Ready where
  connected _ _ := rfl
  host r hr _ := Int.ofNat_le.2 (Finset.card_pos.2 ⟨r, Crew.mem_locals.2 ⟨hr, rfl⟩⟩)

/-- Both ranks of the pair join, and both entries are exchanged. -/
theorem gathered_of_reach_pair :
    ∃ s, Reach (Net.step pairCrew.toCluster) pairCrew.Joins Net.init s ∧ ∀ i < 2,
      (s.sp i).gp.entries = pairCrew.table ∧
        (s.sp i).log.filter Effect.isCacheToRanks = [.cacheToRanks pairCrew.table] := by
  have h : ∃ s, Reach (Net.step pairCrew.toCluster) pairCrew.Joins Net.init s ∧
      (∀ r < 2, .addGroupRank 0 (pairAdd r 1) ∈ (s.sp r).seen) ∧ ∀ i < 2, ∀ j < 2, s.link i j = [] :=
    exists_reach_of_exec [pairJoin 0 1, pairJoin 1 1, .deliver 0 1 pairView, .deliver 1 0 pairView] (by decide)
  obtain ⟨s, hs, hjoined, hquiet⟩ := h
  exact ⟨s, hs, gathered_of_reach pairCrew pairCrew_ready hs hjoined hquiet⟩

/-- **How many steps it takes**: each rank that joins and each message that is received brings one SP one entry, and
as long as one is missing another such step is possible. So the messages are received after a known number of steps,
whatever their order. -/
theorem gather_run (C : Crew) (hc : C.Ready) {v : View} (hv : C.Tells v) (ls : List NetLabel) {s : Net}
    (h : exec (Net.step C.toCluster) C.Joins ls Net.init = some s) :
    ls.countP (fun l => l.move.isSome) + C.missing s = C.num * C.size ∧
      (C.missing s ≠ 0 → ∃ l s', C.Joins s l ∧ l.move.isSome = true ∧ s.step C.toCluster l = some s') := by
  obtain ⟨a, ha, hk⟩ := Crew.gathers_of_reach hc (reach_of_exec h)
  refine ⟨?_, ha.exists_step hk hv⟩
  have hrun : ∀ (ls : List NetLabel) (s₀ : Net) (a₀ : Spread ℕ ℕ), C.Gathers s₀ a₀ → C.gather.Kept a₀ →
      exec (Net.step C.toCluster) C.Joins ls s₀ = some s →
      ls.countP (fun l => l.move.isSome) + C.missing s = C.missing s₀ := by
    intro ls
    induction ls with
    | nil =>
      intro s₀ a₀ _ _ hs
      cases hs
      exact Nat.zero_add _
    | cons l ls ih =>
      intro s₀ a₀ ha₀ hk₀ hs
      rw [exec] at hs
      split at hs
      · rename_i hl
        obtain ⟨s₁, hs₁, hrest⟩ := Option.bind_eq_some_iff.1 hs
        rcases ha₀.step hk₀ hc hl hs₁ with ⟨hno, ha₁⟩ | ⟨m, a₁, hm, hstep, ha₁⟩
        · have hsame : C.missing s₁ = C.missing s₀ := by rw [ha₁.missing_eq, ha₀.missing_eq]
          rw [List.countP_cons_of_neg (by simp [hno]), ih s₁ a₀ ha₁ hk₀ hrest, hsame]
        · have hless := hk₀.rest_step hstep
          have hih := ih s₁ a₁ ha₁ (hk₀.step hstep) hrest
          rw [← ha₁.missing_eq, ← ha₀.missing_eq] at hless
          rw [List.countP_cons_of_pos (by simp [hm])]
          omega
      · cases hs
  rw [hrun ls Net.init _ Crew.gathers_init Gathering.kept_start h, Crew.gathers_init.missing_eq, Gathering.rest_start]
  simp [Crew.gather]

/-- Both ranks of the pair have joined: two entries are on their way. -/
theorem gather_run_pair :
    ∃ s, exec (Net.step pairCrew.toCluster) pairCrew.Joins [pairJoin 0 1, pairJoin 1 1] Net.init = some s ∧
      pairCrew.missing s = 2 ∧
      ∃ l s', pairCrew.Joins s l ∧ l.move.isSome = true ∧ s.step pairCrew.toCluster l = some s' := by
  obtain ⟨s, hs⟩ : ∃ s, exec (Net.step pairCrew.toCluster) pairCrew.Joins [pairJoin 0 1, pairJoin 1 1] Net.init =
      some s := Option.isSome_iff_exists.1 (by decide)
  obtain ⟨hcount, hstep⟩ := gather_run pairCrew pairCrew_ready (v := pairView) (by decide) _ hs
  have htwo : pairCrew.missing s = 2 := by
    have h : 2 + pairCrew.missing s = 2 * 2 := hcount
    omega
  exact ⟨s, hs, htwo, hstep (by omega)⟩

end DpuOffload
