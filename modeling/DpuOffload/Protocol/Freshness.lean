import DpuOffload.Cache.HostCounts
import DpuOffload.Protocol.EntryCounts

/-!
# Are the lookup tables up to date?

The lookup tables of a group are filled when the complete group is sent to the local ranks,
and by any topology getter that finds them empty; the flag `lookup_tables_populated` then says
that they are there. A getter does not ask whether the group is complete. The entries that come
after it change the bitsets and the counters, and no one fills the tables again.

A group is laid out on the SPs of the engine (`Layout`): each rank has its SPs, wherever the
entry that tells them comes from.

* `Topology.Fresh` — the tables list the bits of the bitsets, as many as the counters say.
* `Charted` — what the callbacks keep about the topology of a group; a group whose tables are
  filled is complete.
* `tables_fresh` — **the tables are up to date in every state** of every run in which getters
  fill the tables of complete groups only, no rank is added twice, and the SPs of the group are
  the first ones of the engine.
* `not_tables_fresh` — a getter between two entries.
-/

namespace DpuOffload

open Relation Transition TopoUpdate

/-! ### Tables that list the bits -/

/-- A table lists the bits of a bitset, `k` of them. -/
def Lists (table : List ℕ) (b : Bitset) (k : ℕ) : Prop := table.length = k ∧ table.toFinset = b.bits

/-- **The tables are up to date.** -/
structure Topology.Fresh (t : Topology) : Prop where
  /-- The SPs. -/
  sps : Lists t.sps (t.spsBitset.getD []) t.nSps
  /-- The hosts. -/
  hosts : Lists t.hosts (t.hostsBitset.getD []) t.nHosts
  /-- The SPs of each host. -/
  hostSps : ∀ uid d, t.hostsHash.lookup uid = some d → Lists d.sps (d.spsBitset.getD []) d.numSps
  /-- The ranks of each SP. -/
  spRanks : ∀ gid d, t.spsHash.lookup gid = some d → Lists d.ranks (d.ranksBitset.getD []) d.nRanks

/-- A scan for as many bits as there are lists them. -/
theorem lists_firstBits {b : Bitset} {k : ℕ} (h : k = b.bits.card) : Lists (b.firstBits k) b k := by
  refine ⟨by rw [Bitset.length_firstBits, ← h, min_self], ?_⟩
  ext i
  rw [List.mem_toFinset, Bitset.mem_firstBits h.ge]

/-! ### The layout of a group -/

/-- Where the ranks of a group are. -/
structure Layout where
  /-- The size of the group. -/
  size : ℕ
  /-- It can be allocated. -/
  alloc : Allocatable size
  /-- The SPs of each rank. -/
  sps : ℕ → List ℕ
  /-- A rank has an SP once. -/
  nodup : ∀ r, (sps r).Nodup

/-- The SPs of the group are the first ones of the engine, and have a bit in a bitset of the size
of the group. -/
def Layout.Packed (L : Layout) : Prop :=
  ∃ k ≤ (Bitset.create L.size).capacity, ∀ sp, (∃ r < L.size, sp ∈ L.sps r) ↔ sp < k

/-- The topology of a group in which the ranks `set` are set, and no others. -/
structure Chart (cfg : HostsConfig) (L : Layout) (set : ℕ → Bool) (t : Topology) (us : List TopoUpdate) : Prop where
  /-- The topology records the runs of `update_topology_data`. -/
  records : t.Records cfg L.size us
  /-- A rank and an SP came once. -/
  nodup : (us.map fun u => (u.rank, u.sp)).Nodup
  /-- The ranks that are set came with all their SPs. -/
  pairs : ∀ r sp, (r, sp) ∈ us.map (fun u => (u.rank, u.sp)) ↔ set r = true ∧ sp ∈ L.sps r
  /-- The hosts are in the configuration. -/
  hosts : ∀ u ∈ us, cfg.Has u.host

variable {cfg : HostsConfig} {L : Layout} {set set' : ℕ → Bool} {t : Topology} {us : List TopoUpdate}

theorem Chart.empty (cfg : HostsConfig) (L : Layout) (h : ∀ r, set r = false) :
    Chart cfg L set Topology.empty [] where
  records := records_empty cfg L.size
  nodup := List.nodup_nil
  pairs r sp := by simp [h r]
  hosts u hu := absurd hu List.not_mem_nil

/-- A rank is added. -/
theorem Chart.add (h : Chart cfg L set t us) {r : ℕ} (hr : set r = false)
    (hset : ∀ q, set' q = if q = r then true else set q) {host : ℕ} (hhost : cfg.Has host) (gpUid : ℤ) :
    Chart cfg L set' ((L.sps r).foldl (fun t sp => t.updateTopologyData cfg gpUid L.size r sp host) t)
      (((L.sps r).map fun sp => ⟨r, sp, host⟩).reverse ++ us) := by
  have hnew : (((L.sps r).map fun sp => (⟨r, sp, host⟩ : TopoUpdate)).reverse ++ us).map (fun u => (u.rank, u.sp)) =
      ((L.sps r).map fun sp => (r, sp)).reverse ++ us.map fun u => (u.rank, u.sp) := by
    rw [List.map_append, List.map_reverse, List.map_map]
    rfl
  have hmem : ∀ q sp, (q, sp) ∈ ((L.sps r).map fun sp => (r, sp)).reverse ↔ q = r ∧ sp ∈ L.sps r := by
    intro q sp
    rw [List.mem_reverse, List.mem_map]
    constructor
    · rintro ⟨sp', hsp, heq⟩
      cases heq
      exact ⟨rfl, hsp⟩
    · rintro ⟨rfl, hsp⟩
      exact ⟨sp, hsp, rfl⟩
  constructor
  · exact h.records.updates gpUid r host (L.sps r)
  · rw [hnew, List.nodup_append]
    refine ⟨?_, h.nodup, ?_⟩
    · rw [List.nodup_reverse]
      exact (L.nodup r).map fun a b hab => (Prod.mk.inj hab).2
    · rintro ⟨q, sp⟩ hq p hp rfl
      obtain ⟨rfl, -⟩ := (hmem q sp).1 hq
      rw [((h.pairs q sp).1 hp).1] at hr
      cases hr
  · intro q sp
    rw [hnew, List.mem_append, hmem, h.pairs, hset]
    by_cases hq : q = r
    · subst hq
      simp [hr]
    · simp [hq]
  · intro u hu
    rcases List.mem_append.1 hu with hu | hu
    · obtain ⟨sp, -, rfl⟩ := List.mem_map.1 (List.mem_reverse.1 hu)
      exact hhost
    · exact h.hosts u hu

/-- **The tables of a complete group are up to date** when its SPs are the first ones of the
engine. -/
theorem Chart.fresh (h : Chart cfg L set t us) (ht : t.Tables) (hcfg : cfg.Valid) (hL : L.Packed)
    (hset : ∀ r, set r = true ↔ r < L.size) : t.Fresh := by
  obtain ⟨k, hk, hpack⟩ := hL
  have hmem : ∀ r sp, (∃ u ∈ us, u.rank = r ∧ u.sp = sp) ↔ r < L.size ∧ sp ∈ L.sps r := by
    intro r sp
    rw [← hset r, ← h.pairs r sp, List.mem_map]
    constructor
    · rintro ⟨u, hu, rfl, rfl⟩
      exact ⟨u, hu, rfl⟩
    · rintro ⟨u, hu, heq⟩
      exact ⟨u, hu, (Prod.mk.inj heq).1, (Prod.mk.inj heq).2⟩
  have hlt : ∀ u ∈ us, u.sp < (Bitset.create L.size).capacity ∧ u.rank < (Bitset.create L.size).capacity := by
    intro u hu
    obtain ⟨hr, hsp⟩ := (hmem u.rank u.sp).1 ⟨u, hu, rfl, rfl⟩
    exact ⟨((hpack u.sp).1 ⟨u.rank, hr, hsp⟩).trans_le hk, hr.trans_le (Bitset.le_capacity_create _)⟩
  have hrange : spsOf us = Finset.range k := by
    ext sp
    rw [mem_spsOf, Finset.mem_range, ← hpack]
    constructor
    · rintro ⟨u, hu, rfl⟩
      exact ⟨u.rank, (hmem u.rank u.sp).1 ⟨u, hu, rfl, rfl⟩⟩
    · rintro ⟨r, hr, hsp⟩
      obtain ⟨u, hu, -, rfl⟩ := (hmem r sp).2 ⟨hr, hsp⟩
      exact ⟨u, hu, rfl⟩
  obtain ⟨hbits, hns⟩ := h.records.sps.nSps_eq fun u hu => (hlt u hu).1
  constructor
  · rw [Lists, ht.sps, ← hns, min_self, List.length_range]
    refine ⟨rfl, ?_⟩
    rw [hns, hbits, hrange, Finset.card_range]
    ext i
    simp
  · rw [ht.hosts]
    exact lists_firstBits (h.records.hosts.nHosts_eq hcfg h.hosts)
  · intro uid d hd
    rw [ht.hostSps uid d hd]
    refine lists_firstBits ((h.records.hosts.data uid d hd).numSps_iff.2 fun u hu => ?_)
    exact (hlt u (List.mem_filter.1 hu).1).1
  · intro gid d hd
    rw [ht.spRanks gid d hd]
    refine lists_firstBits ((h.records.sps.data gid d hd).nRanks_eq ?_ fun u hu => (hlt u (List.mem_filter.1 hu).1).2)
    -- the runs about one SP differ in their ranks
    have hpairs : ((ofSp gid us).map fun u => (u.rank, u.sp)).Nodup := h.nodup.sublist (List.filter_sublist.map _)
    refine List.Nodup.of_map (fun r => (r, gid)) ?_
    rw [List.map_map]
    have heq : (ofSp gid us).map ((fun r => (r, gid)) ∘ fun u => u.rank) = (ofSp gid us).map fun u => (u.rank, u.sp) := by
      refine List.map_congr_left fun u hu => ?_
      rw [Function.comp_apply, of_decide_eq_true (List.mem_filter.1 hu).2]
    rwa [heq]

/-! ### A group cache -/

/-- The part of a group cache that is about its entries and its topology. -/
def GroupCache.frame (g : GroupCache) : GroupCache :=
  { g with
    persistent := Persistent.init, revokesGlobal := 0, revokesLocal := 0, revokesRanks := none
    nLocalRanks := 0, nLocalRanksPopulated := 0, spRanks := 0 }

/-- **What the callbacks keep about the topology of a group.** -/
structure Charted (cfg : HostsConfig) (L : Layout) (g : GroupCache) : Prop extends Stocked L.size g where
  /-- A group not in use has no topology. -/
  empty : ¬ g.Live → g.topo = Topology.empty
  /-- The topology is that of the ranks that are set. -/
  chart : ∃ us, Chart cfg L g.isSet g.topo us
  /-- A group whose tables are filled is complete. -/
  filled : g.topo.lookupTablesPopulated = true → 0 < L.size ∧ g.numLocalEntries = L.size ∧ g.topo.Tables

variable {g g' : GroupCache} {ctx : GpCtx} {T : Tally → Prop}

namespace Charted

/-- What is about neither the entries nor the topology does not matter. -/
theorem of_frame (h : Charted cfg L g) (hg : g'.frame = g.frame) : Charted cfg L g' := by
  simp only [GroupCache.frame, GroupCache.mk.injEq, true_and] at hg
  obtain ⟨hi, hsize, hu, hnum, hranks, htopo⟩ := hg
  have hl : g'.Live ↔ g.Live := by simp only [GroupCache.Live, hu]
  have hset : g'.isSet = g.isSet := funext fun r => isSet_congr hranks r
  refine ⟨h.toStocked.congr hi hsize hu hnum hranks, ?_, ?_, ?_⟩
  · rw [hl, htopo]
    exact h.empty
  · rw [hset, htopo]
    exact h.chart
  · rw [htopo, hnum]
    exact h.filled

/-- A group cache without entries. -/
theorem of_none (hl : ¬ g.Live) (hr : g.ranks = none) (hs : g.groupSize = 0) (hn : g.numLocalEntries = 0)
    (ht : g.topo = Topology.empty) : Charted cfg L g := by
  refine ⟨Stocked.of_none hl hr hs hn, fun _ => ht, ?_, ?_⟩
  · rw [ht]
    exact ⟨[], Chart.empty cfg L fun r => isSet_of_ranks_none hr r⟩
  · rw [ht]
    intro hp
    cases hp

theorem new : Charted cfg L newGroupCache := of_none (fun h => h rfl) rfl rfl rfl rfl

theorem reset (g : GroupCache) (p : Persistent) : Charted cfg L { resetGroupCache g with persistent := p } :=
  of_none (fun h => h rfl) rfl rfl rfl rfl

/-- A group that is initialised with its size. -/
theorem init (g : GroupCache) {uid : ℤ} (hu : uid ≠ INT_MAX) :
    Charted cfg L { initGroupCache g (sizeT L.size) with groupUid := uid } := by
  refine ⟨Stocked.init L.alloc g hu, fun h => absurd hu h, ⟨[], Chart.empty cfg L fun r => ?_⟩, fun hp => ?_⟩
  · exact isSet_replicate (k := allocEntries (sizeT L.size)) rfl r
  · cases hp

/-- A lookup with the size of the group. -/
theorem lookup {uid : ℤ} (hu : uid ≠ INT_MAX) (h : Charted cfg L g) :
    Charted cfg L (getGroupCacheInternal uid (some g) L.size) := by
  unfold getGroupCacheInternal
  dsimp only
  split
  · exact init g hu
  · exact h

/-- The tables of a group of unknown size are empty. -/
theorem not_filled (h : Charted cfg L g) (h0 : g.groupSize = 0) : g.topo.lookupTablesPopulated = false := by
  cases hp : g.topo.lookupTablesPopulated with
  | false => rfl
  | true =>
    obtain ⟨hpos, hnum, -⟩ := h.filled hp
    rw [h.unknown h0] at hnum
    exact absurd hnum hpos.ne

/-- The group learns its size, and may create its bitsets. -/
theorem known (h : Charted cfg L g) (h0 : g.groupSize = 0) {t : Topology} (ht : t = g.topo ∨ t = { g.topo with
      spsBitset := some (bitsetCreate g.topo.spsBitset L.size)
      hostsBitset := some (bitsetCreate g.topo.hostsBitset cfg.numHosts) })
    (hl : g.Live) (hg : g'.frame = { g.frame with groupSize := L.size, topo := t }) : Charted cfg L g' := by
  have h' : Charted cfg L { g with groupSize := L.size, topo := t } := by
    obtain ⟨us, hus⟩ := h.chart
    have hpop : t.lookupTablesPopulated = false := by
      rcases ht with rfl | rfl <;> exact h.not_filled h0
    refine ⟨h.toStocked.known.congr rfl rfl rfl rfl rfl, fun hd => absurd hl hd, ⟨us, ?_⟩, ?_⟩
    · refine ⟨?_, hus.nodup, hus.pairs, hus.hosts⟩
      rcases ht with rfl | rfl
      · exact hus.records
      · exact hus.records.congr rfl rfl (.inr rfl) rfl rfl (.inr rfl)
    · intro hp
      rw [hpop] at hp
      cases hp
  apply h'.of_frame
  rw [hg]
  rfl

theorem learn (h : Charted cfg L g) (hl : g.Live) : Charted cfg L (g.learnGroupSize cfg L.size) := by
  unfold GroupCache.learnGroupSize
  split
  · rename_i hc
    apply h.known hc.2.1 (.inr rfl) hl
    rw [sizeT_natCast L.alloc.lt]
    rfl
  · exact h

/-- **A rank is added**, with its SPs. -/
theorem put (h : Charted cfg L g) (hl : g.Live) (hs : g.groupSize = L.size) {r : ℕ} (hr : r < L.size)
    (hset : g.isSet r = false) {e : PeerCacheEntry} (he : e.set = true) {host : ℕ} (hhost : cfg.Has host) {u : ℤ}
    (hg : g'.frame = { g.frame with
      numLocalEntries := g.numLocalEntries + 1
      ranks := g.ranks.map (·.set r e)
      topo := (L.sps r).foldl (fun t sp => t.updateTopologyData cfg u g.groupSize r sp host) g.topo }) :
    Charted cfg L g' := by
  rw [hs] at hg
  simp only [GroupCache.frame, GroupCache.mk.injEq, true_and] at hg
  obtain ⟨hi, hsize, hu, hnum, hranks, htopo⟩ := hg
  have hlive : g'.Live := by rw [GroupCache.Live, hu]; exact hl
  have hlen : r < g.entries.length := by
    obtain ⟨-, l, hlr, hlen⟩ := h.live hl
    rw [GroupCache.entries, hlr]
    exact hlen ▸ hr
  have hall : ∀ q, g'.isSet q = if q = r then true else g.isSet q := by
    intro q
    rw [GroupCache.isSet, entryAt_map_set hlen hranks q]
    split
    · exact he
    · rfl
  refine ⟨h.toStocked.put hl hs hr hset he hi hsize hu hnum hranks, fun hd => absurd hlive hd, ?_, ?_⟩
  · obtain ⟨us, hus⟩ := h.chart
    rw [htopo]
    exact ⟨_, hus.add hset hall hhost u⟩
  · intro hp
    -- a group whose tables are filled has no rank to add
    rw [htopo, updates_populated] at hp
    rw [(h.isSet_of_complete (h.filled hp).2.1 r).2 hr] at hset
    cases hset

/-- The tables of a complete group are filled. -/
theorem populate (h : Charted cfg L g) (hl : g.Live) (hpos : 0 < L.size) (hn : g.numLocalEntries = L.size)
    (hg : g'.frame = { g.frame with topo := g.topo.doPopulateGroupCacheLookupTable }) : Charted cfg L g' := by
  have h' : Charted cfg L { g with topo := g.topo.doPopulateGroupCacheLookupTable } := by
    obtain ⟨us, hus⟩ := h.chart
    refine ⟨h.toStocked.congr rfl rfl rfl rfl rfl, fun hd => absurd hl hd,
      ⟨us, hus.records.doPopulate, hus.nodup, hus.pairs, hus.hosts⟩, fun _ => ⟨hpos, hn, ?_⟩⟩
    cases hp : g.topo.lookupTablesPopulated with
    | true =>
      rw [doPopulate_of_populated hp]
      exact (h.filled hp).2.2
    | false => exact tables_doPopulate hp
  apply h'.of_frame
  rw [hg]
  rfl

/-- A group of known size that passes for complete is. -/
theorem complete (h : Charted cfg L g) (hpos : 0 < g.groupSize) (hf : g.full = true) :
    0 < L.size ∧ g.numLocalEntries = L.size := by
  have hs : g.groupSize = L.size := h.size.resolve_left hpos.ne'
  have hf : g.groupSize = g.numLocalEntries := beq_iff_eq.1 hf
  omega

/-- The complete group is sent to the local ranks. -/
theorem send {s : GpState} (h : Charted cfg L s.gp) (hl : s.gp.Live) (hpos : 0 < s.gp.groupSize)
    (hf : s.gp.full = true) : Charted cfg L (sendGpCacheToHost s).gp := by
  unfold sendGpCacheToHost
  split
  · obtain ⟨hp, hn⟩ := h.complete hpos hf
    exact h.populate hl hp hn rfl
  · exact h

theorem exchange {s : GpState} (h : Charted cfg L s.gp) (hl : s.gp.Live) (hpos : 0 < s.gp.groupSize) (k : ℕ) :
    Charted cfg L (groupCacheExchange ctx s k).gp := by
  have hb : Charted cfg L (broadcastGroupCache ctx s).gp := by
    simp only [broadcastGroupCache]
    split
    · exact h
    · by_cases hf : s.gp.full
      · simp only [GpState.emit, hf, if_true]
        exact send (s := ⟨s.gp, _⟩) h hl hpos hf
      · simp only [GpState.emit, hf]
        exact h
  unfold groupCacheExchange
  repeat' split
  all_goals first | exact hb | exact h

end Charted

/-! ### Callbacks -/

/-- Messages about a group that is laid out as `L`, on SP `gid` or on a host of that SP. -/
def Layout.msgs (L : Layout) (cfg : HostsConfig) (gid : ℕ) : MsgSpec where
  entry e := Member L.size e.peer.procInfo ∧ e.shadowServiceProcs = L.sps e.rank ∧ cfg.Has e.peer.hostInfo
  add p := Member L.size p.data.rankInfo ∧ L.sps (sizeT p.data.rankInfo.groupRank) = [gid]
  rankRev i := i.groupSize = L.size
  rev m := m.groupSize = L.size

/-- A rank that asks to join, on a host of SP `gid`. -/
def Layout.Joins (L : Layout) (cfg : HostsConfig) (gid : ℕ) (m : GroupAddMsg) : Prop :=
  Member L.size m.rankInfo ∧ L.sps (sizeT m.rankInfo.groupRank) = [gid] ∧ cfg.Has m.rankInfo.hostInfo

/-- The requests of ranks, in hand and put aside. -/
structure Requests (Q : GroupAddMsg → Prop) (w : Work) : Prop where
  /-- In hand. -/
  reqs : ∀ m ∈ w.reqs, Q m
  /-- Put aside. -/
  pending : ∀ p ∈ w.gp.queues.pendingSendGroupAddMsgs, Q p.msg

variable {w w' : Work} {Sz : ℤ → Prop} {gid : ℕ}

/-- **No action makes a request up.** -/
theorem Requests.act {Q : GroupAddMsg → Prop} (h : Requests Q w) (ha : Act ctx Sz T w w') : Requests Q w' := by
  have keep : ∀ w' : Work, w'.reqs = w.reqs → w'.gp.queues = w.gp.queues → Requests Q w' := by
    intro w' hr hq
    exact ⟨by rw [hr]; exact h.reqs, by rw [hq]; exact h.pending⟩
  cases ha with
  | learn _ _ _ | addEntry _ _ _ _ _ | addLocal _ _ _ _ _ => exact keep _ rfl (by simp)
  | sendCache _ _ _ =>
    obtain ⟨t, ht⟩ := sendGpCacheToHost_gp w.toGpState
    exact keep _ rfl (by simp only [ht]; rfl)
  | exchange _ _ =>
    obtain ⟨t, ht⟩ := @groupCacheExchange_gp ctx w.toGpState w.gp.spRanks
    exact keep _ rfl (by simp only [ht]; rfl)
  | markLocal _ _ _ => exact keep _ rfl (by simp only [tellRankRevoke_gp]; rfl)
  | accept _ _ _ _ => exact keep _ rfl (by simp [GroupCache.queues])
  | hostAdd _ hr =>
    refine ⟨fun m hm => h.reqs m (subset_of_eq_cons hr hm), ?_⟩
    simp only [doSendAddGroupRankRequest_queues]
    exact h.pending
  | hostPark _ hr _ =>
    refine ⟨fun m hm => h.reqs m (subset_of_eq_cons hr hm), fun p hp => ?_⟩
    rcases List.mem_append.1 hp with hp | hp
    · exact h.pending p hp
    · rw [List.mem_singleton.1 hp]
      exact h.reqs _ (mem_of_eq_cons hr)
  | @hostTake q qs _ hp =>
    have hq : w.gp.queues.pendingSendGroupAddMsgs = q :: qs := hp
    refine ⟨fun m hm => ?_, fun p hp => h.pending p (subset_of_eq_cons hq hp)⟩
    rcases List.mem_cons.1 hm with rfl | hm
    · exact h.pending q (mem_of_eq_cons hq)
    · exact h.reqs m hm
  | _ => exact ⟨h.reqs, h.pending⟩

/-- What the callbacks keep about a group that is laid out as `L`. -/
structure Filed (cfg : HostsConfig) (gid : ℕ) (L : Layout) (w : Work) : Prop where
  /-- What is put aside announces the size of the group. -/
  sized : w.gp.Sized (· = (L.size : ℤ))
  /-- The messages are as they should be. -/
  carries : Carries (L.msgs cfg gid) w
  /-- The requests too. -/
  requests : Requests (L.Joins cfg gid) w
  /-- The topology of the group. -/
  charted : Charted cfg L w.gp
  /-- An exchange follows an addition. -/
  due : w.due = true → w.gp.Live ∧ 0 < w.gp.groupSize

/-- An entry of another process is added. -/
theorem Charted.addPeerEntry (h : Charted ctx.hosts L g) (hl : g.Live) (hs : g.groupSize = L.size)
    {e : PeerCacheEntry} (he : (L.msgs ctx.hosts gid).entry e)
    (hset : g.isSet (sizeT e.peer.procInfo.groupRank) = false) : Charted ctx.hosts L (g.addPeerEntry ctx e) := by
  obtain ⟨hm, hsp, hhost⟩ := he
  obtain ⟨t, ht⟩ := addPeerEntry_eq ctx g e
  have htopo := @addPeerEntry_topo ctx g e
  rw [hsp] at htopo
  apply h.put hl hs (hm.rank_lt L.alloc) hset (e := g.peerEntry e) rfl hhost (u := g.groupUid)
  unfold PeerCacheEntry.rank at htopo
  rw [← htopo, ht]
  rfl

/-- A local rank is added. -/
theorem Charted.addGroupRank (hhost : ctx.hosts.Has ctx.hostUid) (h : Charted ctx.hosts L g) (hl : g.Live)
    (hs : g.groupSize = L.size) {p : PendingGroupAdd} (hp : (L.msgs ctx.hosts ctx.globalId).add p)
    (hset : g.isSet (sizeT p.data.rankInfo.groupRank) = false) :
    Charted ctx.hosts L (g.addGroupRank ctx p.clientId p.data) := by
  obtain ⟨hm, hsp⟩ := hp
  obtain ⟨t, k, sp, ht, -⟩ := addGroupRank_eq ctx g p.clientId p.data
  have htopo := @addGroupRank_topo ctx g p.clientId p.data
  refine h.put hl hs (hm.rank_lt L.alloc) hset (e := localEntry ctx p.clientId p.data.rankInfo) rfl hhost
    (u := g.groupUid) ?_
  rw [hsp, List.foldl_cons, List.foldl_nil, ← htopo, ht]
  rfl

/-- `host_add_local_rank_to_cache`, for a rank that is not set. -/
theorem Charted.hostAdd (hid : ctx.globalId ≠ UINT64_MAX) (h : Charted ctx.hosts L g) (hl : g.Live)
    (hlearnt : g.Learnt ctx.hosts (· = (L.size : ℤ))) {info : RankInfo} (hm : Member L.size info)
    (hsp : L.sps (sizeT info.groupRank) = [ctx.globalId]) (hhost : ctx.hosts.Has info.hostInfo)
    (hset : g.isSet (sizeT info.groupRank) = false) :
    Charted ctx.hosts L (hostAddLocalRankToCache ctx (some g) info) := by
  have hs := h.toStocked.groupSize_of_learnt L.alloc hl hlearnt
  have hentry : getGroupRankCacheEntry ctx.hosts ctx.gpUid (some g) info.groupSize = g := by
    obtain ⟨size, rfl, hfix⟩ := hlearnt
    rw [getGroupRankCacheEntry, getGroupCacheInternal_of_live hl, hm.groupSize]
    exact hfix
  rw [hostAddLocalRankToCache_eq ctx (some g) info hentry, if_pos hid]
  apply h.put hl hs (hm.rank_lt L.alloc) hset (e := g.hostEntry ctx info) rfl hhost (u := g.groupUid)
  rw [hsp]
  rfl

/-- On a host a rank joins. -/
theorem Charted.hostJoin (hu : ctx.gpUid ≠ INT_MAX) (hid : ctx.globalId ≠ UINT64_MAX) {s : GpState}
    (h : Charted ctx.hosts L s.gp) {m : GroupAddMsg} (hm : L.Joins ctx.hosts ctx.globalId m) :
    Charted ctx.hosts L (doSendAddGroupRankRequest ctx s m).gp := by
  obtain ⟨hmem, hsp, hhost⟩ := hm
  have hl₀ := live_lookup hu s.gp L.size
  have h₀ := h.lookup hu
  simp only [doSendAddGroupRankRequest, hmem.groupSize]
  generalize getGroupCacheInternal ctx.gpUid (some s.gp) L.size = g₀ at hl₀ h₀
  have h₁ : Charted ctx.hosts L g₀.switchVersion := by
    unfold GroupCache.switchVersion
    split
    · exact h₀.of_frame rfl
    · exact h₀
  have hl₁ : g₀.switchVersion.Live := by
    rw [GroupCache.Live, switchVersion_groupUid]
    exact hl₀
  generalize g₀.switchVersion = g₁ at hl₁ h₁
  have h₂ := h₁.learn hl₁
  have hl₂ : (g₁.learnGroupSize ctx.hosts L.size).Live := by
    rw [GroupCache.Live, learnGroupSize_groupUid]
    exact hl₁
  have hlearnt : (g₁.learnGroupSize ctx.hosts L.size).Learnt ctx.hosts (· = (L.size : ℤ)) :=
    learnt_learnGroupSize g₁ rfl
  generalize g₁.learnGroupSize ctx.hosts L.size = g₂ at hl₂ h₂ hlearnt
  split
  · exact h₂
  · rename_i hset
    exact h₂.hostAdd hid hl₂ hlearnt ⟨rfl, hmem.nonneg, hmem.lt⟩ hsp hhost (Bool.not_eq_true _ ▸ hset)

/-- **No action of a callback leaves the tables behind.** -/
theorem Filed.charted_act (hu : ctx.gpUid ≠ INT_MAX) (hid : ctx.globalId ≠ UINT64_MAX)
    (hhost : ctx.hosts.Has ctx.hostUid) (h : Filed ctx.hosts ctx.globalId L w)
    (ha : Act ctx (· = (L.size : ℤ)) T w w') : Charted ctx.hosts L w'.gp := by
  have hc := h.charted
  cases ha with
  | init size hs hl =>
    subst hs
    exact Charted.init w.gp hu
  | learn size hs hl =>
    subst hs
    exact hc.learn hl
  | addEntry he hl hL h0 hset =>
    exact hc.addPeerEntry hl (hc.toStocked.groupSize_of_learnt L.alloc hl hL) (h.carries.ents _ (mem_of_eq_cons he)) hset
  | addLocal ha hl hL h0 hset =>
    exact hc.addGroupRank hhost hl (hc.toStocked.groupSize_of_learnt L.alloc hl hL) (h.carries.adds _ (mem_of_eq_cons ha)) hset
  | sendCache hl hpos hf => exact hc.send hl hpos hf
  | exchange hdue hl => exact hc.exchange hl (h.due hdue).2 _
  | markLocal hr hl hn' => exact hc.of_frame (by simp only [tellRankRevoke_gp]; rfl)
  | accept hr hl hdl hT' =>
    have hm : _ = L.size := h.carries.revs _ (mem_of_eq_cons hr)
    unfold GroupCache.learnFromRevoke
    split
    · rename_i h0
      apply hc.known h0 (.inl rfl) hl
      simp only [GroupCache.frame, hm]
    · exact hc
  | reset hf he hdue => exact Charted.reset _ _
  | hostAdd hd hr => exact hc.hostJoin hu hid (h.requests.reqs _ (mem_of_eq_cons hr))
  | _ => exact hc.of_frame rfl

/-- On a host a group in use that knows its size keeps both. -/
theorem hostJoin_keeps {s : GpState} (hl : s.gp.Live) (hpos : 0 < s.gp.groupSize) (m : GroupAddMsg) :
    (doSendAddGroupRankRequest ctx s m).gp.groupUid = s.gp.groupUid ∧
      (doSendAddGroupRankRequest ctx s m).gp.groupSize = s.gp.groupSize := by
  have hsw : s.gp.switchVersion.groupUid = s.gp.groupUid ∧ s.gp.switchVersion.groupSize = s.gp.groupSize := by
    unfold GroupCache.switchVersion
    split <;> exact ⟨rfl, rfl⟩
  have hl₁ : s.gp.switchVersion.Live := by
    rw [GroupCache.Live, hsw.1]
    exact hl
  have hne : s.gp.switchVersion.groupSize ≠ 0 := by
    rw [hsw.2]
    exact hpos.ne'
  simp only [doSendAddGroupRankRequest, getGroupCacheInternal_of_live hl, learnGroupSize_of_known hne]
  split
  · exact hsw
  · rw [hostAddLocalRankToCache_eq ctx _ _ (g := s.gp.switchVersion)]
    · exact hsw
    · rw [getGroupRankCacheEntry, getGroupCacheInternal_of_live hl₁, learnGroupSize_of_known hne]

/-- An exchange that is due is about a group in use that knows its size, when the ranks that join
are ranks of the group. -/
theorem due_of_act {n : ℕ} (hn : Allocatable n) (h : Stocked n w.gp)
    (hdue₀ : w.due = true → w.gp.Live ∧ 0 < w.gp.groupSize) (hadds : ∀ p ∈ w.adds, Member n p.data.rankInfo)
    (ha : Act ctx (· = (n : ℤ)) T w w') (hdue : w'.due = true) : w'.gp.Live ∧ 0 < w'.gp.groupSize := by
  -- what an addition leaves, and what the other actions leave of what was there
  have hpos : ∀ {r}, r < n → w.gp.groupSize = n → 0 < w.gp.groupSize := by omega
  have keep : ∀ g' : GroupCache, w.due = true → (w.gp.Live → 0 < w.gp.groupSize →
      g'.groupUid = w.gp.groupUid ∧ g'.groupSize = w.gp.groupSize) → g'.Live ∧ 0 < g'.groupSize := by
    intro g' hd hg
    obtain ⟨hl, hp⟩ := hdue₀ hd
    obtain ⟨hu, hs⟩ := hg hl hp
    rw [GroupCache.Live, hu, hs]
    exact ⟨hl, hp⟩
  cases ha with
  | init size hs hl => exact absurd (hdue₀ hdue).1 hl
  | learn size hs hl =>
    refine keep _ hdue fun _ hp => ?_
    rw [learnGroupSize_of_known hp.ne']
    exact ⟨rfl, rfl⟩
  | @addEntry e es he hl hL h0 hset =>
    obtain ⟨t, ht⟩ := addPeerEntry_eq ctx w.gp e
    exact keep _ hdue fun _ _ => by rw [ht]; exact ⟨rfl, rfl⟩
  | @addLocal p ps ha hl hL h0 hset =>
    obtain ⟨t, k, sp, ht, -⟩ := addGroupRank_eq ctx w.gp p.clientId p.data
    rw [ht]
    exact ⟨hl, hpos ((hadds _ (mem_of_eq_cons ha)).rank_lt hn) (h.groupSize_of_learnt hn hl hL)⟩
  | skipAdd ha hl hL h0 hset =>
    exact ⟨hl, hpos (h.isSet_lt hset) (h.groupSize_of_learnt hn hl hL)⟩
  | sendCache hl hp hf =>
    obtain ⟨t, ht⟩ := sendGpCacheToHost_gp w.toGpState
    exact keep _ hdue fun _ _ => by rw [ht]; exact ⟨rfl, rfl⟩
  | exchange hd hl => cases hdue
  | markLocal hr hl hn' =>
    refine keep _ hdue fun _ _ => ?_
    rw [tellRankRevoke_gp]
    exact ⟨rfl, rfl⟩
  | accept hr hl hdl hT' =>
    refine keep _ hdue fun _ hp => ?_
    rw [GroupCache.learnFromRevoke, if_neg hp.ne']
    exact ⟨rfl, rfl⟩
  | reset hf he hd =>
    rw [hd] at hdue
    cases hdue
  | hostAdd hd hr => exact keep _ hdue fun hl hp => hostJoin_keeps hl hp _
  | _ => exact hdue₀ hdue

theorem Filed.due_act (h : Filed cfg gid L w) (ha : Act ctx (· = (L.size : ℤ)) T w w') (hdue : w'.due = true) :
    w'.gp.Live ∧ 0 < w'.gp.groupSize :=
  due_of_act L.alloc h.charted.toStocked h.due (fun p hp => (h.carries.adds p hp).1) ha hdue

theorem Filed.act (hu : ctx.gpUid ≠ INT_MAX) (hid : ctx.globalId ≠ UINT64_MAX) (hhost : ctx.hosts.Has ctx.hostUid)
    (h : Filed ctx.hosts ctx.globalId L w) (ha : Act ctx (· = (L.size : ℤ)) T w w') :
    Filed ctx.hosts ctx.globalId L w' :=
  ⟨h.sized.act ha, h.carries.act ha, h.requests.act ha, h.charted_act hu hid hhost ha, h.due_act ha⟩

/-- What an event brings. -/
def Layout.EventOk (L : Layout) (cfg : HostsConfig) (gid : ℕ) : Event → Prop
  | .requestAdd m => L.Joins cfg gid m
  | .requestRevoke info => info.groupSize = L.size
  | ev => (L.msgs cfg gid).Ok ev

theorem Layout.msgs_le (L : Layout) (cfg : HostsConfig) (gid : ℕ) : (L.msgs cfg gid).Le (sizeMsgs L.size) :=
  ⟨fun _ he => he.1.groupSize, fun _ hp => hp.1.groupSize, fun _ hi => hi, fun _ hm => hm⟩

theorem Layout.EventOk.sizes {ev : Event} (h : L.EventOk cfg gid ev) : ev.Sizes (· = (L.size : ℤ)) := by
  cases ev with
  | requestAdd m => exact h.1.groupSize
  | requestRevoke i => exact h
  | _ => exact MsgSpec.Ok.sizes (L.msgs_le cfg gid) h

/-- A callback starts with the event's message in hand. -/
theorem Filed.enter {log : List Effect} (h : Filed cfg gid L (Work.start ⟨g, log⟩)) {ev : Event}
    (hok : L.EventOk cfg gid ev) (c : GpCtx) : Filed cfg gid L (ev.enter c ⟨g, log⟩) := by
  have hno : ∀ {P : Prop}, false = true → P := fun h => absurd h Bool.false_ne_true
  have hc : (L.msgs cfg gid).Ok ev → Carries (L.msgs cfg gid) (ev.enter c ⟨g, log⟩) := fun hok => h.carries.enter hok c
  cases ev with
  | addGroupRank _ _ | peerCacheEntries _ _ | revokeFromRank _ | revokeSent =>
    exact ⟨h.sized, hc hok, ⟨h.requests.1, h.requests.2⟩, h.charted, hno⟩
  | revokeFromSp m =>
    replace hc := hc hok
    simp only [Event.enter] at hc ⊢
    split
    · rename_i hd
      rw [if_pos hd] at hc
      exact ⟨h.sized, hc, ⟨h.requests.1, h.requests.2⟩, h.charted, hno⟩
    · exact ⟨h.sized, { h.carries with }, ⟨h.requests.1, h.requests.2⟩, h.charted, hno⟩
  | cacheSent | requestRevoke i => exact h
  | requestAdd m =>
    refine ⟨h.sized, { h.carries with }, ⟨fun m' hm => ?_, h.requests.2⟩, h.charted, hno⟩
    rw [List.mem_singleton.1 hm]
    exact hok

/-- An event of the group. -/
theorem Filed.event (hu : ctx.gpUid ≠ INT_MAX) (hid : ctx.globalId ≠ UINT64_MAX) (hhost : ctx.hosts.Has ctx.hostUid)
    {e e' : Engine} {ev : Event} (h : Filed ctx.hosts ctx.globalId L e.work)
    (hok : L.EventOk ctx.hosts ctx.globalId ev) (hs : e.step ctx ev = some e') :
    Filed ctx.hosts ctx.globalId L e'.work := by
  rcases @Engine.step_acts ctx (· = (L.size : ℤ)) (fun _ => True) hu e e' ev hs h.sized hok.sizes
    (ev.applies_true _) with ⟨-, hgp, hlog⟩ | hw
  · rw [Engine.work, hgp, hlog]
    exact h
  · exact keeps (J := Filed ctx.hosts ctx.globalId L) (fun _ _ hJ ha => hJ.act hu hid hhost ha) hw (h.enter hok ctx)

/-- A group cache with the same queues. -/
theorem Filed.of_queues {e e' : Engine} (h : Filed cfg gid L e.work) (hc : Charted cfg L e'.gp)
    (hq : e'.gp.queues = e.gp.queues) : Filed cfg gid L e'.work := by
  refine ⟨h.sized.of_queues hq, h.carries.of_queues hq, ⟨h.requests.reqs, ?_⟩, hc, fun hd => absurd hd Bool.false_ne_true⟩
  change ∀ p ∈ e'.gp.queues.pendingSendGroupAddMsgs, _
  rw [hq]
  exact h.requests.pending

/-- `revoke_group_cache`. -/
theorem Filed.revoke (hu : ctx.gpUid ≠ INT_MAX) (hid : ctx.globalId ≠ UINT64_MAX) (hhost : ctx.hosts.Has ctx.hostUid)
    {e e' : Engine} (h : Filed ctx.hosts ctx.globalId L e.work) (hgp : e'.gp = (revokeGroupCache ctx ⟨e.gp, []⟩).gp) :
    Filed ctx.hosts ctx.globalId L e'.work := by
  obtain ⟨ha, -⟩ := @revokeGroupCache_acts ctx (· = (L.size : ℤ)) (fun _ => True) hu
    { Work.start ⟨e.gp, []⟩ with final := true } rfl rfl rfl h.sized.parked
  have hw : Filed ctx.hosts ctx.globalId L { Work.start ⟨e.gp, []⟩ with final := true } :=
    ⟨h.sized, { h.carries with }, ⟨h.requests.1, h.requests.2⟩, h.charted, fun hd => absurd hd Bool.false_ne_true⟩
  have hr := keeps (J := Filed ctx.hosts ctx.globalId L) (fun _ _ hJ ha => hJ.act hu hid hhost ha) ha hw
  have hwork : e'.work = Work.start ⟨(revokeGroupCache ctx ⟨e.gp, []⟩).gp, e'.log⟩ := by rw [Engine.work, hgp]
  rw [hwork]
  exact ⟨hr.sized, { hr.carries with }, ⟨h.requests.1, hr.requests.2⟩, hr.charted, fun hd => absurd hd Bool.false_ne_true⟩

/-- `add_cache_entry_for_new_client`, for a rank whose entry is not set. -/
theorem Charted.newClient (hu : ctx.gpUid ≠ INT_MAX) (hhost : ctx.hosts.Has ctx.hostUid) (h : Charted ctx.hosts L g)
    {c : ℕ} {info : RankInfo} (hi : Member L.size info) (hsp : L.sps (sizeT info.groupRank) = [ctx.globalId])
    (hset : g.isSet (sizeT info.groupRank) = false) :
    Charted ctx.hosts L (addCacheEntryForNewClient ctx (some g) c info) ∧
      (addCacheEntryForNewClient ctx (some g) c info).Live ∧
      0 < (addCacheEntryForNewClient ctx (some g) c info).groupSize := by
  obtain ⟨p, g₀, g₁, h₀, h₁, hp⟩ := addCacheEntryForNewClient_put ctx g c info
  obtain ⟨hl₀, hl, hno⟩ := newClient_ready hu hset h₀
  rw [← h₁] at hl hno
  rw [hi.groupSize] at h₀ h₁
  have hlook : Charted ctx.hosts L g₀ := by
    rw [h₀]
    exact (h.lookup hu).of_frame rfl
  have hc : Charted ctx.hosts L g₁ := by
    rw [h₁]
    exact hlook.learn hl₀
  have hL : g₁.Learnt ctx.hosts (· = (L.size : ℤ)) := by
    rw [h₁]
    exact learnt_learnGroupSize g₀ rfl
  have hs := hc.toStocked.groupSize_of_learnt L.alloc hl hL
  have hr := hi.rank_lt L.alloc
  have hpos : 0 < g₁.groupSize := by omega
  rw [hp]
  refine ⟨hc.put hl hs hr hno (e := localEntry ctx c info) rfl hhost (u := g₁.groupUid) ?_, hl, hpos⟩
  rw [hsp]
  rfl

/-- **A rank connects whose entry is not set.** -/
theorem Charted.connect (hu : ctx.gpUid ≠ INT_MAX) (hhost : ctx.hosts.Has ctx.hostUid) {slot : Option GroupCache}
    (h : Charted ctx.hosts L (slot.getD newGroupCache)) {c : ℕ} {info : RankInfo} (hi : Member L.size info)
    (hsp : L.sps (sizeT info.groupRank) = [ctx.globalId])
    (hset : (slot.getD newGroupCache).isSet (sizeT info.groupRank) = false) :
    Charted ctx.hosts L ((finalizeClientConnection ctx slot c info).1.getD newGroupCache) := by
  unfold finalizeClientConnection
  split
  · rename_i hno
    have hmax : info.groupUid = INT_MAX := by
      refine hno.resolve_right fun hr => ?_
      have := hi.nonneg
      rw [hr] at this
      exact absurd this (by decide)
    rw [localRankConnectDefaultCallback, if_pos hmax]
    exact h
  · rename_i hno
    rw [addCacheEntryForNewClient_getD]
    obtain ⟨hnew, hl, hpos⟩ := h.newClient (c := c) hu hhost hi hsp hset
    generalize addCacheEntryForNewClient ctx (some (slot.getD newGroupCache)) c info = g₁ at hnew hl hpos
    have hex := @Charted.exchange _ _ ctx ⟨g₁, []⟩ hnew hl hpos (sizeT info.nLocalRanks)
    -- the exchange touches the topology only
    obtain ⟨t, ht⟩ := @groupCacheExchange_gp ctx ⟨g₁, []⟩ (sizeT info.nLocalRanks)
    rw [ht] at hex
    have hl' : { g₁ with topo := t }.Live := hl
    simp only [localRankConnectDefaultCallback, if_neg fun hm => hno (.inl hm), ht]
    rw [getGroupCacheInternal_of_live hl']
    split
    · rename_i hf
      exact Charted.send (s := ⟨_, _⟩) hex hl' hpos hf
    · exact hex

/-! ### Runs -/

/-- What a topology getter does first: look the group up, and fill its tables unless they are
filled. -/
def topologyGetter (ctx : GpCtx) (slot : Option GroupCache) : GroupCache :=
  let g := getGroupCache ctx.gpUid slot
  { g with topo := g.topo.doPopulateGroupCacheLookupTable }

/-- What happens to a group cache. -/
inductive TopoOp where
  /-- An event of the group. -/
  | event (ev : Event)
  /-- A rank connects to its SP. -/
  | connect (clientId : ℕ) (info : RankInfo)
  /-- The end of the bootstrapping of a host. -/
  | bootstrapDone (info : RankInfo)
  /-- One of the topology getters. -/
  | getter
  /-- `revoke_group_cache`. -/
  | revoke

/-- The group takes an operation; what the engine is like besides may change between two of them. -/
def TopoOp.step (e : Engine) (l : GpCtx × TopoOp) : Option Engine :=
  match l.2 with
  | .event ev => e.step l.1 ev
  | .connect c info =>
    if l.1.onDpu then
      let r := finalizeClientConnection l.1 e.slot c info
      some { e with slot := r.1, log := e.log ++ r.2 }
    else none
  | .bootstrapDone info => if l.1.onDpu then none else some { e with slot := progressClientEcontextDone l.1 e.slot info }
  | .getter => some { e with slot := some (topologyGetter l.1 e.slot) }
  | .revoke =>
    let r := revokeGroupCache l.1 ⟨e.gp, []⟩
    some { e with slot := some r.gp, log := e.log ++ r.out }

/-- The same process, about the same group. -/
def GpCtx.Like (ctx sys : GpCtx) : Prop :=
  ctx.gpUid = sys.gpUid ∧ ctx.onDpu = sys.onDpu ∧ ctx.globalId = sys.globalId ∧ ctx.hostUid = sys.hostUid ∧
    ctx.hosts = sys.hosts

/-- Operations about a group laid out as `L`. -/
def TopoOp.Ok (sys : GpCtx) (L : Layout) (l : GpCtx × TopoOp) : Prop :=
  l.1.Like sys ∧ match l.2 with
    | .event ev => L.EventOk sys.hosts sys.globalId ev
    | .connect _ info => Member L.size info ∧ L.sps (sizeT info.groupRank) = [sys.globalId]
    | .bootstrapDone info => Member L.size info ∧ L.sps (sizeT info.groupRank) = [sys.globalId] ∧ sys.hosts.Has info.hostInfo
    | .getter | .revoke => True

/-- A getter fills the tables of a complete group only; a rank that connects is not in the cache, and
no bootstrapping ends, which would add its rank twice. -/
def TopoOp.Timely (e : Engine) : TopoOp → Prop
  | .getter => e.gp.topo.lookupTablesPopulated = true ∨ 0 < e.gp.groupSize ∧ e.gp.full = true
  | .connect _ info => e.gp.isSet (sizeT info.groupRank) = false
  | .bootstrapDone _ => False
  | .event _ | .revoke => True

theorem Filed.step {sys : GpCtx} (hu : sys.gpUid ≠ INT_MAX) (hid : sys.globalId ≠ UINT64_MAX)
    (hhost : sys.hosts.Has sys.hostUid) {e e' : Engine} {l : GpCtx × TopoOp}
    (h : Filed sys.hosts sys.globalId L e.work) (hok : TopoOp.Ok sys L l) (ht : l.2.Timely e)
    (hs : TopoOp.step e l = some e') : Filed sys.hosts sys.globalId L e'.work := by
  obtain ⟨ctx, op⟩ := l
  obtain ⟨⟨h₁, -, h₃, h₄, h₅⟩, hop⟩ := hok
  dsimp only at h₁ h₃ h₄ h₅ hop ht
  rw [← h₁] at hu
  rw [← h₃] at hid
  rw [← h₅, ← h₄] at hhost
  rw [← h₃, ← h₅] at h hop ⊢
  cases op with
  | event ev => exact h.event hu hid hhost hop hs
  | connect c info =>
    simp only [TopoOp.step] at hs
    split at hs
    · cases hs
      exact h.of_queues (h.charted.connect hu hhost (c := c) hop.1 hop.2 ht) (finalizeClientConnection_queues _ _ _)
    · cases hs
  | bootstrapDone info => exact ht.elim
  | getter =>
    cases hs
    -- a group that is complete, or whose tables are filled, is in use
    have hc : Charted ctx.hosts L e.gp := h.charted
    have hgood : e.gp.Live ∧ 0 < L.size ∧ e.gp.numLocalEntries = L.size := by
      rcases ht with hp | ⟨hpos, hf⟩
      · refine ⟨fun hd => ?_, (hc.filled hp).1, (hc.filled hp).2.1⟩
        rw [hc.empty (not_not.2 hd)] at hp
        cases hp
      · obtain ⟨hp, hn⟩ := hc.complete hpos hf
        refine ⟨fun hd => ?_, hp, hn⟩
        have hset := (hc.isSet_of_complete hn 0).2 hp
        rw [isSet_of_ranks_none (hc.dead (not_not.2 hd))] at hset
        cases hset
    have hsame : getGroupCache ctx.gpUid e.slot = e.gp := by
      rw [getGroupCache, getGroupCacheInternal_getD]
      exact getGroupCacheInternal_of_live hgood.1 0
    apply h.of_queues
    · apply hc.populate hgood.1 hgood.2.1 hgood.2.2
      simp only [Engine.gp, Option.getD_some, topologyGetter, hsame]
      rfl
    · simp only [Engine.gp, Option.getD_some, topologyGetter, hsame]
      rfl
  | revoke =>
    cases hs
    exact h.revoke hu hid hhost rfl

/-- **The tables are up to date in every state reached**, when getters fill the tables of complete
groups only, no rank is added twice, and the SPs of the group are the first ones of the engine. -/
theorem tables_fresh (sys : GpCtx) (hu : sys.gpUid ≠ INT_MAX) (hid : sys.globalId ≠ UINT64_MAX)
    (hcfg : sys.hosts.Valid) (hhost : sys.hosts.Has sys.hostUid) (L : Layout) (hL : L.Packed) {e : Engine}
    (h : Reach TopoOp.step (fun e l => TopoOp.Ok sys L l ∧ l.2.Timely e) Engine.init e)
    (hp : e.gp.topo.lookupTablesPopulated = true) : e.gp.topo.Fresh := by
  have hfiled : Filed sys.hosts sys.globalId L e.work := by
    refine h.invariant (I := fun e => Filed sys.hosts sys.globalId L e.work) ?_ ?_
    · have hnil : ∀ {α : Type} {P : α → Prop}, ∀ a ∈ ([] : List α), P a := fun a ha => (List.not_mem_nil ha).elim
      exact ⟨GroupCache.Sized.new, Carries.new _ [], ⟨hnil, hnil⟩, Charted.new, fun hd => absurd hd Bool.false_ne_true⟩
    · rintro e l e' hI ⟨hok, ht⟩ hs
      exact hI.step hu hid hhost hok ht hs
  have hc := hfiled.charted
  obtain ⟨us, hus⟩ := hc.chart
  obtain ⟨-, hn, htab⟩ := hc.filled hp
  exact hus.fresh htab hcfg hL (hc.isSet_of_complete hn)

instance Layout.decidableEventOk (L : Layout) (cfg : HostsConfig) (gid : ℕ) :
    (ev : Event) → Decidable (L.EventOk cfg gid ev)
  | .addGroupRank _ m => inferInstanceAs
      (Decidable (Member L.size m.rankInfo ∧ L.sps (sizeT m.rankInfo.groupRank) = [gid]))
  | .peerCacheEntries _ batch => inferInstanceAs (Decidable (batch ≠ [] ∧ ∀ e ∈ batch,
      Member L.size e.peer.procInfo ∧ e.shadowServiceProcs = L.sps e.rank ∧ cfg.Has e.peer.hostInfo))
  | .revokeFromRank i | .requestRevoke i => inferInstanceAs (Decidable (i.groupSize = L.size))
  | .revokeFromSp m => inferInstanceAs (Decidable (m.groupSize = L.size))
  | .cacheSent | .revokeSent => inferInstanceAs (Decidable True)
  | .requestAdd m => inferInstanceAs (Decidable (Member L.size m.rankInfo ∧
      L.sps (sizeT m.rankInfo.groupRank) = [gid] ∧ cfg.Has m.rankInfo.hostInfo))

instance GpCtx.decidableLike (ctx sys : GpCtx) : Decidable (ctx.Like sys) :=
  inferInstanceAs (Decidable (_ ∧ _ ∧ _ ∧ _ ∧ _))

instance TopoOp.decidableOk (sys : GpCtx) (L : Layout) : (l : GpCtx × TopoOp) → Decidable (TopoOp.Ok sys L l)
  | (ctx, .event ev) => inferInstanceAs (Decidable (ctx.Like sys ∧ L.EventOk sys.hosts sys.globalId ev))
  | (ctx, .connect _ info) => inferInstanceAs
      (Decidable (ctx.Like sys ∧ Member L.size info ∧ L.sps (sizeT info.groupRank) = [sys.globalId]))
  | (ctx, .bootstrapDone info) => inferInstanceAs (Decidable (ctx.Like sys ∧ Member L.size info ∧
      L.sps (sizeT info.groupRank) = [sys.globalId] ∧ sys.hosts.Has info.hostInfo))
  | (ctx, .getter) | (ctx, .revoke) => inferInstanceAs (Decidable (ctx.Like sys ∧ True))

instance TopoOp.decidableTimely (e : Engine) : (op : TopoOp) → Decidable (op.Timely e)
  | .getter => inferInstanceAs (Decidable (_ = true ∨ 0 < _ ∧ _ = true))
  | .connect _ info => inferInstanceAs (Decidable (e.gp.isSet (sizeT info.groupRank) = false))
  | .bootstrapDone _ => inferInstanceAs (Decidable False)
  | .event _ | .revoke => inferInstanceAs (Decidable True)

/-- Two ranks, each on an SP of its own. -/
def pairLayout : Layout where
  size := 2
  alloc := allocatable_two
  sps r := [r]
  nodup r := List.nodup_singleton r

theorem packed_pairLayout : pairLayout.Packed := by
  refine ⟨2, by decide, fun sp => ?_⟩
  simp [pairLayout]

/-- The two entries come, a getter fills the tables. -/
theorem tables_fresh_pair :
    ∃ e, Reach TopoOp.step (fun e l => TopoOp.Ok hostCtx pairLayout l ∧ l.2.Timely e) Engine.init e ∧
      e.gp.topo.lookupTablesPopulated = true ∧ e.gp.topo.Fresh := by
  have hrun : ∃ e, Reach TopoOp.step (fun e l => TopoOp.Ok hostCtx pairLayout l ∧ l.2.Timely e) Engine.init e ∧
      e.gp.topo.lookupTablesPopulated = true :=
    exists_reach_of_exec
      [(hostCtx, .event (.peerCacheEntries 0 [peerEntry 2 0 70 [0]])),
        (hostCtx, .event (.peerCacheEntries 1 [peerEntry 2 1 71 [1]])), (hostCtx, .getter)] (by decide)
  obtain ⟨e, he, hp⟩ := hrun
  exact ⟨e, he, hp, tables_fresh hostCtx (by decide) (by decide) hostCtx_valid (by decide) pairLayout
    packed_pairLayout he hp⟩

/-- **Not in every run.** A getter between the two entries: the group has two SPs, and one of them
in its table. -/
theorem not_tables_fresh : ¬ ∀ (sys : GpCtx) (L : Layout) (e : Engine), sys.gpUid ≠ INT_MAX →
    sys.globalId ≠ UINT64_MAX → sys.hosts.Valid → sys.hosts.Has sys.hostUid →
      Reach TopoOp.step (fun _ l => TopoOp.Ok sys L l) Engine.init e →
        e.gp.topo.lookupTablesPopulated = true → e.gp.topo.Fresh := by
  intro h
  have hrun : ∃ e, Reach TopoOp.step (fun _ l => TopoOp.Ok hostCtx pairLayout l) Engine.init e ∧
      e.gp.topo.lookupTablesPopulated = true ∧ e.gp.topo.nSps = 2 ∧ e.gp.topo.sps = [0] :=
    exists_reach_of_exec
      [(hostCtx, .event (.peerCacheEntries 0 [peerEntry 2 0 70 [0]])), (hostCtx, .getter),
        (hostCtx, .event (.peerCacheEntries 1 [peerEntry 2 1 71 [1]]))] (by decide)
  obtain ⟨e, he, hp, hns, hsps⟩ := hrun
  have hf := (h hostCtx pairLayout e (by decide) (by decide) hostCtx_valid (by decide) he hp).sps.1
  rw [hns, hsps] at hf
  cases hf

end DpuOffload
