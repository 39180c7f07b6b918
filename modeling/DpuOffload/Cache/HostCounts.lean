import DpuOffload.Cache.Received
import Mathlib.Algebra.BigOperators.Group.Finset.Basic
import Mathlib.Algebra.GroupWithZero.Nat

/-!
# The counters of the hosts

`update_topology_data` runs for each shadow SP of an entry, and each run counts the rank for
the host of the entry (`num_ranks`), so that a rank with several SPs is counted several times.
An SP is counted for the host (`num_sps`) unless its bit is set; an SP that has no bit, in a
bitset of the size of the group, is counted again with each of its ranks.

* `GroupCache.HostsCounted` — the counters of the hosts agree with the bitsets and the entries.
* `hosts_counted_iff` — **they agree exactly when** the first entry of every rank lists one SP,
  which has a bit.
* `not_hosts_counted` — a group of one rank with two SPs.
-/

namespace DpuOffload

open TopoUpdate

/-- The ranks that are set and are on host `uid`. -/
def GroupCache.onHost (g : GroupCache) (uid : ℕ) : Finset ℕ :=
  (Finset.range g.entries.length).filter fun r => g.isSet r = true ∧ (g.entryAt r).peer.hostInfo = uid

/-- **The counters of the hosts agree** with the bitsets and with the entries. -/
structure GroupCache.HostsCounted (g : GroupCache) : Prop where
  /-- `num_ranks` counts the bits of the host, and the ranks that are on it. -/
  ranks : ∀ uid d, g.topo.hostsHash.lookup uid = some d →
    d.numRanks = (d.ranksBitset.getD []).bits.card ∧ d.numRanks = (g.onHost uid).card
  /-- `num_sps` counts the bits of the host. -/
  sps : ∀ uid d, g.topo.hostsHash.lookup uid = some d → d.numSps = (d.spsBitset.getD []).bits.card
  /-- `n_hosts` counts the hosts, and their bits. -/
  hosts : g.topo.nHosts = g.topo.hostsHash.keys.length ∧ g.topo.nHosts = (g.topo.hostsBitset.getD []).bits.card
  /-- Every entry is counted for one host. -/
  total : (g.topo.hostsHash.entries.map fun p => p.2.numRanks).sum = g.numLocalEntries

/-- A configuration: each host has an index of its own. -/
structure HostsConfig.Valid (cfg : HostsConfig) : Prop where
  /-- A host is there once. -/
  hosts : (cfg.hostLookupTable.map (·.1)).Nodup
  /-- It has its own index. -/
  indices : (cfg.hostLookupTable.map (·.2)).Nodup
  /-- The indices are those of the hosts. -/
  lt : ∀ p ∈ cfg.hostLookupTable, p.2 < cfg.numHosts

/-- Is the host in the configuration? -/
def HostsConfig.Has (cfg : HostsConfig) (uid : ℕ) : Prop := uid ∈ cfg.hostLookupTable.map (·.1)

instance HostsConfig.decidableHas (cfg : HostsConfig) (uid : ℕ) : Decidable (cfg.Has uid) :=
  inferInstanceAs (Decidable (uid ∈ cfg.hostLookupTable.map (·.1)))

variable {cfg : HostsConfig} {n : ℕ} {es : List PeerCacheEntry} {g : GroupCache} {ctx : GpCtx}

/-! ### The configuration -/

theorem HostsConfig.Has.mem {uid : ℕ} (h : cfg.Has uid) : (uid, cfg.lookupHostConfigIdx uid) ∈ cfg.hostLookupTable := by
  obtain ⟨p, hp, rfl⟩ := List.mem_map.1 h
  have hsome : (cfg.hostLookupTable.lookup p.1).isSome := List.lookup_isSome_iff.2 ⟨p, hp, beq_self_eq_true _⟩
  obtain ⟨i, hi⟩ := Option.isSome_iff_exists.1 hsome
  obtain ⟨l₁, l₂, hl, -⟩ := List.lookup_eq_some_iff.1 hi
  rw [HostsConfig.lookupHostConfigIdx, hi, hl]
  exact List.mem_append_right _ List.mem_cons_self

theorem HostsConfig.Valid.idx_lt (h : cfg.Valid) {uid : ℕ} (hu : cfg.Has uid) :
    cfg.lookupHostConfigIdx uid < cfg.numHosts :=
  h.lt _ hu.mem

/-- Two hosts have two indices. -/
theorem HostsConfig.Valid.idx_inj (h : cfg.Valid) {uid uid' : ℕ} (hu : cfg.Has uid) (hu' : cfg.Has uid')
    (he : cfg.lookupHostConfigIdx uid = cfg.lookupHostConfigIdx uid') : uid = uid' := by
  have hpair := List.inj_on_of_nodup_map h.indices hu.mem hu'.mem he
  exact congrArg Prod.fst hpair

/-- The hosts are counted, when they are in the configuration. -/
theorem Topology.HostsRecord.nHosts_eq {t : Topology} {us : List TopoUpdate} (h : t.HostsRecord cfg n us)
    (hcfg : cfg.Valid) (hhas : ∀ u ∈ us, cfg.Has u.host) : t.nHosts = (t.hostsBitset.getD []).bits.card := by
  have hmem : ∀ uid ∈ hostsOf us, cfg.Has uid := by
    intro uid hm
    obtain ⟨u, hu, rfl⟩ := mem_hostsOf.1 hm
    exact hhas u hu
  have hin : ∀ i ∈ (hostsOf us).image cfg.lookupHostConfigIdx, i < (Bitset.create cfg.numHosts).capacity := by
    intro i hi
    obtain ⟨uid, hu, rfl⟩ := Finset.mem_image.1 hi
    exact (hcfg.idx_lt (hmem uid hu)).trans_le (Bitset.le_capacity_create _)
  have hbits := h.marks.bits
  rw [Option.getD_some, bits_bitsetCreate, inRange_of_lt hin] at hbits
  rw [hbits, h.nHosts]
  refine (Finset.card_image_of_injOn ?_).symm
  intro uid hu uid' hu' he
  exact hcfg.idx_inj (hmem uid hu) (hmem uid' hu') he

/-- The SPs of a host are counted exactly when they have a bit. -/
theorem HostCacheData.Records.numSps_iff {uid : ℕ} {us : List TopoUpdate} {d : HostCacheData}
    (h : d.Records cfg n uid us) :
    d.numSps = (d.spsBitset.getD []).bits.card ↔ ∀ u ∈ us, u.sp < (Bitset.create n).capacity := by
  rw [h.numSps, h.sps.bits, countedSps, Nat.add_eq_left, List.countP_eq_zero]
  simp only [decide_eq_true_eq, not_le]

/-! ### Entries and runs -/

/-- The runs about a host are those of its entries. -/
theorem ofHost_updatesOf (uid : ℕ) (es : List PeerCacheEntry) :
    ofHost uid (updatesOf es) = updatesOf (es.filter (·.peer.hostInfo = uid)) := by
  induction es with
  | nil => rfl
  | cons e es ih =>
    have hcons : ∀ es', updatesOf (e :: es') = e.updates ++ updatesOf es' := fun _ => List.flatMap_cons
    have happ : ofHost uid (e.updates ++ updatesOf es) = ofHost uid e.updates ++ ofHost uid (updatesOf es) :=
      List.filter_append _ _
    rw [hcons, happ, ih, List.filter_cons]
    by_cases he : e.peer.hostInfo = uid
    · have hall : ofHost uid e.updates = e.updates := by
        rw [ofHost, List.filter_eq_self]
        intro u hu
        obtain ⟨sp, -, rfl⟩ := List.mem_map.1 hu
        exact decide_eq_true he
      rw [hall, if_pos (decide_eq_true he), hcons]
    · have hnone : ofHost uid e.updates = [] := by
        rw [ofHost, List.filter_eq_nil_iff]
        intro u hu
        obtain ⟨sp, -, rfl⟩ := List.mem_map.1 hu
        simpa using he
      rw [hnone, if_neg (by simpa using he), List.nil_append]

theorem length_updatesOf (es : List PeerCacheEntry) :
    (updatesOf es).length = (es.map fun e => e.shadowServiceProcs.length).sum := by
  simp [updatesOf, PeerCacheEntry.updates, List.length_flatMap]

theorem mem_updatesOf {u : TopoUpdate} :
    u ∈ updatesOf es ↔ ∃ e ∈ es, ∃ sp ∈ e.shadowServiceProcs, u = ⟨e.rank, sp, e.peer.hostInfo⟩ := by
  simp only [updatesOf, PeerCacheEntry.updates, List.mem_flatMap, List.mem_map, eq_comm]

/-- Entries that list an SP have their rank in a run. -/
theorem ranksOf_updatesOf (h : ∀ e ∈ es, e.shadowServiceProcs ≠ []) :
    ranksOf (updatesOf es) = (es.map (·.rank)).toFinset := by
  ext r
  rw [mem_ranksOf, List.mem_toFinset, List.mem_map]
  constructor
  · rintro ⟨u, hu, rfl⟩
    obtain ⟨e, he, sp, -, rfl⟩ := mem_updatesOf.1 hu
    exact ⟨e, he, rfl⟩
  · rintro ⟨e, he, rfl⟩
    obtain ⟨sp, hsp⟩ := List.exists_mem_of_ne_nil _ (h e he)
    exact ⟨⟨e.rank, sp, e.peer.hostInfo⟩, mem_updatesOf.2 ⟨e, he, sp, hsp, rfl⟩, rfl⟩

/-- A sum of positive numbers is their number when each is one. -/
theorem sum_eq_length_iff {α : Type*} {f : α → ℕ} {l : List α} (h : ∀ a ∈ l, 0 < f a) :
    (l.map f).sum = l.length ↔ ∀ a ∈ l, f a = 1 := by
  have hle : ∀ l : List α, (∀ a ∈ l, 0 < f a) → l.length ≤ (l.map f).sum := by
    intro l hl
    have := List.length_le_sum_of_one_le (l.map f) (by simpa [Nat.succ_le_iff] using hl)
    simpa using this
  induction l with
  | nil => simp
  | cons a l ih =>
    have ha := h a List.mem_cons_self
    have hl : ∀ b ∈ l, 0 < f b := fun b hb => h b (List.mem_cons_of_mem _ hb)
    have hlen := hle l hl
    rw [List.map_cons, List.sum_cons, List.length_cons, List.forall_mem_cons]
    constructor
    · intro hsum
      exact ⟨by omega, (ih hl).1 (by omega)⟩
    · rintro ⟨h₁, h₂⟩
      have := (ih hl).2 h₂
      omega

/-! ### Counting -/

namespace Received

/-- The entries on a host. -/
theorem onHost_eq (h : Received cfg n es g) (uid : ℕ) :
    g.onHost uid = ((es.filter (·.peer.hostInfo = uid)).map (·.rank)).toFinset := by
  ext r
  rw [GroupCache.onHost, Finset.mem_filter, Finset.mem_range, List.mem_toFinset, List.mem_map, h.isSet_iff, List.mem_map]
  constructor
  · rintro ⟨-, ⟨e, he, rfl⟩, hhost⟩
    rw [h.written e he] at hhost
    exact ⟨e, List.mem_filter.2 ⟨he, decide_eq_true hhost⟩, rfl⟩
  · rintro ⟨e, he, rfl⟩
    obtain ⟨he, hhost⟩ := List.mem_filter.1 he
    refine ⟨?_, ⟨e, he, rfl⟩, by rw [h.written e he]; exact of_decide_eq_true hhost⟩
    -- a rank past the array would read a blank entry
    by_contra hlen
    have hblank : g.entryAt e.rank = initPeerCacheEntry := List.getD_eq_default _ _ (not_lt.1 hlen)
    have hset := (h.isSet_iff e.rank).2 (List.mem_map_of_mem he)
    rw [GroupCache.isSet, hblank] at hset
    cases hset

theorem card_onHost (h : Received cfg n es g) (uid : ℕ) :
    (g.onHost uid).card = (es.filter (·.peer.hostInfo = uid)).length := by
  have hnd : ((es.filter (·.peer.hostInfo = uid)).map (·.rank)).Nodup :=
    h.nodup.sublist (List.filter_sublist.map _)
  rw [h.onHost_eq, List.toFinset_card_of_nodup hnd, List.length_map]

/-- The ranks of a host have their bits. -/
theorem bits_ranks (h : Received cfg n es g) (hsp : ∀ e ∈ es, e.shadowServiceProcs ≠ []) {uid : ℕ} {d : HostCacheData}
    (hd : g.topo.hostsHash.lookup uid = some d) : (d.ranksBitset.getD []).bits = g.onHost uid := by
  have hsub : ∀ e ∈ es.filter (·.peer.hostInfo = uid), e ∈ es := fun e he => (List.mem_filter.1 he).1
  rw [(h.records.hosts.data uid d hd).ranks.bits, ofHost_updatesOf, ranksOf_updatesOf fun e he => hsp e (hsub e he),
    h.onHost_eq]
  refine inRange_of_lt fun r hr => ?_
  obtain ⟨e, he, rfl⟩ := List.mem_map.1 (List.mem_toFinset.1 hr)
  exact (h.lt e (hsub e he)).trans_le (Bitset.le_capacity_create n)

/-- `num_ranks` is right for a host when its ranks have one SP. -/
theorem numRanks_iff (h : Received cfg n es g) (hsp : ∀ e ∈ es, e.shadowServiceProcs ≠ []) {uid : ℕ}
    {d : HostCacheData} (hd : g.topo.hostsHash.lookup uid = some d) :
    d.numRanks = (g.onHost uid).card ↔
      ∀ e ∈ es.filter (·.peer.hostInfo = uid), e.shadowServiceProcs.length = 1 := by
  rw [(h.records.hosts.data uid d hd).numRanks, ofHost_updatesOf, length_updatesOf, h.card_onHost]
  exact sum_eq_length_iff fun e he => List.length_pos_iff.2 (hsp e (List.mem_filter.1 he).1)

/-- `num_sps` is right for a host when its SPs have a bit. -/
theorem numSps_iff (h : Received cfg n es g) {uid : ℕ} {d : HostCacheData}
    (hd : g.topo.hostsHash.lookup uid = some d) :
    d.numSps = (d.spsBitset.getD []).bits.card ↔
      ∀ e ∈ es.filter (·.peer.hostInfo = uid), ∀ sp ∈ e.shadowServiceProcs, sp < (Bitset.create n).capacity := by
  rw [(h.records.hosts.data uid d hd).numSps_iff, ofHost_updatesOf]
  constructor
  · intro hall e he sp hsp
    exact hall ⟨e.rank, sp, e.peer.hostInfo⟩ (mem_updatesOf.2 ⟨e, he, sp, hsp, rfl⟩)
  · intro hall u hm
    obtain ⟨e, he, sp, hsp, rfl⟩ := mem_updatesOf.1 hm
    exact hall e he sp hsp

/-- The hosts are counted, when they are in the configuration. -/
theorem hosts_eq (h : Received cfg n es g) (hcfg : cfg.Valid) (hhas : ∀ e ∈ es, cfg.Has e.peer.hostInfo) :
    g.topo.nHosts = g.topo.hostsHash.keys.length ∧ g.topo.nHosts = (g.topo.hostsBitset.getD []).bits.card := by
  have hkeys : g.topo.hostsHash.keys.toFinset = hostsOf (updatesOf es) := by
    ext uid
    rw [List.mem_toFinset, ← AList.mem_keys, h.records.hosts.keys]
  constructor
  · rw [h.records.hosts.nHosts, ← hkeys, List.toFinset_card_of_nodup g.topo.hostsHash.keys_nodup]
  · refine h.records.hosts.nHosts_eq hcfg fun u hu => ?_
    obtain ⟨e, he, sp, -, rfl⟩ := mem_updatesOf.1 hu
    exact hhas e he

/-- The ranks of all hosts together are the runs. -/
theorem sum_numRanks (h : Received cfg n es g) :
    (g.topo.hostsHash.entries.map fun p => p.2.numRanks).sum = (updatesOf es).length := by
  have hrec := h.records.hosts
  have hmap : (g.topo.hostsHash.entries.map fun p => p.2.numRanks) =
      g.topo.hostsHash.keys.map fun uid => ((updatesOf es).map (·.host)).count uid := by
    rw [AList.keys, List.keys, List.map_map]
    refine List.map_congr_left fun p hp => ?_
    have hd : g.topo.hostsHash.lookup p.1 = some p.2 := AList.mem_lookup_iff.2 hp
    rw [(hrec.data p.1 p.2 hd).numRanks, Function.comp_apply, List.count, List.countP_map, List.countP_eq_length_filter]
    rfl
  have hkeys : g.topo.hostsHash.keys.toFinset = ((updatesOf es).map (·.host)).toFinset := by
    ext uid
    rw [List.mem_toFinset, ← AList.mem_keys, hrec.keys]
    rfl
  rw [hmap, ← List.sum_toFinset _ g.topo.hostsHash.keys_nodup, hkeys, List.sum_toFinset_count_eq_length, List.length_map]

/-- An entry that lists an SP has its host in the hash. -/
theorem exists_host (h : Received cfg n es g) {e : PeerCacheEntry} (he : e ∈ es) (hsp : e.shadowServiceProcs ≠ []) :
    ∃ d, g.topo.hostsHash.lookup e.peer.hostInfo = some d := by
  rw [← Option.isSome_iff_exists, AList.lookup_isSome, h.records.hosts.keys, mem_hostsOf]
  obtain ⟨sp, hsp⟩ := List.exists_mem_of_ne_nil _ hsp
  exact ⟨_, mem_updatesOf.2 ⟨e, he, sp, hsp, rfl⟩, rfl⟩

end Received

/-- **The counters of the hosts agree exactly when** the first entry of every rank lists one SP,
which has a bit in a bitset of the size of the group. -/
theorem hosts_counted_iff (ctx : GpCtx) (hu : ctx.gpUid ≠ INT_MAX) (hcfg : ctx.hosts.Valid) {n : ℕ} (hn : Allocatable n)
    {slot : Option GroupCache} (h₀ : Unused slot) {batches : List (List PeerCacheEntry)}
    (hb : ∀ b ∈ batches, BatchOf n b)
    (he : ∀ e ∈ batches.flatten, ctx.hosts.Has e.peer.hostInfo ∧ e.shadowServiceProcs ≠ []) :
    (recvBatches ctx slot batches).HostsCounted ↔
      ∀ e ∈ firstEntries batches.flatten, e.shadowServiceProcs.length = 1 ∧
        ∀ sp ∈ e.shadowServiceProcs, sp < (Bitset.create n).capacity := by
  have h := Received.batches hu hn h₀ hb
  have hsp : ∀ e ∈ firstEntries batches.flatten, e.shadowServiceProcs ≠ [] :=
    fun e hm => (he e (mem_of_mem_firstEntries hm)).2
  constructor
  · intro hc e hm
    obtain ⟨d, hd⟩ := h.exists_host hm (hsp e hm)
    have hon : e ∈ (firstEntries batches.flatten).filter (·.peer.hostInfo = e.peer.hostInfo) :=
      List.mem_filter.2 ⟨hm, decide_eq_true rfl⟩
    exact ⟨(h.numRanks_iff hsp hd).1 (hc.ranks _ d hd).2 e hon, (h.numSps_iff hd).1 (hc.sps _ d hd) e hon⟩
  · intro hone
    constructor
    · intro uid d hd
      have hnum := (h.numRanks_iff hsp hd).2 fun e hm => (hone e (List.mem_filter.1 hm).1).1
      rw [h.bits_ranks hsp hd]
      exact ⟨hnum, hnum⟩
    · intro uid d hd
      exact (h.numSps_iff hd).2 fun e hm => (hone e (List.mem_filter.1 hm).1).2
    · exact h.hosts_eq hcfg fun e hm => (he e (mem_of_mem_firstEntries hm)).1
    · rw [h.sum_numRanks, length_updatesOf, h.count]
      exact (sum_eq_length_iff fun e hm => List.length_pos_iff.2 (hsp e hm)).2 fun e hm => (hone e hm).1

/-! ### Groups of one and two ranks -/

theorem hostCtx_valid : hostCtx.hosts.Valid where
  hosts := by decide
  indices := by decide
  lt := by decide

/-- Two ranks on two hosts, each with one SP. -/
theorem hosts_counted_pair : (recvBatches hostCtx none [[peerEntry 2 0 70 [0]], [peerEntry 2 1 71 [1]]]).HostsCounted :=
  (hosts_counted_iff hostCtx (by decide) hostCtx_valid (n := 2) allocatable_two ⟨newGroupCache.persistent, rfl, rfl⟩
    (by decide) (by decide)).2 (by decide)

/-- **Not always.** A rank with two SPs is two ranks of its host by count, and one by bit. -/
theorem not_hosts_counted : ¬ ∀ (ctx : GpCtx) (n : ℕ) (slot : Option GroupCache) (batches : List (List PeerCacheEntry)),
    ctx.gpUid ≠ INT_MAX → ctx.hosts.Valid → Allocatable n → Unused slot → (∀ b ∈ batches, BatchOf n b) →
      (∀ e ∈ batches.flatten, ctx.hosts.Has e.peer.hostInfo ∧ e.shadowServiceProcs ≠ [] ∧ e.shadowServiceProcs.Nodup) →
        (recvBatches ctx slot batches).HostsCounted := by
  intro h
  have hc := h hostCtx 2 none [[peerEntry 2 0 70 [0, 1]]] (by decide) hostCtx_valid allocatable_two
    ⟨newGroupCache.persistent, rfl, rfl⟩ (by decide) (by decide)
  have hd : ∃ d, (recvBatches hostCtx none [[peerEntry 2 0 70 [0, 1]]]).topo.hostsHash.lookup 70 = some d ∧
      d.numRanks = 2 ∧ (d.ranksBitset.getD []).bits.card = 1 := ⟨_, rfl, by decide, by decide⟩
  obtain ⟨d, hd, hnum, hbits⟩ := hd
  have := (hc.ranks 70 d hd).1
  rw [hnum, hbits] at this
  cases this

end DpuOffload
