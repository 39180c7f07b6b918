import DpuOffload.Cache.BitsetBounds

/-!
# The order of arrival

The same entries of a group, in any order, in any batches and with any duplicates, lead to the same
lookup tables, in any two processes with the same configuration. Nothing that fills the tables checks
the index of a bit, so this is so where no access leaves its bitset: the bitsets of SPs have the size of
the group, and a loop that looks for more bits than there are does not stop in time.

* `Topology.Records.scansEnd_iff` — the loops that fill the tables end when each SP has a bit and counts
  each of its ranks once.
* `arrival_order_iff` — **the order of arrival does not matter exactly when** each SP has a bit, and an
  entry lists each of its SPs once.
* `not_arrival_order` — a group of two ranks, whose SP is the seventeenth of the engine.
-/

namespace DpuOffload

open TopoUpdate

variable {cfg : HostsConfig} {n : ℕ} {us : List TopoUpdate} {t : Topology} {es : List PeerCacheEntry} {g : GroupCache}

/-! ### When the loops end -/

/-- Each host of the runs has a bit of its own. -/
structure HostsConfig.Separates (cfg : HostsConfig) (us : List TopoUpdate) : Prop where
  /-- The bit exists. -/
  lt : ∀ u ∈ us, cfg.lookupHostConfigIdx u.host < (Bitset.create cfg.numHosts).capacity
  /-- It is that of one host. -/
  inj : Set.InjOn cfg.lookupHostConfigIdx (hostsOf us)

theorem HostsConfig.Valid.separates (h : cfg.Valid) (hhas : ∀ u ∈ us, cfg.Has u.host) : cfg.Separates us where
  lt u hu := (h.idx_lt (hhas u hu)).trans_le (Bitset.le_capacity_create _)
  inj := by
    intro uid hm uid' hm' he
    obtain ⟨u, hu, rfl⟩ := mem_hostsOf.1 hm
    obtain ⟨u', hu', rfl⟩ := mem_hostsOf.1 hm'
    exact h.idx_inj (hhas u hu) (hhas u' hu') he

/-- The hosts are counted then. -/
theorem HostsConfig.Separates.nHosts_le (hs : cfg.Separates us) (h : t.HostsRecord cfg n us) :
    t.nHosts ≤ (t.hostsBitset.getD []).bits.card := by
  have hbits : (t.hostsBitset.getD []).bits = (hostsOf us).image cfg.lookupHostConfigIdx := by
    rw [← bits_bitsetCreate _ cfg.numHosts]
    refine h.marks.bits.trans (inRange_of_lt fun i hi => ?_)
    obtain ⟨uid, hm, rfl⟩ := Finset.mem_image.1 hi
    obtain ⟨u, hu, rfl⟩ := mem_hostsOf.1 hm
    exact hs.lt u hu
  rw [hbits, Finset.card_image_of_injOn hs.inj, h.nHosts]

/-- **The loops that fill the tables end exactly when** each SP has a bit and counts no more ranks than it has. -/
theorem Topology.Records.scansEnd_iff (h : t.Records cfg n us) (hcfg : cfg.Separates us) :
    t.ScansEnd ↔ (∀ u ∈ us, u.sp < (Bitset.create n).capacity) ∧
      ∀ gid d, t.spsHash.lookup gid = some d → d.nRanks ≤ (d.ranksBitset.getD []).bits.card := by
  have hbits : (t.spsBitset.getD []).bits = inRange n (spsOf us) := by
    rw [← bits_bitsetCreate _ n]
    exact h.sps.marks.bits
  constructor
  · intro he
    have hle := he.sps
    rw [hbits, h.sps.nSps] at hle
    have hall := Finset.eq_of_subset_of_card_le (Finset.filter_subset _ _) hle
    refine ⟨fun u hu => ?_, he.spRanks⟩
    have hmem : u.sp ∈ inRange n (spsOf us) := by
      rw [inRange, hall]
      exact mem_spsOf.2 ⟨u, hu, rfl⟩
    exact (Finset.mem_filter.1 hmem).2
  · rintro ⟨hsp, hranks⟩
    refine ⟨(h.sps.nSps_eq hsp).2.le, hranks, hcfg.nHosts_le h.hosts, fun uid d hd => ?_⟩
    have hrec := h.hosts.data uid d hd
    refine ⟨(hrec.numSps_iff.2 fun u hu => hsp u (List.mem_filter.1 hu).1).le, fun gid hg => ?_⟩
    -- an SP of a host is an SP of the group
    rw [Bitset.firstBits_eq] at hg
    have hmem := (Finset.mem_sort _).1 (List.mem_of_mem_take hg)
    rw [hrec.sps.bits] at hmem
    obtain ⟨u, hu, rfl⟩ := mem_spsOf.1 (Finset.mem_filter.1 hmem).1
    rw [AList.lookup_isSome, h.sps.keys]
    exact mem_spsOf.2 ⟨u, (List.mem_filter.1 hu).1, rfl⟩

/-- `fault` once the tables are filled, when ranks and hosts have their bits. -/
theorem Topology.Faults.eq_false_iff (h : t.Faults cfg n us) (hr : t.Records cfg n us) (hcfg : cfg.Separates us)
    (hrank : ∀ u ∈ us, u.rank < n) (hp : t.lookupTablesPopulated = true) :
    t.fault = false ↔ (∀ u ∈ us, u.sp < (Bitset.create n).capacity) ∧
      ∀ gid d, t.spsHash.lookup gid = some d → d.nRanks ≤ (d.ranksBitset.getD []).bits.card := by
  rw [← hr.scansEnd_iff hcfg, ← DpuOffload.scansEnd_iff]
  unfold Topology.Faults at h
  rw [← Bool.not_eq_true, h, not_or, hp]
  simp only [true_and, Bool.not_eq_false, and_iff_right_iff_imp]
  rintro he ⟨u, hu, hno⟩
  obtain ⟨hsp, -⟩ := (hr.scansEnd_iff hcfg).1 (DpuOffload.scansEnd_iff.1 he)
  exact hno ⟨(hrank u hu).trans_le (Bitset.le_capacity_create n), hsp u hu, hcfg.lt u hu⟩

/-- A list has as many different elements as elements when it has each once. -/
theorem length_le_card_toFinset_iff {l : List ℕ} : l.length ≤ l.toFinset.card ↔ l.Nodup := by
  constructor
  · intro hle
    rw [List.card_toFinset] at hle
    rw [← (List.dedup_sublist l).eq_of_length_le hle]
    exact List.nodup_dedup l
  · intro hnd
    exact (List.toFinset_card_of_nodup hnd).ge

/-- An SP that an entry lists twice has its rank twice. -/
theorem nodup_of_ranks (h : ∀ gid ∈ spsOf (updatesOf es), ((ofSp gid (updatesOf es)).map (·.rank)).Nodup) {e : PeerCacheEntry}
    (he : e ∈ es) : e.shadowServiceProcs.Nodup := by
  refine List.nodup_iff_count_le_one.2 fun sp => ?_
  by_cases hsp : sp ∈ e.shadowServiceProcs
  · have hsub : ((ofSp sp e.updates).map (·.rank)).Sublist ((ofSp sp (updatesOf es)).map (·.rank)) :=
      ((List.sublist_flatten_of_mem (List.mem_map_of_mem he)).filter _).map _
    have hnd := (h sp (mem_spsOf.2 ⟨_, mem_updatesOf.2 ⟨e, he, sp, hsp, rfl⟩, rfl⟩)).sublist hsub
    have hranks : (ofSp sp e.updates).map (·.rank) = List.replicate (e.shadowServiceProcs.count sp) e.rank := by
      rw [ofSp, PeerCacheEntry.updates, List.filter_map, List.map_map, List.count_eq_length_filter]
      exact List.map_const'
    rw [hranks] at hnd
    exact List.nodup_replicate.1 hnd
  · rw [List.count_eq_zero.2 hsp]
    exact Nat.zero_le 1

/-- **No access leaves its bitset exactly when** each SP has a bit, and an entry lists each of its SPs once. -/
theorem Received.fault_iff (h : Received cfg n es g) (hcfg : cfg.Separates (updatesOf es)) :
    g.topo.doPopulateGroupCacheLookupTable.fault = false ↔
      ∀ e ∈ es, e.shadowServiceProcs.Nodup ∧ ∀ sp ∈ e.shadowServiceProcs, sp < (Bitset.create n).capacity := by
  have hrec := h.records.doPopulate
  have hrank : ∀ u ∈ updatesOf es, u.rank < n := by
    intro u hu
    obtain ⟨e, he, sp, -, rfl⟩ := mem_updatesOf.1 hu
    exact h.lt e he
  have hpop : g.topo.doPopulateGroupCacheLookupTable.lookupTablesPopulated = true := by
    cases hp : g.topo.lookupTablesPopulated with
    | true => rw [doPopulate_of_populated hp, hp]
    | false => exact (doPopulate_fields hp).2.2.2.2
  -- an SP counts its runs, and has a bit for each of its ranks
  have hcount : ∀ gid d, g.topo.doPopulateGroupCacheLookupTable.spsHash.lookup gid = some d →
      (d.nRanks ≤ (d.ranksBitset.getD []).bits.card ↔ ((ofSp gid (updatesOf es)).map (·.rank)).Nodup) := by
    intro gid d hd
    have hsp := hrec.sps.data gid d hd
    have hin : inRange n (ranksOf (ofSp gid (updatesOf es))) = ranksOf (ofSp gid (updatesOf es)) := by
      refine inRange_of_lt fun r hr => ?_
      obtain ⟨u, hu, rfl⟩ := mem_ranksOf.1 hr
      exact (hrank u (List.mem_filter.1 hu).1).trans_le (Bitset.le_capacity_create n)
    rw [hsp.ranks.bits, hin, hsp.nRanks, ranksOf, ← length_le_card_toFinset_iff, List.length_map]
  rw [h.faults.doPopulate.eq_false_iff hrec hcfg hrank hpop]
  constructor
  · rintro ⟨hsp, hranks⟩ e he
    refine ⟨nodup_of_ranks (fun gid hg => ?_) he, fun sp hin => hsp _ (mem_updatesOf.2 ⟨e, he, sp, hin, rfl⟩)⟩
    have hkey : (g.topo.doPopulateGroupCacheLookupTable.spsHash.lookup gid).isSome := by
      rwa [AList.lookup_isSome, hrec.sps.keys]
    obtain ⟨d, hd⟩ := Option.isSome_iff_exists.1 hkey
    exact (hcount gid d hd).1 (hranks gid d hd)
  · intro hall
    refine ⟨fun u hu => ?_, fun gid d hd => (hcount gid d hd).2 ?_⟩
    · obtain ⟨e, he, sp, hin, rfl⟩ := mem_updatesOf.1 hu
      exact (hall e he).2 sp hin
    · exact h.nodup.sublist (ranks_ofSp_sublist gid fun e he => (hall e he).1)

/-- The hosts of entries that are in the configuration have bits of their own. -/
theorem HostsConfig.Valid.separates_updatesOf (h : cfg.Valid) (hhas : ∀ e ∈ es, cfg.Has e.peer.hostInfo) :
    cfg.Separates (updatesOf es) := h.separates fun u hu => by
  obtain ⟨e, he, sp, -, rfl⟩ := mem_updatesOf.1 hu
  exact hhas e he

/-! ### Two processes -/

/-- Two processes fill the same tables, and none of their accesses leaves a bitset. -/
structure SameTables (t t' : Topology) : Prop where
  /-- One process. -/
  safe : t.doPopulateGroupCacheLookupTable.fault = false
  /-- The other. -/
  safe' : t'.doPopulateGroupCacheLookupTable.fault = false
  /-- The tables. -/
  same : t.doPopulateGroupCacheLookupTable.lookupTables = t'.doPopulateGroupCacheLookupTable.lookupTables

/-- **The order of arrival does not matter exactly when** each SP has a bit and an entry lists each of its SPs
once: the same entries of a group, in any order, in any batches and with any duplicates, lead to the
same lookup tables, in any two processes with the same configuration, when each SP is on one host. -/
theorem arrival_order_iff (ctx ctx' : GpCtx) (hu : ctx.gpUid ≠ INT_MAX) (hu' : ctx'.gpUid ≠ INT_MAX)
    (hcfg : ctx.hosts = ctx'.hosts) (hvalid : ctx.hosts.Valid) {n : ℕ} (hn : Allocatable n) {slot slot' : Option GroupCache}
    (h₀ : Unused slot) (h₀' : Unused slot') (batches batches' : List (List PeerCacheEntry)) (hb : ∀ b ∈ batches, BatchOf n b)
    (hb' : ∀ b ∈ batches', BatchOf n b) (hsame : ∀ e, e ∈ batches.flatten ↔ e ∈ batches'.flatten)
    (hrank : ∀ e ∈ batches.flatten, ∀ e' ∈ batches.flatten, e.rank = e'.rank → e = e')
    (hhas : ∀ e ∈ batches.flatten, ctx.hosts.Has e.peer.hostInfo)
    (hhost : ∀ e ∈ batches.flatten, ∀ e' ∈ batches.flatten, ∀ sp ∈ e.shadowServiceProcs,
      sp ∈ e'.shadowServiceProcs → e.peer.hostInfo = e'.peer.hostInfo) :
    SameTables (recvBatches ctx slot batches).topo (recvBatches ctx' slot' batches').topo ↔
      ∀ e ∈ batches.flatten, e.shadowServiceProcs.Nodup ∧ ∀ sp ∈ e.shadowServiceProcs, sp < (Bitset.create n).capacity := by
  have h := Received.batches hu hn h₀ hb
  have h' := Received.batches hu' hn h₀' hb'
  have hrank' : ∀ e ∈ batches'.flatten, ∀ e' ∈ batches'.flatten, e.rank = e'.rank → e = e' :=
    fun e he e' he' => hrank e ((hsame e).2 he) e' ((hsame e').2 he')
  have hmem : ∀ e, e ∈ firstEntries batches.flatten ↔ e ∈ batches.flatten := fun e => mem_firstEntries hrank
  have hmem' : ∀ e, e ∈ firstEntries batches'.flatten ↔ e ∈ batches.flatten := fun e => by
    rw [mem_firstEntries hrank', hsame]
  rw [← hcfg] at h'
  have hsafe := h.fault_iff (hvalid.separates_updatesOf fun e he => hhas e ((hmem e).1 he))
  have hsafe' := h'.fault_iff (hvalid.separates_updatesOf fun e he => hhas e ((hmem' e).1 he))
  simp only [hmem] at hsafe
  simp only [hmem'] at hsafe'
  refine ⟨fun hs => hsafe.1 hs.safe, fun hall => ⟨hsafe.2 hall, hsafe'.2 hall, ?_⟩⟩
  have hperm : (firstEntries batches'.flatten).Perm (firstEntries batches.flatten) := by
    refine (List.perm_ext_iff_of_nodup (nodup_firstEntries _).of_map (nodup_firstEntries _).of_map).2 fun e => ?_
    rw [hmem, hmem']
  have hrec' : (recvBatches ctx' slot' batches').topo.Records ctx.hosts n (updatesOf (firstEntries batches.flatten)) :=
    h'.records.perm (hperm.flatMap_right _)
  apply tables_eq_of_records h.records.doPopulate hrec'.doPopulate h.tables h'.tables
  intro u hmem u' hmem' hsp
  obtain ⟨e, he, sp, hin, rfl⟩ := mem_updatesOf.1 hmem
  obtain ⟨e', he', sp', hin', rfl⟩ := mem_updatesOf.1 hmem'
  obtain rfl : sp = sp' := hsp
  exact hhost e (mem_of_mem_firstEntries he) e' (mem_of_mem_firstEntries he') sp hin hin'

/-- Two entries one by one on a host, and in one batch with a duplicate on an SP. -/
theorem arrival_order_pair :
    SameTables (recvBatches hostCtx none [[peerEntry 2 0 70 [0]], [peerEntry 2 1 71 [1]]]).topo
      (recvBatches { hostCtx with onDpu := true } none
        [[peerEntry 2 1 71 [1], peerEntry 2 0 70 [0], peerEntry 2 1 71 [1]]]).topo := by
  have hno : Unused none := ⟨newGroupCache.persistent, rfl, rfl⟩
  refine (arrival_order_iff hostCtx { hostCtx with onDpu := true } (by decide) (by decide) rfl hostCtx_valid (n := 2)
    allocatable_two hno hno [[peerEntry 2 0 70 [0]], [peerEntry 2 1 71 [1]]]
    [[peerEntry 2 1 71 [1], peerEntry 2 0 70 [0], peerEntry 2 1 71 [1]]] (by decide) (by decide) ?_ (by decide) (by decide)
    (by decide)).2 (by decide)
  intro e
  simp only [List.flatten_cons, List.flatten_nil, List.append_nil, List.mem_append, List.mem_cons, List.not_mem_nil,
    or_false]
  tauto

/-- **Not for every group.** Two ranks on SP 16: the bitset of the SPs has one byte. -/
theorem not_arrival_order : ¬ ∀ (ctx ctx' : GpCtx) (n : ℕ) (slot slot' : Option GroupCache)
    (batches batches' : List (List PeerCacheEntry)), ctx.gpUid ≠ INT_MAX → ctx'.gpUid ≠ INT_MAX →
      ctx.hosts = ctx'.hosts → ctx.hosts.Valid → Allocatable n → Unused slot → Unused slot' →
        (∀ b ∈ batches, BatchOf n b) → (∀ b ∈ batches', BatchOf n b) →
          (∀ e, e ∈ batches.flatten ↔ e ∈ batches'.flatten) →
            (∀ e ∈ batches.flatten, ∀ e' ∈ batches.flatten, e.rank = e'.rank → e = e') →
              (∀ e ∈ batches.flatten, ctx.hosts.Has e.peer.hostInfo ∧ ∃ sp, e.shadowServiceProcs = [sp]) →
                (∀ e ∈ batches.flatten, ∀ e' ∈ batches.flatten, e.shadowServiceProcs = e'.shadowServiceProcs →
                  e.peer.hostInfo = e'.peer.hostInfo) →
                  SameTables (recvBatches ctx slot batches).topo (recvBatches ctx' slot' batches').topo := by
  intro h
  have hno : Unused none := ⟨newGroupCache.persistent, rfl, rfl⟩
  have hs := h { hostCtx with numServiceProcs := 17 } { hostCtx with numServiceProcs := 17 } 2 none none
    [[peerEntry 2 0 70 [16]], [peerEntry 2 1 70 [16]]] [[peerEntry 2 1 70 [16]], [peerEntry 2 0 70 [16]]]
    (by decide) (by decide) rfl hostCtx_valid allocatable_two hno hno (by decide) (by decide)
    (fun e => List.Perm.mem_iff (List.Perm.swap _ _ [])) (by decide)
    (fun e he => by
      simp only [List.flatten_cons, List.flatten_nil, List.append_nil, List.mem_append, List.mem_cons, List.not_mem_nil,
        or_false] at he
      rcases he with rfl | rfl <;> exact ⟨by decide, 16, rfl⟩) (by decide)
  exact absurd hs.safe (by decide)

end DpuOffload
