import DpuOffload.Cache.ArrivalOrder
import DpuOffload.Getters.Queries
import DpuOffload.Getters.Seated
import DpuOffload.Lib.Rank

/-!
# What the getters find in a complete group

A complete group knows its whole roster, and a getter finds it with its tables filled
(`complete_of_reach`). Read through the roster, the counters, bitsets, hashes and tables are
sets and their sizes: the SPs of the group and of each host, the ranks of each SP and of each
host. A set of SPs is kept in a bitset of the size of the group, which may have no bit for some of
them.
-/

namespace DpuOffload

open Rank Transition TopoUpdate

namespace Roster

variable (R : Roster)

/-- The SPs of the group. -/
def group : Finset ℕ := (Finset.range R.size).biUnion fun r => (R.sps r).toFinset

/-- The ranks of an SP. -/
def ranksOf (sp : ℕ) : Finset ℕ := (Finset.range R.size).filter fun r => sp ∈ R.sps r

/-- The hosts of the group. -/
def hosts : Finset ℕ := (Finset.range R.size).image R.host

/-- The ranks on a host. -/
def ranksOn (uid : ℕ) : Finset ℕ := (Finset.range R.size).filter fun r => R.host r = uid

/-- The SPs of the group that serve a host. -/
def spsOn (uid : ℕ) : Finset ℕ := (R.ranksOn uid).biUnion fun r => (R.sps r).toFinset

variable {R} {sp uid r : ℕ}

theorem mem_group : sp ∈ R.group ↔ ∃ r < R.size, sp ∈ R.sps r := by
  simp [group]

theorem mem_ranksOf : r ∈ R.ranksOf sp ↔ r < R.size ∧ sp ∈ R.sps r := by
  simp [ranksOf]

theorem mem_hosts : uid ∈ R.hosts ↔ ∃ r < R.size, R.host r = uid := by
  simp [hosts]

theorem mem_ranksOn : r ∈ R.ranksOn uid ↔ r < R.size ∧ R.host r = uid := by
  simp [ranksOn]

theorem mem_spsOn : sp ∈ R.spsOn uid ↔ ∃ r < R.size, R.host r = uid ∧ sp ∈ R.sps r := by
  simp [spsOn, mem_ranksOn, and_assoc]

theorem spsOn_subset_group : R.spsOn uid ⊆ R.group := by
  intro sp hsp
  obtain ⟨r, hr, -, hsp⟩ := mem_spsOn.1 hsp
  exact mem_group.2 ⟨r, hr, hsp⟩

/-- An SP of the group serves the host of its ranks. -/
theorem mem_spsOn_host (hr : r < R.size) (hsp : sp ∈ R.sps r) : sp ∈ R.spsOn uid ↔ uid = R.host r := by
  rw [mem_spsOn]
  constructor
  · rintro ⟨q, hq, rfl, hsp'⟩
    exact R.one_host q hq r hr sp hsp' hsp
  · rintro rfl
    exact ⟨r, hr, rfl, hsp⟩

end Roster

/-! ### A complete group -/

/-- **The complete group that is laid out as `R`**, with its tables. -/
structure Complete (cfg : HostsConfig) (R : Roster) (once : Prop) (g : GroupCache) : Prop where
  /-- The group has ranks. -/
  pos : 0 < R.size
  /-- Its size is known. -/
  size : g.groupSize = R.size
  /-- Every entry is that of the roster. -/
  fits : ∀ r < R.size, R.Fits r (g.entryAt r)
  /-- The topology is that of all the ranks. -/
  seats : ∃ us, Seats cfg R (fun r => decide (r < R.size)) g.topo us ∧ (once → us.Nodup)
  /-- The tables are filled. -/
  tables : g.topo.Tables

variable {cfg : HostsConfig} {R : Roster} {once : Prop} {g : GroupCache} {us : List TopoUpdate}

/-- **What a getter finds** when the group is complete. -/
theorem complete_of_reach {sys : GpCtx} (hu : sys.gpUid ≠ INT_MAX) (hid : sys.globalId ≠ UINT64_MAX) {e : Engine}
    (h : R.Runs sys once e) (hpos : 0 < e.gp.groupSize) (hf : e.gp.full = true) :
    Complete sys.hosts R once (topologyGetter sys e.slot) ∧ getGroupCache sys.gpUid e.slot = e.gp ∧
      topologyGetter sys e.slot = { e.gp with topo := e.gp.topo.doPopulateGroupCacheLookupTable } := by
  have hc := seated_of_reach hu hid h
  obtain ⟨hp, hn⟩ := hc.complete hpos hf
  have hsame : getGroupCache sys.gpUid e.slot = e.gp := by
    rw [getGroupCache, getGroupCacheInternal_getD]
    exact getGroupCacheInternal_of_live (hc.live_of_complete hp hn) 0
  have hget : topologyGetter sys e.slot = { e.gp with topo := e.gp.topo.doPopulateGroupCacheLookupTable } := by
    rw [topologyGetter, hsame]
  have hset : e.gp.isSet = fun r => decide (r < R.size) := by
    funext r
    rw [Bool.eq_iff_iff, hc.isSet_of_complete hn, decide_eq_true_eq]
  have hall : Seated sys.hosts R once (topologyGetter sys e.slot) :=
    hc.populate (hc.live_of_complete hp hn) hp hn (by rw [hget]; rfl)
  refine ⟨?_, hsame, hget⟩
  rw [hget] at hall ⊢
  refine ⟨hp, hc.size.resolve_left hpos.ne', fun r hr => ?_, ?_, ?_⟩
  · exact hc.fits r ((hc.isSet_of_complete hn r).2 hr)
  · obtain ⟨us, hus, hnd⟩ := hall.seats
    refine ⟨us, ?_, hnd⟩
    rw [← hset]
    exact hus
  · cases hpop : e.gp.topo.lookupTablesPopulated with
    | true =>
      rw [doPopulate_of_populated hpop]
      exact (hc.filled hpop).2.2
    | false => exact tables_doPopulate hpop

/-- **A populated group** on the process `sys`: a state of a run in which the group is complete. -/
structure Roster.Populated (R : Roster) (sys : GpCtx) (once : Prop) (e : Engine) : Prop where
  /-- The group has a uid. -/
  uid : sys.gpUid ≠ INT_MAX
  /-- The SP of the process has a global id. -/
  globalId : sys.globalId ≠ UINT64_MAX
  /-- The configuration is well formed. -/
  config : sys.hosts.Valid
  /-- It has the hosts of the group. -/
  known : R.Known sys.hosts
  /-- The SPs of the group are SPs of the engine. -/
  sps_lt : ∀ sp ∈ R.group, sp < sys.numServiceProcs
  /-- The state is that of a run. -/
  run : R.Runs sys once e
  /-- The size of the group is known. -/
  pos : 0 < e.gp.groupSize
  /-- All its entries are there. -/
  full : e.gp.full = true

theorem Roster.Populated.complete {sys : GpCtx} {e : Engine} (h : R.Populated sys once e) :
    Complete sys.hosts R once (topologyGetter sys e.slot) :=
  (complete_of_reach h.uid h.globalId h.run h.pos h.full).1

/-! ### The runs of a complete group -/

/-- The runs are those of the roster. -/
theorem Seats.mem_iff (h : Seats cfg R (fun r => decide (r < R.size)) g.topo us) {u : TopoUpdate} :
    u ∈ us ↔ u.rank < R.size ∧ u.sp ∈ R.sps u.rank ∧ u.host = R.host u.rank := by
  rw [h.runs, decide_eq_true_eq]

theorem Seats.spsOf_eq (h : Seats cfg R (fun r => decide (r < R.size)) g.topo us) : spsOf us = R.group := by
  ext sp
  rw [mem_spsOf, Roster.mem_group]
  constructor
  · rintro ⟨u, hu, rfl⟩
    exact ⟨u.rank, (h.mem_iff.1 hu).1, (h.mem_iff.1 hu).2.1⟩
  · rintro ⟨r, hr, hsp⟩
    exact ⟨⟨r, sp, R.host r⟩, h.mem_iff.2 ⟨hr, hsp, rfl⟩, rfl⟩

theorem Seats.ranksOf_ofSp (h : Seats cfg R (fun r => decide (r < R.size)) g.topo us) (sp : ℕ) :
    TopoUpdate.ranksOf (ofSp sp us) = R.ranksOf sp := by
  ext r
  rw [TopoUpdate.mem_ranksOf, Roster.mem_ranksOf]
  constructor
  · rintro ⟨u, hu, rfl⟩
    obtain ⟨hu, hsp⟩ := List.mem_filter.1 hu
    rw [← of_decide_eq_true hsp]
    exact ⟨(h.mem_iff.1 hu).1, (h.mem_iff.1 hu).2.1⟩
  · rintro ⟨hr, hsp⟩
    exact ⟨⟨r, sp, R.host r⟩, List.mem_filter.2 ⟨h.mem_iff.2 ⟨hr, hsp, rfl⟩, decide_eq_true rfl⟩, rfl⟩

theorem Seats.hostsOf_eq (h : Seats cfg R (fun r => decide (r < R.size)) g.topo us) : hostsOf us = R.hosts := by
  ext uid
  rw [mem_hostsOf, Roster.mem_hosts]
  constructor
  · rintro ⟨u, hu, rfl⟩
    exact ⟨u.rank, (h.mem_iff.1 hu).1, (h.mem_iff.1 hu).2.2.symm⟩
  · rintro ⟨r, hr, rfl⟩
    -- each rank has an SP, and so a run
    obtain ⟨sp, hsp⟩ := List.exists_mem_of_ne_nil _ (R.sps_ne r hr)
    exact ⟨⟨r, sp, R.host r⟩, h.mem_iff.2 ⟨hr, hsp, rfl⟩, rfl⟩

theorem Seats.ranksOf_ofHost (h : Seats cfg R (fun r => decide (r < R.size)) g.topo us) (uid : ℕ) :
    TopoUpdate.ranksOf (ofHost uid us) = R.ranksOn uid := by
  ext r
  rw [TopoUpdate.mem_ranksOf, Roster.mem_ranksOn]
  constructor
  · rintro ⟨u, hu, rfl⟩
    obtain ⟨hu, hh⟩ := List.mem_filter.1 hu
    exact ⟨(h.mem_iff.1 hu).1, by rw [← (h.mem_iff.1 hu).2.2, of_decide_eq_true hh]⟩
  · rintro ⟨hr, rfl⟩
    obtain ⟨sp, hsp⟩ := List.exists_mem_of_ne_nil _ (R.sps_ne r hr)
    exact ⟨⟨r, sp, R.host r⟩, List.mem_filter.2 ⟨h.mem_iff.2 ⟨hr, hsp, rfl⟩, decide_eq_true rfl⟩, rfl⟩

theorem Seats.spsOf_ofHost (h : Seats cfg R (fun r => decide (r < R.size)) g.topo us) (uid : ℕ) :
    spsOf (ofHost uid us) = R.spsOn uid := by
  ext sp
  rw [mem_spsOf, Roster.mem_spsOn]
  constructor
  · rintro ⟨u, hu, rfl⟩
    obtain ⟨hu, hh⟩ := List.mem_filter.1 hu
    exact ⟨u.rank, (h.mem_iff.1 hu).1, by rw [← (h.mem_iff.1 hu).2.2, of_decide_eq_true hh], (h.mem_iff.1 hu).2.1⟩
  · rintro ⟨r, hr, rfl, hsp⟩
    exact ⟨⟨r, sp, R.host r⟩, List.mem_filter.2 ⟨h.mem_iff.2 ⟨hr, hsp, rfl⟩, decide_eq_true rfl⟩, rfl⟩

/-- Runs about different ranks of one SP are different: with each run once they are counted by the ranks. -/
theorem Seats.length_ofSp (h : Seats cfg R (fun r => decide (r < R.size)) g.topo us) (hnd : us.Nodup) (sp : ℕ) :
    (ofSp sp us).length = (R.ranksOf sp).card := by
  have hmap : ((ofSp sp us).map (·.rank)).Nodup := by
    refine (hnd.filter _).map_on fun u hu v hv huv => ?_
    obtain ⟨hu, hsu⟩ := List.mem_filter.1 hu
    obtain ⟨hv, hsv⟩ := List.mem_filter.1 hv
    have hsp : u.sp = v.sp := (of_decide_eq_true hsu).trans (of_decide_eq_true hsv).symm
    have hhost : u.host = v.host := by rw [(h.mem_iff.1 hu).2.2, (h.mem_iff.1 hv).2.2, huv]
    cases u
    cases v
    simp_all
  rw [← h.ranksOf_ofSp, TopoUpdate.ranksOf, List.toFinset_card_of_nodup hmap, List.length_map]

/-- Each rank has one SP. -/
def Roster.OneSp (R : Roster) : Prop := ∀ r < R.size, ∃ sp, R.sps r = [sp]

/-- Runs about different ranks of one host are different when each rank has one SP: with each run once they are
counted by the ranks. -/
theorem Seats.length_ofHost (h : Seats cfg R (fun r => decide (r < R.size)) g.topo us) (hnd : us.Nodup) (hone : R.OneSp)
    (uid : ℕ) : (ofHost uid us).length = (R.ranksOn uid).card := by
  have hmap : ((ofHost uid us).map (·.rank)).Nodup := by
    refine (hnd.filter _).map_on fun u hu v hv huv => ?_
    obtain ⟨hu, hhu⟩ := List.mem_filter.1 hu
    obtain ⟨hv, hhv⟩ := List.mem_filter.1 hv
    have hhost : u.host = v.host := (of_decide_eq_true hhu).trans (of_decide_eq_true hhv).symm
    obtain ⟨hlt, hsu, -⟩ := h.mem_iff.1 hu
    obtain ⟨sp, hsp⟩ := hone _ hlt
    have hsv := (h.mem_iff.1 hv).2.1
    rw [← huv, hsp] at hsv
    rw [hsp] at hsu
    have hspeq : u.sp = v.sp := (List.mem_singleton.1 hsu).trans (List.mem_singleton.1 hsv).symm
    cases u
    cases v
    simp_all
  rw [← h.ranksOf_ofHost, TopoUpdate.ranksOf, List.toFinset_card_of_nodup hmap, List.length_map]

/-! ### SPs -/

namespace Complete

theorem nSps (h : Complete cfg R once g) : g.topo.nSps = R.group.card := by
  obtain ⟨us, hus, -⟩ := h.seats
  rw [hus.records.sps.nSps, hus.spsOf_eq]

/-- The bitset of the SPs has those that have a bit. -/
theorem bits_sps (h : Complete cfg R once g) : (g.topo.spsBitset.getD []).bits = inRange R.size R.group := by
  obtain ⟨us, hus, -⟩ := h.seats
  rw [← bits_bitsetCreate _ R.size, ← hus.spsOf_eq]
  exact hus.records.sps.marks.bits

theorem capacity_sps (h : Complete cfg R once g) :
    (g.topo.spsBitset.getD []).capacity = (Bitset.create R.size).capacity := by
  obtain ⟨us, hus, -⟩ := h.seats
  obtain ⟨sp, hsp⟩ := List.exists_mem_of_ne_nil _ (R.sps_ne 0 h.pos)
  exact hus.records.capacity_sps (List.ne_nil_of_mem (hus.mem_iff (u := ⟨0, sp, R.host 0⟩).2 ⟨h.pos, hsp, rfl⟩))

theorem test_sps (h : Complete cfg R once g) (sp : ℕ) :
    (g.topo.spsBitset.getD []).test sp = true ↔ sp ∈ R.group ∧ sp < (Bitset.create R.size).capacity := by
  rw [← Bitset.mem_bits, h.bits_sps, inRange, Finset.mem_filter]

theorem lookup_sp (h : Complete cfg R once g) {sp : ℕ} : (g.topo.spsHash.lookup sp).isSome = true ↔ sp ∈ R.group := by
  obtain ⟨us, hus, -⟩ := h.seats
  rw [AList.lookup_isSome, hus.records.sps.keys, hus.spsOf_eq]

variable {sp uid : ℕ} {d : SpCacheData} {dh : HostCacheData}

theorem gid (h : Complete cfg R once g) (hd : g.topo.spsHash.lookup sp = some d) : d.gid = sp := by
  obtain ⟨us, hus, -⟩ := h.seats
  exact (hus.records.sps.data sp d hd).gid

/-- The bitset of an SP has its ranks. -/
theorem bits_ranks (h : Complete cfg R once g) (hd : g.topo.spsHash.lookup sp = some d) :
    (d.ranksBitset.getD []).bits = R.ranksOf sp := by
  obtain ⟨us, hus, -⟩ := h.seats
  rw [(hus.records.sps.data sp d hd).ranks.bits, hus.ranksOf_ofSp]
  refine inRange_of_lt fun r hr => ?_
  exact (Roster.mem_ranksOf.1 hr).1.trans_le (Bitset.le_capacity_create _)

/-- `n_ranks` counts the ranks when each was recorded once. -/
theorem nRanks (h : Complete cfg R once g) (ho : once) (hd : g.topo.spsHash.lookup sp = some d) :
    d.nRanks = (R.ranksOf sp).card := by
  obtain ⟨us, hus, hnd⟩ := h.seats
  rw [(hus.records.sps.data sp d hd).nRanks, hus.length_ofSp (hnd ho)]

/-- The table of an SP then has its ranks in order. -/
theorem spRanks (h : Complete cfg R once g) (ho : once) (hd : g.topo.spsHash.lookup sp = some d) :
    d.ranks = (R.ranksOf sp).sort := by
  rw [h.tables.spRanks sp d hd, Bitset.firstBits_eq, h.bits_ranks hd, h.nRanks ho hd]
  exact List.take_of_length_le (Finset.length_sort _).le

/-! ### Hosts -/

theorem lookup_host (h : Complete cfg R once g) : (g.topo.hostsHash.lookup uid).isSome = true ↔ uid ∈ R.hosts := by
  obtain ⟨us, hus, -⟩ := h.seats
  rw [AList.lookup_isSome, hus.records.hosts.keys, hus.hostsOf_eq]

/-- The bitset of a host has its ranks. -/
theorem bits_hostRanks (h : Complete cfg R once g) (hd : g.topo.hostsHash.lookup uid = some dh) :
    (dh.ranksBitset.getD []).bits = R.ranksOn uid := by
  obtain ⟨us, hus, -⟩ := h.seats
  rw [(hus.records.hosts.data uid dh hd).ranks.bits, hus.ranksOf_ofHost]
  refine inRange_of_lt fun r hr => ?_
  exact (Roster.mem_ranksOn.1 hr).1.trans_le (Bitset.le_capacity_create _)

theorem capacity_hostRanks (h : Complete cfg R once g) (hd : g.topo.hostsHash.lookup uid = some dh) :
    (dh.ranksBitset.getD []).capacity = (Bitset.create R.size).capacity := by
  obtain ⟨us, hus, -⟩ := h.seats
  exact (hus.records.hosts.data uid dh hd).ranks.capacity

/-- `num_ranks` counts the ranks when each was recorded once and has one SP. -/
theorem numRanks (h : Complete cfg R once g) (ho : once) (hone : R.OneSp) (hd : g.topo.hostsHash.lookup uid = some dh) :
    dh.numRanks = (R.ranksOn uid).card := by
  obtain ⟨us, hus, hnd⟩ := h.seats
  rw [(hus.records.hosts.data uid dh hd).numRanks, hus.length_ofHost (hnd ho) hone]

/-- `num_sps` counts the SPs that have a bit once, and the others at least once. -/
theorem numSps (h : Complete cfg R once g) (hd : g.topo.hostsHash.lookup uid = some dh) :
    (inRange R.size (R.spsOn uid)).card ≤ dh.numSps ∧
      ((∀ sp ∈ R.spsOn uid, sp < (Bitset.create R.size).capacity) → dh.numSps = (R.spsOn uid).card) := by
  obtain ⟨us, hus, -⟩ := h.seats
  have hrec := hus.records.hosts.data uid dh hd
  rw [← hus.spsOf_ofHost]
  constructor
  · rw [hrec.numSps, countedSps]
    exact Nat.le_add_right _ _
  · intro hall
    have hnone : (ofHost uid us).countP (fun u => decide ((Bitset.create R.size).capacity ≤ u.sp)) = 0 := by
      refine List.countP_eq_zero.2 fun u hu => ?_
      have := hall u.sp (mem_spsOf.2 ⟨u, hu, rfl⟩)
      simpa using this
    rw [hrec.numSps, countedSps, hnone, Nat.add_zero, inRange_of_lt hall]

/-- The table of a host has its SPs that have a bit, in order. -/
theorem hostSps (h : Complete cfg R once g) (hd : g.topo.hostsHash.lookup uid = some dh) :
    dh.sps = (inRange R.size (R.spsOn uid)).sort := by
  have hbits : (dh.spsBitset.getD []).bits = inRange R.size (R.spsOn uid) := by
    obtain ⟨us, hus, -⟩ := h.seats
    rw [(hus.records.hosts.data uid dh hd).sps.bits, hus.spsOf_ofHost]
  rw [h.tables.hostSps uid dh hd, Bitset.firstBits_eq, hbits]
  exact List.take_of_length_le ((Finset.length_sort _).trans_le (h.numSps hd).1)

/-- **The local id of an SP is its number among the SPs of its host**, when it has a bit. -/
theorem lid (h : Complete cfg R once g) {r : ℕ} (hr : r < R.size) (hsp : sp ∈ R.sps r)
    (hbit : sp < (Bitset.create R.size).capacity) (hd : g.topo.spsHash.lookup sp = some d) :
    d.lid = rank (R.spsOn (R.host r)) sp := by
  have hmem : sp ∈ inRange R.size (R.spsOn (R.host r)) :=
    Finset.mem_filter.2 ⟨(Roster.mem_spsOn_host hr hsp).2 rfl, hbit⟩
  obtain ⟨dh, hdh⟩ := Option.isSome_iff_exists.1 (h.lookup_host.2 (Roster.mem_hosts.2 ⟨r, hr, rfl⟩))
  have hin : sp ∈ dh.sps := by
    rw [h.hostSps hdh]
    exact (Finset.mem_sort _).2 hmem
  rw [h.tables.lid (R.host r) dh sp d hdh hin hd, h.hostSps hdh, idxOf_sort hmem]
  · exact rank_filter_lt hbit.le
  · -- no other host has the SP
    intro uid' dh' hdh' hin'
    rw [h.hostSps hdh'] at hin'
    exact (Roster.mem_spsOn_host hr hsp).1 (Finset.mem_filter.1 ((Finset.mem_sort _).1 hin')).1

end Complete

/-! ### The table of the hosts -/

/-- The place of a host in the configuration is that of the host. -/
theorem HostsConfig.uidAt_idx (hcfg : cfg.Valid) {uid : ℕ} (hu : cfg.Has uid) :
    cfg.uidAt (cfg.lookupHostConfigIdx uid) = some uid := by
  rw [HostsConfig.uidAt]
  cases hf : cfg.hostLookupTable.find? fun p => p.2 == cfg.lookupHostConfigIdx uid with
  | none =>
    have := List.find?_eq_none.1 hf _ hu.mem
    simp at this
  | some p =>
    have hp := List.mem_of_find?_eq_some hf
    have hidx : p.2 = cfg.lookupHostConfigIdx uid := by simpa using List.find?_some hf
    have : p = (uid, cfg.lookupHostConfigIdx uid) := List.inj_on_of_nodup_map hcfg.indices hp hu.mem hidx
    rw [this]
    rfl

namespace Complete

theorem nHosts (h : Complete cfg R once g) : g.topo.nHosts = R.hosts.card := by
  obtain ⟨us, hus, -⟩ := h.seats
  rw [hus.records.hosts.nHosts, hus.hostsOf_eq]

/-- The table has the places of the hosts, in order. -/
theorem hosts_eq (h : Complete cfg R once g) (hcfg : cfg.Valid) (hk : R.Known cfg) :
    g.topo.hosts = (R.hosts.image cfg.lookupHostConfigIdx).sort := by
  have hhas : ∀ uid ∈ R.hosts, cfg.Has uid := by
    intro uid hm
    obtain ⟨r, hr, rfl⟩ := Roster.mem_hosts.1 hm
    exact hk r hr
  have hbits : (g.topo.hostsBitset.getD []).bits = R.hosts.image cfg.lookupHostConfigIdx := by
    obtain ⟨us, hus, -⟩ := h.seats
    rw [← bits_bitsetCreate _ cfg.numHosts, ← hus.hostsOf_eq]
    refine hus.records.hosts.marks.bits.trans (inRange_of_lt fun i hi => ?_)
    obtain ⟨uid, hu, rfl⟩ := Finset.mem_image.1 hi
    exact (hcfg.idx_lt (hhas uid (hus.hostsOf_eq ▸ hu))).trans_le (Bitset.le_capacity_create _)
  have hcard : (R.hosts.image cfg.lookupHostConfigIdx).card = R.hosts.card := by
    refine Finset.card_image_of_injOn fun uid hu uid' hu' he => ?_
    exact hcfg.idx_inj (hhas uid hu) (hhas uid' hu') he
  rw [h.tables.hosts, Bitset.firstBits_eq, hbits, h.nHosts, ← hcard]
  exact List.take_of_length_le (Finset.length_sort _).le

/-- **Each place of the table has a host of the group**, numbered by its place in the configuration. -/
theorem hostUidAt_iff (h : Complete cfg R once g) (hcfg : cfg.Valid) (hk : R.Known cfg) {i uid : ℕ} :
    g.topo.hostUidAt cfg i = some uid ↔
      uid ∈ R.hosts ∧ rank (R.hosts.image cfg.lookupHostConfigIdx) (cfg.lookupHostConfigIdx uid) = i := by
  have hhas : ∀ uid ∈ R.hosts, cfg.Has uid := by
    intro uid hm
    obtain ⟨r, hr, rfl⟩ := Roster.mem_hosts.1 hm
    exact hk r hr
  rw [Topology.hostUidAt, h.hosts_eq hcfg hk, Option.bind_eq_some_iff]
  constructor
  · rintro ⟨idx, hidx, huid⟩
    obtain ⟨hmem, hrank⟩ := getElem?_sort.1 hidx
    obtain ⟨uid', hu', rfl⟩ := Finset.mem_image.1 hmem
    rw [HostsConfig.uidAt_idx hcfg (hhas uid' hu')] at huid
    cases huid
    exact ⟨hu', hrank⟩
  · rintro ⟨hu, hrank⟩
    refine ⟨cfg.lookupHostConfigIdx uid, getElem?_sort.2 ⟨Finset.mem_image_of_mem _ hu, hrank⟩, ?_⟩
    exact HostsConfig.uidAt_idx hcfg (hhas uid hu)

/-- The host at a place of the table. -/
theorem hostData_of_lt (h : Complete cfg R once g) (hcfg : cfg.Valid) (hk : R.Known cfg) {i : ℕ} (hi : i < g.topo.nHosts) :
    ∃ uid ∈ R.hosts, ∃ dh, g.topo.hostUidAt cfg i = some uid ∧ g.topo.hostsHash.lookup uid = some dh ∧
      g.topo.hostData cfg i = some dh := by
  have hinj : Set.InjOn cfg.lookupHostConfigIdx R.hosts := by
    intro uid hu uid' hu' he
    obtain ⟨r, hr, rfl⟩ := Roster.mem_hosts.1 hu
    obtain ⟨r', hr', rfl⟩ := Roster.mem_hosts.1 hu'
    exact hcfg.idx_inj (hk r hr) (hk r' hr') he
  have hi' : i < (R.hosts.image cfg.lookupHostConfigIdx).card := by
    rw [Finset.card_image_of_injOn hinj, ← h.nHosts]
    exact hi
  obtain ⟨idx, hidx, hrank⟩ := exists_rank_eq hi'
  obtain ⟨uid, hu, rfl⟩ := Finset.mem_image.1 hidx
  have hat := (h.hostUidAt_iff hcfg hk).2 ⟨hu, hrank⟩
  obtain ⟨dh, hdh⟩ := Option.isSome_iff_exists.1 (h.lookup_host.2 hu)
  refine ⟨uid, hu, dh, hat, hdh, ?_⟩
  rw [Topology.hostData, hat, Option.bind_some, hdh]

end Complete

/-! ### Accesses that leave a bitset -/

/-- The counter `n_ranks` of each SP counts each of its ranks once. -/
def Topology.CountsOnce (t : Topology) (R : Roster) : Prop :=
  ∀ sp d, t.spsHash.lookup sp = some d → d.nRanks = (R.ranksOf sp).card

/-- Then each rank was recorded once. -/
theorem Complete.of_countsOnce (h : Complete cfg R once g) (hc : g.topo.CountsOnce R) : Complete cfg R True g := by
  obtain ⟨us, hus, -⟩ := h.seats
  refine ⟨h.pos, h.size, h.fits, ⟨us, hus, fun _ => List.nodup_iff_count_le_one.2 fun u => ?_⟩, h.tables⟩
  by_cases hu : u ∈ us
  · -- the runs about an SP are about different ranks
    have hkey : (g.topo.spsHash.lookup u.sp).isSome = true :=
      h.lookup_sp.2 (Roster.mem_group.2 ⟨u.rank, (hus.mem_iff.1 hu).1, (hus.mem_iff.1 hu).2.1⟩)
    obtain ⟨d, hd⟩ := Option.isSome_iff_exists.1 hkey
    have hlen : ((ofSp u.sp us).map (·.rank)).length ≤ ((ofSp u.sp us).map (·.rank)).toFinset.card := by
      have hcount := hc u.sp d hd
      rw [(hus.records.sps.data u.sp d hd).nRanks, ← hus.ranksOf_ofSp] at hcount
      rw [List.length_map, hcount]
      exact le_rfl
    have hnd : (ofSp u.sp us).Nodup := (length_le_card_toFinset_iff.1 hlen).of_map
    have hfilter : (ofSp u.sp us).count u = us.count u := List.count_filter (decide_eq_true rfl)
    rw [← hfilter]
    exact List.nodup_iff_count_le_one.1 hnd u
  · rw [List.count_eq_zero.2 hu]
    exact Nat.zero_le 1

/-- Filling the tables does not count. -/
theorem countsOnce_doPopulate {t : Topology} : t.doPopulateGroupCacheLookupTable.CountsOnce R ↔ t.CountsOnce R := by
  cases hp : t.lookupTablesPopulated with
  | true => rw [doPopulate_of_populated hp]
  | false =>
    constructor
    · intro h sp d hd
      have hlook := spsHash_doPopulate hp sp
      rw [hd, Option.map_some] at hlook
      have hn := h sp _ hlook
      exact hn
    · intro h sp d hd
      rw [spsHash_doPopulate hp] at hd
      obtain ⟨d₀, h₀, rfl⟩ := Option.map_eq_some_iff.1 hd
      exact h sp d₀ h₀

namespace Roster.Populated

variable {sys : GpCtx} {e : Engine}

/-- What a getter finds has its tables filled. -/
theorem filled (h : R.Populated sys once e) : (topologyGetter sys e.slot).topo.lookupTablesPopulated = true := by
  rw [(complete_of_reach h.uid h.globalId h.run h.pos h.full).2.2]
  exact populated_doPopulate _

theorem countsOnce_iff (h : R.Populated sys once e) :
    (topologyGetter sys e.slot).topo.CountsOnce R ↔ e.gp.topo.CountsOnce R := by
  rw [(complete_of_reach h.uid h.globalId h.run h.pos h.full).2.2]
  exact countsOnce_doPopulate

/-- Runs in which each rank is recorded once count it once. -/
theorem countsOnce (h : R.Populated sys once e) (ho : once) : e.gp.topo.CountsOnce R :=
  h.countsOnce_iff.1 fun _ _ hd => h.complete.nRanks ho hd

/-- **No access leaves its bitset exactly when** each SP of the group has a bit, and each rank is counted once. -/
theorem safe_iff (h : R.Populated sys once e) : (topologyGetter sys e.slot).topo.fault = false ↔
    (∀ sp ∈ R.group, sp < (Bitset.create R.size).capacity) ∧ e.gp.topo.CountsOnce R := by
  obtain ⟨us, hus, -⟩ := h.complete.seats
  have hhas : ∀ u ∈ us, sys.hosts.Has u.host := by
    intro u hu
    obtain ⟨hlt, -, hh⟩ := hus.mem_iff.1 hu
    rw [hh]
    exact h.known u.rank hlt
  rw [hus.faults.eq_false_iff hus.records (h.config.separates hhas) (fun u hu => (hus.mem_iff.1 hu).1) h.filled, ← h.countsOnce_iff]
  refine and_congr ?_ ⟨fun hle sp d hd => ?_, fun heq sp d hd => ?_⟩
  · rw [← hus.spsOf_eq]
    constructor
    · intro hall sp hsp
      obtain ⟨u, hu, rfl⟩ := mem_spsOf.1 hsp
      exact hall u hu
    · exact fun hall u hu => hall u.sp (mem_spsOf.2 ⟨u, hu, rfl⟩)
  · refine le_antisymm ?_ ?_
    · rw [← h.complete.bits_ranks hd]
      exact hle sp d hd
    · rw [(hus.records.sps.data sp d hd).nRanks, ← hus.ranksOf_ofSp, TopoUpdate.ranksOf, ← List.length_map (f := (·.rank))]
      exact List.toFinset_card_le _
  · rw [h.complete.bits_ranks hd]
    exact (heq sp d hd).le

/-- When each SP has a bit and each rank is counted once, getters answer. -/
theorem safe (h : R.Populated sys once e) (hbit : ∀ sp ∈ R.group, sp < (Bitset.create R.size).capacity)
    (hone : e.gp.topo.CountsOnce R) : (topologyGetter sys e.slot).topo.fault = false := h.safe_iff.2 ⟨hbit, hone⟩

end Roster.Populated

/-! ### Two rosters -/

/-- One rank, on SP `sp` of host 70. -/
def loneRoster (sp : ℕ) : Roster where
  size := 1
  alloc := allocatable_one
  sps _ := [sp]
  nodup _ := List.nodup_singleton sp
  host _ := 70
  sps_ne _ _ := List.cons_ne_nil _ _
  one_host _ _ _ _ _ _ _ := rfl

/-- Two ranks, each on an SP and a host of its own. -/
def pairRoster : Roster where
  toLayout := pairLayout
  host r := 70 + r
  sps_ne _ _ := List.cons_ne_nil _ _
  one_host r _ r' _ sp h h' := by rw [← List.mem_singleton.1 h, ← List.mem_singleton.1 h']

instance Roster.decidableKnown (R : Roster) (cfg : HostsConfig) : Decidable (R.Known cfg) :=
  inferInstanceAs (Decidable (∀ r < R.size, cfg.Has (R.host r)))

/-- A computed run to a complete group. -/
theorem Roster.exists_populated (R : Roster) (sys : GpCtx) (once : Prop) [Decidable once] (P : Engine → Prop)
    [DecidablePred P] (hu : sys.gpUid ≠ INT_MAX) (hid : sys.globalId ≠ UINT64_MAX) (hcfg : sys.hosts.Valid) (hk : R.Known sys.hosts)
    (hlt : ∀ sp ∈ R.group, sp < sys.numServiceProcs) (ops : List (GpCtx × TopoOp))
    (h : (exec TopoOp.step (fun e l => R.OpOk sys l ∧ l.2.Settled once e) ops Engine.init).any (fun e =>
      decide ((0 < e.gp.groupSize ∧ e.gp.full = true) ∧ P e)) = true) : ∃ e, R.Populated sys once e ∧ P e := by
  obtain ⟨e, he, ⟨hpos, hf⟩, hP⟩ := exists_reach_of_exec (P := fun e => (0 < e.gp.groupSize ∧ e.gp.full = true) ∧ P e) ops h
  exact ⟨e, ⟨hu, hid, hcfg, hk, hlt, he, hpos, hf⟩, hP⟩

/-- The entries of the two ranks come. -/
theorem pairRoster_populated : ∃ e : Engine, pairRoster.Populated hostCtx True e := by
  obtain ⟨e, he, -⟩ := pairRoster.exists_populated hostCtx True (fun _ => True)
    (by decide) (by decide) hostCtx_valid (by decide) (by decide)
    [(hostCtx, .event (.peerCacheEntries 0 [peerEntry 2 0 70 [0]])),
      (hostCtx, .event (.peerCacheEntries 1 [peerEntry 2 1 71 [1]]))] (by decide)
  exact ⟨e, he⟩

end DpuOffload
