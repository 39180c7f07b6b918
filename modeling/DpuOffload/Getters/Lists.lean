import DpuOffload.Getters.Compose
import Mathlib.Algebra.BigOperators.Group.Finset.Piecewise

/-!
# The getters that return lists

`get_all_hosts_by_group` and its like return a table of the group and the counter that goes with it: the hosts,
the SPs of a host, the ranks of an SP. They check neither, nor the place they are asked for.

* `lists_sps_iff` — the lists of hosts and of SPs **partition the SPs of the group exactly when** each SP has a bit
  and counts each of its ranks once.
* `lists_ranks_iff` — the lists of ranks, by the number of an SP in the group and by its number on its host, are those
  of that SP **exactly when** the SPs of the group are the first ones of the engine. Then each rank is listed once
  for each of its SPs.
-/

namespace DpuOffload

open Rank TopoUpdate

/-- The list a getter returns. -/
def Answer.list : Answer (List ℕ × ℕ) → List ℕ
  | .success (l, _) => l
  | _ => []

/-- `get_all_hosts_by_group`. A host is given by its place in the configuration. -/
def getAllHostsByGroup (ctx : GpCtx) (slot : Option GroupCache) : Answer (List ℕ × ℕ) :=
  let g := topologyGetter ctx slot
  g.answer (.success (g.topo.hosts, g.topo.nHosts))

/-- `get_all_sps_by_group_host_idx`. -/
def getAllSpsByGroupHostIdx (ctx : GpCtx) (slot : Option GroupCache) (hostIdx : ℕ) : Answer (List ℕ × ℕ) :=
  let g := topologyGetter ctx slot
  g.answer <| .read (g.topo.hostData ctx.hosts hostIdx) fun d => .success (d.sps, d.numSps)

/-- `get_all_ranks_by_group_sp_gid`. -/
def getAllRanksByGroupSpGid (ctx : GpCtx) (slot : Option GroupCache) (spGpGid : ℕ) : Answer (List ℕ × ℕ) :=
  let g := topologyGetter ctx slot
  g.answer <| .read (g.topo.spData spGpGid) fun d => .success (d.ranks, d.nRanks)

/-- `get_all_ranks_by_group_sp_lid`. Other than the getters of a number, it does not compare the local id with
`num_sps`. -/
def getAllRanksByGroupSpLid (ctx : GpCtx) (slot : Option GroupCache) (hostIdx spGpLid : ℕ) : Answer (List ℕ × ℕ) :=
  let g := topologyGetter ctx slot
  g.answer <| .read (g.topo.hostData ctx.hosts hostIdx) fun d =>
    .read (d.sps[spGpLid]?.bind g.topo.spsHash.lookup) fun sp => .success (sp.ranks, sp.nRanks)

/-- `get_group_rank_sps`. When it fails the number it writes is `0`. -/
def getGroupRankSps (ctx : GpCtx) (slot : Option GroupCache) (rank : ℕ) : Answer (List ℕ × ℕ) :=
  let g := topologyGetter ctx slot
  g.answer <| match getGroupRankHost ctx (some g) rank with
    | .success host => .read (g.topo.hostsHash.lookup host) fun d => .success (d.sps, d.numSps)
    | _ => .error (some ([], 0))

variable {R : Roster} {sys : GpCtx} {once : Prop} {e : Engine}

/-! ### The hosts and their SPs -/

/-- The lists of the hosts and of the SPs on each. -/
structure ListsSps (ctx : GpCtx) (slot : Option GroupCache) (R : Roster) : Prop where
  /-- The hosts of the group, each once, and how many they are. -/
  hosts : ∃ l, getAllHostsByGroup ctx slot = .success (l, l.length) ∧
    (l.map ctx.hosts.uidAt).Perm (R.hosts.toList.map some)
  /-- The SPs of the host at a place, in order, and how many they are. -/
  each : ∀ i uid, (topologyGetter ctx slot).topo.hostUidAt ctx.hosts i = some uid →
    getAllSpsByGroupHostIdx ctx slot i = .success ((R.spsOn uid).sort, (R.spsOn uid).card)
  /-- Those of the host of a rank. -/
  ofRank : ∀ r < R.size, getGroupRankSps ctx slot r = .success ((R.spsOn (R.host r)).sort, (R.spsOn (R.host r)).card)
  /-- All of them, host by host: the SPs of the group, each once. -/
  all : ((List.range R.hosts.card).flatMap fun i => (getAllSpsByGroupHostIdx ctx slot i).list).Perm R.group.toList

/-- A host of the group, at its place. -/
theorem Roster.Populated.hostData_eq (h : R.Populated sys once e) {i uid : ℕ}
    (hat : (topologyGetter sys e.slot).topo.hostUidAt sys.hosts i = some uid) :
    ∃ dh, (topologyGetter sys e.slot).topo.hostData sys.hosts i = some dh ∧
      (topologyGetter sys e.slot).topo.hostsHash.lookup uid = some dh := by
  have hmem := ((h.complete.hostUidAt_iff h.config h.known).1 hat).1
  obtain ⟨dh, hdh⟩ := Option.isSome_iff_exists.1 (h.complete.lookup_host.2 hmem)
  exact ⟨dh, by rw [Topology.hostData, hat, Option.bind_some, hdh], hdh⟩

/-- Getters that list the hosts leave no bitset. -/
theorem ListsSps.safe {ctx : GpCtx} {slot : Option GroupCache} (h : ListsSps ctx slot R) :
    (topologyGetter ctx slot).topo.fault = false := by
  obtain ⟨l, hl, -⟩ := h.hosts
  unfold getAllHostsByGroup at hl
  exact GroupCache.safe_of_success hl

/-- The host of a rank that is in the cache. -/
theorem Roster.Populated.getGroupRankHost (h : R.Populated sys once e) {r : ℕ} (hr : r < R.size) :
    DpuOffload.getGroupRankHost sys (some (topologyGetter sys e.slot)) r = .success (R.host r) := by
  have hc := seated_of_reach h.uid h.globalId h.run
  obtain ⟨hp, hn⟩ := hc.complete h.pos h.full
  obtain ⟨-, -, hget⟩ := complete_of_reach h.uid h.globalId h.run h.pos h.full
  have hl : (topologyGetter sys e.slot).Live := by
    rw [hget]
    exact hc.live_of_complete hp hn
  have hset : (topologyGetter sys e.slot).isSet r = true := by
    rw [hget]
    exact (hc.isSet_of_complete hn r).2 hr
  have hsize : (topologyGetter sys e.slot).groupSize ≠ 0 := by
    rw [h.complete.size]
    exact hp.ne'
  rw [DpuOffload.getGroupRankHost, getGroupRankCacheEntry, getGroupCacheInternal_of_live hl,
    learnGroupSize_of_known hsize]
  simp only [hset, if_true, (h.complete.fits r hr).2.1]

/-- The hosts are at the places from `0` on. -/
theorem Roster.Populated.range_hosts (h : R.Populated sys once e) :
    ((List.range R.hosts.card).map ((topologyGetter sys e.slot).topo.hostUidAt sys.hosts)).Perm
      (R.hosts.toList.map some) := by
  have hc := h.complete
  have hat : ∀ i < R.hosts.card,
      ∃ uid ∈ R.hosts, (topologyGetter sys e.slot).topo.hostUidAt sys.hosts i = some uid := by
    intro i hi
    obtain ⟨uid, hu, dh, huid, -, -⟩ := hc.hostData_of_lt h.config h.known (by rwa [hc.nHosts])
    exact ⟨uid, hu, huid⟩
  refine (List.perm_ext_iff_of_nodup ?_ ?_).2 fun o => ?_
  · refine List.nodup_range.map_on fun i hi j hj hij => ?_
    obtain ⟨uid, -, hu⟩ := hat i (List.mem_range.1 hi)
    rw [hu] at hij
    rw [← ((hc.hostUidAt_iff h.config h.known).1 hu).2, ((hc.hostUidAt_iff h.config h.known).1 hij.symm).2]
  · exact R.hosts.nodup_toList.map (Option.some_injective ℕ)
  · simp only [List.mem_map, List.mem_range, Finset.mem_toList]
    constructor
    · rintro ⟨i, hi, rfl⟩
      obtain ⟨uid, hmem, hu⟩ := hat i hi
      exact ⟨uid, hmem, hu.symm⟩
    · rintro ⟨uid, hmem, rfl⟩
      refine ⟨_, ?_, (hc.hostUidAt_iff h.config h.known).2 ⟨hmem, rfl⟩⟩
      exact (rank_lt_card (Finset.mem_image_of_mem _ hmem)).trans_le Finset.card_image_le

/-- The table of the hosts is as long as it says. -/
theorem Roster.Populated.length_hosts (h : R.Populated sys once e) :
    (topologyGetter sys e.slot).topo.hosts.length = R.hosts.card := by
  have hinj : Set.InjOn sys.hosts.lookupHostConfigIdx R.hosts := by
    intro uid hu uid' hu' he
    obtain ⟨r, hr, rfl⟩ := Roster.mem_hosts.1 hu
    obtain ⟨r', hr', rfl⟩ := Roster.mem_hosts.1 hu'
    exact h.config.idx_inj (h.known r hr) (h.known r' hr') he
  rw [h.complete.hosts_eq h.config h.known, Finset.length_sort, Finset.card_image_of_injOn hinj]

/-- A list is read place by place. -/
theorem map_eq_range_map {α β : Type} (f : α → Option β) (l : List α) :
    l.map f = (List.range l.length).map fun i => l[i]?.bind f := by
  refine List.ext_getElem (by simp) fun i hi hi' => ?_
  simp at hi
  simp [hi]

/-- The SPs of the hosts are those of the group, each once: an SP serves one host. -/
theorem Roster.spsOn_perm (R : Roster) :
    (R.hosts.toList.flatMap fun uid => (R.spsOn uid).sort).Perm R.group.toList := by
  refine (List.perm_ext_iff_of_nodup ?_ R.group.nodup_toList).2 fun sp => ?_
  · rw [List.nodup_flatMap]
    refine ⟨fun uid _ => Finset.sort_nodup _ _, R.hosts.nodup_toList.imp fun {uid uid'} hne sp hsp hsp' => hne ?_⟩
    obtain ⟨r, hr, rfl, hs⟩ := mem_spsOn.1 ((Finset.mem_sort _).1 hsp)
    exact ((mem_spsOn_host hr hs).1 ((Finset.mem_sort _).1 hsp')).symm
  · simp only [List.mem_flatMap, Finset.mem_toList, Finset.mem_sort]
    constructor
    · rintro ⟨uid, -, hsp⟩
      exact spsOn_subset_group hsp
    · intro hsp
      obtain ⟨r, hr, hs⟩ := mem_group.1 hsp
      exact ⟨R.host r, mem_hosts.2 ⟨r, hr, rfl⟩, (mem_spsOn_host hr hs).2 rfl⟩

/-- **The lists of hosts and SPs partition the SPs of a populated group exactly when** each SP has a bit and counts
each of its ranks once. -/
theorem lists_sps_iff (h : R.Populated sys once e) : ListsSps sys e.slot R ↔
    (∀ sp ∈ R.group, sp < (Bitset.create R.size).capacity) ∧ e.gp.topo.CountsOnce R := by
  have hc := h.complete
  refine ⟨fun hl => h.safe_iff.1 hl.safe, ?_⟩
  · rintro ⟨hbit, hone⟩
    have hs := h.safe hbit hone
    have hon : ∀ uid, inRange R.size (R.spsOn uid) = R.spsOn uid := fun uid =>
      inRange_of_lt fun sp hsp => hbit sp (Roster.spsOn_subset_group hsp)
    have hdata : ∀ uid dh, (topologyGetter sys e.slot).topo.hostsHash.lookup uid = some dh →
        dh.sps = (R.spsOn uid).sort ∧ dh.numSps = (R.spsOn uid).card := by
      intro uid dh hdh
      refine ⟨by rw [hc.hostSps hdh, hon], (hc.numSps hdh).2 fun sp hsp => ?_⟩
      exact hbit sp (Roster.spsOn_subset_group hsp)
    have heach : ∀ i uid, (topologyGetter sys e.slot).topo.hostUidAt sys.hosts i = some uid →
        getAllSpsByGroupHostIdx sys e.slot i = .success ((R.spsOn uid).sort, (R.spsOn uid).card) := by
      intro i uid hat
      obtain ⟨dh, hd, hdh⟩ := h.hostData_eq hat
      simp only [getAllSpsByGroupHostIdx, GroupCache.answer_safe hs, hd, Answer.read_some, hdata uid dh hdh]
    have hlen := h.length_hosts
    refine ⟨⟨(topologyGetter sys e.slot).topo.hosts, ?_, ?_⟩, heach, fun r hr => ?_, ?_⟩
    · rw [getAllHostsByGroup, GroupCache.answer_safe hs, hlen, hc.nHosts]
    · rw [map_eq_range_map, hlen]
      exact h.range_hosts
    · obtain ⟨dh, hdh⟩ := Option.isSome_iff_exists.1 (hc.lookup_host.2 (Roster.mem_hosts.2 ⟨r, hr, rfl⟩))
      simp only [getGroupRankSps, GroupCache.answer_safe hs, h.getGroupRankHost hr, hdh, Answer.read_some, hdata _ dh hdh]
    · -- what is read at a place is a function of the host there
      have hread : ∀ i < R.hosts.card, (getAllSpsByGroupHostIdx sys e.slot i).list =
          ((topologyGetter sys e.slot).topo.hostUidAt sys.hosts i).elim [] fun uid => (R.spsOn uid).sort := by
        intro i hi
        obtain ⟨uid, -, dh, hat, -, -⟩ := hc.hostData_of_lt h.config h.known (by rwa [hc.nHosts])
        rw [heach i uid hat, hat]
        rfl
      rw [List.flatMap_congr fun i hi => hread i (List.mem_range.1 hi)]
      have hperm := h.range_hosts.flatMap_right fun o => o.elim [] fun uid => (R.spsOn uid).sort
      rw [List.flatMap_map, List.flatMap_map] at hperm
      exact hperm.trans R.spsOn_perm

/-- Two ranks, on the SPs 0 and 1 of two hosts. -/
theorem lists_sps_pair : ∃ e : Engine, pairRoster.Populated hostCtx True e ∧ ListsSps hostCtx e.slot pairRoster := by
  obtain ⟨e, he⟩ := pairRoster_populated
  exact ⟨e, he, (lists_sps_iff he).2 ⟨by decide, he.countsOnce trivial⟩⟩

/-! ### The ranks of the SPs -/

/-- The lists of the ranks of the SPs. -/
structure ListsRanks (ctx : GpCtx) (slot : Option GroupCache) (R : Roster) : Prop where
  /-- The ranks of the SP with a number in the group, in order, and how many they are. -/
  byGid : ∀ sp ∈ R.group, getAllRanksByGroupSpGid ctx slot (rank R.group sp) =
    .success ((R.ranksOf sp).sort, (R.ranksOf sp).card)
  /-- The same, by its host and its number there. -/
  byLid : ∀ i uid, (topologyGetter ctx slot).topo.hostUidAt ctx.hosts i = some uid → ∀ sp ∈ R.spsOn uid,
    getAllRanksByGroupSpLid ctx slot i (rank (R.spsOn uid) sp) = .success ((R.ranksOf sp).sort, (R.ranksOf sp).card)
  /-- All of them, SP by SP: each rank once for each of its SPs. -/
  all : ((List.range R.group.card).flatMap fun i => (getAllRanksByGroupSpGid ctx slot i).list).Perm
    ((List.range R.size).flatMap fun r => List.replicate (R.sps r).length r)

/-- Each rank is one of the ranks of each of its SPs. -/
theorem Roster.ranksOf_perm (R : Roster) : (R.group.toList.flatMap fun sp => (R.ranksOf sp).sort).Perm
    ((List.range R.size).flatMap fun r => List.replicate (R.sps r).length r) := by
  refine List.perm_iff_count.2 fun r => ?_
  have hleft : ∀ sp, List.count r (R.ranksOf sp).sort = if r < R.size ∧ sp ∈ R.sps r then 1 else 0 := by
    intro sp
    simp only [(Finset.sort_nodup (R.ranksOf sp) _).count, Finset.mem_sort, mem_ranksOf]
  have hright : ∀ q, List.count r (List.replicate (R.sps q).length q) = if q = r then (R.sps q).length else 0 := by
    intro q
    simp only [List.count_replicate, beq_iff_eq]
  simp only [List.count_flatMap, Function.comp_def, hleft, hright]
  rw [Finset.sum_map_toList, ← Finset.card_filter, ← List.sum_toFinset _ List.nodup_range, Finset.sum_ite_eq']
  -- both count the SPs of the rank
  split
  · rename_i hr
    rw [List.mem_toFinset, List.mem_range] at hr
    rw [← List.toFinset_card_of_nodup (R.nodup r)]
    refine congrArg Finset.card (Finset.ext fun sp => ?_)
    rw [Finset.mem_filter, List.mem_toFinset]
    exact ⟨fun h => h.2.2, fun h => ⟨mem_group.2 ⟨r, hr, h⟩, hr, h⟩⟩
  · rename_i hr
    rw [List.mem_toFinset, List.mem_range] at hr
    exact Finset.card_eq_zero.2 (Finset.filter_eq_empty_iff.2 fun sp _ h => hr h.1)

/-- The ranks of the SP at a place of the table. -/
theorem Roster.Populated.getAllRanksByGroupSpGid_eq (h : R.Populated sys True e)
    (hs : (topologyGetter sys e.slot).topo.fault = false) {sp : ℕ} (hsp : sp ∈ R.group)
    (hlt : sp < (inRange R.size R.group).card) :
    getAllRanksByGroupSpGid sys e.slot sp = .success ((R.ranksOf sp).sort, (R.ranksOf sp).card) := by
  obtain ⟨d, hd⟩ := Option.isSome_iff_exists.1 (h.complete.lookup_sp.2 hsp)
  simp only [getAllRanksByGroupSpGid, GroupCache.answer_safe hs, h.complete.spData_eq, if_pos hlt, hd, Answer.read_some,
    h.complete.spRanks trivial hd, h.complete.nRanks trivial hd]

/-- Only the first SPs of the engine are in the table. -/
theorem Roster.Populated.mem_of_success (h : R.Populated sys True e) {i : ℕ} {l : List ℕ × ℕ}
    (hl : getAllRanksByGroupSpGid sys e.slot i = .success l) : i ∈ R.group ∧ i < (inRange R.size R.group).card := by
  unfold getAllRanksByGroupSpGid at hl
  have hs := GroupCache.safe_of_success hl
  dsimp only at hl
  rw [GroupCache.answer_safe hs, h.complete.spData_eq] at hl
  by_cases hlt : i < (inRange R.size R.group).card
  · rw [if_pos hlt] at hl
    refine ⟨h.complete.lookup_sp.1 ?_, hlt⟩
    cases hd : (topologyGetter sys e.slot).topo.spsHash.lookup i with
    | none =>
      rw [hd] at hl
      cases hl
    | some d => rfl
  · rw [if_neg hlt] at hl
    cases hl

/-- **The lists of ranks are those of the SPs of a populated group exactly when** these are the first SPs of the
engine, each with a bit. -/
theorem lists_ranks_iff (h : R.Populated sys True e) : ListsRanks sys e.slot R ↔ R.Packed := by
  have hc := h.complete
  rw [Roster.packed_iff]
  constructor
  · intro hl
    -- the number of an SP is an SP of the table
    have hnum : ∀ i < R.group.card, i ∈ R.group ∧ i < (inRange R.size R.group).card := by
      intro i hi
      obtain ⟨sp, hsp, rfl⟩ := exists_rank_eq hi
      exact h.mem_of_success (hl.byGid sp hsp)
    have hsub : Finset.range R.group.card ⊆ R.group := fun i hi => (hnum i (Finset.mem_range.1 hi)).1
    refine ⟨(Finset.eq_of_subset_of_card_le hsub (Finset.card_range _).ge).symm, ?_⟩
    by_contra hcap
    rw [not_le] at hcap
    have hbits : (inRange R.size R.group).card ≤ (Bitset.create R.size).capacity := by
      have hin : inRange R.size R.group ⊆ Finset.range (Bitset.create R.size).capacity := fun i hi =>
        Finset.mem_range.2 (Finset.mem_filter.1 hi).2
      simpa using Finset.card_le_card hin
    exact absurd (hnum _ hcap).2 (not_lt.2 hbits)
  · rintro ⟨hrange, hcap⟩
    have hlt : ∀ sp ∈ R.group, sp < R.group.card := fun sp hsp => by
      rw [hrange] at hsp
      exact Finset.mem_range.1 hsp
    have hbits : inRange R.size R.group = R.group := inRange_of_lt fun sp hsp => (hlt sp hsp).trans_le hcap
    have hs := h.safe (fun sp hsp => (hlt sp hsp).trans_le hcap) (h.countsOnce trivial)
    have hget : ∀ i < R.group.card, getAllRanksByGroupSpGid sys e.slot i =
        .success ((R.ranksOf i).sort, (R.ranksOf i).card) := by
      intro i hi
      have hmem : i ∈ R.group := by
        rw [hrange]
        exact Finset.mem_range.2 hi
      exact h.getAllRanksByGroupSpGid_eq hs hmem (by rwa [hbits])
    refine ⟨fun sp hsp => ?_, fun i uid hat sp hsp => ?_, ?_⟩
    · have hrank : rank R.group sp = sp := by
        rw [hrange]
        exact rank_range (hlt sp hsp).le
      rw [hrank]
      exact hget sp (hlt sp hsp)
    · have hmem : sp ∈ R.group := Roster.spsOn_subset_group hsp
      have hon : inRange R.size (R.spsOn uid) = R.spsOn uid :=
        inRange_of_lt fun x hx => (hlt x (Roster.spsOn_subset_group hx)).trans_le hcap
      obtain ⟨dh, hdata, hdh⟩ := h.hostData_eq hat
      obtain ⟨d, hd⟩ := Option.isSome_iff_exists.1 (hc.lookup_sp.2 hmem)
      have hplace : dh.sps[rank (R.spsOn uid) sp]? = some sp := by
        rw [hc.hostSps hdh, hon]
        exact getElem?_sort.2 ⟨hsp, rfl⟩
      simp only [getAllRanksByGroupSpLid, GroupCache.answer_safe hs, hdata, Answer.read_some, hplace, Option.bind_some, hd,
        hc.spRanks trivial hd, hc.nRanks trivial hd]
    · have hfirst : (List.range R.group.card).Perm R.group.toList := by
        refine (List.perm_ext_iff_of_nodup List.nodup_range R.group.nodup_toList).2 fun sp => ?_
        rw [List.mem_range, Finset.mem_toList, ← Finset.mem_range, ← hrange]
      rw [List.flatMap_congr fun i hi => congrArg Answer.list (hget i (List.mem_range.1 hi))]
      exact (hfirst.flatMap_right _).trans R.ranksOf_perm

/-- Two ranks, on the SPs 0 and 1 of two hosts. -/
theorem lists_ranks_pair :
    ∃ e : Engine, pairRoster.Populated hostCtx True e ∧ ListsRanks hostCtx e.slot pairRoster := by
  obtain ⟨e, he⟩ := pairRoster_populated
  exact ⟨e, he, (lists_ranks_iff he).2 packed_pairLayout⟩

end DpuOffload
