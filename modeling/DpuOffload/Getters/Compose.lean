import DpuOffload.Getters.Complete

/-!
# Ids that one getter returns and another takes

`get_global_sp_id_by_group` and `get_nth_sp_by_group_host_idx` return an id of an SP that
`get_num_ranks_for_group_sp` takes. What they return is the id in the engine; what it takes is a place in
the table of the group's SPs, and that table has the SP of the engine at each place. So the three
agree when the SPs of the group are the first ones of the engine, and have a bit, and each rank was counted once
(`compose_ids_iff`). The first does not fill the tables: it finds its SP only in tables that are filled.
-/

namespace DpuOffload

open Rank

variable {R : Roster} {sys : GpCtx} {once : Prop} {e : Engine}

/-- The id that one getter returns stands for the same SP in the other. -/
structure ComposesIds (ctx : GpCtx) (slot : Option GroupCache) (R : Roster) : Prop where
  /-- On an SP of the group: its own id, and its ranks. -/
  own : ctx.onDpu = true → ctx.globalId ∈ R.group → ∃ id, getGlobalSpIdByGroup ctx slot = .success id ∧
    getNumRanksForGroupSp ctx slot id = .success (R.ranksOf ctx.globalId).card
  /-- The `n`-th SP of a host, and its ranks. -/
  nth : ∀ h < (topologyGetter ctx slot).topo.nHosts, ∃ uid, (topologyGetter ctx slot).topo.hostUidAt ctx.hosts h = some uid ∧
    ∀ n < (R.spsOn uid).card, ∃ id k, getNthSpByGroupHostIdx ctx slot h n = .success id ∧
      getNumRanksForGroupSp ctx slot id = .success k ∧ getNumRanksForGroupHostLocalSp ctx slot h n = .success k

/-! ### The table of the SPs -/

theorem Complete.sps_eq {cfg : HostsConfig} {g : GroupCache} (h : Complete cfg R once g) :
    g.topo.sps = List.range (inRange R.size R.group).card := by
  have hle : (inRange R.size R.group).card ≤ R.group.card := Finset.card_le_card (Finset.filter_subset _ _)
  rw [h.tables.sps, h.nSps, h.bits_sps, min_eq_right hle]

/-- The SP at a place of the table is the one of the engine with that number. -/
theorem Complete.spData_eq {cfg : HostsConfig} {g : GroupCache} (h : Complete cfg R once g) (i : ℕ) :
    g.topo.spData i = if i < (inRange R.size R.group).card then g.topo.spsHash.lookup i else none := by
  rw [Topology.spData, h.sps_eq]
  split
  · rename_i hi
    rw [List.getElem?_range hi, Option.bind_some]
  · rename_i hi
    rw [List.getElem?_eq_none (by rw [List.length_range]; exact not_lt.1 hi), Option.bind_none]

/-- An SP finds itself in a table of the SPs `0`, `1` and so on. -/
theorem findSp_range {m gid : ℕ} (j k : ℕ) (hk : k ≤ gid) (hj : gid < k + j) (hm : k + j ≤ m) :
    findSp (List.range m) gid (List.range' k j) = .success gid := by
  induction j generalizing k with
  | zero => omega
  | succ j ih =>
    rw [List.range'_succ, findSp, List.getElem?_range (by omega), Answer.read_some]
    rcases hk.eq_or_lt with rfl | hlt
    · exact if_pos rfl
    · rw [if_neg hlt.ne]
      exact ih (k + 1) hlt (by omega) (by omega)

/-! ### The SPs of a host -/

/-- The `n`-th SP of a host, when it has that many with a bit. -/
theorem Roster.Populated.nthSp (h : R.Populated sys once e) (hs : (topologyGetter sys e.slot).topo.fault = false)
    {i uid n : ℕ} (hat : (topologyGetter sys e.slot).topo.hostUidAt sys.hosts i = some uid) :
    (∃ sp d, sp ∈ inRange R.size (R.spsOn uid) ∧ rank (inRange R.size (R.spsOn uid)) sp = n ∧
      (topologyGetter sys e.slot).topo.spsHash.lookup sp = some d ∧
      getNthSpByGroupHostIdx sys e.slot i n = .success sp ∧
      getNumRanksForGroupHostLocalSp sys e.slot i n = .success d.nRanks) ∨
    (inRange R.size (R.spsOn uid)).card ≤ n ∧ (getNthSpByGroupHostIdx sys e.slot i n).ok = false := by
  have hc := h.complete
  obtain ⟨dh, hdh⟩ := Option.isSome_iff_exists.1 (hc.lookup_host.2 ((hc.hostUidAt_iff h.config h.known).1 hat).1)
  have hdata : (topologyGetter sys e.slot).topo.hostData sys.hosts i = some dh := by
    rw [Topology.hostData, hat, Option.bind_some, hdh]
  have hsps := hc.hostSps hdh
  have hnum := (hc.numSps hdh).1
  rcases lt_or_ge n (inRange R.size (R.spsOn uid)).card with hn | hn
  · obtain ⟨sp, hsp, hrank⟩ := exists_rank_eq hn
    have hget : dh.sps[n]? = some sp := by
      rw [hsps]
      exact getElem?_sort.2 ⟨hsp, hrank⟩
    have hmem : sp ∈ R.group := Roster.spsOn_subset_group (Finset.mem_filter.1 hsp).1
    obtain ⟨d, hd⟩ := Option.isSome_iff_exists.1 (hc.lookup_sp.2 hmem)
    have hno : ¬ n ≥ dh.numSps := by omega
    refine .inl ⟨sp, d, hsp, hrank, hd, ?_, ?_⟩
    · simp only [getNthSpByGroupHostIdx, GroupCache.answer_safe hs, hdata, Answer.read_some, if_neg hno, hget, Option.bind_some, hd, hc.gid hd]
    · simp only [getNumRanksForGroupHostLocalSp, GroupCache.answer_safe hs, hdata, Answer.read_some, if_neg hno, hget, Option.bind_some, hd]
  · refine .inr ⟨hn, ?_⟩
    have hget : dh.sps[n]? = none := by
      rw [hsps]
      exact List.getElem?_eq_none (by rwa [Finset.length_sort])
    simp only [getNthSpByGroupHostIdx, GroupCache.answer_safe hs, hdata, Answer.read_some, hget, Option.bind_none,
      Answer.read_none]
    split <;> rfl

/-- How many ranks an SP of the table has. -/
theorem Roster.Populated.numRanks_of_lt (h : R.Populated sys once e)
    (hs : (topologyGetter sys e.slot).topo.fault = false) {sp : ℕ} {d : SpCacheData} (hlt : sp < (inRange R.size R.group).card)
    (hd : (topologyGetter sys e.slot).topo.spsHash.lookup sp = some d) :
    getNumRanksForGroupSp sys e.slot sp = .success d.nRanks := by
  simp only [getNumRanksForGroupSp, GroupCache.answer_safe hs, h.complete.spData_eq, if_pos hlt, hd, Answer.read_some]

/-- The table has as many places as there are SPs with a bit. -/
theorem Roster.Populated.lt_of_numRanks (h : R.Populated sys once e) {sp k : ℕ}
    (hk : getNumRanksForGroupSp sys e.slot sp = .success k) : sp < (inRange R.size R.group).card := by
  by_contra hno
  unfold getNumRanksForGroupSp at hk
  have hs := GroupCache.safe_of_success hk
  dsimp only at hk
  rw [GroupCache.answer_safe hs, h.complete.spData_eq, if_neg hno, Answer.read_none] at hk
  cases hk

/-! ### When they agree -/

/-- The SPs of a packed group. -/
theorem Roster.packed_iff : R.Packed ↔ R.group = Finset.range R.group.card ∧ R.group.card ≤ (Bitset.create R.size).capacity := by
  constructor
  · rintro ⟨k, hk, hp⟩
    have hg : R.group = Finset.range k := by
      ext sp
      rw [Roster.mem_group, hp, Finset.mem_range]
    rw [hg, Finset.card_range]
    exact ⟨rfl, hk⟩
  · rintro ⟨hg, hk⟩
    refine ⟨R.group.card, hk, fun sp => ?_⟩
    rw [← Roster.mem_group, ← Finset.mem_range, ← hg]

/-- Getters whose ids compose leave no bitset. -/
theorem ComposesIds.safe (h : R.Populated sys once e) (hc : ComposesIds sys e.slot R) :
    (topologyGetter sys e.slot).topo.fault = false := by
  have hpos : 0 < (topologyGetter sys e.slot).topo.nHosts := by
    rw [h.complete.nHosts]
    exact Finset.card_pos.2 ⟨_, Roster.mem_hosts.2 ⟨0, h.complete.pos, rfl⟩⟩
  obtain ⟨uid, hat, hn⟩ := hc.nth 0 hpos
  -- a host of the group has an SP
  obtain ⟨r, hr, rfl⟩ := Roster.mem_hosts.1 ((h.complete.hostUidAt_iff h.config h.known).1 hat).1
  obtain ⟨sp, hsp⟩ := List.exists_mem_of_ne_nil _ (R.sps_ne r hr)
  obtain ⟨id, k, hid, -⟩ := hn 0 (Finset.card_pos.2 ⟨sp, (Roster.mem_spsOn_host hr hsp).2 rfl⟩)
  unfold getNthSpByGroupHostIdx at hid
  exact GroupCache.safe_of_success hid

/-- Ids that compose are those of the first SPs of the engine. -/
theorem ComposesIds.packed (h : R.Populated sys once e) (hc : ComposesIds sys e.slot R) : R.Packed := by
  have hs := hc.safe h
  have hall : ∀ sp ∈ R.group, sp < (Bitset.create R.size).capacity ∧ sp < (inRange R.size R.group).card := by
    intro sp hsp
    obtain ⟨r, hr, hspr⟩ := Roster.mem_group.1 hsp
    have hmem : sp ∈ R.spsOn (R.host r) := (Roster.mem_spsOn_host hr hspr).2 rfl
    -- the host of the SP, and its number there
    have hat := (h.complete.hostUidAt_iff h.config h.known).2 ⟨Roster.mem_hosts.2 ⟨r, hr, rfl⟩, rfl⟩
    have hi : rank (R.hosts.image sys.hosts.lookupHostConfigIdx) (sys.hosts.lookupHostConfigIdx (R.host r)) <
        (topologyGetter sys e.slot).topo.nHosts := by
      rw [h.complete.nHosts]
      refine (rank_lt_card (Finset.mem_image_of_mem _ (Roster.mem_hosts.2 ⟨r, hr, rfl⟩))).trans_le Finset.card_image_le
    obtain ⟨uid, huid, hn⟩ := hc.nth _ hi
    obtain rfl : uid = R.host r := Option.some.inj (huid.symm.trans hat)
    have hbits : inRange R.size (R.spsOn (R.host r)) = R.spsOn (R.host r) := by
      refine Finset.eq_of_subset_of_card_le (Finset.filter_subset _ _) ?_
      by_contra hlt
      rw [not_le] at hlt
      obtain ⟨id, k, hid, -⟩ := hn _ hlt
      rcases h.nthSp hs hat with ⟨x, -, hx, hrank, -⟩ | ⟨-, hno⟩
      · exact absurd (rank_lt_card hx) (by rw [hrank]; exact lt_irrefl _)
      · rw [hid] at hno
        cases hno
    obtain ⟨id, k, hid, hk, -⟩ := hn _ (rank_lt_card hmem)
    rcases h.nthSp (n := rank (R.spsOn (R.host r)) sp) hs hat with ⟨x, d, hx, hrank, -, hget, -⟩ | ⟨-, hno⟩
    · rw [hbits] at hx hrank
      obtain rfl : x = sp := (strictMonoOn_rank _).injOn hx hmem hrank
      rw [hget] at hid
      cases hid
      rw [← hbits] at hmem
      exact ⟨(Finset.mem_filter.1 hmem).2, h.lt_of_numRanks hk⟩
    · rw [hid] at hno
      cases hno
  have hbits : inRange R.size R.group = R.group := inRange_of_lt fun sp hsp => (hall sp hsp).1
  rw [hbits] at hall
  have hrange : R.group = Finset.range R.group.card := by
    refine Finset.eq_of_subset_of_card_le (fun sp hsp => Finset.mem_range.2 (hall sp hsp).2) ?_
    rw [Finset.card_range]
  refine Roster.packed_iff.2 ⟨hrange, ?_⟩
  have hsub : R.group ⊆ Finset.range (Bitset.create R.size).capacity := fun sp hsp => Finset.mem_range.2 (hall sp hsp).1
  simpa using Finset.card_le_card hsub

/-- What an SP reads to look itself up. -/
theorem getGlobalSpIdByGroup_eq {slot : Option GroupCache} (h : sys.onDpu = true) :
    getGlobalSpIdByGroup sys slot = (getGroupCache sys.gpUid slot).answer
      (findSp (getGroupCache sys.gpUid slot).topo.sps sys.globalId (List.range' 0 (getGroupCache sys.gpUid slot).topo.nSps)) := by
  simp only [getGlobalSpIdByGroup, h, Bool.not_true, Bool.false_eq_true, if_false, List.range_eq_range']

/-- An SP finds itself only in a table that is filled. -/
theorem ComposesIds.filled (h : R.Populated sys once e) (hc : ComposesIds sys e.slot R) (hdpu : sys.onDpu = true)
    (hmem : sys.globalId ∈ R.group) : e.gp.topo.lookupTablesPopulated = true := by
  cases hp : e.gp.topo.lookupTablesPopulated with
  | true => rfl
  | false =>
    obtain ⟨id, hid, -⟩ := hc.own hdpu hmem
    obtain ⟨-, hsame, hget⟩ := complete_of_reach h.uid h.globalId h.run h.pos h.full
    have hempty : e.gp.topo.sps = [] := (seated_of_reach h.uid h.globalId h.run).unfilled hp
    have hn : e.gp.topo.nSps = R.group.card := by
      rw [← h.complete.nSps, hget]
      exact (doPopulate_fields hp).1.symm
    obtain ⟨k, hk⟩ := Nat.exists_eq_succ_of_ne_zero (Finset.card_pos.2 ⟨_, hmem⟩).ne'
    rw [getGlobalSpIdByGroup_eq hdpu, hsame] at hid
    have hs := GroupCache.safe_of_success hid
    rw [GroupCache.answer_safe hs, hempty, hn, hk, List.range'_succ] at hid
    cases hid

/-- **The ids compose exactly when** the SPs of the group are the first ones of the engine, each with a bit, each rank is
counted once, and the tables are filled when an SP of the group looks itself up. -/
theorem compose_ids_iff (h : R.Populated sys (sys.onDpu = true) e) :
    ComposesIds sys e.slot R ↔ R.Packed ∧ e.gp.topo.CountsOnce R ∧
      (sys.onDpu = true → sys.globalId ∈ R.group → e.gp.topo.lookupTablesPopulated = true) := by
  refine ⟨fun hc => ⟨hc.packed h, (h.safe_iff.1 (hc.safe h)).2, fun hdpu hmem => hc.filled h hdpu hmem⟩, ?_⟩
  rintro ⟨hp, hone, hfill⟩
  obtain ⟨hrange, hcap⟩ := Roster.packed_iff.1 hp
  have hlt : ∀ sp ∈ R.group, sp < R.group.card := fun sp hsp => by
    rw [hrange] at hsp
    exact Finset.mem_range.1 hsp
  have hbits : inRange R.size R.group = R.group := inRange_of_lt fun sp hsp => (hlt sp hsp).trans_le hcap
  have hs := h.safe (fun sp hsp => (hlt sp hsp).trans_le hcap) hone
  constructor
  · intro hdpu hmem
    obtain ⟨-, hsame, hget⟩ := complete_of_reach h.uid h.globalId h.run h.pos h.full
    have htopo : e.gp.topo = (topologyGetter sys e.slot).topo := by
      rw [hget]
      exact (doPopulate_of_populated (hfill hdpu hmem)).symm
    have hfind : getGlobalSpIdByGroup sys e.slot = .success sys.globalId := by
      rw [getGlobalSpIdByGroup_eq hdpu, hsame, GroupCache.answer_safe (htopo ▸ hs), htopo, h.complete.sps_eq,
        h.complete.nSps, hbits]
      have hself : sys.globalId < 0 + R.group.card := by
        rw [Nat.zero_add]
        exact hlt _ hmem
      exact findSp_range R.group.card 0 (Nat.zero_le _) hself (Nat.zero_add _).le
    obtain ⟨d, hd⟩ := Option.isSome_iff_exists.1 (h.complete.lookup_sp.2 hmem)
    refine ⟨sys.globalId, hfind, ?_⟩
    rw [h.numRanks_of_lt hs (by rw [hbits]; exact hlt _ hmem) hd, h.complete.nRanks hdpu hd]
  · intro i hi
    obtain ⟨uid, -, dh, hat, -, -⟩ := h.complete.hostData_of_lt h.config h.known hi
    refine ⟨uid, hat, fun n hn => ?_⟩
    have hon : inRange R.size (R.spsOn uid) = R.spsOn uid :=
      inRange_of_lt fun sp hsp => (hlt sp (Roster.spsOn_subset_group hsp)).trans_le hcap
    rcases h.nthSp (n := n) hs hat with ⟨sp, d, hsp, -, hd, hget, hranks⟩ | ⟨hle, -⟩
    · have hmem : sp ∈ R.group := Roster.spsOn_subset_group (Finset.mem_filter.1 hsp).1
      exact ⟨sp, d.nRanks, hget, h.numRanks_of_lt hs (by rw [hbits]; exact hlt sp hmem) hd, hranks⟩
    · rw [hon] at hle
      omega

/-- Two ranks, on the SPs 0 and 1, and SP 0 looks itself up. -/
theorem compose_ids_pair : ∃ e : Engine, ∃ sys : GpCtx, sys.onDpu = true ∧ sys.globalId ∈ pairRoster.group ∧
    pairRoster.Populated sys (sys.onDpu = true) e ∧ ComposesIds sys e.slot pairRoster := by
  obtain ⟨e, he, hp⟩ := pairRoster.exists_populated { hostCtx with onDpu := true } (true = true)
    (fun e => e.gp.topo.lookupTablesPopulated = true)
    (by decide) (by decide) hostCtx_valid (by decide) (by decide)
    [({ hostCtx with onDpu := true }, .event (.peerCacheEntries 0 [peerEntry 2 0 70 [0]])),
      ({ hostCtx with onDpu := true }, .event (.peerCacheEntries 1 [peerEntry 2 1 71 [1]]))] (by decide)
  have hpack : pairRoster.Packed := packed_pairLayout
  exact ⟨e, { hostCtx with onDpu := true }, rfl, by decide, he, (compose_ids_iff he).2 ⟨hpack, he.countsOnce rfl, fun _ _ => hp⟩⟩

/-- **Not on every group.** One rank on SP 1 of two: the first SP of its host is SP 1, and there is no such
place in the table. -/
theorem not_composesIds : ¬ ∀ (R : Roster) (sys : GpCtx) (e : Engine), R.Populated sys (sys.onDpu = true) e →
    ComposesIds sys e.slot R := by
  intro h
  obtain ⟨e, he, hid, hno⟩ := (loneRoster 1).exists_populated hostCtx (hostCtx.onDpu = true)
    (fun e => getNthSpByGroupHostIdx hostCtx e.slot 0 0 = .success 1 ∧ getNumRanksForGroupSp hostCtx e.slot 1 = .fault)
    (by decide) (by decide) hostCtx_valid (by decide) (by decide)
    [(hostCtx, .event (.peerCacheEntries 0 [peerEntry 1 0 70 [1]]))] (by decide)
  have hpos : 0 < (topologyGetter hostCtx e.slot).topo.nHosts := by
    rw [he.complete.nHosts]
    decide
  obtain ⟨uid, hat, hn⟩ := (h _ _ e he).nth 0 hpos
  have huid : uid = 70 := by
    have hmem := ((he.complete.hostUidAt_iff he.config he.known).1 hat).1
    obtain ⟨r, -, rfl⟩ := Roster.mem_hosts.1 hmem
    rfl
  subst huid
  obtain ⟨id, k, hget, hk, -⟩ := hn 0 (by decide)
  rw [hid] at hget
  cases hget
  rw [hno] at hk
  cases hk

end DpuOffload
