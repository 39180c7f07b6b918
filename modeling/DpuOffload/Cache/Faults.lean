import DpuOffload.Cache.TopologyTables

/-!
# Accesses that leave a bitset

`fault` is set when a run of `update_topology_data`, or the loops that fill the tables, access a bit
that a bitset does not have. What it is depends on the runs and not on their order (`Faults`): it is
set when one of them has no bit for its rank, its SP or its host, and, once the tables are filled,
when the counters promise more bits than there are.
-/

namespace DpuOffload

open TopoUpdate

/-- The bits of a run of `update_topology_data` exist. -/
structure TopoUpdate.HasBits (cfg : HostsConfig) (n : ℕ) (u : TopoUpdate) : Prop where
  /-- That of the rank. -/
  rank : u.rank < (Bitset.create n).capacity
  /-- That of the SP. -/
  sp : u.sp < (Bitset.create n).capacity
  /-- That of the host. -/
  host : cfg.lookupHostConfigIdx u.host < (Bitset.create cfg.numHosts).capacity

/-- **What `fault` says** after the runs `us`. -/
def Topology.Faults (cfg : HostsConfig) (n : ℕ) (us : List TopoUpdate) (t : Topology) : Prop :=
  t.fault = true ↔ (∃ u ∈ us, ¬ u.HasBits cfg n) ∨ t.lookupTablesPopulated = true ∧ t.scansEnd = false

variable {cfg : HostsConfig} {n : ℕ} {us us' : List TopoUpdate} {u : TopoUpdate} {t t' : Topology}

theorem inBounds_natCast {c i : ℕ} : BitAccess.InBounds ⟨c, i⟩ ↔ i < c := by
  simp only [BitAccess.InBounds, Int.natCast_nonneg, Int.ofNat_lt, true_and]

theorem leaves_eq_false_iff {as : List BitAccess} : leaves as = false ↔ ∀ a ∈ as, a.InBounds := by
  rw [leaves, Bool.not_eq_false', decide_eq_true_eq]

theorem faults_empty (cfg : HostsConfig) (n : ℕ) : Topology.empty.Faults cfg n [] := by
  simp [Topology.Faults, Topology.empty]

/-! ### Runs -/

/-- What is accessed for an SP and a host, after runs whose bits exist. -/
theorem Topology.Records.leaves_iff (h : t.Records cfg n us) (hall : ∀ v ∈ us, v.HasBits cfg n) :
    leaves (t.spAccesses n u.rank u.sp) = false ∧ leaves (t.hostAccesses cfg n u.rank u.sp u.host) = false ↔
      u.HasBits cfg n := by
  have hcs : (bitsetCreate t.spsBitset n).capacity = (Bitset.create n).capacity := h.sps.marks.capacity
  have hch : (bitsetCreate t.hostsBitset cfg.numHosts).capacity = (Bitset.create cfg.numHosts).capacity :=
    h.hosts.marks.capacity
  have hsp : leaves (t.spAccesses n u.rank u.sp) = false ↔
      u.rank < (Bitset.create n).capacity ∧ (t.spsHash.lookup u.sp = none → u.sp < (Bitset.create n).capacity) := by
    rw [leaves_eq_false_iff, Topology.spAccesses]
    cases hd : t.spsHash.lookup u.sp with
    | none => simp [inBounds_natCast, hcs, and_comm]
    | some d => simp [inBounds_natCast, (h.sps.data _ d hd).ranks.capacity]
  have hhost : leaves (t.hostAccesses cfg n u.rank u.sp u.host) = false ↔
      u.sp < (Bitset.create n).capacity ∧ u.rank < (Bitset.create n).capacity ∧
        (t.hostsHash.lookup u.host = none → cfg.lookupHostConfigIdx u.host < (Bitset.create cfg.numHosts).capacity) := by
    rw [leaves_eq_false_iff, Topology.hostAccesses]
    cases hd : t.hostsHash.lookup u.host with
    | none => simp [inBounds_natCast, hch, and_comm]
    | some d =>
      have hrec := h.hosts.data _ d hd
      simp only [hrec.sps.capacity, hrec.ranks.capacity]
      split <;> simp [inBounds_natCast]
  rw [hsp, hhost]
  constructor
  · rintro ⟨-, hs, hr, hno⟩
    refine ⟨hr, hs, ?_⟩
    cases hd : t.hostsHash.lookup u.host with
    | none => exact hno hd
    | some d =>
      -- the host has had a run
      have hkey : u.host ∈ t.hostsHash := AList.lookup_isSome.1 (by rw [hd]; rfl)
      obtain ⟨v, hv, hvu⟩ := mem_hostsOf.1 ((h.hosts.keys u.host).1 hkey)
      exact hvu ▸ (hall v hv).host
  · exact fun hu => ⟨⟨hu.rank, fun _ => hu.sp⟩, hu.sp, hu.rank, fun _ => hu.host⟩

theorem updateSp_fault (t : Topology) (gpUid : ℤ) (n r sp host : ℕ) :
    (t.updateSp gpUid n r sp host).fault = (t.fault || leaves (t.spAccesses n r sp)) ∧
      (t.updateSp gpUid n r sp host).hostsHash = t.hostsHash ∧
      (t.updateSp gpUid n r sp host).hostsBitset = t.hostsBitset := by
  unfold Topology.updateSp
  split <;> exact ⟨rfl, rfl, rfl⟩

theorem updateHost_fault (t : Topology) (cfg : HostsConfig) (n r sp host : ℕ) :
    (t.updateHost cfg n r sp host).fault = (t.fault || leaves (t.hostAccesses cfg n r sp host)) := by
  unfold Topology.updateHost
  split <;> rfl

/-- When `update_topology_data` sets `fault`. -/
theorem update_fault (t : Topology) (cfg : HostsConfig) (gpUid : ℤ) (n : ℕ) (u : TopoUpdate) :
    (t.update cfg gpUid n u).fault =
      (t.fault || (leaves (t.spAccesses n u.rank u.sp) || leaves (t.hostAccesses cfg n u.rank u.sp u.host))) := by
  obtain ⟨hf, hh, hb⟩ := updateSp_fault t gpUid n u.rank u.sp u.host
  have hacc : (t.updateSp gpUid n u.rank u.sp u.host).hostAccesses cfg n u.rank u.sp u.host =
      t.hostAccesses cfg n u.rank u.sp u.host := by
    simp only [Topology.hostAccesses, hh, hb]
  rw [Topology.update, Topology.updateTopologyData, updateHost_fault, hf, hacc, Bool.or_assoc]

theorem update_populated (t : Topology) (cfg : HostsConfig) (gpUid : ℤ) (n : ℕ) (u : TopoUpdate) :
    (t.update cfg gpUid n u).lookupTablesPopulated = t.lookupTablesPopulated :=
  updates_populated cfg gpUid n u.rank u.host [u.sp] t

namespace Topology.Faults

/-- Until the tables are filled it is a matter of the runs. -/
theorem iff_of_not_populated (h : t.Faults cfg n us) (hp : t.lookupTablesPopulated = false) :
    t.fault = true ↔ ∃ u ∈ us, ¬ u.HasBits cfg n := by
  unfold Topology.Faults at h
  simpa [hp] using h

theorem of_not_populated (hp : t.lookupTablesPopulated = false) (h : t.fault = true ↔ ∃ u ∈ us, ¬ u.HasBits cfg n) :
    t.Faults cfg n us := by
  unfold Topology.Faults
  simpa [hp] using h

/-- **A run**, before the tables are filled. -/
theorem update (h : t.Faults cfg n us) (hr : t.Records cfg n us) (hp : t.lookupTablesPopulated = false) (gpUid : ℤ)
    (u : TopoUpdate) : (t.update cfg gpUid n u).Faults cfg n (u :: us) := by
  have hold := h.iff_of_not_populated hp
  refine of_not_populated ((update_populated t cfg gpUid n u).trans hp) ?_
  rw [update_fault, Bool.or_eq_true, hold]
  by_cases hall : ∀ v ∈ us, v.HasBits cfg n
  · have hnone : ¬ ∃ v ∈ us, ¬ v.HasBits cfg n := fun ⟨v, hv, hno⟩ => hno (hall v hv)
    have hiff : (leaves (t.spAccesses n u.rank u.sp) || leaves (t.hostAccesses cfg n u.rank u.sp u.host)) = true ↔
        ¬ u.HasBits cfg n := by
      rw [← hr.leaves_iff hall, ← Bool.not_eq_false, Bool.or_eq_false_iff]
    rw [hiff]
    simp [hnone]
  · have hsome : ∃ v ∈ us, ¬ v.HasBits cfg n := by
      push Not at hall
      exact hall
    obtain ⟨v, hv, hno⟩ := hsome
    exact iff_of_true (.inl ⟨v, hv, hno⟩) ⟨v, List.mem_cons_of_mem _ hv, hno⟩

/-- The runs for all the shadow SPs of a rank. -/
theorem updates (gpUid : ℤ) (r host : ℕ) (gids : List ℕ) (h : t.Faults cfg n us) (hr : t.Records cfg n us)
    (hp : t.lookupTablesPopulated = false) :
    (gids.foldl (fun t sp => t.updateTopologyData cfg gpUid n r sp host) t).Faults cfg n
      ((gids.map fun sp => ⟨r, sp, host⟩).reverse ++ us) := by
  induction gids generalizing t us with
  | nil => exact h
  | cons sp gids ih =>
    rw [List.foldl_cons, List.map_cons, List.reverse_cons, List.append_assoc]
    exact ih (h.update hr hp gpUid ⟨r, sp, host⟩) (hr.update gpUid ⟨r, sp, host⟩)
      ((update_populated t cfg gpUid n ⟨r, sp, host⟩).trans hp)

/-- The order of the runs does not matter, nor how often a run is made. -/
theorem congr_runs (h : t.Faults cfg n us) (hm : ∀ u, u ∈ us ↔ u ∈ us') : t.Faults cfg n us' := by
  unfold Topology.Faults at h ⊢
  simpa only [hm] using h

end Topology.Faults

/-! ### Filling the tables -/

/-- **The loops that fill the tables end** where they should. -/
structure Topology.ScansEnd (t : Topology) : Prop where
  /-- The loop over the SPs. -/
  sps : t.nSps ≤ (t.spsBitset.getD []).bits.card
  /-- `populate_sp_ranks`. -/
  spRanks : ∀ gid d, t.spsHash.lookup gid = some d → d.nRanks ≤ (d.ranksBitset.getD []).bits.card
  /-- The loop over the hosts. -/
  hosts : t.nHosts ≤ (t.hostsBitset.getD []).bits.card
  /-- `populate_host_sps`. -/
  hostSps : ∀ uid d, t.hostsHash.lookup uid = some d → d.numSps ≤ (d.spsBitset.getD []).bits.card ∧
    ∀ gid ∈ (d.spsBitset.getD []).firstBits d.numSps, (t.spsHash.lookup gid).isSome = true

theorem scansEnd_iff : t.scansEnd = true ↔ t.ScansEnd := by
  simp only [Topology.scansEnd, Bool.and_eq_true, List.all_eq_true, Bitset.scanEnds_iff]
  constructor
  · rintro ⟨⟨⟨hs, hr⟩, hh⟩, hd⟩
    exact ⟨hs, fun gid d h => hr ⟨gid, d⟩ (AList.mem_lookup_iff.1 h), hh, fun uid d h => hd ⟨uid, d⟩ (AList.mem_lookup_iff.1 h)⟩
  · rintro ⟨hs, hr, hh, hd⟩
    exact ⟨⟨⟨hs, fun p hp => hr p.1 p.2 (AList.mem_lookup_iff.2 hp)⟩, hh⟩, fun p hp => hd p.1 p.2 (AList.mem_lookup_iff.2 hp)⟩

/-- Filling the tables changes none of what the loops read. -/
theorem scansEnd_doPopulate : t.doPopulateGroupCacheLookupTable.scansEnd = t.scansEnd := by
  cases hp : t.lookupTablesPopulated with
  | true => rw [doPopulate_of_populated hp]
  | false =>
    obtain ⟨hns, hnh, hbs, hbh, -⟩ := doPopulate_fields hp
    rw [Bool.eq_iff_iff, scansEnd_iff, scansEnd_iff]
    constructor
    · rintro ⟨hs, hr, hh, hd⟩
      rw [hns, hbs] at hs
      rw [hnh, hbh] at hh
      refine ⟨hs, fun gid d h => ?_, hh, fun uid d h => ?_⟩
      · have hlook := spsHash_doPopulate hp gid
        rw [h, Option.map_some] at hlook
        have hle := hr gid _ hlook
        exact hle
      · have hlook := hostsHash_doPopulate hp uid
        rw [h, Option.map_some] at hlook
        obtain ⟨hle, hfound⟩ := hd uid _ hlook
        refine ⟨hle, fun gid hg => ?_⟩
        have := hfound gid hg
        rwa [spsHash_doPopulate hp, Option.isSome_map] at this
    · rintro ⟨hs, hr, hh, hd⟩
      rw [← hns, ← hbs] at hs
      rw [← hnh, ← hbh] at hh
      refine ⟨hs, fun gid d h => ?_, hh, fun uid d h => ?_⟩
      · rw [spsHash_doPopulate hp] at h
        obtain ⟨d₀, h₀, rfl⟩ := Option.map_eq_some_iff.1 h
        exact hr gid d₀ h₀
      · rw [hostsHash_doPopulate hp] at h
        obtain ⟨d₀, h₀, rfl⟩ := Option.map_eq_some_iff.1 h
        refine ⟨(hd uid d₀ h₀).1, fun gid hg => ?_⟩
        rw [spsHash_doPopulate hp, Option.isSome_map]
        exact (hd uid d₀ h₀).2 gid hg

theorem Topology.Faults.doPopulate (h : t.Faults cfg n us) : t.doPopulateGroupCacheLookupTable.Faults cfg n us := by
  cases hp : t.lookupTablesPopulated with
  | true =>
    rw [doPopulate_of_populated hp]
    exact h
  | false =>
    have hf : t.doPopulateGroupCacheLookupTable.fault = (t.fault || !t.scansEnd) := by
      simp only [Topology.doPopulateGroupCacheLookupTable, hp, Bool.false_eq_true, if_false]
    unfold Topology.Faults
    rw [hf, Bool.or_eq_true, h.iff_of_not_populated hp, scansEnd_doPopulate, (doPopulate_fields hp).2.2.2.2,
      Bool.not_eq_true']
    simp only [true_and]

end DpuOffload
