import DpuOffload.Cache.HostCounts
import DpuOffload.Config.FileOrder

/-!
# The hosts of a configuration

Both parsers of the configuration file add hosts to a table, which gives a host the next
index, also when it has one (`HostTable.add`). What the table of the hosts of a group is
made of are the indices.

* `HostTable.Lists` — the table gives some hosts indices that increase.
* `Lists.hosts_eq` — **the hosts of a group come in that order**, whatever the indices are.
-/

namespace DpuOffload

open TopoUpdate

/-- `hosts_config`, with `num_hosts` and `host_lookup_table`. -/
structure HostTable where
  /-- `num_hosts` and `host_lookup_table`. -/
  hosts : HostsConfig
  /-- `hosts_config`. -/
  infos : ℕ → HostInfo

/-- The hosts of an SP. -/
def OffloadingConfig.hostTable (cfg : OffloadingConfig) : HostTable := ⟨cfg.hosts, cfg.hostsConfig⟩

/-- The hosts of a process of a host. -/
def HostSideConfig.hostTable (cfg : HostSideConfig) : HostTable := ⟨cfg.hosts, cfg.hostsConfig⟩

namespace HostTable

/-- A host is added. -/
def add (t : HostTable) (hostname : CStr) : HostTable :=
  let idx := t.hosts.numHosts
  ⟨⟨idx + 1, (hashHostname hostname, idx) :: t.hosts.hostLookupTable⟩,
    Function.update t.infos idx ⟨some hostname, hashHostname hostname, idx⟩⟩

/-- **The table knows some hosts**, in the order of their indices. -/
structure Lists (us : List ℕ) (t : HostTable) : Prop where
  known : ∀ u ∈ us, ∃ i, t.hosts.hostLookupTable.lookup u = some i ∧ i < t.hosts.numHosts ∧ (t.infos i).uid = u
  order : us.Pairwise fun u v => t.hosts.lookupHostConfigIdx u < t.hosts.lookupHostConfigIdx v

/-- The table knows no other host. -/
def Only (us : List ℕ) (t : HostTable) : Prop := ∀ u ∉ us, t.hosts.hostLookupTable.lookup u = none

variable {t : HostTable} {us vs : List ℕ} {u : ℕ} {name : CStr}

theorem lists_nil (t : HostTable) : t.Lists [] := ⟨fun _ h => absurd h List.not_mem_nil, .nil⟩

/-- Some of the hosts. -/
theorem Lists.sublist (h : t.Lists us) (hs : vs.Sublist us) : t.Lists vs :=
  ⟨fun u hu => h.known u (hs.subset hu), h.order.sublist hs⟩

theorem Lists.idx_lt (h : t.Lists us) (hu : u ∈ us) : t.hosts.lookupHostConfigIdx u < t.hosts.numHosts := by
  obtain ⟨i, hi, hlt, -⟩ := h.known u hu
  rw [HostsConfig.lookupHostConfigIdx, hi]
  exact hlt

theorem Lists.uid_eq (h : t.Lists us) (hu : u ∈ us) : (t.infos (t.hosts.lookupHostConfigIdx u)).uid = u := by
  obtain ⟨i, hi, -, huid⟩ := h.known u hu
  rw [HostsConfig.lookupHostConfigIdx, hi]
  exact huid

theorem Lists.nodup (h : t.Lists us) : us.Nodup := h.order.imp fun hlt he => by
  rw [he] at hlt
  exact lt_irrefl _ hlt

theorem lookup_add_of_ne (t : HostTable) (hne : u ≠ hashHostname name) :
    (t.add name).hosts.hostLookupTable.lookup u = t.hosts.hostLookupTable.lookup u := by
  rw [HostTable.add, List.lookup_cons, beq_false_of_ne hne]

theorem lookup_add_self (t : HostTable) (name : CStr) :
    (t.add name).hosts.hostLookupTable.lookup (hashHostname name) = some t.hosts.numHosts :=
  List.lookup_cons_self

/-- **A host that is added comes last.** -/
theorem Lists.add (h : t.Lists us) (hnew : hashHostname name ∉ us) :
    (t.add name).Lists (us ++ [hashHostname name]) := by
  have hne : ∀ u ∈ us, u ≠ hashHostname name := fun u hu he => hnew (he ▸ hu)
  have hidx : ∀ u ∈ us, (t.add name).hosts.lookupHostConfigIdx u = t.hosts.lookupHostConfigIdx u := by
    intro u hu
    rw [HostsConfig.lookupHostConfigIdx, lookup_add_of_ne t (hne u hu)]
    rfl
  have hlast : (t.add name).hosts.lookupHostConfigIdx (hashHostname name) = t.hosts.numHosts := by
    rw [HostsConfig.lookupHostConfigIdx, lookup_add_self]
    rfl
  constructor
  case known =>
    intro u hu
    rcases List.mem_append.1 hu with hu | hu
    · obtain ⟨i, hi, hlt, huid⟩ := h.known u hu
      refine ⟨i, (lookup_add_of_ne t (hne u hu)).trans hi, Nat.lt_succ_of_lt hlt, ?_⟩
      rw [HostTable.add]
      dsimp only
      rw [Function.update_of_ne hlt.ne]
      exact huid
    · rw [List.mem_singleton] at hu
      subst hu
      refine ⟨t.hosts.numHosts, lookup_add_self t name, Nat.lt_succ_self _, ?_⟩
      rw [HostTable.add]
      dsimp only
      rw [Function.update_self]
  case order =>
    rw [List.pairwise_append]
    refine ⟨?_, List.pairwise_singleton _ _, ?_⟩
    · refine h.order.imp_of_mem fun {u v} hu hv hlt => ?_
      rwa [hidx u hu, hidx v hv]
    · intro u hu v hv
      rw [List.mem_singleton] at hv
      rw [hv, hlast, hidx u hu]
      exact h.idx_lt hu

/-- Another host may be added. -/
theorem Lists.add_other (h : t.Lists us) (hnew : hashHostname name ∉ us) : (t.add name).Lists us :=
  (h.add hnew).sublist (List.sublist_append_left _ _)

/-- A host may be added more than once. -/
theorem Lists.replicate (h : t.Lists us) (hnew : hashHostname name ∉ us) (k : ℕ) :
    ((List.replicate (k + 1) name).foldl HostTable.add t).Lists (us ++ [hashHostname name]) := by
  induction k generalizing t with
  | zero => exact h.add hnew
  | succ k ih => exact ih (h.add_other hnew)

theorem lookup_replicate_of_ne (t : HostTable) (hne : u ≠ hashHostname name) (k : ℕ) :
    ((List.replicate k name).foldl HostTable.add t).hosts.hostLookupTable.lookup u =
      t.hosts.hostLookupTable.lookup u := by
  induction k generalizing t with
  | zero => rfl
  | succ k ih => exact (ih (t.add name)).trans (lookup_add_of_ne t hne)

theorem Only.replicate (h : t.Only us) (name : CStr) (k : ℕ) :
    ((List.replicate k name).foldl HostTable.add t).Only (us ++ [hashHostname name]) := by
  intro u hu
  rw [List.mem_append, List.mem_singleton, not_or] at hu
  rw [lookup_replicate_of_ne t hu.2]
  exact h u hu.1

/-- The index of an unknown host is `-1`, which has no bit. -/
theorem Only.idx_ge (h : t.Only us) (hfit : t.hosts.numHosts < 2 ^ 63) (hu : u ∉ us) :
    (Bitset.create t.hosts.numHosts).capacity ≤ t.hosts.lookupHostConfigIdx u := by
  have hcap : (Bitset.create t.hosts.numHosts).capacity < 2 ^ 63 + 8 := by
    rw [Bitset.capacity, Bitset.create, List.length_replicate, Bitset.nslots]
    omega
  have hneg : sizeT (-1) = 2 ^ 64 - 1 := by decide
  rw [HostsConfig.lookupHostConfigIdx, h u hu, Option.getD_none, hneg]
  omega

theorem numHosts_foldl (t : HostTable) (names : List CStr) :
    (names.foldl HostTable.add t).hosts.numHosts = t.hosts.numHosts + names.length := by
  induction names generalizing t with
  | nil => rfl
  | cons name names ih =>
    rw [List.foldl_cons, ih, List.length_cons]
    exact Nat.succ_add_eq_add_succ _ _

end HostTable

/-! ### The hosts of a group -/

/-- The uids of the hosts of a group, as its table has them. -/
def Topology.hostUids (topo : Topology) (t : HostTable) : List ℕ :=
  topo.doPopulateGroupCacheLookupTable.hosts.map fun i => (t.infos i).uid

/-- **The hosts of a group come in the order of the table**; a host without a bit is left out. -/
theorem HostTable.Lists.hostUids_eq {t : HostTable} {us : List ℕ} (h : t.Lists us) {topo : Topology} {n : ℕ}
    {ups : List TopoUpdate} (hrec : topo.Records t.hosts n ups) (htab : topo.doPopulateGroupCacheLookupTable.Tables)
    (hout : ∀ u ∈ hostsOf ups, u ∉ us → (Bitset.create t.hosts.numHosts).capacity ≤ t.hosts.lookupHostConfigIdx u) :
    topo.hostUids t = us.filter (· ∈ hostsOf ups) := by
  have hrec' := hrec.doPopulate.hosts
  set topo' := topo.doPopulateGroupCacheLookupTable
  have hmem : ∀ u ∈ us.filter (· ∈ hostsOf ups), u ∈ us ∧ u ∈ hostsOf ups := by
    intro u hu
    simpa using hu
  have hle : t.hosts.numHosts ≤ (Bitset.create t.hosts.numHosts).capacity := Bitset.le_capacity_create _
  have hbits : (topo'.hostsBitset.getD []).bits =
      ((us.filter (· ∈ hostsOf ups)).map t.hosts.lookupHostConfigIdx).toFinset := by
    have hmarks := hrec'.marks.bits
    rw [Option.getD_some, bits_bitsetCreate] at hmarks
    rw [hmarks]
    ext i
    simp only [inRange, Finset.mem_filter, Finset.mem_image, List.mem_toFinset, List.mem_map, List.mem_filter,
      decide_eq_true_eq]
    constructor
    · rintro ⟨⟨u, hu, rfl⟩, hlt⟩
      by_cases hin : u ∈ us
      · exact ⟨u, ⟨hin, hu⟩, rfl⟩
      · exact absurd hlt (not_lt.2 (hout u hu hin))
    · rintro ⟨u, ⟨hin, hu⟩, rfl⟩
      exact ⟨⟨u, hu, rfl⟩, (h.idx_lt hin).trans_le hle⟩
  have hlen : (us.filter (· ∈ hostsOf ups)).length ≤ topo'.nHosts := by
    rw [hrec'.nHosts, ← List.toFinset_card_of_nodup (h.nodup.filter _)]
    refine Finset.card_le_card fun u hu => ?_
    exact (hmem u (List.mem_toFinset.1 hu)).2
  rw [Topology.hostUids, htab.hosts, Bitset.firstBits_of_image (h.order.sublist List.filter_sublist) hbits hlen,
    List.map_map]
  refine (List.map_congr_left fun u hu => ?_).trans (List.map_id _)
  exact h.uid_eq (hmem u hu).1

end DpuOffload
