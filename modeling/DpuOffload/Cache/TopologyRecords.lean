import DpuOffload.Cache.Topology

/-!
# What the topology of a group records

The topology of a group is built by runs of `update_topology_data`, each about a rank, one
of its SPs and its host. This module says what it is after any sequence of them, as a
function of that sequence (`Topology.Records`): the hashes hold the SPs and the hosts seen,
the counters count runs, ranks, SPs and hosts, and a bitset holds what was set in it and has
a bit there. The order of the runs does not matter (`Topology.Records.perm`).

A bitset has the size of the group, or for the hosts that of the configuration. SPs are set
in bitsets of the size of the group, which may have no bit for them; a host then counts the
SP each time a rank of that SP comes.
-/

namespace DpuOffload

/-- A run of `update_topology_data`. -/
structure TopoUpdate where
  /-- The rank. -/
  rank : ℕ
  /-- One of its SPs, by global id. -/
  sp : ℕ
  /-- Uid of its host. -/
  host : ℕ
  deriving DecidableEq

/-- Run `update_topology_data`, in a group of `n` ranks. -/
def Topology.update (t : Topology) (cfg : HostsConfig) (gpUid : ℤ) (n : ℕ) (u : TopoUpdate) : Topology :=
  t.updateTopologyData cfg gpUid n u.rank u.sp u.host

namespace TopoUpdate

/-- The ranks of a sequence of runs. -/
def ranksOf (us : List TopoUpdate) : Finset ℕ := (us.map (·.rank)).toFinset

/-- The SPs. -/
def spsOf (us : List TopoUpdate) : Finset ℕ := (us.map (·.sp)).toFinset

/-- The hosts. -/
def hostsOf (us : List TopoUpdate) : Finset ℕ := (us.map (·.host)).toFinset

/-- The runs about SP `gid`. -/
def ofSp (gid : ℕ) (us : List TopoUpdate) : List TopoUpdate := us.filter (·.sp = gid)

/-- The runs about host `uid`. -/
def ofHost (uid : ℕ) (us : List TopoUpdate) : List TopoUpdate := us.filter (·.host = uid)

variable {u : TopoUpdate} {us us' : List TopoUpdate} {k : ℕ}

@[simp] theorem ranksOf_cons : ranksOf (u :: us) = insert u.rank (ranksOf us) := by simp [ranksOf]

@[simp] theorem spsOf_cons : spsOf (u :: us) = insert u.sp (spsOf us) := by simp [spsOf]

@[simp] theorem hostsOf_cons : hostsOf (u :: us) = insert u.host (hostsOf us) := by simp [hostsOf]

theorem ofSp_cons_self : ofSp u.sp (u :: us) = u :: ofSp u.sp us := by simp [ofSp]

theorem ofSp_cons_of_ne (h : k ≠ u.sp) : ofSp k (u :: us) = ofSp k us := by simp [ofSp, h.symm]

theorem ofHost_cons_self : ofHost u.host (u :: us) = u :: ofHost u.host us := by simp [ofHost]

theorem ofHost_cons_of_ne (h : k ≠ u.host) : ofHost k (u :: us) = ofHost k us := by simp [ofHost, h.symm]

theorem mem_spsOf : k ∈ spsOf us ↔ ∃ u ∈ us, u.sp = k := by simp [spsOf]

theorem mem_hostsOf : k ∈ hostsOf us ↔ ∃ u ∈ us, u.host = k := by simp [hostsOf]

theorem mem_ranksOf : k ∈ ranksOf us ↔ ∃ u ∈ us, u.rank = k := by simp [ranksOf]

theorem ofSp_of_notMem (h : k ∉ spsOf us) : ofSp k us = [] := by
  rw [ofSp, List.filter_eq_nil_iff]
  intro u hu hk
  exact h (mem_spsOf.2 ⟨u, hu, of_decide_eq_true hk⟩)

theorem ofHost_of_notMem (h : k ∉ hostsOf us) : ofHost k us = [] := by
  rw [ofHost, List.filter_eq_nil_iff]
  intro u hu hk
  exact h (mem_hostsOf.2 ⟨u, hu, of_decide_eq_true hk⟩)

theorem ranksOf_perm (h : us.Perm us') : ranksOf us = ranksOf us' := List.toFinset_eq_of_perm _ _ (h.map _)

theorem spsOf_perm (h : us.Perm us') : spsOf us = spsOf us' := List.toFinset_eq_of_perm _ _ (h.map _)

theorem hostsOf_perm (h : us.Perm us') : hostsOf us = hostsOf us' := List.toFinset_eq_of_perm _ _ (h.map _)

end TopoUpdate

open TopoUpdate

/-! ### A bitset and what was set in it -/

/-- The bits of `s` that a bitset of `size` bits has. -/
def inRange (size : ℕ) (s : Finset ℕ) : Finset ℕ := s.filter (· < (Bitset.create size).capacity)

/-- A bitset created for `size` bits, in which the bits of `s` were set. -/
def Marks (size : ℕ) (o : Option Bitset) (s : Finset ℕ) : Prop :=
  ∃ b, o = some b ∧ b.capacity = (Bitset.create size).capacity ∧ b.bits = inRange size s

variable {size : ℕ} {o : Option Bitset} {s : Finset ℕ}

theorem inRange_of_lt (h : ∀ i ∈ s, i < (Bitset.create size).capacity) : inRange size s = s :=
  Finset.filter_true_of_mem h

theorem Marks.create (size : ℕ) : Marks size (some (Bitset.create size)) ∅ :=
  ⟨_, rfl, rfl, Bitset.bits_create size⟩

/-- A bit that is set joins the others, or does not exist. -/
theorem Marks.set (h : Marks size o s) (i : ℕ) : Marks size (o.map (·.set i)) (insert i s) := by
  obtain ⟨b, rfl, hc, hb⟩ := h
  refine ⟨b.set i, rfl, by rw [Bitset.capacity_set, hc], ?_⟩
  rw [inRange, Finset.filter_insert]
  by_cases hi : i < (Bitset.create size).capacity
  · rw [Bitset.bits_set (hc ▸ hi), hb, if_pos hi, inRange]
  · rw [Bitset.set_of_capacity_le (hc ▸ not_lt.1 hi), hb, if_neg hi, inRange]

/-- The first bit set in a new bitset. -/
theorem Marks.createSet (size i : ℕ) : Marks size (some ((Bitset.create size).set i)) {i} :=
  (Marks.create size).set i

theorem Marks.bits (h : Marks size o s) : (o.getD []).bits = inRange size s := by
  obtain ⟨b, rfl, -, hb⟩ := h
  exact hb

theorem Marks.capacity (h : Marks size o s) : (o.getD []).capacity = (Bitset.create size).capacity := by
  obtain ⟨b, rfl, hc, -⟩ := h
  exact hc

theorem Marks.test (h : Marks size o s) (i : ℕ) : (o.getD []).test i = true ↔ i ∈ inRange size s := by
  rw [← h.bits, Bitset.mem_bits]

/-- A bitset that is not there has no bits, like one that is just created. -/
theorem bits_bitsetCreate (o : Option Bitset) (size : ℕ) : (bitsetCreate o size).bits = (o.getD []).bits := by
  cases o with
  | none => exact Bitset.bits_create size
  | some b => rfl

/-! ### The SPs -/

/-- What the hash knows about SP `gid` after the runs `us` about it. -/
structure SpCacheData.Records (n gid : ℕ) (us : List TopoUpdate) (d : SpCacheData) : Prop where
  /-- The SP. -/
  gid : d.gid = gid
  /-- `n_ranks` counts the runs. -/
  nRanks : d.nRanks = us.length
  /-- The ranks are set. -/
  ranks : Marks n d.ranksBitset (ranksOf us)

/-- What the topology says about the SPs after the runs `us`. -/
structure Topology.SpsRecord (n : ℕ) (us : List TopoUpdate) (t : Topology) : Prop where
  /-- What the hash knows. -/
  data : ∀ gid d, t.spsHash.lookup gid = some d → d.Records n gid (ofSp gid us)
  /-- The SPs in the hash. -/
  keys : ∀ gid, gid ∈ t.spsHash ↔ gid ∈ spsOf us
  /-- `n_sps` counts the SPs. -/
  nSps : t.nSps = (spsOf us).card
  /-- The SPs are set. -/
  marks : Marks n (some (bitsetCreate t.spsBitset n)) (spsOf us)
  /-- The bitset is created with the first SP, or before. -/
  made : us ≠ [] → t.spsBitset.isSome = true

variable {n : ℕ} {cfg : HostsConfig} {us us' : List TopoUpdate} {t t' : Topology}

theorem Topology.SpsRecord.updateSp (h : t.SpsRecord n us) (gpUid : ℤ) (u : TopoUpdate) :
    (t.updateSp gpUid n u.rank u.sp u.host).SpsRecord n (u :: us) := by
  cases hd : t.spsHash.lookup u.sp with
  | none =>
    have hnew : u.sp ∉ spsOf us := by rw [← h.keys]; exact AList.lookup_eq_none.1 hd
    simp only [Topology.updateSp, hd]
    constructor
    · intro q d hq
      by_cases hqu : q = u.sp
      · subst hqu
        rw [AList.lookup_insert] at hq
        cases hq
        rw [ofSp_cons_self, ofSp_of_notMem hnew]
        exact ⟨rfl, rfl, Marks.createSet n u.rank⟩
      · rw [AList.lookup_insert_ne hqu] at hq
        rw [ofSp_cons_of_ne hqu]
        exact h.data q d hq
    · intro q
      rw [AList.mem_insert, h.keys, spsOf_cons, Finset.mem_insert]
    · rw [spsOf_cons, Finset.card_insert_of_notMem hnew, h.nSps]
    · rw [spsOf_cons]
      exact h.marks.set u.sp
    · exact fun _ => rfl
  | some d =>
    have hold : u.sp ∈ spsOf us := by rw [← h.keys, ← AList.lookup_isSome, hd]; rfl
    have hrec := h.data u.sp d hd
    simp only [Topology.updateSp, hd]
    constructor
    · intro q d' hq
      by_cases hqu : q = u.sp
      · subst hqu
        rw [AList.lookup_insert] at hq
        cases hq
        rw [ofSp_cons_self]
        refine ⟨hrec.gid, by rw [hrec.nRanks, List.length_cons], ?_⟩
        rw [ranksOf_cons]
        exact hrec.ranks.set u.rank
      · rw [AList.lookup_insert_ne hqu] at hq
        rw [ofSp_cons_of_ne hqu]
        exact h.data q d' hq
    · intro q
      rw [AList.mem_insert, h.keys, spsOf_cons, Finset.mem_insert]
    · rw [spsOf_cons, Finset.insert_eq_of_mem hold, h.nSps]
    · rw [spsOf_cons, Finset.insert_eq_of_mem hold]
      exact h.marks
    · obtain ⟨v, hv, -⟩ := mem_spsOf.1 hold
      exact fun _ => h.made (List.ne_nil_of_mem hv)

/-- The SPs are counted when they have a bit. -/
theorem Topology.SpsRecord.nSps_eq (h : t.SpsRecord n us) (hlt : ∀ u ∈ us, u.sp < (Bitset.create n).capacity) :
    (t.spsBitset.getD []).bits = spsOf us ∧ t.nSps = (t.spsBitset.getD []).bits.card := by
  have hbits : (t.spsBitset.getD []).bits = spsOf us := by
    rw [← bits_bitsetCreate _ n]
    refine h.marks.bits.trans (inRange_of_lt fun i hi => ?_)
    obtain ⟨u, hu, rfl⟩ := mem_spsOf.1 hi
    exact hlt u hu
  rw [hbits]
  exact ⟨rfl, h.nSps⟩

/-- The ranks of an SP are counted when each came once. -/
theorem SpCacheData.Records.nRanks_eq {gid : ℕ} {d : SpCacheData} (h : d.Records n gid us)
    (hnd : (us.map (·.rank)).Nodup) (hlt : ∀ u ∈ us, u.rank < (Bitset.create n).capacity) :
    d.nRanks = (d.ranksBitset.getD []).bits.card := by
  rw [h.nRanks, h.ranks.bits, inRange_of_lt]
  · rw [ranksOf, List.toFinset_card_of_nodup hnd, List.length_map]
  · intro r hr
    obtain ⟨u, hu, rfl⟩ := mem_ranksOf.1 hr
    exact hlt u hu

/-! ### The hosts -/

/-- What a host counts as its SPs: those that have a bit once, the others at each run. -/
def countedSps (n : ℕ) (us : List TopoUpdate) : ℕ :=
  (inRange n (spsOf us)).card + us.countP fun u => decide ((Bitset.create n).capacity ≤ u.sp)

/-- What the hash knows about host `host` after the runs `us` about it. -/
structure HostCacheData.Records (cfg : HostsConfig) (n host : ℕ) (us : List TopoUpdate) (d : HostCacheData) : Prop where
  /-- The host. -/
  uid : d.uid = host
  /-- Its place in the configuration. -/
  configIdx : d.configIdx = cfg.lookupHostConfigIdx host
  /-- `num_ranks` counts the runs. -/
  numRanks : d.numRanks = us.length
  /-- `num_sps` counts the SPs. -/
  numSps : d.numSps = countedSps n us
  /-- The SPs are set. -/
  sps : Marks n d.spsBitset (spsOf us)
  /-- The ranks are set. -/
  ranks : Marks n d.ranksBitset (ranksOf us)

/-- What the topology says about the hosts after the runs `us`. -/
structure Topology.HostsRecord (cfg : HostsConfig) (n : ℕ) (us : List TopoUpdate) (t : Topology) : Prop where
  /-- What the hash knows. -/
  data : ∀ uid d, t.hostsHash.lookup uid = some d → d.Records cfg n uid (ofHost uid us)
  /-- The hosts in the hash. -/
  keys : ∀ uid, uid ∈ t.hostsHash ↔ uid ∈ hostsOf us
  /-- `n_hosts` counts the hosts. -/
  nHosts : t.nHosts = (hostsOf us).card
  /-- The hosts are set, by index. -/
  marks : Marks cfg.numHosts (some (bitsetCreate t.hostsBitset cfg.numHosts))
    ((hostsOf us).image cfg.lookupHostConfigIdx)
  /-- The bitset is created with the first host, or before. -/
  made : us ≠ [] → t.hostsBitset.isSome = true

/-- A run counts the SP for its host unless it has a bit that is set. -/
theorem countedSps_cons (n : ℕ) (u : TopoUpdate) (us : List TopoUpdate) :
    countedSps n (u :: us) = countedSps n us + if u.sp ∈ inRange n (spsOf us) then 0 else 1 := by
  unfold countedSps
  rw [spsOf_cons, inRange, Finset.filter_insert, List.countP_cons]
  by_cases hu : u.sp < (Bitset.create n).capacity
  · rw [if_pos hu]
    have hge : ¬ (Bitset.create n).capacity ≤ u.sp := not_le.2 hu
    by_cases hm : u.sp ∈ inRange n (spsOf us)
    · have hm' : u.sp ∈ (spsOf us).filter (· < (Bitset.create n).capacity) := hm
      rw [Finset.insert_eq_of_mem hm', if_pos hm]
      simp [hge, inRange]
    · have hm' : u.sp ∉ (spsOf us).filter (· < (Bitset.create n).capacity) := hm
      rw [Finset.card_insert_of_notMem hm', if_neg hm]
      simp only [hge, decide_false, Bool.false_eq_true, if_false, inRange]
      omega
  · have hm : u.sp ∉ inRange n (spsOf us) := fun hm => hu (Finset.mem_filter.1 hm).2
    rw [if_neg hu, if_neg hm]
    simp only [not_lt.1 hu, decide_true, if_true, inRange]
    omega

theorem Topology.HostsRecord.updateHost (h : t.HostsRecord cfg n us) (u : TopoUpdate) :
    (t.updateHost cfg n u.rank u.sp u.host).HostsRecord cfg n (u :: us) := by
  cases hd : t.hostsHash.lookup u.host with
  | none =>
    have hnew : u.host ∉ hostsOf us := by rw [← h.keys]; exact AList.lookup_eq_none.1 hd
    simp only [Topology.updateHost, hd]
    constructor
    · intro q d hq
      by_cases hqu : q = u.host
      · subst hqu
        rw [AList.lookup_insert] at hq
        cases hq
        rw [ofHost_cons_self, ofHost_of_notMem hnew]
        refine ⟨rfl, rfl, rfl, ?_, Marks.createSet n u.sp, Marks.createSet n u.rank⟩
        rw [countedSps_cons]
        rfl
      · rw [AList.lookup_insert_ne hqu] at hq
        rw [ofHost_cons_of_ne hqu]
        exact h.data q d hq
    · intro q
      rw [AList.mem_insert, h.keys, hostsOf_cons, Finset.mem_insert]
    · rw [hostsOf_cons, Finset.card_insert_of_notMem hnew, h.nHosts]
    · rw [hostsOf_cons, Finset.image_insert]
      exact h.marks.set (cfg.lookupHostConfigIdx u.host)
    · exact fun _ => rfl
  | some d =>
    have hold : u.host ∈ hostsOf us := by rw [← h.keys, ← AList.lookup_isSome, hd]; rfl
    have hrec := h.data u.host d hd
    have hknown : (d.spsBitset.getD []).test u.sp = true ↔ u.sp ∈ inRange n (spsOf (ofHost u.host us)) :=
      hrec.sps.test u.sp
    simp only [Topology.updateHost, hd]
    constructor
    · intro q d' hq
      by_cases hqu : q = u.host
      · subst hqu
        rw [AList.lookup_insert] at hq
        cases hq
        rw [ofHost_cons_self]
        refine ⟨hrec.uid, hrec.configIdx, by rw [hrec.numRanks, List.length_cons], ?_, ?_, ?_⟩
        · rw [countedSps_cons, ← hrec.numSps]
          by_cases hk : (d.spsBitset.getD []).test u.sp = true
          · rw [if_pos hk, if_pos (hknown.1 hk)]
            rfl
          · rw [if_neg hk, if_neg fun hm => hk (hknown.2 hm)]
        · rw [spsOf_cons]
          by_cases hk : (d.spsBitset.getD []).test u.sp = true
          · have hm : u.sp ∈ spsOf (ofHost u.host us) := (Finset.mem_filter.1 (hknown.1 hk)).1
            rw [Finset.insert_eq_of_mem hm]
            simp only [if_pos hk]
            exact hrec.sps
          · simp only [if_neg hk]
            exact hrec.sps.set u.sp
        · rw [ranksOf_cons]
          exact hrec.ranks.set u.rank
      · rw [AList.lookup_insert_ne hqu] at hq
        rw [ofHost_cons_of_ne hqu]
        exact h.data q d' hq
    · intro q
      rw [AList.mem_insert, h.keys, hostsOf_cons, Finset.mem_insert]
    · rw [hostsOf_cons, Finset.insert_eq_of_mem hold, h.nHosts]
    · rw [hostsOf_cons, Finset.insert_eq_of_mem hold]
      exact h.marks
    · obtain ⟨v, hv, -⟩ := mem_hostsOf.1 hold
      exact fun _ => h.made (List.ne_nil_of_mem hv)

/-! ### The topology -/

/-- **What the topology of a group of `n` ranks is** after the runs `us` of `update_topology_data`. -/
structure Topology.Records (cfg : HostsConfig) (n : ℕ) (us : List TopoUpdate) (t : Topology) : Prop where
  /-- The SPs. -/
  sps : t.SpsRecord n us
  /-- The hosts. -/
  hosts : t.HostsRecord cfg n us

theorem records_empty (cfg : HostsConfig) (n : ℕ) : Topology.empty.Records cfg n [] where
  sps := by
    constructor
    · intro gid d hd
      cases hd
    · intro gid
      exact iff_of_false (AList.notMem_empty gid) (Finset.notMem_empty gid)
    · rfl
    · exact Marks.create n
    · exact fun h => absurd rfl h
  hosts := by
    constructor
    · intro uid d hd
      cases hd
    · intro uid
      exact iff_of_false (AList.notMem_empty uid) (Finset.notMem_empty uid)
    · rfl
    · exact Marks.create cfg.numHosts
    · exact fun h => absurd rfl h

/-- No run of `update_topology_data` fills the tables. -/
theorem updates_populated (cfg : HostsConfig) (gpUid : ℤ) (n r host : ℕ) (gids : List ℕ) (t : Topology) :
    (gids.foldl (fun t sp => t.updateTopologyData cfg gpUid n r sp host) t).lookupTablesPopulated =
      t.lookupTablesPopulated := by
  induction gids generalizing t with
  | nil => rfl
  | cons sp gids ih =>
    rw [List.foldl_cons, ih]
    unfold Topology.updateTopologyData Topology.updateHost Topology.updateSp
    split <;> split <;> rfl

namespace Topology.Records

/-- The parts of a topology the records are about; a bitset may be created early. -/
theorem congr (h : t.Records cfg n us) (hs : t'.spsHash = t.spsHash) (hns : t'.nSps = t.nSps)
    (hbs : t'.spsBitset = t.spsBitset ∨ t'.spsBitset = some (bitsetCreate t.spsBitset n))
    (hh : t'.hostsHash = t.hostsHash) (hnh : t'.nHosts = t.nHosts)
    (hbh : t'.hostsBitset = t.hostsBitset ∨ t'.hostsBitset = some (bitsetCreate t.hostsBitset cfg.numHosts)) :
    t'.Records cfg n us where
  sps := by
    refine ⟨by rw [hs]; exact h.sps.data, by rw [hs]; exact h.sps.keys, by rw [hns]; exact h.sps.nSps, ?_, ?_⟩
    · rcases hbs with hb | hb <;> rw [hb] <;> exact h.sps.marks
    · rcases hbs with hb | hb <;> rw [hb]
      · exact h.sps.made
      · exact fun _ => rfl
  hosts := by
    refine ⟨by rw [hh]; exact h.hosts.data, by rw [hh]; exact h.hosts.keys, by rw [hnh]; exact h.hosts.nHosts, ?_, ?_⟩
    · rcases hbh with hb | hb <;> rw [hb] <;> exact h.hosts.marks
    · rcases hbh with hb | hb <;> rw [hb]
      · exact h.hosts.made
      · exact fun _ => rfl

/-- **A run of `update_topology_data` is recorded.** -/
theorem update (h : t.Records cfg n us) (gpUid : ℤ) (u : TopoUpdate) :
    (t.update cfg gpUid n u).Records cfg n (u :: us) := by
  have hsp : ∀ t : Topology, t.SpsRecord n (u :: us) →
      (t.updateHost cfg n u.rank u.sp u.host).SpsRecord n (u :: us) := by
    intro t h
    unfold Topology.updateHost
    split <;> exact ⟨h.data, h.keys, h.nSps, h.marks, h.made⟩
  have hhost : (t.updateSp gpUid n u.rank u.sp u.host).HostsRecord cfg n us := by
    unfold Topology.updateSp
    split <;> exact ⟨h.hosts.data, h.hosts.keys, h.hosts.nHosts, h.hosts.marks, h.hosts.made⟩
  exact ⟨hsp _ (h.sps.updateSp gpUid u), hhost.updateHost u⟩

/-- The runs for all the shadow SPs of a rank. -/
theorem updates (gpUid : ℤ) (r host : ℕ) (gids : List ℕ) (h : t.Records cfg n us) :
    (gids.foldl (fun t sp => t.updateTopologyData cfg gpUid n r sp host) t).Records cfg n
      ((gids.map fun sp => ⟨r, sp, host⟩).reverse ++ us) := by
  induction gids generalizing t us with
  | nil => exact h
  | cons sp gids ih =>
    rw [List.foldl_cons, List.map_cons, List.reverse_cons, List.append_assoc]
    exact ih (h.update gpUid ⟨r, sp, host⟩)

/-- **The order of the runs does not matter.** -/
theorem perm (h : t.Records cfg n us) (hp : us.Perm us') : t.Records cfg n us' where
  sps := by
    have hf : ∀ gid, (ofSp gid us).Perm (ofSp gid us') := fun gid => hp.filter _
    constructor
    · intro gid d hd
      have hrec := h.sps.data gid d hd
      refine ⟨hrec.gid, by rw [hrec.nRanks, (hf gid).length_eq], ?_⟩
      rw [← ranksOf_perm (hf gid)]
      exact hrec.ranks
    · rw [← spsOf_perm hp]
      exact h.sps.keys
    · rw [← spsOf_perm hp]
      exact h.sps.nSps
    · rw [← spsOf_perm hp]
      exact h.sps.marks
    · exact fun hne => h.sps.made fun he => hne (List.nil_perm.1 (he ▸ hp))
  hosts := by
    have hf : ∀ uid, (ofHost uid us).Perm (ofHost uid us') := fun uid => hp.filter _
    constructor
    · intro uid d hd
      have hrec := h.hosts.data uid d hd
      refine ⟨hrec.uid, hrec.configIdx, by rw [hrec.numRanks, (hf uid).length_eq], ?_, ?_, ?_⟩
      · rw [hrec.numSps, countedSps, countedSps, spsOf_perm (hf uid), (hf uid).countP_eq]
      · rw [← spsOf_perm (hf uid)]
        exact hrec.sps
      · rw [← ranksOf_perm (hf uid)]
        exact hrec.ranks
    · rw [← hostsOf_perm hp]
      exact h.hosts.keys
    · rw [← hostsOf_perm hp]
      exact h.hosts.nHosts
    · rw [← hostsOf_perm hp]
      exact h.hosts.marks
    · exact fun hne => h.hosts.made fun he => hne (List.nil_perm.1 (he ▸ hp))

end Topology.Records

end DpuOffload
