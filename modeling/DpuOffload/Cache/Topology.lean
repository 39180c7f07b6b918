import DpuOffload.Lib.Bitset
import DpuOffload.Cache.Types
import Mathlib.Data.List.AList

/-!
# The topology of a group

Which SPs and which hosts take part in a group, and which ranks each of them has:
the hashes, bitsets, counters and lookup tables of `group_cache_t` and the two
functions that write them, `update_topology_data`, run for each entry added, and
`do_populate_group_cache_lookup_table`, run when the group is complete
(`dpu_offload_group_cache.c`).

A hash is a finite map (`AList`), empty before it is allocated. A bitset pointer is
`none` until the bitset is created. A table holds what its pointers point at: an SP
by its position in the engine's list, a host by its index in the configuration, a
rank by its number.

No macro of a bitset checks an index, so an access can leave the bitset. Each function
lists the bits it accesses (`BitAccess`), and what is undefined in C is recorded in
`fault`, which stays set.
-/

namespace DpuOffload

/-- `sp_cache_data_t`: an SP of the group. -/
structure SpCacheData where
  /-- Number of ranks of the group associated with the SP. -/
  nRanks : ℕ
  /-- Global id of the SP. -/
  gid : ℕ
  /-- Position among the group's SPs of its host. -/
  lid : ℕ
  /-- Uid of its host. -/
  hostUid : ℕ
  /-- Uid of the group. -/
  gpUid : ℤ
  /-- Its ranks. -/
  ranksBitset : Option Bitset
  /-- Lookup table of its ranks. -/
  ranks : List ℕ

/-- `RESET_SP_CACHE_DATA`. -/
def resetSpCacheData : SpCacheData where
  nRanks := 0
  gid := UINT64_MAX
  lid := UINT64_MAX
  hostUid := UINT64_MAX
  gpUid := 0
  ranksBitset := none
  ranks := []

/-- `host_cache_data_t`: a host of the group. -/
structure HostCacheData where
  /-- Index in the configuration. -/
  configIdx : ℕ
  /-- Uid of the host. -/
  uid : ℕ
  /-- Number of SPs of the group on the host. -/
  numSps : ℕ
  /-- Number of ranks of the group on the host. -/
  numRanks : ℕ
  /-- Its SPs, by global id. -/
  spsBitset : Option Bitset
  /-- Lookup table of its SPs, by global id. -/
  sps : List ℕ
  /-- Its ranks. -/
  ranksBitset : Option Bitset

/-- `RESET_HOST_CACHE_DATA`. -/
def resetHostCacheData : HostCacheData where
  configIdx := 0
  uid := UINT64_MAX
  numSps := 0
  numRanks := 0
  spsBitset := none
  sps := []
  ranksBitset := none

/-- The part of `group_cache_t` that describes the topology. -/
structure Topology where
  /-- The hosts, by uid. -/
  hostsHash : AList (fun _ : ℕ => HostCacheData)
  /-- The hosts, by index in the configuration. -/
  hostsBitset : Option Bitset
  /-- Lookup table of the hosts. -/
  hosts : List ℕ
  /-- Number of hosts. -/
  nHosts : ℕ
  /-- The SPs, by global id. -/
  spsHash : AList (fun _ : ℕ => SpCacheData)
  /-- The SPs, by global id. -/
  spsBitset : Option Bitset
  /-- Lookup table of the SPs. -/
  sps : List ℕ
  /-- Number of SPs. -/
  nSps : ℕ
  /-- Have the lookup tables been filled? -/
  lookupTablesPopulated : Bool
  /-- Has an access left its bitset, or read through a null pointer? -/
  fault : Bool

/-- No host, no SP. -/
def Topology.empty : Topology where
  hostsHash := ∅
  hostsBitset := none
  hosts := []
  nHosts := 0
  spsHash := ∅
  spsBitset := none
  sps := []
  nSps := 0
  lookupTablesPopulated := false
  fault := false

/-- What the configuration says about hosts. -/
structure HostsConfig where
  /-- Number of hosts. -/
  numHosts : ℕ
  /-- `host_lookup_table`: index of a host, by uid. -/
  hostLookupTable : List (ℕ × ℕ)
  deriving DecidableEq

/-- `LOOKUP_HOST_CONFIG_IDX`: `-1` for an unknown host. -/
def HostsConfig.lookupHostConfigIdx (cfg : HostsConfig) (hostUid : ℕ) : ℕ :=
  (cfg.hostLookupTable.lookup hostUid).getD (sizeT (-1))

/-- `GROUP_CACHE_BITSET_CREATE`: allocate the bitset unless there is one. -/
def bitsetCreate (b : Option Bitset) (size : ℕ) : Bitset := b.getD (Bitset.create size)

/-- A bit that is set or tested: how many bits the bitset has, and which one it is. -/
structure BitAccess where
  /-- The number of bits. -/
  capacity : ℕ
  /-- The bit. -/
  index : ℤ
  deriving DecidableEq

/-- The bit exists. -/
def BitAccess.InBounds (a : BitAccess) : Prop := 0 ≤ a.index ∧ a.index < a.capacity

instance : DecidablePred BitAccess.InBounds := fun a =>
  inferInstanceAs (Decidable (0 ≤ a.index ∧ a.index < a.capacity))

/-- The bits that `update_topology_data` sets for the SP. -/
def Topology.spAccesses (t : Topology) (groupSize groupRank spGid : ℕ) : List BitAccess :=
  match t.spsHash.lookup spGid with
  | none => [⟨(bitsetCreate t.spsBitset groupSize).capacity, spGid⟩, ⟨(Bitset.create groupSize).capacity, groupRank⟩]
  | some d => [⟨(d.ranksBitset.getD []).capacity, groupRank⟩]

/-- The bits that `update_topology_data` sets and tests for the host. -/
def Topology.hostAccesses (t : Topology) (cfg : HostsConfig) (groupSize groupRank spGid hostUid : ℕ) : List BitAccess :=
  match t.hostsHash.lookup hostUid with
  | none =>
    [⟨(Bitset.create groupSize).capacity, spGid⟩,
      ⟨(bitsetCreate t.hostsBitset cfg.numHosts).capacity, cfg.lookupHostConfigIdx hostUid⟩,
      ⟨(Bitset.create groupSize).capacity, groupRank⟩]
  | some d =>
    let b := d.spsBitset.getD []
    -- the test, and the setting of a bit that is not set
    ⟨b.capacity, spGid⟩ :: (if b.test spGid then [] else [⟨b.capacity, spGid⟩]) ++
      [⟨(d.ranksBitset.getD []).capacity, groupRank⟩]

/-- One of the accesses leaves its bitset. -/
def leaves (as : List BitAccess) : Bool := !decide (∀ a ∈ as, a.InBounds)

/-- The part of `update_topology_data` about the SP. -/
def Topology.updateSp (t : Topology) (gpUid : ℤ) (groupSize groupRank spGid hostUid : ℕ) : Topology :=
  match t.spsHash.lookup spGid with
  | none =>
    let spData : SpCacheData := { resetSpCacheData with
      ranksBitset := some ((Bitset.create groupSize).set groupRank)
      gid := spGid, nRanks := 1, gpUid := gpUid, hostUid := hostUid }
    { t with
      nSps := t.nSps + 1
      spsBitset := some ((bitsetCreate t.spsBitset groupSize).set spGid)
      spsHash := t.spsHash.insert spGid spData
      fault := t.fault || leaves (t.spAccesses groupSize groupRank spGid) }
  | some spData =>
    { t with
      spsHash := t.spsHash.insert spGid { spData with
        nRanks := spData.nRanks + 1
        ranksBitset := spData.ranksBitset.map (·.set groupRank) }
      fault := t.fault || leaves (t.spAccesses groupSize groupRank spGid) }

/-- The part of `update_topology_data` about the host. -/
def Topology.updateHost (t : Topology) (cfg : HostsConfig) (groupSize groupRank spGid hostUid : ℕ) : Topology :=
  match t.hostsHash.lookup hostUid with
  | none =>
    let hostIdx := cfg.lookupHostConfigIdx hostUid
    let hostData : HostCacheData := { resetHostCacheData with
      uid := hostUid, numRanks := 1, numSps := 1, configIdx := hostIdx
      spsBitset := some ((Bitset.create groupSize).set spGid)
      ranksBitset := some ((Bitset.create groupSize).set groupRank) }
    { t with
      nHosts := t.nHosts + 1
      hostsHash := t.hostsHash.insert hostUid hostData
      hostsBitset := some ((bitsetCreate t.hostsBitset cfg.numHosts).set hostIdx)
      fault := t.fault || leaves (t.hostAccesses cfg groupSize groupRank spGid hostUid) }
  | some hostData =>
    let known := (hostData.spsBitset.getD []).test spGid
    { t with
      hostsHash := t.hostsHash.insert hostUid { hostData with
        numRanks := hostData.numRanks + 1
        numSps := if known then hostData.numSps else hostData.numSps + 1
        spsBitset := if known then hostData.spsBitset else hostData.spsBitset.map (·.set spGid)
        ranksBitset := hostData.ranksBitset.map (·.set groupRank) }
      fault := t.fault || leaves (t.hostAccesses cfg groupSize groupRank spGid hostUid) }

/-- `update_topology_data`. -/
def Topology.updateTopologyData (t : Topology) (cfg : HostsConfig) (gpUid : ℤ)
    (groupSize groupRank spGid hostUid : ℕ) : Topology :=
  (t.updateSp gpUid groupSize groupRank spGid hostUid).updateHost cfg groupSize groupRank spGid hostUid

/-- `populate_sp_ranks`. -/
def populateSpRanks (d : SpCacheData) : SpCacheData :=
  { d with ranks := (d.ranksBitset.getD []).firstBits d.nRanks }

/-- `populate_host_sps`, for one host: its table, and the positions it gives to the SPs. -/
def populateHostSps (spsHash : AList (fun _ : ℕ => SpCacheData)) (d : HostCacheData) :
    AList (fun _ : ℕ => SpCacheData) × HostCacheData :=
  let sps := (d.spsBitset.getD []).firstBits d.numSps
  let hash := sps.zipIdx.foldl (fun h p =>
    match h.lookup p.1 with
    | some sp => h.insert p.1 { sp with lid := p.2 }
    | none => h) spsHash
  (hash, { d with sps := sps })

/-- The loops of `do_populate_group_cache_lookup_table` find as many bits as the counters say, and each
SP of a host in the hash. -/
def Topology.scansEnd (t : Topology) : Bool :=
  (t.spsBitset.getD []).scanEnds t.nSps &&
  t.spsHash.entries.all (fun p => (p.2.ranksBitset.getD []).scanEnds p.2.nRanks) &&
  (t.hostsBitset.getD []).scanEnds t.nHosts &&
  t.hostsHash.entries.all fun p => (p.2.spsBitset.getD []).scanEnds p.2.numSps &&
    ((p.2.spsBitset.getD []).firstBits p.2.numSps).all fun gid => (t.spsHash.lookup gid).isSome

/-- `do_populate_group_cache_lookup_table`. The table of SPs is filled while the bits
of `sps_bitset` are walked, but with the SP of the engine at the slot's number. -/
def Topology.doPopulateGroupCacheLookupTable (t : Topology) : Topology :=
  if t.lookupTablesPopulated then t
  else
    let spsHash := t.spsHash.entries.foldl (fun h p => h.insert p.1 (populateSpRanks p.2)) t.spsHash
    let (spsHash, hostsHash) := t.hostsHash.entries.foldl (fun acc p =>
      let (sps, d) := populateHostSps acc.1 p.2
      (sps, acc.2.insert p.1 d)) (spsHash, t.hostsHash)
    { t with
      sps := ((t.spsBitset.getD []).firstBits t.nSps).zipIdx.map fun p => p.2
      hosts := (t.hostsBitset.getD []).firstBits t.nHosts
      spsHash := spsHash
      hostsHash := hostsHash
      lookupTablesPopulated := true
      fault := t.fault || !t.scansEnd }

end DpuOffload
