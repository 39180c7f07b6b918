import DpuOffload.Cache.Ownership
import DpuOffload.Cache.TopologyTables

/-!
# What the steps before a revoke keep

Looking a group up, learning its size, adding a rank, filling the lookup tables and other writes keep objects and
tables where they belong.
-/

namespace DpuOffload

open Transition Placement

/-! ### The keys of the hashes -/

section

variable (t : Topology) (cfg : HostsConfig) (gpUid : ℤ) (groupSize groupRank spGid hostUid : ℕ)

theorem mem_updateSp (k : ℕ) : k ∈ (t.updateSp gpUid groupSize groupRank spGid hostUid).spsHash ↔
    k = spGid ∨ k ∈ t.spsHash := by
  unfold Topology.updateSp
  split <;> exact AList.mem_insert _

theorem updateSp_hostsHash : (t.updateSp gpUid groupSize groupRank spGid hostUid).hostsHash = t.hostsHash := by
  unfold Topology.updateSp
  split <;> rfl

theorem updateSp_populated :
    (t.updateSp gpUid groupSize groupRank spGid hostUid).lookupTablesPopulated = t.lookupTablesPopulated := by
  unfold Topology.updateSp
  split <;> rfl

theorem mem_updateHost (k : ℕ) : k ∈ (t.updateHost cfg groupSize groupRank spGid hostUid).hostsHash ↔
    k = hostUid ∨ k ∈ t.hostsHash := by
  unfold Topology.updateHost
  split <;> exact AList.mem_insert _

theorem updateHost_spsHash : (t.updateHost cfg groupSize groupRank spGid hostUid).spsHash = t.spsHash := by
  unfold Topology.updateHost
  split <;> rfl

theorem updateHost_populated :
    (t.updateHost cfg groupSize groupRank spGid hostUid).lookupTablesPopulated = t.lookupTablesPopulated := by
  unfold Topology.updateHost
  split <;> rfl

theorem mem_spsHash_doPopulate {t : Topology} (hpop : t.lookupTablesPopulated = false) (k : ℕ) :
    k ∈ t.doPopulateGroupCacheLookupTable.spsHash ↔ k ∈ t.spsHash := by
  rw [← AList.lookup_isSome, ← AList.lookup_isSome, spsHash_doPopulate hpop, Option.isSome_map]

theorem mem_hostsHash_doPopulate {t : Topology} (hpop : t.lookupTablesPopulated = false) (k : ℕ) :
    k ∈ t.doPopulateGroupCacheLookupTable.hostsHash ↔ k ∈ t.hostsHash := by
  rw [← AList.lookup_isSome, ← AList.lookup_isSome, hostsHash_doPopulate hpop, Option.isSome_map]

end

theorem learnGroupSize_keys (g : GroupCache) (cfg : HostsConfig) (gpSize : ℤ) :
    (g.learnGroupSize cfg gpSize).topo.spsHash = g.topo.spsHash ∧
      (g.learnGroupSize cfg gpSize).topo.hostsHash = g.topo.hostsHash ∧
      (g.learnGroupSize cfg gpSize).topo.lookupTablesPopulated = g.topo.lookupTablesPopulated := by
  unfold GroupCache.learnGroupSize
  split <;> exact ⟨rfl, rfl, rfl⟩

namespace Memory

variable {m m' : Memory} {u v : ℤ} {t : Table}

/-! ### Values -/

/-- The values after a change of values. -/
theorem setGp_gp (gp : GroupCache) : ((m.setGp u gp).groups u).gp = gp :=
  congrArg GroupMem.gp ((groups_modify fun g => { g with gp := gp }).trans (if_pos rfl))

/-- A change of the values of a group that is not reset. -/
theorem Core.setGp_extends {gp : GroupCache} (h : m.Core) (hlive : (m.groups u).gp.groupUid ≠ INT_MAX)
    (hsps : ∀ k, k ∈ gp.topo.spsHash ↔ k ∈ (m.groups u).gp.topo.spsHash)
    (hhosts : ∀ k, k ∈ gp.topo.hostsHash ↔ k ∈ (m.groups u).gp.topo.hostsHash)
    (huid : gp.groupUid = (m.groups u).gp.groupUid)
    (hpop : gp.topo.lookupTablesPopulated = (m.groups u).gp.topo.lookupTablesPopulated) :
    Extends u m (m.setGp u gp) := by
  have hk : Keeps (m.groups u) { m.groups u with gp := gp } := ⟨rfl, rfl, rfl, rfl, hsps, hhosts⟩
  exact hk.extends (h.modify hk fun hreset => absurd (huid ▸ hreset) hlive) huid hpop

/-- Values that leave the topology as it is. -/
theorem Owned.setValues {gp : GroupCache} (h : m.Owned) (htopo : gp.topo = (m.groups u).gp.topo)
    (huid : gp.groupUid = (m.groups u).gp.groupUid)
    (hreset : gp.groupUid = INT_MAX → ∃ p, { m.groups u with gp := gp } = GroupMem.blank p) : (m.setGp u gp).Owned := by
  have hk : Keeps (m.groups u) { m.groups u with gp := gp } := by
    refine ⟨rfl, rfl, rfl, rfl, fun _ => ?_, fun _ => ?_⟩ <;> rw [htopo]
  refine h.extend (hk.extends (h.toCore.modify hk hreset) huid (by rw [htopo])) fun hg => ?_
  rw [setGp_gp, htopo] at hg ⊢
  exact (h.tabled u).manned hg

/-- **Other writes** keep everything. -/
theorem Owned.write (h : m.Owned) (w : GroupCache) : (m.write u w).Owned := by
  simp only [Memory.write]
  split
  · -- what a reset leaves is all there is to write
    rename_i hreset
    obtain ⟨p, hp⟩ := h.reset u hreset
    exact h.setValues rfl rfl fun _ => ⟨w.persistent, by rw [hp]; rfl⟩
  · rename_i hlive
    exact h.setValues rfl rfl fun hreset => absurd hreset hlive

/-! ### Tables of the group itself -/

/-- The values are the same after a table was created. -/
theorem create_gp (h : m.Core) (hlive : (m.groups u).gp.groupUid ≠ INT_MAX) (ht : m.Has u t) :
    ((m.create u t).groups u).gp = (m.groups u).gp := (h.create hlive ht).gp u

/-- Create a table of the group itself. -/
theorem Core.createOwn (h : m.Core) (hlive : (m.groups u).gp.groupUid ≠ INT_MAX) (t : GroupPtr) :
    Extends u m (m.create u (.own t)) ∧ ((m.create u (.own t)).groups u).gp = (m.groups u).gp :=
  ⟨h.create_extends hlive (t := .own t) trivial (fun _ => nofun), create_gp h hlive (t := .own t) trivial⟩

/-- Tables are created, then values are written that leave the hashes as they are. -/
theorem Owned.extendSetGp {gp : GroupCache} (h : m.Owned) (hlive : (m.groups u).gp.groupUid ≠ INT_MAX)
    (he : Extends u m m') (hgp : (m'.groups u).gp = (m.groups u).gp)
    (hsps : gp.topo.spsHash = (m.groups u).gp.topo.spsHash)
    (hhosts : gp.topo.hostsHash = (m.groups u).gp.topo.hostsHash)
    (huid : gp.groupUid = (m.groups u).gp.groupUid)
    (hpop : gp.topo.lookupTablesPopulated = (m.groups u).gp.topo.lookupTablesPopulated) : (m'.setGp u gp).Owned := by
  rw [← hgp] at hlive hsps hhosts huid hpop
  have he' := he.toCore.setGp_extends hlive (fun _ => by rw [hsps]) (fun _ => by rw [hhosts]) huid hpop
  refine h.extend (he.trans he') fun hg => ?_
  rw [setGp_gp, hsps, hgp] at hg
  rw [setGp_gp, hhosts, hgp]
  exact (h.tabled u).manned hg

/-- **A group learns its size.** -/
theorem Owned.learnGroupSize (h : m.Owned) (hlive : (m.groups u).gp.groupUid ≠ INT_MAX) (cfg : HostsConfig)
    (gpSize : ℤ) : (m.learnGroupSize u cfg gpSize).Owned := by
  simp only [Memory.learnGroupSize]
  split
  · obtain ⟨he₁, hg₁⟩ := h.toCore.createOwn hlive .spsBitset
    obtain ⟨he₂, hg₂⟩ := he₁.toCore.createOwn (by rwa [hg₁]) .hostsBitset
    obtain ⟨he₃, hg₃⟩ := he₂.toCore.createOwn (by rwa [hg₂, hg₁]) .revokesRanks
    obtain ⟨hsps, hhosts, hpop⟩ := learnGroupSize_keys (m.groups u).gp cfg gpSize
    exact h.extendSetGp hlive ((he₁.trans he₂).trans he₃) (hg₃.trans (hg₂.trans hg₁)) hsps hhosts
      (learnGroupSize_groupUid _ _ _) hpop
  · exact h

/-- **The bitset of revokes is created.** -/
theorem Owned.createRevokes (h : m.Owned) (hlive : (m.groups u).gp.groupUid ≠ INT_MAX) : (m.createRevokes u).Owned := by
  obtain ⟨he, hg⟩ := h.toCore.createOwn hlive .revokesRanks
  exact h.extendSetGp hlive he hg rfl rfl rfl rfl

/-! ### A rank is added -/

theorem setTopo_gp (topo : Topology) : ((m.setTopo u topo).groups u).gp = { (m.groups u).gp with topo := topo } :=
  congrArg GroupMem.gp ((groups_modify fun g => { g with gp := { g.gp with topo := topo } }).trans (if_pos rfl))

/-- A topology with the same keys. -/
theorem keeps_topo {topo : Topology} (hsps : ∀ k, k ∈ topo.spsHash ↔ k ∈ (m.groups u).gp.topo.spsHash)
    (hhosts : ∀ k, k ∈ topo.hostsHash ↔ k ∈ (m.groups u).gp.topo.hostsHash) :
    Keeps (m.groups u) { m.groups u with gp := { (m.groups u).gp with topo := topo } } :=
  ⟨rfl, rfl, rfl, rfl, hsps, hhosts⟩

/-- Change the topology of a group that is not reset. -/
theorem Core.setTopo (h : m.Core) (hlive : (m.groups u).gp.groupUid ≠ INT_MAX) (topo : Topology)
    (hsps : ∀ k, k ∈ topo.spsHash ↔ k ∈ (m.groups u).gp.topo.spsHash)
    (hhosts : ∀ k, k ∈ topo.hostsHash ↔ k ∈ (m.groups u).gp.topo.hostsHash) :
    (m.setTopo u topo).Core ∧ ∀ v t, (m.setTopo u topo).ptr v t = m.ptr v t :=
  ⟨h.modify (keeps_topo hsps hhosts) fun hreset => absurd hreset hlive, ptr_modify (keeps_topo hsps hhosts)⟩

theorem Core.setTopo_extends {topo : Topology} (h : m.Core) (hlive : (m.groups u).gp.groupUid ≠ INT_MAX)
    (hsps : ∀ k, k ∈ topo.spsHash ↔ k ∈ (m.groups u).gp.topo.spsHash)
    (hhosts : ∀ k, k ∈ topo.hostsHash ↔ k ∈ (m.groups u).gp.topo.hostsHash)
    (hpop : topo.lookupTablesPopulated = (m.groups u).gp.topo.lookupTablesPopulated) : Extends u m (m.setTopo u topo) :=
  (keeps_topo hsps hhosts).extends (h.setTopo hlive topo hsps hhosts).1 rfl hpop

/-- What adding a rank does to the values. -/
structure Adds (u : ℤ) (topo : Topology) (m m' : Memory) : Prop extends Extends u m m' where
  /-- The values. -/
  gp : (m'.groups u).gp = { (m.groups u).gp with topo := topo }

/-- Two bitsets are created for a new object. -/
theorem Takes.adds {T : Table → Prop} {topo : Topology} (h : Takes u T topo m m') (t t' : Table)
    (hlive : (m.groups u).gp.groupUid ≠ INT_MAX) (hno : ∀ t, T t → ¬ m.Has u t)
    (hpop : topo.lookupTablesPopulated = (m.groups u).gp.topo.lookupTablesPopulated)
    (ht : m'.Has u t) (ht' : m'.Has u t') (hne : ∀ gid, t ≠ .sp gid .ranks) (hne' : ∀ gid, t' ≠ .sp gid .ranks) :
    Adds u topo m ((m'.create u t).create u t') := by
  have hlive' : (m'.groups u).gp.groupUid ≠ INT_MAX := by rwa [h.gp]
  have he := h.toCore.create hlive' ht
  have he' := he.toCore.create (by rwa [he.gp]) (ht'.of_same he.toSame)
  refine ⟨(h.extends hno hpop).trans ((he.extends hne).trans (he'.extends hne')), ?_⟩
  rw [he'.gp, he.gp, h.gp]

/-- The part of `update_topology_data` about the SP. -/
theorem Core.updateSp (h : m.Core) (hlive : (m.groups u).gp.groupUid ≠ INT_MAX) (groupRank spGid hostUid : ℕ) :
    Adds u ((m.groups u).gp.topo.updateSp (m.groups u).gp.groupUid (m.groups u).gp.groupSize groupRank spGid hostUid) m
      (m.updateSp u groupRank spGid hostUid) := by
  have hkeys := mem_updateSp (m.groups u).gp.topo (m.groups u).gp.groupUid (m.groups u).gp.groupSize groupRank
    spGid hostUid
  have hhosts := updateSp_hostsHash (m.groups u).gp.topo (m.groups u).gp.groupUid (m.groups u).gp.groupSize groupRank
    spGid hostUid
  have hpop := updateSp_populated (m.groups u).gp.topo (m.groups u).gp.groupUid (m.groups u).gp.groupSize groupRank
    spGid hostUid
  simp only [Memory.updateSp]
  split
  · -- a new SP
    rename_i hnone
    have hnew : spGid ∉ (m.groups u).gp.topo.spsHash := AList.lookup_eq_none.1 hnone
    have htake := h.acquireSp hlive hnew hkeys fun k => by rw [hhosts]
    refine htake.adds _ _ hlive ?_ hpop ?_ trivial (fun _ => nofun) fun _ => nofun
    · rintro t ⟨s, rfl⟩
      exact hnew
    · show spGid ∈ ((m.acquireSp u spGid _).groups u).gp.topo.spsHash
      rw [htake.gp]
      exact (hkeys spGid).2 (.inl rfl)
  · rename_i d hsome
    have hold : spGid ∈ (m.groups u).gp.topo.spsHash := AList.lookup_isSome.1 (by rw [hsome]; rfl)
    refine ⟨h.setTopo_extends hlive (fun k => (hkeys k).trans (or_iff_right_of_imp ?_)) (fun k => by rw [hhosts]) hpop,
      setTopo_gp _⟩
    rintro rfl
    exact hold

/-- The part of `update_topology_data` about the host. -/
theorem Core.updateHost (h : m.Core) (hlive : (m.groups u).gp.groupUid ≠ INT_MAX) (cfg : HostsConfig)
    (groupRank spGid hostUid : ℕ) :
    Adds u ((m.groups u).gp.topo.updateHost cfg (m.groups u).gp.groupSize groupRank spGid hostUid) m
      (m.updateHost u cfg groupRank spGid hostUid) := by
  have hkeys := mem_updateHost (m.groups u).gp.topo cfg (m.groups u).gp.groupSize groupRank spGid hostUid
  have hsps := updateHost_spsHash (m.groups u).gp.topo cfg (m.groups u).gp.groupSize groupRank spGid hostUid
  have hpop := updateHost_populated (m.groups u).gp.topo cfg (m.groups u).gp.groupSize groupRank spGid hostUid
  simp only [Memory.updateHost]
  split
  · -- a new host
    rename_i hnone
    have hnew : hostUid ∉ (m.groups u).gp.topo.hostsHash := AList.lookup_eq_none.1 hnone
    have htake := h.acquireHost hlive hnew (fun k => by rw [hsps]) hkeys
    have hhas : ∀ s, (m.acquireHost u hostUid ((m.groups u).gp.topo.updateHost cfg (m.groups u).gp.groupSize groupRank
        spGid hostUid)).Has u (.host hostUid s) := by
      intro s
      show hostUid ∈ ((m.acquireHost u hostUid _).groups u).gp.topo.hostsHash
      rw [htake.gp]
      exact (hkeys hostUid).2 (.inl rfl)
    have hno : ∀ t, (∃ s, t = Table.host hostUid s) → ¬ m.Has u t := by
      rintro t ⟨s, rfl⟩
      exact hnew
    have hadds := htake.adds (.host hostUid .spsBitset) (.host hostUid .ranksBitset) hlive hno hpop (hhas _) (hhas _)
      (fun _ => nofun) fun _ => nofun
    obtain ⟨hbits, hgp⟩ := hadds.toCore.createOwn (by rwa [hadds.uid]) .hostsBitset
    exact ⟨hadds.toExtends.trans hbits, hgp.trans hadds.gp⟩
  · rename_i d hsome
    have hold : hostUid ∈ (m.groups u).gp.topo.hostsHash := AList.lookup_isSome.1 (by rw [hsome]; rfl)
    refine ⟨h.setTopo_extends hlive (fun k => by rw [hsps]) (fun k => (hkeys k).trans (or_iff_right_of_imp ?_)) hpop,
      setTopo_gp _⟩
    rintro rfl
    exact hold

/-- **A rank is added.** -/
theorem Owned.updateTopologyData (h : m.Owned) (hlive : (m.groups u).gp.groupUid ≠ INT_MAX) (cfg : HostsConfig)
    (groupRank spGid hostUid : ℕ) : (m.updateTopologyData u cfg groupRank spGid hostUid).Owned := by
  have hsp := h.toCore.updateSp hlive groupRank spGid hostUid
  have hhost := hsp.toCore.updateHost (by rwa [hsp.uid]) cfg groupRank spGid hostUid
  refine Owned.beside (h.extend (hsp.toExtends.trans hhost.toExtends) fun _ => ⟨hostUid, ?_⟩) _ _
  rw [hhost.gp]
  exact (mem_updateHost _ cfg _ groupRank spGid hostUid hostUid).2 (.inl rfl)

/-! ### The lookup tables are filled -/

/-- `populate_sp_ranks` for SPs whose tables were not allocated. -/
theorem Core.populateSpRanks (gids : List ℕ) (h : m.Core) (hlive : (m.groups u).gp.groupUid ≠ INT_MAX)
    (hnodup : gids.Nodup) (hhas : ∀ gid ∈ gids, gid ∈ (m.groups u).gp.topo.spsHash)
    (hnew : ∀ gid ∈ gids, ∀ a, (Table.sp gid .ranks, a) ∉ (m.groups u).allocated) :
    (gids.foldl (fun m gid => m.malloc u (.sp gid .ranks)) m).Core ∧
      Local u m (gids.foldl (fun m gid => m.malloc u (.sp gid .ranks)) m) := by
  induction gids generalizing m with
  | nil => exact ⟨h, .refl u m⟩
  | cons gid gids ih =>
    obtain ⟨hgid, hnodup⟩ := List.nodup_cons.1 hnodup
    have hc : m.Has u (.sp gid .ranks) := hhas gid List.mem_cons_self
    have hl := local_malloc h.isApart hc
    have hcore := h.malloc hlive hc (hnew gid List.mem_cons_self)
    obtain ⟨hcore', hl'⟩ := ih hcore (by rwa [hl.gp]) hnodup
      (fun k hk => by
        rw [hl.gp]
        exact hhas k (List.mem_cons_of_mem _ hk))
      (fun k hk a hm => by
        rw [malloc_allocated, if_pos rfl] at hm
        rcases List.mem_cons.1 hm with he | hm
        · cases he
          exact hgid hk
        · exact hnew k (List.mem_cons_of_mem _ hk) a hm)
    exact ⟨hcore', hl.trans hl'⟩

/-- `populate_host_sps`: every host has its table. -/
theorem Core.populateHostSps (uids : List ℕ) (h : m.Core) (hlive : (m.groups u).gp.groupUid ≠ INT_MAX)
    (hhas : ∀ uid ∈ uids, uid ∈ (m.groups u).gp.topo.hostsHash) :
    (uids.foldl (fun m uid => m.create u (.host uid .sps)) m).Core ∧
      Local u m (uids.foldl (fun m uid => m.create u (.host uid .sps)) m) ∧
      ∀ uid ∈ uids, (uids.foldl (fun m uid => m.create u (.host uid .sps)) m).ptr u (.host uid .sps) ≠ none := by
  induction uids generalizing m with
  | nil => exact ⟨h, .refl u m, nofun⟩
  | cons uid uids ih =>
    have hc := h.create hlive (t := .host uid .sps) (hhas uid List.mem_cons_self)
    obtain ⟨hcore, hl, hthere⟩ := ih hc.toCore (by rwa [hc.gp]) fun k hk => by
      rw [hc.gp]
      exact hhas k (List.mem_cons_of_mem _ hk)
    refine ⟨hcore, hc.toLocal.trans hl, fun k hk => ?_⟩
    rcases List.mem_cons.1 hk with rfl | hk
    · exact hl.mono hc.there
    · exact hthere k hk

/-- **The tables are allocated**: every host has one. -/
theorem Owned.fillTables (h : m.Owned) (hlive : (m.groups u).gp.groupUid ≠ INT_MAX)
    (hpop : (m.groups u).gp.topo.lookupTablesPopulated = false) :
    (m.fillTables u).Core ∧ Local u m (m.fillTables u) ∧
      ∀ uid ∈ (m.groups u).gp.topo.hostsHash, (m.fillTables u).ptr u (.host uid .sps) ≠ none := by
  have h₁ := h.toCore.create hlive (t := .own .sps) trivial
  have h₂ := h₁.toCore.populateSpRanks ((m.create u (.own .sps)).groups u).gp.topo.spsHash.keys (by rwa [h₁.gp])
    (AList.keys_nodup _) (fun gid hg => hg) fun gid _ a hm =>
      (h.tabled u).unfilled hpop gid a ((h₁.only hm).resolve_left nofun)
  have h₃ := h₂.1.create (u := u) (by rwa [h₂.2.gp, h₁.gp]) (t := .own .hosts) trivial
  have hgp := (h₃.gp u).trans ((h₂.2.gp u).trans (h₁.gp u))
  obtain ⟨hcore, hl, hthere⟩ := h₃.toCore.populateHostSps (u := u) _ (by rwa [hgp]) fun uid huid => huid
  refine ⟨hcore, ((h₁.toLocal.trans h₂.2).trans h₃.toLocal).trans hl, fun uid huid => hthere uid ?_⟩
  rw [hgp]
  exact huid

/-- **The lookup tables are filled.** -/
theorem Owned.doPopulate (h : m.Owned) (hlive : (m.groups u).gp.groupUid ≠ INT_MAX) :
    (m.doPopulateGroupCacheLookupTable u).Owned := by
  simp only [Memory.doPopulateGroupCacheLookupTable]
  split
  · exact h
  rename_i hpop
  have hpop : (m.groups u).gp.topo.lookupTablesPopulated = false := by simpa using hpop
  obtain ⟨hcore, hl, hthere⟩ := h.fillTables hlive hpop
  have hgp := hl.gp u
  obtain ⟨hcore', hptr⟩ := hcore.setTopo (u := u) (by rwa [hgp]) (m.groups u).gp.topo.doPopulateGroupCacheLookupTable
    (fun k => by rw [hgp]; exact mem_spsHash_doPopulate hpop k)
    (fun k => by rw [hgp]; exact mem_hostsHash_doPopulate hpop k)
  have hgp' : ((((m.fillTables u).setTopo u (m.groups u).gp.topo.doPopulateGroupCacheLookupTable).groups u).gp.topo) =
      (m.groups u).gp.topo.doPopulateGroupCacheLookupTable := by rw [setTopo_gp]
  refine Owned.beside (h.at hcore' (fun hv => ((groups_modify _).trans (if_neg hv)).trans (hl.others hv))
    (fun hv t => (hptr _ t).trans (hl.ptrs hv t))
    ⟨fun _ => ?live, fun hno => ?unfilled, fun hm => ?filled, fun hg => ?manned⟩) _ _
  case live =>
    obtain ⟨hsps, hhosts⟩ := (h.tabled u).live hlive
    rw [hptr, hptr]
    exact ⟨hl.mono hsps, hl.mono hhosts⟩
  case unfilled =>
    rw [hgp', (doPopulate_fields hpop).2.2.2.2] at hno
    cases hno
  case filled =>
    -- the SP is one of the group, which has a host
    have hg : _ ∈ _ := Has.of_ptr (hcore'.held hm)
    rw [hgp', mem_spsHash_doPopulate hpop] at hg
    obtain ⟨uid, huid⟩ := (h.tabled u).manned hg
    exact ⟨uid, by rw [hptr]; exact hthere uid huid⟩
  case manned =>
    rw [hgp', mem_spsHash_doPopulate hpop] at hg
    obtain ⟨uid, huid⟩ := (h.tabled u).manned hg
    rw [hgp']
    exact ⟨uid, (mem_hostsHash_doPopulate hpop uid).2 huid⟩

/-! ### A group is looked up -/

/-- What a lookup leaves. -/
structure Found (u : ℤ) (m m' : Memory) : Prop extends Owned m' where
  /-- The group is not reset. -/
  live : (m'.groups u).gp.groupUid ≠ INT_MAX
  /-- What a revoke does not reset. -/
  persistent : (m'.groups u).gp.persistent = (m.groups u).gp.persistent
  /-- The topology. -/
  topo : (m'.groups u).gp.topo = (m.groups u).gp.topo
  /-- The objects of SPs. -/
  spAt : (m'.groups u).spAt = (m.groups u).spAt
  /-- The objects of hosts. -/
  hostAt : (m'.groups u).hostAt = (m.groups u).hostAt
  /-- Their pointers. -/
  objects : ∀ t, (∀ s, t ≠ .own s) → m'.ptr u t = m.ptr u t
  /-- The caches of the other groups. -/
  others : ∀ {v}, v ≠ u → m'.groups v = m.groups v
  /-- Their pointers. -/
  ptrs : ∀ {v}, v ≠ u → ∀ t, m'.ptr v t = m.ptr v t
  /-- The pool of SPs. -/
  spPool : m'.spPool = m.spPool
  /-- The pool of hosts. -/
  hostPool : m'.hostPool = m.hostPool
  /-- Nothing is released. -/
  freed : m'.freed = m.freed

theorem malloc_freed (m : Memory) (u : ℤ) (t : Table) : (m.malloc u t).freed = m.freed := by
  cases t <;> rfl

theorem create_freed (m : Memory) (u : ℤ) (t : Table) : (m.create u t).freed = m.freed := by
  unfold create
  split
  · exact malloc_freed m u t
  · rfl

theorem ptr_create_of_ne {t' : Table} (h : m.Apart) (ht : m.Has u t) (hne : t' ≠ t) (v : ℤ) :
    (m.create u t).ptr v t' = m.ptr v t' := by
  unfold create
  split
  · rw [ptr_malloc h ht, if_neg fun he => hne he.2]
  · rfl

/-- What is noted beside the memory does not matter. -/
theorem Found.beside (h : Found u m m') (b : Bool) (l : List ℤ) :
    Found u m ({ m' with fault := b, handled := l } : Memory) := by
  have hptr : ∀ v t, ({ m' with fault := b, handled := l } : Memory).ptr v t = m'.ptr v t := fun v t => by
    cases t <;> rfl
  exact ⟨h.toOwned.beside b l, h.live, h.persistent, h.topo, h.spAt, h.hostAt,
    fun t ht => (hptr u t).trans (h.objects t ht), h.others, fun hv t => (hptr _ t).trans (h.ptrs hv t), h.spPool,
    h.hostPool, h.freed⟩

/-- One more table of the group itself. -/
theorem Found.createOwn (h : Found u m m') (s : GroupPtr) : Found u m (m'.create u (.own s)) := by
  have hc := h.toCore.create h.live (t := .own s) trivial
  have he := hc.extends fun _ => nofun
  have howned : (m'.create u (.own s)).Owned := by
    refine h.toOwned.extend he fun hg => ?_
    rw [hc.gp] at hg ⊢
    exact (h.tabled u).manned hg
  refine ⟨howned, ?_, ?_, ?_, (hc.spAt u).trans h.spAt, (hc.hostAt u).trans h.hostAt, fun t ht => ?_,
    fun hv => (hc.others hv).trans (h.others hv), fun hv t => (hc.ptrs hv t).trans (h.ptrs hv t),
    hc.spPool.trans h.spPool, hc.hostPool.trans h.hostPool, (create_freed m' u _).trans h.freed⟩
  · rw [hc.gp]
    exact h.live
  · rw [hc.gp]
    exact h.persistent
  · rw [hc.gp]
    exact h.topo
  · rw [ptr_create_of_ne (t := .own s) h.isApart trivial (ht s)]
    exact h.objects t ht

/-- `engine` is set. -/
theorem Found.setEngine (h : Found u m m') (f : GroupMem → Bool) :
    Found u m (m'.modify u fun g => { g with engine := f g }) := by
  have hk : Keeps (m'.groups u) { m'.groups u with engine := f (m'.groups u) } :=
    ⟨rfl, rfl, rfl, rfl, fun _ => .rfl, fun _ => .rfl⟩
  have hself : (m'.modify u fun g => { g with engine := f g }).groups u =
      { m'.groups u with engine := f (m'.groups u) } := (groups_modify _).trans (if_pos rfl)
  have hcore := h.toCore.modify (f := fun g => { g with engine := f g }) hk fun hreset => absurd hreset h.live
  have hptr := ptr_modify (f := fun g => { g with engine := f g }) hk
  have howned : (m'.modify u fun g => { g with engine := f g }).Owned := by
    refine h.toOwned.extend (hk.extends hcore rfl rfl) fun hg => ?_
    rw [hself] at hg ⊢
    exact (h.tabled u).manned hg
  refine ⟨howned, ?_, ?_, ?_, ?_, ?_, fun t ht => (hptr u t).trans (h.objects t ht),
    fun hv => ((groups_modify _).trans (if_neg hv)).trans (h.others hv), fun hv t => (hptr _ t).trans (h.ptrs hv t),
    h.spPool, h.hostPool, h.freed⟩ <;> rw [hself]
  · exact h.live
  · exact h.persistent
  · exact h.topo
  · exact h.spAt
  · exact h.hostAt

/-- `malloc` for a pointer that is `NULL`. -/
theorem Core.mallocOwn (h : m.Core) (hlive : (m.groups u).gp.groupUid ≠ INT_MAX) {s : GroupPtr}
    (hp : m.ptr u (.own s) = none) : Created u (.own s) m (m.malloc u (.own s)) := by
  have hc := h.create hlive (t := .own s) trivial
  rwa [Memory.create, if_pos hp] at hc

/-- **A group that was reset is initialised again.** -/
theorem Owned.initGroupCache {gp : GroupCache} (h : m.Owned) (hreset : (m.groups u).gp.groupUid = INT_MAX)
    (hlive : gp.groupUid ≠ INT_MAX) (hpers : gp.persistent = (m.groups u).gp.persistent)
    (htopo : gp.topo = Topology.empty) (gpSize : ℕ) : Found u m (m.initGroupCache u gp gpSize) := by
  obtain ⟨p, hp⟩ := h.reset u hreset
  have hbasic : m.basicInitGroupCache u = m := by
    have hsame : { GroupMem.blank (m.groups u).gp.persistent with allocated := (m.groups u).allocated } =
        m.groups u := by
      rw [hp]
      rfl
    simp only [basicInitGroupCache, modify, hsame, Function.update_eq_self]
  have hold : (m.groups u).gp.topo = Topology.empty := by rw [hp]; rfl
  have hk : Keeps (m.groups u) { m.groups u with gp := gp } := by
    refine ⟨rfl, rfl, rfl, rfl, fun _ => ?_, fun _ => ?_⟩ <;> rw [hold, htopo]
  -- the values first, then the three allocations
  have hgp : ((m.setGp u gp).groups u).gp = gp := setGp_gp gp
  have hc₀ : (m.setGp u gp).Core := h.toCore.modify hk fun hr => absurd hr hlive
  have hptr₀ : ∀ v t, (m.setGp u gp).ptr v t = m.ptr v t := ptr_modify hk
  have hnone : ∀ s, m.ptr u (.own s) = none := fun s => by
    simp only [ptr, hp]
    rfl
  have h₁ := hc₀.mallocOwn (u := u) (s := .ranks) (by rwa [hgp]) (by rw [hptr₀, hnone])
  have hp₁ : ((m.setGp u gp).malloc u (.own .ranks)).ptr u (.own .spsHash) = none := by
    rw [ptr_malloc (t := .own .ranks) hc₀.isApart trivial, if_neg (by simp), hptr₀, hnone]
  have h₂ := h₁.toCore.mallocOwn (u := u) (s := .spsHash) (by rwa [h₁.gp, hgp]) hp₁
  have hp₂ : (((m.setGp u gp).malloc u (.own .ranks)).malloc u (.own .spsHash)).ptr u (.own .hostsHash) = none := by
    rw [ptr_malloc (t := .own .spsHash) h₁.isApart trivial, if_neg (by simp),
      ptr_malloc (t := .own .ranks) hc₀.isApart trivial, if_neg (by simp), hptr₀, hnone]
  have h₃ := h₂.toCore.mallocOwn (u := u) (s := .hostsHash) (by rwa [h₂.gp, h₁.gp, hgp]) hp₂
  have hl := (h₁.toLocal.trans h₂.toLocal).trans h₃.toLocal
  have hkeys : Keeps (m.groups u) ((m.setGp u gp).groups u) := keeps_modify (f := fun g => { g with gp := gp }) hk u
  have hothers : ∀ {v}, v ≠ u → (m.setGp u gp).groups v = m.groups v := fun hv => (groups_modify _).trans (if_neg hv)
  rw [Memory.initGroupCache, hbasic]
  have hno : ∀ gid a, (Table.sp gid .ranks, a) ∉ (((((m.setGp u gp).malloc u (.own .ranks)).malloc u
      (.own .spsHash)).malloc u (.own .hostsHash)).groups u).allocated := by
    intro gid a hm
    have hm₀ := (h₁.only ((h₂.only ((h₃.only hm).resolve_left (by simp))).resolve_left (by simp))).resolve_left (by simp)
    rw [hkeys.allocated, hp] at hm₀
    cases hm₀
  have howned := h.at h₃.toCore (fun hv => (hl.others hv).trans (hothers hv))
    (fun hv t => (hl.ptrs hv t).trans (hptr₀ _ t))
    ⟨fun _ => ⟨h₃.mono h₂.there, h₃.there⟩, fun _ gid a hm => hno gid a hm, fun hm => absurd hm (hno _ _), fun hg => by
      rw [hl.gp, hgp, htopo] at hg
      cases hg⟩
  refine Found.beside ⟨howned, ?_, ?_, ?_, (hl.spAt u).trans hkeys.spAt, (hl.hostAt u).trans hkeys.hostAt,
    fun t ht => ?_, fun hv => (hl.others hv).trans (hothers hv), fun hv t => (hl.ptrs hv t).trans (hptr₀ _ t), hl.spPool,
    hl.hostPool, ?_⟩ _ _
  · rwa [hl.gp, hgp]
  · rw [hl.gp, hgp, hpers]
  · rw [hl.gp, hgp, htopo, hold]
  · rw [ptr_malloc (t := .own .hostsHash) h₂.isApart trivial, if_neg fun he => ht _ he.2,
      ptr_malloc (t := .own .spsHash) h₁.isApart trivial, if_neg fun he => ht _ he.2,
      ptr_malloc (t := .own .ranks) hc₀.isApart trivial, if_neg fun he => ht _ he.2, hptr₀]
  · rw [malloc_freed, malloc_freed, malloc_freed]
    rfl

/-- **A group is looked up.** -/
theorem Owned.getGroupCacheInternal (h : m.Owned) (hu : u ≠ INT_MAX) (gpSize : ℤ) (n : ℕ) :
    Found u m (m.getGroupCacheInternal u gpSize n) := by
  have hfound : Found u m (if (m.groups u).gp.groupUid = INT_MAX then
      m.initGroupCache u (DpuOffload.getGroupCacheInternal u (some (m.groups u).gp) gpSize) (sizeT gpSize) else m) := by
    split
    · rename_i hreset
      have hgp : DpuOffload.getGroupCacheInternal u (some (m.groups u).gp) gpSize =
          { DpuOffload.initGroupCache (m.groups u).gp (sizeT gpSize) with groupUid := u } := by
        simp only [DpuOffload.getGroupCacheInternal, if_pos hreset]
      rw [hgp]
      refine h.initGroupCache hreset hu ?_ ?_ (sizeT gpSize) <;> rfl
    · rename_i hlive
      exact ⟨h, hlive, rfl, rfl, rfl, rfl, fun _ _ => rfl, fun _ => rfl, fun _ _ => rfl, rfl, rfl, rfl⟩
  have hengine := hfound.setEngine fun g => g.engine || g.gp.numLocalEntries == 0
  simp only [Memory.getGroupCacheInternal]
  split
  · exact hengine.createOwn .sps
  · exact hengine

/-- **A query** gives the values it gives to a group cache; every access stays within its array, and the handler of
revokes is not invoked. -/
theorem getGroupCacheInternal_query (m : Memory) (u : ℤ) (n : ℕ) :
    ((m.getGroupCacheInternal u 0 n).groups u).gp = getGroupCache u (some (m.groups u).gp) ∧
      (m.getGroupCacheInternal u 0 n).fault = m.fault ∧ (m.getGroupCacheInternal u 0 n).handled = m.handled := by
  have hinit : ∀ gp : GroupCache, ((m.initGroupCache u gp (sizeT 0)).groups u).gp = gp ∧
      (m.initGroupCache u gp (sizeT 0)).fault = m.fault ∧ (m.initGroupCache u gp (sizeT 0)).handled = m.handled := by
    intro gp
    have hs := ((same_malloc ((m.basicInitGroupCache u).setGp u gp) u (.own .ranks)).trans (same_malloc _ u
      (.own .spsHash))).trans (same_malloc _ u (.own .hostsHash))
    refine ⟨(hs.gp u).trans (setGp_gp gp), ?_, hs.handled⟩
    rw [Memory.initGroupCache, note, hs.fault]
    simp [sizeT, setGp, basicInitGroupCache, modify]
  simp only [Memory.getGroupCacheInternal, getGroupCache]
  generalize hm₁ : (if (m.groups u).gp.groupUid = INT_MAX then m.initGroupCache u
    (DpuOffload.getGroupCacheInternal u (some (m.groups u).gp) 0) (sizeT 0) else m) = m₁
  have h₁ : (m₁.groups u).gp = DpuOffload.getGroupCacheInternal u (some (m.groups u).gp) 0 ∧ m₁.fault = m.fault ∧
      m₁.handled = m.handled := by
    rw [← hm₁]
    split
    · exact hinit _
    · rename_i hlive
      rw [getGroupCacheInternal_of_live hlive]
      exact ⟨rfl, rfl, rfl⟩
  have hs := same_modify (m := m₁) (u := u) (f := fun g => { g with engine := g.engine || g.gp.numLocalEntries == 0 })
    rfl rfl rfl
  split
  · have hs' := hs.trans (same_create _ u (.own .sps))
    exact ⟨(hs'.gp u).trans h₁.1, hs'.fault.trans h₁.2.1, hs'.handled.trans h₁.2.2⟩
  · exact ⟨(hs.gp u).trans h₁.1, hs.fault.trans h₁.2.1, hs.handled.trans h₁.2.2⟩

end Memory

end DpuOffload
