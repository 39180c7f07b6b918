import DpuOffload.Lib.Transition
import DpuOffload.Cache.Connect
import Mathlib.Logic.Function.Basic

/-!
# The counters of the topology

`update_topology_data` runs once for each shadow SP of each entry added. It counts the
ranks of the SP (`n_ranks`) and marks the rank in the bitset of the SP; the first time an
SP shows up it counts the SP (`n_sps`), marks it (`sps_bitset`) and adds it to `sps_hash`.
So when each rank is added once the counters count the bits, and the entries.

On a host one rank is added twice: at the end of its own bootstrapping
`progress_client_econtext` calls `host_add_local_rank_to_cache`, which updates the
topology, and then updates the topology itself. And `sps_bitset` has one bit for each rank
of the group where it should have one for each SP of the engine.

* `GroupCache.SpsCounted` — the counters agree.
* `not_spsCounted_of_bootstrapDone` — one bootstrapping, after which they do not.
* `spsCounted_of_reach` — **they agree** after every sequence of additions without the end
  of a bootstrapping, of SPs that have a bit in `sps_bitset`.
-/

namespace DpuOffload

open Transition

/-! ### The hash of SPs -/

/-- What is counted about each SP. -/
def spTally (h : AList (fun _ : ℕ => SpCacheData)) (gid : ℕ) : Option (ℕ × Option Bitset) :=
  (h.lookup gid).map fun d => (d.nRanks, d.ranksBitset)

theorem mem_keys_iff_spTally {h : AList (fun _ : ℕ => SpCacheData)} {gid : ℕ} :
    gid ∈ h.keys.toFinset ↔ (spTally h gid).isSome := by
  rw [List.mem_toFinset, ← AList.mem_keys, ← AList.lookup_isSome, spTally, Option.isSome_map]

theorem spTally_insert (h : AList (fun _ : ℕ => SpCacheData)) (gid : ℕ) (d : SpCacheData) :
    spTally (h.insert gid d) = Function.update (spTally h) gid (some (d.nRanks, d.ranksBitset)) := by
  funext q
  by_cases hq : q = gid
  · subst hq
    simp [spTally]
  · rw [Function.update_of_ne hq, spTally, AList.lookup_insert_ne hq, spTally]

/-- What does not touch the counts of an SP leaves all of them. -/
theorem spTally_insert_same {h : AList (fun _ : ℕ => SpCacheData)} {gid : ℕ} {d d' : SpCacheData}
    (hd : h.lookup gid = some d) (hn : d'.nRanks = d.nRanks) (hb : d'.ranksBitset = d.ranksBitset) :
    spTally (h.insert gid d') = spTally h := by
  rw [spTally_insert, Function.update_eq_self_iff, hn, hb, spTally, hd]
  rfl

theorem spTally_populateHostSps (h : AList (fun _ : ℕ => SpCacheData)) (d : HostCacheData) :
    spTally (populateHostSps h d).1 = spTally h := by
  simp only [populateHostSps]
  generalize ((d.spsBitset.getD []).firstBits d.numSps).zipIdx = ps
  induction ps generalizing h with
  | nil => rfl
  | cons p ps ih =>
    rw [List.foldl_cons, ih]
    split
    · rename_i sp hd
      exact spTally_insert_same hd rfl rfl
    · rfl

/-- Filling the lookup tables leaves the counts of the SPs. -/
theorem spTally_doPopulate (t : Topology) : spTally t.doPopulateGroupCacheLookupTable.spsHash = spTally t.spsHash := by
  unfold Topology.doPopulateGroupCacheLookupTable
  split
  · rfl
  · have hranks : ∀ (ps : List (Sigma fun _ : ℕ => SpCacheData)) (h : AList (fun _ : ℕ => SpCacheData)),
        (∀ p ∈ ps, spTally h p.1 = some (p.2.nRanks, p.2.ranksBitset)) →
          spTally (ps.foldl (fun h p => h.insert p.1 (populateSpRanks p.2)) h) = spTally h := by
      intro ps
      induction ps with
      | nil => intro h _; rfl
      | cons p ps ih =>
        intro h hp
        have hsame : spTally (h.insert p.1 (populateSpRanks p.2)) = spTally h := by
          rw [spTally_insert, Function.update_eq_self_iff]
          exact (hp p List.mem_cons_self).symm
        rw [List.foldl_cons, ih _ fun q hq => by rw [hsame]; exact hp q (List.mem_cons_of_mem _ hq), hsame]
    have hhosts : ∀ (ps : List (Sigma fun _ : ℕ => HostCacheData))
        (acc : AList (fun _ : ℕ => SpCacheData) × AList (fun _ : ℕ => HostCacheData)),
          spTally (ps.foldl (fun acc p =>
            ((populateHostSps acc.1 p.2).1, acc.2.insert p.1 (populateHostSps acc.1 p.2).2)) acc).1 = spTally acc.1 := by
      intro ps
      induction ps with
      | nil => intro acc; rfl
      | cons p ps ih =>
        intro acc
        rw [List.foldl_cons, ih]
        exact spTally_populateHostSps acc.1 p.2
    refine (hhosts _ _).trans (hranks _ _ fun p hp => ?_)
    have hl : t.spsHash.lookup p.1 = some p.2 := AList.mem_lookup_iff.2 hp
    rw [spTally, hl]
    rfl

/-! ### One update -/

/-- The counters of a topology agree with `L`, the ranks that list each SP, in a group of
`n` ranks. -/
structure Topology.Tallies (n : ℕ) (t : Topology) (L : ℕ → Finset ℕ) : Prop where
  /-- The ranks of an SP are counted and marked. -/
  sp : ∀ gid k b, spTally t.spsHash gid = some (k, b) →
    k = (L gid).card ∧ ∃ b', b = some b' ∧ n ≤ b'.capacity ∧ b'.bits = L gid
  /-- No rank lists an SP that is not known. -/
  unlisted : ∀ gid, spTally t.spsHash gid = none → L gid = ∅
  /-- The SPs are counted. -/
  nSps : t.nSps = t.spsHash.keys.toFinset.card
  /-- The SPs are marked. -/
  bits : (t.spsBitset = none ∧ t.spsHash.keys.toFinset = ∅) ∨
    ∃ b, t.spsBitset = some b ∧ (Bitset.create n).capacity ≤ b.capacity ∧ b.bits = t.spsHash.keys.toFinset

/-- The parts of a topology that the tallies look at. -/
theorem Topology.Tallies.congr {n : ℕ} {t t' : Topology} {L : ℕ → Finset ℕ} (h : t.Tallies n L)
    (hs : spTally t'.spsHash = spTally t.spsHash) (hn : t'.nSps = t.nSps) (hb : t'.spsBitset = t.spsBitset) :
    t'.Tallies n L := by
  have hk : t'.spsHash.keys.toFinset = t.spsHash.keys.toFinset := by
    ext gid
    rw [mem_keys_iff_spTally, mem_keys_iff_spTally, hs]
  exact ⟨by rw [hs]; exact h.sp, by rw [hs]; exact h.unlisted, by rw [hk, hn]; exact h.nSps, by rw [hk, hb]; exact h.bits⟩

theorem keys_toFinset_insert (h : AList (fun _ : ℕ => SpCacheData)) (gid : ℕ) (d : SpCacheData) :
    (h.insert gid d).keys.toFinset = insert gid h.keys.toFinset := by
  ext q
  simp only [List.mem_toFinset, ← AList.mem_keys, AList.mem_insert, Finset.mem_insert]

variable {n : ℕ} {t : Topology} {L : ℕ → Finset ℕ}

/-- **An update counts the rank for the SP, and the SP if it is new.** -/
theorem Topology.Tallies.updateSp (h : t.Tallies n L) {r gid : ℕ} (hr : r < n) (hnew : r ∉ L gid)
    (hgid : gid < (Bitset.create n).capacity) (uid : ℤ) (host : ℕ) :
    (t.updateSp uid n r gid host).Tallies n (Function.update L gid (insert r (L gid))) := by
  have hL : ∀ {q}, q ≠ gid → Function.update L gid (insert r (L gid)) q = L q := fun hq => Function.update_of_ne hq _ _
  have hLg : Function.update L gid (insert r (L gid)) gid = insert r (L gid) := Function.update_self _ _ _
  have hcap : n ≤ (Bitset.create n).capacity := Bitset.le_capacity_create n
  cases hd : t.spsHash.lookup gid with
  | none =>
    have hnone : spTally t.spsHash gid = none := by rw [spTally, hd]; rfl
    have hempty : L gid = ∅ := h.unlisted gid hnone
    have hkey : gid ∉ t.spsHash.keys.toFinset := by rw [mem_keys_iff_spTally, hnone]; simp
    have hbits : (Bitset.create n).capacity ≤ (bitsetCreate t.spsBitset n).capacity ∧
        (bitsetCreate t.spsBitset n).bits = t.spsHash.keys.toFinset := by
      rcases h.bits with ⟨hb, hk⟩ | ⟨b, hb, hc, hk⟩
      · rw [hb, hk]; exact ⟨le_rfl, Bitset.bits_create n⟩
      · rw [hb]; exact ⟨hc, hk⟩
    simp only [Topology.updateSp, hd]
    refine ⟨fun q k b hq => ?_, fun q hq => ?_, ?_, .inr ⟨_, rfl, ?_, ?_⟩⟩
    · rw [spTally_insert] at hq
      by_cases hqg : q = gid
      · subst hqg
        rw [Function.update_self] at hq
        cases hq
        rw [hLg, hempty]
        refine ⟨by simp, _, rfl, by simpa using hcap, ?_⟩
        rw [Bitset.bits_set (hr.trans_le hcap), Bitset.bits_create]
      · rw [Function.update_of_ne hqg] at hq
        rw [hL hqg]
        exact h.sp q k b hq
    · rw [spTally_insert] at hq
      by_cases hqg : q = gid
      · subst hqg
        rw [Function.update_self] at hq
        cases hq
      · rw [Function.update_of_ne hqg] at hq
        rw [hL hqg]
        exact h.unlisted q hq
    · rw [keys_toFinset_insert, Finset.card_insert_of_notMem hkey, h.nSps]
    · simpa using hbits.1
    · rw [Bitset.bits_set (hgid.trans_le hbits.1), hbits.2, keys_toFinset_insert]
  | some d =>
    obtain ⟨hk, b, hb, hc, hbits⟩ := h.sp gid d.nRanks d.ranksBitset (by rw [spTally, hd]; rfl)
    have hkey : gid ∈ t.spsHash.keys.toFinset := by rw [mem_keys_iff_spTally, spTally, hd]; rfl
    simp only [Topology.updateSp, hd]
    refine ⟨fun q k b' hq => ?_, fun q hq => ?_, ?_, ?_⟩
    · rw [spTally_insert] at hq
      by_cases hqg : q = gid
      · subst hqg
        rw [Function.update_self] at hq
        cases hq
        rw [hLg, Finset.card_insert_of_notMem hnew, ← hk, hb]
        refine ⟨rfl, _, rfl, by simpa using hc, ?_⟩
        rw [Bitset.bits_set (hr.trans_le hc), hbits]
      · rw [Function.update_of_ne hqg] at hq
        rw [hL hqg]
        exact h.sp q k b' hq
    · rw [spTally_insert] at hq
      by_cases hqg : q = gid
      · subst hqg
        rw [Function.update_self] at hq
        cases hq
      · rw [Function.update_of_ne hqg] at hq
        rw [hL hqg]
        exact h.unlisted q hq
    · rw [keys_toFinset_insert, Finset.insert_eq_of_mem hkey]
      exact h.nSps
    · rw [keys_toFinset_insert, Finset.insert_eq_of_mem hkey]
      exact h.bits

theorem updateHost_sps (t : Topology) (cfg : HostsConfig) (n r gid host : ℕ) :
    (t.updateHost cfg n r gid host).spsHash = t.spsHash ∧ (t.updateHost cfg n r gid host).nSps = t.nSps ∧
      (t.updateHost cfg n r gid host).spsBitset = t.spsBitset := by
  unfold Topology.updateHost
  split <;> exact ⟨rfl, rfl, rfl⟩

theorem Topology.Tallies.updateTopologyData (h : t.Tallies n L) {r gid : ℕ} (hr : r < n) (hnew : r ∉ L gid)
    (hgid : gid < (Bitset.create n).capacity) (cfg : HostsConfig) (uid : ℤ) (host : ℕ) :
    (t.updateTopologyData cfg uid n r gid host).Tallies n (Function.update L gid (insert r (L gid))) := by
  obtain ⟨h₁, h₂, h₃⟩ := updateHost_sps (t.updateSp uid n r gid host) cfg n r gid host
  exact (h.updateSp hr hnew hgid uid host).congr (congrArg spTally h₁) h₂ h₃

/-- The updates for all the shadow SPs of an entry. -/
theorem Topology.Tallies.updates (cfg : HostsConfig) (uid : ℤ) (host : ℕ) {r : ℕ} (hr : r < n) {sps : List ℕ}
    (hnd : sps.Nodup) (hgid : ∀ sp ∈ sps, sp < (Bitset.create n).capacity) (h : t.Tallies n L)
    (hnew : ∀ sp ∈ sps, r ∉ L sp) :
    (sps.foldl (fun t sp => t.updateTopologyData cfg uid n r sp host) t).Tallies n
      fun sp => if sp ∈ sps then insert r (L sp) else L sp := by
  induction sps generalizing t L with
  | nil => simpa using h
  | cons sp sps ih =>
    obtain ⟨hsp, hnd⟩ := List.nodup_cons.1 hnd
    have hne : ∀ q ∈ sps, q ≠ sp := fun q hq he => hsp (he ▸ hq)
    have h' := h.updateTopologyData hr (hnew sp List.mem_cons_self) (hgid sp List.mem_cons_self) cfg uid host
    have := ih hnd (fun q hq => hgid q (List.mem_cons_of_mem _ hq)) h' fun q hq => by
      rw [Function.update_of_ne (hne q hq)]
      exact hnew q (List.mem_cons_of_mem _ hq)
    rw [List.foldl_cons]
    convert this using 1
    funext q
    by_cases hq : q = sp
    · subst hq
      simp [hsp]
    · simp [hq]

theorem tallies_empty (n : ℕ) : Topology.empty.Tallies n fun _ => ∅ where
  sp _ _ _ h := by cases h
  unlisted _ _ := rfl
  nSps := rfl
  bits := .inl ⟨rfl, rfl⟩

/-! ### A group cache -/

/-- The ranks that are set and list SP `gid`. -/
def GroupCache.listing (g : GroupCache) (gid : ℕ) : Finset ℕ :=
  (Finset.range g.entries.length).filter fun r => g.isSet r = true ∧ gid ∈ (g.entryAt r).shadowServiceProcs

/-- **The counters of the SPs agree** with the bitsets and with the entries. -/
structure GroupCache.SpsCounted (g : GroupCache) : Prop where
  /-- `n_ranks` counts the bits of the SP, and the ranks that list it. -/
  ranks : ∀ gid d, g.topo.spsHash.lookup gid = some d →
    d.nRanks = (d.ranksBitset.getD []).bits.card ∧ d.nRanks = (g.listing gid).card
  /-- `n_sps` counts the SPs, and their bits. -/
  sps : g.topo.nSps = g.topo.spsHash.keys.length ∧ g.topo.nSps = (g.topo.spsBitset.getD []).bits.card

/-- What additions to a group of `n` ranks keep. -/
structure TopoInv (n : ℕ) (g : GroupCache) : Prop where
  /-- A group not in use has no entries and no topology. -/
  dead : g.groupUid = INT_MAX → g.ranks = none ∧ g.topo = Topology.empty
  /-- A group in use has an entry for each rank. -/
  live : g.groupUid ≠ INT_MAX → g.initialized = true ∧ ∃ l, g.ranks = some l ∧ l.length = n
  /-- The size is known or not. -/
  size : g.groupSize = 0 ∨ g.groupSize = n
  /-- An entry that is not set lists no SP. -/
  blank : ∀ r, g.isSet r = false → (g.entryAt r).shadowServiceProcs = []
  /-- The topology counts what the entries list. -/
  tallies : g.topo.Tallies n g.listing
  /-- Nothing is revoked. -/
  idle : g.revokesGlobal = 0
  /-- Nothing is put aside. -/
  parked : g.persistent.pendingRecvCacheEntries = []

theorem listing_of_ranks_none {g : GroupCache} (h : g.ranks = none) : g.listing = fun _ => ∅ := by
  funext gid
  simp [GroupCache.listing, GroupCache.entries, h]

theorem listing_congr {g g' : GroupCache} (h : g'.ranks = g.ranks) : g'.listing = g.listing := by
  have he : g'.entries = g.entries := by simp only [GroupCache.entries, h]
  have hat : ∀ r, g'.entryAt r = g.entryAt r := fun r => by simp only [GroupCache.entryAt, he]
  funext gid
  ext r
  rw [GroupCache.listing, Finset.mem_filter, GroupCache.listing, Finset.mem_filter, GroupCache.isSet, GroupCache.isSet,
    he, hat]

/-- An addition lists the rank under each of its SPs. -/
theorem listing_set {g g' : GroupCache} {l : List PeerCacheEntry} (hl : g.ranks = some l) {r : ℕ} (hr : r < l.length)
    {e : PeerCacheEntry} (he : e.set = true) (hset : g.isSet r = false) (hg : g'.ranks = g.ranks.map (·.set r e)) :
    g'.listing = fun sp => if sp ∈ e.shadowServiceProcs then insert r (g.listing sp) else g.listing sp := by
  have hlen : g'.entries.length = g.entries.length := by simp [GroupCache.entries, hg, hl]
  have hle : g.entries.length = l.length := by simp [GroupCache.entries, hl]
  funext sp
  ext q
  have hq := entryAt_map_set (hle ▸ hr) hg q
  have hmem : q ∈ g'.listing sp ↔ q < l.length ∧ (g'.entryAt q).set = true ∧ sp ∈ (g'.entryAt q).shadowServiceProcs := by
    rw [GroupCache.listing, Finset.mem_filter, Finset.mem_range, hlen, hle]
    rfl
  have hmem' : q ∈ g.listing sp ↔ q < l.length ∧ (g.entryAt q).set = true ∧ sp ∈ (g.entryAt q).shadowServiceProcs := by
    rw [GroupCache.listing, Finset.mem_filter, Finset.mem_range, hle]
    rfl
  by_cases h : q = r
  · subst h
    have hset : (g.entryAt q).set = false := hset
    rw [hmem, hq, if_pos rfl, he]
    by_cases hsp : sp ∈ e.shadowServiceProcs
    · simp [hsp, hr]
    · rw [if_neg hsp, hmem', hset]
      simp [hsp]
  · rw [hmem, hq, if_neg h, ← hmem']
    by_cases hsp : sp ∈ e.shadowServiceProcs <;> simp [hsp, h]

theorem notMem_listing {g : GroupCache} {r : ℕ} (hset : g.isSet r = false) (sp : ℕ) : r ∉ g.listing sp := by
  intro hm
  rw [(Finset.mem_filter.1 hm).2.1] at hset
  cases hset

variable {g g' : GroupCache}

/-- What leaves the entries and the counters alone. -/
theorem TopoInv.congr (h : TopoInv n g) (hr : g'.ranks = g.ranks) (hu : g'.groupUid = g.groupUid)
    (hi : g'.initialized = g.initialized) (hs : g'.groupSize = g.groupSize) (h0 : g'.revokesGlobal = g.revokesGlobal)
    (hp : g'.persistent.pendingRecvCacheEntries = g.persistent.pendingRecvCacheEntries)
    (hd : g.groupUid = INT_MAX → g'.topo = g.topo) (ht : g'.topo.Tallies n g.listing) : TopoInv n g' where
  dead hm := by rw [hu] at hm; rw [hr, hd hm]; exact h.dead hm
  live := by rw [hu, hi, hr]; exact h.live
  size := by rw [hs]; exact h.size
  blank r := by
    simpa only [GroupCache.isSet, GroupCache.entryAt, GroupCache.entries, hr] using h.blank r
  tallies := by rw [listing_congr hr]; exact ht
  idle := h0.trans h.idle
  parked := hp.trans h.parked

/-- **One addition**: the rank is written, and the topology updated for each of its SPs. -/
theorem TopoInv.put (h : TopoInv n g) (hl : g.groupUid ≠ INT_MAX) {r : ℕ} (hr : r < n) (hset : g.isSet r = false)
    {e : PeerCacheEntry} (he : e.set = true) (hg : g'.ranks = g.ranks.map (·.set r e)) (hu : g'.groupUid = g.groupUid)
    (hi : g'.initialized = g.initialized) (hs : g'.groupSize = g.groupSize) (h0 : g'.revokesGlobal = g.revokesGlobal)
    (hp : g'.persistent.pendingRecvCacheEntries = g.persistent.pendingRecvCacheEntries)
    (ht : g'.topo.Tallies n fun sp => if sp ∈ e.shadowServiceProcs then insert r (g.listing sp) else g.listing sp) :
    TopoInv n g' := by
  obtain ⟨hinit, l, hlist, hlen⟩ := h.live hl
  have hrl : r < l.length := hlen ▸ hr
  have hent := entryAt_map_set (g := g) (by simpa [GroupCache.entries, hlist] using hrl) hg
  refine ⟨fun hm => absurd (hu.symm.trans hm) hl, fun _ => ⟨hi.trans hinit, l.set r e, by rw [hg, hlist]; rfl, ?_⟩,
    by rw [hs]; exact h.size, fun q hq => ?_, by rw [listing_set hlist hrl he hset hg]; exact ht, h0.trans h.idle,
    hp.trans h.parked⟩
  · rw [List.length_set, hlen]
  · rw [GroupCache.isSet, hent] at hq
    rw [hent]
    split
    · rename_i hqr
      rw [if_pos hqr, he] at hq
      cases hq
    · rename_i hqr
      rw [if_neg hqr] at hq
      exact h.blank q hq

theorem TopoInv.lookup {uid : ℤ} (hu : uid ≠ INT_MAX) (hn : Allocatable n) (h : TopoInv n g) :
    TopoInv n (getGroupCacheInternal uid (some g) n) ∧
      (getGroupCacheInternal uid (some g) n).groupUid ≠ INT_MAX := by
  by_cases hm : g.groupUid = INT_MAX
  · have hlen : allocEntries (sizeT n) = n := by rw [sizeT_natCast hn.lt, hn.allocEntries_eq]
    simp only [getGroupCacheInternal, hm, if_true]
    have hblank : ∀ r, ({ initGroupCache g (sizeT n) with groupUid := uid } : GroupCache).entryAt r =
        initPeerCacheEntry := by
      intro r
      simp only [GroupCache.entryAt, GroupCache.entries, initGroupCache, Option.getD_some, List.getD_eq_getElem?_getD,
        List.getElem?_replicate]
      split <;> rfl
    have hlist : ({ initGroupCache g (sizeT n) with groupUid := uid } : GroupCache).listing = fun _ => ∅ := by
      funext sp
      refine Finset.eq_empty_of_forall_notMem fun r hr => ?_
      have hset := (Finset.mem_filter.1 hr).2.1
      rw [isSet_replicate (k := allocEntries (sizeT n)) rfl] at hset
      cases hset
    refine ⟨⟨fun hd => absurd hd hu, fun _ => ⟨rfl, _, rfl, by simpa using hlen⟩, .inl rfl, fun r _ => ?_, ?_, rfl,
      h.parked⟩, hu⟩
    · rw [hblank]; rfl
    · rw [hlist]; exact tallies_empty n
  · rw [getGroupCacheInternal_of_live hm]
    exact ⟨h, hm⟩

theorem TopoInv.learn (h : TopoInv n g) (hl : g.groupUid ≠ INT_MAX) (hn : Allocatable n) (cfg : HostsConfig) :
    TopoInv n (g.learnGroupSize cfg n) ∧ (g.learnGroupSize cfg n).groupSize = n := by
  by_cases h0 : g.groupSize = 0
  · have hc : g.initialized = true ∧ g.groupSize = 0 ∧ 0 ≤ (n : ℤ) := ⟨(h.live hl).1, h0, Int.natCast_nonneg n⟩
    rw [GroupCache.learnGroupSize, if_pos hc, sizeT_natCast hn.lt]
    have htal : (g.topo.Tallies n g.listing) := h.tallies
    refine ⟨⟨fun hm => absurd hm hl, h.live, .inr rfl, h.blank, ⟨htal.sp, htal.unlisted, htal.nSps, ?_⟩, h.idle, h.parked⟩,
      rfl⟩
    rcases htal.bits with ⟨hb, hk⟩ | ⟨b, hb, hcap, hk⟩
    · exact .inr ⟨_, rfl, by rw [hb]; exact le_rfl, by rw [hb, hk]; exact Bitset.bits_create n⟩
    · exact .inr ⟨b, by rw [hb]; rfl, hcap, hk⟩
  · rw [learnGroupSize_of_known h0]
    exact ⟨h, h.size.resolve_left h0⟩

/-- Sending the cache to the local ranks fills the lookup tables, and counts nothing. -/
theorem TopoInv.sendCache {s : GpState} (h : TopoInv n s.gp) (hl : s.gp.groupUid ≠ INT_MAX) :
    TopoInv n (sendGpCacheToHost s).gp := by
  unfold sendGpCacheToHost
  split
  · refine h.congr rfl rfl rfl rfl rfl rfl (fun hm => absurd hm hl) (h.tallies.congr (spTally_doPopulate _) ?_ ?_)
    all_goals
      simp only [Topology.doPopulateGroupCacheLookupTable]
      split <;> rfl
  · exact h

/-! ### The paths that add an entry -/

variable {ctx : GpCtx}

theorem addPeerEntry_topo (g : GroupCache) (e : PeerCacheEntry) :
    (g.addPeerEntry ctx e).topo = e.shadowServiceProcs.foldl (fun t sp => t.updateTopologyData ctx.hosts g.groupUid
      g.groupSize (sizeT e.peer.procInfo.groupRank) sp e.peer.hostInfo) g.topo := by
  unfold GroupCache.addPeerEntry GroupCache.switchVersion
  split <;> rfl

theorem addGroupRank_topo (g : GroupCache) (c : ℕ) (m : GroupAddMsg) :
    (g.addGroupRank ctx c m).topo = g.topo.updateTopologyData ctx.hosts g.groupUid g.groupSize
      (sizeT m.rankInfo.groupRank) ctx.globalId ctx.hostUid := by
  unfold GroupCache.addGroupRank GroupCache.switchVersion
  split <;> rfl

theorem switchVersion_parked (g : GroupCache) :
    g.switchVersion.persistent.pendingRecvCacheEntries = g.persistent.pendingRecvCacheEntries := by
  unfold GroupCache.switchVersion
  split <;> rfl

/-- An addition for one SP. -/
theorem TopoInv.putOne (h : TopoInv n g) (hl : g.groupUid ≠ INT_MAX) (hs : g.groupSize = n) {r gid host : ℕ}
    (hr : r < n) (hset : g.isSet r = false) (hgid : gid < (Bitset.create n).capacity) {e : PeerCacheEntry}
    (he : e.set = true) (hsp : e.shadowServiceProcs = [gid]) (hg : g'.ranks = g.ranks.map (·.set r e))
    (ht : g'.topo = g.topo.updateTopologyData ctx.hosts g.groupUid g.groupSize r gid host)
    (hu : g'.groupUid = g.groupUid) (hi : g'.initialized = g.initialized) (hsz : g'.groupSize = g.groupSize)
    (h0 : g'.revokesGlobal = g.revokesGlobal)
    (hp : g'.persistent.pendingRecvCacheEntries = g.persistent.pendingRecvCacheEntries) : TopoInv n g' := by
  apply h.put hl hr hset he hg hu hi hsz h0 hp
  have := h.tallies.updateTopologyData hr (notMem_listing hset gid) hgid ctx.hosts g.groupUid host
  rw [ht, hs]
  convert this using 1
  funext sp
  by_cases hq : sp = gid
  · subst hq
    simp [hsp]
  · simp [hsp, hq]

/-- The entry of a batch. -/
theorem TopoInv.recvEntry (hn : Allocatable n) {acc : GroupCache × ℕ} (h : TopoInv n acc.1)
    (hl : acc.1.groupUid ≠ INT_MAX) {e : PeerCacheEntry} (hr : sizeT e.peer.procInfo.groupRank < n)
    (hnd : e.shadowServiceProcs.Nodup) (hsp : ∀ sp ∈ e.shadowServiceProcs, sp < (Bitset.create n).capacity) :
    TopoInv n (recvPeerEntry ctx n acc e).1 ∧ (recvPeerEntry ctx n acc e).1.groupUid ≠ INT_MAX := by
  obtain ⟨hlearn, hs⟩ := h.learn hl hn ctx.hosts
  have hl' : (acc.1.learnGroupSize ctx.hosts n).groupUid ≠ INT_MAX := by simpa using hl
  simp only [recvPeerEntry]
  split
  · exact ⟨hlearn, hl'⟩
  · rename_i hset
    have hset := Bool.not_eq_true _ ▸ hset
    generalize hgl : acc.1.learnGroupSize ctx.hosts n = gl at hlearn hs hl' hset
    obtain ⟨t, heq⟩ := addPeerEntry_eq ctx gl e
    have hold : (gl.peerEntry e).shadowServiceProcs = e.shadowServiceProcs := by
      rw [GroupCache.peerEntry, hlearn.blank _ hset, List.nil_append]
    refine ⟨?_, by rw [heq]; exact hl'⟩
    refine hlearn.put hl' hr hset (e := gl.peerEntry e) rfl (by rw [heq]) (by rw [heq]) (by rw [heq]) (by rw [heq])
      (by rw [heq]) (by rw [heq]; exact switchVersion_parked gl) ?_
    rw [addPeerEntry_topo, hs, hold]
    exact hlearn.tallies.updates ctx.hosts gl.groupUid e.peer.hostInfo hr hnd hsp fun sp _ => notMem_listing hset sp

/-- What the entries of a batch look like. -/
structure PeerCacheEntry.Listed (n : ℕ) (e : PeerCacheEntry) : Prop where
  /-- The rank is in the group. -/
  lt : sizeT e.peer.procInfo.groupRank < n
  /-- Its SPs are distinct. -/
  nodup : e.shadowServiceProcs.Nodup
  /-- They have a bit in `sps_bitset`. -/
  fits : ∀ sp ∈ e.shadowServiceProcs, sp < (Bitset.create n).capacity

theorem TopoInv.recvBatch (hu : ctx.gpUid ≠ INT_MAX) (hn : Allocatable n) {s : GpState}
    (h : TopoInv n s.gp) {batch : List PeerCacheEntry} (hsz : batchGroupSize batch = n)
    (hb : ∀ e ∈ batch, e.Listed n) : TopoInv n (handlePeerCacheEntriesRecv ctx s batch).gp := by
  have key : ∀ (es : List PeerCacheEntry) (acc : GroupCache × ℕ), (∀ e ∈ es, e.Listed n) → TopoInv n acc.1 →
      acc.1.groupUid ≠ INT_MAX → TopoInv n (es.foldl (recvPeerEntry ctx n) acc).1 ∧
        (es.foldl (recvPeerEntry ctx n) acc).1.groupUid ≠ INT_MAX := by
    intro es
    induction es with
    | nil => exact fun acc _ h hl => ⟨h, hl⟩
    | cons e es ih =>
      intro acc hes h hl
      obtain ⟨hr, hnd, hsp⟩ := hes e List.mem_cons_self
      obtain ⟨h', hl'⟩ := @TopoInv.recvEntry _ ctx hn _ h hl _ hr hnd hsp
      exact ih _ (fun e he => hes e (List.mem_cons_of_mem _ he)) h' hl'
  obtain ⟨hlook, hlive⟩ := h.lookup hu hn
  obtain ⟨hrecv, hl⟩ := key batch (getGroupCacheInternal ctx.gpUid (some s.gp) n, 0) hb hlook hlive
  simp only [handlePeerCacheEntriesRecv, hsz]
  split
  · exact TopoInv.sendCache (s := ⟨_, s.out⟩) hrecv hl
  · exact hrecv

theorem TopoInv.exchange {s : GpState} (h : TopoInv n s.gp) (hl : s.gp.groupUid ≠ INT_MAX) (k : ℕ) :
    TopoInv n (groupCacheExchange ctx s k).gp := by
  have hb : TopoInv n (broadcastGroupCache ctx s).gp := by
    simp only [broadcastGroupCache]
    split
    · exact h
    · by_cases hf : s.gp.full
      · simp only [GpState.emit, hf, if_true]
        exact TopoInv.sendCache (s := ⟨s.gp, _⟩) h hl
      · simp only [GpState.emit, hf]
        exact h
  unfold groupCacheExchange
  repeat' split
  all_goals first | exact hb | exact h

/-- The add message of a local rank. -/
theorem TopoInv.addMsg {s : GpState} (h : TopoInv n s.gp) (hl : s.gp.groupUid ≠ INT_MAX) (hn : Allocatable n)
    {c : ℕ} {m : GroupAddMsg} (hsz : m.rankInfo.groupSize = n) (hr : sizeT m.rankInfo.groupRank < n)
    (hgid : ctx.globalId < (Bitset.create n).capacity) : TopoInv n (doAddGroupRank ctx s c m).gp := by
  obtain ⟨hlearn, hs⟩ := h.learn hl hn ctx.hosts
  have hl' : (s.gp.learnGroupSize ctx.hosts n).groupUid ≠ INT_MAX := by simpa using hl
  have key : ∀ g : GroupCache, TopoInv n g → g.groupUid ≠ INT_MAX → TopoInv n (groupCacheExchange ctx
      (handlePendingCacheEntries ctx { s with gp := g })
      (handlePendingCacheEntries ctx { s with gp := g }).gp.spRanks).gp := by
    intro g hg hgl
    have hnone : handlePendingCacheEntries ctx { s with gp := g } =
        { s with gp := { g with persistent := { g.persistent with pendingRecvCacheEntries := [] } } } := by
      rw [handlePendingCacheEntries, hg.parked]
      rfl
    have hg' : TopoInv n { g with persistent := { g.persistent with pendingRecvCacheEntries := [] } } :=
      hg.congr rfl rfl rfl rfl rfl hg.parked.symm (fun _ => rfl) hg.tallies
    rw [hnone]
    exact TopoInv.exchange (s := ⟨_, s.out⟩) hg' hgl _
  unfold doAddGroupRank
  rw [if_neg (by rw [h.idle]; exact Nat.lt_irrefl 0)]
  simp only [hsz]
  split
  · exact key _ hlearn hl'
  · rename_i hset
    have hset := Bool.not_eq_true _ ▸ hset
    generalize s.gp.learnGroupSize ctx.hosts n = gl at hlearn hs hl' hset
    obtain ⟨t, k, sp, heq, -⟩ := addGroupRank_eq ctx gl c m
    refine key (gl.addGroupRank ctx c m) ?_ (by rw [heq]; exact hl')
    exact hlearn.putOne hl' hs hr hset hgid (e := localEntry ctx c m.rankInfo) rfl rfl (by rw [heq])
      (addGroupRank_topo gl c m) (by rw [heq]) (by rw [heq]) (by rw [heq]) (by rw [heq])
      (by rw [heq]; exact switchVersion_parked gl)

/-- A rank that connects. -/
theorem TopoInv.newClient (hu : ctx.gpUid ≠ INT_MAX) (hn : Allocatable n) (h : TopoInv n g) {c : ℕ} {info : RankInfo}
    (hsz : info.groupSize = n) (hr : sizeT info.groupRank < n) (hset : g.isSet (sizeT info.groupRank) = false)
    (hgid : ctx.globalId < (Bitset.create n).capacity) :
    TopoInv n (addCacheEntryForNewClient ctx (some g) c info) ∧
      (addCacheEntryForNewClient ctx (some g) c info).groupUid ≠ INT_MAX := by
  obtain ⟨num, g₀, g₁, h₀, h₁, hput⟩ := addCacheEntryForNewClient_put ctx g c info
  rw [hsz] at h₀ h₁
  obtain ⟨hlook, hlive⟩ := h.lookup hu hn
  have hlive₀ : g₀.groupUid ≠ INT_MAX := by rw [h₀]; exact hlive
  have hset₀ : g₀.isSet (sizeT info.groupRank) = false := by
    rw [h₀]
    exact isSet_getGroupCacheInternal hset ctx.gpUid n
  have hinv₀ : TopoInv n g₀ := by
    rw [h₀]
    exact hlook.congr rfl rfl rfl rfl rfl rfl (fun _ => rfl) hlook.tallies
  obtain ⟨hlearn, hs⟩ := hinv₀.learn hlive₀ hn ctx.hosts
  rw [← h₁] at hlearn hs
  have hlive₁ : g₁.groupUid ≠ INT_MAX := by simpa [h₁] using hlive₀
  have hset₁ : g₁.isSet (sizeT info.groupRank) = false := by
    rw [h₁, isSet_congr (learnGroupSize_ranks g₀ ctx.hosts n)]
    exact hset₀
  rw [hput]
  exact ⟨hlearn.putOne hlive₁ hs hr hset₁ hgid (e := localEntry ctx c info) rfl rfl rfl rfl rfl rfl rfl rfl rfl, hlive₁⟩

theorem TopoInv.connectCallback (hu : ctx.gpUid ≠ INT_MAX) (hn : Allocatable n) (h : TopoInv n g) {out : List Effect}
    {info : RankInfo} (hsz : info.groupSize = n) :
    TopoInv n ((localRankConnectDefaultCallback ctx (some g, out) info).1.getD newGroupCache) := by
  obtain ⟨hlook, hlive⟩ := h.lookup hu hn
  simp only [localRankConnectDefaultCallback, hsz]
  split
  · exact h
  · split
    · exact TopoInv.sendCache (s := ⟨_, out⟩) hlook hlive
    · exact hlook

/-- `host_add_local_rank_to_cache`. -/
theorem TopoInv.hostAdd (hu : ctx.gpUid ≠ INT_MAX) (hn : Allocatable n) {slot : Option GroupCache}
    (h : TopoInv n (slot.getD newGroupCache)) {info : RankInfo} (hsz : info.groupSize = n)
    (hr : sizeT info.groupRank < n) (hset : (slot.getD newGroupCache).isSet (sizeT info.groupRank) = false)
    (hgid : ctx.globalId < (Bitset.create n).capacity) (hid : ctx.globalId ≠ UINT64_MAX) :
    TopoInv n (hostAddLocalRankToCache ctx slot info) := by
  obtain ⟨hlook, hlive⟩ := h.lookup hu hn
  obtain ⟨hlearn, hs⟩ := hlook.learn hlive hn ctx.hosts
  have hslot : getGroupRankCacheEntry ctx.hosts ctx.gpUid slot info.groupSize =
      (getGroupCacheInternal ctx.gpUid (some (slot.getD newGroupCache)) n).learnGroupSize ctx.hosts n := by
    cases slot <;> simp only [getGroupRankCacheEntry, hsz] <;> rfl
  have hset' : ((getGroupCacheInternal ctx.gpUid (some (slot.getD newGroupCache)) n).learnGroupSize ctx.hosts n).isSet
      (sizeT info.groupRank) = false := by
    rw [isSet_congr (learnGroupSize_ranks _ _ _)]
    exact isSet_getGroupCacheInternal hset ctx.gpUid n
  have hl' : ((getGroupCacheInternal ctx.gpUid (some (slot.getD newGroupCache)) n).learnGroupSize ctx.hosts n).groupUid ≠
      INT_MAX := by simpa using hlive
  rw [hostAddLocalRankToCache_eq ctx slot info hslot]
  generalize (getGroupCacheInternal ctx.gpUid (some (slot.getD newGroupCache)) n).learnGroupSize ctx.hosts n = gl at *
  have hsp : (gl.hostEntry ctx info).shadowServiceProcs = [ctx.globalId] := by
    simp [GroupCache.hostEntry, hlearn.blank _ hset']
  exact hlearn.putOne hl' hs hr hset' hgid (e := gl.hostEntry ctx info) rfl hsp rfl (if_pos hid) rfl rfl rfl rfl rfl

/-! ### Sequences of additions -/

/-- The ways an entry is added. -/
inductive Addition where
  /-- `handle_peer_cache_entries_recv`. -/
  | peerCacheEntries (batch : List PeerCacheEntry)
  /-- `do_add_group_rank_recv_cb`. -/
  | addGroupRank (clientId : ℕ) (msg : GroupAddMsg)
  /-- `finalize_client_connection`. -/
  | connect (clientId : ℕ) (info : RankInfo)
  /-- `host_add_local_rank_to_cache`. -/
  | hostAdd (info : RankInfo)
  /-- The end of the bootstrapping of a host, in `progress_client_econtext`. -/
  | bootstrapDone (info : RankInfo)

/-- What an addition does to the slot of the group. -/
def Addition.step (ctx : GpCtx) (slot : Option GroupCache) : Addition → Option (Option GroupCache)
  | .peerCacheEntries batch => some (some (handlePeerCacheEntriesRecv ctx ⟨slot.getD newGroupCache, []⟩ batch).gp)
  | .addGroupRank c m => some (doAddGroupRankRecvCb ctx slot c m).1
  | .connect c info => some (finalizeClientConnection ctx slot c info).1
  | .hostAdd info => some (some (hostAddLocalRankToCache ctx slot info))
  | .bootstrapDone info => some (progressClientEcontextDone ctx slot info)

/-- The ranks an addition adds. -/
def Addition.infos : Addition → List RankInfo
  | .peerCacheEntries batch => batch.map (·.peer.procInfo)
  | .addGroupRank _ m => [m.rankInfo]
  | .connect _ info | .hostAdd info | .bootstrapDone info => [info]

/-- Ranks of the group, each of them once; the entries of other processes list distinct
SPs, and a host knows its SP. -/
def Addition.Ok (ctx : GpCtx) (n : ℕ) (slot : Option GroupCache) (a : Addition) : Prop :=
  (∀ i ∈ a.infos, i.groupUid = ctx.gpUid ∧ i.groupSize = n ∧ 0 ≤ i.groupRank ∧ i.groupRank < n ∧
    (slot.getD newGroupCache).isSet (sizeT i.groupRank) = false) ∧
  (a.infos.map (·.groupRank)).Nodup ∧ match a with
    | .peerCacheEntries batch => batch ≠ [] ∧ ∀ e ∈ batch, e.shadowServiceProcs.Nodup
    | .addGroupRank _ _ | .connect _ _ => True
    | .hostAdd _ | .bootstrapDone _ => ctx.globalId ≠ UINT64_MAX

/-- The SPs of the ranks added have a bit in `sps_bitset`, and no bootstrapping ends. -/
def Addition.Fits (ctx : GpCtx) (n : ℕ) : Addition → Prop
  | .peerCacheEntries batch => ∀ e ∈ batch, ∀ sp ∈ e.shadowServiceProcs, sp < (Bitset.create n).capacity
  | .addGroupRank _ _ | .connect _ _ | .hostAdd _ => ctx.globalId < (Bitset.create n).capacity
  | .bootstrapDone _ => False

/-- A group not in use: not in the table, or reset, with no batch put aside. -/
def Unused (slot : Option GroupCache) : Prop :=
  ∃ p : Persistent, slot.getD newGroupCache = { newGroupCache with persistent := p } ∧ p.pendingRecvCacheEntries = []

theorem Unused.topoInv {slot : Option GroupCache} (h : Unused slot) (n : ℕ) : TopoInv n (slot.getD newGroupCache) := by
  obtain ⟨p, hg, hp⟩ := h
  rw [hg]
  refine ⟨fun _ => ⟨rfl, rfl⟩, fun hl => absurd rfl hl, .inl rfl, fun r _ => rfl, ?_, rfl, hp⟩
  rw [listing_of_ranks_none rfl]
  exact tallies_empty n

theorem sizeT_lt {i : RankInfo} (hn : Allocatable n) (h0 : 0 ≤ i.groupRank) (hlt : i.groupRank < n) :
    sizeT i.groupRank < n := by
  have := hn.lt
  unfold sizeT
  omega

/-- **Every addition keeps the counters.** -/
theorem TopoInv.step (hu : ctx.gpUid ≠ INT_MAX) (hn : Allocatable n) {slot slot' : Option GroupCache} {a : Addition}
    (h : TopoInv n (slot.getD newGroupCache)) (hok : a.Ok ctx n slot) (hfit : a.Fits ctx n)
    (hs : a.step ctx slot = some slot') : TopoInv n (slot'.getD newGroupCache) := by
  obtain ⟨hinfo, -, hmore⟩ := hok
  cases a with
  | peerCacheEntries batch =>
    cases hs
    have hsz : batchGroupSize batch = n := by
      cases batch with
      | nil => exact absurd rfl hmore.1
      | cons e es => exact (hinfo e.peer.procInfo (by simp [Addition.infos])).2.1
    refine TopoInv.recvBatch (s := ⟨slot.getD newGroupCache, []⟩) hu hn h hsz fun e he => ?_
    obtain ⟨-, -, h0, hlt, -⟩ := hinfo e.peer.procInfo (List.mem_map_of_mem he)
    exact ⟨sizeT_lt hn h0 hlt, hmore.2 e he, hfit e he⟩
  | addGroupRank c m =>
    cases hs
    obtain ⟨huid, hsz, h0, hlt, -⟩ := hinfo m.rankInfo List.mem_cons_self
    have hne : ¬ (m.rankInfo.groupUid = INT_MAX ∨ m.rankInfo.groupRank = INVALID_RANK) := by
      rintro (hm | hm)
      · exact hu (huid.symm.trans hm)
      · rw [hm] at h0
        exact absurd h0 (by decide)
    obtain ⟨hlook, hlive⟩ := h.lookup hu hn
    simp only [doAddGroupRankRecvCb, if_neg hne, Option.getD_some, hsz]
    have hslot : getGroupCacheInternal ctx.gpUid slot n =
        getGroupCacheInternal ctx.gpUid (some (slot.getD newGroupCache)) n := by cases slot <;> rfl
    rw [hslot]
    exact TopoInv.addMsg (s := ⟨_, []⟩) hlook hlive hn hsz (sizeT_lt hn h0 hlt) hfit
  | connect c info =>
    cases hs
    obtain ⟨huid, hsz, h0, hlt, hset⟩ := hinfo info List.mem_cons_self
    have hne : ¬ (info.groupUid = INT_MAX ∨ info.groupRank = INVALID_RANK) := by
      rintro (hm | hm)
      · exact hu (huid.symm.trans hm)
      · rw [hm] at h0
        exact absurd h0 (by decide)
    obtain ⟨hnew, hlive⟩ := @TopoInv.newClient n _ ctx hu hn h c info hsz (sizeT_lt hn h0 hlt) hset hfit
    rw [finalizeClientConnection, if_neg hne, addCacheEntryForNewClient_getD]
    exact TopoInv.connectCallback hu hn (TopoInv.exchange (s := ⟨_, []⟩) hnew hlive _) hsz
  | hostAdd info =>
    cases hs
    obtain ⟨-, hsz, h0, hlt, hset⟩ := hinfo info List.mem_cons_self
    exact TopoInv.hostAdd hu hn h hsz (sizeT_lt hn h0 hlt) hset hfit hmore
  | bootstrapDone info => exact hfit.elim

theorem TopoInv.spsCounted (h : TopoInv n g) : g.SpsCounted where
  ranks gid d hd := by
    obtain ⟨hk, b, hb, -, hbits⟩ := h.tallies.sp gid d.nRanks d.ranksBitset (by rw [spTally, hd]; rfl)
    refine ⟨?_, hk⟩
    rw [hk, hb, ← hbits]
    rfl
  sps := by
    have hn := h.tallies.nSps
    refine ⟨?_, ?_⟩
    · rw [hn, List.toFinset_card_of_nodup g.topo.spsHash.keys_nodup]
    · rw [hn]
      rcases h.tallies.bits with ⟨hb, hk⟩ | ⟨b, hb, -, hk⟩
      · rw [hb, hk]; rfl
      · rw [hb, ← hk]; rfl

/-- **The counters of the SPs agree** after every sequence of additions, each rank once,
without the end of a bootstrapping, of SPs that have a bit in `sps_bitset`. -/
theorem spsCounted_of_reach (ctx : GpCtx) (hu : ctx.gpUid ≠ INT_MAX) {n : ℕ} (hn : Allocatable n)
    {slot₀ slot : Option GroupCache} (h₀ : Unused slot₀)
    (h : Reach (Addition.step ctx) (fun slot a => a.Ok ctx n slot ∧ a.Fits ctx n) slot₀ slot) :
    (slot.getD newGroupCache).SpsCounted := by
  refine TopoInv.spsCounted (n := n) (h.invariant (I := fun slot => TopoInv n (slot.getD newGroupCache)) (h₀.topoInv n) ?_)
  rintro slot a slot' hI ⟨hok, hfit⟩ hs
  exact hI.step hu hn hok hfit hs

/-! ### The end of a bootstrapping -/

instance Addition.decidableOk (ctx : GpCtx) (n : ℕ) (slot : Option GroupCache) :
    (a : Addition) → Decidable (a.Ok ctx n slot)
  | .peerCacheEntries batch => inferInstanceAs (Decidable (_ ∧ _ ∧ batch ≠ [] ∧ ∀ e ∈ batch, _))
  | .addGroupRank _ _ | .connect _ _ => inferInstanceAs (Decidable (_ ∧ _ ∧ True))
  | .hostAdd _ | .bootstrapDone _ => inferInstanceAs (Decidable (_ ∧ _ ∧ ctx.globalId ≠ UINT64_MAX))

instance Addition.decidableFits (ctx : GpCtx) (n : ℕ) : (a : Addition) → Decidable (a.Fits ctx n)
  | .peerCacheEntries batch => inferInstanceAs (Decidable (∀ e ∈ batch, ∀ sp ∈ e.shadowServiceProcs, _))
  | .addGroupRank _ _ | .connect _ _ | .hostAdd _ => inferInstanceAs
      (Decidable (ctx.globalId < (Bitset.create n).capacity))
  | .bootstrapDone _ => inferInstanceAs (Decidable False)

/-- A host, whose SP is SP 0 of two. -/
def hostCtx : GpCtx where
  gpUid := 3
  onDpu := false
  numServiceProcs := 2
  numConnectedServiceProcs := 0
  numServiceProcsPerDpu := 1
  globalId := 0
  localId := 0
  hostUid := 70
  hosts := ⟨2, [(70, 0), (71, 1)]⟩
  cacheSize := 1
  world := none
  peerAddr := fun _ => [1]

/-- Rank `r` of the world group, of two ranks. -/
def worldInfo (r : ℕ) : RankInfo where
  groupUid := 3
  groupRank := r
  groupSize := 2
  nLocalRanks := 1
  localRank := 0
  hostInfo := 70 + r
  groupSeqNum := 1

/-- The entry of rank 1, on SP 1. -/
def worldEntry : PeerCacheEntry where
  set := true
  peer := ⟨worldInfo 1, 71, [1]⟩
  clientId := 0
  shadowServiceProcs := [1]

/-- After the bootstrapping of rank 0 its SP has two ranks by count, and one by bit and by entry. -/
theorem not_spsCounted_of_bootstrapDone :
    ∃ slot, Reach (Addition.step hostCtx) (fun slot a => a.Ok hostCtx 2 slot) none slot ∧
      ¬ (slot.getD newGroupCache).SpsCounted := by
  have h : ∃ slot, Reach (Addition.step hostCtx) (fun slot a => a.Ok hostCtx 2 slot) none slot ∧
      ∃ d, d ∈ (slot.getD newGroupCache).topo.spsHash.lookup 0 ∧ d.nRanks = 2 ∧
        (d.ranksBitset.getD []).bits.card = 1 := by
    refine ⟨_, .tail .refl (a := .bootstrapDone (worldInfo 0)) (by decide) rfl, _, rfl, by decide, by decide⟩
  obtain ⟨slot, hs, d, hd, hn, hb⟩ := h
  refine ⟨slot, hs, fun hc => ?_⟩
  rw [(hc.ranks 0 d hd).1, hb] at hn
  cases hn

/-- A host that adds its rank, and then receives the entry of the other rank. -/
theorem spsCounted_of_reach_host :
    ∃ slot, Reach (Addition.step hostCtx) (fun slot a => a.Ok hostCtx 2 slot ∧ a.Fits hostCtx 2) none slot ∧
      (slot.getD newGroupCache).numLocalEntries = 2 ∧ (slot.getD newGroupCache).SpsCounted := by
  have h : ∃ slot, Reach (Addition.step hostCtx) (fun slot a => a.Ok hostCtx 2 slot ∧ a.Fits hostCtx 2) none slot ∧
      (slot.getD newGroupCache).numLocalEntries = 2 :=
    exists_reach_of_exec [.hostAdd (worldInfo 0), .peerCacheEntries [worldEntry]] (by decide)
  obtain ⟨slot, hs, hn⟩ := h
  refine ⟨slot, hs, hn, spsCounted_of_reach hostCtx (by decide) (n := 2) ?_ ⟨newGroupCache.persistent, rfl, rfl⟩ hs⟩
  unfold Allocatable sizeofPeerCacheEntry
  decide

end DpuOffload
