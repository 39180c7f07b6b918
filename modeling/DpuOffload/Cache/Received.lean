import DpuOffload.Cache.TopologyCounts
import DpuOffload.Cache.Faults

/-!
# Batches of entries

A process learns about the ranks of a group from batches of entries
(`handle_peer_cache_entries_recv`). An entry of a rank that is set already is dropped, so what
the group is in the end depends on the entries that were the first ones of their rank
(`firstEntries`) and not on the batches they came in. `Received` says what it is.
-/

namespace DpuOffload

open TopoUpdate

/-- The rank of an entry, as an index. -/
def PeerCacheEntry.rank (e : PeerCacheEntry) : ℕ := sizeT e.peer.procInfo.groupRank

/-- The runs of `update_topology_data` for an entry. -/
def PeerCacheEntry.updates (e : PeerCacheEntry) : List TopoUpdate :=
  e.shadowServiceProcs.map fun sp => ⟨e.rank, sp, e.peer.hostInfo⟩

/-- The runs of `update_topology_data` for the entries of a group. -/
def updatesOf (es : List PeerCacheEntry) : List TopoUpdate := es.flatMap (·.updates)

/-- The entries of a group, the last one first, when one more comes. -/
def learnEntry (es : List PeerCacheEntry) (e : PeerCacheEntry) : List PeerCacheEntry :=
  if e.rank ∈ es.map (·.rank) then es else e :: es

/-- The entries that are the first ones of their rank, the last one first. -/
def firstEntries (l : List PeerCacheEntry) : List PeerCacheEntry := l.foldl learnEntry []

/-- A group that receives batches of entries, one after the other. -/
def recvBatches (ctx : GpCtx) (slot : Option GroupCache) (batches : List (List PeerCacheEntry)) : GroupCache :=
  batches.foldl (fun g batch => (handlePeerCacheEntriesRecv ctx ⟨g, []⟩ batch).gp) (slot.getD newGroupCache)

/-- A batch of entries of a group of `n` ranks. -/
def BatchOf (n : ℕ) (batch : List PeerCacheEntry) : Prop := batch ≠ [] ∧ ∀ e ∈ batch, Member n e.peer.procInfo

theorem BatchOf.groupSize {n : ℕ} {batch : List PeerCacheEntry} (h : BatchOf n batch) : batchGroupSize batch = n := by
  cases batch with
  | nil => exact absurd rfl h.1
  | cons e batch => exact (h.2 e List.mem_cons_self).groupSize

/-! ### The first entries -/

theorem mem_learnEntry {es : List PeerCacheEntry} {e d : PeerCacheEntry} (h : d ∈ learnEntry es e) : d ∈ es ∨ d = e := by
  unfold learnEntry at h
  split at h
  · exact .inl h
  · exact (List.mem_cons.1 h).symm

theorem nodup_learnEntry {es : List PeerCacheEntry} (h : (es.map (·.rank)).Nodup) (e : PeerCacheEntry) :
    ((learnEntry es e).map (·.rank)).Nodup := by
  unfold learnEntry
  split
  · exact h
  · rename_i hnew
    exact List.nodup_cons.2 ⟨hnew, h⟩

theorem nodup_firstEntries (l : List PeerCacheEntry) : ((firstEntries l).map (·.rank)).Nodup := by
  have key : ∀ (l es : List PeerCacheEntry), (es.map (·.rank)).Nodup → ((l.foldl learnEntry es).map (·.rank)).Nodup := by
    intro l
    induction l with
    | nil => exact fun es h => h
    | cons e l ih => exact fun es h => ih _ (nodup_learnEntry h e)
  exact key l [] List.nodup_nil

theorem mem_of_mem_firstEntries {l : List PeerCacheEntry} {e : PeerCacheEntry} (h : e ∈ firstEntries l) : e ∈ l := by
  have key : ∀ (l es : List PeerCacheEntry), e ∈ l.foldl learnEntry es → e ∈ es ∨ e ∈ l := by
    intro l
    induction l with
    | nil => exact fun es h => .inl h
    | cons d l ih =>
      intro es h
      rcases ih _ h with h | h
      · rcases mem_learnEntry h with h | rfl
        · exact .inl h
        · exact .inr List.mem_cons_self
      · exact .inr (List.mem_cons_of_mem _ h)
  exact (key l [] h).resolve_left List.not_mem_nil

/-- Every rank has its first entry. -/
theorem rank_mem_firstEntries {l : List PeerCacheEntry} {e : PeerCacheEntry} (h : e ∈ l) :
    e.rank ∈ (firstEntries l).map (·.rank) := by
  have key : ∀ (l es : List PeerCacheEntry) (r : ℕ), r ∈ es.map (·.rank) ∨ r ∈ l.map (·.rank) →
      r ∈ (l.foldl learnEntry es).map (·.rank) := by
    intro l
    induction l with
    | nil => exact fun es r h => h.resolve_right List.not_mem_nil
    | cons d l ih =>
      intro es r h
      apply ih _ _
      unfold learnEntry
      split
      · rename_i hd
        rcases h with h | h
        · exact .inl h
        · rcases List.mem_cons.1 h with rfl | h
          · exact .inl hd
          · exact .inr h
      · rcases h with h | h
        · exact .inl (List.mem_cons_of_mem _ h)
        · rcases List.mem_cons.1 h with rfl | h
          · exact .inl List.mem_cons_self
          · exact .inr h
  exact key l [] e.rank (.inr (List.mem_map_of_mem h))

/-- When a rank has one entry only, that is its first. -/
theorem mem_firstEntries {l : List PeerCacheEntry} (h : ∀ e ∈ l, ∀ e' ∈ l, e.rank = e'.rank → e = e')
    {e : PeerCacheEntry} : e ∈ firstEntries l ↔ e ∈ l := by
  constructor
  · exact mem_of_mem_firstEntries
  · intro he
    obtain ⟨e', he', hr⟩ := List.mem_map.1 (rank_mem_firstEntries he)
    rw [← h e' (mem_of_mem_firstEntries he') e he hr]
    exact he'

/-! ### A group that received entries -/

/-- **A group of `n` ranks that has received the entries `es`**, each the first of its rank. -/
structure Received (cfg : HostsConfig) (n : ℕ) (es : List PeerCacheEntry) (g : GroupCache) : Prop where
  /-- A group not in use has received nothing. -/
  dead : g.groupUid = INT_MAX → es = [] ∧ g.ranks = none ∧ g.topo = Topology.empty
  /-- A group in use has an entry for each rank. -/
  live : g.groupUid ≠ INT_MAX → g.initialized = true ∧ ∃ l, g.ranks = some l ∧ l.length = n
  /-- The size is known or not. -/
  size : g.groupSize = 0 ∨ g.groupSize = n
  /-- Until it is known there is no entry. -/
  unknown : g.groupSize = 0 → es = []
  /-- The entries are written. -/
  written : ∀ e ∈ es, g.entryAt e.rank = { e with set := true }
  /-- The others are blank. -/
  blank : ∀ r, r ∉ es.map (·.rank) → g.entryAt r = initPeerCacheEntry
  /-- Each rank once. -/
  nodup : (es.map (·.rank)).Nodup
  /-- They are ranks of the group. -/
  lt : ∀ e ∈ es, e.rank < n
  /-- The entries are counted. -/
  count : g.numLocalEntries = es.length
  /-- The topology records them. -/
  records : g.topo.Records cfg n (updatesOf es)
  /-- So does `fault`. -/
  faults : g.topo.Faults cfg n (updatesOf es)
  /-- The tables are filled when the group is complete. -/
  filled : g.topo.lookupTablesPopulated = true → 0 < n ∧ es.length = n ∧ g.topo.Tables

variable {cfg : HostsConfig} {n : ℕ} {es : List PeerCacheEntry} {g g' : GroupCache} {ctx : GpCtx}

namespace Received

theorem isSet_iff (h : Received cfg n es g) (r : ℕ) : g.isSet r = true ↔ r ∈ es.map (·.rank) := by
  constructor
  · intro hs
    by_contra hr
    rw [GroupCache.isSet, h.blank r hr] at hs
    cases hs
  · intro hr
    obtain ⟨e, he, rfl⟩ := List.mem_map.1 hr
    rw [GroupCache.isSet, h.written e he]

/-- A complete group has an entry for every rank. -/
theorem mem_ranks_of_full (h : Received cfg n es g) (hf : es.length = n) {r : ℕ} (hr : r < n) :
    r ∈ es.map (·.rank) := by
  have hsub : (es.map (·.rank)).toFinset ⊆ Finset.range n := by
    intro q hq
    obtain ⟨e, he, rfl⟩ := List.mem_map.1 (List.mem_toFinset.1 hq)
    exact Finset.mem_range.2 (h.lt e he)
  have hcard : (Finset.range n).card ≤ (es.map (·.rank)).toFinset.card := by
    rw [List.toFinset_card_of_nodup h.nodup, List.length_map, hf, Finset.card_range]
  rw [← List.mem_toFinset, Finset.eq_of_subset_of_card_le hsub hcard]
  exact Finset.mem_range.2 hr

theorem of_unused {slot : Option GroupCache} (h : Unused slot) (cfg : HostsConfig) (n : ℕ) :
    Received cfg n [] (slot.getD newGroupCache) := by
  obtain ⟨p, hg, -⟩ := h
  rw [hg]
  refine ⟨fun _ => ⟨rfl, rfl, rfl⟩, fun hl => absurd rfl hl, .inl rfl, fun _ => rfl, ?_, fun r _ => rfl, List.nodup_nil,
    ?_, rfl, records_empty cfg n, faults_empty cfg n, ?_⟩
  · intro e he
    exact absurd he List.not_mem_nil
  · intro e he
    exact absurd he List.not_mem_nil
  · intro hp
    cases hp

/-- A lookup with the size of the group. -/
theorem lookup {uid : ℤ} (hu : uid ≠ INT_MAX) (hn : Allocatable n) (h : Received cfg n es g) :
    Received cfg n es (getGroupCacheInternal uid (some g) n) ∧
      (getGroupCacheInternal uid (some g) n).groupUid ≠ INT_MAX := by
  by_cases hm : g.groupUid = INT_MAX
  · have hlen : allocEntries (sizeT n) = n := by rw [sizeT_natCast hn.lt, hn.allocEntries_eq]
    obtain ⟨rfl, -, -⟩ := h.dead hm
    simp only [getGroupCacheInternal, hm, if_true]
    refine ⟨⟨fun hd => absurd hd hu, fun _ => ⟨rfl, _, rfl, by simpa using hlen⟩, .inl rfl, fun _ => rfl, ?_, ?_,
      List.nodup_nil, ?_, rfl, records_empty cfg n, faults_empty cfg n, ?_⟩, hu⟩
    · intro e he
      exact absurd he List.not_mem_nil
    · intro r _
      exact entryAt_replicate (k := allocEntries (sizeT n)) rfl r
    · intro e he
      exact absurd he List.not_mem_nil
    · intro hp
      cases hp
  · rw [getGroupCacheInternal_of_live hm]
    exact ⟨h, hm⟩

/-- The group learns its size. -/
theorem learn (h : Received cfg n es g) (hl : g.groupUid ≠ INT_MAX) (hn : Allocatable n) :
    Received cfg n es (g.learnGroupSize cfg n) ∧ (g.learnGroupSize cfg n).groupSize = n := by
  by_cases h0 : g.groupSize = 0
  · have hc : g.initialized = true ∧ g.groupSize = 0 ∧ 0 ≤ (n : ℤ) := ⟨(h.live hl).1, h0, Int.natCast_nonneg n⟩
    have hes := h.unknown h0
    rw [GroupCache.learnGroupSize, if_pos hc, sizeT_natCast hn.lt]
    have hpop : g.topo.lookupTablesPopulated = false := by
      by_contra hp
      obtain ⟨hpos, hfull, -⟩ := h.filled (Bool.not_eq_false _ ▸ hp)
      rw [hes] at hfull
      exact absurd hfull hpos.ne
    refine ⟨⟨fun hm => absurd hm hl, h.live, .inr rfl, fun _ => hes, h.written, h.blank, h.nodup, h.lt, h.count,
      h.records.congr rfl rfl (.inr rfl) rfl rfl (.inr rfl), .of_not_populated hpop (h.faults.iff_of_not_populated hpop),
      fun hp => ?_⟩, rfl⟩
    rw [hpop] at hp
    cases hp
  · rw [learnGroupSize_of_known h0]
    exact ⟨h, h.size.resolve_left h0⟩

/-- **One more entry.** -/
theorem add (h : Received ctx.hosts n es g) (hl : g.groupUid ≠ INT_MAX) (hs : g.groupSize = n) {e : PeerCacheEntry}
    (hr : e.rank < n) (hnew : e.rank ∉ es.map (·.rank)) : Received ctx.hosts n (e :: es) (g.addPeerEntry ctx e) := by
  obtain ⟨hinit, l, hlist, hlen⟩ := h.live hl
  obtain ⟨t, heq⟩ := addPeerEntry_eq ctx g e
  -- a group whose tables are filled is complete, and has no rank to add
  have hpop : g.topo.lookupTablesPopulated = false := by
    by_contra hp
    exact hnew (h.mem_ranks_of_full (h.filled (Bool.not_eq_false _ ▸ hp)).2.1 hr)
  have hrl : e.rank < g.entries.length := by
    rw [GroupCache.entries, hlist, Option.getD_some, hlen]
    exact hr
  have hentry : g.peerEntry e = { e with set := true } := by
    have hb := h.blank e.rank hnew
    unfold PeerCacheEntry.rank at hb
    rw [GroupCache.peerEntry, hb]
    rfl
  have hat : ∀ q, (g.addPeerEntry ctx e).entryAt q = if q = e.rank then { e with set := true } else g.entryAt q := by
    intro q
    rw [entryAt_map_set hrl (by rw [heq]; rfl) q, hentry]
  constructor
  · rw [heq]
    exact fun hm => absurd hm hl
  · rw [heq]
    exact fun _ => ⟨hinit, l.set e.rank (g.peerEntry e), by rw [hlist]; rfl, by rw [List.length_set, hlen]⟩
  · rw [heq]
    exact h.size
  · rw [heq]
    intro h0
    exact absurd (hs.symm.trans h0) (Nat.ne_of_gt (Nat.zero_lt_of_lt hr))
  · intro d hd
    rw [hat]
    rcases List.mem_cons.1 hd with rfl | hd
    · rw [if_pos rfl]
    · have hne : d.rank ≠ e.rank := fun he => hnew (he ▸ List.mem_map_of_mem hd)
      rw [if_neg hne]
      exact h.written d hd
  · intro q hq
    rw [List.map_cons, List.mem_cons, not_or] at hq
    rw [hat, if_neg hq.1]
    exact h.blank q hq.2
  · exact List.nodup_cons.2 ⟨hnew, h.nodup⟩
  · intro d hd
    rcases List.mem_cons.1 hd with rfl | hd
    · exact hr
    · exact h.lt d hd
  · rw [heq, List.length_cons, ← h.count]
  · rw [addPeerEntry_topo, hs]
    have hup := h.records.updates g.groupUid e.rank e.peer.hostInfo e.shadowServiceProcs
    exact hup.perm ((List.reverse_perm _).append_right _)
  · rw [addPeerEntry_topo, hs]
    have hup := h.faults.updates g.groupUid e.rank e.peer.hostInfo e.shadowServiceProcs h.records hpop
    exact hup.congr_runs fun u => ((List.reverse_perm _).append_right _).mem_iff
  · intro hp
    rw [addPeerEntry_topo, hs, updates_populated, hpop] at hp
    cases hp

/-- One turn of the loop. -/
theorem recvEntry (hn : Allocatable n) {acc : GroupCache × ℕ} (h : Received ctx.hosts n es acc.1)
    (hl : acc.1.groupUid ≠ INT_MAX) {e : PeerCacheEntry} (hm : Member n e.peer.procInfo) :
    Received ctx.hosts n (learnEntry es e) (recvPeerEntry ctx n acc e).1 ∧
      (recvPeerEntry ctx n acc e).1.groupUid ≠ INT_MAX := by
  obtain ⟨hlearn, hs⟩ := h.learn hl hn
  have hl' : (acc.1.learnGroupSize ctx.hosts n).groupUid ≠ INT_MAX := by simpa using hl
  simp only [recvPeerEntry]
  split
  · rename_i hset
    have hmem : e.rank ∈ es.map (·.rank) := (hlearn.isSet_iff _).1 hset
    rw [learnEntry, if_pos hmem]
    exact ⟨hlearn, hl'⟩
  · rename_i hset
    have hmem : e.rank ∉ es.map (·.rank) := fun hm => hset ((hlearn.isSet_iff _).2 hm)
    rw [learnEntry, if_neg hmem]
    refine ⟨hlearn.add hl' hs (hm.rank_lt hn) hmem, ?_⟩
    obtain ⟨t, heq⟩ := addPeerEntry_eq ctx (acc.1.learnGroupSize ctx.hosts n) e
    rw [heq]
    exact hl'

/-- The loop. -/
theorem recvEntries (hn : Allocatable n) (batch : List PeerCacheEntry) {s : GroupCache × ℕ}
    (h : Received ctx.hosts n es s.1) (hl : s.1.groupUid ≠ INT_MAX)
    (hb : ∀ e ∈ batch, Member n e.peer.procInfo) :
    Received ctx.hosts n (batch.foldl learnEntry es) (batch.foldl (recvPeerEntry ctx n) s).1 ∧
      (batch.foldl (recvPeerEntry ctx n) s).1.groupUid ≠ INT_MAX := by
  induction batch generalizing s es with
  | nil => exact ⟨h, hl⟩
  | cons e batch ih =>
    obtain ⟨h', hl'⟩ := h.recvEntry hn hl (hb e List.mem_cons_self)
    exact ih h' hl' fun d hd => hb d (List.mem_cons_of_mem _ hd)

/-- A complete group whose cache is sent gets its tables. -/
theorem send {s : GpState} (h : Received cfg n es s.gp) (hl : s.gp.groupUid ≠ INT_MAX) (hpos : 0 < s.gp.groupSize)
    (hf : s.gp.full = true) : Received cfg n es (sendGpCacheToHost s).gp := by
  have hs : s.gp.groupSize = n := h.size.resolve_left hpos.ne'
  have hlen : es.length = n := by
    rw [← h.count, ← hs]
    exact (beq_iff_eq.1 hf).symm
  unfold sendGpCacheToHost
  split
  · refine ⟨fun hm => absurd hm hl, h.live, h.size, h.unknown, h.written, h.blank, h.nodup, h.lt, h.count,
      h.records.doPopulate, h.faults.doPopulate, fun _ => ⟨hs ▸ hpos, hlen, ?_⟩⟩
    cases hp : s.gp.topo.lookupTablesPopulated with
    | true =>
      rw [doPopulate_of_populated hp]
      exact (h.filled hp).2.2
    | false => exact tables_doPopulate hp
  · exact h

/-- **A batch.** -/
theorem batch (hu : ctx.gpUid ≠ INT_MAX) (hn : Allocatable n) {s : GpState} (h : Received ctx.hosts n es s.gp)
    {batch : List PeerCacheEntry} (hb : BatchOf n batch) :
    Received ctx.hosts n (batch.foldl learnEntry es) (handlePeerCacheEntriesRecv ctx s batch).gp := by
  have hsz := hb.groupSize
  obtain ⟨hlook, hlive⟩ := h.lookup hu hn
  obtain ⟨hrecv, hl⟩ := Received.recvEntries (s := (_, 0)) hn batch hlook hlive hb.2
  simp only [handlePeerCacheEntriesRecv, hsz]
  split
  · rename_i hsend
    exact Received.send (s := ⟨_, s.out⟩) hrecv hl hsend.2.2.1 hsend.2.2.2.1
  · exact hrecv

/-- **Batches.** -/
theorem batches (hu : ctx.gpUid ≠ INT_MAX) (hn : Allocatable n) {slot : Option GroupCache} (h : Unused slot)
    {batches : List (List PeerCacheEntry)} (hb : ∀ batch ∈ batches, BatchOf n batch) :
    Received ctx.hosts n (firstEntries batches.flatten) (recvBatches ctx slot batches) := by
  have key : ∀ (bs : List (List PeerCacheEntry)) (es : List PeerCacheEntry) (g : GroupCache),
      (∀ batch ∈ bs, BatchOf n batch) → Received ctx.hosts n es g →
        Received ctx.hosts n (bs.flatten.foldl learnEntry es)
          (bs.foldl (fun g batch => (handlePeerCacheEntriesRecv ctx ⟨g, []⟩ batch).gp) g) := by
    intro bs
    induction bs with
    | nil => exact fun es g _ h => h
    | cons b bs ih =>
      intro es g hb h
      rw [List.flatten_cons, List.foldl_append, List.foldl_cons]
      exact ih _ _ (fun d hd => hb d (List.mem_cons_of_mem _ hd))
        (Received.batch (s := ⟨g, []⟩) hu hn h (hb b List.mem_cons_self))
  exact key batches [] _ hb (of_unused h ctx.hosts n)

/-- The tables once they are filled. -/
theorem tables (h : Received cfg n es g) : g.topo.doPopulateGroupCacheLookupTable.Tables := by
  cases hp : g.topo.lookupTablesPopulated with
  | true =>
    rw [doPopulate_of_populated hp]
    exact (h.filled hp).2.2
  | false => exact tables_doPopulate hp

end Received

/-! ### Batches of a few entries -/

/-- An entry of rank `rank` of a group of `n`, on host `host` and with the SPs `sps`. -/
def peerEntry (n rank host : ℕ) (sps : List ℕ) : PeerCacheEntry where
  set := true
  peer := ⟨⟨3, rank, n, 1, 0, host, 1⟩, host, [1]⟩
  clientId := 0
  shadowServiceProcs := sps

instance BatchOf.decidable (n : ℕ) (batch : List PeerCacheEntry) : Decidable (BatchOf n batch) :=
  inferInstanceAs (Decidable (batch ≠ [] ∧ ∀ e ∈ batch, Member n e.peer.procInfo))

/-! ### The table of the SPs -/

/-- **The table of the SPs is their sorted list**: at each of the `n_sps` places the SP whose bit has
that number. -/
def Topology.SpsSorted (t : Topology) : Prop :=
  ∀ k < t.nSps, ∃ gid, (t.spsBitset.getD []).IsNth k gid ∧ t.sps[k]? = some gid

/-- **The table is the sorted list of the SPs exactly when** these are SPs `0`, `1` and so on,
without a gap. -/
theorem sps_sorted_iff (g : GroupCache) (hpop : g.topo.lookupTablesPopulated = false) :
    g.topo.doPopulateGroupCacheLookupTable.SpsSorted ↔
      ∀ k < g.topo.nSps, (g.topo.spsBitset.getD []).test k = true := by
  obtain ⟨hns, -, hbs, -, -⟩ := doPopulate_fields hpop
  have hsps := (tables_doPopulate hpop).sps
  rw [hns, hbs] at hsps
  rw [Topology.SpsSorted, hns, hbs, hsps]
  constructor
  · intro h k hk
    obtain ⟨gid, hnth, hk'⟩ := h k hk
    obtain ⟨hlt, rfl⟩ := List.getElem?_eq_some_iff.1 hk'
    rw [List.getElem_range] at hnth
    exact Bitset.mem_bits.1 hnth.1
  · intro h k hk
    have hcard : g.topo.nSps ≤ (g.topo.spsBitset.getD []).bits.card := by
      have hsub : Finset.range g.topo.nSps ⊆ (g.topo.spsBitset.getD []).bits :=
        fun i hi => Bitset.mem_bits.2 (h i (Finset.mem_range.1 hi))
      simpa using Finset.card_le_card hsub
    refine ⟨k, Bitset.isNth_of_prefix h hk, ?_⟩
    rw [List.getElem?_range (by omega)]

/-- Two SPs, the first two of the engine. -/
theorem sps_sorted_pair :
    (recvBatches hostCtx none [[peerEntry 2 0 70 [0], peerEntry 2 1 71 [1]]]).topo.doPopulateGroupCacheLookupTable.SpsSorted :=
  (sps_sorted_iff _ (by decide)).2 (by decide)

/-- **Not always.** A group of one rank, whose SP is the second of the engine: the table has the
first one. -/
theorem not_sps_sorted : ¬ ∀ (ctx : GpCtx) (n : ℕ) (slot : Option GroupCache) (batches : List (List PeerCacheEntry)),
    ctx.gpUid ≠ INT_MAX → Allocatable n → Unused slot → (∀ b ∈ batches, BatchOf n b) →
      (∀ e ∈ batches.flatten, ∀ sp ∈ e.shadowServiceProcs, sp < ctx.numServiceProcs) →
        (recvBatches ctx slot batches).full = true → 0 < (recvBatches ctx slot batches).topo.nSps →
          (recvBatches ctx slot batches).topo.doPopulateGroupCacheLookupTable.SpsSorted := by
  intro h
  have hs := h hostCtx 1 none [[peerEntry 1 0 71 [1]]] (by decide) (by unfold Allocatable sizeofPeerCacheEntry; decide)
    ⟨newGroupCache.persistent, rfl, rfl⟩ (by decide) (by decide) (by decide) (by decide)
  obtain ⟨gid, hnth, hat⟩ := hs 0 (by decide)
  have hgid : gid = 0 := by
    have hval : (recvBatches hostCtx none [[peerEntry 1 0 71 [1]]]).topo.doPopulateGroupCacheLookupTable.sps[0]? = some 0 :=
      by decide
    rw [hval] at hat
    exact (Option.some.inj hat).symm
  subst hgid
  exact absurd hnth.1 (by decide)

end DpuOffload
