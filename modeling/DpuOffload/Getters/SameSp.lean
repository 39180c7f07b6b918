import DpuOffload.Cache.ArrivalOrder
import DpuOffload.Getters.Queries

/-!
# Ranks that share an SP

`on_same_sp` walks the shadow SPs of one rank and looks the other rank up in the bitset of
each. The bitsets are filled by `update_topology_data`, a rank and an SP at a time, so what the
walk finds rests on what the topology records (`sharesSp_eq`): an SP that both ranks list. It fills the
tables first.

* `on_same_sp_iff` — on a complete group built from received entries the answer is whether the
  two ranks list a common SP **exactly when** each SP has a bit and an entry lists each of its SPs once. It is
  then reflexive and symmetric, and ranks that share an SP are on the same host when each SP serves one host.
* `not_on_same_sp` — two ranks on the SPs 0 and 200.
-/

namespace DpuOffload

open TopoUpdate

variable {cfg : HostsConfig} {n : ℕ} {us : List TopoUpdate} {t : Topology} {es : List PeerCacheEntry}
  {g : GroupCache} {ctx : GpCtx}

/-- The bitset of an SP in the hash says which ranks came with it. -/
theorem Topology.Records.test_ranks (h : t.Records cfg n us) {r : ℕ} (hr : r < n) {sp : ℕ} {d : SpCacheData}
    (hd : t.spsHash.lookup sp = some d) :
    (d.ranksBitset.getD []).test r = true ↔ ∃ u ∈ us, u.rank = r ∧ u.sp = sp := by
  rw [(h.sps.data sp d hd).ranks.test, inRange, Finset.mem_filter, mem_ranksOf]
  constructor
  · rintro ⟨⟨u, hu, hrank⟩, -⟩
    obtain ⟨hu, hsp⟩ := List.mem_filter.1 hu
    exact ⟨u, hu, hrank, of_decide_eq_true hsp⟩
  · rintro ⟨u, hu, hrank, hsp⟩
    exact ⟨⟨u, List.mem_filter.2 ⟨hu, decide_eq_true hsp⟩, hrank⟩, hr.trans_le (Bitset.le_capacity_create n)⟩

/-- The walk over SPs that are in the hash. -/
theorem sharesSp_eq (h : t.Records cfg n us) {r : ℕ} (hr : r < n) {sps : List ℕ} (hsps : ∀ sp ∈ sps, sp ∈ spsOf us) :
    sharesSp t r sps = .success (decide (∃ sp ∈ sps, ∃ u ∈ us, u.rank = r ∧ u.sp = sp)) := by
  induction sps with
  | nil => simp [sharesSp]
  | cons sp sps ih =>
    have hkey : (t.spsHash.lookup sp).isSome := by
      rw [AList.lookup_isSome, h.sps.keys]
      exact hsps sp List.mem_cons_self
    obtain ⟨d, hd⟩ := Option.isSome_iff_exists.1 hkey
    have htest := h.test_ranks hr hd
    have hcap : r < (d.ranksBitset.getD []).capacity := by
      rw [(h.sps.data sp d hd).ranks.capacity]
      exact hr.trans_le (Bitset.le_capacity_create n)
    rw [sharesSp, hd, Answer.read_some, testAt_of_lt hcap, Answer.read_some,
      ih fun q hq => hsps q (List.mem_cons_of_mem _ hq)]
    by_cases hs : (d.ranksBitset.getD []).test r = true
    · rw [if_pos hs]
      refine congrArg Answer.success (decide_eq_true ?_).symm
      exact ⟨sp, List.mem_cons_self, htest.1 hs⟩
    · rw [if_neg hs]
      refine congrArg Answer.success (decide_eq_decide.2 ?_)
      constructor
      · rintro ⟨q, hq, hu⟩
        exact ⟨q, List.mem_cons_of_mem _ hq, hu⟩
      · rintro ⟨q, hq, hu⟩
        rcases List.mem_cons.1 hq with rfl | hq
        · exact absurd (htest.2 hu) hs
        · exact ⟨q, hq, hu⟩

/-! ### Complete groups -/

namespace Received

/-- The group that a getter finds, and what it makes of it. -/
theorem topologyGetter_eq (h : Received cfg n es g) (hpos : 0 < es.length) :
    topologyGetter ctx (some g) = { g with topo := g.topo.doPopulateGroupCacheLookupTable } := by
  have hl : g.groupUid ≠ INT_MAX := by
    intro hm
    rw [(h.dead hm).1] at hpos
    exact absurd hpos (Nat.lt_irrefl 0)
  rw [topologyGetter, getGroupCache, getGroupCacheInternal_of_live hl]

/-- The entry of each rank of a complete group. -/
theorem entryAt_of_full (h : Received cfg n es g) (hf : es.length = n) {r : ℕ} (hr : r < n) :
    ∃ e ∈ es, e.rank = r ∧ g.entryAt r = { e with set := true } := by
  obtain ⟨e, he, rfl⟩ := List.mem_map.1 (h.mem_ranks_of_full hf hr)
  exact ⟨e, he, rfl, h.written e he⟩

/-- **`on_same_sp` is the sharing relation.** -/
theorem onSameSp_eq (h : Received cfg n es g) (hs : g.topo.doPopulateGroupCacheLookupTable.fault = false)
    (hf : es.length = n) {r₁ r₂ : ℕ} (hr₁ : r₁ < n) (hr₂ : r₂ < n) :
    onSameSp ctx (some g) r₁ r₂ = .success
      (decide (∃ sp ∈ (g.entryAt r₁).shadowServiceProcs, sp ∈ (g.entryAt r₂).shadowServiceProcs)) := by
  obtain ⟨e₁, he₁, hrank₁, hat₁⟩ := h.entryAt_of_full hf hr₁
  obtain ⟨e₂, he₂, hrank₂, hat₂⟩ := h.entryAt_of_full hf hr₂
  have hsps : ∀ sp ∈ (g.entryAt r₁).shadowServiceProcs, sp ∈ spsOf (updatesOf es) := by
    intro sp hsp
    rw [hat₁] at hsp
    exact mem_spsOf.2 ⟨_, mem_updatesOf.2 ⟨e₁, he₁, sp, hsp, rfl⟩, rfl⟩
  have hshares : ∀ sp, (∃ u ∈ updatesOf es, u.rank = r₂ ∧ u.sp = sp) ↔ sp ∈ (g.entryAt r₂).shadowServiceProcs := by
    intro sp
    rw [hat₂]
    constructor
    · rintro ⟨u, hu, hrank, rfl⟩
      obtain ⟨e, he, sp, hsp, rfl⟩ := mem_updatesOf.1 hu
      -- a rank has one entry
      have : e = e₂ := List.inj_on_of_nodup_map h.nodup he he₂ (hrank.trans hrank₂.symm)
      exact this ▸ hsp
    · intro hsp
      exact ⟨_, mem_updatesOf.2 ⟨e₂, he₂, sp, hsp, rfl⟩, hrank₂, rfl⟩
  rw [onSameSp, h.topologyGetter_eq (hf ▸ Nat.zero_lt_of_lt hr₁), GroupCache.answer_safe hs]
  refine (sharesSp_eq h.records.doPopulate hr₂ hsps).trans (congrArg Answer.success (decide_eq_decide.2 ?_))
  exact exists_congr fun sp => and_congr_right fun _ => hshares sp

/-- `get_group_rank_host` on a complete group. -/
theorem getGroupRankHost_eq (h : Received cfg n es g) (hf : es.length = n) {r : ℕ} (hr : r < n) :
    getGroupRankHost ctx (some g) r = .success (g.entryAt r).peer.hostInfo := by
  obtain ⟨e, he, -, hat⟩ := h.entryAt_of_full hf hr
  have hl : g.groupUid ≠ INT_MAX := fun hm => List.not_mem_nil ((h.dead hm).1 ▸ he)
  have hne : g.groupSize ≠ 0 := fun h0 => List.not_mem_nil (h.unknown h0 ▸ he)
  rw [getGroupRankHost, getGroupRankCacheEntry, getGroupCacheInternal_of_live hl, learnGroupSize_of_known hne]
  exact if_pos (by rw [GroupCache.isSet, hat])

end Received

/-- What `on_same_sp` says about the ranks of a complete group of `n` ranks, built from the entries `es`. -/
structure SharingRelation (ctx : GpCtx) (n : ℕ) (es : List PeerCacheEntry) (g : GroupCache) : Prop where
  /-- Each rank has an entry that was received. -/
  entries : ∀ r < n, ∃ e ∈ es, e.rank = r ∧ g.entryAt r = { e with set := true }
  /-- The answer is whether the two ranks list a common SP. -/
  shares : ∀ r₁ < n, ∀ r₂ < n, onSameSp ctx (some g) r₁ r₂ = .success
    (decide (∃ sp ∈ (g.entryAt r₁).shadowServiceProcs, sp ∈ (g.entryAt r₂).shadowServiceProcs))
  /-- A rank shares its SPs with itself, when the entries list SPs, as the receiver asserts. -/
  refl : (∀ e ∈ es, e.shadowServiceProcs ≠ []) → ∀ r < n, onSameSp ctx (some g) r r = .success true
  /-- The order of the ranks does not matter. -/
  symm : ∀ r₁ < n, ∀ r₂ < n, onSameSp ctx (some g) r₁ r₂ = onSameSp ctx (some g) r₂ r₁
  /-- Ranks that share an SP are on one host, when each SP serves one host. -/
  sameHost : (∀ e ∈ es, ∀ e' ∈ es, ∀ sp ∈ e.shadowServiceProcs, sp ∈ e'.shadowServiceProcs →
      e.peer.hostInfo = e'.peer.hostInfo) →
    ∀ r₁ < n, ∀ r₂ < n, onSameSp ctx (some g) r₁ r₂ = .success true → onSameHost ctx (some g) r₁ r₂ = true

/-- **On a complete group `on_same_sp` is the sharing relation exactly when** each SP of the first entry of a rank has a bit and
is listed there once, whatever batches the entries came in and however many SPs each of them lists. -/
theorem on_same_sp_iff (ctx : GpCtx) (hu : ctx.gpUid ≠ INT_MAX) (hcfg : ctx.hosts.Valid) {n : ℕ} (hn : Allocatable n)
    {slot : Option GroupCache} (h₀ : Unused slot) (batches : List (List PeerCacheEntry))
    (hb : ∀ b ∈ batches, BatchOf n b) (hhas : ∀ e ∈ batches.flatten, ctx.hosts.Has e.peer.hostInfo)
    (hfull : (recvBatches ctx slot batches).numLocalEntries = n) :
    SharingRelation ctx n batches.flatten (recvBatches ctx slot batches) ↔ ∀ e ∈ firstEntries batches.flatten,
      e.shadowServiceProcs.Nodup ∧ ∀ sp ∈ e.shadowServiceProcs, sp < (Bitset.create n).capacity := by
  have h := Received.batches hu hn h₀ hb
  have hf : (firstEntries batches.flatten).length = n := h.count.symm.trans hfull
  have hsafe := h.fault_iff (hcfg.separates_updatesOf fun e he => hhas e (mem_of_mem_firstEntries he))
  rw [← hsafe]
  generalize recvBatches ctx slot batches = g at h hsafe ⊢
  have hent : ∀ r < n, ∃ e ∈ batches.flatten, e.rank = r ∧ g.entryAt r = { e with set := true } := by
    intro r hr
    obtain ⟨e, he, hrest⟩ := h.entryAt_of_full hf hr
    exact ⟨e, mem_of_mem_firstEntries he, hrest⟩
  constructor
  · intro hs
    rcases Nat.eq_zero_or_pos n with h0 | hpos
    · -- no entry, no access
      refine hsafe.2 fun e he => ?_
      rw [List.length_eq_zero_iff.1 (hf.trans h0)] at he
      exact absurd he List.not_mem_nil
    · have hans := hs.shares 0 hpos 0 hpos
      unfold onSameSp at hans
      rw [h.topologyGetter_eq (hf ▸ hpos)] at hans
      exact GroupCache.safe_of_success hans
  intro hs
  refine ⟨hent, fun r₁ hr₁ r₂ hr₂ => h.onSameSp_eq hs hf hr₁ hr₂, ?_, ?_, ?_⟩
  · intro hne r hr
    obtain ⟨e, he, -, hat⟩ := hent r hr
    rw [h.onSameSp_eq hs hf hr hr, hat]
    obtain ⟨sp, hsp⟩ := List.exists_mem_of_ne_nil _ (hne e he)
    exact congrArg Answer.success (decide_eq_true ⟨sp, hsp, hsp⟩)
  · intro r₁ hr₁ r₂ hr₂
    rw [h.onSameSp_eq hs hf hr₁ hr₂, h.onSameSp_eq hs hf hr₂ hr₁]
    exact congrArg Answer.success (decide_eq_decide.2 (exists_congr fun sp => and_comm))
  · intro hhost r₁ hr₁ r₂ hr₂ hsame
    rw [h.onSameSp_eq hs hf hr₁ hr₂] at hsame
    obtain ⟨sp, hsp₁, hsp₂⟩ := of_decide_eq_true (Answer.success.inj hsame)
    obtain ⟨e₁, he₁, -, hat₁⟩ := hent r₁ hr₁
    obtain ⟨e₂, he₂, -, hat₂⟩ := hent r₂ hr₂
    rw [hat₁] at hsp₁
    rw [hat₂] at hsp₂
    rw [onSameHost, h.getGroupRankHost_eq hf hr₁, h.getGroupRankHost_eq hf hr₂, hat₁, hat₂]
    exact beq_iff_eq.2 (hhost e₁ he₁ e₂ he₂ sp hsp₁ hsp₂)

/-- Two ranks with the SPs 0, 1 and 1, 2. -/
theorem on_same_sp_pair :
    SharingRelation hostCtx 2 [peerEntry 2 0 70 [0, 1], peerEntry 2 1 70 [1, 2]]
      (recvBatches hostCtx none [[peerEntry 2 0 70 [0, 1]], [peerEntry 2 1 70 [1, 2]]]) :=
  (on_same_sp_iff hostCtx (by decide) hostCtx_valid allocatable_two ⟨newGroupCache.persistent, rfl, rfl⟩
    [[peerEntry 2 0 70 [0, 1]], [peerEntry 2 1 70 [1, 2]]] (by decide) (by decide) (by decide)).2 (by decide)

/-- **Not on every group.** Two ranks, on SP 0 and on SP 200 of another host: the bitset of the SPs has one byte. -/
theorem not_on_same_sp : ¬ ∀ (ctx : GpCtx) (n : ℕ) (slot : Option GroupCache) (batches : List (List PeerCacheEntry)),
    ctx.gpUid ≠ INT_MAX → ctx.hosts.Valid → Allocatable n → Unused slot → (∀ b ∈ batches, BatchOf n b) →
      (∀ e ∈ batches.flatten, ctx.hosts.Has e.peer.hostInfo) →
        (recvBatches ctx slot batches).numLocalEntries = n →
          SharingRelation ctx n batches.flatten (recvBatches ctx slot batches) := by
  intro h
  have hs := h { hostCtx with numServiceProcs := 201 } 2 none [[peerEntry 2 0 70 [0]], [peerEntry 2 1 71 [200]]]
    (by decide) hostCtx_valid allocatable_two ⟨newGroupCache.persistent, rfl, rfl⟩ (by decide) (by decide) (by decide)
  have hans := hs.shares 0 Nat.zero_lt_two 0 Nat.zero_lt_two
  have hfault : onSameSp { hostCtx with numServiceProcs := 201 } (some (recvBatches { hostCtx with numServiceProcs := 201 } none
      [[peerEntry 2 0 70 [0]], [peerEntry 2 1 71 [200]]])) 0 0 = .fault := by decide
  rw [hfault] at hans
  cases hans

end DpuOffload
