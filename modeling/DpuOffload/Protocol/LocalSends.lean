import DpuOffload.Protocol.EntryCounts
import DpuOffload.Protocol.Messages

/-!
# Sending the entries of the local ranks

`send_local_rank_group_cache` walks over the array of entries in ranges that
`find_range_local_ranks` finds, until it has sent `n_local_ranks_populated` entries. Only that
number stops it: neither loop looks at the size of the group.

* `GroupCache.Ranked` — a group cache as the callbacks keep it, where an entry that is set holds a rank.
* `findRangeLoop_none_eq` — a range is the next local entry, and the search ends before the one after it.
* `local_entries_sent` — **the local entries are sent**, each once and nothing else, within the array.
* `ranked_of_reach` — every group of an SP is so in every run.
-/

namespace DpuOffload

open Relation Transition

/-- An entry of a local rank: it is set and its first shadow SP is the local one. -/
def PeerCacheEntry.isLocal (gid : ℕ) (e : PeerCacheEntry) : Bool := e.set && e.shadow0 == gid

/-- **A group cache as the callbacks keep it.** -/
structure GroupCache.Ranked (g : GroupCache) : Prop where
  /-- There are no entries before the group is initialised. -/
  live : g.initialized = false → g.entries = []
  /-- Only ranks of the group are set. -/
  room : ∀ r, g.isSet r = true → r < g.groupSize
  /-- An entry that is set holds a rank. -/
  valid : ∀ e ∈ g.entries, e.set = true → e.peer.procInfo.groupRank ≠ INVALID_RANK

variable {g : GroupCache} {gid : ℕ}

/-! ### The search for a range -/

/-- Once a range has started, the search skips entries that are not set. -/
theorem findRangeLoop_some_eq {total cur start count : ℕ} {es : List PeerCacheEntry} {idx : ℕ}
    (hv : ∀ e ∈ es, e.set = true → e.peer.procInfo.groupRank ≠ INVALID_RANK) (hlt : start < idx)
    (h : cur + count + es.countP (PeerCacheEntry.isLocal gid) = total) :
    ∃ n, findRangeLoop gid total cur es idx (some start) count = some (start, count, idx + n) ∧ n ≤ es.length ∧
      es.filter (PeerCacheEntry.isLocal gid) = (es.drop n).filter (PeerCacheEntry.isLocal gid) := by
  induction es generalizing idx with
  | nil =>
    exact ⟨0, by rw [findRangeLoop, if_pos (by simpa using h)]; rfl, le_rfl, rfl⟩
  | cons e es ih =>
    unfold findRangeLoop
    by_cases hdone : cur + count = total
    · exact ⟨0, by rw [if_pos hdone]; rfl, Nat.zero_le _, rfl⟩
    rw [if_neg hdone]
    cases hset : e.set
    · have hno : e.isLocal gid = false := by rw [PeerCacheEntry.isLocal, hset]; rfl
      rw [List.countP_cons_of_neg (by rw [hno]; exact Bool.false_ne_true)] at h
      obtain ⟨n, hn, hle, hf⟩ := ih (fun e' he' => hv e' (List.mem_cons_of_mem _ he')) (hlt.trans (Nat.lt_succ_self _)) h
      refine ⟨n + 1, ?_, Nat.succ_le_succ hle, ?_⟩
      · simp only [hset, Bool.not_false, if_true]
        rw [hn, Nat.succ_add_eq_add_succ]
      · rw [List.filter_cons_of_neg (by rw [hno]; exact Bool.false_ne_true), hf, List.drop_succ_cons]
    · -- an entry that is set holds a rank, which ends the range
      refine ⟨0, ?_, Nat.zero_le _, rfl⟩
      simp only [hset, Bool.not_true, Bool.false_eq_true, if_false]
      rw [if_pos ⟨hlt, (hv e List.mem_cons_self hset).symm⟩]
      rfl

/-- **A range is the next local entry**, and the search stops at or before the local entry after it. -/
theorem findRangeLoop_none_eq {total cur : ℕ} {es : List PeerCacheEntry} {idx : ℕ}
    (hv : ∀ e ∈ es, e.set = true → e.peer.procInfo.groupRank ≠ INVALID_RANK)
    (h : cur + es.countP (PeerCacheEntry.isLocal gid) = total) (hlt : cur < total) :
    ∃ k n, findRangeLoop gid total cur es idx none 0 = some (idx + k, 1, idx + n) ∧ k < n ∧ n ≤ es.length ∧
      es.filter (PeerCacheEntry.isLocal gid) =
        (es.drop k).take 1 ++ (es.drop n).filter (PeerCacheEntry.isLocal gid) := by
  induction es generalizing idx with
  | nil =>
    rw [List.countP_nil] at h
    omega
  | cons e es ih =>
    have hv' : ∀ e' ∈ es, e'.set = true → e'.peer.procInfo.groupRank ≠ INVALID_RANK :=
      fun e' he' => hv e' (List.mem_cons_of_mem _ he')
    unfold findRangeLoop
    by_cases hloc : e.isLocal gid = true
    · have hset : e.set = true := by
        rw [PeerCacheEntry.isLocal, Bool.and_eq_true] at hloc
        exact hloc.1
      have hsp : e.shadow0 = gid := by
        rw [PeerCacheEntry.isLocal, Bool.and_eq_true] at hloc
        exact beq_iff_eq.1 hloc.2
      rw [List.countP_cons_of_pos hloc] at h
      obtain ⟨n, hn, hle, hf⟩ := @findRangeLoop_some_eq gid total cur idx 1 es (idx + 1) hv'
        (Nat.lt_succ_self idx) (by omega)
      refine ⟨0, n + 1, ?_, Nat.succ_pos n, Nat.succ_le_succ hle, ?_⟩
      · simp only [hset, Bool.not_true, Bool.false_eq_true, if_false]
        rw [if_pos hsp, hn, Nat.succ_add_eq_add_succ]
        rfl
      · rw [List.filter_cons_of_pos hloc, hf, List.drop_succ_cons]
        rfl
    · -- the search goes on behind an entry that is not local
      rw [List.countP_cons_of_neg hloc] at h
      obtain ⟨k, n, hn, hkn, hle, hf⟩ := @ih (idx + 1) hv' h
      refine ⟨k + 1, n + 1, ?_, Nat.succ_lt_succ hkn, Nat.succ_le_succ hle, ?_⟩
      · have hgo : (if (!e.set) = true then findRangeLoop gid total cur es (idx + 1) none 0
            else if e.shadow0 = gid then findRangeLoop gid total cur es (idx + 1) (some idx) (0 + 1)
            else findRangeLoop gid total cur es (idx + 1) none 0) = findRangeLoop gid total cur es (idx + 1) none 0 := by
          cases hset : e.set
          · rfl
          · have hsp : e.shadow0 ≠ gid := by
              intro hsp
              rw [PeerCacheEntry.isLocal, hset, hsp, beq_self_eq_true] at hloc
              exact hloc rfl
            simp only [Bool.not_true, Bool.false_eq_true, if_false]
            rw [if_neg hsp]
        rw [hgo, hn]
        simp only [Nat.add_assoc, Nat.add_comm 1]
      · rw [List.filter_cons_of_neg hloc, hf, List.drop_succ_cons, List.drop_succ_cons]

/-! ### The sends -/

/-- **The batches sent from an index on** are the local entries from there on, one by one. -/
theorem sendLocalRanksLoop_singles (hv : ∀ e ∈ g.entries, e.set = true → e.peer.procInfo.groupRank ≠ INVALID_RANK)
    {fuel count idx : ℕ}
    (h : count + (g.entries.drop idx).countP (PeerCacheEntry.isLocal gid) = g.nLocalRanksPopulated)
    (hfuel : g.nLocalRanksPopulated ≤ count + fuel) : sendLocalRanksLoop g gid fuel count idx =
      some (((g.entries.drop idx).filter (PeerCacheEntry.isLocal gid)).map fun e => [e]) := by
  induction fuel generalizing count idx with
  | zero =>
    have hno : (g.entries.drop idx).filter (PeerCacheEntry.isLocal gid) = [] := by
      rw [← List.length_eq_zero_iff, ← List.countP_eq_length_filter]
      omega
    rw [hno]
    rfl
  | succ fuel ih =>
    unfold sendLocalRanksLoop
    by_cases hlt : count < g.nLocalRanksPopulated
    · obtain ⟨k, n, hn, hkn, hle, hf⟩ := @findRangeLoop_none_eq gid _ _ _ idx
        (fun e he => hv e (List.mem_of_mem_drop he)) h hlt
      have hk : k < (g.entries.drop idx).length := lt_of_lt_of_le hkn hle
      have hone : ((g.entries.drop idx).drop k).take 1 = [(g.entries.drop idx)[k]] := by
        rw [List.drop_eq_getElem_cons hk]
        rfl
      rw [hone, List.drop_drop] at hf
      have hrest : count + 1 + (g.entries.drop (idx + n)).countP (PeerCacheEntry.isLocal gid) =
          g.nLocalRanksPopulated := by
        rw [List.countP_eq_length_filter, hf, List.length_append, List.length_singleton,
          ← List.countP_eq_length_filter] at h
        omega
      rw [List.drop_drop] at hone
      rw [if_pos hlt, findRangeLocalRanks, hn]
      simp only [Option.bind_eq_bind, Option.bind_some, ih hrest (by omega), hone]
      rw [hf, List.singleton_append, List.map_cons]
    · have hno : (g.entries.drop idx).filter (PeerCacheEntry.isLocal gid) = [] := by
        rw [← List.length_eq_zero_iff, ← List.countP_eq_length_filter]
        omega
      rw [if_neg hlt, hno]
      rfl

/-- The group cache with the entries below its size only: an access at or past it finds nothing. -/
def GroupCache.below (g : GroupCache) : GroupCache := { g with ranks := g.ranks.map (·.take g.groupSize) }

theorem entries_below (g : GroupCache) : g.below.entries = g.entries.take g.groupSize := by
  unfold GroupCache.below GroupCache.entries
  cases g.ranks with
  | none => exact List.take_nil.symm
  | some l => rfl

/-- All the local entries are below the size of the group. -/
theorem GroupCache.Ranked.filter_below (hg : g.Ranked) (gid : ℕ) :
    g.below.entries.filter (PeerCacheEntry.isLocal gid) = g.entries.filter (PeerCacheEntry.isLocal gid) := by
  have hno : (g.entries.drop g.groupSize).filter (PeerCacheEntry.isLocal gid) = [] := by
    refine List.filter_eq_nil_iff.2 fun e he hloc => ?_
    obtain ⟨k, hk, rfl⟩ := List.mem_iff_getElem.1 he
    rw [List.getElem_drop] at hloc
    rw [List.length_drop] at hk
    have hset : g.isSet (g.groupSize + k) = true := by
      rw [GroupCache.isSet, GroupCache.entryAt, List.getD_eq_getElem _ _ (by omega)]
      exact (Bool.and_eq_true _ _ ▸ hloc).1
    exact absurd (hg.room _ hset) (by omega)
  rw [entries_below]
  conv_rhs => rw [← List.take_append_drop g.groupSize g.entries, List.filter_append, hno, List.append_nil]

/-- **The local entries of a group are sent**, each once and nothing else. The loops end, however many turns they
are given, and read no entry at or past the size of the group. -/
theorem local_entries_sent (hg : g.Ranked)
    (hn : g.nLocalRanksPopulated = g.entries.countP fun e => e.set && e.shadow0 == gid) :
    ∃ batches, sendLocalRankGroupCache g gid = some batches ∧
      batches.flatten = g.entries.filter (fun e => e.set && e.shadow0 == gid) ∧
      ∀ fuel, g.nLocalRanksPopulated ≤ fuel → sendLocalRanksLoop g.below gid fuel 0 0 = some batches := by
  have hn : g.nLocalRanksPopulated = g.entries.countP (PeerCacheEntry.isLocal gid) := hn
  have hsend : ∀ g' : GroupCache, g'.nLocalRanksPopulated = g.nLocalRanksPopulated →
      (∀ e ∈ g'.entries, e ∈ g.entries) →
      g'.entries.filter (PeerCacheEntry.isLocal gid) = g.entries.filter (PeerCacheEntry.isLocal gid) →
      ∀ fuel, g.nLocalRanksPopulated ≤ fuel → sendLocalRanksLoop g' gid fuel 0 0 =
        some ((g.entries.filter (PeerCacheEntry.isLocal gid)).map fun e => [e]) := by
    intro g' hnum hmem hf fuel hfuel
    rw [← hf]
    refine sendLocalRanksLoop_singles (fun e he => hg.valid e (hmem e he)) ?_ (by omega)
    rw [hnum, hn, List.countP_eq_length_filter, List.countP_eq_length_filter, ← hf, List.drop_zero, Nat.zero_add]
  refine ⟨(g.entries.filter (PeerCacheEntry.isLocal gid)).map fun e => [e], ?_, ?_, ?_⟩
  · unfold sendLocalRankGroupCache
    cases hi : g.initialized
    · rw [hg.live hi]
      rfl
    · exact hsend g rfl (fun _ he => he) rfl _ le_rfl
  · rw [← List.flatMap_def, List.flatMap_singleton']
    rfl
  · refine hsend g.below rfl (fun e he => ?_) (hg.filter_below gid)
    rw [entries_below] at he
    exact List.mem_of_mem_take he

/-- The entry of a rank whose first shadow SP is `sp`. -/
def entryOfSp (r sp : ℕ) : PeerCacheEntry := { pairEntry r 1 with shadowServiceProcs := [sp] }

/-- A group of four on SP `1`: two local ranks with one between them that is not set, and a rank of SP `0`. -/
def sparseGroup : GroupCache where
  initialized := true
  persistent := Persistent.init
  revokesGlobal := 0
  revokesLocal := 0
  revokesRanks := none
  groupSize := 4
  groupUid := 5
  numLocalEntries := 3
  nLocalRanks := 2
  nLocalRanksPopulated := 2
  spRanks := 2
  ranks := some [entryOfSp 0 1, initPeerCacheEntry, entryOfSp 2 1, entryOfSp 3 0]
  topo := Topology.empty

/-- The search goes over the gap and stops before the rank of the other SP. -/
theorem local_entries_sent_sparse :
    sparseGroup.Ranked ∧ ∃ batches, sendLocalRankGroupCache sparseGroup 1 = some batches ∧
      batches.flatten = sparseGroup.entries.filter (fun e => e.set && e.shadow0 == 1) ∧
      ∀ fuel, 2 ≤ fuel → sendLocalRanksLoop sparseGroup.below 1 fuel 0 0 = some batches := by
  have hr : sparseGroup.Ranked := by
    refine ⟨fun h => absurd h (by decide), fun r hset => ?_, by decide⟩
    by_contra hge
    have hblank : sparseGroup.entryAt r = initPeerCacheEntry := List.getD_eq_default _ _ (not_lt.1 hge)
    rw [GroupCache.isSet, hblank] at hset
    cases hset
  exact ⟨hr, local_entries_sent hr (by decide)⟩

/-! ### Runs of an SP -/

/-- **An entry that is set holds a rank**, whatever the messages were: a write for no rank is beyond the array. -/
structure HoldsRanks (g : GroupCache) : Prop where
  /-- An entry that is set holds a rank. -/
  valid : ∀ e ∈ g.entries, e.set = true → e.peer.procInfo.groupRank ≠ INVALID_RANK
  /-- The entry of no rank is beyond the array. -/
  room : g.entries.length ≤ sizeT INVALID_RANK

namespace HoldsRanks

variable {g' : GroupCache} {ctx : GpCtx} {Sz : ℤ → Prop} {T : Tally → Prop}

theorem of_ranks (h : HoldsRanks g) (hr : g'.ranks = g.ranks) : HoldsRanks g' := by
  have he : g'.entries = g.entries := by simp only [GroupCache.entries, hr]
  constructor
  · rw [he]
    exact h.valid
  · rw [he]
    exact h.room

/-- A group cache without entries. -/
theorem of_none (hr : g.ranks = none) : HoldsRanks g := by
  have he : g.entries = [] := by rw [GroupCache.entries, hr]; rfl
  constructor
  · rw [he]
    exact fun e hm => absurd hm List.not_mem_nil
  · rw [he]
    exact Nat.zero_le _

/-- A group that is initialised. -/
theorem of_replicate {n : ℕ} (hr : g.ranks = some (List.replicate (allocEntries n) initPeerCacheEntry)) :
    HoldsRanks g := by
  have he : g.entries = List.replicate (allocEntries n) initPeerCacheEntry := by rw [GroupCache.entries, hr]; rfl
  constructor
  · rw [he]
    intro e hm hset
    rw [List.eq_of_mem_replicate hm] at hset
    cases hset
  · rw [he, List.length_replicate]
    have hle : allocEntries n ≤ n * sizeofPeerCacheEntry % 2 ^ 64 := Nat.div_le_self _ _
    have hmax : sizeT INVALID_RANK = 2 ^ 64 - 1 := by decide
    omega

/-- **An entry is written** at the rank it holds. -/
theorem put (h : HoldsRanks g) {e : PeerCacheEntry}
    (hr : g'.ranks = g.ranks.map (·.set (sizeT e.peer.procInfo.groupRank) e)) : HoldsRanks g' := by
  have he : g'.entries = g.entries.set (sizeT e.peer.procInfo.groupRank) e := by
    simp only [GroupCache.entries, hr]
    cases g.ranks <;> rfl
  constructor
  · rw [he]
    by_cases hv : e.peer.procInfo.groupRank = INVALID_RANK
    · rw [List.set_eq_of_length_le (by rw [hv]; exact h.room)]
      exact h.valid
    · intro d hd hset
      rcases List.mem_or_eq_of_mem_set hd with hd | rfl
      · exact h.valid d hd hset
      · exact hv
  · rw [he, List.length_set]
    exact h.room

theorem lookup (h : HoldsRanks g) (uid size : ℤ) : HoldsRanks (getGroupCacheInternal uid (some g) size) := by
  unfold getGroupCacheInternal
  dsimp only
  split
  · exact of_replicate rfl
  · exact h

/-- **No action of a callback** on an SP sets an entry without a rank. -/
theorem act (hd : ctx.onDpu = true) {w w' : Work} (h : HoldsRanks w.gp) (ha : Act ctx Sz T w w') :
    HoldsRanks w'.gp := by
  cases ha with
  | init size hs hl => exact of_replicate rfl
  | learn size hs hl => exact h.of_ranks (learnGroupSize_ranks _ _ _)
  | @addEntry e es he hl hL h0 hset =>
    obtain ⟨t, ht⟩ := addPeerEntry_eq ctx w.gp e
    exact h.put (e := w.gp.peerEntry e) (by rw [ht]; rfl)
  | @addLocal p ps ha hl hL h0 hset =>
    obtain ⟨t, k, sp, ht, -⟩ := addGroupRank_eq ctx w.gp p.clientId p.data
    exact h.put (e := localEntry ctx p.clientId p.data.rankInfo) (by rw [ht]; rfl)
  | sendCache hl h0 hf =>
    obtain ⟨t, ht⟩ := sendGpCacheToHost_gp w.toGpState
    exact h.of_ranks (by simp only [ht])
  | exchange hdue hl =>
    obtain ⟨t, ht⟩ := @groupCacheExchange_gp ctx w.toGpState w.gp.spRanks
    exact h.of_ranks (by simp only [ht])
  | markLocal hr hl hn' => exact h.of_ranks (by simp only [tellRankRevoke_gp]; rfl)
  | accept hr hl hdl hT' =>
    unfold GroupCache.learnFromRevoke
    split
    · exact h.of_ranks rfl
    · exact h
  | reset hf he hdue => exact of_none rfl
  | hostAdd hd' _ | hostPark hd' _ _ | hostTake hd' _ | hostRevoke _ hd' =>
    rw [hd] at hd'
    cases hd'
  | _ => exact h.of_ranks rfl

/-- An event of the group. -/
theorem event (hu : ctx.gpUid ≠ INT_MAX) (hd : ctx.onDpu = true) {e e' : Engine} {ev : Event}
    (h : HoldsRanks e.gp) (hs : e.step ctx ev = some e') : HoldsRanks e'.gp := by
  have hsz : ∀ ev : Event, ev.Sizes fun _ => True := by
    intro ev
    cases ev <;> trivial
  rcases @Engine.step_acts ctx (fun _ => True) (fun _ => True) hu e e' ev hs ⟨fun _ _ => trivial, fun _ _ => trivial⟩
    (hsz ev) (ev.applies_true _) with ⟨-, hgp, -⟩ | hw
  · rw [hgp]
    exact h
  · have hstart : HoldsRanks (ev.enter ctx ⟨e.gp, e.log⟩).gp := by
      cases ev with
      | revokeFromSp m =>
        simp only [Event.enter]
        split <;> exact h
      | _ => exact h
    exact keeps (J := fun w : Work => HoldsRanks w.gp) (fun _ _ hJ ha => hJ.act hd ha) hw hstart

/-- `revoke_group_cache`. -/
theorem revoke (hu : ctx.gpUid ≠ INT_MAX) (hd : ctx.onDpu = true) (h : HoldsRanks g) :
    HoldsRanks (revokeGroupCache ctx ⟨g, []⟩).gp := by
  obtain ⟨ha, -⟩ := @revokeGroupCache_acts ctx (fun _ => True) (fun _ => True) hu
    { Work.start ⟨g, []⟩ with final := true } rfl rfl rfl fun _ _ => trivial
  exact keeps (J := fun w : Work => HoldsRanks w.gp) (fun _ _ hJ ha => hJ.act hd ha) ha h

/-- A rank connects. -/
theorem connect {slot : Option GroupCache} (h : HoldsRanks (slot.getD newGroupCache)) (c : ℕ) (info : RankInfo) :
    HoldsRanks ((finalizeClientConnection ctx slot c info).1.getD newGroupCache) := by
  have hcb : ∀ (slot : Option GroupCache) (out : List Effect), HoldsRanks (slot.getD newGroupCache) →
      HoldsRanks ((localRankConnectDefaultCallback ctx (slot, out) info).1.getD newGroupCache) := by
    intro slot out h
    unfold localRankConnectDefaultCallback
    split
    · exact h
    · have hlook : HoldsRanks (getGroupCacheInternal ctx.gpUid slot info.groupSize) := by
        rw [getGroupCacheInternal_getD]
        exact h.lookup _ _
      dsimp only
      split
      · obtain ⟨t, ht⟩ := sendGpCacheToHost_gp ⟨getGroupCacheInternal ctx.gpUid slot info.groupSize, out⟩
        rw [ht]
        exact hlook.of_ranks rfl
      · exact hlook
  unfold finalizeClientConnection
  split
  · exact hcb slot [] h
  · rw [addCacheEntryForNewClient_getD]
    apply hcb _ _
    obtain ⟨t, ht⟩ := @groupCacheExchange_gp ctx
      ⟨addCacheEntryForNewClient ctx (some (slot.getD newGroupCache)) c info, []⟩ (sizeT info.nLocalRanks)
    obtain ⟨p, g₀, g₁, h₀, h₁, hp⟩ := addCacheEntryForNewClient_put ctx (slot.getD newGroupCache) c info
    have h₀' : HoldsRanks g₀ := by
      rw [h₀]
      exact (h.lookup _ _).of_ranks rfl
    have h₁' : HoldsRanks g₁ := by
      rw [h₁]
      exact h₀'.of_ranks (learnGroupSize_ranks _ _ _)
    rw [ht]
    exact h₁'.put (e := localEntry ctx c info) (by rw [hp]; rfl)

end HoldsRanks

/-- A group whose entries are counted, and hold ranks, is as the sends need it. -/
theorem Stocked.ranked {n : ℕ} (h : Stocked n g) (hr : HoldsRanks g) : g.Ranked := by
  refine ⟨fun hi => ?_, fun r hset => ?_, hr.valid⟩
  · by_cases hl : g.Live
    · rw [(h.live hl).1] at hi
      cases hi
    · rw [GroupCache.entries, h.dead hl]
      rfl
  · rcases h.size with h0 | hs
    · have hnone : g.entries.countP (·.set) = 0 := h.count.symm.trans (h.unknown h0)
      by_contra
      have hlt : r < g.entries.length := by
        by_contra hge
        rw [GroupCache.isSet, GroupCache.entryAt, List.getD_eq_default _ _ (not_lt.1 hge)] at hset
        cases hset
      rw [GroupCache.isSet, GroupCache.entryAt, List.getD_eq_getElem _ _ hlt] at hset
      exact List.countP_eq_zero.1 hnone _ (List.getElem_mem hlt) hset
    · rw [hs]
      exact h.isSet_lt hset

variable {sys : GpCtx} {N : ℤ → ℕ} {s s' : Store}

/-- An operation of an SP. -/
theorem HoldsRanks.step {op : StoreOp} (hd : sys.onDpu = true) (h : HoldsRanks (s.group op.uid).gp)
    (hop : op.OfSp sys N) (hs : s.step sys op = some s') : HoldsRanks (s'.group op.uid).gp := by
  have hput : ∀ e, s' = s.put op.uid e → s'.group op.uid = e := by
    rintro e rfl
    exact Function.update_self _ _ _
  cases op with
  | event uid ev =>
    obtain ⟨e, he, rfl⟩ := Option.map_eq_some_iff.1 hs
    rw [hput e rfl]
    exact @HoldsRanks.event (s.ctx sys uid) hop.1 hd _ _ _ h he
  | connect uid c info =>
    simp only [Store.step, hd, if_true] at hs
    cases hs
    rw [hput _ rfl]
    exact @HoldsRanks.connect (s.ctx sys uid) _ h c info
  | revoke uid =>
    cases hs
    rw [hput _ rfl]
    exact @HoldsRanks.revoke _ (s.ctx sys uid) hop.1 hd h
  | query _ | lookup _ _ | entry _ _ | hostAdd _ _ => exact hop.2.elim

/-- **In every run of an SP** in which no rank connects whose entry is set, every group is as the sends need it and
`n_local_ranks_populated` counts its local entries. -/
theorem ranked_of_reach (sys : GpCtx) (N : ℤ → ℕ) (hd : sys.onDpu = true) (hn : ∀ uid, Allocatable (N uid))
    (h : Reach (Store.step sys) (fun s op => op.OfSp sys N ∧ s.NewClient op) Store.init s) (uid : ℤ) :
    (s.group uid).gp.Ranked ∧ (s.group uid).gp.nLocalRanksPopulated =
      (s.group uid).gp.entries.countP fun e => e.set && e.shadow0 == sys.globalId := by
  have hk : ∀ uid, Rolled sys.globalId (N uid) (s.group uid).work ∧ HoldsRanks (s.group uid).gp := by
    refine h.invariant (I := fun s => ∀ uid, Rolled sys.globalId (N uid) (s.group uid).work ∧
      HoldsRanks (s.group uid).gp) ?_ ?_
    · intro uid
      exact ⟨⟨GroupCache.Sized.new, Carries.new _ [], Numbered.new⟩, HoldsRanks.of_none rfl⟩
    · rintro s op s' hI ⟨hop, hnew⟩ hs uid
      by_cases he : uid = op.uid
      · subst he
        exact ⟨(hI op.uid).1.step hd (hn _) hop hnew hs, (hI op.uid).2.step hd hop hs⟩
      · rw [Store.step_frame hs he]
        exact hI uid
  obtain ⟨hroll, hranks⟩ := hk uid
  exact ⟨hroll.numbered.toStocked.ranked hranks, hroll.numbered.populated⟩

end DpuOffload
