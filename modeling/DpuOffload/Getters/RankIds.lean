import DpuOffload.Getters.Complete
import Mathlib.Data.Nat.PSub

/-!
# Numbers of ranks

A rank has a number among the ranks of its host, and one among those of its SP. The first is found by
counting bits (`get_rank_idx_by_group_host_idx`), the second by looking through the table of the SP
(`get_rank_idx_by_group_sp_id`), as far as the counter `n_ranks` says. Both fill the tables first, which needs a bit
for each SP of the group, and each rank counted once.

* `rank_indices_iff` — then both number the ranks in order from `0` on **exactly when** the indices of the bits
  are of 31 bits: the first converts them to `int`.
* `host_ranks_iff` — then, and only then, **the scan of the entries and the bitset of a host list the same ranks**, and there
  are as many as the counter of the host says when each rank has one SP.

At the end of its bootstrapping a host records its rank twice: the counters of its SP and its host are one too
high, and the loop over the ranks of the SP looks for a bit too many.
-/

namespace DpuOffload

open Rank

variable {R : Roster} {sys : GpCtx} {once : Prop} {e : Engine}

/-- A getter numbers the ranks `S` in order, from `0` to `k - 1`, and is an error for the other ranks of the
group. -/
def Roster.Indexes (R : Roster) (get : ℤ → Answer ℕ) (S : Finset ℕ) (k : ℕ) : Prop :=
  (∃ f : ℕ → ℕ, (∀ r ∈ S, get r = .success (f r)) ∧ StrictMonoOn f S ∧ Set.BijOn f S (Set.Iio k)) ∧
    ∀ r < R.size, r ∉ S → (get r).failed = true

/-- The two numbers of a rank. -/
structure RankIndices (ctx : GpCtx) (slot : Option GroupCache) (R : Roster) : Prop where
  /-- Among the ranks of a host. -/
  onHost : ∀ h < (topologyGetter ctx slot).topo.nHosts, ∃ uid,
    (topologyGetter ctx slot).topo.hostUidAt ctx.hosts h = some uid ∧
      R.Indexes (getRankIdxByGroupHostIdx ctx slot h) (R.ranksOn uid) (R.ranksOn uid).card
  /-- Among the ranks of an SP of the group in the table, which lists them in order. -/
  ofSp : ∀ s, ∀ sp ∈ R.group, (topologyGetter ctx slot).topo.sps[s]? = some sp → ∃ d,
    (topologyGetter ctx slot).topo.spsHash.lookup sp = some d ∧
      R.Indexes (getRankIdxByGroupSpId ctx slot s) (R.ranksOf sp) d.nRanks ∧
        d.ranks.Pairwise (· < ·) ∧ d.ranks.toFinset = R.ranksOf sp

/-- Numbers that are ranks are such numbers. -/
theorem Roster.Indexes.of_rank {get : ℤ → Answer ℕ} {S : Finset ℕ} (hin : ∀ r ∈ S, get r = .success (rank S r))
    (hout : ∀ r < R.size, r ∉ S → (get r).failed = true) : R.Indexes get S S.card :=
  ⟨⟨rank S, hin, strictMonoOn_rank S, bijOn_rank S⟩, hout⟩

/-! ### By counting bits -/

/-- The loop counts the bits up to the rank, and is one behind. -/
theorem rankIndex_range {b : Bitset} {r : ℕ} (hcap : r < b.capacity) (hr : r < 2 ^ 31) (m k : ℕ) (hk : k ≤ r) (hm : r < k + m) :
    rankIndex b r (List.range' k m) (Nat.ppred (rank b.bits k)) = some (Nat.ppred (rank b.bits (r + 1))) := by
  induction m generalizing k with
  | zero => omega
  | succ m ih =>
    have hacc : (if b.test k = true then some ((Nat.ppred (rank b.bits k)).elim 0 (· + 1)) else Nat.ppred (rank b.bits k)) =
        Nat.ppred (rank b.bits (k + 1)) := by
      rw [rank_succ]
      by_cases hb : b.test k = true
      · rw [if_pos hb, if_pos (Bitset.mem_bits.2 hb)]
        cases rank b.bits k <;> rfl
      · rw [if_neg hb, if_neg fun hmem => hb (Bitset.mem_bits.1 hmem), Nat.add_zero]
    rw [List.range'_succ, rankIndex, toInt_eq (by omega), testAt_of_lt (by omega), Option.bind_some, hacc,
      sizeT_natCast (by omega)]
    split
    · rename_i hkr
      rw [hkr]
    · exact ih (k + 1) (by omega) (by omega)

/-- The loop does not get past the index `2 ^ 31`. -/
theorem rankIndex_two_pow (b : Bitset) (m k : ℕ) (acc : Option ℕ) (hk : k ≤ 2 ^ 31) (hm : 2 ^ 31 < k + m) :
    rankIndex b ((2 ^ 31 : ℕ) : ℤ) (List.range' k m) acc = none := by
  induction m generalizing k acc with
  | zero => omega
  | succ m ih =>
    rw [List.range'_succ, rankIndex]
    rcases hk.eq_or_lt with rfl | hlt
    · rw [testAt_of_neg (by decide), Option.bind_none]
    · cases testAt b (toInt k) with
      | none => rfl
      | some status =>
        rw [Option.bind_some]
        dsimp only
        rw [sizeT_natCast (by omega), if_neg hlt.ne]
        exact ih (k + 1) _ hlt (by omega)

/-- The answer for a rank of the group. -/
theorem Roster.Populated.rankIdxOnHost (h : R.Populated sys once e) (hs : (topologyGetter sys e.slot).topo.fault = false)
    {i uid : ℕ} (hat : (topologyGetter sys e.slot).topo.hostUidAt sys.hosts i = some uid) :
    ∃ b : Bitset, b.bits = R.ranksOn uid ∧ b.capacity = (Bitset.create R.size).capacity ∧ ∀ r < R.size,
      getRankIdxByGroupHostIdx sys e.slot i r = if r ∈ R.ranksOn uid then
        .read (rankIndex b r (List.range R.size) none) fun idx => .success (idx.getD (sizeT (-1)))
      else .error (some UINT64_MAX) := by
  have hc := h.complete
  obtain ⟨dh, hdh⟩ := Option.isSome_iff_exists.1 (hc.lookup_host.2 ((hc.hostUidAt_iff h.config h.known).1 hat).1)
  have hdata : (topologyGetter sys e.slot).topo.hostData sys.hosts i = some dh := by
    rw [Topology.hostData, hat, Option.bind_some, hdh]
  have hbits := hc.bits_hostRanks hdh
  have hcap := hc.capacity_hostRanks hdh
  refine ⟨dh.ranksBitset.getD [], hbits, hcap, fun r hr => ?_⟩
  have htest : testAt (dh.ranksBitset.getD []) (r : ℤ) = some (decide (r ∈ R.ranksOn uid)) := by
    rw [testAt_of_lt (hcap ▸ hr.trans_le (Bitset.le_capacity_create _)), ← hbits]
    congr 1
    rw [Bool.eq_iff_iff, decide_eq_true_eq, Bitset.mem_bits]
  rw [getRankIdxByGroupHostIdx, GroupCache.answer_safe hs, hdata, Answer.read_some, htest, Answer.read_some, hc.size]
  by_cases hmem : r ∈ R.ranksOn uid <;> simp [hmem]

/-- **Counting numbers the ranks of a host** when their indices are of 31 bits. -/
theorem Roster.Populated.indexes_onHost (h : R.Populated sys once e) (hs : (topologyGetter sys e.slot).topo.fault = false)
    (hsize : R.size ≤ 2 ^ 31) {i uid : ℕ} (hat : (topologyGetter sys e.slot).topo.hostUidAt sys.hosts i = some uid) :
    R.Indexes (getRankIdxByGroupHostIdx sys e.slot i) (R.ranksOn uid) (R.ranksOn uid).card := by
  obtain ⟨b, hb, hcap, hget⟩ := h.rankIdxOnHost hs hat
  refine .of_rank (fun r hr => ?_) fun r hr hno => ?_
  · have hlt := (Roster.mem_ranksOn.1 hr).1
    have hloop := rankIndex_range (hcap ▸ hlt.trans_le (Bitset.le_capacity_create _)) (hlt.trans_le hsize) R.size 0
      (Nat.zero_le r) (by omega)
    rw [rank_zero, Nat.ppred_zero, ← List.range_eq_range', rank_succ, hb, if_pos hr] at hloop
    rw [hget r hlt, if_pos hr, hloop, Answer.read_some]
    rfl
  · rw [hget r hr, if_neg hno]
    rfl

/-- Getters that number the ranks leave no bitset. -/
theorem RankIndices.safe (h : R.Populated sys once e) (hi : RankIndices sys e.slot R) :
    (topologyGetter sys e.slot).topo.fault = false := by
  have hpos : 0 < (topologyGetter sys e.slot).topo.nHosts := by
    rw [h.complete.nHosts]
    exact Finset.card_pos.2 ⟨_, Roster.mem_hosts.2 ⟨0, h.complete.pos, rfl⟩⟩
  obtain ⟨uid, hat, ⟨f, hf, -⟩, -⟩ := hi.onHost 0 hpos
  obtain ⟨r, hr, hhost⟩ := Roster.mem_hosts.1 ((h.complete.hostUidAt_iff h.config h.known).1 hat).1
  have hans := hf r (Roster.mem_ranksOn.2 ⟨hr, hhost⟩)
  unfold getRankIdxByGroupHostIdx at hans
  exact GroupCache.safe_of_success hans

/-- **And only then**: the loop does not get to the rank `2 ^ 31` of a larger group. -/
theorem RankIndices.size_le (h : R.Populated sys once e) (hi : RankIndices sys e.slot R) : R.size ≤ 2 ^ 31 := by
  by_contra hno
  rw [not_le] at hno
  have hmem : 2 ^ 31 ∈ R.ranksOn (R.host (2 ^ 31)) := Roster.mem_ranksOn.2 ⟨hno, rfl⟩
  have hhost : R.host (2 ^ 31) ∈ R.hosts := Roster.mem_hosts.2 ⟨_, hno, rfl⟩
  have hat := (h.complete.hostUidAt_iff h.config h.known).2 ⟨hhost, rfl⟩
  have hlt : rank (R.hosts.image sys.hosts.lookupHostConfigIdx) (sys.hosts.lookupHostConfigIdx (R.host (2 ^ 31))) <
      (topologyGetter sys e.slot).topo.nHosts := by
    rw [h.complete.nHosts]
    exact (rank_lt_card (Finset.mem_image_of_mem _ hhost)).trans_le Finset.card_image_le
  obtain ⟨uid, huid, ⟨f, hf, -⟩, -⟩ := hi.onHost _ hlt
  obtain rfl : uid = R.host (2 ^ 31) := Option.some.inj (huid.symm.trans hat)
  obtain ⟨b, -, -, hget⟩ := h.rankIdxOnHost (hi.safe h) hat
  have hans := hf _ hmem
  rw [hget _ hno, if_pos hmem, List.range_eq_range', rankIndex_two_pow b R.size 0 none (Nat.zero_le _) (by omega),
    Answer.read_none] at hans
  cases hans

/-! ### By looking through a table -/

variable {g : GroupCache} {l : List ℕ} {r : ℕ}

/-- The search finds the first place that has the rank. -/
theorem findRank_found (hfit : ∀ q ∈ l, (g.entryAt q).peer.procInfo.groupRank = q) {j : ℕ} (hj : l[j]? = some r)
    (hnd : l.Nodup) (m k : ℕ) (hk : k ≤ j) (hm : j < k + m) : findRank g l r (List.range' k m) = .success j := by
  induction m generalizing k with
  | zero => omega
  | succ m ih =>
    have hlen : j < l.length := (List.getElem?_eq_some_iff.1 hj).1
    rw [List.range'_succ, findRank, List.getElem?_eq_getElem (by omega), Answer.read_some,
      hfit _ (List.getElem_mem _)]
    rcases hk.eq_or_lt with rfl | hlt
    · rw [List.getElem?_eq_getElem hlen] at hj
      rw [if_pos (congrArg Nat.cast (Option.some.inj hj))]
    · rw [if_neg, ih (k + 1) hlt (by omega)]
      -- no other place has the rank
      intro heq
      rw [List.getElem?_eq_getElem hlen, Option.some.injEq, ← Int.natCast_inj.1 heq] at hj
      exact hlt.ne ((hnd.getElem_inj_iff).1 hj).symm

/-- The search does not find another rank. -/
theorem findRank_none (hfit : ∀ q ∈ l, (g.entryAt q).peer.procInfo.groupRank = q) (hr : r ∉ l) (is : List ℕ)
    (his : ∀ i ∈ is, i < l.length) : findRank g l r is = .error (some UINT32_MAX) := by
  induction is with
  | nil => rfl
  | cons i is ih =>
    rw [findRank, List.getElem?_eq_getElem (his i List.mem_cons_self), Answer.read_some, hfit _ (List.getElem_mem _), if_neg]
    · exact ih fun j hj => his j (List.mem_cons_of_mem _ hj)
    · intro heq
      rw [← Int.natCast_inj.1 heq] at hr
      exact hr (List.getElem_mem _)

/-- **Looking through the table numbers the ranks of an SP** when each was counted once. -/
theorem Roster.Populated.indexes_ofSp (h : R.Populated sys once e) (hs : (topologyGetter sys e.slot).topo.fault = false)
    {s sp : ℕ} {d : SpCacheData} (hat : (topologyGetter sys e.slot).topo.sps[s]? = some sp)
    (hd : (topologyGetter sys e.slot).topo.spsHash.lookup sp = some d) :
    R.Indexes (getRankIdxByGroupSpId sys e.slot s) (R.ranksOf sp) d.nRanks := by
  have hc := h.complete.of_countsOnce (h.countsOnce_iff.2 (h.safe_iff.1 hs).2)
  have hdata : (topologyGetter sys e.slot).topo.spData s = some d := by
    rw [Topology.spData, hat, Option.bind_some, hd]
  have hranks := hc.spRanks trivial hd
  have hn := hc.nRanks trivial hd
  have hlen : d.ranks.length = d.nRanks := by rw [hranks, hn, Finset.length_sort]
  have hfit : ∀ q ∈ d.ranks, ((topologyGetter sys e.slot).entryAt q).peer.procInfo.groupRank = q := by
    intro q hq
    rw [hranks, Finset.mem_sort] at hq
    exact (hc.fits q (Roster.mem_ranksOf.1 hq).1).2.2
  rw [hn]
  refine .of_rank (fun r hr => ?_) fun r _ hno => ?_
  · have hplace : d.ranks[rank (R.ranksOf sp) r]? = some r := by
      rw [hranks]
      exact getElem?_sort.2 ⟨hr, rfl⟩
    have hlt : rank (R.ranksOf sp) r < 0 + d.nRanks := by
      rw [Nat.zero_add, hn]
      exact rank_lt_card hr
    have hnd : d.ranks.Nodup := by
      rw [hranks]
      exact Finset.sort_nodup _ _
    have hfind := findRank_found hfit hplace hnd d.nRanks 0 (Nat.zero_le _) hlt
    rw [← List.range_eq_range'] at hfind
    simp only [getRankIdxByGroupSpId, GroupCache.answer_safe hs, hdata, Answer.read_some, hfind]
  · have hnot : r ∉ d.ranks := by
      rw [hranks, Finset.mem_sort]
      exact hno
    have hfind := findRank_none hfit hnot (List.range d.nRanks) fun i hi => by
      rw [hlen]
      exact List.mem_range.1 hi
    simp only [getRankIdxByGroupSpId, GroupCache.answer_safe hs, hdata, Answer.read_some, hfind, Answer.failed]

/-- **Both number the ranks of a populated group exactly when** it has at most `2 ^ 31` of them, each counted once, and its SPs
have bits. -/
theorem rank_indices_iff (h : R.Populated sys once e) : RankIndices sys e.slot R ↔
    R.size ≤ 2 ^ 31 ∧ (∀ sp ∈ R.group, sp < (Bitset.create R.size).capacity) ∧ e.gp.topo.CountsOnce R := by
  refine ⟨fun hi => ⟨hi.size_le h, h.safe_iff.1 (hi.safe h)⟩, ?_⟩
  rintro ⟨hsize, hbit, hone⟩
  have hs := h.safe hbit hone
  have hc := h.complete.of_countsOnce (h.countsOnce_iff.2 hone)
  refine ⟨fun i hi => ?_, fun s sp hsp hat => ?_⟩
  · obtain ⟨uid, -, -, hat, -⟩ := hc.hostData_of_lt h.config h.known hi
    exact ⟨uid, hat, h.indexes_onHost hs hsize hat⟩
  · obtain ⟨d, hd⟩ := Option.isSome_iff_exists.1 (hc.lookup_sp.2 hsp)
    refine ⟨d, hd, h.indexes_ofSp hs hat hd, ?_, ?_⟩
    · rw [hc.spRanks trivial hd]
      exact (Finset.sortedLT_sort _).pairwise
    · rw [hc.spRanks trivial hd, Finset.sort_toFinset]

/-- The entries of the two ranks come. -/
theorem rank_indices_pair : ∃ e : Engine, pairRoster.Populated hostCtx True e ∧ RankIndices hostCtx e.slot pairRoster := by
  obtain ⟨e, he⟩ := pairRoster_populated
  exact ⟨e, he, (rank_indices_iff he).2 ⟨by decide, by decide, he.countsOnce trivial⟩⟩

/-- **Not in every run.** The bootstrapping of a host ends: its one rank counts twice for its SP, and the second
bit that the loop over its ranks looks for does not exist. -/
theorem not_rankIndices : ¬ ∀ (R : Roster) (sys : GpCtx) (e : Engine), R.OneSp → R.Populated sys False e →
    RankIndices sys e.slot R := by
  intro h
  obtain ⟨e, he, hn⟩ := (loneRoster 0).exists_populated hostCtx False
    (fun e => (e.gp.topo.spsHash.lookup 0).map (·.nRanks) = some 2)
    (by decide) (by decide) hostCtx_valid (by decide) (by decide)
    [(hostCtx, .bootstrapDone (peerEntry 1 0 70 [0]).peer.procInfo)] (by decide)
  have hone : (loneRoster 0).OneSp := fun _ _ => ⟨0, rfl⟩
  obtain ⟨d, hd, hn⟩ := Option.map_eq_some_iff.1 hn
  have hc := (he.safe_iff.1 ((h _ _ e hone he).safe he)).2 0 d hd
  rw [hn] at hc
  exact absurd hc (by decide)

/-! ### The ranks of a host -/

/-- The entries and the bitset of a host say the same about its ranks. -/
structure HostRanks (ctx : GpCtx) (slot : Option GroupCache) (uid : ℕ) (ranks : List ℕ) : Prop where
  /-- The scan of the entries lists the ranks. -/
  scan : getGroupRanksOnHost ctx slot uid = .success ranks
  /-- They are in order. -/
  sorted : ranks.Pairwise (· < ·)
  /-- They are those of the bitset. -/
  bits : ∃ d, (topologyGetter ctx slot).topo.hostsHash.lookup uid = some d ∧
    ∀ r, r ∈ ranks ↔ (d.ranksBitset.getD []).test r = true
  /-- There are as many as the counter of the host says, at its place of the table. -/
  count : ∃ h < (topologyGetter ctx slot).topo.nHosts, (topologyGetter ctx slot).topo.hostUidAt ctx.hosts h = some uid ∧
    getNumRanksForGroupHostIdx ctx slot h = .success ranks.length

/-- **They agree for every host of a populated group exactly when** its SPs have bits and each rank is counted once, when each
rank has one SP. -/
theorem host_ranks_iff (h : R.Populated sys once e) (hone : R.OneSp) :
    (∀ uid ∈ R.hosts, ∃ ranks, HostRanks sys e.slot uid ranks) ↔
      (∀ sp ∈ R.group, sp < (Bitset.create R.size).capacity) ∧ e.gp.topo.CountsOnce R := by
  constructor
  · intro hall
    obtain ⟨ranks, hr⟩ := hall _ (Roster.mem_hosts.2 ⟨0, h.complete.pos, rfl⟩)
    have hscan := hr.scan
    unfold getGroupRanksOnHost at hscan
    exact h.safe_iff.1 (GroupCache.safe_of_success hscan)
  · rintro ⟨hbit, hcount⟩ uid huid
    have hs := h.safe hbit hcount
    have hc := h.complete.of_countsOnce (h.countsOnce_iff.2 hcount)
    obtain ⟨d, hd⟩ := Option.isSome_iff_exists.1 (hc.lookup_host.2 huid)
    have hlist : (List.range R.size).filter (fun i => ((topologyGetter sys e.slot).entryAt i).peer.hostInfo = uid) =
        (List.range R.size).filter fun i => R.host i = uid :=
      List.filter_congr fun i hi => by rw [(hc.fits i (List.mem_range.1 hi)).2.1]
    have hmem : ∀ r, r ∈ (List.range R.size).filter (fun i => R.host i = uid) ↔ r ∈ R.ranksOn uid := fun r => by
      rw [List.mem_filter, List.mem_range, decide_eq_true_eq, Roster.mem_ranksOn]
    have hsorted : ((List.range R.size).filter fun i => R.host i = uid).Pairwise (· < ·) := List.pairwise_lt_range.filter _
    have hlen : ((List.range R.size).filter fun i => R.host i = uid).length = (R.ranksOn uid).card := by
      rw [← List.toFinset_card_of_nodup (hsorted.imp fun hlt => hlt.ne)]
      congr 1
      ext r
      rw [List.mem_toFinset, hmem]
    refine ⟨(List.range R.size).filter fun i => R.host i = uid, ?_, hsorted, ⟨d, hd, fun r => ?_⟩, ?_⟩
    · rw [getGroupRanksOnHost, GroupCache.answer_safe hs, hc.size, hlist]
    · rw [hmem, ← Bitset.mem_bits, hc.bits_hostRanks hd]
    · have hat := (hc.hostUidAt_iff h.config h.known).2 ⟨huid, rfl⟩
      refine ⟨_, ?_, hat, ?_⟩
      · rw [hc.nHosts]
        exact (rank_lt_card (Finset.mem_image_of_mem _ huid)).trans_le Finset.card_image_le
      · simp only [getNumRanksForGroupHostIdx, GroupCache.answer_safe hs, Topology.hostData, hat, Option.bind_some, hd,
          Answer.read_some]
        rw [hc.numRanks trivial hone hd, hlen]

/-- A rank joins its SP, and the entry of another one comes. -/
theorem host_ranks_pair : ∃ e : Engine, ∃ sys : GpCtx, pairRoster.Populated sys True e ∧
    ∀ uid ∈ pairRoster.hosts, ∃ ranks, HostRanks sys e.slot uid ranks := by
  obtain ⟨e, he, -⟩ := pairRoster.exists_populated { hostCtx with onDpu := true } True (fun _ => True)
    (by decide) (by decide) hostCtx_valid (by decide) (by decide)
    [({ hostCtx with onDpu := true }, .event (.addGroupRank 0 ⟨(peerEntry 2 0 70 [0]).peer.procInfo, [0, 1]⟩)),
      ({ hostCtx with onDpu := true }, .event (.peerCacheEntries 1 [peerEntry 2 1 71 [1]]))] (by decide)
  exact ⟨e, _, he, (host_ranks_iff he fun r _ => ⟨r, rfl⟩).2 ⟨by decide, he.countsOnce trivial⟩⟩

/-- **Not in every run.** The bootstrapping of a host ends: its one rank counts twice for the host and for its SP. -/
theorem not_hostRanks : ¬ ∀ (R : Roster) (sys : GpCtx) (e : Engine), R.OneSp → R.Populated sys False e →
    ∀ uid ∈ R.hosts, ∃ ranks, HostRanks sys e.slot uid ranks := by
  intro h
  obtain ⟨e, he, hno⟩ := (loneRoster 0).exists_populated hostCtx False (fun e => getGroupRanksOnHost hostCtx e.slot 70 = .fault)
    (by decide) (by decide) hostCtx_valid (by decide) (by decide)
    [(hostCtx, .bootstrapDone (peerEntry 1 0 70 [0]).peer.procInfo)] (by decide)
  have hone : (loneRoster 0).OneSp := fun _ _ => ⟨0, rfl⟩
  obtain ⟨ranks, hr⟩ := h _ _ e hone he 70 (by decide)
  have hscan := hr.scan
  rw [hno] at hscan
  cases hscan

end DpuOffload
