import DpuOffload.Getters.Complete
import Mathlib.Order.Interval.Finset.Nat

/-!
# Ids of SPs

An SP has a global id in the engine, and a number among the SPs of a group: how many of them have
a smaller id. `get_sp_group_gid` goes from the id to the number and `get_local_sp_id_by_group`
from the number to the place of the SP on its host. Both fill the tables first, which needs a bit for each
SP of the group, and each rank counted once.

* `sp_group_gid_iff` — the first tests the bit of the SP, as an `int`, before it compares the id with the number of
  SPs of the group: it numbers the SPs **exactly when** all SPs of the engine have a bit, and those of the group
  pass the comparison.
* `local_sp_id_iff` — the second lets the number `n_sps` pass, which no SP has.
-/

namespace DpuOffload

open Rank

variable {R : Roster} {sys : GpCtx} {once : Prop} {e : Engine}

/-! ### Counting and scanning bits -/

/-- Counting the bits of indices that exist gives ranks. -/
theorem countBits_range' {b : Bitset} (m k : ℕ) (hm : k + m ≤ b.capacity) :
    countBits b (List.range' k m) (rank b.bits k) = some (rank b.bits (k + m)) := by
  induction m generalizing k with
  | zero => rfl
  | succ m ih =>
    have hnext : (if b.test k = true then rank b.bits k + 1 else rank b.bits k) = rank b.bits (k + 1) := by
      rw [rank_succ]
      by_cases hb : b.test k = true
      · rw [if_pos hb, if_pos (Bitset.mem_bits.2 hb)]
      · rw [if_neg hb, if_neg fun hmem => hb (Bitset.mem_bits.1 hmem), Nat.add_zero]
    rw [List.range'_succ, countBits, testAt_of_lt (by omega), Option.bind_some, hnext, ih (k + 1) (by omega)]
    congr 2
    omega

theorem countBits_range {b : Bitset} {n : ℕ} (hn : n ≤ b.capacity) :
    countBits b (List.range n) 0 = some (rank b.bits n) := by
  have h := @countBits_range' b n 0 (by omega)
  rwa [Nat.zero_add, ← List.range_eq_range', rank_zero] at h

/-- The scan stops at the bit that has the number it looks for. -/
theorem scanBits_rank {b : Bitset} {x stop : ℕ} (hx : x ∈ b.bits) (m k : ℕ) (hk : k ≤ x) (hm : x < k + m) :
    scanBits b (rank b.bits x) stop (List.range' k m) (rank b.bits k) = some x := by
  have hcap := Finset.mem_range.1 (b.bits_subset_range hx)
  induction m generalizing k with
  | zero => exact absurd hm (by omega)
  | succ m ih =>
    rw [List.range'_succ, scanBits, testAt_of_lt (hk.trans_lt hcap), Option.bind_some]
    have hnext := rank_succ b.bits k
    rcases hk.eq_or_lt with rfl | hlt
    · rw [if_pos (Bitset.mem_bits.1 hx), if_pos rfl]
    · have ih := ih (k + 1) hlt (by omega)
      by_cases hb : b.test k = true
      · -- the bit has a smaller number
        have hmem : k ∈ b.bits := Bitset.mem_bits.2 hb
        rw [if_pos hb, if_neg (rank_lt_rank hmem hlt).ne]
        rwa [hnext, if_pos hmem] at ih
      · rw [if_neg hb]
        rwa [hnext, if_neg fun hmem => hb (Bitset.mem_bits.1 hmem), Nat.add_zero] at ih

/-- The scan leaves the bitset, or runs out of indices, when there are too few bits. -/
theorem scanBits_few {b : Bitset} {guid stop : ℕ} (h : b.bits.card ≤ guid) (m k : ℕ) :
    scanBits b guid stop (List.range' k m) (rank b.bits k) = none ∨
      scanBits b guid stop (List.range' k m) (rank b.bits k) = some stop := by
  induction m generalizing k with
  | zero => exact .inr rfl
  | succ m ih =>
    have ih := ih (k + 1)
    rw [rank_succ] at ih
    rw [List.range'_succ, scanBits]
    rcases lt_or_ge k b.capacity with hk | hk
    · rw [testAt_of_lt hk, Option.bind_some]
      by_cases hb : b.test k = true
      · have hmem : k ∈ b.bits := Bitset.mem_bits.2 hb
        rw [if_pos hb, if_neg ((rank_lt_card hmem).trans_le h).ne]
        rwa [if_pos hmem] at ih
      · rw [if_neg hb]
        rwa [if_neg fun hmem => hb (Bitset.mem_bits.1 hmem), Nat.add_zero] at ih
    · rw [testAt_of_le hk]
      exact .inl rfl

/-! ### From the id to the number -/

/-- `get_sp_group_gid` numbers the SPs of the group. -/
structure NumbersSps (ctx : GpCtx) (slot : Option GroupCache) (R : Roster) : Prop where
  /-- It succeeds for the SPs of the group. -/
  accepts : ∀ gid < ctx.numServiceProcs, (getSpGroupGid ctx slot gid).ok = true ↔ gid ∈ R.group
  /-- It is an error for another SP of the engine. -/
  rejects : ∀ gid < ctx.numServiceProcs, gid ∉ R.group → (getSpGroupGid ctx slot gid).failed = true
  /-- It returns how many of them have a smaller id. -/
  counts : ∀ gid < ctx.numServiceProcs, ∀ k, getSpGroupGid ctx slot gid = .success k →
    k = (R.group.filter (· < gid)).card
  /-- The numbers are those from `0` to `n_sps - 1`, in the order of the ids. -/
  numbers : ∃ f : ℕ → ℕ, (∀ gid ∈ R.group, getSpGroupGid ctx slot gid = .success (f gid)) ∧
    StrictMonoOn f R.group ∧ Set.BijOn f R.group (Set.Iio (topologyGetter ctx slot).topo.nSps)

/-- The answer of `get_sp_group_gid` for an SP that has a bit. -/
theorem Roster.Populated.getSpGroupGid_eq (h : R.Populated sys once e) (hs : (topologyGetter sys e.slot).topo.fault = false)
    {gid : ℕ} (hcap : gid < (Bitset.create R.size).capacity) (hint : gid < 2 ^ 31) :
    getSpGroupGid sys e.slot gid =
      if gid ≤ R.group.card ∧ gid ∈ R.group then .success (rank R.group gid) else .error (some UINT64_MAX) := by
  rw [← h.complete.capacity_sps] at hcap
  have hcount : rank ((topologyGetter sys e.slot).topo.spsBitset.getD []).bits gid = rank R.group gid := by
    rw [h.complete.bits_sps]
    exact rank_filter_lt (h.complete.capacity_sps ▸ hcap.le)
  have htest := h.complete.test_sps gid
  rw [← h.complete.capacity_sps, and_iff_left hcap] at htest
  rw [getSpGroupGid, GroupCache.answer_safe hs, toInt_eq hint, testAt_of_lt hcap, Answer.read_some,
    countBits_range hcap.le, Answer.read_some, hcount, h.complete.nSps]
  by_cases hok : gid ≤ R.group.card ∧ gid ∈ R.group
  · rw [if_pos hok, if_neg]
    rintro (hgt | hno)
    · exact absurd hok.1 (not_le.2 hgt)
    · rw [htest.2 hok.2] at hno
      cases hno
  · rw [if_neg hok, if_pos]
    by_cases hle : gid ≤ R.group.card
    · exact .inr (Bool.eq_false_iff.2 fun hb => hok ⟨hle, htest.1 hb⟩)
    · exact .inl (not_le.1 hle)

/-- It leaves the bitset for an SP without a bit, and for the SP `2 ^ 31`. -/
theorem Roster.Populated.getSpGroupGid_fault (h : R.Populated sys once e) {gid : ℕ}
    (hno : (Bitset.create R.size).capacity ≤ gid ∧ gid < 2 ^ 31 ∨ gid = 2 ^ 31) :
    getSpGroupGid sys e.slot gid = .fault := by
  have htest : testAt ((topologyGetter sys e.slot).topo.spsBitset.getD []) (toInt gid) = none := by
    rcases hno with ⟨hcap, hint⟩ | rfl
    · rw [toInt_eq hint]
      exact testAt_of_le (h.complete.capacity_sps ▸ hcap)
    · exact testAt_of_neg (by decide)
  unfold getSpGroupGid GroupCache.answer
  dsimp only
  rw [htest, Answer.read_none, ite_self]

/-- **`get_sp_group_gid` numbers the SPs of a populated group exactly when** the SPs of the engine have bits, whose indices
are of 31 bits, no SP of the group has an id above their number, and each rank is counted once. -/
theorem sp_group_gid_iff (h : R.Populated sys once e) :
    NumbersSps sys e.slot R ↔ sys.numServiceProcs ≤ (Bitset.create R.size).capacity ∧ sys.numServiceProcs ≤ 2 ^ 31 ∧
      (∀ sp ∈ R.group, sp ≤ R.group.card) ∧ e.gp.topo.CountsOnce R := by
  constructor
  · intro hn
    have hans : ∀ gid < sys.numServiceProcs, getSpGroupGid sys e.slot gid ≠ .fault := by
      intro gid hlt hf
      by_cases hmem : gid ∈ R.group
      · have := (hn.accepts gid hlt).2 hmem
        rw [hf] at this
        cases this
      · have := hn.rejects gid hlt hmem
        rw [hf] at this
        cases this
    obtain ⟨sp, hsp⟩ := List.exists_mem_of_ne_nil _ (R.sps_ne 0 h.complete.pos)
    have hmem : sp ∈ R.group := Roster.mem_group.2 ⟨0, h.complete.pos, hsp⟩
    have hs : (topologyGetter sys e.slot).topo.fault = false := GroupCache.safe_of_answer (hans sp (h.sps_lt sp hmem))
    have hint : sys.numServiceProcs ≤ 2 ^ 31 := by
      by_contra hbig
      exact hans _ (not_le.1 hbig) (h.getSpGroupGid_fault (.inr rfl))
    have hcap : sys.numServiceProcs ≤ (Bitset.create R.size).capacity := by
      by_contra hbig
      exact hans _ (not_le.1 hbig) (h.getSpGroupGid_fault (.inl ⟨le_rfl, (not_le.1 hbig).trans_le hint⟩))
    refine ⟨hcap, hint, fun sp hsp => ?_, (h.safe_iff.1 hs).2⟩
    have hlt := h.sps_lt sp hsp
    have hok := (hn.accepts sp hlt).2 hsp
    rw [h.getSpGroupGid_eq hs (hlt.trans_le hcap) (hlt.trans_le hint)] at hok
    by_contra hgt
    rw [if_neg fun hc => hgt hc.1] at hok
    cases hok
  · rintro ⟨hcap, hint, hle, hone⟩
    have hs := h.safe (fun sp hsp => (h.sps_lt sp hsp).trans_le hcap) hone
    have heq : ∀ gid < sys.numServiceProcs, getSpGroupGid sys e.slot gid =
        if gid ∈ R.group then .success (rank R.group gid) else .error (some UINT64_MAX) := by
      intro gid hlt
      rw [h.getSpGroupGid_eq hs (hlt.trans_le hcap) (hlt.trans_le hint)]
      by_cases hmem : gid ∈ R.group
      · rw [if_pos ⟨hle gid hmem, hmem⟩, if_pos hmem]
      · rw [if_neg fun hc => hmem hc.2, if_neg hmem]
    refine ⟨fun gid hlt => ?_, fun gid hlt hno => ?_, fun gid hlt k hk => ?_, rank R.group, fun gid hmem => ?_,
      strictMonoOn_rank _, ?_⟩
    · rw [heq gid hlt]
      split <;> simp_all [Answer.ok]
    · rw [heq gid hlt, if_neg hno]
      rfl
    · rw [heq gid hlt] at hk
      split at hk
      · cases hk
        rfl
      · cases hk
    · rw [heq gid (h.sps_lt gid hmem), if_pos hmem]
    · rw [h.complete.nSps]
      exact bijOn_rank _

/-- Two ranks, on the SPs 0 and 1. -/
theorem sp_group_gid_pair :
    ∃ e : Engine, pairRoster.Populated hostCtx True e ∧ NumbersSps hostCtx e.slot pairRoster := by
  obtain ⟨e, he⟩ := pairRoster_populated
  exact ⟨e, he, (sp_group_gid_iff he).2 ⟨by decide, by decide, by decide, he.countsOnce trivial⟩⟩

/-- **Not on every group.** One rank on SP 2 of three: the group has one SP, whose id is above that. -/
theorem not_numbersSps : ¬ ∀ (R : Roster) (sys : GpCtx) (e : Engine), R.Populated sys True e → NumbersSps sys e.slot R := by
  intro h
  obtain ⟨e, he, hno⟩ := (loneRoster 2).exists_populated { hostCtx with numServiceProcs := 3 } True
    (fun e => getSpGroupGid { hostCtx with numServiceProcs := 3 } e.slot 2 = .error (some UINT64_MAX))
    (by decide) (by decide) hostCtx_valid (by decide) (by decide)
    [({ hostCtx with numServiceProcs := 3 }, .event (.peerCacheEntries 0 [peerEntry 1 0 70 [2]]))] (by decide)
  have hok := ((h _ _ e he).accepts 2 (by decide)).2 (by decide)
  rw [hno] at hok
  cases hok

/-! ### From the number to the place on the host -/

/-- `get_local_sp_id_by_group` knows the number `id`: the SP with that number has a place among the SPs of
its host, in the order of their ids, and a number that no SP has is an error. -/
structure PlacesSp (ctx : GpCtx) (slot : Option GroupCache) (R : Roster) (id : ℕ) : Prop where
  /-- A number of the group. -/
  place : id < R.group.card → ∃ r < R.size, ∃ sp ∈ R.sps r, (R.group.filter (· < sp)).card = id ∧
    getLocalSpIdByGroup ctx slot id = .success ((R.spsOn (R.host r)).filter (· < sp)).card
  /-- Another number. -/
  rejects : R.group.card ≤ id → (getLocalSpIdByGroup ctx slot id).failed = true

/-- The number of an SP that has a bit. -/
theorem Roster.Populated.getLocalSpIdByGroup_of_bit (h : R.Populated sys once e)
    (hs : (topologyGetter sys e.slot).topo.fault = false) {sp r : ℕ} (hr : r < R.size) (hsp : sp ∈ R.sps r)
    (hbit : sp < (Bitset.create R.size).capacity) :
    getLocalSpIdByGroup sys e.slot (rank R.group sp) = .success (rank (R.spsOn (R.host r)) sp) := by
  have hmem : sp ∈ R.group := Roster.mem_group.2 ⟨r, hr, hsp⟩
  have hin : sp ∈ ((topologyGetter sys e.slot).topo.spsBitset.getD []).bits := by
    rw [h.complete.bits_sps]
    exact Finset.mem_filter.2 ⟨hmem, hbit⟩
  have hrank : rank ((topologyGetter sys e.slot).topo.spsBitset.getD []).bits sp = rank R.group sp := by
    rw [h.complete.bits_sps]
    exact rank_filter_lt hbit.le
  have hlt : sp < 0 + sys.numServiceProcs := by
    rw [Nat.zero_add]
    exact h.sps_lt sp hmem
  have hscan := @scanBits_rank _ sp sys.numServiceProcs hin sys.numServiceProcs 0 (Nat.zero_le _) hlt
  rw [hrank, rank_zero, ← List.range_eq_range'] at hscan
  obtain ⟨d, hd⟩ := Option.isSome_iff_exists.1 (h.complete.lookup_sp.2 hmem)
  have hle : ¬ rank R.group sp > (topologyGetter sys e.slot).topo.nSps := by
    rw [h.complete.nSps]
    exact not_lt.2 (Rank.rank_le_card _ _)
  unfold getLocalSpIdByGroup
  dsimp only
  rw [GroupCache.answer_safe hs, if_neg hle, hscan, Answer.read_some, hd, Answer.read_some, h.complete.lid hr hsp hbit hd]

/-- **The scan falls through** for the number `n_sps`. -/
theorem Roster.Populated.getLocalSpIdByGroup_card (h : R.Populated sys once e) :
    getLocalSpIdByGroup sys e.slot R.group.card = .fault := by
  have hbits : ((topologyGetter sys e.slot).topo.spsBitset.getD []).bits.card ≤ R.group.card := by
    rw [h.complete.bits_sps]
    exact Finset.card_le_card (Finset.filter_subset _ _)
  have hscan := @scanBits_few _ _ sys.numServiceProcs hbits sys.numServiceProcs 0
  rw [rank_zero, ← List.range_eq_range'] at hscan
  have hnone : (topologyGetter sys e.slot).topo.spsHash.lookup sys.numServiceProcs = none := by
    rw [← Option.not_isSome_iff_eq_none, h.complete.lookup_sp]
    exact fun hmem => lt_irrefl _ (h.sps_lt _ hmem)
  have hle : ¬ R.group.card > (topologyGetter sys e.slot).topo.nSps := by
    rw [h.complete.nSps]
    exact lt_irrefl _
  unfold getLocalSpIdByGroup GroupCache.answer
  dsimp only
  rw [if_neg hle]
  rcases hscan with hscan | hscan
  · rw [hscan, Answer.read_none, ite_self]
  · rw [hscan, Answer.read_some, hnone, Answer.read_none, ite_self]

/-- **`get_local_sp_id_by_group` knows a number exactly when** it is not the number of the SPs, when these have bits and each
rank is counted once. -/
theorem local_sp_id_iff (h : R.Populated sys once e) (id : ℕ) :
    PlacesSp sys e.slot R id ↔
      id ≠ R.group.card ∧ (∀ sp ∈ R.group, sp < (Bitset.create R.size).capacity) ∧ e.gp.topo.CountsOnce R := by
  constructor
  · intro hp
    have hans : getLocalSpIdByGroup sys e.slot id ≠ .fault := by
      intro hf
      rcases lt_or_ge id R.group.card with hlt | hge
      · obtain ⟨r, hr, sp, hsp, -, hs⟩ := hp.place hlt
        rw [hf] at hs
        cases hs
      · have := hp.rejects hge
        rw [hf] at this
        cases this
    refine ⟨?_, h.safe_iff.1 (GroupCache.safe_of_answer hans)⟩
    rintro rfl
    exact hans h.getLocalSpIdByGroup_card
  · rintro ⟨hne, hbit, hone⟩
    have hs := h.safe hbit hone
    constructor
    · intro hlt
      obtain ⟨sp, hsp, rfl⟩ := exists_rank_eq hlt
      obtain ⟨r, hr, hspr⟩ := Roster.mem_group.1 hsp
      exact ⟨r, hr, sp, hspr, rfl, h.getLocalSpIdByGroup_of_bit hs hr hspr (hbit sp hsp)⟩
    · intro hge
      have hle : id > (topologyGetter sys e.slot).topo.nSps := by
        rw [h.complete.nSps]
        exact lt_of_le_of_ne hge hne.symm
      simp only [getLocalSpIdByGroup, GroupCache.answer_safe hs, if_pos hle, Answer.failed]

/-- Two ranks, on the SPs 0 and 1 of two hosts. -/
theorem local_sp_id_pair :
    ∃ e : Engine, pairRoster.Populated hostCtx True e ∧ PlacesSp hostCtx e.slot pairRoster 1 := by
  obtain ⟨e, he⟩ := pairRoster_populated
  exact ⟨e, he, (local_sp_id_iff he 1).2 ⟨by decide, by decide, he.countsOnce trivial⟩⟩

/-- **Not every number.** One rank on SP 0: the number 1 passes, and the SP it leads to does not exist. -/
theorem not_placesSp : ¬ ∀ (R : Roster) (sys : GpCtx) (e : Engine), R.Populated sys True e →
    ∀ id, PlacesSp sys e.slot R id := by
  intro h
  obtain ⟨e, he, hno⟩ := (loneRoster 0).exists_populated hostCtx True (fun e => getLocalSpIdByGroup hostCtx e.slot 1 = .fault)
    (by decide) (by decide) hostCtx_valid (by decide) (by decide)
    [(hostCtx, .event (.peerCacheEntries 0 [peerEntry 1 0 70 [0]]))] (by decide)
  have hf := (h _ _ e he 1).rejects (by decide)
  rw [hno] at hf
  cases hf

end DpuOffload
