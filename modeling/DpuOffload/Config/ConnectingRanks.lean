import DpuOffload.Cache.Exchange
import DpuOffload.Config.HostRecord
import Mathlib.Algebra.BigOperators.Ring.Finset
import Mathlib.Data.Int.CardIntervalMod

/-!
# The ranks an SP expects

A process of a host finds the SP of each local rank with `get_local_service_proc_connect_info`; an SP finds how many
ranks that makes with `get_num_connecting_ranks`, and broadcasts the cache of the world group once they are there.

* `connecting_ranks` — **the two agree**: an SP expects as many ranks as hosts assign to it, and the SPs together expect
  all of them.
-/

namespace DpuOffload

/-- The SP `get_local_service_proc_connect_info` assigns a local rank to. -/
def HostConfig.localSpOf (cfg : HostConfig) (rankInfo : RankInfo) (localRank : ℕ) : Option ℕ :=
  (cfg.getLocalServiceProcConnectInfo { rankInfo with localRank := localRank }).map (·.1.localId)

/-- Ranks are assigned in turn, once the ports are known. -/
theorem HostConfig.localSpOf_eq {cfg : HostConfig} {ports : List ℤ} (hports : cfg.dpuConfig.hostPorts.Holds 0 ports)
    (hS : 0 < cfg.numServiceProcsPerDpu) (rankInfo : RankInfo) {r : ℕ} (hr : r < 2 ^ 63) :
    cfg.localSpOf rankInfo r = some (r % cfg.numServiceProcsPerDpu) := by
  have hne : (r : ℤ) ≠ INVALID_RANK := by
    unfold INVALID_RANK
    omega
  obtain ⟨p, hget⟩ := DynArray.exists_getElt (z := 0) hports.allocated hports.grows (r % cfg.numServiceProcsPerDpu)
  rw [localSpOf, getLocalServiceProcConnectInfo, if_neg (by omega)]
  dsimp only
  rw [if_pos hne, sizeT_natCast (by omega), hget]
  rfl

/-- `get_num_connecting_ranks` counts the ranks with a remainder. -/
theorem getNumConnectingRanks_eq_count {S : ℕ} (hS : 0 < S) (n : ℕ) {l : ℕ} (hl : l < S) :
    getNumConnectingRanks S n l = n.count (· ≡ l [MOD S]) := by
  have hrest : n - S * (n / S) = n % S := by
    have := Nat.div_add_mod n S
    omega
  rw [Nat.count_modEq_card _ hS, Nat.mod_eq_of_lt hl, getNumConnectingRanks, hrest]
  split <;> rfl

theorem countP_range_eq_count (p : ℕ → Prop) [DecidablePred p] (n : ℕ) :
    (List.range n).countP (fun r => decide (p r)) = n.count p := by
  induction n with
  | zero => rfl
  | succ n ih =>
    rw [List.range_succ, List.countP_append, ih, Nat.count_succ, List.countP_singleton]
    simp only [decide_eq_true_eq]

/-- **The SPs of a DPU expect all the ranks together.** -/
theorem sum_getNumConnectingRanks {S : ℕ} (hS : 0 < S) (n : ℕ) :
    ∑ l ∈ Finset.range S, getNumConnectingRanks S n l = n := by
  have hterm : ∀ l ∈ Finset.range S, getNumConnectingRanks S n l = n / S + if l < n % S then 1 else 0 := by
    intro l hl
    rw [getNumConnectingRanks_eq_count hS n (Finset.mem_range.1 hl), Nat.count_modEq_card _ hS,
      Nat.mod_eq_of_lt (Finset.mem_range.1 hl)]
  have hrest : ∑ l ∈ Finset.range S, (if l < n % S then 1 else 0) = n % S := by
    have hfilter : (Finset.range S).filter (· < n % S) = Finset.range (n % S) := by
      ext l
      have := Nat.mod_lt n hS
      simp only [Finset.mem_filter, Finset.mem_range]
      omega
    rw [← Finset.card_filter, hfilter, Finset.card_range]
  calc ∑ l ∈ Finset.range S, getNumConnectingRanks S n l
      = ∑ l ∈ Finset.range S, (n / S + if l < n % S then 1 else 0) := Finset.sum_congr rfl hterm
    _ = S * (n / S) + n % S := by
      rw [Finset.sum_add_distrib, hrest, Finset.sum_const_nat fun _ _ => rfl, Finset.card_range]
    _ = n := Nat.div_add_mod n S

/-- **An SP expects the ranks that hosts assign to it**, of any number of ranks; and no rank is missed. The number of
ranks is of type `int64_t`. -/
theorem connecting_ranks {S : ℕ} (hS : 0 < S) {n : ℕ} (hn : n < 2 ^ 63) {cfg : HostConfig}
    (hcfg : cfg.numServiceProcsPerDpu = S) {ports : List ℤ} (hports : cfg.dpuConfig.hostPorts.Holds 0 ports)
    (rankInfo : RankInfo) :
    (∀ l < S, getNumConnectingRanks S n l = (List.range n).countP fun r => cfg.localSpOf rankInfo r = some l) ∧
    ∑ l ∈ Finset.range S, getNumConnectingRanks S n l = n := by
  refine ⟨fun l hl => ?_, sum_getNumConnectingRanks hS n⟩
  rw [getNumConnectingRanks_eq_count hS n hl, ← countP_range_eq_count]
  refine List.countP_congr fun r hr => ?_
  have hr := List.mem_range.1 hr
  rw [HostConfig.localSpOf_eq hports (hcfg ▸ hS) rankInfo (by omega), hcfg, decide_eq_true_iff, decide_eq_true_iff,
    Option.some_inj, Nat.ModEq, Nat.mod_eq_of_lt hl]

/-- The record of a DPU with three SPs. -/
def threeSpsConfig : HostConfig :=
  { HostConfig.init with
    dpuConfig := { DpuVersion1.blank with numHostPorts := 3, hostPorts := ⟨[91, 92, 93, 0], 2⟩ }
    numServiceProcsPerDpu := 3 }

/-- Of eight ranks the first two of three SPs expect three each. -/
theorem connecting_ranks_three :
    (∀ l < 3, getNumConnectingRanks 3 8 l =
      (List.range 8).countP fun r => threeSpsConfig.localSpOf resetRankInfo r = some l) ∧
    ∑ l ∈ Finset.range 3, getNumConnectingRanks 3 8 l = 8 :=
  @connecting_ranks 3 (by decide) 8 (by decide) threeSpsConfig rfl [91, 92, 93] ⟨⟨1, rfl⟩, by decide, by decide⟩
    resetRankInfo

end DpuOffload
