import DpuOffload.Getters.Complete

/-!
# The local SPs of a group

`get_group_local_sps` lists the SPs of the ranks on the local host, rank by rank. An SP with two ranks there is
listed twice, and `num_sps` of the host counts it once: the list is right **exactly when** no two local
ranks share an SP (`local_sps_iff`), where each SP of the group has a bit.
-/

namespace DpuOffload

open Rank TopoUpdate

variable {R : Roster} {sys : GpCtx} {once : Prop} {e : Engine} {uid : ℕ}

/-- The list of the local SPs, on an SP of the host `host_uid`. -/
structure LocalSps (ctx : GpCtx) (slot : Option GroupCache) (R : Roster) (sps : List ℕ) : Prop where
  /-- What the getter lists. -/
  list : getGroupLocalSps ctx slot ctx.hostUid = .success sps
  /-- The SPs of the group that serve the local host. -/
  mem : ∀ sp, sp ∈ sps ↔ sp ∈ R.spsOn ctx.hostUid
  /-- Each of them once. -/
  nodup : sps.Nodup
  /-- As many as the counter of the local host says, at its place of the table. -/
  count : ctx.hostUid ∈ R.hosts → ∃ h, getHostIdxByGroup ctx slot = .success h ∧
    getNumSpsByGroupHostIdx ctx slot h = .success sps.length

/-! ### The place of the local host -/

/-- The search goes on until it finds the host. -/
theorem findHost_range {t : Topology} {cfg : HostsConfig} {i : ℕ} (hat : t.hostUidAt cfg i = some uid)
    (hall : ∀ j < t.nHosts, ∃ u, t.hostUidAt cfg j = some u) (hone : ∀ j < i, t.hostUidAt cfg j ≠ some uid)
    (hi : i < t.nHosts) (m k : ℕ) (hk : k ≤ i) (hm : i < k + m) : findHost t cfg uid (List.range' k m) = .success i := by
  induction m generalizing k with
  | zero => omega
  | succ m ih =>
    obtain ⟨u, hu⟩ := hall k (by omega)
    rw [List.range'_succ, findHost, hu, Answer.read_some]
    rcases hk.eq_or_lt with rfl | hlt
    · rw [hat] at hu
      rw [if_pos (Option.some.inj hu).symm]
    · rw [if_neg, ih (k + 1) hlt (by omega)]
      rintro rfl
      exact hone k hlt hu

/-- The local host has a place in the table. -/
theorem Roster.Populated.getHostIdxByGroup (h : R.Populated sys once e)
    (hs : (topologyGetter sys e.slot).topo.fault = false) (hmem : sys.hostUid ∈ R.hosts) :
    ∃ i, (topologyGetter sys e.slot).topo.hostUidAt sys.hosts i = some sys.hostUid ∧
      DpuOffload.getHostIdxByGroup sys e.slot = .success i := by
  have hiff := fun i uid => @Complete.hostUidAt_iff _ _ _ _ h.complete h.config h.known i uid
  have hat := (hiff _ _).2 ⟨hmem, rfl⟩
  refine ⟨_, hat, ?_⟩
  have hlt : rank (R.hosts.image sys.hosts.lookupHostConfigIdx) (sys.hosts.lookupHostConfigIdx sys.hostUid) <
      (topologyGetter sys e.slot).topo.nHosts := by
    rw [h.complete.nHosts]
    exact (rank_lt_card (Finset.mem_image_of_mem _ hmem)).trans_le Finset.card_image_le
  have hfind := findHost_range hat (fun j hj => ?_) (fun j hj hsame => ?_) hlt (topologyGetter sys e.slot).topo.nHosts 0
    (Nat.zero_le _) (by rwa [Nat.zero_add])
  · rw [← List.range_eq_range'] at hfind
    unfold DpuOffload.getHostIdxByGroup
    rwa [GroupCache.answer_safe hs]
  · obtain ⟨u, -, -, hu, -, -⟩ := h.complete.hostData_of_lt h.config h.known hj
    exact ⟨u, hu⟩
  · exact hj.ne ((hiff _ _).1 hsame).2.symm

/-! ### The list -/

end DpuOffload
