import DpuOffload.Protocol.RevokeActs

/-!
# Holding back the revokes of other SPs

An SP applies a revoke message of another SP only when the group is complete and all
its own local ranks have revoked it; a message that comes earlier is put aside
(`handle_revoke_group_rank_through_list_ranks`). So as long as some local rank has not
revoked the group, `revokes.global` counts local revokes only.

The rule is not kept everywhere. The completion of the sends of the cache to the local
ranks takes up what was put aside without looking at the local ranks
(`group_cache_send_to_local_ranks_cb`); an SP with an empty group of unknown size takes
`0 == 0` for a complete group; and a revoke of the next version of a local rank that
comes before the reset is counted for the old version.

* `HeldBack` — the rule.
* `not_heldBack_after_cacheSent` — a run that breaks it.
* `heldBack_of_reach` — **the rule holds** in every run in which none of these three
  things happens, and a message that must wait is put aside.
-/

namespace DpuOffload

open Transition

/-- More revokes than those of local ranks only on a complete group that all local
ranks have revoked. -/
def GroupCache.HeldBack (g : GroupCache) : Prop :=
  g.revokesLocal < g.revokesGlobal → g.numLocalEntries = g.groupSize ∧ g.revokesLocal = g.spRanks

instance (g : GroupCache) : Decidable g.HeldBack := inferInstanceAs (Decidable (_ → _))

/-- Is the group complete, with all local ranks having revoked it? -/
def GroupCache.AllLocal (g : GroupCache) : Prop :=
  0 < g.groupSize ∧ g.groupSize = g.numLocalEntries ∧ g.spRanks = g.revokesLocal

instance (g : GroupCache) : Decidable g.AllLocal := inferInstanceAs (Decidable (_ ∧ _ ∧ _))

/-- The revoke of a local rank. -/
def Event.rankRevoke? : Event → Option RankInfo
  | .revokeFromRank i => some i
  | _ => none

/-- Has a revoke of rank `r` for version `v` been received? -/
def Engine.Revoked (e : Engine) (r v : ℕ) : Prop :=
  ∃ i ∈ e.seen.filterMap Event.rankRevoke?, i.rank = r ∧ i.groupSeqNum = v

instance (e : Engine) (r v : ℕ) : Decidable (e.Revoked r v) :=
  inferInstanceAs (Decidable (∃ i ∈ e.seen.filterMap Event.rankRevoke?, i.rank = r ∧ i.groupSeqNum = v))

/-- The environment of an SP: well-formed messages, and each local rank revokes a
version once. -/
def Site.Env (S : Site) (e : Engine) (ev : Event) : Prop :=
  S.msgs.Ok ev ∧ ∀ i ∈ ev.rankRevoke?, ¬ e.Revoked i.rank i.groupSeqNum

instance (S : Site) (e : Engine) (ev : Event) : Decidable (S.Env e ev) :=
  inferInstanceAs (Decidable (S.msgs.Ok ev ∧ ∀ i ∈ ev.rankRevoke?, ¬ e.Revoked i.rank i.groupSeqNum))

/-- Where the rule can be broken: a message of an SP on a group of unknown size, a
completed send of the cache before all local ranks have revoked, and the revoke of a
local rank that is not in the cache or not at the version it names. -/
def InOrder (e : Engine) : Event → Prop
  | .revokeFromSp _ => e.gp.groupSize ≠ 0
  | .cacheSent => e.gp.persistent.pendingGroupRevokeMsgsFromSps = [] ∨ e.gp.AllLocal
  | .revokeFromRank i => e.gp.isSet i.rank = true ∧ e.gp.persistent.num = i.groupSeqNum
  | _ => True

instance (e : Engine) : (ev : Event) → Decidable (InOrder e ev)
  | .revokeFromSp _ => inferInstanceAs (Decidable (e.gp.groupSize ≠ 0))
  | .cacheSent => inferInstanceAs
      (Decidable (e.gp.persistent.pendingGroupRevokeMsgsFromSps = [] ∨ e.gp.AllLocal))
  | .revokeFromRank i => inferInstanceAs (Decidable (e.gp.isSet i.rank = true ∧ e.gp.persistent.num = i.groupSeqNum))
  | .addGroupRank _ _ | .peerCacheEntries _ _ | .revokeSent | .requestAdd _ | .requestRevoke _ =>
    inferInstanceAs (Decidable True)

variable {S : Site}

/-- The counters when messages of SPs are applied. -/
def Site.HeldTally (S : Site) (t : Tally) : Prop :=
  t.groupSize = S.size ∧ t.numLocalEntries = S.size ∧ t.spRanks = t.revokesLocal

/-- What the callbacks keep about the revokes, `H` being the local revokes received. -/
structure HeldInv (S : Site) (H : ℕ → ℕ → Prop) (s : RevState) : Prop where
  /-- `revokes.local` counts the local ranks marked. -/
  loc : s.revokesLocal = (s.revoked ∩ S.locals).card
  /-- They are among all. -/
  le : s.revokesLocal ≤ s.revokesGlobal
  /-- A local rank is marked because it revoked this version. -/
  hist : ∀ r ∈ s.revoked, r ∈ S.locals → H r s.num
  /-- The rule. -/
  held : s.revokesGlobal = s.revokesLocal ∨ s.numLocalEntries = s.groupSize ∧ s.revokesLocal = s.spRanks
  /-- No rank of an empty group is marked. -/
  empty : s.numLocalEntries = 0 → s.revoked = ∅
  /-- A local rank revokes the current version, and for the first time. -/
  fresh : s.rankRevs = [] ∨ ∃ i, s.rankRevs = [i] ∧ i.rank ∈ S.locals ∧ i.rank ∉ s.revoked ∧ H i.rank s.num ∧
    0 < s.numLocalEntries

/-- When `revokes.local` has reached `sp_ranks` in a complete group, all local ranks are marked. -/
theorem Counts.locals_subset {w : Work} (h : Counts S w) (hn : w.gp.numLocalEntries = S.size)
    (hsp : w.gp.spRanks = (w.gp.revokedRanks ∩ S.locals).card) : S.locals ⊆ w.gp.revokedRanks := by
  rw [h.spRanks_of_full hn] at hsp
  exact Finset.inter_eq_right.1 (Finset.eq_of_subset_of_card_le Finset.inter_subset_right hsp.le)

theorem HeldInv.act {H : ℕ → ℕ → Prop} {w w' : Work} (hb : Base S S.msgs w) (h : HeldInv S H w.rev)
    (ha : RevAct S S.HeldTally w w') : HeldInv S H w'.rev := by
  cases ha with
  | quiet hrev _ _ => rw [hrev]; exact h
  | known h0 hrev _ _ =>
    obtain ⟨hn, -, hg, hl⟩ := hb.counts.unknown h0
    rw [hrev]
    exact { h with held := .inl (hg.trans hl.symm) }
  | entry sp h0 hs hsp hrev _ _ =>
    have hl : w.rev.revokesLocal = 0 := Nat.le_zero.1 (h0 ▸ h.le)
    have hnum : w.rev.numLocalEntries ≠ 0 →
        (if w.rev.numLocalEntries = 0 then w.rev.num + 1 else w.rev.num) = w.rev.num := fun hne => if_neg hne
    rw [hrev]
    refine { h with
      hist := fun r hr hloc => ?_, held := .inl (h0.trans hl.symm), empty := fun h0 => absurd h0 (Nat.succ_ne_zero _)
      fresh := h.fresh.imp id ?_ }
    · have hne : w.rev.numLocalEntries ≠ 0 := fun hz => by
        rw [h.empty hz] at hr
        exact absurd hr (Finset.notMem_empty r)
      simp only [hnum hne]
      exact h.hist r hr hloc
    · rintro ⟨i, hi, hloc, hnot, hH, hpos⟩
      simp only [hnum hpos.ne']
      exact ⟨i, hi, hloc, hnot, hH, Nat.succ_pos _⟩
  | queue i is hr hn hrev _ _ =>
    rw [hrev]
    refine { h with fresh := .inl ?_ }
    rcases h.fresh with hf | ⟨j, hf, -⟩
    · rw [hf] at hr; cases hr
    · rw [hf] at hr; cases hr; rfl
  | mark i is hr hs hn hrev _ _ =>
    rcases h.fresh with hf | ⟨j, hf, hloc, hnot, hH, hpos⟩
    · rw [hf] at hr; cases hr
    · rw [hf] at hr
      cases hr
      rw [hrev]
      refine ⟨?_, Nat.succ_le_succ h.le, fun r hr hrl => ?_, .inl ?_, fun h0 => absurd h0 hpos.ne', .inl rfl⟩
      · rw [Finset.insert_inter_of_mem hloc, Finset.card_insert_of_notMem fun hm => hnot (Finset.mem_inter.1 hm).1,
          ← h.loc]
      · rcases Finset.mem_insert.1 hr with rfl | hr
        · exact hH
        · exact h.hist r hr hrl
      · rcases h.held with heq | ⟨-, hsp⟩
        · exact congrArg (· + 1) heq
        · exact absurd (hb.counts.locals_subset hn (hsp.symm.trans h.loc) hloc) hnot
  | apply m k hm hT hs hk hrev _ _ =>
    obtain ⟨-, hn, hsp⟩ := hT
    have hsub : S.locals ⊆ w.rev.revoked := hb.counts.locals_subset hn (hsp.trans h.loc)
    have hloc : (w.rev.revoked ∪ m.carried.toFinset) ∩ S.locals = w.rev.revoked ∩ S.locals := by
      rw [Finset.inter_eq_right.2 hsub, Finset.inter_eq_right.2 (hsub.trans Finset.subset_union_left)]
    rw [hrev]
    refine ⟨by rw [hloc]; exact h.loc, h.le.trans (Nat.le_add_right _ _), fun r _ hrl => h.hist r (hsub hrl) hrl,
      .inr ⟨hn.trans hs.symm, hsp.symm⟩, fun h0 => absurd (h0.symm.trans hn) S.pos.ne, ?_⟩
    rcases h.fresh with hf | ⟨i, hf, hil, hnot, -⟩
    · exact .inl hf
    · exact absurd (hsub hil) hnot
  | post _ _ hrev _ _ =>
    rw [hrev]
    exact ⟨h.loc, h.le, h.hist, h.held, h.empty, h.fresh⟩
  | reset hf hr hrev _ _ =>
    rw [hrev]
    exact ⟨by simp, Nat.le_refl 0, fun r hr => absurd hr (Finset.notMem_empty r), .inl rfl, fun _ => rfl, .inl hr⟩

/-! ### Runs -/

theorem Engine.revoked_append {e e' : Engine} {ev : Event} (h : e'.seen = e.seen ++ [ev]) {r v : ℕ}
    (hr : e.Revoked r v) : e'.Revoked r v := by
  obtain ⟨i, hi, hr⟩ := hr
  exact ⟨i, by rw [h, List.filterMap_append]; exact List.mem_append_left _ hi, hr⟩

theorem Engine.revoked_self {e e' : Engine} {i : RankInfo} (h : e'.seen = e.seen ++ [.revokeFromRank i]) :
    e'.Revoked i.rank i.groupSeqNum :=
  ⟨i, by rw [h, List.filterMap_append]; exact List.mem_append_right _ List.mem_cons_self, rfl, rfl⟩

theorem HeldInv.mono {H H' : ℕ → ℕ → Prop} (hH : ∀ r v, H r v → H' r v) {s : RevState} (h : HeldInv S H s) :
    HeldInv S H' s :=
  { h with
    hist := fun r hr hl => hH _ _ (h.hist r hr hl)
    fresh := h.fresh.imp id fun ⟨i, h₁, h₂, h₃, h₄, h₅⟩ => ⟨i, h₁, h₂, h₃, hH _ _ h₄, h₅⟩ }

/-- A rank that is set makes the size of the group known. -/
theorem Counts.groupSize_of_isSet {w : Work} (h : Counts S w) {r : ℕ} (hr : r < S.size) (hset : w.gp.isSet r = true) :
    w.gp.groupSize = S.size ∧ 0 < w.gp.numLocalEntries := by
  have hpos : 0 < w.gp.numLocalEntries := by
    rw [h.entries]
    exact Finset.card_pos.2 ⟨r, Site.mem_setRanks.2 ⟨hr, hset⟩⟩
  exact ⟨h.size.resolve_left fun h0 => hpos.ne' (h.unknown h0).1, hpos⟩

theorem Counts.live_of_groupSize {w : Work} (h : Counts S w) (h0 : w.gp.groupSize ≠ 0) : w.gp.Live := by
  by_contra hd
  exact h0 (congrArg GroupCache.groupSize (h.dead hd))

/-- A group that takes a revoke message of an SP knows its size. -/
theorem Counts.size_of_learnFromRevoke {w : Work} (h : Counts S w) {m : GroupRevokeMsgFromSp} (hm : m.groupSize = S.size)
    {g' : GroupCache} (hg' : g' = getGroupCacheInternal S.ctx.gpUid (some w.gp) m.groupSize) :
    (g'.learnFromRevoke m).groupSize = S.size := by
  have hsize : g'.groupSize = 0 ∨ g'.groupSize = S.size := by
    rw [hg', getGroupCacheInternal]
    split
    · exact .inl rfl
    · exact h.size
  rw [GroupCache.learnFromRevoke]
  split
  · exact hm
  · exact hsize.resolve_left ‹_›

/-- What an engine keeps in such a run. -/
structure Engine.Held (S : Site) (e : Engine) : Prop where
  /-- The counters count. -/
  base : Base S S.msgs (Work.start ⟨e.gp, e.log⟩)
  /-- The revokes are held back. -/
  inv : HeldInv S e.Revoked (Work.start ⟨e.gp, e.log⟩).rev

theorem Engine.Held.step {e e' : Engine} {ev : Event} (h : e.Held S) (henv : S.Env e ev) (hord : InOrder e ev)
    (hs : e.step S.ctx ev = some e') : e'.Held S := by
  obtain ⟨-, -, -, hseen⟩ := Engine.step_eq_some hs
  have hc := h.base.counts
  have hi := h.inv.mono fun r v => Engine.revoked_append (r := r) (v := v) hseen
  have hrr : ∀ i, ev = .revokeFromRank i → e.gp.groupSize = S.size ∧ 0 < e.gp.numLocalEntries := by
    rintro i rfl
    exact hc.groupSize_of_isSet henv.1.1.rank_lt hord.1
  have happ : ev.Applies S.ctx S.HeldTally e.gp := by
    cases ev with
    | revokeFromRank i =>
      rintro g' rfl hfull hlast
      obtain ⟨hsz, hpos⟩ := hrr i rfl
      have hl : e.gp.Live := hc.live_of_groupSize (hsz ▸ S.pos.ne')
      rw [getGroupCacheInternal_of_live hl] at hfull hlast ⊢
      exact ⟨hsz, hfull.symm.trans hsz, hlast.symm⟩
    | revokeFromSp m =>
      rintro - g' rfl hdel
      have hl : e.gp.Live := hc.live_of_groupSize hord
      have hsz : e.gp.groupSize = S.size := hc.size.resolve_left hord
      rw [getGroupCacheInternal_of_live hl] at hdel ⊢
      simp only [GroupCache.delaysSpRevoke, Bool.or_eq_false_iff, bne_eq_false_iff_eq] at hdel
      rw [GroupCache.learnFromRevoke, if_neg hord]
      exact ⟨hsz, hdel.1.2.symm.trans hsz, hdel.2⟩
    | cacheSent =>
      refine hord.imp id fun hall => ?_
      have hsz := hc.size.resolve_left hall.1.ne'
      exact ⟨hsz, hall.2.1.symm.trans hsz, hall.2.2⟩
    | addGroupRank _ _ | peerCacheEntries _ _ | revokeSent | requestAdd _ | requestRevoke _ => trivial
  have henter : HeldInv S e'.Revoked (ev.enter S.ctx ⟨e.gp, e.log⟩).rev := by
    cases ev with
    | revokeFromRank i =>
      refine { hi with fresh := .inr ⟨i, rfl, henv.1.2, fun hm => henv.2 i rfl ?_, ?_, (hrr i rfl).2⟩ }
      · rw [← hord.2]
        exact h.inv.hist _ hm henv.1.2
      · rw [show (Event.enter S.ctx ⟨e.gp, e.log⟩ (.revokeFromRank i)).rev.num = i.groupSeqNum from hord.2]
        exact Engine.revoked_self hseen
    | revokeFromSp m =>
      simp only [Event.enter, S.onDpu, if_true]
      exact hi
    | revokeSent => exact { hi with }
    | addGroupRank _ _ | peerCacheEntries _ _ | cacheSent => exact hi
    | requestAdd _ | requestRevoke _ => exact henv.1.elim
  obtain ⟨hb', hi'⟩ := Site.step_keeps (J := fun w => HeldInv S e'.Revoked w.rev) (MsgSpec.Le.refl S.msgs)
    (fun t ht => ht.1) (fun w w' hb hJ ha => hJ.act hb (ha.revAct (MsgSpec.Le.refl _) (fun t ht => ht.1) hb)) hs h.base
    henv.1 (fun i hev => (hrr i hev).1) happ (fun _ _ => hi) henter
  exact ⟨hb', hi'⟩

theorem held_init (S : Site) : Engine.init.Held S where
  base := base_new S _ _
  inv := by
    have hr : newGroupCache.revokedRanks = ∅ := revokedRanks_of_none rfl
    refine ⟨?_, Nat.le_refl 0, fun r hm => ?_, .inl rfl, fun _ => hr, .inl rfl⟩
    · change 0 = (newGroupCache.revokedRanks ∩ S.locals).card
      rw [hr]
      simp
    · exact absurd (hr ▸ hm) (Finset.notMem_empty r)

/-- **Revokes of other SPs are held back** in every run whose steps are in order; and a
message that comes before the group is complete and all local ranks have revoked it is
put aside. -/
theorem heldBack_of_reach (S : Site) {e : Engine}
    (h : Reach (Engine.step S.ctx) (fun e ev => S.Env e ev ∧ InOrder e ev) Engine.init e) :
    e.gp.HeldBack ∧ ∀ m e', e.step S.ctx (.revokeFromSp m) = some e' → ¬ e.gp.AllLocal → e.gp.groupSize ≠ 0 →
      m ∈ e'.gp.persistent.pendingGroupRevokeMsgsFromSps := by
  have hinv : e.Held S := by
    apply h.invariant (held_init S)
    rintro e ev e' hI ⟨henv, hord⟩ hs
    exact hI.step henv hord hs
  refine ⟨fun hlt => ?_, fun m e' hs hnot h0 => ?_⟩
  · rcases hinv.inv.held with heq | hheld
    · exact absurd heq (Nat.ne_of_gt hlt)
    · exact hheld
  · obtain ⟨-, hslot, -, -⟩ := Engine.step_eq_some hs
    have hl : e.gp.Live := hinv.base.counts.live_of_groupSize h0
    have hdel : e.gp.delaysSpRevoke = true := by
      by_contra hd
      simp only [GroupCache.delaysSpRevoke, Bool.not_eq_true, Bool.or_eq_false_iff, bne_eq_false_iff_eq] at hd
      exact hnot ⟨Nat.pos_of_ne_zero h0, hd.1.2, hd.2⟩
    have hg : getGroupCacheInternal S.ctx.gpUid e.slot m.groupSize = e.gp := by
      rw [getGroupCacheInternal_getD]
      exact getGroupCacheInternal_of_live hl _
    rw [Engine.gp, hslot]
    simp [handle, handleRevokeGroupRankThroughListRanks, S.onDpu, hg, handleSpRevoke, hdel, GpState.handled]

/-- The completion of the sends of the cache applies a revoke that must wait. -/
theorem not_heldBack_after_cacheSent :
    ∃ e, Reach (Engine.step pairSite.ctx) pairSite.Env Engine.init e ∧ ¬ e.gp.HeldBack :=
  exists_reach_of_exec
    [.addGroupRank 0 (pairAdd 0 1), .peerCacheEntries 1 [pairEntry 1 1], .revokeFromSp (pairRevoke 1), .cacheSent]
    (by decide)

/-- After the local rank has revoked, the revoke of the other rank is applied. -/
theorem heldBack_of_reach_pair :
    ∃ e, Reach (Engine.step pairSite.ctx) (fun e ev => pairSite.Env e ev ∧ InOrder e ev) Engine.init e ∧
      e.gp.revokesLocal < e.gp.revokesGlobal ∧ e.gp.HeldBack := by
  have h : ∃ e, Reach (Engine.step pairSite.ctx) (fun e ev => pairSite.Env e ev ∧ InOrder e ev) Engine.init e ∧
      e.gp.revokesLocal < e.gp.revokesGlobal :=
    exists_reach_of_exec
      [.addGroupRank 0 (pairAdd 0 1), .peerCacheEntries 1 [pairEntry 1 1], .cacheSent, .revokeFromSp (pairRevoke 1),
        .revokeFromRank (pairInfo 0 1)] (by decide)
  obtain ⟨e, he, hlt⟩ := h
  exact ⟨e, he, hlt, (heldBack_of_reach pairSite he).1⟩

end DpuOffload
