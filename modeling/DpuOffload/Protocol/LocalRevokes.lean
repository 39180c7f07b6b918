import DpuOffload.Protocol.HeldBack

/-!
# The revokes of local ranks

A local rank may revoke a group before the group is complete on its SP. Such a revoke
is put aside (`handle_revoke_group_rank_through_rank_info`), in a list that is emptied
when the engine terminates and nowhere else: the rank is never marked.

* `Engine.NoneLost` — no revoke of a local rank is lost.
* `lost_when_early` — a run in which one is.
* `noneLost_of_reach` — **none is lost** in every run in which local ranks revoke the
  version the group is at, and when it is complete.
-/

namespace DpuOffload

open Transition

/-- **No revoke of a local rank is lost**: in a complete group the local ranks marked are
those whose revoke for the current version has been received, and no revoke of a rank
is put aside. -/
def Engine.NoneLost (S : Site) (e : Engine) : Prop :=
  0 < e.gp.groupSize ∧ e.gp.full = true →
    (∀ r ∈ S.locals, r ∈ e.gp.revokedRanks ↔ e.Revoked r e.gp.persistent.num) ∧
      e.gp.persistent.pendingGroupRevokeMsgsFromRanks = []

instance (S : Site) (e : Engine) : Decidable (e.NoneLost S) :=
  inferInstanceAs (Decidable (_ → (∀ r ∈ S.locals, _ ↔ _) ∧ _))

/-- A local rank revokes the current version of a complete group; the messages of other
SPs are about their ranks; and the sends of the cache complete before the group is reset,
or with no message of an SP put aside. -/
def Site.Complete (S : Site) (e : Engine) : Event → Prop
  | .revokeFromRank i => 0 < e.gp.groupSize ∧ e.gp.full = true ∧ e.gp.persistent.num = i.groupSeqNum
  | .revokeFromSp m => ∀ r ∈ m.carried, r ∉ S.locals
  | .cacheSent => e.gp.persistent.pendingGroupRevokeMsgsFromSps = [] ∨ 0 < e.gp.groupSize
  | _ => True

instance (S : Site) (e : Engine) : (ev : Event) → Decidable (S.Complete e ev)
  | .revokeFromRank i => inferInstanceAs
      (Decidable (0 < e.gp.groupSize ∧ e.gp.full = true ∧ e.gp.persistent.num = i.groupSeqNum))
  | .revokeFromSp m => inferInstanceAs (Decidable (∀ r ∈ m.carried, r ∉ S.locals))
  | .cacheSent => inferInstanceAs
      (Decidable (e.gp.persistent.pendingGroupRevokeMsgsFromSps = [] ∨ 0 < e.gp.groupSize))
  | .addGroupRank _ _ | .peerCacheEntries _ _ | .revokeSent | .requestAdd _ | .requestRevoke _ =>
    inferInstanceAs (Decidable True)

variable {S : Site}

/-- Messages as `Site.msgs` has them, those of SPs being about other ranks. -/
def Site.peerMsgs (S : Site) : MsgSpec := { S.msgs with rev := fun m => S.msgs.rev m ∧ ∀ r ∈ m.carried, r ∉ S.locals }

theorem Site.peerMsgs_le (S : Site) : S.peerMsgs.Le S.msgs := ⟨fun _ => id, fun _ => id, fun _ => id, fun _ h => h.1⟩

/-- What the callbacks keep about the local ranks, `H` being the local revokes received. -/
structure LocalInv (S : Site) (H : ℕ → ℕ → Prop) (s : RevState) : Prop where
  /-- A local rank is marked because it revoked this version. -/
  hist : ∀ r ∈ s.revoked, r ∈ S.locals → H r s.num
  /-- No revoke is about a later version. -/
  past : ∀ r v, H r v → v ≤ s.num
  /-- A revoke of this version is marked, or about to be. -/
  kept : ∀ r ∈ S.locals, H r s.num → 0 < s.numLocalEntries → r ∈ s.revoked ∨ ∃ i ∈ s.rankRevs, i.rank = r
  /-- No local rank of an empty group is marked. -/
  empty : s.numLocalEntries = 0 → ∀ r ∈ s.revoked, r ∉ S.locals
  /-- A local rank revokes a complete group, at its version. -/
  fresh : ∀ i ∈ s.rankRevs, s.numLocalEntries = S.size ∧ s.groupSize = S.size ∧ H i.rank s.num
  /-- Nothing is put aside. -/
  queued : s.queued = []

theorem LocalInv.act {H : ℕ → ℕ → Prop} {T : Tally → Prop} {w w' : Work} (hb : Base S S.peerMsgs w)
    (hb' : Base S S.peerMsgs w') (h : LocalInv S H w.rev) (ha : RevAct S T w w') : LocalInv S H w'.rev := by
  cases ha with
  | quiet hrev _ _ => rw [hrev]; exact h
  | known h0 hrev _ _ =>
    rw [hrev]
    exact { h with fresh := fun i hi => ⟨(h.fresh i hi).1, rfl, (h.fresh i hi).2.2⟩ }
  | entry sp h0 hs hsp hrev _ _ =>
    -- a group that is complete takes no entry
    have hlt : w.rev.numLocalEntries < S.size := by
      have hle := Finset.card_le_card (Finset.filter_subset (fun r => w'.gp.isSet r = true) (Finset.range S.size))
      have hcard : w'.rev.numLocalEntries ≤ S.size := hb'.counts.entries.le.trans (hle.trans_eq (Finset.card_range _))
      rw [hrev] at hcard
      exact hcard
    have hnil : w.rev.rankRevs = [] :=
      List.eq_nil_iff_forall_not_mem.2 fun i hi => absurd (h.fresh i hi).1 hlt.ne
    rw [hrev]
    by_cases hn : w.rev.numLocalEntries = 0
    · have hold : ∀ r, ¬ H r (w.rev.num + 1) := fun r hr => absurd (h.past r _ hr) (Nat.not_succ_le_self _)
      simp only [if_pos hn]
      exact
        { hist := fun r hr hl => absurd hl (h.empty hn r hr)
          past := fun r v hr => (h.past r v hr).trans (Nat.le_succ _)
          kept := fun r _ hr => absurd hr (hold r)
          empty := fun h0 => absurd h0 (Nat.succ_ne_zero _)
          fresh := fun i hi => by simp [hnil] at hi
          queued := h.queued }
    · simp only [if_neg hn]
      exact
        { h with
          kept := fun r hl hr _ => h.kept r hl hr (Nat.pos_of_ne_zero hn)
          empty := fun h0 => absurd h0 (Nat.succ_ne_zero _)
          fresh := fun i hi => by simp [hnil] at hi }
  | queue i is hr hn hrev _ _ =>
    obtain ⟨h1, h2, -⟩ := h.fresh i (by rw [hr]; exact List.mem_cons_self)
    exact absurd (h2.trans h1.symm) hn
  | mark i is hr hs hn hrev _ _ =>
    have hi := h.fresh i (by rw [hr]; exact List.mem_cons_self)
    rw [hrev]
    refine ⟨fun r hm hl => ?_, h.past, fun r hl hH hpos => ?_, fun h0 => absurd (h0.symm.trans hn) S.pos.ne,
      fun j hj => h.fresh j (by rw [hr]; exact List.mem_cons_of_mem _ hj), h.queued⟩
    · rcases Finset.mem_insert.1 hm with rfl | hm
      · exact hi.2.2
      · exact h.hist r hm hl
    · rcases h.kept r hl hH hpos with hm | ⟨j, hj, rfl⟩
      · exact .inl (Finset.mem_insert_of_mem hm)
      · rw [hr] at hj
        rcases List.mem_cons.1 hj with rfl | hj
        · exact .inl (Finset.mem_insert_self _ _)
        · exact .inr ⟨j, hj, rfl⟩
  | apply m k hm hT hs hk hrev _ _ =>
    have hnot : ∀ r ∈ m.carried.toFinset, r ∉ S.locals := fun r hr =>
      (hb.carries.taken m hm).2 r (List.mem_toFinset.1 hr)
    rw [hrev]
    refine { h with hist := fun r hr hl => ?_, kept := fun r hl hH hpos => ?_, empty := fun h0 r hr => ?_ }
    · rcases Finset.mem_union.1 hr with hr | hr
      · exact h.hist r hr hl
      · exact absurd hl (hnot r hr)
    · exact (h.kept r hl hH hpos).imp (Finset.mem_union_left _) id
    · rcases Finset.mem_union.1 hr with hr | hr
      · exact h.empty h0 r hr
      · exact hnot r hr
  | post _ _ hrev _ _ =>
    rw [hrev]
    exact ⟨h.hist, h.past, h.kept, h.empty, h.fresh, h.queued⟩
  | reset hf hr hrev _ _ =>
    rw [hrev]
    exact ⟨fun r hr => absurd hr (Finset.notMem_empty r), h.past, fun r _ _ h0 => absurd h0 (Nat.lt_irrefl 0),
      fun _ r hr => absurd hr (Finset.notMem_empty r), fun i hi => by simp [hr] at hi, h.queued⟩

/-! ### Runs -/

/-- What an engine keeps in such a run. -/
structure Engine.LocalKept (S : Site) (e : Engine) : Prop where
  /-- The counters count. -/
  base : Base S S.peerMsgs (Work.start ⟨e.gp, e.log⟩)
  /-- The local ranks are marked. -/
  inv : LocalInv S e.Revoked (Work.start ⟨e.gp, e.log⟩).rev

theorem Engine.revoked_iff {e e' : Engine} {ev : Event} (h : e'.seen = e.seen ++ [ev]) {r v : ℕ} :
    e'.Revoked r v ↔ e.Revoked r v ∨ ∃ i, ev = .revokeFromRank i ∧ i.rank = r ∧ i.groupSeqNum = v := by
  simp only [Engine.Revoked, h, List.filterMap_append, List.mem_append, or_and_right, exists_or]
  apply or_congr Iff.rfl
  cases ev <;> simp [Event.rankRevoke?]

theorem Site.peerMsgs_ok {e : Engine} {ev : Event} (hok : S.msgs.Ok ev) (hc : S.Complete e ev) : S.peerMsgs.Ok ev := by
  cases ev with
  | revokeFromSp m => exact ⟨hok, hc⟩
  | addGroupRank _ _ | peerCacheEntries _ _ | revokeFromRank _ | cacheSent | revokeSent | requestAdd _
  | requestRevoke _ => exact hok

theorem Engine.LocalKept.step {e e' : Engine} {ev : Event} (h : e.LocalKept S) (henv : S.Env e ev)
    (hcomp : S.Complete e ev) (hs : e.step S.ctx ev = some e') : e'.LocalKept S := by
  obtain ⟨-, -, -, hseen⟩ := Engine.step_eq_some hs
  have hc := h.base.counts
  have hT : ∀ t : Tally, t.groupSize = S.size → t.groupSize = S.size := fun _ => id
  have hsize : 0 < e.gp.groupSize → e.gp.groupSize = S.size := fun hpos => hc.size.resolve_left hpos.ne'
  have happ : ev.Applies S.ctx (fun t => t.groupSize = S.size) e.gp := by
    cases ev with
    | revokeFromRank i =>
      rintro g' rfl - -
      have hl : e.gp.Live := hc.live_of_groupSize hcomp.1.ne'
      rw [getGroupCacheInternal_of_live hl]
      exact hsize hcomp.1
    | revokeFromSp m => exact fun _ g' hg' _ => hc.size_of_learnFromRevoke henv.1.1 hg'
    | cacheSent => exact hcomp.imp id hsize
    | addGroupRank _ _ | peerCacheEntries _ _ | revokeSent | requestAdd _ | requestRevoke _ => trivial
  have hold : (∀ i, ev ≠ .revokeFromRank i) → LocalInv S e'.Revoked (Work.start ⟨e.gp, e.log⟩).rev := by
    intro hne
    have hiff : e'.Revoked = e.Revoked := by
      funext r v
      refine propext ((Engine.revoked_iff hseen).trans (or_iff_left ?_))
      rintro ⟨i, rfl, -⟩
      exact hne i rfl
    rw [hiff]
    exact h.inv
  have henter : LocalInv S e'.Revoked (ev.enter S.ctx ⟨e.gp, e.log⟩).rev := by
    cases ev with
    | revokeFromRank i =>
      obtain ⟨hpos, hfull, hnum⟩ := hcomp
      have hn : e.gp.numLocalEntries = S.size := (beq_iff_eq.1 hfull).symm.trans (hsize hpos)
      have hself : e'.Revoked i.rank e.gp.persistent.num := hnum ▸ Engine.revoked_self hseen
      refine
        { hist := fun r hr hl => Engine.revoked_append hseen (h.inv.hist r hr hl)
          past := fun r v hr => ?_
          kept := fun r hl hH hpos' => ?_
          empty := h.inv.empty
          fresh := fun j hj => ?_
          queued := h.inv.queued }
      · rcases (Engine.revoked_iff hseen).1 hr with hr | ⟨j, hj, -, rfl⟩
        · exact h.inv.past r v hr
        · cases hj; exact hnum.ge
      · rcases (Engine.revoked_iff hseen).1 hH with hr | ⟨j, hj, rfl, -⟩
        · apply (h.inv.kept r hl hr hpos').imp id
          rintro ⟨j, hj, -⟩
          exact absurd hj List.not_mem_nil
        · cases hj; exact .inr ⟨i, List.mem_cons_self, rfl⟩
      · rw [List.mem_singleton.1 hj]
        exact ⟨hn, hsize hpos, hself⟩
    | revokeFromSp m =>
      simp only [Event.enter, S.onDpu, if_true]
      exact hold (by simp)
    | revokeSent => exact { hold (by simp) with }
    | addGroupRank _ _ | peerCacheEntries _ _ | cacheSent => exact hold (by simp)
    | requestAdd _ | requestRevoke _ => exact henv.1.elim
  obtain ⟨hb', hi'⟩ := Site.step_keeps (J := fun w => LocalInv S e'.Revoked w.rev) S.peerMsgs_le hT
    (fun w w' hb hJ ha => hJ.act hb (hb.act S.peerMsgs_le hT ha) (ha.revAct S.peerMsgs_le hT hb)) hs h.base
    (Site.peerMsgs_ok henv.1 hcomp) (by rintro i rfl; exact hsize hcomp.1) happ
    (by rintro (rfl | rfl) - <;> exact hold (by simp)) henter
  exact ⟨hb', hi'⟩

theorem localKept_init (S : Site) : Engine.init.LocalKept S where
  base := base_new S _ _
  inv := by
    have hr : newGroupCache.revokedRanks = ∅ := revokedRanks_of_none rfl
    have hnone : ∀ r ∈ newGroupCache.revokedRanks, False := fun r hm => absurd (hr ▸ hm) (Finset.notMem_empty r)
    refine ⟨fun r hm => (hnone r hm).elim, ?_, ?_, fun _ r hm => (hnone r hm).elim,
      fun i hi => absurd hi List.not_mem_nil, rfl⟩
    · rintro r v ⟨i, hi, -⟩
      exact absurd hi List.not_mem_nil
    · exact fun r _ _ h0 => absurd h0 (Nat.lt_irrefl 0)

/-- **No revoke of a local rank is lost** in every run in which local ranks revoke a
complete group at its version. -/
theorem noneLost_of_reach (S : Site) {e : Engine}
    (h : Reach (Engine.step S.ctx) (fun e ev => S.Env e ev ∧ S.Complete e ev) Engine.init e) : e.NoneLost S := by
  have hk : e.LocalKept S := by
    apply h.invariant (localKept_init S)
    rintro e ev e' hI ⟨henv, hcomp⟩ hs
    exact hI.step henv hcomp hs
  rintro ⟨hpos, hfull⟩
  refine ⟨fun r hl => ⟨fun hm => hk.inv.hist r hm hl, fun hH => ?_⟩, hk.inv.queued⟩
  have hpos' : 0 < e.gp.numLocalEntries := (beq_iff_eq.1 hfull) ▸ hpos
  apply (hk.inv.kept r hl hH hpos').resolve_right
  rintro ⟨i, hi, -⟩
  exact absurd hi List.not_mem_nil

/-- A rank that revokes before the last entry comes is never marked. -/
theorem lost_when_early :
    ∃ e, Reach (Engine.step pairSite.ctx) pairSite.Env Engine.init e ∧ ¬ e.NoneLost pairSite :=
  exists_reach_of_exec
    [.addGroupRank 0 (pairAdd 0 1), .revokeFromRank (pairInfo 0 1), .peerCacheEntries 1 [pairEntry 1 1]] (by decide)

/-- A rank that revokes after the last entry came is marked. -/
theorem noneLost_of_reach_pair :
    ∃ e, Reach (Engine.step pairSite.ctx) (fun e ev => pairSite.Env e ev ∧ pairSite.Complete e ev) Engine.init e ∧
      (0 < e.gp.groupSize ∧ e.gp.full = true ∧ e.Revoked 0 1) ∧ e.NoneLost pairSite := by
  have h : ∃ e, Reach (Engine.step pairSite.ctx) (fun e ev => pairSite.Env e ev ∧ pairSite.Complete e ev)
      Engine.init e ∧ 0 < e.gp.groupSize ∧ e.gp.full = true ∧ e.Revoked 0 1 :=
    exists_reach_of_exec
      [.addGroupRank 0 (pairAdd 0 1), .peerCacheEntries 1 [pairEntry 1 1], .cacheSent, .revokeFromRank (pairInfo 0 1)]
      (by decide)
  obtain ⟨e, he, hcond⟩ := h
  exact ⟨e, he, hcond, noneLost_of_reach pairSite he⟩

end DpuOffload
