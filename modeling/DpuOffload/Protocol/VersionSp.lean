import DpuOffload.Protocol.VersionActs

/-!
# An SP over the versions of a group

What an SP keeps by itself while one version of a group follows the other, as far as it does
not take the other SPs: the counters of the revokes count the ranks marked, until the final
revoke is posted (`RevKept.count`); a version is posted once and ends once; and what a rank
asks for waits only while the version before is being revoked (`Calm`).

After the final revoke is posted a rank may join the next version and leave it again before
this one ends. Its revoke is then counted once more, which does no harm any longer.
-/

namespace DpuOffload

open Versions

/-- The last version that has ended. -/
def RevState.ended (s : RevState) : ℕ := if s.numLocalEntries = 0 then s.num else s.num - 1

/-- The counters when messages of SPs are applied: all local ranks are marked, or there is nothing. -/
def Site.TurnTally (S : Site) (t : Tally) : Prop :=
  t.groupSize = S.size ∧ (t.numLocalEntries = S.size ∧ t.spRanks = t.revokesLocal ∨ t.numLocalEntries = 0)

/-- A final revoke was posted for a version up to `p`, and the message of an SP marks ranks at its version. -/
def Effect.Fits (p : ℕ) : Effect → Prop
  | .revokeToRanks _ v => v ≤ p
  | .markedFromSp _ v n => v = n
  | _ => True

theorem Effect.Fits.mono {p p' : ℕ} (hp : p ≤ p') {x : Effect} (h : x.Fits p) : x.Fits p' := by
  cases x with
  | revokeToRanks n v => exact h.trans hp
  | markedFromSp r v n => exact h
  | entriesToSp _ _ | revokeToSp _ _ | cacheToRanks _ | addToSp _ | revokeRankToSp _ | broadcast | markedFromRank _ _ _
  | revoked _ => trivial

theorem fits_append {p : ℕ} {l l' : List Effect} (h : ∀ x ∈ l, x.Fits p) (h' : ∀ x ∈ l', x.Fits p) :
    ∀ x ∈ l ++ l', x.Fits p := fun x hx => (List.mem_append.1 hx).elim (h x) (h' x)

theorem fits_concat {p : ℕ} {l : List Effect} {y : Effect} (h : ∀ x ∈ l, x.Fits p) (hy : y.Fits p) :
    ∀ x ∈ l ++ [y], x.Fits p :=
  fits_append h fun x hx => by rw [List.mem_singleton.1 hx]; exact hy

/-- **What an SP keeps about its revokes**, `d` being the number of final revokes it has sent. -/
structure RevKept (S : Site) (d : ℕ) (s : RevState) (notes : List Effect) : Prop where
  /-- The counters count the ranks marked, or the version is about to end. -/
  count : s.revokesGlobal = s.revoked.card ∧ s.revokesLocal = (s.revoked ∩ S.locals).card ∨
    0 < s.numLocalEntries ∧ s.posted = s.num ∧ 0 < s.revokesGlobal ∧ S.locals.card ≤ s.revokesLocal
  /-- A version ends when its final revoke was posted. -/
  final : s.final = true → 0 < s.numLocalEntries ∧ s.posted = s.num
  /-- It ends when the final revoke was sent. -/
  ended : s.ended + (if s.final then 1 else 0) = d
  /-- One rank is revoked at a time. -/
  one : s.rankRevs.length ≤ 1
  /-- The final revoke is posted once a version, -/
  posts : notes.countP Effect.isRevokeToRanks = s.posted
  /-- and the record says so. -/
  fits : ∀ x ∈ notes, x.Fits s.posted

variable {S : Site} {T : Tally → Prop} {w w' : Work} {M : MsgSpec} {d : ℕ}

theorem RevKept.of_eq {s s' : RevState} {notes : List Effect} (h : RevKept S d s notes) (hrev : s'.revoked = s.revoked)
    (hg : s'.revokesGlobal = s.revokesGlobal) (hl : s'.revokesLocal = s.revokesLocal)
    (hn : s'.numLocalEntries = s.numLocalEntries) (hnum : s'.num = s.num) (hp : s'.posted = s.posted)
    (hf : s'.final = s.final) (hrr : s'.rankRevs.length ≤ s.rankRevs.length) : RevKept S d s' notes where
  count := by rw [hrev, hg, hl, hn, hnum, hp]; exact h.count
  final := by rw [hf, hn, hnum, hp]; exact h.final
  ended := by rw [RevState.ended, hn, hnum, hf]; exact h.ended
  one := hrr.trans h.one
  posts := by rw [hp]; exact h.posts
  fits := by rw [hp]; exact h.fits

/-- The record grows, -/
theorem RevAct.notes_subset (h : RevAct S T w w') : w.notes ⊆ w'.notes := by
  cases h with
  | quiet _ hn _ | known _ _ hn _ | entry _ _ _ _ _ hn _ | queue _ _ _ _ _ hn _ =>
    rw [hn]
    exact List.Subset.refl _
  | mark _ _ _ _ _ _ hn _ | post _ _ _ hn _ | reset _ _ _ hn _ =>
    rw [hn]
    exact List.subset_append_left _ _
  | apply _ _ _ _ _ _ _ hn _ =>
    obtain ⟨new, -, -, hn⟩ := hn
    rw [hn]
    exact List.subset_append_left _ _

/-- and the revokes of local ranks are used up. -/
theorem RevAct.rankRevs_subset (h : RevAct S T w w') : w'.rankRevs ⊆ w.rankRevs := by
  change w'.rev.rankRevs ⊆ w.rev.rankRevs
  cases h with
  | quiet hr _ _ | known _ hr _ _ | entry _ _ _ _ hr _ _ | apply _ _ _ _ _ _ hr _ _ | post _ _ hr _ _ | reset _ _ hr _ _ =>
    rw [hr]
    exact List.Subset.refl _
  | queue _ _ hrr _ hr _ _ | mark _ _ hrr _ _ hr _ _ =>
    rw [hr]
    exact subset_of_eq_cons hrr

/-- The counters count while no rank is marked twice. -/
theorem RevKept.revoked_of_zero {s : RevState} {notes : List Effect} (h : RevKept S d s notes)
    (h0 : s.revokesGlobal = 0) : s.revoked = ∅ := by
  rcases h.count with ⟨hg, -⟩ | ⟨-, -, hg, -⟩
  · exact Finset.card_eq_zero.1 (hg.symm.trans h0)
  · omega

/-- **What the actions keep.** -/
theorem RevKept.act (h : RevKept S d w.rev w.notes) (hb : Base S M w) (hM : M.Le S.msgs)
    (hok : w.face.Ok (Finset.range S.size) S.locals)
    (hmark : ∀ i ∈ w.rankRevs, i.rank ∈ w.face.bits → S.locals ⊆ w.face.bits ∧ w.face.posted = w.face.num)
    (happly : ∀ m ∈ w.taken, ∀ r ∈ m.carried, r ∉ S.locals ∧ m.gpSeqNum = w.face.num)
    (ha : RevAct S T w w') : RevKept S d w'.rev w'.notes := by
  have hactive : 0 < w.rev.numLocalEntries → w.face.Active := fun hn => hb.counts.active_iff.2 hn.ne'
  cases ha with
  | quiet hr hn _ =>
    rw [hn, hr]
    exact h
  | known h0 hr hn _ =>
    rw [hn, hr]
    exact h.of_eq rfl rfl rfl rfl rfl rfl rfl le_rfl
  | entry sp h0 hs hsp hr hn _ =>
    have hrev := h.revoked_of_zero h0
    rw [hn, hr]
    refine ⟨.inl ?_, ?_, ?_, h.one, h.posts, h.fits⟩
    · rcases h.count with hc | ⟨-, -, hg, -⟩
      · exact hc
      · rw [h0] at hg
        exact absurd hg (Nat.lt_irrefl 0)
    · intro hf
      obtain ⟨hpos, hp⟩ := h.final hf
      refine ⟨Nat.succ_pos _, ?_⟩
      dsimp only
      rw [if_neg hpos.ne']
      exact hp
    · have hend := h.ended
      rw [RevState.ended] at hend ⊢
      dsimp only
      rw [if_neg (Nat.succ_ne_zero _)]
      by_cases hz : w.rev.numLocalEntries = 0
      · rw [if_pos hz] at hend ⊢
        exact hend
      · rw [if_neg hz] at hend ⊢
        exact hend
  | queue i is hrr hne hr hn _ =>
    rw [hn, hr]
    refine h.of_eq rfl rfl rfl rfl rfl rfl rfl ?_
    rw [hrr]
    exact Nat.le_succ _
  | mark i is hrr hs hfull hr hn _ =>
    have hi := hM.rankRev i (hb.carries.rankRevs i (mem_of_eq_cons hrr))
    have hpos : 0 < w.rev.numLocalEntries := by rw [hfull]; exact S.pos
    rw [hn, hr]
    refine ⟨?_, h.final, h.ended, ?_, ?_, fits_concat h.fits trivial⟩
    · rcases h.count with ⟨hg, hl⟩ | ⟨-, hp, hg, hl⟩
      · by_cases hin : i.rank ∈ w.rev.revoked
        · -- the rank has left the next version as well
          obtain ⟨hsub, hp⟩ := hmark i (mem_of_eq_cons hrr) hin
          refine .inr ⟨hpos, hp, Nat.succ_pos _, ?_⟩
          have hcard : w.rev.revoked ∩ S.locals = S.locals := Finset.inter_eq_right.2 hsub
          rw [hcard] at hl
          exact hl.ge.trans (Nat.le_succ _)
        · refine .inl ⟨?_, ?_⟩
          · rw [Finset.card_insert_of_notMem hin, ← hg]
          · rw [Finset.insert_inter_of_mem hi.2, Finset.card_insert_of_notMem, ← hl]
            exact fun hm => hin (Finset.mem_inter.1 hm).1
      · exact .inr ⟨hpos, hp, Nat.succ_pos _, hl.trans (Nat.le_succ _)⟩
    · have hone := h.one
      rw [hrr] at hone
      exact (Nat.le_succ _).trans hone
    · rw [List.countP_append, h.posts]
      rfl
  | apply m k hm hT hs hcard hr hn _ =>
    obtain ⟨new, hnew, -, hn⟩ := hn
    rw [hn, hr]
    refine ⟨?_, h.final, h.ended, h.one, ?_, fits_append h.fits fun x hx => ?_⟩
    · rcases h.count with ⟨hg, hl⟩ | ⟨hpos, hp, hg, hl⟩
      · refine .inl ⟨?_, ?_⟩
        · rw [hcard, ← hg]
        · rw [Finset.union_inter_distrib_right]
          have hempty : m.carried.toFinset ∩ S.locals = ∅ := by
            refine Finset.eq_empty_of_forall_notMem fun r hrm => ?_
            obtain ⟨hrc, hrl⟩ := Finset.mem_inter.1 hrm
            exact (happly m hm r (List.mem_toFinset.1 hrc)).1 hrl
          rw [hempty, Finset.union_empty]
          exact hl
      · exact .inr ⟨hpos, hp, hg.trans_le (Nat.le_add_right _ _), hl⟩
    · have hzero : (new.map fun r => Effect.markedFromSp r m.gpSeqNum w.rev.num).countP Effect.isRevokeToRanks = 0 := by
        rw [List.countP_eq_zero]
        intro x hx
        obtain ⟨_, _, rfl⟩ := List.mem_map.1 hx
        exact Bool.false_ne_true
      rw [List.countP_append, hzero, h.posts]
      rfl
    · obtain ⟨q, hq, rfl⟩ := List.mem_map.1 hx
      exact (happly m hm q (hnew q hq).1).2
  | post hg hlt hr hn _ =>
    have hle : w.rev.num ≤ w.rev.posted + 1 := hok.le_posted
    rw [hn, hr]
    refine ⟨?_, ?_, h.ended, h.one, ?_, fits_concat (fun x hx => (h.fits x hx).mono hlt.le) le_rfl⟩
    · rcases h.count with hc | ⟨-, hp, -, -⟩
      · exact .inl hc
      · exact absurd hlt (by rw [hp]; exact Nat.lt_irrefl _)
    · exact fun hf => ⟨(h.final hf).1, rfl⟩
    · rw [List.countP_append, h.posts]
      change w.rev.posted + 1 = w.rev.num
      omega
  | reset hf hrr hr hn _ =>
    obtain ⟨hpos, hp⟩ := h.final hf
    have hone : 1 ≤ w.rev.num := hok.one (hactive hpos)
    rw [hn, hr]
    refine ⟨.inl ⟨rfl, ?_⟩, fun hc => Bool.noConfusion hc, ?_, h.one, ?_, fits_concat h.fits trivial⟩
    · rw [Finset.empty_inter]
      rfl
    · have hend := h.ended
      rw [RevState.ended, if_neg hpos.ne', if_pos hf] at hend
      change w.rev.num + 0 = d
      omega
    · rw [List.countP_append, h.posts]
      rfl

/-- When `revokes.local` has reached `sp_ranks` in a complete group, all local ranks are marked. -/
theorem RevKept.locals_subset (h : RevKept S d w.rev w.notes) (hc : Counts S w)
    (hok : w.face.Ok (Finset.range S.size) S.locals) (hn : w.gp.numLocalEntries = S.size)
    (hl : w.gp.spRanks = w.gp.revokesLocal) : S.locals ⊆ w.face.bits := by
  rcases h.count with ⟨-, hloc⟩ | ⟨hpos, hp, -, -⟩
  · have hcard : S.locals.card ≤ (w.face.bits ∩ S.locals).card := by
      rw [← hc.spRanks_of_full hn, hl]
      exact hloc.le
    rw [← Finset.eq_of_subset_of_card_le Finset.inter_subset_right hcard]
    exact Finset.inter_subset_left
  · exact S.locals_subset_range.trans (hok.closing (hc.active_iff.2 hpos.ne') hp)

/-- When all local ranks are marked already, another revoke is not the last one. -/
theorem RevKept.succ_ne_spRanks (h : RevKept S d w.rev w.notes) (hc : Counts S w) (hn : w.gp.numLocalEntries = S.size)
    (hsub : S.locals ⊆ w.face.bits) : w.gp.revokesLocal + 1 ≠ w.gp.spRanks := by
  have hle : S.locals.card ≤ w.gp.revokesLocal := by
    rcases h.count with ⟨-, hloc⟩ | ⟨-, -, -, hloc⟩
    · refine le_of_le_of_eq ?_ hloc.symm
      exact Finset.card_le_card (Finset.subset_inter hsub Finset.Subset.rfl)
    · exact hloc
  rw [hc.spRanks_of_full hn]
  omega

/-- When the last local rank is marked, all of them are. -/
theorem RevKept.locals_subset_insert (h : RevKept S d w.rev w.notes) (hc : Counts S w)
    (hok : w.face.Ok (Finset.range S.size) S.locals) (hn : w.gp.numLocalEntries = S.size) {r : ℕ} (hr : r ∈ S.locals)
    (hnew : r ∉ w.face.bits) (hl : w.gp.revokesLocal + 1 = w.gp.spRanks) : S.locals ⊆ insert r w.face.bits := by
  rcases h.count with ⟨-, hloc⟩ | ⟨hpos, hp, -, -⟩
  · have hloc : w.gp.revokesLocal = (w.face.bits ∩ S.locals).card := hloc
    have hcard : (insert r w.face.bits ∩ S.locals).card = w.gp.revokesLocal + 1 := by
      rw [Finset.insert_inter_of_mem hr, Finset.card_insert_of_notMem, hloc]
      exact fun hm => hnew (Finset.mem_inter.1 hm).1
    have hle : S.locals.card ≤ (insert r w.face.bits ∩ S.locals).card := by
      rw [hcard, hl, hc.spRanks_of_full hn]
    rw [← Finset.eq_of_subset_of_card_le Finset.inter_subset_right hle]
    exact Finset.inter_subset_left
  · exact absurd (hok.closing (hc.active_iff.2 hpos.ne') hp (S.locals_subset_range hr)) hnew

/-- The final revoke is posted when all ranks are marked. -/
theorem RevKept.all_subset (h : RevKept S d w.rev w.notes) (hc : Counts S w)
    (hok : w.face.Ok (Finset.range S.size) S.locals) (hg : w.gp.revokesGlobal = w.gp.groupSize)
    (hlt : w.face.posted < w.face.num) : Finset.range S.size ⊆ w.face.bits := by
  have hs : w.gp.groupSize = S.size := by
    refine hc.size.resolve_left fun h0 => ?_
    have hidle := hok.idle fun ha => hc.active_iff.1 ha (hc.unknown h0).1
    omega
  rcases h.count with ⟨hglob, -⟩ | ⟨-, hp, -, -⟩
  · have hcard : (Finset.range S.size).card ≤ w.face.bits.card := by
      rw [Finset.card_range, ← hs, ← hg]
      exact hglob.le
    exact (Finset.eq_of_subset_of_card_le hc.revoked_subset hcard).ge
  · exact absurd hlt (by rw [show w.face.posted = w.face.num from hp]; exact Nat.lt_irrefl _)

/-! ### Additions that wait -/

/-- **Additions wait only while a version is being revoked**, until it ends. -/
structure Calm (w : Work) : Prop where
  /-- No reset is to come. -/
  running : w.final = false
  /-- Those put aside wait for one. -/
  waits : w.gp.persistent.pendingGroupAddMsgs = [] ∨ 0 < w.gp.revokesGlobal
  /-- A rank is not added in the callback that marks another. -/
  due : w.rankRevs ≠ [] → w.due = false ∧ (w.adds = [] ∨ 0 < w.gp.revokesGlobal)

theorem Calm.of_eq (h : Calm w) (hf : w'.final = w.final)
    (hp : w'.gp.persistent.pendingGroupAddMsgs = w.gp.persistent.pendingGroupAddMsgs)
    (hg : w'.gp.revokesGlobal = w.gp.revokesGlobal) (hr : w'.rankRevs = w.rankRevs) (hd : w'.due = w.due)
    (ha : w'.adds = w.adds) : Calm w' where
  running := hf.trans h.running
  waits := by rw [hp, hg]; exact h.waits
  due := by rw [hr, hd, ha, hg]; exact h.due

theorem pendingAdds_of_queues {g g' : GroupCache} (hq : g'.queues = g.queues) :
    g'.persistent.pendingGroupAddMsgs = g.persistent.pendingGroupAddMsgs := by
  change g'.queues.pendingGroupAddMsgs = g.queues.pendingGroupAddMsgs
  rw [hq]

theorem Calm.act (h : Calm w) (hc : Counts S w) (ha : Act S.ctx (· = (S.size : ℤ)) T w w') : Calm w' := by
  cases ha with
  | init size hs hl =>
    have h0 : w.gp.revokesGlobal = 0 := congrArg GroupCache.revokesGlobal (hc.dead hl)
    exact h.of_eq rfl rfl h0.symm rfl rfl rfl
  | learn size hs hl =>
    exact h.of_eq rfl (pendingAdds_of_queues (learnGroupSize_queues _ _ _)) (learnGroupSize_revokesGlobal _ _ _) rfl rfl rfl
  | addEntry he hl hL h0 hset =>
    exact h.of_eq rfl (pendingAdds_of_queues (addPeerEntry_queues _ _)) (addPeerEntry_revokesGlobal _ _) rfl rfl rfl
  | sendCache hl h0 hf =>
    obtain ⟨t, ht⟩ := sendGpCacheToHost_gp w.toGpState
    exact h.of_eq rfl (by simp only [ht]) (by simp only [ht]) rfl rfl rfl
  | parkAdd hs ha hl h0 => exact ⟨h.running, .inr h0, fun hr => ⟨(h.due hr).1, .inr h0⟩⟩
  | takeAdds ha =>
    refine ⟨h.running, .inl rfl, fun hr => ⟨(h.due hr).1, h.waits⟩⟩
  | @skipAdd p ps ha hl hL h0 hset =>
    refine ⟨h.running, h.waits, fun hr => ?_⟩
    rcases (h.due hr).2 with hn | hg
    · rw [hn] at ha
      cases ha
    · exact absurd h0 hg.ne'
  | @addLocal p ps ha hl hL h0 hset =>
    refine ⟨h.running, ?_, fun hr => ?_⟩
    · rw [pendingAdds_of_queues (addGroupRank_queues _ _ _), addGroupRank_revokesGlobal]
      exact h.waits
    · rcases (h.due hr).2 with hn | hg
      · rw [hn] at ha
        cases ha
      · exact absurd h0 hg.ne'
  | exchange hdue hl =>
    obtain ⟨t, ht⟩ := @groupCacheExchange_gp S.ctx w.toGpState w.gp.spRanks
    refine ⟨h.running, ?_, fun hr => ⟨rfl, ?_⟩⟩
    · simp only [ht]
      exact h.waits
    · simp only [ht]
      exact (h.due hr).2
  | @queueRankRevoke i is hr hl hn =>
    exact ⟨h.running, h.waits, fun _ => h.due (by rw [hr]; exact List.cons_ne_nil _ _)⟩
  | @markLocal i is hr hl hn =>
    have hpos : 0 < (tellRankRevoke S.ctx w.toGpState i).gp.revokesGlobal := by
      rw [tellRankRevoke_gp]
      exact Nat.succ_pos _
    exact ⟨h.running, .inr hpos, fun _ => ⟨(h.due (by rw [hr]; exact List.cons_ne_nil _ _)).1, .inr hpos⟩⟩
  | accept hr hl hdl hT' =>
    exact h.of_eq rfl (by rw [learnFromRevoke_persistent]) (learnFromRevoke_revokesGlobal _ _) rfl rfl rfl
  | @applyRevoke m ms ht hT' =>
    have hle : w.gp.revokesGlobal ≤ (w.gp.applyRevokeMsg m).1.revokesGlobal := Nat.le_add_right _ _
    exact ⟨h.running, h.waits.imp id fun hg => hg.trans_le hle,
      fun hr => ⟨(h.due hr).1, (h.due hr).2.imp id fun hg => hg.trans_le hle⟩⟩
  | reset hf he hdue =>
    rw [h.running] at hf
    cases hf
  | hostAdd hd' _ | hostPark hd' _ _ | hostTake hd' _ | hostRevoke _ hd' =>
    rw [S.onDpu] at hd'
    cases hd'
  | _ => exact h.of_eq rfl rfl rfl rfl rfl rfl

theorem pendingAdds_doAddGroupRank (ctx : GpCtx) (s : GpState) (c : ℕ) (m : GroupAddMsg) (h0 : ¬ 0 < s.gp.revokesGlobal) :
    (doAddGroupRank ctx s c m).gp.persistent.pendingGroupAddMsgs = s.gp.persistent.pendingGroupAddMsgs := by
  simp only [doAddGroupRank, if_neg h0]
  set g := s.gp.learnGroupSize ctx.hosts m.rankInfo.groupSize with hg
  set g' := if g.isSet (sizeT m.rankInfo.groupRank) then g else g.addGroupRank ctx c m with hg'
  have hq : g'.queues = s.gp.queues := by
    rw [hg']
    split
    · exact learnGroupSize_queues _ _ _
    · rw [addGroupRank_queues]
      exact learnGroupSize_queues _ _ _
  obtain ⟨t, ht⟩ := @groupCacheExchange_gp ctx (handlePendingCacheEntries ctx { s with gp := g' })
    (handlePendingCacheEntries ctx { s with gp := g' }).gp.spRanks
  have hp := congrArg Persistent.pendingGroupAddMsgs (@handlePendingCacheEntries_queues ctx { s with gp := g' })
  rw [ht]
  exact hp.trans (pendingAdds_of_queues hq)

/-- An addition waits while a version is being revoked. -/
theorem waits_doAddGroupRank (ctx : GpCtx) (s : GpState) (c : ℕ) (m : GroupAddMsg) (hl : s.gp.Live)
    (h : s.gp.persistent.pendingGroupAddMsgs = [] ∨ 0 < s.gp.revokesGlobal) :
    (doAddGroupRank ctx s c m).gp.persistent.pendingGroupAddMsgs = [] ∨
      0 < (doAddGroupRank ctx s c m).gp.revokesGlobal ∧ (doAddGroupRank ctx s c m).gp.Live := by
  by_cases h0 : 0 < s.gp.revokesGlobal
  · simp only [doAddGroupRank, if_pos h0]
    exact .inr ⟨h0, hl⟩
  · rw [pendingAdds_doAddGroupRank ctx s c m h0]
    exact .inl (h.resolve_right h0)

/-- **When a version has ended no addition waits**, unless the next one is being revoked. -/
theorem waits_handlePendingGroupCacheAddMsgs {ctx : GpCtx} (hu : ctx.gpUid ≠ INT_MAX) (s : GpState) :
    (handlePendingGroupCacheAddMsgs ctx s).gp.persistent.pendingGroupAddMsgs = [] ∨
      0 < (handlePendingGroupCacheAddMsgs ctx s).gp.revokesGlobal := by
  have key : ∀ (ps : List PendingGroupAdd) (s : GpState),
      (s.gp.persistent.pendingGroupAddMsgs = [] ∨ 0 < s.gp.revokesGlobal ∧ s.gp.Live) →
      let s' := ps.foldl (fun s p => doAddGroupRank ctx
        { s with gp := getGroupCacheInternal ctx.gpUid (some s.gp) p.data.rankInfo.groupSize } p.clientId p.data) s
      s'.gp.persistent.pendingGroupAddMsgs = [] ∨ 0 < s'.gp.revokesGlobal ∧ s'.gp.Live := by
    intro ps
    induction ps with
    | nil => exact fun s h => h
    | cons p ps ih =>
      intro s h
      refine ih _ (waits_doAddGroupRank ctx _ _ _ (live_lookup hu _ _) ?_)
      rcases h with h | ⟨hpos, hl⟩
      · exact .inl ((pendingAdds_of_queues (getGroupCacheInternal_queues _ _ _)).trans h)
      · exact .inr (by rw [getGroupCacheInternal_of_live hl]; exact hpos)
  exact (key _ _ (.inl rfl)).imp id And.left

end DpuOffload
