import DpuOffload.Protocol.LosslessActs

/-!
# Nothing is lost in a run

A callback leaves nothing undone that it could do (`GroupCache.Settled`): what it puts aside waits
for entries or for a rank, and the final revoke is posted when it is due. With that, what the
actions of a callback keep (`Crew.Tends`) holds between two callbacks, and every step of the SPs
keeps it (`Crew.Sound.step`).

A rank leaves a version when its SP holds all entries of it (`Crew.Waits`). A revoke that comes
earlier is put aside, where only the clean-up finds it.
-/

namespace DpuOffload

open Relation Transition Versions

/-! ### What a callback leaves undone -/

/-- **What waits between two callbacks.** -/
structure GroupCache.Settled (g : GroupCache) : Prop where
  /-- Revokes wait for all entries and the local ranks. -/
  revs : g.persistent.pendingGroupRevokeMsgsFromSps = [] ∨ ¬ g.AllLocal
  /-- The final revoke waits for nothing. -/
  final : g.finalRevokeDue = false
  /-- Entries wait for the end of the version, or for a local rank to begin the next one. -/
  ents : g.parked = [] ∨ 0 < g.revokesGlobal ∨ g.numLocalEntries = 0 ∧ 0 < g.persistent.num

variable {ctx : GpCtx} {g : GroupCache}

theorem finalRevokeDue_eq_false : g.finalRevokeDue = false ↔
    (g.revokesGlobal = g.groupSize → g.persistent.num ≤ g.persistent.revokeSendToHostPosted) := by
  simp [GroupCache.finalRevokeDue]

theorem settled_new : newGroupCache.Settled :=
  ⟨.inl rfl, rfl, .inl rfl⟩

/-- A lookup leaves the counters. -/
theorem lookup_counters (hd : ¬ g.Live → g.body = newGroupCache) (u size : ℤ) :
    (getGroupCacheInternal u (some g) size).tally = g.tally ∧
      (getGroupCacheInternal u (some g) size).revokesGlobal = g.revokesGlobal ∧
      (getGroupCacheInternal u (some g) size).persistent = g.persistent := by
  by_cases hl : g.Live
  · rw [getGroupCacheInternal_of_live hl]
    exact ⟨rfl, rfl, rfl⟩
  · have hg : getGroupCacheInternal u (some g) size = { initGroupCache g (sizeT size) with groupUid := u } :=
      if_pos (not_not.1 hl)
    rw [hg]
    exact ⟨(congrArg GroupCache.tally (hd hl)).symm, (congrArg GroupCache.revokesGlobal (hd hl)).symm, rfl⟩

/-- What waits depends on the counters and the queues. -/
theorem GroupCache.Settled.of_eq {g' : GroupCache} (h : g.Settled) (ht : g'.tally = g.tally)
    (hg : g'.revokesGlobal = g.revokesGlobal) (hp : g'.persistent = g.persistent) : g'.Settled := by
  obtain ⟨hs, hn, hsp, hl⟩ := Tally.mk.inj ht
  have hq : g'.parked = g.parked := by
    simp only [GroupCache.parked, GroupCache.queues, hp]
  refine ⟨?_, ?_, ?_⟩
  · rw [GroupCache.AllLocal, hp, hs, hn, hsp, hl]
    exact h.revs
  · rw [GroupCache.finalRevokeDue, hg, hs, hp]
    exact h.final
  · rw [hq, hg, hn, hp]
    exact h.ents

/-- The final revoke is posted when it is due. -/
theorem settled_post (s : GpState) (P : Prop) [Decidable P]
    (hr : s.gp.persistent.pendingGroupRevokeMsgsFromSps = [] ∨ ¬ s.gp.AllLocal)
    (he : s.gp.parked = [] ∨ 0 < s.gp.revokesGlobal ∨ s.gp.numLocalEntries = 0 ∧ 0 < s.gp.persistent.num)
    (hP : ¬ P → s.gp.finalRevokeDue = false) : (if P then sendRevokeGroupToRanks s else s).gp.Settled := by
  split
  · exact ⟨hr, finalRevokeDue_eq_false.2 fun _ => le_rfl, he⟩
  · exact ⟨hr, hP ‹_›, he⟩

/-- Taking up the messages of SPs changes the marks and their number only. -/
theorem handlePending_gp (s : GpState) : ∃ b, (handlePendingGroupRevokeMsgsFromSps s).1.gp = { s.gp with
    persistent := { s.gp.persistent with pendingGroupRevokeMsgsFromSps := [] }
    revokesRanks := b
    revokesGlobal := s.gp.revokesGlobal + (handlePendingGroupRevokeMsgsFromSps s).2 } := by
  have key : ∀ (ms : List GroupRevokeMsgFromSp) (acc : GpState × ℕ), ∃ b k,
      (ms.foldl handlePendingRevokeMsg acc).2 = acc.2 + k ∧ (ms.foldl handlePendingRevokeMsg acc).1.gp =
        { acc.1.gp with revokesRanks := b, revokesGlobal := acc.1.gp.revokesGlobal + k } := by
    intro ms
    induction ms with
    | nil => exact fun acc => ⟨acc.1.gp.revokesRanks, 0, rfl, rfl⟩
    | cons m ms ih =>
      intro acc
      obtain ⟨b, k, hk, hgp⟩ := ih (handlePendingRevokeMsg acc m)
      refine ⟨b, _, hk.trans (Nat.add_assoc _ _ _), ?_⟩
      rw [List.foldl_cons, hgp]
      simp only [handlePendingRevokeMsg, GroupCache.applyRevokeMsg, Nat.add_assoc]
  obtain ⟨b, k, hk, hgp⟩ := key s.gp.persistent.pendingGroupRevokeMsgsFromSps
    ({ s with gp := { s.gp with persistent := { s.gp.persistent with pendingGroupRevokeMsgsFromSps := [] } } }, 0)
  refine ⟨b, ?_⟩
  rw [handlePendingGroupRevokeMsgsFromSps, hk, hgp, Nat.zero_add]

/-- The cache has been sent to the local ranks. -/
theorem GroupCache.Settled.cacheSent (h : g.Settled) : (groupCacheSendToLocalRanksCb g).gp.Settled := by
  obtain ⟨b, hb⟩ := handlePending_gp ⟨{ g with persistent := { g.persistent with sentToHost := g.persistent.num } }, []⟩
  refine settled_post _ _ (.inl (by rw [hb])) ?_ fun hP => ?_
  · rw [hb]
    exact h.ents.imp id (Or.imp (fun hpos => hpos.trans_le (Nat.le_add_right _ _)) id)
  · rw [finalRevokeDue_eq_false]
    intro heq
    by_contra hlt
    have hdue := finalRevokeDue_eq_false.not.2 fun hc => hlt (hc heq)
    have hzero := Nat.eq_zero_of_not_pos fun hpos => hP ⟨hpos, Bool.of_not_eq_false hdue⟩
    rw [hb, hzero] at heq hlt
    exact hlt ((finalRevokeDue_eq_false (g := g)).1 h.final heq)

/-- A local rank leaves a complete group. -/
theorem settled_handleRankRevoke (info : RankInfo) (hfull : g.groupSize = g.numLocalEntries) :
    (handleRankRevoke ctx g info).gp.Settled := by
  simp only [handleRankRevoke, if_neg (not_not.2 hfull)]
  refine settled_post _ _ ?_ (.inr (.inl ?_)) fun hP => Bool.of_not_eq_true hP
  · split
    · obtain ⟨b, hb⟩ := handlePending_gp (broadcastGroupCacheRevoke ctx
        ⟨g.markLocalRank (sizeT info.groupRank),
          [.markedFromRank (sizeT info.groupRank) info.groupSeqNum g.persistent.num]⟩)
      exact .inl (by rw [hb])
    · rename_i hne
      exact .inr fun hall => hne hall.2.2.symm
  · split
    · obtain ⟨b, hb⟩ := handlePending_gp (broadcastGroupCacheRevoke ctx
        ⟨g.markLocalRank (sizeT info.groupRank),
          [.markedFromRank (sizeT info.groupRank) info.groupSeqNum g.persistent.num]⟩)
      rw [hb, broadcastGroupCacheRevoke_gp]
      exact Nat.lt_of_lt_of_le (Nat.succ_pos g.revokesGlobal) (Nat.le_add_right _ _)
    · exact Nat.succ_pos g.revokesGlobal

/-- A message of an SP comes. -/
theorem GroupCache.Settled.spRevoke (h : g.Settled) (hi : g.initialized = true)
    (h0 : g.groupSize = 0 → g.numLocalEntries = 0 ∧ g.persistent.num ≤ g.persistent.revokeSendToHostPosted)
    {m : GroupRevokeMsgFromSp} : (handleSpRevoke g m).gp.Settled := by
  simp only [handleSpRevoke]
  split
  · rename_i hdel
    refine ⟨.inr fun hall => ?_, h.final, h.ents⟩
    have hnot : g.delaysSpRevoke = false := by
      simp only [GroupCache.delaysSpRevoke, hi, Bool.not_true, Bool.false_or, Bool.or_eq_false_iff, bne_eq_false_iff_eq]
      exact hall.2
    rw [hnot] at hdel
    cases hdel
  · rename_i hdel
    have hready : g.groupSize = g.numLocalEntries ∧ g.spRanks = g.revokesLocal := by
      simpa [GroupCache.delaysSpRevoke, hi] using hdel
    by_cases hz : g.groupSize = 0
    · obtain ⟨hn, hp⟩ := h0 hz
      have hg : g.learnFromRevoke m =
          { g with groupSize := m.groupSize, revokesRanks := some (bitsetCreate g.revokesRanks m.groupSize) } :=
        if_pos hz
      rw [hg]
      refine settled_post _ _ (.inr fun hall => ?_) ?_ fun _ => finalRevokeDue_eq_false.2 fun _ => hp
      · exact absurd (hall.1.trans_eq (hall.2.1.trans hn)) (Nat.lt_irrefl 0)
      · exact h.ents.imp id (Or.imp (fun hpos => hpos.trans_le (Nat.le_add_right _ _)) id)
    · have hg : g.learnFromRevoke m = g := if_neg hz
      rw [hg]
      refine settled_post _ _ (.inl ?_) ?_ fun hP => ?_
      · exact h.revs.resolve_right (not_not.2 ⟨Nat.pos_of_ne_zero hz, hready⟩)
      · exact h.ents.imp id (Or.imp (fun hpos => hpos.trans_le (Nat.le_add_right _ _)) id)
      · by_contra hdue
        have hnew : (g.applyRevokeMsg m).2 = [] := not_not.1 fun hne => hP ⟨hne, Bool.of_not_eq_false hdue⟩
        refine hdue (finalRevokeDue_eq_false.2 fun heq => (finalRevokeDue_eq_false (g := g)).1 h.final ?_)
        have hglob : (g.applyRevokeMsg m).1.revokesGlobal = g.revokesGlobal + (g.applyRevokeMsg m).2.length := rfl
        rw [hnew, List.length_nil, Nat.add_zero] at hglob
        exact hglob.symm.trans heq

/-- Adding entries marks no rank. -/
theorem revokesGlobal_handlePeerCacheEntriesRecv (hu : ctx.gpUid ≠ INT_MAX) (s : GpState) (batch : List PeerCacheEntry)
    (h0 : s.gp.revokesGlobal = 0) : (handlePeerCacheEntriesRecv ctx s batch).gp.revokesGlobal = 0 :=
  (@handlePeerCacheEntriesRecv_acts ctx (fun _ => True) (fun _ => True) hu batch [] trivial
    { Work.start s with ents := batch } (List.append_nil batch).symm h0).2.2

/-- Nor does taking up those put aside, -/
theorem revokesGlobal_handlePendingCacheEntries (hu : ctx.gpUid ≠ INT_MAX) (s : GpState) (h0 : s.gp.revokesGlobal = 0) :
    (handlePendingCacheEntries ctx s).gp.revokesGlobal = 0 := by
  have key : ∀ (ps : List PendingRecvCacheEntry) (s : GpState), s.gp.revokesGlobal = 0 →
      (ps.foldl (fun s p => handlePeerCacheEntriesRecv ctx s p.payload) s).gp.revokesGlobal = 0 := by
    intro ps
    induction ps with
    | nil => exact fun s h => h
    | cons p ps ih => exact fun s h => ih _ (revokesGlobal_handlePeerCacheEntriesRecv hu s p.payload h)
  exact key _ _ h0

theorem parked_handlePendingCacheEntries (s : GpState) : (handlePendingCacheEntries ctx s).gp.parked = [] := by
  simp [GroupCache.parked]

/-- nor an addition, after which no entry is left aside. -/
theorem open_doAddGroupRank (hu : ctx.gpUid ≠ INT_MAX) (s : GpState) (c : ℕ) (m : GroupAddMsg)
    (h0 : s.gp.revokesGlobal = 0) :
    (doAddGroupRank ctx s c m).gp.revokesGlobal = 0 ∧ (doAddGroupRank ctx s c m).gp.parked = [] := by
  simp only [doAddGroupRank, if_neg (Nat.not_lt.2 h0.le)]
  set g := s.gp.learnGroupSize ctx.hosts m.rankInfo.groupSize with hg
  set g' := if g.isSet (sizeT m.rankInfo.groupRank) then g else g.addGroupRank ctx c m with hg'
  have h0' : g'.revokesGlobal = 0 := by
    rw [hg']
    split
    · rw [hg, learnGroupSize_revokesGlobal, h0]
    · rw [addGroupRank_revokesGlobal, hg, learnGroupSize_revokesGlobal, h0]
  obtain ⟨t, ht⟩ := @groupCacheExchange_gp ctx (handlePendingCacheEntries ctx { s with gp := g' })
    (handlePendingCacheEntries ctx { s with gp := g' }).gp.spRanks
  rw [ht]
  exact ⟨revokesGlobal_handlePendingCacheEntries hu { s with gp := g' } h0', parked_handlePendingCacheEntries _⟩

/-- A version ends. -/
theorem open_revokeSendToHostCb (hu : ctx.gpUid ≠ INT_MAX) (g : GroupCache) :
    (revokeSendToHostCb ctx g).gp.revokesGlobal = 0 ∧ (revokeSendToHostCb ctx g).gp.parked = [] := by
  have key : ∀ (ps : List PendingGroupAdd) (s : GpState), s.gp.revokesGlobal = 0 ∧ s.gp.parked = [] →
      let s' := ps.foldl (fun s p => doAddGroupRank ctx
        { s with gp := getGroupCacheInternal ctx.gpUid (some s.gp) p.data.rankInfo.groupSize } p.clientId p.data) s
      s'.gp.revokesGlobal = 0 ∧ s'.gp.parked = [] := by
    intro ps
    induction ps with
    | nil => exact fun s h => h
    | cons p ps ih =>
      refine fun s h => ih _ (open_doAddGroupRank hu _ _ _ ?_)
      rw [getGroupCacheInternal_revokesGlobal, h.1, ite_self]
  refine key _ _ ⟨?_, ?_⟩
  · exact revokesGlobal_handlePendingCacheEntries hu _ rfl
  · exact parked_handlePendingCacheEntries _

/-- No rank is marked, and what is put aside waits for a local rank. -/
def GroupCache.Open (g : GroupCache) : Prop :=
  g.revokesGlobal = 0 ∧ (g.parked = [] ∨ g.numLocalEntries = 0 ∧ 0 < g.persistent.num)

/-- A rank is added. -/
theorem GroupCache.Settled.addGroupRank (h : g.Settled) (hu : ctx.gpUid ≠ INT_MAX) (out : List Effect) (c : ℕ)
    (m : GroupAddMsg) :
    (doAddGroupRank ctx ⟨g, out⟩ c m).gp.Settled ∨ (doAddGroupRank ctx ⟨g, out⟩ c m).gp.Open := by
  by_cases h0 : 0 < g.revokesGlobal
  · refine .inl ?_
    simp only [doAddGroupRank, if_pos h0]
    exact ⟨h.revs, h.final, .inr (.inl h0)⟩
  · obtain ⟨hg, hp⟩ := open_doAddGroupRank hu ⟨g, out⟩ c m (Nat.eq_zero_of_not_pos h0)
    exact .inr ⟨hg, .inl hp⟩

/-- Can entries of version `k` be added, or must they wait for a local rank? -/
theorem isGroupReady_next {k : ℕ} (hk : k = if g.numLocalEntries = 0 then g.persistent.num + 1 else g.persistent.num) :
    isGroupReady g k = true ∧ (g.numLocalEntries = 0 → g.persistent.num = 0) ∨
      isGroupReady g k = false ∧ g.numLocalEntries = 0 ∧ 0 < g.persistent.num := by
  by_cases hn : g.numLocalEntries = 0
  · rw [if_pos hn] at hk
    by_cases hpos : 0 < g.persistent.num
    · refine .inr ⟨?_, hn, hpos⟩
      rw [isGroupReady, if_pos hpos]
      split
      · rfl
      · rw [if_pos (by omega)]
    · exact .inl ⟨by rw [isGroupReady, if_neg hpos], fun _ => Nat.eq_zero_of_not_pos hpos⟩
  · rw [if_neg hn] at hk
    subst hk
    refine .inl ⟨?_, fun h0 => absurd h0 hn⟩
    unfold isGroupReady
    split
    · rw [if_neg (fun hc => hn hc.2), if_neg (not_not.2 rfl)]
    · rfl

/-- Entries come, of the version that can be added. -/
theorem GroupCache.Settled.entries (h : g.Settled) (hu : ctx.gpUid ≠ INT_MAX) (sp : ℕ) (batch : List PeerCacheEntry)
    (hseq : g.revokesGlobal = 0 →
      batchSeqNum batch = if g.numLocalEntries = 0 then g.persistent.num + 1 else g.persistent.num) {s : GpState}
    (hs : s = if 0 < g.revokesGlobal ∨ !isGroupReady g (batchSeqNum batch) then
        { gp := { g with persistent := { g.persistent with
            pendingRecvCacheEntries := g.persistent.pendingRecvCacheEntries ++ [⟨sp, batch⟩] } }
          out := [] }
      else handlePeerCacheEntriesRecv ctx ⟨g, []⟩ batch) : s.gp.Settled ∨ s.gp.Open := by
  by_cases h0 : 0 < g.revokesGlobal
  · rw [if_pos (.inl h0)] at hs
    rw [hs]
    exact .inl ⟨h.revs, h.final, .inr (.inl h0)⟩
  have hz : g.revokesGlobal = 0 := Nat.eq_zero_of_not_pos h0
  rcases isGroupReady_next (hseq hz) with ⟨hready, hfirst⟩ | ⟨hwait, hn, hpos⟩
  · have hc : ¬ (0 < g.revokesGlobal ∨ (!isGroupReady g (batchSeqNum batch)) = true) := by
      rw [hready]
      exact fun hc => hc.elim h0 Bool.false_ne_true
    rw [if_neg hc] at hs
    refine .inr ⟨?_, .inl ?_⟩
    · rw [hs]
      exact revokesGlobal_handlePeerCacheEntriesRecv hu _ _ hz
    · have hq : s.gp.parked = g.parked := by
        rw [hs, GroupCache.parked, handlePeerCacheEntriesRecv_queues]
        rfl
      rw [hq]
      rcases h.ents with hp | hp | ⟨hn, hpos⟩
      · exact hp
      · exact absurd hp h0
      · exact absurd (hfirst hn) hpos.ne'
  · rw [if_pos (.inr (by rw [hwait]; rfl))] at hs
    rw [hs]
    exact .inr ⟨hz, .inr ⟨hn, hpos⟩⟩

namespace Crew

variable {C : Crew} {hin : C.Manned} {j : ℕ} {v : View} {hv : C.Tells v} {ev : Event} {e e' : Engine}

theorem gp_of_step (hs : e.step ctx ev = some e') : e'.gp = (handle ctx e.slot ev).1.getD newGroupCache := by
  rw [Engine.gp, (Engine.step_eq_some hs).2.1]

/-- While no rank is marked neither revokes nor the final revoke are due. -/
theorem SpKept.settled (hk : C.SpKept j e) (hin : C.Manned) (hj : j < C.num) (hv : C.Tells v)
    (hok : e.work.face.Ok (Finset.range (C.site j v hv).size) (C.site j v hv).locals) (h : e.gp.Open) :
    e.gp.Settled := by
  have hc := (hk.base v hv).counts
  have hbits : e.work.face.bits = ∅ := (hk.revs v hv).revoked_of_zero h.1
  refine ⟨.inr fun hall => ?_, finalRevokeDue_eq_false.2 fun heq => ?_, h.2.imp id .inr⟩
  · have hs : e.gp.groupSize = C.size := hc.size.resolve_left hall.1.ne'
    have hsub := (hk.revs v hv).locals_subset hc hok (hall.2.1.symm.trans hs) hall.2.2
    obtain ⟨q, hq, hqj⟩ := hin j hj
    rw [hbits, site_locals] at hsub
    exact Finset.notMem_empty q (hsub (mem_locals.2 ⟨hq, hqj⟩))
  · have hn : e.gp.numLocalEntries = 0 := (hc.unknown (heq.symm.trans h.1)).1
    exact (hok.idle fun ha => hc.active_iff.1 ha hn).ge

/-- **Every callback leaves nothing undone.** -/
theorem settled_step (hin : C.Manned) (hj : j < C.num) (hv : C.Tells v) (hk : C.SpKept j e) (hS : e.gp.Settled)
    (hok : e.work.face.Ok (Finset.range (C.site j v hv).size) (C.site j v hv).locals) (hev : (C.msgs j).Ok ev)
    (hs : e.step (C.ctx j v) ev = some e') (hk' : C.SpKept j e')
    (hok' : e'.work.face.Ok (Finset.range (C.site j v hv).size) (C.site j v hv).locals)
    (hfull : ∀ x, ev = .revokeFromRank x → e.gp.full = true ∧ e.gp.groupSize = C.size)
    (hnext : ∀ sp batch, ev = .peerCacheEntries sp batch → e.gp.revokesGlobal = 0 →
      batchSeqNum batch = e.work.face.next)
    (hslot : ev = .revokeSent → e.slot ≠ none) : e'.gp.Settled := by
  have hgp := gp_of_step hs
  have hu : (C.ctx j v).gpUid ≠ INT_MAX := by
    rw [show (C.ctx j v).gpUid = C.uid from C.gpUid j]
    exact C.uid_ne
  have hc := (hk.base v hv).counts
  have hcount := @lookup_counters e.gp hc.dead (C.ctx j v).gpUid
  have hlookup : ∀ size, (getGroupCacheInternal (C.ctx j v).gpUid (some e.gp) size).Settled := fun size =>
    hS.of_eq (hcount size).1 (hcount size).2.1 (hcount size).2.2
  have hd : (C.ctx j v).onDpu = true := C.onDpu j
  have hopen : e'.gp.Settled ∨ e'.gp.Open → e'.gp.Settled := fun h => h.elim id (hk'.settled hin hj hv hok')
  cases ev with
  | addGroupRank c m =>
    simp only [handle, doAddGroupRankRecvCb] at hgp
    split at hgp
    · rw [hgp]
      exact hS
    · rw [getGroupCacheInternal_getD] at hgp
      refine hopen ?_
      rw [hgp]
      exact (hlookup _).addGroupRank hu _ _ _
  | peerCacheEntries sp batch =>
    rw [handle, peerCacheEntriesRecvCb, getGroupCacheInternal_getD] at hgp
    refine hopen ?_
    rw [hgp]
    refine (hlookup (batchGroupSize batch)).entries hu sp batch (fun h0 => ?_) rfl
    obtain ⟨ht, hg, hp⟩ := hcount (batchGroupSize batch)
    obtain ⟨-, hn, -, -⟩ := Tally.mk.inj ht
    rw [hp, hn]
    exact (hnext sp batch rfl (hg ▸ h0)).trans hc.next_eq
  | revokeFromRank x =>
    simp only [handle, handleRevokeGroupRankThroughRankInfo] at hgp
    split at hgp
    · rw [hgp]
      exact hS
    · obtain ⟨hf, hsize⟩ := hfull x rfl
      have hl : e.gp.Live := hc.live_of_groupSize (hsize ▸ C.pos.ne')
      rw [getGroupCacheInternal_getD, show e.slot.getD newGroupCache = e.gp from rfl,
        getGroupCacheInternal_of_live hl] at hgp
      rw [hgp]
      exact settled_handleRankRevoke x (beq_iff_eq.1 hf)
  | revokeFromSp m =>
    rw [handle, handleRevokeGroupRankThroughListRanks, getGroupCacheInternal_getD, if_pos hd] at hgp
    rw [hgp]
    obtain ⟨ht, -, hp⟩ := hcount m.groupSize
    refine (hlookup m.groupSize).spRevoke ?_ fun h0 => ?_
    · by_cases hl : e.gp.Live
      · rw [getGroupCacheInternal_of_live hl]
        exact (hc.live hl).1
      · rw [getGroupCacheInternal, if_pos (not_not.1 hl)]
        rfl
    · have hz : e.gp.groupSize = 0 := (congrArg Tally.groupSize ht).symm.trans h0
      have hn : e.gp.numLocalEntries = 0 := (hc.unknown hz).1
      refine ⟨(congrArg Tally.numLocalEntries ht).trans hn, ?_⟩
      rw [hp]
      exact (hok.idle fun ha => hc.active_iff.1 ha hn).ge
  | cacheSent =>
    cases hslot' : e.slot with
    | none =>
      rw [hslot'] at hgp
      rw [hgp]
      exact settled_new
    | some g =>
      rw [hslot'] at hgp
      have hg : e.gp = g := by rw [Engine.gp, hslot']; rfl
      rw [hgp]
      exact (hg ▸ hS).cacheSent
  | revokeSent =>
    obtain ⟨g, hg⟩ := Option.ne_none_iff_exists'.1 (hslot rfl)
    rw [hg] at hgp
    obtain ⟨h0, hp⟩ := open_revokeSendToHostCb hu g
    refine hopen (.inr ?_)
    rw [hgp]
    exact ⟨h0, .inl hp⟩
  | requestAdd _ | requestRevoke _ => exact hev.elim

/-! ### Runs -/

variable {s s' : Net} {i : ℕ}

/-- Are the SPs connected to each other? -/
def Connected (C : Crew) : Prop := ∀ i < C.num, (C.sys i).allServiceProcsConnected = true

/-- A rank leaves a version when its SP holds all entries of it. -/
def Waits (_ : Crew) (s : Net) : NetLabel → Prop
  | .own i _ (.revokeFromRank x) => (s.sp i).gp.full = true ∧ (s.sp i).gp.persistent.num = x.groupSeqNum
  | _ => True

/-- **What the SPs keep, and what they do not lose.** -/
structure Sound (C : Crew) (hin : C.Manned) (s : Net) : Prop where
  /-- What they keep. -/
  kept : C.Kept hin s
  /-- What was sent is on its way or has come. -/
  lossless : Lossless (C.group hin) (C.snap s.view s.got (C.joined s) (C.left s))
  /-- What waits. -/
  settled : ∀ i < C.num, (s.sp i).gp.Settled

/-- **A callback of SP `j`**, and what it starts with. -/
structure Call (C : Crew) (hin : C.Manned) (s : Net) (j : ℕ) (v : View) (hv : C.Tells v) (ev : Event) (e : Engine) :
    Prop where
  /-- It is an SP. -/
  lt : j < C.num
  /-- The callback. -/
  step : (s.sp j).step (C.ctx j v) ev = some e
  /-- The event is as it should be. -/
  ok : (C.msgs j).Ok ev
  /-- A rank leaves a complete group, at its version, -/
  full : ∀ x, ev = .revokeFromRank x → (s.sp j).gp.groupSize = C.size ∧ (s.sp j).gp.full = true ∧
    (s.sp j).gp.persistent.num = C.left s x.rank + 1
  /-- which it has joined. -/
  leave : ∀ x, ev = .revokeFromRank x → C.left s x.rank + 1 ≤ C.joined s x.rank
  /-- Messages of SPs are applied when they may be. -/
  applies : ev.Applies (C.ctx j v) (C.site j v hv).TurnTally (s.sp j).gp
  /-- The versions are in order, -/
  inv : Inv (C.group hin)
    (C.snap (Function.update s.view j ((s.view j).take ev)) s.got (C.joined (s.put j e)) (C.left s))
  /-- and nothing is lost. -/
  lossless : Lossless (C.group hin)
    (C.snap (Function.update s.view j ((s.view j).take ev)) s.got (C.joined (s.put j e)) (C.left s))

theorem enter_ents (ctx : GpCtx) (t : GpState) : (ev.enter ctx t).ents = [] := by
  cases ev with
  | revokeFromSp m =>
    rw [Event.enter]
    split <;> rfl
  | addGroupRank _ _ | peerCacheEntries _ _ | revokeFromRank _ | cacheSent | revokeSent | requestAdd _
  | requestRevoke _ => rfl

/-- **A callback starts with nothing lost.** -/
theorem tends_enter (c : C.Call hin s j v hv ev e) (hset : (s.sp j).gp.Settled) :
    C.Tends hin j (C.scene s j e) (ev.enter (C.ctx j v) ⟨(s.sp j).gp, (s.sp j).log⟩) := by
  have hd : (C.ctx j v).onDpu = true := C.onDpu j
  obtain ⟨-, -, -, hseen⟩ := Engine.step_eq_some c.step
  have hvis : (ev.enter (C.ctx j v) ⟨(s.sp j).gp, (s.sp j).log⟩).vis j = (s.view j).take ev := enter_vis hd ev _ j
  have hgp : (ev.enter (C.ctx j v) ⟨(s.sp j).gp, (s.sp j).log⟩).gp = (s.sp j).gp := enter_gp _ _
  refine ⟨?_, .inl (enter_ents _ _), fun x hx => ?_⟩
  · rw [during, leaving_enter hseen, hvis]
    exact c.lossless
  · obtain rfl := enter_rankRevs hd _ hx
    obtain ⟨hsize, hfull, hnum⟩ := c.full x rfl
    have hn : (s.sp j).gp.numLocalEntries = C.size := (beq_iff_eq.1 hfull).symm.trans hsize
    have hloc := (mem_locals.1 c.ok.2).2
    refine ⟨hn, ?_, fun r hr => ?_, ⟨rfl, rfl, ?_⟩⟩
    · refine (left_put hseen x.rank).trans ?_
      rw [if_pos ⟨hloc, beq_self_eq_true _⟩]
      exact hnum.symm
    · refine (left_put hseen r).trans ?_
      rw [if_neg fun hc => hr (beq_iff_eq.1 hc.2).symm, Nat.add_zero]
      rfl
    · rcases hset.ents with h0 | hpos | ⟨h0, -⟩
      · exact .inl (congrArg (List.flatMap _) h0)
      · exact .inr hpos.ne'
      · exact absurd (hn.symm.trans h0) C.pos.ne'

/-- The entries of a message are of the version that can be added. -/
theorem Call.next (c : C.Call hin s j v hv ev e) {sp : ℕ} {batch : List PeerCacheEntry}
    (hev : ev = .peerCacheEntries sp batch)
    (hb : (s.sp j).work.face.bits = ∅) : batchSeqNum batch = (s.sp j).work.face.next := by
  subst hev
  obtain ⟨x, xs, rfl⟩ := List.exists_cons_of_ne_nil c.ok.1
  have hsp : (C.snap (Function.update s.view j ((s.view j).take (.peerCacheEntries sp (x :: xs)))) s.got
      (C.joined (s.put j e)) (C.left s)).sp j = (s.sp j).work.face := by
    change (Function.update s.view j _ j).face = _
    rw [Function.update_self]
    rfl
  have hnext := c.inv.next_of_entTok (r := x.tok.1) (v := x.tok.2) c.lt (by rw [hsp]; exact hb) ?_
  · rw [hsp] at hnext
    exact hnext
  · refine Multiset.mem_add.2 (.inl ?_)
    rw [Function.update_self]
    exact Multiset.mem_add.2 (.inl (Multiset.mem_coe.2 List.mem_cons_self))

/-- **A callback keeps what the SPs keep, and loses nothing.** -/
theorem Call.sound (c : C.Call hin s j v hv ev e) (hconn : C.Connected) (hsp : ∀ i < C.num, C.SpKept i (s.sp i))
    (hgot : ∀ i k, s.got i k ≤ ((s.view i).sent k).length) (hset : ∀ i < C.num, (s.sp i).gp.Settled) :
    C.Sound hin (s.put j e) := by
  have hj := c.lt
  have hk := hsp j hj
  have hd : (C.ctx j v).onDpu = true := C.onDpu j
  have hkept := Kept.put hsp hgot hj hv c.step c.ok (fun x hx => (c.full x hx).1) c.leave c.applies c.inv
  obtain ⟨-, -, -, hseen⟩ := Engine.step_eq_some c.step
  have hX : ∀ r, (C.scene s j e).before r ≤ (C.scene s j e).left r := fun r =>
    (Nat.le_add_right _ _).trans_eq (left_put hseen r).symm
  have hmid : Mid C hin j (C.site j v hv) (C.scene s j e) _ := mid_enter hj hk (hgot j) c.step c.ok c.leave c.inv
  have htends := tends_enter c (hset j hj)
  have hslot : ev = .revokeSent → (s.sp j).slot ≠ none := by
    rintro rfl h0
    have hpos := hmid.revs.final rfl
    have hn : (s.sp j).gp.numLocalEntries = 0 := by rw [Engine.gp, h0]; rfl
    exact absurd hn hpos.1.ne'
  obtain ⟨hb, hend, hlost⟩ := Site.step_keeps (S := C.site j v hv)
    (J := fun w => Mid C hin j (C.site j v hv) (C.scene s j e) w ∧ C.Tends hin j (C.scene s j e) w) msgs_le_site
    (fun t ht => ht.1) (fun w w' hb hJ ha => ⟨hJ.1.act hj hX hb ha, hJ.2.act hj hX (hconn j hj) hb hJ.1 ha⟩) c.step
    (hk.base v hv) c.ok (fun x hx => (c.full x hx).1) c.applies
    (by
      rintro (rfl | rfl) h0
      · exact ⟨hmid, htends⟩
      · exact absurd h0 (hslot rfl))
    ⟨hmid, htends⟩
  refine ⟨hkept, ?_, fun i hi => ?_⟩
  · rw [view_put]
    exact hlost.lossless
  · by_cases hij : i = j
    · subst hij
      have hkept' := hkept.sp i hi
      rw [Net.put_sp_self] at hkept' ⊢
      have hface : (s.sp i).work.face.Ok (Finset.range (C.site i v hv).size) (C.site i v hv).locals := by
        rw [← show (ev.enter (C.ctx i v) ⟨(s.sp i).gp, (s.sp i).log⟩).face = (s.sp i).work.face from
          congrArg Vis.face (enter_vis hd ev _ i)]
        exact hmid.ok hi
      refine settled_step hin hi hv hk (hset i hi) hface c.ok c.step hkept' (hend.ok hi)
        (fun x hx => ⟨(c.full x hx).2.1, (c.full x hx).1⟩) (fun sp batch hev h0 => c.next hev ?_) hslot
      exact (hk.revs v hv).revoked_of_zero h0
    · rw [Net.put_sp_of_ne hij]
      exact hset i hi

/-- An event that brings no message. -/
theorem Sound.call_own (h : C.Sound hin s) (hj : j < C.num) (hs : (s.sp j).step (C.ctx j v) ev = some e)
    (hok : (C.msgs j).Ok ev) (he : ev.ents = 0) (ha : ev.adds = 0) (hm : ev.msgs = 0)
    (hadd : ∀ r, ev.addsRank r = false)
    (hfull : ∀ x, ev = .revokeFromRank x → (s.sp j).gp.groupSize = C.size ∧ (s.sp j).gp.full = true ∧
      (s.sp j).gp.persistent.num = C.left s x.rank + 1)
    (hleave : ∀ x, ev = .revokeFromRank x → C.left s x.rank + 1 ≤ C.joined s x.rank)
    (happ : ev.Applies (C.ctx j v) (C.site j v hv).TurnTally (s.sp j).gp) : C.Call hin s j v hv ev e := by
  obtain ⟨-, -, -, hseen⟩ := Engine.step_eq_some hs
  refine ⟨hj, hs, hok, hfull, hleave, happ, h.kept.inv_own he ha hm hadd hseen, ?_⟩
  rw [take_of_zero _ he ha hm, Function.update_eq_self, joined_put_of_false hseen hadd]
  exact h.lossless

/-- **Every step is sound.** -/
theorem Sound.step (h : C.Sound hin s) (hconn : C.Connected) {l : NetLabel} (henv : C.Env s l) (hord : s.Orderly l)
    (hwait : C.Waits s l) (hs : s.step C.toCluster l = some s') : C.Sound hin s' := by
  rcases Net.step_cases hs with ⟨i, v, ev, e, rfl, he, rfl⟩ | ⟨i, j, v, ev, es, e, rfl, hlink, he, rfl⟩
  · obtain ⟨-, -, -, hseen⟩ := Engine.step_eq_some he
    cases ev with
    | addGroupRank c m =>
      obtain ⟨hv, hr, rfl, -, hm, htold⟩ := henv
      have hc : C.Call hin s (C.spOf m.rankInfo.rank) v hv (.addGroupRank c m) e := by
        refine ⟨C.spOf_lt _ hr, he, msgs_ok_msg hr hm, (fun x hx => by cases hx), (fun x hx => by cases hx), trivial,
          h.kept.inv_add hv hr hm htold hseen, ?_⟩
        rw [snap_join c m (C.joined s)]
        exact h.lossless.join _ _
      exact hc.sound hconn h.kept.sp h.kept.got h.settled
    | revokeFromRank x =>
      obtain ⟨hv, hinfo, rfl, hseq, hle⟩ := henv
      have hr : x.rank < C.size := ((@site_info C 0 v hv x).2 hinfo).rank_lt
      have hsize := h.kept.size_of_leave hv hr hle
      have hk := h.kept.sp _ (C.spOf_lt _ hr)
      have hc : C.Call hin s (C.spOf x.rank) v hv (.revokeFromRank x) e := by
        refine h.call_own (C.spOf_lt _ hr) he ⟨hinfo, mem_locals.2 ⟨hr, rfl⟩⟩ rfl rfl rfl (fun _ => rfl)
          (fun y hy => by cases hy; exact ⟨hsize, hwait.1, hwait.2.trans hseq⟩) (fun y hy => by cases hy; exact hle) ?_
        rintro g' rfl hfull hlast
        have hl : (s.sp (C.spOf x.rank)).gp.Live := (hk.base v hv).counts.live_of_groupSize (hsize ▸ C.pos.ne')
        rw [getGroupCacheInternal_of_live hl] at hfull hlast ⊢
        exact ⟨hsize, .inl ⟨hfull.symm.trans hsize, hlast.symm⟩⟩
      exact hc.sound hconn h.kept.sp h.kept.got h.settled
    | cacheSent =>
      obtain ⟨hv, hi⟩ := henv
      have hc : C.Call hin s i v hv .cacheSent e := by
        refine h.call_own hi he trivial rfl rfl rfl (fun _ => rfl) (fun x hx => by cases hx) (fun x hx => by cases hx)
          (hord.imp id fun hall => ?_)
        have hsz := ((h.kept.sp i hi).base v hv).counts.size.resolve_left hall.1.ne'
        exact ⟨hsz, .inl ⟨hall.2.1.symm.trans hsz, hall.2.2⟩⟩
      exact hc.sound hconn h.kept.sp h.kept.got h.settled
    | revokeSent =>
      obtain ⟨hv, hi⟩ := henv
      have hc : C.Call hin s i v hv .revokeSent e := h.call_own hi he trivial rfl rfl rfl (fun _ => rfl)
        (fun x hx => by cases hx) (fun x hx => by cases hx) trivial
      exact hc.sound hconn h.kept.sp h.kept.got h.settled
    | peerCacheEntries _ _ | revokeFromSp _ | requestAdd _ | requestRevoke _ => exact henv.elim
  · obtain ⟨hv, hi, hj⟩ := henv
    obtain ⟨-, -, -, hseen⟩ := Engine.step_eq_some he
    have hev := link_event hlink
    have hrank : ∀ x, ev ≠ .revokeFromRank x := by
      rintro x rfl
      rcases hev with ⟨_, h0⟩ | ⟨_, h0⟩ <;> cases h0
    have hadd : ∀ r, ev.addsRank r = false := by
      intro r
      rcases hev with ⟨_, rfl⟩ | ⟨_, rfl⟩ <;> rfl
    have hadds : ev.adds = 0 := by
      rcases hev with ⟨_, rfl⟩ | ⟨_, rfl⟩ <;> rfl
    have hok := h.kept.ok_link hi hlink
    have hsent : ((s.view i).sent j).drop (s.got i j) = ev :: es := hlink
    have htake := @snap_receive C s.view s.got (C.joined s) (C.left s) i j ev es hi hsent hadds
    have hinv := h.kept.inv
    have hless := h.lossless
    rw [← htake] at hinv hless
    have hc : C.Call hin (s.receive i j) j v hv ev e := by
      refine ⟨hj, he, hok, fun x hx => absurd hx (hrank x), fun x hx => absurd hx (hrank x), ?_, ?_, ?_⟩
      · rcases hev with ⟨batch, rfl⟩ | ⟨m, rfl⟩
        · trivial
        · exact turnTally_of_revoke (h.kept.sp j hj) hv hok.1
      · rw [joined_put_of_false (s := s.receive i j) hseen hadd]
        exact hinv
      · rw [joined_put_of_false (s := s.receive i j) hseen hadd]
        exact hless
    exact hc.sound hconn h.kept.sp (h.kept.got_receive hlink) h.settled

end Crew

end DpuOffload
