import DpuOffload.Protocol.Site

/-!
# What a callback does to the revokes of a group

For the revoke protocol most actions of a callback are the same: they leave the revokes
alone. `RevAct` lists what the others do, in terms of the few things that count
(`RevState`), and `Act.revAct` says that every action on an SP is one of these. The
invariants of the revoke protocol are proved against `RevAct`.
-/

namespace DpuOffload

/-- What counts of a callback for the revoke protocol. -/
structure RevState where
  /-- The ranks that revoked the group. -/
  revoked : Finset ℕ
  /-- `revokes.global`. -/
  revokesGlobal : ℕ
  /-- `revokes.local`. -/
  revokesLocal : ℕ
  /-- `sp_ranks`. -/
  spRanks : ℕ
  /-- `group_size`. -/
  groupSize : ℕ
  /-- `num_local_entries`. -/
  numLocalEntries : ℕ
  /-- The version. -/
  num : ℕ
  /-- The last version whose final revoke was posted. -/
  posted : ℕ
  /-- The revokes of local ranks in hand. -/
  rankRevs : List RankInfo
  /-- The revokes of local ranks put aside. -/
  queued : List RankInfo
  /-- Is a reset to come? -/
  final : Bool

/-- The part of a callback that counts for the revoke protocol. -/
def Work.rev (w : Work) : RevState where
  revoked := w.gp.revokedRanks
  revokesGlobal := w.gp.revokesGlobal
  revokesLocal := w.gp.revokesLocal
  spRanks := w.gp.spRanks
  groupSize := w.gp.groupSize
  numLocalEntries := w.gp.numLocalEntries
  num := w.gp.persistent.num
  posted := w.gp.persistent.revokeSendToHostPosted
  rankRevs := w.rankRevs
  queued := w.gp.persistent.pendingGroupRevokeMsgsFromRanks
  final := w.final

/-- The messages of SPs in hand or put aside. -/
def Work.spMsgs (w : Work) : List GroupRevokeMsgFromSp :=
  w.revs ++ w.taken ++ w.gp.persistent.pendingGroupRevokeMsgsFromSps

/-- Is this about the progress of a revoke? -/
def Effect.isNote : Effect → Bool
  | .revokeToRanks _ _ | .markedFromSp _ _ _ | .markedFromRank _ _ _ | .revoked _ => true
  | _ => false

/-- The record of the revokes. -/
def Work.notes (w : Work) : List Effect := w.out.filter Effect.isNote

/-- The record of the revokes has all the marks and all the final revokes. -/
theorem countP_notes {f : Effect → Bool} (hf : ∀ x, f x = true → x.isNote = true) (w : Work) :
    w.notes.countP f = w.out.countP f := by
  rw [Work.notes, List.countP_filter]
  refine List.countP_congr fun x _ => ?_
  simpa using hf x

/-- **What an action does to the revokes.** -/
inductive RevAct (S : Site) (T : Tally → Prop) (w w' : Work) : Prop
  /-- Nothing. -/
  | quiet : w'.rev = w.rev → w'.notes = w.notes → w'.spMsgs ⊆ w.spMsgs → RevAct S T w w'
  /-- The size of the group becomes known. -/
  | known : w.rev.groupSize = 0 → w'.rev = { w.rev with groupSize := S.size } → w'.notes = w.notes →
      w'.spMsgs ⊆ w.spMsgs → RevAct S T w w'
  /-- A rank is added. -/
  | entry (sp : ℕ) : w.rev.revokesGlobal = 0 → w.rev.groupSize = S.size → (sp = w.rev.spRanks ∨ w.rev.spRanks = 0) →
      w'.rev = { w.rev with
        numLocalEntries := w.rev.numLocalEntries + 1, spRanks := sp
        num := if w.rev.numLocalEntries = 0 then w.rev.num + 1 else w.rev.num } →
      w'.notes = w.notes → w'.spMsgs ⊆ w.spMsgs → RevAct S T w w'
  /-- The revoke of a local rank is put aside. -/
  | queue (i : RankInfo) (is : List RankInfo) : w.rev.rankRevs = i :: is → w.rev.groupSize ≠ w.rev.numLocalEntries →
      w'.rev = { w.rev with rankRevs := is, queued := w.rev.queued ++ [i] } → w'.notes = w.notes →
      w'.spMsgs ⊆ w.spMsgs → RevAct S T w w'
  /-- A local rank is marked. -/
  | mark (i : RankInfo) (is : List RankInfo) : w.rev.rankRevs = i :: is → w.rev.groupSize = S.size →
      w.rev.numLocalEntries = S.size →
      w'.rev = { w.rev with
        rankRevs := is, revoked := insert i.rank w.rev.revoked
        revokesGlobal := w.rev.revokesGlobal + 1, revokesLocal := w.rev.revokesLocal + 1 } →
      w'.notes = w.notes ++ [.markedFromRank i.rank i.groupSeqNum w.rev.num] → w'.spMsgs ⊆ w.spMsgs → RevAct S T w w'
  /-- A message of an SP is applied. -/
  | apply (m : GroupRevokeMsgFromSp) (k : ℕ) : m ∈ w.taken → T w.gp.tally → w.rev.groupSize = S.size →
      (w.rev.revoked ∪ m.carried.toFinset).card = w.rev.revoked.card + k →
      w'.rev = { w.rev with
        revoked := w.rev.revoked ∪ m.carried.toFinset, revokesGlobal := w.rev.revokesGlobal + k } →
      (∃ new : List ℕ, (∀ r ∈ new, r ∈ m.carried ∧ r ∉ w.rev.revoked) ∧
        (∀ r ∈ m.carried, r ∉ w.rev.revoked → r ∈ new) ∧
        w'.notes = w.notes ++ new.map fun r => .markedFromSp r m.gpSeqNum w.rev.num) →
      w'.spMsgs ⊆ w.spMsgs → RevAct S T w w'
  /-- The final revoke is posted. -/
  | post : w.rev.revokesGlobal = w.rev.groupSize → w.rev.posted < w.rev.num →
      w'.rev = { w.rev with posted := w.rev.num } →
      w'.notes = w.notes ++ [.revokeToRanks w.rev.groupSize w.rev.num] → w'.spMsgs ⊆ w.spMsgs → RevAct S T w w'
  /-- The group is reset. -/
  | reset : w.rev.final = true → w.rev.rankRevs = [] →
      w'.rev = { w.rev with
        revoked := ∅, revokesGlobal := 0, revokesLocal := 0, spRanks := 0, groupSize := 0, numLocalEntries := 0
        final := false } →
      w'.notes = w.notes ++ [.revoked w.rev.num] → w'.spMsgs ⊆ w.spMsgs → RevAct S T w w'

variable {S : Site} {T : Tally → Prop} {M : MsgSpec}

/-! ### The bitset -/

theorem revokedRanks_of_none {g : GroupCache} (h : g.revokesRanks = none) : g.revokedRanks = ∅ := by
  simp [GroupCache.revokedRanks, h, Bitset.bits, Bitset.capacity]

theorem revokedRanks_congr {g g' : GroupCache} (h : g'.revokesRanks = g.revokesRanks) :
    g'.revokedRanks = g.revokedRanks := by
  rw [GroupCache.revokedRanks, GroupCache.revokedRanks, h]

/-- Before the size is known no rank is marked. -/
theorem Counts.revoked_of_unknown {w : Work} (h : Counts S w) (h0 : w.gp.groupSize = 0) : w.gp.revokedRanks = ∅ :=
  revokedRanks_of_none (h.unknown h0).2.1

theorem Counts.revoked_subset {w : Work} (h : Counts S w) : w.gp.revokedRanks ⊆ Finset.range S.size := by
  rcases h.size with h0 | hs
  · rw [h.revoked_of_unknown h0]
    exact Finset.empty_subset _
  · obtain ⟨b, hb, -, hsub⟩ := h.bits hs
    rwa [GroupCache.revokedRanks, hb]

/-! ### The record -/

theorem sendGpCacheToHost_notes (s : GpState) :
    (sendGpCacheToHost s).out.filter Effect.isNote = s.out.filter Effect.isNote := by
  unfold sendGpCacheToHost
  split
  · simp [Effect.isNote]
  · rfl

theorem broadcastGroupCache_notes (ctx : GpCtx) (s : GpState) :
    (broadcastGroupCache ctx s).out.filter Effect.isNote = s.out.filter Effect.isNote := by
  have hmsgs : (broadcastMsgs ctx s.gp).filter Effect.isNote = [] := by
    refine List.filter_eq_nil_iff.2 fun x hx => ?_
    simp only [broadcastMsgs, List.mem_flatMap, List.mem_map] at hx
    obtain ⟨_, _, _, _, rfl⟩ := hx
    simp [Effect.isNote]
  have hemit : (s.emit (.broadcast :: if 1 < ctx.numServiceProcs then broadcastMsgs ctx s.gp else [])).out.filter
      Effect.isNote = s.out.filter Effect.isNote := by
    split <;> simp [GpState.emit, Effect.isNote, hmsgs]
  simp only [broadcastGroupCache]
  by_cases hc : ctx.allServiceProcsConnected
  · simp only [hc, Bool.not_true, Bool.false_eq_true, if_false]
    by_cases hf : s.gp.full
    · simp only [GpState.emit, hf, if_true]
      rw [sendGpCacheToHost_notes]
      exact hemit
    · simp only [GpState.emit, hf]
      exact hemit
  · simp [hc]

theorem groupCacheExchange_notes (ctx : GpCtx) (s : GpState) (n : ℕ) :
    (groupCacheExchange ctx s n).out.filter Effect.isNote = s.out.filter Effect.isNote := by
  unfold groupCacheExchange
  repeat' split
  all_goals first | exact broadcastGroupCache_notes ctx s | rfl

theorem tellRankRevoke_notes (ctx : GpCtx) (s : GpState) (i : RankInfo) :
    (tellRankRevoke ctx s i).out.filter Effect.isNote =
      s.out.filter Effect.isNote ++ [.markedFromRank i.rank i.groupSeqNum s.gp.persistent.num] := by
  have hmsgs : ∀ g : GroupCache, ((ctx.otherSps.flatMap fun dest =>
      (sendLocalRevokeRankGroupCache g).map (Effect.revokeToSp dest)).filter Effect.isNote) = [] := by
    intro g
    refine List.filter_eq_nil_iff.2 fun x hx => ?_
    simp only [List.mem_flatMap, List.mem_map] at hx
    obtain ⟨_, _, _, _, rfl⟩ := hx
    simp [Effect.isNote]
  simp only [tellRankRevoke, broadcastGroupCacheRevoke]
  repeat' split
  all_goals simp only [GpState.emit, List.filter_append, hmsgs, List.append_nil]
  all_goals rfl

/-! ### Every action is one of these -/

/-- An addition, of an entry or of a local rank. -/
theorem revAct_of_addition {w w' : Work} {t : Topology} {k p sp : ℕ} {l : Option (List PeerCacheEntry)}
    (hs : w.gp.groupSize = S.size) (h0 : w.gp.revokesGlobal = 0) (hsp : sp = w.gp.spRanks ∨ w.gp.spRanks = 0)
    (hgp : w'.gp = { w.gp with
      persistent := w.gp.switchVersion.persistent, topo := t, numLocalEntries := w.gp.numLocalEntries + 1
      nLocalRanks := k, nLocalRanksPopulated := p, spRanks := sp, ranks := l })
    (hrr : w'.rankRevs = w.rankRevs) (hf : w'.final = w.final) (ho : w'.out = w.out) (hr : w'.revs = w.revs)
    (ht : w'.taken = w.taken) : RevAct S T w w' := by
  have hp : w.gp.switchVersion.persistent = { w.gp.persistent with
      num := if w.gp.numLocalEntries = 0 then w.gp.persistent.num + 1 else w.gp.persistent.num } := by
    unfold GroupCache.switchVersion
    split <;> rfl
  rw [hp] at hgp
  refine .entry sp h0 hs hsp ?_ ?_ ?_
  · simp only [Work.rev, hgp, hrr, hf]
    rfl
  · rw [Work.notes, Work.notes, ho]
  · rw [Work.spMsgs, Work.spMsgs, hr, ht, hgp]
    exact List.Subset.refl _

/-- **Every action on an SP does to the revokes one of the things listed.** -/
theorem Act.revAct (hM : M.Le S.msgs) (hT : ∀ t, T t → t.groupSize = S.size) {w w' : Work} (hb : Base S M w)
    (ha : Act S.ctx (· = (S.size : ℤ)) T w w') : RevAct S T w w' := by
  have hre : ∀ l : List GroupRevokeMsgFromSp, l ⊆ l := List.Subset.refl
  have hc := hb.counts
  cases ha with
  | init size hs hl =>
    have hd := hc.dead hl
    simp only [GroupCache.body, newGroupCache, GroupCache.mk.injEq, true_and, and_true] at hd
    obtain ⟨-, hg, hloc, hbits, hsz, -, hn, -, -, hsp, -⟩ := hd
    refine .quiet ?_ rfl (hre _)
    simp only [Work.rev, initGroupCache, basicInitGroupCache, hg, hloc, hsz, hn, hsp, revokedRanks_of_none hbits]
    rfl
  | learn size hs hl =>
    subst hs
    by_cases h0 : w.gp.groupSize = 0
    · refine .known h0 ?_ rfl ?_
      · rw [GroupCache.learnGroupSize, if_pos ⟨(hc.live hl).1, h0, Int.natCast_nonneg _⟩, sizeT_natCast S.alloc.lt,
          (hc.unknown h0).2.1]
        simp only [Work.rev, hc.revoked_of_unknown h0]
        congr 1
        exact Bitset.bits_create _
      · simp only [Work.spMsgs, learnGroupSize_persistent]
        exact hre _
    · rw [learnGroupSize_of_known h0]
      exact .quiet rfl rfl (hre _)
  | skipEntry he hl hset => exact .quiet rfl rfl (hre _)
  | addEntry he hl hL h0 hset =>
    obtain ⟨t, ht⟩ := addPeerEntry_eq S.ctx w.gp _
    exact revAct_of_addition (hc.groupSize_of_learnt hl hL) h0 (.inl rfl) ht rfl rfl rfl rfl rfl
  | parkEntries sp hs hl hp => exact .quiet rfl rfl (hre _)
  | takeBatch hl he h0 hr => exact .quiet rfl rfl (hre _)
  | unpark he h0 => exact .quiet rfl rfl (hre _)
  | sendCache hl h0 hf =>
    obtain ⟨t, ht⟩ := sendGpCacheToHost_gp w.toGpState
    refine .quiet ?_ (sendGpCacheToHost_notes _) ?_
    · simp only [Work.rev, ht]; rfl
    · simp only [Work.spMsgs, ht]; exact hre _
  | parkAdd hs ha hl h0 => exact .quiet rfl rfl (hre _)
  | takeAdds ha => exact .quiet rfl rfl (hre _)
  | skipAdd ha hl hL h0 hset => exact .quiet rfl rfl (hre _)
  | @addLocal p ps ha hl hL h0 hset =>
    obtain ⟨t, k, sp, ht, -⟩ := addGroupRank_eq S.ctx w.gp p.clientId p.data
    refine revAct_of_addition (hc.groupSize_of_learnt hl hL) h0 ?_ ht rfl rfl rfl rfl rfl
    by_cases hz : w.gp.spRanks = 0
    · exact .inr hz
    · exact .inl (if_neg hz)
  | exchange hdue hl =>
    obtain ⟨t, ht⟩ := @groupCacheExchange_gp S.ctx w.toGpState w.gp.spRanks
    refine .quiet ?_ (groupCacheExchange_notes _ _ _) ?_
    · simp only [Work.rev, ht]; rfl
    · simp only [Work.spMsgs, ht]; exact hre _
  | @queueRankRevoke i is hr hl hn => exact .queue i is hr hn rfl rfl (hre _)
  | @markLocal i is hr hl hn =>
    have hs : w.gp.groupSize = S.size := hc.rankRevs (by rw [hr]; exact List.cons_ne_nil _ _)
    have hi := (hM.rankRev i (hb.carries.rankRevs i (mem_of_eq_cons hr))).1
    obtain ⟨b, hbit, hcap, -⟩ := hc.bits hs
    refine .mark i is hr hs (hn.symm.trans hs) ?_ (tellRankRevoke_notes _ _ _) ?_
    · simp only [Work.rev, tellRankRevoke_gp, GroupCache.markLocalRank, GroupCache.revokedRanks, hbit, Option.map_some,
        Option.getD_some]
      rw [← Bitset.bits_set (hi.rank_lt.trans_le hcap)]
      rfl
    · simp only [Work.spMsgs, tellRankRevoke_gp, GroupCache.markLocalRank]
      exact hre _
  | @queueSpRevoke m ms hr hdl =>
    refine .quiet rfl rfl fun x hx => ?_
    simp only [Work.spMsgs, hr, List.mem_append, List.mem_cons, List.not_mem_nil, or_false] at hx ⊢
    tauto
  | @accept m ms hr hl hdl hT' =>
    have hm : m.groupSize = S.size := (hM.rev m (hb.carries.revs m (mem_of_eq_cons hr))).1
    have hsub : ∀ x ∈ ms ++ (w.taken ++ [m]) ++ w.gp.persistent.pendingGroupRevokeMsgsFromSps, x ∈ w.spMsgs := by
      intro x hx
      simp only [Work.spMsgs, hr, List.mem_append, List.mem_cons, List.not_mem_nil, or_false] at hx ⊢
      tauto
    by_cases h0 : w.gp.groupSize = 0
    · refine .known h0 ?_ rfl ?_
      · simp only [Work.rev, GroupCache.learnFromRevoke, h0, if_true, (hc.unknown h0).2.1, hm,
          hc.revoked_of_unknown h0]
        congr 1
        exact Bitset.bits_create _
      · simp only [Work.spMsgs, learnFromRevoke_persistent]
        exact hsub
    · rw [GroupCache.learnFromRevoke, if_neg h0]
      exact .quiet rfl rfl hsub
  | takeRevokes ht hT' =>
    refine .quiet rfl rfl fun x hx => ?_
    simp only [Work.spMsgs, ht, List.mem_append, List.not_mem_nil, or_false] at hx ⊢
    tauto
  | createBits hT' =>
    obtain ⟨b, hbit, -, -⟩ := hc.bits (hT _ hT')
    refine .quiet ?_ rfl (hre _)
    simp only [Work.rev, GroupCache.revokedRanks, hbit]
    rfl
  | @applyRevoke m ms ht hT' =>
    have hs : w.gp.groupSize = S.size := hT _ hT'
    have hm := (hM.rev m (hb.carries.taken m (mem_of_eq_cons ht))).2
    obtain ⟨b, hbit, hcap, -⟩ := hc.bits hs
    have hlt : ∀ r ∈ m.carried, r < b.capacity := fun r hr => ((mem_carried hr).trans_le hm).trans_le hcap
    have hrev : w.gp.revokedRanks = b.bits := by rw [GroupCache.revokedRanks, hbit]; rfl
    refine .apply m (markRanks b m.carried).2.length (mem_of_eq_cons ht) hT' hs ?_ ?_ ?_ ?_
    · simp only [Work.rev, hrev]
      rw [← bits_markRanks hlt, card_bits_markRanks hlt]
    · simp only [Work.rev, GroupCache.applyRevokeMsg, GroupCache.revokedRanks, hbit, Option.getD_some]
      rw [bits_markRanks hlt]
    · refine ⟨(markRanks b m.carried).2, fun r hr => ?_, fun r hr hn => ?_, ?_⟩
      · simpa only [Work.rev, hrev] using (mem_markRanks hlt).1 hr
      · exact (mem_markRanks hlt).2 ⟨hr, by simpa only [Work.rev, hrev] using hn⟩
      · simp only [Work.notes, GroupCache.applyRevokeMsg, hbit, Option.getD_some, List.filter_append, marksOf]
        congr 1
        rw [List.filter_eq_self.2]
        · rfl
        · intro x hx
          obtain ⟨_, _, rfl⟩ := List.mem_map.1 hx
          rfl
    · intro x hx
      simp only [Work.spMsgs, ht, List.mem_append, List.mem_cons] at hx ⊢
      tauto
  | post hf =>
    simp only [GroupCache.finalRevokeDue, Bool.and_eq_true, beq_iff_eq, decide_eq_true_eq] at hf
    exact .post hf.1 hf.2 rfl (by simp [Work.notes, sendRevokeGroupToRanks, Effect.isNote, Work.rev]) (hre _)
  | reset hf he hdue =>
    refine .reset hf (hc.final hf) ?_ (by simp [Work.notes, Effect.isNote, Work.rev]) (hre _)
    simp only [Work.rev, resetGroupCache, basicInitGroupCache, revokedRanks_of_none]
  | setSent => exact .quiet rfl rfl (hre _)
  | setRevokeSent => exact .quiet rfl rfl (hre _)
  | hostAdd hd' _ | hostPark hd' _ _ | hostTake hd' _ | hostRevoke _ hd' => rw [S.onDpu] at hd'; cases hd'

end DpuOffload
