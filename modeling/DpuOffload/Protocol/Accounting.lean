import DpuOffload.Protocol.HeldBack

/-!
# The accounts of a revoke

Within one version of a group an SP counts revokes in three places: its local ranks
(`handle_revoke_group_rank_through_rank_info`), messages of other SPs
(`handle_revoke_group_rank_through_list_ranks`), and messages put aside
(`HANDLE_PENDING_GROUP_REVOKE_MSGS_FROM_SPS`); and it posts the final revoke from three
places. `accounted_of_reach` says that the accounts agree with the bitset throughout, and
that the final revoke is posted once, when all bits are set.

The version starts on a group that has not been used or has been reset (`Engine.Fresh`);
messages put aside earlier may be there already. Each local rank joins before it
revokes, and revokes once. Other SPs know of a revoke of a local rank from this SP only,
so that their messages, which may come in any order and as often as they like, carry a
local rank only when it is marked already.
-/

namespace DpuOffload

open Transition

variable {S : Site}

/-- The beginning of a version: the group is as a reset leaves it, and the sends of
earlier versions are complete. -/
structure Engine.Fresh (S : Site) (e : Engine) : Prop where
  /-- The group is not in use. -/
  body : e.gp.body = newGroupCache
  /-- The final revoke of the last version was posted. -/
  posted : e.gp.persistent.revokeSendToHostPosted = e.gp.persistent.num
  /-- What is put aside announces the size of the group. -/
  sized : e.gp.Sized (· = (S.size : ℤ))
  /-- What is put aside is well formed. -/
  carries : Carries S.msgs (Work.start ⟨e.gp, e.log⟩)
  /-- Revokes put aside are about ranks of other SPs. -/
  pending : ∀ m ∈ e.gp.persistent.pendingGroupRevokeMsgsFromSps, ∀ r ∈ m.carried, r ∉ S.locals
  /-- The record of the version is empty. -/
  log : e.log = []
  /-- Nothing has happened. -/
  seen : e.seen = []

/-- The rank that joins. -/
def Event.joins? : Event → Option ℕ
  | .addGroupRank _ m => some m.rankInfo.rank
  | _ => none

/-- Has rank `r` joined? -/
def Engine.Joined (e : Engine) (r : ℕ) : Prop := r ∈ e.seen.filterMap Event.joins?

instance (e : Engine) (r : ℕ) : Decidable (e.Joined r) :=
  inferInstanceAs (Decidable (r ∈ e.seen.filterMap Event.joins?))

/-- Has rank `r` revoked the group? -/
def Engine.RankRevoked (e : Engine) (r : ℕ) : Prop := ∃ i ∈ e.seen.filterMap Event.rankRevoke?, i.rank = r

instance (e : Engine) (r : ℕ) : Decidable (e.RankRevoked r) :=
  inferInstanceAs (Decidable (∃ i ∈ e.seen.filterMap Event.rankRevoke?, i.rank = r))

/-- The events of one version. -/
def Site.OneVersion (S : Site) (e : Engine) (ev : Event) : Prop :=
  S.msgs.Ok ev ∧ match ev with
    | .revokeFromRank i => e.Joined i.rank ∧ ¬ e.RankRevoked i.rank
    | .revokeFromSp m => ∀ r ∈ m.carried, r ∈ S.locals → r ∈ e.gp.revokedRanks
    | .revokeSent => False
    | _ => True

/-- Is this a local rank marked? -/
def Effect.isMarkedFromRank : Effect → Bool
  | .markedFromRank _ _ _ => true
  | _ => false

/-- **The accounts of a revoke**: `revokes.global` is the number of bits set, and at most
the size of the group; `revokes.local` is the number of revokes of local ranks handled,
and at most `sp_ranks`; the final revoke is posted at most once, with all bits set. -/
structure Engine.Accounted (S : Site) (e : Engine) : Prop where
  /-- `revokes.global` counts the bits. -/
  global_eq : e.gp.revokesGlobal = e.gp.revokedRanks.card
  /-- There are no more than ranks. -/
  global_le : e.gp.revokesGlobal ≤ e.gp.groupSize
  /-- `revokes.local` counts the local ranks. -/
  local_eq : e.gp.revokesLocal = e.log.countP Effect.isMarkedFromRank
  /-- There are no more than on the SP. -/
  local_le : e.gp.revokesLocal ≤ e.gp.spRanks
  /-- The final revoke is posted once. -/
  posted_le : e.log.countP Effect.isRevokeToRanks ≤ 1
  /-- It is posted with all bits set. -/
  posted_all : 0 < e.log.countP Effect.isRevokeToRanks →
    e.gp.groupSize = S.size ∧ e.gp.revokedRanks = Finset.range S.size

/-- What the callbacks keep about the accounts, `H` being the local revokes received. -/
structure AccInv (S : Site) (H : ℕ → Prop) (w : Work) : Prop where
  /-- `revokes.global` counts the bits. -/
  global : w.rev.revokesGlobal = w.rev.revoked.card
  /-- `revokes.local` counts the bits of local ranks. -/
  loc : w.rev.revokesLocal = (w.rev.revoked ∩ S.locals).card
  /-- There are no more than on the SP. -/
  sp : w.rev.revokesLocal ≤ w.rev.spRanks
  /-- They are the revokes of local ranks handled. -/
  marks : w.rev.revokesLocal = w.notes.countP Effect.isMarkedFromRank
  /-- Messages of SPs bring nothing new about local ranks. -/
  safe : ∀ m ∈ w.spMsgs, ∀ r ∈ m.carried, r ∈ S.locals → r ∈ w.rev.revoked
  /-- A local rank is marked because it revoked. -/
  hist : ∀ r ∈ w.rev.revoked, r ∈ S.locals → H r
  /-- A local rank revokes for the first time. -/
  fresh : w.rev.rankRevs = [] ∨
    ∃ i, w.rev.rankRevs = [i] ∧ i.rank ∈ S.locals ∧ i.rank ∉ w.rev.revoked ∧ H i.rank
  /-- Before the first entry no final revoke is due. -/
  idle : w.rev.numLocalEntries = 0 → w.rev.posted = w.rev.num
  /-- The final revoke was not posted, or once with all bits set. -/
  posts : w.notes.countP Effect.isRevokeToRanks = 0 ∨
    w.notes.countP Effect.isRevokeToRanks = 1 ∧ w.rev.posted = w.rev.num ∧ w.rev.groupSize = S.size ∧
      w.rev.revoked = Finset.range S.size
  /-- The version does not end. -/
  final : w.rev.final = false

theorem AccInv.act {H : ℕ → Prop} {w w' : Work} (hb : Base S S.msgs w) (hb' : Base S S.msgs w') (h : AccInv S H w)
    {T : Tally → Prop} (ha : RevAct S T w w') : AccInv S H w' := by
  have hpos : 0 < (Finset.range S.size).card := by rw [Finset.card_range]; exact S.pos
  cases ha with
  | quiet hrev hnotes hsub =>
    obtain ⟨h1, h2, h3, h4, h5, h6, h7, h8, h9, h10⟩ := h
    exact ⟨by rwa [hrev], by rwa [hrev], by rwa [hrev], by rwa [hrev, hnotes],
      by rw [hrev]; exact fun m hm => h5 m (hsub hm), by rwa [hrev], by rwa [hrev], by rwa [hrev], by rwa [hrev, hnotes],
      by rwa [hrev]⟩
  | known h0 hrev hnotes hsub =>
    refine ⟨?_, ?_, ?_, ?_, ?_, ?_, ?_, ?_, ?_, ?_⟩ <;> rw [hrev]
    · exact h.global
    · exact h.loc
    · exact h.sp
    · rw [hnotes]; exact h.marks
    · exact fun m hm => h.safe m (hsub hm)
    · exact h.hist
    · exact h.fresh
    · exact h.idle
    · rw [hnotes]
      exact h.posts.imp id fun hp => ⟨hp.1, hp.2.1, rfl, hp.2.2.2⟩
    · exact h.final
  | entry sp h0 hs hsp hrev hnotes hsub =>
    have hempty : w.rev.revoked = ∅ := Finset.card_eq_zero.1 (h.global.symm.trans h0)
    have hl : w.rev.revokesLocal = 0 := by rw [h.loc, hempty]; simp
    refine ⟨?_, ?_, ?_, ?_, ?_, ?_, ?_, ?_, ?_, ?_⟩ <;> rw [hrev]
    · exact h.global
    · exact h.loc
    · exact hl.le.trans (Nat.zero_le _)
    · rw [hnotes]; exact h.marks
    · exact fun m hm => h.safe m (hsub hm)
    · exact h.hist
    · exact h.fresh
    · exact fun hz => absurd hz (Nat.succ_ne_zero _)
    · rw [hnotes]
      refine h.posts.imp id fun hp => ?_
      rw [hempty] at hp
      rw [← hp.2.2.2] at hpos
      exact absurd hpos (by simp)
    · exact h.final
  | queue i is hr hn hrev hnotes hsub =>
    refine ⟨?_, ?_, ?_, ?_, ?_, ?_, ?_, ?_, ?_, ?_⟩ <;> rw [hrev]
    · exact h.global
    · exact h.loc
    · exact h.sp
    · rw [hnotes]; exact h.marks
    · exact fun m hm => h.safe m (hsub hm)
    · exact h.hist
    · rcases h.fresh with hf | ⟨j, hf, -⟩ <;> rw [hf] at hr <;> cases hr
      exact .inl rfl
    · exact h.idle
    · rw [hnotes]; exact h.posts
    · exact h.final
  | mark i is hr hs hn hrev hnotes hsub =>
    obtain ⟨his, hloc, hnot, hH⟩ : is = [] ∧ i.rank ∈ S.locals ∧ i.rank ∉ w.rev.revoked ∧ H i.rank := by
      rcases h.fresh with hf | ⟨j, hf, hj⟩ <;> rw [hf] at hr <;> cases hr
      exact ⟨rfl, hj⟩
    have hcard : (insert i.rank w.rev.revoked ∩ S.locals).card = w.rev.revokesLocal + 1 := by
      rw [Finset.insert_inter_of_mem hloc, Finset.card_insert_of_notMem fun hm => hnot (Finset.mem_inter.1 hm).1, h.loc]
    refine ⟨?_, ?_, ?_, ?_, ?_, ?_, ?_, ?_, ?_, ?_⟩ <;> rw [hrev]
    · rw [Finset.card_insert_of_notMem hnot, ← h.global]
    · exact hcard.symm
    · change w.rev.revokesLocal + 1 ≤ w.gp.spRanks
      rw [← hcard, hb.counts.spRanks_of_full hn]
      exact Finset.card_le_card Finset.inter_subset_right
    · rw [hnotes, List.countP_append, ← h.marks]; rfl
    · exact fun m hm r hr hrl => Finset.mem_insert_of_mem (h.safe m (hsub hm) r hr hrl)
    · intro r hr hrl
      rcases Finset.mem_insert.1 hr with rfl | hr
      · exact hH
      · exact h.hist r hr hrl
    · exact .inl his
    · exact h.idle
    · rw [hnotes, List.countP_append]
      refine h.posts.imp id fun hp => ?_
      refine absurd ?_ hnot
      rw [hp.2.2.2]
      exact S.locals_subset_range hloc
    · exact h.final
  | apply m k hm hT hs hk hrev hnotes hsub =>
    obtain ⟨new, -, -, hnotes⟩ := hnotes
    have hmem : m ∈ w.spMsgs := List.mem_append_left _ (List.mem_append_right _ hm)
    have hloc : (w.rev.revoked ∪ m.carried.toFinset) ∩ S.locals = w.rev.revoked ∩ S.locals := by
      ext r
      simp only [Finset.mem_inter, Finset.mem_union, List.mem_toFinset, and_congr_left_iff, or_iff_left_iff_imp]
      exact fun hrl hr => h.safe m hmem r hr hrl
    have hcount : ∀ (p : Effect → Bool), (∀ r, p (.markedFromSp r m.gpSeqNum w.rev.num) = false) →
        (w'.notes).countP p = w.notes.countP p := by
      intro p hp
      rw [hnotes, List.countP_append, List.countP_map]
      simp [Function.comp_def, hp]
    refine ⟨?_, ?_, ?_, ?_, ?_, ?_, ?_, ?_, ?_, ?_⟩
    · rw [hrev]; exact (congrArg (· + k) h.global).trans hk.symm
    · rw [hrev, hloc]; exact h.loc
    · rw [hrev]; exact h.sp
    · rw [hrev, hcount _ fun _ => rfl]; exact h.marks
    · rw [hrev]
      exact fun m' hm' r hr hrl => Finset.mem_union_left _ (h.safe m' (hsub hm') r hr hrl)
    · rw [hrev]
      refine fun r hr hrl => h.hist r ?_ hrl
      exact (Finset.mem_inter.1 (hloc ▸ Finset.mem_inter.2 ⟨hr, hrl⟩)).1
    · rw [hrev]
      refine h.fresh.imp id fun ⟨i, hi, hil, hnot, hH⟩ => ⟨i, hi, hil, fun hr => hnot ?_, hH⟩
      exact (Finset.mem_inter.1 (hloc ▸ Finset.mem_inter.2 ⟨hr, hil⟩)).1
    · rw [hrev]; exact h.idle
    · rw [hcount _ fun _ => rfl]
      refine h.posts.imp id fun hp => ⟨hp.1, by rw [hrev]; exact hp.2.1, by rw [hrev]; exact hp.2.2.1, ?_⟩
      refine (hb'.counts.revoked_subset).antisymm ?_
      rw [← hp.2.2.2, show w'.gp.revokedRanks = w'.rev.revoked from rfl, hrev]
      exact Finset.subset_union_left
    · rw [hrev]; exact h.final
  | post hg hlt hrev hnotes hsub =>
    have hs : w.rev.groupSize = S.size := by
      refine hb.counts.size.resolve_left fun h0 => ?_
      exact absurd (h.idle (hb.counts.unknown h0).1) hlt.ne
    have hall : w.rev.revoked = Finset.range S.size := by
      refine Finset.eq_of_subset_of_card_le hb.counts.revoked_subset ?_
      rw [Finset.card_range, ← hs, ← hg, h.global]
    have h0 : w.notes.countP Effect.isRevokeToRanks = 0 := h.posts.resolve_right fun hp => absurd hp.2.1 hlt.ne
    refine ⟨?_, ?_, ?_, ?_, ?_, ?_, ?_, ?_, ?_, ?_⟩ <;> rw [hrev]
    · exact h.global
    · exact h.loc
    · exact h.sp
    · rw [hnotes, List.countP_append]; exact h.marks
    · exact fun m hm => h.safe m (hsub hm)
    · exact h.hist
    · exact h.fresh
    · exact fun _ => rfl
    · rw [hnotes, List.countP_append, h0]
      exact .inr ⟨rfl, rfl, hs, hall⟩
    · exact h.final
  | reset hf _ _ _ _ => rw [h.final] at hf; cases hf

/-! ### When the size of the group is known -/

/-- Within a version the size is known once a rank has joined (`A`), or the cache was sent. -/
structure KnownInv (S : Site) (A : Prop) (w : Work) : Prop where
  /-- The cache is sent with its size. -/
  sent : (∃ x ∈ w.out, x.isCacheToRanks = true) → w.gp.groupSize = S.size
  /-- A rank joins with the size. -/
  joined : A → w.adds ≠ [] ∨ w.gp.groupSize = S.size
  /-- The version does not end. -/
  final : w.final = false

theorem KnownInv.of_eq {A : Prop} {w w' : Work} (h : KnownInv S A w)
    (hs : w.gp.groupSize = S.size → w'.gp.groupSize = S.size)
    (ho : ∀ x ∈ w'.out, x ∈ w.out ∨ x.isCacheToRanks = false ∨ w.gp.groupSize = S.size)
    (ha : w'.adds = w.adds ∨ w.gp.groupSize = S.size) (hf : w'.final = w.final) : KnownInv S A w' where
  sent := by
    rintro ⟨x, hx, hc⟩
    rcases ho x hx with hx | hx | hx
    · exact hs (h.sent ⟨x, hx, hc⟩)
    · rw [hc] at hx; cases hx
    · exact hs hx
  joined hA := by
    rcases ha with ha | ha
    · rw [ha]; exact (h.joined hA).imp id hs
    · exact .inr (hs ha)
  final := hf.trans h.final

/-- Telling the other SPs about a revoke sends no cache to the ranks. -/
theorem mem_tellRankRevoke {ctx : GpCtx} {s : GpState} {i : RankInfo} {x : Effect}
    (hx : x ∈ (tellRankRevoke ctx s i).out) : x ∈ s.out ∨ x.isCacheToRanks = false := by
  simp only [tellRankRevoke, broadcastGroupCacheRevoke] at hx
  repeat' split at hx
  all_goals simp only [GpState.emit, List.mem_append, List.mem_singleton, List.mem_flatMap, List.mem_map] at hx
  · rcases hx with hx | rfl
    · exact .inl hx
    · exact .inr rfl
  · rcases hx with (hx | rfl) | ⟨_, _, _, _, rfl⟩
    · exact .inl hx
    · exact .inr rfl
    · exact .inr rfl
  · rcases hx with hx | rfl
    · exact .inl hx
    · exact .inr rfl

theorem KnownInv.act {A : Prop} {T : Tally → Prop} {w w' : Work} (hb : Base S S.msgs w) (h : KnownInv S A w)
    (ha : Act S.ctx (· = (S.size : ℤ)) T w w') : KnownInv S A w' := by
  have hout : ∀ x ∈ w.out, x ∈ w.out ∨ x.isCacheToRanks = false ∨ w.gp.groupSize = S.size := fun x hx => .inl hx
  cases ha with
  | init size hs hl =>
    have h0 : w.gp.groupSize = 0 := congrArg GroupCache.groupSize (hb.counts.dead hl)
    exact h.of_eq (fun hs => absurd (h0.symm.trans hs) S.pos.ne) hout (.inl rfl) rfl
  | learn size hs hl =>
    refine h.of_eq (fun hs => ?_) hout (.inl rfl) rfl
    rw [learnGroupSize_of_known (hs ▸ S.pos.ne')]
    exact hs
  | skipEntry he hl hset => exact h.of_eq id hout (.inl rfl) rfl
  | @addEntry e es he hl hL h0 hset =>
    obtain ⟨t, ht⟩ := addPeerEntry_eq S.ctx w.gp e
    exact h.of_eq (fun hs => by simp only [ht]; exact hs) hout (.inl rfl) rfl
  | parkEntries sp hs hl hp => exact h.of_eq id hout (.inl rfl) rfl
  | takeBatch hl he h0 hr => exact h.of_eq id hout (.inl rfl) rfl
  | unpark he h0 => exact h.of_eq id hout (.inl rfl) rfl
  | sendCache hl h0 hf =>
    obtain ⟨t, ht⟩ := sendGpCacheToHost_gp w.toGpState
    have hs := hb.counts.size.resolve_left h0.ne'
    exact h.of_eq (fun hs => by simp only [ht]; exact hs) (fun _ _ => .inr (.inr hs)) (.inl rfl) rfl
  | parkAdd hs ha hl h0 =>
    exact h.of_eq id hout (.inr (hb.counts.size.resolve_left fun hz => h0.ne' (hb.counts.unknown hz).2.2.1)) rfl
  | takeAdds ha =>
    refine ⟨h.sent, fun hA => .inr ?_, h.final⟩
    exact (h.joined hA).resolve_left fun hne => hne ha
  | skipAdd ha hl hL h0 hset => exact h.of_eq id hout (.inr (hb.counts.groupSize_of_learnt hl hL)) rfl
  | @addLocal p ps ha hl hL h0 hset =>
    obtain ⟨t, k, sp, ht, -⟩ := addGroupRank_eq S.ctx w.gp p.clientId p.data
    exact h.of_eq (fun hs => by simp only [ht]; exact hs) hout (.inr (hb.counts.groupSize_of_learnt hl hL)) rfl
  | exchange hdue hl =>
    obtain ⟨t, ht⟩ := @groupCacheExchange_gp S.ctx w.toGpState w.gp.spRanks
    exact h.of_eq (fun hs => by simp only [ht]; exact hs) (fun _ _ => .inr (.inr (hb.counts.due hdue))) (.inl rfl) rfl
  | queueRankRevoke hr hl hn => exact h.of_eq id hout (.inl rfl) rfl
  | markLocal hr hl hn =>
    refine h.of_eq (fun hs => ?_) (fun x hx => (mem_tellRankRevoke hx).imp id .inl) (.inl rfl) rfl
    simp only [tellRankRevoke_gp]
    exact hs
  | queueSpRevoke hr hdl => exact h.of_eq id hout (.inl rfl) rfl
  | accept hr hl hdl hT' =>
    refine h.of_eq (fun hs => ?_) hout (.inl rfl) rfl
    rw [GroupCache.learnFromRevoke, if_neg (hs ▸ S.pos.ne')]
    exact hs
  | takeRevokes ht hT' => exact h.of_eq id hout (.inl rfl) rfl
  | createBits hT' => exact h.of_eq id hout (.inl rfl) rfl
  | applyRevoke ht hT' =>
    refine h.of_eq id (fun x hx => ?_) (.inl rfl) rfl
    rcases List.mem_append.1 hx with hx | hx
    · exact .inl hx
    · obtain ⟨_, _, rfl⟩ := List.mem_map.1 hx
      exact .inr (.inl rfl)
  | post hf =>
    refine h.of_eq id (fun x hx => ?_) (.inl rfl) rfl
    rcases List.mem_append.1 hx with hx | hx
    · exact .inl hx
    · rw [List.mem_singleton.1 hx]
      exact .inr (.inl rfl)
  | reset hf he hdue => rw [h.final] at hf; cases hf
  | setSent => exact h.of_eq id hout (.inl rfl) rfl
  | setRevokeSent => exact h.of_eq id hout (.inl rfl) rfl
  | hostAdd hd' _ | hostPark hd' _ _ | hostTake hd' _ | hostRevoke _ hd' => rw [S.onDpu] at hd'; cases hd'

/-! ### Runs -/

theorem AccInv.mono {H H' : ℕ → Prop} (hH : ∀ r, H r → H' r) {w : Work} (h : AccInv S H w) : AccInv S H' w :=
  { h with
    hist := fun r hr hl => hH r (h.hist r hr hl)
    fresh := h.fresh.imp id fun ⟨i, h₁, h₂, h₃, h₄⟩ => ⟨i, h₁, h₂, h₃, hH _ h₄⟩ }

/-- What an engine keeps during a version. -/
structure Engine.AccKept (S : Site) (e : Engine) : Prop where
  /-- The counters count. -/
  base : Base S S.msgs (Work.start ⟨e.gp, e.log⟩)
  /-- The accounts agree. -/
  acc : AccInv S e.RankRevoked (Work.start ⟨e.gp, e.log⟩)
  /-- The size is known when it must be. -/
  known : KnownInv S (∃ r, e.Joined r) (Work.start ⟨e.gp, e.log⟩)

theorem Engine.AccKept.size_of_joined {e : Engine} (h : e.AccKept S) {r : ℕ} (hr : e.Joined r) :
    e.gp.groupSize = S.size :=
  (h.known.joined ⟨r, hr⟩).resolve_left fun hne => hne rfl

/-- When messages of SPs are applied the size of the group is known. -/
theorem Engine.AccKept.applies {e e' : Engine} {ev : Event} (h : e.AccKept S) (hok : S.OneVersion e ev)
    (hs : e.step S.ctx ev = some e') : ev.Applies S.ctx (fun t => t.groupSize = S.size) e.gp := by
  have hc := h.base.counts
  cases ev with
  | revokeFromRank i =>
    rintro g' rfl - -
    have hsz := h.size_of_joined hok.2.1
    have hl : e.gp.Live := hc.live_of_groupSize (hsz ▸ S.pos.ne')
    rw [getGroupCacheInternal_of_live hl]
    exact hsz
  | revokeFromSp m => exact fun _ g' hg' _ => hc.size_of_learnFromRevoke hok.1.1 hg'
  | cacheSent =>
    have hen := (Engine.step_eq_some hs).1
    simp only [Engine.enabled, Bool.and_eq_true, decide_eq_true_eq] at hen
    obtain ⟨x, hx, hc⟩ := List.countP_pos_iff.1 (Nat.zero_lt_of_lt hen.2)
    exact .inr (h.known.sent ⟨x, hx, hc⟩)
  | addGroupRank _ _ | peerCacheEntries _ _ | revokeSent | requestAdd _ | requestRevoke _ => trivial

theorem Engine.rankRevoked_append {e e' : Engine} {ev : Event} (h : e'.seen = e.seen ++ [ev]) {r : ℕ}
    (hr : e.RankRevoked r) : e'.RankRevoked r := by
  obtain ⟨i, hi, hr⟩ := hr
  exact ⟨i, by rw [h, List.filterMap_append]; exact List.mem_append_left _ hi, hr⟩

/-- The accounts as a callback of the version starts. -/
theorem Engine.AccKept.enter {e e' : Engine} {ev : Event} (h : e.AccKept S) (hok : S.OneVersion e ev)
    (hseen : e'.seen = e.seen ++ [ev]) : AccInv S e'.RankRevoked (ev.enter S.ctx ⟨e.gp, e.log⟩) := by
  have hi := h.acc.mono fun r => Engine.rankRevoked_append (r := r) hseen
  cases ev with
  | revokeFromRank i =>
    refine { hi with fresh := .inr ⟨i, rfl, hok.1.2, fun hm => hok.2.2 (h.acc.hist _ hm hok.1.2), i, ?_, rfl⟩ }
    rw [hseen, List.filterMap_append]
    exact List.mem_append_right _ List.mem_cons_self
  | revokeFromSp m =>
    simp only [Event.enter, S.onDpu, if_true]
    refine { hi with safe := fun m' hm' => ?_ }
    rcases List.mem_cons.1 hm' with rfl | hm'
    · exact hok.2
    · exact hi.safe m' hm'
  | addGroupRank _ _ | peerCacheEntries _ _ | cacheSent => exact { hi with }
  | revokeSent => exact hok.2.elim
  | requestAdd _ | requestRevoke _ => exact hok.1.elim

theorem Engine.joined_append {e e' : Engine} {ev : Event} (h : e'.seen = e.seen ++ [ev]) {r : ℕ} :
    e'.Joined r ↔ e.Joined r ∨ ev.joins? = some r := by
  rw [Engine.Joined, h, List.filterMap_append, List.mem_append]
  cases hj : ev.joins? <;> simp [Engine.Joined, hj, eq_comm]

/-- What is known of the size as a callback of the version starts. -/
theorem Engine.AccKept.enter_known {e e' : Engine} {ev : Event} (h : e.AccKept S) (hok : S.OneVersion e ev)
    (hseen : e'.seen = e.seen ++ [ev]) : KnownInv S (∃ r, e'.Joined r) (ev.enter S.ctx ⟨e.gp, e.log⟩) := by
  have hold : ev.joins? = none → (∃ r, e'.Joined r) → e.gp.groupSize = S.size := by
    rintro hj ⟨r, hr⟩
    rcases (Engine.joined_append hseen).1 hr with hr | hr
    · exact h.size_of_joined hr
    · rw [hj] at hr; cases hr
  cases ev with
  | addGroupRank c m => exact ⟨h.known.sent, fun _ => .inl (List.cons_ne_nil _ _), rfl⟩
  | peerCacheEntries _ _ => exact ⟨h.known.sent, fun hA => .inr (hold rfl hA), rfl⟩
  | revokeFromRank i => exact ⟨h.known.sent, fun hA => .inr (hold rfl hA), rfl⟩
  | revokeFromSp m =>
    simp only [Event.enter, S.onDpu, if_true]
    exact ⟨h.known.sent, fun hA => .inr (hold rfl hA), rfl⟩
  | cacheSent => exact ⟨h.known.sent, fun hA => .inr (hold rfl hA), rfl⟩
  | revokeSent => exact hok.2.elim
  | requestAdd _ | requestRevoke _ => exact hok.1.elim

theorem Engine.AccKept.step {e e' : Engine} {ev : Event} (h : e.AccKept S) (hok : S.OneVersion e ev)
    (hs : e.step S.ctx ev = some e') : e'.AccKept S := by
  obtain ⟨-, -, -, hseen⟩ := Engine.step_eq_some hs
  have hT : ∀ t : Tally, t.groupSize = S.size → t.groupSize = S.size := fun _ => id
  have hle := MsgSpec.Le.refl S.msgs
  have hinv := Site.step_keeps
    (J := fun w => AccInv S e'.RankRevoked w ∧ KnownInv S (∃ r, e'.Joined r) w) hle hT
    (fun w w' hb hJ ha => ⟨hJ.1.act hb (hb.act hle hT ha) (ha.revAct hle hT hb), hJ.2.act hb ha⟩) hs h.base hok.1
    (by rintro i rfl; exact h.size_of_joined hok.2.1) (h.applies hok hs) ?_ ⟨h.enter hok hseen, h.enter_known hok hseen⟩
  · exact ⟨hinv.1, hinv.2.1, hinv.2.2⟩
  · rintro (rfl | rfl) -
    · exact ⟨h.enter hok hseen, h.enter_known hok hseen⟩
    · exact hok.2.elim

theorem Engine.Fresh.accKept {e : Engine} (h : e.Fresh S) : e.AccKept S := by
  have hb := h.body
  simp only [GroupCache.body, newGroupCache, GroupCache.mk.injEq, true_and, and_true] at hb
  obtain ⟨-, hg, hloc, hbits, -, -, -, -, -, -, -⟩ := hb
  have hr : e.gp.revokedRanks = ∅ := revokedRanks_of_none hbits
  refine ⟨⟨h.sized, h.carries, counts_of_body h.body e.log⟩, ⟨?_, ?_, ?_, ?_, ?_, ?_, .inl rfl, fun _ => h.posted, ?_, rfl⟩,
    ⟨?_, ?_, rfl⟩⟩
  · exact hg.trans (congrArg Finset.card hr).symm
  · exact hloc.trans (by simp [Work.rev, Work.start, hr])
  · exact hloc.le.trans (Nat.zero_le _)
  · exact hloc.trans (by simp [Work.notes, Work.start, h.log])
  · exact fun m hm r hr hrl => absurd hrl (h.pending m (by simpa [Work.spMsgs, Work.start] using hm) r hr)
  · exact fun r hm => absurd (hr ▸ hm) (Finset.notMem_empty r)
  · exact .inl (by simp [Work.notes, Work.start, h.log])
  · rintro ⟨x, hx, -⟩
    rw [show (Work.start ⟨e.gp, e.log⟩).out = e.log from rfl, h.log] at hx
    exact absurd hx (List.not_mem_nil)
  · rintro ⟨r, hr⟩
    simp [Engine.Joined, h.seen] at hr

/-- **The accounts of a revoke agree** in every state of a version. -/
theorem accounted_of_reach (S : Site) {e₀ e : Engine} (h₀ : e₀.Fresh S)
    (h : Reach (Engine.step S.ctx) S.OneVersion e₀ e) : e.Accounted S := by
  have hk : e.AccKept S := h.invariant h₀.accKept fun e ev e' hI hok hs => hI.step hok hs
  have hmarks : (Work.start ⟨e.gp, e.log⟩).notes.countP Effect.isMarkedFromRank = e.log.countP Effect.isMarkedFromRank :=
    countP_notes (fun x hx => by cases x <;> simp_all [Effect.isMarkedFromRank, Effect.isNote]) _
  have hposts : (Work.start ⟨e.gp, e.log⟩).notes.countP Effect.isRevokeToRanks = e.log.countP Effect.isRevokeToRanks :=
    countP_notes (fun x hx => by cases x <;> simp_all [Effect.isRevokeToRanks, Effect.isNote]) _
  have hp := hk.acc.posts
  rw [hposts] at hp
  refine ⟨hk.acc.global, ?_, hmarks ▸ hk.acc.marks, hk.acc.sp, ?_, fun hpos => ?_⟩
  · rcases hk.base.counts.size with h0 | hs
    · exact ((hk.base.counts.unknown h0).2.2.1).le.trans (Nat.zero_le _)
    · have hle := Finset.card_le_card hk.base.counts.revoked_subset
      rw [Finset.card_range, ← hs] at hle
      exact hk.acc.global.le.trans hle
  · rcases hp with hp | hp
    · exact hp.le.trans (Nat.zero_le 1)
    · exact hp.1.le
  · exact (hp.resolve_left hpos.ne').2.2

instance (S : Site) (e : Engine) : (ev : Event) → Decidable (S.OneVersion e ev)
  | .revokeFromRank i => inferInstanceAs
      (Decidable (S.msgs.Ok (.revokeFromRank i) ∧ e.Joined i.rank ∧ ¬ e.RankRevoked i.rank))
  | .revokeFromSp m => inferInstanceAs
      (Decidable (S.msgs.Ok (.revokeFromSp m) ∧ ∀ r ∈ m.carried, r ∈ S.locals → r ∈ e.gp.revokedRanks))
  | .revokeSent => inferInstanceAs (Decidable (_ ∧ False))
  | .addGroupRank c m => inferInstanceAs (Decidable (S.msgs.Ok (.addGroupRank c m) ∧ True))
  | .peerCacheEntries sp b => inferInstanceAs (Decidable (S.msgs.Ok (.peerCacheEntries sp b) ∧ True))
  | .cacheSent => inferInstanceAs (Decidable (S.msgs.Ok .cacheSent ∧ True))
  | .requestAdd m => inferInstanceAs (Decidable (S.msgs.Ok (.requestAdd m) ∧ True))
  | .requestRevoke i => inferInstanceAs (Decidable (S.msgs.Ok (.requestRevoke i) ∧ True))

/-- An SP that has not heard of the group. -/
theorem fresh_init (S : Site) : Engine.init.Fresh S where
  body := rfl
  posted := rfl
  sized := (base_new S S.msgs []).sized
  carries := (base_new S S.msgs []).carries
  pending _ hm := absurd hm List.not_mem_nil
  log := rfl
  seen := rfl

/-- A version with a revoke message that comes early, and again after it was applied. -/
theorem accounted_of_reach_pair :
    ∃ e, Reach (Engine.step pairSite.ctx) pairSite.OneVersion Engine.init e ∧
      0 < e.log.countP Effect.isRevokeToRanks ∧ e.Accounted pairSite := by
  have h : ∃ e, Reach (Engine.step pairSite.ctx) pairSite.OneVersion Engine.init e ∧
      0 < e.log.countP Effect.isRevokeToRanks :=
    exists_reach_of_exec
      [.addGroupRank 0 (pairAdd 0 1), .revokeFromSp (pairRevoke 1), .peerCacheEntries 1 [pairEntry 1 1],
        .revokeFromRank (pairInfo 0 1), .revokeFromSp (pairRevoke 1), .cacheSent] (by decide)
  obtain ⟨e, he, hpos⟩ := h
  exact ⟨e, he, hpos, accounted_of_reach pairSite (fresh_init pairSite) he⟩

end DpuOffload
