import DpuOffload.Protocol.Actions

/-!
# An SP and one of its groups

What every SP keeps about a group it takes part in, whatever the order of events: the
counters of the group cache count what they are said to count. `Site` is the SP with
the group: its size, and which ranks are on the SP according to the world group.
`Site.Wf` says what messages about the group look like.

* `Carries` — a property of all messages in hand or put aside; no action makes one up
  (`Carries.act`).
* `Counts` — the counters: `num_local_entries` counts the ranks set,
  `n_local_ranks_populated` those of them on the SP, `sp_ranks` is the number of ranks
  on the SP once one of them is set, and the arrays are as long as the group
  (`Counts.act`).
-/

namespace DpuOffload

/-- A group of `size` ranks that is not the world group, on an SP. -/
structure Site where
  /-- The SP. -/
  ctx : GpCtx
  /-- The number of ranks. -/
  size : ℕ
  /-- The world rank of each rank. -/
  worldRanks : List ℤ
  /-- The entries of the world group. -/
  world : List PeerCacheEntry
  /-- The engine is an SP. -/
  onDpu : ctx.onDpu = true
  /-- The group has a uid. -/
  gpUid_ne : ctx.gpUid ≠ INT_MAX
  /-- The world group is known, and another group. -/
  world_eq : ctx.world = some world
  /-- A group has ranks. -/
  pos : 0 < size
  /-- A group fits in memory. -/
  alloc : Allocatable size
  /-- Each rank has a world rank. -/
  length_worldRanks : worldRanks.length = size

variable {S : Site}

/-- Is world rank `z` on the SP? -/
def Site.isOnSp (S : Site) (z : ℤ) : Bool :=
  (S.world.getD (sizeT z) initPeerCacheEntry).shadow0 == S.ctx.globalId

/-- The ranks of the group on the SP. -/
def Site.locals (S : Site) : Finset ℕ := (Finset.range S.size).filter fun r => S.isOnSp (S.worldRanks.getD r 0)

theorem Site.rankIsOnSp_eq (S : Site) (g : GroupCache) : rankIsOnSp S.ctx g = S.isOnSp := by
  funext z
  simp [rankIsOnSp, Site.isOnSp, S.world_eq]

/-- Counting the elements of a list with a property by their positions. -/
theorem length_filter_eq_card (f : ℤ → Bool) (l : List ℤ) :
    (l.filter f).length = ((Finset.range l.length).filter fun r => f (l.getD r 0)).card := by
  induction l using List.reverseRecOn with
  | nil => rfl
  | append_singleton l a ih =>
    have hl : (Finset.range l.length).filter (fun r => f ((l ++ [a]).getD r 0)) =
        (Finset.range l.length).filter fun r => f (l.getD r 0) := by
      refine Finset.filter_congr fun r hr => ?_
      rw [List.getD_append _ _ _ _ (Finset.mem_range.1 hr)]
    have ha : (l ++ [a]).getD l.length 0 = a := by simp [List.getD_eq_getElem?_getD]
    rw [List.filter_append, List.length_append, List.length_append, ih, List.length_singleton, Finset.range_add_one,
      Finset.filter_insert, hl, ha]
    by_cases h : f a
    · rw [if_pos h, Finset.card_insert_of_notMem (by simp), List.filter_cons_of_pos h]
      rfl
    · rw [if_neg h, List.filter_cons_of_neg (by simpa using h)]
      rfl

/-- The ranks `do_add_group_rank_recv_cb` counts are those on the SP. -/
theorem Site.length_filter_worldRanks (S : Site) (g : GroupCache) :
    (S.worldRanks.filter (rankIsOnSp S.ctx g)).length = S.locals.card := by
  rw [S.rankIsOnSp_eq g, length_filter_eq_card, S.length_worldRanks]
  rfl

/-- What a rank says about itself. -/
structure Site.Info (S : Site) (i : RankInfo) : Prop where
  /-- The group. -/
  groupUid : i.groupUid = S.ctx.gpUid
  /-- Its size. -/
  groupSize : i.groupSize = S.size
  /-- The rank. -/
  nonneg : 0 ≤ i.groupRank
  /-- It is in the group. -/
  lt : i.groupRank < S.size

/-- The rank, as an index. -/
def RankInfo.rank (i : RankInfo) : ℕ := sizeT i.groupRank

theorem Site.Info.rank_lt {i : RankInfo} (h : S.Info i) : i.rank < S.size := by
  have := S.alloc.lt
  have := h.lt
  have := h.nonneg
  unfold RankInfo.rank sizeT
  omega

/-- Something to know about each kind of message. -/
structure MsgSpec where
  /-- Entries. -/
  entry : PeerCacheEntry → Prop
  /-- Add messages of local ranks. -/
  add : PendingGroupAdd → Prop
  /-- Revokes of local ranks. -/
  rankRev : RankInfo → Prop
  /-- Revoke messages of SPs. -/
  rev : GroupRevokeMsgFromSp → Prop

/-- An event brings messages as they should be. -/
def MsgSpec.Ok (M : MsgSpec) : Event → Prop
  | .addGroupRank c m => M.add ⟨c, m⟩
  | .peerCacheEntries _ batch => batch ≠ [] ∧ ∀ e ∈ batch, M.entry e
  | .revokeFromRank i => M.rankRev i
  | .revokeFromSp m => M.rev m
  | .cacheSent | .revokeSent => True
  | .requestAdd _ | .requestRevoke _ => False

/-- Messages about the group as an SP gets them: local ranks add themselves and revoke,
other SPs send entries of other ranks, and revokes in chunks within the group. -/
def Site.msgs (S : Site) : MsgSpec where
  entry e := S.Info e.peer.procInfo ∧ e.peer.procInfo.rank ∉ S.locals
  add p := S.Info p.data.rankInfo ∧ p.data.rankInfo.rank ∈ S.locals ∧ p.data.worldRanks = S.worldRanks
  rankRev i := S.Info i ∧ i.rank ∈ S.locals
  rev m := m.groupSize = S.size ∧ m.rankStart + m.numRanks ≤ S.size

/-- All messages in hand or put aside are as they should be. -/
structure Carries (M : MsgSpec) (w : Work) : Prop where
  /-- The batch received. -/
  batch : ∀ e ∈ w.batch, M.entry e
  /-- The entries being handled. -/
  ents : ∀ e ∈ w.ents, M.entry e
  /-- The batches put aside. -/
  parked : ∀ p ∈ w.gp.parked, ∀ e ∈ p.payload, M.entry e
  /-- The add messages in hand. -/
  adds : ∀ p ∈ w.adds, M.add p
  /-- The add messages put aside. -/
  pendingAdds : ∀ p ∈ w.gp.persistent.pendingGroupAddMsgs, M.add p
  /-- The revokes of local ranks in hand. -/
  rankRevs : ∀ i ∈ w.rankRevs, M.rankRev i
  /-- The messages of SPs received. -/
  revs : ∀ m ∈ w.revs, M.rev m
  /-- The messages of SPs being applied. -/
  taken : ∀ m ∈ w.taken, M.rev m
  /-- The messages of SPs put aside. -/
  pendingRevs : ∀ m ∈ w.gp.persistent.pendingGroupRevokeMsgsFromSps, M.rev m

variable {ctx : GpCtx} {Sz : ℤ → Prop} {T : Tally → Prop} {M : MsgSpec}

/-- An action that at most uses messages in hand up. -/
theorem Carries.of_sub {w w' : Work} (h : Carries M w) (hg : w'.gp.queues = w.gp.queues) (hb : w'.batch ⊆ w.batch)
    (he : w'.ents ⊆ w.ents) (ha : w'.adds ⊆ w.adds) (hr : w'.rankRevs ⊆ w.rankRevs) (hs : w'.revs ⊆ w.revs)
    (ht : w'.taken ⊆ w.taken) : Carries M w' where
  batch e hmem := h.batch e (hb hmem)
  ents e hmem := h.ents e (he hmem)
  parked := by rw [GroupCache.parked, hg]; exact h.parked
  adds p hmem := h.adds p (ha hmem)
  pendingAdds := by
    change ∀ p ∈ w'.gp.queues.pendingGroupAddMsgs, _
    rw [hg]; exact h.pendingAdds
  rankRevs i hmem := h.rankRevs i (hr hmem)
  revs m hmem := h.revs m (hs hmem)
  taken m hmem := h.taken m (ht hmem)
  pendingRevs := by
    change ∀ m ∈ w'.gp.queues.pendingGroupRevokeMsgsFromSps, _
    rw [hg]; exact h.pendingRevs

theorem subset_of_eq_cons {α : Type} {l es : List α} {e : α} (h : l = e :: es) : es ⊆ l := by
  rw [h]; exact List.subset_cons_self _ _

theorem mem_of_eq_cons {α : Type} {l es : List α} {e : α} (h : l = e :: es) : e ∈ l := by
  rw [h]; exact List.mem_cons_self

/-- **No action makes a message up.** -/
theorem Carries.act {w w' : Work} (h : Carries M w) (ha : Act ctx Sz T w w') : Carries M w' := by
  have hnil : ∀ {α : Type} {P : α → Prop}, ∀ a ∈ ([] : List α), P a := fun a ha => (List.not_mem_nil ha).elim
  have hre : ∀ {α : Type} (l : List α), l ⊆ l := List.Subset.refl
  cases ha with
  | init size hs hl => exact h.of_sub rfl (hre _) (hre _) (hre _) (hre _) (hre _) (hre _)
  | learn size hs hl => exact h.of_sub (by simp) (hre _) (hre _) (hre _) (hre _) (hre _) (hre _)
  | skipEntry he hl hset =>
    exact h.of_sub rfl (hre _) (subset_of_eq_cons he) (hre _) (hre _) (hre _) (hre _)
  | addEntry he hl hL h0 hset =>
    exact h.of_sub (by simp) (hre _) (subset_of_eq_cons he) (hre _) (hre _) (hre _) (hre _)
  | parkEntries sp hs hl hp =>
    refine ⟨hnil, h.ents, fun p hp e he => ?_, h.adds, h.pendingAdds, h.rankRevs, h.revs, h.taken, h.pendingRevs⟩
    rcases List.mem_append.1 hp with hp | hp
    · exact h.parked p hp e he
    · rw [List.mem_singleton.1 hp] at he
      exact h.batch e he
  | takeBatch hl he h0 hr =>
    exact ⟨hnil, h.batch, h.parked, h.adds, h.pendingAdds, h.rankRevs, h.revs, h.taken, h.pendingRevs⟩
  | unpark he h0 =>
    refine ⟨h.batch, fun e he => ?_, hnil, h.adds, h.pendingAdds, h.rankRevs, h.revs, h.taken, h.pendingRevs⟩
    obtain ⟨p, hp, he⟩ := List.mem_flatMap.1 he
    exact h.parked p hp e he
  | sendCache hl h0 hf =>
    obtain ⟨t, ht⟩ := sendGpCacheToHost_gp w.toGpState
    exact h.of_sub (by simp only [ht, GroupCache.queues]) (hre _) (hre _) (hre _) (hre _) (hre _) (hre _)
  | parkAdd hs ha hl h0 =>
    refine ⟨h.batch, h.ents, h.parked, fun p hp => h.adds p (subset_of_eq_cons ha hp),
      fun p hp => ?_, h.rankRevs, h.revs, h.taken, h.pendingRevs⟩
    rcases List.mem_append.1 hp with hp | hp
    · exact h.pendingAdds p hp
    · rw [List.mem_singleton.1 hp]
      exact h.adds _ (mem_of_eq_cons ha)
  | takeAdds ha =>
    exact ⟨h.batch, h.ents, h.parked, h.pendingAdds, hnil, h.rankRevs, h.revs, h.taken, h.pendingRevs⟩
  | skipAdd ha hl hL h0 hset =>
    exact h.of_sub rfl (hre _) (hre _) (subset_of_eq_cons ha) (hre _) (hre _) (hre _)
  | addLocal ha hl hL h0 hset =>
    exact h.of_sub (by simp) (hre _) (hre _) (subset_of_eq_cons ha) (hre _) (hre _) (hre _)
  | exchange hdue hl =>
    obtain ⟨t, ht⟩ := @groupCacheExchange_gp ctx w.toGpState w.gp.spRanks
    exact h.of_sub (by simp only [ht, GroupCache.queues]) (hre _) (hre _) (hre _) (hre _) (hre _) (hre _)
  | queueRankRevoke hr hl hn =>
    exact ⟨h.batch, h.ents, h.parked, h.adds, h.pendingAdds, fun i hi => h.rankRevs i (subset_of_eq_cons hr hi),
      h.revs, h.taken, h.pendingRevs⟩
  | markLocal hr hl hn =>
    exact h.of_sub (by simp [GroupCache.markLocalRank, GroupCache.queues]) (hre _) (hre _) (hre _)
      (subset_of_eq_cons hr) (hre _) (hre _)
  | queueSpRevoke hr hdl =>
    refine ⟨h.batch, h.ents, h.parked, h.adds, h.pendingAdds, h.rankRevs,
      fun m hm => h.revs m (subset_of_eq_cons hr hm), h.taken, fun m hm => ?_⟩
    rcases List.mem_append.1 hm with hm | hm
    · exact h.pendingRevs m hm
    · rw [List.mem_singleton.1 hm]
      exact h.revs _ (mem_of_eq_cons hr)
  | @accept m ms hr hl hdl hT =>
    have h' : Carries M { w with taken := w.taken ++ [m] } :=
      { h with
        taken := fun m' hm => by
          rcases List.mem_append.1 hm with hm | hm
          · exact h.taken m' hm
          · rw [List.mem_singleton.1 hm]
            exact h.revs _ (mem_of_eq_cons hr) }
    exact h'.of_sub (by simp [GroupCache.queues]) (hre _) (hre _) (hre _) (hre _) (subset_of_eq_cons hr) (hre _)
  | takeRevokes ht hT =>
    exact ⟨h.batch, h.ents, h.parked, h.adds, h.pendingAdds, h.rankRevs, h.revs, h.pendingRevs, hnil⟩
  | createBits hT => exact h.of_sub rfl (hre _) (hre _) (hre _) (hre _) (hre _) (hre _)
  | applyRevoke ht hT => exact h.of_sub rfl (hre _) (hre _) (hre _) (hre _) (hre _) (subset_of_eq_cons ht)
  | post hf => exact ⟨h.batch, h.ents, h.parked, h.adds, h.pendingAdds, h.rankRevs, h.revs, h.taken, h.pendingRevs⟩
  | reset hf he hdue =>
    refine ⟨h.batch, fun e he => ?_, hnil, h.adds, h.pendingAdds, h.rankRevs, h.revs, h.taken, h.pendingRevs⟩
    obtain ⟨p, hp, he⟩ := List.mem_flatMap.1 he
    exact h.parked p hp e he
  | setSent => exact ⟨h.batch, h.ents, h.parked, h.adds, h.pendingAdds, h.rankRevs, h.revs, h.taken, h.pendingRevs⟩
  | setRevokeSent =>
    exact ⟨h.batch, h.ents, h.parked, h.adds, h.pendingAdds, h.rankRevs, h.revs, h.taken, h.pendingRevs⟩
  | hostAdd _ hr => exact h.of_sub (by simp) (hre _) (hre _) (hre _) (hre _) (hre _) (hre _)
  | hostPark _ hr h0 =>
    exact ⟨h.batch, h.ents, h.parked, h.adds, h.pendingAdds, h.rankRevs, h.revs, h.taken, h.pendingRevs⟩
  | hostTake _ hp =>
    exact ⟨h.batch, h.ents, h.parked, h.adds, h.pendingAdds, h.rankRevs, h.revs, h.taken, h.pendingRevs⟩
  | hostRevoke info _ => exact h.of_sub rfl (hre _) (hre _) (hre _) (hre _) (hre _) (hre _)

theorem GroupCache.Sized.of_queues {g g' : GroupCache} (h : g.Sized Sz) (hg : g'.queues = g.queues) : g'.Sized Sz where
  parked := by rw [GroupCache.parked, hg]; exact h.parked
  adds := by
    change ∀ p ∈ g'.queues.pendingGroupAddMsgs, _
    rw [hg]; exact h.adds

/-- The sizes announced by what is put aside stay as they should be. -/
theorem GroupCache.Sized.act {w w' : Work} (h : w.gp.Sized Sz) (ha : Act ctx Sz T w w') : w'.gp.Sized Sz := by
  cases ha with
  | init size hs hl => exact h.of_queues rfl
  | learn size hs hl => exact h.of_queues (by simp)
  | addEntry he hl hL h0 hset => exact h.of_queues (by simp)
  | parkEntries sp hs hl hp =>
    refine ⟨fun p hp => ?_, h.adds⟩
    rcases List.mem_append.1 hp with hp | hp
    · exact h.parked p hp
    · rw [List.mem_singleton.1 hp]
      exact hs
  | sendCache hl h0 hf =>
    obtain ⟨t, ht⟩ := sendGpCacheToHost_gp w.toGpState
    exact h.of_queues (by simp only [ht, GroupCache.queues])
  | parkAdd hs ha hl h0 =>
    refine ⟨h.parked, fun p hp => ?_⟩
    rcases List.mem_append.1 hp with hp | hp
    · exact h.adds p hp
    · rw [List.mem_singleton.1 hp]
      exact hs
  | addLocal ha hl hL h0 hset => exact h.of_queues (by simp)
  | exchange hdue hl =>
    obtain ⟨t, ht⟩ := @groupCacheExchange_gp ctx w.toGpState w.gp.spRanks
    exact h.of_queues (by simp only [ht, GroupCache.queues])
  | markLocal hr hl hn => exact h.of_queues (by simp [GroupCache.markLocalRank, GroupCache.queues])
  | accept hr hl hdl hT => exact h.of_queues (by simp [GroupCache.queues])
  | unpark he h0 => exact ⟨fun p hp => (List.not_mem_nil hp).elim, h.adds⟩
  | reset hf he hdue => exact ⟨fun p hp => (List.not_mem_nil hp).elim, h.adds⟩
  | takeAdds ha => exact ⟨h.parked, fun p hp => (List.not_mem_nil hp).elim⟩
  | skipEntry _ _ _ | takeBatch _ _ _ _ | skipAdd _ _ _ _ _ | queueRankRevoke _ _ _ | queueSpRevoke _ _
  | takeRevokes _ _ | createBits _ | applyRevoke _ _ | post _ | setSent | setRevokeSent | hostPark _ _ _ | hostTake _ _
  | hostRevoke _ _ => exact ⟨h.parked, h.adds⟩
  | hostAdd hd hr => exact h.of_queues (by simp)

/-- A process that has not heard of the group has nothing put aside. -/
theorem GroupCache.Sized.new : newGroupCache.Sized Sz :=
  ⟨fun _ hp => (List.not_mem_nil hp).elim, fun _ hp => (List.not_mem_nil hp).elim⟩

theorem Carries.new (M : MsgSpec) (log : List Effect) : Carries M (Work.start ⟨newGroupCache, log⟩) := by
  have hnil : ∀ {α : Type} {P : α → Prop}, ∀ a ∈ ([] : List α), P a := fun a ha => (List.not_mem_nil ha).elim
  exact ⟨hnil, hnil, hnil, hnil, hnil, hnil, hnil, hnil, hnil⟩

/-- Between two callbacks only what is put aside matters. -/
theorem Carries.of_queues {g g' : GroupCache} {log log' : List Effect} (h : Carries M (Work.start ⟨g, log⟩))
    (hq : g'.queues = g.queues) : Carries M (Work.start ⟨g', log'⟩) :=
  h.of_sub hq (List.Subset.refl _) (List.Subset.refl _) (List.Subset.refl _) (List.Subset.refl _)
    (List.Subset.refl _) (List.Subset.refl _)

/-- A callback starts with the event's message in hand. -/
theorem Carries.enter {g : GroupCache} {log : List Effect} (h : Carries M (Work.start ⟨g, log⟩)) {ev : Event}
    (hok : M.Ok ev) (c : GpCtx) : Carries M (ev.enter c ⟨g, log⟩) := by
  have hone : ∀ {α : Type} {P : α → Prop} {a : α}, P a → ∀ b ∈ [a], P b := by
    intro α P a hP b hb
    rw [List.mem_singleton.1 hb]
    exact hP
  cases ev with
  | addGroupRank c m => exact { h with adds := hone hok }
  | peerCacheEntries sp batch => exact { h with batch := hok.2 }
  | revokeFromRank i => exact { h with rankRevs := hone hok }
  | revokeFromSp m =>
    simp only [Event.enter]
    split
    · exact { h with revs := hone hok }
    · exact { h with }
  | cacheSent => exact h
  | revokeSent => exact { h with }
  | requestAdd _ | requestRevoke _ => exact hok.elim

/-! ### The counters count -/

/-- The ranks that are set. -/
def Site.setRanks (S : Site) (g : GroupCache) : Finset ℕ := (Finset.range S.size).filter fun r => g.isSet r

/-- The ranks that revoked the group. -/
def GroupCache.revokedRanks (g : GroupCache) : Finset ℕ := (g.revokesRanks.getD []).bits

theorem Site.mem_setRanks {g : GroupCache} {r : ℕ} : r ∈ S.setRanks g ↔ r < S.size ∧ g.isSet r = true := by
  simp [Site.setRanks]

theorem Site.setRanks_congr {g g' : GroupCache} (h : g'.ranks = g.ranks) : S.setRanks g' = S.setRanks g := by
  refine Finset.filter_congr fun r _ => ?_
  rw [isSet_congr h]

/-- Setting a rank inserts it. -/
theorem Site.setRanks_setEntryAt {g : GroupCache} {l : List PeerCacheEntry} (hl : g.ranks = some l)
    (hlen : l.length = S.size) {r : ℕ} (hr : r < S.size) {e : PeerCacheEntry} (he : e.set = true) :
    S.setRanks (g.setEntryAt r e) = insert r (S.setRanks g) := by
  ext q
  rw [Finset.mem_insert, Site.mem_setRanks, Site.mem_setRanks, isSet_setEntryAt hl (hlen ▸ hr)]
  by_cases h : q = r
  · simp [h, hr, he]
  · simp [h]

/-- A group cache without what a revoke does not reset, and without its topology. -/
def GroupCache.body (g : GroupCache) : GroupCache := { g with persistent := Persistent.init, topo := Topology.empty }

/-- **What the counters of a group cache count**, in the middle of any callback. -/
structure Counts (S : Site) (w : Work) : Prop where
  /-- A group not in use is as the pool hands it out. -/
  dead : ¬ w.gp.Live → w.gp.body = newGroupCache
  /-- A group in use is initialised, with an entry for each rank. -/
  live : w.gp.Live → w.gp.initialized = true ∧ ∃ l, w.gp.ranks = some l ∧ l.length = S.size
  /-- The size is known or not. -/
  size : w.gp.groupSize = 0 ∨ w.gp.groupSize = S.size
  /-- Until it is known there is nothing. -/
  unknown : w.gp.groupSize = 0 → w.gp.numLocalEntries = 0 ∧ w.gp.revokesRanks = none ∧ w.gp.revokesGlobal = 0 ∧
    w.gp.revokesLocal = 0
  /-- Once it is known there is a bit for each rank. -/
  bits : w.gp.groupSize = S.size → ∃ b, w.gp.revokesRanks = some b ∧ S.size ≤ b.capacity ∧ b.bits ⊆ Finset.range S.size
  /-- `num_local_entries` counts the ranks set. -/
  entries : w.gp.numLocalEntries = (S.setRanks w.gp).card
  /-- `n_local_ranks_populated` counts those on the SP. -/
  populated : w.gp.nLocalRanksPopulated = (S.setRanks w.gp ∩ S.locals).card
  /-- `sp_ranks` is the number of ranks on the SP, once one is set. -/
  spRanks : w.gp.spRanks = if w.gp.nLocalRanksPopulated = 0 then 0 else S.locals.card
  /-- A local rank revokes a group of known size. -/
  rankRevs : w.rankRevs ≠ [] → w.gp.groupSize = S.size
  /-- An exchange is about a group of known size. -/
  due : w.due = true → w.gp.groupSize = S.size
  /-- A reset is not about a revoke of a local rank. -/
  final : w.final = true → w.rankRevs = []

/-- An action on the queues or the topology leaves the counters. -/
theorem Counts.of_body {w w' : Work} (h : Counts S w) (hb : w'.gp.body = w.gp.body) (hr : w'.rankRevs ⊆ w.rankRevs)
    (hd : w'.due = true → w.gp.groupSize = S.size) (hf : w'.final = true → w.final = true) : Counts S w' := by
  have hb' := hb
  simp only [GroupCache.body, GroupCache.mk.injEq, true_and, and_true] at hb'
  obtain ⟨hi, hg, hloc, hbits, hsize, hu, hn, -, hp, hsp, hranks⟩ := hb'
  have hl : w'.gp.Live ↔ w.gp.Live := by simp only [GroupCache.Live, hu]
  refine ⟨?_, ?_, ?_, ?_, ?_, ?_, ?_, ?_, ?_, ?_, ?_⟩
  · rw [hl, hb]; exact h.dead
  · rw [hl, hranks, hi]; exact h.live
  · rw [hsize]; exact h.size
  · rw [hsize, hn, hbits, hg, hloc]; exact h.unknown
  · rw [hsize, hbits]; exact h.bits
  · rw [hn, Site.setRanks_congr hranks]; exact h.entries
  · rw [hp, Site.setRanks_congr hranks]; exact h.populated
  · rw [hp, hsp]; exact h.spRanks
  · intro hne
    rw [hsize]
    exact h.rankRevs fun h0 => hne (List.subset_nil.1 (h0 ▸ hr))
  · intro hdue
    rw [hsize]
    exact hd hdue
  · intro hfin
    exact List.subset_nil.1 (h.final (hf hfin) ▸ hr)

theorem Site.locals_subset_range (S : Site) : S.locals ⊆ Finset.range S.size := Finset.filter_subset _ _

/-- In a complete group every rank is set. -/
theorem Counts.setRanks_of_full {w : Work} (h : Counts S w) (hn : w.gp.numLocalEntries = S.size) :
    S.setRanks w.gp = Finset.range S.size := by
  refine Finset.eq_of_subset_of_card_le (Finset.filter_subset _ _) ?_
  rw [← h.entries, hn, Finset.card_range]

/-- In a complete group `sp_ranks` is the number of local ranks. -/
theorem Counts.spRanks_of_full {w : Work} (h : Counts S w) (hn : w.gp.numLocalEntries = S.size) :
    w.gp.spRanks = S.locals.card := by
  have hpop : w.gp.nLocalRanksPopulated = S.locals.card := by
    rw [h.populated, h.setRanks_of_full hn, Finset.inter_eq_right.2 S.locals_subset_range]
  rw [h.spRanks, hpop]
  split <;> simp_all

/-- A group that has learnt its size knows it. -/
theorem Counts.groupSize_of_learnt {w : Work} (h : Counts S w) (hl : w.gp.Live)
    (hL : w.gp.Learnt S.ctx.hosts (· = (S.size : ℤ))) : w.gp.groupSize = S.size := by
  refine h.size.resolve_left fun h0 => ?_
  obtain ⟨size, rfl, hL⟩ := hL
  have hsz : (w.gp.learnGroupSize S.ctx.hosts S.size).groupSize = S.size := by
    simp [GroupCache.learnGroupSize, (h.live hl).1, h0, sizeT_natCast S.alloc.lt]
  rw [hL, h0] at hsz
  exact S.pos.ne hsz

theorem notLive_reset (g : GroupCache) (p : Persistent) :
    ¬ ({ resetGroupCache g with persistent := p } : GroupCache).Live :=
  fun h => h rfl

theorem Site.setRanks_of_ranks_none {g : GroupCache} (h : g.ranks = none) : S.setRanks g = ∅ := by
  ext r
  simp [Site.mem_setRanks, isSet_of_ranks_none h]

theorem Counts.reset {w : Work} (h : Counts S w) (hf : w.final = true) (hdue : w.due = false) (p : Persistent)
    (out : List Effect) (ents : List PeerCacheEntry) :
    Counts S { w with
      gp := { resetGroupCache w.gp with persistent := p }, out := out, ents := ents, final := false } where
  dead _ := rfl
  live hl := absurd hl (notLive_reset _ _)
  size := .inl rfl
  unknown _ := ⟨rfl, rfl, rfl, rfl⟩
  bits h0 := absurd h0 S.pos.ne
  entries := by rw [Site.setRanks_of_ranks_none rfl]; rfl
  populated := by rw [Site.setRanks_of_ranks_none rfl]; simp [resetGroupCache, basicInitGroupCache]
  spRanks := rfl
  rankRevs hne := absurd (h.final hf) hne
  due hd := by rw [hdue] at hd; cases hd
  final hf := by cases hf

theorem Counts.init {w : Work} (h : Counts S w) (hl : ¬ w.gp.Live) :
    Counts S { w with gp := { initGroupCache w.gp (sizeT S.size) with groupUid := S.ctx.gpUid } } := by
  have h0 : w.gp.groupSize = 0 := congrArg GroupCache.groupSize (h.dead hl)
  have hne : w.gp.groupSize ≠ S.size := by rw [h0]; exact S.pos.ne
  have hlen : allocEntries (sizeT S.size) = S.size := by rw [sizeT_natCast S.alloc.lt, S.alloc.allocEntries_eq]
  have hset : S.setRanks { initGroupCache w.gp (sizeT S.size) with groupUid := S.ctx.gpUid } = ∅ := by
    refine Finset.eq_empty_of_forall_notMem fun r hr => ?_
    have hr := (Site.mem_setRanks.1 hr).2
    rw [isSet_replicate (k := allocEntries (sizeT S.size)) rfl] at hr
    cases hr
  refine ⟨fun hd => absurd S.gpUid_ne hd, fun _ => ⟨rfl, _, rfl, by simpa using hlen⟩, .inl rfl,
    fun _ => ⟨rfl, rfl, rfl, rfl⟩, fun h0 => absurd h0 S.pos.ne, ?_, ?_, rfl, fun hr => absurd (h.rankRevs hr) hne,
    fun hd => absurd (h.due hd) hne, h.final⟩
  · rw [hset]; rfl
  · rw [hset]; simp [initGroupCache, basicInitGroupCache]

/-- A group that learns its size, from an entry, a rank or a revoke. -/
theorem Counts.known {w : Work} (h : Counts S w) (hl : w.gp.Live) (t : Topology) :
    Counts S { w with
      gp := { w.gp with groupSize := S.size, topo := t, revokesRanks := some (Bitset.create S.size) } } where
  dead hd := absurd hl hd
  live _ := h.live hl
  size := .inr rfl
  unknown h0 := absurd h0 S.pos.ne'
  bits _ := ⟨_, rfl, Bitset.le_capacity_create _, by simp⟩
  entries := h.entries
  populated := h.populated
  spRanks := h.spRanks
  rankRevs _ := rfl
  due _ := rfl
  final := h.final

theorem Counts.learn {w : Work} (h : Counts S w) (hl : w.gp.Live) :
    Counts S { w with gp := w.gp.learnGroupSize S.ctx.hosts S.size } := by
  by_cases h0 : w.gp.groupSize = 0
  · have hbits := (h.unknown h0).2.1
    rw [GroupCache.learnGroupSize, if_pos ⟨(h.live hl).1, h0, Int.natCast_nonneg _⟩, sizeT_natCast S.alloc.lt, hbits]
    exact h.known hl _
  · rw [learnGroupSize_of_known h0]
    exact h

theorem Counts.learnFromRevoke {w : Work} (h : Counts S w) (hl : w.gp.Live) {m : GroupRevokeMsgFromSp}
    (hm : m.groupSize = S.size) : Counts S { w with gp := w.gp.learnFromRevoke m } := by
  unfold GroupCache.learnFromRevoke
  split
  · rename_i h0
    rw [(h.unknown h0).2.1, hm]
    exact h.known hl w.gp.topo
  · exact h

/-- An action on the revokes of a group of known size. -/
theorem Counts.of_revokes {w : Work} (h : Counts S w) (hs : w.gp.groupSize = S.size) {b : Bitset}
    (hcap : S.size ≤ b.capacity) (hb : b.bits ⊆ Finset.range S.size) (global loc : ℕ) {is : List RankInfo}
    (his : is ⊆ w.rankRevs) (out : List Effect) (taken : List GroupRevokeMsgFromSp) :
    Counts S { w with
      gp := { w.gp with revokesRanks := some b, revokesGlobal := global, revokesLocal := loc }
      out := out, rankRevs := is, taken := taken } where
  dead hd := by
    have h0 : w.gp.groupSize = 0 := congrArg GroupCache.groupSize (h.dead hd)
    exact absurd (h0.symm.trans hs) S.pos.ne
  live := h.live
  size := h.size
  unknown h0 := absurd (h0.symm.trans hs) S.pos.ne
  bits _ := ⟨b, rfl, hcap, hb⟩
  entries := h.entries
  populated := h.populated
  spRanks := h.spRanks
  rankRevs _ := hs
  due := h.due
  final hf := List.subset_nil.1 (h.final hf ▸ his)

theorem Counts.markLocal {w : Work} {i : RankInfo} {is : List RankInfo} (h : Counts S w) (hr : w.rankRevs = i :: is)
    (hi : S.Info i) : Counts S { w with toGpState := tellRankRevoke S.ctx w.toGpState i, rankRevs := is } := by
  have hs : w.gp.groupSize = S.size := h.rankRevs (by rw [hr]; exact List.cons_ne_nil _ _)
  obtain ⟨b, hb, hcap, hsub⟩ := h.bits hs
  have hlt : i.rank < b.capacity := hi.rank_lt.trans_le hcap
  have hgp : (tellRankRevoke S.ctx w.toGpState i).gp = { w.gp with
      revokesRanks := some (b.set i.rank), revokesGlobal := w.gp.revokesGlobal + 1
      revokesLocal := w.gp.revokesLocal + 1 } := by
    rw [tellRankRevoke_gp, GroupCache.markLocalRank, hb]
    rfl
  have := h.of_revokes hs (b := b.set i.rank) (by simpa using hcap)
    (by rw [Bitset.bits_set hlt]; exact Finset.insert_subset (Finset.mem_range.2 hi.rank_lt) hsub)
    (w.gp.revokesGlobal + 1) (w.gp.revokesLocal + 1) (subset_of_eq_cons hr) (tellRankRevoke S.ctx w.toGpState i).out
    w.taken
  rwa [← hgp] at this

theorem Counts.applyRevoke {w : Work} {m : GroupRevokeMsgFromSp} (h : Counts S w) (hs : w.gp.groupSize = S.size)
    (hm : m.rankStart + m.numRanks ≤ S.size) (out : List Effect) (taken : List GroupRevokeMsgFromSp) :
    Counts S { w with gp := (w.gp.applyRevokeMsg m).1, out := out, taken := taken } := by
  obtain ⟨b, hb, hcap, hsub⟩ := h.bits hs
  have hlt : ∀ r ∈ m.carried, r < S.size := fun r hr => (mem_carried hr).trans_le hm
  have hltc : ∀ r ∈ m.carried, r < b.capacity := fun r hr => (hlt r hr).trans_le hcap
  simp only [GroupCache.applyRevokeMsg, hb, Option.getD_some]
  refine h.of_revokes hs (by rwa [capacity_markRanks hltc]) ?_ _ w.gp.revokesLocal (List.Subset.refl _) out taken
  rw [bits_markRanks hltc]
  refine Finset.union_subset hsub fun r hr => Finset.mem_range.2 (hlt r (List.mem_toFinset.1 hr))

/-- One more entry, of a rank that was not set. -/
theorem Site.card_setRanks_insert {g : GroupCache} {r : ℕ} (h : g.isSet r = false) :
    (insert r (S.setRanks g)).card = (S.setRanks g).card + 1 :=
  Finset.card_insert_of_notMem fun hm => by
    rw [(Site.mem_setRanks.1 hm).2] at h
    cases h

theorem Counts.addEntry {w : Work} {e : PeerCacheEntry} (h : Counts S w) (hl : w.gp.Live)
    (hs : w.gp.groupSize = S.size) (hset : w.gp.isSet e.peer.procInfo.rank = false)
    (he : S.Info e.peer.procInfo) (hloc : e.peer.procInfo.rank ∉ S.locals) (ents : List PeerCacheEntry) :
    Counts S { w with gp := w.gp.addPeerEntry S.ctx e, ents := ents } := by
  obtain ⟨hi, l, hr, hlen⟩ := h.live hl
  obtain ⟨t, ht⟩ := addPeerEntry_eq S.ctx w.gp e
  have hset' : S.setRanks (w.gp.addPeerEntry S.ctx e) = insert e.peer.procInfo.rank (S.setRanks w.gp) := by
    rw [← Site.setRanks_setEntryAt hr hlen he.rank_lt (e := w.gp.peerEntry e) rfl]
    exact Site.setRanks_congr (by rw [ht]; rfl)
  have hent : (w.gp.addPeerEntry S.ctx e).numLocalEntries = (S.setRanks (w.gp.addPeerEntry S.ctx e)).card := by
    rw [hset', Site.card_setRanks_insert hset, ← h.entries, ht]
  have hpop : (w.gp.addPeerEntry S.ctx e).nLocalRanksPopulated =
      (S.setRanks (w.gp.addPeerEntry S.ctx e) ∩ S.locals).card := by
    rw [hset', Finset.insert_inter_of_notMem hloc, ← h.populated, ht]
  simp only [ht] at hent hpop ⊢
  exact ⟨fun hd => absurd hl hd, fun _ => ⟨hi, _, by rw [hr]; rfl, by simpa using hlen⟩, .inr hs,
    fun h0 => absurd (h0.symm.trans hs) S.pos.ne, h.bits, hent, hpop, h.spRanks, h.rankRevs, h.due, h.final⟩

theorem Counts.addLocal {w : Work} {c : ℕ} {m : GroupAddMsg} (h : Counts S w) (hl : w.gp.Live)
    (hs : w.gp.groupSize = S.size) (hset : w.gp.isSet m.rankInfo.rank = false) (he : S.Info m.rankInfo)
    (hloc : m.rankInfo.rank ∈ S.locals) (hw : m.worldRanks = S.worldRanks) (adds : List PendingGroupAdd) :
    Counts S { w with gp := w.gp.addGroupRank S.ctx c m, adds := adds, due := true } := by
  obtain ⟨hi, l, hr, hlen⟩ := h.live hl
  obtain ⟨t, k, sp, ht, g', hsp⟩ := addGroupRank_eq S.ctx w.gp c m
  rw [hw, S.length_filter_worldRanks] at hsp
  have hset' : S.setRanks (w.gp.addGroupRank S.ctx c m) = insert m.rankInfo.rank (S.setRanks w.gp) := by
    rw [← Site.setRanks_setEntryAt hr hlen he.rank_lt (e := localEntry S.ctx c m.rankInfo) rfl]
    exact Site.setRanks_congr (by rw [ht]; rfl)
  have hent : (w.gp.addGroupRank S.ctx c m).numLocalEntries = (S.setRanks (w.gp.addGroupRank S.ctx c m)).card := by
    rw [hset', Site.card_setRanks_insert hset, ← h.entries, ht]
  have hpop : (w.gp.addGroupRank S.ctx c m).nLocalRanksPopulated =
      (S.setRanks (w.gp.addGroupRank S.ctx c m) ∩ S.locals).card := by
    rw [hset', Finset.insert_inter_of_mem hloc, Finset.card_insert_of_notMem, ← h.populated, ht]
    intro hm
    rw [(Site.mem_setRanks.1 (Finset.mem_inter.1 hm).1).2] at hset
    cases hset
  have hsp' : (if w.gp.spRanks = 0 then sp else w.gp.spRanks) = S.locals.card := by
    have := h.spRanks
    split
    · exact hsp
    · rename_i hne
      rw [this] at hne ⊢
      split at hne
      · exact absurd rfl hne
      · rw [if_neg ‹_›]
  simp only [ht, hsp'] at hent hpop ⊢
  exact ⟨fun hd => absurd hl hd, fun _ => ⟨hi, _, by rw [hr]; rfl, by simpa using hlen⟩, .inr hs,
    fun h0 => absurd (h0.symm.trans hs) S.pos.ne, h.bits, hent, hpop, by simp, h.rankRevs, fun _ => hs, h.final⟩

theorem Counts.act (hT : ∀ t, T t → t.groupSize = S.size) {w w' : Work} (h : Counts S w) (hc : Carries S.msgs w)
    (ha : Act S.ctx (· = (S.size : ℤ)) T w w') : Counts S w' := by
  have hre : ∀ {α : Type} (l : List α), l ⊆ l := List.Subset.refl
  cases ha with
  | init size hs hl => subst hs; exact h.init hl
  | learn size hs hl => subst hs; exact h.learn hl
  | skipEntry he hl hset => exact h.of_body rfl (hre _) h.due id
  | addEntry he hl hL h0 hset =>
    obtain ⟨hi, hloc⟩ := hc.ents _ (mem_of_eq_cons he)
    exact h.addEntry hl (h.groupSize_of_learnt hl hL) hset hi hloc _
  | parkEntries sp hs hl hp => exact h.of_body rfl (hre _) h.due id
  | takeBatch hl he h0 hr => exact h.of_body rfl (hre _) h.due id
  | unpark he h0 => exact h.of_body rfl (hre _) h.due id
  | sendCache hl h0 hf =>
    obtain ⟨t, ht⟩ := sendGpCacheToHost_gp w.toGpState
    exact h.of_body (by simp only [ht]; rfl) (hre _) h.due id
  | parkAdd hs ha hl h0 => exact h.of_body rfl (hre _) h.due id
  | takeAdds ha => exact h.of_body rfl (hre _) h.due id
  | skipAdd ha hl hL h0 hset => exact h.of_body rfl (hre _) (fun _ => h.groupSize_of_learnt hl hL) id
  | addLocal ha hl hL h0 hset =>
    obtain ⟨hi, hloc, hw⟩ := hc.adds _ (mem_of_eq_cons ha)
    exact h.addLocal hl (h.groupSize_of_learnt hl hL) hset hi hloc hw _
  | exchange hdue hl =>
    obtain ⟨t, ht⟩ := @groupCacheExchange_gp S.ctx w.toGpState w.gp.spRanks
    exact h.of_body (by simp only [ht]; rfl) (hre _) (fun hf => by cases hf) id
  | queueRankRevoke hr hl hn => exact h.of_body rfl (subset_of_eq_cons hr) h.due id
  | markLocal hr hl hn => exact h.markLocal hr (hc.rankRevs _ (mem_of_eq_cons hr)).1
  | queueSpRevoke hr hdl => exact h.of_body rfl (hre _) h.due id
  | accept hr hl hdl hT' =>
    have h' := h.learnFromRevoke hl (hc.revs _ (mem_of_eq_cons hr)).1
    exact h'.of_body rfl (hre _) h'.due id
  | takeRevokes ht hT' => exact h.of_body rfl (hre _) h.due id
  | createBits hT' =>
    obtain ⟨b, hb, hcap, hsub⟩ := h.bits (hT _ hT')
    rw [hb]
    exact h.of_revokes (hT _ hT') hcap hsub w.gp.revokesGlobal w.gp.revokesLocal (hre _) w.out w.taken
  | applyRevoke ht hT' => exact h.applyRevoke (hT _ hT') (hc.taken _ (mem_of_eq_cons ht)).2 _ _
  | post hf => exact h.of_body rfl (hre _) h.due id
  | reset hf he hdue => exact h.reset hf hdue _ _ _
  | setSent => exact h.of_body rfl (hre _) h.due id
  | setRevokeSent => exact h.of_body rfl (hre _) h.due id
  | hostAdd hd' _ | hostPark hd' _ _ | hostTake hd' _ | hostRevoke _ hd' => rw [S.onDpu] at hd'; cases hd'

/-! ### Callbacks and events -/

/-- What one description of messages says implies what another says. -/
structure MsgSpec.Le (M M' : MsgSpec) : Prop where
  /-- Of entries. -/
  entry : ∀ e, M.entry e → M'.entry e
  /-- Of add messages. -/
  add : ∀ p, M.add p → M'.add p
  /-- Of revokes of local ranks. -/
  rankRev : ∀ i, M.rankRev i → M'.rankRev i
  /-- Of revoke messages of SPs. -/
  rev : ∀ m, M.rev m → M'.rev m

theorem MsgSpec.Le.refl (M : MsgSpec) : M.Le M := ⟨fun _ => id, fun _ => id, fun _ => id, fun _ => id⟩

theorem Carries.mono {M' : MsgSpec} (hM : M.Le M') {w : Work} (h : Carries M w) : Carries M' w where
  batch e he := hM.entry e (h.batch e he)
  ents e he := hM.entry e (h.ents e he)
  parked p hp e he := hM.entry e (h.parked p hp e he)
  adds p hp := hM.add p (h.adds p hp)
  pendingAdds p hp := hM.add p (h.pendingAdds p hp)
  rankRevs i hi := hM.rankRev i (h.rankRevs i hi)
  revs m hm := hM.rev m (h.revs m hm)
  taken m hm := hM.rev m (h.taken m hm)
  pendingRevs m hm := hM.rev m (h.pendingRevs m hm)

/-- What is known of an SP and its group in the middle of a callback. -/
structure Base (S : Site) (M : MsgSpec) (w : Work) : Prop where
  /-- What is put aside announces the size of the group. -/
  sized : w.gp.Sized (· = (S.size : ℤ))
  /-- The messages are as they should be. -/
  carries : Carries M w
  /-- The counters count. -/
  counts : Counts S w

theorem Base.act (hM : M.Le S.msgs) (hT : ∀ t, T t → t.groupSize = S.size) {w w' : Work} (h : Base S M w)
    (ha : Act S.ctx (· = (S.size : ℤ)) T w w') : Base S M w' :=
  ⟨h.sized.act ha, h.carries.act ha, h.counts.act hT (h.carries.mono hM) ha⟩

theorem counts_of_body {g : GroupCache} (hg : g.body = newGroupCache) (log : List Effect) :
    Counts S (Work.start ⟨g, log⟩) := by
  have hb := hg
  simp only [GroupCache.body, newGroupCache, GroupCache.mk.injEq, true_and, and_true] at hb
  obtain ⟨-, hglob, hloc, hbits, hsz, hu, hn, -, hp, hsp, hranks⟩ := hb
  exact
    { dead := fun _ => hg
      live := fun hl => absurd hu hl
      size := .inl hsz
      unknown := fun _ => ⟨hn, hbits, hglob, hloc⟩
      bits := fun h0 => absurd (hsz.symm.trans h0) S.pos.ne
      entries := by rw [Site.setRanks_of_ranks_none (g := (Work.start ⟨g, log⟩).gp) hranks]; exact hn
      populated := by
        rw [Site.setRanks_of_ranks_none (g := (Work.start ⟨g, log⟩).gp) hranks, Finset.empty_inter]; exact hp
      spRanks := hsp.trans (if_pos hp).symm
      rankRevs := fun hne => absurd rfl hne
      due := fun hd => by cases hd
      final := fun _ => rfl }

/-- An SP that has not heard of the group. -/
theorem base_new (S : Site) (M : MsgSpec) (log : List Effect) : Base S M (Work.start ⟨newGroupCache, log⟩) :=
  ⟨GroupCache.Sized.new, Carries.new M log, counts_of_body rfl log⟩

/-- Messages that announce a group of `n` ranks. -/
def sizeMsgs (n : ℕ) : MsgSpec where
  entry e := e.peer.procInfo.groupSize = n
  add p := p.data.rankInfo.groupSize = n
  rankRev i := i.groupSize = n
  rev m := m.groupSize = n

theorem MsgSpec.Ok.sizes {n : ℕ} (hM : M.Le (sizeMsgs n)) {ev : Event} (h : M.Ok ev) : ev.Sizes (· = (n : ℤ)) := by
  cases ev with
  | addGroupRank c m => exact hM.add _ h
  | peerCacheEntries sp batch =>
    obtain ⟨hne, h⟩ := h
    cases batch with
    | nil => exact absurd rfl hne
    | cons e es => exact hM.entry e (h e List.mem_cons_self)
  | revokeFromRank i => exact hM.rankRev i h
  | revokeFromSp m => exact congrArg Nat.cast (hM.rev m h)
  | cacheSent | revokeSent => trivial
  | requestAdd _ | requestRevoke _ => exact h.elim

theorem Site.msgs_le (S : Site) : S.msgs.Le (sizeMsgs S.size) :=
  ⟨fun _ he => he.1.groupSize, fun _ hp => hp.1.groupSize, fun _ hi => hi.1.groupSize, fun _ hm => hm.1⟩

theorem MsgSpec.Ok.mono {M' : MsgSpec} (hM : M.Le M') {ev : Event} (h : M.Ok ev) : M'.Ok ev := by
  cases ev with
  | addGroupRank c m => exact hM.add _ h
  | peerCacheEntries sp batch => exact ⟨h.1, fun e he => hM.entry e (h.2 e he)⟩
  | revokeFromRank i => exact hM.rankRev i h
  | revokeFromSp m => exact hM.rev m h
  | cacheSent | revokeSent | requestAdd _ | requestRevoke _ => exact h

/-- Only the completion of a send can be about no group. -/
theorem Site.ignored_of_ok {ev : Event} (h : S.msgs.Ok ev) {slot : Option GroupCache} (hi : ev.Ignored slot) :
    (ev = .cacheSent ∨ ev = .revokeSent) ∧ slot = none := by
  cases ev with
  | addGroupRank c m =>
    rcases hi with hi | hi
    · exact absurd (h.1.groupUid.symm.trans hi) S.gpUid_ne
    · have := h.1.nonneg
      rw [hi] at this
      exact absurd this (by decide)
  | revokeFromRank i => exact absurd (h.1.groupUid.symm.trans hi) S.gpUid_ne
  | cacheSent => exact ⟨.inl rfl, hi⟩
  | revokeSent => exact ⟨.inr rfl, hi⟩
  | peerCacheEntries _ _ | revokeFromSp _ | requestAdd _ | requestRevoke _ => exact hi.elim

/-- A callback starts with the event's message in hand. -/
theorem Base.enter {g : GroupCache} {log : List Effect} (h : Base S M (Work.start ⟨g, log⟩)) {ev : Event}
    (hok : M.Ok ev) (hr : ∀ i, ev = .revokeFromRank i → g.groupSize = S.size) :
    Base S M (ev.enter S.ctx ⟨g, log⟩) := by
  have hc := h.carries.enter hok S.ctx
  cases ev with
  | addGroupRank c m => exact ⟨h.sized, hc, { h.counts with }⟩
  | peerCacheEntries sp batch => exact ⟨h.sized, hc, { h.counts with }⟩
  | revokeFromRank i =>
    exact ⟨h.sized, hc, { h.counts with rankRevs := fun _ => hr i rfl, final := fun hf => by cases hf }⟩
  | revokeFromSp m =>
    simp only [Event.enter, S.onDpu, if_true] at hc ⊢
    exact ⟨h.sized, hc, { h.counts with }⟩
  | cacheSent => exact h
  | revokeSent => exact ⟨h.sized, hc, { h.counts with final := fun _ => rfl }⟩
  | requestAdd _ | requestRevoke _ => exact hok.elim

/-- **The invariant rule of an SP**: what the actions keep, a step of the engine keeps. -/
theorem Site.step_keeps (hM : M.Le S.msgs) (hT : ∀ t, T t → t.groupSize = S.size) {J : Work → Prop}
    (hJ : ∀ w w', Base S M w → J w → Act S.ctx (· = (S.size : ℤ)) T w w' → J w') {e e' : Engine} {ev : Event}
    (hs : e.step S.ctx ev = some e') (hb : Base S M (Work.start ⟨e.gp, e.log⟩)) (hok : M.Ok ev)
    (hr : ∀ i, ev = .revokeFromRank i → e.gp.groupSize = S.size) (happ : ev.Applies S.ctx T e.gp)
    (h0 : ev = .cacheSent ∨ ev = .revokeSent → e.slot = none → J (Work.start ⟨e.gp, e.log⟩))
    (h : J (ev.enter S.ctx ⟨e.gp, e.log⟩)) :
    Base S M (Work.start ⟨e'.gp, e'.log⟩) ∧ J (Work.start ⟨e'.gp, e'.log⟩) := by
  rcases Engine.step_acts S.gpUid_ne hs hb.sized ((hok.mono hM).sizes S.msgs_le) happ with ⟨hi, hgp, hlog⟩ | hw
  · rw [hgp, hlog]
    obtain ⟨hev, hslot⟩ := Site.ignored_of_ok (hok.mono hM) hi
    exact ⟨hb, h0 hev hslot⟩
  · exact Transition.keeps (J := fun w => Base S M w ∧ J w)
      (fun w w' hI ha => ⟨hI.1.act hM hT ha, hJ w w' hI.1 hI.2 ha⟩) hw ⟨hb.enter hok hr, h⟩

/-! ### A group of two ranks on two SPs -/

instance (S : Site) (i : RankInfo) : Decidable (S.Info i) :=
  decidable_of_iff (i.groupUid = S.ctx.gpUid ∧ i.groupSize = S.size ∧ 0 ≤ i.groupRank ∧ i.groupRank < S.size)
    ⟨fun h => ⟨h.1, h.2.1, h.2.2.1, h.2.2.2⟩, fun h => ⟨h.1, h.2, h.3, h.4⟩⟩

instance (S : Site) : (ev : Event) → Decidable (S.msgs.Ok ev)
  | .addGroupRank _ m => inferInstanceAs
      (Decidable (S.Info m.rankInfo ∧ m.rankInfo.rank ∈ S.locals ∧ m.worldRanks = S.worldRanks))
  | .peerCacheEntries _ batch => inferInstanceAs
      (Decidable (batch ≠ [] ∧ ∀ e ∈ batch, S.Info e.peer.procInfo ∧ e.peer.procInfo.rank ∉ S.locals))
  | .revokeFromRank i => inferInstanceAs (Decidable (S.Info i ∧ i.rank ∈ S.locals))
  | .revokeFromSp m => inferInstanceAs (Decidable (m.groupSize = S.size ∧ m.rankStart + m.numRanks ≤ S.size))
  | .cacheSent | .revokeSent => inferInstanceAs (Decidable True)
  | .requestAdd _ | .requestRevoke _ => inferInstanceAs (Decidable False)

/-- Rank `r` of a group of two, at version `k`. -/
def pairInfo (r k : ℕ) : RankInfo where
  groupUid := 5
  groupRank := r
  groupSize := 2
  nLocalRanks := 1
  localRank := 0
  hostInfo := 70 + r
  groupSeqNum := k

/-- Its entry, rank `r` being on SP `r`. -/
def pairEntry (r k : ℕ) : PeerCacheEntry where
  set := true
  peer := ⟨pairInfo r k, 70 + r, [1]⟩
  clientId := 0
  shadowServiceProcs := [r]

/-- The message with which it joins. -/
def pairAdd (r k : ℕ) : GroupAddMsg := ⟨pairInfo r k, [0, 1]⟩

/-- The revoke SP 1 sends to SP 0. -/
def pairRevoke (k : ℕ) : GroupRevokeMsgFromSp where
  rankStart := 0
  ranks := [0, 1]
  gpUid := 5
  groupSize := 2
  gpSeqNum := k

/-- SP 0 of two, with rank 0 of the group of two. -/
def pairCtx : GpCtx where
  gpUid := 5
  onDpu := true
  numServiceProcs := 2
  numConnectedServiceProcs := 1
  numServiceProcsPerDpu := 1
  globalId := 0
  localId := 0
  hostUid := 70
  hosts := ⟨2, [(70, 0), (71, 1)]⟩
  cacheSize := 2
  world := some [pairEntry 0 1, pairEntry 1 1]
  peerAddr := fun _ => [1]

/-- The group on that SP. -/
def pairSite : Site where
  ctx := pairCtx
  size := 2
  worldRanks := [0, 1]
  world := [pairEntry 0 1, pairEntry 1 1]
  onDpu := rfl
  gpUid_ne := by decide
  world_eq := rfl
  pos := Nat.two_pos
  alloc := allocatable_two
  length_worldRanks := rfl

end DpuOffload
