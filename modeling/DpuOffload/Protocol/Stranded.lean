import DpuOffload.Protocol.Actions

/-!
# Batches of entries that nothing takes up

A batch that cannot be handled yet is put aside (`QUEUE_PENDING_RECV_CACHE_ENTRY`), and
is taken up when a local rank joins or when the group is revoked. An engine that has
no local rank in the group is left with the revoke, so that a batch of the next
version must not be put aside on a group that is empty and already revoked.

`is_group_ready` does put it aside: it compares `num` with `recvd + 1` where the group
is ready when `recvd` is `num + 1`, and refuses the versions that differ from `num`
besides.

* `stranded_batch_of_next_version` — a run that ends with a batch that nothing takes up.
* `not_stranded` — **the only way there**: as long as no batch of the next version is
  received on an empty, revoked group, no batch is ever stranded, on an SP or a host.
-/

namespace DpuOffload

open Transition

/-- An engine, and the messages of the group in flight to it. -/
structure Node where
  /-- The engine. -/
  engine : Engine
  /-- The messages in flight. -/
  inFlight : List Event

/-- What happens to a node. -/
inductive NodeEvent where
  /-- A message is sent to it. -/
  | send (ev : Event)
  /-- A message in flight arrives; which one, the network decides. -/
  | deliver (i : ℕ)
  /-- A send of its own completes, or its application asks for something. -/
  | internal (ev : Event)

/-- Does the event come from another process? -/
def Event.isMessage : Event → Bool
  | .addGroupRank _ _ | .peerCacheEntries _ _ | .revokeFromRank _ | .revokeFromSp _ => true
  | _ => false

/-- A node takes a step. -/
def Node.step (ctx : GpCtx) (s : Node) : NodeEvent → Option Node
  | .send ev => if ev.isMessage then some { s with inFlight := s.inFlight ++ [ev] } else none
  | .deliver i => do
    let ev ← s.inFlight[i]?
    let e ← s.engine.step ctx ev
    some ⟨e, s.inFlight.eraseIdx i⟩
  | .internal ev => if ev.isMessage then none else (s.engine.step ctx ev).map (⟨·, s.inFlight⟩)

/-- A node that has not heard of the group. -/
def Node.init : Node := ⟨Engine.init, []⟩

/-- Is the group empty and fully revoked? -/
def GroupCache.Idle (g : GroupCache) : Prop := g.numLocalEntries = 0 ∧ g.revokesGlobal = 0 ∧ 0 < g.persistent.num

instance (g : GroupCache) : Decidable g.Idle := inferInstanceAs (Decidable (_ ∧ _ ∧ _))

/-- A batch of the next version has been put aside on an empty, revoked group, and no
message of the group is in flight. -/
def Node.Stranded (s : Node) : Prop :=
  s.engine.gp.Idle ∧ (∃ p ∈ s.engine.gp.parked, batchSeqNum p.payload = s.engine.gp.persistent.num + 1) ∧
    s.inFlight = []

instance (s : Node) : Decidable s.Stranded := inferInstanceAs (Decidable (_ ∧ _ ∧ _))

/-- Is this a batch of the next version on a group found empty and revoked? -/
def Event.NextOnIdle (ctx : GpCtx) (g : GroupCache) : Event → Prop
  | .peerCacheEntries _ batch =>
    (getGroupCacheInternal ctx.gpUid (some g) (batchGroupSize batch)).Idle ∧ batchSeqNum batch = g.persistent.num + 1
  | _ => False

instance (ctx : GpCtx) (g : GroupCache) : (ev : Event) → Decidable (ev.NextOnIdle ctx g)
  | .peerCacheEntries _ _ => inferInstanceAs (Decidable (_ ∧ _))
  | .addGroupRank _ _ | .revokeFromRank _ | .revokeFromSp _ | .cacheSent | .revokeSent | .requestAdd _
  | .requestRevoke _ => inferInstanceAs (Decidable False)

/-- No batch of the next version arrives while the group is empty and revoked. -/
def NoNextOnIdle (ctx : GpCtx) (s : Node) : NodeEvent → Prop
  | .deliver i => ∀ ev ∈ s.inFlight[i]?, ¬ ev.NextOnIdle ctx s.engine.gp
  | _ => True

instance (ctx : GpCtx) (s : Node) : (a : NodeEvent) → Decidable (NoNextOnIdle ctx s a)
  | .deliver i => inferInstanceAs (Decidable (∀ ev ∈ s.inFlight[i]?, ¬ ev.NextOnIdle ctx s.engine.gp))
  | .send _ | .internal _ => inferInstanceAs (Decidable True)

/-- A group without entries on which nothing is revoked, or that was reset. -/
def GroupCache.Bare (g : GroupCache) : Prop :=
  g.numLocalEntries = 0 ∧ (¬ g.Live ∨ g.revokesGlobal = 0) ∧ 0 < g.persistent.num

/-- What the callbacks keep about the batches put aside. -/
structure NotStranded (w : Work) : Prop where
  /-- A group that was reset is empty. -/
  dead : ¬ w.gp.Live → w.gp.numLocalEntries = 0
  /-- Without entries none is set. -/
  blank : w.gp.numLocalEntries = 0 → ∀ r, w.gp.isSet r = false
  /-- On a bare group no batch of the next version is put aside. -/
  parked : w.gp.Bare → ∀ p ∈ w.gp.parked, batchSeqNum p.payload ≠ w.gp.persistent.num + 1
  /-- Nor is one received there. -/
  batch : w.gp.Bare → batchSeqNum w.batch ≠ w.gp.persistent.num + 1
  /-- A final revoke comes without a batch. -/
  final : w.final = true → w.batch = []

theorem not_bare_of_pos {g : GroupCache} (h : 0 < g.numLocalEntries) : ¬ g.Bare := fun hb => by
  have := hb.1
  omega

/-- An action that leaves an entry leaves nothing else to check. -/
theorem NotStranded.of_pos {w w' : Work} (h : NotStranded w) (hl : w'.gp.Live) (hpos : 0 < w'.gp.numLocalEntries)
    (hf : w'.final = w.final) (hb : w'.batch = w.batch) : NotStranded w' where
  dead hd := absurd hl hd
  blank h0 := by omega
  parked hi := absurd hi (not_bare_of_pos hpos)
  batch hi := absurd hi (not_bare_of_pos hpos)
  final := by rw [hf, hb]; exact h.final

/-- An action that touches neither the entries nor the batches put aside. -/
theorem NotStranded.of_eq {w w' : Work} (h : NotStranded w) (hu : w'.gp.groupUid = w.gp.groupUid)
    (hr : w'.gp.ranks = w.gp.ranks) (hn : w'.gp.numLocalEntries = w.gp.numLocalEntries)
    (hg : w.gp.revokesGlobal ≤ w'.gp.revokesGlobal) (hp : w'.gp.persistent = w.gp.persistent)
    (hf : w'.final = w.final) (hb : w'.batch = w.batch) : NotStranded w' := by
  have hl : w'.gp.Live ↔ w.gp.Live := by simp only [GroupCache.Live, hu]
  have hbare : w'.gp.Bare → w.gp.Bare := by
    rintro ⟨h1, h2, h3⟩
    refine ⟨hn ▸ h1, h2.imp (mt hl.2) fun h0 => ?_, hp ▸ h3⟩
    omega
  refine ⟨?_, ?_, ?_, ?_, ?_⟩
  · rw [hl, hn]; exact h.dead
  · simpa only [hn, GroupCache.isSet, GroupCache.entryAt, GroupCache.entries, hr] using h.blank
  · intro hi
    simpa only [GroupCache.parked, GroupCache.queues, hp] using h.parked (hbare hi)
  · intro hi
    simpa only [hb, hp] using h.batch (hbare hi)
  · simpa only [hf, hb] using h.final

variable {ctx : GpCtx} {Sz : ℤ → Prop} {T : Tally → Prop}

theorem batchSeqNum_nil_ne (k : ℕ) : batchSeqNum [] ≠ k + 1 := by
  simp [batchSeqNum, initPeerCacheEntry, resetPeerData, resetRankInfo]

/-- On a host, an addition to a group in use leaves one entry more. -/
theorem hostAddLocalRankToCache_of_live {g : GroupCache} (hl : g.Live) (info : RankInfo) :
    (hostAddLocalRankToCache ctx (some g) info).groupUid = g.groupUid ∧
      (hostAddLocalRankToCache ctx (some g) info).numLocalEntries = g.numLocalEntries + 1 := by
  have hg : getGroupCacheInternal ctx.gpUid (some g) info.groupSize = g := getGroupCacheInternal_of_live hl _
  simp only [hostAddLocalRankToCache, getGroupRankCacheEntry, hg]
  constructor
  · repeat' split
    all_goals simp
  · repeat' split
    all_goals simp [GroupCache.setEntryAt]

/-- A host that joins leaves an entry. -/
theorem doSendAddGroupRankRequest_live (hu : ctx.gpUid ≠ INT_MAX) (s : GpState) (m : GroupAddMsg)
    (h : s.gp.numLocalEntries = 0 → ∀ r, s.gp.isSet r = false) :
    (doSendAddGroupRankRequest ctx s m).gp.Live ∧ 0 < (doSendAddGroupRankRequest ctx s m).gp.numLocalEntries := by
  set g := ((getGroupCacheInternal ctx.gpUid (some s.gp) m.rankInfo.groupSize).switchVersion).learnGroupSize ctx.hosts
    m.rankInfo.groupSize with hg
  have hl : g.Live := by
    simpa [hg, GroupCache.Live] using live_lookup hu s.gp m.rankInfo.groupSize
  have hblank : g.numLocalEntries = 0 → ∀ r, g.isSet r = false := by
    intro h0 r
    by_cases hs : s.gp.groupUid = INT_MAX
    · refine isSet_replicate (k := allocEntries (sizeT m.rankInfo.groupSize)) ?_ r
      simp [hg, getGroupCacheInternal, hs, GroupCache.switchVersion, initGroupCache, basicInitGroupCache]
    · rw [hg, getGroupCacheInternal_of_live hs] at h0 ⊢
      rw [isSet_congr (g := s.gp) (by simp [GroupCache.switchVersion]; split <;> rfl)]
      exact h (by simpa using h0) r
  simp only [doSendAddGroupRankRequest]
  split
  · rename_i hset
    refine ⟨hl, Nat.pos_of_ne_zero fun h0 => ?_⟩
    rw [hblank h0] at hset
    cases hset
  · obtain ⟨h₁, h₂⟩ := @hostAddLocalRankToCache_of_live ctx g hl
      { m.rankInfo with groupSeqNum :=
        (getGroupCacheInternal ctx.gpUid (some s.gp) m.rankInfo.groupSize).switchVersion.persistent.num }
    refine ⟨?_, ?_⟩
    · unfold GroupCache.Live at hl ⊢
      rw [h₁]; exact hl
    · rw [h₂]; exact Nat.succ_pos _

theorem NotStranded.act (hu : ctx.gpUid ≠ INT_MAX) {w w' : Work} (h : NotStranded w) (ha : Act ctx Sz T w w') :
    NotStranded w' := by
  cases ha with
  | init size hs hl =>
    have hb : ∀ k, 0 < k → k = w.gp.persistent.num → w.gp.Bare := fun k hk he => ⟨h.dead hl, .inl hl, he ▸ hk⟩
    exact ⟨fun hd => (hd hu).elim, fun _ => isSet_replicate rfl, fun hi => h.parked (hb _ hi.2.2 rfl),
      fun hi => h.batch (hb _ hi.2.2 rfl), h.final⟩
  | learn size hs hl => exact h.of_eq (by simp) (by simp) (by simp) (by simp) (by simp) rfl rfl
  | skipEntry he hl hset => exact ⟨h.dead, h.blank, h.parked, h.batch, h.final⟩
  | addEntry he hl hL h0 hset => exact h.of_pos (by simpa [GroupCache.Live] using hl) (by simp) rfl rfl
  | parkEntries sp hs hl hp =>
    refine ⟨h.dead, h.blank, fun hi p hp' => ?_, fun _ => batchSeqNum_nil_ne _, fun _ => rfl⟩
    rcases List.mem_append.1 hp' with hp' | hp'
    · exact h.parked hi p hp'
    · rw [List.mem_singleton.1 hp']
      exact h.batch hi
  | takeBatch hl he h0 hr => exact ⟨h.dead, h.blank, h.parked, fun _ => batchSeqNum_nil_ne _, fun _ => rfl⟩
  | unpark he h0 => exact ⟨h.dead, h.blank, fun _ p hp => (List.not_mem_nil hp).elim, h.batch, h.final⟩
  | sendCache hl h0 hf =>
    obtain ⟨t, ht⟩ := sendGpCacheToHost_gp w.toGpState
    exact h.of_eq (by simp [ht]) (by simp [ht]) (by simp [ht]) (by simp [ht]) (by simp [ht]) rfl rfl
  | parkAdd hs ha hl h0 => exact ⟨h.dead, h.blank, h.parked, h.batch, h.final⟩
  | takeAdds ha => exact ⟨h.dead, h.blank, h.parked, h.batch, h.final⟩
  | skipAdd ha hl hL h0 hset => exact ⟨h.dead, h.blank, h.parked, h.batch, h.final⟩
  | addLocal ha hl hL h0 hset => exact h.of_pos (by simpa [GroupCache.Live] using hl) (by simp) rfl rfl
  | exchange hd hl =>
    obtain ⟨t, ht⟩ := @groupCacheExchange_gp ctx w.toGpState w.gp.spRanks
    exact h.of_eq (by simp [ht]) (by simp [ht]) (by simp [ht]) (by simp [ht]) (by simp [ht]) rfl rfl
  | queueRankRevoke hr hl hn => exact ⟨h.dead, h.blank, h.parked, h.batch, h.final⟩
  | markLocal hr hl hn =>
    exact h.of_eq (by simp [GroupCache.markLocalRank]) (by simp [GroupCache.markLocalRank])
      (by simp [GroupCache.markLocalRank]) (by simp [GroupCache.markLocalRank]) (by simp [GroupCache.markLocalRank])
      rfl rfl
  | queueSpRevoke hr hd => exact ⟨h.dead, h.blank, h.parked, h.batch, h.final⟩
  | accept hr hl hd hT =>
    exact h.of_eq (by simp) (by simp) (by simp) (by simp) (by simp) rfl rfl
  | takeRevokes ht hT => exact ⟨h.dead, h.blank, h.parked, h.batch, h.final⟩
  | createBits hT => exact ⟨h.dead, h.blank, h.parked, h.batch, h.final⟩
  | applyRevoke ht hT => exact h.of_eq rfl rfl rfl (Nat.le_add_right _ _) rfl rfl rfl
  | post hf => exact ⟨h.dead, h.blank, h.parked, h.batch, h.final⟩
  | reset hf he hdue =>
    refine ⟨fun _ => rfl, fun _ => isSet_of_ranks_none rfl, fun _ p hp => (List.not_mem_nil hp).elim, fun _ => ?_,
      fun hf' => by cases hf'⟩
    rw [h.final hf]
    exact batchSeqNum_nil_ne _
  | setSent => exact ⟨h.dead, h.blank, h.parked, h.batch, h.final⟩
  | setRevokeSent => exact ⟨h.dead, h.blank, h.parked, h.batch, h.final⟩
  | @hostAdd m ms hd hr =>
    obtain ⟨hl, hpos⟩ := doSendAddGroupRankRequest_live hu w.toGpState m h.blank
    exact h.of_pos hl hpos rfl rfl
  | hostPark hd hr h0 => exact ⟨h.dead, h.blank, h.parked, h.batch, h.final⟩
  | hostTake hd hp => exact ⟨h.dead, h.blank, h.parked, h.batch, h.final⟩
  | hostRevoke info hd => exact h.of_eq rfl rfl rfl (Nat.le_add_right _ _) rfl rfl rfl

/-! ### Runs -/

theorem NotStranded.enter {g : GroupCache} {log : List Effect} (h : NotStranded (Work.start ⟨g, log⟩)) {ev : Event}
    (hev : ¬ ev.NextOnIdle ctx g) : NotStranded (ev.enter ctx ⟨g, log⟩) := by
  cases ev with
  | peerCacheEntries sp batch =>
    refine ⟨h.dead, h.blank, h.parked, fun hb hseq => hev ⟨?_, hseq⟩, fun hf => by cases hf⟩
    obtain ⟨h1, h2, h3⟩ := hb
    by_cases hl : g.Live
    · rw [getGroupCacheInternal_of_live hl]
      exact ⟨h1, h2.resolve_left (not_not.2 hl), h3⟩
    · have hm : g.groupUid = INT_MAX := not_not.1 hl
      simp only [getGroupCacheInternal, hm, if_true]
      exact ⟨rfl, rfl, h3⟩
  | revokeFromSp m =>
    by_cases hd : ctx.onDpu
    · simp only [Event.enter, hd, if_true]
      exact ⟨h.dead, h.blank, h.parked, h.batch, h.final⟩
    · simp only [Event.enter, hd]
      exact ⟨h.dead, h.blank, h.parked, h.batch, fun _ => rfl⟩
  | revokeSent => exact ⟨h.dead, h.blank, h.parked, h.batch, fun _ => rfl⟩
  | addGroupRank _ _ | revokeFromRank _ | cacheSent | requestAdd _ | requestRevoke _ =>
    exact ⟨h.dead, h.blank, h.parked, h.batch, h.final⟩

/-- A step of the engine keeps the invariant. -/
theorem NotStranded.step (hu : ctx.gpUid ≠ INT_MAX) {e e' : Engine} {ev : Event}
    (h : NotStranded (Work.start ⟨e.gp, e.log⟩)) (hs : e.step ctx ev = some e') (hev : ¬ ev.NextOnIdle ctx e.gp) :
    NotStranded (Work.start ⟨e'.gp, e'.log⟩) := by
  have hany : ev.Sizes (fun _ => True) ∧ ev.Applies ctx (fun _ => True) e.gp := by
    cases ev <;> simp [Event.Sizes, Event.Applies]
  rcases @Engine.step_acts ctx _ _ hu _ _ _ hs ⟨fun _ _ => trivial, fun _ _ => trivial⟩ hany.1 hany.2 with
    ⟨-, hgp, hlog⟩ | hw
  · rw [hgp, hlog]
    exact h
  · exact keeps (fun _ _ hJ ha => hJ.act hu ha) hw (h.enter hev)

theorem notStranded_init : NotStranded (Work.start ⟨Engine.init.gp, []⟩) where
  dead _ := rfl
  blank _ := isSet_of_ranks_none rfl
  parked h := absurd h.2.2 (Nat.lt_irrefl 0)
  batch h := absurd h.2.2 (Nat.lt_irrefl 0)
  final h := by cases h

/-- **No batch is stranded** as long as no batch of the next version is received on an
empty, revoked group. -/
theorem not_stranded {ctx : GpCtx} (hu : ctx.gpUid ≠ INT_MAX) {s : Node}
    (h : Reach (Node.step ctx) (NoNextOnIdle ctx) Node.init s) : ¬ s.Stranded := by
  have hinv : NotStranded (Work.start ⟨s.engine.gp, s.engine.log⟩) := by
    refine h.invariant (I := fun s => NotStranded (Work.start ⟨s.engine.gp, s.engine.log⟩)) notStranded_init ?_
    intro s a s' hI hok hs
    cases a with
    | send ev =>
      simp only [Node.step] at hs
      split at hs
      · cases hs; exact hI
      · cases hs
    | deliver i =>
      simp only [Node.step, bind, Option.bind_eq_some_iff] at hs
      obtain ⟨ev, hev, e, he, hs⟩ := hs
      cases hs
      exact hI.step hu he (hok ev hev)
    | internal ev =>
      simp only [Node.step] at hs
      split at hs
      · cases hs
      · obtain ⟨e, he, rfl⟩ := Option.map_eq_some_iff.1 hs
        apply hI.step hu he
        cases ev <;> simp_all [Event.NextOnIdle, Event.isMessage]
  rintro ⟨⟨h1, h2, h3⟩, ⟨p, hp, hseq⟩, -⟩
  exact hinv.parked ⟨h1, .inr h2, h3⟩ p hp hseq

/-! ### An SP without a rank in the group -/

/-- SP 1 of two, with no rank in a group of one rank, which is on SP 0. -/
def ranklessSp : GpCtx where
  gpUid := 5
  onDpu := true
  numServiceProcs := 2
  numConnectedServiceProcs := 1
  numServiceProcsPerDpu := 1
  globalId := 1
  localId := 0
  hostUid := 71
  hosts := ⟨2, [(70, 0), (71, 1)]⟩
  cacheSize := 2
  world := some []
  peerAddr := fun _ => []

/-- Rank 0 of the group, at version `k`. -/
def rankZeroInfo (k : ℕ) : RankInfo where
  groupUid := 5
  groupRank := 0
  groupSize := 1
  nLocalRanks := 1
  localRank := 0
  hostInfo := 70
  groupSeqNum := k

/-- Its entry, as SP 0 sends it. -/
def rankZeroEntry (k : ℕ) : PeerCacheEntry where
  set := true
  peer := ⟨rankZeroInfo k, 70, [1]⟩
  clientId := 0
  shadowServiceProcs := [0]

/-- Its revoke, as SP 0 sends it. -/
def rankZeroRevoke (k : ℕ) : GroupRevokeMsgFromSp where
  rankStart := 0
  ranks := [1]
  gpUid := 5
  groupSize := 1
  gpSeqNum := k

/-- The batch of the second version finds the group empty and revoked, and stays. -/
theorem stranded_batch_of_next_version :
    ∃ s, Reach (Node.step ranklessSp) (fun _ _ => True) Node.init s ∧ s.Stranded :=
  exists_reach_of_exec
    [.send (.peerCacheEntries 0 [rankZeroEntry 1]), .deliver 0, .internal .cacheSent,
      .send (.revokeFromSp (rankZeroRevoke 1)), .deliver 0, .internal .revokeSent,
      .send (.peerCacheEntries 0 [rankZeroEntry 2]), .deliver 0] (by decide)

/-- A batch of the second version that comes before the group is reset is put aside and taken up. -/
theorem not_stranded_when_early :
    ∃ s, Reach (Node.step ranklessSp) (NoNextOnIdle ranklessSp) Node.init s ∧ s.engine.gp.persistent.num = 2 ∧
      ¬ s.Stranded := by
  have h : ∃ s, Reach (Node.step ranklessSp) (NoNextOnIdle ranklessSp) Node.init s ∧ s.engine.gp.persistent.num = 2 :=
    exists_reach_of_exec
    [.send (.peerCacheEntries 0 [rankZeroEntry 1]), .deliver 0, .internal .cacheSent,
      .send (.revokeFromSp (rankZeroRevoke 1)), .deliver 0, .send (.peerCacheEntries 0 [rankZeroEntry 2]), .deliver 0,
      .internal .revokeSent] (by decide)
  obtain ⟨s, hs, hnum⟩ := h
  exact ⟨s, hs, hnum, not_stranded (by decide) hs⟩

end DpuOffload
