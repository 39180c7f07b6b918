import DpuOffload.Protocol.Store
import DpuOffload.Protocol.Site

/-!
# Room for all the ranks of a group

The array of entries of a group is allocated when the group comes into the table, and
again when it is looked up after a reset, with the size the caller passes
(`GET_GROUP_CACHE_INTERNAL`); nothing resizes it. A query passes no size. When a query is
the first to look the group up, or the first after a reset, the array has no entries;
the size the group learns later from a rank (`GET_GROUP_RANK_CACHE_ENTRY`) is not the
size of the array. A lookup with size `-1` that allocates is worse: `INIT_GROUP_CACHE`
asks for `-1 * sizeof(peer_cache_entry_t)` bytes, which wraps, and its own loop over the
`SIZE_MAX` entries runs out of the block.

* `Store.Bounded` — every group has room for its ranks, and additions stay in bounds.
* `not_bounded_after_query` — a run in which they do not.
* `bounded_of_reach` — **they do** in every run in which each lookup that allocates passes
  a size whose byte count does not wrap and that leaves room for the group.
-/

namespace DpuOffload

open Relation Transition

/-- What decides whether an access to an entry is in bounds. -/
structure Shape where
  /-- Is the group cache initialised? -/
  initialized : Bool
  /-- The uid, `INT_MAX` after a reset. -/
  groupUid : ℤ
  /-- The size, if it is known. -/
  groupSize : ℕ
  /-- The length of the array. -/
  room : ℕ

/-- The shape of a group cache. -/
def GroupCache.shape (g : GroupCache) : Shape := ⟨g.initialized, g.groupUid, g.groupSize, g.entries.length⟩

/-- A group of `n` ranks has room for them, unless it was reset. -/
structure Shape.Ok (n : ℕ) (h : Shape) : Prop where
  /-- There is room. -/
  room : h.groupUid ≠ INT_MAX → n ≤ h.room
  /-- The size is known or not. -/
  size : h.groupSize = 0 ∨ h.groupSize = n
  /-- A group that was reset is not initialised. -/
  init : h.initialized = true → h.groupUid ≠ INT_MAX

variable {n : ℕ} {ctx : GpCtx} {T : Tally → Prop}

theorem shape_congr {g g' : GroupCache} (hi : g'.initialized = g.initialized) (hu : g'.groupUid = g.groupUid)
    (hs : g'.groupSize = g.groupSize) (hr : g'.ranks = g.ranks ∨ ∃ r e, g'.ranks = g.ranks.map (·.set r e)) :
    g'.shape = g.shape := by
  have hlen : g'.entries.length = g.entries.length := by
    rcases hr with hr | ⟨r, e, hr⟩
    · simp [GroupCache.entries, hr]
    · simp only [GroupCache.entries, hr]
      cases g.ranks <;> simp
  simp [GroupCache.shape, hi, hu, hs, hlen]

/-- A lookup that allocates leaves room if its size does. -/
theorem Shape.Ok.lookup {uid size : ℤ} (hu : uid ≠ INT_MAX) {g : GroupCache} (h : g.shape.Ok n)
    (hf : g.Live ∨ n ≤ allocEntries (sizeT size)) : (getGroupCacheInternal uid (some g) size).shape.Ok n := by
  by_cases hl : g.Live
  · rw [getGroupCacheInternal_of_live hl]
    exact h
  · have hm : g.groupUid = INT_MAX := not_not.1 hl
    simp only [getGroupCacheInternal, hm, if_true]
    refine ⟨fun _ => ?_, .inl rfl, fun _ => hu⟩
    simpa [GroupCache.shape, GroupCache.entries, initGroupCache] using hf.resolve_left hl

/-- Learning the size, or none, leaves the array alone. -/
theorem Shape.Ok.learn {g : GroupCache} (h : g.shape.Ok n) (hn : n < 2 ^ 64) {size : ℤ}
    (hs : size = 0 ∨ size < 0 ∨ size = n) (cfg : HostsConfig) : (g.learnGroupSize cfg size).shape.Ok n := by
  unfold GroupCache.learnGroupSize
  split
  · rename_i hc
    refine ⟨h.room, ?_, h.init⟩
    rcases hs with rfl | hneg | rfl
    · exact .inl rfl
    · exact absurd hc.2.2 (not_le.2 hneg)
    · exact .inr (sizeT_natCast hn)
  · exact h

theorem ok_reset (g : GroupCache) (p : Persistent) :
    ({ resetGroupCache g with persistent := p } : GroupCache).shape.Ok n :=
  ⟨fun h => absurd rfl h, .inl rfl, fun h => absurd h Bool.false_ne_true⟩

/-- What the callbacks keep about the array of a group of `n` ranks. -/
structure Roomy (n : ℕ) (w : Work) : Prop where
  /-- There is room. -/
  shape : w.gp.shape.Ok n
  /-- What is put aside announces the size of the group. -/
  sized : w.gp.Sized (· = (n : ℤ))
  /-- So do revoke messages. -/
  revs : ∀ m ∈ w.revs, m.groupSize = n
  /-- So do requests to join. -/
  reqs : ∀ m ∈ w.reqs, m.rankInfo.groupSize = n
  /-- So do requests put aside. -/
  waiting : ∀ p ∈ w.gp.persistent.pendingSendGroupAddMsgs, p.msg.rankInfo.groupSize = n

/-- An action that leaves the array and the size alone. -/
theorem Roomy.of_shape {w w' : Work} (h : Roomy n w) (hs : w'.gp.shape = w.gp.shape) (hz : w'.gp.Sized (· = (n : ℤ)))
    (hr : w'.revs ⊆ w.revs) (hq : w'.reqs ⊆ w.reqs)
    (hp : w'.gp.persistent.pendingSendGroupAddMsgs ⊆ w.gp.persistent.pendingSendGroupAddMsgs) : Roomy n w' where
  shape := by rw [hs]; exact h.shape
  sized := hz
  revs m hm := h.revs m (hr hm)
  reqs m hm := h.reqs m (hq hm)
  waiting p hmem := h.waiting p (hp hmem)

theorem switchVersion_shape (g : GroupCache) : g.switchVersion.shape = g.shape := by
  unfold GroupCache.switchVersion
  split
  · exact shape_congr rfl rfl rfl (.inl rfl)
  · rfl

theorem hostAddLocalRankToCache_shape (slot : Option GroupCache) (info : RankInfo) :
    (hostAddLocalRankToCache ctx slot info).shape =
      (getGroupRankCacheEntry ctx.hosts ctx.gpUid slot info.groupSize).shape := by
  rw [hostAddLocalRankToCache_eq ctx slot info rfl]
  exact shape_congr rfl rfl rfl (.inr ⟨_, _, rfl⟩)

theorem fits_real (hn : Allocatable n) (g : GroupCache) : g.Live ∨ n ≤ allocEntries (sizeT n) := by
  rw [sizeT_natCast hn.lt, hn.allocEntries_eq]
  exact .inr le_rfl

/-- An access with the real size. -/
theorem Shape.Ok.access {uid : ℤ} (hu : uid ≠ INT_MAX) (hn : Allocatable n) {g : GroupCache} (h : g.shape.Ok n)
    (cfg : HostsConfig) : (getGroupRankCacheEntry cfg uid (some g) n).shape.Ok n :=
  (h.lookup hu (fits_real hn g)).learn hn.lt (.inr (.inr rfl)) cfg

theorem doSendAddGroupRankRequest_shape (hu : ctx.gpUid ≠ INT_MAX) (hn : Allocatable n) {s : GpState}
    (h : s.gp.shape.Ok n) {m : GroupAddMsg} (hm : m.rankInfo.groupSize = n) :
    (doSendAddGroupRankRequest ctx s m).gp.shape.Ok n := by
  have hs : ((getGroupCacheInternal ctx.gpUid (some s.gp) m.rankInfo.groupSize).switchVersion).shape.Ok n := by
    rw [switchVersion_shape, hm]
    exact h.lookup hu (fits_real hn s.gp)
  have hl := hs.learn hn.lt (.inr (.inr hm)) ctx.hosts
  simp only [doSendAddGroupRankRequest]
  split
  · exact hl
  · rw [hostAddLocalRankToCache_shape]
    simp only [hm] at hl ⊢
    exact hl.access hu hn ctx.hosts

theorem Roomy.act (hu : ctx.gpUid ≠ INT_MAX) (hn : Allocatable n) {w w' : Work} (h : Roomy n w)
    (ha : Act ctx (· = (n : ℤ)) T w w') : Roomy n w' := by
  have hz := h.sized.act ha
  have hre : ∀ {α : Type} (l : List α), l ⊆ l := List.Subset.refl
  cases ha with
  | init size hs hl =>
    subst hs
    have := h.shape.lookup hu (fits_real hn w.gp)
    simp only [getGroupCacheInternal, not_not.1 hl, if_true] at this
    exact ⟨this, hz, h.revs, h.reqs, h.waiting⟩
  | learn size hs hl =>
    exact ⟨h.shape.learn hn.lt (.inr (.inr hs)) ctx.hosts, hz, h.revs, h.reqs, by simpa using h.waiting⟩
  | skipEntry he hl hset => exact h.of_shape rfl hz (hre _) (hre _) (hre _)
  | @addEntry e es he hl hL h0 hset =>
    obtain ⟨t, ht⟩ := addPeerEntry_eq ctx w.gp e
    refine h.of_shape (by simp only [ht]; exact shape_congr rfl rfl rfl (.inr ⟨_, _, rfl⟩)) hz (hre _) (hre _) ?_
    change (w.gp.addPeerEntry ctx e).queues.pendingSendGroupAddMsgs ⊆ _
    rw [addPeerEntry_queues]
    exact hre _
  | parkEntries sp hs hl hp => exact h.of_shape rfl hz (hre _) (hre _) (hre _)
  | takeBatch hl he h0 hr => exact h.of_shape rfl hz (hre _) (hre _) (hre _)
  | unpark he h0 => exact h.of_shape rfl hz (hre _) (hre _) (hre _)
  | sendCache hl h0 hf =>
    obtain ⟨t, ht⟩ := sendGpCacheToHost_gp w.toGpState
    exact h.of_shape (by simp only [ht]; rfl) hz (hre _) (hre _) (by simp only [ht]; exact hre _)
  | parkAdd hs ha hl h0 => exact h.of_shape rfl hz (hre _) (hre _) (hre _)
  | takeAdds ha => exact h.of_shape rfl hz (hre _) (hre _) (hre _)
  | skipAdd ha hl hL h0 hset => exact h.of_shape rfl hz (hre _) (hre _) (hre _)
  | @addLocal p ps ha hl hL h0 hset =>
    obtain ⟨t, k, sp, ht, -⟩ := addGroupRank_eq ctx w.gp p.clientId p.data
    refine h.of_shape (by simp only [ht]; exact shape_congr rfl rfl rfl (.inr ⟨_, _, rfl⟩)) hz (hre _) (hre _) ?_
    change (w.gp.addGroupRank ctx p.clientId p.data).queues.pendingSendGroupAddMsgs ⊆ _
    rw [addGroupRank_queues]
    exact hre _
  | exchange hdue hl =>
    obtain ⟨t, ht⟩ := @groupCacheExchange_gp ctx w.toGpState w.gp.spRanks
    exact h.of_shape (by simp only [ht]; rfl) hz (hre _) (hre _) (by simp only [ht]; exact hre _)
  | queueRankRevoke hr hl hn' => exact h.of_shape rfl hz (hre _) (hre _) (hre _)
  | markLocal hr hl hn' =>
    exact h.of_shape (by simp only [tellRankRevoke_gp]; rfl) hz (hre _) (hre _)
      (by simp only [tellRankRevoke_gp]; exact hre _)
  | queueSpRevoke hr hdl => exact h.of_shape rfl hz (subset_of_eq_cons hr) (hre _) (hre _)
  | @accept m ms hr hl hdl hT' =>
    have hm := h.revs m (mem_of_eq_cons hr)
    refine ⟨?_, hz, fun m' hm' => h.revs m' (subset_of_eq_cons hr hm'), h.reqs, by simpa using h.waiting⟩
    simp only [GroupCache.learnFromRevoke]
    split
    · exact ⟨h.shape.room, .inr hm, h.shape.init⟩
    · exact h.shape
  | takeRevokes ht hT' => exact h.of_shape rfl hz (hre _) (hre _) (hre _)
  | createBits hT' => exact h.of_shape rfl hz (hre _) (hre _) (hre _)
  | applyRevoke ht hT' => exact h.of_shape rfl hz (hre _) (hre _) (hre _)
  | post hf => exact h.of_shape rfl hz (hre _) (hre _) (hre _)
  | reset hf he hdue => exact ⟨ok_reset _ _, hz, h.revs, h.reqs, h.waiting⟩
  | setSent => exact h.of_shape rfl hz (hre _) (hre _) (hre _)
  | setRevokeSent => exact h.of_shape rfl hz (hre _) (hre _) (hre _)
  | @hostAdd m ms hd hr =>
    refine ⟨doSendAddGroupRankRequest_shape hu hn h.shape (h.reqs m (mem_of_eq_cons hr)), hz, h.revs,
      fun m' hm' => h.reqs m' (subset_of_eq_cons hr hm'), ?_⟩
    change ∀ p ∈ (doSendAddGroupRankRequest ctx w.toGpState m).gp.queues.pendingSendGroupAddMsgs, _
    rw [doSendAddGroupRankRequest_queues]
    exact h.waiting
  | @hostPark m ms hd hr h0 =>
    refine ⟨h.shape, hz, h.revs, fun m' hm' => h.reqs m' (subset_of_eq_cons hr hm'), fun p hp => ?_⟩
    rcases List.mem_append.1 hp with hp | hp
    · exact h.waiting p hp
    · rw [List.mem_singleton.1 hp]
      exact h.reqs m (mem_of_eq_cons hr)
  | @hostTake p ps hd hp =>
    refine ⟨h.shape, hz, h.revs, fun m hm => ?_, fun q hq => h.waiting q (subset_of_eq_cons hp hq)⟩
    rcases List.mem_cons.1 hm with rfl | hm
    · exact h.waiting p (mem_of_eq_cons hp)
    · exact h.reqs m hm
  | hostRevoke info hd => exact h.of_shape rfl hz (hre _) (hre _) (hre _)

/-! ### Operations -/

/-- Queries pass no size, or an unknown one; everything else passes the size of the group. -/
def StoreOp.Real (n : ℤ → ℕ) (op : StoreOp) : Prop :=
  op.uid ≠ INT_MAX ∧ match op with
    | .query _ | .revoke _ => True
    | .lookup uid size | .entry uid size => size = 0 ∨ size = GROUP_SIZE_UNKNOWN ∨ size = n uid
    | .event uid ev => ev.Sizes (· = (n uid : ℤ))
    | .connect uid _ info | .hostAdd uid info => info.groupSize = n uid

/-- A lookup with this size finds the group in use, or allocates an array that all
entries `INIT_GROUP_CACHE` writes lie in, with room for `n` ranks. -/
def GroupCache.Fits (n : ℕ) (g : GroupCache) (size : ℤ) : Prop :=
  g.Live ∨ (Allocatable (sizeT size) ∧ n ≤ sizeT size)

/-- Every query or lookup that finds the group not in the table, or reset, passes a size
that leaves room for the group. Size `-1` (`GROUP_SIZE_UNKNOWN`) does not: its byte count
wraps. -/
def Store.Fits (n : ℤ → ℕ) (s : Store) : StoreOp → Prop
  | .query uid => (s.group uid).gp.Fits (n uid) 0
  | .lookup uid size | .entry uid size => (s.group uid).gp.Fits (n uid) size
  | _ => True

theorem GroupCache.Fits.room {g : GroupCache} {size : ℤ} (h : g.Fits n size) :
    g.Live ∨ n ≤ allocEntries (sizeT size) := by
  refine h.imp id fun ⟨ha, hn⟩ => ?_
  rw [ha.allocEntries_eq]
  exact hn

/-- An unknown size fits only a group in use. -/
theorem GroupCache.fits_unknown_iff {g : GroupCache} : g.Fits n GROUP_SIZE_UNKNOWN ↔ g.Live := by
  have hw : ¬ Allocatable (sizeT GROUP_SIZE_UNKNOWN) := by
    unfold Allocatable sizeofPeerCacheEntry
    decide
  exact or_iff_left fun h => hw h.1

/-- There is room for `n` ranks, if the group is in use. -/
def Work.HasRoom (n : ℕ) (w : Work) : Prop := w.gp.Live → n ≤ w.gp.entries.length

/-- **Every group has room for its ranks.** -/
structure Store.Bounded (sys : GpCtx) (n : ℤ → ℕ) (s : Store) : Prop where
  /-- The array of an initialised group has at least `group_size` entries. -/
  room : ∀ uid g, (s.group uid).slot = some g → g.initialized = true → g.groupSize ≤ g.entries.length
  /-- The entry of a rank that is added with the size of the group is in the array. -/
  access : ∀ uid ≠ INT_MAX, ∀ r < n uid,
    r < (getGroupRankCacheEntry sys.hosts uid (s.group uid).slot (n uid)).entries.length
  /-- So is it throughout every callback. -/
  callback : ∀ uid ev s', (StoreOp.event uid ev).Real n → s.step sys (.event uid ev) = some s' →
    ev.Ignored (s.group uid).slot ∨
      ReflTransGen (fun w w' => Act (s.ctx sys uid) (· = (n uid : ℤ)) (fun _ => True) w w' ∧ w.HasRoom (n uid) ∧
          w'.HasRoom (n uid))
        (ev.enter (s.ctx sys uid) ⟨(s.group uid).gp, (s.group uid).log⟩)
        (Work.start ⟨(s'.group uid).gp, (s'.group uid).log⟩)

theorem Roomy.enter {g : GroupCache} {log : List Effect} (h : Roomy n (Work.start ⟨g, log⟩)) {ev : Event}
    (hs : ev.Sizes (· = (n : ℤ))) : Roomy n (ev.enter ctx ⟨g, log⟩) := by
  cases ev with
  | revokeFromSp m =>
    simp only [Event.enter]
    split
    · exact { h with revs := fun m' hm' => by rw [List.mem_singleton.1 hm']; exact Int.ofNat_inj.1 hs }
    · exact { h with }
  | requestAdd m => exact { h with reqs := fun m' hm' => by rw [List.mem_singleton.1 hm']; exact hs }
  | addGroupRank _ _ | peerCacheEntries _ _ | revokeFromRank _ | cacheSent | revokeSent | requestRevoke _ =>
    exact { h with }

/-- A callback keeps the room, and so does each of its actions. -/
theorem Roomy.event (hu : ctx.gpUid ≠ INT_MAX) (hn : Allocatable n) {e e' : Engine} {ev : Event}
    (h : Roomy n e.work) (hsz : ev.Sizes (· = (n : ℤ))) (hs : e.step ctx ev = some e') :
    Roomy n e'.work ∧ (ev.Ignored e.slot ∨
      ReflTransGen (fun w w' => Act ctx (· = (n : ℤ)) (fun _ => True) w w' ∧ w.HasRoom n ∧ w'.HasRoom n)
        (ev.enter ctx ⟨e.gp, e.log⟩) e'.work) := by
  rcases @Engine.step_acts ctx (· = (n : ℤ)) (fun _ => True) hu e e' ev hs h.sized hsz (ev.applies_true _) with
    ⟨hi, hgp, hlog⟩ | hw
  · refine ⟨?_, .inl hi⟩
    rw [Engine.work, hgp, hlog]
    exact h
  · have hk : ∀ w w', Roomy n w → Act ctx (· = (n : ℤ)) (fun _ => True) w w' → Roomy n w' :=
      fun _ _ hJ ha => hJ.act hu hn ha
    refine ⟨keeps hk hw (h.enter hsz), .inr ?_⟩
    exact ReflTransGen.mono (fun _ _ hx => ⟨hx.1, hx.2.1.shape.room, hx.2.2.shape.room⟩) _ _
      (keeps_along hk hw (h.enter hsz))

/-- A group cache whose array and queues are as they were after a lookup. -/
theorem Roomy.of_queues {e e' : Engine} (h : Roomy n e.work) (hs : e'.gp.shape.Ok n) (hq : e'.gp.queues = e.gp.queues) :
    Roomy n e'.work where
  shape := hs
  sized := h.sized.of_queues hq
  revs m hm := absurd hm List.not_mem_nil
  reqs m hm := absurd hm List.not_mem_nil
  waiting := by
    change ∀ p ∈ e'.gp.queues.pendingSendGroupAddMsgs, _
    rw [hq]
    exact h.waiting

theorem getGroupRankCacheEntry_getD (cfg : HostsConfig) (uid : ℤ) (slot : Option GroupCache) (size : ℤ) :
    getGroupRankCacheEntry cfg uid slot size = getGroupRankCacheEntry cfg uid (some (slot.getD newGroupCache)) size := by
  rw [getGroupRankCacheEntry, getGroupCacheInternal_getD]
  rfl

theorem hostAddLocalRankToCache_getD (slot : Option GroupCache) (info : RankInfo) :
    hostAddLocalRankToCache ctx slot info = hostAddLocalRankToCache ctx (some (slot.getD newGroupCache)) info := by
  rw [hostAddLocalRankToCache_eq ctx slot info (getGroupRankCacheEntry_getD _ _ _ _),
    hostAddLocalRankToCache_eq ctx (some _) info rfl]

/-- A rank that connects writes an entry within the room. -/
theorem addCacheEntryForNewClient_shape (g : GroupCache) (c : ℕ) (info : RankInfo) :
    (addCacheEntryForNewClient ctx (some g) c info).shape =
      (getGroupRankCacheEntry ctx.hosts ctx.gpUid (some g) info.groupSize).shape := by
  simp only [addCacheEntryForNewClient, getGroupRankCacheEntry]
  split
  · generalize getGroupCacheInternal ctx.gpUid (some g) info.groupSize = g₀
    have hl : ({ g₀ with persistent := { g₀.persistent with num := 1 } } : GroupCache).learnGroupSize ctx.hosts
        info.groupSize = { g₀.learnGroupSize ctx.hosts info.groupSize with
          persistent := { g₀.persistent with num := 1 } } := by
      unfold GroupCache.learnGroupSize
      split <;> rfl
    rw [hl]
    exact shape_congr rfl rfl rfl (.inr ⟨_, _, rfl⟩)
  · exact shape_congr rfl rfl rfl (.inr ⟨_, _, rfl⟩)

theorem localRankConnectDefaultCallback_shape (hu : ctx.gpUid ≠ INT_MAX) (hn : Allocatable n) (slot : Option GroupCache)
    (out : List Effect) {info : RankInfo} (hi : info.groupSize = n) (h : (slot.getD newGroupCache).shape.Ok n) :
    ((localRankConnectDefaultCallback ctx (slot, out) info).1.getD newGroupCache).shape.Ok n := by
  have hl : (getGroupCacheInternal ctx.gpUid slot info.groupSize).shape.Ok n := by
    rw [getGroupCacheInternal_getD, hi]
    exact h.lookup hu (fits_real hn _)
  simp only [localRankConnectDefaultCallback]
  split
  · exact h
  · split
    · obtain ⟨t, ht⟩ := sendGpCacheToHost_gp ⟨getGroupCacheInternal ctx.gpUid slot info.groupSize, out⟩
      simp only [ht, Option.getD_some]
      exact hl
    · exact hl

theorem finalizeClientConnection_shape (hu : ctx.gpUid ≠ INT_MAX) (hn : Allocatable n) {slot : Option GroupCache}
    {c : ℕ} {info : RankInfo} (hi : info.groupSize = n) (h : (slot.getD newGroupCache).shape.Ok n) :
    ((finalizeClientConnection ctx slot c info).1.getD newGroupCache).shape.Ok n := by
  simp only [finalizeClientConnection]
  split
  · exact localRankConnectDefaultCallback_shape hu hn slot [] hi h
  · rw [addCacheEntryForNewClient_getD]
    obtain ⟨t, ht⟩ := @groupCacheExchange_gp ctx
      ⟨addCacheEntryForNewClient ctx (some (slot.getD newGroupCache)) c info, []⟩ (sizeT info.nLocalRanks)
    have hok : (addCacheEntryForNewClient ctx (some (slot.getD newGroupCache)) c info).shape.Ok n := by
      rw [addCacheEntryForNewClient_shape, hi]
      exact h.access hu hn ctx.hosts
    rw [ht]
    exact localRankConnectDefaultCallback_shape hu hn _ _ hi hok

/-! ### Runs -/

variable {sys : GpCtx} {s s' : Store} {op : StoreOp}

/-- `revoke_group_cache` keeps the room, wherever it is called. -/
theorem Roomy.revoke (hu : ctx.gpUid ≠ INT_MAX) (hn : Allocatable n) {e : Engine} (h : Roomy n e.work)
    {e' : Engine} (hgp : e'.gp = (revokeGroupCache ctx ⟨e.gp, []⟩).gp) : Roomy n e'.work := by
  have hw : Roomy n { Work.start ⟨e.gp, []⟩ with final := true } := ⟨h.shape, h.sized, h.revs, h.reqs, h.waiting⟩
  obtain ⟨ha, -⟩ := @revokeGroupCache_acts ctx (· = (n : ℤ)) (fun _ => True) hu
    { Work.start ⟨e.gp, []⟩ with final := true } rfl rfl rfl h.sized.parked
  have hr := keeps (fun _ _ hJ ha => Roomy.act hu hn hJ ha) ha hw
  have hg : (⟨e'.gp, e'.log⟩ : GpState).gp = (revokeGroupCache ctx ⟨e.gp, []⟩).gp := hgp
  refine ⟨?_, ?_, fun m hm => absurd hm List.not_mem_nil, fun m hm => absurd hm List.not_mem_nil, ?_⟩
  · exact hg ▸ hr.shape
  · exact hg ▸ hr.sized
  · exact hg ▸ hr.waiting

/-- An operation keeps the room of its own group. -/
theorem Roomy.step {N : ℤ → ℕ} (hn : Allocatable (N op.uid)) (h : Roomy (N op.uid) (s.group op.uid).work)
    (hreal : op.Real N) (hfit : s.Fits N op) (hs : s.step sys op = some s') :
    Roomy (N op.uid) (s'.group op.uid).work := by
  have hu : (s.ctx sys op.uid).gpUid ≠ INT_MAX := hreal.1
  have hput : ∀ e, s' = s.put op.uid e → s'.group op.uid = e := by
    rintro e rfl
    exact Function.update_self _ _ _
  have hlook : ∀ size, ((s.group op.uid).gp.Live ∨ N op.uid ≤ allocEntries (sizeT size)) →
      (getGroupCacheInternal op.uid (s.group op.uid).slot size).shape.Ok (N op.uid) ∧
        (getGroupCacheInternal op.uid (s.group op.uid).slot size).queues = (s.group op.uid).gp.queues := by
    intro size hf
    rw [getGroupCacheInternal_getD]
    exact ⟨h.shape.lookup hu hf, getGroupCacheInternal_queues _ _ _⟩
  cases op with
  | query uid =>
    cases hs
    rw [hput _ rfl]
    exact h.of_queues (hlook 0 hfit.room).1 (hlook 0 hfit.room).2
  | lookup uid size =>
    cases hs
    rw [hput _ rfl]
    exact h.of_queues (hlook size hfit.room).1 (hlook size hfit.room).2
  | entry uid size =>
    cases hs
    rw [hput _ rfl]
    have hsz : size = 0 ∨ size < 0 ∨ size = N uid := hreal.2.imp id (Or.imp (fun hz => by rw [hz]; decide) id)
    refine h.of_queues ((hlook size hfit.room).1.learn hn.lt hsz sys.hosts) ?_
    exact (learnGroupSize_queues _ _ _).trans (hlook size hfit.room).2
  | event uid ev =>
    obtain ⟨e, he, rfl⟩ := Option.map_eq_some_iff.1 hs
    rw [hput e rfl]
    exact (h.event hu hn hreal.2 he).1
  | connect uid c info =>
    simp only [Store.step] at hs
    split at hs <;> cases hs
    rw [hput _ rfl]
    exact h.of_queues (finalizeClientConnection_shape (c := c) hu hn hreal.2 h.shape)
      (finalizeClientConnection_queues _ _ _)
  | hostAdd uid info =>
    simp only [Store.step] at hs
    split at hs <;> cases hs
    rw [hput _ rfl]
    have hreal : info.groupSize = N uid := hreal.2
    refine h.of_queues ?_ ?_
    · change (hostAddLocalRankToCache _ (s.group uid).slot info).shape.Ok (N uid)
      rw [hostAddLocalRankToCache_shape, getGroupRankCacheEntry_getD, hreal]
      exact h.shape.access hu hn sys.hosts
    · change (hostAddLocalRankToCache _ (s.group uid).slot info).queues = _
      rw [hostAddLocalRankToCache_getD]
      exact hostAddLocalRankToCache_queues _ _
  | revoke uid =>
    cases hs
    rw [hput _ rfl]
    exact h.revoke hu hn rfl

/-- What the endpoint cache keeps. -/
structure Store.Roomy (N : ℤ → ℕ) (s : Store) : Prop where
  /-- Every group has room. -/
  group : ∀ uid ≠ INT_MAX, DpuOffload.Roomy (N uid) (s.group uid).work
  /-- No group has the uid that stands for none. -/
  none : (s.group INT_MAX).slot = Option.none

theorem Store.Roomy.step {N : ℤ → ℕ} (hn : ∀ uid, Allocatable (N uid)) (h : s.Roomy N) (hreal : op.Real N)
    (hfit : s.Fits N op) (hs : s.step sys op = some s') : s'.Roomy N where
  group uid hu := by
    by_cases he : uid = op.uid
    · subst he
      exact (h.group op.uid hreal.1).step (hn _) hreal hfit hs
    · rw [Store.step_frame hs he]
      exact h.group uid hu
  none := by
    rw [Store.step_frame hs hreal.1.symm]
    exact h.none

theorem roomy_init (N : ℤ → ℕ) : Store.init.Roomy N where
  group uid _ := by
    refine ⟨⟨fun hu => absurd rfl hu, .inl rfl, fun hi => absurd hi Bool.false_ne_true⟩, ⟨?_, ?_⟩, ?_, ?_, ?_⟩ <;>
      exact fun _ hm => absurd hm List.not_mem_nil
  none := rfl

/-- **Every group has room for its ranks, and every access of an addition is in bounds**,
in every run in which each lookup that allocates leaves room for the group and for what
it initialises. -/
theorem bounded_of_reach (sys : GpCtx) (N : ℤ → ℕ) (hn : ∀ uid, Allocatable (N uid)) {s : Store}
    (h : Reach (Store.step sys) (fun s op => op.Real N ∧ s.Fits N op) Store.init s) : s.Bounded sys N := by
  have hk : s.Roomy N := by
    refine h.invariant (roomy_init N) ?_
    rintro s op s' hI ⟨hreal, hfit⟩ hs
    exact hI.step hn hreal hfit hs
  refine ⟨fun uid g hslot hi => ?_, fun uid hu r hr => ?_, fun uid ev s' hreal hs => ?_⟩
  · have hu : uid ≠ INT_MAX := by
      rintro rfl
      rw [hk.none] at hslot
      cases hslot
    have hg : (s.group uid).gp = g := by rw [Engine.gp, hslot]; rfl
    have hok := (hk.group uid hu).shape
    rw [show (s.group uid).work.gp = g from hg] at hok
    have hroom := hok.room (hok.init hi)
    rcases hok.size with h0 | hsz
    · exact (Nat.le_of_eq h0).trans (Nat.zero_le _)
    · exact (Nat.le_of_eq hsz).trans hroom
  · have hok := (hk.group uid hu).shape.access hu (hn uid) sys.hosts
    rw [getGroupRankCacheEntry_getD]
    refine hr.trans_le (hok.room ?_)
    have hl := @live_lookup (s.ctx sys uid) hu (s.group uid).work.gp (N uid)
    simpa [GroupCache.shape, GroupCache.Live, getGroupRankCacheEntry] using hl
  · obtain ⟨e, he, rfl⟩ := Option.map_eq_some_iff.1 hs
    rw [Store.put_group, show Function.update s.group uid e uid = e from Function.update_self _ _ _]
    exact (@Roomy.event _ (s.ctx sys uid) hreal.1 (hn uid) _ _ _ (hk.group uid hreal.1) hreal.2 he).2

/-! ### A query first -/

instance (g : GroupCache) : Decidable g.Live := inferInstanceAs (Decidable (g.groupUid ≠ INT_MAX))

instance (k : ℤ) : (ev : Event) → Decidable (ev.Sizes (· = k))
  | .addGroupRank _ m | .requestAdd m => inferInstanceAs (Decidable (m.rankInfo.groupSize = k))
  | .peerCacheEntries _ batch => inferInstanceAs (Decidable (batchGroupSize batch = k))
  | .revokeFromRank i | .requestRevoke i => inferInstanceAs (Decidable (i.groupSize = k))
  | .revokeFromSp m => inferInstanceAs (Decidable ((m.groupSize : ℤ) = k))
  | .cacheSent | .revokeSent => inferInstanceAs (Decidable True)

instance (N : ℤ → ℕ) : (op : StoreOp) → Decidable (op.Real N)
  | .query _ | .revoke _ => inferInstanceAs (Decidable (_ ∧ True))
  | .lookup uid size | .entry uid size => inferInstanceAs
      (Decidable (uid ≠ INT_MAX ∧ (size = 0 ∨ size = GROUP_SIZE_UNKNOWN ∨ size = N uid)))
  | .event uid ev => inferInstanceAs (Decidable (uid ≠ INT_MAX ∧ ev.Sizes (· = (N uid : ℤ))))
  | .connect uid _ info | .hostAdd uid info => inferInstanceAs (Decidable (uid ≠ INT_MAX ∧ info.groupSize = N uid))

instance (g : GroupCache) (size : ℤ) : Decidable (g.Fits n size) :=
  inferInstanceAs (Decidable (g.Live ∨ (sizeT size * sizeofPeerCacheEntry < 2 ^ 64 ∧ n ≤ sizeT size)))

instance (N : ℤ → ℕ) (s : Store) : (op : StoreOp) → Decidable (s.Fits N op)
  | .query uid => inferInstanceAs (Decidable ((s.group uid).gp.Fits (N uid) 0))
  | .lookup uid size | .entry uid size => inferInstanceAs (Decidable ((s.group uid).gp.Fits (N uid) size))
  | .event _ _ | .connect _ _ _ | .hostAdd _ _ | .revoke _ => inferInstanceAs (Decidable True)

/-- A query after a revoke leaves an array without entries, and the next version of the
group uses it. -/
theorem not_bounded_after_query :
    ∃ s, Reach (Store.step pairCtx) (fun _ op => op.Real fun _ => 2) Store.init s ∧
      ¬ s.Bounded pairCtx fun _ => 2 := by
  have h : ∃ s, Reach (Store.step pairCtx) (fun _ op => op.Real fun _ => 2) Store.init s ∧
      (getGroupRankCacheEntry pairCtx.hosts 5 (s.group 5).slot 2).entries.length = 0 :=
    exists_reach_of_exec
      [.event 5 (.addGroupRank 0 (pairAdd 0 1)), .revoke 5, .query 5, .event 5 (.addGroupRank 0 (pairAdd 0 2))]
      (by decide)
  obtain ⟨s, hs, h0⟩ := h
  refine ⟨s, hs, fun hb => ?_⟩
  have := hb.access 5 (by decide) 0 (by decide)
  exact absurd (this.trans_eq h0) (Nat.lt_irrefl 0)

/-- A lookup with the size of the group after the revoke leaves room for the next version. -/
theorem bounded_of_reach_pair :
    ∃ s, Reach (Store.step pairCtx) (fun s op => (op.Real fun _ => 2) ∧ s.Fits (fun _ => 2) op) Store.init s ∧
      (s.group 5).gp.groupSize = 2 ∧ s.Bounded pairCtx fun _ => 2 := by
  have h : ∃ s, Reach (Store.step pairCtx) (fun s op => (op.Real fun _ => 2) ∧ s.Fits (fun _ => 2) op) Store.init s ∧
      (s.group 5).gp.groupSize = 2 :=
    exists_reach_of_exec
      [.event 5 (.addGroupRank 0 (pairAdd 0 1)), .query 5, .revoke 5, .lookup 5 2,
        .event 5 (.addGroupRank 0 (pairAdd 0 2))] (by decide)
  obtain ⟨s, hs, hsz⟩ := h
  refine ⟨s, hs, hsz, bounded_of_reach pairCtx (fun _ => 2) (fun _ => ?_) hs⟩
  unfold Allocatable sizeofPeerCacheEntry
  decide

end DpuOffload
