import DpuOffload.Lib.Counting
import DpuOffload.Protocol.Site
import DpuOffload.Protocol.Store

/-!
# The counters of the entries of a group

`num_local_entries` and `n_local_ranks_populated` are incremented in three places: when a
batch of entries of another SP is handled, when a local rank adds itself, and when a local
rank connects (`add_cache_entry_for_new_client`). The first two test whether the rank is in the
cache already; the third does not.

* `Stocked` — the entries of a group, one for each rank.
* `Numbered` — the counters count the entries, and an entry that is not set is blank; kept by
  every action of the callbacks (`Numbered.act`).
* `entries_counted` — **so they do in every run** of an SP, for every group, in which no rank
  connects whose entry is set.
* `not_counted_after_reconnect` — a run in which they do not.
-/

namespace DpuOffload

open Relation Transition

/-! ### The entries of a group -/

/-- **The entries of a group of `n` ranks**: a group in use has one for each rank, and
`num_local_entries` counts those that are set. -/
structure Stocked (n : ℕ) (g : GroupCache) : Prop where
  /-- A group in use has an entry for each rank. -/
  live : g.Live → g.initialized = true ∧ ∃ l, g.ranks = some l ∧ l.length = n
  /-- A group not in use has no entry. -/
  dead : ¬ g.Live → g.ranks = none
  /-- The size is known or not. -/
  size : g.groupSize = 0 ∨ g.groupSize = n
  /-- Until it is known there is no entry. -/
  unknown : g.groupSize = 0 → g.numLocalEntries = 0
  /-- `num_local_entries` counts the entries set. -/
  count : g.numLocalEntries = g.entries.countP (·.set)

variable {gid n : ℕ} {ctx : GpCtx} {T : Tally → Prop} {g g' : GroupCache}

namespace Stocked

theorem congr (h : Stocked n g) (hi : g'.initialized = g.initialized) (hs : g'.groupSize = g.groupSize)
    (hu : g'.groupUid = g.groupUid) (hn : g'.numLocalEntries = g.numLocalEntries) (hr : g'.ranks = g.ranks) :
    Stocked n g' := by
  have hl : g'.Live ↔ g.Live := by simp only [GroupCache.Live, hu]
  have he : g'.entries = g.entries := by simp only [GroupCache.entries, hr]
  constructor
  · rw [hl, hi, hr]
    exact h.live
  · rw [hl, hr]
    exact h.dead
  · rw [hs]
    exact h.size
  · rw [hs, hn]
    exact h.unknown
  · rw [hn, he]
    exact h.count

/-- A group cache without entries. -/
theorem of_none (hl : ¬ g.Live) (hr : g.ranks = none) (hs : g.groupSize = 0) (hn : g.numLocalEntries = 0) :
    Stocked n g := by
  have he : g.entries = [] := by rw [GroupCache.entries, hr]; rfl
  constructor
  · exact fun h => absurd h hl
  · exact fun _ => hr
  · exact .inl hs
  · exact fun _ => hn
  · rw [hn, he]
    rfl

/-- A group that is initialised with its size. -/
theorem init (hn : Allocatable n) (g : GroupCache) {uid : ℤ} (hu : uid ≠ INT_MAX) :
    Stocked n { initGroupCache g (sizeT n) with groupUid := uid } := by
  have hlen : allocEntries (sizeT n) = n := by rw [sizeT_natCast hn.lt, hn.allocEntries_eq]
  have hnone : (List.replicate (allocEntries (sizeT n)) initPeerCacheEntry).countP (·.set) = 0 := by
    rw [List.countP_replicate]
    rfl
  constructor
  · exact fun _ => ⟨rfl, _, rfl, by rw [List.length_replicate, hlen]⟩
  · exact fun h => absurd hu h
  · exact .inl rfl
  · exact fun _ => rfl
  · exact hnone.symm

/-- There are at most as many entries as ranks. -/
theorem length_entries_le (h : Stocked n g) : g.entries.length ≤ n := by
  by_cases hl : g.Live
  · obtain ⟨-, l, hr, hlen⟩ := h.live hl
    rw [GroupCache.entries, hr, Option.getD_some, hlen]
  · rw [GroupCache.entries, h.dead hl]
    exact Nat.zero_le _

/-- The group learns its size. -/
theorem known (h : Stocked n g) : Stocked n { g with groupSize := n } := by
  refine ⟨h.live, h.dead, .inr rfl, fun h0 => ?_, h.count⟩
  have h0 : n = 0 := h0
  have hle := h.length_entries_le
  have hcount := h.count
  have hc : g.entries.countP (·.set) ≤ g.entries.length := List.countP_le_length
  change g.numLocalEntries = 0
  omega

/-- Once a group has learnt its size it is known. -/
theorem groupSize_of_learnt (hn : Allocatable n) (h : Stocked n g) (hl : g.Live) {cfg : HostsConfig}
    (hL : g.Learnt cfg (· = (n : ℤ))) : g.groupSize = n := by
  refine h.size.elim (fun h0 => ?_) id
  obtain ⟨size, rfl, hL⟩ := hL
  have hsz : (g.learnGroupSize cfg n).groupSize = n := by
    simp [GroupCache.learnGroupSize, (h.live hl).1, h0, sizeT_natCast hn.lt]
  rwa [hL] at hsz

/-- The entry of a rank is one of the entries. -/
theorem entryAt_mem (h : Stocked n g) (hl : g.Live) {r : ℕ} (hr : r < n) : g.entryAt r ∈ g.entries := by
  obtain ⟨-, l, hlr, hlen⟩ := h.live hl
  have hel : g.entries = l := by rw [GroupCache.entries, hlr]; rfl
  rw [GroupCache.entryAt, hel, List.getD_eq_getElem _ _ (hlen ▸ hr)]
  exact List.getElem_mem _

/-- **One more entry**, of a rank that was not set. -/
theorem put (h : Stocked n g) (hl : g.Live) (hs : g.groupSize = n) {r : ℕ} (hr : r < n) (hset : g.isSet r = false)
    {e : PeerCacheEntry} (he : e.set = true) (hi : g'.initialized = g.initialized) (hsize : g'.groupSize = g.groupSize)
    (hu : g'.groupUid = g.groupUid) (hnum : g'.numLocalEntries = g.numLocalEntries + 1)
    (hranks : g'.ranks = g.ranks.map (·.set r e)) : Stocked n g' := by
  obtain ⟨hini, l, hlr, hlen⟩ := h.live hl
  have hel : g.entries = l := by rw [GroupCache.entries, hlr]; rfl
  have hel' : g'.entries = l.set r e := by rw [GroupCache.entries, hranks, hlr]; rfl
  have hrl : r < l.length := hlen ▸ hr
  have hold : (l.getD r initPeerCacheEntry).set = false := by rw [← hel]; exact hset
  have hlive : g'.Live := by rw [GroupCache.Live, hu]; exact hl
  have hcount := Counting.countP_set_add (·.set) initPeerCacheEntry hrl e
  have hbefore := h.count
  rw [hel] at hbefore
  simp only [hold, he, Bool.false_eq_true, if_false, if_true] at hcount
  constructor
  · exact fun _ => ⟨hi ▸ hini, l.set r e, by rw [hranks, hlr]; rfl, by rw [List.length_set, hlen]⟩
  · exact fun hd => absurd hlive hd
  · exact .inr (hsize.trans hs)
  · intro h0
    omega
  · rw [hnum, hel']
    omega

theorem isSet_lt (h : Stocked n g) {r : ℕ} (hr : g.isSet r = true) : r < n := by
  by_contra hlt
  have hblank : g.entryAt r = initPeerCacheEntry :=
    List.getD_eq_default _ _ (h.length_entries_le.trans (not_lt.1 hlt))
  rw [GroupCache.isSet, hblank] at hr
  cases hr

/-- A complete group has all its ranks. -/
theorem isSet_of_complete (h : Stocked n g) (hn : g.numLocalEntries = n) (r : ℕ) : g.isSet r = true ↔ r < n := by
  refine ⟨h.isSet_lt, fun hr => ?_⟩
  have hcount := h.count
  have hle := h.length_entries_le
  have hcle : g.entries.countP (·.set) ≤ g.entries.length := List.countP_le_length
  have hlen : g.entries.length = n := by omega
  have hall : g.entries.countP (·.set) = g.entries.length := by omega
  have hrl : r < g.entries.length := hlen ▸ hr
  rw [GroupCache.isSet, GroupCache.entryAt, List.getD_eq_getElem _ _ hrl]
  exact List.countP_eq_length.1 hall _ (List.getElem_mem hrl)

end Stocked

/-! ### The counters -/

/-- The part of a group cache the counters of the entries are about. -/
def GroupCache.roll (g : GroupCache) : GroupCache :=
  { g with
    persistent := Persistent.init, topo := Topology.empty, revokesGlobal := 0, revokesLocal := 0
    revokesRanks := none, nLocalRanks := 0, spRanks := 0 }

/-- **The counters count the entries** of a group of `n` ranks, on SP `gid`. -/
structure Numbered (gid n : ℕ) (g : GroupCache) : Prop extends Stocked n g where
  /-- An entry that is not set lists no SP. -/
  blank : ∀ e ∈ g.entries, e.set = false → e.shadowServiceProcs = []
  /-- `n_local_ranks_populated` counts those of the SP. -/
  populated : g.nLocalRanksPopulated = g.entries.countP fun e => e.set && e.shadow0 == gid

namespace Numbered

/-- What is not about the entries does not matter. -/
theorem of_roll (h : Numbered gid n g) (hg : g'.roll = g.roll) : Numbered gid n g' := by
  simp only [GroupCache.roll, GroupCache.mk.injEq, true_and, and_true] at hg
  obtain ⟨hi, hsize, hu, hn, hp, hranks⟩ := hg
  have he : g'.entries = g.entries := by simp only [GroupCache.entries, hranks]
  refine ⟨h.toStocked.congr hi hsize hu hn hranks, ?_, ?_⟩
  · rw [he]
    exact h.blank
  · rw [hp, he]
    exact h.populated

/-- A group cache without entries. -/
theorem of_none (hl : ¬ g.Live) (hr : g.ranks = none) (hs : g.groupSize = 0) (hn : g.numLocalEntries = 0)
    (hp : g.nLocalRanksPopulated = 0) : Numbered gid n g := by
  have he : g.entries = [] := by rw [GroupCache.entries, hr]; rfl
  refine ⟨Stocked.of_none hl hr hs hn, ?_, ?_⟩
  · rw [he]
    exact fun e hm => absurd hm List.not_mem_nil
  · rw [hp, he]
    rfl

theorem new : Numbered gid n newGroupCache := of_none (fun h => h rfl) rfl rfl rfl rfl

theorem reset (g : GroupCache) (p : Persistent) : Numbered gid n { resetGroupCache g with persistent := p } :=
  of_none (fun h => h rfl) rfl rfl rfl rfl

/-- A group that is initialised with its size. -/
theorem init (hn : Allocatable n) (g : GroupCache) {uid : ℤ} (hu : uid ≠ INT_MAX) :
    Numbered gid n { initGroupCache g (sizeT n) with groupUid := uid } := by
  refine ⟨Stocked.init hn g hu, fun e he _ => ?_, ?_⟩
  · rw [List.eq_of_mem_replicate he]
    rfl
  · have hnone : (List.replicate (allocEntries (sizeT n)) initPeerCacheEntry).countP
        (fun e => e.set && e.shadow0 == gid) = 0 := by
      rw [List.countP_replicate]
      rfl
    exact hnone.symm

/-- A lookup with the size of the group. -/
theorem lookup (hn : Allocatable n) {uid : ℤ} (hu : uid ≠ INT_MAX) (h : Numbered gid n g) :
    Numbered gid n (getGroupCacheInternal uid (some g) n) := by
  unfold getGroupCacheInternal
  dsimp only
  split
  · exact init hn g hu
  · exact h

/-- The group learns its size. -/
theorem known (h : Numbered gid n g) (hg : g'.roll = { g.roll with groupSize := n }) : Numbered gid n g' := by
  have h' : Numbered gid n { g with groupSize := n } := ⟨h.toStocked.known, h.blank, h.populated⟩
  exact h'.of_roll hg

theorem learn (hn : Allocatable n) (h : Numbered gid n g) (cfg : HostsConfig) :
    Numbered gid n (g.learnGroupSize cfg n) := by
  unfold GroupCache.learnGroupSize
  split
  · exact h.known (by simp only [GroupCache.roll, sizeT_natCast hn.lt])
  · exact h

/-- **One more entry**, of a rank that was not set. -/
theorem put (h : Numbered gid n g) (hl : g.Live) (hs : g.groupSize = n) {r : ℕ} (hr : r < n)
    (hset : g.isSet r = false) {e : PeerCacheEntry} (he : e.set = true)
    (hg : g'.roll = { g.roll with
      numLocalEntries := g.numLocalEntries + 1
      nLocalRanksPopulated := g.nLocalRanksPopulated + if e.shadow0 = gid then 1 else 0
      ranks := g.ranks.map (·.set r e) }) : Numbered gid n g' := by
  simp only [GroupCache.roll, GroupCache.mk.injEq, true_and, and_true] at hg
  obtain ⟨hi, hsize, hu, hnum, hp, hranks⟩ := hg
  obtain ⟨-, l, hlr, hlen⟩ := h.live hl
  have hel : g.entries = l := by rw [GroupCache.entries, hlr]; rfl
  have hel' : g'.entries = l.set r e := by rw [GroupCache.entries, hranks, hlr]; rfl
  have hold : (l.getD r initPeerCacheEntry).set = false := by rw [← hel]; exact hset
  have hcount := Counting.countP_set_add (fun e => e.set && e.shadow0 == gid) initPeerCacheEntry (hlen ▸ hr) e
  have hbefore := h.populated
  rw [hel] at hbefore
  simp only [hold, he, Bool.false_and, Bool.true_and, Bool.false_eq_true, if_false, beq_iff_eq] at hcount
  refine ⟨h.toStocked.put hl hs hr hset he hi hsize hu hnum hranks, fun d hd hds => ?_, ?_⟩
  · rw [hel'] at hd
    rcases List.mem_or_eq_of_mem_set hd with hd | rfl
    · exact h.blank d (hel ▸ hd) hds
    · rw [he] at hds
      cases hds
  · rw [hp, hel']
    omega

end Numbered

/-! ### Callbacks -/

/-- Messages about a group of `n` ranks as SP `gid` gets them: the entries other SPs send are
those of their own ranks. -/
def spMsgs (gid n : ℕ) : MsgSpec where
  entry e := Member n e.peer.procInfo ∧ e.shadow0 ≠ gid
  add p := Member n p.data.rankInfo
  rankRev i := i.groupSize = n
  rev m := m.groupSize = n

/-- What the callbacks keep about the entries of a group. -/
structure Rolled (gid n : ℕ) (w : Work) : Prop where
  /-- What is put aside announces the size of the group. -/
  sized : w.gp.Sized (· = (n : ℤ))
  /-- The messages are as they should be. -/
  carries : Carries (spMsgs gid n) w
  /-- The counters count the entries. -/
  numbered : Numbered gid n w.gp

/-- An entry of another SP is added. -/
theorem Numbered.addPeerEntry (hn : Allocatable n) (h : Numbered gid n g) (hl : g.Live) (hs : g.groupSize = n)
    {e : PeerCacheEntry} (he : Member n e.peer.procInfo) (hgid : e.shadow0 ≠ gid)
    (hset : g.isSet (sizeT e.peer.procInfo.groupRank) = false) : Numbered gid n (g.addPeerEntry ctx e) := by
  obtain ⟨t, ht⟩ := addPeerEntry_eq ctx g e
  have hr := he.rank_lt hn
  have hold : (g.entryAt (sizeT e.peer.procInfo.groupRank)).shadowServiceProcs = [] :=
    h.blank _ (h.entryAt_mem hl hr) hset
  have hsh : (g.peerEntry e).shadow0 ≠ gid := by
    rw [PeerCacheEntry.shadow0, GroupCache.peerEntry, hold]
    exact hgid
  apply h.put hl hs hr hset (e := g.peerEntry e) rfl
  rw [ht, if_neg hsh]
  rfl

/-- A local rank is added. -/
theorem Numbered.addGroupRank (hn : Allocatable n) (hgid : ctx.globalId = gid) (h : Numbered gid n g) (hl : g.Live)
    (hs : g.groupSize = n) {c : ℕ} {m : GroupAddMsg} (hm : Member n m.rankInfo)
    (hset : g.isSet (sizeT m.rankInfo.groupRank) = false) : Numbered gid n (g.addGroupRank ctx c m) := by
  obtain ⟨t, k, sp, ht, -⟩ := addGroupRank_eq ctx g c m
  have hsh : (localEntry ctx c m.rankInfo).shadow0 = gid := hgid
  apply h.put hl hs (hm.rank_lt hn) hset (e := localEntry ctx c m.rankInfo) rfl
  rw [ht, if_pos hsh]
  rfl

/-- **No action of a callback miscounts.** -/
theorem Numbered.act (hu : ctx.gpUid ≠ INT_MAX) (hd : ctx.onDpu = true) (hn : Allocatable n) (hgid : ctx.globalId = gid)
    {w w' : Work} (h : Numbered gid n w.gp) (hc : Carries (spMsgs gid n) w) (ha : Act ctx (· = (n : ℤ)) T w w') :
    Numbered gid n w'.gp := by
  cases ha with
  | init size hs hl =>
    subst hs
    exact Numbered.init hn w.gp hu
  | learn size hs hl =>
    subst hs
    exact h.learn hn ctx.hosts
  | addEntry he hl hL h0 hset =>
    obtain ⟨hm, hne⟩ := hc.ents _ (mem_of_eq_cons he)
    exact h.addPeerEntry hn hl (h.toStocked.groupSize_of_learnt hn hl hL) hm hne hset
  | addLocal ha hl hL h0 hset =>
    exact h.addGroupRank hn hgid hl (h.toStocked.groupSize_of_learnt hn hl hL) (hc.adds _ (mem_of_eq_cons ha)) hset
  | sendCache hl h0 hf =>
    obtain ⟨t, ht⟩ := sendGpCacheToHost_gp w.toGpState
    exact h.of_roll (by simp only [ht]; rfl)
  | exchange hdue hl =>
    obtain ⟨t, ht⟩ := @groupCacheExchange_gp ctx w.toGpState w.gp.spRanks
    exact h.of_roll (by simp only [ht]; rfl)
  | markLocal hr hl hn' => exact h.of_roll (by simp only [tellRankRevoke_gp]; rfl)
  | accept hr hl hdl hT' =>
    have hm : _ = n := hc.revs _ (mem_of_eq_cons hr)
    unfold GroupCache.learnFromRevoke
    split
    · exact h.known (by simp only [GroupCache.roll, hm])
    · exact h
  | reset hf he hdue => exact Numbered.reset _ _
  | hostAdd hd' _ | hostPark hd' _ _ | hostTake hd' _ | hostRevoke _ hd' =>
    rw [hd] at hd'
    cases hd'
  | _ => exact h.of_roll rfl

/-- **No action of a callback loses count of the entries.** -/
theorem Rolled.act (hu : ctx.gpUid ≠ INT_MAX) (hd : ctx.onDpu = true) (hn : Allocatable n) (hgid : ctx.globalId = gid)
    {w w' : Work} (h : Rolled gid n w) (ha : Act ctx (· = (n : ℤ)) T w w') : Rolled gid n w' :=
  ⟨h.sized.act ha, h.carries.act ha, h.numbered.act hu hd hn hgid h.carries ha⟩

theorem spMsgs_le (gid n : ℕ) : (spMsgs gid n).Le (sizeMsgs n) :=
  ⟨fun _ he => he.1.groupSize, fun _ hp => hp.groupSize, fun _ hi => hi, fun _ hm => hm⟩

/-- A callback starts with the event's message in hand. -/
theorem Rolled.enter {log : List Effect} (h : Rolled gid n (Work.start ⟨g, log⟩)) {ev : Event}
    (hok : (spMsgs gid n).Ok ev) (c : GpCtx) : Rolled gid n (ev.enter c ⟨g, log⟩) := by
  have hgp : (ev.enter c ⟨g, log⟩).gp = g := by
    cases ev with
    | revokeFromSp m =>
      simp only [Event.enter]
      split <;> rfl
    | _ => rfl
  refine ⟨?_, h.carries.enter hok c, ?_⟩
  · rw [hgp]
    exact h.sized
  · rw [hgp]
    exact h.numbered

/-- An event of the group. -/
theorem Rolled.event (hu : ctx.gpUid ≠ INT_MAX) (hd : ctx.onDpu = true) (hn : Allocatable n)
    (hgid : ctx.globalId = gid) {e e' : Engine} {ev : Event} (h : Rolled gid n e.work) (hok : (spMsgs gid n).Ok ev)
    (hs : e.step ctx ev = some e') : Rolled gid n e'.work := by
  rcases @Engine.step_acts ctx (· = (n : ℤ)) (fun _ => True) hu e e' ev hs h.sized (hok.sizes (spMsgs_le gid n))
    (ev.applies_true _) with ⟨-, hgp, hlog⟩ | hw
  · rw [Engine.work, hgp, hlog]
    exact h
  · exact keeps (fun _ _ hJ ha => hJ.act hu hd hn hgid ha) hw (h.enter hok ctx)

/-- A group cache with the same queues. -/
theorem Rolled.of_queues {e e' : Engine} (h : Rolled gid n e.work) (hn : Numbered gid n e'.gp)
    (hq : e'.gp.queues = e.gp.queues) : Rolled gid n e'.work :=
  ⟨h.sized.of_queues hq, h.carries.of_queues hq, hn⟩

/-- `revoke_group_cache`. -/
theorem Rolled.revoke (hu : ctx.gpUid ≠ INT_MAX) (hd : ctx.onDpu = true) (hn : Allocatable n)
    (hgid : ctx.globalId = gid) {e e' : Engine} (h : Rolled gid n e.work)
    (hgp : e'.gp = (revokeGroupCache ctx ⟨e.gp, []⟩).gp) : Rolled gid n e'.work := by
  obtain ⟨ha, -⟩ := @revokeGroupCache_acts ctx (· = (n : ℤ)) (fun _ => True) hu
    { Work.start ⟨e.gp, []⟩ with final := true } rfl rfl rfl h.sized.parked
  have hw : Rolled gid n { Work.start ⟨e.gp, []⟩ with final := true } := ⟨h.sized, { h.carries with }, h.numbered⟩
  have hr := keeps (fun _ _ hJ ha => Rolled.act hu hd hn hgid hJ ha) ha hw
  have hwork : e'.work = Work.start ⟨(revokeGroupCache ctx ⟨e.gp, []⟩).gp, e'.log⟩ := by rw [Engine.work, hgp]
  rw [hwork]
  exact ⟨hr.sized, { hr.carries with }, hr.numbered⟩

/-- The group a new client is put into is in use, and has no entry for its rank. -/
theorem newClient_ready (hu : ctx.gpUid ≠ INT_MAX) {r : ℕ} (hset : g.isSet r = false) {p : Persistent} {size : ℤ}
    {g₀ : GroupCache} (h₀ : g₀ = { getGroupCacheInternal ctx.gpUid (some g) size with persistent := p }) :
    g₀.Live ∧ (g₀.learnGroupSize ctx.hosts size).Live ∧ (g₀.learnGroupSize ctx.hosts size).isSet r = false := by
  have hl : g₀.Live := by
    rw [h₀]
    exact live_lookup hu g size
  refine ⟨hl, ?_, ?_⟩
  · rw [GroupCache.Live, learnGroupSize_groupUid]
    exact hl
  · rw [isSet_congr (learnGroupSize_ranks _ _ _), h₀]
    exact isSet_getGroupCacheInternal hset ctx.gpUid size

/-- `add_cache_entry_for_new_client`, for a rank whose entry is not set. -/
theorem Numbered.newClient (hu : ctx.gpUid ≠ INT_MAX) (hn : Allocatable n) (hgid : ctx.globalId = gid)
    (h : Numbered gid n g) {c : ℕ} {info : RankInfo} (hi : Member n info)
    (hset : g.isSet (sizeT info.groupRank) = false) :
    Numbered gid n (addCacheEntryForNewClient ctx (some g) c info) := by
  obtain ⟨p, g₀, g₁, h₀, h₁, hp⟩ := addCacheEntryForNewClient_put ctx g c info
  obtain ⟨-, hl, hno⟩ := newClient_ready hu hset h₀
  rw [← h₁] at hl hno
  rw [hi.groupSize] at h₀ h₁
  have hlook : Numbered gid n g₀ := by
    rw [h₀]
    exact (h.lookup hn hu).of_roll rfl
  have hnum : Numbered gid n g₁ := by
    rw [h₁]
    exact hlook.learn hn ctx.hosts
  have hL : g₁.Learnt ctx.hosts (· = (n : ℤ)) := by
    rw [h₁]
    exact learnt_learnGroupSize g₀ rfl
  have hsh : (localEntry ctx c info).shadow0 = gid := hgid
  refine hnum.put hl (hnum.toStocked.groupSize_of_learnt hn hl hL) (hi.rank_lt hn) hno (e := localEntry ctx c info)
    rfl ?_
  rw [hp, if_pos hsh]
  rfl

/-- **A rank connects whose entry is not set.** -/
theorem Numbered.connect (hu : ctx.gpUid ≠ INT_MAX) (hn : Allocatable n) (hgid : ctx.globalId = gid)
    {slot : Option GroupCache} (h : Numbered gid n (slot.getD newGroupCache)) {c : ℕ} {info : RankInfo}
    (hi : Member n info) (hset : (slot.getD newGroupCache).isSet (sizeT info.groupRank) = false) :
    Numbered gid n ((finalizeClientConnection ctx slot c info).1.getD newGroupCache) := by
  -- the callback of the server looks the group up and may send its cache
  have hcb : ∀ (slot : Option GroupCache) (out : List Effect), Numbered gid n (slot.getD newGroupCache) →
      Numbered gid n ((localRankConnectDefaultCallback ctx (slot, out) info).1.getD newGroupCache) := by
    intro slot out h
    unfold localRankConnectDefaultCallback
    split
    · exact h
    · have hlook : Numbered gid n (getGroupCacheInternal ctx.gpUid slot info.groupSize) := by
        rw [getGroupCacheInternal_getD, hi.groupSize]
        exact h.lookup hn hu
      dsimp only
      split
      · obtain ⟨t, ht⟩ := sendGpCacheToHost_gp ⟨getGroupCacheInternal ctx.gpUid slot info.groupSize, out⟩
        rw [ht]
        exact hlook.of_roll rfl
      · exact hlook
  unfold finalizeClientConnection
  split
  · exact hcb slot [] h
  · rw [addCacheEntryForNewClient_getD]
    apply hcb _ _
    obtain ⟨t, ht⟩ := @groupCacheExchange_gp ctx
      ⟨addCacheEntryForNewClient ctx (some (slot.getD newGroupCache)) c info, []⟩ (sizeT info.nLocalRanks)
    rw [ht]
    exact (h.newClient hu hn hgid (c := c) hi hset).of_roll rfl

/-! ### Runs of an SP -/

/-- The additions and the revokes of an SP, about groups of the sizes `N`. -/
def StoreOp.OfSp (sys : GpCtx) (N : ℤ → ℕ) (op : StoreOp) : Prop :=
  op.uid ≠ INT_MAX ∧ match op with
    | .event uid ev => (spMsgs sys.globalId (N uid)).Ok ev
    | .connect uid _ info => Member (N uid) info
    | .revoke _ => True
    | _ => False

/-- A rank that connects is not in the cache. -/
def Store.NewClient (s : Store) : StoreOp → Prop
  | .connect uid _ info => (s.group uid).gp.isSet (sizeT info.groupRank) = false
  | _ => True

/-- **The counters of a group count its entries**, on SP `gid`. -/
def GroupCache.Counted (gid : ℕ) (g : GroupCache) : Prop :=
  g.numLocalEntries = g.entries.countP (·.set) ∧ g.numLocalEntries ≤ g.groupSize ∧
    g.nLocalRanksPopulated = g.entries.countP fun e => e.set && e.shadow0 == gid

theorem Numbered.counted (h : Numbered gid n g) : g.Counted gid := by
  refine ⟨h.count, ?_, h.populated⟩
  have hle := h.length_entries_le
  have hc : g.entries.countP (·.set) ≤ g.entries.length := List.countP_le_length
  have hcount := h.count
  rcases h.size with h0 | hs
  · rw [h.unknown h0]
    exact Nat.zero_le _
  · omega

variable {sys : GpCtx} {N : ℤ → ℕ} {s s' : Store} {op : StoreOp}

/-- An operation keeps the counters of its own group. -/
theorem Rolled.step (hd : sys.onDpu = true) (hn : Allocatable (N op.uid))
    (h : Rolled sys.globalId (N op.uid) (s.group op.uid).work) (hop : op.OfSp sys N) (hnew : s.NewClient op)
    (hs : s.step sys op = some s') : Rolled sys.globalId (N op.uid) (s'.group op.uid).work := by
  have hu : (s.ctx sys op.uid).gpUid ≠ INT_MAX := hop.1
  have hput : ∀ e, s' = s.put op.uid e → s'.group op.uid = e := by
    rintro e rfl
    exact Function.update_self _ _ _
  cases op with
  | event uid ev =>
    obtain ⟨e, he, rfl⟩ := Option.map_eq_some_iff.1 hs
    rw [hput e rfl]
    exact h.event hu hd hn rfl hop.2 he
  | connect uid c info =>
    simp only [Store.step, hd, if_true] at hs
    cases hs
    rw [hput _ rfl]
    exact h.of_queues (h.numbered.connect hu hn rfl (c := c) hop.2 hnew) (finalizeClientConnection_queues _ _ _)
  | revoke uid =>
    cases hs
    rw [hput _ rfl]
    exact h.revoke hu hd hn rfl rfl
  | query _ | lookup _ _ | entry _ _ | hostAdd _ _ => exact hop.2.elim

/-- **The counters of every group count its entries**, in every run of an SP in which no rank
connects whose entry is set. -/
theorem entries_counted (sys : GpCtx) (N : ℤ → ℕ) (hd : sys.onDpu = true) (hn : ∀ uid, Allocatable (N uid))
    (h : Reach (Store.step sys) (fun s op => op.OfSp sys N ∧ s.NewClient op) Store.init s) (uid : ℤ) :
    (s.group uid).gp.Counted sys.globalId := by
  have hk : ∀ uid, Rolled sys.globalId (N uid) (s.group uid).work := by
    refine h.invariant (I := fun s => ∀ uid, Rolled sys.globalId (N uid) (s.group uid).work) ?_ ?_
    · intro uid
      exact ⟨GroupCache.Sized.new, Carries.new _ [], Numbered.new⟩
    · rintro s op s' hI ⟨hop, hnew⟩ hs uid
      by_cases he : uid = op.uid
      · subst he
        exact (hI op.uid).step hd (hn _) hop hnew hs
      · rw [Store.step_frame hs he]
        exact hI uid
  exact (hk uid).numbered.counted

instance spMsgs.decidableOk (gid n : ℕ) : (ev : Event) → Decidable ((spMsgs gid n).Ok ev)
  | .addGroupRank _ m => inferInstanceAs (Decidable (Member n m.rankInfo))
  | .peerCacheEntries _ batch => inferInstanceAs
      (Decidable (batch ≠ [] ∧ ∀ e ∈ batch, Member n e.peer.procInfo ∧ e.shadow0 ≠ gid))
  | .revokeFromRank i => inferInstanceAs (Decidable (i.groupSize = n))
  | .revokeFromSp m => inferInstanceAs (Decidable (m.groupSize = n))
  | .cacheSent | .revokeSent => inferInstanceAs (Decidable True)
  | .requestAdd _ | .requestRevoke _ => inferInstanceAs (Decidable False)

instance StoreOp.decidableOfSp (sys : GpCtx) (N : ℤ → ℕ) : (op : StoreOp) → Decidable (op.OfSp sys N)
  | .event uid ev => inferInstanceAs (Decidable (uid ≠ INT_MAX ∧ (spMsgs sys.globalId (N uid)).Ok ev))
  | .connect uid _ info => inferInstanceAs (Decidable (uid ≠ INT_MAX ∧ Member (N uid) info))
  | .revoke uid => inferInstanceAs (Decidable (uid ≠ INT_MAX ∧ True))
  | .query uid | .lookup uid _ | .entry uid _ | .hostAdd uid _ => inferInstanceAs (Decidable (uid ≠ INT_MAX ∧ False))

instance Store.decidableNewClient (s : Store) : (op : StoreOp) → Decidable (s.NewClient op)
  | .connect uid _ info => inferInstanceAs (Decidable ((s.group uid).gp.isSet (sizeT info.groupRank) = false))
  | .event _ _ | .revoke _ | .query _ | .lookup _ _ | .entry _ _ | .hostAdd _ _ => inferInstanceAs (Decidable True)

/-- A rank connects, the other comes from the other SP, the group is revoked and the first
rank connects again. -/
theorem entries_counted_pair :
    ∃ s, Reach (Store.step pairCtx) (fun s op => op.OfSp pairCtx (fun _ => 2) ∧ s.NewClient op) Store.init s ∧
      (s.group 5).gp.numLocalEntries = 1 ∧ (s.group 5).gp.Counted 0 := by
  have hrun : ∃ s, Reach (Store.step pairCtx) (fun s op => op.OfSp pairCtx (fun _ => 2) ∧ s.NewClient op) Store.init s ∧
      (s.group 5).gp.numLocalEntries = 1 :=
    exists_reach_of_exec
      [.connect 5 0 (pairInfo 0 1), .event 5 (.peerCacheEntries 1 [pairEntry 1 1]), .revoke 5,
        .connect 5 1 (pairInfo 0 2)] (by decide)
  obtain ⟨s, hs, hnum⟩ := hrun
  refine ⟨s, hs, hnum, entries_counted pairCtx (fun _ => 2) rfl (fun _ => ?_) hs 5⟩
  unfold Allocatable sizeofPeerCacheEntry
  decide

/-- **Not in every run.** A rank connects twice: the group of two ranks counts two entries and
has one, so that it passes for complete. -/
theorem not_counted_after_reconnect : ¬ ∀ (sys : GpCtx) (N : ℤ → ℕ) (s : Store), sys.onDpu = true →
    (∀ uid, Allocatable (N uid)) → Reach (Store.step sys) (fun _ op => op.OfSp sys N) Store.init s →
      ∀ uid, (s.group uid).gp.Counted sys.globalId := by
  intro h
  have hrun : ∃ s, Reach (Store.step pairCtx) (fun _ op => op.OfSp pairCtx fun _ => 2) Store.init s ∧
      (s.group 5).gp.numLocalEntries = 2 ∧ (s.group 5).gp.entries.countP (·.set) = 1 :=
    exists_reach_of_exec [.connect 5 0 (pairInfo 0 1), .connect 5 1 (pairInfo 0 1)] (by decide)
  obtain ⟨s, hs, hnum, hset⟩ := hrun
  have hc := (h pairCtx (fun _ => 2) s rfl (fun _ => allocatable_two) hs 5).1
  rw [hnum, hset] at hc
  cases hc

end DpuOffload
