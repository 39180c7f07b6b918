import DpuOffload.Getters.Roster

/-!
# Runs of a group on its roster

The callbacks, the connections of ranks, the end of a host's bootstrapping, the getters and the
revokes of a group, in any order (`TopoOp`). The ranks that join here are those the roster puts
here, and the entries that come from elsewhere are those of the roster (`Roster.OpOk`). A getter
fills the tables of a complete group only, and a rank that connects is not in the cache
(`TopoOp.Settled`).

At the end of its bootstrapping a host records its rank twice, so a run in which each rank is to
be recorded once (`once`) has no such step.
-/

namespace DpuOffload

open Relation Transition TopoUpdate

/-- A rank that joins on SP `gid`, or on a host of that SP. -/
structure Roster.Joins (R : Roster) (gid : ℕ) (i : RankInfo) : Prop where
  /-- It is a rank of the group. -/
  member : Member R.size i
  /-- The SP is its only one. -/
  sps : R.sps (sizeT i.groupRank) = [gid]
  /-- It reports its host. -/
  host : i.hostInfo = R.host (sizeT i.groupRank)

/-- Messages about a group laid out as `R`, on SP `gid` of host `hostUid`. -/
def Roster.msgs (R : Roster) (gid hostUid : ℕ) : MsgSpec where
  entry e := Member R.size e.peer.procInfo ∧ e.shadowServiceProcs = R.sps e.rank ∧ e.peer.hostInfo = R.host e.rank
  add p := R.Joins gid p.data.rankInfo ∧ p.data.rankInfo.hostInfo = hostUid
  rankRev i := i.groupSize = R.size
  rev m := m.groupSize = R.size

variable {cfg : HostsConfig} {R : Roster} {once : Prop} {g g' : GroupCache} {ctx : GpCtx} {T : Tally → Prop}
  {w w' : Work} {gid hostUid : ℕ}

theorem Member.cast_rank {n : ℕ} {i : RankInfo} (h : Member n i) (hn : Allocatable n) :
    i.groupRank = (sizeT i.groupRank : ℕ) := by
  have h₁ := hn.lt
  have h₂ := h.lt
  have h₃ := h.nonneg
  unfold sizeT
  omega

theorem Roster.Joins.rank_lt {i : RankInfo} (h : R.Joins gid i) : sizeT i.groupRank < R.size := h.member.rank_lt R.alloc

/-! ### Additions -/

namespace Seated

/-- An entry of another process is added. -/
theorem addPeerEntry (h : Seated ctx.hosts R once g) (hl : g.Live) (hs : g.groupSize = R.size)
    {e : PeerCacheEntry} (he : (R.msgs gid hostUid).entry e)
    (hset : g.isSet (sizeT e.peer.procInfo.groupRank) = false) : Seated ctx.hosts R once (g.addPeerEntry ctx e) := by
  obtain ⟨hm, hsp, hhost⟩ := he
  obtain ⟨t, ht⟩ := addPeerEntry_eq ctx g e
  have htopo := @addPeerEntry_topo ctx g e
  rw [hsp, hhost] at htopo
  have hfit : R.Fits (sizeT e.peer.procInfo.groupRank) (g.peerEntry e) := by
    refine ⟨?_, hhost, hm.cast_rank R.alloc⟩
    rw [GroupCache.peerEntry, h.blank _ hset, List.nil_append]
    exact hsp
  refine h.put hl hs (hm.rank_lt R.alloc) hset (e := g.peerEntry e) rfl hfit (u := g.groupUid) ?_
  unfold PeerCacheEntry.rank at htopo
  rw [← htopo, ht]
  rfl

/-- The entry of a rank that joins. -/
theorem fits_localEntry {i : RankInfo} (hj : R.Joins ctx.globalId i) (c : ℕ) :
    R.Fits (sizeT i.groupRank) (localEntry ctx c i) :=
  ⟨hj.sps.symm, hj.host, hj.member.cast_rank R.alloc⟩

/-- A local rank is added. -/
theorem addGroupRank (h : Seated ctx.hosts R once g) (hl : g.Live) (hs : g.groupSize = R.size) {p : PendingGroupAdd}
    (hp : (R.msgs ctx.globalId ctx.hostUid).add p) (hset : g.isSet (sizeT p.data.rankInfo.groupRank) = false) :
    Seated ctx.hosts R once (g.addGroupRank ctx p.clientId p.data) := by
  obtain ⟨hj, hhost⟩ := hp
  obtain ⟨t, k, sp, ht, -⟩ := addGroupRank_eq ctx g p.clientId p.data
  have htopo := @addGroupRank_topo ctx g p.clientId p.data
  refine h.put hl hs hj.rank_lt hset (e := localEntry ctx p.clientId p.data.rankInfo) rfl (fits_localEntry hj _)
    (u := g.groupUid) ?_
  rw [hj.sps, ← hj.host, hhost, List.foldl_cons, List.foldl_nil, ← htopo, ht]
  rfl

/-- What `host_add_local_rank_to_cache` leaves of a group. -/
structure HostAdded (cfg : HostsConfig) (R : Roster) (once : Prop) (r : ℕ) (g : GroupCache) : Prop where
  /-- The rank is added. -/
  seated : Seated cfg R once g
  /-- The group is in use. -/
  live : g.Live
  /-- Its size is known. -/
  size : g.groupSize = R.size
  /-- The rank is set. -/
  isSet : g.isSet r = true
  /-- The tables are not filled. -/
  unfilled : g.topo.lookupTablesPopulated = false

/-- `host_add_local_rank_to_cache`, for a rank that is not set. -/
theorem hostAdd (hid : ctx.globalId ≠ UINT64_MAX) (h : Seated ctx.hosts R once g) (hl : g.Live) {info : RankInfo}
    (hj : R.Joins ctx.globalId info) (hset : g.isSet (sizeT info.groupRank) = false) :
    HostAdded ctx.hosts R once (sizeT info.groupRank) (hostAddLocalRankToCache ctx (some g) info) := by
  have h₁ := h.learn hl
  have hl₁ : (g.learnGroupSize ctx.hosts R.size).Live := by
    rw [GroupCache.Live, learnGroupSize_groupUid]
    exact hl
  have hs₁ := h₁.toStocked.groupSize_of_learnt R.alloc hl₁ (learnt_learnGroupSize g rfl)
  have hset₁ : (g.learnGroupSize ctx.hosts R.size).isSet (sizeT info.groupRank) = false := by
    rw [isSet_congr (learnGroupSize_ranks g ctx.hosts R.size)]
    exact hset
  have hentry : getGroupRankCacheEntry ctx.hosts ctx.gpUid (some g) info.groupSize = g.learnGroupSize ctx.hosts R.size := by
    rw [getGroupRankCacheEntry, getGroupCacheInternal_of_live hl, hj.member.groupSize]
  have hunfilled : (g.learnGroupSize ctx.hosts R.size).topo.lookupTablesPopulated = false := by
    cases hp : (g.learnGroupSize ctx.hosts R.size).topo.lookupTablesPopulated with
    | false => rfl
    | true =>
      rw [(h₁.isSet_of_complete (h₁.filled hp).2.1 _).2 hj.rank_lt] at hset₁
      cases hset₁
  have heq := hostAddLocalRankToCache_eq ctx (some g) info hentry
  rw [if_pos hid] at heq
  generalize g.learnGroupSize ctx.hosts R.size = g₁ at *
  have hfit : R.Fits (sizeT info.groupRank) (g₁.hostEntry ctx info) := by
    refine ⟨?_, hj.host, hj.member.cast_rank R.alloc⟩
    simp only [GroupCache.hostEntry, h₁.blank _ hset₁, hj.sps, List.nil_append]
  have hlen : sizeT info.groupRank < g₁.entries.length := by
    obtain ⟨-, l, hlr, hlen⟩ := h₁.live hl₁
    rw [GroupCache.entries, hlr]
    exact hlen ▸ hj.rank_lt
  constructor
  · rw [heq]
    refine h₁.put hl₁ hs₁ hj.rank_lt hset₁ (e := g₁.hostEntry ctx info) rfl hfit (u := g₁.groupUid) ?_
    rw [hj.sps, ← hj.host]
    rfl
  · rw [heq]
    exact hl₁
  · rw [heq]
    exact hs₁
  · rw [GroupCache.isSet, entryAt_map_set hlen (by rw [heq]), if_pos rfl]
    rfl
  · rw [heq]
    have := updates_populated ctx.hosts g₁.groupUid g₁.groupSize (sizeT info.groupRank) info.hostInfo [ctx.globalId] g₁.topo
    exact this.trans hunfilled

/-- On a host a rank joins. -/
theorem hostJoin (hu : ctx.gpUid ≠ INT_MAX) (hid : ctx.globalId ≠ UINT64_MAX) {s : GpState}
    (h : Seated ctx.hosts R once s.gp) {m : GroupAddMsg} (hm : R.Joins ctx.globalId m.rankInfo) :
    Seated ctx.hosts R once (doSendAddGroupRankRequest ctx s m).gp := by
  have hl₀ := live_lookup hu s.gp R.size
  have h₀ := h.lookup hu
  simp only [doSendAddGroupRankRequest, hm.member.groupSize]
  generalize getGroupCacheInternal ctx.gpUid (some s.gp) R.size = g₀ at hl₀ h₀
  have h₁ : Seated ctx.hosts R once g₀.switchVersion := by
    unfold GroupCache.switchVersion
    split
    · exact h₀.of_frame rfl
    · exact h₀
  have hl₁ : g₀.switchVersion.Live := by
    rw [GroupCache.Live, switchVersion_groupUid]
    exact hl₀
  have h₂ := h₁.learn hl₁
  have hl₂ : (g₀.switchVersion.learnGroupSize ctx.hosts R.size).Live := by
    rw [GroupCache.Live, learnGroupSize_groupUid]
    exact hl₁
  generalize g₀.switchVersion.learnGroupSize ctx.hosts R.size = g₂ at hl₂ h₂
  split
  · exact h₂
  · rename_i hset
    refine HostAdded.seated (h₂.hostAdd hid hl₂ ⟨⟨rfl, ?_, ?_⟩, ?_, ?_⟩ (Bool.not_eq_true _ ▸ hset))
    · exact hm.member.nonneg
    · exact hm.member.lt
    · exact hm.sps
    · exact hm.host

/-- `add_cache_entry_for_new_client`, for a rank whose entry is not set. -/
theorem newClient (hu : ctx.gpUid ≠ INT_MAX) (h : Seated ctx.hosts R once g) {c : ℕ} {info : RankInfo}
    (hj : R.Joins ctx.globalId info) (hhost : info.hostInfo = ctx.hostUid)
    (hset : g.isSet (sizeT info.groupRank) = false) :
    Seated ctx.hosts R once (addCacheEntryForNewClient ctx (some g) c info) ∧
      (addCacheEntryForNewClient ctx (some g) c info).Live ∧
      0 < (addCacheEntryForNewClient ctx (some g) c info).groupSize := by
  obtain ⟨p, g₀, g₁, h₀, h₁, hp⟩ := addCacheEntryForNewClient_put ctx g c info
  obtain ⟨hl₀, hl, hno⟩ := newClient_ready hu hset h₀
  rw [← h₁] at hl hno
  rw [hj.member.groupSize] at h₀ h₁
  have hlook : Seated ctx.hosts R once g₀ := by
    rw [h₀]
    exact (h.lookup hu).of_frame rfl
  have hc : Seated ctx.hosts R once g₁ := by
    rw [h₁]
    exact hlook.learn hl₀
  have hL : g₁.Learnt ctx.hosts (· = (R.size : ℤ)) := by
    rw [h₁]
    exact learnt_learnGroupSize g₀ rfl
  have hs := hc.toStocked.groupSize_of_learnt R.alloc hl hL
  have hr := hj.rank_lt
  have hpos : 0 < g₁.groupSize := by omega
  rw [hp]
  refine ⟨hc.put hl hs hr hno (e := localEntry ctx c info) rfl (fits_localEntry hj c) (u := g₁.groupUid) ?_, hl, hpos⟩
  rw [hj.sps, ← hj.host, hhost]
  rfl

/-- **A rank connects whose entry is not set.** -/
theorem connect (hu : ctx.gpUid ≠ INT_MAX) {slot : Option GroupCache}
    (h : Seated ctx.hosts R once (slot.getD newGroupCache)) {c : ℕ} {info : RankInfo} (hj : R.Joins ctx.globalId info)
    (hhost : info.hostInfo = ctx.hostUid) (hset : (slot.getD newGroupCache).isSet (sizeT info.groupRank) = false) :
    Seated ctx.hosts R once ((finalizeClientConnection ctx slot c info).1.getD newGroupCache) := by
  unfold finalizeClientConnection
  split
  · rename_i hno
    have hmax : info.groupUid = INT_MAX := by
      refine hno.resolve_right fun hr => ?_
      have := hj.member.nonneg
      rw [hr] at this
      exact absurd this (by decide)
    rw [localRankConnectDefaultCallback, if_pos hmax]
    exact h
  · rename_i hno
    rw [addCacheEntryForNewClient_getD]
    obtain ⟨hnew, hl, hpos⟩ := h.newClient (c := c) hu hj hhost hset
    generalize addCacheEntryForNewClient ctx (some (slot.getD newGroupCache)) c info = g₁ at hnew hl hpos
    have hex := @Seated.exchange _ _ _ ctx ⟨g₁, []⟩ hnew hl hpos (sizeT info.nLocalRanks)
    -- the exchange touches the topology only
    obtain ⟨t, ht⟩ := @groupCacheExchange_gp ctx ⟨g₁, []⟩ (sizeT info.nLocalRanks)
    rw [ht] at hex
    have hl' : { g₁ with topo := t }.Live := hl
    simp only [localRankConnectDefaultCallback, if_neg fun hm => hno (.inl hm), ht]
    rw [getGroupCacheInternal_of_live hl']
    split
    · rename_i hf
      exact Seated.send (s := ⟨_, _⟩) hex hl' hpos hf
    · exact hex

/-- **The bootstrapping of a host ends**: its rank is added, and recorded once more. -/
theorem bootstrapDone (hu : ctx.gpUid ≠ INT_MAX) (hid : ctx.globalId ≠ UINT64_MAX) (hhost : ctx.onDpu = false)
    {slot : Option GroupCache} (h : Seated ctx.hosts R False (slot.getD newGroupCache)) {info : RankInfo}
    (hj : R.Joins ctx.globalId info) (hset : (slot.getD newGroupCache).isSet (sizeT info.groupRank) = false) :
    Seated ctx.hosts R False ((progressClientEcontextDone ctx slot info).getD newGroupCache) := by
  unfold progressClientEcontextDone
  split
  · exact h
  · have hslot : getGroupCacheInternal ctx.gpUid slot info.groupSize =
        getGroupCacheInternal ctx.gpUid (some (slot.getD newGroupCache)) R.size := by
      rw [hj.member.groupSize]
      cases slot <;> rfl
    have hset₀ := isSet_getGroupCacheInternal hset ctx.gpUid R.size
    have h₀ := h.lookup hu
    have hl₀ := live_lookup hu (slot.getD newGroupCache) R.size
    rw [hslot]
    generalize getGroupCacheInternal ctx.gpUid (some (slot.getD newGroupCache)) R.size = g₀ at hset₀ h₀ hl₀
    obtain ⟨hadd, hl, hs, hr, hp⟩ := h₀.hostAdd hid hl₀ hj hset₀
    simp only [hhost, Bool.false_eq_true, if_false, Option.getD_some]
    refine hadd.again hr hl hs hp (u := (hostAddLocalRankToCache ctx (some g₀) info).groupUid) ?_
    rw [hj.sps, ← hj.host]
    rfl

end Seated

/-! ### Callbacks -/

/-- What the callbacks keep about a group that is laid out as `R`. -/
structure Enlisted (cfg : HostsConfig) (gid hostUid : ℕ) (R : Roster) (once : Prop) (w : Work) : Prop where
  /-- What is put aside announces the size of the group. -/
  sized : w.gp.Sized (· = (R.size : ℤ))
  /-- The messages are as they should be. -/
  carries : Carries (R.msgs gid hostUid) w
  /-- The requests too. -/
  requests : Requests (fun m => R.Joins gid m.rankInfo) w
  /-- The entries and the topology of the group. -/
  seated : Seated cfg R once w.gp
  /-- An exchange follows an addition. -/
  due : w.due = true → w.gp.Live ∧ 0 < w.gp.groupSize

/-- **No action of a callback leaves the roster.** -/
theorem Enlisted.seated_act (hu : ctx.gpUid ≠ INT_MAX) (hid : ctx.globalId ≠ UINT64_MAX)
    (h : Enlisted ctx.hosts ctx.globalId ctx.hostUid R once w) (ha : Act ctx (· = (R.size : ℤ)) T w w') :
    Seated ctx.hosts R once w'.gp := by
  have hc := h.seated
  cases ha with
  | init size hs hl =>
    subst hs
    exact Seated.init w.gp hu
  | learn size hs hl =>
    subst hs
    exact hc.learn hl
  | addEntry he hl hL h0 hset =>
    exact hc.addPeerEntry hl (hc.toStocked.groupSize_of_learnt R.alloc hl hL) (h.carries.ents _ (mem_of_eq_cons he)) hset
  | addLocal ha hl hL h0 hset =>
    exact hc.addGroupRank hl (hc.toStocked.groupSize_of_learnt R.alloc hl hL) (h.carries.adds _ (mem_of_eq_cons ha)) hset
  | sendCache hl hpos hf => exact hc.send hl hpos hf
  | exchange hdue hl => exact hc.exchange hl (h.due hdue).2 _
  | markLocal hr hl hn' => exact hc.of_frame (by simp only [tellRankRevoke_gp]; rfl)
  | accept hr hl hdl hT' =>
    have hm : _ = R.size := h.carries.revs _ (mem_of_eq_cons hr)
    unfold GroupCache.learnFromRevoke
    split
    · rename_i h0
      refine hc.known h0 (.inl rfl) hl ?_
      simp only [GroupCache.frame, hm]
    · exact hc
  | reset hf he hdue => exact Seated.reset _ _
  | hostAdd hd hr => exact hc.hostJoin hu hid (h.requests.reqs _ (mem_of_eq_cons hr))
  | _ => exact hc.of_frame rfl

theorem Enlisted.act (hu : ctx.gpUid ≠ INT_MAX) (hid : ctx.globalId ≠ UINT64_MAX)
    (h : Enlisted ctx.hosts ctx.globalId ctx.hostUid R once w) (ha : Act ctx (· = (R.size : ℤ)) T w w') :
    Enlisted ctx.hosts ctx.globalId ctx.hostUid R once w' :=
  ⟨h.sized.act ha, h.carries.act ha, h.requests.act ha, h.seated_act hu hid ha,
    due_of_act R.alloc h.seated.toStocked h.due (fun p hp => (h.carries.adds p hp).1.member) ha⟩

/-- What an event brings. -/
def Roster.EventOk (R : Roster) (gid hostUid : ℕ) : Event → Prop
  | .requestAdd m => R.Joins gid m.rankInfo
  | .requestRevoke info => info.groupSize = R.size
  | ev => (R.msgs gid hostUid).Ok ev

theorem Roster.msgs_le (R : Roster) (gid hostUid : ℕ) : (R.msgs gid hostUid).Le (sizeMsgs R.size) :=
  ⟨fun _ he => he.1.groupSize, fun _ hp => hp.1.member.groupSize, fun _ hi => hi, fun _ hm => hm⟩

theorem Roster.EventOk.sizes {ev : Event} (h : R.EventOk gid hostUid ev) : ev.Sizes (· = (R.size : ℤ)) := by
  cases ev with
  | requestAdd m => exact h.member.groupSize
  | requestRevoke i => exact h
  | _ => exact MsgSpec.Ok.sizes (R.msgs_le gid hostUid) h

/-- A callback starts with the event's message in hand. -/
theorem Enlisted.enter {log : List Effect} (h : Enlisted cfg gid hostUid R once (Work.start ⟨g, log⟩)) {ev : Event}
    (hok : R.EventOk gid hostUid ev) (c : GpCtx) : Enlisted cfg gid hostUid R once (ev.enter c ⟨g, log⟩) := by
  have hno : ∀ {P : Prop}, false = true → P := fun h => absurd h Bool.false_ne_true
  have hc : (R.msgs gid hostUid).Ok ev → Carries (R.msgs gid hostUid) (ev.enter c ⟨g, log⟩) :=
    fun hok => h.carries.enter hok c
  cases ev with
  | addGroupRank _ _ | peerCacheEntries _ _ | revokeFromRank _ | revokeSent =>
    exact ⟨h.sized, hc hok, ⟨h.requests.1, h.requests.2⟩, h.seated, hno⟩
  | revokeFromSp m =>
    replace hc := hc hok
    simp only [Event.enter] at hc ⊢
    split
    · rename_i hd
      rw [if_pos hd] at hc
      exact ⟨h.sized, hc, ⟨h.requests.1, h.requests.2⟩, h.seated, hno⟩
    · exact ⟨h.sized, { h.carries with }, ⟨h.requests.1, h.requests.2⟩, h.seated, hno⟩
  | cacheSent | requestRevoke i => exact h
  | requestAdd m =>
    refine ⟨h.sized, { h.carries with }, ⟨fun m' hm => ?_, h.requests.2⟩, h.seated, hno⟩
    rw [List.mem_singleton.1 hm]
    exact hok

/-- An event of the group. -/
theorem Enlisted.event (hu : ctx.gpUid ≠ INT_MAX) (hid : ctx.globalId ≠ UINT64_MAX) {e e' : Engine} {ev : Event}
    (h : Enlisted ctx.hosts ctx.globalId ctx.hostUid R once e.work)
    (hok : R.EventOk ctx.globalId ctx.hostUid ev) (hs : e.step ctx ev = some e') :
    Enlisted ctx.hosts ctx.globalId ctx.hostUid R once e'.work := by
  rcases @Engine.step_acts ctx (· = (R.size : ℤ)) (fun _ => True) hu e e' ev hs h.sized hok.sizes
    (ev.applies_true _) with ⟨-, hgp, hlog⟩ | hw
  · rw [Engine.work, hgp, hlog]
    exact h
  · exact keeps (J := Enlisted ctx.hosts ctx.globalId ctx.hostUid R once) (fun _ _ hJ ha => hJ.act hu hid ha) hw
      (h.enter hok ctx)

/-- A group cache with the same queues. -/
theorem Enlisted.of_queues {e e' : Engine} (h : Enlisted cfg gid hostUid R once e.work) (hc : Seated cfg R once e'.gp)
    (hq : e'.gp.queues = e.gp.queues) : Enlisted cfg gid hostUid R once e'.work := by
  refine ⟨h.sized.of_queues hq, h.carries.of_queues hq, ⟨h.requests.reqs, ?_⟩, hc, fun hd => absurd hd Bool.false_ne_true⟩
  change ∀ p ∈ e'.gp.queues.pendingSendGroupAddMsgs, _
  rw [hq]
  exact h.requests.pending

/-- `revoke_group_cache`. -/
theorem Enlisted.revoke (hu : ctx.gpUid ≠ INT_MAX) (hid : ctx.globalId ≠ UINT64_MAX)
    {e e' : Engine} (h : Enlisted ctx.hosts ctx.globalId ctx.hostUid R once e.work)
    (hgp : e'.gp = (revokeGroupCache ctx ⟨e.gp, []⟩).gp) :
    Enlisted ctx.hosts ctx.globalId ctx.hostUid R once e'.work := by
  obtain ⟨ha, -⟩ := @revokeGroupCache_acts ctx (· = (R.size : ℤ)) (fun _ => True) hu
    { Work.start ⟨e.gp, []⟩ with final := true } rfl rfl rfl h.sized.parked
  have hw : Enlisted ctx.hosts ctx.globalId ctx.hostUid R once { Work.start ⟨e.gp, []⟩ with final := true } :=
    ⟨h.sized, { h.carries with }, ⟨h.requests.1, h.requests.2⟩, h.seated, fun hd => absurd hd Bool.false_ne_true⟩
  have hr := keeps (J := Enlisted ctx.hosts ctx.globalId ctx.hostUid R once) (fun _ _ hJ ha => hJ.act hu hid ha) ha hw
  have hwork : e'.work = Work.start ⟨(revokeGroupCache ctx ⟨e.gp, []⟩).gp, e'.log⟩ := by rw [Engine.work, hgp]
  rw [hwork]
  exact ⟨hr.sized, { hr.carries with }, ⟨h.requests.1, hr.requests.2⟩, hr.seated, fun hd => absurd hd Bool.false_ne_true⟩

/-! ### Runs -/

/-- Operations about a group laid out as `R`. -/
def Roster.OpOk (R : Roster) (sys : GpCtx) (l : GpCtx × TopoOp) : Prop :=
  l.1.Like sys ∧ match l.2 with
    | .event ev => R.EventOk sys.globalId sys.hostUid ev
    | .connect _ info => R.Joins sys.globalId info ∧ info.hostInfo = sys.hostUid
    | .bootstrapDone info => R.Joins sys.globalId info
    | .getter | .revoke => True

/-- A getter fills the tables of a complete group only; a rank that connects, or whose bootstrapping
ends, is not in the cache; and no bootstrapping ends when each rank is to be recorded once. -/
def TopoOp.Settled (once : Prop) (e : Engine) : TopoOp → Prop
  | .getter => e.gp.topo.lookupTablesPopulated = true ∨ 0 < e.gp.groupSize ∧ e.gp.full = true
  | .connect _ info => e.gp.isSet (sizeT info.groupRank) = false
  | .bootstrapDone info => ¬ once ∧ e.gp.isSet (sizeT info.groupRank) = false
  | .event _ | .revoke => True

/-- A run of the group on its roster. -/
def Roster.Runs (R : Roster) (sys : GpCtx) (once : Prop) : Engine → Prop :=
  Reach TopoOp.step (fun e l => R.OpOk sys l ∧ l.2.Settled once e) Engine.init

/-- The end of a bootstrapping leaves what is put aside alone. -/
theorem progressClientEcontextDone_queues (slot : Option GroupCache) (info : RankInfo) :
    ((progressClientEcontextDone ctx slot info).getD newGroupCache).queues = (slot.getD newGroupCache).queues := by
  have hq : (getGroupCacheInternal ctx.gpUid slot info.groupSize).queues = (slot.getD newGroupCache).queues := by
    rw [getGroupCacheInternal_getD, getGroupCacheInternal_queues]
  simp only [progressClientEcontextDone]
  split
  · rfl
  · rw [Option.getD_some, ← hq]
    split
    · rfl
    · exact hostAddLocalRankToCache_queues _ info

/-- A complete group is in use. -/
theorem Seated.live_of_complete (h : Seated cfg R once g) (hpos : 0 < R.size) (hn : g.numLocalEntries = R.size) :
    g.Live := by
  intro hd
  have hset := (h.isSet_of_complete hn 0).2 hpos
  rw [isSet_of_ranks_none (h.dead (not_not.2 hd))] at hset
  cases hset

theorem Enlisted.step {sys : GpCtx} (hu : sys.gpUid ≠ INT_MAX) (hid : sys.globalId ≠ UINT64_MAX)
    {e e' : Engine} {l : GpCtx × TopoOp} (h : Enlisted sys.hosts sys.globalId sys.hostUid R once e.work)
    (hok : R.OpOk sys l) (ht : l.2.Settled once e) (hs : TopoOp.step e l = some e') :
    Enlisted sys.hosts sys.globalId sys.hostUid R once e'.work := by
  obtain ⟨ctx, op⟩ := l
  obtain ⟨⟨h₁, -, h₃, h₄, h₅⟩, hop⟩ := hok
  dsimp only at h₁ h₃ h₄ h₅ hop ht
  rw [← h₁] at hu
  rw [← h₃] at hid
  rw [← h₃, ← h₄, ← h₅] at h
  rw [← h₃, ← h₄] at hop
  rw [← h₃, ← h₄, ← h₅]
  cases op with
  | event ev => exact h.event hu hid hop hs
  | connect c info =>
    simp only [TopoOp.step] at hs
    split at hs
    · cases hs
      exact h.of_queues (h.seated.connect hu (c := c) hop.1 hop.2 ht) (finalizeClientConnection_queues _ _ _)
    · cases hs
  | bootstrapDone info =>
    simp only [TopoOp.step] at hs
    split at hs
    · cases hs
    · rename_i hhost
      cases hs
      obtain ⟨honce, hset⟩ := ht
      have hfalse : once = False := eq_false honce
      subst hfalse
      refine h.of_queues (h.seated.bootstrapDone hu hid (Bool.not_eq_true _ ▸ hhost) hop hset) ?_
      exact progressClientEcontextDone_queues _ _
  | getter =>
    cases hs
    -- a group that is complete, or whose tables are filled, is in use
    have hc : Seated ctx.hosts R once e.gp := h.seated
    have hgood : 0 < R.size ∧ e.gp.numLocalEntries = R.size := by
      rcases ht with hp | ⟨hpos, hf⟩
      · exact ⟨(hc.filled hp).1, (hc.filled hp).2.1⟩
      · exact hc.complete hpos hf
    have hl := hc.live_of_complete hgood.1 hgood.2
    have hsame : getGroupCache ctx.gpUid e.slot = e.gp := by
      rw [getGroupCache, getGroupCacheInternal_getD]
      exact getGroupCacheInternal_of_live hl 0
    apply h.of_queues
    · refine hc.populate hl hgood.1 hgood.2 ?_
      simp only [Engine.gp, Option.getD_some, topologyGetter, hsame]
      rfl
    · simp only [Engine.gp, Option.getD_some, topologyGetter, hsame]
      rfl
  | revoke =>
    cases hs
    exact h.revoke hu hid rfl

/-- **Every state of every run is seated.** -/
theorem seated_of_reach {sys : GpCtx} (hu : sys.gpUid ≠ INT_MAX) (hid : sys.globalId ≠ UINT64_MAX) {e : Engine}
    (h : R.Runs sys once e) : Seated sys.hosts R once e.gp := by
  have hlist : Enlisted sys.hosts sys.globalId sys.hostUid R once e.work := by
    refine h.invariant (I := fun e => Enlisted sys.hosts sys.globalId sys.hostUid R once e.work) ?_ ?_
    · have hnil : ∀ {α : Type} {P : α → Prop}, ∀ a ∈ ([] : List α), P a := fun a ha => (List.not_mem_nil ha).elim
      exact ⟨GroupCache.Sized.new, Carries.new _ [], ⟨hnil, hnil⟩, Seated.new, fun hd => absurd hd Bool.false_ne_true⟩
    · rintro e l e' hI ⟨hok, ht⟩ hs
      exact hI.step hu hid hok ht hs
  exact hlist.seated

instance Roster.decidableJoins (R : Roster) (gid : ℕ) (i : RankInfo) : Decidable (R.Joins gid i) :=
  decidable_of_iff (Member R.size i ∧ R.sps (sizeT i.groupRank) = [gid] ∧ i.hostInfo = R.host (sizeT i.groupRank))
    ⟨fun h => ⟨h.1, h.2.1, h.2.2⟩, fun h => ⟨h.1, h.2, h.3⟩⟩

instance Roster.decidableEventOk (R : Roster) (gid hostUid : ℕ) : (ev : Event) → Decidable (R.EventOk gid hostUid ev)
  | .addGroupRank _ m => inferInstanceAs (Decidable (R.Joins gid m.rankInfo ∧ m.rankInfo.hostInfo = hostUid))
  | .peerCacheEntries _ batch => inferInstanceAs (Decidable (batch ≠ [] ∧ ∀ e ∈ batch,
      Member R.size e.peer.procInfo ∧ e.shadowServiceProcs = R.sps e.rank ∧ e.peer.hostInfo = R.host e.rank))
  | .revokeFromRank i | .requestRevoke i => inferInstanceAs (Decidable (i.groupSize = R.size))
  | .revokeFromSp m => inferInstanceAs (Decidable (m.groupSize = R.size))
  | .cacheSent | .revokeSent => inferInstanceAs (Decidable True)
  | .requestAdd m => inferInstanceAs (Decidable (R.Joins gid m.rankInfo))

instance Roster.decidableOpOk (R : Roster) (sys : GpCtx) : (l : GpCtx × TopoOp) → Decidable (R.OpOk sys l)
  | (ctx, .event ev) => inferInstanceAs (Decidable (ctx.Like sys ∧ R.EventOk sys.globalId sys.hostUid ev))
  | (ctx, .connect _ info) => inferInstanceAs
      (Decidable (ctx.Like sys ∧ R.Joins sys.globalId info ∧ info.hostInfo = sys.hostUid))
  | (ctx, .bootstrapDone info) => inferInstanceAs (Decidable (ctx.Like sys ∧ R.Joins sys.globalId info))
  | (ctx, .getter) | (ctx, .revoke) => inferInstanceAs (Decidable (ctx.Like sys ∧ True))

instance TopoOp.decidableSettled (once : Prop) [Decidable once] (e : Engine) : (op : TopoOp) → Decidable (op.Settled once e)
  | .getter => inferInstanceAs (Decidable (_ = true ∨ 0 < _ ∧ _ = true))
  | .connect _ info => inferInstanceAs (Decidable (e.gp.isSet (sizeT info.groupRank) = false))
  | .bootstrapDone info => inferInstanceAs (Decidable (¬ once ∧ e.gp.isSet (sizeT info.groupRank) = false))
  | .event _ | .revoke => inferInstanceAs (Decidable True)

end DpuOffload
