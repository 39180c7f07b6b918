import DpuOffload.Lib.Transition
import DpuOffload.Protocol.Engine

/-!
# What a callback can do

Every callback about a group is a sequence of the same few actions: a lookup, one
entry added, one message put aside or taken up, one message of an SP applied, the
final revoke posted, the group reset. `Act` lists them with their guards. A callback
in the middle of running is a `Work`: the group cache, what has been emitted, and the
messages it has in hand; a message in hand is used once.

`handle_acts` says once that every callback is such a sequence, so that an invariant
of the protocol has only to be checked against the actions.

Two parameters say what is known about the messages: `Sz` holds of the group sizes
they carry, and `T` of the counters of the group whenever a message of an SP is
applied.
-/

namespace DpuOffload

open Relation

/-- The counters that decide about messages of SPs. -/
structure Tally where
  /-- `group_size`. -/
  groupSize : ℕ
  /-- `num_local_entries`. -/
  numLocalEntries : ℕ
  /-- `sp_ranks`. -/
  spRanks : ℕ
  /-- `revokes.local`. -/
  revokesLocal : ℕ

/-- The counters of a group cache. -/
def GroupCache.tally (g : GroupCache) : Tally := ⟨g.groupSize, g.numLocalEntries, g.spRanks, g.revokesLocal⟩

/-- A group in use: not reset, nor just handed out by the pool. -/
def GroupCache.Live (g : GroupCache) : Prop := g.groupUid ≠ INT_MAX

/-- What is persistent about a group, but for its version. -/
def GroupCache.queues (g : GroupCache) : Persistent := { g.persistent with num := 0 }

/-- The batches put aside. -/
def GroupCache.parked (g : GroupCache) : List PendingRecvCacheEntry := g.queues.pendingRecvCacheEntries

/-- The group has learnt its size, as far as the sizes `Sz` tell. -/
def GroupCache.Learnt (cfg : HostsConfig) (Sz : ℤ → Prop) (g : GroupCache) : Prop :=
  ∃ size, Sz size ∧ g.learnGroupSize cfg size = g

theorem learnt_learnGroupSize {cfg : HostsConfig} {Sz : ℤ → Prop} (g : GroupCache) {size : ℤ} (hs : Sz size) :
    (g.learnGroupSize cfg size).Learnt cfg Sz := by
  refine ⟨size, hs, ?_⟩
  by_cases h : g.initialized ∧ g.groupSize = 0 ∧ 0 ≤ size
  · by_cases h0 : sizeT size = 0
    · simp [GroupCache.learnGroupSize, h, h0, bitsetCreate]
    · rw [learnGroupSize_of_known]
      simpa [GroupCache.learnGroupSize, h] using h0
  · simp [GroupCache.learnGroupSize, h]

/-- A callback in the middle of running. -/
structure Work extends GpState where
  /-- A batch of entries just received. -/
  batch : List PeerCacheEntry
  /-- Entries being handled. -/
  ents : List PeerCacheEntry
  /-- Add messages in hand. -/
  adds : List PendingGroupAdd
  /-- Revokes of local ranks in hand. -/
  rankRevs : List RankInfo
  /-- Revoke messages of SPs just received. -/
  revs : List GroupRevokeMsgFromSp
  /-- Revoke messages of SPs being applied. -/
  taken : List GroupRevokeMsgFromSp
  /-- On a host, requests to join in hand. -/
  reqs : List GroupAddMsg
  /-- Is the exchange that follows an addition still to come? -/
  due : Bool
  /-- Is the reset that follows the final revoke still to come? -/
  final : Bool

/-- A callback with nothing in hand. -/
def Work.start (s : GpState) : Work where
  toGpState := s
  batch := []
  ents := []
  adds := []
  rankRevs := []
  revs := []
  taken := []
  reqs := []
  due := false
  final := false

/-- The callback of an event as it starts, on a group cache. -/
def Event.enter (ctx : GpCtx) (s : GpState) : Event → Work
  | .addGroupRank c m => { Work.start s with adds := [⟨c, m⟩] }
  | .peerCacheEntries _ batch => { Work.start s with batch := batch }
  | .revokeFromRank info => { Work.start s with rankRevs := [info] }
  | .revokeFromSp m => if ctx.onDpu then { Work.start s with revs := [m] } else { Work.start s with final := true }
  | .cacheSent => Work.start s
  | .revokeSent => { Work.start s with final := true }
  | .requestAdd m => { Work.start s with reqs := [m] }
  | .requestRevoke _ => Work.start s

/-- A local rank is marked; when it is the last one the other SPs are told. -/
def tellRankRevoke (ctx : GpCtx) (s : GpState) (info : RankInfo) : GpState :=
  let rank := sizeT info.groupRank
  let s : GpState :=
    ⟨s.gp.markLocalRank rank, s.out ++ [.markedFromRank rank info.groupSeqNum s.gp.persistent.num]⟩
  if s.gp.revokesLocal = s.gp.spRanks then broadcastGroupCacheRevoke ctx s else s

/-- **The actions of the callbacks.** -/
inductive Act (ctx : GpCtx) (Sz : ℤ → Prop) (T : Tally → Prop) : Work → Work → Prop
  /-- A lookup initialises a group that was reset. -/
  | init {w : Work} (size : ℤ) : Sz size → ¬ w.gp.Live →
      Act ctx Sz T w { w with gp := { initGroupCache w.gp (sizeT size) with groupUid := ctx.gpUid } }
  /-- The group learns its size. -/
  | learn {w : Work} (size : ℤ) : Sz size → w.gp.Live →
      Act ctx Sz T w { w with gp := w.gp.learnGroupSize ctx.hosts size }
  /-- An entry is in the cache already. -/
  | skipEntry {w : Work} {e : PeerCacheEntry} {es : List PeerCacheEntry} : w.ents = e :: es → w.gp.Live →
      w.gp.isSet (sizeT e.peer.procInfo.groupRank) = true → Act ctx Sz T w { w with ents := es }
  /-- An entry is added. -/
  | addEntry {w : Work} {e : PeerCacheEntry} {es : List PeerCacheEntry} : w.ents = e :: es → w.gp.Live →
      w.gp.Learnt ctx.hosts Sz → w.gp.revokesGlobal = 0 → w.gp.isSet (sizeT e.peer.procInfo.groupRank) = false →
        Act ctx Sz T w { w with gp := w.gp.addPeerEntry ctx e, ents := es }
  /-- A batch is put aside. -/
  | parkEntries {w : Work} (spGid : ℕ) : Sz (batchGroupSize w.batch) → w.gp.Live →
      (0 < w.gp.revokesGlobal ∨ isGroupReady w.gp (batchSeqNum w.batch) = false) →
        Act ctx Sz T w { w with
          gp := { w.gp with persistent := { w.gp.persistent with
            pendingRecvCacheEntries := w.gp.persistent.pendingRecvCacheEntries ++ [⟨spGid, w.batch⟩] } }
          batch := [] }
  /-- A batch is handled. -/
  | takeBatch {w : Work} : w.gp.Live → w.ents = [] → w.gp.revokesGlobal = 0 →
      isGroupReady w.gp (batchSeqNum w.batch) = true → Act ctx Sz T w { w with batch := [], ents := w.batch }
  /-- The batches put aside are taken up. -/
  | unpark {w : Work} : w.ents = [] → w.gp.revokesGlobal = 0 →
      Act ctx Sz T w { w with
        gp := { w.gp with persistent := { w.gp.persistent with pendingRecvCacheEntries := [] } }
        ents := w.gp.parked.flatMap (·.payload) }
  /-- The cache is sent to the local ranks. -/
  | sendCache {w : Work} : w.gp.Live → 0 < w.gp.groupSize → w.gp.full = true →
      Act ctx Sz T w { w with toGpState := sendGpCacheToHost w.toGpState }
  /-- An add message is put aside. -/
  | parkAdd {w : Work} {p : PendingGroupAdd} {ps : List PendingGroupAdd} : Sz p.data.rankInfo.groupSize →
      w.adds = p :: ps → w.gp.Live → 0 < w.gp.revokesGlobal →
        Act ctx Sz T w { w with
          gp := { w.gp with persistent := { w.gp.persistent with
            pendingGroupAddMsgs := w.gp.persistent.pendingGroupAddMsgs ++ [p] } }
          adds := ps }
  /-- The add messages put aside are taken up. -/
  | takeAdds {w : Work} : w.adds = [] →
      Act ctx Sz T w { w with
        gp := { w.gp with persistent := { w.gp.persistent with pendingGroupAddMsgs := [] } }
        adds := w.gp.persistent.pendingGroupAddMsgs }
  /-- A rank that is added is in the cache already. -/
  | skipAdd {w : Work} {p : PendingGroupAdd} {ps : List PendingGroupAdd} : w.adds = p :: ps → w.gp.Live →
      w.gp.Learnt ctx.hosts Sz → w.gp.revokesGlobal = 0 → w.gp.isSet (sizeT p.data.rankInfo.groupRank) = true →
        Act ctx Sz T w { w with adds := ps, due := true }
  /-- A local rank is added. -/
  | addLocal {w : Work} {p : PendingGroupAdd} {ps : List PendingGroupAdd} : w.adds = p :: ps → w.gp.Live →
      w.gp.Learnt ctx.hosts Sz → w.gp.revokesGlobal = 0 → w.gp.isSet (sizeT p.data.rankInfo.groupRank) = false →
        Act ctx Sz T w { w with gp := w.gp.addGroupRank ctx p.clientId p.data, adds := ps, due := true }
  /-- The exchange that follows an addition. -/
  | exchange {w : Work} : w.due = true → w.gp.Live →
      Act ctx Sz T w { w with toGpState := groupCacheExchange ctx w.toGpState w.gp.spRanks, due := false }
  /-- The revoke of a local rank is put aside. -/
  | queueRankRevoke {w : Work} {i : RankInfo} {is : List RankInfo} : w.rankRevs = i :: is → w.gp.Live →
      w.gp.groupSize ≠ w.gp.numLocalEntries →
        Act ctx Sz T w { w with
          gp := { w.gp with persistent := { w.gp.persistent with
            pendingGroupRevokeMsgsFromRanks := w.gp.persistent.pendingGroupRevokeMsgsFromRanks ++ [i] } }
          rankRevs := is }
  /-- A local rank is marked. -/
  | markLocal {w : Work} {i : RankInfo} {is : List RankInfo} : w.rankRevs = i :: is → w.gp.Live →
      w.gp.groupSize = w.gp.numLocalEntries →
        Act ctx Sz T w { w with toGpState := tellRankRevoke ctx w.toGpState i, rankRevs := is }
  /-- A message of an SP is put aside. -/
  | queueSpRevoke {w : Work} {m : GroupRevokeMsgFromSp} {ms : List GroupRevokeMsgFromSp} : w.revs = m :: ms →
      w.gp.delaysSpRevoke = true →
        Act ctx Sz T w { w with
          gp := { w.gp with persistent := { w.gp.persistent with
            pendingGroupRevokeMsgsFromSps := w.gp.persistent.pendingGroupRevokeMsgsFromSps ++ [m] } }
          revs := ms }
  /-- A message of an SP is not delayed. -/
  | accept {w : Work} {m : GroupRevokeMsgFromSp} {ms : List GroupRevokeMsgFromSp} : w.revs = m :: ms →
      w.gp.Live → w.gp.delaysSpRevoke = false → T (w.gp.learnFromRevoke m).tally →
        Act ctx Sz T w { w with gp := w.gp.learnFromRevoke m, revs := ms, taken := w.taken ++ [m] }
  /-- The messages of SPs put aside are taken up. -/
  | takeRevokes {w : Work} : w.taken = [] → T w.gp.tally →
      Act ctx Sz T w { w with
        gp := { w.gp with persistent := { w.gp.persistent with pendingGroupRevokeMsgsFromSps := [] } }
        taken := w.gp.persistent.pendingGroupRevokeMsgsFromSps }
  /-- The bitset of revokes is created. -/
  | createBits {w : Work} : T w.gp.tally →
      Act ctx Sz T w { w with
        gp := { w.gp with revokesRanks := some (bitsetCreate w.gp.revokesRanks w.gp.groupSize) } }
  /-- A message of an SP is applied. -/
  | applyRevoke {w : Work} {m : GroupRevokeMsgFromSp} {ms : List GroupRevokeMsgFromSp} : w.taken = m :: ms →
      T w.gp.tally →
        Act ctx Sz T w { w with
          gp := (w.gp.applyRevokeMsg m).1
          out := w.out ++ marksOf w.gp m (w.gp.applyRevokeMsg m).2
          taken := ms }
  /-- The final revoke is posted. -/
  | post {w : Work} : w.gp.finalRevokeDue = true →
      Act ctx Sz T w { w with toGpState := sendRevokeGroupToRanks w.toGpState }
  /-- The group is reset, and the batches put aside are taken up. -/
  | reset {w : Work} : w.final = true → w.ents = [] → w.due = false →
      Act ctx Sz T w { w with
        gp := { resetGroupCache w.gp with persistent := { w.gp.persistent with pendingRecvCacheEntries := [] } }
        out := w.out ++ [.revoked w.gp.persistent.num]
        ents := w.gp.parked.flatMap (·.payload)
        final := false }
  /-- The cache has been sent to the local ranks. -/
  | setSent {w : Work} :
      Act ctx Sz T w { w with
        gp := { w.gp with persistent := { w.gp.persistent with sentToHost := w.gp.persistent.num } } }
  /-- The final revoke has been sent to the local ranks. -/
  | setRevokeSent {w : Work} :
      Act ctx Sz T w { w with
        gp := { w.gp with persistent := { w.gp.persistent with
          revokeSentToHost := w.gp.persistent.revokeSendToHostPosted } } }
  /-- A host joins. -/
  | hostAdd {w : Work} {m : GroupAddMsg} {ms : List GroupAddMsg} : ctx.onDpu = false → w.reqs = m :: ms →
      Act ctx Sz T w { w with toGpState := doSendAddGroupRankRequest ctx w.toGpState m, reqs := ms }
  /-- A host waits before it joins. -/
  | hostPark {w : Work} {m : GroupAddMsg} {ms : List GroupAddMsg} : ctx.onDpu = false → w.reqs = m :: ms →
      0 < w.gp.revokesGlobal → Act ctx Sz T w { w with
        gp := { w.gp with persistent := { w.gp.persistent with
          pendingSendGroupAddMsgs := w.gp.persistent.pendingSendGroupAddMsgs ++ [⟨m⟩] } }
        reqs := ms }
  /-- A host that waited joins. -/
  | hostTake {w : Work} {p : PendingSendGroupAdd} {ps : List PendingSendGroupAdd} : ctx.onDpu = false →
      w.gp.persistent.pendingSendGroupAddMsgs = p :: ps →
        Act ctx Sz T w { w with
          gp := { w.gp with persistent := { w.gp.persistent with pendingSendGroupAddMsgs := ps } }
          reqs := p.msg :: w.reqs }
  /-- A host leaves. -/
  | hostRevoke {w : Work} (info : RankInfo) : ctx.onDpu = false →
      Act ctx Sz T w { w with
        gp := { w.gp with revokesLocal := w.gp.revokesLocal + 1, revokesGlobal := w.gp.revokesGlobal + 1 }
        out := w.out ++ [.revokeRankToSp { info with groupSeqNum := w.gp.persistent.num }] }

/-- Sequences of actions. -/
abbrev Acts (ctx : GpCtx) (Sz : ℤ → Prop) (T : Tally → Prop) : Work → Work → Prop := ReflTransGen (Act ctx Sz T)

variable {ctx : GpCtx} {Sz : ℤ → Prop} {T : Tally → Prop}

/-! ### What additions leave alone -/

@[simp] theorem setEntryAt_groupUid (g : GroupCache) (r : ℕ) (e : PeerCacheEntry) :
    (g.setEntryAt r e).groupUid = g.groupUid := rfl

@[simp] theorem switchVersion_groupUid (g : GroupCache) : g.switchVersion.groupUid = g.groupUid := by
  unfold GroupCache.switchVersion; split <;> rfl

@[simp] theorem switchVersion_revokesGlobal (g : GroupCache) : g.switchVersion.revokesGlobal = g.revokesGlobal := by
  unfold GroupCache.switchVersion; split <;> rfl

@[simp] theorem learnGroupSize_revokesGlobal (g : GroupCache) (cfg : HostsConfig) (size : ℤ) :
    (g.learnGroupSize cfg size).revokesGlobal = g.revokesGlobal := by
  unfold GroupCache.learnGroupSize; split <;> rfl

@[simp] theorem learnGroupSize_numLocalEntries (g : GroupCache) (cfg : HostsConfig) (size : ℤ) :
    (g.learnGroupSize cfg size).numLocalEntries = g.numLocalEntries := by
  unfold GroupCache.learnGroupSize; split <;> rfl

@[simp] theorem addPeerEntry_groupUid (g : GroupCache) (e : PeerCacheEntry) :
    (g.addPeerEntry ctx e).groupUid = g.groupUid := by
  simp [GroupCache.addPeerEntry]

@[simp] theorem addPeerEntry_revokesGlobal (g : GroupCache) (e : PeerCacheEntry) :
    (g.addPeerEntry ctx e).revokesGlobal = g.revokesGlobal := by
  simp [GroupCache.addPeerEntry, GroupCache.setEntryAt]

@[simp] theorem addGroupRank_groupUid (g : GroupCache) (c : ℕ) (m : GroupAddMsg) :
    (g.addGroupRank ctx c m).groupUid = g.groupUid := by
  simp [GroupCache.addGroupRank, GroupCache.putLocalEntry]

@[simp] theorem addGroupRank_revokesGlobal (g : GroupCache) (c : ℕ) (m : GroupAddMsg) :
    (g.addGroupRank ctx c m).revokesGlobal = g.revokesGlobal := by
  simp [GroupCache.addGroupRank, GroupCache.putLocalEntry, GroupCache.setEntryAt]

@[simp] theorem switchVersion_numLocalEntries (g : GroupCache) :
    g.switchVersion.numLocalEntries = g.numLocalEntries := by
  unfold GroupCache.switchVersion; split <;> rfl

@[simp] theorem addPeerEntry_numLocalEntries (g : GroupCache) (e : PeerCacheEntry) :
    (g.addPeerEntry ctx e).numLocalEntries = g.numLocalEntries + 1 := by
  simp [GroupCache.addPeerEntry, GroupCache.setEntryAt]

@[simp] theorem addGroupRank_numLocalEntries (g : GroupCache) (c : ℕ) (m : GroupAddMsg) :
    (g.addGroupRank ctx c m).numLocalEntries = g.numLocalEntries + 1 := by
  simp [GroupCache.addGroupRank, GroupCache.putLocalEntry]

/-- Sending the cache to the local ranks touches the topology only. -/
theorem sendGpCacheToHost_gp (s : GpState) : ∃ t, (sendGpCacheToHost s).gp = { s.gp with topo := t } := by
  unfold sendGpCacheToHost
  split
  · exact ⟨_, rfl⟩
  · exact ⟨s.gp.topo, rfl⟩

theorem broadcastGroupCache_gp (s : GpState) : ∃ t, (broadcastGroupCache ctx s).gp = { s.gp with topo := t } := by
  simp only [broadcastGroupCache]
  split
  · exact ⟨s.gp.topo, rfl⟩
  · by_cases hf : s.gp.full
    · simp only [GpState.emit, hf, if_true]
      exact sendGpCacheToHost_gp _
    · simp only [GpState.emit, hf]
      exact ⟨s.gp.topo, rfl⟩

/-- The exchange touches the topology only. -/
theorem groupCacheExchange_gp (s : GpState) (n : ℕ) : ∃ t, (groupCacheExchange ctx s n).gp = { s.gp with topo := t } := by
  unfold groupCacheExchange
  repeat' split
  all_goals first | exact broadcastGroupCache_gp s | exact ⟨s.gp.topo, rfl⟩

@[simp] theorem getGroupCacheInternal_revokesGlobal (u : ℤ) (g : GroupCache) (size : ℤ) :
    (getGroupCacheInternal u (some g) size).revokesGlobal = if g.groupUid = INT_MAX then 0 else g.revokesGlobal := by
  by_cases h : g.groupUid = INT_MAX <;> simp [getGroupCacheInternal, h, initGroupCache, basicInitGroupCache]

@[simp] theorem switchVersion_queues (g : GroupCache) : g.switchVersion.queues = g.queues := by
  unfold GroupCache.switchVersion; split <;> rfl

@[simp] theorem learnGroupSize_queues (g : GroupCache) (cfg : HostsConfig) (size : ℤ) :
    (g.learnGroupSize cfg size).queues = g.queues := by
  simp [GroupCache.queues]

@[simp] theorem addPeerEntry_queues (g : GroupCache) (e : PeerCacheEntry) :
    (g.addPeerEntry ctx e).queues = g.queues :=
  switchVersion_queues g

@[simp] theorem addGroupRank_queues (g : GroupCache) (c : ℕ) (m : GroupAddMsg) :
    (g.addGroupRank ctx c m).queues = g.queues :=
  switchVersion_queues g

@[simp] theorem getGroupCacheInternal_queues (u : ℤ) (g : GroupCache) (size : ℤ) :
    (getGroupCacheInternal u (some g) size).queues = g.queues := by
  by_cases h : g.groupUid = INT_MAX <;>
    simp [getGroupCacheInternal, h, initGroupCache, basicInitGroupCache, GroupCache.queues]

theorem recvEntries_queues (size : ℤ) (batch : List PeerCacheEntry) (acc : GroupCache × ℕ) :
    (batch.foldl (recvPeerEntry ctx size) acc).1.queues = acc.1.queues := by
  induction batch generalizing acc with
  | nil => rfl
  | cons e batch ih =>
    rw [List.foldl_cons, ih]
    simp only [recvPeerEntry]
    split <;> simp

@[simp] theorem handlePeerCacheEntriesRecv_queues (s : GpState) (batch : List PeerCacheEntry) :
    (handlePeerCacheEntriesRecv ctx s batch).gp.queues = s.gp.queues := by
  simp only [handlePeerCacheEntriesRecv]
  split
  · obtain ⟨t, ht⟩ := sendGpCacheToHost_gp ⟨(batch.foldl (recvPeerEntry ctx (batchGroupSize batch))
      (getGroupCacheInternal ctx.gpUid (some s.gp) (batchGroupSize batch), 0)).1, s.out⟩
    rw [ht]
    exact (recvEntries_queues _ _ _).trans (getGroupCacheInternal_queues _ _ _)
  · simp [recvEntries_queues]

@[simp] theorem handlePendingCacheEntries_queues (s : GpState) :
    (handlePendingCacheEntries ctx s).gp.queues = { s.gp.queues with pendingRecvCacheEntries := [] } := by
  have key : ∀ (ps : List PendingRecvCacheEntry) (s : GpState),
      (ps.foldl (fun s p => handlePeerCacheEntriesRecv ctx s p.payload) s).gp.queues = s.gp.queues := by
    intro ps
    induction ps with
    | nil => intro s; rfl
    | cons p ps ih => intro s; rw [List.foldl_cons, ih, handlePeerCacheEntriesRecv_queues]
  simp only [handlePendingCacheEntries, key]
  rfl

@[simp] theorem hostAddLocalRankToCache_queues (g : GroupCache) (info : RankInfo) :
    (hostAddLocalRankToCache ctx (some g) info).queues = g.queues := by
  rw [hostAddLocalRankToCache_eq ctx (some g) info rfl]
  change ((getGroupCacheInternal ctx.gpUid (some g) info.groupSize).learnGroupSize ctx.hosts info.groupSize).queues = _
  simp

@[simp] theorem doSendAddGroupRankRequest_queues (s : GpState) (m : GroupAddMsg) :
    (doSendAddGroupRankRequest ctx s m).gp.queues = s.gp.queues := by
  simp only [doSendAddGroupRankRequest]
  split <;> simp

section
variable (g : GroupCache) (m : GroupRevokeMsgFromSp)

@[simp] theorem learnFromRevoke_groupUid : (g.learnFromRevoke m).groupUid = g.groupUid := by
  unfold GroupCache.learnFromRevoke; split <;> rfl

@[simp] theorem learnFromRevoke_ranks : (g.learnFromRevoke m).ranks = g.ranks := by
  unfold GroupCache.learnFromRevoke; split <;> rfl

@[simp] theorem learnFromRevoke_numLocalEntries : (g.learnFromRevoke m).numLocalEntries = g.numLocalEntries := by
  unfold GroupCache.learnFromRevoke; split <;> rfl

@[simp] theorem learnFromRevoke_revokesGlobal : (g.learnFromRevoke m).revokesGlobal = g.revokesGlobal := by
  unfold GroupCache.learnFromRevoke; split <;> rfl

@[simp] theorem learnFromRevoke_persistent : (g.learnFromRevoke m).persistent = g.persistent := by
  unfold GroupCache.learnFromRevoke; split <;> rfl

end

@[simp] theorem broadcastGroupCacheRevoke_gp (s : GpState) : (broadcastGroupCacheRevoke ctx s).gp = s.gp := by
  unfold broadcastGroupCacheRevoke; split <;> rfl

/-! ### The functions of the callbacks as sequences of actions -/

theorem lookup_acts (w : Work) {size : ℤ} (hs : Sz size) :
    Acts ctx Sz T w { w with gp := getGroupCacheInternal ctx.gpUid (some w.gp) size } := by
  by_cases h : w.gp.groupUid = INT_MAX
  · simp only [getGroupCacheInternal, h, if_true]
    exact .single (.init size hs (not_not.2 h))
  · rw [getGroupCacheInternal_of_live h]

theorem live_lookup (hu : ctx.gpUid ≠ INT_MAX) (g : GroupCache) (size : ℤ) :
    (getGroupCacheInternal ctx.gpUid (some g) size).Live := by
  by_cases h : g.groupUid = INT_MAX
  · simpa [GroupCache.Live, getGroupCacheInternal, h] using hu
  · rwa [getGroupCacheInternal_of_live h]

/-- The entries of a batch, one after the other. -/
theorem recvEntries_acts {size : ℤ} (hs : Sz size) (batch rest : List PeerCacheEntry) (w : Work) (k : ℕ)
    (he : w.ents = batch ++ rest) (hl : w.gp.Live) (h0 : w.gp.revokesGlobal = 0) :
    Acts ctx Sz T w { w with gp := (batch.foldl (recvPeerEntry ctx size) (w.gp, k)).1, ents := rest } ∧
      (batch.foldl (recvPeerEntry ctx size) (w.gp, k)).1.groupUid = w.gp.groupUid ∧
      (batch.foldl (recvPeerEntry ctx size) (w.gp, k)).1.revokesGlobal = 0 := by
  induction batch generalizing w k with
  | nil => simp only [List.nil_append] at he; subst he; exact ⟨.refl, rfl, h0⟩
  | cons e batch ih =>
    have hlearn : Acts ctx Sz T w { w with gp := w.gp.learnGroupSize ctx.hosts size } := .single (.learn size hs hl)
    have hl' : (w.gp.learnGroupSize ctx.hosts size).Live := by simpa [GroupCache.Live] using hl
    simp only [List.foldl_cons, recvPeerEntry]
    split
    · rename_i hset
      have hskip : Acts ctx Sz T { w with gp := w.gp.learnGroupSize ctx.hosts size }
          { w with gp := w.gp.learnGroupSize ctx.hosts size, ents := batch ++ rest } :=
        .single (.skipEntry (by simpa using he) hl' hset)
      obtain ⟨h₁, h₂, h₃⟩ := ih { w with gp := w.gp.learnGroupSize ctx.hosts size, ents := batch ++ rest } k rfl hl'
        (by simpa using h0)
      exact ⟨(hlearn.trans hskip).trans h₁, by simpa using h₂, h₃⟩
    · rename_i hset
      have hadd : Acts ctx Sz T { w with gp := w.gp.learnGroupSize ctx.hosts size }
          { w with gp := (w.gp.learnGroupSize ctx.hosts size).addPeerEntry ctx e, ents := batch ++ rest } :=
        .single (.addEntry (by simpa using he) hl' (learnt_learnGroupSize _ hs) (by simpa using h0) (by simpa using hset))
      obtain ⟨h₁, h₂, h₃⟩ := ih
        { w with gp := (w.gp.learnGroupSize ctx.hosts size).addPeerEntry ctx e, ents := batch ++ rest } (k + 1) rfl
        (by simpa [GroupCache.Live] using hl) (by simpa using h0)
      exact ⟨(hlearn.trans hadd).trans h₁, by simpa using h₂, h₃⟩

/-- `handle_peer_cache_entries_recv`. -/
theorem handlePeerCacheEntriesRecv_acts (hu : ctx.gpUid ≠ INT_MAX) (batch rest : List PeerCacheEntry)
    (hs : Sz (batchGroupSize batch)) (w : Work) (he : w.ents = batch ++ rest) (h0 : w.gp.revokesGlobal = 0) :
    Acts ctx Sz T w { w with toGpState := handlePeerCacheEntriesRecv ctx w.toGpState batch, ents := rest } ∧
      (handlePeerCacheEntriesRecv ctx w.toGpState batch).gp.Live ∧
      (handlePeerCacheEntriesRecv ctx w.toGpState batch).gp.revokesGlobal = 0 := by
  have hlive := live_lookup hu w.gp (batchGroupSize batch)
  obtain ⟨h₁, h₂, h₃⟩ := recvEntries_acts (T := T) hs batch rest
    { w with gp := getGroupCacheInternal ctx.gpUid (some w.gp) (batchGroupSize batch) } 0 he hlive (by simp [h0])
  have hl : (batch.foldl (recvPeerEntry ctx (batchGroupSize batch))
      (getGroupCacheInternal ctx.gpUid (some w.gp) (batchGroupSize batch), 0)).1.Live := by
    unfold GroupCache.Live at hlive ⊢
    rw [h₂]; exact hlive
  have h := (lookup_acts w hs).trans h₁
  simp only [handlePeerCacheEntriesRecv]
  split
  · rename_i hc
    refine ⟨h.tail (.sendCache hl hc.2.2.1 hc.2.2.2.1), ?_⟩
    obtain ⟨t, ht⟩ := sendGpCacheToHost_gp ⟨(batch.foldl (recvPeerEntry ctx (batchGroupSize batch))
      (getGroupCacheInternal ctx.gpUid (some w.gp) (batchGroupSize batch), 0)).1, w.out⟩
    rw [ht]
    exact ⟨hl, h₃⟩
  · exact ⟨h, hl, h₃⟩

/-- The batches taken up, one after the other. -/
theorem handleParked_acts (hu : ctx.gpUid ≠ INT_MAX) (ps : List PendingRecvCacheEntry) (w : Work)
    (hs : ∀ p ∈ ps, Sz (batchGroupSize p.payload)) (he : w.ents = ps.flatMap (·.payload))
    (h0 : w.gp.revokesGlobal = 0) :
    Acts ctx Sz T w { w with
      toGpState := ps.foldl (fun s p => handlePeerCacheEntriesRecv ctx s p.payload) w.toGpState, ents := [] } ∧
    (w.gp.Live → (ps.foldl (fun s p => handlePeerCacheEntriesRecv ctx s p.payload) w.toGpState).gp.Live) := by
  induction ps generalizing w with
  | nil => obtain ⟨s, batch, ents, _⟩ := w; cases he; exact ⟨.refl, id⟩
  | cons p ps ih =>
    obtain ⟨h₁, h₂, h₃⟩ := handlePeerCacheEntriesRecv_acts (T := T) hu p.payload (ps.flatMap (·.payload))
      (hs p (by simp)) w (by simpa using he) h0
    obtain ⟨h₄, h₅⟩ := ih
      { w with toGpState := handlePeerCacheEntriesRecv ctx w.toGpState p.payload, ents := ps.flatMap (·.payload) }
      (fun q hq => hs q (by simp [hq])) rfl h₃
    exact ⟨h₁.trans h₄, fun _ => h₅ h₂⟩

/-- `HANDLE_PENDING_CACHE_ENTRIES`. -/
theorem handlePendingCacheEntries_acts (hu : ctx.gpUid ≠ INT_MAX) (w : Work) (he : w.ents = [])
    (h0 : w.gp.revokesGlobal = 0) (hs : ∀ p ∈ w.gp.parked, Sz (batchGroupSize p.payload)) :
    Acts ctx Sz T w { w with toGpState := handlePendingCacheEntries ctx w.toGpState } ∧
      (w.gp.Live → (handlePendingCacheEntries ctx w.toGpState).gp.Live) := by
  obtain ⟨h₁, h₂⟩ := handleParked_acts (T := T) hu w.gp.parked
    { w with
      gp := { w.gp with persistent := { w.gp.persistent with pendingRecvCacheEntries := [] } }
      ents := w.gp.parked.flatMap (·.payload) } hs rfl h0
  have h := ReflTransGen.head (@Act.unpark ctx Sz T w he h0) h₁
  obtain ⟨s, batch, ents, _⟩ := w
  cases he
  exact ⟨h, h₂⟩

/-- `do_add_group_rank_recv_cb`, once the group has been looked up. -/
theorem doAddGroupRank_acts (hu : ctx.gpUid ≠ INT_MAX) {p : PendingGroupAdd} {ps : List PendingGroupAdd} (w : Work)
    (ha : w.adds = p :: ps) (hl : w.gp.Live) (he : w.ents = []) (hd : w.due = false)
    (hs : Sz p.data.rankInfo.groupSize) (hps : ∀ p ∈ w.gp.parked, Sz (batchGroupSize p.payload)) :
    Acts ctx Sz T w { w with toGpState := doAddGroupRank ctx w.toGpState p.clientId p.data, adds := ps } ∧
      (doAddGroupRank ctx w.toGpState p.clientId p.data).gp.parked ⊆ w.gp.parked := by
  unfold doAddGroupRank
  split
  · rename_i h0
    exact ⟨.single (.parkAdd hs ha hl h0), List.Subset.refl _⟩
  · rename_i h0
    have h0 : w.gp.revokesGlobal = 0 := Nat.eq_zero_of_not_pos h0
    have hl' : (w.gp.learnGroupSize ctx.hosts p.data.rankInfo.groupSize).Live := by simpa [GroupCache.Live] using hl
    have hlearn := ReflTransGen.single (@Act.learn ctx Sz T w _ hs hl)
    -- the rank is added, or is in the cache already; then what was put aside is taken up
    have key : ∀ g : GroupCache, g.Live → g.revokesGlobal = 0 → g.queues = w.gp.queues →
        Acts ctx Sz T { w with gp := w.gp.learnGroupSize ctx.hosts p.data.rankInfo.groupSize }
          { w with gp := g, adds := ps, due := true } →
        Acts ctx Sz T w { w with
          toGpState := groupCacheExchange ctx (handlePendingCacheEntries ctx { w.toGpState with gp := g })
            (handlePendingCacheEntries ctx { w.toGpState with gp := g }).gp.spRanks
          adds := ps } ∧
        (groupCacheExchange ctx (handlePendingCacheEntries ctx { w.toGpState with gp := g })
          (handlePendingCacheEntries ctx { w.toGpState with gp := g }).gp.spRanks).gp.parked ⊆ w.gp.parked := by
      intro g hlg h0g hpg hadd
      obtain ⟨h₁, h₂⟩ := handlePendingCacheEntries_acts (T := T) hu
        { w with gp := g, adds := ps, due := true } he h0g (by rw [GroupCache.parked, hpg]; exact hps)
      have hx := ((hlearn.trans hadd).trans h₁).tail (.exchange rfl (h₂ hlg))
      rw [← hd] at hx
      obtain ⟨t, ht⟩ := @groupCacheExchange_gp ctx (handlePendingCacheEntries ctx { w.toGpState with gp := g })
        (handlePendingCacheEntries ctx { w.toGpState with gp := g }).gp.spRanks
      refine ⟨hx, ?_⟩
      rw [ht]
      change (handlePendingCacheEntries ctx { w.toGpState with gp := g }).gp.parked ⊆ _
      simp [GroupCache.parked]
    by_cases hset : (w.gp.learnGroupSize ctx.hosts p.data.rankInfo.groupSize).isSet
        (sizeT p.data.rankInfo.groupRank) = true
    · simp only [hset, if_true]
      exact key _ hl' (by simpa using h0) (by simp) 
        (.single (.skipAdd ha hl' (learnt_learnGroupSize _ hs) (by simpa using h0) hset))
    · simp only [hset]
      exact key _ (by simpa [GroupCache.Live] using hl) (by simpa using h0) (by simp)
        (.single (.addLocal ha hl' (learnt_learnGroupSize _ hs) (by simpa using h0) (by simpa using hset)))

/-- `handle_pending_group_cache_add_msgs`. -/
theorem handlePendingGroupCacheAddMsgs_acts (hu : ctx.gpUid ≠ INT_MAX) (w : Work) (ha : w.adds = [])
    (he : w.ents = []) (hd : w.due = false)
    (hs : ∀ p ∈ w.gp.persistent.pendingGroupAddMsgs, Sz p.data.rankInfo.groupSize)
    (hps : ∀ p ∈ w.gp.parked, Sz (batchGroupSize p.payload)) :
    Acts ctx Sz T w { w with toGpState := handlePendingGroupCacheAddMsgs ctx w.toGpState } := by
  have key : ∀ (as : List PendingGroupAdd) (w : Work), w.adds = as → w.ents = [] → w.due = false →
      (∀ p ∈ as, Sz p.data.rankInfo.groupSize) → (∀ p ∈ w.gp.parked, Sz (batchGroupSize p.payload)) →
      Acts ctx Sz T w { w with
        toGpState := as.foldl (fun s p => doAddGroupRank ctx
          { s with gp := getGroupCacheInternal ctx.gpUid (some s.gp) p.data.rankInfo.groupSize } p.clientId p.data)
          w.toGpState
        adds := [] } := by
    intro as
    induction as with
    | nil => rintro ⟨s, batch, ents, adds, _⟩ ha _ _ _ _; cases ha; exact .refl
    | cons p as ih =>
      intro w ha he hd hs hps
      obtain ⟨h₁, h₂⟩ := doAddGroupRank_acts (T := T) hu
        { w with gp := getGroupCacheInternal ctx.gpUid (some w.gp) p.data.rankInfo.groupSize } ha
        (live_lookup hu w.gp _) he hd (hs p (by simp)) (by simpa [GroupCache.parked] using hps)
      have h₃ := ih
        { w with
          toGpState := doAddGroupRank ctx
            { w.toGpState with gp := getGroupCacheInternal ctx.gpUid (some w.gp) p.data.rankInfo.groupSize }
            p.clientId p.data
          adds := as } rfl he hd (fun q hq => hs q (by simp [hq])) (fun q hq => hps q (by simpa [GroupCache.parked] using h₂ hq))
      exact ((lookup_acts w (hs p (by simp))).trans h₁).trans h₃
  have h := key w.gp.persistent.pendingGroupAddMsgs
    { w with
      gp := { w.gp with persistent := { w.gp.persistent with pendingGroupAddMsgs := [] } }
      adds := w.gp.persistent.pendingGroupAddMsgs } rfl he hd hs hps
  have h' := ReflTransGen.head (@Act.takeAdds ctx Sz T w ha) h
  obtain ⟨s, batch, ents, adds, _⟩ := w
  cases ha
  exact h'

/-- `revoke_group_cache`. -/
theorem revokeGroupCache_acts (hu : ctx.gpUid ≠ INT_MAX) (w : Work) (hf : w.final = true) (he : w.ents = [])
    (hd : w.due = false) (hps : ∀ p ∈ w.gp.parked, Sz (batchGroupSize p.payload)) :
    Acts ctx Sz T w { w with toGpState := revokeGroupCache ctx w.toGpState, final := false } ∧
      (revokeGroupCache ctx w.toGpState).gp.queues = { w.gp.queues with pendingRecvCacheEntries := [] } := by
  have hr : resetGroupCache (getGroupCache ctx.gpUid (some w.gp)) = resetGroupCache w.gp := by
    by_cases h : w.gp.groupUid = INT_MAX <;>
      simp [getGroupCache, getGroupCacheInternal, h, resetGroupCache, initGroupCache, basicInitGroupCache]
  have hn : (getGroupCache ctx.gpUid (some w.gp)).persistent.num = w.gp.persistent.num := by
    by_cases h : w.gp.groupUid = INT_MAX <;>
      simp [getGroupCache, getGroupCacheInternal, h, initGroupCache, basicInitGroupCache]
  obtain ⟨h₁, -⟩ := handleParked_acts (T := T) hu w.gp.parked
    { w with
      gp := { resetGroupCache w.gp with persistent := { w.gp.persistent with pendingRecvCacheEntries := [] } }
      out := w.out ++ [.revoked w.gp.persistent.num]
      ents := w.gp.parked.flatMap (·.payload)
      final := false } hps rfl rfl
  have h := ReflTransGen.head (@Act.reset ctx Sz T w hf he hd) h₁
  simp only [revokeGroupCache, hr, hn]
  refine ⟨?_, by rw [handlePendingCacheEntries_queues]; rfl⟩
  obtain ⟨s, batch, ents, _⟩ := w
  cases he
  exact h

/-- The messages of SPs taken up, one after the other. -/
theorem handlePendingRevokeMsgs_acts (ms : List GroupRevokeMsgFromSp) (w : Work) (k : ℕ) (ht : w.taken = ms)
    (hT : T w.gp.tally) :
    Acts ctx Sz T w { w with toGpState := (ms.foldl handlePendingRevokeMsg (w.toGpState, k)).1, taken := [] } := by
  induction ms generalizing w k with
  | nil => obtain ⟨s, batch, ents, adds, rr, revs, taken, _⟩ := w; cases ht; exact .refl
  | cons m ms ih =>
    have hc := @Act.createBits ctx Sz T w hT
    have ha := @Act.applyRevoke ctx Sz T
      { w with gp := { w.gp with revokesRanks := some (bitsetCreate w.gp.revokesRanks w.gp.groupSize) } } m ms ht hT
    exact .head hc (.head ha (ih
      { w with
        toGpState := (handlePendingRevokeMsg (w.toGpState, k) m).1
        taken := ms } (handlePendingRevokeMsg (w.toGpState, k) m).2 rfl hT))

/-- `HANDLE_PENDING_GROUP_REVOKE_MSGS_FROM_SPS`. -/
theorem handlePendingGroupRevokeMsgsFromSps_acts (s : GpState)
    (hT : s.gp.persistent.pendingGroupRevokeMsgsFromSps = [] ∨ T s.gp.tally) :
    Acts ctx Sz T (Work.start s) (Work.start (handlePendingGroupRevokeMsgsFromSps s).1) := by
  rcases hT with h | hT
  · have : (handlePendingGroupRevokeMsgsFromSps s).1 = s := by
      obtain ⟨⟨_, ⟨_, _, _, _, pend, _⟩, _⟩, _⟩ := s
      cases h
      rfl
    rw [this]
  · refine .head (.takeRevokes rfl hT) ?_
    exact handlePendingRevokeMsgs_acts s.gp.persistent.pendingGroupRevokeMsgsFromSps
      { Work.start s with
        gp := { s.gp with persistent := { s.gp.persistent with pendingGroupRevokeMsgsFromSps := [] } }
        taken := s.gp.persistent.pendingGroupRevokeMsgsFromSps } 0 rfl hT

/-- Post the final revoke, if it is due. -/
theorem post_acts (s : GpState) (P : Prop) [Decidable P] (hP : P → s.gp.finalRevokeDue = true) :
    Acts ctx Sz T (Work.start s) (Work.start (if P then sendRevokeGroupToRanks s else s)) := by
  split
  · exact .single (.post (hP ‹_›))
  · exact .refl

/-- `group_cache_send_to_local_ranks_cb`. -/
theorem groupCacheSendToLocalRanksCb_acts (g : GroupCache)
    (hT : g.persistent.pendingGroupRevokeMsgsFromSps = [] ∨ T g.tally) :
    Acts ctx Sz T (Work.start ⟨g, []⟩) (Work.start (groupCacheSendToLocalRanksCb g)) := by
  have h := @handlePendingGroupRevokeMsgsFromSps_acts ctx Sz T
    ⟨{ g with persistent := { g.persistent with sentToHost := g.persistent.num } }, []⟩ hT
  exact (ReflTransGen.head .setSent h).trans (post_acts _ _ fun hp => hp.2)

/-- `handle_revoke_group_rank_through_rank_info`, once the group has been looked up. -/
theorem handleRankRevoke_acts (g : GroupCache) (i : RankInfo) (hl : g.Live)
    (hT : g.groupSize = g.numLocalEntries → g.revokesLocal + 1 = g.spRanks →
      T ⟨g.groupSize, g.numLocalEntries, g.spRanks, g.revokesLocal + 1⟩) :
    Acts ctx Sz T { Work.start ⟨g, []⟩ with rankRevs := [i] } (Work.start (handleRankRevoke ctx g i)) := by
  simp only [handleRankRevoke]
  split
  · exact .single (.queueRankRevoke rfl hl ‹_›)
  · rename_i hfull
    have hfull := not_not.1 hfull
    refine .head (.markLocal rfl hl hfull) (ReflTransGen.trans ?_ (post_acts _ _ id))
    change Acts ctx Sz T (Work.start (tellRankRevoke ctx ⟨g, []⟩ i)) _
    unfold tellRankRevoke
    by_cases hlast : (g.markLocalRank (sizeT i.groupRank)).revokesLocal = (g.markLocalRank (sizeT i.groupRank)).spRanks
    · simp only [if_pos hlast]
      refine handlePendingGroupRevokeMsgsFromSps_acts _ (.inr ?_)
      rw [broadcastGroupCacheRevoke_gp]
      exact hT hfull hlast
    · simp only [if_neg hlast]
      exact .refl

/-- `handle_revoke_group_rank_through_list_ranks` on an SP, once the group has been looked up. -/
theorem handleSpRevoke_acts (g : GroupCache) (m : GroupRevokeMsgFromSp) (hl : g.Live)
    (hT : g.delaysSpRevoke = false → T (g.learnFromRevoke m).tally) :
    Acts ctx Sz T { Work.start ⟨g, []⟩ with revs := [m] } (Work.start (handleSpRevoke g m)) := by
  simp only [handleSpRevoke]
  split
  · exact .single (.queueSpRevoke rfl ‹_›)
  · rename_i hd
    have hd : g.delaysSpRevoke = false := by simpa using hd
    have hp := @Act.applyRevoke ctx Sz T
      { Work.start ⟨g.learnFromRevoke m, []⟩ with taken := [m] } m [] rfl (hT hd)
    exact .head (.accept rfl hl hd (hT hd)) (.head hp (post_acts _ _ fun hp => hp.2))

/-- `handle_revoke_group_rank_through_list_ranks` on a host, once the group has been looked up. -/
theorem handleFinalRevoke_acts (hu : ctx.gpUid ≠ INT_MAX) (hd : ctx.onDpu = false) (g : GroupCache)
    (hps : ∀ p ∈ g.parked, Sz (batchGroupSize p.payload)) :
    Acts ctx Sz T { Work.start ⟨g, []⟩ with final := true } (Work.start (handleFinalRevoke ctx g)) := by
  obtain ⟨h, -⟩ := revokeGroupCache_acts (T := T) hu { Work.start ⟨g, []⟩ with final := true } rfl rfl rfl hps
  apply h.trans
  simp only [handleFinalRevoke]
  split
  · exact .refl
  · rename_i p ps hp
    exact .head (.hostTake hd hp) (.single (.hostAdd hd rfl))

/-- `revoke_send_to_host_cb`. -/
theorem revokeSendToHostCb_acts (hu : ctx.gpUid ≠ INT_MAX) (g : GroupCache)
    (hs : ∀ p ∈ g.persistent.pendingGroupAddMsgs, Sz p.data.rankInfo.groupSize)
    (hps : ∀ p ∈ g.parked, Sz (batchGroupSize p.payload)) :
    Acts ctx Sz T { Work.start ⟨g, []⟩ with final := true } (Work.start (revokeSendToHostCb ctx g)) := by
  obtain ⟨h, hp⟩ := revokeGroupCache_acts (T := T) hu
    { Work.start ⟨{ g with persistent := { g.persistent with
        revokeSentToHost := g.persistent.revokeSendToHostPosted } }, []⟩ with final := true } rfl rfl rfl hps
  refine .head .setRevokeSent (h.trans (handlePendingGroupCacheAddMsgs_acts hu _ rfl rfl rfl ?_ ?_))
  · intro p hmem
    exact hs p (by simpa [GroupCache.queues] using congrArg Persistent.pendingGroupAddMsgs hp ▸ hmem)
  · rw [GroupCache.parked, hp]; simp

@[simp] theorem tellRankRevoke_gp (s : GpState) (i : RankInfo) :
    (tellRankRevoke ctx s i).gp = s.gp.markLocalRank (sizeT i.groupRank) := by
  simp only [tellRankRevoke]
  split <;> simp

/-! ### Actions do not look at what has been emitted -/

/-- The same, with more emitted before. -/
def GpState.after (l : List Effect) (s : GpState) : GpState := { s with out := l ++ s.out }

/-- The same, with more emitted before. -/
def Work.after (l : List Effect) (w : Work) : Work := { w with toGpState := w.toGpState.after l }

theorem sendGpCacheToHost_after (l : List Effect) (s : GpState) :
    sendGpCacheToHost (s.after l) = (sendGpCacheToHost s).after l := by
  by_cases h : s.gp.persistent.sentToHost < s.gp.persistent.num <;>
    simp [sendGpCacheToHost, GpState.after, h]

theorem broadcastGroupCache_after (l : List Effect) (s : GpState) :
    broadcastGroupCache ctx (s.after l) = (broadcastGroupCache ctx s).after l := by
  have h := sendGpCacheToHost_after l
    (s.emit (.broadcast :: if 1 < ctx.numServiceProcs then broadcastMsgs ctx s.gp else []))
  simp only [GpState.emit, GpState.after] at h
  simp only [broadcastGroupCache, GpState.emit, GpState.after, List.append_assoc, h]
  repeat' split
  all_goals rfl

theorem groupCacheExchange_after (l : List Effect) (s : GpState) (n : ℕ) :
    groupCacheExchange ctx (s.after l) n = (groupCacheExchange ctx s n).after l := by
  have h : (s.after l).gp = s.gp := rfl
  unfold groupCacheExchange
  rw [h]
  repeat' split
  all_goals first | exact broadcastGroupCache_after l s | rfl

theorem tellRankRevoke_after (l : List Effect) (s : GpState) (i : RankInfo) :
    tellRankRevoke ctx (s.after l) i = (tellRankRevoke ctx s i).after l := by
  simp only [tellRankRevoke, GpState.after, broadcastGroupCacheRevoke, GpState.emit, List.append_assoc]
  repeat' split
  all_goals rfl

theorem doSendAddGroupRankRequest_after (l : List Effect) (s : GpState) (m : GroupAddMsg) :
    doSendAddGroupRankRequest ctx (s.after l) m = (doSendAddGroupRankRequest ctx s m).after l := by
  simp only [doSendAddGroupRankRequest, GpState.after, List.append_assoc]
  rfl

/-- **An action is one whatever was emitted before.** -/
theorem Act.after (l : List Effect) {w w' : Work} (h : Act ctx Sz T w w') : Act ctx Sz T (w.after l) (w'.after l) := by
  cases h with
  | init size hs hl => exact .init size hs hl
  | learn size hs hl => exact .learn size hs hl
  | skipEntry he hl hset => exact .skipEntry he hl hset
  | addEntry he hl hL h0 hset => exact .addEntry he hl hL h0 hset
  | parkEntries sp hs hl hp => exact .parkEntries sp hs hl hp
  | takeBatch hl he h0 hr => exact .takeBatch hl he h0 hr
  | unpark he h0 => exact .unpark he h0
  | sendCache hl h0 hf =>
    have h := @Act.sendCache ctx Sz T (w.after l) hl h0 hf
    rwa [Work.after, sendGpCacheToHost_after] at h
  | parkAdd hs ha hl h0 => exact .parkAdd hs ha hl h0
  | takeAdds ha => exact .takeAdds ha
  | skipAdd ha hl hL h0 hset => exact .skipAdd ha hl hL h0 hset
  | addLocal ha hl hL h0 hset => exact .addLocal ha hl hL h0 hset
  | exchange hd hl =>
    have h := @Act.exchange ctx Sz T (w.after l) hd hl
    rwa [Work.after, groupCacheExchange_after] at h
  | queueRankRevoke hr hl hn => exact .queueRankRevoke hr hl hn
  | @markLocal i is hr hl hn =>
    have h := @Act.markLocal ctx Sz T (w.after l) i is hr hl hn
    rwa [Work.after, tellRankRevoke_after] at h
  | queueSpRevoke hr hd => exact .queueSpRevoke hr hd
  | accept hr hl hd hT => exact .accept hr hl hd hT
  | takeRevokes ht hT => exact .takeRevokes ht hT
  | createBits hT => exact .createBits hT
  | @applyRevoke m ms ht hT =>
    have h := @Act.applyRevoke ctx Sz T (w.after l) m ms ht hT
    simpa only [Work.after, GpState.after, List.append_assoc] using h
  | post hf =>
    have h := @Act.post ctx Sz T (w.after l) hf
    simpa only [Work.after, GpState.after, sendRevokeGroupToRanks, List.append_assoc] using h
  | reset hf he hd =>
    have h := @Act.reset ctx Sz T (w.after l) hf he hd
    simpa only [Work.after, GpState.after, List.append_assoc] using h
  | setSent => exact .setSent
  | setRevokeSent => exact .setRevokeSent
  | @hostAdd m ms hd hr =>
    have h := @Act.hostAdd ctx Sz T (w.after l) m ms hd hr
    rwa [Work.after, doSendAddGroupRankRequest_after] at h
  | hostPark hd hr h0 => exact .hostPark hd hr h0
  | hostTake hd hp => exact .hostTake hd hp
  | hostRevoke info hd =>
    have h := @Act.hostRevoke ctx Sz T (w.after l) info hd
    simpa only [Work.after, GpState.after, List.append_assoc] using h

theorem Acts.after (l : List Effect) {w w' : Work} (h : Acts ctx Sz T w w') : Acts ctx Sz T (w.after l) (w'.after l) :=
  ReflTransGen.lift (Work.after l) (fun _ _ => Act.after l) _ _ h

/-! ### Every callback is a sequence of actions -/

/-- The sizes announced by what the group has put aside. -/
structure GroupCache.Sized (Sz : ℤ → Prop) (g : GroupCache) : Prop where
  /-- Batches of entries. -/
  parked : ∀ p ∈ g.parked, Sz (batchGroupSize p.payload)
  /-- Add messages. -/
  adds : ∀ p ∈ g.persistent.pendingGroupAddMsgs, Sz p.data.rankInfo.groupSize

/-- The size an event announces. -/
def Event.Sizes (Sz : ℤ → Prop) : Event → Prop
  | .addGroupRank _ m | .requestAdd m => Sz m.rankInfo.groupSize
  | .peerCacheEntries _ batch => Sz (batchGroupSize batch)
  | .revokeFromRank info | .requestRevoke info => Sz info.groupSize
  | .revokeFromSp m => Sz m.groupSize
  | .cacheSent | .revokeSent => True

/-- The counters of the group when an event makes its callback apply messages of SPs. -/
def Event.Applies (ctx : GpCtx) (T : Tally → Prop) (g : GroupCache) : Event → Prop
  | .revokeFromRank info => ∀ g', g' = getGroupCacheInternal ctx.gpUid (some g) info.groupSize →
      g'.groupSize = g'.numLocalEntries → g'.revokesLocal + 1 = g'.spRanks →
        T ⟨g'.groupSize, g'.numLocalEntries, g'.spRanks, g'.revokesLocal + 1⟩
  | .revokeFromSp m => ctx.onDpu = true → ∀ g', g' = getGroupCacheInternal ctx.gpUid (some g) m.groupSize →
      g'.delaysSpRevoke = false → T (g'.learnFromRevoke m).tally
  | .cacheSent => g.persistent.pendingGroupRevokeMsgsFromSps = [] ∨ T g.tally
  | _ => True

/-- A group not in the table is looked up as one the pool hands out. -/
theorem getGroupCacheInternal_getD (u : ℤ) (slot : Option GroupCache) (size : ℤ) :
    getGroupCacheInternal u slot size = getGroupCacheInternal u (some (slot.getD newGroupCache)) size := by
  cases slot with
  | none => rfl
  | some g => rfl

/-- The group cache and the record a callback leaves. -/
def Handled.state (r : Handled) (log : List Effect) : GpState := ⟨r.1.getD newGroupCache, log ++ r.2⟩

theorem acts_handled {w : Work} {s : GpState} (log : List Effect) (h : Acts ctx Sz T w (Work.start s)) :
    Acts ctx Sz T (w.after log) (Work.start (s.handled.state log)) := h.after log

/-- Is the event about another group, or about none? -/
def Event.Ignored (slot : Option GroupCache) : Event → Prop
  | .addGroupRank _ m => m.rankInfo.groupUid = INT_MAX ∨ m.rankInfo.groupRank = INVALID_RANK
  | .revokeFromRank info => info.groupUid = INT_MAX
  | .cacheSent | .revokeSent => slot = none
  | _ => False

theorem handle_of_ignored {slot : Option GroupCache} {ev : Event} (h : ev.Ignored slot) :
    handle ctx slot ev = (slot, []) := by
  cases ev with
  | addGroupRank c m => exact if_pos h
  | revokeFromRank info => exact if_pos h
  | cacheSent | revokeSent => cases h; rfl
  | peerCacheEntries _ _ | revokeFromSp _ | requestAdd _ | requestRevoke _ => exact h.elim

/-- **A callback is a sequence of actions**, from its start with the event's message in
hand to its end with nothing in hand, whatever was emitted before. -/
theorem handle_acts (hu : ctx.gpUid ≠ INT_MAX) (slot : Option GroupCache) (log : List Effect) {ev : Event}
    (hi : ¬ ev.Ignored slot) (hs : (slot.getD newGroupCache).Sized Sz) (hsz : ev.Sizes Sz)
    (hT : ev.Applies ctx T (slot.getD newGroupCache))
    (hd : ∀ m i, ev = .requestAdd m ∨ ev = .requestRevoke i → ctx.onDpu = false) :
    Acts ctx Sz T (ev.enter ctx ⟨slot.getD newGroupCache, log⟩) (Work.start ((handle ctx slot ev).state log)) := by
  set g := slot.getD newGroupCache with hg
  have hlog : (⟨g, log⟩ : GpState) = GpState.after log ⟨g, []⟩ := by simp [GpState.after]
  rw [hlog]
  cases ev with
  | addGroupRank c m =>
    have hi : ¬ (m.rankInfo.groupUid = INT_MAX ∨ m.rankInfo.groupRank = INVALID_RANK) := hi
    simp only [handle, doAddGroupRankRecvCb]
    rw [if_neg hi, getGroupCacheInternal_getD, ← hg]
    obtain ⟨h, -⟩ := doAddGroupRank_acts (T := T) hu
      { Work.start ⟨getGroupCacheInternal ctx.gpUid (some g) m.rankInfo.groupSize, []⟩ with adds := [⟨c, m⟩] } rfl
      (live_lookup hu g _) rfl rfl hsz (by simpa [GroupCache.parked, Work.start] using hs.parked)
    exact acts_handled log ((lookup_acts { Work.start ⟨g, []⟩ with adds := [⟨c, m⟩] } hsz).trans h)
  | peerCacheEntries sp batch =>
    simp only [handle, peerCacheEntriesRecvCb]
    rw [getGroupCacheInternal_getD, ← hg]
    have hlook : Acts ctx Sz T { Work.start ⟨g, []⟩ with batch := batch } _ := lookup_acts _ hsz
    split
    · rename_i hp
      exact acts_handled log (hlook.tail (.parkEntries sp hsz (live_lookup hu g _) (hp.imp id (by simp [Work.start]))))
    · rename_i hp
      rw [not_or, Nat.pos_iff_ne_zero, not_not, Bool.not_eq_true, Bool.not_eq_false'] at hp
      obtain ⟨h, -, -⟩ := handlePeerCacheEntriesRecv_acts (T := T) hu batch [] hsz
        { Work.start ⟨getGroupCacheInternal ctx.gpUid (some g) (batchGroupSize batch), []⟩ with ents := batch }
        (by simp) hp.1
      exact acts_handled log ((hlook.tail (.takeBatch (live_lookup hu g _) rfl hp.1 hp.2)).trans h)
  | revokeFromRank info =>
    have hi : ¬ info.groupUid = INT_MAX := hi
    simp only [handle, handleRevokeGroupRankThroughRankInfo]
    rw [if_neg hi, getGroupCacheInternal_getD, ← hg]
    have h := @handleRankRevoke_acts ctx Sz T (getGroupCacheInternal ctx.gpUid (some g) info.groupSize) info
      (live_lookup hu g _) (hT _ rfl)
    exact acts_handled log ((lookup_acts { Work.start ⟨g, []⟩ with rankRevs := [info] } hsz).trans h)
  | revokeFromSp m =>
    simp only [handle, handleRevokeGroupRankThroughListRanks, Event.enter]
    rw [getGroupCacheInternal_getD, ← hg]
    split
    · have h := @handleSpRevoke_acts ctx Sz T (getGroupCacheInternal ctx.gpUid (some g) m.groupSize) m
        (live_lookup hu g _) (hT ‹_› _ rfl)
      exact acts_handled log ((lookup_acts { Work.start ⟨g, []⟩ with revs := [m] } hsz).trans h)
    · have h := handleFinalRevoke_acts (T := T) hu (by simpa using ‹¬ ctx.onDpu = true›)
        (getGroupCacheInternal ctx.gpUid (some g) m.groupSize) (by simpa [GroupCache.parked] using hs.parked)
      exact acts_handled log ((lookup_acts { Work.start ⟨g, []⟩ with final := true } hsz).trans h)
  | cacheSent =>
    cases slot with
    | none => exact absurd rfl hi
    | some g' => exact acts_handled log (groupCacheSendToLocalRanksCb_acts g' hT)
  | revokeSent =>
    cases slot with
    | none => exact absurd rfl hi
    | some g' => exact acts_handled log (revokeSendToHostCb_acts (T := T) hu g' hs.adds hs.parked)
  | requestAdd m =>
    have hd := hd m m.rankInfo (.inl rfl)
    simp only [handle, sendAddGroupRankRequest]
    rw [getGroupCacheInternal_getD, ← hg]
    have hlook : Acts ctx Sz T { Work.start ⟨g, []⟩ with reqs := [m] } _ := lookup_acts _ hsz
    split
    · exact acts_handled log (hlook.tail (.hostAdd hd rfl))
    · exact acts_handled log (hlook.tail (.hostPark hd rfl (Nat.pos_of_ne_zero ‹_›)))
  | requestRevoke info =>
    have hd := hd ⟨info, []⟩ info (.inr rfl)
    simp only [handle, sendRevokeGroupRankRequestThroughRankInfo]
    rw [getGroupCacheInternal_getD, ← hg]
    exact acts_handled log ((lookup_acts (T := T) (Work.start ⟨g, []⟩) hsz).tail (.hostRevoke info hd))

/-- **A step of an engine is a sequence of actions**, or leaves everything as it is. -/
theorem Engine.step_acts (hu : ctx.gpUid ≠ INT_MAX) {e e' : Engine} {ev : Event} (h : e.step ctx ev = some e')
    (hs : e.gp.Sized Sz) (hsz : ev.Sizes Sz) (hT : ev.Applies ctx T e.gp) :
    (ev.Ignored e.slot ∧ e'.gp = e.gp ∧ e'.log = e.log) ∨
      Acts ctx Sz T (ev.enter ctx ⟨e.gp, e.log⟩) (Work.start ⟨e'.gp, e'.log⟩) := by
  obtain ⟨hen, hslot, hlog, -⟩ := Engine.step_eq_some h
  by_cases hi : ev.Ignored e.slot
  · rw [handle_of_ignored hi] at hslot hlog
    exact .inl ⟨hi, by rw [Engine.gp, hslot]; rfl, by simp [hlog]⟩
  · refine .inr ?_
    have := handle_acts (T := T) hu e.slot e.log hi hs hsz hT fun m i hor => by
      rcases hor with rfl | rfl <;> simpa [Engine.enabled] using hen
    simpa only [Handled.state, Engine.gp, hslot, hlog] using this

/-- A group between two events. -/
abbrev Engine.work (e : Engine) : Work := Work.start ⟨e.gp, e.log⟩

theorem Event.applies_true (ev : Event) (g : GroupCache) : ev.Applies ctx (fun _ => True) g := by
  cases ev <;> simp [Event.Applies]

end DpuOffload
