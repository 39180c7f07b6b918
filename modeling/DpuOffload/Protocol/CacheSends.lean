import DpuOffload.Bootstrap.FanOut
import DpuOffload.Cache.Connect
import DpuOffload.Protocol.Actions

/-!
# How often the cache of a group is sent to the local ranks

Three callbacks of an SP send the cache of a complete group to the local ranks:
`handle_peer_cache_entries_recv`, `broadcast_group_cache` and
`local_rank_connect_default_callback`. `send_gp_cache_to_host` does nothing if the version in
`sent_to_host` is the group's; that is written by the completion callback of the sends
(`group_cache_send_to_local_ranks_cb`) and not when they are posted.

`Sender` is a group of an SP with the sends posted so far, and those in flight. The three
callbacks come in any order, between the other ways a group changes; the callback of a send in
flight runs at any time.

* `cache_sent_once` — **each version goes to each rank once** in every run in which
  `send_gp_cache_to_host` is not called for a version whose sends are in flight.
* `cache_sent_twice` — a run in which it is.
-/

namespace DpuOffload

open Transition

/-- A group of an SP and the sends of its cache. -/
structure Sender where
  /-- The group cache. -/
  gp : GroupCache
  /-- What was posted: the slot of the rank, and the version. -/
  sent : List (ℕ × ℕ)
  /-- The versions whose sends are in flight. -/
  inFlight : List ℕ

/-- A group that the SP has not heard of. -/
def Sender.start : Sender where
  gp := newGroupCache
  sent := []
  inFlight := []

/-- What happens to the group. -/
inductive SenderAct where
  /-- `handle_peer_cache_entries_recv`. -/
  | recv (batch : List PeerCacheEntry)
  /-- `broadcast_group_cache`. -/
  | broadcast
  /-- `local_rank_connect_default_callback`. -/
  | connected (info : RankInfo)
  /-- The callback of sends in flight runs. -/
  | completion (version : ℕ)
  /-- The group is looked up. -/
  | lookup (size : ℤ)
  /-- A local rank is added, `do_add_group_rank_recv_cb` up to the exchange. -/
  | addLocal (clientId : ℕ) (msg : GroupAddMsg)
  /-- `add_cache_entry_for_new_client`. -/
  | newClient (clientId : ℕ) (info : RankInfo)
  /-- The group is revoked; the batches put aside are received after it. -/
  | reset

/-- The group cache with which a callback calls `send_gp_cache_to_host`, if it does. -/
def callsSend (ctx : GpCtx) (g : GroupCache) : SenderAct → Option GroupCache
  | .recv batch =>
    let g := getGroupCacheInternal ctx.gpUid (some g) (batchGroupSize batch)
    let r := batch.foldl (recvPeerEntry ctx (batchGroupSize batch)) (g, 0)
    let allRanksAreLocal : Bool := ctx.numServiceProcsPerDpu == 1 && r.1.groupSize == r.1.nLocalRanks
    if ctx.onDpu ∧ 0 < r.2 ∧ 0 < r.1.groupSize ∧ r.1.full ∧ !allRanksAreLocal then some r.1 else none
  | .broadcast => if ctx.allServiceProcsConnected ∧ g.full then some g else none
  | .connected info =>
    let g := getGroupCacheInternal ctx.gpUid (some g) info.groupSize
    if info.groupUid ≠ INT_MAX ∧ g.full then some g else none
  | _ => none

/-- What a callback does to the group, with what it emits. -/
def SenderAct.run (ctx : GpCtx) (g : GroupCache) : SenderAct → GpState
  | .recv batch => handlePeerCacheEntriesRecv ctx ⟨g, []⟩ batch
  | .broadcast => broadcastGroupCache ctx ⟨g, []⟩
  | .connected info =>
    let r := localRankConnectDefaultCallback ctx (some g, []) info
    ⟨r.1.getD g, r.2⟩
  | .completion _ => groupCacheSendToLocalRanksCb g
  | .lookup size => ⟨getGroupCacheInternal ctx.gpUid (some g) size, []⟩
  | .addLocal c m =>
    let g := (getGroupCacheInternal ctx.gpUid (some g) m.rankInfo.groupSize).learnGroupSize ctx.hosts
      m.rankInfo.groupSize
    ⟨if g.isSet (sizeT m.rankInfo.groupRank) then g else g.addGroupRank ctx c m, []⟩
  | .newClient c info => ⟨addCacheEntryForNewClient ctx (some g) c info, []⟩
  | .reset => ⟨resetGroupCache g, [.revoked g.persistent.num]⟩

/-- The sends a callback posts while `k` clients are connected: the slots of the loop of
`send_gp_cache_to_host`, and the version they are of. -/
def posts (k : ℕ) (s : GpState) : List (ℕ × ℕ) :=
  if s.out.any Effect.isCacheToRanks then
    (sendLoop [.groupCache s.gp.groupUid] k 0).map fun p => (p.1, s.gp.persistent.num)
  else []

/-- Each slot of the loop is another. -/
theorem nodup_posts (k : ℕ) (s : GpState) : (posts k s).Nodup := by
  have hslots : ∀ (m : HostMsg) (n idx : ℕ), (sendLoop [m] n idx).map Prod.fst = List.range' idx n := by
    intro m n
    induction n with
    | zero => exact fun _ => rfl
    | succ n ih =>
      intro idx
      rw [sendLoop, List.map_append, ih, List.range'_succ]
      rfl
  unfold posts
  split
  · apply List.Nodup.of_map Prod.fst
    rw [List.map_map]
    exact (hslots (.groupCache s.gp.groupUid) k 0).symm ▸ List.nodup_range'
  · exact List.nodup_nil

theorem snd_of_mem_posts {k : ℕ} {s : GpState} {p : ℕ × ℕ} (h : p ∈ posts k s) : p.2 = s.gp.persistent.num := by
  unfold posts at h
  split at h
  · obtain ⟨q, -, rfl⟩ := List.mem_map.1 h
    rfl
  · exact absurd h List.not_mem_nil

/-- One step: an act, and the number of clients connected. -/
def Sender.step (ctx : GpCtx) (s : Sender) (a : SenderAct × ℕ) : Option Sender :=
  let r := a.1.run ctx s.gp
  let new := if r.out.any Effect.isCacheToRanks then [r.gp.persistent.num] else []
  let inFlight := s.inFlight ++ new
  match a.1 with
  | .completion v =>
    if v ∈ s.inFlight then some ⟨r.gp, s.sent ++ posts a.2 r, inFlight.erase v⟩ else none
  | _ => some ⟨r.gp, s.sent ++ posts a.2 r, inFlight⟩

/-- `send_gp_cache_to_host` is not called for a version whose sends are in flight. -/
def Sender.Patient (ctx : GpCtx) (s : Sender) (a : SenderAct × ℕ) : Prop :=
  ∀ g, callsSend ctx s.gp a.1 = some g → g.persistent.num ∉ s.inFlight

/-! ### What the callbacks do to the version -/

variable {ctx : GpCtx} {g : GroupCache}

/-- A callback that does not send leaves `sent_to_host` and goes at most forward with the
version. -/
structure Forward (g g' : GroupCache) : Prop where
  /-- The version. -/
  num : g.persistent.num ≤ g'.persistent.num
  /-- The version sent. -/
  sent : g'.persistent.sentToHost = g.persistent.sentToHost

theorem Forward.refl (g : GroupCache) : Forward g g := ⟨Nat.le_refl _, rfl⟩

theorem Forward.trans {g₁ g₂ g₃ : GroupCache} (h : Forward g₁ g₂) (h' : Forward g₂ g₃) : Forward g₁ g₃ :=
  ⟨h.num.trans h'.num, h'.sent.trans h.sent⟩

theorem Forward.of_eq {g g' : GroupCache} (h : g'.persistent = g.persistent) : Forward g g' := by
  constructor <;> rw [h]

theorem forward_lookup (g : GroupCache) (size : ℤ) : Forward g (getGroupCacheInternal ctx.gpUid (some g) size) := by
  refine .of_eq ?_
  unfold getGroupCacheInternal
  dsimp only
  split <;> rfl

theorem forward_switchVersion (g : GroupCache) : Forward g g.switchVersion := by
  unfold GroupCache.switchVersion
  split
  · exact ⟨Nat.le_succ _, rfl⟩
  · exact .refl g

theorem forward_addPeerEntry (g : GroupCache) (e : PeerCacheEntry) : Forward g (g.addPeerEntry ctx e) := by
  obtain ⟨t, ht⟩ := addPeerEntry_eq ctx g e
  rw [ht]
  exact (forward_switchVersion g).trans (.of_eq rfl)

theorem forward_recv (size : ℤ) (batch : List PeerCacheEntry) (acc : GroupCache × ℕ) :
    Forward acc.1 (batch.foldl (recvPeerEntry ctx size) acc).1 := by
  induction batch generalizing acc with
  | nil => exact .refl _
  | cons e batch ih =>
    refine Forward.trans ?_ (ih _)
    have hl : Forward acc.1 (acc.1.learnGroupSize ctx.hosts size) := .of_eq (learnGroupSize_persistent _ _ _)
    unfold recvPeerEntry
    dsimp only
    split
    · exact hl
    · exact hl.trans (forward_addPeerEntry _ e)

/-- **What a callback does**: without sends, it goes forward; with sends, it has called
`send_gp_cache_to_host` for a version that was not sent. -/
structure RunSpec (ctx : GpCtx) (g : GroupCache) (a : SenderAct) (r : GpState) : Prop where
  /-- The version goes forward. -/
  num : g.persistent.num ≤ r.gp.persistent.num
  /-- So does the version sent. -/
  sent : g.persistent.sentToHost ≤ r.gp.persistent.sentToHost
  /-- What was sent has been a version of the group. -/
  le : r.gp.persistent.sentToHost ≤ r.gp.persistent.num
  /-- Sends are posted by a call, for the version of the group. -/
  call : r.out.any Effect.isCacheToRanks = true → r.gp.persistent.sentToHost < r.gp.persistent.num ∧
    ∃ g', callsSend ctx g a = some g' ∧ g'.persistent.num = r.gp.persistent.num

/-- A callback that sends nothing. -/
theorem RunSpec.of_forward {a : SenderAct} {r : GpState} (hle : g.persistent.sentToHost ≤ g.persistent.num)
    (h : Forward g r.gp) (ho : r.out.any Effect.isCacheToRanks = false) : RunSpec ctx g a r where
  num := h.num
  sent := h.sent.ge
  le := h.sent.le.trans (hle.trans h.num)
  call hc := by
    rw [ho] at hc
    cases hc

/-- A callback that ends with a call. -/
theorem RunSpec.of_call {a : SenderAct} {g' : GroupCache} {out : List Effect}
    (hle : g.persistent.sentToHost ≤ g.persistent.num) (h : Forward g g') (hc : callsSend ctx g a = some g')
    (ho : out.any Effect.isCacheToRanks = false) : RunSpec ctx g a (sendGpCacheToHost ⟨g', out⟩) := by
  unfold sendGpCacheToHost
  split
  · rename_i hlt
    exact ⟨h.num, h.sent.ge, Nat.le_of_lt hlt, fun _ => ⟨hlt, g', hc, rfl⟩⟩
  · exact .of_forward hle h ho

/-- Taking up the messages of SPs that were put aside sends nothing and leaves the version. -/
theorem handlePending_spec (s : GpState) (ho : s.out.any Effect.isCacheToRanks = false) :
    (handlePendingGroupRevokeMsgsFromSps s).1.gp.persistent.num = s.gp.persistent.num ∧
      (handlePendingGroupRevokeMsgsFromSps s).1.gp.persistent.sentToHost = s.gp.persistent.sentToHost ∧
      (handlePendingGroupRevokeMsgsFromSps s).1.out.any Effect.isCacheToRanks = false := by
  have key : ∀ (ms : List GroupRevokeMsgFromSp) (acc : GpState × ℕ), acc.1.out.any Effect.isCacheToRanks = false →
      (ms.foldl handlePendingRevokeMsg acc).1.gp.persistent = acc.1.gp.persistent ∧
        (ms.foldl handlePendingRevokeMsg acc).1.out.any Effect.isCacheToRanks = false := by
    intro ms
    induction ms with
    | nil => exact fun acc hacc => ⟨rfl, hacc⟩
    | cons m ms ih =>
      intro acc hacc
      have hstep : (handlePendingRevokeMsg acc m).1.out.any Effect.isCacheToRanks = false := by
        simp only [handlePendingRevokeMsg, List.any_append, hacc, Bool.false_or, marksOf, List.any_map]
        exact List.any_eq_false.2 fun r _ => Bool.false_ne_true
      exact ih (handlePendingRevokeMsg acc m) hstep
  unfold handlePendingGroupRevokeMsgsFromSps
  obtain ⟨hp, hout⟩ := key s.gp.persistent.pendingGroupRevokeMsgsFromSps
    ({ s with gp := { s.gp with persistent := { s.gp.persistent with pendingGroupRevokeMsgsFromSps := [] } } }, 0) ho
  refine ⟨?_, ?_, hout⟩
  · rw [hp]
  · rw [hp]

/-- The completion of sends. -/
theorem completion_spec (a : SenderAct) (hle : g.persistent.sentToHost ≤ g.persistent.num) :
    RunSpec ctx g a (groupCacheSendToLocalRanksCb g) ∧
      (groupCacheSendToLocalRanksCb g).gp.persistent.sentToHost = g.persistent.num ∧
      (groupCacheSendToLocalRanksCb g).gp.persistent.num = g.persistent.num := by
  obtain ⟨hn, hs, ho⟩ := handlePending_spec
    ⟨{ g with persistent := { g.persistent with sentToHost := g.persistent.num } }, []⟩ rfl
  have hn : _ = g.persistent.num := hn
  have hs : _ = g.persistent.num := hs
  have hspec : (groupCacheSendToLocalRanksCb g).gp.persistent.sentToHost = g.persistent.num ∧
      (groupCacheSendToLocalRanksCb g).gp.persistent.num = g.persistent.num ∧
      (groupCacheSendToLocalRanksCb g).out.any Effect.isCacheToRanks = false := by
    unfold groupCacheSendToLocalRanksCb
    dsimp only
    split
    · refine ⟨hs, hn, ?_⟩
      simp only [sendRevokeGroupToRanks, List.any_append, ho, Bool.false_or]
      rfl
    · exact ⟨hs, hn, ho⟩
  obtain ⟨h₁, h₂, h₃⟩ := hspec
  refine ⟨⟨h₂.ge, h₁ ▸ hle, by rw [h₁, h₂], fun hc => ?_⟩, h₁, h₂⟩
  rw [h₃] at hc
  cases hc

theorem broadcast_out (g : GroupCache) : (Effect.broadcast :: if 1 < ctx.numServiceProcs then broadcastMsgs ctx g
    else []).any Effect.isCacheToRanks = false := by
  refine List.any_eq_false.2 fun x hx => ?_
  rcases List.mem_cons.1 hx with rfl | hx
  · exact Bool.false_ne_true
  · split at hx
    · obtain ⟨dest, -, hx⟩ := List.mem_flatMap.1 hx
      obtain ⟨batch, -, rfl⟩ := List.mem_map.1 hx
      exact Bool.false_ne_true
    · exact absurd hx List.not_mem_nil

/-- **Every callback is as described.** -/
theorem run_spec (ctx : GpCtx) (a : SenderAct) (hle : g.persistent.sentToHost ≤ g.persistent.num) :
    RunSpec ctx g a (a.run ctx g) := by
  cases a with
  | recv batch =>
    have hf : Forward g (batch.foldl (recvPeerEntry ctx (batchGroupSize batch))
        (getGroupCacheInternal ctx.gpUid (some g) (batchGroupSize batch), 0)).1 :=
      (forward_lookup g _).trans (forward_recv _ batch (_, 0))
    show RunSpec ctx g _ (handlePeerCacheEntriesRecv ctx ⟨g, []⟩ batch)
    unfold handlePeerCacheEntriesRecv
    dsimp only
    split
    · rename_i hg
      exact .of_call hle hf (if_pos hg) rfl
    · exact .of_forward hle hf rfl
  | broadcast =>
    show RunSpec ctx g _ (broadcastGroupCache ctx ⟨g, []⟩)
    unfold broadcastGroupCache
    split
    · exact .of_forward hle (.refl g) rfl
    · rename_i hcon
      rw [Bool.not_eq_true, Bool.not_eq_false'] at hcon
      simp only [GpState.emit, List.nil_append]
      split
      · rename_i hfull
        exact .of_call hle (.refl g) (if_pos ⟨hcon, hfull⟩) (broadcast_out g)
      · exact .of_forward hle (.refl g) (broadcast_out g)
  | connected info =>
    show RunSpec ctx g _ ⟨(localRankConnectDefaultCallback ctx (some g, []) info).1.getD g,
      (localRankConnectDefaultCallback ctx (some g, []) info).2⟩
    unfold localRankConnectDefaultCallback
    split
    · exact .of_forward hle (.refl g) rfl
    · rename_i hu
      dsimp only
      split
      · rename_i hfull
        exact .of_call hle (forward_lookup g _) (if_pos ⟨hu, hfull⟩) rfl
      · exact .of_forward hle (forward_lookup g _) rfl
  | completion v => exact (completion_spec _ hle).1
  | lookup size => exact .of_forward hle (forward_lookup g size) rfl
  | addLocal c m =>
    have hl : Forward g ((getGroupCacheInternal ctx.gpUid (some g) m.rankInfo.groupSize).learnGroupSize ctx.hosts
        m.rankInfo.groupSize) := (forward_lookup g _).trans (.of_eq (learnGroupSize_persistent _ _ _))
    refine .of_forward hle ?_ rfl
    simp only [SenderAct.run]
    split
    · exact hl
    · apply hl.trans
      obtain ⟨t, k, sp, ht, -⟩ := addGroupRank_eq ctx ((getGroupCacheInternal ctx.gpUid (some g)
        m.rankInfo.groupSize).learnGroupSize ctx.hosts m.rankInfo.groupSize) c m
      rw [ht]
      exact (forward_switchVersion _).trans (.of_eq rfl)
  | newClient c info =>
    have hlook : Forward g (getGroupCacheInternal ctx.gpUid (some g) info.groupSize) := forward_lookup g _
    refine .of_forward hle (hlook.trans ?_) rfl
    simp only [SenderAct.run, addCacheEntryForNewClient]
    generalize getGroupCacheInternal ctx.gpUid (some g) info.groupSize = g₀
    have hmid : Forward g₀ (if g₀.persistent.num = 0 then
        { g₀ with persistent := { g₀.persistent with num := 1 } } else g₀) := by
      split
      · rename_i h0
        exact ⟨h0.le.trans (Nat.zero_le _), rfl⟩
      · exact .refl _
    exact hmid.trans (.of_eq (learnGroupSize_persistent _ _ _))
  | reset => exact .of_forward hle (.of_eq rfl) rfl

/-! ### Runs -/

/-- What is known of the sends. -/
structure Sender.Once (s : Sender) : Prop where
  /-- Nothing was posted twice. -/
  nodup : s.sent.Nodup
  /-- The version sent has been a version of the group. -/
  le : s.gp.persistent.sentToHost ≤ s.gp.persistent.num
  /-- What was posted is in flight, or its version was sent. -/
  sent : ∀ p ∈ s.sent, p.2 ∈ s.inFlight ∨ p.2 ≤ s.gp.persistent.sentToHost
  /-- What is in flight has been a version of the group. -/
  flight : ∀ v ∈ s.inFlight, v ≤ s.gp.persistent.num

namespace Sender.Once

variable {s s' : Sender}

/-- What one callback adds. -/
theorem run {a : SenderAct} (k : ℕ) (h : s.Once)
    (hp : ∀ g, callsSend ctx s.gp a = some g → g.persistent.num ∉ s.inFlight) :
    ({ gp := (a.run ctx s.gp).gp
       sent := s.sent ++ posts k (a.run ctx s.gp)
       inFlight := s.inFlight ++
         if (a.run ctx s.gp).out.any Effect.isCacheToRanks then [(a.run ctx s.gp).gp.persistent.num] else [] } :
      Sender).Once := by
  have hr := run_spec ctx a h.le
  generalize a.run ctx s.gp = r at hr
  have hflight : ∀ v ∈ s.inFlight, v ≤ r.gp.persistent.num := fun v hv => (h.flight v hv).trans hr.num
  have hsent : ∀ p ∈ s.sent, p.2 ∈ s.inFlight ∨ p.2 ≤ r.gp.persistent.sentToHost :=
    fun p hp => (h.sent p hp).imp id fun hle => hle.trans hr.sent
  by_cases hc : r.out.any Effect.isCacheToRanks = true
  · obtain ⟨hlt, g', hcall, hnum⟩ := hr.call hc
    have hnot : r.gp.persistent.num ∉ s.inFlight := hnum ▸ hp g' hcall
    -- the version was not posted before: it is not in flight, and it was not sent
    have hnew : ∀ p ∈ s.sent, p.2 ≠ r.gp.persistent.num := by
      intro p hps he
      rcases hsent p hps with hf | hle
      · exact hnot (he ▸ hf)
      · omega
    rw [if_pos hc]
    refine ⟨?_, hr.le, ?_, ?_⟩
    · apply List.Nodup.append h.nodup (nodup_posts k r)
      intro p hps hpn
      exact hnew p hps (snd_of_mem_posts hpn)
    · intro p hps
      rcases List.mem_append.1 hps with hps | hps
      · exact (hsent p hps).imp (List.mem_append_left _) id
      · rw [snd_of_mem_posts hps]
        exact .inl (List.mem_append_right _ (List.mem_singleton_self _))
    · intro v hv
      rcases List.mem_append.1 hv with hv | hv
      · exact hflight v hv
      · exact (List.mem_singleton.1 hv).le
  · simp only [posts, hc, Bool.false_eq_true, if_false, List.append_nil]
    exact ⟨h.nodup, hr.le, hsent, hflight⟩

/-- **Every step keeps it.** -/
theorem step {a : SenderAct × ℕ} (h : s.Once) (hp : s.Patient ctx a) (hs : s.step ctx a = some s') : s'.Once := by
  obtain ⟨a, k⟩ := a
  have hrun := h.run k hp
  cases a with
  | completion v =>
    simp only [Sender.step] at hs
    split at hs
    · rename_i hv
      cases hs
      obtain ⟨-, hsent, hnum⟩ := @completion_spec ctx _ (.completion v) h.le
      refine ⟨hrun.nodup, hrun.le, fun p hps => ?_, fun w hw => hrun.flight w (List.mem_of_mem_erase hw)⟩
      rcases hrun.sent p hps with hf | hle
      · by_cases he : p.2 = v
        · refine .inr ?_
          have : p.2 ≤ s.gp.persistent.num := he ▸ h.flight v hv
          exact this.trans hsent.ge
        · exact .inl ((List.mem_erase_of_ne he).2 hf)
      · exact .inr hle
    · cases hs
  | recv _ | broadcast | connected _ | lookup _ | addLocal _ _ | newClient _ _ | reset =>
    cases hs
    exact hrun

end Sender.Once

/-- **The cache of a version of a group is posted to a rank at most once**, in every run in
which `send_gp_cache_to_host` is not called for a version whose sends are in flight. -/
theorem cache_sent_once {s : Sender} (h : Reach (Sender.step ctx) (Sender.Patient ctx) Sender.start s) :
    s.sent.Nodup := by
  have hk : s.Once := by
    refine h.invariant ⟨List.nodup_nil, Nat.le_refl _, ?_, ?_⟩ fun s a s' hI hp hs => hI.step hp hs
    · exact fun p hp => absurd hp List.not_mem_nil
    · exact fun v hv => absurd hv List.not_mem_nil
  exact hk.nodup

instance Sender.decidablePatient (ctx : GpCtx) (s : Sender) (a : SenderAct × ℕ) : Decidable (s.Patient ctx a) :=
  decidable_of_iff ((callsSend ctx s.gp a.1).all (fun g => decide (g.persistent.num ∉ s.inFlight)) = true) (by
    unfold Sender.Patient
    cases callsSend ctx s.gp a.1 <;> simp)

/-- An SP without others. -/
def soloCtx : GpCtx where
  gpUid := 5
  onDpu := true
  numServiceProcs := 1
  numConnectedServiceProcs := 0
  numServiceProcsPerDpu := 1
  globalId := 0
  localId := 0
  hostUid := 70
  hosts := ⟨1, [(70, 0)]⟩
  cacheSize := 1
  world := none
  peerAddr := fun _ => [1]

/-- The only rank of a group. -/
def soloInfo : RankInfo where
  groupUid := 5
  groupRank := 0
  groupSize := 1
  nLocalRanks := 1
  localRank := 0
  hostInfo := 70
  groupSeqNum := 1

/-- The only rank connects, its group is broadcast, the sends complete and the callback of the
server runs. -/
theorem cache_sent_once_solo : ∃ s, Reach (Sender.step soloCtx) (Sender.Patient soloCtx) Sender.start s ∧
    s.sent = [(0, 1)] ∧ s.sent.Nodup := by
  have hrun : ∃ s, Reach (Sender.step soloCtx) (Sender.Patient soloCtx) Sender.start s ∧ s.sent = [(0, 1)] :=
    exists_reach_of_exec [(.newClient 0 soloInfo, 1), (.broadcast, 1), (.completion 1, 1), (.connected soloInfo, 1)]
      (by decide)
  obtain ⟨s, hs, hl⟩ := hrun
  exact ⟨s, hs, hl, cache_sent_once hs⟩

/-- **Not in every run.** The callback of the server runs before the sends complete, as it does
in `finalize_client_connection`, and the rank gets the cache twice. -/
theorem cache_sent_twice : ¬ ∀ ctx s, Reach (Sender.step ctx) (fun _ _ => True) Sender.start s → s.sent.Nodup := by
  intro h
  have hrun : ∃ s, Reach (Sender.step soloCtx) (fun _ _ => True) Sender.start s ∧ s.sent = [(0, 1), (0, 1)] :=
    exists_reach_of_exec [(.newClient 0 soloInfo, 1), (.broadcast, 1), (.connected soloInfo, 1)] (by decide)
  obtain ⟨s, hs, hl⟩ := hrun
  have hn := h soloCtx s hs
  rw [hl] at hn
  exact absurd hn (by decide)

example : (finalizeClientConnection soloCtx none 0 soloInfo).2.countP Effect.isCacheToRanks = 2 := by decide

end DpuOffload
