import DpuOffload.Protocol.Messages
import DpuOffload.Protocol.Site

/-!
# Agreement of the group caches

The cache of a group is replicated: every SP gets the entries of its own ranks from the
ranks and all others from the other SPs. `agree_of_reach` says that during one version of
the group any two SPs agree on each entry they both have, and that an SP that counts as many
entries as the group has ranks has them all. Ranks join in any order and messages between
SPs take any time; what an SP knows of the world group, and so when it sends its entries,
does not matter.

Each rank joins once, through its SP, so its entry is known beforehand (`Cluster.entry`):
it is what its SP writes when it joins. Every entry set in a cache, on its way, or put aside
is that entry (`Faithful.act`).
-/

namespace DpuOffload

open Relation Transition

/-! ### What the callbacks keep -/

/-- Is the effect, if it is a message to an SP, the entry of a rank? -/
def Effect.Relays (n : ℕ) (canon : ℕ → PeerCacheEntry) : Effect → Prop
  | .entriesToSp _ batch => ∃ r < n, batch = [canon r]
  | .revokeToSp _ _ => False
  | _ => True

/-- Messages about a group of `n` ranks with the entries `canon`, while nobody revokes it. -/
def relaySpec (ctx : GpCtx) (n : ℕ) (canon : ℕ → PeerCacheEntry) : MsgSpec where
  entry e := ∃ r < n, e = canon r
  add p := p.data.rankInfo.rank < n ∧ localEntry ctx p.clientId p.data.rankInfo = canon p.data.rankInfo.rank
  rankRev _ := False
  rev _ := False

/-- **A cache that has the entries `canon` and no others**, in the middle of any callback. -/
structure Faithful (n : ℕ) (canon : ℕ → PeerCacheEntry) (w : Work) : Prop where
  /-- A group not in use is empty. -/
  dead : ¬ w.gp.Live → w.gp.ranks = none ∧ w.gp.numLocalEntries = 0
  /-- A group in use has an entry for each rank. -/
  live : w.gp.Live → w.gp.entries.length = n
  /-- The size is known or not. -/
  size : w.gp.groupSize = 0 ∨ w.gp.groupSize = n
  /-- An entry that is set is the right one. -/
  right : ∀ r, w.gp.isSet r = true → w.gp.entryAt r = canon r
  /-- One that is not lists no SP. -/
  blank : ∀ r, w.gp.isSet r = false → (w.gp.entryAt r).shadowServiceProcs = []
  /-- `num_local_entries` counts those that are set. -/
  count : w.gp.numLocalEntries = ((Finset.range n).filter fun r => w.gp.isSet r = true).card
  /-- What was sent to SPs is right. -/
  sent : ∀ x ∈ w.out, x.Relays n canon

/-- Entries that are those of `n` ranks. -/
structure Canonical (n : ℕ) (canon : ℕ → PeerCacheEntry) : Prop where
  /-- They are set. -/
  set : ∀ r < n, (canon r).set = true
  /-- They name the rank. -/
  rank : ∀ r < n, (canon r).peer.procInfo.rank = r
  /-- A rank is valid. -/
  valid : ∀ r < n, (canon r).peer.procInfo.groupRank ≠ INVALID_RANK
  /-- They announce the size. -/
  size : ∀ r < n, (canon r).peer.procInfo.groupSize = n

variable {ctx : GpCtx} {n : ℕ} {canon : ℕ → PeerCacheEntry} {T : Tally → Prop}

/-- An action that leaves the entries alone. -/
theorem Faithful.of_eq {w w' : Work} (h : Faithful n canon w) (hr : w'.gp.ranks = w.gp.ranks)
    (hu : w'.gp.groupUid = w.gp.groupUid) (hs : w'.gp.groupSize = w.gp.groupSize ∨ w'.gp.groupSize = n)
    (hn : w'.gp.numLocalEntries = w.gp.numLocalEntries) (hout : ∀ x ∈ w'.out, x.Relays n canon) :
    Faithful n canon w' := by
  have hset : w'.gp.isSet = w.gp.isSet := funext fun r => isSet_congr hr r
  have hat : w'.gp.entryAt = w.gp.entryAt := by
    funext r
    simp only [GroupCache.entryAt, GroupCache.entries, hr]
  refine ⟨?_, ?_, ?_, ?_, ?_, ?_, hout⟩
  · rw [GroupCache.Live, hu, hr, hn]; exact h.dead
  · rw [GroupCache.Live, hu, GroupCache.entries, hr]; exact h.live
  · exact hs.elim (fun hs => by rw [hs]; exact h.size) .inr
  · rw [hset, hat]; exact h.right
  · rw [hset, hat]; exact h.blank
  · rw [hset, hn]; exact h.count

/-- An action that adds the entry of a rank. -/
theorem Faithful.add {w w' : Work} (h : Faithful n canon w) (hl : w.gp.Live) {r : ℕ} (hrn : r < n)
    (hset : w.gp.isSet r = false) (hc : (canon r).set = true) (hr : w'.gp.ranks = w.gp.ranks.map (·.set r (canon r)))
    (hu : w'.gp.groupUid = w.gp.groupUid) (hs : w'.gp.groupSize = w.gp.groupSize)
    (hn : w'.gp.numLocalEntries = w.gp.numLocalEntries + 1) (hout : ∀ x ∈ w'.out, x.Relays n canon) :
    Faithful n canon w' := by
  have hat : ∀ q, w'.gp.entryAt q = if q = r then canon r else w.gp.entryAt q :=
    entryAt_map_set (hrn.trans_eq (h.live hl).symm) hr
  have hset' : ∀ q, w'.gp.isSet q = if q = r then true else w.gp.isSet q := by
    intro q
    rw [GroupCache.isSet, hat]
    split
    · exact hc
    · rfl
  have hl' : w'.gp.Live := by rw [GroupCache.Live, hu]; exact hl
  refine ⟨fun hd => absurd hl' hd, fun _ => ?_, by rw [hs]; exact h.size, fun q hq => ?_,
    fun q hq => ?_, ?_, hout⟩
  · rw [length_entries_map_set hr]
    exact h.live hl
  · rw [hat]
    rw [hset'] at hq
    by_cases hqr : q = r
    · rw [if_pos hqr, hqr]
    · rw [if_neg hqr] at hq ⊢
      exact h.right q hq
  · rw [hat]
    rw [hset'] at hq
    by_cases hqr : q = r
    · rw [if_pos hqr] at hq
      cases hq
    · rw [if_neg hqr] at hq ⊢
      exact h.blank q hq
  · have hfil : ((Finset.range n).filter fun q => w'.gp.isSet q = true) =
        insert r ((Finset.range n).filter fun q => w.gp.isSet q = true) := by
      ext q
      rw [Finset.mem_insert, Finset.mem_filter, Finset.mem_filter, hset']
      by_cases hqr : q = r
      · simp [hqr, hrn]
      · simp [hqr]
    rw [hfil, Finset.card_insert_of_notMem, hn, h.count]
    intro hm
    rw [(Finset.mem_filter.1 hm).2] at hset
    cases hset

/-- A group without entries. -/
theorem faithful_of_blank {w : Work} (hset : ∀ r, w.gp.entryAt r = initPeerCacheEntry) (hn : w.gp.numLocalEntries = 0)
    (hs : w.gp.groupSize = 0) (hd : ¬ w.gp.Live → w.gp.ranks = none) (hl : w.gp.Live → w.gp.entries.length = n)
    (hout : ∀ x ∈ w.out, x.Relays n canon) : Faithful n canon w where
  dead hd' := ⟨hd hd', hn⟩
  live := hl
  size := .inl hs
  right r hr := by
    rw [GroupCache.isSet, hset] at hr
    cases hr
  blank r _ := by rw [hset]; rfl
  count := by
    rw [hn, eq_comm, Finset.card_eq_zero, Finset.filter_eq_empty_iff]
    intro r _
    rw [GroupCache.isSet, hset]
    exact Bool.false_ne_true
  sent := hout

theorem relays_append {l l' : List Effect} (h : ∀ x ∈ l, x.Relays n canon) (h' : ∀ x ∈ l', x.Relays n canon) :
    ∀ x ∈ l ++ l', x.Relays n canon := fun x hx => (List.mem_append.1 hx).elim (h x) (h' x)

theorem relays_sendGpCacheToHost {s : GpState} (h : ∀ x ∈ s.out, x.Relays n canon) :
    ∀ x ∈ (sendGpCacheToHost s).out, x.Relays n canon := by
  unfold sendGpCacheToHost
  split
  · refine relays_append h fun x hx => ?_
    rw [List.mem_singleton.1 hx]
    trivial
  · exact h

/-- A broadcast sends entries of the cache. -/
theorem Faithful.relays_exchange {w : Work} (h : Faithful n canon w) (hc : Canonical n canon) (k : ℕ) :
    ∀ x ∈ (groupCacheExchange ctx w.toGpState k).out, x.Relays n canon := by
  have hlt : ∀ r, w.gp.isSet r = true → r < n := by
    intro r hr
    by_contra hge
    by_cases hl : w.gp.Live
    · rw [GroupCache.isSet, GroupCache.entryAt, List.getD_eq_default _ _ (by rw [h.live hl]; omega)] at hr
      cases hr
    · rw [isSet_of_ranks_none (h.dead hl).1] at hr
      cases hr
  have hv : ∀ e ∈ w.gp.entries, e.set = true → e.peer.procInfo.groupRank ≠ INVALID_RANK := by
    intro e he hset
    obtain ⟨r, hr, rfl⟩ := List.getElem_of_mem he
    have hat : w.gp.entryAt r = w.gp.entries[r] := by simp [GroupCache.entryAt, List.getD_eq_getElem?_getD, hr]
    have hset' : w.gp.isSet r = true := by rw [GroupCache.isSet, hat]; exact hset
    rw [← hat, h.right r hset']
    exact hc.valid r (hlt r hset')
  have hmsgs : ∀ x ∈ broadcastMsgs ctx w.gp, x.Relays n canon := by
    intro x hx
    simp only [broadcastMsgs, List.mem_flatMap, List.mem_map] at hx
    obtain ⟨_, _, batch, hb, rfl⟩ := hx
    obtain ⟨l, hl, -, hset⟩ := @sendLocalRankGroupCache_eq _ ctx.globalId hv
    rw [hl] at hb
    obtain ⟨r, hr, rfl⟩ := List.mem_map.1 hb
    exact ⟨r, hlt r (hset r hr).1, by rw [h.right r (hset r hr).1]⟩
  have hcast : ∀ x ∈ (broadcastGroupCache ctx w.toGpState).out, x.Relays n canon := by
    have hemit : ∀ x ∈ (w.toGpState.emit (.broadcast :: if 1 < ctx.numServiceProcs then broadcastMsgs ctx w.gp else [])).out,
        x.Relays n canon := by
      refine relays_append h.sent fun x hx => ?_
      rcases List.mem_cons.1 hx with rfl | hx
      · trivial
      · split at hx
        · exact hmsgs x hx
        · exact absurd hx List.not_mem_nil
    by_cases hc : ctx.allServiceProcsConnected
    · simp only [broadcastGroupCache, hc, Bool.not_true, Bool.false_eq_true, if_false]
      by_cases hf : w.gp.full
      · simp only [GpState.emit, hf, if_true] at hemit ⊢
        exact relays_sendGpCacheToHost hemit
      · simp only [GpState.emit, hf] at hemit ⊢
        exact hemit
    · simp only [broadcastGroupCache, hc, Bool.not_false, if_true]
      exact h.sent
  unfold groupCacheExchange
  repeat' split
  all_goals first | exact hcast | exact h.sent

/-- **What the actions keep.** -/
theorem Faithful.act (hd : ctx.onDpu = true) (hu : ctx.gpUid ≠ INT_MAX) (hn : Allocatable n)
    (hcan : Canonical n canon) {w w' : Work}
    (hc : Carries (relaySpec ctx n canon) w) (h : Faithful n canon w) (ha : Act ctx (· = (n : ℤ)) T w w') :
    Faithful n canon w' := by
  have hone : ∀ {x : Effect}, x.Relays n canon → ∀ y ∈ w.out ++ [x], y.Relays n canon := fun hx =>
    relays_append h.sent fun y hy => by rw [List.mem_singleton.1 hy]; exact hx
  cases ha with
  | init size hs hl =>
    subst hs
    have hlen : allocEntries (sizeT n) = n := by rw [sizeT_natCast hn.lt, hn.allocEntries_eq]
    refine faithful_of_blank (entryAt_replicate (k := allocEntries (sizeT n)) rfl) rfl rfl (fun hd => absurd hu hd)
      (fun _ => ?_) h.sent
    simpa [GroupCache.entries, initGroupCache] using hlen
  | learn size hs hl =>
    subst hs
    refine h.of_eq (learnGroupSize_ranks _ _ _) (learnGroupSize_groupUid _ _ _) ?_ (learnGroupSize_numLocalEntries _ _ _)
      h.sent
    simp only [GroupCache.learnGroupSize]
    split
    · exact .inr (sizeT_natCast hn.lt)
    · exact .inl rfl
  | skipEntry he hl hset => exact h.of_eq rfl rfl (.inl rfl) rfl h.sent
  | @addEntry e es he hl hL h0 hset =>
    obtain ⟨r, hr, rfl⟩ := hc.ents e (mem_of_eq_cons he)
    obtain ⟨t, ht⟩ := addPeerEntry_eq ctx w.gp (canon r)
    have hrank : sizeT (canon r).peer.procInfo.groupRank = r := hcan.rank r hr
    rw [hrank] at hset ht
    have hent : w.gp.peerEntry (canon r) = canon r := by
      have hb := h.blank r hset
      have hs := hcan.set r hr
      cases hcr : canon r with
      | mk set peer client shadow =>
        rw [hcr] at hrank hs
        simp only [GroupCache.peerEntry]
        rw [show sizeT peer.procInfo.groupRank = r from hrank, hb, List.nil_append, show set = true from hs]
    rw [hent] at ht
    exact h.add hl hr hset (hcan.set r hr) (by rw [ht]) (by rw [ht]) (by rw [ht]) (by rw [ht]) h.sent
  | parkEntries sp hs hl hp => exact h.of_eq rfl rfl (.inl rfl) rfl h.sent
  | takeBatch hl he h0 hr => exact h.of_eq rfl rfl (.inl rfl) rfl h.sent
  | unpark he h0 => exact h.of_eq rfl rfl (.inl rfl) rfl h.sent
  | sendCache hl h0 hf =>
    obtain ⟨t, ht⟩ := sendGpCacheToHost_gp w.toGpState
    exact h.of_eq (by rw [ht]) (by rw [ht]) (.inl (by rw [ht])) (by rw [ht]) (relays_sendGpCacheToHost h.sent)
  | parkAdd hs ha hl h0 => exact h.of_eq rfl rfl (.inl rfl) rfl h.sent
  | takeAdds ha => exact h.of_eq rfl rfl (.inl rfl) rfl h.sent
  | skipAdd ha hl hL h0 hset => exact h.of_eq rfl rfl (.inl rfl) rfl h.sent
  | @addLocal p ps ha hl hL h0 hset =>
    obtain ⟨hr, hent⟩ := hc.adds p (mem_of_eq_cons ha)
    obtain ⟨t, k, sp, ht, -⟩ := addGroupRank_eq ctx w.gp p.clientId p.data
    refine h.add hl hr hset (hcan.set _ hr) ?_ (by rw [ht]) (by rw [ht]) (by rw [ht]) h.sent
    rw [ht, ← hent]
    rfl
  | exchange hdue hl =>
    obtain ⟨t, ht⟩ := @groupCacheExchange_gp ctx w.toGpState w.gp.spRanks
    exact h.of_eq (by rw [ht]) (by rw [ht]) (.inl (by rw [ht])) (by rw [ht]) (h.relays_exchange hcan _)
  | queueRankRevoke hr hl hn' => exact (hc.rankRevs _ (mem_of_eq_cons hr)).elim
  | markLocal hr hl hn' => exact (hc.rankRevs _ (mem_of_eq_cons hr)).elim
  | queueSpRevoke hr hdl => exact (hc.revs _ (mem_of_eq_cons hr)).elim
  | accept hr hl hdl hT' => exact (hc.revs _ (mem_of_eq_cons hr)).elim
  | takeRevokes ht hT' => exact h.of_eq rfl rfl (.inl rfl) rfl h.sent
  | createBits hT' => exact h.of_eq rfl rfl (.inl rfl) rfl h.sent
  | applyRevoke ht hT' => exact (hc.taken _ (mem_of_eq_cons ht)).elim
  | post hf => exact h.of_eq rfl rfl (.inl rfl) rfl (hone trivial)
  | reset hf he hdue =>
    exact faithful_of_blank (entryAt_of_ranks_none rfl) rfl rfl (fun _ => rfl)
      (fun hl => absurd hl (notLive_reset _ _)) (hone trivial)
  | setSent => exact h.of_eq rfl rfl (.inl rfl) rfl h.sent
  | setRevokeSent => exact h.of_eq rfl rfl (.inl rfl) rfl h.sent
  | hostAdd hd' _ | hostPark hd' _ _ | hostTake hd' _ | hostRevoke _ hd' => rw [hd] at hd'; cases hd'

/-! ### The cluster -/

/-- The caches agree, and a complete one has all entries. -/
structure Net.Agree (s : Net) : Prop where
  /-- Two SPs that have the entry of a rank have the same one. -/
  same : ∀ i j r, (s.sp i).gp.isSet r = true → (s.sp j).gp.isSet r = true →
    (s.sp i).gp.entryAt r = (s.sp j).gp.entryAt r
  /-- A complete cache has the entry of every rank. -/
  complete : ∀ i, (s.sp i).gp.numLocalEntries = (s.sp i).gp.groupSize →
    ∀ r < (s.sp i).gp.groupSize, (s.sp i).gp.isSet r = true

namespace Cluster

variable (C : Cluster)

/-- The entry of a rank, as its SP writes it when the rank joins. -/
def entry (r : ℕ) : PeerCacheEntry := localEntry (C.sys (C.spOf r)) (C.client r) (C.msg r 1).rankInfo

/-- **One version**: each rank joins once, through its SP. -/
def Joining (s : Net) : NetLabel → Prop
  | .own i _ (.addGroupRank c m) => m.rankInfo.rank < C.size ∧ C.spOf m.rankInfo.rank = i ∧
      c = C.client m.rankInfo.rank ∧ m = C.msg m.rankInfo.rank 1 ∧ .addGroupRank c m ∉ (s.sp i).seen
  | .own _ _ .cacheSent => True
  | .own _ _ _ => False
  | .deliver _ _ _ => True

/-- What an SP keeps. -/
structure Right (i : ℕ) (e : Engine) : Prop where
  /-- About its cache. -/
  cache : Faithful C.size C.entry e.work
  /-- About what it has put aside. -/
  carries : Carries (relaySpec (C.sys i) C.size C.entry) e.work
  /-- About the sizes that announces. -/
  sized : e.gp.Sized (· = (C.size : ℤ))

variable {C}

theorem rank_msg {r : ℕ} (hr : r < C.size) (k : ℕ) : (C.msg r k).rankInfo.rank = r := by
  rw [RankInfo.rank, C.msg_groupRank, sizeT_natCast (hr.trans C.alloc.lt)]

theorem canonical (C : Cluster) : Canonical C.size C.entry where
  set _ _ := rfl
  rank _ hr := rank_msg hr 1
  valid r _ := by
    change (C.msg r 1).rankInfo.groupRank ≠ INVALID_RANK
    rw [C.msg_groupRank]
    exact fun h => absurd (h ▸ Int.natCast_nonneg r) (by decide)
  size r _ := C.msg_groupSize r 1

/-- What may come over a link: the entry of a rank. -/
def Relayed (C : Cluster) (ev : Event) : Prop := ∃ i, ∃ r < C.size, ev = .peerCacheEntries i [C.entry r]

theorem relayed_of_toSp {x : Effect} (h : x.Relays C.size C.entry) {i b : ℕ} {ev : Event} (hx : x.toSp i b = some ev) :
    C.Relayed ev := by
  cases x with
  | entriesToSp d batch =>
    obtain ⟨r, hr, rfl⟩ := h
    simp only [Effect.toSp] at hx
    split at hx <;> cases hx
    exact ⟨i, r, hr, rfl⟩
  | revokeToSp d m => exact h.elim
  | cacheToRanks _ | revokeToRanks _ _ | addToSp _ | revokeRankToSp _ | broadcast | markedFromSp _ _ _
  | markedFromRank _ _ _ | revoked _ => cases hx

/-- An event that brings what it should. -/
theorem Right.step {i : ℕ} {v : View} {e e' : Engine} {ev : Event} (h : C.Right i e)
    (hok : (relaySpec (C.sys i) C.size C.entry).Ok ev) (hsz : ev.Sizes (· = (C.size : ℤ)))
    (hs : e.step (C.ctx i v) ev = some e') : C.Right i e' := by
  have hd : (C.ctx i v).onDpu = true := C.onDpu i
  have hu : (C.ctx i v).gpUid ≠ INT_MAX := by
    rw [show (C.ctx i v).gpUid = C.uid from C.gpUid i]
    exact C.uid_ne
  rcases @Engine.step_acts (C.ctx i v) (· = (C.size : ℤ)) (fun _ => True) hu _ _ _ hs h.sized hsz (ev.applies_true _)
    with ⟨-, hgp, hlog⟩ | ha
  · have hw : e'.work = e.work := by rw [Engine.work, hgp, hlog]
    exact ⟨by rw [hw]; exact h.cache, by rw [hw]; exact h.carries, by rw [hgp]; exact h.sized⟩
  · have hstart : Faithful C.size C.entry (ev.enter (C.ctx i v) ⟨e.gp, e.log⟩) ∧
        Carries (relaySpec (C.sys i) C.size C.entry) (ev.enter (C.ctx i v) ⟨e.gp, e.log⟩) ∧
        (ev.enter (C.ctx i v) ⟨e.gp, e.log⟩).gp.Sized (· = (C.size : ℤ)) := by
      cases ev with
      | addGroupRank c m =>
        exact ⟨{ h.cache with }, { h.carries with adds := fun p hp => by rw [List.mem_singleton.1 hp]; exact hok }, h.sized⟩
      | peerCacheEntries sp batch => exact ⟨{ h.cache with }, { h.carries with batch := hok.2 }, h.sized⟩
      | cacheSent => exact ⟨h.cache, h.carries, h.sized⟩
      | revokeSent => exact ⟨{ h.cache with }, { h.carries with }, h.sized⟩
      | revokeFromRank _ | revokeFromSp _ | requestAdd _ | requestRevoke _ => exact hok.elim
    obtain ⟨h₁, h₂, h₃⟩ := keeps (J := fun w => Faithful C.size C.entry w ∧
        Carries (relaySpec (C.sys i) C.size C.entry) w ∧ w.gp.Sized (· = (C.size : ℤ)))
      (fun _ _ hJ ha => ⟨hJ.1.act hd hu C.alloc C.canonical hJ.2.1 ha, hJ.2.1.act ha,
        GroupCache.Sized.act hJ.2.2 ha⟩) ha hstart
    exact ⟨h₁, h₂, h₃⟩

theorem right_init (i : ℕ) : C.Right i Engine.init := by
  have hnil : ∀ {α : Type} {P : α → Prop}, ∀ a ∈ ([] : List α), P a := fun a ha => (List.not_mem_nil ha).elim
  exact ⟨faithful_of_blank (fun _ => rfl) rfl rfl (fun _ => rfl) (fun hl => absurd rfl hl) hnil,
    ⟨hnil, hnil, hnil, hnil, hnil, hnil, hnil, hnil, hnil⟩, hnil, hnil⟩

/-- A callback of an SP. -/
theorem right_put {s : Net} (h : ∀ i, C.Right i (s.sp i)) {i : ℕ} {v : View} {ev : Event} {e : Engine}
    (hs : (s.sp i).step (C.ctx i v) ev = some e) (hok : (relaySpec (C.sys i) C.size C.entry).Ok ev)
    (hsz : ev.Sizes (· = (C.size : ℤ))) : ∀ j, C.Right j ((s.put i e).sp j) := by
  intro j
  by_cases hj : j = i
  · subst hj
    rw [Net.put_sp_self]
    exact (h j).step hok hsz hs
  · rw [Net.put_sp_of_ne hj]
    exact h j

theorem right_step {s s' : Net} {l : NetLabel} (h : ∀ i, C.Right i (s.sp i)) (hl : C.Joining s l)
    (hs : s.step C l = some s') : ∀ i, C.Right i (s'.sp i) := by
  rcases Net.step_cases hs with ⟨i, v, ev, e, rfl, he, rfl⟩ | ⟨i, j, v, ev, es, e, rfl, hlink, he, rfl⟩
  · cases ev with
    | addGroupRank c m =>
      obtain ⟨hr, hsp, hc, hm, -⟩ := hl
      have hsize : m.rankInfo.groupSize = C.size := by rw [hm]; exact C.msg_groupSize _ _
      refine right_put h he ⟨hr, ?_⟩ hsize
      rw [entry, hsp, ← hc, ← hm]
    | cacheSent => exact right_put h he trivial trivial
    | peerCacheEntries _ _ | revokeFromRank _ | revokeFromSp _ | revokeSent | requestAdd _ | requestRevoke _ =>
      exact hl.elim
  · obtain ⟨x, hx, hto⟩ := Net.mem_link (s := s) (i := i) (j := j) (by rw [hlink]; exact List.mem_cons_self)
    obtain ⟨k, r, hr, rfl⟩ := relayed_of_toSp ((h i).cache.sent x hx) hto
    exact right_put (s := s.receive i j) h he
      ⟨List.cons_ne_nil _ _, fun e' he' => ⟨r, hr, List.mem_singleton.1 he'⟩⟩ (C.canonical.size r hr)

end Cluster

/-- **The caches agree**, and a cache that counts as many entries as the group has ranks
has them all. -/
theorem agree_of_reach (C : Cluster) {s : Net} (h : Reach (Net.step C) C.Joining Net.init s) : s.Agree := by
  have hinv : ∀ i, C.Right i (s.sp i) :=
    h.invariant (fun i => Cluster.right_init i) fun _ _ _ hI hl hs => Cluster.right_step hI hl hs
  refine ⟨fun i j r hi hj => ?_, fun i hfull r hr => ?_⟩
  · exact ((hinv i).cache.right r hi).trans ((hinv j).cache.right r hj).symm
  · have hc := (hinv i).cache
    rcases hc.size with h0 | hn
    · exact absurd (hr.trans_eq h0) (Nat.not_lt_zero r)
    · have hcard : ((Finset.range C.size).filter fun q => (s.sp i).gp.isSet q = true).card = (Finset.range C.size).card := by
        rw [Finset.card_range]
        exact (hc.count.symm.trans hfull).trans hn
      exact Finset.card_filter_eq_iff.1 hcard r (Finset.mem_range.2 (hr.trans_eq hn))

/-! ### Two SPs with a rank each -/

instance (C : Cluster) (s : Net) : (l : NetLabel) → Decidable (C.Joining s l)
  | .own i _ (.addGroupRank c m) => inferInstanceAs (Decidable (m.rankInfo.rank < C.size ∧
      C.spOf m.rankInfo.rank = i ∧ c = C.client m.rankInfo.rank ∧ m = C.msg m.rankInfo.rank 1 ∧
      Event.addGroupRank c m ∉ (s.sp i).seen))
  | .own _ _ .cacheSent | .deliver _ _ _ => inferInstanceAs (Decidable True)
  | .own _ _ (.peerCacheEntries _ _) | .own _ _ (.revokeFromRank _) | .own _ _ (.revokeFromSp _) | .own _ _ .revokeSent
  | .own _ _ (.requestAdd _) | .own _ _ (.requestRevoke _) => inferInstanceAs (Decidable False)

/-- The two SPs of `pairCtx`, and the group of two. -/
def pairCluster : Cluster where
  num := 2
  sys i := { pairCtx with globalId := i, hostUid := 70 + i }
  uid := 5
  size := 2
  spOf r := r
  client _ := 0
  msg := pairAdd
  onDpu _ := rfl
  gpUid _ := rfl
  globalId _ := rfl
  numServiceProcs _ := rfl
  uid_ne := by decide
  pos := Nat.two_pos
  alloc := allocatable_two
  spOf_lt _ hr := hr
  msg_groupUid _ _ := rfl
  msg_groupSize _ _ := rfl
  msg_groupRank _ _ := rfl
  msg_groupSeqNum _ _ := rfl

/-- What they know of the world group. -/
def pairView : View := ⟨2, some [pairEntry 0 1, pairEntry 1 1]⟩

/-- Both ranks join, and both entries are exchanged. -/
theorem agree_of_reach_pair :
    ∃ s, Reach (Net.step pairCluster) pairCluster.Joining Net.init s ∧ (s.sp 0).gp.full = true ∧
      (s.sp 1).gp.full = true ∧ s.Agree := by
  have h : ∃ s, Reach (Net.step pairCluster) pairCluster.Joining Net.init s ∧ (s.sp 0).gp.full = true ∧
      (s.sp 1).gp.full = true :=
    exists_reach_of_exec
      [.own 0 pairView (.addGroupRank 0 (pairAdd 0 1)), .own 1 pairView (.addGroupRank 0 (pairAdd 1 1)),
        .deliver 0 1 pairView, .deliver 1 0 pairView] (by decide)
  obtain ⟨s, hs, h₀, h₁⟩ := h
  exact ⟨s, hs, h₀, h₁, agree_of_reach pairCluster hs⟩

end DpuOffload
