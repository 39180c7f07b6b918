import DpuOffload.Protocol.Lossless
import DpuOffload.Protocol.RevokeChunks
import DpuOffload.Protocol.Gathering

/-!
# What a callback does not lose

A callback uses up entries and revokes and has more to show of its SP, one action after the other.
An entry that it uses up is in the cache (`Act.ents_kept`), the exchange that follows an addition
sends the entries of all local ranks to every other SP (`Crew.exchange_sends`), and the revoke of the
last local rank sends all revokes (`Crew.mark_sends`). So every action is a step of the abstract
protocol that loses nothing (`Crew.Tends.passes`), and what a callback does not lose (`Crew.Tends`) is
kept by its actions (`Crew.Tends.act`).

This needs that all SPs are connected: one that is not sends no entries.
-/

namespace DpuOffload

open Relation Transition Versions

/-! ### What an action uses up -/

variable {S : Site} {M : MsgSpec} {T : Tally → Prop} {w w' : Work} {src : ℕ}

theorem ents_subset {t : ℕ × ℕ} (ht : t ∈ (w.vis src).ents) (h : ∀ e ∈ w.allEnts, e ∈ w'.allEnts) :
    t ∈ (w'.vis src).ents := by
  obtain ⟨e, he, rfl⟩ := List.mem_map.1 (Multiset.mem_coe.1 ht)
  exact Multiset.mem_coe.2 (List.mem_map_of_mem (h e he))

theorem ents_of_queues {t : ℕ × ℕ} (ht : t ∈ (w.vis src).ents) (hq : w'.gp.queues = w.gp.queues)
    (hb : w'.batch = w.batch) (he : w'.ents = w.ents) : t ∈ (w'.vis src).ents := by
  refine ents_subset ht fun e hmem => ?_
  rw [allEnts_congr hq hb, he]
  exact hmem

/-- **No action loses an entry**: one that is used up is in the cache. -/
theorem Act.ents_kept (hM : M.Le S.msgs) (hb : Base S M w) (ha : Act S.ctx (· = (S.size : ℤ)) T w w') {t : ℕ × ℕ}
    (ht : t ∈ (w.vis src).ents) : t ∈ (w'.vis src).ents ∨ w.ents ≠ [] ∧ w'.gp.isSet t.1 = true := by
  have hmem : ∀ {e : PeerCacheEntry} {es : List PeerCacheEntry}, w.ents = e :: es →
      t = e.tok ∨ t ∈ (w.batch ++ es ++ w.gp.parked.flatMap (·.payload)).map PeerCacheEntry.tok := by
    intro e es he
    obtain ⟨x, hx, rfl⟩ := List.mem_map.1 (Multiset.mem_coe.1 ht)
    rw [Work.allEnts, he] at hx
    rcases List.mem_cons.1 ((perm_cons_middle _ _ _ _).mem_iff.1 hx) with rfl | hx
    · exact .inl rfl
    · exact .inr (List.mem_map_of_mem hx)
  cases ha with
  | init size hs hl => exact .inl (ents_of_queues ht rfl rfl rfl)
  | learn size hs hl => exact .inl (ents_of_queues ht (learnGroupSize_queues _ _ _) rfl rfl)
  | @skipEntry e es he hl hset =>
    rcases hmem he with rfl | hm
    · exact .inr ⟨by rw [he]; exact List.cons_ne_nil _ _, hset⟩
    · exact .inl (Multiset.mem_coe.2 hm)
  | @addEntry e es he hl hL h0 hset =>
    rcases hmem he with rfl | hm
    · have hi := (hM.entry e (hb.carries.ents e (mem_of_eq_cons he))).1
      obtain ⟨t, ht'⟩ := addPeerEntry_eq S.ctx w.gp e
      have hranks : (w.gp.addPeerEntry S.ctx e).ranks =
          w.gp.ranks.map (·.set e.peer.procInfo.rank (w.gp.peerEntry e)) := by
        rw [ht']
        rfl
      have hlen : e.peer.procInfo.rank < w.gp.entries.length := by
        rw [hb.counts.length_entries hl]
        exact hi.rank_lt
      refine .inr ⟨by rw [he]; exact List.cons_ne_nil _ _, ?_⟩
      change (w.gp.addPeerEntry S.ctx e).isSet e.peer.procInfo.rank = true
      rw [GroupCache.isSet, entryAt_map_set hlen hranks, if_pos rfl]
      rfl
    · have hall : Work.allEnts { w with gp := w.gp.addPeerEntry S.ctx e, ents := es } =
          w.batch ++ es ++ w.gp.parked.flatMap (·.payload) :=
        allEnts_congr (w := w) (addPeerEntry_queues w.gp e) rfl
      refine .inl (Multiset.mem_coe.2 ?_)
      rw [hall]
      exact hm
  | parkEntries sp hs hl hp =>
    refine .inl (ents_subset ht fun x hx => ?_)
    change x ∈ w.ents ++ (w.gp.parked ++ [PendingRecvCacheEntry.mk sp w.batch]).flatMap PendingRecvCacheEntry.payload
    rw [List.flatMap_append, List.flatMap_singleton]
    simp only [Work.allEnts, List.mem_append] at hx ⊢
    tauto
  | takeBatch hl he h0 hr =>
    refine .inl (ents_subset ht fun x hx => ?_)
    simpa only [Work.allEnts, he, List.append_nil, List.nil_append] using hx
  | unpark he h0 =>
    refine .inl (ents_subset ht fun x hx => ?_)
    change x ∈ w.batch ++ w.gp.parked.flatMap (·.payload) ++ []
    simpa only [Work.allEnts, he, List.append_nil] using hx
  | sendCache hl h0 hf =>
    obtain ⟨t, ht'⟩ := sendGpCacheToHost_gp w.toGpState
    exact .inl (ents_of_queues ht (by simp only [ht', GroupCache.queues]) rfl rfl)
  | addLocal ha hl hL h0 hset => exact .inl (ents_of_queues ht (addGroupRank_queues _ _ _) rfl rfl)
  | exchange hdue hl =>
    obtain ⟨t, ht'⟩ := @groupCacheExchange_gp S.ctx w.toGpState w.gp.spRanks
    exact .inl (ents_of_queues ht (by simp only [ht', GroupCache.queues]) rfl rfl)
  | markLocal hr hl hn => exact .inl (ents_of_queues ht (by rw [tellRankRevoke_gp]; rfl) rfl rfl)
  | accept hr hl hdl hT =>
    exact .inl (ents_of_queues ht (by rw [GroupCache.queues, learnFromRevoke_persistent]; rfl) rfl rfl)
  | reset hf he hdue =>
    refine .inl (ents_subset ht fun x hx => ?_)
    change x ∈ w.batch ++ w.gp.parked.flatMap (·.payload) ++ []
    simpa only [Work.allEnts, he, List.append_nil] using hx
  | hostAdd hd _ | hostPark hd _ _ | hostTake hd _ | hostRevoke _ hd =>
    rw [S.onDpu] at hd
    cases hd
  | _ => exact .inl ht

/-- The exchange that was due has been made. -/
theorem Act.exchange_of_due {ctx : GpCtx} {Sz : ℤ → Prop} (ha : Act ctx Sz T w w') (h : w.due = true)
    (h' : w'.due = false) :
    w.gp.Live ∧ w'.toGpState = groupCacheExchange ctx w.toGpState w.gp.spRanks := by
  cases ha with
  | exchange hdue hl => exact ⟨hl, rfl⟩
  | skipAdd _ _ _ _ _ | addLocal _ _ _ _ _ => cases h'
  | _ => exact absurd (h.symm.trans h') (by decide)

/-- The revoke of a local rank in hand has been handled. -/
theorem Act.mark_of_rankRevs {ctx : GpCtx} {Sz : ℤ → Prop} (ha : Act ctx Sz T w w') {i : RankInfo}
    (h : w.rankRevs = i :: w'.rankRevs) :
    w.gp.groupSize ≠ w.gp.numLocalEntries ∨ w.gp.Live ∧ w'.toGpState = tellRankRevoke ctx w.toGpState i := by
  have hne : ∀ l : List RankInfo, l ≠ i :: l := fun l hl => by
    have := congrArg List.length hl
    simp at this
  cases ha with
  | queueRankRevoke hr hl hn => exact .inl hn
  | @markLocal j is hr hl hn =>
    rw [hr] at h
    cases h
    exact .inr ⟨hl, rfl⟩
  | _ => exact absurd h (hne _)

/-- Entries are taken up while no rank is marked. -/
theorem Act.ents_nil {ctx : GpCtx} {Sz : ℤ → Prop} (ha : Act ctx Sz T w w') (h : w.ents = []) :
    w'.ents = [] ∨ w'.gp.revokesGlobal = 0 := by
  cases ha with
  | skipEntry he hl hset | addEntry he hl hL h0 hset =>
    rw [h] at he
    cases he
  | takeBatch hl he h0 hr => exact .inr h0
  | unpark he h0 => exact .inr h0
  | reset hf he hdue => exact .inr rfl
  | _ => exact .inl h

/-- No entries in hand, and none that could be taken up. -/
structure Spent (w : Work) : Prop where
  /-- In hand. -/
  ents : w.ents = []
  /-- Just received. -/
  batch : w.batch = []
  /-- Put aside. -/
  parked : w.gp.parked.flatMap (·.payload) = [] ∨ w.gp.revokesGlobal ≠ 0

theorem Spent.of_eq (h : Spent w) (he : w'.ents = w.ents) (hb : w'.batch = w.batch) (hp : w'.gp.parked = w.gp.parked)
    (hg : w.gp.revokesGlobal ≤ w'.gp.revokesGlobal) : Spent w' where
  ents := he.trans h.ents
  batch := hb.trans h.batch
  parked := h.parked.imp (fun h0 => by rw [hp]; exact h0) fun h0 => by omega

theorem Spent.act (h : Spent w) (hl : w.gp.Live) (hf : w.final = false) (ha : Act S.ctx (· = (S.size : ℤ)) T w w') :
    Spent w' := by
  have hq : ∀ {g g' : GroupCache}, g'.queues = g.queues → g'.parked = g.parked := fun h => by
    rw [GroupCache.parked, h]
    rfl
  cases ha with
  | init size hs hl' => exact absurd hl hl'
  | learn size hs hl' =>
    exact h.of_eq rfl rfl (hq (learnGroupSize_queues _ _ _)) (learnGroupSize_revokesGlobal _ _ _).ge
  | skipEntry he hl' hset =>
    rw [h.ents] at he
    cases he
  | addEntry he hl' hL h0 hset =>
    rw [h.ents] at he
    cases he
  | parkEntries sp hs hl' hp =>
    refine ⟨h.ents, rfl, h.parked.imp (fun h0 => ?_) id⟩
    change (w.gp.parked ++ [PendingRecvCacheEntry.mk sp w.batch]).flatMap PendingRecvCacheEntry.payload = []
    rw [List.flatMap_append, h0, List.flatMap_singleton]
    exact h.batch
  | takeBatch hl' he h0 hr => exact ⟨h.batch, rfl, h.parked⟩
  | unpark he h0 => exact ⟨h.parked.resolve_right (not_not.2 h0), h.batch, .inl rfl⟩
  | sendCache hl' h0 hf' =>
    obtain ⟨t, ht⟩ := sendGpCacheToHost_gp w.toGpState
    exact h.of_eq rfl rfl (by simp only [ht]; rfl) (by simp only [ht]; exact le_rfl)
  | addLocal ha hl' hL h0 hset =>
    exact h.of_eq rfl rfl (hq (addGroupRank_queues _ _ _)) (addGroupRank_revokesGlobal _ _ _).ge
  | exchange hdue hl' =>
    obtain ⟨t, ht⟩ := @groupCacheExchange_gp S.ctx w.toGpState w.gp.spRanks
    exact h.of_eq rfl rfl (by simp only [ht]; rfl) (by simp only [ht]; exact le_rfl)
  | markLocal hr hl' hn =>
    exact h.of_eq rfl rfl (by rw [tellRankRevoke_gp]; rfl) (by rw [tellRankRevoke_gp]; exact Nat.le_succ _)
  | accept hr hl' hdl hT =>
    exact h.of_eq rfl rfl (hq (by rw [GroupCache.queues, learnFromRevoke_persistent]; rfl))
      (learnFromRevoke_revokesGlobal _ _).ge
  | applyRevoke ht hT => exact h.of_eq rfl rfl rfl (Nat.le_add_right _ _)
  | reset hf' he hdue =>
    rw [hf] at hf'
    cases hf'
  | hostAdd hd _ | hostPark hd _ _ | hostTake hd _ | hostRevoke _ hd =>
    rw [S.onDpu] at hd
    cases hd
  | _ => exact h.of_eq rfl rfl rfl le_rfl

/-- While a rank leaves, the group stays at its version. -/
theorem RevAct.leaving (ha : RevAct S T w w') (hc : Counts S w') (hone : w.rankRevs.length ≤ 1) (hf : w.final = false)
    (hn : w.gp.numLocalEntries = S.size) (hr : w'.rankRevs ≠ []) :
    w'.gp.numLocalEntries = S.size ∧ w'.gp.persistent.num = w.gp.persistent.num := by
  have hlast : ∀ {i : RankInfo} {is : List RankInfo}, w.rev.rankRevs = i :: is → w'.rev.rankRevs = is → False := by
    intro i is hrr hrr'
    have hrr : w.rankRevs = i :: is := hrr
    rw [hrr, List.length_cons] at hone
    exact hr (hrr'.trans (List.length_eq_zero_iff.1 (by omega)))
  cases ha with
  | quiet hrev _ _ =>
    exact ⟨(congrArg RevState.numLocalEntries hrev).trans hn, congrArg RevState.num hrev⟩
  | known _ hrev _ _ | apply _ _ _ _ _ _ hrev _ _ | post _ _ hrev _ _ =>
    exact ⟨(congrArg RevState.numLocalEntries hrev).trans hn, congrArg RevState.num hrev⟩
  | entry sp _ _ _ hrev _ _ =>
    have hsucc : w'.gp.numLocalEntries = S.size + 1 :=
      (congrArg RevState.numLocalEntries hrev).trans (congrArg (· + 1) hn)
    have hle : (S.setRanks w'.gp).card ≤ S.size := by
      rw [← Finset.card_range S.size]
      exact Finset.card_le_card (Finset.filter_subset _ _)
    rw [hc.entries] at hsucc
    omega
  | queue i is hrr _ hrev _ _ => exact (hlast hrr (congrArg RevState.rankRevs hrev)).elim
  | mark i is hrr _ _ hrev _ _ => exact (hlast hrr (congrArg RevState.rankRevs hrev)).elim
  | reset hf' _ _ _ _ => exact absurd (hf.symm.trans hf') Bool.false_ne_true

/-! ### What an action sends -/

theorem mem_tokens {f : Event → Multiset (ℕ × ℕ)} {l : List Event} {ev : Event} (hev : ev ∈ l) {t : ℕ × ℕ}
    (ht : t ∈ f ev) : t ∈ tokens f l := by
  induction l with
  | nil => exact absurd hev List.not_mem_nil
  | cons x l ih =>
    rw [tokens_cons]
    rcases List.mem_cons.1 hev with rfl | hev
    · exact Multiset.mem_add.2 (.inl ht)
    · exact Multiset.mem_add.2 (.inr (ih hev))

/-- The array of entries, by ranks. -/
theorem entries_eq_map (g : GroupCache) : g.entries = (List.range g.entries.length).map g.entryAt := by
  refine List.ext_getElem (by simp) fun r hr _ => ?_
  rw [List.getElem_map, List.getElem_range, GroupCache.entryAt, List.getD_eq_getElem _ _ hr]

namespace Crew

variable {C : Crew} {hin : C.Manned} {j : ℕ} {v : View} {hv : C.Tells v}

/-- The entries of local ranks in the cache. -/
theorem countP_isLocal (hb : Base (C.site j v hv) M w) (hn : Named (C.site j v hv) C.spOf w.gp) (hl : w.gp.Live) :
    w.gp.entries.countP (PeerCacheEntry.isLocal j) = w.gp.nLocalRanksPopulated := by
  have hset : (C.site j v hv).setRanks w.gp ∩ (C.site j v hv).locals =
      (Finset.range C.size).filter fun r => PeerCacheEntry.isLocal j (w.gp.entryAt r) = true := by
    rw [site_locals]
    ext r
    rw [Finset.mem_inter, Site.mem_setRanks, mem_locals, Finset.mem_filter, Finset.mem_range, PeerCacheEntry.isLocal,
      Bool.and_eq_true, beq_iff_eq]
    constructor
    · rintro ⟨⟨hr, hs⟩, -, hsp⟩
      exact ⟨hr, hs, (hn.right r hs).2.2.trans hsp⟩
    · rintro ⟨hr, hs, hsp⟩
      exact ⟨⟨hr, hs⟩, hr, (hn.right r hs).2.2.symm.trans hsp⟩
  have hlen : w.gp.entries.length = C.size := hb.counts.length_entries hl
  rw [hb.counts.populated, hset, entries_eq_map, hlen, List.countP_map, List.countP_eq_length_filter]
  refine (List.toFinset_card_of_nodup (List.nodup_range.filter _)).symm.trans (congrArg Finset.card ?_)
  ext r
  simp

/-- **The exchange sends the entries of all local ranks** to every other SP. -/
theorem exchange_sends (hb : Base (C.site j v hv) M w) (hn : Named (C.site j v hv) C.spOf w.gp) (hl : w.gp.Live)
    (hconn : (C.sys j).allServiceProcsConnected = true) (hall : ∀ q ∈ C.locals j, w.face.ent q ≠ none) {k : ℕ}
    (hk : k < C.num) (hkj : k ≠ j) (hj : j < C.num) {r : ℕ} (hr : r ∈ C.locals j) :
    ∃ N, (groupCacheExchange (C.site j v hv).ctx w.toGpState w.gp.spRanks).sent j k = w.toGpState.sent j k ++ N ∧
      ∃ n, w.face.ent r = some n ∧ (r, n) ∈ tokens Event.ents N := by
  have hgid : (C.site j v hv).ctx.globalId = j := site_globalId
  have hnum : (C.site j v hv).ctx.numServiceProcs = C.num := C.numServiceProcs j
  have hpop : w.gp.nLocalRanksPopulated = (C.locals j).card := by
    have hsub : C.locals j ⊆ (C.site j v hv).setRanks w.gp := fun q hq =>
      Site.mem_setRanks.2 ⟨(mem_locals.1 hq).1, Work.ent_ne_none.1 (hall q hq)⟩
    rw [hb.counts.populated, site_locals, Finset.inter_eq_right.2 hsub]
  have hsp : w.gp.spRanks = w.gp.nLocalRanksPopulated := by
    have hspr := hb.counts.spRanks
    rw [if_neg, site_locals] at hspr
    · exact hspr.trans hpop.symm
    · rw [hpop]
      exact (Finset.card_pos.2 ⟨r, hr⟩).ne'
  have hsend : sendLocalRankGroupCache w.gp j =
      some ((w.gp.entries.filter (PeerCacheEntry.isLocal j)).map fun e => [e]) := by
    rw [sendLocalRankGroupCache, (hb.counts.live hl).1]
    simp only [Bool.not_true, Bool.false_eq_true, if_false]
    rw [sendLocalRanksLoop_singles hn.valid (by rw [List.drop_zero, Nat.zero_add]; exact countP_isLocal hb hn hl)
      (by omega), List.drop_zero]
  obtain ⟨n, hent⟩ := Option.ne_none_iff_exists'.1 (hall r hr)
  obtain ⟨hset, hseq⟩ := Work.ent_eq_some.1 hent
  obtain ⟨-, hrank, hown⟩ := hn.right r hset
  refine ⟨((w.gp.entries.filter (PeerCacheEntry.isLocal j)).map fun e => [e]).map (.peerCacheEntries j), ?_, n, hent,
    ?_⟩
  · have hcache : (C.site j v hv).ctx.cacheSize ≠ 1 := hv.1
    rw [groupCacheExchange, if_neg hcache, if_pos hsp, sent_broadcastGroupCache, if_pos, hgid, hsend]
    · rfl
    · refine ⟨hconn, by rw [hnum]; omega, mem_otherSps.2 ⟨by rw [hnum]; exact hk, by rw [hgid]; exact hkj⟩⟩
  · have hmem : w.gp.entryAt r ∈ w.gp.entries.filter (PeerCacheEntry.isLocal j) := by
      refine List.mem_filter.2 ⟨?_, ?_⟩
      · rw [entries_eq_map]
        refine List.mem_map_of_mem (List.mem_range.2 ?_)
        rw [hb.counts.length_entries hl]
        exact (mem_locals.1 hr).1
      · rw [PeerCacheEntry.isLocal, Bool.and_eq_true, beq_iff_eq]
        exact ⟨hset, hown.trans (mem_locals.1 hr).2⟩
    exact mem_tokens (List.mem_map_of_mem (List.mem_map_of_mem hmem))
      (Multiset.mem_singleton.2 (Prod.ext hrank.symm hseq.symm))

/-- **The revoke of the last local rank sends all revokes** to every other SP. -/
theorem mark_sends (hi : w.gp.initialized = true) (hsize : w.gp.groupSize = C.size) {x : RankInfo}
    (hlast : w.gp.revokesLocal + 1 = w.gp.spRanks) {k : ℕ} (hk : k < C.num) (hkj : k ≠ j) (hj : j < C.num) {r : ℕ}
    (hr : r < C.size) (hm : r ∈ (w.gp.markLocalRank (sizeT x.groupRank)).revokedRanks) :
    ∃ N, (tellRankRevoke (C.site j v hv).ctx w.toGpState x).sent j k = w.toGpState.sent j k ++ N ∧
      (r, w.gp.persistent.num) ∈ tokens Event.bits N := by
  have hgid : (C.site j v hv).ctx.globalId = j := site_globalId
  have hnum : (C.site j v hv).ctx.numServiceProcs = C.num := C.numServiceProcs j
  obtain ⟨m, hmem, hcar⟩ := List.mem_flatMap.1
    ((mem_carried_sendLocalRevoke (g := w.gp.markLocalRank (sizeT x.groupRank)) hi).2
      (Finset.mem_filter.2 ⟨hm, hr.trans_eq hsize.symm⟩))
  have hseq := ((sendLocalRevokeRankGroupCache_spec _).2.2 m hmem).2.1
  have htok : (r, w.gp.persistent.num) ∈ (Event.revokeFromSp m).bits :=
    Multiset.mem_coe.2 (List.mem_map.2 ⟨r, hcar, Prod.ext rfl hseq⟩)
  refine ⟨_, ?_, mem_tokens (List.mem_map_of_mem hmem) htok⟩
  rw [sent_tellRankRevoke_eq, if_pos]
  exact ⟨hlast, by rw [hnum]; omega, mem_otherSps.2 ⟨by rw [hnum]; exact hk, by rw [hgid]; exact hkj⟩⟩

/-! ### Nothing is lost -/

variable {X : Scene}

theorem during_sp_self : (C.during j X w).sp j = w.face := snap_sp (Function.update_self ..)

theorem during_sp_of_ne {k : ℕ} (hk : k ≠ j) : (C.during j X w).sp k = (X.others k).face :=
  congrArg Vis.face (Function.update_of_ne hk ..)

/-- What the protocol sees of a step in which nothing is lost. -/
theorem passes_of (hj : j < C.num) (hg : ∀ k, X.got j k ≤ ((w.vis j).sent k).length) {N : ℕ → List Event}
    (hs : ∀ k, (w'.vis j).sent k = (w.vis j).sent k ++ N k) (hlater : w.face.Later w'.face)
    (hents : ∀ t ∈ (w.vis j).ents, t ∈ (w'.vis j).ents ∨ ¬ w'.face.Wants t.1 t.2)
    (hbits : ∀ t ∈ (w.vis j).bits, t ∈ (w'.vis j).bits ∨ ¬ w'.face.Misses t.1 t.2)
    (hshown : ∀ n ≤ w'.face.shown (C.locals j), w.face.shown (C.locals j) < n → ∀ k < C.num, k ≠ j →
      ∀ r ∈ C.locals j, (r, n) ∈ tokens Event.ents (N k))
    (hfreed : ∀ n ≤ w'.face.freed (C.locals j), w.face.freed (C.locals j) < n → ∀ k < C.num, k ≠ j →
      ∀ r ∈ C.locals j, (r, n) ∈ tokens Event.bits (N k))
    (hleft : ∀ r < C.size, X.leaving w' r = X.leaving w r ∨
      C.spOf r = j ∧ X.leaving w' r ≤ w'.face.num ∧ r ∈ w'.face.bits) :
    Versions.Passes (C.group hin) (C.during j X w) (C.during j X w') j := by
  have hway : ∀ f k, C.onWay f (Function.update X.others j (w'.vis j)) X.got k =
      C.onWay f (Function.update X.others j (w.vis j)) X.got k + tokens f (N k) := by
    intro f k
    have hsend := @onWay_send C (Function.update X.others j (w.vis j)) X.got j (w'.vis j) N hj
      (fun k => by rw [Function.update_self]; exact hs k) (fun k => by rw [Function.update_self]; exact hg k) f k
    rwa [Function.update_idem] at hsend
  have hother : ∀ {k}, k ≠ j → Function.update X.others j (w'.vis j) k = Function.update X.others j (w.vis j) k :=
    fun hk => by rw [Function.update_of_ne hk, Function.update_of_ne hk]
  refine ⟨fun k hk => ?_, ?_, fun k hk r n hm hw => ?_, fun k hk r n hm hw => ?_, fun n hn hlt k hk hkj r hr => ?_,
    fun n hn hlt k hk hkj r hr => ?_, fun r hr => ?_⟩
  · rw [during_sp_of_ne hk, during_sp_of_ne hk]
  · rw [during_sp_self, during_sp_self]
    exact hlater
  · change (r, n) ∈ (Function.update X.others j (w'.vis j) k).ents + C.onWay Event.ents _ X.got k
    rw [hway]
    rcases Multiset.mem_add.1 hm with hm | hm
    · by_cases hkj : k = j
      · subst hkj
        rw [during_sp_self] at hw
        rw [Function.update_self] at hm ⊢
        exact Multiset.mem_add.2 (.inl ((hents _ hm).resolve_right (not_not.2 hw)))
      · rw [hother hkj]
        exact Multiset.mem_add.2 (.inl hm)
    · exact Multiset.mem_add.2 (.inr (Multiset.mem_add.2 (.inl hm)))
  · change (r, n) ∈ (Function.update X.others j (w'.vis j) k).bits + C.onWay Event.bits _ X.got k
    rw [hway]
    rcases Multiset.mem_add.1 hm with hm | hm
    · by_cases hkj : k = j
      · subst hkj
        rw [during_sp_self] at hw
        rw [Function.update_self] at hm ⊢
        exact Multiset.mem_add.2 (.inl ((hbits _ hm).resolve_right (not_not.2 hw)))
      · rw [hother hkj]
        exact Multiset.mem_add.2 (.inl hm)
    · exact Multiset.mem_add.2 (.inr (Multiset.mem_add.2 (.inl hm)))
  · rw [Snap.shown, during_sp_self, group_locals] at hn hlt
    rw [group_locals] at hr
    change (r, n) ∈ _ + C.onWay Event.ents _ X.got k
    rw [hway]
    exact Multiset.mem_add.2 (.inr (Multiset.mem_add.2 (.inr (hshown n hn hlt k hk hkj r hr))))
  · rw [Snap.freed, during_sp_self, group_locals] at hn hlt
    rw [group_locals] at hr
    change (r, n) ∈ _ + C.onWay Event.bits _ X.got k
    rw [hway]
    exact Multiset.mem_add.2 (.inr (Multiset.mem_add.2 (.inr (hfreed n hn hlt k hk hkj r hr))))
  · rw [during_sp_self]
    exact hleft r (Finset.mem_range.1 hr)

/-- A rank that leaves, in the middle of the callback of its revoke. -/
structure Parting (C : Crew) (X : Scene) (w : Work) (i : RankInfo) : Prop where
  /-- The group is complete. -/
  full : w.gp.numLocalEntries = C.size
  /-- The rank leaves the version the group is at. -/
  version : X.left i.rank = w.face.num
  /-- No other rank leaves. -/
  others : ∀ r, r ≠ i.rank → X.left r = X.before r
  /-- There are no entries to add. -/
  spent : Spent w

/-- **What a callback does not lose**, in the middle of it. -/
structure Tends (C : Crew) (hin : C.Manned) (j : ℕ) (X : Scene) (w : Work) : Prop where
  /-- What was sent is on its way or has come. -/
  lossless : Lossless (C.group hin) (C.during j X w)
  /-- Entries are added while no rank is marked. -/
  calm : w.ents = [] ∨ w.face.bits = ∅
  /-- A rank leaves. -/
  parting : ∀ i ∈ w.rankRevs, C.Parting X w i

/-- A step in which nothing is sent. -/
theorem passes_of_sent (hj : j < C.num) (hg : ∀ k, X.got j k ≤ ((w.vis j).sent k).length)
    (hs : (w'.vis j).sent = (w.vis j).sent) (hlater : w.face.Later w'.face)
    (hents : ∀ t ∈ (w.vis j).ents, t ∈ (w'.vis j).ents ∨ ¬ w'.face.Wants t.1 t.2)
    (hbits : ∀ t ∈ (w.vis j).bits, t ∈ (w'.vis j).bits ∨ ¬ w'.face.Misses t.1 t.2)
    (hshown : w'.face.shown (C.locals j) ≤ w.face.shown (C.locals j))
    (hfreed : w'.face.freed (C.locals j) ≤ w.face.freed (C.locals j))
    (hleft : ∀ r < C.size, X.leaving w' r = X.leaving w r ∨
      C.spOf r = j ∧ X.leaving w' r ≤ w'.face.num ∧ r ∈ w'.face.bits) :
    Versions.Passes (C.group hin) (C.during j X w) (C.during j X w') j :=
  passes_of (N := fun _ => []) hj hg (fun k => by rw [hs, List.append_nil]) hlater hents hbits
    (fun _ hn hlt => absurd (hn.trans hshown) hlt.not_ge) (fun _ hn hlt => absurd (hn.trans hfreed) hlt.not_ge) hleft

theorem Parting.live {i : RankInfo} (h : C.Parting X w i) (hb : Base (C.site j v hv) M w) :
    w.gp.Live ∧ w.gp.groupSize = C.size := by
  have hs : w.gp.groupSize = C.size := by
    refine hb.counts.size.resolve_left fun h0 => C.pos.ne' ?_
    rw [← h.full]
    exact (hb.counts.unknown h0).1
  exact ⟨hb.counts.live_of_groupSize (hs ▸ C.pos.ne'), hs⟩

theorem Mid.running (hm : Mid C hin j (C.site j v hv) X w) (hr : w.rankRevs ≠ []) : w.final = false :=
  (hm.mode.resolve_left hr).running

/-- **A rank that has left is marked.** -/
theorem Tends.left (h : C.Tends hin j X w) (hb : Base (C.site j v hv) (C.msgs j) w)
    (hm : Mid C hin j (C.site j v hv) X w) (hrev : RevAct (C.site j v hv) T w w') (r : ℕ) :
    X.leaving w' r = X.leaving w r ∨ C.spOf r = j ∧ X.leaving w' r ≤ w'.face.num ∧ r ∈ w'.face.bits := by
  have hsame : w'.rankRevs = w.rankRevs → X.leaving w' r = X.leaving w r := fun hrr => by
    rw [Scene.leaving, Scene.leaving, hrr]
  cases hrev with
  | quiet hrev _ _ | known _ hrev _ _ | entry _ _ _ _ hrev _ _ | apply _ _ _ _ _ _ hrev _ _ | post _ _ hrev _ _
  | reset _ _ hrev _ _ => exact .inl (hsame (congrArg RevState.rankRevs hrev))
  | queue i is hrr hne hrev _ _ =>
    have hp := h.parting i (mem_of_eq_cons hrr)
    exact absurd ((hp.live hb).2.trans hp.full.symm) hne
  | mark i is hrr _ _ hrev _ _ =>
    have hi : i ∈ w.rankRevs := mem_of_eq_cons hrr
    have hp := h.parting i hi
    have hone : w.rev.rankRevs.length ≤ 1 := hm.revs.one
    rw [hrr, List.length_cons] at hone
    have his : is = [] := List.length_eq_zero_iff.1 (by omega)
    have hnil : w'.rankRevs = [] := (congrArg RevState.rankRevs hrev).trans his
    rw [Scene.leaving, Scene.leaving, if_pos hnil, if_neg (List.ne_nil_of_mem hi)]
    by_cases hri : r = i.rank
    · subst hri
      have hbits : w'.face.bits = insert i.rank w.face.bits := congrArg RevState.revoked hrev
      have hnum : w'.face.num = w.face.num := congrArg RevState.num hrev
      refine .inr ⟨(mem_locals.1 (hb.carries.rankRevs i hi).2).2, ?_, ?_⟩
      · rw [hnum, hp.version]
      · rw [hbits]
        exact Finset.mem_insert_self _ _
    · exact .inl (hp.others r hri)

theorem mem_entTok_during {t : ℕ × ℕ} (ht : t ∈ (w.vis j).ents) : t ∈ (C.during j X w).entTok j := by
  refine Multiset.mem_add.2 (.inl ?_)
  rw [Function.update_self]
  exact ht

/-- An entry that is added is of the version that can be added. -/
theorem Mid.next (hj : j < C.num) (hm : Mid C hin j (C.site j v hv) X w) (hbits : w.face.bits = ∅) {t : ℕ × ℕ}
    (ht : t ∈ (w.vis j).ents) : t.2 = w.face.next := by
  have hnext := hm.inv.next_of_entTok (r := t.1) (v := t.2) hj (by rw [during_sp_self]; exact hbits)
    (mem_entTok_during ht)
  rwa [during_sp_self] at hnext

/-- An entry that is used up is no longer wanted. -/
theorem Tends.used (h : C.Tends hin j X w) (hj : j < C.num) (hb : Base (C.site j v hv) (C.msgs j) w)
    (hm : Mid C hin j (C.site j v hv) X w) (ha : Act (C.site j v hv).ctx (· = ((C.site j v hv).size : ℤ)) T w w')
    (hnum : ∀ t ∈ (w.vis j).ents, w'.gp.isSet t.1 = true → w.face.bits = ∅ → w'.face.num = w.face.next) {t : ℕ × ℕ}
    (ht : t ∈ (w.vis j).ents) : t ∈ (w'.vis j).ents ∨ ¬ w'.face.Wants t.1 t.2 := by
  refine (ha.ents_kept msgs_le_site hb ht).imp id fun hadd hw => ?_
  obtain ⟨he, hset⟩ := hadd
  have hbits := h.calm.resolve_left he
  exact hw.2 ⟨(hnum t ht hset hbits).trans (hm.next hj hbits ht).symm, Work.ent_ne_none.2 hset⟩

/-- When the SP has more entries to show, the exchange has sent them. -/
theorem shown_exchange (hok : w.face.Ok (Finset.range C.size) (C.locals j)) (hdue : w.due = true) {n : ℕ}
    (hn : n ≤ w.face.settle.shown (C.locals j)) (hlt : w.face.shown (C.locals j) < n) :
    n = w.face.num ∧ ∀ q ∈ C.locals j, w.face.ent q ≠ none := by
  have hle : n ≤ w.face.num := hn.trans Face.shown_le
  have ha : w.face.Active := by
    by_contra ha
    rw [Face.shown_of_not_active ha] at hlt
    omega
  have hold : w.face.shown (C.locals j) = w.face.num - 1 := if_pos ⟨ha, .inl hdue⟩
  have hone := hok.one ha
  refine ⟨by omega, fun q hq hnone => ?_⟩
  have hnew : w.face.settle.shown (C.locals j) = w.face.num - 1 := if_pos ⟨ha, .inr ⟨q, hq, hnone⟩⟩
  omega

/-- When it has more revokes to show, the rank marked is the last one. -/
theorem freed_mark (hm : Mid C hin j (C.site j v hv) X w) (hb : Base (C.site j v hv) (C.msgs j) w) (hj : j < C.num)
    {i : RankInfo} (hi : i ∈ w.rankRevs) (hfull : w.gp.numLocalEntries = C.size) {n : ℕ}
    (hn : n ≤ Face.freed { w.face with bits := insert i.rank w.face.bits } (C.locals j))
    (hlt : w.face.freed (C.locals j) < n) :
    n = w.face.num ∧ C.locals j ⊆ insert i.rank w.face.bits ∧ w.gp.revokesLocal + 1 = w.gp.spRanks := by
  have hok := hm.ok hj
  have hloc : i.rank ∈ C.locals j := (hb.carries.rankRevs i hi).2
  have ha : w.face.Active := hb.counts.active_iff.2 (hfull ▸ C.pos.ne')
  have hone := hok.one ha
  have hle : n ≤ w.face.num := hn.trans Face.freed_le
  have hnot : ¬ C.locals j ⊆ w.face.bits := fun hsub => by
    rw [Face.freed_of_subset hsub] at hlt
    omega
  have hold : w.face.freed (C.locals j) = w.face.num - 1 := if_pos ⟨ha, hnot⟩
  have hsub : C.locals j ⊆ insert i.rank w.face.bits := by
    by_contra hc
    have hnew : Face.freed { w.face with bits := insert i.rank w.face.bits } (C.locals j) = w.face.num - 1 :=
      if_pos ⟨ha, hc⟩
    omega
  refine ⟨by omega, hsub, ?_⟩
  have hnew : i.rank ∉ w.face.bits := fun hc => hnot fun q hq => by
    rcases Finset.mem_insert.1 (hsub hq) with rfl | hq
    · exact hc
    · exact hq
  rcases hm.revs.count with ⟨-, hl⟩ | ⟨hpos, hp, -, -⟩
  · rw [site_locals] at hl
    have hl : w.gp.revokesLocal = (w.face.bits ∩ C.locals j).card := hl
    have hcard : (insert i.rank (w.face.bits ∩ C.locals j)).card = (w.face.bits ∩ C.locals j).card + 1 :=
      Finset.card_insert_of_notMem fun hc => hnew (Finset.mem_inter.1 hc).1
    rw [← Finset.insert_inter_of_mem hloc, Finset.inter_eq_right.2 hsub] at hcard
    rw [hb.counts.spRanks_of_full hfull, site_locals, hl, hcard]
  · exact absurd (hok.closing ha hp (Finset.mem_range.2 (mem_locals.1 hloc).1)) hnew

/-- A marked rank means that a message of another SP marks no rank, or that all local ranks are marked. -/
theorem Mid.locals_of_apply (hm : Mid C hin j (C.site j v hv) X w) (hb : Base (C.site j v hv) (C.msgs j) w)
    (hj : j < C.num) (hT : (C.site j v hv).TurnTally w.gp.tally) {m : GroupRevokeMsgFromSp} (hmem : m ∈ w.spMsgs)
    {r : ℕ} (hr : r ∈ m.carried) :
    C.locals j ⊆ w.face.bits ∧ w.face.Active ∧ m.gpSeqNum = w.face.num ∧ w.face.due = false := by
  obtain ⟨-, hseq, ha, -⟩ := fresh_of_spMsgs hj (Function.update_self ..) hm.inv hmem hr
  obtain ⟨hn, hsp⟩ := hT.2.resolve_right (hb.counts.active_iff.1 ha)
  have hsub := hm.revs.locals_subset hb.counts (hm.ok hj) hn hsp
  rw [site_locals] at hsub
  refine ⟨hsub, ha, hseq, ?_⟩
  by_contra hd
  obtain ⟨q, hq, hqj⟩ := hin j hj
  have hqb := hsub (mem_locals.2 ⟨hq, hqj⟩)
  rw [(hm.ok hj).due (Bool.not_eq_false _ ▸ hd)] at hqb
  exact Finset.notMem_empty q hqb

/-- So the exchange has sent what the SP has now to show, -/
theorem tokens_exchange (ha : Act (C.site j v hv).ctx (· = ((C.site j v hv).size : ℤ)) T w w')
    (hb : Base (C.site j v hv) (C.msgs j) w) (hm : Mid C hin j (C.site j v hv) X w)
    (hok : w.face.Ok (Finset.range C.size) (C.locals j)) (hconn : (C.sys j).allServiceProcsConnected = true)
    (hj : j < C.num) (hdue : w.due = true) (hface : w'.face = w.face.settle) {N : List Event} {k : ℕ}
    (hsent : (w'.vis j).sent k = (w.vis j).sent k ++ N) {n : ℕ} (hn : n ≤ w'.face.shown (C.locals j))
    (hlt : w.face.shown (C.locals j) < n) (hk : k < C.num) (hkj : k ≠ j) {r : ℕ} (hr : r ∈ C.locals j) :
    (r, n) ∈ tokens Event.ents N := by
  rw [hface] at hn
  obtain ⟨rfl, hall⟩ := shown_exchange hok hdue hn hlt
  obtain ⟨hl, hgp⟩ := ha.exchange_of_due hdue (congrArg Face.due hface)
  obtain ⟨N', hN', n, hent, htok⟩ := exchange_sends hb hm.named hl hconn hall hk hkj hj hr
  rw [hok.ver r n hent] at htok
  have hsent' : (w'.vis j).sent k = (w.vis j).sent k ++ N' := (congrArg (fun s => GpState.sent s j k) hgp).trans hN'
  rw [hsent] at hsent'
  rwa [List.append_cancel_left hsent']

/-- and the revoke of its last rank has sent all revokes. -/
theorem tokens_mark (ha : Act (C.site j v hv).ctx (· = ((C.site j v hv).size : ℤ)) T w w')
    (hb : Base (C.site j v hv) (C.msgs j) w) (hm : Mid C hin j (C.site j v hv) X w) (hj : j < C.num) {i : RankInfo}
    (hrr : w.rankRevs = i :: w'.rankRevs) (hs : w.gp.groupSize = C.size) (hfull : w.gp.numLocalEntries = C.size)
    (hface : w'.face = { w.face with bits := insert i.rank w.face.bits }) {N : List Event} {k : ℕ}
    (hsent : (w'.vis j).sent k = (w.vis j).sent k ++ N) {n : ℕ} (hn : n ≤ w'.face.freed (C.locals j))
    (hlt : w.face.freed (C.locals j) < n) (hk : k < C.num) (hkj : k ≠ j) {r : ℕ} (hr : r ∈ C.locals j) :
    (r, n) ∈ tokens Event.bits N := by
  rw [hface] at hn
  obtain ⟨hl, hgp⟩ := (ha.mark_of_rankRevs hrr).resolve_left (not_not.2 (hs.trans hfull.symm))
  obtain ⟨rfl, hsub, hlast⟩ := freed_mark hm hb hj (mem_of_eq_cons hrr) hfull hn hlt
  have hmark : r ∈ (w.gp.markLocalRank (sizeT i.groupRank)).revokedRanks := by
    have hgp' : w'.gp = w.gp.markLocalRank (sizeT i.groupRank) :=
      (congrArg GpState.gp hgp).trans (tellRankRevoke_gp _ _)
    have hbits : w'.gp.revokedRanks = insert i.rank w.face.bits := congrArg Face.bits hface
    rw [← hgp', hbits]
    exact hsub hr
  obtain ⟨N', hN', htok⟩ := @mark_sends w C j v hv (hb.counts.live hl).1 hs i hlast k hk hkj hj r (mem_locals.1 hr).1
    hmark
  have hsent' : (w'.vis j).sent k = (w.vis j).sent k ++ N' := (congrArg (fun s => GpState.sent s j k) hgp).trans hN'
  rw [hsent] at hsent'
  rw [List.append_cancel_left hsent']
  exact htok

/-- **No action of a callback loses anything.** -/
theorem Tends.passes (h : C.Tends hin j X w) (hj : j < C.num) (hconn : (C.sys j).allServiceProcsConnected = true)
    (hb : Base (C.site j v hv) (C.msgs j) w) (hm : Mid C hin j (C.site j v hv) X w)
    (hleft : ∀ r < C.size, X.leaving w' r = X.leaving w r ∨
      C.spOf r = j ∧ X.leaving w' r ≤ w'.face.num ∧ r ∈ w'.face.bits)
    (ha : Act (C.site j v hv).ctx (· = ((C.site j v hv).size : ℤ)) (C.site j v hv).TurnTally w w')
    (hver : VerAct (C.site j v hv) (C.site j v hv).TurnTally w w') :
    Versions.Passes (C.group hin) (C.during j X w) (C.during j X w') j := by
  have hid : (C.site j v hv).ctx.globalId = j := site_globalId
  have hok : w.face.Ok (Finset.range C.size) (C.locals j) := by
    have hok := hm.ok hj
    rwa [site_locals] at hok
  have hne : (C.locals j).Nonempty := by
    obtain ⟨q, hq, hqj⟩ := hin j hj
    exact ⟨q, mem_locals.2 ⟨hq, hqj⟩⟩
  have hzero : w.gp.revokesGlobal = 0 → w.face.bits = ∅ := hm.revs.revoked_of_zero
  -- what is on its way stays on its way
  have hsame : ∀ {A B : Multiset (ℕ × ℕ)} {P : ℕ × ℕ → Prop}, B = A → ∀ t ∈ A, t ∈ B ∨ ¬ P t := fun he t ht =>
    .inl (he ▸ ht)
  cases hver with
  | quiet hvis =>
    rw [hid] at hvis
    have hface : w'.face = w.face := congrArg Vis.face hvis
    exact passes_of_sent hj hm.got (congrArg Vis.sent hvis) (by rw [hface]; exact .refl _)
      (hsame (congrArg Vis.ents hvis)) (hsame (congrArg Vis.bits hvis)) (by rw [hface]) (by rw [hface]) hleft
  | skipEnt t E hE hvis =>
    rw [hid] at hE hvis
    have hface : w'.face = w.face := congrArg Vis.face hvis
    refine passes_of_sent hj hm.got (by rw [hvis]) (by rw [hface]; exact .refl _)
      (fun t ht => h.used hj hb hm ha (fun t _ hset _ => ?_) ht) (hsame ((congrArg Vis.bits hvis).trans rfl))
      (by rw [hface]) (by rw [hface]) hleft
    have hent : w.face.ent t.1 ≠ none := by
      rw [← hface]
      exact Work.ent_ne_none.2 hset
    rw [hface, Face.next_of_active ⟨t.1, hent⟩]
  | addEnt r n E h0 hnone hE hvis =>
    rw [hid] at hE hvis
    have ht : (r, n) ∈ (w.vis j).ents := by
      rw [hE]
      exact Multiset.mem_cons_self _ _
    have hface : w'.face = w.face.add r w.face.due := by
      have hn : n = w.face.next := hm.next hj (hzero h0) ht
      rw [hn] at hvis
      exact congrArg Vis.face hvis
    have hloc : r ∉ C.locals j := fun hr =>
      ((hm.inv.entTok j hj).2 r n (mem_entTok_during ht)).2.1 (mem_locals.1 hr).2
    refine passes_of_sent hj hm.got (by rw [hvis]) (by rw [hface]; exact .add (hzero h0) r _)
      (fun t ht => h.used hj hb hm ha (fun _ _ _ _ => by rw [hface]; rfl) ht)
      (hsame ((congrArg Vis.bits hvis).trans rfl)) ?_ ?_ hleft
    · rw [hface, Face.add_shown_remote hloc hne]
    · rw [hface, Face.add_freed hne (hzero h0)]
  | skipAdd r n A h0 hset hA =>
    rw [hid] at hA
    exact absurd (ent_of_addTok hj (Function.update_self ..) hm.inv (hzero h0) hA).1 hset
  | addLocal r n A h0 hnone hA hvis =>
    rw [hid] at hA hvis
    have hface : w'.face = w.face.add r true := by
      have hn : n = w.face.next := (ent_of_addTok hj (Function.update_self ..) hm.inv (hzero h0) hA).2
      rw [hn] at hvis
      exact congrArg Vis.face hvis
    have ht : (r, n) ∈ (C.during j X w).addTok j := by
      rw [during, snap_addTok (w := w) (Function.update_self ..), hA]
      exact Multiset.mem_cons_self _ _
    obtain ⟨hra, hrj, -, -⟩ := (hm.inv.addTok j hj).2 r n ht
    have hloc : r ∈ C.locals j := mem_locals.2 ⟨Finset.mem_range.1 hra, hrj⟩
    refine passes_of_sent hj hm.got (by rw [hvis]) (by rw [hface]; exact .add (hzero h0) r _)
      (hsame ((congrArg Vis.ents hvis).trans rfl)) (hsame ((congrArg Vis.bits hvis).trans rfl)) ?_ ?_ hleft
    · rw [hface, Face.add_shown_local hloc hnone]
    · rw [hface, Face.add_freed hne (hzero h0)]
  | exchange N hdue hvis hN =>
    rw [hid] at hvis
    have hface : w'.face = w.face.settle := congrArg Vis.face hvis
    have hsent : ∀ k, (w'.vis j).sent k = (w.vis j).sent k ++ N k := fun k => by rw [hvis]
    refine passes_of hj hm.got hsent (by rw [hface]; exact .settle _) (hsame ((congrArg Vis.ents hvis).trans rfl))
      (hsame ((congrArg Vis.bits hvis).trans rfl))
      (fun n hn hlt k hk hkj r hr => tokens_exchange ha hb hm hok hconn hj hdue hface (hsent k) hn hlt hk hkj hr)
      (fun n hn hlt => ?_) hleft
    rw [hface] at hn
    exact absurd hn hlt.not_ge
  | mark i N hrr hs hn hvis hN =>
    rw [hid] at hvis
    have hface : w'.face = { w.face with bits := insert i.rank w.face.bits } := congrArg Vis.face hvis
    have hsent : ∀ k, (w'.vis j).sent k = (w.vis j).sent k ++ N k := fun k => by rw [hvis]
    refine passes_of hj hm.got hsent (by rw [hface]; exact .mark (Finset.subset_insert _ _))
      (hsame ((congrArg Vis.ents hvis).trans rfl)) (hsame ((congrArg Vis.bits hvis).trans rfl)) (fun n hn hlt => ?_)
      (fun n hn' hlt k hk hkj r hr => tokens_mark ha hb hm hj hrr hs hn hface (hsent k) hn' hlt hk hkj hr) hleft
    rw [hface] at hn
    exact absurd hn hlt.not_ge
  | apply m Q hQ hT hvis hnotes =>
    rw [hid] at hQ hvis
    have hface : w'.face = { w.face with bits := w.face.bits ∪ m.carried.toFinset } := congrArg Vis.face hvis
    have hmem : m ∈ w.spMsgs := by
      apply Multiset.mem_coe.1
      change m ∈ (w.vis j).msgs
      rw [hQ]
      exact Multiset.mem_cons_self _ _
    refine passes_of_sent hj hm.got (by rw [hvis]) (by rw [hface]; exact .mark Finset.subset_union_left)
      (hsame ((congrArg Vis.ents hvis).trans rfl)) (fun t ht => ?_) (by rw [hface]; exact le_rfl) ?_ hleft
    · rw [Vis.bits, hQ, Multiset.cons_bind] at ht
      rcases Multiset.mem_add.1 ht with ht | ht
      · -- the rank is marked now
        obtain ⟨r, hr, rfl⟩ := List.mem_map.1 (Multiset.mem_coe.1 ht)
        have hseq := (hm.locals_of_apply hb hj hT hmem hr).2.2.1
        refine .inr fun hmiss => hmiss.2 ⟨?_, ?_⟩
        · rw [hface]
          exact hseq.symm
        · rw [hface]
          exact Finset.mem_union_right _ (List.mem_toFinset.2 hr)
      · refine .inl ?_
        rw [Vis.bits, hvis]
        exact ht
    · rw [hface]
      rcases m.carried.toFinset.eq_empty_or_nonempty with h0 | ⟨r, hr⟩
      · rw [h0, Finset.union_empty]
      · have hsub := (hm.locals_of_apply hb hj hT hmem (List.mem_toFinset.1 hr)).1
        rw [Face.freed_of_subset hsub]
        exact Face.freed_le
  | post hg hlt hvis =>
    rw [hid] at hvis
    have hface : w'.face = w.face.post := congrArg Vis.face hvis
    exact passes_of_sent hj hm.got (by rw [hvis]) (by rw [hface]; exact .post _)
      (hsame ((congrArg Vis.ents hvis).trans rfl)) (hsame ((congrArg Vis.bits hvis).trans rfl))
      (by rw [hface]; exact le_rfl) (by rw [hface]; exact le_rfl) hleft
  | reset hf hvis =>
    rw [hid] at hvis
    have hface : w'.face = w.face.reset := congrArg Vis.face hvis
    obtain ⟨hpos, hp⟩ := hm.revs.final hf
    have hact : w.face.Active := hb.counts.active_iff.2 hpos.ne'
    have hall := hok.closing hact hp
    have hloc : C.locals j ⊆ w.face.bits := fun q hq => hall (Finset.mem_range.2 (mem_locals.1 hq).1)
    have hbits : w.face.bits.Nonempty := hne.mono hloc
    refine passes_of_sent hj hm.got (by rw [hvis]) (by rw [hface]; exact .reset _)
      (hsame ((congrArg Vis.ents hvis).trans rfl)) (hsame ((congrArg Vis.bits hvis).trans rfl)) ?_ ?_ hleft
    · have hdue : w.face.due = false := by
        rw [← Bool.not_eq_true]
        exact fun hd => hbits.ne_empty (hok.due hd)
      rw [hface, Face.shown_of_not_active Face.reset_idle, Face.shown_of_full hdue fun q hq =>
        hok.full hbits q (Finset.mem_range.2 (mem_locals.1 hq).1)]
      exact le_rfl
    · rw [hface, Face.freed_of_not_active Face.reset_idle, Face.freed_of_subset hloc]
      exact le_rfl

/-- Entries are added while no rank is marked. -/
theorem Tends.calm_act (h : C.Tends hin j X w) (hj : j < C.num) (hb : Base (C.site j v hv) (C.msgs j) w)
    (hm : Mid C hin j (C.site j v hv) X w) (hm' : Mid C hin j (C.site j v hv) X w')
    (ha : Act (C.site j v hv).ctx (· = ((C.site j v hv).size : ℤ)) (C.site j v hv).TurnTally w w')
    (hrev : RevAct (C.site j v hv) (C.site j v hv).TurnTally w w') : w'.ents = [] ∨ w'.face.bits = ∅ := by
  by_cases he : w.ents = []
  · exact (ha.ents_nil he).imp id hm'.revs.revoked_of_zero
  have hbits : w.face.bits = ∅ := h.calm.resolve_left he
  have hsame : w'.face.bits = w.face.bits → w'.ents = [] ∨ w'.face.bits = ∅ := fun hr => .inr (hr.trans hbits)
  cases hrev with
  | quiet hrev _ _ | known _ hrev _ _ | entry _ _ _ _ hrev _ _ | queue _ _ _ _ hrev _ _ | post _ _ hrev _ _ =>
    exact hsame (congrArg RevState.revoked hrev)
  | mark i is hrr _ _ hrev _ _ => exact absurd (h.parting i (mem_of_eq_cons hrr)).spent.ents he
  | apply m k hmem hT _ _ hrev _ _ =>
    rcases m.carried.toFinset.eq_empty_or_nonempty with h0 | ⟨r, hr⟩
    · rw [h0, Finset.union_empty] at hrev
      exact hsame (congrArg RevState.revoked hrev)
    · have hsub := (hm.locals_of_apply hb hj hT (List.mem_append_left _ (List.mem_append_right _ hmem))
        (List.mem_toFinset.1 hr)).1
      obtain ⟨q, hq, hqj⟩ := hin j hj
      have hqb := hsub (mem_locals.2 ⟨hq, hqj⟩)
      rw [hbits] at hqb
      exact absurd hqb (Finset.notMem_empty q)
  | reset _ _ hrev _ _ => exact .inr (congrArg RevState.revoked hrev)

/-- **What a callback does not lose is kept by its actions.** -/
theorem Tends.act (h : C.Tends hin j X w) (hj : j < C.num) (hX : ∀ r, X.before r ≤ X.left r)
    (hconn : (C.sys j).allServiceProcsConnected = true) (hb : Base (C.site j v hv) (C.msgs j) w)
    (hm : Mid C hin j (C.site j v hv) X w)
    (ha : Act (C.site j v hv).ctx (· = ((C.site j v hv).size : ℤ)) (C.site j v hv).TurnTally w w') :
    C.Tends hin j X w' := by
  have hT : ∀ t, (C.site j v hv).TurnTally t → t.groupSize = (C.site j v hv).size := fun t ht => ht.1
  have hown : ∀ r < (C.site j v hv).size, C.spOf r = (C.site j v hv).ctx.globalId → r ∈ (C.site j v hv).locals := by
    intro r hr hsp
    rw [site_globalId] at hsp
    rw [site_locals]
    exact mem_locals.2 ⟨hr, hsp⟩
  have hb' := hb.act msgs_le_site hT ha
  have hm' := hm.act hj hX hb ha
  have hrev := ha.revAct msgs_le_site hT hb
  have hleft := h.left hb hm hrev
  have hver := ha.verAct msgs_le hT hv.1 hown hb hm.named
  refine ⟨h.lossless.step (h.passes hj hconn hb hm (fun r _ => hleft r) ha hver), h.calm_act hj hb hm hm' ha hrev,
    fun i hi => ?_⟩
  have hi' : i ∈ w.rankRevs := hrev.rankRevs_subset hi
  have hp := h.parting i hi'
  have hf := hm.running (List.ne_nil_of_mem hi')
  obtain ⟨hn, hnum⟩ := hrev.leaving hb'.counts hm.revs.one hf hp.full (List.ne_nil_of_mem hi)
  exact ⟨hn, hp.version.trans hnum.symm, hp.others, hp.spent.act (hp.live hb).1 hf ha⟩

end Crew

end DpuOffload
