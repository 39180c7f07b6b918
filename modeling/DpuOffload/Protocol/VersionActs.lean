import DpuOffload.Protocol.Messages
import DpuOffload.Protocol.RevokeActs
import DpuOffload.Protocol.Versions

/-!
# What a callback does to the version of a group

For the versions of a group a callback is what the protocol sees of it (`Vis`): the version
and the entries and revokes of the group (`Work.face`), the entries, additions and revoke
messages it has in hand or has put aside, and what it has sent to the other SPs. `VerAct` lists
what an action can do to it, and `Act.verAct` says that every action on an SP that knows which
ranks are its own is one of these.
-/

namespace DpuOffload

open Versions

/-! ### What the protocol sees of a callback -/

/-- The version of a group, its entries and its revokes. -/
def Work.face (w : Work) : Face ℕ where
  num := w.gp.persistent.num
  posted := w.gp.persistent.revokeSendToHostPosted
  ent r := if w.gp.isSet r then some (w.gp.entryAt r).peer.procInfo.groupSeqNum else none
  bits := w.gp.revokedRanks
  due := w.due

/-- The rank and the version of an entry. -/
def PeerCacheEntry.tok (e : PeerCacheEntry) : ℕ × ℕ := (e.peer.procInfo.rank, e.peer.procInfo.groupSeqNum)

/-- The rank and the version of an addition. -/
def PendingGroupAdd.tok (p : PendingGroupAdd) : ℕ × ℕ := (p.data.rankInfo.rank, p.data.rankInfo.groupSeqNum)

/-- The ranks a message reports, at its version. -/
def GroupRevokeMsgFromSp.toks (m : GroupRevokeMsgFromSp) : Multiset (ℕ × ℕ) := m.carried.map fun r => (r, m.gpSeqNum)

/-- The entries in hand and put aside. -/
def Work.allEnts (w : Work) : List PeerCacheEntry := w.batch ++ w.ents ++ w.gp.parked.flatMap (·.payload)

/-- The additions in hand and put aside. -/
def Work.allAdds (w : Work) : List PendingGroupAdd := w.adds ++ w.gp.persistent.pendingGroupAddMsgs

/-- What the protocol sees of an SP. -/
@[ext]
structure Vis where
  /-- The version, the entries and the revokes. -/
  face : Face ℕ
  /-- The entries in hand and put aside. -/
  ents : Multiset (ℕ × ℕ)
  /-- The additions in hand and put aside. -/
  adds : Multiset (ℕ × ℕ)
  /-- The revoke messages in hand and put aside. -/
  msgs : Multiset GroupRevokeMsgFromSp
  /-- What was sent to each SP. -/
  sent : ℕ → List Event

/-- What the protocol sees of SP `src` in the middle of a callback. -/
def Work.vis (w : Work) (src : ℕ) : Vis where
  face := w.face
  ents := w.allEnts.map PeerCacheEntry.tok
  adds := w.allAdds.map PendingGroupAdd.tok
  msgs := w.spMsgs
  sent := w.toGpState.sent src

/-- An entry of version `v` is added. -/
noncomputable def Versions.Face.put (f : Face ℕ) (r v : ℕ) (due : Bool) : Face ℕ :=
  { f with num := f.next, ent := Function.update f.ent r (some v), due := due }

theorem Versions.Face.put_ent_self (f : Face ℕ) (r v : ℕ) (due : Bool) : (f.put r v due).ent r = some v :=
  Function.update_self ..

theorem Versions.Face.put_ent_of_ne (f : Face ℕ) {r q : ℕ} (h : q ≠ r) (v : ℕ) (due : Bool) :
    (f.put r v due).ent q = f.ent q := Function.update_of_ne h ..

variable {S : Site} {T : Tally → Prop} {w w' : Work} {src : ℕ} {own : ℕ → ℕ}

/-- An action on the revokes. -/
theorem face_of_ranks (hr : w'.gp.ranks = w.gp.ranks) (hn : w'.gp.persistent.num = w.gp.persistent.num)
    (hp : w'.gp.persistent.revokeSendToHostPosted = w.gp.persistent.revokeSendToHostPosted) (hd : w'.due = w.due) :
    w'.face = { w.face with bits := w'.gp.revokedRanks } := by
  have hset : w'.gp.isSet = w.gp.isSet := funext fun r => isSet_congr hr r
  have hat : w'.gp.entryAt = w.gp.entryAt := by
    funext r
    simp only [GroupCache.entryAt, GroupCache.entries, hr]
  simp only [Work.face, hset, hat, hn, hp, hd]

theorem face_congr (hr : w'.gp.ranks = w.gp.ranks) (hn : w'.gp.persistent.num = w.gp.persistent.num)
    (hp : w'.gp.persistent.revokeSendToHostPosted = w.gp.persistent.revokeSendToHostPosted)
    (hb : w'.gp.revokedRanks = w.gp.revokedRanks) (hd : w'.due = w.due) : w'.face = w.face := by
  rw [face_of_ranks hr hn hp hd, hb]
  rfl

/-- An action that moves messages around. -/
theorem vis_congr (hf : w'.face = w.face) (he : w'.allEnts.Perm w.allEnts) (ha : w'.allAdds.Perm w.allAdds)
    (hm : w'.spMsgs.Perm w.spMsgs) (hs : w'.toGpState.sent src = w.toGpState.sent src) : w'.vis src = w.vis src := by
  ext1
  · exact hf
  · exact Multiset.coe_eq_coe.2 (he.map _)
  · exact Multiset.coe_eq_coe.2 (ha.map _)
  · exact Multiset.coe_eq_coe.2 hm
  · exact hs

/-! ### Entries -/

/-- The entries of a group name their ranks and their SPs. -/
structure Named (S : Site) (own : ℕ → ℕ) (g : GroupCache) : Prop where
  /-- One that is set. -/
  right : ∀ r, g.isSet r = true → S.Info (g.entryAt r).peer.procInfo ∧ (g.entryAt r).peer.procInfo.rank = r ∧
    (g.entryAt r).shadow0 = own r
  /-- One that is not. -/
  blank : ∀ r, g.isSet r = false → (g.entryAt r).shadowServiceProcs = []

/-- Messages about the group as an SP gets them, with the SPs of the ranks. -/
def Site.namedMsgs (S : Site) (own : ℕ → ℕ) : MsgSpec :=
  { S.msgs with
    entry := fun e => S.Info e.peer.procInfo ∧ e.peer.procInfo.rank ∉ S.locals ∧ e.shadow0 = own e.peer.procInfo.rank }

theorem Site.namedMsgs_le (S : Site) (own : ℕ → ℕ) : (S.namedMsgs own).Le S.msgs :=
  ⟨fun _ h => ⟨h.1, h.2.1⟩, fun _ h => h, fun _ h => h, fun _ h => h⟩

theorem Counts.isSet_lt (h : Counts S w) {r : ℕ} (hr : w.gp.isSet r = true) : r < S.size := by
  by_contra hlt
  by_cases hl : w.gp.Live
  · obtain ⟨-, l, hlr, hlen⟩ := h.live hl
    have hblank : w.gp.entryAt r = initPeerCacheEntry := by
      rw [GroupCache.entryAt, GroupCache.entries, hlr]
      exact List.getD_eq_default _ _ (hlen ▸ not_lt.1 hlt)
    rw [GroupCache.isSet, hblank] at hr
    cases hr
  · have hnone : w.gp.ranks = none := congrArg GroupCache.ranks (h.dead hl)
    rw [isSet_of_ranks_none hnone] at hr
    cases hr

theorem Work.ent_ne_none {r : ℕ} : w.face.ent r ≠ none ↔ w.gp.isSet r = true := by
  simp [Work.face]

theorem Work.ent_eq_none {r : ℕ} : w.face.ent r = none ↔ w.gp.isSet r = false := by
  simp [Work.face]

theorem Work.ent_eq_some {r v : ℕ} :
    w.face.ent r = some v ↔ w.gp.isSet r = true ∧ (w.gp.entryAt r).peer.procInfo.groupSeqNum = v := by
  simp [Work.face]

theorem Counts.active_iff (h : Counts S w) : w.face.Active ↔ w.gp.numLocalEntries ≠ 0 := by
  rw [h.entries, ne_eq, Finset.card_eq_zero, ← ne_eq, ← Finset.nonempty_iff_ne_empty]
  constructor
  · rintro ⟨r, hr⟩
    have hset := Work.ent_ne_none.1 hr
    exact ⟨r, Site.mem_setRanks.2 ⟨h.isSet_lt hset, hset⟩⟩
  · rintro ⟨r, hr⟩
    exact ⟨r, Work.ent_ne_none.2 (Site.mem_setRanks.1 hr).2⟩

theorem Counts.next_eq (h : Counts S w) :
    w.face.next = if w.gp.numLocalEntries = 0 then w.gp.persistent.num + 1 else w.gp.persistent.num := by
  by_cases h0 : w.gp.numLocalEntries = 0
  · rw [if_pos h0, Face.next_of_not_active fun ha => h.active_iff.1 ha h0]
    rfl
  · rw [if_neg h0, Face.next_of_active (h.active_iff.2 h0)]
    rfl

/-- A complete group has an entry for each rank. -/
theorem Counts.ent_of_full (h : Counts S w) (hn : w.gp.numLocalEntries = S.size) {r : ℕ} (hr : r < S.size) :
    w.face.ent r ≠ none := by
  have hm : r ∈ S.setRanks w.gp := by
    rw [h.setRanks_of_full hn]
    exact Finset.mem_range.2 hr
  exact Work.ent_ne_none.2 (Site.mem_setRanks.1 hm).2

/-- An entry is added. -/
theorem Counts.face_put (h : Counts S w) {r : ℕ} (hl : w.gp.Live) (hr : r < S.size) {e : PeerCacheEntry}
    (he : e.set = true) (hranks : w'.gp.ranks = w.gp.ranks.map (·.set r e))
    (hp : w'.gp.persistent = w.gp.switchVersion.persistent) (hb : w'.gp.revokesRanks = w.gp.revokesRanks) :
    w'.face = w.face.put r e.peer.procInfo.groupSeqNum w'.due := by
  have hlen : r < w.gp.entries.length := by
    obtain ⟨-, l, hlr, hlen⟩ := h.live hl
    rw [GroupCache.entries, hlr]
    exact hlen ▸ hr
  have hat := entryAt_map_set hlen hranks
  ext1
  · change w'.gp.persistent.num = w.face.next
    rw [hp, h.next_eq, GroupCache.switchVersion]
    split <;> rfl
  · change w'.gp.persistent.revokeSendToHostPosted = w.gp.persistent.revokeSendToHostPosted
    rw [hp, GroupCache.switchVersion]
    split <;> rfl
  · funext q
    by_cases hq : q = r
    · subst hq
      have hset : w'.gp.isSet q = true := by
        rw [GroupCache.isSet, hat, if_pos rfl]
        exact he
      rw [Face.put_ent_self]
      refine Work.ent_eq_some.2 ⟨hset, ?_⟩
      rw [hat, if_pos rfl]
    · rw [Face.put_ent_of_ne _ hq]
      have hset : w'.gp.isSet q = w.gp.isSet q := by rw [GroupCache.isSet, hat, if_neg hq, GroupCache.isSet]
      change (if w'.gp.isSet q then some (w'.gp.entryAt q).peer.procInfo.groupSeqNum else none) = _
      rw [hset, hat, if_neg hq]
      rfl
  · exact revokedRanks_congr hb
  · rfl

/-! ### Names -/

theorem Named.congr {g g' : GroupCache} (h : Named S own g) (hr : g'.ranks = g.ranks) : Named S own g' := by
  have hset : g'.isSet = g.isSet := funext fun r => isSet_congr hr r
  have hat : g'.entryAt = g.entryAt := by
    funext r
    simp only [GroupCache.entryAt, GroupCache.entries, hr]
  constructor
  · rw [hset, hat]
    exact h.right
  · rw [hset, hat]
    exact h.blank

theorem Named.of_blank {g : GroupCache} (hat : ∀ r, g.entryAt r = initPeerCacheEntry) : Named S own g := by
  constructor
  · intro r hr
    rw [GroupCache.isSet, hat] at hr
    cases hr
  · intro r _
    rw [hat]
    rfl

theorem Named.put {g g' : GroupCache} (h : Named S own g) {r : ℕ} (hr : r < g.entries.length) {e : PeerCacheEntry}
    (hranks : g'.ranks = g.ranks.map (·.set r e)) (he : e.set = true) (hi : S.Info e.peer.procInfo)
    (hrank : e.peer.procInfo.rank = r) (hsp : e.shadow0 = own r) : Named S own g' := by
  have hat := entryAt_map_set hr hranks
  constructor
  · intro q hq
    rw [GroupCache.isSet] at hq
    rw [hat] at hq ⊢
    by_cases hqr : q = r
    · subst hqr
      rw [if_pos rfl]
      exact ⟨hi, hrank, hsp⟩
    · rw [if_neg hqr] at hq ⊢
      exact h.right q hq
  · intro q hq
    rw [GroupCache.isSet] at hq
    rw [hat] at hq ⊢
    by_cases hqr : q = r
    · rw [if_pos hqr, he] at hq
      cases hq
    · rw [if_neg hqr] at hq ⊢
      exact h.blank q hq

theorem Counts.length_entries (h : Counts S w) (hl : w.gp.Live) : w.gp.entries.length = S.size := by
  obtain ⟨-, l, hlr, hlen⟩ := h.live hl
  rw [GroupCache.entries, hlr]
  exact hlen

/-- **No action makes a name up.** -/
theorem Named.act (hown : ∀ r ∈ S.locals, own r = S.ctx.globalId) (h : Named S own w.gp) (hc : Counts S w)
    (hm : Carries (S.namedMsgs own) w) (ha : Act S.ctx (· = (S.size : ℤ)) T w w') : Named S own w'.gp := by
  cases ha with
  | init size hs hl => exact Named.of_blank (entryAt_replicate (k := allocEntries (sizeT size)) rfl)
  | learn size hs hl => exact h.congr (learnGroupSize_ranks _ _ _)
  | @addEntry e es he hl hL h0 hset =>
    obtain ⟨hi, -, hsp⟩ := hm.ents e (mem_of_eq_cons he)
    obtain ⟨t, ht⟩ := addPeerEntry_eq S.ctx w.gp e
    have hb : (w.gp.entryAt (sizeT e.peer.procInfo.groupRank)).shadowServiceProcs = [] := h.blank _ hset
    refine h.put (r := e.peer.procInfo.rank) (e := w.gp.peerEntry e) ?_ (by rw [ht]; rfl) rfl hi rfl ?_
    · rw [hc.length_entries hl]
      exact hi.rank_lt
    · rw [PeerCacheEntry.shadow0, GroupCache.peerEntry, hb]
      exact hsp
  | sendCache hl h0 hf =>
    obtain ⟨t, ht⟩ := sendGpCacheToHost_gp w.toGpState
    exact h.congr (by simp only [ht])
  | @addLocal p ps ha hl hL h0 hset =>
    obtain ⟨hi, hloc, -⟩ := hm.adds p (mem_of_eq_cons ha)
    obtain ⟨t, k, sp, ht, -⟩ := addGroupRank_eq S.ctx w.gp p.clientId p.data
    refine h.put (r := p.data.rankInfo.rank) (e := localEntry S.ctx p.clientId p.data.rankInfo) ?_ (by rw [ht]; rfl) rfl
      hi rfl ?_
    · rw [hc.length_entries hl]
      exact hi.rank_lt
    · exact (hown _ hloc).symm
  | exchange hdue hl =>
    obtain ⟨t, ht⟩ := @groupCacheExchange_gp S.ctx w.toGpState w.gp.spRanks
    exact h.congr (by simp only [ht])
  | markLocal hr hl hn => exact h.congr (by simp only [tellRankRevoke_gp]; rfl)
  | accept hr hl hdl hT' =>
    apply h.congr
    unfold GroupCache.learnFromRevoke
    split <;> rfl
  | reset hf he hdue => exact Named.of_blank (entryAt_of_ranks_none rfl)
  | hostAdd hd' _ | hostPark hd' _ _ | hostTake hd' _ | hostRevoke _ hd' =>
    rw [S.onDpu] at hd'
    cases hd'
  | _ => exact h.congr rfl

/-! ### The actions -/

/-- **What an action does to the version of a group.** -/
inductive VerAct (S : Site) (T : Tally → Prop) (w w' : Work) : Prop
  /-- Nothing. -/
  | quiet : w'.vis S.ctx.globalId = w.vis S.ctx.globalId → VerAct S T w w'
  /-- An entry is in the cache already. -/
  | skipEnt (t : ℕ × ℕ) (E : Multiset (ℕ × ℕ)) : (w.vis S.ctx.globalId).ents = t ::ₘ E →
      w'.vis S.ctx.globalId = { w.vis S.ctx.globalId with ents := E } → VerAct S T w w'
  /-- An entry is added. -/
  | addEnt (r v : ℕ) (E : Multiset (ℕ × ℕ)) : w.gp.revokesGlobal = 0 → w.face.ent r = none →
      (w.vis S.ctx.globalId).ents = (r, v) ::ₘ E →
      w'.vis S.ctx.globalId = { w.vis S.ctx.globalId with face := w.face.put r v w.due, ents := E } → VerAct S T w w'
  /-- A rank that is added is in the cache already. -/
  | skipAdd (r v : ℕ) (A : Multiset (ℕ × ℕ)) : w.gp.revokesGlobal = 0 → w.face.ent r ≠ none →
      (w.vis S.ctx.globalId).adds = (r, v) ::ₘ A → VerAct S T w w'
  /-- A local rank is added. -/
  | addLocal (r v : ℕ) (A : Multiset (ℕ × ℕ)) : w.gp.revokesGlobal = 0 → w.face.ent r = none →
      (w.vis S.ctx.globalId).adds = (r, v) ::ₘ A →
      w'.vis S.ctx.globalId = { w.vis S.ctx.globalId with face := w.face.put r v true, adds := A } → VerAct S T w w'
  /-- The exchange that follows. -/
  | exchange (N : ℕ → List Event) : w.due = true →
      w'.vis S.ctx.globalId = { w.vis S.ctx.globalId with
        face := w.face.settle, sent := fun d => (w.vis S.ctx.globalId).sent d ++ N d } →
      (∀ d, N d ≠ [] → d ∈ S.ctx.otherSps ∧ (∀ q ∈ S.locals, w.face.ent q ≠ none) ∧
        ∃ l : List ℕ, N d = l.map (fun r => .peerCacheEntries S.ctx.globalId [w.gp.entryAt r]) ∧ l.Nodup ∧
          ∀ r ∈ l, r ∈ S.locals ∧ w.gp.isSet r = true) → VerAct S T w w'
  /-- A local rank is marked. -/
  | mark (i : RankInfo) (N : ℕ → List Event) : w.rankRevs = i :: w'.rankRevs → w.gp.groupSize = S.size →
      w.gp.numLocalEntries = S.size →
      w'.vis S.ctx.globalId = { w.vis S.ctx.globalId with
        face := { w.face with bits := insert i.rank w.face.bits }
        sent := fun d => (w.vis S.ctx.globalId).sent d ++ N d } →
      (∀ d, N d ≠ [] → d ∈ S.ctx.otherSps ∧ w.gp.revokesLocal + 1 = w.gp.spRanks ∧
        ∃ ms : List GroupRevokeMsgFromSp, N d = ms.map .revokeFromSp ∧ (ms.flatMap (·.carried)).Nodup ∧
          (∀ r ∈ ms.flatMap (·.carried), r ∈ insert i.rank w.face.bits) ∧
          ∀ m ∈ ms, m.groupSize = S.size ∧ m.gpSeqNum = w.face.num ∧ m.rankStart + m.numRanks ≤ S.size) →
      VerAct S T w w'
  /-- A message of an SP is applied. -/
  | apply (m : GroupRevokeMsgFromSp) (Q : Multiset GroupRevokeMsgFromSp) : (w.vis S.ctx.globalId).msgs = m ::ₘ Q →
      T w.gp.tally →
      w'.vis S.ctx.globalId = { w.vis S.ctx.globalId with
        face := { w.face with bits := w.face.bits ∪ m.carried.toFinset }, msgs := Q } →
      (∀ r ∈ m.carried, r ∉ w.face.bits → .markedFromSp r m.gpSeqNum w.face.num ∈ w'.notes) → VerAct S T w w'
  /-- The final revoke is posted. -/
  | post : w.gp.revokesGlobal = w.gp.groupSize → w.face.posted < w.face.num →
      w'.vis S.ctx.globalId = { w.vis S.ctx.globalId with face := w.face.post } → VerAct S T w w'
  /-- The version ends. -/
  | reset : w.final = true → w'.vis S.ctx.globalId = { w.vis S.ctx.globalId with face := w.face.reset } → VerAct S T w w'

variable {M : MsgSpec}

theorem learnGroupSize_revokedRanks (h : Counts S w) (hl : w.gp.Live) :
    (w.gp.learnGroupSize S.ctx.hosts S.size).revokedRanks = w.gp.revokedRanks := by
  by_cases h0 : w.gp.groupSize = 0
  · rw [GroupCache.learnGroupSize, if_pos ⟨(h.live hl).1, h0, Int.natCast_nonneg _⟩, (h.unknown h0).2.1,
      h.revoked_of_unknown h0]
    exact Bitset.bits_create _
  · rw [learnGroupSize_of_known h0]

theorem learnFromRevoke_revokedRanks (h : Counts S w) (m : GroupRevokeMsgFromSp) :
    (w.gp.learnFromRevoke m).revokedRanks = w.gp.revokedRanks := by
  unfold GroupCache.learnFromRevoke
  split
  · rename_i h0
    rw [h.revoked_of_unknown h0, GroupCache.revokedRanks, (h.unknown h0).2.1]
    exact Bitset.bits_create _
  · rfl

/-- A lookup changes nothing that can be seen. -/
theorem Counts.face_init (h : Counts S w) (hl : ¬ w.gp.Live) (n : ℕ) (uid : ℤ) :
    Work.face { w with gp := { initGroupCache w.gp n with groupUid := uid } } = w.face := by
  have hranks : w.gp.ranks = none := congrArg GroupCache.ranks (h.dead hl)
  have hbits : w.gp.revokesRanks = none := congrArg GroupCache.revokesRanks (h.dead hl)
  ext1
  · rfl
  · rfl
  · funext r
    rw [Work.ent_eq_none.2 (isSet_of_ranks_none hranks r)]
    exact Work.ent_eq_none.2 (isSet_replicate (k := allocEntries n) rfl r)
  · exact (revokedRanks_of_none rfl).trans (revokedRanks_of_none hbits).symm
  · rfl

theorem allEnts_congr (hq : w'.gp.queues = w.gp.queues) (hb : w'.batch = w.batch) :
    w'.allEnts = w.batch ++ w'.ents ++ w.gp.parked.flatMap (·.payload) := by
  rw [Work.allEnts, hb, GroupCache.parked, hq]
  rfl

theorem allAdds_congr (hq : w'.gp.queues = w.gp.queues) :
    w'.allAdds = w'.adds ++ w.gp.persistent.pendingGroupAddMsgs := by
  have h : w'.gp.queues.pendingGroupAddMsgs = w.gp.queues.pendingGroupAddMsgs := by rw [hq]
  exact congrArg (w'.adds ++ ·) h

theorem spMsgs_congr (hq : w'.gp.queues = w.gp.queues) :
    w'.spMsgs = w'.revs ++ w'.taken ++ w.gp.persistent.pendingGroupRevokeMsgsFromSps := by
  have h : w'.gp.queues.pendingGroupRevokeMsgsFromSps = w.gp.queues.pendingGroupRevokeMsgsFromSps := by rw [hq]
  exact congrArg (w'.revs ++ w'.taken ++ ·) h

/-- An action on what the protocol does not see. -/
theorem vis_of_queues (hf : w'.face = w.face) (hq : w'.gp.queues = w.gp.queues) (hb : w'.batch = w.batch)
    (he : w'.ents = w.ents) (ha : w'.adds = w.adds) (hr : w'.revs = w.revs) (ht : w'.taken = w.taken)
    (hs : w'.toGpState.sent src = w.toGpState.sent src) : w'.vis src = w.vis src := by
  refine vis_congr hf (.of_eq ?_) (.of_eq ?_) (.of_eq ?_) hs
  · rw [allEnts_congr hq hb, he]; rfl
  · rw [allAdds_congr hq, ha]; rfl
  · rw [spMsgs_congr hq, hr, ht]; rfl

theorem sent_append (gp gp' : GroupCache) (out : List Effect) {l : List Effect} (hl : ∀ x ∈ l, ∀ d, x.toSp src d = none) :
    GpState.sent ⟨gp', out ++ l⟩ src = GpState.sent ⟨gp, out⟩ src := by
  funext d
  rw [GpState.sent, List.filterMap_append, List.filterMap_eq_nil_iff.2 fun x hx => hl x hx d, List.append_nil]
  rfl

/-- The entries of the ranks of an SP that are set. -/
theorem mem_locals_of_shadow0 (hown : ∀ r < S.size, own r = S.ctx.globalId → r ∈ S.locals) (hn : Named S own w.gp)
    (hc : Counts S w) {r : ℕ} (hset : w.gp.isSet r = true) (hsp : (w.gp.entryAt r).shadow0 = S.ctx.globalId) :
    r ∈ S.locals :=
  hown r (hc.isSet_lt hset) ((hn.right r hset).2.2.symm.trans hsp)

/-- A rank that is set is valid. -/
theorem Named.valid (hn : Named S own w.gp) :
    ∀ e ∈ w.gp.entries, e.set = true → e.peer.procInfo.groupRank ≠ INVALID_RANK := by
  intro e he hset
  obtain ⟨r, hr, rfl⟩ := List.getElem_of_mem he
  have hat : w.gp.entryAt r = w.gp.entries[r] := by simp [GroupCache.entryAt, List.getD_eq_getElem?_getD, hr]
  have hset' : w.gp.isSet r = true := by rw [GroupCache.isSet, hat]; exact hset
  have h0 := (hn.right r hset').1.nonneg
  rw [hat] at h0
  intro hinv
  rw [hinv] at h0
  exact absurd h0 (by decide)

theorem mem_revokedRanks {g : GroupCache} {r : ℕ} : r ∈ g.revokedRanks ↔ g.revoked r = true := Bitset.mem_bits

theorem perm_cons_middle {α : Type} (a b c : List α) (x : α) : (a ++ (x :: b) ++ c).Perm (x :: (a ++ b ++ c)) := by
  rw [List.append_assoc, List.cons_append, List.append_assoc]
  exact List.perm_middle

/-- The exchange that was due is over. -/
theorem face_settle (hr : w'.gp.ranks = w.gp.ranks) (hn : w'.gp.persistent.num = w.gp.persistent.num)
    (hp : w'.gp.persistent.revokeSendToHostPosted = w.gp.persistent.revokeSendToHostPosted)
    (hb : w'.gp.revokedRanks = w.gp.revokedRanks) (hd : w'.due = false) : w'.face = w.face.settle := by
  have h : Work.face { w' with due := w.due } = w.face := face_congr hr hn hp hb rfl
  rw [← h, Face.settle, ← hd]
  rfl

/-- An SP whose local ranks are all there has their entries. -/
theorem Counts.ent_of_populated (h : Counts S w) (hp : w.gp.spRanks = w.gp.nLocalRanksPopulated) {r : ℕ}
    (hr : r ∈ S.locals) (hset : w.gp.isSet r = true) : ∀ q ∈ S.locals, w.face.ent q ≠ none := by
  have hmem : r ∈ S.setRanks w.gp ∩ S.locals := Finset.mem_inter.2 ⟨Site.mem_setRanks.2 ⟨h.isSet_lt hset, hset⟩, hr⟩
  have hpos : w.gp.nLocalRanksPopulated ≠ 0 := by
    rw [h.populated]
    exact (Finset.card_pos.2 ⟨r, hmem⟩).ne'
  have hcard := h.spRanks
  rw [if_neg hpos, hp, h.populated] at hcard
  have heq : S.setRanks w.gp ∩ S.locals = S.locals :=
    Finset.eq_of_subset_of_card_le Finset.inter_subset_right hcard.ge
  intro q hq
  rw [← heq] at hq
  exact Work.ent_ne_none.2 (Site.mem_setRanks.1 (Finset.mem_inter.1 hq).1).2

/-- **Every action on an SP does to the version one of the things listed.** -/
theorem Act.verAct (hM : M.Le (S.namedMsgs own)) (hT : ∀ t, T t → t.groupSize = S.size) (hc1 : S.ctx.cacheSize ≠ 1)
    (hown : ∀ r < S.size, own r = S.ctx.globalId → r ∈ S.locals) (hb : Base S M w) (hn : Named S own w.gp)
    (ha : Act S.ctx (· = (S.size : ℤ)) T w w') : VerAct S T w w' := by
  have hc := hb.counts
  have hm := hb.carries.mono hM
  cases ha with
  | init size hs hl =>
    exact .quiet (vis_of_queues (hc.face_init hl _ _) rfl rfl rfl rfl rfl rfl rfl)
  | learn size hs hl =>
    subst hs
    refine .quiet (vis_of_queues (face_congr (learnGroupSize_ranks _ _ _) ?_ ?_ (learnGroupSize_revokedRanks hc hl) rfl)
      (learnGroupSize_queues _ _ _) rfl rfl rfl rfl rfl rfl)
    · rw [learnGroupSize_persistent]
    · rw [learnGroupSize_persistent]
  | @skipEntry e es he hl hset =>
    refine .skipEnt e.tok ((w.batch ++ es ++ w.gp.parked.flatMap (·.payload)).map PeerCacheEntry.tok) ?_ rfl
    refine Multiset.coe_eq_coe.2 (List.Perm.map _ (?_ : List.Perm _ (e :: _)))
    rw [Work.allEnts, he]
    exact perm_cons_middle _ _ _ _
  | @addEntry e es he hl hL h0 hset =>
    obtain ⟨t, ht⟩ := addPeerEntry_eq S.ctx w.gp e
    have hi := (hm.ents e (mem_of_eq_cons he)).1
    have hface : Work.face { w with gp := w.gp.addPeerEntry S.ctx e, ents := es } = _ :=
      hc.face_put hl hi.rank_lt (e := w.gp.peerEntry e) rfl (by rw [ht]; rfl) (by rw [ht]) (by rw [ht])
    have hq := @addPeerEntry_queues S.ctx w.gp e
    refine .addEnt e.peer.procInfo.rank e.peer.procInfo.groupSeqNum
      ((w.batch ++ es ++ w.gp.parked.flatMap (·.payload)).map PeerCacheEntry.tok) h0 (Work.ent_eq_none.2 hset) ?_ ?_
    · refine Multiset.coe_eq_coe.2 (List.Perm.map _ (?_ : List.Perm _ (e :: _)))
      rw [Work.allEnts, he]
      exact perm_cons_middle _ _ _ _
    · ext1
      · exact hface
      · exact congrArg Multiset.ofList (congrArg (List.map _) (allEnts_congr hq rfl))
      · exact congrArg Multiset.ofList (congrArg (List.map _) (allAdds_congr hq))
      · exact congrArg Multiset.ofList (spMsgs_congr hq)
      · rfl
  | parkEntries sp hs hl hp =>
    refine .quiet (vis_congr (face_congr rfl rfl rfl rfl rfl) ?_ (.refl _) (.refl _) rfl)
    change (w.ents ++ (w.gp.parked ++ [PendingRecvCacheEntry.mk sp w.batch]).flatMap PendingRecvCacheEntry.payload).Perm _
    rw [List.flatMap_append, ← List.append_assoc, List.flatMap_singleton, Work.allEnts, List.append_assoc w.batch]
    exact List.perm_append_comm
  | takeBatch hl he h0 hr =>
    refine .quiet (vis_congr (face_congr rfl rfl rfl rfl rfl) (.of_eq ?_) (.refl _) (.refl _) rfl)
    simp only [Work.allEnts, he, List.nil_append, List.append_nil]
  | unpark he h0 =>
    refine .quiet (vis_congr (face_congr rfl rfl rfl rfl rfl) (.of_eq ?_) (.refl _) (.refl _) rfl)
    change w.batch ++ w.gp.parked.flatMap (·.payload) ++ [] = _
    simp only [Work.allEnts, he, List.append_nil]
  | sendCache hl h0 hf =>
    obtain ⟨t, ht⟩ := sendGpCacheToHost_gp w.toGpState
    refine .quiet (vis_of_queues (face_congr ?_ ?_ ?_ ?_ rfl) ?_ rfl rfl rfl rfl rfl
      (funext fun d => sent_sendGpCacheToHost _ _ d))
    all_goals simp only [ht]
    · exact revokedRanks_congr rfl
    · rfl
  | @parkAdd p ps hs ha hl h0 =>
    refine .quiet (vis_congr (face_congr rfl rfl rfl rfl rfl) (.refl _) ?_ (.refl _) rfl)
    change (ps ++ (w.gp.persistent.pendingGroupAddMsgs ++ [p])).Perm _
    rw [Work.allAdds, ha, ← List.append_assoc]
    exact List.perm_append_singleton _ _
  | takeAdds ha =>
    refine .quiet (vis_congr (face_congr rfl rfl rfl rfl rfl) (.refl _) (.of_eq ?_) (.refl _) rfl)
    change w.gp.persistent.pendingGroupAddMsgs ++ [] = _
    rw [Work.allAdds, ha, List.append_nil, List.nil_append]
  | @skipAdd p ps ha hl hL h0 hset =>
    refine .skipAdd p.data.rankInfo.rank p.data.rankInfo.groupSeqNum
      ((ps ++ w.gp.persistent.pendingGroupAddMsgs).map PendingGroupAdd.tok) h0 (Work.ent_ne_none.2 hset) ?_
    refine Multiset.coe_eq_coe.2 (List.Perm.map _ (.of_eq (?_ : _ = p :: _)))
    rw [Work.allAdds, ha]
    rfl
  | @addLocal p ps ha hl hL h0 hset =>
    obtain ⟨t, k, sp, ht, -⟩ := addGroupRank_eq S.ctx w.gp p.clientId p.data
    have hi := (hm.adds p (mem_of_eq_cons ha)).1
    have hface : Work.face { w with gp := w.gp.addGroupRank S.ctx p.clientId p.data, adds := ps, due := true } = _ :=
      hc.face_put hl hi.rank_lt (e := localEntry S.ctx p.clientId p.data.rankInfo) rfl (by rw [ht]; rfl) (by rw [ht])
        (by rw [ht])
    have hq := @addGroupRank_queues S.ctx w.gp p.clientId p.data
    refine .addLocal p.data.rankInfo.rank p.data.rankInfo.groupSeqNum
      ((ps ++ w.gp.persistent.pendingGroupAddMsgs).map PendingGroupAdd.tok) h0 (Work.ent_eq_none.2 hset) ?_ ?_
    · refine Multiset.coe_eq_coe.2 (List.Perm.map _ (.of_eq (?_ : _ = p :: _)))
      rw [Work.allAdds, ha]
      rfl
    · ext1
      · exact hface
      · exact congrArg Multiset.ofList (congrArg (List.map _) (allEnts_congr hq rfl))
      · exact congrArg Multiset.ofList (congrArg (List.map _) (allAdds_congr hq))
      · exact congrArg Multiset.ofList (spMsgs_congr hq)
      · rfl
  | exchange hdue hl =>
    obtain ⟨t, ht⟩ := @groupCacheExchange_gp S.ctx w.toGpState w.gp.spRanks
    obtain ⟨N, hsent, hN⟩ := sent_groupCacheExchange hc1 w.toGpState w.gp.spRanks S.ctx.globalId
    have hq : (groupCacheExchange S.ctx w.toGpState w.gp.spRanks).gp.queues = w.gp.queues := by rw [ht]; rfl
    refine .exchange N hdue ?_ fun d hd => ?_
    · ext1
      · exact face_settle (by rw [ht]) (by rw [ht]) (by rw [ht]) (revokedRanks_congr (by rw [ht])) rfl
      · exact congrArg Multiset.ofList (congrArg (List.map _) (allEnts_congr hq rfl))
      · exact congrArg Multiset.ofList (congrArg (List.map _) (allAdds_congr hq))
      · exact congrArg Multiset.ofList (spMsgs_congr hq)
      · exact funext hsent
    · obtain ⟨hdest, hpop, hNd⟩ := hN d hd
      obtain ⟨l, hl, hp, hset⟩ := @sendLocalRankGroupCache_eq w.gp S.ctx.globalId hn.valid
      rw [hl, List.map_map] at hNd
      have hloc : ∀ r ∈ l, r ∈ S.locals ∧ w.gp.isSet r = true := fun r hr =>
        ⟨mem_locals_of_shadow0 hown hn hc (hset r hr).1 (hset r hr).2, (hset r hr).1⟩
      have hne : l ≠ [] := fun h0 => hd (by rw [hNd, h0]; rfl)
      obtain ⟨r, hr⟩ := List.exists_mem_of_ne_nil l hne
      exact ⟨hdest, hc.ent_of_populated hpop (hloc r hr).1 (hloc r hr).2, l, hNd, hp.imp fun h => h.ne, hloc⟩
  | queueRankRevoke hr hl hn =>
    exact .quiet (vis_congr (face_congr rfl rfl rfl rfl rfl) (.refl _) (.refl _) (.refl _) rfl)
  | @markLocal i is hr hl hfull =>
    have hs : w.gp.groupSize = S.size := hc.rankRevs (by rw [hr]; exact List.cons_ne_nil _ _)
    have hi := (hm.rankRevs i (mem_of_eq_cons hr)).1
    obtain ⟨b, hbit, hcap, -⟩ := hc.bits hs
    have hbits : (w.gp.markLocalRank i.rank).revokedRanks = insert i.rank w.gp.revokedRanks := by
      simp only [GroupCache.markLocalRank, GroupCache.revokedRanks, hbit, Option.map_some, Option.getD_some]
      exact Bitset.bits_set (hi.rank_lt.trans_le hcap)
    obtain ⟨N, hsent, hN⟩ := sent_tellRankRevoke S.ctx w.toGpState i S.ctx.globalId
    have hgp := @tellRankRevoke_gp S.ctx w.toGpState i
    have hq : (tellRankRevoke S.ctx w.toGpState i).gp.queues = w.gp.queues := by rw [hgp]; rfl
    refine .mark i N hr hs (hfull.symm.trans hs) ?_ fun d hd => ?_
    · ext1
      · have hface : Work.face { w with toGpState := tellRankRevoke S.ctx w.toGpState i, rankRevs := is } = _ :=
          face_of_ranks (w := w) (by rw [hgp]; rfl) (by rw [hgp]; rfl) (by rw [hgp]; rfl) rfl
        refine hface.trans (congrArg (fun b => { w.face with bits := b }) ?_)
        rw [hgp]
        exact hbits
      · exact congrArg Multiset.ofList (congrArg (List.map _) (allEnts_congr hq rfl))
      · exact congrArg Multiset.ofList (congrArg (List.map _) (allAdds_congr hq))
      · exact congrArg Multiset.ofList (spMsgs_congr hq)
      · exact funext hsent
    · obtain ⟨hdest, hlast, hNd⟩ := hN d hd
      obtain ⟨hnd, hrev, hmsg⟩ := sendLocalRevokeRankGroupCache_spec (w.gp.markLocalRank i.rank)
      refine ⟨hdest, hlast, _, hNd, hnd, fun r hr => ?_, fun m hm => ?_⟩
      · rw [show insert i.rank w.face.bits = (w.gp.markLocalRank i.rank).revokedRanks from hbits.symm]
        exact mem_revokedRanks.2 (hrev r hr)
      · obtain ⟨h₁, h₂, h₃⟩ := hmsg m hm
        exact ⟨h₁.trans hs, h₂, h₃.trans_eq hs⟩
  | @queueSpRevoke m ms hr hdl =>
    refine .quiet (vis_congr (face_congr rfl rfl rfl rfl rfl) (.refl _) (.refl _) ?_ rfl)
    change (ms ++ w.taken ++ (w.gp.persistent.pendingGroupRevokeMsgsFromSps ++ [m])).Perm _
    rw [Work.spMsgs, hr, ← List.append_assoc]
    exact List.perm_append_singleton _ _
  | @accept m ms hr hl hdl hT' =>
    have hq : (w.gp.learnFromRevoke m).queues = w.gp.queues := by
      rw [GroupCache.queues, learnFromRevoke_persistent]
      rfl
    refine .quiet (vis_congr (face_congr (learnFromRevoke_ranks _ _) ?_ ?_ (learnFromRevoke_revokedRanks hc m) rfl)
      (.of_eq (allEnts_congr hq rfl)) (.of_eq (allAdds_congr hq)) ?_ rfl)
    · rw [learnFromRevoke_persistent]
    · rw [learnFromRevoke_persistent]
    · rw [spMsgs_congr hq, Work.spMsgs, hr]
      apply List.Perm.append_right _
      rw [← List.append_assoc]
      exact List.perm_append_singleton _ _
  | takeRevokes ht hT' =>
    refine .quiet (vis_congr (face_congr rfl rfl rfl rfl rfl) (.refl _) (.refl _) (.of_eq ?_) rfl)
    change w.revs ++ w.gp.persistent.pendingGroupRevokeMsgsFromSps ++ [] = _
    rw [Work.spMsgs, ht, List.append_nil, List.append_nil]
  | createBits hT' =>
    obtain ⟨b, hbit, -, -⟩ := hc.bits (hT _ hT')
    refine .quiet (vis_congr (face_congr rfl rfl rfl ?_ rfl) (.refl _) (.refl _) (.refl _) rfl)
    simp only [GroupCache.revokedRanks, hbit]
    rfl
  | @applyRevoke m ms ht hT' =>
    have hmsg := (hm.taken m (mem_of_eq_cons ht)).2
    obtain ⟨b, hbit, hcap, -⟩ := hc.bits (hT _ hT')
    have hlt : ∀ r ∈ m.carried, r < b.capacity := fun r hr => ((mem_carried hr).trans_le hmsg).trans_le hcap
    have hrev : w.gp.revokedRanks = b.bits := by rw [GroupCache.revokedRanks, hbit]; rfl
    refine .apply m (w.revs ++ ms ++ w.gp.persistent.pendingGroupRevokeMsgsFromSps : List _) ?_ hT' ?_ fun r hr hn => ?_
    · apply Multiset.coe_eq_coe.2
      rw [Work.spMsgs, ht]
      exact perm_cons_middle _ _ _ _
    · ext1
      · refine Face.ext rfl rfl rfl ?_ rfl
        simp only [Work.face, GroupCache.applyRevokeMsg, GroupCache.revokedRanks, hbit, Option.getD_some]
        exact bits_markRanks hlt
      · rfl
      · rfl
      · rfl
      · refine sent_append _ _ _ fun x hx d => ?_
        obtain ⟨_, _, rfl⟩ := List.mem_map.1 hx
        rfl
    · refine List.mem_filter.2 ⟨List.mem_append_right _ (List.mem_map.2 ⟨r, ?_, rfl⟩), rfl⟩
      simp only [GroupCache.applyRevokeMsg, hbit, Option.getD_some]
      exact (mem_markRanks hlt).2 ⟨hr, hrev ▸ hn⟩
  | post hf =>
    simp only [GroupCache.finalRevokeDue, Bool.and_eq_true, beq_iff_eq, decide_eq_true_eq] at hf
    refine .post hf.1 hf.2 ?_
    ext1
    · rfl
    · rfl
    · rfl
    · rfl
    · refine sent_append _ _ _ fun x hx d => ?_
      rw [List.mem_singleton.1 hx]
      rfl
  | reset hf he hdue =>
    refine .reset hf ?_
    ext1
    · refine Face.ext rfl rfl ?_ (revokedRanks_of_none rfl) rfl
      funext r
      exact Work.ent_eq_none.2 (isSet_of_ranks_none rfl r)
    · refine congrArg Multiset.ofList (congrArg (List.map _) ?_)
      change w.batch ++ w.gp.parked.flatMap (·.payload) ++ [] = w.batch ++ w.ents ++ w.gp.parked.flatMap (·.payload)
      rw [he, List.append_nil, List.append_nil]
    · rfl
    · rfl
    · refine sent_append _ _ _ fun x hx d => ?_
      rw [List.mem_singleton.1 hx]
      rfl
  | setSent => exact .quiet (vis_congr (face_congr rfl rfl rfl rfl rfl) (.refl _) (.refl _) (.refl _) rfl)
  | setRevokeSent => exact .quiet (vis_congr (face_congr rfl rfl rfl rfl rfl) (.refl _) (.refl _) (.refl _) rfl)
  | hostAdd hd' _ | hostPark hd' _ _ | hostTake hd' _ | hostRevoke _ hd' => rw [S.onDpu] at hd'; cases hd'

end DpuOffload
