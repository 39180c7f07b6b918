import DpuOffload.Protocol.Store
import DpuOffload.Protocol.Site

/-!
# The broadcast of the local entries

An SP sends the entries of its local ranks to the other SPs at once, when it has all of
them (`GROUP_CACHE_EXCHANGE`, `broadcast_group_cache`). How many to expect it finds out in
two ways. For the world group, whose ranks come in by connecting, it computes the number
from the number of ranks on the host and the number of SPs of the DPU. For a later
group it counts, when the first rank joins, the ranks of the group whose entry in the
world group lists the SP (`sp_ranks`).

It takes a group for the world group when there is one group in the table. So when the
SP has heard of another group before all its ranks have connected, it waits for all the
ranks of the host, which do not all come to this SP; and when a rank joins a later group
before all the local ranks of that group have connected, `sp_ranks` is too small.

* `casts` — the broadcasts of a group in its current version.
* `not_castOnce_after_other_group` — a run without a broadcast.
* `castOnce_of_reach` — **one broadcast, at the addition that completes the local ranks**, in
  every run in which ranks connect while the world group is alone in the table, and join
  a later group when its local ranks have connected.
-/

namespace DpuOffload

open Relation Transition

/-! ### Counting broadcasts -/

/-- Count a broadcast; a reset starts a version. -/
def castStep (k : ℕ) : Effect → ℕ
  | .broadcast => k + 1
  | .revoked _ => 0
  | _ => k

/-- The broadcasts of a group since it was reset. -/
def casts (log : List Effect) : ℕ := log.foldl castStep 0

/-- Does this count? -/
def Effect.isCast : Effect → Bool
  | .broadcast | .revoked _ => true
  | _ => false

theorem foldl_castStep {l : List Effect} (h : ∀ x ∈ l, x.isCast = false) (k : ℕ) : l.foldl castStep k = k := by
  induction l generalizing k with
  | nil => rfl
  | cons x l ih =>
    have hx : castStep k x = k := by
      have := h x List.mem_cons_self
      cases x <;> first | rfl | cases this
    rw [List.foldl_cons, hx]
    exact ih (fun y hy => h y (List.mem_cons_of_mem _ hy)) k

theorem casts_append {l l' : List Effect} (h : ∀ x ∈ l', x.isCast = false) : casts (l ++ l') = casts l := by
  rw [casts, List.foldl_append, foldl_castStep h]
  rfl

theorem casts_sendGpCacheToHost (s : GpState) : casts (sendGpCacheToHost s).out = casts s.out := by
  unfold sendGpCacheToHost
  split
  · refine casts_append fun x hx => ?_
    rw [List.mem_singleton.1 hx]
    rfl
  · rfl

/-- A broadcast counts once. -/
theorem casts_broadcastGroupCache {ctx : GpCtx} (hc : ctx.allServiceProcsConnected = true) (s : GpState) :
    casts (broadcastGroupCache ctx s).out = casts s.out + 1 := by
  have hmsgs : ∀ x ∈ (if 1 < ctx.numServiceProcs then broadcastMsgs ctx s.gp else []), x.isCast = false := by
    intro x hx
    split at hx
    · simp only [broadcastMsgs, List.mem_flatMap, List.mem_map] at hx
      obtain ⟨_, _, _, _, rfl⟩ := hx
      rfl
    · exact absurd hx List.not_mem_nil
  have hemit : casts (s.emit (.broadcast :: if 1 < ctx.numServiceProcs then broadcastMsgs ctx s.gp else [])).out =
      casts s.out + 1 := by
    rw [GpState.emit, casts, List.foldl_append, List.foldl_cons, foldl_castStep hmsgs]
    rfl
  simp only [broadcastGroupCache, hc, Bool.not_true, Bool.false_eq_true, if_false]
  by_cases hf : s.gp.full
  · simp only [GpState.emit, hf, if_true]
    rw [casts_sendGpCacheToHost]
    exact hemit
  · simp only [GpState.emit, hf]
    exact hemit

/-- Does the exchange broadcast? -/
def exchanges (ctx : GpCtx) (g : GroupCache) (k : ℕ) : Bool :=
  if ctx.cacheSize = 1 then 0 < g.nLocalRanks &&
    g.nLocalRanksPopulated == getNumConnectingRanks ctx.numServiceProcsPerDpu k ctx.localId
  else k == g.nLocalRanksPopulated

theorem casts_groupCacheExchange {ctx : GpCtx} (hc : ctx.allServiceProcsConnected = true) (s : GpState) (k : ℕ) :
    casts (groupCacheExchange ctx s k).out = casts s.out + if exchanges ctx s.gp k then 1 else 0 := by
  by_cases h1 : ctx.cacheSize = 1
  · simp only [groupCacheExchange, exchanges, if_pos h1, Bool.and_eq_true, beq_iff_eq, decide_eq_true_eq]
    split
    · exact casts_broadcastGroupCache hc s
    · rfl
  · simp only [groupCacheExchange, exchanges, if_neg h1, beq_iff_eq]
    split
    · exact casts_broadcastGroupCache hc s
    · rfl

/-! ### What the callbacks keep -/

/-- What counts of a callback for the broadcast. -/
structure CastState where
  /-- The entries. -/
  entry : ℕ → PeerCacheEntry
  /-- How many there are. -/
  room : ℕ
  /-- The uid of the group, `INT_MAX` after a reset. -/
  uid : ℤ
  /-- `n_local_ranks_populated`. -/
  populated : ℕ
  /-- `sp_ranks`. -/
  spRanks : ℕ
  /-- `n_local_ranks`. -/
  nLocalRanks : ℕ
  /-- The broadcasts of this version. -/
  casts : ℕ
  /-- Is the exchange that follows an addition still to come? -/
  due : Bool
  /-- The add messages in hand. -/
  adds : List PendingGroupAdd
  /-- The add messages put aside. -/
  waiting : List PendingGroupAdd
  /-- The revokes of local ranks in hand. -/
  rankRevs : List RankInfo
  /-- The revoke messages of SPs, in hand or put aside. -/
  spMsgs : List GroupRevokeMsgFromSp
  /-- `revokes.global`. -/
  revokesGlobal : ℕ

/-- The part of a callback that counts for the broadcast. -/
def Work.cast (w : Work) : CastState where
  entry := w.gp.entryAt
  room := w.gp.entries.length
  uid := w.gp.groupUid
  populated := w.gp.nLocalRanksPopulated
  spRanks := w.gp.spRanks
  nLocalRanks := w.gp.nLocalRanks
  casts := casts w.out
  due := w.due
  adds := w.adds
  waiting := w.gp.persistent.pendingGroupAddMsgs
  rankRevs := w.rankRevs
  spMsgs := w.revs ++ w.taken ++ w.gp.persistent.pendingGroupRevokeMsgsFromSps
  revokesGlobal := w.gp.revokesGlobal

/-- What the callbacks of a group of `n` ranks keep, when `L` are its ranks on the SP and
nothing is revoked by messages. `later` says that it is not the world group, and `hostRanks`
is the number of ranks on the host. -/
structure CastInv (ctx : GpCtx) (L : Finset ℕ) (n hostRanks : ℕ) (later : Prop) (s : CastState) : Prop where
  /-- A group not in use is empty. -/
  dead : s.uid = INT_MAX → (∀ r, s.entry r = initPeerCacheEntry) ∧ s.populated = 0 ∧ s.spRanks = 0 ∧ s.nLocalRanks = 0
  /-- A group in use has an entry for each rank. -/
  live : s.uid ≠ INT_MAX → s.room = n
  /-- An entry that is not set lists no SP. -/
  blank : ∀ r, (s.entry r).set = false → (s.entry r).shadowServiceProcs = []
  /-- The entries that list this SP are those of its ranks. -/
  onSp : ∀ r, (s.entry r).shadow0 = ctx.globalId ↔ (s.entry r).set = true ∧ r ∈ L
  /-- `n_local_ranks_populated` counts its ranks. -/
  populated : s.populated = (L.filter fun r => (s.entry r).set = true).card
  /-- `sp_ranks` is their number, once one has joined. -/
  spRanks : later → s.spRanks = if s.populated = 0 then 0 else L.card
  /-- `n_local_ranks` of the world group is the number of ranks on the host. -/
  host : ¬ later → s.nLocalRanks = 0 ∨ s.nLocalRanks = hostRanks
  /-- There was a broadcast if all its ranks are there. -/
  once : s.due = false → s.casts = if L.Nonempty ∧ ∀ r ∈ L, (s.entry r).set = true then 1 else 0
  /-- An exchange is due when a rank was missing. -/
  due : s.due = true → later ∧ ctx.cacheSize ≠ 1 ∧ s.casts = 0 ∧ s.populated ≠ 0
  /-- A rank joins once, when the local ranks of the group are known. -/
  adds : s.adds = [] ∨ ∃ p : PendingGroupAdd, s.adds = [p] ∧ later ∧ ctx.cacheSize ≠ 1 ∧ p.data.rankInfo.rank ∈ L ∧
    (s.entry p.data.rankInfo.rank).set = false ∧
      ∀ g, (p.data.worldRanks.filter (rankIsOnSp ctx g)).length = L.card
  /-- Nothing is revoked. -/
  quiet : s.waiting = [] ∧ s.rankRevs = [] ∧ s.spMsgs = [] ∧ s.revokesGlobal = 0

/-- What entries of other SPs look like. -/
def peerSpec (ctx : GpCtx) (L : Finset ℕ) (n : ℕ) : MsgSpec where
  entry e := e.peer.procInfo.rank < n ∧ e.peer.procInfo.rank ∉ L ∧ e.shadow0 ≠ ctx.globalId
  add p := p.data.rankInfo.rank < n
  rankRev _ := True
  rev _ := True

variable {ctx : GpCtx} {L : Finset ℕ} {n hostRanks : ℕ} {later : Prop} {T : Tally → Prop}

/-- The entry of a rank of another SP. -/
theorem CastInv.addRemote {s : CastState} (h : CastInv ctx L n hostRanks later s) (hl : s.uid ≠ INT_MAX) {r : ℕ}
    (hrL : r ∉ L) {e : PeerCacheEntry} (he : e.set = true)
    (hsp : e.shadow0 ≠ ctx.globalId) :
    CastInv ctx L n hostRanks later { s with entry := fun q => if q = r then e else s.entry q } := by
  have hsame : ∀ q ∈ L, (if q = r then e else s.entry q) = s.entry q := fun q hq =>
    if_neg fun hqr : q = r => hrL (hqr ▸ hq)
  have hfil : (L.filter fun q => (if q = r then e else s.entry q).set = true) = L.filter fun q => (s.entry q).set = true :=
    Finset.filter_congr fun q hq => by rw [hsame q hq]
  have hall : (∀ q ∈ L, (if q = r then e else s.entry q).set = true) ↔ ∀ q ∈ L, (s.entry q).set = true :=
    forall₂_congr fun q hq => by rw [hsame q hq]
  refine { h with dead := fun hm => absurd hm hl, blank := fun q hq => ?_, onSp := fun q => ?_, populated := ?_
                  once := ?_, adds := ?_ }
  · dsimp only at hq ⊢
    split
    · rename_i hqr
      rw [if_pos hqr, he] at hq
      cases hq
    · rename_i hqr
      rw [if_neg hqr] at hq
      exact h.blank q hq
  · dsimp only
    split
    · rename_i hqr
      exact ⟨fun hc => absurd hc hsp, fun hc => absurd (hqr ▸ hc.2) hrL⟩
    · exact h.onSp q
  · rw [hfil]; exact h.populated
  · simp only [hall]; exact h.once
  · apply h.adds.imp id
    rintro ⟨p, hp, hlat, hsz, hpL, hps, hcount⟩
    exact ⟨p, hp, hlat, hsz, hpL, by dsimp only; rw [hsame _ hpL]; exact hps, hcount⟩

/-- The entry of a rank of this SP, the exchange being due. -/
theorem CastInv.addOwn {s s' : CastState} (h : CastInv ctx L n hostRanks later s) {r : ℕ}
    (hset : (s.entry r).set = false) (hrL : r ∈ L) {e : PeerCacheEntry} (he : e.set = true)
    (hsp : e.shadow0 = ctx.globalId) (hent : s'.entry = fun q => if q = r then e else s.entry q)
    (hpop : s'.populated = s.populated + 1) :
    (∀ q, (s'.entry q).set = false → (s'.entry q).shadowServiceProcs = []) ∧
      (∀ q, (s'.entry q).shadow0 = ctx.globalId ↔ (s'.entry q).set = true ∧ q ∈ L) ∧
      s'.populated = (L.filter fun q => (s'.entry q).set = true).card ∧ (s.due = false → s.casts = 0) := by
  refine ⟨fun q hq => ?_, fun q => ?_, ?_, fun hd => ?_⟩
  · rw [hent] at hq ⊢
    dsimp only at hq ⊢
    split
    · rename_i hqr
      rw [if_pos hqr, he] at hq
      cases hq
    · rename_i hqr
      rw [if_neg hqr] at hq
      exact h.blank q hq
  · rw [hent]
    dsimp only
    split
    · rename_i hqr
      exact ⟨fun _ => ⟨he, hqr ▸ hrL⟩, fun _ => hsp⟩
    · exact h.onSp q
  · have hfil : (L.filter fun q => (s'.entry q).set = true) = insert r (L.filter fun q => (s.entry q).set = true) := by
      ext q
      rw [hent, Finset.mem_insert, Finset.mem_filter, Finset.mem_filter]
      by_cases hqr : q = r
      · simp [hqr, hrL, he]
      · simp [hqr]
    rw [hfil, Finset.card_insert_of_notMem, hpop, h.populated]
    intro hm
    rw [(Finset.mem_filter.1 hm).2] at hset
    cases hset
  · rw [h.once hd, if_neg]
    rintro ⟨-, hall⟩
    rw [hall r hrL] at hset
    cases hset

theorem pending_of_queues {g g' : GroupCache} (h : g'.queues = g.queues) :
    g'.persistent.pendingGroupAddMsgs = g.persistent.pendingGroupAddMsgs ∧
      g'.persistent.pendingGroupRevokeMsgsFromSps = g.persistent.pendingGroupRevokeMsgsFromSps := by
  have h₁ := congrArg Persistent.pendingGroupAddMsgs h
  have h₂ := congrArg Persistent.pendingGroupRevokeMsgsFromSps h
  exact ⟨h₁, h₂⟩

/-- A group with no entry, of which nothing is known. -/
theorem CastInv.ofBlank (hgid : ctx.globalId ≠ UINT64_MAX) {s : CastState} (hent : ∀ r, s.entry r = initPeerCacheEntry)
    (hroom : s.uid ≠ INT_MAX → s.room = n) (hpop : s.populated = 0) (hsp : s.spRanks = 0) (hnl : s.nLocalRanks = 0)
    (hcast : s.casts = 0) (hdue : s.due = false)
    (hadds : s.adds = [] ∨ ∃ p : PendingGroupAdd, s.adds = [p] ∧ later ∧ ctx.cacheSize ≠ 1 ∧
      p.data.rankInfo.rank ∈ L ∧ ∀ g, (p.data.worldRanks.filter (rankIsOnSp ctx g)).length = L.card)
    (hquiet : s.waiting = [] ∧ s.rankRevs = [] ∧ s.spMsgs = [] ∧ s.revokesGlobal = 0) :
    CastInv ctx L n hostRanks later s where
  dead _ := ⟨hent, hpop, hsp, hnl⟩
  live := hroom
  blank r _ := by rw [hent]; rfl
  onSp r := by
    rw [hent]
    exact ⟨fun hc => absurd hc.symm hgid, fun hc => absurd hc.1 Bool.false_ne_true⟩
  populated := by
    rw [hpop, eq_comm, Finset.card_eq_zero, Finset.filter_eq_empty_iff]
    intro r _
    rw [hent]
    exact Bool.false_ne_true
  spRanks _ := by rw [hsp, hpop, if_pos rfl]
  host _ := .inl hnl
  once _ := by
    rw [hcast, if_neg]
    rintro ⟨⟨r, hr⟩, hall⟩
    have := hall r hr
    rw [hent] at this
    exact Bool.false_ne_true this
  due hd := by rw [hdue] at hd; cases hd
  adds := hadds.imp id fun ⟨p, h₁, h₂, h₃, h₄, h₅⟩ => ⟨p, h₁, h₂, h₃, h₄, by rw [hent]; rfl, h₅⟩
  quiet := hquiet

/-- After the exchange of a later group: a broadcast if all its local ranks are there. -/
theorem CastInv.exchange {s : CastState} (h : CastInv ctx L n hostRanks later s) (hdue : s.due = true) :
    CastInv ctx L n hostRanks later
      { s with due := false, casts := s.casts + if s.spRanks = s.populated then 1 else 0 } := by
  obtain ⟨hlat, -, h0, hpop⟩ := h.due hdue
  have hsp : s.spRanks = L.card := by rw [h.spRanks hlat, if_neg hpop]
  have hne : L.Nonempty := by
    rw [Finset.nonempty_iff_ne_empty]
    rintro rfl
    exact hpop (h.populated.trans (by simp))
  have hiff : s.spRanks = s.populated ↔ L.Nonempty ∧ ∀ r ∈ L, (s.entry r).set = true := by
    rw [hsp, h.populated, eq_comm, Finset.card_filter_eq_iff]
    exact ⟨fun hall => ⟨hne, hall⟩, fun hall => hall.2⟩
  refine { h with once := fun _ => ?_, due := fun hd => by cases hd }
  simp only [h0, Nat.zero_add, hiff]

/-- **What the actions keep.** -/
theorem CastInv.act (hn : Allocatable n) (hconn : ctx.allServiceProcsConnected = true)
    (hgid : ctx.globalId ≠ UINT64_MAX) {w w' : Work}
    (hc : Carries (peerSpec ctx L n) w) (h : CastInv ctx L n hostRanks later w.cast)
    (ha : Act ctx (· = (n : ℤ)) T w w') : CastInv ctx L n hostRanks later w'.cast := by
  have hd : ctx.onDpu = true := by
    simp only [GpCtx.allServiceProcsConnected, Bool.and_eq_true] at hconn
    exact hconn.1
  obtain ⟨hwait, hrank, hmsgs, hglob⟩ := h.quiet
  have hmsgs' : w.revs = [] ∧ w.taken = [] ∧ w.gp.persistent.pendingGroupRevokeMsgsFromSps = [] := by
    simpa [Work.cast, List.append_eq_nil_iff, and_assoc] using hmsgs
  have heq : ∀ {w' : Work}, w'.cast = w.cast → CastInv ctx L n hostRanks later w'.cast := fun he => he ▸ h
  cases ha with
  | init size hs hl =>
    obtain ⟨-, hpop, hsp, hnl⟩ := h.dead (not_not.1 hl)
    have hdead := h.dead (not_not.1 hl)
    have hlen : allocEntries (sizeT n) = n := by rw [sizeT_natCast hn.lt, hn.allocEntries_eq]
    have hdue : w.due = false := by
      by_contra hdue
      exact (h.due (Bool.not_eq_false _ ▸ hdue)).2.2.2 hpop
    have hcast : casts w.out = 0 := by
      rw [show casts w.out = _ from h.once hdue, if_neg]
      rintro ⟨⟨r, hr⟩, hall⟩
      have := hall r hr
      rw [hdead.1] at this
      exact Bool.false_ne_true this
    subst hs
    refine CastInv.ofBlank hgid (entryAt_replicate (k := allocEntries (sizeT n)) rfl) (fun _ => ?_) rfl rfl rfl hcast hdue
      ?_ ⟨hwait, hrank, hmsgs, rfl⟩
    · simpa [Work.cast, GroupCache.entries, initGroupCache] using hlen
    · apply h.adds.imp id
      rintro ⟨p, h₁, h₂, h₃, h₄, -, h₅⟩
      exact ⟨p, h₁, h₂, h₃, h₄, h₅⟩
  | learn size hs hl =>
    apply heq
    simp only [Work.cast, GroupCache.learnGroupSize]
    split <;> rfl
  | skipEntry he hl hset => exact heq rfl
  | @addEntry e es he hl hL h0 hset =>
    obtain ⟨hr, hrL, hsp⟩ := hc.ents e (mem_of_eq_cons he)
    obtain ⟨t, ht⟩ := addPeerEntry_eq ctx w.gp e
    have hlen : e.peer.procInfo.rank < w.gp.entries.length := hr.trans_eq (h.live hl).symm
    have hold : (w.gp.peerEntry e).shadowServiceProcs = e.shadowServiceProcs := by
      rw [GroupCache.peerEntry, show (w.gp.entryAt (sizeT e.peer.procInfo.groupRank)).shadowServiceProcs = [] from
        h.blank _ hset, List.nil_append]
    have hadd := h.addRemote hl (r := e.peer.procInfo.rank) hrL (e := w.gp.peerEntry e) rfl (by
      rw [PeerCacheEntry.shadow0, hold]; exact hsp)
    have hcast : Work.cast { w with gp := w.gp.addPeerEntry ctx e, ents := es } =
        { w.cast with entry := fun q => if q = e.peer.procInfo.rank then w.gp.peerEntry e else w.gp.entryAt q } := by
      have hranks : (w.gp.addPeerEntry ctx e).ranks = w.gp.ranks.map (·.set e.peer.procInfo.rank (w.gp.peerEntry e)) := by
        rw [ht]; rfl
      have hent : (w.gp.addPeerEntry ctx e).entryAt = _ := funext (entryAt_map_set hlen hranks)
      have hroom := length_entries_map_set hranks
      obtain ⟨hq₁, hq₂⟩ := pending_of_queues (@addPeerEntry_queues ctx w.gp e)
      simp only [Work.cast, hent, hroom, hq₁, hq₂]
      rw [ht]
    rw [hcast]
    exact hadd
  | parkEntries sp hs hl hp => exact heq rfl
  | takeBatch hl he h0 hr => exact heq rfl
  | unpark he h0 => exact heq rfl
  | sendCache hl h0 hf =>
    obtain ⟨t, ht⟩ := sendGpCacheToHost_gp w.toGpState
    apply heq
    simp only [Work.cast, ht, casts_sendGpCacheToHost]
    rfl
  | parkAdd hs ha hl h0 => exact absurd hglob h0.ne'
  | takeAdds ha =>
    apply heq
    have hw : w.gp.persistent.pendingGroupAddMsgs = [] := hwait
    simp only [Work.cast, ha, hw]
    rfl
  | @skipAdd p ps ha hl hL h0 hset =>
    rcases h.adds with hnil | ⟨q, hq, -, -, -, hqs, -⟩
    · rw [show w.adds = [] from hnil] at ha; cases ha
    · rw [show w.adds = [q] from hq] at ha
      cases ha
      exact absurd (hset.symm.trans hqs) (by decide)
  | @addLocal p ps ha hl hL h0 hset =>
    rcases h.adds with hnil | ⟨q, hq, hlat, hsz, hqL, hqs, hcount⟩
    · rw [show w.adds = [] from hnil] at ha; cases ha
    · rw [show w.adds = [q] from hq] at ha
      cases ha
      have hr : p.data.rankInfo.rank < w.gp.entries.length := by
        rw [show w.gp.entries.length = n from h.live hl]
        exact hc.adds p (by rw [show w.adds = [p] from hq]; exact List.mem_cons_self)
      obtain ⟨t, k, sp, ht, g', hsp⟩ := addGroupRank_eq ctx w.gp p.clientId p.data
      have hranks : (w.gp.addGroupRank ctx p.clientId p.data).ranks = w.gp.ranks.map
          (·.set p.data.rankInfo.rank (localEntry ctx p.clientId p.data.rankInfo)) := by rw [ht]; rfl
      obtain ⟨h₁, h₂, h₃, h₄⟩ := @CastInv.addOwn ctx L n hostRanks later w.cast
        (Work.cast { w with gp := w.gp.addGroupRank ctx p.clientId p.data, adds := [], due := true }) h
        p.data.rankInfo.rank hqs hqL (localEntry ctx p.clientId p.data.rankInfo) rfl rfl
        (funext (entryAt_map_set hr hranks)) (by simp only [Work.cast]; rw [ht])
      have hpop : (w.gp.addGroupRank ctx p.clientId p.data).nLocalRanksPopulated = w.gp.nLocalRanksPopulated + 1 := by
        rw [ht]
      refine ⟨fun hm => ?_, fun _ => ?_, h₁, h₂, h₃, fun _ => ?_, fun hnl => absurd hlat hnl, (fun hf => by cases hf),
        fun _ => ⟨hlat, hsz, ?_, ?_⟩, .inl rfl, ?_⟩
      · exact absurd ((by rw [ht] : (w.gp.addGroupRank ctx p.clientId p.data).groupUid = w.gp.groupUid) ▸ hm) hl
      · exact (length_entries_map_set hranks).trans (h.live hl)
      · have hsp' : w.gp.spRanks = if w.gp.nLocalRanksPopulated = 0 then 0 else L.card := h.spRanks hlat
        change (w.gp.addGroupRank ctx p.clientId p.data).spRanks =
          if (w.gp.addGroupRank ctx p.clientId p.data).nLocalRanksPopulated = 0 then 0 else L.card
        rw [hpop, if_neg (Nat.succ_ne_zero _), ht]
        dsimp only
        have hLne : L.card ≠ 0 := (Finset.card_pos.2 ⟨_, hqL⟩).ne'
        by_cases hz : w.gp.nLocalRanksPopulated = 0
        · rw [if_pos hz] at hsp'
          rw [if_pos hsp', hsp]
          exact hcount g'
        · rw [if_neg hz] at hsp'
          rw [if_neg (hsp' ▸ hLne), hsp']
      · by_cases hdue : w.due
        · exact (h.due hdue).2.2.1
        · exact h₄ (by simpa [Work.cast] using hdue)
      · exact fun h0 => absurd (hpop.symm.trans h0) (Nat.succ_ne_zero _)
      · obtain ⟨hq₁, hq₂⟩ := pending_of_queues (@addGroupRank_queues ctx w.gp p.clientId p.data)
        refine ⟨hq₁.trans hwait, hrank, ?_, ?_⟩
        · simp only [Work.cast, hmsgs'.1, hmsgs'.2.1, List.nil_append]
          exact hq₂.trans hmsgs'.2.2
        · simp only [Work.cast]
          rw [ht]
          exact hglob
  | exchange hdue hl =>
    obtain ⟨t, ht⟩ := @groupCacheExchange_gp ctx w.toGpState w.gp.spRanks
    have hsz := (h.due hdue).2.1
    have hcast : Work.cast { w with
        toGpState := groupCacheExchange ctx w.toGpState w.gp.spRanks, due := false } =
        { w.cast with due := false, casts := w.cast.casts + if w.cast.spRanks = w.cast.populated then 1 else 0 } := by
      have hx : casts (groupCacheExchange ctx w.toGpState w.gp.spRanks).out =
          casts w.out + if w.gp.spRanks = w.gp.nLocalRanksPopulated then 1 else 0 := by
        rw [casts_groupCacheExchange hconn]
        simp only [exchanges, if_neg hsz, beq_iff_eq]
      simp only [Work.cast, ht, hx]
      rfl
    rw [hcast]
    exact h.exchange hdue
  | queueRankRevoke hr hl hn' => rw [show w.rankRevs = [] from hrank] at hr; cases hr
  | markLocal hr hl hn' => rw [show w.rankRevs = [] from hrank] at hr; cases hr
  | queueSpRevoke hr hdl => rw [hmsgs'.1] at hr; cases hr
  | accept hr hl hdl hT' => rw [hmsgs'.1] at hr; cases hr
  | takeRevokes ht hT' =>
    apply heq
    simp only [Work.cast, ht, hmsgs'.2.2, List.append_nil]
    rfl
  | createBits hT' => exact heq rfl
  | applyRevoke ht hT' => rw [hmsgs'.2.1] at ht; cases ht
  | post hf =>
    apply heq
    have hx : casts (sendRevokeGroupToRanks w.toGpState).out = casts w.out :=
      casts_append fun x hx => by rw [List.mem_singleton.1 hx]; rfl
    simp only [Work.cast, hx]
    rfl
  | reset hf he hdue =>
    refine CastInv.ofBlank hgid (fun r => by simp only [Work.cast]; exact entryAt_of_ranks_none rfl r)
      (fun hl => absurd rfl hl) rfl rfl rfl ?_ hdue ?_
      ⟨hwait, hrank, hmsgs, rfl⟩
    · simp [Work.cast, casts, castStep]
    · apply h.adds.imp id
      rintro ⟨p, h₁, h₂, h₃, h₄, -, h₅⟩
      exact ⟨p, h₁, h₂, h₃, h₄, h₅⟩
  | setSent => exact heq rfl
  | setRevokeSent => exact heq rfl
  | hostAdd hd' _ | hostPark hd' _ _ | hostTake hd' _ | hostRevoke _ hd' => rw [hd] at hd'; cases hd'

/-- Between two callbacks only the id of the SP counts. -/
theorem CastInv.of_ctx {ctx' : GpCtx} (hgid : ctx'.globalId = ctx.globalId) {s : CastState}
    (h : CastInv ctx L n hostRanks later s) (ha : s.adds = []) (hd : s.due = false) :
    CastInv ctx' L n hostRanks later s :=
  { h with
    onSp := by rw [hgid]; exact h.onSp
    due := fun hd' => absurd (hd'.symm.trans hd) (by decide)
    adds := .inl ha }

/-! ### A connection -/

theorem casts_after (l : List Effect) (hc : ctx.allServiceProcsConnected = true) (g : GroupCache) (k : ℕ) :
    casts (l ++ (groupCacheExchange ctx ⟨g, []⟩ k).out) = casts l + if exchanges ctx g k then 1 else 0 := by
  have h := @groupCacheExchange_after ctx l ⟨g, []⟩ k
  have ho : l ++ (groupCacheExchange ctx ⟨g, []⟩ k).out = (groupCacheExchange ctx (GpState.after l ⟨g, []⟩) k).out := by
    rw [h]; rfl
  rw [ho, casts_groupCacheExchange hc]
  simp [GpState.after]

/-- The default callback of a server adds no broadcast. -/
theorem localRankConnectDefaultCallback_cast {g : GroupCache} (hl : g.Live) (log out : List Effect) (info : RankInfo) :
    let r := localRankConnectDefaultCallback ctx (some g, out) info
    (Work.start ⟨r.1.getD newGroupCache, log ++ r.2⟩).cast = (Work.start ⟨g, log ++ out⟩).cast := by
  simp only [localRankConnectDefaultCallback]
  split
  · rfl
  · rw [getGroupCacheInternal_of_live hl]
    split
    · obtain ⟨t, ht⟩ := sendGpCacheToHost_gp ⟨g, out⟩
      have hcast : casts (log ++ (sendGpCacheToHost ⟨g, out⟩).out) = casts (log ++ out) := by
        have h := sendGpCacheToHost_after log ⟨g, out⟩
        have := casts_sendGpCacheToHost (GpState.after log ⟨g, out⟩)
        rw [h] at this
        exact this
      simp only [Work.cast, Work.start, Option.getD_some, ht, hcast]
      rfl
    · rfl

/-- How a rank that connects changes its group, after the lookup. -/
theorem addCacheEntryForNewClient_eq (g : GroupCache) (c : ℕ) (info : RankInfo) :
    let g₀ := (getGroupCacheInternal ctx.gpUid (some g) info.groupSize).learnGroupSize ctx.hosts info.groupSize
    ∃ t num, addCacheEntryForNewClient ctx (some g) c info = { g₀ with
      persistent := { g₀.persistent with num := num }
      topo := t
      numLocalEntries := g₀.numLocalEntries + 1
      nLocalRanks := if g₀.nLocalRanks = 0 ∧ 0 ≤ info.nLocalRanks then sizeT info.nLocalRanks else g₀.nLocalRanks
      nLocalRanksPopulated := g₀.nLocalRanksPopulated + 1
      ranks := g₀.ranks.map (·.set info.rank (localEntry ctx c info)) } := by
  generalize hg : getGroupCacheInternal ctx.gpUid (some g) info.groupSize = g₀
  simp only [addCacheEntryForNewClient, hg]
  split
  · have hl : ({ g₀ with persistent := { g₀.persistent with num := 1 } } : GroupCache).learnGroupSize ctx.hosts
        info.groupSize = { g₀.learnGroupSize ctx.hosts info.groupSize with
          persistent := { g₀.persistent with num := 1 } } := by
      unfold GroupCache.learnGroupSize
      split <;> rfl
    rw [hl, learnGroupSize_persistent]
    exact ⟨_, 1, rfl⟩
  · exact ⟨_, (g₀.learnGroupSize ctx.hosts info.groupSize).persistent.num, rfl⟩

/-- The world group broadcasts when the last of its local ranks has connected. -/
theorem exchanges_iff_of_connect {g : GroupCache} (hnum : L.card = getNumConnectingRanks ctx.numServiceProcsPerDpu
      hostRanks ctx.localId) (hok : ctx.cacheSize = 1 ∨ hostRanks = L.card) (hne : L.Nonempty)
    (hloc : g.nLocalRanks = hostRanks) (hpop : g.nLocalRanksPopulated = (L.filter fun r => (g.entryAt r).set = true).card) :
    exchanges ctx g hostRanks = true ↔ L.Nonempty ∧ ∀ r ∈ L, (g.entryAt r).set = true := by
  have hall : g.nLocalRanksPopulated = L.card ↔ L.Nonempty ∧ ∀ r ∈ L, (g.entryAt r).set = true := by
    rw [hpop, Finset.card_filter_eq_iff]
    exact ⟨fun h => ⟨hne, h⟩, fun h => h.2⟩
  rw [← hall]
  by_cases h1 : ctx.cacheSize = 1
  · have hpos : 0 < hostRanks := by
      rw [Nat.pos_iff_ne_zero]
      rintro rfl
      rw [show getNumConnectingRanks ctx.numServiceProcsPerDpu 0 ctx.localId = 0 by simp [getNumConnectingRanks]] at hnum
      exact (Finset.card_pos.2 hne).ne' hnum
    simp [exchanges, h1, hloc, hpos, hnum]
  · have hcard := hok.resolve_left h1
    simp only [exchanges, if_neg h1, beq_iff_eq, hcard]
    exact eq_comm

/-- **A rank of the SP connects.** -/
theorem CastInv.connect (hn : Allocatable n) (hconn : ctx.allServiceProcsConnected = true)
    (hgid : ctx.globalId ≠ UINT64_MAX) (hu : ctx.gpUid ≠ INT_MAX) (hlat : ¬ later) {g : GroupCache} {log : List Effect}
    (h : CastInv ctx L n hostRanks later (Work.start ⟨g, log⟩).cast)
    (hc : Carries (peerSpec ctx L n) (Work.start ⟨g, log⟩)) {c : ℕ} {info : RankInfo} (hsize : info.groupSize = n)
    (hloc : info.nLocalRanks = hostRanks) (hhost : hostRanks < 2 ^ 64) (hL : info.rank ∈ L) (hlt : info.rank < n)
    (hset : g.isSet info.rank = false) (hvalid : ¬ (info.groupUid = INT_MAX ∨ info.groupRank = INVALID_RANK))
    (hnum : L.card = getNumConnectingRanks ctx.numServiceProcsPerDpu hostRanks ctx.localId)
    (hok : ctx.cacheSize = 1 ∨ hostRanks = L.card) :
    let r := finalizeClientConnection ctx (some g) c info
    CastInv ctx L n hostRanks later (Work.start ⟨r.1.getD newGroupCache, log ++ r.2⟩).cast := by
  have hd : ctx.onDpu = true := by
    simp only [GpCtx.allServiceProcsConnected, Bool.and_eq_true] at hconn
    exact hconn.1
  have hsz : sizeT info.nLocalRanks = hostRanks := by rw [hloc, sizeT_natCast hhost]
  simp only [finalizeClientConnection, if_neg hvalid, hsz]
  obtain ⟨t, num, heq⟩ := @addCacheEntryForNewClient_eq ctx g c info
  obtain ⟨hq₁, hq₂⟩ := pending_of_queues (@addCacheEntryForNewClient_queues ctx (some g) info c)
  -- from here on only the equation of the new group is used
  generalize addCacheEntryForNewClient ctx (some g) c info = g₁ at heq hq₁ hq₂ ⊢
  set g₀ := (getGroupCacheInternal ctx.gpUid (some g) info.groupSize).learnGroupSize ctx.hosts info.groupSize with hg₀
  have hlook := live_lookup hu g info.groupSize
  have hl₀ : g₀.Live := by
    rw [hg₀, GroupCache.Live, learnGroupSize_groupUid]
    exact hlook
  have hset₀ : g₀.isSet info.rank = false := by
    rw [hg₀, isSet_congr (learnGroupSize_ranks _ _ _)]
    exact isSet_getGroupCacheInternal hset ctx.gpUid info.groupSize
  have h₀ : CastInv ctx L n hostRanks later (Work.start ⟨g₀, log⟩).cast := by
    have ha : Acts ctx (· = (n : ℤ)) (fun _ => True) (Work.start ⟨g, log⟩) (Work.start ⟨g₀, log⟩) :=
      (@lookup_acts ctx (· = (n : ℤ)) (fun _ => True) (Work.start ⟨g, log⟩) info.groupSize hsize).tail
        (@Act.learn ctx (· = (n : ℤ)) (fun _ => True)
          (Work.start ⟨getGroupCacheInternal ctx.gpUid (some g) info.groupSize, log⟩) info.groupSize hsize hlook)
    exact (keeps (J := fun w => Carries (peerSpec ctx L n) w ∧ CastInv ctx L n hostRanks later w.cast)
      (fun _ _ hJ ha => ⟨hJ.1.act ha, hJ.2.act hn hconn hgid hJ.1 ha⟩) ha ⟨hc, h⟩).2
  have hranks : g₁.ranks = g₀.ranks.map (·.set info.rank (localEntry ctx c info)) := by rw [heq]
  have hroom : info.rank < g₀.entries.length := hlt.trans_eq (h₀.live hl₀).symm
  have hl₁ : g₁.Live := by rw [heq]; exact hl₀
  have hloc₁ : g₁.nLocalRanks = hostRanks := by
    rw [heq]
    dsimp only
    rw [hsz, hloc]
    split
    · rfl
    · rename_i hz
      exact (h₀.host hlat).resolve_left fun h0 => hz ⟨h0, Int.natCast_nonneg _⟩
  obtain ⟨h₁, h₂, h₃, h₄⟩ := @CastInv.addOwn ctx L n hostRanks later (Work.start ⟨g₀, log⟩).cast
    (Work.start ⟨g₁, log⟩).cast h₀ info.rank hset₀ hL (localEntry ctx c info) rfl rfl
    (funext (entryAt_map_set hroom hranks)) (by simp only [Work.cast, Work.start]; rw [heq])
  have hx := exchanges_iff_of_connect hnum hok ⟨_, hL⟩ hloc₁ h₃
  obtain ⟨u, hu'⟩ := @groupCacheExchange_gp ctx ⟨g₁, []⟩ hostRanks
  rw [localRankConnectDefaultCallback_cast (by rw [hu']; exact hl₁), hu']
  obtain ⟨hwait, hrank, hmsgs, hglob⟩ := h₀.quiet
  refine ⟨fun hm => absurd hm hl₁, fun _ => ?_, h₁, h₂, h₃, fun hl => absurd hl hlat, fun _ => .inr hloc₁, fun _ => ?_,
    fun hf => absurd hf Bool.false_ne_true, .inl rfl, ?_⟩
  · exact (length_entries_map_set hranks).trans (h₀.live hl₀)
  · change casts (log ++ _) = _
    rw [casts_after log hconn, show casts log = 0 from h₄ rfl, Nat.zero_add]
    simp only [hx]
    rfl
  · obtain ⟨hw, -, hm, -⟩ := h.quiet
    refine ⟨hq₁.trans hw, rfl, hq₂.trans hm, ?_⟩
    change g₁.revokesGlobal = 0
    rw [heq]
    exact hglob

/-! ### An SP with its groups -/

/-- An SP, and which ranks of each group are on it. -/
structure CastSite where
  /-- What the SP reads, but for the group. -/
  sys : GpCtx
  /-- The uid of the world group. -/
  world : ℤ
  /-- Its size. -/
  worldSize : ℕ
  /-- Its ranks on this SP. -/
  worldLocals : Finset ℕ
  /-- The number of ranks on the host. -/
  hostRanks : ℕ
  /-- The ranks of every other group, by their world rank. -/
  worldRanks : ℤ → List ℤ
  /-- The other SPs are connected. -/
  connected : sys.allServiceProcsConnected = true
  /-- The SP has an id. -/
  hasId : sys.globalId ≠ UINT64_MAX
  /-- The world group has a uid. -/
  hasUid : world ≠ INT_MAX
  /-- The ranks of the host are dealt out to the SPs of its DPU. -/
  assigned : worldLocals.card = getNumConnectingRanks sys.numServiceProcsPerDpu hostRanks sys.localId
  /-- `n_local_ranks` is an `int`. -/
  hostRanks_lt : (hostRanks : ℤ) ≤ INT_MAX
  /-- The local ranks are ranks. -/
  worldLocals_lt : ∀ r ∈ worldLocals, r < worldSize
  /-- The arrays of the world group can be allocated. -/
  alloc_world : Allocatable worldSize
  /-- Those of the other groups as well. -/
  alloc : ∀ uid, Allocatable (worldRanks uid).length

namespace CastSite

variable (S : CastSite)

/-- The size of a group. -/
def size (uid : ℤ) : ℕ := if uid = S.world then S.worldSize else (S.worldRanks uid).length

/-- The world rank of a rank of another group, as an index. -/
def worldRank (uid : ℤ) (r : ℕ) : ℕ := sizeT ((S.worldRanks uid).getD r 0)

/-- The ranks of a group that are on this SP. -/
def locals (uid : ℤ) : Finset ℕ :=
  if uid = S.world then S.worldLocals
  else (Finset.range (S.worldRanks uid).length).filter fun r => S.worldRank uid r ∈ S.worldLocals

/-- What a rank says about itself when it joins the group: it is one of the ranks of this
SP that have not joined yet. -/
structure Joins (s : Store) (uid : ℤ) (info : RankInfo) : Prop where
  /-- The group. -/
  groupUid : info.groupUid = uid
  /-- Its size. -/
  groupSize : info.groupSize = S.size uid
  /-- A rank. -/
  valid : info.groupRank ≠ INVALID_RANK
  /-- One of this SP. -/
  isLocal : info.rank ∈ S.locals uid
  /-- Once per version. -/
  once : (s.group uid).gp.isSet info.rank = false

/-- **What happens on the SP**: its ranks connect and join later groups, entries
of ranks of other SPs come in, and versions of later groups end. -/
def Env (s : Store) : StoreOp → Prop
  | .connect uid _ info => uid = S.world ∧ S.Joins s uid info ∧ info.nLocalRanks = S.hostRanks
  | .event uid (.addGroupRank _ m) =>
      uid ≠ S.world ∧ uid ≠ INT_MAX ∧ S.Joins s uid m.rankInfo ∧ m.worldRanks = S.worldRanks uid
  | .event uid (.peerCacheEntries _ batch) => uid ≠ INT_MAX ∧ batchGroupSize batch = S.size uid ∧
      batch ≠ [] ∧ ∀ e ∈ batch, (peerSpec S.sys (S.locals uid) (S.size uid)).entry e
  | .event uid .cacheSent => uid ≠ INT_MAX
  | .revoke uid => uid ≠ S.world ∧ uid ≠ INT_MAX
  | _ => False

/-- Ranks connect while the world group is alone in the table, or the host has no other
ranks than those of this SP; and they join another group when the ranks of that
group on this SP have connected, the world group being the first in the table. -/
def Timely (s : Store) : StoreOp → Prop
  | .connect uid _ _ => (s.ctx S.sys uid).cacheSize = 1 ∨ S.hostRanks = S.worldLocals.card
  | .event uid (.addGroupRank _ _) => s.worldGroup = S.world ∧
      ∀ r ∈ S.locals uid, (s.group S.world).gp.isSet (S.worldRank uid r) = true
  | _ => True

/-- **One broadcast for each version of a group, when its last local rank is there.** -/
def CastOnce (s : Store) : Prop :=
  ∀ uid ≠ INT_MAX, casts (s.group uid).log =
    if (S.locals uid).Nonempty ∧ ∀ r ∈ S.locals uid, (s.group uid).gp.isSet r = true then 1 else 0

/-- What the SP keeps about a group, also in the middle of a callback. -/
structure Held (ctx : GpCtx) (uid : ℤ) (w : Work) : Prop where
  /-- About the broadcast. -/
  cast : CastInv ctx (S.locals uid) (S.size uid) S.hostRanks (uid ≠ S.world) w.cast
  /-- About the messages. -/
  carries : Carries (peerSpec S.sys (S.locals uid) (S.size uid)) w
  /-- About the sizes put aside. -/
  sized : w.gp.Sized (· = (S.size uid : ℤ))

/-- What the SP keeps. -/
structure Inv (s : Store) : Prop where
  /-- About each group. -/
  group : ∀ uid ≠ INT_MAX, S.Held S.sys uid (s.group uid).work
  /-- About the table. -/
  counted : s.Counted

variable {S} {s s' : Store} {uid : ℤ}

theorem allocatable_size (S : CastSite) (uid : ℤ) : Allocatable (S.size uid) := by
  unfold size
  split
  · exact S.alloc_world
  · exact S.alloc uid

theorem locals_lt (S : CastSite) {uid : ℤ} {r : ℕ} (h : r ∈ S.locals uid) : r < S.size uid := by
  unfold locals at h
  unfold size
  split at h
  · rw [if_pos ‹_›]
    exact S.worldLocals_lt r h
  · rw [if_neg ‹_›]
    exact Finset.mem_range.1 (Finset.mem_filter.1 h).1

theorem onDpu (S : CastSite) : S.sys.onDpu = true := by
  have h := S.connected
  simp only [GpCtx.allServiceProcsConnected, Bool.and_eq_true] at h
  exact h.1

/-- A sequence of actions keeps it. -/
theorem Held.acts {w w' : Work} (h : S.Held (s.ctx S.sys uid) uid w)
    (ha : Acts (s.ctx S.sys uid) (· = (S.size uid : ℤ)) (fun _ => True) w w') : S.Held (s.ctx S.sys uid) uid w' := by
  have hconn : (s.ctx S.sys uid).allServiceProcsConnected = true := S.connected
  have hgid : (s.ctx S.sys uid).globalId ≠ UINT64_MAX := S.hasId
  have hd : (s.ctx S.sys uid).onDpu = true := S.onDpu
  refine keeps (fun _ _ hJ ha => ?_) ha h
  exact ⟨hJ.cast.act (S.allocatable_size uid) hconn hgid hJ.carries ha, hJ.carries.act ha,
    GroupCache.Sized.act hJ.sized ha⟩

/-- With nothing in hand, what the SP reads of its other groups does not count. -/
theorem Held.toCtx {g : GroupCache} {log : List Effect} (h : S.Held S.sys uid (Work.start ⟨g, log⟩)) (s : Store) :
    S.Held (s.ctx S.sys uid) uid (Work.start ⟨g, log⟩) :=
  ⟨@CastInv.of_ctx S.sys _ _ _ _ (s.ctx S.sys uid) rfl _ h.cast rfl rfl, h.carries, h.sized⟩

theorem Held.toSys {g : GroupCache} {log : List Effect} (h : S.Held (s.ctx S.sys uid) uid (Work.start ⟨g, log⟩)) :
    S.Held S.sys uid (Work.start ⟨g, log⟩) :=
  ⟨@CastInv.of_ctx (s.ctx S.sys uid) _ _ _ _ S.sys rfl _ h.cast rfl rfl, h.carries, h.sized⟩

/-- The ranks `do_add_group_rank_recv_cb` counts, when the world group is known. -/
theorem length_filter_worldRanks (hW : S.Held S.sys S.world (s.group S.world).work) (hcount : s.Counted)
    (hne : uid ≠ S.world) (hslot : (s.group S.world).slot.isSome = true) (hworld : s.worldGroup = S.world)
    (hall : ∀ r ∈ S.locals uid, (s.group S.world).gp.isSet (S.worldRank uid r) = true) (g : GroupCache) :
    ((S.worldRanks uid).filter (rankIsOnSp (s.ctx S.sys uid) g)).length = (S.locals uid).card := by
  have hsize : s.size ≠ 0 := Nat.one_le_iff_ne_zero.1 (hcount.one _ hslot)
  have hctx : (s.ctx S.sys uid).world = some (s.group S.world).gp.entries := by
    simp [Store.ctx, hsize, hworld, hne]
  have hon : ∀ w, rankIsOnSp (s.ctx S.sys uid) g w = true ↔
      (s.group S.world).gp.isSet (sizeT w) = true ∧ sizeT w ∈ S.worldLocals := by
    intro w
    have := hW.cast.onSp (sizeT w)
    simp only [locals, if_true] at this
    rw [rankIsOnSp, hctx, beq_iff_eq]
    exact this
  rw [length_filter_eq_card, locals, if_neg hne]
  congr 1
  refine Finset.filter_congr fun r hr => ?_
  rw [hon]
  refine ⟨fun h => h.2, fun h => ⟨hall r ?_, h⟩⟩
  rw [locals, if_neg hne]
  exact Finset.mem_filter.2 ⟨hr, h⟩

/-- The start of a callback with the message of a rank that joins in hand. -/
theorem Held.enterAdd (h : S.Held S.sys uid (s.group uid).work) {m : GroupAddMsg} (hj : S.Joins s uid m.rankInfo)
    (hne : uid ≠ S.world) (hsize : (s.ctx S.sys uid).cacheSize ≠ 1)
    (hcount : ∀ g, (m.worldRanks.filter (rankIsOnSp (s.ctx S.sys uid) g)).length = (S.locals uid).card) (c : ℕ) :
    S.Held (s.ctx S.sys uid) uid
      ((Event.addGroupRank c m).enter (s.ctx S.sys uid) ⟨(s.group uid).gp, (s.group uid).log⟩) where
  cast := { (h.toCtx s).cast with
    adds := .inr ⟨_, rfl, hne, hsize, hj.isLocal, hj.once, hcount⟩ }
  carries := { h.carries with adds := fun p hp => by rw [List.mem_singleton.1 hp]; exact S.locals_lt hj.isLocal }
  sized := h.sized

/-- The start of a callback with a batch in hand. -/
theorem Held.enterBatch (h : S.Held S.sys uid (s.group uid).work) {batch : List PeerCacheEntry}
    (hb : ∀ e ∈ batch, (peerSpec S.sys (S.locals uid) (S.size uid)).entry e) (sp : ℕ) :
    S.Held (s.ctx S.sys uid) uid
      ((Event.peerCacheEntries sp batch).enter (s.ctx S.sys uid) ⟨(s.group uid).gp, (s.group uid).log⟩) where
  cast := { (h.toCtx s).cast with }
  carries := { h.carries with batch := hb }
  sized := h.sized

/-- An event. -/
theorem Held.event (hu : uid ≠ INT_MAX) (h : S.Held S.sys uid (s.group uid).work) {ev : Event}
    (henter : S.Held (s.ctx S.sys uid) uid (ev.enter (s.ctx S.sys uid) ⟨(s.group uid).gp, (s.group uid).log⟩))
    (hsz : ev.Sizes (· = (S.size uid : ℤ))) {e' : Engine} (hs : (s.group uid).step (s.ctx S.sys uid) ev = some e') :
    S.Held S.sys uid e'.work := by
  rcases @Engine.step_acts (s.ctx S.sys uid) (· = (S.size uid : ℤ)) (fun _ => True) hu _ _ _ hs h.sized hsz
    (ev.applies_true _) with ⟨-, hgp, hlog⟩ | ha
  · rw [Engine.work, hgp, hlog]
    exact h
  · exact (henter.acts ha).toSys

/-- The end of a version. -/
theorem Held.revoke (hu : uid ≠ INT_MAX) (h : S.Held S.sys uid (s.group uid).work) {e' : Engine}
    (hgp : e'.gp = (revokeGroupCache (s.ctx S.sys uid) ⟨(s.group uid).gp, []⟩).gp)
    (hlog : e'.log = (s.group uid).log ++ (revokeGroupCache (s.ctx S.sys uid) ⟨(s.group uid).gp, []⟩).out) :
    S.Held S.sys uid e'.work := by
  obtain ⟨ha, -⟩ := @revokeGroupCache_acts (s.ctx S.sys uid) (· = (S.size uid : ℤ)) (fun _ => True) hu
    { Work.start ⟨(s.group uid).gp, []⟩ with final := true } rfl rfl rfl h.sized.parked
  have ha := ha.after (s.group uid).log
  have hstart : S.Held (s.ctx S.sys uid) uid
      (Work.after (s.group uid).log { Work.start ⟨(s.group uid).gp, []⟩ with final := true }) := by
    have hw : (Work.after (s.group uid).log { Work.start ⟨(s.group uid).gp, []⟩ with final := true }).cast =
        (s.group uid).work.cast := by simp [Work.after, GpState.after, Work.cast, Work.start]
    refine ⟨?_, { h.carries with }, h.sized⟩
    rw [hw]
    exact (h.toCtx s).cast
  have hend := hstart.acts ha
  rw [Engine.work, hgp, hlog]
  exact hend.toSys

/-- A connection. -/
theorem Held.connect (h : S.Held S.sys S.world (s.group S.world).work) {c : ℕ} {info : RankInfo}
    (hj : S.Joins s S.world info) (hloc : info.nLocalRanks = S.hostRanks)
    (hok : (s.ctx S.sys S.world).cacheSize = 1 ∨ S.hostRanks = S.worldLocals.card) {e' : Engine}
    (hslot : e'.slot = (finalizeClientConnection (s.ctx S.sys S.world) (s.group S.world).slot c info).1)
    (hlog : e'.log = (s.group S.world).log ++
      (finalizeClientConnection (s.ctx S.sys S.world) (s.group S.world).slot c info).2) :
    S.Held S.sys S.world e'.work := by
  have hL : S.locals S.world = S.worldLocals := if_pos rfl
  have hvalid : ¬ (info.groupUid = INT_MAX ∨ info.groupRank = INVALID_RANK) := by
    rw [hj.groupUid]
    exact not_or.2 ⟨S.hasUid, hj.valid⟩
  have hhost : S.hostRanks < 2 ^ 64 := by
    have := S.hostRanks_lt
    unfold INT_MAX at this
    omega
  have hfin : finalizeClientConnection (s.ctx S.sys S.world) (s.group S.world).slot c info =
      finalizeClientConnection (s.ctx S.sys S.world) (some (s.group S.world).gp) c info := by
    simp only [finalizeClientConnection, if_neg hvalid]
    rw [addCacheEntryForNewClient_getD]
    rfl
  have hq := @finalizeClientConnection_queues (s.ctx S.sys S.world) (s.group S.world).slot info c
  have hcast := @CastInv.connect (s.ctx S.sys S.world) (S.locals S.world) (S.size S.world) S.hostRanks
    (S.world ≠ S.world) (S.allocatable_size S.world) S.connected S.hasId S.hasUid (fun hne => hne rfl)
    (s.group S.world).gp (s.group S.world).log (h.toCtx s).cast h.carries c info hj.groupSize hloc hhost
    hj.isLocal (S.locals_lt hj.isLocal) hj.once hvalid (by rw [hL]; exact S.assigned) (by rw [hL]; exact hok)
  rw [← hslot] at hq
  rw [← hfin] at hcast
  simp only [← hslot, ← hlog] at hcast
  refine Held.toSys (s := s) ⟨hcast, ?_, h.sized.of_queues hq⟩
  exact h.carries.of_sub hq (List.Subset.refl _) (List.Subset.refl _) (List.Subset.refl _) (List.Subset.refl _)
    (List.Subset.refl _) (List.Subset.refl _)

theorem Env.uid_ne {op : StoreOp} (h : S.Env s op) : op.uid ≠ INT_MAX := by
  cases op with
  | connect uid c info => exact h.1.symm ▸ S.hasUid
  | revoke uid => exact h.2
  | event uid ev =>
    cases ev with
    | addGroupRank c m => exact h.2.1
    | peerCacheEntries sp batch => exact h.1
    | cacheSent => exact h
    | revokeFromRank _ | revokeFromSp _ | revokeSent | requestAdd _ | requestRevoke _ => exact h.elim
  | query _ | lookup _ _ | entry _ _ | hostAdd _ _ => exact h.elim

/-- An operation keeps what is known about its own group. -/
theorem Inv.step_self (h : S.Inv s) {op : StoreOp} (henv : S.Env s op) (htime : S.Timely s op)
    (hs : s.step S.sys op = some s') : S.Held S.sys op.uid (s'.group op.uid).work := by
  have hput : ∀ e, s' = s.put op.uid e → s'.group op.uid = e := by
    rintro e rfl
    exact Function.update_self _ _ _
  have hself := h.group op.uid henv.uid_ne
  cases op with
  | connect uid c info =>
    obtain ⟨rfl, hj, hloc⟩ := henv
    simp only [Store.step] at hs
    split at hs <;> cases hs
    rw [hput _ rfl]
    exact hself.connect hj hloc htime rfl rfl
  | revoke uid =>
    cases hs
    rw [hput _ rfl]
    exact hself.revoke henv.2 rfl rfl
  | event uid ev =>
    obtain ⟨e, he, rfl⟩ := Option.map_eq_some_iff.1 hs
    rw [hput e rfl]
    have hu := henv.uid_ne
    cases ev with
    | addGroupRank c m =>
      obtain ⟨hne, -, hj, hw⟩ := henv
      obtain ⟨hworld, hall⟩ := htime
      -- a rank of the group is in the cache of the world group, so that is in the table
      have hslot : (s.group S.world).slot.isSome = true := by
        have hset := hall _ hj.isLocal
        cases hn : (s.group S.world).slot with
        | none =>
          rw [Engine.gp, hn] at hset
          simp [GroupCache.isSet, GroupCache.entryAt, GroupCache.entries, newGroupCache, initPeerCacheEntry] at hset
        | some g => rfl
      refine hself.event hu (hself.enterAdd hj hne (h.counted.cacheSize_ne_one hne hslot) (fun g => ?_) c) hj.groupSize he
      rw [hw]
      exact length_filter_worldRanks (h.group _ S.hasUid) h.counted hne hslot hworld hall g
    | peerCacheEntries sp batch => exact hself.event hu (hself.enterBatch henv.2.2.2 sp) henv.2.1 he
    | cacheSent => exact @Held.event S s uid hu hself .cacheSent (hself.toCtx s) trivial e he
    | revokeFromRank _ | revokeFromSp _ | revokeSent | requestAdd _ | requestRevoke _ => exact henv.elim
  | query _ | lookup _ _ | entry _ _ | hostAdd _ _ => exact henv.elim

theorem Inv.step (h : S.Inv s) {op : StoreOp} (henv : S.Env s op) (htime : S.Timely s op)
    (hs : s.step S.sys op = some s') : S.Inv s' where
  group uid hu := by
    by_cases he : uid = op.uid
    · subst he
      exact h.step_self henv htime hs
    · rw [Store.step_frame hs he]
      exact h.group uid hu
  counted := by
    obtain ⟨e, rfl⟩ := Store.step_put hs
    exact h.counted.put _ e

theorem inv_init (S : CastSite) : S.Inv Store.init where
  group uid hu := by
    refine ⟨CastInv.ofBlank S.hasId (fun _ => rfl) (fun hl => absurd rfl hl) rfl rfl rfl rfl rfl (.inl rfl)
      ⟨rfl, rfl, rfl, rfl⟩, ?_, ⟨?_, ?_⟩⟩
    · constructor <;> exact fun _ hm => absurd hm List.not_mem_nil
    all_goals exact fun _ hm => absurd hm List.not_mem_nil
  counted := counted_init

end CastSite

/-- **One broadcast for each version of a group, at the addition of its last local
rank**, in every run in which ranks connect and join in time. -/
theorem castOnce_of_reach (S : CastSite) {s : Store}
    (h : Reach (Store.step S.sys) (fun s op => S.Env s op ∧ S.Timely s op) Store.init s) : S.CastOnce s := by
  have hinv : S.Inv s := h.invariant S.inv_init fun _ _ _ hI hok hs => hI.step hok.1 hok.2 hs
  intro uid hu
  exact (hinv.group uid hu).cast.once rfl

/-! ### Two SPs on a DPU -/

instance (S : CastSite) (s : Store) (uid : ℤ) (info : RankInfo) : Decidable (S.Joins s uid info) :=
  decidable_of_iff (info.groupUid = uid ∧ info.groupSize = S.size uid ∧ info.groupRank ≠ INVALID_RANK ∧
      info.rank ∈ S.locals uid ∧ (s.group uid).gp.isSet info.rank = false)
    ⟨fun h => ⟨h.1, h.2.1, h.2.2.1, h.2.2.2.1, h.2.2.2.2⟩, fun h => ⟨h.1, h.2, h.3, h.4, h.5⟩⟩

instance CastSite.decidableEnv (S : CastSite) (s : Store) : (op : StoreOp) → Decidable (S.Env s op)
  | .connect uid _ info => inferInstanceAs
      (Decidable (uid = S.world ∧ S.Joins s uid info ∧ info.nLocalRanks = S.hostRanks))
  | .event uid (.addGroupRank _ m) => inferInstanceAs
      (Decidable (uid ≠ S.world ∧ uid ≠ INT_MAX ∧ S.Joins s uid m.rankInfo ∧ m.worldRanks = S.worldRanks uid))
  | .event uid (.peerCacheEntries _ batch) => inferInstanceAs
      (Decidable (uid ≠ INT_MAX ∧ batchGroupSize batch = S.size uid ∧ batch ≠ [] ∧ ∀ e ∈ batch,
        e.peer.procInfo.rank < S.size uid ∧ e.peer.procInfo.rank ∉ S.locals uid ∧ e.shadow0 ≠ S.sys.globalId))
  | .event uid .cacheSent => inferInstanceAs (Decidable (uid ≠ INT_MAX))
  | .revoke uid => inferInstanceAs (Decidable (uid ≠ S.world ∧ uid ≠ INT_MAX))
  | .event _ (.revokeFromRank _) | .event _ (.revokeFromSp _) | .event _ .revokeSent | .event _ (.requestAdd _)
  | .event _ (.requestRevoke _) | .query _ | .lookup _ _ | .entry _ _ | .hostAdd _ _ => inferInstanceAs (Decidable False)

instance CastSite.decidableTimely (S : CastSite) (s : Store) : (op : StoreOp) → Decidable (S.Timely s op)
  | .connect uid _ _ => inferInstanceAs
      (Decidable ((s.ctx S.sys uid).cacheSize = 1 ∨ S.hostRanks = S.worldLocals.card))
  | .event uid (.addGroupRank _ _) => inferInstanceAs (Decidable (s.worldGroup = S.world ∧
      ∀ r ∈ S.locals uid, (s.group S.world).gp.isSet (S.worldRank uid r) = true))
  | .event _ (.peerCacheEntries _ _) | .event _ .cacheSent | .event _ (.revokeFromRank _) | .event _ (.revokeFromSp _)
  | .event _ .revokeSent | .event _ (.requestAdd _) | .event _ (.requestRevoke _) | .query _ | .lookup _ _
  | .entry _ _ | .hostAdd _ _ | .revoke _ => inferInstanceAs (Decidable True)

/-- One host with two ranks, and two SPs on its DPU; this is SP 0, with rank 0. Group 9 has
both ranks, every other group has rank 1 only. -/
def dpuSite : CastSite where
  sys := { pairCtx with numServiceProcsPerDpu := 2, hosts := ⟨1, [(70, 0)]⟩ }
  world := 5
  worldSize := 2
  worldLocals := {0}
  hostRanks := 2
  worldRanks uid := if uid = 9 then [0, 1] else [1]
  connected := rfl
  hasId := by decide
  hasUid := pairSite.gpUid_ne
  assigned := rfl
  hostRanks_lt := by decide
  worldLocals_lt := by decide
  alloc_world := allocatable_two
  alloc uid := by unfold Allocatable sizeofPeerCacheEntry; split <;> decide

/-- Rank `r` of a group of `n` ranks. -/
def dpuInfo (uid : ℤ) (n r : ℕ) : RankInfo where
  groupUid := uid
  groupRank := r
  groupSize := n
  nLocalRanks := 2
  localRank := r
  hostInfo := 70
  groupSeqNum := 1

/-- The entry of rank `r`, which is on SP 1. -/
def dpuEntry (uid : ℤ) (n r : ℕ) : PeerCacheEntry where
  set := true
  peer := ⟨dpuInfo uid n r, 70, [1]⟩
  clientId := 0
  shadowServiceProcs := [1]

/-- Rank 1 has joined a group of its own before rank 0 connects: SP 0 waits for the two
ranks of the host. -/
theorem not_castOnce_after_other_group :
    ∃ s, Reach (Store.step dpuSite.sys) dpuSite.Env Store.init s ∧ ¬ dpuSite.CastOnce s := by
  have h : ∃ s, Reach (Store.step dpuSite.sys) dpuSite.Env Store.init s ∧
      casts (s.group 5).log = 0 ∧ ∀ r ∈ dpuSite.locals 5, (s.group 5).gp.isSet r = true :=
    exists_reach_of_exec
      [.event 5 (.peerCacheEntries 1 [dpuEntry 5 2 1]), .event 10 (.peerCacheEntries 1 [dpuEntry 10 1 0]),
        .connect 5 0 (dpuInfo 5 2 0)] (by decide)
  obtain ⟨s, hs, h0, hall⟩ := h
  refine ⟨s, hs, fun hc => ?_⟩
  have := hc 5 (by decide)
  rw [h0, if_pos ⟨⟨0, by decide⟩, hall⟩] at this
  cases this

/-- Rank 0 connects, and joins a group with rank 1. -/
theorem castOnce_of_reach_dpu :
    ∃ s, Reach (Store.step dpuSite.sys) (fun s op => dpuSite.Env s op ∧ dpuSite.Timely s op) Store.init s ∧
      casts (s.group 5).log = 1 ∧ casts (s.group 9).log = 1 ∧ dpuSite.CastOnce s := by
  have h : ∃ s, Reach (Store.step dpuSite.sys) (fun s op => dpuSite.Env s op ∧ dpuSite.Timely s op) Store.init s ∧
      casts (s.group 5).log = 1 ∧ casts (s.group 9).log = 1 :=
    exists_reach_of_exec
      [.event 5 (.peerCacheEntries 1 [dpuEntry 5 2 1]), .connect 5 0 (dpuInfo 5 2 0),
        .event 9 (.peerCacheEntries 1 [dpuEntry 9 2 1]), .event 9 (.addGroupRank 0 ⟨dpuInfo 9 2 0, [0, 1]⟩)]
      (by decide)
  obtain ⟨s, hs, h₁, h₂⟩ := h
  exact ⟨s, hs, h₁, h₂, castOnce_of_reach dpuSite hs⟩

end DpuOffload
