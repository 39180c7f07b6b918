import DpuOffload.Protocol.Net
import DpuOffload.Lib.Bitset

/-!
# What SPs send each other

A broadcast goes to all other SPs, the same messages to each. The entries of the ranks of
an SP go out one by one, in the order of the ranks (`sendLocalRankGroupCache_eq`); the
revokes go out in messages about 1024 ranks each, which together report every rank marked,
in order (`sendLocalRevokeRankGroupCache_spec`).
-/

namespace DpuOffload

/-! ### Entries -/

/-- After the start of a range the next entry that is set ends it. -/
theorem findRangeLoop_some {gid total cur start count : ℕ} {es : List PeerCacheEntry} {idx a b c : ℕ}
    (hv : ∀ e ∈ es, e.set = true → e.peer.procInfo.groupRank ≠ INVALID_RANK) (hlt : start < idx)
    (h : findRangeLoop gid total cur es idx (some start) count = some (a, b, c)) :
    a = start ∧ b = count ∧ idx ≤ c := by
  induction es generalizing idx with
  | nil =>
    unfold findRangeLoop at h
    split at h
    · cases h; exact ⟨rfl, rfl, le_rfl⟩
    · cases h
  | cons e es ih =>
    unfold findRangeLoop at h
    split at h
    · cases h; exact ⟨rfl, rfl, le_rfl⟩
    · cases hset : e.set
      · simp only [hset, Bool.not_false, if_true] at h
        obtain ⟨h₁, h₂, h₃⟩ := ih (fun e' he' => hv e' (List.mem_cons_of_mem _ he')) (hlt.trans (Nat.lt_succ_self _)) h
        exact ⟨h₁, h₂, Nat.le_of_succ_le h₃⟩
      · simp only [hset, Bool.not_true, Bool.false_eq_true, if_false] at h
        rw [if_pos ⟨hlt, (hv e List.mem_cons_self hset).symm⟩] at h
        cases h
        exact ⟨rfl, rfl, le_rfl⟩

/-- A range is one entry of a rank of the SP. -/
theorem findRangeLoop_none {gid total cur : ℕ} {es : List PeerCacheEntry} {idx a b c : ℕ}
    (hv : ∀ e ∈ es, e.set = true → e.peer.procInfo.groupRank ≠ INVALID_RANK)
    (h : findRangeLoop gid total cur es idx none 0 = some (a, b, c)) :
    idx ≤ a ∧ a < c ∧ b = 1 ∧ ∃ e, es[a - idx]? = some e ∧ e.set = true ∧ e.shadow0 = gid := by
  induction es generalizing idx with
  | nil => unfold findRangeLoop at h; cases h
  | cons e es ih =>
    have hv' : ∀ e' ∈ es, e'.set = true → e'.peer.procInfo.groupRank ≠ INVALID_RANK :=
      fun e' he' => hv e' (List.mem_cons_of_mem _ he')
    have later : findRangeLoop gid total cur es (idx + 1) none 0 = some (a, b, c) →
        idx ≤ a ∧ a < c ∧ b = 1 ∧ ∃ e', (e :: es)[a - idx]? = some e' ∧ e'.set = true ∧ e'.shadow0 = gid := by
      intro h
      obtain ⟨hle, hlt, hb, hex⟩ := ih hv' h
      refine ⟨Nat.le_of_succ_le hle, hlt, hb, ?_⟩
      rw [show a - idx = a - (idx + 1) + 1 by omega, List.getElem?_cons_succ]
      exact hex
    unfold findRangeLoop at h
    cases hset : e.set
    · simp only [hset, Bool.not_false, if_true] at h
      exact later h
    · simp only [hset, Bool.not_true, Bool.false_eq_true, if_false] at h
      by_cases hsp : e.shadow0 = gid
      · rw [if_pos hsp] at h
        obtain ⟨rfl, rfl, hc⟩ := findRangeLoop_some hv' (Nat.lt_succ_self _) h
        exact ⟨le_rfl, hc, rfl, e, by simp, hset, hsp⟩
      · rw [if_neg hsp] at h
        exact later h

theorem sendLocalRanksLoop_eq {g : GroupCache} {gid : ℕ}
    (hv : ∀ e ∈ g.entries, e.set = true → e.peer.procInfo.groupRank ≠ INVALID_RANK) {fuel count idx : ℕ}
    {bs : List (List PeerCacheEntry)} (h : sendLocalRanksLoop g gid fuel count idx = some bs) :
    ∃ l : List ℕ, bs = l.map (fun r => [g.entryAt r]) ∧ l.Pairwise (· < ·) ∧
      ∀ r ∈ l, idx ≤ r ∧ g.isSet r = true ∧ (g.entryAt r).shadow0 = gid := by
  induction fuel generalizing count idx bs with
  | zero =>
    cases h
    exact ⟨[], rfl, .nil, fun r hr => absurd hr List.not_mem_nil⟩
  | succ fuel ih =>
    unfold sendLocalRanksLoop at h
    split at h
    · obtain ⟨⟨start, num, next⟩, hfind, h⟩ := Option.bind_eq_some_iff.1 h
      obtain ⟨rest, hrest, h⟩ := Option.bind_eq_some_iff.1 h
      cases h
      obtain ⟨l, rfl, hp, hl⟩ := ih hrest
      obtain ⟨hle, hlt, rfl, e, he, hset, hsp⟩ := findRangeLoop_none (fun e he => hv e (List.mem_of_mem_drop he)) hfind
      have hget : g.entries[start]? = some e := by
        rw [List.getElem?_drop, Nat.add_sub_cancel' hle] at he
        exact he
      have hat : g.entryAt start = e := by rw [GroupCache.entryAt, List.getD_eq_getElem?_getD, hget]; rfl
      refine ⟨start :: l, ?_, List.pairwise_cons.2 ⟨fun r hr => hlt.trans_le (hl r hr).1, hp⟩, fun r hr => ?_⟩
      · obtain ⟨hlen, hge⟩ := List.getElem?_eq_some_iff.1 hget
        rw [List.map_cons, hat, List.drop_eq_getElem_cons hlen, hge]
        rfl
      · rcases List.mem_cons.1 hr with rfl | hr
        · exact ⟨hle, by rw [GroupCache.isSet, hat]; exact hset, by rw [hat]; exact hsp⟩
        · exact ⟨(hle.trans hlt.le).trans (hl r hr).1, (hl r hr).2⟩
    · cases h
      exact ⟨[], rfl, .nil, fun r hr => absurd hr List.not_mem_nil⟩

/-- **The entries of the ranks of an SP go out one by one**, each once. -/
theorem sendLocalRankGroupCache_eq {g : GroupCache} {gid : ℕ}
    (hv : ∀ e ∈ g.entries, e.set = true → e.peer.procInfo.groupRank ≠ INVALID_RANK) :
    ∃ l : List ℕ, (sendLocalRankGroupCache g gid).getD [] = l.map (fun r => [g.entryAt r]) ∧ l.Pairwise (· < ·) ∧
      ∀ r ∈ l, g.isSet r = true ∧ (g.entryAt r).shadow0 = gid := by
  have hnil : ∃ l : List ℕ, ([] : List (List PeerCacheEntry)) = l.map (fun r => [g.entryAt r]) ∧ l.Pairwise (· < ·) ∧
      ∀ r ∈ l, g.isSet r = true ∧ (g.entryAt r).shadow0 = gid :=
    ⟨[], rfl, .nil, fun r hr => absurd hr List.not_mem_nil⟩
  unfold sendLocalRankGroupCache
  split
  · exact hnil
  · cases hl : sendLocalRanksLoop g gid g.nLocalRanksPopulated 0 0 with
    | none => exact hnil
    | some bs =>
      obtain ⟨l, rfl, hp, hl⟩ := sendLocalRanksLoop_eq hv hl
      exact ⟨l, rfl, hp, fun r hr => (hl r hr).2⟩

/-! ### Revokes -/

theorem carried_revokeMsg (g : GroupCache) (start num : ℕ) :
    (g.revokeMsg start num).carried = ((List.range num).map (start + ·)).filter g.revoked := by
  have hlen : (g.revokeMsg start num).numRanks = num := by
    simp [GroupRevokeMsgFromSp.numRanks, GroupCache.revokeMsg]
  rw [GroupRevokeMsgFromSp.carried, hlen, List.filter_map, ← List.filterMap_eq_map, ← List.filterMap_eq_filter,
    List.filterMap_filterMap]
  refine List.filterMap_congr fun k hk => ?_
  have hk := List.mem_range.1 hk
  simp only [GroupCache.revokeMsg, List.getD_eq_getElem?_getD, List.getElem?_map, List.getElem?_range hk, Option.map_some,
    Option.getD_some]
  by_cases hr : g.revoked (start + k) <;> simp [hr, Option.guard]

/-- The messages about the revokes of a group from rank `sent` on: they report each rank marked
once, in order. -/
theorem sendLocalRevokeLoop_carried (g : GroupCache) (fuel sent : ℕ) :
    ((sendLocalRevokeLoop g fuel sent).flatMap (·.carried)).Pairwise (· < ·) ∧
      ∀ r ∈ (sendLocalRevokeLoop g fuel sent).flatMap (·.carried), sent ≤ r ∧ g.revoked r = true := by
  induction fuel generalizing sent with
  | zero => exact ⟨List.Pairwise.nil, fun r hr => absurd hr List.not_mem_nil⟩
  | succ fuel ih =>
    unfold sendLocalRevokeLoop
    split
    · obtain ⟨hp, hr⟩ := ih (sent + if g.groupSize - sent < 1024 then g.groupSize - sent else 1024)
      generalize (if g.groupSize - sent < 1024 then g.groupSize - sent else 1024) = cur at hp hr
      simp only [List.flatMap_cons, carried_revokeMsg]
      have hfirst : ∀ r ∈ ((List.range cur).map (sent + ·)).filter g.revoked,
          sent ≤ r ∧ r < sent + cur ∧ g.revoked r = true := by
        intro r hr
        obtain ⟨hr, hrev⟩ := List.mem_filter.1 hr
        obtain ⟨k, hk, rfl⟩ := List.mem_map.1 hr
        have hk := List.mem_range.1 hk
        exact ⟨by omega, by omega, hrev⟩
      refine ⟨List.pairwise_append.2 ⟨?_, hp, fun a ha b hb => ?_⟩, fun r h => ?_⟩
      · refine List.Pairwise.filter _ (List.pairwise_map.2 (List.pairwise_lt_range.imp fun h => ?_))
        omega
      · have := hfirst a ha
        have := hr b hb
        omega
      · rcases List.mem_append.1 h with h | h
        · exact ⟨(hfirst r h).1, (hfirst r h).2.2⟩
        · have := hr r h
          exact ⟨by omega, this.2⟩
    · exact ⟨List.Pairwise.nil, fun r hr => absurd hr List.not_mem_nil⟩

/-- Each names the group and its version, and is within it. -/
theorem mem_sendLocalRevokeLoop {g : GroupCache} {m : GroupRevokeMsgFromSp} {fuel sent : ℕ}
    (h : m ∈ sendLocalRevokeLoop g fuel sent) :
    m.groupSize = g.groupSize ∧ m.gpSeqNum = g.persistent.num ∧ m.rankStart + m.numRanks ≤ g.groupSize := by
  induction fuel generalizing sent with
  | zero => exact absurd h List.not_mem_nil
  | succ fuel ih =>
    unfold sendLocalRevokeLoop at h
    split at h
    · rename_i hlt
      rcases List.mem_cons.1 h with rfl | h
      · refine ⟨rfl, rfl, ?_⟩
        simp only [GroupCache.revokeMsg, GroupRevokeMsgFromSp.numRanks, List.length_map, List.length_range]
        split <;> omega
      · exact ih h
    · exact absurd h List.not_mem_nil

/-- **The revokes of a group go out once each**, with its version. -/
theorem sendLocalRevokeRankGroupCache_spec (g : GroupCache) :
    ((sendLocalRevokeRankGroupCache g).flatMap (·.carried)).Nodup ∧
      (∀ r ∈ (sendLocalRevokeRankGroupCache g).flatMap (·.carried), g.revoked r = true) ∧
      ∀ m ∈ sendLocalRevokeRankGroupCache g,
        m.groupSize = g.groupSize ∧ m.gpSeqNum = g.persistent.num ∧ m.rankStart + m.numRanks ≤ g.groupSize := by
  unfold sendLocalRevokeRankGroupCache
  split
  · exact ⟨List.nodup_nil, fun r hr => absurd hr List.not_mem_nil, fun m hm => absurd hm List.not_mem_nil⟩
  · obtain ⟨hp, hr⟩ := sendLocalRevokeLoop_carried g g.groupSize 0
    exact ⟨hp.imp fun h => h.ne, fun r h => (hr r h).2, fun m hm => mem_sendLocalRevokeLoop hm⟩

/-! ### Destinations -/

theorem nodup_otherSps (ctx : GpCtx) : ctx.otherSps.Nodup := List.nodup_range.filter _

theorem mem_otherSps {ctx : GpCtx} {d : ℕ} : d ∈ ctx.otherSps ↔ d < ctx.numServiceProcs ∧ d ≠ ctx.globalId := by
  simp [GpCtx.otherSps]

/-- Each destination of a broadcast gets the messages once. -/
theorem filterMap_toSp_flatMap {α : Type} (src dest : ℕ) {ds : List ℕ} (hnd : ds.Nodup) (l : List α)
    (f : ℕ → α → Effect) (ev : α → Event) (h : ∀ d a, (f d a).toSp src dest = if d = dest then some (ev a) else none) :
    (ds.flatMap fun d => l.map (f d)).filterMap (Effect.toSp src dest) = if dest ∈ ds then l.map ev else [] := by
  have hone : ∀ d, (l.map (f d)).filterMap (Effect.toSp src dest) = if d = dest then l.map ev else [] := by
    intro d
    rw [List.filterMap_map]
    by_cases hd : d = dest
    · rw [if_pos hd, ← List.filterMap_eq_map]
      refine List.filterMap_congr fun a _ => ?_
      rw [Function.comp_apply, h, if_pos hd]
      rfl
    · rw [if_neg hd, List.filterMap_eq_nil_iff]
      intro a _
      rw [Function.comp_apply, h, if_neg hd]
  induction ds with
  | nil => rfl
  | cons d ds ih =>
    obtain ⟨hd, hnd⟩ := List.nodup_cons.1 hnd
    rw [List.flatMap_cons, List.filterMap_append, hone, ih hnd]
    by_cases hdd : d = dest
    · subst hdd
      rw [if_pos rfl, if_neg hd, if_pos List.mem_cons_self, List.append_nil]
    · rw [if_neg hdd, List.nil_append]
      refine if_congr ?_ rfl rfl
      rw [List.mem_cons]
      exact ⟨.inr, fun hm => hm.resolve_left fun he => hdd he.symm⟩

/-- What has been sent from SP `src` to SP `dest`. -/
def GpState.sent (s : GpState) (src dest : ℕ) : List Event := s.out.filterMap (Effect.toSp src dest)

theorem sent_sendGpCacheToHost (s : GpState) (src dest : ℕ) : (sendGpCacheToHost s).sent src dest = s.sent src dest := by
  unfold sendGpCacheToHost
  split
  · simp [GpState.sent, Effect.toSp]
  · rfl

/-- A broadcast sends the entries of the ranks of the SP to every other SP. -/
theorem sent_broadcastGroupCache (ctx : GpCtx) (s : GpState) (src d : ℕ) :
    (broadcastGroupCache ctx s).sent src d = s.sent src d ++
      if ctx.allServiceProcsConnected = true ∧ 1 < ctx.numServiceProcs ∧ d ∈ ctx.otherSps then
        ((sendLocalRankGroupCache s.gp ctx.globalId).getD []).map (.peerCacheEntries src) else [] := by
  have hmsgs : (broadcastMsgs ctx s.gp).filterMap (Effect.toSp src d) = if d ∈ ctx.otherSps then
      ((sendLocalRankGroupCache s.gp ctx.globalId).getD []).map (.peerCacheEntries src) else [] :=
    filterMap_toSp_flatMap src d (nodup_otherSps ctx) _ _ _ fun _ _ => rfl
  have hemit : (s.emit (.broadcast :: if 1 < ctx.numServiceProcs then broadcastMsgs ctx s.gp else [])).sent src d =
      s.sent src d ++ if 1 < ctx.numServiceProcs ∧ d ∈ ctx.otherSps then
        ((sendLocalRankGroupCache s.gp ctx.globalId).getD []).map (.peerCacheEntries src) else [] := by
    rw [GpState.sent, GpState.emit, List.filterMap_append, List.filterMap_cons]
    by_cases h1 : 1 < ctx.numServiceProcs
    · simp only [Effect.toSp, h1, if_true, true_and]
      rw [hmsgs]
      rfl
    · simp only [Effect.toSp, h1, if_false, false_and]
      rfl
  simp only [broadcastGroupCache]
  by_cases hall : ctx.allServiceProcsConnected
  · simp only [hall, Bool.not_true, Bool.false_eq_true, if_false, true_and]
    by_cases hf : s.gp.full
    · simp only [GpState.emit, hf, if_true] at hemit ⊢
      rw [sent_sendGpCacheToHost]
      exact hemit
    · simp only [GpState.emit, hf] at hemit ⊢
      exact hemit
  · simp [hall]

/-- **What an exchange sends**, on a group that is not alone in the table: nothing, or the entries
of the ranks of the SP when all of them are there. -/
theorem sent_groupCacheExchange {ctx : GpCtx} (hc : ctx.cacheSize ≠ 1) (s : GpState) (n src : ℕ) :
    ∃ N : ℕ → List Event, (∀ d, (groupCacheExchange ctx s n).sent src d = s.sent src d ++ N d) ∧
      ∀ d, N d ≠ [] → d ∈ ctx.otherSps ∧ n = s.gp.nLocalRanksPopulated ∧
        N d = ((sendLocalRankGroupCache s.gp ctx.globalId).getD []).map (.peerCacheEntries src) := by
  unfold groupCacheExchange
  rw [if_neg hc]
  split
  · rename_i hn
    refine ⟨_, sent_broadcastGroupCache ctx s src, fun d hd => ?_⟩
    by_cases hcond : ctx.allServiceProcsConnected = true ∧ 1 < ctx.numServiceProcs ∧ d ∈ ctx.otherSps
    · exact ⟨hcond.2.2, hn, if_pos hcond⟩
    · exact absurd (if_neg hcond) hd
  · exact ⟨fun _ => [], fun d => (List.append_nil _).symm, fun d hd => absurd rfl hd⟩

/-- The revoke of the last local rank sends the revokes of the group to every other SP. -/
theorem sent_tellRankRevoke_eq (ctx : GpCtx) (s : GpState) (i : RankInfo) (src d : ℕ) :
    (tellRankRevoke ctx s i).sent src d = s.sent src d ++
      if s.gp.revokesLocal + 1 = s.gp.spRanks ∧ ctx.numServiceProcs ≠ 1 ∧ d ∈ ctx.otherSps then
        (sendLocalRevokeRankGroupCache (s.gp.markLocalRank (sizeT i.groupRank))).map .revokeFromSp else [] := by
  have hmark : GpState.sent ⟨s.gp.markLocalRank (sizeT i.groupRank),
      s.out ++ [.markedFromRank (sizeT i.groupRank) i.groupSeqNum s.gp.persistent.num]⟩ src d = s.sent src d := by
    simp [GpState.sent, Effect.toSp]
  unfold tellRankRevoke
  dsimp only
  by_cases hl : s.gp.revokesLocal + 1 = s.gp.spRanks
  · rw [if_pos (show (s.gp.markLocalRank _).revokesLocal = (s.gp.markLocalRank _).spRanks from hl)]
    unfold broadcastGroupCacheRevoke
    by_cases h1 : ctx.numServiceProcs = 1
    · rw [if_pos h1, hmark, if_neg fun hc => hc.2.1 h1, List.append_nil]
    · rw [if_neg h1, GpState.sent, GpState.emit, List.filterMap_append]
      rw [filterMap_toSp_flatMap src d (nodup_otherSps ctx) _ _ _ fun _ _ => rfl]
      simp only [hl, true_and, ne_eq, h1, not_false_eq_true]
      congr 1
  · rw [if_neg (show ¬ (s.gp.markLocalRank _).revokesLocal = (s.gp.markLocalRank _).spRanks from hl), hmark,
      if_neg fun hc => hl hc.1, List.append_nil]

/-- **What the revoke of a local rank sends**: nothing, or the revokes of the group when it is
the last of the SP. -/
theorem sent_tellRankRevoke (ctx : GpCtx) (s : GpState) (i : RankInfo) (src : ℕ) :
    ∃ N : ℕ → List Event, (∀ d, (tellRankRevoke ctx s i).sent src d = s.sent src d ++ N d) ∧
      ∀ d, N d ≠ [] → d ∈ ctx.otherSps ∧ s.gp.revokesLocal + 1 = s.gp.spRanks ∧
        N d = (sendLocalRevokeRankGroupCache (s.gp.markLocalRank (sizeT i.groupRank))).map .revokeFromSp := by
  refine ⟨_, sent_tellRankRevoke_eq ctx s i src, fun d hd => ?_⟩
  by_cases hcond : s.gp.revokesLocal + 1 = s.gp.spRanks ∧ ctx.numServiceProcs ≠ 1 ∧ d ∈ ctx.otherSps
  · exact ⟨hcond.2.2, hcond.1, if_pos hcond⟩
  · exact absurd (if_neg hcond) hd

end DpuOffload
