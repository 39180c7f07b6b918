import DpuOffload.Protocol.Messages
import DpuOffload.Protocol.RevokeActs

/-!
# The revokes of a group, cut into messages and put together again

`send_local_revoke_rank_group_cache` tells another SP which ranks revoked a group. A
message has room for 1024 ranks, so the loop cuts the ranks into pieces, with three running
counts: how many ranks were sent, how many are in the message at hand, how many remain
(`sendLocalRevokeWhile`). The pieces are the ranks of the group, each once
(`sendLocalRevokeLoop_covers`).

At the other end a message is applied at once (`applySpRevoke`, the second branch of
`handle_revoke_group_rank_through_list_ranks`) or put aside (`queueSpRevoke`, the first
one) until `HANDLE_PENDING_GROUP_REVOKE_MSGS_FROM_SPS` takes up what was put aside. Which of
the two happens to which message, when the messages put aside are taken up and in which
order all of it happens is left open here: `RevokeOp` has a step for each.
-/

namespace DpuOffload

open Transition

/-! ### The sender -/

/-- The running counts of `send_local_revoke_rank_group_cache`, and the messages so far. -/
structure RevokeSends where
  /-- How many ranks were sent. -/
  ranksSent : ℕ
  /-- How many are in the message at hand. -/
  currentSends : ℕ
  /-- How many remain. -/
  remainingSends : ℕ
  /-- The messages. -/
  msgs : List GroupRevokeMsgFromSp

/-- One turn of the loop. -/
def sendLocalRevokeTurn (g : GroupCache) (s : RevokeSends) : RevokeSends :=
  let current := if s.remainingSends < 1024 then s.remainingSends else 1024
  { ranksSent := s.ranksSent + current
    currentSends := current
    remainingSends := s.remainingSends - current
    msgs := s.msgs ++ [g.revokeMsg s.ranksSent current] }

/-- The loop, `while (ranks_sent < group_size)`. -/
def sendLocalRevokeWhile (g : GroupCache) : ℕ → RevokeSends → RevokeSends
  | 0, s => s
  | fuel + 1, s => if s.ranksSent < g.groupSize then sendLocalRevokeWhile g fuel (sendLocalRevokeTurn g s) else s

/-- The counts before the loop. -/
def RevokeSends.start (g : GroupCache) : RevokeSends where
  ranksSent := 0
  currentSends := 0
  remainingSends := g.groupSize
  msgs := []

/-- What was sent and what remains make up the group. -/
def RevokeSends.Balanced (g : GroupCache) (s : RevokeSends) : Prop := s.ranksSent + s.remainingSends = g.groupSize

theorem RevokeSends.Balanced.turn {g : GroupCache} {s : RevokeSends} (h : s.Balanced g) :
    (sendLocalRevokeTurn g s).Balanced g := by
  simp only [Balanced, sendLocalRevokeTurn] at h ⊢
  split <;> omega

/-- A turn sends something, as long as something remains. -/
theorem RevokeSends.Balanced.lt_turn {g : GroupCache} {s : RevokeSends} (h : s.Balanced g)
    (hlt : s.ranksSent < g.groupSize) : s.ranksSent < (sendLocalRevokeTurn g s).ranksSent := by
  simp only [Balanced, sendLocalRevokeTurn] at h ⊢
  split <;> omega

/-- The loop ends when all ranks are sent. -/
theorem sendLocalRevokeWhile_ranksSent {g : GroupCache} (fuel : ℕ) {s : RevokeSends} (h : s.Balanced g)
    (hf : g.groupSize - s.ranksSent ≤ fuel) : (sendLocalRevokeWhile g fuel s).ranksSent = g.groupSize := by
  induction fuel generalizing s with
  | zero =>
    simp only [RevokeSends.Balanced] at h
    simp only [sendLocalRevokeWhile]
    omega
  | succ fuel ih =>
    unfold sendLocalRevokeWhile
    split
    · rename_i hlt
      have hlt' := h.lt_turn hlt
      apply ih h.turn
      omega
    · simp only [RevokeSends.Balanced] at h
      omega

/-- What remains is what was not sent: the messages depend on one count only. -/
theorem sendLocalRevokeWhile_msgs {g : GroupCache} (fuel : ℕ) {s : RevokeSends} (h : s.Balanced g) :
    (sendLocalRevokeWhile g fuel s).msgs = s.msgs ++ sendLocalRevokeLoop g fuel s.ranksSent := by
  induction fuel generalizing s with
  | zero => simp [sendLocalRevokeWhile, sendLocalRevokeLoop]
  | succ fuel ih =>
    have hrem : s.remainingSends = g.groupSize - s.ranksSent := by
      simp only [RevokeSends.Balanced] at h
      omega
    unfold sendLocalRevokeWhile sendLocalRevokeLoop
    split
    · rw [ih h.turn]
      simp [sendLocalRevokeTurn, hrem]
    · simp

theorem numRanks_revokeMsg (g : GroupCache) (start num : ℕ) : (g.revokeMsg start num).numRanks = num := by
  simp [GroupRevokeMsgFromSp.numRanks, GroupCache.revokeMsg]

/-- The ranks a message is about, marked or not. -/
def GroupRevokeMsgFromSp.about (m : GroupRevokeMsgFromSp) : List ℕ := List.range' m.rankStart m.numRanks

theorem carried_eq_filter_about (g : GroupCache) (start num : ℕ) :
    (g.revokeMsg start num).carried = (g.revokeMsg start num).about.filter g.revoked := by
  rw [carried_revokeMsg, GroupRevokeMsgFromSp.about, numRanks_revokeMsg, List.range'_eq_map_range]
  rfl

/-- The messages from rank `sent` on are about the ranks from `sent` on, each once and in order. -/
theorem sendLocalRevokeLoop_covers (g : GroupCache) (fuel sent : ℕ) (h : g.groupSize - sent ≤ fuel) :
    (sendLocalRevokeLoop g fuel sent).flatMap (·.about) = List.range' sent (g.groupSize - sent) := by
  induction fuel generalizing sent with
  | zero =>
    rw [Nat.le_zero.1 h]
    rfl
  | succ fuel ih =>
    unfold sendLocalRevokeLoop
    split
    · rename_i hlt
      have hle : (if g.groupSize - sent < 1024 then g.groupSize - sent else 1024) ≤ g.groupSize - sent := by
        split <;> omega
      have hpos : 0 < (if g.groupSize - sent < 1024 then g.groupSize - sent else 1024) := by
        split <;> omega
      generalize (if g.groupSize - sent < 1024 then g.groupSize - sent else 1024) = cur at hle hpos
      have habout : (g.revokeMsg sent cur).about = List.range' sent cur := by
        rw [GroupRevokeMsgFromSp.about, numRanks_revokeMsg]
        rfl
      rw [List.flatMap_cons, habout, ih _ (by omega), List.range'_append_1]
      congr 1
      omega
    · rw [Nat.sub_eq_zero_of_le (by omega)]
      rfl

/-- Each message is about `1024` ranks at most, and one at least, and carries those of them that are marked. -/
theorem sendLocalRevokeLoop_msg {g : GroupCache} {m : GroupRevokeMsgFromSp} {fuel sent : ℕ}
    (h : m ∈ sendLocalRevokeLoop g fuel sent) :
    0 < m.numRanks ∧ m.numRanks ≤ 1024 ∧ m.carried = m.about.filter g.revoked := by
  induction fuel generalizing sent with
  | zero => exact absurd h List.not_mem_nil
  | succ fuel ih =>
    unfold sendLocalRevokeLoop at h
    split at h
    · rcases List.mem_cons.1 h with rfl | h
      · rw [numRanks_revokeMsg]
        exact ⟨by split <;> omega, by split <;> omega, carried_eq_filter_about _ _ _⟩
      · exact ih h
    · exact absurd h List.not_mem_nil

/-- The messages carry the ranks of the group that are marked. -/
theorem mem_carried_sendLocalRevoke {g : GroupCache} (hi : g.initialized = true) {r : ℕ} :
    r ∈ (sendLocalRevokeRankGroupCache g).flatMap (·.carried) ↔ r ∈ g.revokedRanks.filter (· < g.groupSize) := by
  have heq : sendLocalRevokeRankGroupCache g = sendLocalRevokeLoop g g.groupSize 0 := by
    simp [sendLocalRevokeRankGroupCache, hi]
  have hcar : (sendLocalRevokeLoop g g.groupSize 0).flatMap (·.carried) =
      ((sendLocalRevokeLoop g g.groupSize 0).flatMap (·.about)).filter g.revoked := by
    rw [List.filter_flatMap]
    exact List.flatMap_congr fun m hm => (sendLocalRevokeLoop_msg hm).2.2
  rw [heq, hcar, sendLocalRevokeLoop_covers _ _ _ (Nat.sub_le _ _), List.mem_filter, List.mem_range'_1,
    Finset.mem_filter, GroupCache.revokedRanks, Bitset.mem_bits, GroupCache.revoked]
  constructor
  · rintro ⟨⟨-, h⟩, hr⟩
    exact ⟨hr, by omega⟩
  · rintro ⟨hr, h⟩
    exact ⟨⟨Nat.zero_le _, by omega⟩, hr⟩

/-! ### The receiver -/

/-- A message of an SP, applied at once: the second branch of `handle_revoke_group_rank_through_list_ranks`. -/
def applySpRevoke (g : GroupCache) (m : GroupRevokeMsgFromSp) : GpState :=
  let g := g.learnFromRevoke m
  let r := g.applyRevokeMsg m
  let s : GpState := ⟨r.1, marksOf g m r.2⟩
  if r.2 ≠ [] ∧ s.gp.finalRevokeDue then sendRevokeGroupToRanks s else s

/-- A message of an SP, put aside: the first branch. -/
def GroupCache.queueSpRevoke (g : GroupCache) (m : GroupRevokeMsgFromSp) : GroupCache :=
  { g with persistent := { g.persistent with
    pendingGroupRevokeMsgsFromSps := g.persistent.pendingGroupRevokeMsgsFromSps ++ [m] } }

/-- What happens to the messages of an SP at the receiver. -/
inductive RevokeOp where
  /-- A message arrives and is applied. -/
  | direct (m : GroupRevokeMsgFromSp)
  /-- A message arrives and is put aside. -/
  | queue (m : GroupRevokeMsgFromSp)
  /-- The messages put aside are taken up. -/
  | takeUp
  deriving DecidableEq

/-- The receiver, with the messages that have arrived. -/
structure RevokeReceiver where
  /-- The group. -/
  gp : GroupCache
  /-- The messages so far. -/
  seen : List GroupRevokeMsgFromSp

/-- One step of the receiver. -/
def RevokeReceiver.step (e : RevokeReceiver) : RevokeOp → Option RevokeReceiver
  | .direct m => some ⟨(applySpRevoke e.gp m).gp, e.seen ++ [m]⟩
  | .queue m => some ⟨e.gp.queueSpRevoke m, e.seen ++ [m]⟩
  | .takeUp => some ⟨(handlePendingGroupRevokeMsgsFromSps ⟨e.gp, []⟩).1.gp, e.seen⟩

/-- `handle_revoke_group_rank_through_list_ranks` does one of the two with a message that arrives. -/
theorem RevokeReceiver.step_handleSpRevoke (e : RevokeReceiver) (m : GroupRevokeMsgFromSp) :
    e.step (if e.gp.delaysSpRevoke then .queue m else .direct m) =
      some ⟨(handleSpRevoke e.gp m).gp, e.seen ++ [m]⟩ := by
  unfold handleSpRevoke
  split <;> rfl

/-- The messages that arrive are among `ms`. Messages put aside are only taken up when the size of the
group is known, as the macro asserts. -/
def RevokeReceiver.Ok (ms : List GroupRevokeMsgFromSp) (e : RevokeReceiver) : RevokeOp → Prop
  | .direct m => m ∈ ms
  | .queue m => m ∈ ms
  | .takeUp => e.gp.groupSize ≠ 0

instance (ms : List GroupRevokeMsgFromSp) (e : RevokeReceiver) (op : RevokeOp) : Decidable (RevokeReceiver.Ok ms e op) :=
  match op with
  | .direct m => inferInstanceAs (Decidable (m ∈ ms))
  | .queue m => inferInstanceAs (Decidable (m ∈ ms))
  | .takeUp => inferInstanceAs (Decidable (e.gp.groupSize ≠ 0))

/-- The group has `n` ranks, and its bitset has room for them. -/
def GroupCache.Knows (n : ℕ) (g : GroupCache) : Prop :=
  g.groupSize = n ∧ ∃ b, g.revokesRanks = some b ∧ n ≤ b.capacity

/-- A group of `n` ranks as a receiver can have it: with its size and bitset, or, where nothing was heard
of it yet, with neither. -/
def GroupCache.Hears (n : ℕ) (g : GroupCache) : Prop := g.Knows n ∨ g.groupSize = 0 ∧ g.revokesRanks = none

/-- From `g` to `g'` the ranks `rs` are marked and the new ones counted. -/
structure MarksRanks (n : ℕ) (rs : Finset ℕ) (g g' : GroupCache) : Prop where
  /-- The bitset has room. -/
  knows : g'.Knows n
  /-- The ranks are marked. -/
  bits : g'.revokedRanks = g.revokedRanks ∪ rs
  /-- The new ones are counted. -/
  count : g'.revokesGlobal + g.revokedRanks.card = g.revokesGlobal + g'.revokedRanks.card
  /-- What was put aside is still there. -/
  pending : g'.persistent.pendingGroupRevokeMsgsFromSps = g.persistent.pendingGroupRevokeMsgsFromSps

/-- The ranks some messages carry. -/
def carriedRanks (ms : List GroupRevokeMsgFromSp) : Finset ℕ := (ms.flatMap (·.carried)).toFinset

theorem carriedRanks_cons (m : GroupRevokeMsgFromSp) (ms : List GroupRevokeMsgFromSp) :
    carriedRanks (m :: ms) = m.carried.toFinset ∪ carriedRanks ms := by
  simp [carriedRanks]

theorem carriedRanks_concat (ms : List GroupRevokeMsgFromSp) (m : GroupRevokeMsgFromSp) :
    carriedRanks (ms ++ [m]) = carriedRanks ms ∪ m.carried.toFinset := by
  simp [carriedRanks]

theorem MarksRanks.trans {n : ℕ} {rs rs' : Finset ℕ} {g₀ g₁ g₂ : GroupCache} (h : MarksRanks n rs g₀ g₁)
    (h' : MarksRanks n rs' g₁ g₂) : MarksRanks n (rs ∪ rs') g₀ g₂ where
  knows := h'.knows
  bits := by rw [h'.bits, h.bits, Finset.union_assoc]
  count := by
    have := h.count
    have := h'.count
    omega
  pending := h'.pending.trans h.pending

/-- The marking loop, on a group with its bitset. -/
theorem GroupCache.Knows.apply {n : ℕ} {g : GroupCache} (h : g.Knows n) {m : GroupRevokeMsgFromSp}
    (hm : m.rankStart + m.numRanks ≤ n) : MarksRanks n m.carried.toFinset g (g.applyRevokeMsg m).1 := by
  obtain ⟨hs, b, hb, hcap⟩ := h
  have hlt : ∀ r ∈ m.carried, r < b.capacity := fun r hr => ((mem_carried hr).trans_le hm).trans_le hcap
  have hbits : (g.applyRevokeMsg m).1.revokedRanks = g.revokedRanks ∪ m.carried.toFinset := by
    simp only [GroupCache.applyRevokeMsg, GroupCache.revokedRanks, hb, Option.getD_some]
    exact bits_markRanks hlt
  refine ⟨⟨hs, _, rfl, ?_⟩, hbits, ?_, rfl⟩
  · rwa [hb, Option.getD_some, capacity_markRanks hlt]
  · have hcard := card_bits_markRanks hlt
    simp only [GroupCache.applyRevokeMsg, GroupCache.revokedRanks, hb, Option.getD_some] at hcard ⊢
    omega

/-- A message applied at once. -/
theorem GroupCache.Hears.applySpRevoke {n : ℕ} {g : GroupCache} (h : g.Hears n) {m : GroupRevokeMsgFromSp}
    (hn : 0 < n) (hs : m.groupSize = n) (hm : m.rankStart + m.numRanks ≤ n) :
    MarksRanks n m.carried.toFinset g (applySpRevoke g m).gp := by
  -- a group first heard of gets an empty bitset, which is what it had
  have hlearn : (g.learnFromRevoke m).Knows n ∧ (g.learnFromRevoke m).revokedRanks = g.revokedRanks ∧
      (g.learnFromRevoke m).revokesGlobal = g.revokesGlobal ∧
      (g.learnFromRevoke m).persistent = g.persistent := by
    unfold GroupCache.learnFromRevoke
    rcases h with h | ⟨h0, hnone⟩
    · rw [if_neg (by rw [h.1]; omega)]
      exact ⟨h, rfl, rfl, rfl⟩
    · rw [if_pos h0]
      refine ⟨⟨hs, _, rfl, ?_⟩, ?_, rfl, rfl⟩
      · rw [hnone, hs]
        exact Bitset.le_capacity_create n
      · rw [revokedRanks_of_none hnone, GroupCache.revokedRanks, hnone]
        exact Bitset.bits_create _
  obtain ⟨hk, hbits, hglobal, hpers⟩ := hlearn
  have hmark : MarksRanks n m.carried.toFinset g ((g.learnFromRevoke m).applyRevokeMsg m).1 := by
    have := hk.apply hm
    exact ⟨this.knows, hbits ▸ this.bits, by rw [← hbits, ← hglobal]; exact this.count,
      this.pending.trans (congrArg _ hpers)⟩
  unfold DpuOffload.applySpRevoke
  dsimp only
  split
  · exact ⟨hmark.knows, hmark.bits, hmark.count, hmark.pending⟩
  · exact hmark

/-- The messages put aside, taken up one after another. -/
theorem GroupCache.Knows.handlePending {n : ℕ} {ms : List GroupRevokeMsgFromSp}
    (hms : ∀ m ∈ ms, m.rankStart + m.numRanks ≤ n) (acc : GpState × ℕ) (h : acc.1.gp.Knows n) :
    MarksRanks n (carriedRanks ms) acc.1.gp (ms.foldl handlePendingRevokeMsg acc).1.gp := by
  induction ms generalizing acc with
  | nil => exact ⟨h, by simp [carriedRanks], rfl, rfl⟩
  | cons m ms ih =>
    have hsame : (handlePendingRevokeMsg acc m).1.gp = (acc.1.gp.applyRevokeMsg m).1 := by
      obtain ⟨b, hb, -⟩ := h.2
      have hlazy : { acc.1.gp with revokesRanks := some (bitsetCreate acc.1.gp.revokesRanks acc.1.gp.groupSize) } =
          acc.1.gp := by
        rw [hb]
        exact congrArg (fun o => { acc.1.gp with revokesRanks := o }) hb.symm
      exact congrArg (fun g : GroupCache => (g.applyRevokeMsg m).1) hlazy
    have hfirst : MarksRanks n m.carried.toFinset acc.1.gp (handlePendingRevokeMsg acc m).1.gp := by
      rw [hsame]
      exact h.apply (hms m (by simp))
    rw [carriedRanks_cons, List.foldl_cons]
    exact hfirst.trans (ih (fun q hq => hms q (by simp [hq])) _ hfirst.knows)

/-! ### Round trip -/

/-- The receiver between two steps: what is marked and what is put aside is what was marked at the
start and what has arrived. -/
structure Absorbs (n : ℕ) (ms : List GroupRevokeMsgFromSp) (g₀ : GroupCache) (e : RevokeReceiver) : Prop where
  /-- The group. -/
  hears : e.gp.Hears n
  /-- The messages put aside are the sender's. -/
  pending : ∀ m ∈ e.gp.persistent.pendingGroupRevokeMsgsFromSps, m ∈ ms
  /-- Nothing is lost and nothing made up. -/
  bits : e.gp.revokedRanks ∪ carriedRanks e.gp.persistent.pendingGroupRevokeMsgsFromSps =
    g₀.revokedRanks ∪ carriedRanks e.seen
  /-- The new marks are counted. -/
  count : e.gp.revokesGlobal + g₀.revokedRanks.card = g₀.revokesGlobal + e.gp.revokedRanks.card

variable {n : ℕ} {ms : List GroupRevokeMsgFromSp} {g₀ : GroupCache}

theorem Absorbs.direct {e : RevokeReceiver} (h : Absorbs n ms g₀ e) (hn : 0 < n)
    (hms : ∀ m ∈ ms, m.groupSize = n ∧ m.rankStart + m.numRanks ≤ n) {m : GroupRevokeMsgFromSp} (hm : m ∈ ms) :
    Absorbs n ms g₀ ⟨(applySpRevoke e.gp m).gp, e.seen ++ [m]⟩ := by
  have hmark := h.hears.applySpRevoke hn (hms m hm).1 (hms m hm).2
  refine ⟨.inl hmark.knows, ?_, ?_, ?_⟩
  · rw [hmark.pending]
    exact h.pending
  · rw [hmark.pending, hmark.bits, carriedRanks_concat, ← Finset.union_assoc, ← h.bits, Finset.union_right_comm]
  · have := hmark.count
    have := h.count
    dsimp only
    omega

theorem Absorbs.queue {e : RevokeReceiver} (h : Absorbs n ms g₀ e) {m : GroupRevokeMsgFromSp} (hm : m ∈ ms) :
    Absorbs n ms g₀ ⟨e.gp.queueSpRevoke m, e.seen ++ [m]⟩ where
  hears := h.hears
  pending q hq := by
    rcases List.mem_append.1 hq with hq | hq
    · exact h.pending q hq
    · rwa [List.mem_singleton.1 hq]
  bits := by
    change e.gp.revokedRanks ∪ carriedRanks (_ ++ [m]) = _
    rw [carriedRanks_concat, carriedRanks_concat, ← Finset.union_assoc, h.bits, Finset.union_assoc]
  count := h.count

theorem Absorbs.takeUp {e : RevokeReceiver} (h : Absorbs n ms g₀ e)
    (hms : ∀ m ∈ ms, m.groupSize = n ∧ m.rankStart + m.numRanks ≤ n) (hsize : e.gp.groupSize ≠ 0) :
    Absorbs n ms g₀ ⟨(handlePendingGroupRevokeMsgsFromSps ⟨e.gp, []⟩).1.gp, e.seen⟩ := by
  have hk : e.gp.Knows n := h.hears.resolve_right fun h0 => hsize h0.1
  have hmark := GroupCache.Knows.handlePending (n := n)
    (fun m hm => (hms m (h.pending m hm)).2)
    (⟨{ e.gp with persistent := { e.gp.persistent with pendingGroupRevokeMsgsFromSps := [] } }, []⟩, 0) hk
  refine ⟨.inl hmark.knows, ?_, ?_, ?_⟩
  · intro m hm
    have hnil : (handlePendingGroupRevokeMsgsFromSps ⟨e.gp, []⟩).1.gp.persistent.pendingGroupRevokeMsgsFromSps = [] :=
      hmark.pending
    rw [hnil] at hm
    exact absurd hm List.not_mem_nil
  · have hbits : (handlePendingGroupRevokeMsgsFromSps ⟨e.gp, []⟩).1.gp.revokedRanks =
        e.gp.revokedRanks ∪ carriedRanks e.gp.persistent.pendingGroupRevokeMsgsFromSps := hmark.bits
    have hnil : (handlePendingGroupRevokeMsgsFromSps ⟨e.gp, []⟩).1.gp.persistent.pendingGroupRevokeMsgsFromSps = [] :=
      hmark.pending
    rw [hbits, hnil, h.bits]
    simp [carriedRanks]
  · have hcount : (handlePendingGroupRevokeMsgsFromSps ⟨e.gp, []⟩).1.gp.revokesGlobal + e.gp.revokedRanks.card =
        e.gp.revokesGlobal + (handlePendingGroupRevokeMsgsFromSps ⟨e.gp, []⟩).1.gp.revokedRanks.card := hmark.count
    have := h.count
    dsimp only
    omega

/-- **No order of the messages loses a revoke.** -/
theorem absorbs_reach (hn : 0 < n) (hms : ∀ m ∈ ms, m.groupSize = n ∧ m.rankStart + m.numRanks ≤ n)
    (h₀ : g₀.Hears n) (hp : g₀.persistent.pendingGroupRevokeMsgsFromSps = []) {e : RevokeReceiver}
    (h : Reach RevokeReceiver.step (RevokeReceiver.Ok ms) ⟨g₀, []⟩ e) : Absorbs n ms g₀ e := by
  refine h.invariant ⟨h₀, ?_, ?_, rfl⟩ fun e op e' he hok hs => ?_
  · rw [hp]
    exact fun m hm => absurd hm List.not_mem_nil
  · rw [hp]
  · cases op with
    | direct m => cases hs; exact he.direct hn hms hok
    | queue m => cases hs; exact he.queue hok
    | takeUp => cases hs; exact he.takeUp hms hok

/-- **The revokes of an SP reach another SP whole.** The loop ends and builds messages about the ranks of
the group, each once, `1024` at most in a message. Wherever all of them have arrived, in some order and each applied
at once or put aside and taken up later, and none is left aside, the ranks marked are those marked
before and those the sender had marked, and the count has grown by the ranks newly marked. -/
theorem revokes_round_trip {s : GroupCache} (hi : s.initialized = true) (hn : 0 < s.groupSize) :
    ((sendLocalRevokeWhile s s.groupSize (.start s)).ranksSent = s.groupSize ∧
        (sendLocalRevokeWhile s s.groupSize (.start s)).msgs = sendLocalRevokeRankGroupCache s) ∧
      (sendLocalRevokeRankGroupCache s).flatMap (·.about) = List.range s.groupSize ∧
      (∀ m ∈ sendLocalRevokeRankGroupCache s, 0 < m.numRanks ∧ m.numRanks ≤ 1024) ∧
      ∀ (g : GroupCache) (e : RevokeReceiver), g.Hears s.groupSize →
        g.persistent.pendingGroupRevokeMsgsFromSps = [] →
        Reach RevokeReceiver.step (RevokeReceiver.Ok (sendLocalRevokeRankGroupCache s)) ⟨g, []⟩ e →
        e.seen.Perm (sendLocalRevokeRankGroupCache s) → e.gp.persistent.pendingGroupRevokeMsgsFromSps = [] →
        e.gp.revokedRanks = g.revokedRanks ∪ s.revokedRanks.filter (· < s.groupSize) ∧
          e.gp.revokesGlobal =
            g.revokesGlobal + (s.revokedRanks.filter (· < s.groupSize) \ g.revokedRanks).card := by
  have heq : sendLocalRevokeRankGroupCache s = sendLocalRevokeLoop s s.groupSize 0 := by
    simp [sendLocalRevokeRankGroupCache, hi]
  have hstart : (RevokeSends.start s).Balanced s := Nat.zero_add _
  refine ⟨⟨?_, ?_⟩, ?_, fun m hm => ?_, fun g e hg hp hr hseen hdone => ?_⟩
  · exact sendLocalRevokeWhile_ranksSent _ hstart (Nat.sub_le _ _)
  · rw [heq]
    exact sendLocalRevokeWhile_msgs _ hstart
  · rw [heq, sendLocalRevokeLoop_covers _ _ _ (Nat.sub_le _ _), Nat.sub_zero, List.range_eq_range']
  · rw [heq] at hm
    exact ⟨(sendLocalRevokeLoop_msg hm).1, (sendLocalRevokeLoop_msg hm).2.1⟩
  · have hms := (sendLocalRevokeRankGroupCache_spec s).2.2
    have habs := absorbs_reach hn (fun m hm => ⟨(hms m hm).1, (hms m hm).2.2⟩) hg hp hr
    have hcar : carriedRanks e.seen = s.revokedRanks.filter (· < s.groupSize) := by
      ext r
      rw [carriedRanks, List.mem_toFinset, ← mem_carried_sendLocalRevoke hi]
      exact (hseen.flatMap_right _).mem_iff
    have hbits : e.gp.revokedRanks = g.revokedRanks ∪ s.revokedRanks.filter (· < s.groupSize) := by
      have := habs.bits
      rwa [hdone, hcar, show carriedRanks [] = ∅ from rfl, Finset.union_empty] at this
    refine ⟨hbits, ?_⟩
    have hcount := habs.count
    have hcard := Finset.card_union_of_disjoint
      (Finset.disjoint_sdiff (s := g.revokedRanks) (t := s.revokedRanks.filter (· < s.groupSize)))
    rw [Finset.union_sdiff_self_eq_union, ← hbits] at hcard
    omega

/-- A group of three ranks, those in `b` marked. -/
def groupOfThree (b : Bitset) (global : ℕ) : GroupCache :=
  { newGroupCache with initialized := true, groupSize := 3, revokesRanks := some b, revokesGlobal := global }

/-- Ranks 0 and 2 are marked at the sender, rank 2 at the receiver: a message put aside and taken up
marks rank 0. -/
theorem revokes_round_trip_three :
    ∃ e : RevokeReceiver, e.gp.persistent.pendingGroupRevokeMsgsFromSps = [] ∧
      e.gp.revokedRanks = (groupOfThree [4] 1).revokedRanks ∪
        (groupOfThree [5] 2).revokedRanks.filter (· < (groupOfThree [5] 2).groupSize) ∧
      e.gp.revokesGlobal = (groupOfThree [4] 1).revokesGlobal +
        ((groupOfThree [5] 2).revokedRanks.filter (· < (groupOfThree [5] 2).groupSize) \
          (groupOfThree [4] 1).revokedRanks).card := by
  have hrun : ∃ e, Reach RevokeReceiver.step (RevokeReceiver.Ok (sendLocalRevokeRankGroupCache (groupOfThree [5] 2)))
      ⟨groupOfThree [4] 1, []⟩ e ∧ (e.seen = sendLocalRevokeRankGroupCache (groupOfThree [5] 2) ∧
        e.gp.persistent.pendingGroupRevokeMsgsFromSps = []) :=
    exists_reach_of_exec [.queue ((groupOfThree [5] 2).revokeMsg 0 3), .takeUp] (by decide)
  obtain ⟨e, hr, hseen, hdone⟩ := hrun
  exact ⟨e, hdone, (revokes_round_trip (s := groupOfThree [5] 2) rfl (by decide)).2.2.2 (groupOfThree [4] 1) e
    (.inl ⟨rfl, _, rfl, by decide⟩) rfl hr (by rw [hseen]) hdone⟩

end DpuOffload
