import DpuOffload.Protocol.LosslessRuns

/-!
# The SPs come to rest

A version of a group takes steps of the ranks, which join and leave it, and steps of the SPs
(`Crew.Moves`): messages are received, and sends complete. This module follows the SPs when the
ranks do nothing more. The SPs are to be connected, each with a rank, revokes of SPs wait for the
local ranks (`Net.Orderly`), and a rank leaves a version only when its SP holds all entries of it
(`Crew.Waits`). A revoke that comes earlier is put aside, where only the clean-up finds it, and the
version never ends (`stuck_after_early_leave`).

* `comes_to_rest` — **the SPs come to rest**: each version that ends, message received and send
  completed leaves less to do (`Crew.todo`), and in the end every SP has ended the versions that
  all ranks have left.
* `begun_at_rest`, `ended_at_rest` — **where they rest, they wait for a rank**: a version that all
  ranks have joined is complete on every SP, or has ended, and one that all ranks have left has
  ended.
-/

namespace DpuOffload

open Relation Transition Versions

/-- Has version `n` ended? -/
def GroupCache.Ended (g : GroupCache) (n : ℕ) : Prop :=
  n < g.persistent.num ∨ n = g.persistent.num ∧ g.numLocalEntries = 0

instance GroupCache.Ended.decidable (g : GroupCache) (n : ℕ) : Decidable (g.Ended n) :=
  inferInstanceAs (Decidable (_ ∨ _ ∧ _))

theorem Counts.ended_iff {S : Site} {w : Work} (h : Counts S w) (hok : w.face.Ok (Finset.range S.size) S.locals)
    {n : ℕ} : w.gp.Ended n ↔ n ≤ w.face.done := by
  by_cases ha : w.face.Active
  · have hn := h.active_iff.1 ha
    have hone := hok.one ha
    rw [Face.done_of_active ha, GroupCache.Ended]
    change n < w.face.num ∨ _ ↔ _
    omega
  · have hn : w.gp.numLocalEntries = 0 := not_not.1 fun hn => ha (h.active_iff.2 hn)
    rw [Face.done_of_not_active ha, GroupCache.Ended]
    change n < w.face.num ∨ n = w.face.num ∧ _ ↔ _
    omega

namespace Crew

variable {C : Crew} {hin : C.Manned} {s s' : Net} {i j : ℕ} {v : View} {hv : C.Tells v} {ev : Event} {e : Engine}

/-- **The SPs are at rest**: no message is on its way, and no final revoke is being sent. -/
def Still (C : Crew) (s : Net) : Prop :=
  (∀ i < C.num, ∀ j < C.num, s.link i j = []) ∧
    ∀ i < C.num, (s.sp i).log.countP Effect.isRevokeToRanks = (s.sp i).revokeDone

/-- A rank is marked when something has been counted. -/
theorem bits_of_revokesGlobal (hk : C.SpKept i (s.sp i)) (hv : C.Tells v)
    (hok : (s.sp i).work.face.Ok (Finset.range (C.site i v hv).size) (C.site i v hv).locals)
    (hpos : 0 < (s.sp i).gp.revokesGlobal) : (s.sp i).work.face.bits.Nonempty := by
  rcases (hk.revs v hv).count with ⟨hg, -⟩ | ⟨hn, hp, -, -⟩
  · exact Finset.card_pos.1 (hpos.trans_eq hg)
  · have hall := hok.closing ((hk.base v hv).counts.active_iff.2 hn.ne') hp
    exact ⟨0, hall (Finset.mem_range.2 C.pos)⟩

theorem onWay_of_still (hs : C.Still s) (hi : i < C.num) (f : Event → Multiset (ℕ × ℕ)) :
    C.onWay f s.view s.got i = 0 := by
  refine Finset.sum_eq_zero fun k hk => ?_
  have hnil : ((s.view k).sent i).drop (s.got k i) = [] := hs.1 k (Finset.mem_range.1 hk) i hi
  rw [hnil]
  rfl

/-- The final revokes are in the log. -/
theorem SpKept.countP_log (hk : C.SpKept i e) (hv : C.Tells v) :
    e.log.countP Effect.isRevokeToRanks = e.work.face.posted := by
  have hcount : e.work.notes.countP Effect.isRevokeToRanks = e.log.countP Effect.isRevokeToRanks :=
    countP_notes (fun x hx => by cases x <;> first | rfl | cases hx) e.work
  exact hcount.symm.trans (hk.revs v hv).posts

theorem Sound.ok (h : C.Sound hin s) (hv : C.Tells v) (hi : i < C.num) :
    (s.sp i).work.face.Ok (Finset.range (C.site i v hv).size) (C.site i v hv).locals :=
  ok_face (V := s.view) hi rfl h.kept.inv

theorem Sound.ended_iff (h : C.Sound hin s) (hv : C.Tells v) (hi : i < C.num) {n : ℕ} :
    (s.sp i).gp.Ended n ↔ n ≤ (s.sp i).work.face.done :=
  ((h.kept.sp i hi).base v hv).counts.ended_iff (h.ok hv hi)

/-- **At rest an SP has nothing on its way that it could use.** -/
theorem Sound.rest (h : C.Sound hin s) (hs : C.Still s) (hv : C.Tells v) (hi : i < C.num) :
    Rest (C.group hin) (C.snap s.view s.got (C.joined s) (C.left s)) i := by
  have hk := h.kept.sp i hi
  have hc := (hk.base v hv).counts
  have hset := h.settled i hi
  have hrev := hk.revs v hv
  have hok := h.ok hv hi
  have hbits := bits_of_revokesGlobal hk hv hok
  -- what was posted has been sent
  have hposted : (s.sp i).work.face.posted = (s.sp i).work.rev.ended := by
    have hsent := hs.2 i hi
    rw [hk.countP_log hv] at hsent
    exact hsent.trans hrev.ended.symm
  have hknown : (s.sp i).work.face.Active → (s.sp i).gp.groupSize = C.size := fun ha =>
    hc.size.resolve_left fun h0 => hc.active_iff.1 ha (hc.unknown h0).1
  refine ⟨fun hne ha => ?_, fun hne => ?_, fun hne hfull hsub => ?_, rfl, fun hall => ?_, fun ha hp => ?_⟩
  · rcases hset.ents with h0 | hpos | ⟨h0, -⟩
    · refine absurd ?_ hne
      have hents : (s.sp i).work.allEnts = [] := congrArg (List.flatMap PendingRecvCacheEntry.payload) h0
      change (s.view i).ents + C.onWay Event.ents s.view s.got i = 0
      rw [onWay_of_still hs hi, add_zero, Net.view, Work.vis, hents]
      rfl
    · exact hbits hpos
    · exact absurd h0 (hc.active_iff.1 ha)
  · rcases hk.waits with h0 | hpos
    · refine absurd ?_ hne
      have hadds : (s.sp i).work.allAdds = [] := h0
      change (s.view i).adds = 0
      rw [Net.view, Work.vis, hadds]
      rfl
    · exact hbits hpos
  · have hsub : C.locals i ⊆ (s.sp i).work.face.bits := by
      rw [group_locals] at hsub
      exact hsub
    have hset' : (C.site i v hv).setRanks (s.sp i).gp = Finset.range C.size := by
      refine Finset.Subset.antisymm (Finset.filter_subset _ _) fun r hr => ?_
      exact Site.mem_setRanks.2 ⟨Finset.mem_range.1 hr, Work.ent_ne_none.1 (hfull r hr)⟩
    have hn : (s.sp i).gp.numLocalEntries = C.size := by
      exact hc.entries.trans ((congrArg Finset.card hset').trans (Finset.card_range _))
    rcases hset.revs with h0 | hnot
    · refine hne ?_
      have hmsgs : (s.sp i).work.spMsgs = [] := h0
      change (s.view i).bits + C.onWay Event.bits s.view s.got i = 0
      rw [onWay_of_still hs hi, add_zero, Vis.bits, Net.view, Work.vis, hmsgs]
      rfl
    · have hsize := hknown (hc.active_iff.2 (hn ▸ C.pos.ne'))
      rcases hrev.count with ⟨-, hl⟩ | ⟨-, hp, -, -⟩
      · refine hnot ⟨hsize ▸ C.pos, hsize.trans hn.symm, ?_⟩
        refine (hc.spRanks_of_full hn).trans ?_
        have hinter : (s.sp i).work.rev.revoked ∩ (C.site i v hv).locals = (C.site i v hv).locals :=
          Finset.inter_eq_right.2 (by rw [site_locals]; exact hsub)
        rw [hinter] at hl
        exact hl.symm
      · -- all ranks are marked, so that no revoke is missing
        have ha : (s.sp i).work.face.Active := hc.active_iff.2 (hn ▸ C.pos.ne')
        obtain ⟨⟨r, n⟩, hm⟩ := Multiset.exists_mem_of_ne_zero hne
        obtain ⟨hr, -, -, hmiss⟩ := (h.kept.inv.bitTok i hi).2 r n hm
        exact hmiss.2 ⟨(h.kept.inv.num_of_bitTok hi hm).2.symm, hok.closing ha hp hr⟩
  · have hall : Finset.range C.size ⊆ (s.sp i).work.face.bits := hall
    have hne : (s.sp i).work.face.bits.Nonempty := ⟨0, hall (Finset.mem_range.2 C.pos)⟩
    have ha : (s.sp i).work.face.Active := ⟨0, hok.full hne 0 (Finset.mem_range.2 C.pos)⟩
    rcases hrev.count with ⟨hg, -⟩ | ⟨-, hp, -, -⟩
    · refine le_antisymm hok.posted_le (finalRevokeDue_eq_false.1 hset.final ?_)
      have hcard : (s.sp i).work.face.bits.card = C.size := by
        rw [Finset.Subset.antisymm hok.sub hall]
        exact Finset.card_range _
      exact (hg.trans hcard).trans (hknown ha).symm
    · exact hp
  · have hone := hok.one ha
    have hn := hc.active_iff.1 ha
    have hend : (s.sp i).work.rev.ended = (s.sp i).work.face.num - 1 := if_neg hn
    have hp : (s.sp i).work.face.posted = (s.sp i).work.face.num := hp
    omega

/-! ### What moves -/

end Crew

/-- The record of a rank marked, or the final revoke. -/
def Effect.Ends : Effect → Prop
  | .markedFromSp _ _ _ | .revokeToRanks _ _ => True
  | _ => False

theorem Effect.Ends.toSp {x : Effect} (h : x.Ends) (i d : ℕ) : x.toSp i d = none := by
  cases x <;> first | rfl | exact h.elim

theorem Effect.Ends.isCacheToRanks {x : Effect} (h : x.Ends) : x.isCacheToRanks = false := by
  cases x <;> first | rfl | exact h.elim

section
variable {ctx : GpCtx} {x : Effect}

theorem ends_of_marksOf {g : GroupCache} {m : GroupRevokeMsgFromSp} {new : List ℕ} (h : x ∈ marksOf g m new) :
    x.Ends := by
  obtain ⟨r, -, rfl⟩ := List.mem_map.1 h
  trivial

theorem ends_of_sendRevokeGroupToRanks {s : GpState} (hs : ∀ x ∈ s.out, x.Ends)
    (h : x ∈ (sendRevokeGroupToRanks s).out) :
    x.Ends := by
  rcases List.mem_append.1 h with h | h
  · exact hs x h
  · rw [List.mem_singleton.1 h]
    trivial

/-- Taking up the messages of SPs marks ranks. -/
theorem ends_of_handlePending {s : GpState} (hs : ∀ x ∈ s.out, x.Ends)
    (h : x ∈ (handlePendingGroupRevokeMsgsFromSps s).1.out) : x.Ends := by
  have key : ∀ (ms : List GroupRevokeMsgFromSp) (acc : GpState × ℕ), (∀ x ∈ acc.1.out, x.Ends) →
      ∀ x ∈ (ms.foldl handlePendingRevokeMsg acc).1.out, x.Ends := by
    intro ms
    induction ms with
    | nil => exact fun acc hacc => hacc
    | cons m ms ih =>
      intro acc hacc
      exact ih _ fun x hx => (List.mem_append.1 hx).elim (hacc x) ends_of_marksOf
  exact key _ _ hs x h

theorem ends_of_groupCacheSendToLocalRanksCb {g : GroupCache} (h : x ∈ (groupCacheSendToLocalRanksCb g).out) :
    x.Ends := by
  have hp : ∀ x ∈ (handlePendingGroupRevokeMsgsFromSps
      ⟨{ g with persistent := { g.persistent with sentToHost := g.persistent.num } }, []⟩).1.out, x.Ends :=
    fun x hx => ends_of_handlePending (fun y hy => absurd hy List.not_mem_nil) hx
  simp only [groupCacheSendToLocalRanksCb] at h
  split at h
  · exact ends_of_sendRevokeGroupToRanks hp h
  · exact hp x h

theorem ends_of_handleSpRevoke {g : GroupCache} {m : GroupRevokeMsgFromSp} (h : x ∈ (handleSpRevoke g m).out) :
    x.Ends := by
  simp only [handleSpRevoke] at h
  split at h
  · exact absurd h List.not_mem_nil
  · split at h
    · exact ends_of_sendRevokeGroupToRanks (fun x hx => ends_of_marksOf hx) h
    · exact ends_of_marksOf h

/-- Entries that come are told to the local ranks. -/
theorem isCacheToRanks_of_peerCacheEntriesRecvCb {slot : Option GroupCache} {sp : ℕ} {batch : List PeerCacheEntry}
    (h : x ∈ (peerCacheEntriesRecvCb ctx slot sp batch).out) : x.isCacheToRanks = true := by
  simp only [peerCacheEntriesRecvCb] at h
  split at h
  · exact absurd h List.not_mem_nil
  · simp only [handlePeerCacheEntriesRecv] at h
    split at h
    · rw [sendGpCacheToHost] at h
      split at h
      · rw [List.mem_singleton.1 h]
        rfl
      · exact absurd h List.not_mem_nil
    · exact absurd h List.not_mem_nil

/-- A message of an SP, or the end of the sends of the cache, brings no message to an SP. -/
theorem toSp_of_handle (hd : ctx.onDpu = true) {slot : Option GroupCache} {ev : Event}
    (hev : (∃ sp batch, ev = .peerCacheEntries sp batch) ∨ (∃ m, ev = .revokeFromSp m) ∨ ev = .cacheSent)
    (h : x ∈ (handle ctx slot ev).2) (i d : ℕ) : x.toSp i d = none := by
  rcases hev with ⟨sp, batch, rfl⟩ | ⟨m, rfl⟩ | rfl
  · have hx := isCacheToRanks_of_peerCacheEntriesRecvCb h
    cases x <;> first | rfl | cases hx
  · have hx : x ∈ (handleRevokeGroupRankThroughListRanks ctx slot m).out := h
    rw [handleRevokeGroupRankThroughListRanks, if_pos hd] at hx
    exact (ends_of_handleSpRevoke hx).toSp i d
  · cases slot with
    | none => exact absurd h List.not_mem_nil
    | some g => exact (ends_of_groupCacheSendToLocalRanksCb h).toSp i d

/-- The end of the sends of the cache brings no other. -/
theorem isCacheToRanks_of_cacheSent {slot : Option GroupCache} (h : x ∈ (handle ctx slot .cacheSent).2) :
    x.isCacheToRanks = false := by
  cases slot with
  | none => exact absurd h List.not_mem_nil
  | some g => exact (ends_of_groupCacheSendToLocalRanksCb h).isCacheToRanks

end

theorem Engine.done_of_step {ctx : GpCtx} {e e' : Engine} {ev : Event} (h : e.step ctx ev = some e') :
    e'.cacheDone = (if ev = .cacheSent then e.cacheDone + 1 else e.cacheDone) ∧
      e'.revokeDone = if ev = .revokeSent then e.revokeDone + 1 else e.revokeDone := by
  unfold Engine.step at h
  split at h
  · cases h
    exact ⟨rfl, rfl⟩
  · cases h

/-- Is it a step of an SP, and not of a rank? -/
def NetLabel.Inner : NetLabel → Prop
  | .own _ _ (.addGroupRank _ _) | .own _ _ (.revokeFromRank _) => False
  | _ => True

namespace Crew

variable {C : Crew} {hin : C.Manned} {s s' : Net} {i j : ℕ} {v : View} {ev : Event} {e : Engine}

/-- The environment, when ranks leave what is complete. -/
def Patient (C : Crew) (s : Net) (l : NetLabel) : Prop := C.Turns s l ∧ C.Waits s l

theorem sound_init (C : Crew) (hin : C.Manned) : C.Sound hin Net.init where
  kept := kept_init C hin
  lossless := by
    rw [snap_init]
    exact lossless_init
  settled _ _ := settled_new

theorem sound_of_reach (hin : C.Manned) (hconn : C.Connected) (h : Reach (Net.step C.toCluster) C.Patient Net.init s) :
    C.Sound hin s :=
  h.invariant (sound_init C hin) fun _ _ _ hI hl hs => hI.step hconn hl.1.1 hl.1.2 hl.2 hs

/-- **The SPs go on by themselves.** -/
def Moves (C : Crew) (s s' : Net) : Prop := ∃ l : NetLabel, l.Inner ∧ C.Turns s l ∧ s.step C.toCluster l = some s'

theorem Sound.move (h : C.Sound hin s) (hconn : C.Connected) (hm : C.Moves s s') : C.Sound hin s' := by
  obtain ⟨l, hl, ⟨henv, hord⟩, hs⟩ := hm
  refine h.step hconn henv hord ?_ hs
  cases l with
  | deliver i j v => trivial
  | own i v ev =>
    cases ev with
    | revokeFromRank _ => exact hl.elim
    | addGroupRank _ _ | peerCacheEntries _ _ | revokeFromSp _ | cacheSent | revokeSent | requestAdd _
    | requestRevoke _ => trivial

/-- A version has ended as often as its final revoke was sent. -/
theorem SpKept.done_eq (hk : C.SpKept i e) (hv : C.Tells v) : e.work.face.done = e.revokeDone := by
  have hc := (hk.base v hv).counts
  have hend : e.work.rev.ended = e.revokeDone := (hk.revs v hv).ended
  rw [← hend]
  by_cases ha : e.work.face.Active
  · rw [Face.done_of_active ha]
    exact (if_neg (hc.active_iff.1 ha)).symm
  · rw [Face.done_of_not_active ha]
    exact (if_pos (not_not.1 fun hn => ha (hc.active_iff.2 hn))).symm

theorem Sound.done_eq (h : C.Sound hin s) (hv : C.Tells v) (hi : i < C.num) :
    (s.sp i).work.face.done = (s.sp i).revokeDone := (h.kept.sp i hi).done_eq hv

/-- **When no SP can go on they are at rest.** -/
theorem Sound.still (h : C.Sound hin s) (hv : C.Tells v) (hs : ∀ s', ¬ C.Moves s s') : C.Still s := by
  constructor
  · intro i hi j hj
    by_contra hne
    obtain ⟨ev, es, hl⟩ := List.exists_cons_of_ne_nil hne
    have hen : (s.sp j).enabled (C.ctx j v) ev = true := by
      rcases link_event hl with ⟨_, rfl⟩ | ⟨_, rfl⟩ <;> rfl
    obtain ⟨s', hs'⟩ := Net.exists_deliver (C := C.toCluster) (v := v) hl hen
    exact hs s' ⟨.deliver i j v, trivial, ⟨⟨hv, hi, hj⟩, trivial⟩, hs'⟩
  · intro i hi
    have hle : (s.sp i).revokeDone ≤ (s.sp i).log.countP Effect.isRevokeToRanks := by
      rw [(h.kept.sp i hi).countP_log hv, ← h.done_eq hv hi]
      exact (h.ok hv hi).done_le_posted
    refine (hle.antisymm (not_lt.1 fun hlt => ?_)).symm
    have hen : (s.sp i).enabled (C.ctx i v) .revokeSent = true := by
      rw [Engine.enabled, show (C.ctx i v).onDpu = true from C.onDpu i, Bool.true_and, decide_eq_true hlt]
    obtain ⟨s', hs'⟩ := Net.exists_own (C := C.toCluster) hen
    exact hs s' ⟨.own i v .revokeSent, trivial, ⟨⟨hv, hi⟩, trivial⟩, hs'⟩

/-! ### Every run of moves ends -/

/-- The versions that ranks have left, and that have not ended on their SPs. -/
def unended (C : Crew) (s : Net) : ℕ := ∑ r ∈ Finset.range C.size, (C.left s r - (s.sp (C.spOf r)).revokeDone)

/-- The messages on their way. -/
def travelling (C : Crew) (s : Net) : ℕ := ∑ i ∈ Finset.range C.num, ∑ j ∈ Finset.range C.num, (s.link i j).length

/-- The sends of the cache that are not complete. -/
def sending (C : Crew) (s : Net) : ℕ :=
  ∑ i ∈ Finset.range C.num, ((s.sp i).log.countP Effect.isCacheToRanks - (s.sp i).cacheDone)

/-- What is still to do. -/
def todo (C : Crew) (s : Net) : ℕ × ℕ × ℕ := (C.unended s, C.travelling s, C.sending s)

/-- Less is to do. -/
def Less : ℕ × ℕ × ℕ → ℕ × ℕ × ℕ → Prop := Prod.Lex (· < ·) (Prod.Lex (· < ·) (· < ·))

theorem wf_less : WellFounded Less := Nat.lt_wfRel.wf.prod_lex (Nat.lt_wfRel.wf.prod_lex Nat.lt_wfRel.wf)

theorem left_receive (s : Net) (i j : ℕ) : C.left (s.receive i j) = C.left s := rfl

/-- The links when SP `j` sends nothing. -/
theorem link_put {out : List Effect} (he : e.log = (s.sp j).log ++ out) (hq : ∀ x ∈ out, ∀ k d, x.toSp k d = none)
    (a b : ℕ) :
    (s.put j e).link a b = s.link a b := by
  by_cases ha : a = j
  · subst ha
    rw [Net.link, Net.link, Net.put_sp_self, he, List.filterMap_append,
      List.filterMap_eq_nil_iff.2 fun x hx => hq x hx a b, List.append_nil]
    rfl
  · exact Net.link_put_of_ne ha b

/-- So nothing more is on its way. -/
theorem travelling_put {out : List Effect} (he : e.log = (s.sp j).log ++ out)
    (hq : ∀ x ∈ out, ∀ k d, x.toSp k d = none) :
    C.travelling (s.put j e) = C.travelling s :=
  Finset.sum_congr rfl fun a _ => Finset.sum_congr rfl fun b _ => congrArg List.length (link_put he hq a b)

/-- A message is received. -/
theorem travelling_receive (hi : i < C.num) (hj : j < C.num) {es : List Event} (hl : s.link i j = ev :: es) :
    C.travelling (s.receive i j) + 1 = C.travelling s := by
  have hlen : ∀ a b, (s.link a b).length = ((s.receive i j).link a b).length + if a = i ∧ b = j then 1 else 0 := by
    intro a b
    rw [Net.link_receive]
    by_cases hab : a = i ∧ b = j
    · obtain ⟨rfl, rfl⟩ := hab
      rw [if_pos ⟨rfl, rfl⟩, if_pos ⟨rfl, rfl⟩, hl]
      rfl
    · rw [if_neg hab, if_neg hab, Nat.add_zero]
  have hone : ∑ a ∈ Finset.range C.num, ∑ b ∈ Finset.range C.num, (if a = i ∧ b = j then 1 else 0) = 1 := by
    simp [ite_and, hi, hj]
  rw [travelling, travelling, ← hone, ← Finset.sum_add_distrib]
  refine Finset.sum_congr rfl fun a _ => ?_
  rw [← Finset.sum_add_distrib]
  exact Finset.sum_congr rfl fun b _ => (hlen a b).symm

/-- An SP sends the cache on, and that is all. -/
theorem sending_put (hj : j < C.num) (hlt : (s.sp j).cacheDone < (s.sp j).log.countP Effect.isCacheToRanks)
    (hlog : e.log.countP Effect.isCacheToRanks = (s.sp j).log.countP Effect.isCacheToRanks)
    (hdone : e.cacheDone = (s.sp j).cacheDone + 1) : C.sending (s.put j e) < C.sending s := by
  refine Finset.sum_lt_sum (fun k _ => ?_) ⟨j, Finset.mem_range.2 hj, ?_⟩
  · by_cases hk : k = j
    · subst hk
      rw [Net.put_sp_self, hlog, hdone]
      omega
    · rw [Net.put_sp_of_ne hk]
  · rw [Net.put_sp_self, hlog, hdone]
    omega

theorem revokeDone_put (h : e.revokeDone = (s.sp j).revokeDone) (k : ℕ) :
    ((s.put j e).sp k).revokeDone = (s.sp k).revokeDone := by
  by_cases hk : k = j
  · subst hk
    rw [Net.put_sp_self, h]
  · rw [Net.put_sp_of_ne hk]

/-- No version ends. -/
theorem unended_put (hleft : C.left (s.put j e) = C.left s) (hdone : e.revokeDone = (s.sp j).revokeDone) :
    C.unended (s.put j e) = C.unended s := by
  refine Finset.sum_congr rfl fun r _ => ?_
  rw [hleft, revokeDone_put hdone]

/-- A version ends on SP `j`. -/
theorem unended_lt (hin : C.Manned) (hj : j < C.num) (hleft : C.left (s.put j e) = C.left s)
    (hdone : e.revokeDone = (s.sp j).revokeDone + 1) (hle : ∀ r < C.size, C.spOf r = j → e.revokeDone ≤ C.left s r) :
    C.unended (s.put j e) < C.unended s := by
  obtain ⟨q, hq, hqj⟩ := hin j hj
  have hterm : ∀ r < C.size, C.spOf r = j →
      C.left (s.put j e) r - ((s.put j e).sp (C.spOf r)).revokeDone < C.left s r - (s.sp (C.spOf r)).revokeDone := by
    intro r hr hrj
    have := hle r hr hrj
    rw [hleft, hrj, Net.put_sp_self]
    omega
  refine Finset.sum_lt_sum (fun r hr => ?_) ⟨q, Finset.mem_range.2 hq, hterm q hq hqj⟩
  by_cases hrj : C.spOf r = j
  · exact (hterm r (Finset.mem_range.1 hr) hrj).le
  · rw [hleft, Net.put_sp_of_ne hrj]

theorem Sound.revokeDone_le (h : C.Sound hin s) (hv : C.Tells v) {r : ℕ} (hr : r < C.size) :
    (s.sp (C.spOf r)).revokeDone ≤ C.left s r := by
  rw [← h.done_eq hv (C.spOf_lt r hr)]
  exact h.kept.inv.ended r (Finset.mem_range.2 hr)

/-- **Every move leaves less to do.** -/
theorem Sound.less (h : C.Sound hin s) (hconn : C.Connected) (hv : C.Tells v) (hm : C.Moves s s') :
    Less (C.todo s') (C.todo s) := by
  have hsound := h.move hconn hm
  obtain ⟨l, hl, ⟨henv, hord⟩, hs⟩ := hm
  rcases Net.step_cases hs with ⟨i, v', ev, e, rfl, he, rfl⟩ | ⟨i, j, v', ev, es, e, rfl, hlink, he, rfl⟩
  · obtain ⟨hen, -, hlog, hseen⟩ := Engine.step_eq_some he
    obtain ⟨hcache, hrev⟩ := Engine.done_of_step he
    have hd : (C.ctx i v').onDpu = true := C.onDpu i
    cases ev with
    | cacheSent =>
      obtain ⟨-, hi⟩ := henv
      have hleft : C.left (s.put i e) = C.left s := left_put_of_false hseen fun _ => rfl
      have hlt : (s.sp i).cacheDone < (s.sp i).log.countP Effect.isCacheToRanks := by
        simpa [Engine.enabled, hd] using hen
      have hout : ((handle (C.ctx i v') (s.sp i).slot .cacheSent).2).countP Effect.isCacheToRanks = 0 := by
        refine List.countP_eq_zero.2 fun x hx => ?_
        rw [isCacheToRanks_of_cacheSent hx]
        exact Bool.false_ne_true
      rw [todo, todo, unended_put hleft hrev,
        travelling_put hlog fun x hx k d => toSp_of_handle hd (.inr (.inr rfl)) hx k d]
      refine .right _ (.right _ (sending_put hi hlt ?_ hcache))
      rw [hlog, List.countP_append, hout, Nat.add_zero]
    | revokeSent =>
      obtain ⟨-, hi⟩ := henv
      have hleft : C.left (s.put i e) = C.left s := left_put_of_false hseen fun _ => rfl
      refine .left _ _ (unended_lt hin hi hleft hrev fun r hr hri => ?_)
      have hle := hsound.revokeDone_le hv hr
      rwa [hleft, hri, Net.put_sp_self] at hle
    | addGroupRank _ _ | revokeFromRank _ => exact hl.elim
    | peerCacheEntries _ _ | revokeFromSp _ | requestAdd _ | requestRevoke _ => exact henv.elim
  · obtain ⟨-, hi, hj⟩ := henv
    obtain ⟨-, -, hlog, hseen⟩ := Engine.step_eq_some he
    obtain ⟨-, hrev⟩ := Engine.done_of_step he
    have hd : (C.ctx j v').onDpu = true := C.onDpu j
    have hev := link_event hlink
    have hleft : C.left ((s.receive i j).put j e) = C.left s := by
      refine (left_put_of_false (s := s.receive i j) hseen fun r => ?_).trans rfl
      rcases hev with ⟨_, rfl⟩ | ⟨_, rfl⟩ <;> rfl
    have hdone : e.revokeDone = ((s.receive i j).sp j).revokeDone := by
      rcases hev with ⟨_, rfl⟩ | ⟨_, rfl⟩ <;> exact hrev
    have hsame : C.unended ((s.receive i j).put j e) = C.unended s :=
      (unended_put (s := s.receive i j) hleft hdone).trans rfl
    rw [todo, todo, hsame, travelling_put (s := s.receive i j) hlog fun x hx k d => toSp_of_handle hd (by
      rcases hev with ⟨b, rfl⟩ | ⟨m, rfl⟩
      · exact .inl ⟨i, b, rfl⟩
      · exact .inr (.inl ⟨m, rfl⟩)) hx k d, ← travelling_receive hi hj hlink]
    exact .right _ (.left _ _ (Nat.lt_succ_self _))

/-- **The moves come to an end.** -/
theorem Sound.acc (h : C.Sound hin s) (hconn : C.Connected) (hv : C.Tells v) : Acc (fun t' t => C.Moves t t') s :=
  acc_of_measure (J := C.Sound hin) wf_less C.todo (fun _ _ hI hm => ⟨hI.move hconn hm, hI.less hconn hv hm⟩) h

/-- The ranks do nothing. -/
theorem left_of_moves (hm : ReflTransGen C.Moves s s') : C.left s' = C.left s := by
  induction hm with
  | refl => rfl
  | tail _ hm ih =>
    obtain ⟨l, hl, ⟨henv, -⟩, hs⟩ := hm
    refine Eq.trans ?_ ih
    rcases Net.step_cases hs with ⟨i, v, ev, e, rfl, he, rfl⟩ | ⟨i, j, v, ev, es, e, rfl, hlink, he, rfl⟩
    · obtain ⟨-, -, -, hseen⟩ := Engine.step_eq_some he
      refine left_put_of_false hseen fun r => ?_
      cases ev with
      | revokeFromRank _ => exact hl.elim
      | addGroupRank _ _ | peerCacheEntries _ _ | revokeFromSp _ | cacheSent | revokeSent | requestAdd _
      | requestRevoke _ => rfl
    · obtain ⟨-, -, -, hseen⟩ := Engine.step_eq_some he
      refine (left_put_of_false hseen fun r => ?_).trans (left_receive _ i j)
      rcases link_event hlink with ⟨_, rfl⟩ | ⟨_, rfl⟩ <;> rfl

/-- At rest the versions that all ranks have left have ended. -/
theorem Sound.ended (h : C.Sound hin s) (hs : C.Still s) (hv : C.Tells v) {n : ℕ} (hl : ∀ r < C.size, n ≤ C.left s r)
    (hi : i < C.num) : (s.sp i).gp.Ended n ∧ n ≤ (s.sp i).revokeDone := by
  have hdone := ended_of_left h.kept.inv h.lossless (fun i hi => h.rest hs hv hi)
    (fun r hr => hl r (Finset.mem_range.1 hr)) hi
  refine ⟨(h.ended_iff hv hi).2 hdone, ?_⟩
  rw [← h.done_eq hv hi]
  exact hdone

end Crew

instance Crew.Waits.decidable (C : Crew) (s : Net) : (l : NetLabel) → Decidable (C.Waits s l)
  | .own _ _ (.revokeFromRank _) => inferInstanceAs (Decidable (_ ∧ _))
  | .own _ _ (.addGroupRank _ _) | .own _ _ .cacheSent | .own _ _ .revokeSent | .own _ _ (.peerCacheEntries _ _)
  | .own _ _ (.revokeFromSp _) | .own _ _ (.requestAdd _) | .own _ _ (.requestRevoke _) | .deliver _ _ _ =>
    inferInstanceAs (Decidable True)

instance Crew.Patient.decidable (C : Crew) (s : Net) (l : NetLabel) : Decidable (C.Patient s l) :=
  inferInstanceAs (Decidable (_ ∧ _))

instance Crew.Still.decidable (C : Crew) (s : Net) : Decidable (C.Still s) := inferInstanceAs (Decidable (_ ∧ _))

/-- **At rest a version that all ranks have joined is complete on every SP**, or has ended there. -/
theorem begun_at_rest (C : Crew) (hin : C.Manned) (hconn : C.Connected) {v : View} (hv : C.Tells v) {s : Net}
    (h : Reach (Net.step C.toCluster) C.Patient Net.init s) (hs : C.Still s) {n : ℕ}
    (hj : ∀ r < C.size, n ≤ C.joined s r) :
    ∀ i < C.num, (s.sp i).gp.Ended n ∨ (s.sp i).gp.persistent.num = n ∧
      ∀ r < C.size, (s.sp i).gp.isSet r = true ∧ ((s.sp i).gp.entryAt r).peer.procInfo.groupSeqNum = n := by
  intro i hi
  have hsound := Crew.sound_of_reach hin hconn h
  rcases begun_of_joined hsound.kept.inv hsound.lossless (fun i hi => hsound.rest hs hv hi)
    (fun r hr => hj r (Finset.mem_range.1 hr)) hi with hd | ⟨hnum, hfull⟩
  · exact .inl ((hsound.ended_iff hv hi).2 hd)
  · refine .inr ⟨hnum, fun r hr => ?_⟩
    have hset : (s.sp i).gp.isSet r = true := Work.ent_ne_none.1 (hfull r (Finset.mem_range.2 hr))
    exact ⟨hset, ((hsound.ok hv hi).ver r _ (Work.ent_eq_some.2 ⟨hset, rfl⟩)).trans hnum⟩

/-- Both ranks of the pair have joined version 1, and all entries have come. -/
theorem begun_at_rest_pair :
    ∃ s, Reach (Net.step pairCrew.toCluster) pairCrew.Patient Net.init s ∧ ∀ i < 2, (s.sp i).gp.Ended 1 ∨
      (s.sp i).gp.persistent.num = 1 ∧
        ∀ r < 2, (s.sp i).gp.isSet r = true ∧ ((s.sp i).gp.entryAt r).peer.procInfo.groupSeqNum = 1 := by
  have h : ∃ s, Reach (Net.step pairCrew.toCluster) pairCrew.Patient Net.init s ∧ pairCrew.Still s ∧
      ∀ r < 2, 1 ≤ pairCrew.joined s r :=
    exists_reach_of_exec [pairJoin 0 1, pairJoin 1 1, .deliver 0 1 pairView, .deliver 1 0 pairView] (by decide +kernel)
  obtain ⟨s, hs, hstill, hjoined⟩ := h
  exact ⟨s, hs, begun_at_rest pairCrew pairCrew_manned (fun _ _ => rfl) (v := pairView) (by decide) hs hstill hjoined⟩

/-- **At rest a version that all ranks have left has ended on every SP**, which has sent its final revoke. -/
theorem ended_at_rest (C : Crew) (hin : C.Manned) (hconn : C.Connected) {v : View} (hv : C.Tells v) {s : Net}
    (h : Reach (Net.step C.toCluster) C.Patient Net.init s) (hs : C.Still s) {n : ℕ}
    (hl : ∀ r < C.size, n ≤ C.left s r) : ∀ i < C.num, (s.sp i).gp.Ended n ∧ n ≤ (s.sp i).revokeDone := fun _ hi =>
  (Crew.sound_of_reach hin hconn h).ended hs hv hl hi

/-- Both ranks of the pair leave version 1. -/
def pairLeft : List NetLabel :=
  [pairJoin 0 1, pairJoin 1 1, .deliver 0 1 pairView, .deliver 1 0 pairView, pairLeave 0 1, pairLeave 1 1]

/-- The revokes of the pair come, and version 1 has ended. -/
theorem ended_at_rest_pair :
    ∃ s, Reach (Net.step pairCrew.toCluster) pairCrew.Patient Net.init s ∧
      ∀ i < 2, (s.sp i).gp.Ended 1 ∧ 1 ≤ (s.sp i).revokeDone := by
  have h : ∃ s, Reach (Net.step pairCrew.toCluster) pairCrew.Patient Net.init s ∧ pairCrew.Still s ∧
      ∀ r < 2, 1 ≤ pairCrew.left s r :=
    exists_reach_of_exec (pairLeft ++ [.deliver 0 1 pairView, .deliver 1 0 pairView, .own 0 pairView .revokeSent,
      .own 1 pairView .revokeSent]) (by decide +kernel)
  obtain ⟨s, hs, hstill, hleft⟩ := h
  exact ⟨s, hs, ended_at_rest pairCrew pairCrew_manned (fun _ _ => rfl) (v := pairView) (by decide) hs hstill hleft⟩

/-- **A rank that leaves too early is not heard**: at rest version 1 has not ended, though both ranks have left it. -/
theorem stuck_after_early_leave :
    ∃ s, Reach (Net.step pairCrew.toCluster) pairCrew.Turns Net.init s ∧ pairCrew.Still s ∧
      (∀ r < 2, 1 ≤ pairCrew.left s r) ∧ ∀ i < 2, ¬ (s.sp i).gp.Ended 1 :=
  exists_reach_of_exec
    [pairJoin 0 1, pairLeave 0 1, pairJoin 1 1, .deliver 0 1 pairView, .deliver 1 0 pairView, pairLeave 1 1,
      .deliver 1 0 pairView] (by decide +kernel)

/-- **The SPs come to rest**: from every state reached they can go on by themselves only so often, in any order, and
when they cannot go on they are at rest and have ended what all ranks have left. -/
theorem comes_to_rest (C : Crew) (hin : C.Manned) (hconn : C.Connected) {v : View} (hv : C.Tells v) {s : Net}
    (h : Reach (Net.step C.toCluster) C.Patient Net.init s) :
    Acc (fun t' t => C.Moves t t') s ∧ ∀ t, ReflTransGen C.Moves s t → (∀ t', ¬ C.Moves t t') →
      C.Still t ∧ ∀ n, (∀ r < C.size, n ≤ C.left s r) → ∀ i < C.num, (t.sp i).gp.Ended n ∧ n ≤ (t.sp i).revokeDone := by
  have hsound := Crew.sound_of_reach hin hconn h
  refine ⟨hsound.acc hconn hv, fun t hst hlast => ?_⟩
  have ht : C.Sound hin t := keeps (fun _ _ hI hm => hI.move hconn hm) hst hsound
  refine ⟨ht.still hv hlast, fun n hl i hi => ht.ended (ht.still hv hlast) hv ?_ hi⟩
  rw [Crew.left_of_moves hst]
  exact hl

/-- When both ranks have left, the pair goes on until version 1 has ended on both SPs. -/
theorem comes_to_rest_pair :
    ∃ s, Reach (Net.step pairCrew.toCluster) pairCrew.Patient Net.init s ∧ (∀ i < 2, ¬ (s.sp i).gp.Ended 1) ∧
      ∃ t, ReflTransGen pairCrew.Moves s t ∧ ∀ i < 2, (t.sp i).gp.Ended 1 ∧ 1 ≤ (t.sp i).revokeDone := by
  have h : ∃ s, Reach (Net.step pairCrew.toCluster) pairCrew.Patient Net.init s ∧ (∀ i < 2, ¬ (s.sp i).gp.Ended 1) ∧
      ∀ r < 2, 1 ≤ pairCrew.left s r := exists_reach_of_exec pairLeft (by decide +kernel)
  obtain ⟨s, hs, hopen, hleft⟩ := h
  obtain ⟨hacc, hrest⟩ := comes_to_rest pairCrew pairCrew_manned (fun _ _ => rfl) (v := pairView) (by decide) hs
  obtain ⟨t, hst, hlast⟩ := exists_last hacc
  exact ⟨s, hs, hopen, t, hst, (hrest t hst hlast).2 1 hleft⟩

end DpuOffload
