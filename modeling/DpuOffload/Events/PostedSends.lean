import DpuOffload.Events.Lifecycle
import DpuOffload.Lib.Counting

/-!
# The sends that are posted

A send that does not complete right away is counted in `posted_sends`, which bounds how many
sends are posted by a walk. The counter goes down when a walk takes the event off the list of
ongoing events. It does not when the event is returned on another way: by `event_completed`, as
a sub-event, or by a caller that kept it.

* `posted_sends_eq` — **the counter counts the posted sends** of the events not returned, in
  every run in which such an event is returned by a walk only.
* `posted_sends_leak` — it does not when a sub-event is sent later.
-/

namespace DpuOffload

open Transition Placement

namespace EvState

/-- How many events of a system were posted and not returned. -/
def numSent (st : EvState) (s : ℕ) : ℕ := (List.range (st.sys s).capacity).countP fun i => (st.ev ⟨s, i⟩).sent

/-- **The counter is right**: it counts the sends posted of the events not returned, is not below zero, and is
zero when all events have been returned. -/
structure Accounted (st : EvState) : Prop where
  /-- The counter. -/
  posted : ∀ s, (st.sys s).postedSends = st.numSent s
  /-- It does not wrap around. -/
  nonneg : ∀ s, 0 ≤ (st.sys s).postedSends
  /-- All events are back. -/
  zero : ∀ s, (∀ i < (st.sys s).capacity, ⟨s, i⟩ ∈ st.lists (.freeEvs s)) → (st.sys s).postedSends = 0

/-- What the library does next returns no event whose send was posted, but for a walk. -/
def ThriftyRun (st : EvState) : List EvFrame → Prop
  | .walk _ (some m) :: _ => st.SubsAre (·.wasPosted = false) m
  | .ret e :: _ => (st.ev e).req = false → (st.ev e).wasPosted = false
  | _ => True

instance decidableThriftyRun (st : EvState) : (fs : List EvFrame) → Decidable (st.ThriftyRun fs)
  | .walk _ (some m) :: _ => inferInstanceAs (Decidable (st.SubsAre (·.wasPosted = false) m))
  | .ret e :: _ => inferInstanceAs (Decidable ((st.ev e).req = false → (st.ev e).wasPosted = false))
  | [] | .callback :: _ | .walk _ none :: _ | .emit _ _ :: _ | .queue _ :: _ | .takeOff _ _ _ :: _ | .freeReq _ :: _ =>
    inferInstanceAs (Decidable True)

/-- **No event whose send was posted is returned as a sub-event or by a caller.** -/
def Thrifty (st : EvState) : EvAct → Prop
  | .run _ => st.ThriftyRun st.stack
  | .finish m | .poll m | .completed m => st.SubsAre (·.wasPosted = false) m
  | .ret e => (st.ev e).req = false → (st.ev e).wasPosted = false
  | _ => True

instance decidableThrifty (st : EvState) : (a : EvAct) → Decidable (st.Thrifty a)
  | .run _ => decidableThriftyRun st st.stack
  | .finish m | .poll m | .completed m => inferInstanceAs (Decidable (st.SubsAre (·.wasPosted = false) m))
  | .ret e => inferInstanceAs (Decidable ((st.ev e).req = false → (st.ev e).wasPosted = false))
  | .emitSub _ _ _ _ | .get _ _ _ _ | .emit _ _ | .completeRet _ | .progress _ | .sendDone _ | .cbReturn =>
    inferInstanceAs (Decidable True)

/-! ### The invariant -/

/-- **What every step keeps.** -/
structure Tallied (st : EvState) : Prop where
  /-- The counter. -/
  posted : ∀ s, (st.sys s).postedSends = st.numSent s
  /-- `was_posted` says which events were posted. -/
  wasPosted : ∀ e, (st.ev e).wasPosted = (st.ev e).sent
  /-- These are in use. -/
  inUse : ∀ e, (st.ev e).sent = true → st.Allocated e ∧ ∀ s, e ∉ st.lists (.freeEvs s)
  /-- An event about to be emitted was not posted. -/
  emits : ∀ e self, .emit e self ∈ st.stack → (st.ev e).sent = false

variable {st st' : EvState} {e : EvId}

theorem Tallied.accounted (h : st.Tallied) : st.Accounted := by
  refine ⟨h.posted, fun s => ?_, fun s hall => ?_⟩
  · rw [h.posted]
    exact Int.natCast_nonneg _
  · rw [h.posted, numSent, List.countP_eq_zero.2]
    · rfl
    · intro i hi hs
      exact (h.inUse _ hs).2 s (hall i (List.mem_range.1 hi))

namespace Tallied

/-- No event is posted, and none that was is returned. -/
theorem same (h : st.Tallied) (hposted : ∀ s, (st'.sys s).postedSends = (st.sys s).postedSends)
    (hcap : ∀ s, (st'.sys s).capacity = (st.sys s).capacity) (hsent : ∀ x, (st'.ev x).sent = (st.ev x).sent)
    (hwas : ∀ x, (st'.ev x).wasPosted = (st.ev x).wasPosted)
    (hfree : ∀ x s, (st.ev x).sent = true → x ∈ st'.lists (.freeEvs s) → x ∈ st.lists (.freeEvs s))
    (hemit : ∀ x self, .emit x self ∈ st'.stack → (st.ev x).sent = false) : st'.Tallied := by
  refine ⟨fun s => ?_, fun x => ?_, fun x hx => ?_, fun x self hx => ?_⟩
  · rw [hposted, h.posted, numSent, numSent, hcap]
    simp only [hsent]
  · rw [hwas, hsent, h.wasPosted]
  · rw [hsent] at hx
    obtain ⟨ha, hu⟩ := h.inUse x hx
    refine ⟨?_, fun s hm => hu s (hfree x s hx hm)⟩
    rw [Allocated, hcap]
    exact ha
  · rw [hsent]
    exact hemit x self hx

theorem setEv (h : st.Tallied) (e : EvId) {f : Ev → Ev} (hs : ∀ v, (f v).sent = v.sent)
    (hw : ∀ v, (f v).wasPosted = v.wasPosted) : (st.setEv e f).Tallied := by
  refine h.same (fun _ => rfl) (fun _ => rfl) (fun x => ?_) (fun x => ?_) (fun _ _ _ hm => hm) h.emits
  · rw [ev_setEv]
    split
    · rename_i hx
      rw [hs, hx]
    · rfl
  · rw [ev_setEv]
    split
    · rename_i hx
      rw [hw, hx]
    · rfl

theorem push (h : st.Tallied) {f : EvFrame} (hf : ∀ e self, f = .emit e self → (st.ev e).sent = false) :
    (st.push [f]).Tallied := by
  refine h.same (fun _ => rfl) (fun _ => rfl) (fun _ => rfl) (fun _ => rfl) (fun _ _ _ hm => hm) fun x self hx => ?_
  rcases List.mem_cons.1 hx with hx | hx
  · exact hf x self hx.symm
  · exact h.emits x self hx

theorem pop (h : st.Tallied) {f : EvFrame} {fs : List EvFrame} (hs : st.stack = f :: fs) :
    ({ st with stack := fs } : EvState).Tallied := by
  refine h.same (fun _ => rfl) (fun _ => rfl) (fun _ => rfl) (fun _ => rfl) (fun _ _ _ hm => hm) fun x self hx => ?_
  exact h.emits x self (by rw [hs]; exact List.mem_cons_of_mem _ hx)

/-- An event that was not posted is returned. -/
theorem doEventReturn (h : st.Tallied) (hs : (st.ev e).sent = false) : (st.doEventReturn e).Tallied := by
  cases hr : (st.ev e).req with
  | true => rwa [EvState.doEventReturn, if_pos hr]
  | false =>
    refine h.same (postedSends_doEventReturn st e) (capacity_doEventReturn st e) (fun x => ?_) (fun x => ?_)
      (fun x s hx hm => ?_) fun x self hx => ?_
    · rw [ev_doEventReturn hr]
      split
      · rename_i hxe
        rw [hxe, hs]
      · rfl
    · rw [ev_doEventReturn hr]
      split
      · rename_i hxe
        rw [hxe]
      · rfl
    · rw [lists_doEventReturn hr, Function.update_apply] at hm
      split at hm
      · rename_i hl
        rcases List.mem_cons.1 hm with rfl | hm
        · rw [hs] at hx
          cases hx
        · rwa [hl]
      · exact hm
    · rw [stack_doEventReturn] at hx
      exact h.emits x self hx

/-- A list other than a pool changes. -/
theorem setList (h : st.Tallied) {l : EvList} (hl : ∀ s, l ≠ .freeEvs s) (es : List EvId) :
    (st.setList l es).Tallied := by
  refine h.same (fun _ => rfl) (fun _ => rfl) (fun _ => rfl) (fun _ => rfl) (fun x s _ hm => ?_) h.emits
  change x ∈ Function.update st.lists l es (.freeEvs s) at hm
  rwa [Function.update_of_ne (hl s).symm] at hm

theorem noteIf (h : st.Tallied) (b : Bool) (y : EvFault) : (st.noteIf b y).Tallied := by
  unfold EvState.noteIf
  split
  · exact ⟨h.posted, h.wasPosted, h.inUse, h.emits⟩
  · exact h

theorem eventReturn (h : st.Tallied) (hs : (st.ev e).req = false → (st.ev e).sent = false) :
    (st.eventReturn e).Tallied := by
  unfold EvState.eventReturn
  split
  · exact h
  · split
    · exact h
    · rename_i hr
      exact (h.doEventReturn (hs (Bool.not_eq_true _ ▸ hr))).setList (l := .held) nofun _

theorem queueEvent (h : st.Tallied) (e : EvId) : (st.queueEvent e).Tallied := by
  unfold EvState.queueEvent
  split
  · exact h
  · split
    · exact h
    · refine setEv (setList (l := .ongoingEvents e.sys) (setList (l := .held) (h.noteIf _ _) nofun _) nofun _) e ?_ ?_
      · exact fun _ => rfl
      · exact fun _ => rfl

theorem queueSubevent (h : st.Tallied) (m e : EvId) : (st.queueSubevent m e).Tallied := by
  have hk := ((h.noteIf (st.inPool e) (.queuedReturned e)).setList (l := .held) nofun
    (((st.noteIf (st.inPool e) (.queuedReturned e)).lists .held).erase e)).setList (l := .subEvents m) nofun
    (((st.noteIf (st.inPool e) (.queuedReturned e)).unlink .held e).lists (.subEvents m) ++ [e])
  exact ⟨hk.posted, hk.wasPosted, hk.inUse, hk.emits⟩

theorem completeEvent (h : st.Tallied) (e : EvId) : (st.completeEvent e).Tallied := by
  unfold EvState.completeEvent
  split
  · refine push (setEv (h.noteIf _ _) e ?_ ?_) nofun <;> exact fun _ => rfl
  · refine h.setEv e ?_ ?_ <;> exact fun _ => rfl

theorem dropSub (h : st.Tallied) (m : EvId) (hs : (st.ev e).sent = false) : (st.dropSub m e).Tallied := by
  unfold EvState.dropSub
  refine doEventReturn (setEv (h.setList (l := .subEvents m) nofun _) e ?_ ?_) ?_
  · exact fun _ => rfl
  · exact fun _ => rfl
  · rw [ev_setEv_self]
    exact hs

end Tallied

/-- How many are posted once one event has changed. -/
theorem numSent_change (hcap : ∀ s, (st'.sys s).capacity = (st.sys s).capacity)
    (hev : ∀ x, x ≠ e → (st'.ev x).sent = (st.ev x).sent) (ha : st.Allocated e) (s : ℕ) :
    st'.numSent s + (if s = e.sys ∧ (st.ev e).sent = true then 1 else 0) =
      st.numSent s + if s = e.sys ∧ (st'.ev e).sent = true then 1 else 0 := by
  rw [numSent, numSent, hcap]
  by_cases hs : s = e.sys
  · subst hs
    have hc := Counting.countP_change (p := fun i => (st'.ev ⟨e.sys, i⟩).sent) (q := fun i => (st.ev ⟨e.sys, i⟩).sent)
      List.nodup_range (List.mem_range.2 ha) fun i hi => hev _ fun hx => hi (EvId.mk.inj hx).2
    simpa using hc
  · rw [if_neg (fun h => hs h.1), if_neg (fun h => hs h.1)]
    refine congrArg (· + 0) (List.countP_congr fun i _ => ?_)
    rw [hev _ fun hx => hs (congrArg EvId.sys hx)]

namespace Tallied

/-- **A send is posted**, or completes right away. -/
theorem doAmSendEventMsg (h : st.Tallied) (ha : st.Allocated e) (hu : ∀ s, e ∉ st.lists (.freeEvs s))
    (hs : (st.ev e).sent = false) (hown : e ∉ owners st.stack) (now : Bool) :
    (st.doAmSendEventMsg e now).Tallied := by
  unfold EvState.doAmSendEventMsg
  split
  · refine h.setEv e ?_ ?_ <;> exact fun _ => rfl
  · generalize hst₁ : (st.setSys e.sys fun y => { y with postedSends := y.postedSends + 1 }).setEv e (fun v =>
      { v with req := true, wasPosted := true, sent := true }) = st₁
    have hself : st₁.ev e = { st.ev e with req := true, wasPosted := true, sent := true } := by
      rw [← hst₁, ev_setEv_self]
      rfl
    have hev : ∀ x, x ≠ e → st₁.ev x = st.ev x := by
      intro x hx
      rw [← hst₁, ev_setEv_of_ne _ hx]
      rfl
    have hcap : ∀ s, (st₁.sys s).capacity = (st.sys s).capacity := by
      intro s
      rw [← hst₁]
      by_cases hse : s = e.sys
      · subst hse
        simp [setSys]
      · simp [setSys, hse]
    have hposted : ∀ s, (st₁.sys s).postedSends = (st.sys s).postedSends + if s = e.sys then 1 else 0 := by
      intro s
      rw [← hst₁]
      by_cases hse : s = e.sys
      · subst hse
        simp [setSys]
      · simp [setSys, hse]
    have hlists : st₁.lists = st.lists := by rw [← hst₁]; rfl
    have hstack : st₁.stack = st.stack := by rw [← hst₁]; rfl
    refine ⟨fun s => ?_, fun x => ?_, fun x hx => ?_, fun x self hx => ?_⟩
    · have hc := numSent_change hcap (fun x hx => by rw [hev x hx]) ha s
      rw [hs, hself, if_neg (fun hf => Bool.false_ne_true hf.2)] at hc
      rw [hposted, h.posted]
      by_cases hse : s = e.sys
      · rw [if_pos ⟨hse, rfl⟩] at hc
        rw [if_pos hse]
        omega
      · rw [if_neg (fun hf => hse hf.1)] at hc
        rw [if_neg hse]
        omega
    · by_cases hx : x = e
      · rw [hx, hself]
      · rw [hev x hx, h.wasPosted]
    · rw [Allocated, hcap, hlists]
      by_cases hxe : x = e
      · rw [hxe]
        exact ⟨ha, hu⟩
      · rw [hev x hxe] at hx
        exact h.inUse x hx
    · rw [hstack] at hx
      have hxe : x ≠ e := fun hxe => hown (mem_owners.2 ⟨_, hxe ▸ hx, rfl⟩)
      rw [hev x hxe]
      exact h.emits x self hx

/-- **A walk takes off an event that has completed**: a posted send is counted no more. -/
theorem takeOff (h : st.Tallied) {s : ℕ} {next : Option EvId} (hr : (st.ev e).req = false) (ha : st.Allocated e)
    (hown : e ∉ owners st.stack) : (st.takeOff s e next).Tallied := by
  have hr' := (req_leave st s e).trans hr
  unfold EvState.takeOff
  rw [eventReturn_leave st s e hr]
  refine push (setList (l := .held) ?_ (by simp) _) (by simp)
  have hself : ((st.leave s e).doEventReturn e).ev e = { (st.leave s e).ev e with sent := false } := by
    rw [ev_doEventReturn hr', if_pos rfl]
  have hev : ∀ x, x ≠ e → ((st.leave s e).doEventReturn e).ev x = st.ev x := by
    intro x hx
    rw [ev_doEventReturn_of_ne hx, ev_leave_of_ne st s hx]
  have hcap : ∀ t, (((st.leave s e).doEventReturn e).sys t).capacity = (st.sys t).capacity := by
    intro t
    rw [capacity_doEventReturn, capacity_leave]
  have hposted : ∀ t, (((st.leave s e).doEventReturn e).sys t).postedSends =
      (st.sys t).postedSends - if t = e.sys ∧ (st.ev e).sent = true then 1 else 0 := by
    intro t
    rw [postedSends_doEventReturn, postedSends_leave, h.wasPosted]
  refine ⟨fun t => ?_, fun x => ?_, fun x hx => ?_, fun x self hx => ?_⟩
  · have hc := numSent_change hcap (fun x hx => by rw [hev x hx]) ha t
    have hsent : (((st.leave s e).doEventReturn e).ev e).sent = false := by rw [hself]
    simp only [hsent, Bool.false_eq_true, and_false, if_false, Nat.add_zero] at hc
    rw [hposted, h.posted]
    by_cases hif : t = e.sys ∧ (st.ev e).sent = true
    · rw [if_pos hif] at hc ⊢
      omega
    · rw [if_neg hif] at hc ⊢
      omega
  · by_cases hx : x = e
    · rw [hx, hself, leave, ev_setEv_self]
    · rw [hev x hx, h.wasPosted]
  · have hxe : x ≠ e := by
      rintro rfl
      rw [hself] at hx
      cases hx
    rw [hev x hxe] at hx
    obtain ⟨hax, hux⟩ := h.inUse x hx
    rw [Allocated, hcap]
    refine ⟨hax, fun t hm => ?_⟩
    rw [lists_doEventReturn hr', Function.update_apply] at hm
    have hleave : ∀ t, (st.leave s e).lists (.freeEvs t) = st.lists (.freeEvs t) := by
      intro t
      rw [lists_leave, Function.update_of_ne (by simp)]
    split at hm
    · rw [hleave] at hm
      exact hux _ ((List.mem_cons.1 hm).resolve_left hxe)
    · rw [hleave] at hm
      exact hux _ hm
  · rw [stack_doEventReturn] at hx
    have hxe : x ≠ e := fun hxe => hown (mem_owners.2 ⟨_, hxe ▸ hx, rfl⟩)
    rw [hev x hxe]
    exact h.emits x self hx

theorem amSendEventMsg (h : st.Tallied) (hk : st.Kept) (hu : st.mayUse e = true) (hs : (st.ev e).sent = false)
    (now : Bool) : (st.amSendEventMsg e now).Tallied := by
  obtain ⟨he, hown⟩ := of_decide_eq_true hu
  have hp := h.doAmSendEventMsg (hk.placed.mem _ e he) (fun s => hk.placed.not_mem he nofun) hs hown now
  unfold EvState.amSendEventMsg
  dsimp only
  split
  · rename_i hn
    subst hn
    split
    · exact completeEvent (hp.push (f := .queue e) nofun) e
    · refine hp.eventReturn fun _ => ?_
      rw [EvState.doAmSendEventMsg, if_pos rfl, ev_setEv_self]
      exact hs
  · exact hp.queueEvent e

theorem eventChannelEmit (h : st.Tallied) (hk : st.Kept) (hu : st.mayUse e = true) (hs : (st.ev e).sent = false)
    (self now : Bool) : (st.eventChannelEmit e self now).Tallied := by
  have h₁ : (st.setEv e fun v => { v with complete := false, isMeta := false }).Tallied := by
    refine h.setEv e ?_ ?_ <;> exact fun _ => rfl
  unfold EvState.eventChannelEmit
  dsimp only
  split
  · exact (h₁.push (f := .ret e) nofun).push (f := .callback) nofun
  · refine h₁.amSendEventMsg (hk.setEv e _) hu ?_ now
    rw [ev_setEv_self]
    exact hs

theorem emitSubevent (h : st.Tallied) (hk : st.Kept) (m : EvId) (hu : st.mayUse e = true) (hs : (st.ev e).sent = false)
    (now tested : Bool) : (st.emitSubevent m e now tested).Tallied := by
  have h₁ : (st.setEv e fun v => { v with isSubevent := true, complete := false, isMeta := false }).Tallied := by
    refine h.setEv e ?_ ?_ <;> exact fun _ => rfl
  have h₂ := h₁.amSendEventMsg (hk.setEv e _) hu (by rw [ev_setEv_self]; exact hs) now
  unfold EvState.emitSubevent
  dsimp only
  split
  · exact h₂.noteIf _ _
  · exact h₂.queueSubevent m e

/-- An event is polled. -/
theorem eventCompleted (h : st.Tallied) (hk : st.Kept) {k : List EvFrame} (hQ : st.SubsAre (·.wasPosted = false) e)
    (hnext : ∀ st₁ : EvState, st₁.Tallied → (st₁.push k).Tallied) : (st.eventCompleted e k).1.Tallied := by
  unfold EvState.eventCompleted
  split
  · rename_i hm
    have hd : (st.dropSubs e).Tallied := by
      refine dropSubs_keeps (Q := (·.wasPosted = false)) ?_ h (hk.placed.nodup _) (hQ hm)
      intro st₁ x hs _ _ hw
      exact hs.dropSub e ((hs.wasPosted x).symm.trans hw)
    dsimp only
    split
    · exact (hnext _ hd).completeEvent e
    · exact hd
  · split
    · exact (hnext st h).completeEvent e
    · exact h

/-- **A walk comes to an event.** What was posted is not posted again. -/
theorem visit (h : st.Tallied) (hk : st.Kept) {s : ℕ} (he : e ∈ st.lists (.ongoingEvents s))
    (hQ : st.SubsAre (·.wasPosted = false) e) (now : Bool) : (st.visit s e now).Tallied := by
  have ht := h.eventCompleted hk (k := [.takeOff s e (nextOn (st.lists (.ongoingEvents s)) e)]) hQ
    fun st₁ h₁ => h₁.push nofun
  rcases visit_cases st s e now with ⟨-, heq⟩ | ⟨-, hc, hp, heq⟩ | ⟨-, heq⟩
  · rw [heq]
    exact ht
  · have hs : (st.ev e).sent = false := by
      rw [eventPosted, hc, h.wasPosted] at hp
      exact (Bool.or_eq_false_iff.1 (by simpa using hp)).1
    have hfree : ∀ t, e ∉ st.lists (.freeEvs t) := fun t => hk.placed.not_mem he nofun
    rw [heq]
    exact push (h.doAmSendEventMsg (hk.placed.mem _ e he) hfree hs (hk.not_owned he nofun) now) nofun
  · rw [heq]
    exact ht.push nofun

/-- A pool grows: the new events were not posted. -/
theorem growDynList (h : st.Tallied) (s : ℕ) : (st.growDynList s).Tallied := by
  have hsys : ∀ t, (st.growDynList s).sys t =
      if t = s then { st.sys s with capacity := (st.sys s).capacity + defaultNumEvts } else st.sys t :=
    fun t => Function.update_apply ..
  have hle : ∀ t, (st.sys t).capacity ≤ ((st.growDynList s).sys t).capacity := by
    intro t
    rw [hsys]
    split
    · rename_i ht
      rw [ht]
      exact Nat.le_add_right _ _
    · exact Nat.le_refl _
  refine ⟨fun t => ?_, h.wasPosted, fun x hx => ?_, h.emits⟩
  · have hposted : ((st.growDynList s).sys t).postedSends = (st.sys t).postedSends := by
      rw [hsys]
      split
      · rename_i ht
        rw [ht]
      · rfl
    rw [hposted, h.posted, numSent, numSent]
    apply congrArg Nat.cast
    obtain ⟨n, hn⟩ := Nat.exists_eq_add_of_le (hle t)
    rw [hn, List.range_add, List.countP_append]
    refine (Nat.add_eq_left.2 (List.countP_eq_zero.2 fun i hi hs => ?_)).symm
    obtain ⟨j, -, rfl⟩ := List.mem_map.1 hi
    exact absurd (h.inUse _ hs).1 (Nat.not_lt.2 (Nat.le_add_right _ _))
  · obtain ⟨ha, hu⟩ := h.inUse x hx
    refine ⟨Nat.lt_of_lt_of_le ha (hle x.sys), fun t hm => ?_⟩
    change x ∈ Function.update st.lists (.freeEvs s) _ (.freeEvs t) at hm
    rw [Function.update_apply] at hm
    split at hm
    · rename_i ht
      rcases List.mem_append.1 hm with hm | hm
      · rw [newEvents, List.mem_reverse, List.mem_map] at hm
        obtain ⟨i, -, rfl⟩ := hm
        exact absurd ha (Nat.not_lt.2 (Nat.le_add_right _ _))
      · exact hu s hm
    · exact hu t hm

theorem eventGet (h : st.Tallied) (s : ℕ) (isMeta expl cb : Bool) : (st.eventGet s isMeta expl cb).Tallied := by
  unfold EvState.eventGet
  dsimp only
  generalize hst₁ : (if st.lists (.freeEvs s) = [] then st.growDynList s else st) = st₁
  have h₁ : st₁.Tallied := by
    rw [← hst₁]
    split
    · exact h.growDynList s
    · exact h
  split
  · exact h₁
  · rename_i e es he
    have hmem : e ∈ st₁.lists (.freeEvs s) := by
      rw [he]
      exact List.mem_cons_self
    have hs : (st₁.ev e).sent = false := by
      by_contra hs
      exact (h₁.inUse e (Bool.not_eq_false _ ▸ hs)).2 s hmem
    have hw : (st₁.ev e).wasPosted = false := (h₁.wasPosted e).trans hs
    refine h₁.same (fun t => ?_) (fun t => ?_) (fun x => ?_) (fun x => ?_) (fun x t hx hm => ?_) h₁.emits
    · by_cases ht : t = s
      · subst ht
        simp [setSys, EvState.setList]
      · simp [setSys, EvState.setList, ht]
    · by_cases ht : t = s
      · subst ht
        simp [setSys, EvState.setList]
      · simp [setSys, EvState.setList, ht]
    · rw [ev_setEv]
      split
      · rename_i hx
        rw [hx, hs]
        rfl
      · rfl
    · rw [ev_setEv]
      split
      · rename_i hx
        rw [hx, hw]
        rfl
      · rfl
    · simp only [lists_setEv, setSys, EvState.setList] at hm
      rw [Function.update_of_ne (by simp), Function.update_apply] at hm
      split at hm
      · rename_i ht
        rw [ht, he]
        exact List.mem_cons_of_mem _ hm
      · exact hm

/-- The library goes on. -/
theorem resume (h : st.Tallied) (hk : st.Kept) {f : EvFrame} {fs : List EvFrame} {now : Bool}
    (hs : st.stack = f :: fs) (ha : st.Safe (.run now)) (ht : st.Thrifty (.run now)) :
    ({ st with stack := fs }.resume now f).Tallied := by
  have hp := h.pop hs
  have hkp := hk.pop hs
  have hmem : f ∈ st.stack := by rw [hs]; exact List.mem_cons_self
  have hf : f.Points st.lists := hk.points f hmem
  have hown : ∀ e, f.owner = some e → ({ st with stack := fs } : EvState).mayUse e = true :=
    fun e he => hk.mayUse_of_pop hs he
  rw [Safe, hs] at ha
  rw [Thrifty, hs] at ht
  cases f with
  | callback => exact hp
  | walk s ev =>
    cases ev with
    | none => exact hp
    | some e => exact hp.visit hkp (hf e rfl) ht now
  | takeOff s e next => exact hp.takeOff ha.1 (hk.placed.mem _ e hf.1) (hkp.not_owned hf.1 (by simp))
  | emit e self => exact hp.eventChannelEmit hkp (hown e rfl) (h.emits e self hmem) self now
  | queue e => exact hp.queueEvent e
  | ret e => exact hp.eventReturn fun hr => (h.wasPosted e).symm.trans (ht hr)
  | freeReq e => exact hp.setEv e (f := fun v => { v with req := false }) (fun _ => rfl) fun _ => rfl

/-- An event that was not emitted was not posted. -/
theorem sent_of_fresh (h : st.Tallied) (hf : st.fresh e = true) : (st.ev e).sent = false := by
  rw [← h.wasPosted]
  simp only [fresh, Bool.and_eq_true, Bool.not_eq_true'] at hf
  exact hf.2

/-- A step of the application. -/
theorem user (h : st.Tallied) (hk : st.Kept) {a : EvAct} (ht : st.Thrifty a) (hs : st.UserStep a st') :
    st'.Tallied := by
  cases hs with
  | get s isMeta expl cb => exact h.eventGet s isMeta expl cb
  | emit e self hu hf =>
    refine push (h.push ?_) nofun
    rintro x self' ⟨⟩
    exact h.sent_of_fresh hf
  | emitSub m e now tested hm hmeta hu hf hexpl hne => exact h.emitSubevent hk m hu (h.sent_of_fresh hf) now tested
  | finish m hu hmeta hd => exact h.eventCompleted hk ht fun st₁ h₁ => h₁.push nofun
  | queue m hu hmeta hd => exact (h.eventCompleted hk (k := [.ret m]) ht fun st₁ h₁ => h₁.push nofun).queueEvent m
  | poll e hu => exact h.eventCompleted hk ht fun st₁ h₁ => h₁.push nofun
  | ret e hu => exact h.eventReturn fun hr => (h.wasPosted e).symm.trans (ht hr)
  | completeRet e hu hr hs => exact (h.push (f := .ret e) nofun).completeEvent e
  | completed e ha' hp => exact h.eventCompleted hk (k := []) ht fun st₁ h₁ => h₁
  | progress s => exact h.push nofun
  | sendDone e hr hc => exact (h.push (f := .freeReq e) nofun).completeEvent e

/-- **Every step that is safe and thrifty.** -/
theorem step (h : st.Tallied) (hk : st.Kept) {a : EvAct} (ha : st.Safe a) (ht : st.Thrifty a)
    (hs : evStep st a = some st') : st'.Tallied := by
  rcases step_cases hs with ⟨now, f, fs, rfl, hst, -, rfl⟩ | ⟨fs, -, hst, rfl⟩ | ⟨-, hu⟩
  · exact h.resume hk hst ha ht
  · exact h.pop hst
  · exact h.user hk ht hu

end Tallied

theorem tallied_start : start.Tallied where
  posted s := by
    refine Eq.symm (congrArg Nat.cast (List.countP_eq_zero.2 fun i _ hs => ?_))
    exact Bool.false_ne_true hs
  wasPosted _ := rfl
  inUse _ hx := absurd hx Bool.false_ne_true
  emits _ _ hm := absurd hm List.not_mem_nil

end EvState

/-- **The counter counts the posted sends** of the events that have not been returned: in every run in which no
event is taken off its list while its callback runs or a walk further out is at it, none is queued that was
returned, and none whose send was posted is returned as a sub-event or by a caller. -/
theorem posted_sends_eq {st : EvState} (h : Reach evStep (fun st a => st.Safe a ∧ st.Thrifty a) EvState.start st) :
    st.Accounted := by
  have hinv : st.Kept ∧ st.Tallied := by
    refine h.invariant (I := fun st => st.Kept ∧ st.Tallied) ⟨EvState.kept_start, EvState.tallied_start⟩ ?_
    intro st a st' hs ha hstep
    exact ⟨hs.1.step ha.1 hstep, hs.2.step hs.1 ha.1 ha.2 hstep⟩
  exact hinv.2.accounted

/-- Two events are sent later, and a sub-event right away; one of the two is returned. -/
theorem posted_sends_one : ∃ st : EvState,
    Reach evStep (fun st a => st.Safe a ∧ st.Thrifty a) EvState.start st ∧ (st.sys 0).postedSends = 1 ∧
      st.Accounted := by
  have hrun : ∃ st : EvState, Reach evStep (fun st a => st.Safe a ∧ st.Thrifty a) EvState.start st ∧
      (st.sys 0).postedSends = 1 :=
    exists_reach_of_exec [.get 0 false false true, .emit ⟨0, 31⟩ false, .run true, .run false,
      .get 0 false false false, .emit ⟨0, 30⟩ false, .run true, .run true, .run false,
      .get 0 true false true, .get 0 false false false, .emitSub ⟨0, 29⟩ ⟨0, 28⟩ true true, .finish ⟨0, 29⟩, .cbReturn,
      .run true, .sendDone ⟨0, 31⟩, .cbReturn, .run true, .progress 0, .run true, .run true, .run true, .run true]
      (by decide)
  obtain ⟨st, hst, hp⟩ := hrun
  exact ⟨st, hst, hp, posted_sends_eq hst⟩

/-- **Not in every run**: a sub-event is sent later. Once it has completed the meta-event returns it, all events
are back in the pool, and the counter still says 1. -/
theorem posted_sends_leak :
    ¬ ∀ st : EvState, Reach evStep (fun _ _ => True) EvState.start st → st.Accounted := by
  intro h
  have hrun : ∃ st : EvState, Reach evStep (fun _ _ => True) EvState.start st ∧
      ((st.sys 0).postedSends = 1 ∧ ∀ i < (st.sys 0).capacity, ⟨0, i⟩ ∈ st.lists (.freeEvs 0)) :=
    exists_reach_of_exec [.get 0 true false false, .get 0 false false false, .emitSub ⟨0, 31⟩ ⟨0, 30⟩ false true,
      .sendDone ⟨0, 30⟩, .run true, .finish ⟨0, 31⟩, .run true] (by decide)
  obtain ⟨st, hst, hp, hall⟩ := hrun
  have hz := (h st hst).zero 0 hall
  omega

end DpuOffload
