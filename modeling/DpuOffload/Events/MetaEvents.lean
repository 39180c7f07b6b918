import DpuOffload.Events.Lifecycle

/-!
# The completion of a meta-event

`event_completed` returns the sub-events of a meta-event that have completed; when none is left
the callback of the meta-event is invoked. A callback is cleared before it is invoked, so it is
invoked once, however the polls are nested. A sub-event in the middle of its own callback is
complete, but its request is set still: a poll of the meta-event at that time takes it off the
list and does not return it, and the meta-event completes without it.

* `meta_event_callback` — **a callback is invoked once, and that of a meta-event when all its
  sub-events were returned**, in every run in which no event is taken off its list while its
  callback runs or a walk further out is at it.
* `meta_event_early` — a poll from the callback of a sub-event breaks it.
-/

namespace DpuOffload

open Transition Placement

namespace EvState

/-- **The callbacks are right**: none was invoked twice since `event_get`, and none of a meta-event before all
sub-events queued on it had completed and been returned. -/
structure CalledOnce (st : EvState) : Prop where
  /-- At most once. -/
  once : ∀ e, (st.ev e).calls ≤ 1
  /-- Not too early. -/
  early : ∀ m, .early m ∉ st.faults

/-- **What every step keeps.** -/
structure Owing (st : EvState) : Prop where
  /-- What a meta-event waits for is on its list. -/
  owed : ∀ m, st.owed m = st.lists (.subEvents m)
  /-- No callback was invoked too early. -/
  early : ∀ m, .early m ∉ st.faults
  /-- A meta-event is not sent. -/
  req : ∀ e, (st.ev e).req = true → (st.ev e).isMeta = false
  /-- A callback that is set was not invoked, and another at most once. -/
  calls : ∀ e, (st.ev e).calls + (if (st.ev e).completionCb then 1 else 0) ≤ 1

variable {st st' : EvState} {e : EvId}

theorem Owing.calledOnce (h : st.Owing) : st.CalledOnce :=
  ⟨fun e => Nat.le_of_add_right_le (h.calls e), h.early⟩

namespace Owing

/-- An event object changes, but not its callback. -/
theorem setEv (h : st.Owing) (e : EvId) {f : Ev → Ev} (hr : (f (st.ev e)).req = true → (f (st.ev e)).isMeta = false)
    (hc : (f (st.ev e)).calls + (if (f (st.ev e)).completionCb then 1 else 0) ≤ 1) : (st.setEv e f).Owing := by
  refine ⟨h.owed, h.early, fun x => ?_, fun x => ?_⟩
  · rw [ev_setEv]
    split
    · exact hr
    · exact h.req x
  · rw [ev_setEv]
    split
    · exact hc
    · exact h.calls x

theorem push (h : st.Owing) (fs : List EvFrame) : (st.push fs).Owing := ⟨h.owed, h.early, h.req, h.calls⟩

theorem pop (h : st.Owing) (fs : List EvFrame) : ({ st with stack := fs } : EvState).Owing :=
  ⟨h.owed, h.early, h.req, h.calls⟩

theorem setSys (h : st.Owing) (s : ℕ) (f : EvSys → EvSys) : (st.setSys s f).Owing := ⟨h.owed, h.early, h.req, h.calls⟩

/-- A list other than that of a meta-event changes. -/
theorem setList (h : st.Owing) {l : EvList} (hl : ∀ m, l ≠ .subEvents m) (es : List EvId) : (st.setList l es).Owing := by
  refine ⟨fun m => ?_, h.early, h.req, h.calls⟩
  change st.owed m = Function.update st.lists l es (.subEvents m)
  rw [Function.update_of_ne (hl m).symm]
  exact h.owed m

/-- Another fault. -/
theorem noteIf (h : st.Owing) {b : Bool} {y : EvFault} (hy : ∀ m, b = true → y ≠ .early m) : (st.noteIf b y).Owing := by
  unfold EvState.noteIf
  split
  · rename_i hb
    refine ⟨h.owed, fun m hm => ?_, h.req, h.calls⟩
    rcases List.mem_append.1 hm with hm | hm
    · exact h.early m hm
    · exact hy m hb (List.mem_singleton.1 hm).symm
  · exact h

/-- **An event completes**; a meta-event does when all its sub-events were returned. -/
theorem completeEvent (h : st.Owing) (e : EvId) (he : (st.ev e).isMeta = true → st.lists (.subEvents e) = []) :
    (st.completeEvent e).Owing := by
  have hc := h.calls e
  unfold EvState.completeEvent
  split
  · rename_i hcb
    rw [if_pos hcb] at hc
    refine push (setEv (h.noteIf fun m hb => ?_) e ?_ ?_) _
    · rw [Bool.and_eq_true, decide_eq_true_iff] at hb
      rw [h.owed, he hb.1] at hb
      exact absurd rfl hb.2
    · rw [ev_noteIf]
      exact h.req e
    · rw [ev_noteIf]
      simpa using hc
  · exact h.setEv e (h.req e) hc

/-- The flags and the faults once an event was returned. -/
theorem of_doEventReturn (h : st.Owing) (hp : st.inPool e = false)
    (ho : ∀ m, (st.doEventReturn e).owed m = (st.doEventReturn e).lists (.subEvents m)) : (st.doEventReturn e).Owing := by
  cases hr : (st.ev e).req with
  | true => rwa [EvState.doEventReturn, if_pos hr]
  | false =>
    refine ⟨ho, ?_, fun x => ?_, fun x => ?_⟩
    · rw [faults_doEventReturn hr hp]
      exact h.early
    · rw [ev_doEventReturn hr]
      split
      · exact h.req e
      · exact h.req x
    · rw [ev_doEventReturn hr]
      split
      · exact h.calls e
      · exact h.calls x

/-- An event that is no sub-event is returned. -/
theorem doEventReturn (h : st.Owing) (hp : st.inPool e = false) (hsub : ∀ m, e ∉ st.lists (.subEvents m)) :
    (st.doEventReturn e).Owing := by
  refine h.of_doEventReturn hp fun m => ?_
  rw [lists_doEventReturn_of_ne (by nofun)]
  cases hr : (st.ev e).req with
  | true =>
    rw [EvState.doEventReturn, if_pos hr]
    exact h.owed m
  | false =>
    rw [owed_doEventReturn hr, h.owed, List.erase_of_not_mem (hsub m), ite_self]

theorem eventReturn (h : st.Owing) (hp : st.inPool e = false) (hsub : ∀ m, e ∉ st.lists (.subEvents m)) :
    (st.eventReturn e).Owing := by
  unfold EvState.eventReturn
  split
  · exact h
  · split
    · exact h
    · exact (h.doEventReturn hp hsub).setList (l := .held) nofun _

/-- **A sub-event that has completed is returned**: the meta-event does not wait for it any more. -/
theorem dropSub (h : st.Owing) (hk : st.Kept) {m : EvId} (he : e ∈ st.lists (.subEvents m))
    (hc : (st.ev e).complete = true) (hr : (st.ev e).req = false) : (st.dropSub m e).Owing := by
  have hr' : (((st.unlink (.subEvents m) e).setEv e fun v => { v with isSubevent := false }).ev e).req = false := by
    rw [ev_setEv_self]
    exact hr
  have hc' : (((st.unlink (.subEvents m) e).setEv e fun v => { v with isSubevent := false }).ev e).complete = true := by
    rw [ev_setEv_self]
    exact hc
  have hkd := hk.dropSub he hr
  refine ⟨fun x => ?_, fun x hx => ?_, fun x => ?_, fun x => ?_⟩
  · rw [EvState.dropSub, owed_doEventReturn hr', if_pos hc']
    change (st.owed x).erase e = (st.dropSub m e).lists _
    rw [h.owed]
    by_cases hx : x = m
    · rw [hx, lists_dropSub_self]
    · have hne : EvList.subEvents x ≠ .subEvents m := fun hl => hx (EvList.subEvents.inj hl)
      rw [lists_dropSub hne (by simp), List.erase_of_not_mem (hk.placed.not_mem he hne.symm)]
  · rw [EvState.dropSub, faults_doEventReturn hr'] at hx
    · exact h.early x hx
    · apply decide_eq_false
      rw [lists_setEv, lists_unlink_of_ne st e (by simp : EvList.freeEvs e.sys ≠ .subEvents m)]
      exact hk.placed.not_mem he (by simp)
  · by_cases hx : x = e
    · rw [hx, EvState.dropSub, ev_doEventReturn hr', if_pos rfl, ev_setEv_self]
      exact h.req e
    · rw [ev_dropSub_of_ne hx]
      exact h.req x
  · by_cases hx : x = e
    · rw [hx, EvState.dropSub, ev_doEventReturn hr', if_pos rfl, ev_setEv_self]
      exact h.calls e
    · rw [ev_dropSub_of_ne hx]
      exact h.calls x

/-- An event is about to be queued. -/
theorem unlink_held (h : st.Owing) (e : EvId) :
    ((st.noteIf (st.inPool e) (.queuedReturned e)).unlink .held e).Owing :=
  (h.noteIf (b := st.inPool e) (y := .queuedReturned e) nofun).setList (l := .held) nofun _

theorem queueEvent (h : st.Owing) (e : EvId) : (st.queueEvent e).Owing := by
  unfold EvState.queueEvent
  split
  · exact h
  · split
    · exact h
    · have h₁ := (h.unlink_held e).setList (l := .ongoingEvents e.sys) nofun
        (((st.noteIf (st.inPool e) (.queuedReturned e)).unlink .held e).lists (.ongoingEvents e.sys) ++ [e])
      exact h₁.setEv e (h₁.req e) (h₁.calls e)

/-- **A sub-event is queued**: the meta-event waits for it. -/
theorem queueSubevent (h : st.Owing) (m e : EvId) : (st.queueSubevent m e).Owing := by
  have h₁ := h.unlink_held e
  unfold EvState.queueSubevent
  dsimp only
  generalize (st.noteIf (st.inPool e) (.queuedReturned e)).unlink .held e = st₁ at h₁
  refine ⟨fun x => ?_, h₁.early, h₁.req, h₁.calls⟩
  change Function.update st₁.owed m _ x = Function.update st₁.lists (.subEvents m) _ (.subEvents x)
  by_cases hxm : x = m
  · subst hxm
    rw [Function.update_self, Function.update_self, h₁.owed]
  · rw [Function.update_of_ne hxm, Function.update_of_ne fun hl => hxm (EvList.subEvents.inj hl)]
    exact h₁.owed x

/-- A send is posted or completes right away. -/
theorem doAmSendEventMsg (h : st.Owing) (he : (st.ev e).isMeta = false) (now : Bool) :
    (st.doAmSendEventMsg e now).Owing := by
  unfold EvState.doAmSendEventMsg
  split
  · exact h.setEv e nofun (h.calls e)
  · exact (h.setSys e.sys _).setEv e (fun _ => he) (h.calls e)

theorem amSendEventMsg (h : st.Owing) (hk : st.Kept) (hu : st.mayUse e = true) (he : (st.ev e).isMeta = false)
    (now : Bool) : (st.amSendEventMsg e now).Owing := by
  have hp := h.doAmSendEventMsg he now
  have hmem : e ∈ (st.doAmSendEventMsg e now).lists .held := by
    rw [lists_doAmSendEventMsg]
    exact (of_decide_eq_true hu).1
  have hkp := hk.doAmSendEventMsg e now
  have hm : ((st.doAmSendEventMsg e now).ev e).isMeta = false := by
    unfold EvState.doAmSendEventMsg
    split
    · rw [ev_setEv_self]
      exact he
    · rw [ev_setEv_self]
      exact he
  unfold EvState.amSendEventMsg
  dsimp only
  split
  · split
    · refine (hp.push [.queue e]).completeEvent e fun hf => ?_
      rw [ev_push, hm] at hf
      cases hf
    · exact hp.eventReturn (hkp.not_inPool hmem nofun) fun m => hkp.placed.not_mem hmem nofun
  · exact hp.queueEvent e

theorem eventChannelEmit (h : st.Owing) (hk : st.Kept) (hu : st.mayUse e = true) (self now : Bool) :
    (st.eventChannelEmit e self now).Owing := by
  have h₁ : (st.setEv e fun v => { v with complete := false, isMeta := false }).Owing :=
    h.setEv e (fun _ => rfl) (h.calls e)
  unfold EvState.eventChannelEmit
  dsimp only
  split
  · exact h₁.push _
  · refine h₁.amSendEventMsg (hk.setEv e _) hu ?_ now
    rw [ev_setEv_self]

theorem emitSubevent (h : st.Owing) (hk : st.Kept) (m : EvId) (hu : st.mayUse e = true) (now tested : Bool) :
    (st.emitSubevent m e now tested).Owing := by
  have h₁ : (st.setEv e fun v => { v with isSubevent := true, complete := false, isMeta := false }).Owing :=
    h.setEv e (fun _ => rfl) (h.calls e)
  have h₂ := h₁.amSendEventMsg (hk.setEv e _) hu (by rw [ev_setEv_self]) now
  unfold EvState.emitSubevent
  dsimp only
  split
  · exact h₂.noteIf nofun
  · exact h₂.queueSubevent m e

/-- **An event is polled**: the callback of a meta-event is invoked when none of its sub-events is left. -/
theorem eventCompleted (h : st.Owing) (hk : st.Kept) (k : List EvFrame) (hQ : st.SubsAre (·.req = false) e) :
    (st.eventCompleted e k).1.Owing := by
  unfold EvState.eventCompleted
  split
  · rename_i hm
    have hd : (st.dropSubs e).Kept ∧ (st.dropSubs e).Owing := by
      refine dropSubs_keeps (J := fun st₁ => st₁.Kept ∧ st₁.Owing) (Q := (·.req = false)) ?_ ⟨hk, h⟩ (hk.placed.nodup _)
        (hQ hm)
      intro st₁ x hs hx hc hr
      exact ⟨hs.1.dropSub hx hr, hs.2.dropSub hs.1 hx hc hr⟩
    dsimp only
    split
    · rename_i hnil
      exact (hd.2.push k).completeEvent e fun _ => hnil
    · exact hd.2
  · rename_i hm
    split
    · exact (h.push k).completeEvent e fun hf => absurd hf hm
    · exact h

theorem visit (h : st.Owing) (hk : st.Kept) (s : ℕ) (hQ : st.SubsAre (·.req = false) e) (now : Bool) :
    (st.visit s e now).Owing := by
  have hc := h.eventCompleted hk [.takeOff s e (nextOn (st.lists (.ongoingEvents s)) e)] hQ
  rcases visit_cases st s e now with ⟨-, heq⟩ | ⟨hm, -, -, heq⟩ | ⟨-, heq⟩
  · rw [heq]
    exact hc
  · rw [heq]
    exact (h.doAmSendEventMsg hm now).push _
  · rw [heq]
    exact hc.push _

theorem takeOff (h : st.Owing) (hk : st.Kept) {s : ℕ} (he : e ∈ st.lists (.ongoingEvents s)) (next : Option EvId) :
    (st.takeOff s e next).Owing := by
  have h₁ : (st.leave s e).Owing := by
    unfold leave
    refine setEv (setSys (h.setList (l := .ongoingEvents s) nofun _) e.sys _) e ?_ ?_
    · exact h.req e
    · exact h.calls e
  unfold EvState.takeOff
  refine push (h₁.eventReturn (decide_eq_false ?_) fun m => ?_) _
  · rw [lists_leave, Function.update_of_ne (by nofun)]
    exact hk.placed.not_mem he nofun
  · rw [lists_leave, Function.update_of_ne (by nofun)]
    exact hk.placed.not_mem he nofun

theorem eventGet (h : st.Owing) (s : ℕ) (isMeta expl cb : Bool) : (st.eventGet s isMeta expl cb).Owing := by
  unfold EvState.eventGet
  dsimp only
  generalize hst₁ : (if st.lists (.freeEvs s) = [] then st.growDynList s else st) = st₁
  have h₁ : st₁.Owing := by
    rw [← hst₁]
    split
    · exact (h.setList (l := .freeEvs s) nofun _).setSys s _
    · exact h
  split
  · exact h₁
  · refine setEv (((h₁.setList (l := .freeEvs s) nofun _).setList (l := .held) nofun _).setSys s _) _ nofun ?_
    cases cb <;> simp [Ev.reset]

/-- The library goes on. -/
theorem resume (h : st.Owing) (hk : st.Kept) {f : EvFrame} {fs : List EvFrame} {now : Bool}
    (hs : st.stack = f :: fs) (ha : st.Safe (.run now)) : ({ st with stack := fs }.resume now f).Owing := by
  have hp := h.pop fs
  have hkp := hk.pop hs
  have hf : f.Points st.lists := hk.points f (by rw [hs]; exact List.mem_cons_self)
  have hown : ∀ e, f.owner = some e → ({ st with stack := fs } : EvState).mayUse e = true :=
    fun e he => hk.mayUse_of_pop hs he
  rw [Safe, hs] at ha
  cases f with
  | callback => exact hp
  | walk s ev =>
    cases ev with
    | none => exact hp
    | some e => exact hp.visit hkp s ha now
  | takeOff s e next => exact hp.takeOff hkp hf.1 next
  | emit e self => exact hp.eventChannelEmit hkp (hown e rfl) self now
  | queue e => exact hp.queueEvent e
  | ret e =>
    have he : e ∈ st.lists .held := (of_decide_eq_true (hown e rfl)).1
    exact hp.eventReturn (hkp.not_inPool he (by simp)) fun m => hk.placed.not_mem he (by simp)
  | freeReq e => exact hp.setEv e (f := fun v => { v with req := false }) (by simp) (h.calls e)

/-- A step of the application. -/
theorem user (h : st.Owing) (hk : st.Kept) {a : EvAct} (ha : st.Safe a) (hs : st.UserStep a st') : st'.Owing := by
  cases hs with
  | get s isMeta expl cb => exact h.eventGet s isMeta expl cb
  | emit e self hu hf => exact (h.push _).push _
  | emitSub m e now tested hm hmeta hu hf hexpl hne => exact h.emitSubevent hk m hu now tested
  | finish m hu hmeta hd => exact h.eventCompleted hk [.ret m] ha
  | queue m hu hmeta hd => exact (h.eventCompleted hk [.ret m] ha).queueEvent m
  | poll e hu => exact h.eventCompleted hk [.ret e] ha
  | ret e hu =>
    have he : e ∈ st.lists .held := (of_decide_eq_true hu).1
    exact h.eventReturn (hk.not_inPool he nofun) fun m => hk.placed.not_mem he nofun
  | completeRet e hu hr hs => exact (h.push [.ret e]).completeEvent e fun _ => hs
  | completed e ha' hp => exact h.eventCompleted hk [] ha
  | progress s => exact h.push _
  | sendDone e hr hc =>
    refine (h.push [.freeReq e]).completeEvent e fun hf => ?_
    rw [ev_push, h.req e hr] at hf
    cases hf

/-- **Every step that is safe.** -/
theorem step (h : st.Owing) (hk : st.Kept) {a : EvAct} (ha : st.Safe a) (hs : evStep st a = some st') :
    st'.Owing := by
  rcases step_cases hs with ⟨now, f, fs, rfl, hst, -, rfl⟩ | ⟨fs, -, -, rfl⟩ | ⟨-, hu⟩
  · exact h.resume hk hst ha
  · exact h.pop fs
  · exact h.user hk ha hu

end Owing

theorem owing_start : start.Owing where
  owed _ := rfl
  early _ hm := absurd hm List.not_mem_nil
  req _ hr := absurd hr Bool.false_ne_true
  calls _ := Nat.zero_le 1

end EvState

/-- **A callback is invoked once, and that of a meta-event when all sub-events queued on it have completed and
been returned**: for any sub-events, completions and polls, nested or not, in every run in which no event is taken
off its list while its callback runs or a walk further out is at it, and none is queued that was returned. -/
theorem meta_event_callback {st : EvState} (h : Reach evStep EvState.Safe EvState.start st) : st.CalledOnce := by
  have hinv : st.Kept ∧ st.Owing := by
    refine h.invariant (I := fun st => st.Kept ∧ st.Owing) ⟨EvState.kept_start, EvState.owing_start⟩ ?_
    intro st a st' hs ha hstep
    exact ⟨hs.1.step ha hstep, hs.2.step hs.1 ha hstep⟩
  exact hinv.2.calledOnce

/-- A meta-event with two sub-events, that complete in the other order. It is polled after the first, and in its
own callback. -/
theorem meta_event_callback_two : ∃ st : EvState, Reach evStep EvState.Safe EvState.start st ∧
    (st.stack = [] ∧ (st.ev ⟨0, 31⟩).calls = 1 ∧ (st.sys 0).numUsedEvs = 0) ∧ st.CalledOnce := by
  have hrun : ∃ st : EvState, Reach evStep EvState.Safe EvState.start st ∧
      (st.stack = [] ∧ (st.ev ⟨0, 31⟩).calls = 1 ∧ (st.sys 0).numUsedEvs = 0) :=
    exists_reach_of_exec [.get 0 true false true, .get 0 false false true, .emitSub ⟨0, 31⟩ ⟨0, 30⟩ false true,
      .get 0 false false false, .emitSub ⟨0, 31⟩ ⟨0, 29⟩ false true, .finish ⟨0, 31⟩,
      .sendDone ⟨0, 29⟩, .run true, .completed ⟨0, 31⟩, .sendDone ⟨0, 30⟩, .cbReturn, .run true,
      .completed ⟨0, 31⟩, .completed ⟨0, 31⟩, .cbReturn, .progress 0, .run true, .run true, .run true] (by decide)
  obtain ⟨st, hst, hend⟩ := hrun
  exact ⟨st, hst, hend, meta_event_callback hst⟩

/-- **Not in every run**: the callback of a sub-event polls the meta-event. The sub-event is taken off the list,
but its request is set still and it is not returned; the callback of the meta-event is invoked. -/
theorem meta_event_early :
    ¬ ∀ st : EvState, Reach evStep (fun _ _ => True) EvState.start st → st.CalledOnce := by
  intro h
  have hrun : ∃ st : EvState, Reach evStep (fun _ _ => True) EvState.start st ∧ .early ⟨0, 31⟩ ∈ st.faults :=
    exists_reach_of_exec [.get 0 true false true, .get 0 false false true, .emitSub ⟨0, 31⟩ ⟨0, 30⟩ false true,
      .finish ⟨0, 31⟩, .sendDone ⟨0, 30⟩, .completed ⟨0, 31⟩] (by decide)
  obtain ⟨st, hst, hearly⟩ := hrun
  exact (h st hst).early _ hearly

end DpuOffload
