import DpuOffload.Events.System
import DpuOffload.Lib.Placement

/-!
# Where the events are

Every event object should be in one place: in the pool, on the list of ongoing events, on the
list of sub-events of one meta-event, or with a caller. Three things break it. An event whose
send has completed is taken off its list, by a walk or by `event_completed`, while its own
callback is running: its request is still set, so it is not returned, and it is lost. A walk
that a callback started takes off an event that a walk further out is at, or has read ahead.
And one call site queues a sub-event without a look at its pointer, which is null when the send
completed right away and the event was returned.

* `event_lifecycle` — **every event is in one place** in every run in which none of the three
  happens.
* `event_lost` — a callback that emits is enough to break it.
-/

namespace DpuOffload

open Transition Placement

/-- The events a walk in progress is at, or goes to next. -/
def EvFrame.pointers : EvFrame → List EvId
  | .walk _ ev => ev.toList
  | .takeOff _ ev next => ev :: next.toList
  | _ => []

namespace EvState

/-- Are the sub-events that `event_completed` would return as `Q` says? -/
def SubsAre (Q : Ev → Prop) (st : EvState) (m : EvId) : Prop :=
  (st.ev m).isMeta = true → ∀ e ∈ st.lists (.subEvents m), (st.ev e).complete = true → Q (st.ev e)

instance (Q : Ev → Prop) [DecidablePred Q] (st : EvState) (m : EvId) : Decidable (st.SubsAre Q m) :=
  inferInstanceAs (Decidable (_ → _))

/-- What the library does next takes no event off its list while its callback runs or a walk further out is at
it. -/
def SafeRun (st : EvState) : List EvFrame → Prop
  | .takeOff _ e _ :: fs => (st.ev e).req = false ∧ ∀ f ∈ fs, e ∉ f.pointers
  | .walk _ (some m) :: _ => st.SubsAre (·.req = false) m
  | _ => True

instance decidableSafeRun (st : EvState) : (fs : List EvFrame) → Decidable (st.SafeRun fs)
  | .takeOff _ e _ :: fs => inferInstanceAs (Decidable ((st.ev e).req = false ∧ ∀ f ∈ fs, e ∉ f.pointers))
  | .walk _ (some m) :: _ => inferInstanceAs (Decidable (st.SubsAre (·.req = false) m))
  | [] | .callback :: _ | .walk _ none :: _ | .emit _ _ :: _ | .queue _ :: _ | .ret _ :: _ | .freeReq _ :: _ =>
    inferInstanceAs (Decidable True)

/-- **No event is taken off its list while its callback runs or a walk further out is at it, and none that
was returned is queued.** -/
def Safe (st : EvState) : EvAct → Prop
  | .run _ => st.SafeRun st.stack
  | .finish m | .poll m | .completed m => st.SubsAre (·.req = false) m
  | .emitSub _ _ now tested => now = true → tested = true
  | _ => True

instance decidableSafe (st : EvState) : (a : EvAct) → Decidable (st.Safe a)
  | .run _ => decidableSafeRun st st.stack
  | .finish m | .poll m | .completed m => inferInstanceAs (Decidable (st.SubsAre (·.req = false) m))
  | .emitSub _ _ now tested => inferInstanceAs (Decidable (now = true → tested = true))
  | .get _ _ _ _ | .emit _ _ | .ret _ | .completeRet _ | .progress _ | .sendDone _ | .cbReturn =>
    inferInstanceAs (Decidable True)

/-- **Every event is in one place**, and the counter of a system counts those that are not in its pool. -/
structure Lifecycle (st : EvState) : Prop where
  /-- The place of an event. -/
  place : ∀ e, st.Allocated e → ∃! l, e ∈ st.lists l
  /-- It is there once. -/
  nodup : ∀ l, (st.lists l).Nodup
  /-- The counter. -/
  numUsed : ∀ s, (st.sys s).numUsedEvs + (st.lists (.freeEvs s)).length = (st.sys s).capacity
  /-- No event was returned twice or queued after it was returned. -/
  once : ∀ e, .returnedTwice e ∉ st.faults ∧ .queuedReturned e ∉ st.faults ∧ .queuedNull e ∉ st.faults

end EvState

/-! ### The invariant -/

/-- Does a walk in progress point to ongoing events? -/
def EvFrame.Points (L : EvList → List EvId) : EvFrame → Prop
  | .walk s ev => ∀ e ∈ ev, e ∈ L (.ongoingEvents s)
  | .takeOff s e next => e ∈ L (.ongoingEvents s) ∧ ∀ n ∈ next, n ∈ L (.ongoingEvents s) ∧ n ≠ e
  | _ => True

namespace EvState

/-- **What every step keeps.** -/
structure Kept (st : EvState) : Prop where
  /-- Every event is on one list. -/
  placed : Placed {e | st.Allocated e} st.lists
  /-- The counter. -/
  numUsed : ∀ s, (st.sys s).numUsedEvs + (st.lists (.freeEvs s)).length = (st.sys s).capacity
  /-- No fault. -/
  once : ∀ e, .returnedTwice e ∉ st.faults ∧ .queuedReturned e ∉ st.faults ∧ .queuedNull e ∉ st.faults
  /-- No two functions in progress were given the same event. -/
  nodup : (owners st.stack).Nodup
  /-- The events of functions in progress are with the caller. -/
  owner : ∀ e ∈ owners st.stack, e ∈ st.lists .held
  /-- The walks in progress. -/
  points : ∀ f ∈ st.stack, f.Points st.lists

theorem Kept.lifecycle {st : EvState} (h : st.Kept) : st.Lifecycle :=
  ⟨h.placed.place, h.placed.nodup, h.numUsed, h.once⟩

end EvState

theorem mem_owners {fs : List EvFrame} {e : EvId} : e ∈ owners fs ↔ ∃ f ∈ fs, f.owner = some e := List.mem_filterMap

theorem owners_cons (f : EvFrame) (fs : List EvFrame) : owners (f :: fs) = f.owner.toList ++ owners fs := by
  unfold owners
  cases hf : f.owner with
  | none => rw [List.filterMap_cons_none hf]; rfl
  | some e => rw [List.filterMap_cons_some hf]; rfl

/-- What a walk points to is on a list of ongoing events. -/
theorem EvFrame.Points.mem {L : EvList → List EvId} {f : EvFrame} (h : f.Points L) {e : EvId} (he : e ∈ f.pointers) :
    ∃ s, e ∈ L (.ongoingEvents s) := by
  cases f with
  | walk s ev =>
    rw [pointers, Option.mem_toList] at he
    exact ⟨s, h e he⟩
  | takeOff s e' next =>
    rcases List.mem_cons.1 he with rfl | he
    · exact ⟨s, h.1⟩
    · exact ⟨s, (h.2 e (Option.mem_toList.1 he)).1⟩
  | callback | emit _ _ | queue _ | ret _ | freeReq _ => exact absurd he List.not_mem_nil

/-- Other events may come and go. -/
theorem EvFrame.Points.mono {L L' : EvList → List EvId} {f : EvFrame} (h : f.Points L)
    (hL : ∀ s, ∀ e ∈ f.pointers, e ∈ L (.ongoingEvents s) → e ∈ L' (.ongoingEvents s)) : f.Points L' := by
  cases f with
  | walk s ev => exact fun e he => hL s e (Option.mem_toList.2 he) (h e he)
  | takeOff s e next =>
    refine ⟨hL s e List.mem_cons_self h.1, fun n hn => ⟨?_, (h.2 n hn).2⟩⟩
    exact hL s n (List.mem_cons_of_mem _ (Option.mem_toList.2 hn)) (h.2 n hn).1
  | callback | emit _ _ | queue _ | ret _ | freeReq _ => exact trivial

namespace EvState

variable {st st' : EvState} {e : EvId} {a b : EvList}

namespace Kept

/-- **An event moves from one list to another.** -/
theorem moved (h : st.Kept) (he : e ∈ st.lists a) (hab : a ≠ b) (ha : st'.lists a = (st.lists a).erase e)
    (hb : (st'.lists b).Perm (e :: st.lists b)) (ho : ∀ l, l ≠ a → l ≠ b → st'.lists l = st.lists l)
    (hcap : ∀ s, (st'.sys s).capacity = (st.sys s).capacity)
    (hused : ∀ s, (st'.sys s).numUsedEvs + (st'.lists (.freeEvs s)).length = (st.sys s).capacity)
    (hfaults : st'.faults = st.faults) (hstack : st'.stack = st.stack) (hown : e ∉ owners st.stack)
    (hpt : ∀ f ∈ st.stack, e ∉ f.pointers) : st'.Kept := by
  have hplaced : Placed {e | st'.Allocated e} st'.lists := by
    have hS : {e | st'.Allocated e} = {e | st.Allocated e} := by
      ext x
      rw [Set.mem_ofPred_eq, Set.mem_ofPred_eq, Allocated, Allocated, hcap]
    rw [hS]
    exact h.placed.move he hab ha hb ho
  have hmem : ∀ l x, x ≠ e → (x ∈ st'.lists l ↔ x ∈ st.lists l) := by
    intro l x hx
    by_cases hla : l = a
    · rw [hla, ha, List.mem_erase_of_ne hx]
    · by_cases hlb : l = b
      · rw [hlb, hb.mem_iff, List.mem_cons, or_iff_right hx]
      · rw [ho l hla hlb]
  have hne : ∀ x ∈ owners st.stack, x ≠ e := by
    intro x hx hxe
    exact hown (hxe ▸ hx)
  refine ⟨hplaced, fun s => (hused s).trans (by rw [hcap]), ?_, ?_, fun x hx => ?_, fun f hf => ?_⟩
  · rw [hfaults]
    exact h.once
  · rw [hstack]
    exact h.nodup
  · rw [hstack] at hx
    exact (hmem _ x (hne x hx)).2 (h.owner x hx)
  · rw [hstack] at hf
    refine (h.points f hf).mono fun s x hx hxs => (hmem _ x fun hxe => hpt f hf (hxe ▸ hx)).2 hxs

/-- What an event object says does not matter. -/
theorem setEv (h : st.Kept) (e : EvId) (f : Ev → Ev) : (st.setEv e f).Kept :=
  ⟨h.placed, h.numUsed, h.once, h.nodup, h.owner, h.points⟩

/-- Something is to be done next. -/
theorem push (h : st.Kept) {f : EvFrame} (hown : ∀ e, f.owner = some e → st.mayUse e = true)
    (hpt : f.Points st.lists) : (st.push [f]).Kept := by
  have howners : owners (st.push [f]).stack = f.owner.toList ++ owners st.stack := owners_cons f st.stack
  refine ⟨h.placed, h.numUsed, h.once, ?_, fun x hx => ?_, fun g hg => ?_⟩
  · rw [howners]
    cases hf : f.owner with
    | none => exact h.nodup
    | some e => exact List.nodup_cons.2 ⟨(of_decide_eq_true (hown e hf)).2, h.nodup⟩
  · rw [howners] at hx
    rcases List.mem_append.1 hx with hx | hx
    · exact (of_decide_eq_true (hown x (Option.mem_toList.1 hx))).1
    · exact h.owner x hx
  · rcases List.mem_cons.1 hg with rfl | hg
    · exact hpt
    · exact h.points g hg

/-- The application is called, or a send has completed. -/
theorem push_callback (h : st.Kept) : (st.push [.callback]).Kept := h.push nofun trivial

/-- A function in progress goes on. -/
theorem pop (h : st.Kept) {f : EvFrame} {fs : List EvFrame} (hs : st.stack = f :: fs) :
    ({ st with stack := fs } : EvState).Kept := by
  have howners : owners st.stack = f.owner.toList ++ owners fs := by rw [hs, owners_cons]
  have hsub : ∀ g ∈ fs, g ∈ st.stack := fun g hg => by rw [hs]; exact List.mem_cons_of_mem _ hg
  refine ⟨h.placed, h.numUsed, h.once, ?_, fun x hx => ?_, fun g hg => ?_⟩
  · have hn := h.nodup
    rw [howners] at hn
    exact hn.of_append_right
  · exact h.owner x (by rw [howners]; exact List.mem_append_right _ hx)
  · exact h.points g (hsub g hg)

/-- The event of a function that goes on is with the caller, and no other function was given it. -/
theorem mayUse_of_pop (h : st.Kept) {f : EvFrame} {fs : List EvFrame} (hs : st.stack = f :: fs)
    (hf : f.owner = some e) : ({ st with stack := fs } : EvState).mayUse e = true := by
  have howners : owners st.stack = e :: owners fs := by rw [hs, owners_cons, hf]; rfl
  refine decide_eq_true ⟨h.owner e (by rw [howners]; exact List.mem_cons_self), ?_⟩
  have hn := h.nodup
  rw [howners] at hn
  exact (List.nodup_cons.1 hn).1

end Kept

/-! ### Returning an event -/

section Return

variable (st : EvState) (e : EvId)

theorem stack_doEventReturn : (st.doEventReturn e).stack = st.stack := by
  unfold doEventReturn
  split
  · rfl
  · exact stack_noteIf ..

theorem capacity_doEventReturn (s : ℕ) : ((st.doEventReturn e).sys s).capacity = (st.sys s).capacity := by
  unfold doEventReturn
  split
  · rfl
  · by_cases hs : s = e.sys
    · subst hs
      simp [setSys, setList, EvState.setEv]
    · simp [setSys, setList, EvState.setEv, hs]

theorem postedSends_doEventReturn (s : ℕ) : ((st.doEventReturn e).sys s).postedSends = (st.sys s).postedSends := by
  unfold doEventReturn
  split
  · rfl
  · by_cases hs : s = e.sys
    · subst hs
      simp [setSys, setList, EvState.setEv]
    · simp [setSys, setList, EvState.setEv, hs]

variable {st e} (hr : (st.ev e).req = false)

include hr

theorem lists_doEventReturn :
    (st.doEventReturn e).lists = Function.update st.lists (.freeEvs e.sys) (e :: st.lists (.freeEvs e.sys)) := by
  rw [doEventReturn, if_neg (by rw [hr]; nofun)]
  simp [setSys, setList, EvState.setEv]

theorem numUsedEvs_doEventReturn (s : ℕ) :
    ((st.doEventReturn e).sys s).numUsedEvs = (st.sys s).numUsedEvs - if s = e.sys then 1 else 0 := by
  rw [doEventReturn, if_neg (by rw [hr]; nofun)]
  by_cases hs : s = e.sys
  · subst hs
    simp [setSys, setList, EvState.setEv]
  · simp [setSys, setList, EvState.setEv, hs]

theorem ev_doEventReturn (x : EvId) :
    (st.doEventReturn e).ev x = if x = e then { st.ev e with sent := false } else st.ev x := by
  rw [doEventReturn, if_neg (by rw [hr]; nofun)]
  simp [setSys, setList, EvState.setEv, Function.update_apply]

theorem owed_doEventReturn (x : EvId) :
    (st.doEventReturn e).owed x = if (st.ev e).complete then (st.owed x).erase e else st.owed x := by
  rw [doEventReturn, if_neg (by rw [hr]; nofun)]

theorem faults_doEventReturn (hp : st.inPool e = false) : (st.doEventReturn e).faults = st.faults := by
  rw [doEventReturn, if_neg (by rw [hr]; nofun), hp]
  rfl

end Return

theorem ev_doEventReturn_of_ne {x : EvId} (hx : x ≠ e) : (st.doEventReturn e).ev x = st.ev x := by
  cases hr : (st.ev e).req with
  | true => rw [doEventReturn, if_pos hr]
  | false => rw [ev_doEventReturn hr, if_neg hx]

theorem lists_doEventReturn_of_ne {l : EvList} (hl : l ≠ .freeEvs e.sys) :
    (st.doEventReturn e).lists l = st.lists l := by
  cases hr : (st.ev e).req with
  | true => rw [doEventReturn, if_pos hr]
  | false => rw [lists_doEventReturn hr, Function.update_of_ne hl]

section Leave

variable (st : EvState) (s : ℕ) (e : EvId)

theorem lists_leave : (st.leave s e).lists =
    Function.update st.lists (.ongoingEvents s) ((st.lists (.ongoingEvents s)).erase e) := rfl

theorem capacity_leave (t : ℕ) : ((st.leave s e).sys t).capacity = (st.sys t).capacity := by
  by_cases ht : t = e.sys
  · subst ht
    simp [leave, setSys, unlink, setList]
  · simp [leave, setSys, unlink, setList, ht]

theorem numUsedEvs_leave (t : ℕ) : ((st.leave s e).sys t).numUsedEvs = (st.sys t).numUsedEvs := by
  by_cases ht : t = e.sys
  · subst ht
    simp [leave, setSys, unlink, setList]
  · simp [leave, setSys, unlink, setList, ht]

theorem postedSends_leave (t : ℕ) : ((st.leave s e).sys t).postedSends =
    (st.sys t).postedSends - if t = e.sys ∧ (st.ev e).wasPosted = true then 1 else 0 := by
  by_cases ht : t = e.sys
  · subst ht
    simp [leave, setSys, unlink, setList]
  · simp [leave, setSys, unlink, setList, ht]

theorem ev_leave_of_ne {x e : EvId} (h : x ≠ e) : (st.leave s e).ev x = st.ev x := by
  rw [leave, ev_setEv_of_ne _ h]
  rfl

theorem req_leave : ((st.leave s e).ev e).req = (st.ev e).req := by
  rw [leave, ev_setEv_self]
  rfl

/-- Once taken off, an event whose request was cleared is returned. -/
theorem eventReturn_leave (hr : (st.ev e).req = false) :
    (st.leave s e).eventReturn e = ((st.leave s e).doEventReturn e).unlink .held e := by
  have ho : ((st.leave s e).ev e).isOngoingEvent = false := by rw [leave, ev_setEv_self]
  rw [EvState.eventReturn, if_neg (by rw [ho]; nofun), if_neg (by rw [req_leave, hr]; nofun)]

end Leave

/-- An event on another list is not in the pool. -/
theorem Kept.not_inPool (h : st.Kept) (he : e ∈ st.lists a) (ha : a ≠ .freeEvs e.sys) : st.inPool e = false :=
  decide_eq_false (h.placed.not_mem he ha)

namespace Kept

/-- **An event is taken off a list and returned.** -/
theorem returned (h : st.Kept) (he : e ∈ st.lists a) (ha : ∀ s, a ≠ .freeEvs s) (hown : e ∉ owners st.stack)
    (hpt : ∀ f ∈ st.stack, e ∉ f.pointers)
    (hlists : st'.lists = Function.update (Function.update st.lists a ((st.lists a).erase e)) (.freeEvs e.sys)
      (e :: st.lists (.freeEvs e.sys)))
    (hcap : ∀ s, (st'.sys s).capacity = (st.sys s).capacity)
    (hused : ∀ s, (st'.sys s).numUsedEvs = (st.sys s).numUsedEvs - if s = e.sys then 1 else 0)
    (hfaults : st'.faults = st.faults) (hstack : st'.stack = st.stack) : st'.Kept := by
  refine h.moved he (ha e.sys) ?_ ?_ (fun l hla hlb => ?_) hcap (fun s => ?_) hfaults hstack hown hpt
  · rw [hlists, Function.update_of_ne (ha e.sys), Function.update_self]
  · rw [hlists, Function.update_self]
  · rw [hlists, Function.update_of_ne hlb, Function.update_of_ne hla]
  · have hn := h.numUsed s
    rw [hused, hlists]
    by_cases hs : s = e.sys
    · subst hs
      rw [if_pos rfl, Function.update_self, List.length_cons]
      push_cast
      omega
    · rw [if_neg hs, Function.update_of_ne (by simpa using hs), Function.update_of_ne (ha s).symm]
      omega

/-- An event on another list than that of the ongoing events is at no walk. -/
theorem not_pointed (h : st.Kept) (he : e ∈ st.lists a) (ha : ∀ s, a ≠ .ongoingEvents s) :
    ∀ f ∈ st.stack, e ∉ f.pointers := by
  intro f hf hm
  obtain ⟨s, hs⟩ := (h.points f hf).mem hm
  exact ha s (h.placed.unique he hs)

/-- An event that is not with the caller belongs to no function in progress. -/
theorem not_owned (h : st.Kept) (he : e ∈ st.lists a) (ha : a ≠ .held) : e ∉ owners st.stack :=
  fun hm => ha (h.placed.unique he (h.owner e hm))

/-- A caller returns an event. -/
theorem eventReturn (h : st.Kept) (hu : st.mayUse e = true) : (st.eventReturn e).Kept := by
  obtain ⟨he, hown⟩ := of_decide_eq_true hu
  have hpool := h.not_inPool he nofun
  unfold EvState.eventReturn
  split
  · exact h
  · split
    · exact h
    · rename_i hr
      rw [Bool.not_eq_true] at hr
      refine h.returned he nofun hown (h.not_pointed he nofun) ?_ (capacity_doEventReturn st e)
        (numUsedEvs_doEventReturn hr) (faults_doEventReturn hr hpool) (stack_doEventReturn ..)
      change Function.update (st.doEventReturn e).lists .held _ = _
      rw [lists_doEventReturn hr, Function.update_of_ne (by nofun), Function.update_comm (by nofun)]

/-- A sub-event is returned. -/
theorem dropSub (h : st.Kept) {m : EvId} (he : e ∈ st.lists (.subEvents m)) (hr : (st.ev e).req = false) :
    (st.dropSub m e).Kept := by
  have hr' : (((st.unlink (.subEvents m) e).setEv e fun v => { v with isSubevent := false }).ev e).req = false := by
    rw [ev_setEv_self]
    exact hr
  have hfree : (st.unlink (.subEvents m) e).lists (.freeEvs e.sys) = st.lists (.freeEvs e.sys) :=
    lists_unlink_of_ne st e nofun
  refine h.returned he nofun (h.not_owned he nofun) (h.not_pointed he nofun) ?_ (capacity_doEventReturn _ _)
    (numUsedEvs_doEventReturn hr') (faults_doEventReturn hr' ?_) (stack_doEventReturn ..)
  · apply (lists_doEventReturn hr').trans
    rw [lists_setEv, hfree]
    rfl
  · refine decide_eq_false fun hm => ?_
    rw [lists_setEv, hfree] at hm
    exact absurd (h.placed.unique he hm) nofun

/-- **A walk takes off an event that has completed.** -/
theorem takeOff (h : st.Kept) {s : ℕ} {next : Option EvId} (hr : (st.ev e).req = false)
    (hpt : ∀ f ∈ st.stack, e ∉ f.pointers) (hp : (EvFrame.takeOff s e next).Points st.lists) :
    (st.takeOff s e next).Kept := by
  obtain ⟨he, hnext⟩ := hp
  have hret := eventReturn_leave st s e hr
  have hr' := (req_leave st s e).trans hr
  have hlists : ((st.leave s e).eventReturn e).lists = Function.update (Function.update st.lists (.ongoingEvents s)
      ((st.lists (.ongoingEvents s)).erase e)) (.freeEvs e.sys) (e :: st.lists (.freeEvs e.sys)) := by
    -- the event is not with a caller, so nothing more is taken off
    have hheld : e ∉ ((st.leave s e).doEventReturn e).lists .held := by
      rw [lists_doEventReturn hr', Function.update_of_ne (by nofun), lists_leave, Function.update_of_ne (by nofun)]
      exact h.placed.not_mem he nofun
    rw [hret, unlink_of_not_mem _ hheld, lists_doEventReturn hr', lists_leave,
      Function.update_of_ne (by nofun : EvList.freeEvs e.sys ≠ .ongoingEvents s)]
  have hk : ((st.leave s e).eventReturn e).Kept := by
    refine h.returned he nofun (h.not_owned he nofun) hpt hlists (fun t => ?_) (fun t => ?_) ?_ ?_
    · rw [hret]
      exact (capacity_doEventReturn _ e t).trans (capacity_leave st s e t)
    · rw [hret, ← numUsedEvs_leave st s e t]
      exact numUsedEvs_doEventReturn hr' t
    · rw [hret]
      refine faults_doEventReturn hr' (decide_eq_false ?_)
      rw [lists_leave, Function.update_of_ne (by nofun)]
      exact h.placed.not_mem he nofun
    · rw [hret]
      exact stack_doEventReturn ..
  refine hk.push nofun fun n hn => ?_
  rw [hlists, Function.update_of_ne (by nofun), Function.update_self, List.mem_erase_of_ne (hnext n hn).2]
  exact (hnext n hn).1

/-- **An event that a caller holds is queued.** -/
theorem queued (h : st.Kept) (hu : st.mayUse e = true) (hb : b ≠ .held) (hbf : ∀ s, b ≠ .freeEvs s)
    (hlists : st'.lists = Function.update (Function.update st.lists .held ((st.lists .held).erase e)) b
      (st.lists b ++ [e])) (hsys : st'.sys = st.sys) (hfaults : st'.faults = st.faults)
    (hstack : st'.stack = st.stack) : st'.Kept := by
  obtain ⟨he, hown⟩ := of_decide_eq_true hu
  refine h.moved he hb.symm ?_ ?_ (fun l hla hlb => ?_) (fun s => by rw [hsys]) (fun s => ?_) hfaults hstack hown
    (h.not_pointed he nofun)
  · rw [hlists, Function.update_of_ne hb.symm, Function.update_self]
  · rw [hlists, Function.update_self]
    exact List.perm_append_singleton e _
  · rw [hlists, Function.update_of_ne hlb, Function.update_of_ne hla]
  · rw [hsys, hlists, Function.update_of_ne (hbf s).symm, Function.update_of_ne (by nofun)]
    exact h.numUsed s

theorem queueEvent (h : st.Kept) (hu : st.mayUse e = true) : (st.queueEvent e).Kept := by
  have hpool := h.not_inPool (of_decide_eq_true hu).1 nofun
  unfold EvState.queueEvent
  split
  · exact h
  · split
    · exact h
    · rw [hpool]
      refine h.queued hu (b := .ongoingEvents e.sys) nofun nofun ?_ rfl rfl rfl
      change Function.update (st.unlink .held e).lists (.ongoingEvents e.sys)
        ((st.unlink .held e).lists (.ongoingEvents e.sys) ++ [e]) = _
      rw [lists_unlink_of_ne st e (by nofun : EvList.ongoingEvents e.sys ≠ .held)]
      rfl

theorem queueSubevent (h : st.Kept) (m : EvId) (hu : st.mayUse e = true) : (st.queueSubevent m e).Kept := by
  have hpool := h.not_inPool (of_decide_eq_true hu).1 nofun
  unfold EvState.queueSubevent
  rw [hpool]
  refine h.queued hu (b := .subEvents m) nofun nofun ?_ rfl rfl rfl
  change Function.update (st.unlink .held e).lists (.subEvents m)
    ((st.unlink .held e).lists (.subEvents m) ++ [e]) = _
  rw [lists_unlink_of_ne st e (by nofun : EvList.subEvents m ≠ .held)]
  rfl

/-- An event completes; the application may be called. -/
theorem completeEvent (h : st.Kept) (e : EvId) : (st.completeEvent e).Kept := by
  unfold EvState.completeEvent
  split
  · refine push_callback (setEv ?_ _ _)
    unfold noteIf
    split
    · have hmem : ∀ y, (∀ m, y ≠ .early m) → y ∉ st.faults → y ∉ st.faults ++ [.early e] := by
        intro y hy hn hm
        rcases List.mem_append.1 hm with hm | hm
        · exact hn hm
        · exact hy e (List.mem_singleton.1 hm)
      refine ⟨h.placed, h.numUsed, fun x => ?_, h.nodup, h.owner, h.points⟩
      obtain ⟨htwice, hret, hnull⟩ := h.once x
      exact ⟨hmem _ nofun htwice, hmem _ nofun hret, hmem _ nofun hnull⟩
    · exact h
  · exact h.setEv e _

/-- The counter of the posted sends does not matter. -/
theorem setSys (h : st.Kept) (s : ℕ) (f : EvSys → EvSys) (hcap : ∀ y, (f y).capacity = y.capacity)
    (hused : ∀ y, (f y).numUsedEvs = y.numUsedEvs) : (st.setSys s f).Kept := by
  have hsys : ∀ t, ((st.setSys s f).sys t).capacity = (st.sys t).capacity ∧
      ((st.setSys s f).sys t).numUsedEvs = (st.sys t).numUsedEvs := by
    intro t
    by_cases ht : t = s
    · subst ht
      simp [EvState.setSys, hcap, hused]
    · simp [EvState.setSys, ht]
  refine ⟨?_, fun t => ?_, h.once, h.nodup, h.owner, h.points⟩
  · have hS : {x | (st.setSys s f).Allocated x} = {x | st.Allocated x} := by
      ext x
      rw [Set.mem_ofPred_eq, Set.mem_ofPred_eq, Allocated, (hsys x.sys).1]
      rfl
    rw [hS]
    exact h.placed
  · rw [(hsys t).1, (hsys t).2]
    exact h.numUsed t

theorem doAmSendEventMsg (h : st.Kept) (e : EvId) (now : Bool) : (st.doAmSendEventMsg e now).Kept := by
  unfold EvState.doAmSendEventMsg
  split
  · exact h.setEv e _
  · refine setEv (h.setSys e.sys _ ?_ ?_) e _ <;> exact fun _ => rfl

end Kept

theorem lists_doAmSendEventMsg (now : Bool) : (st.doAmSendEventMsg e now).lists = st.lists := by
  unfold doAmSendEventMsg
  split <;> rfl

theorem mayUse_doAmSendEventMsg (now : Bool) (x : EvId) : (st.doAmSendEventMsg e now).mayUse x = st.mayUse x := by
  unfold doAmSendEventMsg
  split <;> rfl

namespace Kept

theorem amSendEventMsg (h : st.Kept) (hu : st.mayUse e = true) (now : Bool) : (st.amSendEventMsg e now).Kept := by
  have hk := h.doAmSendEventMsg e now
  have hu' : (st.doAmSendEventMsg e now).mayUse e = true := (mayUse_doAmSendEventMsg now e).trans hu
  unfold EvState.amSendEventMsg
  dsimp only
  split
  · split
    · refine completeEvent (hk.push (f := .queue e) ?_ trivial) e
      rintro x ⟨⟩
      exact hu'
    · exact hk.eventReturn hu'
  · exact hk.queueEvent hu'

theorem eventChannelEmit (h : st.Kept) (hu : st.mayUse e = true) (self now : Bool) :
    (st.eventChannelEmit e self now).Kept := by
  unfold EvState.eventChannelEmit
  dsimp only
  split
  · have hk := h.setEv e fun v => { v with complete := false, isMeta := false }
    have hret : ((st.setEv e fun v => { v with complete := false, isMeta := false }).push [.ret e]).Kept := by
      refine hk.push ?_ trivial
      rintro x ⟨⟩
      exact hu
    exact hret.push_callback
  · exact (h.setEv e _).amSendEventMsg hu now

end Kept

/-- A sub-event whose send was posted is not an ongoing event. -/
theorem amSendEventMsg_sub (hs : (st.ev e).isSubevent = true) :
    st.amSendEventMsg e false = st.doAmSendEventMsg e false := by
  have hs' : ((st.doAmSendEventMsg e false).ev e).isSubevent = true := by
    rw [doAmSendEventMsg, if_neg (by nofun), ev_setEv_self]
    exact hs
  rw [amSendEventMsg, if_neg (by nofun), queueEvent, if_pos hs', ite_self]

namespace Kept

theorem emitSubevent (h : st.Kept) {m : EvId} {now tested : Bool} (hu : st.mayUse e = true)
    (ht : now = true → tested = true) : (st.emitSubevent m e now tested).Kept := by
  unfold EvState.emitSubevent
  dsimp only
  generalize hst₁ : (st.setEv e fun v => { v with isSubevent := true, complete := false, isMeta := false }) = st₁
  have hk : st₁.Kept := hst₁ ▸ h.setEv e _
  have hu₁ : st₁.mayUse e = true := hst₁ ▸ hu
  cases now with
  | true =>
    rw [if_pos rfl, ht rfl]
    exact hk.amSendEventMsg hu₁ true
  | false =>
    have hs : (st₁.ev e).isSubevent = true := by rw [← hst₁, ev_setEv_self]
    rw [if_neg (by nofun), amSendEventMsg_sub hs]
    exact (hk.doAmSendEventMsg e false).queueSubevent m ((mayUse_doAmSendEventMsg false e).trans hu₁)

theorem progressEcontextSends (h : st.Kept) (s : ℕ) : (st.progressEcontextSends s).Kept :=
  h.push nofun fun _ he => List.mem_of_mem_head? he

end Kept

/-! ### The sub-events of a meta-event -/

theorem ev_dropSub_of_ne {m x : EvId} (hx : x ≠ e) : (st.dropSub m e).ev x = st.ev x := by
  rw [dropSub, ev_doEventReturn_of_ne hx, ev_setEv_of_ne _ hx]
  rfl

theorem stack_dropSub (m : EvId) : (st.dropSub m e).stack = st.stack := stack_doEventReturn ..

/-- The other lists stay, but for the pool. -/
theorem lists_dropSub {m : EvId} {l : EvList} (hl : l ≠ .subEvents m) (hf : l ≠ .freeEvs e.sys) :
    (st.dropSub m e).lists l = st.lists l := by
  rw [dropSub, lists_doEventReturn_of_ne hf, lists_setEv, lists_unlink_of_ne st e hl]

theorem lists_dropSub_self (m : EvId) : (st.dropSub m e).lists (.subEvents m) = (st.lists (.subEvents m)).erase e := by
  rw [dropSub, lists_doEventReturn_of_ne (by nofun), lists_setEv, lists_unlink_self]

/-- **The rule for the sub-events**: what is kept by returning a sub-event that has completed and of which `Q`
holds is kept by the loop, if `Q` holds of all those that have completed. -/
theorem dropSubs_keeps {J : EvState → Prop} {Q : Ev → Prop} {m : EvId}
    (hJ : ∀ st e, J st → e ∈ st.lists (.subEvents m) → (st.ev e).complete = true → Q (st.ev e) → J (st.dropSub m e))
    (hs : J st) (hnodup : (st.lists (.subEvents m)).Nodup)
    (hQ : ∀ e ∈ st.lists (.subEvents m), (st.ev e).complete = true → Q (st.ev e)) : J (st.dropSubs m) := by
  have hloop : ∀ (es : List EvId) (st : EvState), J st → es.Nodup → (∀ e ∈ es, e ∈ st.lists (.subEvents m)) →
      (∀ e ∈ es, (st.ev e).complete = true → Q (st.ev e)) →
      J (es.foldl (fun st e => if (st.ev e).complete then st.dropSub m e else st) st) := by
    intro es
    induction es with
    | nil => exact fun st hs _ _ _ => hs
    | cons e es ih =>
      intro st hs hn hmem hQ
      obtain ⟨hne, hn⟩ := List.nodup_cons.1 hn
      have hes : ∀ x ∈ es, x ≠ e := fun x hx hxe => hne (hxe ▸ hx)
      rw [List.foldl_cons]
      split
      · rename_i hc
        refine ih _ (hJ st e hs (hmem e List.mem_cons_self) hc (hQ e List.mem_cons_self hc)) hn
          (fun x hx => ?_) fun x hx => ?_
        · rw [lists_dropSub_self, List.mem_erase_of_ne (hes x hx)]
          exact hmem x (List.mem_cons_of_mem _ hx)
        · rw [ev_dropSub_of_ne (hes x hx)]
          exact hQ x (List.mem_cons_of_mem _ hx)
      · exact ih st hs hn (fun x hx => hmem x (List.mem_cons_of_mem _ hx)) fun x hx => hQ x (List.mem_cons_of_mem _ hx)
  exact hloop _ st hs hnodup (fun _ he => he) hQ

/-- Only pools and lists of sub-events have changed. -/
structure Around (st st' : EvState) : Prop where
  /-- The stack. -/
  stack : st'.stack = st.stack
  /-- What callers hold. -/
  held : st'.lists .held = st.lists .held
  /-- The ongoing events. -/
  ongoing : ∀ s, st'.lists (.ongoingEvents s) = st.lists (.ongoingEvents s)

theorem Around.refl (st : EvState) : st.Around st := ⟨rfl, rfl, fun _ => rfl⟩

theorem Around.dropSub {st₀ : EvState} (h : st₀.Around st) (m : EvId) : st₀.Around (st.dropSub m e) where
  stack := (stack_dropSub m).trans h.stack
  held := by
    rw [lists_dropSub (by nofun) (by nofun)]
    exact h.held
  ongoing s := by
    rw [lists_dropSub (by nofun) (by nofun)]
    exact h.ongoing s

theorem Around.mayUse (h : st.Around st') (e : EvId) : st'.mayUse e = st.mayUse e := by
  rw [EvState.mayUse, EvState.mayUse, h.stack, h.held]

theorem Around.points (h : st.Around st') {f : EvFrame} (hf : f.Points st.lists) : f.Points st'.lists := by
  refine hf.mono fun s e _ he => ?_
  rw [h.ongoing]
  exact he

namespace Kept

/-- The sub-events that have completed are returned. -/
theorem dropSubs (h : st.Kept) {m : EvId}
    (hQ : ∀ e ∈ st.lists (.subEvents m), (st.ev e).complete = true → (st.ev e).req = false) :
    (st.dropSubs m).Kept ∧ st.Around (st.dropSubs m) := by
  refine dropSubs_keeps (J := fun st₁ => st₁.Kept ∧ st.Around st₁) (Q := (·.req = false)) ?_ ⟨h, .refl st⟩
    (h.placed.nodup _) hQ
  intro st₁ e hs he _ hr
  exact ⟨hs.1.dropSub he hr, hs.2.dropSub m⟩

/-- **An event is polled**, and what the caller does next if it has completed can be done. -/
theorem eventCompleted (h : st.Kept) {k : List EvFrame} (hQ : st.SubsAre (·.req = false) e)
    (hnext : ∀ st₁ : EvState, st₁.Kept → st.Around st₁ → (st₁.push k).Kept) :
    (st.eventCompleted e k).1.Kept ∧
      ((st.eventCompleted e k).2 = false → st.Around (st.eventCompleted e k).1) := by
  unfold EvState.eventCompleted
  split
  · rename_i hm
    obtain ⟨hk, ha⟩ := h.dropSubs (hQ hm)
    dsimp only
    split
    · exact ⟨(hnext _ hk ha).completeEvent e, nofun⟩
    · exact ⟨hk, fun _ => ha⟩
  · split
    · exact ⟨(hnext st h (.refl st)).completeEvent e, nofun⟩
    · exact ⟨h, fun _ => .refl st⟩

/-- What the caller does next is to return the event. -/
theorem push_ret (h : st.Kept) (hu : st.mayUse e = true) : (st.push [.ret e]).Kept := by
  refine h.push ?_ trivial
  rintro x ⟨⟩
  exact hu

end Kept

/-- The event after an event on a list without repetitions is another one of the list. -/
theorem mem_nextOn {l : List EvId} (hl : l.Nodup) (he : e ∈ l) : ∀ n ∈ nextOn l e, n ∈ l ∧ n ≠ e := by
  intro n hn
  have hn' : l[l.idxOf e + 1]? = some n := hn
  refine ⟨List.mem_of_getElem? hn', ?_⟩
  rintro rfl
  obtain ⟨hlt, hget⟩ := List.getElem?_eq_some_iff.1 hn'
  have hidx := hl.idxOf_getElem _ hlt
  rw [hget] at hidx
  omega

namespace Kept

/-- **A walk comes to an event.** -/
theorem visit (h : st.Kept) {s : ℕ} (he : e ∈ st.lists (.ongoingEvents s)) (hQ : st.SubsAre (·.req = false) e)
    (now : Bool) : (st.visit s e now).Kept := by
  have hnext := mem_nextOn (h.placed.nodup _) he
  have hwalk : (EvFrame.walk s (nextOn (st.lists (.ongoingEvents s)) e)).Points st.lists := fun n hn => (hnext n hn).1
  obtain ⟨hk, har⟩ := h.eventCompleted (k := [.takeOff s e (nextOn (st.lists (.ongoingEvents s)) e)]) hQ
    fun st₁ hk₁ ha => hk₁.push nofun (ha.points ⟨he, hnext⟩)
  rcases visit_cases st s e now with ⟨-, heq⟩ | ⟨-, -, -, heq⟩ | ⟨hd, heq⟩
  · rw [heq]
    exact hk
  · rw [heq]
    refine (h.doAmSendEventMsg e now).push nofun ?_
    rwa [lists_doAmSendEventMsg]
  · rw [heq]
    exact hk.push nofun ((har hd).points hwalk)

/-- A pool grows. -/
theorem growDynList (h : st.Kept) (s : ℕ) : (st.growDynList s).Kept := by
  have hsys : ∀ t, (st.growDynList s).sys t =
      if t = s then { st.sys s with capacity := (st.sys s).capacity + defaultNumEvts } else st.sys t :=
    fun t => Function.update_apply ..
  have hlists : ∀ l, (st.growDynList s).lists l =
      if l = .freeEvs s then newEvents s (st.sys s).capacity ++ st.lists (.freeEvs s) else st.lists l :=
    fun l => Function.update_apply ..
  have hmem : ∀ x, x ∈ newEvents s (st.sys s).capacity ↔
      x.sys = s ∧ (st.sys s).capacity ≤ x.num ∧ x.num < (st.sys s).capacity + defaultNumEvts := by
    intro x
    rw [newEvents, List.mem_reverse, List.mem_map]
    constructor
    · rintro ⟨i, hi, rfl⟩
      have := List.mem_range.1 hi
      exact ⟨rfl, Nat.le_add_right _ _, Nat.add_lt_add_left this _⟩
    · rintro ⟨rfl, hle, hlt⟩
      refine ⟨x.num - (st.sys x.sys).capacity, List.mem_range.2 (by omega), ?_⟩
      rw [Nat.add_sub_cancel' hle]
  refine ⟨?_, fun t => ?_, h.once, h.nodup, fun x hx => ?_, fun f hf => ?_⟩
  · refine h.placed.extend (n := newEvents s (st.sys s).capacity) (b := .freeEvs s) ?_ (fun x hx => ?_) (fun x => ?_) ?_
      fun l hl => ?_
    · refine List.nodup_reverse.2 (List.nodup_range.map fun i j hij => ?_)
      exact Nat.add_left_cancel (EvId.mk.inj hij).2
    · obtain ⟨rfl, hle, -⟩ := (hmem x).1 hx
      exact Nat.not_lt.2 hle
    · rw [Set.mem_ofPred_eq, Set.mem_ofPred_eq, hmem, Allocated, Allocated, hsys]
      by_cases hx : x.sys = s
      · subst hx
        rw [if_pos rfl]
        change x.num < (st.sys x.sys).capacity + defaultNumEvts ↔ _
        constructor
        · intro hlt
          rcases Nat.lt_or_ge x.num (st.sys x.sys).capacity with h' | h'
          · exact .inr h'
          · exact .inl ⟨rfl, h', hlt⟩
        · rintro (⟨-, -, hlt⟩ | hlt)
          · exact hlt
          · exact Nat.lt_add_right _ hlt
      · simp [hx]
    · rw [hlists, if_pos rfl]
    · rw [hlists, if_neg hl]
  · have hn := h.numUsed t
    rw [hsys, hlists]
    by_cases ht : t = s
    · subst ht
      rw [if_pos rfl, if_pos rfl, List.length_append]
      have hlen : (newEvents t (st.sys t).capacity).length = defaultNumEvts := by simp [newEvents]
      rw [hlen]
      push_cast
      omega
    · rw [if_neg ht, if_neg (by simpa using ht)]
      exact hn
  · rw [hlists, if_neg (by nofun)]
    exact h.owner x hx
  · refine (h.points f hf).mono fun t x _ hx => ?_
    rw [hlists, if_neg (by nofun)]
    exact hx

/-- **An event is taken from the pool.** -/
theorem eventGet (h : st.Kept) (s : ℕ) (isMeta expl cb : Bool) : (st.eventGet s isMeta expl cb).Kept := by
  unfold EvState.eventGet
  dsimp only
  generalize hst₁ : (if st.lists (.freeEvs s) = [] then st.growDynList s else st) = st₁
  have hk : st₁.Kept := by
    rw [← hst₁]
    split
    · exact h.growDynList s
    · exact h
  split
  · exact hk
  · rename_i e es he
    have hmem : e ∈ st₁.lists (.freeEvs s) := by
      rw [he]
      exact List.mem_cons_self
    refine setEv ?_ e _
    refine hk.moved hmem (b := .held) nofun ?_ ?_ (fun l hla hlb => ?_) (fun t => ?_) (fun t => ?_) rfl rfl
      (hk.not_owned hmem nofun) (hk.not_pointed hmem nofun)
    · simp only [EvState.setSys, setList]
      rw [Function.update_of_ne (by nofun), Function.update_self, he, List.erase_cons_head]
    · simp only [EvState.setSys, setList]
      rw [Function.update_self]
      exact List.perm_append_singleton e _
    · simp only [EvState.setSys, setList]
      rw [Function.update_of_ne hlb, Function.update_of_ne hla]
    · by_cases ht : t = s
      · subst ht
        simp [EvState.setSys, setList]
      · simp [EvState.setSys, setList, ht]
    · have hn := hk.numUsed t
      by_cases ht : t = s
      · subst ht
        rw [he, List.length_cons] at hn
        simp only [EvState.setSys, setList, Function.update_self]
        rw [Function.update_of_ne (by nofun), Function.update_self]
        push_cast at hn ⊢
        omega
      · have hts : EvList.freeEvs t ≠ .freeEvs s := fun hl => ht (EvList.freeEvs.inj hl)
        simp only [EvState.setSys, setList]
        rw [Function.update_of_ne ht, Function.update_of_ne (by nofun), Function.update_of_ne hts]
        exact hn

/-- The library goes on. -/
theorem resume (h : st.Kept) {f : EvFrame} {fs : List EvFrame} {now : Bool} (hs : st.stack = f :: fs)
    (ha : st.Safe (.run now)) : ({ st with stack := fs }.resume now f).Kept := by
  have hp := h.pop hs
  have hf : f.Points st.lists := h.points f (by rw [hs]; exact List.mem_cons_self)
  have hown : ∀ e, f.owner = some e → ({ st with stack := fs } : EvState).mayUse e = true :=
    fun e he => h.mayUse_of_pop hs he
  rw [Safe, hs] at ha
  cases f with
  | callback => exact hp
  | walk s ev =>
    cases ev with
    | none => exact hp
    | some e => exact hp.visit (hf e rfl) ha now
  | takeOff s e next => exact hp.takeOff ha.1 ha.2 hf
  | emit e self => exact hp.eventChannelEmit (hown e rfl) self now
  | queue e => exact hp.queueEvent (hown e rfl)
  | ret e => exact hp.eventReturn (hown e rfl)
  | freeReq e => exact hp.setEv e fun v => { v with req := false }

/-- A step of the application. -/
theorem user (h : st.Kept) {a : EvAct} (ha : st.Safe a) (hs : st.UserStep a st') : st'.Kept := by
  cases hs with
  | get s isMeta expl cb => exact h.eventGet s isMeta expl cb
  | emit e self hu hf =>
    refine progressEcontextSends (h.push (f := .emit e self) ?_ trivial) e.sys
    rintro x ⟨⟩
    exact hu
  | emitSub m e now tested hm hmeta hu hf hexpl hne => exact h.emitSubevent hu ha
  | finish m hu hmeta hd => exact (h.eventCompleted ha fun st₁ hk₁ har => hk₁.push_ret ((har.mayUse m).trans hu)).1
  | queue m hu hmeta hd =>
    obtain ⟨hk, har⟩ := h.eventCompleted (k := [.ret m]) ha fun st₁ hk₁ har => hk₁.push_ret ((har.mayUse m).trans hu)
    exact hk.queueEvent (((har hd).mayUse m).trans hu)
  | poll e hu => exact (h.eventCompleted ha fun st₁ hk₁ har => hk₁.push_ret ((har.mayUse e).trans hu)).1
  | ret e hu => exact h.eventReturn hu
  | completeRet e hu hr hs => exact (h.push_ret hu).completeEvent e
  | completed e ha' hp => exact (h.eventCompleted (k := []) ha fun st₁ hk₁ _ => hk₁).1
  | progress s => exact h.progressEcontextSends s
  | sendDone e hr hc => exact (h.push (f := .freeReq e) nofun trivial).completeEvent e

end Kept

/-- **Every step that is safe.** -/
theorem Kept.step (h : st.Kept) {a : EvAct} (ha : st.Safe a) (hs : evStep st a = some st') : st'.Kept := by
  rcases step_cases hs with ⟨now, f, fs, rfl, hst, -, rfl⟩ | ⟨fs, -, hst, rfl⟩ | ⟨-, hu⟩
  · exact h.resume hst ha
  · exact h.pop hst
  · exact h.user ha hu

theorem kept_start : start.Kept := by
  have hmem : ∀ l x, x ∈ start.lists l ↔ start.Allocated x ∧ l = .freeEvs x.sys := by
    intro l x
    cases l with
    | freeEvs s =>
      change x ∈ newEvents s 0 ↔ x.num < defaultNumEvts ∧ _
      rw [newEvents, List.mem_reverse, List.mem_map]
      constructor
      · rintro ⟨i, hi, rfl⟩
        exact ⟨by rw [Nat.zero_add]; exact List.mem_range.1 hi, rfl⟩
      · rintro ⟨hlt, hl⟩
        cases hl
        exact ⟨x.num, List.mem_range.2 hlt, by rw [Nat.zero_add]⟩
    | ongoingEvents s | subEvents m | held =>
      exact ⟨fun hx => absurd hx List.not_mem_nil, fun hx => absurd hx.2 nofun⟩
  refine ⟨⟨fun l => ?_, fun l x hx => ((hmem l x).1 hx).1, fun x hx => ?_⟩, fun s => ?_, fun e => ?_, List.nodup_nil,
    fun e he => absurd he List.not_mem_nil, fun f hf => absurd hf List.not_mem_nil⟩
  · cases l with
    | freeEvs s =>
      refine List.nodup_reverse.2 (List.nodup_range.map fun i j hij => ?_)
      exact Nat.add_left_cancel (EvId.mk.inj hij).2
    | ongoingEvents s | subEvents m | held => exact List.nodup_nil
  · exact ⟨.freeEvs x.sys, (hmem _ x).2 ⟨hx, rfl⟩, fun l hl => ((hmem l x).1 hl).2⟩
  · change 0 + ((newEvents s 0).length : ℤ) = _
    simp [newEvents]
    rfl
  · exact ⟨List.not_mem_nil, List.not_mem_nil, List.not_mem_nil⟩

end EvState

/-- **Every event is in one place**: in the pool, on the list of ongoing events, on the list of one meta-event, or
with a caller. In every run in which no event is taken off its list while its callback runs or a walk further out
is at it, and none is queued that was returned. -/
theorem event_lifecycle {st : EvState} (h : Reach evStep EvState.Safe EvState.start st) : st.Lifecycle := by
  refine EvState.Kept.lifecycle (h.invariant EvState.kept_start ?_)
  intro st a st' hk ha hs
  exact hk.step ha hs

/-- An event and a meta-event with a sub-event, all sent later. In the callback of the first an event of another
system is emitted; then a walk takes the two off. -/
def eventActs : List EvAct :=
  [.get 0 false false true, .emit ⟨0, 31⟩ false, .run true, .run false,
    .get 0 true false true, .get 0 false false false, .emitSub ⟨0, 30⟩ ⟨0, 29⟩ false true, .finish ⟨0, 30⟩,
    .sendDone ⟨0, 29⟩, .run true, .sendDone ⟨0, 31⟩,
    .get 1 false false false, .emit ⟨1, 31⟩ false, .run true, .run true, .cbReturn, .run true,
    .progress 0, .run true, .run true, .run true, .cbReturn, .run true, .run true]

theorem event_lifecycle_nested : ∃ st : EvState, Reach evStep EvState.Safe EvState.start st ∧
    (st.stack = [] ∧ (st.sys 0).numUsedEvs = 0 ∧ (st.ev ⟨0, 30⟩).calls = 1) ∧ st.Lifecycle := by
  have hrun : ∃ st : EvState, Reach evStep EvState.Safe EvState.start st ∧
      (st.stack = [] ∧ (st.sys 0).numUsedEvs = 0 ∧ (st.ev ⟨0, 30⟩).calls = 1) :=
    exists_reach_of_exec eventActs (by decide)
  obtain ⟨st, hst, hend⟩ := hrun
  exact ⟨st, hst, hend, event_lifecycle hst⟩

/-- An event is sent later; its callback emits another event, and the emission progresses the sends. -/
def lostActs : List EvAct :=
  [.get 0 false false true, .emit ⟨0, 31⟩ false, .run true, .run false, .sendDone ⟨0, 31⟩,
    .get 0 false false false, .emit ⟨0, 30⟩ false, .run true, .run true, .run true, .run true, .cbReturn, .run true]

/-- The first event is then on no list. -/
theorem exec_lostActs (l : EvList) :
    (exec evStep (fun _ _ => True) lostActs EvState.start).any (fun st => decide (⟨0, 31⟩ ∈ st.lists l)) = false := by
  rcases l with (_ | s) | (_ | s) | m | _ <;> rfl

/-- **Not in every run**: the walk takes the first event off its list and does not return it, as its request is
still set. -/
theorem event_lost : ¬ ∀ st : EvState, Reach evStep (fun _ _ => True) EvState.start st → st.Lifecycle := by
  intro h
  have hend : (exec evStep (fun _ _ => True) lostActs EvState.start).any (fun st => decide (st.Allocated ⟨0, 31⟩)) =
      true := by decide
  obtain ⟨st, hst, halloc⟩ := (Option.any_eq_true ..).1 hend
  obtain ⟨l, hl, -⟩ := (h st (reach_of_exec hst)).place _ (of_decide_eq_true halloc)
  have hnone := (Option.any_eq_false ..).1 (exec_lostActs l) st hst
  exact of_decide_eq_false hnone hl

/-- Where the pointer is not tested, a sub-event that is sent right away is queued as null. -/
example : ¬ EvState.start.Safe (.emitSub ⟨0, 31⟩ ⟨0, 30⟩ true false) ∧
    (exec evStep (fun _ _ => True) [.get 0 true false false, .get 0 false false false,
      .emitSub ⟨0, 31⟩ ⟨0, 30⟩ true false] EvState.start).any
        (fun st => decide (.queuedNull ⟨0, 31⟩ ∈ st.faults ∧ ⟨0, 30⟩ ∈ st.lists (.freeEvs 0))) = true := by
  decide

end DpuOffload
