import DpuOffload.Lib.Transition
import Mathlib.Data.Int.Order.Basic
import Mathlib.Logic.Function.Basic

/-!
# The events of an event system

An event object comes from the pool of its event system (`event_get`), is emitted, and goes
back to the pool (`event_return`). Until its send completes it is on the list of ongoing events
of its execution context, or, as a sub-event, on the list of a meta-event; an event with
`explicit_return` stays with the caller. `progress_econtext_sends` walks the ongoing events,
takes off those that have completed and returns them, and so does `event_completed` with the
sub-events of a meta-event. The sends are active messages, and assertions are off, as by
default.

Completion callbacks are pieces of the application, and may themselves get, emit, poll and
return events. So the system is taken step by step, with a stack of what the library is in the
middle of; a step of the application is possible when nothing is on the stack or a callback is
on top. A walk is on the stack as `ucs_list_for_each_safe` has it: with the event it has read
ahead. The counters are integers, where those of the source would wrap around below zero.

Which lists an event is on, which callbacks ran and what was returned is what the results are
about; the fields `calls`, `sent`, `owed` and `faults` record it.
-/

namespace DpuOffload

open Transition

/-- An event object: its event system, and its number there. -/
structure EvId where
  /-- The event system. -/
  sys : ℕ
  /-- The number. -/
  num : ℕ
  deriving DecidableEq, Repr

/-- `dpu_offload_event_t`. -/
structure Ev where
  /-- Is the type `META_EVENT_TYPE`? -/
  isMeta : Bool
  /-- `ctx.complete`. -/
  complete : Bool
  /-- Is `ctx.completion_cb` set? -/
  completionCb : Bool
  /-- Is `req` set? -/
  req : Bool
  /-- `was_posted`. -/
  wasPosted : Bool
  /-- `explicit_return`. -/
  explicitReturn : Bool
  /-- `is_subevent`. -/
  isSubevent : Bool
  /-- `is_ongoing_event`. -/
  isOngoingEvent : Bool
  /-- How often the callback was invoked since `event_get`. -/
  calls : ℕ
  /-- Was the send posted since `event_get`, and the event not returned? -/
  sent : Bool
  deriving DecidableEq, Repr

/-- `RESET_EVENT`. -/
def Ev.reset : Ev where
  isMeta := false
  complete := false
  completionCb := false
  req := false
  wasPosted := false
  explicitReturn := false
  isSubevent := false
  isOngoingEvent := false
  calls := 0
  sent := false

/-- The lists an event may be on. -/
inductive EvList where
  /-- `free_evs`: the pool of an event system. -/
  | freeEvs (s : ℕ)
  /-- `ongoing_events`, of the execution context of an event system. -/
  | ongoingEvents (s : ℕ)
  /-- `sub_events`. -/
  | subEvents (m : EvId)
  /-- The events callers hold. -/
  | held
  deriving DecidableEq, Repr

/-- `dpu_offload_ev_sys_t`. -/
structure EvSys where
  /-- `num_used_evs`. -/
  numUsedEvs : ℤ
  /-- `posted_sends`. -/
  postedSends : ℤ
  /-- `free_evs->capacity`. -/
  capacity : ℕ
  deriving DecidableEq, Repr

/-- What should not happen. -/
inductive EvFault where
  /-- An event in the pool is returned. -/
  | returnedTwice (e : EvId)
  /-- An event in the pool is queued. -/
  | queuedReturned (e : EvId)
  /-- A sub-event that was returned is queued: its pointer is null. -/
  | queuedNull (m : EvId)
  /-- The callback of a meta-event is invoked before a sub-event has completed and been returned. -/
  | early (m : EvId)
  deriving DecidableEq, Repr

/-- What the library is in the middle of. -/
inductive EvFrame where
  /-- The application runs, in a callback. -/
  | callback
  /-- A walk of the ongoing events comes to an event, or to the end. -/
  | walk (s : ℕ) (ev : Option EvId)
  /-- A walk is about to take off an event that has completed. -/
  | takeOff (s : ℕ) (ev : EvId) (next : Option EvId)
  /-- An emission, once the sends were progressed; to the process itself or not. -/
  | emit (e : EvId) (self : Bool)
  /-- An emission, before `QUEUE_EVENT`. -/
  | queue (e : EvId)
  /-- Before `event_return`. -/
  | ret (e : EvId)
  /-- `notification_emit_cb`, after `COMPLETE_EVENT`. -/
  | freeReq (e : EvId)
  deriving DecidableEq, Repr

/-- The event systems of a process. -/
structure EvState where
  /-- The event objects. -/
  ev : EvId → Ev
  /-- The event systems. -/
  sys : ℕ → EvSys
  /-- The lists. -/
  lists : EvList → List EvId
  /-- The sub-events queued on an event that have not completed and been returned. -/
  owed : EvId → List EvId
  /-- What the library is in the middle of, the innermost first. -/
  stack : List EvFrame
  /-- What happened and should not. -/
  faults : List EvFault

/-- `DEFAULT_NUM_EVTS`. -/
def defaultNumEvts : ℕ := 32

/-- `MAX_POSTED_SENDS`. -/
def maxPostedSends : ℤ := 8

/-- The objects a pool gets when it grows, the last one first. -/
def newEvents (s capacity : ℕ) : List EvId := ((List.range defaultNumEvts).map fun i => ⟨s, capacity + i⟩).reverse

/-- The event after an event on a list. -/
def nextOn (l : List EvId) (e : EvId) : Option EvId := l[l.idxOf e + 1]?

namespace EvState

/-- `event_channels_init`. -/
def start : EvState where
  ev _ := .reset
  sys _ := ⟨0, 0, defaultNumEvts⟩
  lists
    | .freeEvs s => newEvents s 0
    | _ => []
  owed _ := []
  stack := []
  faults := []

variable (st : EvState)

/-- Change an event object. -/
def setEv (e : EvId) (f : Ev → Ev) : EvState := { st with ev := Function.update st.ev e (f (st.ev e)) }

/-- Change an event system. -/
def setSys (s : ℕ) (f : EvSys → EvSys) : EvState := { st with sys := Function.update st.sys s (f (st.sys s)) }

/-- Change a list. -/
def setList (l : EvList) (es : List EvId) : EvState := { st with lists := Function.update st.lists l es }

/-- `ucs_list_del`. -/
def unlink (l : EvList) (e : EvId) : EvState := st.setList l ((st.lists l).erase e)

/-- Something is to be done next. -/
def push (fs : List EvFrame) : EvState := { st with stack := fs ++ st.stack }

/-- Is the event in its pool? -/
def inPool (e : EvId) : Bool := e ∈ st.lists (.freeEvs e.sys)

/-- Note that something happened that should not. -/
def noteIf (b : Bool) (x : EvFault) : EvState := if b then { st with faults := st.faults ++ [x] } else st

/-- `GROW_DYN_LIST`. -/
def growDynList (s : ℕ) : EvState :=
  (st.setList (.freeEvs s) (newEvents s (st.sys s).capacity ++ st.lists (.freeEvs s))).setSys s fun y =>
    { y with capacity := y.capacity + defaultNumEvts }

/-- `event_get`: the first event of the pool, which grows when it is empty. The caller says whether it is a
meta-event and sets the callback. -/
def eventGet (s : ℕ) (isMeta explicitReturn completionCb : Bool) : EvState :=
  let st := if st.lists (.freeEvs s) = [] then st.growDynList s else st
  match st.lists (.freeEvs s) with
  | [] => st
  | e :: es =>
    (((st.setList (.freeEvs s) es).setList .held (st.lists .held ++ [e])).setSys s fun y =>
      { y with numUsedEvs := y.numUsedEvs + 1 }).setEv e fun _ =>
        { Ev.reset with isMeta := isMeta, explicitReturn := explicitReturn, completionCb := completionCb }

/-- `do_event_return`. -/
def doEventReturn (e : EvId) : EvState :=
  if (st.ev e).req then st
  else
    { (((st.noteIf (st.inPool e) (.returnedTwice e)).setList (.freeEvs e.sys) (e :: st.lists (.freeEvs e.sys))).setSys
        e.sys fun y => { y with numUsedEvs := y.numUsedEvs - 1 }).setEv e fun v => { v with sent := false } with
      owed x := if (st.ev e).complete then (st.owed x).erase e else st.owed x }

/-- `event_return`. The pointer of the caller is cleared unless it fails. -/
def eventReturn (e : EvId) : EvState :=
  if (st.ev e).isOngoingEvent then st
  else if (st.ev e).req then st
  else (st.doEventReturn e).unlink .held e

/-- `QUEUE_EVENT`. -/
def queueEvent (e : EvId) : EvState :=
  if (st.ev e).explicitReturn then st
  else if (st.ev e).isSubevent then st
  else
    let st := (st.noteIf (st.inPool e) (.queuedReturned e)).unlink .held e
    (st.setList (.ongoingEvents e.sys) (st.lists (.ongoingEvents e.sys) ++ [e])).setEv e fun v =>
      { v with isOngoingEvent := true }

/-- `QUEUE_SUBEVENT`. -/
def queueSubevent (m e : EvId) : EvState :=
  let st := (st.noteIf (st.inPool e) (.queuedReturned e)).unlink .held e
  { st.setList (.subEvents m) (st.lists (.subEvents m) ++ [e]) with
    owed := Function.update st.owed m (st.owed m ++ [e]) }

/-- `COMPLETE_EVENT`: the callback is cleared and then invoked. -/
def completeEvent (e : EvId) : EvState :=
  if (st.ev e).completionCb then
    ((st.noteIf ((st.ev e).isMeta && st.owed e ≠ []) (.early e)).setEv e fun v =>
      { v with complete := true, completionCb := false, calls := v.calls + 1 }).push [.callback]
  else st.setEv e fun v => { v with complete := true }

/-- A sub-event that has completed is taken off and returned. -/
def dropSub (m e : EvId) : EvState :=
  ((st.unlink (.subEvents m) e).setEv e fun v => { v with isSubevent := false }).doEventReturn e

/-- The loop of `event_completed` over the sub-events. -/
def dropSubs (m : EvId) : EvState :=
  (st.lists (.subEvents m)).foldl (fun st e => if (st.ev e).complete then st.dropSub m e else st) st

/-- `event_completed`, with what the caller does next if the event has completed. -/
def eventCompleted (e : EvId) (next : List EvFrame) : EvState × Bool :=
  if (st.ev e).isMeta then
    let st := st.dropSubs e
    if st.lists (.subEvents e) = [] then ((st.push next).completeEvent e, true) else (st, false)
  else if (st.ev e).complete then ((st.push next).completeEvent e, true)
  else (st, false)

/-- `CAN_POST`; a counter below zero is a large one. -/
def canPost (s : ℕ) : Bool := 0 ≤ (st.sys s).postedSends ∧ (st.sys s).postedSends < maxPostedSends

/-- `event_posted`. -/
def eventPosted (e : EvId) : Bool := !(st.ev e).complete && ((st.ev e).wasPosted || (st.ev e).req)

/-- `do_am_send_event_msg`: the send completes right away or not. -/
def doAmSendEventMsg (e : EvId) (now : Bool) : EvState :=
  if now then st.setEv e fun v => { v with req := false, complete := true }
  else
    (st.setSys e.sys fun y => { y with postedSends := y.postedSends + 1 }).setEv e fun v =>
      { v with req := true, wasPosted := true, sent := true }

/-- `am_send_event_msg`, and `QUEUE_EVENT` when it says that the event is in progress. -/
def amSendEventMsg (e : EvId) (now : Bool) : EvState :=
  let st := st.doAmSendEventMsg e now
  if now then
    if (st.ev e).explicitReturn then (st.push [.queue e]).completeEvent e else st.eventReturn e
  else st.queueEvent e

/-- `event_channel_emit`, after the sends were progressed. To the process itself the event is handed over,
which the handler for it gets, and returned. -/
def eventChannelEmit (e : EvId) (self now : Bool) : EvState :=
  let st := st.setEv e fun v => { v with complete := false, isMeta := false }
  if self then st.push [.callback, .ret e] else st.amSendEventMsg e now

/-- The emission of a sub-event, which is queued on the meta-event. When the send completed right away the
event was returned and its pointer cleared; the call sites test the pointer before they queue, all but
`send_revoke_group_rank_request_through_rank_info`. -/
def emitSubevent (m e : EvId) (now tested : Bool) : EvState :=
  let st := (st.setEv e fun v => { v with isSubevent := true, complete := false, isMeta := false }).amSendEventMsg e now
  if now then st.noteIf (!tested) (.queuedNull m) else st.queueSubevent m e

/-- `progress_econtext_sends`: the walk begins. -/
def progressEcontextSends (s : ℕ) : EvState := st.push [.walk s (st.lists (.ongoingEvents s)).head?]

/-- A walk comes to an event: a meta-event, or `PROGRESS_EVENT_SEND`. -/
def visit (s : ℕ) (e : EvId) (now : Bool) : EvState :=
  let next := nextOn (st.lists (.ongoingEvents s)) e
  let (st', done) := st.eventCompleted e [.takeOff s e next]
  if done then st'
  else if (st.ev e).isMeta = false ∧ st'.canPost e.sys ∧ st'.eventPosted e = false then
    (st'.doAmSendEventMsg e now).push [.walk s next]
  else st'.push [.walk s next]

/-- An event that has completed is taken off the list of ongoing events. -/
def leave (s : ℕ) (e : EvId) : EvState :=
  let posted := (st.ev e).wasPosted
  ((st.unlink (.ongoingEvents s) e).setSys e.sys fun y =>
    { y with postedSends := y.postedSends - if posted then 1 else 0 }).setEv e fun v =>
      { v with isOngoingEvent := false, isSubevent := v.isMeta && v.isSubevent, wasPosted := false }

/-- The end of `PROGRESS_EVENT_SEND` and its like for meta-events: the event is taken off and returned. -/
def takeOff (s : ℕ) (e : EvId) (next : Option EvId) : EvState := ((st.leave s e).eventReturn e).push [.walk s next]

/-- Go on with what is on top of the stack. -/
def resume (now : Bool) : EvFrame → EvState
  | .callback | .walk _ none => st
  | .walk s (some e) => st.visit s e now
  | .takeOff s e next => st.takeOff s e next
  | .emit e self => st.eventChannelEmit e self now
  | .queue e => st.queueEvent e
  | .ret e => st.eventReturn e
  | .freeReq e => st.setEv e fun v => { v with req := false }

end EvState

/-- The event a function in progress still has to do with, if the caller gave it one. -/
def EvFrame.owner : EvFrame → Option EvId
  | .emit e _ | .queue e | .ret e => some e
  | _ => none

/-- The events of functions in progress. -/
def owners (fs : List EvFrame) : List EvId := fs.filterMap EvFrame.owner

/-- What happens to the events of a process. -/
inductive EvAct where
  /-- `event_get`. -/
  | get (s : ℕ) (isMeta explicitReturn completionCb : Bool)
  /-- An event is emitted. -/
  | emit (e : EvId) (self : Bool)
  /-- An event is emitted as a sub-event of a meta-event and queued on it. -/
  | emitSub (m e : EvId) (now tested : Bool)
  /-- All sub-events were emitted: the meta-event is queued or, if it has completed, returned. -/
  | finish (m : EvId)
  /-- An event is returned if it has completed. -/
  | poll (e : EvId)
  /-- `event_return`. -/
  | ret (e : EvId)
  /-- `COMPLETE_EVENT` and `event_return`: the events of a cache entry once it is there. -/
  | completeRet (e : EvId)
  /-- `event_completed`. -/
  | completed (e : EvId)
  /-- `progress_econtext_sends`. -/
  | progress (s : ℕ)
  /-- The send of an event completes (`notification_emit_cb`). -/
  | sendDone (e : EvId)
  /-- A callback returns. -/
  | cbReturn
  /-- The library goes on; a send posted now completes right away or not. -/
  | run (now : Bool)

namespace EvState

variable (st : EvState)

/-- Is the application to go on? -/
def userRuns : Bool :=
  match st.stack with
  | [] | .callback :: _ => true
  | _ => false

/-- Does a caller hold an event that no function in progress was given? -/
def mayUse (e : EvId) : Bool := e ∈ st.lists .held ∧ e ∉ owners st.stack

/-- An event that may be emitted, and was not. -/
def fresh (e : EvId) : Bool :=
  !(st.ev e).isMeta && !(st.ev e).complete && !(st.ev e).req && !(st.ev e).wasPosted

/-- Has the object been allocated? -/
def Allocated (e : EvId) : Prop := e.num < (st.sys e.sys).capacity

instance (e : EvId) : Decidable (st.Allocated e) := inferInstanceAs (Decidable (_ < _))

/-- A step of the application. -/
def user : EvAct → Option EvState
  | .get s isMeta expl cb => some (st.eventGet s isMeta expl cb)
  | .emit e self =>
    if st.mayUse e ∧ st.fresh e then some ((st.push [.emit e self]).progressEcontextSends e.sys) else none
  | .emitSub m e now tested =>
    if st.mayUse m ∧ (st.ev m).isMeta ∧ st.mayUse e ∧ st.fresh e ∧ (st.ev e).explicitReturn = false ∧ m ≠ e then
      some (st.emitSubevent m e now tested)
    else none
  | .finish m =>
    if st.mayUse m ∧ (st.ev m).isMeta then
      let (st', done) := st.eventCompleted m [.ret m]
      some (if done then st' else st'.queueEvent m)
    else none
  | .poll e => if st.mayUse e then some (st.eventCompleted e [.ret e]).1 else none
  | .ret e => if st.mayUse e then some (st.eventReturn e) else none
  | .completeRet e =>
    if st.mayUse e ∧ (st.ev e).req = false ∧ st.lists (.subEvents e) = [] then
      some ((st.push [.ret e]).completeEvent e)
    else none
  | .completed e => if st.Allocated e ∧ st.inPool e = false then some (st.eventCompleted e []).1 else none
  | .progress s => some (st.progressEcontextSends s)
  | .sendDone e =>
    if (st.ev e).req ∧ (st.ev e).complete = false then some ((st.push [.freeReq e]).completeEvent e) else none
  | .cbReturn | .run _ => none

end EvState

/-- One step. -/
def evStep (st : EvState) : EvAct → Option EvState
  | .run now =>
    match st.stack with
    | [] | .callback :: _ => none
    | f :: fs => some ({ st with stack := fs }.resume now f)
  | .cbReturn =>
    match st.stack with
    | .callback :: fs => some { st with stack := fs }
    | _ => none
  | a => if st.userRuns then st.user a else none

/-! ### What a step can do -/

namespace EvState

variable {st st' : EvState}

/-- The steps of the application, with what they ask for. -/
inductive UserStep (st : EvState) : EvAct → EvState → Prop
  | get (s : ℕ) (isMeta expl cb : Bool) : UserStep st (.get s isMeta expl cb) (st.eventGet s isMeta expl cb)
  | emit (e : EvId) (self : Bool) (hu : st.mayUse e = true) (hf : st.fresh e = true) :
      UserStep st (.emit e self) ((st.push [.emit e self]).progressEcontextSends e.sys)
  | emitSub (m e : EvId) (now tested : Bool) (hm : st.mayUse m = true) (hmeta : (st.ev m).isMeta = true)
      (hu : st.mayUse e = true) (hf : st.fresh e = true) (hexpl : (st.ev e).explicitReturn = false) (hne : m ≠ e) :
      UserStep st (.emitSub m e now tested) (st.emitSubevent m e now tested)
  /-- The meta-event has completed. -/
  | finish (m : EvId) (hu : st.mayUse m = true) (hmeta : (st.ev m).isMeta = true)
      (hd : (st.eventCompleted m [.ret m]).2 = true) : UserStep st (.finish m) (st.eventCompleted m [.ret m]).1
  /-- It has not. -/
  | queue (m : EvId) (hu : st.mayUse m = true) (hmeta : (st.ev m).isMeta = true)
      (hd : (st.eventCompleted m [.ret m]).2 = false) :
      UserStep st (.finish m) ((st.eventCompleted m [.ret m]).1.queueEvent m)
  | poll (e : EvId) (hu : st.mayUse e = true) : UserStep st (.poll e) (st.eventCompleted e [.ret e]).1
  | ret (e : EvId) (hu : st.mayUse e = true) : UserStep st (.ret e) (st.eventReturn e)
  | completeRet (e : EvId) (hu : st.mayUse e = true) (hr : (st.ev e).req = false)
      (hs : st.lists (.subEvents e) = []) :
      UserStep st (.completeRet e) ((st.push [.ret e]).completeEvent e)
  | completed (e : EvId) (ha : st.Allocated e) (hp : st.inPool e = false) :
      UserStep st (.completed e) (st.eventCompleted e []).1
  | progress (s : ℕ) : UserStep st (.progress s) (st.progressEcontextSends s)
  | sendDone (e : EvId) (hr : (st.ev e).req = true) (hc : (st.ev e).complete = false) :
      UserStep st (.sendDone e) ((st.push [.freeReq e]).completeEvent e)

theorem userStep_of_user {a : EvAct} (hs : st.user a = some st') : st.UserStep a st' := by
  cases a with
  | get s isMeta expl cb => cases hs; exact .get s isMeta expl cb
  | progress s => cases hs; exact .progress s
  | cbReturn | run _ => cases hs
  | finish m =>
    simp only [user, Option.ite_none_right_eq_some] at hs
    obtain ⟨hg, hs⟩ := hs
    cases hs
    split
    · rename_i hd
      exact .finish m hg.1 hg.2 hd
    · rename_i hd
      exact .queue m hg.1 hg.2 (Bool.not_eq_true _ ▸ hd)
  | emit e self =>
    simp only [user, Option.ite_none_right_eq_some] at hs
    obtain ⟨hg, hs⟩ := hs
    cases hs
    exact .emit e self hg.1 hg.2
  | emitSub m e now tested =>
    simp only [user, Option.ite_none_right_eq_some] at hs
    obtain ⟨⟨hm, hmeta, hu, hf, hexpl, hne⟩, hs⟩ := hs
    cases hs
    exact .emitSub m e now tested hm hmeta hu hf hexpl hne
  | poll e =>
    simp only [user, Option.ite_none_right_eq_some] at hs
    obtain ⟨hg, hs⟩ := hs
    cases hs
    exact .poll e hg
  | ret e =>
    simp only [user, Option.ite_none_right_eq_some] at hs
    obtain ⟨hg, hs⟩ := hs
    cases hs
    exact .ret e hg
  | completeRet e =>
    simp only [user, Option.ite_none_right_eq_some] at hs
    obtain ⟨hg, hs⟩ := hs
    cases hs
    exact .completeRet e hg.1 hg.2.1 hg.2.2
  | completed e =>
    simp only [user, Option.ite_none_right_eq_some] at hs
    obtain ⟨hg, hs⟩ := hs
    cases hs
    exact .completed e hg.1 hg.2
  | sendDone e =>
    simp only [user, Option.ite_none_right_eq_some] at hs
    obtain ⟨hg, hs⟩ := hs
    cases hs
    exact .sendDone e hg.1 hg.2

/-- What a step is: the library goes on, a callback returns, or the application goes on. -/
theorem step_cases {a : EvAct} (hs : evStep st a = some st') :
    (∃ now f fs, a = .run now ∧ st.stack = f :: fs ∧ f ≠ .callback ∧ st' = { st with stack := fs }.resume now f) ∨
      (∃ fs, a = .cbReturn ∧ st.stack = .callback :: fs ∧ st' = { st with stack := fs }) ∨
      (st.userRuns = true ∧ st.UserStep a st') := by
  unfold evStep at hs
  split at hs
  · rename_i now
    split at hs
    · cases hs
    · cases hs
    · rename_i f fs hne hst
      exact .inl ⟨now, f, fs, rfl, hst, hne, (Option.some.inj hs).symm⟩
  · split at hs
    · rename_i fs hst
      exact .inr (.inl ⟨fs, rfl, hst, (Option.some.inj hs).symm⟩)
    · cases hs
  · split at hs
    · rename_i hu
      exact .inr (.inr ⟨hu, userStep_of_user hs⟩)
    · cases hs

/-- What a walk does at an event: the event has completed; or it is no meta-event, so that the poll has changed
nothing, and is posted; or the walk goes on. -/
theorem visit_cases (st : EvState) (s : ℕ) (e : EvId) (now : Bool) :
    let next := nextOn (st.lists (.ongoingEvents s)) e
    let polled := st.eventCompleted e [.takeOff s e next]
    (polled.2 = true ∧ st.visit s e now = polled.1) ∨
      ((st.ev e).isMeta = false ∧ (st.ev e).complete = false ∧ st.eventPosted e = false ∧
        st.visit s e now = (st.doAmSendEventMsg e now).push [.walk s next]) ∨
      (polled.2 = false ∧ st.visit s e now = polled.1.push [.walk s next]) := by
  intro next polled
  have hvisit : st.visit s e now = if polled.2 then polled.1
      else if (st.ev e).isMeta = false ∧ polled.1.canPost e.sys ∧ polled.1.eventPosted e = false then
        (polled.1.doAmSendEventMsg e now).push [.walk s next]
      else polled.1.push [.walk s next] := rfl
  cases hd : polled.2 with
  | true => exact .inl ⟨rfl, by rw [hvisit, if_pos hd]⟩
  | false =>
    rw [hvisit, if_neg (by rw [hd]; nofun)]
    split
    · rename_i hg
      have hc : (st.ev e).complete = false := by
        by_contra hc
        have ht : polled.2 = true := by
          simp only [polled, eventCompleted, hg.1, Bool.not_eq_false _ ▸ hc]
          rfl
        rw [hd] at ht
        cases ht
      have hst : polled.1 = st := by
        simp only [polled, eventCompleted, hg.1, hc]
        rfl
      rw [hst] at hg ⊢
      exact .inr (.inl ⟨hg.1, hc, hg.2.2, rfl⟩)
    · exact .inr (.inr ⟨rfl, rfl⟩)

end EvState

/-! ### What the small operations leave as it is -/

namespace EvState

variable (st : EvState) (e x : EvId) (s : ℕ) (l : EvList)

theorem ev_setEv (f : Ev → Ev) : (st.setEv e f).ev x = if x = e then f (st.ev e) else st.ev x :=
  Function.update_apply ..

theorem ev_setEv_self (f : Ev → Ev) : (st.setEv e f).ev e = f (st.ev e) := Function.update_self ..

theorem ev_setEv_of_ne {x e : EvId} (h : x ≠ e) (f : Ev → Ev) : (st.setEv e f).ev x = st.ev x :=
  Function.update_of_ne h ..

@[simp] theorem sys_setEv (f : Ev → Ev) : (st.setEv e f).sys = st.sys := rfl

@[simp] theorem lists_setEv (f : Ev → Ev) : (st.setEv e f).lists = st.lists := rfl

@[simp] theorem owed_setEv (f : Ev → Ev) : (st.setEv e f).owed = st.owed := rfl

@[simp] theorem stack_setEv (f : Ev → Ev) : (st.setEv e f).stack = st.stack := rfl

@[simp] theorem faults_setEv (f : Ev → Ev) : (st.setEv e f).faults = st.faults := rfl

@[simp] theorem ev_push (fs : List EvFrame) : (st.push fs).ev = st.ev := rfl

@[simp] theorem sys_push (fs : List EvFrame) : (st.push fs).sys = st.sys := rfl

@[simp] theorem lists_push (fs : List EvFrame) : (st.push fs).lists = st.lists := rfl

@[simp] theorem owed_push (fs : List EvFrame) : (st.push fs).owed = st.owed := rfl

@[simp] theorem faults_push (fs : List EvFrame) : (st.push fs).faults = st.faults := rfl

theorem lists_unlink_self : (st.unlink l e).lists l = (st.lists l).erase e := Function.update_self ..

theorem lists_unlink_of_ne {l l' : EvList} (h : l' ≠ l) : (st.unlink l e).lists l' = st.lists l' :=
  Function.update_of_ne h ..

theorem unlink_of_not_mem {e : EvId} {l : EvList} (h : e ∉ st.lists l) : st.unlink l e = st := by
  rw [unlink, List.erase_of_not_mem h, setList, Function.update_eq_self]

@[simp] theorem ev_noteIf (b : Bool) (y : EvFault) : (st.noteIf b y).ev = st.ev := by
  unfold noteIf
  split <;> rfl

@[simp] theorem sys_noteIf (b : Bool) (y : EvFault) : (st.noteIf b y).sys = st.sys := by
  unfold noteIf
  split <;> rfl

@[simp] theorem lists_noteIf (b : Bool) (y : EvFault) : (st.noteIf b y).lists = st.lists := by
  unfold noteIf
  split <;> rfl

@[simp] theorem owed_noteIf (b : Bool) (y : EvFault) : (st.noteIf b y).owed = st.owed := by
  unfold noteIf
  split <;> rfl

@[simp] theorem stack_noteIf (b : Bool) (y : EvFault) : (st.noteIf b y).stack = st.stack := by
  unfold noteIf
  split <;> rfl

end EvState

end DpuOffload
