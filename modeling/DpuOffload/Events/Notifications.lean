import DpuOffload.Lib.Transition
import Mathlib.Data.Finset.Range
import Mathlib.Data.List.Pairwise
import Mathlib.Logic.Function.Basic

/-!
# Notifications and their handlers

An event system delivers a notification to the handler registered for its type, and keeps it
while there is none (`handle_notif_msg`, `event_channel_register` and
`event_channel_deregister`). Registering a handler walks the notifications that were kept and
delivers those of its type.

A handler is a piece of the application: while it runs further notifications may be received,
on the same event system too, but it does not register or deregister. So the system is taken
step by step: a step starts a handler, ends one, or goes on with the walk, whose cursor is
the pointer `ucs_list_for_each_safe` has read ahead. The log says what happened.

Only types that have been registered are deregistered, as far as the array of handlers reaches (default build):
`event_channel_deregister` does not grow the array as the others do, and its check of the capacity is compiled out.

What the log should say is `Item.Fits`, one item at a time: a notification is delivered at once
when there is a handler for it, and otherwise at the next registration of its type, as it was
received.
-/

namespace DpuOffload

open Transition

/-- `am_header_t`. -/
structure AmHeader where
  /-- The id of the sender. -/
  id : ℕ
  /-- The type of the notification. -/
  type : ℕ
  /-- The size of the payload. -/
  payloadSize : ℕ
  /-- The number of the event. -/
  eventId : ℕ
  /-- The client of the connection. -/
  clientId : ℕ
  /-- Its server. -/
  serverId : ℕ
  /-- `scope_id`. -/
  scopeId : ℕ
  /-- `sender_type`. -/
  senderType : ℕ
  deriving DecidableEq, Repr

/-- `sizeof(am_header_t)`. -/
def sizeofAmHeader : ℕ := 56

/-- A notification as it is received. -/
structure Notif where
  /-- The execution context. -/
  econtext : ℕ
  /-- The header. -/
  hdr : AmHeader
  /-- The payload, unless the pointer is `NULL`. -/
  data : Option (List UInt8)
  deriving DecidableEq, Repr

/-- The payload. -/
def Notif.payload (n : Notif) : List UInt8 := n.data.getD []

/-- What a handler is called with. -/
structure Delivery where
  /-- The execution context. -/
  econtext : ℕ
  /-- The header. -/
  header : Option AmHeader
  /-- Its size. -/
  headerSize : ℕ
  /-- The payload. -/
  data : Option (List UInt8)
  /-- Its size. -/
  dataSize : ℕ
  deriving DecidableEq, Repr

/-- The handler gets the header and the payload the notification was received with. -/
def Delivery.Of (n : Notif) (d : Delivery) : Prop :=
  d.econtext = n.econtext ∧ d.header = some n.hdr ∧ d.headerSize = sizeofAmHeader ∧ d.data.getD [] = n.payload ∧
    d.dataSize = n.payload.length

/-- What a handler is called with at once. -/
def Notif.direct (n : Notif) : Delivery := ⟨n.econtext, some n.hdr, sizeofAmHeader, n.data, n.payload.length⟩

/-- `pending_notification_t`. -/
structure PendingNotification where
  /-- The type. -/
  type : ℕ
  /-- The id of the sender. -/
  srcId : ℕ
  /-- A copy of the header. -/
  header : Option AmHeader
  /-- Its size. -/
  headerSize : ℕ
  /-- A copy of the payload. -/
  data : Option (List UInt8)
  /-- Its size. -/
  dataSize : ℕ
  /-- The execution context. -/
  econtext : ℕ
  deriving DecidableEq, Repr

/-- The copy of a notification that is kept. -/
def Notif.pending (n : Notif) : PendingNotification where
  type := n.hdr.type
  srcId := n.hdr.id
  header := if 0 < sizeofAmHeader then some n.hdr else none
  headerSize := sizeofAmHeader
  data := if 0 < n.payload.length then some n.payload else none
  dataSize := n.payload.length
  econtext := n.econtext

/-- What a handler is called with later. -/
def PendingNotification.delivery (p : PendingNotification) : Delivery :=
  ⟨p.econtext, p.header, p.headerSize, p.data, p.dataSize⟩

/-- What happens, the notifications being numbered as they come. -/
inductive Item where
  /-- A notification was received and delivered at once. -/
  | direct (k : ℕ) (n : Notif) (cb : ℕ) (d : Delivery)
  /-- A notification was received and kept. -/
  | kept (k : ℕ) (n : Notif)
  /-- A notification that was kept was delivered. -/
  | late (k : ℕ) (type cb : ℕ) (d : Delivery)
  /-- A handler was registered. -/
  | registered (type cb : ℕ)
  /-- A handler was deregistered. -/
  | deregistered (type : ℕ)
  deriving DecidableEq, Repr

/-- Where the walk over the kept notifications is; `none` is the head of the list. -/
inductive Walk where
  /-- The body of the loop comes next, for the element at the cursor. -/
  | body (cur next : Option ℕ)
  /-- The cursor moves next. -/
  | advance (next : Option ℕ)
  deriving DecidableEq, Repr

/-- A registration in progress. -/
structure Registering where
  /-- The type. -/
  type : ℕ
  /-- The handler. -/
  cb : ℕ
  /-- The walk. -/
  walk : Walk
  deriving DecidableEq, Repr

/-- An event system, as far as notifications go. -/
structure NotifSys where
  /-- `notification_callbacks`: the handlers that are set. -/
  callbacks : ℕ → Option ℕ
  /-- `pending_notifications`, each with the number it came with. -/
  pending : List (ℕ × PendingNotification)
  /-- How many have come. -/
  count : ℕ
  /-- How many handlers are running. -/
  running : ℕ
  /-- The registration in progress. -/
  registering : Option Registering
  /-- What happened. -/
  log : List Item

namespace NotifSys

variable (s : NotifSys)

/-- `event_channels_init`. -/
def init : NotifSys where
  callbacks _ := none
  pending := []
  count := 0
  running := 0
  registering := none
  log := []

/-- The numbers of the list of pending notifications. -/
def numbers : List ℕ := s.pending.map (·.1)

/-- The element after one of a list, or after its head. -/
def after (l : List ℕ) : Option ℕ → Option ℕ
  | some k => (l.dropWhile (· ≠ k)).tail.head?
  | none => l.head?

/-- `handle_notif_msg`. -/
def handleNotifMsg (n : Notif) : NotifSys :=
  if 0 < n.hdr.payloadSize ∧ n.data = none then s
  else
    match s.callbacks n.hdr.type with
    | none =>
      { s with
        pending := s.pending ++ [(s.count, n.pending)]
        count := s.count + 1
        log := s.log ++ [.kept s.count n] }
    | some cb =>
      { s with
        count := s.count + 1
        running := s.running + 1
        log := s.log ++ [.direct s.count n cb n.direct] }

/-- `event_channel_register`, up to the walk. -/
def eventChannelRegister (type cb : ℕ) : NotifSys :=
  match s.callbacks type with
  | some _ => s
  | none =>
    { s with
      callbacks := Function.update s.callbacks type (some cb)
      registering := some ⟨type, cb, .body (after s.numbers none) (after s.numbers (after s.numbers none))⟩
      log := s.log ++ [.registered type cb] }

/-- `event_channel_deregister` of a type within the array: nothing changes if it has no handler. -/
def eventChannelDeregister (type : ℕ) : NotifSys :=
  match s.callbacks type with
  | none => s
  | some _ =>
    { s with
      callbacks := Function.update s.callbacks type none
      log := s.log ++ [.deregistered type] }

/-- The next step of the walk. -/
def walk (r : Registering) : NotifSys :=
  match r.walk with
  | .body none _ => { s with registering := none }
  | .body (some k) next =>
    match s.pending.find? (·.1 = k) with
    | none => s
    | some p =>
      if p.2.type = r.type then
        -- `ucs_list_del`, and the handler is called
        { s with
          pending := s.pending.filter (·.1 ≠ k)
          running := s.running + 1
          registering := some { r with walk := .advance next }
          log := s.log ++ [.late k r.type r.cb p.2.delivery] }
      else { s with registering := some { r with walk := .advance next } }
  | .advance next => { s with registering := some { r with walk := .body next (after s.numbers next) } }

end NotifSys

/-- What the event system does, or is asked to do. -/
inductive NotifLabel where
  /-- A notification is received. -/
  | recv (n : Notif)
  /-- A handler is registered. -/
  | register (type cb : ℕ)
  /-- A handler is deregistered. -/
  | deregister (type : ℕ)
  /-- The walk goes on. -/
  | walk
  /-- A handler returns. -/
  | done

/-- One step. A notification may come while a handler runs, but not inside the walk; handlers
neither register nor deregister. -/
def NotifSys.step (s : NotifSys) : NotifLabel → Option NotifSys
  | .recv n => if s.running = 0 ∧ s.registering.isSome then none else some (s.handleNotifMsg n)
  | .register type cb =>
    if s.running = 0 ∧ s.registering = none then some (s.eventChannelRegister type cb) else none
  | .deregister type => if s.running = 0 ∧ s.registering = none then some (s.eventChannelDeregister type) else none
  | .walk => if s.running = 0 then s.registering.map s.walk else none
  | .done => if s.running = 0 then none else some { s with running := s.running - 1 }

/-! ### What a log should say -/

/-- The handler of a type after what happened. -/
def handlerAt (type : ℕ) (log : List Item) : Option ℕ :=
  log.foldl (fun h x =>
    match x with
    | .registered t cb => if t = type then some cb else h
    | .deregistered t => if t = type then none else h
    | _ => h) none

/-- Is this a registration of the type? -/
def Item.registers (type : ℕ) : Item → Bool
  | .registered t _ => t == type
  | _ => false

/-- The notification kept, with its number. -/
def Item.kept? : Item → Option (ℕ × Notif)
  | .kept k n => some (k, n)
  | _ => none

/-- The number of the notification received. -/
def Item.received? : Item → Option ℕ
  | .direct k _ _ _ | .kept k _ => some k
  | _ => none

/-- The number of a notification delivered late. -/
def Item.late? : Item → Option ℕ
  | .late k _ _ _ => some k
  | _ => none

/-- The number of a notification of the type delivered late. -/
def Item.lateOf? (type : ℕ) : Item → Option ℕ
  | .late k t _ _ => if t = type then some k else none
  | _ => none

/-- **What may happen after what happened.** A notification is delivered at once to the handler of
its type; without one it is kept. One that was kept is delivered, as it was received, by the first
registration of its type since. -/
def Item.Fits (log : List Item) : Item → Prop
  | .direct _ n cb d => handlerAt n.hdr.type log = some cb ∧ d.Of n
  | .kept _ n => handlerAt n.hdr.type log = none
  | .late k type cb d => handlerAt type log = some cb ∧
      ∃ a n b, log = a ++ .kept k n :: b ∧ n.hdr.type = type ∧ d.Of n ∧ b.countP (Item.registers type) = 1
  | .registered type _ => handlerAt type log = none
  | .deregistered type => handlerAt type log ≠ none

/-- A log each item of which fits. -/
inductive Lawful : List Item → Prop
  /-- Nothing happened. -/
  | nil : Lawful []
  /-- One more item. -/
  | snoc {log : List Item} {x : Item} : Lawful log → x.Fits log → Lawful (log ++ [x])

/-- The notifications kept and not delivered yet, in the order they came. -/
def waiting (log : List Item) : List (ℕ × Notif) :=
  (log.filterMap Item.kept?).filter fun p => p.1 ∉ log.filterMap Item.late?

end DpuOffload
