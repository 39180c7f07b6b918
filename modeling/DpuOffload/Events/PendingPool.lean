import DpuOffload.Events.Notifications
import DpuOffload.Lib.Runs
import DpuOffload.Pools.DynList

/-!
# The descriptors of pending notifications

A notification for which there is no handler is kept in a descriptor, which is taken from the pool
`free_pending_notifications` of the event system (`handle_notif_msg`). The descriptor is on the list of
pending notifications until a handler is registered (`event_channel_register`), which takes it off
the list and delivers the notification. Nothing returns it to the pool; nor is it returned when there is
no memory for the copies of the header and the payload.

`debug` says which build it is: the exits of `CHECK_ERR_RETURN` are there in the debug build only. In the default one
a copy for which there is no memory is written to a null pointer, and there is no result.

The event system is that of `NotifSys`, which has what is in a descriptor; here it is known which object of the
pool a descriptor is.

* `PendingPool.Inv` — the objects that have been taken are the descriptors on the list and those lost.
* `PendingPool.step_lost` — a step loses a descriptor exactly when it is not careful.
* `pending_pool_iff` — **the descriptors are conserved** exactly as long as no notification is delivered by a
  registration and there is memory for those kept.
-/

namespace DpuOffload

/-- `DEFAULT_NUM_NOTIFICATION_CALLBACKS`. -/
def defaultNumNotificationCallbacks : ℕ := 5000

/-- `sizeof(pending_notification_t)`. -/
def sizeofPendingNotification : ℕ := 72

/-- What the environment gives when a notification is kept. -/
structure NotifMemory where
  /-- When the pool grows. -/
  pool : GrowEnv Unit
  /-- Is there memory for the payload? -/
  data : Bool
  /-- Is there memory for the header? -/
  header : Bool

/-- An event system and its pool of descriptors. -/
structure PendingPool where
  /-- The event system. -/
  sys : NotifSys
  /-- `free_pending_notifications`. -/
  pool : DynListT Unit
  /-- The descriptors of the pending notifications, each with the number of its notification. -/
  descs : List (ℕ × EltId)
  /-- The descriptors that are neither on the list nor in the pool. -/
  lost : List EltId

/-- What happens to an event system. -/
inductive PendingOp where
  /-- A notification is received. -/
  | recv (n : Notif) (m : NotifMemory)
  /-- A handler is registered. -/
  | register (type cb : ℕ)
  /-- A handler is deregistered. -/
  | deregister (type : ℕ)
  /-- The walk of a registration goes on. -/
  | walk
  /-- A handler returns. -/
  | done

namespace NotifSys

/-- Is the notification to be kept? -/
def keeps (s : NotifSys) (n : Notif) : Prop :=
  ¬ (0 < n.hdr.payloadSize ∧ n.data = none) ∧ s.callbacks n.hdr.type = none

instance (s : NotifSys) (n : Notif) : Decidable (s.keeps n) := inferInstanceAs (Decidable (_ ∧ _))

/-- The notification that the walk takes off the list next, if it does. -/
def taken (s : NotifSys) : Option ℕ :=
  match s.registering with
  | some ⟨type, _, .body (some k) _⟩ =>
    (s.pending.find? (·.1 = k)).bind fun p => if p.2.type = type then some k else none
  | _ => none

end NotifSys

/-- Is there memory for the copies of the payload and the header? -/
def NotifMemory.Copies (m : NotifMemory) (n : Notif) : Prop :=
  (0 < n.pending.dataSize → m.data = true) ∧ (0 < n.pending.headerSize → m.header = true)

instance (m : NotifMemory) (n : Notif) : Decidable (m.Copies n) := inferInstanceAs (Decidable (_ ∧ _))

namespace PendingPool

variable (debug : Bool) (s : PendingPool)

/-- `ev_channels_init`. -/
def init (env : GrowEnv Unit) : Option PendingPool :=
  (DynListT.alloc defaultNumNotificationCallbacks sizeofPendingNotification (by decide) none () env).map fun l =>
    ⟨.init, l, [], []⟩

/-- A notification is kept in a descriptor of the pool, if there is memory for the copies. -/
def keep (n : Notif) (m : NotifMemory) (sys : NotifSys) : Option PendingPool :=
  (s.pool.get m.pool).bind fun p =>
    match p.2 with
    | none => if debug then some { s with pool := p.1 } else none
    | some e =>
      if m.Copies n then some { s with sys := sys, pool := p.1, descs := s.descs ++ [(s.sys.count, e)] }
      else if debug then some { s with pool := p.1, lost := e :: s.lost }
      else none

/-- `ucs_list_del`: the descriptor of a notification leaves the list. -/
def drop (k : ℕ) : PendingPool :=
  { s with
    descs := s.descs.filter (·.1 ≠ k)
    lost := (s.descs.filter (·.1 = k)).map (·.2) ++ s.lost }

/-- One step. -/
def step : PendingOp → Option PendingPool
  | .recv n m =>
    (s.sys.step (.recv n)).bind fun sys => if s.sys.keeps n then s.keep debug n m sys else some { s with sys := sys }
  | .register type cb => (s.sys.step (.register type cb)).map fun sys => { s with sys := sys }
  | .deregister type => (s.sys.step (.deregister type)).map fun sys => { s with sys := sys }
  | .walk => (s.sys.step .walk).map fun sys => { s.sys.taken.elim s s.drop with sys := sys }
  | .done => (s.sys.step .done).map fun sys => { s with sys := sys }

/-- A run. -/
def run : List PendingOp → PendingPool → Option PendingPool
  | [], s => some s
  | a :: as, s => (s.step debug a).bind (run as)

/-- **The descriptors are conserved**: what is free and what is pending is the capacity. -/
def Balanced : Prop := s.pool.list.length + s.sys.pending.length = s.pool.capacity

/-- A step is careful unless it delivers a pending notification, or keeps one without memory for the copies. -/
def Careful : PendingOp → Prop
  | .recv n m => s.sys.keeps n → m.Copies n
  | .walk => s.sys.taken = none
  | _ => True

/-- The steps of a run are careful. -/
def AllCareful (s : PendingPool) : List PendingOp → Prop
  | [] => True
  | a :: as => s.Careful a ∧ ∀ s', s.step debug a = some s' → s'.AllCareful as

end PendingPool

/-! ### The event system -/

namespace NotifSys

variable {s s' : NotifSys} {n : Notif} {k : ℕ}

theorem numbers_handleNotifMsg (n : Notif) :
    (s.handleNotifMsg n).numbers = if s.keeps n then s.numbers ++ [s.count] else s.numbers := by
  unfold handleNotifMsg keeps numbers
  split
  · simp [*]
  · split <;> simp [*]

theorem numbers_eventChannelRegister (type cb : ℕ) : (s.eventChannelRegister type cb).numbers = s.numbers := by
  unfold eventChannelRegister numbers
  split <;> rfl

theorem numbers_eventChannelDeregister (type : ℕ) : (s.eventChannelDeregister type).numbers = s.numbers := by
  unfold eventChannelDeregister numbers
  split <;> rfl

/-- What a walk takes off the list. -/
theorem numbers_walk {r : Registering} (hr : s.registering = some r) :
    (s.walk r).numbers = s.taken.elim s.numbers fun k => s.numbers.filter (· ≠ k) := by
  obtain ⟨type, cb, w⟩ := r
  unfold walk taken numbers
  rw [hr]
  cases w with
  | advance next => rfl
  | body cur next =>
    cases cur with
    | none => rfl
    | some k =>
      cases hp : s.pending.find? (·.1 = k) with
      | none => simp [hp]
      | some p =>
        by_cases ht : p.2.type = type
        · simp [hp, ht, List.filter_map, Function.comp_def]
        · simp [hp, ht]

theorem mem_numbers_of_taken (h : s.taken = some k) : k ∈ s.numbers := by
  unfold taken at h
  split at h
  · obtain ⟨p, hp, h⟩ := Option.bind_eq_some_iff.1 h
    have hk := List.find?_some hp
    split at h
    · cases h
      exact List.mem_map.2 ⟨p, List.mem_of_find?_eq_some hp, by simpa using hk⟩
    · cases h
  · cases h

end NotifSys

/-! ### What is kept -/

namespace PendingPool

variable {debug : Bool} {s s' : PendingPool} {a : PendingOp} {as : List PendingOp}

/-- **The objects that have been taken** are the descriptors on the list and those lost. -/
structure Inv (s : PendingPool) : Prop where
  /-- The pool owns its objects. -/
  owns : s.pool.Owns (s.descs.map (·.2) ++ s.lost)
  /-- Each pending notification has its descriptor. -/
  numbers : s.descs.map (·.1) = s.sys.numbers

theorem Inv.length_descs (h : s.Inv) : s.descs.length = s.sys.pending.length := by
  have hlen := congrArg List.length h.numbers
  rwa [List.length_map, NotifSys.numbers, List.length_map] at hlen

/-- The descriptors are conserved when none is lost. -/
theorem Inv.balanced_iff (h : s.Inv) : s.Balanced ↔ s.lost = [] := by
  have hcap := h.owns.capacity
  have hlen := h.owns.length
  have hdescs := h.length_descs
  simp only [Pool.size, List.length_append, List.length_map] at hcap
  rw [Balanced, ← List.length_eq_zero_iff]
  omega

/-- The event system changes, but not its list. -/
theorem Inv.congr (h : s.Inv) {sys : NotifSys} (hn : sys.numbers = s.sys.numbers) : Inv { s with sys := sys } :=
  ⟨h.owns, h.numbers.trans hn.symm⟩

/-- A notification is kept. -/
theorem Inv.keep (h : s.Inv) {n : Notif} {m : NotifMemory} {sys : NotifSys}
    (hn : sys.numbers = s.sys.numbers ++ [s.sys.count]) (hs : s.keep debug n m sys = some s') :
    s'.Inv ∧ s'.lost.length = if m.Copies n then s.lost.length else s.lost.length + 1 := by
  obtain ⟨p, hget, hs⟩ := Option.bind_eq_some_iff.1 hs
  obtain ⟨e, he, -, howns, -⟩ := h.owns.of_get hget
  simp only [he] at hs
  by_cases hm : m.Copies n
  · rw [if_pos hm] at hs ⊢
    cases hs
    refine ⟨⟨?_, ?_⟩, rfl⟩
    · apply howns.perm
      simpa using List.perm_middle.symm
    · simpa [h.numbers] using hn.symm
  · rw [if_neg hm] at hs ⊢
    split at hs
    · cases hs
      exact ⟨⟨howns.perm List.perm_middle.symm, h.numbers⟩, rfl⟩
    · cases hs

/-- A descriptor leaves the list. -/
theorem Inv.drop (h : s.Inv) {k : ℕ} {sys : NotifSys} (hn : sys.numbers = s.sys.numbers.filter (· ≠ k))
    (hk : k ∈ s.sys.numbers) :
    Inv { s.drop k with sys := sys } ∧ s.lost.length < (s.drop k).lost.length := by
  refine ⟨⟨?_, ?_⟩, ?_⟩
  · apply h.owns.perm
    have hsplit : ((s.descs.filter (·.1 ≠ k) ++ s.descs.filter (·.1 = k)).map (·.2)).Perm (s.descs.map (·.2)) := by
      apply List.Perm.map
      simpa using List.perm_append_comm.trans (List.filter_append_perm (fun d : ℕ × EltId => decide (d.1 = k)) s.descs)
    rw [List.map_append] at hsplit
    simpa [PendingPool.drop] using hsplit.symm.append_right s.lost
  · rw [hn, ← h.numbers, List.filter_map]
    rfl
  · rw [← h.numbers] at hk
    obtain ⟨d, hd, rfl⟩ := List.mem_map.1 hk
    have hmem : d ∈ s.descs.filter (·.1 = d.1) := List.mem_filter.2 ⟨hd, by simp⟩
    have hpos := List.length_pos_of_mem hmem
    simp only [PendingPool.drop, List.length_append, List.length_map]
    omega

/-- **One step** keeps the invariant; it loses a descriptor exactly when it is not careful. -/
theorem step_lost (h : s.Inv) (hs : s.step debug a = some s') :
    s'.Inv ∧ s.lost.length ≤ s'.lost.length ∧ (s'.lost.length = s.lost.length ↔ s.Careful a) := by
  cases a with
  | recv n m =>
    obtain ⟨sys, hsys, hs⟩ := Option.bind_eq_some_iff.1 hs
    have hn : sys.numbers = if s.sys.keeps n then s.sys.numbers ++ [s.sys.count] else s.sys.numbers := by
      rw [NotifSys.step] at hsys
      split at hsys
      · cases hsys
      · cases hsys
        exact NotifSys.numbers_handleNotifMsg n
    by_cases hk : s.sys.keeps n
    · rw [if_pos hk] at hs hn
      obtain ⟨hinv, hlost⟩ := h.keep hn hs
      by_cases hm : m.Copies n
      · rw [if_pos hm] at hlost
        exact ⟨hinv, hlost.ge, fun _ _ => hm, fun _ => hlost⟩
      · rw [if_neg hm] at hlost
        refine ⟨hinv, by omega, fun heq => ?_, fun hc => absurd (hc hk) hm⟩
        omega
    · rw [if_neg hk] at hs hn
      cases hs
      exact ⟨h.congr hn, Nat.le_refl _, fun _ hk' => absurd hk' hk, fun _ => rfl⟩
  | register type cb =>
    obtain ⟨sys, hsys, rfl⟩ := Option.map_eq_some_iff.1 hs
    rw [NotifSys.step] at hsys
    split at hsys
    · cases hsys
      exact ⟨h.congr (NotifSys.numbers_eventChannelRegister type cb), Nat.le_refl _, fun _ => trivial, fun _ => rfl⟩
    · cases hsys
  | deregister type =>
    obtain ⟨sys, hsys, rfl⟩ := Option.map_eq_some_iff.1 hs
    rw [NotifSys.step] at hsys
    split at hsys
    · cases hsys
      exact ⟨h.congr (NotifSys.numbers_eventChannelDeregister type), Nat.le_refl _, fun _ => trivial, fun _ => rfl⟩
    · cases hsys
  | walk =>
    obtain ⟨sys, hsys, rfl⟩ := Option.map_eq_some_iff.1 hs
    rw [NotifSys.step] at hsys
    split at hsys
    · obtain ⟨r, hr, rfl⟩ := Option.map_eq_some_iff.1 hsys
      have hn := NotifSys.numbers_walk hr
      cases ht : s.sys.taken with
      | none =>
        rw [ht] at hn
        exact ⟨h.congr hn, Nat.le_refl _, fun _ => ht, fun _ => rfl⟩
      | some k =>
        -- the descriptor is not returned to the pool
        rw [ht] at hn
        obtain ⟨hinv, hlt⟩ := h.drop hn (NotifSys.mem_numbers_of_taken ht)
        refine ⟨hinv, hlt.le, fun heq => absurd heq hlt.ne', fun hc => ?_⟩
        rw [Careful, ht] at hc
        cases hc
    · cases hsys
  | done =>
    obtain ⟨sys, hsys, rfl⟩ := Option.map_eq_some_iff.1 hs
    rw [NotifSys.step] at hsys
    split at hsys
    · cases hsys
    · cases hsys
      exact ⟨h.congr rfl, Nat.le_refl _, fun _ => trivial, fun _ => rfl⟩

theorem follows_run : Runs.Follows (step debug) id (run debug) := ⟨fun _ => rfl, fun _ _ _ => rfl⟩

theorem allows_careful : Runs.Allows (step debug) id Careful (AllCareful debug) :=
  ⟨fun _ => trivial, fun s a as s' hs => by simp [AllCareful, hs]⟩

/-- **A run** loses no descriptor exactly when its steps are careful. -/
theorem run_lost (h : s.Inv) (hs : run debug as s = some s') :
    s'.Inv ∧ s.lost.length ≤ s'.lost.length ∧ (s'.lost.length = s.lost.length ↔ s.AllCareful debug as) :=
  Runs.tally_iff (m := fun s : PendingPool => s.lost.length) follows_run allows_careful step_lost h hs

/-- The pool at the start. -/
theorem exists_init (env : GrowEnv Unit) : ∃ s, init env = some s ∧ s.Inv ∧ s.lost = [] := by
  have hfit : defaultNumNotificationCallbacks * sizeofPendingNotification < 2 ^ 64 := by decide
  obtain ⟨l, hl, howns⟩ := DynListT.owns_alloc hfit none () env
  exact ⟨⟨.init, l, [], []⟩, by rw [init, hl]; rfl, ⟨howns, rfl⟩, rfl⟩

end PendingPool

/-- **The descriptors of pending notifications are conserved** at the end of a run exactly when no registration in it
delivers one, and there is memory for the copies of each that is kept. -/
theorem pending_pool_iff (debug : Bool) (env : GrowEnv Unit) : ∃ s₀, PendingPool.init env = some s₀ ∧
    ∀ as s, PendingPool.run debug as s₀ = some s → (s.Balanced ↔ s₀.AllCareful debug as) := by
  obtain ⟨s₀, hs₀, hinv, hlost⟩ := PendingPool.exists_init env
  refine ⟨s₀, hs₀, fun as s hs => ?_⟩
  obtain ⟨hinv', -, hiff⟩ := PendingPool.run_lost hinv hs
  rw [hinv'.balanced_iff, ← hiff, hlost, ← List.length_eq_zero_iff]
  rfl

/-- A notification without a payload, of a type without a handler. -/
def unhandled : Notif := ⟨0, ⟨1, 7, 0, 0, 0, 0, 0, 0⟩, none⟩

/-- The notification is received, and a handler registered and called. -/
def handledLater : List PendingOp :=
  [.recv unhandled ⟨someMemory, true, true⟩, .register 7 1, .walk, .done, .walk, .walk]

/-- Default build: when the handler has been registered nothing is pending, and a descriptor is missing. -/
theorem not_pending_pool :
    ((PendingPool.init someMemory).bind (PendingPool.run false handledLater)).map
        (fun s => (s.pool.list.length, s.sys.pending.length, s.pool.capacity, s.sys.registering)) =
      some (4999, 0, 5000, none) ∧
    ¬ ∀ env s₀ as s, PendingPool.init env = some s₀ → PendingPool.run false as s₀ = some s → s.sys.registering = none →
      s.Balanced := by
  have hval : ((PendingPool.init someMemory).bind (PendingPool.run false handledLater)).map
      (fun s => (s.pool.list.length, s.sys.pending.length, s.pool.capacity, s.sys.registering)) =
      some (4999, 0, 5000, none) := by decide +kernel
  refine ⟨hval, fun hall => ?_⟩
  obtain ⟨s, hs, heq⟩ := Option.map_eq_some_iff.1 hval
  obtain ⟨s₀, hs₀, hrun⟩ := Option.bind_eq_some_iff.1 hs
  simp only [Prod.mk.injEq] at heq
  have hbal := hall _ s₀ _ s hs₀ hrun heq.2.2.2
  rw [PendingPool.Balanced] at hbal
  omega

end DpuOffload
