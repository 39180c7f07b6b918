import DpuOffload.Events.Notifications
import Mathlib.Data.Finset.Card

/-!
# Every notification is delivered

What an event system keeps while notifications come and handlers are registered, whatever the
handlers do in between.

* `notifications_delivered` — **every log is lawful**, in every run; the notifications kept are
  those not delivered yet, in the order they came, and once a registration is over none of its
  type is left. A registration is over when the walk ends, which it does (`exists_registered`).
-/

namespace DpuOffload

open Transition

/-! ### How a log grows -/

section

variable {log : List Item} {x : Item} {type k : ℕ}

@[simp] theorem handlerAt_registered (t cb : ℕ) :
    handlerAt type (log ++ [Item.registered t cb]) = if t = type then some cb else handlerAt type log := by
  rw [handlerAt, List.foldl_append]
  rfl

@[simp] theorem handlerAt_deregistered (t : ℕ) :
    handlerAt type (log ++ [Item.deregistered t]) = if t = type then none else handlerAt type log := by
  rw [handlerAt, List.foldl_append]
  rfl

@[simp] theorem handlerAt_direct (n : Notif) (cb : ℕ) (d : Delivery) :
    handlerAt type (log ++ [Item.direct k n cb d]) = handlerAt type log := by
  rw [handlerAt, List.foldl_append]
  rfl

@[simp] theorem handlerAt_kept (n : Notif) : handlerAt type (log ++ [Item.kept k n]) = handlerAt type log := by
  rw [handlerAt, List.foldl_append]
  rfl

@[simp] theorem handlerAt_late (t cb : ℕ) (d : Delivery) :
    handlerAt type (log ++ [Item.late k t cb d]) = handlerAt type log := by
  rw [handlerAt, List.foldl_append]
  rfl

theorem waiting_kept (n : Notif) (hk : k ∉ log.filterMap Item.late?) :
    waiting (log ++ [Item.kept k n]) = waiting log ++ [(k, n)] := by
  have hlate : (log ++ [Item.kept k n]).filterMap Item.late? = log.filterMap Item.late? := by simp [Item.late?]
  have hkept : (log ++ [Item.kept k n]).filterMap Item.kept? = log.filterMap Item.kept? ++ [(k, n)] := by
    simp [Item.kept?]
  rw [waiting, hlate, hkept, List.filter_append, List.filter_singleton]
  simp only [hk, not_false_iff, decide_true]
  rfl

theorem waiting_late (t cb : ℕ) (d : Delivery) :
    waiting (log ++ [Item.late k t cb d]) = (waiting log).filter (·.1 ≠ k) := by
  simp only [waiting, List.filterMap_append, List.filterMap_cons, List.filterMap_nil, Item.kept?, Item.late?,
    List.append_nil, List.filter_filter]
  refine List.filter_congr fun p _ => ?_
  simp [and_comm]

theorem waiting_other (h : x.kept? = none) (h' : x.late? = none) : waiting (log ++ [x]) = waiting log := by
  simp [waiting, h, h']

theorem mem_waiting {p : ℕ × Notif} :
    p ∈ waiting log ↔ p ∈ log.filterMap Item.kept? ∧ p.1 ∉ log.filterMap Item.late? := by
  simp [waiting]

/-- Those kept are among those received. -/
theorem kept_sublist (log : List Item) :
    ((log.filterMap Item.kept?).map (·.1)).Sublist (log.filterMap Item.received?) := by
  induction log with
  | nil => exact .slnil
  | cons x log ih =>
    cases x with
    | kept k n => exact ih.cons_cons k
    | direct k n cb d => exact ih.cons k
    | late _ _ _ _ | registered _ _ | deregistered _ => exact ih

/-- The numbers of those that wait increase. -/
theorem waiting_sorted {n : ℕ} (h : log.filterMap Item.received? = List.range n) :
    ((waiting log).map (·.1)).Pairwise (· < ·) ∧ ∀ p ∈ waiting log, p.1 < n := by
  have hsub : ((waiting log).map (·.1)).Sublist (List.range n) := by
    rw [← h]
    exact (List.filter_sublist.map _).trans (kept_sublist log)
  refine ⟨List.pairwise_lt_range.sublist hsub, fun p hp => ?_⟩
  exact List.mem_range.1 (hsub.subset (List.mem_map_of_mem hp))

end

/-! ### The walk -/

/-- What the pointer to the next element is good for. -/
theorem after_spec {l : List ℕ} (hl : l.Pairwise (· < ·)) {m : ℕ} (hm : m ∈ l) :
    (∀ k, NotifSys.after l (some m) = some k → m < k ∧ k ∈ l ∧ ∀ i ∈ l, m < i → k ≤ i) ∧
      (NotifSys.after l (some m) = none → ∀ i ∈ l, i ≤ m) := by
  induction l with
  | nil => exact absurd hm List.not_mem_nil
  | cons p l ih =>
    rw [List.pairwise_cons] at hl
    by_cases hp : p = m
    · subst hp
      have hafter : NotifSys.after (p :: l) (some p) = l.head? := by simp [NotifSys.after]
      rw [hafter]
      cases l with
      | nil => exact ⟨fun k hk => (by cases hk), fun _ i hi => (List.mem_singleton.1 hi).le⟩
      | cons q l =>
        have hlt : p < q := hl.1 q List.mem_cons_self
        have hq := (List.pairwise_cons.1 hl.2).1
        refine ⟨fun k hk => ?_, fun h => (by cases h)⟩
        cases hk
        refine ⟨hlt, List.mem_cons_of_mem _ List.mem_cons_self, fun i hi hpi => ?_⟩
        rcases List.mem_cons.1 hi with rfl | hi
        · omega
        · rcases List.mem_cons.1 hi with rfl | hi
          · exact le_rfl
          · exact (hq i hi).le
    · have hm' : m ∈ l := (List.mem_cons.1 hm).resolve_left (Ne.symm hp)
      have hpm : p < m := hl.1 m hm'
      have hafter : NotifSys.after (p :: l) (some m) = NotifSys.after l (some m) := by simp [NotifSys.after, hp]
      rw [hafter]
      obtain ⟨h₁, h₂⟩ := ih hl.2 hm'
      refine ⟨fun k hk => ?_, fun h i hi => ?_⟩
      · obtain ⟨hmk, hk', hmin⟩ := h₁ k hk
        refine ⟨hmk, List.mem_cons_of_mem _ hk', fun i hi hmi => ?_⟩
        rcases List.mem_cons.1 hi with rfl | hi
        · omega
        · exact hmin i hi hmi
      · rcases List.mem_cons.1 hi with rfl | hi
        · exact hpm.le
        · exact h₂ h i hi

/-- The first element. -/
theorem after_none {l : List ℕ} (hl : l.Pairwise (· < ·)) {k : ℕ} (hk : NotifSys.after l none = some k) :
    k ∈ l ∧ ∀ i ∈ l, k ≤ i := by
  cases l with
  | nil => cases hk
  | cons p l =>
    cases hk
    refine ⟨List.mem_cons_self, fun i hi => ?_⟩
    rcases List.mem_cons.1 hi with rfl | hi
    · exact le_rfl
    · exact ((List.pairwise_cons.1 hl).1 i hi).le

/-! ### What is kept -/

namespace NotifSys

/-- Where the cursor is: those of the type that wait are still ahead. -/
def Ahead (s : NotifSys) (r : Registering) : Prop :=
  match r.walk with
  | .body none _ => ∀ p ∈ waiting s.log, p.2.hdr.type ≠ r.type
  | .body (some k) next => k ∈ s.numbers ∧ (∀ m, next = some m → k < m ∧ m ∈ s.numbers) ∧
      ∀ p ∈ waiting s.log, p.2.hdr.type = r.type → p.1 = k ∨ ∃ m, next = some m ∧ m ≤ p.1
  | .advance next => (∀ m, next = some m → m ∈ s.numbers) ∧
      ∀ p ∈ waiting s.log, p.2.hdr.type = r.type → ∃ m, next = some m ∧ m ≤ p.1

/-- **What an event system keeps.** -/
structure Inv (s : NotifSys) : Prop where
  /-- The log is lawful. -/
  lawful : Lawful s.log
  /-- It tells the handlers. -/
  handlers : ∀ t, s.callbacks t = handlerAt t s.log
  /-- Notifications are numbered as they come. -/
  numbered : s.log.filterMap Item.received? = List.range s.count
  /-- None is delivered twice. -/
  once : (s.log.filterMap Item.late?).Nodup
  /-- Those delivered have come. -/
  late_lt : ∀ k ∈ s.log.filterMap Item.late?, k < s.count
  /-- Those of one type are delivered in the order they came, -/
  ordered : ∀ t, (s.log.filterMap (Item.lateOf? t)).Pairwise (· < ·)
  /-- before those that wait. -/
  before : ∀ t, ∀ k ∈ s.log.filterMap (Item.lateOf? t), ∀ p ∈ waiting s.log, p.2.hdr.type = t → k < p.1
  /-- The list has those that wait. -/
  pending : s.pending = (waiting s.log).map fun p => (p.1, p.2.pending)
  /-- One waits until the next registration of its type. -/
  since : ∀ p ∈ waiting s.log, ∃ a b, s.log = a ++ .kept p.1 p.2 :: b ∧
    b.countP (Item.registers p.2.hdr.type) = if s.callbacks p.2.hdr.type = none then 0 else 1
  /-- None is left. -/
  left : ∀ p ∈ waiting s.log, s.callbacks p.2.hdr.type = none ∨ ∃ r, s.registering = some r ∧ r.type = p.2.hdr.type
  /-- The registration in progress. -/
  walks : ∀ r, s.registering = some r → s.callbacks r.type = some r.cb ∧ s.Ahead r

variable {s : NotifSys} {n : Notif}

theorem Inv.numbers_eq (h : s.Inv) : s.numbers = (waiting s.log).map (·.1) := by
  rw [numbers, h.pending, List.map_map]
  rfl

theorem Inv.sorted (h : s.Inv) : s.numbers.Pairwise (· < ·) := by
  rw [h.numbers_eq]
  exact (waiting_sorted h.numbered).1

theorem Inv.mem_numbers (h : s.Inv) {k : ℕ} : k ∈ s.numbers ↔ ∃ p ∈ waiting s.log, p.1 = k := by
  rw [h.numbers_eq]
  exact List.mem_map

theorem inv_init : init.Inv where
  lawful := .nil
  handlers _ := rfl
  numbered := rfl
  once := List.nodup_nil
  late_lt _ hk := absurd hk List.not_mem_nil
  ordered _ := List.Pairwise.nil
  before _ _ hk := absurd hk List.not_mem_nil
  pending := rfl
  since _ hp := absurd hp List.not_mem_nil
  left _ hp := absurd hp List.not_mem_nil
  walks _ hr := by cases hr

/-- The handler of a notification is called with what was received. -/
theorem direct_of (n : Notif) : n.direct.Of n := ⟨rfl, rfl, rfl, rfl, rfl⟩

theorem pending_of (n : Notif) : n.pending.delivery.Of n := by
  refine ⟨rfl, rfl, rfl, ?_, rfl⟩
  change (if 0 < n.payload.length then some n.payload else none).getD [] = n.payload
  split
  · rfl
  · have h0 : n.payload.length = 0 := by omega
    exact (List.eq_nil_of_length_eq_zero h0).symm

/-! ### One step -/

/-- An item that neither keeps nor delivers late leaves the order of the late deliveries. -/
theorem lateOf_none {x : Item} (hx : x.late? = none) (t : ℕ) : x.lateOf? t = none := by
  cases x with
  | late k t' cb d => cases hx
  | direct _ _ _ _ | kept _ _ | registered _ _ | deregistered _ => rfl

theorem late_of_lateOf {log : List Item} {t k : ℕ} (h : k ∈ log.filterMap (Item.lateOf? t)) :
    k ∈ log.filterMap Item.late? := by
  obtain ⟨x, hx, hk⟩ := List.mem_filterMap.1 h
  refine List.mem_filterMap.2 ⟨x, hx, ?_⟩
  cases x with
  | late k' t' cb d =>
    simp only [Item.lateOf?] at hk
    split at hk
    · exact hk
    · cases hk
  | direct _ _ _ _ | kept _ _ | registered _ _ | deregistered _ => cases hk

theorem filterMap_snoc (log : List Item) {f : Item → Option ℕ} {x : Item} (hx : f x = none) :
    (log ++ [x]).filterMap f = log.filterMap f := by
  simp [hx]

/-- Where one waits, as the log grows. -/
theorem since_snoc {log : List Item} {k c : ℕ} {n : Notif} (x : Item)
    (h : ∃ a b, log = a ++ .kept k n :: b ∧ b.countP (Item.registers n.hdr.type) = c) :
    ∃ a b, log ++ [x] = a ++ .kept k n :: b ∧
      b.countP (Item.registers n.hdr.type) = c + if x.registers n.hdr.type then 1 else 0 := by
  obtain ⟨a, b, hlog, hc⟩ := h
  refine ⟨a, b ++ [x], ?_, ?_⟩
  · rw [hlog, List.append_assoc]
    rfl
  · rw [List.countP_append, hc, List.countP_singleton]

/-- The walk does not depend on the log, but for those that wait. -/
theorem Ahead.congr {s' : NotifSys} {r : Registering} (h : s.Ahead r) (hw : waiting s'.log = waiting s.log)
    (hn : s'.numbers = s.numbers) : s'.Ahead r := by
  rw [Ahead, hw, hn]
  exact h

/-- A notification is delivered at once. -/
theorem Inv.direct (h : s.Inv) {cb : ℕ} (hcb : s.callbacks n.hdr.type = some cb) :
    Inv { s with
      count := s.count + 1
      running := s.running + 1
      log := s.log ++ [.direct s.count n cb n.direct] } := by
  have hw : waiting (s.log ++ [Item.direct s.count n cb n.direct]) = waiting s.log := waiting_other rfl rfl
  have hlate := filterMap_snoc s.log (f := Item.late?) (x := .direct s.count n cb n.direct) rfl
  have hof (t : ℕ) := filterMap_snoc s.log (f := Item.lateOf? t) (x := .direct s.count n cb n.direct) rfl
  constructor
  case lawful => exact h.lawful.snoc ⟨(h.handlers _).symm.trans hcb, direct_of n⟩
  case handlers => intro t; simp [h.handlers t]
  case numbered => simp [Item.received?, h.numbered, List.range_succ]
  case once => rw [hlate]; exact h.once
  case late_lt =>
    intro k hk
    rw [hlate] at hk
    exact (h.late_lt k hk).trans (Nat.lt_succ_self _)
  case ordered => intro t; rw [hof]; exact h.ordered t
  case before => intro t; rw [hof, hw]; exact h.before t
  case pending => rw [hw]; exact h.pending
  case since => intro p hp; rw [hw] at hp; exact since_snoc (.direct s.count n cb n.direct) (h.since p hp)
  case left => rw [hw]; exact h.left
  case walks => exact fun r hr => ⟨(h.walks r hr).1, (h.walks r hr).2.congr hw rfl⟩

/-- A notification is kept. -/
theorem Inv.keep (h : s.Inv) (hcb : s.callbacks n.hdr.type = none) :
    Inv { s with
      pending := s.pending ++ [(s.count, n.pending)]
      count := s.count + 1
      log := s.log ++ [.kept s.count n] } := by
  have hk : s.count ∉ s.log.filterMap Item.late? := fun hk => absurd (h.late_lt _ hk) (lt_irrefl _)
  have hw : waiting (s.log ++ [Item.kept s.count n]) = waiting s.log ++ [(s.count, n)] := waiting_kept n hk
  have hlate := filterMap_snoc s.log (f := Item.late?) (x := .kept s.count n) rfl
  have hof (t : ℕ) := filterMap_snoc s.log (f := Item.lateOf? t) (x := .kept s.count n) rfl
  constructor
  case lawful => exact h.lawful.snoc ((h.handlers _).symm.trans hcb)
  case handlers => intro t; simp [h.handlers t]
  case numbered => simp [Item.received?, h.numbered, List.range_succ]
  case once => rw [hlate]; exact h.once
  case late_lt =>
    intro k hk
    rw [hlate] at hk
    exact (h.late_lt k hk).trans (Nat.lt_succ_self _)
  case ordered => intro t; rw [hof]; exact h.ordered t
  case before =>
    intro t k hk p hp hpt
    rw [hof] at hk
    rw [hw, List.mem_append, List.mem_singleton] at hp
    rcases hp with hp | rfl
    · exact h.before t k hk p hp hpt
    · exact h.late_lt k (late_of_lateOf hk)
  case pending => rw [hw, List.map_append, ← h.pending]; rfl
  case since =>
    intro p hp
    rw [hw, List.mem_append, List.mem_singleton] at hp
    rcases hp with hp | rfl
    · exact since_snoc (.kept s.count n) (h.since p hp)
    · exact ⟨s.log, [], rfl, by simp [hcb]⟩
  case left =>
    intro p hp
    rw [hw, List.mem_append, List.mem_singleton] at hp
    rcases hp with hp | rfl
    · exact h.left p hp
    · exact .inl hcb
  case walks =>
    intro r hr
    obtain ⟨hrc, ha⟩ := h.walks r hr
    refine ⟨hrc, ?_⟩
    -- the new one is of another type, so nothing of the type is added behind the cursor
    have hne : n.hdr.type ≠ r.type := fun he => by rw [he, hrc] at hcb; cases hcb
    have hmono : ∀ m ∈ s.numbers, m ∈ (s.pending ++ [(s.count, n.pending)]).map (·.1) := by
      intro m hm
      rw [List.map_append]
      exact List.mem_append_left _ hm
    obtain ⟨type, cb, w⟩ := r
    cases w with
    | body cur next =>
      cases cur with
      | none =>
        intro p hp
        rw [hw, List.mem_append, List.mem_singleton] at hp
        rcases hp with hp | rfl
        · exact ha p hp
        · exact hne
      | some k =>
        refine ⟨hmono k ha.1, fun m hm => ⟨(ha.2.1 m hm).1, hmono m (ha.2.1 m hm).2⟩, fun p hp hpt => ?_⟩
        rw [hw, List.mem_append, List.mem_singleton] at hp
        rcases hp with hp | rfl
        · exact ha.2.2 p hp hpt
        · exact absurd hpt hne
    | advance next =>
      refine ⟨fun m hm => hmono m (ha.1 m hm), fun p hp hpt => ?_⟩
      rw [hw, List.mem_append, List.mem_singleton] at hp
      rcases hp with hp | rfl
      · exact ha.2 p hp hpt
      · exact absurd hpt hne

theorem Inv.handleNotifMsg (h : s.Inv) (n : Notif) : (s.handleNotifMsg n).Inv := by
  rw [NotifSys.handleNotifMsg]
  split
  · exact h
  · split
    next hcb => exact h.keep hcb
    next cb hcb => exact h.direct hcb

/-- A change of the handlers is noted in the log. -/
theorem Inv.note (h : s.Inv) {x : Item} {cbs : ℕ → Option ℕ} {reg : Option Registering} (hx : x.Fits s.log)
    (hk : x.kept? = none) (hl : x.late? = none) (hr : x.received? = none)
    (hcbs : ∀ t, cbs t = handlerAt t (s.log ++ [x]))
    (hsince : ∀ p ∈ waiting s.log, (if cbs p.2.hdr.type = none then 0 else 1) =
      (if s.callbacks p.2.hdr.type = none then 0 else 1) + if x.registers p.2.hdr.type then 1 else 0)
    (hleft : ∀ p ∈ waiting s.log, cbs p.2.hdr.type = none ∨ ∃ r, reg = some r ∧ r.type = p.2.hdr.type)
    (hwalks : ∀ r, reg = some r → cbs r.type = some r.cb ∧ s.Ahead r) :
    Inv { s with callbacks := cbs, registering := reg, log := s.log ++ [x] } := by
  have hw : waiting (s.log ++ [x]) = waiting s.log := waiting_other hk hl
  have hlate := filterMap_snoc s.log hl
  have hof (t : ℕ) := filterMap_snoc s.log (lateOf_none hl t)
  constructor
  case lawful => exact h.lawful.snoc hx
  case handlers => exact hcbs
  case numbered => rw [filterMap_snoc s.log hr]; exact h.numbered
  case once => rw [hlate]; exact h.once
  case late_lt => rw [hlate]; exact h.late_lt
  case ordered => intro t; rw [hof]; exact h.ordered t
  case before => intro t; rw [hof, hw]; exact h.before t
  case pending => rw [hw]; exact h.pending
  case since =>
    intro p hp
    rw [hw] at hp
    rw [hsince p hp]
    exact since_snoc x (h.since p hp)
  case left => rw [hw]; exact hleft
  case walks => exact fun r hr => ⟨(hwalks r hr).1, (hwalks r hr).2.congr hw rfl⟩

/-- Between two registrations those that wait have no handler. -/
theorem Inv.idle (h : s.Inv) (hs : s.registering = none) {p : ℕ × Notif} (hp : p ∈ waiting s.log) :
    s.callbacks p.2.hdr.type = none := by
  rcases h.left p hp with hn | ⟨r, hr, -⟩
  · exact hn
  · rw [hs] at hr
    cases hr

/-- The cursor at an element that none of the type is before. -/
theorem Inv.ahead_body (h : s.Inv) {type cb k : ℕ} (hk : k ∈ s.numbers)
    (hmin : ∀ p ∈ waiting s.log, p.2.hdr.type = type → k ≤ p.1) :
    s.Ahead ⟨type, cb, .body (some k) (after s.numbers (some k))⟩ := by
  obtain ⟨hnext, hlast⟩ := after_spec h.sorted hk
  refine ⟨hk, fun m hm => ⟨(hnext m hm).1, (hnext m hm).2.1⟩, fun p hp ht => ?_⟩
  have hm : p.1 ∈ s.numbers := h.mem_numbers.2 ⟨p, hp, rfl⟩
  rcases (hmin p hp ht).eq_or_lt with he | hlt
  · exact .inl he.symm
  · right
    cases hn : after s.numbers (some k) with
    | none => exact absurd (hlast hn p.1 hm) (by omega)
    | some m => exact ⟨m, rfl, (hnext m hn).2.2 p.1 hm hlt⟩

/-- The cursor at the start of the walk. -/
theorem Inv.ahead_start (h : s.Inv) (type cb : ℕ) :
    s.Ahead ⟨type, cb, .body (after s.numbers none) (after s.numbers (after s.numbers none))⟩ := by
  cases hfirst : after s.numbers none with
  | none =>
    intro p hp
    have hm : p.1 ∈ s.numbers := h.mem_numbers.2 ⟨p, hp, rfl⟩
    rw [List.head?_eq_none_iff.1 hfirst] at hm
    cases hm
  | some k =>
    obtain ⟨hk, hmin⟩ := after_none h.sorted hfirst
    exact h.ahead_body hk fun p hp _ => hmin p.1 (h.mem_numbers.2 ⟨p, hp, rfl⟩)

theorem Inv.register (h : s.Inv) (hs : s.registering = none) (type cb : ℕ) :
    (s.eventChannelRegister type cb).Inv := by
  rw [eventChannelRegister]
  split
  · exact h
  next hcb =>
    refine h.note ((h.handlers type).symm.trans hcb) rfl rfl rfl (fun t => ?_) (fun p hp => ?_) (fun p hp => ?_)
      (fun r hr => ?_)
    · rw [handlerAt_registered, Function.update_apply, h.handlers t]
      simp only [eq_comm]
    · have hidle := h.idle hs hp
      rw [Function.update_apply, hidle]
      simp only [Item.registers, beq_iff_eq]
      by_cases he : p.2.hdr.type = type
      · simp [he]
      · simp [he, Ne.symm he]
    · by_cases he : p.2.hdr.type = type
      · exact .inr ⟨_, rfl, he.symm⟩
      · left
        rw [Function.update_of_ne he]
        exact h.idle hs hp
    · cases hr
      exact ⟨Function.update_self .., h.ahead_start type cb⟩

theorem Inv.deregister (h : s.Inv) (hs : s.registering = none) (type : ℕ) : (s.eventChannelDeregister type).Inv := by
  rw [eventChannelDeregister]
  split
  · exact h
  next cb hcb =>
    have hfits : (Item.deregistered type).Fits s.log := by
      rw [Item.Fits, ← h.handlers type, hcb]
      exact Option.some_ne_none cb
    have hne {p : ℕ × Notif} (hp : p ∈ waiting s.log) : p.2.hdr.type ≠ type := by
      rintro rfl
      rw [h.idle hs hp] at hcb
      cases hcb
    refine h.note hfits rfl rfl rfl (fun t => ?_) (fun p hp => ?_) (fun p hp => ?_) (fun r hr => ?_)
    · rw [handlerAt_deregistered, Function.update_apply, h.handlers t]
      simp only [eq_comm]
    · rw [Function.update_of_ne (hne hp)]
      rfl
    · left
      rw [Function.update_of_ne (hne hp)]
      exact h.idle hs hp
    · rw [hs] at hr
      cases hr

/-- The number says which one it is. -/
theorem Inv.waiting_inj (h : s.Inv) {p q : ℕ × Notif} (hp : p ∈ waiting s.log) (hq : q ∈ waiting s.log)
    (he : p.1 = q.1) : p = q := by
  have hnodup : ((waiting s.log).map (·.1)).Nodup := by
    refine List.Pairwise.imp (fun hlt => ?_) (waiting_sorted h.numbered).1
    exact Nat.ne_of_lt hlt
  exact List.inj_on_of_nodup_map hnodup hp hq he

/-- The element at the cursor. -/
theorem Inv.found (h : s.Inv) {k : ℕ} (hk : k ∈ s.numbers) :
    ∃ n, (k, n) ∈ waiting s.log ∧ s.pending.find? (·.1 = k) = some (k, n.pending) := by
  obtain ⟨p, hp, rfl⟩ := h.mem_numbers.1 hk
  have hmem : (p.1, p.2.pending) ∈ s.pending := by
    rw [h.pending]
    exact List.mem_map_of_mem hp
  cases hf : s.pending.find? (·.1 = p.1) with
  | none => exact absurd (List.find?_eq_none.1 hf _ hmem) (by simp)
  | some q =>
    have hq₁ : q.1 = p.1 := by simpa using List.find?_some hf
    have hq := List.mem_of_find?_eq_some hf
    rw [h.pending] at hq
    obtain ⟨p', hp', rfl⟩ := List.mem_map.1 hq
    exact ⟨p'.2, hq₁ ▸ hp', by rw [← hq₁]⟩

/-- The walk changes nothing but its cursor. -/
theorem Inv.move (h : s.Inv) {r : Registering} (hr : s.registering = some r) {w : Walk}
    (hw : s.Ahead { r with walk := w }) : Inv { s with registering := some { r with walk := w } } where
  lawful := h.lawful
  handlers := h.handlers
  numbered := h.numbered
  once := h.once
  late_lt := h.late_lt
  ordered := h.ordered
  before := h.before
  pending := h.pending
  since := h.since
  left p hp := (h.left p hp).imp_right fun ⟨r', hr', ht⟩ => by
    cases hr.symm.trans hr'
    exact ⟨_, rfl, ht⟩
  walks r' hr' := by
    cases hr'
    exact ⟨(h.walks r hr).1, hw⟩

/-- The walk ends. -/
theorem Inv.over (h : s.Inv) {r : Registering} (hr : s.registering = some r)
    (hnone : ∀ p ∈ waiting s.log, p.2.hdr.type ≠ r.type) : Inv { s with registering := none } where
  lawful := h.lawful
  handlers := h.handlers
  numbered := h.numbered
  once := h.once
  late_lt := h.late_lt
  ordered := h.ordered
  before := h.before
  pending := h.pending
  since := h.since
  left p hp := by
    rcases h.left p hp with hn | ⟨r', hr', ht⟩
    · exact .inl hn
    · cases hr.symm.trans hr'
      exact absurd ht.symm (hnone p hp)
  walks r' hr' := by cases hr'

/-- The walk delivers the element at the cursor. -/
theorem Inv.late (h : s.Inv) {type cb k : ℕ} {next : Option ℕ}
    (hr : s.registering = some ⟨type, cb, .body (some k) next⟩) (hn : (k, n) ∈ waiting s.log)
    (ht : n.hdr.type = type) :
    Inv { s with
      pending := s.pending.filter (·.1 ≠ k)
      running := s.running + 1
      registering := some ⟨type, cb, .advance next⟩
      log := s.log ++ [.late k type cb n.pending.delivery] } := by
  obtain ⟨hcb, hk, hnext, hahead⟩ := h.walks _ hr
  have hw : waiting (s.log ++ [Item.late k type cb n.pending.delivery]) = _ := waiting_late type cb n.pending.delivery
  have hmem {p : ℕ × Notif} (hp : p ∈ waiting (s.log ++ [Item.late k type cb n.pending.delivery])) :
      p ∈ waiting s.log ∧ p.1 ≠ k := by
    rw [hw, List.mem_filter] at hp
    exact ⟨hp.1, of_decide_eq_true hp.2⟩
  have hfresh : k ∉ s.log.filterMap Item.late? := (mem_waiting.1 hn).2
  have hlate : (s.log ++ [Item.late k type cb n.pending.delivery]).filterMap Item.late? =
      s.log.filterMap Item.late? ++ [k] := List.filterMap_append
  have hof (t : ℕ) : (s.log ++ [Item.late k type cb n.pending.delivery]).filterMap (Item.lateOf? t) =
      s.log.filterMap (Item.lateOf? t) ++ if type = t then [k] else [] := by
    rw [List.filterMap_append]
    congr 1
    by_cases he : type = t <;> simp [Item.lateOf?, he]
  constructor
  case lawful =>
    refine h.lawful.snoc ⟨(h.handlers type).symm.trans hcb, ?_⟩
    obtain ⟨a, b, hlog, hc⟩ := h.since _ hn
    refine ⟨a, n, b, hlog, ht, pending_of n, ?_⟩
    rw [ht, hcb] at hc
    exact hc
  case handlers => intro t; rw [handlerAt_late]; exact h.handlers t
  case numbered => rw [filterMap_snoc s.log rfl]; exact h.numbered
  case once =>
    rw [hlate]
    exact h.once.append (List.nodup_singleton k) (List.disjoint_singleton.2 hfresh)
  case late_lt =>
    intro i hi
    rw [hlate, List.mem_append, List.mem_singleton] at hi
    rcases hi with hi | rfl
    · exact h.late_lt i hi
    · exact (waiting_sorted h.numbered).2 _ hn
  case ordered =>
    intro t
    rw [hof]
    by_cases he : type = t
    · rw [if_pos he, List.pairwise_append]
      refine ⟨h.ordered t, List.pairwise_singleton _ k, fun i hi j hj => ?_⟩
      rw [List.mem_singleton.1 hj]
      exact h.before t i hi _ hn (ht.trans he)
    · rw [if_neg he, List.append_nil]
      exact h.ordered t
  case before =>
    intro t i hi p hp hpt
    obtain ⟨hp, hpk⟩ := hmem hp
    rw [hof, List.mem_append] at hi
    rcases hi with hi | hi
    · exact h.before t i hi p hp hpt
    · split at hi
      next he =>
        rw [List.mem_singleton.1 hi]
        obtain ⟨m, hm, hle⟩ := (hahead p hp (hpt.trans he.symm)).resolve_left hpk
        exact (hnext m hm).1.trans_le hle
      · cases hi
  case pending =>
    rw [hw, h.pending, List.filter_map]
    rfl
  case since =>
    intro p hp
    exact since_snoc (.late k type cb n.pending.delivery) (h.since p (hmem hp).1)
  case left =>
    intro p hp
    refine (h.left p (hmem hp).1).imp_right fun ⟨r', hr', ht'⟩ => ?_
    cases hr.symm.trans hr'
    exact ⟨_, rfl, ht'⟩
  case walks =>
    rintro r' hr'
    cases hr'
    refine ⟨hcb, fun m hm => ?_, fun p hp hpt => ?_⟩
    · obtain ⟨hlt, hm'⟩ := hnext m hm
      obtain ⟨p, hp, rfl⟩ := List.mem_map.1 hm'
      exact List.mem_map_of_mem (List.mem_filter.2 ⟨hp, decide_eq_true hlt.ne'⟩)
    · exact (hahead p (hmem hp).1 hpt).resolve_left (hmem hp).2

theorem Inv.walk (h : s.Inv) {r : Registering} (hr : s.registering = some r) : (s.walk r).Inv := by
  obtain ⟨type, cb, w⟩ := r
  obtain ⟨hcb, ha⟩ := h.walks _ hr
  cases w with
  | body cur next =>
    cases cur with
    | none => exact h.over hr ha
    | some k =>
      obtain ⟨hk, hnext, hahead⟩ := ha
      obtain ⟨n, hn, hfind⟩ := h.found hk
      simp only [NotifSys.walk, hfind]
      split
      next ht => exact h.late hr hn ht
      next ht =>
        refine h.move hr ⟨fun m hm => (hnext m hm).2, fun p hp hpt => (hahead p hp hpt).resolve_left fun he => ?_⟩
        have hpn : p = (k, n) := h.waiting_inj hp hn he
        rw [hpn] at hpt
        exact ht hpt
  | advance next =>
    obtain ⟨hnext, hahead⟩ := ha
    apply h.move hr
    cases next with
    | none =>
      intro p hp hpt
      obtain ⟨m, hm, -⟩ := hahead p hp hpt
      cases hm
    | some k =>
      refine h.ahead_body (hnext k rfl) fun p hp hpt => ?_
      obtain ⟨m, hm, hle⟩ := hahead p hp hpt
      cases hm
      exact hle

/-- What a handler does at its end is not seen. -/
theorem Inv.done (h : s.Inv) (k : ℕ) : Inv { s with running := k } where
  lawful := h.lawful
  handlers := h.handlers
  numbered := h.numbered
  once := h.once
  late_lt := h.late_lt
  ordered := h.ordered
  before := h.before
  pending := h.pending
  since := h.since
  left := h.left
  walks := h.walks

/-- **Every step keeps the invariant.** -/
theorem Inv.step {s' : NotifSys} (h : s.Inv) {a : NotifLabel} (hs : s.step a = some s') : s'.Inv := by
  cases a with
  | recv n =>
    simp only [NotifSys.step] at hs
    split at hs <;> cases hs
    exact h.handleNotifMsg n
  | register type cb =>
    simp only [NotifSys.step] at hs
    split at hs <;> cases hs
    next hidle => exact h.register hidle.2 type cb
  | deregister type =>
    simp only [NotifSys.step] at hs
    split at hs <;> cases hs
    next hidle => exact h.deregister hidle.2 type
  | walk =>
    simp only [NotifSys.step] at hs
    split at hs
    · obtain ⟨r, hr, rfl⟩ := Option.map_eq_some_iff.1 hs
      exact h.walk hr
    · cases hs
  | done =>
    simp only [NotifSys.step] at hs
    split at hs <;> cases hs
    exact h.done _

theorem inv_of_reach (h : Reach step (fun _ _ => True) init s) : s.Inv :=
  h.invariant inv_init fun _ _ _ hinv _ hs => hinv.step hs

/-! ### The walk ends -/

/-- How many elements of a list are ahead of a cursor. -/
def ahead (l : List ℕ) : Option ℕ → ℕ
  | none => 0
  | some m => (l.toFinset.filter (m ≤ ·)).card

/-- What is left of a walk. -/
def rank (s : NotifSys) (r : Registering) : ℕ :=
  match r.walk with
  | .body cur _ => 2 * ahead s.numbers cur + 1
  | .advance next => 2 * ahead s.numbers next + 2

/-- A cursor that moves on has less ahead. -/
theorem ahead_lt {l l' : List ℕ} {k : ℕ} {next : Option ℕ} (hk : k ∈ l) (hnext : ∀ m, next = some m → k < m)
    (hsub : l' ⊆ l) : ahead l' next < ahead l (some k) := by
  have hmem : k ∈ l.toFinset.filter (k ≤ ·) := Finset.mem_filter.2 ⟨List.mem_toFinset.2 hk, le_rfl⟩
  cases next with
  | none => exact Finset.card_pos.2 ⟨k, hmem⟩
  | some m =>
    have hlt := hnext m rfl
    have hsubset : l'.toFinset.filter (m ≤ ·) ⊆ l.toFinset.filter (k ≤ ·) := by
      intro i hi
      rw [Finset.mem_filter, List.mem_toFinset] at hi ⊢
      exact ⟨hsub hi.1, by omega⟩
    refine Finset.card_lt_card ((Finset.ssubset_iff_of_subset hsubset).2 ⟨k, hmem, fun hk' => ?_⟩)
    rw [Finset.mem_filter] at hk'
    omega

theorem Inv.rank_walk (h : s.Inv) {r : Registering} (hr : s.registering = some r) :
    (s.walk r).registering = none ∨
      ∃ r', (s.walk r).registering = some r' ∧ (s.walk r).rank r' < s.rank r := by
  obtain ⟨type, cb, w⟩ := r
  have ha := (h.walks _ hr).2
  cases w with
  | body cur next =>
    cases cur with
    | none => exact .inl rfl
    | some k =>
      obtain ⟨hk, hnext, -⟩ := ha
      obtain ⟨n, -, hfind⟩ := h.found hk
      have hlt {l : List ℕ} (hl : l ⊆ s.numbers) := ahead_lt hk (fun m hm => (hnext m hm).1) hl
      right
      simp only [NotifSys.walk, hfind]
      split
      · refine ⟨_, rfl, ?_⟩
        have hsub : (s.pending.filter (·.1 ≠ k)).map (·.1) ⊆ s.numbers := 
          List.map_subset _ (List.filter_subset_self _)
        have hless := hlt hsub
        simp only [rank, numbers] at hless ⊢
        omega
      · refine ⟨_, rfl, ?_⟩
        have hless := hlt (List.Subset.refl s.numbers)
        simp only [rank, numbers] at hless ⊢
        omega
  | advance next =>
    refine .inr ⟨_, rfl, ?_⟩
    simp only [rank, NotifSys.walk]
    exact Nat.lt_succ_self _

/-- The steps the event system takes by itself. -/
def Own (_ : NotifSys) (a : NotifLabel) : Prop := a = .walk ∨ a = .done

/-- The handlers that run return. -/
theorem reach_idle (s : NotifSys) : Reach step Own s { s with running := 0 } := by
  obtain ⟨cbs, pending, count, running, reg, log⟩ := s
  induction running with
  | zero => exact .refl
  | succ k ih => exact reach_trans (.tail .refl (.inr rfl) rfl) ih

/-- **A registration ends**, left to itself. -/
theorem Inv.exists_registered (h : s.Inv) :
    ∃ s', Reach NotifSys.step Own s s' ∧ s'.running = 0 ∧ s'.registering = none := by
  cases hr : s.registering with
  | none => exact ⟨_, reach_idle s, rfl, hr⟩
  | some r =>
    induction hm : s.rank r using Nat.strong_induction_on generalizing s r with
    | _ m ih =>
      have hi : Inv { s with running := 0 } := h.done 0
      have hstep : NotifSys.step { s with running := 0 } .walk = some (NotifSys.walk { s with running := 0 } r) := by
        simp [NotifSys.step, hr]
      have hw := reach_trans (reach_idle s) (.tail .refl (.inl rfl) hstep)
      rcases hi.rank_walk hr with hnone | ⟨r', hr', hlt⟩
      · exact ⟨_, reach_trans hw (reach_idle _), rfl, hnone⟩
      · obtain ⟨s', hs', hend⟩ := ih _ (hm ▸ hlt) (hi.walk hr) r' hr' rfl
        exact ⟨s', reach_trans hw hs', hend⟩

end NotifSys

/-- A notification that is received is delivered or kept. -/
theorem NotifSys.Inv.received {s : NotifSys} (h : s.Inv) {n : Notif} (hn : 0 < n.hdr.payloadSize → n.data ≠ none) :
    (s.handleNotifMsg n).log = s.log ++ [match handlerAt n.hdr.type s.log with
      | some cb => Item.direct s.count n cb n.direct
      | none => Item.kept s.count n] := by
  rw [NotifSys.handleNotifMsg, if_neg fun hbad => hn hbad.1 hbad.2, ← h.handlers]
  cases s.callbacks n.hdr.type <;> rfl

/-- **Every notification is delivered.** In every run a notification that is received is delivered at
once, or kept when its type has no handler; the log is lawful; those kept are delivered once, those of
one type in the order they came, and the others stay as they are. One whose type has a handler waits only
while that handler is being registered, which comes to an end. -/
theorem notifications_delivered {s : NotifSys} (h : Reach NotifSys.step (fun _ _ => True) .init s) :
    (∀ n : Notif, (0 < n.hdr.payloadSize → n.data ≠ none) →
      (s.handleNotifMsg n).log = s.log ++ [match handlerAt n.hdr.type s.log with
        | some cb => .direct s.count n cb n.direct
        | none => .kept s.count n]) ∧
      Lawful s.log ∧ s.log.filterMap Item.received? = List.range s.count ∧
      (s.log.filterMap Item.late?).Nodup ∧ (∀ t, (s.log.filterMap (Item.lateOf? t)).Pairwise (· < ·)) ∧
      s.pending = (waiting s.log).map (fun p => (p.1, p.2.pending)) ∧
      (∀ p ∈ waiting s.log, handlerAt p.2.hdr.type s.log ≠ none →
        ∃ r, s.registering = some r ∧ r.type = p.2.hdr.type) ∧
      ∃ s', Reach NotifSys.step NotifSys.Own s s' ∧ s'.running = 0 ∧ s'.registering = none := by
  have hinv := NotifSys.inv_of_reach h
  refine ⟨fun n hn => hinv.received hn, hinv.lawful, hinv.numbered, hinv.once, hinv.ordered, hinv.pending,
    fun p hp hne => ?_, hinv.exists_registered⟩
  rw [← hinv.handlers] at hne
  exact (hinv.left p hp).resolve_left hne

/-- Two kinds of notifications come before their handlers; one more comes while the first handler runs. -/
theorem notifications_delivered_interleaved :
    ∃ s, Reach NotifSys.step (fun _ _ => True) .init s ∧
      s.log.filterMap Item.late? = [0, 2] ∧ s.numbers = [1, 3] ∧ s.registering = none ∧ Lawful s.log := by
  let n (t : ℕ) : Notif := ⟨0, ⟨0, t, 1, 0, 0, 0, 0, 0⟩, some [7]⟩
  obtain ⟨s, hs, hlate, hnum, hreg⟩ : ∃ s, Reach NotifSys.step (fun _ _ => True) .init s ∧
      s.log.filterMap Item.late? = [0, 2] ∧ s.numbers = [1, 3] ∧ s.registering = none :=
    exists_reach_of_exec [.recv (n 5), .recv (n 6), .recv (n 5), .register 5 1, .walk, .recv (n 6), .done, .walk,
      .walk, .walk, .walk, .done, .walk, .walk, .walk, .walk] (by decide)
  exact ⟨s, hs, hlate, hnum, hreg, (notifications_delivered hs).2.1⟩

end DpuOffload
