import DpuOffload.Protocol.Actions
import Mathlib.Logic.Function.Basic

/-!
# The SPs of a cluster

All the SPs that take part in a group, each an engine of its own, with the messages on
their way between them. From one SP to another messages stay in order and none is lost:
what an SP has emitted stays in its log, and a delivery is about the first message of a log
that the other SP has not received. Everything else that happens to an SP, the messages of its
own ranks and the completion of its sends, is an event of its own.

What an SP reads of its other groups (`View`) changes while it hears of them, so that each
step comes with a view.
-/

namespace DpuOffload

/-- What an SP reads of its other groups. -/
structure View where
  /-- `procs_cache.size`. -/
  cacheSize : ℕ
  /-- The entries of the world group, unless this group is the world group. -/
  world : Option (List PeerCacheEntry)
  deriving DecidableEq

/-- Some SPs, and a group whose ranks are on them. -/
structure Cluster where
  /-- How many SPs there are. -/
  num : ℕ
  /-- What each SP reads, but for its other groups. -/
  sys : ℕ → GpCtx
  /-- The uid of the group. -/
  uid : ℤ
  /-- The number of ranks. -/
  size : ℕ
  /-- The SP of a rank. -/
  spOf : ℕ → ℕ
  /-- The id a rank has there. -/
  client : ℕ → ℕ
  /-- The message with which a rank joins a version. -/
  msg : ℕ → ℕ → GroupAddMsg
  /-- They are SPs. -/
  onDpu : ∀ i, (sys i).onDpu = true
  /-- They agree on the group. -/
  gpUid : ∀ i, (sys i).gpUid = uid
  /-- They know their ids. -/
  globalId : ∀ i, (sys i).globalId = i
  /-- They know how many they are. -/
  numServiceProcs : ∀ i, (sys i).numServiceProcs = num
  /-- The group has a uid. -/
  uid_ne : uid ≠ INT_MAX
  /-- A group has ranks. -/
  pos : 0 < size
  /-- A group fits in memory. -/
  alloc : Allocatable size
  /-- A rank is on an SP. -/
  spOf_lt : ∀ r < size, spOf r < num
  /-- A rank says which group it joins, -/
  msg_groupUid : ∀ r k, (msg r k).rankInfo.groupUid = uid
  /-- its size, -/
  msg_groupSize : ∀ r k, (msg r k).rankInfo.groupSize = size
  /-- which rank it is, -/
  msg_groupRank : ∀ r k, (msg r k).rankInfo.groupRank = r
  /-- and at which version. -/
  msg_groupSeqNum : ∀ r k, (msg r k).rankInfo.groupSeqNum = k

/-- What SP `i` reads in a callback. -/
def Cluster.ctx (C : Cluster) (i : ℕ) (v : View) : GpCtx :=
  { C.sys i with cacheSize := v.cacheSize, world := v.world }

/-- The SPs, and how many messages each has had from each other. -/
structure Net where
  /-- The SPs. -/
  sp : ℕ → Engine
  /-- How many messages of the first SP the second has received. -/
  got : ℕ → ℕ → ℕ

/-- Nobody has heard of the group. -/
def Net.init : Net where
  sp _ := Engine.init
  got _ _ := 0

/-- What an effect is to SP `dest`, if it is a message of SP `src` to it. -/
def Effect.toSp (src dest : ℕ) : Effect → Option Event
  | .entriesToSp d batch => if d = dest then some (.peerCacheEntries src batch) else none
  | .revokeToSp d m => if d = dest then some (.revokeFromSp m) else none
  | _ => none

/-- The messages from an SP to another that have not been received, the oldest first. -/
def Net.link (s : Net) (src dest : ℕ) : List Event :=
  ((s.sp src).log.filterMap (Effect.toSp src dest)).drop (s.got src dest)

/-- SP `i` after a callback. -/
def Net.put (s : Net) (i : ℕ) (e : Engine) : Net := { s with sp := Function.update s.sp i e }

/-- SP `j` has received one more message of SP `i`. -/
def Net.receive (s : Net) (i j : ℕ) : Net :=
  { s with got := Function.update s.got i (Function.update (s.got i) j (s.got i j + 1)) }

/-- What happens. -/
inductive NetLabel where
  /-- An event of SP `i` that is not a message of an SP. -/
  | own (i : ℕ) (v : View) (ev : Event)
  /-- SP `j` gets the next message of SP `i`. -/
  | deliver (i j : ℕ) (v : View)

/-- One step of the cluster. -/
def Net.step (C : Cluster) (s : Net) : NetLabel → Option Net
  | .own i v ev => ((s.sp i).step (C.ctx i v) ev).map (s.put i)
  | .deliver i j v => (s.link i j).head?.bind fun ev => ((s.sp j).step (C.ctx j v) ev).map ((s.receive i j).put j)

variable {C : Cluster} {s s' : Net}

@[simp] theorem Net.put_sp_self (i : ℕ) (e : Engine) : (s.put i e).sp i = e := Function.update_self ..

theorem Net.put_sp_of_ne {i j : ℕ} (h : j ≠ i) (e : Engine) : (s.put i e).sp j = s.sp j := Function.update_of_ne h ..

@[simp] theorem Net.put_got (i : ℕ) (e : Engine) : (s.put i e).got = s.got := rfl

@[simp] theorem Net.receive_sp (i j : ℕ) : (s.receive i j).sp = s.sp := rfl

/-- **A step is a callback of one SP**, about an event of its own or the first message on
one of its links. -/
theorem Net.step_cases {l : NetLabel} (h : s.step C l = some s') :
    (∃ i v ev e, l = .own i v ev ∧ (s.sp i).step (C.ctx i v) ev = some e ∧ s' = s.put i e) ∨
      ∃ i j v ev es e, l = .deliver i j v ∧ s.link i j = ev :: es ∧ (s.sp j).step (C.ctx j v) ev = some e ∧
        s' = (s.receive i j).put j e := by
  cases l with
  | own i v ev =>
    obtain ⟨e, he, rfl⟩ := Option.map_eq_some_iff.1 h
    exact .inl ⟨i, v, ev, e, rfl, he, rfl⟩
  | deliver i j v =>
    obtain ⟨ev, hev, h⟩ := Option.bind_eq_some_iff.1 h
    obtain ⟨e, he, rfl⟩ := Option.map_eq_some_iff.1 h
    obtain ⟨es, hes⟩ := List.head?_eq_some_iff.1 hev
    exact .inr ⟨i, j, v, ev, es, e, rfl, hes, he, rfl⟩

/-- A message on a link was emitted. -/
theorem Net.mem_link {i j : ℕ} {ev : Event} (h : ev ∈ s.link i j) : ∃ x ∈ (s.sp i).log, x.toSp i j = some ev :=
  List.mem_filterMap.1 (List.mem_of_mem_drop h)

/-! ### The links -/

variable {i j : ℕ} {e : Engine} {out : List Effect}

/-- What an SP has sent to another. -/
def Net.sent (s : Net) (i j : ℕ) : List Event := (s.sp i).log.filterMap (Effect.toSp i j)

theorem Net.link_put_of_ne {a : ℕ} (h : a ≠ j) (b : ℕ) : (s.put j e).link a b = s.link a b := by
  rw [link, link, put_sp_of_ne h, put_got]

/-- An SP sends. -/
theorem Net.link_put_self (hlog : e.log = (s.sp j).log ++ out) {b : ℕ} (hgot : s.got j b ≤ (s.sent j b).length) :
    (s.put j e).link j b = s.link j b ++ out.filterMap (Effect.toSp j b) := by
  rw [sent] at hgot
  rw [link, link, put_sp_self, put_got, hlog, List.filterMap_append, List.drop_append_of_le_length hgot]

/-- A message is received. -/
theorem Net.link_receive (s : Net) (i j a b : ℕ) :
    (s.receive i j).link a b = if a = i ∧ b = j then (s.link i j).tail else s.link a b := by
  by_cases ha : a = i
  · subst ha
    by_cases hb : b = j
    · subst hb
      rw [if_pos ⟨rfl, rfl⟩, link, link, receive_sp, List.tail_drop]
      simp [receive]
    · rw [if_neg fun hc => hb hc.2, link, link, receive_sp]
      simp [receive, hb]
  · rw [if_neg fun hc => ha hc.1, link, link, receive_sp]
    simp [receive, ha]

/-- An event of its own that can happen happens. -/
theorem Net.exists_own {v : View} {ev : Event} (hen : (s.sp i).enabled (C.ctx i v) ev = true) :
    ∃ s', s.step C (.own i v ev) = some s' := by
  rw [step, Engine.step, if_pos hen]
  exact ⟨_, rfl⟩

/-- A message on a link that can be received is. -/
theorem Net.exists_deliver {v : View} {ev : Event} {es : List Event} (hlink : s.link i j = ev :: es)
    (hen : (s.sp j).enabled (C.ctx j v) ev = true) : ∃ s', s.step C (.deliver i j v) = some s' := by
  rw [step, hlink, List.head?_cons, Option.bind_some, Engine.step, if_pos hen]
  exact ⟨_, rfl⟩

end DpuOffload
