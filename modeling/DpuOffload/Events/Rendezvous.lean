import DpuOffload.Events.Notifications
import DpuOffload.Lib.Runs
import DpuOffload.Pools.DynList
import Mathlib.Data.List.Perm.Basic

/-!
# Rendezvous receives

A message that comes by rendezvous is received into a buffer: `am_notification_recv_rdv_msg` takes a
descriptor from `free_pending_rdv_recv` and a buffer, and posts the receive; when it is done
`am_rdv_recv_cb` calls the handler and returns the buffer and the descriptor. The buffer is one of the
handler's pool, a smart buffer or one that is allocated, and has to go back to where it is from.

There is one engine. What the execution context is looked up in, the communication library and the handlers
are given by what they answer. A handler may receive further messages while it runs: what the callback does to
its descriptor it does when the handler has returned, and that is its step. Of a descriptor
what nobody reads is left out.

* `RdvSys.Inv` — the descriptors taken are posted or lost, the buffers handed out are in use, returned or lost.
* `RdvSys.step_tally` — a step adds a loss, or a return to the wrong place, exactly when it is not clean.
* `rendezvous_iff` — **every descriptor and every buffer goes back, once and to the right place,** exactly when all
  steps are clean.
-/

namespace DpuOffload

/-- `AM_PEER_CACHE_ENTRIES_MSG_ID`. -/
def amPeerCacheEntriesMsgId : ℕ := 41

/-- `sizeof(pending_am_rdv_recv_t)`. -/
def sizeofPendingAmRdvRecv : ℕ := 128

/-- Where a payload buffer is from. -/
inductive BufferOrigin where
  /-- The pool of a handler. -/
  | pool (memPool : ℕ)
  /-- The smart buffers, for a size. -/
  | smart (sz : ℕ)
  /-- `malloc`. -/
  | malloc
  deriving DecidableEq, Repr

/-- A payload buffer, numbered as they are handed out. -/
structure RdvBuffer where
  /-- Where it is from. -/
  origin : BufferOrigin
  /-- Its number. -/
  num : ℕ
  deriving DecidableEq, Repr

/-- `notification_info_t`. -/
structure NotifInfo where
  /-- Is `get_buf` set? -/
  getBuf : Bool
  /-- Is `return_buf` set? -/
  returnBuf : Bool
  /-- `mem_pool`. -/
  memPool : Option ℕ
  deriving DecidableEq, Repr

/-- `RESET_NOTIF_INFO`. -/
def NotifInfo.reset : NotifInfo := ⟨false, false, none⟩

/-- `pending_am_rdv_recv_t`. -/
structure PendingAmRdvRecv where
  /-- The header. -/
  hdr : Option AmHeader
  /-- Its size. -/
  hdrLen : ℕ
  /-- The size of the payload. -/
  payloadSize : ℕ
  /-- The payload buffer. -/
  userData : Option RdvBuffer
  /-- Where it is from, if it is of the pool of a handler. -/
  pool : NotifInfo
  /-- The chunk, if it is a smart buffer. -/
  smartChunk : Option RdvBuffer
  deriving DecidableEq, Repr

/-- `RESET_PENDING_RDV_RECV`. -/
def PendingAmRdvRecv.reset : PendingAmRdvRecv := ⟨none, 0, 0, none, .reset, none⟩

/-- What `get_associated_econtext` answers. -/
inductive EcontextLookup where
  /-- An error: the sender is neither a client nor a server. -/
  | failed
  /-- `NULL`. -/
  | null
  /-- An execution context. -/
  | found
  deriving DecidableEq, Repr

/-- What `ucp_am_recv_data_nbx` answers. -/
inductive RecvStatus where
  /-- An error. -/
  | failed
  /-- A request: the callback will be called. -/
  | inProgress
  /-- The receive is complete: the callback will not be called. -/
  | complete
  deriving DecidableEq, Repr

/-- A rendezvous message, and what is answered while it is received. -/
structure RdvMsg where
  /-- The header. -/
  hdr : AmHeader
  /-- Its size. -/
  hdrLen : ℕ
  /-- The size of the payload. -/
  payloadSize : ℕ
  /-- The execution context. -/
  econtext : EcontextLookup
  /-- What is registered with the handler. -/
  info : NotifInfo
  /-- Is there a buffer? -/
  buffer : Bool
  /-- The receive. -/
  status : RecvStatus
  deriving DecidableEq, Repr

/-- What is answered when a receive is done. -/
structure RdvDone where
  /-- The length of the payload, as it is reported. -/
  length : ℕ
  /-- The execution context. -/
  econtext : EcontextLookup
  /-- Does `handle_notif_msg` succeed? -/
  handled : Bool
  deriving DecidableEq, Repr

/-- An engine, as far as rendezvous goes. -/
structure RdvSys where
  /-- `buddy_buffer_system_enabled`. -/
  buddy : Bool
  /-- `free_pending_rdv_recv`, `NULL` once the engine is finalised. -/
  free : Option (DynListT PendingAmRdvRecv)
  /-- The descriptors of the receives in progress. -/
  posted : List EltId
  /-- The buffers handed out. -/
  handed : List RdvBuffer
  /-- The buffers returned, and where to. -/
  returned : List (BufferOrigin × RdvBuffer)
  /-- The descriptors that no receive uses, and that are not in the pool. -/
  lost : List EltId
  /-- The buffers that no receive uses, and that were not returned. -/
  lostBufs : List RdvBuffer

/-- Where the buffer for a message is from. -/
def BufferOrigin.choose (buddy : Bool) (info : NotifInfo) (payloadSize : ℕ) : BufferOrigin :=
  match info.memPool with
  | some p => .pool p
  | none => if buddy then .smart payloadSize else .malloc

/-- Is there a buffer? One of the handler's pool is given by `get_buf`. -/
def RdvMsg.hasBuffer (m : RdvMsg) : Bool := m.buffer && (m.info.memPool.isNone || m.info.getBuf)

/-- The descriptor of a message. -/
def RdvMsg.descriptor (m : RdvMsg) (buddy : Bool) (b : RdvBuffer) : PendingAmRdvRecv where
  hdr := some m.hdr
  hdrLen := m.hdrLen
  payloadSize := m.payloadSize
  userData := some b
  pool := if m.info.memPool.isSome then m.info else .reset
  smartChunk := if m.info.memPool.isNone && buddy then some b else none

namespace RdvSys

variable (s : RdvSys)

/-- `offload_engine_init`. -/
def init (buddy : Bool) (junk : PendingAmRdvRecv) (env : GrowEnv PendingAmRdvRecv) : Option RdvSys :=
  (DynListT.alloc 32 sizeofPendingAmRdvRecv (by decide) (some fun _ => .reset) junk env).map fun l =>
    ⟨buddy, some l, [], [], [], [], []⟩

/-- `am_notification_recv_rdv_msg` from the lookup on, with its descriptor. -/
def post (l : DynListT PendingAmRdvRecv) (e : EltId) (m : RdvMsg) : Option RdvSys :=
  match m.econtext with
  | .failed => some { s with free := some (l.write e .reset), lost := e :: s.lost }
  | .null => none
  | .found =>
    if m.hasBuffer then
      let b : RdvBuffer := ⟨.choose s.buddy m.info m.payloadSize, s.handed.length⟩
      let s' := { s with free := some (l.write e (m.descriptor s.buddy b)), handed := s.handed ++ [b] }
      match m.status with
      | .inProgress => some { s' with posted := e :: s.posted }
      -- the handler is called, or not; nothing is returned
      | .failed | .complete => some { s' with lost := e :: s.lost, lostBufs := b :: s.lostBufs }
    else none

/-- `am_notification_recv_rdv_msg`. -/
def amNotificationRecvRdvMsg (m : RdvMsg) (env : GrowEnv PendingAmRdvRecv) : Option RdvSys :=
  match s.free with
  | none => if m.hdr.type = amPeerCacheEntriesMsgId then some s else none
  | some l => (l.get env).bind fun p => p.2.bind fun e => s.post p.1 e m

/-- The payload buffer of a descriptor is returned: where to, and what is left in the descriptor. -/
def giveBack (buddy : Bool) (d : PendingAmRdvRecv) : Option (List (BufferOrigin × RdvBuffer) × PendingAmRdvRecv) :=
  match d.pool.memPool, d.pool.returnBuf with
  | some p, true => some (d.userData.toList.map (.pool p, ·), { d with pool := .reset })
  | _, _ =>
    if buddy then
      d.smartChunk.map fun b => ([(.smart d.payloadSize, b)], { d with smartChunk := none, userData := none })
    else some (d.userData.toList.map (.malloc, ·), { d with userData := none })

/-- `am_rdv_recv_cb` once the handler has returned. -/
def release (l : DynListT PendingAmRdvRecv) (e : EltId) (length : ℕ) : Option RdvSys :=
  if 0 < length then
    (giveBack s.buddy (l.elts e)).map fun p =>
      { s with free := some ((l.write e p.2).ret e), returned := s.returned ++ p.1 }
  else some { s with free := some (l.ret e), lostBufs := (l.elts e).userData.toList ++ s.lostBufs }

/-- The receive is given up: neither the buffer nor the descriptor is returned. -/
def abandon (l : DynListT PendingAmRdvRecv) (e : EltId) : RdvSys :=
  { s with lost := e :: s.lost, lostBufs := (l.elts e).userData.toList ++ s.lostBufs }

/-- `am_rdv_recv_cb`, for a receive in progress. -/
def amRdvRecvCb (e : EltId) (c : RdvDone) : Option RdvSys :=
  s.free.bind fun l =>
    let s' := { s with posted := s.posted.erase e }
    match c.econtext with
    | .failed => some (s'.abandon l e)
    | .null => none
    | .found => if c.handled then s'.release l e c.length else some (s'.abandon l e)

end RdvSys

/-- What happens to an engine. -/
inductive RdvOp where
  /-- A rendezvous message comes. -/
  | recv (m : RdvMsg) (env : GrowEnv PendingAmRdvRecv)
  /-- A receive in progress is done. -/
  | done (e : EltId) (c : RdvDone)

namespace RdvSys

variable (s : RdvSys)

/-- One step; the callback is called once for each receive in progress. -/
def step : RdvOp → Option RdvSys
  | .recv m env => s.amNotificationRecvRdvMsg m env
  | .done e c => if e ∈ s.posted then s.amRdvRecvCb e c else none

/-- A run. -/
def run : List RdvOp → RdvSys → Option RdvSys
  | [], s => some s
  | op :: ops, s => (s.step op).bind (run ops)

/-- The contents of a descriptor. -/
def desc (e : EltId) : PendingAmRdvRecv := (s.free.map fun l => l.elts e).getD .reset

/-- The buffers of the receives in progress. -/
def inUse : List RdvBuffer := s.posted.filterMap fun e => (s.desc e).userData

/-- **Everything goes back**, as far as the receives are not in progress. -/
structure Settled : Prop where
  /-- The descriptors go back to the pool. -/
  descs : ∃ l, s.free = some l ∧ l.list.length + s.posted.length = l.capacity
  /-- No buffer is handed out twice, -/
  nodup : s.handed.Nodup
  /-- those not in use have been returned once, -/
  buffers : s.handed.Perm (s.inUse ++ s.returned.map (·.2))
  /-- to where they are from. -/
  right : ∀ r ∈ s.returned, r.1 = r.2.origin

/-- A step is clean when the execution context is found, a receive completes later, `handle_notif_msg` succeeds, there
is a payload, and its buffer is not one of a handler's pool without a function that returns it. -/
def Clean : RdvOp → Prop
  | .recv m _ => m.econtext ≠ .failed ∧ m.status = .inProgress
  | .done e c =>
    c.econtext ≠ .failed ∧ c.handled = true ∧ 0 < c.length ∧
      ((s.desc e).pool.memPool ≠ none → (s.desc e).pool.returnBuf = true)

/-- The steps of a run that return are clean. -/
def AllClean (s : RdvSys) : List RdvOp → Prop
  | [] => True
  | op :: ops => ∀ s', s.step op = some s' → s.Clean op ∧ s'.AllClean ops

end RdvSys

/-! ### What is kept -/

/-- The descriptor of a receive in progress. -/
structure PendingAmRdvRecv.Ready (buddy : Bool) (d : PendingAmRdvRecv) (b : RdvBuffer) : Prop where
  /-- It has its buffer, -/
  userData : d.userData = some b
  /-- which is from where it says, -/
  origin : b.origin = .choose buddy d.pool d.payloadSize
  /-- and is the chunk if it is a smart buffer. -/
  smartChunk : d.smartChunk = if d.pool.memPool.isNone && buddy then some b else none

theorem RdvMsg.ready (m : RdvMsg) (buddy : Bool) (n : ℕ) :
    (m.descriptor buddy ⟨.choose buddy m.info m.payloadSize, n⟩).Ready buddy
      ⟨.choose buddy m.info m.payloadSize, n⟩ := by
  cases hp : m.info.memPool <;>
    exact ⟨rfl, by simp [RdvMsg.descriptor, BufferOrigin.choose, hp, NotifInfo.reset],
      by simp [RdvMsg.descriptor, hp, NotifInfo.reset]⟩

/-- **The payload buffer is returned** to where it is from, unless it is of a handler's pool and there is no function
that returns it. -/
theorem giveBack_ready {buddy : Bool} {d d' : PendingAmRdvRecv} {b : RdvBuffer} {rs : List (BufferOrigin × RdvBuffer)}
    (hd : d.Ready buddy b) (h : RdvSys.giveBack buddy d = some (rs, d')) :
    ∃ o, rs = [(o, b)] ∧ (o = b.origin ↔ (d.pool.memPool ≠ none → d.pool.returnBuf = true)) := by
  obtain ⟨hdata, horigin, hchunk⟩ := hd
  rw [horigin]
  unfold RdvSys.giveBack at h
  cases hp : d.pool.memPool with
  | some p =>
    cases hr : d.pool.returnBuf with
    | true =>
      simp [hp, hr, hdata] at h
      exact ⟨_, h.1.symm, by simp [BufferOrigin.choose, hp]⟩
    | false =>
      -- the smart chunk is not there, or the buffer is freed
      cases buddy with
      | true => simp [hp, hr, hchunk] at h
      | false =>
        simp [hp, hr, hdata] at h
        exact ⟨_, h.1.symm, by simp [BufferOrigin.choose, hp]⟩
  | none =>
    cases buddy with
    | true =>
      simp [hp, hchunk] at h
      exact ⟨_, h.1.symm, by simp [BufferOrigin.choose, hp]⟩
    | false =>
      simp [hp, hdata] at h
      exact ⟨_, h.1.symm, by simp [BufferOrigin.choose, hp]⟩

namespace RdvSys

variable {s s' : RdvSys} {l l' : DynListT PendingAmRdvRecv} {e : EltId} {b : RdvBuffer} {op : RdvOp} {ops : List RdvOp}

/-- **Where the descriptors and the buffers are.** -/
structure Inv (s : RdvSys) (l : DynListT PendingAmRdvRecv) : Prop where
  /-- There is a pool. -/
  free : s.free = some l
  /-- The descriptors taken are posted or lost. -/
  owns : l.Owns (s.posted ++ s.lost)
  /-- Those that are posted have their buffers. -/
  ready : ∀ e ∈ s.posted, ∃ b, (l.elts e).Ready s.buddy b
  /-- The buffers handed out are in use, returned or lost. -/
  handed : s.handed.Perm (s.inUse ++ s.returned.map (·.2) ++ s.lostBufs)
  /-- They are numbered. -/
  nums : s.handed.map (·.num) = List.range s.handed.length

/-- How much has gone wrong. -/
def tally (s : RdvSys) : ℕ := s.lost.length + s.lostBufs.length + s.returned.countP fun r => r.1 ≠ r.2.origin

theorem inUse_eq (h : s.free = some l) : s.inUse = s.posted.filterMap fun e => (l.elts e).userData := by
  simp [inUse, desc, h]

/-- Everything goes back when nothing has gone wrong. -/
theorem Inv.settled_iff (h : s.Inv l) : s.Settled ↔ s.tally = 0 := by
  have hcap := h.owns.capacity
  have hlen := h.owns.length
  have hperm := h.handed.length_eq
  simp only [Pool.size, List.length_append] at hcap hperm
  constructor
  · intro hs
    obtain ⟨l', hl', hdescs⟩ := hs.descs
    rw [h.free] at hl'
    cases hl'
    have hbufs := hs.buffers.length_eq
    rw [List.length_append] at hbufs
    have hright : s.returned.countP (fun r => r.1 ≠ r.2.origin) = 0 :=
      List.countP_eq_zero.2 fun r hr => by simpa using hs.right r hr
    rw [tally]
    omega
  · intro ht
    simp only [tally, Nat.add_eq_zero_iff, List.length_eq_zero_iff] at ht
    obtain ⟨⟨hlost, hbufs⟩, hright⟩ := ht
    refine ⟨⟨l, h.free, ?_⟩, ?_, ?_, fun r hr => ?_⟩
    · rw [hlost] at hcap
      simp only [List.length_nil] at hcap
      omega
    · apply List.Nodup.of_map (·.num)
      rw [h.nums]
      exact List.nodup_range
    · simpa [hbufs] using h.handed
    · simpa using List.countP_eq_zero.1 hright r hr

/-- What is in the descriptors of the receives in progress stays. -/
theorem Inv.congr (h : s.Inv l) (hl : ∀ x ∈ s.posted, l'.elts x = l.elts x) :
    (∀ x ∈ s.posted, ∃ b, (l'.elts x).Ready s.buddy b) ∧
      s.posted.filterMap (fun x => (l'.elts x).userData) = s.inUse := by
  refine ⟨fun x hx => ?_, ?_⟩
  · rw [hl x hx]
    exact h.ready x hx
  · rw [inUse_eq h.free]
    exact List.filterMap_congr fun x hx => congrArg _ (hl x hx)

/-- **A message is received**: it is posted, or its descriptor is lost. -/
theorem Inv.post (h : s.Inv l) {l₁ : DynListT PendingAmRdvRecv} {m : RdvMsg} (hfree : e ∉ s.posted ++ s.lost)
    (howns : l₁.Owns (e :: (s.posted ++ s.lost))) (hl : ∀ x ∈ s.posted ++ s.lost, l₁.elts x = l.elts x)
    (hs : s.post l₁ e m = some s') :
    ∃ l', s'.Inv l' ∧ s.tally ≤ s'.tally ∧ (s'.tally = s.tally ↔ m.econtext ≠ .failed ∧ m.status = .inProgress) := by
  have hstay : ∀ d, ∀ x ∈ s.posted, (l₁.write e d).elts x = l.elts x := by
    intro d x hx
    have hx' : x ∈ s.posted ++ s.lost := List.mem_append_left _ hx
    have hne : x ≠ e := fun hxe => hfree (hxe ▸ hx')
    rw [DynListT.elts_write_of_ne hne, hl x hx']
  have hmid : (e :: (s.posted ++ s.lost)).Perm (s.posted ++ e :: s.lost) := List.perm_middle.symm
  unfold RdvSys.post at hs
  split at hs
  next hec =>
    cases hs
    obtain ⟨hready, huse⟩ := h.congr (hstay .reset)
    refine ⟨_, ⟨rfl, (howns.write _ _).perm hmid, hready, ?_, h.nums⟩, ?_, ?_⟩
    · rw [inUse_eq rfl, huse]
      exact h.handed
    · simp [tally]
    · simp [tally, hec]
  next => cases hs
  next hec =>
    split at hs
    next hbuf =>
      -- the buffer that is handed out
      generalize hb : (⟨.choose s.buddy m.info m.payloadSize, s.handed.length⟩ : RdvBuffer) = b at hs
      obtain ⟨hready, huse⟩ := h.congr (hstay (m.descriptor s.buddy b))
      have hhanded : (s.handed ++ [b]).Perm (b :: (s.inUse ++ s.returned.map (·.2) ++ s.lostBufs)) :=
        (List.perm_append_singleton b _).trans (h.handed.cons b)
      have hnums : (s.handed ++ [b]).map (·.num) = List.range (s.handed ++ [b]).length := by
        rw [List.map_append, h.nums, List.length_append, List.length_singleton, List.range_succ, ← hb]
        rfl
      dsimp only at hs
      split at hs
      next hst =>
        cases hs
        have hself : (l₁.write e (m.descriptor s.buddy b)).elts e = m.descriptor s.buddy b :=
          DynListT.elts_write_self ..
        refine ⟨_, ⟨rfl, howns.write _ _, fun x hx => ?_, ?_, hnums⟩, ?_, ?_⟩
        · obtain rfl | hx := List.mem_cons.1 hx
          · rw [hself, ← hb]
            exact ⟨_, m.ready _ _⟩
          · exact hready x hx
        · rw [inUse_eq rfl, List.filterMap_cons_some (b := b)]
          · rw [huse]
            exact hhanded
          · rw [hself]
            rfl
        · exact Nat.le_refl _
        · simp [tally, hec, hst]
      all_goals
        next hst =>
          cases hs
          refine ⟨_, ⟨rfl, (howns.write _ _).perm hmid, hready, ?_, hnums⟩, ?_, ?_⟩
          · rw [inUse_eq rfl, huse]
            exact hhanded.trans List.perm_middle.symm
          · simp [tally]
            omega
          · simp [tally, hst]
            omega
    next => cases hs

/-- The buffers in use are that of a receive, and the others. -/
theorem Inv.inUse_perm (h : s.Inv l) (he : e ∈ s.posted) (hb : (l.elts e).userData = some b) :
    s.inUse.Perm (b :: (s.posted.erase e).filterMap fun x => (l.elts x).userData) := by
  rw [inUse_eq h.free]
  have hp := (List.perm_cons_erase he).filterMap fun x => (l.elts x).userData
  rwa [List.filterMap_cons_some (f := fun x => (l.elts x).userData) hb] at hp

/-- A receive is given up. -/
theorem Inv.abandon (h : s.Inv l) (he : e ∈ s.posted) :
    Inv ({ s with posted := s.posted.erase e }.abandon l e) l ∧
      s.tally < ({ s with posted := s.posted.erase e }.abandon l e).tally := by
  obtain ⟨b, hb⟩ := h.ready e he
  refine ⟨⟨h.free, ?_, fun x hx => h.ready x (List.mem_of_mem_erase hx), ?_, h.nums⟩, ?_⟩
  · apply h.owns.perm
    exact ((List.perm_cons_erase he).append_right s.lost).trans List.perm_middle.symm
  · have hfree : ({ s with posted := s.posted.erase e }.abandon l e).free = some l := h.free
    rw [inUse_eq hfree]
    simp only [RdvSys.abandon, hb.userData, Option.toList_some, List.singleton_append]
    apply h.handed.trans
    apply (((h.inUse_perm he hb.userData).append_right _).append_right _).trans
    exact List.perm_middle.symm
  · simp [tally, RdvSys.abandon, hb.userData]
    omega

/-- The descriptor of a receive goes back to the pool, its contents written or not. -/
theorem Inv.back (h : s.Inv l) (he : e ∈ s.posted) (hl : ∀ x, x ≠ e → l'.elts x = l.elts x)
    (howns : l'.Owns (s.posted ++ s.lost)) :
    (l'.ret e).Owns (s.posted.erase e ++ s.lost) ∧
      (∀ x ∈ s.posted.erase e, ∃ b, ((l'.ret e).elts x).Ready s.buddy b) ∧
      (s.posted.erase e).filterMap (fun x => ((l'.ret e).elts x).userData) =
        (s.posted.erase e).filterMap fun x => (l.elts x).userData := by
  have hnodup : s.posted.Nodup := (List.nodup_append.1 howns.sound.nodup_held).1
  have hne : ∀ x ∈ s.posted.erase e, (l'.ret e).elts x = l.elts x := by
    intro x hx
    exact hl x ((hnodup.mem_erase_iff).1 hx).1
  refine ⟨?_, fun x hx => ?_, List.filterMap_congr fun x hx => congrArg _ (hne x hx)⟩
  · have hret := howns.ret (List.mem_append_left _ he)
    rwa [List.erase_append_left _ he] at hret
  · rw [hne x hx]
    exact h.ready x (List.mem_of_mem_erase hx)

/-- A buffer that was in use has been returned. -/
theorem moved_perm (b : RdvBuffer) (used back lost : List RdvBuffer) :
    (b :: used ++ back ++ lost).Perm (used ++ (back ++ [b]) ++ lost) := by
  rw [← List.append_assoc used back [b], List.append_assoc (used ++ back) [b] lost]
  exact List.perm_middle.symm

/-- **A receive is done.** -/
theorem Inv.release (h : s.Inv l) (he : e ∈ s.posted) {length : ℕ}
    (hs : ({ s with posted := s.posted.erase e } : RdvSys).release l e length = some s') :
    ∃ l', s'.Inv l' ∧ s.tally ≤ s'.tally ∧ (s'.tally = s.tally ↔ 0 < length ∧
      ((l.elts e).pool.memPool ≠ none → (l.elts e).pool.returnBuf = true)) := by
  obtain ⟨b, hb⟩ := h.ready e he
  have huse := h.inUse_perm he hb.userData
  unfold RdvSys.release at hs
  split at hs
  next hpos =>
    obtain ⟨⟨rs, d⟩, hgive, rfl⟩ := Option.map_eq_some_iff.1 hs
    obtain ⟨o, rfl, ho⟩ := giveBack_ready hb hgive
    obtain ⟨howns, hready, hrest⟩ := h.back he (fun x hx => DynListT.elts_write_of_ne hx d) (h.owns.write e d)
    refine ⟨_, ⟨rfl, howns, hready, ?_, h.nums⟩, ?_, ?_⟩
    · rw [inUse_eq rfl, hrest]
      apply h.handed.trans
      apply ((huse.append_right _).append_right _).trans
      rw [List.map_append]
      exact moved_perm b _ _ _
    · simp [tally, List.countP_append]
    · rw [← ho]
      simp [tally, List.countP_append, hpos]
  next hpos =>
    cases hs
    obtain ⟨howns, hready, hrest⟩ := h.back he (fun x _ => rfl) h.owns
    refine ⟨_, ⟨rfl, howns, hready, ?_, h.nums⟩, ?_, ?_⟩
    · rw [inUse_eq rfl, hrest]
      simp only [hb.userData, Option.toList_some, List.singleton_append]
      apply h.handed.trans
      apply ((huse.append_right _).append_right _).trans
      exact List.perm_middle.symm
    · simp [tally]
    · simp [tally, hpos, hb.userData]

/-- **One step** adds a loss, or a return to the wrong place, exactly when it is not clean. -/
theorem step_tally (h : ∃ l, s.Inv l) (hs : s.step op = some s') :
    (∃ l', s'.Inv l') ∧ s.tally ≤ s'.tally ∧ (s'.tally = s.tally ↔ s.Clean op) := by
  obtain ⟨l, h⟩ := h
  cases op with
  | recv m env =>
    rw [step, amNotificationRecvRdvMsg, h.free] at hs
    obtain ⟨p, hget, hs⟩ := Option.bind_eq_some_iff.1 hs
    obtain ⟨e, he, hs⟩ := Option.bind_eq_some_iff.1 hs
    obtain ⟨e', he', hfree, howns, helts⟩ := h.owns.of_get hget
    rw [he] at he'
    cases he'
    obtain ⟨l', hinv, htally⟩ := h.post hfree howns helts hs
    exact ⟨⟨l', hinv⟩, htally⟩
  | done e c =>
    rw [step] at hs
    split at hs
    next he =>
      have hdesc : s.desc e = l.elts e := by simp [desc, h.free]
      obtain ⟨l₁, hl₁, hs⟩ := Option.bind_eq_some_iff.1 hs
      obtain rfl : l = l₁ := Option.some.inj (h.free.symm.trans hl₁)
      obtain ⟨hlost, hlt⟩ := h.abandon he
      cases hec : c.econtext with
      | failed =>
        rw [hec] at hs
        cases hs
        exact ⟨⟨l, hlost⟩, hlt.le, fun heq => absurd heq hlt.ne', fun hc => absurd hec hc.1⟩
      | null =>
        rw [hec] at hs
        cases hs
      | found =>
        simp only [hec] at hs
        cases hh : c.handled with
        | false =>
          rw [hh] at hs
          cases hs
          refine ⟨⟨l, hlost⟩, hlt.le, fun heq => absurd heq hlt.ne', fun hc => ?_⟩
          rw [Clean, hh] at hc
          exact absurd hc.2.1 (by decide)
        | true =>
          rw [hh, if_pos rfl] at hs
          obtain ⟨l', hinv, hle, hiff⟩ := h.release he hs
          refine ⟨⟨l', hinv⟩, hle, hiff.trans ?_⟩
          simp [Clean, hec, hh, hdesc]
    next => cases hs

theorem follows_run : Runs.Follows step id run := ⟨fun _ => rfl, fun _ _ _ => rfl⟩

theorem allows_clean : Runs.Allows step id Clean AllClean :=
  ⟨fun _ => trivial, fun s op ops s' hs => by simp [AllClean, hs]⟩

/-- **A run.** -/
theorem run_tally (h : s.Inv l) (hs : run ops s = some s') :
    ∃ l', s'.Inv l' ∧ s.tally ≤ s'.tally ∧ (s'.tally = s.tally ↔ s.AllClean ops) := by
  obtain ⟨⟨l', hinv⟩, hrun⟩ := Runs.tally_iff follows_run allows_clean step_tally ⟨l, h⟩ hs
  exact ⟨l', hinv, hrun⟩

theorem exists_init (buddy : Bool) (junk : PendingAmRdvRecv) (env : GrowEnv PendingAmRdvRecv) :
    ∃ s l, init buddy junk env = some s ∧ s.Inv l ∧ s.tally = 0 := by
  have hfit : 32 * sizeofPendingAmRdvRecv < 2 ^ 64 := by decide
  obtain ⟨l, hl, howns⟩ := DynListT.owns_alloc hfit (some fun _ => .reset) junk env
  refine ⟨⟨buddy, some l, [], [], [], [], []⟩, l, by rw [init, hl]; rfl, ⟨rfl, howns, ?_, .nil, rfl⟩, rfl⟩
  exact fun e he => absurd he List.not_mem_nil

end RdvSys

/-- **Every descriptor and every payload buffer goes back**, once and to where it is from, exactly when in each step of
the run that returns the execution context is found, the receive completes later, `handle_notif_msg` succeeds, there is
a payload, and its buffer is not one of a handler's pool without a function that returns it. -/
theorem rendezvous_iff (buddy : Bool) (junk : PendingAmRdvRecv) (env : GrowEnv PendingAmRdvRecv) :
    ∃ s₀, RdvSys.init buddy junk env = some s₀ ∧
      ∀ ops s, RdvSys.run ops s₀ = some s → (s.Settled ↔ s₀.AllClean ops) := by
  obtain ⟨s₀, l, hs₀, hinv, htally⟩ := RdvSys.exists_init buddy junk env
  refine ⟨s₀, hs₀, fun ops s hs => ?_⟩
  obtain ⟨l', hinv', -, hiff⟩ := RdvSys.run_tally hinv hs
  rw [hinv'.settled_iff, ← hiff, htally]

/-- A message with a payload of 4096 bytes, the receive of which is complete when it is posted. -/
def rdvAtOnce : RdvMsg :=
  ⟨⟨1, 50, 4096, 0, 0, 0, 0, 0⟩, sizeofAmHeader, 4096, .found, .reset, true, .complete⟩

/-- There is memory for descriptors. -/
def rdvMemory : GrowEnv PendingAmRdvRecv := ⟨some fun _ => .reset, true⟩

/-- The receive is complete at once: neither its descriptor nor its buffer is returned. -/
theorem not_rendezvous :
    ((RdvSys.init false .reset rdvMemory).bind (RdvSys.run [.recv rdvAtOnce rdvMemory])).map
        (fun s => (s.free.map (·.list.length), s.posted, s.handed, s.returned)) =
      some (some 31, [], [⟨.malloc, 0⟩], []) ∧
    ¬ ∀ buddy junk env s₀ ops s, RdvSys.init buddy junk env = some s₀ → RdvSys.run ops s₀ = some s → s.Settled := by
  have hval : ((RdvSys.init false .reset rdvMemory).bind (RdvSys.run [.recv rdvAtOnce rdvMemory])).map
      (fun s => (s.free.map (·.list.length), s.posted, s.handed, s.returned)) =
      some (some 31, [], [⟨.malloc, 0⟩], []) := by decide +kernel
  refine ⟨hval, fun hall => ?_⟩
  obtain ⟨s, hs, heq⟩ := Option.map_eq_some_iff.1 hval
  obtain ⟨s₀, hs₀, hrun⟩ := Option.bind_eq_some_iff.1 hs
  simp only [Prod.mk.injEq] at heq
  obtain ⟨-, hposted, hhanded, hreturned⟩ := heq
  have hbufs := (hall _ _ _ s₀ _ s hs₀ hrun).buffers.length_eq
  rw [hhanded, hreturned, RdvSys.inUse, hposted] at hbufs
  cases hbufs

end DpuOffload
