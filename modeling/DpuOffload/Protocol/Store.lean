import DpuOffload.Cache.Connect
import DpuOffload.Protocol.Actions
import Mathlib.Logic.Function.Basic

/-!
# An engine and all its groups

The endpoint cache of an engine (`cache_t`): a table of group caches, with the number of
groups in it and the first of them, the world group. A lookup of a group that is not in
the table adds it. Between two events of one group any number of events of other groups
and of queries can come.

`do_add_group_rank_recv_cb` also looks the world group up, by a query, which leaves a
group that is in use alone; here that query is an operation of its own.
-/

namespace DpuOffload

/-- The endpoint cache, with the part of the engine about each group. -/
structure Store where
  /-- Each group; one without a slot is not in the table. -/
  group : ℤ → Engine
  /-- `size`, the number of groups in the table. -/
  size : ℕ
  /-- `world_group`, the first group in the table. -/
  worldGroup : ℤ

/-- `GROUPS_CACHE_INIT`. -/
def Store.init : Store where
  group := fun _ => Engine.init
  size := 0
  worldGroup := INT_MAX

/-- The group after an operation; one that comes into the table is counted. -/
def Store.put (s : Store) (uid : ℤ) (e : Engine) : Store :=
  let new : Bool := (s.group uid).slot.isNone && e.slot.isSome
  { group := Function.update s.group uid e
    size := if new then s.size + 1 else s.size
    worldGroup := if new ∧ s.size = 0 then uid else s.worldGroup }

/-- What the callbacks for a group read, `sys` being what does not depend on the group. -/
def Store.ctx (sys : GpCtx) (s : Store) (uid : ℤ) : GpCtx :=
  let new : Bool := (s.group uid).slot.isNone
  let world := if new ∧ s.size = 0 then uid else s.worldGroup
  { sys with
    gpUid := uid
    cacheSize := if new then s.size + 1 else s.size
    world := if uid = world then none else some (s.group world).gp.entries }

/-- What happens to the endpoint cache. -/
inductive StoreOp where
  /-- `GET_GROUP_CACHE`. -/
  | query (uid : ℤ)
  /-- `GET_GROUP_CACHE_INTERNAL`. -/
  | lookup (uid size : ℤ)
  /-- `GET_GROUP_RANK_CACHE_ENTRY`. -/
  | entry (uid size : ℤ)
  /-- An event of a group. -/
  | event (uid : ℤ) (ev : Event)
  /-- A rank connects to its SP. -/
  | connect (uid : ℤ) (clientId : ℕ) (info : RankInfo)
  /-- On a host, `host_add_local_rank_to_cache`. -/
  | hostAdd (uid : ℤ) (info : RankInfo)
  /-- `revoke_group_cache`. -/
  | revoke (uid : ℤ)

/-- The group an operation is about. -/
def StoreOp.uid : StoreOp → ℤ
  | .query uid | .lookup uid _ | .entry uid _ | .event uid _ | .connect uid _ _ | .hostAdd uid _ | .revoke uid => uid

/-- The engine takes an operation. -/
def Store.step (sys : GpCtx) (s : Store) (op : StoreOp) : Option Store :=
  let e := s.group op.uid
  let ctx := s.ctx sys op.uid
  match op with
  | .query uid => some (s.put uid { e with slot := some (getGroupCache uid e.slot) })
  | .lookup uid size => some (s.put uid { e with slot := some (getGroupCacheInternal uid e.slot size) })
  | .entry uid size => some (s.put uid { e with slot := some (getGroupRankCacheEntry sys.hosts uid e.slot size) })
  | .event uid ev => (e.step ctx ev).map (s.put uid)
  | .connect uid c info =>
    if sys.onDpu then
      let r := finalizeClientConnection ctx e.slot c info
      some (s.put uid { e with slot := r.1, log := e.log ++ r.2 })
    else none
  | .hostAdd uid info =>
    if sys.onDpu then none
    else some (s.put uid { e with slot := some (hostAddLocalRankToCache ctx e.slot info) })
  | .revoke uid =>
    let r := revokeGroupCache ctx ⟨e.gp, []⟩
    some (s.put uid { e with slot := some r.gp, log := e.log ++ r.out })

variable {sys : GpCtx} {s s' : Store} {op : StoreOp}

@[simp] theorem Store.ctx_gpUid (uid : ℤ) : (s.ctx sys uid).gpUid = uid := rfl

@[simp] theorem Store.ctx_onDpu (uid : ℤ) : (s.ctx sys uid).onDpu = sys.onDpu := rfl

@[simp] theorem Store.put_group (uid : ℤ) (e : Engine) : (s.put uid e).group = Function.update s.group uid e := rfl

/-- Every operation puts its group back. -/
theorem Store.step_put (h : s.step sys op = some s') : ∃ e, s' = s.put op.uid e := by
  cases op with
  | query _ | lookup _ _ | entry _ _ | revoke _ => cases h; exact ⟨_, rfl⟩
  | event uid ev =>
    obtain ⟨e, -, rfl⟩ := Option.map_eq_some_iff.1 h
    exact ⟨e, rfl⟩
  | connect _ _ _ | hostAdd _ _ =>
    simp only [Store.step] at h
    split at h <;> cases h
    exact ⟨_, rfl⟩

/-- **An operation changes its own group only.** -/
theorem Store.step_frame (h : s.step sys op = some s') {u : ℤ} (hu : u ≠ op.uid) : s'.group u = s.group u := by
  obtain ⟨e, rfl⟩ := Store.step_put h
  exact Function.update_of_ne hu _ _

/-! ### Counting the groups -/

/-- The groups in the table are counted: one, and two of them. -/
structure Store.Counted (s : Store) : Prop where
  /-- One group. -/
  one : ∀ uid, (s.group uid).slot.isSome = true → 1 ≤ s.size
  /-- Two groups. -/
  two : ∀ uid uid', uid ≠ uid' → (s.group uid).slot.isSome = true → (s.group uid').slot.isSome = true → 2 ≤ s.size

theorem counted_init : Store.init.Counted where
  one _ h := absurd h Bool.false_ne_true
  two _ _ _ h := absurd h Bool.false_ne_true

theorem Store.Counted.put (h : s.Counted) (u : ℤ) (e : Engine) : (s.put u e).Counted := by
  have hmono : s.size ≤ (s.put u e).size := by
    simp only [Store.put]
    split <;> omega
  -- the group was in the table, or it is counted now
  have hself : e.slot.isSome = true → (s.group u).slot.isSome = true ∨ (s.put u e).size = s.size + 1 := by
    intro he
    simp only [Store.put, he, Bool.and_true]
    cases (s.group u).slot <;> simp
  have hcases : ∀ v, ((s.put u e).group v).slot.isSome = true →
      (s.group v).slot.isSome = true ∨ v = u ∧ (s.put u e).size = s.size + 1 := by
    intro v hv
    by_cases huv : v = u
    · subst huv
      rw [Store.put_group, Function.update_self] at hv
      exact (hself hv).imp id fun hsz => ⟨rfl, hsz⟩
    · rw [Store.put_group, Function.update_of_ne huv] at hv
      exact .inl hv
  refine ⟨fun v hv => ?_, fun v v' hne hv hv' => ?_⟩
  · rcases hcases v hv with h₁ | ⟨-, h₁⟩
    · exact (h.one v h₁).trans hmono
    · omega
  · rcases hcases v hv with h₁ | ⟨rfl, h₁⟩ <;> rcases hcases v' hv' with h₂ | ⟨rfl, h₂⟩
    · exact (h.two v v' hne h₁ h₂).trans hmono
    · have := h.one v h₁
      omega
    · have := h.one v' h₂
      omega
    · exact absurd rfl hne

/-- A group other than `v`, which is in the table, is not the only one. -/
theorem Store.Counted.cacheSize_ne_one (h : s.Counted) {u v : ℤ} (hne : u ≠ v) (hv : (s.group v).slot.isSome = true) :
    (s.ctx sys u).cacheSize ≠ 1 := by
  have h₁ := h.one v hv
  simp only [Store.ctx]
  cases hu : (s.group u).slot with
  | none => simp only [Option.isNone_none, if_true]; omega
  | some g =>
    have := h.two u v hne (by rw [hu]; rfl) hv
    simp only [Option.isNone_some, Bool.false_eq_true, if_false]
    omega

/-! ### Connections and the queues -/

section
variable {ctx : GpCtx} (slot : Option GroupCache) (info : RankInfo)

theorem addCacheEntryForNewClient_queues (clientId : ℕ) :
    (addCacheEntryForNewClient ctx slot clientId info).queues = (slot.getD newGroupCache).queues := by
  rw [← getGroupCacheInternal_queues ctx.gpUid (slot.getD newGroupCache) info.groupSize, ← getGroupCacheInternal_getD]
  generalize hg : getGroupCacheInternal ctx.gpUid slot info.groupSize = g₀
  simp only [addCacheEntryForNewClient, hg]
  split <;> simp [GroupCache.queues, GroupCache.putLocalEntry, GroupCache.setEntryAt]

theorem localRankConnectDefaultCallback_queues (out : List Effect) :
    ((localRankConnectDefaultCallback ctx (slot, out) info).1.getD newGroupCache).queues =
      (slot.getD newGroupCache).queues := by
  have hq : (getGroupCacheInternal ctx.gpUid slot info.groupSize).queues = (slot.getD newGroupCache).queues := by
    rw [getGroupCacheInternal_getD, getGroupCacheInternal_queues]
  simp only [localRankConnectDefaultCallback]
  split
  · rfl
  · split
    · obtain ⟨t, ht⟩ := sendGpCacheToHost_gp ⟨getGroupCacheInternal ctx.gpUid slot info.groupSize, out⟩
      simp only [ht, Option.getD_some]
      exact hq
    · exact hq

/-- A rank that connects leaves what is put aside alone. -/
theorem finalizeClientConnection_queues (clientId : ℕ) :
    ((finalizeClientConnection ctx slot clientId info).1.getD newGroupCache).queues =
      (slot.getD newGroupCache).queues := by
  simp only [finalizeClientConnection]
  split
  · exact localRankConnectDefaultCallback_queues slot info []
  · obtain ⟨t, ht⟩ := @groupCacheExchange_gp ctx ⟨addCacheEntryForNewClient ctx slot clientId info, []⟩
      (sizeT info.nLocalRanks)
    rw [localRankConnectDefaultCallback_queues, ht]
    exact addCacheEntryForNewClient_queues slot info clientId

end

end DpuOffload
