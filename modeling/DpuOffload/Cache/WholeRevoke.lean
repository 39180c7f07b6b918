import DpuOffload.Cache.Release

/-!
# When a revoke is complete

A revoke should leave nothing of a group but what it does not reset. It misses the tables of SPs of the hosts,
which it releases only if `sps_initialized` is set, and nothing sets it. The pointer of an SP to its ranks it
releases as it is, also when the lookup tables were not filled: an object that was never used has the contents
of memory that `malloc` returned, and `RESET_SP_CACHE_DATA` leaves that pointer. And it resets as many entries as the
group has ranks, which are more than there are when the group was looked up before its size was known.

* `revokes_whole_iff` — **a revoke is complete** when the entries are there, no host has its table of SPs and no such
  pointer holds anything, and only then.
* `not_revokes_whole` — a group whose lookup tables were filled.
-/

namespace DpuOffload

open Transition

namespace Memory

variable {m m' : Memory} {u v : ℤ} {t : Table} {ts : List Table}

/-- **A revoke is complete.** `n` is the number of SPs of the engine; `handler` says whether a handler of revokes is
registered. -/
structure RevokesWhole (m : Memory) (u : ℤ) (n : ℕ) (handler : Bool) : Prop where
  /-- Every access stays within its array. -/
  inBounds : (m.revokeGroupCache u n handler).fault = false
  /-- The handler is invoked once. -/
  handled : (m.revokeGroupCache u n handler).handled = m.handled ++ if handler then [u] else []
  /-- The group is as one that has just been reset, but for what a revoke does not reset. -/
  reset : (m.revokeGroupCache u n handler).groups u = .blank (m.groups u).gp.persistent
  /-- The values are those the revoke of a group cache gives. -/
  values : ∀ ctx : GpCtx, ctx.gpUid = u →
    ((m.revokeGroupCache u n handler).groups u).gp = (DpuOffload.revokeGroupCache ctx ⟨(m.groups u).gp, []⟩).gp
  /-- The other groups are unchanged, with their pointers. -/
  others : ∀ v, v ≠ u → (m.revokeGroupCache u n handler).groups v = m.groups v ∧
    ∀ t, (m.revokeGroupCache u n handler).ptr v t = m.ptr v t
  /-- Each object of an SP is returned to its pool once. -/
  spObjects : (m.revokeGroupCache u n handler).spPool.list.Perm (m.spObjs u ++ m.spPool.list) ∧
    (m.revokeGroupCache u n handler).spPool.list.Nodup
  /-- Each object of a host is returned to its pool once. -/
  hostObjects : (m.revokeGroupCache u n handler).hostPool.list.Perm (m.hostObjs u ++ m.hostPool.list) ∧
    (m.revokeGroupCache u n handler).hostPool.list.Nodup
  /-- What is released is what was allocated for the group, each table for the object it was allocated for; this
  counts what the lookup of the revoke allocates. No table is released twice, and none of another group. -/
  released : ∃ ps, (m.revokeGroupCache u n handler).freed = m.freed ++ ps ∧
    ps.Perm ((m.beforeRelease u n).groups u).allocated ∧ (ps.map Prod.snd).Nodup ∧
    ∀ v, v ≠ u → ∀ p ∈ (m.groups v).allocated, p.2 ∉ ps.map Prod.snd

/-- No host of the group has its table of SPs, and the pointer of each SP to its ranks is `NULL`. -/
structure Bare (m : Memory) (u : ℤ) : Prop where
  /-- The hosts. -/
  hosts : ∀ uid, m.ptr u (.host uid .sps) = none
  /-- The SPs. -/
  sps : ∀ gid, m.ptr u (.sp gid .ranks) = none

/-- Only hosts and SPs of the group count. -/
theorem bare_iff : m.Bare u ↔
    (∀ uid ∈ (m.groups u).gp.topo.hostsHash.keys, m.ptr u (.host uid .sps) = none) ∧
      ∀ gid ∈ (m.groups u).gp.topo.spsHash.keys, m.ptr u (.sp gid .ranks) = none := by
  constructor
  · intro h
    exact ⟨fun uid _ => h.hosts uid, fun gid _ => h.sps gid⟩
  · rintro ⟨hhosts, hsps⟩
    refine ⟨fun uid => ?_, fun gid => ?_⟩
    · by_contra hp
      obtain ⟨a, ha⟩ := Option.ne_none_iff_exists'.1 hp
      exact hp (hhosts uid (Has.of_ptr ha))
    · by_contra hp
      obtain ⟨a, ha⟩ := Option.ne_none_iff_exists'.1 hp
      exact hp (hsps gid (Has.of_ptr ha))

instance decidableBare (m : Memory) (u : ℤ) : Decidable (m.Bare u) := decidable_of_iff _ bare_iff.symm

/-- The values of a group with nothing put aside. -/
theorem revokeGroupCache_gp {gp : GroupCache} (hpend : gp.persistent.pendingRecvCacheEntries = []) (ctx : GpCtx) :
    (DpuOffload.revokeGroupCache ctx ⟨gp, []⟩).gp = { newGroupCache with persistent := gp.persistent } := by
  have hpers : (getGroupCache ctx.gpUid (some gp)).persistent = gp.persistent := by
    simp only [getGroupCache, DpuOffload.getGroupCacheInternal]
    split <;> rfl
  have hsame : { gp.persistent with pendingRecvCacheEntries := [] } = gp.persistent := by rw [← hpend]
  simp only [DpuOffload.revokeGroupCache, handlePendingCacheEntries, DpuOffload.resetGroupCache,
    DpuOffload.basicInitGroupCache, hpers, hpend, List.foldl_nil]
  exact congrArg (fun p => { newGroupCache with persistent := p }) hsame

/-- What is released with distinct pointers is distinct. -/
theorem nodup_flatMap_held (h : ts.Nodup) : (ts.flatMap (m.held u)).Nodup := by
  refine List.nodup_flatMap.2 ⟨fun t _ => ?_, h.imp fun hne => ?_⟩
  · unfold held
    cases m.ptr u t with
    | none => exact .nil
    | some a => exact List.nodup_singleton _
  · intro p hp hp'
    exact hne ((mem_held.1 hp).1.symm.trans (mem_held.1 hp').1)

/-- **What a revoke releases is what was allocated** just when no host of the group has its table of SPs and no
pointer of an SP to its ranks holds anything. -/
theorem Owned.perm_released_iff (h : m.Owned) (hnodup : (m.revokedTables u).Nodup) :
    ((m.revokedTables u).flatMap (m.held u)).Perm (m.groups u).allocated ↔ m.Bare u := by
  have hrel : ∀ t a, (t, a) ∈ (m.revokedTables u).flatMap (m.held u) ↔
      (∀ uid, t ≠ .host uid .sps) ∧ m.ptr u t = some a := by
    intro t a
    rw [List.mem_flatMap]
    constructor
    · rintro ⟨t', ht', hp⟩
      obtain ⟨rfl, hp⟩ := mem_held.1 hp
      exact ⟨(mem_revokedTables.1 ht').2, hp⟩
    · rintro ⟨hne, hp⟩
      exact ⟨t, mem_revokedTables.2 ⟨.of_ptr hp, hne⟩, mem_held.2 ⟨rfl, hp⟩⟩
  constructor
  · intro hperm
    have hhosts : ∀ uid, m.ptr u (.host uid .sps) = none := by
      intro uid
      by_contra hp
      obtain ⟨a, ha⟩ := Option.ne_none_iff_exists'.1 hp
      exact ((hrel _ a).1 (hperm.mem_iff.2 (h.known ha fun _ => nofun))).1 uid rfl
    refine ⟨hhosts, fun gid => ?_⟩
    -- a table of ranks was allocated with the tables of the hosts
    by_contra hp
    obtain ⟨a, ha⟩ := Option.ne_none_iff_exists'.1 hp
    obtain ⟨uid, huid⟩ := (h.tabled u).filled (hperm.mem_iff.1 ((hrel _ a).2 ⟨fun _ => nofun, ha⟩))
    exact huid (hhosts uid)
  · intro hbare
    refine (List.perm_ext_iff_of_nodup (nodup_flatMap_held hnodup) ((h.once u).of_map _)).2 fun ⟨t, a⟩ => ?_
    rw [hrel]
    constructor
    · rintro ⟨-, hp⟩
      refine h.known hp fun gid he => ?_
      rw [he, hbare.sps] at hp
      cases hp
    · intro hm
      refine ⟨fun uid he => ?_, h.held hm⟩
      have hp := h.held hm
      rw [he, hbare.hosts] at hp
      cases hp

/-- No two tables of a group are one allocation. -/
theorem Held.nodup_addresses (h : m.Held) (u : ℤ) : ((m.groups u).allocated.map Prod.snd).Nodup := by
  refine ((h.once u).of_map _).map_on fun p hp q hq he => ?_
  obtain ⟨t, a⟩ := p
  obtain ⟨t', a'⟩ := q
  cases he
  rw [(h.apart hp hq).2]

theorem Found.bare (hf : Found u m m') : m'.Bare u ↔ m.Bare u := by
  have hhost : ∀ uid, m'.ptr u (.host uid .sps) = m.ptr u (.host uid .sps) := fun uid =>
    hf.objects (.host uid .sps) fun _ => nofun
  have hsp : ∀ gid, m'.ptr u (.sp gid .ranks) = m.ptr u (.sp gid .ranks) := fun gid =>
    hf.objects (.sp gid .ranks) fun _ => nofun
  constructor
  · intro hb
    exact ⟨fun uid => (hhost uid).symm.trans (hb.hosts uid), fun gid => (hsp gid).symm.trans (hb.sps gid)⟩
  · intro hb
    exact ⟨fun uid => (hhost uid).trans (hb.hosts uid), fun gid => (hsp gid).trans (hb.sps gid)⟩

/-- **A revoke is complete or not** by the state before it. -/
theorem Owned.revokesWhole_iff (h : m.Owned) (hu : u ≠ INT_MAX) (n : ℕ) (handler : Bool)
    (hpend : (m.groups u).gp.persistent.pendingRecvCacheEntries = []) :
    m.RevokesWhole u n handler ↔ m.fault = false ∧ m.HasRoom u ∧ m.Bare u := by
  obtain ⟨hf, hroom, hhandled⟩ := h.beforeRelease hu n
  obtain ⟨m', hr, he⟩ := h.revoke hu n handler
  have hiff := (hf.toOwned.perm_released_iff hr.nodup).trans hf.bare
  have hfault : (m.revokeGroupCache u n handler).fault = (m.beforeRelease u n).fault := by
    rw [he]
    exact hr.fault
  have hfreed : (m.revokeGroupCache u n handler).freed = m.freed ++
      ((m.beforeRelease u n).revokedTables u).flatMap ((m.beforeRelease u n).held u) := by
    rw [he, ← hf.freed]
    exact hr.freed
  constructor
  · rintro ⟨hin, -, -, -, -, -, -, ps, hps, hperm, -, -⟩
    rw [hfreed] at hps
    obtain ⟨hnot, hroom⟩ := hroom.1 (hfault ▸ hin)
    exact ⟨hnot, hroom, hiff.1 (List.append_cancel_left hps ▸ hperm)⟩
  rintro ⟨hnot, hfits, hb⟩
  have hperm := hiff.2 hb
  have howned : (m.revokeGroupCache u n handler).Owned := by
    rw [he]
    exact (hf.toOwned.afterRevoke hr).beside _ _
  have hgroups : ∀ v, (m.revokeGroupCache u n handler).groups v =
      if v = u then .blank (m.groups u).gp.persistent else m.groups v := by
    intro v
    rw [he, invokeHandler_groups, blank_groups, hr.gp, hf.persistent]
    split
    · rfl
    · rename_i hv
      rw [hr.others hv, hf.others hv]
  have hself : (m.revokeGroupCache u n handler).groups u = .blank (m.groups u).gp.persistent := by
    rw [hgroups, if_pos rfl]
  refine ⟨hfault.trans (hroom.2 ⟨hnot, hfits⟩), ?handled, hself, fun ctx _ => ?values,
    fun v hv => ⟨by rw [hgroups, if_neg hv], fun t => ?pointers⟩, ⟨?spObjects, howned.sps.nodup none⟩,
    ⟨?hostObjects, howned.hosts.nodup none⟩, _, hfreed, hperm, ?once, fun v hv p hp hm => ?apart⟩
  case handled =>
    rw [he, invokeHandler]
    exact congrArg (· ++ _) (hr.handled.trans hhandled)
  case values =>
    rw [hself, revokeGroupCache_gp hpend]
    rfl
  case pointers => rw [he, invokeHandler_ptr, ptr_blank, if_neg hv, hr.ptr, if_neg fun hvu => hv hvu.1, hf.ptrs hv]
  case spObjects =>
    have hobjs : (m.beforeRelease u n).spObjs u = m.spObjs u := by rw [spObjs, hf.topo, hf.spAt]; rfl
    have hpool : (m.revokeGroupCache u n handler).spPool.list = (m.spObjs u).reverse ++ m.spPool.list := by
      rw [he, ← hobjs, ← hf.spPool]
      exact congrArg DynList.list hr.spPool
    rw [hpool]
    exact (List.reverse_perm _).append_right _
  case hostObjects =>
    have hobjs : (m.beforeRelease u n).hostObjs u = m.hostObjs u := by rw [hostObjs, hf.topo, hf.hostAt]; rfl
    have hpool : (m.revokeGroupCache u n handler).hostPool.list = (m.hostObjs u).reverse ++ m.hostPool.list := by
      rw [he, ← hobjs, ← hf.hostPool]
      exact congrArg DynList.list hr.hostPool
    rw [hpool]
    exact (List.reverse_perm _).append_right _
  case once => exact (hperm.map Prod.snd).nodup_iff.2 (hf.nodup_addresses u)
  case apart =>
    obtain ⟨q, hq, hqp⟩ := List.mem_map.1 hm
    have hp' : (p.1, q.2) ∈ ((m.beforeRelease u n).groups v).allocated := by
      rw [hqp, hf.others hv]
      exact hp
    exact hv (hf.apart hp' (hperm.mem_iff.1 hq)).1

end Memory

open Memory

/-- **A revoke is complete** if and only if no access has left its array before, the array of entries has room for
the ranks of the group, and the group has no table of SPs of a host and no pointer of an SP to ranks: in every run,
whatever the memory of the pools held. -/
theorem revokes_whole_iff {junk : Junk} {m : Memory}
    (h : Reach Memory.step (fun _ a => NamesGroup a) (Memory.start junk) m) {u : ℤ} (hu : u ≠ INT_MAX) (n : ℕ)
    (handler : Bool) (hpend : (m.groups u).gp.persistent.pendingRecvCacheEntries = []) :
    m.RevokesWhole u n handler ↔ m.fault = false ∧ m.HasRoom u ∧ m.Bare u :=
  (owned_of_reach h).revokesWhole_iff hu n handler hpend

/-- A group of one rank, from its first lookup to the rank. -/
def lookedUp : List (ℤ × MemOp) :=
  [(7, .lookup 1 1), (7, .learnGroupSize ⟨1, [(70, 0)]⟩ 1), (7, .updateTopologyData ⟨1, [(70, 0)]⟩ 0 0 70)]

/-- A group whose lookup tables were filled is revoked, and created again with the same objects: the second revoke
is complete. -/
theorem revokes_whole_again : ∃ m, Reach Memory.step (fun _ a => NamesGroup a)
    (Memory.start ⟨fun _ _ => some 9, fun _ _ => some 9, fun _ => true⟩) m ∧ m.RevokesWhole 7 1 true := by
  obtain ⟨m, hm, hpend, hnot, hroom, hbare⟩ : ∃ m, Reach Memory.step (fun _ a => NamesGroup a)
      (Memory.start ⟨fun _ _ => some 9, fun _ _ => some 9, fun _ => true⟩) m ∧
      (m.groups 7).gp.persistent.pendingRecvCacheEntries.isEmpty = true ∧ m.fault = false ∧ m.HasRoom 7 ∧ m.Bare 7 :=
    exists_reach_of_exec (lookedUp ++ [(7, .populate), (7, .revoke 1 true)] ++ lookedUp) (by decide +kernel)
  exact ⟨m, hm, (revokes_whole_iff hm (by decide) 1 true (List.isEmpty_iff.1 hpend)).2 ⟨hnot, hroom, hbare⟩⟩

/-- A group that was looked up before its size was known: the revoke resets two entries, and there is none. -/
example : (exec Memory.step (fun _ a => NamesGroup a)
    [(7, .lookup 0 1), (7, .learnGroupSize ⟨1, [(70, 0)]⟩ 2), (7, .revoke 1 false)]
      (Memory.start ⟨fun _ _ => none, fun _ _ => none, fun _ => false⟩)).any (fun m => m.fault) = true := by
  decide +kernel

/-- **Not every revoke.** The lookup tables of a group were filled: the table of SPs of its host is not released. -/
theorem not_revokes_whole : ¬ ∀ (junk : Junk) (m : Memory),
    Reach Memory.step (fun _ a => NamesGroup a) (Memory.start junk) m →
    ∀ (u : ℤ) (n : ℕ) (handler : Bool), u ≠ INT_MAX → 0 < (m.groups u).gp.groupSize → m.fault = false → m.HasRoom u →
      (m.groups u).gp.persistent.pendingRecvCacheEntries = [] → m.RevokesWhole u n handler := by
  intro h
  obtain ⟨m, hm, hsize, hpend, hnot, hroom, hbare⟩ : ∃ m, Reach Memory.step (fun _ a => NamesGroup a)
      (Memory.start ⟨fun _ _ => none, fun _ _ => none, fun _ => false⟩) m ∧ 0 < (m.groups 7).gp.groupSize ∧
      (m.groups 7).gp.persistent.pendingRecvCacheEntries.isEmpty = true ∧ m.fault = false ∧ m.HasRoom 7 ∧ ¬ m.Bare 7 :=
    exists_reach_of_exec (lookedUp ++ [(7, .populate)]) (by decide +kernel)
  have hpend := List.isEmpty_iff.1 hpend
  have hwhole := h _ m hm 7 1 false (by decide) hsize hnot hroom hpend
  exact hbare (((owned_of_reach hm).revokesWhole_iff (by decide) 1 false hpend).1 hwhole).2.2

end DpuOffload
