import DpuOffload.Cache.Pointers

/-!
# Who owns what the group caches point at

Each object of the two pools is in its pool or with one group, each table allocated for a
group since its last reset is held by its pointer, and but for the ranks of an SP each pointer holds such
a table (`Memory.Owned`). The pointer of an SP to its ranks has whatever the memory of the object held, until
the lookup tables are filled. What the steps are made of keeps this: an allocation, a change of values, an object
taken from its pool.
-/

namespace DpuOffload

open Placement

namespace Memory

variable {m m' m'' : Memory} {u v : ℤ} {t t' : Table}

/-! ### What every step keeps -/

/-- Where the objects of SPs are: in the pool, or with a group. -/
def spPlace (m : Memory) : Option ℤ → List ℕ
  | none => m.spPool.list
  | some u => m.spObjs u

/-- Where the objects of hosts are. -/
def hostPlace (m : Memory) : Option ℤ → List ℕ
  | none => m.hostPool.list
  | some u => m.hostObjs u

/-- **Each object is in its pool or with one group.** -/
structure Seats (m : Memory) : Prop where
  /-- The objects of SPs. -/
  sps : Placed {o | o < m.spPool.capacity} m.spPlace
  /-- The objects of hosts. -/
  hosts : Placed {o | o < m.hostPool.capacity} m.hostPlace
  /-- The pool of SPs can grow. -/
  spChunk : 0 < m.spPool.allocationSize
  /-- The pool of hosts can grow. -/
  hostChunk : 0 < m.hostPool.allocationSize
  /-- No table of SPs of a host is marked as initialised. -/
  flags : ∀ {u uid}, uid ∈ (m.groups u).gp.topo.hostsHash → m.spsInitialized ((m.groups u).hostAt uid) = false

/-- **Each table of a group is held by its pointer**, and no pointer but those of SPs to their ranks holds anything
else. -/
structure Held (m : Memory) : Prop where
  /-- A table is allocated once. -/
  once : ∀ u, ((m.groups u).allocated.map Prod.fst).Nodup
  /-- Its pointer holds it. -/
  held : ∀ {u t a}, (t, a) ∈ (m.groups u).allocated → m.ptr u t = some a
  /-- A pointer holds nothing else. -/
  known : ∀ {u t a}, m.ptr u t = some a → (∀ gid, t ≠ .sp gid .ranks) → (t, a) ∈ (m.groups u).allocated
  /-- The numbers of allocations. -/
  fresh : ∀ {u t a}, (t, a) ∈ (m.groups u).allocated → a < m.next
  /-- No two tables are one allocation. -/
  apart : ∀ {u v t t' a}, (t, a) ∈ (m.groups u).allocated → (t', a) ∈ (m.groups v).allocated → u = v ∧ t = t'

/-- Objects, tables, and groups that are reset. -/
structure Core (m : Memory) : Prop extends Seats m, Held m where
  /-- A group that is reset has nothing. -/
  reset : ∀ u, (m.groups u).gp.groupUid = INT_MAX → ∃ p, m.groups u = .blank p

theorem Seats.isApart (h : m.Seats) : m.Apart := by
  constructor
  · intro u v gid gid' hg hg' he
    have hmem : (m.groups u).spAt gid ∈ m.spPlace (some u) := List.mem_map_of_mem hg
    have hmem' : (m.groups u).spAt gid ∈ m.spPlace (some v) := he ▸ List.mem_map_of_mem hg'
    cases h.sps.unique hmem hmem'
    exact ⟨rfl, List.inj_on_of_nodup_map (h.sps.nodup (some u)) hg hg' he⟩
  · intro u v uid uid' hg hg' he
    have hmem : (m.groups u).hostAt uid ∈ m.hostPlace (some u) := List.mem_map_of_mem hg
    have hmem' : (m.groups u).hostAt uid ∈ m.hostPlace (some v) := he ▸ List.mem_map_of_mem hg'
    cases h.hosts.unique hmem hmem'
    exact ⟨rfl, List.inj_on_of_nodup_map (h.hosts.nodup (some u)) hg hg' he⟩

theorem Same.spPlace (h : Same m m') : m'.spPlace = m.spPlace := by
  funext k
  cases k with
  | none => exact congrArg DynList.list h.spPool
  | some u => simp only [Memory.spPlace, spObjs, h.gp, h.spAt]

theorem Same.hostPlace (h : Same m m') : m'.hostPlace = m.hostPlace := by
  funext k
  cases k with
  | none => exact congrArg DynList.list h.hostPool
  | some u => simp only [Memory.hostPlace, hostObjs, h.gp, h.hostAt]

theorem Seats.of_same (h : m.Seats) (hs : Same m m') : m'.Seats where
  sps := by
    rw [hs.spPlace, hs.spPool]
    exact h.sps
  hosts := by
    rw [hs.hostPlace, hs.hostPool]
    exact h.hosts
  spChunk := hs.spPool ▸ h.spChunk
  hostChunk := hs.hostPool ▸ h.hostChunk
  flags := by
    intro u uid huid
    rw [hs.gp] at huid
    rw [hs.spsInitialized, hs.hostAt]
    exact h.flags huid

/-- What an allocation for a group leaves alone. -/
structure Local (u : ℤ) (m m' : Memory) : Prop extends Same m m' where
  /-- The caches of the other groups. -/
  others : ∀ {v}, v ≠ u → m'.groups v = m.groups v
  /-- Their pointers. -/
  ptrs : ∀ {v}, v ≠ u → ∀ t, m'.ptr v t = m.ptr v t
  /-- A pointer that holds something. -/
  mono : ∀ {t}, m.ptr u t ≠ none → m'.ptr u t ≠ none

theorem Local.refl (u : ℤ) (m : Memory) : Local u m m where
  toSame := .refl m
  others _ := rfl
  ptrs _ _ := rfl
  mono h := h

theorem Local.trans (h : Local u m m') (h' : Local u m' m'') : Local u m m'' where
  toSame := h.toSame.trans h'.toSame
  others hv := (h'.others hv).trans (h.others hv)
  ptrs hv t := (h'.ptrs hv t).trans (h.ptrs hv t)
  mono ht := h'.mono (h.mono ht)

theorem local_malloc (h : m.Apart) (ht : m.Has u t) : Local u m (m.malloc u t) where
  toSame := same_malloc m u t
  others hv := malloc_groups_of_ne hv t
  ptrs hv t' := by rw [ptr_malloc h ht, if_neg fun he => hv he.1]
  mono hp := by
    rw [ptr_malloc h ht]
    split
    · simp
    · exact hp

/-- **An allocation** for a pointer that holds no table of its group. -/
theorem Core.malloc (h : m.Core) (hlive : (m.groups u).gp.groupUid ≠ INT_MAX) (ht : m.Has u t)
    (hnew : ∀ a, (t, a) ∉ (m.groups u).allocated) : (m.malloc u t).Core := by
  have hl := local_malloc h.isApart ht
  have hmem : ∀ {v t' a}, (t', a) ∈ ((m.malloc u t).groups v).allocated ↔
      (v = u ∧ t' = t ∧ a = m.next) ∨ (t', a) ∈ (m.groups v).allocated := by
    intro v t' a
    rw [malloc_allocated]
    by_cases hv : v = u
    · subst hv
      simp
    · simp [hv]
  refine ⟨h.toSeats.of_same hl.toSame, ⟨?once, ?held, ?known, ?fresh, ?apart⟩, ?reset⟩
  case once =>
    intro v
    rw [malloc_allocated]
    split
    · refine List.nodup_cons.2 ⟨fun hm => ?_, h.once u⟩
      obtain ⟨⟨t', a⟩, hold, rfl⟩ := List.mem_map.1 hm
      exact hnew a hold
    · exact h.once v
  case held =>
    intro v t' a hm
    rw [ptr_malloc h.isApart ht]
    rcases hmem.1 hm with ⟨rfl, rfl, rfl⟩ | hold
    · rw [if_pos ⟨rfl, rfl⟩]
    · rw [if_neg, h.held hold]
      rintro ⟨rfl, rfl⟩
      exact hnew a hold
  case known =>
    intro v t' a hp hne
    rw [ptr_malloc h.isApart ht] at hp
    split at hp
    · rename_i he
      exact hmem.2 (.inl ⟨he.1, he.2, (Option.some.inj hp).symm⟩)
    · exact hmem.2 (.inr (h.known hp hne))
  case fresh =>
    intro v t' a hm
    show a < m.next + 1
    rcases hmem.1 hm with ⟨-, -, rfl⟩ | hold
    · exact Nat.lt_succ_self _
    · exact Nat.lt_succ_of_lt (h.fresh hold)
  case apart =>
    intro v w t' t'' a hm hm'
    rcases hmem.1 hm with ⟨rfl, rfl, rfl⟩ | hold
    · rcases hmem.1 hm' with ⟨rfl, rfl, -⟩ | hold'
      · exact ⟨rfl, rfl⟩
      · exact absurd (h.fresh hold') (lt_irrefl _)
    · rcases hmem.1 hm' with ⟨rfl, rfl, rfl⟩ | hold'
      · exact absurd (h.fresh hold) (lt_irrefl _)
      · exact h.apart hold hold'
  case reset =>
    intro v hv
    have hvu : v ≠ u := by
      rintro rfl
      rw [hl.gp] at hv
      exact hlive hv
    rw [hl.others hvu] at hv ⊢
    exact h.reset v hv

/-- What `create` does. -/
structure Created (u : ℤ) (t : Table) (m m' : Memory) : Prop extends Core m', Local u m m' where
  /-- The pointer holds something. -/
  there : m'.ptr u t ≠ none
  /-- Nothing else is allocated. -/
  only : ∀ {t' a}, (t', a) ∈ (m'.groups u).allocated → t' = t ∨ (t', a) ∈ (m.groups u).allocated

theorem Core.create (h : m.Core) (hlive : (m.groups u).gp.groupUid ≠ INT_MAX) (ht : m.Has u t) :
    Created u t m (m.create u t) := by
  unfold Memory.create
  split
  · rename_i hp
    have hnew : ∀ a, (t, a) ∉ (m.groups u).allocated := by
      intro a ha
      rw [h.held ha] at hp
      cases hp
    refine ⟨h.malloc hlive ht hnew, local_malloc h.isApart ht, ?_, ?_⟩
    · rw [ptr_malloc h.isApart ht, if_pos ⟨rfl, rfl⟩]
      simp
    · intro t' a hm
      rw [malloc_allocated, if_pos rfl] at hm
      exact (List.mem_cons.1 hm).imp (fun he => congrArg Prod.fst he) id
  · rename_i hp
    exact ⟨h, .refl u m, hp, .inr⟩

/-! ### Changes of values -/

/-- A change of values that leaves hashes and pointers alone. -/
structure Keeps (g g' : GroupMem) : Prop where
  /-- The pointers. -/
  ptrs : g'.ptrs = g.ptrs
  /-- The objects of SPs. -/
  spAt : g'.spAt = g.spAt
  /-- The objects of hosts. -/
  hostAt : g'.hostAt = g.hostAt
  /-- What was allocated. -/
  allocated : g'.allocated = g.allocated
  /-- The SPs of the group. -/
  sps : ∀ gid, gid ∈ g'.gp.topo.spsHash ↔ gid ∈ g.gp.topo.spsHash
  /-- The hosts of the group. -/
  hosts : ∀ uid, uid ∈ g'.gp.topo.hostsHash ↔ uid ∈ g.gp.topo.hostsHash

theorem Keeps.refl (g : GroupMem) : Keeps g g := ⟨rfl, rfl, rfl, rfl, fun _ => .rfl, fun _ => .rfl⟩

section

variable {f : GroupMem → GroupMem}

theorem keeps_modify (hk : Keeps (m.groups u) (f (m.groups u))) (v : ℤ) :
    Keeps (m.groups v) ((m.modify u f).groups v) := by
  rw [groups_modify]
  split
  · rename_i hv
    exact hv ▸ hk
  · exact .refl _

theorem ptr_modify (hk : Keeps (m.groups u) (f (m.groups u))) (v : ℤ) (t : Table) :
    (m.modify u f).ptr v t = m.ptr v t := by
  have hkv := keeps_modify hk v
  refine ptr_congr hkv.ptrs hkv.sps hkv.hosts (fun gid _ => ?_) (fun uid _ => ?_) t
  · rw [hkv.spAt]
    rfl
  · rw [hkv.hostAt]
    rfl

/-- **A change of values** keeps objects and tables. -/
theorem Core.modify (h : m.Core) (hk : Keeps (m.groups u) (f (m.groups u)))
    (hreset : (f (m.groups u)).gp.groupUid = INT_MAX → ∃ p, f (m.groups u) = .blank p) : (m.modify u f).Core := by
  have hkv := keeps_modify hk
  have halloc : ∀ v, ((m.modify u f).groups v).allocated = (m.groups v).allocated := fun v => (hkv v).allocated
  refine ⟨⟨h.sps.perm fun k => ?_, h.hosts.perm fun k => ?_, h.spChunk, h.hostChunk, ?flags⟩,
    ⟨fun v => ?once, ?held, ?known, ?fresh, ?apart⟩, fun v hv => ?reset⟩
  · cases k with
    | none => exact .refl _
    | some v =>
      simp only [spPlace, spObjs, (hkv v).spAt]
      exact (perm_keys (hkv v).sps).map _
  · cases k with
    | none => exact .refl _
    | some v =>
      simp only [hostPlace, hostObjs, (hkv v).hostAt]
      exact (perm_keys (hkv v).hosts).map _
  case flags =>
    intro v uid huid
    rw [(hkv v).hostAt]
    exact h.flags (((hkv v).hosts uid).1 huid)
  case once =>
    rw [halloc]
    exact h.once v
  case held =>
    intro v t a hm
    rw [ptr_modify hk]
    exact h.held (halloc v ▸ hm)
  case known =>
    intro v t a hp hne
    rw [ptr_modify hk] at hp
    rw [halloc]
    exact h.known hp hne
  case fresh =>
    intro v t a hm
    exact h.fresh (halloc v ▸ hm)
  case apart =>
    intro v w t t' a hm hm'
    exact h.apart (halloc v ▸ hm) (halloc w ▸ hm')
  case reset =>
    rw [groups_modify] at hv ⊢
    split at hv
    · rename_i hvu
      rw [if_pos hvu]
      exact hreset hv
    · rename_i hvu
      rw [if_neg hvu]
      exact h.reset v hv

end

/-! ### A new SP, a new host -/

/-- A group has a new topology, with the same tables; the other groups are as they were. -/
structure Relaid (u : ℤ) (topo : Topology) (m m' : Memory) : Prop where
  /-- The values. -/
  gp : (m'.groups u).gp = { (m.groups u).gp with topo := topo }
  /-- What was allocated for the group. -/
  own : (m'.groups u).allocated = (m.groups u).allocated
  /-- The caches of the other groups. -/
  others : ∀ {v}, v ≠ u → m'.groups v = m.groups v

section

variable {topo : Topology}

theorem Relaid.allocated (h : Relaid u topo m m') (v : ℤ) : (m'.groups v).allocated = (m.groups v).allocated := by
  by_cases hv : v = u
  · subst hv
    exact h.own
  · rw [h.others hv]

/-- The group is not reset by this. -/
theorem Relaid.reset (h : Relaid u topo m m') (hm : m.Core) (hlive : (m.groups u).gp.groupUid ≠ INT_MAX)
    (hv : (m'.groups v).gp.groupUid = INT_MAX) : ∃ p, m'.groups v = .blank p := by
  by_cases hvu : v = u
  · subst hvu
    rw [h.gp] at hv
    exact absurd hv hlive
  · rw [h.others hvu] at hv ⊢
    exact hm.reset v hv

/-- The SPs of the groups stay where they are, when the group has the same ones. -/
theorem Relaid.spPlace_perm (h : Relaid u topo m m') (hpool : m'.spPool = m.spPool)
    (hat : (m'.groups u).spAt = (m.groups u).spAt)
    (hsps : ∀ k, k ∈ topo.spsHash ↔ k ∈ (m.groups u).gp.topo.spsHash) (k : Option ℤ) :
    (m'.spPlace k).Perm (m.spPlace k) := by
  cases k with
  | none => rw [Memory.spPlace, hpool, Memory.spPlace]
  | some v =>
    simp only [Memory.spPlace, spObjs]
    by_cases hv : v = u
    · subst hv
      rw [h.gp, hat]
      exact (perm_keys hsps).map _
    · rw [h.others hv]

/-- The hosts of the groups stay where they are, when the group has the same ones. -/
theorem Relaid.hostPlace_perm (h : Relaid u topo m m') (hpool : m'.hostPool = m.hostPool)
    (hat : (m'.groups u).hostAt = (m.groups u).hostAt)
    (hhosts : ∀ k, k ∈ topo.hostsHash ↔ k ∈ (m.groups u).gp.topo.hostsHash) (k : Option ℤ) :
    (m'.hostPlace k).Perm (m.hostPlace k) := by
  cases k with
  | none => rw [Memory.hostPlace, hpool, Memory.hostPlace]
  | some v =>
    simp only [Memory.hostPlace, hostObjs]
    by_cases hv : v = u
    · subst hv
      rw [h.gp, hat]
      exact (perm_keys hhosts).map _
    · rw [h.others hv]

end

/-- What taking an object for a group does; `T` says which pointers are those of the object. -/
structure Takes (u : ℤ) (T : Table → Prop) (topo : Topology) (m m' : Memory) : Prop
    extends Core m', Relaid u topo m m' where
  /-- The other pointers. -/
  ptrs : ∀ {v t}, ¬ (v = u ∧ T t) → m'.ptr v t = m.ptr v t

/-- The pointers of a new object hold no table. -/
theorem Held.take {T : Table → Prop} (h : m.Held) (hno : ∀ t, T t → ¬ m.Has u t)
    (hnone : ∀ t, T t → (∀ gid, t ≠ .sp gid .ranks) → m'.ptr u t = none) (hnext : m'.next = m.next)
    (halloc : ∀ v, (m'.groups v).allocated = (m.groups v).allocated)
    (hptr : ∀ {v t}, ¬ (v = u ∧ T t) → m'.ptr v t = m.ptr v t) : m'.Held := by
  refine ⟨fun v => halloc v ▸ h.once v, ?held, ?known, ?fresh, ?apart⟩
  case held =>
    intro v t a hm
    have hp := h.held (halloc v ▸ hm)
    rw [hptr, hp]
    rintro ⟨rfl, ht⟩
    exact hno t ht (.of_ptr hp)
  case known =>
    intro v t a hp hne
    have hout : ¬ (v = u ∧ T t) := by
      rintro ⟨rfl, ht⟩
      rw [hnone t ht hne] at hp
      cases hp
    rw [hptr hout] at hp
    rw [halloc]
    exact h.known hp hne
  case fresh =>
    intro v t a hm
    rw [hnext]
    exact h.fresh (halloc v ▸ hm)
  case apart =>
    intro v w t t' a hm hm'
    exact h.apart (halloc v ▸ hm) (halloc w ▸ hm')

section

variable {topo : Topology} {gid uid : ℕ}

theorem acquireSp_groups (m : Memory) (u : ℤ) (gid : ℕ) (topo : Topology) (v : ℤ) :
    (m.acquireSp u gid topo).groups v =
    if v = u then
      { m.groups u with
        gp := { (m.groups u).gp with topo := topo }
        spAt := Function.update (m.groups u).spAt gid m.spPool.first }
    else m.groups v :=
  groups_modify (m := m) fun g =>
    { g with gp := { g.gp with topo := topo }, spAt := Function.update g.spAt gid m.spPool.first }

/-- **A new SP** of a group. -/
theorem Core.acquireSp (h : m.Core) (hlive : (m.groups u).gp.groupUid ≠ INT_MAX)
    (hgid : gid ∉ (m.groups u).gp.topo.spsHash)
    (hsps : ∀ k, k ∈ topo.spsHash ↔ k = gid ∨ k ∈ (m.groups u).gp.topo.spsHash)
    (hhosts : ∀ k, k ∈ topo.hostsHash ↔ k ∈ (m.groups u).gp.topo.hostsHash) :
    Takes u (fun t => ∃ s, t = .sp gid s) topo m (m.acquireSp u gid topo) := by
  have hself := (acquireSp_groups m u gid topo u).trans (if_pos rfl)
  have hothers : ∀ {v}, v ≠ u → (m.acquireSp u gid topo).groups v = m.groups v := fun hv =>
    (acquireSp_groups m u gid topo _).trans (if_neg hv)
  have hr : Relaid u topo m (m.acquireSp u gid topo) := ⟨by rw [hself], by rw [hself], hothers⟩
  -- the object is with no group
  have hfree : ∀ {v k}, k ∈ (m.groups v).gp.topo.spsHash → (m.groups v).spAt k ≠ m.spPool.first := by
    intro v k hk he
    exact DynList.first_free h.sps h.spChunk rfl v (he ▸ List.mem_map_of_mem hk)
  have hptr : ∀ {v t}, ¬ (v = u ∧ ∃ s, t = Table.sp gid s) → (m.acquireSp u gid topo).ptr v t = m.ptr v t := by
    intro v t hout
    by_cases hv : v = u
    · subst hv
      cases t with
      | own t =>
        simp only [ptr, hself]
      | host uid t =>
        simp only [ptr, hself, hhosts]
        rfl
      | sp k t =>
        have hk : k ≠ gid := fun he => hout ⟨rfl, t, he ▸ rfl⟩
        simp only [ptr, hself, hsps, hk, false_or, Function.update_of_ne hk]
        split
        · rename_i hmem
          show Function.update m.spMem _ _ _ t = _
          rw [Function.update_of_ne (hfree hmem)]
        · rfl
    · refine ptr_congr (by rw [hothers hv]) (fun _ => by rw [hothers hv]) (fun _ => by rw [hothers hv])
        (fun k hk => ?_) (fun k _ => ?_) t
      · rw [hothers hv]
        exact Function.update_of_ne (hfree hk) _ _
      · rw [hothers hv]
        rfl
  have hnone : ∀ t, (∃ s, t = Table.sp gid s) → (∀ k, t ≠ .sp k .ranks) →
      (m.acquireSp u gid topo).ptr u t = none := by
    rintro t ⟨s, rfl⟩ hne
    have hs : s = .ranksBitset := by
      cases s with
      | ranksBitset => rfl
      | ranks => exact absurd rfl (hne gid)
    subst hs
    simp only [ptr, hself, hsps, true_or, if_true, Function.update_self]
    show Function.update m.spMem _ _ _ _ = none
    rw [Function.update_self, Function.update_self]
  refine ⟨⟨⟨?sps, h.hosts.perm (hr.hostPlace_perm rfl (by rw [hself]) hhosts), ?_, h.hostChunk, ?flags⟩,
    h.toHeld.take ?_ hnone rfl hr.allocated hptr, fun v hv => hr.reset h hlive hv⟩, hr, hptr⟩
  case sps =>
    refine DynList.placed_get (u := u) h.sps h.spChunk rfl rfl ?_ fun v hv => ?_
    · simp only [spPlace, spObjs, hself]
      exact perm_objects hgid hsps
    · simp only [spPlace, spObjs, hothers hv]
  case flags =>
    intro v k hk
    by_cases hv : v = u
    · subst hv
      rw [hself] at hk ⊢
      exact h.flags ((hhosts k).1 hk)
    · rw [hothers hv] at hk ⊢
      exact h.flags hk
  · show 0 < m.spPool.get.allocationSize
    rw [DynList.get_allocationSize]
    exact h.spChunk
  · rintro t ⟨s, rfl⟩
    exact hgid

theorem acquireHost_groups (m : Memory) (u : ℤ) (uid : ℕ) (topo : Topology) (v : ℤ) :
    (m.acquireHost u uid topo).groups v =
    if v = u then
      { m.groups u with
        gp := { (m.groups u).gp with topo := topo }
        hostAt := Function.update (m.groups u).hostAt uid m.hostPool.first }
    else m.groups v :=
  groups_modify (m := m) fun g =>
    { g with gp := { g.gp with topo := topo }, hostAt := Function.update g.hostAt uid m.hostPool.first }

/-- **A new host** of a group. -/
theorem Core.acquireHost (h : m.Core) (hlive : (m.groups u).gp.groupUid ≠ INT_MAX)
    (huid : uid ∉ (m.groups u).gp.topo.hostsHash)
    (hsps : ∀ k, k ∈ topo.spsHash ↔ k ∈ (m.groups u).gp.topo.spsHash)
    (hhosts : ∀ k, k ∈ topo.hostsHash ↔ k = uid ∨ k ∈ (m.groups u).gp.topo.hostsHash) :
    Takes u (fun t => ∃ s, t = .host uid s) topo m (m.acquireHost u uid topo) := by
  have hself := (acquireHost_groups m u uid topo u).trans (if_pos rfl)
  have hothers : ∀ {v}, v ≠ u → (m.acquireHost u uid topo).groups v = m.groups v := fun hv =>
    (acquireHost_groups m u uid topo _).trans (if_neg hv)
  have hr : Relaid u topo m (m.acquireHost u uid topo) := ⟨by rw [hself], by rw [hself], hothers⟩
  -- the object is with no group
  have hfree : ∀ {v k}, k ∈ (m.groups v).gp.topo.hostsHash → (m.groups v).hostAt k ≠ m.hostPool.first := by
    intro v k hk he
    exact DynList.first_free h.hosts h.hostChunk rfl v (he ▸ List.mem_map_of_mem hk)
  have hptr : ∀ {v t}, ¬ (v = u ∧ ∃ s, t = Table.host uid s) → (m.acquireHost u uid topo).ptr v t = m.ptr v t := by
    intro v t hout
    by_cases hv : v = u
    · subst hv
      cases t with
      | own t =>
        simp only [ptr, hself]
      | sp gid t =>
        simp only [ptr, hself, hsps]
        rfl
      | host k t =>
        have hk : k ≠ uid := fun he => hout ⟨rfl, t, he ▸ rfl⟩
        simp only [ptr, hself, hhosts, hk, false_or, Function.update_of_ne hk]
        split
        · rename_i hmem
          show Function.update m.hostMem _ _ _ t = _
          rw [Function.update_of_ne (hfree hmem)]
        · rfl
    · refine ptr_congr (by rw [hothers hv]) (fun _ => by rw [hothers hv]) (fun _ => by rw [hothers hv])
        (fun k _ => ?_) (fun k hk => ?_) t
      · rw [hothers hv]
        rfl
      · rw [hothers hv]
        exact Function.update_of_ne (hfree hk) _ _
  have hnone : ∀ t, (∃ s, t = Table.host uid s) → (∀ k, t ≠ .sp k .ranks) →
      (m.acquireHost u uid topo).ptr u t = none := by
    rintro t ⟨s, rfl⟩ -
    simp only [ptr, hself, hhosts, true_or, if_true, Function.update_self]
    show Function.update m.hostMem _ _ _ s = none
    rw [Function.update_self]
  refine ⟨⟨⟨h.sps.perm (hr.spPlace_perm rfl (by rw [hself]) hsps), ?hosts, h.spChunk, ?_, ?flags⟩,
    h.toHeld.take ?_ hnone rfl hr.allocated hptr, fun v hv => hr.reset h hlive hv⟩, hr, hptr⟩
  case hosts =>
    refine DynList.placed_get (u := u) h.hosts h.hostChunk rfl rfl ?_ fun v hv => ?_
    · simp only [hostPlace, hostObjs, hself]
      exact perm_objects huid hhosts
    · simp only [hostPlace, hostObjs, hothers hv]
  case flags =>
    intro v k hk
    show Function.update m.spsInitialized m.hostPool.first false _ = false
    by_cases hv : v = u
    · subst hv
      have hat : ((m.acquireHost v uid topo).groups v).hostAt =
          Function.update (m.groups v).hostAt uid m.hostPool.first := by rw [hself]
      rw [hself] at hk
      rw [hat]
      rcases (hhosts k).1 hk with rfl | hold
      · rw [Function.update_self, Function.update_self]
      · have hne : k ≠ uid := by
          rintro rfl
          exact huid hold
        rw [Function.update_of_ne hne, Function.update_of_ne (hfree hold)]
        exact h.flags hold
    · rw [hothers hv] at hk ⊢
      rw [Function.update_of_ne (hfree hk)]
      exact h.flags hk
  · show 0 < m.hostPool.get.allocationSize
    rw [DynList.get_allocationSize]
    exact h.hostChunk
  · rintro t ⟨s, rfl⟩
    exact huid

end

/-! ### What every run keeps -/

/-- The hashes and the lookup tables of a group. -/
structure Tabled (m : Memory) (u : ℤ) : Prop where
  /-- A group that is not reset has its hashes. -/
  live : (m.groups u).gp.groupUid ≠ INT_MAX → m.ptr u (.own .spsHash) ≠ none ∧ m.ptr u (.own .hostsHash) ≠ none
  /-- The tables of ranks of SPs are allocated when the lookup tables are filled. -/
  unfilled : (m.groups u).gp.topo.lookupTablesPopulated = false →
    ∀ gid a, (Table.sp gid .ranks, a) ∉ (m.groups u).allocated
  /-- A host then has its table of SPs. -/
  filled : ∀ {gid a}, (Table.sp gid .ranks, a) ∈ (m.groups u).allocated → ∃ uid, m.ptr u (.host uid .sps) ≠ none
  /-- A group with an SP has a host. -/
  manned : ∀ {gid}, gid ∈ (m.groups u).gp.topo.spsHash → ∃ uid, uid ∈ (m.groups u).gp.topo.hostsHash

/-- **Who owns what.** -/
structure Owned (m : Memory) : Prop extends Core m where
  /-- The groups. -/
  tabled : ∀ u, m.Tabled u

theorem Tabled.congr (h : m.Tabled v) (hg : m'.groups v = m.groups v) (hp : ∀ t, m'.ptr v t = m.ptr v t) :
    m'.Tabled v where
  live := by
    rw [hg, hp, hp]
    exact h.live
  unfilled := by
    rw [hg]
    exact h.unfilled
  filled hm := by
    rw [hg] at hm
    obtain ⟨uid, huid⟩ := h.filled hm
    exact ⟨uid, by rwa [hp]⟩
  manned := by
    rw [hg]
    exact h.manned

/-- What is noted beside the memory does not matter. -/
theorem Owned.beside (h : m.Owned) (b : Bool) (l : List ℤ) : ({ m with fault := b, handled := l } : Memory).Owned := by
  have hptr : ∀ v t, ({ m with fault := b, handled := l } : Memory).ptr v t = m.ptr v t := fun v t => by cases t <;> rfl
  refine ⟨⟨⟨h.sps, h.hosts, h.spChunk, h.hostChunk, h.flags⟩, ⟨h.once, ?held, ?known, h.fresh, h.apart⟩, h.reset⟩,
    fun v => (h.tabled v).congr rfl (hptr v)⟩
  case held =>
    intro v t a hm
    exact (hptr v t).trans (h.held hm)
  case known =>
    intro v t a hp
    exact h.known ((hptr v t).symm.trans hp)

/-- **A step about one group.** -/
theorem Owned.at (h : m.Owned) (hc : m'.Core) (hothers : ∀ {v}, v ≠ u → m'.groups v = m.groups v)
    (hptrs : ∀ {v}, v ≠ u → ∀ t, m'.ptr v t = m.ptr v t) (hu : m'.Tabled u) : m'.Owned := by
  refine ⟨hc, fun v => ?_⟩
  by_cases hv : v = u
  · exact hv ▸ hu
  · exact (h.tabled v).congr (hothers hv) (hptrs hv)

/-- What a step about a group that is not reset does, unless it fills the lookup tables. -/
structure Extends (u : ℤ) (m m' : Memory) : Prop extends Core m' where
  /-- The caches of the other groups. -/
  others : ∀ {v}, v ≠ u → m'.groups v = m.groups v
  /-- Their pointers. -/
  ptrs : ∀ {v}, v ≠ u → ∀ t, m'.ptr v t = m.ptr v t
  /-- A pointer that holds something. -/
  mono : ∀ {t}, m.ptr u t ≠ none → m'.ptr u t ≠ none
  /-- No table of ranks is allocated. -/
  ranks : ∀ {gid a}, (Table.sp gid .ranks, a) ∈ (m'.groups u).allocated →
    (Table.sp gid .ranks, a) ∈ (m.groups u).allocated
  /-- The group is not reset. -/
  uid : (m'.groups u).gp.groupUid = (m.groups u).gp.groupUid
  /-- The lookup tables are not filled. -/
  populated : (m'.groups u).gp.topo.lookupTablesPopulated = (m.groups u).gp.topo.lookupTablesPopulated

theorem Extends.trans (h : Extends u m m') (h' : Extends u m' m'') : Extends u m m'' where
  toCore := h'.toCore
  others hv := (h'.others hv).trans (h.others hv)
  ptrs hv t := (h'.ptrs hv t).trans (h.ptrs hv t)
  mono ht := h'.mono (h.mono ht)
  ranks hm := h.ranks (h'.ranks hm)
  uid := h'.uid.trans h.uid
  populated := h'.populated.trans h.populated

theorem Created.extends (h : Created u t m m') (ht : ∀ gid, t ≠ .sp gid .ranks) : Extends u m m' where
  toCore := h.toCore
  others := h.others
  ptrs := h.ptrs
  mono := h.mono
  ranks hm := (h.only hm).resolve_left fun he => ht _ he.symm
  uid := by rw [h.gp]
  populated := by rw [h.gp]

/-- Creating a table that is not the ranks of an SP. -/
theorem Core.create_extends (h : m.Core) (hlive : (m.groups u).gp.groupUid ≠ INT_MAX) (ht : m.Has u t)
    (hne : ∀ gid, t ≠ .sp gid .ranks) : Extends u m (m.create u t) :=
  (h.create hlive ht).extends hne

theorem Takes.extends {T : Table → Prop} {topo : Topology} (h : Takes u T topo m m') (hno : ∀ t, T t → ¬ m.Has u t)
    (hpop : topo.lookupTablesPopulated = (m.groups u).gp.topo.lookupTablesPopulated) : Extends u m m' where
  toCore := h.toCore
  others := h.others
  ptrs hv t := h.ptrs fun he => hv he.1
  mono := by
    intro t hp
    rw [h.ptrs]
    · exact hp
    · rintro ⟨-, ht⟩
      obtain ⟨a, ha⟩ := Option.ne_none_iff_exists'.1 hp
      exact hno t ht (.of_ptr ha)
  ranks hm := h.allocated u ▸ hm
  uid := by rw [h.gp]
  populated := by rw [h.gp, hpop]

/-- A change of values. -/
theorem Keeps.extends {f : GroupMem → GroupMem} (hk : Keeps (m.groups u) (f (m.groups u))) (h : (m.modify u f).Core)
    (huid : (f (m.groups u)).gp.groupUid = (m.groups u).gp.groupUid)
    (hpop : (f (m.groups u)).gp.topo.lookupTablesPopulated = (m.groups u).gp.topo.lookupTablesPopulated) :
    Extends u m (m.modify u f) where
  toCore := h
  others hv := (groups_modify f).trans (if_neg hv)
  ptrs _ t := ptr_modify hk _ t
  mono hp := by rwa [ptr_modify hk]
  ranks hm := (keeps_modify hk u).allocated ▸ hm
  uid := by rw [groups_modify, if_pos rfl, huid]
  populated := by rw [groups_modify, if_pos rfl, hpop]

/-- **What such a step keeps**, when a group with an SP still has a host. -/
theorem Owned.extend (h : m.Owned) (he : Extends u m m')
    (hmanned : ∀ {gid}, gid ∈ (m'.groups u).gp.topo.spsHash → ∃ uid, uid ∈ (m'.groups u).gp.topo.hostsHash) :
    m'.Owned := by
  refine h.at he.toCore he.others he.ptrs ⟨fun hlive => ?_, fun hpop gid a hm => ?_, fun hm => ?_, hmanned⟩
  · rw [he.uid] at hlive
    obtain ⟨hsps, hhosts⟩ := (h.tabled u).live hlive
    exact ⟨he.mono hsps, he.mono hhosts⟩
  · rw [he.populated] at hpop
    exact (h.tabled u).unfilled hpop gid a (he.ranks hm)
  · obtain ⟨uid, hp⟩ := (h.tabled u).filled (he.ranks hm)
    exact ⟨uid, he.mono hp⟩

end Memory

end DpuOffload
