import DpuOffload.Cache.OwnedRuns

/-!
# What a revoke releases

A revoke releases the tables of a group one after the other and returns its objects to their pools
(`Released`, one table or object at a time). After it everything is where it belongs, and so in every run
(`owned_of_reach`).
-/

namespace DpuOffload

open Transition Placement

namespace Memory

variable {m m' m'' : Memory} {u v : ℤ} {t : Table} {ts ts' : List Table} {sps sps' hosts hosts' : List ℕ}

/-! ### One table, one object -/

/-- What is released with a pointer. -/
def held (m : Memory) (u : ℤ) (t : Table) : List (Table × ℕ) := ((m.ptr u t).map fun a => (t, a)).toList

theorem mem_held {p : Table × ℕ} : p ∈ m.held u t ↔ p.1 = t ∧ m.ptr u t = some p.2 := by
  obtain ⟨s, a⟩ := p
  simp only [held, Option.mem_toList, Option.map_eq_some_iff, Prod.mk.injEq]
  constructor
  · rintro ⟨b, hb, rfl, rfl⟩
    exact ⟨rfl, hb⟩
  · rintro ⟨rfl, hb⟩
    exact ⟨a, hb, rfl, rfl⟩

/-- The tables `ts` of a group were released, and the objects of the SPs `sps` and of the hosts `hosts`
returned. -/
structure Released (u : ℤ) (ts : List Table) (sps hosts : List ℕ) (m m' : Memory) : Prop where
  /-- The values. -/
  gp : ∀ v, (m'.groups v).gp = (m.groups v).gp
  /-- The objects of SPs. -/
  spAt : ∀ v, (m'.groups v).spAt = (m.groups v).spAt
  /-- The objects of hosts. -/
  hostAt : ∀ v, (m'.groups v).hostAt = (m.groups v).hostAt
  /-- `sps_initialized`. -/
  spsInitialized : m'.spsInitialized = m.spsInitialized
  /-- The number of allocations. -/
  next : m'.next = m.next
  /-- The caches of the other groups. -/
  others : ∀ {v}, v ≠ u → m'.groups v = m.groups v
  /-- The pool of SPs. -/
  spPool : m'.spPool = { m.spPool with list := sps.reverse ++ m.spPool.list }
  /-- The pool of hosts. -/
  hostPool : m'.hostPool = { m.hostPool with list := hosts.reverse ++ m.hostPool.list }
  /-- No table was released twice. -/
  nodup : ts.Nodup
  /-- The pointers. -/
  ptr : ∀ v t, m'.ptr v t = if v = u ∧ t ∈ ts then none else m.ptr v t
  /-- What was released. -/
  freed : m'.freed = m.freed ++ ts.flatMap (m.held u)
  /-- The faults. -/
  fault : m'.fault = m.fault
  /-- The handler was not invoked. -/
  handled : m'.handled = m.handled

theorem Released.refl (u : ℤ) (m : Memory) : Released u [] [] [] m m where
  gp _ := rfl
  spAt _ := rfl
  hostAt _ := rfl
  spsInitialized := rfl
  next := rfl
  others _ := rfl
  spPool := rfl
  hostPool := rfl
  nodup := .nil
  ptr v t := by simp
  freed := by simp
  fault := rfl
  handled := rfl

/-- **One after the other.** -/
theorem Released.trans (h : Released u ts sps hosts m m') (h' : Released u ts' sps' hosts' m' m'')
    (hdisj : ∀ t ∈ ts, t ∉ ts') : Released u (ts ++ ts') (sps ++ sps') (hosts ++ hosts') m m'' where
  gp v := (h'.gp v).trans (h.gp v)
  spAt v := (h'.spAt v).trans (h.spAt v)
  hostAt v := (h'.hostAt v).trans (h.hostAt v)
  spsInitialized := h'.spsInitialized.trans h.spsInitialized
  next := h'.next.trans h.next
  others hv := (h'.others hv).trans (h.others hv)
  spPool := by
    rw [h'.spPool, h.spPool]
    simp
  hostPool := by
    rw [h'.hostPool, h.hostPool]
    simp
  nodup := List.nodup_append'.2 ⟨h.nodup, h'.nodup, fun t ht ht' => hdisj t ht ht'⟩
  ptr v t := by
    rw [h'.ptr, h.ptr]
    by_cases hv : v = u <;> by_cases ht : t ∈ ts <;> simp [hv, ht]
  freed := by
    have hheld : ts'.flatMap (m'.held u) = ts'.flatMap (m.held u) := by
      refine List.flatMap_congr fun t ht => ?_
      rw [held, h.ptr, if_neg fun he => hdisj t he.2 ht]
      rfl
    rw [h'.freed, h.freed, hheld, List.append_assoc, List.flatMap_append]
  fault := h'.fault.trans h.fault
  handled := h'.handled.trans h.handled

/-- The hashes are those there were. -/
theorem Released.isApart (h : Released u ts sps hosts m m') (ha : m.Apart) : m'.Apart := by
  constructor
  · intro u v gid gid' hg hg' he
    rw [h.gp] at hg hg'
    rw [h.spAt, h.spAt] at he
    exact ha.sp hg hg' he
  · intro u v uid uid' hg hg' he
    rw [h.gp] at hg hg'
    rw [h.hostAt, h.hostAt] at he
    exact ha.host hg hg' he

theorem Released.has (h : Released u ts sps hosts m m') (ht : m.Has v t) : m'.Has v t := by
  cases t with
  | own t => trivial
  | sp gid t =>
    unfold Has
    rwa [h.gp v]
  | host uid t =>
    unfold Has
    rwa [h.gp v]

/-- **A table is released.** -/
theorem released_free (h : m.Apart) (ht : m.Has u t) : Released u [t] [] [] m (m.free u t) := by
  have hs := same_free m u t
  have hsame : (m.release u t).Apart := ⟨h.sp, h.host⟩
  refine ⟨hs.gp, hs.spAt, hs.hostAt, hs.spsInitialized, ?_, fun hv => ?_, hs.spPool, hs.hostPool,
    List.nodup_singleton t, fun v t' => ?_, ?_, hs.fault, hs.handled⟩
  · cases t <;> rfl
  · exact setPtr_groups_of_ne hv t none
  · rw [free, ptr_setPtr (m := m.release u t) hsame (by cases t <;> exact ht)]
    simp only [List.mem_singleton]
    rfl
  · have hfreed : (m.free u t).freed = m.freed ++ m.held u t := by cases t <;> rfl
    rw [hfreed, List.flatMap_singleton]

/-- One more table of the group itself. -/
theorem Released.free (h : Released u ts sps hosts m m') (ha : m.Apart) {s : GroupPtr} (hs : Table.own s ∉ ts) :
    Released u (ts ++ [.own s]) sps hosts m (m'.free u (.own s)) := by
  have hall := h.trans (released_free (u := u) (t := .own s) (h.isApart ha) trivial) fun t ht ht' => by
    rw [List.mem_singleton.1 ht'] at ht
    exact hs ht
  simpa only [List.append_nil] using hall

/-- An object of an SP is returned. -/
theorem released_spRet (o : ℕ) (m : Memory) : Released u [] [o] [] m { m with spPool := m.spPool.ret o } := by
  refine ⟨fun _ => rfl, fun _ => rfl, fun _ => rfl, rfl, rfl, fun _ => rfl, rfl, rfl, .nil, fun v t => ?_, ?_, rfl,
    rfl⟩
  · simp only [List.not_mem_nil, and_false, if_false]
    cases t <;> rfl
  · simp

/-- An object of a host is returned. -/
theorem released_hostRet (o : ℕ) (m : Memory) : Released u [] [] [o] m { m with hostPool := m.hostPool.ret o } := by
  refine ⟨fun _ => rfl, fun _ => rfl, fun _ => rfl, rfl, rfl, fun _ => rfl, rfl, rfl, .nil, fun v t => ?_, ?_, rfl,
    rfl⟩
  · simp only [List.not_mem_nil, and_false, if_false]
    cases t <;> rfl
  · simp

/-! ### The hashes -/

/-- What is released of an SP. -/
def spTables (gid : ℕ) : List Table := [.sp gid .ranksBitset, .sp gid .ranks]

/-- What is released of a host. -/
def hostTables (uid : ℕ) : List Table := [.host uid .spsBitset, .host uid .ranksBitset]

theorem own_notMem_spTables {gids : List ℕ} (s : GroupPtr) : Table.own s ∉ gids.flatMap spTables := by
  simp [spTables]

theorem own_notMem_hostTables {uids : List ℕ} (s : GroupPtr) : Table.own s ∉ uids.flatMap hostTables := by
  simp [hostTables]

theorem released_finiSp {gid : ℕ} (h : m.Apart) (hg : gid ∈ (m.groups u).gp.topo.spsHash) :
    Released u (spTables gid) [(m.groups u).spAt gid] [] m (m.finiSp u gid) := by
  have h₁ := released_free (t := .sp gid .ranksBitset) h hg
  have h₂ := released_free (t := .sp gid .ranks) (h₁.isApart h) (h₁.has (t := .sp gid .ranks) hg)
  have h₁₂ := h₁.trans h₂ (by simp)
  have hret := released_spRet (u := u) ((m.groups u).spAt gid)
    ((m.free u (.sp gid .ranksBitset)).free u (.sp gid .ranks))
  have hall := h₁₂.trans hret (by simp)
  simp only [finiSp, h₁₂.spAt u]
  exact hall

/-- A host whose `sps_initialized` is not set. -/
theorem released_finiHost {uid : ℕ} (h : m.Apart) (hg : uid ∈ (m.groups u).gp.topo.hostsHash)
    (hflag : m.spsInitialized ((m.groups u).hostAt uid) = false) :
    Released u (hostTables uid) [] [(m.groups u).hostAt uid] m (m.finiHost u uid) := by
  have h₁ := released_free (t := .host uid .spsBitset) h hg
  have h₂ := released_free (t := .host uid .ranksBitset) (h₁.isApart h) (h₁.has (t := .host uid .ranksBitset) hg)
  have h₁₂ := h₁.trans h₂ (by simp)
  have hret := released_hostRet (u := u) ((m.groups u).hostAt uid)
    ((m.free u (.host uid .spsBitset)).free u (.host uid .ranksBitset))
  have hall := h₁₂.trans hret (by simp)
  simp only [finiHost, h₁₂.spsInitialized, hflag, Bool.false_eq_true, if_false]
  exact hall

/-- **The objects of the SPs**, one after the other. -/
theorem released_spsFini (gids : List ℕ) (h : m.Apart) (hnodup : gids.Nodup)
    (hg : ∀ gid ∈ gids, gid ∈ (m.groups u).gp.topo.spsHash) :
    Released u (gids.flatMap spTables) (gids.map (m.groups u).spAt) [] m
      (gids.foldl (fun m gid => m.finiSp u gid) m) := by
  induction gids generalizing m with
  | nil => exact .refl u m
  | cons gid gids ih =>
    obtain ⟨hgid, hnodup⟩ := List.nodup_cons.1 hnodup
    have h₁ := released_finiSp h (hg gid List.mem_cons_self)
    have h₂ := ih (h₁.isApart h) hnodup fun k hk => by
      rw [h₁.gp]
      exact hg k (List.mem_cons_of_mem _ hk)
    rw [h₁.spAt] at h₂
    refine h₁.trans h₂ fun t ht ht' => ?_
    obtain ⟨k, hk, ht'⟩ := List.mem_flatMap.1 ht'
    have hkg : k = gid := by
      simp only [spTables, List.mem_cons, List.not_mem_nil, or_false] at ht ht'
      rcases ht with rfl | rfl <;> simpa [eq_comm] using ht'
    exact hgid (hkg ▸ hk)

/-- **The objects of the hosts**, one after the other. -/
theorem released_hostsFini (uids : List ℕ) (h : m.Apart) (hnodup : uids.Nodup)
    (hg : ∀ uid ∈ uids, uid ∈ (m.groups u).gp.topo.hostsHash)
    (hflag : ∀ uid ∈ uids, m.spsInitialized ((m.groups u).hostAt uid) = false) :
    Released u (uids.flatMap hostTables) [] (uids.map (m.groups u).hostAt) m
      (uids.foldl (fun m uid => m.finiHost u uid) m) := by
  induction uids generalizing m with
  | nil => exact .refl u m
  | cons uid uids ih =>
    obtain ⟨huid, hnodup⟩ := List.nodup_cons.1 hnodup
    have h₁ := released_finiHost h (hg uid List.mem_cons_self) (hflag uid List.mem_cons_self)
    have h₂ := ih (h₁.isApart h) hnodup
      (fun k hk => by
        rw [h₁.gp]
        exact hg k (List.mem_cons_of_mem _ hk))
      (fun k hk => by
        rw [h₁.spsInitialized, h₁.hostAt]
        exact hflag k (List.mem_cons_of_mem _ hk))
    rw [h₁.hostAt] at h₂
    refine h₁.trans h₂ fun t ht ht' => ?_
    obtain ⟨k, hk, ht'⟩ := List.mem_flatMap.1 ht'
    have hku : k = uid := by
      simp only [hostTables, List.mem_cons, List.not_mem_nil, or_false] at ht ht'
      rcases ht with rfl | rfl <;> simpa [eq_comm] using ht'
    exact huid (hku ▸ hk)

/-- The tables a revoke releases: those of SPs of a host are not among them. -/
def revokedTables (m : Memory) (u : ℤ) : List Table :=
  [Table.own .spsBitset, Table.own .hostsBitset] ++ (m.groups u).gp.topo.spsHash.keys.flatMap spTables ++
    [Table.own .spsHash] ++ (m.groups u).gp.topo.hostsHash.keys.flatMap hostTables ++
    [Table.own .hostsHash, Table.own .sps, Table.own .hosts, Table.own .ranks, Table.own .revokesRanks]

theorem mem_revokedTables : t ∈ m.revokedTables u ↔ m.Has u t ∧ ∀ uid, t ≠ .host uid .sps := by
  cases t with
  | own t => cases t <;> simp [revokedTables, Has, spTables, hostTables]
  | sp gid t => cases t <;> simp [revokedTables, Has, spTables, hostTables, AList.mem_keys]
  | host uid t => cases t <;> simp [revokedTables, Has, spTables, hostTables, AList.mem_keys]

/-! ### The whole group -/

/-- `GROUP_CACHE_HASHES_FINI` for the SPs of a group that has its hash. -/
theorem Released.spsHashFini (h : Released u ts sps hosts m m') (ha : m.Apart) (hhash : m.ptr u (.own .spsHash) ≠ none)
    (hown : Table.own .spsHash ∉ ts) (hts : ∀ gid s, Table.sp gid s ∉ ts) :
    Released u (ts ++ (m.groups u).gp.topo.spsHash.keys.flatMap spTables ++ [Table.own .spsHash]) (sps ++ m.spObjs u)
      hosts m (m'.spsHashFini u) := by
  have hobjs := released_spsFini (u := u) (m'.groups u).gp.topo.spsHash.keys (h.isApart ha) (AList.keys_nodup _)
    fun gid hg => hg
  have hp : m'.ptr u (.own .spsHash) ≠ none := by rwa [h.ptr, if_neg fun he => hown he.2]
  have hall := h.trans hobjs fun t ht ht' => by
    obtain ⟨gid, -, ht'⟩ := List.mem_flatMap.1 ht'
    simp only [spTables, List.mem_cons, List.not_mem_nil, or_false] at ht'
    rcases ht' with rfl | rfl
    · exact hts _ _ ht
    · exact hts _ _ ht
  rw [Memory.spsHashFini, if_neg hp, h.gp]
  rw [h.gp, h.spAt, List.append_nil] at hall
  exact hall.free ha fun hm => (List.mem_append.1 hm).elim hown (own_notMem_spTables .spsHash)

/-- `GROUP_CACHE_HASHES_FINI` for the hosts of a group that has its hash. -/
theorem Released.hostsHashFini (h : Released u ts sps hosts m m') (ha : m.Seats)
    (hhash : m.ptr u (.own .hostsHash) ≠ none) (hown : Table.own .hostsHash ∉ ts)
    (hts : ∀ uid s, Table.host uid s ∉ ts) :
    Released u (ts ++ (m.groups u).gp.topo.hostsHash.keys.flatMap hostTables ++ [Table.own .hostsHash]) sps
      (hosts ++ m.hostObjs u) m (m'.hostsHashFini u) := by
  have hobjs := released_hostsFini (u := u) (m'.groups u).gp.topo.hostsHash.keys (h.isApart ha.isApart)
    (AList.keys_nodup _) (fun uid hg => hg) fun uid hg => by
      rw [h.gp] at hg
      rw [h.spsInitialized, h.hostAt]
      exact ha.flags hg
  have hp : m'.ptr u (.own .hostsHash) ≠ none := by rwa [h.ptr, if_neg fun he => hown he.2]
  have hall := h.trans hobjs fun t ht ht' => by
    obtain ⟨uid, -, ht'⟩ := List.mem_flatMap.1 ht'
    simp only [hostTables, List.mem_cons, List.not_mem_nil, or_false] at ht'
    rcases ht' with rfl | rfl
    · exact hts _ _ ht
    · exact hts _ _ ht
  rw [Memory.hostsHashFini, if_neg hp, h.gp]
  rw [h.gp, h.hostAt, List.append_nil] at hall
  exact hall.free ha.isApart fun hm => (List.mem_append.1 hm).elim hown (own_notMem_hostTables .hostsHash)

/-- **What a revoke releases**, before the fields of the group are reset. -/
theorem Owned.released (h : m.Owned) (hlive : (m.groups u).gp.groupUid ≠ INT_MAX) :
    ∃ m', Released u (m.revokedTables u) (m.spObjs u) (m.hostObjs u) m m' ∧
      ((m.free u (.own .spsBitset)).free u (.own .hostsBitset)).resetGroupCache u = m'.blank u := by
  obtain ⟨hsps, hhosts⟩ := (h.tabled u).live hlive
  have ha := h.isApart
  have hbits := ((Released.refl u m).free ha (s := .spsBitset) (by simp)).free ha (s := .hostsBitset) (by simp)
  have hsp := hbits.spsHashFini ha hsps (by simp) (by simp)
  have hhost := hsp.hostsHashFini h.toSeats hhosts (by simp [spTables]) (by simp [spTables])
  have htables := (hhost.free ha (s := .sps) (by simp [spTables, hostTables])).free ha (s := .hosts)
    (by simp [spTables, hostTables])
  have hrest := (htables.free ha (s := .ranks) (by simp [spTables, hostTables])).free ha (s := .revokesRanks)
    (by simp [spTables, hostTables])
  refine ⟨_, ?_, rfl⟩
  simpa [revokedTables] using hrest

/-! ### After a revoke -/

theorem blank_groups (v : ℤ) : (m.blank u).groups v =
    if v = u then .blank (m.groups u).gp.persistent else m.groups v :=
  groups_modify (m := m) fun g => .blank g.gp.persistent

theorem ptr_blank (v : ℤ) (t : Table) : (m.blank u).ptr v t = if v = u then none else m.ptr v t := by
  by_cases hv : v = u
  · subst hv
    cases t <;> simp only [ptr, blank_groups, if_true] <;> rfl
  · rw [if_neg hv]
    refine ptr_congr ?_ (fun _ => ?_) (fun _ => ?_) (fun _ _ => ?_) (fun _ _ => ?_) t <;>
      rw [blank_groups, if_neg hv] <;> rfl

/-- The objects returned to a pool. -/
theorem placed_ret {d : DynList} {L L' : Option ℤ → List ℕ} {os : List ℕ} (h : Placed {o | o < d.capacity} L)
    (hos : os = L (some u)) (hL' : L' none = os.reverse ++ L none) (hu : L' (some u) = [])
    (ho : ∀ v, v ≠ u → L' (some v) = L (some v)) : Placed {o | o < d.capacity} L' := by
  refine h.exchange (a := none) (b := some u) (n := []) (by simp) .nil nofun (fun y => by simp) ?_ fun k hk hku => ?_
  · rw [hL', hu, hos, List.append_nil, List.nil_append]
    exact (List.perm_append_comm).trans ((List.reverse_perm _).append_left _)
  · cases k with
    | none => exact absurd rfl hk
    | some v => exact ho v fun he => hku (congrArg some he)

/-- **After a revoke** everything is where it belongs. -/
theorem Owned.afterRevoke (h : m.Owned) (hr : Released u ts (m.spObjs u) (m.hostObjs u) m m') : (m'.blank u).Owned := by
  have hself : (m'.blank u).groups u = .blank (m.groups u).gp.persistent := by
    rw [blank_groups, if_pos rfl, hr.gp]
  have hothers : ∀ {v}, v ≠ u → (m'.blank u).groups v = m.groups v := fun hv => by
    rw [blank_groups, if_neg hv, hr.others hv]
  have hptr : ∀ {v}, v ≠ u → ∀ t, (m'.blank u).ptr v t = m.ptr v t := fun hv t => by
    rw [ptr_blank, if_neg hv, hr.ptr, if_neg fun he => hv he.1]
  have hnone : ∀ t, (m'.blank u).ptr u t = none := fun t => by rw [ptr_blank, if_pos rfl]
  have hmem : ∀ {v t a}, (t, a) ∈ ((m'.blank u).groups v).allocated → v ≠ u ∧ (t, a) ∈ (m.groups v).allocated := by
    intro v t a hm
    by_cases hv : v = u
    · subst hv
      rw [hself] at hm
      cases hm
    · exact ⟨hv, hothers hv ▸ hm⟩
  refine h.at ⟨⟨?sps, ?hosts, ?spChunk, ?hostChunk, ?flags⟩, ⟨fun v => ?once, ?held, ?known, ?fresh, ?apart⟩,
    fun v hv => ?reset⟩ hothers hptr ?tabled
  case sps =>
    have hpool : (m'.blank u).spPool = { m.spPool with list := (m.spObjs u).reverse ++ m.spPool.list } := hr.spPool
    rw [hpool]
    refine placed_ret (u := u) h.sps rfl (congrArg DynList.list hpool) ?_ fun v hv => ?_
    · simp only [spPlace, spObjs, hself]
      rfl
    · simp only [spPlace, spObjs, hothers hv]
  case hosts =>
    have hpool : (m'.blank u).hostPool = { m.hostPool with list := (m.hostObjs u).reverse ++ m.hostPool.list } :=
      hr.hostPool
    rw [hpool]
    refine placed_ret (u := u) h.hosts rfl (congrArg DynList.list hpool) ?_ fun v hv => ?_
    · simp only [hostPlace, hostObjs, hself]
      rfl
    · simp only [hostPlace, hostObjs, hothers hv]
  case spChunk =>
    show 0 < m'.spPool.allocationSize
    rw [hr.spPool]
    exact h.spChunk
  case hostChunk =>
    show 0 < m'.hostPool.allocationSize
    rw [hr.hostPool]
    exact h.hostChunk
  case flags =>
    intro v uid huid
    by_cases hv : v = u
    · subst hv
      rw [hself] at huid
      cases huid
    · rw [hothers hv] at huid ⊢
      show m'.spsInitialized _ = false
      rw [hr.spsInitialized]
      exact h.flags huid
  case once =>
    by_cases hv : v = u
    · subst hv
      rw [hself]
      exact .nil
    · rw [hothers hv]
      exact h.once v
  case held =>
    intro v t a hm
    rw [hptr (hmem hm).1]
    exact h.held (hmem hm).2
  case known =>
    intro v t a hp hne
    by_cases hv : v = u
    · subst hv
      rw [hnone] at hp
      cases hp
    · rw [hptr hv] at hp
      rw [hothers hv]
      exact h.known hp hne
  case fresh =>
    intro v t a hm
    show a < m'.next
    rw [hr.next]
    exact h.fresh (hmem hm).2
  case apart =>
    intro v w t t' a hm hm'
    exact h.apart (hmem hm).2 (hmem hm').2
  case reset =>
    by_cases hvu : v = u
    · subst hvu
      exact ⟨_, hself⟩
    · rw [hothers hvu] at hv ⊢
      exact h.reset v hv
  case tabled =>
    refine ⟨fun hlive => ?_, fun _ gid a hm => (hmem hm).1 rfl, fun hm => absurd rfl (hmem hm).1, fun hg => ?_⟩
    · rw [hself] at hlive
      exact absurd rfl hlive
    · rw [hself] at hg
      cases hg

/-! ### The loop over the ranks -/

/-- Values with the same topology are written. -/
theorem Found.setGp {gp : GroupCache} (h : Found u m m') (htopo : gp.topo = (m'.groups u).gp.topo)
    (huid : gp.groupUid = (m'.groups u).gp.groupUid) (hpers : gp.persistent = (m'.groups u).gp.persistent) :
    Found u m (m'.setGp u gp) := by
  have hk : Keeps (m'.groups u) { m'.groups u with gp := gp } := by
    refine ⟨rfl, rfl, rfl, rfl, fun _ => ?_, fun _ => ?_⟩ <;> rw [htopo]
  have hself : (m'.setGp u gp).groups u = { m'.groups u with gp := gp } := (groups_modify _).trans (if_pos rfl)
  have hptr : ∀ v t, (m'.setGp u gp).ptr v t = m'.ptr v t := ptr_modify hk
  have howned := h.toOwned.setValues htopo huid fun hreset => absurd (huid.symm.trans hreset) h.live
  refine ⟨howned, ?_, ?_, ?_, ?_, ?_, fun t ht => (hptr u t).trans (h.objects t ht),
    fun hv => ((groups_modify _).trans (if_neg hv)).trans (h.others hv), fun hv t => (hptr _ t).trans (h.ptrs hv t),
    h.spPool, h.hostPool, h.freed⟩ <;> rw [hself]
  · exact huid ▸ h.live
  · exact hpers.trans h.persistent
  · exact htopo.trans h.topo
  · exact h.spAt
  · exact h.hostAt

/-- **The entries are reset** one after the other; an entry past the end is not there. -/
theorem Found.resetEntries_list (is : List ℕ) (h : Found u m m') :
    Found u m (is.foldl (fun m i => m.resetEntry u i) m') ∧
      (is.foldl (fun m i => m.resetEntry u i) m').fault =
        (m'.fault || is.any fun i => decide ((m'.groups u).gp.entries.length ≤ i)) ∧
      (is.foldl (fun m i => m.resetEntry u i) m').handled = m'.handled := by
  induction is generalizing m' with
  | nil => exact ⟨h, (Bool.or_false _).symm, rfl⟩
  | cons i is ih =>
    have hgp : ((m'.resetEntry u i).groups u).gp = (m'.groups u).gp.setEntryAt i initPeerCacheEntry := setGp_gp _
    have hlen : ((m'.resetEntry u i).groups u).gp.entries.length = (m'.groups u).gp.entries.length := by
      rw [hgp]
      exact length_entries_map_set (r := i) (e := initPeerCacheEntry) rfl
    have hset : Found u m (m'.setGp u ((m'.groups u).gp.setEntryAt i initPeerCacheEntry)) := h.setGp rfl rfl rfl
    have hentry : Found u m (m'.resetEntry u i) := hset.beside _ _
    obtain ⟨hfound, hfault, hhandled⟩ := ih hentry
    refine ⟨hfound, ?_, hhandled⟩
    rw [List.foldl_cons, hfault, hlen, List.any_cons, ← Bool.or_assoc]
    rfl

theorem Found.resetEntries (h : Found u m m') : Found u m (m'.resetEntries u) ∧
    (m'.resetEntries u).fault =
      (m'.fault || decide ((m'.groups u).gp.entries.length < (m'.groups u).gp.groupSize)) ∧
    (m'.resetEntries u).handled = m'.handled := by
  obtain ⟨hfound, hfault, hhandled⟩ := h.resetEntries_list (List.range (m'.groups u).gp.groupSize)
  refine ⟨hfound, hfault.trans (congrArg _ ?_), hhandled⟩
  -- some entry is past the end just when the last one is
  rw [Bool.eq_iff_iff, List.any_eq_true, decide_eq_true_iff]
  constructor
  · rintro ⟨i, hi, hle⟩
    exact Nat.lt_of_le_of_lt (of_decide_eq_true hle) (List.mem_range.1 hi)
  · intro hlt
    exact ⟨_, List.mem_range.2 hlt, decide_eq_true le_rfl⟩

/-! ### The whole revoke -/

@[simp] theorem invokeHandler_groups (m : Memory) (u : ℤ) (handler : Bool) :
    (m.invokeHandler u handler).groups = m.groups := rfl

@[simp] theorem invokeHandler_ptr (m : Memory) (u v : ℤ) (handler : Bool) (t : Table) :
    (m.invokeHandler u handler).ptr v t = m.ptr v t := by
  cases t <;> rfl

/-- The memory a revoke releases from: the group was looked up and its entries reset. -/
def beforeRelease (m : Memory) (u : ℤ) (n : ℕ) : Memory := (m.getGroupCacheInternal u 0 n).resetEntries u

/-- The array of entries has room for the ranks of the group. -/
def HasRoom (m : Memory) (u : ℤ) : Prop := (m.groups u).gp.groupSize ≤ (m.groups u).gp.entries.length

instance (m : Memory) (u : ℤ) : Decidable (m.HasRoom u) := inferInstanceAs (Decidable (_ ≤ _))

theorem Owned.beforeRelease (h : m.Owned) (hu : u ≠ INT_MAX) (n : ℕ) : Found u m (m.beforeRelease u n) ∧
    ((m.beforeRelease u n).fault = false ↔ m.fault = false ∧ m.HasRoom u) ∧
    (m.beforeRelease u n).handled = m.handled := by
  obtain ⟨hfound, hfault, hhandled⟩ := (h.getGroupCacheInternal hu 0 n).resetEntries
  obtain ⟨hgp, hfault₀, hhandled₀⟩ := getGroupCacheInternal_query m u n
  refine ⟨hfound, ?_, hhandled.trans hhandled₀⟩
  -- a group that was reset has no ranks, before the query and after it
  have hroom : (m.getGroupCacheInternal u 0 n).HasRoom u ↔ m.HasRoom u := by
    rw [HasRoom, hgp]
    by_cases hreset : (m.groups u).gp.groupUid = INT_MAX
    · obtain ⟨p, hp⟩ := h.reset u hreset
      rw [HasRoom, hp]
      exact iff_of_true (Nat.zero_le _) (Nat.zero_le _)
    · rw [getGroupCache, getGroupCacheInternal_of_live hreset]
      rfl
  unfold Memory.beforeRelease
  rw [hfault, hfault₀, Bool.or_eq_false_iff, decide_eq_false_iff_not, Nat.not_lt]
  exact and_congr_right fun _ => hroom

/-- **A revoke**: what it releases, and what it leaves. -/
theorem Owned.revoke (h : m.Owned) (hu : u ≠ INT_MAX) (n : ℕ) (handler : Bool) :
    ∃ m', Released u ((m.beforeRelease u n).revokedTables u) ((m.beforeRelease u n).spObjs u)
        ((m.beforeRelease u n).hostObjs u) (m.beforeRelease u n) m' ∧
      m.revokeGroupCache u n handler = (m'.blank u).invokeHandler u handler := by
  have hfound := (h.beforeRelease hu n).1
  obtain ⟨m', hr, he⟩ := hfound.toOwned.released hfound.live
  exact ⟨m', hr, congrArg (·.invokeHandler u handler) he⟩

/-! ### Runs -/

/-- An engine that has just been initialised. -/
theorem owned_start (junk : Junk) : (start junk).Owned := by
  have hplaced : ∀ {k : ℕ} {L : Option ℤ → List ℕ}, L none = (DynList.alloc k).list → (∀ v, L (some v) = []) →
      Placed {o | o < (DynList.alloc k).capacity} L := by
    intro k L hL hv
    have hempty : Placed (∅ : Set ℕ) fun _ : Option ℤ => ([] : List ℕ) := ⟨fun _ => .nil, nofun, nofun⟩
    have hlist : L none = (List.range' 0 k).reverse := hL.trans (List.append_nil _)
    refine hempty.extend (n := (List.range' 0 k).reverse) (b := none) (List.nodup_reverse.2 List.nodup_range')
      (fun _ _ => Set.notMem_empty _) (fun o => ?_) (by rw [hlist, List.append_nil]) fun p hp => ?_
    · show o < 0 + k ↔ _
      simp [List.mem_range'_1]
    · cases p with
      | none => exact absurd rfl hp
      | some v => exact hv v
  have hptr : ∀ v t, (start junk).ptr v t = none := by
    intro v t
    cases t <;> rfl
  refine ⟨⟨⟨hplaced rfl fun _ => rfl, hplaced rfl fun _ => rfl, Nat.succ_pos 1023, Nat.succ_pos 31, nofun⟩,
    ⟨fun _ => .nil, nofun, fun hp => ?_, nofun, nofun⟩, fun v _ => ⟨_, rfl⟩⟩,
    fun v => ⟨fun hlive => absurd rfl hlive, fun _ _ _ => nofun, nofun, nofun⟩⟩
  intro _
  rw [hptr] at hp
  cases hp

/-- **Every step** keeps everything where it belongs. -/
theorem Owned.step {a : ℤ × MemOp} (h : m.Owned) (ha : NamesGroup a) (hs : Memory.step m a = some m') : m'.Owned := by
  obtain ⟨u, op⟩ := a
  cases op with
  | lookup gpSize n =>
    cases hs
    exact (h.getGroupCacheInternal ha gpSize n).toOwned
  | learnGroupSize cfg gpSize =>
    obtain ⟨hlive, hs⟩ := Option.ite_none_right_eq_some.1 hs
    cases hs
    exact h.learnGroupSize hlive cfg gpSize
  | createRevokes =>
    obtain ⟨hlive, hs⟩ := Option.ite_none_right_eq_some.1 hs
    cases hs
    exact h.createRevokes hlive
  | updateTopologyData cfg rank gid uid =>
    obtain ⟨hlive, hs⟩ := Option.ite_none_right_eq_some.1 hs
    cases hs
    exact h.updateTopologyData hlive cfg rank gid uid
  | populate =>
    obtain ⟨hlive, hs⟩ := Option.ite_none_right_eq_some.1 hs
    cases hs
    exact h.doPopulate hlive
  | write w =>
    cases hs
    exact h.write w
  | revoke n handler =>
    cases hs
    obtain ⟨m', hr, he⟩ := h.revoke ha n handler
    rw [he]
    exact ((h.beforeRelease ha n).1.toOwned.afterRevoke hr).beside _ _

/-- **In every run** everything is where it belongs. -/
theorem owned_of_reach {junk : Junk} (h : Reach Memory.step (fun _ a => NamesGroup a) (start junk) m) : m.Owned :=
  h.invariant (owned_start junk) fun _ _ _ ho hok hs => ho.step hok hs

end Memory

end DpuOffload
