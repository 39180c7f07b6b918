import DpuOffload.Cache.Memory
import DpuOffload.Lib.Placement

/-!
# Pools and pointers

What an element taken from a pool leaves there, and what writing a pointer changes: that pointer only
(`ptr_setPtr`), as no two places of the hashes have the same object.
-/

namespace DpuOffload

open Placement

/-! ### Pools -/

namespace DynList

variable {d : DynList}

/-- What is taken and what is left is what was there, with the elements of a new chunk. -/
theorem get_perm (h : 0 < d.allocationSize) : ∃ k, d.get.capacity = d.capacity + k ∧
    (d.first :: d.get.list).Perm (List.range' d.capacity k ++ d.list) := by
  by_cases he : d.list = []
  · refine ⟨d.allocationSize, by simp [get, ready, he, grow], ?_⟩
    have hl : d.ready.list = (List.range' d.capacity d.allocationSize).reverse := by simp [ready, he, grow]
    have hne : d.ready.list ≠ [] := by
      rw [hl, ne_eq, List.reverse_eq_nil_iff, List.range'_eq_nil_iff]
      exact h.ne'
    have hsplit : d.first :: d.get.list = d.ready.list := by
      obtain ⟨o, os, ho⟩ := List.exists_cons_of_ne_nil hne
      simp [first, get, ho]
    rw [hsplit, hl, he, List.append_nil]
    exact List.reverse_perm _
  · refine ⟨0, by simp [get, ready, he], ?_⟩
    obtain ⟨o, os, ho⟩ := List.exists_cons_of_ne_nil he
    simp [first, get, ready, ho]

@[simp] theorem get_allocationSize : d.get.allocationSize = d.allocationSize := by
  unfold get ready
  split <;> rfl

variable {L L' : Option ℤ → List ℕ} {u : ℤ}

/-- What is taken is with no group. -/
theorem first_free (h : Placed {o | o < d.capacity} L) (hd : 0 < d.allocationSize) (hL : L none = d.list) (v : ℤ) :
    d.first ∉ L (some v) := by
  intro hv
  obtain ⟨k, -, hperm⟩ := get_perm hd
  rcases List.mem_append.1 (hperm.mem_iff.1 List.mem_cons_self) with hnew | hold
  · exact absurd (h.mem _ _ hv) (not_lt.2 (List.mem_range'_1.1 hnew).1)
  · cases h.unique hv (hL ▸ hold : d.first ∈ L none)

/-- **A group takes an object.** -/
theorem placed_get (h : Placed {o | o < d.capacity} L) (hd : 0 < d.allocationSize) (hL : L none = d.list)
    (hL' : L' none = d.get.list) (hu : (L' (some u)).Perm (d.first :: L (some u)))
    (ho : ∀ v, v ≠ u → L' (some v) = L (some v)) : Placed {o | o < d.get.capacity} L' := by
  obtain ⟨k, hcap, hperm⟩ := get_perm hd
  refine h.exchange (a := none) (b := some u) (by simp) (List.nodup_range' (s := d.capacity) (n := k)) ?_ ?_ ?_ ?_
  · intro y hy
    exact not_lt.2 (List.mem_range'_1.1 hy).1
  · intro y
    show y < d.get.capacity ↔ y ∈ List.range' d.capacity k ∨ y < d.capacity
    rw [List.mem_range'_1]
    omega
  · rw [hL, hL']
    have htake : (d.get.list ++ L' (some u)).Perm (d.first :: d.get.list ++ L (some u)) :=
      (hu.append_left _).trans List.perm_middle
    refine htake.trans ((hperm.append_right _).trans ?_)
    rw [List.append_assoc]
  · intro k hk hku
    cases k with
    | none => exact absurd rfl hk
    | some v => exact ho v fun he => hku (congrArg some he)

end DynList

theorem perm_keys {β : ℕ → Type} {s s' : AList β} (h : ∀ k, k ∈ s' ↔ k ∈ s) : s'.keys.Perm s.keys :=
  (List.perm_ext_iff_of_nodup s'.keys_nodup s.keys_nodup).2 h

/-- The objects of a hash to which a key is added. -/
theorem perm_objects {β : ℕ → Type} {s s' : AList β} {f : ℕ → ℕ} {k o : ℕ} (hk : k ∉ s)
    (h : ∀ k', k' ∈ s' ↔ k' = k ∨ k' ∈ s) : (s'.keys.map (Function.update f k o)).Perm (o :: s.keys.map f) := by
  have hkeys : s'.keys.Perm (k :: s.keys) := by
    refine (List.perm_ext_iff_of_nodup s'.keys_nodup (List.nodup_cons.2 ⟨hk, s.keys_nodup⟩)).2 fun k' => ?_
    rw [List.mem_cons]
    exact h k'
  have hmap : s.keys.map (Function.update f k o) = s.keys.map f := by
    refine List.map_congr_left fun k' hk' => Function.update_of_ne ?_ _ _
    rintro rfl
    exact hk hk'
  have h' := hkeys.map (Function.update f k o)
  rwa [List.map_cons, Function.update_self, hmap] at h'

namespace Memory

variable {m m' m'' : Memory} {u v : ℤ} {t t' : Table}

/-! ### What the steps leave alone -/

/-- The objects of the SPs of a group. -/
def spObjs (m : Memory) (u : ℤ) : List ℕ := (m.groups u).gp.topo.spsHash.keys.map (m.groups u).spAt

/-- The objects of the hosts of a group. -/
def hostObjs (m : Memory) (u : ℤ) : List ℕ := (m.groups u).gp.topo.hostsHash.keys.map (m.groups u).hostAt

/-- The same values, objects and pools. -/
structure Same (m m' : Memory) : Prop where
  /-- The values. -/
  gp : ∀ v, (m'.groups v).gp = (m.groups v).gp
  /-- The objects of SPs. -/
  spAt : ∀ v, (m'.groups v).spAt = (m.groups v).spAt
  /-- The objects of hosts. -/
  hostAt : ∀ v, (m'.groups v).hostAt = (m.groups v).hostAt
  /-- The pool of SPs. -/
  spPool : m'.spPool = m.spPool
  /-- The pool of hosts. -/
  hostPool : m'.hostPool = m.hostPool
  /-- `sps_initialized`. -/
  spsInitialized : m'.spsInitialized = m.spsInitialized
  /-- The faults. -/
  fault : m'.fault = m.fault
  /-- The handler was not invoked. -/
  handled : m'.handled = m.handled

theorem Same.refl (m : Memory) : Same m m := ⟨fun _ => rfl, fun _ => rfl, fun _ => rfl, rfl, rfl, rfl, rfl, rfl⟩

theorem Same.trans (h : Same m m') (h' : Same m' m'') : Same m m'' where
  gp v := (h'.gp v).trans (h.gp v)
  spAt v := (h'.spAt v).trans (h.spAt v)
  hostAt v := (h'.hostAt v).trans (h.hostAt v)
  spPool := h'.spPool.trans h.spPool
  hostPool := h'.hostPool.trans h.hostPool
  spsInitialized := h'.spsInitialized.trans h.spsInitialized
  fault := h'.fault.trans h.fault
  handled := h'.handled.trans h.handled

theorem groups_modify (f : GroupMem → GroupMem) :
    (m.modify u f).groups v = if v = u then f (m.groups u) else m.groups v := Function.update_apply ..

/-- A change of pointers or of what was allocated. -/
theorem same_modify {f : GroupMem → GroupMem} (hgp : (f (m.groups u)).gp = (m.groups u).gp)
    (hsp : (f (m.groups u)).spAt = (m.groups u).spAt) (hhost : (f (m.groups u)).hostAt = (m.groups u).hostAt) :
    Same m (m.modify u f) := by
  refine ⟨fun v => ?_, fun v => ?_, fun v => ?_, rfl, rfl, rfl, rfl, rfl⟩ <;> rw [groups_modify] <;> split
  · rename_i hv
    exact hv ▸ hgp
  · rfl
  · rename_i hv
    exact hv ▸ hsp
  · rfl
  · rename_i hv
    exact hv ▸ hhost
  · rfl

theorem same_setPtr (m : Memory) (u : ℤ) (t : Table) (p : Option ℕ) : Same m (m.setPtr u t p) := by
  cases t with
  | own t => exact same_modify (f := fun g => { g with ptrs := Function.update g.ptrs t p }) rfl rfl rfl
  | sp gid t => exact ⟨fun _ => rfl, fun _ => rfl, fun _ => rfl, rfl, rfl, rfl, rfl, rfl⟩
  | host uid t => exact ⟨fun _ => rfl, fun _ => rfl, fun _ => rfl, rfl, rfl, rfl, rfl, rfl⟩

theorem same_malloc (m : Memory) (u : ℤ) (t : Table) : Same m (m.malloc u t) := by
  have h := same_modify (m := m.setPtr u t (some m.next)) (u := u)
    (f := fun g => { g with allocated := (t, m.next) :: g.allocated }) rfl rfl rfl
  exact (same_setPtr m u t (some m.next)).trans
    ⟨h.gp, h.spAt, h.hostAt, h.spPool, h.hostPool, h.spsInitialized, h.fault, h.handled⟩

theorem same_create (m : Memory) (u : ℤ) (t : Table) : Same m (m.create u t) := by
  unfold create
  split
  · exact same_malloc m u t
  · exact .refl m

theorem same_free (m : Memory) (u : ℤ) (t : Table) : Same m (m.free u t) := by
  have h := same_setPtr (m.release u t) u t none
  exact ⟨h.gp, h.spAt, h.hostAt, h.spPool, h.hostPool, h.spsInitialized, h.fault, h.handled⟩

/-! ### Pointers -/

/-- Does the group have what the pointer belongs to? -/
def Has (m : Memory) (u : ℤ) : Table → Prop
  | .own _ => True
  | .sp gid _ => gid ∈ (m.groups u).gp.topo.spsHash
  | .host uid _ => uid ∈ (m.groups u).gp.topo.hostsHash

/-- No two places of the hashes have the same object. -/
structure Apart (m : Memory) : Prop where
  /-- SPs. -/
  sp : ∀ {u v gid gid'}, gid ∈ (m.groups u).gp.topo.spsHash → gid' ∈ (m.groups v).gp.topo.spsHash →
    (m.groups u).spAt gid = (m.groups v).spAt gid' → u = v ∧ gid = gid'
  /-- Hosts. -/
  host : ∀ {u v uid uid'}, uid ∈ (m.groups u).gp.topo.hostsHash → uid' ∈ (m.groups v).gp.topo.hostsHash →
    (m.groups u).hostAt uid = (m.groups v).hostAt uid' → u = v ∧ uid = uid'

theorem Has.of_same (h : m.Has u t) (hs : Same m m') : m'.Has u t := by
  cases t with
  | own t => trivial
  | sp gid t =>
    unfold Has
    rwa [hs.gp u]
  | host uid t =>
    unfold Has
    rwa [hs.gp u]

theorem Has.of_ptr {p : ℕ} (h : m.ptr u t = some p) : m.Has u t := by
  cases t with
  | own t => trivial
  | sp gid t =>
    simp only [ptr] at h
    split at h
    · assumption
    · cases h
  | host uid t =>
    simp only [ptr] at h
    split at h
    · assumption
    · cases h

/-- What a pointer of a group depends on. -/
theorem ptr_congr (hp : (m'.groups v).ptrs = (m.groups v).ptrs)
    (hsp : ∀ gid, gid ∈ (m'.groups v).gp.topo.spsHash ↔ gid ∈ (m.groups v).gp.topo.spsHash)
    (hhost : ∀ uid, uid ∈ (m'.groups v).gp.topo.hostsHash ↔ uid ∈ (m.groups v).gp.topo.hostsHash)
    (hspMem : ∀ gid ∈ (m.groups v).gp.topo.spsHash,
      m'.spMem ((m'.groups v).spAt gid) = m.spMem ((m.groups v).spAt gid))
    (hhostMem : ∀ uid ∈ (m.groups v).gp.topo.hostsHash,
      m'.hostMem ((m'.groups v).hostAt uid) = m.hostMem ((m.groups v).hostAt uid)) (t : Table) :
    m'.ptr v t = m.ptr v t := by
  cases t with
  | own t => exact congrFun hp t
  | sp gid t =>
    simp only [ptr, hsp gid]
    split
    · rename_i hg
      rw [hspMem gid hg]
    · rfl
  | host uid t =>
    simp only [ptr, hhost uid]
    split
    · rename_i hg
      rw [hhostMem uid hg]
    · rfl

/-- **Writing a pointer** changes that pointer only. -/
theorem ptr_setPtr (h : m.Apart) (ht : m.Has u t) (p : Option ℕ) (v : ℤ) (t' : Table) :
    (m.setPtr u t p).ptr v t' = if v = u ∧ t' = t then p else m.ptr v t' := by
  cases t with
  | own t =>
    cases t' with
    | own t' =>
      simp only [setPtr, ptr, groups_modify]
      by_cases hv : v = u
      · subst hv
        simp [Function.update_apply]
      · simp [hv]
    | sp gid t' =>
      rw [if_neg (by simp)]
      simp only [setPtr, ptr, groups_modify]
      split <;> simp_all [modify]
    | host uid t' =>
      rw [if_neg (by simp)]
      simp only [setPtr, ptr, groups_modify]
      split <;> simp_all [modify]
  | sp gid t =>
    cases t' with
    | own t' => rw [if_neg (by simp)]; rfl
    | host uid t' => rw [if_neg (by simp)]; rfl
    | sp gid' t' =>
      simp only [setPtr, ptr]
      by_cases hg : gid' ∈ (m.groups v).gp.topo.spsHash
      · simp only [hg, if_true]
        by_cases ho : (m.groups v).spAt gid' = (m.groups u).spAt gid
        · obtain ⟨rfl, rfl⟩ := h.sp hg ht ho
          simp [Function.update_apply]
        · have hne : ¬ (v = u ∧ Table.sp gid' t' = Table.sp gid t) := by
            rintro ⟨rfl, he⟩
            cases he
            exact ho rfl
          rw [if_neg hne, Function.update_of_ne ho]
      · have hne : ¬ (v = u ∧ Table.sp gid' t' = Table.sp gid t) := by
          rintro ⟨rfl, he⟩
          cases he
          exact hg ht
        simp only [hg, if_false, if_neg hne]
  | host uid t =>
    cases t' with
    | own t' => rw [if_neg (by simp)]; rfl
    | sp gid t' => rw [if_neg (by simp)]; rfl
    | host uid' t' =>
      simp only [setPtr, ptr]
      by_cases hg : uid' ∈ (m.groups v).gp.topo.hostsHash
      · simp only [hg, if_true]
        by_cases ho : (m.groups v).hostAt uid' = (m.groups u).hostAt uid
        · obtain ⟨rfl, rfl⟩ := h.host hg ht ho
          simp [Function.update_apply]
        · have hne : ¬ (v = u ∧ Table.host uid' t' = Table.host uid t) := by
            rintro ⟨rfl, he⟩
            cases he
            exact ho rfl
          rw [if_neg hne, Function.update_of_ne ho]
      · have hne : ¬ (v = u ∧ Table.host uid' t' = Table.host uid t) := by
          rintro ⟨rfl, he⟩
          cases he
          exact hg ht
        simp only [hg, if_false, if_neg hne]

theorem malloc_groups (m : Memory) (u : ℤ) (t : Table) (v : ℤ) : (m.malloc u t).groups v =
    if v = u then
      { (m.setPtr u t (some m.next)).groups u with
        allocated := (t, m.next) :: ((m.setPtr u t (some m.next)).groups u).allocated }
    else (m.setPtr u t (some m.next)).groups v :=
  groups_modify (m := m.setPtr u t (some m.next)) fun g => { g with allocated := (t, m.next) :: g.allocated }

theorem ptr_malloc (h : m.Apart) (ht : m.Has u t) (v : ℤ) (t' : Table) :
    (m.malloc u t).ptr v t' = if v = u ∧ t' = t then some m.next else m.ptr v t' := by
  rw [← ptr_setPtr h ht (some m.next) v t']
  have hg : ∀ α (f : GroupMem → α), (∀ g l, f { g with allocated := l } = f g) →
      f ((m.malloc u t).groups v) = f ((m.setPtr u t (some m.next)).groups v) := by
    intro α f hf
    rw [malloc_groups]
    split
    · rename_i hv
      rw [hf, hv]
    · rfl
  have hgp := hg _ GroupMem.gp fun _ _ => rfl
  have hspAt := hg _ GroupMem.spAt fun _ _ => rfl
  have hhostAt := hg _ GroupMem.hostAt fun _ _ => rfl
  refine ptr_congr (hg _ GroupMem.ptrs fun _ _ => rfl) (fun gid => by rw [hgp]) (fun uid => by rw [hgp])
    (fun gid _ => ?_) (fun uid _ => ?_) t'
  · rw [hspAt]
    rfl
  · rw [hhostAt]
    rfl

theorem setPtr_allocated (m : Memory) (u : ℤ) (t : Table) (p : Option ℕ) (v : ℤ) :
    ((m.setPtr u t p).groups v).allocated = (m.groups v).allocated := by
  cases t with
  | own t =>
    simp only [setPtr, groups_modify]
    split
    · rename_i hv
      rw [hv]
    · rfl
  | sp gid t => rfl
  | host uid t => rfl

theorem malloc_allocated (m : Memory) (u : ℤ) (t : Table) (v : ℤ) : ((m.malloc u t).groups v).allocated =
    if v = u then (t, m.next) :: (m.groups u).allocated else (m.groups v).allocated := by
  rw [malloc_groups]
  split
  · rw [setPtr_allocated]
  · exact setPtr_allocated m u t _ v

/-- The other groups keep their caches. -/
theorem setPtr_groups_of_ne {v : ℤ} (hv : v ≠ u) (t : Table) (p : Option ℕ) :
    (m.setPtr u t p).groups v = m.groups v := by
  cases t with
  | own t =>
    simp only [setPtr, groups_modify]
    exact if_neg hv
  | sp gid t => rfl
  | host uid t => rfl

theorem malloc_groups_of_ne {v : ℤ} (hv : v ≠ u) (t : Table) : (m.malloc u t).groups v = m.groups v := by
  rw [malloc_groups, if_neg hv, setPtr_groups_of_ne hv]

end Memory

end DpuOffload
