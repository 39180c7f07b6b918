import DpuOffload.Lib.DynArray
import DpuOffload.Lib.Pool
import DpuOffload.Lib.Transition
import Mathlib.Logic.Function.Basic

/-!
# Dynamic lists

A dynamic list (`dyn_list_t`) is a pool of objects. Its free objects are on an intrusive list,
beside which a length is kept; an object is taken from the head and returned to it. When the
list is empty it grows by a chunk of memory, if there is memory; the chunks are kept in a dynamic
array. An object is known by its chunk and its place in it.

`ucs_list` is an intrusive list as documented: its head is extracted from a list that is not
empty. What `malloc` gives, and whether the array of the chunks can grow, is up to the
environment.

* `DynListT.Owns` — the length is the length, and the objects free and held are a sound `Pool` of
  the recorded capacity. `Owns.get` and `Owns.ret` keep it.
* `dyn_list_iff` — **a pool conserves its elements** exactly as long as no object is taken from an
  empty list that cannot grow.
-/

namespace DpuOffload

/-! ### Simple lists -/

/-- An object of a dynamic list: its chunk, and its place in the chunk. -/
structure EltId where
  /-- The chunk. -/
  chunk : ℕ
  /-- The place. -/
  idx : ℕ
  deriving DecidableEq, Repr

/-- `simple_list_t`. -/
structure SimpleList where
  /-- `internal_list`. -/
  internalList : List EltId
  /-- The length, as it is recorded. -/
  length : ℕ
  deriving DecidableEq, Repr

namespace SimpleList

/-- `SIMPLE_LIST_INIT`. -/
def init : SimpleList := ⟨[], 0⟩

/-- `SIMPLE_LIST_PREPEND`. -/
def prepend (l : SimpleList) (e : EltId) : SimpleList := ⟨e :: l.internalList, l.length + 1⟩

/-- `SIMPLE_LIST_EXTRACT_HEAD`, of a list that has a head. -/
def extractHead (l : SimpleList) : Option (SimpleList × EltId) :=
  match l.internalList with
  | [] => none
  | e :: es => some (⟨es, l.length - 1⟩, e)

/-- `SIMPLE_LIST_IS_EMPTY`. -/
def isEmpty (l : SimpleList) : Bool := l.length == 0

end SimpleList

/-! ### Dynamic lists -/

/-- `DEFAULT_MEM_CHUNKS`. -/
def defaultMemChunks : ℕ := 1024

/-- `mem_chunk_t`, of a dynamic list. -/
structure ListChunk where
  /-- The size. -/
  size : ℕ
  /-- The chunk that `ptr` points to, if any. -/
  ptr : Option ℕ
  deriving DecidableEq, Repr

/-- A chunk in memory that is all zero. -/
def ListChunk.zero : ListChunk := ⟨0, none⟩

/-- `dyn_list_t`, of objects whose contents are in `α`. -/
structure DynListT (α : Type) where
  /-- `sizeof` of an object. -/
  typeSize : ℕ
  /-- The capacity. -/
  capacity : ℕ
  /-- How many objects are added at a time. -/
  allocationSize : ℕ
  /-- A chunk is within `size_t`. -/
  chunkSize_lt : allocationSize * typeSize < 2 ^ 64
  /-- The list of free objects. -/
  list : SimpleList
  /-- The function that initialises an object, if any. -/
  elementInitCb : Option (α → α)
  /-- The number of chunks. -/
  numMemChunks : ℕ
  /-- The chunks. -/
  memChunks : DynArray ListChunk
  /-- The contents of the objects. -/
  elts : EltId → α

/-- What the environment gives when a list grows. -/
structure GrowEnv (α : Type) where
  /-- What `malloc` gives: memory with some contents, unless it gives `NULL`. -/
  chunk : Option (ℕ → α)
  /-- Is there memory for a longer array of chunks? -/
  chunks : Bool

namespace DynListT

variable {α : Type}

/-- The objects of the next chunk. -/
def newElts (l : DynListT α) : List EltId := (List.range l.allocationSize).map fun i => ⟨l.numMemChunks, i⟩

/-- The new chunk is full of objects. -/
def addChunk (l : DynListT α) (mem : ℕ → α) (chunks : DynArray ListChunk) : DynListT α :=
  { l with
    memChunks := chunks.set l.numMemChunks ⟨l.allocationSize * l.typeSize, some l.numMemChunks⟩
    numMemChunks := l.numMemChunks + 1
    -- each object is put in front of the one before
    list := l.newElts.foldl SimpleList.prepend l.list
    elts := fun e => if e.chunk = l.numMemChunks then l.elementInitCb.getD id (mem e.idx) else l.elts e
    capacity := l.capacity + l.allocationSize }

/-- `GROW_DYN_LIST`. The array of chunks is accessed once the chunk is there, and has to be. -/
def grow (l : DynListT α) (env : GrowEnv α) : Option (DynListT α) :=
  match env.chunk with
  | none => some l
  | some mem =>
    if l.memChunks.capacity ≤ l.numMemChunks ∧ env.chunks = false then none
    else (l.memChunks.getElt .zero l.numMemChunks).map (l.addChunk mem)

/-- An empty list grows. -/
def refill (l : DynListT α) (env : GrowEnv α) : Option (DynListT α) := if l.list.isEmpty then l.grow env else some l

/-- `DYN_LIST_GET`: the object, unless the pointer is `NULL`. -/
def get (l : DynListT α) (env : GrowEnv α) : Option (DynListT α × Option EltId) :=
  (l.refill env).bind fun l => l.list.extractHead.map fun p => ({ l with list := p.1 }, some p.2)

/-- `DYN_LIST_RETURN`. -/
def ret (l : DynListT α) (e : EltId) : DynListT α := { l with list := l.list.prepend e }

/-- The contents of an object are written. -/
def write (l : DynListT α) (e : EltId) (x : α) : DynListT α := { l with elts := Function.update l.elts e x }

/-- `DYN_LIST_ALLOC` and `DYN_LIST_ALLOC_WITH_INIT_CALLBACK`, once there is memory for the list itself. -/
def alloc (n typeSize : ℕ) (h : n * typeSize < 2 ^ 64) (cb : Option (α → α)) (junk : α) (env : GrowEnv α) :
    Option (DynListT α) :=
  grow
    { typeSize := typeSize
      capacity := 0
      allocationSize := n
      chunkSize_lt := h
      list := .init
      elementInitCb := cb
      numMemChunks := 0
      memChunks := .alloc .zero defaultMemChunks
      elts := fun _ => junk }
    env

/-! ### What a pool owns -/

/-- The list grows where it has to: there is memory, for at least one object, and for the array of chunks. -/
def CanGrow (l : DynListT α) (env : GrowEnv α) : Prop :=
  env.chunk.isSome = true ∧ 0 < l.allocationSize ∧ (l.numMemChunks < l.memChunks.capacity ∨ env.chunks = true)

/-- There is a free object, or the list can grow. -/
def CanServe (l : DynListT α) (env : GrowEnv α) : Prop := l.list.internalList ≠ [] ∨ l.CanGrow env

/-- **The objects of a list**, where `held` are those that have been taken. -/
structure Owns (l : DynListT α) (held : List EltId) : Prop where
  /-- The recorded length is the length. -/
  length : l.list.length = l.list.internalList.length
  /-- No object is there twice. -/
  sound : (⟨l.list.internalList, held⟩ : Pool EltId).Sound
  /-- The capacity is the number of objects. -/
  capacity : l.capacity = (⟨l.list.internalList, held⟩ : Pool EltId).size
  /-- They are in the chunks there are. -/
  chunk_lt : ∀ e ∈ l.list.internalList ++ held, e.chunk < l.numMemChunks
  /-- The array of the chunks has been allocated. -/
  allocated : l.memChunks.capacity ≠ 0
  /-- It grows. -/
  grows : 0 < l.memChunks.allocationSize

variable {l l' : DynListT α} {held held' : List EltId} {env : GrowEnv α} {e : EltId}

theorem foldl_prepend (es : List EltId) (s : SimpleList) :
    es.foldl SimpleList.prepend s = ⟨es.reverse ++ s.internalList, s.length + es.length⟩ := by
  induction es generalizing s with
  | nil => simp
  | cons e es ih =>
    rw [List.foldl_cons, ih]
    simp [SimpleList.prepend]
    omega

theorem nodup_newElts (l : DynListT α) : l.newElts.Nodup :=
  List.nodup_range.map fun _ _ h => (EltId.mk.inj h).2

theorem mem_newElts : e ∈ l.newElts ↔ e.chunk = l.numMemChunks ∧ e.idx < l.allocationSize := by
  simp only [newElts, List.mem_map, List.mem_range]
  constructor
  · rintro ⟨i, hi, rfl⟩
    exact ⟨rfl, hi⟩
  · rintro ⟨hc, hi⟩
    exact ⟨e.idx, hi, by rw [← hc]⟩

@[simp] theorem length_newElts (l : DynListT α) : l.newElts.length = l.allocationSize := by simp [newElts]

/-- Another list of the held objects. -/
theorem Owns.perm (h : l.Owns held) (hp : held.Perm held') : l.Owns held' where
  length := h.length
  sound := h.sound.perm hp
  capacity := by rw [h.capacity, Pool.size, Pool.size, hp.length_eq]
  chunk_lt e he := h.chunk_lt e ((hp.append_left _).mem_iff.2 he)
  allocated := h.allocated
  grows := h.grows

/-- **A chunk is added.** -/
theorem Owns.grow (h : l.Owns held) {mem : ℕ → α} (hmem : env.chunk = some mem)
    (hroom : l.numMemChunks < l.memChunks.capacity ∨ env.chunks = true) :
    ∃ l', l.grow env = some l' ∧ l'.Owns held ∧ l'.list.internalList = l.newElts.reverse ++ l.list.internalList ∧
      l'.allocationSize = l.allocationSize ∧ ∀ e, e.chunk < l.numMemChunks → l'.elts e = l.elts e := by
  obtain ⟨chunks, hchunks⟩ := DynArray.exists_getElt (z := ListChunk.zero) h.allocated h.grows l.numMemChunks
  obtain ⟨hlt, hsize, -⟩ := DynArray.access_eq_some hchunks
  have hnot : ¬ (l.memChunks.capacity ≤ l.numMemChunks ∧ env.chunks = false) := by
    rintro ⟨hle, hno⟩
    obtain hlt | hyes := hroom
    · omega
    · rw [hno] at hyes
      cases hyes
  have hlist : (l.addChunk mem chunks).list =
      ⟨l.newElts.reverse ++ l.list.internalList, l.list.length + l.allocationSize⟩ := by
    rw [← length_newElts l, ← foldl_prepend]
    rfl
  refine ⟨l.addChunk mem chunks, ?_, ⟨?_, ?_, ?_, ?_, ?_, ?_⟩, congrArg SimpleList.internalList hlist, rfl, ?_⟩
  · rw [DynListT.grow, hmem]
    simp only [if_neg hnot, hchunks, Option.map_some]
  · rw [hlist, h.length, List.length_append, List.length_reverse, length_newElts, Nat.add_comm]
  · rw [hlist]
    apply h.sound.add (List.nodup_reverse.2 l.nodup_newElts)
    intro e he hold
    have hc : e.chunk = l.numMemChunks := (mem_newElts.1 (List.mem_reverse.1 he)).1
    exact absurd (h.chunk_lt e hold) (by omega)
  · rw [hlist, Pool.size_add, List.length_reverse, length_newElts, ← h.capacity, Nat.add_comm]
    rfl
  · rw [hlist, List.append_assoc]
    intro e he
    show e.chunk < l.numMemChunks + 1
    obtain he | he := List.mem_append.1 he
    · rw [(mem_newElts.1 (List.mem_reverse.1 he)).1]
      exact Nat.lt_succ_self _
    · exact Nat.lt_succ_of_lt (h.chunk_lt e he)
  · show (chunks.set _ _).capacity ≠ 0
    rw [DynArray.capacity_set]
    omega
  · show 0 < (chunks.set _ _).allocationSize
    rw [DynArray.allocationSize_set, hsize]
    exact h.grows
  · intro e he
    exact if_neg he.ne

/-- The head of a list that owns its objects. -/
theorem Owns.extract (h : l.Owns held) {es : List EltId} (hl : l.list.internalList = e :: es) :
    l.list.extractHead = some (⟨es, l.list.length - 1⟩, e) ∧ e ∉ held ∧
      ({ l with list := ⟨es, l.list.length - 1⟩ } : DynListT α).Owns (e :: held) := by
  have hsound := h.sound
  have hcap := h.capacity
  rw [hl] at hsound hcap
  refine ⟨by rw [SimpleList.extractHead, hl], hsound.not_mem_held, ⟨?_, hsound.take, ?_, ?_, h.allocated, h.grows⟩⟩
  · rw [h.length, hl]
    rfl
  · exact hcap.trans Pool.size_take.symm
  · intro e' he'
    apply h.chunk_lt e'
    rw [hl]
    exact List.perm_middle.mem_iff.1 he'

/-- **An object is taken**: it is not held, and those that are keep their contents. -/
theorem Owns.get (h : l.Owns held) (hs : l.CanServe env) :
    ∃ l' e, l.get env = some (l', some e) ∧ e ∉ held ∧ l'.Owns (e :: held) ∧ ∀ x ∈ held, l'.elts x = l.elts x := by
  cases hl : l.list.internalList with
  | cons e es =>
    obtain ⟨hext, hheld, howns⟩ := h.extract hl
    have hrefill : l.refill env = some l := by
      rw [refill, if_neg]
      simp [SimpleList.isEmpty, h.length, hl]
    refine ⟨_, e, ?_, hheld, howns, fun x _ => rfl⟩
    rw [DynListT.get, hrefill, Option.bind_some, hext]
    rfl
  | nil =>
    have hg : l.CanGrow env := hs.resolve_left fun hne => hne hl
    obtain ⟨mem, hmem⟩ := Option.isSome_iff_exists.1 hg.1
    obtain ⟨l₁, hgrow, h₁, hlist, hsize, helts⟩ := h.grow hmem hg.2.2
    have hrefill : l.refill env = some l₁ := by
      rw [refill, if_pos]
      · exact hgrow
      · simp [SimpleList.isEmpty, h.length, hl]
    obtain ⟨e, es, he⟩ : ∃ e es, l₁.list.internalList = e :: es := by
      apply List.exists_cons_of_ne_nil
      intro hnil
      rw [hlist, hl, List.append_nil, List.reverse_eq_nil_iff] at hnil
      have hzero := congrArg List.length hnil
      rw [length_newElts] at hzero
      exact hg.2.1.ne' hzero
    obtain ⟨hext, hheld, howns⟩ := h₁.extract he
    refine ⟨_, e, ?_, hheld, howns, fun x hx => helts x (h.chunk_lt x (List.mem_append_right _ hx))⟩
    rw [DynListT.get, hrefill, Option.bind_some, hext]
    rfl

/-- Nothing is taken from an empty list that cannot grow. -/
theorem Owns.get_eq_none (h : l.Owns held) (hs : ¬ l.CanServe env) : l.get env = none := by
  have hl : l.list.internalList = [] := by_contra fun hne => hs (.inl hne)
  have hext : l.list.extractHead = none := by rw [SimpleList.extractHead, hl]
  have hrefill : l.refill env = l.grow env := by
    rw [refill, if_pos]
    simp [SimpleList.isEmpty, h.length, hl]
  rw [DynListT.get, hrefill]
  cases hc : env.chunk with
  | none => simp [DynListT.grow, hc, hext]
  | some mem =>
    by_cases hroom : l.memChunks.capacity ≤ l.numMemChunks ∧ env.chunks = false
    · simp [DynListT.grow, hc, hroom]
    · have hzero : l.allocationSize = 0 := by
        by_contra hne
        refine hs (.inr ⟨by rw [hc]; rfl, Nat.pos_of_ne_zero hne, ?_⟩)
        by_contra hno
        simp only [not_or, Nat.not_lt, Bool.not_eq_true] at hno
        exact hroom hno
      have hnew : ∀ chunks, (l.addChunk mem chunks).list.extractHead = none := by
        intro chunks
        have hnone : l.newElts = [] := List.length_eq_zero_iff.1 (by rw [length_newElts, hzero])
        have hlist : (l.addChunk mem chunks).list = l.list := by
          show l.newElts.foldl SimpleList.prepend l.list = l.list
          rw [hnone]
          rfl
        rw [hlist, hext]
      simp only [DynListT.grow, hc, if_neg hroom]
      cases l.memChunks.getElt .zero l.numMemChunks with
      | none => rfl
      | some chunks => simp [hnew]

/-- Where there is a result, an object has been taken. -/
theorem Owns.of_get (h : l.Owns held) {p : DynListT α × Option EltId} (hg : l.get env = some p) :
    ∃ e, p.2 = some e ∧ e ∉ held ∧ p.1.Owns (e :: held) ∧ ∀ x ∈ held, p.1.elts x = l.elts x := by
  have hs : l.CanServe env := by
    by_contra hno
    rw [h.get_eq_none hno] at hg
    cases hg
  obtain ⟨l', e, hget, hfree, howns, helts⟩ := h.get hs
  rw [hg] at hget
  cases hget
  exact ⟨e, rfl, hfree, howns, helts⟩

/-- **An object is returned.** -/
theorem Owns.ret (h : l.Owns held) (he : e ∈ held) : (l.ret e).Owns (held.erase e) where
  length := congrArg Nat.succ h.length
  sound := h.sound.put he
  capacity := h.capacity.trans (Pool.size_put he).symm
  chunk_lt x hx := by
    apply h.chunk_lt x
    have hp : (e :: l.list.internalList ++ held.erase e).Perm (l.list.internalList ++ held) :=
      List.perm_middle.symm.trans ((List.perm_cons_erase he).symm.append_left _)
    exact hp.mem_iff.1 hx
  allocated := h.allocated
  grows := h.grows

/-! ### Contents -/

theorem elts_write_self (l : DynListT α) (e : EltId) (x : α) : (l.write e x).elts e = x := Function.update_self ..

theorem elts_write_of_ne {e' : EltId} (h : e' ≠ e) (x : α) : (l.write e x).elts e' = l.elts e' :=
  Function.update_of_ne h _ _

theorem Owns.write (h : l.Owns held) (e : EltId) (x : α) : (l.write e x).Owns held :=
  ⟨h.length, h.sound, h.capacity, h.chunk_lt, h.allocated, h.grows⟩

/-! ### The start -/

/-- A new list owns its objects, whether there was memory for the first of them or not. -/
theorem owns_alloc {n typeSize : ℕ} (h : n * typeSize < 2 ^ 64) (cb : Option (α → α)) (junk : α) (env : GrowEnv α) :
    ∃ l, alloc n typeSize h cb junk env = some l ∧ l.Owns [] := by
  have hcap : (DynArray.alloc ListChunk.zero defaultMemChunks).capacity = 1024 := DynArray.capacity_alloc _ _
  have hempty :
      (⟨typeSize, 0, n, h, .init, cb, 0, .alloc .zero defaultMemChunks, fun _ => junk⟩ : DynListT α).Owns [] := by
    refine ⟨rfl, Pool.sound_empty, rfl, fun e he => absurd he List.not_mem_nil, ?_, show 0 < 1024 by decide⟩
    rw [hcap]
    decide
  cases hc : env.chunk with
  | none => exact ⟨_, by rw [alloc, DynListT.grow, hc], hempty⟩
  | some mem =>
    obtain ⟨l, hl, howns, -⟩ := hempty.grow hc (.inl ((show 0 < 1024 by decide).trans_eq hcap.symm))
    exact ⟨l, hl, howns⟩

end DynListT

/-! ### Runs -/

/-- A list and who uses it. -/
structure ListUse (α : Type) where
  /-- The list. -/
  list : DynListT α
  /-- The objects that have been taken and not returned. -/
  held : List EltId

/-- What is done with a list. -/
inductive ListOp (α : Type) where
  /-- An object is taken. -/
  | get (env : GrowEnv α)
  /-- An object is returned. -/
  | ret (e : EltId)

namespace ListUse

variable {α : Type}

/-- One operation; only an object that is held is returned. -/
def step (u : ListUse α) : ListOp α → Option (ListUse α)
  | .get env => (u.list.get env).map fun p => ⟨p.1, p.2.toList ++ u.held⟩
  | .ret e => if e ∈ u.held then some ⟨u.list.ret e, u.held.erase e⟩ else none

/-- The recorded length is the length of the free list, and the capacity counts the objects, none of which
is there twice. -/
structure Conserved (u : ListUse α) : Prop where
  /-- The length. -/
  length : u.list.list.length = u.list.list.internalList.length
  /-- The capacity. -/
  capacity : u.list.capacity = u.list.list.internalList.length + u.held.length
  /-- Nothing is both free and held, or held twice. -/
  nodup : (u.list.list.internalList ++ u.held).Nodup

/-- What a step has to do: an object that is taken is not held, and where the list is empty and cannot grow
the pointer is `NULL` and the list is as it was. -/
def StepMeets (u : ListUse α) : ListOp α → Prop
  | .get env =>
    (u.list.CanServe env → ∃ l e, u.list.get env = some (l, some e) ∧ e ∉ u.held) ∧
      (¬ u.list.CanServe env → u.list.get env = some (u.list, none))
  | .ret _ => True

/-- Every operation returns and does what it has to, and the objects are conserved before and after it. -/
def Meets (u : ListUse α) : List (ListOp α) → Prop
  | [] => u.Conserved
  | op :: ops => u.Conserved ∧ u.StepMeets op ∧ ∃ u', u.step op = some u' ∧ u'.Meets ops

/-- Only held objects are returned, along a run. -/
def WellUsed (u : ListUse α) : List (ListOp α) → Prop
  | [] => True
  | op :: ops => (∀ e, op = .ret e → e ∈ u.held) ∧ ∀ u', u.step op = some u' → u'.WellUsed ops

/-- No object is taken from an empty list that cannot grow, along a run. -/
def Served (u : ListUse α) : List (ListOp α) → Prop
  | [] => True
  | op :: ops => (∀ env, op = .get env → u.list.CanServe env) ∧ ∀ u', u.step op = some u' → u'.Served ops

variable {u u' : ListUse α} {op : ListOp α} {ops : List (ListOp α)}

theorem conserved_of_owns (h : u.list.Owns u.held) : u.Conserved := ⟨h.length, h.capacity, h.sound⟩

/-- **One operation.** -/
theorem step_owns (h : u.list.Owns u.held) (hheld : ∀ e, op = .ret e → e ∈ u.held)
    (hserve : ∀ env, op = .get env → u.list.CanServe env) :
    u.StepMeets op ∧ ∃ u', u.step op = some u' ∧ u'.list.Owns u'.held := by
  cases op with
  | get env =>
    have hs : u.list.CanServe env := hserve env rfl
    obtain ⟨l, e, hget, hfree, howns, -⟩ := h.get hs
    refine ⟨⟨fun _ => ⟨l, e, hget, hfree⟩, fun hno => absurd hs hno⟩, ⟨l, e :: u.held⟩, ?_, howns⟩
    rw [step, hget]
    rfl
  | ret e =>
    have he : e ∈ u.held := hheld e rfl
    exact ⟨trivial, ⟨u.list.ret e, u.held.erase e⟩, if_pos he, h.ret he⟩

/-- **A run** meets what it has to exactly when every object that is taken can be. -/
theorem meets_iff (h : u.list.Owns u.held) (huse : u.WellUsed ops) : u.Meets ops ↔ u.Served ops := by
  induction ops generalizing u with
  | nil => exact ⟨fun _ => trivial, fun _ => conserved_of_owns h⟩
  | cons op ops ih =>
    obtain ⟨hheld, huse⟩ := huse
    constructor
    · rintro ⟨-, hmeets, u', hstep, hrun⟩
      have hserve : ∀ env, op = .get env → u.list.CanServe env := by
        rintro env rfl
        by_contra hno
        rw [step, h.get_eq_none hno] at hstep
        cases hstep
      refine ⟨hserve, fun v hv => ?_⟩
      obtain ⟨-, u₁, hu₁, howns⟩ := step_owns h hheld hserve
      rw [hstep] at hv hu₁
      cases hv
      cases hu₁
      exact (ih howns (huse _ hstep)).1 hrun
    · rintro ⟨hserve, hrest⟩
      obtain ⟨hmeets, u', hstep, howns⟩ := step_owns h hheld hserve
      exact ⟨conserved_of_owns h, hmeets, u', hstep, (ih howns (huse u' hstep)).2 (hrest u' hstep)⟩

end ListUse

/-- **A pool conserves its objects** exactly as long as none is taken from an empty list that cannot grow. -/
theorem dyn_list_iff {α : Type} {n typeSize : ℕ} (h : n * typeSize < 2 ^ 64) (cb : Option (α → α)) (junk : α)
    (env : GrowEnv α) :
    ∃ l, DynListT.alloc n typeSize h cb junk env = some l ∧ ∀ ops, (⟨l, []⟩ : ListUse α).WellUsed ops →
      ((⟨l, []⟩ : ListUse α).Meets ops ↔ (⟨l, []⟩ : ListUse α).Served ops) := by
  obtain ⟨l, hl, howns⟩ := DynListT.owns_alloc h cb junk env
  exact ⟨l, hl, fun ops huse => ListUse.meets_iff howns huse⟩

/-- There is memory. -/
def someMemory : GrowEnv Unit := ⟨some fun _ => (), true⟩

/-- There is none. -/
def noMemory : GrowEnv Unit := ⟨none, false⟩

/-- A list of objects of 24 bytes, that grows by one object. -/
theorem dyn_list_one :
    ∃ l, DynListT.alloc 1 24 (by decide) none () someMemory = some l ∧ ∀ ops, (⟨l, []⟩ : ListUse Unit).WellUsed ops →
      ((⟨l, []⟩ : ListUse Unit).Meets ops ↔ (⟨l, []⟩ : ListUse Unit).Served ops) :=
  dyn_list_iff (by decide) none () someMemory

/-- The only object has been taken, and there is no memory for another: the head of the empty list is
extracted, and no pointer is given. -/
theorem not_dyn_list :
    (((DynListT.alloc 1 24 (by decide) none () someMemory).bind fun l => l.get noMemory).map fun p =>
      (p.2, p.1.list, (p.1.get noMemory).isNone)) = some (some ⟨0, 0⟩, ⟨[], 0⟩, true) ∧
    ¬ ∀ l, DynListT.alloc 1 24 (by decide) none () someMemory = some l → ∀ ops, (⟨l, []⟩ : ListUse Unit).WellUsed ops →
      (⟨l, []⟩ : ListUse Unit).Meets ops := by
  have hval : (((DynListT.alloc 1 24 (by decide) none () someMemory).bind fun l => l.get noMemory).map fun p =>
      (p.2, p.1.list, (p.1.get noMemory).isNone)) = some (some ⟨0, 0⟩, ⟨[], 0⟩, true) := by decide +kernel
  refine ⟨hval, fun hall => ?_⟩
  obtain ⟨p, hp, hnone⟩ := Option.map_eq_some_iff.1 hval
  obtain ⟨l, hl, hget⟩ := Option.bind_eq_some_iff.1 hp
  have hnone : (p.1.get noMemory).isNone = true := (Prod.mk.inj (Prod.mk.inj hnone).2).2
  have huse : (⟨l, []⟩ : ListUse Unit).WellUsed [.get noMemory, .get noMemory] := by
    have hno : ∀ (held : List EltId) (e : EltId), ListOp.get noMemory = .ret e → e ∈ held := by
      intro held e he
      cases he
    exact ⟨hno _, fun u _ => ⟨hno _, fun _ _ => trivial⟩⟩
  obtain ⟨-, -, u, hu, -, -, v, hv, -⟩ := hall l hl _ huse
  rw [ListUse.step, hget] at hu
  cases hu
  rw [ListUse.step, Option.isNone_iff_eq_none.1 hnone] at hv
  cases hv

end DpuOffload
