import DpuOffload.Cache.Types
import DpuOffload.Lib.Bytes
import DpuOffload.Lib.DynArray

/-!
# Dynamic arrays in memory

A dynamic array (`dyn_array_t`) is a block of memory that is allocated again, larger, when an
element beyond its capacity is accessed (`DYN_ARRAY_GROW`). The loop that finds the new capacity
compares sizes in bytes, of type `size_t`. The memory is there, as the code asserts; what is in
new memory is whatever was there, and is then set to zero. The index is the value of the
argument of the macro.

* `DynArrayT.Rep` — the block stands for an array of elements (`DynArray`), and an access does to the
  one what it does to the other (`Rep.getElt`, `Rep.setElt`).
* `dyn_array_total_map` — **without an init function an array is a map** from all indices, which is
  zero where nothing was written.
* `init_growth_iff` — **growth with an init function** initialises the new elements only where there
  were none before.
-/

namespace DpuOffload

/-! ### The arrays -/

/-- `dyn_struct_elt_init_fn`: what becomes of the bytes of an element. -/
structure InitFn where
  /-- The bytes afterwards. -/
  fn : List UInt8 → List UInt8
  /-- They are as many as before. -/
  length_fn : ∀ e, (fn e).length = e.length

/-- `dyn_array_t`. -/
structure DynArrayT where
  /-- The memory at `base`. -/
  base : List UInt8
  /-- The capacity, in elements. -/
  capacity : ℕ
  /-- How many elements are added at a time. -/
  allocationSize : ℕ
  /-- `sizeof` of an element. -/
  typeSize : ℕ
  /-- The function that initialises an element, if any. -/
  elementInitFn : Option InitFn

/-- `DYN_ARRAY_ALLOC`, of `n` elements of `sz` bytes. -/
def dynArrayAlloc (n sz : ℕ) : Option DynArrayT :=
  if n = 0 then none
  else some ⟨List.replicate (n * sz % 2 ^ 64) 0, n, n, sz, none⟩

/-- `realloc`, where `fresh` is what new memory holds. -/
def realloc (fresh : ℕ → UInt8) (mem : List UInt8) (size : ℕ) : List UInt8 :=
  mem.take size ++ (List.range (size - mem.length)).map fresh

/-- The offsets at which the loop of `DYN_ARRAY_GROW` calls the init function, for an array that grows
from `old` to `new` elements. -/
def initCalls (sz old new : ℕ) : List ℕ :=
  -- `_a` is the pointer to the first new element, and the index starts at the number of the old ones
  (List.range (new - old)).map fun x => old * sz + (old + x) * sz

/-- An element of bytes that are all zero. -/
def zeroElt (sz : ℕ) : List UInt8 := List.replicate sz 0

namespace DynArrayT

/-- The loop of `DYN_ARRAY_GROW`, from `n` elements on; after `fuel` tests it is given up. -/
def growLoop (sz allocationSize idx : ℕ) : ℕ → ℕ → Option ℕ
  | 0, _ => none
  | fuel + 1, n =>
    if n * sz % 2 ^ 64 ≤ idx * sz % 2 ^ 64 then growLoop sz allocationSize idx fuel ((n + allocationSize) % 2 ^ 64)
    else some n

/-- The init function is called for the element at an offset. -/
def initElt (init : InitFn) (sz : ℕ) (mem : List UInt8) (off : ℕ) : Option (List UInt8) :=
  (Block.read mem off sz).bind fun e => Block.write mem off (init.fn e)

/-- The calls of the init function, where there is one, for an array that grows to `n` elements. -/
def runInit (a : DynArrayT) (n : ℕ) (mem : List UInt8) : Option (List UInt8) :=
  match a.elementInitFn with
  | none => some mem
  | some init => (initCalls a.typeSize a.capacity n).foldlM (initElt init a.typeSize) mem

/-- `DYN_ARRAY_GROW`. -/
def grow (fresh : ℕ → UInt8) (fuel : ℕ) (a : DynArrayT) (idx : ℕ) : Option DynArrayT := do
  let n ← growLoop a.typeSize a.allocationSize idx fuel a.capacity
  let mem := realloc fresh a.base (n * a.typeSize % 2 ^ 64)
  let zeros := List.replicate (sizeT (n - a.capacity) * a.typeSize % 2 ^ 64) 0
  let mem ← Block.write mem (a.capacity * a.typeSize) zeros
  let mem ← a.runInit n mem
  some { a with base := mem, capacity := n }

/-- The array grows if it is too short, given as many tests as it can need. -/
def makeRoom (fresh : ℕ → UInt8) (a : DynArrayT) (idx : ℕ) : Option DynArrayT :=
  if a.capacity ≤ idx then a.grow fresh (idx + 2) idx else some a

/-- `DYN_ARRAY_GET_ELT`: the array afterwards, the pointer being to element `idx`. -/
def getElt (fresh : ℕ → UInt8) (a : DynArrayT) (idx : ℕ) : Option DynArrayT :=
  if a.capacity = 0 then none else a.makeRoom fresh idx

/-- `DYN_ARRAY_SET_ELT`. -/
def setElt (fresh : ℕ → UInt8) (a : DynArrayT) (idx : ℕ) (elt : List UInt8) : Option DynArrayT := do
  let a ← a.makeRoom fresh idx
  let mem ← Block.write a.base (idx * a.typeSize) elt
  some { a with base := mem }

/-- The bytes of an element. -/
def elt (a : DynArrayT) (i : ℕ) : Option (List UInt8) := Block.read a.base (i * a.typeSize) a.typeSize

variable {a a' : DynArrayT} {b b' : DynArray (List UInt8)} {fresh : ℕ → UInt8} {sz k n m idx fuel : ℕ}

/-! ### The loop -/

/-- Where sizes in bytes are within `size_t`, the loop is that of the elements. -/
theorem growLoop_eq (hk : 0 < k) (hsz : 0 < sz) (hfit : DynArray.grown k idx n * sz < 2 ^ 64) :
    growLoop sz k idx fuel n = DynArray.growLoop k idx fuel n := by
  induction fuel generalizing n with
  | zero => rfl
  | succ fuel ih =>
    have hn : n * sz ≤ DynArray.grown k idx n * sz := Nat.mul_le_mul_right sz (DynArray.le_grown k idx n)
    have hidx : idx * sz ≤ DynArray.grown k idx n * sz :=
      Nat.mul_le_mul_right sz (DynArray.lt_grown hk idx n).le
    have htest : n * sz % 2 ^ 64 ≤ idx * sz % 2 ^ 64 ↔ n ≤ idx := by
      rw [Nat.mod_eq_of_lt (by omega), Nat.mod_eq_of_lt (by omega)]
      exact Nat.mul_le_mul_right_iff hsz
    rw [growLoop, DynArray.growLoop]
    by_cases hle : n ≤ idx
    · have hgrown : DynArray.grown k idx (n + k) = DynArray.grown k idx n := DynArray.grown_add hle hk
      have hbound : n + k < 2 ^ 64 :=
        calc n + k ≤ DynArray.grown k idx n := by rw [← hgrown]; exact DynArray.le_grown k idx _
          _ ≤ DynArray.grown k idx n * sz := Nat.le_mul_of_pos_right _ hsz
          _ < 2 ^ 64 := hfit
      rw [if_pos (htest.2 hle), if_pos hle, Nat.mod_eq_of_lt hbound]
      exact ih (by rw [hgrown]; exact hfit)
    · rw [if_neg (fun h => hle (htest.1 h)), if_neg hle]

/-! ### Growth -/

/-- An array whose memory is what its capacity says, and that can grow. -/
structure Sound (a : DynArrayT) : Prop where
  /-- The memory. -/
  length_base : a.base.length = a.capacity * a.typeSize
  /-- It grows. -/
  grows : 0 < a.allocationSize
  /-- Elements have a size. -/
  sized : 0 < a.typeSize

/-- The capacity that gives room to an element. -/
def newCapacity (a : DynArrayT) (idx : ℕ) : ℕ := DynArray.grown a.allocationSize idx a.capacity

/-- The array as it has grown is within `size_t`. -/
def Fits (a : DynArrayT) (idx : ℕ) : Prop := a.newCapacity idx * a.typeSize < 2 ^ 64

instance (a : DynArrayT) (idx : ℕ) : Decidable (a.Fits idx) := inferInstanceAs (Decidable (_ < _))

/-- **Growth**: the memory is as it was, with zeros behind, and then the init function is called. -/
theorem grow_eq (h : a.Sound) (hidx : a.capacity ≤ idx) (hfit : a.Fits idx) (fresh : ℕ → UInt8) :
    a.grow fresh (idx + 2) idx =
      (a.runInit (a.newCapacity idx)
        (a.base ++ List.replicate ((a.newCapacity idx - a.capacity) * a.typeSize) 0)).map
        fun mem => { a with base := mem, capacity := a.newCapacity idx } := by
  have hle : a.capacity ≤ a.newCapacity idx := DynArray.le_grown _ _ _
  have hmem : a.capacity * a.typeSize ≤ a.newCapacity idx * a.typeSize := Nat.mul_le_mul_right _ hle
  have hsub : (a.newCapacity idx - a.capacity) * a.typeSize = a.newCapacity idx * a.typeSize - a.base.length := by
    rw [Nat.sub_mul, h.length_base]
  have hfit : a.newCapacity idx * a.typeSize < 2 ^ 64 := hfit
  have hloop : growLoop a.typeSize a.allocationSize idx (idx + 2) a.capacity = some (a.newCapacity idx) := by
    rw [growLoop_eq h.grows h.sized hfit]
    exact DynArray.growLoop_eq h.grows (by omega)
  have hsize : sizeT (a.newCapacity idx - a.capacity) = a.newCapacity idx - a.capacity := by
    have hlt : a.newCapacity idx < 2 ^ 64 := (Nat.le_mul_of_pos_right _ h.sized).trans_lt hfit
    rw [sizeT]
    omega
  have hrealloc : realloc fresh a.base (a.newCapacity idx * a.typeSize) =
      a.base ++ (List.range (a.newCapacity idx * a.typeSize - a.base.length)).map fresh := by
    rw [realloc, List.take_of_length_le (by rw [h.length_base]; exact hmem)]
  have hzero : Block.write (realloc fresh a.base (a.newCapacity idx * a.typeSize)) (a.capacity * a.typeSize)
        (List.replicate ((a.newCapacity idx - a.capacity) * a.typeSize) 0) =
      some (a.base ++ List.replicate ((a.newCapacity idx - a.capacity) * a.typeSize) 0) := by
    rw [hrealloc, ← h.length_base, Block.write_append _ (by simp [hsub])]
    simp [hsub]
  simp only [grow, hloop, hsize, Option.bind_eq_bind, Option.bind_some, Nat.mod_eq_of_lt hfit,
    Nat.mod_eq_of_lt (show (a.newCapacity idx - a.capacity) * a.typeSize < 2 ^ 64 by omega), hzero]
  exact Option.map_eq_bind.symm

/-! ### The array of elements -/

/-- **The memory stands for an array of elements**; there is no init function. -/
structure Rep (a : DynArrayT) (b : DynArray (List UInt8)) : Prop where
  /-- The elements are one after the other. -/
  base : a.base = b.elts.flatten
  /-- Each has its size. -/
  size : ∀ e ∈ b.elts, e.length = a.typeSize
  /-- The capacity. -/
  capacity : a.capacity = b.capacity
  /-- The elements that are added at a time. -/
  allocationSize : a.allocationSize = b.allocationSize
  /-- No init function. -/
  noInit : a.elementInitFn = none
  /-- It grows. -/
  grows : 0 < a.allocationSize
  /-- Elements have a size. -/
  sized : 0 < a.typeSize
  /-- There is an element. -/
  allocated : b.capacity ≠ 0

namespace Rep

theorem sound (h : a.Rep b) : a.Sound where
  length_base := by
    have hmap : b.elts.map List.length = List.replicate b.elts.length a.typeSize :=
      List.eq_replicate_iff.2 ⟨List.length_map _, fun n hn => by
        obtain ⟨e, he, rfl⟩ := List.mem_map.1 hn
        exact h.size e he⟩
    rw [h.base, List.length_flatten, hmap, h.capacity, DynArray.capacity]
    simp
  grows := h.grows
  sized := h.sized

/-- The elements are read from the memory. -/
theorem elt (h : a.Rep b) {i : ℕ} (hi : i < a.capacity) : a.elt i = some (b.elts.getD i (zeroElt a.typeSize)) := by
  have hlt : i < b.elts.length := hi.trans_eq h.capacity
  rw [DynArrayT.elt, h.base, Block.read_flatten h.size hlt, List.getD_eq_getElem _ _ hlt, List.getD_eq_getElem _ _ hlt]

/-- **Growth** is growth of the array of elements. -/
theorem grow (h : a.Rep b) (hidx : a.capacity ≤ idx) (hfit : a.Fits idx) (fresh : ℕ → UInt8) :
    ∃ a' b', a.grow fresh (idx + 2) idx = some a' ∧ b.getElt (zeroElt a.typeSize) idx = some b' ∧ a'.Rep b' ∧
      a'.typeSize = a.typeSize ∧ a'.capacity = a.newCapacity idx := by
  have hle : a.capacity ≤ a.newCapacity idx := DynArray.le_grown _ _ _
  have hinit : ∀ n mem, a.runInit n mem = some mem := by
    intro n mem
    rw [runInit, h.noInit]
  have hgrow := grow_eq h.sound hidx hfit fresh
  rw [hinit] at hgrow
  refine ⟨_, { b with elts := b.elts ++ List.replicate (a.newCapacity idx - a.capacity) (zeroElt a.typeSize) }, hgrow,
    ?_, ⟨?_, ?_, ?_, h.allocationSize, h.noInit, h.grows, h.sized, ?_⟩, rfl, rfl⟩
  · have hcap : b.capacity ≤ idx := h.capacity ▸ hidx
    have hk : 0 < b.allocationSize := h.allocationSize ▸ h.grows
    rw [DynArray.getElt, DynArray.access, if_neg h.allocated, if_pos hcap, DynArray.grow,
      DynArray.growLoop_eq hk (by omega), newCapacity, h.allocationSize, h.capacity]
    rfl
  · simp [h.base, zeroElt]
  · intro e he
    obtain he | he := List.mem_append.1 he
    · exact h.size e he
    · rw [List.eq_of_mem_replicate he, zeroElt, List.length_replicate]
  · have hcap : a.capacity = b.elts.length := h.capacity
    simp only [DynArray.capacity, List.length_append, List.length_replicate]
    omega
  · have hne : b.elts.length ≠ 0 := h.allocated
    simp only [DynArray.capacity, List.length_append]
    omega

/-- **An access** does to the memory what it does to the array of elements. -/
theorem getElt (h : a.Rep b) (hfit : a.Fits idx) (fresh : ℕ → UInt8) :
    ∃ a' b', a.getElt fresh idx = some a' ∧ b.getElt (zeroElt a.typeSize) idx = some b' ∧ a'.Rep b' ∧
      a'.typeSize = a.typeSize ∧ a'.capacity = a.newCapacity idx := by
  have hcap : a.capacity ≠ 0 := h.capacity ▸ h.allocated
  rw [DynArrayT.getElt, if_neg hcap, makeRoom]
  split
  · exact h.grow ‹_› hfit fresh
  · have hlt : idx < a.capacity := by omega
    refine ⟨a, b, rfl, DynArray.access_of_lt (h.capacity ▸ hlt) _, h, rfl, ?_⟩
    exact (DynArray.grown_of_lt hlt).symm

/-- **A write** does so too. -/
theorem setElt (h : a.Rep b) (hfit : a.Fits idx) (fresh : ℕ → UInt8) {e : List UInt8} (he : e.length = a.typeSize) :
    ∃ a' b', a.setElt fresh idx e = some a' ∧ b.getElt (zeroElt a.typeSize) idx = some b' ∧ a'.Rep (b'.set idx e) ∧
      a'.typeSize = a.typeSize ∧ a'.capacity = a.newCapacity idx := by
  have hcap : a.capacity ≠ 0 := h.capacity ▸ h.allocated
  obtain ⟨a', b', ha, hb, hrep, hsize, hnew⟩ := h.getElt hfit fresh
  rw [DynArrayT.getElt, if_neg hcap] at ha
  have hlt : idx < b'.capacity := (DynArray.access_eq_some hb).1
  have hwrite : Block.write a'.base (idx * a'.typeSize) e = some (b'.set idx e).elts.flatten := by
    rw [hrep.base]
    exact Block.write_flatten hrep.size hlt (hsize ▸ he)
  refine ⟨{ a' with base := (b'.set idx e).elts.flatten }, b', ?_, hb, ⟨rfl, ?_, ?_, hrep.allocationSize, hrep.noInit,
    hrep.grows, hrep.sized, ?_⟩, hsize, hnew⟩
  · rw [DynArrayT.setElt, ha]
    simp only [Option.bind_eq_bind, Option.bind_some, hwrite]
  · intro x hx
    obtain hx | rfl := List.mem_or_eq_of_mem_set hx
    · exact hrep.size x hx
    · exact hsize ▸ he
  · rw [DynArray.capacity_set]
    exact hrep.capacity
  · rw [DynArray.capacity_set]
    exact hrep.allocated

end Rep

end DynArrayT

/-! ### Arrays without an init function -/

/-- An access to an array, with what new memory holds. -/
inductive ArrayOp where
  /-- `DYN_ARRAY_GET_ELT`. -/
  | get (fresh : ℕ → UInt8) (idx : ℕ)
  /-- `DYN_ARRAY_SET_ELT`. -/
  | set (fresh : ℕ → UInt8) (idx : ℕ) (elt : List UInt8)

namespace ArrayOp

/-- The index. -/
def idx : ArrayOp → ℕ
  | get _ i | set _ i _ => i

/-- An element that is written is one, and the array stays within `size_t`. -/
structure Allowed (n sz : ℕ) (op : ArrayOp) : Prop where
  /-- The size of the array with the element. -/
  fits : (op.idx / n + 1) * n * sz < 2 ^ 64
  /-- The size of the element. -/
  elt : ∀ fresh i e, op = set fresh i e → e.length = sz

/-- What an access does to a map. -/
def apply (m : ℕ → List UInt8) : ArrayOp → ℕ → List UInt8
  | get _ _ => m
  | set _ i e => Function.update m i e

end ArrayOp

/-- One access. -/
def DynArrayT.step (a : DynArrayT) : ArrayOp → Option DynArrayT
  | .get fresh i => a.getElt fresh i
  | .set fresh i e => a.setElt fresh i e

/-- The value last written at an index, zero where there is none. -/
def lastWritten (sz : ℕ) (ops : List ArrayOp) : ℕ → List UInt8 := ops.foldl ArrayOp.apply fun _ => zeroElt sz

/-- **The array is the map**, as far as it reaches, and the map is zero beyond. -/
structure DynArrayT.IsMap (a : DynArrayT) (n sz : ℕ) (m : ℕ → List UInt8) : Prop where
  /-- The elements. -/
  elts : ∃ b : DynArray (List UInt8), a.Rep b ∧ ∀ i, b.elts.getD i (zeroElt sz) = m i
  /-- The size of an element. -/
  typeSize : a.typeSize = sz
  /-- The allocation size. -/
  allocationSize : a.allocationSize = n
  /-- The capacity is a multiple of it. -/
  dvd : n ∣ a.capacity
  /-- The size in bytes. -/
  bytes : a.capacity * sz < 2 ^ 64

namespace DynArrayT

variable {a : DynArrayT} {n sz : ℕ} {map : ℕ → List UInt8}

/-- A new array is zero everywhere. -/
theorem isMap_alloc (hn : 0 < n) (hsz : 0 < sz) (hfit : n * sz < 2 ^ 64) :
    ∃ a, dynArrayAlloc n sz = some a ∧ a.IsMap n sz fun _ => zeroElt sz := by
  have hbase : List.replicate (n * sz % 2 ^ 64) (0 : UInt8) = (List.replicate n (zeroElt sz)).flatten := by
    rw [Nat.mod_eq_of_lt hfit, zeroElt, List.flatten_replicate_replicate]
  refine ⟨_, if_neg hn.ne', ⟨.alloc (zeroElt sz) n, ⟨hbase, ?_, ?_, rfl, rfl, hn, hsz, ?_⟩, ?_⟩, rfl, rfl, dvd_rfl,
    hfit⟩
  · intro e he
    rw [List.eq_of_mem_replicate he, zeroElt, List.length_replicate]
  · rw [DynArray.capacity_alloc]
  · rw [DynArray.capacity_alloc]
    exact hn.ne'
  · intro i
    simp only [DynArray.alloc, List.getD_eq_getElem?_getD, List.getElem?_replicate]
    split <;> rfl

/-- **One access** keeps the array a map, and makes room for its index. -/
theorem IsMap.step (h : a.IsMap n sz map) {op : ArrayOp} (hop : op.Allowed n sz) :
    ∃ a', a.step op = some a' ∧ a'.IsMap n sz (op.apply map) ∧ op.idx < a'.capacity ∧ a.capacity ≤ a'.capacity := by
  obtain ⟨b, hrep, hmap⟩ := h.elts
  have hk : 0 < n := h.allocationSize ▸ hrep.grows
  have hnew : n ∣ a.newCapacity op.idx := by
    rw [newCapacity, h.allocationSize]
    exact DynArray.dvd_grown h.dvd _
  have hroom : op.idx < a.newCapacity op.idx := DynArray.lt_grown (h.allocationSize ▸ hk) _ _
  have hle : a.capacity ≤ a.newCapacity op.idx := DynArray.le_grown _ _ _
  have hbytes : a.newCapacity op.idx * sz < 2 ^ 64 := by
    rw [newCapacity, h.allocationSize]
    by_cases hle : a.capacity ≤ op.idx
    · rw [DynArray.grown_of_dvd hk h.dvd hle]
      exact hop.fits
    · rw [DynArray.grown_of_lt (by omega)]
      exact h.bytes
  have hfit : a.Fits op.idx := by
    rw [Fits, h.typeSize]
    exact hbytes
  cases op with
  | get fresh i =>
    obtain ⟨a', b', ha, hb, hrep', hsize, hcap⟩ := hrep.getElt hfit fresh
    have halloc : b'.allocationSize = b.allocationSize := (DynArray.access_eq_some hb).2.1
    refine ⟨a', ha, ⟨⟨b', hrep', fun j => ?_⟩, hsize.trans h.typeSize, ?_, hcap ▸ hnew, hcap ▸ hbytes⟩, hcap ▸ hroom,
      hcap ▸ hle⟩
    · rw [h.typeSize] at hb
      rw [DynArray.getD_access hb, hmap]
      rfl
    · rw [hrep'.allocationSize, halloc, ← hrep.allocationSize, h.allocationSize]
  | set fresh i e =>
    have he : e.length = a.typeSize := (hop.elt fresh i e rfl).trans h.typeSize.symm
    have hfit : a.Fits i := hfit
    obtain ⟨a', b', ha, hb, hrep', hsize, hcap⟩ := hrep.setElt hfit fresh he
    obtain ⟨hlt, halloc, -⟩ := DynArray.access_eq_some hb
    refine ⟨a', ha, ⟨⟨b'.set i e, hrep', fun j => ?_⟩, hsize.trans h.typeSize, ?_, hcap ▸ hnew, hcap ▸ hbytes⟩,
      hcap ▸ hroom, hcap ▸ hle⟩
    · rw [h.typeSize] at hb
      rw [DynArray.getD_set hlt, DynArray.getD_access hb, hmap, ArrayOp.apply, Function.update_apply]
    · rw [hrep'.allocationSize, DynArray.allocationSize_set, halloc, ← hrep.allocationSize, h.allocationSize]

/-- **Any accesses** keep it one. -/
theorem IsMap.run (h : a.IsMap n sz map) {ops : List ArrayOp} (hops : ∀ op ∈ ops, op.Allowed n sz) :
    ∃ a', ops.foldlM DynArrayT.step a = some a' ∧ a'.IsMap n sz (ops.foldl ArrayOp.apply map) := by
  induction ops generalizing a map with
  | nil => exact ⟨a, rfl, h⟩
  | cons op ops ih =>
    obtain ⟨a₁, hstep, h₁, -⟩ := h.step (hops op List.mem_cons_self)
    obtain ⟨a₂, hrun, h₂⟩ := ih h₁ fun o ho => hops o (List.mem_cons_of_mem _ ho)
    refine ⟨a₂, ?_, h₂⟩
    rw [List.foldlM_cons, hstep]
    exact hrun

/-- An element is what the map says. -/
theorem IsMap.elt_eq (h : a.IsMap n sz map) {i : ℕ} (hi : i < a.capacity) : a.elt i = some (map i) := by
  obtain ⟨b, hrep, hmap⟩ := h.elts
  rw [hrep.elt hi, h.typeSize, hmap]

end DynArrayT

/-- **A dynamic array without init function is a total map**: after any accesses an access ends and makes
room for its index, the capacity is a multiple of the allocation size, and every element is what was last
written there, or zero. -/
theorem dyn_array_total_map {n sz : ℕ} (hn : 0 < n) (hsz : 0 < sz) (ops : List ArrayOp) (op : ArrayOp)
    (hops : ∀ o ∈ ops ++ [op], o.Allowed n sz) :
    ∃ a₀ a a', dynArrayAlloc n sz = some a₀ ∧ ops.foldlM DynArrayT.step a₀ = some a ∧ a.step op = some a' ∧
      (∀ i < a.capacity, a.elt i = some (lastWritten sz ops i)) ∧
      (∀ i < a'.capacity, a'.elt i = some (lastWritten sz (ops ++ [op]) i)) ∧
      op.idx < a'.capacity ∧ a.capacity ≤ a'.capacity ∧ a'.allocationSize = n ∧ n ∣ a'.capacity := by
  have hop : op.Allowed n sz := hops op (List.mem_append_right _ List.mem_cons_self)
  have hfit : n * sz < 2 ^ 64 :=
    calc n * sz ≤ (op.idx / n + 1) * (n * sz) := Nat.le_mul_of_pos_left _ (Nat.succ_pos _)
      _ = (op.idx / n + 1) * n * sz := (Nat.mul_assoc _ _ _).symm
      _ < 2 ^ 64 := hop.fits
  obtain ⟨a₀, halloc, h₀⟩ := DynArrayT.isMap_alloc hn hsz hfit
  obtain ⟨a, hrun, h⟩ := h₀.run fun o ho => hops o (List.mem_append_left _ ho)
  obtain ⟨a', hstep, h', hroom, hle⟩ := h.step hop
  refine ⟨a₀, a, a', halloc, hrun, hstep, fun i hi => h.elt_eq hi, fun i hi => ?_, hroom, hle, h'.allocationSize,
    h'.dvd⟩
  rw [h'.elt_eq hi, lastWritten, List.foldl_append]
  rfl

/-- Element 3 of an array of eight, which is read after element 1024 has been written. -/
theorem dyn_array_total_map_eight :
    ∃ a₀ a a', dynArrayAlloc 8 4 = some a₀ ∧
      [ArrayOp.set (fun _ => 0xef) 1024 [1, 2, 3, 4]].foldlM DynArrayT.step a₀ = some a ∧
      a.step (.get (fun _ => 0xef) 3) = some a' ∧
      (∀ i < a.capacity, a.elt i = some (lastWritten 4 [.set (fun _ => 0xef) 1024 [1, 2, 3, 4]] i)) ∧
      (∀ i < a'.capacity, a'.elt i =
        some (lastWritten 4 [.set (fun _ => 0xef) 1024 [1, 2, 3, 4], .get (fun _ => 0xef) 3] i)) ∧
      3 < a'.capacity ∧ a.capacity ≤ a'.capacity ∧ a'.allocationSize = 8 ∧ 8 ∣ a'.capacity := by
  apply dyn_array_total_map (by decide) (by decide) [.set (fun _ => 0xef) 1024 [1, 2, 3, 4]] (.get (fun _ => 0xef) 3)
  intro o ho
  simp only [List.cons_append, List.nil_append, List.mem_cons, List.not_mem_nil, or_false] at ho
  obtain rfl | rfl := ho
  · refine ⟨by decide, fun fresh i e he => ?_⟩
    cases he
    rfl
  · exact ⟨by decide, fun fresh i e he => by cases he⟩

/-! ### Arrays with an init function -/

namespace DynArrayT

variable {a : DynArrayT} {sz idx : ℕ}

/-- **Growth initialises exactly the new elements**: the function is called once for each and at no other
address, and the elements below are as they were. -/
def InitsNew (a : DynArrayT) (init : InitFn) (fresh : ℕ → UInt8) (idx : ℕ) : Prop :=
  ∃ a', a.grow fresh (idx + 2) idx = some a' ∧
    (initCalls a.typeSize a.capacity a'.capacity).Perm
      ((List.range (a'.capacity - a.capacity)).map fun x => (a.capacity + x) * a.typeSize) ∧
    (∀ i < a.capacity, a'.elt i = a.elt i) ∧
    ∀ i, a.capacity ≤ i → i < a'.capacity → a'.elt i = some (init.fn (zeroElt a.typeSize))

/-- The calls for an array that had no elements: the first `m` are initialised. -/
theorem initElt_range (init : InitFn) (sz : ℕ) {m n : ℕ} (h : m ≤ n) :
    (List.range m).foldlM (fun mem x => initElt init sz mem (x * sz)) (List.replicate n (zeroElt sz)).flatten =
      some (List.replicate m (init.fn (zeroElt sz)) ++ List.replicate (n - m) (zeroElt sz)).flatten := by
  induction m with
  | zero => rfl
  | succ m ih =>
    have hsize : ∀ e ∈ List.replicate m (init.fn (zeroElt sz)) ++ List.replicate (n - m) (zeroElt sz),
        e.length = sz := by
      intro e he
      obtain he | he := List.mem_append.1 he
      · rw [List.eq_of_mem_replicate he, init.length_fn, zeroElt, List.length_replicate]
      · rw [List.eq_of_mem_replicate he, zeroElt, List.length_replicate]
    have hlt : m < (List.replicate m (init.fn (zeroElt sz)) ++ List.replicate (n - m) (zeroElt sz)).length := by
      simp
      omega
    have hsucc : n - m = (n - (m + 1)) + 1 := by omega
    have hget : (List.replicate m (init.fn (zeroElt sz)) ++ List.replicate (n - m) (zeroElt sz)).getD m [] =
        zeroElt sz := by
      rw [hsucc, List.replicate_succ, List.getD_append_right _ _ _ _ (by simp)]
      simp
    have hset : (List.replicate m (init.fn (zeroElt sz)) ++ List.replicate (n - m) (zeroElt sz)).set m
          (init.fn (zeroElt sz)) =
        List.replicate (m + 1) (init.fn (zeroElt sz)) ++ List.replicate (n - (m + 1)) (zeroElt sz) := by
      rw [hsucc, List.replicate_succ, List.set_append_right _ _ (by simp), List.replicate_succ']
      simp
    rw [List.range_succ, List.foldlM_append, ih (by omega)]
    simp only [Option.bind_eq_bind, Option.bind_some, List.foldlM_cons, List.foldlM_nil, Option.pure_def, initElt]
    rw [Block.read_flatten hsize hlt, Option.bind_some, hget,
      Block.write_flatten hsize hlt (by rw [init.length_fn, zeroElt, List.length_replicate]), hset]
    rfl

end DynArrayT

/-- **Growth with an init function initialises exactly the new elements** when the array had none before, and
only then: the pointer to the new elements is advanced by the number of the old ones again. -/
theorem init_growth_iff {a : DynArrayT} {init : InitFn} {idx : ℕ} (h : a.Sound) (hinit : a.elementInitFn = some init)
    (hidx : a.capacity ≤ idx) (hfit : a.Fits idx) (fresh : ℕ → UInt8) :
    a.InitsNew init fresh idx ↔ a.capacity = 0 := by
  have hlt : a.capacity < a.newCapacity idx := hidx.trans_lt (DynArray.lt_grown h.grows _ _)
  have hgrow := DynArrayT.grow_eq h hidx hfit fresh
  have hsz : 0 < a.typeSize := h.sized
  constructor
  · rintro ⟨a', ha, hcalls, -⟩
    rw [hgrow] at ha
    obtain ⟨mem, -, rfl⟩ := Option.map_eq_some_iff.1 ha
    -- the first new element is at the end of the old ones
    have hfirst : a.capacity * a.typeSize ∈ initCalls a.typeSize a.capacity (a.newCapacity idx) := by
      rw [hcalls.mem_iff, List.mem_map]
      exact ⟨0, List.mem_range.2 (by dsimp only; omega), by rw [Nat.add_zero]⟩
    obtain ⟨x, -, hx⟩ := List.mem_map.1 hfirst
    have hzero : (a.capacity + x) * a.typeSize = 0 := by omega
    have hsum : a.capacity + x = 0 := (Nat.mul_eq_zero.1 hzero).resolve_right hsz.ne'
    omega
  · intro h0
    have hbase : a.base = [] := List.length_eq_zero_iff.1 (by rw [h.length_base, h0, Nat.zero_mul])
    have hcalls : initCalls a.typeSize a.capacity (a.newCapacity idx) =
        (List.range (a.newCapacity idx)).map fun x => x * a.typeSize := by
      simp [initCalls, h0]
    have hinits : a.runInit (a.newCapacity idx) (List.replicate (a.newCapacity idx) (zeroElt a.typeSize)).flatten =
        some (List.replicate (a.newCapacity idx) (init.fn (zeroElt a.typeSize))).flatten := by
      have hrange := DynArrayT.initElt_range init a.typeSize (Nat.le_refl (a.newCapacity idx))
      rw [Nat.sub_self, List.replicate_zero, List.append_nil] at hrange
      rw [DynArrayT.runInit, hinit, ← hrange]
      simp only [hcalls, List.foldlM_map]
    have hmem : a.base ++ List.replicate ((a.newCapacity idx - a.capacity) * a.typeSize) 0 =
        (List.replicate (a.newCapacity idx) (zeroElt a.typeSize)).flatten := by
      rw [hbase, h0, zeroElt, List.flatten_replicate_replicate]
      rfl
    rw [hmem, hinits] at hgrow
    refine ⟨_, hgrow, ?_, fun i hi => ?_, fun i _ hi => ?_⟩
    · dsimp only
      rw [hcalls, h0]
      simp
    · omega
    · have hsize : ∀ e ∈ List.replicate (a.newCapacity idx) (init.fn (zeroElt a.typeSize)), e.length = a.typeSize := by
        intro e he
        rw [List.eq_of_mem_replicate he, init.length_fn, zeroElt, List.length_replicate]
      have hlen : i < (List.replicate (a.newCapacity idx) (init.fn (zeroElt a.typeSize))).length := by
        rw [List.length_replicate]
        exact hi
      rw [DynArrayT.elt, Block.read_flatten hsize hlen, List.getD_eq_getElem _ _ hlen, List.getElem_replicate]

/-- A function that sets an element to ones. -/
def setOnes : InitFn := ⟨fun e => e.map fun _ => 1, fun _ => List.length_map _⟩

/-- An array with an init function that has no elements yet. -/
theorem init_growth_empty :
    (⟨[], 0, 2, 1, some setOnes⟩ : DynArrayT).InitsNew setOnes (fun _ => 0xef) 0 :=
  (init_growth_iff ⟨rfl, by decide, by decide⟩ rfl (Nat.le_refl 0) (by decide) fun _ => 0xef).2 rfl

/-- The first growth of an array of two elements: the function is called past the end of the array. -/
theorem not_init_growth :
    initCalls 1 2 4 = [4, 5] ∧
    ¬ ∀ (a : DynArrayT) (init : InitFn) (idx : ℕ) (fresh : ℕ → UInt8), a.Sound → a.elementInitFn = some init →
      a.capacity ≤ idx → a.Fits idx → a.InitsNew init fresh idx := by
  refine ⟨by decide, fun hall => ?_⟩
  obtain ⟨a', ha, -⟩ := hall ⟨[1, 1], 2, 2, 1, some setOnes⟩ setOnes 2 (fun _ => 0xef) ⟨rfl, by decide, by decide⟩ rfl
    (Nat.le_refl 2) (by decide)
  have hnone : (DynArrayT.grow (fun _ => 0xef) 4 ⟨[1, 1], 2, 2, 1, some setOnes⟩ 2).isNone = true := by decide +kernel
  rw [ha] at hnone
  cases hnone

end DpuOffload
