import Mathlib.Data.List.GetD
import Mathlib.Tactic.ByContra
import Mathlib.Tactic.Ring

/-!
# Arrays that grow where they are accessed

An array has a capacity and a number of elements to add when it is too short. An access beyond
the capacity adds that number until the element is there (`growLoop`); elements that come so are
all zero. Nothing ends the loop when the number is zero.

* `exists_growLoop_iff` — when the loop ends.
* `access_eq_some` — what an access does to the elements.
* `exists_access_iff` — **when an access succeeds.**
* `Holds.push` — one more element is written behind those an array holds.
-/

/-- An array that grows: its elements up to the capacity, and how many it grows by. -/
structure DynArray (α : Type*) where
  /-- The elements. -/
  elts : List α
  /-- How many elements are added at a time. -/
  allocationSize : ℕ
  deriving DecidableEq

namespace DynArray

variable {α : Type*}

/-- How many elements there is memory for. -/
def capacity (a : DynArray α) : ℕ := a.elts.length

/-- A new array of `n` elements. -/
def alloc (zero : α) (n : ℕ) : DynArray α := ⟨List.replicate n zero, n⟩

/-- An array in memory that is all zero. -/
def zero : DynArray α := ⟨[], 0⟩

/-- The loop that finds the capacity for element `idx`, from `n` on; after `fuel` tests it is given up. -/
def growLoop (allocationSize idx : ℕ) : ℕ → ℕ → Option ℕ
  | 0, _ => none
  | fuel + 1, n => if n ≤ idx then growLoop allocationSize idx fuel (n + allocationSize) else some n

/-- The array grows to have element `idx`. -/
def grow (zero : α) (fuel : ℕ) (a : DynArray α) (idx : ℕ) : Option (DynArray α) :=
  (growLoop a.allocationSize idx fuel a.capacity).map fun n =>
    { a with elts := a.elts ++ List.replicate (n - a.capacity) zero }

/-- Element `idx` is accessed, in an array that has been allocated. -/
def access (zero : α) (fuel : ℕ) (a : DynArray α) (idx : ℕ) : Option (DynArray α) :=
  if a.capacity = 0 then none else if a.capacity ≤ idx then a.grow zero fuel idx else some a

/-- An access that is given as many tests as a growing array can need. -/
def getElt (zero : α) (a : DynArray α) (idx : ℕ) : Option (DynArray α) := a.access zero (idx + 2) idx

/-- Element `idx` is written, where it is. -/
def set (a : DynArray α) (idx : ℕ) (x : α) : DynArray α := { a with elts := a.elts.set idx x }

variable {a b : DynArray α} {z x : α} {k n m idx fuel : ℕ}

@[simp] theorem capacity_alloc (z : α) (n : ℕ) : (alloc z n).capacity = n := List.length_replicate

@[simp] theorem capacity_set (a : DynArray α) (i : ℕ) (x : α) : (a.set i x).capacity = a.capacity := List.length_set

@[simp] theorem allocationSize_set (a : DynArray α) (i : ℕ) (x : α) :
    (a.set i x).allocationSize = a.allocationSize := rfl

/-! ### The loop -/

theorem growLoop_eq_some (h : growLoop k idx fuel n = some m) : idx < m ∧ n ≤ m := by
  induction fuel generalizing n with
  | zero => cases h
  | succ fuel ih =>
    unfold growLoop at h
    split at h
    · obtain ⟨hlt, hle⟩ := ih h
      exact ⟨hlt, by omega⟩
    · cases h
      exact ⟨by omega, Nat.le_refl _⟩

/-- The capacity that gives room to element `idx`, from `n` on. -/
def grown (allocationSize idx n : ℕ) : ℕ := if n ≤ idx then n + ((idx - n) / allocationSize + 1) * allocationSize else n

theorem grown_of_lt (h : idx < n) : grown k idx n = n := if_neg (Nat.not_le_of_lt h)

theorem grown_add (h : n ≤ idx) (hk : 0 < k) : grown k idx (n + k) = grown k idx n := by
  rw [grown, grown, if_pos h]
  by_cases hle : n + k ≤ idx
  · have hdiv : (idx - n) / k = (idx - (n + k)) / k + 1 := by
      rw [← Nat.add_div_right _ hk]
      congr 1
      omega
    rw [if_pos hle, hdiv]
    ring
  · have hdiv : (idx - n) / k = 0 := Nat.div_eq_of_lt (by omega)
    rw [if_neg hle, hdiv]
    ring

theorem lt_grown (hk : 0 < k) (idx n : ℕ) : idx < grown k idx n := by
  rw [grown]
  split
  · have hlt : idx - n < k * ((idx - n) / k + 1) := Nat.lt_mul_div_succ _ hk
    rw [Nat.mul_comm] at hlt
    omega
  · omega

theorem le_grown (k idx n : ℕ) : n ≤ grown k idx n := by
  rw [grown]
  split <;> omega

/-- A capacity that is a multiple of the allocation size stays one. -/
theorem dvd_grown (h : k ∣ n) (idx : ℕ) : k ∣ grown k idx n := by
  rw [grown]
  split
  · exact Nat.dvd_add h (Nat.dvd_mul_left _ _)
  · exact h

theorem grown_of_dvd (hk : 0 < k) (h : k ∣ n) (hle : n ≤ idx) : grown k idx n = (idx / k + 1) * k := by
  obtain ⟨q, rfl⟩ := h
  have hq : q ≤ idx / k := (Nat.le_div_iff_mul_le hk).2 (by rw [Nat.mul_comm]; exact hle)
  have hsub : (idx - k * q) / k = idx / k - q := Nat.sub_mul_div idx k q
  obtain ⟨d, hd⟩ := Nat.exists_eq_add_of_le hq
  rw [grown, if_pos hle, hsub, hd, Nat.add_sub_cancel_left]
  ring

/-- **What the loop finds.** -/
theorem growLoop_eq (hk : 0 < k) (hf : idx + 1 - n < fuel) : growLoop k idx fuel n = some (grown k idx n) := by
  induction fuel generalizing n with
  | zero => omega
  | succ fuel ih =>
    unfold growLoop
    split
    · rename_i hle
      rw [ih (by omega), grown_add hle hk]
    · rw [grown_of_lt (by omega)]

theorem isSome_growLoop (hk : 0 < k) (hf : idx + 1 - n < fuel) : (growLoop k idx fuel n).isSome = true := by
  rw [growLoop_eq hk hf]
  rfl

/-- **An array that grows by nothing never gets longer.** -/
theorem growLoop_zero (h : n ≤ idx) (fuel : ℕ) : growLoop 0 idx fuel n = none := by
  induction fuel with
  | zero => rfl
  | succ fuel ih =>
    unfold growLoop
    rw [if_pos h]
    exact ih

/-- **When the loop ends.** -/
theorem exists_growLoop_iff : (∃ fuel, (growLoop k idx fuel n).isSome = true) ↔ idx < n ∨ 0 < k := by
  constructor
  · rintro ⟨fuel, h⟩
    by_contra hno
    have hk : k = 0 := by omega
    rw [hk, growLoop_zero (by omega)] at h
    cases h
  · rintro (h | h)
    · refine ⟨1, ?_⟩
      rw [growLoop, if_neg (by omega)]
      rfl
    · exact ⟨idx + 2, isSome_growLoop h (by omega)⟩

/-! ### Accesses -/

/-- **What an access does**: the array is as it was, with zeros behind if it has grown. -/
theorem access_eq_some (h : a.access z fuel idx = some b) :
    idx < b.capacity ∧ b.allocationSize = a.allocationSize ∧ ∃ d, b.elts = a.elts ++ List.replicate d z := by
  unfold access at h
  split at h
  · cases h
  split at h
  · obtain ⟨m, hm, rfl⟩ := Option.map_eq_some_iff.1 h
    obtain ⟨hlt, hle⟩ := growLoop_eq_some hm
    refine ⟨?_, rfl, _, rfl⟩
    rw [capacity, List.length_append, List.length_replicate, ← capacity]
    omega
  · cases h
    exact ⟨by omega, rfl, 0, (List.append_nil _).symm⟩

/-- Elements keep their values, and those that are new are zero. -/
theorem getD_access (h : a.access z fuel idx = some b) (i : ℕ) : b.elts.getD i z = a.elts.getD i z := by
  obtain ⟨-, -, d, hd⟩ := access_eq_some h
  rw [hd]
  by_cases hi : i < a.elts.length
  · rw [List.getD_append _ _ _ _ hi]
  · rw [List.getD_append_right _ _ _ _ (by omega), List.getD_eq_default a.elts _ (by omega)]
    simp only [List.getD_eq_getElem?_getD, List.getElem?_replicate]
    split <;> rfl

theorem access_of_lt (h : idx < a.capacity) (fuel : ℕ) : a.access z fuel idx = some a := by
  rw [access, if_neg (by omega), if_neg (by omega)]

theorem exists_access (h0 : a.capacity ≠ 0) (hk : 0 < a.allocationSize) (hf : idx + 1 - a.capacity < fuel) :
    ∃ b, a.access z fuel idx = some b := by
  rw [access, if_neg h0]
  split
  · obtain ⟨m, hm⟩ := Option.isSome_iff_exists.1 (isSome_growLoop hk hf)
    exact ⟨_, by rw [grow, hm]; rfl⟩
  · exact ⟨a, rfl⟩

/-- **When an access succeeds**, given time. -/
theorem exists_access_iff (z : α) : (∃ fuel b, a.access z fuel idx = some b) ↔
    a.capacity ≠ 0 ∧ (idx < a.capacity ∨ 0 < a.allocationSize) := by
  constructor
  · rintro ⟨fuel, b, h⟩
    unfold access at h
    split at h
    · cases h
    rename_i h0
    split at h
    · obtain ⟨m, hm, -⟩ := Option.map_eq_some_iff.1 h
      exact ⟨h0, exists_growLoop_iff.1 ⟨fuel, Option.isSome_iff_exists.2 ⟨m, hm⟩⟩⟩
    · exact ⟨h0, .inl (by omega)⟩
  · rintro ⟨h0, hlt | hk⟩
    · exact ⟨0, a, access_of_lt hlt 0⟩
    · exact ⟨idx + 2, exists_access h0 hk (by omega)⟩

theorem exists_getElt (h0 : a.capacity ≠ 0) (hk : 0 < a.allocationSize) (idx : ℕ) : ∃ b, a.getElt z idx = some b :=
  exists_access h0 hk (by omega)

/-- An element is written where an access has made room. -/
theorem getD_set (h : idx < a.capacity) (i : ℕ) :
    (a.set idx x).elts.getD i z = if i = idx then x else a.elts.getD i z := by
  simp only [set, List.getD_eq_getElem?_getD, List.getElem?_set]
  by_cases hi : idx = i
  · subst hi
    rw [if_pos rfl, if_pos rfl, if_pos (show idx < a.elts.length from h)]
    rfl
  · rw [if_neg hi, if_neg (Ne.symm hi)]

/-- An element is accessed and written. -/
theorem exists_getElt_set (h0 : a.capacity ≠ 0) (hk : 0 < a.allocationSize) (idx : ℕ) :
    ∃ b, a.getElt z idx = some b ∧ b.elts.getD idx z = a.elts.getD idx z ∧ ∀ x, (b.set idx x).capacity ≠ 0 ∧
      (b.set idx x).allocationSize = a.allocationSize ∧
      ∀ i, (b.set idx x).elts.getD i z = if i = idx then x else a.elts.getD i z := by
  obtain ⟨b, hb⟩ := exists_getElt (z := z) h0 hk idx
  obtain ⟨hlt, hsize, -⟩ := access_eq_some hb
  refine ⟨b, hb, getD_access hb idx, fun x => ⟨?_, ?_, fun i => ?_⟩⟩
  · rw [capacity_set]
    omega
  · rw [allocationSize_set, hsize]
  · rw [getD_set hlt, getD_access hb]

/-- The first `n` elements are accessed and changed, one after the other. -/
def forEach (zero : α) (f : ℕ → α → α) (n : ℕ) (a : DynArray α) : Option (DynArray α) :=
  (List.range n).foldlM (fun a i => (a.getElt zero i).map fun b => b.set i (f i (b.elts.getD i zero))) a

/-- **A loop over the elements** changes each of them and no other; the array grows as it has to. -/
theorem exists_forEach (h0 : a.capacity ≠ 0) (hk : 0 < a.allocationSize) (f : ℕ → α → α) (n : ℕ) :
    ∃ b, a.forEach z f n = some b ∧ b.capacity ≠ 0 ∧ b.allocationSize = a.allocationSize ∧
      ∀ i, b.elts.getD i z = if i < n then f i (a.elts.getD i z) else a.elts.getD i z := by
  induction n with
  | zero => exact ⟨a, rfl, h0, rfl, fun i => (if_neg (Nat.not_lt_zero i)).symm⟩
  | succ n ih =>
    obtain ⟨b, hb, hcap, hsize, helt⟩ := ih
    obtain ⟨c, hc, hcn, hset⟩ := exists_getElt_set (z := z) hcap (hsize ▸ hk) n
    obtain ⟨hcap', hsize', helt'⟩ := hset (f n (a.elts.getD n z))
    have hn : c.elts.getD n z = a.elts.getD n z := by rw [hcn, helt, if_neg (Nat.lt_irrefl n)]
    refine ⟨_, ?_, hcap', hsize'.trans hsize, fun i => ?_⟩
    · rw [forEach] at hb
      rw [forEach, List.range_succ, List.foldlM_append, hb]
      simp only [Option.bind_eq_bind, Option.bind_some, List.foldlM_cons, List.foldlM_nil, Option.pure_def, hc,
        Option.map_some, hn]
    · rw [helt', helt]
      by_cases he : i = n
      · rw [if_pos he, if_pos (by omega), he]
      · rw [if_neg he]
        by_cases hlt : i < n
        · rw [if_pos hlt, if_pos (by omega)]
        · rw [if_neg hlt, if_neg (by omega)]

/-! ### Elements one after the other -/

/-- An array in use that holds `l`, with zeros behind. -/
structure Holds (zero : α) (a : DynArray α) (l : List α) : Prop where
  /-- The elements. -/
  elts : ∃ d, a.elts = l ++ List.replicate d zero
  /-- There is memory. -/
  allocated : a.capacity ≠ 0
  /-- It grows. -/
  grows : 0 < a.allocationSize

/-- A new array holds nothing. -/
theorem holds_alloc (z : α) (hn : 0 < n) : (alloc z n).Holds z [] where
  elts := ⟨n, rfl⟩
  allocated := by
    rw [capacity_alloc]
    omega
  grows := hn

variable {l : List α}

theorem Holds.getD (h : a.Holds z l) (i : ℕ) : a.elts.getD i z = l.getD i z := by
  obtain ⟨d, hd⟩ := h.elts
  rw [hd]
  by_cases hi : i < l.length
  · rw [List.getD_append _ _ _ _ hi]
  · rw [List.getD_append_right _ _ _ _ (by omega), List.getD_eq_default l _ (by omega)]
    simp only [List.getD_eq_getElem?_getD, List.getElem?_replicate]
    split <;> rfl

theorem Holds.take_eq (h : a.Holds z l) : a.elts.take l.length = l := by
  obtain ⟨d, hd⟩ := h.elts
  rw [hd, List.take_left]

/-- **One more element** is written behind the others. -/
theorem Holds.push (h : a.Holds z l) (x : α) :
    ∃ b, a.getElt z l.length = some b ∧ (b.set l.length x).Holds z (l ++ [x]) := by
  obtain ⟨b, hb⟩ := exists_getElt (z := z) h.allocated h.grows l.length
  obtain ⟨hlt, hsize, d, hd⟩ := access_eq_some hb
  obtain ⟨k, hk⟩ := h.elts
  rw [hk, List.append_assoc, List.replicate_append_replicate] at hd
  refine ⟨b, hb, ⟨k + d - 1, ?_⟩, ?_, ?_⟩
  · rw [capacity, hd, List.length_append, List.length_replicate] at hlt
    obtain ⟨e, he⟩ : ∃ e, k + d = e + 1 := ⟨k + d - 1, by omega⟩
    rw [set, hd, he, List.set_append_right _ _ (Nat.le_refl _), Nat.sub_self, List.replicate_succ, List.set_cons_zero,
      List.append_assoc, Nat.add_sub_cancel]
    rfl
  · rw [capacity_set]
    omega
  · rw [allocationSize_set, hsize]
    exact h.grows

end DynArray
