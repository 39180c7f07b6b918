import Mathlib.Data.Finset.Sort

/-!
# The rank of an element in a finite set

In a finite set of a linear order an element is numbered by how many elements of the set are
below it.

* `strictMonoOn_rank`, `bijOn_rank` — the elements are numbered in order from `0` on, without a gap.
* `eqOn_rank` — there is no other such numbering.
* `idxOf_sort`, `getElem?_sort` — the number of an element is its place in the sorted list.
* `rank_filter_lt` — the elements below a bound keep their numbers.
* `rank_range` — the first numbers are their own numbers.
* `rank_succ` — one number on, the rank grows by one or stays.
-/

namespace Rank

variable {α : Type*} [LinearOrder α] {S : Finset α} {x y : α}

/-- How many elements of `S` are below `x`. -/
def rank (S : Finset α) (x : α) : ℕ := (S.filter (· < x)).card

theorem rank_lt_rank (hx : x ∈ S) (hxy : x < y) : rank S x < rank S y := by
  refine Finset.card_lt_card (Finset.ssubset_iff_of_subset ?_ |>.2 ⟨x, ?_, ?_⟩)
  · intro z hz
    obtain ⟨hz, hzx⟩ := Finset.mem_filter.1 hz
    exact Finset.mem_filter.2 ⟨hz, hzx.trans hxy⟩
  · exact Finset.mem_filter.2 ⟨hx, hxy⟩
  · exact fun h => lt_irrefl x (Finset.mem_filter.1 h).2

/-- **The elements are numbered in order.** -/
theorem strictMonoOn_rank (S : Finset α) : StrictMonoOn (rank S) S := fun _ hx _ _ hxy => rank_lt_rank hx hxy

theorem rank_lt_card (hx : x ∈ S) : rank S x < S.card := by
  refine Finset.card_lt_card (Finset.ssubset_iff_of_subset (Finset.filter_subset _ _) |>.2 ⟨x, hx, fun h => ?_⟩)
  exact lt_irrefl x (Finset.mem_filter.1 h).2

theorem rank_le_card (S : Finset α) (x : α) : rank S x ≤ S.card := Finset.card_le_card (Finset.filter_subset _ _)

/-- **Every number below the size is taken.** -/
theorem exists_rank_eq {k : ℕ} (hk : k < S.card) : ∃ x ∈ S, rank S x = k := by
  have himage : S.image (rank S) = Finset.range S.card := by
    refine Finset.eq_of_subset_of_card_le ?_ ?_
    · intro i hi
      obtain ⟨x, hx, rfl⟩ := Finset.mem_image.1 hi
      exact Finset.mem_range.2 (rank_lt_card hx)
    · rw [Finset.card_range, Finset.card_image_of_injOn (strictMonoOn_rank S).injOn]
  have hmem : k ∈ S.image (rank S) := himage ▸ Finset.mem_range.2 hk
  exact Finset.mem_image.1 hmem

/-- **The elements are numbered from `0` on, without a gap.** -/
theorem bijOn_rank (S : Finset α) : Set.BijOn (rank S) S (Set.Iio S.card) := by
  refine ⟨fun x hx => rank_lt_card hx, (strictMonoOn_rank S).injOn, fun k hk => ?_⟩
  obtain ⟨x, hx, rfl⟩ := exists_rank_eq hk
  exact ⟨x, hx, rfl⟩

/-- **There is no other numbering** in order from `0` on. -/
theorem eqOn_rank {f : α → ℕ} {k : ℕ} (hf : StrictMonoOn f S) (hb : Set.BijOn f S (Set.Iio k)) (hx : x ∈ S) : f x = rank S x := by
  have himage : (S.filter (· < x)).image f = Finset.range (f x) := by
    ext i
    rw [Finset.mem_image, Finset.mem_range]
    constructor
    · rintro ⟨y, hy, rfl⟩
      obtain ⟨hy, hyx⟩ := Finset.mem_filter.1 hy
      exact hf hy hx hyx
    · intro hi
      obtain ⟨y, hy, rfl⟩ := hb.surjOn (hi.trans (hb.mapsTo hx))
      exact ⟨y, Finset.mem_filter.2 ⟨hy, (hf.lt_iff_lt hy hx).1 hi⟩, rfl⟩
  have hcard := congrArg Finset.card himage
  rw [Finset.card_range, Finset.card_image_of_injOn] at hcard
  · exact hcard.symm
  · exact fun y hy z hz => hb.injOn (Finset.mem_filter.1 hy).1 (Finset.mem_filter.1 hz).1

/-- In an increasing list an element comes after those below it. -/
theorem idxOf_eq_length_filter {l : List α} (hl : l.Pairwise (· < ·)) (hx : x ∈ l) :
    l.idxOf x = (l.filter (· < x)).length := by
  induction l with
  | nil => exact absurd hx List.not_mem_nil
  | cons a l ih =>
    obtain ⟨ha, hl⟩ := List.pairwise_cons.1 hl
    by_cases hax : a = x
    · subst hax
      have hnil : l.filter (· < a) = [] := List.filter_eq_nil_iff.2 fun b hb => by simpa using (ha b hb).le
      simp [hnil]
    · have hx : x ∈ l := (List.mem_cons.1 hx).resolve_left (Ne.symm hax)
      have hkeep : (a :: l).filter (· < x) = a :: l.filter (· < x) := List.filter_cons_of_pos (by simpa using ha x hx)
      rw [List.idxOf_cons_ne _ hax, ih hl hx, hkeep, List.length_cons]

theorem idxOf_sort (hx : x ∈ S) : S.sort.idxOf x = rank S x := by
  rw [idxOf_eq_length_filter (S.sortedLT_sort.pairwise) ((Finset.mem_sort _).2 hx), rank]
  rw [← List.toFinset_card_of_nodup ((S.sort_nodup _).filter _), List.toFinset_filter, Finset.sort_toFinset]
  simp

/-- The sorted list has each element at its number. -/
theorem getElem?_sort {k : ℕ} : S.sort[k]? = some x ↔ x ∈ S ∧ rank S x = k := by
  constructor
  · intro h
    have hmem : x ∈ S := (Finset.mem_sort _).1 (List.mem_of_getElem? h)
    obtain ⟨hk, hx⟩ := List.getElem?_eq_some_iff.1 h
    refine ⟨hmem, ?_⟩
    rw [← idxOf_sort hmem, ← hx]
    exact (S.sort_nodup _).idxOf_getElem k hk
  · rintro ⟨hmem, rfl⟩
    rw [← idxOf_sort hmem]
    exact List.getElem?_idxOf ((Finset.mem_sort _).2 hmem)

/-- Elements below a bound keep their numbers when the others go. -/
theorem rank_filter_lt {b : α} (hx : x ≤ b) : rank (S.filter (· < b)) x = rank S x := by
  rw [rank, rank, Finset.filter_filter]
  refine congrArg Finset.card (Finset.filter_congr fun y _ => ?_)
  exact ⟨fun h => h.2, fun h => ⟨h.trans_le hx, h⟩⟩

/-- Of the first numbers each is its own number. -/
theorem rank_range {n x : ℕ} (hx : x ≤ n) : rank (Finset.range n) x = x := by
  have hstep : (Finset.range n).filter (· < x) = Finset.range x := by
    ext i
    simp only [Finset.mem_filter, Finset.mem_range]
    omega
  rw [rank, hstep, Finset.card_range]

@[simp] theorem rank_zero (S : Finset ℕ) : rank S 0 = 0 := by simp [rank]

/-- The next number, for numbers. -/
theorem rank_succ (S : Finset ℕ) (n : ℕ) : rank S (n + 1) = rank S n + if n ∈ S then 1 else 0 := by
  have hstep : S.filter (· < n + 1) = if n ∈ S then insert n (S.filter (· < n)) else S.filter (· < n) := by
    ext i
    split <;> simp only [Finset.mem_filter, Finset.mem_insert] <;> grind
  rw [rank, rank, hstep]
  split
  · rw [Finset.card_insert_of_notMem (by simp)]
  · rfl

end Rank
