import Mathlib.Data.Finset.Card
import Mathlib.Data.List.Count
import Mathlib.Data.List.GetD

/-!
# Counting the elements of a list

How the number of elements with a property changes when one element does
(`countP_set_add`) or the property at one element (`countP_change`), what it says when these
elements come first (`lt_countP_iff`), and when all that there can be are in the list
(`countP_eq_card_iff`).
-/

namespace Counting

variable {α : Type*} {p : α → Bool} {d : α} {l : List α}

/-- The count once one element has changed. -/
theorem countP_set_add (p : α → Bool) (d : α) {i : ℕ} (h : i < l.length) (a : α) :
    (l.set i a).countP p + (if p (l.getD i d) then 1 else 0) = l.countP p + if p a then 1 else 0 := by
  have hs : l.getD i d = l[i] := List.getD_eq_getElem _ _ h
  rw [List.countP_set h, hs]
  by_cases hp : p l[i] = true
  · have hpos : 0 < l.countP p := List.countP_pos_iff.2 ⟨_, List.getElem_mem h, hp⟩
    simp only [hp, if_true]
    omega
  · simp only [hp, Bool.false_eq_true, if_false]
    omega

/-- The count when the property has changed at one element. -/
theorem countP_change [DecidableEq α] {q : α → Bool} {a : α} (hl : l.Nodup) (ha : a ∈ l)
    (h : ∀ x, x ≠ a → p x = q x) : l.countP p + (if q a then 1 else 0) = l.countP q + if p a then 1 else 0 := by
  have hperm := List.perm_cons_erase ha
  have hrest : (l.erase a).countP p = (l.erase a).countP q := by
    refine List.countP_congr fun x hx => ?_
    rw [h x fun hxa => hl.not_mem_erase (hxa ▸ hx)]
  rw [hperm.countP_eq p, hperm.countP_eq q, List.countP_cons, List.countP_cons, hrest]
  omega

/-- When the elements with a property come first, the number of them tells which they are. -/
theorem lt_countP_iff (hd : p d = false)
    (h : ∀ i j, i < j → p (l.getD j d) = true → p (l.getD i d) = true) (i : ℕ) :
    i < l.countP p ↔ p (l.getD i d) = true := by
  induction l generalizing i with
  | nil => simp [hd]
  | cons a l ih =>
    have hl : ∀ i j, i < j → p (l.getD j d) = true → p (l.getD i d) = true := by
      intro i j hij hj
      have := h (i + 1) (j + 1) (Nat.succ_lt_succ hij)
      simpa using this hj
    by_cases ha : p a = true
    · rw [List.countP_cons_of_pos ha]
      cases i with
      | zero => simp [ha]
      | succ i => simpa using ih hl i
    · have hno : ∀ j, p (l.getD j d) = false := by
        intro j
        by_contra hj
        have := h 0 (j + 1) (Nat.succ_pos j)
        rw [Bool.not_eq_false] at hj
        exact ha (by simpa using this hj)
      have hzero : l.countP p = 0 := by
        by_contra hpos
        have := (ih hl 0).1 (Nat.pos_of_ne_zero hpos)
        rw [hno 0] at this
        cases this
      rw [List.countP_cons_of_neg ha, hzero]
      cases i with
      | zero => simpa using ha
      | succ i => simpa using hno i

/-- The elements with a property, none of them twice, are all there are when their number says so. -/
theorem countP_eq_card_iff [DecidableEq α] {F : Finset α} (hl : l.Nodup) (h : ∀ x ∈ l, p x = true → x ∈ F)
    (hF : ∀ x ∈ F, p x = true) : l.countP p ≤ F.card ∧ (l.countP p = F.card ↔ ∀ x ∈ F, x ∈ l) := by
  have hcard : (l.filter p).toFinset.card = l.countP p := by
    rw [List.toFinset_card_of_nodup (hl.filter _), List.countP_eq_length_filter]
  have hsub : (l.filter p).toFinset ⊆ F := by
    intro x hx
    rw [List.mem_toFinset, List.mem_filter] at hx
    exact h x hx.1 hx.2
  rw [← hcard]
  refine ⟨Finset.card_le_card hsub, fun he x hx => ?_, fun hall => ?_⟩
  · rw [← Finset.eq_of_subset_of_card_le hsub he.ge, List.mem_toFinset, List.mem_filter] at hx
    exact hx.1
  · congr 1
    refine hsub.antisymm fun x hx => ?_
    rw [List.mem_toFinset, List.mem_filter]
    exact ⟨hall x hx, hF x hx⟩

end Counting
