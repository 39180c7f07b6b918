import Mathlib.Data.List.Nodup
import Mathlib.Data.List.Perm.Basic
import Mathlib.Data.Set.Basic

/-!
# Objects that are each on one list

A family of lists among which a set of objects is shared out: `Placed S L` says that every
object of `S` is on exactly one of the lists `L`, once, and that nothing else is on any.

* `Placed.exchange` — two lists share out anew what they hold, with new objects.
* `Placed.move` — an object taken off its list and put on another.
* `Placed.extend` — new objects, all put on one list.
-/

namespace Placement

variable {κ α : Type*}

/-- Every object of `S` is on exactly one list, once, and nothing else is on any. -/
structure Placed (S : Set α) (L : κ → List α) : Prop where
  /-- A list has no object twice. -/
  nodup : ∀ k, (L k).Nodup
  /-- What is on a list is in `S`. -/
  mem : ∀ k, ∀ x ∈ L k, x ∈ S
  /-- An object is on one list. -/
  place : ∀ x ∈ S, ∃! k, x ∈ L k

namespace Placed

variable {S : Set α} {L L' : κ → List α} {x : α} {a b : κ}

theorem unique (h : Placed S L) (ha : x ∈ L a) (hb : x ∈ L b) : a = b :=
  (h.place x (h.mem a x ha)).unique ha hb

theorem not_mem (h : Placed S L) (ha : x ∈ L a) (hab : a ≠ b) : x ∉ L b := fun hb => hab (h.unique ha hb)

/-- The order on a list does not matter. -/
theorem perm (h : Placed S L) (hp : ∀ k, (L' k).Perm (L k)) : Placed S L' := by
  refine ⟨fun k => (hp k).nodup_iff.2 (h.nodup k), fun k y hy => h.mem k y ((hp k).mem_iff.1 hy), fun y hy => ?_⟩
  obtain ⟨k, hk, huniq⟩ := h.place y hy
  exact ⟨k, (hp k).mem_iff.2 hk, fun k' hk' => huniq k' ((hp k').mem_iff.1 hk')⟩

/-- **Two lists share their objects out anew**, with objects that were on none. -/
theorem exchange {S' : Set α} {n : List α} (h : Placed S L) (hab : a ≠ b) (hnew : n.Nodup) (hdisj : ∀ y ∈ n, y ∉ S)
    (hS : ∀ y, y ∈ S' ↔ y ∈ n ∨ y ∈ S) (hp : (L' a ++ L' b).Perm (n ++ (L a ++ L b)))
    (ho : ∀ k, k ≠ a → k ≠ b → L' k = L k) : Placed S' L' := by
  have hold : (L a ++ L b).Nodup :=
    List.nodup_append'.2 ⟨h.nodup a, h.nodup b, fun y hy hy' => hab (h.unique hy hy')⟩
  have hS₂ : ∀ y ∈ L a ++ L b, y ∈ S := fun y hy =>
    (List.mem_append.1 hy).elim (h.mem a y) (h.mem b y)
  have hboth : (L' a ++ L' b).Nodup :=
    hp.nodup_iff.2 (List.nodup_append'.2 ⟨hnew, hold, fun y hy hy' => hdisj y hy (hS₂ y hy')⟩)
  obtain ⟨hna, hnb, hsep⟩ := List.nodup_append'.1 hboth
  -- an object of the two lists is on no third
  have hthird : ∀ y ∈ L' a ++ L' b, ∀ k, y ∈ L' k → k = a ∨ k = b := by
    intro y hy k hk
    by_contra hne
    obtain ⟨hka, hkb⟩ := not_or.1 hne
    rw [ho k hka hkb] at hk
    rcases List.mem_append.1 (hp.mem_iff.1 hy) with hn | hy
    · exact hdisj y hn (h.mem k y hk)
    · rcases List.mem_append.1 hy with hy | hy
      · exact hka (h.unique hk hy)
      · exact hkb (h.unique hk hy)
  refine ⟨fun k => ?_, fun k y hy => ?_, fun y hy => ?_⟩
  · by_cases hka : k = a
    · exact hka ▸ hna
    by_cases hkb : k = b
    · exact hkb ▸ hnb
    rw [ho k hka hkb]
    exact h.nodup k
  · by_cases hk : k = a ∨ k = b
    · have hmem : y ∈ L' a ++ L' b := by
        rcases hk with rfl | rfl
        · exact List.mem_append_left _ hy
        · exact List.mem_append_right _ hy
      rcases List.mem_append.1 (hp.mem_iff.1 hmem) with hn | hy
      · exact (hS y).2 (.inl hn)
      · exact (hS y).2 (.inr (hS₂ y hy))
    · obtain ⟨hka, hkb⟩ := not_or.1 hk
      rw [ho k hka hkb] at hy
      exact (hS y).2 (.inr (h.mem k y hy))
  · by_cases hmem : y ∈ L' a ++ L' b
    · rcases List.mem_append.1 hmem with hy | hy
      · refine ⟨a, hy, fun k hk => (hthird y hmem k hk).resolve_right ?_⟩
        rintro rfl
        exact hsep hy hk
      · refine ⟨b, hy, fun k hk => (hthird y hmem k hk).resolve_left ?_⟩
        rintro rfl
        exact hsep hk hy
    · have hout : y ∉ n ∧ y ∉ L a ++ L b := by
        rw [hp.mem_iff, List.mem_append] at hmem
        exact not_or.1 hmem
      obtain ⟨k, hk, huniq⟩ := h.place y (((hS y).1 hy).resolve_left hout.1)
      have hka : k ≠ a := by
        rintro rfl
        exact hout.2 (List.mem_append_left _ hk)
      have hkb : k ≠ b := by
        rintro rfl
        exact hout.2 (List.mem_append_right _ hk)
      refine ⟨k, by simpa only [ho k hka hkb] using hk, fun k' hk' => huniq k' ?_⟩
      have hne : k' ≠ a ∧ k' ≠ b :=
        ⟨fun e => hmem (List.mem_append_left _ (e ▸ hk')), fun e => hmem (List.mem_append_right _ (e ▸ hk'))⟩
      simpa only [ho k' hne.1 hne.2] using hk'

/-- **An object moves** from one list to another. -/
theorem move [DecidableEq α] (h : Placed S L) (hx : x ∈ L a) (hab : a ≠ b) (ha : L' a = (L a).erase x)
    (hb : (L' b).Perm (x :: L b)) (ho : ∀ k, k ≠ a → k ≠ b → L' k = L k) : Placed S L' := by
  refine h.exchange hab List.nodup_nil (fun y hy => absurd hy List.not_mem_nil) (fun y => by simp) ?_ ho
  have hput : (L' a ++ L' b).Perm ((L a).erase x ++ x :: L b) := by
    rw [ha]
    exact hb.append_left _
  exact hput.trans (List.perm_middle.trans ((List.perm_cons_erase hx).symm.append_right _))

/-- **New objects**, all on one list. -/
theorem extend {S' : Set α} {n : List α} (h : Placed S L) (hnew : n.Nodup) (hdisj : ∀ y ∈ n, y ∉ S)
    (hS : ∀ y, y ∈ S' ↔ y ∈ n ∨ y ∈ S) (hb : (L' b).Perm (n ++ L b)) (ho : ∀ k, k ≠ b → L' k = L k) :
    Placed S' L' := by
  have hmem : ∀ k y, y ∈ L' k ↔ (k = b ∧ y ∈ n) ∨ y ∈ L k := by
    intro k y
    by_cases hk : k = b
    · subst hk
      rw [hb.mem_iff, List.mem_append]
      simp
    · rw [ho k hk]
      simp [hk]
  refine ⟨fun k => ?_, fun k y hy => ?_, fun y hy => ?_⟩
  · by_cases hk : k = b
    · subst hk
      refine hb.nodup_iff.2 (List.nodup_append'.2 ⟨hnew, h.nodup k, fun y hy hy' => ?_⟩)
      exact hdisj y hy (h.mem k y hy')
    · rw [ho k hk]
      exact h.nodup k
  · rcases (hmem k y).1 hy with ⟨-, hn⟩ | hold
    · exact (hS y).2 (.inl hn)
    · exact (hS y).2 (.inr (h.mem k y hold))
  · rcases (hS y).1 hy with hn | hold
    · refine ⟨b, (hmem b y).2 (.inl ⟨rfl, hn⟩), fun k hk => ?_⟩
      rcases (hmem k y).1 hk with ⟨hkb, -⟩ | hk'
      · exact hkb
      · exact absurd (h.mem k y hk') (hdisj y hn)
    · obtain ⟨k, hk, huniq⟩ := h.place y hold
      refine ⟨k, (hmem k y).2 (.inr hk), fun k' hk' => huniq k' ?_⟩
      rcases (hmem k' y).1 hk' with ⟨-, hn⟩ | hk''
      · exact absurd hold (hdisj y hn)
      · exact hk''

end Placed

end Placement
