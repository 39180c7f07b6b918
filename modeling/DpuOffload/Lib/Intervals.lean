import Mathlib.Data.List.Basic

/-!
# Consecutive intervals

A list of intervals of numbers, each with its least and its largest number, is consecutive when each
begins behind the one before. The first interval with a number is searched from the front.

* `consecutive_append` — one more interval behind the others.
* `find_isSome` — **a number is in one of them** exactly when it is below their end.
* `find_append` — what is found stays when one is added.
* `consecutive_iff` — consecutive, by positions.
-/

namespace Intervals

/-- Each interval begins behind the one before, the first at `lo`. -/
def Consecutive : ℕ → List (ℕ × ℕ) → Prop
  | _, [] => True
  | lo, I :: l => I.1 = lo ∧ lo ≤ I.2 ∧ Consecutive (I.2 + 1) l

instance decidableConsecutive : (lo : ℕ) → (l : List (ℕ × ℕ)) → Decidable (Consecutive lo l)
  | _, [] => isTrue trivial
  | lo, I :: l =>
    have := decidableConsecutive (I.2 + 1) l
    inferInstanceAs (Decidable (I.1 = lo ∧ lo ≤ I.2 ∧ Consecutive (I.2 + 1) l))

/-- The number behind the intervals. -/
def next : ℕ → List (ℕ × ℕ) → ℕ
  | lo, [] => lo
  | _, I :: l => next (I.2 + 1) l

/-- Is the number in the interval? -/
def has (x : ℕ) (I : ℕ × ℕ) : Bool := I.1 ≤ x && x ≤ I.2

/-- The first interval with the number. -/
def find (x : ℕ) (l : List (ℕ × ℕ)) : Option ℕ := l.findIdx? (has x)

variable {lo x i : ℕ} {l : List (ℕ × ℕ)} {I : ℕ × ℕ}

theorem has_iff : has x I = true ↔ I.1 ≤ x ∧ x ≤ I.2 := by simp [has]

theorem next_append (lo : ℕ) (l : List (ℕ × ℕ)) (I : ℕ × ℕ) : next lo (l ++ [I]) = I.2 + 1 := by
  induction l generalizing lo with
  | nil => rfl
  | cons J l ih => exact ih _

theorem next_eq (lo : ℕ) (hne : l ≠ []) : next lo l = (l.getLast hne).2 + 1 := by
  obtain ⟨l', I, rfl⟩ := List.eq_nil_or_concat l |>.resolve_left hne
  simp [next_append]

theorem le_next (h : Consecutive lo l) : lo ≤ next lo l := by
  induction l generalizing lo with
  | nil => exact Nat.le_refl lo
  | cons J l ih => exact Nat.le_trans (Nat.le_trans h.2.1 (Nat.le_succ _)) (ih h.2.2)

/-- An interval ends before the end of them all. -/
theorem lt_next (h : Consecutive lo l) (hI : I ∈ l) : I.2 < next lo l := by
  induction l generalizing lo with
  | nil => cases hI
  | cons J l ih =>
    obtain rfl | hI := List.mem_cons.1 hI
    · exact le_next h.2.2
    · exact ih h.2.2 hI

/-- **One more interval.** -/
theorem consecutive_append :
    Consecutive lo (l ++ [I]) ↔ Consecutive lo l ∧ I.1 = next lo l ∧ next lo l ≤ I.2 := by
  induction l generalizing lo with
  | nil => simp [Consecutive, next]
  | cons J l ih => simp [Consecutive, next, ih, and_assoc]

/-- **A number is in one of the intervals** exactly when it is below their end. -/
theorem find_isSome (h : Consecutive lo l) (hx : lo ≤ x) : (find x l).isSome = true ↔ x < next lo l := by
  induction l generalizing lo with
  | nil => simp [find, next, hx]
  | cons J l ih =>
    obtain ⟨hlo, hle, hl⟩ := h
    have hend : J.2 + 1 ≤ next (J.2 + 1) l := le_next hl
    rw [find, List.findIdx?_cons]
    cases hhas : has x J with
    | true =>
      have hJ : x ≤ J.2 := (has_iff.1 hhas).2
      simp only [if_true, Option.isSome_some, next, true_iff]
      omega
    | false =>
      have hJ : ¬ (J.1 ≤ x ∧ x ≤ J.2) := fun h => by simp [has_iff.2 h] at hhas
      rw [next, ← ih hl (by omega), find]
      simp

theorem find_eq_none (h : Consecutive lo l) (hx : lo ≤ x) : find x l = none ↔ next lo l ≤ x := by
  rw [← Option.not_isSome_iff_eq_none, find_isSome h hx, Nat.not_lt]

/-- **What is found stays** when an interval is added. -/
theorem find_append (h : find x l = some i) (l' : List (ℕ × ℕ)) : find x (l ++ l') = some i := by
  rw [find, List.findIdx?_append, ← find, h]
  rfl

/-- The interval that was added is found for its numbers. -/
theorem find_append_new (h : Consecutive lo l) (hx : next lo l ≤ x) (hlo : I.1 ≤ x) (hhi : x ≤ I.2) :
    find x (l ++ [I]) = some l.length := by
  have hnone : find x l = none := (find_eq_none h (Nat.le_trans (le_next h) hx)).2 hx
  have hnew : has x I = true := has_iff.2 ⟨hlo, hhi⟩
  rw [find] at hnone
  rw [find, List.findIdx?_append, hnone]
  simp [hnew]

/-- What is found has the number. -/
theorem find_eq_some (h : find x l = some i) : ∃ hi : i < l.length, l[i].1 ≤ x ∧ x ≤ l[i].2 := by
  obtain ⟨hi, hhas, -⟩ := List.findIdx?_eq_some_iff_getElem.1 h
  exact ⟨hi, has_iff.1 hhas⟩

/-- **Consecutive, by positions.** -/
theorem consecutive_iff : Consecutive lo l ↔ (∀ I ∈ l.head?, I.1 = lo) ∧ (∀ I ∈ l, I.1 ≤ I.2) ∧
    ∀ (i : ℕ) (hi : i + 1 < l.length), l[i + 1].1 = l[i].2 + 1 := by
  induction l generalizing lo with
  | nil => simp [Consecutive]
  | cons J l ih =>
    rw [Consecutive, ih]
    constructor
    · rintro ⟨hlo, hle, hhead, hmem, hstep⟩
      refine ⟨by simpa using hlo, ?_, fun i hi => ?_⟩
      · intro K hK
        obtain rfl | hK := List.mem_cons.1 hK
        · rw [hlo]
          exact hle
        · exact hmem K hK
      · cases i with
        | zero =>
          have hpos : 0 < l.length := Nat.lt_of_succ_lt_succ hi
          exact hhead _ (by simp [List.head?_eq_getElem?, hpos])
        | succ i => exact hstep i (Nat.lt_of_succ_lt_succ hi)
    · rintro ⟨hhead, hmem, hstep⟩
      have hlo : J.1 = lo := hhead J rfl
      refine ⟨hlo, hlo ▸ hmem J List.mem_cons_self, fun K hK => ?_, fun K hK => hmem K (List.mem_cons_of_mem _ hK),
        fun i hi => hstep (i + 1) (Nat.succ_lt_succ hi)⟩
      cases l with
      | nil => cases hK
      | cons K' l =>
        cases hK
        exact hstep 0 (by simp)

end Intervals
