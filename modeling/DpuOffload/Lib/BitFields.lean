import Mathlib.Data.BitVec

/-!
# Fields of a word

A word is put together of fields: each is shifted to its place and the results are joined by
`|||`. A field is read at its place, with its width.

* `extract_word` — **where fields are apart, each is read as it was put.**
* `extract_word_of_apart` — and what is apart from all of them is zero.
-/

namespace BitFields

variable {n w w' off off' : ℕ}

/-- A value at its place, in a word of `n` bits. -/
def place (n off : ℕ) (x : BitVec w) : BitVec n := x.setWidth n <<< off

/-- What `w` bits at a place of a word are. -/
def extract (w off : ℕ) (x : BitVec n) : BitVec w := x.extractLsb' off w

/-- What is read of two parts is read of each. -/
@[simp] theorem extract_or (x y : BitVec n) : extract w off (x ||| y) = extract w off x ||| extract w off y := by
  ext i hi
  simp [extract]

@[simp] theorem extract_zero : extract w off (0#n) = 0#w := by
  ext i hi
  simp [extract]

theorem extract_place_self (x : BitVec w) (h : off + w ≤ n) : extract w off (place n off x) = x := by
  ext i hi
  have hlt : off + i < n := by omega
  have hge : ¬ off + i < off := by omega
  simp [extract, place, hlt, hge, BitVec.getLsbD_eq_getElem hi]

theorem extract_place_of_disjoint (x : BitVec w') (h : off' + w' ≤ off ∨ off + w ≤ off') :
    extract w off (place n off' x) = 0#w := by
  ext i hi
  simp only [extract, place, BitVec.getElem_extractLsb', BitVec.getLsbD_shiftLeft, BitVec.getLsbD_setWidth,
    BitVec.getElem_zero, Bool.and_eq_false_iff]
  by_cases hlt : off + i < off'
  · simp [hlt]
  · right
    right
    exact BitVec.getLsbD_of_ge x _ (by omega)

/-- A field: its width, its place and its value. -/
structure Field where
  /-- The width. -/
  width : ℕ
  /-- The place. -/
  off : ℕ
  /-- The value. -/
  val : BitVec width

/-- Two fields have no bit in common. -/
def Field.Apart (f g : Field) : Prop := f.off + f.width ≤ g.off ∨ g.off + g.width ≤ f.off

instance (f g : Field) : Decidable (f.Apart g) := inferInstanceAs (Decidable (_ ∨ _))

theorem Field.Apart.symm {f g : Field} (h : f.Apart g) : g.Apart f := Or.symm h

/-- The word of some fields. -/
def word (n : ℕ) (fs : List Field) : BitVec n := fs.foldr (fun f x => place n f.off f.val ||| x) 0#n

variable {f : Field} {fs : List Field}

/-- **What is apart from all fields is zero.** -/
theorem extract_word_of_apart (h : ∀ g ∈ fs, f.Apart g) : extract f.width f.off (word n fs) = 0#f.width := by
  induction fs with
  | nil => simp [word]
  | cons g fs ih =>
    have hg : extract f.width f.off (place n g.off g.val) = 0#f.width :=
      extract_place_of_disjoint g.val (h g List.mem_cons_self).symm
    have hfs : extract f.width f.off (word n fs) = 0#f.width := ih fun g' hg' => h g' (List.mem_cons_of_mem _ hg')
    rw [word] at hfs
    simp [word, hg, hfs]

/-- **Each field is read as it was put**, where they are apart. -/
theorem extract_word (hfs : fs.Pairwise Field.Apart) (hf : f ∈ fs) (hn : f.off + f.width ≤ n) :
    extract f.width f.off (word n fs) = f.val := by
  induction fs with
  | nil => cases hf
  | cons g fs ih =>
    obtain ⟨hg, hfs⟩ := List.pairwise_cons.1 hfs
    simp only [word, List.foldr_cons, extract_or]
    cases hf with
    | head =>
      have hrest : extract f.width f.off (word n fs) = 0#f.width := extract_word_of_apart hg
      rw [word] at hrest
      simp [hrest, extract_place_self f.val hn]
    | tail _ hf =>
      have hrest : extract f.width f.off (word n fs) = f.val := ih hfs hf
      rw [word] at hrest
      simp [hrest, extract_place_of_disjoint g.val (hg f hf)]

end BitFields
