import Mathlib.Algebra.Group.Nat.Defs
import Mathlib.Data.List.Basic

/-!
# Words and blocks of memory

A word is kept in memory as eight bytes, the least significant first (`Bytes.ofWord`). A block is
the list of what it holds; it is read and written from an offset, within its bounds only
(`Block.read`, `Block.write`).

* `Bytes.toWord_ofWord` — a word is read as it was written.
* `Block.write_append` — a write behind what has been written.
* `Block.read_append` — a part is read at its own offset.
* `Block.read_flatMap_range` — of parts that follow one another, each is read at its place.
* `Block.read_flatten`, `Block.write_flatten` — an array of parts of one size.
-/

namespace Bytes

/-- The number that bytes stand for. -/
def toNat : List UInt8 → ℕ
  | [] => 0
  | b :: bs => b.toNat + 256 * toNat bs

/-- The `k` lowest bytes of a number. -/
def ofNat : ℕ → ℕ → List UInt8
  | 0, _ => []
  | k + 1, n => UInt8.ofNat n :: ofNat k (n / 256)

/-- A word in memory. -/
def ofWord (w : UInt64) : List UInt8 := ofNat 8 w.toNat

/-- The word in memory. -/
def toWord (bs : List UInt8) : UInt64 := UInt64.ofNat (toNat bs)

@[simp] theorem length_ofNat (k n : ℕ) : (ofNat k n).length = k := by
  induction k generalizing n with
  | zero => rfl
  | succ k ih => rw [ofNat, List.length_cons, ih]

@[simp] theorem length_ofWord (w : UInt64) : (ofWord w).length = 8 := length_ofNat 8 _

theorem toNat_ofNat (k n : ℕ) : toNat (ofNat k n) = n % 256 ^ k := by
  induction k generalizing n with
  | zero => rw [ofNat, toNat, Nat.pow_zero, Nat.mod_one]
  | succ k ih =>
    calc toNat (ofNat (k + 1) n) = n % 256 + 256 * (n / 256 % 256 ^ k) := by
          rw [ofNat, toNat, ih, UInt8.toNat_ofNat']
      _ = n % (256 * 256 ^ k) := Nat.mod_mul.symm
      _ = n % 256 ^ (k + 1) := by rw [Nat.pow_succ']

/-- **A word is read as it was written.** -/
theorem toWord_ofWord (w : UInt64) : toWord (ofWord w) = w := by
  have hw : w.toNat % 256 ^ 8 = w.toNat := Nat.mod_eq_of_lt w.toNat_lt
  rw [toWord, ofWord, toNat_ofNat, hw, UInt64.ofNat_toNat]

end Bytes

namespace Block

variable {α : Type*}

/-- `n` elements from an offset on. -/
def read (mem : List α) (offset n : ℕ) : Option (List α) :=
  if offset + n ≤ mem.length then some ((mem.drop offset).take n) else none

/-- Elements are written from an offset on. -/
def write (mem : List α) (offset : ℕ) (bs : List α) : Option (List α) :=
  if offset + bs.length ≤ mem.length then some (mem.take offset ++ bs ++ mem.drop (offset + bs.length)) else none

/-- **A write behind what has been written.** -/
theorem write_append (out : List α) {bs rest : List α} (h : bs.length ≤ rest.length) :
    write (out ++ rest) out.length bs = some ((out ++ bs) ++ rest.drop bs.length) := by
  rw [write, List.length_append, if_pos (Nat.add_le_add_left h _), List.take_left, List.drop_length_add_append]

/-- **A part is read at its own offset.** -/
theorem read_append (a b c : List α) : read (a ++ b ++ c) a.length b.length = some b := by
  rw [read, if_pos (by simp only [List.length_append]; omega), List.append_assoc, List.drop_left, List.take_left]

/-- As much is read as was asked for. -/
theorem length_read {mem bs : List α} {offset n : ℕ} (h : read mem offset n = some bs) : bs.length = n := by
  obtain ⟨hle, hbs⟩ := Option.ite_none_right_eq_some.1 h
  cases hbs
  rw [List.length_take, List.length_drop]
  omega

/-- What a pointer into a block points to is read from its offset. -/
theorem read_drop {mem bs : List α} {offset n : ℕ} (h : read mem offset n = some bs) :
    read (mem.drop offset) 0 n = some bs := by
  obtain ⟨hle, hbs⟩ := Option.ite_none_right_eq_some.1 h
  rw [read, if_pos (by rw [List.length_drop]; omega), List.drop_zero]
  exact hbs

/-- **Each part has its place** among parts that follow one another. -/
theorem flatMap_range (g : ℕ → List α) {i n : ℕ} (h : i < n) :
    ∃ c, (List.range n).flatMap g = (List.range i).flatMap g ++ g i ++ c := by
  obtain ⟨k, rfl⟩ : ∃ k, n = (i + 1) + k := ⟨n - (i + 1), by omega⟩
  rw [List.range_add, List.flatMap_append, List.range_succ, List.flatMap_append, List.flatMap_singleton]
  exact ⟨_, rfl⟩

/-- A part is read behind those before it. -/
theorem read_flatMap_range (a c : List α) (g : ℕ → List α) {i n : ℕ} (h : i < n) :
    read (a ++ (List.range n).flatMap g ++ c) (a.length + ((List.range i).flatMap g).length) (g i).length =
      some (g i) := by
  obtain ⟨d, hd⟩ := flatMap_range g h
  have hmem : a ++ (List.range n).flatMap g ++ c = (a ++ (List.range i).flatMap g) ++ g i ++ (d ++ c) := by
    rw [hd]
    simp only [List.append_assoc]
  rw [hmem, ← List.length_append]
  exact read_append _ _ _

/-- One more part. -/
theorem length_flatMap_range_succ (g : ℕ → List α) (n : ℕ) :
    ((List.range (n + 1)).flatMap g).length = ((List.range n).flatMap g).length + (g n).length := by
  rw [List.range_succ, List.flatMap_append, List.flatMap_singleton, List.length_append]

/-- **An element of an array** is read at its place. -/
theorem read_flatten {l : List (List α)} {n : ℕ} (h : ∀ e ∈ l, e.length = n) {i : ℕ} (hi : i < l.length) :
    read l.flatten (i * n) n = some (l.getD i []) := by
  induction l generalizing i with
  | nil => cases hi
  | cons e l ih =>
    have he : e.length = n := h e List.mem_cons_self
    cases i with
    | zero =>
      have hread := read_append [] e l.flatten
      rw [List.nil_append, he] at hread
      simpa using hread
    | succ i =>
      have hrest := ih (fun e' he' => h e' (List.mem_cons_of_mem _ he')) (Nat.lt_of_succ_lt_succ hi)
      have hoff : (i + 1) * n = e.length + i * n := by rw [he, Nat.succ_mul, Nat.add_comm]
      rw [read] at hrest ⊢
      rw [hoff, List.flatten_cons, List.length_append, ← List.drop_drop, List.drop_left, List.getD_cons_succ, ← hrest]
      simp only [Nat.add_assoc, Nat.add_le_add_iff_left]

/-- **An element of an array** is written at its place. -/
theorem write_flatten {l : List (List α)} {n : ℕ} (h : ∀ e ∈ l, e.length = n) {i : ℕ} (hi : i < l.length)
    {x : List α} (hx : x.length = n) : write l.flatten (i * n) x = some (l.set i x).flatten := by
  induction l generalizing i with
  | nil => cases hi
  | cons e l ih =>
    have he : e.length = n := h e List.mem_cons_self
    cases i with
    | zero => simp [write, hx, ← he]
    | succ i =>
      have hrest := ih (fun e' he' => h e' (List.mem_cons_of_mem _ he')) (Nat.lt_of_succ_lt_succ hi)
      have hoff : (i + 1) * n = e.length + i * n := by rw [he, Nat.succ_mul, Nat.add_comm]
      obtain ⟨hle, hw⟩ := Option.ite_none_right_eq_some.1 hrest
      have hroom : e.length + i * n + x.length ≤ (e :: l).flatten.length := by
        rw [List.flatten_cons, List.length_append]
        omega
      rw [write, hoff, if_pos hroom, List.set_cons_succ, List.flatten_cons, List.flatten_cons, ← Option.some.inj hw,
        List.take_length_add_append, Nat.add_assoc, List.drop_length_add_append]
      simp only [List.append_assoc]

end Block
