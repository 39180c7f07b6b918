import Mathlib.Data.Finset.Card
import Mathlib.Data.Finset.Range
import Mathlib.Data.Finset.Sort
import Mathlib.Data.List.GetD

/-!
# Bitsets kept in bytes

A bitset of any size as C keeps it: an array of bytes, bit `i` in bit `i % 8` of
byte `i / 8`. What a bitset stands for is the finite set `bits` of the positions set
in it; setting a bit that exists inserts it there (`bits_set`), and every count of
bits is the size of that set. The scan that looks for the first positions set finds
them in increasing order (`firstBits_eq`).

Nothing checks an index. A bit past the last byte is other memory, and so is what a
scan walks over when there are too few bits: whoever accesses a bitset says with
`hasBit` and `scanEnds` whether the access stays in its bytes. `set`, `test` and
`firstBits` are about the bytes only.
-/

/-- An array of bytes used as a bitset. -/
abbrev Bitset := List (BitVec 8)

namespace Bitset

/-- The byte bit `i` is in. -/
def slot (i : ℕ) : ℕ := i / 8

/-- The byte with only bit `i % 8` set. -/
def mask (i : ℕ) : BitVec 8 := BitVec.twoPow 8 (i % 8)

/-- The number of bytes for `size` bits. -/
def nslots (size : ℕ) : ℕ := (size + 8 - 1) / 8

/-- A bitset of `size` bits, all clear. -/
def create (size : ℕ) : Bitset := List.replicate (nslots size) 0

/-- The number of bits that exist. -/
def capacity (b : Bitset) : ℕ := 8 * b.length

/-- Set bit `i`. -/
def set (b : Bitset) (i : ℕ) : Bitset := b.modify (slot i) (· ||| mask i)

/-- Is bit `i` set? -/
def test (b : Bitset) (i : ℕ) : Bool := b.getD (slot i) 0 &&& mask i != 0

/-- Bit `i` exists. -/
def hasBit (b : Bitset) (i : ℤ) : Bool := decide (0 ≤ i ∧ i < b.capacity)

/-- The positions set in `b`. -/
def bits (b : Bitset) : Finset ℕ := (Finset.range b.capacity).filter fun i => b.test i

/-- The first `n` positions set in `b`, in increasing order: the scan that walks
the bits from `0` and stops when it has found `n`. -/
def firstBits (b : Bitset) (n : ℕ) : List ℕ := ((List.range b.capacity).filter fun i => b.test i).take n

/-- The scan for `n` bits finds them before it walks past the last byte. -/
def scanEnds (b : Bitset) (n : ℕ) : Bool := decide (n ≤ ((List.range b.capacity).filter fun i => b.test i).length)

/-- Bit `i` is set and has number `k` among the bits set, from `0` on. -/
def IsNth (b : Bitset) (k i : ℕ) : Prop := i ∈ b.bits ∧ (b.bits.filter (· < i)).card = k

theorem getLsbD_and_mask (x : BitVec 8) (i k : ℕ) :
    (x &&& mask i).getLsbD k = (x.getLsbD k && decide (i % 8 = k)) := by
  have hi : i % 8 < 8 := Nat.mod_lt _ (by decide)
  rw [BitVec.getLsbD_and, mask, BitVec.getLsbD_twoPow]
  by_cases h : i % 8 = k <;> simp [h]
  omega

theorem and_mask_ne_zero_iff (x : BitVec 8) (i : ℕ) : x &&& mask i ≠ 0 ↔ x.getLsbD (i % 8) = true := by
  constructor
  · intro h
    by_contra hx
    refine h (BitVec.eq_of_getLsbD_eq fun k _ => ?_)
    rw [getLsbD_and_mask]
    by_cases hik : i % 8 = k
    · subst hik; simp [Bool.not_eq_true _ ▸ hx]
    · simp [hik]
  · intro h h0
    have := getLsbD_and_mask x i (i % 8)
    rw [h0, h] at this
    simp at this

theorem test_eq (b : Bitset) (i : ℕ) : b.test i = (b.getD (slot i) 0).getLsbD (i % 8) := by
  rw [Bool.eq_iff_iff, test, bne_iff_ne]
  exact and_mask_ne_zero_iff _ _

@[simp] theorem length_set (b : Bitset) (i : ℕ) : (b.set i).length = b.length := by simp [set]

@[simp] theorem capacity_set (b : Bitset) (i : ℕ) : (b.set i).capacity = b.capacity := by simp [capacity]

theorem le_capacity_create (size : ℕ) : size ≤ (create size).capacity := by
  simp only [capacity, create, List.length_replicate, nslots]; omega

@[simp] theorem test_create (size i : ℕ) : (create size).test i = false := by
  simp [test_eq, create, List.getD_eq_getElem?_getD, List.getElem?_replicate]
  split <;> simp

/-- A bit past the last byte is not set. -/
theorem test_of_capacity_le {b : Bitset} {i : ℕ} (h : b.capacity ≤ i) : b.test i = false := by
  have : b.length ≤ slot i := by simp only [capacity] at h; simp only [slot]; omega
  simp [test_eq, List.getD_eq_getElem?_getD, List.getElem?_eq_none this]

theorem test_set {b : Bitset} {i : ℕ} (hi : i < b.capacity) (j : ℕ) :
    (b.set i).test j = (decide (i = j) || b.test j) := by
  have hs : slot i < b.length := by simp only [capacity] at hi; simp only [slot]; omega
  rw [test_eq, test_eq, set, List.getD_eq_getElem?_getD, List.getD_eq_getElem?_getD, List.getElem?_modify]
  by_cases h : slot i = slot j
  · have hj : slot j < b.length := h ▸ hs
    rw [List.getElem?_eq_getElem hj]
    have hmod : j % 8 < 8 := Nat.mod_lt _ (by decide)
    have hiff : j % 8 = i % 8 ↔ i = j := by simp only [slot] at h; omega
    simp [h, mask, hmod, hiff, Bool.or_comm]
  · have hij : i ≠ j := fun e => h (e ▸ rfl)
    simp [h, hij]

/-- Setting a bit that does not exist changes nothing. -/
theorem set_of_capacity_le {b : Bitset} {i : ℕ} (h : b.capacity ≤ i) : b.set i = b := by
  have : b.length ≤ slot i := by simp only [capacity] at h; simp only [slot]; omega
  exact List.modify_eq_self this

theorem mem_bits {b : Bitset} {i : ℕ} : i ∈ b.bits ↔ b.test i = true := by
  simp only [bits, Finset.mem_filter, Finset.mem_range, and_iff_right_iff_imp]
  intro h
  by_contra hc
  rw [test_of_capacity_le (not_lt.mp hc)] at h
  exact Bool.false_ne_true h

@[simp] theorem bits_create (size : ℕ) : (create size).bits = ∅ := by
  ext i; simp [mem_bits]

theorem bits_subset_range (b : Bitset) : b.bits ⊆ Finset.range b.capacity := Finset.filter_subset _ _

/-- **Setting a bit inserts it.** -/
theorem bits_set {b : Bitset} {i : ℕ} (hi : i < b.capacity) : (b.set i).bits = insert i b.bits := by
  ext j
  rw [mem_bits, test_set hi, Finset.mem_insert, mem_bits, Bool.or_eq_true, decide_eq_true_eq, eq_comm]

/-- **The scan finds the positions in increasing order.** -/
theorem firstBits_eq (b : Bitset) (n : ℕ) : b.firstBits n = b.bits.sort.take n := by
  have hnd : ((List.range b.capacity).filter fun i => b.test i).Nodup := List.nodup_range.filter _
  have hset : ((List.range b.capacity).filter fun i => b.test i).toFinset = b.bits := by
    ext i
    simp only [List.mem_toFinset, List.mem_filter, List.mem_range, bits, Finset.mem_filter, Finset.mem_range]
  have hsorted : ((List.range b.capacity).filter fun i => b.test i).Pairwise (· ≤ ·) :=
    List.pairwise_le_range.filter _
  rw [firstBits, ← hset, (List.toFinset_sort _ hnd).2 hsorted]

/-- **The scan ends exactly when** there are as many bits as it looks for. -/
theorem scanEnds_iff {b : Bitset} {n : ℕ} : b.scanEnds n = true ↔ n ≤ b.bits.card := by
  have hset : ((List.range b.capacity).filter fun i => b.test i).toFinset = b.bits := by
    ext i
    simp only [List.mem_toFinset, List.mem_filter, List.mem_range, bits, Finset.mem_filter, Finset.mem_range]
  rw [scanEnds, decide_eq_true_eq, ← hset, List.toFinset_card_of_nodup (List.nodup_range.filter _)]

theorem length_firstBits (b : Bitset) (n : ℕ) : (b.firstBits n).length = min n b.bits.card := by
  rw [firstBits_eq, List.length_take, Finset.length_sort]

theorem nodup_firstBits (b : Bitset) (n : ℕ) : (b.firstBits n).Nodup := by
  rw [firstBits_eq]
  exact (Finset.sort_nodup _ _).sublist (List.take_sublist _ _)

/-- A scan for as many bits as there are finds all of them. -/
theorem mem_firstBits {b : Bitset} {n : ℕ} (h : b.bits.card ≤ n) {i : ℕ} : i ∈ b.firstBits n ↔ i ∈ b.bits := by
  rw [firstBits_eq, List.take_of_length_le (by rwa [Finset.length_sort]), Finset.mem_sort]

/-- A scan finds the places of some keys in the order of the keys, when the places increase along it. -/
theorem firstBits_of_image {α : Type*} {f : α → ℕ} {l : List α} (h : l.Pairwise fun x y => f x < f y) {b : Bitset} {n : ℕ}
    (hb : b.bits = (l.map f).toFinset) (hn : l.length ≤ n) : b.firstBits n = l.map f := by
  have hlt : (l.map f).Pairwise (· < ·) := List.pairwise_map.2 h
  rw [firstBits_eq, hb, (List.toFinset_sort _ (hlt.imp fun hxy => hxy.ne)).2 (hlt.imp fun hxy => hxy.le)]
  exact List.take_of_length_le (by rwa [List.length_map])

/-- When the first bits are `0`, `1` and so on, their numbers are theirs. -/
theorem isNth_of_prefix {b : Bitset} {n k : ℕ} (h : ∀ i < n, b.test i = true) (hk : k < n) : b.IsNth k k := by
  have hf : b.bits.filter (· < k) = Finset.range k := by
    ext i
    rw [Finset.mem_filter, Finset.mem_range, and_iff_right_iff_imp]
    exact fun hi => mem_bits.2 (h i (hi.trans hk))
  exact ⟨mem_bits.2 (h k hk), by rw [hf, Finset.card_range]⟩

end Bitset
