import Mathlib.Data.List.Basic
import Mathlib.Data.List.Pairwise
import Mathlib.Data.List.Perm.Basic

/-!
# Pieces of memory

Memory comes in segments, each allocated at once and with a size of its own. An extent is a
piece of one segment. Extents are packed into the segments when each is inside its segment
and no two overlap (`Packed`); that does not depend on the order in which they are listed.

* `packed_carve` — cutting a stretch of a segment into pieces of one size.
* `Packed.append` — putting together what is in different places.
* `Packed.grow` — a new segment does no harm to the old ones.
-/

/-- A piece of a segment. -/
@[ext]
structure Extent where
  /-- The segment. -/
  seg : ℕ
  /-- Where the piece starts. -/
  off : ℕ
  /-- How long it is. -/
  size : ℕ
  deriving DecidableEq, Repr

namespace Extent

/-- No byte is in both. -/
def Apart (a b : Extent) : Prop := a.seg ≠ b.seg ∨ a.off + a.size ≤ b.off ∨ b.off + b.size ≤ a.off

/-- The piece is inside its segment; `mems` has the sizes of the segments. -/
def Inside (mems : List ℕ) (a : Extent) : Prop := ∃ m, mems[a.seg]? = some m ∧ a.off + a.size ≤ m

theorem Apart.symm {a b : Extent} (h : a.Apart b) : b.Apart a := by
  rcases h with h | h | h
  · exact .inl h.symm
  · exact .inr (.inr h)
  · exact .inr (.inl h)

theorem Inside.grow {mems : List ℕ} {a : Extent} (h : a.Inside mems) (m : ℕ) : a.Inside (mems ++ [m]) := by
  obtain ⟨k, hk, hle⟩ := h
  have hlt : a.seg < mems.length := (List.getElem?_eq_some_iff.1 hk).1
  exact ⟨k, (List.getElem?_append_left hlt).trans hk, hle⟩

theorem Inside.seg_lt {mems : List ℕ} {a : Extent} (h : a.Inside mems) : a.seg < mems.length := by
  obtain ⟨k, hk, -⟩ := h
  exact (List.getElem?_eq_some_iff.1 hk).1

/-- The extents are inside their segments and apart from each other. -/
structure Packed (mems : List ℕ) (l : List Extent) : Prop where
  /-- Inside. -/
  inside : ∀ a ∈ l, a.Inside mems
  /-- Apart. -/
  apart : l.Pairwise Apart

theorem Packed.nil (mems : List ℕ) : Packed mems [] := ⟨fun _ h => absurd h List.not_mem_nil, List.Pairwise.nil⟩

theorem Packed.perm {mems : List ℕ} {l l' : List Extent} (h : Packed mems l) (hp : l.Perm l') : Packed mems l' where
  inside a ha := h.inside a (hp.mem_iff.2 ha)
  apart := hp.pairwise h.apart fun hab => hab.symm

theorem Packed.append {mems : List ℕ} {l l' : List Extent} (h : Packed mems l) (h' : Packed mems l')
    (hd : ∀ a ∈ l, ∀ b ∈ l', a.Apart b) : Packed mems (l ++ l') where
  inside a ha := (List.mem_append.1 ha).elim (h.inside a) (h'.inside a)
  apart := List.pairwise_append.2 ⟨h.apart, h'.apart, hd⟩

theorem Packed.grow {mems : List ℕ} {l : List Extent} (h : Packed mems l) (m : ℕ) : Packed (mems ++ [m]) l :=
  ⟨fun a ha => (h.inside a ha).grow m, h.apart⟩

/-- `n` pieces of one size, one after the other. -/
def carve (seg off size n : ℕ) : List Extent := (List.range n).map fun i => ⟨seg, off + i * size, size⟩

theorem mem_carve {seg off size n : ℕ} {a : Extent} :
    a ∈ carve seg off size n ↔ ∃ i < n, a = ⟨seg, off + i * size, size⟩ := by
  simp only [carve, List.mem_map, List.mem_range, eq_comm]

/-- Where a piece of a carving ends. -/
theorem end_le_of_lt {size i n : ℕ} (h : i < n) : i * size + size ≤ n * size := by
  rw [← Nat.succ_mul]
  exact Nat.mul_le_mul_right size h

/-- A carving stays within its stretch. -/
theorem carve_within {seg off size n : ℕ} {a : Extent} (ha : a ∈ carve seg off size n) :
    a.seg = seg ∧ off ≤ a.off ∧ a.off + a.size ≤ off + n * size := by
  obtain ⟨i, hi, rfl⟩ := mem_carve.1 ha
  refine ⟨rfl, Nat.le_add_right _ _, ?_⟩
  rw [Nat.add_assoc]
  exact Nat.add_le_add_left (end_le_of_lt hi) off

theorem packed_carve {mems : List ℕ} {seg off size n m : ℕ} (hm : mems[seg]? = some m) (hle : off + n * size ≤ m) :
    Packed mems (carve seg off size n) where
  inside a ha := by
    obtain ⟨rfl, -, hend⟩ := carve_within ha
    exact ⟨m, hm, Nat.le_trans hend hle⟩
  apart := by
    refine List.Pairwise.map _ ?_ (List.pairwise_lt_range (n := n))
    intro i j hij
    refine .inr (.inl ?_)
    change off + i * size + size ≤ off + j * size
    rw [Nat.add_assoc]
    exact Nat.add_le_add_left (end_le_of_lt hij) off

/-- **A new segment**, cut into pieces. -/
theorem Packed.add {mems : List ℕ} {l : List Extent} (h : Packed mems l) {size n m : ℕ} (hle : n * size ≤ m) :
    Packed (mems ++ [m]) (carve mems.length 0 size n ++ l) := by
  have hm : (mems ++ [m])[mems.length]? = some m := List.getElem?_concat_length
  refine (packed_carve hm (by omega)).append (h.grow m) fun a ha b hb => ?_
  have hb := (h.inside b hb).seg_lt
  exact .inl (by rw [(carve_within ha).1]; exact (Nat.ne_of_lt hb).symm)

end Extent
