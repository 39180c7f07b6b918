import Mathlib.Data.BitVec
import Mathlib.Tactic.ByContra

/-!
# Keys of groups

A group has an id and a lead, of type `int32_t`. `GET_GROUP_KEY` makes an `int64_t` of them, with
the lead in the upper half, and `GROUP_KEY_TO_GROUP` makes a group of a key, with the id in the
upper half. The id is extended by its sign before it is joined to the lead.

* `groupKeyToGroup_getGroupKey` — what becomes of a group.
* `group_key_iff` — **when it is the same group**, and when two groups have the same key.
-/

namespace DpuOffload

/-- `group_id_t`. -/
@[ext]
structure GroupId where
  /-- The local id. -/
  id : BitVec 32
  /-- The lead. -/
  lead : BitVec 32
  deriving DecidableEq, Repr

/-- `GET_GROUP_KEY`. -/
def getGroupKey (gp : GroupId) : BitVec 64 := gp.lead.signExtend 64 <<< 32 ||| gp.id.signExtend 64

/-- `GROUP_KEY_TO_GROUP`. -/
def groupKeyToGroup (key : BitVec 64) : GroupId where
  id := (key.sshiftRight 32).setWidth 32
  lead := (key &&& 0x00000000FFFFFFFF#64).setWidth 32

variable (g g' : GroupId)

/-! ### The two halves of a key -/

/-- The lower half of a key is the id. -/
theorem lower_getGroupKey : (getGroupKey g).setWidth 32 = g.id := by
  ext i hi
  have hlt : i < 64 := by omega
  simp [getGroupKey, hi, hlt, BitVec.getElem_signExtend]

/-- The upper half of a key is the lead, unless the id is negative. -/
theorem upper_getGroupKey :
    (getGroupKey g).extractLsb' 32 32 = if g.id.msb then BitVec.allOnes 32 else g.lead := by
  ext i hi
  have hlt : 32 + i < 64 := by omega
  have hge : ¬ 32 + i < 32 := by omega
  split
  · rename_i hmsb
    rw [BitVec.getElem_allOnes]
    simp [getGroupKey, hi, hlt, hge, hmsb, BitVec.getElem_signExtend]
  · rename_i hmsb
    simp [getGroupKey, hi, hlt, hge, hmsb, BitVec.getElem_signExtend]

/-- What becomes of a group: the id and the lead change places, and a negative id hides the lead. -/
theorem groupKeyToGroup_getGroupKey :
    groupKeyToGroup (getGroupKey g) = ⟨if g.id.msb then BitVec.allOnes 32 else g.lead, g.id⟩ := by
  ext1
  · rw [← upper_getGroupKey]
    ext i hi
    have hlt : 32 + i < 64 := by omega
    have hlt' : ¬ 64 ≤ i := by omega
    simp [groupKeyToGroup, BitVec.getLsbD_sshiftRight, hlt, hlt']
  · have hones : 0x00000000FFFFFFFF#64 = (BitVec.allOnes 32).setWidth 64 := by decide
    rw [← lower_getGroupKey]
    ext i hi
    have hlt : i < 64 := by omega
    rw [groupKeyToGroup, hones]
    simp only [BitVec.getElem_setWidth, BitVec.getLsbD_and, BitVec.getLsbD_setWidth, BitVec.getLsbD_allOnes, hlt, hi,
      decide_true, Bool.and_true]

/-- A key is known by its halves. -/
theorem eq_of_halves {x y : BitVec 64} (hlow : x.setWidth 32 = y.setWidth 32)
    (hup : x.extractLsb' 32 32 = y.extractLsb' 32 32) : x = y := by
  ext i hi
  by_cases h : i < 32
  · have hbit : (x.setWidth 32)[i] = (y.setWidth 32)[i] := by rw [hlow]
    simpa [hi] using hbit
  · have hlt : i - 32 < 32 := by omega
    have hadd : 32 + (i - 32) = i := by omega
    have hbit : (x.extractLsb' 32 32)[i - 32] = (y.extractLsb' 32 32)[i - 32] := by rw [hup]
    simpa [hadd, hi] using hbit

/-- Two groups have the same key when they have the same id, and the same lead unless the id is negative. -/
theorem getGroupKey_eq_iff :
    getGroupKey g = getGroupKey g' ↔ g.id = g'.id ∧ (g.id.msb = true ∨ g.lead = g'.lead) := by
  constructor
  · intro h
    have hlow : g.id = g'.id := by rw [← lower_getGroupKey g, h, lower_getGroupKey g']
    have hup := upper_getGroupKey g
    rw [h, upper_getGroupKey g', ← hlow] at hup
    refine ⟨hlow, ?_⟩
    cases hmsb : g.id.msb
    · simp only [hmsb] at hup
      exact .inr hup.symm
    · exact .inl rfl
  · rintro ⟨hid, hlead⟩
    apply eq_of_halves
    · rw [lower_getGroupKey, lower_getGroupKey, hid]
    · rw [upper_getGroupKey, upper_getGroupKey, ← hid]
      split
      · rfl
      · exact hlead.resolve_left ‹_›

/-! ### Which groups come back -/

/-- **A group comes back** exactly when its id is its lead and is not below `-1`; and two groups have
different keys unless they have one negative id and different leads. -/
theorem group_key_iff (g g' : GroupId) :
    (groupKeyToGroup (getGroupKey g) = g ↔ g.id = g.lead ∧ -1 ≤ g.id.toInt) ∧
    ((getGroupKey g = getGroupKey g' → g = g') ↔ ¬ (g.id = g'.id ∧ g.id.toInt < 0 ∧ g.lead ≠ g'.lead)) := by
  constructor
  · rw [groupKeyToGroup_getGroupKey, GroupId.ext_iff]
    simp only [BitVec.msb_eq_toInt, decide_eq_true_eq]
    split
    · rename_i hneg
      have hones : BitVec.allOnes 32 = g.id ↔ -1 ≤ g.id.toInt := by
        rw [← BitVec.toInt_inj, BitVec.toInt_allOnes, if_pos (by decide)]
        omega
      rw [hones, and_comm]
    · rename_i hpos
      constructor
      · rintro ⟨hid, -⟩
        exact ⟨hid.symm, by omega⟩
      · rintro ⟨hid, -⟩
        exact ⟨hid.symm, hid⟩
  · rw [getGroupKey_eq_iff, BitVec.msb_eq_toInt, decide_eq_true_eq, GroupId.ext_iff]
    constructor
    · rintro h ⟨hid, hneg, hlead⟩
      exact hlead (h ⟨hid, .inl hneg⟩).2
    · rintro h ⟨hid, hneg | hlead⟩
      · exact ⟨hid, by_contra fun hlead => h ⟨hid, hneg, hlead⟩⟩
      · exact ⟨hid, hlead⟩

/-- Id and lead change places, and a group with a negative id has the key of another. -/
theorem not_group_key :
    ¬ ((∀ g, (groupKeyToGroup (getGroupKey g)).id = g.id ∧ (groupKeyToGroup (getGroupKey g)).lead = g.lead) ∧
      ∀ g g', getGroupKey g = getGroupKey g' → g = g') := by
  rintro ⟨hround, -⟩
  have hid : (groupKeyToGroup (getGroupKey ⟨1, 2⟩)).id = 1 := (hround ⟨1, 2⟩).1
  exact absurd hid (by decide)

end DpuOffload
