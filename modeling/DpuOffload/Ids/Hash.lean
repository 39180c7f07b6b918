import DpuOffload.Lib.Bytes
import DpuOffload.Config.Data
import Mathlib.Data.BitVec
import Mathlib.Tactic.Ring

/-!
# Hashes of groups and hosts

The uid of a group is a hash of a vector of integers, the uid of a host a hash of its name
(`dpu_offload_types.h`). Both read the bytes through a plain `char`, which is signed on the x86
hosts and unsigned on the ARM DPUs: a byte above 127 is promoted to a negative number on the
former and to a positive one on the latter.

* `hash_unsigned_eq` — the two hashes differ by 256 times the weight of the bytes above 127.
* `hash_iff` — **when they are the same.**
-/

namespace DpuOffload

/-- Whether a plain `char` is signed. -/
inductive PlainChar where
  /-- It is, as on x86. -/
  | signed
  /-- It is not, as on ARM. -/
  | unsigned
  deriving DecidableEq, Repr

/-- The byte, read through a `char` and converted to an unsigned type of `w` bits. -/
def PlainChar.promote (w : ℕ) (b : UInt8) : PlainChar → BitVec w
  | signed => b.toBitVec.signExtend w
  | unsigned => b.toBitVec.setWidth w

/-- The loop of `HASH64_FROM_STRING` and `HASH_GROUP_FROM_STRING`, over a hash of `w` bits. -/
def hashLoop (c : PlainChar) {w : ℕ} (hash : BitVec w) (s : List UInt8) : BitVec w :=
  s.foldl (fun h b => ((h <<< 5) + h) + c.promote w b) hash

/-- `HASH64_FROM_STRING`. -/
def hash64FromString (c : PlainChar) (s : List UInt8) : BitVec 64 := hashLoop c 5381#64 s

/-- `HASH_GROUP_FROM_STRING`. -/
def hashGroupFromString (c : PlainChar) (s : List UInt8) : BitVec 32 := hashLoop c 5381#32 s

/-- The integers in memory, the least significant byte of each first. -/
def intBytes (gp : List (BitVec 32)) : List UInt8 := gp.flatMap fun r => Bytes.ofNat 4 r.toNat

/-- `HASH_GROUP`. -/
def hashGroup (c : PlainChar) (gp : List (BitVec 32)) : BitVec 32 := hashGroupFromString c (intBytes gp)

/-- The weight of the bytes above 127: for each, as many factors 33 as bytes follow it. -/
def highWeight : List UInt8 → ℕ
  | [] => 0
  | b :: bs => (if 127 < b then 33 ^ bs.length else 0) + highWeight bs

/-! ### The difference -/

/-- One round. -/
theorem hash_round {w : ℕ} (h x : BitVec w) : ((h <<< 5) + h) + x = 33 * h + x := by
  have hshift : h <<< 5 = h * 32 := by
    apply BitVec.eq_of_toNat_eq
    simp [BitVec.toNat_shiftLeft, Nat.shiftLeft_eq, BitVec.toNat_mul]
  rw [hshift]
  ring

/-- A byte above 127 loses 256 where it is signed. -/
theorem promote_unsigned {w : ℕ} (hw : 8 ≤ w) (b : UInt8) :
    PlainChar.unsigned.promote w b = PlainChar.signed.promote w b + ((if 127 < b then 256 else 0 : ℕ) : BitVec w) := by
  have hpow : 2 ^ 8 ≤ 2 ^ w := Nat.pow_le_pow_right (by decide) hw
  have hb : b.toBitVec.toNat < 2 ^ 8 := b.toBitVec.isLt
  have hlow : b.toBitVec.toNat % 2 ^ w = b.toBitVec.toNat := Nat.mod_eq_of_lt (by omega)
  have hmsb : b.toBitVec.msb = decide (127 < b) := by
    rw [BitVec.msb_eq_decide]
    rfl
  apply BitVec.eq_of_toNat_eq
  simp only [PlainChar.promote, BitVec.toNat_add, BitVec.toNat_signExtend, BitVec.toNat_setWidth,
    BitVec.natCast_eq_ofNat, BitVec.toNat_ofNat, Nat.add_mod_mod, hmsb, decide_eq_true_eq, hlow]
  split
  · have hsum : b.toBitVec.toNat + (2 ^ w - 2 ^ 8) + 256 = b.toBitVec.toNat + 2 ^ w := by omega
    rw [hsum, Nat.add_mod_right, hlow]
  · exact hlow.symm

/-- **The two hashes** differ by 256 times the weight of the bytes above 127. -/
theorem hash_unsigned_eq {w : ℕ} (hw : 8 ≤ w) (s : List UInt8) (h d : BitVec w) :
    hashLoop .unsigned (h + d) s = hashLoop .signed h s + 33 ^ s.length * d + 256 * (highWeight s : BitVec w) := by
  induction s generalizing h d with
  | nil => simp [hashLoop, highWeight]
  | cons b s ih =>
    have hround : hashLoop .unsigned (h + d) (b :: s) = hashLoop .unsigned
        (33 * h + PlainChar.signed.promote w b + (33 * d + ((if 127 < b then 256 else 0 : ℕ) : BitVec w))) s := by
      rw [hashLoop, List.foldl_cons, hash_round, promote_unsigned hw, hashLoop]
      ring_nf
    rw [hround, ih]
    have hsigned : hashLoop .signed h (b :: s) = hashLoop .signed (33 * h + PlainChar.signed.promote w b) s := by
      rw [hashLoop, List.foldl_cons, hash_round, hashLoop]
    rw [hsigned, highWeight, List.length_cons]
    split <;> push_cast <;> ring

/-! ### When the hashes are the same -/

/-- A number of `w` bits is zero when `2 ^ w` divides it. -/
theorem natCast_eq_zero_iff {w n : ℕ} : (n : BitVec w) = 0 ↔ 2 ^ w ∣ n := by
  rw [← BitVec.toNat_inj, BitVec.natCast_eq_ofNat, BitVec.toNat_ofNat]
  simp [Nat.dvd_iff_mod_eq_zero]

/-- **The same hash**, whether a `char` is signed or not. -/
theorem hashLoop_iff {k : ℕ} (h : BitVec (8 + k)) (s : List UInt8) :
    hashLoop .signed h s = hashLoop .unsigned h s ↔ 2 ^ k ∣ highWeight s := by
  have hdiff := hash_unsigned_eq (Nat.le_add_right 8 k) s h 0
  have hcast : (256 * (highWeight s : BitVec (8 + k))) = ((256 * highWeight s : ℕ) : BitVec (8 + k)) := by
    push_cast
    rfl
  have hpow : 2 ^ (8 + k) = 256 * 2 ^ k := Nat.pow_add 2 8 k
  rw [add_zero, mul_zero, add_zero] at hdiff
  rw [hdiff, left_eq_add, hcast, natCast_eq_zero_iff, hpow]
  exact Nat.mul_dvd_mul_iff_left (by decide)

/-- **Uids do not depend on the platform** exactly when the weight of the bytes above 127 is a multiple of
`2 ^ 24`, for a group, or of `2 ^ 56`, for a name. -/
theorem uid_iff (gp : List (BitVec 32)) (s : List UInt8) :
    (hashGroup .signed gp = hashGroup .unsigned gp ↔ 2 ^ 24 ∣ highWeight (intBytes gp)) ∧
    (hash64FromString .signed s = hash64FromString .unsigned s ↔ 2 ^ 56 ∣ highWeight s) :=
  ⟨hashLoop_iff (k := 24) 5381 (intBytes gp), hashLoop_iff (k := 56) 5381 s⟩

/-- The group of rank 128, and a name with an `é`, differ. -/
theorem not_uid :
    hashGroup .signed [128, 1, 128] ≠ hashGroup .unsigned [128, 1, 128] ∧
    ¬ ((∀ gp : List (BitVec 32), hashGroup .signed gp = hashGroup .unsigned gp) ∧
      ∀ s : List UInt8, hash64FromString .signed s = hash64FromString .unsigned s) := by
  have hne : hashGroup .signed [128, 1, 128] ≠ hashGroup .unsigned [128, 1, 128] := by decide
  exact ⟨hne, fun h => hne (h.1 _)⟩

/-! ### Names of characters below 128 -/

/-- No byte above 127, no weight. -/
theorem highWeight_eq_zero {s : List UInt8} (h : ∀ b ∈ s, b ≤ 127) : highWeight s = 0 := by
  induction s with
  | nil => rfl
  | cons b s ih =>
    have hb : ¬ 127 < b := UInt8.not_lt.2 (h b List.mem_cons_self)
    rw [highWeight, if_neg hb, ih fun b' hb' => h b' (List.mem_cons_of_mem _ hb')]

/-- A name in memory. -/
def nameBytes (name : CStr) : List UInt8 := name.map fun c => UInt8.ofNat c.toNat

/-- One round of a hash of 64 bits. -/
theorem toNat_hash_round (h : BitVec 64) (b : UInt8) :
    (((h <<< 5) + h) + PlainChar.unsigned.promote 64 b).toNat = hashRound h.toNat b.toNat := by
  have hb : b.toBitVec.toNat < 2 ^ 8 := b.toBitVec.isLt
  have hx : (PlainChar.unsigned.promote 64 b).toNat = b.toNat := by
    rw [PlainChar.promote, BitVec.toNat_setWidth, Nat.mod_eq_of_lt (by omega)]
    rfl
  rw [BitVec.toNat_add, BitVec.toNat_add, BitVec.toNat_shiftLeft, hx, hashRound]
  simp [Nat.add_mod]

/-- **`HASH_HOSTNAME` of an ASCII name** is the same on hosts and DPUs. -/
theorem toNat_hash64FromString (c : PlainChar) {name : CStr} (h : ∀ x ∈ name, x.toNat < 128) :
    (hash64FromString c (nameBytes name)).toNat = hashHostname name := by
  have hbyte : ∀ x ∈ name, (UInt8.ofNat x.toNat).toNat = x.toNat := by
    intro x hx
    have hlt : x.toNat < 128 := h x hx
    rw [UInt8.toNat_ofNat', Nat.mod_eq_of_lt (by omega)]
  have hsame : hash64FromString .signed (nameBytes name) = hash64FromString .unsigned (nameBytes name) := by
    have hweight : highWeight (nameBytes name) = 0 := by
      apply highWeight_eq_zero
      intro b hb
      obtain ⟨x, hx, rfl⟩ := List.mem_map.1 hb
      rw [UInt8.le_iff_toNat_le, hbyte x hx]
      exact Nat.le_of_lt_succ (h x hx)
    apply (hashLoop_iff (k := 56) 5381 (nameBytes name)).2
    simp [hweight]
  have hrun : ∀ (l : CStr) (v : BitVec 64), (∀ x ∈ l, x ∈ name) →
      (hashLoop .unsigned v (nameBytes l)).toNat = l.foldl (fun a x => hashRound a x.toNat) v.toNat := by
    intro l
    induction l with
    | nil => exact fun v _ => rfl
    | cons x l ih =>
      intro v hl
      have hround := toNat_hash_round v (UInt8.ofNat x.toNat)
      rw [hbyte x (hl x List.mem_cons_self)] at hround
      rw [List.foldl_cons, ← hround]
      exact ih _ fun y hy => hl y (List.mem_cons_of_mem _ hy)
  cases c
  · rw [hsame]
    exact hrun name 5381 fun x hx => hx
  · exact hrun name 5381 fun x hx => hx

end DpuOffload
