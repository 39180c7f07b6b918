import DpuOffload.Lib.BitFields

/-!
# Tags of messages

A message carries a tag of 64 bits, which is put together of five fields (`dpu_offload_comms.h`):

    reserved (2) | message tag (16) | scope (3) | scope id (3) | source rank (24) | team id (16)

A receive has a tag and a mask, and UCX gives it a message when their tags agree on the bits of
the mask. The mask is all ones.

* `TagFields.makeTag_inj` — **no two tuples of fields have the same tag.**
* `tags_injective` — nor does a receive get the message of another tuple.
-/

namespace DpuOffload

open BitFields

/-! ### The layout -/

/-- `OFFLOAD_RESERVED_BITS`. -/
abbrev offloadReservedBits : ℕ := 2

/-- `OFFLOAD_SCOPE_BITS`. -/
abbrev offloadScopeBits : ℕ := 3

/-- `OFFLOAD_SCOPE_ID_BITS`. -/
abbrev offloadScopeIdBits : ℕ := 3

/-- `OFFLOAD_TAG_BITS`. -/
abbrev offloadTagBits : ℕ := 16

/-- `OFFLOAD_SENDER_BITS`. -/
abbrev offloadSenderBits : ℕ := 24

/-- `OFFLOAD_ID_BITS`. -/
abbrev offloadIdBits : ℕ := 16

/-- `OFFLOAD_RESERVED_BITS_OFFSET`. -/
abbrev offloadReservedBitsOffset : ℕ :=
  offloadIdBits + offloadSenderBits + offloadScopeIdBits + offloadScopeBits + offloadTagBits

/-- `OFFLOAD_TAG_BITS_OFFSET`. -/
abbrev offloadTagBitsOffset : ℕ := offloadIdBits + offloadSenderBits + offloadScopeIdBits + offloadScopeBits

/-- `OFFLOAD_SCOPE_BITS_OFFSET`. -/
abbrev offloadScopeBitsOffset : ℕ := offloadIdBits + offloadSenderBits + offloadScopeIdBits

/-- `OFFLOAD_SCOPE_ID_BITS_OFFSET`. -/
abbrev offloadScopeIdBitsOffset : ℕ := offloadIdBits + offloadSenderBits

/-- `OFFLOAD_SENDER_BITS_OFFSET`. -/
abbrev offloadSenderBitsOffset : ℕ := offloadIdBits

/-- `OFFLOAD_ID_BITS_OFFSET`. -/
abbrev offloadIdBitsOffset : ℕ := 0

/-- `OFFLOAD_BIT`. -/
def offloadBit (i : ℕ) : BitVec 64 := 1#64 <<< i

/-- `OFFLOAD_MASK`. -/
def offloadMask (i : ℕ) : BitVec 64 := offloadBit i - 1#64

/-- `OFFLOAD_MAX_TAG`. -/
def offloadMaxTag : BitVec 64 := offloadMask offloadTagBits

/-- `OFFLOAD_MAX_SENDER`. -/
def offloadMaxSender : BitVec 64 := offloadMask offloadSenderBits

/-- `OFFLOAD_MAX_ID`. -/
def offloadMaxId : BitVec 64 := offloadMask offloadIdBits

theorem toNat_offloadMask {i : ℕ} (h : i < 64) : (offloadMask i).toNat = 2 ^ i - 1 := by
  have hbit : (offloadBit i).toNat = 2 ^ i := by
    have hlt : 2 ^ i < 2 ^ 64 := Nat.pow_lt_pow_right (by decide) h
    have hone : (1#64).toNat = 1 := rfl
    rw [offloadBit, BitVec.toNat_shiftLeft, Nat.shiftLeft_eq, hone, Nat.one_mul, Nat.mod_eq_of_lt hlt]
  have hle : 1#64 ≤ offloadBit i := by
    rw [BitVec.le_def, hbit]
    exact Nat.one_le_two_pow
  rw [offloadMask, BitVec.toNat_sub_of_le hle, hbit]
  rfl

/-- A field is at most the mask of its width. -/
theorem setWidth_le_offloadMask {w : ℕ} (x : BitVec w) (h : w < 64) : x.setWidth 64 ≤ offloadMask w := by
  have hx : x.toNat < 2 ^ w := x.isLt
  have hle : x.toNat % 2 ^ 64 ≤ x.toNat := Nat.mod_le _ _
  rw [BitVec.le_def, toNat_offloadMask h, BitVec.toNat_setWidth]
  omega

/-! ### Tags -/

/-- `MAKE_TAG`; the arguments are cast to `uint64_t`. -/
def makeTag (tag rank id scopeId scope : BitVec 64) : BitVec 64 :=
  tag <<< offloadTagBitsOffset ||| rank <<< offloadSenderBitsOffset ||| scope <<< offloadScopeBitsOffset |||
    scopeId <<< offloadScopeIdBitsOffset ||| id <<< offloadIdBitsOffset

/-- `MAKE_SEND_TAG`. -/
def makeSendTag (tag rank id scopeId scope : BitVec 64) : BitVec 64 := makeTag tag rank id scopeId scope

/-- `MAKE_RECV_TAG`: the tag and the mask of a receive. The three asserts come first. -/
def makeRecvTag (tag src id scopeId scope : BitVec 64) : Option (BitVec 64 × BitVec 64) :=
  if tag ≤ offloadMaxTag ∧ src ≤ offloadMaxSender ∧ id ≤ offloadMaxId then
    -- `(uint64_t)(-1)`
    some (makeTag tag src id scopeId scope, -1#64)
  else none

/-- Does a receive, with its tag and its mask, get a message with the tag? -/
def TagMatches (ucpTag : BitVec 64) (recv : BitVec 64 × BitVec 64) : Prop := ucpTag &&& recv.2 = recv.1 &&& recv.2

/-- The fields of a tag, each within its width. -/
@[ext]
structure TagFields where
  /-- The message tag. -/
  tag : BitVec offloadTagBits
  /-- The rank of the sender. -/
  sender : BitVec offloadSenderBits
  /-- The id. -/
  id : BitVec offloadIdBits
  /-- The scope id. -/
  scopeId : BitVec offloadScopeIdBits
  /-- The scope. -/
  scope : BitVec offloadScopeBits
  deriving DecidableEq, Repr

namespace TagFields

variable (f g : TagFields)

/-- The tag of the fields. -/
def makeTag : BitVec 64 :=
  DpuOffload.makeTag (f.tag.setWidth 64) (f.sender.setWidth 64) (f.id.setWidth 64) (f.scopeId.setWidth 64)
    (f.scope.setWidth 64)

/-- The tag of a message with the fields. -/
def makeSendTag : BitVec 64 :=
  DpuOffload.makeSendTag (f.tag.setWidth 64) (f.sender.setWidth 64) (f.id.setWidth 64) (f.scopeId.setWidth 64)
    (f.scope.setWidth 64)

/-- The tag and the mask of a receive with the fields. -/
def makeRecvTag : Option (BitVec 64 × BitVec 64) :=
  DpuOffload.makeRecvTag (f.tag.setWidth 64) (f.sender.setWidth 64) (f.id.setWidth 64) (f.scopeId.setWidth 64)
    (f.scope.setWidth 64)

/-- The fields at their places. -/
def fields : List Field :=
  [⟨_, offloadTagBitsOffset, f.tag⟩, ⟨_, offloadSenderBitsOffset, f.sender⟩, ⟨_, offloadScopeBitsOffset, f.scope⟩,
    ⟨_, offloadScopeIdBitsOffset, f.scopeId⟩, ⟨_, offloadIdBitsOffset, f.id⟩]

theorem makeTag_eq : f.makeTag = word 64 f.fields := by
  simp [makeTag, DpuOffload.makeTag, fields, word, place, BitVec.or_assoc]

theorem fields_apart : f.fields.Pairwise Field.Apart := by
  simp only [fields, List.pairwise_cons, List.mem_cons, List.not_mem_nil, or_false, forall_eq_or_imp, forall_eq,
    Field.Apart]
  simp
  decide

/-- A field is read from the tag. -/
theorem extract_makeTag {x : Field} (hx : x ∈ f.fields) : extract x.width x.off f.makeTag = x.val := by
  have hn : x.off + x.width ≤ 64 := by
    simp only [fields, List.mem_cons, List.not_mem_nil, or_false] at hx
    obtain rfl | rfl | rfl | rfl | rfl := hx <;> dsimp only <;> decide
  rw [makeTag_eq]
  exact extract_word f.fields_apart hx hn

/-- The reserved bits of a tag are zero. -/
theorem extract_reserved : extract offloadReservedBits offloadReservedBitsOffset f.makeTag = 0 := by
  rw [makeTag_eq]
  apply extract_word_of_apart (f := ⟨offloadReservedBits, offloadReservedBitsOffset, 0⟩)
  simp [fields, Field.Apart]
  decide

variable {f g}

/-- **No two tuples of fields have the same tag.** -/
theorem makeTag_inj (h : f.makeTag = g.makeTag) : f = g := by
  have key : ∀ (w off : ℕ) {x y : BitVec w}, ⟨w, off, x⟩ ∈ f.fields → ⟨w, off, y⟩ ∈ g.fields → x = y := by
    intro w off x y hx hy
    calc x = extract w off f.makeTag := (f.extract_makeTag hx).symm
      _ = extract w off g.makeTag := by rw [h]
      _ = y := g.extract_makeTag hy
  ext1
  · exact key _ offloadTagBitsOffset (by simp [fields]) (by simp [fields])
  · exact key _ offloadSenderBitsOffset (by simp [fields]) (by simp [fields])
  · exact key _ offloadIdBitsOffset (by simp [fields]) (by simp [fields])
  · exact key _ offloadScopeIdBitsOffset (by simp [fields]) (by simp [fields])
  · exact key _ offloadScopeBitsOffset (by simp [fields]) (by simp [fields])

variable (f)

/-- The asserts hold of fields within their widths. -/
theorem makeRecvTag_eq : f.makeRecvTag = some (f.makeTag, -1#64) := by
  have htag : f.tag.setWidth 64 ≤ offloadMaxTag := setWidth_le_offloadMask f.tag (by decide)
  have hsender : f.sender.setWidth 64 ≤ offloadMaxSender := setWidth_le_offloadMask f.sender (by decide)
  have hid : f.id.setWidth 64 ≤ offloadMaxId := setWidth_le_offloadMask f.id (by decide)
  rw [makeRecvTag, DpuOffload.makeRecvTag, if_pos ⟨htag, hsender, hid⟩]
  rfl

/-- A message is for the receive whose tag is its own. -/
theorem tagMatches_iff (tag tag' : BitVec 64) : TagMatches tag (tag', -1#64) ↔ tag = tag' := by
  have hones : (-1#64 : BitVec 64) = BitVec.allOnes 64 := by decide
  rw [TagMatches, hones, BitVec.and_allOnes, BitVec.and_allOnes]

end TagFields

/-- **Tags are injective**: no two tuples have the same tag, the reserved bits are zero, and a receive gets
the messages that have all its fields. -/
theorem tags_injective :
    (∀ f g : TagFields, f.makeTag = g.makeTag → f = g) ∧
    (∀ f : TagFields, extract offloadReservedBits offloadReservedBitsOffset f.makeTag = 0) ∧
    ∀ f g : TagFields, ∃ recv, g.makeRecvTag = some recv ∧ (TagMatches f.makeSendTag recv ↔ f = g) := by
  refine ⟨fun f g h => TagFields.makeTag_inj h, fun f => f.extract_reserved, fun f g => ?_⟩
  refine ⟨_, g.makeRecvTag_eq, ?_⟩
  rw [TagFields.tagMatches_iff]
  constructor
  · exact TagFields.makeTag_inj
  · intro h
    rw [h]
    rfl

end DpuOffload
