import DpuOffload.Buffers.Packing
import DpuOffload.Lib.DynArray
import DpuOffload.Lib.Intervals
import DpuOffload.Lib.Runs

/-!
# The buckets and the sizes

The buckets are meant to partition the sizes: consecutive intervals from 0 on, to which a bucket is
added for a size behind them, so that a chunk is returned to the bucket it was taken from.

A bucket is added in two arrays that grow where they are accessed. When such an array grows it may
move, and the warning beside `DYN_ARRAY_GET_ELT` is not heeded: the least size of the new bucket is
computed from a pointer into the array of the sizes as it was before, and the pools are lists whose
heads are in the array of the buckets. A pool whose head has moved is not a list of chunks any more.

* `SmartBuffers.consecutive_iff` — what it is for buckets to be consecutive intervals.
* `SmartTable.newBucket_of_room` — where both arrays have room, a bucket is added as in `SmartBuffers`.
* `SmartTable.Inv` — that the buckets partition the sizes, with the sizes of the chunks and where
  those in use belong; every safe step keeps it, and one that is not, and returns, spoils it.
* `buckets_iff` — **the buckets partition the sizes along a run** exactly when every step is safe.
-/

namespace DpuOffload

/-! ### The start -/

/-- The least number of sizes, `NUM_BUCKETS + 5`, and how many are added. -/
def defaultArraySize : ℕ := 9 + 5

/-- `SMART_BUFFS_INIT` for any sizes. The least size in the bucket behind the last, where it would wrap
around, is not read. -/
def SmartBuffers.ofSizes (sizes : List ℕ) : SmartBuffers where
  numBuckets := sizes.length
  baseMemChunks := [⟨smartBuffersDefaultMemAllocSize, smartBuffersDefaultMemAllocSize⟩]
  bucketSizes := sizes
  buckets := initBuckets (bucketMemSize sizes) 0 0 sizes

theorem smartBuffsInit_eq (B : BucketSizes) : smartBuffsInit B = .ofSizes B.sizes := rfl

/-- `smart_buffers_t`, with the room in its arrays. -/
structure SmartTable where
  /-- The buffers; the array of the buckets is as long as it is allocated. -/
  sys : SmartBuffers
  /-- The capacity of the array of the sizes. -/
  sizesCapacity : ℕ
  /-- How many buckets are added at a time. -/
  allocationSize : ℕ
  /-- How many buckets have been moved: the heads of their pools are not where the chunks point to. -/
  moved : ℕ
  deriving DecidableEq, Repr

/-- What happens to arrays that grow. -/
structure Moves where
  /-- What the last size reads as, where the array of the sizes was, if it moves. -/
  sizes : Option UInt64
  /-- Does the array of the buckets move? -/
  buckets : Bool
  deriving DecidableEq, Repr

namespace SmartTable

/-- `SMART_BUFFS_INIT`; the memory is divided by the number of the buckets, and no size is 0. -/
def init (sizes : List ℕ) : Option SmartTable :=
  if sizes = [] ∨ 0 ∈ sizes then none
  else
    some
      { sys := .ofSizes sizes
        sizesCapacity := DynArray.grown defaultArraySize (sizes.length - 1) defaultArraySize
        allocationSize := sizes.length + 1
        moved := 0 }

/-! ### The operations -/

variable (t : SmartTable)

/-- The buffers, with room for another bucket. -/
def room : SmartBuffers :=
  { t.sys with
    buckets := t.sys.buckets ++ List.replicate
      (DynArray.grown t.allocationSize t.sys.numBuckets t.sys.buckets.length - t.sys.buckets.length) .zero }

/-- Has the array of the sizes to grow for another bucket? -/
def sizesGrow : Prop := t.sizesCapacity ≤ t.sys.numBuckets

/-- Has the array of the buckets to grow? -/
def bucketsGrow : Prop := t.sys.buckets.length ≤ t.sys.numBuckets

instance : Decidable t.sizesGrow := inferInstanceAs (Decidable (_ ≤ _))

instance : Decidable t.bucketsGrow := inferInstanceAs (Decidable (_ ≤ _))

/-- `*__last_bucket_sz`, once there is room for another size. -/
def lastBucketSz (m : Moves) : ℕ :=
  if t.sizesGrow then (m.sizes.map UInt64.toNat).getD t.sys.lastBucketSize else t.sys.lastBucketSize

/-- A new bucket. Its size has been computed before the array of the sizes grows, its least size is
computed after it. -/
def newBucket (m : Moves) (sz : ℕ) : Option SmartTable :=
  -- `assert(_bucket_mem_size > 0)`
  if 2 * t.sys.newBucketMaxSize sz % 2 ^ 64 = 0 then none
  else
    (t.room.newBucket sz).map fun s =>
      { t with
        sys := { s with
          buckets := s.buckets.set t.sys.numBuckets
            { s.bucket t.sys.numBuckets with minSize := (t.lastBucketSz m + 1) % 2 ^ 64 } }
        sizesCapacity := DynArray.grown defaultArraySize t.sys.numBuckets t.sizesCapacity
        moved := if t.bucketsGrow ∧ m.buckets = true then t.sys.numBuckets else t.moved }

theorem room_eq (h : ¬ t.bucketsGrow) : t.room = t.sys := by
  simp [room, DynArray.grown_of_lt (Nat.lt_of_not_le h)]

/-- Where both arrays have room, a bucket is added as if they never moved. -/
theorem newBucket_of_room (m : Moves) {sz : ℕ} (hs : ¬ t.sizesGrow) (hb : ¬ t.bucketsGrow)
    (hm : 2 * t.sys.newBucketMaxSize sz % 2 ^ 64 ≠ 0) : (t.newBucket m sz).map (·.sys) = t.sys.newBucket sz := by
  have hlt : t.sys.numBuckets < t.sys.buckets.length := Nat.lt_of_not_le hb
  rw [newBucket, if_neg hm, room_eq t hb]
  simp [SmartBuffers.newBucket, hlt, lastBucketSz, hs, SmartBuffers.bucket, SmartBuffers.emptyBucket]

/-- Does a request make a new bucket? -/
def creates (sz : ℕ) : Prop := ∀ i, t.sys.find sz = some i → (t.sys.bucket i).maxSize = UINT64_MAX

/-- The bucket for a request, a new one if need be. -/
def target (m : Moves) (sz : ℕ) : Option (SmartTable × ℕ) :=
  match t.sys.find sz with
  | some i =>
    if (t.sys.bucket i).maxSize = UINT64_MAX then (t.newBucket m sz).map (·, t.sys.numBuckets) else some (t, i)
  | none => (t.newBucket m sz).map (·, t.sys.numBuckets)

/-- The chunks in the pool of a bucket, if its head has not been moved. -/
def pool (i : ℕ) : Option (List SmartChunk) := if t.moved ≤ i then some (t.sys.bucket i).pool else none

/-- Take a chunk out of a bucket, which grows if it has none. -/
def takeChunk (i : ℕ) : Option (SmartTable × SmartChunk) :=
  (t.pool i).bind fun cs =>
    (if cs = [] then t.sys.growBucket i else some t.sys).bind fun s =>
      (s.extract i).map fun p => ({ t with sys := p.1 }, p.2)

/-- `SMART_BUFF_GET`, with the bucket the chunk is taken from. -/
def get (m : Moves) (sz : ℕ) : Option (SmartTable × ℕ × SmartChunk) :=
  (t.target m sz).bind fun p => (p.1.takeChunk p.2).map fun q => (q.1, p.2, q.2)

/-- `SMART_BUFF_RETURN`. -/
def ret (sz : ℕ) (c : SmartChunk) : Option SmartTable :=
  (t.sys.find sz).bind fun i => (t.pool i).bind fun _ => (t.sys.ret sz c).map fun s => { t with sys := s }

end SmartTable

/-- A table and who uses it. -/
structure TableUse where
  /-- The table. -/
  table : SmartTable
  /-- The chunks in use, each with the size it was requested for and the bucket it was taken from. -/
  held : List (ℕ × ℕ × SmartChunk)
  deriving DecidableEq, Repr

/-- What is done with a table. -/
inductive TableOp where
  /-- Get a chunk. -/
  | get (m : Moves) (sz : ℕ)
  /-- Return the chunk at a position, with the size it was requested for. -/
  | ret (k : ℕ)
  deriving DecidableEq, Repr

/-- One operation. -/
def TableUse.step (u : TableUse) : TableOp → Option TableUse
  | .get m sz => (u.table.get m sz).map fun p => ⟨p.1, u.held ++ [(sz, p.2)]⟩
  | .ret k => do
    let (sz, _, c) ← u.held[k]?
    let t ← u.table.ret sz c
    some ⟨t, u.held.eraseIdx k⟩

/-! ### What is asked of a run -/

/-- The sizes each bucket serves. -/
def SmartBuffers.intervals (s : SmartBuffers) : List (ℕ × ℕ) :=
  (s.buckets.take s.numBuckets).map fun b => (b.minSize, b.maxSize)

namespace TableUse

variable (u : TableUse)

/-- **The buckets partition the sizes.** -/
structure Partitioned : Prop where
  /-- They are consecutive, from 0 on. -/
  consecutive : Intervals.Consecutive 0 u.table.sys.intervals
  /-- The chunks in each pool are of the size of the bucket. -/
  pools : ∀ i < u.table.sys.numBuckets, ∃ cs, u.table.pool i = some cs ∧
    ∀ c ∈ cs, c.size = (u.table.sys.bucket i).maxSize
  /-- A chunk in use would be returned to the bucket it was taken from. -/
  held : ∀ p ∈ u.held, u.table.sys.find p.1 = some p.2.1

/-- A new bucket serves the request it is made for. -/
def Suffices : TableOp → TableUse → Prop
  | .get _ sz, u' =>
    u.table.sys.numBuckets < u'.table.sys.numBuckets → sz ≤ (u'.table.sys.bucket u.table.sys.numBuckets).maxSize
  | .ret _, _ => True

/-- Along a run, as far as the operations return, the buckets partition the sizes. -/
def Meets (u : TableUse) : List TableOp → Prop
  | [] => u.Partitioned
  | op :: ops => u.Partitioned ∧ ∀ u', u.step op = some u' → u.Suffices op u' ∧ u'.Meets ops

/-- A step is safe unless it makes a new bucket where the last one serves all sizes that are left, or the pointer to
the last size is read when it points to something else, or the buckets are moved. -/
def SafeStep : TableOp → Prop
  | .get m sz =>
    u.table.creates sz → u.table.sys.lastBucketSize ≠ UINT64_MAX ∧
      u.table.lastBucketSz m = u.table.sys.lastBucketSize ∧ ¬ (u.table.bucketsGrow ∧ m.buckets = true)
  | .ret _ => True

/-- The steps of a run that return are safe. -/
def Safe (u : TableUse) : List TableOp → Prop
  | [] => True
  | op :: ops => ∀ u', u.step op = some u' → u.SafeStep op ∧ u'.Safe ops

end TableUse

/-- The sizes asked for are below 2^63. -/
def TableOp.Small : TableOp → Prop
  | .get _ sz => sz < 2 ^ 63
  | .ret _ => True

/-! ### Buckets and intervals -/

namespace SmartBuffers

variable {s s' : SmartBuffers} {i sz : ℕ}

theorem find_eq (s : SmartBuffers) (sz : ℕ) : s.find sz = Intervals.find sz s.intervals := by
  rw [Intervals.find, intervals, List.findIdx?_map]
  rfl

theorem intervals_congr (hn : s.numBuckets = s'.numBuckets)
    (hs : s.buckets.map SmartBucket.shape = s'.buckets.map SmartBucket.shape) : s.intervals = s'.intervals := by
  have key : ∀ t : SmartBuffers, t.intervals =
      ((t.buckets.map SmartBucket.shape).take t.numBuckets).map fun b => (b.minSize, b.maxSize) := by
    intro t
    rw [← List.map_take, List.map_map]
    rfl
  rw [key s, key s', hn, hs]

theorem length_intervals (h : s.numBuckets ≤ s.buckets.length) : s.intervals.length = s.numBuckets := by
  simp [intervals, h]

theorem getElem_intervals (hi : i < s.intervals.length) :
    s.intervals[i] = ((s.bucket i).minSize, (s.bucket i).maxSize) := by
  have hlt : i < s.buckets.length := by
    simp [intervals] at hi
    exact hi.2
  simp [intervals, bucket_eq hlt]

/-- **Consecutive buckets**: the least size of each is behind the largest of the one before. -/
theorem consecutive_iff (h : s.numBuckets ≤ s.buckets.length) (hpos : 0 < s.numBuckets) :
    Intervals.Consecutive 0 s.intervals ↔ (s.bucket 0).minSize = 0 ∧
      (∀ i < s.numBuckets, (s.bucket i).minSize ≤ (s.bucket i).maxSize) ∧
      ∀ i, i + 1 < s.numBuckets → (s.bucket (i + 1)).minSize = (s.bucket i).maxSize + 1 := by
  have hlen := length_intervals h
  rw [Intervals.consecutive_iff]
  refine and_congr ?_ (and_congr ?_ ?_)
  · have hzero : 0 < s.intervals.length := hpos.trans_eq hlen.symm
    rw [List.head?_eq_getElem?, List.getElem?_eq_getElem hzero]
    simp [getElem_intervals]
  · constructor
    · intro hall i hi
      have hi' : i < s.intervals.length := hi.trans_eq hlen.symm
      simpa [getElem_intervals] using hall _ (List.getElem_mem hi')
    · intro hall I hI
      obtain ⟨i, hi, rfl⟩ := List.getElem_of_mem hI
      simpa [getElem_intervals] using hall i (hi.trans_eq hlen)
  · simp only [getElem_intervals, hlen]

/-- A bucket that is found is one of them. -/
theorem lt_of_find (h : s.numBuckets ≤ s.buckets.length) (hf : s.find sz = some i) : i < s.numBuckets := by
  rw [find_eq] at hf
  obtain ⟨hi, -⟩ := Intervals.find_eq_some hf
  exact hi.trans_eq (length_intervals h)

end SmartBuffers

theorem intervals_initBuckets {share n lo : ℕ} {zs : List ℕ} (hinc : zs.Pairwise (· < ·)) (hlo : ∀ z ∈ zs, lo ≤ z) :
    Intervals.Consecutive lo (((initBuckets share n lo zs).take zs.length).map fun b => (b.minSize, b.maxSize)) := by
  induction zs generalizing n lo with
  | nil => trivial
  | cons z zs ih =>
    obtain ⟨hz, hinc⟩ := List.pairwise_cons.1 hinc
    exact ⟨rfl, hlo z List.mem_cons_self, ih hinc fun y hy => hz y hy⟩

theorem maxSize_initBuckets {share n lo : ℕ} {zs : List ℕ} :
    ((initBuckets share n lo zs).take zs.length).map (·.maxSize) = zs := by
  induction zs generalizing n lo with
  | nil => rfl
  | cons z zs ih => exact congrArg (z :: ·) ih

/-! ### What is kept -/

/-- **What every safe step keeps.** -/
structure SmartTable.Inv (t : SmartTable) (held : List (ℕ × ℕ × SmartChunk)) : Prop where
  /-- There are buckets. -/
  pos : 0 < t.sys.numBuckets
  /-- They are in the array. -/
  le : t.sys.numBuckets ≤ t.sys.buckets.length
  /-- It grows. -/
  grows : 0 < t.allocationSize
  /-- The sizes are those of the buckets. -/
  sizes : t.sys.bucketSizes = t.sys.intervals.map (·.2)
  /-- They are within 64 bits. -/
  sizes_le : ∀ z ∈ t.sys.bucketSizes, z ≤ UINT64_MAX
  /-- The buckets are consecutive. -/
  consecutive : Intervals.Consecutive 0 t.sys.intervals
  /-- No bucket has been moved. -/
  moved : t.moved = 0
  /-- The chunks of a bucket are of its size. -/
  pools : ∀ b ∈ t.sys.buckets.take t.sys.numBuckets, ∀ c ∈ b.pool, c.size = b.maxSize
  /-- So are those in use, which would be returned to their bucket. -/
  held : ∀ p ∈ held, t.sys.find p.1 = some p.2.1 ∧ p.2.2.size = (t.sys.bucket p.2.1).maxSize

namespace SmartTable

variable {t t' : SmartTable} {held held' : List (ℕ × ℕ × SmartChunk)} {m : Moves} {i sz : ℕ} {c : SmartChunk}

theorem Inv.bucket_mem (h : t.Inv held) (hi : i < t.sys.numBuckets) :
    t.sys.bucket i ∈ t.sys.buckets.take t.sys.numBuckets := by
  have hlt : i < t.sys.buckets.length := hi.trans_le h.le
  rw [SmartBuffers.bucket_eq hlt]
  exact List.mem_take_iff_getElem.2 ⟨i, Nat.lt_min.2 ⟨hi, hlt⟩, rfl⟩

theorem Inv.pool_eq (h : t.Inv held) (i : ℕ) : t.pool i = some (t.sys.bucket i).pool := by
  rw [pool, h.moved, if_pos (Nat.zero_le i)]

theorem Inv.partitioned (h : t.Inv held) : (⟨t, held⟩ : TableUse).Partitioned where
  consecutive := h.consecutive
  pools i hi := ⟨_, h.pool_eq i, h.pools _ (h.bucket_mem hi)⟩
  held p hp := (h.held p hp).1

/-- The last size is the end of the last bucket. -/
theorem Inv.next_eq (h : t.Inv held) : Intervals.next 0 t.sys.intervals = t.sys.lastBucketSize + 1 := by
  have hlen := SmartBuffers.length_intervals h.le
  have hne : t.sys.intervals ≠ [] := by
    intro hnil
    rw [hnil] at hlen
    exact h.pos.ne hlen
  rw [Intervals.next_eq 0 hne, SmartBuffers.lastBucketSize, h.sizes, ← hlen, List.getLast_eq_getElem]
  have hlt : t.sys.intervals.length - 1 < t.sys.intervals.length := Nat.sub_lt (List.length_pos_of_ne_nil hne) one_pos
  simp [hlt]

theorem Inv.lastBucketSize_le (h : t.Inv held) : t.sys.lastBucketSize ≤ UINT64_MAX := by
  rw [SmartBuffers.lastBucketSize, List.getD_eq_getElem?_getD]
  cases hz : t.sys.bucketSizes[t.sys.numBuckets - 1]? with
  | none => exact Nat.zero_le _
  | some z => exact h.sizes_le z (List.mem_of_getElem? hz)

/-- The pool of a bucket changes. -/
theorem Inv.put (h : t.Inv held) (hi : i < t.sys.numBuckets) {b : SmartBucket}
    (hb : b.shape = (t.sys.bucket i).shape) (hpool : ∀ c ∈ b.pool, c.size = b.maxSize) (mems : List MemChunk)
    (hheld : ∀ p ∈ held', t.sys.find p.1 = some p.2.1 ∧ p.2.2.size = (t.sys.bucket p.2.1).maxSize) :
    ({ t with sys := t.sys.put i b mems } : SmartTable).Inv held' := by
  have hlt : i < t.sys.buckets.length := hi.trans_le h.le
  have hshape := shape_put hlt hb mems
  have hint : (t.sys.put i b mems).intervals = t.sys.intervals := SmartBuffers.intervals_congr rfl hshape
  refine ⟨h.pos, ?_, h.grows, h.sizes.trans (congrArg _ hint.symm), h.sizes_le, ?_, h.moved, ?_, fun p hp => ?_⟩
  · exact h.le.trans_eq List.length_set.symm
  · rw [hint]
    exact h.consecutive
  · intro b' hb'
    have hset : (t.sys.put i b mems).buckets.take t.sys.numBuckets = (t.sys.buckets.take t.sys.numBuckets).set i b :=
      List.take_set
    rw [show (t.sys.put i b mems).numBuckets = t.sys.numBuckets from rfl, hset] at hb'
    obtain hb' | rfl := List.mem_or_eq_of_mem_set hb'
    · exact h.pools b' hb'
    · exact hpool
  · rw [find_put hlt hb, maxSize_congr hshape]
    exact hheld p hp

end SmartTable

namespace SmartBuffers

variable {s s' : SmartBuffers} {i : ℕ} {c : SmartChunk}

theorem put_put (b b' : SmartBucket) (mems mems' : List MemChunk) :
    (s.put i b mems).put i b' mems' = s.put i b' mems' := by
  simp [put]

theorem growBucket_eq_some (h : s.growBucket i = some s') : ∃ mems, s' = s.put i (SmartUse.grown s i) mems := by
  rw [growBucket] at h
  split at h
  · cases h
    exact ⟨_, rfl⟩
  · cases h

theorem extract_eq_some (h : s.extract i = some (s', c)) :
    ∃ d cs, (s.bucket i).pool = d :: cs ∧ c = { d with inUse := true } ∧
      s' = s.put i { s.bucket i with pool := cs } s.baseMemChunks := by
  rw [extract] at h
  split at h
  · cases h
  · cases h
    exact ⟨_, _, ‹_›, rfl, rfl⟩

/-- A new bucket, where the array has room for it. -/
theorem newBucket_eq_some {sz : ℕ} (h : s.newBucket sz = some s') :
    ∃ b, s.numBuckets < s.buckets.length ∧ s'.numBuckets = s.numBuckets + 1 ∧
      s'.bucketSizes = s.bucketSizes.take s.numBuckets ++ [b.maxSize] ∧ s'.buckets = s.buckets.set s.numBuckets b ∧
      b.maxSize = s.newBucketMaxSize sz ∧ ∀ c ∈ b.pool, c.size = b.maxSize := by
  rw [newBucket] at h
  split at h
  · cases h
    refine ⟨_, ‹_›, rfl, rfl, rfl, rfl, fun c hc => ?_⟩
    obtain ⟨j, -, rfl⟩ := List.mem_map.1 hc
    rfl
  · cases h

/-- The chunks of a bucket that has grown are of its size, if those it had are. -/
theorem size_grown (hi : ∀ c ∈ (s.bucket i).pool, c.size = (s.bucket i).maxSize) :
    ∀ c ∈ (SmartUse.grown s i).pool, c.size = (s.bucket i).maxSize := by
  intro c hc
  obtain hc | hc := List.mem_append.1 hc
  · obtain ⟨j, -, rfl⟩ := List.mem_map.1 (List.mem_reverse.1 hc)
    rfl
  · exact hi c hc

end SmartBuffers

namespace SmartTable

variable {t t' : SmartTable} {held held' : List (ℕ × ℕ × SmartChunk)} {m : Moves} {i sz : ℕ} {c : SmartChunk}

/-- **A chunk is taken**: nothing changes but the pool of its bucket, and it is of the size of the others. -/
theorem takeChunk_eq_some (hi : i < t.sys.buckets.length) (h : t.takeChunk i = some (t', c)) :
    ∃ b mems, t' = { t with sys := t.sys.put i b mems } ∧ b.shape = (t.sys.bucket i).shape ∧
      ((∀ d ∈ (t.sys.bucket i).pool, d.size = (t.sys.bucket i).maxSize) →
        c.size = (t.sys.bucket i).maxSize ∧ ∀ d ∈ b.pool, d.size = (t.sys.bucket i).maxSize) := by
  obtain ⟨cs, hcs, h⟩ := Option.bind_eq_some_iff.1 h
  obtain ⟨s, hs, h⟩ := Option.bind_eq_some_iff.1 h
  obtain ⟨⟨s', c'⟩, hx, heq⟩ := Option.map_eq_some_iff.1 h
  cases heq
  obtain ⟨d, ds, hd, rfl, rfl⟩ := SmartBuffers.extract_eq_some hx
  split at hs
  · -- the bucket has grown
    obtain ⟨mems, rfl⟩ := SmartBuffers.growBucket_eq_some hs
    rw [SmartBuffers.bucket_put hi] at hd ⊢
    refine ⟨{ SmartUse.grown t.sys i with pool := ds }, mems, ?_, rfl, fun hall => ?_⟩
    · exact congrArg (fun s => ({ t with sys := s } : SmartTable)) (SmartBuffers.put_put ..)
    have hsize := SmartBuffers.size_grown hall
    rw [hd] at hsize
    exact ⟨hsize d List.mem_cons_self, fun x hx => hsize x (List.mem_cons_of_mem _ hx)⟩
  · cases hs
    refine ⟨_, _, rfl, rfl, fun hall => ?_⟩
    rw [hd] at hall
    exact ⟨hall d List.mem_cons_self, fun x hx => hall x (List.mem_cons_of_mem _ hx)⟩

/-- What a new bucket is like. -/
structure Added (t : SmartTable) (m : Moves) (sz : ℕ) (t' : SmartTable) (b : SmartBucket) : Prop where
  /-- It is behind the others, -/
  buckets : t'.sys.buckets.take t'.sys.numBuckets = t.sys.buckets.take t.sys.numBuckets ++ [b]
  /-- one more, -/
  num : t'.sys.numBuckets = t.sys.numBuckets + 1
  /-- and it is in the array. -/
  le : t'.sys.numBuckets ≤ t'.sys.buckets.length
  /-- Its size is one of the sizes. -/
  sizes : t'.sys.bucketSizes = t.sys.bucketSizes.take t.sys.numBuckets ++ [b.maxSize]
  /-- Its least size is computed from what is read. -/
  minSize : b.minSize = (t.lastBucketSz m + 1) % 2 ^ 64
  /-- Its size is computed from the last size. -/
  maxSize : b.maxSize = t.sys.newBucketMaxSize sz
  /-- Its chunks are of its size. -/
  pool : ∀ c ∈ b.pool, c.size = b.maxSize
  /-- Which buckets have been moved. -/
  moved : t'.moved = if t.bucketsGrow ∧ m.buckets = true then t.sys.numBuckets else t.moved
  /-- The array of the buckets grows as before. -/
  allocationSize : t'.allocationSize = t.allocationSize

theorem take_succ_set {α : Type} {l : List α} {n : ℕ} (h : n < l.length) (x : α) :
    (l.set n x).take (n + 1) = l.take n ++ [x] := by
  rw [List.take_set, List.take_add_one, List.getElem?_eq_getElem h, List.set_append_right _ _ (by simp)]
  simp [Nat.min_eq_left h.le]

/-- **A bucket is added.** -/
theorem Inv.added (h : t.Inv held) (ht : t.newBucket m sz = some t') : ∃ b, t.Added m sz t' b := by
  rw [newBucket] at ht
  split at ht
  · cases ht
  · obtain ⟨s, hs, rfl⟩ := Option.map_eq_some_iff.1 ht
    obtain ⟨b, hroom, hnum, hsizes, hset, hmax, hpool⟩ := SmartBuffers.newBucket_eq_some hs
    have hlen : t.sys.numBuckets < t.room.buckets.length := hroom
    have htake : t.room.buckets.take t.sys.numBuckets = t.sys.buckets.take t.sys.numBuckets := by
      rw [room, List.take_append_of_le_length h.le]
    have hb : s.bucket t.sys.numBuckets = b := by
      have hlt : t.sys.numBuckets < (t.room.buckets.set t.room.numBuckets b).length := by simpa using hlen
      rw [SmartBuffers.bucket, hset, List.getD_eq_getElem _ _ hlt]
      exact List.getElem_set_self hlt
    refine ⟨{ b with minSize := (t.lastBucketSz m + 1) % 2 ^ 64 }, ⟨?_, hnum, ?_, hsizes, rfl, hmax, hpool, rfl, rfl⟩⟩
    · show (s.buckets.set _ _).take s.numBuckets = _
      rw [hnum, hset, hb, ← htake]
      show ((t.room.buckets.set t.sys.numBuckets b).set t.sys.numBuckets _).take (t.sys.numBuckets + 1) = _
      rw [List.set_set, take_succ_set hlen]
    · show s.numBuckets ≤ (s.buckets.set _ _).length
      rw [List.length_set, hset, List.length_set, hnum]
      exact hlen

namespace Added

variable {b : SmartBucket}

theorem intervals (h : t.Added m sz t' b) : t'.sys.intervals = t.sys.intervals ++ [(b.minSize, b.maxSize)] := by
  rw [SmartBuffers.intervals, h.buckets, List.map_append]
  rfl

/-- What is found stays. -/
theorem find_eq (h : t.Added m sz t' b) {z : ℕ} (hf : t.sys.find z = some i) : t'.sys.find z = some i := by
  rw [SmartBuffers.find_eq] at hf ⊢
  rw [h.intervals]
  exact Intervals.find_append hf _

/-- The other buckets stay. -/
theorem bucket_eq (h : t.Added m sz t' b) (hi : i < t.sys.numBuckets) (hle : t.sys.numBuckets ≤ t.sys.buckets.length) :
    t'.sys.bucket i = t.sys.bucket i := by
  have hlt : i < t'.sys.numBuckets := hi.trans (Nat.lt_of_lt_of_eq (Nat.lt_succ_self _) h.num.symm)
  have htake := congrArg (·[i]?) h.buckets
  have hlen : i < (t.sys.buckets.take t.sys.numBuckets).length := by simpa using ⟨hi, hi.trans_le hle⟩
  simp only [List.getElem?_take_of_lt hlt, List.getElem?_append_left hlen, List.getElem?_take_of_lt hi] at htake
  simp [SmartBuffers.bucket, htake]

/-- The bucket that is added. -/
theorem bucket_new (h : t.Added m sz t' b) (hle : t.sys.numBuckets ≤ t.sys.buckets.length) :
    t'.sys.bucket t.sys.numBuckets = b := by
  have hlt : t.sys.numBuckets < t'.sys.numBuckets := Nat.lt_of_lt_of_eq (Nat.lt_succ_self _) h.num.symm
  have htake := congrArg (·[t.sys.numBuckets]?) h.buckets
  simp [List.getElem?_take_of_lt hlt, Nat.min_eq_left hle] at htake
  simp [SmartBuffers.bucket, htake]

end Added

/-- The size of a new bucket is larger than what is asked for. -/
theorem lt_newBucketMaxSize (s : SmartBuffers) (hsz : sz < 2 ^ 63) :
    sz < s.newBucketMaxSize sz ∧ s.newBucketMaxSize sz ≤ UINT64_MAX := by
  have hU : UINT64_MAX = 2 ^ 64 - 1 := by decide
  simp only [SmartBuffers.newBucketMaxSize]
  split <;> omega

/-- A request that makes a new bucket is behind the last one, unless that serves all sizes. -/
theorem Inv.lt_of_creates (h : t.Inv held) (hc : t.creates sz) (hlast : t.sys.lastBucketSize ≠ UINT64_MAX) :
    t.sys.lastBucketSize < sz := by
  have hend := h.next_eq
  cases hf : t.sys.find sz with
  | none =>
    rw [SmartBuffers.find_eq] at hf
    have hle := (Intervals.find_eq_none h.consecutive (Nat.zero_le sz)).1 hf
    omega
  | some i =>
    -- the last bucket ends behind all others
    have hmem := h.bucket_mem (SmartBuffers.lt_of_find h.le hf)
    have hlt := Intervals.lt_next h.consecutive (List.mem_map_of_mem hmem)
    have hmax := hc i hf
    have hle := h.lastBucketSize_le
    simp only at hlt
    omega

/-- **A bucket that is added** where it is safe begins behind the last one. -/
theorem Inv.newBucket (h : t.Inv held) (hsz : sz < 2 ^ 63) (hc : t.creates sz)
    (hsafe : t.sys.lastBucketSize ≠ UINT64_MAX ∧ t.lastBucketSz m = t.sys.lastBucketSize ∧
      ¬ (t.bucketsGrow ∧ m.buckets = true)) {b : SmartBucket} (hadd : t.Added m sz t' b) :
    t'.Inv held ∧ t'.sys.find sz = some t.sys.numBuckets := by
  obtain ⟨hlast, hread, hstay⟩ := hsafe
  have hlt := h.lt_of_creates hc hlast
  have hU : UINT64_MAX = 2 ^ 64 - 1 := by decide
  obtain ⟨hmax, hmaxle⟩ := lt_newBucketMaxSize t.sys hsz
  have hend := h.next_eq
  have hmin : b.minSize = t.sys.lastBucketSize + 1 := by
    rw [hadd.minSize, hread]
    exact Nat.mod_eq_of_lt (by omega)
  have hlen := SmartBuffers.length_intervals h.le
  refine ⟨⟨?_, hadd.le, ?_, ?_, ?_, ?_, ?_, ?_, fun p hp => ?_⟩, ?_⟩
  · rw [hadd.num]
    exact Nat.succ_pos _
  · exact h.grows.trans_eq hadd.allocationSize.symm
  · rw [hadd.sizes, hadd.intervals, List.map_append, List.take_of_length_le, h.sizes]
    · rfl
    · rw [h.sizes, List.length_map, hlen]
  · intro z hz
    rw [hadd.sizes] at hz
    obtain hz | hz := List.mem_append.1 hz
    · exact h.sizes_le z (List.mem_of_mem_take hz)
    · rw [List.mem_singleton.1 hz, hadd.maxSize]
      exact hmaxle
  · rw [hadd.intervals, Intervals.consecutive_append, hend, hmin, hadd.maxSize]
    exact ⟨h.consecutive, rfl, by omega⟩
  · rw [hadd.moved, if_neg hstay]
    exact h.moved
  · intro b' hb'
    rw [hadd.buckets] at hb'
    obtain hb' | hb' := List.mem_append.1 hb'
    · exact h.pools b' hb'
    · rw [List.mem_singleton.1 hb']
      exact hadd.pool
  · obtain ⟨hf, hsize⟩ := h.held p hp
    refine ⟨hadd.find_eq hf, ?_⟩
    rw [hadd.bucket_eq (SmartBuffers.lt_of_find h.le hf) h.le]
    exact hsize
  · rw [SmartBuffers.find_eq, hadd.intervals, ← hlen]
    apply Intervals.find_append_new h.consecutive
    · omega
    · exact hmin.trans_le hlt
    · exact (hadd.maxSize ▸ hmax).le

/-! ### The operations -/

theorem target_eq_some (h : t.target m sz = some (t', i)) :
    (t.creates sz ∧ t.newBucket m sz = some t' ∧ i = t.sys.numBuckets) ∨
      (¬ t.creates sz ∧ t' = t ∧ t.sys.find sz = some i) := by
  unfold target at h
  split at h
  next j hj =>
    split at h
    next hmax =>
      obtain ⟨s, hs, heq⟩ := Option.map_eq_some_iff.1 h
      cases heq
      refine .inl ⟨fun k hk => ?_, hs, rfl⟩
      rw [hj] at hk
      cases hk
      exact hmax
    next hmax =>
      cases h
      exact .inr ⟨fun hc => hmax (hc _ hj), rfl, hj⟩
  next hnone =>
    obtain ⟨s, hs, heq⟩ := Option.map_eq_some_iff.1 h
    cases heq
    exact .inl ⟨fun k hk => by simp [hnone] at hk, hs, rfl⟩

/-- A chunk is put into the pool of the bucket that serves the size. -/
theorem ret_eq_some (h : t.ret sz c = some t') :
    ∃ i, t.sys.find sz = some i ∧ t' = { t with
      sys := t.sys.put i { t.sys.bucket i with pool := { c with inUse := false } :: (t.sys.bucket i).pool }
        t.sys.baseMemChunks } := by
  obtain ⟨i, hf, h⟩ := Option.bind_eq_some_iff.1 h
  obtain ⟨cs, -, h⟩ := Option.bind_eq_some_iff.1 h
  obtain ⟨s, hs, rfl⟩ := Option.map_eq_some_iff.1 h
  rw [SmartBuffers.ret, hf] at hs
  cases hs
  exact ⟨i, hf, rfl⟩

/-- **A chunk is taken** out of the bucket that serves the request. -/
theorem Inv.takeChunk (h : t.Inv held) (hf : t.sys.find sz = some i) (ht : t.takeChunk i = some (t', c)) :
    t'.Inv (held ++ [(sz, i, c)]) ∧ t'.sys.numBuckets = t.sys.numBuckets ∧
      ∀ j, (t'.sys.bucket j).maxSize = (t.sys.bucket j).maxSize := by
  have hi := SmartBuffers.lt_of_find h.le hf
  have hlt : i < t.sys.buckets.length := hi.trans_le h.le
  obtain ⟨b, mems, rfl, hshape, hsize⟩ := takeChunk_eq_some hlt ht
  obtain ⟨hc, hpool⟩ := hsize (h.pools _ (h.bucket_mem hi))
  have hmax : b.maxSize = (t.sys.bucket i).maxSize := by
    show b.shape.maxSize = _
    rw [hshape]
    rfl
  refine ⟨h.put hi hshape (hmax ▸ hpool) mems fun p hp => ?_, rfl, maxSize_congr (shape_put hlt hshape mems)⟩
  obtain hp | hp := List.mem_append.1 hp
  · exact h.held p hp
  · rw [List.mem_singleton.1 hp]
    exact ⟨hf, hc⟩

end SmartTable

namespace TableUse

variable {u u' : TableUse} {op : TableOp} {ops : List TableOp}

theorem step_get_eq_some {m : Moves} {sz : ℕ} (h : u.step (.get m sz) = some u') :
    ∃ t i t' c, u.table.target m sz = some (t, i) ∧ t.takeChunk i = some (t', c) ∧
      u' = ⟨t', u.held ++ [(sz, i, c)]⟩ := by
  obtain ⟨p, hp, rfl⟩ := Option.map_eq_some_iff.1 h
  obtain ⟨⟨t, i⟩, ht, hp⟩ := Option.bind_eq_some_iff.1 hp
  obtain ⟨⟨t', c⟩, hc, rfl⟩ := Option.map_eq_some_iff.1 hp
  exact ⟨t, i, t', c, ht, hc, rfl⟩

/-- **A safe step** keeps what is kept. -/
theorem step_inv (h : u.table.Inv u.held) (hop : op.Small) (hs : u.step op = some u') (hsafe : u.SafeStep op) :
    u.Suffices op u' ∧ u'.table.Inv u'.held := by
  cases op with
  | get m sz =>
    obtain ⟨t, i, t', c, ht, hc, rfl⟩ := step_get_eq_some hs
    obtain ⟨hcre, hnew, rfl⟩ | ⟨-, rfl, hf⟩ := SmartTable.target_eq_some ht
    · obtain ⟨b, hadd⟩ := h.added hnew
      obtain ⟨hinv, hf⟩ := h.newBucket hop hcre (hsafe hcre) hadd
      obtain ⟨hinv', -, hmax⟩ := hinv.takeChunk hf hc
      refine ⟨fun _ => ?_, hinv'⟩
      show sz ≤ (t'.sys.bucket u.table.sys.numBuckets).maxSize
      rw [hmax, hadd.bucket_new h.le, hadd.maxSize]
      exact (SmartTable.lt_newBucketMaxSize _ hop).1.le
    · obtain ⟨hinv', hnum, -⟩ := h.takeChunk hf hc
      exact ⟨fun hlt => absurd hlt (hnum ▸ Nat.lt_irrefl _), hinv'⟩
  | ret k =>
    refine ⟨trivial, ?_⟩
    obtain ⟨⟨sz, j, c⟩, hk, hs⟩ := Option.bind_eq_some_iff.1 hs
    obtain ⟨t, ht, heq⟩ := Option.bind_eq_some_iff.1 hs
    cases heq
    obtain ⟨i, hf, rfl⟩ := SmartTable.ret_eq_some ht
    obtain ⟨hf', hsize⟩ := h.held _ (List.mem_of_getElem? hk)
    obtain rfl : i = j := Option.some.inj (hf.symm.trans hf')
    have hi := SmartBuffers.lt_of_find h.le hf
    have hshape : SmartBucket.shape { u.table.sys.bucket i with
        pool := { c with inUse := false } :: (u.table.sys.bucket i).pool } = (u.table.sys.bucket i).shape := rfl
    apply h.put hi hshape (fun d hd => ?_) _ fun p hp => h.held p (List.mem_of_mem_eraseIdx hp)
    obtain rfl | hd := List.mem_cons.1 hd
    · exact hsize
    · exact h.pools _ (h.bucket_mem hi) d hd

/-- **A step that is not safe**, and returns, spoils the partition. -/
theorem not_partitioned (h : u.table.Inv u.held) (hs : u.step op = some u') (hsafe : ¬ u.SafeStep op) :
    ¬ u'.Partitioned := by
  cases op with
  | ret k => exact absurd trivial hsafe
  | get m sz =>
    obtain ⟨hcre, hunsafe⟩ := Classical.not_imp.1 hsafe
    obtain ⟨t, i, t', c, ht, hc, rfl⟩ := step_get_eq_some hs
    obtain ⟨-, hnew, rfl⟩ | ⟨hno, -⟩ := SmartTable.target_eq_some ht
    · obtain ⟨b, hadd⟩ := h.added hnew
      have hlt : u.table.sys.numBuckets < t.sys.buckets.length :=
        (Nat.lt_of_lt_of_eq (Nat.lt_succ_self _) hadd.num.symm).trans_le hadd.le
      obtain ⟨b', mems, rfl, hshape, -⟩ := SmartTable.takeChunk_eq_some hlt hc
      have hint : (t.sys.put u.table.sys.numBuckets b' mems).intervals = t.sys.intervals :=
        SmartBuffers.intervals_congr rfl (shape_put hlt hshape mems)
      intro hpart
      have hcons := hpart.consecutive
      rw [show (⟨{ t with sys := t.sys.put _ b' mems }, _⟩ : TableUse).table.sys = t.sys.put _ b' mems from rfl, hint,
        hadd.intervals, Intervals.consecutive_append, h.next_eq, hadd.minSize] at hcons
      have hle := h.lastBucketSize_le
      have hU : UINT64_MAX = 2 ^ 64 - 1 := by decide
      have hread : u.table.lastBucketSz m < 2 ^ 64 := by
        rw [SmartTable.lastBucketSz]
        split
        · cases m.sizes with
          | none => simp; omega
          | some z => exact z.toNat_lt
        · omega
      refine hunsafe ⟨by omega, by omega, fun hmove => ?_⟩
      -- the pool of the first bucket is lost
      obtain ⟨cs, hcs, -⟩ := hpart.pools 0 (Nat.lt_of_lt_of_eq (Nat.succ_pos _) hadd.num.symm)
      have hmoved := hadd.moved
      rw [if_pos hmove] at hmoved
      rw [SmartTable.pool, if_neg] at hcs
      · cases hcs
      · rw [show (⟨{ t with sys := t.sys.put _ b' mems }, _⟩ : TableUse).table.moved = t.moved from rfl, hmoved]
        exact Nat.not_le_of_gt h.pos
    · exact absurd hcre hno

theorem asks_meets : Runs.Asks step id Partitioned Suffices Meets := ⟨fun _ => Iff.rfl, fun _ _ _ => Iff.rfl⟩

theorem allows_safe : Runs.Allows step id SafeStep Safe := ⟨fun _ => trivial, fun u op ops u' hs => by simp [Safe, hs]⟩

/-- **A run** keeps the partition exactly when its steps are safe. -/
theorem meets_iff (h : u.table.Inv u.held) (hops : ∀ op ∈ ops, op.Small) : u.Meets ops ↔ u.Safe ops := by
  apply Runs.asks_iff (I := fun u : TableUse => u.table.Inv u.held) asks_meets allows_safe _ _ _ _ h hops
  · intro u op ops hs u' hs'
    rw [hs] at hs'
    cases hs'
  · exact fun h => h.partitioned
  · exact fun h hop hs hsafe => step_inv h hop hs hsafe
  · exact fun h _ hs hno hboth => not_partitioned h hs hno hboth.2

end TableUse

/-- The buckets at the start. -/
theorem SmartTable.inv_init {sizes : List ℕ} {t : SmartTable} (hinc : sizes.Pairwise (· < ·))
    (hle : ∀ z ∈ sizes, z ≤ UINT64_MAX) (ht : SmartTable.init sizes = some t) : t.Inv [] := by
  rw [SmartTable.init] at ht
  split at ht
  · cases ht
  · next hne =>
    cases ht
    have hmax : (SmartBuffers.ofSizes sizes).intervals.map (·.2) = sizes := by
      rw [SmartBuffers.intervals, List.map_map]
      exact maxSize_initBuckets
    refine ⟨?_, ?_, Nat.succ_pos _, hmax.symm, hle, ?_, rfl, fun b hb => ?_, fun p hp => absurd hp List.not_mem_nil⟩
    · exact List.length_pos_of_ne_nil fun hnil => hne (.inl hnil)
    · show sizes.length ≤ (initBuckets _ _ _ _).length
      rw [length_initBuckets]
      exact Nat.le_succ _
    · exact intervals_initBuckets hinc fun z _ => Nat.zero_le z
    · exact SmartUse.pool_initBuckets b (List.mem_of_mem_take hb)

/-- **The buckets partition the sizes along a run** exactly when no step that returns makes a bucket behind one that
serves all sizes, reads the last size where it is not, or moves the buckets. -/
theorem buckets_iff {sizes : List ℕ} {t : SmartTable} {ops : List TableOp} (hinc : sizes.Pairwise (· < ·))
    (hle : ∀ z ∈ sizes, z ≤ UINT64_MAX) (ht : SmartTable.init sizes = some t) (hops : ∀ op ∈ ops, op.Small) :
    (⟨t, []⟩ : TableUse).Meets ops ↔ (⟨t, []⟩ : TableUse).Safe ops :=
  TableUse.meets_iff (SmartTable.inv_init hinc hle ht) hops

/-- One size, a request behind it, and its return. -/
theorem buckets_iff_one : ∃ t, SmartTable.init [8388608] = some t ∧
    ((⟨t, []⟩ : TableUse).Meets [.get ⟨none, false⟩ 8388609, .ret 0] ↔
      (⟨t, []⟩ : TableUse).Safe [.get ⟨none, false⟩ 8388609, .ret 0]) := by
  obtain ⟨t, ht⟩ : ∃ t, SmartTable.init [8388608] = some t := ⟨_, rfl⟩
  refine ⟨t, ht, buckets_iff (by simp) (by decide) ht fun op hop => ?_⟩
  simp at hop
  obtain rfl | rfl := hop <;> simp [TableOp.Small]

/-- Fourteen sizes, as many as there is room for. -/
def fourteenSizes : List ℕ := (List.range 14).map (748969 + ·)

/-- The array of the sizes moves for a bucket behind fourteen, and the last size reads as 0 where it was: the bucket
does not begin behind the last one. -/
theorem not_buckets :
    ((SmartTable.init fourteenSizes).bind fun t => (t.get ⟨some 0, false⟩ 748983).map fun p =>
      (p.1.sys.intervals.drop 13, decide (Intervals.Consecutive 0 p.1.sys.intervals))) =
        some ([(748982, 748982), (1, 1497964)], false) ∧
    ¬ ∀ (sizes : List ℕ) (t : SmartTable) (ops : List TableOp), sizes.Pairwise (· < ·) → (∀ z ∈ sizes, z ≤ UINT64_MAX) →
      SmartTable.init sizes = some t → (∀ op ∈ ops, op.Small) → (⟨t, []⟩ : TableUse).Meets ops := by
  have hval : ((SmartTable.init fourteenSizes).bind fun t => (t.get ⟨some 0, false⟩ 748983).map fun p =>
      (p.1.sys.intervals.drop 13, decide (Intervals.Consecutive 0 p.1.sys.intervals))) =
        some ([(748982, 748982), (1, 1497964)], false) := by decide +kernel
  refine ⟨hval, fun hall => ?_⟩
  obtain ⟨t, ht, hget⟩ := Option.bind_eq_some_iff.1 hval
  obtain ⟨p, hp, hval⟩ := Option.map_eq_some_iff.1 hget
  have hstep : (⟨t, []⟩ : TableUse).step (.get ⟨some 0, false⟩ 748983) = some ⟨p.1, [(748983, p.2)]⟩ := by
    simp [TableUse.step, hp]
  have hmeets := hall fourteenSizes t [.get ⟨some 0, false⟩ 748983] (by decide) (by decide) ht (by simp [TableOp.Small])
  obtain ⟨-, hpart⟩ := hmeets.2 _ hstep
  exact of_decide_eq_false (Prod.mk.inj hval).2 hpart.consecutive

end DpuOffload
