import DpuOffload.Buffers.Smart

/-!
# Smart buffers do not overlap

However chunks are requested and returned, those in use and those in the pools are apart and
inside the memory that was allocated (`SmartUse.Sound`). What carries it is that an operation
moves a chunk between a pool and its user, or adds the chunks of a new segment.

* `smart_buffers_sound_iff` — **this is so exactly as long as no request is larger than every
  bucket.** The loop that fills a new bucket goes up to and including the number of chunks the
  new memory has room for, so that the last chunk is past its end.
-/

namespace DpuOffload

/-! ### The property -/

/-- The chunks in the pools. -/
def SmartBuffers.chunks (s : SmartBuffers) : List SmartChunk := s.buckets.flatMap (·.pool)

/-- The sizes allocated for the segments. -/
def SmartBuffers.mems (s : SmartBuffers) : List ℕ := s.baseMemChunks.map (·.allocated)

/-- The memory of the chunks in the pools and in use. -/
def SmartUse.extents (u : SmartUse) : List Extent :=
  u.sys.chunks.map (·.extent) ++ u.held.map (·.2.extent)

/-- No chunk overlaps another, each is inside its segment, and those in use are large enough. -/
structure SmartUse.Sound (u : SmartUse) : Prop where
  /-- Disjoint and inside. -/
  packed : Extent.Packed u.sys.mems u.extents
  /-- Large enough. -/
  fits : ∀ p ∈ u.held, p.1 ≤ p.2.size

/-- Every operation returns, and all is well before and after it. -/
def SmartUse.Meets (u : SmartUse) : List SmartOp → Prop
  | [] => u.Sound
  | op :: ops => u.Sound ∧ ∃ u', u.step op = some u' ∧ u'.Meets ops

/-- Only chunks in use are returned, `n` being in use at the start. -/
def WellUsed : ℕ → List SmartOp → Prop
  | _, [] => True
  | n, .get _ :: ops => WellUsed (n + 1) ops
  | n, .ret i :: ops => i < n ∧ WellUsed (n - 1) ops

/-- The buffers at the start, unused. -/
def SmartUse.start (B : BucketSizes) : SmartUse := ⟨smartBuffsInit B, []⟩

/-- The largest size. -/
def BucketSizes.largest (B : BucketSizes) : ℕ := B.sizes.getLast B.ne_nil

/-! ### Chunks, bucket by bucket -/

namespace SmartBuffers

variable {s : SmartBuffers} {i : ℕ}

/-- The chunks in the other pools. -/
def others (s : SmartBuffers) (i : ℕ) : List SmartChunk := (s.buckets.eraseIdx i).flatMap (·.pool)

theorem getElem_perm {α : Type} {l : List α} (h : i < l.length) : l.Perm (l[i] :: l.eraseIdx i) := by
  induction l generalizing i with
  | nil => exact absurd h (Nat.not_lt_zero i)
  | cons a l ih =>
    cases i with
    | zero => exact .refl _
    | succ i => exact ((ih (Nat.lt_of_succ_lt_succ h)).cons a).trans (.swap _ _ _)

theorem bucket_eq (h : i < s.buckets.length) : s.bucket i = s.buckets[i] := List.getD_eq_getElem _ _ h

theorem chunks_perm (h : i < s.buckets.length) : s.chunks.Perm ((s.bucket i).pool ++ s.others i) := by
  rw [bucket_eq h]
  exact (getElem_perm h).flatMap_right _

/-- Another bucket at a position, and other segments. -/
def put (s : SmartBuffers) (i : ℕ) (b : SmartBucket) (mems : List MemChunk) : SmartBuffers :=
  { s with buckets := s.buckets.set i b, baseMemChunks := mems }

theorem bucket_put (h : i < s.buckets.length) (b : SmartBucket) (mems : List MemChunk) :
    (s.put i b mems).bucket i = b := by
  have h' : i < (s.buckets.set i b).length := by rw [List.length_set]; exact h
  exact (List.getD_eq_getElem _ _ h').trans (List.getElem_set_self h')

theorem chunks_put_perm (h : i < s.buckets.length) (b : SmartBucket) (mems : List MemChunk) :
    (s.put i b mems).chunks.Perm (b.pool ++ s.others i) := by
  have h' : i < (s.put i b mems).buckets.length := by rw [put, List.length_set]; exact h
  have hp := chunks_perm h'
  have ho : (s.put i b mems).others i = s.others i := congrArg (List.flatMap _) (List.eraseIdx_set_eq ..)
  rw [bucket_put h, ho] at hp
  exact hp

end SmartBuffers

/-- The memory of new chunks. -/
theorem map_extent_newChunks (b : SmartBucket) (bucket : Option ℕ) (seg off n : ℕ) :
    (newChunks b bucket seg off n).map (·.extent) = Extent.carve seg off b.maxSize n := by
  rw [newChunks, Extent.carve, List.map_map]
  rfl

/-! ### What the buckets serve -/

/-- What does not change about a bucket. -/
def SmartBucket.shape (b : SmartBucket) : SmartBucket := { b with pool := [], smartChunksSeqNum := 0 }

theorem find_congr {s s' : SmartBuffers} (hn : s.numBuckets = s'.numBuckets)
    (hs : s.buckets.map SmartBucket.shape = s'.buckets.map SmartBucket.shape) (sz : ℕ) : s.find sz = s'.find sz := by
  have key : ∀ t : SmartBuffers, t.find sz =
      ((t.buckets.map SmartBucket.shape).take t.numBuckets).findIdx? (·.serves sz) := by
    intro t
    rw [← List.map_take, List.findIdx?_map]
    rfl
  rw [key s, key s', hn, hs]

theorem maxSize_congr {s s' : SmartBuffers}
    (hs : s.buckets.map SmartBucket.shape = s'.buckets.map SmartBucket.shape) (i : ℕ) :
    (s.bucket i).maxSize = (s'.bucket i).maxSize := by
  have key : ∀ t : SmartBuffers,
      (t.bucket i).maxSize = ((t.buckets.map SmartBucket.shape).getD i SmartBucket.zero.shape).maxSize := by
    intro t
    rw [List.getD_map]
    rfl
  rw [key s, key s', hs]

theorem shape_put {s : SmartBuffers} {i : ℕ} (hi : i < s.buckets.length) {b : SmartBucket}
    (hb : b.shape = (s.bucket i).shape) (mems : List MemChunk) :
    (s.put i b mems).buckets.map SmartBucket.shape = s.buckets.map SmartBucket.shape := by
  rw [SmartBuffers.put, List.map_set, hb, SmartBuffers.bucket_eq hi, ← List.map_set, List.set_getElem_self]

theorem find_put {s : SmartBuffers} {i : ℕ} (hi : i < s.buckets.length) {b : SmartBucket}
    (hb : b.shape = (s.bucket i).shape) (mems : List MemChunk) (sz : ℕ) : (s.put i b mems).find sz = s.find sz := by
  have hn : (s.put i b mems).numBuckets = s.numBuckets := rfl
  exact find_congr hn (shape_put hi hb mems) sz

section

variable {share : ℕ} {zs : List ℕ} {b : SmartBucket} {sz : ℕ}

theorem length_initBuckets (n lo : ℕ) : (initBuckets share n lo zs).length = zs.length + 1 := by
  induction zs generalizing n lo with
  | nil => rfl
  | cons z zs ih => rw [initBuckets, List.length_cons, ih, List.length_cons]

/-- A bucket of the start, but for the last. -/
theorem mem_take_initBuckets {n lo : ℕ} (h : b ∈ (initBuckets share n lo zs).take zs.length) :
    b.maxSize ∈ zs ∧ b.sys = true ∧ b.initialSize = share / b.maxSize := by
  induction zs generalizing n lo with
  | nil => exact absurd h List.not_mem_nil
  | cons z zs ih =>
    rw [initBuckets, List.length_cons, List.take_succ_cons] at h
    rcases List.mem_cons.1 h with rfl | h
    · exact ⟨List.mem_cons_self, rfl, rfl⟩
    · obtain ⟨h₁, h₂⟩ := ih h
      exact ⟨List.mem_cons_of_mem _ h₁, h₂⟩

/-- Every size up to the largest is served. -/
theorem exists_serves (hne : zs ≠ []) {n lo : ℕ} (hlo : lo ≤ sz) (hle : sz ≤ zs.getLast hne) :
    ∃ b ∈ (initBuckets share n lo zs).take zs.length, b.serves sz = true := by
  induction zs generalizing n lo with
  | nil => exact absurd rfl hne
  | cons z zs ih =>
    rw [initBuckets, List.length_cons, List.take_succ_cons]
    by_cases hz : sz ≤ z
    · refine ⟨_, List.mem_cons_self, ?_⟩
      simp [SmartBucket.serves, SmartBucket.allocSmartChunks, hlo, hz]
    · cases zs with
      | nil => exact absurd hle hz
      | cons y ys =>
        rw [List.getLast_cons (List.cons_ne_nil y ys)] at hle
        have hlo' : z + 1 ≤ sz := by omega
        obtain ⟨b, hb, hs⟩ := ih (List.cons_ne_nil y ys) (n := n + 1) hlo' hle
        exact ⟨b, List.mem_cons_of_mem _ hb, hs⟩

end

theorem BucketSizes.le_largest (B : BucketSizes) {z : ℕ} (hz : z ∈ B.sizes) : z ≤ B.largest := by
  have hinc := B.increasing
  rw [← List.dropLast_append_getLast B.ne_nil] at hz hinc
  rcases List.mem_append.1 hz with hz | hz
  · exact Nat.le_of_lt ((List.pairwise_append.1 hinc).2.2 z hz _ (List.mem_singleton_self _))
  · exact Nat.le_of_eq (List.mem_singleton.1 hz)

theorem BucketSizes.find_init (B : BucketSizes) {sz : ℕ} (h : sz ≤ B.largest) :
    ∃ i, (smartBuffsInit B).find sz = some i := by
  obtain ⟨b, hb, hs⟩ := @exists_serves (bucketMemSize B.sizes) _ sz B.ne_nil 0 0 (Nat.zero_le sz) h
  apply Option.isSome_iff_exists.1
  rw [SmartBuffers.find, List.findIdx?_isSome, List.any_eq_true]
  exact ⟨b, hb, hs⟩

theorem BucketSizes.find_init_eq_none (B : BucketSizes) {sz : ℕ} (h : B.largest < sz) :
    (smartBuffsInit B).find sz = none := by
  rw [SmartBuffers.find, List.findIdx?_eq_none_iff]
  intro b hb
  have hle := B.le_largest (mem_take_initBuckets hb).1
  simp only [SmartBucket.serves, Bool.and_eq_false_iff, decide_eq_false_iff_not]
  omega

/-! ### What is kept -/

/-- The bucket at a position is one of the start, as far as it does not change. -/
structure SmartBucket.Regular (B : BucketSizes) (b : SmartBucket) : Prop where
  /-- Its chunks are of one of the sizes. -/
  size : b.maxSize ∈ B.sizes
  /-- It points back. -/
  sys : b.sys = true
  /-- It has as many chunks as its share has room for. -/
  initial : b.initialSize = bucketMemSize B.sizes / b.maxSize

/-- **What is kept** as long as no request is larger than every bucket. -/
structure SmartUse.Kept (B : BucketSizes) (u : SmartUse) : Prop where
  /-- No bucket is added. -/
  num : u.sys.numBuckets = B.sizes.length
  /-- The sizes stay. -/
  sizes : u.sys.bucketSizes = B.sizes
  /-- The buckets stay, but for their chunks. -/
  shape : u.sys.buckets.map SmartBucket.shape = (smartBuffsInit B).buckets.map SmartBucket.shape
  /-- The chunks of a bucket are of its size. -/
  pools : ∀ b ∈ u.sys.buckets, ∀ c ∈ b.pool, c.size = b.maxSize
  /-- So are those in use. -/
  held : ∀ p ∈ u.held, ∃ i, u.sys.find p.1 = some i ∧ p.2.size = (u.sys.bucket i).maxSize
  /-- They do not overlap. -/
  packed : Extent.Packed u.sys.mems u.extents

namespace SmartUse

variable {B : BucketSizes} {u : SmartUse} {i sz : ℕ}

theorem Kept.length (h : u.Kept B) : u.sys.buckets.length = B.sizes.length + 1 := by
  have hl := congrArg List.length h.shape
  rw [List.length_map, List.length_map] at hl
  exact hl.trans (length_initBuckets 0 0)

theorem Kept.find (h : u.Kept B) (sz : ℕ) : u.sys.find sz = (smartBuffsInit B).find sz := find_congr h.num h.shape sz

/-- The bucket that is found. -/
theorem Kept.found (h : u.Kept B) (hf : u.sys.find sz = some i) :
    i < u.sys.buckets.length ∧ (u.sys.bucket i).Regular B ∧ sz ≤ (u.sys.bucket i).maxSize := by
  obtain ⟨hi, hs, -⟩ := List.findIdx?_eq_some_iff_getElem.1 hf
  have hn : u.sys.numBuckets < u.sys.buckets.length := by rw [h.num, h.length]; exact Nat.lt_succ_self _
  rw [List.length_take, Nat.min_eq_left (Nat.le_of_lt hn)] at hi
  have hlt : i < u.sys.buckets.length := Nat.lt_trans hi hn
  rw [List.getElem_take] at hs
  rw [SmartBuffers.bucket_eq hlt]
  refine ⟨hlt, ?_, ?_⟩
  · -- what the bucket has in common with the one of the start
    have hlt₀ : i < (smartBuffsInit B).buckets.length := by
      rw [h.length] at hlt
      exact Nat.lt_of_lt_of_eq hlt (length_initBuckets 0 0).symm
    have hsh : u.sys.buckets[i].shape = (smartBuffsInit B).buckets[i].shape := by
      have := congrArg (·[i]?) h.shape
      simpa [List.getElem?_eq_getElem hlt, List.getElem?_eq_getElem hlt₀] using this
    have hmem : (smartBuffsInit B).buckets[i] ∈ (smartBuffsInit B).buckets.take B.sizes.length :=
      List.mem_take_iff_getElem.2 ⟨i, by rw [← h.num]; exact Nat.lt_min.2 ⟨hi, hlt₀⟩, rfl⟩
    obtain ⟨h₁, h₂, h₃⟩ := mem_take_initBuckets hmem
    obtain ⟨hsys, hini, -, hmax, -, -⟩ := SmartBucket.mk.inj hsh
    exact ⟨by rw [hmax]; exact h₁, hsys.trans h₂, by rw [hmax]; exact hini.trans h₃⟩
  · simp only [SmartBucket.serves, Bool.and_eq_true, decide_eq_true_eq] at hs
    exact hs.2

theorem Kept.sound (h : u.Kept B) : u.Sound where
  packed := h.packed
  fits p hp := by
    obtain ⟨i, hi, hc⟩ := h.held p hp
    rw [hc]
    exact (h.found hi).2.2

/-! ### The operations -/

/-- A bucket gets other chunks. -/
theorem Kept.put (h : u.Kept B) (hi : i < u.sys.buckets.length) {b : SmartBucket}
    (hb : b.shape = (u.sys.bucket i).shape) (hpool : ∀ c ∈ b.pool, c.size = b.maxSize) {mems : List MemChunk}
    {held : List (ℕ × SmartChunk)}
    (hheld : ∀ p ∈ held, ∃ i, u.sys.find p.1 = some i ∧ p.2.size = (u.sys.bucket i).maxSize)
    (hpacked : Extent.Packed (mems.map (·.allocated))
      ((b.pool ++ u.sys.others i).map (·.extent) ++ held.map (·.2.extent))) :
    SmartUse.Kept B ⟨u.sys.put i b mems, held⟩ := by
  have hshape := shape_put hi hb mems
  refine ⟨h.num, h.sizes, hshape.trans h.shape, fun b' hb' => ?_, fun p hp => ?_, ?_⟩
  · rcases List.mem_or_eq_of_mem_set hb' with hb' | rfl
    · exact h.pools b' hb'
    · exact hpool
  · obtain ⟨j, hj, hc⟩ := hheld p hp
    exact ⟨j, (find_put hi hb mems _).trans hj, hc.trans (maxSize_congr hshape j).symm⟩
  · refine hpacked.perm (List.Perm.append_right _ (List.Perm.map _ ?_))
    exact (SmartBuffers.chunks_put_perm hi b mems).symm

theorem Kept.packed_at (h : u.Kept B) (hi : i < u.sys.buckets.length) :
    Extent.Packed u.sys.mems
      (((u.sys.bucket i).pool ++ u.sys.others i).map (·.extent) ++ u.held.map (·.2.extent)) :=
  h.packed.perm (List.Perm.append_right _ (List.Perm.map _ (SmartBuffers.chunks_perm hi)))

theorem Kept.pool_size (h : u.Kept B) (hi : i < u.sys.buckets.length) :
    ∀ c ∈ (u.sys.bucket i).pool, c.size = (u.sys.bucket i).maxSize := by
  rw [SmartBuffers.bucket_eq hi]
  exact h.pools _ (List.getElem_mem hi)

/-- The share of a bucket is small, and has room for a chunk. -/
theorem regular_bounds {b : SmartBucket} (h : b.Regular B) :
    0 < b.initialSize ∧ b.initialSize * b.maxSize < 2 ^ 64 ∧ b.maxSize < UINT64_MAX := by
  have hshare : bucketMemSize B.sizes ≤ smartBuffersDefaultMemAllocSize := Nat.div_le_self _ _
  have hle := B.le_share _ h.size
  have hmul : b.initialSize * b.maxSize ≤ bucketMemSize B.sizes := by
    rw [h.initial]
    exact Nat.div_mul_le_self _ _
  have hM : smartBuffersDefaultMemAllocSize < UINT64_MAX := by decide
  have hU : UINT64_MAX < 2 ^ 64 := by decide
  refine ⟨?_, by omega, by omega⟩
  rw [h.initial]
  exact Nat.div_pos hle (B.pos _ h.size)

/-- A bucket with as many chunks again. -/
def grown (s : SmartBuffers) (i : ℕ) : SmartBucket :=
  { s.bucket i with
    pool := (newChunks (s.bucket i) (some i) s.baseMemChunks.length 0 (s.bucket i).initialSize).reverse ++
      (s.bucket i).pool
    smartChunksSeqNum := (s.bucket i).smartChunksSeqNum + (s.bucket i).initialSize }

/-- **A bucket grows.** -/
theorem Kept.grow (h : u.Kept B) (hf : u.sys.find sz = some i) :
    ∃ s', u.sys.growBucket i = some s' ∧ SmartUse.Kept B ⟨s', u.held⟩ ∧ s'.find sz = some i ∧
      (s'.bucket i).pool ≠ [] := by
  obtain ⟨hi, hr, -⟩ := h.found hf
  obtain ⟨hpos, hlt, -⟩ := regular_bounds hr
  have hmem := Nat.mod_eq_of_lt hlt
  have hb : (grown u.sys i).shape = (u.sys.bucket i).shape := rfl
  have hgrow : u.sys.growBucket i = some (u.sys.put i (grown u.sys i) (u.sys.baseMemChunks ++
      [⟨(u.sys.bucket i).initialSize * (u.sys.bucket i).maxSize % 2 ^ 64,
        (u.sys.bucket i).initialSize * (u.sys.bucket i).maxSize % 2 ^ 64⟩])) := by
    rw [SmartBuffers.growBucket]
    exact if_pos hr.sys
  refine ⟨_, hgrow, h.put hi hb (fun c hc => ?_) h.held ?_, (find_put hi hb _ sz).trans hf, ?_⟩
  · rcases List.mem_append.1 hc with hc | hc
    · obtain ⟨j, -, rfl⟩ := List.mem_map.1 (List.mem_reverse.1 hc)
      rfl
    · exact h.pool_size hi c hc
  · have hadd := (h.packed_at hi).add (Nat.le_of_eq hmem.symm)
    rw [List.map_append, List.map_singleton]
    apply hadd.perm
    rw [SmartBuffers.mems, List.length_map, ← map_extent_newChunks _ (some i), ← List.append_assoc, ← List.map_append,
      ← List.append_assoc]
    exact ((((List.reverse_perm _).symm.append_right _).append_right _).map _).append_right _
  · rw [SmartBuffers.bucket_put hi]
    intro hnil
    have hlen := congrArg List.length (List.append_eq_nil_iff.1 hnil).1
    rw [List.length_reverse, newChunks, List.length_map, List.length_range] at hlen
    exact (Nat.ne_of_gt hpos) hlen

/-- **A chunk is taken.** -/
theorem Kept.extract (h : u.Kept B) (hf : u.sys.find sz = some i) (hne : (u.sys.bucket i).pool ≠ []) :
    ∃ s' c, u.sys.extract i = some (s', c) ∧ SmartUse.Kept B ⟨s', u.held ++ [(sz, c)]⟩ := by
  obtain ⟨hi, -, -⟩ := h.found hf
  obtain ⟨c, cs, hcs⟩ := List.exists_cons_of_ne_nil hne
  have hsize := h.pool_size hi
  have hpacked := h.packed_at hi
  rw [hcs] at hsize hpacked
  refine ⟨u.sys.put i { u.sys.bucket i with pool := cs } u.sys.baseMemChunks, { c with inUse := true }, ?_, ?_⟩
  · rw [SmartBuffers.extract, hcs]
    rfl
  · have hb : SmartBucket.shape { u.sys.bucket i with pool := cs } = (u.sys.bucket i).shape := rfl
    refine h.put hi hb (fun d hd => hsize d (List.mem_cons_of_mem _ hd)) (fun p hp => ?_) ?_
    · rcases List.mem_append.1 hp with hp | hp
      · exact h.held p hp
      · rw [List.mem_singleton.1 hp]
        exact ⟨i, hf, hsize c List.mem_cons_self⟩
    · have hmap : (u.held ++ [(sz, { c with inUse := true })]).map (fun p : ℕ × SmartChunk => p.2.extent) =
          u.held.map (·.2.extent) ++ [c.extent] := List.map_append
      apply hpacked.perm
      rw [hmap, ← List.append_assoc]
      exact (List.perm_append_singleton _ _).symm

/-- **A request up to the largest size is served.** -/
theorem Kept.get (h : u.Kept B) (hsz : sz ≤ B.largest) :
    ∃ u', u.step (.get sz) = some u' ∧ u'.Kept B ∧ u'.held.length = u.held.length + 1 := by
  obtain ⟨i, hi⟩ := B.find_init hsz
  have hf := (h.find sz).trans hi
  have hmax := Nat.ne_of_lt (regular_bounds (h.found hf).2.1).2.2
  have ht : u.sys.target sz = some (u.sys, i) := by
    simp only [SmartBuffers.target, hf, if_neg hmax]
  by_cases hp : (u.sys.bucket i).pool = []
  · obtain ⟨s₁, hg, hk, hf₁, hne⟩ := h.grow hf
    obtain ⟨s₂, c, hx, hk₂⟩ := hk.extract hf₁ hne
    refine ⟨_, ?_, hk₂, List.length_append⟩
    simp only [SmartUse.step, SmartBuffers.get, ht, hp, hg, hx, Option.bind_some, if_true, Option.map_some]
  · obtain ⟨s₂, c, hx, hk₂⟩ := h.extract hf hp
    refine ⟨_, ?_, hk₂, List.length_append⟩
    simp only [SmartUse.step, SmartBuffers.get, ht, hp, hx, Option.bind_some, if_false, Option.map_some]

/-- **A chunk in use is returned.** -/
theorem Kept.ret {k : ℕ} (h : u.Kept B) (hk : k < u.held.length) :
    ∃ u', u.step (.ret k) = some u' ∧ u'.Kept B ∧ u'.held.length = u.held.length - 1 := by
  obtain ⟨i, hf, hc⟩ := h.held _ (List.getElem_mem hk)
  obtain ⟨hi, -, -⟩ := h.found hf
  have hperm := (SmartBuffers.getElem_perm hk).map fun p : ℕ × SmartChunk => p.2.extent
  have hb : SmartBucket.shape { u.sys.bucket i with
      pool := { u.held[k].2 with inUse := false } :: (u.sys.bucket i).pool } = (u.sys.bucket i).shape := rfl
  refine ⟨⟨u.sys.put i _ u.sys.baseMemChunks, u.held.eraseIdx k⟩, ?_,
    h.put hi hb ?_ (fun p hp => h.held p (List.mem_of_mem_eraseIdx hp)) ?_, List.length_eraseIdx_of_lt hk⟩
  · simp only [SmartUse.step, SmartBuffers.ret, List.getElem?_eq_getElem hk, hf, Option.bind_eq_bind, Option.bind_some,
      Option.map_some]
    rfl
  · intro d hd
    rcases List.mem_cons.1 hd with rfl | hd
    · exact hc
    · exact h.pool_size hi d hd
  · apply (h.packed_at hi).perm
    exact (List.Perm.append_left _ hperm).trans List.perm_middle

/-! ### The start -/

/-- The shares of the buckets follow each other. -/
theorem packed_initBuckets {share m : ℕ} {zs : List ℕ} {n lo : ℕ} (hm : (n + zs.length) * share ≤ m) :
    Extent.Packed [m] (((initBuckets share n lo zs).flatMap (·.pool)).map (·.extent)) ∧
      ∀ a ∈ ((initBuckets share n lo zs).flatMap (·.pool)).map (·.extent), n * share ≤ a.off := by
  induction zs generalizing n lo with
  | nil => exact ⟨.nil _, fun a ha => absurd ha List.not_mem_nil⟩
  | cons z zs ih =>
    have hlen : n + (z :: zs).length = n + 1 + zs.length := by rw [List.length_cons]; omega
    rw [hlen] at hm
    obtain ⟨hp, hoff⟩ := @ih (n + 1) (z + 1) hm
    have hroom : n * share + share / z * z ≤ (n + 1) * share := by
      rw [Nat.succ_mul]
      exact Nat.add_le_add_left (Nat.div_mul_le_self _ _) _
    have hshare : (n + 1) * share ≤ m := Nat.le_trans (Nat.mul_le_mul_right _ (Nat.le_add_right _ _)) hm
    have hmap : ((initBuckets share n lo (z :: zs)).flatMap (·.pool)).map (·.extent) =
        Extent.carve 0 (n * share) z (share / z) ++
          ((initBuckets share (n + 1) (z + 1) zs).flatMap (·.pool)).map (·.extent) := by
      rw [initBuckets, List.flatMap_cons, List.map_append]
      exact congrArg (· ++ _) (map_extent_newChunks _ _ _ _ _)
    rw [hmap]
    refine ⟨(Extent.packed_carve rfl (Nat.le_trans hroom hshare)).append hp fun a ha b hb => ?_, fun a ha => ?_⟩
    · exact .inr (.inl (Nat.le_trans (Extent.carve_within ha).2.2 (Nat.le_trans hroom (hoff b hb))))
    · rcases List.mem_append.1 ha with ha | ha
      · exact (Extent.carve_within ha).2.1
      · exact Nat.le_trans (Nat.mul_le_mul_right _ (Nat.le_succ n)) (hoff a ha)

theorem pool_initBuckets {share : ℕ} {zs : List ℕ} {n lo : ℕ} :
    ∀ b ∈ initBuckets share n lo zs, ∀ c ∈ b.pool, c.size = b.maxSize := by
  induction zs generalizing n lo with
  | nil =>
    intro b hb c hc
    rw [List.mem_singleton.1 hb] at hc
    exact absurd hc List.not_mem_nil
  | cons z zs ih =>
    intro b hb c hc
    rcases List.mem_cons.1 hb with rfl | hb
    · obtain ⟨i, -, rfl⟩ := List.mem_map.1 hc
      rfl
    · exact ih b hb c hc

theorem kept_start (B : BucketSizes) : (start B).Kept B where
  num := rfl
  sizes := rfl
  shape := rfl
  pools := pool_initBuckets
  held p hp := absurd hp List.not_mem_nil
  packed := by
    have hm : (0 + B.sizes.length) * bucketMemSize B.sizes ≤ smartBuffersDefaultMemAllocSize := by
      rw [Nat.zero_add]
      exact Nat.mul_div_le _ _
    rw [SmartUse.extents, show (start B).held = [] from rfl, List.map_nil, List.append_nil]
    exact (packed_initBuckets hm).1

/-! ### A request larger than every bucket -/

theorem newBucketMaxSize_pos (h : u.Kept B) (sz : ℕ) : 0 < u.sys.newBucketMaxSize sz := by
  have hlast : u.sys.lastBucketSize = B.largest := by
    rw [SmartBuffers.lastBucketSize, h.num, h.sizes, BucketSizes.largest, List.getLast_eq_getElem]
    exact List.getD_eq_getElem _ _ _
  have hmem : B.largest ∈ B.sizes := List.getLast_mem B.ne_nil
  have hpos := B.pos _ hmem
  have hle : B.largest ≤ smartBuffersDefaultMemAllocSize := Nat.le_trans (B.le_share _ hmem) (Nat.div_le_self _ _)
  have hM : smartBuffersDefaultMemAllocSize * 2 < 2 ^ 64 := by decide
  have hmod : B.largest * 2 % 2 ^ 64 = B.largest * 2 := Nat.mod_eq_of_lt (by omega)
  rw [SmartBuffers.newBucketMaxSize, hlast, hmod]
  split <;> omega

/-- What is in the pools and in use when a chunk is taken. -/
theorem mem_extents_extract (held : List (ℕ × SmartChunk)) {s s' : SmartBuffers} {c : SmartChunk} {e : Extent}
    (hi : i < s.buckets.length) (hx : s.extract i = some (s', c)) (he : e ∈ (s.bucket i).pool.map (·.extent)) :
    e ∈ SmartUse.extents ⟨s', held ++ [(sz, c)]⟩ ∧ s'.mems = s.mems := by
  rw [SmartBuffers.extract] at hx
  cases hp : (s.bucket i).pool with
  | nil => rw [hp] at hx; cases hx
  | cons d cs =>
    rw [hp] at hx he
    cases hx
    refine ⟨?_, rfl⟩
    rw [SmartUse.extents, List.mem_append, List.map_append, List.mem_append]
    rcases List.mem_cons.1 he with rfl | he
    · exact .inr (.inr (List.mem_singleton.2 rfl))
    · refine .inl ?_
      have hperm := SmartBuffers.chunks_put_perm hi { s.bucket i with pool := cs } s.baseMemChunks
      exact ((hperm.map _).mem_iff).2 (by rw [List.map_append]; exact List.mem_append_left _ he)

/-- **The last chunk of a new bucket is past the end of its memory.** -/
theorem Kept.not_sound (h : u.Kept B) (hsz : B.largest < sz) {u' : SmartUse} (hs : u.step (.get sz) = some u') :
    ¬ u'.Sound := by
  have hnone := (h.find sz).trans (B.find_init_eq_none hsz)
  have hlt : u.sys.numBuckets < u.sys.buckets.length := by rw [h.num, h.length]; exact Nat.lt_succ_self _
  have hpos := newBucketMaxSize_pos h sz
  obtain ⟨⟨s', c⟩, hget, rfl⟩ := Option.map_eq_some_iff.1 hs
  set M := u.sys.newBucketMaxSize sz with hM
  set mem := 2 * M % 2 ^ 64 with hmem
  obtain ⟨⟨s₁, i⟩, ht, hget⟩ := Option.bind_eq_some_iff.1 hget
  simp only [SmartBuffers.target, hnone, SmartBuffers.newBucket, if_pos hlt, Option.map_some, Option.some.injEq,
    Prod.mk.injEq, ← hM, ← hmem] at ht
  obtain ⟨hs₁, rfl⟩ := ht
  have hi : u.sys.numBuckets < s₁.buckets.length := by
    rw [← hs₁, List.length_set]
    exact hlt
  have hpool : (s₁.bucket u.sys.numBuckets).pool =
      newChunks (u.sys.emptyBucket sz) none u.sys.baseMemChunks.length 0 (mem / M + 1) := by
    rw [SmartBuffers.bucket_eq hi]
    subst hs₁
    exact congrArg SmartBucket.pool (List.getElem_set_self _)
  have hlast : (⟨u.sys.baseMemChunks.length, 0 + mem / M * M, M⟩ : Extent) ∈
      (s₁.bucket u.sys.numBuckets).pool.map (·.extent) := by
    rw [hpool, map_extent_newChunks]
    exact Extent.mem_carve.2 ⟨mem / M, Nat.lt_succ_self _, rfl⟩
  have hne : (s₁.bucket u.sys.numBuckets).pool ≠ [] := by
    intro h0
    rw [h0] at hlast
    exact absurd hlast List.not_mem_nil
  rw [if_neg hne, Option.bind_some] at hget
  obtain ⟨hin, hmems⟩ := mem_extents_extract u.held hi hget hlast
  intro hsound
  obtain ⟨m, hm, hle⟩ := hsound.packed.inside _ hin
  have hm' : s₁.mems[u.sys.baseMemChunks.length]? = some mem := by
    subst hs₁
    rw [SmartBuffers.mems, List.map_append]
    exact (List.getElem?_append_right (by simp)).trans (by simp)
  rw [hmems, hm'] at hm
  have hlt' := Nat.lt_div_mul_add hpos (a := mem)
  cases hm
  dsimp only at hle
  omega

end SmartUse

/-- **Smart buffers are sound exactly as long as no request is larger than every bucket.** -/
theorem smart_buffers_sound_iff (B : BucketSizes) (ops : List SmartOp) (hops : WellUsed 0 ops) :
    (SmartUse.start B).Meets ops ↔ ∀ sz, .get sz ∈ ops → sz ≤ B.largest := by
  have key : ∀ (ops : List SmartOp) (u : SmartUse), u.Kept B → WellUsed u.held.length ops →
      (u.Meets ops ↔ ∀ sz, .get sz ∈ ops → sz ≤ B.largest) := by
    intro ops
    induction ops with
    | nil => exact fun u h _ => iff_of_true h.sound fun sz hsz => absurd hsz List.not_mem_nil
    | cons op ops ih =>
      intro u h hw
      constructor
      · rintro ⟨-, u', hs, hm⟩
        have hfirst : ∀ sz, op = .get sz → sz ≤ B.largest := by
          rintro sz rfl
          refine Nat.not_lt.1 fun hlt => h.not_sound hlt hs ?_
          cases ops with
          | nil => exact hm
          | cons op' ops => exact hm.1
        cases op with
        | get sz =>
          obtain ⟨u'', hs', hk, hl⟩ := h.get (hfirst sz rfl)
          cases hs.symm.trans hs'
          intro z hz
          rcases List.mem_cons.1 hz with hz | hz
          · exact hfirst z hz.symm
          · exact (ih u' hk (by rw [hl]; exact hw)).1 hm z hz
        | ret k =>
          obtain ⟨u'', hs', hk, hl⟩ := h.ret hw.1
          cases hs.symm.trans hs'
          intro z hz
          rcases List.mem_cons.1 hz with hz | hz
          · cases hz
          · exact (ih u' hk (by rw [hl]; exact hw.2)).1 hm z hz
      · intro hall
        have hrest : ∀ sz, .get sz ∈ ops → sz ≤ B.largest := fun sz hsz => hall sz (List.mem_cons_of_mem _ hsz)
        refine ⟨h.sound, ?_⟩
        cases op with
        | get sz =>
          obtain ⟨u', hs, hk, hl⟩ := h.get (hall sz List.mem_cons_self)
          exact ⟨u', hs, (ih u' hk (by rw [hl]; exact hw)).2 hrest⟩
        | ret k =>
          obtain ⟨u', hs, hk, hl⟩ := h.ret hw.1
          exact ⟨u', hs, (ih u' hk (by rw [hl]; exact hw.2)).2 hrest⟩
  exact key ops _ (SmartUse.kept_start B) hops

/-- The default buckets, with two chunks in use and one of them returned. -/
theorem smart_buffers_sound_default :
    WellUsed 0 [.get 1, .get 65536, .ret 0] ∧
      (SmartUse.start BucketSizes.default).Meets [.get 1, .get 65536, .ret 0] := by
  have hw : WellUsed 0 [.get 1, .get 65536, .ret 0] := ⟨by decide, trivial⟩
  refine ⟨hw, (smart_buffers_sound_iff BucketSizes.default _ hw).2 fun sz hsz => ?_⟩
  have hl : BucketSizes.default.largest = 65536 := rfl
  simp only [List.mem_cons, SmartOp.get.injEq, List.not_mem_nil, or_false, reduceCtorEq] at hsz
  omega

/-- **The first request that is larger** than every bucket breaks it. -/
theorem smart_buffers_unsound : ¬ (SmartUse.start BucketSizes.default).Meets [.get 65537] := by
  rintro ⟨-, u', hs, hsound⟩
  exact (SmartUse.kept_start BucketSizes.default).not_sound (by decide) hs hsound

end DpuOffload
