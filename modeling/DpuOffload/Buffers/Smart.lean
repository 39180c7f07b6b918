import DpuOffload.Lib.Extent
import DpuOffload.Lib.Transition
import DpuOffload.Cache.Types
import Mathlib.Algebra.Group.Nat.Defs
import Mathlib.Data.List.GetD

/-!
# Smart buffers

Buffers of several sizes out of a few large pieces of memory (`dynamic_structs.h`). A bucket
has the chunks of one size; a request is served by the bucket whose range it is in. The first
piece of memory is shared out evenly among the buckets at the start (`SMART_BUFFS_INIT`), a
bucket that runs out gets as many chunks again (`SMART_BUFFS_GROW_BUCKET`), and a request
larger than every bucket makes a new one.

An address is a segment and an offset in it. What only the recycling of chunks reads
(`parent_chunk`, `prev`) is left out: nothing is recycled. A bucket points back at the buffers
(`sys`) unless nobody has set the pointer, and a chunk at its bucket.
-/

namespace DpuOffload

/-- `smart_chunk_t`. -/
structure SmartChunk where
  /-- Number of the chunk in its bucket. -/
  seqNum : ℕ
  /-- Position of the bucket, if the pointer was set. -/
  bucket : Option ℕ
  /-- The segment of its address. -/
  seg : ℕ
  /-- The offset of its address. -/
  base : ℕ
  /-- Its size. -/
  size : ℕ
  /-- Is it in use? -/
  inUse : Bool
  deriving DecidableEq, Repr

/-- The memory a chunk stands for. -/
def SmartChunk.extent (c : SmartChunk) : Extent := ⟨c.seg, c.base, c.size⟩

/-- `smart_bucket_t`. -/
structure SmartBucket where
  /-- Does it point back at the buffers? -/
  sys : Bool
  /-- Number of chunks it starts with. -/
  initialSize : ℕ
  /-- The least size it serves. -/
  minSize : ℕ
  /-- The largest, which is the size of its chunks. -/
  maxSize : ℕ
  /-- The number of the next chunk. -/
  smartChunksSeqNum : ℕ
  /-- The chunks ready to be used. -/
  pool : List SmartChunk
  deriving DecidableEq, Repr

/-- A bucket in memory that is all zero. -/
def SmartBucket.zero : SmartBucket := ⟨false, 0, 0, 0, 0, []⟩

/-- `mem_chunk_t`, with the size that was allocated for it. -/
structure MemChunk where
  /-- The size as recorded. -/
  size : ℕ
  /-- The size allocated. -/
  allocated : ℕ
  deriving DecidableEq, Repr

/-- `smart_buffers_t`. -/
structure SmartBuffers where
  /-- Number of buckets. -/
  numBuckets : ℕ
  /-- The segments. -/
  baseMemChunks : List MemChunk
  /-- The sizes of the buckets. -/
  bucketSizes : List ℕ
  /-- The array of the buckets, as long as it is allocated. -/
  buckets : List SmartBucket
  deriving DecidableEq, Repr

/-- `SMART_BUFFERS_DEFAULT_MEM_ALLOC_SIZE`. -/
def smartBuffersDefaultMemAllocSize : ℕ := 10 * 1024 * 1024

/-- The sizes when none are given. -/
def smartBufsDefaultBuckets : List ℕ := [8, 16, 64, 128, 512, 1024, 4096, 8192, 65536]

/-- `SMART_BUFFS_HANDLE_INFO`. -/
def smartBuffsHandleInfo (info : Option (List ℕ)) : List ℕ := info.getD smartBufsDefaultBuckets

/-- The memory each bucket gets at the start. -/
def bucketMemSize (sizes : List ℕ) : ℕ := smartBuffersDefaultMemAllocSize / sizes.length

/-- A list of bucket sizes: increasing, and a chunk of each size fits in the share of its bucket. -/
structure BucketSizes where
  /-- The sizes. -/
  sizes : List ℕ
  /-- There is one. -/
  ne_nil : sizes ≠ []
  /-- They increase. -/
  increasing : sizes.Pairwise (· < ·)
  /-- `assert(_smart_bucket->max_size)`. -/
  pos : ∀ z ∈ sizes, 0 < z
  /-- They fit. -/
  le_share : ∀ z ∈ sizes, z ≤ bucketMemSize sizes

/-- The default sizes. -/
def BucketSizes.default : BucketSizes where
  sizes := smartBuffsHandleInfo none
  ne_nil := by decide
  increasing := by decide
  pos := by decide
  le_share := by decide

/-- New chunks, one after the other, of the size and with the numbers of a bucket. -/
def newChunks (b : SmartBucket) (bucket : Option ℕ) (seg off n : ℕ) : List SmartChunk :=
  (List.range n).map fun i => ⟨b.smartChunksSeqNum + i, bucket, seg, off + i * b.maxSize, b.maxSize, false⟩

/-- `SMART_BUFFERS_ALLOC_SMART_CHUNKS`: the chunks of bucket `n` at the start. -/
def SmartBucket.allocSmartChunks (b : SmartBucket) (n share : ℕ) : SmartBucket :=
  { b with
    pool := newChunks b (some n) 0 (n * share) (share / b.maxSize)
    smartChunksSeqNum := b.smartChunksSeqNum + share / b.maxSize
    initialSize := share / b.maxSize }

/-- The buckets at the start, from bucket `n` on, whose least size is `lo`. -/
def initBuckets (share : ℕ) : ℕ → ℕ → List ℕ → List SmartBucket
  | _, lo, [] => [{ SmartBucket.zero with minSize := lo, maxSize := UINT64_MAX }]
  | n, lo, z :: zs =>
    ({ SmartBucket.zero with sys := true, minSize := lo, maxSize := z } : SmartBucket).allocSmartChunks n share ::
      initBuckets share (n + 1) (z + 1) zs

/-- `SMART_BUFFS_INIT`. -/
def smartBuffsInit (B : BucketSizes) : SmartBuffers where
  numBuckets := B.sizes.length
  baseMemChunks := [⟨smartBuffersDefaultMemAllocSize, smartBuffersDefaultMemAllocSize⟩]
  bucketSizes := B.sizes
  buckets := initBuckets (bucketMemSize B.sizes) 0 0 B.sizes

/-- Does the bucket serve the size? -/
def SmartBucket.serves (b : SmartBucket) (sz : ℕ) : Bool := b.minSize ≤ sz && sz ≤ b.maxSize

namespace SmartBuffers

variable (s : SmartBuffers)

/-- The bucket at a position. -/
def bucket (i : ℕ) : SmartBucket := s.buckets.getD i SmartBucket.zero

/-- The first bucket that serves the size. -/
def find (sz : ℕ) : Option ℕ := (s.buckets.take s.numBuckets).findIdx? (·.serves sz)

/-- `SMART_BUFFS_GROW_BUCKET`, where the bucket points back at the buffers. -/
def growBucket (i : ℕ) : Option SmartBuffers :=
  let b := s.bucket i
  if b.sys then
    let memSize := b.initialSize * b.maxSize % 2 ^ 64
    some { s with
      baseMemChunks := s.baseMemChunks ++ [⟨memSize, memSize⟩]
      buckets := s.buckets.set i { b with
        -- each chunk is put in front of the one before
        pool := (newChunks b (some i) s.baseMemChunks.length 0 b.initialSize).reverse ++ b.pool
        smartChunksSeqNum := b.smartChunksSeqNum + b.initialSize } }
  else none

/-- The size of the last bucket. -/
def lastBucketSize : ℕ := s.bucketSizes.getD (s.numBuckets - 1) 0

/-- The size of a new bucket: the next multiple of a page, or twice that of the last bucket. -/
def newBucketMaxSize (sz : ℕ) : ℕ :=
  let page := (sz / 4096 + 1) * 4096 % 2 ^ 64
  if page < s.lastBucketSize * 2 % 2 ^ 64 then s.lastBucketSize * 2 % 2 ^ 64 else page

/-- The new bucket, without chunks. -/
def emptyBucket (sz : ℕ) : SmartBucket :=
  { s.bucket s.numBuckets with
    pool := [], minSize := (s.lastBucketSize + 1) % 2 ^ 64, maxSize := s.newBucketMaxSize sz }

/-- A new bucket, for a size larger than every bucket. The array of the buckets may not move,
since the pools are lists whose heads are in it. -/
def newBucket (sz : ℕ) : Option SmartBuffers :=
  if s.numBuckets < s.buckets.length then
    let memSize := 2 * s.newBucketMaxSize sz % 2 ^ 64
    -- `_j <= (_bucket_mem_size / __new_bucket->max_size)`
    let n := memSize / s.newBucketMaxSize sz + 1
    let b := s.emptyBucket sz
    some { s with
      numBuckets := s.numBuckets + 1
      bucketSizes := s.bucketSizes.take s.numBuckets ++ [s.newBucketMaxSize sz]
      baseMemChunks := s.baseMemChunks ++ [⟨0, memSize⟩]
      buckets := s.buckets.set s.numBuckets { b with
        pool := newChunks b none s.baseMemChunks.length 0 n
        smartChunksSeqNum := b.smartChunksSeqNum + n
        initialSize := n } }
  else none

/-- The bucket for a request, a new one if need be. -/
def target (sz : ℕ) : Option (SmartBuffers × ℕ) :=
  match s.find sz with
  | some i => if (s.bucket i).maxSize = UINT64_MAX then (s.newBucket sz).map (·, s.numBuckets) else some (s, i)
  | none => (s.newBucket sz).map (·, s.numBuckets)

/-- Take the first chunk of a bucket. -/
def extract (i : ℕ) : Option (SmartBuffers × SmartChunk) :=
  match (s.bucket i).pool with
  | [] => none
  | c :: cs => some ({ s with buckets := s.buckets.set i { s.bucket i with pool := cs } }, { c with inUse := true })

/-- `SMART_BUFF_GET`. -/
def get (sz : ℕ) : Option (SmartBuffers × SmartChunk) :=
  (s.target sz).bind fun p =>
    (if (p.1.bucket p.2).pool = [] then p.1.growBucket p.2 else some p.1).bind fun s' => s'.extract p.2

/-- `SMART_BUFF_RETURN`. -/
def ret (sz : ℕ) (c : SmartChunk) : Option SmartBuffers :=
  (s.find sz).map fun i =>
    { s with buckets := s.buckets.set i { s.bucket i with pool := { c with inUse := false } :: (s.bucket i).pool } }

end SmartBuffers

/-- The buffers and who uses them. -/
structure SmartUse where
  /-- The buffers. -/
  sys : SmartBuffers
  /-- The chunks in use, each with the size it was requested for. -/
  held : List (ℕ × SmartChunk)
  deriving DecidableEq, Repr

/-- What is done with the buffers. -/
inductive SmartOp where
  /-- Get a chunk. -/
  | get (sz : ℕ)
  /-- Return the chunk at a position, with the size it was requested for. -/
  | ret (i : ℕ)
  deriving DecidableEq, Repr

/-- One operation. -/
def SmartUse.step (u : SmartUse) : SmartOp → Option SmartUse
  | .get sz => (u.sys.get sz).map fun p => ⟨p.1, u.held ++ [(sz, p.2)]⟩
  | .ret i => do
    let (sz, c) ← u.held[i]?
    let s ← u.sys.ret sz c
    some ⟨s, u.held.eraseIdx i⟩

end DpuOffload
