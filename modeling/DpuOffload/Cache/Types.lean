import Mathlib.Algebra.Group.Int.Defs
import Mathlib.Algebra.Group.Nat.Defs
import Mathlib.Data.Int.Basic
import Mathlib.Data.List.GetD

/-!
# Ranks, cache entries and messages

The data of the endpoint cache that travels: `rank_info_t`, `peer_data_t` and
`peer_cache_entry_t` (`dpu_offload_types.h`), the payload of an add message, and
the revoke messages of ranks and of service processes (SPs).

A fixed-width unsigned integer is a natural number and a signed one an integer;
`sizeT` is the conversion to `size_t`, which is where a negative number shows. An
array filled up to a counter (the address up to `addr_len`, the shadow SPs up to
`num_shadow_service_procs`) is the list of its filled part. List links, endpoints
and the events waiting on an entry are left out: nothing here reads them.
-/

namespace DpuOffload

/-- `INT_MAX`, the group uid that stands for no group. -/
def INT_MAX : ℤ := 2147483647

/-- `UINT64_MAX`, the identifier that stands for none. -/
def UINT64_MAX : ℕ := 2 ^ 64 - 1

/-- `INVALID_RANK`. -/
def INVALID_RANK : ℤ := -1

/-- `GROUP_SIZE_UNKNOWN`, the size queries pass. -/
def GROUP_SIZE_UNKNOWN : ℤ := -1

/-- Conversion to `size_t`. -/
def sizeT (z : ℤ) : ℕ := (z % 2 ^ 64).toNat

theorem sizeT_natCast {n : ℕ} (h : n < 2 ^ 64) : sizeT n = n := by
  unfold sizeT; omega

/-- `rank_info_t`. -/
structure RankInfo where
  /-- Uid of the group. -/
  groupUid : ℤ
  /-- Rank in the group. -/
  groupRank : ℤ
  /-- Size of the group. -/
  groupSize : ℤ
  /-- Number of ranks on the host, negative when unknown. -/
  nLocalRanks : ℤ
  /-- Rank on the host. -/
  localRank : ℤ
  /-- Uid of the host. -/
  hostInfo : ℕ
  /-- The version of the group. -/
  groupSeqNum : ℕ
  deriving DecidableEq, Repr

/-- `RESET_RANK_INFO`. -/
def resetRankInfo : RankInfo where
  groupUid := INT_MAX
  groupRank := INVALID_RANK
  groupSize := 0
  nLocalRanks := 0
  localRank := INVALID_RANK
  hostInfo := UINT64_MAX
  groupSeqNum := 0

/-- `peer_data_t`: everything about a rank that other processes need. -/
structure PeerData where
  /-- The rank. -/
  procInfo : RankInfo
  /-- Uid of its host. -/
  hostInfo : ℕ
  /-- Its address, the first `addr_len` bytes. -/
  addr : List UInt8
  deriving DecidableEq, Repr

/-- `RESET_PEER_DATA`. -/
def resetPeerData : PeerData where
  procInfo := resetRankInfo
  hostInfo := UINT64_MAX
  addr := []

/-- `peer_cache_entry_t`. -/
structure PeerCacheEntry where
  /-- Is the entry set? -/
  set : Bool
  /-- The rank. -/
  peer : PeerData
  /-- The identifier its SP uses for it. -/
  clientId : ℕ
  /-- Its shadow SPs, by global id. -/
  shadowServiceProcs : List ℕ
  deriving DecidableEq, Repr

/-- `INIT_PEER_CACHE_ENTRY`. -/
def initPeerCacheEntry : PeerCacheEntry where
  set := false
  peer := resetPeerData
  clientId := UINT64_MAX
  shadowServiceProcs := []

/-- `shadow_service_procs[0]`, `UINT64_MAX` until it is written. -/
def PeerCacheEntry.shadow0 (e : PeerCacheEntry) : ℕ := e.shadowServiceProcs.headD UINT64_MAX

/-- `sizeof(peer_cache_entry_t)`. -/
def sizeofPeerCacheEntry : ℕ := 2264

/-- How many entries `malloc(n * sizeof(peer_cache_entry_t))` has room for. Where the byte
count wraps these are fewer than `n`. -/
def allocEntries (n : ℕ) : ℕ := n * sizeofPeerCacheEntry % 2 ^ 64 / sizeofPeerCacheEntry

/-- A group whose array of entries has a size: the sizes real groups have. -/
def Allocatable (n : ℕ) : Prop := n * sizeofPeerCacheEntry < 2 ^ 64

theorem Allocatable.lt {n : ℕ} (h : Allocatable n) : n < 2 ^ 64 := by
  unfold Allocatable sizeofPeerCacheEntry at h; omega

theorem Allocatable.allocEntries_eq {n : ℕ} (h : Allocatable n) : allocEntries n = n := by
  unfold allocEntries
  rw [Nat.mod_eq_of_lt h, Nat.mul_div_cancel _ (by decide)]

theorem allocatable_one : Allocatable 1 := by
  unfold Allocatable sizeofPeerCacheEntry
  omega

theorem allocatable_two : Allocatable 2 := by
  unfold Allocatable sizeofPeerCacheEntry
  omega

/-- A rank of a group of `n`. -/
structure Member (n : ℕ) (i : RankInfo) : Prop where
  /-- The size of the group. -/
  groupSize : i.groupSize = n
  /-- The rank. -/
  nonneg : 0 ≤ i.groupRank
  /-- It is in the group. -/
  lt : i.groupRank < n

theorem Member.rank_lt {n : ℕ} {i : RankInfo} (h : Member n i) (hn : Allocatable n) : sizeT i.groupRank < n := by
  have h₁ := hn.lt
  have h₂ := h.lt
  have h₃ := h.nonneg
  unfold sizeT
  omega

instance Member.decidable (n : ℕ) (i : RankInfo) : Decidable (Member n i) :=
  decidable_of_iff (i.groupSize = n ∧ 0 ≤ i.groupRank ∧ i.groupRank < n)
    ⟨fun h => ⟨h.1, h.2.1, h.2.2⟩, fun h => ⟨h.1, h.2, h.3⟩⟩

/-- The payload of `AM_ADD_GP_RANK_MSG_ID`: the rank, then the world ranks of all
the ranks of the group. -/
structure GroupAddMsg where
  /-- The rank that joins. -/
  rankInfo : RankInfo
  /-- The world rank of each rank of the group. -/
  worldRanks : List ℤ
  deriving DecidableEq, Repr

/-- `pending_group_add_t`: an add message put aside. -/
structure PendingGroupAdd where
  /-- The client it came from. -/
  clientId : ℕ
  /-- The message. -/
  data : GroupAddMsg
  deriving DecidableEq, Repr

/-- `group_revoke_msg_from_sp_t`: which ranks, from `rankStart` on, revoked the group. -/
structure GroupRevokeMsgFromSp where
  /-- First rank of the list. -/
  rankStart : ℕ
  /-- `1` for a rank that revoked the group, up to `num_ranks`. -/
  ranks : List ℤ
  /-- Uid of the group. -/
  gpUid : ℤ
  /-- Size of the group. -/
  groupSize : ℕ
  /-- Version of the group. -/
  gpSeqNum : ℕ
  deriving DecidableEq, Repr

/-- `num_ranks`. -/
def GroupRevokeMsgFromSp.numRanks (m : GroupRevokeMsgFromSp) : ℕ := m.ranks.length

/-- The ranks the message reports as having revoked the group. -/
def GroupRevokeMsgFromSp.carried (m : GroupRevokeMsgFromSp) : List ℕ :=
  (List.range m.numRanks).filterMap fun k => if m.ranks.getD k 0 = 1 then some (m.rankStart + k) else none

/-- `pending_send_group_add_t`: on a host, an add request that waits for the group's revoke. -/
structure PendingSendGroupAdd where
  /-- The request. -/
  msg : GroupAddMsg
  deriving DecidableEq, Repr

/-- `pending_recv_cache_entry_t`: a batch of received entries put aside. -/
structure PendingRecvCacheEntry where
  /-- The SP it came from. -/
  spGid : ℕ
  /-- The entries. -/
  payload : List PeerCacheEntry
  deriving DecidableEq, Repr

end DpuOffload
