import DpuOffload.Cache.HostCounts

/-!
# The indices of the bits

No macro of a bitset checks an index: a bit past the last byte is some other memory. This
module lists the bits that the functions about the topology set and test, each with the number
of bits of the bitset, and says when all of them exist.

Ranks are set in bitsets of the size of the group and hosts in one of the size of the
configuration, which is right. SPs are set and tested, by global id, in bitsets of the size of
the group, whatever the number of SPs of the engine is.

* `bits_in_bounds_iff` — **every bit exists exactly when** the engine has no more SPs than a
  bitset of the size of the group has bits, and than an `int` can number.
* `not_bits_in_bounds` — a group of one rank, whose SP is the ninth of the engine.
-/

namespace DpuOffload

open TopoUpdate

/-! ### What is accessed -/

/-- The bits of the runs of `update_topology_data` for the shadow SPs of a rank. -/
def updatesAccesses (cfg : HostsConfig) (gpUid : ℤ) (n r host : ℕ) : Topology → List ℕ → List BitAccess
  | _, [] => []
  | t, sp :: sps => t.spAccesses n r sp ++ t.hostAccesses cfg n r sp host ++
      updatesAccesses cfg gpUid n r host (t.updateTopologyData cfg gpUid n r sp host) sps

/-- The bits of the loop of `handle_peer_cache_entries_recv`. -/
def recvAccesses (ctx : GpCtx) (groupSize : ℤ) : GroupCache × ℕ → List PeerCacheEntry → List BitAccess
  | _, [] => []
  | acc, e :: es =>
    let g := acc.1.learnGroupSize ctx.hosts groupSize
    (if g.isSet e.rank then [] else
      updatesAccesses ctx.hosts g.groupUid g.groupSize e.rank e.peer.hostInfo g.topo e.shadowServiceProcs) ++
      recvAccesses ctx groupSize (recvPeerEntry ctx groupSize acc e) es

/-- The bits of all the batches a group receives. -/
def batchesAccesses (ctx : GpCtx) : GroupCache → List (List PeerCacheEntry) → List BitAccess
  | _, [] => []
  | g, batch :: batches =>
    recvAccesses ctx (batchGroupSize batch) (getGroupCacheInternal ctx.gpUid (some g) (batchGroupSize batch), 0) batch ++
      batchesAccesses ctx (handlePeerCacheEntriesRecv ctx ⟨g, []⟩ batch).gp batches

/-- A scan that stops when it has found `k` bits tests bit `i`: it has found fewer before. -/
def Scans (b : Bitset) (k i : ℕ) : Prop := (b.bits.filter (· < i)).card < k

/-- The bits that the scans of `populate_sp_ranks`, `populate_host_sps` and
`do_populate_group_cache_lookup_table` test. -/
inductive Topology.PopulateTests (t : Topology) : BitAccess → Prop
  /-- The SPs. -/
  | sps {i : ℕ} : Scans (t.spsBitset.getD []) t.nSps i → PopulateTests t ⟨(t.spsBitset.getD []).capacity, i⟩
  /-- The ranks of an SP. -/
  | spRanks {gid i : ℕ} {d : SpCacheData} : t.spsHash.lookup gid = some d →
      Scans (d.ranksBitset.getD []) d.nRanks i → PopulateTests t ⟨(d.ranksBitset.getD []).capacity, i⟩
  /-- The hosts. -/
  | hosts {i : ℕ} : Scans (t.hostsBitset.getD []) t.nHosts i → PopulateTests t ⟨(t.hostsBitset.getD []).capacity, i⟩
  /-- The SPs of a host. -/
  | hostSps {uid i : ℕ} {d : HostCacheData} : t.hostsHash.lookup uid = some d →
      Scans (d.spsBitset.getD []) d.numSps i → PopulateTests t ⟨(d.spsBitset.getD []).capacity, i⟩

/-- The bits that `get_local_sp_id_by_group` tests, on an engine with `numServiceProcs` SPs: up to
the one whose number is asked for. -/
inductive Topology.GetLocalSpIdTests (t : Topology) (numServiceProcs spGpGuid : ℕ) : BitAccess → Prop
  /-- One of the bits. -/
  | scan {i : ℕ} : spGpGuid ≤ t.nSps → i < numServiceProcs →
      ((t.spsBitset.getD []).bits.filter (· < i)).card ≤ spGpGuid →
        GetLocalSpIdTests t numServiceProcs spGpGuid ⟨(t.spsBitset.getD []).capacity, i⟩

/-- Conversion to `int`. -/
def toInt (x : ℕ) : ℤ := ((x : ℤ) + 2 ^ 31) % 2 ^ 32 - 2 ^ 31

/-- The bits that `get_sp_group_gid` tests: that of the SP, as an `int`, and those before it. -/
inductive Topology.GetSpGroupGidTests (t : Topology) (spGid : ℕ) : BitAccess → Prop
  /-- The SP. -/
  | self : GetSpGroupGidTests t spGid ⟨(t.spsBitset.getD []).capacity, toInt spGid⟩
  /-- The SPs before it. -/
  | before {i : ℕ} : spGid ≤ t.nSps → (t.spsBitset.getD []).test spGid = true → i < spGid →
      GetSpGroupGidTests t spGid ⟨(t.spsBitset.getD []).capacity, i⟩

/-- **Every bit accessed exists**: while a group receives batches, when its tables are filled, and
when it is asked about the SPs of the engine. -/
structure BitsInBounds (ctx : GpCtx) (slot : Option GroupCache) (batches : List (List PeerCacheEntry)) : Prop where
  /-- `update_topology_data`. -/
  updates : ∀ a ∈ batchesAccesses ctx (slot.getD newGroupCache) batches, a.InBounds
  /-- `do_populate_group_cache_lookup_table`. -/
  populate : ∀ a, (recvBatches ctx slot batches).topo.PopulateTests a → a.InBounds
  /-- `get_local_sp_id_by_group`. -/
  localSpId : ∀ spGpGuid a,
    (recvBatches ctx slot batches).topo.GetLocalSpIdTests ctx.numServiceProcs spGpGuid a → a.InBounds
  /-- `get_sp_group_gid`. -/
  spGroupGid : ∀ spGid < ctx.numServiceProcs, ∀ a,
    (recvBatches ctx slot batches).topo.GetSpGroupGidTests spGid a → a.InBounds

/-! ### Scans -/

/-- A scan for no more bits than there are stops in time. -/
theorem Scans.lt {b : Bitset} {k i : ℕ} (h : Scans b k i) (hk : k ≤ b.bits.card) : i < b.capacity := by
  by_contra hi
  have hall : b.bits.filter (· < i) = b.bits := by
    refine Finset.filter_true_of_mem fun j hj => ?_
    exact (Finset.mem_range.1 (b.bits_subset_range hj)).trans_le (not_lt.1 hi)
  rw [Scans, hall] at h
  exact absurd hk (not_le.2 h)

variable {cfg : HostsConfig} {n : ℕ} {es : List PeerCacheEntry} {g : GroupCache} {ctx : GpCtx}
  {t : Topology} {us : List TopoUpdate}

theorem toInt_eq {x : ℕ} (h : x < 2 ^ 31) : toInt x = x := by
  unfold toInt
  omega

/-! ### Updates -/

/-- What `update_topology_data` sets and tests, when the rank, the SP and the host have a bit. -/
theorem Topology.Records.update_inBounds (h : t.Records cfg n us) {r sp host : ℕ}
    (hr : r < (Bitset.create n).capacity) (hsp : sp < (Bitset.create n).capacity)
    (hhost : cfg.lookupHostConfigIdx host < (Bitset.create cfg.numHosts).capacity) :
    ∀ a ∈ t.spAccesses n r sp ++ t.hostAccesses cfg n r sp host, a.InBounds := by
  have hcs : (bitsetCreate t.spsBitset n).capacity = (Bitset.create n).capacity := h.sps.marks.capacity
  have hch : (bitsetCreate t.hostsBitset cfg.numHosts).capacity = (Bitset.create cfg.numHosts).capacity :=
    h.hosts.marks.capacity
  intro a ha
  rcases List.mem_append.1 ha with ha | ha
  · unfold Topology.spAccesses at ha
    split at ha
    · rcases List.mem_cons.1 ha with rfl | ha
      · exact inBounds_natCast.2 (hcs ▸ hsp)
      · rw [List.mem_singleton.1 ha]
        exact inBounds_natCast.2 hr
    · rename_i d hd
      rw [List.mem_singleton.1 ha, (h.sps.data sp d hd).ranks.capacity]
      exact inBounds_natCast.2 hr
  · unfold Topology.hostAccesses at ha
    split at ha
    · rcases List.mem_cons.1 ha with rfl | ha
      · exact inBounds_natCast.2 hsp
      · rcases List.mem_cons.1 ha with rfl | ha
        · exact inBounds_natCast.2 (hch ▸ hhost)
        · rw [List.mem_singleton.1 ha]
          exact inBounds_natCast.2 hr
    · rename_i d hd
      have hrec := h.hosts.data host d hd
      rw [List.cons_append, List.mem_cons, List.mem_append, List.mem_singleton] at ha
      rcases ha with rfl | ha | rfl
      · rw [hrec.sps.capacity]
        exact inBounds_natCast.2 hsp
      · split at ha
        · exact absurd ha List.not_mem_nil
        · rw [List.mem_singleton.1 ha, hrec.sps.capacity]
          exact inBounds_natCast.2 hsp
      · rw [hrec.ranks.capacity]
        exact inBounds_natCast.2 hr

theorem Topology.Records.updates_inBounds (gpUid : ℤ) {r host : ℕ} (hr : r < (Bitset.create n).capacity)
    (hhost : cfg.lookupHostConfigIdx host < (Bitset.create cfg.numHosts).capacity) {sps : List ℕ}
    (hsp : ∀ sp ∈ sps, sp < (Bitset.create n).capacity) (h : t.Records cfg n us) :
    ∀ a ∈ updatesAccesses cfg gpUid n r host t sps, a.InBounds := by
  induction sps generalizing t us with
  | nil => exact fun a ha => absurd ha List.not_mem_nil
  | cons sp sps ih =>
    intro a ha
    rcases List.mem_append.1 ha with ha | ha
    · exact h.update_inBounds hr (hsp sp List.mem_cons_self) hhost a ha
    · exact ih (fun q hq => hsp q (List.mem_cons_of_mem _ hq)) (h.update gpUid ⟨r, sp, host⟩) a ha

/-- An entry whose SPs and host have a bit. -/
structure PeerCacheEntry.HasBits (cfg : HostsConfig) (n : ℕ) (e : PeerCacheEntry) : Prop where
  /-- A rank of the group. -/
  member : Member n e.peer.procInfo
  /-- Its SPs. -/
  sps : ∀ sp ∈ e.shadowServiceProcs, sp < (Bitset.create n).capacity
  /-- Its host. -/
  host : cfg.lookupHostConfigIdx e.peer.hostInfo < (Bitset.create cfg.numHosts).capacity

theorem Received.recvEntries_inBounds (hn : Allocatable n) (batch : List PeerCacheEntry) {s : GroupCache × ℕ}
    (h : Received ctx.hosts n es s.1) (hl : s.1.groupUid ≠ INT_MAX) (hb : ∀ e ∈ batch, e.HasBits ctx.hosts n) :
    ∀ a ∈ recvAccesses ctx n s batch, a.InBounds := by
  induction batch generalizing s es with
  | nil => exact fun a ha => absurd ha List.not_mem_nil
  | cons e batch ih =>
    intro a ha
    obtain ⟨hm, hsp, hhost⟩ := hb e List.mem_cons_self
    obtain ⟨hlearn, hs⟩ := h.learn hl hn
    rcases List.mem_append.1 ha with ha | ha
    · split at ha
      · exact absurd ha List.not_mem_nil
      · rw [hs] at ha
        exact hlearn.records.updates_inBounds _ ((hm.rank_lt hn).trans_le (Bitset.le_capacity_create n)) hhost hsp a ha
    · obtain ⟨h', hl'⟩ := h.recvEntry hn hl hm
      exact ih h' hl' (fun d hd => hb d (List.mem_cons_of_mem _ hd)) a ha

theorem Received.batches_inBounds (hu : ctx.gpUid ≠ INT_MAX) (hn : Allocatable n)
    (batches : List (List PeerCacheEntry)) (h : Received ctx.hosts n es g) (hb : ∀ b ∈ batches, BatchOf n b)
    (he : ∀ b ∈ batches, ∀ e ∈ b, e.HasBits ctx.hosts n) : ∀ a ∈ batchesAccesses ctx g batches, a.InBounds := by
  induction batches generalizing g es with
  | nil => exact fun a ha => absurd ha List.not_mem_nil
  | cons b batches ih =>
    intro a ha
    have hb₀ := hb b List.mem_cons_self
    rcases List.mem_append.1 ha with ha | ha
    · obtain ⟨hlook, hlive⟩ := h.lookup hu hn
      rw [hb₀.groupSize] at ha
      exact Received.recvEntries_inBounds (s := (_, 0)) hn b hlook hlive (he b List.mem_cons_self) a ha
    · exact ih (Received.batch (s := ⟨g, []⟩) hu hn h hb₀) (fun d hd => hb d (List.mem_cons_of_mem _ hd))
        (fun d hd => he d (List.mem_cons_of_mem _ hd)) a ha

/-! ### Scans and queries -/

/-- An SP has each of its ranks once. -/
theorem ranks_ofSp_sublist (gid : ℕ) (h : ∀ e ∈ es, e.shadowServiceProcs.Nodup) :
    ((ofSp gid (updatesOf es)).map (·.rank)).Sublist (es.map (·.rank)) := by
  induction es with
  | nil => exact List.Sublist.refl _
  | cons e es ih =>
    have hsplit : (ofSp gid (updatesOf (e :: es))).map (·.rank) =
        (ofSp gid e.updates).map (·.rank) ++ (ofSp gid (updatesOf es)).map (·.rank) := by
      rw [← List.map_append]
      exact congrArg _ (List.filter_append _ _)
    have hone : ((ofSp gid e.updates).map (·.rank)).Sublist [e.rank] := by
      have hlen : (e.shadowServiceProcs.filter fun sp => decide (sp = gid)).length ≤ 1 := by
        rw [← List.countP_eq_length_filter]
        exact List.nodup_iff_count_le_one.1 (h e List.mem_cons_self) gid
      have hranks : (ofSp gid e.updates).map (·.rank) =
          List.replicate (e.shadowServiceProcs.filter fun sp => decide (sp = gid)).length e.rank := by
        rw [ofSp, PeerCacheEntry.updates, List.filter_map, List.map_map]
        exact List.map_const'
      rw [hranks]
      exact List.replicate_sublist_replicate e.rank |>.2 hlen
    rw [hsplit, List.map_cons]
    exact hone.append (ih fun d hd => h d (List.mem_cons_of_mem _ hd))

/-- The bits that exist once there is an SP. -/
theorem Topology.Records.capacity_sps (h : t.Records cfg n us) (hne : us ≠ []) :
    (t.spsBitset.getD []).capacity = (Bitset.create n).capacity := by
  obtain ⟨b, hb⟩ := Option.isSome_iff_exists.1 (h.sps.made hne)
  have hc := h.sps.marks.capacity
  rw [hb] at hc ⊢
  exact hc

/-- **The scans that fill the tables stop in time**, when SPs and hosts have their bits. -/
theorem Received.populate_inBounds (h : Received cfg n es g) (hcfg : cfg.Valid)
    (hhas : ∀ e ∈ es, cfg.Has e.peer.hostInfo) (hnd : ∀ e ∈ es, e.shadowServiceProcs.Nodup)
    (hsp : ∀ e ∈ es, ∀ sp ∈ e.shadowServiceProcs, sp < (Bitset.create n).capacity) {a : BitAccess}
    (ha : g.topo.PopulateTests a) : a.InBounds := by
  have hlt : ∀ u ∈ updatesOf es, u.sp < (Bitset.create n).capacity ∧ u.rank < (Bitset.create n).capacity := by
    intro u hu
    obtain ⟨e, he, sp, hin, rfl⟩ := mem_updatesOf.1 hu
    exact ⟨hsp e he sp hin, (h.lt e he).trans_le (Bitset.le_capacity_create n)⟩
  cases ha with
  | sps hs =>
    exact inBounds_natCast.2 (hs.lt (h.records.sps.nSps_eq fun u hu => (hlt u hu).1).2.le)
  | spRanks hd hs =>
    rename_i gid i d
    have hone : ((ofSp gid (updatesOf es)).map (·.rank)).Nodup := h.nodup.sublist (ranks_ofSp_sublist gid hnd)
    have hnum := (h.records.sps.data gid d hd).nRanks_eq hone fun u hu => (hlt u (List.mem_filter.1 hu).1).2
    exact inBounds_natCast.2 (hs.lt hnum.le)
  | hosts hs => exact inBounds_natCast.2 (hs.lt (h.hosts_eq hcfg hhas).2.le)
  | hostSps hd hs =>
    exact inBounds_natCast.2 (hs.lt ((h.numSps_iff hd).2 fun e he => hsp e (List.mem_filter.1 he).1).le)

/-- **Every bit exists exactly when** the engine has no more SPs than a bitset of the size of the
group has bits, and than an `int` can number. -/
theorem bits_in_bounds_iff (ctx : GpCtx) (hu : ctx.gpUid ≠ INT_MAX) (hcfg : ctx.hosts.Valid) {n : ℕ}
    (hn : Allocatable n) {slot : Option GroupCache} (h₀ : Unused slot) {batches : List (List PeerCacheEntry)}
    (hne : batches ≠ []) (hb : ∀ b ∈ batches, BatchOf n b)
    (he : ∀ e ∈ batches.flatten, ctx.hosts.Has e.peer.hostInfo ∧ e.shadowServiceProcs ≠ [] ∧
      e.shadowServiceProcs.Nodup ∧ ∀ sp ∈ e.shadowServiceProcs, sp < ctx.numServiceProcs) :
    BitsInBounds ctx slot batches ↔
      ctx.numServiceProcs ≤ (Bitset.create n).capacity ∧ ctx.numServiceProcs ≤ 2 ^ 31 := by
  have h := Received.batches hu hn h₀ hb
  have hfirst : ∀ e ∈ firstEntries batches.flatten, e ∈ batches.flatten := fun e hm => mem_of_mem_firstEntries hm
  have hcap : ((recvBatches ctx slot batches).topo.spsBitset.getD []).capacity = (Bitset.create n).capacity := by
    apply h.records.capacity_sps
    obtain ⟨b, hbm⟩ := List.exists_mem_of_ne_nil _ hne
    obtain ⟨e, hem⟩ := List.exists_mem_of_ne_nil _ (hb b hbm).1
    obtain ⟨d, hd, -⟩ := List.mem_map.1 (rank_mem_firstEntries (List.mem_flatten.2 ⟨b, hbm, hem⟩))
    obtain ⟨sp, hsp⟩ := List.exists_mem_of_ne_nil _ (he d (hfirst d hd)).2.1
    exact List.ne_nil_of_mem (mem_updatesOf.2 ⟨d, hd, sp, hsp, rfl⟩)
  constructor
  · intro hin
    by_contra hno
    rw [not_and_or, not_le, not_le] at hno
    by_cases hbig : 2 ^ 31 < ctx.numServiceProcs
    · have hneg : 0 ≤ toInt (2 ^ 31) := (hin.spGroupGid (2 ^ 31) hbig _ .self).1
      exact absurd hneg (by decide)
    · have hlt : (Bitset.create n).capacity < ctx.numServiceProcs := hno.resolve_right hbig
      have hlast := (hin.spGroupGid _ hlt _ .self).2
      rw [hcap, toInt_eq (hlt.trans_le (not_lt.1 hbig))] at hlast
      exact absurd hlast (lt_irrefl _)
  · rintro ⟨hle, hint⟩
    have hsp : ∀ e ∈ batches.flatten, ∀ sp ∈ e.shadowServiceProcs, sp < (Bitset.create n).capacity :=
      fun e hm sp hs => ((he e hm).2.2.2 sp hs).trans_le hle
    constructor
    · apply (Received.of_unused h₀ ctx.hosts n).batches_inBounds hu hn batches hb
      intro b hbm e hem
      have hm := List.mem_flatten.2 ⟨b, hbm, hem⟩
      exact ⟨(hb b hbm).2 e hem, hsp e hm, (hcfg.idx_lt (he e hm).1).trans_le (Bitset.le_capacity_create _)⟩
    · intro a ha
      exact h.populate_inBounds hcfg (fun e hm => (he e (hfirst e hm)).1) (fun e hm => (he e (hfirst e hm)).2.2.1)
        (fun e hm => hsp e (hfirst e hm)) ha
    · rintro spGpGuid a ⟨-, hi, -⟩
      exact inBounds_natCast.2 (hcap ▸ hi.trans_le hle)
    · rintro spGid hlt a (_ | ⟨-, -, hi⟩)
      · rw [toInt_eq (hlt.trans_le hint), hcap]
        exact inBounds_natCast.2 (hlt.trans_le hle)
      · exact inBounds_natCast.2 (hcap ▸ (hi.trans hlt).trans_le hle)

/-- Two ranks, on the two SPs of the engine. -/
theorem bits_in_bounds_pair :
    BitsInBounds hostCtx none [[peerEntry 2 0 70 [0]], [peerEntry 2 1 71 [1]]] :=
  (bits_in_bounds_iff hostCtx (by decide) hostCtx_valid (n := 2) allocatable_two ⟨newGroupCache.persistent, rfl, rfl⟩
    (by decide) (by decide) (by decide)).2 (by decide)

/-- **Not always.** A group of one rank, whose SP is the ninth of the engine: its bit is set in a
bitset of one byte. -/
theorem not_bits_in_bounds : ¬ ∀ (ctx : GpCtx) (n : ℕ) (slot : Option GroupCache) (batches : List (List PeerCacheEntry)),
    ctx.gpUid ≠ INT_MAX → ctx.hosts.Valid → Allocatable n → Unused slot → batches ≠ [] → (∀ b ∈ batches, BatchOf n b) →
      (∀ e ∈ batches.flatten, ctx.hosts.Has e.peer.hostInfo ∧ e.shadowServiceProcs ≠ [] ∧
        e.shadowServiceProcs.Nodup ∧ ∀ sp ∈ e.shadowServiceProcs, sp < ctx.numServiceProcs) →
          BitsInBounds ctx slot batches := by
  intro h
  have hin := h { hostCtx with numServiceProcs := 9 } 1 none [[peerEntry 1 0 71 [8]]] (by decide) hostCtx_valid
    (by unfold Allocatable sizeofPeerCacheEntry; decide) ⟨newGroupCache.persistent, rfl, rfl⟩ (by decide) (by decide)
    (by decide)
  have hbad := hin.updates ⟨8, 8⟩ (by decide)
  exact absurd hbad.2 (by decide)

end DpuOffload
