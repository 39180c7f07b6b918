import DpuOffload.Protocol.Freshness
import DpuOffload.Cache.Faults

/-!
# Groups laid out on SPs and hosts

Where the ranks of a group are does not change while the group is built: a rank has its SPs and
its host (`Roster`), whether it joins here or its entry comes from elsewhere. `Seated` says what a
group cache knows of its roster, in every state of every run of the group: the entries that are
set are those of the roster, and the topology records their SPs and hosts.

* `Seats` — the topology records exactly the ranks that are set.
* `Seated.put` — a rank is added.
* `seated_of_reach` — **every state of every run is seated**, and a rank is recorded once unless a
  bootstrapping ends (`once`).
-/

namespace DpuOffload

open Relation Transition TopoUpdate

/-- Who is where in a group. -/
structure Roster extends Layout where
  /-- The host of each rank. -/
  host : ℕ → ℕ
  /-- A rank has an SP. -/
  sps_ne : ∀ r < size, sps r ≠ []
  /-- An SP serves one host. -/
  one_host : ∀ r < size, ∀ r' < size, ∀ sp ∈ sps r, sp ∈ sps r' → host r = host r'

/-- The hosts of the group are in the configuration. -/
def Roster.Known (R : Roster) (cfg : HostsConfig) : Prop := ∀ r < R.size, cfg.Has (R.host r)

/-- The topology of a group in which the ranks `set` are set, and no others: a run of
`update_topology_data` for each of their SPs. -/
structure Seats (cfg : HostsConfig) (R : Roster) (set : ℕ → Bool) (t : Topology) (us : List TopoUpdate) : Prop where
  /-- The topology records the runs. -/
  records : t.Records cfg R.size us
  /-- So does `fault`. -/
  faults : t.Faults cfg R.size us
  /-- The runs are those of the ranks that are set. -/
  runs : ∀ u, u ∈ us ↔ set u.rank = true ∧ u.sp ∈ R.sps u.rank ∧ u.host = R.host u.rank

variable {cfg : HostsConfig} {R : Roster} {set set' : ℕ → Bool} {t : Topology} {us : List TopoUpdate}

theorem Seats.empty (cfg : HostsConfig) (R : Roster) (h : ∀ r, set r = false) : Seats cfg R set Topology.empty [] where
  records := records_empty cfg R.size
  faults := faults_empty cfg R.size
  runs u := by simp [h u.rank]

/-- The runs for a rank. -/
def Roster.runsOf (R : Roster) (r : ℕ) : List TopoUpdate := ((R.sps r).map fun sp => ⟨r, sp, R.host r⟩).reverse

theorem Roster.mem_runsOf {r : ℕ} {u : TopoUpdate} :
    u ∈ R.runsOf r ↔ u.rank = r ∧ u.sp ∈ R.sps r ∧ u.host = R.host r := by
  rw [Roster.runsOf, List.mem_reverse, List.mem_map]
  constructor
  · rintro ⟨sp, hsp, rfl⟩
    exact ⟨rfl, hsp, rfl⟩
  · rintro ⟨rfl, hsp, hh⟩
    exact ⟨u.sp, hsp, by rw [← hh]⟩

theorem Roster.nodup_runsOf (R : Roster) (r : ℕ) : (R.runsOf r).Nodup :=
  List.nodup_reverse.2 ((R.nodup r).map fun _ _ h => congrArg TopoUpdate.sp h)

/-- A rank is added, for the first time or once more. -/
theorem Seats.add (h : Seats cfg R set t us) (hpop : t.lookupTablesPopulated = false) {r : ℕ}
    (hset : ∀ q, set' q = if q = r then true else set q) (gpUid : ℤ) :
    Seats cfg R set' ((R.sps r).foldl (fun t sp => t.updateTopologyData cfg gpUid R.size r sp (R.host r)) t)
      (R.runsOf r ++ us) where
  records := h.records.updates gpUid r (R.host r) (R.sps r)
  faults := h.faults.updates gpUid r (R.host r) (R.sps r) h.records hpop
  runs u := by
    rw [List.mem_append, Roster.mem_runsOf, h.runs, hset]
    by_cases hu : u.rank = r
    · rw [if_pos hu, hu]
      tauto
    · rw [if_neg hu]
      tauto

/-- A rank that is added for the first time has no run yet. -/
theorem Seats.nodup_add (h : Seats cfg R set t us) {r : ℕ} (hr : set r = false) (hnd : us.Nodup) :
    (R.runsOf r ++ us).Nodup := by
  refine List.nodup_append.2 ⟨R.nodup_runsOf r, hnd, ?_⟩
  rintro u hu v hv rfl
  obtain ⟨rfl, -⟩ := Roster.mem_runsOf.1 hu
  rw [((h.runs u).1 hv).1] at hr
  cases hr

/-! ### A group cache -/

/-- The entry of rank `r` is that of the roster. -/
def Roster.Fits (R : Roster) (r : ℕ) (e : PeerCacheEntry) : Prop :=
  e.shadowServiceProcs = R.sps r ∧ e.peer.hostInfo = R.host r ∧ e.peer.procInfo.groupRank = r

/-- **What a group cache knows of its roster.** When `once` holds, no rank was recorded twice. -/
structure Seated (cfg : HostsConfig) (R : Roster) (once : Prop) (g : GroupCache) : Prop extends Stocked R.size g where
  /-- A group not in use has no topology. -/
  empty : ¬ g.Live → g.topo = Topology.empty
  /-- The entries that are set are those of the roster. -/
  fits : ∀ r, g.isSet r = true → R.Fits r (g.entryAt r)
  /-- The others list no SP. -/
  blank : ∀ r, g.isSet r = false → (g.entryAt r).shadowServiceProcs = []
  /-- The topology is that of the ranks that are set. -/
  seats : ∃ us, Seats cfg R g.isSet g.topo us ∧ (once → us.Nodup)
  /-- A group whose tables are filled is complete. -/
  filled : g.topo.lookupTablesPopulated = true → 0 < R.size ∧ g.numLocalEntries = R.size ∧ g.topo.Tables
  /-- Until they are filled there is no table of SPs. -/
  unfilled : g.topo.lookupTablesPopulated = false → g.topo.sps = []

/-- Filled tables are marked. -/
theorem populated_doPopulate (t : Topology) : t.doPopulateGroupCacheLookupTable.lookupTablesPopulated = true := by
  cases hp : t.lookupTablesPopulated with
  | true => rw [doPopulate_of_populated hp, hp]
  | false => exact (doPopulate_fields hp).2.2.2.2

/-- No run of `update_topology_data` changes the table of SPs. -/
theorem updates_sps (cfg : HostsConfig) (gpUid : ℤ) (n r host : ℕ) (gids : List ℕ) (t : Topology) :
    (gids.foldl (fun t sp => t.updateTopologyData cfg gpUid n r sp host) t).sps = t.sps := by
  induction gids generalizing t with
  | nil => rfl
  | cons sp gids ih =>
    rw [List.foldl_cons, ih]
    unfold Topology.updateTopologyData Topology.updateHost Topology.updateSp
    split <;> split <;> rfl

variable {once : Prop} {g g' : GroupCache} {ctx : GpCtx} {T : Tally → Prop}

namespace Seated

/-- What is about neither the entries nor the topology does not matter. -/
theorem of_frame (h : Seated cfg R once g) (hg : g'.frame = g.frame) : Seated cfg R once g' := by
  simp only [GroupCache.frame, GroupCache.mk.injEq, true_and] at hg
  obtain ⟨hi, hsize, hu, hnum, hranks, htopo⟩ := hg
  have hl : g'.Live ↔ g.Live := by simp only [GroupCache.Live, hu]
  have hset : g'.isSet = g.isSet := funext fun r => isSet_congr hranks r
  have hat : g'.entryAt = g.entryAt := funext fun r => by simp only [GroupCache.entryAt, GroupCache.entries, hranks]
  refine ⟨h.toStocked.congr hi hsize hu hnum hranks, ?_, ?_, ?_, ?_, ?_, ?_⟩
  · rw [hl, htopo]
    exact h.empty
  · rw [hset, hat]
    exact h.fits
  · rw [hset, hat]
    exact h.blank
  · rw [hset, htopo]
    exact h.seats
  · rw [htopo, hnum]
    exact h.filled
  · rw [htopo]
    exact h.unfilled

/-- A group cache without entries. -/
theorem of_none (hl : ¬ g.Live) (hr : g.ranks = none) (hs : g.groupSize = 0) (hn : g.numLocalEntries = 0)
    (ht : g.topo = Topology.empty) : Seated cfg R once g := by
  have hblank : ∀ r, g.entryAt r = initPeerCacheEntry := fun r => by
    simp [GroupCache.entryAt, GroupCache.entries, hr]
  have hset : ∀ r, g.isSet r = false := fun r => by
    rw [GroupCache.isSet, hblank]
    rfl
  refine ⟨Stocked.of_none hl hr hs hn, fun _ => ht, fun r hrs => ?_, fun r _ => ?_, ?_, ?_, ?_⟩
  · rw [hset] at hrs
    cases hrs
  · rw [hblank]
    rfl
  · rw [ht]
    exact ⟨[], Seats.empty cfg R hset, fun _ => List.nodup_nil⟩
  · rw [ht]
    intro hp
    cases hp
  · rw [ht]
    exact fun _ => rfl

theorem new : Seated cfg R once newGroupCache := of_none (fun h => h rfl) rfl rfl rfl rfl

theorem reset (g : GroupCache) (p : Persistent) : Seated cfg R once { resetGroupCache g with persistent := p } :=
  of_none (fun h => h rfl) rfl rfl rfl rfl

/-- A group that is initialised with its size. -/
theorem init (g : GroupCache) {uid : ℤ} (hu : uid ≠ INT_MAX) :
    Seated cfg R once { initGroupCache g (sizeT R.size) with groupUid := uid } := by
  have hset : ∀ r, ({ initGroupCache g (sizeT R.size) with groupUid := uid } : GroupCache).isSet r = false :=
    fun r => isSet_replicate (k := allocEntries (sizeT R.size)) rfl r
  refine ⟨Stocked.init R.alloc g hu, fun h => absurd hu h, fun r hr => ?_, fun r _ => ?_,
    ⟨[], Seats.empty cfg R hset, fun _ => List.nodup_nil⟩, fun hp => ?_, fun _ => rfl⟩
  · rw [hset] at hr
    cases hr
  · rw [entryAt_replicate (k := allocEntries (sizeT R.size)) rfl r]
    rfl
  · cases hp

/-- A lookup with the size of the group. -/
theorem lookup {uid : ℤ} (hu : uid ≠ INT_MAX) (h : Seated cfg R once g) :
    Seated cfg R once (getGroupCacheInternal uid (some g) R.size) := by
  unfold getGroupCacheInternal
  dsimp only
  split
  · exact init g hu
  · exact h

/-- The tables of a group of unknown size are empty. -/
theorem not_filled (h : Seated cfg R once g) (h0 : g.groupSize = 0) : g.topo.lookupTablesPopulated = false := by
  cases hp : g.topo.lookupTablesPopulated with
  | false => rfl
  | true =>
    obtain ⟨hpos, hnum, -⟩ := h.filled hp
    rw [h.unknown h0] at hnum
    exact absurd hnum hpos.ne

/-- The group learns its size, and may create its bitsets. -/
theorem known (h : Seated cfg R once g) (h0 : g.groupSize = 0) {t : Topology} (ht : t = g.topo ∨ t = { g.topo with
      spsBitset := some (bitsetCreate g.topo.spsBitset R.size)
      hostsBitset := some (bitsetCreate g.topo.hostsBitset cfg.numHosts) })
    (hl : g.Live) (hg : g'.frame = { g.frame with groupSize := R.size, topo := t }) : Seated cfg R once g' := by
  have h' : Seated cfg R once { g with groupSize := R.size, topo := t } := by
    obtain ⟨us, hus, hnd⟩ := h.seats
    have hpop : t.lookupTablesPopulated = false := by
      rcases ht with rfl | rfl <;> exact h.not_filled h0
    refine ⟨h.toStocked.known.congr rfl rfl rfl rfl rfl, fun hd => absurd hl hd, h.fits, h.blank,
      ⟨us, ⟨?_, ?_, hus.runs⟩, hnd⟩, fun hp => ?_, fun _ => ?_⟩
    · rcases ht with rfl | rfl
      · exact hus.records
      · exact hus.records.congr rfl rfl (.inr rfl) rfl rfl (.inr rfl)
    · have hold := hus.faults.iff_of_not_populated (h.not_filled h0)
      rcases ht with rfl | rfl <;> exact .of_not_populated hpop hold
    · rw [hpop] at hp
      cases hp
    · rcases ht with rfl | rfl <;> exact h.unfilled (h.not_filled h0)
  apply h'.of_frame
  rw [hg]
  rfl

theorem learn (h : Seated cfg R once g) (hl : g.Live) : Seated cfg R once (g.learnGroupSize cfg R.size) := by
  unfold GroupCache.learnGroupSize
  split
  · rename_i hc
    apply h.known hc.2.1 (.inr rfl) hl
    rw [sizeT_natCast R.alloc.lt]
    rfl
  · exact h

/-- **A rank is added**, with its SPs. -/
theorem put (h : Seated cfg R once g) (hl : g.Live) (hs : g.groupSize = R.size) {r : ℕ} (hr : r < R.size)
    (hset : g.isSet r = false) {e : PeerCacheEntry} (he : e.set = true) (hfit : R.Fits r e) {u : ℤ}
    (hg : g'.frame = { g.frame with
      numLocalEntries := g.numLocalEntries + 1
      ranks := g.ranks.map (·.set r e)
      topo := (R.sps r).foldl (fun t sp => t.updateTopologyData cfg u g.groupSize r sp (R.host r)) g.topo }) :
    Seated cfg R once g' := by
  rw [hs] at hg
  simp only [GroupCache.frame, GroupCache.mk.injEq, true_and] at hg
  obtain ⟨hi, hsize, hu, hnum, hranks, htopo⟩ := hg
  have hlive : g'.Live := by rw [GroupCache.Live, hu]; exact hl
  have hlen : r < g.entries.length := by
    obtain ⟨-, l, hlr, hlen⟩ := h.live hl
    rw [GroupCache.entries, hlr]
    exact hlen ▸ hr
  have hat := entryAt_map_set hlen hranks
  have hall : ∀ q, g'.isSet q = if q = r then true else g.isSet q := by
    intro q
    rw [GroupCache.isSet, hat q]
    split
    · exact he
    · rfl
  -- a group whose tables are filled has no rank to add
  have hpop : g.topo.lookupTablesPopulated = false := by
    by_contra hp
    rw [(h.isSet_of_complete (h.filled (Bool.not_eq_false _ ▸ hp)).2.1 r).2 hr] at hset
    cases hset
  refine ⟨h.toStocked.put hl hs hr hset he hi hsize hu hnum hranks, fun hd => absurd hlive hd, fun q hq => ?_,
    fun q hq => ?_, ?_, fun hp => ?_, fun hp => ?_⟩
  · rw [hat]
    rw [hall] at hq
    split
    · rename_i hqr
      exact hqr ▸ hfit
    · rename_i hqr
      rw [if_neg hqr] at hq
      exact h.fits q hq
  · rw [hat]
    rw [hall] at hq
    split
    · rename_i hqr
      rw [if_pos hqr] at hq
      cases hq
    · rename_i hqr
      rw [if_neg hqr] at hq
      exact h.blank q hq
  · obtain ⟨us, hus, hnd⟩ := h.seats
    rw [htopo]
    exact ⟨_, hus.add hpop hall u, fun ho => hus.nodup_add hset (hnd ho)⟩
  · rw [htopo, updates_populated, hpop] at hp
    cases hp
  · rw [htopo, updates_sps]
    exact h.unfilled hpop

/-- A rank that is set is recorded once more. -/
theorem again (h : Seated cfg R False g) {r : ℕ} (hset : g.isSet r = true) (hl : g.Live)
    (hs : g.groupSize = R.size) (hpop : g.topo.lookupTablesPopulated = false) {u : ℤ}
    (hg : g'.frame = { g.frame with
      topo := (R.sps r).foldl (fun t sp => t.updateTopologyData cfg u g.groupSize r sp (R.host r)) g.topo }) :
    Seated cfg R False g' := by
  have hall : ∀ q, g.isSet q = if q = r then true else g.isSet q := by
    intro q
    split
    · rename_i hq
      rw [hq, hset]
    · rfl
  obtain ⟨us, hus, -⟩ := h.seats
  have hadd := hus.add hpop hall u
  rw [← hs] at hadd
  have h' : Seated cfg R False { g with
      topo := (R.sps r).foldl (fun t sp => t.updateTopologyData cfg u g.groupSize r sp (R.host r)) g.topo } := by
    refine ⟨h.toStocked.congr rfl rfl rfl rfl rfl, fun hd => absurd hl hd, h.fits, h.blank, ⟨_, hadd, fun ho => ho.elim⟩,
      fun hp => ?_, fun _ => ?_⟩
    · rw [updates_populated, hpop] at hp
      cases hp
    · rw [updates_sps]
      exact h.unfilled hpop
  apply h'.of_frame
  rw [hg]
  rfl

/-- The tables of a complete group are filled. -/
theorem populate (h : Seated cfg R once g) (hl : g.Live) (hpos : 0 < R.size) (hn : g.numLocalEntries = R.size)
    (hg : g'.frame = { g.frame with topo := g.topo.doPopulateGroupCacheLookupTable }) : Seated cfg R once g' := by
  have h' : Seated cfg R once { g with topo := g.topo.doPopulateGroupCacheLookupTable } := by
    obtain ⟨us, hus, hnd⟩ := h.seats
    refine ⟨h.toStocked.congr rfl rfl rfl rfl rfl, fun hd => absurd hl hd, h.fits, h.blank,
      ⟨us, ⟨hus.records.doPopulate, hus.faults.doPopulate, hus.runs⟩, hnd⟩, fun _ => ⟨hpos, hn, ?_⟩, fun hf => ?_⟩
    · cases hp : g.topo.lookupTablesPopulated with
      | true =>
        rw [doPopulate_of_populated hp]
        exact (h.filled hp).2.2
      | false => exact tables_doPopulate hp
    · rw [populated_doPopulate] at hf
      cases hf
  apply h'.of_frame
  rw [hg]
  rfl

/-- A group of known size that passes for complete is. -/
theorem complete (h : Seated cfg R once g) (hpos : 0 < g.groupSize) (hf : g.full = true) :
    0 < R.size ∧ g.numLocalEntries = R.size := by
  have hs : g.groupSize = R.size := h.size.resolve_left hpos.ne'
  have hf : g.groupSize = g.numLocalEntries := beq_iff_eq.1 hf
  omega

/-- The complete group is sent to the local ranks. -/
theorem send {s : GpState} (h : Seated cfg R once s.gp) (hl : s.gp.Live) (hpos : 0 < s.gp.groupSize)
    (hf : s.gp.full = true) : Seated cfg R once (sendGpCacheToHost s).gp := by
  unfold sendGpCacheToHost
  split
  · obtain ⟨hp, hn⟩ := h.complete hpos hf
    exact h.populate hl hp hn rfl
  · exact h

theorem exchange {s : GpState} (h : Seated cfg R once s.gp) (hl : s.gp.Live) (hpos : 0 < s.gp.groupSize) (k : ℕ) :
    Seated cfg R once (groupCacheExchange ctx s k).gp := by
  have hb : Seated cfg R once (broadcastGroupCache ctx s).gp := by
    simp only [broadcastGroupCache]
    split
    · exact h
    · by_cases hf : s.gp.full
      · simp only [GpState.emit, hf, if_true]
        exact Seated.send (s := ⟨s.gp, _⟩) h hl hpos hf
      · simp only [GpState.emit, hf]
        exact h
  unfold groupCacheExchange
  repeat' split
  all_goals first | exact hb | exact h

end Seated

end DpuOffload
