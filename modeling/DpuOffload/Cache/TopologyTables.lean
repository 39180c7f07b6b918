import DpuOffload.Cache.TopologyRecords

/-!
# The lookup tables

`do_populate_group_cache_lookup_table` fills four kinds of tables, each by a scan of a
bitset that stops when it has found as many bits as a counter says: the SPs and the hosts of
the group, the SPs of each host and the ranks of each SP. It also numbers the SPs of each
host.

* `Topology.Tables` — the tables are the ones of the bitsets and counters as they are now;
  so they are when they have just been filled (`tables_doPopulate`).
* `Topology.Records.doPopulate` — filling them changes nothing that is recorded.
* `tables_eq_of_records` — **tables filled after the same runs** of `update_topology_data`
  are the same, when each SP is on one host.
-/

namespace DpuOffload

open TopoUpdate

/-! ### Walking a hash -/

/-- A walk that replaces every value of a hash. -/
theorem lookup_foldl_insert {β : Type*} (f : β → β) (h : AList (fun _ : ℕ => β)) (k : ℕ) :
    (h.entries.foldl (fun acc p => acc.insert p.1 (f p.2)) h).lookup k = (h.lookup k).map f := by
  have key : ∀ (ps : List (Sigma fun _ : ℕ => β)) (acc : AList (fun _ : ℕ => β)), ps.NodupKeys →
      (ps.foldl (fun acc p => acc.insert p.1 (f p.2)) acc).lookup k =
        ((ps.dlookup k).map f).or (acc.lookup k) := by
    intro ps
    induction ps with
    | nil => intro acc _; rfl
    | cons p ps ih =>
      obtain ⟨q, v⟩ := p
      intro acc hnd
      rw [List.nodupKeys_cons] at hnd
      rw [List.foldl_cons, ih _ hnd.2]
      by_cases hk : k = q
      · subst hk
        rw [List.dlookup_eq_none.2 hnd.1, AList.lookup_insert, List.dlookup_cons_eq]
        rfl
      · rw [AList.lookup_insert_ne hk, List.dlookup_cons_ne _ _ hk]
  rw [key _ _ h.nodupKeys]
  have hl : h.entries.dlookup k = h.lookup k := rfl
  rw [hl]
  cases h.lookup k <;> rfl

theorem foldl_pair {α β γ : Type*} (f : α → γ → α) (g : β → γ → β) (l : List γ) (a : α) (b : β) :
    l.foldl (fun acc p => (f acc.1 p, g acc.2 p)) (a, b) = (l.foldl f a, l.foldl g b) := by
  induction l generalizing a b with
  | nil => rfl
  | cons c l ih => exact ih _ _

/-! ### The SPs of a host -/

/-- The table of the SPs of a host, as the bitset and the counter are now. -/
def HostCacheData.spsTable (d : HostCacheData) : List ℕ := (d.spsBitset.getD []).firstBits d.numSps

/-- The number a walk of the hosts gives an SP: that of the last host that has the SP. -/
def lidFrom (gid : ℕ) (ds : List HostCacheData) (lid : ℕ) : ℕ :=
  ds.foldl (fun lid d => if gid ∈ d.spsTable then d.spsTable.idxOf gid else lid) lid

/-- One SP of the table of a host is given its number. -/
def numberSp (h : AList (fun _ : ℕ => SpCacheData)) (p : ℕ × ℕ) : AList (fun _ : ℕ => SpCacheData) :=
  match h.lookup p.1 with
  | some sp => h.insert p.1 { sp with lid := p.2 }
  | none => h

theorem lookup_numberSp_of_ne {h : AList (fun _ : ℕ => SpCacheData)} {p : ℕ × ℕ} {gid : ℕ} (hg : gid ≠ p.1) :
    (numberSp h p).lookup gid = h.lookup gid := by
  unfold numberSp
  split
  · exact AList.lookup_insert_ne hg
  · rfl

theorem lookup_numberSp_self (h : AList (fun _ : ℕ => SpCacheData)) (gid k : ℕ) :
    (numberSp h (gid, k)).lookup gid = (h.lookup gid).map fun sp => { sp with lid := k } := by
  unfold numberSp
  cases hl : h.lookup gid <;> simp [hl]

/-- The SPs are numbered in the order of the table. -/
theorem lookup_populateHostSps (h : AList (fun _ : ℕ => SpCacheData)) (d : HostCacheData) (gid : ℕ) :
    (populateHostSps h d).1.lookup gid = (h.lookup gid).map fun sp =>
      { sp with lid := if gid ∈ d.spsTable then d.spsTable.idxOf gid else sp.lid } := by
  have key : ∀ (l : List ℕ) (k : ℕ) (h : AList (fun _ : ℕ => SpCacheData)), l.Nodup →
      ((l.zipIdx k).foldl numberSp h).lookup gid = (h.lookup gid).map fun sp =>
        { sp with lid := if gid ∈ l then k + l.idxOf gid else sp.lid } := by
    intro l
    induction l with
    | nil => intro k h _; simp
    | cons q l ih =>
      intro k h hnd
      obtain ⟨hq, hnd⟩ := List.nodup_cons.1 hnd
      rw [List.zipIdx_cons, List.foldl_cons, ih _ _ hnd]
      by_cases hg : gid = q
      · subst hg
        rw [lookup_numberSp_self]
        cases h.lookup gid <;> simp [hq]
      · have hkeep : (numberSp h (q, k)).lookup gid = h.lookup gid := lookup_numberSp_of_ne hg
        have hidx : (q :: l).idxOf gid = l.idxOf gid + 1 := List.idxOf_cons_ne _ (Ne.symm hg)
        simp only [hkeep, List.mem_cons, hg, false_or, hidx]
        cases h.lookup gid with
        | none => rfl
        | some sp =>
          simp only [Option.map_some]
          split <;> congr 2
          omega
  have := key d.spsTable 0 h (Bitset.nodup_firstBits _ _)
  simp only [Nat.zero_add] at this
  exact this

theorem lookup_foldl_populateHostSps (ps : List (Sigma fun _ : ℕ => HostCacheData))
    (h : AList (fun _ : ℕ => SpCacheData)) (gid : ℕ) :
    (ps.foldl (fun h p => (populateHostSps h p.2).1) h).lookup gid = (h.lookup gid).map fun sp =>
      { sp with lid := lidFrom gid (ps.map (·.2)) sp.lid } := by
  induction ps generalizing h with
  | nil =>
    rw [List.foldl_nil]
    cases h.lookup gid <;> rfl
  | cons p ps ih =>
    rw [List.foldl_cons, ih, lookup_populateHostSps, Option.map_map]
    rfl

/-- An SP that only hosts `uid` has, is numbered by its place there. -/
theorem lidFrom_eq {gid : ℕ} {d : HostCacheData} {ds : List HostCacheData} (hd : d ∈ ds) (hg : gid ∈ d.spsTable)
    (hone : ∀ d' ∈ ds, gid ∈ d'.spsTable → d'.spsTable = d.spsTable) (lid : ℕ) :
    lidFrom gid ds lid = d.spsTable.idxOf gid := by
  have key : ∀ (ds : List HostCacheData) (lid : ℕ), (∀ d' ∈ ds, gid ∈ d'.spsTable → d'.spsTable = d.spsTable) →
      ((∃ d' ∈ ds, gid ∈ d'.spsTable) ∨ lid = d.spsTable.idxOf gid) → lidFrom gid ds lid = d.spsTable.idxOf gid := by
    intro ds
    induction ds with
    | nil =>
      rintro lid - (⟨d', hd', -⟩ | h)
      · exact absurd hd' List.not_mem_nil
      · exact h
    | cons e ds ih =>
      intro lid hone h
      have hone' : ∀ d' ∈ ds, gid ∈ d'.spsTable → d'.spsTable = d.spsTable :=
        fun d' hd' => hone d' (List.mem_cons_of_mem _ hd')
      have hstep : lidFrom gid (e :: ds) lid =
          lidFrom gid ds (if gid ∈ e.spsTable then e.spsTable.idxOf gid else lid) := rfl
      rw [hstep]
      by_cases he : gid ∈ e.spsTable
      · rw [if_pos he, hone e List.mem_cons_self he]
        exact ih _ hone' (.inr rfl)
      · rw [if_neg he]
        refine ih _ hone' (h.imp ?_ id)
        rintro ⟨d', hd', hg'⟩
        rcases List.mem_cons.1 hd' with rfl | hd'
        · exact absurd hg' he
        · exact ⟨d', hd', hg'⟩
  exact key ds lid hone (.inl ⟨d, hd, hg⟩)

/-! ### All the tables -/

/-- **The tables are those of the bitsets and the counters** as they are now. The table of the
SPs has the first SPs of the engine, as many as bits were found. -/
structure Topology.Tables (t : Topology) : Prop where
  /-- The SPs. -/
  sps : t.sps = List.range (min t.nSps (t.spsBitset.getD []).bits.card)
  /-- The hosts. -/
  hosts : t.hosts = (t.hostsBitset.getD []).firstBits t.nHosts
  /-- The ranks of an SP. -/
  spRanks : ∀ gid d, t.spsHash.lookup gid = some d → d.ranks = (d.ranksBitset.getD []).firstBits d.nRanks
  /-- The SPs of a host. -/
  hostSps : ∀ uid d, t.hostsHash.lookup uid = some d → d.sps = (d.spsBitset.getD []).firstBits d.numSps
  /-- An SP that one host has is numbered by its place there. -/
  lid : ∀ uid d gid sp, t.hostsHash.lookup uid = some d → gid ∈ d.sps → t.spsHash.lookup gid = some sp →
    (∀ uid' d', t.hostsHash.lookup uid' = some d' → gid ∈ d'.sps → uid' = uid) → sp.lid = d.sps.idxOf gid

variable {t t' : Topology} {cfg : HostsConfig} {n : ℕ} {us : List TopoUpdate}

theorem spsHash_doPopulate (hpop : t.lookupTablesPopulated = false) (gid : ℕ) :
    t.doPopulateGroupCacheLookupTable.spsHash.lookup gid = (t.spsHash.lookup gid).map fun d =>
      { populateSpRanks d with lid := lidFrom gid (t.hostsHash.entries.map (·.2)) d.lid } := by
  simp only [Topology.doPopulateGroupCacheLookupTable, hpop, Bool.false_eq_true, if_false]
  have hpair := foldl_pair (fun h p => (populateHostSps h p.2).1)
    (fun (h : AList (fun _ : ℕ => HostCacheData)) p => h.insert p.1 { p.2 with sps := p.2.spsTable })
    t.hostsHash.entries (t.spsHash.entries.foldl (fun h p => h.insert p.1 (populateSpRanks p.2)) t.spsHash) t.hostsHash
  have hfst := congrArg Prod.fst hpair
  apply Eq.trans (congrArg (AList.lookup gid) hfst)
  rw [lookup_foldl_populateHostSps, lookup_foldl_insert, Option.map_map]
  rfl

theorem hostsHash_doPopulate (hpop : t.lookupTablesPopulated = false) (uid : ℕ) :
    t.doPopulateGroupCacheLookupTable.hostsHash.lookup uid = (t.hostsHash.lookup uid).map fun d =>
      { d with sps := d.spsTable } := by
  simp only [Topology.doPopulateGroupCacheLookupTable, hpop, Bool.false_eq_true, if_false]
  have hpair := foldl_pair (fun h p => (populateHostSps h p.2).1)
    (fun (h : AList (fun _ : ℕ => HostCacheData)) p => h.insert p.1 { p.2 with sps := p.2.spsTable })
    t.hostsHash.entries (t.spsHash.entries.foldl (fun h p => h.insert p.1 (populateSpRanks p.2)) t.spsHash) t.hostsHash
  apply Eq.trans (congrArg (AList.lookup uid) (congrArg Prod.snd hpair))
  exact lookup_foldl_insert (fun d : HostCacheData => { d with sps := d.spsTable }) t.hostsHash uid

/-- What filling the tables does to the rest of the topology. -/
theorem doPopulate_fields (hpop : t.lookupTablesPopulated = false) :
    t.doPopulateGroupCacheLookupTable.nSps = t.nSps ∧ t.doPopulateGroupCacheLookupTable.nHosts = t.nHosts ∧
      t.doPopulateGroupCacheLookupTable.spsBitset = t.spsBitset ∧
      t.doPopulateGroupCacheLookupTable.hostsBitset = t.hostsBitset ∧
      t.doPopulateGroupCacheLookupTable.lookupTablesPopulated = true := by
  simp only [Topology.doPopulateGroupCacheLookupTable, hpop, Bool.false_eq_true, if_false, and_self]

theorem doPopulate_of_populated (hpop : t.lookupTablesPopulated = true) :
    t.doPopulateGroupCacheLookupTable = t := by
  simp only [Topology.doPopulateGroupCacheLookupTable, hpop, if_true]

/-- **Tables that have just been filled are those of the bitsets.** -/
theorem tables_doPopulate (hpop : t.lookupTablesPopulated = false) : t.doPopulateGroupCacheLookupTable.Tables := by
  obtain ⟨hns, hnh, hbs, hbh, -⟩ := doPopulate_fields hpop
  have hhost : ∀ uid d, t.doPopulateGroupCacheLookupTable.hostsHash.lookup uid = some d →
      ∃ d₀, t.hostsHash.lookup uid = some d₀ ∧ d = { d₀ with sps := d₀.spsTable } := by
    intro uid d hd
    rw [hostsHash_doPopulate hpop] at hd
    obtain ⟨d₀, hd₀, rfl⟩ := Option.map_eq_some_iff.1 hd
    exact ⟨d₀, hd₀, rfl⟩
  constructor
  · rw [hns, hbs]
    simp only [Topology.doPopulateGroupCacheLookupTable, hpop, Bool.false_eq_true, if_false]
    rw [List.zipIdx_map_snd, Bitset.length_firstBits, List.range_eq_range']
  · rw [hnh, hbh]
    simp only [Topology.doPopulateGroupCacheLookupTable, hpop, Bool.false_eq_true, if_false]
  · intro gid d hd
    rw [spsHash_doPopulate hpop] at hd
    obtain ⟨d₀, -, rfl⟩ := Option.map_eq_some_iff.1 hd
    rfl
  · intro uid d hd
    obtain ⟨d₀, -, rfl⟩ := hhost uid d hd
    rfl
  · intro uid d gid sp hd hg hsp hone
    obtain ⟨d₀, hd₀, rfl⟩ := hhost uid d hd
    rw [spsHash_doPopulate hpop] at hsp
    obtain ⟨sp₀, -, rfl⟩ := Option.map_eq_some_iff.1 hsp
    have hmem : d₀ ∈ t.hostsHash.entries.map (·.2) := List.mem_map_of_mem (AList.mem_lookup_iff.1 hd₀)
    refine lidFrom_eq hmem hg ?_ _
    intro d' hd' hg'
    obtain ⟨⟨uid', d''⟩, hent, rfl⟩ := List.mem_map.1 hd'
    have hl' : t.hostsHash.lookup uid' = some d'' := AList.mem_lookup_iff.2 hent
    have hl : t.doPopulateGroupCacheLookupTable.hostsHash.lookup uid' = some { d'' with sps := d''.spsTable } := by
      rw [hostsHash_doPopulate hpop, hl']
      rfl
    have huid := hone uid' _ hl hg'
    subst huid
    rw [hd₀] at hl'
    cases hl'
    rfl

/-- **Filling the tables changes nothing that is recorded.** -/
theorem Topology.Records.doPopulate (h : t.Records cfg n us) : t.doPopulateGroupCacheLookupTable.Records cfg n us := by
  cases hpop : t.lookupTablesPopulated with
  | true => rwa [doPopulate_of_populated hpop]
  | false =>
    obtain ⟨hns, hnh, hbs, hbh, -⟩ := doPopulate_fields hpop
    constructor
    · constructor
      · intro gid d hd
        rw [spsHash_doPopulate hpop] at hd
        obtain ⟨d₀, hd₀, rfl⟩ := Option.map_eq_some_iff.1 hd
        have hrec := h.sps.data gid d₀ hd₀
        exact ⟨hrec.gid, hrec.nRanks, hrec.ranks⟩
      · intro gid
        rw [← h.sps.keys, ← AList.lookup_isSome, ← AList.lookup_isSome, spsHash_doPopulate hpop, Option.isSome_map]
      · rw [hns]
        exact h.sps.nSps
      · rw [hbs]
        exact h.sps.marks
      · rw [hbs]
        exact h.sps.made
    · constructor
      · intro uid d hd
        rw [hostsHash_doPopulate hpop] at hd
        obtain ⟨d₀, hd₀, rfl⟩ := Option.map_eq_some_iff.1 hd
        have hrec := h.hosts.data uid d₀ hd₀
        exact ⟨hrec.uid, hrec.configIdx, hrec.numRanks, hrec.numSps, hrec.sps, hrec.ranks⟩
      · intro uid
        rw [← h.hosts.keys, ← AList.lookup_isSome, ← AList.lookup_isSome, hostsHash_doPopulate hpop, Option.isSome_map]
      · rw [hnh]
        exact h.hosts.nHosts
      · rw [hbh]
        exact h.hosts.marks
      · rw [hbh]
        exact h.hosts.made

/-! ### The tables a group ends up with -/

/-- What a process reads off the topology of a group: numbers and tables, each SP of a host with
its number there. -/
structure LookupTables where
  /-- `n_sps`. -/
  nSps : ℕ
  /-- `n_hosts`. -/
  nHosts : ℕ
  /-- The SPs. -/
  sps : List ℕ
  /-- The hosts. -/
  hosts : List ℕ
  /-- The SPs of each host, with their `lid`. -/
  hostSps : ℕ → Option (List (ℕ × Option ℕ))
  /-- The ranks of each SP. -/
  spRanks : ℕ → Option (List ℕ)

/-- The tables of a topology. -/
def Topology.lookupTables (t : Topology) : LookupTables where
  nSps := t.nSps
  nHosts := t.nHosts
  sps := t.sps
  hosts := t.hosts
  hostSps uid := (t.hostsHash.lookup uid).map fun d => d.sps.map fun gid => (gid, (t.spsHash.lookup gid).map (·.lid))
  spRanks gid := (t.spsHash.lookup gid).map (·.ranks)

/-- The bits found depend on the bits that are set only. -/
theorem firstBits_congr {o o' : Option Bitset} {s : Finset ℕ} {size k : ℕ} (h : Marks size o s)
    (h' : Marks size o' s) : (o.getD []).firstBits k = (o'.getD []).firstBits k := by
  rw [Bitset.firstBits_eq, Bitset.firstBits_eq, h.bits, h'.bits]

/-- A value of each of two hashes with the same keys, or of neither. -/
theorem lookup_cases {β : Type*} {h h' : AList (fun _ : ℕ => β)} (hk : ∀ k, k ∈ h ↔ k ∈ h') (k : ℕ) :
    (h.lookup k = none ∧ h'.lookup k = none) ∨ ∃ v v', h.lookup k = some v ∧ h'.lookup k = some v' := by
  have hk := hk k
  rw [← AList.lookup_isSome, ← AList.lookup_isSome] at hk
  cases hv : h.lookup k with
  | none =>
    rw [hv] at hk
    exact .inl ⟨rfl, Option.not_isSome_iff_eq_none.1 fun hs => Bool.false_ne_true (hk.2 hs)⟩
  | some v =>
    rw [hv] at hk
    obtain ⟨v', hv'⟩ := Option.isSome_iff_exists.1 (hk.1 rfl)
    exact .inr ⟨v, v', rfl, hv'⟩

/-- An SP in the table of a host is one of the SPs of that host. -/
theorem Topology.Records.mem_ofHost (h : t.Records cfg n us) (ht : t.Tables) {uid gid : ℕ} {d : HostCacheData}
    (hd : t.hostsHash.lookup uid = some d) (hg : gid ∈ d.sps) : ∃ u ∈ us, u.sp = gid ∧ u.host = uid := by
  rw [ht.hostSps uid d hd, Bitset.firstBits_eq] at hg
  have hbit := (Finset.mem_sort _).1 (List.mem_of_mem_take hg)
  rw [(h.hosts.data uid d hd).sps.bits, inRange] at hbit
  obtain ⟨u, hu, hsp⟩ := mem_spsOf.1 (Finset.mem_filter.1 hbit).1
  obtain ⟨hu, hhost⟩ := List.mem_filter.1 hu
  exact ⟨u, hu, hsp, of_decide_eq_true hhost⟩

/-- In such tables an SP is numbered by its place in the table of its host. -/
theorem Topology.Records.lid_eq (h : t.Records cfg n us) (ht : t.Tables)
    (hone : ∀ u ∈ us, ∀ u' ∈ us, u.sp = u'.sp → u.host = u'.host) {uid gid : ℕ} {d : HostCacheData}
    (hd : t.hostsHash.lookup uid = some d) (hg : gid ∈ d.sps) :
    (t.spsHash.lookup gid).map (·.lid) = some (d.sps.idxOf gid) := by
  obtain ⟨u, hu, hsp, hhost⟩ := h.mem_ofHost ht hd hg
  have hkey : (t.spsHash.lookup gid).isSome := by
    rw [AList.lookup_isSome, h.sps.keys]
    exact mem_spsOf.2 ⟨u, hu, hsp⟩
  obtain ⟨sp, hl⟩ := Option.isSome_iff_exists.1 hkey
  rw [hl]
  refine congrArg some (ht.lid uid d gid sp hd hg hl ?_)
  intro uid' d' hd' hg'
  obtain ⟨u', hu', hsp', hhost'⟩ := h.mem_ofHost ht hd' hg'
  rw [← hhost, ← hhost']
  exact hone u' hu' u hu (hsp'.trans hsp.symm)

/-- **Tables filled after the same runs are the same**, when each SP is on one host. -/
theorem tables_eq_of_records (h : t.Records cfg n us) (h' : t'.Records cfg n us) (ht : t.Tables) (ht' : t'.Tables)
    (hone : ∀ u ∈ us, ∀ u' ∈ us, u.sp = u'.sp → u.host = u'.host) : t.lookupTables = t'.lookupTables := by
  have hns : t.nSps = t'.nSps := h.sps.nSps.trans h'.sps.nSps.symm
  have hnh : t.nHosts = t'.nHosts := h.hosts.nHosts.trans h'.hosts.nHosts.symm
  have hbs : (t.spsBitset.getD []).bits = (t'.spsBitset.getD []).bits := by
    rw [← bits_bitsetCreate _ n, ← bits_bitsetCreate _ n]
    exact h.sps.marks.bits.trans h'.sps.marks.bits.symm
  have hbh : (t.hostsBitset.getD []).bits = (t'.hostsBitset.getD []).bits := by
    rw [← bits_bitsetCreate _ cfg.numHosts, ← bits_bitsetCreate _ cfg.numHosts]
    exact h.hosts.marks.bits.trans h'.hosts.marks.bits.symm
  have hhost : t.lookupTables.hostSps = t'.lookupTables.hostSps := by
    funext uid
    simp only [Topology.lookupTables]
    rcases lookup_cases (fun k => (h.hosts.keys k).trans (h'.hosts.keys k).symm) uid with
      ⟨hd, hd'⟩ | ⟨d, d', hd, hd'⟩
    · rw [hd, hd']
      rfl
    · have hrec := h.hosts.data uid d hd
      have hrec' := h'.hosts.data uid d' hd'
      have hsps : d.sps = d'.sps := by
        rw [ht.hostSps uid d hd, ht'.hostSps uid d' hd', hrec.numSps, hrec'.numSps]
        exact firstBits_congr hrec.sps hrec'.sps
      rw [hd, hd', Option.map_some, Option.map_some]
      apply congrArg some
      rw [hsps]
      refine List.map_congr_left fun gid hg => ?_
      rw [h'.lid_eq ht' hone hd' hg, h.lid_eq ht hone hd (hsps ▸ hg), hsps]
  have hranks : t.lookupTables.spRanks = t'.lookupTables.spRanks := by
    funext gid
    simp only [Topology.lookupTables]
    rcases lookup_cases (fun k => (h.sps.keys k).trans (h'.sps.keys k).symm) gid with
      ⟨hd, hd'⟩ | ⟨d, d', hd, hd'⟩
    · rw [hd, hd']
    · have hrec := h.sps.data gid d hd
      have hrec' := h'.sps.data gid d' hd'
      rw [hd, hd', Option.map_some, Option.map_some, ht.spRanks gid d hd, ht'.spRanks gid d' hd', hrec.nRanks,
        hrec'.nRanks]
      exact congrArg some (firstBits_congr hrec.ranks hrec'.ranks)
  have hsps : t.sps = t'.sps := by rw [ht.sps, ht'.sps, hns, hbs]
  have hhosts : t.hosts = t'.hosts := by
    rw [ht.hosts, ht'.hosts, hnh, Bitset.firstBits_eq, Bitset.firstBits_eq, hbh]
  calc t.lookupTables
    _ = ⟨t.nSps, t.nHosts, t.sps, t.hosts, t.lookupTables.hostSps, t.lookupTables.spRanks⟩ := rfl
    _ = ⟨t'.nSps, t'.nHosts, t'.sps, t'.hosts, t'.lookupTables.hostSps, t'.lookupTables.spRanks⟩ := by
      rw [hns, hnh, hsps, hhosts, hhost, hranks]

end DpuOffload
