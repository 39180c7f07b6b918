import DpuOffload.Cache.ArrivalOrder
import DpuOffload.Config.HostLines
import Mathlib.Algebra.GroupWithZero.Nat
import Mathlib.Algebra.Order.BigOperators.Group.List
import Mathlib.Algebra.Order.Group.Nat

/-!
# The hosts of a group, on hosts and SPs

A process of a host knows all the hosts of the configuration file, an SP those of the DPUs of
the list, so that a host has different indices in their configurations. The tables of the
hosts of a group follow the indices. A host that is not in the configuration has the index `-1`, and
its bit leaves the bitset.

* `host_order_iff` — **hosts and SPs have the hosts of a group in the same order** exactly when
  the line of each of them has a DPU of the list whose name is not taken for `UNKNOWN_HOST`, each SP of the
  group has a bit, and an entry lists each of its SPs once.
* `host_order_unknown` — a host whose only DPU has such a name makes an SP leave the bitset.
-/

namespace DpuOffload

open OffloadingConfig TopoUpdate

/-- A configuration file with one line for each host. -/
structure HostsFile (names : List CStr) where
  /-- The text. -/
  content : CStr
  /-- The first line. -/
  version : CStr
  /-- The other lines. -/
  pieces : List CStr
  content_eq : content.splitOn '\n' = version :: pieces
  /-- The length of a file is of type `long`. -/
  fits : content.length < 2 ^ 63
  version_eq : checkConfigFileVersion version = some 1
  /-- A line has a host and a DPU. -/
  lines_ok : ∀ l ∈ hostLines pieces, 2 ≤ (strtok ',' l).length
  /-- What it says of a DPU of the list has all its parts. -/
  descs : ∀ l ∈ hostLines pieces, ∀ t ∈ (strtok ',' l).tail, ∀ name, dpuName names t = some name →
    ∃ d, dpuDesc t = some d
  /-- The names of the hosts have different hashes; -/
  hosts : ((hostLines pieces).map lineUid).Nodup
  /-- an empty line is a host for one of the parsers. -/
  blank : [] ∈ pieces.dropLast → hashHostname ['\n'] ∉ (hostLines pieces).map lineUid

namespace HostsFile

variable {names : List CStr} (f : HostsFile names)

/-- The lines of the hosts. -/
def lines : List CStr := hostLines f.pieces

theorem version_ne : f.version ≠ [] := by
  intro h
  have hv := f.version_eq
  rw [h] at hv
  exact absurd hv (by decide)

theorem strtok_eq : strtok '\n' f.content = f.version :: f.pieces.filter (· ≠ []) := by
  rw [strtok, f.content_eq]
  exact List.filter_cons_of_pos (by simpa using f.version_ne)

theorem lines_eq : hostLines (f.pieces.filter (· ≠ [])) = f.lines := by
  rw [lines, hostLines, hostLines, List.filter_filter]
  refine List.filter_congr fun p _ => ?_
  by_cases hp : p = [] <;> simp [hp]

/-! ### The number of tokens -/

theorem sum_length_splitOn (sep : Char) (s : CStr) : ((s.splitOn sep).map List.length).sum ≤ s.length := by
  induction s with
  | nil => simp
  | cons c s ih =>
    rw [List.splitOn] at ih ⊢
    rw [List.splitOnP_cons_eq_if_modifyHead, List.length_cons]
    split
    · rw [List.map_cons, List.sum_cons, List.length_nil]
      omega
    · cases hs : s.splitOnP (· == sep) with
      | nil => exact absurd hs (List.splitOnP_ne_nil _ _)
      | cons q qs =>
        rw [hs, List.map_cons, List.sum_cons] at ih
        rw [List.modifyHead_cons, List.map_cons, List.sum_cons, List.length_cons]
        omega

theorem length_strtok_le (sep : Char) (s : CStr) : (strtok sep s).length ≤ s.length := by
  have hcount (qs : List CStr) : (qs.filter (· ≠ [])).length ≤ (qs.map List.length).sum := by
    induction qs with
    | nil => exact le_rfl
    | cons q qs ih =>
      rw [List.map_cons, List.sum_cons]
      by_cases hq : q = []
      · rw [List.filter_cons_of_neg (by simp [hq])]
        omega
      · have hpos := List.length_pos_iff.2 hq
        rw [List.filter_cons_of_pos (by simp [hq]), List.length_cons]
        omega
  exact (hcount _).trans (sum_length_splitOn sep s)

theorem numTokens_lt : numTokens (f.pieces.filter (· ≠ [])) < 2 ^ 63 := by
  have hsum := sum_length_splitOn '\n' f.content
  rw [f.content_eq, List.map_cons, List.sum_cons] at hsum
  have hle : numTokens (f.pieces.filter (· ≠ [])) ≤ ((f.pieces.filter (· ≠ [])).map List.length).sum :=
    List.sum_le_sum fun l _ => length_strtok_le ',' l
  have hsub : ((f.pieces.filter (· ≠ [])).map List.length).sum ≤ (f.pieces.map List.length).sum :=
    (List.filter_sublist.map _).sum_le_sum fun _ _ => Nat.zero_le _
  have := f.fits
  omega

/-! ### What the parsers find -/

/-- **A process of a host knows the hosts of all lines**, in their order. -/
theorem lists_host {target : CStr} {h : HostSideConfig}
    (hh : HostSideConfig.init.findConfigFromPlatformConfigfile f.content target = some h) :
    h.hostTable.Lists (f.lines.map lineUid) := by
  obtain ⟨l, ps, ls, hget, hl, hls, hlines, hblank⟩ := exists_getlines f.content_eq f.version_ne
  have hv : checkConfigFileVersion l = some 1 := by
    rcases hl with rfl | ⟨rfl, -⟩
    · exact checkConfigFileVersion_newline f.version_eq
    · exact f.version_eq
  rw [HostSideConfig.findConfigFromPlatformConfigfile, hget] at hh
  dsimp only at hh
  rw [hv, Option.bind_some, if_neg (by decide)] at hh
  rw [HostSideConfig.hostTable_parseLines hh, lines, ← hlines, ← List.nil_append (List.map _ _)]
  refine HostSideConfig.lists_lines hls (HostTable.lists_nil _) ?_ ?_ ?_
  · rw [hlines]
    exact f.lines_ok
  · rw [hlines]
    exact f.hosts
  · intro hm
    rw [hlines]
    exact f.blank (hblank hm)

/-- **An SP knows the hosts of the lines with a name that adds them**, in their order, and no other. -/
theorem lists_sp {sp : ListedSp} (f : HostsFile (strtok ',' sp.env.listDpus)) {cfg₀ cfg : OffloadingConfig}
    (hlist : sp.parse = some cfg₀) (hfile : cfg₀.findDpuConfigFromPlatformConfigfile f.content = some cfg) :
    cfg.hostTable.Lists ((f.lines.filter (addsHost (strtok ',' sp.env.listDpus))).map lineUid) ∧
      cfg.hostTable.Only ((f.lines.filter (addsHost (strtok ',' sp.env.listDpus))).map lineUid) ∧
      cfg.hosts.numHosts < 2 ^ 63 := by
  obtain ⟨cfg₀', hlist', hp⟩ := sp.parse_eq
  cases hlist.symm.trans hlist'
  have hl := sp.listed hlist
  have hk : cfg₀.Knows (strtok ',' sp.env.listDpus) := ⟨hl.numDpus, hl.listed, hl.dpus⟩
  rw [findDpuConfigFromPlatformConfigfile, f.strtok_eq] at hfile
  dsimp only at hfile
  rw [f.version_eq, Option.bind_some, if_neg (by decide)] at hfile
  have hempty : cfg₀.hostTable.Only [] := fun u _ => by
    rw [OffloadingConfig.hostTable, hp.hosts]
    rfl
  have hrun := hk.hostTable_parseDpuLines (by simp) (by rw [f.lines_eq]; exact f.descs) hfile
  have hlen := length_addedHosts_le (strtok ',' sp.env.listDpus) (f.pieces.filter (· ≠ []))
  rw [f.lines_eq] at hrun hlen
  obtain ⟨h₁, h₂⟩ := (HostTable.lists_nil cfg₀.hostTable).addedHosts hempty f.hosts
  rw [List.nil_append] at h₁ h₂
  refine ⟨hrun ▸ h₁, hrun ▸ h₂, ?_⟩
  have hnum : cfg.hosts.numHosts = _ := congrArg (fun t => t.hosts.numHosts) hrun
  have hzero : cfg₀.hostTable.hosts.numHosts = 0 := by
    rw [OffloadingConfig.hostTable, hp.hosts]
  rw [HostTable.numHosts_foldl, hzero] at hnum
  have := f.numTokens_lt
  omega

end HostsFile

/-! ### The hosts of a group -/

/-- The hosts of a group: those of the entries with an SP. -/
theorem mem_hostsOf_firstEntries {es : List PeerCacheEntry}
    (hrank : ∀ e ∈ es, ∀ e' ∈ es, e.rank = e'.rank → e = e') {u : ℕ} :
    u ∈ hostsOf (updatesOf (firstEntries es)) ↔ ∃ e ∈ es, e.shadowServiceProcs ≠ [] ∧ e.peer.hostInfo = u := by
  rw [mem_hostsOf]
  constructor
  · rintro ⟨up, hup, rfl⟩
    obtain ⟨e, he, sp, hsp, rfl⟩ := mem_updatesOf.1 hup
    exact ⟨e, mem_of_mem_firstEntries he, List.ne_nil_of_mem hsp, rfl⟩
  · rintro ⟨e, he, hsp, rfl⟩
    obtain ⟨sp, hsp⟩ := List.exists_mem_of_ne_nil _ hsp
    exact ⟨_, mem_updatesOf.2 ⟨e, (mem_firstEntries hrank).2 he, sp, hsp, rfl⟩, rfl⟩

/-- Leaving out lines leaves the hosts of a group as they are exactly when these are on the other lines. -/
theorem filter_lines_eq_iff {ls : List CStr} (hnodup : (ls.map lineUid).Nodup) (p : CStr → Bool) {H : Finset ℕ}
    (hH : ∀ u ∈ H, ∃ l ∈ ls, lineUid l = u) :
    (ls.map lineUid).filter (· ∈ H) = ((ls.filter p).map lineUid).filter (· ∈ H) ↔
      ∀ u ∈ H, ∃ l ∈ ls, lineUid l = u ∧ p l = true := by
  constructor
  · intro he u hu
    obtain ⟨l, hl, rfl⟩ := hH u hu
    have hmem : lineUid l ∈ (ls.map lineUid).filter (· ∈ H) :=
      List.mem_filter.2 ⟨List.mem_map_of_mem hl, decide_eq_true hu⟩
    rw [he] at hmem
    obtain ⟨l', hl', heq⟩ := List.mem_map.1 (List.mem_filter.1 hmem).1
    exact ⟨l', (List.mem_filter.1 hl').1, heq, (List.mem_filter.1 hl').2⟩
  · intro hall
    have hfilter : (ls.filter p).filter (fun l => lineUid l ∈ H) = ls.filter (fun l => lineUid l ∈ H) := by
      rw [List.filter_filter]
      refine List.filter_congr fun l hl => ?_
      by_cases hu : lineUid l ∈ H
      · obtain ⟨l', hl', heq, hp⟩ := hall _ hu
        rw [← List.inj_on_of_nodup_map hnodup hl' hl heq, hp, Bool.and_true]
      · simp [hu]
    rw [List.filter_map, List.filter_map]
    exact congrArg (List.map lineUid) hfilter.symm

/-- The hosts of the runs of a group have bits of their own in a configuration that knows them. -/
theorem HostTable.Lists.separates {t : HostTable} {us : List ℕ} (h : t.Lists us) {ups : List TopoUpdate}
    (hin : ∀ u ∈ hostsOf ups, u ∈ us) : t.hosts.Separates ups where
  lt u hu := (h.idx_lt (hin _ (mem_hostsOf.2 ⟨u, hu, rfl⟩))).trans_le (Bitset.le_capacity_create _)
  inj := by
    intro uid hm uid' hm' he
    rw [← h.uid_eq (hin uid hm), he, h.uid_eq (hin uid' hm')]

/-- Two processes have the hosts of a group in the same order, and none of their accesses leaves a bitset. -/
structure SameHosts (topo topo' : Topology) (t t' : HostTable) : Prop where
  /-- One process. -/
  safe : topo.doPopulateGroupCacheLookupTable.fault = false
  /-- The other. -/
  safe' : topo'.doPopulateGroupCacheLookupTable.fault = false
  /-- The hosts. -/
  same : topo.hostUids t = topo'.hostUids t'

/-- **Hosts and SPs have the hosts of a group in the same order** exactly when the line of each of them
has a DPU of the list whose name is not taken for `UNKNOWN_HOST`, each SP of the group has a bit, and an entry lists each
of its SPs once. -/
theorem host_order_iff (sp : ListedSp) (f : HostsFile (strtok ',' sp.env.listDpus)) {target : CStr}
    {h : HostSideConfig} (hh : HostSideConfig.init.findConfigFromPlatformConfigfile f.content target = some h)
    {cfg₀ cfg : OffloadingConfig} (hlist : sp.parse = some cfg₀)
    (hfile : cfg₀.findDpuConfigFromPlatformConfigfile f.content = some cfg)
    {ctx ctx' : GpCtx} (hu : ctx.gpUid ≠ INT_MAX) (hu' : ctx'.gpUid ≠ INT_MAX)
    (hctx : ctx.hosts = h.hosts) (hctx' : ctx'.hosts = cfg.hosts) {n : ℕ} (hn : Allocatable n)
    {slot slot' : Option GroupCache} (h₀ : Unused slot) (h₀' : Unused slot')
    {batches batches' : List (List PeerCacheEntry)} (hb : ∀ b ∈ batches, BatchOf n b)
    (hb' : ∀ b ∈ batches', BatchOf n b)
    (hsame' : ∀ e, e ∈ batches.flatten ↔ e ∈ batches'.flatten)
    (hrank : ∀ e ∈ batches.flatten, ∀ e' ∈ batches.flatten, e.rank = e'.rank → e = e')
    (hline : ∀ e ∈ batches.flatten, e.shadowServiceProcs ≠ [] → ∃ l ∈ f.lines, lineUid l = e.peer.hostInfo) :
    SameHosts (recvBatches ctx slot batches).topo (recvBatches ctx' slot' batches').topo h.hostTable cfg.hostTable ↔
      (∀ e ∈ batches.flatten, e.shadowServiceProcs ≠ [] → ∃ l ∈ f.lines, lineUid l = e.peer.hostInfo ∧
        ∃ name ∈ dpuNames (strtok ',' sp.env.listDpus) l, hashHostname name ≠ LineState.unknownHost) ∧
      ∀ e ∈ batches.flatten, e.shadowServiceProcs.Nodup ∧ ∀ sp ∈ e.shadowServiceProcs, sp < (Bitset.create n).capacity := by
  have hrank' : ∀ e ∈ batches'.flatten, ∀ e' ∈ batches'.flatten, e.rank = e'.rank → e = e' :=
    fun e he e' he' => hrank e ((hsame' e).2 he) e' ((hsame' e').2 he')
  have hhosts : hostsOf (updatesOf (firstEntries batches'.flatten)) =
      hostsOf (updatesOf (firstEntries batches.flatten)) := by
    ext u
    simp only [mem_hostsOf_firstEntries hrank, mem_hostsOf_firstEntries hrank', hsame']
  have hr := Received.batches hu hn h₀ hb
  have hr' := Received.batches hu' hn h₀' hb'
  have hlists := f.lists_host hh
  obtain ⟨hlists', honly, hfit⟩ := f.lists_sp hlist hfile
  have hH : ∀ u ∈ hostsOf (updatesOf (firstEntries batches.flatten)), ∃ l ∈ f.lines, lineUid l = u := by
    intro u hm
    obtain ⟨e, he, hsp, rfl⟩ := (mem_hostsOf_firstEntries hrank).1 hm
    exact hline e he hsp
  have hhost : (recvBatches ctx slot batches).topo.hostUids h.hostTable = _ :=
    hlists.hostUids_eq (hctx ▸ hr.records) hr.tables fun u hm hout => by
      obtain ⟨l, hl, rfl⟩ := hH u hm
      exact absurd (List.mem_map_of_mem hl) hout
  have hsp : (recvBatches ctx' slot' batches').topo.hostUids cfg.hostTable = _ :=
    hlists'.hostUids_eq (hctx' ▸ hr'.records) hr'.tables fun u _ hout => honly.idx_ge hfit hout
  have hadds (l : CStr) : addsHost (strtok ',' sp.env.listDpus) l = true ↔
      ∃ name ∈ dpuNames (strtok ',' sp.env.listDpus) l, hashHostname name ≠ LineState.unknownHost := by
    rw [addsHost, List.any_eq_true]
    simp only [decide_eq_true_eq]
  have hsame : (recvBatches ctx slot batches).topo.hostUids h.hostTable =
        (recvBatches ctx' slot' batches').topo.hostUids cfg.hostTable ↔
      ∀ u ∈ hostsOf (updatesOf (firstEntries batches.flatten)), ∃ l ∈ f.lines, lineUid l = u ∧
        addsHost (strtok ',' sp.env.listDpus) l = true := by
    rw [hhost, hsp, hhosts]
    exact filter_lines_eq_iff f.hosts _ hH
  have hcond : (∀ u ∈ hostsOf (updatesOf (firstEntries batches.flatten)), ∃ l ∈ f.lines, lineUid l = u ∧
        addsHost (strtok ',' sp.env.listDpus) l = true) ↔
      ∀ e ∈ batches.flatten, e.shadowServiceProcs ≠ [] → ∃ l ∈ f.lines, lineUid l = e.peer.hostInfo ∧
        ∃ name ∈ dpuNames (strtok ',' sp.env.listDpus) l, hashHostname name ≠ LineState.unknownHost := by
    simp only [hadds]
    constructor
    · exact fun hall e he hsp => hall _ ((mem_hostsOf_firstEntries hrank).2 ⟨e, he, hsp, rfl⟩)
    · intro hall u hm
      obtain ⟨e, he, hsp, rfl⟩ := (mem_hostsOf_firstEntries hrank).1 hm
      exact hall e he hsp
  -- the process of a host has a bit for each host of the group
  have hr₁ : Received h.hosts n _ _ := hctx ▸ hr
  have hsafe := hr₁.fault_iff (hlists.separates fun u hm => by
    obtain ⟨l, hl, rfl⟩ := hH u hm
    exact List.mem_map_of_mem hl)
  rw [← hcond]
  constructor
  · intro hs
    exact ⟨hsame.1 hs.same, fun e he => hsafe.1 hs.safe e ((mem_firstEntries hrank).2 he)⟩
  · rintro ⟨hall, hbits⟩
    -- and so has the SP
    have hr₂ : Received cfg.hosts n _ _ := hctx' ▸ hr'
    have hsafe' := hr₂.fault_iff (hlists'.separates fun u hm => by
      obtain ⟨l, hl, rfl, hadd⟩ := hall u (hhosts ▸ hm)
      exact List.mem_map_of_mem (List.mem_filter.2 ⟨hl, hadd⟩))
    exact ⟨hsafe.2 fun e he => hbits e ((mem_firstEntries hrank).1 he),
      hsafe'.2 fun e he => hbits e ((hsame' e).2 ((mem_firstEntries hrank').1 he)), hsame.2 hall⟩

/-! ### A name that is taken for `UNKNOWN_HOST` -/

/-- A name, with the greatest hash or not. -/
def dpuB (unknown : Bool) : CStr := if unknown then "7gf9lkdhyzllyv".toList else ['b']

/-- The SP of the DPU `a`, in a job with another DPU. -/
def ListedSp.ofA (unknown : Bool) : ListedSp where
  env := ⟨'a' :: ',' :: dpuB unknown, none, none, none⟩
  hostname := ['a']
  perDpu := 1
  dpu := 0
  localId := 0
  localId_lt := Nat.one_pos
  dpu_lt := by cases unknown <;> decide
  isLocal_iff k t h := by
    have hts : strtok ',' ('a' :: ',' :: dpuB unknown) = [['a'], dpuB unknown] := by cases unknown <;> decide
    rw [hts] at h
    match k with
    | 0 => cases h; decide
    | 1 => cases h; cases unknown <;> decide
    | k + 2 => cases h
  ids := ⟨_, rfl, by simp, rfl, rfl⟩
  fits := by cases unknown <;> decide

/-- A file in which the host `h` has the other DPU, and the host `k` has `a`. -/
def HostsFile.ofHosts (unknown : Bool) : HostsFile (strtok ',' (ListedSp.ofA unknown).env.listDpus) where
  content := "#Format version:1\nh,".toList ++ dpuB unknown ++ ":B:3:4\nk,a:A:1:2".toList
  version := "#Format version:1".toList
  pieces := ["h,".toList ++ dpuB unknown ++ ":B:3:4".toList, "k,a:A:1:2".toList]
  content_eq := by cases unknown <;> decide
  fits := by cases unknown <;> decide
  version_eq := checkConfigFileVersion_one
  lines_ok := by cases unknown <;> decide +kernel
  descs := by
    have hall : ∀ l ∈ hostLines ["h,".toList ++ dpuB unknown ++ ":B:3:4".toList, "k,a:A:1:2".toList],
        ∀ t ∈ (strtok ',' l).tail, (dpuDesc t).isSome = true := by cases unknown <;> decide +kernel
    exact fun l hl t ht _ _ => Option.isSome_iff_exists.1 (hall l hl t ht)
  hosts := by cases unknown <;> decide +kernel
  blank := by cases unknown <;> decide +kernel

/-- The entries of a group of two ranks, on the two hosts. -/
def entriesOfHosts : List PeerCacheEntry :=
  [peerEntry 2 0 (hashHostname ['h']) [1], peerEntry 2 1 (hashHostname ['k']) [0]]

/-- The parsers succeed. -/
theorem exists_parsed (unknown : Bool) : ∃ h cfg₀ cfg,
    HostSideConfig.init.findConfigFromPlatformConfigfile (HostsFile.ofHosts unknown).content ['h'] = some h ∧
      (ListedSp.ofA unknown).parse = some cfg₀ ∧
      cfg₀.findDpuConfigFromPlatformConfigfile (HostsFile.ofHosts unknown).content = some cfg := by
  have hh : (HostSideConfig.init.findConfigFromPlatformConfigfile (HostsFile.ofHosts unknown).content ['h']).isSome =
      true := by cases unknown <;> decide +kernel
  have hsp : ((ListedSp.ofA unknown).parse.bind fun cfg₀ =>
      cfg₀.findDpuConfigFromPlatformConfigfile (HostsFile.ofHosts unknown).content).isSome = true := by
    cases unknown <;> decide +kernel
  obtain ⟨h, hh⟩ := Option.isSome_iff_exists.1 hh
  obtain ⟨cfg, hsp⟩ := Option.isSome_iff_exists.1 hsp
  obtain ⟨cfg₀, hlist, hfile⟩ := Option.bind_eq_some_iff.1 hsp
  exact ⟨h, cfg₀, cfg, hh, hlist, hfile⟩

/-- Does an access of the two processes leave a bitset, for the group? -/
def faultsOfHosts (unknown : Bool) : Option (Bool × Bool) :=
  (HostSideConfig.init.findConfigFromPlatformConfigfile (HostsFile.ofHosts unknown).content ['h']).bind fun h =>
    ((ListedSp.ofA unknown).parse.bind fun cfg₀ =>
      cfg₀.findDpuConfigFromPlatformConfigfile (HostsFile.ofHosts unknown).content).map fun cfg =>
        ((recvBatches { hostCtx with hosts := h.hosts } none [entriesOfHosts]).topo.doPopulateGroupCacheLookupTable.fault,
          (recvBatches { hostCtx with hosts := cfg.hosts } none [entriesOfHosts]).topo.doPopulateGroupCacheLookupTable.fault)

/-- Hosts and SPs agree. -/
theorem host_order_pair : ∃ h cfg₀ cfg,
    HostSideConfig.init.findConfigFromPlatformConfigfile (HostsFile.ofHosts false).content ['h'] = some h ∧
      (ListedSp.ofA false).parse = some cfg₀ ∧
      cfg₀.findDpuConfigFromPlatformConfigfile (HostsFile.ofHosts false).content = some cfg ∧
      SameHosts (recvBatches { hostCtx with hosts := h.hosts } none [entriesOfHosts]).topo
        (recvBatches { hostCtx with hosts := cfg.hosts } none [entriesOfHosts]).topo h.hostTable cfg.hostTable := by
  obtain ⟨h, cfg₀, cfg, hh, hlist, hfile⟩ := exists_parsed false
  have hno : Unused none := ⟨newGroupCache.persistent, rfl, rfl⟩
  have hgp : hostCtx.gpUid ≠ INT_MAX := by decide
  refine ⟨h, cfg₀, cfg, hh, hlist, hfile, ?_⟩
  refine (@host_order_iff _ (HostsFile.ofHosts false) ['h'] h hh cfg₀ cfg hlist hfile { hostCtx with hosts := h.hosts }
    { hostCtx with hosts := cfg.hosts } hgp hgp rfl rfl 2 allocatable_two none none hno hno
    [entriesOfHosts] [entriesOfHosts] (by decide +kernel) (by decide +kernel) (fun _ => Iff.rfl) (by decide +kernel)
    (by decide +kernel)).2 ⟨by decide +kernel, by decide +kernel⟩

/-- **A host whose only DPU has a name that is taken for `UNKNOWN_HOST` makes the SPs leave the bitset of the hosts**,
though the list covers it. -/
theorem host_order_unknown :
    (∀ e ∈ entriesOfHosts, ∃ l ∈ (HostsFile.ofHosts true).lines, lineUid l = e.peer.hostInfo ∧
      dpuNames (strtok ',' (ListedSp.ofA true).env.listDpus) l ≠ []) ∧
    (recvBatches hostCtx none [entriesOfHosts]).full = true ∧
    faultsOfHosts true = some (false, true) := by
  decide +kernel

end DpuOffload
