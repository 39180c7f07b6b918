import DpuOffload.Config.FileFrame

/-!
# The number of SPs of a DPU

An SP reads its configuration (`get_dpu_config`): the list of DPUs, then the configuration file. The
tables of the SPs are filled from the list, with the number of SPs of a DPU that the environment
says, or one. The file says the number too, and the number is changed where it was not
given; the tables are as they were.

* `spsAgree` — the tables are as the list made them, and agree with the number when it was known.
* `per_dpu_iff` — **the number and the tables agree** exactly when the environment says the
  number, or it is one.
* `not_per_dpu` — two DPUs with two SPs each, and nothing in the environment.
-/

namespace DpuOffload

open OffloadingConfig

/-! ### `get_dpu_config` -/

/-- `DEFAULT_INTER_DPU_CONNECT_PORT`. -/
def DEFAULT_INTER_DPU_CONNECT_PORT : ℤ := 11111

/-- What `get_dpu_config` reads: the list of DPUs and the ids, the name of the machine, the configuration file if there
is one, and what is read when there is none. -/
structure DpuEnv where
  /-- The list and the ids. -/
  sp : SpEnv
  /-- `gethostname`. -/
  hostname : CStr
  /-- What is in the file. -/
  configFile : Option CStr
  /-- `INTER_DPU_ADDR_ENVVAR`. -/
  interDpuAddr : Option CStr
  /-- `INTER_DPU_PORT_ENVVAR`. -/
  interDpuPort : Option CStr

namespace OffloadingConfig

/-- The number of SPs, computed again. -/
def countSps (cfg : OffloadingConfig) : Option OffloadingConfig :=
  if cfg.numServiceProcsPerDpu = 1 then some { cfg with numServiceProcs := cfg.numDpus }
  else if 0 < cfg.numServiceProcsPerDpu ∧ cfg.numServiceProcs ≠ UINT64_MAX then
    some { cfg with numServiceProcs := sizeT (cfg.numDpus * cfg.numServiceProcsPerDpu : ℕ) }
  else none

/-- The connection of the SP, when there is no configuration file. -/
def connParamsFromEnv (env : DpuEnv) (cfg : OffloadingConfig) : Option OffloadingConfig :=
  env.interDpuAddr.map fun addr => { cfg with
    interServiceProcsConnParams := ⟨some addr, (env.interDpuPort.map atoi).getD DEFAULT_INTER_DPU_CONNECT_PORT⟩ }

end OffloadingConfig

/-- `get_dpu_config`: the configuration, and `num_service_procs` of the engine. -/
def getDpuConfig (env : DpuEnv) : Option (OffloadingConfig × ℕ) :=
  (parseListDpus env.sp (.init env.hostname)).bind fun cfg =>
    let engineNumServiceProcs := cfg.numServiceProcs
    cfg.countSps.bind fun cfg =>
    (match env.configFile with
      | some content => cfg.findDpuConfigFromPlatformConfigfile content
      | none => cfg.connParamsFromEnv env).bind fun cfg =>
    if 0 < cfg.interServiceProcsConnParams.port ∧ 0 < cfg.hostConnParams.port then some (cfg, engineNumServiceProcs)
    else none

/-- The names of the list. -/
def DpuEnv.names (env : DpuEnv) : List CStr := strtok ',' env.sp.listDpus

/-- **The tables agree**: `P` SPs on each of `D` DPUs, the numbers of the configuration and of the engine, and the
global ids of each DPU, with the SPs under them. -/
structure OffloadingConfig.SpsAgree (D P : ℕ) (cfg : OffloadingConfig) (engineNumServiceProcs : ℕ) : Prop where
  /-- `num_service_procs_per_dpu`. -/
  perDpu : cfg.numServiceProcsPerDpu = P
  /-- `num_service_procs`. -/
  numSps : cfg.numServiceProcs = D * P
  /-- That of the engine. -/
  engineNumSps : engineNumServiceProcs = D * P
  /-- The SPs of a DPU. -/
  gids : ∀ d < D, ∀ l < P, (cfg.dpus d).localServiceProcs l = d * P + l
  /-- Their local ids. -/
  localIds : ∀ d < D, ∀ l < P, (cfg.serviceProcs (d * P + l)).localId = l

/-- The descriptions, in a file, of the DPUs of a list have `P` ports for SPs. -/
def PortsEach (names : List CStr) (P : ℕ) (content : CStr) : Prop :=
  PortCounts (· = P) names (dpuTokens (strtok '\n' content).tail)

/-! ### What an SP is left with -/

/-- The number of SPs of a DPU is the one of the environment, or one. -/
theorem perDpu_parseIds {env : SpEnv} {cfg c : OffloadingConfig} (h : cfg.parseIds env = some c) :
    c.numServiceProcsPerDpu = env.numServiceProcsPerDpu.getD 1 := by
  rw [parseIds] at h
  split at h
  · cases h
  next hids =>
    cases h
    cases hg : env.globalId with
    | none => rfl
    | some g =>
      cases hn : env.numServiceProcsPerDpu with
      | some n => rfl
      | none =>
        rw [hg, hn] at hids
        cases hl : env.localId <;> simp [hl] at hids

/-- The number of SPs stays. -/
theorem countSps_eq {cfg c : OffloadingConfig} {D S : ℕ} (hD : cfg.numDpus = D) (hS : cfg.numServiceProcsPerDpu = S)
    (hfit : D * S < 2 ^ 64) (h : cfg.countSps = some c) : c = { cfg with numServiceProcs := D * S } := by
  rw [countSps] at h
  split at h
  next hone =>
    cases h
    rw [← hS, hone, Nat.mul_one, hD]
  next =>
    split at h
    · cases h
      rw [hD, hS, sizeT_natCast hfit]
    · cases h

namespace DpuEnv

variable {env : DpuEnv} {content : CStr} {P n : ℕ} {cfg : OffloadingConfig}

/-- **What the SP is left with**: the tables of the list, with the changes of the file. -/
theorem exists_listed (hfile : env.configFile = some content)
    (hfit : env.names.length * env.sp.numServiceProcsPerDpu.getD 1 < 2 ^ 64) (h : getDpuConfig env = some (cfg, n)) :
    ∃ c, Listed env.names (env.sp.numServiceProcsPerDpu.getD 1) c ∧
      c.numServiceProcs = env.names.length * env.sp.numServiceProcsPerDpu.getD 1 ∧ n = c.numServiceProcs ∧
      c.findDpuConfigFromPlatformConfigfile content = some cfg ∧ cfg.Connected ∧
      (env.names = [] → ¬ c.Connected) := by
  obtain ⟨c₀, hlist, h⟩ := Option.bind_eq_some_iff.1 h
  obtain ⟨c, hcount, h⟩ := Option.bind_eq_some_iff.1 h
  obtain ⟨cfg', hparse, h⟩ := Option.bind_eq_some_iff.1 h
  rw [hfile] at hparse
  simp only [Option.ite_none_right_eq_some, Option.some.injEq, Prod.mk.injEq] at h
  obtain ⟨hports, rfl, rfl⟩ := h
  obtain ⟨c₁, hids, hloop⟩ := Option.bind_eq_some_iff.1 hlist
  have hS := perDpu_parseIds hids
  obtain ⟨hl, hnum⟩ := parseListDpus_listed hids rfl (by rw [hS]; exact hfit) hlist
  rw [hS] at hl hnum
  obtain rfl := countSps_eq hl.numDpus hl.perDpu hfit hcount
  refine ⟨{ c₀ with numServiceProcs := env.names.length * env.sp.numServiceProcsPerDpu.getD 1 },
    hl.congr rfl rfl rfl rfl rfl, rfl, hnum, hparse, ⟨hports.1, hports.2⟩, fun hnil hc => ?_⟩
  -- without a name the SP keeps the ports it starts with
  rw [show strtok ',' env.sp.listDpus = [] from hnil] at hloop
  cases hloop
  rw [parseIds] at hids
  split at hids
  · cases hids
  · cases hids
    have hinter := hc.inter
    cases hg : env.sp.globalId <;> simp [hg, OffloadingConfig.init, ConnParams.reset] at hinter

/-- When the number is known in advance, all agrees with it. -/
theorem spsAgree {c : OffloadingConfig} {names : List CStr} (hl : Listed names P c)
    (hnum : c.numServiceProcs = names.length * P) (hf : FileFrame (· = P) c cfg) :
    cfg.SpsAgree names.length P (names.length * P) where
  perDpu := hf.perDpu hl.perDpu
  numSps := hf.numSps.trans hnum
  engineNumSps := rfl
  gids d hd l hp := by
    rw [hf.dpus]
    exact hl.gids d hd l hp
  localIds d hd l hp := by
    rw [hf.localIds, hl.sps d hd l hp]

end DpuEnv

/-- **What an SP has kept**, with its own ports once its DPU is described. -/
structure Joined (sp : ListedSp) (names : List CStr) (ms : List (ℕ × DpuDesc)) (cfg : OffloadingConfig) : Prop where
  filled : Filled sp names ms cfg
  connected : sp.dpu ∈ ms.map (·.1) → cfg.Connected

/-- **One token.** -/
theorem Joined.parseToken {sp : ListedSp} {ms : List (ℕ × DpuDesc)} {st : LineState}
    (h : Joined sp (strtok ',' sp.env.listDpus) ms st.cfg) (hfree : PrefixFree (strtok ',' sp.env.listDpus))
    (host : CStr) {t : CStr}
    (hports : ∀ i, nameIdx (strtok ',' sp.env.listDpus) t = some i → ∃ d, dpuDesc t = some d ∧ d.Ports sp.perDpu)
    (hnew : ((ms ++ described (strtok ',' sp.env.listDpus) [t]).map (·.1)).Nodup) :
    ∃ st', st.parseToken host t = some (.go st') ∧
      Joined sp (strtok ',' sp.env.listDpus) (ms ++ described (strtok ',' sp.env.listDpus) [t]) st'.cfg := by
  obtain ⟨st', hrun, hfilled⟩ := h.filled.parseToken hfree rfl host hports hnew
  obtain ⟨hframe, hown⟩ :=
    @FileFrame.parseToken (fun _ => True) _ _ _ _ h.filled.numDpus h.filled.listed (fun _ _ _ _ => trivial) _ hrun
  refine ⟨st', hrun, hfilled, fun hmem => ?_⟩
  rw [List.map_append, List.mem_append] at hmem
  rcases hmem with hmem | hmem
  · exact hframe.connected (h.connected hmem)
  · obtain ⟨⟨i, d⟩, hid, hi⟩ := List.mem_map.1 hmem
    obtain ⟨u, hu, hud⟩ := List.mem_filterMap.1 hid
    obtain ⟨j, hj, hdesc⟩ := Option.bind_eq_some_iff.1 hud
    obtain ⟨d', -, he⟩ := Option.map_eq_some_iff.1 hdesc
    cases he
    rw [List.mem_singleton] at hu
    subst hu
    have hget := List.getElem?_eq_getElem sp.dpu_lt
    have hi : i = sp.dpu := hi
    subst hi
    apply hown st' rfl _ _ hj hget
    rw [h.filled.hostname]
    exact (sp.isLocal_iff _ _ hget).2 rfl

section

variable {env : DpuEnv} {content : CStr} {P : ℕ}

/-- **The SP finds its configuration** in a file that describes the DPUs of the list. -/
theorem ListedSp.exists_getDpuConfig (sp : ListedSp) (hsp : sp.env = env.sp) (hname : sp.hostname = env.hostname)
    (hfile : env.configFile = some content) (hnum : sp.numSps ≠ UINT64_MAX)
    (hfree : PrefixFree (strtok ',' sp.env.listDpus))
    (f : PlatformFile (strtok ',' sp.env.listDpus) sp.perDpu) (hf : f.content = content) :
    ∃ cfg n, getDpuConfig env = some (cfg, n) := by
  obtain ⟨c₀, hlist, -⟩ := sp.parse_eq
  have hfilled := sp.filled hlist
  obtain ⟨k, hcount⟩ : ∃ k, c₀.countSps = some { c₀ with numServiceProcs := k } := by
    rw [countSps, hfilled.perDpu, sp.numServiceProcs_eq hlist]
    split
    · exact ⟨_, rfl⟩
    · rw [if_pos ⟨Nat.zero_lt_of_lt sp.localId_lt, hnum⟩]
      exact ⟨_, rfl⟩
  have hstart : Joined sp (strtok ',' sp.env.listDpus) [] { c₀ with numServiceProcs := k } :=
    ⟨hfilled.congr rfl rfl rfl rfl rfl rfl rfl rfl rfl rfl rfl, fun hmem => absurd hmem List.not_mem_nil⟩
  obtain ⟨cfg, hparse, hcfg⟩ := f.exists_parsed
    (fun host ms st t h hports hnew => h.parseToken hfree host hports hnew) hstart f.ports
  have hc := hcfg.connected (f.once.mem_iff.2 (List.mem_range.2 sp.dpu_lt))
  refine ⟨cfg, c₀.numServiceProcs, ?_⟩
  have hlist' : parseListDpus env.sp (.init env.hostname) = some c₀ := by
    rw [← hsp, ← hname]
    exact hlist
  rw [getDpuConfig, hlist', Option.bind_some]
  dsimp only
  rw [hcount, hfile, Option.bind_some]
  dsimp only
  rw [← hf, hparse, Option.bind_some, if_pos ⟨hc.inter, hc.host⟩]

/-- **The tables agree** exactly when the environment says the number of SPs of a DPU, or it is one. -/
theorem spsAgree_iff (hfile : env.configFile = some content) (hP : 0 < P) (hports : PortsEach env.names P content)
    (henv : ∀ n, env.sp.numServiceProcsPerDpu = some n → n = P) (hfit : env.names.length * P < 2 ^ 64)
    {cfg : OffloadingConfig} {n : ℕ} (h : getDpuConfig env = some (cfg, n)) :
    cfg.SpsAgree env.names.length P n ↔ env.sp.numServiceProcsPerDpu.isSome ∨ P = 1 := by
  have hS : env.sp.numServiceProcsPerDpu.getD 1 = P ∨ env.sp.numServiceProcsPerDpu = none := by
    cases hn : env.sp.numServiceProcsPerDpu with
    | none => exact .inr rfl
    | some n => exact .inl (henv n hn)
  have hfit' : env.names.length * env.sp.numServiceProcsPerDpu.getD 1 < 2 ^ 64 := by
    rcases hS with hS | hS
    · rwa [hS]
    · rw [hS, Option.getD_none]
      exact lt_of_le_of_lt (Nat.mul_le_mul_left _ hP) hfit
  obtain ⟨c, hl, hnum, rfl, hparse, hconn, hnil⟩ := DpuEnv.exists_listed hfile hfit' h
  have hframe : FileFrame (· = P) c cfg := .findDpuConfig hl.numDpus hl.listed hports hparse
  constructor
  · intro hagree
    rcases hS with hS | hS
    · by_contra hno
      rw [not_or, Bool.not_eq_true, Option.isSome_eq_false_iff, Option.isNone_iff_eq_none] at hno
      rw [hno.1] at hS
      exact hno.2 hS.symm
    · -- the number of SPs was computed for one SP on each DPU
      have hmul := hagree.engineNumSps
      rw [hnum, hS, Option.getD_none] at hmul
      rcases Nat.eq_zero_or_pos env.names.length with h0 | h0
      · have hc := hframe.empty (hl.numDpus.trans h0)
        exact absurd (hc ▸ hconn) (hnil (List.length_eq_zero_iff.1 h0))
      · exact .inr (Nat.eq_of_mul_eq_mul_left h0 hmul).symm
  · intro hcond
    have hS' : env.sp.numServiceProcsPerDpu.getD 1 = P := by
      rcases hS with hS | hS
      · exact hS
      · rw [hS] at hcond ⊢
        exact (hcond.resolve_left (by simp)).symm
    rw [hS'] at hl hnum
    rw [hnum]
    exact DpuEnv.spsAgree hl hnum hframe

/-- **The number of SPs of a DPU and the tables agree** exactly when the environment says the number, or it is one;
with a file that describes the DPUs of the list the SP finds its configuration. -/
theorem per_dpu_iff (hfile : env.configFile = some content) (hP : 0 < P) (hports : PortsEach env.names P content)
    (henv : ∀ n, env.sp.numServiceProcsPerDpu = some n → n = P) (hfit : env.names.length * P < UINT64_MAX) :
    (∀ cfg n, getDpuConfig env = some (cfg, n) →
      (cfg.SpsAgree env.names.length P n ↔ env.sp.numServiceProcsPerDpu.isSome ∨ P = 1)) ∧
    ∀ sp : ListedSp, sp.env = env.sp → sp.hostname = env.hostname → PrefixFree (strtok ',' sp.env.listDpus) →
      ∀ f : PlatformFile (strtok ',' sp.env.listDpus) sp.perDpu, f.content = content →
        ∃ cfg n, getDpuConfig env = some (cfg, n) := by
  constructor
  · intro cfg n h
    exact spsAgree_iff hfile hP hports henv (hfit.trans (by decide)) h
  · intro sp hsp hname hfree f hf
    refine sp.exists_getDpuConfig hsp hname hfile ?_ hfree f hf
    obtain ⟨c, hids, -, -, hS⟩ := sp.ids
    have hle : sp.perDpu ≤ P := by
      rw [← hS, perDpu_parseIds hids, hsp]
      cases hn : env.sp.numServiceProcsPerDpu with
      | none => exact hP
      | some n => exact (henv n hn).le
    have hmul : sp.numSps ≤ env.names.length * P := by
      rw [ListedSp.numSps, hsp]
      exact Nat.mul_le_mul_left _ hle
    omega

end

theorem PortsEach.of_all {names : List CStr} {P : ℕ} {content : CStr}
    (h : ∀ t ∈ dpuTokens (strtok '\n' content).tail, (dpuDesc t).all (fun d => d.interPorts.length = P) = true) :
    PortsEach names P content := by
  intro t ht i _ d hd
  have hall := h t ht
  rw [hd] at hall
  simpa using hall

/-- The SP of the DPU `a`, with a configuration file and nothing about ids. -/
def DpuEnv.ofFile (content : CStr) : DpuEnv :=
  ⟨⟨"a,b".toList, none, none, none⟩, ['a', '1'], some content, none, none⟩

/-- One SP on each DPU. -/
theorem per_dpu_pair : ∃ cfg n,
    getDpuConfig (.ofFile (PlatformFile.ofPair false).content) = some (cfg, n) ∧ cfg.SpsAgree 2 1 n := by
  have hports : PortsEach (DpuEnv.ofFile (PlatformFile.ofPair false).content).names 1
      (PlatformFile.ofPair false).content := .of_all (by decide +kernel)
  obtain ⟨hiff, hfound⟩ := @per_dpu_iff (.ofFile (PlatformFile.ofPair false).content) _ 1 rfl Nat.one_pos hports
    (fun _ hn => by cases hn) (by decide)
  obtain ⟨cfg, n, h⟩ := hfound (.ofPair 0) rfl rfl prefixFree_pair (PlatformFile.ofPair false) rfl
  exact ⟨cfg, n, h, (hiff cfg n h).2 (.inr rfl)⟩

/-- Two DPUs, with two SPs each. -/
def twoEach : CStr := "#Format version:1\nh,a:A:1&2:3&4,b:B:5&6:7&8".toList

/-- **With two SPs on each DPU, and nothing in the environment**, there are two SPs in all. -/
theorem not_per_dpu : PortsEach (DpuEnv.ofFile twoEach).names 2 twoEach ∧
    (getDpuConfig (.ofFile twoEach)).map (fun r => (r.1.numServiceProcsPerDpu, r.1.numServiceProcs, r.2)) =
      some (2, 2, 2) ∧
    ¬ ∀ cfg n, getDpuConfig (.ofFile twoEach) = some (cfg, n) →
      cfg.SpsAgree (DpuEnv.ofFile twoEach).names.length 2 n := by
  have hports : PortsEach (DpuEnv.ofFile twoEach).names 2 twoEach := .of_all (by decide +kernel)
  have hval : (getDpuConfig (.ofFile twoEach)).map (fun r => (r.1.numServiceProcsPerDpu, r.1.numServiceProcs, r.2)) =
      some (2, 2, 2) := by decide +kernel
  refine ⟨hports, hval, fun hall => ?_⟩
  obtain ⟨⟨cfg, n⟩, hget, hv⟩ := Option.map_eq_some_iff.1 hval
  have hnum := (hall cfg n hget).engineNumSps
  have hlen : (DpuEnv.ofFile twoEach).names.length = 2 := by decide
  rw [hlen] at hnum
  simp only [Prod.mk.injEq] at hv
  omega

end DpuOffload
