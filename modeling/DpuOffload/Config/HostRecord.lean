import DpuOffload.Config.DpuEntry
import DpuOffload.Config.FileOrder

/-!
# What a process of a host keeps of its DPU

`find_config_from_platform_configfile` with all it leaves: the record of the DPU of the host as it is in
memory (`dpus_config[0]`), the number of SPs on it, and its id; and `get_local_service_proc_connect_info`, which
finds the SP of a rank from it. The DPUs of a line are parsed one after the other into the one record, which keeps the
name of the first of them and the rest of the last.

* `HostConfig.findConfig_refines` — the hosts are those of the parser on strings.
* `LocalFile.exists_config` — what a file leaves in the record.
* `LocalFile.host_record_iff` — **the record is one DPU** exactly when a DPU of the line has the name of the first and
  the rest of the last.
* `not_one_dpu` — not so for a line with two DPUs.
-/

namespace DpuOffload

open Strtok

/-- What is gone on with, of an entry that is a string of its own. -/
def parsedDpuAt (t : CStr) (e : DpuVersion1) : Option DpuVersion1 :=
  (parseDpuCfgAt (t ++ [NUL]) 0 e).bind fun (_, e, parsed) =>
    if parsed ∧ e.numInterdpuPorts ≠ 0 ∧ e.numHostPorts ≠ 0 then some e else none

/-- `offloading_config_t` in a process of a host, as far as the configuration file goes. -/
structure HostConfig where
  /-- `hosts_config`. -/
  hostsConfig : ℕ → HostInfo
  /-- `num_hosts` and `host_lookup_table`. -/
  hosts : HostsConfig
  /-- `dpus_config[0]`. -/
  dpuConfig : DpuVersion1
  /-- `num_dpus`. -/
  numDpus : ℕ
  /-- `num_dpus_per_host`. -/
  numDpusPerHost : ℕ
  /-- `host_index`. -/
  hostIndex : ℕ
  /-- `num_service_procs_per_dpu`. -/
  numServiceProcsPerDpu : ℕ
  /-- `local_service_proc.info.dpu`. -/
  dpu : ℕ
  /-- `local_service_proc.info.local_id`. -/
  localId : ℕ

namespace HostConfig

/-- `INIT_DPU_CONFIG_DATA`. -/
def init : HostConfig where
  hostsConfig _ := ⟨none, 0, 0⟩
  hosts := ⟨0, []⟩
  dpuConfig := .blank
  numDpus := 0
  numDpusPerHost := 0
  hostIndex := 0
  numServiceProcsPerDpu := 0
  dpu := UINT64_MAX
  localId := UINT64_MAX

/-- `add_host_to_config`; the number of hosts is counted by the caller. -/
def addHostToConfig (cfg : HostConfig) (hostname : CStr) : HostConfig :=
  let idx := cfg.hosts.numHosts
  { cfg with
    hostsConfig := Function.update cfg.hostsConfig idx ⟨some hostname, hashHostname hostname, idx⟩
    hosts := ⟨idx, (hashHostname hostname, idx) :: cfg.hosts.hostLookupTable⟩ }

/-- The DPUs of the host itself, each a string of its own in the buffer of the line. -/
def parseDpus : HostConfig → List CStr → Option HostConfig
  | cfg, [] => some { cfg with hostIndex := cfg.hosts.numHosts }
  | cfg, t :: ts =>
    (parsedDpuAt t cfg.dpuConfig).bind fun e =>
      parseDpus { cfg with dpuConfig := e, numDpus := cfg.numDpus + 1, numDpusPerHost := cfg.numDpusPerHost + 1 } ts

/-- `parse_line_version_1`. -/
def parseLineVersion1 (target : CStr) (cfg : HostConfig) (line : CStr) : Option HostConfig :=
  match strtok ',' line with
  | [] => none
  | host :: dpus =>
    let cfg := cfg.addHostToConfig host
    if OffloadingConfig.isLocal target host then cfg.parseDpus dpus else some cfg

/-- `parse_line`. -/
def parseLine (target : CStr) (version : ℤ) (cfg : HostConfig) (line : CStr) : Option HostConfig :=
  if version = 1 then cfg.parseLineVersion1 target line else some cfg

/-- `data->num_hosts++`. -/
def countHost (cfg : HostConfig) : HostConfig :=
  { cfg with hosts := { cfg.hosts with numHosts := cfg.hosts.numHosts + 1 } }

/-- The loop over the lines. -/
def parseLines (target : CStr) (version : ℤ) : HostConfig → List CStr → Option HostConfig
  | cfg, [] => some cfg
  | cfg, l :: ls =>
    if lineIsComment l then parseLines target version cfg ls
    else (cfg.parseLine target version l).bind fun cfg => parseLines target version cfg.countHost ls

/-- What is left to do after the lines: the number of SPs, if it is not known, and the id of the DPU. -/
def finish (cfg : HostConfig) : HostConfig :=
  { cfg with
    numServiceProcsPerDpu :=
      if cfg.numServiceProcsPerDpu = 0 then cfg.dpuConfig.numHostPorts else cfg.numServiceProcsPerDpu
    dpu :=
      if cfg.dpu = UINT64_MAX then sizeT (((cfg.numDpus : ℤ) - 1) + cfg.hostIndex * cfg.numDpusPerHost) else cfg.dpu }

/-- `find_config_from_platform_configfile`. -/
def findConfigFromPlatformConfigfile (content target : CStr) (cfg : HostConfig) : Option HostConfig :=
  match HostSideConfig.getlines content with
  | [] => some cfg.finish
  | l :: ls => (checkConfigFileVersion l).bind fun v =>
    if v ≤ 0 then none else (cfg.parseLines target v ls).map finish

/-- What `get_local_service_proc_connect_info` gives: `init_params`, as far as it sets it. -/
structure ConnectInfo where
  /-- `conn_params->addr_str`. -/
  addrStr : Option CStr
  /-- `conn_params->port`. -/
  port : ℤ
  /-- `sps_per_dpu`. -/
  spsPerDpu : ℕ
  deriving DecidableEq, Repr

/-- `get_local_service_proc_connect_info`, for a rank. A port is read from an array that grows. -/
def getLocalServiceProcConnectInfo (cfg : HostConfig) (rankInfo : RankInfo) : Option (HostConfig × ConnectInfo) :=
  if cfg.numServiceProcsPerDpu = 0 ∧ rankInfo.localRank ≠ INVALID_RANK then none
  else
    let id := if rankInfo.localRank ≠ INVALID_RANK then sizeT rankInfo.localRank % cfg.numServiceProcsPerDpu else 0
    (cfg.dpuConfig.hostPorts.getElt 0 id).map fun ports =>
      ({ cfg with localId := id, dpuConfig := { cfg.dpuConfig with hostPorts := ports } },
        { addrStr := cfg.dpuConfig.addr, port := ports.elts.getD id 0, spsPerDpu := cfg.numServiceProcsPerDpu })

end HostConfig

/-! ### The hosts -/

/-- The hosts and DPUs are those of the parser on strings. -/
structure HostConfig.Refines (c : HostConfig) (s : HostSideConfig) : Prop where
  /-- The hosts. -/
  hostsConfig : c.hostsConfig = s.hostsConfig
  /-- Their table. -/
  hosts : c.hosts = s.hosts
  /-- The number of DPUs. -/
  numDpus : c.numDpus = s.numDpus
  /-- Of a host. -/
  numDpusPerHost : c.numDpusPerHost = s.numDpusPerHost
  /-- The host itself. -/
  hostIndex : c.hostIndex = s.hostIndex
  /-- The name of its DPU. -/
  hostname : c.dpuConfig.hostname = s.dpuConfig.hostname
  /-- Its address. -/
  addr : c.dpuConfig.addr = s.dpuConfig.addr
  /-- The number of ports. -/
  numInterdpuPorts : c.dpuConfig.numInterdpuPorts = s.dpuConfig.numInterdpuPorts

/-- An entry is gone on with, or not. -/
theorem parsedDpuAt_refines {t : CStr} (ht : NUL ∉ t) {e : DpuVersion1} {d : DpuConfigData}
    (hname : e.hostname = d.hostname) (haddr : e.addr = d.addr) (hnum : e.numInterdpuPorts = d.numInterdpuPorts) :
    match parsedDpu t d with
    | none => parsedDpuAt t e = none
    | some d' => ∃ e', parsedDpuAt t e = some e' ∧ e'.Means d' ∧ e'.numHostPorts = d'.hostPorts.length := by
  have hat : StrAt NUL (t ++ [NUL]) 0 t := ⟨ht, [], rfl⟩
  have href := parseDpuCfgAt_refines hat hname haddr hnum
  rw [parsedDpu, parsedDpuAt]
  cases hd : parseDpuCfg t d with
  | none =>
    rw [hd] at href
    rw [href]
    rfl
  | some r =>
    obtain ⟨d', b⟩ := r
    rw [hd] at href
    dsimp only at href
    cases hrun : parseDpuCfgAt (t ++ [NUL]) 0 e with
    | none =>
      rw [hrun] at href
      exact href.elim
    | some r =>
      obtain ⟨mem, e', b'⟩ := r
      rw [hrun] at href
      obtain ⟨rfl, hm, hhost, -⟩ := href
      have hiff : (b' = true ∧ e'.numInterdpuPorts ≠ 0 ∧ e'.numHostPorts ≠ 0) ↔
          (b' = true ∧ d'.numInterdpuPorts ≠ 0 ∧ d'.hostPorts ≠ []) := by
        refine and_congr_right fun hb => ?_
        rw [hm.numInterdpuPorts, hhost hb, List.length_eq_zero_iff.ne]
      simp only [Option.bind_some, hiff]
      by_cases hports : b' = true ∧ d'.numInterdpuPorts ≠ 0 ∧ d'.hostPorts ≠ []
      · rw [if_pos hports, if_pos hports]
        exact ⟨e', rfl, hm, hhost hports.1⟩
      · rw [if_neg hports, if_neg hports]

namespace HostConfig

variable {c : HostConfig} {s : HostSideConfig} {target : CStr}

theorem Refines.addHostToConfig (h : c.Refines s) (host : CStr) :
    (c.addHostToConfig host).Refines (s.addHostToConfig host) := by
  constructor
  · change Function.update c.hostsConfig c.hosts.numHosts _ = Function.update s.hostsConfig s.hosts.numHosts _
    rw [h.hostsConfig, h.hosts]
  · change (⟨c.hosts.numHosts, _⟩ : HostsConfig) = ⟨s.hosts.numHosts, _⟩
    rw [h.hosts]
  · exact h.numDpus
  · exact h.numDpusPerHost
  · exact h.hostIndex
  · exact h.hostname
  · exact h.addr
  · exact h.numInterdpuPorts

/-- The DPUs of a line. -/
theorem Refines.parseDpus (h : c.Refines s) {ts : List CStr} (hts : ∀ t ∈ ts, NUL ∉ t) :
    match s.parseDpus ts with
    | none => c.parseDpus ts = none
    | some s' => ∃ c', c.parseDpus ts = some c' ∧ c'.Refines s' := by
  induction ts generalizing c s with
  | nil => exact ⟨_, rfl, h.hostsConfig, h.hosts, h.numDpus, h.numDpusPerHost, congrArg HostsConfig.numHosts h.hosts,
      h.hostname, h.addr, h.numInterdpuPorts⟩
  | cons t ts ih =>
    have href := parsedDpuAt_refines (hts t List.mem_cons_self) h.hostname h.addr h.numInterdpuPorts
    rw [HostSideConfig.parseDpus, HostConfig.parseDpus]
    cases hs : parsedDpu t s.dpuConfig with
    | none =>
      rw [hs] at href
      dsimp only at href
      rw [href]
      rfl
    | some d =>
      rw [hs] at href
      obtain ⟨e, hrun, hm, -⟩ := href
      rw [hrun, Option.bind_some, Option.bind_some]
      exact ih ⟨h.hostsConfig, h.hosts, congrArg (· + 1) h.numDpus, congrArg (· + 1) h.numDpusPerHost, h.hostIndex,
        hm.hostname, hm.addr, hm.numInterdpuPorts⟩ fun u hu => hts u (List.mem_cons_of_mem t hu)

/-- A line. -/
theorem Refines.parseLine (h : c.Refines s) (version : ℤ) {l : CStr} (hl : ∀ t ∈ strtok ',' l, NUL ∉ t) :
    match s.parseLine target version l with
    | none => c.parseLine target version l = none
    | some s' => ∃ c', c.parseLine target version l = some c' ∧ c'.Refines s' := by
  rw [HostSideConfig.parseLine, HostConfig.parseLine]
  by_cases hv : version = 1
  · rw [if_pos hv, if_pos hv, HostSideConfig.parseLineVersion1, HostConfig.parseLineVersion1]
    cases hts : strtok ',' l with
    | nil => rfl
    | cons host dpus =>
      rw [hts] at hl
      dsimp only
      cases hloc : OffloadingConfig.isLocal target host with
      | true => exact (h.addHostToConfig host).parseDpus fun t ht => hl t (List.mem_cons_of_mem host ht)
      | false => exact ⟨_, rfl, h.addHostToConfig host⟩
  · rw [if_neg hv, if_neg hv]
    exact ⟨c, rfl, h⟩

/-- **The lines.** -/
theorem Refines.parseLines (h : c.Refines s) (version : ℤ) {ls : List CStr}
    (hls : ∀ l ∈ ls, ∀ t ∈ strtok ',' l, NUL ∉ t) :
    match s.parseLines target version ls with
    | none => c.parseLines target version ls = none
    | some s' => ∃ c', c.parseLines target version ls = some c' ∧ c'.Refines s' := by
  induction ls generalizing c s with
  | nil => exact ⟨c, rfl, h⟩
  | cons l ls ih =>
    have hls' : ∀ l' ∈ ls, ∀ t ∈ strtok ',' l', NUL ∉ t := fun l' hl' => hls l' (List.mem_cons_of_mem l hl')
    rw [HostSideConfig.parseLines, HostConfig.parseLines]
    cases hcomment : lineIsComment l with
    | true => exact ih h hls'
    | false =>
      have hline := @Refines.parseLine c s target h version l (hls l List.mem_cons_self)
      rw [if_neg Bool.false_ne_true, if_neg Bool.false_ne_true]
      cases hs : s.parseLine target version l with
      | none =>
        rw [hs] at hline
        dsimp only at hline
        rw [hline]
        rfl
      | some s₁ =>
        rw [hs] at hline
        obtain ⟨c₁, hc₁, h₁⟩ := hline
        rw [hc₁, Option.bind_some, Option.bind_some]
        exact ih ⟨h₁.hostsConfig, by rw [countHost, h₁.hosts]; rfl, h₁.numDpus, h₁.numDpusPerHost, h₁.hostIndex,
          h₁.hostname, h₁.addr, h₁.numInterdpuPorts⟩ hls'

/-- **The parser finds the hosts that the parser on strings finds**, in a file without the character that ends a
string. -/
theorem findConfig_refines {content : CStr}
    (hnul : ∀ l ∈ HostSideConfig.getlines content, ∀ t ∈ strtok ',' l, NUL ∉ t) (target : CStr) :
    match HostSideConfig.init.findConfigFromPlatformConfigfile content target with
    | none => init.findConfigFromPlatformConfigfile content target = none
    | some s => ∃ c, init.findConfigFromPlatformConfigfile content target = some c ∧ c.Refines s := by
  have hinit : init.Refines .init := ⟨rfl, rfl, rfl, rfl, rfl, rfl, rfl, rfl⟩
  rw [HostSideConfig.findConfigFromPlatformConfigfile, HostConfig.findConfigFromPlatformConfigfile]
  cases hlines : HostSideConfig.getlines content with
  | nil => exact ⟨_, rfl, hinit.hostsConfig, hinit.hosts, rfl, rfl, rfl, rfl, rfl, rfl⟩
  | cons l ls =>
    rw [hlines] at hnul
    dsimp only
    cases hv : checkConfigFileVersion l with
    | none => rfl
    | some v =>
      rw [Option.bind_some, Option.bind_some]
      by_cases hpos : v ≤ 0
      · rw [if_pos hpos, if_pos hpos]
      · have hrun := @Refines.parseLines init .init target hinit v ls fun l' hl' => hnul l' (List.mem_cons_of_mem l hl')
        rw [if_neg hpos, if_neg hpos]
        cases hs : HostSideConfig.init.parseLines target v ls with
        | none =>
          rw [hs] at hrun
          dsimp only at hrun ⊢
          rw [hrun]
          rfl
        | some s =>
          rw [hs] at hrun
          obtain ⟨c, hc, hcs⟩ := hrun
          rw [hc]
          exact ⟨_, rfl, hcs.hostsConfig, hcs.hosts, hcs.numDpus, hcs.numDpusPerHost, hcs.hostIndex, hcs.hostname,
            hcs.addr, hcs.numInterdpuPorts⟩

end HostConfig

/-! ### One entry -/

/-- The name of the DPU of an entry. -/
def tokenName (token : CStr) : CStr := (strtok ':' token).headD []

/-- A record holds what a description says; its name is not in the description. -/
structure DpuVersion1.Describes (e : DpuVersion1) (d : DpuDesc) : Prop where
  /-- The address. -/
  addr : e.addr = some d.addr
  /-- The number of ports SPs connect to. -/
  numInterdpuPorts : e.numInterdpuPorts = d.interPorts.length
  /-- The ports SPs connect to. -/
  interdpuPorts : e.interdpuPorts.Holds 0 d.interPorts
  /-- The number of ports hosts connect to. -/
  numHostPorts : e.numHostPorts = d.hostPorts.length
  /-- The ports hosts connect to. -/
  hostPorts : e.hostPorts.Holds 0 d.hostPorts

/-- **What parsing an entry does to a record**: a name is kept, the rest is overwritten. -/
theorem parsedDpuAt_desc {t : CStr} {d : DpuDesc} (hd : dpuDesc t = some d) (ht : NUL ∉ t) (e : DpuVersion1) :
    ∃ e', parsedDpuAt t e = some e' ∧ e'.hostname = some (e.hostname.getD (tokenName t)) ∧ e'.Describes d := by
  have href := parsedDpuAt_refines ht (e := e) (d := ⟨e.hostname, e.addr, e.numInterdpuPorts, [], []⟩) rfl rfl rfl
  rw [parsedDpu_eq hd] at href
  obtain ⟨e', hrun, hm, hhost⟩ := href
  exact ⟨e', hrun, hm.hostname, hm.addr, hm.numInterdpuPorts, hm.interdpuPorts, hhost, hm.hostPorts⟩

/-- The record after some entries, in their order: the name of the first and the rest of the last. -/
structure Recorded (ts : List CStr) (e : DpuVersion1) : Prop where
  /-- The name is that of the first. -/
  hostname : e.hostname = ts.head?.map tokenName
  /-- The rest is that of the last. -/
  last : ∀ d, ts.getLast?.bind dpuDesc = some d → e.Describes d

theorem recorded_nil : Recorded [] .blank where
  hostname := rfl
  last d hd := by cases hd

/-- One more entry. -/
theorem Recorded.parse {ts : List CStr} {e : DpuVersion1} (h : Recorded ts e) {t : CStr} {d : DpuDesc}
    (hd : dpuDesc t = some d) (ht : NUL ∉ t) :
    ∃ e', parsedDpuAt t e = some e' ∧ Recorded (ts ++ [t]) e' := by
  obtain ⟨e', hrun, hname, hdesc⟩ := parsedDpuAt_desc hd ht e
  refine ⟨e', hrun, ?_, fun d' hd' => ?_⟩
  · rw [hname, h.hostname]
    cases ts <;> rfl
  · rw [List.getLast?_append, List.getLast?_singleton, Option.some_or, Option.bind_some, hd] at hd'
    cases hd'
    exact hdesc

namespace HostConfig

variable {target : CStr} {cfg : HostConfig} {ts us : List CStr}

/-- **The DPUs of the host's line** are put into the record one after the other. -/
theorem parseDpus_recorded (h : Recorded ts cfg.dpuConfig) (hus : ∀ t ∈ us, NUL ∉ t ∧ ∃ d, dpuDesc t = some d) :
    ∃ c, cfg.parseDpus us = some c ∧ Recorded (ts ++ us) c.dpuConfig ∧
      c.numServiceProcsPerDpu = cfg.numServiceProcsPerDpu := by
  induction us generalizing cfg ts with
  | nil => exact ⟨_, rfl, by rwa [List.append_nil], rfl⟩
  | cons u us ih =>
    obtain ⟨hu, d, hd⟩ := hus u List.mem_cons_self
    obtain ⟨e, hrun, he⟩ := h.parse hd hu
    obtain ⟨c, hc, hrec, hnum⟩ :=
      @ih { cfg with dpuConfig := e, numDpus := cfg.numDpus + 1, numDpusPerHost := cfg.numDpusPerHost + 1 } _ he
        fun t ht => hus t (List.mem_cons_of_mem u ht)
    refine ⟨c, ?_, by rwa [List.append_cons], hnum⟩
    rw [parseDpus, hrun]
    exact hc

end HostConfig

/-- The DPUs of a line. -/
def lineDpus (l : CStr) : List CStr := (strtok ',' l).tail

/-- Is it the line of the host? -/
def isHostLine (target l : CStr) : Bool :=
  !lineIsComment l && OffloadingConfig.isLocal target ((strtok ',' l).headD [])

/-- The DPUs of the lines that are taken for the line of the host, in their order. -/
def hostDpus (target : CStr) (ls : List CStr) : List CStr := (ls.filter (isHostLine target)).flatMap lineDpus

namespace HostConfig

variable {target : CStr} {cfg : HostConfig} {ts : List CStr}

/-- **The lines of a file.** -/
theorem parseLines_recorded {ls : List CStr} (h : Recorded ts cfg.dpuConfig)
    (hhost : ∀ l ∈ ls, lineIsComment l = false → strtok ',' l ≠ [])
    (hdpus : ∀ t ∈ hostDpus target ls, NUL ∉ t ∧ ∃ d, dpuDesc t = some d) :
    ∃ c, cfg.parseLines target 1 ls = some c ∧ Recorded (ts ++ hostDpus target ls) c.dpuConfig ∧
      c.numServiceProcsPerDpu = cfg.numServiceProcsPerDpu := by
  induction ls generalizing cfg ts with
  | nil => exact ⟨cfg, rfl, by simpa [hostDpus] using h, rfl⟩
  | cons l ls ih =>
    have hhost' : ∀ l' ∈ ls, lineIsComment l' = false → strtok ',' l' ≠ [] :=
      fun l' hl' => hhost l' (List.mem_cons_of_mem l hl')
    rw [parseLines]
    cases hcomment : lineIsComment l with
    | true =>
      have hskip : hostDpus target (l :: ls) = hostDpus target ls := by
        rw [hostDpus, List.filter_cons_of_neg (by simp [isHostLine, hcomment])]
        rfl
      rw [hskip] at hdpus ⊢
      rw [if_pos rfl]
      exact ih h hhost' hdpus
    | false =>
      rw [if_neg Bool.false_ne_true]
      obtain ⟨host, dpus, hts⟩ := List.exists_cons_of_ne_nil (hhost l List.mem_cons_self hcomment)
      have hline : cfg.parseLine target 1 l = if OffloadingConfig.isLocal target host then
          (cfg.addHostToConfig host).parseDpus dpus else some (cfg.addHostToConfig host) := by
        rw [parseLine, if_pos rfl, parseLineVersion1, hts]
      cases hloc : OffloadingConfig.isLocal target host with
      | true =>
        have hown : hostDpus target (l :: ls) = dpus ++ hostDpus target ls := by
          rw [hostDpus, List.filter_cons_of_pos (by simp [isHostLine, hcomment, hts, hloc]), List.flatMap_cons,
            lineDpus, hts]
          rfl
        rw [hown] at hdpus ⊢
        obtain ⟨c₁, hc₁, hrec₁, hnum₁⟩ := @parseDpus_recorded (cfg.addHostToConfig host) _ dpus h
          fun t ht => hdpus t (List.mem_append_left _ ht)
        obtain ⟨c, hc, hrec, hnum⟩ := @ih c₁.countHost _ hrec₁ hhost' fun t ht =>
          hdpus t (List.mem_append_right _ ht)
        refine ⟨c, ?_, by rwa [← List.append_assoc], hnum.trans hnum₁⟩
        rw [hline, if_pos hloc, hc₁]
        exact hc
      | false =>
        have hother : hostDpus target (l :: ls) = hostDpus target ls := by
          rw [hostDpus, List.filter_cons_of_neg (by simp [isHostLine, hcomment, hts, hloc])]
          rfl
        rw [hother] at hdpus ⊢
        obtain ⟨c, hc, hrec, hnum⟩ := @ih (cfg.addHostToConfig host).countHost _ h hhost' hdpus
        refine ⟨c, ?_, hrec, hnum⟩
        rw [hline, if_neg (by rw [hloc]; exact Bool.false_ne_true)]
        exact hc

end HostConfig

/-! ### The record of a host -/

/-- A configuration file, as the process of a host named `target` reads it. -/
structure LocalFile (target : CStr) where
  /-- The text. -/
  content : CStr
  /-- The first line. -/
  version : CStr
  /-- The other lines. -/
  lines : List CStr
  lines_eq : HostSideConfig.getlines content = version :: lines
  version_eq : checkConfigFileVersion version = some 1
  /-- A line has a host. -/
  hosts : ∀ l ∈ lines, lineIsComment l = false → strtok ',' l ≠ []
  /-- The DPUs of the host have all their parts. -/
  descs : ∀ t ∈ hostDpus target lines, NUL ∉ t ∧ ∃ d, dpuDesc t = some d

/-- The record is that of the DPU of an entry, and so is what a rank gets to connect to, whichever rank it is: the port
is the one of its SP. -/
structure HostConfig.IsDpu (cfg : HostConfig) (t : CStr) (d : DpuDesc) : Prop where
  /-- The name. -/
  hostname : cfg.dpuConfig.hostname = some (tokenName t)
  /-- The address. -/
  addr : cfg.dpuConfig.addr = some d.addr
  /-- The number of ports SPs connect to. -/
  numInterdpuPorts : cfg.dpuConfig.numInterdpuPorts = d.interPorts.length
  /-- The ports SPs connect to. -/
  interdpuPorts : cfg.dpuConfig.interdpuPorts.elts.take cfg.dpuConfig.numInterdpuPorts = d.interPorts
  /-- The number of ports hosts connect to. -/
  numHostPorts : cfg.dpuConfig.numHostPorts = d.hostPorts.length
  /-- The ports hosts connect to. -/
  hostPorts : cfg.dpuConfig.hostPorts.elts.take cfg.dpuConfig.numHostPorts = d.hostPorts
  /-- What a rank gets. -/
  connect : ∀ rankInfo : RankInfo, ∃ cfg' c, cfg.getLocalServiceProcConnectInfo rankInfo = some (cfg', c) ∧
    c.addrStr = some d.addr ∧ d.hostPorts[cfg'.localId]? = some c.port

/-- A rank gets the address of the record, and the port of its SP. -/
theorem DpuVersion1.Describes.connect {cfg : HostConfig} {d : DpuDesc} (h : cfg.dpuConfig.Describes d)
    (hpos : 0 < d.hostPorts.length) (hS : cfg.numServiceProcsPerDpu = d.hostPorts.length) (rankInfo : RankInfo) :
    ∃ cfg' c, cfg.getLocalServiceProcConnectInfo rankInfo = some (cfg', c) ∧ c.addrStr = some d.addr ∧
      d.hostPorts[cfg'.localId]? = some c.port := by
  rw [HostConfig.getLocalServiceProcConnectInfo, if_neg (by omega)]
  dsimp only
  generalize hid : (if rankInfo.localRank ≠ INVALID_RANK then
    sizeT rankInfo.localRank % cfg.numServiceProcsPerDpu else 0) = id
  have hlt : id < d.hostPorts.length := by
    rw [← hid, hS]
    split
    · exact Nat.mod_lt _ hpos
    · exact hpos
  obtain ⟨ports, hget⟩ := DynArray.exists_getElt (z := 0) h.hostPorts.allocated h.hostPorts.grows id
  rw [hget]
  refine ⟨_, _, rfl, h.addr, ?_⟩
  dsimp only
  rw [DynArray.getD_access hget, h.hostPorts.getD, List.getD_eq_getElem _ _ hlt, List.getElem?_eq_getElem hlt]

namespace LocalFile

variable {target : CStr} (f : LocalFile target)

/-- **What the file leaves in the record.** -/
theorem exists_config :
    ∃ cfg, HostConfig.init.findConfigFromPlatformConfigfile f.content target = some cfg ∧
      Recorded (hostDpus target f.lines) cfg.dpuConfig ∧ cfg.numServiceProcsPerDpu = cfg.dpuConfig.numHostPorts := by
  obtain ⟨c, hc, hrec, hnum⟩ := @HostConfig.parseLines_recorded target .init [] f.lines recorded_nil f.hosts f.descs
  refine ⟨c.finish, ?_, hrec, ?_⟩
  · rw [HostConfig.findConfigFromPlatformConfigfile, f.lines_eq]
    dsimp only
    rw [f.version_eq, Option.bind_some, if_neg (by decide), hc]
    rfl
  · exact if_pos hnum

/-- The last of the DPUs has a description. -/
theorem exists_last (hne : hostDpus target f.lines ≠ []) :
    ∃ d, (hostDpus target f.lines).getLast?.bind dpuDesc = some d ∧ 0 < d.hostPorts.length := by
  rw [List.getLast?_eq_some_getLast hne, Option.bind_some]
  obtain ⟨-, d, hd⟩ := f.descs _ (List.getLast_mem hne)
  exact ⟨d, hd, List.length_pos_iff.2 (dpuDesc_ports hd).2⟩

/-- **The record of a host is one DPU** exactly when a DPU of its line has the name of the first DPU that is parsed, and
the rest of the last. -/
theorem host_record_iff {l : CStr} (hl : l ∈ f.lines) (hown : isHostLine target l = true) (hdpus : lineDpus l ≠ []) :
    ∃ cfg, HostConfig.init.findConfigFromPlatformConfigfile f.content target = some cfg ∧
      ((∃ t ∈ lineDpus l, ∃ d, dpuDesc t = some d ∧ cfg.IsDpu t d) ↔
        ∃ t ∈ lineDpus l, (hostDpus target f.lines).head?.map tokenName = some (tokenName t) ∧
          (hostDpus target f.lines).getLast?.bind dpuDesc = dpuDesc t) := by
  have hsub : ∀ t ∈ lineDpus l, t ∈ hostDpus target f.lines := fun t ht =>
    List.mem_flatMap.2 ⟨l, List.mem_filter.2 ⟨hl, hown⟩, ht⟩
  have hne : hostDpus target f.lines ≠ [] := List.ne_nil_of_mem (hsub _ (List.head_mem hdpus))
  obtain ⟨cfg, hcfg, hrec, hS⟩ := f.exists_config
  obtain ⟨d, hd, hpos⟩ := f.exists_last hne
  have hdesc := hrec.last d hd
  refine ⟨cfg, hcfg, ?_⟩
  constructor
  · rintro ⟨t, ht, d', hd', h⟩
    refine ⟨t, ht, ?_, ?_⟩
    · rw [← hrec.hostname, h.hostname]
    · -- the record holds what both descriptions say
      have haddr : d.addr = d'.addr := Option.some.inj (hdesc.addr.symm.trans h.addr)
      have hinter : d.interPorts = d'.interPorts := by
        rw [← h.interdpuPorts, hdesc.numInterdpuPorts, hdesc.interdpuPorts.take_eq]
      have hhost : d.hostPorts = d'.hostPorts := by
        rw [← h.hostPorts, hdesc.numHostPorts, hdesc.hostPorts.take_eq]
      rw [hd, hd']
      cases d
      cases d'
      simp only at haddr hinter hhost
      rw [haddr, hinter, hhost]
  · rintro ⟨t, ht, hname, hlast⟩
    have hd' : dpuDesc t = some d := hlast.symm.trans hd
    refine ⟨t, ht, d, hd', ?_, hdesc.addr, hdesc.numInterdpuPorts, ?_, hdesc.numHostPorts, ?_, ?_⟩
    · rw [hrec.hostname, hname]
    · rw [hdesc.numInterdpuPorts, hdesc.interdpuPorts.take_eq]
    · rw [hdesc.numHostPorts, hdesc.hostPorts.take_eq]
    · exact hdesc.connect hpos (hS.trans hdesc.numHostPorts)

end LocalFile

/-- A file with one host, which has one DPU with two SPs. -/
def oneDpuFile : LocalFile ['h'] where
  content := "# Format version: 1\nh,d1:a1:71&72:91&92\n".toList
  version := "# Format version: 1\n".toList
  lines := ["h,d1:a1:71&72:91&92\n".toList]
  lines_eq := by decide +kernel
  version_eq := by decide +kernel
  hosts := by decide +kernel
  descs := by
    have hdpus : hostDpus ['h'] ["h,d1:a1:71&72:91&92\n".toList] = ["d1:a1:71&72:91&92\n".toList] := by decide +kernel
    rw [hdpus]
    intro t ht
    obtain rfl := List.mem_singleton.1 ht
    exact ⟨by decide, ⟨['a', '1'], [71, 72], [91, 92]⟩, by decide +kernel⟩

/-- Then the record is that DPU. -/
theorem host_record_one :
    ∃ cfg, HostConfig.init.findConfigFromPlatformConfigfile oneDpuFile.content ['h'] = some cfg ∧
      ∃ t ∈ lineDpus "h,d1:a1:71&72:91&92\n".toList, ∃ d, dpuDesc t = some d ∧ cfg.IsDpu t d := by
  obtain ⟨cfg, hcfg, hiff⟩ := oneDpuFile.host_record_iff (l := "h,d1:a1:71&72:91&92\n".toList)
    List.mem_cons_self (by decide +kernel) (by decide +kernel)
  exact ⟨cfg, hcfg, hiff.2 ⟨"d1:a1:71&72:91&92\n".toList, by decide +kernel⟩⟩

/-- A file with one host, which has two DPUs. -/
def twoDpusFile : LocalFile ['h'] where
  content := "# Format version: 1\nh,d1:a1:71:91,d2:a2:72:92\n".toList
  version := "# Format version: 1\n".toList
  lines := ["h,d1:a1:71:91,d2:a2:72:92\n".toList]
  lines_eq := by decide +kernel
  version_eq := by decide +kernel
  hosts := by decide +kernel
  descs := by
    have hdpus : hostDpus ['h'] ["h,d1:a1:71:91,d2:a2:72:92\n".toList] =
        ["d1:a1:71:91".toList, "d2:a2:72:92\n".toList] := by decide +kernel
    rw [hdpus]
    intro t ht
    rcases List.mem_pair.1 ht with rfl | rfl
    · exact ⟨by decide, ⟨['a', '1'], [71], [91]⟩, by decide +kernel⟩
    · exact ⟨by decide, ⟨['a', '2'], [72], [92]⟩, by decide +kernel⟩

/-- **Not for every host**: the record has the name of the first DPU and the address of the second. -/
theorem not_one_dpu : ¬ ∀ (target : CStr) (f : LocalFile target) (l : CStr), l ∈ f.lines → isHostLine target l = true →
    lineDpus l ≠ [] → ∀ cfg, HostConfig.init.findConfigFromPlatformConfigfile f.content target = some cfg →
      ∃ t ∈ lineDpus l, ∃ d, dpuDesc t = some d ∧ cfg.IsDpu t d := by
  intro h
  have hdpus : lineDpus "h,d1:a1:71:91,d2:a2:72:92\n".toList = ["d1:a1:71:91".toList, "d2:a2:72:92\n".toList] := by
    decide +kernel
  have hrecord : (HostConfig.init.findConfigFromPlatformConfigfile twoDpusFile.content ['h']).map
      (fun cfg => (cfg.dpuConfig.hostname, cfg.dpuConfig.addr)) = some (some ['d', '1'], some ['a', '2']) := by
    decide +kernel
  obtain ⟨cfg, hcfg, hrec⟩ := Option.map_eq_some_iff.1 hrecord
  obtain ⟨t, ht, d, hd, hone⟩ := h ['h'] twoDpusFile "h,d1:a1:71:91,d2:a2:72:92\n".toList List.mem_cons_self
    (by decide +kernel) (by decide +kernel) cfg hcfg
  have hname := hone.hostname
  have haddr := hone.addr
  rw [(Prod.mk.inj hrec).1] at hname
  rw [(Prod.mk.inj hrec).2] at haddr
  rw [hdpus] at ht
  rcases List.mem_pair.1 ht with rfl | rfl
  · have hfirst : dpuDesc "d1:a1:71:91".toList = some ⟨['a', '1'], [71], [91]⟩ := by decide +kernel
    rw [hfirst] at hd
    cases hd
    exact absurd haddr (by decide)
  · exact absurd hname (by decide +kernel)

end DpuOffload
