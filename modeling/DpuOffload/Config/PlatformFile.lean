import DpuOffload.Config.ListDpus

/-!
# The configuration file

The two parsers of the platform configuration file (`dpu_offload_utils.c`). A line describes a
host and its DPUs:

    <host>,<dpu:address:port&port...:port&port...>,...

`find_dpu_config_from_platform_configfile` is run by an SP, once it has parsed the list of
DPUs, and keeps what the file says of the DPUs of the list and of their hosts.
`find_config_from_platform_configfile` is run by a process of a host and keeps all the hosts.
A check that would fail is `none`. `parse_dpu_cfg` is followed also where its checks would fail; what they ask for is
then asked for by `parsedDpu`.
-/

namespace DpuOffload

/-! ### Lines -/

/-- Leading spaces are skipped. -/
def skipSpaces (s : CStr) : CStr := s.dropWhile (· = ' ')

/-- `atoi`. -/
def atoi (s : CStr) : ℤ :=
  let digits (s : CStr) : ℤ := (s.takeWhile Char.isDigit).foldl (fun n c => n * 10 + (c.toNat - 48 : ℕ)) 0
  match s.dropWhile fun c => c = ' ' ∨ 9 ≤ c.toNat ∧ c.toNat ≤ 13 with
  | '-' :: s => -digits s
  | '+' :: s => digits s
  | s => digits s

/-- `config_file_version_token`. -/
def configFileVersionToken : CStr :=
  ['F', 'o', 'r', 'm', 'a', 't', ' ', 'v', 'e', 'r', 's', 'i', 'o', 'n', ':']

/-- `check_config_file_version`. -/
def checkConfigFileVersion (line : CStr) : Option ℤ :=
  match skipSpaces line with
  | '#' :: s =>
    let s := skipSpaces s
    if strncmp s configFileVersionToken configFileVersionToken.length then
      some (atoi (skipSpaces (s.drop configFileVersionToken.length)))
    else none
  | _ => none

/-- `line_is_comment`. -/
def lineIsComment (line : CStr) : Bool := (skipSpaces line).head? = some '#'

/-! ### What a line says of a DPU -/

/-- The fields behind the name, as far as there are any; are they all there? -/
def parseDpuFields (e : DpuConfigData) : List CStr → DpuConfigData × Bool
  | [] => (e, false)
  | [addr] => ({ e with addr := some addr }, false)
  | addr :: inter :: rest =>
    let interPorts := (strtok '&' inter).map atoi
    let e := { e with addr := some addr, numInterdpuPorts := interPorts.length, interdpuPorts := interPorts }
    match rest with
    | [] => (e, false)
    | host :: _ => ({ e with hostPorts := (strtok '&' host).map atoi }, true)

/-- `parse_dpu_cfg`, with what it returns. A name is copied, unless the entry has one. -/
def parseDpuCfg (str : CStr) (e : DpuConfigData) : Option (DpuConfigData × Bool) :=
  let tokens := strtok ':' str
  (e.hostname.or tokens.head?).map fun name =>
    parseDpuFields { e with hostname := some name, interdpuPorts := [], hostPorts := [] } tokens.tail

/-- What the callers of `parse_dpu_cfg` go on with: an entry that is parsed, as they check, and has ports of both kinds,
as is checked there. -/
def parsedDpu (str : CStr) (e : DpuConfigData) : Option DpuConfigData :=
  (parseDpuCfg str e).bind fun (e, parsed) =>
    if parsed ∧ e.numInterdpuPorts ≠ 0 ∧ e.hostPorts ≠ [] then some e else none

/-- The names are compared up to the length of the shorter one. -/
def sameName (a : Option CStr) (b : CStr) : Bool :=
  match a with
  | none => false
  | some a => strncmp a b (min a.length b.length)

namespace OffloadingConfig

variable (cfg : OffloadingConfig)

/-- The DPU of the list that a token is about. -/
def findConfig (token : CStr) : Option ℕ :=
  (List.range cfg.numDpus).find? fun i => sameName (cfg.dpusConfig i).hostname token

/-- The DPU of the engine with a name. -/
def findDpu (name : CStr) : Option ℕ := (List.range cfg.numDpus).find? fun d => sameName (cfg.dpus d).hostname name

/-- A host is added. -/
def addHost (hostname : CStr) : OffloadingConfig :=
  let idx := cfg.hosts.numHosts
  { cfg with
    hostsConfig := Function.update cfg.hostsConfig idx ⟨some hostname, hashHostname hostname, idx⟩
    hosts := ⟨idx + 1, (hashHostname hostname, idx) :: cfg.hosts.hostLookupTable⟩ }

/-- The details of an SP of a DPU. -/
def saveSp (e : DpuConfigData) (d : ℕ) (cfg : OffloadingConfig) (localSp : ℕ) : Option OffloadingConfig :=
  let gid := (cfg.dpus d).localServiceProcs localSp
  let sp := cfg.serviceProcs gid
  let port := e.interdpuPorts.getD localSp 0
  let interspPort := e.interdpuPorts.getD (sp.idx % cfg.numServiceProcsPerDpu) 0
  let hostPort := e.hostPorts.getD localSp 0
  if sp.connParams.isSome ∧ 0 < port ∧ 0 < interspPort ∧ 0 < hostPort then
    some { cfg with
      serviceProcs := Function.update cfg.serviceProcs gid { sp with connParams := some ⟨e.addr, interspPort⟩ }
      spsConfig := Function.update cfg.spsConfig cfg.numServiceProcsConfigured ⟨e.hostname, interspPort, hostPort⟩
      numServiceProcsConfigured := cfg.numServiceProcsConfigured + 1 }
  else none

/-- The details of the SP itself, when the DPU is its own. -/
def saveLocal (e : DpuConfigData) (i hostUid : ℕ) : Option OffloadingConfig :=
  let gid := if cfg.globalId = UINT64_MAX then i else cfg.globalId
  let interspPort := e.interdpuPorts.getD cfg.localId 0
  let hostPort := e.hostPorts.getD cfg.localId 0
  if (cfg.globalId = UINT64_MAX → cfg.localId = 0) ∧ cfg.localId ≠ UINT64_MAX ∧ gid ≠ UINT64_MAX ∧
      cfg.numServiceProcsPerDpu ≠ 0 ∧ cfg.numServiceProcsPerDpu ≠ UINT64_MAX ∧ 0 < interspPort ∧ 0 < hostPort ∧
      cfg.dpu ≤ cfg.numDpus then
    some { cfg with
      hostUid := hostUid
      globalId := gid
      serviceProcFound := cfg.serviceProcFound || decide (gid < sizeT (cfg.numServiceProcsPerDpu * (i + 1) : ℕ))
      interServiceProcsConnParams := ⟨e.addr, interspPort⟩
      hostConnParams := ⟨e.addr, hostPort⟩ }
  else none

/-- The number of SPs of a DPU may not have been given: then the number of ports says it. -/
def adjustPerDpu (e : DpuConfigData) : OffloadingConfig :=
  if cfg.numServiceProcsPerDpu = 1 ∧ e.numInterdpuPorts ≠ 1 then
    { cfg with numServiceProcsPerDpu := e.numInterdpuPorts }
  else cfg

/-- The details of the SPs of a DPU, one after the other. -/
def saveSps (e : DpuConfigData) (d : ℕ) : OffloadingConfig → List ℕ → Option OffloadingConfig
  | cfg, [] => some cfg
  | cfg, l :: ls => (saveSp e d cfg l).bind fun cfg => saveSps e d cfg ls

/-- What is kept of a DPU, once its description is parsed. -/
def saveDpu (e : DpuConfigData) (i d hostUid : ℕ) : Option OffloadingConfig :=
  let cfg := { cfg with dpusConfig := Function.update cfg.dpusConfig i e }
  let cfg := cfg.adjustPerDpu e
  (saveSps e d cfg (List.range cfg.numServiceProcsPerDpu)).bind fun cfg =>
    if isLocal cfg.hostname (e.hostname.getD []) then cfg.saveLocal e i hostUid else some cfg

end OffloadingConfig

/-- The state of the loop over a line. -/
structure LineState where
  /-- The configuration. -/
  cfg : OffloadingConfig
  /-- `last_host`. -/
  lastHost : ℕ

/-- How the loop goes on: an error ends the line. -/
inductive LineStep where
  /-- With the next token. -/
  | go (st : LineState)
  /-- Not at all. -/
  | stop (cfg : OffloadingConfig)

namespace LineState

/-- `UNKNOWN_HOST`. -/
def unknownHost : ℕ := UINT64_MAX

/-- The body of the loop of `parse_line_dpu_version_1`. A host is added unless the DPU before, in
the same line, has the same name. -/
def parseToken (host : CStr) (st : LineState) (token : CStr) : Option LineStep :=
  match st.cfg.findConfig token with
  | none => some (.go st)
  | some i =>
    let name := (st.cfg.dpusConfig i).hostname.getD []
    let st := if hashHostname name ≠ st.lastHost then ⟨st.cfg.addHost host, hashHostname name⟩ else st
    match st.cfg.findDpu name with
    | none => some (.stop st.cfg)
    | some d =>
      (parsedDpu token (st.cfg.dpusConfig i)).bind fun e =>
        (st.cfg.saveDpu e i d (hashHostname host)).map fun cfg => .go { st with cfg := cfg }

/-- The loop. -/
def parseTokens (host : CStr) (st : LineState) : List CStr → Option OffloadingConfig
  | [] => some st.cfg
  | t :: ts =>
    match st.parseToken host t with
    | none => none
    | some (.stop cfg) => some cfg
    | some (.go st) => st.parseTokens host ts

end LineState

namespace OffloadingConfig

/-- `parse_line_dpu_version_1`. -/
def parseLineDpuVersion1 (cfg : OffloadingConfig) (line : CStr) : Option OffloadingConfig :=
  match strtok ',' line with
  | host :: token :: tokens => LineState.parseTokens host ⟨cfg, LineState.unknownHost⟩ (token :: tokens)
  | _ => none

/-- `parse_line_for_dpu_cfg`: another version is not supported. -/
def parseLineForDpuCfg (version : ℤ) (cfg : OffloadingConfig) (line : CStr) : Option OffloadingConfig :=
  if version = 1 then cfg.parseLineDpuVersion1 line else some cfg

/-- The loop over the lines. -/
def parseDpuLines (version : ℤ) : OffloadingConfig → List CStr → Option OffloadingConfig
  | cfg, [] => some cfg
  | cfg, l :: ls =>
    if lineIsComment l then parseDpuLines version cfg ls
    else (cfg.parseLineForDpuCfg version l).bind fun cfg => parseDpuLines version cfg ls

/-- `find_dpu_config_from_platform_configfile`. -/
def findDpuConfigFromPlatformConfigfile (content : CStr) (cfg : OffloadingConfig) : Option OffloadingConfig :=
  match strtok '\n' content with
  | [] => none
  | l :: ls => (checkConfigFileVersion l).bind fun v => if v ≤ 0 then none else cfg.parseDpuLines v ls

/-- What `connect_to_remote_service_proc` connects to: the address and the port. -/
def connectToRemoteServiceProc (cfg : OffloadingConfig) (targetSpGid : ℕ) : Option (CStr × ℤ) :=
  let sp := cfg.serviceProcs targetSpGid
  let spConfig := cfg.spsConfig sp.globalId
  match sp.connParams with
  | none => none
  | some p =>
    p.addrStr.bind fun addr =>
      if p.port ≠ -1 ∧ 0 < spConfig.interspPort then some (addr, spConfig.interspPort) else none

end OffloadingConfig

/-! ### The parser of a host -/

/-- What a process of a host keeps of the file: the hosts, and whether its own was found. -/
structure HostSideConfig where
  /-- `hosts_config`. -/
  hostsConfig : ℕ → HostInfo
  /-- `num_hosts` and `host_lookup_table`. -/
  hosts : HostsConfig
  /-- `dpus_config[0]`. -/
  dpuConfig : DpuConfigData
  /-- `num_dpus`. -/
  numDpus : ℕ
  /-- `num_dpus_per_host`. -/
  numDpusPerHost : ℕ
  /-- `host_index`. -/
  hostIndex : ℕ

namespace HostSideConfig

/-- `INIT_DPU_CONFIG_DATA`. -/
def init : HostSideConfig where
  hostsConfig _ := ⟨none, 0, 0⟩
  hosts := ⟨0, []⟩
  dpuConfig := ⟨none, none, 0, [], []⟩
  numDpus := 0
  numDpusPerHost := 0
  hostIndex := 0

/-- `add_host_to_config`; the number of hosts is counted by the caller. -/
def addHostToConfig (cfg : HostSideConfig) (hostname : CStr) : HostSideConfig :=
  let idx := cfg.hosts.numHosts
  { cfg with
    hostsConfig := Function.update cfg.hostsConfig idx ⟨some hostname, hashHostname hostname, idx⟩
    hosts := ⟨idx, (hashHostname hostname, idx) :: cfg.hosts.hostLookupTable⟩ }

/-- The DPUs of the host itself. -/
def parseDpus : HostSideConfig → List CStr → Option HostSideConfig
  | cfg, [] => some { cfg with hostIndex := cfg.hosts.numHosts }
  | cfg, t :: ts =>
    (parsedDpu t cfg.dpuConfig).bind fun e =>
      parseDpus { cfg with dpuConfig := e, numDpus := cfg.numDpus + 1, numDpusPerHost := cfg.numDpusPerHost + 1 } ts

/-- `parse_line_version_1`. -/
def parseLineVersion1 (target : CStr) (cfg : HostSideConfig) (line : CStr) : Option HostSideConfig :=
  match strtok ',' line with
  | [] => none
  | host :: dpus =>
    let cfg := cfg.addHostToConfig host
    if OffloadingConfig.isLocal target host then cfg.parseDpus dpus else some cfg

/-- `parse_line`. -/
def parseLine (target : CStr) (version : ℤ) (cfg : HostSideConfig) (line : CStr) : Option HostSideConfig :=
  if version = 1 then cfg.parseLineVersion1 target line else some cfg

/-- `data->num_hosts++`. -/
def countHost (cfg : HostSideConfig) : HostSideConfig :=
  { cfg with hosts := { cfg.hosts with numHosts := cfg.hosts.numHosts + 1 } }

/-- The loop over the lines. -/
def parseLines (target : CStr) (version : ℤ) : HostSideConfig → List CStr → Option HostSideConfig
  | cfg, [] => some cfg
  | cfg, l :: ls =>
    if lineIsComment l then parseLines target version cfg ls
    else (cfg.parseLine target version l).bind fun cfg => parseLines target version cfg.countHost ls

/-- `getline`, until the end: a line comes with the character that ends it. -/
def getlines (content : CStr) : List CStr :=
  let pieces := content.splitOn '\n'
  (pieces.dropLast.map (· ++ ['\n'])) ++ pieces.getLast?.toList.filter (· ≠ [])

/-- `find_config_from_platform_configfile`. -/
def findConfigFromPlatformConfigfile (content target : CStr) (cfg : HostSideConfig) : Option HostSideConfig :=
  match getlines content with
  | [] => some cfg
  | l :: ls => (checkConfigFileVersion l).bind fun v => if v ≤ 0 then none else cfg.parseLines target v ls

end HostSideConfig

end DpuOffload
