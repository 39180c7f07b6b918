import DpuOffload.Cache.Types
import DpuOffload.Cache.Topology
import Mathlib.Logic.Function.Basic

/-!
# The configuration of a process

`offloading_config_t` (`dpu_offload_types.h`) with the part of the engine that is filled
together with it, as far as parsing the list of DPUs and the configuration file goes.

A dynamic array is a function: it grows where it is read, and memory it got is all zero. A
counter is of type `size_t` (`sizeT`). A string is a list of characters, without the zero at
its end; a pointer to a string is `none` where it is `NULL`.

The build is the default one, with `NDEBUG`: the checks (`assert`, `CHECK_ERR_RETURN` and `CHECK_ERR_GOTO`) are
compiled out. The parsers of lines and files are followed as far as each of them would pass, where the debug build does
the same; where one would fail the result is `none`, as it is where a null pointer is followed. The parser of an entry
(`parse_dpu_cfg`) is followed in every case.
-/

namespace DpuOffload

/-! ### Strings -/

/-- A string of C. -/
abbrev CStr := List Char

/-- `strtok`: the pieces between separators, those that are not empty. -/
def strtok (sep : Char) (s : CStr) : List CStr := (s.splitOn sep).filter (· ≠ [])

/-- `strncmp(a, b, n) == 0`. -/
def strncmp (a b : CStr) (n : ℕ) : Bool := a.take n = b.take n

/-- One round of a hash, of type `uint64_t`. -/
def hashRound (h x : ℕ) : ℕ := ((h <<< 5) + h + x) % 2 ^ 64

theorem hashRound_eq (h x : ℕ) : hashRound h x = (33 * h + x) % 2 ^ 64 := by
  rw [hashRound, Nat.shiftLeft_eq]
  congr 1
  omega

/-- `HASH_HOSTNAME`; the characters of a name are ASCII. -/
def hashHostname (s : CStr) : ℕ := s.foldl (fun h c => hashRound h c.toNat) 5381

/-! ### What is known of DPUs, SPs and hosts -/

/-- `conn_params_t`. -/
structure ConnParams where
  /-- `addr_str`. -/
  addrStr : Option CStr
  /-- The port. -/
  port : ℤ
  deriving DecidableEq, Repr

/-- `RESET_CONN_PARAMS`. -/
def ConnParams.reset : ConnParams := ⟨none, -1⟩

/-- `remote_service_proc_info_t`. -/
structure RemoteServiceProcInfo where
  /-- Index in the engine's list. -/
  idx : ℕ
  /-- Index of its DPU. -/
  dpuIdx : ℕ
  /-- Id on its DPU. -/
  localId : ℕ
  /-- Global id. -/
  globalId : ℕ
  /-- `init_params.conn_params`. -/
  connParams : Option ConnParams
  deriving DecidableEq, Repr

/-- `remote_dpu_info_t`. -/
structure RemoteDpuInfo where
  /-- Index in the engine's list. -/
  idx : ℕ
  /-- Its name. -/
  hostname : Option CStr
  /-- The global ids of its SPs. -/
  localServiceProcs : ℕ → ℕ

/-- `dpu_config_data_t`. -/
structure DpuConfigData where
  /-- The name. -/
  hostname : Option CStr
  /-- The address. -/
  addr : Option CStr
  /-- `num_interdpu_ports`. -/
  numInterdpuPorts : ℕ
  /-- The ports SPs connect to. -/
  interdpuPorts : List ℤ
  /-- The ports hosts connect to. -/
  hostPorts : List ℤ
  deriving DecidableEq, Repr

/-- `service_proc_config_data_t`. -/
structure ServiceProcConfigData where
  /-- The name of the DPU. -/
  hostname : Option CStr
  /-- The port SPs connect to. -/
  interspPort : ℤ
  /-- The port hosts connect to. -/
  hostPort : ℤ
  deriving DecidableEq, Repr

/-- `host_info_t`. -/
structure HostInfo where
  /-- The name. -/
  hostname : Option CStr
  /-- Its hash. -/
  uid : ℕ
  /-- Index in the configuration. -/
  idx : ℕ
  deriving DecidableEq, Repr

/-- `offloading_config_t`, with the engine's lists. -/
structure OffloadingConfig where
  /-- `local_service_proc.hostname`. -/
  hostname : CStr
  /-- `local_service_proc.info.global_id`. -/
  globalId : ℕ
  /-- `local_service_proc.info.local_id`. -/
  localId : ℕ
  /-- `local_service_proc.info.dpu`. -/
  dpu : ℕ
  /-- `local_service_proc.host_uid`. -/
  hostUid : ℕ
  /-- `local_service_proc.inter_service_procs_conn_params`. -/
  interServiceProcsConnParams : ConnParams
  /-- `local_service_proc.host_conn_params`. -/
  hostConnParams : ConnParams
  /-- `num_service_procs_per_dpu`. -/
  numServiceProcsPerDpu : ℕ
  /-- `service_proc_found`. -/
  serviceProcFound : Bool
  /-- `num_connecting_service_procs`. -/
  numConnectingServiceProcs : ℕ
  /-- `info_connecting_to.sps_connect_to`. -/
  spsConnectTo : List ℕ
  /-- `info_connecting_to.num_dpus`. -/
  numDpusConnectTo : ℕ
  /-- `num_dpus`. -/
  numDpus : ℕ
  /-- `num_service_procs`, of the engine too. -/
  numServiceProcs : ℕ
  /-- `num_service_procs_configured`. -/
  numServiceProcsConfigured : ℕ
  /-- `dpus_config`. -/
  dpusConfig : ℕ → DpuConfigData
  /-- `sps_config`. -/
  spsConfig : ℕ → ServiceProcConfigData
  /-- `hosts_config`. -/
  hostsConfig : ℕ → HostInfo
  /-- `num_hosts` and `host_lookup_table`. -/
  hosts : HostsConfig
  /-- The engine's list of DPUs. -/
  dpus : ℕ → RemoteDpuInfo
  /-- The engine's list of SPs. -/
  serviceProcs : ℕ → RemoteServiceProcInfo

/-- `INIT_DPU_CONFIG_DATA`, and the name of the machine. -/
def OffloadingConfig.init (hostname : CStr) : OffloadingConfig where
  hostname := hostname
  globalId := UINT64_MAX
  localId := UINT64_MAX
  dpu := UINT64_MAX
  hostUid := UINT64_MAX
  interServiceProcsConnParams := .reset
  hostConnParams := .reset
  numServiceProcsPerDpu := 0
  serviceProcFound := false
  numConnectingServiceProcs := 0
  spsConnectTo := []
  numDpusConnectTo := 0
  numDpus := 0
  numServiceProcs := 0
  numServiceProcsConfigured := 0
  dpusConfig _ := ⟨none, none, 0, [], []⟩
  spsConfig _ := ⟨none, 0, 0⟩
  hostsConfig _ := ⟨none, 0, 0⟩
  hosts := ⟨0, []⟩
  dpus _ := ⟨0, none, fun _ => 0⟩
  serviceProcs _ := ⟨0, 0, 0, 0, none⟩

end DpuOffload
