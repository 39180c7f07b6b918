import DpuOffload.Config.Data
import Mathlib.Data.List.Induction
import Mathlib.Data.List.Range

/-!
# The list of DPUs

`dpu_offload_parse_list_dpus` (`inter_dpus_comm.c`): from the list of the DPUs of a job, and the
ids it was given, an SP finds the SPs that connect to it and those it connects to. The SPs of
the DPUs listed before its own connect to it, it connects to those of the DPUs listed after;
on its own DPU the ids decide. A check that would fail is `none`.

* `ListedSp.parse_eq` — what an SP finds, for every list in which its DPU is matched once:
  as many SPs connect to it as its global id says, and it connects to all the others.
-/

namespace DpuOffload

/-- The environment of an SP: the list of DPUs, and the variables about ids, as numbers. -/
structure SpEnv where
  /-- `list_dpus`. -/
  listDpus : CStr
  /-- `global_id_str`. -/
  globalId : Option ℕ
  /-- `local_id_str`. -/
  localId : Option ℕ
  /-- `num_service_procs_per_dpu_str`. -/
  numServiceProcsPerDpu : Option ℕ
  deriving DecidableEq, Repr

namespace OffloadingConfig

/-- Does a name of the list stand for this machine? -/
def isLocal (hostname token : CStr) : Bool := strncmp token hostname token.length

variable (cfg : OffloadingConfig)

/-- The first part: the ids. One of the variables calls for the next one. -/
def parseIds (env : SpEnv) : Option OffloadingConfig :=
  let cfg :=
    match env.globalId with
    | none => { cfg with globalId := UINT64_MAX, localId := 0, numServiceProcsPerDpu := 1 }
    | some g => { cfg with globalId := g }
  if env.globalId.isSome ∧ env.localId.isNone ∨ env.localId.isSome ∧ env.numServiceProcsPerDpu.isNone then none
  else some { cfg with
    localId := env.localId.getD cfg.localId
    numServiceProcsPerDpu := env.numServiceProcsPerDpu.getD cfg.numServiceProcsPerDpu }

/-- The global id of an SP of a DPU. -/
def spGid (dpuIdx spIndex : ℕ) : ℕ := sizeT (dpuIdx * cfg.numServiceProcsPerDpu + spIndex : ℕ)

/-- The body of the loop of `add_local_sps_to_dpu_config`. -/
def addLocalSp (dpuIdx : ℕ) (cfg : OffloadingConfig) (spIndex : ℕ) : OffloadingConfig :=
  let gid := cfg.spGid dpuIdx spIndex
  let dpu := cfg.dpus dpuIdx
  { cfg with
    serviceProcs := Function.update cfg.serviceProcs gid ⟨gid, dpuIdx, spIndex, gid, some .reset⟩
    dpus := Function.update cfg.dpus dpuIdx
      { dpu with localServiceProcs := Function.update dpu.localServiceProcs spIndex gid } }

/-- `add_local_sps_to_dpu_config`. -/
def addLocalSpsToDpuConfig (dpuIdx : ℕ) : OffloadingConfig :=
  (List.range cfg.numServiceProcsPerDpu).foldl (addLocalSp dpuIdx) cfg

/-- `SET_REMOTE_SP_TO_CONNECT_TO`. -/
def setRemoteSpToConnectTo (cfg : OffloadingConfig) (gid : ℕ) : OffloadingConfig :=
  { cfg with spsConnectTo := cfg.spsConnectTo ++ [gid] }

/-- `SET_SERVICE_PROC_TO_CONNECT_TO`. -/
def setServiceProcToConnectTo (dpuIdx : ℕ) : OffloadingConfig :=
  let cfg := (List.range cfg.numServiceProcsPerDpu).foldl (fun c s => c.setRemoteSpToConnectTo (c.spGid dpuIdx s)) cfg
  { cfg with numDpusConnectTo := cfg.numDpusConnectTo + 1 }

/-- The entries of a DPU of the list. -/
def addDpu (token : CStr) : OffloadingConfig :=
  let idx := cfg.numDpus
  let cfg := { cfg with
    dpusConfig := Function.update cfg.dpusConfig idx { cfg.dpusConfig idx with hostname := some token }
    dpus := Function.update cfg.dpus idx ⟨idx, some token, fun _ => 0⟩ }
  cfg.addLocalSpsToDpuConfig idx

/-- The DPU of the SP itself. -/
def setLocalDpu : OffloadingConfig :=
  let idx := cfg.numDpus
  let cfg := { cfg with
    dpu := idx
    globalId := if cfg.globalId = UINT64_MAX then idx else cfg.globalId
    dpus := Function.update cfg.dpus idx { cfg.dpus idx with idx := idx, hostname := some cfg.hostname } }
  let nSpConnectingTo := sizeT ((cfg.numServiceProcsPerDpu : ℤ) - cfg.localId - 1)
  (List.range nSpConnectingTo).foldl (fun c s => c.setRemoteSpToConnectTo (sizeT (c.globalId + s + 1 : ℕ))) cfg

end OffloadingConfig

/-- The state of the loop over the list. -/
structure ListState where
  /-- The configuration. -/
  cfg : OffloadingConfig
  /-- Is the DPU of the SP still to come? -/
  pre : Bool
  /-- How many SPs connect to this one. -/
  nConnectingFrom : ℕ

namespace ListState

/-- The body of the loop. -/
def parseToken (st : ListState) (token : CStr) : Option ListState :=
  let idx := st.cfg.numDpus
  if st.cfg.numServiceProcsPerDpu = 0 then none
  else
    let cfg := st.cfg.addDpu token
    if OffloadingConfig.isLocal cfg.hostname token then
      let cfg := cfg.setLocalDpu
      some ⟨{ cfg with numDpus := idx + 1 }, false, sizeT (st.nConnectingFrom + cfg.localId : ℕ)⟩
    else if st.pre then
      some ⟨{ cfg with numDpus := idx + 1 }, true, sizeT (st.nConnectingFrom + cfg.numServiceProcsPerDpu : ℕ)⟩
    else
      let cfg := cfg.setServiceProcToConnectTo idx
      some ⟨{ cfg with numDpus := idx + 1 }, false, st.nConnectingFrom⟩

/-- The loop. -/
def parseTokens (st : ListState) : List CStr → Option ListState
  | [] => some st
  | t :: ts => (st.parseToken t).bind fun st => st.parseTokens ts

end ListState

/-- `dpu_offload_parse_list_dpus`. -/
def parseListDpus (env : SpEnv) (cfg : OffloadingConfig) : Option OffloadingConfig :=
  (cfg.parseIds env).bind fun cfg =>
    (ListState.parseTokens ⟨cfg, true, 0⟩ (strtok ',' env.listDpus)).map fun st =>
      { st.cfg with
        numConnectingServiceProcs := if st.pre then 0 else st.nConnectingFrom
        numServiceProcs := sizeT (st.cfg.numDpus * st.cfg.numServiceProcsPerDpu : ℕ) }

/-! ### One DPU of the list -/

namespace OffloadingConfig

variable (cfg : OffloadingConfig)

/-- What the loops over the SPs of a DPU append. -/
theorem foldl_setRemoteSp (f : ℕ → ℕ) (l : List ℕ) {step : OffloadingConfig → ℕ → OffloadingConfig}
    (hstep : ∀ c s, c.numServiceProcsPerDpu = cfg.numServiceProcsPerDpu → c.globalId = cfg.globalId →
      step c s = c.setRemoteSpToConnectTo (f s)) :
    l.foldl step cfg = { cfg with spsConnectTo := cfg.spsConnectTo ++ l.map f } := by
  induction l using List.reverseRec with
  | nil => simp
  | append_singleton l s ih =>
    rw [List.foldl_append, ih, List.foldl_cons, List.foldl_nil]
    rw [hstep { cfg with spsConnectTo := cfg.spsConnectTo ++ l.map f } s rfl rfl]
    simp [setRemoteSpToConnectTo]

theorem setServiceProcToConnectTo_eq (i : ℕ) :
    cfg.setServiceProcToConnectTo i = { cfg with
      spsConnectTo := cfg.spsConnectTo ++ (List.range cfg.numServiceProcsPerDpu).map (cfg.spGid i)
      numDpusConnectTo := cfg.numDpusConnectTo + 1 } := by
  rw [setServiceProcToConnectTo, foldl_setRemoteSp cfg (cfg.spGid i)]
  intro c s hc _
  rw [spGid, spGid, hc]

/-- The entries of a DPU are in three tables. -/
theorem addDpu_frame (token : CStr) :
    ∃ a b c, cfg.addDpu token = { cfg with dpusConfig := a, dpus := b, serviceProcs := c } := by
  have hfold (l : List ℕ) (i : ℕ) (c₀ : OffloadingConfig) :
      ∃ b c, l.foldl (addLocalSp i) c₀ = { c₀ with dpus := b, serviceProcs := c } := by
    induction l generalizing c₀ with
    | nil => exact ⟨_, _, rfl⟩
    | cons s l ih =>
      obtain ⟨b, c, h⟩ := ih (addLocalSp i c₀ s)
      exact ⟨b, c, h⟩
  obtain ⟨b, c, h⟩ := hfold (List.range cfg.numServiceProcsPerDpu) cfg.numDpus
    { cfg with
      dpusConfig := Function.update cfg.dpusConfig cfg.numDpus
        { cfg.dpusConfig cfg.numDpus with hostname := some token }
      dpus := Function.update cfg.dpus cfg.numDpus ⟨cfg.numDpus, some token, fun _ => 0⟩ }
  exact ⟨_, b, c, h⟩

/-- What an SP does at its own DPU. -/
theorem setLocalDpu_eq :
    cfg.setLocalDpu = { cfg with
      dpu := cfg.numDpus
      globalId := if cfg.globalId = UINT64_MAX then cfg.numDpus else cfg.globalId
      dpus := Function.update cfg.dpus cfg.numDpus
        { cfg.dpus cfg.numDpus with idx := cfg.numDpus, hostname := some cfg.hostname }
      spsConnectTo := cfg.spsConnectTo ++
        (List.range (sizeT ((cfg.numServiceProcsPerDpu : ℤ) - cfg.localId - 1))).map fun s =>
          sizeT ((if cfg.globalId = UINT64_MAX then cfg.numDpus else cfg.globalId) + s + 1 : ℕ) } := by
  refine foldl_setRemoteSp _ (fun s => sizeT (_ + s + 1 : ℕ)) _ fun c s _ hg => ?_
  rw [hg]

end OffloadingConfig

/-! ### The loop -/

namespace ListState

variable {st : ListState} {ts : List CStr}

theorem parseTokens_append (st : ListState) (ts us : List CStr) :
    st.parseTokens (ts ++ us) = (st.parseTokens ts).bind fun st => st.parseTokens us := by
  induction ts generalizing st with
  | nil => rfl
  | cons t ts ih =>
    simp only [List.cons_append, parseTokens]
    cases st.parseToken t with
    | none => rfl
    | some st' => exact ih st'

/-- What the loop does not change. -/
structure Frame (st st' : ListState) : Prop where
  hostname : st'.cfg.hostname = st.cfg.hostname
  localId : st'.cfg.localId = st.cfg.localId
  perDpu : st'.cfg.numServiceProcsPerDpu = st.cfg.numServiceProcsPerDpu
  configured : st'.cfg.numServiceProcsConfigured = st.cfg.numServiceProcsConfigured
  hosts : st'.cfg.hosts = st.cfg.hosts

/-- What the loop does not change but at the DPU of the SP. -/
structure Same (st st' : ListState) : Prop extends Frame st st' where
  globalId : st'.cfg.globalId = st.cfg.globalId
  dpu : st'.cfg.dpu = st.cfg.dpu

theorem Frame.trans {st₁ st₂ : ListState} (h : st.Frame st₁) (h' : st₁.Frame st₂) : st.Frame st₂ where
  hostname := h'.hostname.trans h.hostname
  localId := h'.localId.trans h.localId
  perDpu := h'.perDpu.trans h.perDpu
  configured := h'.configured.trans h.configured
  hosts := h'.hosts.trans h.hosts

theorem Same.refl (st : ListState) : st.Same st := ⟨⟨rfl, rfl, rfl, rfl, rfl⟩, rfl, rfl⟩

theorem Same.trans {st₁ st₂ : ListState} (h : st.Same st₁) (h' : st₁.Same st₂) : st.Same st₂ where
  toFrame := h.toFrame.trans h'.toFrame
  globalId := h'.globalId.trans h.globalId
  dpu := h'.dpu.trans h.dpu

/-- A DPU listed before that of the SP. -/
theorem parseToken_before {t : CStr} (ht : OffloadingConfig.isLocal st.cfg.hostname t = false) (hpre : st.pre = true)
    (hS : st.cfg.numServiceProcsPerDpu ≠ 0) (hfit : st.nConnectingFrom + st.cfg.numServiceProcsPerDpu < 2 ^ 64) :
    ∃ st', st.parseToken t = some st' ∧ st.Same st' ∧ st'.pre = true ∧
      st'.nConnectingFrom = st.nConnectingFrom + st.cfg.numServiceProcsPerDpu ∧
      st'.cfg.spsConnectTo = st.cfg.spsConnectTo ∧ st'.cfg.numDpus = st.cfg.numDpus + 1 := by
  obtain ⟨a, b, c, hadd⟩ := st.cfg.addDpu_frame t
  simp only [parseToken, hS, hadd, ht, hpre, if_false, if_true, Bool.false_eq_true]
  exact ⟨_, rfl, ⟨⟨rfl, rfl, rfl, rfl, rfl⟩, rfl, rfl⟩, rfl, sizeT_natCast hfit, rfl, rfl⟩

/-- **Before the DPU of the SP**: the SPs of those DPUs connect to it. -/
theorem parseTokens_before (hts : ∀ t ∈ ts, OffloadingConfig.isLocal st.cfg.hostname t = false) (hpre : st.pre = true)
    (hS : st.cfg.numServiceProcsPerDpu ≠ 0)
    (hfit : st.nConnectingFrom + ts.length * st.cfg.numServiceProcsPerDpu < 2 ^ 64) :
    ∃ st', st.parseTokens ts = some st' ∧ st.Same st' ∧ st'.pre = true ∧
      st'.nConnectingFrom = st.nConnectingFrom + ts.length * st.cfg.numServiceProcsPerDpu ∧
      st'.cfg.spsConnectTo = st.cfg.spsConnectTo ∧ st'.cfg.numDpus = st.cfg.numDpus + ts.length := by
  induction ts generalizing st with
  | nil => exact ⟨st, rfl, .refl st, hpre, by simp, rfl, rfl⟩
  | cons t ts ih =>
    have hmul : (t :: ts).length * st.cfg.numServiceProcsPerDpu =
        st.cfg.numServiceProcsPerDpu + ts.length * st.cfg.numServiceProcsPerDpu := by
      rw [List.length_cons, Nat.succ_mul, Nat.add_comm]
    rw [hmul] at hfit ⊢
    obtain ⟨st₁, hstep, hsame, hpre₁, hn₁, hto₁, hd₁⟩ :=
      parseToken_before (hts t List.mem_cons_self) hpre hS (by omega)
    obtain ⟨st', hrun, hsame', hpre', hn, hto, hd⟩ := @ih st₁
      (fun u hu => hsame.hostname ▸ hts u (List.mem_cons_of_mem _ hu)) hpre₁ (hsame.perDpu ▸ hS)
      (by rw [hsame.perDpu, hn₁]; omega)
    refine ⟨st', ?_, hsame.trans hsame', hpre', ?_, hto.trans hto₁, ?_⟩
    · rw [parseTokens, hstep]
      exact hrun
    · rw [hn, hn₁, hsame.perDpu, Nat.add_assoc]
    · rw [hd, hd₁, List.length_cons]
      omega

/-- The ids of the SPs of a DPU, when they fit. -/
theorem map_spGid (cfg : OffloadingConfig) {i : ℕ} (hfit : (i + 1) * cfg.numServiceProcsPerDpu < 2 ^ 64) :
    (List.range cfg.numServiceProcsPerDpu).map (cfg.spGid i) =
      List.range' (i * cfg.numServiceProcsPerDpu) cfg.numServiceProcsPerDpu := by
  rw [List.range'_eq_map_range]
  refine List.map_congr_left fun s hs => sizeT_natCast ?_
  rw [Nat.succ_mul] at hfit
  have := List.mem_range.1 hs
  omega

/-- A DPU listed after that of the SP. -/
theorem parseToken_after {t : CStr} (ht : OffloadingConfig.isLocal st.cfg.hostname t = false) (hpre : st.pre = false)
    (hS : st.cfg.numServiceProcsPerDpu ≠ 0)
    (hfit : (st.cfg.numDpus + 1) * st.cfg.numServiceProcsPerDpu < 2 ^ 64) :
    ∃ st', st.parseToken t = some st' ∧ st.Same st' ∧ st'.pre = false ∧
      st'.nConnectingFrom = st.nConnectingFrom ∧
      st'.cfg.spsConnectTo = st.cfg.spsConnectTo ++
        List.range' (st.cfg.numDpus * st.cfg.numServiceProcsPerDpu) st.cfg.numServiceProcsPerDpu ∧
      st'.cfg.numDpus = st.cfg.numDpus + 1 := by
  obtain ⟨a, b, c, hadd⟩ := st.cfg.addDpu_frame t
  simp only [parseToken, hS, hadd, ht, hpre, if_false, Bool.false_eq_true,
    OffloadingConfig.setServiceProcToConnectTo_eq]
  refine ⟨_, rfl, ⟨⟨rfl, rfl, rfl, rfl, rfl⟩, rfl, rfl⟩, rfl, rfl, ?_, rfl⟩
  rw [← map_spGid st.cfg hfit]
  rfl

/-- **After the DPU of the SP**: it connects to the SPs of those DPUs. -/
theorem parseTokens_after (hts : ∀ t ∈ ts, OffloadingConfig.isLocal st.cfg.hostname t = false) (hpre : st.pre = false)
    (hS : st.cfg.numServiceProcsPerDpu ≠ 0)
    (hfit : (st.cfg.numDpus + ts.length) * st.cfg.numServiceProcsPerDpu < 2 ^ 64) :
    ∃ st', st.parseTokens ts = some st' ∧ st.Same st' ∧ st'.pre = false ∧
      st'.nConnectingFrom = st.nConnectingFrom ∧
      st'.cfg.spsConnectTo = st.cfg.spsConnectTo ++
        List.range' (st.cfg.numDpus * st.cfg.numServiceProcsPerDpu) (ts.length * st.cfg.numServiceProcsPerDpu) ∧
      st'.cfg.numDpus = st.cfg.numDpus + ts.length := by
  induction ts generalizing st with
  | nil => exact ⟨st, rfl, .refl st, hpre, rfl, by simp, rfl⟩
  | cons t ts ih =>
    have hfit₁ : (st.cfg.numDpus + 1) * st.cfg.numServiceProcsPerDpu < 2 ^ 64 := by
      refine lt_of_le_of_lt (Nat.mul_le_mul_right _ ?_) hfit
      rw [List.length_cons]
      omega
    obtain ⟨st₁, hstep, hsame, hpre₁, hn₁, hto₁, hd₁⟩ :=
      parseToken_after (hts t List.mem_cons_self) hpre hS hfit₁
    obtain ⟨st', hrun, hsame', hpre', hn, hto, hd⟩ := @ih st₁
      (fun u hu => hsame.hostname ▸ hts u (List.mem_cons_of_mem _ hu)) hpre₁ (hsame.perDpu ▸ hS)
      (by rw [hsame.perDpu, hd₁, Nat.add_assoc, Nat.add_comm 1]; exact hfit)
    refine ⟨st', ?_, hsame.trans hsame', hpre', hn.trans hn₁, ?_, ?_⟩
    · rw [parseTokens, hstep]
      exact hrun
    · rw [hto, hto₁, hsame.perDpu, hd₁, List.append_assoc, List.length_cons, Nat.succ_mul, Nat.succ_mul,
        Nat.add_comm (ts.length * _), ← List.range'_append_1]
    · rw [hd, hd₁, List.length_cons]
      omega

/-- **At the DPU of the SP.** -/
theorem parseToken_local {t : CStr} (ht : OffloadingConfig.isLocal st.cfg.hostname t = true)
    (hl : st.cfg.localId < st.cfg.numServiceProcsPerDpu) {g : ℕ}
    (hg : (if st.cfg.globalId = UINT64_MAX then st.cfg.numDpus else st.cfg.globalId) = g)
    (hfit : g + (st.cfg.numServiceProcsPerDpu - st.cfg.localId) < 2 ^ 64)
    (hfit' : st.nConnectingFrom + st.cfg.localId < 2 ^ 64) :
    ∃ st', st.parseToken t = some st' ∧ st.Frame st' ∧ st'.pre = false ∧ st'.cfg.globalId = g ∧
      st'.cfg.dpu = st.cfg.numDpus ∧ st'.nConnectingFrom = st.nConnectingFrom + st.cfg.localId ∧
      st'.cfg.spsConnectTo = st.cfg.spsConnectTo ++
        List.range' (g + 1) (st.cfg.numServiceProcsPerDpu - st.cfg.localId - 1) ∧
      st'.cfg.numDpus = st.cfg.numDpus + 1 := by
  obtain ⟨a, b, c, hadd⟩ := st.cfg.addDpu_frame t
  have hlocal := (st.cfg.addDpu t).setLocalDpu_eq
  have hS : st.cfg.numServiceProcsPerDpu ≠ 0 := by omega
  have hn : sizeT ((st.cfg.numServiceProcsPerDpu : ℤ) - st.cfg.localId - 1) =
      st.cfg.numServiceProcsPerDpu - st.cfg.localId - 1 := by
    rw [← sizeT_natCast (show st.cfg.numServiceProcsPerDpu - st.cfg.localId - 1 < 2 ^ 64 by omega)]
    congr 1
    omega
  rw [hadd] at hlocal
  simp only [hg, hn] at hlocal
  simp only [parseToken, hS, hadd, ht, if_false, if_true, hlocal]
  refine ⟨_, rfl, ⟨rfl, rfl, rfl, rfl, rfl⟩, rfl, rfl, rfl, sizeT_natCast hfit', ?_, rfl⟩
  dsimp only
  rw [List.range'_eq_map_range]
  congr 1
  refine List.map_congr_left fun s hs => ?_
  have hlt := List.mem_range.1 hs
  rw [sizeT_natCast (by omega)]
  omega

end ListState

/-! ### What an SP finds -/

/-- An SP of a job: its environment, its machine, and what the ids it was given say. -/
structure ListedSp where
  /-- The environment. -/
  env : SpEnv
  /-- The name of the machine. -/
  hostname : CStr
  /-- The number of SPs of a DPU. -/
  perDpu : ℕ
  /-- The number of its DPU, in the list. -/
  dpu : ℕ
  /-- Its id on the DPU. -/
  localId : ℕ
  localId_lt : localId < perDpu
  /-- The DPU is in the list. -/
  dpu_lt : dpu < (strtok ',' env.listDpus).length
  /-- The name of its DPU, and no other, stands for the machine. -/
  isLocal_iff : ∀ k t, (strtok ',' env.listDpus)[k]? = some t → (OffloadingConfig.isLocal hostname t = true ↔ k = dpu)
  /-- The ids are consistent. -/
  ids : ∃ cfg, (OffloadingConfig.init hostname).parseIds env = some cfg ∧
    (if cfg.globalId = UINT64_MAX then dpu else cfg.globalId) = dpu * perDpu + localId ∧ cfg.localId = localId ∧
    cfg.numServiceProcsPerDpu = perDpu
  /-- They are of type `uint64_t`, and the greatest value stands for none. -/
  fits : (strtok ',' env.listDpus).length * perDpu < 2 ^ 64

namespace ListedSp

variable (sp : ListedSp)

/-- The global id. -/
def globalId : ℕ := sp.dpu * sp.perDpu + sp.localId

/-- The number of SPs of the job. -/
def numSps : ℕ := (strtok ',' sp.env.listDpus).length * sp.perDpu

/-- What the SP reads from its environment. -/
def parse : Option OffloadingConfig := parseListDpus sp.env (.init sp.hostname)

theorem globalId_lt : sp.globalId < sp.numSps := by
  have h : (sp.dpu + 1) * sp.perDpu ≤ sp.numSps := Nat.mul_le_mul_right _ sp.dpu_lt
  rw [Nat.succ_mul] at h
  have := sp.localId_lt
  rw [globalId]
  omega

/-- The ids leave the rest of the configuration alone. -/
theorem parseIds_frame {cfg cfg' : OffloadingConfig} {env : SpEnv} (h : cfg.parseIds env = some cfg') :
    cfg'.hostname = cfg.hostname ∧ cfg'.numDpus = cfg.numDpus ∧ cfg'.spsConnectTo = cfg.spsConnectTo ∧
      cfg'.numServiceProcsConfigured = cfg.numServiceProcsConfigured ∧ cfg'.hosts = cfg.hosts := by
  rw [OffloadingConfig.parseIds] at h
  split at h
  · cases h
  · cases h
    cases env.globalId <;> exact ⟨rfl, rfl, rfl, rfl, rfl⟩

/-- The DPU of the SP in the list: the names before it and after it stand for other machines. -/
theorem exists_split : ∃ pre t post, strtok ',' sp.env.listDpus = pre ++ t :: post ∧ pre.length = sp.dpu ∧
    OffloadingConfig.isLocal sp.hostname t = true ∧ (∀ u ∈ pre, OffloadingConfig.isLocal sp.hostname u = false) ∧
    ∀ u ∈ post, OffloadingConfig.isLocal sp.hostname u = false := by
  have hk := sp.dpu_lt
  have hiff := sp.isLocal_iff
  generalize strtok ',' sp.env.listDpus = ts at hk hiff
  have hts : ts = ts.take sp.dpu ++ ts[sp.dpu] :: ts.drop (sp.dpu + 1) := by
    rw [List.getElem_cons_drop, List.take_append_drop]
  refine ⟨ts.take sp.dpu, ts[sp.dpu], ts.drop (sp.dpu + 1), hts, ?_, ?_, fun u hu => ?_, fun u hu => ?_⟩
  · rw [List.length_take]
    omega
  · exact (hiff sp.dpu _ (List.getElem?_eq_getElem hk)).2 rfl
  · obtain ⟨k, hk', rfl⟩ := List.mem_take_iff_getElem.1 hu
    rw [Bool.eq_false_iff]
    intro hu'
    have := (hiff k _ (List.getElem?_eq_getElem _)).1 hu'
    omega
  · obtain ⟨k, hk', rfl⟩ := List.mem_drop_iff_getElem.1 hu
    rw [Bool.eq_false_iff]
    intro hu'
    have := (hiff _ _ (List.getElem?_eq_getElem _)).1 hu'
    omega

/-- **What an SP finds.** The SPs with a lower id connect to it, and it connects to those with a higher id,
in their order. -/
structure Parsed (cfg : OffloadingConfig) : Prop where
  globalId : cfg.globalId = sp.globalId
  localId : cfg.localId = sp.localId
  dpu : cfg.dpu = sp.dpu
  hostname : cfg.hostname = sp.hostname
  numConnecting : cfg.numConnectingServiceProcs = sp.globalId
  connectTo : cfg.spsConnectTo = List.range' (sp.globalId + 1) (sp.numSps - (sp.globalId + 1))
  numSps : cfg.numServiceProcs = sp.numSps
  configured : cfg.numServiceProcsConfigured = 0
  hosts : cfg.hosts = ⟨0, []⟩

theorem parse_eq : ∃ cfg, sp.parse = some cfg ∧ sp.Parsed cfg := by
  obtain ⟨cfg, hcfg, hg, hl, hS⟩ := sp.ids
  obtain ⟨hhost, hnum, hto, hconf, hhosts⟩ := parseIds_frame hcfg
  have hhost : cfg.hostname = sp.hostname := hhost
  have hnum : cfg.numDpus = 0 := hnum
  have hto : cfg.spsConnectTo = [] := hto
  obtain ⟨pre, t, post, hts, hlen, hlocal, hpre, hpost⟩ := sp.exists_split
  have hl' := sp.localId_lt
  have hD : sp.numSps = (sp.dpu + 1 + post.length) * sp.perDpu := by
    rw [numSps, hts, List.length_append, List.length_cons, hlen]
    congr 1
    omega
  have hsplit : sp.numSps = (sp.dpu + 1) * sp.perDpu + post.length * sp.perDpu := by rw [hD, Nat.add_mul]
  have hfits : sp.numSps < 2 ^ 64 := sp.fits
  have hsum : sp.globalId + (sp.perDpu - sp.localId) = (sp.dpu + 1) * sp.perDpu := by
    rw [globalId, Nat.succ_mul]
    omega
  have hgid : sp.dpu * sp.perDpu + sp.localId = sp.globalId := rfl
  -- the DPUs before
  obtain ⟨st₁, hrun₁, hsame₁, hpre₁, hn₁, hto₁, hd₁⟩ :=
    @ListState.parseTokens_before ⟨cfg, true, 0⟩ pre (by rw [hhost]; exact hpre) rfl (by dsimp only; omega)
      (by dsimp only; rw [hS, hlen]; omega)
  rw [hlen, hS, Nat.zero_add] at hn₁
  rw [hlen, hnum, Nat.zero_add] at hd₁
  -- its own
  obtain ⟨st₂, hstep, hframe₂, hpre₂, hg₂, hdpu₂, hn₂, hto₂, hd₂⟩ :=
    @ListState.parseToken_local st₁ t (by rw [hsame₁.hostname, hhost]; exact hlocal)
      (by rw [hsame₁.localId, hsame₁.perDpu, hl, hS]; exact hl') sp.globalId
      (by rw [hsame₁.globalId, hd₁]; exact hg) (by rw [hsame₁.localId, hsame₁.perDpu, hl, hS]; omega)
      (by rw [hsame₁.localId, hl, hn₁]; omega)
  have hframe := hsame₁.toFrame.trans hframe₂
  have hS₂ : st₂.cfg.numServiceProcsPerDpu = sp.perDpu := hframe.perDpu.trans hS
  rw [hn₁, hsame₁.localId, hl, hgid] at hn₂
  rw [hto₁, hto, List.nil_append, hsame₁.perDpu, hsame₁.localId, hS, hl] at hto₂
  rw [hd₁] at hd₂
  -- the DPUs after
  obtain ⟨st₃, hrun₃, hsame₃, hpre₃, hn₃, hto₃, hd₃⟩ :=
    @ListState.parseTokens_after st₂ post (by rw [hframe.hostname, hhost]; exact hpost) hpre₂
      (by rw [hS₂]; omega) (by rw [hS₂, hd₂, ← hD]; exact hfits)
  have hall := hframe.trans hsame₃.toFrame
  rw [hS₂, hd₂] at hto₃
  have hrun : ListState.parseTokens ⟨cfg, true, 0⟩ (strtok ',' sp.env.listDpus) = some st₃ := by
    rw [hts, ListState.parseTokens_append, hrun₁]
    change (st₁.parseToken t).bind _ = _
    rw [hstep]
    exact hrun₃
  refine ⟨{ st₃.cfg with
      numConnectingServiceProcs := if st₃.pre then 0 else st₃.nConnectingFrom
      numServiceProcs := sizeT (st₃.cfg.numDpus * st₃.cfg.numServiceProcsPerDpu : ℕ) }, ?_, ?_⟩
  · rw [parse, parseListDpus, hcfg, Option.bind_some, hrun]
    rfl
  constructor
  case globalId => exact hsame₃.globalId.trans hg₂
  case localId => exact hall.localId.trans hl
  case dpu => exact hsame₃.dpu.trans (hdpu₂.trans hd₁)
  case hostname => exact hall.hostname.trans hhost
  case numConnecting =>
    dsimp only
    rw [hpre₃, hn₃, hn₂]
    rfl
  case connectTo =>
    dsimp only
    have hstart : (sp.dpu + 1) * sp.perDpu = sp.globalId + 1 + (sp.perDpu - sp.localId - 1) := by omega
    rw [hto₃, hto₂, hstart, List.range'_append_1]
    congr 1
    omega
  case numSps =>
    dsimp only
    rw [hd₃, hsame₃.perDpu, hS₂, hd₂, ← hD, sizeT_natCast hfits]
  case configured => exact hall.configured.trans hconf
  case hosts => exact hall.hosts.trans hhosts

end ListedSp

end DpuOffload
