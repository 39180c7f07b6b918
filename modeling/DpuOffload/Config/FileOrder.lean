import DpuOffload.Config.FullMesh
import DpuOffload.Config.Tables
import Mathlib.Data.List.Find
import Mathlib.Data.List.Perm.Basic

/-!
# The order of the configuration file

An SP keeps the ports of the SPs of a job in `sps_config`, in the order in which the file
describes the DPUs, and reads them by global id, which follows the list of DPUs.

* `file_order_iff` — **the addresses and ports are right** exactly when the file describes the
  DPUs in the order of the list.
* `file_order_swapped` — two DPUs described the other way round get each other's ports.
-/

namespace DpuOffload

open OffloadingConfig

/-! ### What a file says -/

/-- The description of a DPU. -/
structure DpuDesc where
  /-- The address. -/
  addr : CStr
  /-- The ports SPs connect to. -/
  interPorts : List ℤ
  /-- The ports hosts connect to. -/
  hostPorts : List ℤ
  deriving DecidableEq, Repr

/-- What a token says of its DPU. -/
def dpuDesc (token : CStr) : Option DpuDesc :=
  match strtok ':' token with
  | _ :: addr :: inter :: host :: _ =>
    let d : DpuDesc := ⟨addr, (strtok '&' inter).map atoi, (strtok '&' host).map atoi⟩
    if d.interPorts = [] ∨ d.hostPorts = [] then none else some d
  | _ => none

/-- There is a port of each kind for each SP; the default, one SP, is not taken back. -/
structure DpuDesc.Ports (S : ℕ) (d : DpuDesc) : Prop where
  inter : S ≤ d.interPorts.length
  /-- Ports are counted by an `int`. -/
  inter_lt : d.interPorts.length < 2 ^ 31
  host : S ≤ d.hostPorts.length
  single : S = 1 → d.interPorts.length = 1
  inter_pos : ∀ p ∈ d.interPorts, 0 < p
  host_pos : ∀ p ∈ d.hostPorts, 0 < p

/-- The name of the list that a token is about, by its number. -/
def nameIdx (names : List CStr) (token : CStr) : Option ℕ :=
  (List.range names.length).find? fun i => sameName names[i]? token

/-- The descriptions among the tokens, with the number of the DPU. -/
def described (names : List CStr) (tokens : List CStr) : List (ℕ × DpuDesc) :=
  tokens.filterMap fun t => (nameIdx names t).bind fun i => (dpuDesc t).map fun d => (i, d)

/-- The tokens of some lines, but for the hosts. -/
def dpuTokens (lines : List CStr) : List CStr :=
  (lines.filter fun l => !lineIsComment l).flatMap fun l => (strtok ',' l).tail

/-- A file that describes each DPU of a list once, among others, with ports for `S` SPs. -/
structure PlatformFile (names : List CStr) (S : ℕ) where
  /-- The text. -/
  content : CStr
  /-- The first line. -/
  version : CStr
  /-- The other lines. -/
  lines : List CStr
  content_eq : strtok '\n' content = version :: lines
  version_eq : checkConfigFileVersion version = some 1
  /-- A line has a host and a DPU. -/
  lines_ok : ∀ l ∈ lines, lineIsComment l = false → 2 ≤ (strtok ',' l).length
  ports : ∀ t ∈ dpuTokens lines, ∀ i, nameIdx names t = some i → ∃ d, dpuDesc t = some d ∧ d.Ports S
  once : ((described names (dpuTokens lines)).map (·.1)).Perm (List.range names.length)

/-- The descriptions, as they come. -/
def PlatformFile.descs {names : List CStr} {S : ℕ} (f : PlatformFile names S) : List (ℕ × DpuDesc) :=
  described names (dpuTokens f.lines)

/-- The order in which the file describes the DPUs of the list. -/
def PlatformFile.order {names : List CStr} {S : ℕ} (f : PlatformFile names S) : List ℕ := f.descs.map (·.1)

/-- What an SP needs to connect to another: those of its DPU, at its position. -/
def PlatformFile.RightAt {names : List CStr} {S : ℕ} (f : PlatformFile names S) (cfg : OffloadingConfig) (g : ℕ) :
    Prop :=
  ∃ d, (g / S, d) ∈ f.descs ∧
    cfg.spsConfig g = ⟨names[g / S]?, d.interPorts.getD (g % S) 0, d.hostPorts.getD (g % S) 0⟩ ∧
    cfg.connectToRemoteServiceProc g = some (d.addr, d.interPorts.getD (g % S) 0)

/-! ### The SPs of a DPU -/

/-- After `n` SPs of a DPU. -/
structure Saving (cfg : OffloadingConfig) (e : DpuConfigData) (i n : ℕ) (c : OffloadingConfig) : Prop where
  frame : ∃ a b k, c = { cfg with serviceProcs := a, spsConfig := b, numServiceProcsConfigured := k }
  configured : c.numServiceProcsConfigured = cfg.numServiceProcsConfigured + n
  table : ∀ l < n, c.spsConfig (cfg.numServiceProcsConfigured + l) =
    ⟨e.hostname, e.interdpuPorts.getD l 0, e.hostPorts.getD l 0⟩
  before : ∀ k < cfg.numServiceProcsConfigured, c.spsConfig k = cfg.spsConfig k
  sps : ∀ l < n, c.serviceProcs (i * cfg.numServiceProcsPerDpu + l) =
    { cfg.serviceProcs (i * cfg.numServiceProcsPerDpu + l) with
      connParams := some ⟨e.addr, e.interdpuPorts.getD l 0⟩ }
  others : ∀ g, (∀ l < n, g ≠ i * cfg.numServiceProcsPerDpu + l) → c.serviceProcs g = cfg.serviceProcs g

theorem saving_zero (cfg : OffloadingConfig) (e : DpuConfigData) (i : ℕ) : Saving cfg e i 0 cfg where
  frame := ⟨_, _, _, rfl⟩
  configured := rfl
  table l hl := absurd hl (Nat.not_lt_zero l)
  before _ _ := rfl
  sps l hl := absurd hl (Nat.not_lt_zero l)
  others _ _ := rfl

theorem Saving.step {cfg c : OffloadingConfig} {e : DpuConfigData} {i n : ℕ} (h : Saving cfg e i n c)
    (hn : n < cfg.numServiceProcsPerDpu)
    (hgid : (cfg.dpus i).localServiceProcs n = i * cfg.numServiceProcsPerDpu + n)
    (hidx : (cfg.serviceProcs (i * cfg.numServiceProcsPerDpu + n)).idx = i * cfg.numServiceProcsPerDpu + n)
    (hconn : (cfg.serviceProcs (i * cfg.numServiceProcsPerDpu + n)).connParams.isSome = true)
    (hinter : 0 < e.interdpuPorts.getD n 0) (hhost : 0 < e.hostPorts.getD n 0) :
    ∃ c', saveSp e i c n = some c' ∧ Saving cfg e i (n + 1) c' := by
  obtain ⟨a, b, k, hc⟩ := h.frame
  have hS : c.numServiceProcsPerDpu = cfg.numServiceProcsPerDpu := by rw [hc]
  have hdpus : c.dpus = cfg.dpus := by rw [hc]
  have hsp : c.serviceProcs (i * cfg.numServiceProcsPerDpu + n) =
      cfg.serviceProcs (i * cfg.numServiceProcsPerDpu + n) := h.others _ fun l hl => by omega
  have hmod : (i * cfg.numServiceProcsPerDpu + n) % cfg.numServiceProcsPerDpu = n := by
    rw [Nat.mul_add_mod_self_right, Nat.mod_eq_of_lt hn]
  simp only [saveSp, hS, hdpus, hgid, hsp, hidx, hmod, hconn, hinter, hhost, and_self, if_true]
  refine ⟨_, rfl, ?_⟩
  constructor
  case frame => exact ⟨_, _, _, by rw [hc]⟩
  case configured =>
    dsimp only
    rw [h.configured]
    rfl
  case table =>
    intro l hl
    dsimp only
    rw [h.configured]
    by_cases he : l = n
    · rw [he, Function.update_self]
    · rw [Function.update_of_ne (by omega)]
      exact h.table l (by omega)
  case before =>
    intro k hk
    dsimp only
    rw [h.configured, Function.update_of_ne (by omega)]
    exact h.before k hk
  case sps =>
    intro l hl
    dsimp only
    by_cases he : l = n
    · rw [he, Function.update_self, hidx]
    · rw [Function.update_of_ne (by omega)]
      exact h.sps l (by omega)
  case others =>
    intro g hg
    dsimp only
    rw [Function.update_of_ne (hg n (Nat.lt_succ_self n))]
    exact h.others g fun l hl => hg l (by omega)

theorem saveSps_append (e : DpuConfigData) (d : ℕ) (cfg : OffloadingConfig) (l l' : List ℕ) :
    saveSps e d cfg (l ++ l') = (saveSps e d cfg l).bind fun c => saveSps e d c l' := by
  induction l generalizing cfg with
  | nil => rfl
  | cons a l ih =>
    simp only [List.cons_append, saveSps]
    cases saveSp e d cfg a with
    | none => rfl
    | some c => exact ih c

/-- **The loop over the SPs of a DPU.** -/
theorem exists_saving {cfg : OffloadingConfig} {e : DpuConfigData} {i : ℕ}
    (hgid : ∀ l < cfg.numServiceProcsPerDpu,
      (cfg.dpus i).localServiceProcs l = i * cfg.numServiceProcsPerDpu + l)
    (hsp : ∀ l < cfg.numServiceProcsPerDpu,
      (cfg.serviceProcs (i * cfg.numServiceProcsPerDpu + l)).idx = i * cfg.numServiceProcsPerDpu + l ∧
        (cfg.serviceProcs (i * cfg.numServiceProcsPerDpu + l)).connParams.isSome = true)
    (hinter : ∀ l < cfg.numServiceProcsPerDpu, 0 < e.interdpuPorts.getD l 0)
    (hhost : ∀ l < cfg.numServiceProcsPerDpu, 0 < e.hostPorts.getD l 0) :
    ∃ c, saveSps e i cfg (List.range cfg.numServiceProcsPerDpu) = some c ∧
      Saving cfg e i cfg.numServiceProcsPerDpu c := by
  have key : ∀ n ≤ cfg.numServiceProcsPerDpu, ∃ c, saveSps e i cfg (List.range n) = some c ∧ Saving cfg e i n c := by
    intro n hn
    induction n with
    | zero => exact ⟨cfg, rfl, saving_zero cfg e i⟩
    | succ n ih =>
      obtain ⟨c, hrun, hc⟩ := ih (by omega)
      obtain ⟨c', hstep, hc'⟩ := hc.step hn (hgid n hn) (hsp n hn).1 (hsp n hn).2 (hinter n hn) (hhost n hn)
      refine ⟨c', ?_, hc'⟩
      rw [List.range_succ, saveSps_append, hrun, Option.bind_some, saveSps, hstep]
      rfl
  exact key _ le_rfl

/-! ### The descriptions, one after the other -/

/-- **What an SP has kept** after some descriptions. -/
structure Filled (sp : ListedSp) (names : List CStr) (ms : List (ℕ × DpuDesc)) (cfg : OffloadingConfig) : Prop where
  numDpus : cfg.numDpus = names.length
  perDpu : cfg.numServiceProcsPerDpu = sp.perDpu
  hostname : cfg.hostname = sp.hostname
  globalId : cfg.globalId = sp.globalId
  localId : cfg.localId = sp.localId
  dpu : cfg.dpu = sp.dpu
  listed : ∀ i < names.length, (cfg.dpusConfig i).hostname = names[i]?
  dpus : ∀ (i : ℕ) (t : CStr), names[i]? = some t → ∃ h, (cfg.dpus i).hostname = some h ∧ t <+: h
  gids : ∀ i < names.length, ∀ l < sp.perDpu, (cfg.dpus i).localServiceProcs l = i * sp.perDpu + l
  sps : ∀ i < names.length, ∀ l < sp.perDpu, (cfg.serviceProcs (i * sp.perDpu + l)).idx = i * sp.perDpu + l ∧
    (cfg.serviceProcs (i * sp.perDpu + l)).globalId = i * sp.perDpu + l ∧
    (cfg.serviceProcs (i * sp.perDpu + l)).connParams.isSome = true
  configured : cfg.numServiceProcsConfigured = ms.length * sp.perDpu
  /-- The table is in the order of the file, -/
  table : ∀ (k i : ℕ) (d : DpuDesc), ms[k]? = some (i, d) → ∀ l < sp.perDpu, cfg.spsConfig (k * sp.perDpu + l) =
    ⟨names[i]?, d.interPorts.getD l 0, d.hostPorts.getD l 0⟩
  /-- the addresses are under the global ids. -/
  addrs : ∀ i d, (i, d) ∈ ms → ∀ l < sp.perDpu,
    (cfg.serviceProcs (i * sp.perDpu + l)).connParams = some ⟨some d.addr, d.interPorts.getD l 0⟩

/-- The names of a list, none of which starts with another. -/
def PrefixFree (names : List CStr) : Prop :=
  ∀ (i j : ℕ) (s t : CStr), names[i]? = some s → names[j]? = some t → s <+: t → i = j

/-- What the comparison of two names says. -/
theorem sameName_iff {a b : CStr} : sameName (some a) b = true ↔ a <+: b ∨ b <+: a := by
  rw [sameName, strncmp, decide_eq_true_iff]
  rcases Nat.le_total a.length b.length with h | h
  · rw [Nat.min_eq_left h, List.take_length, ← List.prefix_iff_eq_take]
    refine ⟨Or.inl, fun ho => ho.elim id fun hb => ?_⟩
    rw [hb.eq_of_length_le h]
  · rw [Nat.min_eq_right h, List.take_length, eq_comm, ← List.prefix_iff_eq_take]
    refine ⟨Or.inr, fun ho => ho.elim (fun hb => ?_) id⟩
    rw [hb.eq_of_length_le h]

theorem mul_add_div_self {S l : ℕ} (k : ℕ) (hl : l < S) : (k * S + l) / S = k := by
  rw [Nat.mul_comm, Nat.mul_add_div (Nat.zero_lt_of_lt hl), Nat.div_eq_of_lt hl, Nat.add_zero]

/-- The parser looks a token up among the names of the list. -/
theorem findConfig_eq_nameIdx {names : List CStr} {cfg : OffloadingConfig} (hnum : cfg.numDpus = names.length)
    (hlist : ∀ i < names.length, (cfg.dpusConfig i).hostname = names[i]?) (t : CStr) :
    cfg.findConfig t = nameIdx names t := by
  rw [findConfig, nameIdx, hnum]
  refine List.find?_congr fun i hi => ?_
  rw [hlist i (List.mem_range.1 hi)]

namespace Filled

variable {sp : ListedSp} {names : List CStr} {ms : List (ℕ × DpuDesc)} {cfg : OffloadingConfig}

/-- The DPU of the engine is found by the name of the list. -/
theorem findDpu_eq (h : Filled sp names ms cfg) (hfree : PrefixFree names) {i : ℕ} {t : CStr}
    (ht : names[i]? = some t) : cfg.findDpu t = some i := by
  have hi : i < names.length := (List.getElem?_eq_some_iff.1 ht).1
  rw [findDpu, h.numDpus, List.find?_range_eq_some]
  obtain ⟨name, hname, hpre⟩ := h.dpus i t ht
  refine ⟨?_, List.mem_range.2 hi, fun j hj => ?_⟩
  · rw [hname, sameName_iff]
    exact .inr hpre
  · obtain ⟨name', hname', hpre'⟩ := h.dpus j _ (List.getElem?_eq_getElem (hj.trans hi))
    rw [hname', Bool.not_eq_true', Bool.eq_false_iff, Ne, sameName_iff]
    rintro (hp | hp)
    · exact absurd (hfree j i _ t (List.getElem?_eq_getElem (hj.trans hi)) ht (hpre'.trans hp)) (by omega)
    · rcases List.prefix_or_prefix_of_prefix hpre' hp with hp' | hp'
      · exact absurd (hfree j i _ t (List.getElem?_eq_getElem (hj.trans hi)) ht hp') (by omega)
      · exact absurd (hfree i j t _ ht (List.getElem?_eq_getElem (hj.trans hi)) hp') (by omega)

/-- The other fields do not matter: hosts, the SP itself. -/
theorem congr {cfg' : OffloadingConfig} (h : Filled sp names ms cfg) (h₁ : cfg'.numDpus = cfg.numDpus)
    (h₂ : cfg'.numServiceProcsPerDpu = cfg.numServiceProcsPerDpu) (h₃ : cfg'.hostname = cfg.hostname)
    (h₄ : cfg'.globalId = cfg.globalId) (h₅ : cfg'.localId = cfg.localId) (h₆ : cfg'.dpu = cfg.dpu)
    (h₇ : cfg'.dpusConfig = cfg.dpusConfig) (h₈ : cfg'.dpus = cfg.dpus) (h₉ : cfg'.serviceProcs = cfg.serviceProcs)
    (h₁₀ : cfg'.numServiceProcsConfigured = cfg.numServiceProcsConfigured) (h₁₁ : cfg'.spsConfig = cfg.spsConfig) :
    Filled sp names ms cfg' where
  numDpus := h₁.trans h.numDpus
  perDpu := h₂.trans h.perDpu
  hostname := h₃.trans h.hostname
  globalId := h₄.trans h.globalId
  localId := h₅.trans h.localId
  dpu := h₆.trans h.dpu
  listed := h₇ ▸ h.listed
  dpus := h₈ ▸ h.dpus
  gids := h₈ ▸ h.gids
  sps := h₉ ▸ h.sps
  configured := h₁₀.trans h.configured
  table := h₁₁ ▸ h.table
  addrs := h₉ ▸ h.addrs

/-- A description is kept: the entries of its SPs come next in the table. -/
theorem saving (h : Filled sp names ms cfg) {i : ℕ} {name : CStr} {d : DpuDesc} (hname : names[i]? = some name)
    (hi : i ∉ ms.map (·.1)) {c : OffloadingConfig} {e : DpuConfigData} (he : e.hostname = some name)
    (haddr : e.addr = some d.addr) (hinter : e.interdpuPorts = d.interPorts) (hhost : e.hostPorts = d.hostPorts)
    (hc : Saving { cfg with dpusConfig := Function.update cfg.dpusConfig i e } e i cfg.numServiceProcsPerDpu c) :
    Filled sp names (ms ++ [(i, d)]) c := by
  have hlt : i < names.length := (List.getElem?_eq_some_iff.1 hname).1
  obtain ⟨⟨a, b, k, rfl⟩, hconf, htable, hbefore, hsps, hothers⟩ := hc
  simp only [h.perDpu, h.configured] at hconf htable hbefore hsps hothers
  have hother {j l : ℕ} (hj : j ≠ i) (hl : l < sp.perDpu) : a (j * sp.perDpu + l) =
      cfg.serviceProcs (j * sp.perDpu + l) := by
    refine hothers _ fun l' hl' heq => hj ?_
    rw [← mul_add_div_self j hl, heq, mul_add_div_self i hl']
  constructor
  case numDpus => exact h.numDpus
  case perDpu => exact h.perDpu
  case hostname => exact h.hostname
  case globalId => exact h.globalId
  case localId => exact h.localId
  case dpu => exact h.dpu
  case listed =>
    intro j hj
    dsimp only
    by_cases hji : j = i
    · rw [hji, Function.update_self, he, hname]
    · rw [Function.update_of_ne hji]
      exact h.listed j hj
  case dpus => exact h.dpus
  case gids => exact h.gids
  case sps =>
    intro j hj l hl
    dsimp only
    by_cases hji : j = i
    · subst hji
      rw [hsps l hl]
      exact ⟨(h.sps j hj l hl).1, (h.sps j hj l hl).2.1, rfl⟩
    · rw [hother hji hl]
      exact h.sps j hj l hl
  case configured =>
    rw [List.length_append, List.length_singleton, Nat.succ_mul]
    exact hconf
  case table =>
    intro m j d' hm l hl
    dsimp only
    rcases Nat.lt_trichotomy m ms.length with hlt' | hlt' | hlt'
    · rw [List.getElem?_append_left hlt'] at hm
      have hless : m * sp.perDpu + l < ms.length * sp.perDpu := by
        have : (m + 1) * sp.perDpu ≤ ms.length * sp.perDpu := Nat.mul_le_mul_right _ hlt'
        rw [Nat.succ_mul] at this
        omega
      rw [hbefore _ hless]
      exact h.table m j d' hm l hl
    · subst hlt'
      rw [List.getElem?_concat_length] at hm
      cases hm
      rw [htable l hl, he, hinter, hhost, hname]
    · rw [List.getElem?_eq_none (by rw [List.length_append, List.length_singleton]; omega)] at hm
      cases hm
  case addrs =>
    intro j d' hm l hl
    dsimp only
    rw [List.mem_append, List.mem_singleton] at hm
    rcases hm with hm | hm
    · have hji : j ≠ i := by
        rintro rfl
        exact hi (List.mem_map_of_mem hm)
      rw [hother hji hl]
      exact h.addrs j d' hm l hl
    · cases hm
      rw [hsps l hl, haddr, hinter]

/-- What is kept of the SP itself changes nothing else. -/
theorem saveLocal (h : Filled sp names ms cfg) {e : DpuConfigData} {d : DpuDesc} (hd : d.Ports sp.perDpu)
    (hinter : e.interdpuPorts = d.interPorts) (hhost : e.hostPorts = d.hostPorts)
    (hlen : names.length = (strtok ',' sp.env.listDpus).length) (i uid : ℕ) :
    ∃ c, cfg.saveLocal e i uid = some c ∧ Filled sp names ms c := by
  have hl := sp.localId_lt
  have hfits : sp.numSps < 2 ^ 64 := sp.fits
  have hgid := sp.globalId_lt
  have hg : sp.globalId ≠ UINT64_MAX := by rw [UINT64_MAX]; omega
  have hp₁ : 0 < d.interPorts.getD sp.localId 0 := by
    rw [List.getD_eq_getElem _ _ (hl.trans_le hd.inter)]
    exact hd.inter_pos _ (List.getElem_mem _)
  have hp₂ : 0 < d.hostPorts.getD sp.localId 0 := by
    rw [List.getD_eq_getElem _ _ (hl.trans_le hd.host)]
    exact hd.host_pos _ (List.getElem_mem _)
  have hdpu := sp.dpu_lt
  rw [OffloadingConfig.saveLocal]
  simp only [h.globalId, h.localId, h.perDpu, h.dpu, h.numDpus, hinter, hhost, hg, if_false, false_imp_iff]
  rw [if_pos]
  · exact ⟨_, rfl, h.congr h.numDpus.symm h.perDpu.symm rfl h.globalId.symm h.localId.symm h.dpu.symm rfl rfl rfl
      rfl rfl⟩
  · have hports := hd.inter.trans_lt hd.inter_lt
    refine ⟨trivial, ?_, hg, ?_, ?_, hp₁, hp₂, ?_⟩
    · rw [UINT64_MAX]
      omega
    · omega
    · rw [UINT64_MAX]
      omega
    · omega

/-- **One description.** -/
theorem saveDpu (h : Filled sp names ms cfg) {i : ℕ} {name : CStr} {d : DpuDesc} (hname : names[i]? = some name)
    (hi : i ∉ ms.map (·.1)) (hd : d.Ports sp.perDpu) {e : DpuConfigData} (he : e.hostname = some name)
    (haddr : e.addr = some d.addr) (hnum : e.numInterdpuPorts = d.interPorts.length)
    (hinter : e.interdpuPorts = d.interPorts) (hhost : e.hostPorts = d.hostPorts)
    (hlen : names.length = (strtok ',' sp.env.listDpus).length) (uid : ℕ) :
    ∃ c, cfg.saveDpu e i i uid = some c ∧ Filled sp names (ms ++ [(i, d)]) c := by
  have hlt : i < names.length := (List.getElem?_eq_some_iff.1 hname).1
  have hadj : adjustPerDpu { cfg with dpusConfig := Function.update cfg.dpusConfig i e } e =
      { cfg with dpusConfig := Function.update cfg.dpusConfig i e } := by
    rw [adjustPerDpu, if_neg]
    rw [h.perDpu, hnum]
    exact fun hbad => hbad.2 (hd.single hbad.1)
  have hports {l : ℕ} (hl : l < cfg.numServiceProcsPerDpu) :
      0 < e.interdpuPorts.getD l 0 ∧ 0 < e.hostPorts.getD l 0 := by
    have hl' : l < sp.perDpu := h.perDpu ▸ hl
    rw [hinter, hhost, List.getD_eq_getElem _ _ (hl'.trans_le hd.inter),
      List.getD_eq_getElem _ _ (hl'.trans_le hd.host)]
    exact ⟨hd.inter_pos _ (List.getElem_mem _), hd.host_pos _ (List.getElem_mem _)⟩
  obtain ⟨c, hrun, hc⟩ := @exists_saving { cfg with dpusConfig := Function.update cfg.dpusConfig i e } e i
    (by rw [h.perDpu]; exact h.gids i hlt)
    (by rw [h.perDpu]; exact fun l hl => ⟨(h.sps i hlt l hl).1, (h.sps i hlt l hl).2.2⟩)
    (fun l hl => (hports hl).1) (fun l hl => (hports hl).2)
  have hfilled := h.saving hname hi he haddr hinter hhost hc
  simp only [OffloadingConfig.saveDpu, hadj, hrun, Option.bind_some]
  split
  · exact hfilled.saveLocal hd hinter hhost hlen i uid
  · exact ⟨c, rfl, hfilled⟩

end Filled

/-- What `parse_dpu_cfg` makes of a description. -/
theorem parseDpuCfg_eq {t : CStr} {d : DpuDesc} (hd : dpuDesc t = some d) (e : DpuConfigData) :
    parseDpuCfg t e = some (⟨some (e.hostname.getD ((strtok ':' t).headD [])), some d.addr, d.interPorts.length,
      d.interPorts, d.hostPorts⟩, true) := by
  rw [dpuDesc] at hd
  split at hd
  next name addr inter host rest hts =>
    dsimp only at hd
    split at hd
    · cases hd
    · cases hd
      simp only [parseDpuCfg, parseDpuFields, hts, List.head?_cons, List.tail_cons, List.headD_cons, List.length_map]
      cases e.hostname <;> rfl
  · cases hd

/-- A description has ports of both kinds. -/
theorem dpuDesc_ports {t : CStr} {d : DpuDesc} (hd : dpuDesc t = some d) : d.interPorts ≠ [] ∧ d.hostPorts ≠ [] := by
  rw [dpuDesc] at hd
  split at hd
  · dsimp only at hd
    split at hd
    · cases hd
    next hports =>
      cases hd
      exact not_or.1 hports
  · cases hd

/-- What is gone on with. -/
theorem parsedDpu_eq {t : CStr} {d : DpuDesc} (hd : dpuDesc t = some d) (e : DpuConfigData) :
    parsedDpu t e = some ⟨some (e.hostname.getD ((strtok ':' t).headD [])), some d.addr, d.interPorts.length,
      d.interPorts, d.hostPorts⟩ := by
  obtain ⟨hinter, hhost⟩ := dpuDesc_ports hd
  rw [parsedDpu, parseDpuCfg_eq hd, Option.bind_some]
  exact if_pos ⟨rfl, mt List.length_eq_zero_iff.1 hinter, hhost⟩

/-- **One token of a line.** -/
theorem Filled.parseToken {sp : ListedSp} {names : List CStr} {ms : List (ℕ × DpuDesc)} {st : LineState}
    (h : Filled sp names ms st.cfg) (hfree : PrefixFree names)
    (hlen : names.length = (strtok ',' sp.env.listDpus).length) (host : CStr) {t : CStr}
    (hports : ∀ i, nameIdx names t = some i → ∃ d, dpuDesc t = some d ∧ d.Ports sp.perDpu)
    (hnew : ((ms ++ described names [t]).map (·.1)).Nodup) :
    ∃ st', st.parseToken host t = some (.go st') ∧ Filled sp names (ms ++ described names [t]) st'.cfg := by
  rw [LineState.parseToken, findConfig_eq_nameIdx h.numDpus h.listed]
  cases hi : nameIdx names t with
  | none =>
    refine ⟨st, rfl, ?_⟩
    have hnone : described names [t] = [] := by simp [described, hi]
    rwa [hnone, List.append_nil]
  | some i =>
    obtain ⟨d, hd, hp⟩ := hports i hi
    have hone : described names [t] = [(i, d)] := by simp [described, hi, hd]
    have hilt : i < names.length := List.mem_range.1 (List.mem_of_find?_eq_some hi)
    have hname : names[i]? = some names[i] := List.getElem?_eq_getElem hilt
    have hget : (st.cfg.dpusConfig i).hostname = some names[i] := (h.listed i hilt).trans hname
    rw [hone] at hnew ⊢
    have hfresh : i ∉ ms.map (·.1) := by
      rw [List.map_append, List.nodup_append] at hnew
      exact fun hmem => hnew.2.2 i hmem i (by simp) rfl
    dsimp only
    rw [hget, Option.getD_some]
    -- the host is added, or it was the last one
    generalize hst : (if hashHostname names[i] ≠ st.lastHost then
      (⟨st.cfg.addHost host, hashHostname names[i]⟩ : LineState) else st) = st₁
    have h₁ : Filled sp names ms st₁.cfg ∧ st₁.cfg.dpusConfig = st.cfg.dpusConfig := by
      rw [← hst]
      split
      · exact ⟨h.congr rfl rfl rfl rfl rfl rfl rfl rfl rfl rfl rfl, rfl⟩
      · exact ⟨h, rfl⟩
    obtain ⟨c, hsave, hc⟩ := h₁.1.saveDpu
      (e := ⟨some names[i], some d.addr, d.interPorts.length, d.interPorts, d.hostPorts⟩)
      hname hfresh hp rfl rfl rfl rfl rfl hlen (hashHostname host)
    refine ⟨{ st₁ with cfg := c }, ?_, hc⟩
    rw [h₁.1.findDpu_eq hfree hname]
    dsimp only
    rw [parsedDpu_eq hd, h₁.2, hget, Option.getD_some, Option.bind_some, hsave]
    rfl

/-! ### The file -/

theorem described_append (names ts us : List CStr) :
    described names (ts ++ us) = described names ts ++ described names us := List.filterMap_append

section

variable {names : List CStr} {good : CStr → Prop} {I : List (ℕ × DpuDesc) → OffloadingConfig → Prop}
  (hstep : ∀ (host : CStr) (ms : List (ℕ × DpuDesc)) (st : LineState) (t : CStr), I ms st.cfg → good t →
    ((ms ++ described names [t]).map (·.1)).Nodup →
      ∃ st', st.parseToken host t = some (.go st') ∧ I (ms ++ described names [t]) st'.cfg)
include hstep

/-- **The tokens of a line** keep what each token keeps. -/
theorem exists_parseTokens (host : CStr) {ms : List (ℕ × DpuDesc)} {ts : List CStr} {st : LineState}
    (h : I ms st.cfg) (hgood : ∀ t ∈ ts, good t) (hnew : ((ms ++ described names ts).map (·.1)).Nodup) :
    ∃ c, st.parseTokens host ts = some c ∧ I (ms ++ described names ts) c := by
  induction ts generalizing st ms with
  | nil => exact ⟨st.cfg, rfl, by simpa [described] using h⟩
  | cons t ts ih =>
    have hsplit : ms ++ described names (t :: ts) = (ms ++ described names [t]) ++ described names ts := by
      rw [List.append_assoc, ← described_append]
      rfl
    rw [hsplit] at hnew ⊢
    have hfirst : ((ms ++ described names [t]).map (·.1)).Nodup := by
      rw [List.map_append] at hnew
      exact (List.nodup_append.1 hnew).1
    obtain ⟨st₁, hrun₁, h₁⟩ := hstep host ms st t h (hgood t List.mem_cons_self) hfirst
    obtain ⟨c, hrun, hc⟩ := ih h₁ (fun u hu => hgood u (List.mem_cons_of_mem _ hu)) hnew
    refine ⟨c, ?_, hc⟩
    rw [LineState.parseTokens, hrun₁]
    exact hrun

/-- **The lines of a file** keep what each token keeps. -/
theorem exists_parseDpuLines {ms : List (ℕ × DpuDesc)} {ls : List CStr} {cfg : OffloadingConfig} (h : I ms cfg)
    (hlines : ∀ l ∈ ls, lineIsComment l = false → 2 ≤ (strtok ',' l).length) (hgood : ∀ t ∈ dpuTokens ls, good t)
    (hnew : ((ms ++ described names (dpuTokens ls)).map (·.1)).Nodup) :
    ∃ c, cfg.parseDpuLines 1 ls = some c ∧ I (ms ++ described names (dpuTokens ls)) c := by
  induction ls generalizing cfg ms with
  | nil => exact ⟨cfg, rfl, by simpa [described, dpuTokens] using h⟩
  | cons l ls ih =>
    have hlines' : ∀ l ∈ ls, lineIsComment l = false → 2 ≤ (strtok ',' l).length :=
      fun l' hl' => hlines l' (List.mem_cons_of_mem _ hl')
    rw [OffloadingConfig.parseDpuLines]
    cases hcomment : lineIsComment l with
    | true =>
      have htoks : dpuTokens (l :: ls) = dpuTokens ls := by simp [dpuTokens, hcomment]
      rw [htoks] at hgood hnew ⊢
      exact ih h hlines' hgood hnew
    | false =>
      have htoks : dpuTokens (l :: ls) = (strtok ',' l).tail ++ dpuTokens ls := by simp [dpuTokens, hcomment]
      rw [htoks, described_append, ← List.append_assoc] at hnew
      rw [htoks, described_append, ← List.append_assoc]
      rw [htoks] at hgood
      have htwo := hlines l List.mem_cons_self hcomment
      obtain ⟨host, token, tokens, hts⟩ : ∃ host token tokens, strtok ',' l = host :: token :: tokens := by
        match hl : strtok ',' l with
        | [] | [_] => rw [hl] at htwo; simp at htwo
        | host :: token :: tokens => exact ⟨host, token, tokens, rfl⟩
      have hfirst : ((ms ++ described names (strtok ',' l).tail).map (·.1)).Nodup := by
        rw [List.map_append] at hnew
        exact (List.nodup_append.1 hnew).1
      rw [hts, List.tail_cons] at hgood hnew hfirst ⊢
      obtain ⟨c₁, hrun₁, h₁⟩ := @exists_parseTokens names good I hstep host ms (token :: tokens)
        ⟨cfg, LineState.unknownHost⟩ h (fun t ht => hgood t (List.mem_append_left _ ht)) hfirst
      obtain ⟨c, hrun, hc⟩ := ih h₁ hlines' (fun t ht => hgood t (List.mem_append_right _ ht)) hnew
      refine ⟨c, ?_, hc⟩
      have hline : cfg.parseLineForDpuCfg 1 l = some c₁ := by
        rw [parseLineForDpuCfg, if_pos rfl, parseLineDpuVersion1, hts]
        exact hrun₁
      rw [hline]
      exact hrun

end

/-- An SP that has parsed the list of DPUs has kept no description. -/
theorem ListedSp.filled (sp : ListedSp) {cfg : OffloadingConfig} (h : sp.parse = some cfg) :
    Filled sp (strtok ',' sp.env.listDpus) [] cfg := by
  obtain ⟨cfg', hcfg', hp⟩ := sp.parse_eq
  cases h.symm.trans hcfg'
  have hl := sp.listed h
  constructor
  case numDpus => exact hl.numDpus
  case perDpu => exact hl.perDpu
  case hostname => exact hp.hostname
  case globalId => exact hp.globalId
  case localId => exact hp.localId
  case dpu => exact hp.dpu
  case listed => exact hl.listed
  case dpus => exact hl.dpus
  case gids => exact hl.gids
  case sps =>
    intro i hi l hl'
    rw [hl.sps i hi l hl']
    exact ⟨rfl, rfl, rfl⟩
  case configured => rw [hp.configured, List.length_nil, Nat.zero_mul]
  case table => exact fun k i d hm => by cases hm
  case addrs => exact fun i d hm => absurd hm List.not_mem_nil

/-- **The file** keeps what each token keeps. -/
theorem PlatformFile.exists_parsed {names : List CStr} {S : ℕ} (f : PlatformFile names S) {good : CStr → Prop}
    {I : List (ℕ × DpuDesc) → OffloadingConfig → Prop}
    (hstep : ∀ (host : CStr) (ms : List (ℕ × DpuDesc)) (st : LineState) (t : CStr), I ms st.cfg → good t →
      ((ms ++ described names [t]).map (·.1)).Nodup →
        ∃ st', st.parseToken host t = some (.go st') ∧ I (ms ++ described names [t]) st'.cfg)
    {cfg₀ : OffloadingConfig} (h : I [] cfg₀) (hgood : ∀ t ∈ dpuTokens f.lines, good t) :
    ∃ cfg, cfg₀.findDpuConfigFromPlatformConfigfile f.content = some cfg ∧ I f.descs cfg := by
  have hnodup : ((([] : List (ℕ × DpuDesc)) ++ described names (dpuTokens f.lines)).map (·.1)).Nodup := by
    rw [List.nil_append]
    exact f.once.nodup_iff.2 List.nodup_range
  obtain ⟨cfg, hrun, hcfg⟩ := exists_parseDpuLines hstep h f.lines_ok hgood hnodup
  refine ⟨cfg, ?_, hcfg⟩
  rw [findDpuConfigFromPlatformConfigfile, f.content_eq]
  dsimp only
  rw [f.version_eq, Option.bind_some, if_neg (by decide)]
  exact hrun

/-- **What an SP has kept** once it has parsed the file. -/
theorem PlatformFile.exists_filled (sp : ListedSp) (hfree : PrefixFree (strtok ',' sp.env.listDpus))
    (f : PlatformFile (strtok ',' sp.env.listDpus) sp.perDpu) :
    ∃ cfg₀ cfg, sp.parse = some cfg₀ ∧ cfg₀.findDpuConfigFromPlatformConfigfile f.content = some cfg ∧
      Filled sp (strtok ',' sp.env.listDpus) f.descs cfg := by
  obtain ⟨cfg₀, hcfg₀, -⟩ := sp.parse_eq
  obtain ⟨cfg, hfile, hf⟩ := f.exists_parsed (I := Filled sp (strtok ',' sp.env.listDpus))
    (fun host ms st t h hports hnew => h.parseToken hfree rfl host hports hnew) (sp.filled hcfg₀) f.ports
  exact ⟨cfg₀, cfg, hcfg₀, hfile, hf⟩

/-! ### When the ports are right -/

section

variable {sp : ListedSp} {f : PlatformFile (strtok ',' sp.env.listDpus) sp.perDpu} {cfg : OffloadingConfig}

/-- The descriptions have ports. -/
theorem PlatformFile.ports_of_mem {i : ℕ} {d : DpuDesc} (h : (i, d) ∈ f.descs) : d.Ports sp.perDpu := by
  obtain ⟨t, ht, hid⟩ := List.mem_filterMap.1 h
  obtain ⟨j, hj, hmap⟩ := Option.bind_eq_some_iff.1 hid
  obtain ⟨d', hd', he⟩ := Option.map_eq_some_iff.1 hmap
  cases he
  obtain ⟨d'', hd'', hp⟩ := f.ports t ht i hj
  cases hd'.symm.trans hd''
  exact hp

/-- In the order of the list, all is where it is looked for. -/
theorem Filled.rightAt (h : Filled sp (strtok ',' sp.env.listDpus) f.descs cfg)
    (horder : f.order = List.range (strtok ',' sp.env.listDpus).length) {g : ℕ} (hg : g < sp.numSps) :
    f.RightAt cfg g := by
  have hS : 0 < sp.perDpu := Nat.zero_lt_of_lt sp.localId_lt
  have hk : g / sp.perDpu < (strtok ',' sp.env.listDpus).length := Nat.div_lt_of_lt_mul (by
    rw [Nat.mul_comm]
    exact hg)
  have hl : g % sp.perDpu < sp.perDpu := Nat.mod_lt _ hS
  have hsum : g / sp.perDpu * sp.perDpu + g % sp.perDpu = g := Nat.div_add_mod' g sp.perDpu
  have hget : (f.descs.map (·.1))[g / sp.perDpu]? = some (g / sp.perDpu) := by
    change f.order[_]? = _
    rw [horder, List.getElem?_range hk]
  rw [List.getElem?_map, Option.map_eq_some_iff] at hget
  obtain ⟨⟨i, d⟩, hget, hi⟩ := hget
  have hi : i = g / sp.perDpu := hi
  subst hi
  have hmem := List.mem_of_getElem? hget
  have htable := h.table _ _ _ hget _ hl
  have haddr := h.addrs _ _ hmem _ hl
  obtain ⟨-, hgid, -⟩ := h.sps _ hk _ hl
  rw [hsum] at htable haddr hgid
  have hports := f.ports_of_mem hmem
  have hpos : 0 < d.interPorts.getD (g % sp.perDpu) 0 := by
    rw [List.getD_eq_getElem _ _ (hl.trans_le hports.inter)]
    exact hports.inter_pos _ (List.getElem_mem _)
  refine ⟨d, hmem, htable, ?_⟩
  simp only [connectToRemoteServiceProc, haddr, hgid, htable, Option.bind_some]
  rw [if_pos ⟨by omega, hpos⟩]

/-- The names in the table tell the order. -/
theorem Filled.order_eq (h : Filled sp (strtok ',' sp.env.listDpus) f.descs cfg)
    (hfree : PrefixFree (strtok ',' sp.env.listDpus)) (hright : ∀ g < sp.numSps, f.RightAt cfg g) :
    f.order = List.range (strtok ',' sp.env.listDpus).length := by
  have hS : 0 < sp.perDpu := Nat.zero_lt_of_lt sp.localId_lt
  have hlength : f.order.length = (strtok ',' sp.env.listDpus).length := f.once.length_eq.trans List.length_range
  refine List.ext_getElem (hlength.trans List.length_range.symm) fun k hk hk' => ?_
  rw [List.getElem_range]
  have hk'' : k < (strtok ',' sp.env.listDpus).length := hlength ▸ hk
  obtain ⟨i, d, hget⟩ : ∃ i d, f.descs[k]? = some (i, d) := by
    have hlt : k < f.descs.length := by
      rw [PlatformFile.order, List.length_map] at hk
      exact hk
    exact ⟨_, _, List.getElem?_eq_getElem hlt⟩
  have hki : f.order[k] = i := by
    have hsome : f.order[k]? = some i := by
      rw [PlatformFile.order, List.getElem?_map, hget]
      rfl
    rw [List.getElem?_eq_getElem hk] at hsome
    exact Option.some.inj hsome
  have hi : i < (strtok ',' sp.env.listDpus).length := by
    have hmem : i ∈ f.order := List.mem_of_getElem hki
    exact List.mem_range.1 (f.once.mem_iff.1 hmem)
  have htable := h.table k i d hget 0 hS
  have hless : k * sp.perDpu + 0 < sp.numSps := by
    rw [Nat.add_zero]
    exact (Nat.mul_lt_mul_right hS).2 hk''
  obtain ⟨d', -, hright, -⟩ := hright _ hless
  rw [mul_add_div_self k hS] at hright
  have hnames := congrArg ServiceProcConfigData.hostname (htable.symm.trans hright)
  have hgi := List.getElem?_eq_getElem hi
  have hgk := List.getElem?_eq_getElem hk''
  rw [hki]
  dsimp only at hnames
  exact hfree i k _ _ (hgi) (hnames ▸ hgi) List.prefix_rfl

end

/-- **The addresses and ports are right** exactly when the file describes the DPUs in the order of the list. -/
theorem file_order_iff (sp : ListedSp) (hfree : PrefixFree (strtok ',' sp.env.listDpus))
    (f : PlatformFile (strtok ',' sp.env.listDpus) sp.perDpu) :
    (∃ cfg₀ cfg, sp.parse = some cfg₀ ∧ cfg₀.findDpuConfigFromPlatformConfigfile f.content = some cfg ∧
      ∀ g < sp.numSps, f.RightAt cfg g) ↔ f.order = List.range (strtok ',' sp.env.listDpus).length := by
  obtain ⟨cfg₀, cfg, hlist, hfile, hf⟩ := f.exists_filled sp hfree
  constructor
  · rintro ⟨cfg₀', cfg', hlist', hfile', hright⟩
    cases hlist.symm.trans hlist'
    cases hfile.symm.trans hfile'
    exact hf.order_eq hfree hright
  · exact fun horder => ⟨cfg₀, cfg, hlist, hfile, fun g hg => hf.rightAt horder hg⟩

theorem checkConfigFileVersion_one : checkConfigFileVersion "#Format version:1".toList = some 1 := by decide

/-- A file that describes the DPUs `a` and `b`, in this order or the other way round. -/
def PlatformFile.ofPair (swap : Bool) :
    PlatformFile (strtok ',' (ListedSp.ofPair 0).env.listDpus) (ListedSp.ofPair 0).perDpu where
  content :=
    if swap then "#Format version:1\nh,b:B:3:4,a:A:1:2".toList else "#Format version:1\nh,a:A:1:2,b:B:3:4".toList
  version := "#Format version:1".toList
  lines := [if swap then "h,b:B:3:4,a:A:1:2".toList else "h,a:A:1:2,b:B:3:4".toList]
  content_eq := by cases swap <;> decide
  version_eq := checkConfigFileVersion_one
  lines_ok := by cases swap <;> decide
  ports t ht i _ := by
    have hmem : t = "a:A:1:2".toList ∨ t = "b:B:3:4".toList := by
      have htoks : dpuTokens [if swap then "h,b:B:3:4,a:A:1:2".toList else "h,a:A:1:2,b:B:3:4".toList] =
          if swap then ["b:B:3:4".toList, "a:A:1:2".toList] else ["a:A:1:2".toList, "b:B:3:4".toList] := by
        cases swap <;> decide
      rw [htoks] at ht
      cases swap with
      | true => exact (List.mem_pair.1 ht).symm
      | false => exact List.mem_pair.1 ht
    rcases hmem with rfl | rfl
    · exact ⟨⟨['A'], [1], [2]⟩, by decide, by decide, by decide, by decide, by decide, by decide, by decide⟩
    · exact ⟨⟨['B'], [3], [4]⟩, by decide, by decide, by decide, by decide, by decide, by decide, by decide⟩
  once := by cases swap <;> decide

theorem prefixFree_pair : PrefixFree (strtok ',' (ListedSp.ofPair 0).env.listDpus) := by
  have hts : strtok ',' (ListedSp.ofPair 0).env.listDpus = [['a'], ['b']] := by decide
  rw [hts]
  intro i j s t hi hj hp
  match i, j with
  | 0, 0 | 1, 1 => rfl
  | 0, 1 | 1, 0 => cases hi; cases hj; exact absurd hp (by decide)
  | k + 2, _ => cases hi
  | _, k + 2 => cases hj

/-- In the order of the list the ports are right. -/
theorem file_order_pair : (PlatformFile.ofPair false).order = List.range 2 ∧
    ∃ cfg₀ cfg, (ListedSp.ofPair 0).parse = some cfg₀ ∧
      cfg₀.findDpuConfigFromPlatformConfigfile (PlatformFile.ofPair false).content = some cfg ∧
      ∀ g < (ListedSp.ofPair 0).numSps, (PlatformFile.ofPair false).RightAt cfg g := by
  have horder : (PlatformFile.ofPair false).order = List.range 2 := by decide
  exact ⟨horder, (file_order_iff _ prefixFree_pair (PlatformFile.ofPair false)).2 horder⟩

/-- **The other way round** the DPU `b` is connected to with the port of `a`. -/
theorem file_order_swapped :
    ((ListedSp.ofPair 0).parse.bind fun cfg₀ =>
        (cfg₀.findDpuConfigFromPlatformConfigfile (PlatformFile.ofPair true).content).map fun cfg =>
          (cfg.spsConfig 1, cfg.connectToRemoteServiceProc 1)) =
      some (⟨some ['a'], 1, 2⟩, some (['B'], 1)) ∧
    ¬ ∃ cfg₀ cfg, (ListedSp.ofPair 0).parse = some cfg₀ ∧
      cfg₀.findDpuConfigFromPlatformConfigfile (PlatformFile.ofPair true).content = some cfg ∧
      ∀ g < (ListedSp.ofPair 0).numSps, (PlatformFile.ofPair true).RightAt cfg g := by
  have hval : ((ListedSp.ofPair 0).parse.bind fun cfg₀ =>
      (cfg₀.findDpuConfigFromPlatformConfigfile (PlatformFile.ofPair true).content).map fun cfg =>
        (cfg.spsConfig 1, cfg.connectToRemoteServiceProc 1)) =
      some (⟨some ['a'], 1, 2⟩, some (['B'], 1)) := by decide +kernel
  refine ⟨hval, ?_⟩
  rintro ⟨cfg₀, cfg, hlist, hfile, hright⟩
  rw [hlist, Option.bind_some, hfile, Option.map_some, Option.some.injEq, Prod.mk.injEq] at hval
  obtain ⟨d, -, htable, -⟩ := hright 1 (by decide)
  have hname : some ['a'] = (strtok ',' (ListedSp.ofPair 0).env.listDpus)[1]? :=
    congrArg ServiceProcConfigData.hostname (hval.1.symm.trans htable)
  exact absurd hname (by decide)

end DpuOffload
