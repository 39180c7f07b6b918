import DpuOffload.Config.FileOrder

/-!
# What the configuration file does not change

An SP parses the configuration file once it has parsed the list of DPUs. What it has found in the list stays: the names,
the tables of the SPs, their number. The number of SPs of a DPU may change.

* `FileFrame.findDpuConfig` — so for every file.
-/

namespace DpuOffload

open OffloadingConfig

/-- An entry that the parsers go on with is described. -/
theorem parsedDpu_some {t name : CStr} {e e' : DpuConfigData} (he : e.hostname = some name)
    (h : parsedDpu t e = some e') :
    e'.hostname = some name ∧ ∃ d, dpuDesc t = some d ∧ e'.numInterdpuPorts = d.interPorts.length := by
  obtain ⟨⟨e₁, parsed⟩, hparse, hports⟩ := Option.bind_eq_some_iff.1 h
  obtain ⟨⟨rfl, hinter, hhost⟩, he₁⟩ := Option.ite_none_right_eq_some.1 hports
  obtain rfl := Option.some_inj.1 he₁
  obtain ⟨name', hname, hrun⟩ := Option.map_eq_some_iff.1 hparse
  rw [he, Option.some_or, Option.some_inj] at hname
  subst hname
  unfold parseDpuFields at hrun
  split at hrun
  · cases hrun
  · cases hrun
  next addr inter rest hts =>
    dsimp only at hrun
    split at hrun
    · cases hrun
    next host rest =>
      cases hrun
      refine ⟨rfl, ⟨addr, (strtok '&' inter).map atoi, (strtok '&' host).map atoi⟩, ?_, rfl⟩
      obtain ⟨n, hn⟩ : ∃ n, strtok ':' t = n :: addr :: inter :: host :: rest := by
        cases hs : strtok ':' t with
        | nil =>
          rw [hs] at hts
          cases hts
        | cons n ts =>
          rw [hs, List.tail_cons] at hts
          exact ⟨n, by rw [hts]⟩
      rw [dpuDesc, hn]
      exact if_neg (not_or.2 ⟨mt List.length_eq_zero_iff.2 hinter, hhost⟩)

/-- The SPs of a DPU, once its description is parsed. -/
def OffloadingConfig.saveDpuSps (cfg : OffloadingConfig) (e : DpuConfigData) (i d : ℕ) : Option OffloadingConfig :=
  let cfg := adjustPerDpu { cfg with dpusConfig := Function.update cfg.dpusConfig i e } e
  saveSps e d cfg (List.range cfg.numServiceProcsPerDpu)

theorem OffloadingConfig.saveDpu_eq (cfg : OffloadingConfig) (e : DpuConfigData) (i d uid : ℕ) :
    cfg.saveDpu e i d uid = (cfg.saveDpuSps e i d).bind fun c =>
      if isLocal c.hostname (e.hostname.getD []) then c.saveLocal e i uid else some c := rfl

/-- What the numbers of ports of the descriptions have in common. -/
def PortCounts (Q : ℕ → Prop) (names tokens : List CStr) : Prop :=
  ∀ t ∈ tokens, ∀ i, nameIdx names t = some i → ∀ d, dpuDesc t = some d → Q d.interPorts.length

/-- What `get_dpu_config` asserts at its end: the SP has ports. -/
structure OffloadingConfig.Connected (cfg : OffloadingConfig) : Prop where
  inter : 0 < cfg.interServiceProcsConnParams.port
  host : 0 < cfg.hostConnParams.port

/-- **What stays**, but for the number of SPs of a DPU, which is one of those that the ports say. -/
structure TableFrame (Q : ℕ → Prop) (cfg c : OffloadingConfig) : Prop where
  hostname : c.hostname = cfg.hostname
  numDpus : c.numDpus = cfg.numDpus
  numSps : c.numServiceProcs = cfg.numServiceProcs
  dpus : c.dpus = cfg.dpus
  names : ∀ i, (c.dpusConfig i).hostname = (cfg.dpusConfig i).hostname
  localIds : ∀ g, (c.serviceProcs g).localId = (cfg.serviceProcs g).localId
  perDpu : Q cfg.numServiceProcsPerDpu → Q c.numServiceProcsPerDpu
  /-- Ports stay ports. -/
  connected : cfg.Connected → c.Connected

/-- What the description of a DPU does not change. -/
structure SaveFrame (Q : ℕ → Prop) (cfg c : OffloadingConfig) : Prop extends TableFrame Q cfg c where
  hostTable : c.hosts = cfg.hosts ∧ c.hostsConfig = cfg.hostsConfig

/-- **What the file does not change.** -/
structure FileFrame (Q : ℕ → Prop) (cfg c : OffloadingConfig) : Prop extends TableFrame Q cfg c where
  /-- Nothing is known of an SP when the list is empty. -/
  empty : cfg.numDpus = 0 → c = cfg

section

variable {Q : ℕ → Prop} {cfg c c' : OffloadingConfig} {e : DpuConfigData} {i d uid : ℕ}

theorem TableFrame.refl (cfg : OffloadingConfig) : TableFrame Q cfg cfg :=
  ⟨rfl, rfl, rfl, rfl, fun _ => rfl, fun _ => rfl, id, id⟩

theorem TableFrame.trans (h : TableFrame Q cfg c) (h' : TableFrame Q c c') : TableFrame Q cfg c' where
  hostname := h'.hostname.trans h.hostname
  numDpus := h'.numDpus.trans h.numDpus
  numSps := h'.numSps.trans h.numSps
  dpus := h'.dpus.trans h.dpus
  names i := (h'.names i).trans (h.names i)
  localIds g := (h'.localIds g).trans (h.localIds g)
  perDpu hp := h'.perDpu (h.perDpu hp)
  connected hc := h'.connected (h.connected hc)

namespace SaveFrame

theorem refl (cfg : OffloadingConfig) : SaveFrame Q cfg cfg := ⟨.refl cfg, rfl, rfl⟩

theorem trans (h : SaveFrame Q cfg c) (h' : SaveFrame Q c c') : SaveFrame Q cfg c' where
  toTableFrame := h.toTableFrame.trans h'.toTableFrame
  hostTable := ⟨h'.hostTable.1.trans h.hostTable.1, h'.hostTable.2.trans h.hostTable.2⟩

/-- There is a DPU. -/
theorem file (h : SaveFrame Q cfg c) (hne : cfg.numDpus ≠ 0) : FileFrame Q cfg c :=
  ⟨h.toTableFrame, fun h0 => absurd h0 hne⟩

theorem saveSp {l : ℕ} (h : OffloadingConfig.saveSp e d cfg l = some c) : SaveFrame Q cfg c := by
  simp only [OffloadingConfig.saveSp, Option.ite_none_right_eq_some, Option.some.injEq] at h
  obtain ⟨-, rfl⟩ := h
  refine ⟨⟨rfl, rfl, rfl, rfl, fun _ => rfl, fun g => ?_, id, fun hc => ⟨hc.inter, hc.host⟩⟩, rfl, rfl⟩
  by_cases hg : g = (cfg.dpus d).localServiceProcs l
  · simp [hg]
  · simp [hg]

theorem saveSps {ls : List ℕ} (h : OffloadingConfig.saveSps e d cfg ls = some c) : SaveFrame Q cfg c := by
  induction ls generalizing cfg with
  | nil =>
    cases h
    exact refl _
  | cons l ls ih =>
    obtain ⟨c₁, hsave, hrun⟩ := Option.bind_eq_some_iff.1 h
    exact (saveSp hsave).trans (ih hrun)

theorem saveLocal (h : cfg.saveLocal e i uid = some c) : SaveFrame Q cfg c ∧ c.Connected := by
  simp only [OffloadingConfig.saveLocal, Option.ite_none_right_eq_some] at h
  obtain ⟨⟨-, -, -, -, -, hinter, hhost, -⟩, h⟩ := h
  cases h
  exact ⟨⟨⟨rfl, rfl, rfl, rfl, fun _ => rfl, fun _ => rfl, id, fun _ => ⟨hinter, hhost⟩⟩, rfl, rfl⟩, ⟨hinter, hhost⟩⟩

/-- The entry of a DPU is put back. -/
theorem putEntry (he : e.hostname = (cfg.dpusConfig i).hostname) :
    SaveFrame Q cfg { cfg with dpusConfig := Function.update cfg.dpusConfig i e } := by
  refine ⟨⟨rfl, rfl, rfl, rfl, fun j => ?_, fun _ => rfl, id, fun hc => ⟨hc.inter, hc.host⟩⟩, rfl, rfl⟩
  by_cases hj : j = i
  · simp [hj, he]
  · simp [hj]

/-- The number of SPs of a DPU stays, if the file says the same. -/
theorem adjustPerDpu (hnum : Q e.numInterdpuPorts) : SaveFrame Q cfg (cfg.adjustPerDpu e) := by
  rw [OffloadingConfig.adjustPerDpu]
  split
  · exact ⟨⟨rfl, rfl, rfl, rfl, fun _ => rfl, fun _ => rfl, fun _ => hnum, fun hc => ⟨hc.inter, hc.host⟩⟩, rfl, rfl⟩
  · exact refl cfg

theorem saveDpuSps (he : e.hostname = (cfg.dpusConfig i).hostname) (hnum : Q e.numInterdpuPorts)
    (h : cfg.saveDpuSps e i d = some c) : SaveFrame Q cfg c :=
  ((putEntry he).trans (adjustPerDpu hnum)).trans (saveSps h)

/-- **The description of a DPU**, which gives the SP its ports when the DPU is its own. -/
theorem saveDpu (he : e.hostname = (cfg.dpusConfig i).hostname) (hnum : Q e.numInterdpuPorts)
    (h : cfg.saveDpu e i d uid = some c) :
    SaveFrame Q cfg c ∧ (isLocal cfg.hostname (e.hostname.getD []) = true → c.Connected) := by
  obtain ⟨c₁, hsps, hlocal⟩ := Option.bind_eq_some_iff.1 h
  have h₁ : SaveFrame Q cfg c₁ := saveDpuSps he hnum hsps
  split at hlocal
  · obtain ⟨h₂, hc⟩ := saveLocal hlocal
    exact ⟨h₁.trans h₂, fun _ => hc⟩
  next hloc =>
    cases hlocal
    rw [h₁.hostname] at hloc
    exact ⟨h₁, fun hl => absurd hl hloc⟩

end SaveFrame

end

/-- How a token leaves the configuration. -/
def LineStep.cfg : LineStep → OffloadingConfig
  | .go st => st.cfg
  | .stop cfg => cfg

namespace FileFrame

variable {Q : ℕ → Prop} {names : List CStr} {cfg c c' : OffloadingConfig}

theorem refl (cfg : OffloadingConfig) : FileFrame Q cfg cfg := ⟨.refl cfg, fun _ => rfl⟩

theorem trans (h : FileFrame Q cfg c) (h' : FileFrame Q c c') : FileFrame Q cfg c' where
  toTableFrame := h.toTableFrame.trans h'.toTableFrame
  empty h0 := (h'.empty (h.numDpus.trans h0)).trans (h.empty h0)

/-- **One token**; that of the SP's own DPU gives it its ports. -/
theorem parseToken {st : LineState} {host t : CStr} (hnum : st.cfg.numDpus = names.length)
    (hlist : ∀ i < names.length, (st.cfg.dpusConfig i).hostname = names[i]?)
    (hports : ∀ i, nameIdx names t = some i → ∀ d, dpuDesc t = some d → Q d.interPorts.length) {r : LineStep}
    (h : st.parseToken host t = some r) :
    FileFrame Q st.cfg r.cfg ∧ ∀ st', r = .go st' → ∀ i name, nameIdx names t = some i → names[i]? = some name →
      isLocal st.cfg.hostname name = true → st'.cfg.Connected := by
  rw [LineState.parseToken, findConfig_eq_nameIdx hnum hlist] at h
  cases hi : nameIdx names t with
  | none =>
    rw [hi] at h
    cases h
    exact ⟨refl _, fun _ _ _ _ hn => absurd hn (by simp)⟩
  | some i =>
    have hilt : i < names.length := List.mem_range.1 (List.mem_of_find?_eq_some hi)
    have hne : st.cfg.numDpus ≠ 0 := by omega
    have hget : (st.cfg.dpusConfig i).hostname = some names[i] := (hlist i hilt).trans (List.getElem?_eq_getElem hilt)
    rw [hi] at h
    dsimp only at h
    rw [hget, Option.getD_some] at h
    -- the host is added, or it was the last one
    generalize hst : (if hashHostname names[i] ≠ st.lastHost then
      (⟨st.cfg.addHost host, hashHostname names[i]⟩ : LineState) else st) = st₁ at h
    have h₁ : FileFrame Q st.cfg st₁.cfg ∧ st₁.cfg.dpusConfig = st.cfg.dpusConfig := by
      rw [← hst]
      split
      · exact ⟨⟨⟨rfl, rfl, rfl, rfl, fun _ => rfl, fun _ => rfl, id, fun hc => ⟨hc.inter, hc.host⟩⟩,
          fun h0 => absurd h0 hne⟩, rfl⟩
      · exact ⟨refl _, rfl⟩
    have hne₁ : st₁.cfg.numDpus ≠ 0 := h₁.1.numDpus ▸ hne
    have hget₁ : (st₁.cfg.dpusConfig i).hostname = some names[i] := h₁.2 ▸ hget
    split at h
    · cases h
      exact ⟨h₁.1, fun _ hr => by cases hr⟩
    · obtain ⟨e, hparse, h⟩ := Option.bind_eq_some_iff.1 h
      obtain ⟨hname, d, hd, hlen⟩ := parsedDpu_some hget₁ hparse
      obtain ⟨cfg', hsave, rfl⟩ := Option.map_eq_some_iff.1 h
      obtain ⟨h₂, hc⟩ := SaveFrame.saveDpu (Q := Q) (hname.trans hget₁.symm) (hlen ▸ hports i hi d hd) hsave
      refine ⟨h₁.1.trans (h₂.file hne₁), fun st' hr j name hj hname' hloc => ?_⟩
      cases hr
      cases hj
      rw [h₁.1.hostname, hname, Option.getD_some] at hc
      rw [List.getElem?_eq_getElem hilt] at hname'
      cases hname'
      exact hc hloc

/-- **The tokens of a line.** -/
theorem parseTokens {st : LineState} {host : CStr} {ts : List CStr} (hnum : st.cfg.numDpus = names.length)
    (hlist : ∀ i < names.length, (st.cfg.dpusConfig i).hostname = names[i]?)
    (hports : PortCounts Q names ts) (h : st.parseTokens host ts = some c) : FileFrame Q st.cfg c := by
  induction ts generalizing st with
  | nil =>
    cases h
    exact refl _
  | cons t ts ih =>
    rw [LineState.parseTokens] at h
    split at h
    · cases h
    next cfg hstep =>
      cases h
      exact (parseToken hnum hlist (hports t List.mem_cons_self) hstep).1
    next st' hstep =>
      have h₁ : FileFrame Q st.cfg st'.cfg := (parseToken hnum hlist (hports t List.mem_cons_self) hstep).1
      exact h₁.trans (ih (h₁.numDpus.trans hnum) (fun i hi => (h₁.names i).trans (hlist i hi))
        (fun u hu => hports u (List.mem_cons_of_mem t hu)) h)

/-- **The lines**, of any version. -/
theorem parseDpuLines {v : ℤ} {ls : List CStr} (hnum : cfg.numDpus = names.length)
    (hlist : ∀ i < names.length, (cfg.dpusConfig i).hostname = names[i]?)
    (hports : PortCounts Q names (dpuTokens ls)) (h : cfg.parseDpuLines v ls = some c) : FileFrame Q cfg c := by
  induction ls generalizing cfg with
  | nil =>
    cases h
    exact refl _
  | cons l ls ih =>
    rw [OffloadingConfig.parseDpuLines] at h
    cases hcomment : lineIsComment l with
    | true =>
      have htoks : dpuTokens (l :: ls) = dpuTokens ls := by simp [dpuTokens, hcomment]
      rw [hcomment, if_pos rfl] at h
      exact ih hnum hlist (htoks ▸ hports) h
    | false =>
      have htoks : dpuTokens (l :: ls) = (strtok ',' l).tail ++ dpuTokens ls := by simp [dpuTokens, hcomment]
      rw [htoks] at hports
      rw [hcomment, if_neg Bool.false_ne_true] at h
      obtain ⟨c₁, hline, hrun⟩ := Option.bind_eq_some_iff.1 h
      have h₁ : FileFrame Q cfg c₁ := by
        rw [parseLineForDpuCfg] at hline
        split at hline
        · rw [parseLineDpuVersion1] at hline
          split at hline
          next host token tokens hts =>
            refine parseTokens hnum hlist (fun t ht => hports t (List.mem_append_left _ ?_)) hline
            rw [hts]
            exact ht
          · cases hline
        · cases hline
          exact refl cfg
      exact h₁.trans (ih (h₁.numDpus.trans hnum) (fun i hi => (h₁.names i).trans (hlist i hi))
        (fun t ht => hports t (List.mem_append_right _ ht)) hrun)

/-- **The file.** -/
theorem findDpuConfig {content : CStr} (hnum : cfg.numDpus = names.length)
    (hlist : ∀ i < names.length, (cfg.dpusConfig i).hostname = names[i]?)
    (hports : PortCounts Q names (dpuTokens (strtok '\n' content).tail))
    (h : cfg.findDpuConfigFromPlatformConfigfile content = some c) : FileFrame Q cfg c := by
  rw [findDpuConfigFromPlatformConfigfile] at h
  split at h
  · cases h
  next l ls hls =>
    rw [hls, List.tail_cons] at hports
    obtain ⟨v, -, hrun⟩ := Option.bind_eq_some_iff.1 h
    split at hrun
    · cases hrun
    · exact parseDpuLines hnum hlist hports hrun

end FileFrame

end DpuOffload
