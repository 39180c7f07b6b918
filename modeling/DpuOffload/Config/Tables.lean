import DpuOffload.Config.PlatformFile

/-!
# The tables of an SP

What the tables of an SP hold once it has parsed the list of DPUs (`Listed`): the names (`Named`), and
the SPs of each DPU under their global ids.

* `ListedSp.listed` — the tables of every SP are so.
* `named_parseListDpus` — the names, for every list.
-/

namespace DpuOffload

namespace OffloadingConfig

/-- The tables once `n` SPs of the DPU `i` are added. -/
structure LocalSps (cfg : OffloadingConfig) (i n : ℕ) (c : OffloadingConfig) : Prop where
  frame : ∃ a b, c = { cfg with dpus := a, serviceProcs := b }
  hostname : (c.dpus i).hostname = (cfg.dpus i).hostname
  gids : ∀ l < n, (c.dpus i).localServiceProcs l = i * cfg.numServiceProcsPerDpu + l
  others : ∀ j ≠ i, c.dpus j = cfg.dpus j
  sps : ∀ l < n, c.serviceProcs (i * cfg.numServiceProcsPerDpu + l) =
    ⟨i * cfg.numServiceProcsPerDpu + l, i, l, i * cfg.numServiceProcsPerDpu + l, some .reset⟩
  before : ∀ g < i * cfg.numServiceProcsPerDpu, c.serviceProcs g = cfg.serviceProcs g

theorem LocalSps.step {cfg c : OffloadingConfig} {i n : ℕ} (h : cfg.LocalSps i n c)
    (hfit : i * cfg.numServiceProcsPerDpu + n < 2 ^ 64) : cfg.LocalSps i (n + 1) (addLocalSp i c n) := by
  obtain ⟨a, b, hc⟩ := h.frame
  have hS : c.numServiceProcsPerDpu = cfg.numServiceProcsPerDpu := by rw [hc]
  have hgid : c.spGid i n = i * cfg.numServiceProcsPerDpu + n := by
    rw [spGid, hS]
    exact sizeT_natCast hfit
  constructor
  case frame => exact ⟨(addLocalSp i c n).dpus, (addLocalSp i c n).serviceProcs, by rw [hc]; rfl⟩
  case hostname =>
    simp only [addLocalSp, Function.update_self]
    exact h.hostname
  case gids =>
    intro l hl
    simp only [addLocalSp, Function.update_self, hgid]
    by_cases he : l = n
    · rw [he, Function.update_self]
    · rw [Function.update_of_ne he]
      exact h.gids l (by omega)
  case others =>
    intro j hj
    simp only [addLocalSp, Function.update_of_ne hj]
    exact h.others j hj
  case sps =>
    intro l hl
    simp only [addLocalSp, hgid]
    by_cases he : l = n
    · rw [he, Function.update_self]
    · rw [Function.update_of_ne (by omega)]
      exact h.sps l (by omega)
  case before =>
    intro g hg
    simp only [addLocalSp, hgid]
    rw [Function.update_of_ne (by omega)]
    exact h.before g hg

theorem localSps (cfg : OffloadingConfig) {i n : ℕ} (hfit : i * cfg.numServiceProcsPerDpu + n < 2 ^ 64) :
    cfg.LocalSps i n ((List.range n).foldl (addLocalSp i) cfg) := by
  induction n with
  | zero =>
    exact ⟨⟨_, _, rfl⟩, rfl, fun l hl => absurd hl (Nat.not_lt_zero l), fun _ _ => rfl,
      fun l hl => absurd hl (Nat.not_lt_zero l), fun _ _ => rfl⟩
  | succ n ih =>
    rw [List.range_succ, List.foldl_append]
    exact (ih (by omega)).step (by omega)

/-- **The tables after some names of the list.** -/
structure Listed (ts : List CStr) (S : ℕ) (cfg : OffloadingConfig) : Prop where
  numDpus : cfg.numDpus = ts.length
  perDpu : cfg.numServiceProcsPerDpu = S
  names : ∀ i t, ts[i]? = some t → (cfg.dpusConfig i).hostname = some t
  /-- A DPU of the engine has the name, or the longer one of the machine. -/
  dpus : ∀ i t, ts[i]? = some t → ∃ h, (cfg.dpus i).hostname = some h ∧ t <+: h
  gids : ∀ i < ts.length, ∀ l < S, (cfg.dpus i).localServiceProcs l = i * S + l
  sps : ∀ i < ts.length, ∀ l < S, cfg.serviceProcs (i * S + l) = ⟨i * S + l, i, l, i * S + l, some .reset⟩

/-- What `strncmp` says of a name of the list. -/
theorem isLocal_iff {hostname t : CStr} : isLocal hostname t = true ↔ t <+: hostname := by
  rw [isLocal, strncmp, List.take_length, decide_eq_true_iff, List.prefix_iff_eq_take]

theorem getElem?_snoc {ts : List CStr} {t u : CStr} {i : ℕ} (h : (ts ++ [t])[i]? = some u) :
    i < ts.length ∧ ts[i]? = some u ∨ i = ts.length ∧ u = t := by
  rcases Nat.lt_trichotomy i ts.length with hi | hi | hi
  · rw [List.getElem?_append_left hi] at h
    exact .inl ⟨hi, h⟩
  · subst hi
    rw [List.getElem?_concat_length] at h
    exact .inr ⟨rfl, (Option.some.inj h).symm⟩
  · rw [List.getElem?_eq_none (by rw [List.length_append, List.length_singleton]; omega)] at h
    cases h

/-- The tables of a DPU that is added. -/
theorem Listed.addDpu {ts : List CStr} {S : ℕ} {cfg : OffloadingConfig} (h : Listed ts S cfg) (t : CStr)
    (hfit : (ts.length + 1) * S < 2 ^ 64) :
    ∃ a b c, cfg.addDpu t = { cfg with dpusConfig := a, dpus := b, serviceProcs := c } ∧
      Listed (ts ++ [t]) S { cfg with
        dpusConfig := a, dpus := b, serviceProcs := c, numDpus := cfg.numDpus + 1 } := by
  rw [Nat.succ_mul] at hfit
  have hn := h.numDpus
  have hS := h.perDpu
  have hl := localSps { cfg with
    dpusConfig := Function.update cfg.dpusConfig cfg.numDpus
      { cfg.dpusConfig cfg.numDpus with hostname := some t }
    dpus := Function.update cfg.dpus cfg.numDpus ⟨cfg.numDpus, some t, fun _ => 0⟩ }
    (show cfg.numDpus * cfg.numServiceProcsPerDpu + cfg.numServiceProcsPerDpu < 2 ^ 64 by rw [hn, hS]; exact hfit)
  obtain ⟨b, c, hadd⟩ := hl.frame
  refine ⟨_, b, c, hadd, ?_⟩
  rw [hadd] at hl
  obtain ⟨-, hhost, hgids, hothers, hsps, hbefore⟩ := hl
  simp only [hn, hS] at hhost hgids hothers hsps hbefore
  have hold {i : ℕ} (hi : i < ts.length) : b i = cfg.dpus i := by
    rw [hothers i (by omega), Function.update_of_ne (by omega)]
  constructor
  case numDpus => simp [hn]
  case perDpu => exact hS
  case names =>
    intro i u hu
    dsimp only
    rcases getElem?_snoc hu with ⟨hi, hu⟩ | ⟨rfl, rfl⟩
    · rw [Function.update_of_ne (by omega)]
      exact h.names i u hu
    · rw [hn, Function.update_self]
  case dpus =>
    intro i u hu
    dsimp only
    rcases getElem?_snoc hu with ⟨hi, hu⟩ | ⟨rfl, rfl⟩
    · rw [hold hi]
      exact h.dpus i u hu
    · refine ⟨u, ?_, List.prefix_rfl⟩
      rw [hhost, Function.update_self]
  case gids =>
    intro i hi l hl
    rw [List.length_append, List.length_singleton] at hi
    rcases Nat.lt_succ_iff_lt_or_eq.1 hi with hi | rfl
    · dsimp only
      rw [hold hi]
      exact h.gids i hi l hl
    · exact hgids l hl
  case sps =>
    intro i hi l hl
    rw [List.length_append, List.length_singleton] at hi
    rcases Nat.lt_succ_iff_lt_or_eq.1 hi with hi | rfl
    · dsimp only
      have hlt : i * S + l < ts.length * S := by
        have : (i + 1) * S ≤ ts.length * S := Nat.mul_le_mul_right _ hi
        rw [Nat.succ_mul] at this
        omega
      rw [hbefore _ hlt]
      exact h.sps i hi l hl
    · exact hsps l hl

/-- The other fields do not matter. -/
theorem Listed.congr {ts : List CStr} {S : ℕ} {cfg cfg' : OffloadingConfig} (h : Listed ts S cfg)
    (h₁ : cfg'.numDpus = cfg.numDpus) (h₂ : cfg'.numServiceProcsPerDpu = cfg.numServiceProcsPerDpu)
    (h₃ : cfg'.dpusConfig = cfg.dpusConfig) (h₄ : cfg'.dpus = cfg.dpus) (h₅ : cfg'.serviceProcs = cfg.serviceProcs) :
    Listed ts S cfg' where
  numDpus := h₁.trans h.numDpus
  perDpu := h₂.trans h.perDpu
  names := h₃ ▸ h.names
  dpus := h₄ ▸ h.dpus
  gids := h₄ ▸ h.gids
  sps := h₅ ▸ h.sps

/-- The DPU of the SP itself is known by the name of the machine. -/
theorem Listed.rename {ts : List CStr} {S : ℕ} {cfg : OffloadingConfig} (h : Listed ts S cfg) {i : ℕ} {t name : CStr}
    (ht : ts[i]? = some t) (hname : t <+: name) :
    Listed ts S { cfg with
      dpus := Function.update cfg.dpus i { cfg.dpus i with idx := i, hostname := some name } } where
  numDpus := h.numDpus
  perDpu := h.perDpu
  names := h.names
  dpus j u hu := by
    dsimp only
    by_cases he : j = i
    · subst he
      cases ht.symm.trans hu
      exact ⟨name, by rw [Function.update_self], hname⟩
    · rw [Function.update_of_ne he]
      exact h.dpus j u hu
  gids j hj l hl := by
    dsimp only
    by_cases he : j = i
    · subst he
      rw [Function.update_self]
      exact h.gids j hj l hl
    · rw [Function.update_of_ne he]
      exact h.gids j hj l hl
  sps := h.sps

theorem Listed.listed {ts : List CStr} {S : ℕ} {cfg : OffloadingConfig} (h : Listed ts S cfg) :
    ∀ i < ts.length, (cfg.dpusConfig i).hostname = ts[i]? := by
  intro i hi
  rw [List.getElem?_eq_getElem hi]
  exact h.names i _ (List.getElem?_eq_getElem hi)

/-- **One name of the list.** -/
theorem Listed.parseToken {ts : List CStr} {S : ℕ} {st st' : ListState} {t : CStr} (h : Listed ts S st.cfg)
    (hfit : (ts.length + 1) * S < 2 ^ 64) (hs : st.parseToken t = some st') : Listed (ts ++ [t]) S st'.cfg := by
  obtain ⟨a, b, c, hadd, hl⟩ := h.addDpu t hfit
  simp only [ListState.parseToken, hadd] at hs
  split at hs
  · cases hs
  · split at hs
    next hloc =>
      cases hs
      have hget : (ts ++ [t])[st.cfg.numDpus]? = some t := by rw [h.numDpus, List.getElem?_concat_length]
      refine (hl.rename hget (isLocal_iff.1 hloc)).congr ?_ ?_ ?_ ?_ ?_ <;> rw [setLocalDpu_eq]
    · split at hs
      · cases hs
        exact hl.congr rfl rfl rfl rfl rfl
      · cases hs
        refine hl.congr ?_ ?_ ?_ ?_ ?_ <;> rw [setServiceProcToConnectTo_eq]

theorem Listed.parseTokens {ts us : List CStr} {S : ℕ} {st st' : ListState} (h : Listed ts S st.cfg)
    (hfit : (ts ++ us).length * S < 2 ^ 64) (hs : st.parseTokens us = some st') : Listed (ts ++ us) S st'.cfg := by
  induction us generalizing st ts with
  | nil =>
    cases hs
    rwa [List.append_nil]
  | cons u us ih =>
    obtain ⟨st₁, hstep, hrun⟩ := Option.bind_eq_some_iff.1 hs
    have hle : (ts.length + 1) * S ≤ (ts ++ u :: us).length * S := by
      apply Nat.mul_le_mul_right _
      rw [List.length_append, List.length_cons]
      omega
    have hsplit : ts ++ u :: us = (ts ++ [u]) ++ us := by simp
    rw [hsplit] at hfit ⊢
    exact ih (h.parseToken (by rw [hsplit] at hle; omega) hstep) hfit hrun

/-! ### The names -/

/-- **What an SP knows of the names of the list**, after some of them. -/
structure Named (h : CStr) (ts : List CStr) (cfg : OffloadingConfig) : Prop where
  numDpus : cfg.numDpus = ts.length
  hostname : cfg.hostname = h
  /-- Hosts are not in the list. -/
  hosts : cfg.hosts = ⟨0, []⟩
  names : ∀ i < ts.length, (cfg.dpusConfig i).hostname = ts[i]?
  dpus : ∀ (i : ℕ) (t : CStr), ts[i]? = some t → (cfg.dpus i).hostname = some (if isLocal h t then h else t)
  /-- The last name that matches is the one of the SP's DPU. -/
  dpu : ∀ (i : ℕ) (t : CStr), ts[i]? = some t → isLocal h t = true →
    (∀ (j : ℕ) (u : CStr), ts[j]? = some u → isLocal h u = true → j ≤ i) → cfg.dpu = i

/-- The names in the tables of a DPU that is added. -/
theorem addDpu_names (cfg : OffloadingConfig) (t : CStr) : ∃ a b c,
    cfg.addDpu t = { cfg with dpusConfig := a, dpus := b, serviceProcs := c } ∧
      (a cfg.numDpus).hostname = some t ∧ (∀ j ≠ cfg.numDpus, a j = cfg.dpusConfig j) ∧
      (b cfg.numDpus).hostname = some t ∧ ∀ j ≠ cfg.numDpus, (b j).hostname = (cfg.dpus j).hostname := by
  have hfold (l : List ℕ) (i : ℕ) (c₀ : OffloadingConfig) :
      ∃ b c, l.foldl (addLocalSp i) c₀ = { c₀ with dpus := b, serviceProcs := c } ∧
        ∀ j, (b j).hostname = (c₀.dpus j).hostname := by
    induction l generalizing c₀ with
    | nil => exact ⟨_, _, rfl, fun _ => rfl⟩
    | cons s l ih =>
      obtain ⟨b, c, h, hb⟩ := ih (addLocalSp i c₀ s)
      refine ⟨b, c, h, fun j => (hb j).trans ?_⟩
      by_cases hj : j = i
      · rw [hj, addLocalSp]
        dsimp only
        rw [Function.update_self]
      · rw [addLocalSp]
        dsimp only
        rw [Function.update_of_ne hj]
  obtain ⟨b, c, h, hb⟩ := hfold (List.range cfg.numServiceProcsPerDpu) cfg.numDpus
    { cfg with
      dpusConfig := Function.update cfg.dpusConfig cfg.numDpus
        { cfg.dpusConfig cfg.numDpus with hostname := some t }
      dpus := Function.update cfg.dpus cfg.numDpus ⟨cfg.numDpus, some t, fun _ => 0⟩ }
  refine ⟨_, b, c, h, ?_, fun j hj => Function.update_of_ne hj _ _, ?_, fun j hj => ?_⟩
  · simp only [Function.update_self]
  · simp only [hb, Function.update_self]
  · simp only [hb, Function.update_of_ne hj]

/-- A name comes last. -/
theorem Named.snoc {h t : CStr} {ts : List CStr} {cfg c : OffloadingConfig} (hn : Named h ts cfg)
    (hnum : c.numDpus = ts.length + 1) (hhost : c.hostname = h) (hhosts : c.hosts = ⟨0, []⟩)
    (hname : (c.dpusConfig ts.length).hostname = some t)
    (hnames : ∀ j ≠ ts.length, (c.dpusConfig j).hostname = (cfg.dpusConfig j).hostname)
    (hdpu : (c.dpus ts.length).hostname = some (if isLocal h t then h else t))
    (hdpus : ∀ j ≠ ts.length, (c.dpus j).hostname = (cfg.dpus j).hostname)
    (hown : c.dpu = if isLocal h t then ts.length else cfg.dpu) : Named h (ts ++ [t]) c := by
  have hlast : (ts ++ [t])[ts.length]? = some t := List.getElem?_concat_length
  constructor
  case numDpus => rw [hnum, List.length_append, List.length_singleton]
  case hostname => exact hhost
  case hosts => exact hhosts
  case names =>
    intro i hi
    rw [List.length_append, List.length_singleton] at hi
    by_cases he : i = ts.length
    · rw [he, hname, hlast]
    · rw [hnames i he, hn.names i (by omega), List.getElem?_append_left (by omega)]
  case dpus =>
    intro i u hu
    rcases getElem?_snoc hu with ⟨hi, hu⟩ | ⟨rfl, rfl⟩
    · rw [hdpus i hi.ne, hn.dpus i u hu]
    · exact hdpu
  case dpu =>
    intro i u hu hl hmax
    rcases getElem?_snoc hu with ⟨hi, hu⟩ | ⟨rfl, rfl⟩
    · have hno : isLocal h t = false := by
        rw [Bool.eq_false_iff]
        intro hl'
        have := hmax _ _ hlast hl'
        omega
      rw [hown, if_neg (by rw [hno]; exact Bool.false_ne_true)]
      refine hn.dpu i u hu hl fun j v hv hlv => hmax j v ?_ hlv
      rw [List.getElem?_append_left (List.getElem?_eq_some_iff.1 hv).1]
      exact hv
    · rw [hown, if_pos hl]

/-- **One name.** -/
theorem Named.parseToken {h : CStr} {ts : List CStr} {st st' : ListState} {t : CStr} (hn : Named h ts st.cfg)
    (hs : st.parseToken t = some st') : Named h (ts ++ [t]) st'.cfg := by
  obtain ⟨a, b, c, hadd, ha, ha', hb, hb'⟩ := st.cfg.addDpu_names t
  have hnum := hn.numDpus
  have hhost := hn.hostname
  rw [hnum] at ha ha' hb hb'
  simp only [ListState.parseToken, hadd] at hs
  have hnames : ∀ j ≠ ts.length, (a j).hostname = (st.cfg.dpusConfig j).hostname := fun j hj => by rw [ha' j hj]
  split at hs
  · cases hs
  · split at hs
    next hloc =>
      cases hs
      rw [hhost] at hloc
      rw [setLocalDpu_eq]
      refine hn.snoc (by rw [hnum]) hhost hn.hosts ha hnames ?_ (fun j hj => ?_) ?_
      · dsimp only
        rw [hnum, Function.update_self, if_pos hloc, hhost]
      · dsimp only
        rw [hnum, Function.update_of_ne hj]
        exact hb' j hj
      · rw [if_pos hloc, hnum]
    next hloc =>
      rw [hhost] at hloc
      have hb₁ : (b ts.length).hostname = some (if isLocal h t then h else t) := by rw [hb, if_neg hloc]
      split at hs
      · cases hs
        exact hn.snoc (by rw [hnum]) hhost hn.hosts ha hnames hb₁ hb' (by rw [if_neg hloc])
      · cases hs
        rw [setServiceProcToConnectTo_eq]
        exact hn.snoc (by rw [hnum]) hhost hn.hosts ha hnames hb₁ hb' (by rw [if_neg hloc])

/-- **The names.** -/
theorem Named.parseTokens {h : CStr} {ts us : List CStr} {st st' : ListState} (hn : Named h ts st.cfg)
    (hs : st.parseTokens us = some st') : Named h (ts ++ us) st'.cfg := by
  induction us generalizing st ts with
  | nil =>
    cases hs
    rwa [List.append_nil]
  | cons u us ih =>
    obtain ⟨st₁, hstep, hrun⟩ := Option.bind_eq_some_iff.1 hs
    have hsplit : ts ++ u :: us = (ts ++ [u]) ++ us := by simp
    rw [hsplit]
    exact ih (hn.parseToken hstep) hrun

/-- **The list.** -/
theorem named_parseListDpus {env : SpEnv} {h : CStr} {cfg : OffloadingConfig}
    (hs : parseListDpus env (.init h) = some cfg) : Named h (strtok ',' env.listDpus) cfg := by
  obtain ⟨c, hids, hs⟩ := Option.bind_eq_some_iff.1 hs
  obtain ⟨st, hrun, rfl⟩ := Option.map_eq_some_iff.1 hs
  have hframe := ListedSp.parseIds_frame hids
  have hstart : Named h [] (ListState.mk c true 0).cfg := by
    refine ⟨hframe.2.1, hframe.1, hframe.2.2.2.2, ?_, ?_, ?_⟩
    · exact fun i hi => absurd hi (Nat.not_lt_zero i)
    · exact fun i t ht => by cases ht
    · exact fun i t ht => by cases ht
  have hn := hstart.parseTokens hrun
  exact ⟨hn.numDpus, hn.hostname, hn.hosts, hn.names, hn.dpus, hn.dpu⟩

end OffloadingConfig

/-- The tables, for the number of SPs that the environment says. -/
theorem parseListDpus_listed {env : SpEnv} {cfg₀ cfg₁ cfg : OffloadingConfig} (hids : cfg₀.parseIds env = some cfg₁)
    (hnum : cfg₀.numDpus = 0) (hfit : (strtok ',' env.listDpus).length * cfg₁.numServiceProcsPerDpu < 2 ^ 64)
    (h : parseListDpus env cfg₀ = some cfg) :
    OffloadingConfig.Listed (strtok ',' env.listDpus) cfg₁.numServiceProcsPerDpu cfg ∧
      cfg.numServiceProcs = (strtok ',' env.listDpus).length * cfg₁.numServiceProcsPerDpu := by
  rw [parseListDpus, hids, Option.bind_some, Option.map_eq_some_iff] at h
  obtain ⟨st, hrun, rfl⟩ := h
  have hstart : OffloadingConfig.Listed [] cfg₁.numServiceProcsPerDpu (ListState.mk cfg₁ true 0).cfg := by
    refine ⟨(ListedSp.parseIds_frame hids).2.1.trans hnum, rfl, ?_, ?_, ?_, ?_⟩
    · exact fun i t ht => by cases ht
    · exact fun i t ht => by cases ht
    · exact fun i hi => absurd hi (Nat.not_lt_zero i)
    · exact fun i hi => absurd hi (Nat.not_lt_zero i)
  have hl := hstart.parseTokens hfit hrun
  rw [List.nil_append] at hl
  refine ⟨hl.congr rfl rfl rfl rfl rfl, ?_⟩
  dsimp only
  rw [hl.numDpus, hl.perDpu]
  exact sizeT_natCast hfit

namespace ListedSp

variable (sp : ListedSp) {cfg : OffloadingConfig}

/-- **The tables of an SP** once it has parsed the list. -/
theorem listed (h : sp.parse = some cfg) : OffloadingConfig.Listed (strtok ',' sp.env.listDpus) sp.perDpu cfg := by
  obtain ⟨cfg₀, hids, -, -, hS⟩ := sp.ids
  have hfit := sp.fits
  rw [← hS] at hfit ⊢
  exact (parseListDpus_listed hids rfl hfit h).1

/-- The number of SPs. -/
theorem numServiceProcs_eq (h : sp.parse = some cfg) : cfg.numServiceProcs = sp.numSps := by
  obtain ⟨cfg₀, hids, -, -, hS⟩ := sp.ids
  have hfit := sp.fits
  rw [← hS] at hfit
  rw [numSps, ← hS]
  exact (parseListDpus_listed hids rfl hfit h).2

end ListedSp

end DpuOffload
