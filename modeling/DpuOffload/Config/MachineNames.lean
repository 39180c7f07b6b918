import DpuOffload.Config.FileFrame

/-!
# The names of machines

The parsers look machines up by their names, and let a short name stand for the fully qualified one: names are compared
up to the end of one of them. A name then also stands for those that begin with it, such as `dpu1` for `dpu10`.

* `selects_right_iff` — **the machine is the right one everywhere** exactly when no name that is compared begins with
  the name of another machine, but for those of the list that come after the right one, and no name of the
  list or of a line is the long form of the short name it is compared to.
* `not_selects_right` — an SP of `dpu10` in a list with `dpu1`.
-/

namespace DpuOffload

open OffloadingConfig

/-! ### The first match -/

/-- **The first match is the right one** exactly when that one matches, and nothing before it does. -/
theorem find?_range_iff {n : ℕ} {p : ℕ → Bool} {q : ℕ → Prop}
    (huniq : ∀ i < n, ∀ j < n, q i → q j → i = j) :
    (∀ i < n, (List.range n).find? p = some i ↔ q i) ↔
      (∀ i < n, q i → p i = true) ∧ ∀ j < n, p j = true → ∃ i ≤ j, q i := by
  constructor
  · intro h
    refine ⟨fun i hi hq => List.find?_some ((h i hi).2 hq), fun j hj hp => ?_⟩
    obtain ⟨i, hi⟩ : ∃ i, (List.range n).find? p = some i := by
      rw [← Option.isSome_iff_exists, List.find?_isSome]
      exact ⟨j, List.mem_range.2 hj, hp⟩
    obtain ⟨-, hmem, hbefore⟩ := List.find?_range_eq_some.1 hi
    refine ⟨i, not_lt.1 fun hlt => ?_, (h i (List.mem_range.1 hmem)).1 hi⟩
    simpa [hp] using hbefore j hlt
  · rintro ⟨hp, hq⟩ i hi
    rw [List.find?_range_eq_some]
    constructor
    · rintro ⟨hpi, -, hbefore⟩
      obtain ⟨k, hk, hqk⟩ := hq i hi hpi
      rcases Nat.eq_or_lt_of_le hk with rfl | hlt
      · exact hqk
      · have hpk := hp k (hlt.trans hi) hqk
        simpa [hpk] using hbefore k hlt
    · intro hqi
      refine ⟨hp i hi hqi, List.mem_range.2 hi, fun j hj => ?_⟩
      rw [Bool.not_eq_true', Bool.eq_false_iff]
      intro hpj
      obtain ⟨k, hk, hqk⟩ := hq j (hj.trans hi) hpj
      have := huniq k (by omega) i hi hqk hqi
      omega

/-! ### Names -/

/-- A short name, and its fully qualified form. -/
def Qualified (a b : CStr) : Prop := '.' ∉ a ∧ a ++ ['.'] <+: b

instance (a b : CStr) : Decidable (Qualified a b) := inferInstanceAs (Decidable (_ ∧ _))

/-- The name, or the short form of it. -/
def ShortOf (a b : CStr) : Prop := a = b ∨ Qualified a b

instance (a b : CStr) : Decidable (ShortOf a b) := inferInstanceAs (Decidable (_ ∨ _))

/-- Two names of one machine. -/
def SameMachine (a b : CStr) : Prop := ShortOf a b ∨ Qualified b a

instance (a b : CStr) : Decidable (SameMachine a b) := inferInstanceAs (Decidable (_ ∨ _))

theorem Qualified.prefixed {a b : CStr} (h : Qualified a b) : a <+: b := (List.prefix_append a ['.']).trans h.2

theorem ShortOf.prefixed {a b : CStr} (h : ShortOf a b) : a <+: b := by
  rcases h with rfl | h
  · exact List.prefix_rfl
  · exact h.prefixed

theorem Qualified.not_prefixed {a b : CStr} (h : Qualified a b) : ¬ b <+: a := by
  intro hp
  have := h.2.length_le
  rw [List.length_append, List.length_singleton] at this
  have := hp.length_le
  omega

/-- **When a name stands for a machine**: up to its own end. -/
theorem prefix_iff_sameMachine {a b : CStr} :
    (a <+: b ↔ SameMachine a b) ↔ ¬ Qualified b a ∧ (a <+: b → ShortOf a b) := by
  constructor
  · intro h
    have hno : ¬ Qualified b a := fun hq => hq.not_prefixed (h.2 (.inr hq))
    exact ⟨hno, fun hp => (h.1 hp).resolve_right hno⟩
  · rintro ⟨hno, hshort⟩
    exact ⟨fun hp => .inl (hshort hp), fun hs => (hs.resolve_right hno).prefixed⟩

/-- A token begins with the name of its DPU. -/
theorem prefix_token_iff {a n rest : CStr} (ha : ':' ∉ a) : a <+: n ++ ':' :: rest ↔ a <+: n := by
  constructor
  · intro h
    rcases List.prefix_or_prefix_of_prefix h (List.prefix_append n (':' :: rest)) with hp | ⟨u, rfl⟩
    · exact hp
    · rw [List.prefix_append_right_inj] at h
      cases u with
      | nil => rw [List.append_nil]
      | cons c u =>
        obtain ⟨rfl, -⟩ := List.cons_prefix_cons.1 h
        simp at ha
  · exact fun h => h.trans (List.prefix_append _ _)

/-! ### The machines of a job -/

/-- The names that the parsers of an SP and of a process of a host compare. -/
structure Machines (M : Type) where
  /-- The environment of the SP, with the list of DPUs. -/
  env : SpEnv
  /-- The machine of the SP. -/
  hostname : CStr
  /-- The DPUs of the file. -/
  dpus : List CStr
  /-- The hosts of the file. -/
  hosts : List CStr
  /-- The machine of the process of a host. -/
  target : CStr
  /-- What a name denotes. -/
  machineOf : CStr → M

namespace Machines

variable {M : Type} (ms : Machines M)

/-- The DPUs of the list. -/
def list : List CStr := strtok ',' ms.env.listDpus

/-- All names. -/
def names : List CStr := ms.hostname :: ms.target :: (ms.list ++ ms.dpus ++ ms.hosts)

theorem mem_names_list {i : ℕ} {a : CStr} (h : ms.list[i]? = some a) : a ∈ ms.names := by
  simp [names, List.mem_of_getElem? h]

theorem mem_names_dpus {a : CStr} (h : a ∈ ms.dpus) : a ∈ ms.names := by simp [names, h]

theorem mem_names_hosts {a : CStr} (h : a ∈ ms.hosts) : a ∈ ms.names := by simp [names, h]

/-- **What the names are like**: a short name and its fully qualified form are of one machine, and no other two
names; a machine is once in the list. -/
structure Proper : Prop where
  machineOf_iff : ∀ a ∈ ms.names, ∀ b ∈ ms.names, ms.machineOf a = ms.machineOf b ↔ SameMachine a b
  once : ∀ (i : ℕ) (a : CStr) (j : ℕ) (b : CStr), ms.list[i]? = some a → ms.list[j]? = some b →
    ms.machineOf a = ms.machineOf b → i = j
  ne_nil : ∀ a ∈ ms.names, a ≠ []
  plain : ∀ a ∈ ms.names, ':' ∉ a ∧ ',' ∉ a

/-- The name under which the engine knows a DPU of the list: its own DPU has the name of the machine. -/
def engineName (a : CStr) : CStr := if isLocal ms.hostname a then ms.hostname else a

/-- **The exact condition**: where names are compared, none begins with the name of another machine, and none is shorter
than the one that should stand for it. -/
structure Apart : Prop where
  /-- The list, for the machine of the SP. -/
  own : ∀ a ∈ ms.list, ¬ Qualified ms.hostname a ∧ (a <+: ms.hostname → ShortOf a ms.hostname)
  /-- The list, for the DPUs of the file: what comes after the right name does not matter. -/
  tokens : ∀ n ∈ ms.dpus, (∀ a ∈ ms.list, ¬ Qualified n a) ∧
    ∀ (j : ℕ) (a : CStr), ms.list[j]? = some a → a <+: n → ∃ i ≤ j, ∃ b, ms.list[i]? = some b ∧ ShortOf b n
  /-- The list, for itself. -/
  engine : ∀ (i j : ℕ) (a b : CStr), ms.list[i]? = some a → ms.list[j]? = some b → j < i →
    ¬ ms.engineName b <+: a ∧ ¬ a <+: ms.engineName b
  /-- The lines, for the machine of the process of a host. -/
  lines : ∀ a ∈ ms.hosts, ¬ Qualified ms.target a ∧ (a <+: ms.target → ShortOf a ms.target)

end Machines

/-- The states in which tokens are parsed, in any file. -/
inductive Reached (cfg₀ : OffloadingConfig) : LineState → Prop where
  /-- At the first line. -/
  | start : Reached cfg₀ ⟨cfg₀, LineState.unknownHost⟩
  /-- After a token. -/
  | token {st st' : LineState} (host t : CStr) : Reached cfg₀ st → st.parseToken host t = some (.go st') →
      Reached cfg₀ st'
  /-- At the next line. -/
  | line {st : LineState} : Reached cfg₀ st → Reached cfg₀ ⟨st.cfg, LineState.unknownHost⟩

/-- **What is selected is right.** -/
structure Machines.SelectsRight {M : Type} (ms : Machines M) (cfg₀ : OffloadingConfig) : Prop where
  /-- `dpu_offload_parse_list_dpus`: the engine knows the SP's own DPU, and no other, by the name of the machine; -/
  list : ∀ (i : ℕ) (a : CStr), ms.list[i]? = some a →
    ((cfg₀.dpus i).hostname = some ms.hostname ↔ ms.machineOf a = ms.machineOf ms.hostname)
  /-- it is the DPU of the SP. -/
  dpu : ∀ (i : ℕ) (a : CStr), ms.list[i]? = some a → ms.machineOf a = ms.machineOf ms.hostname → cfg₀.dpu = i
  /-- `parse_line_dpu_version_1`: the listed DPU of a token. -/
  tokens : ∀ st, Reached cfg₀ st → ∀ n ∈ ms.dpus, ∀ (rest : CStr) (i : ℕ) (a : CStr), ms.list[i]? = some a →
    (st.cfg.findConfig (n ++ ':' :: rest) = some i ↔ ms.machineOf a = ms.machineOf n)
  /-- The DPU of the engine. -/
  engine : ∀ st, Reached cfg₀ st → ∀ (i : ℕ) (a : CStr), ms.list[i]? = some a → ∀ d, st.cfg.findDpu a = some d ↔ d = i
  /-- The SP's own DPU, whose description gives it its ports. -/
  own : ∀ st, Reached cfg₀ st → ∀ (i : ℕ) (a : CStr), ms.list[i]? = some a →
    ∀ (e : DpuConfigData) (d uid : ℕ), e.hostname = some a →
    (ms.machineOf a = ms.machineOf ms.hostname →
      st.cfg.saveDpu e i d uid = (st.cfg.saveDpuSps e i d).bind fun c => c.saveLocal e i uid) ∧
    (ms.machineOf a ≠ ms.machineOf ms.hostname → st.cfg.saveDpu e i d uid = st.cfg.saveDpuSps e i d)
  /-- `parse_line_version_1`: the DPUs of the line of the host, and of no other. -/
  lines : ∀ a ∈ ms.hosts, ∀ (cfg : HostSideConfig) (line : CStr) (ds : List CStr), strtok ',' line = a :: ds →
    (ms.machineOf a = ms.machineOf ms.target →
      cfg.parseLineVersion1 ms.target line = (cfg.addHostToConfig a).parseDpus ds) ∧
    (ms.machineOf a ≠ ms.machineOf ms.target → cfg.parseLineVersion1 ms.target line = some (cfg.addHostToConfig a))

/-! ### What each comparison selects -/

/-- **No token changes the names.** -/
theorem Reached.frame {h : CStr} {ts : List CStr} {cfg₀ : OffloadingConfig} {st : LineState} (hr : Reached cfg₀ st)
    (hn : Named h ts cfg₀) : FileFrame (fun _ => True) cfg₀ st.cfg := by
  induction hr with
  | start => exact .refl cfg₀
  | token host t _ hstep ih =>
    exact ih.trans (FileFrame.parseToken (ih.numDpus.trans hn.numDpus) (fun i hi => (ih.names i).trans (hn.names i hi))
      (fun _ _ _ _ => trivial) hstep).1
  | line _ ih => exact ih

/-- The name of a DPU of the list, for a token. -/
theorem sameName_token {a n rest : CStr} (ha : ':' ∉ a) :
    sameName (some a) (n ++ ':' :: rest) = true ↔ a <+: n := by
  rw [sameName_iff, prefix_token_iff ha]
  refine ⟨fun h => h.resolve_right fun hp => ha (hp.subset ?_), .inl⟩
  simp

section

variable {M : Type} {ms : Machines M} {cfg₀ : OffloadingConfig} {st : LineState}

/-- A name is looked for up to its end. -/
theorem Machines.Proper.prefix_iff (hp : ms.Proper) {a b : CStr} (ha : a ∈ ms.names) (hb : b ∈ ms.names) :
    (a <+: b ↔ ms.machineOf a = ms.machineOf b) ↔ ¬ Qualified b a ∧ (a <+: b → ShortOf a b) := by
  rw [hp.machineOf_iff a ha b hb]
  exact prefix_iff_sameMachine

/-- Which DPUs of the engine have the name of the machine. -/
theorem OffloadingConfig.Named.dpus_iff {h : CStr} {ts : List CStr} (hn : Named h ts cfg₀) {i : ℕ} {t : CStr}
    (ht : ts[i]? = some t) :
    (cfg₀.dpus i).hostname = some h ↔ t <+: h := by
  rw [hn.dpus i t ht, ← isLocal_iff, Option.some.injEq]
  split
  next hl => exact ⟨fun _ => hl, fun _ => rfl⟩
  next hl =>
    refine ⟨?_, fun h' => absurd h' hl⟩
    rintro rfl
    exact isLocal_iff.2 List.prefix_rfl

/-- **The listed DPU of a token.** -/
theorem Machines.Proper.tokens_iff (hp : ms.Proper) (hn : Named ms.hostname ms.list cfg₀) (hr : Reached cfg₀ st)
    {n : CStr} (hmem : n ∈ ms.dpus) (rest : CStr) :
    (∀ (i : ℕ) (a : CStr), ms.list[i]? = some a →
      (st.cfg.findConfig (n ++ ':' :: rest) = some i ↔ ms.machineOf a = ms.machineOf n)) ↔
    (∀ a ∈ ms.list, ¬ Qualified n a) ∧
      ∀ (j : ℕ) (a : CStr), ms.list[j]? = some a → a <+: n → ∃ i ≤ j, ∃ b, ms.list[i]? = some b ∧ ShortOf b n := by
  have hf := hr.frame hn
  have hn' : n ∈ ms.names := ms.mem_names_dpus hmem
  -- a name of the list matches when the name of the token begins with it
  have hmatch {i : ℕ} {a : CStr} (ha : ms.list[i]? = some a) :
      sameName ms.list[i]? (n ++ ':' :: rest) = true ↔ a <+: n := by
    rw [ha]
    exact sameName_token (hp.plain a (ms.mem_names_list ha)).1
  have hsame {i : ℕ} {a : CStr} (ha : ms.list[i]? = some a) : ms.machineOf a = ms.machineOf n ↔ SameMachine a n :=
    hp.machineOf_iff a (ms.mem_names_list ha) n hn'
  have hnamed {i : ℕ} {a : CStr} (ha : ms.list[i]? = some a) :
      (∃ b, ms.list[i]? = some b ∧ ms.machineOf b = ms.machineOf n) ↔ ms.machineOf a = ms.machineOf n := by
    rw [ha]
    simp
  have hfirst := @find?_range_iff ms.list.length (fun i => sameName ms.list[i]? (n ++ ':' :: rest))
    (fun i => ∃ a, ms.list[i]? = some a ∧ ms.machineOf a = ms.machineOf n) (by
      rintro i - j - ⟨a, ha, hma⟩ ⟨b, hb, hmb⟩
      exact hp.once i a j b ha hb (hma.trans hmb.symm))
  rw [findConfig_eq_nameIdx (hf.numDpus.trans hn.numDpus) (fun i hi => (hf.names i).trans (hn.names i hi)), nameIdx]
  constructor
  · intro h
    obtain ⟨hright, hbefore⟩ := hfirst.1 fun i hi => by
      have ha := List.getElem?_eq_getElem hi
      rw [h i _ ha]
      exact (hnamed ha).symm
    have hno : ∀ a ∈ ms.list, ¬ Qualified n a := by
      intro a hmem' hq
      obtain ⟨i, ha⟩ := List.mem_iff_getElem?.1 hmem'
      have hpre := hright i (List.getElem?_eq_some_iff.1 ha).1 ⟨a, ha, (hsame ha).2 (.inr hq)⟩
      exact hq.not_prefixed ((hmatch ha).1 hpre)
    refine ⟨hno, fun j a ha hpre => ?_⟩
    obtain ⟨i, hle, b, hb, hm⟩ := hbefore j (List.getElem?_eq_some_iff.1 ha).1 ((hmatch ha).2 hpre)
    exact ⟨i, hle, b, hb, ((hsame hb).1 hm).resolve_right (hno b (List.mem_of_getElem? hb))⟩
  · rintro ⟨hno, hbefore⟩ i a ha
    have hright := hfirst.2 ⟨?_, ?_⟩ i (List.getElem?_eq_some_iff.1 ha).1
    · exact hright.trans (hnamed ha)
    · rintro i - ⟨b, hb, hm⟩
      exact (hmatch hb).2 (((hsame hb).1 hm).resolve_right (hno b (List.mem_of_getElem? hb))).prefixed
    · intro j hj hpre
      have hb := List.getElem?_eq_getElem hj
      obtain ⟨i, hle, c, hc, hs⟩ := hbefore j _ hb ((hmatch hb).1 hpre)
      exact ⟨i, hle, c, hc, (hsame hc).2 (.inl hs)⟩

/-- **The DPU of the engine.** -/
theorem Machines.engine_iff (hn : Named ms.hostname ms.list cfg₀) (hr : Reached cfg₀ st) {i : ℕ} {a : CStr}
    (ha : ms.list[i]? = some a) :
    (∀ d, st.cfg.findDpu a = some d ↔ d = i) ↔
      ∀ (j : ℕ) (b : CStr), ms.list[j]? = some b → j < i → ¬ ms.engineName b <+: a ∧ ¬ a <+: ms.engineName b := by
  have hf := hr.frame hn
  have hi : i < ms.list.length := (List.getElem?_eq_some_iff.1 ha).1
  have hmatch {j : ℕ} {b : CStr} (hb : ms.list[j]? = some b) :
      sameName (st.cfg.dpus j).hostname a = true ↔ ms.engineName b <+: a ∨ a <+: ms.engineName b := by
    rw [hf.dpus, hn.dpus j b hb]
    exact sameName_iff
  have hself : sameName (st.cfg.dpus i).hostname a = true := by
    refine (hmatch ha).2 (.inr ?_)
    rw [Machines.engineName]
    split
    next hl => exact isLocal_iff.1 hl
    · exact List.prefix_rfl
  have hfirst := @find?_range_iff ms.list.length (fun j => sameName (st.cfg.dpus j).hostname a) (· = i)
    (fun j _ k _ hj hk => hj.trans hk.symm)
  rw [findDpu, hf.numDpus, hn.numDpus]
  constructor
  · intro h j b hb hj
    obtain ⟨-, hbefore⟩ := hfirst.1 fun d _ => h d
    rw [← not_or, ← hmatch hb]
    intro hm
    obtain ⟨k, hk, rfl⟩ := hbefore j (hj.trans hi) hm
    omega
  · intro h d
    have hright := hfirst.2 ⟨?_, ?_⟩
    · constructor
      · exact fun hd => (hright d (List.mem_range.1 (List.mem_of_find?_eq_some hd))).1 hd
      · rintro rfl
        exact (hright d hi).2 rfl
    · rintro j - rfl
      exact hself
    · intro j hj hm
      refine ⟨i, not_lt.1 fun hlt => ?_, rfl⟩
      have hb := List.getElem?_eq_getElem hj
      rcases (hmatch hb).1 hm with hpre | hpre
      · exact (h j _ hb hlt).1 hpre
      · exact (h j _ hb hlt).2 hpre

/-- **The line of a host.** -/
theorem Machines.Proper.lines_iff (hp : ms.Proper) {a : CStr} (hmem : a ∈ ms.hosts) :
    (∀ (cfg : HostSideConfig) (line : CStr) (ds : List CStr), strtok ',' line = a :: ds →
      (ms.machineOf a = ms.machineOf ms.target →
        cfg.parseLineVersion1 ms.target line = (cfg.addHostToConfig a).parseDpus ds) ∧
      (ms.machineOf a ≠ ms.machineOf ms.target →
        cfg.parseLineVersion1 ms.target line = some (cfg.addHostToConfig a))) ↔
    ¬ Qualified ms.target a ∧ (a <+: ms.target → ShortOf a ms.target) := by
  have ha : a ∈ ms.names := ms.mem_names_hosts hmem
  rw [← hp.prefix_iff ha (by simp [names]), ← isLocal_iff]
  constructor
  · intro h
    -- a line with the name alone: whether it is taken for the one of the host shows in `host_index`
    let cfg : HostSideConfig := { HostSideConfig.init with hostIndex := 1 }
    have hline : strtok ',' a = [a] := by
      rw [strtok, List.splitOn_eq_singleton (hp.plain a ha).2]
      simp [hp.ne_nil a ha]
    have hparse : cfg.parseLineVersion1 ms.target a =
        if isLocal ms.target a then some { cfg.addHostToConfig a with hostIndex := 0 }
        else some (cfg.addHostToConfig a) := by
      rw [HostSideConfig.parseLineVersion1, hline]
      rfl
    obtain ⟨hown, hother⟩ := h cfg a [] hline
    rw [hparse] at hown hother
    constructor
    · intro hl
      by_contra hne
      rw [if_pos hl] at hother
      have hidx : 0 = 1 := congrArg HostSideConfig.hostIndex (Option.some.inj (hother hne))
      exact absurd hidx (by decide)
    · intro he
      by_contra hl
      rw [if_neg hl] at hown
      have hidx : 1 = 0 := congrArg HostSideConfig.hostIndex (Option.some.inj (hown he))
      exact absurd hidx (by decide)
  · intro h cfg line ds hts
    rw [HostSideConfig.parseLineVersion1, hts]
    dsimp only
    constructor
    · exact fun he => if_pos (h.2 he)
    · exact fun hne => if_neg fun hl => hne (h.1 hl)

end

/-- **The machine is the right one everywhere** exactly when no name that is compared begins with the name of another
machine, but for those of the list that come after the right one, and none is compared to its own short form. -/
theorem selects_right_iff {M : Type} {ms : Machines M} (hp : ms.Proper) {cfg₀ : OffloadingConfig}
    (hlist : parseListDpus ms.env (.init ms.hostname) = some cfg₀) : ms.SelectsRight cfg₀ ↔ ms.Apart := by
  have hn : Named ms.hostname ms.list cfg₀ := named_parseListDpus hlist
  have hhost : ms.hostname ∈ ms.names := List.mem_cons_self
  constructor
  · intro h
    constructor
    case own =>
      intro a hmem
      obtain ⟨i, ha⟩ := List.mem_iff_getElem?.1 hmem
      rw [← hp.prefix_iff (ms.mem_names_list ha) hhost, ← hn.dpus_iff ha]
      exact h.list i a ha
    case tokens =>
      exact fun n hmem => (hp.tokens_iff hn .start hmem []).1 (h.tokens _ .start n hmem [])
    case engine =>
      intro i j a b ha hb hj
      exact (Machines.engine_iff hn .start ha).1 (h.engine _ .start i a ha) j b hb hj
    case lines => exact fun a hmem => (hp.lines_iff hmem).1 (h.lines a hmem)
  · intro h
    have hown {i : ℕ} {a : CStr} (ha : ms.list[i]? = some a) :
        a <+: ms.hostname ↔ ms.machineOf a = ms.machineOf ms.hostname :=
      (hp.prefix_iff (ms.mem_names_list ha) hhost).2 (h.own a (List.mem_of_getElem? ha))
    constructor
    case list => exact fun i a ha => (hn.dpus_iff ha).trans (hown ha)
    case dpu =>
      intro i a ha hm
      refine hn.dpu i a ha (isLocal_iff.2 ((hown ha).2 hm)) fun j b hb hl => ?_
      have hmb := (hown hb).1 (isLocal_iff.1 hl)
      exact (hp.once j b i a hb ha (hmb.trans hm.symm)).le
    case tokens => exact fun st hr n hmem rest => (hp.tokens_iff hn hr hmem rest).2 (h.tokens n hmem)
    case engine =>
      exact fun st hr i a ha => (Machines.engine_iff hn hr ha).2 fun j b hb hj => h.engine i j a b ha hb hj
    case own =>
      intro st hr i a ha e d uid he
      have hf := hr.frame hn
      have hi := (List.getElem?_eq_some_iff.1 ha).1
      have hentry : e.hostname = (st.cfg.dpusConfig i).hostname := by rw [he, hf.names, hn.names i hi, ha]
      -- the SPs of the DPU do not change the name of the machine
      have hloc {c : OffloadingConfig} (hc : st.cfg.saveDpuSps e i d = some c) :
          isLocal c.hostname (e.hostname.getD []) = true ↔ ms.machineOf a = ms.machineOf ms.hostname := by
        have hfc : SaveFrame (fun _ => True) st.cfg c := .saveDpuSps hentry trivial hc
        rw [hfc.hostname, hf.hostname, hn.hostname, he, Option.getD_some, isLocal_iff]
        exact hown ha
      rw [saveDpu_eq]
      cases hc : st.cfg.saveDpuSps e i d with
      | none => exact ⟨fun _ => rfl, fun _ => rfl⟩
      | some c =>
        rw [Option.bind_some, Option.bind_some]
        exact ⟨fun hm => if_pos ((hloc hc).2 hm), fun hm => if_neg fun hl => hm ((hloc hc).1 hl)⟩
    case lines => exact fun a hmem => (hp.lines_iff hmem).2 (h.lines a hmem)

/-- An SP of a machine, and the host `h`; a name denotes what comes before its first dot. -/
def Machines.ofNames (list hostname : String) (dpus : List String) : Machines CStr where
  env := ⟨list.toList, none, none, none⟩
  hostname := hostname.toList
  dpus := dpus.map String.toList
  hosts := [['h']]
  target := ['h']
  machineOf := List.takeWhile (· ≠ '.')

theorem Machines.once_of_nodup {M : Type} {ms : Machines M} (h : (ms.list.map ms.machineOf).Nodup) (i : ℕ) (a : CStr)
    (j : ℕ) (b : CStr) (ha : ms.list[i]? = some a) (hb : ms.list[j]? = some b)
    (hm : ms.machineOf a = ms.machineOf b) : i = j := by
  have hi : i < (ms.list.map ms.machineOf).length := by
    rw [List.length_map]
    exact (List.getElem?_eq_some_iff.1 ha).1
  rw [← List.getElem?_inj hi h, List.getElem?_map, List.getElem?_map, ha, hb, Option.map_some, Option.map_some, hm]

/-- Two DPUs, one of them with a short name in the list and a long one in the file. -/
theorem selects_right_pair : ∃ cfg₀,
    parseListDpus (Machines.ofNames "a,b" "a.x" ["a", "b.x"]).env (.init "a.x".toList) = some cfg₀ ∧
      (Machines.ofNames "a,b" "a.x" ["a", "b.x"]).SelectsRight cfg₀ := by
  have hlist : (Machines.ofNames "a,b" "a.x" ["a", "b.x"]).list = [['a'], ['b']] := by decide
  have hp : (Machines.ofNames "a,b" "a.x" ["a", "b.x"]).Proper :=
    ⟨by decide +kernel, Machines.once_of_nodup (by decide +kernel), by decide +kernel, by decide +kernel⟩
  have hsome : (parseListDpus (Machines.ofNames "a,b" "a.x" ["a", "b.x"]).env (.init "a.x".toList)).isSome = true := by
    decide +kernel
  obtain ⟨cfg₀, hcfg₀⟩ := Option.isSome_iff_exists.1 hsome
  refine ⟨cfg₀, hcfg₀, (selects_right_iff hp hcfg₀).2 ⟨by decide +kernel, ?_, ?_, by decide +kernel⟩⟩
  · intro n hn
    rw [hlist]
    refine ⟨fun a ha => ?_, fun j a ha hpre => ⟨j, le_rfl, a, ha, ?_⟩⟩
    · have hall : ∀ n ∈ (Machines.ofNames "a,b" "a.x" ["a", "b.x"]).dpus, ∀ a ∈ [['a'], ['b']], ¬ Qualified n a := by
        decide +kernel
      exact hall n hn a ha
    · have hall : ∀ n ∈ (Machines.ofNames "a,b" "a.x" ["a", "b.x"]).dpus, ∀ a ∈ [['a'], ['b']],
          a <+: n → ShortOf a n := by decide +kernel
      exact hall n hn a (List.mem_of_getElem? ha) hpre
  · intro i j a b ha hb hj
    rw [hlist] at ha hb
    match i, j with
    | 1, 0 => cases ha; cases hb; decide +kernel
    | 0, _ => exact absurd hj (Nat.not_lt_zero _)
    | 1, k + 1 => omega
    | k + 2, _ => cases ha

/-- **An SP of `dpu10`** takes `dpu1` for its own DPU too: its global id is the one of an SP of `dpu1`. -/
theorem not_selects_right :
    (Machines.ofNames "dpu1,dpu10" "dpu10" ["dpu1", "dpu10"]).Proper ∧
    (parseListDpus (Machines.ofNames "dpu1,dpu10" "dpu10" ["dpu1", "dpu10"]).env (.init "dpu10".toList)).map
      (fun c => ((c.dpus 0).hostname, c.dpu, c.globalId)) = some (some "dpu10".toList, 1, 0) ∧
    ¬ ∀ cfg₀, parseListDpus (Machines.ofNames "dpu1,dpu10" "dpu10" ["dpu1", "dpu10"]).env (.init "dpu10".toList) =
      some cfg₀ → (Machines.ofNames "dpu1,dpu10" "dpu10" ["dpu1", "dpu10"]).SelectsRight cfg₀ := by
  have hval : (parseListDpus (Machines.ofNames "dpu1,dpu10" "dpu10" ["dpu1", "dpu10"]).env (.init "dpu10".toList)).map
      (fun c => ((c.dpus 0).hostname, c.dpu, c.globalId)) = some (some "dpu10".toList, 1, 0) := by decide +kernel
  refine ⟨⟨by decide +kernel, Machines.once_of_nodup (by decide +kernel), by decide +kernel, by decide +kernel⟩,
    hval, fun hall => ?_⟩
  obtain ⟨cfg₀, hcfg₀, hv⟩ := Option.map_eq_some_iff.1 hval
  have hsame := ((hall cfg₀ hcfg₀).list 0 "dpu1".toList (by decide +kernel)).1 (congrArg Prod.fst hv)
  exact absurd hsame (by decide +kernel)

end DpuOffload
