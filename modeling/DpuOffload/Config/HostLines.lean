import DpuOffload.Config.FileFrame
import DpuOffload.Config.HostTable
import Mathlib.Algebra.GroupWithZero.Nat

/-!
# What the parsers make of the lines

The hosts that the two parsers of the configuration file add, line by line. A process of a
host reads the lines with the character that ends them, and takes an empty line for one
of a host (`HostSideConfig.lists_getlines`). An SP adds the host of a line for each of its
DPUs that is in the list and whose name is not the one of the DPU before; the first one is
compared to `UNKNOWN_HOST` (`OffloadingConfig.lists_lines`).
-/

namespace DpuOffload

/-- The uid of the host of a line. -/
def lineUid (l : CStr) : ℕ := hashHostname ((strtok ',' l).headD [])

/-- The lines that describe a host. -/
def hostLines (pieces : List CStr) : List CStr := pieces.filter fun p => p ≠ [] ∧ lineIsComment p = false

/-- The name of the list that a token is about. -/
def dpuName (names : List CStr) (token : CStr) : Option CStr := (nameIdx names token).bind (names[·]?)

/-- The names of the list on a line. -/
def dpuNames (names : List CStr) (l : CStr) : List CStr := (strtok ',' l).tail.filterMap (dpuName names)

/-- How many names are not taken for the one before. -/
def changes (last : ℕ) : List CStr → ℕ
  | [] => 0
  | n :: ns => if hashHostname n ≠ last then changes (hashHostname n) ns + 1 else changes last ns

/-- The hosts that a line adds: its own, for each of these names. -/
def addedHosts (names : List CStr) (l : CStr) : List CStr :=
  List.replicate (changes LineState.unknownHost (dpuNames names l)) ((strtok ',' l).headD [])

/-- A name on the line is not taken for the one before. -/
def addsHost (names : List CStr) (l : CStr) : Bool :=
  (dpuNames names l).any fun name => hashHostname name ≠ LineState.unknownHost

theorem changes_le (last : ℕ) (ns : List CStr) : changes last ns ≤ ns.length := by
  induction ns generalizing last with
  | nil => exact le_rfl
  | cons n ns ih =>
    rw [changes, List.length_cons]
    split
    · exact Nat.succ_le_succ (ih _)
    · exact (ih _).trans (Nat.le_succ _)

/-- The first name that is not taken for the last one is one of them. -/
theorem changes_pos {last : ℕ} {ns : List CStr} : 0 < changes last ns ↔ ∃ n ∈ ns, hashHostname n ≠ last := by
  induction ns with
  | nil => simp [changes]
  | cons n ns ih =>
    rw [changes]
    by_cases hn : hashHostname n ≠ last
    · rw [if_pos hn]
      exact ⟨fun _ => ⟨n, List.mem_cons_self, hn⟩, fun _ => Nat.succ_pos _⟩
    · rw [if_neg hn, ih]
      simp [not_not.1 hn]

theorem hostLines_cons (p : CStr) (ps : List CStr) : hostLines (p :: ps) = hostLines [p] ++ hostLines ps := by
  rw [hostLines, hostLines, hostLines, ← List.filter_append]
  rfl

/-! ### The end of a line -/

theorem skipSpaces_newline (s : CStr) : skipSpaces (s ++ ['\n']) = skipSpaces s ++ ['\n'] := by
  rw [skipSpaces, List.dropWhile_append]
  split
  next h =>
    rw [List.isEmpty_iff] at h
    rw [skipSpaces, h]
    rfl
  · rfl

theorem lineIsComment_newline (s : CStr) : lineIsComment (s ++ ['\n']) = lineIsComment s := by
  rw [lineIsComment, lineIsComment, skipSpaces_newline]
  cases skipSpaces s with
  | nil => rfl
  | cons c s => rfl

/-- A number ends before the end of the line. -/
theorem atoi_newline (s : CStr) : atoi (s ++ ['\n']) = atoi s := by
  have htake (s : CStr) : (s ++ ['\n']).takeWhile Char.isDigit = s.takeWhile Char.isDigit := by
    induction s with
    | nil => rfl
    | cons c s ih => rw [List.cons_append, List.takeWhile_cons, List.takeWhile_cons, ih]
  have hdrop : (s ++ ['\n']).dropWhile (fun c => c = ' ' ∨ 9 ≤ c.toNat ∧ c.toNat ≤ 13) =
      if s.dropWhile (fun c => c = ' ' ∨ 9 ≤ c.toNat ∧ c.toNat ≤ 13) = [] then []
      else s.dropWhile (fun c => c = ' ' ∨ 9 ≤ c.toNat ∧ c.toNat ≤ 13) ++ ['\n'] := by
    rw [List.dropWhile_append]
    simp only [List.isEmpty_iff]
    rfl
  rw [atoi, atoi, hdrop]
  generalize s.dropWhile _ = s
  cases s with
  | nil => rfl
  | cons c s =>
    rw [if_neg (List.cons_ne_nil c s)]
    by_cases hm : c = '-'
    · subst hm
      simp only [List.cons_append, htake]
    · by_cases hp : c = '+'
      · subst hp
        simp only [List.cons_append, htake]
      · have hc := htake (c :: s)
        rw [List.cons_append] at hc ⊢
        split <;> simp_all

theorem checkConfigFileVersion_newline {s : CStr} {v : ℤ} (h : checkConfigFileVersion s = some v) :
    checkConfigFileVersion (s ++ ['\n']) = some v := by
  rw [checkConfigFileVersion] at h
  rw [checkConfigFileVersion, skipSpaces_newline]
  split at h
  next s hs =>
    rw [hs]
    simp only [List.cons_append, skipSpaces_newline]
    dsimp only at h
    split at h
    next htoken =>
      have hlen : configFileVersionToken.length ≤ (skipSpaces s).length := by
        rw [strncmp, decide_eq_true_iff] at htoken
        have := congrArg List.length htoken
        rw [List.length_take, List.length_take, Nat.min_self] at this
        omega
      rw [if_pos, List.drop_append_of_le_length hlen, skipSpaces_newline, atoi_newline]
      · exact h
      · rw [strncmp, decide_eq_true_iff] at htoken ⊢
        rw [List.take_append_of_le_length hlen]
        exact htoken
    · cases h
  · cases h

/-- A line that ends stays as it is but for its last piece. -/
theorem splitOn_newline (s : CStr) :
    ∃ qs q, s.splitOn ',' = qs ++ [q] ∧ (s ++ ['\n']).splitOn ',' = qs ++ [q ++ ['\n']] := by
  induction s with
  | nil => exact ⟨[], [], by decide, by decide⟩
  | cons c s ih =>
    obtain ⟨qs, q, hs, hs'⟩ := ih
    rw [List.splitOn, List.cons_append, List.splitOn, List.splitOnP_cons_eq_if_modifyHead,
      List.splitOnP_cons_eq_if_modifyHead, ← List.splitOn, ← List.splitOn, hs, hs']
    split
    · exact ⟨[] :: qs, q, rfl, rfl⟩
    · cases qs with
      | nil => exact ⟨[], c :: q, rfl, rfl⟩
      | cons a as => exact ⟨(c :: a) :: as, q, rfl, rfl⟩

/-- The host of a line with a DPU. -/
theorem head_strtok_newline {s : CStr} (h : 2 ≤ (strtok ',' s).length) :
    (strtok ',' (s ++ ['\n'])).headD [] = (strtok ',' s).headD [] := by
  obtain ⟨qs, q, hs, hs'⟩ := splitOn_newline s
  rw [strtok, hs, List.filter_append, List.length_append] at h
  rw [strtok, strtok, hs, hs', List.filter_append, List.filter_append]
  cases hqs : qs.filter (· ≠ []) with
  | nil =>
    rw [hqs, List.length_nil, Nat.zero_add] at h
    exact absurd (h.trans (List.length_filter_le _ _)) (by simp)
  | cons a as => rfl

/-! ### The lines of a process of a host -/

/-- The line that a piece of the text is read as. -/
def IsLine (p l : CStr) : Prop := l = p ++ ['\n'] ∨ l = p ∧ p ≠ []

theorem forall₂_isLine (ps : List CStr) : List.Forall₂ IsLine ps (ps.map (· ++ ['\n'])) := by
  rw [List.forall₂_map_right_iff]
  exact List.forall₂_same.2 fun p _ => .inl rfl

/-- `getline` reads the pieces, but for an empty one at the end. -/
theorem exists_getlines {content version : CStr} {pieces : List CStr} (h : content.splitOn '\n' = version :: pieces)
    (hv : version ≠ []) :
    ∃ l ps ls, HostSideConfig.getlines content = l :: ls ∧ IsLine version l ∧ List.Forall₂ IsLine ps ls ∧
      hostLines ps = hostLines pieces ∧ ([] ∈ ps → [] ∈ pieces.dropLast) := by
  rw [HostSideConfig.getlines]
  simp only [h]
  rcases List.eq_nil_or_concat pieces with rfl | ⟨qs, q, rfl⟩
  · exact ⟨version, [], [], by simp [hv], .inr ⟨rfl, hv⟩, .nil, rfl, fun h => absurd h List.not_mem_nil⟩
  · rw [List.concat_eq_append, ← List.cons_append, List.dropLast_concat, List.getLast?_concat, Option.toList_some,
      List.dropLast_concat]
    by_cases hq : q = []
    · refine ⟨_, qs, qs.map (· ++ ['\n']), by simp [hq], .inl rfl, forall₂_isLine qs, ?_, id⟩
      rw [hostLines, hostLines, List.filter_append, hq]
      exact (List.append_nil _).symm
    · refine ⟨_, qs ++ [q], qs.map (· ++ ['\n']) ++ [q], by simp [hq], .inl rfl, ?_, rfl, ?_⟩
      · exact List.rel_append (forall₂_isLine qs) (.cons (.inr ⟨rfl, hq⟩) .nil)
      · intro hm
        rcases List.mem_append.1 hm with hm | hm
        · exact hm
        · exact absurd (List.mem_singleton.1 hm).symm hq

namespace HostSideConfig

/-- The hosts of some lines. -/
def hostNames (ls : List CStr) : List CStr :=
  (ls.filter fun l => !lineIsComment l).map fun l => (strtok ',' l).headD []

/-- The DPUs of the host itself leave the hosts as they are. -/
theorem hostTable_parseDpus {cfg c : HostSideConfig} {ts : List CStr} (h : cfg.parseDpus ts = some c) :
    c.hostTable = cfg.hostTable := by
  induction ts generalizing cfg with
  | nil =>
    cases h
    rfl
  | cons t ts ih =>
    obtain ⟨e, -, hrest⟩ := Option.bind_eq_some_iff.1 h
    exact (ih hrest).trans rfl

/-- A line adds its host. -/
theorem hostTable_parseLine {target : CStr} {cfg c : HostSideConfig} {l : CStr}
    (h : cfg.parseLine target 1 l = some c) :
    c.countHost.hostTable = cfg.hostTable.add ((strtok ',' l).headD []) := by
  rw [parseLine, if_pos rfl, parseLineVersion1] at h
  split at h
  · cases h
  next host dpus hts =>
    have hc : c.hostTable = (cfg.addHostToConfig host).hostTable := by
      dsimp only at h
      split at h
      · exact hostTable_parseDpus h
      · cases h
        rfl
    have hcount : c.countHost.hostTable =
        ⟨{ c.hostTable.hosts with numHosts := c.hostTable.hosts.numHosts + 1 }, c.hostTable.infos⟩ := rfl
    rw [hcount, hc, hts]
    rfl

/-- **A process of a host adds the host of each line.** -/
theorem hostTable_parseLines {target : CStr} {cfg c : HostSideConfig} {ls : List CStr}
    (h : cfg.parseLines target 1 ls = some c) : c.hostTable = (hostNames ls).foldl HostTable.add cfg.hostTable := by
  induction ls generalizing cfg with
  | nil =>
    cases h
    rfl
  | cons l ls ih =>
    rw [parseLines] at h
    cases hcomment : lineIsComment l with
    | true =>
      rw [hcomment, if_pos rfl] at h
      rw [ih h, hostNames, hostNames, List.filter_cons_of_neg (by simp [hcomment])]
    | false =>
      rw [hcomment, if_neg (by simp)] at h
      obtain ⟨c₁, hline, hrun⟩ := Option.bind_eq_some_iff.1 h
      rw [ih hrun, hostTable_parseLine hline, hostNames, hostNames, List.filter_cons_of_pos (by simp [hcomment])]
      rfl

/-- The host of a line comes last; that of an empty line does not matter. -/
theorem lists_line {p l : CStr} (hl : IsLine p l) {t : HostTable} {us : List ℕ} (h : t.Lists us)
    (htwo : ∀ q ∈ hostLines [p], 2 ≤ (strtok ',' q).length) (hnew : ∀ q ∈ hostLines [p], lineUid q ∉ us)
    (hblank : p = [] → hashHostname ['\n'] ∉ us) :
    ((hostNames [l]).foldl HostTable.add t).Lists (us ++ (hostLines [p]).map lineUid) := by
  have hcomment : lineIsComment l = lineIsComment p := by
    rcases hl with rfl | ⟨rfl, -⟩
    · exact lineIsComment_newline p
    · rfl
  by_cases hp : p = []
  · subst hp
    obtain rfl : l = ['\n'] := by simpa [IsLine] using hl
    exact (h.add_other (hblank rfl)).sublist (by simp [hostLines])
  · cases hc : lineIsComment p with
    | true =>
      have hno : hostLines [p] = [] := by simp [hostLines, hc]
      have hno' : hostNames [l] = [] := by simp [hostNames, hcomment, hc]
      rw [hno, hno', List.map_nil, List.append_nil]
      exact h
    | false =>
      have hone : hostLines [p] = [p] := by simp [hostLines, hc, hp]
      rw [hone] at htwo hnew ⊢
      have hhead : (strtok ',' l).headD [] = (strtok ',' p).headD [] := by
        rcases hl with rfl | ⟨rfl, -⟩
        · exact head_strtok_newline (htwo p List.mem_cons_self)
        · rfl
      have hone' : hostNames [l] = [(strtok ',' p).headD []] := by
        rw [← hhead]
        simp [hostNames, hcomment, hc]
      rw [hone']
      exact h.add (hnew p List.mem_cons_self)

/-- **The hosts of the lines, in their order.** -/
theorem lists_lines {ps ls : List CStr} (hls : List.Forall₂ IsLine ps ls) {t : HostTable} {us : List ℕ}
    (h : t.Lists us) (htwo : ∀ q ∈ hostLines ps, 2 ≤ (strtok ',' q).length)
    (hnew : (us ++ (hostLines ps).map lineUid).Nodup)
    (hblank : [] ∈ ps → hashHostname ['\n'] ∉ us ++ (hostLines ps).map lineUid) :
    ((hostNames ls).foldl HostTable.add t).Lists (us ++ (hostLines ps).map lineUid) := by
  induction hls generalizing t us with
  | nil => exact h.sublist (by simp [hostLines])
  | @cons p l ps ls hl hls ih =>
    have hnames : hostNames (l :: ls) = hostNames [l] ++ hostNames ls := by
      rw [hostNames, hostNames, hostNames, ← List.map_append, ← List.filter_append]
      rfl
    rw [hostLines_cons] at htwo
    rw [hostLines_cons, List.map_append, ← List.append_assoc] at hnew hblank
    rw [hostLines_cons, List.map_append, ← List.append_assoc, hnames, List.foldl_append]
    have hnew₁ := (List.nodup_append.1 hnew).1
    refine ih (lists_line hl h ?_ ?_ ?_) ?_ hnew ?_
    · exact fun q hq => htwo q (List.mem_append_left _ hq)
    · intro q hq hm
      exact (List.nodup_append.1 hnew₁).2.2 _ hm _ (List.mem_map_of_mem hq) rfl
    · rintro rfl hm
      exact hblank List.mem_cons_self (List.mem_append_left _ (List.mem_append_left _ hm))
    · exact fun q hq => htwo q (List.mem_append_right _ hq)
    · exact fun hm => hblank (List.mem_cons_of_mem _ hm)

end HostSideConfig

/-! ### The lines of an SP -/

namespace OffloadingConfig

/-- What the description of a DPU does not change. -/
structure Keeps (cfg c : OffloadingConfig) : Prop where
  numDpus : c.numDpus = cfg.numDpus
  dpus : c.dpus = cfg.dpus
  names : ∀ i, (c.dpusConfig i).hostname = (cfg.dpusConfig i).hostname
  hostTable : c.hostTable = cfg.hostTable

variable {cfg c : OffloadingConfig} {e : DpuConfigData} {i d uid : ℕ}

theorem keeps_saveDpu (he : e.hostname = (cfg.dpusConfig i).hostname) (h : cfg.saveDpu e i d uid = some c) :
    cfg.Keeps c := by
  obtain ⟨hf, -⟩ := SaveFrame.saveDpu (Q := fun _ => True) he trivial h
  refine ⟨hf.numDpus, hf.dpus, hf.names, ?_⟩
  rw [hostTable, hostTable, hf.hostTable.1, hf.hostTable.2]

/-- **The DPUs of the list are known.** -/
structure Knows (names : List CStr) (cfg : OffloadingConfig) : Prop where
  numDpus : cfg.numDpus = names.length
  listed : ∀ i < names.length, (cfg.dpusConfig i).hostname = names[i]?
  dpus : ∀ (i : ℕ) (t : CStr), names[i]? = some t → ∃ h, (cfg.dpus i).hostname = some h ∧ t <+: h

variable {names : List CStr}

/-- After the list. -/
theorem Named.knows {h : CStr} (hn : Named h names cfg) : cfg.Knows names := by
  refine ⟨hn.numDpus, hn.names, fun i t ht => ⟨_, hn.dpus i t ht, ?_⟩⟩
  split
  next hl => exact isLocal_iff.1 hl
  · exact List.prefix_rfl

theorem Knows.keeps (h : cfg.Knows names) (hk : cfg.Keeps c) : c.Knows names where
  numDpus := hk.numDpus.trans h.numDpus
  listed i hi := (hk.names i).trans (h.listed i hi)
  dpus := hk.dpus ▸ h.dpus

/-- The DPU of the engine is found. -/
theorem Knows.exists_dpu (h : cfg.Knows names) {t : CStr} (ht : names[i]? = some t) : ∃ d, cfg.findDpu t = some d := by
  rw [← Option.isSome_iff_exists, findDpu, List.find?_isSome, h.numDpus]
  obtain ⟨name, hname, hpre⟩ := h.dpus i t ht
  refine ⟨i, List.mem_range.2 (List.getElem?_eq_some_iff.1 ht).1, ?_⟩
  rw [hname, sameName_iff]
  exact .inr hpre

/-- A host is added for a name, unless the last name is the same. -/
def addFor (host : CStr) (p : HostTable × ℕ) (name : CStr) : HostTable × ℕ :=
  if hashHostname name ≠ p.2 then (p.1.add host, hashHostname name) else p

/-- **One token of a line.** -/
theorem Knows.parseToken {st : LineState} (h : st.cfg.Knows names) {host t : CStr}
    (hdesc : ∀ name, dpuName names t = some name → ∃ d, dpuDesc t = some d) {r : LineStep}
    (hr : st.parseToken host t = some r) :
    ∃ st', r = .go st' ∧ st'.cfg.Knows names ∧
      (st'.cfg.hostTable, st'.lastHost) =
        (dpuName names t).toList.foldl (addFor host) (st.cfg.hostTable, st.lastHost) := by
  rw [LineState.parseToken, findConfig_eq_nameIdx h.numDpus h.listed] at hr
  cases hi : nameIdx names t with
  | none =>
    rw [hi] at hr
    cases hr
    exact ⟨st, rfl, h, by simp [dpuName, hi]⟩
  | some i =>
    have hilt : i < names.length := List.mem_range.1 (List.mem_of_find?_eq_some hi)
    have hname : names[i]? = some names[i] := List.getElem?_eq_getElem hilt
    have hdpu : dpuName names t = some names[i] := by rw [dpuName, hi, Option.bind_some, hname]
    have hget : (st.cfg.dpusConfig i).hostname = some names[i] := (h.listed i hilt).trans hname
    obtain ⟨d, hd⟩ := hdesc _ hdpu
    rw [hdpu, Option.toList_some, List.foldl_cons, List.foldl_nil, addFor]
    simp only [hi, hget, Option.getD_some] at hr
    -- the host is added, or it was the last one
    generalize hst : (if hashHostname names[i] ≠ st.lastHost then
      (⟨st.cfg.addHost host, hashHostname names[i]⟩ : LineState) else st) = st₁ at hr
    have h₁ : st₁.cfg.Knows names ∧ (st₁.cfg.dpusConfig i).hostname = some names[i] ∧
        (st₁.cfg.hostTable, st₁.lastHost) = if hashHostname names[i] ≠ st.lastHost then
          (st.cfg.hostTable.add host, hashHostname names[i]) else (st.cfg.hostTable, st.lastHost) := by
      rw [← hst]
      split
      · exact ⟨⟨h.numDpus, h.listed, h.dpus⟩, hget, rfl⟩
      · exact ⟨h, hget, rfl⟩
    obtain ⟨hk, hget₁, htab⟩ := h₁
    obtain ⟨d', hd'⟩ := hk.exists_dpu hname
    rw [hd', parsedDpu_eq hd, hget₁] at hr
    dsimp only [Option.getD_some, Option.bind_some] at hr
    obtain ⟨c, hsave, rfl⟩ := Option.map_eq_some_iff.1 hr
    have hkeep := keeps_saveDpu hget₁.symm hsave
    refine ⟨_, rfl, hk.keeps hkeep, ?_⟩
    rw [← htab, ← hkeep.hostTable]

/-- **The tokens of a line.** -/
theorem Knows.parseTokens {st : LineState} (h : st.cfg.Knows names) {host : CStr} {ts : List CStr}
    (hdesc : ∀ t ∈ ts, ∀ name, dpuName names t = some name → ∃ d, dpuDesc t = some d)
    (hr : st.parseTokens host ts = some c) :
    c.Knows names ∧
      c.hostTable = ((ts.filterMap (dpuName names)).foldl (addFor host) (st.cfg.hostTable, st.lastHost)).1 := by
  induction ts generalizing st with
  | nil =>
    cases hr
    exact ⟨h, rfl⟩
  | cons t ts ih =>
    rw [LineState.parseTokens] at hr
    cases hstep : st.parseToken host t with
    | none =>
      rw [hstep] at hr
      cases hr
    | some r =>
      obtain ⟨st', rfl, hk, htab⟩ := h.parseToken (hdesc t List.mem_cons_self) hstep
      rw [hstep] at hr
      obtain ⟨hc, hctab⟩ := ih hk (fun u hu => hdesc u (List.mem_cons_of_mem _ hu)) hr
      refine ⟨hc, ?_⟩
      rw [hctab, htab, ← List.foldl_append]
      congr 2
      cases hn : dpuName names t with
      | none => rw [List.filterMap_cons_none hn, Option.toList_none, List.nil_append]
      | some name => rw [List.filterMap_cons_some hn, Option.toList_some, List.singleton_append]

/-- **A line adds its host for each name that is not taken for the one before.** -/
theorem foldl_addFor (host : CStr) (ns : List CStr) (t : HostTable) (last : ℕ) :
    (ns.foldl (addFor host) (t, last)).1 = (List.replicate (changes last ns) host).foldl HostTable.add t := by
  induction ns generalizing t last with
  | nil => rfl
  | cons n ns ih =>
    rw [List.foldl_cons, addFor, changes]
    by_cases hn : hashHostname n ≠ last
    · rw [if_pos hn, if_pos hn, ih]
      rfl
    · rw [if_neg hn, if_neg hn, ih]

/-- The number of tokens of some lines. -/
def numTokens (ls : List CStr) : ℕ := (ls.map fun l => (strtok ',' l).length).sum

/-- **The lines add their hosts, one after the other.** -/
theorem Knows.hostTable_parseDpuLines (h : cfg.Knows names) {ls : List CStr} (hne : ∀ l ∈ ls, l ≠ [])
    (hdesc : ∀ l ∈ hostLines ls, ∀ t ∈ (strtok ',' l).tail, ∀ name, dpuName names t = some name → ∃ d, dpuDesc t = some d)
    (hr : cfg.parseDpuLines 1 ls = some c) :
    c.hostTable = ((hostLines ls).flatMap (addedHosts names)).foldl HostTable.add cfg.hostTable := by
  induction ls generalizing cfg with
  | nil =>
    cases hr
    rfl
  | cons l ls ih =>
    have hne' : ∀ l ∈ ls, l ≠ [] := fun l' hl' => hne l' (List.mem_cons_of_mem _ hl')
    rw [OffloadingConfig.parseDpuLines] at hr
    rw [hostLines_cons] at hdesc ⊢
    have hdesc' := fun q hq => hdesc q (List.mem_append_right (hostLines [l]) hq)
    cases hcomment : lineIsComment l with
    | true =>
      have hno : hostLines [l] = [] := by simp [hostLines, hcomment]
      rw [hcomment, if_pos rfl] at hr
      rw [hno, List.nil_append]
      exact ih h hne' hdesc' hr
    | false =>
      have hone : hostLines [l] = [l] := by simp [hostLines, hcomment, hne l List.mem_cons_self]
      rw [hcomment, if_neg (by simp)] at hr
      obtain ⟨c₁, hline, hrun⟩ := Option.bind_eq_some_iff.1 hr
      rw [hone] at hdesc ⊢
      rw [parseLineForDpuCfg, if_pos rfl, parseLineDpuVersion1] at hline
      split at hline
      next host token tokens hts =>
        have htail : (strtok ',' l).tail = token :: tokens := by rw [hts, List.tail_cons]
        obtain ⟨hk, htab⟩ := @Knows.parseTokens c₁ names ⟨cfg, LineState.unknownHost⟩ h host (token :: tokens)
          (fun t ht => hdesc l (List.mem_append_left _ List.mem_cons_self) t (htail ▸ ht)) hline
        rw [foldl_addFor] at htab
        rw [ih hk hne' hdesc' hrun, htab, List.singleton_append, List.flatMap_cons, List.foldl_append, addedHosts,
          dpuNames, htail, hts, List.headD_cons]
      · cases hline

end OffloadingConfig

/-- **The hosts that the lines add come in the order of the lines.** -/
theorem HostTable.Lists.addedHosts {names : List CStr} {ls : List CStr} {t : HostTable} {us : List ℕ}
    (hl : t.Lists us) (ho : t.Only us) (hnew : (us ++ ls.map lineUid).Nodup) :
    ((ls.flatMap (DpuOffload.addedHosts names)).foldl HostTable.add t).Lists
        (us ++ (ls.filter (addsHost names)).map lineUid) ∧
      ((ls.flatMap (DpuOffload.addedHosts names)).foldl HostTable.add t).Only
        (us ++ (ls.filter (addsHost names)).map lineUid) := by
  induction ls generalizing t us with
  | nil =>
    simp only [List.flatMap_nil, List.filter_nil, List.map_nil, List.append_nil]
    exact ⟨hl, ho⟩
  | cons l ls ih =>
    have hadds : addsHost names l = true ↔ 0 < changes LineState.unknownHost (dpuNames names l) := by
      rw [changes_pos, addsHost, List.any_eq_true]
      simp only [decide_eq_true_eq]
    have hfresh : lineUid l ∉ us := fun hm => (List.nodup_append.1 hnew).2.2 _ hm _ List.mem_cons_self rfl
    rw [List.flatMap_cons, List.foldl_append, DpuOffload.addedHosts]
    cases hk : changes LineState.unknownHost (dpuNames names l) with
    | zero =>
      rw [List.filter_cons_of_neg (by simp [hadds, hk])]
      exact ih hl ho (hnew.sublist ((List.sublist_cons_self _ _).append_left _))
    | succ k =>
      have hsplit (vs : List ℕ) : us ++ lineUid l :: vs = (us ++ [lineUid l]) ++ vs := by simp
      rw [List.filter_cons_of_pos (by simp [hadds, hk]), List.map_cons, hsplit]
      rw [List.map_cons, hsplit] at hnew
      exact ih (hl.replicate hfresh k) (ho.replicate _ (k + 1)) hnew

/-- There are no more hosts than tokens. -/
theorem length_addedHosts_le (names ls : List CStr) :
    ((hostLines ls).flatMap (addedHosts names)).length ≤ OffloadingConfig.numTokens ls := by
  have hline (l : CStr) : (addedHosts names l).length ≤ (strtok ',' l).length := by
    rw [addedHosts, List.length_replicate]
    refine (changes_le _ _).trans ((List.length_filterMap_le _ _).trans ?_)
    rw [List.length_tail]
    exact Nat.sub_le _ _
  induction ls with
  | nil => exact le_rfl
  | cons l ls ih =>
    rw [hostLines_cons, List.flatMap_append, List.length_append, OffloadingConfig.numTokens, List.map_cons,
      List.sum_cons]
    refine Nat.add_le_add ?_ ih
    rw [hostLines]
    by_cases hl : l ≠ [] ∧ lineIsComment l = false
    · rw [List.filter_cons_of_pos (by simpa using hl), List.filter_nil, List.flatMap_singleton]
      exact hline l
    · rw [List.filter_cons_of_neg (by simpa using hl), List.filter_nil, List.flatMap_nil]
      exact Nat.zero_le _

end DpuOffload
