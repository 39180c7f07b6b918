import DpuOffload.Config.HostLines

/-!
# The hosts of an SP, once each

An SP adds the host of a line for each DPU of the list on it whose name is not the one of the DPU before, so that a host
with two DPUs of the list is in `hosts_config` twice, and the table of the hosts knows the last one only.

* `host_once_iff` — **each host is there once** exactly when the DPUs of the list on a line have one name.
* `not_host_once` — a host with two DPUs.
-/

namespace DpuOffload

open OffloadingConfig

/-! ### The table -/

namespace HostTable

/-- **Each host is there once**, at its index, which the table of the hosts gives. A host is known by its uid. -/
structure ListsOnce (hosts : List CStr) (t : HostTable) : Prop where
  uids : ((List.range t.hosts.numHosts).map fun k => (t.infos k).uid).Perm (hosts.map hashHostname)
  idx : ∀ k < t.hosts.numHosts, (t.infos k).idx = k
  lookup : ∀ k < t.hosts.numHosts, t.hosts.hostLookupTable.lookup (t.infos k).uid = some k

/-- The hosts that are added come after those that are there. -/
theorem infos_foldl (t : HostTable) (hs : List CStr) {k : ℕ} {h : CStr} (hk : hs[k]? = some h) :
    (hs.foldl add t).infos (t.hosts.numHosts + k) = ⟨some h, hashHostname h, t.hosts.numHosts + k⟩ := by
  induction hs using List.reverseRecOn with
  | nil => cases hk
  | append_singleton hs last ih =>
    rw [List.foldl_append, List.foldl_cons, List.foldl_nil, add]
    dsimp only
    rw [numHosts_foldl]
    rcases getElem?_snoc hk with ⟨hlt, hk⟩ | ⟨rfl, rfl⟩
    · rw [Function.update_of_ne (by omega)]
      exact ih hk
    · rw [Function.update_self]

/-- The table of the hosts knows the last host with a uid. -/
theorem lookup_foldl (t : HostTable) (hs : List CStr) (hnodup : (hs.map hashHostname).Nodup) {k : ℕ} {h : CStr}
    (hk : hs[k]? = some h) :
    (hs.foldl add t).hosts.hostLookupTable.lookup (hashHostname h) = some (t.hosts.numHosts + k) := by
  induction hs using List.reverseRecOn with
  | nil => cases hk
  | append_singleton hs last ih =>
    rw [List.map_append, List.nodup_append] at hnodup
    rw [List.foldl_append, List.foldl_cons, List.foldl_nil]
    rcases getElem?_snoc hk with ⟨-, hk⟩ | ⟨rfl, rfl⟩
    · have hne : hashHostname h ≠ hashHostname last :=
        hnodup.2.2 _ (List.mem_map_of_mem (List.mem_of_getElem? hk)) _ (by simp)
      rw [lookup_add_of_ne _ hne]
      exact ih hnodup.1 hk
    · rw [lookup_add_self, numHosts_foldl]

/-- **When the hosts that are added are there once.** -/
theorem listsOnce_foldl_iff {t : HostTable} (ht : t.hosts.numHosts = 0) {hs hosts : List CStr}
    (hnodup : (hosts.map hashHostname).Nodup) :
    (hs.foldl add t).ListsOnce hosts ↔ (hs.map hashHostname).Perm (hosts.map hashHostname) := by
  have hnum : (hs.foldl add t).hosts.numHosts = hs.length := by rw [numHosts_foldl, ht, Nat.zero_add]
  have hinfos {k : ℕ} {h : CStr} (hk : hs[k]? = some h) :
      (hs.foldl add t).infos k = ⟨some h, hashHostname h, k⟩ := by
    have hi := infos_foldl t hs hk
    rwa [ht, Nat.zero_add] at hi
  have huids : ((List.range (hs.foldl add t).hosts.numHosts).map fun k => ((hs.foldl add t).infos k).uid) =
      hs.map hashHostname := by
    rw [hnum]
    refine List.ext_getElem (by simp) fun k hk hk' => ?_
    rw [List.length_map] at hk'
    rw [List.getElem_map, List.getElem_range, List.getElem_map, hinfos (List.getElem?_eq_getElem hk')]
  constructor
  · intro h
    rw [← huids]
    exact h.uids
  · intro h
    constructor
    case uids => rwa [huids]
    case idx =>
      intro k hk
      rw [hnum] at hk
      rw [hinfos (List.getElem?_eq_getElem hk)]
    case lookup =>
      intro k hk
      rw [hnum] at hk
      rw [hinfos (List.getElem?_eq_getElem hk)]
      have hl := lookup_foldl t hs (h.nodup_iff.2 hnodup) (List.getElem?_eq_getElem hk)
      rwa [ht, Nat.zero_add] at hl

end HostTable

/-! ### The lines -/

/-- **The DPUs of a line have one name**, but for those before it that are taken for `UNKNOWN_HOST`. -/
def OneName (ns : List CStr) : Prop :=
  ∃ us n vs, ns = us ++ n :: vs ∧ (∀ u ∈ us, hashHostname u = LineState.unknownHost) ∧
    hashHostname n ≠ LineState.unknownHost ∧ ∀ v ∈ vs, hashHostname v = hashHostname n

theorem changes_eq_zero {last : ℕ} {ns : List CStr} : changes last ns = 0 ↔ ∀ n ∈ ns, hashHostname n = last := by
  rw [← not_iff_not, ← Ne, ← Nat.pos_iff_ne_zero, changes_pos]
  simp

/-- A line adds its host once exactly when its DPUs have one name. -/
theorem changes_eq_one {ns : List CStr} : changes LineState.unknownHost ns = 1 ↔ OneName ns := by
  induction ns with
  | nil =>
    refine ⟨fun h => absurd h Nat.zero_ne_one, ?_⟩
    rintro ⟨us, n, vs, h, -⟩
    simp at h
  | cons n ns ih =>
    rw [changes]
    by_cases hn : hashHostname n ≠ LineState.unknownHost
    · rw [if_pos hn, Nat.add_eq_right, changes_eq_zero]
      constructor
      · exact fun h => ⟨[], n, ns, rfl, fun u hu => absurd hu List.not_mem_nil, hn, h⟩
      · rintro ⟨us, m, vs, he, hus, hm, hvs⟩
        cases us with
        | nil =>
          rw [List.nil_append, List.cons.injEq] at he
          obtain ⟨rfl, rfl⟩ := he
          exact hvs
        | cons u us =>
          rw [List.cons_append, List.cons.injEq] at he
          exact absurd (he.1 ▸ hus u List.mem_cons_self) hn
    · rw [if_neg hn, ih]
      constructor
      · rintro ⟨us, m, vs, rfl, hus, hm, hvs⟩
        exact ⟨n :: us, m, vs, rfl, List.forall_mem_cons.2 ⟨not_not.1 hn, hus⟩, hm, hvs⟩
      · rintro ⟨us, m, vs, he, hus, hm, hvs⟩
        cases us with
        | nil =>
          rw [List.nil_append, List.cons.injEq] at he
          exact absurd (he.1 ▸ hm) hn
        | cons u us =>
          rw [List.cons_append, List.cons.injEq] at he
          exact ⟨us, m, vs, he.2, fun w hw => hus w (List.mem_cons_of_mem u hw), hm, hvs⟩

/-- The host of a line. -/
def lineHost (l : CStr) : CStr := (strtok ',' l).headD []

/-- The hosts with a DPU of the list. -/
def listedHosts (names ls : List CStr) : List CStr := (ls.filter fun l => dpuNames names l ≠ []).map lineHost

/-- **The lines add each of these hosts once** exactly when each of their lines does. -/
theorem addedHosts_perm_iff {names ls : List CStr} (hnodup : (ls.map lineUid).Nodup) :
    ((ls.flatMap (addedHosts names)).map hashHostname).Perm ((listedHosts names ls).map hashHostname) ↔
      ∀ l ∈ ls, dpuNames names l ≠ [] → OneName (dpuNames names l) := by
  have huids : ((listedHosts names ls).map hashHostname).Nodup := by
    rw [listedHosts, List.map_map]
    exact hnodup.sublist (List.filter_sublist.map _)
  have hadded : (ls.flatMap (addedHosts names)).map hashHostname =
      ls.flatMap fun l => List.replicate (changes LineState.unknownHost (dpuNames names l)) (lineUid l) := by
    rw [List.map_flatMap]
    simp only [addedHosts, List.map_replicate]
    rfl
  constructor
  · intro h l hl hne
    rw [hadded] at h
    have hle : changes LineState.unknownHost (dpuNames names l) ≤ 1 := by
      have hline := (List.nodup_flatMap.1 (h.nodup_iff.2 huids)).1 l hl
      rwa [List.nodup_replicate] at hline
    -- the host of the line is among those that are added, so its own line adds it
    have hmem : lineUid l ∈ (listedHosts names ls).map hashHostname := by
      rw [listedHosts, List.map_map]
      exact List.mem_map.2 ⟨l, List.mem_filter.2 ⟨hl, by simpa using hne⟩, rfl⟩
    obtain ⟨l', hl', hin⟩ := List.mem_flatMap.1 (h.mem_iff.2 hmem)
    obtain ⟨hpos, huid⟩ := List.mem_replicate.1 hin
    cases List.inj_on_of_nodup_map hnodup hl hl' huid
    exact changes_eq_one.1 (by omega)
  · intro h
    have hlines : ls.flatMap (addedHosts names) = listedHosts names ls := by
      clear hnodup huids hadded
      induction ls with
      | nil => rfl
      | cons l ls ih =>
        rw [List.flatMap_cons, ih fun l' hl' => h l' (List.mem_cons_of_mem l hl'), addedHosts, listedHosts, listedHosts]
        by_cases hne : dpuNames names l ≠ []
        · rw [changes_eq_one.2 (h l List.mem_cons_self hne), List.filter_cons_of_pos (by simpa using hne)]
          rfl
        · rw [not_not.1 hne, List.filter_cons_of_neg (by simpa using hne)]
          rfl
    rw [hlines]

/-- A configuration file for an SP, with one line for each host. -/
structure SpFile (names : List CStr) where
  /-- The text. -/
  content : CStr
  /-- The first line. -/
  version : CStr
  /-- The other lines. -/
  lines : List CStr
  content_eq : strtok '\n' content = version :: lines
  version_eq : checkConfigFileVersion version = some 1
  /-- What a line says of a DPU of the list has all its parts. -/
  descs : ∀ l ∈ hostLines lines, ∀ t ∈ (strtok ',' l).tail, ∀ name, dpuName names t = some name →
    ∃ d, dpuDesc t = some d
  /-- The names of the hosts have different hashes. -/
  hosts : ((hostLines lines).map lineUid).Nodup

/-- **Each host is there once** exactly when the DPUs of the list on a line have one name. -/
theorem host_once_iff {env : SpEnv} {hostname : CStr} {cfg₀ cfg : OffloadingConfig}
    (hlist : parseListDpus env (.init hostname) = some cfg₀) (f : SpFile (strtok ',' env.listDpus))
    (hfile : cfg₀.findDpuConfigFromPlatformConfigfile f.content = some cfg) :
    cfg.hostTable.ListsOnce (listedHosts (strtok ',' env.listDpus) (hostLines f.lines)) ↔
      ∀ l ∈ hostLines f.lines, dpuNames (strtok ',' env.listDpus) l ≠ [] →
        OneName (dpuNames (strtok ',' env.listDpus) l) := by
  have hn := named_parseListDpus hlist
  rw [findDpuConfigFromPlatformConfigfile, f.content_eq] at hfile
  dsimp only at hfile
  rw [f.version_eq, Option.bind_some, if_neg (by decide)] at hfile
  have hne : ∀ l ∈ f.lines, l ≠ [] := by
    intro l hl
    have hmem : l ∈ strtok '\n' f.content := by
      rw [f.content_eq]
      exact List.mem_cons_of_mem _ hl
    simpa using (List.mem_filter.1 hmem).2
  rw [hn.knows.hostTable_parseDpuLines hne f.descs hfile, HostTable.listsOnce_foldl_iff]
  · exact addedHosts_perm_iff f.hosts
  · rw [OffloadingConfig.hostTable, hn.hosts]
  · rw [listedHosts, List.map_map]
    exact f.hosts.sublist (List.filter_sublist.map _)

/-- Two DPUs. -/
def listPair : SpEnv := ⟨"a,b".toList, none, none, none⟩

/-- A file with the two DPUs, of one host or of two. -/
def SpFile.ofPair (oneHost : Bool) : SpFile (strtok ',' listPair.listDpus) where
  content :=
    if oneHost then "#Format version:1\nh,a:A:1:2,b:B:3:4".toList else "#Format version:1\nh,a:A:1:2\nk,b:B:3:4".toList
  version := "#Format version:1".toList
  lines := if oneHost then ["h,a:A:1:2,b:B:3:4".toList] else ["h,a:A:1:2".toList, "k,b:B:3:4".toList]
  content_eq := by cases oneHost <;> decide +kernel
  version_eq := checkConfigFileVersion_one
  descs := by
    have hall : ∀ l ∈ hostLines
        (if oneHost then ["h,a:A:1:2,b:B:3:4".toList] else ["h,a:A:1:2".toList, "k,b:B:3:4".toList]),
        ∀ t ∈ (strtok ',' l).tail, (dpuDesc t).isSome = true := by cases oneHost <;> decide +kernel
    exact fun l hl t ht _ _ => Option.isSome_iff_exists.1 (hall l hl t ht)
  hosts := by cases oneHost <;> decide +kernel

/-- The SP of `a` parses the file. -/
theorem exists_parsed_pair (oneHost : Bool) : ∃ cfg₀ cfg, parseListDpus listPair (.init ['a']) = some cfg₀ ∧
    cfg₀.findDpuConfigFromPlatformConfigfile (SpFile.ofPair oneHost).content = some cfg := by
  have hsome : ((parseListDpus listPair (.init ['a'])).bind fun cfg₀ =>
      cfg₀.findDpuConfigFromPlatformConfigfile (SpFile.ofPair oneHost).content).isSome = true := by
    cases oneHost <;> decide +kernel
  obtain ⟨cfg, h⟩ := Option.isSome_iff_exists.1 hsome
  obtain ⟨cfg₀, hlist, hfile⟩ := Option.bind_eq_some_iff.1 h
  exact ⟨cfg₀, cfg, hlist, hfile⟩

/-- Two hosts with one DPU each. -/
theorem host_once_pair : ∃ cfg₀ cfg, parseListDpus listPair (.init ['a']) = some cfg₀ ∧
    cfg₀.findDpuConfigFromPlatformConfigfile (SpFile.ofPair false).content = some cfg ∧
    cfg.hostTable.ListsOnce [['h'], ['k']] := by
  obtain ⟨cfg₀, cfg, hlist, hfile⟩ := exists_parsed_pair false
  refine ⟨cfg₀, cfg, hlist, hfile, (host_once_iff hlist (SpFile.ofPair false) hfile).2 fun l hl hne => ?_⟩
  have hall : ∀ l ∈ hostLines (SpFile.ofPair false).lines,
      changes LineState.unknownHost (dpuNames (strtok ',' listPair.listDpus) l) = 1 := by decide +kernel
  exact changes_eq_one.1 (hall l hl)

/-- **A host with two DPUs of the list** is there twice. -/
theorem not_host_once :
    ((parseListDpus listPair (.init ['a'])).bind fun cfg₀ =>
      (cfg₀.findDpuConfigFromPlatformConfigfile (SpFile.ofPair true).content).map fun cfg =>
        (cfg.hosts.numHosts, cfg.hostsConfig 0, cfg.hostsConfig 1)) =
      some (2, ⟨some ['h'], hashHostname ['h'], 0⟩, ⟨some ['h'], hashHostname ['h'], 1⟩) ∧
    ¬ ∀ cfg₀ cfg, parseListDpus listPair (.init ['a']) = some cfg₀ →
      cfg₀.findDpuConfigFromPlatformConfigfile (SpFile.ofPair true).content = some cfg →
        cfg.hostTable.ListsOnce
          (listedHosts (strtok ',' listPair.listDpus) (hostLines (SpFile.ofPair true).lines)) := by
  have hval : ((parseListDpus listPair (.init ['a'])).bind fun cfg₀ =>
      (cfg₀.findDpuConfigFromPlatformConfigfile (SpFile.ofPair true).content).map fun cfg =>
        (cfg.hosts.numHosts, cfg.hostsConfig 0, cfg.hostsConfig 1)) =
      some (2, ⟨some ['h'], hashHostname ['h'], 0⟩, ⟨some ['h'], hashHostname ['h'], 1⟩) := by decide +kernel
  refine ⟨hval, fun hall => ?_⟩
  obtain ⟨cfg₀, hlist, h⟩ := Option.bind_eq_some_iff.1 hval
  obtain ⟨cfg, hfile, hv⟩ := Option.map_eq_some_iff.1 h
  have hlen := (hall cfg₀ cfg hlist hfile).uids.length_eq
  have hnum : cfg.hostTable.hosts.numHosts = 2 := congrArg Prod.fst hv
  rw [List.length_map, List.length_range, hnum] at hlen
  exact absurd hlen (by decide +kernel)

end DpuOffload
