import DpuOffload.Config.PlatformFile
import DpuOffload.Lib.DynArray
import DpuOffload.Lib.Strtok

/-!
# Parsing an entry of a DPU

`parse_dpu_cfg` (`dpu_offload_utils.c`) as it works in memory. The entry

    <dpu>:<address>:<port>&<port>...:<port>&<port>...

is a string in the buffer of a line. It is cut at the colons where it is, and the two lists of ports are
cut at the `&` while the cutting at the colons is under way, in the same buffer. The ports go into arrays
that grow. With the checks compiled out, an entry with missing fields is filled as far as it goes. `parseDpuCfg` is what
the parser means on strings.

* `parsePorts_eq` — what the loop over the ports leaves.
* `parseDpuCfgAt_refines` — **the parser computes `parseDpuCfg`**, for every string in every buffer.
* `parse_dpu_entry` — **parsing an entry undoes writing it**, and an entry with less than four fields is not parsed.
-/

namespace DpuOffload

open Strtok

/-- The character that ends a string. -/
def NUL : Char := Char.ofNat 0

/-- `dpu_config_data_t.version_1`. -/
structure DpuVersion1 where
  /-- The name. -/
  hostname : Option CStr
  /-- The address. -/
  addr : Option CStr
  /-- `num_host_ports`. -/
  numHostPorts : ℕ
  /-- The ports hosts connect to. -/
  hostPorts : DynArray ℤ
  /-- `num_interdpu_ports`. -/
  numInterdpuPorts : ℕ
  /-- The ports SPs connect to. -/
  interdpuPorts : DynArray ℤ
  deriving DecidableEq

/-- An entry in memory that is all zero. -/
def DpuVersion1.blank : DpuVersion1 where
  hostname := none
  addr := none
  numHostPorts := 0
  hostPorts := .zero
  numInterdpuPorts := 0
  interdpuPorts := .zero

/-! ### The loops -/

/-- The loop over the ports of a list: the memory, the array and the number of ports. The next token is at `token`,
the rest of the list at `str`; after `fuel` ports it is given up. -/
def parsePorts : ℕ → List Char → Option ℕ → ℕ → DynArray ℤ → ℕ → Option (List Char × DynArray ℤ × ℕ)
  | _, mem, none, _, ports, j => some (mem, ports, j)
  | 0, _, some _, _, _, _ => none
  | fuel + 1, mem, some token, str, ports, j =>
    (ports.getElt 0 j).bind fun ports =>
      let next := strtokR NUL '&' mem str
      parsePorts fuel next.1 next.2.1 next.2.2 (ports.set j (atoi (cStr NUL mem token))) (j + 1)

/-- The list of ports at `str`. -/
def parsePortList (mem : List Char) (str : ℕ) (ports : DynArray ℤ) : Option (List Char × DynArray ℤ × ℕ) :=
  let first := strtokR NUL '&' mem str
  parsePorts mem.length first.1 first.2.1 first.2.2 ports 0

/-- What the loop of `parse_dpu_cfg` works on. -/
structure DpuParser where
  /-- The memory. -/
  mem : List Char
  /-- `token`. -/
  token : Option ℕ
  /-- `rest`. -/
  rest : ℕ
  /-- `config_entry`. -/
  entry : DpuVersion1

/-- `strtok_r(rest, ":", &rest)`. -/
def DpuParser.next (st : DpuParser) : DpuParser :=
  let r := strtokR NUL ':' st.mem st.rest
  { st with mem := r.1, token := r.2.1, rest := r.2.2 }

/-- The loop of `parse_dpu_cfg`, with `step`; each turn but the last goes on to the next step. -/
def DpuParser.loop : ℕ → ℕ → DpuParser → Option (DpuParser × Bool)
  | 0, _, _ => none
  | fuel + 1, step, st =>
    match st.token with
    | none => some (st, false)
    | some token =>
      match step with
      | 0 => loop fuel 1 { st with entry := { st.entry with addr := some (cStr NUL st.mem token) } }.next
      | 1 =>
        (parsePortList st.mem token st.entry.interdpuPorts).bind fun (mem, ports, j) =>
          let st := { st with mem := mem, entry := { st.entry with interdpuPorts := ports } }.next
          loop fuel 2 { st with entry := { st.entry with numInterdpuPorts := j } }
      | 2 =>
        (parsePortList st.mem token st.entry.hostPorts).bind fun (mem, ports, j) =>
          some ({ st with mem := mem, entry := { st.entry with hostPorts := ports, numHostPorts := j } }, true)
      | step => loop fuel step st

/-- `parse_dpu_cfg`, on the string at `str`: the memory, the entry and what it returns. `strdup` follows a null pointer
when there is no name. -/
def parseDpuCfgAt (mem : List Char) (str : ℕ) (e : DpuVersion1) : Option (List Char × DpuVersion1 × Bool) :=
  let st : DpuParser :=
    { mem := mem, token := none, rest := str
      entry := { e with interdpuPorts := .alloc 0 2, hostPorts := .alloc 0 2 } }
  let st := st.next
  (st.entry.hostname.or (st.token.map (cStr NUL st.mem))).bind fun name =>
    let st := { st with entry := { st.entry with hostname := some name } }.next
    (st.loop 3 0).map fun r => (r.1.mem, r.1.entry, r.2)

/-! ### The lists of ports -/

theorem colon_ne_nul : ':' ≠ NUL := by decide

theorem amp_ne_nul : '&' ≠ NUL := by decide

variable {mem : List Char} {pos : ℕ} {s t r : CStr}

theorem strtok_nil {sep : Char} (h : nextToken sep s = none) : strtok sep s = [] := filter_splitOn_none h

theorem strtok_cons {sep : Char} (h : nextToken sep s = some (t, r)) : strtok sep s = t :: strtok sep r :=
  filter_splitOn_some h

/-- **The loop over the ports** puts what the tokens say behind the ports there are. -/
theorem parsePorts_eq (fuel : ℕ) (h : StrAt NUL mem pos s) (hf : s.length ≤ fuel) {ports : DynArray ℤ} {l : List ℤ}
    (hl : ports.Holds 0 l) : ∃ mem' ports',
      parsePorts fuel (strtokR NUL '&' mem pos).1 (strtokR NUL '&' mem pos).2.1 (strtokR NUL '&' mem pos).2.2 ports
        l.length = some (mem', ports', l.length + (strtok '&' s).length) ∧
      ports'.Holds 0 (l ++ (strtok '&' s).map atoi) ∧ AgreeOutside pos (pos + s.length) mem mem' := by
  induction fuel generalizing mem pos s ports l with
  | zero =>
    obtain rfl := List.length_eq_zero_iff.1 (Nat.le_zero.1 hf)
    obtain ⟨q, hq, -⟩ := strtokR_none amp_ne_nul h rfl
    rw [hq]
    exact ⟨mem, ports, rfl, by simpa [strtok] using hl, .refl _ _ _⟩
  | succ fuel ih =>
    cases hn : nextToken '&' s with
    | none =>
      obtain ⟨q, hq, -⟩ := strtokR_none amp_ne_nul h hn
      rw [hq, strtok_nil hn]
      exact ⟨mem, ports, rfl, by simpa using hl, .refl _ _ _⟩
    | some tr =>
      obtain ⟨t, r⟩ := tr
      have hlt := length_rest_lt hn
      obtain ⟨mem₁, p, q, hpq, htok, hrest, hp, hpt, hqr, ha⟩ := strtokR_some amp_ne_nul h hn
      obtain ⟨ports₁, hget, hl₁⟩ := hl.push (atoi t)
      obtain ⟨mem₂, ports₂, hrun, hl₂, ha₂⟩ := ih hrest (by omega) hl₁
      rw [List.length_append, List.length_singleton] at hrun
      refine ⟨mem₂, ports₂, ?_, ?_, ha.trans (ha₂.mono (by omega) hqr)⟩
      · rw [hpq, strtok_cons hn, List.length_cons, Nat.add_comm (strtok '&' r).length, ← Nat.add_assoc]
        simp only [parsePorts, hget, Option.bind_some, htok.cStr_eq]
        exact hrun
      · rw [strtok_cons hn, List.map_cons, List.append_cons]
        exact hl₂

/-- **A list of ports** is put into a new array. -/
theorem parsePortList_eq (h : StrAt NUL mem pos s) : ∃ mem' ports,
    parsePortList mem pos (.alloc 0 2) = some (mem', ports, (strtok '&' s).length) ∧
      ports.Holds 0 ((strtok '&' s).map atoi) ∧ AgreeOutside pos (pos + s.length) mem mem' := by
  obtain ⟨mem', ports, hrun, hl, ha⟩ := parsePorts_eq mem.length h (by have := h.lt; omega)
    (DynArray.holds_alloc 0 Nat.two_pos)
  rw [List.length_nil, Nat.zero_add] at hrun
  exact ⟨mem', ports, hrun, hl, ha⟩

/-! ### The entry -/

namespace DpuParser

/-- No token is left. -/
theorem next_none (st : DpuParser) (h : StrAt NUL st.mem st.rest s) (hn : nextToken ':' s = none) :
    ∃ q, st.next = { st with token := none, rest := q } ∧ StrAt NUL st.mem q [] := by
  obtain ⟨q, hq, hend⟩ := strtokR_none colon_ne_nul h hn
  exact ⟨q, by rw [next, hq], hend⟩

/-- The next token, with the rest behind it. -/
theorem next_some (st : DpuParser) (h : StrAt NUL st.mem st.rest s) (hn : nextToken ':' s = some (t, r)) :
    ∃ m p q, st.next = { st with mem := m, token := some p, rest := q } ∧ StrAt NUL m p t ∧ StrAt NUL m q r ∧
      st.rest ≤ p ∧ p + t.length ≤ q ∧ q + r.length ≤ st.rest + s.length ∧
      AgreeOutside st.rest (st.rest + s.length) st.mem m := by
  obtain ⟨m, p, q, hpq, hrest⟩ := strtokR_some colon_ne_nul h hn
  exact ⟨m, p, q, by rw [next, hpq], hrest⟩

end DpuParser

/-- What an entry in memory means. -/
structure DpuVersion1.Means (e : DpuVersion1) (d : DpuConfigData) : Prop where
  /-- The name. -/
  hostname : e.hostname = d.hostname
  /-- The address. -/
  addr : e.addr = d.addr
  /-- The number of ports. -/
  numInterdpuPorts : e.numInterdpuPorts = d.numInterdpuPorts
  /-- The ports SPs connect to. -/
  interdpuPorts : e.interdpuPorts.Holds 0 d.interdpuPorts
  /-- The ports hosts connect to. -/
  hostPorts : e.hostPorts.Holds 0 d.hostPorts

/-- The parser leaves memory `mem'`, an entry that means `d` and says whether it has parsed it all; it has written
between `lo` and `hi` only. -/
def Parsed (lo hi : ℕ) (mem : List Char) (d : DpuConfigData) (b : Bool) :
    Option (List Char × DpuVersion1 × Bool) → Prop
  | none => False
  | some (mem', e, b') => b' = b ∧ e.Means d ∧ (b = true → e.numHostPorts = d.hostPorts.length) ∧
      AgreeOutside lo hi mem mem'

theorem Parsed.mono {lo hi lo' hi' : ℕ} {m m' : List Char} {d : DpuConfigData} {b : Bool}
    {o : Option (List Char × DpuVersion1 × Bool)} (h : Parsed lo hi m' d b o) (ha : AgreeOutside lo' hi' m m')
    (hlo : lo' ≤ lo) (hhi : hi ≤ hi') : Parsed lo' hi' m d b o := by
  cases o with
  | none => exact h
  | some r =>
    obtain ⟨hb, hm, hn, hag⟩ := h
    exact ⟨hb, hm, hn, ha.trans (hag.mono hlo hhi)⟩

namespace DpuParser

/-- What the loop leaves of the entry, and what is returned. -/
def result (r : DpuParser × Bool) : List Char × DpuVersion1 × Bool := (r.1.mem, r.1.entry, r.2)

/-- No token is left: the entry is not parsed to its end. -/
theorem loop_none (st : DpuParser) (htok : st.token = none) (fuel step lo hi : ℕ) {d : DpuConfigData}
    (hd : st.entry.Means d) : Parsed lo hi st.mem d false ((st.loop (fuel + 1) step).map result) := by
  rw [loop, htok]
  exact ⟨rfl, hd, fun hf => absurd hf Bool.false_ne_true, .refl _ _ _⟩

/-- The last step: the ports for hosts. -/
theorem loop_hostPorts (st : DpuParser) {p : ℕ} (htok : st.token = some p) (h : StrAt NUL st.mem p t)
    (hports : st.entry.hostPorts = .alloc 0 2) {d : DpuConfigData} (hd : st.entry.Means d) :
    Parsed p (p + t.length) st.mem { d with hostPorts := (strtok '&' t).map atoi } true
      ((st.loop 1 2).map result) := by
  obtain ⟨mem', ports, hrun, hl, ha⟩ := parsePortList_eq h
  simp only [loop, htok, hports, hrun]
  refine ⟨rfl, ⟨hd.hostname, hd.addr, hd.numInterdpuPorts, hd.interdpuPorts, hl⟩, fun _ => ?_, ha⟩
  exact (List.length_map _).symm

/-- The step before: the ports for SPs, with the ports for hosts in what is left. -/
theorem loop_interdpuPorts (st : DpuParser) {p : ℕ} (htok : st.token = some p) (h : StrAt NUL st.mem p t)
    (hrest : StrAt NUL st.mem st.rest r) (hp : p + t.length ≤ st.rest) (hinter : st.entry.interdpuPorts = .alloc 0 2)
    (hhost : st.entry.hostPorts = .alloc 0 2) {d : DpuConfigData} {addr : CStr}
    (hd : st.entry.Means { d with addr := some addr }) :
    let o := parseDpuFields d (addr :: t :: strtok ':' r)
    Parsed p (st.rest + r.length) st.mem o.1 o.2 ((st.loop 2 1).map result) := by
  have hloop : st.loop 2 1 = (parsePortList st.mem p (.alloc 0 2)).bind fun x =>
      let st' := { st with mem := x.1, entry := { st.entry with interdpuPorts := x.2.1 } }.next
      DpuParser.loop 1 2 { st' with entry := { st'.entry with numInterdpuPorts := x.2.2 } } := by
    simp only [loop, htok, hinter]
  obtain ⟨mem₁, ports, hrun, hl, ha⟩ := parsePortList_eq h
  have hr₁ : StrAt NUL mem₁ st.rest r := hrest.frame ha hp
  have hag : AgreeOutside p (st.rest + r.length) st.mem mem₁ := ha.mono (Nat.le_refl _) (by omega)
  have hmeans : DpuVersion1.Means
      { st.entry with interdpuPorts := ports, numInterdpuPorts := (strtok '&' t).length }
      { d with
        addr := some addr
        numInterdpuPorts := ((strtok '&' t).map atoi).length
        interdpuPorts := (strtok '&' t).map atoi } :=
    ⟨hd.hostname, hd.addr, (List.length_map _).symm, hl, hd.hostPorts⟩
  rw [hloop, hrun, Option.bind_some]
  cases hn : nextToken ':' r with
  | none =>
    obtain ⟨q, hq, -⟩ := next_none { st with mem := mem₁, entry := { st.entry with interdpuPorts := ports } } hr₁ hn
    rw [strtok_nil hn, hq]
    exact (loop_none ⟨mem₁, none, q, _⟩ rfl 0 2 _ _ hmeans).mono hag (Nat.le_refl _) (Nat.le_refl _)
  | some tr =>
    obtain ⟨host, r'⟩ := tr
    obtain ⟨m, p', q, hq, hhostAt, -, hrp, hpq, hqr, ha'⟩ :=
      next_some { st with mem := mem₁, entry := { st.entry with interdpuPorts := ports } } hr₁ hn
    rw [strtok_cons hn, hq]
    dsimp only at hrp hqr ha'
    have hlast := loop_hostPorts ⟨m, some p', q, { st.entry with
      interdpuPorts := ports, numInterdpuPorts := (strtok '&' t).length }⟩ rfl hhostAt hhost hmeans
    exact hlast.mono (hag.trans (ha'.mono (by omega) (Nat.le_refl _))) (by omega) (by omega)

/-- **The loop** reads the fields behind the name. -/
theorem loop_fields (st : DpuParser) (h : StrAt NUL st.mem st.rest s) (hinter : st.entry.interdpuPorts = .alloc 0 2)
    (hhost : st.entry.hostPorts = .alloc 0 2) {d : DpuConfigData} (hd : st.entry.Means d) :
    let o := parseDpuFields d (strtok ':' s)
    Parsed st.rest (st.rest + s.length) st.mem o.1 o.2 ((st.next.loop 3 0).map result) := by
  cases hn₁ : nextToken ':' s with
  | none =>
    obtain ⟨q, hq, -⟩ := st.next_none h hn₁
    rw [strtok_nil hn₁, hq]
    exact loop_none ⟨st.mem, none, q, _⟩ rfl 2 0 _ _ hd
  | some tr =>
    obtain ⟨addr, r₁⟩ := tr
    obtain ⟨m₁, p₁, q₁, hq₁, haddr, hr₁, hp₁, hpq₁, hqr₁, ha₁⟩ := st.next_some h hn₁
    have hmeans : DpuVersion1.Means { st.entry with addr := some addr } { d with addr := some addr } :=
      ⟨hd.hostname, rfl, hd.numInterdpuPorts, hd.interdpuPorts, hd.hostPorts⟩
    rw [strtok_cons hn₁, hq₁, loop]
    simp only [haddr.cStr_eq]
    cases hn₂ : nextToken ':' r₁ with
    | none =>
      obtain ⟨q, hq, -⟩ := next_none ⟨m₁, some p₁, q₁, { st.entry with addr := some addr }⟩ hr₁ hn₂
      rw [strtok_nil hn₂, hq]
      exact (loop_none ⟨m₁, none, q, _⟩ rfl 1 1 _ _ hmeans).mono ha₁ (Nat.le_refl _) (Nat.le_refl _)
    | some tr =>
      obtain ⟨inter, r₂⟩ := tr
      obtain ⟨m₂, p₂, q₂, hq₂, hinter₂, hr₂, hp₂, hpq₂, hqr₂, ha₂⟩ :=
        next_some ⟨m₁, some p₁, q₁, { st.entry with addr := some addr }⟩ hr₁ hn₂
      rw [strtok_cons hn₂, hq₂]
      dsimp only at hp₂ hqr₂ ha₂
      have hports := loop_interdpuPorts ⟨m₂, some p₂, q₂, { st.entry with addr := some addr }⟩ rfl hinter₂ hr₂ hpq₂
        hinter hhost hmeans
      dsimp only at hports
      exact hports.mono (ha₁.trans (ha₂.mono (by omega) (by omega))) (by omega) (by omega)

end DpuParser

/-- **The parser in memory computes `parseDpuCfg`**, wherever the entry lies, and writes within the entry only. -/
theorem parseDpuCfgAt_refines (h : StrAt NUL mem pos s) {e : DpuVersion1} {d : DpuConfigData}
    (hname : e.hostname = d.hostname) (haddr : e.addr = d.addr) (hnum : e.numInterdpuPorts = d.numInterdpuPorts) :
    match parseDpuCfg s d with
    | none => parseDpuCfgAt mem pos e = none
    | some (d', b) => Parsed pos (pos + s.length) mem d' b (parseDpuCfgAt mem pos e) := by
  have hmeans (name : CStr) : DpuVersion1.Means
      { e with hostname := some name, interdpuPorts := .alloc 0 2, hostPorts := .alloc 0 2 }
      { d with hostname := some name, interdpuPorts := [], hostPorts := [] } :=
    ⟨rfl, haddr, hnum, DynArray.holds_alloc 0 Nat.two_pos, DynArray.holds_alloc 0 Nat.two_pos⟩
  generalize hst : (⟨mem, none, pos, { e with interdpuPorts := .alloc 0 2, hostPorts := .alloc 0 2 }⟩ : DpuParser) = st
  have hat : parseDpuCfgAt mem pos e = (st.next.entry.hostname.or (st.next.token.map (cStr NUL st.next.mem))).bind
      fun name => (({ st.next with entry := { st.next.entry with hostname := some name } }.next).loop 3 0).map
        DpuParser.result := by
    rw [← hst]
    rfl
  have hs : StrAt NUL st.mem st.rest s := by rw [← hst]; exact h
  rw [hat, parseDpuCfg]
  cases hn : nextToken ':' s with
  | none =>
    obtain ⟨q, hq, hend⟩ := st.next_none hs hn
    rw [strtok_nil hn, hq, ← hst]
    dsimp only [List.head?_nil, Option.map_none]
    rw [Option.or_none, Option.or_none, hname]
    cases hd : d.hostname with
    | none => rfl
    | some name =>
      rw [← hst] at hend
      obtain ⟨q', hq', -⟩ := DpuParser.next_none ⟨mem, none, q, { e with
        hostname := some name, interdpuPorts := .alloc 0 2, hostPorts := .alloc 0 2 }⟩ hend rfl
      rw [Option.bind_some, hq']
      exact DpuParser.loop_none ⟨mem, none, q', _⟩ rfl 2 0 _ _ (hmeans name)
  | some tr =>
    obtain ⟨name, r⟩ := tr
    obtain ⟨m, p, q, hq, hnameAt, hr, hp, hpq, hqr, ha⟩ := st.next_some hs hn
    rw [strtok_cons hn, hq, ← hst]
    rw [← hst] at hp hqr ha
    dsimp only [List.head?_cons, List.tail_cons, Option.map_some] at hp hqr ha ⊢
    rw [hnameAt.cStr_eq, hname]
    obtain ⟨n, hn⟩ : ∃ n, d.hostname.or (some name) = some n := by cases d.hostname <;> exact ⟨_, rfl⟩
    rw [hn, Option.bind_some]
    have hfields := DpuParser.loop_fields ⟨m, some p, q, { e with
      hostname := some n, interdpuPorts := .alloc 0 2, hostPorts := .alloc 0 2 }⟩ hr rfl rfl (hmeans n)
    dsimp only at hfields
    exact hfields.mono ha (by omega) (by omega)

/-! ### Writing an entry -/

/-- A field of an entry: some characters other than the separator. -/
structure DpuField where
  /-- The characters. -/
  val : CStr
  /-- There is one. -/
  ne_nil : val ≠ []
  /-- None separates fields. -/
  not_colon : ':' ∉ val
  /-- None ends a string. -/
  not_nul : NUL ∉ val

/-- A port: a positive value of type `int`. -/
structure Port where
  /-- The value. -/
  val : ℕ
  /-- It is positive. -/
  pos : 0 < val
  /-- It is of type `int`. -/
  le_int_max : (val : ℤ) ≤ INT_MAX

/-- Ports, with `&` between them. -/
def renderPorts (ports : List Port) : CStr := ['&'].intercalate (ports.map fun p => Nat.toDigits 10 p.val)

/-- The entry of a DPU. -/
def renderDpu (hostname addr : DpuField) (interdpuPorts hostPorts : List Port) : CStr :=
  [':'].intercalate [hostname.val, addr.val, renderPorts interdpuPorts, renderPorts hostPorts]

/-- Fields with separators between them are cut into the fields. -/
theorem strtok_intercalate {sep : Char} {fields : List CStr} (h : ∀ u ∈ fields, u ≠ [] ∧ sep ∉ u) :
    strtok sep ([sep].intercalate fields) = fields := by
  cases fields with
  | nil => rfl
  | cons u us =>
    rw [strtok, List.splitOn_intercalate sep (fun u hu => (h u hu).2) (List.cons_ne_nil u us), List.filter_eq_self]
    intro u hu
    simpa using (h u hu).1

theorem isDigit_ne {c d : Char} (hc : c.isDigit = true) (hd : d.isDigit = false) : c ≠ d := by
  rintro rfl
  rw [hc] at hd
  cases hd

/-- The digits of a number are read as the number. -/
theorem atoi_toDigits (n : ℕ) : atoi (Nat.toDigits 10 n) = n := by
  have hdig : ∀ c ∈ Nat.toDigits 10 n, c.isDigit = true :=
    fun c hc => Nat.isDigit_of_mem_toDigits (by decide) (by decide) hc
  have hval : ((Nat.toDigits 10 n).foldl (fun (k : ℤ) c => k * 10 + (c.toNat - 48 : ℕ)) 0) = n := by
    have hcast : ∀ (l : List Char) (k : ℕ), l.foldl (fun (k : ℤ) c => k * 10 + (c.toNat - 48 : ℕ)) k =
        ((Nat.ofDigitChars 10 l k : ℕ) : ℤ) := by
      intro l
      induction l with
      | nil => exact fun k => rfl
      | cons c l ih =>
        intro k
        rw [List.foldl_cons, Nat.ofDigitChars_cons, ← ih]
        congr 1
        push_cast
        rw [Int.mul_comm]
    have h := hcast (Nat.toDigits 10 n) 0
    rw [Nat.ofDigitChars_ten_toDigits] at h
    exact h
  have htake : (Nat.toDigits 10 n).takeWhile Char.isDigit = Nat.toDigits 10 n :=
    List.takeWhile_eq_self_iff.2 hdig
  obtain ⟨c, l, hl⟩ := List.exists_cons_of_ne_nil (Nat.toDigits_ne_nil (n := n) (b := 10))
  have hc : c.isDigit = true := hdig c (by rw [hl]; exact List.mem_cons_self)
  have hrange : 48 ≤ c.toNat := by
    rw [Char.isDigit, Bool.and_eq_true, decide_eq_true_iff, decide_eq_true_iff] at hc
    exact hc.1
  have hdrop : (Nat.toDigits 10 n).dropWhile (fun c => c = ' ' ∨ 9 ≤ c.toNat ∧ c.toNat ≤ 13) = Nat.toDigits 10 n := by
    rw [hl, List.dropWhile_cons_of_neg]
    have h₁ : c ≠ ' ' := isDigit_ne hc rfl
    rw [decide_eq_true_iff]
    rintro (h | h)
    · exact h₁ h
    · omega
  have hminus : ∀ l', Nat.toDigits 10 n ≠ '-' :: l' := by
    intro l' h
    rw [hl] at h
    exact isDigit_ne hc rfl (List.cons.inj h).1
  have hplus : ∀ l', Nat.toDigits 10 n ≠ '+' :: l' := by
    intro l' h
    rw [hl] at h
    exact isDigit_ne hc rfl (List.cons.inj h).1
  rw [atoi, hdrop]
  split
  · exact absurd ‹_› (hminus _)
  · exact absurd ‹_› (hplus _)
  · dsimp only
    rw [htake, hval]

/-- A list of ports is read as the ports. -/
theorem strtok_renderPorts (ports : List Port) :
    (strtok '&' (renderPorts ports)).map atoi = ports.map fun p => (p.val : ℤ) := by
  have hdigits : ∀ u ∈ ports.map (fun p => Nat.toDigits 10 p.val), u ≠ [] ∧ '&' ∉ u := by
    intro u hu
    obtain ⟨p, -, rfl⟩ := List.mem_map.1 hu
    exact ⟨Nat.toDigits_ne_nil, fun h => isDigit_ne (Nat.isDigit_of_mem_toDigits (by decide) (by decide) h)
      (show '&'.isDigit = false from rfl) rfl⟩
  rw [renderPorts, strtok_intercalate hdigits, List.map_map]
  exact List.map_congr_left fun p _ => atoi_toDigits p.val

theorem mem_intercalate {sep c : Char} {fields : List CStr} (h : c ∈ [sep].intercalate fields) :
    c = sep ∨ ∃ u ∈ fields, c ∈ u := by
  induction fields with
  | nil => cases h
  | cons u us ih =>
    cases us with
    | nil =>
      rw [List.intercalate_singleton] at h
      exact .inr ⟨u, List.mem_singleton_self u, h⟩
    | cons v vs =>
      rw [List.intercalate_cons_cons, List.mem_append, List.mem_append] at h
      rcases h with (h | h) | h
      · exact .inr ⟨u, List.mem_cons_self, h⟩
      · exact .inl (List.mem_singleton.1 h)
      · exact (ih h).imp id fun ⟨w, hw, hc⟩ => ⟨w, List.mem_cons_of_mem u hw, hc⟩

/-- A list of ports is a field of its own. -/
theorem renderPorts_field {ports : List Port} (hp : ports ≠ []) :
    renderPorts ports ≠ [] ∧ ':' ∉ renderPorts ports := by
  constructor
  · intro hnil
    have h := strtok_renderPorts ports
    rw [hnil] at h
    exact hp (List.map_eq_nil_iff.1 h.symm)
  · intro hc
    rcases mem_intercalate hc with h | ⟨u, hu, hc⟩
    · exact absurd h (by decide)
    · obtain ⟨p, -, rfl⟩ := List.mem_map.1 hu
      exact isDigit_ne (Nat.isDigit_of_mem_toDigits (by decide) (by decide) hc) (show ':'.isDigit = false from rfl) rfl

/-- An entry is cut into its four fields. -/
theorem strtok_renderDpu (hostname addr : DpuField) {inter host : List Port} (hi : inter ≠ []) (hh : host ≠ []) :
    strtok ':' (renderDpu hostname addr inter host) =
      [hostname.val, addr.val, renderPorts inter, renderPorts host] := by
  refine strtok_intercalate fun u hu => ?_
  simp only [List.mem_cons, List.not_mem_nil, or_false] at hu
  rcases hu with rfl | rfl | rfl | rfl
  · exact ⟨hostname.ne_nil, hostname.not_colon⟩
  · exact ⟨addr.ne_nil, addr.not_colon⟩
  · exact renderPorts_field hi
  · exact renderPorts_field hh

/-- Less than three fields behind the name are not all. -/
theorem parseDpuFields_short {fields : List CStr} (h : fields.length < 3) (e : DpuConfigData) :
    (parseDpuFields e fields).2 = false := by
  rcases fields with _ | ⟨addr, _ | ⟨inter, _ | ⟨host, rest⟩⟩⟩
  · rfl
  · rfl
  · rfl
  · simp only [List.length_cons] at h
    omega

/-- A string with less than four fields is not parsed. -/
theorem parseDpuCfg_short {d : DpuConfigData} (h : (strtok ':' s).length < 4) (d' : DpuConfigData) :
    parseDpuCfg s d ≠ some (d', true) := by
  intro hsome
  obtain ⟨name, -, hfields⟩ := Option.map_eq_some_iff.1 hsome
  have hlen : (strtok ':' s).tail.length < 3 := by
    rw [List.length_tail]
    omega
  have hshort := parseDpuFields_short hlen { d with hostname := some name, interdpuPorts := [], hostPorts := [] }
  rw [hfields] at hshort
  cases hshort

/-- The name of a DPU. -/
def fieldD : DpuField := ⟨['d'], by decide, by decide, by decide⟩

/-- An address. -/
def fieldA : DpuField := ⟨['a'], by decide, by decide, by decide⟩

/-- **Parsing an entry undoes writing it**: the name, the address, the ports and their numbers. An entry of less than
four fields is not parsed. -/
theorem parse_dpu_entry :
    (∀ (hostname addr : DpuField) (inter host : List Port) (mem : List Char) (pos : ℕ), inter ≠ [] → host ≠ [] →
      StrAt NUL mem pos (renderDpu hostname addr inter host) →
      ∃ mem' e, parseDpuCfgAt mem pos .blank = some (mem', e, true) ∧ e.hostname = some hostname.val ∧
        e.addr = some addr.val ∧
        e.numInterdpuPorts = inter.length ∧
        e.interdpuPorts.elts.take e.numInterdpuPorts = inter.map (fun p => (p.val : ℤ)) ∧
        e.numHostPorts = host.length ∧
        e.hostPorts.elts.take e.numHostPorts = host.map (fun p => (p.val : ℤ))) ∧
    ∀ (fields : List DpuField) (mem : List Char) (pos : ℕ) (e : DpuVersion1), fields.length < 4 →
      StrAt NUL mem pos ([':'].intercalate (fields.map (·.val))) →
      ∀ mem' e', parseDpuCfgAt mem pos e ≠ some (mem', e', true) := by
  constructor
  · intro hostname addr inter host mem pos hi hh hat
    have hparse : parseDpuCfg (renderDpu hostname addr inter host) ⟨none, none, 0, [], []⟩ =
        some (⟨some hostname.val, some addr.val, inter.length, inter.map fun p => (p.val : ℤ),
          host.map fun p => (p.val : ℤ)⟩, true) := by
      rw [parseDpuCfg, strtok_renderDpu hostname addr hi hh]
      simp only [List.head?_cons, List.tail_cons, Option.none_or, Option.map_some, parseDpuFields, strtok_renderPorts,
        List.length_map]
    have href := parseDpuCfgAt_refines hat (e := .blank) (d := ⟨none, none, 0, [], []⟩) rfl rfl rfl
    rw [hparse] at href
    dsimp only at href
    cases hrun : parseDpuCfgAt mem pos .blank with
    | none =>
      rw [hrun] at href
      exact href.elim
    | some r =>
      obtain ⟨mem', e, b⟩ := r
      rw [hrun] at href
      obtain ⟨rfl, hm, hn, -⟩ := href
      have hnum : e.numHostPorts = host.length := by rw [hn rfl, List.length_map]
      have hinter := hm.interdpuPorts.take_eq
      have hhost := hm.hostPorts.take_eq
      rw [List.length_map] at hinter hhost
      exact ⟨mem', e, rfl, hm.hostname, hm.addr, hm.numInterdpuPorts, by rw [hm.numInterdpuPorts]; exact hinter, hnum,
        by rw [hnum]; exact hhost⟩
  · intro fields mem pos e hlen hat mem' e' hrun
    have hcut : strtok ':' ([':'].intercalate (fields.map (·.val))) = fields.map (·.val) := by
      refine strtok_intercalate fun u hu => ?_
      obtain ⟨f, -, rfl⟩ := List.mem_map.1 hu
      exact ⟨f.ne_nil, f.not_colon⟩
    have href := parseDpuCfgAt_refines hat (e := e) (d := ⟨e.hostname, e.addr, e.numInterdpuPorts, [], []⟩) rfl rfl rfl
    rw [hrun] at href
    have hshort := parseDpuCfg_short (s := [':'].intercalate (fields.map (·.val)))
      (d := ⟨e.hostname, e.addr, e.numInterdpuPorts, [], []⟩) (by rw [hcut, List.length_map]; exact hlen)
    split at href
    · cases href
    · rename_i d' b hparse
      obtain ⟨rfl, -⟩ := href
      exact hshort d' hparse

/-- A DPU with three SPs, behind the name of its host in the buffer; and an entry without ports for hosts. -/
theorem parse_dpu_entry_three :
    (∃ mem e, parseDpuCfgAt ("h,d:a:71&72&73:91&92&93".toList ++ [NUL]) 2 .blank = some (mem, e, true) ∧
      e.hostname = some ['d'] ∧ e.addr = some ['a'] ∧ e.numInterdpuPorts = 3 ∧
      e.interdpuPorts.elts.take e.numInterdpuPorts = [71, 72, 73] ∧ e.numHostPorts = 3 ∧
      e.hostPorts.elts.take e.numHostPorts = [91, 92, 93]) ∧
    ∀ mem' e', parseDpuCfgAt ("d:a".toList ++ [NUL]) 0 .blank ≠ some (mem', e', true) := by
  constructor
  · exact parse_dpu_entry.1 fieldD fieldA
      [⟨71, by decide, by decide⟩, ⟨72, by decide, by decide⟩, ⟨73, by decide, by decide⟩]
      [⟨91, by decide, by decide⟩, ⟨92, by decide, by decide⟩, ⟨93, by decide, by decide⟩] _ 2 (by decide) (by decide)
      ⟨by decide, [], by decide⟩
  · exact parse_dpu_entry.2 [fieldD, fieldA] _ 0 .blank (by decide) ⟨by decide, [], by decide⟩

end DpuOffload
