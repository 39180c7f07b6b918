import DpuOffload.Lib.Runs
import DpuOffload.Pools.DynList

/-!
# Active operations

An operation is registered with an engine (`register_new_op`); to execute one, a descriptor is taken
from the pool `free_op_descs` (`op_desc_get`) and submitted (`op_desc_submit`), which puts it on the list of active
operations of an execution context and tells the peer. The peer instantiates the operation
(`op_start_cb`), on its own list, and tells when it is done (`op_completion_cb`); the active
operations are progressed (`progress_active_ops`) through the definitions their descriptors point to.

`debug` says which build it is: the exits of `CHECK_ERR_RETURN` and `CHECK_ERR_GOTO` are there in the debug build
only. In the default build a descriptor is got also for an operation that is not registered, a submission whose event
is not emitted returns success, and where a check would have caught a null pointer the pointer is followed: the step
does not return.

The array of the registered operations is the application's: the library does not allocate it. What is in the
memory of a descriptor before it is written is up to the environment, and so is what the event system answers. The
functions of an operation do not call the library. A descriptor is submitted once, by who has it: the list takes
elements that are on no list. `op_data`, which the library does not read, is left out.

* `OpsSys.Inv` — with the pool and the descriptors that are held, this is kept by every step that is careful; one
  that is not, and returns, spoils it.
* `active_ops_iff` — **the active operations are well formed along a run** exactly when its steps are careful, in both
  builds.
-/

namespace DpuOffload

/-- `offload_op_t`; a function is there or not. -/
structure OffloadOp where
  /-- The algorithm. -/
  algId : ℕ
  /-- Is `op_init` set? -/
  opInit : Bool
  /-- Is `op_complete` set? -/
  opComplete : Bool
  /-- Is `op_progress` set? -/
  opProgress : Bool
  /-- Is `op_fini` set? -/
  opFini : Bool
  /-- `alg_data`. -/
  algData : ℕ
  deriving DecidableEq, Repr

/-- A pointer to a definition. -/
inductive OpPtr where
  /-- `NULL`. -/
  | null
  /-- To a registered operation. -/
  | op (slot : ℕ)
  /-- To something else. -/
  | other
  deriving DecidableEq, Repr

/-- `op_desc_t`. -/
structure OpDesc where
  /-- The id. -/
  id : ℕ
  /-- The definition. -/
  opDefinition : OpPtr
  /-- Is it completed? -/
  completed : Bool
  deriving DecidableEq, Repr

/-- `RESET_OP_DESC`. -/
def OpDesc.reset : OpDesc := ⟨0, .null, false⟩

/-- `sizeof(op_desc_t)`. -/
def sizeofOpDesc : ℕ := 48

/-- What a function returns. -/
inductive OpStatus where
  /-- `DO_SUCCESS`. -/
  | success
  /-- `DO_ERROR`. -/
  | error
  deriving DecidableEq, Repr

/-- An engine, as far as operations go. -/
structure OpsSys where
  /-- `registered_ops`. -/
  registeredOps : List OffloadOp
  /-- How many there is memory for. -/
  room : ℕ
  /-- `free_op_descs`. -/
  freeOpDescs : DynListT OpDesc
  /-- The descriptors on the lists of active operations, each with the execution context it is on the list of. -/
  active : List (ℕ × EltId)
  /-- The descriptors that have been got and not returned. -/
  held : List EltId
  /-- Those of the operations a peer has started. -/
  started : List EltId
  /-- The operation each was got for, -/
  asked : EltId → ℕ
  /-- and the id. -/
  created : EltId → ℕ

/-- What is done. -/
inductive OpsOp where
  /-- `register_new_op`. -/
  | register (op : OffloadOp)
  /-- `op_desc_get`. -/
  | get (id opId : ℕ) (env : GrowEnv OpDesc)
  /-- `op_desc_submit`: is there an event, and is it emitted? -/
  | submit (c : ℕ) (d : EltId) (event emitted : Bool)
  /-- `op_desc_return`. -/
  | ret (d : EltId)
  /-- A start notification is received. -/
  | start (c : ℕ) (data : ℕ) (env : GrowEnv OpDesc)
  /-- A completion notification is received. -/
  | completion (c : ℕ) (data : ℕ)
  /-- `progress_active_ops`. -/
  | progress (c : ℕ)

namespace OpsSys

variable (debug : Bool) (s : OpsSys)

/-- The engine at the start, with memory for `room` operations. -/
def init (room : ℕ) (junk : OpDesc) (env : GrowEnv OpDesc) : Option OpsSys :=
  (DynListT.alloc 8 sizeofOpDesc (by decide) none junk env).map fun l =>
    ⟨[], room, l, [], [], [], fun _ => 0, fun _ => 0⟩

/-- The contents of a descriptor. -/
def desc (d : EltId) : OpDesc := s.freeOpDescs.elts d

/-- The operation a pointer points to. -/
def deref : OpPtr → Option OffloadOp
  | .op slot => s.registeredOps[slot]?
  | _ => none

/-- `active_ops` of an execution context. -/
def activeOps (c : ℕ) : List EltId := (s.active.filter (·.1 = c)).map (·.2)

/-- A descriptor is put at the end of a list of active operations. -/
def activate (c : ℕ) (d : EltId) : OpsSys := { s with active := s.active ++ [(c, d)] }

/-- Is the descriptor on a list of active operations? -/
def Active (d : EltId) : Prop := d ∈ s.active.map (·.2)

instance (d : EltId) : Decidable (s.Active d) := inferInstanceAs (Decidable (_ ∈ _))

/-- `register_new_op`; the slot is an `int`. -/
def registerNewOp (op : OffloadOp) : Option (OpStatus × OpsSys) :=
  if s.registeredOps.length < s.room ∧ s.registeredOps.length < 2 ^ 31 then
    some (.success, { s with registeredOps := s.registeredOps ++ [op] })
  else none

/-- `op_desc_get`. -/
def opDescGet (id opId : ℕ) (env : GrowEnv OpDesc) : Option (OpStatus × OpsSys) :=
  if debug ∧ s.registeredOps.length ≤ opId then some (.error, s)
  else
    (s.freeOpDescs.get env).bind fun p => p.2.map fun d =>
      (.success, { s with
        freeOpDescs := p.1.write d { p.1.elts d with id := id }
        held := d :: s.held
        asked := Function.update s.asked d opId
        created := Function.update s.created d id })

/-- `op_desc_submit`. The descriptor is on the list before the event is emitted. -/
def opDescSubmit (c : ℕ) (d : EltId) (event emitted : Bool) : Option (OpStatus × OpsSys) :=
  if event then some (if debug ∧ emitted = false then .error else .success, s.activate c d)
  else if debug then some (.error, s)
  else none

/-- `op_desc_return`. -/
def opDescReturn (d : EltId) : OpStatus × OpsSys :=
  (.success, { s with freeOpDescs := s.freeOpDescs.ret d, held := s.held.erase d })

/-- `op_start_cb`; `op_init` is called. -/
def opStartCb (c data : ℕ) (env : GrowEnv OpDesc) : Option (OpStatus × OpsSys) :=
  match s.registeredOps.findIdx? (·.algId = data) with
  | none => if debug then some (.error, s) else none
  | some i =>
    (s.freeOpDescs.get env).bind fun p => p.2.bind fun d =>
      if (s.registeredOps[i]?.any (·.opInit)) = true then
        some (.success, { s with
          freeOpDescs := p.1.write d .reset
          started := d :: s.started
          asked := Function.update s.asked d i
          created := Function.update s.created d data }.activate c d)
      else none

/-- `op_completion_cb`; the definition is read. -/
def opCompletionCb (c data : ℕ) : Option (OpStatus × OpsSys) :=
  match (s.activeOps c).find? fun d => (s.desc d).id = data with
  | none => if debug then some (.error, s) else none
  | some d =>
    (s.deref (s.desc d).opDefinition).map fun _ =>
      (.success, { s with freeOpDescs := s.freeOpDescs.write d { s.desc d with completed := true } })

/-- `progress_active_ops`; the definitions are read. -/
def progressActiveOps (c : ℕ) : Option (OpStatus × OpsSys) :=
  if (s.activeOps c).all fun d => (s.deref (s.desc d).opDefinition).isSome then some (.success, s) else none

/-- One step. A descriptor is submitted and returned by who has got it, and is submitted where it is on no list. -/
def step : OpsOp → Option (OpStatus × OpsSys)
  | .register op => s.registerNewOp op
  | .get id opId env => s.opDescGet debug id opId env
  | .submit c d event emitted => if d ∈ s.held ∧ ¬ s.Active d then s.opDescSubmit debug c d event emitted else none
  | .ret d => if d ∈ s.held then some (s.opDescReturn d) else none
  | .start c data env => s.opStartCb debug c data env
  | .completion c data => s.opCompletionCb debug c data
  | .progress c => s.progressActiveOps c

/-- A run. -/
def run : List OpsOp → OpsSys → Option OpsSys
  | [], s => some s
  | op :: ops, s => (s.step debug op).bind fun r => run ops r.2

/-! ### What is asked of a run -/

/-- **The active operations are well formed.** -/
structure WellFormed : Prop where
  /-- Each descriptor has the definition that was asked for, which is registered, -/
  definition : ∀ p ∈ s.active,
    (s.desc p.2).opDefinition = .op (s.asked p.2) ∧ s.asked p.2 < s.registeredOps.length
  /-- has the id it was created with, -/
  id : ∀ p ∈ s.active, (s.desc p.2).id = s.created p.2
  /-- and is not in the pool. -/
  free : ∀ p ∈ s.active, p.2 ∉ s.freeOpDescs.list.internalList

/-- A submission that returns an error leaves the active operations as they were. -/
def StepMeets : OpsOp → OpStatus × OpsSys → Prop
  | .submit _ _ _ _, r => r.1 = .error → r.2.active = s.active
  | _, _ => True

/-- The active operations are well formed before and after each step that returns. -/
def Meets (s : OpsSys) : List OpsOp → Prop
  | [] => s.WellFormed
  | op :: ops => s.WellFormed ∧ ∀ r, s.step debug op = some r → s.StepMeets op r ∧ r.2.Meets ops

/-- A submission is careful where there is no event, or the event is emitted, in the debug build, and the memory of the
descriptor happens to point to the operation asked for, which is registered; a return, where the descriptor is not
active; a start, where there is no such operation. -/
def Careful : OpsOp → Prop
  | .submit _ d event emitted => event = true →
      (debug = true → emitted = true) ∧ (s.desc d).opDefinition = .op (s.asked d) ∧ s.asked d < s.registeredOps.length
  | .ret d => ¬ s.Active d
  | .start _ data _ => ∀ op ∈ s.registeredOps, op.algId ≠ data
  | _ => True

/-- The steps of a run that return are careful. -/
def AllCareful (s : OpsSys) : List OpsOp → Prop
  | [] => True
  | op :: ops => ∀ r, s.step debug op = some r → s.Careful debug op ∧ r.2.AllCareful ops

/-! ### What is kept -/

/-- **What every careful step keeps.** -/
structure Inv : Prop where
  /-- The pool owns its descriptors. -/
  owns : s.freeOpDescs.Owns (s.held ++ s.started)
  /-- Those that are active have been taken, -/
  taken : ∀ p ∈ s.active, p.2 ∈ s.held ++ s.started
  /-- have the definition asked for, -/
  definition : ∀ p ∈ s.active,
    (s.desc p.2).opDefinition = .op (s.asked p.2) ∧ s.asked p.2 < s.registeredOps.length
  /-- and their id. -/
  id : ∀ p ∈ s.active, (s.desc p.2).id = s.created p.2
  /-- What has been got has its id. -/
  got : ∀ d ∈ s.held, (s.desc d).id = s.created d

variable {debug s} {s' : OpsSys} {st : OpStatus} {op : OpsOp} {ops : List OpsOp}

theorem Inv.wellFormed (h : s.Inv) : s.WellFormed where
  definition := h.definition
  id := h.id
  free p hp hfree := List.disjoint_of_nodup_append h.owns.sound hfree (h.taken p hp)

/-- An operation is registered. -/
theorem Inv.register (h : s.Inv) (op : OffloadOp) : Inv { s with registeredOps := s.registeredOps ++ [op] } where
  owns := h.owns
  taken := h.taken
  definition p hp := by
    obtain ⟨hdef, hlt⟩ := h.definition p hp
    refine ⟨hdef, ?_⟩
    simp
    omega
  id := h.id
  got := h.got

/-- **A descriptor is got.** -/
theorem Inv.get (h : s.Inv) {id opId : ℕ} {env : GrowEnv OpDesc} (hs : s.opDescGet debug id opId env = some (st, s')) :
    s'.Inv := by
  unfold opDescGet at hs
  split at hs
  next =>
    cases hs
    exact h
  next =>
    obtain ⟨p, hget, hs⟩ := Option.bind_eq_some_iff.1 hs
    obtain ⟨d, hd, heq⟩ := Option.map_eq_some_iff.1 hs
    cases heq
    obtain ⟨e, he, hfree, howns, helts⟩ := h.owns.of_get hget
    rw [hd] at he
    cases he
    have hne : ∀ x ∈ s.held ++ s.started, x ≠ d := by
      rintro x hx rfl
      exact hfree hx
    have hstay : ∀ x ∈ s.held ++ s.started,
        (p.1.write d { p.1.elts d with id := id }).elts x = s.freeOpDescs.elts x := by
      intro x hx
      rw [DynListT.elts_write_of_ne (hne x hx), helts x hx]
    refine ⟨howns.write _ _, fun q hq => List.mem_cons_of_mem _ (h.taken q hq), fun q hq => ?_, fun q hq => ?_,
      fun x hx => ?_⟩
    · have hq' := h.taken q hq
      simpa [desc, hstay _ hq', hne _ hq'] using h.definition q hq
    · have hq' := h.taken q hq
      simpa [desc, hstay _ hq', hne _ hq'] using h.id q hq
    · obtain rfl | hx := List.mem_cons.1 hx
      · simp [desc, DynListT.elts_write_self]
      · have hx' : x ∈ s.held ++ s.started := List.mem_append_left _ hx
        simpa [desc, hstay _ hx', hne _ hx'] using h.got x hx

/-- **A descriptor is submitted.** -/
theorem Inv.submit (h : s.Inv) {c : ℕ} {d : EltId} {event emitted : Bool} (hd : d ∈ s.held)
    (hc : s.Careful debug (.submit c d event emitted)) (hs : s.opDescSubmit debug c d event emitted = some (st, s')) :
    s'.Inv ∧ s.StepMeets (.submit c d event emitted) (st, s') := by
  unfold opDescSubmit at hs
  split at hs
  next hev =>
    cases hs
    obtain ⟨hemit, hdef, hlt⟩ := hc hev
    have hnew : ∀ {P : ℕ × EltId → Prop}, (∀ p ∈ s.active, P p) → P (c, d) → ∀ p ∈ s.active ++ [(c, d)], P p := by
      intro P hP hcd p hp
      obtain hp | hp := List.mem_append.1 hp
      · exact hP p hp
      · rw [List.mem_singleton.1 hp]
        exact hcd
    refine ⟨⟨h.owns, ?_, ?_, ?_, h.got⟩, fun herr => ?_⟩
    · exact hnew h.taken (List.mem_append_left _ hd)
    · exact hnew h.definition ⟨hdef, hlt⟩
    · exact hnew h.id (h.got d hd)
    · -- an error is returned by the debug build only, where the event is emitted
      have hok : ¬ (debug = true ∧ emitted = false) := fun hno => absurd (hemit hno.1) (by rw [hno.2]; nofun)
      rw [if_neg hok] at herr
      cases herr
  next =>
    split at hs
    · cases hs
      exact ⟨h, fun _ => rfl⟩
    · cases hs

/-- A submission that is not careful fails and leaves the descriptor active, or makes one active without the definition
asked for. -/
theorem not_submit {c : ℕ} {d : EltId} {event emitted : Bool} (hc : ¬ s.Careful debug (.submit c d event emitted))
    (hs : s.opDescSubmit debug c d event emitted = some (st, s')) :
    ¬ (s.StepMeets (.submit c d event emitted) (st, s') ∧ s'.WellFormed) := by
  rintro ⟨hmeets, hwf⟩
  obtain ⟨hev, hno⟩ := Classical.not_imp.1 hc
  rw [opDescSubmit, if_pos hev] at hs
  cases hs
  refine hno ⟨fun hdebug => ?_, hwf.definition (c, d) (List.mem_append_right _ (List.mem_singleton_self _))⟩
  by_contra hemit
  have hact : s.active ++ [(c, d)] = s.active := hmeets (if_pos ⟨hdebug, Bool.not_eq_true _ ▸ hemit⟩)
  simp at hact

/-- **A descriptor is returned.** -/
theorem Inv.ret (h : s.Inv) {d : EltId} (hd : d ∈ s.held) (hact : ¬ s.Active d) : (s.opDescReturn d).2.Inv where
  owns := by
    have howns := h.owns.ret (List.mem_append_left _ hd)
    rwa [List.erase_append_left _ hd] at howns
  taken p hp := by
    have hne : p.2 ≠ d := fun heq => hact (heq ▸ List.mem_map_of_mem hp)
    obtain hp | hp := List.mem_append.1 (h.taken p hp)
    · exact List.mem_append_left _ ((List.mem_erase_of_ne hne).2 hp)
    · exact List.mem_append_right _ hp
  definition := h.definition
  id := h.id
  got x hx := h.got x (List.mem_of_mem_erase hx)

theorem not_ret {d : EltId} (hact : s.Active d) : ¬ (s.opDescReturn d).2.WellFormed := by
  intro hwf
  obtain ⟨p, hp, rfl⟩ := List.mem_map.1 hact
  exact hwf.free p hp List.mem_cons_self

/-- **An operation is started by a peer**: its descriptor has no definition. -/
theorem start_iff {c data : ℕ} {env : GrowEnv OpDesc} (h : s.Inv)
    (hs : s.opStartCb debug c data env = some (st, s')) :
    (s.Careful debug (.start c data env) → s'.Inv) ∧ (¬ s.Careful debug (.start c data env) → ¬ s'.WellFormed) := by
  unfold opStartCb at hs
  split at hs
  next hnone =>
    split at hs
    · cases hs
      refine ⟨fun _ => h, fun hno => absurd (fun op hop => ?_) hno⟩
      simpa using List.findIdx?_eq_none_iff.1 hnone op hop
    · cases hs
  next i hi =>
    obtain ⟨p, hget, hs⟩ := Option.bind_eq_some_iff.1 hs
    obtain ⟨d, hd, hs⟩ := Option.bind_eq_some_iff.1 hs
    split at hs
    · cases hs
      refine ⟨fun hc => ?_, fun _ hwf => ?_⟩
      · obtain ⟨hlt, heq, -⟩ := List.findIdx?_eq_some_iff_getElem.1 hi
        exact absurd (by simpa using heq) (hc _ (List.getElem_mem hlt))
      · have hdef := (hwf.definition (c, d) (List.mem_append_right _ (List.mem_singleton_self _))).1
        simp [desc, activate, DynListT.elts_write_self, OpDesc.reset] at hdef
    · cases hs

/-- A completed descriptor keeps its definition and its id. -/
theorem Inv.completion (h : s.Inv) {c data : ℕ} (hs : s.opCompletionCb debug c data = some (st, s')) : s'.Inv := by
  unfold opCompletionCb at hs
  split at hs
  · split at hs
    · cases hs
      exact h
    · cases hs
  · next d hd =>
    obtain ⟨o, -, heq⟩ := Option.map_eq_some_iff.1 hs
    cases heq
    have hsame : ∀ x, ((s.freeOpDescs.write d { s.desc d with completed := true }).elts x).opDefinition =
        (s.desc x).opDefinition ∧
        ((s.freeOpDescs.write d { s.desc d with completed := true }).elts x).id = (s.desc x).id := by
      intro x
      by_cases hx : x = d
      · subst hx
        simp [DynListT.elts_write_self]
      · simp [DynListT.elts_write_of_ne hx, desc]
    refine ⟨h.owns.write _ _, h.taken, fun p hp => ?_, fun p hp => ?_, fun x hx => ?_⟩
    · obtain ⟨hdef, hlt⟩ := h.definition p hp
      exact ⟨(hsame p.2).1.trans hdef, hlt⟩
    · exact (hsame p.2).2.trans (h.id p hp)
    · exact (hsame x).2.trans (h.got x hx)

/-- **One step** meets what it has to exactly when it is careful. -/
theorem step_iff (h : s.Inv) {r : OpStatus × OpsSys} (hs : s.step debug op = some r) :
    (s.Careful debug op → r.2.Inv ∧ s.StepMeets op r) ∧
      (¬ s.Careful debug op → ¬ (s.StepMeets op r ∧ r.2.WellFormed)) := by
  cases op with
  | register op =>
    rw [step, registerNewOp] at hs
    split at hs
    · cases hs
      exact ⟨fun _ => ⟨h.register op, trivial⟩, fun hno => absurd trivial hno⟩
    · cases hs
  | get id opId env => exact ⟨fun _ => ⟨h.get hs, trivial⟩, fun hno => absurd trivial hno⟩
  | submit c d event emitted =>
    rw [step] at hs
    split at hs
    next hd => exact ⟨fun hc => h.submit hd.1 hc hs, fun hno => not_submit hno hs⟩
    next => cases hs
  | ret d =>
    rw [step] at hs
    split at hs
    next hd =>
      cases hs
      exact ⟨fun hc => ⟨h.ret hd hc, trivial⟩, fun hno hwf => not_ret (not_not.1 hno) hwf.2⟩
    next => cases hs
  | start c data env =>
    obtain ⟨hgood, hbad⟩ := start_iff h hs
    exact ⟨fun hc => ⟨hgood hc, trivial⟩, fun hno hwf => hbad hno hwf.2⟩
  | completion c data => exact ⟨fun _ => ⟨h.completion hs, trivial⟩, fun hno => absurd trivial hno⟩
  | progress c =>
    rw [step, progressActiveOps] at hs
    split at hs
    · cases hs
      exact ⟨fun _ => ⟨h, trivial⟩, fun hno => absurd trivial hno⟩
    · cases hs

theorem asks_meets : Runs.Asks (step debug) (·.2) WellFormed StepMeets (Meets debug) := ⟨fun _ => Iff.rfl, fun _ _ _ => Iff.rfl⟩

theorem allows_careful : Runs.Allows (step debug) (·.2) (Careful debug) (AllCareful debug) :=
  ⟨fun _ => trivial, fun s op ops r hs => by simp [AllCareful, hs]⟩

theorem follows_run : Runs.Follows (step debug) (·.2) (run debug) := ⟨fun _ => rfl, fun _ _ _ => rfl⟩

/-- **A run.** -/
theorem meets_iff (h : s.Inv) : s.Meets debug ops ↔ s.AllCareful debug ops := by
  apply Runs.asks_iff asks_meets allows_careful _ _ _ _ h fun _ _ => trivial
  · intro s op ops hs r hs'
    rw [hs] at hs'
    cases hs'
  · exact Inv.wellFormed
  · exact fun h _ hs hc => ((step_iff h hs).1 hc).symm
  · exact fun h _ hs => (step_iff h hs).2

end OpsSys

/-- **The active operations are well formed along a run** exactly when its steps are careful, in both builds. -/
theorem active_ops_iff (debug : Bool) (room : ℕ) (junk : OpDesc) (env : GrowEnv OpDesc) :
    ∃ s, OpsSys.init room junk env = some s ∧ ∀ ops, s.Meets debug ops ↔ s.AllCareful debug ops := by
  have hfit : 8 * sizeofOpDesc < 2 ^ 64 := by decide
  obtain ⟨l, hl, howns⟩ := DynListT.owns_alloc hfit none junk env
  refine ⟨⟨[], room, l, [], [], [], fun _ => 0, fun _ => 0⟩, by rw [OpsSys.init, hl]; rfl, fun ops => ?_⟩
  apply OpsSys.meets_iff
  refine ⟨howns, fun p hp => ?_, fun p hp => ?_, fun p hp => ?_, fun d hd => ?_⟩
  · exact absurd hp List.not_mem_nil
  · exact absurd hp List.not_mem_nil
  · exact absurd hp List.not_mem_nil
  · exact absurd hd List.not_mem_nil

/-- An operation without functions but `op_init`. -/
def someOp : OffloadOp := ⟨5, true, false, false, false, 0⟩

/-- There is memory for descriptors, and it is zero. -/
def opsMemory : GrowEnv OpDesc := ⟨some fun _ => .reset, true⟩

/-- An operation is registered, and a descriptor got for it and submitted. -/
def submitted : List OpsOp := [.register someOp, .get 9 0 opsMemory, .submit 0 ⟨0, 7⟩ true true]

/-- The descriptor is active, in the default build, and its definition is not set. -/
theorem not_active_ops :
    ((OpsSys.init 1 .reset opsMemory).bind (OpsSys.run false submitted)).map
        (fun s => s.active.map fun p => (p, s.desc p.2)) =
      some [((0, ⟨0, 7⟩), ⟨9, .null, false⟩)] ∧
    ¬ ∀ room junk env s ops, OpsSys.init room junk env = some s → s.Meets false ops := by
  have hval : ((OpsSys.init 1 .reset opsMemory).bind (OpsSys.run false submitted)).map
      (fun s => s.active.map fun p => (p, s.desc p.2)) = some [((0, ⟨0, 7⟩), ⟨9, .null, false⟩)] := by
    decide +kernel
  refine ⟨hval, fun hall => ?_⟩
  obtain ⟨s, hs, heq⟩ := Option.map_eq_some_iff.1 hval
  obtain ⟨s₀, hs₀, hrun⟩ := Option.bind_eq_some_iff.1 hs
  have hwf := OpsSys.asks_meets.of_run OpsSys.follows_run (hall _ _ _ s₀ _ hs₀) hrun
  obtain ⟨p, hp, hdesc⟩ := List.mem_map.1 (heq ▸ List.mem_singleton_self _)
  have hdef := (hwf.definition p hp).1
  rw [(Prod.mk.inj hdesc).2] at hdef
  cases hdef

end DpuOffload
