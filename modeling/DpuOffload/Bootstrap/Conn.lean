import Mathlib.Data.List.Induction
import Mathlib.Logic.Function.Basic

/-!
# One connection being established

`bootstrapping_t` (`dpu_offload_types.h`) with the UCX operations it keeps track of. After
the sockets are connected a client sends the size of its address, its address and its rank,
one after the other, and the server receives them; when a process of a host connects to an
SP there is a fourth step, with which the SP tells the client about itself.

Posting an operation gives `NULL`, when it completed right away, or a request; in that case
the callback of the operation runs at any later time and sets `complete`, and the request
has to be freed. `Conn` is a bootstrapping with the requests in flight and a record of what
happened. Errors of UCX are left out: every operation completes.

What should happen is said by `Justified`, one note of the record at a time, and by the
machine `Hist`, whose records are all justified (`Hist.justified`).
-/

namespace DpuOffload

/-- The phase of a bootstrapping. -/
inductive Phase where
  /-- `BOOTSTRAP_NOT_INITIATED`. -/
  | bootstrapNotInitiated
  /-- `OOB_CONNECT_DONE`: the sockets are connected. -/
  | oobConnectDone
  /-- `UCX_CONNECT_DONE`: the first three steps are over. -/
  | ucxConnectDone
  /-- `BOOTSTRAP_DONE`. -/
  | bootstrapDone
  /-- `DISCONNECTED`. -/
  | disconnected
  deriving DecidableEq, Repr

/-- The steps of a bootstrapping. -/
inductive BootStep where
  /-- The size of the address. -/
  | addrSize
  /-- The address. -/
  | addr
  /-- The rank. -/
  | rank
  /-- The data of the SP. -/
  | step4
  deriving DecidableEq, Repr

/-- What `bootstrapping_t` has for one step. -/
@[ext]
structure BootOp where
  /-- The request, if there is one. -/
  request : Option ℕ
  /-- Has the operation completed? -/
  complete : Bool
  deriving DecidableEq, Repr

/-- `bootstrapping_t`. -/
structure Bootstrapping where
  /-- The phase. -/
  phase : Phase
  /-- The steps. -/
  op : BootStep → BootOp
  /-- `step4.posted`. -/
  posted : Bool

/-- `RESET_BOOTSTRAPPING`, and what memory that is all zero says. -/
def Bootstrapping.reset : Bootstrapping where
  phase := .bootstrapNotInitiated
  op _ := ⟨none, false⟩
  posted := false

/-- What happens to a bootstrapping. -/
inductive BootNote where
  /-- An operation was posted, with its request unless it completed right away. -/
  | posted (s : BootStep) (request : Option ℕ)
  /-- The callback of a request ran. -/
  | completed (request : ℕ)
  /-- A request was freed. -/
  | freed (request : ℕ)
  /-- The phase changed. -/
  | phase (p : Phase)
  /-- The server finalised the connection. -/
  | finalized
  /-- The application was told. -/
  | connected
  deriving DecidableEq, Repr

/-- A connection being established. -/
structure Conn where
  /-- The bootstrapping. -/
  boot : Bootstrapping
  /-- The requests in flight, with their steps. -/
  inFlight : List (ℕ × BootStep)
  /-- The next request. -/
  next : ℕ
  /-- What happened, in order. -/
  log : List BootNote

/-- A connection nothing has happened to. -/
def Conn.reset : Conn where
  boot := Bootstrapping.reset
  inFlight := []
  next := 0
  log := []

namespace Conn

variable (c : Conn)

/-- The state of a step. -/
def op (s : BootStep) : BootOp := c.boot.op s

/-- Note something. -/
def note (x : BootNote) : Conn := { c with log := c.log ++ [x] }

/-- Change the state of a step. -/
def setOp (s : BootStep) (o : BootOp) : Conn := { c with boot := { c.boot with op := Function.update c.boot.op s o } }

/-- Change the phase. -/
def setPhase (p : Phase) : Conn :=
  if c.boot.phase = p then c else { c with boot := { c.boot with phase := p }, log := c.log ++ [.phase p] }

/-- Post the operation of a step, which completes right away or not. Of the fourth step it
is recorded that it was posted. -/
def post (s : BootStep) (now : Bool) : Conn :=
  let o : BootOp := if now then ⟨none, true⟩ else { c.op s with request := some c.next }
  { boot := { (c.setOp s o).boot with posted := c.boot.posted || s = .step4 }
    inFlight := if now then c.inFlight else c.inFlight ++ [(c.next, s)]
    next := if now then c.next else c.next + 1
    log := c.log ++ [.posted s (if now then none else some c.next)] }

/-- `ucp_request_free`, and the request is forgotten. -/
def free (s : BootStep) : Conn :=
  match (c.op s).request with
  | none => c
  | some q => (c.setOp s { c.op s with request := none }).note (.freed q)

/-- The callback of a request in flight runs. -/
def complete (q : ℕ) : Option Conn :=
  (c.inFlight.find? (·.1 == q)).map fun p =>
    { c.setOp p.2 { c.op p.2 with complete := true } with
      inFlight := c.inFlight.filter (·.1 != q)
      log := c.log ++ [.completed q] }

/-- Post a step unless it was. -/
def start (s : BootStep) (now : Bool) : Conn :=
  if (c.op s).complete = false ∧ (c.op s).request = none then c.post s now else c

/-- Free the request of a step that did not complete right away but has now. -/
def cleanUp (s : BootStep) : Conn :=
  if (c.op s).complete = true ∧ (c.op s).request ≠ none then c.free s else c

/-- The first two steps, as the passes of a client and of a server take them. -/
def addrSteps (now : BootStep → Bool) : Conn :=
  let c := (c.start .addrSize (now .addrSize)).cleanUp .addrSize
  let c := if (c.op .addrSize).complete then c.start .addr (now .addr) else c
  c.cleanUp .addr

end Conn

/-! ### What should happen -/

/-- The steps of a bootstrapping, with the fourth or without. -/
def bootSteps (four : Bool) : List BootStep := [.addrSize, .addr, .rank] ++ if four then [.step4] else []

/-- The steps before a step. -/
def BootStep.earlier : BootStep → List BootStep
  | .addrSize => []
  | .addr => [.addrSize]
  | .rank => [.addrSize, .addr]
  | .step4 => [.addrSize, .addr, .rank]

/-- Has a step been posted and completed? -/
def Done (s : BootStep) (l : List BootNote) : Prop :=
  .posted s none ∈ l ∨ ∃ q, .posted s (some q) ∈ l ∧ .completed q ∈ l

/-- **Is a note justified** by those before it, in a bootstrapping with the fourth step or
without? -/
def Justified (four : Bool) (before : List BootNote) : BootNote → Prop
  | .posted s q => s ∈ bootSteps four ∧ (∀ q', .posted s q' ∉ before) ∧ (∀ s' ∈ s.earlier, Done s' before) ∧
      ∀ s' q', q = some q' → .posted s' (some q') ∉ before
  | .completed q => (∃ s, .posted s (some q) ∈ before) ∧ .completed q ∉ before
  | .freed q => .completed q ∈ before ∧ .freed q ∉ before
  | .phase .ucxConnectDone => (∀ s ∈ [BootStep.addrSize, .addr, .rank], Done s before) ∧ ∀ p, .phase p ∉ before
  | .phase .bootstrapDone => (∀ s ∈ bootSteps four, Done s before) ∧ .phase .ucxConnectDone ∈ before ∧
      .phase .bootstrapDone ∉ before ∧ ∀ s q, .posted s (some q) ∈ before → .freed q ∈ before
  | .phase .disconnected => .phase .bootstrapDone ∈ before
  | .phase _ => False
  | .finalized => .phase .bootstrapDone ∈ before ∧ .finalized ∉ before
  | .connected => .phase .bootstrapDone ∈ before ∧ .connected ∉ before

/-- Every note is justified. -/
def Orderly (four : Bool) (l : List BootNote) : Prop := ∀ l₁ x l₂, l = l₁ ++ x :: l₂ → Justified four l₁ x

theorem orderly_nil (four : Bool) : Orderly four [] := by
  intro l₁ x l₂ h
  exact absurd h.symm (List.append_ne_nil_of_right_ne_nil _ (List.cons_ne_nil _ _))

/-- One more note. -/
theorem Orderly.snoc {four : Bool} {l : List BootNote} {x : BootNote} (h : Orderly four l) (hx : Justified four l x) :
    Orderly four (l ++ [x]) := by
  intro l₁ y l₂ he
  rcases List.eq_nil_or_concat l₂ with rfl | ⟨l₃, z, rfl⟩
  · obtain ⟨rfl, hxy⟩ := List.append_inj' he rfl
    cases hxy
    exact hx
  · have he' : l ++ [x] = (l₁ ++ y :: l₃) ++ [z] := by simpa using he
    obtain ⟨rfl, -⟩ := List.append_inj' he' rfl
    exact h l₁ y l₃ rfl

/-- Where a bootstrapping is. -/
inductive BootPos where
  /-- A step is to be posted. -/
  | idle (s : BootStep)
  /-- A step was posted and has not completed. -/
  | waiting (s : BootStep) (q : ℕ)
  /-- A step has completed, its request is to be freed. -/
  | ready (s : BootStep) (q : ℕ)
  /-- A step is over. -/
  | past (s : BootStep)
  /-- All steps are over. -/
  | finishing
  /-- The bootstrapping is over. -/
  | done
  /-- The connection is over. -/
  | gone
  deriving DecidableEq

/-- Where a bootstrapping is after a step. -/
def BootStep.after (four : Bool) : BootStep → BootPos
  | .addrSize => .idle .addr
  | .addr => .idle .rank
  | .rank => if four then .idle .step4 else .finishing
  | .step4 => .finishing

/-- The change of phase after a step. -/
def BootStep.moved : BootStep → List BootNote
  | .rank => [.phase .ucxConnectDone]
  | _ => []

/-- **The records of a bootstrapping**: each step is posted when the one before is over; it
completes right away, or its callback runs and its request is freed. -/
inductive Hist (four : Bool) : BootPos → List BootNote → Prop
  /-- Nothing has happened. -/
  | start : Hist four (.idle .addrSize) []
  /-- A step completes right away. -/
  | now {s : BootStep} {l : List BootNote} : Hist four (.idle s) l → Hist four (.past s) (l ++ [.posted s none])
  /-- A step is posted. -/
  | post {s : BootStep} {q : ℕ} {l : List BootNote} : Hist four (.idle s) l → (∀ s', .posted s' (some q) ∉ l) →
      Hist four (.waiting s q) (l ++ [.posted s (some q)])
  /-- Its callback runs. -/
  | complete {s : BootStep} {q : ℕ} {l : List BootNote} : Hist four (.waiting s q) l →
      Hist four (.ready s q) (l ++ [.completed q])
  /-- Its request is freed. -/
  | free {s : BootStep} {q : ℕ} {l : List BootNote} : Hist four (.ready s q) l → Hist four (.past s) (l ++ [.freed q])
  /-- The next step is to come; after the third the phase changes. -/
  | move {s : BootStep} {l : List BootNote} : Hist four (.past s) l → Hist four (s.after four) (l ++ s.moved)
  /-- The bootstrapping ends. -/
  | finish {l : List BootNote} : Hist four .finishing l → Hist four .done (l ++ [.phase .bootstrapDone])
  /-- The server finalises the connection. -/
  | finalized {l : List BootNote} : Hist four .done l → .finalized ∉ l → Hist four .done (l ++ [.finalized])
  /-- The application is told. -/
  | connected {l : List BootNote} : Hist four .done l → .connected ∉ l → Hist four .done (l ++ [.connected])
  /-- The connection ends. -/
  | disconnect {l : List BootNote} : Hist four .done l → Hist four .gone (l ++ [.phase .disconnected])

/-- The steps that are over. -/
def BootPos.passed (four : Bool) : BootPos → List BootStep
  | .idle s | .waiting s _ | .ready s _ => s.earlier
  | .past s => s.earlier ++ [s]
  | .finishing | .done | .gone => bootSteps four

/-- The step that is not over, with its request. -/
def BootPos.current : BootPos → Option (BootStep × ℕ)
  | .waiting s q | .ready s q => some (s, q)
  | _ => none

/-- Is the record about a step in flight as the position says? -/
def BootPos.Current (four : Bool) (l : List BootNote) : BootPos → Prop
  | .idle s | .past s => s ∈ bootSteps four
  | .waiting s q => s ∈ bootSteps four ∧ .posted s (some q) ∈ l ∧ .completed q ∉ l ∧ .freed q ∉ l
  | .ready s q => s ∈ bootSteps four ∧ .posted s (some q) ∈ l ∧ .completed q ∈ l ∧ .freed q ∉ l
  | _ => True

/-- The changes of phase up to a position. -/
def BootPos.phases : BootPos → List Phase
  | .idle s | .waiting s _ | .ready s _ | .past s => if s = .step4 then [.ucxConnectDone] else []
  | .finishing => [.ucxConnectDone]
  | .done => [.ucxConnectDone, .bootstrapDone]
  | .gone => [.ucxConnectDone, .bootstrapDone, .disconnected]

/-- The changes of phase recorded. -/
def phasesOf (l : List BootNote) : List Phase :=
  l.filterMap fun x => match x with
    | .phase p => some p
    | _ => none

/-- What a record says at a position. -/
structure Known (four : Bool) (pos : BootPos) (l : List BootNote) : Prop where
  /-- Every note is justified. -/
  orderly : Orderly four l
  /-- The steps passed are over. -/
  passed : ∀ s ∈ pos.passed four, Done s l
  /-- The other steps were not posted. -/
  fresh : ∀ s q, .posted s q ∈ l → s ∈ pos.passed four ∨ ∃ q', pos.current = some (s, q') ∧ q = some q'
  /-- The requests of the steps passed were freed. -/
  freed : ∀ s q, .posted s (some q) ∈ l → .freed q ∈ l ∨ pos.current = some (s, q)
  /-- The requests completed or freed were posted. -/
  posted : ∀ q, .completed q ∈ l ∨ .freed q ∈ l → ∃ s, .posted s (some q) ∈ l
  /-- The step in flight is. -/
  current : pos.Current four l
  /-- The phase is that of the position. -/
  phases : phasesOf l = pos.phases
  /-- The end comes at the end. -/
  ended : .finalized ∈ l ∨ .connected ∈ l → pos = .done ∨ pos = .gone

variable {four : Bool} {s : BootStep} {q : ℕ} {l : List BootNote}

theorem Done.append (h : Done s l) (l' : List BootNote) : Done s (l ++ l') := by
  rcases h with h | ⟨q, h, hc⟩
  · exact .inl (List.mem_append_left _ h)
  · exact .inr ⟨q, List.mem_append_left _ h, List.mem_append_left _ hc⟩

theorem mem_phasesOf {p : Phase} : p ∈ phasesOf l ↔ .phase p ∈ l := by
  constructor
  · intro h
    obtain ⟨x, hx, he⟩ := List.mem_filterMap.1 h
    cases x <;> cases he
    exact hx
  · intro h
    exact List.mem_filterMap.2 ⟨_, h, rfl⟩

theorem phasesOf_append (l l' : List BootNote) : phasesOf (l ++ l') = phasesOf l ++ phasesOf l' :=
  List.filterMap_append ..

/-- A step is not among the steps before it. -/
theorem BootStep.notMem_earlier (s : BootStep) : s ∉ s.earlier := by
  cases s <;> decide

theorem Known.notPosted (h : Known four (.idle s) l) (q : Option ℕ) : .posted s q ∉ l := by
  intro hm
  rcases h.fresh s q hm with hs | ⟨q', hc, -⟩
  · exact s.notMem_earlier hs
  · cases hc

theorem Known.now (h : Known four (.idle s) l) : Known four (.past s) (l ++ [.posted s none]) where
  orderly := by
    refine h.orderly.snoc ⟨h.current, h.notPosted, h.passed, ?_⟩
    intro s' q' hq
    cases hq
  passed s' hs' := by
    rcases List.mem_append.1 hs' with hs' | hs'
    · exact (h.passed s' hs').append _
    · rw [List.mem_singleton.1 hs']
      exact .inl (List.mem_append_right _ (List.mem_singleton_self _))
  fresh s' q' hm := by
    refine .inl ?_
    rcases List.mem_append.1 hm with hm | hm
    · rcases h.fresh s' q' hm with hs | ⟨_, hc, -⟩
      · exact List.mem_append_left _ hs
      · cases hc
    · cases List.mem_singleton.1 hm
      exact List.mem_append_right _ (List.mem_singleton_self _)
  freed s' q' hm := by
    rcases List.mem_append.1 hm with hm | hm
    · rcases h.freed s' q' hm with hf | hc
      · exact .inl (List.mem_append_left _ hf)
      · cases hc
    · cases List.mem_singleton.1 hm
  posted q' hm := by
    have hm' : .completed q' ∈ l ∨ .freed q' ∈ l := by simpa using hm
    obtain ⟨s', hs'⟩ := h.posted q' hm'
    exact ⟨s', List.mem_append_left _ hs'⟩
  current := h.current
  phases := by
    rw [phasesOf_append, h.phases]
    exact List.append_nil _
  ended hm := by
    have hm' : .finalized ∈ l ∨ .connected ∈ l := by simpa using hm
    rcases h.ended hm' with hp | hp <;> cases hp

theorem Known.post (h : Known four (.idle s) l) (hq : ∀ s', .posted s' (some q) ∉ l) :
    Known four (.waiting s q) (l ++ [.posted s (some q)]) where
  orderly := by
    refine h.orderly.snoc ⟨h.current, h.notPosted, h.passed, ?_⟩
    intro s' q' he
    cases he
    exact hq s'
  passed s' hs' := (h.passed s' hs').append _
  fresh s' q' hm := by
    rcases List.mem_append.1 hm with hm | hm
    · rcases h.fresh s' q' hm with hs | ⟨_, hc, -⟩
      · exact .inl hs
      · cases hc
    · cases List.mem_singleton.1 hm
      exact .inr ⟨q, rfl, rfl⟩
  freed s' q' hm := by
    rcases List.mem_append.1 hm with hm | hm
    · rcases h.freed s' q' hm with hf | hc
      · exact .inl (List.mem_append_left _ hf)
      · cases hc
    · cases List.mem_singleton.1 hm
      exact .inr rfl
  posted q' hm := by
    have hm' : .completed q' ∈ l ∨ .freed q' ∈ l := by simpa using hm
    obtain ⟨s', hs'⟩ := h.posted q' hm'
    exact ⟨s', List.mem_append_left _ hs'⟩
  current := by
    have hno : ¬ (.completed q ∈ l ∨ .freed q ∈ l) := fun hm => by
      obtain ⟨s', hs'⟩ := h.posted q hm
      exact hq s' hs'
    rw [not_or] at hno
    exact ⟨h.current, by simp, by simpa using hno.1, by simpa using hno.2⟩
  phases := by
    rw [phasesOf_append, h.phases]
    exact List.append_nil _
  ended hm := by
    have hm' : .finalized ∈ l ∨ .connected ∈ l := by simpa using hm
    rcases h.ended hm' with hp | hp <;> cases hp

theorem Known.complete (h : Known four (.waiting s q) l) : Known four (.ready s q) (l ++ [.completed q]) := by
  obtain ⟨hs, hp, hc, hf⟩ := h.current
  exact
    { orderly := h.orderly.snoc ⟨⟨s, hp⟩, hc⟩
      passed := fun s' hs' => (h.passed s' hs').append _
      fresh := fun s' q' hm => h.fresh s' q' (by simpa using hm)
      freed := fun s' q' hm => (h.freed s' q' (by simpa using hm)).imp (List.mem_append_left _) id
      posted := fun q' hm => by
        by_cases hq : q' = q
        · exact ⟨s, by rw [hq]; exact List.mem_append_left _ hp⟩
        · have hm' : .completed q' ∈ l ∨ .freed q' ∈ l := by simpa [hq] using hm
          obtain ⟨s', hs'⟩ := h.posted q' hm'
          exact ⟨s', List.mem_append_left _ hs'⟩
      current := ⟨hs, List.mem_append_left _ hp, by simp, by simpa using hf⟩
      phases := by
        rw [phasesOf_append, h.phases]
        exact List.append_nil _
      ended := fun hm => by
        have hm' : .finalized ∈ l ∨ .connected ∈ l := by simpa using hm
        rcases h.ended hm' with hp | hp <;> cases hp }

theorem Known.free (h : Known four (.ready s q) l) : Known four (.past s) (l ++ [.freed q]) := by
  obtain ⟨hs, hp, hc, hf⟩ := h.current
  exact
    { orderly := h.orderly.snoc ⟨hc, hf⟩
      passed := fun s' hs' => by
        rcases List.mem_append.1 hs' with hs' | hs'
        · exact (h.passed s' hs').append _
        · rw [List.mem_singleton.1 hs']
          exact .inr ⟨q, List.mem_append_left _ hp, List.mem_append_left _ hc⟩
      fresh := fun s' q' hm => by
        refine .inl ?_
        rcases h.fresh s' q' (by simpa using hm) with hs | ⟨_, hc, -⟩
        · exact List.mem_append_left _ hs
        · cases hc
          exact List.mem_append_right _ (List.mem_singleton_self _)
      freed := fun s' q' hm => by
        refine .inl ?_
        rcases h.freed s' q' (by simpa using hm) with hf | hc
        · exact List.mem_append_left _ hf
        · cases hc
          exact List.mem_append_right _ (List.mem_singleton_self _)
      posted := fun q' hm => by
        by_cases hq : q' = q
        · exact ⟨s, by rw [hq]; exact List.mem_append_left _ hp⟩
        · have hm' : .completed q' ∈ l ∨ .freed q' ∈ l := by simpa [hq] using hm
          obtain ⟨s', hs'⟩ := h.posted q' hm'
          exact ⟨s', List.mem_append_left _ hs'⟩
      current := hs
      phases := by
        rw [phasesOf_append, h.phases]
        exact List.append_nil _
      ended := fun hm => by
        have hm' : .finalized ∈ l ∨ .connected ∈ l := by simpa using hm
        rcases h.ended hm' with hp | hp <;> cases hp }

/-- A note about something else than operations. -/
theorem Known.of_note {pos pos' : BootPos} {x : BootNote} (h : Known four pos l) (hx : Justified four l x)
    (hop : ∀ s q, x ≠ .posted s q) (hreq : ∀ q, x ≠ .completed q ∧ x ≠ .freed q)
    (hpass : pos'.passed four = pos.passed four) (hcur : pos.current = none) (hcur' : pos'.Current four (l ++ [x]))
    (hph : phasesOf (l ++ [x]) = pos'.phases)
    (hend : .finalized ∈ l ++ [x] ∨ .connected ∈ l ++ [x] → pos' = .done ∨ pos' = .gone) :
    Known four pos' (l ++ [x]) where
  orderly := h.orderly.snoc hx
  passed s hs := (h.passed s (hpass ▸ hs)).append _
  fresh s q hm := by
    have hm' : .posted s q ∈ l := by
      rcases List.mem_append.1 hm with hm | hm
      · exact hm
      · exact absurd (List.mem_singleton.1 hm).symm (hop s q)
    rcases h.fresh s q hm' with hs | ⟨q', hc, -⟩
    · exact .inl (hpass ▸ hs)
    · rw [hcur] at hc
      cases hc
  freed s q hm := by
    have hm' : .posted s (some q) ∈ l := by
      rcases List.mem_append.1 hm with hm | hm
      · exact hm
      · exact absurd (List.mem_singleton.1 hm).symm (hop s _)
    rcases h.freed s q hm' with hf | hc
    · exact .inl (List.mem_append_left _ hf)
    · rw [hcur] at hc
      cases hc
  posted q hm := by
    have hm' : .completed q ∈ l ∨ .freed q ∈ l := by
      refine hm.imp (fun hm => ?_) fun hm => ?_
      · exact (List.mem_append.1 hm).resolve_right fun hx => (hreq q).1 (List.mem_singleton.1 hx).symm
      · exact (List.mem_append.1 hm).resolve_right fun hx => (hreq q).2 (List.mem_singleton.1 hx).symm
    obtain ⟨s, hs⟩ := h.posted q hm'
    exact ⟨s, List.mem_append_left _ hs⟩
  current := hcur'
  phases := hph
  ended := hend

/-- Only the name of the position changes. -/
theorem Known.rename {pos pos' : BootPos} (h : Known four pos l) (hpass : pos'.passed four = pos.passed four)
    (hcur : pos'.current = pos.current) (hcur' : pos'.Current four l) (hph : pos'.phases = pos.phases)
    (hend : pos ≠ .done ∧ pos ≠ .gone) : Known four pos' l where
  orderly := h.orderly
  passed := by rw [hpass]; exact h.passed
  fresh := by rw [hpass, hcur]; exact h.fresh
  freed := by rw [hcur]; exact h.freed
  posted := h.posted
  current := hcur'
  phases := h.phases.trans hph.symm
  ended hm := by
    rcases h.ended hm with hp | hp
    · exact absurd hp hend.1
    · exact absurd hp hend.2

/-- The first three steps are always taken. -/
theorem BootStep.mem_bootSteps (hs : s ≠ .step4) : s ∈ bootSteps four := by
  cases s with
  | step4 => exact absurd rfl hs
  | _ => cases four <;> decide

theorem Known.move (h : Known four (.past s) l) : Known four (s.after four) (l ++ s.moved) := by
  have hs : s ∈ bootSteps four := h.current
  cases s with
  | addrSize =>
    simp only [BootStep.moved, List.append_nil]
    exact h.rename rfl rfl (BootStep.mem_bootSteps nofun) rfl ⟨nofun, nofun⟩
  | addr =>
    simp only [BootStep.moved, List.append_nil]
    exact h.rename rfl rfl (BootStep.mem_bootSteps nofun) rfl ⟨nofun, nofun⟩
  | rank =>
    have hno : ∀ p, .phase p ∉ l := by
      intro p hp
      have hp := mem_phasesOf.2 hp
      rw [h.phases] at hp
      exact absurd hp List.not_mem_nil
    have hph : phasesOf (l ++ [.phase .ucxConnectDone]) = [.ucxConnectDone] := by
      rw [phasesOf_append, h.phases]
      rfl
    have hend : .finalized ∈ l ++ [.phase .ucxConnectDone] ∨ .connected ∈ l ++ [.phase .ucxConnectDone] → False := by
      intro hm
      have hm' : .finalized ∈ l ∨ .connected ∈ l := by simpa using hm
      rcases h.ended hm' with hp | hp <;> cases hp
    have hx : Justified four l (.phase .ucxConnectDone) := ⟨h.passed, hno⟩
    cases four with
    | true =>
      have hk : Known true (.idle .step4) (l ++ [.phase .ucxConnectDone]) :=
        h.of_note hx nofun (fun _ => ⟨nofun, nofun⟩) rfl rfl (by show _ ∈ bootSteps true; decide) hph
          fun hm => (hend hm).elim
      exact hk
    | false =>
      have hk : Known false .finishing (l ++ [.phase .ucxConnectDone]) :=
        h.of_note hx nofun (fun _ => ⟨nofun, nofun⟩) rfl rfl trivial hph fun hm => (hend hm).elim
      exact hk
  | step4 =>
    simp only [BootStep.moved, List.append_nil]
    cases four with
    | true => exact h.rename rfl rfl trivial rfl ⟨nofun, nofun⟩
    | false => exact absurd hs (by decide)

/-- The records of the machine say what they should. -/
theorem Hist.known {pos : BootPos} (h : Hist four pos l) : Known four pos l := by
  induction h with
  | start =>
    exact
      { orderly := orderly_nil four
        passed := fun s hs => absurd hs List.not_mem_nil
        fresh := fun s q hm => absurd hm List.not_mem_nil
        freed := fun s q hm => absurd hm List.not_mem_nil
        posted := fun q hm => hm.elim (fun hm => absurd hm List.not_mem_nil) fun hm => absurd hm List.not_mem_nil
        current := BootStep.mem_bootSteps nofun
        phases := rfl
        ended := fun hm => hm.elim (fun hm => absurd hm List.not_mem_nil) fun hm => absurd hm List.not_mem_nil }
  | now _ ih => exact ih.now
  | post _ hq ih => exact ih.post hq
  | complete _ ih => exact ih.complete
  | free _ ih => exact ih.free
  | move _ ih => exact ih.move
  | @finish l _ ih =>
    have hph : ∀ p, .phase p ∈ l ↔ p = .ucxConnectDone := by
      intro p
      rw [← mem_phasesOf, ih.phases]
      exact List.mem_singleton
    refine ih.of_note ⟨ih.passed, (hph _).2 rfl, fun hm => ?_, fun s q hm => ?_⟩ nofun (fun _ => ⟨nofun, nofun⟩) rfl rfl
      trivial ?_ fun _ => .inl rfl
    · cases (hph _).1 hm
    · rcases ih.freed s q hm with hf | hc
      · exact hf
      · cases hc
    · rw [phasesOf_append, ih.phases]
      rfl
  | @finalized l _ hn ih =>
    have hd : .phase .bootstrapDone ∈ l := mem_phasesOf.1 (by rw [ih.phases]; decide)
    refine ih.of_note ⟨hd, hn⟩ nofun (fun _ => ⟨nofun, nofun⟩) rfl rfl trivial ?_ fun _ => .inl rfl
    rw [phasesOf_append, ih.phases]
    rfl
  | @connected l _ hn ih =>
    have hd : .phase .bootstrapDone ∈ l := mem_phasesOf.1 (by rw [ih.phases]; decide)
    refine ih.of_note ⟨hd, hn⟩ nofun (fun _ => ⟨nofun, nofun⟩) rfl rfl trivial ?_ fun _ => .inl rfl
    rw [phasesOf_append, ih.phases]
    rfl
  | @disconnect l _ ih =>
    have hd : .phase .bootstrapDone ∈ l := mem_phasesOf.1 (by rw [ih.phases]; decide)
    refine ih.of_note hd nofun (fun _ => ⟨nofun, nofun⟩) rfl rfl trivial ?_ fun _ => .inr rfl
    rw [phasesOf_append, ih.phases]
    rfl

/-! ### Where a connection is -/

/-- The state of a step at a position. -/
def BootPos.op (four : Bool) (pos : BootPos) (s : BootStep) : BootOp :=
  if s ∈ pos.passed four then ⟨none, true⟩
  else
    match pos with
    | .waiting s' q => ⟨if s = s' then some q else none, false⟩
    | .ready s' q => ⟨if s = s' then some q else none, s = s'⟩
    | .done | .gone => ⟨none, true⟩
    | _ => ⟨none, false⟩

/-- The phase at a position. -/
def BootPos.phase : BootPos → Phase
  | .idle s | .waiting s _ | .ready s _ | .past s => if s = .step4 then .ucxConnectDone else .oobConnectDone
  | .finishing => .ucxConnectDone
  | .done => .bootstrapDone
  | .gone => .disconnected

/-- Has the fourth step been posted? -/
def BootPos.posted (four : Bool) : BootPos → Bool
  | .idle _ => false
  | .waiting s _ | .ready s _ | .past s => s = .step4
  | .finishing | .done | .gone => four

/-- The bootstrapping at a position. -/
def BootPos.boot (four : Bool) (pos : BootPos) : Bootstrapping where
  phase := pos.phase
  op := pos.op four
  posted := pos.posted four

/-- The request in flight at a position. -/
def BootPos.inFlight : BootPos → List (ℕ × BootStep)
  | .waiting s q => [(q, s)]
  | _ => []

/-- **A connection is at a position**: its flags and requests are those of the position, and
its record leads there. -/
structure Conn.At (four : Bool) (pos : BootPos) (c : Conn) : Prop where
  /-- The flags and requests. -/
  boot : c.boot = pos.boot four
  /-- The requests in flight. -/
  inFlight : c.inFlight = pos.inFlight
  /-- The record. -/
  hist : Hist four pos c.log
  /-- New requests are new. -/
  bound : ∀ s q, .posted s (some q) ∈ c.log → q < c.next

namespace Conn.At

variable {c : Conn} {pos : BootPos}

theorem op_eq (h : c.At four pos) (s : BootStep) : c.op s = pos.op four s := by
  rw [Conn.op, h.boot]
  rfl

theorem phase_eq (h : c.At four pos) : c.boot.phase = pos.phase := by
  rw [h.boot]
  rfl

theorem posted_eq (h : c.At four pos) : c.boot.posted = pos.posted four := by
  rw [h.boot]
  rfl

/-- A step completes right away. -/
theorem post_now (h : c.At four (.idle s)) : (c.post s true).At four (.past s) where
  boot := by
    simp only [Conn.post, Conn.setOp, h.boot, BootPos.boot, Bootstrapping.mk.injEq]
    refine ⟨rfl, funext fun s' => ?_, rfl⟩
    cases s <;> cases s' <;> rfl
  inFlight := h.inFlight
  hist := h.hist.now
  bound s' q hm := h.bound s' q (by simpa [Conn.post] using hm)

/-- A step is posted. -/
theorem post_later (h : c.At four (.idle s)) : (c.post s false).At four (.waiting s c.next) where
  boot := by
    simp only [Conn.post, Conn.setOp, h.boot, h.op_eq, BootPos.boot, Bootstrapping.mk.injEq]
    refine ⟨rfl, funext fun s' => ?_, rfl⟩
    cases s <;> cases s' <;> rfl
  inFlight := by
    simp only [Conn.post, h.inFlight]
    rfl
  hist := h.hist.post fun s' hm => absurd (h.bound s' _ hm) (Nat.lt_irrefl _)
  bound s' q hm := by
    simp only [Conn.post, List.mem_append, List.mem_singleton] at hm ⊢
    rcases hm with hm | hm
    · exact Nat.lt_succ_of_lt (h.bound s' q hm)
    · cases hm
      exact Nat.lt_succ_self _

/-- The callback of the request in flight runs. -/
theorem complete (h : c.At four pos) {c' : Conn} (hc : c.complete q = some c') :
    ∃ s, pos = .waiting s q ∧ c'.At four (.ready s q) := by
  obtain ⟨p, hp, rfl⟩ := Option.map_eq_some_iff.1 hc
  obtain ⟨hq, hm⟩ := List.find?_eq_some_iff_append.1 hp
  rw [h.inFlight] at hp
  cases pos with
  | waiting s q' =>
    have hp' : p = (q', s) := by
      have := List.mem_of_find?_eq_some hp
      simpa [BootPos.inFlight] using this
    subst hp'
    have hqq : q' = q := by simpa using hq
    subst hqq
    refine ⟨s, rfl, ?_⟩
    exact
      { boot := by
          simp only [Conn.setOp, h.boot, h.op_eq, BootPos.boot, Bootstrapping.mk.injEq]
          refine ⟨rfl, funext fun s' => ?_, rfl⟩
          cases s <;> cases s' <;> rfl
        inFlight := by
          simp only [h.inFlight, BootPos.inFlight]
          simp
        hist := h.hist.complete
        bound := fun s' q hm => h.bound s' q (by simpa using hm) }
  | _ => simp [BootPos.inFlight] at hp

/-- The request is freed. -/
theorem free (h : c.At four (.ready s q)) : (c.free s).At four (.past s) := by
  have ho : c.op s = ⟨some q, true⟩ := by
    rw [h.op_eq]
    cases s <;> simp [BootPos.op, BootPos.passed, BootStep.earlier]
  exact
    { boot := by
        simp only [Conn.free, ho, Conn.note, Conn.setOp, h.boot, BootPos.boot, Bootstrapping.mk.injEq]
        refine ⟨rfl, funext fun s' => ?_, rfl⟩
        cases s <;> cases s' <;> rfl
      inFlight := by
        simp only [Conn.free, ho]
        exact h.inFlight
      hist := by
        simp only [Conn.free, ho]
        exact h.hist.free
      bound := fun s' q hm => by
        simp only [Conn.free, ho] at hm ⊢
        exact h.bound s' q (by simpa [Conn.note, Conn.setOp] using hm) }

/-- The next step is to come. -/
theorem next (h : c.At four (.past s)) (hs : s ≠ .rank) : c.At four (s.after four) := by
  have hm : s.moved = [] := by
    cases s with
    | rank => exact absurd rfl hs
    | _ => rfl
  have hin := h.hist.known.current
  exact
    { boot := by
        rw [h.boot]
        simp only [BootPos.boot, Bootstrapping.mk.injEq]
        cases s with
        | rank => exact absurd rfl hs
        | step4 =>
          cases four with
          | true => exact ⟨rfl, funext fun s' => by cases s' <;> rfl, rfl⟩
          | false => exact absurd hin (by show _ ∉ bootSteps false; decide)
        | _ => exact ⟨rfl, funext fun s' => by cases s' <;> rfl, rfl⟩
      inFlight := by
        rw [h.inFlight]
        cases s with
        | rank => exact absurd rfl hs
        | _ => rfl
      hist := by
        have := h.hist.move
        rwa [hm, List.append_nil] at this
      bound := h.bound }

/-- The phase changes, and with it the position. -/
theorem setPhase {pos' : BootPos} {p : Phase} (h : c.At four pos) (hp : pos.phase ≠ p)
    (hh : Hist four pos' (c.log ++ [.phase p])) (hph : pos'.phase = p) (hop : pos'.op four = pos.op four)
    (hpo : pos'.posted four = pos.posted four) (hin : pos'.inFlight = pos.inFlight) :
    (c.setPhase p).At four pos' := by
  have hc : c.setPhase p = { c with boot := { c.boot with phase := p }, log := c.log ++ [.phase p] } :=
    if_neg (h.phase_eq ▸ hp)
  rw [hc]
  exact
    { boot := by
        simp only [h.boot, BootPos.boot, hph, hop, hpo]
      inFlight := h.inFlight.trans hin.symm
      hist := hh
      bound := fun s q hm => h.bound s q (by simpa using hm) }

/-- After the third step the phase changes. -/
theorem ucx (h : c.At four (.past .rank)) : (c.setPhase .ucxConnectDone).At four (BootStep.rank.after four) := by
  refine h.setPhase nofun h.hist.move ?_ (funext fun s' => ?_) ?_ ?_
  · cases four <;> rfl
  · cases four <;> cases s' <;> rfl
  · cases four <;> rfl
  · cases four <;> rfl

/-- Where there is no fourth step it counts as complete. -/
theorem complete4 (h : c.At four .finishing) :
    (c.setOp .step4 { c.op .step4 with complete := true }).boot.op = BootPos.op four .done := by
  simp only [Conn.setOp, h.op_eq, h.boot, BootPos.boot]
  funext s'
  cases four <;> cases s' <;> rfl

/-- The bootstrapping ends. -/
theorem finish (h : c.At four .finishing) :
    ((c.setOp .step4 { c.op .step4 with complete := true }).setPhase .bootstrapDone).At four .done := by
  have hp : (c.setOp .step4 { c.op .step4 with complete := true }).boot.phase ≠ .bootstrapDone := by
    show c.boot.phase ≠ _
    rw [h.phase_eq]
    nofun
  rw [Conn.setPhase, if_neg hp]
  exact
    { boot := by
        have hpo : c.boot.posted = BootPos.posted four .done := h.posted_eq
        simp only [h.complete4, BootPos.boot, Bootstrapping.mk.injEq]
        exact ⟨rfl, trivial, hpo⟩
      inFlight := h.inFlight
      hist := h.hist.finish
      bound := fun s q hm => h.bound s q (by simpa [Conn.setOp] using hm) }

/-- A note at the end. -/
theorem note {x : BootNote} (h : c.At four pos) (hh : Hist four pos (c.log ++ [x])) (hx : ∀ s q, x ≠ .posted s q) :
    (c.note x).At four pos where
  boot := h.boot
  inFlight := h.inFlight
  hist := hh
  bound s q hm := by
    rcases List.mem_append.1 hm with hm | hm
    · exact h.bound s q hm
    · exact absurd (List.mem_singleton.1 hm).symm (hx s _)

/-- The connection ends. -/
theorem disconnect (h : c.At four .done) : (c.setPhase .disconnected).At four .gone :=
  h.setPhase nofun h.hist.disconnect rfl rfl rfl rfl

end Conn.At

/-! ### The passes -/

/-- The step before a step. -/
def BootStep.prev : BootStep → Option BootStep
  | .addrSize => none
  | .addr => some .addrSize
  | .rank => some .addr
  | .step4 => some .rank

/-- A connection at rest: at a position that is not just after a step. -/
def Conn.Placed (four : Bool) (c : Conn) : Prop := ∃ pos, (∀ s, pos ≠ .past s) ∧ c.At four pos

/-- The step that comes next can be read off the flags and requests. -/
theorem BootPos.eq_idle {pos : BootPos} (hpos : ∀ s, pos ≠ .past s) (hs : s ∈ bootSteps four)
    (hop : pos.op four s = ⟨none, false⟩) (hprev : ∀ s', s.prev = some s' → pos.op four s' = ⟨none, true⟩) :
    pos = .idle s := by
  cases pos with
  | idle s' =>
    cases s <;> cases s' <;>
      simp [BootPos.op, BootPos.passed, BootStep.earlier, BootStep.prev] at hop hprev ⊢
  | waiting s' q =>
    cases s <;> cases s' <;>
      simp [BootPos.op, BootPos.passed, BootStep.earlier, BootStep.prev] at hop hprev
  | ready s' q =>
    cases s <;> cases s' <;>
      simp [BootPos.op, BootPos.passed, BootStep.earlier, BootStep.prev] at hop hprev
  | past s' => exact absurd rfl (hpos s')
  | finishing | done | gone => simp [BootPos.op, BootPos.passed, hs] at hop

/-- A step that has completed and was not freed is the one at hand. -/
theorem BootPos.eq_ready {pos : BootPos} (hc : (pos.op four s).complete = true) (hr : (pos.op four s).request ≠ none) :
    ∃ q, pos = .ready s q := by
  unfold BootPos.op at hc hr
  split at hc
  · rename_i hs
    simp [hs] at hr
  · rename_i hs
    simp only [hs, if_false] at hr
    cases pos with
    | ready s' q =>
      have : s = s' := by simpa using hc
      exact ⟨q, by rw [this]⟩
    | waiting s' q => simp at hc
    | _ => simp at hr

/-- After the clean-up a step that has completed has no request. -/
theorem Conn.request_cleanUp {c : Conn} (hc : ((c.cleanUp s).op s).complete = true) :
    ((c.cleanUp s).op s).request = none := by
  unfold Conn.cleanUp at hc ⊢
  split
  · unfold Conn.free
    split
    · assumption
    · simp [Conn.note, Conn.setOp, Conn.op]
  · rename_i hg
    rw [if_neg hg] at hc
    by_contra hr
    exact hg ⟨hc, hr⟩

namespace Conn.Placed

variable {c : Conn}

/-- A step that is posted leaves the connection waiting, or at the next step. -/
theorem post (h : c.At four (.idle s)) (hs : s ≠ .rank) (now : Bool) : (c.post s now).Placed four := by
  cases now with
  | false => exact ⟨.waiting s c.next, nofun, h.post_later⟩
  | true =>
    refine ⟨_, ?_, h.post_now.next hs⟩
    cases s <;> cases four <;> nofun

/-- The step posted is the one to come. -/
theorem start (h : c.Placed four) (hs : s ≠ .rank) (hin : s ∈ bootSteps four) (now : Bool)
    (hprev : ∀ s', s.prev = some s' → c.op s' = ⟨none, true⟩) : (c.start s now).Placed four := by
  obtain ⟨pos, hpos, hat⟩ := h
  unfold Conn.start
  split
  · rename_i hg
    have hop : pos.op four s = ⟨none, false⟩ := by
      rw [← hat.op_eq]
      exact BootOp.ext hg.2 hg.1
    have hp : pos = .idle s := BootPos.eq_idle hpos hin hop fun s' hs' => hat.op_eq s' ▸ hprev s' hs'
    subst hp
    exact post hat hs now
  · exact ⟨pos, hpos, hat⟩

/-- The request freed is that of the step at hand. -/
theorem cleanUp (h : c.Placed four) (hs : s ≠ .rank) : (c.cleanUp s).Placed four := by
  obtain ⟨pos, hpos, hat⟩ := h
  unfold Conn.cleanUp
  split
  · rename_i hg
    rw [hat.op_eq] at hg
    obtain ⟨q, rfl⟩ := BootPos.eq_ready hg.1 hg.2
    refine ⟨_, ?_, hat.free.next hs⟩
    cases s <;> cases four <;> nofun
  · exact ⟨pos, hpos, hat⟩

/-- **The first two steps.** -/
theorem addrSteps (h : c.Placed four) (now : BootStep → Bool) : (c.addrSteps now).Placed four := by
  have h₀ : (c.start .addrSize (now .addrSize)).Placed four :=
    h.start (s := .addrSize) nofun (BootStep.mem_bootSteps nofun) _ nofun
  have h₁ : ((c.start .addrSize (now .addrSize)).cleanUp .addrSize).Placed four := h₀.cleanUp nofun
  unfold Conn.addrSteps
  refine Conn.Placed.cleanUp ?_ nofun
  split
  · rename_i hc
    refine h₁.start (s := .addr) nofun (BootStep.mem_bootSteps nofun) _ fun s' hs' => ?_
    cases hs'
    exact BootOp.ext (Conn.request_cleanUp hc) hc
  · exact h₁

end Conn.Placed

end DpuOffload
