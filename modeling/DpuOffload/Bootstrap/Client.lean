import DpuOffload.Bootstrap.Conn
import DpuOffload.Lib.Transition

/-!
# The client's side of a connection

`progress_client_econtext` (`dpu_offload_service_daemon.c`), run again and again, with the
callbacks of UCX in between. Whether an operation completes right away is an input of the
pass that posts it, and so is whether what the client does between the end of the
bootstrapping and the callback of the application succeeds (the connection to a remote SP
is recorded, the rank is added to the cache).

Every state of a client is at a position of the machine `Hist` (`Conn.Placed`), so its
record is orderly.
-/

namespace DpuOffload

open Transition

/-- `execution_context_scope_t`: what a connection is for. -/
inductive Scope where
  /-- `SCOPE_HOST_DPU`: between a host and an SP. -/
  | hostDpu
  /-- `SCOPE_INTER_SERVICE_PROCS`: between two SPs. -/
  | interServiceProcs
  /-- `SCOPE_SELF`. -/
  | self
  /-- `SCOPE_UNKNOWN`. -/
  | unknown
  deriving DecidableEq, Repr

/-- What a pass reads of a client's execution context. -/
structure ClientCfg where
  /-- `ECONTEXT_ON_DPU`. -/
  onDpu : Bool
  /-- `scope_id`. -/
  scope : Scope
  /-- Is `connected_cb` set? -/
  hasConnectedCb : Bool
  deriving DecidableEq, Repr

/-- Is the client on a host and connecting to an SP? -/
def ClientCfg.four (cfg : ClientCfg) : Bool := !cfg.onDpu && cfg.scope = .hostDpu

namespace Conn

/-- `client_ucx_boostrap_step3`. -/
def clientStep3 (c : Conn) (now : Bool) : Conn :=
  let c := c.post .rank now
  if now then c.setPhase .ucxConnectDone else c

/-- The third step, when its turn has come. -/
def clientStartRank (now : Bool) (c : Conn) : Conn :=
  if (c.op .addr).complete = true ∧ (c.op .rank).complete = false ∧ (c.op .rank).request = none then
    c.clientStep3 now
  else c

/-- The end of the third step, when it did not complete right away. -/
def clientFreeRank (c : Conn) : Conn :=
  if (c.op .rank).complete = true ∧ (c.op .rank).request ≠ none then (c.free .rank).setPhase .ucxConnectDone else c

/-- The pass of a client whose sockets are connected. -/
def clientOob (now : BootStep → Bool) (c : Conn) : Conn :=
  ((c.addrSteps now).clientStartRank (now .rank)).clientFreeRank

/-- The fourth step: on a host that connects to an SP, the SP's data is received. -/
def clientStart4 (now : Bool) (c : Conn) : Conn :=
  if (c.op .rank).complete = true ∧ (c.op .step4).complete = false ∧ c.boot.posted = false then c.post .step4 now
  else c

/-- The end of the fourth step. -/
def clientFree4 (c : Conn) : Conn := if (c.op .step4).complete = true then c.free .step4 else c

/-- Is everything done that a client waits for? -/
def allComplete (c : Conn) : Bool :=
  (c.op .addrSize).complete && (c.op .addr).complete && (c.op .rank).complete &&
    (c.op .addrSize).request.isNone && (c.op .addr).request.isNone && (c.op .rank).request.isNone &&
    (c.op .step4).complete && (c.op .step4).request.isNone

/-- The pass of a client whose first three steps are over. -/
def clientUcx (cfg : ClientCfg) (now : BootStep → Bool) (ok : Bool) (c : Conn) : Conn :=
  let c :=
    if cfg.four then (c.clientStart4 (now .step4)).clientFree4
    else c.setOp .step4 { c.op .step4 with complete := true }
  if c.allComplete then
    let c := c.setPhase .bootstrapDone
    -- what comes before the callback may fail, and the pass then returns
    if ok ∧ cfg.hasConnectedCb then c.note .connected else c
  else c

/-- `progress_client_econtext`. -/
def progressClientEcontext (cfg : ClientCfg) (now : BootStep → Bool) (ok : Bool) (c : Conn) : Conn :=
  let c := if c.boot.phase = .oobConnectDone then c.clientOob now else c
  if c.boot.phase = .ucxConnectDone then c.clientUcx cfg now ok else c

/-- The end of `oob_connect`, and of `oob_server_listen`: the sockets are connected. -/
def opened (c : Conn) : Conn := { c with boot := { c.boot with phase := .oobConnectDone } }

end Conn

/-- What happens to a client. -/
inductive ClientAct where
  /-- A pass: which operations complete right away, and whether the end of the
  bootstrapping succeeds. -/
  | progress (now : BootStep → Bool) (ok : Bool)
  /-- The callback of a request runs. -/
  | completion (request : ℕ)

/-- One step of a client. -/
def clientStep (cfg : ClientCfg) (c : Conn) : ClientAct → Option Conn
  | .progress now ok => some (c.progressClientEcontext cfg now ok)
  | .completion q => c.complete q

/-! ### A pass leads from position to position -/

namespace Conn

variable {four : Bool} {c : Conn} {now : BootStep → Bool} {pos : BootPos}

@[simp] theorem phase_post (c : Conn) (s : BootStep) (now : Bool) : (c.post s now).boot.phase = c.boot.phase := rfl

@[simp] theorem phase_free (c : Conn) (s : BootStep) : (c.free s).boot.phase = c.boot.phase := by
  unfold free
  split <;> rfl

@[simp] theorem phase_setPhase (c : Conn) (p : Phase) : (c.setPhase p).boot.phase = p := by
  unfold setPhase
  split
  · assumption
  · rfl

@[simp] theorem phase_start (c : Conn) (s : BootStep) (now : Bool) : (c.start s now).boot.phase = c.boot.phase := by
  unfold start
  split <;> rfl

@[simp] theorem phase_cleanUp (c : Conn) (s : BootStep) : (c.cleanUp s).boot.phase = c.boot.phase := by
  unfold cleanUp
  split
  · exact phase_free c s
  · rfl

@[simp] theorem phase_addrSteps (c : Conn) (now : BootStep → Bool) : (c.addrSteps now).boot.phase = c.boot.phase := by
  unfold addrSteps
  rw [phase_cleanUp]
  split <;> simp

/-- A callback leaves the phase. -/
theorem phase_complete {q : ℕ} {c' : Conn} (h : c.complete q = some c') : c'.boot.phase = c.boot.phase := by
  obtain ⟨p, -, rfl⟩ := Option.map_eq_some_iff.1 h
  rfl

/-- Without a request there is nothing to free. -/
theorem log_complete {q : ℕ} {c' : Conn} (h : c.complete q = some c') : c'.log = c.log ++ [.completed q] := by
  obtain ⟨p, -, rfl⟩ := Option.map_eq_some_iff.1 h
  rfl

theorem free_of_none {s : BootStep} (h : (c.op s).request = none) : c.free s = c := by
  unfold free
  rw [h]

/-- The sockets are connected. -/
theorem opened_reset_at (four : Bool) : (Conn.reset.opened).At four (.idle .addrSize) where
  boot := by
    simp only [opened, reset, Bootstrapping.reset, BootPos.boot, Bootstrapping.mk.injEq]
    exact ⟨rfl, funext fun s => by cases s <;> rfl, rfl⟩
  inFlight := rfl
  hist := .start
  bound s q hm := absurd hm List.not_mem_nil

/-- After the third step the connection is at rest. -/
theorem placed_after_rank (h : c.At four (.past .rank)) : (c.setPhase .ucxConnectDone).Placed four := by
  refine ⟨_, ?_, h.ucx⟩
  cases four <;> nofun

/-- The third step, where the two before are over and it was not posted. -/
theorem clientStep3_placed (h : c.At four (.idle .rank)) (now : Bool) : (c.clientStep3 now).Placed four := by
  cases now with
  | false => exact ⟨.waiting .rank c.next, nofun, h.post_later⟩
  | true => exact placed_after_rank h.post_now

/-- After the clean-up of the second step it has no request once it has completed. -/
theorem request_addrSteps (hc : ((c.addrSteps now).op .addr).complete = true) :
    ((c.addrSteps now).op .addr).request = none :=
  request_cleanUp hc

/-- **The pass of a client whose sockets are connected.** -/
theorem clientOob_placed (h : c.Placed four) : (c.clientOob now).Placed four := by
  have h₂ : ((c.addrSteps now).clientStartRank (now .rank)).Placed four := by
    obtain ⟨pos, hpos, hat⟩ := h.addrSteps now
    unfold clientStartRank
    split
    · rename_i hg
      have hop : pos.op four .rank = ⟨none, false⟩ := by
        rw [← hat.op_eq]
        exact BootOp.ext hg.2.2 hg.2.1
      have hp : pos = .idle .rank := by
        refine BootPos.eq_idle hpos (BootStep.mem_bootSteps nofun) hop fun s' hs' => ?_
        cases hs'
        rw [← hat.op_eq]
        exact BootOp.ext (request_addrSteps hg.1) hg.1
      subst hp
      exact clientStep3_placed hat _
    · exact ⟨pos, hpos, hat⟩
  obtain ⟨pos, hpos, hat⟩ := h₂
  unfold clientOob clientFreeRank
  split
  · rename_i hg
    rw [hat.op_eq] at hg
    obtain ⟨q, rfl⟩ := BootPos.eq_ready hg.1 hg.2
    exact placed_after_rank hat.free
  · exact ⟨pos, hpos, hat⟩

/-- The positions after the third step. -/
theorem At.of_ucx (h : c.At four pos) (hpos : ∀ s, pos ≠ .past s) (hp : c.boot.phase = .ucxConnectDone) :
    pos = .finishing ∨ four = true ∧ (pos = .idle .step4 ∨ ∃ q, pos = .waiting .step4 q ∨ pos = .ready .step4 q) := by
  have hph : pos.phase = .ucxConnectDone := h.phase_eq.symm.trans hp
  have hcur := h.hist.known.current
  have h4 : ∀ s, s ∈ bootSteps four → s = .step4 → four = true := by
    intro s hs he
    subst he
    cases four with
    | true => rfl
    | false => exact absurd hs (by decide)
  cases pos with
  | idle s =>
    have hs : s = .step4 := by
      by_contra hs
      simp [BootPos.phase, hs] at hph
    exact .inr ⟨h4 s hcur hs, .inl (by rw [hs])⟩
  | waiting s q =>
    have hs : s = .step4 := by
      by_contra hs
      simp [BootPos.phase, hs] at hph
    exact .inr ⟨h4 s hcur.1 hs, .inr ⟨q, .inl (by rw [hs])⟩⟩
  | ready s q =>
    have hs : s = .step4 := by
      by_contra hs
      simp [BootPos.phase, hs] at hph
    exact .inr ⟨h4 s hcur.1 hs, .inr ⟨q, .inr (by rw [hs])⟩⟩
  | past s => exact absurd rfl (hpos s)
  | finishing => exact .inl rfl
  | done => simp [BootPos.phase] at hph
  | gone => simp [BootPos.phase] at hph

/-- Once all is complete the bootstrapping ends. -/
theorem At.allComplete (h : c.At four pos) (hpos : ∀ s, pos ≠ .past s) (hp : c.boot.phase = .ucxConnectDone)
    (hall : c.allComplete = true) : pos = .finishing := by
  have h4 : (pos.op four .step4).complete = true ∧ (pos.op four .step4).request = none := by
    rw [← h.op_eq]
    simp only [Conn.allComplete, Bool.and_eq_true, Option.isNone_iff_eq_none] at hall
    exact ⟨hall.1.2, hall.2⟩
  rcases h.of_ucx hpos hp with rfl | ⟨rfl, rfl | ⟨q, rfl | rfl⟩⟩
  · rfl
  · exact absurd h4.1 (by decide)
  · exact absurd h4.1 (by simp [BootPos.op, BootPos.passed, BootStep.earlier])
  · exact absurd h4.2 (by simp [BootPos.op, BootPos.passed, BootStep.earlier])

/-- The fourth step. -/
theorem clientStart4_placed (h : c.Placed true) (hp : c.boot.phase = .ucxConnectDone) (now : Bool) :
    (c.clientStart4 now).Placed true ∧ (c.clientStart4 now).boot.phase = .ucxConnectDone := by
  unfold clientStart4
  split
  · rename_i hg
    refine ⟨?_, hp⟩
    obtain ⟨pos, hpos, hat⟩ := h
    have hpo : pos.posted true = false := hat.posted_eq.symm.trans hg.2.2
    rcases hat.of_ucx hpos hp with rfl | ⟨-, rfl | ⟨q, rfl | rfl⟩⟩
    · exact absurd hpo (by decide)
    · exact Conn.Placed.post hat nofun now
    · exact absurd hpo (by simp [BootPos.posted])
    · exact absurd hpo (by simp [BootPos.posted])
  · exact ⟨h, hp⟩

theorem clientFree4_placed (h : c.Placed true) (hp : c.boot.phase = .ucxConnectDone) :
    c.clientFree4.Placed true ∧ c.clientFree4.boot.phase = .ucxConnectDone := by
  unfold clientFree4
  split
  · refine ⟨?_, by rw [phase_free, hp]⟩
    by_cases hr : (c.op .step4).request = none
    · rw [free_of_none hr]
      exact h
    · rename_i hc
      obtain ⟨pos, hpos, hat⟩ := h
      rw [hat.op_eq] at hc hr
      obtain ⟨q, rfl⟩ := BootPos.eq_ready hc hr
      exact ⟨.finishing, nofun, hat.free.next nofun⟩
  · exact ⟨h, hp⟩

/-- A change of phase notes nothing else. -/
theorem mem_log_setPhase {p : Phase} {x : BootNote} (hx : x ≠ .phase p) : x ∈ (c.setPhase p).log ↔ x ∈ c.log := by
  unfold setPhase
  split
  · exact Iff.rfl
  · simp [hx]

/-- Before the end of the bootstrapping the application was not told. -/
theorem At.notEnded (h : c.At four .finishing) : .finalized ∉ c.log ∧ .connected ∉ c.log := by
  have hno : ¬ (.finalized ∈ c.log ∨ .connected ∈ c.log) := fun hm => by
    rcases h.hist.known.ended hm with hp | hp <;> cases hp
  exact not_or.1 hno

/-- The bootstrapping ends after the fourth step. -/
theorem At.finish4 (h : c.At true .finishing) : (c.setPhase .bootstrapDone).At true .done := by
  refine h.setPhase (p := .bootstrapDone) nofun h.hist.finish rfl (funext fun s => ?_) rfl rfl
  cases s <;> rfl

/-- The end of the bootstrapping, and the application is told. -/
theorem placed_of_done (h : (c.setPhase .bootstrapDone).At four .done) (hn : .connected ∉ c.log) (p : Prop)
    [Decidable p] :
    (if p then (c.setPhase .bootstrapDone).note .connected else c.setPhase .bootstrapDone).Placed four := by
  split
  · refine ⟨.done, nofun, h.note (h.hist.connected ?_) nofun⟩
    rwa [mem_log_setPhase (x := .connected) nofun]
  · exact ⟨.done, nofun, h⟩

variable {cfg : ClientCfg}

/-- **The pass of a client whose first three steps are over.** -/
theorem clientUcx_placed (h : c.Placed cfg.four) (hp : c.boot.phase = .ucxConnectDone) (ok : Bool) :
    (c.clientUcx cfg now ok).Placed cfg.four := by
  unfold clientUcx
  by_cases h4 : cfg.four = true
  · rw [h4] at h ⊢
    simp only [if_true]
    obtain ⟨h₁, hp₁⟩ := clientStart4_placed h hp (now .step4)
    obtain ⟨h₂, hp₂⟩ := clientFree4_placed h₁ hp₁
    split
    · rename_i hall
      obtain ⟨pos, hpos, hat⟩ := h₂
      have hpos' := hat.allComplete hpos hp₂ hall
      subst hpos'
      exact placed_of_done hat.finish4 hat.notEnded.2 _
    · exact h₂
  · rw [Bool.not_eq_true] at h4
    rw [h4] at h ⊢
    obtain ⟨pos, hpos, hat⟩ := h
    rcases hat.of_ucx hpos hp with rfl | ⟨hf, -⟩
    · have hall : (c.setOp .step4 { c.op .step4 with complete := true }).allComplete = true := by
        have hop : ∀ s, (c.setOp .step4 { c.op .step4 with complete := true }).op s = ⟨none, true⟩ := fun s => by
          rw [Conn.op, hat.complete4]
          cases s <;> rfl
        simp only [Conn.allComplete, hop]
        rfl
      simp only [Bool.false_eq_true, if_false, hall, if_true]
      exact placed_of_done hat.finish hat.notEnded.2 _
    · exact absurd hf (by decide)

/-- **A pass of a client.** -/
theorem progressClientEcontext_placed (h : c.Placed cfg.four) (now : BootStep → Bool) (ok : Bool) :
    (c.progressClientEcontext cfg now ok).Placed cfg.four := by
  have h₁ : (if c.boot.phase = .oobConnectDone then c.clientOob now else c).Placed cfg.four := by
    split
    · exact clientOob_placed h
    · exact h
  unfold progressClientEcontext
  generalize (if c.boot.phase = .oobConnectDone then c.clientOob now else c) = c₁ at h₁ ⊢
  dsimp only
  split
  · rename_i hp
    exact clientUcx_placed h₁ hp ok
  · exact h₁

/-- The callback of a request. -/
theorem complete_placed {q : ℕ} {c' : Conn} (h : c.Placed four) (hc : c.complete q = some c') : c'.Placed four := by
  obtain ⟨pos, -, hat⟩ := h
  obtain ⟨s, -, hat'⟩ := hat.complete hc
  exact ⟨.ready s q, nofun, hat'⟩

end Conn

/-- The states a client comes to. -/
abbrev ClientReach (cfg : ClientCfg) : Conn → Prop :=
  Reach (clientStep cfg) (fun _ _ => True) Conn.reset.opened

/-- A client is always at a position. -/
theorem ClientReach.placed {cfg : ClientCfg} {c : Conn} (h : ClientReach cfg c) : c.Placed cfg.four := by
  refine h.invariant ⟨.idle .addrSize, nofun, Conn.opened_reset_at cfg.four⟩ ?_
  intro c a c' hc _ hs
  cases a with
  | progress now ok =>
    cases hs
    exact Conn.progressClientEcontext_placed hc now ok
  | completion q => exact Conn.complete_placed hc hs

end DpuOffload
