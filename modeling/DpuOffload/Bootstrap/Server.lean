import DpuOffload.Bootstrap.Client
import DpuOffload.Lib.Counting
import Mathlib.Algebra.Group.Nat.Defs

/-!
# The server's side of its connections

The clients of a server (`connected_clients_t`) and what happens to them: a client is
accepted (`oob_server_listen`), `progress_server_econtext` passes over the clients that are
connecting, the callbacks of UCX run, a client says that it leaves (`term_msg_cb`).

A client has the slot whose number is the number of clients accepted before it, and keeps
it. The slots from the last client accepted on hold zeroes, and a pass does nothing there.
Growing the array is left out: the callbacks write to where the clients are.
-/

namespace DpuOffload

open Transition

/-- What a pass reads of a server's execution context. -/
structure ServerCfg where
  /-- `ECONTEXT_ON_DPU`. -/
  onDpu : Bool
  /-- `scope_id`. -/
  scope : Scope
  /-- Is `connected_cb` set? -/
  hasConnectedCb : Bool
  deriving DecidableEq, Repr

/-- Is the server an SP to which processes of a host connect? -/
def ServerCfg.four (cfg : ServerCfg) : Bool := cfg.onDpu && cfg.scope ≠ .interServiceProcs

namespace Conn

/-- Is the client connecting? -/
def connecting (c : Conn) : Bool := c.boot.phase = .oobConnectDone || c.boot.phase = .ucxConnectDone

/-- The third step, when its turn has come. -/
def serverStartRank (now : Bool) (c : Conn) : Conn :=
  if (c.op .addr).complete = true ∧ (c.op .rank).complete = false ∧ (c.op .rank).request = none then c.post .rank now
  else c

/-- The fourth step, unless it was posted. -/
def serverStart4 (now : Bool) (c : Conn) : Conn :=
  if c.boot.posted then c else (c.setOp .step4 { c.op .step4 with complete := false }).post .step4 now

/-- After the third step. By default there is no fourth, which is said by setting
`step4.ctx.complete`. -/
def serverUcx (cfg : ServerCfg) (now : Bool) (c : Conn) : Conn :=
  if (c.op .rank).complete = true then
    let c := (c.free .rank).setPhase .ucxConnectDone
    let c := c.setOp .step4 { c.op .step4 with complete := true }
    if cfg.four then c.serverStart4 now else c
  else c

/-- `finalize_client_connection`, of the client: the phase, then the cache entry, which may
fail, and the application is told. -/
def finalizeClientConnection (cfg : ServerCfg) (ok : Bool) (c : Conn) : Conn :=
  let c := (c.setPhase .bootstrapDone).note .finalized
  if ok ∧ cfg.hasConnectedCb then c.note .connected else c

/-- The steps of a pass for one client. -/
def serverSteps (cfg : ServerCfg) (now : BootStep → Bool) (c : Conn) : Conn :=
  ((c.addrSteps now).serverStartRank (now .rank)).serverUcx cfg (now .step4)

/-- Is the client finalised by the pass? -/
def ends (cfg : ServerCfg) (now : BootStep → Bool) (c : Conn) : Bool := ((c.serverSteps cfg now).op .step4).complete

/-- A pass for one client. -/
def visit (cfg : ServerCfg) (now : BootStep → Bool) (ok : Bool) (c : Conn) : Conn :=
  let c' := c.serverSteps cfg now
  if c.ends cfg now then (c'.free .step4).finalizeClientConnection cfg ok else c'

end Conn

/-- `connected_clients_t`. -/
structure Server where
  /-- The clients, those accepted. -/
  clients : List Conn
  /-- `num_total_connected_clients`. -/
  numTotal : ℕ
  /-- `num_connected_clients`, a `size_t`: below zero it has wrapped. -/
  numConnected : ℤ
  /-- `num_ongoing_connections`. -/
  numOngoing : ℕ

namespace Server

/-- No client. -/
def start : Server where
  clients := []
  numTotal := 0
  numConnected := 0
  numOngoing := 0

variable (s : Server)

/-- `DYN_ARRAY_GET_ELT`: the slots past the clients are all zero. -/
def slot (idx : ℕ) : Conn := s.clients.getD idx Conn.reset

/-- The counters once a client is finalised. -/
def count : Server :=
  { s with
    numOngoing := s.numOngoing - 1
    numConnected := s.numConnected + 1
    numTotal := s.numTotal + 1 }

/-- A pass for the client of a slot, with the counters. -/
def visitSlot (cfg : ServerCfg) (now : ℕ → BootStep → Bool) (ok : ℕ → Bool) (idx : ℕ) (s : Server) : Server :=
  let s' : Server := { s with clients := s.clients.set idx ((s.slot idx).visit cfg (now idx) (ok idx)) }
  if (s.slot idx).ends cfg (now idx) then s'.count else s'

/-- The loop of a pass: `n` slots are left, from `idx` on, and `i` clients were handled. A
client whose finalisation fails ends it. -/
def loop (cfg : ServerCfg) (now : ℕ → BootStep → Bool) (ok : ℕ → Bool) : ℕ → ℕ → ℕ → Server → Server
  | 0, _, _, s => s
  | n + 1, idx, i, s =>
    if i < s.numOngoing then
      if (s.slot idx).connecting then
        if (s.slot idx).ends cfg (now idx) ∧ ok idx = false then s.visitSlot cfg now ok idx
        else loop cfg now ok n (idx + 1) (i + 1) (s.visitSlot cfg now ok idx)
      else loop cfg now ok n (idx + 1) i s
    else s

/-- `progress_server_econtext`. -/
def progressServerEcontext (cfg : ServerCfg) (now : ℕ → BootStep → Bool) (ok : ℕ → Bool) : Server :=
  s.loop cfg now ok s.clients.length 0 0

/-- `generate_unique_client_id`. -/
def generateUniqueClientId : ℕ := s.numTotal + s.numOngoing

/-- `oob_server_listen`: the slot of the new client is opened. -/
def oobServerListen : Server :=
  let id := s.generateUniqueClientId
  { s with
    clients := (s.clients ++ List.replicate (id + 1 - s.clients.length) Conn.reset).set id (s.slot id).opened
    numOngoing := s.numOngoing + 1 }

/-- `term_msg_cb`, of a server. It does not ask in which phase it has the client. -/
def termMsgCb (id : ℕ) : Server :=
  { s with
    clients := s.clients.set id ((s.slot id).setPhase .disconnected)
    numConnected := s.numConnected - 1 }

/-- May a client say that it leaves? It was accepted and has not left; a process of a host has received what
the fourth step sends. -/
def MayLeave (cfg : ServerCfg) (id : ℕ) : Prop :=
  id < s.clients.length ∧ (s.slot id).boot.phase ≠ .disconnected ∧ (cfg.four = true → (s.slot id).boot.posted = true)

instance decidableMayLeave (cfg : ServerCfg) (id : ℕ) : Decidable (s.MayLeave cfg id) :=
  inferInstanceAs (Decidable (_ ∧ _ ∧ (_ → _)))

end Server

/-- What happens to a server. -/
inductive ServerAct where
  /-- A client is accepted. -/
  | accept
  /-- A pass: for each slot, which operations complete right away and whether the
  finalisation succeeds. -/
  | progress (now : ℕ → BootStep → Bool) (ok : ℕ → Bool)
  /-- The callback of a request of a client runs. -/
  | completion (idx request : ℕ)
  /-- A client says that it leaves. -/
  | disconnect (idx : ℕ)

/-- One step of a server. A client may leave before the server has finalised it. -/
def serverStep (cfg : ServerCfg) (s : Server) : ServerAct → Option Server
  | .accept => some s.oobServerListen
  | .progress now ok => some (s.progressServerEcontext cfg now ok)
  | .completion idx q => ((s.slot idx).complete q).map fun c => { s with clients := s.clients.set idx c }
  | .disconnect idx => if s.MayLeave cfg idx then some (s.termMsgCb idx) else none

/-! ### Which clients a pass handles -/

/-- The clients a pass comes to, as they are before it: those connecting, from the first on,
until as many were handled as are connecting still. -/
def examined (cfg : ServerCfg) (now : ℕ → BootStep → Bool) (ok : ℕ → Bool) : List Conn → ℕ → ℕ → ℕ → List Conn
  | [], _, _, _ => []
  | c :: cs, idx, i, ongoing =>
    if i < ongoing then
      if c.connecting then
        c :: (if c.ends cfg (now idx) then
            if ok idx then examined cfg now ok cs (idx + 1) (i + 1) (ongoing - 1) else []
          else examined cfg now ok cs (idx + 1) (i + 1) ongoing)
      else examined cfg now ok cs (idx + 1) i ongoing
    else []

namespace Server

variable {cfg : ServerCfg} {now : ℕ → BootStep → Bool} {ok : ℕ → Bool} {s : Server} {idx : ℕ}

/-- A client that is connecting was accepted. -/
theorem lt_of_connecting (h : (s.slot idx).connecting = true) : idx < s.clients.length := by
  by_contra hlt
  rw [slot, List.getD_eq_default _ _ (Nat.not_lt.1 hlt)] at h
  exact absurd h (by decide)

theorem drop_visitSlot : (s.visitSlot cfg now ok idx).clients.drop (idx + 1) = s.clients.drop (idx + 1) := by
  unfold visitSlot
  dsimp only
  split
  · exact List.drop_set_of_lt (Nat.lt_succ_self _)
  · exact List.drop_set_of_lt (Nat.lt_succ_self _)

theorem numOngoing_visitSlot : (s.visitSlot cfg now ok idx).numOngoing =
    if (s.slot idx).ends cfg (now idx) then s.numOngoing - 1 else s.numOngoing := by
  unfold visitSlot
  split <;> rfl

/-- **The rule for a pass**: what is kept by handling a client of which `Q` holds is kept by a
pass that comes to such clients only. -/
theorem loop_keeps {J : Server → Prop} {Q : Conn → Prop}
    (hJ : ∀ s idx, J s → (s.slot idx).connecting = true → 0 < s.numOngoing → Q (s.slot idx) →
      J (s.visitSlot cfg now ok idx)) (n : ℕ) (i : ℕ) (hn : n = (s.clients.drop idx).length) (hs : J s)
    (hQ : ∀ c ∈ examined cfg now ok (s.clients.drop idx) idx i s.numOngoing, Q c) :
    J (loop cfg now ok n idx i s) := by
  induction n generalizing idx i s with
  | zero => exact hs
  | succ n ih =>
    obtain ⟨c, cs, hcs⟩ : ∃ c cs, s.clients.drop idx = c :: cs := by
      cases hd : s.clients.drop idx with
      | nil => rw [hd] at hn; cases hn
      | cons c cs => exact ⟨c, cs, rfl⟩
    have hc : s.slot idx = c := by
      rw [slot, List.getD_eq_getElem?_getD, ← List.head?_drop, hcs]
      rfl
    have hdrop : s.clients.drop (idx + 1) = cs := by
      rw [← List.drop_drop, hcs]
      rfl
    have hlen : n = cs.length := by
      rw [hcs] at hn
      exact Nat.succ.inj hn
    rw [hcs] at hQ
    simp only [loop, examined] at hQ ⊢
    rw [hc]
    split
    · rename_i hi
      rw [if_pos hi] at hQ
      split
      · rename_i hcon
        rw [if_pos hcon] at hQ
        have hJ' := hJ s idx hs (hc ▸ hcon) (Nat.zero_lt_of_lt hi) (hc ▸ hQ c List.mem_cons_self)
        have hnext : ∀ d ∈ (if c.ends cfg (now idx) = true then
            if ok idx = true then examined cfg now ok cs (idx + 1) (i + 1) (s.numOngoing - 1) else []
            else examined cfg now ok cs (idx + 1) (i + 1) s.numOngoing), Q d :=
          fun d hd => hQ d (List.mem_cons_of_mem _ hd)
        split
        · exact hJ'
        · rename_i hend
          apply ih _ (by rw [drop_visitSlot, hdrop, hlen]) hJ'
          rw [drop_visitSlot, hdrop, numOngoing_visitSlot, hc]
          split
          · rename_i he
            rw [if_pos he] at hnext
            rw [if_pos (by simpa [he] using hend)] at hnext
            exact hnext
          · rename_i he
            rw [if_neg he] at hnext
            exact hnext
      · rename_i hcon
        rw [if_neg hcon] at hQ
        apply ih _ (by rw [hdrop, hlen]) hs
        rwa [hdrop]
    · exact hs

end Server

/-! ### The slots -/

/-- **Every client accepted is in the list and has been counted**, in one of two counters. -/
def Server.Numbered (s : Server) : Prop := s.numTotal + s.numOngoing = s.clients.length

namespace Server.Numbered

variable {cfg : ServerCfg} {now : ℕ → BootStep → Bool} {ok : ℕ → Bool} {s s' : Server} {idx : ℕ}

/-- A client is accepted: its slot is the one after the last. -/
theorem oobServerListen_clients (h : s.Numbered) : s.oobServerListen.clients = s.clients ++ [Conn.reset.opened] := by
  have hid : s.generateUniqueClientId = s.clients.length := h
  have hslot : s.slot s.clients.length = Conn.reset := List.getD_eq_default _ _ (Nat.le_refl _)
  have hone : s.clients.length + 1 - s.clients.length = 1 := by omega
  simp only [Server.oobServerListen, hid, hslot, hone, List.replicate_one]
  rw [List.set_append_right _ _ (Nat.le_refl _), Nat.sub_self]
  rfl

theorem oobServerListen (h : s.Numbered) : s.oobServerListen.Numbered := by
  have hlen := congrArg List.length h.oobServerListen_clients
  rw [List.length_append] at hlen
  exact (Nat.add_assoc _ _ _).symm.trans ((congrArg (· + 1) h).trans hlen.symm)

/-- A client that is finalised goes from one counter to the other. -/
theorem visitSlot (h : s.Numbered) (hpos : 0 < s.numOngoing) : (s.visitSlot cfg now ok idx).Numbered := by
  unfold Server.Numbered at h ⊢
  unfold Server.visitSlot
  dsimp only
  split
  · simp only [Server.count, List.length_set]
    omega
  · rw [List.length_set]
    exact h

theorem progressServerEcontext (h : s.Numbered) (now : ℕ → BootStep → Bool) (ok : ℕ → Bool) :
    (s.progressServerEcontext cfg now ok).Numbered :=
  Server.loop_keeps (Q := fun _ => True) (fun _ _ h _ hpos _ => h.visitSlot hpos) _ 0 rfl h fun _ _ => trivial

/-- **Every step keeps the numbers of the clients**, whoever leaves. -/
theorem step {a : ServerAct} (h : s.Numbered) (hs : serverStep cfg s a = some s') : s'.Numbered := by
  cases a with
  | accept =>
    cases hs
    exact h.oobServerListen
  | progress now ok =>
    cases hs
    exact h.progressServerEcontext now ok
  | completion idx q =>
    obtain ⟨c, -, rfl⟩ := Option.map_eq_some_iff.1 hs
    exact h.trans List.length_set.symm
  | disconnect idx =>
    simp only [serverStep] at hs
    split at hs
    · cases hs
      exact h.trans List.length_set.symm
    · cases hs

end Server.Numbered

/-! ### The counters -/

namespace Conn

variable {cfg : ServerCfg} {now : BootStep → Bool} {c : Conn}

/-- The steps of a pass leave a client that is connecting so. -/
theorem connecting_serverSteps (h : c.connecting = true) : (c.serverSteps cfg now).connecting = true := by
  have h₁ : ((c.addrSteps now).serverStartRank (now .rank)).boot.phase = c.boot.phase := by
    unfold serverStartRank
    split <;> simp
  unfold serverSteps
  generalize (c.addrSteps now).serverStartRank (now .rank) = c₁ at h₁
  unfold serverUcx
  split
  · dsimp only
    split
    · unfold serverStart4 connecting
      split
      · simp [setOp]
      · simp [setOp]
    · simp [connecting, setOp]
  · rwa [connecting, h₁]

/-- A client that a pass finalises is connected after it. -/
theorem phase_visit_of_ends (ok : Bool) (h : c.ends cfg now = true) :
    (c.visit cfg now ok).boot.phase = .bootstrapDone := by
  unfold visit
  rw [if_pos h]
  unfold finalizeClientConnection
  dsimp only
  split <;> simp [note]

/-- Any other client is connecting still. -/
theorem connecting_visit (ok : Bool) (hc : c.connecting = true) (h : c.ends cfg now = false) :
    (c.visit cfg now ok).connecting = true := by
  unfold visit
  rw [if_neg (by rw [h]; decide)]
  exact connecting_serverSteps hc

/-- Is the client connected? -/
def bootstrapped (c : Conn) : Bool := c.boot.phase = .bootstrapDone

theorem not_bootstrapped_of_connecting (h : c.connecting = true) : c.bootstrapped = false := by
  unfold connecting at h
  unfold bootstrapped
  rcases Bool.or_eq_true_iff.1 h with h | h <;> · rw [of_decide_eq_true h]; decide

theorem not_connecting_of_bootstrapped (h : c.bootstrapped = true) : c.connecting = false := by
  unfold connecting
  rw [of_decide_eq_true h]
  decide

end Conn

/-- **The counters of a server count its clients.** -/
structure Server.Tally (s : Server) : Prop where
  /-- The clients connecting. -/
  ongoing : s.numOngoing = s.clients.countP Conn.connecting
  /-- The clients connected. -/
  connected : s.numConnected = s.clients.countP Conn.bootstrapped
  /-- Every client accepted has been finalised or is connecting. -/
  total : s.Numbered

namespace Server.Tally

variable {cfg : ServerCfg} {now : ℕ → BootStep → Bool} {ok : ℕ → Bool} {s : Server} {idx : ℕ}

/-- The count of the clients once one of them has changed. -/
theorem countP_set (p : Conn → Bool) (h : idx < s.clients.length) (c : Conn) :
    (s.clients.set idx c).countP p + (if p (s.slot idx) then 1 else 0) = s.clients.countP p + if p c then 1 else 0 :=
  Counting.countP_set_add p Conn.reset h c

/-- Handling a client keeps the counters. -/
theorem visitSlot (h : s.Tally) (hc : (s.slot idx).connecting = true) : (s.visitSlot cfg now ok idx).Tally := by
  have hlt := Server.lt_of_connecting hc
  have hb := Conn.not_bootstrapped_of_connecting hc
  have h₁ := countP_set Conn.connecting hlt ((s.slot idx).visit cfg (now idx) (ok idx))
  have h₂ := countP_set Conn.bootstrapped hlt ((s.slot idx).visit cfg (now idx) (ok idx))
  rw [hc] at h₁
  rw [hb] at h₂
  have ho := h.ongoing
  have hcn := h.connected
  have hpos : 0 < s.clients.countP Conn.connecting :=
    List.countP_pos_iff.2 ⟨s.slot idx, by rw [Server.slot, List.getD_eq_getElem _ _ hlt]; exact List.getElem_mem hlt, hc⟩
  suffices hcounts : (s.visitSlot cfg now ok idx).numOngoing =
        (s.visitSlot cfg now ok idx).clients.countP Conn.connecting ∧
      (s.visitSlot cfg now ok idx).numConnected = (s.visitSlot cfg now ok idx).clients.countP Conn.bootstrapped from
    ⟨hcounts.1, hcounts.2, h.total.visitSlot (ho ▸ hpos)⟩
  unfold Server.visitSlot
  dsimp only
  split
  · rename_i he
    have hph := Conn.phase_visit_of_ends (ok idx) he
    have hcv : ((s.slot idx).visit cfg (now idx) (ok idx)).connecting = false := by
      simp [Conn.connecting, hph]
    have hbv : ((s.slot idx).visit cfg (now idx) (ok idx)).bootstrapped = true := by
      simp [Conn.bootstrapped, hph]
    rw [hcv] at h₁
    rw [hbv] at h₂
    simp only [if_true, Bool.false_eq_true, if_false] at h₁ h₂
    constructor <;> simp only [Server.count] <;> omega
  · rename_i he
    have hcv := Conn.connecting_visit (ok idx) hc (Bool.not_eq_true _ ▸ he)
    have hbv := Conn.not_bootstrapped_of_connecting hcv
    rw [hcv] at h₁
    rw [hbv] at h₂
    simp only [if_true, Bool.false_eq_true, if_false] at h₁ h₂
    constructor <;> dsimp only <;> omega

theorem oobServerListen (h : s.Tally) : s.oobServerListen.Tally := by
  have ho := h.ongoing
  have hcn := h.connected
  have hc : Conn.reset.opened.connecting = true := by decide
  have hb : Conn.reset.opened.bootstrapped = false := by decide
  have hcl := h.total.oobServerListen_clients
  refine ⟨?_, ?_, h.total.oobServerListen⟩
  · rw [hcl, List.countP_append, List.countP_singleton, hc, ← ho]
    rfl
  · rw [hcl, List.countP_append, List.countP_singleton, hb]
    exact hcn

/-- A client that is connected leaves. -/
theorem termMsgCb (h : s.Tally) (hb : (s.slot idx).boot.phase = .bootstrapDone) : (s.termMsgCb idx).Tally := by
  have hbs : (s.slot idx).bootstrapped = true := decide_eq_true hb
  have hc := Conn.not_connecting_of_bootstrapped hbs
  have hlt : idx < s.clients.length := by
    by_contra hlt
    rw [Server.slot, List.getD_eq_default _ _ (Nat.not_lt.1 hlt)] at hb
    exact absurd hb (by decide)
  have hcd : ((s.slot idx).setPhase .disconnected).connecting = false := by simp [Conn.connecting]
  have hbd : ((s.slot idx).setPhase .disconnected).bootstrapped = false := by simp [Conn.bootstrapped]
  have h₁ := countP_set Conn.connecting hlt ((s.slot idx).setPhase .disconnected)
  have h₂ := countP_set Conn.bootstrapped hlt ((s.slot idx).setPhase .disconnected)
  rw [hc, hcd] at h₁
  rw [hbs, hbd] at h₂
  simp only [if_true, Bool.false_eq_true, if_false] at h₁ h₂
  have ho := h.ongoing
  have hcn := h.connected
  have ht := h.total
  refine ⟨?_, ?_, ht.trans List.length_set.symm⟩ <;> simp only [Server.termMsgCb] <;> omega

/-- The callback of a request. -/
theorem completion {q : ℕ} {c : Conn} (h : s.Tally) (hc : (s.slot idx).complete q = some c) :
    ({ s with clients := s.clients.set idx c } : Server).Tally := by
  have hph := Conn.phase_complete hc
  have hlt : idx < s.clients.length := by
    by_contra hlt
    rw [Server.slot, List.getD_eq_default _ _ (Nat.not_lt.1 hlt)] at hc
    cases hc
  -- the phase stays, so each count does
  have hcount : ∀ f : Conn → Bool, (f c = f (s.slot idx)) → (s.clients.set idx c).countP f = s.clients.countP f := by
    intro f hf
    have := countP_set f hlt c
    rw [hf] at this
    omega
  constructor
  · exact h.ongoing.trans (hcount Conn.connecting (by unfold Conn.connecting; rw [hph])).symm
  · exact h.connected.trans (congrArg Int.ofNat (hcount Conn.bootstrapped (by unfold Conn.bootstrapped; rw [hph])).symm)
  · exact h.total.trans List.length_set.symm

/-- **Every step keeps the counters**, when the clients that leave are connected. -/
theorem step {a : ServerAct} {s' : Server} (h : s.Tally)
    (ha : ∀ idx, a = .disconnect idx → (s.slot idx).boot.phase = .bootstrapDone) (hs : serverStep cfg s a = some s') :
    s'.Tally := by
  cases a with
  | accept =>
    cases hs
    exact h.oobServerListen
  | progress now ok =>
    cases hs
    exact Server.loop_keeps (Q := fun _ => True) (fun s idx h hc _ _ => h.visitSlot hc) _ 0 rfl h fun _ _ => trivial
  | completion idx q =>
    obtain ⟨c, hc, rfl⟩ := Option.map_eq_some_iff.1 hs
    exact h.completion hc
  | disconnect idx =>
    simp only [serverStep] at hs
    split at hs
    · cases hs
      exact h.termMsgCb (ha idx rfl)
    · cases hs

end Server.Tally

/-! ### One client -/

/-- While only the sockets are connected the third step is not over. -/
theorem BootPos.not_passed_rank {four : Bool} {pos : BootPos} (hpos : ∀ s, pos ≠ .past s)
    (hp : pos.phase = .oobConnectDone) :
    ¬ ((pos.op four .rank).complete = true ∧ (pos.op four .rank).request = none) := by
  cases pos with
  | idle s | waiting s q | ready s q =>
    cases s <;> simp [BootPos.op, BootPos.passed, BootStep.earlier, BootPos.phase] at hp ⊢
  | past s => exact absurd rfl (hpos s)
  | finishing | done | gone => cases hp

/-- While only the sockets are connected the fourth step has not completed. -/
theorem BootPos.not_complete4 {four : Bool} {pos : BootPos} (hp : pos.phase = .oobConnectDone) :
    (pos.op four .step4).complete = false := by
  cases pos with
  | idle s | waiting s q | ready s q | past s =>
    cases s <;> simp [BootPos.op, BootPos.passed, BootStep.earlier, BootPos.phase] at hp ⊢
  | finishing | done | gone => cases hp

/-- Is the fourth step of a client in flight? -/
def Conn.awaits4 (c : Conn) : Bool := c.inFlight.any fun p => p.2 = .step4

namespace Conn

variable {four : Bool} {cfg : ServerCfg} {now : BootStep → Bool} {c : Conn} {pos : BootPos}

/-- Ready to be finalised: once the request of the fourth step is freed the bootstrapping
can end. -/
structure Ready (four : Bool) (c : Conn) : Prop where
  /-- A pass takes the client for finished. -/
  complete : (c.op .step4).complete = true
  /-- It is. -/
  done : ((c.free .step4).setPhase .bootstrapDone).At four .done
  /-- It was not finalised. -/
  notEnded : .finalized ∉ (c.free .step4).log ∧ .connected ∉ (c.free .step4).log

/-- After the fourth step. -/
theorem Ready.of_finishing (h : c.At true .finishing) : c.Ready true := by
  have ho : c.op .step4 = ⟨none, true⟩ := by
    rw [h.op_eq]
    rfl
  have hf : c.free .step4 = c := free_of_none (by rw [ho])
  refine ⟨by rw [ho], ?_, ?_⟩
  · rw [hf]
    exact h.finish4
  · rw [hf]
    exact h.notEnded

/-- The fourth step has completed. -/
theorem Ready.of_ready {q : ℕ} (h : c.At true (.ready .step4 q)) : c.Ready true := by
  have ho : c.op .step4 = ⟨some q, true⟩ := by
    rw [h.op_eq]
    rfl
  have hf : (c.free .step4).At true .finishing := h.free.next nofun
  exact ⟨by rw [ho], hf.finish4, hf.notEnded⟩

/-- There is no fourth step. -/
theorem Ready.of_three (h : c.At false .finishing) :
    (c.setOp .step4 { c.op .step4 with complete := true }).Ready false := by
  have ho : (c.setOp .step4 { c.op .step4 with complete := true }).op .step4 = ⟨none, true⟩ := by
    rw [Conn.op, h.complete4]
    rfl
  have hf := free_of_none (c := c.setOp .step4 { c.op .step4 with complete := true }) (s := .step4) (by rw [ho])
  refine ⟨by rw [ho], ?_, ?_⟩
  · rw [hf]
    exact h.finish
  · rw [hf]
    exact h.notEnded

theorem setOp_self {s : BootStep} {o : BootOp} (h : c.op s = o) : c.setOp s o = c := by
  subst h
  simp only [setOp, op, Function.update_eq_self]

theorem setOp_setOp (c : Conn) (s : BootStep) (o o' : BootOp) : (c.setOp s o).setOp s o' = c.setOp s o' := by
  simp only [setOp, Function.update_idem]

/-- The client waits for its callback, or can be finalised. -/
def Handled (four : Bool) (c : Conn) : Prop := c.Ready four ∨ c.Placed four ∧ (c.op .step4).complete = false

/-- After the third step, when the fourth is not in flight. -/
theorem handled_step4 (h : c.At cfg.four pos) (hpos : ∀ s, pos ≠ .past s) (hp : c.boot.phase = .ucxConnectDone)
    (hw : ∀ q, pos ≠ .waiting .step4 q) (now : Bool) :
    (if cfg.four then (c.setOp .step4 { c.op .step4 with complete := true }).serverStart4 now
      else c.setOp .step4 { c.op .step4 with complete := true }).Handled cfg.four := by
  rcases h.of_ucx hpos hp with rfl | ⟨h4, rfl | ⟨q, rfl | rfl⟩⟩
  · cases h4 : cfg.four with
    | false =>
      rw [h4] at h
      exact .inl (Ready.of_three h)
    | true =>
      rw [h4] at h
      have hset : c.setOp .step4 { c.op .step4 with complete := true } = c :=
        setOp_self (by rw [h.op_eq]; rfl)
      rw [hset, if_pos rfl, serverStart4, h.posted_eq]
      exact .inl (Ready.of_finishing h)
  · rw [h4] at h ⊢
    have hset : ((c.setOp .step4 { c.op .step4 with complete := true }).setOp .step4
        { (c.setOp .step4 { c.op .step4 with complete := true }).op .step4 with complete := false }) = c := by
      rw [setOp_setOp]
      apply setOp_self
      simp only [Conn.op, setOp, Function.update_self, h.boot]
      rfl
    have hpo : (c.setOp .step4 { c.op .step4 with complete := true }).boot.posted = false := h.posted_eq
    rw [if_pos rfl, serverStart4, hpo, if_neg Bool.false_ne_true, hset]
    cases now with
    | true => exact .inl (Ready.of_finishing (h.post_now.next (by simp)))
    | false =>
      refine .inr ⟨⟨.waiting .step4 c.next, by simp, h.post_later⟩, ?_⟩
      rw [h.post_later.op_eq]
      rfl
  · exact absurd rfl (hw q)
  · rw [h4] at h ⊢
    have hset : c.setOp .step4 { c.op .step4 with complete := true } = c :=
      setOp_self (by rw [h.op_eq]; rfl)
    rw [hset, if_pos rfl, serverStart4, h.posted_eq]
    exact .inl (Ready.of_ready h)

/-- A pass for a client whose first three steps are over. -/
theorem serverSteps_of_ucx (h : c.At cfg.four pos) (hpos : ∀ s, pos ≠ .past s) (hp : c.boot.phase = .ucxConnectDone)
    (hw : ∀ q, pos ≠ .waiting .step4 q) : (c.serverSteps cfg now).Handled cfg.four := by
  have hop : ∀ s, s ≠ .step4 → c.op s = ⟨none, true⟩ := by
    intro s hs
    rw [h.op_eq]
    rcases h.of_ucx hpos hp with rfl | ⟨-, rfl | ⟨q, rfl | rfl⟩⟩ <;> cases s <;>
      first
        | exact absurd rfl hs
        | simp [BootPos.op, BootPos.passed, BootStep.earlier, bootSteps]
  have h₁ : c.addrSteps now = c := by
    simp [addrSteps, start, cleanUp, hop]
  have h₂ : c.serverStartRank (now .rank) = c := by
    simp [serverStartRank, hop]
  have h₃ : (c.free .rank).setPhase .ucxConnectDone = c := by
    rw [free_of_none (by rw [hop .rank (by simp)]), setPhase, if_pos hp]
  rw [serverSteps, h₁, h₂, serverUcx, if_pos (by rw [hop .rank (by simp)])]
  dsimp only
  rw [h₃]
  exact handled_step4 h hpos hp hw _

/-- The third step. -/
theorem serverStartRank_at (h : c.Placed four) (hr : (c.op .addr).complete = true → (c.op .addr).request = none)
    (now : Bool) : ∃ pos, (pos = .past .rank ∨ ∀ s, pos ≠ .past s) ∧ (c.serverStartRank now).At four pos := by
  obtain ⟨pos, hpos, hat⟩ := h
  unfold serverStartRank
  split
  · rename_i hg
    have hop : pos.op four .rank = ⟨none, false⟩ := by
      rw [← hat.op_eq]
      exact BootOp.ext hg.2.2 hg.2.1
    have hp : pos = .idle .rank := by
      refine BootPos.eq_idle hpos (BootStep.mem_bootSteps nofun) hop fun s' hs' => ?_
      cases hs'
      rw [← hat.op_eq]
      exact BootOp.ext (hr hg.1) hg.1
    subst hp
    cases now with
    | true => exact ⟨.past .rank, .inl rfl, hat.post_now⟩
    | false => exact ⟨.waiting .rank c.next, .inr nofun, hat.post_later⟩
  · exact ⟨pos, .inr hpos, hat⟩

/-- A pass for a client whose sockets are connected. -/
theorem serverSteps_of_oob (h : c.Placed cfg.four) (hp : c.boot.phase = .oobConnectDone) :
    (c.serverSteps cfg now).Handled cfg.four := by
  have hph : ((c.addrSteps now).serverStartRank (now .rank)).boot.phase = .oobConnectDone := by
    unfold serverStartRank
    split <;> simp [hp]
  obtain ⟨pos, hpos, hat⟩ := serverStartRank_at (h.addrSteps now) request_addrSteps (now .rank)
  have hpp : pos.phase = .oobConnectDone := hat.phase_eq.symm.trans hph
  unfold serverSteps
  generalize (c.addrSteps now).serverStartRank (now .rank) = c₁ at hph hat
  unfold serverUcx
  split
  · rename_i hc
    -- whether the third step completed right away or later, it is over once its request is freed
    have hover : (c₁.free .rank).At cfg.four (.past .rank) := by
      by_cases hr : (c₁.op .rank).request = none
      · rw [free_of_none hr]
        rcases hpos with rfl | hpos
        · exact hat
        · rw [hat.op_eq] at hc hr
          exact absurd ⟨hc, hr⟩ (BootPos.not_passed_rank hpos hpp)
      · rw [hat.op_eq] at hc hr
        obtain ⟨q, rfl⟩ := BootPos.eq_ready hc hr
        exact hat.free
    refine handled_step4 hover.ucx ?_ (phase_setPhase _ _) ?_ _
    · cases cfg.four <;> nofun
    · cases cfg.four <;> nofun
  · rename_i hc
    refine .inr ⟨?_, ?_⟩
    · rcases hpos with rfl | hpos
      · exact absurd (by rw [hat.op_eq]; rfl) hc
      · exact ⟨pos, hpos, hat⟩
    · rw [hat.op_eq]
      exact BootPos.not_complete4 hpp

/-- A connection whose record is that of a position, and that was finalised if its
bootstrapping is over. -/
structure Sound (four : Bool) (c : Conn) : Prop where
  /-- The connection is at a position. -/
  placed : c.Placed four
  /-- Its bootstrapping ended with its finalisation. -/
  finalized : c.boot.phase = .bootstrapDone ∨ c.boot.phase = .disconnected → .finalized ∈ c.log

theorem not_ended_of_connecting (h : c.connecting = true) :
    ¬ (c.boot.phase = .bootstrapDone ∨ c.boot.phase = .disconnected) := by
  intro hp
  rcases Bool.or_eq_true_iff.1 h with h | h <;> rcases hp with hp | hp <;> rw [hp] at h <;> exact absurd h (by decide)

/-- **Handling a client whose fourth step is not in flight.** -/
theorem Sound.visit (h : c.Sound cfg.four) (hc : c.connecting = true) (hw : c.awaits4 = false) (ok : Bool) :
    (c.visit cfg now ok).Sound cfg.four := by
  have hh : (c.serverSteps cfg now).Handled cfg.four := by
    rcases Bool.or_eq_true_iff.1 hc with hp | hp
    · exact serverSteps_of_oob h.placed (of_decide_eq_true hp)
    · obtain ⟨pos, hpos, hat⟩ := h.placed
      refine serverSteps_of_ucx hat hpos (of_decide_eq_true hp) fun q hq => ?_
      subst hq
      simp [awaits4, hat.inFlight, BootPos.inFlight] at hw
  rcases hh with hr | ⟨hpl, hf⟩
  · have hends : c.ends cfg now = true := hr.complete
    have hn : .finalized ∉ (((c.serverSteps cfg now).free .step4).setPhase .bootstrapDone).log := by
      rw [mem_log_setPhase (x := .finalized) (by simp)]
      exact hr.notEnded.1
    have hfin := hr.done.note (hr.done.hist.finalized hn) (by simp)
    have hn' : .connected ∉ ((((c.serverSteps cfg now).free .step4).setPhase .bootstrapDone).note .finalized).log := by
      intro hm
      rcases List.mem_append.1 hm with hm | hm
      · rw [mem_log_setPhase (x := .connected) (by simp)] at hm
        exact hr.notEnded.2 hm
      · cases List.mem_singleton.1 hm
    have hmem : .finalized ∈ ((((c.serverSteps cfg now).free .step4).setPhase .bootstrapDone).note .finalized).log :=
      List.mem_append_right _ (List.mem_singleton_self _)
    rw [Conn.visit, if_pos hends, finalizeClientConnection]
    split
    · exact ⟨⟨.done, by simp, hfin.note (hfin.hist.connected hn') (by simp)⟩, fun _ => List.mem_append_left _ hmem⟩
    · exact ⟨⟨.done, by simp, hfin⟩, fun _ => hmem⟩
  · have hends : c.ends cfg now = false := hf
    rw [Conn.visit, if_neg (by simp [hends])]
    exact ⟨hpl, fun hp => absurd hp (not_ended_of_connecting (connecting_serverSteps hc))⟩

/-- The callback of a request. -/
theorem Sound.complete {q : ℕ} {c' : Conn} (h : c.Sound four) (hc : c.complete q = some c') : c'.Sound four := by
  refine ⟨complete_placed h.placed hc, ?_⟩
  rw [phase_complete hc]
  intro hp
  obtain ⟨p, -, rfl⟩ := Option.map_eq_some_iff.1 hc
  exact List.mem_append_left _ (h.finalized hp)

/-- The client leaves. -/
theorem Sound.disconnect (h : c.Sound four) (hb : c.boot.phase = .bootstrapDone) :
    (c.setPhase .disconnected).Sound four := by
  obtain ⟨pos, hpos, hat⟩ := h.placed
  have hd : pos = .done := by
    rw [hat.phase_eq] at hb
    cases pos with
    | idle s | waiting s q | ready s q | past s => cases s <;> cases hb
    | done => rfl
    | finishing | gone => cases hb
  subst hd
  refine ⟨⟨.gone, nofun, hat.disconnect⟩, fun _ => ?_⟩
  rw [mem_log_setPhase (x := .finalized) nofun]
  exact h.finalized (.inl hb)

/-- What a sound connection's record says. -/
theorem Sound.orderly (h : c.Sound four) : Orderly four c.log := by
  obtain ⟨pos, -, hat⟩ := h.placed
  exact hat.hist.known.orderly

/-- A connection that was finalised is no longer connecting, and the other way round. -/
theorem Sound.finalized_iff (h : c.Sound four) : .finalized ∈ c.log ↔ c.connecting = false := by
  obtain ⟨pos, hpos, hat⟩ := h.placed
  constructor
  · intro hm
    rw [Conn.connecting, hat.phase_eq]
    rcases hat.hist.known.ended (.inl hm) with rfl | rfl <;> decide
  · intro hc
    apply h.finalized
    rw [Conn.connecting] at hc
    rw [hat.phase_eq] at hc ⊢
    cases pos with
    | idle s | waiting s q | ready s q | past s => cases s <;> exact absurd hc (by simp [BootPos.phase])
    | finishing => exact absurd hc (by decide)
    | done => exact .inl rfl
    | gone => exact .inr rfl

end Conn

/-! ### Whole runs -/

/-- A pass comes to no client whose fourth step is in flight, and a client leaves when it has been finalised. -/
def Server.Unhurried (cfg : ServerCfg) (s : Server) : ServerAct → Prop
  | .progress now ok => ∀ c ∈ examined cfg now ok s.clients 0 0 s.numOngoing, c.awaits4 = false
  | .disconnect idx => (s.slot idx).boot.phase = .bootstrapDone
  | .accept | .completion _ _ => True

instance Server.decidableUnhurried (cfg : ServerCfg) (s : Server) (a : ServerAct) : Decidable (s.Unhurried cfg a) :=
  match a with
  | .progress now ok =>
    inferInstanceAs (Decidable (∀ c ∈ examined cfg now ok s.clients 0 0 s.numOngoing, c.awaits4 = false))
  | .disconnect idx => inferInstanceAs (Decidable ((s.slot idx).boot.phase = .bootstrapDone))
  | .accept | .completion _ _ => inferInstanceAs (Decidable True)

/-- All clients are sound. -/
structure Server.Sound (cfg : ServerCfg) (s : Server) : Prop where
  /-- The counters. -/
  tally : s.Tally
  /-- The clients. -/
  clients : ∀ c ∈ s.clients, c.Sound cfg.four

namespace Server.Sound

variable {cfg : ServerCfg} {now : ℕ → BootStep → Bool} {ok : ℕ → Bool} {s : Server} {idx : ℕ}

/-- The client of a slot in use. -/
theorem slot (h : s.Sound cfg) (hlt : idx < s.clients.length) : (s.slot idx).Sound cfg.four := by
  rw [Server.slot, List.getD_eq_getElem _ _ hlt]
  exact h.clients _ (List.getElem_mem hlt)

/-- One client changes. -/
theorem set (h : s.Sound cfg) {c : Conn} (hc : c.Sound cfg.four) (d : Conn) (hd : d ∈ s.clients.set idx c) :
    d.Sound cfg.four := by
  rcases List.mem_or_eq_of_mem_set hd with hd | rfl
  · exact h.clients d hd
  · exact hc

theorem visitSlot (h : s.Sound cfg) (hc : (s.slot idx).connecting = true) (hw : (s.slot idx).awaits4 = false) :
    (s.visitSlot cfg now ok idx).Sound cfg := by
  have hv : ((s.slot idx).visit cfg (now idx) (ok idx)).Sound cfg.four :=
    (h.slot (Server.lt_of_connecting hc)).visit hc hw (ok idx)
  refine ⟨h.tally.visitSlot hc, ?_⟩
  unfold Server.visitSlot
  dsimp only
  split
  · exact h.set hv
  · exact h.set hv

/-- **Every step keeps the clients sound.** -/
theorem step {a : ServerAct} {s' : Server} (h : s.Sound cfg) (ha : s.Unhurried cfg a)
    (hs : serverStep cfg s a = some s') : s'.Sound cfg := by
  refine ⟨h.tally.step (fun idx he => by subst he; exact ha) hs, ?_⟩
  cases a with
  | accept =>
    cases hs
    rw [h.tally.total.oobServerListen_clients]
    intro c hc
    rcases List.mem_append.1 hc with hc | hc
    · exact h.clients c hc
    · rw [List.mem_singleton.1 hc]
      exact ⟨⟨.idle .addrSize, nofun, Conn.opened_reset_at cfg.four⟩, by decide⟩
  | progress now ok =>
    cases hs
    have hJ : (s.progressServerEcontext cfg now ok).Sound cfg :=
      Server.loop_keeps (Q := fun c => c.awaits4 = false) (fun s idx h hc _ hw => h.visitSlot hc hw) _ 0 rfl h ha
    exact hJ.clients
  | completion idx q =>
    obtain ⟨c, hc, rfl⟩ := Option.map_eq_some_iff.1 hs
    have hlt : idx < s.clients.length := by
      by_contra hlt
      rw [Server.slot, List.getD_eq_default _ _ (Nat.not_lt.1 hlt)] at hc
      cases hc
    exact h.set ((h.slot hlt).complete hc)
  | disconnect idx =>
    simp only [serverStep] at hs
    split at hs
    · rename_i hmay
      cases hs
      exact h.set ((h.slot hmay.1).disconnect ha)
    · cases hs

end Server.Sound

/-- The states a server comes to by the steps allowed. -/
abbrev ServerReach (cfg : ServerCfg) (ok : Server → ServerAct → Prop) : Server → Prop :=
  Reach (serverStep cfg) ok Server.start

end DpuOffload
