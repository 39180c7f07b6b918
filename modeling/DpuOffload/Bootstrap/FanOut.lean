import DpuOffload.Bootstrap.Server
import DpuOffload.Cache.Types
import Mathlib.Data.List.Nodup
import Mathlib.Data.Prod.Basic

/-!
# What an SP sends to all its local ranks

`send_gp_cache_to_host` and `send_revoke_group_to_ranks` send to the clients of the server
that serves the host. Both count up to the number of clients connected and walk the slots
from `0`; a slot is never missing, `DYN_ARRAY_GET_ELT` makes it, so the slots they send to are
the first ones, whoever is there. The number itself is too low once a client has left that the
server had not finalised: `term_msg_cb` takes it off all the same.

* `fanOut_toConnected_iff` — **all clients connected get the messages**, and nobody else, exactly when none
  left too early and those connected have the first slots.
* `fanOut_misses_connected` — the client connected gets nothing.
-/

namespace DpuOffload

open Transition

/-- What is sent to a client. -/
inductive HostMsg where
  /-- `send_sp_data_to_host`. -/
  | spData
  /-- `send_group_cache`. -/
  | groupCache (gid : ℤ)
  /-- `send_revoke_group_rank_request_through_list_ranks`. -/
  | revoke (gid : ℤ) (numRanks : ℕ)
  deriving DecidableEq, Repr

/-- The loop over the clients: `n` are left, `idx` is the slot. -/
def sendLoop (msgs : List HostMsg) : ℕ → ℕ → List (ℕ × HostMsg)
  | 0, _ => []
  | n + 1, idx => msgs.map (Prod.mk idx) ++ sendLoop msgs n (idx + 1)

/-- What is sent to each client with the cache of a group: for the world group, the data of
the SPs too. -/
def cacheMsgs (gid worldGroup : ℤ) : List HostMsg :=
  (if gid = worldGroup then [.spData] else []) ++ [.groupCache gid]

/-- `send_gp_cache_to_host`, with the messages it sends. -/
def Server.sendGpCacheToHost (s : Server) (gid worldGroup : ℤ) (sentToHost num : ℕ) : List (ℕ × HostMsg) :=
  if sentToHost < num then sendLoop (cacheMsgs gid worldGroup) (sizeT s.numConnected) 0 else []

/-- `send_revoke_group_to_ranks`, with the messages it sends. -/
def Server.sendRevokeGroupToRanks (s : Server) (gid : ℤ) (numRanks : ℕ) : List (ℕ × HostMsg) :=
  sendLoop [.revoke gid numRanks] (sizeT s.numConnected) 0

/-- **The messages go to the clients connected**, each message once to each of them and to
nobody else. -/
def Server.ToConnected (s : Server) (msgs : List HostMsg) (sent : List (ℕ × HostMsg)) : Prop :=
  ∀ i m, sent.count (i, m) = if (s.slot i).bootstrapped = true ∧ m ∈ msgs then 1 else 0

/-- The clients connected have the first slots. -/
def Server.Compact (s : Server) : Prop :=
  ∀ i j, i < j → (s.slot j).bootstrapped = true → (s.slot i).bootstrapped = true

/-! ### Who gets the messages -/

/-- The slots of the loop. -/
theorem count_sendLoop {msgs : List HostMsg} (hm : msgs.Nodup) (i : ℕ) (m : HostMsg) (n idx : ℕ) :
    (sendLoop msgs n idx).count (i, m) = if (idx ≤ i ∧ i < idx + n) ∧ m ∈ msgs then 1 else 0 := by
  induction n generalizing idx with
  | zero =>
    rw [if_neg (by omega)]
    rfl
  | succ n ih =>
    have hmap : (msgs.map (Prod.mk idx)).count (i, m) = if i = idx ∧ m ∈ msgs then 1 else 0 := by
      by_cases hi : i = idx
      · subst hi
        rw [List.count_map_of_injective _ _ (Prod.mk_right_injective i), hm.count]
        simp
      · rw [if_neg (fun h => hi h.1)]
        refine List.count_eq_zero_of_not_mem fun h => ?_
        obtain ⟨_, -, he⟩ := List.mem_map.1 h
        exact hi (Prod.mk.inj he).1.symm
    rw [sendLoop, List.count_append, hmap, ih]
    by_cases hmm : m ∈ msgs
    · simp only [hmm, and_true]
      split <;> split <;> split <;> omega
    · simp only [hmm, and_false, if_false]

variable {s : Server}

/-- Sending to the first slots is sending to the clients connected when these have them and are as many. -/
theorem Server.toConnected_sendLoop_iff (s : Server) {msgs : List HostMsg} (hm : msgs.Nodup) (hne : msgs ≠ []) (n : ℕ) :
    s.ToConnected msgs (sendLoop msgs n 0) ↔ n = s.clients.countP Conn.bootstrapped ∧ s.Compact := by
  have hslots : s.ToConnected msgs (sendLoop msgs n 0) ↔ ∀ i, i < n ↔ (s.slot i).bootstrapped = true := by
    obtain ⟨m, hmem⟩ := List.exists_mem_of_ne_nil _ hne
    unfold ToConnected
    simp only [count_sendLoop hm, Nat.zero_le, true_and, Nat.zero_add]
    refine ⟨fun h i => ?_, fun h i m => by simp only [h i]⟩
    have hi := h i m
    simp only [hmem, and_true] at hi
    split at hi <;> split at hi <;> simp_all
  have hcompact : s.Compact → ∀ i, i < s.clients.countP Conn.bootstrapped ↔ (s.slot i).bootstrapped = true :=
    fun h i => Counting.lt_countP_iff (by decide) h i
  rw [hslots]
  constructor
  · intro h
    have hc : s.Compact := fun i j hij hj => (h i).1 (hij.trans ((h j).2 hj))
    exact ⟨eq_of_forall_lt_iff fun i => (h i).trans (hcompact hc i).symm, hc⟩
  · rintro ⟨rfl, hc⟩
    exact hcompact hc

theorem nodup_cacheMsgs (gid worldGroup : ℤ) : (cacheMsgs gid worldGroup).Nodup := by
  unfold cacheMsgs
  split <;> simp

/-! ### Who left too early -/

namespace Conn

variable {cfg : ServerCfg} {now : BootStep → Bool} {c : Conn}

/-- Did the client leave before the server finalised it? -/
def leftEarly (c : Conn) : Bool := c.boot.phase = .disconnected && .finalized ∉ c.log

@[simp] theorem finalized_mem_post (s : BootStep) (b : Bool) : .finalized ∈ (c.post s b).log ↔ .finalized ∈ c.log := by
  simp [post]

@[simp] theorem finalized_mem_free (s : BootStep) : .finalized ∈ (c.free s).log ↔ .finalized ∈ c.log := by
  unfold free
  split
  · rfl
  · simp [note, setOp]

@[simp] theorem finalized_mem_start (s : BootStep) (b : Bool) :
    .finalized ∈ (c.start s b).log ↔ .finalized ∈ c.log := by
  unfold start
  split <;> simp

@[simp] theorem finalized_mem_cleanUp (s : BootStep) : .finalized ∈ (c.cleanUp s).log ↔ .finalized ∈ c.log := by
  unfold cleanUp
  split <;> simp

/-- The steps of a pass finalise nobody. -/
theorem finalized_mem_serverSteps : .finalized ∈ (c.serverSteps cfg now).log ↔ .finalized ∈ c.log := by
  have haddr : .finalized ∈ (c.addrSteps now).log ↔ .finalized ∈ c.log := by
    unfold addrSteps
    dsimp only
    split <;> simp
  have hrank : .finalized ∈ ((c.addrSteps now).serverStartRank (now .rank)).log ↔ .finalized ∈ c.log := by
    unfold serverStartRank
    split <;> simp [haddr]
  rw [serverSteps, ← hrank]
  generalize (c.addrSteps now).serverStartRank (now .rank) = d
  have hucx : .finalized ∈ ((d.free .rank).setPhase .ucxConnectDone).log ↔ .finalized ∈ d.log := by
    rw [mem_log_setPhase (by simp), finalized_mem_free]
  unfold serverUcx
  split
  · dsimp only
    split
    · unfold serverStart4
      split <;> simp [setOp, hucx]
    · exact hucx
  · rfl

/-- **A client is connecting, connected or gone**, and has been finalised in the second case, not in the first. -/
def Tracked (c : Conn) : Prop :=
  c.connecting = true ∧ .finalized ∉ c.log ∨ c.bootstrapped = true ∧ .finalized ∈ c.log ∨ c.boot.phase = .disconnected

theorem Tracked.visit (h : c.Tracked) (hc : c.connecting = true) (ok : Bool) : (c.visit cfg now ok).Tracked := by
  have hn : .finalized ∉ c.log := by
    rcases h with h | h | h
    · exact h.2
    · rw [not_connecting_of_bootstrapped h.1] at hc
      cases hc
    · simp [connecting, h] at hc
  by_cases he : c.ends cfg now = true
  · refine .inr (.inl ⟨decide_eq_true (phase_visit_of_ends ok he), ?_⟩)
    rw [Conn.visit, if_pos he, finalizeClientConnection]
    split <;> simp [note]
  · refine .inl ⟨connecting_visit ok hc (Bool.not_eq_true _ ▸ he), ?_⟩
    rw [Conn.visit, if_neg he, finalized_mem_serverSteps]
    exact hn

/-- A client that is not gone did not leave early. -/
theorem leftEarly_of_ne (h : c.boot.phase ≠ .disconnected) : c.leftEarly = false := by
  simp [leftEarly, h]

theorem leftEarly_of_connecting (h : c.connecting = true) : c.leftEarly = false := by
  refine leftEarly_of_ne fun hd => ?_
  simp [connecting, hd] at h

theorem leftEarly_of_bootstrapped (h : c.bootstrapped = true) : c.leftEarly = false := by
  refine leftEarly_of_ne fun hd => ?_
  simp [bootstrapped, hd] at h

end Conn

namespace Server

variable {cfg : ServerCfg} {now : ℕ → BootStep → Bool} {ok : ℕ → Bool} {s : Server} {idx : ℕ}

/-- **What the number of clients connected counts**, whoever leaves: those connected, less those that left early. -/
structure Owing (s : Server) : Prop where
  /-- The slots. -/
  numbered : s.Numbered
  /-- The counter. -/
  connected : s.numConnected + s.clients.countP Conn.leftEarly = s.clients.countP Conn.bootstrapped
  /-- The clients. -/
  clients : ∀ c ∈ s.clients, c.Tracked

/-- The client of a slot in use. -/
theorem Owing.tracked (h : s.Owing) (hlt : idx < s.clients.length) : (s.slot idx).Tracked := by
  rw [slot, List.getD_eq_getElem _ _ hlt]
  exact h.clients _ (List.getElem_mem hlt)

theorem Owing.set (h : s.Owing) {c : Conn} (hc : c.Tracked) : ∀ d ∈ s.clients.set idx c, d.Tracked := by
  intro d hd
  rcases List.mem_or_eq_of_mem_set hd with hd | rfl
  · exact h.clients d hd
  · exact hc

/-- The counts once one client has changed. -/
theorem Owing.counts (h : s.Owing) (hlt : idx < s.clients.length) (c : Conn) :
    s.numConnected + (s.clients.set idx c).countP Conn.leftEarly + (if (s.slot idx).leftEarly then 1 else 0) +
        (if c.bootstrapped then 1 else 0) =
      (s.clients.set idx c).countP Conn.bootstrapped + (if (s.slot idx).bootstrapped then 1 else 0) +
        (if c.leftEarly then 1 else 0) := by
  have h₁ := Tally.countP_set Conn.leftEarly hlt c
  have h₂ := Tally.countP_set Conn.bootstrapped hlt c
  have h₃ := h.connected
  split_ifs at h₁ h₂ ⊢ <;> omega

/-- Handling a client. -/
theorem Owing.visitSlot (h : s.Owing) (hc : (s.slot idx).connecting = true) (hpos : 0 < s.numOngoing) :
    (s.visitSlot cfg now ok idx).Owing := by
  have hlt := lt_of_connecting hc
  have hv : ((s.slot idx).visit cfg (now idx) (ok idx)).Tracked := (h.tracked hlt).visit hc (ok idx)
  have hcount := h.counts hlt ((s.slot idx).visit cfg (now idx) (ok idx))
  rw [Conn.leftEarly_of_connecting hc, Conn.not_bootstrapped_of_connecting hc] at hcount
  suffices hcl : (s.visitSlot cfg now ok idx).numConnected +
        (s.visitSlot cfg now ok idx).clients.countP Conn.leftEarly =
      (s.visitSlot cfg now ok idx).clients.countP Conn.bootstrapped ∧
      ∀ c ∈ (s.visitSlot cfg now ok idx).clients, c.Tracked from ⟨h.numbered.visitSlot hpos, hcl.1, hcl.2⟩
  unfold Server.visitSlot
  dsimp only
  split
  · rename_i he
    have hb : ((s.slot idx).visit cfg (now idx) (ok idx)).bootstrapped = true :=
      decide_eq_true (Conn.phase_visit_of_ends (ok idx) he)
    rw [hb, Conn.leftEarly_of_bootstrapped hb] at hcount
    simp only [Bool.false_eq_true, if_true, if_false] at hcount
    refine ⟨?_, h.set hv⟩
    dsimp only [Server.count]
    omega
  · rename_i he
    have hcv := Conn.connecting_visit (ok idx) hc (Bool.not_eq_true _ ▸ he)
    rw [Conn.leftEarly_of_connecting hcv, Conn.not_bootstrapped_of_connecting hcv] at hcount
    simp only [Bool.false_eq_true, if_false] at hcount
    refine ⟨?_, h.set hv⟩
    dsimp only
    omega

/-- The callback of a request. -/
theorem Owing.completion (h : s.Owing) {q : ℕ} {c : Conn} (hc : (s.slot idx).complete q = some c) :
    ({ s with clients := s.clients.set idx c } : Server).Owing := by
  have hph := Conn.phase_complete hc
  have hlt : idx < s.clients.length := by
    by_contra hlt
    rw [slot, List.getD_eq_default _ _ (Nat.not_lt.1 hlt)] at hc
    cases hc
  have hfin : .finalized ∈ c.log ↔ .finalized ∈ (s.slot idx).log := by simp [Conn.log_complete hc]
  have hcount := h.counts hlt c
  have hearly : c.leftEarly = (s.slot idx).leftEarly := by simp only [Conn.leftEarly, hph, hfin]
  have hboot : c.bootstrapped = (s.slot idx).bootstrapped := by simp only [Conn.bootstrapped, hph]
  refine ⟨h.numbered.trans List.length_set.symm, ?_, h.set ?_⟩
  · rw [hearly, hboot] at hcount
    dsimp only
    omega
  · have ht := h.tracked hlt
    unfold Conn.Tracked at ht ⊢
    rwa [hfin, hboot, Conn.connecting, hph, ← Conn.connecting]

/-- **A client leaves**, early or not. -/
theorem Owing.termMsgCb (h : s.Owing) (hlt : idx < s.clients.length) (hd : (s.slot idx).boot.phase ≠ .disconnected) :
    (s.termMsgCb idx).Owing := by
  have hcount := h.counts hlt ((s.slot idx).setPhase .disconnected)
  have hgone : ((s.slot idx).setPhase .disconnected).boot.phase = .disconnected := Conn.phase_setPhase ..
  have hboot : ((s.slot idx).setPhase .disconnected).bootstrapped = false := by simp [Conn.bootstrapped]
  have hearly : ((s.slot idx).setPhase .disconnected).leftEarly = decide (.finalized ∉ (s.slot idx).log) := by
    simp [Conn.leftEarly, Conn.mem_log_setPhase (x := .finalized)]
  refine ⟨h.numbered.trans List.length_set.symm, ?_, h.set (.inr (.inr hgone))⟩
  rw [hboot, hearly, Conn.leftEarly_of_ne hd] at hcount
  dsimp only [Server.termMsgCb]
  rcases h.tracked hlt with ⟨hc, hn⟩ | ⟨hb, hm⟩ | hp
  · simp only [Conn.not_bootstrapped_of_connecting hc, hn, not_false_eq_true, decide_true, Bool.false_eq_true, if_true,
      if_false] at hcount
    omega
  · simp only [hb, hm, not_true_eq_false, decide_false, Bool.false_eq_true, if_true, if_false] at hcount
    omega
  · exact absurd hp hd

theorem Owing.accept (h : s.Owing) : s.oobServerListen.Owing := by
  have hcl := h.numbered.oobServerListen_clients
  have hc : Conn.reset.opened.connecting = true := by decide
  refine ⟨h.numbered.oobServerListen, ?_, fun c hm => ?_⟩
  · rw [hcl, List.countP_append, List.countP_append, List.countP_singleton, List.countP_singleton,
      Conn.leftEarly_of_connecting hc, Conn.not_bootstrapped_of_connecting hc]
    exact h.connected
  · rw [hcl] at hm
    rcases List.mem_append.1 hm with hm | hm
    · exact h.clients c hm
    · rw [List.mem_singleton.1 hm]
      exact .inl ⟨hc, List.not_mem_nil⟩

end Server

/-- **Every run**, whoever leaves and when. -/
theorem ServerReach.owing {cfg : ServerCfg} {ok : Server → ServerAct → Prop} (h : ServerReach cfg ok s) : s.Owing := by
  refine h.invariant ⟨rfl, rfl, fun c hc => absurd hc List.not_mem_nil⟩ ?_
  intro s a s' hs _ hstep
  cases a with
  | accept =>
    cases hstep
    exact hs.accept
  | progress now ok =>
    cases hstep
    exact Server.loop_keeps (Q := fun _ => True) (fun _ _ h hc hpos _ => h.visitSlot hc hpos) _ 0 rfl hs
      fun _ _ => trivial
  | completion idx q =>
    obtain ⟨c, hc, rfl⟩ := Option.map_eq_some_iff.1 hstep
    exact hs.completion hc
  | disconnect idx =>
    simp only [serverStep] at hstep
    split at hstep
    · rename_i hmay
      cases hstep
      exact hs.termMsgCb hmay.1 hmay.2.1
    · cases hstep

/-- The loops count the clients connected exactly when none left early. -/
theorem Server.Owing.sizeT_eq_iff (h : s.Owing) (hfew : s.clients.length < 2 ^ 64) :
    sizeT s.numConnected = s.clients.countP Conn.bootstrapped ↔ ∀ c ∈ s.clients, c.leftEarly = false := by
  have hc := h.connected
  have h₁ := List.countP_le_length (p := Conn.leftEarly) (l := s.clients)
  have h₂ := List.countP_le_length (p := Conn.bootstrapped) (l := s.clients)
  have hnone : (∀ c ∈ s.clients, c.leftEarly = false) ↔ s.clients.countP Conn.leftEarly = 0 := by
    simp [List.countP_eq_zero]
  rw [hnone, sizeT]
  omega

/-- **When the fan-out reaches the local ranks.** In every state of a server, after any history of accepted
clients, completions and clients that leave, sending the cache of a group and sending its revoke both go to exactly
the clients connected if and only if no client has left before it was finalised, and no slot before that of a client
connected is that of a client that is not. -/
theorem fanOut_toConnected_iff {cfg : ServerCfg} (h : ServerReach cfg (fun _ _ => True) s)
    (hfew : s.clients.length < 2 ^ 64) (gid worldGroup : ℤ) {sentToHost num : ℕ} (hsend : sentToHost < num)
    (numRanks : ℕ) :
    s.ToConnected (cacheMsgs gid worldGroup) (s.sendGpCacheToHost gid worldGroup sentToHost num) ∧
        s.ToConnected [.revoke gid numRanks] (s.sendRevokeGroupToRanks gid numRanks) ↔
      (∀ c ∈ s.clients, c.leftEarly = false) ∧ s.Compact := by
  have hne : cacheMsgs gid worldGroup ≠ [] := List.append_ne_nil_of_right_ne_nil _ (List.cons_ne_nil _ _)
  have hcache := s.toConnected_sendLoop_iff (nodup_cacheMsgs gid worldGroup) hne (sizeT s.numConnected)
  have hrevoke := s.toConnected_sendLoop_iff (List.nodup_singleton (HostMsg.revoke gid numRanks))
    (List.cons_ne_nil _ _) (sizeT s.numConnected)
  rw [Server.sendGpCacheToHost, if_pos hsend, Server.sendRevokeGroupToRanks, hcache, hrevoke, and_self_iff,
    h.owing.sizeT_eq_iff hfew]

theorem Server.bootstrapped_slot (s : Server) (i : ℕ) :
    (s.slot i).bootstrapped = (s.clients.map Conn.bootstrapped).getD i false :=
  (List.getD_map ..).symm

/-- Two clients, the first to be accepted is the first to be connected. -/
theorem fanOut_in_order : ∃ s, ServerReach ⟨true, .hostDpu, true⟩ (fun _ _ => True) s ∧
    s.sendGpCacheToHost 0 0 0 1 = [(0, .spData), (0, .groupCache 0)] ∧
    s.ToConnected (cacheMsgs 0 0) (s.sendGpCacheToHost 0 0 0 1) ∧
    s.ToConnected [.revoke 0 2] (s.sendRevokeGroupToRanks 0 2) := by
  have hrun : ∃ s, ServerReach ⟨true, .hostDpu, true⟩ (fun _ _ => True) s ∧
      s.numConnected = 1 ∧ s.clients.map Conn.bootstrapped = [true, false] ∧
        s.clients.map Conn.leftEarly = [false, false] :=
    exists_reach_of_exec [.accept, .accept, .progress (fun i _ => i = 0) (fun _ => true)] (by decide)
  obtain ⟨s, hs, hn, hl, he⟩ := hrun
  have hlen : s.clients.length = 2 := by simpa using congrArg List.length hl
  have hnone : ∀ c ∈ s.clients, c.leftEarly = false := by
    intro c hc
    have hmem := he ▸ List.mem_map_of_mem (f := Conn.leftEarly) hc
    simpa using hmem
  have hcompact : s.Compact := by
    intro i j hij hj
    rw [Server.bootstrapped_slot, hl] at hj ⊢
    match j with
    | 0 => exact absurd hij (Nat.not_lt_zero i)
    | j + 1 => cases j <;> cases hj
  refine ⟨s, hs, by rw [Server.sendGpCacheToHost, hn]; decide, ?_⟩
  exact (fanOut_toConnected_iff hs (by rw [hlen]; decide) 0 0 (by decide) 2).2 ⟨hnone, hcompact⟩

/-- **Not in every state.** The second client accepted is the first to be connected, and what is
sent goes to the other. -/
theorem fanOut_misses_connected : ¬ ∀ cfg s, ServerReach cfg (fun _ _ => True) s →
    s.ToConnected (cacheMsgs 0 0) (s.sendGpCacheToHost 0 0 0 1) ∧
      s.ToConnected [.revoke 0 2] (s.sendRevokeGroupToRanks 0 2) := by
  intro h
  have hrun : ∃ s, ServerReach ⟨true, .hostDpu, true⟩ (fun _ _ => True) s ∧
      s.numConnected = 1 ∧ s.clients.map Conn.bootstrapped = [false, true] :=
    exists_reach_of_exec [.accept, .accept, .progress (fun i _ => i = 1) (fun _ => true)] (by decide)
  obtain ⟨s, hs, hn, hl⟩ := hrun
  have hsent := (h _ s hs).1 0 (.groupCache 0)
  rw [Server.bootstrapped_slot, hl, Server.sendGpCacheToHost, hn] at hsent
  exact absurd hsent (by decide)

/-- Nor where all clients that are connected have the first slots: the second client leaves before its turn has come,
and the first gets nothing. -/
example : (exec (serverStep ⟨false, .hostDpu, false⟩) (fun _ _ => True) [.accept, .accept,
    .progress (fun i _ => i = 0) (fun _ => true), .progress (fun i _ => i = 0) (fun _ => true), .disconnect 1]
    Server.start).map (fun s => (s.clients.map Conn.bootstrapped, s.sendRevokeGroupToRanks 0 2)) =
      some ([true, false], []) := by decide

end DpuOffload
