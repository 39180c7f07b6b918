import DpuOffload.Bootstrap.Clients
import Mathlib.Tactic.Simps.Basic

/-!
# The end of an engine

The ranks of an SP leave one by one (`client_fini` on the host). When the last of them has left, the
SP's server for them is done, and the SP leaves the SPs it is a client of
(`disconnect_to_service_procs`): a termination message to each, and when its send has completed
`term_notification_completed`. The server for the other SPs is done when the last of its clients
has left. An engine is terminated when it has no server and no client that is active
(`update_engine_state`), which frees the execution contexts of the clients. Who calls that function:
the end of a client and the end of the server for the other SPs, but not the end of the server for the ranks.

All execution contexts of an engine share a worker, so a message may be handled while a client is progressed
(`execution_context_progress`), and that function then goes on with the client's execution context.

* `ServerLife.Waning` — a server whose clients leave: its counters, and when it is done.
* `TermSp.Sane` — the books of an engine, kept by what happens to it (`hostTermMsgCb`, `interSpTermMsgCb`,
  `termNotificationCompleted`).
-/

namespace DpuOffload

/-! ### One engine -/

/-- What ends in an engine. -/
inductive Ending where
  /-- The server for the ranks. -/
  | hostServer
  /-- The server for the other SPs; the message was handled while a client was progressed, or not. -/
  | interSpServer (inside : Option ℕ)
  /-- A client of another SP. -/
  | client (k : ℕ)
  deriving DecidableEq, Repr

/-- An execution context of `inter_service_proc_clients`, as its end sees it. -/
structure TermClient where
  /-- `client->id`. -/
  id : ℕ
  /-- `remote_service_proc_idx`. -/
  remoteSp : ℕ
  /-- Is `term.ev` set? -/
  termEv : Bool
  /-- `client->done`. -/
  done : Bool
  deriving DecidableEq, Repr

/-- A termination message: the SP it goes to and the id of its sender there. -/
abbrev TermMsg := ℕ × ℕ

/-- `client_fini_nb`: the message, and its event is kept. -/
def TermClient.finiNb (c : TermClient) : TermClient := { c with termEv := true }

/-- The event is returned, and the client is done. -/
@[simps]
def TermClient.left (c : TermClient) : TermClient := { c with termEv := false, done := true }

/-- The message of a client. -/
def TermClient.msg (c : TermClient) : TermMsg := (c.remoteSp, c.id)

/-- An engine on an SP, as the end of a job sees it. -/
structure TermSp where
  /-- The server for the ranks. -/
  host : ServerLife
  /-- The server for the other SPs; it is there unless the SP is the first. -/
  interSp : ServerLife
  /-- `inter_service_proc_clients`. -/
  clients : List TermClient
  /-- `clients.num_active`. -/
  clientsActive : ℕ
  /-- `servers.num_active`. -/
  serversActive : ℕ
  /-- `state`: is it `MIMOSA_ENGINE_STATE_TERMINATED`? The execution contexts of the clients are freed then. -/
  terminated : Bool
  /-- Did an assertion fail? -/
  failed : Bool
  /-- Was an execution context used that was freed? -/
  usedFreed : Bool
  /-- What has ended, in order. -/
  ended : List Ending

namespace TermSp

variable (p : TermSp)

/-- Do the clients' execution contexts get used after they were freed? -/
def usesFreed : Bool := p.terminated && !p.clients.isEmpty

/-- `update_engine_state`. -/
def updateEngineState : TermSp :=
  if p.clientsActive = 0 ∧ p.serversActive = 0 then
    { p with usedFreed := p.usedFreed || p.usesFreed, terminated := true }
  else p

/-- `disconnect_to_service_procs`, with the messages. -/
def disconnectToServiceProcs : TermSp × List TermMsg :=
  ({ p with clients := p.clients.map TermClient.finiNb, usedFreed := p.usedFreed || p.usesFreed },
    p.clients.map TermClient.msg)

/-- The end of a server: `servers.num_active` goes down. -/
@[simps]
def serverDone (e : Ending) : TermSp :=
  { p with
    failed := p.failed || p.serversActive == 0
    serversActive := p.serversActive - 1
    ended := p.ended ++ [e] }

/-- Has the last client left? -/
def isLast (s : Server) : Bool := s.numConnected == 0 && s.numOngoing == 0

/-- A rank leaves: the counter of the server goes down. -/
@[simps]
def hostLeft (id : ℕ) : TermSp :=
  { p with host := p.host.termMsgCb id, failed := p.failed || p.host.server.numConnected == 0 }

/-- `term_msg_cb`, of the server for the ranks. -/
def hostTermMsgCb (id : ℕ) : TermSp × List TermMsg :=
  let p' := p.hostLeft id
  if isLast p'.host.server then (p'.serverDone .hostServer).disconnectToServiceProcs else (p', [])

/-- Another SP leaves. -/
@[simps]
def interSpLeft (id : ℕ) : TermSp :=
  { p with interSp := p.interSp.termMsgCb id, failed := p.failed || p.interSp.server.numConnected == 0 }

/-- `term_msg_cb`, of the server for the other SPs. -/
def interSpTermMsgCb (id : ℕ) (inside : Option ℕ) : TermSp :=
  let p' := p.interSpLeft id
  if isLast p'.interSp.server then (p'.serverDone (.interSpServer inside)).updateEngineState else p'

/-- The rest of `execution_context_progress` once the worker was progressed: the type of the client's execution context
is looked at. -/
def goOn (inside : Option ℕ) : TermSp := { p with usedFreed := p.usedFreed || inside.isSome && p.terminated }

/-- A message of another SP is handled, while a client is progressed or not. -/
def progressWorker (id : ℕ) (inside : Option ℕ) : TermSp := (p.interSpTermMsgCb id inside).goOn inside

/-- A client is done. -/
@[simps]
def clientDone (k : ℕ) (c : TermClient) : TermSp :=
  { p with
    clients := p.clients.set k c.left
    failed := p.failed || p.clientsActive == 0
    clientsActive := p.clientsActive - 1
    ended := p.ended ++ [.client k] }

/-- The end of `execution_context_progress` of a client whose event has completed: the event is returned, then
`term_notification_completed`. -/
def termNotificationCompleted (k : ℕ) (c : TermClient) : TermSp := (p.clientDone k c).updateEngineState

end TermSp

/-! ### A server whose clients leave -/

/-- **A server with its clients connected**, before the first of them leaves. -/
structure ServerLife.Ready (l : ServerLife) : Prop where
  /-- The counters and the ids. -/
  kept : l.Kept
  /-- Every client is connected. -/
  connected : ∀ c ∈ l.server.clients, c.bootstrapped = true
  /-- None has left. -/
  left : l.left = []
  /-- The server is not done. -/
  notDone : l.done = false

namespace ServerLife

variable {l : ServerLife} {k id : ℕ}

/-- **A server of `k` clients, some of which have left**: the others are connected, and the server is done when
none is. -/
structure Waning (k : ℕ) (l : ServerLife) : Prop where
  /-- The counters and the ids. -/
  kept : l.Kept
  /-- The clients. -/
  length : l.server.clients.length = k
  /-- None is connecting. -/
  ongoing : l.server.numOngoing = 0
  /-- Those that have not left are connected. -/
  connected : ∀ id < k, id ∉ l.left → (l.server.slot id).boot.phase = .bootstrapDone
  /-- A client leaves once. -/
  nodup : l.left.Nodup
  /-- Only clients leave. -/
  lt : ∀ id ∈ l.left, id < k
  /-- The clients connected and those that have left are all. -/
  count : l.server.numConnected + (l.left.length : ℤ) = k
  /-- The server is done when all have left. -/
  done : l.done = decide (0 < k ∧ l.left.length = k)

theorem Ready.waning (h : l.Ready) : l.Waning l.server.clients.length where
  kept := h.kept
  length := rfl
  ongoing := by
    rw [h.kept.tally.ongoing, List.countP_eq_zero]
    exact fun c hc => by simp [Conn.not_connecting_of_bootstrapped (h.connected c hc)]
  connected id hid _ := by
    rw [Server.slot, List.getD_eq_getElem _ _ hid]
    exact of_decide_eq_true (h.connected _ (List.getElem_mem hid))
  nodup := by simp [h.left]
  lt := by simp [h.left]
  count := by
    rw [h.left, h.kept.tally.connected, List.countP_eq_length.2 h.connected]
    simp
  done := by
    rw [h.notDone, h.left, List.length_nil]
    exact (decide_eq_false (by omega)).symm

/-- No more leave than there are. -/
theorem Waning.length_le (h : l.Waning k) : l.left.length ≤ k := by
  have hle := (List.subperm_of_subset h.nodup fun x hx => List.mem_range.2 (h.lt x hx)).length_le
  rwa [List.length_range] at hle

/-- Not all have left while one has not. -/
theorem Waning.length_lt (h : l.Waning k) (hid : id < k) (hl : id ∉ l.left) : l.left.length < k := by
  have hsub : (id :: l.left) ⊆ List.range k := by
    intro x hx
    rw [List.mem_range]
    rcases List.mem_cons.1 hx with rfl | hx
    · exact hid
    · exact h.lt x hx
  have hle := (List.subperm_of_subset (List.nodup_cons.2 ⟨hl, h.nodup⟩) hsub).length_le
  rwa [List.length_cons, List.length_range] at hle

/-- **A client leaves.** -/
theorem Waning.termMsgCb (h : l.Waning k) (hid : id < k) (hl : id ∉ l.left) :
    l.server.numConnected ≠ 0 ∧ (l.termMsgCb id).Waning k ∧
      TermSp.isLast (l.termMsgCb id).server = (l.termMsgCb id).done ∧ l.done = false := by
  have hlt := h.length_lt hid hl
  have hcount := h.count
  have hph := h.connected id hid hl
  have hnum : (l.termMsgCb id).server.numConnected = l.server.numConnected - 1 := rfl
  have hong : (l.termMsgCb id).server.numOngoing = 0 := h.ongoing
  have hnot : l.done = false := by
    rw [h.done]
    exact decide_eq_false (by omega)
  have hlen : (l.termMsgCb id).left.length = l.left.length + 1 := rfl
  have hlast : TermSp.isLast (l.termMsgCb id).server = decide (0 < k ∧ (l.termMsgCb id).left.length = k) := by
    rw [TermSp.isLast, hnum, hong, hlen]
    by_cases he : l.left.length + 1 = k
    · simp [he, show l.server.numConnected - 1 = 0 by omega, show 0 < k by omega]
    · have hne : l.server.numConnected - 1 ≠ 0 := by omega
      rw [decide_eq_false (by omega), beq_false_of_ne hne]
      rfl
  have hdone : (l.termMsgCb id).done = TermSp.isLast (l.termMsgCb id).server := by
    change (l.done || _) = _
    rw [hnot, Bool.false_or]
    rfl
  have hk : ({ l with server := l.server.termMsgCb id } : ServerLife).Kept :=
    h.kept.of_length (h.kept.tally.termMsgCb hph) List.length_set
  refine ⟨by omega, ⟨⟨hk.tally, hk.ids⟩, ?_, hong, fun x hx hxl => ?_, List.nodup_cons.2 ⟨hl, h.nodup⟩, fun x hx => ?_,
    ?_, hdone.trans hlast⟩, hdone.symm, hnot⟩
  · rw [← h.length]
    exact List.length_set
  · obtain ⟨hne, hnl⟩ := not_or.1 (mt List.mem_cons.2 hxl)
    have hslot : (l.termMsgCb id).server.slot x = l.server.slot x := by
      change (l.server.clients.set id _).getD x _ = l.server.clients.getD x _
      rw [List.getD_eq_getElem?_getD, List.getElem?_set_ne (Ne.symm hne), ← List.getD_eq_getElem?_getD]
    rw [hslot]
    exact h.connected x hx hnl
  · rcases List.mem_cons.1 hx with rfl | hx
    · exact hid
    · exact h.lt x hx
  · rw [hnum, hlen]
    omega

end ServerLife

/-! ### An engine -/

namespace TermSp

/-- Everything of the engine of the SP `g` has ended. -/
def AllEnded (g : ℕ) (p : TermSp) : Prop :=
  p.host.done = true ∧ (g = 0 ∨ p.interSp.done = true) ∧ ∀ c ∈ p.clients, c.done = true

/-- **The books of the engine of the SP `g`**, which has `r` ranks and whose clients send `cs`. -/
structure Booked (r g : ℕ) (cs : List TermMsg) (p : TermSp) : Prop where
  /-- The server for the ranks. -/
  host : p.host.Waning r
  /-- The server for the other SPs. -/
  interSp : p.interSp.Waning g
  /-- The clients. -/
  clients : p.clients.map TermClient.msg = cs
  /-- They leave when the server for the ranks is done. -/
  posted : ∀ c ∈ p.clients, (c.termEv || c.done) = p.host.done ∧ (c.termEv && c.done) = false
  /-- The clients that are active. -/
  clientsActive : p.clientsActive = p.clients.countP (!·.done)
  /-- The servers that are active. -/
  serversActive : p.serversActive = (if p.host.done then 0 else 1) + if g = 0 ∨ p.interSp.done = true then 0 else 1
  /-- When the server for the ranks has ended, no client has ended before. -/
  last : p.ended.getLast? = some .hostServer → ∀ c ∈ p.clients, c.done = false
  /-- What can end. -/
  names : ∀ e ∈ p.ended, e = .hostServer ∨ (∃ inside, e = .interSpServer inside) ∧ g ≠ 0 ∨
    ∃ k < p.clients.length, e = .client k
  /-- The end of the server for the ranks. -/
  hostEnded : p.host.done = true → .hostServer ∈ p.ended
  /-- All went well. -/
  ok : p.failed = false

/-- **And its state.** -/
structure Sane (r g : ℕ) (cs : List TermMsg) (p : TermSp) : Prop extends Booked r g cs p where
  /-- The engine is terminated when everything has ended, and last something that looks for it. -/
  terminated : p.terminated = true ↔ p.AllEnded g ∧ p.ended.getLast? ≠ some .hostServer
  /-- What was freed is used when the last message was handled while a client was progressed. -/
  usedFreed : p.usedFreed = true ↔ p.terminated = true ∧ ∃ k, p.ended.getLast? = some (.interSpServer (some k))

variable {r g : ℕ} {cs : List TermMsg} {p : TermSp}

/-- Nothing is active when everything has ended. -/
theorem Booked.active_iff (h : p.Booked r g cs) : p.clientsActive = 0 ∧ p.serversActive = 0 ↔ p.AllEnded g := by
  have hc : p.clientsActive = 0 ↔ ∀ c ∈ p.clients, c.done = true := by
    rw [h.clientsActive, List.countP_eq_zero]
    exact forall₂_congr fun c _ => by simp
  have hs : p.serversActive = 0 ↔ p.host.done = true ∧ (g = 0 ∨ p.interSp.done = true) := by
    rw [h.serversActive]
    by_cases h₁ : p.host.done = true <;> by_cases h₂ : g = 0 ∨ p.interSp.done = true <;> simp [h₁, h₂]
  rw [hc, hs, AllEnded]
  tauto

/-- The state is looked at after something ended that was not the server for the ranks, and whoever called goes on. -/
theorem Booked.updateEngineState (h : p.Booked r g cs) (ht : p.terminated = false) (hu : p.usedFreed = false)
    (hl : p.ended.getLast? ≠ some .hostServer) {inside : Option ℕ}
    (hin : inside.isSome = true ↔ ∃ k, p.ended.getLast? = some (.interSpServer (some k))) :
    (p.updateEngineState.goOn inside).Sane r g cs := by
  unfold TermSp.updateEngineState
  split
  · rename_i ha
    refine ⟨⟨h.host, h.interSp, h.clients, h.posted, h.clientsActive, h.serversActive, h.last, h.names, h.hostEnded,
      h.ok⟩, ⟨fun _ => ⟨h.active_iff.1 ha, hl⟩, fun _ => rfl⟩, ?_⟩
    simp [goOn, usesFreed, ht, hu, hin]
  · rename_i ha
    refine ⟨⟨h.host, h.interSp, h.clients, h.posted, h.clientsActive, h.serversActive, h.last, h.names, h.hostEnded,
      h.ok⟩, ⟨fun hT => ?_, fun hE => absurd (h.active_iff.2 hE.1) ha⟩, ?_⟩
    · rw [show (p.goOn inside).terminated = p.terminated from rfl, ht] at hT
      cases hT
    · simp [goOn, ht, hu]

theorem goOn_none : p.goOn none = p := by simp [goOn]

/-- While something has not ended the engine is not terminated. -/
theorem Sane.not_terminated (h : p.Sane r g cs) (hno : ¬ p.AllEnded g) : p.terminated = false :=
  Bool.not_eq_true _ ▸ fun ht => hno (h.terminated.1 ht).1

/-- And nothing was freed. -/
theorem Sane.not_usedFreed (h : p.Sane r g cs) (ht : p.terminated = false) : p.usedFreed = false := by
  refine Bool.not_eq_true _ ▸ fun hu => ?_
  have := (h.usedFreed.1 hu).1
  rw [ht] at this
  cases this

/-- **A rank leaves.** The clients leave with the last one. -/
theorem Sane.hostTermMsgCb (h : p.Sane r g cs) {id : ℕ} (hid : id < r) (hl : id ∉ p.host.left) :
    (p.hostTermMsgCb id).1.Sane r g cs ∧ p.host.done = false ∧
      (p.hostTermMsgCb id).1.interSp = p.interSp ∧ (p.hostTermMsgCb id).1.host.left = id :: p.host.left ∧
      (p.hostTermMsgCb id).2 = if (p.hostTermMsgCb id).1.host.done then cs else [] := by
  obtain ⟨hnum, hw, hlast, hnot⟩ := h.host.termMsgCb hid hl
  have hpost : ∀ c ∈ p.clients, c.termEv = false ∧ c.done = false := fun c hc => by
    have := (h.posted c hc).1
    rw [hnot] at this
    exact Bool.or_eq_false_iff.1 this
  have hT := h.not_terminated fun hall => by simp [AllEnded, hnot] at hall
  have hu := h.not_usedFreed hT
  have hfail : (p.failed || p.host.server.numConnected == 0) = false := by simp [h.ok, hnum]
  cases hd : (p.host.termMsgCb id).done with
  | false =>
    have heq : p.hostTermMsgCb id = (p.hostLeft id, []) := if_neg (by simp [hlast, hd])
    rw [heq]
    refine ⟨⟨⟨hw, h.interSp, h.clients, fun c hc => ?_, h.clientsActive, ?_, h.last, h.names, fun hD => ?_, hfail⟩, ?_,
      ?_⟩, hnot, rfl, rfl, by simp [hd]⟩
    · simp [hpost c hc, hd]
    · have := h.serversActive
      rw [hnot] at this
      simp [this, hd]
    · simp [hd] at hD
    · simp [AllEnded, hd, hT]
    · simp [hT, hu]
  | true =>
    have heq : p.hostTermMsgCb id = ((p.hostLeft id).serverDone .hostServer).disconnectToServiceProcs :=
      if_pos (by simp [hlast, hd])
    rw [heq]
    have hs : p.serversActive = 1 + if g = 0 ∨ p.interSp.done = true then 0 else 1 := by
      have := h.serversActive
      rwa [hnot] at this
    have hclients : ∀ c ∈ p.clients.map TermClient.finiNb, c.termEv = true ∧ c.done = false := by
      intro c hc
      obtain ⟨d, hd', rfl⟩ := List.mem_map.1 hc
      exact ⟨rfl, (hpost d hd').2⟩
    refine ⟨⟨⟨hw, h.interSp, ?_, fun c hc => ?_, ?_, ?_, fun _ c hc => (hclients c hc).2, fun e he => ?_, fun _ => ?_,
      ?_⟩, ?_, ?_⟩, hnot, rfl, rfl, ?_⟩
    · exact (List.map_map ..).trans h.clients
    · simp [hclients c hc, disconnectToServiceProcs, serverDone, hd]
    · change p.clientsActive = (p.clients.map TermClient.finiNb).countP (!·.done)
      rw [List.countP_map]
      exact h.clientsActive
    · simp [disconnectToServiceProcs, serverDone, hd, hs]
    · rcases List.mem_append.1 he with he | he
      · simpa [disconnectToServiceProcs, serverDone] using h.names e he
      · exact .inl (List.mem_singleton.1 he)
    · exact List.mem_append_right _ (List.mem_singleton_self _)
    · simp [disconnectToServiceProcs, serverDone, hfail, hs]
    · simp [disconnectToServiceProcs, serverDone, hT]
    · simp [disconnectToServiceProcs, serverDone, usesFreed, hT, hu]
    · simp [disconnectToServiceProcs, serverDone, hd, h.clients]

/-- **A client of the server for the other SPs leaves.** -/
theorem Sane.progressWorker (h : p.Sane r g cs) {id : ℕ} (hid : id < g) (hl : id ∉ p.interSp.left)
    (inside : Option ℕ) :
    (p.progressWorker id inside).Sane r g cs ∧ (p.progressWorker id inside).host = p.host ∧
      (p.progressWorker id inside).clients = p.clients ∧
      (p.progressWorker id inside).interSp.left = id :: p.interSp.left := by
  obtain ⟨hnum, hw, hlast, hnot⟩ := h.interSp.termMsgCb hid hl
  have hg : g ≠ 0 := by omega
  have hT := h.not_terminated fun hall => by simp [AllEnded, hnot, hg] at hall
  have hu := h.not_usedFreed hT
  have hfail : (p.failed || p.interSp.server.numConnected == 0) = false := by simp [h.ok, hnum]
  cases hd : (p.interSp.termMsgCb id).done with
  | false =>
    have heq : p.progressWorker id inside = (p.interSpLeft id).goOn inside :=
      congrArg (goOn · inside) (if_neg (by simp [hlast, hd]))
    rw [heq]
    refine ⟨⟨⟨h.host, hw, h.clients, h.posted, h.clientsActive, ?_, h.last, h.names, h.hostEnded, hfail⟩, ?_, ?_⟩, rfl,
      rfl, rfl⟩
    · have := h.serversActive
      rw [hnot] at this
      simpa [goOn, hd] using this
    · simp [goOn, AllEnded, hd, hT, hg]
    · simp [goOn, hT, hu]
  | true =>
    have heq : p.progressWorker id inside =
        ((p.interSpLeft id).serverDone (.interSpServer inside)).updateEngineState.goOn inside :=
      congrArg (goOn · inside) (if_pos (by simp [hlast, hd]))
    have hs : p.serversActive = (if p.host.done then 0 else 1) + 1 := by
      have := h.serversActive
      rw [hnot] at this
      simpa [hg] using this
    have hbook : ((p.interSpLeft id).serverDone (.interSpServer inside)).Booked r g cs := by
      refine ⟨h.host, hw, h.clients, h.posted, h.clientsActive, ?_, fun he => ?_, fun e he => ?_, fun hD => ?_, ?_⟩
      · simp [serverDone, hd, hs]
      · simp [serverDone] at he
      · rcases List.mem_append.1 he with he | he
        · exact h.names e he
        · exact .inr (.inl ⟨⟨inside, List.mem_singleton.1 he⟩, hg⟩)
      · exact List.mem_append_left _ (h.hostEnded hD)
      · simp [serverDone, hfail, hs]
    rw [heq]
    refine ⟨hbook.updateEngineState hT hu (by simp [serverDone]) ?_, ?_⟩
    · cases inside <;> simp [serverDone]
    · unfold TermSp.updateEngineState
      split <;> exact ⟨rfl, rfl, rfl⟩

/-- **The message of a client has been sent.** -/
theorem Sane.termNotificationCompleted (h : p.Sane r g cs) {k : ℕ} {c : TermClient} (hk : p.clients[k]? = some c)
    (hc : c.termEv = true) :
    (p.termNotificationCompleted k c).Sane r g cs ∧ (p.termNotificationCompleted k c).host = p.host ∧
      (p.termNotificationCompleted k c).interSp = p.interSp ∧
      (p.termNotificationCompleted k c).clients = p.clients.set k c.left := by
  obtain ⟨hlt, hget⟩ := List.getElem?_eq_some_iff.1 hk
  have hmem : c ∈ p.clients := List.mem_of_getElem? hk
  have hD : p.host.done = true := by
    have := (h.posted c hmem).1
    rw [hc] at this
    exact this.symm
  have hdone : c.done = false := by
    have := (h.posted c hmem).2
    rwa [hc, Bool.true_and] at this
  have hT := h.not_terminated fun hall => by simp [hall.2.2 c hmem] at hdone
  have hu := h.not_usedFreed hT
  have hcount := Counting.countP_set_add (fun d : TermClient => !d.done) c hlt c.left
  rw [List.getD_eq_getElem _ _ hlt, hget] at hcount
  have hpos : 0 < p.clients.countP (!·.done) := List.countP_pos_iff.2 ⟨c, hmem, by simp [hdone]⟩
  have hact := h.clientsActive
  have hbook : (p.clientDone k c).Booked r g cs := by
    refine ⟨h.host, h.interSp, ?_, fun d hd => ?_, ?_, h.serversActive, fun he => ?_, fun e he => ?_, fun hD => ?_, ?_⟩
    · rw [← h.clients, clientDone_clients, List.map_set]
      refine List.ext_getElem? fun j => ?_
      rw [List.getElem?_set]
      split
      · rename_i hj
        subst hj
        simp [hlt, hget, TermClient.msg]
      · rfl
    · rcases List.mem_or_eq_of_mem_set hd with hd | rfl
      · exact h.posted d hd
      · exact ⟨hD.symm, rfl⟩
    · simp [hdone] at hcount
      simp only [clientDone_clients, clientDone_clientsActive]
      omega
    · simp at he
    · rcases List.mem_append.1 he with he | he
      · simpa using h.names e he
      · exact .inr (.inr ⟨k, by simpa using hlt, List.mem_singleton.1 he⟩)
    · exact List.mem_append_left _ (h.hostEnded hD)
    · simp [h.ok]
      omega
  have hsane : ((p.clientDone k c).updateEngineState.goOn none).Sane r g cs :=
    hbook.updateEngineState hT hu (by simp) (by simp)
  rw [goOn_none] at hsane
  refine ⟨hsane, ?_⟩
  unfold TermSp.termNotificationCompleted TermSp.updateEngineState
  split <;> exact ⟨rfl, rfl, rfl⟩

end TermSp

end DpuOffload
