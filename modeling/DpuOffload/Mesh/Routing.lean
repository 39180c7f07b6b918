import DpuOffload.Cache.Revoke
import DpuOffload.Mesh.Identity

/-!
# How an SP reaches the others

An SP has a table of the SPs of the job (`service_procs`). When a connection is established, at
either end, the endpoint, the execution context and the id to send with are recorded there, and
`num_connected_service_procs` goes up: the server does it in `progress_server_econtext` and
`client_service_proc_connected`, the client in `finalize_connection_to_remote_service_proc` and
`connected_to_server_dpu`. What is sent to an SP goes through the table: the notifications of an
application (`get_sp_ep_by_id`) and the group caches (`broadcast_group_cache`).

The table is kept beside the job of `Mesh.Identity`, whose steps it follows. An endpoint is named by the
SP it leads to, and so is an address.

A client may leave its server at any time. The table and the counter do not change then.

* `sp_routes_iff` — **`get_sp_ep_by_id` answers** exactly for the SPs whose id is at most the number
  of SPs connected and with which a connection has been established, or are the SP itself; and the answer is right:
  what is sent with it arrives at that SP, which takes it for a notification of its sender when it knows the sender.
* `all_connected_iff` — `all_service_procs_connected` says that all connections have been established.
* `broadcast_reaches_all` — and then a broadcast sends its messages to each of the other SPs.
-/

namespace DpuOffload

open Transition

/-! ### The table -/

/-- The execution context of an SP that is recorded in the table. -/
inductive SpEcontext where
  /-- That of the server for the other SPs. -/
  | server
  /-- That of a client, by its place in `inter_service_proc_clients`. -/
  | client (k : ℕ)
  /-- `self_econtext`. -/
  | self
  deriving DecidableEq, Repr

/-- `remote_service_proc_info_t`, what the sends read of it. -/
structure RemoteSp where
  /-- `ep`. -/
  ep : Option ℕ
  /-- `econtext`. -/
  econtext : Option SpEcontext
  /-- `addr`. -/
  addr : Option ℕ
  /-- `client_id`. -/
  clientId : ℕ
  deriving DecidableEq, Repr

/-- Memory that is all zero. -/
def RemoteSp.zero : RemoteSp := ⟨none, none, none, 0⟩

/-- What an engine has of the SPs of its job. -/
structure SpTable where
  /-- `service_procs`. -/
  sps : ℕ → RemoteSp
  /-- `num_connected_service_procs`. -/
  numConnected : ℕ

/-- What `get_sp_ep_by_id` gives. -/
structure SpRoute where
  /-- The endpoint. -/
  ep : ℕ
  /-- The execution context. -/
  econtext : SpEcontext
  /-- The id to send with. -/
  commId : ℕ
  deriving DecidableEq, Repr

namespace SpTable

/-- The start of `inter_dpus_connect_mgr`: an SP has its own address and endpoint. -/
def start (g : ℕ) : SpTable := ⟨Function.update (fun _ => .zero) g ⟨some g, none, some g, 0⟩, 0⟩

variable (t : SpTable)

/-- One SP changes. -/
def set (s : ℕ) (r : RemoteSp) : SpTable := { t with sps := Function.update t.sps s r }

/-- The client of a slot is connected: the endpoint and the execution context
(`progress_server_econtext`), then `client_service_proc_connected`. The SP is the one whose
rank was received. -/
def clientServiceProcConnected (p : SpNode) (idx : ℕ) : SpTable :=
  let sp := p.accepted[idx]?
  { t.set (p.groupRank idx) ⟨sp, some .server, sp, idx⟩ with numConnected := t.numConnected + 1 }

/-- `finalize_connection_to_remote_service_proc` and `connected_to_server_dpu`. -/
def finalizeConnection (p : SpNode) (k : ℕ) : SpTable :=
  match p.clients.clients[k]? with
  | some c =>
    let s := c.serverGlobalId
    { t.set s ⟨some s, some (.client k), some s, (t.sps s).clientId⟩ with numConnected := t.numConnected + 1 }
  | none => t

/-- `GET_REMOTE_SERVICE_PROC_EP`, on an SP; where there is only an address the endpoint is created. -/
def getRemoteServiceProcEp (idx : ℕ) : Option ℕ × SpTable :=
  if idx ≤ t.numConnected then
    let r := t.sps idx
    let r := { r with ep := r.ep.or r.addr }
    (r.ep, t.set idx r)
  else (none, t)

/-- `GET_REMOTE_SERVICE_PROC_ECONTEXT`, on the SP `g`. -/
def getRemoteServiceProcEcontext (g idx : ℕ) : Option SpEcontext × SpTable :=
  if idx ≤ t.numConnected then
    let r := t.sps idx
    let r := if r.econtext = none ∧ idx = g then { r with econtext := some .self } else r
    (r.econtext, t.set idx r)
  else (none, t)

/-- `get_sp_ep_by_id`, on the SP `g` of a job of `n`. An id that is too large is an error in the debug build, and has
no execution context in the default one; the pointer to the execution context is followed. -/
def getSpEpById (n g s : ℕ) : Option (SpRoute × SpTable) :=
  if n ≤ s then none
  else
    let (ep, t₁) := t.getRemoteServiceProcEp s
    let (econtext, t₂) := t₁.getRemoteServiceProcEcontext g s
    match econtext, ep with
    | some .server, some ep => some (⟨ep, .server, (t₂.sps s).clientId⟩, t₂)
    | some (.client k), some ep => some (⟨ep, .client k, s⟩, t₂)
    | some .self, some ep => some (⟨ep, .self, 0⟩, t₂)
    | _, _ => none

/-- `all_service_procs_connected`, on an SP. -/
def allServiceProcsConnected (n : ℕ) : Bool := n = t.numConnected + 1

end SpTable

namespace SpNode

variable (p : SpNode)

/-- The execution context meant. -/
def econtextOf (g : ℕ) : SpEcontext → Option Econtext
  | .server => some (p.serverEcontext g)
  | .client k => p.clients.clients[k]?.map (·.econtext g)
  | .self => none

/-- The notification that the SP `g` sends with a route. -/
def routed (g : ℕ) (r : SpRoute) : Option SpNotif :=
  (p.econtextOf g r.econtext).map fun ec => ⟨g, r.ep, ec.header r.commId⟩

end SpNode

namespace SpTable

variable (t : SpTable) {α : Type}

/-- What a turn of the loop over the SPs sends to the SP `s`, where `msgs` is what there is to send. The execution
context is dereferenced, and a message needs an endpoint. -/
def sendTo (p : SpNode) (g : ℕ) (msgs : Option (List α)) (s : ℕ) : Option (List (SpNotif × α)) := do
  let ec ← (t.sps s).econtext
  let ms ← msgs
  ms.mapM fun m => do
    let ep ← (t.getRemoteServiceProcEp s).1
    let notif ← p.routed g ⟨ep, ec, if ec = .server then (t.sps s).clientId else s⟩
    some (notif, m)

/-- The loop over the SPs of both broadcasts, which leaves out the SP itself. -/
def sendToAll (p : SpNode) (n g : ℕ) (msgs : Option (List α)) : Option (List (SpNotif × α)) :=
  (((List.range n).filter (· ≠ g)).mapM (t.sendTo p g msgs)).map List.flatten

/-- `broadcast_group_cache`, what it sends: nothing while SPs are missing, and then the entries of the local ranks,
which may take several messages. -/
def broadcastGroupCache (p : SpNode) (n g : ℕ) (gp : GroupCache) : Option (List (SpNotif × List PeerCacheEntry)) :=
  if t.allServiceProcsConnected n then t.sendToAll p n g (sendLocalRankGroupCache gp g) else some []

/-- `broadcast_group_cache_revoke`, what it sends. That all SPs are connected is only asserted. -/
def broadcastGroupCacheRevoke (p : SpNode) (n g : ℕ) (gp : GroupCache) :
    Option (List (SpNotif × GroupRevokeMsgFromSp)) :=
  t.sendToAll p n g (some (sendLocalRevokeRankGroupCache gp))

end SpTable

/-! ### The job -/

namespace Conn

/-- Has the bootstrapping ended? A client of a server may have left since. -/
def passed (c : Conn) : Bool :=
  c.boot.phase = .bootstrapDone || c.boot.phase = .disconnected && .finalized ∈ c.log

end Conn

namespace SpNode

variable (p : SpNode)

/-- One of its own connections. -/
def conn (k : ℕ) : Conn := p.conns.getD k .reset

/-- The slots whose bootstrapping has ended. -/
def passedSlots : List ℕ := (List.range p.server.clients.length).filter fun i => (p.server.slot i).passed

/-- Its own connections whose bootstrapping has ended. -/
def passedConns : List ℕ := (List.range p.conns.length).filter fun k => (p.conn k).passed

/-- The client of a slot. -/
def slotSp (i : ℕ) : ℕ := p.accepted.getD i 0

/-- The server of one of its own connections. -/
def connSp (k : ℕ) : ℕ := (p.clients.clients.getD k ⟨0, 0⟩).serverGlobalId

/-- The SPs an SP has been connected with, as clients of its server and as servers; some may have left. -/
def joined : List ℕ := p.passedSlots.map p.slotSp ++ p.passedConns.map p.connSp

/-- The slots whose bootstrapping a step has ended, in their order. -/
def ended (p' : SpNode) : List ℕ := p'.passedSlots.filter fun i => !(p.server.slot i).passed

/-- The same, of its own connections. -/
def endedConns (p' : SpNode) : List ℕ := p'.passedConns.filter fun k => !(p.conn k).passed

end SpNode

/-- A job with the tables of its SPs. -/
structure RouteNet where
  /-- The job. -/
  net : MeshNet
  /-- The tables. -/
  table : ℕ → SpTable

/-- The start. -/
def RouteNet.start : RouteNet := ⟨.start, .start⟩

/-- What happens in a job whose SPs notify each other through their tables. -/
inductive RouteAct where
  /-- The sockets of an SP and a server are connected. -/
  | connect (g s : ℕ)
  /-- The server of an SP makes a pass. -/
  | serve (s : ℕ) (now : ℕ → BootStep → Bool)
  /-- The callback of a request of a server runs. -/
  | served (s idx q : ℕ)
  /-- A client of an SP makes a pass. -/
  | progress (g k : ℕ) (now : BootStep → Bool)
  /-- The callback of a request of a client runs. -/
  | completion (g k q : ℕ)
  /-- A client leaves its server, which may not have finalised it. -/
  | disconnect (s idx : ℕ)
  /-- An SP looks up another and notifies it. -/
  | notify (g s : ℕ)
  /-- A notification is handled. -/
  | receive (i : ℕ)

/-- The step of the job. Between SPs no cache entry is added, so a bootstrapping does not fail at its
end. -/
def RouteAct.mesh : RouteAct → Option SpAct
  | .connect g s => some (.connect g s)
  | .serve s now => some (.server s (.progress now fun _ => true))
  | .served s idx q => some (.server s (.completion idx q))
  | .progress g k now => some (.client g k (.progress now true))
  | .completion g k q => some (.client g k (.completion q))
  | .disconnect s idx => some (.server s (.disconnect idx))
  | .notify _ _ => none
  | .receive i => some (.receive i)

/-- The SP whose connections change. -/
def RouteAct.sp : RouteAct → ℕ
  | .connect g _ | .progress g _ _ | .completion g _ _ | .notify g _ => g
  | .serve s _ | .served s _ _ | .disconnect s _ => s
  | .receive _ => 0

namespace RouteNet

/-- The callbacks of the connections of an SP that were established. -/
def callbacks (t : SpTable) (p p' : SpNode) : SpTable :=
  (p.endedConns p').foldl (·.finalizeConnection p') ((p.ended p').foldl (·.clientServiceProcConnected p') t)

/-- A step of the job, with the callbacks. -/
def follow (st : RouteNet) (net' : MeshNet) (g : ℕ) : RouteNet :=
  ⟨net', Function.update st.table g (callbacks (st.table g) (st.net.sp g) (net'.sp g))⟩

end RouteNet

/-- One step of a job of `n` SPs. An SP notifies another with what `get_sp_ep_by_id` gives; a
notification of its own is not sent over a connection. -/
def routeStep (n : ℕ) (st : RouteNet) (a : RouteAct) : Option RouteNet :=
  match a with
  | .notify g s =>
    ((st.table g).getSpEpById n g s).map fun (r, t) =>
      let net := match (st.net.sp g).routed g r with
        | some m => st.net.send m
        | none => st.net
      ⟨net, Function.update st.table g t⟩
  | a => (a.mesh.bind (meshStep n st.net)).map (st.follow · a.sp)

/-! ### Bootstrappings that have ended -/

namespace Conn

variable {c c' : Conn}

@[simp] theorem passed_reset : reset.passed = false := rfl

@[simp] theorem passed_opened : reset.opened.passed = false := rfl

/-- A connection whose bootstrapping has not ended is added. -/
theorem passed_getD_concat (l : List Conn) (hc : c.passed = false) (k : ℕ) :
    ((l ++ [c]).getD k .reset).passed = (l.getD k .reset).passed := by
  rcases Nat.lt_trichotomy k l.length with hk | rfl | hk
  · rw [List.getD_append _ _ _ _ hk]
  · rw [List.getD_append_right _ _ _ _ (Nat.le_refl _), List.getD_eq_default l _ (Nat.le_refl _), Nat.sub_self]
    exact hc
  · rw [List.getD_eq_default _ _ (by rw [List.length_append, List.length_singleton]; omega),
      List.getD_eq_default _ _ (Nat.le_of_lt hk)]

theorem not_passed_of_connecting (h : c.connecting = true) : c.passed = false := by
  rcases Bool.or_eq_true_iff.1 h with h | h <;> simp [passed, of_decide_eq_true h]

theorem phase_of_passed (h : c.passed = true) : c.boot.phase = .bootstrapDone ∨ c.boot.phase = .disconnected := by
  simp only [passed, Bool.or_eq_true, Bool.and_eq_true, decide_eq_true_eq] at h
  exact h.imp id And.left

theorem passed_complete {q : ℕ} (h : c.complete q = some c') : c'.passed = c.passed := by
  simp [passed, phase_complete h, log_complete h]

/-- Where a bootstrapping has ended the rank has been received. -/
theorem Placed.rank_of_passed {four : Bool} (h : c.Placed four) (hp : c.passed = true) :
    (c.op .rank).complete = true := by
  obtain ⟨pos, hpos, hat⟩ := h
  have hp := phase_of_passed hp
  rw [hat.phase_eq] at hp
  rw [hat.op_eq]
  cases pos with
  | idle s | waiting s _ | ready s _ => cases s <;> simp [BootPos.phase] at hp
  | past s => exact absurd rfl (hpos s)
  | finishing => simp [BootPos.phase] at hp
  | done | gone => cases four <;> rfl

/-- Between SPs there is no fourth step that could be in flight. -/
theorem Placed.awaits4_eq (h : c.Placed false) : c.awaits4 = false := by
  obtain ⟨pos, -, hat⟩ := h
  have hcur := hat.hist.known.current
  rw [awaits4, hat.inFlight]
  cases pos with
  | waiting s q =>
    cases s with
    | step4 => exact absurd hcur.1 (by decide)
    | addrSize | addr | rank => rfl
  | idle | ready | past | finishing | done | gone => rfl

/-- A bootstrapping that has ended stays ended. -/
theorem passed_clientStep {cfg : ClientCfg} {a : ClientAct} (h : c.passed = true) (hs : clientStep cfg c a = some c') :
    c'.passed = true := by
  cases a with
  | progress now ok =>
    cases hs
    have hc : c.progressClientEcontext cfg now ok = c := by
      rcases phase_of_passed h with h | h <;> simp [progressClientEcontext, h]
    rwa [hc]
  | completion q => rwa [passed_complete hs]

end Conn

namespace Server

variable {cfg : ServerCfg} {s s' : Server} {i : ℕ}

theorem slot_set (c : Conn) (idx : ℕ) (hs' : s'.clients = s.clients.set idx c) :
    s'.slot i = if idx = i ∧ i < s.clients.length then c else s.slot i := by
  rw [slot, slot, hs', List.getD_eq_getElem?_getD, List.getD_eq_getElem?_getD, List.getElem?_set]
  by_cases hi : idx = i
  · subst hi
    by_cases hlt : idx < s.clients.length <;> simp [hlt]
  · simp [hi]

theorem lt_of_passed (h : (s.slot i).passed = true) : i < s.clients.length := by
  by_contra hlt
  rw [slot, List.getD_eq_default _ _ (Nat.not_lt.1 hlt)] at h
  cases h

/-- **The clients of a server between SPs**: each is bootstrapped as it should be, or left before its bootstrapping
ended. -/
structure Standing (s : Server) : Prop where
  /-- The numbers of the clients. -/
  numbered : s.Numbered
  /-- The clients. -/
  clients : ∀ c ∈ s.clients, c.Sound false ∨ c.boot.phase = .disconnected ∧ c.passed = false

theorem standing_start : start.Standing := ⟨rfl, fun _ h => absurd h List.not_mem_nil⟩

/-- The client of a slot in use. -/
theorem Standing.slot (h : s.Standing) (hlt : i < s.clients.length) :
    (s.slot i).Sound false ∨ (s.slot i).boot.phase = .disconnected ∧ (s.slot i).passed = false := by
  rw [Server.slot, List.getD_eq_getElem _ _ hlt]
  exact h.clients _ (List.getElem_mem hlt)

/-- A client that has not left is sound. -/
theorem Standing.sound (h : s.Standing) (hlt : i < s.clients.length) (hd : (s.slot i).boot.phase ≠ .disconnected) :
    (s.slot i).Sound false :=
  (h.slot hlt).resolve_right fun hl => hd hl.1

/-- So is one whose bootstrapping has ended. -/
theorem Standing.sound_of_passed (h : s.Standing) (hp : (s.slot i).passed = true) : (s.slot i).Sound false := by
  refine (h.slot (lt_of_passed hp)).resolve_right fun hl => ?_
  rw [hl.2] at hp
  cases hp

theorem Standing.set (h : s.Standing) {c : Conn}
    (hc : c.Sound false ∨ c.boot.phase = .disconnected ∧ c.passed = false) :
    ∀ d ∈ s.clients.set i c, d.Sound false ∨ d.boot.phase = .disconnected ∧ d.passed = false := by
  intro d hd
  rcases List.mem_or_eq_of_mem_set hd with hd | rfl
  · exact h.clients d hd
  · exact hc

theorem Standing.accept (h : s.Standing) : s.oobServerListen.Standing := by
  refine ⟨h.numbered.oobServerListen, fun c hc => ?_⟩
  rw [h.numbered.oobServerListen_clients] at hc
  rcases List.mem_append.1 hc with hc | hc
  · exact h.clients c hc
  · rw [List.mem_singleton.1 hc]
    exact .inl ⟨⟨.idle .addrSize, nofun, Conn.opened_reset_at false⟩, by decide⟩

/-- A client that leaves: its bootstrapping has ended, or will not. -/
theorem Standing.disconnect (h : s.Standing) (hlt : i < s.clients.length)
    (hd : (s.slot i).boot.phase ≠ .disconnected) :
    ((s.slot i).setPhase .disconnected).Sound false ∨
      ((s.slot i).setPhase .disconnected).boot.phase = .disconnected ∧
        ((s.slot i).setPhase .disconnected).passed = false := by
  have hs := h.sound hlt hd
  by_cases hb : (s.slot i).boot.phase = .bootstrapDone
  · exact .inl (hs.disconnect hb)
  · refine .inr ⟨Conn.phase_setPhase .., ?_⟩
    have hn : .finalized ∉ (s.slot i).log := by
      intro hm
      have hno := hs.finalized_iff.1 hm
      obtain ⟨pos, hpos, hat⟩ := hs.placed
      rw [Conn.connecting, hat.phase_eq] at hno
      rw [hat.phase_eq] at hd hb
      cases pos with
      | idle s | waiting s _ | ready s _ | past s => cases s <;> simp [BootPos.phase] at hno
      | finishing => simp [BootPos.phase] at hno
      | done => exact hb rfl
      | gone => exact hd rfl
    simp [Conn.passed, Conn.mem_log_setPhase (x := .finalized), hn]

/-- **Every step between SPs**: there is no fourth step that could be in flight. -/
theorem Standing.step {a : ServerAct} (h : s.Standing) (hs : serverStep interSpServerCfg s a = some s') :
    s'.Standing := by
  cases a with
  | accept =>
    cases hs
    exact h.accept
  | progress now ok =>
    cases hs
    refine loop_keeps (Q := fun _ => True) (fun t idx ht hc hpos _ => ?_) _ 0 rfl h fun _ _ => trivial
    have hsound : (t.slot idx).Sound interSpServerCfg.four :=
      ht.sound (lt_of_connecting hc) fun hd => by simp [Conn.connecting, hd] at hc
    have hv : ((t.slot idx).visit interSpServerCfg (now idx) (ok idx)).Sound false :=
      hsound.visit hc hsound.placed.awaits4_eq (ok idx)
    refine ⟨ht.numbered.visitSlot hpos, ?_⟩
    unfold visitSlot
    dsimp only
    split <;> exact ht.set (.inl hv)
  | completion idx q =>
    obtain ⟨c, hc, rfl⟩ := Option.map_eq_some_iff.1 hs
    have hlt : idx < s.clients.length := by
      by_contra hlt
      rw [Server.slot, List.getD_eq_default _ _ (Nat.not_lt.1 hlt)] at hc
      cases hc
    refine ⟨h.numbered.trans List.length_set.symm, h.set ((h.slot hlt).imp (·.complete hc) fun hl => ?_)⟩
    rwa [Conn.phase_complete hc, Conn.passed_complete hc]
  | disconnect idx =>
    simp only [serverStep] at hs
    split at hs
    · rename_i hmay
      cases hs
      exact ⟨h.numbered.trans List.length_set.symm, h.set (h.disconnect hmay.1 hmay.2.1)⟩
    · cases hs

/-- **A bootstrapping that has ended stays ended.** -/
theorem Standing.passed_step {a : ServerAct} (hst : s.Standing) (ha : a ≠ .accept)
    (hs : serverStep interSpServerCfg s a = some s') (h : (s.slot i).passed = true) : (s'.slot i).passed = true := by
  cases a with
  | accept => exact absurd rfl ha
  | progress now ok =>
    cases hs
    suffices hJ : ∀ i, (s.slot i).passed = true →
        ((s.progressServerEcontext interSpServerCfg now ok).slot i).passed = true from hJ i h
    refine loop_keeps (J := fun t => ∀ i, (s.slot i).passed = true → (t.slot i).passed = true) (Q := fun _ => True)
      (fun t idx ht hc _ _ i hi => ?_) _ 0 rfl (fun _ => id) fun _ _ => trivial
    have hset : (t.visitSlot interSpServerCfg now ok idx).clients =
        t.clients.set idx ((t.slot idx).visit interSpServerCfg (now idx) (ok idx)) := by
      unfold visitSlot
      split <;> rfl
    rw [slot_set _ idx hset]
    split
    · rename_i he
      have hp := ht i hi
      rw [← he.1, Conn.not_passed_of_connecting hc] at hp
      cases hp
    · exact ht i hi
  | completion idx q =>
    obtain ⟨c, hc, rfl⟩ := Option.map_eq_some_iff.1 hs
    rw [slot_set c idx rfl]
    split
    · rename_i he
      rw [Conn.passed_complete hc, he.1]
      exact h
    · exact h
  | disconnect idx =>
    simp only [serverStep] at hs
    split at hs
    · cases hs
      rw [slot_set ((s.slot idx).setPhase .disconnected) idx rfl]
      split
      · rename_i he
        have hf := (hst.sound_of_passed h).finalized (Conn.phase_of_passed h)
        simp [Conn.passed, Conn.mem_log_setPhase (x := .finalized), he.1, hf]
      · exact h
    · cases hs

end Server

/-! ### What a step does to an SP -/

namespace SpNode

variable {p p' : SpNode}

@[simp] theorem mem_passedSlots {i : ℕ} : i ∈ p.passedSlots ↔ (p.server.slot i).passed = true := by
  rw [passedSlots, List.mem_filter, List.mem_range]
  exact ⟨And.right, fun h => ⟨Server.lt_of_passed h, h⟩⟩

@[simp] theorem mem_passedConns {k : ℕ} : k ∈ p.passedConns ↔ (p.conn k).passed = true := by
  rw [passedConns, List.mem_filter, List.mem_range]
  refine ⟨And.right, fun h => ⟨?_, h⟩⟩
  by_contra hlt
  rw [conn, List.getD_eq_default _ _ (Nat.not_lt.1 hlt)] at h
  cases h

theorem nodup_passedSlots : p.passedSlots.Nodup := List.nodup_range.filter _

theorem nodup_passedConns : p.passedConns.Nodup := List.nodup_range.filter _

/-- **What a step of the job does to an SP**: it gains connections, and bootstrappings end. -/
structure Advances (p p' : SpNode) : Prop where
  /-- Clients are accepted. -/
  accepted : p.accepted <+: p'.accepted
  /-- Servers are connected to. -/
  clients : p.clients.clients <+: p'.clients.clients
  /-- The slots. -/
  slots : ∀ i, (p.server.slot i).passed = true → (p'.server.slot i).passed = true
  /-- Its own connections. -/
  conns : ∀ k, (p.conn k).passed = true → (p'.conn k).passed = true

/-- No bootstrapping ended. -/
structure Still (p p' : SpNode) : Prop where
  /-- The slots. -/
  slots : ∀ i, (p'.server.slot i).passed = true → (p.server.slot i).passed = true
  /-- Its own connections. -/
  conns : ∀ k, (p'.conn k).passed = true → (p.conn k).passed = true

theorem Advances.refl (p : SpNode) : p.Advances p :=
  ⟨List.prefix_rfl, List.prefix_rfl, fun _ => id, fun _ => id⟩

theorem Still.refl (p : SpNode) : p.Still p := ⟨fun _ => id, fun _ => id⟩

theorem Still.callbacks (h : p.Still p') (t : SpTable) : RouteNet.callbacks t p p' = t := by
  have hs : p.ended p' = [] := List.filter_eq_nil_iff.2 fun i hi => by simp [h.slots i (mem_passedSlots.1 hi)]
  have hc : p.endedConns p' = [] := List.filter_eq_nil_iff.2 fun k hk => by simp [h.conns k (mem_passedConns.1 hk)]
  rw [RouteNet.callbacks, hs, hc]
  rfl

/-- The slots are those from before and those that ended. -/
theorem Advances.perm_slots (h : p.Advances p') : p'.passedSlots.Perm (p.passedSlots ++ p.ended p') := by
  refine (List.perm_ext_iff_of_nodup nodup_passedSlots ?_).2 fun i => ?_
  · refine List.Nodup.append nodup_passedSlots (nodup_passedSlots.filter _) fun i hi hi' => ?_
    have hn := (List.mem_filter.1 hi').2
    rw [mem_passedSlots.1 hi] at hn
    cases hn
  · have hi := h.slots i
    simp only [List.mem_append, ended, List.mem_filter, mem_passedSlots]
    cases hp : (p.server.slot i).passed with
    | true => simp [hi hp]
    | false => simp

theorem Advances.perm_conns (h : p.Advances p') : p'.passedConns.Perm (p.passedConns ++ p.endedConns p') := by
  refine (List.perm_ext_iff_of_nodup nodup_passedConns ?_).2 fun k => ?_
  · refine List.Nodup.append nodup_passedConns (nodup_passedConns.filter _) fun k hk hk' => ?_
    have hn := (List.mem_filter.1 hk').2
    rw [mem_passedConns.1 hk] at hn
    cases hn
  · have hk := h.conns k
    simp only [List.mem_append, endedConns, List.mem_filter, mem_passedConns]
    cases hp : (p.conn k).passed with
    | true => simp [hk hp]
    | false => simp

end SpNode

namespace MeshNet

/-- **The connections of a job**: those of an SP as a client lead to SPs with a higher id, those of its
server to SPs with a lower one, one to each. -/
structure Wired (n : ℕ) (st : MeshNet) : Prop where
  /-- What the SPs know of each other. -/
  linked : st.Linked
  /-- The clients of a server have a lower id. -/
  below : ∀ s, ∀ g ∈ (st.sp s).accepted, g < s
  /-- A client is accepted once. -/
  nodup : ∀ s, (st.sp s).accepted.Nodup
  /-- The servers of a client have a higher id. -/
  above : ∀ g, ∀ c ∈ (st.sp g).clients.clients, g < c.serverGlobalId ∧ c.serverGlobalId < n
  /-- A client connects once to a server. -/
  servers : ∀ g, ((st.sp g).clients.clients.map (·.serverGlobalId)).Nodup
  /-- The connections of an SP are those of its clients. -/
  conns : ∀ g, (st.sp g).conns.length = (st.sp g).clients.clients.length
  /-- The servers. -/
  standing : ∀ s, (st.sp s).server.Standing

variable {n : ℕ} {st st' : MeshNet}

/-- The step of a server, which accepts no client by itself. -/
theorem meshStep_server {s : ℕ} {a : ServerAct} (ha : a ≠ .accept) : meshStep n st (.server s a) =
    (serverStep interSpServerCfg (st.sp s).server a).map fun sv => st.set s ((st.sp s).served sv) := by
  cases a with
  | accept => exact absurd rfl ha
  | progress | completion | disconnect => rfl

theorem wired_start : start.Wired n where
  linked := linked_start
  below _ _ h := absurd h List.not_mem_nil
  nodup _ := List.nodup_nil
  above _ _ h := absurd h List.not_mem_nil
  servers _ := List.nodup_nil
  conns _ := rfl
  standing _ := Server.standing_start

/-- One SP changes, but not its connections. -/
theorem Wired.set (h : st.Wired n) {g : ℕ} {p : SpNode} (hl : (st.set g p).Linked)
    (ha : p.accepted = (st.sp g).accepted) (hc : p.clients = (st.sp g).clients)
    (hn : p.conns.length = (st.sp g).conns.length) (hs : p.server.Standing) : (st.set g p).Wired n := by
  have hsp : ∀ x, ((st.set g p).sp x).accepted = (st.sp x).accepted ∧ ((st.set g p).sp x).clients = (st.sp x).clients ∧
      ((st.set g p).sp x).conns.length = (st.sp x).conns.length ∧ ((st.set g p).sp x).server.Standing := by
    intro x
    rw [sp_set]
    split
    · rename_i hx
      subst hx
      exact ⟨ha, hc, hn, hs⟩
    · exact ⟨rfl, rfl, rfl, h.standing x⟩
  refine ⟨hl, fun x => ?_, fun x => ?_, fun x => ?_, fun x => ?_, fun x => ?_, fun x => (hsp x).2.2.2⟩
  · rw [(hsp x).1]
    exact h.below x
  · rw [(hsp x).1]
    exact h.nodup x
  · rw [(hsp x).2.1]
    exact h.above x
  · rw [(hsp x).2.1]
    exact h.servers x
  · rw [(hsp x).2.1, (hsp x).2.2.1]
    exact h.conns x

/-- The SPs after one connects to another. -/
theorem sp_connect (g s x : ℕ) : (st.connect g s).sp x =
    if x = g then (st.sp g).connected ⟨(st.sp s).server.generateUniqueClientId, s⟩
    else if x = s then (st.sp s).accept g else st.sp x := by
  rw [connect, sp_set, sp_set]

/-- An SP connects to a server. -/
theorem Wired.connect (h : st.Wired n) {g s : ℕ} (hgs : g < s) (hs : s < n) (hg : g ∉ (st.sp s).accepted) :
    (st.connect g s).Wired n := by
  have hsp := fun x => @sp_connect st g s x
  have hnew : ∀ c ∈ (st.sp g).clients.clients, c.serverGlobalId ≠ s := by
    rintro c hc rfl
    exact hg (List.mem_of_getElem? (h.linked.client g c hc))
  refine ⟨h.linked.connect hgs, fun x => ?_, fun x => ?_, fun x => ?_, fun x => ?_, fun x => ?_, fun x => ?_⟩
  · rw [hsp]
    split
    · rename_i hx
      subst hx
      exact h.below x
    · split
      · rename_i hx
        subst hx
        intro y hy
        rcases List.mem_append.1 hy with hy | hy
        · exact h.below x y hy
        · rw [List.mem_singleton.1 hy]
          exact hgs
      · exact h.below x
  · rw [hsp]
    split
    · exact h.nodup g
    · split
      · exact List.nodup_append.2 ⟨h.nodup s, List.nodup_singleton g, fun a ha b hb hab => by
          rw [List.mem_singleton.1 hb] at hab
          exact hg (hab ▸ ha)⟩
      · exact h.nodup x
  · rw [hsp]
    split
    · rename_i hx
      subst hx
      intro c hc
      rcases List.mem_append.1 hc with hc | hc
      · exact h.above x c hc
      · rw [List.mem_singleton.1 hc]
        exact ⟨hgs, hs⟩
    · split
      · rename_i hx
        subst hx
        exact h.above x
      · exact h.above x
  · rw [hsp]
    split
    · change ((_ ++ _ : List InterSpClient).map _).Nodup
      rw [List.map_append]
      refine List.nodup_append.2 ⟨h.servers g, List.nodup_singleton _, fun a ha b hb hab => ?_⟩
      obtain ⟨c, hc, rfl⟩ := List.mem_map.1 ha
      exact hnew c hc (hab.trans (List.mem_singleton.1 hb))
    · split
      · exact h.servers s
      · exact h.servers x
  · rw [hsp]
    split
    · change (_ ++ _ : List Conn).length = (_ ++ _ : List InterSpClient).length
      rw [List.length_append, List.length_append, h.conns g]
      rfl
    · split
      · exact h.conns s
      · exact h.conns x
  · rw [hsp]
    split
    · exact h.standing g
    · split
      · exact (h.standing s).accept
      · exact h.standing x

/-- **Every step of a job.** -/
theorem Wired.step {a : SpAct} (h : st.Wired n) (hs : meshStep n st a = some st') : st'.Wired n := by
  have hl := h.linked.step hs
  cases a with
  | connect g s =>
    simp only [meshStep] at hs
    split at hs
    · rename_i hg
      cases hs
      exact h.connect hg.1 hg.2.1 hg.2.2
    · cases hs
  | server s a =>
    by_cases ha : a = .accept
    · subst ha
      cases hs
    · rw [meshStep_server ha] at hs
      obtain ⟨sv, hsv, rfl⟩ := Option.map_eq_some_iff.1 hs
      exact h.set hl rfl rfl rfl ((h.standing s).step hsv)
  | client g k a =>
    obtain ⟨c, -, rfl⟩ := Option.map_eq_some_iff.1 hs
    exact h.set hl rfl rfl List.length_set (h.standing g)
  | notifyServer g k =>
    simp only [meshStep] at hs
    split at hs
    · obtain ⟨c, -, rfl⟩ := Option.map_eq_some_iff.1 hs
      exact ⟨hl, h.below, h.nodup, h.above, h.servers, h.conns, h.standing⟩
    · cases hs
  | notifyClient s idx =>
    simp only [meshStep] at hs
    split at hs
    · obtain ⟨g, -, rfl⟩ := Option.map_eq_some_iff.1 hs
      exact ⟨hl, h.below, h.nodup, h.above, h.servers, h.conns, h.standing⟩
    · cases hs
  | receive i =>
    cases hs
    exact ⟨hl, h.below, h.nodup, h.above, h.servers, h.conns, h.standing⟩

/-! ### Which bootstrappings a step ends -/

/-- What a step does to every SP, and that only the SP that takes it ends bootstrappings. -/
def Moves (st st' : MeshNet) (g : ℕ) : Prop :=
  ∀ x, (st.sp x).Advances (st'.sp x) ∧ (x ≠ g → (st.sp x).Still (st'.sp x))

/-- Only one SP changes. -/
theorem moves_set {g : ℕ} {p : SpNode} (h : (st.sp g).Advances p) : st.Moves (st.set g p) g := by
  intro x
  rw [sp_set]
  split
  · rename_i hx
    subst hx
    exact ⟨h, fun hne => absurd rfl hne⟩
  · exact ⟨.refl _, fun _ => .refl _⟩

/-- No SP changes. -/
theorem moves_of_eq {g : ℕ} (h : st'.sp = st.sp) : st.Moves st' g := by
  intro x
  rw [h]
  exact ⟨.refl _, fun _ => .refl _⟩

/-- An SP connects to a server: both have a new connection, whose bootstrapping has not ended. -/
theorem Wired.moves_connect (h : st.Wired n) (g s : ℕ) : st.Moves (st.connect g s) g := by
  have hconn : ∀ c k, (((st.sp g).connected c).conn k).passed = ((st.sp g).conn k).passed := fun _ k =>
    Conn.passed_getD_concat _ Conn.passed_opened k
  have hslot : ∀ k, (((st.sp s).accept g).server.slot k).passed = ((st.sp s).server.slot k).passed := by
    intro k
    change ((st.sp s).server.oobServerListen.slot k).passed = ((st.sp s).server.slot k).passed
    rw [Server.slot, (h.linked.sound s).numbered.oobServerListen_clients]
    exact Conn.passed_getD_concat _ Conn.passed_opened k
  intro x
  rw [sp_connect]
  split
  · rename_i hx
    subst hx
    refine ⟨⟨List.prefix_rfl, List.prefix_append _ _, fun _ => id, fun k hk => ?_⟩, fun hne => absurd rfl hne⟩
    rwa [hconn]
  · split
    · rename_i hx
      subst hx
      refine ⟨⟨List.prefix_append _ _, List.prefix_rfl, fun i hi => ?_, fun _ => id⟩,
        fun _ => ⟨fun i hi => ?_, fun _ => id⟩⟩
      · rwa [hslot]
      · rwa [hslot] at hi
    · exact ⟨.refl _, fun _ => .refl _⟩

/-- **Every step of a job whose SPs use their tables.** -/
theorem Wired.moves {a : RouteAct} {m : SpAct} (h : st.Wired n) (ha : a.mesh = some m)
    (hs : meshStep n st m = some st') : st.Moves st' a.sp := by
  have hserver : ∀ (s : ℕ) (b : ServerAct), meshStep n st (.server s b) = some st' → b ≠ .accept → st.Moves st' s := by
    intro s b hs hb
    rw [meshStep_server hb] at hs
    obtain ⟨sv, hsv, rfl⟩ := Option.map_eq_some_iff.1 hs
    exact moves_set ⟨List.prefix_rfl, List.prefix_rfl, fun i hi => (h.standing s).passed_step hb hsv hi,
      fun _ => id⟩
  have hclient : ∀ (g k : ℕ) (b : ClientAct) (c : Conn),
      (st.sp g).conns[k]?.bind (clientStep interSpClientCfg · b) = some c →
      (st.sp g).Advances { st.sp g with conns := (st.sp g).conns.set k c } := by
    intro g k b c hc
    obtain ⟨d, hd, hdc⟩ := Option.bind_eq_some_iff.1 hc
    refine ⟨List.prefix_rfl, List.prefix_rfl, fun _ => id, fun j hj => ?_⟩
    change (((st.sp g).conns.set k c).getD j .reset).passed = true
    rw [SpNode.conn] at hj
    by_cases hkj : k = j
    · subst hkj
      obtain ⟨hk, hget⟩ := List.getElem?_eq_some_iff.1 hd
      rw [List.getD_eq_getElem _ _ hk, hget] at hj
      rw [List.getD_eq_getElem _ _ (by rwa [List.length_set]), List.getElem_set_self]
      exact Conn.passed_clientStep hj hdc
    · rwa [List.getD_eq_getElem?_getD, List.getElem?_set_ne hkj, ← List.getD_eq_getElem?_getD]
  cases a with
  | connect g s =>
    cases ha
    simp only [meshStep] at hs
    split at hs
    · cases hs
      exact h.moves_connect g s
    · cases hs
  | serve s now =>
    cases ha
    exact hserver s _ hs (by simp)
  | served s idx q =>
    cases ha
    exact hserver s _ hs (by simp)
  | disconnect s idx =>
    cases ha
    exact hserver s _ hs (by simp)
  | progress g k now =>
    cases ha
    obtain ⟨c, hc, rfl⟩ := Option.map_eq_some_iff.1 hs
    exact moves_set (hclient g k _ c hc)
  | completion g k q =>
    cases ha
    obtain ⟨c, hc, rfl⟩ := Option.map_eq_some_iff.1 hs
    exact moves_set (hclient g k _ c hc)
  | notify g s => cases ha
  | receive i =>
    cases ha
    cases hs
    exact moves_of_eq rfl

end MeshNet

/-! ### What the table says -/

namespace SpNode

variable {p p' : SpNode} {g : ℕ}

/-- **The connections of an SP lead to different SPs**, and a slot that is connected has the rank of its client. -/
structure Sited (g : ℕ) (p : SpNode) : Prop where
  /-- The slots. -/
  slot : ∀ i ∈ p.passedSlots, p.accepted[i]? = some (p.slotSp i) ∧ p.groupRank i = p.slotSp i
  /-- Its own connections. -/
  conn : ∀ k ∈ p.passedConns, ∃ c, p.clients.clients[k]? = some c ∧ c.serverGlobalId = p.connSp k
  /-- An SP is connected once. -/
  nodup : p.joined.Nodup
  /-- Not with itself. -/
  self : g ∉ p.joined

theorem slotSp_mem_joined {i : ℕ} (h : i ∈ p.passedSlots) : p.slotSp i ∈ p.joined :=
  List.mem_append_left _ (List.mem_map_of_mem h)

theorem connSp_mem_joined {k : ℕ} (h : k ∈ p.passedConns) : p.connSp k ∈ p.joined :=
  List.mem_append_right _ (List.mem_map_of_mem h)

theorem Sited.slotSp_inj (h : p.Sited g) {i j : ℕ} (hi : i ∈ p.passedSlots) (hj : j ∈ p.passedSlots)
    (hij : p.slotSp i = p.slotSp j) : i = j :=
  List.inj_on_of_nodup_map (List.nodup_append.1 h.nodup).1 hi hj hij

theorem Sited.connSp_inj (h : p.Sited g) {k l : ℕ} (hk : k ∈ p.passedConns) (hl : l ∈ p.passedConns)
    (hkl : p.connSp k = p.connSp l) : k = l :=
  List.inj_on_of_nodup_map (List.nodup_append.1 h.nodup).2.1 hk hl hkl

theorem Sited.slotSp_ne (h : p.Sited g) {i k : ℕ} (hi : i ∈ p.passedSlots) (hk : k ∈ p.passedConns) :
    p.slotSp i ≠ p.connSp k :=
  (List.nodup_append.1 h.nodup).2.2 _ (List.mem_map_of_mem hi) _ (List.mem_map_of_mem hk)

/-- What is connected stays connected, to the same SP. -/
theorem Advances.slotSp_eq (h : p.Advances p') (hp : p.Sited g) {i : ℕ} (hi : i ∈ p.passedSlots) :
    p'.slotSp i = p.slotSp i := by
  have hlt := (List.getElem?_eq_some_iff.1 (hp.slot i hi).1).1
  obtain ⟨l, hl⟩ := h.accepted
  rw [slotSp, ← hl, List.getD_append _ _ _ _ hlt, slotSp]

theorem Advances.connSp_eq (h : p.Advances p') (hp : p.Sited g) {k : ℕ} (hk : k ∈ p.passedConns) :
    p'.connSp k = p.connSp k := by
  obtain ⟨c, hc, -⟩ := hp.conn k hk
  have hlt := (List.getElem?_eq_some_iff.1 hc).1
  obtain ⟨l, hl⟩ := h.clients
  rw [connSp, ← hl, List.getD_append _ _ _ _ hlt, connSp]

end SpNode

/-- The connections of a job lead to different SPs. -/
theorem MeshNet.Wired.sited {n : ℕ} {st : MeshNet} (h : st.Wired n) (g : ℕ) : (st.sp g).Sited g := by
  have hslot : ∀ i ∈ (st.sp g).passedSlots, (st.sp g).accepted[i]? = some ((st.sp g).slotSp i) := by
    intro i hi
    have hlt : i < (st.sp g).accepted.length := by
      rw [(h.linked.sound g).slots]
      exact Server.lt_of_passed (SpNode.mem_passedSlots.1 hi)
    rw [SpNode.slotSp, List.getD_eq_getElem _ _ hlt]
    exact List.getElem?_eq_getElem hlt
  have hconn : ∀ k ∈ (st.sp g).passedConns, ∃ c, (st.sp g).clients.clients[k]? = some c ∧
      c.serverGlobalId = (st.sp g).connSp k := by
    intro k hk
    have hlt : k < (st.sp g).clients.clients.length := by
      rw [← h.conns g]
      exact List.mem_range.1 (List.mem_filter.1 hk).1
    refine ⟨_, List.getElem?_eq_getElem hlt, ?_⟩
    rw [SpNode.connSp, List.getD_eq_getElem _ _ hlt]
  have hbelow : ∀ i ∈ (st.sp g).passedSlots, (st.sp g).slotSp i < g := fun i hi =>
    h.below g _ (List.mem_of_getElem? (hslot i hi))
  have habove : ∀ k ∈ (st.sp g).passedConns, g < (st.sp g).connSp k := by
    intro k hk
    obtain ⟨c, hc, he⟩ := hconn k hk
    exact he ▸ (h.above g c (List.mem_of_getElem? hc)).1
  refine ⟨fun i hi => ⟨hslot i hi, ?_⟩, hconn, List.nodup_append.2 ⟨?_, ?_, ?_⟩, ?_⟩
  · -- the rank was received before the bootstrapping ended
    have hp := SpNode.mem_passedSlots.1 hi
    have hr : (st.sp g).rankReceived i = true := ((h.standing g).sound_of_passed hp).placed.rank_of_passed hp
    rw [(h.linked.sound g).rank, if_pos hr]
    rfl
  · refine List.Nodup.map_on (fun i hi j hj hij => ?_) SpNode.nodup_passedSlots
    have hj' := hslot j hj
    rw [← hij, ← hslot i hi] at hj'
    exact ((List.getElem?_inj (List.getElem?_eq_some_iff.1 (hslot i hi)).1 (h.nodup g)).1 hj'.symm)
  · refine List.Nodup.map_on (fun k hk l hl hkl => ?_) SpNode.nodup_passedConns
    obtain ⟨c, hc, he⟩ := hconn k hk
    obtain ⟨d, hd, he'⟩ := hconn l hl
    have hlt : k < ((st.sp g).clients.clients.map (·.serverGlobalId)).length := by
      rw [List.length_map]
      exact (List.getElem?_eq_some_iff.1 hc).1
    refine (List.getElem?_inj hlt (h.servers g)).1 ?_
    rw [List.getElem?_map, List.getElem?_map, hc, hd]
    exact congrArg some (he.trans (hkl.trans he'.symm))
  · intro a ha b hb
    obtain ⟨i, hi, rfl⟩ := List.mem_map.1 ha
    obtain ⟨k, hk, rfl⟩ := List.mem_map.1 hb
    have := hbelow i hi
    have := habove k hk
    omega
  · intro hg
    rcases List.mem_append.1 hg with hg | hg
    · obtain ⟨i, hi, he⟩ := List.mem_map.1 hg
      have := hbelow i hi
      omega
    · obtain ⟨k, hk, he⟩ := List.mem_map.1 hg
      have := habove k hk
      omega

namespace SpTable

/-- Callbacks, one after the other: each counts one SP and records it. -/
theorem foldl_callbacks {f : SpTable → ℕ → SpTable} {k : ℕ → ℕ} {R : ℕ → RemoteSp → Prop} {l : List ℕ}
    (hf : ∀ t, ∀ i ∈ l, (f t i).numConnected = t.numConnected + 1 ∧ R i ((f t i).sps (k i)) ∧
      ∀ s, s ≠ k i → (f t i).sps s = t.sps s) (hl : (l.map k).Nodup) (t : SpTable) :
    (l.foldl f t).numConnected = t.numConnected + l.length ∧ (∀ i ∈ l, R i ((l.foldl f t).sps (k i))) ∧
      ∀ s ∉ l.map k, (l.foldl f t).sps s = t.sps s := by
  induction l generalizing t with
  | nil => exact ⟨rfl, fun i hi => absurd hi List.not_mem_nil, fun _ _ => rfl⟩
  | cons a l ih =>
    obtain ⟨hnum, hR, hother⟩ := hf t a List.mem_cons_self
    rw [List.map_cons, List.nodup_cons] at hl
    obtain ⟨ihnum, ihR, ihother⟩ := ih (fun t i hi => hf t i (List.mem_cons_of_mem _ hi)) hl.2 (f t a)
    rw [List.foldl_cons]
    refine ⟨by rw [ihnum, hnum, List.length_cons]; omega, fun i hi => ?_, fun s hs => ?_⟩
    · rcases List.mem_cons.1 hi with rfl | hi
      · rw [ihother _ hl.1]
        exact hR
      · exact ihR i hi
    · rw [List.map_cons, List.mem_cons, not_or] at hs
      rw [ihother s hs.2, hother s hs.1]

variable {p p' : SpNode} {g : ℕ} {t : SpTable}

/-- **What the table of an SP says**: which SPs are connected, and how to reach them. -/
structure Right (p : SpNode) (g : ℕ) (t : SpTable) : Prop where
  /-- The number of SPs connected. -/
  num : t.numConnected = p.joined.length
  /-- The SP itself. -/
  self : ∃ e, t.sps g = ⟨some g, e, some g, 0⟩ ∧ (e = none ∨ e = some .self)
  /-- The clients of its server. -/
  slot : ∀ i ∈ p.passedSlots, t.sps (p.slotSp i) = ⟨some (p.slotSp i), some .server, some (p.slotSp i), i⟩
  /-- The SPs it is a client of. -/
  conn : ∀ k ∈ p.passedConns, ∃ id, t.sps (p.connSp k) = ⟨some (p.connSp k), some (.client k), some (p.connSp k), id⟩
  /-- The other SPs. -/
  rest : ∀ s, s ≠ g → s ∉ p.joined → t.sps s = .zero

theorem right_start (g : ℕ) : (start g).Right .start g where
  num := rfl
  self := by
    refine ⟨none, ?_, .inl rfl⟩
    simp [start]
  slot _ h := absurd h List.not_mem_nil
  conn _ h := absurd h List.not_mem_nil
  rest s hs _ := by
    simp [start, hs]

/-- **The callbacks of the connections that were established.** -/
theorem Right.callbacks (h : t.Right p g) (ha : p.Advances p') (hp : p.Sited g) (hp' : p'.Sited g) :
    (RouteNet.callbacks t p p').Right p' g := by
  have hA : ∀ i ∈ p.ended p', i ∈ p'.passedSlots := fun i hi => (List.mem_filter.1 hi).1
  have hB : ∀ k ∈ p.endedConns p', k ∈ p'.passedConns := fun k hk => (List.mem_filter.1 hk).1
  obtain ⟨hnum₁, hR₁, hother₁⟩ := foldl_callbacks (f := (·.clientServiceProcConnected p')) (k := p'.slotSp)
    (R := fun i r => r = ⟨some (p'.slotSp i), some .server, some (p'.slotSp i), i⟩) (l := p.ended p')
    (fun t i hi => by
      obtain ⟨hget, hrank⟩ := hp'.slot i (hA i hi)
      refine ⟨rfl, ?_, fun s hs => ?_⟩
      · change Function.update t.sps (p'.groupRank i) _ _ = _
        rw [hrank, Function.update_self, hget]
      · change Function.update t.sps (p'.groupRank i) _ _ = _
        rw [hrank, Function.update_of_ne hs])
    ((List.nodup_append.1 hp'.nodup).1.sublist (List.filter_sublist.map _)) t
  obtain ⟨hnum₂, hR₂, hother₂⟩ := foldl_callbacks (f := (·.finalizeConnection p')) (k := p'.connSp)
    (R := fun k r => ∃ id, r = ⟨some (p'.connSp k), some (.client k), some (p'.connSp k), id⟩) (l := p.endedConns p')
    (fun t k hk => by
      obtain ⟨c, hc, he⟩ := hp'.conn k (hB k hk)
      rw [finalizeConnection, hc]
      refine ⟨rfl, ⟨(t.sps c.serverGlobalId).clientId, ?_⟩, fun s hs => ?_⟩
      · change Function.update t.sps c.serverGlobalId _ _ = _
        rw [he, Function.update_self]
      · change Function.update t.sps c.serverGlobalId _ _ = _
        rw [he, Function.update_of_ne hs])
    ((List.nodup_append.1 hp'.nodup).2.1.sublist (List.filter_sublist.map _))
    ((p.ended p').foldl (·.clientServiceProcConnected p') t)
  have hmemA : ∀ s, s ∈ (p.ended p').map p'.slotSp → s ∈ p'.joined := by
    intro s hs
    obtain ⟨i, hi, rfl⟩ := List.mem_map.1 hs
    exact SpNode.slotSp_mem_joined (hA i hi)
  have hmemB : ∀ s, s ∈ (p.endedConns p').map p'.connSp → s ∈ p'.joined := by
    intro s hs
    obtain ⟨k, hk, rfl⟩ := List.mem_map.1 hs
    exact SpNode.connSp_mem_joined (hB k hk)
  have hsame : ∀ s, s ∉ (p.ended p').map p'.slotSp → s ∉ (p.endedConns p').map p'.connSp →
      (RouteNet.callbacks t p p').sps s = t.sps s := fun s h₁ h₂ => (hother₂ s h₂).trans (hother₁ s h₁)
  have hslotB : ∀ i ∈ p'.passedSlots, p'.slotSp i ∉ (p.endedConns p').map p'.connSp := by
    intro i hi hm
    obtain ⟨k, hk, he⟩ := List.mem_map.1 hm
    exact hp'.slotSp_ne hi (hB k hk) he.symm
  have hconnA : ∀ k ∈ p'.passedConns, p'.connSp k ∉ (p.ended p').map p'.slotSp := by
    intro k hk hm
    obtain ⟨i, hi, he⟩ := List.mem_map.1 hm
    exact hp'.slotSp_ne (hA i hi) hk he
  refine ⟨?_, ?_, fun i hi => ?_, fun k hk => ?_, fun s hs hj => ?_⟩
  · have h₁ := ha.perm_slots.length_eq
    have h₂ := ha.perm_conns.length_eq
    have h₃ := h.num
    rw [List.length_append] at h₁ h₂
    simp only [SpNode.joined, List.length_append, List.length_map] at h₃ ⊢
    rw [RouteNet.callbacks, hnum₂, hnum₁]
    omega
  · rw [hsame g (fun hm => hp'.self (hmemA g hm)) fun hm => hp'.self (hmemB g hm)]
    exact h.self
  · rcases List.mem_append.1 (ha.perm_slots.mem_iff.1 hi) with hold | hnew
    · have hno : p'.slotSp i ∉ (p.ended p').map p'.slotSp := by
        intro hm
        obtain ⟨j, hj, he⟩ := List.mem_map.1 hm
        have hn := (List.mem_filter.1 hj).2
        rw [hp'.slotSp_inj (hA j hj) hi he, SpNode.mem_passedSlots.1 hold] at hn
        cases hn
      rw [hsame _ hno (hslotB i hi), ha.slotSp_eq hp hold]
      exact h.slot i hold
    · exact (hother₂ _ (hslotB i hi)).trans (hR₁ i hnew)
  · rcases List.mem_append.1 (ha.perm_conns.mem_iff.1 hk) with hold | hnew
    · have hno : p'.connSp k ∉ (p.endedConns p').map p'.connSp := by
        intro hm
        obtain ⟨l, hl, he⟩ := List.mem_map.1 hm
        have hn := (List.mem_filter.1 hl).2
        rw [hp'.connSp_inj (hB l hl) hk he, SpNode.mem_passedConns.1 hold] at hn
        cases hn
      rw [hsame _ (hconnA k hk) hno, ha.connSp_eq hp hold]
      exact h.conn k hold
    · exact hR₂ k hnew
  · rw [hsame s (fun hm => hj (hmemA s hm)) fun hm => hj (hmemB s hm)]
    refine h.rest s hs fun hm => hj ?_
    rcases List.mem_append.1 hm with hm | hm
    · obtain ⟨i, hi, rfl⟩ := List.mem_map.1 hm
      rw [← ha.slotSp_eq hp hi]
      exact SpNode.slotSp_mem_joined (SpNode.mem_passedSlots.2 (ha.slots i (SpNode.mem_passedSlots.1 hi)))
    · obtain ⟨k, hk, rfl⟩ := List.mem_map.1 hm
      rw [← ha.connSp_eq hp hk]
      exact SpNode.connSp_mem_joined (SpNode.mem_passedConns.2 (ha.conns k (SpNode.mem_passedConns.1 hk)))

/-! ### Looking up an SP -/

/-- **The ways to reach an SP**: by itself, through its slot, or as its client. -/
inductive IsRoute (p : SpNode) (g : ℕ) : ℕ → SpRoute → Prop
  /-- To itself. -/
  | self : IsRoute p g g ⟨g, .self, 0⟩
  /-- To a client of its server. -/
  | slot {i : ℕ} (hi : i ∈ p.passedSlots) : IsRoute p g (p.slotSp i) ⟨p.slotSp i, .server, i⟩
  /-- To an SP it is a client of. -/
  | conn {k : ℕ} (hk : k ∈ p.passedConns) : IsRoute p g (p.connSp k) ⟨p.connSp k, .client k, p.connSp k⟩

theorem exists_isRoute {s : ℕ} : (∃ r, IsRoute p g s r) ↔ s = g ∨ s ∈ p.joined := by
  constructor
  · rintro ⟨r, h⟩
    cases h with
    | self => exact .inl rfl
    | slot hi => exact .inr (SpNode.slotSp_mem_joined hi)
    | conn hk => exact .inr (SpNode.connSp_mem_joined hk)
  · rintro (rfl | h)
    · exact ⟨_, .self⟩
    · rcases List.mem_append.1 h with h | h
      · obtain ⟨i, hi, rfl⟩ := List.mem_map.1 h
        exact ⟨_, .slot hi⟩
      · obtain ⟨k, hk, rfl⟩ := List.mem_map.1 h
        exact ⟨_, .conn hk⟩

@[simp] theorem sps_set (s : ℕ) (r : RemoteSp) : (t.set s r).sps s = r := Function.update_self ..

@[simp] theorem numConnected_set (s : ℕ) (r : RemoteSp) : (t.set s r).numConnected = t.numConnected := rfl

@[simp] theorem set_set (s : ℕ) (r r' : RemoteSp) : (t.set s r).set s r' = t.set s r' := by simp [set]

/-- Nothing is looked up of an SP that is not connected. -/
theorem getSpEpById_of_zero {n s : ℕ} (hs : s ≠ g) (h : t.sps s = .zero) : t.getSpEpById n g s = none := by
  unfold getSpEpById getRemoteServiceProcEp getRemoteServiceProcEcontext
  by_cases hn : n ≤ s <;> by_cases hc : s ≤ t.numConnected <;> simp [hn, hc, h, hs, RemoteSp.zero]

/-- Nor of one whose id is too large. -/
theorem getSpEpById_of_lt {n s : ℕ} (h : n ≤ s ∨ t.numConnected < s) : t.getSpEpById n g s = none := by
  unfold getSpEpById getRemoteServiceProcEp getRemoteServiceProcEcontext
  rcases h with h | h <;> simp [h, Nat.not_le.2]

/-- **What `get_sp_ep_by_id` finds**: the way to the SP. The execution context of the SP itself is recorded. -/
theorem Right.getSpEpById_eq (h : t.Right p g) (hp : p.Sited g) {n s : ℕ} {r : SpRoute} (hr : IsRoute p g s r)
    (hn : s < n) (hc : s ≤ t.numConnected) : ∃ t', t.getSpEpById n g s = some (r, t') ∧ t'.Right p g := by
  unfold getSpEpById getRemoteServiceProcEp getRemoteServiceProcEcontext
  cases hr with
  | self =>
    refine ⟨t.set g ⟨some g, some .self, some g, 0⟩, ?_, ?_⟩
    · obtain ⟨e, he, rfl | rfl⟩ := h.self <;> simp [Nat.not_le.2 hn, hc, he]
    · have hother : ∀ x, x ≠ g → (t.set g ⟨some g, some .self, some g, 0⟩).sps x = t.sps x := fun x hx =>
        Function.update_of_ne hx ..
      refine ⟨h.num, ⟨some .self, sps_set .., .inr rfl⟩, fun i hi => ?_, fun k hk => ?_, fun x hx hj => ?_⟩
      · rw [hother _ fun he => hp.self (he ▸ SpNode.slotSp_mem_joined hi)]
        exact h.slot i hi
      · rw [hother _ fun he => hp.self (he ▸ SpNode.connSp_mem_joined hk)]
        exact h.conn k hk
      · rw [hother x hx]
        exact h.rest x hx hj
  | @slot i hi =>
    have hsame : t.set (p.slotSp i) (t.sps (p.slotSp i)) = t := by simp [set]
    refine ⟨t, ?_, h⟩
    rw [h.slot i hi] at hsame
    simp [Nat.not_le.2 hn, hc, h.slot i hi, hsame]
  | @conn k hk =>
    obtain ⟨id, hid⟩ := h.conn k hk
    have hsame : t.set (p.connSp k) (t.sps (p.connSp k)) = t := by simp [set]
    refine ⟨t, ?_, h⟩
    rw [hid] at hsame
    simp [Nat.not_le.2 hn, hc, hid, hsame]

/-- **The whole of it.** -/
theorem Right.getSpEpById_some (h : t.Right p g) (hp : p.Sited g) {n s : ℕ} {r : SpRoute} {t' : SpTable}
    (hs : t.getSpEpById n g s = some (r, t')) :
    (s < n ∧ s ≤ t.numConnected) ∧ IsRoute p g s r ∧ t'.Right p g := by
  have hlt : s < n ∧ s ≤ t.numConnected := by
    by_contra hno
    rw [getSpEpById_of_lt (by omega)] at hs
    cases hs
  have hr : ∃ r', IsRoute p g s r' := by
    rw [exists_isRoute]
    by_contra hno
    rw [not_or] at hno
    rw [getSpEpById_of_zero hno.1 (h.rest s hno.1 hno.2)] at hs
    cases hs
  obtain ⟨r', hr'⟩ := hr
  obtain ⟨t'', ht'', hright⟩ := h.getSpEpById_eq hp hr' hlt.1 hlt.2
  rw [hs] at ht''
  cases ht''
  exact ⟨hlt, hr', hright⟩

end SpTable

/-! ### Every run -/

/-- What the receiver takes the sender of a message for, as its sender's connection marks it. -/
theorem MeshNet.Linked.translate_iff {net : MeshNet} (h : net.Linked) {m : SpNotif} (hm : net.Marked m) :
    net.translate m = some m.src ↔ net.Knows m := by
  have hl : (net.send m).Linked := h.send hm
  have hmem : m ∈ (net.send m).notifs := List.mem_append_right _ (List.mem_singleton_self m)
  unfold MeshNet.Knows
  cases ht : m.hdr.senderType with
  | server =>
    have htr : net.translate m = some m.src := hl.translate_server hmem ht
    simp [htr]
  | client =>
    have htr : net.translate m = some (if (net.sp m.dst).rankReceived m.hdr.id then m.src else 0) :=
      hl.translate_client hmem ht
    rw [htr]
    cases (net.sp m.dst).rankReceived m.hdr.id <;> simp [eq_comm]
  | unknown | self =>
    rw [MeshNet.Marked, ht] at hm
    exact hm.elim

namespace SpTable

variable {n : ℕ} {st : MeshNet} {t : SpTable} {g s : ℕ} {r : SpRoute}

/-- **A way to another SP is right**: what is sent over it goes to that SP, marked as the connection says. -/
theorem IsRoute.marked (hr : IsRoute (st.sp g) g s r) (hw : st.Wired n) (hs : s ≠ g) :
    ∃ m, (st.sp g).routed g r = some m ∧ m.src = g ∧ m.dst = s ∧ st.Marked m := by
  cases hr with
  | self => exact absurd rfl hs
  | @slot i hi =>
    refine ⟨_, rfl, rfl, rfl, rfl, ?_⟩
    exact hw.linked.server g i _ ((hw.sited g).slot i hi).1
  | @conn k hk =>
    obtain ⟨c, hc, he⟩ := (hw.sited g).conn k hk
    refine ⟨⟨g, (st.sp g).connSp k, (c.econtext g).header ((st.sp g).connSp k)⟩, ?_, rfl, rfl, ?_⟩
    · rw [SpNode.routed, SpNode.econtextOf, hc]
      rfl
    · have hcl := hw.linked.client g c (List.mem_of_getElem? hc)
      rw [he] at hcl
      exact hcl

/-- To the SP itself nothing is sent over a connection. -/
theorem IsRoute.econtext_self {p : SpNode} (hr : IsRoute p g s r) (hp : p.Sited g) (hs : s = g) :
    r = ⟨g, .self, 0⟩ := by
  cases hr with
  | self => rfl
  | slot hi => exact absurd (hs ▸ SpNode.slotSp_mem_joined hi) hp.self
  | conn hk => exact absurd (hs ▸ SpNode.connSp_mem_joined hk) hp.self

end SpTable

namespace RouteNet

/-- **What holds of a job whose SPs use their tables.** -/
structure Right (n : ℕ) (st : RouteNet) : Prop where
  /-- Its connections. -/
  wired : st.net.Wired n
  /-- The tables. -/
  table : ∀ g, (st.table g).Right (st.net.sp g) g

variable {n : ℕ} {st st' : RouteNet}

theorem right_start : start.Right n := ⟨MeshNet.wired_start, fun g => SpTable.right_start g⟩

/-- A step of the job, with the callbacks. -/
theorem Right.follow (h : st.Right n) {a : RouteAct} {m : SpAct} (ha : a.mesh = some m) {net' : MeshNet}
    (hs : meshStep n st.net m = some net') : (st.follow net' a.sp).Right n := by
  have hw := h.wired.step hs
  refine ⟨hw, fun x => ?_⟩
  obtain ⟨hadv, hstill⟩ := h.wired.moves ha hs x
  have hcb := (h.table x).callbacks hadv (h.wired.sited x) (hw.sited x)
  change (Function.update st.table a.sp _ x).Right (net'.sp x) x
  by_cases hx : x = a.sp
  · subst hx
    rwa [Function.update_self]
  · rw [Function.update_of_ne hx]
    rwa [(hstill hx).callbacks] at hcb

/-- An SP notifies another. -/
theorem Right.notify (h : st.Right n) {g s : ℕ} {r : SpRoute} {t : SpTable}
    (hr : (st.table g).getSpEpById n g s = some (r, t)) :
    (⟨match (st.net.sp g).routed g r with
      | some m => st.net.send m
      | none => st.net, Function.update st.table g t⟩ : RouteNet).Right n := by
  obtain ⟨-, hroute, ht⟩ := (h.table g).getSpEpById_some (h.wired.sited g) hr
  have htable : ∀ x, (Function.update st.table g t x).Right (st.net.sp x) x := by
    intro x
    by_cases hx : x = g
    · subst hx
      rwa [Function.update_self]
    · rw [Function.update_of_ne hx]
      exact h.table x
  by_cases hs : s = g
  · subst hs
    rw [hroute.econtext_self (h.wired.sited s) rfl]
    exact ⟨h.wired, htable⟩
  · obtain ⟨m, hm, -, -, hmark⟩ := hroute.marked h.wired hs
    rw [hm]
    have hw := h.wired
    exact ⟨⟨hw.linked.send hmark, hw.below, hw.nodup, hw.above, hw.servers, hw.conns, hw.standing⟩, htable⟩

/-- **Every step.** -/
theorem Right.step (h : st.Right n) {a : RouteAct} (hs : routeStep n st a = some st') : st'.Right n := by
  have hfollow : ∀ {a : RouteAct}, (a.mesh.bind (meshStep n st.net)).map (st.follow · a.sp) = some st' →
      st'.Right n := by
    intro a hs
    obtain ⟨net', hnet, rfl⟩ := Option.map_eq_some_iff.1 hs
    obtain ⟨m, hm, hstep⟩ := Option.bind_eq_some_iff.1 hnet
    exact h.follow hm hstep
  cases a with
  | notify g s =>
    obtain ⟨⟨r, t⟩, hr, rfl⟩ := Option.map_eq_some_iff.1 hs
    exact h.notify hr
  | serve s now => exact hfollow (a := .serve s now) hs
  | receive i => exact hfollow (a := .receive i) hs
  | connect | served | progress | completion | disconnect => exact hfollow hs

/-- **Every run.** -/
theorem right_of_reach (h : Reach (routeStep n) (fun _ _ => True) start st) : st.Right n :=
  h.invariant right_start fun _ _ _ hi _ hs => hi.step hs

end RouteNet

/-! ### The results -/

/-- **`get_sp_ep_by_id` answers exactly for the SPs that have been connected, as far as they are counted**, and
for the SP itself; what it answers is right. For any number of SPs and any order of connecting, bootstrapping,
looking up, notifying and leaving, early or not: it succeeds for an id exactly when the id is at most the number of
SPs counted and is its own or that of an SP with which a connection was established. What is then sent goes to that
SP, which takes it for a message of its sender exactly when it knows the sender. -/
theorem sp_routes_iff (n : ℕ) {st : RouteNet} (h : Reach (routeStep n) (fun _ _ => True) RouteNet.start st) (g s : ℕ) :
    (((st.table g).getSpEpById n g s).isSome ↔
      s < n ∧ s ≤ (st.table g).numConnected ∧ (s = g ∨ s ∈ (st.net.sp g).joined)) ∧
    ∀ r t, (st.table g).getSpEpById n g s = some (r, t) →
      (s = g → r = ⟨g, .self, 0⟩) ∧
      (s ≠ g → ∃ m, (st.net.sp g).routed g r = some m ∧ m.src = g ∧ m.dst = s ∧
        (st.net.translate m = some g ↔ st.net.Knows m)) := by
  have hi := RouteNet.right_of_reach h
  have hp := hi.wired.sited g
  refine ⟨⟨fun hs => ?_, fun ⟨hn, hc, hj⟩ => ?_⟩, fun r t hr => ⟨fun hs => ?_, fun hs => ?_⟩⟩
  · obtain ⟨⟨r, t⟩, hr⟩ := Option.isSome_iff_exists.1 hs
    obtain ⟨hlt, hroute, -⟩ := (hi.table g).getSpEpById_some hp hr
    exact ⟨hlt.1, hlt.2, SpTable.exists_isRoute.1 ⟨r, hroute⟩⟩
  · obtain ⟨r, hr⟩ := SpTable.exists_isRoute.2 hj
    obtain ⟨t, ht, -⟩ := (hi.table g).getSpEpById_eq hp hr hn hc
    rw [ht]
    rfl
  · exact ((hi.table g).getSpEpById_some hp hr).2.1.econtext_self hp hs
  · obtain ⟨m, hm, hsrc, hdst, hmark⟩ := ((hi.table g).getSpEpById_some hp hr).2.1.marked hi.wired hs
    refine ⟨m, hm, hsrc, hdst, ?_⟩
    have ht := hi.wired.linked.translate_iff hmark
    rwa [hsrc] at ht

/-- A run in which three SPs connect to each other. -/
def routeActs : List RouteAct :=
  [.connect 0 2, .connect 1 2, .connect 0 1, .progress 1 0 (fun _ => true), .progress 0 0 (fun _ => true),
    .serve 2 fun _ _ => true, .serve 2 fun _ _ => true, .progress 0 1 (fun _ => true), .serve 1 fun _ _ => true]

/-- The SP 2 finds the SP 1, which will know who writes. -/
theorem sp_routes_three :
    ∃ st : RouteNet, Reach (routeStep 3) (fun _ _ => True) RouteNet.start st ∧
      ∃ r t, (st.table 2).getSpEpById 3 2 1 = some (r, t) ∧ r = ⟨1, .server, 1⟩ ∧
        ∃ m, (st.net.sp 2).routed 2 r = some m ∧ m.dst = 1 ∧ st.net.translate m = some 2 := by
  have hrun : ∃ st : RouteNet, Reach (routeStep 3) (fun _ _ => True) RouteNet.start st ∧
      ((st.table 2).getSpEpById 3 2 1).map (·.1) = some ⟨1, .server, 1⟩ :=
    exists_reach_of_exec routeActs (by decide)
  obtain ⟨st, hst, hr⟩ := hrun
  obtain ⟨⟨r, t⟩, hrt, rfl⟩ := Option.map_eq_some_iff.1 hr
  refine ⟨st, hst, _, t, hrt, rfl, ?_⟩
  obtain ⟨m, hm, -, hdst, hiff⟩ := ((sp_routes_iff 3 hst 2 1).2 _ t hrt).2 (by decide)
  refine ⟨m, hm, hdst, hiff.2 (.inl ?_)⟩
  cases hm
  rfl

/-- **Being connected is not enough**: the SP 1 is connected with the SP 2 and no other, and does not find it. -/
example : (exec (routeStep 3) (fun _ _ => True) (routeActs.take 4) RouteNet.start).map
    (fun st => ((st.net.sp 1).joined, ((st.table 1).getSpEpById 3 1 2).isSome)) = some ([2], false) := by decide

/-- The SPs an SP has been connected with are others of the job. -/
theorem MeshNet.Wired.joined_subset {n : ℕ} {st : MeshNet} (h : st.Wired n) {g : ℕ} (hg : g < n) :
    (st.sp g).joined ⊆ (List.range n).filter (· ≠ g) := by
  intro s hs
  have hne : s ≠ g := fun he => (h.sited g).self (he ▸ hs)
  rw [List.mem_filter, List.mem_range]
  refine ⟨?_, by simpa using hne⟩
  rcases List.mem_append.1 hs with hs | hs
  · obtain ⟨i, hi, rfl⟩ := List.mem_map.1 hs
    exact (h.below g _ (List.mem_of_getElem? ((h.sited g).slot i hi).1)).trans hg
  · obtain ⟨k, hk, rfl⟩ := List.mem_map.1 hs
    obtain ⟨c, hc, he⟩ := (h.sited g).conn k hk
    exact he ▸ (h.above g c (List.mem_of_getElem? hc)).2

/-- All have been connected when as many have as there are others. -/
theorem RouteNet.Right.all_iff {n : ℕ} {st : RouteNet} (h : st.Right n) {g : ℕ} (hg : g < n) :
    (st.table g).allServiceProcsConnected n = true ↔ ∀ s < n, s ≠ g → s ∈ (st.net.sp g).joined := by
  have hsub := List.subperm_of_subset (h.wired.sited g).nodup (h.wired.joined_subset hg)
  have hlen : ((List.range n).filter (· ≠ g)).length + 1 = n := by
    have hperm := (List.nodup_range (n := n)).erase_eq_filter g
    have herase := List.length_erase_of_mem (List.mem_range.2 hg)
    rw [hperm, List.length_range] at herase
    have heq : (List.range n).filter (fun x => x != g) = (List.range n).filter (· ≠ g) :=
      List.filter_congr fun x _ => by by_cases hx : x = g <;> simp [hx]
    rw [heq] at herase
    omega
  rw [SpTable.allServiceProcsConnected, decide_eq_true_iff, (h.table g).num]
  constructor
  · intro he s hs hne
    refine (hsub.perm_of_length_le (by omega)).mem_iff.2 ?_
    exact List.mem_filter.2 ⟨List.mem_range.2 hs, by simpa using hne⟩
  · intro hall
    have hback : ((List.range n).filter (· ≠ g)).Subperm (st.net.sp g).joined :=
      List.subperm_of_subset (List.nodup_range.filter _) fun s hs => by
        rw [List.mem_filter, List.mem_range] at hs
        exact hall s hs.1 (by simpa using hs.2)
    have h₁ := hsub.length_le
    have h₂ := hback.length_le
    omega

/-- **`all_service_procs_connected` says that all connections have been established**: in every run, the counter is
one less than the number of SPs exactly when every other SP has been connected, and those that left are still counted. -/
theorem all_connected_iff (n : ℕ) {st : RouteNet} (h : Reach (routeStep n) (fun _ _ => True) RouteNet.start st) (g : ℕ)
    (hg : g < n) :
    (st.table g).allServiceProcsConnected n = true ↔ ∀ s < n, s ≠ g → s ∈ (st.net.sp g).joined :=
  (RouteNet.right_of_reach h).all_iff hg

/-- In the run of three SPs the SP 2 has been connected with all in the end. -/
theorem all_connected_three :
    ∃ st : RouteNet, Reach (routeStep 3) (fun _ _ => True) RouteNet.start st ∧
      ∀ s < 3, s ≠ 2 → s ∈ (st.net.sp 2).joined := by
  have hrun : ∃ st : RouteNet, Reach (routeStep 3) (fun _ _ => True) RouteNet.start st ∧
      (st.table 2).allServiceProcsConnected 3 = true := exists_reach_of_exec routeActs (by decide)
  obtain ⟨st, hst, hall⟩ := hrun
  exact ⟨st, hst, (all_connected_iff 3 hst 2 (by decide)).1 hall⟩

/-- A client that leaves before its server has finalised it is not counted. -/
example : (exec (routeStep 3) (fun _ _ => True) [.connect 0 2, .disconnect 2 0, .serve 2 fun _ _ => true]
    RouteNet.start).map (fun st => ((st.net.sp 2).joined, (st.table 2).numConnected)) = some ([], 0) := by decide

/-! ### The broadcasts -/

/-- Sends that succeed one by one succeed one after the other. -/
theorem exists_mapM_eq_some {α β : Type} {f : α → Option β} {P : α → β → Prop} {l : List α}
    (h : ∀ a ∈ l, ∃ b, f a = some b ∧ P a b) : ∃ bs, l.mapM f = some bs ∧ List.Forall₂ P l bs := by
  induction l with
  | nil => exact ⟨[], rfl, .nil⟩
  | cons a l ih =>
    obtain ⟨b, hb, hP⟩ := h a List.mem_cons_self
    obtain ⟨bs, hbs, hPs⟩ := ih fun x hx => h x (List.mem_cons_of_mem _ hx)
    refine ⟨b :: bs, ?_, .cons hP hPs⟩
    rw [List.mapM_cons, hb, hbs]
    rfl

/-- One that fails makes them fail. -/
theorem mapM_eq_none {α β : Type} {f : α → Option β} {l : List α} {a : α} (ha : a ∈ l) (hf : f a = none) :
    l.mapM f = none := by
  induction l with
  | nil => exact absurd ha List.not_mem_nil
  | cons x l ih =>
    rw [List.mapM_cons]
    rcases List.mem_cons.1 ha with rfl | ha
    · rw [hf]
      rfl
    · rw [ih ha]
      cases f x <;> rfl

section Broadcast

variable {α : Type}

/-- **What was sent to each SP of a job**: to every SP but the sender the messages there were, in order, each of
which it takes for one of the sender exactly when it knows it. -/
def MeshNet.Delivered (net : MeshNet) (n g : ℕ) (msgs : List α) (ms : List (SpNotif × α)) : Prop :=
  (∀ s, (ms.filter (·.1.dst = s)).map Prod.snd = if s < n ∧ s ≠ g then msgs else []) ∧
    ∀ m ∈ ms, m.1.src = g ∧ (net.translate m.1 = some g ↔ net.Knows m.1)

/-- What one turn sends. -/
def SentTo (net : MeshNet) (g : ℕ) (msgs : List α) (s : ℕ) (ms : List (SpNotif × α)) : Prop :=
  ms.map Prod.snd = msgs ∧ ∀ m ∈ ms, m.1.dst = s ∧ m.1.src = g ∧ net.Marked m.1

/-- The turns, one after the other. -/
theorem SentTo.filter_flatten {net : MeshNet} {g : ℕ} {msgs : List α} {l : List ℕ} {bs : List (List (SpNotif × α))}
    (h : List.Forall₂ (SentTo net g msgs) l bs) (hl : l.Nodup) (s : ℕ) :
    (bs.flatten.filter (·.1.dst = s)).map Prod.snd = if s ∈ l then msgs else [] := by
  induction h with
  | nil => rfl
  | @cons a b l bs hab _ ih =>
    rw [List.nodup_cons] at hl
    rw [List.flatten_cons, List.filter_append, List.map_append, ih hl.2]
    by_cases hs : s = a
    · subst hs
      have hall : b.filter (·.1.dst = s) = b := List.filter_eq_self.2 fun m hm => decide_eq_true (hab.2 m hm).1
      rw [hall, hab.1, if_neg hl.1, if_pos List.mem_cons_self, List.append_nil]
    · have hnone : b.filter (·.1.dst = s) = [] :=
        List.filter_eq_nil_iff.2 fun m hm => by simpa [(hab.2 m hm).1] using Ne.symm hs
      rw [hnone]
      simp [hs]

theorem SentTo.mem_flatten {net : MeshNet} {g : ℕ} {msgs : List α} {l : List ℕ} {bs : List (List (SpNotif × α))}
    (h : List.Forall₂ (SentTo net g msgs) l bs) {m : SpNotif × α} (hm : m ∈ bs.flatten) :
    m.1.src = g ∧ net.Marked m.1 := by
  induction h with
  | nil => exact absurd hm List.not_mem_nil
  | cons hab _ ih =>
    rw [List.flatten_cons] at hm
    rcases List.mem_append.1 hm with hm | hm
    · exact (hab.2 m hm).2
    · exact ih hm

/-- **A turn for an SP that has been connected.** -/
theorem RouteNet.Right.sendTo {n : ℕ} {st : RouteNet} (h : st.Right n) {g s : ℕ} (hj : s ∈ (st.net.sp g).joined)
    (hs : s ≤ (st.table g).numConnected) (msgs : List α) :
    ∃ ms, (st.table g).sendTo (st.net.sp g) g (some msgs) s = some ms ∧ SentTo st.net g msgs s ms := by
  have hne : s ≠ g := fun he => (h.wired.sited g).self (he ▸ hj)
  -- the way the turn takes
  obtain ⟨r, hr, ec, hec, ep, hep, heq⟩ : ∃ r, SpTable.IsRoute (st.net.sp g) g s r ∧
      ∃ ec, ((st.table g).sps s).econtext = some ec ∧ ∃ ep, ((st.table g).getRemoteServiceProcEp s).1 = some ep ∧
        (⟨ep, ec, if ec = .server then ((st.table g).sps s).clientId else s⟩ : SpRoute) = r := by
    unfold SpTable.getRemoteServiceProcEp
    rw [if_pos hs]
    rcases List.mem_append.1 hj with hj | hj
    · obtain ⟨i, hi, rfl⟩ := List.mem_map.1 hj
      exact ⟨_, .slot hi, by simp [(h.table g).slot i hi]⟩
    · obtain ⟨k, hk, rfl⟩ := List.mem_map.1 hj
      obtain ⟨id, hid⟩ := (h.table g).conn k hk
      exact ⟨_, .conn hk, by simp [hid]⟩
  obtain ⟨notif, hnotif, hsrc, hdst, hmark⟩ := hr.marked h.wired hne
  obtain ⟨ms, hms, hall⟩ := exists_mapM_eq_some (l := msgs) (P := fun m b => b = (notif, m))
    (f := fun m => (do
      let ep ← ((st.table g).getRemoteServiceProcEp s).1
      let notif ← (st.net.sp g).routed g ⟨ep, ec, if ec = .server then ((st.table g).sps s).clientId else s⟩
      some (notif, m) : Option (SpNotif × α)))
    fun m _ => ⟨(notif, m), by rw [hep]; simp only [Option.bind_eq_bind, Option.bind_some, heq, hnotif], rfl⟩
  have hmap : ms = msgs.map (notif, ·) := by
    clear hms
    induction hall with
    | nil => rfl
    | cons hab _ ih => rw [hab, ih, List.map_cons]
  refine ⟨ms, ?_, ?_, fun m hm => ?_⟩
  · rw [SpTable.sendTo, hec]
    exact hms
  · rw [hmap, List.map_map]
    exact List.map_id' _
  · rw [hmap] at hm
    obtain ⟨x, -, rfl⟩ := List.mem_map.1 hm
    exact ⟨hdst, hsrc, hmark⟩

/-- **The loop over the SPs**, when all of them have been connected. -/
theorem RouteNet.Right.sendToAll {n : ℕ} {st : RouteNet} (h : st.Right n) {g : ℕ} (hg : g < n)
    (hall : (st.table g).allServiceProcsConnected n = true) (msgs : List α) :
    ∃ ms, (st.table g).sendToAll (st.net.sp g) n g (some msgs) = some ms ∧ st.net.Delivered n g msgs ms := by
  have hjoined := (h.all_iff hg).1 hall
  have hnum : n = (st.table g).numConnected + 1 := of_decide_eq_true hall
  have hmem : ∀ s, s ∈ (List.range n).filter (· ≠ g) ↔ s < n ∧ s ≠ g := by simp
  obtain ⟨bs, hbs, hsent⟩ := exists_mapM_eq_some (l := (List.range n).filter (· ≠ g))
    (P := SentTo st.net g msgs) (f := (st.table g).sendTo (st.net.sp g) g (some msgs)) fun s hs =>
      h.sendTo (hjoined s ((hmem s).1 hs).1 ((hmem s).1 hs).2) (by have := ((hmem s).1 hs).1; omega) msgs
  refine ⟨bs.flatten, by rw [SpTable.sendToAll, hbs]; rfl, fun s => ?_, fun m hm => ?_⟩
  · rw [SentTo.filter_flatten hsent (List.nodup_range.filter _)]
    simp only [hmem]
  · obtain ⟨hsrc, hmark⟩ := SentTo.mem_flatten hsent hm
    have ht := h.wired.linked.translate_iff hmark
    rw [hsrc] at ht
    exact ⟨hsrc, ht⟩

/-- With an SP missing the loop dereferences nothing. -/
theorem RouteNet.Right.sendToAll_eq_none {n : ℕ} {st : RouteNet} (h : st.Right n) {g s : ℕ} (hs : s < n) (hne : s ≠ g)
    (hj : s ∉ (st.net.sp g).joined) (msgs : Option (List α)) :
    (st.table g).sendToAll (st.net.sp g) n g msgs = none := by
  have hfail : (st.table g).sendTo (st.net.sp g) g msgs s = none := by
    rw [SpTable.sendTo, (h.table g).rest s hne hj]
    rfl
  have hmem : s ∈ (List.range n).filter (· ≠ g) := by simpa using ⟨hs, hne⟩
  rw [SpTable.sendToAll, mapM_eq_none hmem hfail]
  rfl

end Broadcast

/-- **A broadcast reaches every other SP.** In every run, the broadcast of the entries of a group sends nothing while
SPs are missing, and then to each of the other SPs the messages that `send_local_rank_group_cache` has for it; the
broadcast of the revoke, which does not ask, goes through exactly when all SPs have been connected, and sends to each
of the others the messages of `send_local_revoke_rank_group_cache`. Each message is sent once, and each SP takes it
for one of the sender exactly when it knows it. -/
theorem broadcast_reaches_all (n : ℕ) {st : RouteNet} (h : Reach (routeStep n) (fun _ _ => True) RouteNet.start st)
    (g : ℕ) (hg : g < n) (gp : GroupCache) :
    ((st.table g).allServiceProcsConnected n = false →
      (st.table g).broadcastGroupCache (st.net.sp g) n g gp = some []) ∧
    ((st.table g).allServiceProcsConnected n = true → ∀ batches, sendLocalRankGroupCache gp g = some batches →
      ∃ ms, (st.table g).broadcastGroupCache (st.net.sp g) n g gp = some ms ∧ st.net.Delivered n g batches ms) ∧
    (((st.table g).broadcastGroupCacheRevoke (st.net.sp g) n g gp).isSome ↔
      ∀ s < n, s ≠ g → s ∈ (st.net.sp g).joined) ∧
    ∀ ms, (st.table g).broadcastGroupCacheRevoke (st.net.sp g) n g gp = some ms →
      st.net.Delivered n g (sendLocalRevokeRankGroupCache gp) ms := by
  have hi := RouteNet.right_of_reach h
  unfold SpTable.broadcastGroupCache SpTable.broadcastGroupCacheRevoke
  refine ⟨fun hno => by rw [hno]; rfl, fun hall batches hb => ?_, ?_⟩
  · rw [if_pos hall, hb]
    exact hi.sendToAll hg hall batches
  by_cases hall : (st.table g).allServiceProcsConnected n = true
  · obtain ⟨ms, hms, hd⟩ := hi.sendToAll hg hall (sendLocalRevokeRankGroupCache gp)
    rw [hms]
    exact ⟨iff_of_true rfl ((hi.all_iff hg).1 hall), fun ms' he => Option.some.inj he ▸ hd⟩
  · have hmiss := mt (hi.all_iff hg).2 hall
    push Not at hmiss
    obtain ⟨s, hs, hne, hj⟩ := hmiss
    rw [hi.sendToAll_eq_none hs hne hj]
    exact ⟨iff_of_false nofun fun hall' => hj (hall' s hs hne), nofun⟩

/-- The SP 2 broadcasts the revoke of a group of two ranks to the SPs 0 and 1. -/
theorem broadcast_reaches_three :
    ∃ st : RouteNet, Reach (routeStep 3) (fun _ _ => True) RouteNet.start st ∧
      ∃ ms, (st.table 2).broadcastGroupCacheRevoke (st.net.sp 2) 3 2
          { newGroupCache with initialized := true, groupSize := 2 } = some ms ∧
        ∀ s < 2, (ms.filter (·.1.dst = s)).map (fun m => (m.2.rankStart, m.2.numRanks)) = [(0, 2)] := by
  have hrun : ∃ st : RouteNet, Reach (routeStep 3) (fun _ _ => True) RouteNet.start st ∧
      (st.table 2).allServiceProcsConnected 3 = true := exists_reach_of_exec routeActs (by decide)
  obtain ⟨st, hst, hall⟩ := hrun
  have hjoined := ((RouteNet.right_of_reach hst).all_iff (by decide)).1 hall
  obtain ⟨-, -, hsome, hsent⟩ := broadcast_reaches_all 3 hst 2 (by decide)
    { newGroupCache with initialized := true, groupSize := 2 }
  obtain ⟨ms, hms⟩ := Option.isSome_iff_exists.1 (hsome.2 hjoined)
  refine ⟨st, hst, ms, hms, fun s hs => ?_⟩
  have hto := (hsent ms hms).1 s
  rw [if_pos ⟨by omega, by omega⟩] at hto
  have hmap := congrArg (List.map fun m : GroupRevokeMsgFromSp => (m.rankStart, m.numRanks)) hto
  rw [List.map_map] at hmap
  exact hmap

end DpuOffload
