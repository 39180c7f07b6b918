import DpuOffload.Bootstrap.Server
import DpuOffload.Mesh.Lookup

/-!
# Who sent a notification

The SPs of a job, each the client of those with a higher global id, and the notifications they
send each other as active messages. The header says who sent it: a client gives the id it has
with the server, which is its slot there; a server gives its global id. The receiver finds the
execution context of the connection (`get_associated_econtext`) and translates the id
(`LOCAL_ID_TO_GLOBAL`): as a server it reads the rank it got from the client, in the third step
of the bootstrapping.

An active message is handled when it arrives. A client whose sends completed right away may
notify its server before the server received the rank, and the slot then holds zeroes.

* `sender_identity_iff` — **the translation is right** exactly when the receiver is the client,
  or has received the rank of the sender, or the sender is the SP 0.
* `sender_identity_early` — it need not be.
-/

namespace DpuOffload

open Transition

/-! ### The identifiers -/

/-- `execution_context_type_t`. -/
inductive ContextType where
  /-- `CONTEXT_UNKNOWN`. -/
  | unknown
  /-- `CONTEXT_CLIENT`. -/
  | client
  /-- `CONTEXT_SERVER`. -/
  | server
  /-- `CONTEXT_SELF`. -/
  | self
  deriving DecidableEq, Repr

/-- What the translations read of an execution context. -/
structure Econtext where
  /-- `type`. -/
  type : ContextType
  /-- `engine->on_dpu`. -/
  onDpu : Bool
  /-- `client->id`, `server->id`. -/
  id : ℕ
  /-- `client->server_id`. -/
  serverId : ℕ
  /-- `client->server_global_id`. -/
  serverGlobalId : ℕ
  /-- `rank_data.group_rank` of the clients of a server, by slot. -/
  groupRank : ℕ → ℕ
  /-- `local_service_proc.info.global_id`. -/
  globalId : ℕ

/-- `ECONTEXT_ID`. -/
def econtextId (ec : Econtext) : ℕ :=
  match ec.type with
  | .client | .server => ec.id
  | _ => 0

/-- `LOCAL_ID_TO_GLOBAL`. -/
def localIdToGlobal (ec : Econtext) (localId : ℕ) : ℕ :=
  match ec.type with
  | .server => ec.groupRank localId
  | .client => if ec.onDpu then localId else ec.serverGlobalId
  | .self => if ec.onDpu then ec.globalId else 0
  | .unknown => 2 ^ 64 - 1

/-- What the header of a notification says of the connection. -/
structure SpHeader where
  /-- The id of the sender. -/
  id : ℕ
  /-- The client of the connection. -/
  clientId : ℕ
  /-- Its server. -/
  serverId : ℕ
  /-- `sender_type`. -/
  senderType : ContextType
  deriving DecidableEq, Repr

/-- The header of an event: `EVENT_HDR_ID`, `PREP_EVENT_FOR_EMIT`. The destination is the slot of
the client where a server sends. -/
def Econtext.header (ec : Econtext) (dest : ℕ) : SpHeader :=
  match ec.type with
  | .client => ⟨econtextId ec, ec.id, ec.serverId, .client⟩
  | .server => ⟨econtextId ec, dest, ec.id, .server⟩
  | t => ⟨econtextId ec, 0, 0, t⟩

/-! ### The SPs -/

/-- The execution context of a client of an SP; `server_id` is the id the server sent. -/
def InterSpClient.econtext (c : InterSpClient) (g : ℕ) : Econtext where
  type := .client
  onDpu := true
  id := c.id
  serverId := c.serverGlobalId
  serverGlobalId := c.serverGlobalId
  groupRank _ := 0
  globalId := g

/-- An SP. -/
structure SpNode where
  /-- The clients of its server. -/
  server : Server
  /-- Which SPs these are, by slot. -/
  accepted : List ℕ
  /-- The ranks received from them, by slot. -/
  groupRank : ℕ → ℕ
  /-- Its connections to SPs with a higher id. -/
  clients : InterSpClients
  /-- Their bootstrappings. -/
  conns : List Conn

namespace SpNode

/-- Nothing is connected. -/
def start : SpNode where
  server := .start
  accepted := []
  groupRank _ := 0
  clients := .start
  conns := []

variable (p : SpNode)

/-- The execution context of the server of an SP (`server_init`). -/
def serverEcontext (g : ℕ) : Econtext where
  type := .server
  onDpu := true
  id := g
  serverId := 0
  serverGlobalId := 0
  groupRank := p.groupRank
  globalId := g

/-- Has the rank of the client of a slot been received? -/
def rankReceived (idx : ℕ) : Bool := ((p.server.slot idx).op .rank).complete

/-- A client is accepted, in a new slot. -/
def accept (g : ℕ) : SpNode := { p with server := p.server.oobServerListen, accepted := p.accepted ++ [g] }

/-- The sockets of a client are connected, and it is recorded. -/
def connected (c : InterSpClient) : SpNode :=
  { p with clients := p.clients.connected c, conns := p.conns ++ [Conn.reset.opened] }

/-- The server went on; a rank is there once it was received. -/
def served (sv : Server) : SpNode :=
  { p with
    server := sv
    groupRank idx := if ((sv.slot idx).op .rank).complete then p.accepted.getD idx 0 else p.groupRank idx }

/-- `get_associated_econtext`, of a notification between SPs; `NULL` when there is none. -/
def getAssociatedEcontext (g : ℕ) (hdr : SpHeader) : Option Econtext :=
  match hdr.senderType with
  | .server =>
    ((clientServerLookup p.clients.clientLookupTable hdr.clientId hdr.serverId).bind (p.clients.clients[·]?)).map
      (·.econtext g)
  | .client => some (p.serverEcontext g)
  | _ => none

end SpNode

/-- A notification in flight. -/
structure SpNotif where
  /-- Its sender. -/
  src : ℕ
  /-- Its receiver. -/
  dst : ℕ
  /-- Its header. -/
  hdr : SpHeader
  deriving DecidableEq, Repr

/-- The SPs of a job, by global id, and the notifications in flight. -/
structure MeshNet where
  /-- The SPs. -/
  sp : ℕ → SpNode
  /-- The notifications. -/
  notifs : List SpNotif

/-- What happens in a job. -/
inductive SpAct where
  /-- The sockets of an SP and a server are connected. -/
  | connect (g s : ℕ)
  /-- The server of an SP goes on. -/
  | server (s : ℕ) (a : ServerAct)
  /-- A client of an SP goes on. -/
  | client (g k : ℕ) (a : ClientAct)
  /-- An SP notifies a server. -/
  | notifyServer (g k : ℕ)
  /-- An SP notifies a client. -/
  | notifyClient (s idx : ℕ)
  /-- A notification is handled. -/
  | receive (i : ℕ)

namespace MeshNet

/-- Nothing is connected. -/
def start : MeshNet := ⟨fun _ => .start, []⟩

variable (st : MeshNet)

/-- One SP changes. -/
def set (g : ℕ) (p : SpNode) : MeshNet := { st with sp := Function.update st.sp g p }

/-- A notification is sent. -/
def send (m : SpNotif) : MeshNet := { st with notifs := st.notifs ++ [m] }

/-- `oob_server_listen` at the server and `connect_to_remote_service_proc` at the client, which is
sent the id of its slot. -/
def connect (g s : ℕ) : MeshNet :=
  let id := (st.sp s).server.generateUniqueClientId
  (st.set s ((st.sp s).accept g)).set g ((st.sp g).connected ⟨id, s⟩)

/-- What the receiver of a notification takes its sender for. -/
def translate (m : SpNotif) : Option ℕ :=
  ((st.sp m.dst).getAssociatedEcontext m.dst m.hdr).map (localIdToGlobal · m.hdr.id)

end MeshNet

/-- The server of an SP for the other SPs. -/
def interSpServerCfg : ServerCfg := ⟨true, .interServiceProcs, true⟩

/-- A client of an SP. -/
def interSpClientCfg : ClientCfg := ⟨true, .interServiceProcs, true⟩

/-- One step of a job of `n` SPs. An SP connects once to each server, and notifies over a connection
whose bootstrapping it has ended. -/
def meshStep (n : ℕ) (st : MeshNet) : SpAct → Option MeshNet
  | .connect g s => if g < s ∧ s < n ∧ g ∉ (st.sp s).accepted then some (st.connect g s) else none
  | .server _ .accept => none
  | .server s a => (serverStep interSpServerCfg (st.sp s).server a).map fun sv => st.set s ((st.sp s).served sv)
  | .client g k a =>
    ((st.sp g).conns[k]?.bind (clientStep interSpClientCfg · a)).map fun c =>
      st.set g { st.sp g with conns := (st.sp g).conns.set k c }
  | .notifyServer g k =>
    if ((st.sp g).conns.getD k .reset).boot.phase = .bootstrapDone then
      (st.sp g).clients.clients[k]?.map fun c =>
        st.send ⟨g, c.serverGlobalId, (c.econtext g).header c.serverGlobalId⟩
    else none
  | .notifyClient s idx =>
    if ((st.sp s).server.slot idx).boot.phase = .bootstrapDone then
      (st.sp s).accepted[idx]?.map fun g => st.send ⟨s, g, ((st.sp s).serverEcontext s).header idx⟩
    else none
  | .receive i => some { st with notifs := st.notifs.eraseIdx i }

/-! ### A rank that was received stays -/

namespace Conn

/-- A rank received before was received after. -/
def KeepsRank (c c' : Conn) : Prop := (c.op .rank).complete = true → (c'.op .rank).complete = true

variable {c c' : Conn}

theorem KeepsRank.trans {c'' : Conn} (h : c.KeepsRank c') (h' : c'.KeepsRank c'') : c.KeepsRank c'' := h' ∘ h

theorem keepsRank_setOp {s : BootStep} {o : BootOp} (h : (c.op s).complete = true → o.complete = true) :
    c.KeepsRank (c.setOp s o) := by
  intro hc
  change (Function.update c.boot.op s o .rank).complete = true
  by_cases hs : BootStep.rank = s
  · subst hs
    rw [Function.update_self]
    exact h hc
  · rwa [Function.update_of_ne hs]

theorem keepsRank_post (s : BootStep) (now : Bool) : c.KeepsRank (c.post s now) := by
  have h := keepsRank_setOp (c := c) (s := s)
    (o := if now then ⟨none, true⟩ else { c.op s with request := some c.next }) (by cases now <;> simp)
  exact h

theorem keepsRank_free (s : BootStep) : c.KeepsRank (c.free s) := by
  unfold free
  split
  · exact id
  · exact keepsRank_setOp (o := { c.op s with request := none }) id

theorem keepsRank_setPhase (p : Phase) : c.KeepsRank (c.setPhase p) := by
  unfold setPhase
  split <;> exact id

theorem keepsRank_start (s : BootStep) (now : Bool) : c.KeepsRank (c.start s now) := by
  unfold start
  split
  · exact keepsRank_post s now
  · exact id

theorem keepsRank_cleanUp (s : BootStep) : c.KeepsRank (c.cleanUp s) := by
  unfold cleanUp
  split
  · exact keepsRank_free s
  · exact id

theorem keepsRank_addrSteps (now : BootStep → Bool) : c.KeepsRank (c.addrSteps now) := by
  have h₁ := (keepsRank_start (c := c) .addrSize (now .addrSize)).trans (keepsRank_cleanUp .addrSize)
  unfold addrSteps
  refine h₁.trans (KeepsRank.trans ?_ (keepsRank_cleanUp .addr))
  split
  · exact keepsRank_start .addr (now .addr)
  · exact id

theorem keepsRank_serverSteps (cfg : ServerCfg) (now : BootStep → Bool) : c.KeepsRank (c.serverSteps cfg now) := by
  unfold serverSteps
  have hrank : (c.addrSteps now).KeepsRank ((c.addrSteps now).serverStartRank (now .rank)) := by
    unfold serverStartRank
    split
    · exact keepsRank_post .rank (now .rank)
    · exact id
  refine (keepsRank_addrSteps now).trans (hrank.trans ?_)
  generalize (c.addrSteps now).serverStartRank (now .rank) = d
  unfold serverUcx
  split
  · refine (keepsRank_free .rank).trans ((keepsRank_setPhase .ucxConnectDone).trans ?_)
    dsimp only
    generalize (d.free .rank).setPhase .ucxConnectDone = e
    have hstep4 : ∀ o, e.KeepsRank (e.setOp .step4 o) := fun o => id
    apply (hstep4 { e.op .step4 with complete := true }).trans
    split
    · unfold serverStart4
      split
      · exact id
      · exact KeepsRank.trans (fun h => h) (keepsRank_post .step4 (now .step4))
    · exact id
  · exact id

/-- **A pass for one client.** -/
theorem keepsRank_visit (cfg : ServerCfg) (now : BootStep → Bool) (ok : Bool) : c.KeepsRank (c.visit cfg now ok) := by
  unfold visit
  apply (keepsRank_serverSteps cfg now).trans
  dsimp only
  split
  · refine (keepsRank_free .step4).trans ((keepsRank_setPhase .bootstrapDone).trans ?_)
    unfold finalizeClientConnection
    dsimp only
    split <;> exact id
  · exact id

theorem keepsRank_complete {q : ℕ} (h : c.complete q = some c') : c.KeepsRank c' := by
  obtain ⟨p, -, rfl⟩ := Option.map_eq_some_iff.1 h
  exact keepsRank_setOp (o := { c.op p.2 with complete := true }) fun _ => rfl

end Conn

namespace Server

/-- The slots are as many, and the ranks received stay. -/
def KeepsRanks (s s' : Server) : Prop :=
  s'.clients.length = s.clients.length ∧ ∀ idx, (s.slot idx).KeepsRank (s'.slot idx)

variable {s s' : Server}

theorem KeepsRanks.trans {s'' : Server} (h : s.KeepsRanks s') (h' : s'.KeepsRanks s'') : s.KeepsRanks s'' :=
  ⟨h'.1.trans h.1, fun idx => (h.2 idx).trans (h'.2 idx)⟩

/-- One client changes. -/
theorem keepsRanks_set {idx : ℕ} {c : Conn} (h : (s.slot idx).KeepsRank c)
    (hs' : s'.clients = s.clients.set idx c) : s.KeepsRanks s' := by
  refine ⟨by rw [hs', List.length_set], fun j => ?_⟩
  have hslot : s'.slot j = if idx = j ∧ j < s.clients.length then c else s.slot j := by
    rw [slot, slot, hs', List.getD_eq_getElem?_getD, List.getD_eq_getElem?_getD, List.getElem?_set]
    by_cases hj : idx = j
    · subst hj
      by_cases hlt : idx < s.clients.length
      · simp [hlt]
      · simp [hlt]
    · simp [hj]
  rw [hslot]
  split
  · rename_i hj
    exact hj.1 ▸ h
  · exact id

/-- **Every step of a server but accepting a client.** -/
theorem keepsRanks_step {cfg : ServerCfg} {a : ServerAct} (ha : a ≠ .accept) (hs : serverStep cfg s a = some s') :
    s.KeepsRanks s' := by
  cases a with
  | accept => exact absurd rfl ha
  | progress now ok =>
    cases hs
    refine loop_keeps (J := s.KeepsRanks) (Q := fun _ => True) (fun t idx h _ _ _ => h.trans ?_) _ 0 rfl
      ⟨rfl, fun _ => id⟩ fun _ _ => trivial
    apply keepsRanks_set (@Conn.keepsRank_visit (t.slot idx) cfg (now idx) (ok idx))
    unfold visitSlot
    split <;> rfl
  | completion idx q =>
    obtain ⟨c, hc, rfl⟩ := Option.map_eq_some_iff.1 hs
    exact keepsRanks_set (Conn.keepsRank_complete hc) rfl
  | disconnect idx =>
    simp only [serverStep] at hs
    split at hs
    · cases hs
      exact keepsRanks_set (Conn.keepsRank_setPhase .disconnected) rfl
    · cases hs

end Server

/-! ### What the SPs know of each other -/

namespace SpNode

/-- **What an SP knows of its clients**: its slots are those it accepted, and a slot holds the rank of its
client once that was received, and zero before. -/
structure Sound (p : SpNode) : Prop where
  /-- The numbers of the clients. -/
  numbered : p.server.Numbered
  /-- A client has one slot. -/
  slots : p.accepted.length = p.server.clients.length
  /-- The ranks. -/
  rank : ∀ idx, p.groupRank idx = if p.rankReceived idx then p.accepted.getD idx 0 else 0
  /-- The table of its own connections. -/
  first : p.clients.First

variable {p : SpNode}

theorem sound_start : start.Sound where
  numbered := rfl
  slots := rfl
  rank _ := rfl
  first := InterSpClients.first_start

/-- A rank that was received is that of a client accepted. -/
theorem Sound.lt_of_rankReceived (h : p.Sound) {idx : ℕ} (hr : p.rankReceived idx = true) : idx < p.accepted.length := by
  by_contra hlt
  rw [h.slots] at hlt
  rw [rankReceived, Server.slot, List.getD_eq_default _ _ (Nat.not_lt.1 hlt)] at hr
  exact absurd hr (by decide)

/-- A new client has sent no rank. -/
theorem Sound.rankReceived_accept (h : p.Sound) (g idx : ℕ) : (p.accept g).rankReceived idx = p.rankReceived idx := by
  change ((p.server.oobServerListen.slot idx).op .rank).complete = ((p.server.slot idx).op .rank).complete
  rw [Server.slot, Server.slot, h.numbered.oobServerListen_clients]
  rcases Nat.lt_trichotomy idx p.server.clients.length with hlt | rfl | hgt
  · rw [List.getD_append _ _ _ _ hlt]
  · rw [List.getD_append_right _ _ _ _ (Nat.le_refl _), List.getD_eq_default p.server.clients _ (Nat.le_refl _),
      Nat.sub_self]
    rfl
  · rw [List.getD_eq_default _ _ (by rw [List.length_append, List.length_singleton]; omega),
      List.getD_eq_default _ _ (Nat.le_of_lt hgt)]

theorem Sound.accept (h : p.Sound) (g : ℕ) : (p.accept g).Sound where
  numbered := h.numbered.oobServerListen
  slots := by
    change (p.accepted ++ [g]).length = p.server.oobServerListen.clients.length
    rw [h.numbered.oobServerListen_clients, List.length_append, List.length_append, h.slots]
    rfl
  rank idx := by
    rw [h.rankReceived_accept]
    apply (h.rank idx).trans
    split
    · rename_i hr
      exact (List.getD_append _ _ _ _ (h.lt_of_rankReceived hr)).symm
    · rfl
  first := h.first

theorem Sound.connected (h : p.Sound) (c : InterSpClient) : (p.connected c).Sound :=
  ⟨h.numbered, h.slots, h.rank, h.first.connected c⟩

/-- **The server goes on.** -/
theorem Sound.served (h : p.Sound) {a : ServerAct} {sv : Server} (ha : a ≠ .accept)
    (hs : serverStep interSpServerCfg p.server a = some sv) : (p.served sv).Sound := by
  obtain ⟨hlen, hkeep⟩ := Server.keepsRanks_step ha hs
  refine ⟨h.numbered.step hs, h.slots.trans hlen.symm, fun idx => ?_, h.first⟩
  change (if ((sv.slot idx).op .rank).complete = true then p.accepted.getD idx 0 else p.groupRank idx) = _
  by_cases hc : ((sv.slot idx).op .rank).complete = true
  · rw [if_pos hc]
    exact (if_pos hc).symm
  · -- no rank now, so none before
    have hbefore : p.rankReceived idx ≠ true := fun hr => hc (hkeep idx hr)
    rw [if_neg hc, h.rank idx, if_neg hbefore]
    exact (if_neg hc).symm

end SpNode

namespace MeshNet

/-- Is a notification as its sender's connection says? -/
def Marked (st : MeshNet) (m : SpNotif) : Prop :=
  match m.hdr.senderType with
  | .server => m.hdr.id = m.src ∧ ⟨m.hdr.clientId, m.hdr.serverId⟩ ∈ (st.sp m.dst).clients.clients
  | .client => (st.sp m.dst).accepted[m.hdr.id]? = some m.src
  | _ => False

/-- **What the SPs know of each other.** -/
structure Linked (st : MeshNet) : Prop where
  /-- Every SP is sound. -/
  sound : ∀ s, (st.sp s).Sound
  /-- The id of a client is that of its slot. -/
  client : ∀ g, ∀ c ∈ (st.sp g).clients.clients, (st.sp c.serverGlobalId).accepted[c.id]? = some g
  /-- A client that was accepted is recorded with the id of its slot. -/
  server : ∀ s idx g, (st.sp s).accepted[idx]? = some g → ⟨idx, s⟩ ∈ (st.sp g).clients.clients
  /-- The notifications in flight. -/
  notifs : ∀ m ∈ st.notifs, st.Marked m

variable {st st' : MeshNet}

theorem sp_set (g : ℕ) (p : SpNode) (x : ℕ) : (st.set g p).sp x = if x = g then p else st.sp x :=
  Function.update_apply ..

theorem linked_start : start.Linked where
  sound _ := SpNode.sound_start
  client _ _ hc := absurd hc List.not_mem_nil
  server _ _ _ h := by cases h
  notifs _ hm := absurd hm List.not_mem_nil

/-- Connections are only added. -/
theorem Marked.mono {m : SpNotif} (h : st.Marked m)
    (ha : ∀ (s idx g : ℕ), (st.sp s).accepted[idx]? = some g → (st'.sp s).accepted[idx]? = some g)
    (hc : ∀ g, (st.sp g).clients.clients ⊆ (st'.sp g).clients.clients) : st'.Marked m := by
  unfold Marked at h ⊢
  split at h
  · exact ⟨h.1, hc _ h.2⟩
  · exact ha _ _ _ h
  · exact h

/-- One SP changes, but not its connections. -/
theorem Linked.set (h : st.Linked) {g : ℕ} {p : SpNode} (hp : p.Sound) (ha : p.accepted = (st.sp g).accepted)
    (hc : p.clients = (st.sp g).clients) : (st.set g p).Linked := by
  have haccepted : ∀ s, ((st.set g p).sp s).accepted = (st.sp s).accepted := by
    intro s
    rw [sp_set]
    split
    · rename_i hs
      rw [ha, hs]
    · rfl
  have hclients : ∀ s, ((st.set g p).sp s).clients = (st.sp s).clients := by
    intro s
    rw [sp_set]
    split
    · rename_i hs
      rw [hc, hs]
    · rfl
  refine ⟨fun s => ?_, fun s c => ?_, fun s idx g' => ?_, fun m hm => ?_⟩
  · rw [sp_set]
    split
    · exact hp
    · exact h.sound s
  · rw [hclients, haccepted]
    exact h.client s c
  · rw [haccepted, hclients]
    exact h.server s idx g'
  · refine Marked.mono (h.notifs m hm) (fun s idx g' => ?_) fun s => ?_
    · rw [haccepted]
      exact id
    · rw [hclients]
      exact List.Subset.refl _

/-- A notification is sent. -/
theorem Linked.send (h : st.Linked) {m : SpNotif} (hm : st.Marked m) : (st.send m).Linked := by
  refine ⟨h.sound, h.client, h.server, fun m' hm' => ?_⟩
  rcases List.mem_append.1 hm' with hm' | hm'
  · exact h.notifs m' hm'
  · rw [List.mem_singleton.1 hm']
    exact hm

/-- **An SP connects to a server**: the id it is sent is that of the slot it gets. -/
theorem Linked.connect (h : st.Linked) {g s : ℕ} (hgs : g < s) : (st.connect g s).Linked := by
  have hid : (st.sp s).server.generateUniqueClientId = (st.sp s).accepted.length :=
    (h.sound s).numbered.trans (h.sound s).slots.symm
  have hsp : ∀ x, (st.connect g s).sp x = if x = g then (st.sp g).connected ⟨(st.sp s).accepted.length, s⟩
      else if x = s then (st.sp s).accept g else st.sp x := by
    intro x
    rw [MeshNet.connect, hid, sp_set, sp_set]
  have haccepted : ∀ x, ((st.connect g s).sp x).accepted =
      if x = s then (st.sp s).accepted ++ [g] else (st.sp x).accepted := by
    intro x
    rw [hsp]
    by_cases hg : x = g
    · rw [if_pos hg, if_neg (by omega), hg]
      rfl
    · rw [if_neg hg]
      split <;> rfl
  have hclients : ∀ x, ((st.connect g s).sp x).clients.clients =
      if x = g then (st.sp g).clients.clients ++ [⟨(st.sp s).accepted.length, s⟩] else (st.sp x).clients.clients := by
    intro x
    rw [hsp]
    split
    · rfl
    · split
      · rename_i hs
        rw [hs]
        rfl
      · rfl
  have hmono : ∀ (x idx g' : ℕ), (st.sp x).accepted[idx]? = some g' →
      ((st.connect g s).sp x).accepted[idx]? = some g' := by
    intro x idx g' ha
    rw [haccepted]
    split
    · rename_i hx
      subst hx
      rw [List.getElem?_append_left (List.getElem?_eq_some_iff.1 ha).1]
      exact ha
    · exact ha
  have hsub : ∀ x, (st.sp x).clients.clients ⊆ ((st.connect g s).sp x).clients.clients := by
    intro x
    rw [hclients]
    split
    · rename_i hx
      subst hx
      exact List.subset_append_left _ _
    · exact List.Subset.refl _
  refine ⟨fun x => ?_, fun x c hc => ?_, fun x idx g' ha => ?_, fun m hm => Marked.mono (h.notifs m hm) hmono hsub⟩
  · rw [hsp]
    split
    · exact (h.sound g).connected _
    · split
      · exact (h.sound s).accept g
      · exact h.sound x
  · rw [hclients] at hc
    split at hc
    · rename_i hx
      subst hx
      rcases List.mem_append.1 hc with hc | hc
      · exact hmono _ _ _ (h.client x c hc)
      · rw [List.mem_singleton.1 hc, haccepted, if_pos rfl, List.getElem?_concat_length]
    · exact hmono _ _ _ (h.client x c hc)
  · rw [haccepted] at ha
    split at ha
    · rename_i hx
      subst hx
      rcases Nat.lt_or_ge idx (st.sp x).accepted.length with hlt | hge
      · rw [List.getElem?_append_left hlt] at ha
        exact hsub g' (h.server x idx g' ha)
      · -- the new slot
        rw [List.getElem?_append_right hge, List.getElem?_singleton] at ha
        split at ha
        · rename_i h0
          cases ha
          have hidx : idx = (st.sp x).accepted.length := by omega
          rw [hclients, if_pos rfl, hidx]
          exact List.mem_append_right _ (List.mem_singleton_self _)
        · cases ha
    · exact hsub g' (h.server x idx g' ha)

/-- **Every step of a job.** -/
theorem Linked.step {n : ℕ} {a : SpAct} (h : st.Linked) (hs : meshStep n st a = some st') : st'.Linked := by
  cases a with
  | connect g s =>
    simp only [meshStep] at hs
    split at hs
    · rename_i hg
      cases hs
      exact h.connect hg.1
    · cases hs
  | server s a =>
    by_cases ha : a = .accept
    · subst ha
      cases hs
    · have hstep : ((serverStep interSpServerCfg (st.sp s).server a).map fun sv =>
          st.set s ((st.sp s).served sv)) = some st' := by
        cases a with
        | accept => exact absurd rfl ha
        | progress now ok => exact hs
        | completion idx q => exact hs
        | disconnect idx => exact hs
      obtain ⟨sv, hsv, rfl⟩ := Option.map_eq_some_iff.1 hstep
      exact h.set ((h.sound s).served ha hsv) rfl rfl
  | client g k a =>
    obtain ⟨c, -, rfl⟩ := Option.map_eq_some_iff.1 hs
    have hg := h.sound g
    exact h.set ⟨hg.numbered, hg.slots, hg.rank, hg.first⟩ rfl rfl
  | notifyServer g k =>
    simp only [meshStep] at hs
    split at hs
    · obtain ⟨c, hc, rfl⟩ := Option.map_eq_some_iff.1 hs
      exact h.send (h.client g c (List.mem_of_getElem? hc))
    · cases hs
  | notifyClient s idx =>
    simp only [meshStep] at hs
    split at hs
    · obtain ⟨g, hg, rfl⟩ := Option.map_eq_some_iff.1 hs
      exact h.send ⟨rfl, h.server s idx g hg⟩
    · cases hs
  | receive i =>
    cases hs
    exact ⟨h.sound, h.client, h.server, fun m hm => h.notifs m (List.mem_of_mem_eraseIdx hm)⟩

/-- Does the receiver of a notification know its sender? It does as a client; as a server, once it has
received the rank. -/
def Knows (st : MeshNet) (m : SpNotif) : Prop :=
  m.hdr.senderType = .server ∨ (st.sp m.dst).rankReceived m.hdr.id = true ∨ m.src = 0

/-- From a server: the execution context found is that of a client, if not of the right one. -/
theorem Linked.translate_server (h : st.Linked) {m : SpNotif} (hm : m ∈ st.notifs)
    (ht : m.hdr.senderType = .server) : st.translate m = some m.src := by
  have hmark := h.notifs m hm
  rw [Marked, ht] at hmark
  obtain ⟨hid, hmem⟩ := hmark
  have hlookup : ∃ c, (clientServerLookup (st.sp m.dst).clients.clientLookupTable m.hdr.clientId m.hdr.serverId).bind
      ((st.sp m.dst).clients.clients[·]?) = some c := by
    rw [clientServerLookup, (h.sound m.dst).first]
    cases hf : (st.sp m.dst).clients.clients.findIdx? (·.key = hashClientServer m.hdr.clientId m.hdr.serverId) with
    | none =>
      have hnone := List.findIdx?_eq_none_iff.1 hf _ hmem
      simp [InterSpClient.key] at hnone
    | some i =>
      obtain ⟨hi, -⟩ := List.findIdx?_eq_some_iff_getElem.1 hf
      exact ⟨_, List.getElem?_eq_getElem hi⟩
  obtain ⟨c, hc⟩ := hlookup
  rw [translate, SpNode.getAssociatedEcontext, ht]
  dsimp only
  rw [hc]
  exact congrArg some hid

/-- From a client: what the slot holds. -/
theorem Linked.translate_client (h : st.Linked) {m : SpNotif} (hm : m ∈ st.notifs)
    (ht : m.hdr.senderType = .client) :
    st.translate m = some (if (st.sp m.dst).rankReceived m.hdr.id then m.src else 0) := by
  have hmark := h.notifs m hm
  rw [Marked, ht] at hmark
  rw [translate, SpNode.getAssociatedEcontext, ht]
  change some ((st.sp m.dst).groupRank m.hdr.id) = _
  rw [(h.sound m.dst).rank, List.getD_eq_getElem?_getD, hmark]
  rfl

end MeshNet

/-- **The receiver knows who sent a notification** exactly when it is the client of the connection, or has
received the rank of the sender, or the sender is the SP 0: for any number of SPs and any order of
connecting, bootstrapping and notifying. -/
theorem sender_identity_iff (n : ℕ) {st : MeshNet} (h : Reach (meshStep n) (fun _ _ => True) MeshNet.start st)
    (m : SpNotif) (hm : m ∈ st.notifs) : st.translate m = some m.src ↔ st.Knows m := by
  have hl : st.Linked := h.invariant MeshNet.linked_start fun _ _ _ hs _ hstep => hs.step hstep
  unfold MeshNet.Knows
  cases ht : m.hdr.senderType with
  | server => simp [hl.translate_server hm ht]
  | client =>
    rw [hl.translate_client hm ht]
    by_cases hr : (st.sp m.dst).rankReceived m.hdr.id = true
    · simp [hr]
    · simp [hr, eq_comm]
  | unknown | self =>
    have hmark := hl.notifs m hm
    rw [MeshNet.Marked, ht] at hmark
    exact hmark.elim

/-- A run that connects the SPs 0 and 1 to the SP 2, in this order; the SP 1 has ended its bootstrapping. -/
def meshActs : List SpAct :=
  [.connect 0 2, .connect 1 2, .client 1 0 (.progress (fun _ => true) true)]

/-- The SP 1 notifies its server, which has received its rank; it answers. -/
theorem sender_identity_three :
    ∃ st : MeshNet, Reach (meshStep 3) (fun _ _ => True) MeshNet.start st ∧
      st.notifs = [⟨1, 2, ⟨1, 1, 2, .client⟩⟩, ⟨2, 1, ⟨2, 1, 2, .server⟩⟩] ∧
      ∀ m ∈ st.notifs, st.translate m = some m.src := by
  have hrun : ∃ st : MeshNet, Reach (meshStep 3) (fun _ _ => True) MeshNet.start st ∧
      (st.notifs = [⟨1, 2, ⟨1, 1, 2, .client⟩⟩, ⟨2, 1, ⟨2, 1, 2, .server⟩⟩] ∧ (st.sp 2).rankReceived 1 = true) :=
    exists_reach_of_exec (meshActs ++ [.notifyServer 1 0, .server 2 (.progress (fun _ _ => true) fun _ => true),
      .server 2 (.progress (fun _ _ => true) fun _ => true), .notifyClient 2 1]) (by decide)
  obtain ⟨st, hst, hn, hr⟩ := hrun
  refine ⟨st, hst, hn, fun m hm => (sender_identity_iff 3 hst m hm).2 ?_⟩
  rw [hn] at hm
  rcases List.mem_cons.1 hm with rfl | hm
  · exact .inr (.inl hr)
  · rw [List.mem_singleton.1 hm]
    exact .inl rfl

/-- **Not in every run**: the sends of the SP 1 complete right away and it notifies its server before that
has made a pass. The server takes the notification for one of the SP 0. -/
theorem sender_identity_early :
    ¬ ∀ (n : ℕ) (st : MeshNet), Reach (meshStep n) (fun _ _ => True) MeshNet.start st →
      ∀ m ∈ st.notifs, st.translate m = some m.src := by
  intro h
  have hrun : ∃ st : MeshNet, Reach (meshStep 3) (fun _ _ => True) MeshNet.start st ∧
      (⟨1, 2, ⟨1, 1, 2, .client⟩⟩ ∈ st.notifs ∧ st.translate ⟨1, 2, ⟨1, 1, 2, .client⟩⟩ = some 0) :=
    exists_reach_of_exec (meshActs ++ [.notifyServer 1 0]) (by decide)
  obtain ⟨st, hst, hm, h0⟩ := hrun
  have h1 := h 3 st hst _ hm
  rw [h0] at h1
  cases h1

end DpuOffload
