import DpuOffload.Bootstrap.Server

/-!
# Which clients a server has

A server gives its clients their ids, counts those connecting and those connected, and is done
when the last one leaves (`term_msg_cb`). A client sends one termination message, as early as its own side
of the bootstrapping is done: the server may be behind. `term_msg_cb` does not ask in which phase it
has the client.

* `clients_counted` — **ids, counters and the end of the server are right** in every run in which the messages
  come from clients that are connected.
* `not_clients_counted` — a message from a client that the server has not finalised: the counter of the clients
  connected underflows.
-/

namespace DpuOffload

open Transition

/-- A server and its end. -/
structure ServerLife where
  /-- The clients and their counters. -/
  server : Server
  /-- `done`. -/
  done : Bool
  /-- The ids given to the clients, in the order in which they were accepted. -/
  ids : List ℕ
  /-- The clients whose termination message was handled. -/
  left : List ℕ

namespace ServerLife

/-- No client. -/
def start : ServerLife where
  server := Server.start
  done := false
  ids := []
  left := []

variable (l : ServerLife)

/-- `oob_server_listen`, with the id it sends to the client. -/
def oobServerListen : ServerLife :=
  { l with server := l.server.oobServerListen, ids := l.ids ++ [l.server.generateUniqueClientId] }

/-- `term_msg_cb`, of a server. -/
def termMsgCb (id : ℕ) : ServerLife :=
  let server := l.server.termMsgCb id
  { l with
    server := server
    done := l.done || (server.numConnected == 0 && server.numOngoing == 0)
    left := id :: l.left }

/-- May a termination message of client `id` come? It was accepted and has sent none; a process of a
host has received what the fourth step sends. -/
def MayLeave (cfg : ServerCfg) (id : ℕ) : Prop :=
  id < l.server.clients.length ∧ id ∉ l.left ∧ (cfg.four = true → (l.server.slot id).boot.posted = true)

instance decidableMayLeave (cfg : ServerCfg) (id : ℕ) : Decidable (l.MayLeave cfg id) :=
  inferInstanceAs (Decidable (_ ∧ _ ∧ (_ → _)))

/-- One step of a server. The messages of its clients are handled as they come. -/
def step (cfg : ServerCfg) (l : ServerLife) (a : ServerAct) : Option ServerLife :=
  match a with
  | .accept => some l.oobServerListen
  | .disconnect id => if l.MayLeave cfg id then some (l.termMsgCb id) else none
  | .progress _ _ | .completion _ _ => (serverStep cfg l.server a).map fun s => { l with server := s }

/-- The server has finalised a client when its termination message comes. -/
def Settled (l : ServerLife) : ServerAct → Prop
  | .disconnect id => (l.server.slot id).boot.phase = .bootstrapDone
  | .accept | .progress _ _ | .completion _ _ => True

/-- **What a server knows of its clients**, when its steps are those allowed by `ok`. -/
structure Counted (cfg : ServerCfg) (ok : ServerLife → ServerAct → Prop) (l : ServerLife) : Prop where
  /-- The ids are the numbers of the slots, in the order of the connections. -/
  ids : l.ids = List.range l.server.clients.length
  /-- The clients connecting. -/
  ongoing : l.server.numOngoing = l.server.clients.countP Conn.connecting
  /-- The clients connected. -/
  connected : l.server.numConnected = l.server.clients.countP Conn.bootstrapped
  /-- No termination message makes the counter underflow. -/
  noUnderflow : ∀ id, ok l (.disconnect id) → l.MayLeave cfg id → l.server.numConnected ≠ 0
  /-- It marks the server done only when no client is connecting or connected. -/
  last : ∀ id, ok l (.disconnect id) → l.MayLeave cfg id → l.done = false → (l.termMsgCb id).done = true →
    ∀ c ∈ (l.termMsgCb id).server.clients, c.connecting = false ∧ c.bootstrapped = false

/-! ### Every step -/

variable {l} {l' : ServerLife} {cfg : ServerCfg}

/-- The counters and the ids. -/
structure Kept (l : ServerLife) : Prop where
  /-- The counters. -/
  tally : l.server.Tally
  /-- The ids. -/
  ids : l.ids = List.range l.server.clients.length

theorem Kept.accept (h : l.Kept) : l.oobServerListen.Kept := by
  refine ⟨h.tally.oobServerListen, ?_⟩
  have hid : l.server.generateUniqueClientId = l.server.clients.length := h.tally.total
  simp only [ServerLife.oobServerListen, hid, h.tally.total.oobServerListen_clients, List.length_append,
    List.length_singleton, List.range_succ, h.ids]

/-- What does not change the number of clients keeps the ids. -/
theorem Kept.of_length (h : l.Kept) {s : Server} (hs : s.Tally) (hlen : s.clients.length = l.server.clients.length) :
    ({ l with server := s } : ServerLife).Kept :=
  ⟨hs, by rw [h.ids, hlen]⟩

/-- A pass opens no slot. -/
theorem length_loop (now : ℕ → BootStep → Bool) (ok : ℕ → Bool) (n idx i : ℕ) (s : Server) :
    (Server.loop cfg now ok n idx i s).clients.length = s.clients.length := by
  induction n generalizing idx i s with
  | zero => rfl
  | succ n ih =>
    have hv : (s.visitSlot cfg now ok idx).clients.length = s.clients.length := by
      unfold Server.visitSlot
      dsimp only
      split <;> exact List.length_set
    unfold Server.loop
    split
    · split
      · split
        · exact hv
        · rw [ih, hv]
      · exact ih _ _ s
    · rfl

theorem Kept.step {a : ServerAct} (h : l.Kept) (hok : l.Settled a) (hs : ServerLife.step cfg l a = some l') :
    l'.Kept := by
  cases a with
  | accept =>
    cases hs
    exact h.accept
  | progress now ok =>
    cases hs
    have hs : serverStep cfg l.server (.progress now ok) = some (l.server.progressServerEcontext cfg now ok) := rfl
    exact h.of_length (h.tally.step (by simp) hs) (length_loop now ok _ _ _ _)
  | completion idx q =>
    obtain ⟨s, hstep, rfl⟩ := Option.map_eq_some_iff.1 hs
    apply h.of_length (h.tally.step (by simp) hstep)
    obtain ⟨c, -, rfl⟩ := Option.map_eq_some_iff.1 hstep
    exact List.length_set
  | disconnect id =>
    simp only [ServerLife.step] at hs
    split at hs
    · cases hs
      have hk := h.of_length (h.tally.termMsgCb hok) List.length_set
      exact ⟨hk.tally, hk.ids⟩
    · cases hs

/-- What the counters say at a termination message. -/
theorem Kept.counted (h : l.Kept) : l.Counted cfg Settled := by
  refine ⟨h.ids, h.tally.ongoing, h.tally.connected, fun id hok hmay => ?_, fun id hok hmay hdone hnow c hc => ?_⟩
  · -- the client is one of those counted
    have hphase : (l.server.slot id).boot.phase = .bootstrapDone := hok
    have hmem : l.server.slot id ∈ l.server.clients := by
      rw [Server.slot, List.getD_eq_getElem _ _ hmay.1]
      exact List.getElem_mem hmay.1
    rw [h.tally.connected, Int.natCast_ne_zero]
    exact (List.countP_pos_iff.2 ⟨_, hmem, decide_eq_true hphase⟩).ne'
  · have ht := h.tally.termMsgCb hok
    simp only [ServerLife.termMsgCb, hdone, Bool.false_or, Bool.and_eq_true, beq_iff_eq] at hnow
    have hcon := ht.ongoing.symm.trans hnow.2
    have hboot := Int.natCast_eq_zero.1 (ht.connected.symm.trans hnow.1)
    exact ⟨Bool.not_eq_true _ ▸ List.countP_eq_zero.1 hcon c hc, Bool.not_eq_true _ ▸ List.countP_eq_zero.1 hboot c hc⟩

end ServerLife

/-- **Ids, counters and the end of a server are right** in every run in which each termination message comes from
a client that is connected. -/
theorem clients_counted {cfg : ServerCfg} {l : ServerLife}
    (h : Reach (ServerLife.step cfg) (fun l a => l.Settled a) ServerLife.start l) :
    l.Counted cfg ServerLife.Settled := by
  have hk : l.Kept := h.invariant ⟨⟨rfl, rfl, rfl⟩, rfl⟩ fun _ _ _ hk hok hs => hk.step hok hs
  exact hk.counted

instance ServerLife.decidableSettled (l : ServerLife) : (a : ServerAct) → Decidable (l.Settled a)
  | .disconnect id => inferInstanceAs (Decidable ((l.server.slot id).boot.phase = .bootstrapDone))
  | .accept | .progress _ _ | .completion _ _ => inferInstanceAs (Decidable True)

/-- Two clients connect, one leaves: the other is the client connected. -/
theorem clients_counted_two : ∃ l, Reach (ServerLife.step ⟨false, .hostDpu, false⟩) (fun l a => l.Settled a)
    ServerLife.start l ∧ l.ids = [0, 1] ∧ l.server.clients.map Conn.bootstrapped = [true, false] ∧
      l.Counted ⟨false, .hostDpu, false⟩ ServerLife.Settled := by
  obtain ⟨l, hl, hids, hboot⟩ : ∃ l, Reach (ServerLife.step ⟨false, .hostDpu, false⟩) (fun l a => l.Settled a)
      ServerLife.start l ∧ l.ids = [0, 1] ∧ l.server.clients.map Conn.bootstrapped = [true, false] :=
    exists_reach_of_exec [.accept, .accept, .progress (fun _ _ => true) (fun _ => true),
      .progress (fun _ _ => true) (fun _ => true), .disconnect 1] (by decide)
  exact ⟨l, hl, hids, hboot, clients_counted hl⟩

/-- **Not in every run.** An SP and a process of a host: the data of the fourth step has arrived there, and the
process leaves before the callback of the SP's send ran. -/
theorem not_clients_counted : ¬ ∀ cfg l, Reach (ServerLife.step cfg) (fun _ _ => True) ServerLife.start l →
    l.Counted cfg fun _ _ => True := by
  intro h
  obtain ⟨l, hl, hcon, hboot⟩ : ∃ l, Reach (ServerLife.step ⟨true, .hostDpu, true⟩) (fun _ _ => True)
      ServerLife.start l ∧ l.server.numConnected = -1 ∧ l.server.clients.map Conn.bootstrapped = [false] :=
    exists_reach_of_exec [.accept, .progress (fun _ s => s ≠ .step4) (fun _ => true), .disconnect 0] (by decide)
  have hc := (h _ l hl).connected
  have hcount : (l.server.clients.map Conn.bootstrapped).countP id = l.server.clients.countP Conn.bootstrapped :=
    List.countP_map
  rw [hcon, ← hcount, hboot] at hc
  exact absurd hc (by decide)

end DpuOffload
