import DpuOffload.Bootstrap.Clients
import DpuOffload.Lib.DynArray

/-!
# The slots of the clients

The clients of a server are in an array that grows. The server gives each of the slots there are
at the start an array of its own (`server_init_context`), where the indices of the cache entries of the
client go (`add_cache_entry_for_new_client`); the slots that come when the array grows are
filled with zeroes.

* `Kept.step` — what holds of the slots in every run: the first 256 have been initialised, and
  the others are zero.
* `client_slot_iff` — **a client can use its slot** exactly when it is one of the first 256.
* `not_client_slot` — the slot of the next one has no array.
-/

namespace DpuOffload

open Transition

/-! ### The data model -/

/-- `peer_cache_entry_index_t`. -/
structure PeerCacheEntryIndex where
  /-- `group_uid`. -/
  groupUid : ℤ
  /-- `rank`. -/
  rank : ℤ
  /-- `group_size`. -/
  groupSize : ℤ
  deriving DecidableEq, Repr

/-- An index that is all zero. -/
def PeerCacheEntryIndex.zero : PeerCacheEntryIndex := ⟨0, 0, 0⟩

/-- What a slot (`peer_info_t`) has beside the bootstrapping. -/
structure PeerSlot where
  /-- `id`. -/
  id : ℕ
  /-- `ctx.complete`. -/
  ctxComplete : Bool
  /-- `cache_entry_index_data`. -/
  cacheEntryIndexData : DynArray PeerCacheEntryIndex
  deriving DecidableEq

/-- A slot that is all zero. -/
def PeerSlot.zero : PeerSlot := ⟨0, false, .zero⟩

/-- `DEFAULT_MAX_NUM_CLIENTS`. -/
def DEFAULT_MAX_NUM_CLIENTS : ℕ := 256

/-- `MAX_CACHE_ENTRIES_PER_PROC`. -/
def MAX_CACHE_ENTRIES_PER_PROC : ℕ := 8

/-- What `server_init_context` does to a slot. The bootstrapping is said not to have been initiated, nor any of its
steps to be complete, which memory that is all zero says too (`Bootstrapping.reset`). -/
def PeerSlot.init (slot : PeerSlot) : PeerSlot :=
  { slot with ctxComplete := false, cacheEntryIndexData := .alloc .zero MAX_CACHE_ENTRIES_PER_PROC }

/-- A slot as `server_init_context` leaves it. -/
def PeerSlot.initial : PeerSlot := PeerSlot.zero.init

/-- A server with the slots of its clients. -/
structure SlotServer where
  /-- The server. -/
  life : ServerLife
  /-- The slots (`connected_clients.clients`). -/
  slots : DynArray PeerSlot

/-- What happens to the slots. -/
inductive SlotAct where
  /-- What happens to the server. -/
  | server (a : ServerAct)
  /-- The cache entry of a client is added. -/
  | cacheEntry (idx : ℕ) (item : PeerCacheEntryIndex)

namespace SlotServer

/-- `server_init_context`: the slots are allocated and initialised. -/
def serverInitContext : Option SlotServer :=
  ((DynArray.alloc PeerSlot.zero DEFAULT_MAX_NUM_CLIENTS).forEach .zero (fun _ slot => slot.init)
    DEFAULT_MAX_NUM_CLIENTS).map fun slots => ⟨ServerLife.start, slots⟩

variable (s : SlotServer)

/-- A slot. -/
def slot (idx : ℕ) : PeerSlot := s.slots.elts.getD idx .zero

/-- The slot that a new client gets, with its bootstrapping, before its connection starts. -/
def newSlot : Option (Conn × PeerSlot) :=
  let id := s.life.server.generateUniqueClientId
  (s.slots.getElt .zero id).map fun slots => (s.life.server.slot id, slots.elts.getD id .zero)

/-- `oob_server_listen`. -/
def oobServerListen : Option SlotServer :=
  let id := s.life.server.generateUniqueClientId
  (s.slots.getElt .zero id).map fun slots =>
    { life := s.life.oobServerListen, slots := slots.set id { slots.elts.getD id .zero with id := id } }

/-- `add_cache_entry_for_new_client`, as far as the slot of the client goes. -/
def addCacheEntryForNewClient (idx : ℕ) (item : PeerCacheEntryIndex) : Option SlotServer :=
  (s.slots.getElt .zero idx).bind fun slots =>
    let clientInfo := slots.elts.getD idx .zero
    (clientInfo.cacheEntryIndexData.getElt .zero 0).map fun data =>
      { s with slots := slots.set idx { clientInfo with cacheEntryIndexData := data.set 0 item } }

/-- Is the cache entry of a client added? It is a process of the host, and its bootstrapping is done. -/
def MayEnter (cfg : ServerCfg) (idx : ℕ) : Prop :=
  cfg.onDpu = true ∧ cfg.scope = .hostDpu ∧ idx < s.life.server.clients.length ∧
    (s.life.server.slot idx).boot.phase = .bootstrapDone

instance decidableMayEnter (cfg : ServerCfg) (idx : ℕ) : Decidable (s.MayEnter cfg idx) :=
  inferInstanceAs (Decidable (_ ∧ _ ∧ _ ∧ _))

/-- One step of a server with its slots. -/
def step (cfg : ServerCfg) (s : SlotServer) : SlotAct → Option SlotServer
  | .server .accept => s.oobServerListen
  | .server a => (ServerLife.step cfg s.life a).map fun life => { s with life := life }
  | .cacheEntry idx item => if s.MayEnter cfg idx then s.addCacheEntryForNewClient idx item else none

end SlotServer

/-! ### The numbers of the clients -/

namespace ServerLife

variable {cfg : ServerCfg} {l l' : ServerLife}

/-- Every client accepted is in the list and has been counted. -/
structure Numbered (l : ServerLife) : Prop where
  /-- The counters. -/
  total : l.server.Numbered
  /-- The ids. -/
  ids : l.ids.length = l.server.clients.length

/-- The slot of the next client is the one behind those of the clients. -/
theorem Numbered.slot (h : l.Numbered) : l.server.slot l.server.generateUniqueClientId = Conn.reset :=
  List.getD_eq_default _ _ (Nat.le_of_eq h.total.symm)

theorem Numbered.accept (h : l.Numbered) : l.oobServerListen.Numbered where
  total := h.total.oobServerListen
  ids := by
    have hlen := congrArg List.length h.total.oobServerListen_clients
    rw [List.length_append] at hlen
    exact List.length_append.trans ((congrArg (· + 1) h.ids).trans hlen.symm)

/-- Only where a client is accepted there is a new slot. -/
theorem length_step {a : ServerAct} (ha : a ≠ .accept) (hs : ServerLife.step cfg l a = some l') :
    l'.server.clients.length = l.server.clients.length := by
  cases a with
  | accept => exact absurd rfl ha
  | progress now ok =>
    cases hs
    exact length_loop now ok _ _ _ _
  | completion idx q =>
    obtain ⟨s, hstep, rfl⟩ := Option.map_eq_some_iff.1 hs
    obtain ⟨c, -, rfl⟩ := Option.map_eq_some_iff.1 hstep
    exact List.length_set
  | disconnect id =>
    simp only [ServerLife.step] at hs
    split at hs
    · cases hs
      exact List.length_set
    · cases hs

theorem Numbered.step {a : ServerAct} (h : l.Numbered) (hs : ServerLife.step cfg l a = some l') : l'.Numbered := by
  have hlen := fun ha : a ≠ .accept => length_step ha hs
  cases a with
  | accept =>
    cases hs
    exact h.accept
  | progress now ok =>
    have hlen := hlen (by simp)
    cases hs
    exact ⟨h.total.progressServerEcontext now ok, h.ids.trans hlen.symm⟩
  | completion idx q =>
    have hlen := hlen (by simp)
    obtain ⟨s, hstep, rfl⟩ := Option.map_eq_some_iff.1 hs
    obtain ⟨c, -, rfl⟩ := Option.map_eq_some_iff.1 hstep
    exact ⟨h.total.trans hlen.symm, h.ids.trans hlen.symm⟩
  | disconnect id =>
    have hlen := hlen (by simp)
    simp only [ServerLife.step] at hs
    split at hs
    · cases hs
      exact ⟨h.total.trans hlen.symm, h.ids.trans hlen.symm⟩
    · cases hs

end ServerLife

/-! ### What holds of the slots -/

/-- A slot that no client has had. -/
def PeerSlot.unused (idx : ℕ) : PeerSlot := if idx < DEFAULT_MAX_NUM_CLIENTS then .initial else .zero

namespace SlotServer

variable {cfg : ServerCfg} {s s' s₀ : SlotServer}

/-- **What holds of the slots**: those there were at the start have an array, and the others have none. -/
structure Kept (s : SlotServer) : Prop where
  /-- The numbers of the clients. -/
  numbered : s.life.Numbered
  /-- There are slots. -/
  allocated : s.slots.capacity ≠ 0
  /-- There can be more. -/
  grows : 0 < s.slots.allocationSize
  /-- The slots behind those of the clients. -/
  unused : ∀ idx, s.life.server.clients.length ≤ idx → s.slot idx = .unused idx
  /-- A slot there was at the start. -/
  initialised : ∀ idx < DEFAULT_MAX_NUM_CLIENTS, (s.slot idx).cacheEntryIndexData.capacity ≠ 0 ∧
    0 < (s.slot idx).cacheEntryIndexData.allocationSize
  /-- Any other slot. -/
  zeroFilled : ∀ idx, DEFAULT_MAX_NUM_CLIENTS ≤ idx → (s.slot idx).cacheEntryIndexData = .zero

/-- The slots at the start. -/
theorem exists_serverInitContext : ∃ s, serverInitContext = some s ∧ s.life = ServerLife.start ∧ s.Kept := by
  have hpos : 0 < DEFAULT_MAX_NUM_CLIENTS := by decide
  obtain ⟨b, hb, hcap, hsize, hslot⟩ := @DynArray.exists_forEach _ (.alloc PeerSlot.zero DEFAULT_MAX_NUM_CLIENTS) .zero
    (by rw [DynArray.capacity_alloc]; exact hpos.ne') hpos (fun _ slot => slot.init) DEFAULT_MAX_NUM_CLIENTS
  have hunused : ∀ idx, b.elts.getD idx .zero = .unused idx := by
    intro idx
    rw [hslot, (DynArray.holds_alloc PeerSlot.zero hpos).getD, List.getD_nil]
    rfl
  refine ⟨⟨ServerLife.start, b⟩, by rw [serverInitContext, hb]; rfl, rfl, ⟨rfl, rfl⟩, hcap, hsize ▸ hpos,
    fun idx _ => hunused idx, fun idx hidx => ?_, fun idx hidx => ?_⟩
  · rw [slot, hunused, PeerSlot.unused, if_pos hidx]
    exact ⟨by decide, by decide⟩
  · rw [slot, hunused, PeerSlot.unused, if_neg (Nat.not_lt.2 hidx)]
    rfl

/-- What does not change the number of clients, nor a slot. -/
theorem Kept.of_life (h : s.Kept) {life : ServerLife} (hn : life.Numbered)
    (hlen : life.server.clients.length = s.life.server.clients.length) : ({ s with life := life } : SlotServer).Kept :=
  ⟨hn, h.allocated, h.grows, fun idx hidx => h.unused idx (hlen ▸ hidx), h.initialised, h.zeroFilled⟩

/-- What changes the slot of a client, and leaves it the array that it has. -/
theorem Kept.of_slots (h : s.Kept) {life : ServerLife} (hn : life.Numbered)
    (hlen : s.life.server.clients.length ≤ life.server.clients.length) {idx : ℕ}
    (hidx : idx < life.server.clients.length) {slots : DynArray PeerSlot} {x : PeerSlot} (hcap : slots.capacity ≠ 0)
    (hgrow : 0 < slots.allocationSize) (hset : ∀ i, slots.elts.getD i .zero = if i = idx then x else s.slot i)
    (hinit : idx < DEFAULT_MAX_NUM_CLIENTS →
      x.cacheEntryIndexData.capacity ≠ 0 ∧ 0 < x.cacheEntryIndexData.allocationSize)
    (hzero : DEFAULT_MAX_NUM_CLIENTS ≤ idx → x.cacheEntryIndexData = .zero) :
    (⟨life, slots⟩ : SlotServer).Kept := by
  have hother : ∀ i, i ≠ idx → (⟨life, slots⟩ : SlotServer).slot i = s.slot i :=
    fun i hi => (hset i).trans (if_neg hi)
  have hown : (⟨life, slots⟩ : SlotServer).slot idx = x := (hset idx).trans (if_pos rfl)
  refine ⟨hn, hcap, hgrow, fun i hi => ?_, fun i hi => ?_, fun i hi => ?_⟩
  · have hne : i ≠ idx := fun he => absurd hidx (Nat.not_lt.2 (he ▸ hi))
    rw [hother i hne]
    exact h.unused i (hlen.trans hi)
  · by_cases he : i = idx
    · rw [he, hown]
      exact hinit (he ▸ hi)
    · rw [hother i he]
      exact h.initialised i hi
  · by_cases he : i = idx
    · rw [he, hown]
      exact hzero (he ▸ hi)
    · rw [hother i he]
      exact h.zeroFilled i hi

/-- A client is accepted, whichever the number of its slot. -/
theorem Kept.exists_accept (h : s.Kept) : ∃ s', s.oobServerListen = some s' ∧ s'.life = s.life.oobServerListen ∧
    s'.Kept := by
  obtain ⟨b, hb, hid, hset⟩ := DynArray.exists_getElt_set (z := .zero) h.allocated h.grows
    s.life.server.generateUniqueClientId
  obtain ⟨hcap, hsize, helt⟩ := hset { s.slot s.life.server.generateUniqueClientId with
    id := s.life.server.generateUniqueClientId }
  have hlen : s.life.oobServerListen.server.clients.length = s.life.server.clients.length + 1 := by
    rw [← h.numbered.accept.ids, ← h.numbered.ids]
    exact List.length_append
  have hgid : s.life.server.generateUniqueClientId = s.life.server.clients.length := h.numbered.total
  exact ⟨_, by rw [oobServerListen, hb, Option.map_some, hid]; rfl, rfl, h.of_slots h.numbered.accept (by omega)
    (by omega) hcap (hsize ▸ h.grows) helt (h.initialised _) (h.zeroFilled _)⟩

/-- The cache entry of a client is added: its slot is one of the first. -/
theorem Kept.cacheEntry (h : s.Kept) {idx : ℕ} {item : PeerCacheEntryIndex}
    (hidx : idx < s.life.server.clients.length) (hs : s.addCacheEntryForNewClient idx item = some s') : s'.Kept := by
  obtain ⟨b, hb, hn, hset⟩ := DynArray.exists_getElt_set (z := .zero) h.allocated h.grows idx
  rw [addCacheEntryForNewClient, hb, Option.bind_some, hn] at hs
  obtain ⟨data, hdata, rfl⟩ := Option.map_eq_some_iff.1 hs
  obtain ⟨hcap, hsize, helt⟩ := hset { s.slot idx with cacheEntryIndexData := data.set 0 item }
  obtain ⟨hlt, hgrow, -⟩ := DynArray.access_eq_some hdata
  refine h.of_slots h.numbered (Nat.le_refl _) hidx hcap (hsize ▸ h.grows) helt (fun hfirst => ⟨?_, ?_⟩) fun hge => ?_
  · rw [DynArray.capacity_set]
    exact (Nat.zero_lt_of_lt hlt).ne'
  · rw [DynArray.allocationSize_set, hgrow]
    exact (h.initialised idx hfirst).2
  · -- no element of such an array can be accessed
    rw [show (s.slots.elts.getD idx .zero).cacheEntryIndexData = .zero from h.zeroFilled idx hge] at hdata
    cases hdata

theorem step_server {a : ServerAct} (ha : a ≠ .accept) : SlotServer.step cfg s (.server a) =
    (ServerLife.step cfg s.life a).map fun life => { s with life := life } := by
  cases a with
  | accept => exact absurd rfl ha
  | progress now ok => rfl
  | completion idx q => rfl
  | disconnect id => rfl

theorem Kept.step {a : SlotAct} (h : s.Kept) (hs : SlotServer.step cfg s a = some s') : s'.Kept := by
  cases a with
  | server a =>
    by_cases ha : a = .accept
    · subst ha
      obtain ⟨s'', hs'', -, hk⟩ := h.exists_accept
      cases hs''.symm.trans hs
      exact hk
    · rw [step_server ha] at hs
      obtain ⟨life, hlife, rfl⟩ := Option.map_eq_some_iff.1 hs
      exact h.of_life (h.numbered.step hlife) (ServerLife.length_step ha hlife)
  | cacheEntry idx item =>
    simp only [SlotServer.step] at hs
    split at hs
    · rename_i hmay
      exact h.cacheEntry hmay.2.2.1 hs
    · cases hs

theorem kept_of_reach (h₀ : serverInitContext = some s₀) (h : Reach (SlotServer.step cfg) (fun _ _ => True) s₀ s) :
    s.Kept := by
  obtain ⟨s₁, hs₁, -, hk⟩ := exists_serverInitContext
  cases hs₁.symm.trans h₀
  exact h.invariant hk fun _ _ _ hk _ hs => hk.step hs

end SlotServer

/-- **A client can use its slot exactly when it is one of the first 256.** In every run of a server, a client gets the
slot with the number of clients accepted before it; before its connection starts that slot is as `server_init_context`
leaves a slot exactly when it is one of those there were at the start; and of a client that has been accepted, the
access to its array in `add_cache_entry_for_new_client` ends, and succeeds, exactly when the same holds of its slot. -/
theorem client_slot_iff {cfg : ServerCfg} {s₀ s : SlotServer} (h₀ : SlotServer.serverInitContext = some s₀)
    (h : Reach (SlotServer.step cfg) (fun _ _ => True) s₀ s) :
    s.life.server.generateUniqueClientId = s.life.ids.length ∧
    (s.newSlot = some (Conn.reset, .initial) ↔ s.life.ids.length < DEFAULT_MAX_NUM_CLIENTS) ∧
    ∀ c < s.life.ids.length,
      (∃ fuel data, (s.slot c).cacheEntryIndexData.access .zero fuel 0 = some data) ↔ c < DEFAULT_MAX_NUM_CLIENTS := by
  have hk := SlotServer.kept_of_reach h₀ h
  have hid : s.life.server.generateUniqueClientId = s.life.ids.length := hk.numbered.total.trans hk.numbered.ids.symm
  refine ⟨hid, ?_, fun c _ => ?_⟩
  · obtain ⟨b, hb⟩ := DynArray.exists_getElt (z := .zero) hk.allocated hk.grows s.life.ids.length
    have hunused : b.elts.getD s.life.ids.length .zero = .unused s.life.ids.length :=
      (DynArray.getD_access hb _).trans (hk.unused _ hk.numbered.ids.ge)
    have hslot := hk.numbered.slot
    rw [hid] at hslot
    rw [SlotServer.newSlot, hid, hb, Option.map_some, hslot, hunused, PeerSlot.unused]
    split
    · exact iff_of_true rfl ‹_›
    · refine iff_of_false (fun he => ?_) ‹_›
      have hz : PeerSlot.zero = .initial := (Prod.mk.inj (Option.some.inj he)).2
      exact absurd hz (by decide)
  · rw [DynArray.exists_access_iff]
    constructor
    · rintro ⟨hcap, -⟩
      by_contra hge
      rw [hk.zeroFilled c (Nat.le_of_not_lt hge)] at hcap
      exact hcap rfl
    · intro hlt
      exact ⟨(hk.initialised c hlt).1, .inr (hk.initialised c hlt).2⟩

/-- One client is accepted: its slot has an array. -/
theorem client_slot_one : ∃ s₀ s, SlotServer.serverInitContext = some s₀ ∧
    Reach (SlotServer.step ⟨true, .hostDpu, false⟩) (fun _ _ => True) s₀ s ∧ s.life.ids.length = 1 ∧
    ∃ fuel data, (s.slot 0).cacheEntryIndexData.access .zero fuel 0 = some data := by
  obtain ⟨s₀, h₀, hlife, hk⟩ := SlotServer.exists_serverInitContext
  obtain ⟨s, hs, hl, -⟩ := hk.exists_accept
  have hr : Reach (SlotServer.step ⟨true, .hostDpu, false⟩) (fun _ _ => True) s₀ s :=
    .tail .refl trivial (show SlotServer.step _ s₀ (.server .accept) = some s from hs)
  have hone : s.life.ids.length = 1 := by
    rw [hl, hlife]
    rfl
  exact ⟨s₀, s, h₀, hr, hone, ((client_slot_iff h₀ hr).2.2 0 (by omega)).2 (by decide)⟩

/-- Any number of clients may be accepted. -/
theorem SlotServer.exists_reach {cfg : ServerCfg} {s₀ : SlotServer} (h₀ : SlotServer.serverInitContext = some s₀)
    (n : ℕ) : ∃ s, Reach (SlotServer.step cfg) (fun _ _ => True) s₀ s ∧ s.life.ids.length = n := by
  induction n with
  | zero =>
    obtain ⟨s, hs, hlife, -⟩ := exists_serverInitContext
    cases hs.symm.trans h₀
    exact ⟨s₀, .refl, by rw [hlife]; rfl⟩
  | succ n ih =>
    obtain ⟨s, hr, hn⟩ := ih
    obtain ⟨s', hs', hl, -⟩ := (kept_of_reach h₀ hr).exists_accept
    have hstep : SlotServer.step cfg s (.server .accept) = some s' := hs'
    exact ⟨s', .tail hr trivial hstep, by rw [hl, ServerLife.oobServerListen, List.length_append, hn]; rfl⟩

/-- **The slot of the next client has no array**, when 256 clients have been accepted before it. -/
theorem not_client_slot : ¬ ∀ (cfg : ServerCfg) (s₀ s : SlotServer), SlotServer.serverInitContext = some s₀ →
    Reach (SlotServer.step cfg) (fun _ _ => True) s₀ s → ∀ c < s.life.ids.length,
    ∃ fuel data, (s.slot c).cacheEntryIndexData.access .zero fuel 0 = some data := by
  intro hall
  obtain ⟨s₀, h₀, -⟩ := SlotServer.exists_serverInitContext
  obtain ⟨s, hr, hn⟩ := @SlotServer.exists_reach ⟨true, .hostDpu, false⟩ s₀ h₀ 257
  obtain ⟨fuel, data, hdata⟩ := hall _ s₀ s h₀ hr 256 (by omega)
  rw [(SlotServer.kept_of_reach h₀ hr).zeroFilled 256 (by decide)] at hdata
  cases hdata

end DpuOffload
