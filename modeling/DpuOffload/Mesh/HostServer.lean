import DpuOffload.Mesh.Identity
import Mathlib.Data.List.ReduceOption

/-!
# The server that serves the host

An SP has a server for other SPs and, once it has been started, one for its host. The server of
the host is found by its scope, from the end of the list of servers on (`get_server_servicing_host`);
the index is unsigned, so that the loop does not end before it has found one. A message of
the host is handled by the last server of the list (`get_associated_econtext`).

* `serverLoop_spec` — what the loop returns, when it returns.
* `exists_serverLoop` — it does not go on forever.
* `host_server_iff` — **the server of the host is found** exactly when there is one.
* `host_server_not_started` — an SP whose server for the host has not been started.
-/

namespace DpuOffload

/-! ### The data model -/

/-- Why a function does not return a result. -/
inductive Fault where
  /-- It reads outside of the list of servers. -/
  | outside
  /-- An assertion fails. -/
  | assertion
  /-- It returns `DO_ERROR`. -/
  | doError
  deriving DecidableEq, Repr

/-- The servers of an engine, and what else decides who gets a message. An execution context is named by a number. -/
structure ServersEngine where
  /-- `on_dpu`. -/
  onDpu : Bool
  /-- `servers.list`, up to `servers.num`; behind that it is zero. -/
  servers : List (Option ℕ)
  /-- `servers.num` is of type `size_t`. -/
  num_lt : servers.length < 2 ^ 64
  /-- The scopes of the execution contexts. -/
  scopeId : ℕ → Scope
  /-- `clients.bootstrap_econtext`. -/
  bootstrapEcontext : Option ℕ
  /-- The execution contexts of the connections to other SPs. -/
  clientLookupTable : ClientLookupTable
  /-- `config->local_service_proc.info.global_id`. -/
  globalId : ℕ

/-- What the header of a message (`am_header_t`) says of the sender. -/
structure SenderHeader where
  /-- `scope_id`. -/
  scopeId : Scope
  /-- `sender_type`. -/
  senderType : ContextType
  /-- `client_id`. -/
  clientId : ℕ
  /-- `server_id`. -/
  serverId : ℕ

/-! ### The code -/

/-- The loop of `get_server_servicing_host` over an index of type `size_t`, given up after `fuel` tests. -/
def serverLoop (servers : List (Option ℕ)) (scopeId : ℕ → Scope) :
    ℕ → ℕ → Option (Except Fault (Option ℕ))
  | 0, _ => none
  | fuel + 1, i =>
    if 0 ≤ i then
      match servers[i]? with
      | none => some (.error .outside)
      | some none => serverLoop servers scopeId fuel (sizeT ((i : ℤ) - 1))
      | some (some ec) =>
        if scopeId ec = .hostDpu then some (.ok (some ec)) else serverLoop servers scopeId fuel (sizeT ((i : ℤ) - 1))
    else some (.ok none)

namespace ServersEngine

/-- The index of the last server. -/
def lastIdx (e : ServersEngine) : ℕ := sizeT ((e.servers.length : ℤ) - 1)

/-- `get_server_servicing_host`. -/
def getServerServicingHost (e : ServersEngine) (fuel : ℕ) : Option (Except Fault (Option ℕ)) :=
  serverLoop e.servers e.scopeId fuel e.lastIdx

/-- `get_associated_econtext`. -/
def getAssociatedEcontext (e : ServersEngine) (fuel : ℕ) (hdr : SenderHeader) : Option (Except Fault (Option ℕ)) :=
  if ¬(hdr.senderType = .client ∨ hdr.senderType = .server) then some (.error .assertion)
  else if hdr.scopeId = .hostDpu then
    if e.onDpu then
      match e.servers[e.lastIdx]? with
      | none => some (.error .outside)
      | some ec => some (.ok ec)
    else some (.ok e.bootstrapEcontext)
  else if e.onDpu = false then some (.error .assertion)
  else
    match hdr.senderType with
    | .server => some (.ok (clientServerLookup e.clientLookupTable hdr.clientId hdr.serverId))
    | .client =>
      if hdr.serverId ≠ e.globalId then some (.error .assertion)
      else if hdr.scopeId = .interServiceProcs then
        match e.servers.getD 0 none with
        | none => some (.error .assertion)
        | some ec => some (.ok (some ec))
      else e.getServerServicingHost fuel
    | _ => some (.error .doError)

end ServersEngine

/-! ### The last server of the host -/

variable (scopeId : ℕ → Scope)

/-- The last server of a list whose scope is the host. -/
def lastHost (servers : List (Option ℕ)) : Option ℕ :=
  (servers.reduceOption.filter fun ec => scopeId ec = .hostDpu).getLast?

/-- The last server of the list whose scope is the host. -/
def ServersEngine.lastHostServer (e : ServersEngine) : Option ℕ := lastHost e.scopeId e.servers

variable {scopeId} {servers : List (Option ℕ)}

theorem lastHost_concat_none (servers : List (Option ℕ)) :
    lastHost scopeId (servers ++ [none]) = lastHost scopeId servers := by
  rw [lastHost, List.reduceOption_append, List.reduceOption_cons_of_none, List.reduceOption_nil, List.append_nil,
    lastHost]

theorem lastHost_concat_some (servers : List (Option ℕ)) (ec : ℕ) : lastHost scopeId (servers ++ [some ec]) =
    if scopeId ec = .hostDpu then some ec else lastHost scopeId servers := by
  rw [lastHost, List.reduceOption_append, List.reduceOption_singleton, Option.toList_some, List.filter_append,
    List.getLast?_append]
  by_cases h : scopeId ec = .hostDpu
  · rw [if_pos h, List.filter_singleton, decide_eq_true h]
    rfl
  · rw [if_neg h, List.filter_singleton, decide_eq_false h]
    rfl

/-- There is none exactly when no server has that scope. -/
theorem lastHost_eq_none : lastHost scopeId servers = none ↔ ¬∃ ec, some ec ∈ servers ∧ scopeId ec = .hostDpu := by
  rw [lastHost, List.getLast?_eq_none_iff, List.filter_eq_nil_iff]
  simp only [List.reduceOption_mem_iff, decide_eq_true_eq, not_exists, not_and]

/-! ### The loop -/

/-- What the loop returns for the servers up to an index: beyond the first one, it reads outside. -/
def serverFound : Option ℕ → Except Fault (Option ℕ)
  | some ec => .ok (some ec)
  | none => .error .outside

theorem sizeT_pred {i : ℕ} (h : i + 1 < 2 ^ 64) : sizeT (((i + 1 : ℕ) : ℤ) - 1) = i := by
  have hpred : ((i + 1 : ℕ) : ℤ) - 1 = (i : ℕ) := by omega
  rw [hpred, sizeT_natCast (by omega)]

/-- **What the loop returns**, when it does. -/
theorem serverLoop_spec (hn : servers.length < 2 ^ 64) {fuel i : ℕ} (hi : i < servers.length)
    {r : Except Fault (Option ℕ)} (h : serverLoop servers scopeId fuel i = some r) :
    r = serverFound (lastHost scopeId (servers.take (i + 1))) := by
  induction fuel generalizing i with
  | zero => cases h
  | succ fuel ih =>
    have hnext : serverLoop servers scopeId fuel (sizeT ((i : ℤ) - 1)) = some r →
        r = serverFound (lastHost scopeId (servers.take i)) := by
      intro h
      cases i with
      | zero =>
        -- the index has become the largest number
        have hnone : servers[sizeT ((0 : ℕ) - 1 : ℤ)]? = none := by
          rw [List.getElem?_eq_none_iff]
          have : sizeT ((0 : ℕ) - 1 : ℤ) = 2 ^ 64 - 1 := by decide
          omega
        cases fuel with
        | zero => cases h
        | succ fuel =>
          rw [serverLoop, if_pos (Nat.zero_le _), hnone] at h
          cases h
          rfl
      | succ i =>
        rw [sizeT_pred (by omega)] at h
        exact ih (by omega) h
    rw [← List.take_append_getElem hi]
    rw [serverLoop, if_pos (Nat.zero_le i), List.getElem?_eq_getElem hi] at h
    cases hslot : servers[i] with
    | none =>
      rw [hslot] at h
      rw [lastHost_concat_none]
      exact hnext h
    | some ec =>
      rw [hslot] at h
      dsimp only at h
      rw [lastHost_concat_some]
      by_cases hec : scopeId ec = .hostDpu
      · rw [if_pos hec] at h ⊢
        cases h
        rfl
      · rw [if_neg hec] at h ⊢
        exact hnext h

/-- **It does not go on forever.** -/
theorem exists_serverLoop (hn : servers.length < 2 ^ 64) {i : ℕ} (hi : i < servers.length) :
    ∃ r, serverLoop servers scopeId (i + 2) i = some r := by
  induction i with
  | zero =>
    have hnone : servers[sizeT ((0 : ℕ) - 1 : ℤ)]? = none := by
      rw [List.getElem?_eq_none_iff]
      have : sizeT ((0 : ℕ) - 1 : ℤ) = 2 ^ 64 - 1 := by decide
      omega
    have hout : serverLoop servers scopeId 1 (sizeT ((0 : ℕ) - 1 : ℤ)) = some (.error .outside) := by
      rw [serverLoop, if_pos (Nat.zero_le _), hnone]
    rw [serverLoop, if_pos (Nat.zero_le _), List.getElem?_eq_getElem hi]
    cases servers[0] with
    | none => exact ⟨_, hout⟩
    | some ec =>
      dsimp only
      by_cases hec : scopeId ec = .hostDpu
      · exact ⟨_, if_pos hec⟩
      · exact ⟨_, by rw [if_neg hec, hout]⟩
  | succ i ih =>
    obtain ⟨r, hr⟩ := ih (by omega)
    rw [serverLoop, if_pos (Nat.zero_le _), List.getElem?_eq_getElem hi, sizeT_pred (by omega)]
    cases servers[i + 1] with
    | none => exact ⟨r, hr⟩
    | some ec =>
      dsimp only
      by_cases hec : scopeId ec = .hostDpu
      · exact ⟨_, if_pos hec⟩
      · exact ⟨r, by rw [if_neg hec, hr]⟩

/-! ### The server of the host -/

namespace ServersEngine

variable (e : ServersEngine)

/-- **What the search returns**: the last server of the host, or it reads outside of the list. -/
theorem getServerServicingHost_spec {fuel : ℕ} {r : Except Fault (Option ℕ)}
    (h : e.getServerServicingHost fuel = some r) : r = serverFound e.lastHostServer := by
  rw [getServerServicingHost, lastIdx] at h
  rcases Nat.eq_zero_or_pos e.servers.length with h0 | hpos
  · -- the index of the last of no servers is the largest number
    have hnil : e.servers = [] := List.length_eq_zero_iff.1 h0
    rw [lastHostServer, hnil]
    rw [hnil] at h
    cases fuel with
    | zero => cases h
    | succ fuel =>
      cases h
      rfl
  · obtain ⟨n, hn⟩ : ∃ n, e.servers.length = n + 1 := ⟨e.servers.length - 1, by omega⟩
    rw [hn, sizeT_pred (hn ▸ e.num_lt)] at h
    have hspec := serverLoop_spec e.num_lt (by omega) h
    rwa [← hn, List.take_length] at hspec

/-- The search ends. -/
theorem exists_getServerServicingHost : ∃ fuel r, e.getServerServicingHost fuel = some r := by
  simp only [getServerServicingHost, lastIdx]
  rcases Nat.eq_zero_or_pos e.servers.length with h0 | hpos
  · have hnil : e.servers = [] := List.length_eq_zero_iff.1 h0
    rw [hnil]
    exact ⟨1, .error .outside, rfl⟩
  · obtain ⟨n, hn⟩ : ∃ n, e.servers.length = n + 1 := ⟨e.servers.length - 1, by omega⟩
    rw [hn, sizeT_pred (hn ▸ e.num_lt)]
    exact ⟨n + 2, exists_serverLoop e.num_lt (by omega)⟩

/-- A message of a host is handled by the last server. -/
theorem getAssociatedEcontext_host (hd : e.onDpu = true) {ec : ℕ} (hlast : e.servers.getLast? = some (some ec))
    {hdr : SenderHeader} (hs : hdr.scopeId = .hostDpu) (ht : hdr.senderType = .client ∨ hdr.senderType = .server)
    (fuel : ℕ) : e.getAssociatedEcontext fuel hdr = some (.ok (some ec)) := by
  have hget : e.servers[e.lastIdx]? = some (some ec) := by
    have hne : e.servers ≠ [] := by
      intro hnil
      rw [hnil] at hlast
      cases hlast
    obtain ⟨n, hn⟩ : ∃ n, e.servers.length = n + 1 :=
      Nat.exists_eq_add_one_of_ne_zero (List.length_pos_iff.2 hne).ne'
    rw [lastIdx, hn, sizeT_pred (hn ▸ e.num_lt), ← hlast, List.getLast?_eq_getElem?, hn, Nat.add_sub_cancel]
  rw [getAssociatedEcontext, if_neg (not_not.2 ht), if_pos hs, hd, if_pos rfl, hget]

/-- **The server of the host is found**, and it is the one that handles the messages of the host where it is the last of
the list, exactly when there is a server with that scope. -/
theorem host_server_iff :
    ((∃ fuel, e.getServerServicingHost fuel = some (.ok e.lastHostServer)) ∧
      (e.onDpu = true → ∀ ec, e.servers.getLast? = some (some ec) → e.scopeId ec = .hostDpu →
        ∀ hdr : SenderHeader, hdr.scopeId = .hostDpu → hdr.senderType = .client ∨ hdr.senderType = .server →
        ∀ fuel, e.getAssociatedEcontext fuel hdr = some (.ok e.lastHostServer))) ↔
      ∃ ec, some ec ∈ e.servers ∧ e.scopeId ec = .hostDpu := by
  constructor
  · rintro ⟨⟨fuel, hfuel⟩, -⟩
    by_contra hno
    have hnone : e.lastHostServer = none := lastHost_eq_none.2 hno
    have hspec := e.getServerServicingHost_spec hfuel
    rw [hnone] at hspec
    cases hspec
  · intro hex
    obtain ⟨ec, hec⟩ : ∃ ec, e.lastHostServer = some ec := by
      cases hlast : e.lastHostServer with
      | none => exact absurd hex (lastHost_eq_none.1 hlast)
      | some ec => exact ⟨ec, rfl⟩
    refine ⟨?_, fun hd ec' hlast hscope hdr hs ht fuel => ?_⟩
    · obtain ⟨fuel, r, hr⟩ := e.exists_getServerServicingHost
      have hspec := e.getServerServicingHost_spec hr
      rw [hec] at hspec ⊢
      exact ⟨fuel, hr.trans (congrArg some hspec)⟩
    · have hlasthost : e.lastHostServer = some ec' := by
        obtain ⟨init, hinit⟩ := List.getLast?_eq_some_iff.1 hlast
        rw [lastHostServer, hinit, lastHost_concat_some, if_pos hscope]
      rw [hlasthost]
      exact e.getAssociatedEcontext_host hd hlast hs ht fuel

end ServersEngine

/-- An SP whose server for other SPs has been started, and whose server for the host has not. -/
def interSpServerOnly : ServersEngine where
  onDpu := true
  servers := [some 0]
  num_lt := by decide
  scopeId _ := .interServiceProcs
  bootstrapEcontext := none
  clientLookupTable := ∅
  globalId := 0

/-- The search does not find out that there is no server for the host. -/
theorem host_server_not_started : ¬∃ fuel, interSpServerOnly.getServerServicingHost fuel =
    some (.ok interSpServerOnly.lastHostServer) := by
  rintro ⟨fuel, h⟩
  cases interSpServerOnly.getServerServicingHost_spec h

end DpuOffload
