import DpuOffload.Config.Data
import Mathlib.Data.List.AList
import Mathlib.Data.List.Induction
import Mathlib.Data.List.Perm.Basic
import Mathlib.Data.Nat.ModEq

/-!
# The table of the connections to other SPs

An SP is a client of every SP with a higher global id. A notification of such a server comes
with the client id that the server gave to the SP and the global id of the server; the
execution context of the connection is looked up by the two (`client_lookup_table`). The two
numbers are hashed to a key of 64 bits, and a second value for a key is not added.

* `lookup_right_iff` — **the lookups of an SP are right** exactly when no two of its pairs
  have the same key.
* `lookup_wrong` — in a system of 36 SPs they need not be.
-/

namespace DpuOffload

/-! ### The hash -/

/-- `HASH_CLIENT_SERVER`. -/
def hashClientServer (c s : ℕ) : ℕ := hashRound (hashRound 5381 s) c

theorem hashClientServer_eq (c s : ℕ) : hashClientServer c s = (33 * (33 * 5381) + (33 * s + c)) % 2 ^ 64 := by
  rw [hashClientServer, hashRound_eq, hashRound_eq]
  omega

/-- Two pairs have the same key when these numbers agree, as 64 bits. -/
theorem hashClientServer_inj {c s c' s' : ℕ} :
    hashClientServer c s = hashClientServer c' s' ↔ 33 * s + c ≡ 33 * s' + c' [MOD 2 ^ 64] := by
  rw [hashClientServer_eq, hashClientServer_eq]
  exact Nat.ModEq.add_iff_left rfl

/-! ### The table -/

/-- `client_lookup_hash_t`; an execution context is named by a number. -/
abbrev ClientLookupTable := AList fun _ : ℕ => ℕ

/-- `CLIENT_SERVER_ADD`. -/
def clientServerAdd (t : ClientLookupTable) (c s ec : ℕ) : ClientLookupTable :=
  match t.lookup (hashClientServer c s) with
  | none => t.insert (hashClientServer c s) ec
  | some _ => t

/-- `CLIENT_SERVER_LOOKUP`. -/
def clientServerLookup (t : ClientLookupTable) (c s : ℕ) : Option ℕ := t.lookup (hashClientServer c s)

/-- What is in the table stays; what is not is added. -/
theorem lookup_clientServerAdd (t : ClientLookupTable) (c s ec k : ℕ) :
    (clientServerAdd t c s ec).lookup k = (t.lookup k).or (if hashClientServer c s = k then some ec else none) := by
  rw [clientServerAdd]
  cases hl : t.lookup (hashClientServer c s) with
  | none =>
    by_cases hk : hashClientServer c s = k
    · subst hk
      simp [hl]
    · simp [AList.lookup_insert_ne (Ne.symm hk), hk]
  | some v =>
    by_cases hk : hashClientServer c s = k
    · subst hk
      simp [hl]
    · simp [hk]

/-- What the execution context of a client says of its connection. -/
structure InterSpClient where
  /-- The id the server gave it. -/
  id : ℕ
  /-- The global id of the server. -/
  serverGlobalId : ℕ
  deriving DecidableEq, Repr

/-- The key of a client. -/
def InterSpClient.key (c : InterSpClient) : ℕ := hashClientServer c.id c.serverGlobalId

/-- What an engine has of its connections to other SPs. -/
structure InterSpClients where
  /-- `inter_service_proc_clients`. -/
  clients : List InterSpClient
  /-- `client_lookup_table`. -/
  clientLookupTable : ClientLookupTable

namespace InterSpClients

/-- No connection. -/
def start : InterSpClients := ⟨[], ∅⟩

/-- The end of `connect_to_remote_service_proc`: the client is connected. -/
def connected (e : InterSpClients) (c : InterSpClient) : InterSpClients where
  clients := e.clients ++ [c]
  clientLookupTable := clientServerAdd e.clientLookupTable c.id c.serverGlobalId e.clients.length

/-- Connections, one after the other. -/
def connectAll (cs : List InterSpClient) : InterSpClients := cs.foldl connected start

/-- Every client is found. -/
def Right (e : InterSpClients) : Prop :=
  ∀ (i : ℕ) (c : InterSpClient), e.clients[i]? = some c →
    clientServerLookup e.clientLookupTable c.id c.serverGlobalId = some i

/-- The table has the first client with a key. -/
def First (e : InterSpClients) : Prop :=
  ∀ k, e.clientLookupTable.lookup k = e.clients.findIdx? (·.key = k)

variable {e : InterSpClients}

theorem first_start : start.First := fun _ => rfl

theorem First.connected (h : e.First) (c : InterSpClient) : (e.connected c).First := by
  intro k
  change (clientServerAdd _ _ _ _).lookup k = (e.clients ++ [c]).findIdx? _
  rw [lookup_clientServerAdd, h k, List.findIdx?_append, List.findIdx?_singleton]
  change _ = Option.or _ (Option.map _ (if decide (hashClientServer c.id c.serverGlobalId = k) = true then _ else _))
  by_cases hk : hashClientServer c.id c.serverGlobalId = k <;> simp [hk]

theorem connectAll_snoc (cs : List InterSpClient) (c : InterSpClient) :
    connectAll (cs ++ [c]) = (connectAll cs).connected c := by
  rw [connectAll, List.foldl_append]
  rfl

/-- **A whole run of connections.** -/
theorem first_connectAll (cs : List InterSpClient) : (connectAll cs).First ∧ (connectAll cs).clients = cs := by
  induction cs using List.reverseRec with
  | nil => exact ⟨first_start, rfl⟩
  | append_singleton cs c ih =>
    rw [connectAll_snoc]
    refine ⟨ih.1.connected c, ?_⟩
    change (connectAll cs).clients ++ [c] = _
    rw [ih.2]

/-- The lookups are right when no two clients have one key. -/
theorem First.right_iff (h : e.First) :
    e.Right ↔ ∀ (i j : ℕ) (c c' : InterSpClient), e.clients[i]? = some c → e.clients[j]? = some c' → c.key = c'.key → i = j := by
  have hlookup (c : InterSpClient) :
      clientServerLookup e.clientLookupTable c.id c.serverGlobalId = e.clients.findIdx? (·.key = c.key) := h c.key
  constructor
  · intro hr i j c c' hi hj hk
    have h₁ := hr i c hi
    have h₂ := hr j c' hj
    rw [hlookup, hk] at h₁
    rw [hlookup, h₁] at h₂
    exact Option.some.inj h₂
  · intro hinj i c hi
    rw [hlookup]
    cases hf : e.clients.findIdx? (·.key = c.key) with
    | none =>
      have hnone := List.findIdx?_eq_none_iff.1 hf c (List.mem_of_getElem? hi)
      simp at hnone
    | some j =>
      obtain ⟨hj, hk, -⟩ := List.findIdx?_eq_some_iff_getElem.1 hf
      rw [hinj i j c _ hi (List.getElem?_eq_getElem hj) (of_decide_eq_true hk).symm]

end InterSpClients

/-! ### The SPs of a job -/

/-- A job: how many SPs it has, and in which order each of them accepts those with a lower id. -/
structure Mesh where
  /-- The number of SPs. -/
  numSps : ℕ
  /-- An id is of type `uint64_t`. -/
  numSps_lt : numSps < 2 ^ 64
  /-- The clients of a server, in the order it accepts them. -/
  accepted : ℕ → List ℕ
  /-- They are the SPs with a lower id. -/
  accepted_perm : ∀ s < numSps, (accepted s).Perm (List.range s)

namespace Mesh

variable (m : Mesh) (g : ℕ)

/-- The id a server gives to a client (`generate_unique_client_id`): how many it accepted before. -/
def clientId (s : ℕ) : ℕ := (m.accepted s).idxOf g

/-- The servers of an SP. -/
def servers : List ℕ := List.range' (g + 1) (m.numSps - (g + 1))

/-- The connections of an SP, made in some order. -/
def connect (order : List ℕ) : InterSpClients := .connectAll (order.map fun s => ⟨m.clientId g s, s⟩)

variable {m g}

/-- A client id is less than the id of the server. -/
theorem clientId_lt {s : ℕ} (hs : s < m.numSps) (hg : g < s) : m.clientId g s < s := by
  have hp := m.accepted_perm s hs
  have hmem : g ∈ m.accepted s := hp.mem_iff.2 (List.mem_range.2 hg)
  rw [clientId]
  exact (List.idxOf_lt_length_of_mem hmem).trans_eq (hp.length_eq.trans List.length_range)

theorem mem_servers {s : ℕ} : s ∈ m.servers g ↔ g < s ∧ s < m.numSps := by
  rw [servers, List.mem_range'_1]
  omega

end Mesh

/-- Up to 35 SPs the client ids are too close for two keys to agree. -/
theorem Mesh.keys_inj {m : Mesh} (hm : m.numSps ≤ 35) {g : ℕ} :
    ∀ s ∈ m.servers g, ∀ s' ∈ m.servers g,
      33 * s + m.clientId g s ≡ 33 * s' + m.clientId g s' [MOD 2 ^ 64] → s = s' := by
  intro s hs s' hs' hk
  rw [Mesh.mem_servers] at hs hs'
  have hc := Mesh.clientId_lt hs.2 hs.1
  have hc' := Mesh.clientId_lt hs'.2 hs'.1
  have he := Nat.ModEq.eq_of_lt_of_lt hk (by omega) (by omega)
  omega

/-- **The lookups of an SP are right** exactly when no two of its servers gave it ids with which the keys
agree: `33 s + c` and `33 s' + c'` are the same 64 bits. -/
theorem lookup_right_iff (m : Mesh) (g : ℕ) (order : List ℕ) (horder : order.Perm (m.servers g)) :
    (m.connect g order).Right ↔
      ∀ s ∈ m.servers g, ∀ s' ∈ m.servers g,
        33 * s + m.clientId g s ≡ 33 * s' + m.clientId g s' [MOD 2 ^ 64] → s = s' := by
  obtain ⟨hfirst, hclients⟩ := InterSpClients.first_connectAll (order.map fun s => ⟨m.clientId g s, s⟩)
  have hnodup : order.Nodup := horder.nodup_iff.2 List.nodup_range'
  rw [Mesh.connect, hfirst.right_iff, hclients]
  constructor
  · intro h s hs s' hs' hk
    obtain ⟨i, hi⟩ := List.mem_iff_getElem?.1 (horder.mem_iff.2 hs)
    obtain ⟨j, hj⟩ := List.mem_iff_getElem?.1 (horder.mem_iff.2 hs')
    have hij : i = j := by
      refine h i j _ _ (by rw [List.getElem?_map, hi]; rfl) (by rw [List.getElem?_map, hj]; rfl) ?_
      exact hashClientServer_inj.2 hk
    rw [hij, hj] at hi
    exact (Option.some.inj hi).symm
  · intro h i j c c' hi hj hk
    rw [List.getElem?_map, Option.map_eq_some_iff] at hi hj
    obtain ⟨s, hi, rfl⟩ := hi
    obtain ⟨s', hj, rfl⟩ := hj
    have hs := horder.mem_iff.1 (List.mem_of_getElem? hi)
    have hs' := horder.mem_iff.1 (List.mem_of_getElem? hj)
    have he := h s hs s' hs' (hashClientServer_inj.1 hk)
    rw [← he, ← hi] at hj
    exact ((List.getElem?_inj (List.getElem?_eq_some_iff.1 hi).1 hnodup).1 hj.symm)

/-- A job whose SPs accept the others in the order of their ids, but for one. -/
def Mesh.late (n s g : ℕ) (hn : n < 2 ^ 64) (hg : g < s) : Mesh where
  numSps := n
  numSps_lt := hn
  accepted s' := if s' = s then g :: (List.range s).erase g else List.range s'
  accepted_perm s' _ := by
    split
    next he =>
      subst he
      exact (List.perm_cons_erase (List.mem_range.2 hg)).symm
    · exact List.Perm.refl _

theorem lookup_right_three : (Mesh.late 3 2 1 (by decide) (by decide)).connect 0 [2, 1] |>.Right := by
  refine (lookup_right_iff _ 0 [2, 1] ?_).2 (Mesh.keys_inj (by decide))
  exact List.Perm.swap 1 2 []

/-- **A lookup that is wrong**: the SP 33 is the last client of the SP 34 and the first of the SP 35. -/
theorem lookup_wrong :
    [34, 35].Perm ((Mesh.late 36 35 33 (by decide) (by decide)).servers 33) ∧
      ¬ ((Mesh.late 36 35 33 (by decide) (by decide)).connect 33 [34, 35]).Right := by
  refine ⟨List.Perm.refl _, fun h => ?_⟩
  exact absurd (h 1 ⟨0, 35⟩ (by decide)) (by decide)

end DpuOffload
