import DpuOffload.Mesh.EngineEnd
import DpuOffload.Mesh.Lookup
import Mathlib.Algebra.BigOperators.Group.Finset.Basic

/-!
# The end of a job

The SPs of a job end: the ranks of an SP leave it, the last of them makes it leave the SPs it is
connected to, and so on (`Mesh.EngineEnd`). The job starts when everything is connected. The messages
in flight are handled in any order, while a client of the receiver is progressed or not, and a send completes
before or after its message is handled.

* `engine_terminated_iff` — **no assertion fails, and an engine is terminated** exactly when all its servers and
  clients have ended and the last of them was not the server for the ranks. An execution context is used after it was
  freed exactly when the last of them was the server for the other SPs and a client was progressed meanwhile.
* `engine_terminates` — when nothing can happen any more, the engine of an SP is terminated exactly when it and every
  SP with a lower id had ranks and, for the SP with the highest id, its server for the ranks was not the last.
* `term_run_length` — the number of steps up to there is known: no run goes on for ever.
-/

namespace DpuOffload

open Transition

/-! ### The job -/

/-- **A job with everything connected**. -/
structure TermJob where
  /-- The SPs, and the ids they have as clients. -/
  mesh : Mesh
  /-- The servers for the ranks. -/
  host : ℕ → ServerLife
  /-- The servers for the other SPs. -/
  interSp : ℕ → ServerLife
  /-- The ranks are connected. -/
  host_ready : ∀ g, (host g).Ready
  /-- The SPs are connected. -/
  interSp_ready : ∀ s, (interSp s).Ready
  /-- Each to those with a higher id. -/
  interSp_length : ∀ s, (interSp s).server.clients.length = s

/-- The engines of a job, and the messages in flight. -/
structure TermNet where
  /-- The engines. -/
  sp : ℕ → TermSp
  /-- The termination messages between SPs. -/
  msgs : List TermMsg

namespace TermJob

variable (job : TermJob)

/-- The number of ranks of an SP. -/
def ranks (g : ℕ) : ℕ := (job.host g).server.clients.length

/-- The clients of an SP. -/
def clients (g : ℕ) : List TermClient := (job.mesh.servers g).map fun s => ⟨job.mesh.clientId g s, s, false, false⟩

/-- The engine of an SP when everything is connected. -/
def engine (g : ℕ) : TermSp where
  host := job.host g
  interSp := job.interSp g
  clients := job.clients g
  clientsActive := (job.clients g).length
  serversActive := if g = 0 then 1 else 2
  terminated := false
  failed := false
  usedFreed := false
  ended := []

/-- Everything is connected. -/
def start : TermNet := ⟨job.engine, []⟩

end TermJob

/-- What happens at the end of a job. -/
inductive TermAct where
  /-- The termination message of a rank is handled. -/
  | leave (g id : ℕ)
  /-- A termination message of an SP is handled, while a client of the receiver is progressed or not. -/
  | deliver (i : ℕ) (inside : Option ℕ)
  /-- The send of a client of an SP has completed. -/
  | complete (g k : ℕ)
  deriving DecidableEq, Repr

/-- May a message be handled there? The client is one that was not freed. -/
def TermSp.MayProgress (p : TermSp) (inside : Option ℕ) : Prop :=
  ∀ k ∈ inside, k < p.clients.length ∧ p.terminated = false

instance (p : TermSp) : (inside : Option ℕ) → Decidable (p.MayProgress inside)
  | none => .isTrue (by simp [TermSp.MayProgress])
  | some k => decidable_of_iff (k < p.clients.length ∧ p.terminated = false) (by simp [TermSp.MayProgress])

/-- One step of a job of `n` SPs. A rank leaves once. Where the message of a rank is handled does not matter: it
frees nothing. -/
def termStep (n : ℕ) (st : TermNet) : TermAct → Option TermNet
  | .leave g id =>
    if g < n ∧ id < (st.sp g).host.server.clients.length ∧ id ∉ (st.sp g).host.left then
      let r := (st.sp g).hostTermMsgCb id
      some ⟨Function.update st.sp g r.1, st.msgs ++ r.2⟩
    else none
  | .deliver i inside =>
    (st.msgs[i]?.filter fun m => (st.sp m.1).MayProgress inside).map fun m =>
      ⟨Function.update st.sp m.1 ((st.sp m.1).progressWorker m.2 inside), st.msgs.eraseIdx i⟩
  | .complete g k =>
    ((st.sp g).clients[k]?.filter (·.termEv)).map fun c =>
      ⟨Function.update st.sp g ((st.sp g).termNotificationCompleted k c), st.msgs⟩

/-- Nothing can happen any more. -/
def TermNet.Quiet (n : ℕ) (st : TermNet) : Prop := ∀ a, termStep n st a = none

/-! ### The whole job -/

namespace TermJob

variable (job : TermJob)

/-- The messages the clients of an SP send. -/
def sends (g : ℕ) : List TermMsg := (job.clients g).map TermClient.msg

variable {job}

theorem sends_eq (g : ℕ) : job.sends g = (job.mesh.servers g).map fun s => (s, job.mesh.clientId g s) := by
  simp [sends, clients, TermClient.msg, Function.comp_def]

/-- A slot belongs to the SP that was accepted there. -/
theorem clientId_eq_iff {g s id : ℕ} (hs : s < job.mesh.numSps) :
    g < s ∧ job.mesh.clientId g s = id ↔ (job.mesh.accepted s)[id]? = some g := by
  have hperm := job.mesh.accepted_perm s hs
  have hnodup : (job.mesh.accepted s).Nodup := hperm.nodup_iff.2 List.nodup_range
  constructor
  · rintro ⟨hg, rfl⟩
    have hmem : g ∈ job.mesh.accepted s := hperm.mem_iff.2 (List.mem_range.2 hg)
    rw [Mesh.clientId, List.getElem?_eq_getElem (List.idxOf_lt_length_of_mem hmem), List.getElem_idxOf]
  · intro hget
    obtain ⟨hlt, heq⟩ := List.getElem?_eq_some_iff.1 hget
    refine ⟨List.mem_range.1 (hperm.mem_iff.1 (List.mem_of_getElem? hget)), ?_⟩
    rw [Mesh.clientId, ← heq, hnodup.idxOf_getElem]

/-- Who sends a message. -/
theorem count_sends {g s id : ℕ} (hs : s < job.mesh.numSps) :
    (job.sends g).count (s, id) = if (job.mesh.accepted s)[id]? = some g then 1 else 0 := by
  have hnodup : (job.sends g).Nodup := by
    rw [sends_eq]
    exact List.Nodup.map (fun a b hab => (Prod.mk.inj hab).1) List.nodup_range'
  have hmem : (s, id) ∈ job.sends g ↔ (job.mesh.accepted s)[id]? = some g := by
    rw [sends_eq, List.mem_map, ← clientId_eq_iff hs]
    constructor
    · rintro ⟨t, ht, he⟩
      obtain ⟨rfl, rfl⟩ := Prod.mk.inj he
      exact ⟨(Mesh.mem_servers.1 ht).1, rfl⟩
    · rintro ⟨hg, rfl⟩
      exact ⟨s, Mesh.mem_servers.2 ⟨hg, hs⟩, rfl⟩
  rw [hnodup.count]
  simp only [hmem]

end TermJob

namespace TermNet

variable {job : TermJob} {st st' : TermNet}

/-- **What holds of a job that ends.** -/
structure Sane (job : TermJob) (st : TermNet) : Prop where
  /-- The engines. -/
  sp : ∀ g, (st.sp g).Sane (job.ranks g) g (job.sends g)
  /-- Messages go to SPs with a higher id. -/
  msgs_lt : ∀ m ∈ st.msgs, m.1 < job.mesh.numSps ∧ m.2 < m.1
  /-- A client whose SP has left its ranks has sent its message once: it is in flight or was handled. -/
  count : ∀ s < job.mesh.numSps, ∀ id g, (job.mesh.accepted s)[id]? = some g →
    st.msgs.count (s, id) + (st.sp s).interSp.left.count id = if (st.sp g).host.done then 1 else 0

theorem sane_start : job.start.Sane job where
  sp g := by
    have hh := (job.host_ready g).waning
    have hi := (job.interSp_ready g).waning
    rw [job.interSp_length] at hi
    have hnot : ∀ c ∈ job.clients g, c.termEv = false ∧ c.done = false := by
      intro c hc
      obtain ⟨s, -, rfl⟩ := List.mem_map.1 hc
      exact ⟨rfl, rfl⟩
    have hcount : (job.clients g).length = (job.clients g).countP (!·.done) :=
      (List.countP_eq_length.2 fun c hc => by simp [hnot c hc]).symm
    refine ⟨⟨hh, hi, rfl, fun c hc => ?_, hcount, ?_, nofun, nofun, fun hD => ?_, rfl⟩, ⟨nofun, fun hE => ?_⟩, ?_⟩
    · simp [TermJob.start, TermJob.engine, hnot c hc, (job.host_ready g).notDone]
    · simp only [TermJob.start, TermJob.engine, (job.host_ready g).notDone, (job.interSp_ready g).notDone]
      by_cases hg : g = 0 <;> simp [hg]
    · simp [TermJob.start, TermJob.engine, (job.host_ready g).notDone] at hD
    · have hD := hE.1.1
      simp [TermJob.start, TermJob.engine, (job.host_ready g).notDone] at hD
    · simp [TermJob.start, TermJob.engine]
  msgs_lt _ hm := absurd hm List.not_mem_nil
  count s _ id g _ := by
    simp [TermJob.start, TermJob.engine, (job.host_ready g).notDone, (job.interSp_ready s).left]

/-- A rank leaves. -/
theorem Sane.leave (h : st.Sane job) {g id : ℕ} (hg : g < job.mesh.numSps) (hid : id < job.ranks g)
    (hl : id ∉ (st.sp g).host.left) :
    (⟨Function.update st.sp g ((st.sp g).hostTermMsgCb id).1, st.msgs ++ ((st.sp g).hostTermMsgCb id).2⟩ :
      TermNet).Sane job := by
  obtain ⟨hs, hnot, hi, -, hmsgs⟩ := (h.sp g).hostTermMsgCb hid hl
  have hinter : ∀ s, (Function.update st.sp g ((st.sp g).hostTermMsgCb id).1 s).interSp = (st.sp s).interSp := by
    intro s
    rw [Function.update_apply]
    split
    · rename_i he
      rw [hi, he]
    · rfl
  refine ⟨fun x => ?_, fun m hm => ?_, fun s hs' i g' hget => ?_⟩
  · by_cases hx : x = g
    · subst hx
      change (Function.update st.sp x _ x).Sane _ _ _
      rwa [Function.update_self]
    · change (Function.update st.sp g _ x).Sane _ _ _
      rw [Function.update_of_ne hx]
      exact h.sp x
  · rcases List.mem_append.1 hm with hm | hm
    · exact h.msgs_lt m hm
    · rw [hmsgs] at hm
      split at hm
      · rw [TermJob.sends_eq] at hm
        obtain ⟨s, hs', rfl⟩ := List.mem_map.1 hm
        have hsv := Mesh.mem_servers.1 hs'
        exact ⟨hsv.2, Mesh.clientId_lt hsv.2 hsv.1⟩
      · exact absurd hm List.not_mem_nil
  · have hc := h.count s hs' i g' hget
    rw [hinter, List.count_append, hmsgs]
    by_cases hx : g' = g
    · subst hx
      rw [hnot] at hc
      simp only [Function.update_self]
      split
      · rw [TermJob.count_sends hs', if_pos hget]
        simp at hc
        omega
      · simpa using hc
    · change _ = if (Function.update st.sp g _ g').host.done = true then 1 else 0
      rw [Function.update_of_ne hx, ← hc]
      have hzero : (if ((st.sp g).hostTermMsgCb id).1.host.done = true then job.sends g else []).count (s, i) = 0 := by
        split
        · rw [TermJob.count_sends hs', hget, if_neg (by simpa using hx)]
        · rfl
      omega

/-- A message of an SP is handled. -/
theorem Sane.deliver (h : st.Sane job) {i : ℕ} {m : TermMsg} (hm : st.msgs[i]? = some m) (inside : Option ℕ) :
    (⟨Function.update st.sp m.1 ((st.sp m.1).progressWorker m.2 inside), st.msgs.eraseIdx i⟩ :
      TermNet).Sane job := by
  obtain ⟨s, id⟩ := m
  have hmem := List.mem_of_getElem? hm
  obtain ⟨hsn, hids⟩ := h.msgs_lt _ hmem
  have hperm : st.msgs.Perm ((s, id) :: st.msgs.eraseIdx i) := by
    obtain ⟨hlt, hget⟩ := List.getElem?_eq_some_iff.1 hm
    rw [← hget]
    exact (List.getElem_cons_eraseIdx_perm hlt).symm
  have hacc : id < (job.mesh.accepted s).length := by
    rw [(job.mesh.accepted_perm s hsn).length_eq, List.length_range]
    exact hids
  have hown := List.getElem?_eq_getElem hacc
  have hl : id ∉ (st.sp s).interSp.left := by
    intro hl
    have hc := h.count s hsn id _ hown
    have h₁ := List.count_pos_iff.2 hmem
    have h₂ := List.count_pos_iff.2 hl
    split at hc <;> omega
  obtain ⟨hsane, hhost, -, hleft⟩ := (h.sp s).progressWorker hids hl inside
  refine ⟨fun x => ?_, fun m hm => h.msgs_lt m (List.mem_of_mem_eraseIdx hm), fun t ht j g hget => ?_⟩
  · by_cases hx : x = s
    · subst hx
      change (Function.update st.sp x _ x).Sane _ _ _
      rwa [Function.update_self]
    · change (Function.update st.sp s _ x).Sane _ _ _
      rw [Function.update_of_ne hx]
      exact h.sp x
  · have hc := h.count t ht j g hget
    rw [hperm.count_eq, List.count_cons] at hc
    have hdone : (Function.update st.sp s ((st.sp s).progressWorker id inside) g).host = (st.sp g).host := by
      rw [Function.update_apply]
      split
      · rename_i he
        rw [hhost, he]
      · rfl
    change _ = if (Function.update st.sp s ((st.sp s).progressWorker id inside) g).host.done = true then 1 else 0
    rw [hdone, ← hc]
    by_cases hts : t = s
    · subst hts
      change (st.msgs.eraseIdx i).count (t, j) + (Function.update st.sp t _ t).interSp.left.count j = _
      rw [Function.update_self, hleft, List.count_cons]
      by_cases hj : id = j <;> simp [hj]
      omega
    · change (st.msgs.eraseIdx i).count (t, j) + (Function.update st.sp s _ t).interSp.left.count j = _
      rw [Function.update_of_ne hts]
      simp [Ne.symm hts]

/-- The message of a client has been sent. -/
theorem Sane.complete (h : st.Sane job) {g k : ℕ} {c : TermClient} (hk : (st.sp g).clients[k]? = some c)
    (hc : c.termEv = true) :
    (⟨Function.update st.sp g ((st.sp g).termNotificationCompleted k c), st.msgs⟩ : TermNet).Sane job := by
  obtain ⟨hsane, hhost, hinter, -⟩ := (h.sp g).termNotificationCompleted hk hc
  have hsame : ∀ x, (Function.update st.sp g ((st.sp g).termNotificationCompleted k c) x).host = (st.sp x).host ∧
      (Function.update st.sp g ((st.sp g).termNotificationCompleted k c) x).interSp = (st.sp x).interSp := by
    intro x
    rw [Function.update_apply]
    split
    · rename_i he
      rw [hhost, hinter, he]
      exact ⟨rfl, rfl⟩
    · exact ⟨rfl, rfl⟩
  refine ⟨fun x => ?_, h.msgs_lt, fun s hs id g' hget => ?_⟩
  · by_cases hx : x = g
    · subst hx
      change (Function.update st.sp x _ x).Sane _ _ _
      rwa [Function.update_self]
    · change (Function.update st.sp g _ x).Sane _ _ _
      rw [Function.update_of_ne hx]
      exact h.sp x
  · rw [(hsame s).2, (hsame g').1]
    exact h.count s hs id g' hget

/-- **Every step.** -/
theorem Sane.step (h : st.Sane job) {a : TermAct} (hs : termStep job.mesh.numSps st a = some st') : st'.Sane job := by
  cases a with
  | leave g id =>
    simp only [termStep] at hs
    split at hs
    · rename_i hg
      cases hs
      exact h.leave hg.1 (by rw [← (h.sp g).host.length]; exact hg.2.1) hg.2.2
    · cases hs
  | deliver i inside =>
    obtain ⟨m, hm, rfl⟩ := Option.map_eq_some_iff.1 hs
    exact h.deliver (Option.filter_eq_some_iff.1 hm).1 inside
  | complete g k =>
    obtain ⟨c, hc, rfl⟩ := Option.map_eq_some_iff.1 hs
    obtain ⟨hk, hev⟩ := Option.filter_eq_some_iff.1 hc
    exact h.complete hk hev

end TermNet

/-- The states a job that ends comes to. -/
abbrev TermReach (job : TermJob) : TermNet → Prop :=
  Reach (termStep job.mesh.numSps) (fun _ _ => True) job.start

theorem TermReach.sane {job : TermJob} {st : TermNet} (h : TermReach job st) : st.Sane job :=
  h.invariant TermNet.sane_start fun _ _ _ hi _ hs => hi.step hs

/-! ### When nothing can happen any more -/

namespace TermNet

variable {job : TermJob} {st : TermNet}

/-- All ranks have left. -/
theorem Sane.host_done_of_quiet (h : st.Sane job) (hq : st.Quiet job.mesh.numSps) {g : ℕ} (hg : g < job.mesh.numSps) :
    (st.sp g).host.done = true ↔ 0 < job.ranks g := by
  have hw := (h.sp g).host
  have hall : ∀ id < job.ranks g, id ∈ (st.sp g).host.left := by
    intro id hid
    by_contra hl
    have hstep := hq (.leave g id)
    rw [termStep, if_pos ⟨hg, by rw [hw.length]; exact hid, hl⟩] at hstep
    cases hstep
  have hle : job.ranks g ≤ (st.sp g).host.left.length := by
    have hsub : List.range (job.ranks g) ⊆ (st.sp g).host.left := fun id hid => hall id (List.mem_range.1 hid)
    have := (List.subperm_of_subset List.nodup_range hsub).length_le
    rwa [List.length_range] at this
  have hle' := hw.length_le
  rw [hw.done, decide_eq_true_iff]
  omega

/-- No message is in flight. -/
theorem msgs_of_quiet {n : ℕ} (hq : st.Quiet n) : st.msgs = [] := by
  have hstep := hq (.deliver 0 none)
  rw [termStep, Option.map_eq_none_iff, Option.filter_eq_none_iff] at hstep
  by_contra hne
  have hlt := List.length_pos_iff.2 hne
  exact hstep _ (List.getElem?_eq_getElem hlt) (by simp [TermSp.MayProgress])

/-- The SPs with a lower id have left those that had ranks. -/
theorem Sane.interSp_done_of_quiet (h : st.Sane job) (hq : st.Quiet job.mesh.numSps) {s : ℕ}
    (hs : s < job.mesh.numSps) : (st.sp s).interSp.done = true ↔ 0 < s ∧ ∀ g < s, 0 < job.ranks g := by
  have hw := (h.sp s).interSp
  have hperm := job.mesh.accepted_perm s hs
  have hleft : ∀ id g, (job.mesh.accepted s)[id]? = some g → (id ∈ (st.sp s).interSp.left ↔ 0 < job.ranks g) := by
    intro id g hget
    have hlt : g < s := List.mem_range.1 (hperm.mem_iff.1 (List.mem_of_getElem? hget))
    have hc := h.count s hs id g hget
    rw [msgs_of_quiet hq, List.count_nil, Nat.zero_add] at hc
    rw [← List.count_pos_iff, hc, ← h.host_done_of_quiet hq (hlt.trans hs)]
    cases (st.sp g).host.done <;> simp
  have hfull : (st.sp s).interSp.left.length = s ↔ ∀ id < s, id ∈ (st.sp s).interSp.left := by
    constructor
    · intro hlen id hid
      have hsub : (st.sp s).interSp.left ⊆ List.range s := fun x hx => List.mem_range.2 (hw.lt x hx)
      have hp := (List.subperm_of_subset hw.nodup hsub).perm_of_length_le (by rw [List.length_range, hlen])
      exact hp.mem_iff.2 (List.mem_range.2 hid)
    · intro hall
      have hsub : List.range s ⊆ (st.sp s).interSp.left := fun x hx => hall x (List.mem_range.1 hx)
      have hle := (List.subperm_of_subset List.nodup_range hsub).length_le
      rw [List.length_range] at hle
      exact hw.length_le.antisymm hle
  rw [hw.done, decide_eq_true_iff, hfull]
  refine and_congr_right fun _ => ⟨fun hall g hg => ?_, fun hall id hid => ?_⟩
  · obtain ⟨id, hget⟩ := List.mem_iff_getElem?.1 (hperm.mem_iff.2 (List.mem_range.2 hg))
    have hlt : id < s := by
      have := (List.getElem?_eq_some_iff.1 hget).1
      rwa [hperm.length_eq, List.length_range] at this
    exact (hleft id g hget).1 (hall id hlt)
  · have hlt : id < (job.mesh.accepted s).length := by rwa [hperm.length_eq, List.length_range]
    have hget := List.getElem?_eq_getElem hlt
    exact (hleft id _ hget).2 (hall _ (List.mem_range.1 (hperm.mem_iff.1 (List.mem_of_getElem? hget))))

/-- The clients have ended with the server for the ranks. -/
theorem Sane.client_done_of_quiet (h : st.Sane job) {n : ℕ} (hq : st.Quiet n) {g : ℕ} {c : TermClient}
    (hc : c ∈ (st.sp g).clients) : c.done = (st.sp g).host.done := by
  obtain ⟨k, hk⟩ := List.mem_iff_getElem?.1 hc
  have hev : c.termEv = false := by
    have hstep := hq (.complete g k)
    rw [termStep, Option.map_eq_none_iff, hk, Option.filter_some] at hstep
    by_contra hev
    rw [if_pos (by simpa using hev)] at hstep
    cases hstep
  have hp := ((h.sp g).posted c hc).1
  rwa [hev, Bool.false_or] at hp

/-- Only the SPs of the job have clients. -/
theorem Sane.lt_of_client (h : st.Sane job) {g : ℕ} {c : TermClient} (hc : c ∈ (st.sp g).clients) :
    g < job.mesh.numSps := by
  have hmem : c.msg ∈ (st.sp g).clients.map TermClient.msg := List.mem_map_of_mem hc
  rw [(h.sp g).clients, TermJob.sends_eq] at hmem
  obtain ⟨s, hs, -⟩ := List.mem_map.1 hmem
  have := Mesh.mem_servers.1 hs
  omega

/-- Nothing can happen once the ranks have left, no message is in flight and no event is kept. -/
theorem Sane.quiet_of (h : st.Sane job) (hm : st.msgs = [])
    (hl : ∀ g < job.mesh.numSps, ∀ id < job.ranks g, id ∈ (st.sp g).host.left)
    (hev : ∀ g < job.mesh.numSps, ∀ c ∈ (st.sp g).clients, c.termEv = false) : st.Quiet job.mesh.numSps := by
  intro a
  cases a with
  | leave g id =>
    refine if_neg fun ⟨hg, hid, hnot⟩ => hnot (hl g hg id ?_)
    rwa [(h.sp g).host.length] at hid
  | deliver i inside => simp [termStep, hm]
  | complete g k =>
    rw [termStep, Option.map_eq_none_iff, Option.filter_eq_none_iff]
    intro c hc
    have hmem := List.mem_of_getElem? hc
    simp [hev g (h.lt_of_client hmem) c hmem]

/-- **What has ended when nothing can happen any more.** -/
theorem Sane.allEnded_iff (h : st.Sane job) (hq : st.Quiet job.mesh.numSps) {g : ℕ} (hg : g < job.mesh.numSps) :
    (st.sp g).AllEnded g ↔ ∀ h ≤ g, 0 < job.ranks h := by
  rw [TermSp.AllEnded, h.host_done_of_quiet hq hg, h.interSp_done_of_quiet hq hg]
  constructor
  · rintro ⟨hr, hi, -⟩ x hx
    rcases Nat.lt_or_eq_of_le hx with hx | rfl
    · rcases hi with rfl | hi
      · exact absurd hx (Nat.not_lt_zero x)
      · exact hi.2 x hx
    · exact hr
  · intro hall
    have hr := hall g (Nat.le_refl g)
    refine ⟨hr, ?_, fun c hc => ?_⟩
    · rcases Nat.eq_zero_or_pos g with hz | hpos
      · exact .inl hz
      · exact .inr ⟨hpos, fun x hx => hall x (Nat.le_of_lt hx)⟩
    · rw [h.client_done_of_quiet hq hc, h.host_done_of_quiet hq hg]
      exact hr

end TermNet

/-! ### Jobs to look at -/

/-- A server with `k` clients connected. -/
def ServerLife.withClients (k : ℕ) : ServerLife where
  server := ⟨List.replicate k (Conn.reset.setPhase .bootstrapDone), k, k, 0⟩
  done := false
  ids := List.range k
  left := []

theorem ServerLife.ready_withClients (k : ℕ) : (withClients k).Ready where
  kept := by
    refine ⟨⟨?_, ?_, ?_⟩, ?_⟩ <;>
      simp [withClients, Server.Numbered, List.countP_replicate, Conn.connecting, Conn.bootstrapped]
  connected c hc := by simp [(List.mem_replicate.1 hc).2, Conn.bootstrapped]
  left := rfl
  notDone := rfl

/-- A job of `n` SPs that accept each other in the order of their ids. -/
def TermJob.inOrder (n : ℕ) (hn : n < 2 ^ 64) (ranks : ℕ → ℕ) : TermJob where
  mesh := ⟨n, hn, List.range, fun _ _ => .refl _⟩
  host g := .withClients (ranks g)
  interSp s := .withClients s
  host_ready _ := ServerLife.ready_withClients _
  interSp_ready _ := ServerLife.ready_withClients _
  interSp_length _ := List.length_replicate ..

/-- Two SPs with a rank each. -/
def twoSps : TermJob := .inOrder 2 (by decide) fun _ => 1

/-- **An engine is terminated when all of it has ended, unless the server for the ranks was the last.** In every run,
for any number of SPs and ranks and any order in which ranks leave, messages are handled, while a client is progressed
or not, and sends complete: no assertion fails, the state is as said, and an execution context is used after it was
freed exactly when the engine is terminated by a message that was handled while a client was progressed. -/
theorem engine_terminated_iff (job : TermJob) {st : TermNet} (h : TermReach job st) (g : ℕ) :
    (st.sp g).failed = false ∧
      ((st.sp g).terminated = true ↔ (st.sp g).AllEnded g ∧ (st.sp g).ended.getLast? ≠ some .hostServer) ∧
      ((st.sp g).usedFreed = true ↔
        (st.sp g).terminated = true ∧ ∃ k, (st.sp g).ended.getLast? = some (.interSpServer (some k))) :=
  ⟨(h.sane.sp g).ok, (h.sane.sp g).terminated, (h.sane.sp g).usedFreed⟩

/-- The rank of the SP 0 leaves, then the SP, then the rank of the SP 1: the engine of the SP 1 is not terminated. -/
theorem engine_terminated_two :
    ∃ st, TermReach twoSps st ∧ (st.sp 1).AllEnded 1 ∧ (st.sp 1).terminated = false ∧
      (st.sp 0).failed = false ∧ ((st.sp 0).terminated = true ↔
        (st.sp 0).AllEnded 0 ∧ (st.sp 0).ended.getLast? ≠ some .hostServer) ∧
      ((st.sp 0).usedFreed = true ↔
        (st.sp 0).terminated = true ∧ ∃ k, (st.sp 0).ended.getLast? = some (.interSpServer (some k))) := by
  have hrun : ∃ st, TermReach twoSps st ∧ ((st.sp 1).host.done = true ∧ (st.sp 1).interSp.done = true ∧
      (st.sp 1).clients = [] ∧ (st.sp 1).terminated = false) :=
    exists_reach_of_exec [.leave 0 0, .deliver 0 none, .leave 1 0, .complete 0 0] (by decide)
  obtain ⟨st, hst, hh, hi, hc, hT⟩ := hrun
  exact ⟨st, hst, ⟨hh, .inr hi, by simp [hc]⟩, hT, engine_terminated_iff twoSps hst 0⟩

/-- Three SPs with a rank each, all of which leave; the message of the SP 0 to the SP 1 comes last, while the SP 1
progresses its client of the SP 2: the execution context of that client is freed, and used. -/
example : (exec (termStep 3) (fun _ _ => True) [.leave 1 0, .complete 1 0, .leave 0 0, .deliver 1 (some 0)]
    (TermJob.inOrder 3 (by decide) fun _ => 1).start).map
      (fun st => ((st.sp 1).terminated, (st.sp 1).usedFreed)) = some (true, true) := by decide

/-- **When nothing can happen any more** an engine is terminated exactly when its SP and every SP with a lower id
had ranks and, if it is the SP with the highest id, the server for its ranks was not the last to end. -/
theorem engine_terminates (job : TermJob) {st : TermNet} (h : TermReach job st) (hq : st.Quiet job.mesh.numSps) (g : ℕ)
    (hg : g < job.mesh.numSps) :
    (st.sp g).terminated = true ↔ (∀ x ≤ g, 0 < job.ranks x) ∧
      (g + 1 = job.mesh.numSps → (st.sp g).ended.getLast? ≠ some .hostServer) := by
  have hs := h.sane
  rw [(hs.sp g).terminated, hs.allEnded_iff hq hg]
  refine and_congr_right fun hall => ⟨fun hl _ => hl, fun hl => ?_⟩
  by_cases htop : g + 1 = job.mesh.numSps
  · exact hl htop
  · -- it has a client, which ended after the server for the ranks
    intro hlast
    have hsv : g + 1 ∈ job.mesh.servers g := Mesh.mem_servers.2 ⟨Nat.lt_succ_self g, by omega⟩
    have hmem : (g + 1, job.mesh.clientId g (g + 1)) ∈ (st.sp g).clients.map TermClient.msg := by
      rw [(hs.sp g).clients, TermJob.sends_eq]
      exact List.mem_map.2 ⟨g + 1, hsv, rfl⟩
    obtain ⟨c, hc, -⟩ := List.mem_map.1 hmem
    have hdone := (hs.sp g).last hlast c hc
    rw [hs.client_done_of_quiet hq hc, Bool.eq_false_iff, ne_eq, hs.host_done_of_quiet hq hg] at hdone
    exact hdone (hall g (Nat.le_refl g))

/-- The rank of the SP 1 leaves before the SP 0 does: both engines are terminated in the end. -/
theorem engine_terminates_two :
    ∃ st, TermReach twoSps st ∧ st.Quiet 2 ∧ (st.sp 0).terminated = true ∧ (st.sp 1).terminated = true := by
  have hrun : ∃ st, TermReach twoSps st ∧ (st.msgs = [] ∧ (∀ g < 2, (st.sp g).host.left = [0]) ∧
      (∀ g < 2, ∀ c ∈ (st.sp g).clients, c.termEv = false) ∧ (st.sp 1).ended.getLast? = some (.interSpServer none)) :=
    exists_reach_of_exec [.leave 0 0, .leave 1 0, .deliver 0 none, .complete 0 0] (by decide)
  obtain ⟨st, hst, hm, hl, hev, hlast⟩ := hrun
  have hq : st.Quiet 2 := hst.sane.quiet_of hm (fun g hg id hid => by
    have hid : id < 1 := hid
    rw [hl g hg, Nat.lt_one_iff.1 hid]
    exact List.mem_singleton_self 0) hev
  refine ⟨st, hst, hq, (engine_terminates twoSps hst hq 0 (by decide)).2 ⟨fun x _ => Nat.one_pos, fun hx => ?_⟩,
    (engine_terminates twoSps hst hq 1 (by decide)).2 ⟨fun x _ => Nat.one_pos, fun _ => ?_⟩⟩
  · exact absurd hx (by decide)
  rw [hlast]
  decide

/-- An SP that is alone is never terminated: its only server is the one for the ranks. -/
theorem lone_engine_not_terminated (job : TermJob) (hn : job.mesh.numSps = 1) {st : TermNet} (h : TermReach job st) :
    (st.sp 0).terminated = false := by
  have hs := h.sane.sp 0
  have hclients : (st.sp 0).clients = [] := by
    have he := hs.clients
    rw [TermJob.sends_eq, Mesh.servers, hn] at he
    exact List.map_eq_nil_iff.1 he
  refine Bool.not_eq_true _ ▸ fun ht => ?_
  obtain ⟨hE, hlast⟩ := hs.terminated.1 ht
  have hmem := hs.hostEnded hE.1
  refine hlast ?_
  rw [List.getLast?_eq_some_getLast (List.ne_nil_of_mem hmem)]
  refine congrArg some ?_
  rcases hs.names _ (List.getLast_mem (List.ne_nil_of_mem hmem)) with hx | ⟨-, hx⟩ | ⟨k, hk, -⟩
  · exact hx
  · exact absurd rfl hx
  · rw [hclients] at hk
    exact absurd hk (Nat.not_lt_zero k)

/-! ### How long it takes -/

/-- Has a client not left yet? -/
def TermClient.staying (c : TermClient) : Bool := !(c.termEv || c.done)

/-- What is still to happen to an engine of `r` ranks: they leave, and each client sends its message, which is
handled, and its send completes. -/
def TermSp.rest (r : ℕ) (p : TermSp) : ℕ :=
  r - p.host.left.length + p.clients.countP TermClient.staying + p.clients.countP (!·.done)

/-- The number of steps left in a job. -/
def TermNet.rest (job : TermJob) (st : TermNet) : ℕ :=
  ∑ g ∈ Finset.range job.mesh.numSps, (st.sp g).rest (job.ranks g) + st.msgs.length

namespace TermNet

variable {job : TermJob} {st st' : TermNet}

/-- One engine changes. -/
theorem sum_update (job : TermJob) (sp : ℕ → TermSp) {g : ℕ} (hg : g < job.mesh.numSps) (p : TermSp) :
    ∑ x ∈ Finset.range job.mesh.numSps, (Function.update sp g p x).rest (job.ranks x) + (sp g).rest (job.ranks g) =
      ∑ x ∈ Finset.range job.mesh.numSps, (sp x).rest (job.ranks x) + p.rest (job.ranks g) := by
  have hmem := Finset.mem_range.2 hg
  rw [← Finset.add_sum_erase _ _ hmem, ← Finset.add_sum_erase _ (fun x => (sp x).rest (job.ranks x)) hmem,
    Function.update_self]
  have hrest : ∑ x ∈ (Finset.range job.mesh.numSps).erase g, (Function.update sp g p x).rest (job.ranks x) =
      ∑ x ∈ (Finset.range job.mesh.numSps).erase g, (sp x).rest (job.ranks x) :=
    Finset.sum_congr rfl fun x hx => by rw [Function.update_of_ne (Finset.ne_of_mem_erase hx)]
  rw [hrest]
  omega

/-- **Every step is one of those left.** -/
theorem Sane.rest_step (h : st.Sane job) {a : TermAct} (hs : termStep job.mesh.numSps st a = some st') :
    st'.rest job + 1 = st.rest job := by
  cases a with
  | leave g id =>
    simp only [termStep] at hs
    split at hs
    · rename_i hg
      cases hs
      have hid : id < job.ranks g := by rw [← (h.sp g).host.length]; exact hg.2.1
      obtain ⟨hsane, hnot, -, hleft, hmsgs⟩ := (h.sp g).hostTermMsgCb hid hg.2.2
      have hlt := (h.sp g).host.length_lt hid hg.2.2
      have hsum := sum_update job st.sp hg.1 ((st.sp g).hostTermMsgCb id).1
      -- the clients that leave have their messages in flight
      have hclients : ((st.sp g).hostTermMsgCb id).1.clients.countP TermClient.staying +
          ((st.sp g).hostTermMsgCb id).2.length = (st.sp g).clients.countP TermClient.staying := by
        have hall : (st.sp g).clients.countP TermClient.staying = (st.sp g).clients.length :=
          List.countP_eq_length.2 fun c hc => by
            rw [TermClient.staying, ((h.sp g).posted c hc).1, hnot]
            rfl
        have hnone : (st.sp g).clients.countP (TermClient.staying ∘ TermClient.finiNb) = 0 :=
          List.countP_eq_zero.2 fun c _ => by simp [TermClient.staying, TermClient.finiNb]
        unfold TermSp.hostTermMsgCb
        dsimp only
        split
        · simp [TermSp.disconnectToServiceProcs, TermSp.serverDone, hall, hnone]
        · rfl
      have hactive : ((st.sp g).hostTermMsgCb id).1.clients.countP (!·.done) = (st.sp g).clients.countP (!·.done) := by
        unfold TermSp.hostTermMsgCb
        dsimp only
        split
        · simp [TermSp.disconnectToServiceProcs, TermClient.finiNb, List.countP_map, Function.comp_def]
        · rfl
      simp only [TermNet.rest, TermSp.rest, hleft, List.length_cons, List.length_append] at hsum ⊢
      omega
    · cases hs
  | deliver i inside =>
    obtain ⟨m, hf, rfl⟩ := Option.map_eq_some_iff.1 hs
    have hm := (Option.filter_eq_some_iff.1 hf).1
    have hmem := List.mem_of_getElem? hm
    obtain ⟨hlt, -⟩ := List.getElem?_eq_some_iff.1 hm
    have hsum := sum_update job st.sp (h.msgs_lt m hmem).1 ((st.sp m.1).progressWorker m.2 inside)
    have hsame : ((st.sp m.1).progressWorker m.2 inside).host = (st.sp m.1).host ∧
        ((st.sp m.1).progressWorker m.2 inside).clients = (st.sp m.1).clients := by
      unfold TermSp.progressWorker TermSp.goOn TermSp.interSpTermMsgCb TermSp.updateEngineState
      dsimp only
      split
      · split <;> exact ⟨rfl, rfl⟩
      · exact ⟨rfl, rfl⟩
    simp only [TermNet.rest, TermSp.rest, hsame.1, hsame.2, List.length_eraseIdx_of_lt hlt] at hsum ⊢
    omega
  | complete g k =>
    obtain ⟨c, hc, rfl⟩ := Option.map_eq_some_iff.1 hs
    obtain ⟨hk, hev⟩ := Option.filter_eq_some_iff.1 hc
    have hmem := List.mem_of_getElem? hk
    obtain ⟨hlt, hget⟩ := List.getElem?_eq_some_iff.1 hk
    obtain ⟨-, hhost, -, hcl⟩ := (h.sp g).termNotificationCompleted hk hev
    have hsum := sum_update job st.sp (h.lt_of_client hmem) ((st.sp g).termNotificationCompleted k c)
    have hdone : c.done = false := by
      have hp := ((h.sp g).posted c hmem).2
      rwa [hev, Bool.true_and] at hp
    have hactive := Counting.countP_set_add (fun d : TermClient => !d.done) c hlt c.left
    have hposted := Counting.countP_set_add TermClient.staying c hlt c.left
    rw [List.getD_eq_getElem _ _ hlt, hget] at hactive hposted
    simp [hdone, hev, TermClient.staying] at hactive hposted
    simp only [TermNet.rest, TermSp.rest, hhost, hcl] at hsum ⊢
    omega

end TermNet

/-- **How long a job takes to end**: a run takes the steps that are left, one after the other, so no run goes on
for ever. At the start they are one for each rank and two for each pair of SPs. -/
theorem term_run_length (job : TermJob) (as : List TermAct) {st : TermNet}
    (h : exec (termStep job.mesh.numSps) (fun _ _ => True) as job.start = some st) :
    as.length + st.rest job =
      ∑ g ∈ Finset.range job.mesh.numSps, (job.ranks g + 2 * (job.mesh.numSps - (g + 1))) := by
  have hstart : job.start.rest job =
      ∑ g ∈ Finset.range job.mesh.numSps, (job.ranks g + 2 * (job.mesh.numSps - (g + 1))) := by
    have hmsgs : job.start.msgs.length = 0 := rfl
    rw [TermNet.rest, hmsgs, Nat.add_zero]
    refine Finset.sum_congr rfl fun g _ => ?_
    have hlen : (job.clients g).length = job.mesh.numSps - (g + 1) := by
      rw [TermJob.clients, List.length_map, Mesh.servers, List.length_range']
    have hnew : ∀ c ∈ job.clients g, c.staying = true ∧ c.done = false := by
      intro c hc
      obtain ⟨s, -, rfl⟩ := List.mem_map.1 hc
      exact ⟨rfl, rfl⟩
    change job.ranks g - (job.host g).left.length + (job.clients g).countP TermClient.staying +
      (job.clients g).countP (!·.done) = _
    rw [(job.host_ready g).left, List.countP_eq_length.2 fun c hc => (hnew c hc).1,
      List.countP_eq_length.2 fun c hc => by rw [(hnew c hc).2]; rfl, hlen, List.length_nil]
    omega
  have hrun : ∀ (as : List TermAct) (s : TermNet), s.Sane job →
      exec (termStep job.mesh.numSps) (fun _ _ => True) as s = some st → as.length + st.rest job = s.rest job := by
    intro as
    induction as with
    | nil =>
      intro s _ hs
      cases hs
      exact Nat.zero_add _
    | cons a as ih =>
      intro s hsane hs
      rw [exec, if_pos trivial] at hs
      obtain ⟨s', hs', hrest⟩ := Option.bind_eq_some_iff.1 hs
      have hstep := hsane.rest_step hs'
      have hih := ih s' (hsane.step hs') hrest
      rw [List.length_cons]
      omega
  rw [← hstart]
  exact hrun as job.start TermNet.sane_start h

/-- Two SPs with a rank each: four steps. -/
theorem term_run_length_two : ∃ st, exec (termStep twoSps.mesh.numSps) (fun _ _ => True)
    [.leave 0 0, .leave 1 0, .deliver 0 none, .complete 0 0] twoSps.start = some st ∧ 4 + st.rest twoSps = 4 := by
  obtain ⟨st, hst⟩ : ∃ st, exec (termStep twoSps.mesh.numSps) (fun _ _ => True)
      [.leave 0 0, .leave 1 0, .deliver 0 none, .complete 0 0] twoSps.start = some st :=
    Option.isSome_iff_exists.1 (by decide)
  exact ⟨st, hst, term_run_length twoSps _ hst⟩

end DpuOffload
