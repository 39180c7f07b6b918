import DpuOffload.Lib.Transition
import Mathlib.Algebra.BigOperators.Group.Finset.Basic
import Mathlib.Algebra.Order.BigOperators.Group.Finset
import Mathlib.Data.Finset.Card
import Mathlib.Logic.Function.Basic

/-!
# Gathering

Some parties own items, and each of them is to get all items. An item comes up at its owner. When a
party has all the items it owns, it sends them to each of the others, an item at a time, and links keep
the order.

* `Kept` — what every step keeps: what is on its way is missing where it goes.
* `Kept.rest_step` — a step brings one item to one party, so no run goes on for ever.
* `Kept.exists_step` — as long as an item is missing somewhere, a step is possible.
* `Kept.gathered` — **when nothing is on its way and each item has come up, every party has all of them.**
-/

namespace Gather

open Transition

variable {ι ρ : Type*} [DecidableEq ι] [DecidableEq ρ]

/-- Parties, and the items they own. -/
structure Gathering (ι ρ : Type*) where
  /-- The parties. -/
  parties : Finset ι
  /-- The items. -/
  items : Finset ρ
  /-- Who owns an item. -/
  owner : ρ → ι
  /-- What a party owns, in the order in which it is sent. -/
  own : ι → List ρ
  /-- An item is owned by a party. -/
  owner_mem : ∀ r ∈ items, owner r ∈ parties
  /-- The order is one of all items of the party. -/
  mem_own : ∀ i r, r ∈ own i ↔ r ∈ items ∧ owner r = i
  /-- Each is sent once. -/
  nodup_own : ∀ i, (own i).Nodup

/-- Who has what, and what is on its way. -/
structure Spread (ι ρ : Type*) where
  /-- The items a party has. -/
  has : ι → Finset ρ
  /-- The items on their way from a party to another, the oldest first. -/
  wire : ι → ι → List ρ

/-- Nobody has anything. -/
def Spread.start : Spread ι ρ where
  has _ := ∅
  wire _ _ := []

/-- Party `i` gets an item. -/
def Spread.add (s : Spread ι ρ) (i : ι) (r : ρ) : Spread ι ρ :=
  { s with has := Function.update s.has i (insert r (s.has i)) }

/-- Only `rs` is left on a link. -/
def Spread.leave (s : Spread ι ρ) (i j : ι) (rs : List ρ) : Spread ι ρ :=
  { s with wire := Function.update s.wire i (Function.update (s.wire i) j rs) }

/-- What happens. -/
inductive Move (ι ρ : Type*) where
  /-- An item comes up at its owner. -/
  | put (r : ρ)
  /-- The first item on a link arrives. -/
  | hand (i j : ι)

namespace Gathering

variable (G : Gathering ι ρ)

/-- Does a party have all it owns? -/
def Complete (s : Spread ι ρ) (i : ι) : Prop := ∀ r ∈ G.own i, r ∈ s.has i

instance (s : Spread ι ρ) (i : ι) : Decidable (G.Complete s i) :=
  inferInstanceAs (Decidable (∀ r ∈ G.own i, r ∈ s.has i))

/-- A party sends what it owns to the others. -/
def send (s : Spread ι ρ) (i : ι) : Spread ι ρ :=
  { s with wire := Function.update s.wire i fun j => s.wire i j ++ if j ∈ G.parties ∧ j ≠ i then G.own i else [] }

/-- A step. -/
def step (s : Spread ι ρ) : Move ι ρ → Option (Spread ι ρ)
  | .put r =>
    if r ∈ G.items ∧ r ∉ s.has (G.owner r) then
      let s := s.add (G.owner r) r
      some (if G.Complete s (G.owner r) then G.send s (G.owner r) else s)
    else none
  | .hand i j =>
    match s.wire i j with
    | [] => none
    | r :: rs => some ((s.add j r).leave i j rs)

/-- How many items are missing, over all parties. -/
def rest (s : Spread ι ρ) : ℕ := ∑ i ∈ G.parties, (G.items \ s.has i).card

/-- **What every step keeps.** -/
structure Kept (s : Spread ι ρ) : Prop where
  /-- A party has items. -/
  known : ∀ i, ∀ r ∈ s.has i, r ∈ G.items ∧ i ∈ G.parties
  /-- An item is elsewhere only when its owner has sent it. -/
  later : ∀ i, ∀ r ∈ s.has i, G.owner r ≠ i → G.Complete s (G.owner r)
  /-- An item is on its way once. -/
  once : ∀ i j, (s.wire i j).Nodup
  /-- It is on its way from its owner to a party that does not have it. -/
  wire : ∀ i j, ∀ r ∈ s.wire i j,
    r ∈ G.items ∧ G.owner r = i ∧ j ∈ G.parties ∧ j ≠ i ∧ r ∉ s.has j ∧ G.Complete s i
  /-- What was sent is on its way until it arrives. -/
  sent : ∀ j ∈ G.parties, ∀ r ∈ G.items, G.owner r ≠ j → G.Complete s (G.owner r) →
    r ∈ s.has j ∨ r ∈ s.wire (G.owner r) j

variable {G} {s s' : Spread ι ρ} {i j : ι} {r q : ρ}

omit [DecidableEq ι] [DecidableEq ρ] in
theorem complete_mono (h : ∀ i, s.has i ⊆ s'.has i) (hc : G.Complete s i) : G.Complete s' i :=
  fun r hr => h i (hc r hr)

theorem mem_add : q ∈ (s.add i r).has j ↔ q ∈ s.has j ∨ j = i ∧ q = r := by
  by_cases hj : j = i
  · subst hj
    simp [Spread.add, or_comm]
  · simp [Spread.add, hj]

theorem has_subset_add (i : ι) (r : ρ) (j : ι) : s.has j ⊆ (s.add i r).has j := fun _ hq => mem_add.2 (.inl hq)

omit [DecidableEq ι] [DecidableEq ρ] in
theorem kept_start : G.Kept Spread.start where
  known _ _ hr := absurd hr (Finset.notMem_empty _)
  later _ _ hr := absurd hr (Finset.notMem_empty _)
  once _ _ := List.nodup_nil
  wire _ _ _ hr := absurd hr List.not_mem_nil
  sent _ _ r hr _ hc := absurd (hc r ((G.mem_own _ _).2 ⟨hr, rfl⟩)) (Finset.notMem_empty r)

/-- An item that comes up makes its owner complete at most. -/
theorem complete_add_iff (hi : i ≠ j) : G.Complete (s.add j r) i ↔ G.Complete s i := by
  refine forall₂_congr fun q _ => ?_
  rw [mem_add]
  exact or_iff_left fun hc => hi hc.1

omit [DecidableEq ρ] in
theorem wire_send_self : (G.send s i).wire i j = s.wire i j ++ if j ∈ G.parties ∧ j ≠ i then G.own i else [] := by
  unfold send
  dsimp only
  rw [Function.update_self]

omit [DecidableEq ρ] in
theorem mem_wire_send : q ∈ (G.send s i).wire i j ↔ q ∈ s.wire i j ∨ j ∈ G.parties ∧ j ≠ i ∧ q ∈ G.own i := by
  rw [wire_send_self, List.mem_append]
  by_cases h : j ∈ G.parties ∧ j ≠ i
  · rw [if_pos h]
    tauto
  · rw [if_neg h]
    have hnil : q ∉ ([] : List ρ) := List.not_mem_nil
    tauto

omit [DecidableEq ρ] in
theorem wire_send_of_ne {k : ι} (h : k ≠ i) : (G.send s i).wire k = s.wire k := Function.update_of_ne h ..

omit [DecidableEq ρ] in
theorem wire_leave (s : Spread ι ρ) (rs : List ρ) (a b : ι) :
    (s.leave i j rs).wire a b = if a = i ∧ b = j then rs else s.wire a b := by
  unfold Spread.leave
  dsimp only
  by_cases ha : a = i
  · subst ha
    rw [Function.update_self]
    by_cases hb : b = j
    · subst hb
      rw [Function.update_self, if_pos ⟨rfl, rfl⟩]
    · rw [Function.update_of_ne hb, if_neg fun hc => hb hc.2]
  · rw [Function.update_of_ne ha, if_neg fun hc => ha hc.1]

/-- **An item comes up.** Until then its owner was not complete, and nothing of it was elsewhere. -/
theorem Kept.put (h : G.Kept s) (hr : r ∈ G.items) (hnew : r ∉ s.has (G.owner r)) :
    G.Kept (if G.Complete (s.add (G.owner r) r) (G.owner r) then G.send (s.add (G.owner r) r) (G.owner r)
      else s.add (G.owner r) r) := by
  have hinc : ¬ G.Complete s (G.owner r) := fun hc => hnew (hc r ((G.mem_own _ _).2 ⟨hr, rfl⟩))
  have hsub := has_subset_add (s := s) (G.owner r) r
  have hempty : ∀ j, s.wire (G.owner r) j = [] := fun j =>
    List.eq_nil_iff_forall_not_mem.2 fun q hq => hinc (h.wire _ _ q hq).2.2.2.2.2
  have hknown : ∀ i, ∀ q ∈ (s.add (G.owner r) r).has i, q ∈ G.items ∧ i ∈ G.parties := by
    intro i q hq
    rcases mem_add.1 hq with hq | ⟨rfl, rfl⟩
    · exact h.known i q hq
    · exact ⟨hr, G.owner_mem q hr⟩
  have hlater : ∀ i, ∀ q ∈ (s.add (G.owner r) r).has i, G.owner q ≠ i →
      G.Complete (s.add (G.owner r) r) (G.owner q) := by
    intro i q hq hne
    rcases mem_add.1 hq with hq | ⟨rfl, rfl⟩
    · exact complete_mono hsub (h.later i q hq hne)
    · exact absurd rfl hne
  -- an item on its way is of another party, and goes where it is missing
  have hwire : ∀ i j, ∀ q ∈ s.wire i j, q ∈ G.items ∧ G.owner q = i ∧ j ∈ G.parties ∧ j ≠ i ∧
      q ∉ (s.add (G.owner r) r).has j ∧ G.Complete (s.add (G.owner r) r) i := by
    intro i j q hq
    obtain ⟨h₁, h₂, h₃, h₄, h₅, h₆⟩ := h.wire i j q hq
    refine ⟨h₁, h₂, h₃, h₄, fun hm => ?_, complete_mono hsub h₆⟩
    rcases mem_add.1 hm with hm | ⟨rfl, rfl⟩
    · exact h₅ hm
    · exact h₄ h₂
  by_cases hc : G.Complete (s.add (G.owner r) r) (G.owner r)
  · rw [if_pos hc]
    refine ⟨hknown, hlater, fun i j => ?_, fun i j q hq => ?_, fun j hj q hq hne hcq => ?_⟩
    · by_cases hi : i = G.owner r
      · subst hi
        have hw : (s.add (G.owner r) r).wire (G.owner r) j = [] := hempty j
        rw [wire_send_self, hw, List.nil_append]
        split
        · exact G.nodup_own _
        · exact List.nodup_nil
      · rw [wire_send_of_ne hi]
        exact h.once i j
    · by_cases hi : i = G.owner r
      · subst hi
        rcases mem_wire_send.1 hq with hq | ⟨hj, hji, hq⟩
        · rw [show (s.add (G.owner r) r).wire (G.owner r) j = [] from hempty j] at hq
          exact absurd hq List.not_mem_nil
        · obtain ⟨hqi, hqo⟩ := (G.mem_own _ _).1 hq
          refine ⟨hqi, hqo, hj, hji, fun hm => ?_, hc⟩
          rcases mem_add.1 hm with hm | ⟨rfl, -⟩
          · exact hinc (hqo ▸ h.later j q hm (by rw [hqo]; exact hji.symm))
          · exact hji rfl
      · rw [wire_send_of_ne hi] at hq
        exact hwire i j q hq
    · by_cases hi : G.owner q = G.owner r
      · refine .inr ?_
        rw [hi]
        exact mem_wire_send.2 (.inr ⟨hj, by rw [← hi]; exact hne.symm, (G.mem_own _ _).2 ⟨hq, hi⟩⟩)
      · rw [wire_send_of_ne hi]
        exact (h.sent j hj q hq hne ((complete_add_iff hi).1 hcq)).imp (fun hm => hsub j hm) id
  · rw [if_neg hc]
    refine ⟨hknown, hlater, h.once, hwire, fun j hj q hq hne hcq => ?_⟩
    have hi : G.owner q ≠ G.owner r := fun hi => hc (hi ▸ hcq)
    exact (h.sent j hj q hq hne ((complete_add_iff hi).1 hcq)).imp (fun hm => hsub j hm) id

/-- **An item arrives.** -/
theorem Kept.hand (h : G.Kept s) {rs : List ρ} (hw : s.wire i j = r :: rs) :
    G.Kept ((s.add j r).leave i j rs) := by
  have hsub := has_subset_add (s := s) j r
  obtain ⟨hr, rfl, hj, hji, -, hc⟩ := h.wire i j r (by rw [hw]; exact List.mem_cons_self)
  obtain ⟨hnot, hnd⟩ := List.nodup_cons.1 (hw ▸ h.once (G.owner r) j)
  have hmem : ∀ a b, ∀ q ∈ ((s.add j r).leave (G.owner r) j rs).wire a b,
      q ∈ s.wire a b ∧ (a = G.owner r ∧ b = j → q ≠ r) := by
    intro a b q hq
    rw [wire_leave] at hq
    split at hq
    · rename_i hab
      rw [hab.1, hab.2, hw]
      exact ⟨List.mem_cons_of_mem _ hq, fun _ hqr => hnot (hqr ▸ hq)⟩
    · rename_i hab
      exact ⟨hq, fun hc => absurd hc hab⟩
  refine ⟨fun a q hq => ?_, fun a q hq hne => ?_, fun a b => ?_, fun a b q hq => ?_, fun b hb q hq hne hcq => ?_⟩
  · rcases mem_add.1 hq with hq | ⟨rfl, rfl⟩
    · exact h.known a q hq
    · exact ⟨hr, hj⟩
  · rcases mem_add.1 hq with hq | ⟨rfl, rfl⟩
    · exact complete_mono hsub (h.later a q hq hne)
    · exact complete_mono hsub hc
  · rw [wire_leave]
    split
    · exact hnd
    · exact h.once a b
  · obtain ⟨hq, hqr⟩ := hmem a b q hq
    obtain ⟨h₁, h₂, h₃, h₄, h₅, h₆⟩ := h.wire a b q hq
    refine ⟨h₁, h₂, h₃, h₄, fun hm => ?_, complete_mono hsub h₆⟩
    rcases mem_add.1 hm with hm | ⟨rfl, rfl⟩
    · exact h₅ hm
    · exact hqr ⟨h₂.symm, rfl⟩ rfl
  · have hcs : G.Complete s (G.owner q) := by
      by_cases hqj : G.owner q = j
      · -- the item that arrives is of another party
        intro p hp
        rcases mem_add.1 (hcq p hp) with hm | ⟨-, rfl⟩
        · exact hm
        · exact absurd (((G.mem_own _ _).1 hp).2.trans hqj) hji.symm
      · exact (complete_add_iff hqj).1 hcq
    rcases h.sent b hb q hq hne hcs with hm | hm
    · exact .inl (hsub b hm)
    · by_cases hab : G.owner q = G.owner r ∧ b = j
      · rw [hab.1, hab.2, hw] at hm
        rcases List.mem_cons.1 hm with rfl | hm
        · exact .inl (mem_add.2 (.inr ⟨hab.2, rfl⟩))
        · refine .inr ?_
          rw [wire_leave, if_pos hab]
          exact hm
      · refine .inr ?_
        rw [wire_leave, if_neg hab]
        exact hm

theorem step_cases {m : Move ι ρ} (hs : G.step s m = some s') :
    (∃ r, m = .put r ∧ r ∈ G.items ∧ r ∉ s.has (G.owner r) ∧
      s' = if G.Complete (s.add (G.owner r) r) (G.owner r) then G.send (s.add (G.owner r) r) (G.owner r)
        else s.add (G.owner r) r) ∨
    ∃ i j r rs, m = .hand i j ∧ s.wire i j = r :: rs ∧
      s' = (s.add j r).leave i j rs := by
  cases m with
  | put r =>
    simp only [step] at hs
    split at hs
    · rename_i hr
      exact .inl ⟨r, rfl, hr.1, hr.2, (Option.some.inj hs).symm⟩
    · cases hs
  | hand i j =>
    simp only [step] at hs
    split at hs
    · cases hs
    · rename_i r rs hw
      exact .inr ⟨i, j, r, rs, rfl, hw, (Option.some.inj hs).symm⟩

theorem Kept.step (h : G.Kept s) {m : Move ι ρ} (hs : G.step s m = some s') : G.Kept s' := by
  obtain ⟨r, rfl, hr, hnew, rfl⟩ | ⟨i, j, r, rs, rfl, hw, rfl⟩ := step_cases hs
  · exact h.put hr hnew
  · exact h.hand hw

/-! ### Progress -/

theorem rest_add (hi : i ∈ G.parties) (hr : r ∈ G.items) (hnew : r ∉ s.has i)
    (hs : s'.has = (s.add i r).has) : G.rest s' + 1 = G.rest s := by
  have hone : (G.items \ s'.has i).card + 1 = (G.items \ s.has i).card := by
    have hset : G.items \ s'.has i = (G.items \ s.has i).erase r := by
      ext q
      rw [Finset.mem_sdiff, hs, mem_add, Finset.mem_erase, Finset.mem_sdiff]
      tauto
    rw [hset, Finset.card_erase_add_one (Finset.mem_sdiff.2 ⟨hr, hnew⟩)]
  have hrest : ∀ k ∈ G.parties.erase i, (G.items \ s'.has k).card = (G.items \ s.has k).card := by
    intro k hk
    rw [hs, Spread.add]
    dsimp only
    rw [Function.update_of_ne (Finset.ne_of_mem_erase hk)]
  rw [rest, rest, ← Finset.add_sum_erase _ _ hi, ← Finset.add_sum_erase _ _ hi, Finset.sum_congr rfl hrest]
  omega

/-- **A step brings one item to one party.** -/
theorem Kept.rest_step (h : G.Kept s) {m : Move ι ρ} (hs : G.step s m = some s') : G.rest s' + 1 = G.rest s := by
  obtain ⟨r, rfl, hr, hnew, rfl⟩ | ⟨i, j, r, rs, rfl, hw, rfl⟩ := step_cases hs
  · refine rest_add (G.owner_mem r hr) hr hnew ?_
    split <;> rfl
  · obtain ⟨hr, -, hj, -, hnew, -⟩ := h.wire i j r (by rw [hw]; exact List.mem_cons_self)
    exact rest_add hj hr hnew rfl

omit [DecidableEq ι] in
theorem rest_start : G.rest Spread.start = G.parties.card * G.items.card := by
  simp [rest, Spread.start]

/-- What is missing has not come up, or is on its way. -/
theorem Kept.missing (h : G.Kept s) (hj : j ∈ G.parties) (hr : r ∈ G.items) (hno : r ∉ s.has j) :
    (∃ q ∈ G.items, q ∉ s.has (G.owner q)) ∨ r ∈ s.wire (G.owner r) j := by
  by_cases hc : G.Complete s (G.owner r)
  · by_cases hne : G.owner r = j
    · exact .inl ⟨r, hr, hne ▸ hno⟩
    · exact .inr ((h.sent j hj r hr hne hc).resolve_left hno)
  · simp only [Complete, not_forall] at hc
    obtain ⟨q, hq, hn⟩ := hc
    obtain ⟨hqi, hqo⟩ := (G.mem_own _ _).1 hq
    exact .inl ⟨q, hqi, by rw [hqo]; exact hn⟩

/-- **As long as an item is missing, a step is possible.** -/
theorem Kept.exists_step (h : G.Kept s) (hne : G.rest s ≠ 0) : ∃ m s', G.step s m = some s' := by
  obtain ⟨j, hj, hcard⟩ := Finset.exists_ne_zero_of_sum_ne_zero hne
  obtain ⟨r, hr⟩ := Finset.card_ne_zero.1 hcard
  obtain ⟨hr, hno⟩ := Finset.mem_sdiff.1 hr
  rcases h.missing hj hr hno with ⟨q, hq, hn⟩ | hw
  · exact ⟨.put q, _, if_pos ⟨hq, hn⟩⟩
  · cases hl : s.wire (G.owner r) j with
    | nil => exact absurd hw (by rw [hl]; exact List.not_mem_nil)
    | cons p ps => exact ⟨.hand (G.owner r) j, _, by rw [Gathering.step, hl]⟩

/-- **When nothing is on its way and each item has come up, every party has all of them.** -/
theorem Kept.gathered (h : G.Kept s) (hup : ∀ r ∈ G.items, r ∈ s.has (G.owner r))
    (hquiet : ∀ i ∈ G.parties, ∀ j ∈ G.parties, s.wire i j = []) : ∀ j ∈ G.parties, s.has j = G.items := by
  intro j hj
  refine Finset.Subset.antisymm (fun r hr => (h.known j r hr).1) fun r hr => ?_
  by_contra hno
  rcases h.missing hj hr hno with ⟨q, hq, hn⟩ | hw
  · exact hn (hup q hq)
  · rw [hquiet _ (G.owner_mem r hr) j hj] at hw
    exact List.not_mem_nil hw

end Gathering

end Gather
