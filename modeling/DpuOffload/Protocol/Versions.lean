import Mathlib.Data.Finset.Basic
import Mathlib.Data.Finset.Lattice.Lemmas
import Mathlib.Data.Multiset.Basic
import Mathlib.Logic.Function.Basic

/-!
# The versions of a group

The protocol of an endpoint cache over the versions of a group, without its data: which
ranks an SP has entries of and at which version, which ranks it has marked as revoked, and
the entries, revokes and additions that are on their way to it. On the way means on a link,
put aside or in the hands of a callback; the order does not matter.

A version ends on an SP when all ranks are marked there, and a rank joins the next version
when its SP has told it so. So no SP is more than a version ahead of another, and what an SP
sees of the others bounds what can be on its way to it: `Inv` says how. It is kept by
whatever an SP does with what is on its way (`Inv.addEnt`, `Inv.addLocal`, `Inv.mark`,
`Inv.apply`), by what it sends (`Inv.exchange`, `Inv.mark`), and by the end of a version
(`Inv.post`, `Inv.reset`).

* `Inv.next_of_entTok`, `Inv.next_of_addTok` — **an entry that can be added is of the version
  the SP is at, or of the next one if it has no entry.**
* `Inv.num_of_bitTok` — **a revoke is of the version the SP is at.**

Every SP has a rank of the group here; an SP without one falls behind without limit.
-/

namespace DpuOffload.Versions

variable {ι ρ : Type*}

/-! ### One SP -/

/-- What the protocol sees of an SP. -/
@[ext]
structure Face (ρ : Type*) where
  /-- The version. -/
  num : ℕ
  /-- The last version whose final revoke was posted. -/
  posted : ℕ
  /-- The version of the entry of a rank, if it is set. -/
  ent : ρ → Option ℕ
  /-- The ranks marked as revoked. -/
  bits : Finset ρ
  /-- Is the exchange that follows an addition still to come? -/
  due : Bool

namespace Face

variable (f : Face ρ) (loc : Finset ρ)

/-- Does the SP have an entry? -/
def Active : Prop := ∃ r, f.ent r ≠ none

open Classical in
/-- The last version that has ended here. -/
noncomputable def done : ℕ := if f.Active then f.num - 1 else f.num

open Classical in
/-- The last version whose entries the SP has sent, `loc` being its ranks. -/
noncomputable def shown : ℕ := if f.Active ∧ (f.due = true ∨ ∃ r ∈ loc, f.ent r = none) then f.num - 1 else f.num

open Classical in
/-- The last version whose revokes the SP has sent. -/
noncomputable def freed : ℕ := if f.Active ∧ ¬ loc ⊆ f.bits then f.num - 1 else f.num

open Classical in
/-- The version of an entry that can be added. -/
noncomputable def next : ℕ := if f.Active then f.num else f.num + 1

/-- Is the entry of rank `r` at version `v` still to come? -/
def Wants (r : ρ) (v : ℕ) : Prop := f.done < v ∧ ¬ (f.num = v ∧ f.ent r ≠ none)

/-- Is the revoke of rank `r` at version `v` still to come? -/
def Misses (r : ρ) (v : ℕ) : Prop := f.done < v ∧ ¬ (f.num = v ∧ r ∈ f.bits)

/-- **What an SP keeps by itself.** -/
structure Ok (all : Finset ρ) (f : Face ρ) (loc : Finset ρ) : Prop where
  /-- The first version is 1. -/
  one : f.Active → 1 ≤ f.num
  /-- All entries are of one version. -/
  ver : ∀ r v, f.ent r = some v → v = f.num
  /-- Ranks are marked when the group is complete. -/
  full : f.bits.Nonempty → ∀ r ∈ all, f.ent r ≠ none
  /-- Ranks of the group are. -/
  sub : f.bits ⊆ all
  /-- The final revoke is posted once per version, -/
  posted_le : f.posted ≤ f.num
  /-- and in every version, -/
  le_posted : f.num ≤ f.posted + 1
  /-- before it ends, -/
  idle : ¬ f.Active → f.posted = f.num
  /-- when all ranks are marked. -/
  closing : f.Active → f.posted = f.num → all ⊆ f.bits
  /-- Ranks of other SPs are marked after those of this SP. -/
  remote : ∀ r ∈ f.bits, r ∉ loc → loc ⊆ f.bits
  /-- An exchange comes before. -/
  due : f.due = true → f.bits = ∅

/-- The exchange that was due is over. -/
def settle : Face ρ := { f with due := false }

/-- The final revoke is posted. -/
def post : Face ρ := { f with posted := f.num }

/-- The version ends. -/
def reset : Face ρ := { f with ent := fun _ => none, bits := ∅ }

variable {f loc} {all : Finset ρ} {r : ρ} {v : ℕ}

theorem done_of_active (h : f.Active) : f.done = f.num - 1 := if_pos h

theorem done_of_not_active (h : ¬ f.Active) : f.done = f.num := if_neg h

theorem next_of_active (h : f.Active) : f.next = f.num := if_pos h

theorem next_of_not_active (h : ¬ f.Active) : f.next = f.num + 1 := if_neg h

theorem shown_le : f.shown loc ≤ f.num := by
  unfold shown
  split <;> omega

theorem freed_le : f.freed loc ≤ f.num := by
  unfold freed
  split <;> omega

theorem num_le_next : f.num ≤ f.next := by
  unfold next
  split <;> omega

theorem freed_of_subset (h : loc ⊆ f.bits) : f.freed loc = f.num := if_neg fun hc => hc.2 h

theorem shown_of_not_active (h : ¬ f.Active) : f.shown loc = f.num := if_neg fun hc => h hc.1

theorem freed_of_not_active (h : ¬ f.Active) : f.freed loc = f.num := if_neg fun hc => h hc.1

theorem not_subset_of_empty (hne : loc.Nonempty) (hb : f.bits = ∅) : ¬ loc ⊆ f.bits := by
  rw [hb, Finset.subset_empty]
  exact hne.ne_empty

theorem done_eq_freed (hne : loc.Nonempty) (hb : f.bits = ∅) : f.freed loc = f.done := by
  by_cases ha : f.Active
  · rw [done_of_active ha]
    exact if_pos ⟨ha, not_subset_of_empty hne hb⟩
  · rw [done_of_not_active ha]
    exact freed_of_not_active ha

/-- Between what has ended and what the others may have begun there is one version. -/
theorem eq_next (hok : f.Ok all loc) (hne : loc.Nonempty) (hb : f.bits = ∅) (hlo : f.done < v)
    (hhi : v ≤ f.freed loc + 1) : v = f.next := by
  rw [done_eq_freed hne hb] at hhi
  by_cases ha : f.Active
  · have := hok.one ha
    rw [done_of_active ha] at hlo hhi
    rw [next_of_active ha]
    omega
  · rw [done_of_not_active ha] at hlo hhi
    rw [next_of_not_active ha]
    omega

theorem Ok.posted_le_freed (h : f.Ok all loc) (hsub : loc ⊆ all) : f.posted ≤ f.freed loc := by
  have hle := h.posted_le
  unfold freed
  split
  · rename_i hc
    have hne : f.posted ≠ f.num := fun he => hc.2 (hsub.trans (h.closing hc.1 he))
    omega
  · exact hle

theorem Ok.done_le_posted (h : f.Ok all loc) : f.done ≤ f.posted := by
  by_cases ha : f.Active
  · rw [done_of_active ha]
    have := h.le_posted
    omega
  · rw [done_of_not_active ha, h.idle ha]

theorem Ok.freed_le_shown (h : f.Ok all loc) (hsub : loc ⊆ all) (hne : loc.Nonempty) :
    f.freed loc ≤ f.shown loc := by
  unfold shown
  split
  · rename_i hc
    have hnot : ¬ loc ⊆ f.bits := by
      intro hl
      have hb : f.bits.Nonempty := hne.mono hl
      rcases hc.2 with hd | ⟨r, hr, hn⟩
      · exact hb.ne_empty (h.due hd)
      · exact h.full hb r (hsub hr) hn
    rw [freed, if_pos ⟨hc.1, hnot⟩]
  · exact freed_le

/-! ### An entry is added -/

variable [DecidableEq ρ]

/-- Add an entry of the version that can be added. -/
noncomputable def add (f : Face ρ) (r : ρ) (due : Bool) : Face ρ :=
  { f with num := f.next, ent := Function.update f.ent r (some f.next), due := due }

theorem add_ent_self (due : Bool) : (f.add r due).ent r = some f.next := Function.update_self ..

theorem add_ent_of_ne {q : ρ} (h : q ≠ r) (due : Bool) : (f.add r due).ent q = f.ent q := Function.update_of_ne h ..

theorem add_active (due : Bool) : (f.add r due).Active := ⟨r, by rw [add_ent_self]; exact Option.some_ne_none _⟩

theorem add_done (due : Bool) : (f.add r due).done = f.done := by
  rw [done_of_active (add_active due)]
  by_cases ha : f.Active
  · rw [done_of_active ha, add, next_of_active ha]
  · rw [done_of_not_active ha, add, next_of_not_active ha]
    rfl

theorem add_freed (hne : loc.Nonempty) (hb : f.bits = ∅) (due : Bool) : (f.add r due).freed loc = f.freed loc := by
  rw [done_eq_freed hne hb, ← add_done due]
  exact done_eq_freed hne hb

theorem num_sub_one_add (due : Bool) : (f.add r due).num - 1 = f.done := by
  rw [← add_done due, done_of_active (add_active due)]

/-- An entry of a rank of another SP. -/
theorem add_shown_remote (hr : r ∉ loc) (hne : loc.Nonempty) : (f.add r f.due).shown loc = f.shown loc := by
  have hent : ∀ q ∈ loc, (f.add r f.due).ent q = f.ent q := fun q hq =>
    add_ent_of_ne (fun h : q = r => hr (h ▸ hq)) _
  by_cases ha : f.Active
  · have hiff : (∃ q ∈ loc, (f.add r f.due).ent q = none) ↔ ∃ q ∈ loc, f.ent q = none :=
      exists_congr fun q => and_congr_right fun hq => by rw [hent q hq]
    have hnum : (f.add r f.due).num = f.num := next_of_active ha
    have hdue : (f.add r f.due).due = f.due := rfl
    simp only [shown, hiff, add_active, ha, hnum, hdue, true_and]
  · obtain ⟨q, hq⟩ := hne
    have hn : f.ent q = none := not_not.1 fun h => ha ⟨q, h⟩
    rw [shown, if_pos ⟨add_active _, .inr ⟨q, hq, by rw [hent q hq]; exact hn⟩⟩, num_sub_one_add,
      shown_of_not_active ha, done_of_not_active ha]

/-- An entry of a rank of this SP, the exchange being due. -/
theorem add_shown_local (hr : r ∈ loc) (hn : f.ent r = none) : (f.add r true).shown loc = f.shown loc := by
  rw [shown, if_pos ⟨add_active _, .inl rfl⟩, num_sub_one_add]
  by_cases ha : f.Active
  · rw [shown, if_pos ⟨ha, .inr ⟨r, hr, hn⟩⟩, done_of_active ha]
  · rw [shown_of_not_active ha, done_of_not_active ha]

theorem Ok.add (h : f.Ok all loc) (hb : f.bits = ∅) (due : Bool) : (f.add r due).Ok all loc where
  one _ := by
    change 1 ≤ f.next
    by_cases ha : f.Active
    · rw [next_of_active ha]
      exact h.one ha
    · rw [next_of_not_active ha]
      exact Nat.succ_le_succ (Nat.zero_le _)
  ver q v hq := by
    by_cases hqr : q = r
    · rw [hqr, add_ent_self] at hq
      cases hq
      rfl
    · rw [add_ent_of_ne hqr] at hq
      have ha : f.Active := ⟨q, by rw [hq]; exact Option.some_ne_none v⟩
      rw [h.ver q v hq]
      exact (next_of_active ha).symm
  full hbn := absurd hb hbn.ne_empty
  sub := h.sub
  posted_le := h.posted_le.trans num_le_next
  le_posted := by
    change f.next ≤ f.posted + 1
    by_cases ha : f.Active
    · rw [next_of_active ha]
      exact h.le_posted
    · rw [next_of_not_active ha, h.idle ha]
  idle hn := absurd (add_active due) hn
  closing _ hp := by
    have hp : f.posted = f.next := hp
    by_cases ha : f.Active
    · rw [next_of_active ha] at hp
      exact h.closing ha hp
    · rw [next_of_not_active ha, h.idle ha] at hp
      omega
  remote := h.remote
  due _ := hb

theorem Wants.of_add {q : ρ} {due : Bool} (h : (f.add q due).Wants r v) : f.Wants r v := by
  refine ⟨by rw [← add_done due]; exact h.1, fun hc => h.2 ⟨?_, ?_⟩⟩
  · exact (next_of_active ⟨r, hc.2⟩).trans hc.1
  · by_cases hq : r = q
    · rw [hq, add_ent_self]
      exact Option.some_ne_none _
    · rw [add_ent_of_ne hq]
      exact hc.2

theorem Wants.add (h : f.Wants r v) {q : ρ} (hq : r ≠ q ∨ v ≠ f.next) (due : Bool) : (f.add q due).Wants r v := by
  refine ⟨by rw [add_done]; exact h.1, ?_⟩
  rintro ⟨hnum, hent⟩
  rcases hq with hq | hq
  · rw [add_ent_of_ne hq] at hent
    exact h.2 ⟨(next_of_active ⟨r, hent⟩).symm.trans hnum, hent⟩
  · exact hq hnum.symm

end Face

/-! ### All SPs -/

/-- The ranks of a group and their SPs, each of which has a rank. -/
structure Group (ι ρ : Type*) where
  /-- The ranks. -/
  all : Finset ρ
  /-- The SP of a rank. -/
  spOf : ρ → ι
  /-- The SPs. -/
  sps : Set ι
  /-- A rank is on one of the SPs. -/
  spOf_mem : ∀ r ∈ all, spOf r ∈ sps
  /-- An SP has a rank. -/
  inhabited : ∀ i ∈ sps, ∃ r ∈ all, spOf r = i

open Classical in
/-- The ranks of an SP. -/
noncomputable def Group.locals (G : Group ι ρ) (i : ι) : Finset ρ := G.all.filter fun r => G.spOf r = i

/-- What is known of all SPs and ranks, and what is on its way. -/
@[ext]
structure Snap (ι ρ : Type*) where
  /-- The SPs. -/
  sp : ι → Face ρ
  /-- How often a rank has joined. -/
  joined : ρ → ℕ
  /-- How often it has left. -/
  left : ρ → ℕ
  /-- The entries on their way to an SP. -/
  entTok : ι → Multiset (ρ × ℕ)
  /-- The revokes on their way to an SP. -/
  bitTok : ι → Multiset (ρ × ℕ)
  /-- The additions on their way to an SP. -/
  addTok : ι → Multiset (ρ × ℕ)

variable (G : Group ι ρ)

/-- The last version whose entries SP `i` has sent. -/
noncomputable def Snap.shown (s : Snap ι ρ) (i : ι) : ℕ := (s.sp i).shown (G.locals i)

/-- The last version whose revokes SP `i` has sent. -/
noncomputable def Snap.freed (s : Snap ι ρ) (i : ι) : ℕ := (s.sp i).freed (G.locals i)

/-- **What the protocol keeps.** -/
structure Inv (s : Snap ι ρ) : Prop where
  /-- About each SP. -/
  ok : ∀ i ∈ G.sps, (s.sp i).Ok G.all (G.locals i)
  /-- The SP of a rank marked elsewhere has sent its revokes. -/
  bits : ∀ i ∈ G.sps, ∀ r ∈ (s.sp i).bits, G.spOf r ≠ i → (s.sp i).num ≤ s.freed G (G.spOf r)
  /-- A version ends when every SP has. -/
  posted : ∀ i ∈ G.sps, ∀ j ∈ G.sps, (s.sp i).posted ≤ s.freed G j
  /-- An SP sends its revokes when every SP has begun the version. -/
  freed : ∀ i ∈ G.sps, ∀ j ∈ G.sps, s.freed G i ≤ (s.sp j).num
  /-- The SP of a rank with an entry elsewhere has sent its entries. -/
  ents : ∀ i ∈ G.sps, ∀ r v, (s.sp i).ent r = some v → G.spOf r ≠ i → v ≤ s.shown G (G.spOf r)
  /-- The same of entries on their way; each comes once. -/
  entTok : ∀ j ∈ G.sps, (s.entTok j).Nodup ∧ ∀ r v, (r, v) ∈ s.entTok j →
    r ∈ G.all ∧ G.spOf r ≠ j ∧ v ≤ s.shown G (G.spOf r) ∧ (s.sp j).Wants r v
  /-- The same of revokes on their way. -/
  bitTok : ∀ j ∈ G.sps, (s.bitTok j).Nodup ∧ ∀ r v, (r, v) ∈ s.bitTok j →
    r ∈ G.all ∧ G.spOf r ≠ j ∧ v ≤ s.freed G (G.spOf r) ∧ (s.sp j).Misses r v
  /-- An addition comes once. -/
  addTok : ∀ j ∈ G.sps, (s.addTok j).Nodup ∧ ∀ r v, (r, v) ∈ s.addTok j →
    r ∈ G.all ∧ G.spOf r = j ∧ v ≤ s.joined r ∧ (s.sp j).Wants r v
  /-- A rank joins when the version before has ended. -/
  joined : ∀ r ∈ G.all, s.joined r ≤ (s.sp (G.spOf r)).posted + 1
  /-- Its entry is there when it has joined, -/
  entry : ∀ r ∈ G.all, ∀ v, (s.sp (G.spOf r)).ent r = some v → v ≤ s.joined r
  /-- and no version ends without. -/
  done : ∀ r ∈ G.all, (s.sp (G.spOf r)).done ≤ s.joined r
  /-- An addition still to come is on its way. -/
  there : ∀ r ∈ G.all, (s.sp (G.spOf r)).Wants r (s.joined r) → (r, s.joined r) ∈ s.addTok (G.spOf r)
  /-- A rank is marked when it has left, -/
  left : ∀ r ∈ G.all, r ∈ (s.sp (G.spOf r)).bits → (s.sp (G.spOf r)).num ≤ s.left r
  /-- and no version ends before. -/
  ended : ∀ r ∈ G.all, (s.sp (G.spOf r)).done ≤ s.left r

variable {G} {s : Snap ι ρ} {i j : ι} {r : ρ} {v : ℕ}

theorem Group.mem_locals : r ∈ G.locals i ↔ r ∈ G.all ∧ G.spOf r = i := by
  classical exact Finset.mem_filter

theorem Group.locals_subset (G : Group ι ρ) (i : ι) : G.locals i ⊆ G.all := fun _ h => (Group.mem_locals.1 h).1

theorem Group.locals_nonempty (hi : i ∈ G.sps) : (G.locals i).Nonempty := by
  obtain ⟨r, hr, hri⟩ := G.inhabited i hi
  exact ⟨r, Group.mem_locals.2 ⟨hr, hri⟩⟩

/-- An SP that has not heard of the group. -/
def Face.init : Face ρ where
  num := 0
  posted := 0
  ent _ := none
  bits := ∅
  due := false

/-- Nobody has heard of the group. -/
def Snap.init : Snap ι ρ where
  sp _ := Face.init
  joined _ := 0
  left _ := 0
  entTok _ := 0
  bitTok _ := 0
  addTok _ := 0

theorem Face.init_idle : ¬ (Face.init : Face ρ).Active := fun ⟨_, hr⟩ => hr rfl

theorem inv_init : Inv G (Snap.init : Snap ι ρ) where
  ok _ _ :=
    { one := fun ha => absurd ha Face.init_idle
      ver := fun _ _ hv => by cases hv
      full := fun hb => absurd rfl hb.ne_empty
      sub := Finset.empty_subset _
      posted_le := le_rfl
      le_posted := Nat.zero_le _
      idle := fun _ => rfl
      closing := fun ha => absurd ha Face.init_idle
      remote := fun r hr => absurd hr (Finset.notMem_empty r)
      due := fun _ => rfl }
  bits _ _ r hr := absurd hr (Finset.notMem_empty r)
  posted _ _ _ _ := Nat.zero_le _
  freed _ _ _ _ := (Face.freed_of_not_active Face.init_idle).le
  ents _ _ _ _ hv := by cases hv
  entTok _ _ := ⟨Multiset.nodup_zero, fun _ _ hm => absurd hm (Multiset.notMem_zero _)⟩
  bitTok _ _ := ⟨Multiset.nodup_zero, fun _ _ hm => absurd hm (Multiset.notMem_zero _)⟩
  addTok _ _ := ⟨Multiset.nodup_zero, fun _ _ hm => absurd hm (Multiset.notMem_zero _)⟩
  joined _ _ := Nat.zero_le _
  entry _ _ _ hv := by cases hv
  done _ _ := (Face.done_of_not_active Face.init_idle).le
  there _ _ hw := absurd hw.1 (Nat.not_lt_zero _)
  left r _ hr := absurd hr (Finset.notMem_empty r)
  ended _ _ := (Face.done_of_not_active Face.init_idle).le

/-- No SP has sent entries of a version that another has not ended or is about to end. -/
theorem Inv.shown_le (h : Inv G s) (hi : i ∈ G.sps) (hj : j ∈ G.sps) : s.shown G i ≤ s.freed G j + 1 :=
  calc s.shown G i ≤ (s.sp i).num := Face.shown_le
    _ ≤ (s.sp i).posted + 1 := (h.ok i hi).le_posted
    _ ≤ s.freed G j + 1 := Nat.succ_le_succ (h.posted i hi j hj)

/-- No version has ended whose revokes an SP has not sent. -/
theorem Inv.done_le_freed (h : Inv G s) (hi : i ∈ G.sps) (hj : j ∈ G.sps) : (s.sp i).done ≤ s.freed G j :=
  (h.ok i hi).done_le_posted.trans (h.posted i hi j hj)

/-- Nor one whose entries it has not sent. -/
theorem Inv.done_le_shown (h : Inv G s) (hi : i ∈ G.sps) (hj : j ∈ G.sps) : (s.sp i).done ≤ s.shown G j :=
  (h.done_le_freed hi hj).trans ((h.ok j hj).freed_le_shown (G.locals_subset j) (Group.locals_nonempty hj))

/-- **An entry that can be added is of the version the SP is at**, or of the next one. -/
theorem Inv.next_of_entTok (h : Inv G s) (hj : j ∈ G.sps) (hb : (s.sp j).bits = ∅) (ht : (r, v) ∈ s.entTok j) :
    v = (s.sp j).next := by
  obtain ⟨hr, -, hle, hw⟩ := (h.entTok j hj).2 r v ht
  exact Face.eq_next (h.ok j hj) (Group.locals_nonempty hj) hb hw.1 (hle.trans (h.shown_le (G.spOf_mem r hr) hj))

/-- **So is a rank that joins.** -/
theorem Inv.next_of_addTok (h : Inv G s) (hj : j ∈ G.sps) (hb : (s.sp j).bits = ∅) (ht : (r, v) ∈ s.addTok j) :
    v = (s.sp j).next := by
  obtain ⟨hr, rfl, hle, hw⟩ := (h.addTok j hj).2 r v ht
  refine Face.eq_next (h.ok _ hj) (Group.locals_nonempty hj) hb hw.1 ((hle.trans (h.joined r hr)).trans ?_)
  exact Nat.succ_le_succ (h.posted _ hj _ hj)

/-- **A revoke is of the version the SP is at.** -/
theorem Inv.num_of_bitTok (h : Inv G s) (hj : j ∈ G.sps) (ht : (r, v) ∈ s.bitTok j) :
    (s.sp j).Active ∧ v = (s.sp j).num := by
  obtain ⟨hr, -, hle, hm⟩ := (h.bitTok j hj).2 r v ht
  have hnum : v ≤ (s.sp j).num := hle.trans (h.freed _ (G.spOf_mem r hr) j hj)
  have hlo := hm.1
  by_cases ha : (s.sp j).Active
  · rw [Face.done_of_active ha] at hlo
    exact ⟨ha, by omega⟩
  · rw [Face.done_of_not_active ha] at hlo
    omega

/-! ### An SP takes a step -/

/-- What a step of SP `j` has to respect, given what the others know. -/
structure Steps (G : Group ι ρ) (s : Snap ι ρ) (j : ι) (f : Face ρ) : Prop where
  /-- It keeps what it keeps by itself. -/
  ok : f.Ok G.all (G.locals j)
  /-- Versions grow, -/
  num : (s.sp j).num ≤ f.num
  /-- what it has sent grows, -/
  shown : s.shown G j ≤ f.shown (G.locals j)
  /-- of entries and of revokes, -/
  freed : s.freed G j ≤ f.freed (G.locals j)
  /-- and what it has told its ranks grows. -/
  posted : (s.sp j).posted ≤ f.posted
  /-- It marks ranks whose SPs have sent their revokes, -/
  bits : ∀ r ∈ f.bits, G.spOf r ≠ j → f.num ≤ s.freed G (G.spOf r)
  /-- ends a version when all of them have, -/
  ends : ∀ k ∈ G.sps, k ≠ j → f.posted ≤ s.freed G k
  /-- sends its revokes when they have begun the version, -/
  begun : ∀ k ∈ G.sps, k ≠ j → f.freed (G.locals j) ≤ (s.sp k).num
  /-- and adds entries they have sent. -/
  ents : ∀ r v, f.ent r = some v → G.spOf r ≠ j → v ≤ s.shown G (G.spOf r)
  /-- It adds its own ranks when they have joined, -/
  entry : ∀ r ∈ G.locals j, ∀ v, f.ent r = some v → v ≤ s.joined r
  /-- ends no version without them, -/
  done : ∀ r ∈ G.locals j, f.done ≤ s.joined r
  /-- marks them when they have left, -/
  left : ∀ r ∈ G.locals j, r ∈ f.bits → f.num ≤ s.left r
  /-- and ends no version before. -/
  ended : ∀ r ∈ G.locals j, f.done ≤ s.left r

/-- Doing nothing is a step. -/
theorem Inv.steps_self (h : Inv G s) (hj : j ∈ G.sps) : Steps G s j (s.sp j) where
  ok := h.ok j hj
  num := le_rfl
  shown := le_rfl
  freed := le_rfl
  posted := le_rfl
  bits := h.bits j hj
  ends k hk _ := h.posted j hj k hk
  begun k hk _ := h.freed j hj k hk
  ents := h.ents j hj
  entry r hr v hv := by
    obtain ⟨hra, rfl⟩ := Group.mem_locals.1 hr
    exact h.entry r hra v hv
  done r hr := by
    obtain ⟨hra, rfl⟩ := Group.mem_locals.1 hr
    exact h.done r hra
  left r hr hb := by
    obtain ⟨hra, rfl⟩ := Group.mem_locals.1 hr
    exact h.left r hra hb
  ended r hr := by
    obtain ⟨hra, rfl⟩ := Group.mem_locals.1 hr
    exact h.ended r hra

/-- The additions to SP `j` that are still to come. -/
theorem Inv.there_self (h : Inv G s) (r : ρ) (hr : r ∈ G.locals j) (hw : (s.sp j).Wants r (s.joined r)) :
    (r, s.joined r) ∈ s.addTok j := by
  obtain ⟨hra, rfl⟩ := Group.mem_locals.1 hr
  exact h.there r hra hw

/-- An entry is added, of the version that can be added. -/
theorem Inv.steps_add [DecidableEq ρ] (h : Inv G s) (hj : j ∈ G.sps) (hb : (s.sp j).bits = ∅) {due : Bool}
    (hshown : ((s.sp j).add r due).shown (G.locals j) = s.shown G j)
    (hr : G.spOf r ≠ j → (s.sp j).next ≤ s.shown G (G.spOf r)) (hr' : r ∈ G.locals j → (s.sp j).next ≤ s.joined r) :
    Steps G s j ((s.sp j).add r due) := by
  have hs := h.steps_self hj
  have hfreed : ((s.sp j).add r due).freed (G.locals j) = s.freed G j := Face.add_freed (Group.locals_nonempty hj) hb _
  have hbits : ((s.sp j).add r due).bits = ∅ := hb
  refine ⟨hs.ok.add hb _, Face.num_le_next, hshown.ge, hfreed.ge, hs.posted, fun q hq => ?_, hs.ends, fun k hk hne => ?_,
    fun q v hv hne => ?_, fun q hq v hv => ?_, fun q hq => ?_, fun q hq hqb => ?_, fun q hq => ?_⟩
  · rw [hbits] at hq
    exact absurd hq (Finset.notMem_empty q)
  · rw [hfreed]
    exact hs.begun k hk hne
  · by_cases hqr : q = r
    · subst hqr
      rw [Face.add_ent_self] at hv
      cases hv
      exact hr hne
    · rw [Face.add_ent_of_ne hqr] at hv
      exact hs.ents q v hv hne
  · by_cases hqr : q = r
    · subst hqr
      rw [Face.add_ent_self] at hv
      cases hv
      exact hr' hq
    · rw [Face.add_ent_of_ne hqr] at hv
      exact hs.entry q hq v hv
  · rw [Face.add_done]
    exact hs.done q hq
  · rw [hbits] at hqb
    exact absurd hqb (Finset.notMem_empty q)
  · rw [Face.add_done]
    exact hs.ended q hq

/-- What is on its way is still to come after an entry of another rank is added. -/
theorem Inv.misses_add [DecidableEq ρ] (h : Inv G s) (hj : j ∈ G.sps) (hb : (s.sp j).bits = ∅) (due : Bool) (q : ρ)
    (r : ρ) (v : ℕ) (hm : (r, v) ∈ s.bitTok j) : ((s.sp j).add q due).Misses r v := by
  refine ⟨by rw [Face.add_done]; exact ((h.bitTok j hj).2 r v hm).2.2.2.1, fun hc => ?_⟩
  have hbits : ((s.sp j).add q due).bits = ∅ := hb
  rw [hbits] at hc
  exact Finset.notMem_empty r hc.2

section
variable [DecidableEq ι]

/-- SP `j` and what is on its way to it after a step. -/
def Snap.put (s : Snap ι ρ) (j : ι) (f : Face ρ) (E B A : Multiset (ρ × ℕ)) : Snap ι ρ :=
  { s with
    sp := Function.update s.sp j f
    entTok := Function.update s.entTok j E
    bitTok := Function.update s.bitTok j B
    addTok := Function.update s.addTok j A }

variable {f : Face ρ} {E B A : Multiset (ρ × ℕ)}

theorem Snap.put_sp_self : (s.put j f E B A).sp j = f := Function.update_self ..

theorem Snap.put_sp_of_ne (h : i ≠ j) : (s.put j f E B A).sp i = s.sp i := Function.update_of_ne h ..

theorem Snap.put_entTok_self : (s.put j f E B A).entTok j = E := Function.update_self ..

theorem Snap.put_entTok_of_ne (h : i ≠ j) : (s.put j f E B A).entTok i = s.entTok i := Function.update_of_ne h ..

theorem Snap.put_bitTok_self : (s.put j f E B A).bitTok j = B := Function.update_self ..

theorem Snap.put_bitTok_of_ne (h : i ≠ j) : (s.put j f E B A).bitTok i = s.bitTok i := Function.update_of_ne h ..

theorem Snap.put_addTok_self : (s.put j f E B A).addTok j = A := Function.update_self ..

theorem Snap.put_addTok_of_ne (h : i ≠ j) : (s.put j f E B A).addTok i = s.addTok i := Function.update_of_ne h ..

/-- **The step rule**: a step of an SP that respects what the others know, and after which
what is on its way to it is still to come. -/
theorem Inv.put (h : Inv G s) (hj : j ∈ G.sps) (hs : Steps G s j f) (hE : E ≤ s.entTok j)
    (hE' : ∀ r v, (r, v) ∈ E → f.Wants r v) (hB : B ≤ s.bitTok j) (hB' : ∀ r v, (r, v) ∈ B → f.Misses r v)
    (hA : A ≤ s.addTok j) (hA' : ∀ r v, (r, v) ∈ A → f.Wants r v)
    (hthere : ∀ r ∈ G.locals j, f.Wants r (s.joined r) → (r, s.joined r) ∈ A) : Inv G (s.put j f E B A) := by
  have hself : (s.put j f E B A).sp j = f := Snap.put_sp_self
  have hother : ∀ {k}, k ≠ j → (s.put j f E B A).sp k = s.sp k := Snap.put_sp_of_ne
  have hfself : (s.put j f E B A).freed G j = f.freed (G.locals j) := by rw [Snap.freed, hself]
  have hsself : (s.put j f E B A).shown G j = f.shown (G.locals j) := by rw [Snap.shown, hself]
  have hfo : ∀ {k}, k ≠ j → (s.put j f E B A).freed G k = s.freed G k := fun hk => by
    rw [Snap.freed, hother hk, Snap.freed]
  have hso : ∀ {k}, k ≠ j → (s.put j f E B A).shown G k = s.shown G k := fun hk => by
    rw [Snap.shown, hother hk, Snap.shown]
  have hfmono : ∀ k, s.freed G k ≤ (s.put j f E B A).freed G k := fun k => by
    by_cases hk : k = j
    · subst hk; rw [hfself]; exact hs.freed
    · rw [hfo hk]
  have hsmono : ∀ k, s.shown G k ≤ (s.put j f E B A).shown G k := fun k => by
    by_cases hk : k = j
    · subst hk; rw [hsself]; exact hs.shown
    · rw [hso hk]
  refine ⟨fun i hi => ?_, fun i hi r hr hne => ?_, fun i hi k hk => ?_, fun i hi k hk => ?_, fun i hi r v hv hne => ?_,
    fun k hk => ?_, fun k hk => ?_, fun k hk => ?_, fun r hr => ?_, fun r hr v hv => ?_, fun r hr => ?_,
    fun r hr hw => ?_, fun r hr hb => ?_, fun r hr => ?_⟩
  · by_cases hij : i = j
    · subst hij; rw [hself]; exact hs.ok
    · rw [hother hij]; exact h.ok i hi
  · by_cases hij : i = j
    · subst hij
      rw [hself] at hr ⊢
      exact (hs.bits r hr hne).trans (hfmono _)
    · rw [hother hij] at hr ⊢
      exact (h.bits i hi r hr hne).trans (hfmono _)
  · by_cases hij : i = j
    · subst hij
      rw [hself]
      by_cases hki : k = i
      · subst hki; rw [hfself]; exact hs.ok.posted_le_freed (G.locals_subset k)
      · rw [hfo hki]; exact hs.ends k hk hki
    · rw [hother hij]
      exact (h.posted i hi k hk).trans (hfmono k)
  · by_cases hkj : k = j
    · subst hkj
      rw [hself]
      by_cases hik : i = k
      · subst hik; rw [hfself]; exact Face.freed_le
      · rw [hfo hik]; exact (h.freed i hi k hk).trans hs.num
    · rw [hother hkj]
      by_cases hij : i = j
      · subst hij; rw [hfself]; exact hs.begun k hk hkj
      · rw [hfo hij]; exact h.freed i hi k hk
  · by_cases hij : i = j
    · subst hij
      rw [hself] at hv
      exact (hs.ents r v hv hne).trans (hsmono _)
    · rw [hother hij] at hv
      exact (h.ents i hi r v hv hne).trans (hsmono _)
  · obtain ⟨hnd, htok⟩ := h.entTok k hk
    by_cases hkj : k = j
    · subst hkj
      rw [hself, Snap.put_entTok_self]
      refine ⟨Multiset.nodup_of_le hE hnd, fun r v hm => ?_⟩
      obtain ⟨h₁, h₂, h₃, -⟩ := htok r v (Multiset.mem_of_le hE hm)
      exact ⟨h₁, h₂, h₃.trans (hsmono _), hE' r v hm⟩
    · rw [hother hkj, Snap.put_entTok_of_ne hkj]
      refine ⟨hnd, fun r v hm => ?_⟩
      obtain ⟨h₁, h₂, h₃, h₄⟩ := htok r v hm
      exact ⟨h₁, h₂, h₃.trans (hsmono _), h₄⟩
  · obtain ⟨hnd, htok⟩ := h.bitTok k hk
    by_cases hkj : k = j
    · subst hkj
      rw [hself, Snap.put_bitTok_self]
      refine ⟨Multiset.nodup_of_le hB hnd, fun r v hm => ?_⟩
      obtain ⟨h₁, h₂, h₃, -⟩ := htok r v (Multiset.mem_of_le hB hm)
      exact ⟨h₁, h₂, h₃.trans (hfmono _), hB' r v hm⟩
    · rw [hother hkj, Snap.put_bitTok_of_ne hkj]
      refine ⟨hnd, fun r v hm => ?_⟩
      obtain ⟨h₁, h₂, h₃, h₄⟩ := htok r v hm
      exact ⟨h₁, h₂, h₃.trans (hfmono _), h₄⟩
  · obtain ⟨hnd, htok⟩ := h.addTok k hk
    by_cases hkj : k = j
    · subst hkj
      rw [hself, Snap.put_addTok_self]
      refine ⟨Multiset.nodup_of_le hA hnd, fun r v hm => ?_⟩
      obtain ⟨h₁, h₂, h₃, -⟩ := htok r v (Multiset.mem_of_le hA hm)
      exact ⟨h₁, h₂, h₃, hA' r v hm⟩
    · rw [hother hkj, Snap.put_addTok_of_ne hkj]
      exact ⟨hnd, htok⟩
  · have hjn := h.joined r hr
    by_cases hrj : G.spOf r = j
    · rw [hrj] at hjn ⊢
      rw [hself]
      exact hjn.trans (Nat.succ_le_succ hs.posted)
    · rw [hother hrj]
      exact hjn
  · by_cases hrj : G.spOf r = j
    · rw [hrj, hself] at hv
      exact hs.entry r (Group.mem_locals.2 ⟨hr, hrj⟩) v hv
    · rw [hother hrj] at hv
      exact h.entry r hr v hv
  · by_cases hrj : G.spOf r = j
    · rw [hrj, hself]
      exact hs.done r (Group.mem_locals.2 ⟨hr, hrj⟩)
    · rw [hother hrj]
      exact h.done r hr
  · by_cases hrj : G.spOf r = j
    · rw [hrj, hself] at hw
      rw [hrj, Snap.put_addTok_self]
      exact hthere r (Group.mem_locals.2 ⟨hr, hrj⟩) hw
    · rw [hother hrj] at hw
      rw [Snap.put_addTok_of_ne hrj]
      exact h.there r hr hw
  · by_cases hrj : G.spOf r = j
    · rw [hrj, hself] at hb ⊢
      exact hs.left r (Group.mem_locals.2 ⟨hr, hrj⟩) hb
    · rw [hother hrj] at hb ⊢
      exact h.left r hr hb
  · by_cases hrj : G.spOf r = j
    · rw [hrj, hself]
      exact hs.ended r (Group.mem_locals.2 ⟨hr, hrj⟩)
    · rw [hother hrj]
      exact h.ended r hr

/-- Something on its way may be dropped. -/
theorem Inv.drop (h : Inv G s) (hj : j ∈ G.sps) (hE : E ≤ s.entTok j) (hB : B ≤ s.bitTok j) :
    Inv G (s.put j (s.sp j) E B (s.addTok j)) :=
  h.put hj (h.steps_self hj) hE (fun r v hm => ((h.entTok j hj).2 r v (Multiset.mem_of_le hE hm)).2.2.2) hB
    (fun r v hm => ((h.bitTok j hj).2 r v (Multiset.mem_of_le hB hm)).2.2.2) le_rfl
    (fun r v hm => ((h.addTok j hj).2 r v hm).2.2.2) h.there_self

/-- **An SP adds an entry on its way to it.** -/
theorem Inv.addEnt [DecidableEq ρ] (h : Inv G s) (hj : j ∈ G.sps) (hb : (s.sp j).bits = ∅)
    (hE : s.entTok j = (r, v) ::ₘ E) :
    Inv G (s.put j ((s.sp j).add r (s.sp j).due) E (s.bitTok j) (s.addTok j)) := by
  have ht : (r, v) ∈ s.entTok j := by rw [hE]; exact Multiset.mem_cons_self _ _
  obtain ⟨hr, hne, hle, hw⟩ := (h.entTok j hj).2 r v ht
  have hloc : r ∉ G.locals j := fun hm => hne (Group.mem_locals.1 hm).2
  have hv := h.next_of_entTok hj hb ht
  have hnd := (h.entTok j hj).1
  rw [hE, Multiset.nodup_cons] at hnd
  have hs : Steps G s j ((s.sp j).add r (s.sp j).due) :=
    h.steps_add hj hb (Face.add_shown_remote hloc (Group.locals_nonempty hj)) (fun _ => hv ▸ hle)
      fun hm => absurd hm hloc
  refine h.put hj hs (by rw [hE]; exact Multiset.le_cons_self _ _) (fun q w hm => ?_) le_rfl
    (h.misses_add hj hb _ r) le_rfl (fun q w hm => ?_) fun q hq hw => h.there_self q hq hw.of_add
  · refine Face.Wants.add ((h.entTok j hj).2 q w (by rw [hE]; exact Multiset.mem_cons_of_mem hm)).2.2.2 ?_ _
    by_contra hc
    obtain ⟨hq, hw'⟩ := not_or.1 hc
    rw [not_not] at hq hw'
    rw [hq, hw', ← hv] at hm
    exact hnd.1 hm
  · obtain ⟨-, hq, -, hw'⟩ := (h.addTok j hj).2 q w hm
    exact Face.Wants.add hw' (.inl fun hqr : q = r => hne (hqr ▸ hq)) _

/-- **An SP adds one of its ranks.** -/
theorem Inv.addLocal [DecidableEq ρ] (h : Inv G s) (hj : j ∈ G.sps) (hb : (s.sp j).bits = ∅)
    (hn : (s.sp j).ent r = none) (hA : s.addTok j = (r, v) ::ₘ A) :
    Inv G (s.put j ((s.sp j).add r true) (s.entTok j) (s.bitTok j) A) := by
  have ht : (r, v) ∈ s.addTok j := by rw [hA]; exact Multiset.mem_cons_self _ _
  obtain ⟨hr, hsp, hle, hw⟩ := (h.addTok j hj).2 r v ht
  have hloc : r ∈ G.locals j := Group.mem_locals.2 ⟨hr, hsp⟩
  have hv := h.next_of_addTok hj hb ht
  have hnd := (h.addTok j hj).1
  rw [hA, Multiset.nodup_cons] at hnd
  have hs : Steps G s j ((s.sp j).add r true) :=
    h.steps_add hj hb (Face.add_shown_local hloc hn) (fun hne => absurd hsp hne) fun _ => hv ▸ hle
  refine h.put hj hs le_rfl (fun q w hm => ?_) le_rfl (h.misses_add hj hb _ r)
    (by rw [hA]; exact Multiset.le_cons_self _ _) (fun q w hm => ?_) fun q hq hw => ?_
  · obtain ⟨-, hq, -, hw'⟩ := (h.entTok j hj).2 q w hm
    exact Face.Wants.add hw' (.inl fun hqr : q = r => hq (hqr ▸ hsp)) _
  · refine Face.Wants.add ((h.addTok j hj).2 q w (by rw [hA]; exact Multiset.mem_cons_of_mem hm)).2.2.2 ?_ _
    by_contra hc
    obtain ⟨hq, hw'⟩ := not_or.1 hc
    rw [not_not] at hq hw'
    rw [hq, hw', ← hv] at hm
    exact hnd.1 hm
  · have hm := h.there_self q hq hw.of_add
    rw [hA] at hm
    refine (Multiset.mem_cons.1 hm).resolve_left fun he => hw.2 ?_
    cases he
    exact ⟨hv.symm, by rw [Face.add_ent_self]; exact Option.some_ne_none _⟩

end

/-! ### An SP sends -/

/-- Entries are sent. -/
def Snap.sendEnts (s : Snap ι ρ) (N : ι → Multiset (ρ × ℕ)) : Snap ι ρ :=
  { s with entTok := fun k => s.entTok k + N k }

/-- Revokes are sent. -/
def Snap.sendBits (s : Snap ι ρ) (N : ι → Multiset (ρ × ℕ)) : Snap ι ρ :=
  { s with bitTok := fun k => s.bitTok k + N k }

theorem Snap.sendEnts_zero (s : Snap ι ρ) : (s.sendEnts fun _ => 0) = s :=
  Snap.ext rfl rfl rfl (funext fun _ => Multiset.add_zero _) rfl rfl

theorem Snap.sendBits_zero (s : Snap ι ρ) : (s.sendBits fun _ => 0) = s :=
  Snap.ext rfl rfl rfl rfl (funext fun _ => Multiset.add_zero _) rfl

theorem Inv.sendEnts (h : Inv G s) {N : ι → Multiset (ρ × ℕ)} (hnd : ∀ k ∈ G.sps, (N k).Nodup)
    (hN : ∀ k ∈ G.sps, ∀ r v, (r, v) ∈ N k → r ∈ G.all ∧ G.spOf r ≠ k ∧ v ≤ s.shown G (G.spOf r) ∧
      (s.sp k).Wants r v ∧ (r, v) ∉ s.entTok k) : Inv G (s.sendEnts N) :=
  { h with
    entTok := fun k hk => by
      obtain ⟨hold, htok⟩ := h.entTok k hk
      refine ⟨Multiset.nodup_add.2 ⟨hold, hnd k hk, ?_⟩, fun r v hm => ?_⟩
      · rw [Multiset.disjoint_right]
        exact fun hm => (hN k hk _ _ hm).2.2.2.2
      · rcases Multiset.mem_add.1 hm with hm | hm
        · exact htok r v hm
        · obtain ⟨h₁, h₂, h₃, h₄, -⟩ := hN k hk r v hm
          exact ⟨h₁, h₂, h₃, h₄⟩ }

theorem Inv.sendBits (h : Inv G s) {N : ι → Multiset (ρ × ℕ)} (hnd : ∀ k ∈ G.sps, (N k).Nodup)
    (hN : ∀ k ∈ G.sps, ∀ r v, (r, v) ∈ N k → r ∈ G.all ∧ G.spOf r ≠ k ∧ v ≤ s.freed G (G.spOf r) ∧
      (s.sp k).Misses r v ∧ (r, v) ∉ s.bitTok k) : Inv G (s.sendBits N) :=
  { h with
    bitTok := fun k hk => by
      obtain ⟨hold, htok⟩ := h.bitTok k hk
      refine ⟨Multiset.nodup_add.2 ⟨hold, hnd k hk, ?_⟩, fun r v hm => ?_⟩
      · rw [Multiset.disjoint_right]
        exact fun hm => (hN k hk _ _ hm).2.2.2.2
      · rcases Multiset.mem_add.1 hm with hm | hm
        · exact htok r v hm
        · obtain ⟨h₁, h₂, h₃, h₄, -⟩ := hN k hk r v hm
          exact ⟨h₁, h₂, h₃, h₄⟩ }

section
variable [DecidableEq ι] {B : Multiset (ρ × ℕ)} {N : ι → Multiset (ρ × ℕ)}

/-- **The exchange that follows an addition**: the entries of the ranks of SP `j` are sent when
all of them are there. -/
theorem Inv.exchange (h : Inv G s) (hj : j ∈ G.sps) (hdue : (s.sp j).due = true) (hnd : ∀ k ∈ G.sps, (N k).Nodup)
    (hN : ∀ k ∈ G.sps, ∀ r v, (r, v) ∈ N k → k ≠ j ∧ r ∈ G.locals j ∧ (s.sp j).ent r = some v)
    (hall : ∀ k ∈ G.sps, N k ≠ 0 → ∀ r ∈ G.locals j, (s.sp j).ent r ≠ none) :
    Inv G ((s.put j (s.sp j).settle (s.entTok j) (s.bitTok j) (s.addTok j)).sendEnts N) := by
  have hs := h.steps_self hj
  have hshown : s.shown G j ≤ (s.sp j).settle.shown (G.locals j) := by
    by_cases hc : (s.sp j).Active ∧ ∃ r ∈ G.locals j, (s.sp j).ent r = none
    · rw [Snap.shown, Face.shown, Face.shown, if_pos ⟨hc.1, .inr hc.2⟩, if_pos ⟨hc.1, .inr hc.2⟩]
      exact le_rfl
    · have hnew : (s.sp j).settle.shown (G.locals j) = (s.sp j).num := by
        apply if_neg
        rintro ⟨ha, hd | hn⟩
        · cases hd
        · exact hc ⟨ha, hn⟩
      rw [hnew]
      exact Face.shown_le
  have hs' : Steps G s j (s.sp j).settle :=
    { hs with ok := { hs.ok with due := fun hd => by cases hd }, shown := hshown }
  have hput := h.put hj hs' le_rfl (fun r v hm => ((h.entTok j hj).2 r v hm).2.2.2) le_rfl
    (fun r v hm => ((h.bitTok j hj).2 r v hm).2.2.2) le_rfl (fun r v hm => ((h.addTok j hj).2 r v hm).2.2.2)
    h.there_self
  refine hput.sendEnts hnd fun k hk r v hm => ?_
  obtain ⟨hkj, hr, hent⟩ := hN k hk r v hm
  obtain ⟨hra, hrj⟩ := Group.mem_locals.1 hr
  have hset := hall k hk (fun h0 => by rw [h0] at hm; exact Multiset.notMem_zero _ hm)
  have hact : (s.sp j).Active := ⟨r, by rw [hent]; exact Option.some_ne_none v⟩
  have hv : v = (s.sp j).num := hs.ok.ver r v hent
  have hone := hs.ok.one hact
  -- before the exchange the SP had not sent the entries of this version
  have hold : s.shown G j = (s.sp j).num - 1 := by rw [Snap.shown, Face.shown, if_pos ⟨hact, .inl hdue⟩]
  refine ⟨hra, fun hrk => hkj (hrk.symm.trans hrj), ?_, ?_, ?_⟩
  · rw [hrj, Snap.shown, Snap.put_sp_self, Face.shown, if_neg]
    · exact hv.le
    · rintro ⟨-, hd | ⟨q, hq, hqn⟩⟩
      · cases hd
      · exact hset q hq hqn
  · rw [Snap.put_sp_of_ne hkj]
    refine ⟨?_, fun ⟨hnum, hne⟩ => ?_⟩
    · have := h.done_le_shown hk hj
      omega
    · obtain ⟨w, hw⟩ := Option.ne_none_iff_exists'.1 hne
      have hle := h.ents k hk r w hw fun hrk => hkj (hrk.symm.trans hrj)
      rw [hrj, hold] at hle
      have := (h.ok k hk).ver r w hw
      omega
  · rw [Snap.put_entTok_of_ne hkj]
    intro hmem
    have hle := ((h.entTok k hk).2 r v hmem).2.2.1
    rw [hrj, hold] at hle
    omega

/-- **A rank of SP `j` is marked**; when it is the last of them, the other SPs are told. -/
theorem Inv.mark [DecidableEq ρ] (h : Inv G s) (hj : j ∈ G.sps) (hr : r ∈ G.locals j) (hnew : r ∉ (s.sp j).bits)
    (hfull : ∀ q ∈ G.all, (s.sp j).ent q ≠ none) (hopen : (s.sp j).posted ≠ (s.sp j).num) (hdue : (s.sp j).due = false)
    (hleft : (s.sp j).num ≤ s.left r) (hnd : ∀ k ∈ G.sps, (N k).Nodup)
    (hN : ∀ k ∈ G.sps, ∀ q v, (q, v) ∈ N k → k ≠ j ∧ q ∈ insert r (s.sp j).bits ∧ v = (s.sp j).num ∧
      G.locals j ⊆ insert r (s.sp j).bits) :
    Inv G ((s.put j { s.sp j with bits := insert r (s.sp j).bits } (s.entTok j) (s.bitTok j) (s.addTok j)).sendBits N) := by
  have hs := h.steps_self hj
  obtain ⟨hra, hrj⟩ := Group.mem_locals.1 hr
  have hact : (s.sp j).Active := ⟨r, hfull r hra⟩
  have hone := hs.ok.one hact
  have hnot : ¬ G.locals j ⊆ (s.sp j).bits := fun hc => hnew (hc hr)
  -- no rank of another SP is marked yet
  have hloc : ∀ q ∈ insert r (s.sp j).bits, q ∈ G.locals j := by
    intro q hq
    rcases Finset.mem_insert.1 hq with rfl | hq
    · exact hr
    · exact not_not.1 fun hc => hnot (hs.ok.remote q hq hc)
  have hold : s.freed G j = (s.sp j).num - 1 := by rw [Snap.freed, Face.freed, if_pos ⟨hact, hnot⟩]
  -- the SPs of all entries have begun this version
  have hbegun : ∀ k ∈ G.sps, (s.sp j).num ≤ (s.sp k).num := by
    intro k hk
    by_cases hkj : k = j
    · rw [hkj]
    · obtain ⟨q, hqa, hqk⟩ := G.inhabited k hk
      obtain ⟨w, hw⟩ := Option.ne_none_iff_exists'.1 (hfull q hqa)
      have hle := h.ents j hj q w hw fun hqj => hkj (hqk.symm.trans hqj)
      rw [hqk, hs.ok.ver q w hw] at hle
      exact hle.trans Face.shown_le
  set f : Face ρ := { s.sp j with bits := insert r (s.sp j).bits } with hf
  have hfreed : f.freed (G.locals j) ≤ (s.sp j).num := Face.freed_le
  have hs' : Steps G s j f := by
    refine { hs with ok := ?_, freed := ?_, bits := ?_, begun := ?_, left := ?_ }
    · exact { hs.ok with
        full := fun _ => hfull
        sub := Finset.insert_subset hra hs.ok.sub
        closing := fun _ hp => absurd hp hopen
        remote := fun q hq hc => absurd (hloc q hq) hc
        due := fun hd => absurd (hd.symm.trans hdue) (by decide) }
    · rw [hold]
      unfold Face.freed
      split
      · exact le_rfl
      · exact Nat.sub_le _ _
    · exact fun q hq hne => absurd (Group.mem_locals.1 (hloc q hq)).2 hne
    · exact fun k hk _ => hfreed.trans (hbegun k hk)
    · intro q hq hqb
      rcases Finset.mem_insert.1 hqb with rfl | hqb
      · exact hleft
      · exact hs.left q hq hqb
  have hmiss : ∀ q v, (q, v) ∈ s.bitTok j → f.Misses q v := by
    intro q v hm
    obtain ⟨-, hqj, -, hm⟩ := (h.bitTok j hj).2 q v hm
    refine ⟨hm.1, fun hc => hm.2 ⟨hc.1, ?_⟩⟩
    exact (Finset.mem_insert.1 hc.2).resolve_left fun hqr => hqj (hqr ▸ hrj)
  have hput := h.put hj hs' le_rfl (fun q v hm => ((h.entTok j hj).2 q v hm).2.2.2) le_rfl hmiss le_rfl
    (fun q v hm => ((h.addTok j hj).2 q v hm).2.2.2) h.there_self
  refine hput.sendBits hnd fun k hk q v hm => ?_
  obtain ⟨hkj, hq, rfl, hsub⟩ := hN k hk q v hm
  obtain ⟨hqa, hqj⟩ := Group.mem_locals.1 (hloc q hq)
  refine ⟨hqa, fun hqk => hkj (hqk.symm.trans hqj), ?_, ?_, ?_⟩
  · rw [hqj, Snap.freed, Snap.put_sp_self, Face.freed_of_subset hsub]
  · rw [Snap.put_sp_of_ne hkj]
    refine ⟨?_, fun ⟨hnum, hqb⟩ => ?_⟩
    · have := h.done_le_freed hk hj
      omega
    · have hle := h.bits k hk q hqb fun hqk => hkj (hqk.symm.trans hqj)
      rw [hqj, hold] at hle
      omega
  · rw [Snap.put_bitTok_of_ne hkj]
    intro hmem
    have hle := ((h.bitTok k hk).2 q _ hmem).2.2.1
    rw [hqj, hold] at hle
    omega

/-- **A message of an SP is applied**: the ranks `new` it reports are marked. -/
theorem Inv.apply [DecidableEq ρ] (h : Inv G s) (hj : j ∈ G.sps) {Q : Multiset (ρ × ℕ)} (hQ : s.bitTok j = Q + B)
    {new : Finset ρ} (hnew : ∀ q ∈ new, (q, v) ∈ Q)
    (hfull : new.Nonempty → (∀ q ∈ G.all, (s.sp j).ent q ≠ none) ∧ G.locals j ⊆ (s.sp j).bits)
    (hdue : (s.sp j).due = false) :
    Inv G (s.put j { s.sp j with bits := (s.sp j).bits ∪ new } (s.entTok j) B (s.addTok j)) := by
  have hs := h.steps_self hj
  have hB : B ≤ s.bitTok j := by rw [hQ]; exact Multiset.le_add_left _ _
  have hmem : ∀ q ∈ new, (q, v) ∈ s.bitTok j := fun q hq => by
    rw [hQ]; exact Multiset.mem_add.2 (.inl (hnew q hq))
  have htok : ∀ q ∈ new, q ∈ G.all ∧ G.spOf q ≠ j ∧ (s.sp j).num ≤ s.freed G (G.spOf q) ∧ v = (s.sp j).num := by
    intro q hq
    obtain ⟨hqa, hqj, hle, -⟩ := (h.bitTok j hj).2 q v (hmem q hq)
    have hv := (h.num_of_bitTok hj (hmem q hq)).2
    exact ⟨hqa, hqj, hv ▸ hle, hv⟩
  have hnd := (h.bitTok j hj).1
  rw [hQ, Multiset.nodup_add] at hnd
  set f : Face ρ := { s.sp j with bits := (s.sp j).bits ∪ new } with hf
  have hfreed : f.freed (G.locals j) = s.freed G j := by
    rcases new.eq_empty_or_nonempty with h0 | hne
    · rw [hf, h0, Finset.union_empty]
      rfl
    · have hsub := (hfull hne).2
      rw [Face.freed_of_subset (hsub.trans Finset.subset_union_left), Snap.freed, Face.freed_of_subset hsub]
  have hs' : Steps G s j f := by
    refine { hs with ok := ?_, freed := hfreed.ge, bits := ?_, begun := ?_, left := ?_ }
    · refine { hs.ok with full := ?_, sub := ?_, closing := ?_, remote := ?_, due := ?_ }
      · intro hb
        rcases new.eq_empty_or_nonempty with h0 | hne
        · rw [hf, h0, Finset.union_empty] at hb
          exact hs.ok.full hb
        · exact (hfull hne).1
      · exact Finset.union_subset hs.ok.sub fun q hq => (htok q hq).1
      · exact fun ha hp => (hs.ok.closing ha hp).trans Finset.subset_union_left
      · intro q hq hc
        rcases Finset.mem_union.1 hq with hq | hq
        · exact (hs.ok.remote q hq hc).trans Finset.subset_union_left
        · exact (hfull ⟨q, hq⟩).2.trans Finset.subset_union_left
      · exact fun hd => absurd (hd.symm.trans hdue) (by decide)
    · intro q hq hne
      rcases Finset.mem_union.1 hq with hq | hq
      · exact hs.bits q hq hne
      · exact (htok q hq).2.2.1
    · intro k hk hne
      rw [hfreed]
      exact hs.begun k hk hne
    · intro q hq hqb
      rcases Finset.mem_union.1 hqb with hqb | hqb
      · exact hs.left q hq hqb
      · exact absurd (Group.mem_locals.1 hq).2 (htok q hqb).2.1
  refine h.put hj hs' le_rfl (fun q w hm => ((h.entTok j hj).2 q w hm).2.2.2) hB (fun q w hm => ?_) le_rfl
    (fun q w hm => ((h.addTok j hj).2 q w hm).2.2.2) h.there_self
  have hm' := ((h.bitTok j hj).2 q w (Multiset.mem_of_le hB hm)).2.2.2
  refine ⟨hm'.1, fun hc => ?_⟩
  rcases Finset.mem_union.1 hc.2 with hq | hq
  · exact hm'.2 ⟨hc.1, hq⟩
  · have hw : v = w := (htok q hq).2.2.2.trans hc.1
    exact Multiset.disjoint_left.1 hnd.2.2 (hnew q hq) (hw ▸ hm)

/-- **The final revoke is posted.** -/
theorem Inv.post (h : Inv G s) (hj : j ∈ G.sps) (hall : G.all ⊆ (s.sp j).bits) :
    Inv G (s.put j (s.sp j).post (s.entTok j) (s.bitTok j) (s.addTok j)) := by
  have hs := h.steps_self hj
  have hs' : Steps G s j (s.sp j).post := by
    refine { hs with ok := ?_, posted := hs.ok.posted_le, ends := ?_ }
    · exact { hs.ok with
        posted_le := le_rfl
        le_posted := Nat.le_succ _
        idle := fun _ => rfl
        closing := fun _ _ => hall }
    · intro k hk hkj
      obtain ⟨q, hqa, hqk⟩ := G.inhabited k hk
      have hle := h.bits j hj q (hall hqa) fun hqj => hkj (hqk.symm.trans hqj)
      rwa [hqk] at hle
  exact h.put hj hs' le_rfl (fun q v hm => ((h.entTok j hj).2 q v hm).2.2.2) le_rfl
    (fun q v hm => ((h.bitTok j hj).2 q v hm).2.2.2) le_rfl (fun q v hm => ((h.addTok j hj).2 q v hm).2.2.2)
    h.there_self

/-- **A version ends.** -/
theorem Inv.reset (h : Inv G s) (hj : j ∈ G.sps) (hact : (s.sp j).Active) (hp : (s.sp j).posted = (s.sp j).num) :
    Inv G (s.put j (s.sp j).reset (s.entTok j) (s.bitTok j) (s.addTok j)) := by
  have hs := h.steps_self hj
  have hall := hs.ok.closing hact hp
  obtain ⟨q₀, hq₀, -⟩ := G.inhabited j hj
  have hfull := hs.ok.full ⟨q₀, hall hq₀⟩
  have hidle : ¬ (s.sp j).reset.Active := fun ⟨_, hr⟩ => hr rfl
  have hdone : (s.sp j).reset.done = (s.sp j).num := Face.done_of_not_active hidle
  have hfreed : s.freed G j = (s.sp j).num := Face.freed_of_subset ((G.locals_subset j).trans hall)
  have hnone : ∀ q ∈ G.all, ∃ w, (s.sp j).ent q = some w ∧ w = (s.sp j).num := by
    intro q hq
    obtain ⟨w, hw⟩ := Option.ne_none_iff_exists'.1 (hfull q hq)
    exact ⟨w, hw, hs.ok.ver q w hw⟩
  have hs' : Steps G s j (s.sp j).reset := by
    refine { hs with
      ok := ?_, shown := ?_, freed := ?_, bits := ?_, begun := ?_, ents := ?_, entry := ?_, done := ?_, left := ?_,
      ended := ?_ }
    · exact { hs.ok with
        one := fun ha => absurd ha hidle
        ver := fun _ _ hv => by cases hv
        full := fun hb => absurd rfl hb.ne_empty
        sub := Finset.empty_subset _
        idle := fun _ => hp
        closing := fun ha => absurd ha hidle
        remote := fun q hq => absurd hq (Finset.notMem_empty q)
        due := fun _ => rfl }
    · rw [Face.shown_of_not_active hidle]
      exact Face.shown_le
    · rw [Face.freed_of_not_active hidle]
      exact Face.freed_le
    · exact fun q hq => absurd hq (Finset.notMem_empty q)
    · intro k hk hne
      rw [Face.freed_of_not_active hidle]
      exact hfreed ▸ hs.begun k hk hne
    · exact fun _ _ hv => by cases hv
    · exact fun _ _ _ hv => by cases hv
    · intro q hq
      obtain ⟨w, hw, hwn⟩ := hnone q (Group.mem_locals.1 hq).1
      rw [hdone, ← hwn]
      exact hs.entry q hq w hw
    · exact fun q _ hq => absurd hq (Finset.notMem_empty q)
    · intro q hq
      rw [hdone]
      exact hs.left q hq (hall (Group.mem_locals.1 hq).1)
  -- what is still to come of this version has come
  have hwant : ∀ q w, q ∈ G.all → (s.sp j).Wants q w → (s.sp j).reset.Wants q w := by
    intro q w hq hw
    refine ⟨?_, fun hc => hc.2 rfl⟩
    have h₁ := hw.1
    obtain ⟨u, hu, -⟩ := hnone q hq
    have h₂ : (s.sp j).num ≠ w := fun he => hw.2 ⟨he, by rw [hu]; exact Option.some_ne_none u⟩
    rw [Face.done_of_active hact] at h₁
    rw [hdone]
    omega
  refine h.put hj hs' le_rfl (fun q w hm => ?_) le_rfl (fun q w hm => ?_) le_rfl (fun q w hm => ?_) fun q hq hw => ?_
  · obtain ⟨hq, -, -, hw⟩ := (h.entTok j hj).2 q w hm
    exact hwant q w hq hw
  · obtain ⟨hq, -, -, hw⟩ := (h.bitTok j hj).2 q w hm
    refine ⟨?_, fun hc => absurd hc.2 (Finset.notMem_empty q)⟩
    have h₁ := hw.1
    have h₂ : (s.sp j).num ≠ w := fun he => hw.2 ⟨he, hall hq⟩
    rw [Face.done_of_active hact] at h₁
    rw [hdone]
    omega
  · obtain ⟨hq, -, -, hw⟩ := (h.addTok j hj).2 q w hm
    exact hwant q w hq hw
  · apply h.there_self q hq
    have h₁ := hw.1
    rw [hdone] at h₁
    exact ⟨by rw [Face.done_of_active hact]; omega, fun hc => absurd hc.1 (by omega)⟩

/-- **A rank joins the next version**, when its SP has told it that the one before has ended. -/
theorem Inv.join [DecidableEq ρ] (h : Inv G s) (hr : r ∈ G.all) (hp : s.joined r ≤ (s.sp (G.spOf r)).posted) :
    Inv G { s with
      joined := Function.update s.joined r (s.joined r + 1)
      addTok := Function.update s.addTok (G.spOf r) ((r, s.joined r + 1) ::ₘ s.addTok (G.spOf r)) } := by
  have hmono : ∀ q, s.joined q ≤ Function.update s.joined r (s.joined r + 1) q := by
    intro q
    by_cases hq : q = r
    · rw [hq, Function.update_self]
      exact Nat.le_succ _
    · rw [Function.update_of_ne hq]
  refine { h with
    addTok := fun k hk => ?_, joined := fun q hq => ?_, entry := fun q hq v hv => ?_, done := fun q hq => ?_
    there := fun q hq hw => ?_ }
  · obtain ⟨hnd, htok⟩ := h.addTok k hk
    have hold : ∀ q v, (q, v) ∈ s.addTok k → q ∈ G.all ∧ G.spOf q = k ∧
        v ≤ Function.update s.joined r (s.joined r + 1) q ∧ (s.sp k).Wants q v := by
      intro q v hm
      obtain ⟨h₁, h₂, h₃, h₄⟩ := htok q v hm
      exact ⟨h₁, h₂, h₃.trans (hmono q), h₄⟩
    by_cases hkr : k = G.spOf r
    · subst hkr
      dsimp only
      rw [Function.update_self]
      refine ⟨Multiset.nodup_cons.2 ⟨fun hm => ?_, hnd⟩, fun q v hm => ?_⟩
      · exact absurd (htok r _ hm).2.2.1 (Nat.not_succ_le_self _)
      · rcases Multiset.mem_cons.1 hm with he | hm
        · cases he
          refine ⟨hr, rfl, by rw [Function.update_self], Nat.lt_succ_of_le (h.done r hr), fun hc => ?_⟩
          obtain ⟨w, hw⟩ := Option.ne_none_iff_exists'.1 hc.2
          have h₁ := h.entry r hr w hw
          have h₂ := (h.ok _ hk).ver r w hw
          have h₃ := hc.1
          omega
        · exact hold q v hm
    · dsimp only
      rw [Function.update_of_ne hkr]
      exact ⟨hnd, hold⟩
  · by_cases hqr : q = r
    · subst hqr
      dsimp only
      rw [Function.update_self]
      exact Nat.succ_le_succ hp
    · dsimp only
      rw [Function.update_of_ne hqr]
      exact h.joined q hq
  · exact (h.entry q hq v hv).trans (hmono q)
  · exact (h.done q hq).trans (hmono q)
  · dsimp only at hw ⊢
    by_cases hqr : q = r
    · subst hqr
      rw [Function.update_self, Function.update_self]
      exact Multiset.mem_cons_self _ _
    · rw [Function.update_of_ne hqr] at hw ⊢
      have hm := h.there q hq hw
      by_cases hsp : G.spOf q = G.spOf r
      · rw [hsp, Function.update_self, ← hsp]
        exact Multiset.mem_cons_of_mem hm
      · rw [Function.update_of_ne hsp]
        exact hm

end

/-- **A rank leaves.** -/
theorem Inv.leave (h : Inv G s) {left : ρ → ℕ} (hl : ∀ q, s.left q ≤ left q) : Inv G { s with left := left } :=
  { h with
    left := fun q hq hb => (h.left q hq hb).trans (hl q)
    ended := fun q hq => (h.ended q hq).trans (hl q) }

end DpuOffload.Versions
