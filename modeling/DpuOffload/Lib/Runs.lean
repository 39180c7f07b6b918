import Mathlib.Data.List.Basic
import Mathlib.Tactic.ByContra

/-!
# What is asked along a run

A system is a partial step function on states and labels, and `next` is the state a step leads to. What is asked of a
run is said by a predicate on the state it begins in and its labels, which is given here by its equations: the steps
that are taken are allowed (`Allows`), or the states have a property and the steps another (`Asks`).

* `tally_iff` — what no step makes less is the same at the end of a run exactly when it is at each step.
* `asks_iff` — what is asked of the states holds along a run exactly when its steps are those that keep it.
-/

namespace Runs

variable {σ : Type*} {α : Type*} {ρ : Type*}

/-- `R` takes one step after the other. -/
structure Follows (step : σ → α → Option ρ) (next : ρ → σ) (R : List α → σ → Option σ) : Prop where
  nil : ∀ s, R [] s = some s
  cons : ∀ a as s, R (a :: as) s = (step s a).bind fun r => R as (next r)

/-- `A` says that the steps that are taken are allowed. -/
structure Allows (step : σ → α → Option ρ) (next : ρ → σ) (ok : σ → α → Prop) (A : σ → List α → Prop) : Prop where
  nil : ∀ s, A s []
  cons : ∀ s a as r, step s a = some r → (A s (a :: as) ↔ ok s a ∧ A (next r) as)

/-- `M` says that the states have a property, and the steps that are taken another. -/
structure Asks (step : σ → α → Option ρ) (next : ρ → σ) (P : σ → Prop) (Q : σ → α → ρ → Prop)
    (M : σ → List α → Prop) : Prop where
  nil : ∀ s, M s [] ↔ P s
  cons : ∀ s a as, M s (a :: as) ↔ P s ∧ ∀ r, step s a = some r → Q s a r ∧ M (next r) as

variable {step : σ → α → Option ρ} {next : ρ → σ} {R : List α → σ → Option σ} {ok : σ → α → Prop}
  {A M : σ → List α → Prop} {I P : σ → Prop} {Q : σ → α → ρ → Prop} {s s' : σ} {as : List α}

/-- **What is counted** never gets less, and is the same at the end of a run exactly when each step leaves it so. -/
theorem tally_iff (hR : Follows step next R) (hA : Allows step next ok A) {m : σ → ℕ}
    (hstep : ∀ {s a r}, I s → step s a = some r → I (next r) ∧ m s ≤ m (next r) ∧ (m (next r) = m s ↔ ok s a))
    (h : I s) (hs : R as s = some s') : I s' ∧ m s ≤ m s' ∧ (m s' = m s ↔ A s as) := by
  induction as generalizing s with
  | nil =>
    rw [hR.nil] at hs
    cases hs
    exact ⟨h, Nat.le_refl _, fun _ => hA.nil _, fun _ => rfl⟩
  | cons a as ih =>
    rw [hR.cons] at hs
    obtain ⟨r, hr, hs⟩ := Option.bind_eq_some_iff.1 hs
    obtain ⟨h₁, hle₁, hiff₁⟩ := hstep h hr
    obtain ⟨h', hle, hiff⟩ := ih h₁ hs
    refine ⟨h', Nat.le_trans hle₁ hle, ?_⟩
    rw [hA.cons s a as r hr, ← hiff₁, ← hiff]
    constructor
    · intro heq
      omega
    · rintro ⟨heq₁, heq⟩
      exact heq.trans heq₁

theorem Asks.start (hM : Asks step next P Q M) (h : M s as) : P s := by
  cases as with
  | nil => exact (hM.nil s).1 h
  | cons a as => exact ((hM.cons s a as).1 h).1

/-- What is asked of the states is asked of the last one. -/
theorem Asks.of_run (hM : Asks step next P Q M) (hR : Follows step next R) (h : M s as) (hs : R as s = some s') :
    P s' := by
  induction as generalizing s with
  | nil =>
    rw [hR.nil] at hs
    cases hs
    exact (hM.nil _).1 h
  | cons a as ih =>
    rw [hR.cons] at hs
    obtain ⟨r, hr, hs⟩ := Option.bind_eq_some_iff.1 hs
    exact ih (((hM.cons s a as).1 h).2 r hr).2 hs

/-- **What is asked of the states** holds along a run exactly when its steps are allowed, if those that are keep it and
the others spoil it. -/
theorem asks_iff {label : α → Prop} (hM : Asks step next P Q M) (hA : Allows step next ok A)
    (hstuck : ∀ s a as, step s a = none → A s (a :: as)) (hP : ∀ {s}, I s → P s)
    (hgood : ∀ {s a r}, I s → label a → step s a = some r → ok s a → Q s a r ∧ I (next r))
    (hbad : ∀ {s a r}, I s → label a → step s a = some r → ¬ ok s a → ¬ (Q s a r ∧ P (next r)))
    (h : I s) (has : ∀ a ∈ as, label a) : M s as ↔ A s as := by
  induction as generalizing s with
  | nil => exact ⟨fun _ => hA.nil _, fun _ => (hM.nil _).2 (hP h)⟩
  | cons a as ih =>
    have ha : label a := has a List.mem_cons_self
    have has : ∀ b ∈ as, label b := fun b hb => has b (List.mem_cons_of_mem _ hb)
    rw [hM.cons]
    cases hr : step s a with
    | none => exact ⟨fun _ => hstuck s a as hr, fun _ => ⟨hP h, fun r hr => by cases hr⟩⟩
    | some r =>
      rw [hA.cons s a as r hr]
      constructor
      · rintro ⟨-, hall⟩
        obtain ⟨hq, hrest⟩ := hall r rfl
        have hok : ok s a := by
          by_contra hno
          exact hbad h ha hr hno ⟨hq, hM.start hrest⟩
        exact ⟨hok, (ih (hgood h ha hr hok).2 has).1 hrest⟩
      · rintro ⟨hok, hrest⟩
        obtain ⟨hq, h'⟩ := hgood h ha hr hok
        refine ⟨hP h, fun r' hr' => ?_⟩
        cases hr'
        exact ⟨hq, (ih h' has).2 hrest⟩

end Runs
