import Mathlib.Logic.Relation
import Mathlib.Data.Option.Basic
import Mathlib.Order.WellFounded

/-!
# Runs of a transition system

A system is a partial step function on states and labels; a label is not enabled
where the function gives nothing. What the environment promises about a label, in
the state before the step, is a second parameter, `ok`. `Reach step ok s₀ s` says
that a run of such steps leads from `s₀` to `s`.

* `Reach.invariant` — what holds at the start and is kept by every step holds in
  every state reached.
* `reach_of_exec` — a run can be computed: `exec` follows a list of labels, and checks
  the promise on the way.
* `keeps`, `keeps_along` — what every small step keeps, a sequence of small steps keeps.
* `acc_of_measure`, `exists_last` — steps that lessen a measure come to an end.
-/

namespace Transition

variable {σ : Type*} {α : Type*}

/-- The states reached from `s₀` by steps that keep the promise `ok`. -/
inductive Reach (step : σ → α → Option σ) (ok : σ → α → Prop) (s₀ : σ) : σ → Prop
  /-- The start. -/
  | refl : Reach step ok s₀ s₀
  /-- One more step. -/
  | tail {s s' : σ} {a : α} : Reach step ok s₀ s → ok s a → step s a = some s' → Reach step ok s₀ s'

variable {step : σ → α → Option σ} {ok : σ → α → Prop} {s₀ s : σ}

/-- **The invariant rule.** -/
theorem Reach.invariant {I : σ → Prop} (h : Reach step ok s₀ s) (h₀ : I s₀)
    (hstep : ∀ s a s', I s → ok s a → step s a = some s' → I s') : I s := by
  induction h with
  | refl => exact h₀
  | tail _ hok hs ih => exact hstep _ _ _ ih hok hs

/-- Follow a list of labels, checking the promise before each step. -/
def exec (step : σ → α → Option σ) (ok : σ → α → Prop) [∀ s a, Decidable (ok s a)] : List α → σ → Option σ
  | [], s => some s
  | a :: as, s => if ok s a then (step s a).bind (exec step ok as) else none

theorem reach_trans {s' : σ} (h : Reach step ok s₀ s) (h' : Reach step ok s s') : Reach step ok s₀ s' := by
  induction h' with
  | refl => exact h
  | tail _ hok hs ih => exact .tail ih hok hs

/-- **A computed run is a run.** -/
theorem reach_of_exec [∀ s a, Decidable (ok s a)] {as : List α} {s₀ s : σ} (h : exec step ok as s₀ = some s) :
    Reach step ok s₀ s := by
  induction as generalizing s₀ with
  | nil => cases h; exact .refl
  | cons a as ih =>
    simp only [exec] at h
    split at h
    · obtain ⟨s₁, hs₁, h⟩ := Option.bind_eq_some_iff.1 h
      exact reach_trans (.tail .refl ‹_› hs₁) (ih h)
    · cases h

/-- A computed run that ends in a state with a property, as one check: the form in
which a run is exhibited. -/
theorem exists_reach_of_exec [∀ s a, Decidable (ok s a)] {P : σ → Prop} [DecidablePred P] (as : List α)
    (h : (exec step ok as s₀).any (fun s => decide (P s)) = true) : ∃ s, Reach step ok s₀ s ∧ P s := by
  cases hs : exec step ok as s₀ with
  | none => simp [hs] at h
  | some s => exact ⟨s, reach_of_exec hs, by simpa [hs] using h⟩

/-- What every small step keeps, a sequence of them keeps. -/
theorem keeps {r : σ → σ → Prop} {J : σ → Prop} (hr : ∀ a b, J a → r a b → J b) {a b : σ}
    (h : Relation.ReflTransGen r a b) (ha : J a) : J b := by
  induction h with
  | refl => exact ha
  | tail _ hbc ih => exact hr _ _ ih hbc

/-- What every small step keeps holds at each of them. -/
theorem keeps_along {r : σ → σ → Prop} {J : σ → Prop} (hr : ∀ a b, J a → r a b → J b) {a b : σ}
    (h : Relation.ReflTransGen r a b) (ha : J a) : Relation.ReflTransGen (fun x y => r x y ∧ J x ∧ J y) a b := by
  induction h with
  | refl => exact .refl
  | tail hab hbc ih =>
    have hb := keeps hr hab ha
    exact ih.tail ⟨hbc, hb, hr _ _ hb hbc⟩

/-- **The measure rule**: steps that keep `J` and lessen a measure come to an end. -/
theorem acc_of_measure {β : Type*} {r : σ → σ → Prop} {J : σ → Prop} {lt : β → β → Prop} (hwf : WellFounded lt)
    (m : σ → β) (hr : ∀ a b, J a → r a b → J b ∧ lt (m b) (m a)) {a : σ} (ha : J a) : Acc (fun y x => r x y) a := by
  induction hm : m a using hwf.induction generalizing a with
  | _ n ih =>
    subst hm
    refine ⟨a, fun b hab => ?_⟩
    obtain ⟨hb, hlt⟩ := hr a b ha hab
    exact ih _ hlt hb rfl

/-- Steps that come to an end can be taken to the end. -/
theorem exists_last {r : σ → σ → Prop} {a : σ} (h : Acc (fun y x => r x y) a) :
    ∃ b, Relation.ReflTransGen r a b ∧ ∀ c, ¬ r b c := by
  induction h with
  | intro a _ ih =>
    by_cases hc : ∃ c, r a c
    · obtain ⟨c, hac⟩ := hc
      obtain ⟨b, hcb, hb⟩ := ih c hac
      exact ⟨b, .head hac hcb, hb⟩
    · exact ⟨a, .refl, fun c hac => hc ⟨c, hac⟩⟩

end Transition
