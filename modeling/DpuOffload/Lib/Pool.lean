import Mathlib.Data.List.Nodup
import Mathlib.Data.List.Perm.Basic

/-!
# Pools

The elements of a pool are free or held. An element is taken, put back or added; in a sound pool
no element is there twice.

* `Pool.Sound.take`, `Pool.Sound.put`, `Pool.Sound.add` — the three operations keep a pool sound.
* `Pool.Sound.not_mem_held` — what is taken is not held.
-/

/-- A pool. -/
structure Pool (α : Type*) where
  /-- The elements that are free. -/
  free : List α
  /-- Those that are held. -/
  held : List α

namespace Pool

variable {α : Type*} {x : α} {new free held : List α}

/-- How many elements there are. -/
def size (p : Pool α) : ℕ := p.free.length + p.held.length

/-- No element is there twice. -/
def Sound (p : Pool α) : Prop := (p.free ++ p.held).Nodup

theorem sound_empty : (⟨[], []⟩ : Pool α).Sound := List.nodup_nil

/-- What is free is not held. -/
theorem Sound.not_mem_held (h : (⟨x :: free, held⟩ : Pool α).Sound) : x ∉ held := by
  intro hx
  exact (List.nodup_cons.1 h).1 (List.mem_append_right _ hx)

theorem Sound.nodup_held (h : (⟨free, held⟩ : Pool α).Sound) : held.Nodup := (List.nodup_append.1 h).2.1

/-- **An element is taken.** -/
theorem Sound.take (h : (⟨x :: free, held⟩ : Pool α).Sound) : (⟨free, x :: held⟩ : Pool α).Sound :=
  List.perm_middle.symm.nodup h

theorem size_take : (⟨free, x :: held⟩ : Pool α).size = (⟨x :: free, held⟩ : Pool α).size := by
  simp [size]
  omega

/-- The held elements in another order. -/
theorem Sound.perm {held' : List α} (h : (⟨free, held⟩ : Pool α).Sound) (hp : held.Perm held') :
    (⟨free, held'⟩ : Pool α).Sound :=
  (hp.append_left free).nodup h

/-- **An element is put back.** -/
theorem Sound.put [DecidableEq α] (h : (⟨free, held⟩ : Pool α).Sound) (hx : x ∈ held) :
    (⟨x :: free, held.erase x⟩ : Pool α).Sound :=
  List.perm_middle.nodup (h.perm (List.perm_cons_erase hx))

theorem size_put [DecidableEq α] (hx : x ∈ held) :
    (⟨x :: free, held.erase x⟩ : Pool α).size = (⟨free, held⟩ : Pool α).size := by
  have hlen : held.length = (held.erase x).length + 1 := (List.perm_cons_erase hx).length_eq
  simp only [size, List.length_cons]
  omega

/-- **Elements are added.** -/
theorem Sound.add (h : (⟨free, held⟩ : Pool α).Sound) (hnew : new.Nodup) (hfree : ∀ x ∈ new, x ∉ free ++ held) :
    (⟨new ++ free, held⟩ : Pool α).Sound := by
  rw [Sound, List.append_assoc]
  exact List.Nodup.append hnew h fun x hx => hfree x hx

theorem size_add : (⟨new ++ free, held⟩ : Pool α).size = new.length + (⟨free, held⟩ : Pool α).size := by
  simp [size]
  omega

end Pool
