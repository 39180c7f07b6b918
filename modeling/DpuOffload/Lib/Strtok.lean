import Mathlib.Data.List.GetD
import Mathlib.Data.List.TakeWhile

/-!
# Cutting a string into tokens where it is

`strtok_r` of C works on a string in memory: it skips separators, finds the end of the token that
follows, and writes the character that ends a string over the separator there, so that the token is
a string of its own. It gives where the token begins and where the rest does.

* `nextToken` — what it means on strings: the next token and the rest.
* `StrAt` — a string lies in memory.
* `strtokR_some`, `strtokR_none` — **`strtok_r` finds the next token**, and writes within the string only.
* `filter_splitOn_some` — all the tokens are the pieces between separators that are not empty.

Characters are of any type, with one that ends a string.
-/

namespace Strtok

variable {α : Type*}

/-! ### Strings in memory -/

/-- String `s` lies at `pos`, with the character that ends it. -/
def StrAt (nul : α) (mem : List α) (pos : ℕ) (s : List α) : Prop := nul ∉ s ∧ ∃ post, mem.drop pos = s ++ nul :: post

variable {nul : α} {mem mem' : List α} {pos : ℕ} {s : List α}

/-- The memory is as it was, except between `lo` and `hi`. -/
def AgreeOutside (lo hi : ℕ) (mem mem' : List α) : Prop :=
  mem'.length = mem.length ∧ ∀ i, i < lo ∨ hi ≤ i → mem'[i]? = mem[i]?

/-- The string is in the memory. -/
theorem StrAt.lt (h : StrAt nul mem pos s) : pos + s.length < mem.length := by
  obtain ⟨-, post, hpost⟩ := h
  have := congrArg List.length hpost
  rw [List.length_drop, List.length_append, List.length_cons] at this
  omega

theorem AgreeOutside.refl (lo hi : ℕ) (mem : List α) : AgreeOutside lo hi mem mem := ⟨rfl, fun _ _ => rfl⟩

theorem AgreeOutside.mono {lo hi lo' hi' : ℕ} (h : AgreeOutside lo hi mem mem') (hlo : lo' ≤ lo) (hhi : hi ≤ hi') :
    AgreeOutside lo' hi' mem mem' :=
  ⟨h.1, fun i hi => h.2 i (by omega)⟩

theorem AgreeOutside.trans {lo hi : ℕ} {mem'' : List α} (h : AgreeOutside lo hi mem mem')
    (h' : AgreeOutside lo hi mem' mem'') : AgreeOutside lo hi mem mem'' :=
  ⟨h'.1.trans h.1, fun i hi => (h'.2 i hi).trans (h.2 i hi)⟩

/-- A string behind what has changed is where it was. -/
theorem StrAt.frame {lo hi : ℕ} (h : StrAt nul mem pos s) (ha : AgreeOutside lo hi mem mem') (hpos : hi ≤ pos) :
    StrAt nul mem' pos s := by
  have hdrop : mem'.drop pos = mem.drop pos := by
    refine List.ext_getElem? fun i => ?_
    rw [List.getElem?_drop, List.getElem?_drop]
    exact ha.2 _ (.inr (hpos.trans (Nat.le_add_right _ _)))
  rw [StrAt, hdrop]
  exact h

/-- What lies behind a part of a string. -/
theorem StrAt.drop {u : List α} (h : StrAt nul mem pos (u ++ s)) : StrAt nul mem (pos + u.length) s := by
  obtain ⟨hnul, post, hpost⟩ := h
  refine ⟨fun hm => hnul (List.mem_append_right u hm), post, ?_⟩
  rw [← List.drop_drop, hpost, List.append_assoc, List.drop_left]

/-- The character at the head of a string. -/
theorem StrAt.getD_cons {c : α} (h : StrAt nul mem pos (c :: s)) : mem.getD pos nul = c := by
  obtain ⟨-, post, hpost⟩ := h
  have hget : (mem.drop pos)[0]? = some c := by rw [hpost]; rfl
  rw [List.getElem?_drop, Nat.add_zero] at hget
  rw [List.getD_eq_getElem?_getD, hget]
  rfl

/-- The character at the end of a string. -/
theorem StrAt.getD_nil (h : StrAt nul mem pos []) : mem.getD pos nul = nul := by
  obtain ⟨-, post, hpost⟩ := h
  have hget : (mem.drop pos)[0]? = some nul := by rw [hpost]; rfl
  rw [List.getElem?_drop, Nat.add_zero] at hget
  rw [List.getD_eq_getElem?_getD, hget]
  rfl

/-- A scan stops at the first character that fails, here behind `s`. -/
theorem takeWhile_append_cons {p : α → Bool} {c : α} (hc : p c = false) (s post : List α) :
    (s ++ c :: post).takeWhile p = s.takeWhile p := by
  induction s with
  | nil => simp [hc]
  | cons d s ih =>
    rw [List.cons_append, List.takeWhile_cons, List.takeWhile_cons, ih]

/-- The scan over the separators ends where they do in the string. -/
theorem StrAt.scan {p : α → Bool} (hp : p nul = false) (h : StrAt nul mem pos s) :
    (mem.drop pos).takeWhile p = s.takeWhile p := by
  obtain ⟨-, post, hpost⟩ := h
  rw [hpost, takeWhile_append_cons hp]

/-- A character of a string is overwritten by the one that ends a string: now there are two strings. -/
theorem StrAt.cut {t r : List α} {c : α} (h : StrAt nul mem pos (t ++ c :: r)) :
    StrAt nul (mem.set (pos + t.length) nul) pos t ∧ StrAt nul (mem.set (pos + t.length) nul) (pos + t.length + 1) r := by
  have hlt := h.lt
  obtain ⟨hnul, post, hpost⟩ := h
  have hset : (mem.set (pos + t.length) nul).drop pos = t ++ nul :: (r ++ nul :: post) := by
    rw [List.drop_set, if_neg (by omega), Nat.add_sub_cancel_left, hpost, List.append_assoc, List.cons_append,
      List.set_append_right _ _ (Nat.le_refl _), Nat.sub_self, List.set_cons_zero]
  refine ⟨⟨fun hm => hnul (List.mem_append_left _ hm), _, hset⟩, fun hm => hnul ?_, post, ?_⟩
  · exact List.mem_append_right _ (List.mem_cons_of_mem c hm)
  · rw [Nat.add_assoc, ← List.drop_drop, hset, ← List.drop_drop, List.drop_left]
    rfl

variable [DecidableEq α]

/-- The string at `pos`. -/
def cStr (nul : α) (mem : List α) (pos : ℕ) : List α := (mem.drop pos).takeWhile (· ≠ nul)

theorem StrAt.cStr_eq (h : StrAt nul mem pos s) : cStr nul mem pos = s := by
  obtain ⟨hnul, post, hpost⟩ := h
  rw [cStr, hpost, takeWhile_append_cons (by simp), List.takeWhile_eq_self_iff]
  intro c hc
  have : c ≠ nul := fun hcn => hnul (hcn ▸ hc)
  simpa using this

/-! ### Tokens of strings -/

/-- The next token of a string, and what comes after the separator behind it. -/
def nextToken (sep : α) (s : List α) : Option (List α × List α) :=
  match s.dropWhile (· = sep) with
  | [] => none
  | c :: s => some ((c :: s).takeWhile (· ≠ sep), ((c :: s).dropWhile (· ≠ sep)).tail)

variable {sep : α} {t r : List α}

/-- Separators, a token and the rest. -/
theorem nextToken_eq_some (h : nextToken sep s = some (t, r)) : t ≠ [] ∧ sep ∉ t ∧
    ((s = s.takeWhile (· = sep) ++ t ∧ r = []) ∨ s = s.takeWhile (· = sep) ++ t ++ sep :: r) := by
  unfold nextToken at h
  split at h
  · cases h
  · rename_i c u hu
    cases h
    have hc : c ≠ sep := by
      have := List.head?_dropWhile_not (fun x => decide (x = sep)) s
      rw [hu] at this
      simpa using this
    have hs : s = s.takeWhile (· = sep) ++ (c :: u) := by
      rw [← hu]
      exact List.takeWhile_append_dropWhile.symm
    have hmem : sep ∉ (c :: u).takeWhile (· ≠ sep) := by
      intro hm
      simpa using List.mem_takeWhile_imp hm
    refine ⟨by simp [hc], hmem, ?_⟩
    have hcu : c :: u = (c :: u).takeWhile (· ≠ sep) ++ (c :: u).dropWhile (· ≠ sep) :=
      List.takeWhile_append_dropWhile.symm
    cases hd : (c :: u).dropWhile (· ≠ sep) with
    | nil =>
      rw [hd, List.append_nil] at hcu
      exact .inl ⟨hcu ▸ hs, rfl⟩
    | cons d v =>
      have hd' : d = sep := by
        have := List.head?_dropWhile_not (fun x => decide (x ≠ sep)) (c :: u)
        rw [hd] at this
        simpa using this
      rw [hd, hd'] at hcu
      refine .inr ?_
      rw [List.tail_cons, List.append_assoc, ← hcu]
      exact hs

theorem nextToken_eq_none (h : nextToken sep s = none) : ∀ c ∈ s, c = sep := by
  unfold nextToken at h
  split at h
  · rename_i hs
    simpa using List.dropWhile_eq_nil_iff.1 hs
  · cases h

/-- Separators in front are skipped. -/
theorem filter_splitOn_skip {u : List α} (hu : ∀ c ∈ u, c = sep) (s : List α) :
    ((u ++ s).splitOn sep).filter (· ≠ []) = (s.splitOn sep).filter (· ≠ []) := by
  induction u with
  | nil => rfl
  | cons c u ih =>
    rw [List.cons_append, hu c List.mem_cons_self, List.splitOn_cons_eq_if_modifyHead, if_pos (beq_self_eq_true sep),
      List.filter_cons_of_neg (by simp), ih fun d hd => hu d (List.mem_cons_of_mem _ hd)]

theorem eq_of_mem_takeWhile (sep : α) (s : List α) : ∀ c ∈ s.takeWhile (· = sep), c = sep := by
  intro c hc
  simpa using List.mem_takeWhile_imp hc

/-- A string without a token has no piece that is not empty. -/
theorem filter_splitOn_none (h : nextToken sep s = none) : (s.splitOn sep).filter (· ≠ []) = [] := by
  have hs := filter_splitOn_skip (nextToken_eq_none h) []
  rw [List.append_nil] at hs
  rw [hs, List.splitOn_nil]
  rfl

/-- **The next token is the next piece that is not empty.** -/
theorem filter_splitOn_some (h : nextToken sep s = some (t, r)) :
    (s.splitOn sep).filter (· ≠ []) = t :: (r.splitOn sep).filter (· ≠ []) := by
  obtain ⟨hne, hsep, ⟨hs, rfl⟩ | hs⟩ := nextToken_eq_some h
  · rw [hs, filter_splitOn_skip (eq_of_mem_takeWhile sep s), List.splitOn_eq_singleton hsep, List.splitOn_nil]
    simp [hne]
  · rw [hs, List.append_assoc, filter_splitOn_skip (eq_of_mem_takeWhile sep s),
      List.splitOn_append_cons_self_of_not_mem hsep, List.filter_cons_of_pos (by simpa using hne)]

theorem length_rest_lt (h : nextToken sep s = some (t, r)) : r.length < s.length := by
  obtain ⟨hne, -, ⟨hs, rfl⟩ | hs⟩ := nextToken_eq_some h
  · have ht := List.length_pos_iff.2 hne
    have := congrArg List.length hs
    rw [List.length_append] at this
    rw [List.length_nil]
    omega
  · have := congrArg List.length hs
    rw [List.length_append, List.length_append, List.length_cons] at this
    omega

/-! ### `strtok_r` -/

/-- `strtok_r`, on the string at `pos`: the memory, where the token is, and where the rest is. -/
def strtokR (nul sep : α) (mem : List α) (pos : ℕ) : List α × Option ℕ × ℕ :=
  let s := pos + ((mem.drop pos).takeWhile (· = sep)).length
  if mem.getD s nul = nul then (mem, none, s)
  else
    let e := s + ((mem.drop s).takeWhile fun c => c ≠ sep ∧ c ≠ nul).length
    if mem.getD e nul = nul then (mem, some s, e) else (mem.set e nul, some s, e + 1)

/-- **There is no token** in a string of separators. -/
theorem strtokR_none (hsep : sep ≠ nul) (h : StrAt nul mem pos s) (hn : nextToken sep s = none) :
    ∃ q, strtokR nul sep mem pos = (mem, none, q) ∧ StrAt nul mem q [] := by
  have hall : s.takeWhile (· = sep) = s := by
    rw [List.takeWhile_eq_self_iff]
    intro c hc
    simpa using nextToken_eq_none hn c hc
  have hend : StrAt nul mem (pos + s.length) [] := StrAt.drop (by rw [List.append_nil]; exact h)
  refine ⟨pos + s.length, ?_, hend⟩
  simp only [strtokR]
  rw [h.scan (by simpa using hsep.symm), hall, if_pos hend.getD_nil]

/-- A token ends at the end of the string or at a separator. -/
theorem takeWhile_token (hsep : sep ∉ t) (ht : nul ∉ t) {w : List α} (hw : w = [] ∨ ∃ r, w = sep :: r) :
    ((t ++ w).takeWhile fun c => c ≠ sep ∧ c ≠ nul) = t := by
  have hall : (t.takeWhile fun c => c ≠ sep ∧ c ≠ nul) = t := by
    rw [List.takeWhile_eq_self_iff]
    intro c hc
    have h₁ : c ≠ sep := fun h => hsep (h ▸ hc)
    have h₂ : c ≠ nul := fun h => ht (h ▸ hc)
    simpa using ⟨h₁, h₂⟩
  rcases hw with rfl | ⟨r, rfl⟩
  · rw [List.append_nil, hall]
  · rw [takeWhile_append_cons (by simp), hall]

/-- **The next token is found**, as a string of its own, and the rest behind it. What is not in the string stays as
it was. -/
theorem strtokR_some (hsep : sep ≠ nul) (h : StrAt nul mem pos s) (hn : nextToken sep s = some (t, r)) :
    ∃ mem' p q, strtokR nul sep mem pos = (mem', some p, q) ∧ StrAt nul mem' p t ∧ StrAt nul mem' q r ∧ pos ≤ p ∧
      p + t.length ≤ q ∧ q + r.length ≤ pos + s.length ∧ AgreeOutside pos (pos + s.length) mem mem' := by
  obtain ⟨hne, hmem, hs⟩ := nextToken_eq_some hn
  have hscan : (mem.drop pos).takeWhile (· = sep) = s.takeWhile (· = sep) := h.scan (by simpa using hsep.symm)
  -- the token, with what follows it in the string
  obtain ⟨w, hw, hwr⟩ : ∃ w, s = s.takeWhile (· = sep) ++ (t ++ w) ∧ (w = [] ∧ r = [] ∨ w = sep :: r) := by
    rcases hs with ⟨hs, hr⟩ | hs
    · exact ⟨[], by rwa [List.append_nil], .inl ⟨rfl, hr⟩⟩
    · exact ⟨sep :: r, by rwa [← List.append_assoc], .inr rfl⟩
  have htok : StrAt nul mem (pos + (s.takeWhile (· = sep)).length) (t ++ w) := StrAt.drop (hw ▸ h)
  have hlen := congrArg List.length hw
  rw [List.length_append, List.length_append] at hlen
  generalize hp : pos + (s.takeWhile (· = sep)).length = p at htok
  have hnul : nul ∉ t := fun hm => htok.1 (List.mem_append_left w hm)
  have hstart : mem.getD p nul ≠ nul := by
    obtain ⟨c, u, rfl⟩ := List.exists_cons_of_ne_nil hne
    rw [htok.getD_cons]
    exact fun hc => hnul (hc ▸ List.mem_cons_self)
  have hend : ((mem.drop p).takeWhile fun c => c ≠ sep ∧ c ≠ nul) = t := by
    rw [htok.scan (by simp)]
    exact takeWhile_token hmem hnul (hwr.imp (·.1) fun hw => ⟨r, hw⟩)
  rcases hwr with ⟨rfl, rfl⟩ | rfl
  · -- the token is the last one
    have hlast : StrAt nul mem (p + t.length) [] := htok.drop
    rw [List.append_nil] at htok
    rw [List.length_nil] at hlen ⊢
    refine ⟨mem, p, p + t.length, ?_, htok, hlast, by omega, Nat.le_refl _, by omega, .refl _ _ _⟩
    simp only [strtokR, hscan, hp]
    rw [if_neg hstart, hend, if_pos hlast.getD_nil]
  · -- a separator follows, and is overwritten
    have hsepAt : mem.getD (p + t.length) nul ≠ nul := by
      rw [(htok.drop).getD_cons]
      exact hsep
    obtain ⟨hcut, hrest⟩ := htok.cut
    rw [List.length_cons] at hlen
    refine ⟨mem.set (p + t.length) nul, p, p + t.length + 1, ?_, hcut, hrest, by omega, by omega, by omega,
      List.length_set, fun i hi => ?_⟩
    · simp only [strtokR, hscan, hp]
      rw [if_neg hstart, hend, if_neg hsepAt]
    · rw [List.getElem?_set_ne (by omega)]

end Strtok
