import DpuOffload.Protocol.Versions

/-!
# No version of a group gets stuck

`Versions.Inv` says what an SP may have on its way and what it may hold. Here is the other half,
`Lossless`: what an SP has sent of a version has arrived or is still on its way, and a rank that
has left is marked. A step of an SP keeps it when what it uses up is no longer wanted and what it
has now to show has been sent (`Passes`).

At rest, when an SP has nothing on its way that it could use (`Rest`):

* `begun_of_joined` — **if every rank has joined a version, every SP has all its entries**, or
  has ended it;
* `ended_of_left` — **if every rank has left it, every SP has ended it.**

So the protocol comes to rest only where it waits for a rank.
-/

namespace DpuOffload.Versions

variable {ι ρ : Type*}

/-! ### One SP goes on -/

namespace Face

/-- `f'` comes after `f`: versions grow, what has come is not wanted again, and within a version the
ranks stay marked. -/
structure Later (f f' : Face ρ) : Prop where
  /-- The version. -/
  num : f.num ≤ f'.num
  /-- The entries still to come. -/
  wants : ∀ r v, f'.Wants r v → f.Wants r v
  /-- The revokes still to come. -/
  misses : ∀ r v, f'.Misses r v → f.Misses r v
  /-- The ranks marked. -/
  within : f'.Active → f'.num = f.num → f.Active ∧ f.bits ⊆ f'.bits

variable {f : Face ρ} {loc : Finset ρ} {r : ρ} {v : ℕ}

theorem done_le : f.done ≤ f.num := by
  unfold done
  split <;> omega

theorem Later.refl (f : Face ρ) : f.Later f where
  num := le_rfl
  wants _ _ h := h
  misses _ _ h := h
  within ha _ := ⟨ha, Finset.Subset.rfl⟩

theorem Later.settle (f : Face ρ) : f.Later f.settle where
  num := le_rfl
  wants _ _ h := h
  misses _ _ h := h
  within ha _ := ⟨ha, Finset.Subset.rfl⟩

theorem Later.post (f : Face ρ) : f.Later f.post where
  num := le_rfl
  wants _ _ h := h
  misses _ _ h := h
  within ha _ := ⟨ha, Finset.Subset.rfl⟩

/-- Ranks are marked. -/
theorem Later.mark {b : Finset ρ} (hb : f.bits ⊆ b) : f.Later { f with bits := b } where
  num := le_rfl
  wants _ _ h := h
  misses _ _ h := ⟨h.1, fun hc => h.2 ⟨hc.1, hb hc.2⟩⟩
  within ha _ := ⟨ha, hb⟩

/-- An entry is added. -/
theorem Later.add [DecidableEq ρ] (hb : f.bits = ∅) (r : ρ) (due : Bool) : f.Later (f.add r due) where
  num := num_le_next
  wants _ _ h := h.of_add
  misses q v h := by
    refine ⟨by rw [← add_done (f := f) (r := r) due]; exact h.1, fun hc => ?_⟩
    rw [hb] at hc
    exact Finset.notMem_empty q hc.2
  within _ hn := by
    refine ⟨not_not.1 fun ha => ?_, Finset.Subset.rfl⟩
    have hnext : f.next = f.num := hn
    rw [next_of_not_active ha] at hnext
    omega

/-- There are no entries after the end of a version. -/
theorem reset_idle : ¬ f.reset.Active := by
  rintro ⟨r, hr⟩
  exact hr rfl

/-- A version ends. -/
theorem Later.reset (f : Face ρ) : f.Later f.reset := by
  have hdone : f.reset.done = f.num := done_of_not_active reset_idle
  have hlt : ∀ {v}, f.reset.done < v → f.done < v ∧ f.num ≠ v := fun hv => by
    rw [hdone] at hv
    exact ⟨done_le.trans_lt hv, hv.ne⟩
  exact ⟨le_rfl, fun _ _ h => ⟨(hlt h.1).1, fun hc => (hlt h.1).2 hc.1⟩,
    fun _ _ h => ⟨(hlt h.1).1, fun hc => (hlt h.1).2 hc.1⟩, fun ha => absurd ha reset_idle⟩

/-- An SP that holds the entries of all its ranks, with no exchange to come, has sent them. -/
theorem shown_of_full (hd : f.due = false) (hl : ∀ r ∈ loc, f.ent r ≠ none) : f.shown loc = f.num := by
  refine if_neg ?_
  rintro ⟨-, hc | ⟨r, hr, hn⟩⟩
  · rw [hd] at hc
    exact Bool.noConfusion hc
  · exact hl r hr hn

end Face

/-! ### Nothing is lost -/

variable {G : Group ι ρ} {s s' : Snap ι ρ} {i j : ι} {r : ρ} {v : ℕ}

/-- **What the protocol does not lose.** -/
structure Lossless (G : Group ι ρ) (s : Snap ι ρ) : Prop where
  /-- An entry that was sent and is still wanted is on its way. -/
  ents : ∀ k ∈ G.sps, ∀ r ∈ G.all, G.spOf r ≠ k → ∀ v ≤ s.shown G (G.spOf r), (s.sp k).Wants r v →
    (r, v) ∈ s.entTok k
  /-- So is a revoke. -/
  bits : ∀ k ∈ G.sps, ∀ r ∈ G.all, G.spOf r ≠ k → ∀ v ≤ s.freed G (G.spOf r), (s.sp k).Misses r v →
    (r, v) ∈ s.bitTok k
  /-- A rank leaves no version that its SP has not begun, -/
  late : ∀ r ∈ G.all, s.left r ≤ (s.sp (G.spOf r)).num
  /-- and is marked when it has left the version its SP is at. -/
  marked : ∀ r ∈ G.all, (s.sp (G.spOf r)).Active → (s.sp (G.spOf r)).num ≤ s.left r → r ∈ (s.sp (G.spOf r)).bits

theorem lossless_init : Lossless G (Snap.init : Snap ι ρ) where
  ents _ _ r _ _ v hv hw := by
    have hs : (Snap.init : Snap ι ρ).shown G (G.spOf r) = 0 := Face.shown_of_not_active Face.init_idle
    exact absurd hw.1 (by omega)
  bits _ _ r _ _ v hv hw := by
    have hf : (Snap.init : Snap ι ρ).freed G (G.spOf r) = 0 := Face.freed_of_not_active Face.init_idle
    exact absurd hw.1 (by omega)
  late _ _ := le_rfl
  marked _ _ ha := absurd ha Face.init_idle

/-- **What a step of SP `j` has to do** to lose nothing. -/
structure Passes (G : Group ι ρ) (s s' : Snap ι ρ) (j : ι) : Prop where
  /-- The others stay as they are. -/
  others : ∀ k, k ≠ j → s'.sp k = s.sp k
  /-- It goes on. -/
  later : (s.sp j).Later (s'.sp j)
  /-- Entries on their way that are still wanted stay on their way, -/
  ents : ∀ k ∈ G.sps, ∀ r v, (r, v) ∈ s.entTok k → (s'.sp k).Wants r v → (r, v) ∈ s'.entTok k
  /-- and so do revokes. -/
  bits : ∀ k ∈ G.sps, ∀ r v, (r, v) ∈ s.bitTok k → (s'.sp k).Misses r v → (r, v) ∈ s'.bitTok k
  /-- When it has more entries to show, it has sent them, -/
  shown : ∀ v ≤ s'.shown G j, s.shown G j < v → ∀ k ∈ G.sps, k ≠ j → ∀ r ∈ G.locals j, (r, v) ∈ s'.entTok k
  /-- and so for revokes. -/
  freed : ∀ v ≤ s'.freed G j, s.freed G j < v → ∀ k ∈ G.sps, k ≠ j → ∀ r ∈ G.locals j, (r, v) ∈ s'.bitTok k
  /-- One of its ranks that leaves is marked. -/
  left : ∀ r ∈ G.all, s'.left r = s.left r ∨
    G.spOf r = j ∧ s'.left r ≤ (s'.sp j).num ∧ r ∈ (s'.sp j).bits

/-- **The step rule.** -/
theorem Lossless.step (h : Lossless G s) (hp : Passes G s s' j) : Lossless G s' := by
  have hother : ∀ {k}, k ≠ j → s'.shown G k = s.shown G k ∧ s'.freed G k = s.freed G k := fun hk => by
    rw [Snap.shown, Snap.freed, hp.others _ hk]
    exact ⟨rfl, rfl⟩
  have hwants : ∀ k r v, (s'.sp k).Wants r v → (s.sp k).Wants r v := fun k r v hw => by
    by_cases hk : k = j
    · subst hk
      exact hp.later.wants r v hw
    · rwa [hp.others k hk] at hw
  have hmisses : ∀ k r v, (s'.sp k).Misses r v → (s.sp k).Misses r v := fun k r v hw => by
    by_cases hk : k = j
    · subst hk
      exact hp.later.misses r v hw
    · rwa [hp.others k hk] at hw
  refine ⟨fun k hk r hr hrk v hv hw => ?_, fun k hk r hr hrk v hv hw => ?_, fun r hr => ?_, fun r hr ha hn => ?_⟩
  · by_cases hlt : v ≤ s.shown G (G.spOf r)
    · exact hp.ents k hk r v (h.ents k hk r hr hrk v hlt (hwants k r v hw)) hw
    · by_cases hrj : G.spOf r = j
      · subst hrj
        exact hp.shown v hv (not_le.1 hlt) k hk (Ne.symm hrk) r (Group.mem_locals.2 ⟨hr, rfl⟩)
      · exact absurd hv (by rwa [(hother hrj).1])
  · by_cases hlt : v ≤ s.freed G (G.spOf r)
    · exact hp.bits k hk r v (h.bits k hk r hr hrk v hlt (hmisses k r v hw)) hw
    · by_cases hrj : G.spOf r = j
      · subst hrj
        exact hp.freed v hv (not_le.1 hlt) k hk (Ne.symm hrk) r (Group.mem_locals.2 ⟨hr, rfl⟩)
      · exact absurd hv (by rwa [(hother hrj).2])
  · rcases hp.left r hr with hl | ⟨rfl, hl, -⟩
    · rw [hl]
      by_cases hrj : G.spOf r = j
      · subst hrj
        exact (h.late r hr).trans hp.later.num
      · rw [hp.others _ hrj]
        exact h.late r hr
    · exact hl
  · rcases hp.left r hr with hl | ⟨rfl, -, hb⟩
    · rw [hl] at hn
      by_cases hrj : G.spOf r = j
      · subst hrj
        have hle := h.late r hr
        have hnum := hp.later.num
        obtain ⟨ha', hsub⟩ := hp.later.within ha (by omega)
        exact hsub (h.marked r hr ha' (by omega))
      · rw [hp.others _ hrj] at ha hn ⊢
        exact h.marked r hr ha hn
    · exact hb

/-- A rank joins. -/
theorem Lossless.join (h : Lossless G s) (joined : ρ → ℕ) (A : ι → Multiset (ρ × ℕ)) :
    Lossless G { s with joined := joined, addTok := A } := ⟨h.ents, h.bits, h.late, h.marked⟩

/-- A rank leaves no version that it has not joined. -/
theorem Lossless.left_le_joined (h : Lossless G s) (hI : Inv G s) (hr : r ∈ G.all) : s.left r ≤ s.joined r := by
  have hlate := h.late r hr
  have hdone := hI.done r hr
  by_cases ha : (s.sp (G.spOf r)).Active
  · rw [Face.done_of_active ha] at hdone
    by_cases hn : (s.sp (G.spOf r)).num ≤ s.left r
    · -- a marked rank has an entry of the version
      have hok := hI.ok _ (G.spOf_mem r hr)
      obtain ⟨w, hw⟩ := Option.ne_none_iff_exists'.1 (hok.full ⟨r, h.marked r hr ha hn⟩ r hr)
      have := hI.entry r hr w hw
      have := hok.ver r w hw
      omega
    · omega
  · rw [Face.done_of_not_active ha] at hdone
    omega

/-- The ranks of an SP that holds all entries of a version are marked when they have left it. -/
theorem Lossless.locals_marked (h : Lossless G s) (hnum : (s.sp i).num = v) (hfull : ∀ r ∈ G.all, (s.sp i).ent r ≠ none)
    (hl : ∀ r ∈ G.all, v ≤ s.left r) : G.locals i ⊆ (s.sp i).bits := by
  intro r hr
  obtain ⟨hra, rfl⟩ := Group.mem_locals.1 hr
  exact h.marked r hra ⟨r, hfull r hra⟩ (hnum.le.trans (hl r hra))

/-! ### At rest -/

/-- **SP `i` is at rest**: what is on its way to it waits. -/
structure Rest (G : Group ι ρ) (s : Snap ι ρ) (i : ι) : Prop where
  /-- Entries wait for the end of a version, or for a rank of the SP to begin the next one. -/
  ents : s.entTok i ≠ 0 → (s.sp i).Active → (s.sp i).bits.Nonempty
  /-- Additions wait for the end of a version. -/
  adds : s.addTok i ≠ 0 → (s.sp i).bits.Nonempty
  /-- Revokes wait for all entries, and for all ranks of the SP to leave. -/
  revs : s.bitTok i ≠ 0 → (∀ r ∈ G.all, (s.sp i).ent r ≠ none) → ¬ G.locals i ⊆ (s.sp i).bits
  /-- No exchange is to come. -/
  due : (s.sp i).due = false
  /-- The final revoke is posted when all ranks are marked, -/
  final : G.all ⊆ (s.sp i).bits → (s.sp i).posted = (s.sp i).num
  /-- and when it is, the version ends. -/
  unposted : (s.sp i).Active → (s.sp i).posted ≠ (s.sp i).num

theorem Rest.posted_eq_done (h : Rest G s i) (hok : (s.sp i).Ok G.all (G.locals i)) :
    (s.sp i).posted = (s.sp i).done := by
  by_cases ha : (s.sp i).Active
  · have := h.unposted ha
    have := hok.posted_le
    have := hok.le_posted
    rw [Face.done_of_active ha]
    omega
  · rw [Face.done_of_not_active ha, hok.idle ha]

/-- An SP with a marked rank is at the version after the last one that has ended, with all entries. -/
theorem Face.Ok.of_bits {f : Face ρ} {all loc : Finset ρ} (hok : f.Ok all loc) (hb : f.bits.Nonempty) :
    f.Active ∧ f.num = f.done + 1 ∧ ∀ r ∈ all, f.ent r ≠ none := by
  have hfull := hok.full hb
  obtain ⟨q, hq⟩ := hb
  have ha : f.Active := ⟨q, hfull q (hok.sub hq)⟩
  have := hok.one ha
  exact ⟨ha, by rw [Face.done_of_active ha]; omega, hfull⟩

section
variable (hI : Inv G s) (hL : Lossless G s) (hrest : ∀ i ∈ G.sps, Rest G s i)
include hI hrest

/-- An SP whose ranks have joined a version has their entries, or has ended it. -/
theorem own_of_joined (hj : ∀ r ∈ G.all, v ≤ s.joined r) (hi : i ∈ G.sps) (hd : (s.sp i).done < v)
    (hr : r ∈ G.locals i) : (s.sp i).num = v ∧ (s.sp i).ent r ≠ none := by
  obtain ⟨hra, rfl⟩ := Group.mem_locals.1 hr
  have hok := hI.ok _ hi
  have hv : v ≤ s.joined r := hj r hra
  have hle : s.joined r ≤ (s.sp (G.spOf r)).posted + 1 := hI.joined r hra
  rw [(hrest _ hi).posted_eq_done hok] at hle
  have heq : s.joined r = v := by omega
  by_cases hw : (s.sp (G.spOf r)).Wants r v
  · -- its addition waits for the end of a version, in which the rank has an entry
    have hm := hI.there r hra (by rw [heq]; exact hw)
    obtain ⟨-, hnum, hfull⟩ := hok.of_bits ((hrest _ hi).adds (ne_of_mem_of_not_mem' hm (Multiset.notMem_zero _)))
    exact ⟨by omega, hfull r hra⟩
  · exact not_not.1 fun hc => hw ⟨hd, hc⟩

theorem shown_of_joined (hj : ∀ r ∈ G.all, v ≤ s.joined r) (hi : i ∈ G.sps) : v ≤ s.shown G i := by
  by_cases hd : (s.sp i).done < v
  · obtain ⟨q, hqa, hqi⟩ := G.inhabited i hi
    have hnum := (own_of_joined hI hrest hj hi hd (Group.mem_locals.2 ⟨hqa, hqi⟩)).1
    rw [Snap.shown, Face.shown_of_full (hrest i hi).due fun r hr => (own_of_joined hI hrest hj hi hd hr).2, hnum]
  · exact (not_lt.1 hd).trans (hI.done_le_shown hi hi)

include hL

/-- **If every rank has joined a version, every SP has all its entries, or has ended it.** -/
theorem begun_of_joined (hj : ∀ r ∈ G.all, v ≤ s.joined r) (hi : i ∈ G.sps) :
    v ≤ (s.sp i).done ∨ (s.sp i).num = v ∧ ∀ r ∈ G.all, (s.sp i).ent r ≠ none := by
  rcases le_or_gt v (s.sp i).done with hd | hd
  · exact .inl hd
  have hok := hI.ok i hi
  obtain ⟨q, hqa, hqi⟩ := G.inhabited i hi
  obtain ⟨hnum, hq⟩ := own_of_joined hI hrest hj hi hd (Group.mem_locals.2 ⟨hqa, hqi⟩)
  have ha : (s.sp i).Active := ⟨q, hq⟩
  refine .inr ⟨hnum, fun r hr => ?_⟩
  by_cases hri : G.spOf r = i
  · exact (own_of_joined hI hrest hj hi hd (Group.mem_locals.2 ⟨hr, hri⟩)).2
  · by_cases hw : (s.sp i).Wants r v
    · have hm := hL.ents i hi r hr hri v (shown_of_joined hI hrest hj (G.spOf_mem r hr)) hw
      have hne := ne_of_mem_of_not_mem' hm (Multiset.notMem_zero _)
      exact (hok.of_bits ((hrest i hi).ents hne ha)).2.2 r hr
    · exact (not_not.1 fun hc => hw ⟨hd, hc⟩).2

/-- When all ranks have left a version, all SPs have sent its revokes. -/
theorem freed_of_left (hl : ∀ r ∈ G.all, v ≤ s.left r) (hi : i ∈ G.sps) : v ≤ s.freed G i := by
  have hj : ∀ r ∈ G.all, v ≤ s.joined r := fun r hr => (hl r hr).trans (hL.left_le_joined hI hr)
  rcases begun_of_joined hI hL hrest hj hi with hd | ⟨hnum, hfull⟩
  · exact hd.trans (hI.done_le_freed hi hi)
  · rw [Snap.freed, Face.freed_of_subset (hL.locals_marked hnum hfull hl), hnum]

/-- **If every rank has left a version, every SP has ended it.** -/
theorem ended_of_left (hl : ∀ r ∈ G.all, v ≤ s.left r) (hi : i ∈ G.sps) : v ≤ (s.sp i).done := by
  have hj : ∀ r ∈ G.all, v ≤ s.joined r := fun r hr => (hl r hr).trans (hL.left_le_joined hI hr)
  rcases le_or_gt v (s.sp i).done with hd | hd
  · exact hd
  obtain ⟨hnum, hfull⟩ := (begun_of_joined hI hL hrest hj hi).resolve_left hd.not_ge
  obtain ⟨q, hqa, -⟩ := G.inhabited i hi
  have ha : (s.sp i).Active := ⟨q, hfull q hqa⟩
  have hsub := hL.locals_marked hnum hfull hl
  -- the revokes of the others have come
  have hall : G.all ⊆ (s.sp i).bits := by
    intro r hr
    by_cases hri : G.spOf r = i
    · exact hsub (Group.mem_locals.2 ⟨hr, hri⟩)
    · by_contra hb
      have hm := hL.bits i hi r hr hri v (freed_of_left hI hL hrest hl (G.spOf_mem r hr)) ⟨hd, fun hc => hb hc.2⟩
      exact (hrest i hi).revs (ne_of_mem_of_not_mem' hm (Multiset.notMem_zero _)) hfull hsub
  exact absurd ((hrest i hi).final hall) ((hrest i hi).unposted ha)

end

end DpuOffload.Versions
