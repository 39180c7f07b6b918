import DpuOffload.Protocol.VersionSp
import DpuOffload.Protocol.Accounting
import DpuOffload.Protocol.Agreement
import DpuOffload.Protocol.HeldBack
import Mathlib.Algebra.BigOperators.Group.Finset.Piecewise
import Mathlib.Algebra.Order.Group.Multiset

/-!
# The versions of a group, in every run

The SPs of a group over as many versions as its ranks like: ranks join and leave, versions
overlap, and links are slow. What an SP shows of itself (`Work.vis`) and the messages on their
way make up a snapshot (`Crew.snap`), every action of a callback is a step of the abstract
protocol on it (`Mid.verAct`), and so its invariant holds in every run (`kept_of_reach`).

* `entries_of_version` — **versions are not mixed**: an SP holds entries of one version only.
* `revokes_of_version` — **a revoke is used at its version**, and until then it is held.

Both need a rank of the group on every SP. An SP without one has `sp_ranks` equal to
`revokes.local` from the start, so that it never delays the revoke of another SP
(`entry_of_other_version`, `revoke_of_other_version`). They also need that the callback of the
cache sends, which takes up the revokes held back whatever the counters are, finds none or
finds them due (`Net.Orderly`).
-/

namespace DpuOffload

open Relation Transition Versions

/-! ### The SPs and what they know -/

/-- Some SPs and a group, with the ranks of the world group its ranks are. -/
structure Crew extends Cluster where
  /-- The world rank of each rank. -/
  worldRanks : List ℤ
  /-- Each rank has one. -/
  length_worldRanks : worldRanks.length = size
  /-- A rank says which they are. -/
  msg_worldRanks : ∀ r k, (msg r k).worldRanks = worldRanks

namespace Crew

variable (C : Crew)

/-- Does an SP know from the world group, which is another group, on which SP each rank is? -/
def Tells (v : View) : Prop :=
  v.cacheSize ≠ 1 ∧ v.world.isSome = true ∧
    ∀ r < C.size, ((v.world.getD []).getD (sizeT (C.worldRanks.getD r 0)) initPeerCacheEntry).shadow0 = C.spOf r

/-- Does every SP have a rank of the group? -/
def Manned : Prop := ∀ i < C.num, ∃ r < C.size, C.spOf r = i

/-- The ranks of an SP. -/
def locals (i : ℕ) : Finset ℕ := (Finset.range C.size).filter fun r => C.spOf r = i

/-- SP `i` and the group. -/
def site (i : ℕ) (v : View) (hv : C.Tells v) : Site where
  ctx := C.ctx i v
  size := C.size
  worldRanks := C.worldRanks
  world := v.world.getD []
  onDpu := C.onDpu i
  gpUid_ne := by
    rw [show (C.ctx i v).gpUid = C.uid from C.gpUid i]
    exact C.uid_ne
  world_eq := by
    obtain ⟨W, hW⟩ := Option.isSome_iff_exists.1 hv.2.1
    rw [show (C.ctx i v).world = v.world from rfl, hW]
    rfl
  pos := C.pos
  alloc := C.alloc
  length_worldRanks := C.length_worldRanks

/-- What a rank of the group says about itself. -/
def Info (x : RankInfo) : Prop :=
  x.groupUid = C.uid ∧ x.groupSize = C.size ∧ 0 ≤ x.groupRank ∧ x.groupRank < C.size

/-- Messages about the group as SP `i` gets them. -/
def msgs (i : ℕ) : MsgSpec where
  entry e := C.Info e.peer.procInfo ∧ e.peer.procInfo.rank ∉ C.locals i ∧ e.shadow0 = C.spOf e.peer.procInfo.rank
  add p := C.Info p.data.rankInfo ∧ p.data.rankInfo.rank ∈ C.locals i ∧ p.data.worldRanks = C.worldRanks
  rankRev x := C.Info x ∧ x.rank ∈ C.locals i
  rev m := m.groupSize = C.size ∧ m.rankStart + m.numRanks ≤ C.size

/-- The group as the protocol sees it. -/
def group (hin : C.Manned) : Group ℕ ℕ where
  all := Finset.range C.size
  spOf := C.spOf
  sps := {i | i < C.num}
  spOf_mem r hr := C.spOf_lt r (Finset.mem_range.1 hr)
  inhabited i hi := by
    obtain ⟨r, hr, hri⟩ := hin i hi
    exact ⟨r, Finset.mem_range.2 hr, hri⟩

variable {C} {i j : ℕ} {v : View} {hv : C.Tells v} {hin : C.Manned}

theorem mem_locals {r : ℕ} : r ∈ C.locals i ↔ r < C.size ∧ C.spOf r = i := by
  rw [locals, Finset.mem_filter, Finset.mem_range]

theorem site_globalId : (C.site i v hv).ctx.globalId = i := C.globalId i

theorem site_locals : (C.site i v hv).locals = C.locals i := by
  refine Finset.filter_congr fun r hr => ?_
  rw [Site.isOnSp, beq_iff_eq, site_globalId]
  exact (hv.2.2 r (Finset.mem_range.1 hr)).congr_left

theorem group_locals : (C.group hin).locals i = C.locals i := by
  ext r
  rw [Group.mem_locals, mem_locals]
  exact and_congr_left' Finset.mem_range

theorem site_info {x : RankInfo} : (C.site i v hv).Info x ↔ C.Info x := by
  have hu : (C.site i v hv).ctx.gpUid = C.uid := C.gpUid i
  constructor
  · intro h
    exact ⟨h.groupUid.trans hu, h.groupSize, h.nonneg, h.lt⟩
  · rintro ⟨h₁, h₂, h₃, h₄⟩
    exact ⟨h₁.trans hu.symm, h₂, h₃, h₄⟩

theorem msgs_le : (C.msgs i).Le ((C.site i v hv).namedMsgs C.spOf) where
  entry e h := ⟨site_info.2 h.1, by rw [site_locals]; exact h.2.1, h.2.2⟩
  add p h := ⟨site_info.2 h.1, by rw [site_locals]; exact h.2.1, h.2.2⟩
  rankRev x h := ⟨site_info.2 h.1, by rw [site_locals]; exact h.2⟩
  rev _ h := h

theorem msgs_le_site : (C.msgs i).Le (C.site i v hv).msgs where
  entry e h := ((C.site i v hv).namedMsgs_le C.spOf).entry e (msgs_le.entry e h)
  add p h := msgs_le.add p h
  rankRev x h := msgs_le.rankRev x h
  rev _ h := h

/-- What an SP keeps does not depend on what it reads of its other groups. -/
theorem counts_view {w : Work} (h : Counts (C.site i v hv) w) {v' : View} (hv' : C.Tells v') :
    Counts (C.site i v' hv') w := by
  have hl : (C.site i v' hv').locals = (C.site i v hv).locals := site_locals.trans site_locals.symm
  exact { h with
    populated := by rw [hl]; exact h.populated
    spRanks := by rw [hl]; exact h.spRanks
    live := h.live, size := h.size, bits := h.bits, entries := h.entries, rankRevs := h.rankRevs, due := h.due }

theorem base_view {w : Work} (h : Base (C.site i v hv) (C.msgs i) w) {v' : View} (hv' : C.Tells v') :
    Base (C.site i v' hv') (C.msgs i) w := ⟨h.sized, h.carries, counts_view h.counts hv'⟩

theorem named_view {g : GroupCache} (h : Named (C.site i v hv) C.spOf g) {v' : View} (hv' : C.Tells v') :
    Named (C.site i v' hv') C.spOf g where
  right r hr := ⟨site_info.2 (site_info.1 (h.right r hr).1), (h.right r hr).2⟩
  blank := h.blank

end Crew

/-! ### What is on its way -/

/-- The entries of a message. -/
def Event.ents : Event → Multiset (ℕ × ℕ)
  | .peerCacheEntries _ batch => batch.map PeerCacheEntry.tok
  | _ => 0

/-- The revokes of a message. -/
def Event.bits : Event → Multiset (ℕ × ℕ)
  | .revokeFromSp m => m.toks
  | _ => 0

/-- The revokes in hand and put aside. -/
def Vis.bits (v : Vis) : Multiset (ℕ × ℕ) := v.msgs.bind GroupRevokeMsgFromSp.toks

/-- What some messages bring. -/
def tokens (f : Event → Multiset (ℕ × ℕ)) (l : List Event) : Multiset (ℕ × ℕ) := (l.map f).sum

theorem tokens_cons (f : Event → Multiset (ℕ × ℕ)) (ev : Event) (l : List Event) :
    tokens f (ev :: l) = f ev + tokens f l := by rw [tokens, List.map_cons, List.sum_cons, tokens]

theorem tokens_append (f : Event → Multiset (ℕ × ℕ)) (l l' : List Event) :
    tokens f (l ++ l') = tokens f l + tokens f l' := by
  rw [tokens, List.map_append, List.sum_append, tokens, tokens]

theorem tokens_eq_zero {f : Event → Multiset (ℕ × ℕ)} {l : List Event} (h : ∀ ev ∈ l, f ev = 0) : tokens f l = 0 := by
  induction l with
  | nil => rfl
  | cons ev l ih =>
    rw [tokens_cons, h ev List.mem_cons_self, ih fun ev' hev => h ev' (List.mem_cons_of_mem _ hev), add_zero]

namespace Crew

variable (C : Crew)

/-- What is on the links to SP `k`. -/
def onWay (f : Event → Multiset (ℕ × ℕ)) (V : ℕ → Vis) (got : ℕ → ℕ → ℕ) (k : ℕ) : Multiset (ℕ × ℕ) :=
  ∑ i ∈ Finset.range C.num, tokens f (((V i).sent k).drop (got i k))

/-- **What the protocol sees of all SPs.** -/
def snap (V : ℕ → Vis) (got : ℕ → ℕ → ℕ) (joined left : ℕ → ℕ) : Snap ℕ ℕ where
  sp i := (V i).face
  joined := joined
  left := left
  entTok k := (V k).ents + C.onWay Event.ents V got k
  bitTok k := (V k).bits + C.onWay Event.bits V got k
  addTok k := (V k).adds

variable {C} {V : ℕ → Vis} {got : ℕ → ℕ → ℕ} {joined left left' : ℕ → ℕ} {j : ℕ} {v' : Vis} {N : ℕ → List Event}

theorem onWay_send (hj : j < C.num) (hs : ∀ k, v'.sent k = (V j).sent k ++ N k)
    (hg : ∀ k, got j k ≤ ((V j).sent k).length) (f : Event → Multiset (ℕ × ℕ)) (k : ℕ) :
    C.onWay f (Function.update V j v') got k = C.onWay f V got k + tokens f (N k) := by
  have hterm : ∀ i, tokens f (((Function.update V j v' i).sent k).drop (got i k)) =
      tokens f (((V i).sent k).drop (got i k)) + if i = j then tokens f (N k) else 0 := by
    intro i
    by_cases hi : i = j
    · subst hi
      rw [Function.update_self, hs, if_pos rfl, List.drop_append_of_le_length (hg k), tokens_append]
    · rw [Function.update_of_ne hi, if_neg hi, add_zero]
  simp only [onWay, hterm, Finset.sum_add_distrib]
  rw [Finset.sum_ite_eq' (Finset.range C.num) j, if_pos (Finset.mem_range.2 hj)]

theorem onWay_put (hs : v'.sent = (V j).sent) (f : Event → Multiset (ℕ × ℕ)) (k : ℕ) :
    C.onWay f (Function.update V j v') got k = C.onWay f V got k := by
  refine Finset.sum_congr rfl fun i _ => ?_
  by_cases hi : i = j
  · subst hi
    rw [Function.update_self, hs]
  · rw [Function.update_of_ne hi]

/-- An SP takes a step and sends. -/
theorem snap_send (hj : j < C.num) (hs : ∀ k, v'.sent k = (V j).sent k ++ N k)
    (hg : ∀ k, got j k ≤ ((V j).sent k).length) :
    C.snap (Function.update V j v') got joined left =
      (((C.snap V got joined left).put j v'.face (v'.ents + C.onWay Event.ents V got j)
        (v'.bits + C.onWay Event.bits V got j) v'.adds).sendEnts fun k => tokens Event.ents (N k)).sendBits
          fun k => tokens Event.bits (N k) := by
  refine Snap.ext ?_ rfl rfl ?_ ?_ ?_
  · funext k
    exact Function.apply_update (fun _ => Vis.face) V j v' k
  · funext k
    simp only [snap, Snap.sendBits, Snap.sendEnts, Snap.put, onWay_send hj hs hg]
    by_cases hk : k = j
    · subst hk
      rw [Function.update_self, Function.update_self, add_assoc]
    · rw [Function.update_of_ne hk, Function.update_of_ne hk, add_assoc]
  · funext k
    simp only [snap, Snap.sendBits, Snap.sendEnts, Snap.put, onWay_send hj hs hg]
    by_cases hk : k = j
    · subst hk
      rw [Function.update_self, Function.update_self, add_assoc]
    · rw [Function.update_of_ne hk, Function.update_of_ne hk, add_assoc]
  · funext k
    exact Function.apply_update (fun _ => Vis.adds) V j v' k

/-- An SP takes a step. -/
theorem snap_put (hs : v'.sent = (V j).sent) :
    C.snap (Function.update V j v') got joined left =
      (C.snap V got joined left).put j v'.face (v'.ents + C.onWay Event.ents V got j)
        (v'.bits + C.onWay Event.bits V got j) v'.adds := by
  refine Snap.ext ?_ rfl rfl ?_ ?_ ?_
  · funext k
    exact Function.apply_update (fun _ => Vis.face) V j v' k
  · funext k
    simp only [snap, Snap.put, onWay_put hs]
    by_cases hk : k = j
    · subst hk
      rw [Function.update_self, Function.update_self]
    · rw [Function.update_of_ne hk, Function.update_of_ne hk]
  · funext k
    simp only [snap, Snap.put, onWay_put hs]
    by_cases hk : k = j
    · subst hk
      rw [Function.update_self, Function.update_self]
    · rw [Function.update_of_ne hk, Function.update_of_ne hk]
  · funext k
    exact Function.apply_update (fun _ => Vis.adds) V j v' k

/-! ### The actions of a callback -/

section
variable {hin : C.Manned} {v : View} {hv : C.Tells v} {w w' : Work} {d : ℕ}

theorem snap_sp (hV : V j = w.vis j) : (C.snap V got joined left).sp j = w.face := congrArg Vis.face hV

theorem snap_entTok (hV : V j = w.vis j) :
    (C.snap V got joined left).entTok j = (w.vis j).ents + C.onWay Event.ents V got j :=
  congrArg (fun x : Vis => x.ents + C.onWay Event.ents V got j) hV

theorem snap_bitTok (hV : V j = w.vis j) :
    (C.snap V got joined left).bitTok j = (w.vis j).bits + C.onWay Event.bits V got j :=
  congrArg (fun x : Vis => x.bits + C.onWay Event.bits V got j) hV

theorem snap_addTok (hV : V j = w.vis j) : (C.snap V got joined left).addTok j = (w.vis j).adds := congrArg Vis.adds hV

theorem ok_face (hj : j < C.num) (hV : V j = w.vis j) (h : Inv (C.group hin) (C.snap V got joined left)) :
    w.face.Ok (Finset.range (C.site j v hv).size) (C.site j v hv).locals := by
  have hok := h.ok j hj
  rw [snap_sp hV, group_locals, ← @site_locals C j v hv] at hok
  exact hok

/-- A rank that is marked when it leaves has left the next version as well. -/
theorem closing_of_marked (hj : j < C.num) (hV : V j = w.vis j) (h : Inv (C.group hin) (C.snap V got joined left))
    {r : ℕ} (hr : r ∈ C.locals j) (hm : r ∈ w.face.bits) (hl : left r + 1 ≤ joined r) :
    Finset.range C.size ⊆ w.face.bits ∧ w.face.posted = w.face.num := by
  obtain ⟨hrs, rfl⟩ := mem_locals.1 hr
  have hra : r ∈ (C.group hin).all := Finset.mem_range.2 hrs
  have hok := h.ok _ hj
  have hleft := h.left r hra
  have hjoin := h.joined r hra
  rw [show (C.group hin).spOf r = C.spOf r from rfl, snap_sp hV] at hleft hjoin
  rw [snap_sp hV] at hok
  have h₁ : w.face.num ≤ left r := hleft hm
  have h₂ : joined r ≤ w.face.posted + 1 := hjoin
  have h₃ := hok.posted_le
  have hp : w.face.posted = w.face.num := by omega
  exact ⟨hok.closing ⟨r, hok.full ⟨r, hm⟩ r hra⟩ hp, hp⟩

/-- A revoke in hand or put aside is of the version the SP is at, and new. -/
theorem fresh_of_spMsgs (hj : j < C.num) (hV : V j = w.vis j) (h : Inv (C.group hin) (C.snap V got joined left))
    {m : GroupRevokeMsgFromSp} (hm : m ∈ w.spMsgs) {r : ℕ} (hr : r ∈ m.carried) :
    r ∉ C.locals j ∧ m.gpSeqNum = w.face.num ∧ w.face.Active ∧ r ∉ w.face.bits := by
  have ht : (r, m.gpSeqNum) ∈ (C.snap V got joined left).bitTok j := by
    refine Multiset.mem_add.2 (.inl (Multiset.mem_bind.2 ⟨m, ?_, ?_⟩))
    · rw [hV]
      exact Multiset.mem_coe.2 hm
    · exact Multiset.mem_coe.2 (List.mem_map.2 ⟨r, hr, rfl⟩)
  obtain ⟨ha, hnum⟩ := h.num_of_bitTok hj ht
  obtain ⟨-, hne, -, hmiss⟩ := (h.bitTok j hj).2 r _ ht
  rw [snap_sp hV] at ha hnum hmiss
  exact ⟨fun hl => hne (mem_locals.1 hl).2, hnum, ha, fun hb => hmiss.2 ⟨hnum.symm, hb⟩⟩

variable (hj : j < C.num) (hV : V j = w.vis j) (h : Inv (C.group hin) (C.snap V got joined left))
include hj hV h

/-- An entry is in the cache already. -/
theorem inv_skipEnt {t : ℕ × ℕ} {E : Multiset (ℕ × ℕ)} (hE : (w.vis j).ents = t ::ₘ E)
    (hvis : w'.vis j = { w.vis j with ents := E }) :
    Inv (C.group hin) (C.snap (Function.update V j (w'.vis j)) got joined left) := by
  have hle : E + C.onWay Event.ents V got j ≤ (C.snap V got joined left).entTok j := by
    rw [snap_entTok hV, hE, Multiset.cons_add]
    exact Multiset.le_cons_self _ _
  have hput := h.drop hj hle le_rfl
  rw [snap_sp hV, snap_bitTok hV, snap_addTok hV] at hput
  rw [snap_put (by rw [hvis, hV]), hvis]
  exact hput

/-- An entry is added. -/
theorem inv_addEnt {r n : ℕ} {E : Multiset (ℕ × ℕ)} (hb : w.face.bits = ∅) (hE : (w.vis j).ents = (r, n) ::ₘ E)
    (hvis : w'.vis j = { w.vis j with face := w.face.put r n w.due, ents := E }) :
    Inv (C.group hin) (C.snap (Function.update V j (w'.vis j)) got joined left) := by
  have hent : (C.snap V got joined left).entTok j = (r, n) ::ₘ (E + C.onWay Event.ents V got j) := by
    rw [snap_entTok hV, hE, Multiset.cons_add]
  have hbits : ((C.snap V got joined left).sp j).bits = ∅ := by rw [snap_sp hV, hb]
  have hnext := h.next_of_entTok hj hbits (by rw [hent]; exact Multiset.mem_cons_self _ _)
  have hput := h.addEnt hj hbits hent
  rw [snap_sp hV, snap_bitTok hV, snap_addTok hV] at hput
  rw [snap_sp hV] at hnext
  rw [snap_put (by rw [hvis, hV]), hvis, hnext]
  exact hput

/-- A rank that is added is not in the cache. -/
theorem ent_of_addTok {r n : ℕ} {A : Multiset (ℕ × ℕ)} (hb : w.face.bits = ∅) (hA : (w.vis j).adds = (r, n) ::ₘ A) :
    w.face.ent r = none ∧ n = w.face.next := by
  have ht : (r, n) ∈ (C.snap V got joined left).addTok j := by
    rw [snap_addTok hV, hA]
    exact Multiset.mem_cons_self _ _
  have hnext := h.next_of_addTok hj (by rw [snap_sp hV, hb]) ht
  have hw := ((h.addTok j hj).2 r n ht).2.2.2
  rw [snap_sp hV] at hnext hw
  refine ⟨not_not.1 fun hne => hw.2 ⟨?_, hne⟩, hnext⟩
  rw [hnext, Face.next_of_active ⟨r, hne⟩]

/-- A local rank is added. -/
theorem inv_addLocal {r n : ℕ} {A : Multiset (ℕ × ℕ)} (hb : w.face.bits = ∅) (hA : (w.vis j).adds = (r, n) ::ₘ A)
    (hvis : w'.vis j = { w.vis j with face := w.face.put r n true, adds := A }) :
    Inv (C.group hin) (C.snap (Function.update V j (w'.vis j)) got joined left) := by
  obtain ⟨hnone, hnext⟩ := ent_of_addTok hj hV h hb hA
  have hput := h.addLocal hj (by rw [snap_sp hV, hb]) (by rw [snap_sp hV]; exact hnone) ((snap_addTok hV).trans hA)
  rw [snap_sp hV, snap_entTok hV, snap_bitTok hV] at hput
  rw [snap_put (by rw [hvis, hV]), hvis, hnext]
  exact hput

/-- The exchange that follows an addition. -/
theorem inv_exchange (hg : ∀ k, got j k ≤ ((w.vis j).sent k).length) (hn : Named (C.site j v hv) C.spOf w.gp)
    {N : ℕ → List Event} (hdue : w.due = true)
    (hvis : w'.vis j = { w.vis j with face := w.face.settle, sent := fun k => (w.vis j).sent k ++ N k })
    (hN : ∀ k, N k ≠ [] → k ≠ j ∧ (∀ q ∈ C.locals j, w.face.ent q ≠ none) ∧
      ∃ l : List ℕ, N k = l.map (fun r => .peerCacheEntries j [w.gp.entryAt r]) ∧ l.Nodup ∧
        ∀ r ∈ l, r ∈ C.locals j ∧ w.gp.isSet r = true) :
    Inv (C.group hin) (C.snap (Function.update V j (w'.vis j)) got joined left) := by
  have hbits : ∀ k, tokens Event.bits (N k) = 0 := by
    intro k
    by_cases hk : N k = []
    · rw [hk]
      rfl
    · obtain ⟨-, -, l, hl, -⟩ := hN k hk
      rw [hl]
      refine tokens_eq_zero fun ev hev => ?_
      obtain ⟨r, -, rfl⟩ := List.mem_map.1 hev
      rfl
  have hents : ∀ k, ∃ l : List ℕ, tokens Event.ents (N k) = (l.map fun r => (w.gp.entryAt r).tok : List _) ∧ l.Nodup ∧
      ∀ r ∈ l, k ≠ j ∧ r ∈ C.locals j ∧ w.gp.isSet r = true ∧ ∀ q ∈ C.locals j, w.face.ent q ≠ none := by
    intro k
    by_cases hk : N k = []
    · exact ⟨[], by rw [hk]; rfl, List.nodup_nil, fun r hr => absurd hr List.not_mem_nil⟩
    · obtain ⟨hkj, hall, l, hl, hnd, hset⟩ := hN k hk
      refine ⟨l, ?_, hnd, fun r hr => ⟨hkj, (hset r hr).1, (hset r hr).2, hall⟩⟩
      rw [hl]
      clear hl hnd hset
      induction l with
      | nil => rfl
      | cons r l ih =>
        rw [List.map_cons, tokens_cons, ih]
        rfl
  have hmem : ∀ k r n, (r, n) ∈ tokens Event.ents (N k) → k ≠ j ∧ r ∈ C.locals j ∧ w.face.ent r = some n ∧
      ∀ q ∈ C.locals j, w.face.ent q ≠ none := by
    intro k r n hm
    obtain ⟨l, hl, -, hset⟩ := hents k
    rw [hl] at hm
    obtain ⟨q, hq, he⟩ := List.mem_map.1 (Multiset.mem_coe.1 hm)
    obtain ⟨hkj, hloc, hs, hall⟩ := hset q hq
    obtain ⟨h₁, h₂⟩ := Prod.mk.inj he
    have hqr : q = r := (hn.right q hs).2.1.symm.trans h₁
    subst hqr
    exact ⟨hkj, hloc, Work.ent_eq_some.2 ⟨hs, h₂⟩, hall⟩
  have hnd : ∀ k, (tokens Event.ents (N k)).Nodup := by
    intro k
    obtain ⟨l, hl, hnd, hset⟩ := hents k
    rw [hl]
    refine Multiset.coe_nodup.2 (List.Nodup.map_on (fun a ha b hb he => ?_) hnd)
    rw [← (hn.right a (hset a ha).2.2.1).2.1, ← (hn.right b (hset b hb).2.2.1).2.1]
    exact congrArg Prod.fst he
  have hex := h.exchange (N := fun k => tokens Event.ents (N k)) hj (by rw [snap_sp hV]; exact hdue) (fun k _ => hnd k)
    (fun k _ r n hm => by
      obtain ⟨hkj, hloc, hent, -⟩ := hmem k r n hm
      rw [group_locals, snap_sp hV]
      exact ⟨hkj, hloc, hent⟩)
    fun k _ hne => by
      obtain ⟨⟨r, n⟩, hm⟩ := Multiset.exists_mem_of_ne_zero hne
      rw [group_locals, snap_sp hV]
      exact (hmem k r n hm).2.2.2
  rw [snap_sp hV, snap_entTok hV, snap_bitTok hV, snap_addTok hV] at hex
  rw [snap_send hj (N := N) (fun k => by rw [hvis, hV]) (by rw [hV]; exact hg), hvis]
  simp only [hbits, Snap.sendBits_zero]
  exact hex

/-- A local rank is marked. -/
theorem inv_mark (hg : ∀ k, got j k ≤ ((w.vis j).sent k).length) {r : ℕ} {N : ℕ → List Event} (hr : r ∈ C.locals j)
    (hnew : r ∉ w.face.bits) (hfull : ∀ q < C.size, w.face.ent q ≠ none) (hdue : w.due = false)
    (hleft : w.face.num ≤ left r)
    (hvis : w'.vis j = { w.vis j with
      face := { w.face with bits := insert r w.face.bits }, sent := fun k => (w.vis j).sent k ++ N k })
    (hN : ∀ k, N k ≠ [] → k ≠ j ∧ C.locals j ⊆ insert r w.face.bits ∧
      ∃ ms : List GroupRevokeMsgFromSp, N k = ms.map .revokeFromSp ∧ (ms.flatMap (·.carried)).Nodup ∧
        (∀ q ∈ ms.flatMap (·.carried), q ∈ insert r w.face.bits) ∧ ∀ m ∈ ms, m.gpSeqNum = w.face.num) :
    Inv (C.group hin) (C.snap (Function.update V j (w'.vis j)) got joined left) := by
  have hents : ∀ k, tokens Event.ents (N k) = 0 := by
    intro k
    by_cases hk : N k = []
    · rw [hk]
      rfl
    · obtain ⟨-, -, ms, hms, -⟩ := hN k hk
      rw [hms]
      refine tokens_eq_zero fun ev hev => ?_
      obtain ⟨m, -, rfl⟩ := List.mem_map.1 hev
      rfl
  have hbits : ∀ k, ∃ l : List ℕ, tokens Event.bits (N k) = (l.map fun q => (q, w.face.num) : List _) ∧ l.Nodup ∧
      ∀ q ∈ l, k ≠ j ∧ q ∈ insert r w.face.bits ∧ C.locals j ⊆ insert r w.face.bits := by
    intro k
    by_cases hk : N k = []
    · exact ⟨[], by rw [hk]; rfl, List.nodup_nil, fun q hq => absurd hq List.not_mem_nil⟩
    · obtain ⟨hkj, hsub, ms, hms, hnd, hcar, hseq⟩ := hN k hk
      refine ⟨ms.flatMap (·.carried), ?_, hnd, fun q hq => ⟨hkj, hcar q hq, hsub⟩⟩
      rw [hms]
      clear hms hnd hcar
      induction ms with
      | nil => rfl
      | cons m ms ih =>
        rw [List.map_cons, tokens_cons, ih fun m' hm' => hseq m' (List.mem_cons_of_mem _ hm'), List.flatMap_cons,
          List.map_append, ← Multiset.coe_add, ← hseq m List.mem_cons_self]
        rfl
  have hmem : ∀ k q n, (q, n) ∈ tokens Event.bits (N k) →
      k ≠ j ∧ q ∈ insert r w.face.bits ∧ n = w.face.num ∧ C.locals j ⊆ insert r w.face.bits := by
    intro k q n hm
    obtain ⟨l, hl, -, hset⟩ := hbits k
    rw [hl] at hm
    obtain ⟨q', hq', he⟩ := List.mem_map.1 (Multiset.mem_coe.1 hm)
    cases he
    exact ⟨(hset q hq').1, (hset q hq').2.1, rfl, (hset q hq').2.2⟩
  have hnd : ∀ k, (tokens Event.bits (N k)).Nodup := by
    intro k
    obtain ⟨l, hl, hnd, -⟩ := hbits k
    rw [hl]
    exact Multiset.coe_nodup.2 (hnd.map fun a b he => congrArg Prod.fst he)
  have hrs := (mem_locals.1 hr).1
  have hopen : w.face.posted ≠ w.face.num := by
    intro hp
    have hok := h.ok j hj
    rw [snap_sp hV] at hok
    exact hnew (hok.closing ⟨r, hfull r hrs⟩ hp (Finset.mem_range.2 hrs))
  have hmk := h.mark (N := fun k => tokens Event.bits (N k)) hj (by rw [group_locals]; exact hr)
    (by rw [snap_sp hV]; exact hnew)
    (fun q hq => by rw [snap_sp hV]; exact hfull q (Finset.mem_range.1 hq)) (by rw [snap_sp hV]; exact hopen)
    (by rw [snap_sp hV]; exact hdue) (by rw [snap_sp hV]; exact hleft) (fun k _ => hnd k) fun k _ q n hm => by
      rw [group_locals, snap_sp hV]
      exact hmem k q n hm
  rw [snap_sp hV, snap_entTok hV, snap_bitTok hV, snap_addTok hV] at hmk
  rw [snap_send hj (N := N) (fun k => by rw [hvis, hV]) (by rw [hV]; exact hg), hvis]
  simp only [hents, Snap.sendEnts_zero]
  exact hmk

/-- A message of an SP is applied. -/
theorem inv_apply {m : GroupRevokeMsgFromSp} {Q : Multiset GroupRevokeMsgFromSp} (hQ : (w.vis j).msgs = m ::ₘ Q)
    (hfull : w.face.Active → (∀ q < C.size, w.face.ent q ≠ none) ∧ C.locals j ⊆ w.face.bits)
    (hvis : w'.vis j = { w.vis j with
      face := { w.face with bits := w.face.bits ∪ m.carried.toFinset }, msgs := Q }) :
    Inv (C.group hin) (C.snap (Function.update V j (w'.vis j)) got joined left) := by
  have hbit : (C.snap V got joined left).bitTok j =
      m.toks + (Q.bind GroupRevokeMsgFromSp.toks + C.onWay Event.bits V got j) := by
    rw [snap_bitTok hV, Vis.bits, hQ, Multiset.cons_bind, add_assoc]
  have hm : m ∈ w.spMsgs := by
    apply Multiset.mem_coe.1
    change m ∈ (w.vis j).msgs
    rw [hQ]
    exact Multiset.mem_cons_self _ _
  rw [snap_put (by rw [hvis, hV]), hvis]
  rcases m.carried.toFinset.eq_empty_or_nonempty with h0 | hne
  · have hdrop := h.drop hj le_rfl (B := Q.bind GroupRevokeMsgFromSp.toks + C.onWay Event.bits V got j)
      (by rw [hbit]; exact Multiset.le_add_left _ _)
    rw [snap_sp hV, snap_entTok hV, snap_addTok hV] at hdrop
    rw [h0, Finset.union_empty]
    exact hdrop
  · obtain ⟨r, hr⟩ := hne
    have hact := (fresh_of_spMsgs hj hV h hm (List.mem_toFinset.1 hr)).2.2.1
    obtain ⟨hent, hsub⟩ := hfull hact
    have hok := h.ok j hj
    rw [snap_sp hV] at hok
    have hdue : w.face.due = false := by
      rw [← Bool.not_eq_true]
      intro hd
      obtain ⟨q, hq, hqj⟩ := hin j hj
      have hqb := hsub (mem_locals.2 ⟨hq, hqj⟩)
      rw [hok.due hd] at hqb
      exact Finset.notMem_empty q hqb
    have hap := h.apply hj hbit (v := m.gpSeqNum)
      (fun q (hq : q ∈ m.carried.toFinset) => Multiset.mem_coe.2 (List.mem_map.2 ⟨q, List.mem_toFinset.1 hq, rfl⟩))
      (fun _ => by
        rw [snap_sp hV, group_locals]
        exact ⟨fun q hq => hent q (Finset.mem_range.1 hq), hsub⟩) (by rw [snap_sp hV]; exact hdue)
    rw [snap_sp hV, snap_entTok hV, snap_addTok hV] at hap
    exact hap

/-- The final revoke is posted. -/
theorem inv_post (hall : Finset.range C.size ⊆ w.face.bits) (hvis : w'.vis j = { w.vis j with face := w.face.post }) :
    Inv (C.group hin) (C.snap (Function.update V j (w'.vis j)) got joined left) := by
  have hp := h.post hj (by rw [snap_sp hV]; exact hall)
  rw [snap_sp hV, snap_entTok hV, snap_bitTok hV, snap_addTok hV] at hp
  rw [snap_put (by rw [hvis, hV]), hvis]
  exact hp

/-- A version ends. -/
theorem inv_reset (hact : w.face.Active) (hp : w.face.posted = w.face.num)
    (hvis : w'.vis j = { w.vis j with face := w.face.reset }) :
    Inv (C.group hin) (C.snap (Function.update V j (w'.vis j)) got joined left) := by
  have hr := h.reset hj (by rw [snap_sp hV]; exact hact) (by rw [snap_sp hV]; exact hp)
  rw [snap_sp hV, snap_entTok hV, snap_bitTok hV, snap_addTok hV] at hr
  rw [snap_put (by rw [hvis, hV]), hvis]
  exact hr

end

/-- What an action sends is as it should be, and it drops no revoke of an SP before its ranks are marked. -/
structure Passes (C : Crew) (j : ℕ) (w w' : Work) : Prop where
  /-- What it sends. -/
  sends : ∀ k, ∃ N, (w'.vis j).sent k = (w.vis j).sent k ++ N ∧ ∀ ev ∈ N, (C.msgs k).Ok ev
  /-- What it drops. -/
  drops : ∀ m ∈ w.spMsgs, m ∈ w'.spMsgs ∨ ∀ r ∈ m.carried, .markedFromSp r m.gpSeqNum m.gpSeqNum ∈ w'.notes

theorem passes_of_vis {w w' : Work} (hs : (w'.vis j).sent = (w.vis j).sent) (hm : (w'.vis j).msgs = (w.vis j).msgs) :
    Passes C j w w' where
  sends k := ⟨[], by rw [hs, List.append_nil], fun _ hev => absurd hev List.not_mem_nil⟩
  drops m hmem := .inl ((Multiset.coe_eq_coe.1 hm).mem_iff.2 hmem)

/-- A callback in the middle of a run: the other SPs, the links, and how often the ranks have joined and left,
before the event and with it. -/
structure Scene where
  /-- The other SPs. -/
  others : ℕ → Vis
  /-- How many messages have been received. -/
  got : ℕ → ℕ → ℕ
  /-- How often a rank has joined. -/
  joined : ℕ → ℕ
  /-- How often it had left. -/
  before : ℕ → ℕ
  /-- How often it has left. -/
  left : ℕ → ℕ
  /-- The messages of SPs received. -/
  heard : GroupRevokeMsgFromSp → Prop
  /-- The final revokes sent. -/
  ended : ℕ

/-- How often a rank has left, as far as the callback has got. -/
def Scene.leaving (X : Scene) (w : Work) : ℕ → ℕ := if w.rankRevs = [] then X.left else X.before

/-- What the protocol sees of all SPs in the middle of a callback of SP `j`. -/
def during (C : Crew) (j : ℕ) (X : Scene) (w : Work) : Snap ℕ ℕ :=
  C.snap (Function.update X.others j (w.vis j)) X.got X.joined (X.leaving w)

/-- **What holds in the middle of a callback** of SP `j`. -/
structure Mid (C : Crew) (hin : C.Manned) (j : ℕ) (S : Site) (X : Scene) (w : Work) : Prop where
  /-- The entries name their ranks. -/
  named : Named S C.spOf w.gp
  /-- The versions are in order. -/
  inv : Inv (C.group hin) (C.during j X w)
  /-- So are the revokes. -/
  revs : RevKept S X.ended w.rev w.notes
  /-- A rank is revoked while no addition is being made. -/
  mode : w.rankRevs = [] ∨ Calm w
  /-- A rank leaves a version it has joined. -/
  leaves : ∀ i ∈ w.rankRevs, X.before i.rank + 1 ≤ X.joined i.rank ∧ X.left i.rank = X.before i.rank + 1
  /-- What was received was sent. -/
  got : ∀ k, X.got j k ≤ ((w.vis j).sent k).length
  /-- What was sent is as it should be. -/
  sends : ∀ k, ∀ ev ∈ (w.vis j).sent k, (C.msgs k).Ok ev
  /-- No revoke of an SP is lost. -/
  heard : ∀ m, X.heard m → ∀ r ∈ m.carried, .markedFromSp r m.gpSeqNum m.gpSeqNum ∈ w.notes ∨ m ∈ w.spMsgs

section
variable {hin : C.Manned} {v : View} {hv : C.Tells v} {w w' : Work} {X : Scene}

theorem during_update (C : Crew) (X : Scene) (left : ℕ → ℕ) :
    C.snap (Function.update (Function.update X.others j (w.vis j)) j (w'.vis j)) X.got X.joined left =
      C.snap (Function.update X.others j (w'.vis j)) X.got X.joined left := by
  rw [Function.update_idem]

theorem leaving_le (hX : ∀ r, X.before r ≤ X.left r) (hr : w'.rankRevs ⊆ w.rankRevs) (r : ℕ) :
    X.leaving w r ≤ X.leaving w' r := by
  unfold Scene.leaving
  by_cases h' : w'.rankRevs = []
  · rw [if_pos h']
    split
    · exact le_rfl
    · exact hX r
  · have h : w.rankRevs ≠ [] := fun h0 => h' (List.subset_nil.1 (h0 ▸ hr))
    rw [if_neg h', if_neg h]

theorem Mid.ok (hj : j < C.num) (h : Mid C hin j (C.site j v hv) X w) :
    w.face.Ok (Finset.range (C.site j v hv).size) (C.site j v hv).locals :=
  ok_face hj (Function.update_self ..) h.inv

/-- A rank that is marked when it leaves has left the next version as well. -/
theorem Mid.closing (hj : j < C.num) (h : Mid C hin j (C.site j v hv) X w) (hb : Base (C.site j v hv) (C.msgs j) w)
    {i : RankInfo} (hi : i ∈ w.rankRevs) (hm : i.rank ∈ w.face.bits) :
    (C.site j v hv).locals ⊆ w.face.bits ∧ w.face.posted = w.face.num := by
  have hinv := h.inv
  rw [during, Scene.leaving, if_neg (List.ne_nil_of_mem hi)] at hinv
  obtain ⟨hall, hp⟩ := closing_of_marked hj (Function.update_self ..) hinv (hb.carries.rankRevs i hi).2 hm (h.leaves i hi).1
  exact ⟨(Site.locals_subset_range _).trans hall, hp⟩

/-- The other SPs are told of a revoke. -/
theorem passes_mark {w w' : Work} {bits : Finset ℕ} {N : ℕ → List Event}
    (hvis : w'.vis j = { w.vis j with
      face := { w.face with bits := bits }, sent := fun k => (w.vis j).sent k ++ N k })
    (hN : ∀ k, ∀ ev ∈ N k, (C.msgs k).Ok ev) : Passes C j w w' where
  sends k := ⟨N k, by rw [hvis], hN k⟩
  drops m hm := by
    have hmsgs : (w'.vis j).msgs = (w.vis j).msgs := by rw [hvis]
    exact .inl ((Multiset.coe_eq_coe.1 hmsgs).mem_iff.2 hm)

/-- A local rank is marked, in the middle of a callback. -/
theorem Mid.mark (hj : j < C.num) (hX : ∀ r, X.before r ≤ X.left r) (hb : Base (C.site j v hv) (C.msgs j) w)
    (h : Mid C hin j (C.site j v hv) X w) {i : RankInfo} {N : ℕ → List Event} (hrr : w.rankRevs = i :: w'.rankRevs)
    (hn : w.gp.numLocalEntries = C.size)
    (hvis : w'.vis j = { w.vis j with
      face := { w.face with bits := insert i.rank w.face.bits }, sent := fun k => (w.vis j).sent k ++ N k })
    (hN : ∀ k, N k ≠ [] → k ≠ j ∧ w.gp.revokesLocal + 1 = w.gp.spRanks ∧
      ∃ ms : List GroupRevokeMsgFromSp, N k = ms.map .revokeFromSp ∧ (ms.flatMap (·.carried)).Nodup ∧
        (∀ r ∈ ms.flatMap (·.carried), r ∈ insert i.rank w.face.bits) ∧ ∀ m ∈ ms, m.gpSeqNum = w.face.num) :
    Inv (C.group hin) (C.during j X w') := by
  have hi : i ∈ w.rankRevs := mem_of_eq_cons hrr
  have hloc := (hb.carries.rankRevs i hi).2
  have hlocS : i.rank ∈ (C.site j v hv).locals := by rw [site_locals]; exact hloc
  have hne : w.rankRevs ≠ [] := List.ne_nil_of_mem hi
  have hone : w'.rankRevs = [] := by
    have := h.revs.one
    rw [show w.rev.rankRevs = i :: w'.rankRevs from hrr, List.length_cons] at this
    exact List.length_eq_zero_iff.1 (by omega)
  have hle : ∀ q, X.leaving w q ≤ X.leaving w' q := leaving_le hX (subset_of_eq_cons hrr)
  have hfull : ∀ q < C.size, w.face.ent q ≠ none := fun q hq => hb.counts.ent_of_full hn hq
  have hinv : Inv (C.group hin)
      (C.snap (Function.update X.others j (w.vis j)) X.got X.joined (X.leaving w')) := h.inv.leave hle
  rw [during, ← during_update (w := w)]
  by_cases hin' : i.rank ∈ w.face.bits
  · -- nothing that can be seen
    have hsub := (h.closing hj hb hi hin').1
    have hnil : ∀ k, N k = [] := fun k => by
      by_contra hk
      exact h.revs.succ_ne_spRanks hb.counts hn hsub (hN k hk).2.1
    have hsame : w'.vis j = w.vis j := by
      rw [hvis, Finset.insert_eq_of_mem hin']
      exact Vis.ext rfl rfl rfl rfl (funext fun k => by dsimp only; rw [hnil k, List.append_nil])
    rw [hsame, Function.update_idem]
    exact hinv
  · refine inv_mark hj (Function.update_self ..) hinv h.got hloc hin' hfull ?_ ?_ hvis fun k hk => ?_
    · exact ((h.mode.resolve_left hne).due hne).1
    · have hended := h.inv.ended i.rank (Finset.mem_range.2 (mem_locals.1 hloc).1)
      rw [show (C.group hin).spOf i.rank = j from (mem_locals.1 hloc).2, during, snap_sp (Function.update_self ..),
        Face.done_of_active ⟨i.rank, hfull _ (mem_locals.1 hloc).1⟩] at hended
      have hold : X.leaving w = X.before := if_neg hne
      have hnew : X.leaving w' = X.left := if_pos hone
      have hsucc := (h.leaves i hi).2
      rw [hnew, hsucc]
      change w.face.num - 1 ≤ X.leaving w i.rank at hended
      rw [hold] at hended
      omega
    · obtain ⟨hkj, hlast, ms, hms, hnd, hcar, hseq⟩ := hN k hk
      refine ⟨hkj, ?_, ms, hms, hnd, hcar, hseq⟩
      rw [← @site_locals C j v hv]
      exact h.revs.locals_subset_insert hb.counts (h.ok hj) hn hlocS hin' hlast

/-- **What the protocol sees of an action keeps the versions in order.** -/
theorem Mid.verAct (hj : j < C.num) (hX : ∀ r, X.before r ≤ X.left r) (hb : Base (C.site j v hv) (C.msgs j) w)
    (h : Mid C hin j (C.site j v hv) X w) (hrr : w'.rankRevs ⊆ w.rankRevs)
    (ha : VerAct (C.site j v hv) (C.site j v hv).TurnTally w w') :
    Inv (C.group hin) (C.during j X w') ∧ Passes C j w w' := by
  have hV : Function.update X.others j (w.vis j) j = w.vis j := Function.update_self ..
  have hid : (C.site j v hv).ctx.globalId = j := site_globalId
  have hle := leaving_le hX hrr
  have hinv : Inv (C.group hin)
      (C.snap (Function.update X.others j (w.vis j)) X.got X.joined (X.leaving w')) := h.inv.leave hle
  have hbits : w.gp.revokesGlobal = 0 → w.face.bits = ∅ := h.revs.revoked_of_zero
  rw [during, ← during_update (w := w)]
  cases ha with
  | quiet hvis =>
    rw [hid] at hvis
    rw [hvis, Function.update_idem]
    exact ⟨hinv, passes_of_vis (by rw [hvis]) (by rw [hvis])⟩
  | skipEnt t E hE hvis =>
    rw [hid] at hE hvis
    exact ⟨inv_skipEnt hj hV hinv hE hvis, passes_of_vis (by rw [hvis]) (by rw [hvis])⟩
  | addEnt r n E h0 hnone hE hvis =>
    rw [hid] at hE hvis
    exact ⟨inv_addEnt hj hV hinv (hbits h0) hE hvis, passes_of_vis (by rw [hvis]) (by rw [hvis])⟩
  | skipAdd r n A h0 hset hA =>
    rw [hid] at hA
    exact absurd (ent_of_addTok hj hV hinv (hbits h0) hA).1 hset
  | addLocal r n A h0 hnone hA hvis =>
    rw [hid] at hA hvis
    exact ⟨inv_addLocal hj hV hinv (hbits h0) hA hvis, passes_of_vis (by rw [hvis]) (by rw [hvis])⟩
  | exchange N hdue hvis hN =>
    rw [hid] at hvis hN
    have hN' : ∀ k, N k ≠ [] → k ≠ j ∧ (∀ q ∈ C.locals j, w.face.ent q ≠ none) ∧
        ∃ l : List ℕ, N k = l.map (fun r => .peerCacheEntries j [w.gp.entryAt r]) ∧ l.Nodup ∧
          ∀ r ∈ l, r ∈ C.locals j ∧ w.gp.isSet r = true := by
      intro k hk
      obtain ⟨hdest, hall, hl⟩ := hN k hk
      rw [site_locals] at hall hl
      exact ⟨hid ▸ (mem_otherSps.1 hdest).2, hall, hl⟩
    refine ⟨inv_exchange hj hV hinv h.got h.named hdue hvis hN',
      ⟨fun k => ⟨N k, by rw [hvis], fun ev hev => ?_⟩, fun m hm => ?_⟩⟩
    · obtain ⟨hkj, -, l, hl, -, hset⟩ := hN' k (List.ne_nil_of_mem hev)
      rw [hl] at hev
      obtain ⟨r, hr, rfl⟩ := List.mem_map.1 hev
      obtain ⟨hloc, hs⟩ := hset r hr
      obtain ⟨hi, hrank, hsp⟩ := h.named.right r hs
      refine ⟨List.cons_ne_nil _ _, fun e he => ?_⟩
      rw [List.mem_singleton.1 he]
      refine ⟨site_info.1 hi, ?_, ?_⟩
      · rw [hrank]
        exact fun hk => hkj ((mem_locals.1 hk).2.symm.trans (mem_locals.1 hloc).2)
      · rw [hrank]
        exact hsp
    · have hmsgs : (w'.vis j).msgs = (w.vis j).msgs := by rw [hvis]
      exact .inl ((Multiset.coe_eq_coe.1 hmsgs).mem_iff.2 hm)
  | mark i N hmk hs hn hvis hN =>
    rw [hid] at hvis
    have hN' : ∀ k, N k ≠ [] → k ≠ j ∧ w.gp.revokesLocal + 1 = w.gp.spRanks ∧
        ∃ ms : List GroupRevokeMsgFromSp, N k = ms.map .revokeFromSp ∧ (ms.flatMap (·.carried)).Nodup ∧
          (∀ r ∈ ms.flatMap (·.carried), r ∈ insert i.rank w.face.bits) ∧ ∀ m ∈ ms, m.gpSeqNum = w.face.num := by
      intro k hk
      obtain ⟨hdest, hlast, ms, hms, hnd, hcar, hmsg⟩ := hN k hk
      exact ⟨hid ▸ (mem_otherSps.1 hdest).2, hlast, ms, hms, hnd, hcar, fun m hm => (hmsg m hm).2.1⟩
    refine ⟨?_, passes_mark hvis fun k ev hev => ?_⟩
    · rw [during_update]
      exact h.mark hj hX hb hmk hn hvis hN'
    · obtain ⟨-, -, ms, hms, -, -, hmsg⟩ := hN k (List.ne_nil_of_mem hev)
      rw [hms] at hev
      obtain ⟨m, hm, rfl⟩ := List.mem_map.1 hev
      exact ⟨(hmsg m hm).1, (hmsg m hm).2.2⟩
  | apply m Q hQ hT hvis hnotes =>
    rw [hid] at hQ hvis
    have hfull : w.face.Active → (∀ q < C.size, w.face.ent q ≠ none) ∧ C.locals j ⊆ w.face.bits := by
      intro ha
      obtain ⟨hn, hsp⟩ := hT.2.resolve_right (hb.counts.active_iff.1 ha)
      refine ⟨fun q hq => hb.counts.ent_of_full hn hq, ?_⟩
      rw [← @site_locals C j v hv]
      exact h.revs.locals_subset hb.counts (h.ok hj) hn hsp
    refine ⟨inv_apply hj hV hinv hQ hfull hvis, ⟨fun k => ⟨[], by rw [hvis, List.append_nil], ?_⟩, fun x hx => ?_⟩⟩
    · exact fun _ hev => absurd hev List.not_mem_nil
    · have hmsgs : (w'.vis j).msgs = Q := by rw [hvis]
      have hx' : x ∈ (w.vis j).msgs := hx
      rw [hQ] at hx'
      rcases Multiset.mem_cons.1 hx' with rfl | hxQ
      · refine .inr fun r hr => ?_
        obtain ⟨-, hseq, -, hnew⟩ := fresh_of_spMsgs hj hV hinv hx hr
        have := hnotes r hr hnew
        rwa [← hseq] at this
      · rw [← hmsgs] at hxQ
        exact .inl hxQ
  | post hg hlt hvis =>
    rw [hid] at hvis
    exact ⟨inv_post hj hV hinv (h.revs.all_subset hb.counts (h.ok hj) hg hlt) hvis,
      passes_of_vis (by rw [hvis]) (by rw [hvis])⟩
  | reset hf hvis =>
    rw [hid] at hvis
    obtain ⟨hpos, hp⟩ := h.revs.final hf
    exact ⟨inv_reset hj hV hinv (hb.counts.active_iff.2 hpos.ne') hp hvis, passes_of_vis (by rw [hvis]) (by rw [hvis])⟩

/-- **What holds in the middle of a callback is kept by its actions.** -/
theorem Mid.act (hj : j < C.num) (hX : ∀ r, X.before r ≤ X.left r) (hb : Base (C.site j v hv) (C.msgs j) w)
    (h : Mid C hin j (C.site j v hv) X w)
    (ha : Act (C.site j v hv).ctx (· = ((C.site j v hv).size : ℤ)) (C.site j v hv).TurnTally w w') :
    Mid C hin j (C.site j v hv) X w' := by
  have hT : ∀ t, (C.site j v hv).TurnTally t → t.groupSize = (C.site j v hv).size := fun t ht => ht.1
  have hown : ∀ r ∈ (C.site j v hv).locals, C.spOf r = (C.site j v hv).ctx.globalId := by
    intro r hr
    rw [site_locals] at hr
    rw [site_globalId]
    exact (mem_locals.1 hr).2
  have hown' : ∀ r < (C.site j v hv).size, C.spOf r = (C.site j v hv).ctx.globalId → r ∈ (C.site j v hv).locals := by
    intro r hr hsp
    rw [site_globalId] at hsp
    rw [site_locals]
    exact mem_locals.2 ⟨hr, hsp⟩
  have hrev := ha.revAct msgs_le_site hT hb
  obtain ⟨hinv, hpass⟩ := h.verAct hj hX hb hrev.rankRevs_subset (ha.verAct msgs_le hT hv.1 hown' hb h.named)
  have hV : Function.update X.others j (w.vis j) j = w.vis j := Function.update_self ..
  refine ⟨h.named.act hown hb.counts (hb.carries.mono msgs_le) ha, hinv, ?_, ?_,
    fun i hi => h.leaves i (hrev.rankRevs_subset hi), fun k => ?_, fun k ev hev => ?_, fun m hm r hr => ?_⟩
  · refine h.revs.act hb msgs_le_site (h.ok hj) (fun i hi hm => h.closing hj hb hi hm) (fun m hm r hr => ?_) hrev
    have hmem : m ∈ w.spMsgs := List.mem_append_left _ (List.mem_append_right _ hm)
    obtain ⟨h₁, h₂, -, -⟩ := fresh_of_spMsgs hj hV h.inv hmem hr
    exact ⟨by rw [site_locals]; exact h₁, h₂⟩
  · rcases h.mode with h0 | hcalm
    · exact .inl (List.subset_nil.1 (h0 ▸ hrev.rankRevs_subset))
    · exact .inr (hcalm.act hb.counts ha)
  · obtain ⟨N, hN, -⟩ := hpass.sends k
    rw [hN, List.length_append]
    exact (h.got k).trans (Nat.le_add_right _ _)
  · obtain ⟨N, hN, hok⟩ := hpass.sends k
    rw [hN] at hev
    exact (List.mem_append.1 hev).elim (h.sends k ev) (hok ev)
  · rcases h.heard m hm r hr with hmk | hmem
    · exact .inl (hrev.notes_subset hmk)
    · rcases hpass.drops m hmem with hmem | hmk
      · exact .inr hmem
      · exact .inl (hmk r hr)

end

end Crew

/-! ### A callback starts -/

/-- The additions of a message. -/
def Event.adds : Event → Multiset (ℕ × ℕ)
  | .addGroupRank c m => {PendingGroupAdd.tok ⟨c, m⟩}
  | _ => 0

/-- The revoke message of an SP. -/
def Event.msgs : Event → Multiset GroupRevokeMsgFromSp
  | .revokeFromSp m => {m}
  | _ => 0

theorem Event.bind_msgs (ev : Event) : ev.msgs.bind GroupRevokeMsgFromSp.toks = ev.bits := by
  cases ev with
  | revokeFromSp m => exact Multiset.singleton_bind _ _
  | addGroupRank _ _ | peerCacheEntries _ _ | revokeFromRank _ | cacheSent | revokeSent | requestAdd _ | requestRevoke _ =>
    rfl

/-- What the protocol sees of an SP with a message in hand. -/
def Vis.take (v : Vis) (ev : Event) : Vis :=
  { v with ents := ev.ents + v.ents, adds := ev.adds + v.adds, msgs := ev.msgs + v.msgs }

theorem enter_vis {ctx : GpCtx} (hd : ctx.onDpu = true) (ev : Event) (s : GpState) (i : ℕ) :
    (ev.enter ctx s).vis i = ((Work.start s).vis i).take ev := by
  cases ev with
  | addGroupRank c m => exact Vis.ext rfl (Multiset.zero_add _).symm rfl (Multiset.zero_add _).symm rfl
  | peerCacheEntries sp batch =>
    refine Vis.ext rfl ?_ (Multiset.zero_add _).symm (Multiset.zero_add _).symm rfl
    change Multiset.ofList ((batch ++ [] ++ s.gp.parked.flatMap PendingRecvCacheEntry.payload).map PeerCacheEntry.tok) = _
    rw [List.append_nil, List.map_append, ← Multiset.coe_add]
    rfl
  | revokeFromSp m =>
    rw [Event.enter, if_pos hd]
    exact Vis.ext rfl (Multiset.zero_add _).symm (Multiset.zero_add _).symm rfl rfl
  | revokeFromRank _ | cacheSent | revokeSent | requestAdd _ | requestRevoke _ =>
    exact Vis.ext rfl (Multiset.zero_add _).symm (Multiset.zero_add _).symm (Multiset.zero_add _).symm rfl

namespace Crew

variable {C : Crew} {V : ℕ → Vis} {got : ℕ → ℕ → ℕ} {joined left : ℕ → ℕ} {i j : ℕ} {ev : Event} {es : List Event}

theorem onWay_receive (hi : i < C.num) (hl : ((V i).sent j).drop (got i j) = ev :: es)
    (f : Event → Multiset (ℕ × ℕ)) (k : ℕ) :
    C.onWay f V got k = (if k = j then f ev else 0) +
      C.onWay f V (Function.update got i (Function.update (got i) j (got i j + 1))) k := by
  have hterm : ∀ i', tokens f (((V i').sent k).drop (got i' k)) = (if i' = i then (if k = j then f ev else 0) else 0) +
      tokens f (((V i').sent k).drop (Function.update got i (Function.update (got i) j (got i j + 1)) i' k)) := by
    intro i'
    by_cases hi' : i' = i
    · subst hi'
      rw [Function.update_self, if_pos rfl]
      by_cases hk : k = j
      · subst hk
        have htail : ((V i').sent k).drop (got i' k + 1) = es := by
          rw [← List.drop_drop, hl]
          rfl
        rw [Function.update_self, if_pos rfl, hl, htail, tokens_cons]
      · rw [Function.update_of_ne hk, if_neg hk, zero_add]
    · rw [Function.update_of_ne hi', if_neg hi', zero_add]
  rw [onWay, Finset.sum_congr rfl fun i' _ => hterm i', Finset.sum_add_distrib,
    Finset.sum_ite_eq' (Finset.range C.num) i, if_pos (Finset.mem_range.2 hi)]
  rfl

/-- **A message that is received is still on its way**, in the hands of the callback. -/
theorem snap_receive (hi : i < C.num) (hl : ((V i).sent j).drop (got i j) = ev :: es) (ha : ev.adds = 0) :
    C.snap (Function.update V j ((V j).take ev))
      (Function.update got i (Function.update (got i) j (got i j + 1))) joined left = C.snap V got joined left := by
  have hsent : ((V j).take ev).sent = (V j).sent := rfl
  refine Snap.ext ?_ rfl rfl ?_ ?_ ?_
  · funext k
    exact (Function.apply_update (fun _ => Vis.face) V j _ k).trans (congrFun (Function.update_eq_self j _) k)
  · funext k
    simp only [snap, onWay_put hsent, onWay_receive hi hl]
    by_cases hk : k = j
    · subst hk
      rw [Function.update_self, if_pos rfl]
      change ev.ents + (V k).ents + _ = _
      rw [add_left_comm, add_assoc]
    · rw [Function.update_of_ne hk, if_neg hk, zero_add]
  · funext k
    simp only [snap, onWay_put hsent, onWay_receive hi hl]
    by_cases hk : k = j
    · subst hk
      rw [Function.update_self, if_pos rfl]
      change (ev.msgs + (V k).msgs).bind _ + _ = _
      rw [Multiset.add_bind, ev.bind_msgs, add_left_comm, add_assoc]
      rfl
    · rw [Function.update_of_ne hk, if_neg hk, zero_add]
  · funext k
    by_cases hk : k = j
    · subst hk
      simp only [snap]
      rw [Function.update_self]
      change ev.adds + _ = _
      rw [ha, zero_add]
    · simp only [snap]
      rw [Function.update_of_ne hk]

/-- A rank that joins is on its way, in the hands of the callback. -/
theorem snap_join (c : ℕ) (m : GroupAddMsg) (joined joined' : ℕ → ℕ) :
    C.snap (Function.update V j ((V j).take (.addGroupRank c m))) got joined' left =
      { C.snap V got joined left with
        joined := joined'
        addTok := Function.update (C.snap V got joined left).addTok j (PendingGroupAdd.tok ⟨c, m⟩ ::ₘ (V j).adds) } := by
  have hsent : ((V j).take (.addGroupRank c m)).sent = (V j).sent := rfl
  refine Snap.ext ?_ rfl rfl ?_ ?_ ?_
  · funext k
    exact (Function.apply_update (fun _ => Vis.face) V j _ k).trans (congrFun (Function.update_eq_self j _) k)
  · funext k
    simp only [snap, onWay_put hsent]
    by_cases hk : k = j
    · subst hk
      rw [Function.update_self]
      exact congrArg (· + _) (Multiset.zero_add _)
    · rw [Function.update_of_ne hk]
  · funext k
    simp only [snap, onWay_put hsent]
    by_cases hk : k = j
    · subst hk
      rw [Function.update_self]
      exact congrArg (fun x => Multiset.bind x _ + _) (Multiset.zero_add _)
    · rw [Function.update_of_ne hk]
  · funext k
    exact Function.apply_update (fun _ => Vis.adds) V j _ k

end Crew

/-! ### Runs -/

/-- Does rank `r` join? -/
def Event.addsRank (r : ℕ) : Event → Bool
  | .addGroupRank _ m => m.rankInfo.rank == r
  | _ => false

/-- Does rank `r` leave? -/
def Event.revokesRank (r : ℕ) : Event → Bool
  | .revokeFromRank x => x.rank == r
  | _ => false

/-- What the protocol sees of the SPs. -/
def Net.view (s : Net) (i : ℕ) : Vis := (s.sp i).work.vis i

/-- Where messages of SPs are applied that should wait: when the cache has been sent to the local ranks, and not all
of them have revoked the group. -/
def Net.Orderly (s : Net) : NetLabel → Prop
  | .own i _ .cacheSent => (s.sp i).gp.persistent.pendingGroupRevokeMsgsFromSps = [] ∨ (s.sp i).gp.AllLocal
  | _ => True

/-- Is this the final revoke of version `v`? -/
def Effect.ends (v : ℕ) : Effect → Bool
  | .revokeToRanks _ n => n == v
  | _ => false

namespace Crew

variable (C : Crew)

/-- How often a rank has joined. -/
def joined (s : Net) (r : ℕ) : ℕ := (s.sp (C.spOf r)).seen.countP (Event.addsRank r)

/-- How often a rank has left. -/
def left (s : Net) (r : ℕ) : ℕ := (s.sp (C.spOf r)).seen.countP (Event.revokesRank r)

/-- **The environment**: every rank joins version after version through its SP, the next one when the final revoke
of the last one was posted to it, and leaves each version it has joined once. -/
def Env (s : Net) : NetLabel → Prop
  | .own i v (.addGroupRank c m) => C.Tells v ∧ m.rankInfo.rank < C.size ∧ C.spOf m.rankInfo.rank = i ∧
      c = C.client m.rankInfo.rank ∧ m = C.msg m.rankInfo.rank (C.joined s m.rankInfo.rank + 1) ∧
      (C.joined s m.rankInfo.rank = 0 ∨ ∃ x ∈ (s.sp i).log, x.ends (C.joined s m.rankInfo.rank) = true)
  | .own i v (.revokeFromRank x) => C.Tells v ∧ C.Info x ∧ C.spOf x.rank = i ∧ x.groupSeqNum = C.left s x.rank + 1 ∧
      C.left s x.rank + 1 ≤ C.joined s x.rank
  | .own i v .cacheSent => C.Tells v ∧ i < C.num
  | .own i v .revokeSent => C.Tells v ∧ i < C.num
  | .own _ _ _ => False
  | .deliver i j v => C.Tells v ∧ i < C.num ∧ j < C.num

/-- What SP `i` keeps between two callbacks. -/
structure SpKept (i : ℕ) (e : Engine) : Prop where
  /-- The counters count. -/
  base : ∀ v hv, Base (C.site i v hv) (C.msgs i) e.work
  /-- The entries name their ranks. -/
  named : ∀ v hv, Named (C.site i v hv) C.spOf e.gp
  /-- The revokes are in order. -/
  revs : ∀ v hv, RevKept (C.site i v hv) e.revokeDone e.work.rev e.work.notes
  /-- The message of an SP marks ranks at its version. -/
  marks : ∀ r k n, .markedFromSp r k n ∈ e.work.notes → k = n
  /-- An addition waits while a version is being revoked. -/
  waits : e.gp.persistent.pendingGroupAddMsgs = [] ∨ 0 < e.gp.revokesGlobal
  /-- What was sent is as it should be. -/
  sends : ∀ k, ∀ ev ∈ (e.work.vis i).sent k, (C.msgs k).Ok ev
  /-- No revoke of an SP is lost. -/
  heard : ∀ m, .revokeFromSp m ∈ e.seen → ∀ r ∈ m.carried,
    .markedFromSp r m.gpSeqNum m.gpSeqNum ∈ e.work.notes ∨ m ∈ e.work.spMsgs

/-- **What the SPs keep.** -/
structure Kept (hin : C.Manned) (s : Net) : Prop where
  /-- Each by itself. -/
  sp : ∀ i < C.num, C.SpKept i (s.sp i)
  /-- The versions are in order. -/
  inv : Inv (C.group hin) (C.snap s.view s.got (C.joined s) (C.left s))
  /-- What was received was sent. -/
  got : ∀ i k, s.got i k ≤ ((s.view i).sent k).length

variable {C} {hin : C.Manned} {s : Net} {j : ℕ} {v : View} {hv : C.Tells v} {ev : Event} {e : Engine}

theorem seen_put (f : ℕ → Event → Bool) (hseen : e.seen = (s.sp j).seen ++ [ev]) (r : ℕ) :
    ((s.put j e).sp (C.spOf r)).seen.countP (f r) =
      (s.sp (C.spOf r)).seen.countP (f r) + if C.spOf r = j ∧ f r ev = true then 1 else 0 := by
  by_cases hr : C.spOf r = j
  · rw [hr, Net.put_sp_self, hseen, List.countP_append, List.countP_singleton]
    simp only [true_and]
  · rw [Net.put_sp_of_ne hr, if_neg fun hc => hr hc.1, Nat.add_zero]

theorem joined_put (hseen : e.seen = (s.sp j).seen ++ [ev]) (r : ℕ) :
    C.joined (s.put j e) r = C.joined s r + if C.spOf r = j ∧ ev.addsRank r = true then 1 else 0 :=
  seen_put Event.addsRank hseen r

theorem left_put (hseen : e.seen = (s.sp j).seen ++ [ev]) (r : ℕ) :
    C.left (s.put j e) r = C.left s r + if C.spOf r = j ∧ ev.revokesRank r = true then 1 else 0 :=
  seen_put Event.revokesRank hseen r

theorem joined_put_of_false (hseen : e.seen = (s.sp j).seen ++ [ev]) (h : ∀ r, ev.addsRank r = false) :
    C.joined (s.put j e) = C.joined s := by
  funext r
  rw [joined_put hseen, h r, if_neg fun hc => Bool.false_ne_true hc.2, Nat.add_zero]

theorem left_put_of_false (hseen : e.seen = (s.sp j).seen ++ [ev]) (h : ∀ r, ev.revokesRank r = false) :
    C.left (s.put j e) = C.left s := by
  funext r
  rw [left_put hseen, h r, if_neg fun hc => Bool.false_ne_true hc.2, Nat.add_zero]

theorem view_put (s : Net) (j : ℕ) (e : Engine) : (s.put j e).view = Function.update s.view j (e.work.vis j) := by
  funext k
  by_cases hk : k = j
  · subst hk
    rw [Function.update_self, Net.view, Net.put_sp_self]
  · rw [Function.update_of_ne hk, Net.view, Net.put_sp_of_ne hk]
    rfl

theorem revKept_view {d : ℕ} {s : RevState} {notes : List Effect} (h : RevKept (C.site j v hv) d s notes) {v' : View}
    (hv' : C.Tells v') : RevKept (C.site j v' hv') d s notes := by
  have hl : (C.site j v' hv').locals = (C.site j v hv).locals := site_locals.trans site_locals.symm
  exact { h with count := by rw [hl]; exact h.count }

/-- A completed send of the final revoke is about a version whose final revoke was posted. -/
theorem closing_of_revokeSent (hok : e.work.face.Ok (Finset.range (C.site j v hv).size) (C.site j v hv).locals)
    (hk : RevKept (C.site j v hv) e.revokeDone e.work.rev e.work.notes)
    (hen : e.revokeDone < e.log.countP Effect.isRevokeToRanks) :
    0 < e.work.rev.numLocalEntries ∧ e.work.rev.posted = e.work.rev.num := by
  have hcount : e.work.notes.countP Effect.isRevokeToRanks = e.log.countP Effect.isRevokeToRanks :=
    countP_notes (fun x hx => by cases x <;> first | rfl | cases hx) e.work
  rw [← hcount, hk.posts] at hen
  have hle : e.work.rev.posted ≤ e.work.rev.num := hok.posted_le
  have hend : e.work.rev.ended = e.revokeDone := hk.ended
  rw [RevState.ended] at hend
  by_cases h0 : e.work.rev.numLocalEntries = 0
  · rw [if_pos h0] at hend
    omega
  · rw [if_neg h0] at hend
    exact ⟨Nat.pos_of_ne_zero h0, by omega⟩

/-- What a callback starts with. -/
theorem enter_revs {d : ℕ} {ctx : GpCtx} (hd : ctx.onDpu = true) {S : Site}
    (hk : RevKept S e.revokeDone e.work.rev e.work.notes)
    (hev : ev ≠ .revokeSent → d = e.revokeDone)
    (hev' : ev = .revokeSent → d = e.revokeDone + 1 ∧ 0 < e.work.rev.numLocalEntries ∧ e.work.rev.posted = e.work.rev.num) :
    RevKept S d (ev.enter ctx ⟨e.gp, e.log⟩).rev (ev.enter ctx ⟨e.gp, e.log⟩).notes := by
  cases ev with
  | revokeSent =>
    obtain ⟨rfl, hpos, hp⟩ := hev' rfl
    exact { hk with
      final := fun _ => ⟨hpos, hp⟩
      ended := by
        have hend : e.work.rev.ended = e.revokeDone := hk.ended
        rw [← hend]
        rfl }
  | revokeFromRank x =>
    rw [hev (fun h => by cases h)]
    exact { hk with one := le_rfl }
  | revokeFromSp m =>
    rw [hev (fun h => by cases h), Event.enter, if_pos hd]
    exact { hk with }
  | addGroupRank _ _ | peerCacheEntries _ _ | cacheSent | requestAdd _ | requestRevoke _ =>
    rw [hev (fun h => by cases h)]
    exact { hk with }

theorem enter_calm {ctx : GpCtx} (hd : ctx.onDpu = true)
    (hw : e.gp.persistent.pendingGroupAddMsgs = [] ∨ 0 < e.gp.revokesGlobal) (hev : ev ≠ .revokeSent) :
    Calm (ev.enter ctx ⟨e.gp, e.log⟩) := by
  cases ev with
  | revokeSent => exact absurd rfl hev
  | revokeFromRank x => exact ⟨rfl, hw, fun _ => ⟨rfl, .inl rfl⟩⟩
  | revokeFromSp m =>
    rw [Event.enter, if_pos hd]
    exact ⟨rfl, hw, fun hr => absurd rfl hr⟩
  | addGroupRank _ _ | peerCacheEntries _ _ | cacheSent | requestAdd _ | requestRevoke _ =>
    exact ⟨rfl, hw, fun hr => absurd rfl hr⟩

theorem enter_rankRevs {ctx : GpCtx} (hd : ctx.onDpu = true) (s : GpState) {x : RankInfo}
    (hx : x ∈ (ev.enter ctx s).rankRevs) : ev = .revokeFromRank x := by
  cases ev with
  | revokeFromRank y => rw [List.mem_singleton.1 hx]
  | revokeFromSp m =>
    rw [Event.enter, if_pos hd] at hx
    cases hx
  | addGroupRank _ _ | peerCacheEntries _ _ | cacheSent | revokeSent | requestAdd _ | requestRevoke _ => cases hx

theorem enter_gp (ctx : GpCtx) (s : GpState) : (ev.enter ctx s).gp = s.gp := by
  cases ev with
  | revokeFromSp m =>
    rw [Event.enter]
    split <;> rfl
  | addGroupRank _ _ | peerCacheEntries _ _ | revokeFromRank _ | cacheSent | revokeSent | requestAdd _ | requestRevoke _ =>
    rfl

theorem enter_out (ctx : GpCtx) (s : GpState) : (ev.enter ctx s).out = s.out := by
  cases ev with
  | revokeFromSp m =>
    rw [Event.enter]
    split <;> rfl
  | addGroupRank _ _ | peerCacheEntries _ _ | revokeFromRank _ | cacheSent | revokeSent | requestAdd _ | requestRevoke _ =>
    rfl

theorem enter_spMsgs {ctx : GpCtx} (hd : ctx.onDpu = true) (s : GpState) {m : GroupRevokeMsgFromSp}
    (h : m ∈ (Work.start s).spMsgs ∨ ev = .revokeFromSp m) : m ∈ (ev.enter ctx s).spMsgs := by
  have hvis := congrArg Vis.msgs (enter_vis hd ev s 0)
  have hmem : m ∈ ((ev.enter ctx s).vis 0).msgs := by
    rw [hvis]
    apply Multiset.mem_add.2
    rcases h with h | rfl
    · exact .inr h
    · exact .inl (Multiset.mem_singleton_self m)
  exact hmem

/-- The callback of an event, and how often the ranks have joined and left. -/
def scene (C : Crew) (s : Net) (j : ℕ) (e : Engine) : Scene where
  others := s.view
  got := s.got
  joined := C.joined (s.put j e)
  before := C.left s
  left := C.left (s.put j e)
  heard m := .revokeFromSp m ∈ e.seen
  ended := e.revokeDone

theorem leaving_enter (hseen : e.seen = (s.sp j).seen ++ [ev]) (ctx : GpCtx) (t : GpState) :
    (C.scene s j e).leaving (ev.enter ctx t) = C.left s := by
  unfold Scene.leaving
  split
  · rename_i h0
    refine left_put_of_false hseen fun r => ?_
    cases ev with
    | revokeFromRank x => cases h0
    | addGroupRank _ _ | peerCacheEntries _ _ | revokeFromSp _ | cacheSent | revokeSent | requestAdd _ | requestRevoke _ =>
      rfl
  · rfl

/-- **A callback starts in order.** -/
theorem mid_enter (hj : j < C.num) (hk : C.SpKept j (s.sp j)) (hgot : ∀ k, s.got j k ≤ ((s.view j).sent k).length)
    (hs : (s.sp j).step (C.ctx j v) ev = some e) (hok : (C.msgs j).Ok ev)
    (hleave : ∀ x, ev = .revokeFromRank x → C.left s x.rank + 1 ≤ C.joined s x.rank)
    (hinv : Inv (C.group hin)
      (C.snap (Function.update s.view j ((s.view j).take ev)) s.got (C.joined (s.put j e)) (C.left s))) :
    Mid C hin j (C.site j v hv) (C.scene s j e) (ev.enter (C.ctx j v) ⟨(s.sp j).gp, (s.sp j).log⟩) := by
  have hd : (C.ctx j v).onDpu = true := C.onDpu j
  obtain ⟨hen, -, -, hseen⟩ := Engine.step_eq_some hs
  have hvis : (ev.enter (C.ctx j v) ⟨(s.sp j).gp, (s.sp j).log⟩).vis j = (s.view j).take ev := enter_vis hd ev _ j
  have hgp : (ev.enter (C.ctx j v) ⟨(s.sp j).gp, (s.sp j).log⟩).gp = (s.sp j).gp := enter_gp _ _
  have hnotes : (ev.enter (C.ctx j v) ⟨(s.sp j).gp, (s.sp j).log⟩).notes = (s.sp j).work.notes := by
    rw [Work.notes, enter_out]
    rfl
  have hface : (s.sp j).work.face.Ok (Finset.range (C.site j v hv).size) (C.site j v hv).locals := by
    have hok := hinv.ok j hj
    rw [group_locals, ← @site_locals C j v hv] at hok
    have hsp : (C.snap (Function.update s.view j ((s.view j).take ev)) s.got (C.joined (s.put j e)) (C.left s)).sp j =
        (s.sp j).work.face := by
      change (Function.update s.view j ((s.view j).take ev) j).face = _
      rw [Function.update_self]
      rfl
    rw [hsp] at hok
    exact hok
  refine ⟨?_, ?_, ?_, ?_, fun x hx => ?_, fun k => ?_, fun k x hx => ?_, fun m hm r hr => ?_⟩
  · rw [hgp]
    exact hk.named v hv
  · rw [during, leaving_enter hseen, hvis]
    exact hinv
  · have hdone : e.revokeDone = if ev = .revokeSent then (s.sp j).revokeDone + 1 else (s.sp j).revokeDone := by
      unfold Engine.step at hs
      rw [if_pos hen] at hs
      cases hs
      rfl
    refine enter_revs hd (hk.revs v hv) (fun hne => ?_) fun heq => ?_
    · exact hdone.trans (if_neg hne)
    · refine ⟨hdone.trans (if_pos heq), closing_of_revokeSent hface (hk.revs v hv) ?_⟩
      subst heq
      simp only [Engine.enabled, hd, Bool.true_and, decide_eq_true_eq] at hen
      exact hen
  · by_cases heq : ev = .revokeSent
    · subst heq
      exact .inl rfl
    · exact .inr (enter_calm hd hk.waits heq)
  · obtain rfl := enter_rankRevs hd _ hx
    have hloc := (mem_locals.1 hok.2).2
    refine ⟨?_, ?_⟩
    · have hjn : C.joined (s.put j e) = C.joined s := joined_put_of_false hseen fun _ => rfl
      change C.left s x.rank + 1 ≤ C.joined (s.put j e) x.rank
      rw [hjn]
      exact hleave x rfl
    · exact (left_put hseen x.rank).trans (congrArg (C.left s x.rank + ·) (if_pos ⟨hloc, beq_self_eq_true _⟩))
  · rw [hvis]
    exact hgot k
  · rw [hvis] at hx
    exact hk.sends k x hx
  · have hm : Event.revokeFromSp m ∈ e.seen := hm
    rw [hseen] at hm
    rcases List.mem_append.1 hm with hm | hm
    · rcases hk.heard m hm r hr with hmk | hmem
      · exact .inl (by rw [hnotes]; exact hmk)
      · exact .inr (enter_spMsgs hd _ (.inl hmem))
    · exact .inr (enter_spMsgs hd _ (.inr (List.mem_singleton.1 hm).symm))

/-- When the final revoke has been sent no addition waits, unless the next version is being revoked. -/
theorem waits_revokeSent (hs : (s.sp j).step (C.ctx j v) .revokeSent = some e) (hslot : (s.sp j).slot ≠ none) :
    e.gp.persistent.pendingGroupAddMsgs = [] ∨ 0 < e.gp.revokesGlobal := by
  obtain ⟨-, hnew, -, -⟩ := Engine.step_eq_some hs
  obtain ⟨g, hg⟩ := Option.ne_none_iff_exists'.1 hslot
  have hgp : e.gp = (revokeSendToHostCb (C.ctx j v) g).gp := by
    rw [Engine.gp, hnew, hg]
    rfl
  have hu : (C.ctx j v).gpUid ≠ INT_MAX := by
    rw [show (C.ctx j v).gpUid = C.uid from C.gpUid j]
    exact C.uid_ne
  rw [hgp]
  exact waits_handlePendingGroupCacheAddMsgs hu _

/-- **A callback keeps what the SPs keep.** -/
theorem Kept.put (hsp : ∀ i < C.num, C.SpKept i (s.sp i)) (hgot : ∀ i k, s.got i k ≤ ((s.view i).sent k).length)
    (hj : j < C.num) (hv : C.Tells v) (hs : (s.sp j).step (C.ctx j v) ev = some e) (hok : (C.msgs j).Ok ev)
    (hsize : ∀ x, ev = .revokeFromRank x → (s.sp j).gp.groupSize = C.size)
    (hleave : ∀ x, ev = .revokeFromRank x → C.left s x.rank + 1 ≤ C.joined s x.rank)
    (happ : ev.Applies (C.ctx j v) (C.site j v hv).TurnTally (s.sp j).gp)
    (hinv : Inv (C.group hin)
      (C.snap (Function.update s.view j ((s.view j).take ev)) s.got (C.joined (s.put j e)) (C.left s))) :
    C.Kept hin (s.put j e) := by
  have hd : (C.ctx j v).onDpu = true := C.onDpu j
  have hk := hsp j hj
  obtain ⟨hen, -, -, hseen⟩ := Engine.step_eq_some hs
  have hX : ∀ r, (C.scene s j e).before r ≤ (C.scene s j e).left r := fun r =>
    (Nat.le_add_right _ _).trans_eq (left_put hseen r).symm
  have hmid : Mid C hin j (C.site j v hv) (C.scene s j e) _ := mid_enter hj hk (hgot j) hs hok hleave hinv
  have hslot : ev = .revokeSent → (s.sp j).slot ≠ none := by
    rintro rfl h0
    have hpos := hmid.revs.final rfl
    have hn : (s.sp j).gp.numLocalEntries = 0 := by rw [Engine.gp, h0]; rfl
    exact absurd hn hpos.1.ne'
  obtain ⟨hb, hend, hcalm⟩ := Site.step_keeps (S := C.site j v hv)
    (J := fun w => Mid C hin j (C.site j v hv) (C.scene s j e) w ∧ (ev ≠ .revokeSent → Calm w)) msgs_le_site
    (fun t ht => ht.1) (fun w w' hb hJ ha => ⟨hJ.1.act hj hX hb ha, fun hne => (hJ.2 hne).act hb.counts ha⟩) hs
    (hk.base v hv) hok hsize happ
    (by
      rintro (rfl | rfl) h0
      · exact ⟨hmid, enter_calm hd hk.waits⟩
      · exact absurd h0 (hslot rfl))
    ⟨hmid, enter_calm hd hk.waits⟩
  have hwaits : e.gp.persistent.pendingGroupAddMsgs = [] ∨ 0 < e.gp.revokesGlobal := by
    by_cases heq : ev = .revokeSent
    · subst heq
      exact waits_revokeSent hs (hslot rfl)
    · exact (hcalm heq).waits
  refine ⟨fun i hi => ?_, ?_, fun i k => ?_⟩
  · by_cases hij : i = j
    · subst hij
      rw [Net.put_sp_self]
      exact ⟨fun v' hv' => base_view hb hv', fun v' hv' => named_view hend.named hv',
        fun v' hv' => revKept_view hend.revs hv', fun r k n hmem => hend.revs.fits _ hmem, hwaits, hend.sends,
        hend.heard⟩
    · rw [Net.put_sp_of_ne hij]
      exact hsp i hi
  · rw [view_put]
    exact hend.inv
  · rw [view_put]
    by_cases hij : i = j
    · subst hij
      rw [Function.update_self]
      exact hend.got k
    · rw [Function.update_of_ne hij]
      exact hgot i k

/-! ### The steps of a run -/

theorem take_of_zero (x : Vis) (he : ev.ents = 0) (ha : ev.adds = 0) (hm : ev.msgs = 0) : x.take ev = x := by
  rw [Vis.take, he, ha, hm]
  exact Vis.ext rfl (zero_add _) (zero_add _) (zero_add _) rfl

/-- An event that brings no message about the other SPs. -/
theorem Kept.inv_own (h : C.Kept hin s) (he : ev.ents = 0) (ha : ev.adds = 0) (hm : ev.msgs = 0)
    (hadd : ∀ r, ev.addsRank r = false) (hseen : e.seen = (s.sp j).seen ++ [ev]) :
    Inv (C.group hin)
      (C.snap (Function.update s.view j ((s.view j).take ev)) s.got (C.joined (s.put j e)) (C.left s)) := by
  rw [take_of_zero _ he ha hm, Function.update_eq_self, joined_put_of_false hseen hadd]
  exact h.inv

/-- A rank that leaves makes the size of the group known. -/
theorem Kept.size_of_leave (h : C.Kept hin s) (hv : C.Tells v) {r : ℕ} (hr : r < C.size)
    (hl : C.left s r + 1 ≤ C.joined s r) : (s.sp (C.spOf r)).gp.groupSize = C.size := by
  have hra : r ∈ (C.group hin).all := Finset.mem_range.2 hr
  have hk := h.sp _ (C.spOf_lt r hr)
  have hc := (hk.base v hv).counts
  have hended : (s.sp (C.spOf r)).work.face.done ≤ C.left s r := h.inv.ended r hra
  by_cases hw : (s.sp (C.spOf r)).work.face.Wants r (C.joined s r)
  · -- its addition waits, while the version before is being revoked
    have hm : (r, C.joined s r) ∈ (s.view (C.spOf r)).adds := h.inv.there r hra hw
    have hne : (s.sp (C.spOf r)).gp.persistent.pendingGroupAddMsgs ≠ [] := by
      intro h0
      have hall : (s.sp (C.spOf r)).work.allAdds = [] := h0
      rw [Net.view, Work.vis, hall] at hm
      exact Multiset.notMem_zero _ hm
    have hpos := hk.waits.resolve_left hne
    exact hc.size.resolve_left fun h0 => hpos.ne' (hc.unknown h0).2.2.1
  · have hset : (s.sp (C.spOf r)).work.face.ent r ≠ none := by
      intro hn
      exact hw ⟨by omega, fun hc => hc.2 hn⟩
    exact (hc.groupSize_of_isSet hr (Work.ent_ne_none.1 hset)).1

/-- When messages of SPs are applied all local ranks are marked, or there is nothing. -/
theorem turnTally_of_revoke (hk : C.SpKept j (s.sp j)) (hv : C.Tells v) {m : GroupRevokeMsgFromSp}
    (hm : m.groupSize = C.size) :
    (Event.revokeFromSp m).Applies (C.ctx j v) (C.site j v hv).TurnTally (s.sp j).gp := by
  intro _ g' hg' hdel
  have hsize : (g'.learnFromRevoke m).groupSize = C.size := (hk.base v hv).counts.size_of_learnFromRevoke hm hg'
  simp only [GroupCache.delaysSpRevoke, Bool.or_eq_false_iff, bne_eq_false_iff_eq] at hdel
  refine ⟨hsize, ?_⟩
  by_cases h0 : g'.groupSize = 0
  · refine .inr ?_
    rw [GroupCache.tally, learnFromRevoke_numLocalEntries]
    exact hdel.1.2.symm.trans h0
  · rw [GroupCache.learnFromRevoke, if_neg h0] at hsize ⊢
    exact .inl ⟨hdel.1.2.symm.trans hsize, hdel.2⟩

/-- A rank that joins is on its way. -/
theorem Kept.inv_add (h : C.Kept hin s) (hv : C.Tells v) {c : ℕ} {m : GroupAddMsg} (hr : m.rankInfo.rank < C.size)
    (hm : m = C.msg m.rankInfo.rank (C.joined s m.rankInfo.rank + 1))
    (htold : C.joined s m.rankInfo.rank = 0 ∨
      ∃ x ∈ (s.sp (C.spOf m.rankInfo.rank)).log, x.ends (C.joined s m.rankInfo.rank) = true)
    (hseen : e.seen = (s.sp (C.spOf m.rankInfo.rank)).seen ++ [.addGroupRank c m]) :
    Inv (C.group hin)
      (C.snap (Function.update s.view (C.spOf m.rankInfo.rank)
        ((s.view (C.spOf m.rankInfo.rank)).take (.addGroupRank c m))) s.got
        (C.joined (s.put (C.spOf m.rankInfo.rank) e)) (C.left s)) := by
  set r := m.rankInfo.rank with hrdef
  have hra : r ∈ (C.group hin).all := Finset.mem_range.2 hr
  have hk := h.sp _ (C.spOf_lt r hr)
  have hposted : C.joined s r ≤ (s.sp (C.spOf r)).work.face.posted := by
    rcases htold with h0 | ⟨x, hx, hends⟩
    · rw [h0]
      exact Nat.zero_le _
    · cases x with
      | revokeToRanks n k =>
        have hfit := (hk.revs v hv).fits _ (List.mem_filter.2 ⟨hx, rfl⟩)
        rw [← beq_iff_eq.1 hends]
        exact hfit
      | entriesToSp _ _ | revokeToSp _ _ | cacheToRanks _ | addToSp _ | revokeRankToSp _ | broadcast | markedFromSp _ _ _
      | markedFromRank _ _ _ | revoked _ => cases hends
  have hjoin := h.inv.join hra hposted
  have hseq : m.rankInfo.groupSeqNum = C.joined s r + 1 := by
    rw [hm]
    exact C.msg_groupSeqNum _ _
  have hjoined : C.joined (s.put (C.spOf r) e) = Function.update (C.joined s) r (C.joined s r + 1) := by
    funext q
    rw [joined_put hseen]
    by_cases hq : q = r
    · subst hq
      rw [Function.update_self, if_pos ⟨rfl, beq_self_eq_true _⟩]
    · rw [Function.update_of_ne hq, if_neg fun hc => hq (beq_iff_eq.1 hc.2).symm, Nat.add_zero]
  have htok : PendingGroupAdd.tok ⟨c, m⟩ = (r, C.joined s r + 1) := Prod.ext rfl hseq
  rw [snap_join c m (C.joined s), hjoined, htok]
  exact hjoin

/-- The message with which a rank joins is as it should be. -/
theorem msgs_ok_msg {c : ℕ} {m : GroupAddMsg} {k : ℕ} (hr : m.rankInfo.rank < C.size) (hm : m = C.msg m.rankInfo.rank k) :
    (C.msgs (C.spOf m.rankInfo.rank)).Ok (.addGroupRank c m) := by
  refine ⟨?_, mem_locals.2 ⟨hr, rfl⟩, ?_⟩
  · rw [hm]
    exact ⟨C.msg_groupUid _ _, C.msg_groupSize _ _, by rw [C.msg_groupRank]; exact Int.natCast_nonneg _,
      by rw [C.msg_groupRank]; exact Int.ofNat_lt.2 hr⟩
  · rw [hm]
    exact C.msg_worldRanks _ _

/-- **A rank joins.** -/
theorem Kept.add (h : C.Kept hin s) (hv : C.Tells v) {c : ℕ} {m : GroupAddMsg} (hr : m.rankInfo.rank < C.size)
    (hm : m = C.msg m.rankInfo.rank (C.joined s m.rankInfo.rank + 1))
    (htold : C.joined s m.rankInfo.rank = 0 ∨
      ∃ x ∈ (s.sp (C.spOf m.rankInfo.rank)).log, x.ends (C.joined s m.rankInfo.rank) = true)
    (hs : (s.sp (C.spOf m.rankInfo.rank)).step (C.ctx (C.spOf m.rankInfo.rank) v) (.addGroupRank c m) = some e) :
    C.Kept hin (s.put (C.spOf m.rankInfo.rank) e) := by
  obtain ⟨-, -, -, hseen⟩ := Engine.step_eq_some hs
  exact Kept.put h.sp h.got (C.spOf_lt _ hr) hv hs (msgs_ok_msg hr hm) (fun x hx => by cases hx) (fun x hx => by cases hx)
    trivial (h.inv_add hv hr hm htold hseen)

theorem snap_init (C : Crew) :
    C.snap Net.init.view Net.init.got (C.joined Net.init) (C.left Net.init) = Snap.init := by
  have hway : ∀ f k, C.onWay f Net.init.view Net.init.got k = 0 := fun f k => Finset.sum_eq_zero fun i _ => rfl
  refine Snap.ext rfl rfl rfl ?_ ?_ rfl
  · exact funext fun k => (congrArg (_ + ·) (hway _ k)).trans (add_zero _)
  · exact funext fun k => (congrArg (_ + ·) (hway _ k)).trans (add_zero _)

theorem kept_init (C : Crew) (hin : C.Manned) : C.Kept hin Net.init where
  sp i _ :=
    { base := fun v hv => base_new _ _ _
      named := fun v hv => Named.of_blank fun _ => rfl
      revs := fun v hv =>
        { count := .inl ⟨rfl, (congrArg Finset.card (Finset.empty_inter (C.site i v hv).locals)).symm⟩
          final := fun h => by cases h
          ended := rfl
          one := Nat.zero_le _
          posts := rfl
          fits := fun x hx => absurd hx List.not_mem_nil }
      marks := fun r k n hmem => absurd hmem List.not_mem_nil
      waits := .inl rfl
      sends := fun k ev hev => absurd hev List.not_mem_nil
      heard := fun m hm => absurd hm List.not_mem_nil }
  inv := by
    rw [snap_init]
    exact inv_init
  got i k := Nat.zero_le _

/-- A message on a link. -/
theorem link_event {i j : ℕ} {es : List Event} (hl : s.link i j = ev :: es) :
    (∃ batch, ev = .peerCacheEntries i batch) ∨ ∃ m, ev = .revokeFromSp m := by
  obtain ⟨x, -, hx⟩ := Net.mem_link (s := s) (i := i) (j := j) (by rw [hl]; exact List.mem_cons_self)
  cases x with
  | entriesToSp d batch =>
    simp only [Effect.toSp] at hx
    split at hx <;> cases hx
    exact .inl ⟨batch, rfl⟩
  | revokeToSp d m =>
    simp only [Effect.toSp] at hx
    split at hx <;> cases hx
    exact .inr ⟨m, rfl⟩
  | cacheToRanks _ | revokeToRanks _ _ | addToSp _ | revokeRankToSp _ | broadcast | markedFromSp _ _ _
  | markedFromRank _ _ _ | revoked _ => cases hx

/-- A message on a link is as it should be, -/
theorem Kept.ok_link (h : C.Kept hin s) {i : ℕ} {es : List Event} (hi : i < C.num) (hl : s.link i j = ev :: es) :
    (C.msgs j).Ok ev := by
  refine (h.sp i hi).sends j ev (List.mem_of_mem_drop (i := s.got i j) ?_)
  rw [show (((s.sp i).work.vis i).sent j).drop (s.got i j) = ev :: es from hl]
  exact List.mem_cons_self

/-- and was sent. -/
theorem Kept.got_receive (h : C.Kept hin s) {i : ℕ} {es : List Event} (hl : s.link i j = ev :: es) (a k : ℕ) :
    (s.receive i j).got a k ≤ ((s.view a).sent k).length := by
  change Function.update s.got i (Function.update (s.got i) j (s.got i j + 1)) a k ≤ _
  by_cases ha : a = i
  · subst ha
    rw [Function.update_self]
    by_cases hk : k = j
    · subst hk
      rw [Function.update_self]
      have hsent : ((s.view a).sent k).drop (s.got a k) = ev :: es := hl
      have hlen := congrArg List.length hsent
      rw [List.length_drop, List.length_cons] at hlen
      omega
    · rw [Function.update_of_ne hk]
      exact h.got a k
  · rw [Function.update_of_ne ha]
    exact h.got a k

/-- **A message is delivered.** -/
theorem Kept.deliver (h : C.Kept hin s) {i : ℕ} {es : List Event} (hi : i < C.num) (hj : j < C.num) (hv : C.Tells v)
    (hl : s.link i j = ev :: es) (hs : (s.sp j).step (C.ctx j v) ev = some e) :
    C.Kept hin ((s.receive i j).put j e) := by
  obtain ⟨-, -, -, hseen⟩ := Engine.step_eq_some hs
  have hev := link_event hl
  have hok := h.ok_link hi hl
  have hrank : ∀ x, ev ≠ .revokeFromRank x := by
    rintro x rfl
    rcases hev with ⟨_, h0⟩ | ⟨_, h0⟩ <;> cases h0
  have hadd : ∀ r, ev.addsRank r = false := by
    intro r
    rcases hev with ⟨_, rfl⟩ | ⟨_, rfl⟩ <;> rfl
  have hadds : ev.adds = 0 := by
    rcases hev with ⟨_, rfl⟩ | ⟨_, rfl⟩ <;> rfl
  refine Kept.put (s := s.receive i j) h.sp (h.got_receive hl) hj hv hs hok (fun x hx => absurd hx (hrank x))
    (fun x hx => absurd hx (hrank x)) ?_ ?_
  · rcases hev with ⟨batch, rfl⟩ | ⟨m, rfl⟩
    · trivial
    · exact turnTally_of_revoke (h.sp j hj) hv hok.1
  · rw [joined_put_of_false (s := s.receive i j) hseen hadd]
    have hsent : ((s.view i).sent j).drop (s.got i j) = ev :: es := hl
    have hinv := h.inv
    rw [← snap_receive hi hsent hadds] at hinv
    exact hinv

/-- **Every step keeps the versions in order.** -/
theorem Kept.step (h : C.Kept hin s) {l : NetLabel} (henv : C.Env s l) (hord : s.Orderly l) {s' : Net}
    (hs : s.step C.toCluster l = some s') : C.Kept hin s' := by
  rcases Net.step_cases hs with ⟨i, v, ev, e, rfl, he, rfl⟩ | ⟨i, j, v, ev, es, e, rfl, hlink, he, rfl⟩
  · obtain ⟨-, -, -, hseen⟩ := Engine.step_eq_some he
    cases ev with
    | addGroupRank c m =>
      obtain ⟨hv, hr, rfl, -, hm, htold⟩ := henv
      exact h.add hv hr hm htold he
    | revokeFromRank x =>
      obtain ⟨hv, hinfo, rfl, -, hle⟩ := henv
      have hr : x.rank < C.size := ((@site_info C 0 v hv x).2 hinfo).rank_lt
      have hsize := h.size_of_leave hv hr hle
      have hk := h.sp _ (C.spOf_lt _ hr)
      refine Kept.put h.sp h.got (C.spOf_lt _ hr) hv he ⟨hinfo, mem_locals.2 ⟨hr, rfl⟩⟩ (fun _ _ => hsize)
        (fun y hy => by cases hy; exact hle) ?_ (h.inv_own rfl rfl rfl (fun _ => rfl) hseen)
      rintro g' rfl hfull hlast
      have hl : (s.sp (C.spOf x.rank)).gp.Live := (hk.base v hv).counts.live_of_groupSize (hsize ▸ C.pos.ne')
      rw [getGroupCacheInternal_of_live hl] at hfull hlast ⊢
      exact ⟨hsize, .inl ⟨hfull.symm.trans hsize, hlast.symm⟩⟩
    | cacheSent =>
      obtain ⟨hv, hi⟩ := henv
      refine Kept.put h.sp h.got hi hv he trivial (fun x hx => by cases hx) (fun x hx => by cases hx) ?_
        (h.inv_own rfl rfl rfl (fun _ => rfl) hseen)
      refine hord.imp id fun hall => ?_
      have hsz := ((h.sp i hi).base v hv).counts.size.resolve_left hall.1.ne'
      exact ⟨hsz, .inl ⟨hall.2.1.symm.trans hsz, hall.2.2⟩⟩
    | revokeSent =>
      obtain ⟨hv, hi⟩ := henv
      exact Kept.put h.sp h.got hi hv he trivial (fun x hx => by cases hx) (fun x hx => by cases hx) trivial
        (h.inv_own rfl rfl rfl (fun _ => rfl) hseen)
    | peerCacheEntries _ _ | revokeFromSp _ | requestAdd _ | requestRevoke _ => exact henv.elim
  · obtain ⟨hv, hi, hj⟩ := henv
    exact h.deliver hi hj hv hlink he

/-- The environment, and what the code needs of it. -/
def Turns (C : Crew) (s : Net) (l : NetLabel) : Prop := C.Env s l ∧ s.Orderly l

theorem kept_of_reach (hin : C.Manned) (h : Reach (Net.step C.toCluster) C.Turns Net.init s) : C.Kept hin s :=
  h.invariant (kept_init C hin) fun _ _ _ hI hl hs => hI.step hl.1 hl.2 hs

end Crew

/-! ### Whether a step is allowed -/

instance Crew.Tells.decidable (C : Crew) (v : View) : Decidable (C.Tells v) := inferInstanceAs (Decidable (_ ∧ _ ∧ _))

instance Crew.Info.decidable (C : Crew) (x : RankInfo) : Decidable (C.Info x) :=
  inferInstanceAs (Decidable (_ ∧ _ ∧ _ ∧ _))

instance Crew.Env.decidable (C : Crew) (s : Net) : (l : NetLabel) → Decidable (C.Env s l)
  | .own _ _ (.addGroupRank _ _) => inferInstanceAs (Decidable (_ ∧ _ ∧ _ ∧ _ ∧ _ ∧ (_ ∨ _)))
  | .own _ _ (.revokeFromRank _) => inferInstanceAs (Decidable (_ ∧ _ ∧ _ ∧ _ ∧ _))
  | .own _ _ .cacheSent | .own _ _ .revokeSent => inferInstanceAs (Decidable (_ ∧ _))
  | .own _ _ (.peerCacheEntries _ _) | .own _ _ (.revokeFromSp _) | .own _ _ (.requestAdd _)
  | .own _ _ (.requestRevoke _) => inferInstanceAs (Decidable False)
  | .deliver _ _ _ => inferInstanceAs (Decidable (_ ∧ _ ∧ _))

instance Net.Orderly.decidable (s : Net) : (l : NetLabel) → Decidable (s.Orderly l)
  | .own _ _ .cacheSent => inferInstanceAs (Decidable (_ ∨ _))
  | .own _ _ (.addGroupRank _ _) | .own _ _ (.revokeFromRank _) | .own _ _ .revokeSent
  | .own _ _ (.peerCacheEntries _ _) | .own _ _ (.revokeFromSp _) | .own _ _ (.requestAdd _)
  | .own _ _ (.requestRevoke _) | .deliver _ _ _ => inferInstanceAs (Decidable True)

instance Crew.Turns.decidable (C : Crew) (s : Net) (l : NetLabel) : Decidable (C.Turns s l) :=
  inferInstanceAs (Decidable (_ ∧ _))

/-- The two SPs of `pairCluster`. -/
def pairCrew : Crew where
  toCluster := pairCluster
  worldRanks := [0, 1]
  length_worldRanks := pairSite.length_worldRanks
  msg_worldRanks _ _ := rfl

theorem pairCrew_manned : pairCrew.Manned := fun i hi => ⟨i, hi, rfl⟩

/-- Rank `r` joins version `k`. -/
def pairJoin (r k : ℕ) : NetLabel := .own r pairView (.addGroupRank 0 (pairAdd r k))

/-- Rank `r` leaves it. -/
def pairLeave (r k : ℕ) : NetLabel := .own r pairView (.revokeFromRank (pairInfo r k))

/-- A version from its start to its end on SP 0, after which rank 0 joins the next one. -/
def pairTurn : List NetLabel :=
  [pairJoin 0 1, pairJoin 1 1, .deliver 0 1 pairView, .deliver 1 0 pairView, pairLeave 0 1, .deliver 0 1 pairView,
    pairLeave 1 1, .deliver 1 0 pairView, .own 0 pairView .revokeSent, pairJoin 0 2]

/-- What rank `r` of a group of one says. -/
def loneInfo (r k : ℕ) : RankInfo := { pairInfo r k with groupSize := 1 }

/-- The message with which it joins. -/
def loneAdd (r k : ℕ) : GroupAddMsg := ⟨loneInfo r k, [0]⟩

/-- A group of one rank on SP 0, with SP 1 without a rank. -/
def loneCrew : Crew where
  num := 2
  sys i := { pairCtx with globalId := i, hostUid := 70 + i }
  uid := 5
  size := 1
  spOf _ := 0
  client _ := 0
  msg := loneAdd
  onDpu := pairCluster.onDpu
  gpUid := pairCluster.gpUid
  globalId := pairCluster.globalId
  numServiceProcs := pairCluster.numServiceProcs
  uid_ne := pairCluster.uid_ne
  pos := Nat.one_pos
  alloc := allocatable_one
  spOf_lt _ _ := by decide
  msg_groupUid _ _ := rfl
  msg_groupSize _ _ := rfl
  msg_groupRank _ _ := rfl
  msg_groupSeqNum _ _ := rfl
  worldRanks := [0]
  length_worldRanks := rfl
  msg_worldRanks _ _ := rfl

/-- On SP 0 the rank joins version `k`, leaves it, and the version ends. -/
def loneTurn (k : ℕ) : List NetLabel :=
  [.own 0 pairView (.addGroupRank 0 (loneAdd 0 k)), .own 0 pairView (.revokeFromRank (loneInfo 0 k)),
    .own 0 pairView .revokeSent]

/-- The entry and the revoke of a version arrive on SP 1. -/
def loneDeliver : List NetLabel := [.deliver 0 1 pairView, .deliver 0 1 pairView]

/-- The revoke SP 0 sends for version `k`. -/
def loneRevoke (k : ℕ) : GroupRevokeMsgFromSp where
  rankStart := 0
  ranks := [1]
  gpUid := 5
  groupSize := 1
  gpSeqNum := k

/-- **All entries are of the version of the group**, on every SP and in every run, when every SP has a rank of it and
the messages of SPs wait for the local ranks. -/
theorem entries_of_version (C : Crew) (hin : C.Manned) {s : Net} (h : Reach (Net.step C.toCluster) C.Turns Net.init s) :
    ∀ i < C.num, ∀ r, (s.sp i).gp.isSet r = true →
      ((s.sp i).gp.entryAt r).peer.procInfo.groupSeqNum = (s.sp i).gp.persistent.num := by
  intro i hi r hr
  have hok := (Crew.kept_of_reach hin h).inv.ok i hi
  exact hok.ver r _ (Work.ent_eq_some.2 ⟨hr, rfl⟩)

/-- On the pair, version 2 has started on SP 0 while SP 1 is still at version 1. -/
theorem entries_of_version_pair :
    ∃ s, Reach (Net.step pairCrew.toCluster) pairCrew.Turns Net.init s ∧ (s.sp 0).gp.persistent.num = 2 ∧
      (s.sp 1).gp.persistent.num = 1 ∧ (s.sp 0).gp.isSet 0 = true ∧ (s.sp 1).gp.isSet 0 = true ∧
      ((s.sp 1).gp.entryAt 0).peer.procInfo.groupSeqNum = (s.sp 1).gp.persistent.num := by
  have h : ∃ s, Reach (Net.step pairCrew.toCluster) pairCrew.Turns Net.init s ∧ (s.sp 0).gp.persistent.num = 2 ∧
      (s.sp 1).gp.persistent.num = 1 ∧ (s.sp 0).gp.isSet 0 = true ∧ (s.sp 1).gp.isSet 0 = true :=
    exists_reach_of_exec pairTurn (by decide +kernel)
  obtain ⟨s, hs, h₀, h₁, hset₀, hset₁⟩ := h
  exact ⟨s, hs, h₀, h₁, hset₀, hset₁, entries_of_version pairCrew pairCrew_manned hs 1 (by decide) 0 hset₁⟩

/-- **Without a rank on SP 1** the revoke of version 2 is used up at version 1, and SP 1 falls behind: it then takes an
entry of version 4 for one of version 3. -/
theorem entry_of_other_version :
    ∃ s, Reach (Net.step loneCrew.toCluster) loneCrew.Env Net.init s ∧ (s.sp 1).gp.isSet 0 = true ∧
      ((s.sp 1).gp.entryAt 0).peer.procInfo.groupSeqNum = 4 ∧ (s.sp 1).gp.persistent.num = 3 :=
  exists_reach_of_exec
    (loneTurn 1 ++ loneTurn 2 ++ loneTurn 3 ++ [.own 0 pairView (.addGroupRank 0 (loneAdd 0 4))] ++
      loneDeliver ++ loneDeliver ++ [.deliver 0 1 pairView, .own 1 pairView .revokeSent] ++ loneDeliver ++
      [.own 1 pairView .revokeSent]) (by decide +kernel)

/-- **The message of an SP marks ranks at its version**, in every run, and until then it is held. -/
theorem revokes_of_version (C : Crew) (hin : C.Manned) {s : Net} (h : Reach (Net.step C.toCluster) C.Turns Net.init s) :
    ∀ i < C.num, (∀ r v n, .markedFromSp r v n ∈ (s.sp i).log → v = n) ∧
      ∀ m, .revokeFromSp m ∈ (s.sp i).seen → ∀ r ∈ m.carried,
        .markedFromSp r m.gpSeqNum m.gpSeqNum ∈ (s.sp i).log ∨
          m ∈ (s.sp i).gp.persistent.pendingGroupRevokeMsgsFromSps := by
  intro i hi
  -- the record of an SP is its log
  have hmem : ∀ r v n, .markedFromSp r v n ∈ (s.sp i).log ↔ .markedFromSp r v n ∈ (s.sp i).work.notes := fun r v n =>
    (List.mem_filter.trans (and_iff_left rfl)).symm
  have hk := (Crew.kept_of_reach hin h).sp i hi
  refine ⟨fun r v n hv => hk.marks r v n ((hmem r v n).1 hv), fun m hm r hr => ?_⟩
  rcases hk.heard m hm r hr with hmk | hheld
  · exact .inl ((hmem _ _ _).2 hmk)
  · exact .inr hheld

/-- On the pair, SP 1 has marked the rank of SP 0. -/
theorem revokes_of_version_pair :
    ∃ s, Reach (Net.step pairCrew.toCluster) pairCrew.Turns Net.init s ∧ .markedFromSp 0 1 1 ∈ (s.sp 1).log ∧
      ∀ r v n, .markedFromSp r v n ∈ (s.sp 1).log → v = n := by
  have h : ∃ s, Reach (Net.step pairCrew.toCluster) pairCrew.Turns Net.init s ∧ .markedFromSp 0 1 1 ∈ (s.sp 1).log :=
    exists_reach_of_exec pairTurn (by decide +kernel)
  obtain ⟨s, hs, hm⟩ := h
  exact ⟨s, hs, hm, (revokes_of_version pairCrew pairCrew_manned hs 1 (by decide)).1⟩

/-- **Without a rank on SP 1** the revoke of version 2 is used up at version 1 and marks nothing, and the one of
version 3 marks the rank at version 2. -/
theorem revoke_of_other_version :
    ∃ s, Reach (Net.step loneCrew.toCluster) loneCrew.Env Net.init s ∧
      (.revokeFromSp (loneRevoke 2) ∈ (s.sp 1).seen ∧ 0 ∈ (loneRevoke 2).carried ∧
        .markedFromSp 0 2 2 ∉ (s.sp 1).log ∧ loneRevoke 2 ∉ (s.sp 1).gp.persistent.pendingGroupRevokeMsgsFromSps) ∧
      .markedFromSp 0 3 2 ∈ (s.sp 1).log :=
  exists_reach_of_exec
    (loneTurn 1 ++ loneTurn 2 ++ loneTurn 3 ++ loneDeliver ++ loneDeliver ++
      [.deliver 0 1 pairView, .own 1 pairView .revokeSent, .deliver 0 1 pairView]) (by decide +kernel)

end DpuOffload
