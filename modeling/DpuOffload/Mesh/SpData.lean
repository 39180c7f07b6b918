import DpuOffload.Lib.Bytes
import DpuOffload.Lib.DynArray
import Mathlib.Tactic.IntervalCases

/-!
# The data of the SPs, sent to the hosts

An SP packs what it knows of all SPs into one block: their number, the lengths of their
addresses, the addresses and their `service_proc_t`. A host unpacks it into its own array of SPs,
where an address stays in the block.

* `packDataSps_eq` — **what is packed** is the four parts, one after the other.
* `unpackDataSps_eq` — **what a host finds** in them.
* `sp_data_round_trip` — **a host unpacks what an SP has packed.**
-/

namespace DpuOffload

/-! ### The data model -/

/-- `service_proc_t`; a pointer is kept as its address. -/
structure ServiceProc where
  /-- The DPU, by its index in the configuration. -/
  dpu : UInt64
  /-- `local_id`. -/
  localId : UInt64
  /-- The pointer to the string of `local_id`. -/
  localIdStr : UInt64
  /-- `global_id`. -/
  globalId : UInt64
  /-- The pointer to the string of `global_id`. -/
  globalIdStr : UInt64
  deriving DecidableEq

/-- An SP in memory. -/
def ServiceProc.toBytes (sp : ServiceProc) : List UInt8 :=
  Bytes.ofWord sp.dpu ++ Bytes.ofWord sp.localId ++ Bytes.ofWord sp.localIdStr ++ Bytes.ofWord sp.globalId ++
    Bytes.ofWord sp.globalIdStr

/-- The SP in memory. -/
def ServiceProc.ofBytes (bs : List UInt8) : ServiceProc where
  dpu := Bytes.toWord (bs.take 8)
  localId := Bytes.toWord ((bs.drop 8).take 8)
  localIdStr := Bytes.toWord ((bs.drop 16).take 8)
  globalId := Bytes.toWord ((bs.drop 24).take 8)
  globalIdStr := Bytes.toWord ((bs.drop 32).take 8)

/-- `sizeof(service_proc_t)`. -/
def SIZEOF_SERVICE_PROC : ℕ := 40

/-- An SP in the array of the engine (`remote_service_proc_info_t`), as far as its data are packed. A pointer to memory
is what it points to, up to the end of the object. -/
structure SpEntry where
  /-- The pointer to the address. -/
  addr : Option (List UInt8)
  /-- `addr_len`. -/
  addrLen : UInt64
  /-- The SP. -/
  serviceProc : ServiceProc
  /-- The endpoint, by its address. -/
  ep : Option UInt64
  deriving DecidableEq

/-- An entry that is all zero. -/
def SpEntry.zero : SpEntry := ⟨none, 0, ⟨0, 0, 0, 0, 0⟩, none⟩

/-- The bytes of the address, where they are in memory. -/
def SpEntry.address (sp : SpEntry) : Option (List UInt8) := sp.addr.bind fun mem => Block.read mem 0 sp.addrLen.toNat

/-- The part of the engine with the SPs. -/
structure SpEngine where
  /-- `on_dpu`. -/
  onDpu : Bool
  /-- `num_service_procs`. -/
  numServiceProcs : UInt64
  /-- The SPs (`GET_ENGINE_LIST_SERVICE_PROCS`). -/
  serviceProcs : DynArray SpEntry
  /-- `buf_data_sps`. -/
  bufDataSps : Option (List UInt8)
  /-- `host.total_num_sps`. -/
  totalNumSps : UInt64
  deriving DecidableEq

/-- The SP at an index. -/
def SpEngine.sp (e : SpEngine) (i : ℕ) : SpEntry := e.serviceProcs.elts.getD i .zero

/-! ### Packing -/

/-- `get_list_sps_packed_size`: the lengths are added up over the array. All that is added up is in memory. -/
def getListSpsPackedSize (e : SpEngine) : Option (DynArray SpEntry × ℕ) :=
  let n := e.numServiceProcs.toNat
  let packedSize := 8 + n * 8
  ((List.range n).foldlM (fun (st : DynArray SpEntry × ℕ) idx =>
    (st.1.getElt .zero idx).map fun sps => (sps, st.2 + (sps.elts.getD idx .zero).addrLen.toNat))
    (e.serviceProcs, packedSize)).map fun st => (st.1, st.2 + n * SIZEOF_SERVICE_PROC)

/-- The state of `pack_data_sps`: the array, the block and the offset in the block. -/
structure Packer where
  /-- The SPs. -/
  sps : DynArray SpEntry
  /-- The block. -/
  buf : List UInt8
  /-- Where the next bytes go. -/
  offset : ℕ

/-- Bytes are written at the offset. -/
def Packer.put (p : Packer) (bs : List UInt8) : Option Packer :=
  (Block.write p.buf p.offset bs).map fun buf => { p with buf := buf, offset := p.offset + bs.length }

/-- A loop over the SPs that writes some bytes for each; `none` is a failed assertion. -/
def Packer.eachSp (f : SpEntry → Option (List UInt8)) (n : ℕ) (p : Packer) : Option Packer :=
  (List.range n).foldlM (fun p idx => (p.sps.getElt .zero idx).bind fun sps =>
    (f (sps.elts.getD idx .zero)).bind fun bs => { p with sps := sps }.put bs) p

/-- The length of an address. -/
def packAddrLen (sp : SpEntry) : Option (List UInt8) := if 0 < sp.addrLen then some (Bytes.ofWord sp.addrLen) else none

/-- An address. -/
def packAddr (sp : SpEntry) : Option (List UInt8) := sp.address

/-- An SP. -/
def packInfo (sp : SpEntry) : Option (List UInt8) := some sp.serviceProc.toBytes

/-- `pack_data_sps`, with the size it returns; `malloc` gives a block with any contents. -/
def packDataSps (malloc : ℕ → Option (List UInt8)) (e : SpEngine) : Option (SpEngine × ℕ) :=
  if e.onDpu = false ∨ e.bufDataSps.isSome then none
  else (getListSpsPackedSize e).bind fun r =>
    let payloadSize := r.2
    let n := e.numServiceProcs.toNat
    if payloadSize = 0 then none
    else (malloc payloadSize).bind fun buf =>
      (Packer.put ⟨r.1, buf, 0⟩ (Bytes.ofWord e.numServiceProcs)).bind fun p =>
      (p.eachSp packAddrLen n).bind fun p =>
      (p.eachSp packAddr n).bind fun p =>
      (p.eachSp packInfo n).bind fun p =>
      if p.offset = payloadSize then
        some ({ e with serviceProcs := p.sps, bufDataSps := some p.buf }, payloadSize)
      else none

/-! ### Unpacking -/

/-- The state of `unpack_data_sps`: the array and the offset in the data. -/
structure Unpacker where
  /-- The SPs. -/
  sps : DynArray SpEntry
  /-- Where the next bytes are. -/
  offset : ℕ

/-- A loop over the SPs that changes each, from what is at the offset; `none` is a read beyond the data. -/
def Unpacker.eachSp (f : ℕ → SpEntry → Option (SpEntry × ℕ)) (n : ℕ) (u : Unpacker) : Option Unpacker :=
  (List.range n).foldlM (fun u idx => (u.sps.getElt .zero idx).bind fun sps =>
    (f u.offset (sps.elts.getD idx .zero)).map fun r => ⟨sps.set idx r.1, u.offset + r.2⟩) u

variable (data : List UInt8)

/-- The length of an address is read. -/
def unpackAddrLen (offset : ℕ) (sp : SpEntry) : Option (SpEntry × ℕ) :=
  (Block.read data offset 8).map fun bs => ({ sp with addrLen := Bytes.toWord bs, ep := none }, 8)

/-- An address stays in the data. -/
def unpackAddr (offset : ℕ) (sp : SpEntry) : Option (SpEntry × ℕ) :=
  some ({ sp with addr := some (data.drop offset) }, sp.addrLen.toNat)

/-- An SP is copied. -/
def unpackInfo (offset : ℕ) (sp : SpEntry) : Option (SpEntry × ℕ) :=
  (Block.read data offset SIZEOF_SERVICE_PROC).map fun bs =>
    ({ sp with serviceProc := .ofBytes bs }, SIZEOF_SERVICE_PROC)

/-- `unpack_data_sps`. -/
def unpackDataSps (e : SpEngine) : Option SpEngine :=
  (Block.read data 0 8).bind fun val =>
    let numSps := Bytes.toWord val
    let e := if e.onDpu then e else { e with numServiceProcs := numSps, totalNumSps := numSps }
    (Unpacker.eachSp (unpackAddrLen data) numSps.toNat ⟨e.serviceProcs, 8⟩).bind fun u =>
    (u.eachSp (unpackAddr data) numSps.toNat).bind fun u =>
    (u.eachSp (unpackInfo data) numSps.toNat).map fun u => { e with serviceProcs := u.sps }

/-! ### The format -/

@[simp] theorem ServiceProc.length_toBytes (sp : ServiceProc) : sp.toBytes.length = SIZEOF_SERVICE_PROC := by
  simp only [toBytes, List.length_append, Bytes.length_ofWord]
  rfl

/-- An SP is read as it was written. -/
theorem ServiceProc.ofBytes_toBytes (sp : ServiceProc) : ofBytes sp.toBytes = sp := by
  have hdrop (w : UInt64) (k : ℕ) (bs : List UInt8) : (Bytes.ofWord w ++ bs).drop (8 + k) = bs.drop k := by
    rw [← Bytes.length_ofWord w, List.drop_length_add_append]
  have htake (w : UInt64) (bs : List UInt8) : Bytes.toWord ((Bytes.ofWord w ++ bs).take 8) = w := by
    rw [← Bytes.length_ofWord w, List.take_left, Bytes.toWord_ofWord]
  have hlast (w : UInt64) : Bytes.toWord ((Bytes.ofWord w).take 8) = w := by
    simpa using htake w []
  simp only [toBytes, List.append_assoc]
  rw [ofBytes, htake, hdrop _ 0, hdrop _ 8, hdrop _ 16, hdrop _ 24, hdrop _ 0, hdrop _ 8, hdrop _ 16, hdrop _ 0,
    hdrop _ 8, hdrop _ 0]
  simp only [List.drop_zero, htake, hlast]

namespace SpEngine

variable (e : SpEngine)

/-- The lengths of the first `n` addresses. -/
def addrLens (n : ℕ) : List UInt8 := (List.range n).flatMap fun i => Bytes.ofWord (e.sp i).addrLen

/-- The first `n` addresses. -/
def addrs (n : ℕ) : List UInt8 := (List.range n).flatMap fun i => (e.sp i).address.getD []

/-- The first `n` SPs. -/
def infos (n : ℕ) : List UInt8 := (List.range n).flatMap fun i => (e.sp i).serviceProc.toBytes

/-- The data of the SPs. -/
def dataSps : List UInt8 :=
  Bytes.ofWord e.numServiceProcs ++ e.addrLens e.numServiceProcs.toNat ++ e.addrs e.numServiceProcs.toNat ++
    e.infos e.numServiceProcs.toNat

/-- All SPs have an address, which is not empty. -/
structure HasAddrs : Prop where
  /-- An address is not empty. -/
  addrLen : ∀ i < e.numServiceProcs.toNat, 0 < (e.sp i).addrLen
  /-- It is in memory. -/
  address : ∀ i < e.numServiceProcs.toNat, ∃ bs, (e.sp i).address = some bs

variable {e : SpEngine}

/-- No access grows the array. -/
theorem HasAddrs.getElt (h : e.HasAddrs) {i : ℕ} (hi : i < e.numServiceProcs.toNat) :
    e.serviceProcs.getElt .zero i = some e.serviceProcs := by
  refine DynArray.access_of_lt ?_ _
  by_contra hge
  have hzero : e.sp i = .zero := List.getD_eq_default _ _ (Nat.le_of_not_lt hge)
  have hpos := h.addrLen i hi
  rw [hzero] at hpos
  exact absurd hpos (by decide)

theorem HasAddrs.address_eq (h : e.HasAddrs) {i : ℕ} (hi : i < e.numServiceProcs.toNat) :
    (e.sp i).address = some ((e.sp i).address.getD []) := by
  obtain ⟨bs, hbs⟩ := h.address i hi
  rw [hbs]
  rfl

/-- An address is as long as its length says. -/
theorem HasAddrs.length_address (h : e.HasAddrs) {i : ℕ} (hi : i < e.numServiceProcs.toNat) :
    ((e.sp i).address.getD []).length = (e.sp i).addrLen.toNat := by
  obtain ⟨bs, hbs⟩ := h.address i hi
  obtain ⟨mem, -, hread⟩ := Option.bind_eq_some_iff.1 hbs
  have hlen := Block.length_read hread
  rw [hbs]
  exact hlen

theorem length_addrLens (n : ℕ) : (e.addrLens n).length = n * 8 := by
  induction n with
  | zero => rfl
  | succ n ih => rw [addrLens, Block.length_flatMap_range_succ, ← addrLens, ih, Bytes.length_ofWord, Nat.succ_mul]

theorem length_infos (n : ℕ) : (e.infos n).length = n * SIZEOF_SERVICE_PROC := by
  induction n with
  | zero => rw [Nat.zero_mul]; rfl
  | succ n ih => rw [infos, Block.length_flatMap_range_succ, ← infos, ih, ServiceProc.length_toBytes, Nat.succ_mul]

/-- **`get_list_sps_packed_size` is the size of the data.** -/
theorem HasAddrs.packedSize (h : e.HasAddrs) :
    getListSpsPackedSize e = some (e.serviceProcs, e.dataSps.length) := by
  have hsum : ∀ n ≤ e.numServiceProcs.toNat, ∀ size : ℕ,
      (List.range n).foldlM (fun (st : DynArray SpEntry × ℕ) idx =>
        (st.1.getElt .zero idx).map fun sps => (sps, st.2 + (sps.elts.getD idx .zero).addrLen.toNat))
        (e.serviceProcs, size) = some (e.serviceProcs, size + (e.addrs n).length) := by
    intro n hn size
    induction n with
    | zero => rfl
    | succ n ih =>
      have hlen : (e.addrs (n + 1)).length = (e.addrs n).length + (e.sp n).addrLen.toNat := by
        rw [addrs, Block.length_flatMap_range_succ, h.length_address hn]
        rfl
      rw [List.range_succ, List.foldlM_append, ih (by omega), hlen, ← Nat.add_assoc]
      simp only [Option.bind_eq_bind, Option.bind_some, List.foldlM_cons, h.getElt hn, Option.map_some, List.foldlM_nil,
        Option.pure_def]
      rfl
  rw [getListSpsPackedSize, hsum _ (Nat.le_refl _), Option.map_some, dataSps]
  simp only [List.length_append, Bytes.length_ofWord, length_addrLens, length_infos]

end SpEngine

/-! ### What is packed -/

/-- The packer, when `out` has been written and `rest` is what the block holds behind it. -/
def Packer.behind (sps : DynArray SpEntry) (out rest : List UInt8) : Packer := ⟨sps, out ++ rest, out.length⟩

theorem Packer.put_behind (sps : DynArray SpEntry) (out : List UInt8) {bs rest : List UInt8}
    (h : bs.length ≤ rest.length) :
    (behind sps out rest).put bs = some (behind sps (out ++ bs) (rest.drop bs.length)) := by
  rw [put, behind, Block.write_append out h, Option.map_some, behind, List.length_append]

theorem Packer.eachSp_succ (f : SpEntry → Option (List UInt8)) (n : ℕ) (p : Packer) :
    p.eachSp f (n + 1) = (p.eachSp f n).bind fun p => (p.sps.getElt .zero n).bind fun sps =>
      (f (sps.elts.getD n .zero)).bind fun bs => { p with sps := sps }.put bs := by
  rw [eachSp, List.range_succ, List.foldlM_append, ← eachSp]
  simp only [Option.bind_eq_bind, List.foldlM_cons, List.foldlM_nil, Option.pure_def, Option.bind_fun_some]

/-- **A loop writes its parts** one after the other. -/
theorem Packer.eachSp_behind {e : SpEngine} (h : e.HasAddrs) {f : SpEntry → Option (List UInt8)} {g : ℕ → List UInt8}
    {n : ℕ} (hn : n ≤ e.numServiceProcs.toNat) (hf : ∀ i < n, f (e.sp i) = some (g i)) (out : List UInt8)
    {rest : List UInt8} (hlen : ((List.range n).flatMap g).length ≤ rest.length) :
    (behind e.serviceProcs out rest).eachSp f n = some (behind e.serviceProcs (out ++ (List.range n).flatMap g)
      (rest.drop ((List.range n).flatMap g).length)) := by
  induction n with
  | zero =>
    rw [List.range_zero, List.flatMap_nil, List.append_nil]
    rfl
  | succ n ih =>
    rw [Block.length_flatMap_range_succ] at hlen
    have hroom : (g n).length ≤ (rest.drop ((List.range n).flatMap g).length).length := by
      rw [List.length_drop]
      omega
    have hsp : f (e.serviceProcs.elts.getD n .zero) = some (g n) := hf n (Nat.lt_succ_self n)
    have hget : (behind e.serviceProcs (out ++ (List.range n).flatMap g)
        (rest.drop ((List.range n).flatMap g).length)).sps.getElt .zero n = some e.serviceProcs := h.getElt hn
    rw [eachSp_succ, ih (by omega) (fun i hi => hf i (by omega)) (by omega), Option.bind_some, hget, Option.bind_some,
      hsp, Option.bind_some]
    rw [Block.length_flatMap_range_succ, ← List.drop_drop, List.range_succ, List.flatMap_append,
      List.flatMap_singleton, ← List.append_assoc]
    exact put_behind e.serviceProcs _ hroom

/-- **What is packed**, whatever the block held: the size that has been computed, no byte more and no byte less. -/
theorem packDataSps_eq {e : SpEngine} (hd : e.onDpu = true) (hb : e.bufDataSps = none) (h : e.HasAddrs)
    {malloc : ℕ → Option (List UInt8)} {block : List UInt8} (hm : malloc e.dataSps.length = some block)
    (hlen : block.length = e.dataSps.length) :
    packDataSps malloc e = some ({ e with bufDataSps := some e.dataSps }, e.dataSps.length) := by
  have hsize : e.dataSps.length = 8 + (e.addrLens e.numServiceProcs.toNat).length +
      (e.addrs e.numServiceProcs.toNat).length + (e.infos e.numServiceProcs.toNat).length := by
    simp only [SpEngine.dataSps, List.length_append, Bytes.length_ofWord]
  have hlens : ∀ i < e.numServiceProcs.toNat, packAddrLen (e.sp i) = some (Bytes.ofWord (e.sp i).addrLen) :=
    fun i hi => if_pos (h.addrLen i hi)
  have haddrs : ∀ i < e.numServiceProcs.toNat, packAddr (e.sp i) = some ((e.sp i).address.getD []) :=
    fun i hi => h.address_eq hi
  have hinfos : ∀ i < e.numServiceProcs.toNat, packInfo (e.sp i) = some (e.sp i).serviceProc.toBytes :=
    fun i _ => rfl
  have hput := Packer.put_behind e.serviceProcs [] (show (Bytes.ofWord e.numServiceProcs).length ≤ block.length by
    rw [Bytes.length_ofWord]
    omega)
  rw [Bytes.length_ofWord] at hput
  rw [packDataSps, if_neg (by rw [hd, hb]; decide), h.packedSize, Option.bind_some]
  dsimp only
  rw [if_neg (by omega), hm, Option.bind_some]
  rw [show (⟨e.serviceProcs, block, 0⟩ : Packer) = .behind e.serviceProcs [] block from rfl, hput, Option.bind_some,
    Packer.eachSp_behind h (Nat.le_refl _) hlens _ (by rw [List.length_drop, ← SpEngine.addrLens]; omega),
    Option.bind_some, List.drop_drop, ← SpEngine.addrLens,
    Packer.eachSp_behind h (Nat.le_refl _) haddrs _ (by rw [List.length_drop, ← SpEngine.addrs]; omega),
    Option.bind_some, List.drop_drop, ← SpEngine.addrs,
    Packer.eachSp_behind h (Nat.le_refl _) hinfos _ (by rw [List.length_drop, ← SpEngine.infos]; omega),
    Option.bind_some, List.drop_drop, ← SpEngine.infos]
  have hout : [] ++ Bytes.ofWord e.numServiceProcs ++ e.addrLens e.numServiceProcs.toNat ++
      e.addrs e.numServiceProcs.toNat ++ e.infos e.numServiceProcs.toNat = e.dataSps := rfl
  rw [hout, List.drop_eq_nil_of_le (by omega), Packer.behind, List.append_nil]
  dsimp only
  rw [if_pos rfl]

/-! ### What a host finds -/

/-- The SP at an index. -/
def Unpacker.sp (u : Unpacker) (i : ℕ) : SpEntry := u.sps.elts.getD i .zero

theorem Unpacker.eachSp_succ (f : ℕ → SpEntry → Option (SpEntry × ℕ)) (n : ℕ) (u : Unpacker) :
    u.eachSp f (n + 1) = (u.eachSp f n).bind fun u => (u.sps.getElt .zero n).bind fun sps =>
      (f u.offset (sps.elts.getD n .zero)).map fun r => ⟨sps.set n r.1, u.offset + r.2⟩ := by
  rw [eachSp, List.range_succ, List.foldlM_append, ← eachSp]
  simp only [Option.bind_eq_bind, List.foldlM_cons, List.foldlM_nil, Option.pure_def, Option.bind_fun_some]

/-- **A loop changes the SPs** one after the other, each from its own part of the data. -/
theorem Unpacker.eachSp_eq {f : ℕ → SpEntry → Option (SpEntry × ℕ)} {u : Unpacker} (h0 : u.sps.capacity ≠ 0)
    (hk : 0 < u.sps.allocationSize) {g : ℕ → List UInt8} {new : ℕ → SpEntry} {n : ℕ}
    (hf : ∀ i < n, f (u.offset + ((List.range i).flatMap g).length) (u.sp i) = some (new i, (g i).length)) :
    ∃ u', u.eachSp f n = some u' ∧ u'.sps.capacity ≠ 0 ∧ 0 < u'.sps.allocationSize ∧
      u'.offset = u.offset + ((List.range n).flatMap g).length ∧
      ∀ i, u'.sp i = if i < n then new i else u.sp i := by
  induction n with
  | zero => exact ⟨u, rfl, h0, hk, rfl, fun i => (if_neg (Nat.not_lt_zero i)).symm⟩
  | succ n ih =>
    obtain ⟨u', hu', h0', hk', hoff, hsp⟩ := ih fun i hi => hf i (by omega)
    obtain ⟨sps, hget, hn, hset⟩ := DynArray.exists_getElt_set (z := .zero) h0' hk' n
    obtain ⟨hcap, hsize, hi⟩ := hset (new n)
    have hold : sps.elts.getD n .zero = u.sp n := by
      rw [hn]
      exact (hsp n).trans (if_neg (Nat.lt_irrefl n))
    refine ⟨⟨sps.set n (new n), u'.offset + (g n).length⟩, ?_, hcap, hsize ▸ hk', ?_, fun i => ?_⟩
    · rw [eachSp_succ, hu', Option.bind_some, hget, Option.bind_some, hold, hoff, hf n (Nat.lt_succ_self n)]
      rfl
    · rw [Block.length_flatMap_range_succ, ← Nat.add_assoc, ← hoff]
    · apply (hi i).trans
      by_cases he : i = n
      · rw [if_pos he, if_pos (by omega), he]
      · rw [if_neg he]
        apply (hsp i).trans
        by_cases hlt : i < n
        · rw [if_pos hlt, if_pos (by omega)]
        · rw [if_neg hlt, if_neg (by omega)]

section Host

variable {e host : SpEngine}

/-- The lengths are read where they were written. -/
theorem read_addrLens {i : ℕ} (hi : i < e.numServiceProcs.toNat) :
    Block.read e.dataSps (8 + (e.addrLens i).length) 8 = some (Bytes.ofWord (e.sp i).addrLen) := by
  have hread := Block.read_flatMap_range (Bytes.ofWord e.numServiceProcs)
    (e.addrs e.numServiceProcs.toNat ++ e.infos e.numServiceProcs.toNat)
    (fun i => Bytes.ofWord (e.sp i).addrLen) hi
  simp only [Bytes.length_ofWord, ← List.append_assoc] at hread
  exact hread

/-- So are the addresses. -/
theorem SpEngine.HasAddrs.read_addrs (h : e.HasAddrs) {i : ℕ} (hi : i < e.numServiceProcs.toNat) :
    Block.read e.dataSps (8 + (e.addrLens e.numServiceProcs.toNat).length + (e.addrs i).length)
      (e.sp i).addrLen.toNat = (e.sp i).address := by
  have hread := Block.read_flatMap_range (Bytes.ofWord e.numServiceProcs ++ e.addrLens e.numServiceProcs.toNat)
    (e.infos e.numServiceProcs.toNat) (fun i => (e.sp i).address.getD []) hi
  rw [h.length_address hi, List.length_append, Bytes.length_ofWord, ← h.address_eq hi] at hread
  exact hread

/-- And the SPs. -/
theorem read_infos {i : ℕ} (hi : i < e.numServiceProcs.toNat) :
    Block.read e.dataSps (8 + (e.addrLens e.numServiceProcs.toNat).length +
      (e.addrs e.numServiceProcs.toNat).length + (e.infos i).length) SIZEOF_SERVICE_PROC =
      some (e.sp i).serviceProc.toBytes := by
  have hread := Block.read_flatMap_range
    (Bytes.ofWord e.numServiceProcs ++ e.addrLens e.numServiceProcs.toNat ++ e.addrs e.numServiceProcs.toNat) []
    (fun i => (e.sp i).serviceProc.toBytes) hi
  rw [ServiceProc.length_toBytes, List.append_nil, List.length_append, List.length_append, Bytes.length_ofWord] at hread
  exact hread

/-- **What a host finds** in the data of an SP. -/
theorem unpackDataSps_eq (h : e.HasAddrs) (hh : host.onDpu = false) (h0 : host.serviceProcs.capacity ≠ 0)
    (hk : 0 < host.serviceProcs.allocationSize) : ∃ host', unpackDataSps e.dataSps host = some host' ∧
      host'.numServiceProcs = e.numServiceProcs ∧ host'.totalNumSps = e.numServiceProcs ∧
      ∀ i < e.numServiceProcs.toNat, (host'.sp i).addrLen = (e.sp i).addrLen ∧
        (host'.sp i).address = (e.sp i).address ∧ (host'.sp i).serviceProc = (e.sp i).serviceProc := by
  have hnum : Block.read e.dataSps 0 8 = some (Bytes.ofWord e.numServiceProcs) := by
    have hread := Block.read_append [] (Bytes.ofWord e.numServiceProcs) (e.addrLens e.numServiceProcs.toNat ++
      e.addrs e.numServiceProcs.toNat ++ e.infos e.numServiceProcs.toNat)
    simp only [Bytes.length_ofWord, List.length_nil, List.nil_append, ← List.append_assoc] at hread
    exact hread
  -- the lengths
  obtain ⟨u₁, hu₁, h0₁, hk₁, hoff₁, hsp₁⟩ := @Unpacker.eachSp_eq (unpackAddrLen e.dataSps) ⟨host.serviceProcs, 8⟩ h0 hk
    (fun i => Bytes.ofWord (e.sp i).addrLen) (fun i => { host.sp i with addrLen := (e.sp i).addrLen, ep := none })
    e.numServiceProcs.toNat fun i hi => by
      rw [unpackAddrLen, ← SpEngine.addrLens, read_addrLens hi, Option.map_some, Bytes.toWord_ofWord,
        Bytes.length_ofWord]
      rfl
  dsimp only at hoff₁
  rw [← SpEngine.addrLens] at hoff₁
  -- the addresses, which are as long as that
  obtain ⟨u₂, hu₂, h0₂, hk₂, hoff₂, hsp₂⟩ := @Unpacker.eachSp_eq (unpackAddr e.dataSps) u₁ h0₁ hk₁
    (fun i => (e.sp i).address.getD []) (fun i => { host.sp i with
      addrLen := (e.sp i).addrLen, ep := none, addr := some (e.dataSps.drop (u₁.offset + (e.addrs i).length)) })
    e.numServiceProcs.toNat fun i hi => by
      rw [unpackAddr, hsp₁, if_pos hi, h.length_address hi]
      rfl
  rw [← SpEngine.addrs, hoff₁] at hoff₂
  -- the SPs
  obtain ⟨u₃, hu₃, -, -, -, hsp₃⟩ := @Unpacker.eachSp_eq (unpackInfo e.dataSps) u₂ h0₂ hk₂
    (fun i => (e.sp i).serviceProc.toBytes) (fun i => { u₂.sp i with serviceProc := (e.sp i).serviceProc })
    e.numServiceProcs.toNat fun i hi => by
      rw [unpackInfo, hoff₂, ← SpEngine.infos, read_infos hi, Option.map_some, ServiceProc.ofBytes_toBytes,
        ServiceProc.length_toBytes]
  have hunpack : unpackDataSps e.dataSps host = some { host with
      numServiceProcs := e.numServiceProcs, totalNumSps := e.numServiceProcs, serviceProcs := u₃.sps } := by
    rw [unpackDataSps, hnum, Option.bind_some, Bytes.toWord_ofWord]
    dsimp only
    rw [hh, if_neg Bool.false_ne_true]
    dsimp only
    rw [hu₁, Option.bind_some, hu₂, Option.bind_some, hu₃, Option.map_some]
  refine ⟨_, hunpack, rfl, rfl, fun i hi => ?_⟩
  have hsp : u₃.sps.elts.getD i .zero = { host.sp i with
      addrLen := (e.sp i).addrLen
      ep := none
      addr := some (e.dataSps.drop (u₁.offset + (e.addrs i).length))
      serviceProc := (e.sp i).serviceProc } := by
    apply (hsp₃ i).trans
    rw [if_pos hi, hsp₂, if_pos hi]
  rw [SpEngine.sp]
  dsimp only
  rw [hsp]
  refine ⟨rfl, ?_, rfl⟩
  have hread := h.read_addrs hi
  obtain ⟨bs, hbs⟩ := h.address i hi
  rw [hbs] at hread ⊢
  rw [SpEntry.address, hoff₁]
  exact Block.read_drop hread

/-- **A host unpacks what an SP has packed**, for any number of SPs and any addresses that are not empty. The bytes
packed are as many as `get_list_sps_packed_size` says, and all are written: they do not depend on what the block held.
The host reads them only, and finds the number of SPs, and each SP with its address. The array of a host has been
allocated. -/
theorem sp_data_round_trip (hd : e.onDpu = true) (hb : e.bufDataSps = none) (h : e.HasAddrs)
    (hh : host.onDpu = false) (h0 : host.serviceProcs.capacity ≠ 0) (hk : 0 < host.serviceProcs.allocationSize) :
    ∃ buf, getListSpsPackedSize e = some (e.serviceProcs, buf.length) ∧
      (∀ (malloc : ℕ → Option (List UInt8)) (block : List UInt8), malloc buf.length = some block →
        block.length = buf.length →
        packDataSps malloc e = some ({ e with bufDataSps := some buf }, buf.length)) ∧
      ∃ host', unpackDataSps buf host = some host' ∧
        host'.numServiceProcs = e.numServiceProcs ∧ host'.totalNumSps = e.numServiceProcs ∧
        ∀ i < e.numServiceProcs.toNat, (host'.sp i).addrLen = (e.sp i).addrLen ∧
          (host'.sp i).address = (e.sp i).address ∧ (host'.sp i).serviceProc = (e.sp i).serviceProc :=
  ⟨e.dataSps, h.packedSize, fun _ _ hm hlen => packDataSps_eq hd hb h hm hlen, unpackDataSps_eq h hh h0 hk⟩

end Host

/-- An SP that knows of two SPs, with addresses of three bytes and of one. -/
def twoSpsEngine : SpEngine where
  onDpu := true
  numServiceProcs := 2
  serviceProcs := ⟨[⟨some [1, 2, 3], 3, ⟨0, 0, 0, 0, 0⟩, none⟩, ⟨some [7, 9], 1, ⟨1, 0, 0, 1, 0⟩, none⟩], 2⟩
  bufDataSps := none
  totalNumSps := 0

/-- A host whose array has room for one SP. -/
def freshHostEngine : SpEngine where
  onDpu := false
  numServiceProcs := 0
  serviceProcs := .alloc .zero 1
  bufDataSps := none
  totalNumSps := -1

theorem hasAddrs_twoSps : twoSpsEngine.HasAddrs where
  addrLen := by decide
  address i hi := by
    have hi : i < 2 := hi
    interval_cases i
    · exact ⟨[1, 2, 3], rfl⟩
    · exact ⟨[7], rfl⟩

/-- The host finds both. -/
theorem sp_data_round_trip_two :
    ∃ buf, getListSpsPackedSize twoSpsEngine = some (twoSpsEngine.serviceProcs, buf.length) ∧
      (∀ (malloc : ℕ → Option (List UInt8)) (block : List UInt8), malloc buf.length = some block →
        block.length = buf.length →
        packDataSps malloc twoSpsEngine = some ({ twoSpsEngine with bufDataSps := some buf }, buf.length)) ∧
      ∃ host', unpackDataSps buf freshHostEngine = some host' ∧
        host'.numServiceProcs = twoSpsEngine.numServiceProcs ∧ host'.totalNumSps = twoSpsEngine.numServiceProcs ∧
        ∀ i < twoSpsEngine.numServiceProcs.toNat, (host'.sp i).addrLen = (twoSpsEngine.sp i).addrLen ∧
          (host'.sp i).address = (twoSpsEngine.sp i).address ∧
          (host'.sp i).serviceProc = (twoSpsEngine.sp i).serviceProc :=
  sp_data_round_trip rfl rfl hasAddrs_twoSps rfl Nat.one_ne_zero Nat.one_pos

end DpuOffload
