import LearnXv6.Checksum.Write

/-! Truncating a checked file: `itrunc` takes the packed entries for block numbers. -/
namespace LearnXv6.Checksum
open Fs Store Fs.Kernel List Except Kernel Lab

variable {s s' s₀ t : State} {ip ip' ip₀ jp : Inode} {b bn k m v w : ℕ} {c : ℕ → ℕ} {ws : List Write}

/-- The blocks of the file and its index block. -/
def occupied (s : State) (ip : Inode) : Set ℕ :=
  {b | (∃ bn, bn < nblk ip.size ∧ b = blockOf s ip bn) ∨ ip.addrs NDIRECT ≠ 0 ∧ b = ip.addrs NDIRECT}

/-- What deleting the file asks of `itrunc`: it clears the bits of the file's blocks and no other bit,
and it writes no block past the end of the disk. -/
def Truncates (s : State) (ip : Inode) : Prop :=
  ∃ s' ip', itrunc s ip = .ok (s', ip') ∧
    (∀ b, s'.used b = true ↔ s.used b = true ∧ b ∉ occupied s ip) ∧
    ∀ b, FSSIZE ≤ b → s'.disk b = s.disk b

/-! The text of `itrunc`, over the function that frees one block. -/

section Text

variable {ε : Type} (free : State → ℕ → Except ε State)

def freeEntry (s : State) (w : ℕ) : Except ε State := if w ≠ 0 then free s w else .ok s

def freeSlot (x : State × Inode) (i : ℕ) : Except ε (State × Inode) :=
  if x.2.addrs i ≠ 0 then do
    let s ← free x.1 (x.2.addrs i)
    .ok (s, x.2.setAddr i 0)
  else .ok x

def freeIndex (x : State × Inode) : Except ε (State × Inode) :=
  if x.2.addrs NDIRECT ≠ 0 then do
    let s ← (List.range NINDIRECT).foldlM
      (fun s j => freeEntry free s (s.word (x.2.addrs NDIRECT) j)) x.1
    let s ← free s (x.2.addrs NDIRECT)
    .ok (s, x.2.setAddr NDIRECT 0)
  else .ok x

def truncateWith (x : State × Inode) : Except ε (State × Inode) := do
  let x ← (List.range NDIRECT).foldlM (freeSlot free) x
  let x ← freeIndex free x
  .ok (Kernel.iupdate x.1 { x.2 with size := 0 }, { x.2 with size := 0 })

lemma itrunc_eq : itrunc s ip = truncateWith bfree (s, ip) := by
  unfold itrunc truncateWith freeIndex
  refine bind_congr fun x => ?_
  by_cases hi : x.2.addrs NDIRECT ≠ 0
  · simp only [if_pos hi, bind_assoc]
    rfl
  · simp only [if_neg hi]
    rfl

lemma stock_itrunc_eq : Kernel.itrunc .stock s ip = truncateWith Kernel.bfree (s, ip) := by
  unfold Kernel.itrunc truncateWith freeIndex
  refine bind_congr fun x => ?_
  simp only [show stock.NDIRECT = NDIRECT from rfl]
  by_cases hi : x.2.addrs NDIRECT ≠ 0
  · simp only [if_pos hi, bind_assoc]
    rfl
  · simp only [if_neg hi]
    rfl

end Text

/-! One block. -/

lemma bfree_changes (h : Kernel.bfree s b = .ok s') : s'.sb = Superblock.read (s.disk 1) ∧
    ∀ k, k ≠ (Superblock.read (s.disk 1)).bblock b → s'.disk k = s.disk k := by
  unfold Kernel.bfree at h
  dsimp only at h
  split at h
  · cases h
  · rw [← ok.inj h]
    exact ⟨rfl, fun k hk => logWrite_disk_of_ne hk⟩

/-- What the loops of `itrunc` keep: the super block and the data area. -/
structure Loop (s₀ s : State) : Prop where
  sb_eq : s.sb = s₀.sb
  super : Superblock.read (s.disk 1) = s₀.sb
  data : ∀ b, s₀.sb.datastart ≤ b → s.disk b = s₀.disk b

section Blocks

variable (hv : Valid s₀) (hsize : s₀.sb.size = FSSIZE) (hs : Loop s₀ s) {c : ℕ}
  (hcode : Codes c w v) (hlt : v < s₀.sb.size)
include hv hsize hs hcode hlt

/-- The map block of an entry with a checksum is past the end of the disk. -/
lemma bfree_ok_iff : bfree s w = .ok s' ↔ Kernel.bfree s w = .ok s' ∧ c = 0 := by
  have heq := hcode.eq
  unfold bfree
  rw [hs.super]
  by_cases hc : c = 0
  · have hw : w = v := by rw [heq, hc, Nat.zero_mul, Nat.add_zero]
    have hlow : s₀.sb.bblock w < FSSIZE := by
      rw [hw, ← hsize]
      exact (bblock_lt_datastart hlt).trans_le hv.data_le
    rw [if_neg (not_le.mpr hlow)]
    cases Kernel.bfree s w with
    | ok x => simp [hc]
    | error e => simp
  · have hhigh : FSSIZE ≤ s₀.sb.bblock w := by
      have hpos : 1 ≤ c := Nat.one_le_iff_ne_zero.mpr hc
      have hfs : FSSIZE = 1000 := rfl
      unfold Superblock.bblock
      rw [BPB_eq]
      omega
    rw [if_pos hhigh]
    simp [hc]

lemma Loop.bfree (h : bfree s w = .ok s') : Loop s₀ s' := by
  obtain ⟨hk, hc⟩ := (bfree_ok_iff hv hsize hs hcode hlt).mp h
  have hw : w = v := by rw [hcode.eq, hc, Nat.zero_mul, Nat.add_zero]
  have hlow := bblock_lt_datastart hlt
  have hge := bmapstart_le_bblock s₀.sb v
  have hsuper := hv.super_lt
  have hinode := hv.inode_le
  rw [hw] at hk
  obtain ⟨hsb, hkeep⟩ := bfree_changes hk
  rw [hs.super] at hsb hkeep
  refine ⟨hsb, ?_, fun d hd => ?_⟩
  · rw [hkeep 1 (by omega)]
    exact hs.super
  · rw [hkeep d (by omega)]
    exact hs.data d hd

lemma freeEntry_ok_iff : freeEntry bfree s w = .ok s' ↔ freeEntry Kernel.bfree s w = .ok s' ∧ c = 0 := by
  unfold freeEntry
  by_cases hw : w = 0
  · have hc := hcode.zero (hcode.eq_zero_iff.mp hw)
    simp [hw, hc]
  · rw [if_pos hw, if_pos hw]
    exact bfree_ok_iff hv hsize hs hcode hlt

lemma Loop.freeEntry (h : freeEntry Checksum.bfree s w = .ok s') : Loop s₀ s' := by
  unfold Checksum.freeEntry at h
  split at h
  · exact hs.bfree hv hsize hcode hlt h
  · cases h
    exact hs

end Blocks

/-! The loops. -/

/-- The direct entries that the first loop has not reached, and those that it has cleared. -/
structure Slots (c : ℕ → ℕ) (s₀ : State) (ip₀ : Inode) (x : State × Inode) : Prop where
  loop : Loop s₀ x.1
  inum_eq : x.2.inum = ip₀.inum
  index : x.2.addrs NDIRECT = ip₀.addrs NDIRECT
  codes : ∀ k, k < NDIRECT → ∃ v, v < s₀.sb.size ∧ Codes (c k) (x.2.addrs k) v

/-- What `itrunc` finds in the index block. -/
structure Entries (c : ℕ → ℕ) (s₀ : State) (a : ℕ) : Prop where
  data : s₀.sb.datastart ≤ a
  code : Codes 0 a a
  lt_size : a < s₀.sb.size
  codes : ∀ j, j < NINDIRECT → ∃ v, v < s₀.sb.size ∧ Codes (c (NDIRECT + j)) (s₀.word a j) v

section Loops

variable (hv : Valid s₀) (hsize : s₀.sb.size = FSSIZE) {x y : State × Inode}
include hv hsize

lemma freeSlot_ok_iff (hx : Slots c s₀ ip₀ x) (hk : k < NDIRECT) :
    freeSlot bfree x k = .ok y ↔ freeSlot Kernel.bfree x k = .ok y ∧ c k = 0 := by
  obtain ⟨v, hlt, hcode⟩ := hx.codes k hk
  unfold freeSlot
  by_cases hz : x.2.addrs k = 0
  · have hc := hcode.zero (hcode.eq_zero_iff.mp hz)
    simp [hz, hc]
  · rw [if_pos hz, if_pos hz, bind_eq_ok, bind_eq_ok]
    constructor
    · rintro ⟨s1, hb, h⟩
      obtain ⟨hb', hc⟩ := (bfree_ok_iff hv hsize hx.loop hcode hlt).mp hb
      exact ⟨⟨s1, hb', congrArg Except.ok (ok.inj h)⟩, hc⟩
    · rintro ⟨⟨s1, hb', h⟩, hc⟩
      exact ⟨s1, (bfree_ok_iff hv hsize hx.loop hcode hlt).mpr ⟨hb', hc⟩,
        congrArg Except.ok (ok.inj h)⟩

lemma Slots.freeSlot (hx : Slots c s₀ ip₀ x) (hk : k < NDIRECT)
    (h : freeSlot bfree x k = .ok y) : Slots c s₀ ip₀ y := by
  have hc := ((freeSlot_ok_iff hv hsize hx hk).mp h).2
  obtain ⟨v, hlt, hcode⟩ := hx.codes k hk
  unfold Checksum.freeSlot at h
  split at h
  · obtain ⟨s1, hb, hy⟩ := bind_eq_ok.mp h
    rw [← ok.inj hy]
    refine ⟨hx.loop.bfree hv hsize hcode hlt hb, hx.inum_eq, ?_, fun j hj => ?_⟩
    · exact (setAddr_of_ne hk.ne').trans hx.index
    · by_cases hjk : j = k
      · refine ⟨0, Nat.zero_lt_of_lt hlt, ?_⟩
        rw [hjk, setAddr_self, hc]
        exact Codes.of_lt (by decide)
      · rw [setAddr_of_ne hjk]
        exact hx.codes j hj
  · rw [← ok.inj h]
    exact hx

lemma freeEntries_ok_iff {a : ℕ} (ha : Entries c s₀ a) (hs : Loop s₀ s) (s' : State) :
    ((List.range NINDIRECT).foldlM (fun s j => freeEntry bfree s (s.word a j)) s = .ok s' ↔
      (List.range NINDIRECT).foldlM (fun s j => freeEntry Kernel.bfree s (s.word a j)) s = .ok s' ∧
        ∀ j ∈ List.range NINDIRECT, c (NDIRECT + j) = 0) ∧
    ((List.range NINDIRECT).foldlM (fun s j => freeEntry bfree s (s.word a j)) s = .ok s' → Loop s₀ s') := by
  have hword : ∀ u : State, Loop s₀ u → ∀ j, u.word a j = s₀.word a j := by
    intro u hu j
    unfold State.word
    rw [hu.data a ha.data]
  refine foldlM_ok_iff (I := Loop s₀) (fun j hj u u' hu => ?_) (fun j hj u u' hu h => ?_) hs s'
  · obtain ⟨v, hlt, hc⟩ := ha.codes j (mem_range.mp hj)
    rw [hword u hu]
    exact freeEntry_ok_iff hv hsize hu hc hlt
  · obtain ⟨v, hlt, hc⟩ := ha.codes j (mem_range.mp hj)
    rw [hword u hu] at h
    exact hu.freeEntry hv hsize hc hlt h

section

variable (ha : ip₀.addrs NDIRECT ≠ 0 → Entries c s₀ (ip₀.addrs NDIRECT))
include ha

lemma freeIndex_ok_iff
    (hx : Slots c s₀ ip₀ x) : (freeIndex bfree x = .ok y ↔ freeIndex Kernel.bfree x = .ok y ∧
      (ip₀.addrs NDIRECT ≠ 0 → ∀ j ∈ List.range NINDIRECT, c (NDIRECT + j) = 0)) ∧
    (freeIndex bfree x = .ok y → Loop s₀ y.1 ∧ y.2.inum = ip₀.inum) := by
  unfold freeIndex
  rw [hx.index]
  by_cases hi : ip₀.addrs NDIRECT ≠ 0
  · have he := ha hi
    have hwords := freeEntries_ok_iff hv hsize he hx.loop
    rw [if_pos hi, if_pos hi, bind_eq_ok, bind_eq_ok]
    refine ⟨⟨?_, ?_⟩, ?_⟩
    · rintro ⟨s1, h1, h⟩
      obtain ⟨s2, h2, hy⟩ := bind_eq_ok.mp h
      obtain ⟨hf1, hall⟩ := (hwords s1).1.mp h1
      have hf2 := ((bfree_ok_iff hv hsize ((hwords s1).2 h1) he.code he.lt_size).mp h2).1
      exact ⟨⟨s1, hf1, bind_eq_ok.mpr ⟨s2, hf2, congrArg Except.ok (ok.inj hy)⟩⟩, fun _ => hall⟩
    · rintro ⟨⟨s1, hf1, h⟩, hall⟩
      obtain ⟨s2, hf2, hy⟩ := bind_eq_ok.mp h
      have h1 := (hwords s1).1.mpr ⟨hf1, hall hi⟩
      have h2 := (bfree_ok_iff hv hsize ((hwords s1).2 h1) he.code he.lt_size).mpr ⟨hf2, rfl⟩
      exact ⟨s1, h1, bind_eq_ok.mpr ⟨s2, h2, congrArg Except.ok (ok.inj hy)⟩⟩
    · rintro ⟨s1, h1, h⟩
      obtain ⟨s2, h2, hy⟩ := bind_eq_ok.mp h
      rw [← ok.inj hy]
      exact ⟨((hwords s1).2 h1).bfree hv hsize he.code he.lt_size h2, hx.inum_eq⟩
  · rw [if_neg hi, if_neg hi]
    refine ⟨?_, fun h => ?_⟩
    · simp [hi]
    · rw [← ok.inj h]
      exact ⟨hx.loop, hx.inum_eq⟩

lemma itrunc_ok_iff
    (hx : Slots c s₀ ip₀ (s₀, ip₀)) : (itrunc s₀ ip₀ = .ok y ↔ Kernel.itrunc .stock s₀ ip₀ = .ok y ∧
      (∀ k ∈ List.range NDIRECT, c k = 0) ∧
      (ip₀.addrs NDIRECT ≠ 0 → ∀ j ∈ List.range NINDIRECT, c (NDIRECT + j) = 0)) ∧
    (itrunc s₀ ip₀ = .ok y → ∃ s1, Loop s₀ s1 ∧ y.1 = Kernel.iupdate s1 y.2 ∧ y.2.inum = ip₀.inum) := by
  have hslots := foldlM_ok_iff (f := freeSlot Kernel.bfree) (g := freeSlot bfree)
    (I := Slots c s₀ ip₀) (P := fun k => c k = 0) (l := List.range NDIRECT)
    (fun k hk u u' hu => freeSlot_ok_iff hv hsize hu (mem_range.mp hk))
    (fun k hk u u' hu h => hu.freeSlot hv hsize (mem_range.mp hk) h) hx
  rw [itrunc_eq, stock_itrunc_eq]
  unfold truncateWith
  rw [bind_eq_ok, bind_eq_ok]
  refine ⟨⟨?_, ?_⟩, ?_⟩
  · rintro ⟨x, h1, h⟩
    obtain ⟨z, h2, hz⟩ := bind_eq_ok.mp h
    obtain ⟨hf1, hall⟩ := (hslots x).1.mp h1
    obtain ⟨hf2, hrest⟩ := (freeIndex_ok_iff hv hsize ha ((hslots x).2 h1)).1.mp h2
    exact ⟨⟨x, hf1, bind_eq_ok.mpr ⟨z, hf2, congrArg Except.ok (ok.inj hz)⟩⟩, hall, hrest⟩
  · rintro ⟨⟨x, hf1, h⟩, hall, hrest⟩
    obtain ⟨z, hf2, hz⟩ := bind_eq_ok.mp h
    have h1 := (hslots x).1.mpr ⟨hf1, hall⟩
    have h2 := (freeIndex_ok_iff hv hsize ha ((hslots x).2 h1)).1.mpr ⟨hf2, hrest⟩
    exact ⟨x, h1, bind_eq_ok.mpr ⟨z, h2, congrArg Except.ok (ok.inj hz)⟩⟩
  · rintro ⟨x, h1, h⟩
    obtain ⟨z, h2, hz⟩ := bind_eq_ok.mp h
    obtain ⟨hloop, hinum⟩ := (freeIndex_ok_iff hv hsize ha ((hslots x).2 h1)).2 h2
    rw [← ok.inj hz]
    exact ⟨z.1, hloop, rfl, hinum⟩

end

end Loops

/-! Checked files. -/

namespace Packed

variable (h : Packed c s ip t jp m)
include h

lemma index_data (hi : ip.addrs NDIRECT ≠ 0) : s.sb.datastart ≤ ip.addrs NDIRECT ∧
    ip.addrs NDIRECT < s.sb.size ∧ t.used (ip.addrs NDIRECT) = true := by
  have howned := owned_index h.inv.owns (by rwa [h.plain.index])
  rwa [h.plain.index, h.plain.sb_eq] at howned

lemma used_eq (hb : b < s.sb.size) : t.used b = s.used b := by
  unfold State.used
  rw [h.plain.sb_eq, h.plain.disk _ (.inr (bmapstart_le_bblock _ _)) fun hi => ?_]
  have hlow := bblock_lt_datastart hb
  have hdata := (h.index_data hi).1
  omega

lemma valid : Valid s := by
  have hv := h.inv.valid
  have hsb := h.plain.sb_eq
  have hsuper := hsb ▸ hv.super_lt
  have hinode := hsb ▸ hv.inode_le
  have hdata := hsb ▸ hv.data_le
  refine ⟨?_, hsuper, hinode, hsb ▸ hv.size_le, hdata, fun b hb => ?_⟩
  · rw [← h.plain.disk 1 (.inl hsuper) fun hi => ?_, hv.sb_disk, hsb]
    have hdata := (h.index_data hi).1
    have hlow := bmapstart_lt_datastart s.sb
    omega
  · rw [← h.used_eq (hb.trans_le hdata)]
    exact hv.meta_used b (by rwa [hsb])

lemma tree_lt_size {n : ℕ × List ℕ} (hn : n ∈ stock.code.nodes) : tree t jp n < s.sb.size := by
  by_cases hz : tree t jp n = 0
  · rw [hz, h.size_eq]
    decide
  · rw [← h.plain.sb_eq]
    exact (h.inv.owns.owned n hn hz).2.1

lemma slots : Slots c s ip (s, ip) := by
  refine ⟨⟨rfl, h.valid.sb_disk, fun _ _ => rfl⟩, rfl, rfl, fun k hk => ?_⟩
  exact ⟨jp.addrs k, h.tree_lt_size (n := (k, [])) (slot_mem (L := .stock) hk.le),
    h.plain.direct k hk⟩

lemma entries (hi : ip.addrs NDIRECT ≠ 0) : Entries c s (ip.addrs NDIRECT) := by
  obtain ⟨hdata, hlt, -⟩ := h.index_data hi
  have hsmall : ip.addrs NDIRECT < 2 ^ 24 := hlt.trans_le (by rw [h.size_eq]; decide)
  refine ⟨hdata, Codes.of_lt hsmall, hlt, fun j hj =>
    ⟨t.word (ip.addrs NDIRECT) j, ?_, h.plain.word hi j hj⟩⟩
  have htree : tree t jp (NDIRECT, [j]) = t.word (ip.addrs NDIRECT) j := by
    rw [← h.plain.index] at hi ⊢
    exact tree_entry (L := .stock) hi j
  rw [← htree]
  exact h.tree_lt_size (entry_mem (L := .stock) hj)

lemma tree_eq (hc : ∀ bn, bn < MAXFILE → c bn = 0) (n : ℕ × List ℕ)
    (hn : n ∈ stock.code.nodes) : tree s ip n = tree t jp n := by
  have hentry : ∀ w v k, Codes (c k) w v → k < MAXFILE → w = v := by
    intro w v k hcode hk
    rw [hcode.eq, hc k hk, Nat.zero_mul, Nat.add_zero]
  refine table_congr stock.nodes_prefixClosed (fun k hk => ?_) (fun r ks j hj hne => ?_) n hn
  · have hlt : k < 13 := nodes_slot_lt hk
    by_cases hd : k < NDIRECT
    · exact hentry _ _ k (h.plain.direct k hd) (hd.trans (by decide))
    · obtain rfl : k = NDIRECT := by
        have : ¬ k < 12 := hd
        change k = 12
        omega
      exact h.plain.index.symm
  · -- the only index block of the stock tree is the one in the last slot
    have hjlt := nodes_index_lt hj (mem_append_right ks (mem_singleton.mpr rfl))
    obtain ⟨bn, -, hr, hp⟩ := hj
    dsimp only at hr hp
    have hroot : r = NDIRECT ∧ ks = [] := by
      by_cases hd : bn < NDIRECT
      · rw [show stock.code.path bn = (bn, []) from path_direct hd] at hp
        simp at hp
      · rw [show stock.code.path bn = (NDIRECT, [bn - NDIRECT]) from path_indirect hd] at hr hp
        refine ⟨hr, ?_⟩
        have hlen := hp.length_le
        simp only [length_append, length_singleton] at hlen
        exact eq_nil_of_length_eq_zero (by omega)
    obtain ⟨rfl, rfl⟩ := hroot
    have hidx : table jp.addrs t.word (NDIRECT, []) = ip.addrs NDIRECT := h.plain.index
    rw [hidx] at hne ⊢
    refine hentry _ _ _ (h.plain.word hne j hjlt) ?_
    have : j < 128 := hjlt
    change 12 + j < 140
    omega

lemma fileInv (hc : ∀ bn, bn < MAXFILE → c bn = 0) : FileInv .stock s ip m := by
  have ht := h.tree_eq hc
  refine ⟨h.valid, ⟨?_, fun n hn hne => ?_, h.inv.owns.separate.congr ht⟩, h.inv.le, fun n hn => ?_⟩
  · rw [← h.plain.sb_eq, ← h.plain.inum_eq]
    exact h.inv.owns.inode_lt
  · rw [ht n hn] at hne ⊢
    obtain ⟨h1, h2, h3⟩ := h.inv.owns.owned n hn hne
    rw [h.plain.sb_eq] at h1 h2
    exact ⟨h1, h2, h.used_eq h2 ▸ h3⟩
  · rw [ht n hn]
    exact h.inv.mapped n hn

end Packed

lemma blocksAt_eq (h : Packed c s ip t jp (nblk ip.size)) (hc : ∀ bn, bn < MAXFILE → c bn = 0) :
    blocksAt stock.code.nodes s ip = occupied s ip := by
  have hinv := h.fileInv hc
  have hleaf : ∀ bn, bn < nblk ip.size → tree s ip (path bn) = blockOf s ip bn := by
    intro bn hbn
    rw [h.blockOf_eq hbn, h.tree_eq hc _ (path_mem (h.lt_MAXFILE hbn))]
  ext b
  constructor
  · rintro ⟨hb, ⟨r, ks⟩, hn, rfl⟩
    obtain ⟨bn, hbn, hr, hp⟩ := (hinv.mapped _ hn).mp hb
    dsimp only at hr hp
    by_cases hd : bn < NDIRECT
    · rw [show stock.path bn = (bn, []) from path_direct hd] at hr hp
      refine .inl ⟨bn, hbn, ?_⟩
      rw [← hleaf bn hbn, path_direct hd, hr, prefix_nil.mp hp]
    · rw [show stock.path bn = (NDIRECT, [bn - NDIRECT]) from path_indirect hd] at hr hp
      rcases prefix_cons_iff.mp hp with rfl | ⟨l, rfl, hl⟩
      · rw [hr] at hb ⊢
        exact .inr ⟨hb, rfl⟩
      · refine .inl ⟨bn, hbn, ?_⟩
        rw [← hleaf bn hbn, path_indirect hd, hr, prefix_nil.mp hl]
  · rintro (⟨bn, hbn, rfl⟩ | ⟨hi, rfl⟩)
    · rw [← hleaf bn hbn]
      exact ⟨hinv.leaf_ne hbn, _, path_mem (h.lt_MAXFILE hbn), rfl⟩
    · exact ⟨hi, (NDIRECT, []), slot_mem (L := .stock) le_rfl, rfl⟩

lemma Packed.sums_zero_iff (h : Packed c s ip t jp m) :
    (∀ bn, bn < MAXFILE → c bn = 0) ↔ ∀ bn, bn < m → xorBytes (s.disk (blockOf s ip bn)) = 0 := by
  have hsum : ∀ bn, bn < m → (c bn = 0 ↔ xorBytes (s.disk (blockOf s ip bn)) = 0) := by
    intro bn hbn
    rw [h.sum bn hbn, h.disk_eq hbn, ← UInt8.toNat_inj]
    rfl
  constructor
  · exact fun hc bn hbn => (hsum bn hbn).mp (hc bn (h.lt_MAXFILE hbn))
  · intro hx bn hbn
    by_cases hm : bn < m
    · exact (hsum bn hm).mpr (hx bn hm)
    · refine h.plain.sum_absent hbn ?_
      by_contra hne
      exact hm ((h.inv.leaf_iff hbn).mp hne)

lemma Packed.truncates_iff (h : Packed c s ip t jp (nblk ip.size)) :
    Truncates s ip ↔ ∀ bn, bn < MAXFILE → c bn = 0 := by
  have hok := fun y => itrunc_ok_iff (y := y) h.valid h.size_eq h.entries h.slots
  constructor
  · rintro ⟨s', ip', hr, -⟩ bn hbn
    obtain ⟨-, hdirect, hindex⟩ := (hok (s', ip')).1.mp hr
    by_cases hd : bn < NDIRECT
    · exact hdirect bn (mem_range.mpr hd)
    · have hlt := index_lt hbn hd
      have hadd := Nat.add_sub_of_le (not_lt.mp hd)
      rw [← hadd]
      by_cases hi : ip.addrs NDIRECT ≠ 0
      · exact hindex hi _ (mem_range.mpr hlt)
      · exact h.plain.absent (not_ne_iff.mp hi) _ hlt
  · intro hc
    obtain ⟨s', ip', hr, hused, -⟩ := truncates_of_le (by decide) (h.fileInv hc)
      (le_trans h.inv.le (by decide))
    have hc' := (hok (s', ip')).1.mpr ⟨hr, fun k hk => hc k ?_, fun _ j hj => hc _ ?_⟩
    · obtain ⟨s1, hloop, hs', hinum⟩ := (hok (s', ip')).2 hc'
      refine ⟨s', ip', hc', ?_, fun b hb => ?_⟩
      · rw [← blocksAt_eq h hc]
        exact hused
      · have hlow := (h.fileInv hc).owns.inode_lt
        have hdata := h.valid.data_le
        have hmap := bmapstart_lt_datastart s.sb
        have hsize := h.size_eq
        dsimp only at hs' hinum
        rw [hs', Kernel.iupdate, hloop.sb_eq, hinum, logWrite_disk_of_ne (by omega)]
        exact hloop.data b (by omega)
    · exact (mem_range.mp hk).trans (by decide)
    · have hlt : j < 128 := mem_range.mp hj
      change 12 + j < 140
      omega

/-- `itrunc` frees the blocks of a checked file exactly when none of them has a checksum. -/
theorem checked_truncates_iff (h : NewFile s₀ ip₀) (hrun : Run step (fun _ _ => True) (s₀, ip₀) ws (s, ip)) :
    Truncates s ip ↔ ∀ bn, bn < nblk ip.size → xorBytes (s.disk (blockOf s ip bn)) = 0 := by
  obtain ⟨c, t, jp, hpack, -⟩ := run_written h hrun
  rw [hpack.truncates_iff]
  exact hpack.sums_zero_iff

/-- One block of zeros is freed. -/
theorem zeros_truncated : ∃ s₀ ip₀ s ip, NewFile s₀ ip₀ ∧
    Run step (fun _ _ => True) (s₀, ip₀) [writeFirst 0] (s, ip) ∧ ip.size = 512 ∧ Truncates s ip := by
  obtain ⟨s₀, ip₀, s, ip, hnew, hrun, hsize, hblock, -⟩ := exists_firstRun 0
  refine ⟨s₀, ip₀, s, ip, hnew, hrun, hsize, (checked_truncates_iff hnew hrun).mpr fun bn hbn => ?_⟩
  obtain rfl : bn = 0 := by
    rw [hsize] at hbn
    exact Nat.lt_one_iff.mp hbn
  rw [hblock, xorBytes_zero]

/-- One block with the checksum 7: freeing it asks for a block of the free map past the end of the
disk. -/
theorem checksum_not_truncated : ∃ s₀ ip₀ s ip, NewFile s₀ ip₀ ∧
    Run step (fun _ _ => True) (s₀, ip₀) [writeFirst (oneByte 7)] (s, ip) ∧ ip.size = 512 ∧
    ¬ Truncates s ip := by
  obtain ⟨s₀, ip₀, s, ip, hnew, hrun, hsize, hblock, c, t, jp, hpack⟩ := exists_firstRun (oneByte 7)
  refine ⟨s₀, ip₀, s, ip, hnew, hrun, hsize, fun htr => ?_⟩
  have hzero := hpack.sums_zero_iff.mp (hpack.truncates_iff.mp htr) 0 (by rw [hsize]; decide)
  rw [hblock] at hzero
  exact absurd hzero (by decide +kernel)

end LearnXv6.Checksum
