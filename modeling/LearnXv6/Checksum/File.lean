import LearnXv6.Checksum.Plain

/-! The entries of a checked file, and what one pass of `writei` does to them. -/
namespace LearnXv6.Checksum
open Function Fs Store Fs.Kernel

variable {s t : State} {ip jp : Inode} {b bn m off k : ℕ} {c : ℕ → ℕ} {src : ℕ → UInt8} {v : UInt8}
  {x : Block}

/-- The word that holds the address and the checksum of block `bn` of the file. -/
def entry (s : State) (ip : Inode) (bn : ℕ) : ℕ :=
  if bn < NDIRECT then ip.addrs bn else s.word (ip.addrs NDIRECT) (bn - NDIRECT)

def blockOf (s : State) (ip : Inode) (bn : ℕ) : ℕ := mask (entry s ip bn)

def sumOf (s : State) (ip : Inode) (bn : ℕ) : ℕ := entry s ip bn / 2 ^ 24

/-- Where the stock block map keeps the address of block `bn`. -/
abbrev path (bn : ℕ) : ℕ × List ℕ := Lab.stock.path bn

lemma path_direct (h : bn < NDIRECT) : path bn = (bn, []) := if_pos h

lemma path_indirect (h : ¬ bn < NDIRECT) : path bn = (NDIRECT, [bn - NDIRECT]) := if_neg h

lemma tree_direct (h : bn < NDIRECT) : tree t jp (path bn) = jp.addrs bn := by
  rw [path_direct h]
  rfl

lemma tree_indirect (h : ¬ bn < NDIRECT) (hne : jp.addrs NDIRECT ≠ 0) :
    tree t jp (path bn) = t.word (jp.addrs NDIRECT) (bn - NDIRECT) := by
  rw [path_indirect h]
  exact table_snoc_of_ne (show table jp.addrs t.word (NDIRECT, []) ≠ 0 from hne)

lemma tree_absent (h : ¬ bn < NDIRECT) (hz : jp.addrs NDIRECT = 0) : tree t jp (path bn) = 0 := by
  rw [path_indirect h]
  unfold tree table
  rw [hz, descend_zero]

lemma index_lt (h : bn < MAXFILE) (hd : ¬ bn < NDIRECT) : bn - NDIRECT < NINDIRECT := by
  have h140 : bn < 140 := h
  have h12 := hd
  change bn - 12 < 128
  omega

section

variable (hp : Plain c s ip t jp)
include hp

lemma Plain.codes (hbn : bn < MAXFILE) (h : bn < NDIRECT ∨ ip.addrs NDIRECT ≠ 0) :
    Codes (c bn) (entry s ip bn) (tree t jp (path bn)) := by
  unfold entry
  by_cases hd : bn < NDIRECT
  · rw [if_pos hd, tree_direct hd]
    exact hp.direct bn hd
  · have hne := h.resolve_left hd
    rw [if_neg hd, tree_indirect hd (by rwa [hp.index]), hp.index]
    have hcode := hp.word hne _ (index_lt hbn hd)
    rwa [Nat.add_sub_of_le (not_lt.mp hd)] at hcode

lemma Plain.index_of_mapped (hne : tree t jp (path bn) ≠ 0) : bn < NDIRECT ∨ ip.addrs NDIRECT ≠ 0 := by
  by_contra hc
  rw [not_or, not_ne_iff] at hc
  exact hne (tree_absent hc.1 (hp.index.trans hc.2))

lemma Plain.sum_absent (hbn : bn < MAXFILE) (hz : tree t jp (path bn) = 0) : c bn = 0 := by
  by_cases h : bn < NDIRECT ∨ ip.addrs NDIRECT ≠ 0
  · exact (hp.codes hbn h).zero hz
  · rw [not_or, not_ne_iff] at h
    have habs := hp.absent h.2 _ (index_lt hbn h.1)
    rwa [Nat.add_sub_of_le (not_lt.mp h.1)] at habs

lemma Plain.leaf_ne_index (ho : Owns .stock t jp) (hbn : bn < MAXFILE)
    (hi : ip.addrs NDIRECT ≠ 0) : tree t jp (path bn) ≠ ip.addrs NDIRECT := by
  have hroot := hp.index
  have hmem : (NDIRECT, [] ++ [0]) ∈ Lab.stock.code.nodes := Lab.entry_mem (L := .stock) (by decide)
  rw [← hroot] at hi ⊢
  exact (Kernel.leaf_ne_parent (n := (NDIRECT, [])) ho hbn hmem hi).symm

lemma Plain.leaf_disk (ho : Owns .stock t jp) (hbn : bn < MAXFILE)
    (hne : tree t jp (path bn) ≠ 0) : t.disk (tree t jp (path bn)) = s.disk (tree t jp (path bn)) := by
  have hdata := (ho.owned _ (Lab.path_mem hbn) hne).1
  have hlow := Kernel.bmapstart_lt_datastart t.sb
  refine hp.disk _ (.inr ?_) (hp.leaf_ne_index ho hbn)
  rw [← hp.sb_eq]
  exact hlow.le.trans hdata

lemma Plain.logWrite (hne : ip.addrs NDIRECT ≠ 0 → b ≠ ip.addrs NDIRECT) :
    Plain c (s.logWrite b x) ip (t.logWrite b x) jp := by
  refine ⟨hp.sb_eq, hp.inode_eq, hp.direct, hp.index, fun hi k hk => ?_, hp.absent,
    fun d hd hdi => ?_⟩
  · unfold State.word
    rw [logWrite_disk_of_ne (hne hi).symm, logWrite_disk_of_ne (hne hi).symm]
    exact hp.word hi k hk
  · by_cases hdb : d = b
    · rw [hdb, logWrite_disk_self, logWrite_disk_self]
    · rw [logWrite_disk_of_ne hdb, logWrite_disk_of_ne hdb]
      exact hp.disk d hd hdi

end

lemma tree_eq_entry (hi : bn < NDIRECT ∨ ip.addrs NDIRECT ≠ 0) : tree s ip (path bn) = entry s ip bn := by
  unfold entry
  split
  · rename_i hd
    exact tree_direct hd
  · rename_i hd
    exact tree_indirect hd (hi.resolve_left hd)

lemma bmap_of_entry (hbn : bn < MAXFILE) (htype : ip.type = T_CHECKED)
    (hi : bn < NDIRECT ∨ ip.addrs NDIRECT ≠ 0) (hne : entry s ip bn ≠ 0) :
    bmap s ip bn = .ok (blockOf s ip bn, s, ip) := by
  have htree : tree s ip (path bn) = entry s ip bn := tree_eq_entry hi
  unfold bmap
  rw [Kernel.bmap_of_mapped hbn (by rwa [htree]), htree]
  exact congrArg Except.ok (Prod.ext (if_pos htype) rfl)

/-! The invariant. -/

/-- A checked file of `m` blocks: the ordinary file, and the XOR of each of its blocks in the entry. -/
structure Packed (c : ℕ → ℕ) (s : State) (ip : Inode) (t : State) (jp : Inode) (m : ℕ) : Prop where
  type_eq : ip.type = T_CHECKED
  size_eq : s.sb.size = FSSIZE
  plain : Plain c s ip t jp
  inv : FileInv .stock t jp m
  sum : ∀ bn, bn < m → c bn = (xorBytes (t.disk (tree t jp (path bn)))).toNat

namespace Packed

variable (h : Packed c s ip t jp m)
include h

lemma lt_MAXFILE (hbn : bn < m) : bn < MAXFILE := hbn.trans_le h.inv.le

lemma size_le : t.sb.size ≤ 2 ^ 24 := by
  rw [h.plain.sb_eq, h.size_eq]
  decide

lemma codes (hbn : bn < m) : Codes (c bn) (entry s ip bn) (tree t jp (path bn)) :=
  h.plain.codes (h.lt_MAXFILE hbn) (h.plain.index_of_mapped (h.inv.leaf_ne hbn))

lemma blockOf_eq (hbn : bn < m) : blockOf s ip bn = tree t jp (path bn) := (h.codes hbn).mask_eq

lemma disk_eq (hbn : bn < m) : s.disk (blockOf s ip bn) = t.disk (tree t jp (path bn)) := by
  rw [h.blockOf_eq hbn]
  exact (h.plain.leaf_disk h.inv.owns (h.lt_MAXFILE hbn) (h.inv.leaf_ne hbn)).symm

lemma entry_ne (hbn : bn < m) : entry s ip bn ≠ 0 :=
  mt (h.codes hbn).eq_zero_iff.mp (h.inv.leaf_ne hbn)

lemma sumOf_eq (hbn : bn < m) : sumOf s ip bn = (xorBytes (s.disk (blockOf s ip bn))).toNat := by
  rw [h.disk_eq hbn, ← h.sum bn hbn]
  exact (h.codes hbn).div_eq

lemma mask_eq_iff (hb : b < MAXFILE) (hi : b < NDIRECT ∨ ip.addrs NDIRECT ≠ 0) (hbn : bn < m) :
    mask (entry s ip b) = tree t jp (path bn) ↔ b = bn := by
  rw [(h.plain.codes hb hi).mask_eq]
  refine ⟨fun he => ?_, fun he => by rw [he]⟩
  have hne := he ▸ h.inv.leaf_ne hbn
  exact h.inv.leaf_inj ((h.inv.leaf_iff hb).mp hne) hbn he

lemma findDirect_eq (hbn : bn < m) :
    findDirect ip (tree t jp (path bn)) = if bn < NDIRECT then some bn else none := by
  have hiff : ∀ i, i < NDIRECT → (mask (ip.addrs i) = tree t jp (path bn) ↔ i = bn) := by
    intro i hi
    have hent : entry s ip i = ip.addrs i := if_pos hi
    rw [← hent]
    exact h.mask_eq_iff (hi.trans (by decide)) (.inl hi) hbn
  unfold findDirect
  split
  · rename_i hd
    rw [List.find?_range_eq_some]
    refine ⟨by simpa using (hiff bn hd).mpr rfl, List.mem_range.mpr hd, fun j hj => ?_⟩
    have hne := mt (hiff j (hj.trans hd)).mp hj.ne
    simpa using hne
  · rename_i hd
    rw [List.find?_range_eq_none]
    intro i hi
    have hne := mt (hiff i hi).mp (by omega)
    simpa using hne

lemma findIndex_eq (hbn : bn < m) (hd : ¬ bn < NDIRECT) : ((List.range NINDIRECT).find? fun i =>
      mask (s.word (ip.addrs NDIRECT) i) = tree t jp (path bn)) = some (bn - NDIRECT) := by
  have hne := (h.plain.index_of_mapped (h.inv.leaf_ne hbn)).resolve_left hd
  have hiff : ∀ i, i < NINDIRECT →
      (mask (s.word (ip.addrs NDIRECT) i) = tree t jp (path bn) ↔ NDIRECT + i = bn) := by
    intro i hi
    have hent : entry s ip (NDIRECT + i) = s.word (ip.addrs NDIRECT) i := by
      unfold entry
      rw [if_neg (by omega), Nat.add_sub_cancel_left]
    have hlt : NDIRECT + i < MAXFILE := by
      have : i < 128 := hi
      change 12 + i < 140
      omega
    rw [← hent]
    exact h.mask_eq_iff hlt (.inr hne) hbn
  have hlt := index_lt (h.lt_MAXFILE hbn) hd
  rw [List.find?_range_eq_some]
  refine ⟨by simpa using (hiff _ hlt).mpr (by omega), List.mem_range.mpr hlt, fun j hj => ?_⟩
  have hn := mt (hiff j (hj.trans hlt)).mp (by omega)
  simpa using hn

lemma plain_setEntry (hbn : bn < m) (v : UInt8) :
    Plain (update c bn v.toNat) (setEntry s ip (tree t jp (path bn)) (extend v)).1
      (setEntry s ip (tree t jp (path bn)) (extend v)).2 t jp := by
  have hp := h.plain
  have hcode := h.codes hbn
  have hne := h.inv.leaf_ne hbn
  have hnew : Codes v.toNat (pack (tree t jp (path bn)) (extend v)) (tree t jp (path bn)) :=
    ⟨pack_eq hcode.lt v, hcode.lt, fun hz => absurd hz hne⟩
  unfold setEntry
  rw [h.findDirect_eq hbn]
  by_cases hd : bn < NDIRECT
  · simp only [if_pos hd]
    have hindex : (ip.setAddr bn (pack (tree t jp (path bn)) (extend v))).addrs NDIRECT =
        ip.addrs NDIRECT := setAddr_of_ne hd.ne'
    have hother : ∀ k, update c bn v.toNat (NDIRECT + k) = c (NDIRECT + k) := by
      intro k
      exact update_of_ne (by omega) _ _
    refine ⟨hp.sb_eq, hp.inode_eq, fun k hk => ?_, by rw [hindex]; exact hp.index, ?_, ?_, ?_⟩
    · by_cases hkb : k = bn
      · rw [hkb, setAddr_self, update_self, ← tree_direct (t := t) hd]
        exact hnew
      · rw [setAddr_of_ne hkb, update_of_ne hkb]
        exact hp.direct k hk
    · intro hi k hk
      rw [hindex] at hi ⊢
      rw [hother]
      exact hp.word hi k hk
    · intro hi k hk
      rw [hindex] at hi
      rw [hother]
      exact hp.absent hi k hk
    · rw [hindex]
      exact hp.disk
  · have hi := (hp.index_of_mapped hne).resolve_left hd
    simp only [if_neg hd, h.findIndex_eq hbn hd]
    have hpos : 4 * (bn - NDIRECT) + 4 ≤ BSIZE := by
      have hlt := index_lt (h.lt_MAXFILE hbn) hd
      rw [NINDIRECT_eq] at hlt
      rw [BSIZE_eq]
      omega
    refine ⟨hp.sb_eq, hp.inode_eq, fun k hk => ?_, hp.index, fun _ k hk => ?_,
      fun hz => absurd hz hi, fun b hb hbi => ?_⟩
    · rw [update_of_ne (by omega)]
      exact hp.direct k hk
    · unfold State.word
      rw [logWrite_disk_self, Block.word_setWord hpos]
      by_cases hkb : k = bn - NDIRECT
      · rw [if_pos hkb, Nat.mod_eq_of_lt (pack_lt _ _), hkb, Nat.add_sub_of_le (not_lt.mp hd),
          update_self, ← hp.index]
        change Codes _ _ (t.word (jp.addrs NDIRECT) (bn - NDIRECT))
        rw [← tree_indirect hd (by rwa [hp.index])]
        exact hnew
      · rw [if_neg hkb, update_of_ne (by omega)]
        exact hp.word hi k hk
    · rw [logWrite_disk_of_ne (hbi hi)]
      exact hp.disk b hb hbi

end Packed

end LearnXv6.Checksum
