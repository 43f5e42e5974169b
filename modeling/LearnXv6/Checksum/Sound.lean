import LearnXv6.Checksum.File
import LearnXv6.Fs.Room
import LearnXv6.Log.Inside

/-! A file of any type in a sound file system: what the block map does for it, and when it runs out of
blocks. -/
namespace LearnXv6.Checksum
open Store Fs Fs.Kernel Kernel
open Log (Ready)

variable {s s₁ t : State} {ip ip₁ jp : Inode} {b bn m n off w : ℕ} {c : ℕ → ℕ} {src : ℕ → UInt8}

/-! The file. -/

/-- A file in the file system that `mkfs` makes; the entries carry checksums if it is checked. -/
structure Sound (s : State) (ip : Inode) : Prop where
  sb_eq : s.sb = Log.stock
  file : ∃ c t jp, (ip.type ≠ T_CHECKED → c = fun _ => 0) ∧ Plain c s ip t jp ∧ Valid t ∧
    Owns .stock t jp

lemma Plain.disk_of_owns (hp : Plain c s ip t jp) (ho : Owns .stock t jp)
    (h : b < s.sb.inodestart ∨ s.sb.bmapstart ≤ b) (hlow : b < s.sb.datastart) : t.disk b = s.disk b := by
  refine hp.disk b h fun hne he => ?_
  have hdata := (owned_index ho (hp.index ▸ hne)).1
  rw [hp.index, hp.sb_eq] at hdata
  omega

lemma Plain.used_eq (hp : Plain c s ip t jp) (ho : Owns .stock t jp) (hb : b < s.sb.size) :
    t.used b = s.used b := by
  unfold State.used
  rw [hp.sb_eq, hp.disk_of_owns ho (.inr (bmapstart_le_bblock _ _)) (bblock_lt_datastart hb)]

lemma Plain.valid (hp : Plain c s ip t jp) (hv : Valid t) (ho : Owns .stock t jp) : Valid s := by
  have hsb := hp.sb_eq
  have hone := hsb ▸ hv.super_lt
  have hdata := hsb ▸ hv.data_le
  have hlow := bmapstart_lt_datastart s.sb
  have hle := hsb ▸ hv.inode_le
  refine ⟨?_, hone, hle, hsb ▸ hv.size_le, hdata, fun b hb => ?_⟩
  · rw [← hp.disk_of_owns ho (.inl hone) (by omega), ← hsb]
    exact hv.sb_disk
  · rw [← hp.used_eq ho (hb.trans_le hdata)]
    exact hv.meta_used b (hsb ▸ hb)

lemma Sound.ready (h : Sound s ip) : Ready s ip := by
  obtain ⟨c, t, jp, -, hp, hv, ho⟩ := h.file
  refine ⟨hp.valid hv ho, by rw [h.sb_eq]; decide, fun hne => ?_⟩
  have hindex := owned_index ho (hp.index ▸ hne)
  rw [hp.index, hp.sb_eq] at hindex
  exact ⟨hindex.1, hindex.2.1, (hp.used_eq ho hindex.2.1).symm.trans hindex.2.2⟩

/-- The block that the lab's `bmap` returns for the entry `w`. -/
def address (ip : Inode) (w : ℕ) : ℕ := if ip.type = T_CHECKED then mask w else w

/-- The block map leaves a file with a data block for `bn`. -/
structure MappedAt (s : State) (ip : Inode) (bn w : ℕ) : Prop where
  sound : Sound s ip
  path : bn < NDIRECT ∨ ip.addrs NDIRECT ≠ 0
  entry_eq : entry s ip bn = w
  ne_zero : w ≠ 0
  data : s.sb.datastart ≤ address ip w ∧ address ip w < s.sb.size
  ne_index : ip.addrs NDIRECT ≠ 0 → address ip w ≠ ip.addrs NDIRECT
  index : ip.type = T_CHECKED → findDirect ip (mask w) = none → ip.addrs NDIRECT ≠ 0

lemma Sound.bmap (h : Sound s ip) (hbn : bn < MAXFILE)
    (hb : Kernel.bmap .stock s ip bn = .ok (w, s₁, ip₁)) :
    MappedAt s₁ ip₁ bn w ∧ s₁.sb = s.sb ∧ ip₁.type = ip.type := by
  obtain ⟨c, t, jp, hc, hp, hv, ho⟩ := h.file
  have hsize : t.sb.size ≤ 2 ^ 24 := by
    rw [hp.sb_eq, h.sb_eq]
    decide
  obtain ⟨⟨v, t1, jp1⟩, ht, hcode, hp1⟩ := (hp.bmap hv ho hsize hbn).of_ok hb
  obtain ⟨hv1, ho1, hg, htree, hne⟩ := bmap_spec hv ho hbn ht
  dsimp only at hcode hp1
  have hsb : s₁.sb = s.sb := by rw [← hp1.sb_eq, hg.sb_eq, hp.sb_eq]
  have htype : ip₁.type = ip.type := by rw [← hp1.type_eq, hg.inode_eq, ← hp.type_eq]
  have haddr : address ip₁ w = v := by
    unfold address
    split
    · exact hcode.mask_eq
    · rename_i hn
      rw [hcode.eq, hc (by rwa [← htype]), Nat.zero_mul, Nat.add_zero]
  have hdata := ho1.owned _ (Lab.path_mem hbn) (by rwa [htree])
  rw [htree, hp1.sb_eq] at hdata
  have hpath := hp1.index_of_mapped (by rwa [htree])
  have hentry : entry s₁ ip₁ bn = w := by
    have hcodes := hp1.codes hbn hpath
    rw [htree] at hcodes
    rw [hcodes.eq, hcode.eq]
  refine ⟨⟨⟨hsb.trans h.sb_eq, c, t1, jp1, fun hn => hc (by rwa [← htype]), hp1, hv1, ho1⟩, hpath,
    hentry, fun hz => hne (hcode.eq_zero_iff.mp hz), ?_, fun hi => ?_, fun hchecked hnone => ?_⟩, hsb,
    htype⟩
  · rw [haddr]
    exact ⟨hdata.1, hdata.2.1⟩
  · rw [haddr, ← htree]
    exact hp1.leaf_ne_index ho1 hbn hi
  · refine hpath.resolve_left fun hd => ?_
    rw [entry, if_pos hd] at hentry
    have hmem := List.find?_eq_none.mp hnone bn (List.mem_range.mpr hd)
    rw [hentry] at hmem
    simp at hmem

/-! Free blocks. -/

/-- The blocks that `bmap` has to allocate for block `bn` of the file. -/
def missing (s : State) (ip : Inode) (bn : ℕ) : ℕ :=
  if bn < NDIRECT then if ip.addrs bn = 0 then 1 else 0
  else if ip.addrs NDIRECT = 0 then 2
  else if s.word (ip.addrs NDIRECT) (bn - NDIRECT) = 0 then 1 else 0

lemma entry_fails_iff (x : ℕ × State × Inode) : Fails (do
    let (addr, s) ← Kernel.indirectEntry x.2.1 x.1 (bn - NDIRECT)
    (.ok (addr, s, x.2.2) : Except Kernel.Panic _)) ↔
    x.2.1.word x.1 (bn - NDIRECT) = 0 ∧ free x.2.1 = ∅ := by
  rw [fails_bind, indirectEntry_fails_iff]
  simp [fails_ok]

lemma bmap_fails_iff (hv : Valid s) (hbn : bn < MAXFILE) :
    Fails (Kernel.bmap .stock s ip bn) ↔ (free s).card < missing s ip bn := by
  rw [bmap_eq_walk hbn]
  unfold missing
  by_cases hd : bn < NDIRECT
  · rw [if_pos hd, show Lab.stock.path bn = (bn, []) from path_direct hd, walk_nil,
      addrEntry_fails_iff]
    by_cases hz : ip.addrs bn = 0
    · simp [hz]
    · simp [hz]
  rw [if_neg hd, show Lab.stock.path bn = (NDIRECT, [bn - NDIRECT]) from path_indirect hd,
    walk_single]
  by_cases hz : ip.addrs NDIRECT = 0
  · rw [if_pos hz]
    cases hb : balloc s with
    | error e =>
      have hempty := free_eq_empty hb
      rw [fails_bind, addrEntry_fails_iff]
      simp [hz, hempty]
    | ok x =>
      obtain ⟨f, s₁⟩ := x
      have hf := hv.balloc hb
      have hmem := mem_free.mpr ⟨hf.lt_size, hf.unused⟩
      have hone : Kernel.addrEntry s ip NDIRECT = .ok (f, s₁, ip.setAddr NDIRECT f) := by
        unfold Kernel.addrEntry
        rw [if_pos hz, hb]
        rfl
      have hzero : s₁.word f (bn - NDIRECT) = 0 := by
        unfold State.word
        rw [hf.zero, Block.word_zero]
      have hcard := Finset.card_erase_add_one hmem
      rw [hone, ok_bind, entry_fails_iff (f, s₁, ip.setAddr NDIRECT f)]
      dsimp only
      rw [free_fresh hf, ← Finset.card_eq_zero]
      simp only [hzero, true_and]
      omega
  · have hsame : Kernel.addrEntry s ip NDIRECT = .ok (ip.addrs NDIRECT, s, ip) := if_neg hz
    rw [if_neg hz, hsame, ok_bind, entry_fails_iff (ip.addrs NDIRECT, s, ip)]
    by_cases hw : s.word (ip.addrs NDIRECT) (bn - NDIRECT) = 0
    · simp [hw]
    · simp [hw]

end LearnXv6.Checksum
