import LearnXv6.Fs.ByteArray
import LearnXv6.Fs.Mkfs.Build

/-! The kernel on a finished image: `bmap` and `readi` against the blocks `iappend` wrote. -/
namespace LearnXv6.Fs.Mkfs
open Store Kernel List

variable {L : Lab} {s s' : State} {c : ℕ → List UInt8} {t : ℕ → List (ℕ × ℕ)} {j b : ℕ}
  {d : ℕ → Devsw} {calls : List Call} {r : State × (ℕ → List (ℕ × ℕ))}

/-- The kernel after it has read the super block of the image. -/
def boot (s : State) (d : ℕ → Devsw) : Kernel.State := ⟨s.sect, Superblock.read (s.sect 1), d⟩

/-- The finished image: the calls, then the free map. -/
def image (L : Lab) (calls : List Call) : Except Abort (State × (ℕ → List (ℕ × ℕ))) := do
  let (s, t) ← build L calls
  let s ← balloc L s s.freeblock
  .ok (s, t)

lemma sb_fits (L : Lab) : (sb L).Fits := by
  unfold Superblock.Fits
  cases L <;> decide

structure Finished (L : Lab) (s s' : State) : Prop where
  super : s'.sect 1 = Superblock.write 0 (sb L)
  bit : ∀ b, b < L.FSSIZE → (s'.sect ((sb L).bblock b)).bit (b % BPB) = decide (b < s.freeblock)
  sect_eq : ∀ b, b ≠ (sb L).bmapstart → s'.sect b = s.sect b
  freeblock_eq : s'.freeblock = s.freeblock
  freeinode_eq : s'.freeinode = s.freeinode

lemma balloc_spec (h : Linked L s c t)
    (hbitmap : ∀ b, (sb L).bmapstart ≤ b → b < nmeta L → s.sect b = 0) (hr : balloc L s s.freeblock = .ok s') :
    Finished L s s' := by
  have hlay := layout L
  unfold balloc at hr
  obtain ⟨hused, hr⟩ := then_eq_ok.mp hr
  simp only [Except.ok.injEq] at hr
  subst hr
  have hother : ∀ b v, b ≠ (sb L).bmapstart → (wsect s (sb L).bmapstart v).sect b = s.sect b := by
    intro b v hb
    rw [wsect_sect (by omega), Function.update_of_ne hb]
  refine ⟨?_, ?_, fun b hb => hother b _ hb, rfl, rfl⟩
  · rw [hother 1 _ (by omega), h.inv.super]
  · intro b hb
    have hmod : b % BPB < BPB := Nat.mod_lt _ (by decide)
    by_cases hq : b / BPB = 0
    · have hblt : b < BPB := by
        have := Nat.div_add_mod b BPB
        rw [hq] at this
        omega
      have hbb : (sb L).bblock b = (sb L).bmapstart := by
        simp only [Superblock.bblock, hq]
        omega
      rw [hbb, wsect_sect (by omega), Function.update_self,
        Store.Block.bit_foldl_setBit (by rw [Nat.mul_comm]; exact hused.le),
        Nat.mod_eq_of_lt hblt]
    · -- the further bitmap blocks are not written, and `balloc` used no block they cover
      have hbb : (sb L).bblock b ≠ (sb L).bmapstart := by
        simp only [Superblock.bblock]
        omega
      have hbl : (sb L).bblock b < nmeta L := by
        rw [← datastart_eq]
        exact bblock_lt_datastart hb
      have hbge := bmapstart_le_bblock (sb L) b
      rw [hother _ _ hbb, hbitmap _ hbge hbl, Store.Block.bit_zero]
      have hge : BPB ≤ b := by
        by_contra hc
        exact hq (Nat.div_eq_of_lt (by omega))
      have hbp : BSIZE * 8 = BPB := rfl
      symm
      rw [decide_eq_false_iff_not]
      omega

section Boot

variable (h : Linked L s c t) (hf : Finished L s s')
include h hf

omit h in
lemma boot_sb : (boot s' d).sb = sb L := by
  simp only [boot, hf.super, Superblock.read_write (sb_fits L)]

omit h in
lemma boot_used (hb : b < L.FSSIZE) : (boot s' d).used b = decide (b < s.freeblock) := by
  rw [Kernel.State.used, boot_sb hf]
  exact hf.bit b hb

lemma boot_valid : Valid (boot s' d) := by
  have hsb : (boot s' d).sb = sb L := boot_sb hf
  have hlay := layout L
  have hlow := h.inv.nmeta_le
  have hsize : (sb L).size = L.FSSIZE := rfl
  refine ⟨rfl, ?_, ?_, ?_, ?_, ?_⟩
  · rw [hsb]
    omega
  · rw [hsb]
    omega
  · rw [hsb, hsize]
    omega
  · rw [hsb, datastart_eq, hsize]
    omega
  · intro b hb
    rw [hsb, datastart_eq] at hb
    rw [boot_used hf (by omega)]
    exact decide_eq_true (by omega)

omit h in
lemma boot_dinodes (hj : j < inodes) : dinodes L s' j = dinodes L s j := by
  have hb := iblock_facts hj L
  rw [dinodes, hf.sect_eq _ (by omega), dinodes]

omit h in
lemma iload_dinode (hj : j < inodes) : (iload (boot s' d) j).dinode = dinodes L s j := by
  rw [← boot_dinodes hf hj]
  simp only [iload, boot_sb hf, Kernel.Inode.dinode]
  rfl

lemma boot_sect {n : Node} (hn : n ∈ allNodes L) (hne : forest s (dinodes L s) n ≠ 0) :
    s'.sect (forest s (dinodes L s) n) = s.sect (forest s (dinodes L s) n) := by
  have := (h.inv.owned n hn hne).1
  have hlay := layout L
  exact hf.sect_eq _ (by omega)

variable (hj : j < inodes)
include hj

lemma boot_tree (n : ℕ × List ℕ) (hn : n ∈ L.code.nodes) :
    tree (boot s' d) (iload (boot s' d) j) n = forest s (dinodes L s) ((j, n.1), n.2) := by
  have hroot : (iload (boot s' d) j).addrs = (dinodes L s j).addrs :=
    congrArg Dinode.addrs (iload_dinode hf hj)
  have ht : ∀ m ∈ allNodes L, forest s' (dinodes L s) m = forest s (dinodes L s) m := by
    apply table_congr (allNodes_prefixClosed L) (fun _ _ => rfl)
    intro r ks k hm hne
    exact congrArg (fun v : Block => v.word k)
      (boot_sect h hf (allNodes_prefixClosed L _ _ _ hm) hne)
  rw [← ht _ ⟨hj, hn⟩, tree, hroot]
  rfl

lemma boot_fileInv : FileInv L (boot s' d) (iload (boot s' d) j) (min (nblk (c j).length) (reach L)) := by
  have htree := boot_tree (d := d) h hf hj
  have hsb : (boot s' d).sb = sb L := boot_sb hf
  have hfree := h.free_le
  have hsize : (sb L).size = L.FSSIZE := rfl
  refine ⟨boot_valid h hf, ⟨?_, ?_, ?_⟩, (min_le_right _ _).trans (reach_le L), ?_⟩
  · rw [hsb]
    exact iblock_lt hj
  · intro n hn hne
    rw [htree n hn] at hne ⊢
    obtain ⟨h1, h2⟩ := h.inv.owned _ (show ((j, n.1), n.2) ∈ allNodes L from ⟨hj, hn⟩) hne
    rw [hsb, datastart_eq, hsize, boot_used hf (by omega)]
    exact ⟨h1, by omega, decide_eq_true h2⟩
  · intro m hm n hn he hne
    rw [htree m hm] at he hne
    rw [htree n hn] at he
    have hmn := h.inv.separate _ (show ((j, m.1), m.2) ∈ allNodes L from ⟨hj, hm⟩) _
      (show ((j, n.1), n.2) ∈ allNodes L from ⟨hj, hn⟩) he hne
    simp only [Prod.mk.injEq, true_and] at hmn
    exact Prod.ext hmn.1 hmn.2
  · intro n hn
    rw [htree n hn]
    exact (h.holds j hj).mapped n hn

omit h in
lemma iload_size : (iload (boot s' d) j).size = (dinodes L s j).size :=
  congrArg Dinode.size (iload_dinode hf hj)

omit h in
lemma iload_type : (iload (boot s' d) j).type = (dinodes L s j).type :=
  congrArg Dinode.type (iload_dinode hf hj)

lemma boot_fileByte {i : ℕ} (hi : i < (c j).length) (hr : i / BSIZE < reach L) :
    fileByte L (boot s' d) (iload (boot s' d) j) i = (c j).getD i 0 := by
  have hmem := leaf_mem (j := j) (L := L) hj (hr.trans_le (reach_le L))
  have hbn : i / BSIZE < nblk (c j).length := by
    rw [lt_nblk_iff]
    have := Nat.div_mul_le_self i BSIZE
    omega
  rw [fileByte, boot_tree h hf hj _ (Lab.path_mem (hr.trans_le (reach_le L)))]
  change (s'.sect (forest s (dinodes L s) (leaf L j (i / BSIZE)))).byte (i % BSIZE) = _
  rw [boot_sect h hf hmem ((h.holds j hj).leaf_ne hbn hr)]
  exact (h.holds j hj).data i hi hr

lemma boot_content (hsize : (dinodes L s j).size = (c j).length) (hr : nblk (c j).length ≤ reach L) :
    content L (boot s' d) (iload (boot s' d) j) = c j := by
  apply ext_getElem
  · rw [content_length, iload_size hf hj, hsize]
  · intro i h1 h2
    have hbn : i / BSIZE < nblk (c j).length := by
      rw [lt_nblk_iff]
      have := Nat.div_mul_le_self i BSIZE
      omega
    simp only [content, getElem_map, getElem_range]
    rw [boot_fileByte h hf hj h2 (hbn.trans_le hr), getD_eq_getElem _ _ h2]

end Boot

/-! Agreement of `bmap` with `iappend`. -/

/-- The kernel finds the file `c` in inode `ip`: `bmap` leads, without allocating, to the sectors
that `t` lists for each block, and `readi` returns the bytes. -/
structure Agrees (L : Lab) (k : Kernel.State) (ip : Kernel.Inode) (t : List (ℕ × ℕ))
    (c : List UInt8) : Prop where
  size_eq : ip.size = c.length
  maps : ∀ bn, bn < nblk c.length →
    ∃ x, (bn, x) ∈ t ∧ (∀ y, (bn, y) ∈ t → y = x) ∧ bmap L k ip bn = .ok (x, k, ip)
  reads : ∀ off n, off ≤ c.length → off + n < 2 ^ 32 →
    readi L k ip off n = .ok ((min n (c.length - off) : ℕ), (c.drop off).take n, k, ip)

section Agrees

variable (hf : Finished L s s') (hj : j < inodes)
include hf hj

lemma agrees_of_le (h : Linked L s c t) (hs : (dinodes L s j).size = (c j).length)
    (hty : (dinodes L s j).type ≠ T_DEV) (hr : nblk (c j).length ≤ reach L) :
    Agrees L (boot s' d) (iload (boot s' d) j) (t j) (c j) := by
  have hinv := boot_fileInv (d := d) h hf hj
  rw [min_eq_left hr] at hinv
  have hsize : (iload (boot s' d) j).size = (c j).length := (iload_size hf hj).trans hs
  refine ⟨hsize, ?_, ?_⟩
  · intro bn hbn
    have hbr := hbn.trans_le hr
    have hmax := hbr.trans_le (reach_le L)
    have hleaf : tree (boot s' d) (iload (boot s' d) j) (L.path bn) =
        forest s (dinodes L s) (leaf L j bn) := boot_tree h hf hj _ (Lab.path_mem hmax)
    obtain ⟨x, hx⟩ := (h.holds j hj).traced bn hbn
    refine ⟨x, hx, ?_, ?_⟩
    · intro y hy
      rw [← ((h.holds j hj).wrote bn x hx).2 hbr, ((h.holds j hj).wrote bn y hy).2 hbr]
    · rw [bmap_of_mapped hmax (hinv.leaf_ne hbn), hleaf, ((h.holds j hj).wrote bn x hx).2 hbr]
  · intro off n hoff hn
    have hdev : (iload (boot s' d) j).type ≠ T_DEV := by
      rw [iload_type hf hj]
      exact hty
    rw [readi_spec hdev (by rw [hsize]; exact hr.trans (reach_le L))
      (by rw [hsize]; exact fun bn hbn => hinv.leaf_ne hbn) (by rwa [hsize]) hn,
      boot_content h hf hj hs hr, hsize]

lemma nblk_le_of_agrees (h : Built L s c t) (ha : Agrees L (boot s' d) (iload (boot s' d) j) (t j) (c j)) :
    nblk (c j).length ≤ reach L := by
  by_contra hlt
  have hinv := boot_fileInv (d := d) h.toLinked hf hj
  rw [min_eq_right (by omega)] at hinv
  obtain ⟨x, -, -, hb⟩ := ha.maps (reach L) (by omega)
  have hmax : reach L < L.MAXFILE := by
    have hlen := nblk_le_iff.mpr (h.len_le j hj)
    have := limit_le L
    omega
  obtain ⟨-, -, -, hx, hx0⟩ := bmap_spec hinv.valid hinv.owns hmax hb
  rw [← hx] at hx0
  exact absurd ((hinv.leaf_iff hmax).mp hx0) (lt_irrefl _)

lemma agrees_iff (h : Built L s c t) : Agrees L (boot s' d) (iload (boot s' d) j) (t j) (c j) ↔
    (c j).length ≤ reach L * BSIZE := by
  rw [← nblk_le_iff]
  exact ⟨nblk_le_of_agrees hf hj h, agrees_of_le hf hj h.toLinked (h.size_eq j hj) (h.not_dev j hj)⟩

end Agrees

lemma image_spec (hwf : WellFormed 1 calls) (hr : image L calls = .ok r) :
    ∃ s, build L calls = .ok (s, r.2) ∧ Built L s (appended calls) r.2 ∧ Finished L s r.1 ∧
      r.1.freeinode ≤ inodes := by
  simp only [image, bind_eq_ok] at hr
  obtain ⟨⟨s, t⟩, hb, s', ha, he⟩ := hr
  simp only [Except.ok.injEq] at he
  subst he
  obtain ⟨hbuilt, hle⟩ := build_built hwf hb
  have hfin := balloc_spec hbuilt.toLinked hbuilt.bitmap ha
  exact ⟨s, hb, hbuilt, hfin, hfin.freeinode_eq ▸ hle⟩

lemma image_agrees_iff (hwf : WellFormed 1 calls) (hr : image L calls = .ok r) (hlt : j < r.1.freeinode) :
    Agrees L (boot r.1 d) (iload (boot r.1 d) j) (r.2 j) (appended calls j) ↔
      (appended calls j).length ≤ reach L * BSIZE := by
  obtain ⟨s, -, hbuilt, hfin, hle⟩ := image_spec hwf hr
  exact agrees_iff hfin (hlt.trans_le hle) hbuilt

/-! Runs that do not abort. -/

def oneFile (p : List UInt8) : List Call := [.ialloc T_FILE, .iappend 1 p]

lemma oneFile_wellFormed (p : List UInt8) : WellFormed 1 (oneFile p) :=
  ⟨by decide, .inr rfl, by decide, trivial⟩

lemma oneFile_appended (p : List UInt8) : appended (oneFile p) 1 = p := by
  simp [appended, oneFile]

lemma oneFile_ok {p : List UInt8} (hmax : p.length ≤ limit L * BSIZE)
    (hroom : nmeta L + 4 * nblk p.length ≤ L.FSSIZE) (hbits : nmeta L + 4 * nblk p.length < BSIZE * 8) :
    ∃ r, image L (oneFile p) = .ok r ∧ r.1.freeinode = 2 ∧ r.1.freeblock ≤ nmeta L + 4 * nblk p.length := by
  obtain ⟨-, -, -, hino, hfree⟩ := format_facts L
  obtain ⟨s1, ha, hb1, hfi1, hfb1, -⟩ := ialloc_spec (format_built L) (by rw [hino]; decide)
    (show T_FILE < 2 ^ 16 by decide) (show T_FILE ≠ T_DEV by decide)
  obtain ⟨u, s2, hp, -, hfb2⟩ := iappend_ok (p := p) hb1.toLinked (show 1 < inodes by decide)
    (hb1.size_eq 1 (by decide))
    (by simpa using hmax) (by rw [hfb1, hfree]; simpa using hroom)
  simp only [length_nil, Nat.zero_mod, Nat.zero_add] at hfb2
  obtain ⟨-, hfi2, -⟩ := iappend_spec hb1 (by omega) (by decide) hp
  have hbuild : build L (oneFile p) = .ok (s2, Function.update (fun _ => []) 1 ([] ++ u)) := by
    simp only [build, oneFile, foldlM_cons, foldlM_nil, exec, ha, hp, ok_bind]
    rfl
  simp only [image, hbuild, ok_bind]
  rw [balloc, if_pos (by omega)]
  exact ⟨_, rfl, by change s2.freeinode = 2; omega, by change s2.freeblock ≤ _; omega⟩

lemma oneFile_outOfRange {p : List UInt8} (hmax : reach .isingle * BSIZE < p.length)
    (hroom : nmeta .isingle + 4 * nblk p.length ≤ Lab.isingle.FSSIZE) :
    image .isingle (oneFile p) = .error .outOfRange := by
  obtain ⟨-, -, -, hino, hfree⟩ := format_facts .isingle
  obtain ⟨s1, ha, hb1, -, hfb1, -⟩ := ialloc_spec (format_built .isingle) (by rw [hino]; decide)
    (show T_FILE < 2 ^ 16 by decide) (show T_FILE ≠ T_DEV by decide)
  have hp : iappend .isingle s1 1 p = .error .outOfRange :=
    iappend_outOfRange hb1 (by decide) (by simpa using hmax) (by rw [hfb1, hfree]; simpa using hroom)
  simp only [image, build, oneFile, foldlM_cons, exec, ha, hp, ok_bind, error_bind]

def noDev (_ : ℕ) : Devsw := ⟨none, none⟩

/-- A file that needs two entries of the index block. -/
def fourteenBlocks : List UInt8 := replicate (14 * BSIZE) 104

lemma fourteenBlocks_length : fourteenBlocks.length = 14 * BSIZE := length_replicate

lemma fourteenBlocks_ok (L : Lab) : ∃ r, image L (oneFile fourteenBlocks) = .ok r ∧ 1 < r.1.freeinode := by
  obtain ⟨r, hr, hino, -⟩ := oneFile_ok (L := L) (p := fourteenBlocks)
    (by rw [fourteenBlocks_length]; cases L <;> decide) (by rw [fourteenBlocks_length]; cases L <;> decide)
    (by rw [fourteenBlocks_length]; cases L <;> decide)
  exact ⟨r, hr, by omega⟩

/-! The itriple tree. -/

/-- In an itriple image the kernel finds a file exactly when it ends within the entries of the
first index block. -/
theorem itriple_image_agrees_iff (hwf : WellFormed 1 calls) (hr : image .itriple calls = .ok r)
    (hlt : j < r.1.freeinode) :
    Agrees .itriple (boot r.1 d) (iload (boot r.1 d) j) (r.2 j) (appended calls j) ↔
      (appended calls j).length ≤ (Lab.itriple.NDIRECT + Lab.itriple.NDIRECTIB) * BSIZE :=
  image_agrees_iff hwf hr hlt

theorem itriple_small_image_agrees : ∃ r, image .itriple (oneFile fourteenBlocks) = .ok r ∧
    Agrees .itriple (boot r.1 noDev) (iload (boot r.1 noDev) 1) (r.2 1) fourteenBlocks := by
  obtain ⟨r, hr, hino⟩ := fourteenBlocks_ok .itriple
  have hiff := itriple_image_agrees_iff (d := noDev) (oneFile_wellFormed _) hr hino
  rw [oneFile_appended, fourteenBlocks_length] at hiff
  exact ⟨r, hr, hiff.mpr (by decide)⟩

/-- One block more than the first index block can name. -/
theorem itriple_large_image_disagrees :
    ∃ r, image .itriple (oneFile (replicate (139 * BSIZE) 0)) = .ok r ∧
      139 * BSIZE ≤ Lab.itriple.MAXFILE * BSIZE ∧
      ¬ Agrees .itriple (boot r.1 noDev) (iload (boot r.1 noDev) 1) (r.2 1)
        (replicate (139 * BSIZE) 0) := by
  have hlen : (replicate (139 * BSIZE) (0 : UInt8)).length = 139 * BSIZE := length_replicate
  obtain ⟨r, hr, hino, -⟩ := oneFile_ok (L := .itriple) (p := replicate (139 * BSIZE) 0)
    (by rw [hlen]; decide) (by rw [hlen]; decide) (by rw [hlen]; decide)
  refine ⟨r, hr, by decide, ?_⟩
  have hiff := image_agrees_iff (d := noDev) (oneFile_wellFormed _) hr (show 1 < r.1.freeinode by omega)
  rw [oneFile_appended] at hiff
  rw [hiff, hlen]
  decide

/-! The idouble tree. -/

/-- In an idouble image the kernel finds a file exactly when it ends within the entries of the
first index block. -/
theorem idouble_image_agrees_iff (hwf : WellFormed 1 calls) (hr : image .idouble calls = .ok r)
    (hlt : j < r.1.freeinode) :
    Agrees .idouble (boot r.1 d) (iload (boot r.1 d) j) (r.2 j) (appended calls j) ↔
      (appended calls j).length ≤ (Lab.idouble.NDIRECT + Lab.idouble.NDIRECTIB) * BSIZE :=
  image_agrees_iff hwf hr hlt

theorem idouble_small_image_agrees : ∃ r, image .idouble (oneFile fourteenBlocks) = .ok r ∧
    Agrees .idouble (boot r.1 noDev) (iload (boot r.1 noDev) 1) (r.2 1) fourteenBlocks := by
  obtain ⟨r, hr, hino⟩ := fourteenBlocks_ok .idouble
  have hiff := idouble_image_agrees_iff (d := noDev) (oneFile_wellFormed _) hr hino
  rw [oneFile_appended, fourteenBlocks_length] at hiff
  exact ⟨r, hr, hiff.mpr (by decide)⟩

theorem idouble_large_image_disagrees :
    ∃ r, image .idouble (oneFile (replicate (137 * BSIZE) 0)) = .ok r ∧
      137 * BSIZE ≤ Lab.idouble.MAXFILE * BSIZE ∧
      ¬ Agrees .idouble (boot r.1 noDev) (iload (boot r.1 noDev) 1) (r.2 1)
        (replicate (137 * BSIZE) 0) := by
  have hlen : (replicate (137 * BSIZE) (0 : UInt8)).length = 137 * BSIZE := length_replicate
  obtain ⟨r, hr, hino, -⟩ := oneFile_ok (L := .idouble) (p := replicate (137 * BSIZE) 0)
    (by rw [hlen]; decide) (by rw [hlen]; decide) (by rw [hlen]; decide)
  refine ⟨r, hr, by decide, ?_⟩
  have hiff := image_agrees_iff (d := noDev) (oneFile_wellFormed _) hr (show 1 < r.1.freeinode by omega)
  rw [oneFile_appended] at hiff
  rw [hiff, hlen]
  decide

/-! The reverse-tools tree. -/

/-- In an image of the reverse-tools tree the kernel finds every file. -/
theorem reverse_image_agrees (hwf : WellFormed 1 calls) (hr : image .reverse calls = .ok r)
    (hlt : j < r.1.freeinode) :
    Agrees .reverse (boot r.1 d) (iload (boot r.1 d) j) (r.2 j) (appended calls j) := by
  obtain ⟨s, -, hbuilt, -, hle⟩ := image_spec hwf hr
  exact (image_agrees_iff hwf hr hlt).mpr (hbuilt.len_le j (hlt.trans_le hle))

theorem reverse_small_image_agrees : ∃ r, image .reverse (oneFile fourteenBlocks) = .ok r ∧
    Agrees .reverse (boot r.1 noDev) (iload (boot r.1 noDev) 1) (r.2 1) fourteenBlocks := by
  obtain ⟨r, hr, hino⟩ := fourteenBlocks_ok .reverse
  have hagrees := reverse_image_agrees (d := noDev) (oneFile_wellFormed _) hr hino
  rw [oneFile_appended] at hagrees
  exact ⟨r, hr, hagrees⟩

/-! The isingle tree, whose image is built by the stock text. -/

lemma image_ne_outOfRange (hwf : WellFormed 1 calls)
    (hlen : ∀ j, (appended calls j).length ≤ reach L * BSIZE) : image L calls ≠ .error .outOfRange := by
  obtain ⟨-, -, -, hino, -⟩ := format_facts L
  refine bind_ne_error ?_ ?_
  · exact run_ne_outOfRange (format_built L) (by rw [hino]; decide) (by rwa [hino])
      (by simpa using hlen)
  · rintro ⟨s, t⟩ -
    refine bind_ne_error ?_ (by simp)
    unfold balloc
    split <;> simp

/-- As long as no assertion and no system call fails, an isingle image is built and read back
exactly when every file ends within the first index block. -/
theorem isingle_image_agrees_iff (hwf : WellFormed 1 calls) (hassert : image .isingle calls ≠ .error .assert)
    (hperror : image .isingle calls ≠ .error .perror) :
    (∃ r, image .isingle calls = .ok r ∧ ∀ j, j < r.1.freeinode →
      Agrees .isingle (boot r.1 d) (iload (boot r.1 d) j) (r.2 j) (appended calls j)) ↔
      ∀ j, (appended calls j).length ≤ (Lab.isingle.NDIRECT + Lab.isingle.NDIRECTIB) * BSIZE := by
  constructor
  · rintro ⟨r, hr, -⟩ j
    obtain ⟨s, -, hbuilt, -, -⟩ := image_spec hwf hr
    rcases Nat.lt_or_ge j inodes with hj | hj
    · exact hbuilt.len_le j hj
    · simp [appended_eq_nil hwf (by decide) hj]
  · intro hlen
    have hrange := image_ne_outOfRange (L := .isingle) hwf hlen
    cases hr : image .isingle calls with
    | error e => cases e <;> contradiction
    | ok r => exact ⟨r, rfl, fun j hj => (image_agrees_iff hwf hr hj).mpr (hlen j)⟩

theorem isingle_small_image_agrees : ∃ r, image .isingle (oneFile fourteenBlocks) = .ok r ∧
    ∀ j, j < r.1.freeinode → Agrees .isingle (boot r.1 noDev) (iload (boot r.1 noDev) j) (r.2 j)
      (appended (oneFile fourteenBlocks) j) := by
  obtain ⟨r, hr, -⟩ := fourteenBlocks_ok .isingle
  refine (isingle_image_agrees_iff (oneFile_wellFormed _) (by simp [hr]) (by simp [hr])).mpr fun j => ?_
  have hle : (appended (oneFile fourteenBlocks) j).length ≤ 14 * BSIZE := by
    simp only [appended, oneFile, flatMap_cons, flatMap_nil, nil_append, append_nil]
    split
    · exact fourteenBlocks_length.le
    · exact Nat.zero_le _
  exact hle.trans (by decide)

/-- One byte more, and `iappend` indexes its array with `NINDIRECT`. -/
theorem isingle_large_image_outOfRange : 138 * BSIZE + 1 ≤ Lab.isingle.MAXFILE * BSIZE ∧
      image .isingle (oneFile (replicate (138 * BSIZE + 1) 0)) = .error .outOfRange := by
  refine ⟨by decide, oneFile_outOfRange ?_ ?_⟩
  · rw [length_replicate]
    decide
  · rw [length_replicate]
    decide

end LearnXv6.Fs.Mkfs
