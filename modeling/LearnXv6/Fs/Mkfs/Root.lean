import Mathlib
import LearnXv6.Fs.Mkfs.Main

/-! The kernel on the root directory of a finished image. -/
namespace LearnXv6.Fs.Mkfs
open Kernel List

variable {L : Lab} {s s' : State} {files : List File} {f : File} {t : ℕ → List (ℕ × ℕ)}
  {d : ℕ → Devsw}

lemma reach_ge (L : Lab) : 8 ≤ reach L := by cases L <;> decide

section Root

variable (h : Made L files s t) (hf : Finished L s s')
include h hf

lemma Made.root_fileInv : FileInv L (boot s' d) (iload (boot s' d) ROOTINO)
    (nblk ((files.length + 2) * DIRENT)) := by
  have hinv := boot_fileInv (d := d) h.toLinked hf (show ROOTINO < inodes by decide)
  have hle : nblk ((files.length + 2) * DIRENT) ≤ reach L := by
    have := reach_ge L
    have := h.count_le
    rw [nblk_le_iff]
    rw [show DIRENT = 16 from rfl, BSIZE_eq]
    omega
  rwa [root_length, min_eq_left hle] at hinv

lemma Made.root_isDir : (iload (boot s' d) ROOTINO).type = T_DIR :=
  (iload_type hf (by decide)).trans h.root_type

lemma Made.entryAt_eq {k : ℕ} {e : List UInt8} (hk : (rootEntries files)[k]? = some e) :
    entryAt L (boot s' d) (iload (boot s' d) ROOTINO) k = e := by
  have hlen := mem_rootEntries_length (mem_of_getElem? hk)
  have hklt : k < files.length + 2 := by
    rw [← rootEntries_length]
    exact (List.getElem?_eq_some_iff.mp hk).1
  have hreach := reach_ge L
  have hcount := h.count_le
  apply ext_getElem
  · simp [entryAt, hlen]
  · intro i h1 h2
    have hi : i < DIRENT := hlen ▸ h2
    have hin : k * DIRENT + i < (appended (mainCalls files) ROOTINO).length := by
      rw [root_length]
      rw [show DIRENT = 16 from rfl] at *
      omega
    have hbyte : fileByte L (boot s' d) (iload (boot s' d) ROOTINO) (k * DIRENT + i) = _ :=
      boot_fileByte h.toLinked hf (show ROOTINO < inodes by decide) hin (by
        rw [show DIRENT = 16 from rfl] at *
        rw [BSIZE_eq]
        omega)
    simp only [entryAt, getElem_map, getElem_range]
    rw [hbyte, appended_main_root, flatten_getD (fun e he => mem_rootEntries_length he) hk hi,
      getD_eq_getElem _ _ h2]

end Root

/-! Names. -/

/-- The name under which a file is listed. -/
def storedName (f : File) : List UInt8 := (shortName f.name).take DIRSIZ

lemma zero_notMem_shortName (f : File) : 0 ∉ shortName f.name := by
  unfold shortName
  split
  · exact fun h => f.name_ne (mem_of_mem_tail h)
  · exact f.name_ne

lemma zero_notMem_storedName (f : File) : 0 ∉ storedName f :=
  fun h => zero_notMem_shortName f (mem_of_mem_take h)

lemma direntInum_dirent {inum : ℕ} (hi : inum < 2 ^ 16) (name : List UInt8) :
    direntInum (dirent inum name) = inum := by
  simp only [direntInum, dirent, cstr, cons_append, getD_cons_zero, getD_cons_succ,
    UInt8.toNat_ofNat']
  omega

lemma direntName_dirent (inum : ℕ) (name : List UInt8) :
    direntName (dirent inum name) = cstr (name.take DIRSIZ) := by
  funext i
  have hshift : direntName (dirent inum name) i =
      ((List.range DIRSIZ).map (cstr (name.take DIRSIZ))).getD i 0 := by
    rw [direntName, cstr, Nat.add_comm 2 i]
    rfl
  rw [hshift]
  by_cases hi : i < DIRSIZ
  · rw [getD_eq_getElem _ _ (by simpa using hi), getElem_map, getElem_range]
  · rw [getD_eq_default _ _ (by simpa using hi), cstr, getD_eq_default]
    exact (length_take_le _ _).trans (by omega)

lemma matches_dirent {inum : ℕ} (hpos : 0 < inum) (hi : inum < 2 ^ 16) {a name : List UInt8}
    (ha : 0 ∉ a) (hn : 0 ∉ name) :
    Matches (cstr a) (dirent inum name) ↔ a.take DIRSIZ = name.take DIRSIZ := by
  rw [Matches, direntInum_dirent hi, direntName_dirent, Kernel.namecmp,
    strncmp_cstr ha (fun h => hn (mem_of_mem_take h)), take_take, min_self]
  exact ⟨And.right, fun h => ⟨by omega, h⟩⟩

lemma rootEntries_file {i : ℕ} (hi : files[i]? = some f) :
    (rootEntries files)[i + 2]? = some (dirent (i + 2) (shortName f.name)) := by
  have : (rootEntries files)[i + 2]? = (entriesFrom 2 files)[i]? := rfl
  rw [this, entriesFrom_getElem, hi, Nat.add_comm]
  rfl

section Lookup

variable (h : Made L files s t) (hf : Finished L s s')
include h hf

lemma Made.dirlookup_eq {k inum : ℕ} {a name : List UInt8} (hpos : 0 < inum)
    (hi : inum < 2 ^ 16) (ha : 0 ∉ a) (hn : 0 ∉ name) (hk : (rootEntries files)[k]? = some (dirent inum name))
    (hname : a.take DIRSIZ = name.take DIRSIZ)
    (hfirst : ∀ i, i < k → ∀ e, (rootEntries files)[i]? = some e → ¬ Matches (cstr a) e) :
    dirlookup L (boot s' d) (iload (boot s' d) ROOTINO) (cstr a) =
      .ok (some (inum, k * DIRENT), boot s' d, iload (boot s' d) ROOTINO) := by
  have hinv := h.root_fileInv (d := d) hf
  have hdir := h.root_isDir (d := d) hf
  have hmap : Mapped L (boot s' d) (iload (boot s' d) ROOTINO)
      (nblk ((files.length + 2) * DIRENT)) :=
    ⟨by rw [hdir]; decide, hinv.le, fun bn hbn => hinv.leaf_ne hbn⟩
  have hklt : k < files.length + 2 := by
    rw [← rootEntries_length]
    exact (List.getElem?_eq_some_iff.mp hk).1
  have hkle : (k + 1) * DIRENT ≤ (files.length + 2) * DIRENT := Nat.mul_le_mul_right _ hklt
  have hentry := h.entryAt_eq (d := d) hf hk
  have hsize : (k + 1) * DIRENT ≤ (iload (boot s' d) ROOTINO).size := by
    rw [iload_size hf (by decide), h.root_size, BSIZE_eq]
    omega
  have hbefore : ∀ i, i < k →
      ¬ Matches (cstr a) (entryAt L (boot s' d) (iload (boot s' d) ROOTINO) i) := by
    intro i hi
    have hlt : i < (rootEntries files).length := by
      rw [rootEntries_length]
      omega
    have he := getElem?_eq_getElem hlt
    rw [h.entryAt_eq hf he]
    exact hfirst i hi _ he
  have hmatch : Matches (cstr a) (entryAt L (boot s' d) (iload (boot s' d) ROOTINO) k) := by
    rw [hentry, matches_dirent hpos hi ha hn]
    exact hname
  have hfound := hmap.dirlookup_found hdir hsize (hkle.trans (nblk_le_iff.mp le_rfl)) hbefore hmatch
  rwa [hentry, direntInum_dirent hi] at hfound

lemma Made.dirlookup_file {i : ℕ} (hi : files[i]? = some f)
    (hdot : storedName f ≠ [dot] ∧ storedName f ≠ [dot, dot]) (hdist : (files.map storedName).Nodup) :
    dirlookup L (boot s' d) (iload (boot s' d) ROOTINO) (cstr (storedName f)) =
      .ok (some (i + 2, (i + 2) * DIRENT), boot s' d, iload (boot s' d) ROOTINO) := by
  have hcount := h.count_le
  have hil := (List.getElem?_eq_some_iff.mp hi).1
  have hstored : (storedName f).take DIRSIZ = storedName f := by
    rw [storedName, take_take, min_self]
  refine h.dirlookup_eq hf (by omega) (by omega) (zero_notMem_storedName f)
    (zero_notMem_shortName f) (rootEntries_file hi) hstored ?_
  intro k hk e he
  match k with
  | 0 =>
    cases he
    rw [matches_dirent (by decide) (by decide) (zero_notMem_storedName f) (by decide), hstored]
    exact hdot.1
  | 1 =>
    cases he
    rw [matches_dirent (by decide) (by decide) (zero_notMem_storedName f) (by decide), hstored]
    exact hdot.2
  | j + 2 =>
    obtain ⟨g, hg⟩ : ∃ g, files[j]? = some g :=
      ⟨_, getElem?_eq_getElem (show j < files.length by omega)⟩
    rw [rootEntries_file hg, Option.some.injEq] at he
    subst he
    rw [matches_dirent (by omega) (by omega) (zero_notMem_storedName f) (zero_notMem_shortName g),
      hstored]
    -- two files with one stored name
    intro heq
    have hj : (files.map storedName)[j]? = (files.map storedName)[i]? := by
      rw [getElem?_map, getElem?_map, hg, hi]
      exact congrArg some heq.symm
    exact nodup_iff_getElem?_ne_getElem?.mp hdist j i (by omega) (by simpa using hil) hj

end Lookup

/-! The image as the kernel sees it. -/

/-- The blocks of the inodes that were allocated. -/
def inodeBlocks (L : Lab) (s : State) : Set ℕ :=
  { b | ∃ i, 0 < i ∧ i < s.freeinode ∧ b = (sb L).iblock i }

def bitmapBlocks (L : Lab) : Set ℕ := { b | ∃ i, i < L.FSSIZE ∧ b = (sb L).bblock i }

/-- The blocks handed out for file contents and index blocks. -/
def dataBlocks (L : Lab) (s : State) : Set ℕ := { b | nmeta L ≤ b ∧ b < s.freeblock }

/-- The regions of the image do not overlap, the free map is right, and each name leads to its
file. -/
structure Consistent (L : Lab) (files : List File) (s : State) (k : Kernel.State) : Prop where
  inode_bitmap : Disjoint (inodeBlocks L s) (bitmapBlocks L)
  inode_data : Disjoint (inodeBlocks L s) (dataBlocks L s)
  bitmap_data : Disjoint (bitmapBlocks L) (dataBlocks L s)
  bitmap : ∀ b, b < L.FSSIZE → (k.used b = true ↔ b < s.freeblock)
  found : ∀ f ∈ files, ∃ inum off t,
    dirlookup L k (iload k ROOTINO) (cstr (storedName f)) =
      .ok (some (inum, off), k, iload k ROOTINO) ∧
    (iload k inum).type = T_FILE ∧ Agrees L k (iload k inum) t (chunks f).flatten

lemma bitmapBlocks_facts {b : ℕ} (h : b ∈ bitmapBlocks L) : (sb L).bmapstart ≤ b ∧ b < nmeta L := by
  obtain ⟨i, hi, rfl⟩ := h
  refine ⟨bmapstart_le_bblock _ _, ?_⟩
  rw [← datastart_eq]
  exact bblock_lt_datastart hi

lemma inodeBlocks_lt (hle : s.freeinode ≤ inodes) {b : ℕ} (h : b ∈ inodeBlocks L s) :
    b < (sb L).bmapstart := by
  obtain ⟨i, -, hi, rfl⟩ := h
  exact iblock_lt (by omega)

lemma Made.consistent (h : Made .stock files s t) (hf : Finished .stock s s')
    (hdist : (files.map storedName).Nodup)
    (hdot : ∀ f ∈ files, storedName f ≠ [dot] ∧ storedName f ≠ [dot, dot]) :
    Consistent .stock files s' (boot s' d) := by
  have hlay := layout .stock
  have hcount := h.count_le
  have hino : inodes = 208 := rfl
  have hle : s'.freeinode ≤ inodes := by
    rw [hf.freeinode_eq, h.freeinode_eq]
    omega
  refine ⟨?_, ?_, ?_, ?_, ?_⟩
  · refine Set.disjoint_left.mpr fun b h1 h2 => ?_
    have := inodeBlocks_lt hle h1
    have := bitmapBlocks_facts h2
    omega
  · refine Set.disjoint_left.mpr fun b h1 h2 => ?_
    have := inodeBlocks_lt hle h1
    have := h2.1
    omega
  · refine Set.disjoint_left.mpr fun b h1 h2 => ?_
    have := bitmapBlocks_facts h1
    have := h2.1
    omega
  · intro b hb
    rw [boot_used hf hb, decide_eq_true_iff, hf.freeblock_eq]
  · intro f hmem
    obtain ⟨i, hi⟩ := getElem?_of_mem hmem
    obtain ⟨hil, hget⟩ := List.getElem?_eq_some_iff.mp hi
    have hj : i + 2 < inodes := by omega
    refine ⟨i + 2, (i + 2) * DIRENT, t (i + 2), h.dirlookup_file hf hi (hdot f hmem) hdist, ?_, ?_⟩
    · rw [iload_type hf hj, h.file_type i hil]
    · rw [← hget, ← appended_main_file hil]
      refine agrees_of_le hf hj h.toLinked (h.file_size i hil) ?_ ?_
      · rw [h.file_type i hil]
        decide
      · exact nblk_le_iff.mpr (h.len_le _ hj)

lemma main_freeinode (hr : main L files = .ok s) : s.freeinode = files.length + 2 := by
  obtain ⟨s1, t, s2, -, hfi, hfix, hal⟩ := main_run hr
  have hfix' := (Store.Ensures.bind .trivial fun _ _ => winode_freeinode) _ hfix
  unfold balloc at hal
  split at hal
  · cases hal
    exact hfix'.trans hfi
  · cases hal

/-- The 207th file gets inode 208, whose block is that of the free map. -/
lemma Consistent.count_le {k : Kernel.State} (hr : main L files = .ok s)
    (h : Consistent L files s k) : files.length ≤ 206 := by
  by_contra hn
  have hfi := main_freeinode hr
  have hblk : (sb L).iblock 208 = (sb L).bblock 0 := by cases L <;> decide
  exact Set.disjoint_left.mp h.inode_bitmap ⟨208, by decide, by omega, rfl⟩
    ⟨0, by cases L <;> decide, hblk⟩

/-- A file listed as `.` or `..` is hidden by the entries of the root directory itself. -/
lemma Consistent.storedName_ne (hm : Made L files s t) (hf : Finished L s s')
    (h : Consistent L files s' (boot s' d)) (hmem : f ∈ files) :
    storedName f ≠ [dot] ∧ storedName f ≠ [dot, dot] := by
  have hroot := hm.root_isDir (d := d) hf
  obtain ⟨inum, off, t', hl, hty, -⟩ := h.found f hmem
  -- a lookup that ends at the root inode contradicts the type of the inode found
  have hself : ∀ o, dirlookup L (boot s' d) (iload (boot s' d) ROOTINO) (cstr (storedName f)) ≠
      .ok (some (ROOTINO, o), boot s' d, iload (boot s' d) ROOTINO) := by
    intro o hc
    rw [hl] at hc
    simp only [Except.ok.injEq, Prod.mk.injEq, Option.some.injEq] at hc
    rw [hc.1.1, hroot] at hty
    exact absurd hty (by decide)
  constructor
  · intro hname
    refine hself (0 * DIRENT) (hm.dirlookup_eq hf (k := 0) (by decide) (by decide)
      (zero_notMem_storedName f) (show 0 ∉ [dot] by decide) rfl (by rw [hname]) ?_)
    intro i hi
    omega
  · intro hname
    refine hself (1 * DIRENT) (hm.dirlookup_eq hf (k := 1) (by decide) (by decide)
      (zero_notMem_storedName f) (show 0 ∉ [dot, dot] by decide) rfl (by rw [hname]) ?_)
    intro i hi e he
    obtain rfl : i = 0 := by omega
    cases he
    rw [matches_dirent (by decide) (by decide) (zero_notMem_storedName f) (by decide), hname]
    decide

/-- An image of the stock `mkfs` is consistent exactly when the inode blocks hold its inodes and no
file is listed under a name of the root directory itself. -/
theorem stock_consistent_iff (hr : main .stock files = .ok s) (hdist : (files.map storedName).Nodup) :
    Consistent .stock files s (boot s d) ↔
      files.length ≤ 206 ∧ ∀ f ∈ files, storedName f ≠ [dot] ∧ storedName f ≠ [dot, dot] := by
  constructor
  · intro hc
    have hn := hc.count_le hr
    obtain ⟨s₁, t, hm, hf⟩ := main_made hr hn
    exact ⟨hn, fun f hmem => hc.storedName_ne hm hf hmem⟩
  · rintro ⟨hn, hdot⟩
    obtain ⟨s₁, t, hm, hf⟩ := main_made hr hn
    exact hm.consistent hf hdist hdot

theorem hello_consistent : ∃ s, main .stock [hello] = .ok s ∧ Consistent .stock [hello] s (boot s noDev) := by
  obtain ⟨s, hr⟩ : ∃ s, main .stock [hello] = .ok s := by
    refine main_ok (by decide) ?_ (by decide) (by decide)
    intro f hf
    obtain rfl := mem_singleton.mp hf
    decide
  refine ⟨s, hr, (stock_consistent_iff hr (by simp)).mpr ⟨by decide, ?_⟩⟩
  intro f hf
  obtain rfl := mem_singleton.mp hf
  decide

lemma storedName_numbered (i : ℕ) : storedName (numbered i) = [letter (i / 16), letter i] := by
  have hhead : shortName (numbered i).name = [letter (i / 16), letter i] := by
    refine if_neg ?_
    rw [numbered, head?_cons, Option.some.injEq]
    exact letter_ne _ (by decide)
  rw [storedName, hhead]
  rfl

lemma numbered_nodup {n : ℕ} (hn : n ≤ 256) : (((List.range n).map numbered).map storedName).Nodup := by
  rw [map_map]
  refine Nodup.map_on ?_ nodup_range
  intro i hi j hj he
  have hi := mem_range.mp hi
  have hj := mem_range.mp hj
  simp only [Function.comp_apply, storedName_numbered, cons.injEq, and_true] at he
  have h1 := congrArg UInt8.toNat he.1
  have h2 := congrArg UInt8.toNat he.2
  simp only [letter_toNat] at h1 h2
  omega

/-- 207 files: the last inode lies in the block of the free map. -/
theorem numbered_207_not_consistent : ∃ s, main .stock ((List.range 207).map numbered) = .ok s ∧
    (((List.range 207).map numbered).map storedName).Nodup ∧
    ¬ Consistent .stock ((List.range 207).map numbered) s (boot s noDev) := by
  obtain ⟨s, hr⟩ := numbered_207_main_ok
  refine ⟨s, hr, numbered_nodup (by decide), ?_⟩
  intro hc
  have := hc.count_le hr
  simp at this

end LearnXv6.Fs.Mkfs
