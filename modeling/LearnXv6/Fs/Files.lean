import LearnXv6.Fs.EmptyFile

/-! All files at once: calls on one inode leave the others, and the files of an image are arrays of bytes
under any interleaving of calls on them. -/
namespace LearnXv6.Fs.Kernel
open Store Lab Function

variable {L : Lab} {s s' s1 : State} {ip ip' ip1 kp : Inode} {m bn off n : ℕ} {v : Block}
  {src : ℕ → UInt8}

/-- The marked data blocks that are not in the tree of the inode. -/
def Foreign (L : Lab) (s : State) (ip : Inode) : Set ℕ :=
  {b | s.sb.datastart ≤ b ∧ b < s.sb.size ∧ s.used b = true ∧ ∀ n ∈ L.code.nodes, tree s ip n ≠ b}

/-- The blocks of each inode stay, and every block that is marked becomes one of an inode. -/
structure Grown {ι : Type} (L : Lab) (s : State) (ips : ι → Inode) (s' : State)
    (ips' : ι → Inode) : Prop where
  sb_eq : s'.sb = s.sb
  own : ∀ i, ∀ n ∈ L.code.nodes, tree s (ips i) n ≠ 0 → tree s' (ips' i) n = tree s (ips i) n
  taken : ∀ b, s.sb.datastart ≤ b → b < s.sb.size → s'.used b = true →
    s.used b = true ∨ ∃ i, ∃ n ∈ L.code.nodes, tree s' (ips' i) n = b

lemma Grown.trans {ι : Type} {ips ips1 ips' : ι → Inode} (h1 : Grown L s ips s1 ips1)
    (h2 : Grown L s1 ips1 s' ips') : Grown L s ips s' ips' := by
  refine ⟨h2.sb_eq.trans h1.sb_eq, ?_, ?_⟩
  · intro i n hn hne
    have heq := h1.own i n hn hne
    rw [h2.own i n hn (heq.trans_ne hne), heq]
  · intro b hge hlt hu
    have hpos := bmapstart_lt_datastart s.sb
    rcases h2.taken b (h1.sb_eq ▸ hge) (h1.sb_eq ▸ hlt) hu with hu | hnew
    · rcases h1.taken b hge hlt hu with hu | ⟨i, n, hn, rfl⟩
      · exact .inl hu
      · exact .inr ⟨i, n, hn, h2.own i n hn (by omega)⟩
    · exact .inr hnew

/-- Besides, what is done to one inode changes none of the blocks that are not its own, and takes none. -/
structure Apart (L : Lab) (s : State) (ip : Inode) (s' : State) (ip' : Inode) : Prop
    extends Grown L s (fun _ : Unit => ip) s' (fun _ => ip') where
  kept : ∀ b ∈ Foreign L s ip, s'.disk b = s.disk b ∧ b ∈ Foreign L s' ip'

namespace Apart

lemma refl : Apart L s ip s ip :=
  ⟨⟨rfl, fun _ _ _ _ => rfl, fun _ _ _ => .inl⟩, fun _ hb => ⟨rfl, hb⟩⟩

lemma trans (h1 : Apart L s ip s1 ip1) (h2 : Apart L s1 ip1 s' ip') : Apart L s ip s' ip' := by
  refine ⟨h1.toGrown.trans h2.toGrown, ?_⟩
  intro b hb
  obtain ⟨hd1, hb1⟩ := h1.kept b hb
  obtain ⟨hd2, hb2⟩ := h2.kept b hb1
  exact ⟨hd2.trans hd1, hb2⟩

lemma of_grows {S : Set (ℕ × List ℕ)} (h : Grows L S s ip s' ip') : Apart L s ip s' ip' := by
  refine ⟨⟨h.sb_eq, fun _ => h.keep, ?_⟩, ?_⟩
  · intro b _ hlt hu
    rcases (h.used_iff b hlt).mp hu with hu | ⟨n, hn, -, -, he⟩
    · exact .inl hu
    · exact .inr ⟨(), n, hn, he⟩
  · rintro b ⟨hge, hlt, hu, hb⟩
    rw [Foreign, h.sb_eq]
    refine ⟨h.other_eq b hge hlt hu hb, hge, hlt, (h.used_iff b hlt).mpr (.inl hu), ?_⟩
    rintro n hn rfl
    have hpos := bmapstart_lt_datastart s.sb
    by_cases hz : tree s ip n = 0
    · have hfresh := h.fresh n hn hz (by omega)
      rw [hu] at hfresh
      cases hfresh
    · exact hb n hn (h.keep n hn hz).symm

lemma logWrite_leaf (h : FileInv L s ip m) (hbn : bn < m) :
    Apart L s ip (s.logWrite (tree s ip (L.path bn)) v) ip := by
  have hlt := lt_of_lt_of_le hbn h.le
  obtain ⟨hd, -, -⟩ := h.owns.owned _ (path_mem hlt) (h.leaf_ne hbn)
  have ht := tree_logWrite_leaf (v := v) h.owns hlt
  refine ⟨⟨rfl, fun _ n hn _ => ht n hn, fun b _ hsize hu => .inl ?_⟩, ?_⟩
  · rwa [used_logWrite_data hd hsize] at hu
  · rintro b ⟨hge, hsize, hu, hb⟩
    refine ⟨logWrite_disk_of_ne (hb _ (path_mem hlt)).symm, hge, hsize, ?_, ?_⟩
    · rwa [used_logWrite_data hd hsize]
    · intro n hn
      exact (ht n hn).trans_ne (hb n hn)

lemma resize : Apart L s ip s { ip with size := n } :=
  ⟨⟨rfl, fun _ _ _ _ => rfl, fun _ _ _ => .inl⟩, fun _ hb => ⟨rfl, hb⟩⟩

lemma iupdate (h : Owns L s ip) : Apart L s ip (iupdate s ip) ip := by
  have hlow := h.inode_lt
  have ht : ∀ n ∈ L.code.nodes, tree (Kernel.iupdate s ip) ip n = tree s ip n := tree_logWrite_low hlow h
  have hused : ∀ b, (Kernel.iupdate s ip).used b = s.used b := used_logWrite_low hlow
  refine ⟨⟨rfl, fun _ n hn _ => ht n hn, fun b _ _ hu => .inl ((hused b).symm.trans hu)⟩, ?_⟩
  rintro b ⟨hge, hsize, hu, hb⟩
  have := bmapstart_lt_datastart s.sb
  refine ⟨logWrite_disk_of_ne (by omega), hge, hsize, (hused b).trans hu, ?_⟩
  intro n hn
  exact (ht n hn).trans_ne (hb n hn)

end Apart

lemma writeiLoop_apart (h : FileInv L s ip m) (hoff : off ≤ m * BSIZE)
    (hn : off + n ≤ L.MAXFILE * BSIZE) (hw : writeiLoop L s ip src off n = .ok (s', ip')) :
    Apart L s ip s' ip' := by
  induction n using Nat.strong_induction_on generalizing s ip off src m with
  | _ n ih =>
    unfold writeiLoop at hw
    split at hw
    · cases hw
      exact .refl
    · rename_i hz
      have hpos := min_block_pos off hz
      have hle := min_le_left n (BSIZE - off % BSIZE)
      have hend := add_min_block_le m off n
      have hdiv := Nat.div_mul_le_self off BSIZE
      have hbm : off / BSIZE ≤ m := by
        rw [BSIZE_eq] at *
        omega
      have hbn : off / BSIZE < L.MAXFILE := by
        rw [BSIZE_eq] at *
        omega
      obtain ⟨⟨a, s1, ip1⟩, hb, hw⟩ := bind_eq_ok.mp hw
      obtain ⟨hinv, rfl, hg⟩ := h.bmap hbm hbn hb
      have hlt : off / BSIZE < max m (off / BSIZE + 1) := by omega
      -- the pass maps its block and stores into it, and the others follow behind it
      have hrest := ih _ (by omega) (hinv.logWrite_leaf hlt) hend (by omega) hw
      exact (Apart.of_grows hg).trans ((Apart.logWrite_leaf hinv hlt).trans hrest)

lemma writei_apart {r : ℤ} (h : IsFile L s ip) (ha : Accepts L ip.size off n)
    (hw : writei L s ip src off n = .ok (r, s', ip')) : Apart L s ip s' ip' := by
  rw [writei_accept h ha] at hw
  obtain ⟨⟨s1, ip1⟩, hl, hw⟩ := bind_eq_ok.mp hw
  have hoff := ha.1.trans (nblk_le_iff.mp le_rfl)
  have hloop := writeiLoop_apart h.inv hoff ha.2 hl
  have hinv := (writeiLoop_spec h.inv hoff ha.2 hl).inv
  dsimp only at hw
  split at hw
  · cases hw
    have hsized : FileInv L s1 { ip1 with size := off + n } _ := hinv.of_addrs rfl rfl
    exact hloop.trans (Apart.resize.trans (.iupdate hsized.owns))
  · cases hw
    exact hloop

lemma exec_apart {c : Call} {r : Reply} (h : IsFile L s ip) (he : exec L s ip c = .ok (r, s', ip')) :
    Apart L s ip s' ip' := by
  cases c with
  | write src off n =>
    obtain ⟨⟨x, s1, ip1⟩, hw, he⟩ := bind_eq_ok.mp he
    cases he
    by_cases ha : Accepts L ip.size off.toNat n.toNat
    · exact writei_apart h ha hw
    · rw [writei_reject h off.toNat_lt n.toNat_lt ha] at hw
      cases hw
      exact .refl
  | read off n =>
    obtain ⟨⟨x, bytes, s1, ip1⟩, hw, he⟩ := bind_eq_ok.mp he
    cases he
    by_cases ha : off.toNat ≤ ip.size ∧ off.toNat + n.toNat < 2 ^ 32
    · rw [readi_spec h.not_dev h.inv.le (fun bn hbn => h.inv.leaf_ne hbn) ha.1 ha.2] at hw
      cases hw
      exact .refl
    · rw [readi_reject h.not_dev n.toNat_lt off.toNat_lt ha] at hw
      cases hw
      exact .refl

/-! Several files. -/

/-- The two trees have no block in common. -/
def Separated (L : Lab) (s : State) (ip kp : Inode) : Prop :=
  ∀ m ∈ L.code.nodes, ∀ n ∈ L.code.nodes, tree s ip m = tree s kp n → tree s ip m = 0

lemma Separated.symm (h : Separated L s ip kp) : Separated L s kp ip :=
  fun m hm n hn he => he.trans (h n hn m hm he.symm)

section Other
variable (hk : IsFile L s kp) (hd : Separated L s ip kp) (ha : Apart L s ip s' ip')
include hk hd

lemma foreign_of_separated {n : ℕ × List ℕ} (hn : n ∈ L.code.nodes) (hne : tree s kp n ≠ 0) :
    tree s kp n ∈ Foreign L s ip := by
  obtain ⟨hge, hlt, hu⟩ := hk.inv.owns.owned n hn hne
  refine ⟨hge, hlt, hu, ?_⟩
  intro m hm he
  exact hne (he.symm.trans (hd m hm n hn he))

include ha

lemma Apart.tree_eq : ∀ n ∈ L.code.nodes, tree s' kp n = tree s kp n := by
  apply table_congr L.nodes_prefixClosed (fun _ _ => rfl)
  intro r ks k hn hne
  have hf := foreign_of_separated hk hd (L.nodes_prefixClosed _ _ _ hn) hne
  exact congrArg (fun c : Block => c.word k) (ha.kept _ hf).1

lemma Apart.separated : Separated L s' ip' kp := by
  intro m hm n hn he
  have ht := ha.tree_eq hk hd n hn
  rw [ht] at he
  rw [he]
  by_contra hne
  exact (ha.kept _ (foreign_of_separated hk hd hn hne)).2.2.2.2 m hm he

lemma Apart.isFile (hv : Valid s') : IsFile L s' kp := by
  have ht := ha.tree_eq hk hd
  refine ⟨⟨hv, ⟨?_, ?_, hk.inv.owns.separate.congr ht⟩, hk.inv.le, ?_⟩, hk.not_dev⟩
  · rw [ha.sb_eq]
    exact hk.inv.owns.inode_lt
  · intro n hn hne
    rw [ht n hn] at hne ⊢
    obtain ⟨-, hge, hlt, hu, -⟩ := ha.kept _ (foreign_of_separated hk hd hn hne)
    exact ⟨hge, hlt, hu⟩
  · intro n hn
    rw [ht n hn]
    exact hk.inv.mapped n hn

lemma Apart.content_eq : content L s' kp = content L s kp := by
  apply List.map_congr_left
  intro i hi
  have hbn : i / BSIZE < nblk kp.size := by
    have := List.mem_range.mp hi
    have := Nat.div_mul_le_self i BSIZE
    exact lt_nblk_iff.mpr (by omega)
  have hmem := path_mem (lt_of_lt_of_le hbn hk.inv.le)
  have hf := foreign_of_separated hk hd hmem (hk.inv.leaf_ne hbn)
  rw [fileByte, ha.tree_eq hk hd _ hmem, (ha.kept _ hf).1, fileByte]

end Other

section Files
variable {ι : Type} [DecidableEq ι] {ips : ι → Inode} {calls : List (ι × Call)}

/-- Calls on the inodes of a table, in any order. -/
def runFiles (L : Lab) (s : State) (ips : ι → Inode) :
    List (ι × Call) → Except Panic (List Reply × State × (ι → Inode))
  | [] => .ok ([], s, ips)
  | (i, c) :: cs => do
    let (r, s, ip) ← exec L s (ips i) c
    let (rs, s, ips) ← runFiles L s (update ips i ip) cs
    .ok (r :: rs, s, ips)

/-- The same calls on arrays of bytes. -/
def arraysRun (L : Lab) (a : ι → List UInt8) : List (ι × Call) → List Reply × (ι → List UInt8)
  | [] => ([], a)
  | (i, c) :: cs =>
    let (r, b) := arrayExec L (a i) c
    let (rs, a) := arraysRun L (update a i b) cs
    (r :: rs, a)

/-- Files that share no block. -/
structure Files (L : Lab) (s : State) (ips : ι → Inode) : Prop where
  isFile : ∀ i, IsFile L s (ips i)
  separated : Pairwise fun i k => Separated L s (ips i) (ips k)

/-- A call on one of the files leaves all of them files, and the content of the others. -/
lemma Files.exec {i : ι} {c : Call} {r : Reply} (h : Files L s ips)
    (he : exec L s (ips i) c = .ok (r, s', ip')) (hf : IsFile L s' ip') :
    Files L s' (update ips i ip') ∧ ∀ k, k ≠ i → content L s' (ips k) = content L s (ips k) := by
  have ha := exec_apart (h.isFile i) he
  have hsep : ∀ k, k ≠ i → Separated L s (ips i) (ips k) := fun k hk => h.separated hk.symm
  refine ⟨⟨?_, ?_⟩, fun k hk => ha.content_eq (h.isFile k) (hsep k hk)⟩
  · exact (forall_update_iff ips fun _ p => IsFile L s' p).mpr
      ⟨hf, fun k hk => ha.isFile (h.isFile k) (hsep k hk) hf.inv.valid⟩
  -- the file that was called and another one, in either order, or two others
  · intro k l hkl
    by_cases hk : k = i
    · subst hk
      rw [update_self, update_of_ne hkl.symm]
      exact ha.separated (h.isFile l) (hsep l hkl.symm)
    · rw [update_of_ne hk]
      by_cases hl : l = i
      · subst hl
        rw [update_self]
        exact (ha.separated (h.isFile k) (hsep k hk)).symm
      · rw [update_of_ne hl]
        intro m hm n hn
        rw [ha.tree_eq (h.isFile k) (hsep k hk) m hm, ha.tree_eq (h.isFile l) (hsep l hl) n hn]
        exact h.separated hkl m hm n hn

lemma Files.grown {i : ι} (h : Files L s ips) (ha : Apart L s (ips i) s1 ip1) :
    Grown L s ips s1 (update ips i ip1) := by
  refine ⟨ha.sb_eq, ?_, ?_⟩
  · intro k n hn hne
    by_cases hk : k = i
    · subst hk
      rw [update_self]
      exact ha.own () n hn hne
    · rw [update_of_ne hk]
      exact ha.tree_eq (h.isFile k) (h.separated (Ne.symm hk)) n hn
  · intro b hge hlt hu
    rcases ha.taken b hge hlt hu with hu | ⟨-, n, hn, he⟩
    · exact .inl hu
    · exact .inr ⟨i, n, hn, by rwa [update_self]⟩

lemma runFiles_spec (h : Files L s ips) (hr : runFiles L s ips calls ≠ .error .outOfBlocks) :
    ∃ s' ips', runFiles L s ips calls = .ok ((arraysRun L (fun i => content L s (ips i)) calls).1, s', ips') ∧
      Files L s' ips' ∧ Grown L s ips s' ips' ∧
      (fun i => content L s' (ips' i)) = (arraysRun L (fun i => content L s (ips i)) calls).2 := by
  induction calls generalizing s ips with
  | nil => exact ⟨s, ips, rfl, h, ⟨rfl, fun _ _ _ _ => rfl, fun _ _ _ => .inl⟩, rfl⟩
  | cons call calls ih =>
    obtain ⟨i, c⟩ := call
    rcases exec_spec (h.isFile i) (c := c) with he | ⟨s1, ip1, he, hf, hc⟩
    · simp [runFiles, he, bind, Except.bind] at hr
    · obtain ⟨hfiles, hother⟩ := h.exec he hf
      have hr1 : runFiles L s1 (update ips i ip1) calls ≠ .error .outOfBlocks := by
        intro hc
        simp [runFiles, he, hc, bind, Except.bind] at hr
      obtain ⟨s', ips', hrun, hfiles', hgrown, hcont⟩ := ih hfiles hr1
      have harr : (fun k => content L s1 (update ips i ip1 k)) =
          update (fun k => content L s (ips k)) i (arrayExec L (content L s (ips i)) c).2 := by
        funext k
        by_cases hk : k = i
        · subst hk
          simp [hc]
        · simp [hk, hother k hk]
      rw [harr] at hrun hcont
      refine ⟨s', ips', ?_, hfiles', (h.grown (exec_apart (h.isFile i) he)).trans hgrown, hcont⟩
      simp [runFiles, he, hrun, bind, Except.bind, arraysRun]

end Files
end LearnXv6.Fs.Kernel

namespace LearnXv6.Fs.Mkfs
open Kernel Store Function

variable {L : Lab} {d : ℕ → Devsw} {cs : List Call} {r : State × (ℕ → List (ℕ × ℕ))}

/-- The files of an image, when the kernel can reach the whole of each. -/
lemma image_files (hwf : WellFormed 1 cs) (hr : image L cs = .ok r)
    (hlen : ∀ j, j < r.1.freeinode → (appended cs j).length ≤ reach L * BSIZE) :
    Files L (boot r.1 d) (fun j : Fin r.1.freeinode => iload (boot r.1 d) j) ∧
      ∀ j : Fin r.1.freeinode, content L (boot r.1 d) (iload (boot r.1 d) j) = appended cs j := by
  obtain ⟨s, -, hbuilt, hfin, hle⟩ := image_spec hwf hr
  have hj : ∀ j : Fin r.1.freeinode, (j : ℕ) < inodes := fun j => j.isLt.trans_le hle
  have hreach : ∀ j : Fin r.1.freeinode, nblk (appended cs j).length ≤ reach L := fun j =>
    nblk_le_iff.mpr (hlen j j.isLt)
  have hsize : ∀ j : Fin r.1.freeinode, (iload (boot r.1 d) j).size = (appended cs j).length := by
    intro j
    rw [iload_size hfin (hj j), hbuilt.size_eq j (hj j)]
  refine ⟨⟨?_, ?_⟩, fun j => boot_content hbuilt.toLinked hfin (hj j) (hbuilt.size_eq j (hj j)) (hreach j)⟩
  · intro j
    have hinv := boot_fileInv (d := d) hbuilt.toLinked hfin (hj j)
    rw [min_eq_left (hreach j), ← hsize j] at hinv
    refine ⟨hinv, ?_⟩
    rw [iload_type hfin (hj j)]
    exact hbuilt.not_dev j (hj j)
  · intro i k hik m hm n hn he
    rw [boot_tree hbuilt.toLinked hfin (hj i) m hm] at he ⊢
    rw [boot_tree hbuilt.toLinked hfin (hj k) n hn] at he
    by_contra hne
    have hmn := hbuilt.inv.separate _ ⟨hj i, hm⟩ _ ⟨hj k, hn⟩ he hne
    simp only [Prod.mk.injEq] at hmn
    exact hik (Fin.ext hmn.1.1)

/-- From the tool to the running kernel: calls on the files of an image, in any order, return what they
return on the arrays of the bytes that were appended, until the blocks are used up; and no block is lost. -/
theorem image_runFiles_eq_arraysRun (hwf : WellFormed 1 cs) (hr : image L cs = .ok r)
    (hlen : ∀ j, j < r.1.freeinode → (appended cs j).length ≤ reach L * BSIZE)
    (calls : List (Fin r.1.freeinode × Kernel.Call))
    (hb : runFiles L (boot r.1 d) (fun j : Fin _ => iload (boot r.1 d) j) calls ≠ .error .outOfBlocks) :
    ∃ s' ips', runFiles L (boot r.1 d) (fun j : Fin _ => iload (boot r.1 d) j) calls =
        .ok ((arraysRun L (fun j : Fin _ => appended cs j) calls).1, s', ips') ∧
      Files L s' ips' ∧ Grown L (boot r.1 d) (fun j : Fin _ => iload (boot r.1 d) j) s' ips' ∧
      ∀ j, content L s' (ips' j) = (arraysRun L (fun j : Fin _ => appended cs j) calls).2 j := by
  obtain ⟨hfiles, hcont⟩ := image_files (d := d) hwf hr hlen
  obtain ⟨s', ips', hrun, hf, hg, hc⟩ := runFiles_spec hfiles hb
  simp only [hcont] at hrun hc
  exact ⟨s', ips', hrun, hf, hg, congrFun hc⟩

def twoFiles : List Call := [.ialloc T_FILE, .ialloc T_FILE]

lemma twoFiles_ok (L : Lab) (d : ℕ → Devsw) : ∃ r, image L twoFiles = .ok r ∧ r.1.freeinode = 3 ∧
    L.FSSIZE - nmeta L ≤ (free (boot r.1 d)).card := by
  obtain ⟨-, -, -, hino, hfree⟩ := format_facts L
  obtain ⟨s1, ha, hb1, hfi1, hfb1, -⟩ := ialloc_spec (format_built L) (by rw [hino]; decide)
    (show T_FILE < 2 ^ 16 by decide) (show T_FILE ≠ T_DEV by decide)
  obtain ⟨s2, ha2, hb2, hfi2, hfb2, -⟩ := ialloc_spec hb1 (by rw [hfi1, hino]; decide)
    (show T_FILE < 2 ^ 16 by decide) (show T_FILE ≠ T_DEV by decide)
  have hbuild : build L twoFiles = .ok (s2, fun _ => []) := by
    simp only [build, twoFiles, List.foldlM_cons, List.foldlM_nil, exec, ha, ha2, ok_bind]
    rfl
  obtain ⟨s3, hb3⟩ : ∃ s3, balloc L s2 s2.freeblock = .ok s3 := by
    rw [balloc, if_pos (by rw [hfb2, hfb1, hfree]; cases L <;> decide)]
    exact ⟨_, rfl⟩
  have hf := balloc_spec hb2.toLinked hb2.bitmap hb3
  refine ⟨(s3, fun _ => []), by simp only [image, hbuild, hb3, ok_bind], ?_, ?_⟩
  · rw [hf.freeinode_eq]
    omega
  · have hroom : L.FSSIZE - s2.freeblock ≤ (free (boot s3 d)).card := boot_free hf
    rwa [hfb2, hfb1, hfree] at hroom

/-- Two new files in turns, the first of them written past its direct blocks. -/
theorem empty_runFiles : ∃ r, image .itriple twoFiles = .ok r ∧ ∃ f g : Fin r.1.freeinode, f ≠ g ∧ ∃ s' ips',
    runFiles .itriple (boot r.1 noDev) (fun j : Fin _ => iload (boot r.1 noDev) j)
      [(f, .write (fun _ => 7) 0 7168), (g, .read 0 9), (f, .read 7167 9)] =
      .ok ([.wrote 7168, .data 0 [], .data 1 [7]], s', ips') ∧
    content .itriple s' (ips' f) = List.replicate 7168 7 ∧ content .itriple s' (ips' g) = [] := by
  obtain ⟨r, hr, hino, hfree⟩ := twoFiles_ok .itriple noDev
  have hwf : WellFormed 1 twoFiles := ⟨by decide, .inr rfl, by decide, .inr rfl, trivial⟩
  have hnil : ∀ j, appended twoFiles j = [] := by simp [appended, twoFiles]
  have hlen : ∀ j, j < r.1.freeinode → (appended twoFiles j).length ≤ reach .itriple * BSIZE := by
    simp [hnil]
  obtain ⟨hfiles, hcont⟩ := image_files (d := noDev) hwf hr hlen
  have hsize : ∀ j : Fin r.1.freeinode, (iload (boot r.1 noDev) j).size = 0 := by
    intro j
    rw [← content_length (L := .itriple) (s := boot r.1 noDev), hcont, hnil]
    rfl
  obtain ⟨f, g, hfg⟩ : ∃ f g : Fin r.1.freeinode, f ≠ g :=
    ⟨⟨1, by omega⟩, ⟨2, by omega⟩, by simp⟩
  have ha : Accepts .itriple (iload (boot r.1 noDev) f).size (0 : UInt32).toNat (7168 : UInt32).toNat := by
    rw [hsize]
    decide
  obtain ⟨s1, ip1, hexec, hf1, -⟩ := (hfiles.isFile f).exec_write (fun _ => 7) ha
    (le_trans (by decide) hfree)
  have hg1 := (hfiles.exec hexec hf1).1.isFile g
  rw [update_of_ne hfg.symm] at hg1
  obtain ⟨s', ips', hrun, -, -, hc⟩ := image_runFiles_eq_arraysRun (d := noDev) hwf hr hlen
    [(f, .write (fun _ => 7) 0 7168), (g, .read 0 9), (f, .read 7167 9)] (by
      simp [runFiles, hexec, hfg, hfg.symm, exec_read hf1, exec_read hg1])
  have hf₁ : arrayExec .itriple [] (.write (fun _ => 7) 0 7168) = (.wrote 7168, List.replicate 7168 7) := by
    rw [arrayExec, if_pos (by decide), overwrite, List.map_const', List.length_range, List.take_nil,
      List.drop_nil, List.nil_append, List.append_nil]
    rfl
  have hf₂ : arrayExec .itriple (List.replicate 7168 7) (.read 7167 9) =
      (.data 1 [7], List.replicate 7168 7) := by
    rw [arrayExec, List.length_replicate, if_pos (by decide), List.drop_replicate, List.take_replicate]
    rfl
  simp only [hnil, arraysRun, hf₁, show arrayExec .itriple [] (.read 0 9) = (.data 0 [], []) from rfl, hf₂,
    update_self, update_of_ne hfg, update_of_ne hfg.symm] at hrun hc
  refine ⟨r, hr, f, g, hfg, s', ips', hrun, ?_, ?_⟩
  · rw [hc f, update_self]
  · rw [hc g, update_of_ne hfg.symm, update_self]

end LearnXv6.Fs.Mkfs
