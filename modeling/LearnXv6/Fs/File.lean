import LearnXv6.Fs.Tree

/-! File content: `readi` and `writei` on a file whose first blocks are mapped. -/
namespace LearnXv6.Fs.Kernel
open Store Lab List

variable {L : Lab} {s s' : State} {ip ip' : Inode} {a bn m off : ℕ} {v : Block}

def nblk (size : ℕ) : ℕ := (size + BSIZE - 1) / BSIZE

def fileByte (L : Lab) (s : State) (ip : Inode) (i : ℕ) : UInt8 :=
  (s.disk (tree s ip (L.path (i / BSIZE)))).byte (i % BSIZE)

/-- A file whose present nodes are those of its first `m` blocks. -/
structure FileInv (L : Lab) (s : State) (ip : Inode) (m : ℕ) : Prop where
  valid : Valid s
  owns : Owns L s ip
  le : m ≤ L.MAXFILE
  mapped : ∀ n ∈ L.code.nodes, tree s ip n ≠ 0 ↔ ∃ bn, bn < m ∧ n ∈ onPath (L.path bn)

lemma FileInv.leaf_iff (h : FileInv L s ip m) (hbn : bn < L.MAXFILE) :
    tree s ip (L.path bn) ≠ 0 ↔ bn < m := by
  rw [h.mapped _ (path_mem hbn)]
  constructor
  · rintro ⟨b, hb, hs, hp⟩
    rwa [path_prefix_free hs hp]
  · intro hlt
    exact ⟨bn, hlt, rfl, prefix_rfl⟩

lemma FileInv.leaf_ne (h : FileInv L s ip m) (hbn : bn < m) : tree s ip (L.path bn) ≠ 0 :=
  (h.leaf_iff (lt_of_lt_of_le hbn h.le)).mpr hbn

lemma FileInv.leaf_inj (h : FileInv L s ip m) {b : ℕ} (hbn : bn < m) (hb : b < m)
    (he : tree s ip (L.path bn) = tree s ip (L.path b)) : bn = b := by
  have h1 := lt_of_lt_of_le hbn h.le
  have h2 := lt_of_lt_of_le hb h.le
  have hp := h.owns.separate _ (path_mem h1) _ (path_mem h2) he (h.leaf_ne hbn)
  exact path_prefix_free (by rw [hp]) (by rw [hp])

/-! Reading. -/

lemma min_block_pos {n : ℕ} (off : ℕ) (h : n ≠ 0) : 0 < min n (BSIZE - off % BSIZE) := by
  have := Nat.mod_lt off (show 0 < BSIZE by decide)
  omega

lemma add_min_block_le (m off n : ℕ) :
    off + min n (BSIZE - off % BSIZE) ≤ max m (off / BSIZE + 1) * BSIZE := by
  have hle : off + min n (BSIZE - off % BSIZE) ≤ (off / BSIZE + 1) * BSIZE := by
    rw [BSIZE_eq]
    omega
  exact hle.trans (Nat.mul_le_mul_right _ (le_max_right _ _))

lemma max_block_nblk (m off : ℕ) {n : ℕ} (h : n ≠ 0) :
    max (max m (off / BSIZE + 1)) (nblk (off + n)) = max m (nblk (off + n)) := by
  have hle : off / BSIZE + 1 ≤ nblk (off + n) := by
    rw [nblk, BSIZE_eq]
    omega
  rw [max_assoc, max_eq_right hle]

lemma mul_block_add (bn : ℕ) {i : ℕ} (h : i < BSIZE) :
    (bn * BSIZE + i) / BSIZE = bn ∧ (bn * BSIZE + i) % BSIZE = i := by
  rw [BSIZE_eq] at *
  omega

lemma div_block (off : ℕ) {i n : ℕ} (h : i < min n (BSIZE - off % BSIZE)) :
    (off + i) / BSIZE = off / BSIZE ∧ (off + i) % BSIZE = off % BSIZE + i := by
  rw [BSIZE_eq] at *
  omega

lemma readiLoop_spec {n : ℕ} (hm : m ≤ L.MAXFILE)
    (hmap : ∀ bn, bn < m → tree s ip (L.path bn) ≠ 0) (hoff : off + n ≤ m * BSIZE) :
    readiLoop L s ip off n = .ok ((List.range n).map fun i => fileByte L s ip (off + i), s, ip) := by
  induction n using Nat.strong_induction_on generalizing off with
  | _ n ih =>
    unfold readiLoop
    split
    · rename_i hn
      subst hn
      rfl
    · rename_i hn
      have hpos := min_block_pos off hn
      have hbn : off / BSIZE < m := by
        rw [BSIZE_eq] at *
        omega
      have hle : min n (BSIZE - off % BSIZE) ≤ n := min_le_left _ _
      rw [bmap_of_mapped (lt_of_lt_of_le hbn hm) (hmap _ hbn)]
      simp only [bind, Except.bind]
      rw [ih (n - min n (BSIZE - off % BSIZE)) (by omega) (by omega)]
      simp only [Except.ok.injEq, Prod.mk.injEq, and_true]
      -- the first block gives the first bytes, the recursion the others
      have hsum : n = min n (BSIZE - off % BSIZE) + (n - min n (BSIZE - off % BSIZE)) := by omega
      conv_rhs => rw [hsum, range_add, map_append, map_map]
      congr 1
      · apply map_congr_left
        intro i hi
        obtain ⟨h1, h2⟩ := div_block off (mem_range.mp hi)
        rw [fileByte, h1, h2]
      · apply map_congr_left
        intro i _
        simp [Nat.add_assoc]

/-! Writing. -/

lemma FileInv.bmap (h : FileInv L s ip m) (hle : bn ≤ m) (hbn : bn < L.MAXFILE)
    (hb : bmap L s ip bn = .ok (a, s', ip')) :
    FileInv L s' ip' (max m (bn + 1)) ∧ a = tree s' ip' (L.path bn) ∧
      Grows L (onPath (L.path bn)) s ip s' ip' := by
  obtain ⟨hv, ho, hg, hta, -⟩ := bmap_spec h.valid h.owns hbn hb
  refine ⟨⟨hv, ho, max_le h.le hbn, ?_⟩, hta.symm, hg⟩
  intro n hn
  rw [hg.mapped n hn, h.mapped n hn]
  constructor
  · rintro (⟨b, hb, hp⟩ | hp)
    · exact ⟨b, by omega, hp⟩
    · exact ⟨bn, by omega, hp⟩
  · rintro ⟨b, hb, hp⟩
    by_cases hbm : b < m
    · exact .inl ⟨b, hbm, hp⟩
    · have he : b = bn := by omega
      subst he
      exact .inr hp

lemma Grows.leaf_disk {S : Set (ℕ × List ℕ)} (hg : Grows L S s ip s' ip')
    (h : FileInv L s ip m) (hbn : bn < m) :
    s'.disk (tree s' ip' (L.path bn)) = s.disk (tree s ip (L.path bn)) := by
  have hlt := lt_of_lt_of_le hbn h.le
  rw [hg.keep _ (path_mem hlt) (h.leaf_ne hbn), hg.leaf_eq bn hlt (h.leaf_ne hbn)]

lemma tree_logWrite_leaf (ho : Owns L s ip) (hbn : bn < L.MAXFILE)
    (n : ℕ × List ℕ) (hn : n ∈ L.code.nodes) :
    tree (s.logWrite (tree s ip (L.path bn)) v) ip n = tree s ip n := by
  apply table_congr L.nodes_prefixClosed (fun _ _ => rfl) ?_ n hn
  intro r ks k hr hne
  have := leaf_ne_parent ho hbn hr hne
  change Store.Block.word ((s.logWrite _ _).disk (tree s ip (r, ks))) k = _
  rw [logWrite_disk_of_ne this]
  rfl

lemma FileInv.logWrite_leaf (h : FileInv L s ip m) (hbn : bn < m) :
    FileInv L (s.logWrite (tree s ip (L.path bn)) v) ip m := by
  have hlt := lt_of_lt_of_le hbn h.le
  obtain ⟨hd, -, -⟩ := h.owns.owned _ (path_mem hlt) (h.leaf_ne hbn)
  have ht := tree_logWrite_leaf (v := v) h.owns hlt
  refine ⟨h.valid.logWrite_data hd, ⟨h.owns.inode_lt, ?_, h.owns.separate.congr ht⟩, h.le, ?_⟩
  · intro n hn hne
    rw [ht n hn] at hne ⊢
    obtain ⟨h1, h2, h3⟩ := h.owns.owned n hn hne
    exact ⟨h1, h2, by rwa [used_logWrite_data hd h2]⟩
  · intro n hn
    rw [ht n hn]
    exact h.mapped n hn

lemma Grows.fileByte_eq {S : Set (ℕ × List ℕ)} (hg : Grows L S s ip s' ip')
    (h : FileInv L s ip m) {i : ℕ} (hi : i < m * BSIZE) : fileByte L s' ip' i = fileByte L s ip i := by
  have hbn := Nat.div_lt_of_lt_mul (by rwa [Nat.mul_comm])
  rw [fileByte, hg.leaf_disk h hbn, fileByte]

lemma fileByte_logWrite_leaf (h : FileInv L s ip m) {k i : ℕ} {src : ℕ → UInt8}
    (hoff : off / BSIZE < m) (hk : off % BSIZE + k ≤ BSIZE) (hi : i < m * BSIZE) :
    fileByte L (s.logWrite (tree s ip (L.path (off / BSIZE)))
      ((s.disk (tree s ip (L.path (off / BSIZE)))).blit (off % BSIZE) k src)) ip i =
      if off ≤ i ∧ i < off + k then src (i - off) else fileByte L s ip i := by
  have hib := Nat.div_lt_of_lt_mul (by rwa [Nat.mul_comm])
  have hlt := lt_of_lt_of_le hoff h.le
  have hmem := path_mem (lt_of_lt_of_le hib h.le)
  rw [fileByte, tree_logWrite_leaf h.owns hlt _ hmem]
  by_cases he : i / BSIZE = off / BSIZE
  · rw [he, logWrite_disk_self, Store.Block.byte_blit hk, fileByte, he]
    have hmod : (off % BSIZE ≤ i % BSIZE ∧ i % BSIZE < off % BSIZE + k) ↔
        (off ≤ i ∧ i < off + k) := by
      rw [BSIZE_eq] at *
      omega
    by_cases hr : off ≤ i ∧ i < off + k
    · rw [if_pos hr, if_pos (hmod.mpr hr)]
      congr 1
      rw [BSIZE_eq] at *
      omega
    · rw [if_neg hr, if_neg (fun hc => hr (hmod.mp hc))]
  · have hne : tree s ip (L.path (i / BSIZE)) ≠ tree s ip (L.path (off / BSIZE)) :=
      fun hc => he (h.leaf_inj hib hoff hc)
    rw [logWrite_disk_of_ne hne, if_neg ?_, fileByte]
    rw [BSIZE_eq] at *
    omega

lemma nblk_le_iff {k c : ℕ} : nblk k ≤ c ↔ k ≤ c * BSIZE := by
  rw [nblk, BSIZE_eq]
  omega

lemma lt_nblk_iff {k c : ℕ} : c < nblk k ↔ c * BSIZE < k := by
  rw [nblk, BSIZE_eq]
  omega

structure Wrote (L : Lab) (s : State) (ip : Inode) (m : ℕ) (src : ℕ → UInt8) (off n : ℕ)
    (s' : State) (ip' : Inode) : Prop where
  inv : FileInv L s' ip' (max m (nblk (off + n)))
  sb_eq : s'.sb = s.sb
  devsw_eq : s'.devsw = s.devsw
  inode_eq : ip' = { ip with addrs := ip'.addrs }
  byte_eq : ∀ i, i < off + n ∨ i < m * BSIZE → fileByte L s' ip' i =
    if off ≤ i ∧ i < off + n then src (i - off) else fileByte L s ip i

lemma writeiLoop_spec {n : ℕ} {src : ℕ → UInt8} (h : FileInv L s ip m) (hoff : off ≤ m * BSIZE)
    (hn : off + n ≤ L.MAXFILE * BSIZE) (hw : writeiLoop L s ip src off n = .ok (s', ip')) :
    Wrote L s ip m src off n s' ip' := by
  induction n using Nat.strong_induction_on generalizing s ip off src m with
  | _ n ih =>
    unfold writeiLoop at hw
    split at hw
    · rename_i hz
      subst hz
      cases hw
      have hmax : max m (nblk (off + 0)) = m := max_eq_left (nblk_le_iff.mpr hoff)
      refine ⟨by rwa [hmax], rfl, rfl, rfl, ?_⟩
      intro i _
      rw [if_neg (by omega)]
    · rename_i hz
      have hpos := min_block_pos off hz
      have hk : off % BSIZE + min n (BSIZE - off % BSIZE) ≤ BSIZE := by
        have := Nat.mod_lt off (show 0 < BSIZE by decide)
        omega
      have hend := add_min_block_le m off n
      have hmax := max_block_nblk m off hz
      generalize hmin : min n (BSIZE - off % BSIZE) = k at *
      have hkn : k ≤ n := by omega
      have hbm : off / BSIZE ≤ m := by
        rw [BSIZE_eq] at *
        omega
      have hbn : off / BSIZE < L.MAXFILE := by
        rw [BSIZE_eq] at *
        omega
      cases hb : bmap L s ip (off / BSIZE) with
      | error e => simp [hb, bind, Except.bind] at hw
      | ok p =>
        obtain ⟨a, s1, ip1⟩ := p
        obtain ⟨hinv, rfl, hg⟩ := h.bmap hbm hbn hb
        simp only [hb, bind, Except.bind] at hw
        have hlt : off / BSIZE < max m (off / BSIZE + 1) := by omega
        have hr := ih (n - k) (by omega) (hinv.logWrite_leaf hlt) hend (by omega) hw
        have hnk : off + k + (n - k) = off + n := by omega
        refine ⟨?_, hr.sb_eq.trans hg.sb_eq, hr.devsw_eq.trans hg.devsw_eq, ?_, ?_⟩
        · have := hr.inv
          rwa [hnk, hmax] at this
        · rw [hr.inode_eq, hg.inode_eq]
        · intro i hi
          have hsplit : i < off + k + (n - k) ∨ i < max m (off / BSIZE + 1) * BSIZE := by
            rcases hi with hi | hi
            · exact .inl (by omega)
            · exact .inr (lt_of_lt_of_le hi (Nat.mul_le_mul_right _ (le_max_left _ _)))
          rw [hr.byte_eq i hsplit]
          by_cases h1 : off + k ≤ i ∧ i < off + k + (n - k)
          · rw [if_pos h1, if_pos (by omega)]
            congr 1
            omega
          · rw [if_neg h1]
            by_cases h2 : off ≤ i ∧ i < off + n
            · have hi' : i < off + k := by omega
              rw [fileByte_logWrite_leaf hinv hlt hk (by omega), if_pos ⟨h2.1, hi'⟩, if_pos h2]
            · have him : i < m * BSIZE := by
                rcases hi with hi | hi
                · omega
                · exact hi
              have him' : i < max m (off / BSIZE + 1) * BSIZE :=
                lt_of_lt_of_le him (Nat.mul_le_mul_right _ (le_max_left _ _))
              rw [fileByte_logWrite_leaf hinv hlt hk him', if_neg (by omega), if_neg h2,
                hg.fileByte_eq h him]

lemma writeiLoop_error {n : ℕ} {src : ℕ → UInt8} {e : Panic}
    (hn : off + n ≤ L.MAXFILE * BSIZE) (hw : writeiLoop L s ip src off n = .error e) : e = .outOfBlocks := by
  induction n using Nat.strong_induction_on generalizing s ip off src with
  | _ n ih =>
    unfold writeiLoop at hw
    split at hw
    · cases hw
    · rename_i hz
      have hpos := min_block_pos off hz
      have hbn : off / BSIZE < L.MAXFILE := by
        rw [BSIZE_eq] at *
        omega
      cases hb : bmap L s ip (off / BSIZE) with
      | error e' =>
        simp only [hb, bind, Except.bind, Except.error.injEq] at hw
        exact hw ▸ bmap_error hbn hb
      | ok p =>
        simp only [hb, bind, Except.bind] at hw
        exact ih _ (by omega) (by omega) hw

end LearnXv6.Fs.Kernel
