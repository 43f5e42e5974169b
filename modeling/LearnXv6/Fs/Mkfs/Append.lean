import LearnXv6.Fs.File
import LearnXv6.Fs.Mkfs.Forest

/-! `iappend`: what it adds to one file and leaves of the others. -/
namespace LearnXv6.Fs.Mkfs
open Function Store Kernel List Store.Block Lab Nat

variable {L : Lab} {s s' : State} {dins dins' : ℕ → Dinode} {din din' : Dinode}
  {j k n x off fbn : ℕ} {buf : Block} {src : ℕ → UInt8}

lemma Inv.change (h : Inv L s dins) (hnsect : s'.nsect = s.nsect)
    (hfree : s.freeblock ≤ s'.freeblock) (hle : s'.freeblock ≤ L.FSSIZE + 1)
    (hsuper : s'.sect 1 = s.sect 1) (hzero : ∀ b, s'.freeblock ≤ b → s'.sect b = s.sect b)
    (hindex : ∀ r ks k, (r, ks ++ [k]) ∈ allNodes L → forest s dins (r, ks) ≠ 0 →
      s'.sect (forest s dins (r, ks)) = s.sect (forest s dins (r, ks))) (hfits : ∀ j, (dins' j).Fits)
    (haddrs : ∀ j, j < inodes → (dins' j).addrs = (dins j).addrs) :
    Inv L s' dins' ∧ ∀ n ∈ allNodes L, forest s' dins' n = forest s dins n := by
  have ht : ∀ n ∈ allNodes L, forest s' dins' n = forest s dins n := by
    apply table_congr (allNodes_prefixClosed L)
    · rintro ⟨i, k⟩ hr
      exact congrFun (haddrs i hr.1) k
    · intro r ks k hn hne
      exact congrArg (fun b : Block => b.word k) (hindex r ks k hn hne)
  refine ⟨⟨hnsect.trans h.nsect_eq, h.nmeta_le.trans hfree, hle, hsuper.trans h.super, ?_,
    hfits, ?_, h.separate.congr ht⟩, ht⟩
  · intro b hb
    rw [hzero b hb, h.zero b (hfree.trans hb)]
  · intro n hn hne
    rw [ht n hn] at hne ⊢
    obtain ⟨h1, h2⟩ := h.owned n hn hne
    exact ⟨h1, h2.trans_le hfree⟩

/-! Blocks past the first index block in idouble and itriple. -/

section

variable (hk : k < NINDIRECT)
include hk

lemma fill_zero {t : Block} (hz : t.word k = 0) :
    fill s t k = .ok ({ s with freeblock := s.freeblock + 1 }, t.setWord k s.freeblock) := by
  rw [fill, if_neg (by omega), if_pos hz]

lemma fillWrite_zero {t : Block} {sec : ℕ} (hz : t.word k = 0) :
    fillWrite s t k sec = .ok (wsect { s with freeblock := s.freeblock + 1 } sec
      (t.setWord k s.freeblock), t.setWord k s.freeblock) := by
  rw [fillWrite, if_neg (by omega), if_pos hz]

lemma word_setWord_self {t : Block} {v : ℕ} (hv : v < 2 ^ 32) : (t.setWord k v).word k = v := by
  rw [NINDIRECT_eq] at hk
  rw [word_setWord (by rw [BSIZE_eq]; omega), if_pos rfl, mod_eq_of_lt hv]

lemma word_setWord_of_ne {t : Block} {v i : ℕ} (hi : i ≠ k) : (t.setWord k v).word i = t.word i := by
  rw [NINDIRECT_eq] at hk
  rw [word_setWord (by rw [BSIZE_eq]; omega), if_neg hi]

lemma word_setWord_or {t : Block} {v i : ℕ} (hv : v < 2 ^ 32) (hz : t.word i = 0) :
    (t.setWord k v).word i = 0 ∨ v ≤ (t.setWord k v).word i ∧ (t.setWord k v).word i < v + 1 := by
  by_cases hi : i = k
  · rw [hi, word_setWord_self hk hv]
    exact .inr ⟨le_rfl, v.lt_succ_self⟩
  · rw [word_setWord_of_ne hk hi, hz]
    exact .inl rfl

end

lemma fillAddr_of_ne (h : din.addrs k ≠ 0) : fillAddr s din k = (s, din) := if_neg h

/-- The block number `fbn` gets the block `g`, and its index block, which nothing on the disk names, is
written to a sector that no file has. -/
def Deep (L : Lab) (s : State) (din : Dinode) (fbn : ℕ) : Prop :=
  ∃ g sec t, s.freeblock < g ∧ g ≤ s.freeblock + 2 ∧ (sec = 0 ∨ s.freeblock ≤ sec ∧ sec < g) ∧
    block L s din fbn = if g ≤ L.FSSIZE then
      .ok (g, wsect { s with freeblock := g + 1 } sec t, din) else .error .perror

section Deep

variable (h : Inv L s dins) (hle : s.freeblock ≤ L.FSSIZE)
include h

lemma rsect_fresh {i : ℕ} (hi : s.freeblock ≤ i) (hi' : i ≤ L.FSSIZE) (c : ℕ) :
    rsect { s with freeblock := c } i = if i < L.FSSIZE then .ok 0 else .error .perror := by
  have hlay := layout L
  simp only [rsect, mod_eq_of_lt (show i < 2 ^ 23 by omega), h.nsect_eq, h.zero i hi]

include hle

lemma rsect_index (hj : j < inodes) :
    rsect s ((dins j).addrs L.NDIRECT) = .ok (s.sect ((dins j).addrs L.NDIRECT)) := by
  have hlt : (dins j).addrs L.NDIRECT < s.freeblock :=
    h.forest_lt (n := ((j, L.NDIRECT), [])) ⟨hj, slot_mem le_rfl⟩
  have hlay := layout L
  exact (rsect_eq_ok (by omega)).mpr ⟨by rw [h.nsect_eq]; omega, rfl⟩

/-- The tail of a detached second level: the block at `f` was just taken for an index block that
no block on the disk names. -/
lemma second_level {o sec : ℕ} (ho : o < NINDIRECT) (din : Dinode) :
    (do
      let indirect2 ← rsect { s with freeblock := s.freeblock + 1 } s.freeblock
      let (s, indirect2) ← fillWrite { s with freeblock := s.freeblock + 1 } indirect2 o sec
      Except.ok (indirect2.word o, s, din)) =
    if s.freeblock + 1 ≤ L.FSSIZE then
      .ok (s.freeblock + 1, wsect { s with freeblock := s.freeblock + 1 + 1 } sec
        ((0 : Block).setWord o (s.freeblock + 1)), din)
    else .error .perror := by
  have hlay := layout L
  rw [rsect_fresh h le_rfl hle]
  by_cases hlt : s.freeblock < L.FSSIZE
  · rw [if_pos hlt, if_pos (by omega)]
    simp only [ok_bind]
    rw [fillWrite_zero ho (word_zero o)]
    simp only [ok_bind]
    rw [word_setWord_self ho (by omega)]
  · rw [if_neg hlt, if_neg (by omega)]
    rfl

variable (hj : j < inodes) (hne : (dins j).addrs L.NDIRECT ≠ 0)
include hj hne

/-- Compiled for isingle, the stock text leaves its array past the first index block. -/
lemma isingle_deep_eq (hL : L = .isingle) (hlo : reach L ≤ fbn) :
    block L s (dins j) fbn = .error .outOfRange := by
  subst hL
  have hlo : 138 ≤ fbn := hlo
  have hrd := rsect_index h hle hj
  have hd : ¬ fbn < isingle.NDIRECT := by
    change ¬ fbn < 10
    omega
  have hout : NINDIRECT ≤ fbn - isingle.NDIRECT := by
    change 128 ≤ fbn - 10
    omega
  simp only [block, blockStock, hd, if_false, fillAddr_of_ne hne, hrd, ok_bind, fillWrite,
    if_pos hout, error_bind]

variable (hz : ∀ k, L.NDIRECTIB ≤ k → k < NINDIRECT → s.word ((dins j).addrs L.NDIRECT) k = 0)
  (hlo : reach L ≤ fbn) (hhi : fbn < L.MAXFILE)
include hz hlo hhi

lemma idouble_deep (hL : L = .idouble) : Deep L s (dins j) fbn := by
  subst hL
  have hlo : 136 ≤ fbn := hlo
  have hhi : fbn < 648 := hhi
  have hrd := rsect_index h hle hj
  have hlay := layout .idouble
  have hd : ¬ fbn < idouble.NDIRECT := by
    change ¬ fbn < 12
    omega
  have hs : ¬ fbn - idouble.NDIRECT < idouble.NDIRECTIB := by
    change ¬ fbn - 12 < 124
    omega
  generalize hk : idouble.NDIRECTIB +
    (fbn - idouble.NDIRECT - idouble.NDIRECTIB) / NINDIRECT = k
  have hk' : 124 + (fbn - 12 - 124) / 128 = k := hk
  have hklt : k < NINDIRECT := by
    rw [NINDIRECT_eq]
    omega
  have hzk := hz k (by change 124 ≤ k; omega) hklt
  have hf : s.freeblock < 2 ^ 32 := by omega
  have ho : (fbn - idouble.NDIRECT - idouble.NDIRECTIB) % NINDIRECT < NINDIRECT :=
    mod_lt _ (by decide)
  refine ⟨s.freeblock + 1, ((s.sect ((dins j).addrs 12)).setWord k s.freeblock).word 124,
    (0 : Block).setWord ((fbn - 12 - 124) % 128) (s.freeblock + 1), by omega, by omega, ?_, ?_⟩
  · exact word_setWord_or hklt hf (hz 124 le_rfl (by decide))
  · simp only [block, blockIdouble, hd, if_false, fillAddr_of_ne hne, hrd, ok_bind, hs, hk]
    rw [fill_zero hklt hzk]
    simp only [ok_bind]
    rw [word_setWord_self hklt hf]
    exact second_level h hle ho (dins j)

lemma itriple_deep (hL : L = .itriple) : Deep L s (dins j) fbn := by
  subst hL
  have hlo : 138 ≤ fbn := hlo
  have hhi : fbn < 902 := hhi
  have hrd := rsect_index h hle hj
  have hlay := layout .itriple
  have hd : ¬ fbn < itriple.NDIRECT := by
    change ¬ fbn < 12
    omega
  have hs : ¬ fbn - itriple.NDIRECT < itriple.NDIRECTIB := by
    change ¬ fbn - 12 < 126
    omega
  generalize hk : itriple.NDIRECTIB + (fbn - itriple.NDIRECT - itriple.NDIRECTIB) /
    (NINDIRECT * itriple.NINDIRECTIB + itriple.NDIRECTIB) = k
  generalize ho : (fbn - itriple.NDIRECT - itriple.NDIRECTIB) %
    (NINDIRECT * itriple.NINDIRECTIB + itriple.NDIRECTIB) = o
  have hk' : 126 + (fbn - 12 - 126) / 382 = k := hk
  have ho' : (fbn - 12 - 126) % 382 = o := ho
  have hklt : k < NINDIRECT := by
    rw [NINDIRECT_eq]
    omega
  have hzk := hz k (by change 126 ≤ k; omega) hklt
  have hf : s.freeblock < 2 ^ 32 := by omega
  by_cases hd2 : o < itriple.NDIRECTIB
  · have ho128 : o < NINDIRECT := lt_trans hd2 (by decide)
    refine ⟨s.freeblock + 1, ((s.sect ((dins j).addrs 12)).setWord k s.freeblock).word 126,
      (0 : Block).setWord o (s.freeblock + 1), by omega, by omega, ?_, ?_⟩
    · exact word_setWord_or hklt hf (hz 126 le_rfl (by decide))
    · simp only [block, blockItriple, hd, if_false, fillAddr_of_ne hne, hrd, ok_bind, hs, hk,
        ho, hd2, if_true]
      rw [fill_zero hklt hzk]
      simp only [ok_bind]
      rw [word_setWord_self hklt hf]
      exact second_level h hle ho128 (dins j)
  · -- the second-level block is zero and stays so on disk: only the third level is written
    have hk2lt : itriple.NDIRECTIB + (o - itriple.NDIRECTIB) / NINDIRECT < NINDIRECT := by
      change 126 + (o - 126) / 128 < 128
      omega
    have ho2 : (o - itriple.NDIRECTIB) % NINDIRECT < NINDIRECT := mod_lt _ (by decide)
    refine ⟨s.freeblock + 2, s.freeblock + 1,
      (0 : Block).setWord ((o - 126) % 128) (s.freeblock + 2), by omega, by omega,
      .inr (by omega), ?_⟩
    simp only [block, blockItriple, hd, if_false, fillAddr_of_ne hne, hrd, ok_bind, hs, hk, ho, hd2]
    rw [fill_zero hklt hzk]
    simp only [ok_bind]
    rw [word_setWord_self hklt hf, rsect_fresh h le_rfl hle]
    by_cases hlt : s.freeblock < itriple.FSSIZE
    · rw [if_pos hlt]
      simp only [ok_bind]
      rw [fill_zero hk2lt (word_zero _)]
      simp only [ok_bind]
      rw [word_setWord_self hk2lt (by omega), rsect_fresh h (by omega) (by omega)]
      by_cases hlt2 : s.freeblock + 1 < itriple.FSSIZE
      · rw [if_pos hlt2, if_pos (by omega)]
        simp only [ok_bind, ho2, if_true]
        rw [fillWrite_zero ho2 (word_zero _)]
        simp only [ok_bind]
        rw [word_setWord_self ho2 (by omega)]
        rfl
      · rw [if_neg hlt2, if_neg (by omega)]
        rfl
    · rw [if_neg hlt, if_neg (by omega)]
      rfl

lemma deep (hL : L ≠ .isingle) : Deep L s (dins j) fbn := by
  cases hL' : L with
  | isingle => exact absurd hL' hL
  | idouble => exact hL' ▸ idouble_deep h hle hj hne hz hlo hhi hL'
  | itriple => exact hL' ▸ itriple_deep h hle hj hne hz hlo hhi hL'
  | _ =>
    subst hL'
    exact absurd hhi (not_lt.mpr hlo)

end Deep

/-- The block `x` is new and no block below `freeblock` changed, the boot block apart. -/
structure Detached (L : Lab) (s : State) (x : ℕ) (s' : State) : Prop where
  nsect_eq : s'.nsect = s.nsect
  freeinode_eq : s'.freeinode = s.freeinode
  le : s.freeblock ≤ x
  lt : x < s'.freeblock
  bounded : Bounded L s' x
  last_le : s'.freeblock ≤ L.FSSIZE + 1
  sect_eq : ∀ b, 0 < b → b < s.freeblock → s'.sect b = s.sect b
  zero : ∀ b, s'.freeblock ≤ b → s'.sect b = s.sect b

lemma block_deep_spec (h : Inv L s dins) (hj : j < inodes) (hle : s.freeblock ≤ L.FSSIZE)
    (hne : (dins j).addrs L.NDIRECT ≠ 0)
    (hz : ∀ k, L.NDIRECTIB ≤ k → k < NINDIRECT → s.word ((dins j).addrs L.NDIRECT) k = 0)
    (hlo : reach L ≤ fbn) (hhi : fbn < L.MAXFILE)
    (hb : block L s (dins j) fbn = .ok (x, s', din')) : din' = dins j ∧ Detached L s x s' := by
  have hL : L ≠ .isingle := by
    intro hL
    rw [isingle_deep_eq h hle hj hne hL hlo] at hb
    cases hb
  obtain ⟨g, sec, t, hg, hg2, hsec, heq⟩ := deep h hle hj hne hz hlo hhi hL
  have hlay := layout L
  rw [heq] at hb
  obtain ⟨hgle, hb⟩ := then_eq_ok.mp hb
  simp only [Except.ok.injEq, Prod.mk.injEq] at hb
  obtain ⟨rfl, rfl, rfl⟩ := hb
  have hsec23 : sec < 2 ^ 23 := by omega
  refine ⟨rfl, ⟨?_, rfl, hg.le, ?_, ?_, ?_, ?_, ?_⟩⟩
  · apply wsect_nsect hsec23
    rw [h.nsect_eq]
    omega
  · exact lt_succ_self g
  · change g + 1 ≤ L.FSSIZE ∨ L.FSSIZE ≤ g
    omega
  · change g + 1 ≤ L.FSSIZE + 1
    omega
  · intro b hb hlt
    rw [wsect_sect hsec23, update_of_ne (by omega)]
  · intro b hb
    have hb : g + 1 ≤ b := hb
    rw [wsect_sect hsec23, update_of_ne (by omega)]

/-- The longest file that `iappend` can finish, in blocks. -/
def limit (L : Lab) : ℕ :=
  match L with
  | .isingle => reach .isingle
  | _ => L.MAXFILE

lemma limit_le (L : Lab) : limit L ≤ L.MAXFILE := by cases L <;> decide

lemma reach_le_limit (L : Lab) : reach L ≤ limit L := by cases L <;> decide

/-! One file of the image. -/

/-- Inode `j` holds the bytes `c`, as far as `iappend` links them, and `t` lists the sectors
written for each of its blocks. -/
structure Holds (L : Lab) (s : State) (dins : ℕ → Dinode) (j : ℕ) (c : List UInt8)
    (t : List (ℕ × ℕ)) : Prop where
  mapped : ∀ n ∈ L.code.nodes, forest s dins ((j, n.1), n.2) ≠ 0 ↔
    ∃ bn, bn < min (nblk c.length) (reach L) ∧ n ∈ Kernel.onPath (L.path bn)
  data : ∀ i, i < c.length → i / BSIZE < reach L →
    (s.sect (forest s dins (leaf L j (i / BSIZE)))).byte (i % BSIZE) = c.getD i 0
  wrote : ∀ bn x, (bn, x) ∈ t → bn < nblk c.length ∧
    (bn < reach L → forest s dins (leaf L j bn) = x)
  traced : ∀ bn, bn < nblk c.length → ∃ x, (bn, x) ∈ t

section Holds

variable {c : List UInt8} {t : List (ℕ × ℕ)}

lemma Holds.leaf_ne (h : Holds L s dins j c t) {bn : ℕ} (hbn : bn < nblk c.length)
    (hr : bn < reach L) : forest s dins (leaf L j bn) ≠ 0 :=
  (h.mapped _ (path_mem (hr.trans_le (reach_le L)))).mpr
    ⟨bn, lt_min hbn hr, rfl, prefix_rfl⟩

lemma Holds.traced_append (h : Holds L s dins j c t) (hoff : off = c.length) {bn : ℕ}
    (hbn : bn < off / BSIZE + 1) (x : ℕ) : ∃ y, (bn, y) ∈ t ++ [(off / BSIZE, x)] := by
  by_cases hbo : bn = off / BSIZE
  · exact ⟨x, by simp [hbo]⟩
  · have hlt : bn < nblk c.length := by
      rw [lt_nblk_iff, ← hoff]
      rw [BSIZE_eq] at *
      omega
    obtain ⟨y, hy⟩ := h.traced bn hlt
    exact ⟨y, mem_append_left _ hy⟩

lemma wrote_append (hlen : nblk off ≤ off / BSIZE + 1)
    (h : ∀ bn y, (bn, y) ∈ t → bn < nblk off ∧ (bn < reach L → forest s' dins' (leaf L j bn) = y))
    (hx : off / BSIZE < reach L → forest s' dins' (leaf L j (off / BSIZE)) = x) {bn y : ℕ}
    (hm : (bn, y) ∈ t ++ [(off / BSIZE, x)]) :
    bn < off / BSIZE + 1 ∧ (bn < reach L → forest s' dins' (leaf L j bn) = y) := by
  rcases mem_append.mp hm with hm | hm
  · obtain ⟨h1, h2⟩ := h bn y hm
    exact ⟨h1.trans_le hlen, h2⟩
  · simp only [mem_singleton, Prod.mk.injEq] at hm
    obtain ⟨rfl, rfl⟩ := hm
    exact ⟨lt_succ_self _, hx⟩

lemma Holds.congr (h : Holds L s dins j c t)
    (ht : ∀ n ∈ L.code.nodes, forest s' dins' ((j, n.1), n.2) = forest s dins ((j, n.1), n.2))
    (hd : ∀ bn, bn < nblk c.length → bn < reach L →
      s'.sect (forest s dins (leaf L j bn)) = s.sect (forest s dins (leaf L j bn))) :
    Holds L s' dins' j c t where
  mapped := by
    intro n hn
    rw [ht n hn]
    exact h.mapped n hn
  data := by
    intro i hi hr
    have hleaf := ht _ (path_mem (hr.trans_le (reach_le L)))
    have hbn : i / BSIZE < nblk c.length := lt_nblk_iff.mpr (by
      have := div_mul_le_self i BSIZE
      omega)
    rw [leaf, hleaf, ← leaf, hd _ hbn hr]
    exact h.data i hi hr
  wrote := by
    intro bn x hm
    obtain ⟨h1, h2⟩ := h.wrote bn x hm
    refine ⟨h1, fun hr => ?_⟩
    rw [leaf, ht _ (path_mem (hr.trans_le (reach_le L))), ← leaf, h2 hr]
  traced := h.traced

end Holds

lemma Inv.wsect_data (h : Inv L s dins) (buf : Block) (hx : nmeta L ≤ x) (hlt : x < s.freeblock)
    (hin : x < L.FSSIZE) (hindex : ∀ r ks k, (r, ks ++ [k]) ∈ allNodes L → forest s dins (r, ks) ≠ 0 →
      forest s dins (r, ks) ≠ x) : Inv L (wsect s x buf) dins ∧
      ∀ n ∈ allNodes L, forest (wsect s x buf) dins n = forest s dins n := by
  have hlay := layout L
  have hx23 : x < 2 ^ 23 := by omega
  have hother : ∀ b, b ≠ x → (wsect s x buf).sect b = s.sect b := by
    intro b hb
    rw [wsect_sect hx23, update_of_ne hb]
  refine h.change (wsect_nsect hx23 (by rw [h.nsect_eq]; exact hin)) le_rfl h.free_le
    (hother 1 (by omega)) ?_ ?_ h.fits (fun _ _ => rfl)
  · intro b hb
    have hb : s.freeblock ≤ b := hb
    exact hother b (by omega)
  · intro r ks k hn hne
    exact hother _ (hindex r ks k hn hne)

/-- What one pass of the loop of `iappend` does to the file `j` and to the others. -/
structure Passed (L : Lab) (s : State) (dins : ℕ → Dinode) (j : ℕ) (c : ℕ → List UInt8)
    (t : ℕ → List (ℕ × ℕ)) (p : List UInt8) (u : List (ℕ × ℕ)) (s' : State) (din' : Dinode) :
    Prop where
  inv : Inv L s' (update dins j din')
  free_le : s'.freeblock ≤ L.FSSIZE
  freeinode_eq : s'.freeinode = s.freeinode
  low_eq : ∀ b, 0 < b → b < nmeta L → s'.sect b = s.sect b
  inode_eq : din' = { dins j with addrs := din'.addrs }
  other : ∀ i, i < inodes → i ≠ j → Holds L s' (update dins j din') i (c i) (t i)
  self : Holds L s' (update dins j din') j (c j ++ p) (t j ++ u)

lemma getD_append_map {c : List UInt8} {i : ℕ} (hi : i < c.length + n) :
    (c ++ (List.range n).map src).getD i 0 =
      if i < c.length then c.getD i 0 else src (i - c.length) := by
  by_cases hc : i < c.length
  · rw [if_pos hc, getD_append _ _ _ _ hc]
  · rw [if_neg hc, getD_append_right _ _ _ _ (by omega)]
    have hlt : i - c.length < n := by omega
    simp [getD_eq_getElem?_getD, hlt]

lemma nblk_pass (hn : 0 < n) (hblk : off % BSIZE + n ≤ BSIZE) : nblk (off + n) = off / BSIZE + 1 ∧
    (nblk off = off / BSIZE ∨ nblk off = off / BSIZE + 1) := by
  simp only [nblk, BSIZE_eq] at *
  omega

section Pass

variable {s₁ : State} {din₁ : Dinode} {c : ℕ → List UInt8} {t : ℕ → List (ℕ × ℕ)}
  (h : Inv L s dins) (hle : s.freeblock ≤ L.FSSIZE) (hj : j < inodes)
  (hf : ∀ i, i < inodes → Holds L s dins i (c i) (t i)) (hoff : off = (c j).length)
  (hn : 0 < n) (hblk : off % BSIZE + n ≤ BSIZE)
  (hb : block L s (dins j) (off / BSIZE) = .ok (x, s₁, din₁)) (hr : rsect s₁ x = .ok buf)
include h hle hj hf hoff hn hblk hb hr

lemma pass_linked (hfbn : off / BSIZE < reach L) :
    Passed L s dins j c t ((List.range n).map src) [(off / BSIZE, x)]
      (wsect s₁ x (buf.blit (off % BSIZE) n src)) din₁ := by
  have hmax := hfbn.trans_le (reach_le L)
  have hlay := layout L
  rw [block_eq_walk hfbn] at hb
  obtain ⟨h₁, hg, hx, hx0, hbd, -, hd⟩ := walk_spec h hj (path_mem hmax) hle hb
  have hlmem := leaf_mem hj hmax
  have hx : forest s₁ (update dins j din₁) (leaf L j (off / BSIZE)) = x := hx
  have hown := h₁.owned _ hlmem (by rwa [hx])
  rw [hx] at hown
  have hfl := h₁.free_le
  obtain ⟨hin, hbuf⟩ := (rsect_eq_ok (by omega)).mp hr
  rw [h₁.nsect_eq] at hin
  obtain ⟨h₂, ht2⟩ := h₁.wsect_data (buf.blit (off % BSIZE) n src) hown.1 hown.2 hin (by
    intro r ks k hm hne he
    have hsame := h₁.separate _ (allNodes_prefixClosed L _ _ _ hm) _ hlmem (he.trans hx.symm) hne
    obtain ⟨rfl, rfl⟩ := Prod.mk.inj hsame
    exact path_snoc_not_mem hmax hm.2)
  have hsect : (wsect s₁ x (buf.blit (off % BSIZE) n src)).sect =
      update s₁.sect x (buf.blit (off % BSIZE) n src) := wsect_sect (by omega)
  generalize hs2 : wsect s₁ x (buf.blit (off % BSIZE) n src) = s2 at h₂ ht2 hsect ⊢
  -- a leaf that was there keeps its address and, unless it is the one written, its content
  have hleaf : ∀ i bn, i < inodes → bn < L.MAXFILE → forest s dins (leaf L i bn) ≠ 0 →
      leaf L i bn ≠ leaf L j (off / BSIZE) →
      s2.sect (forest s dins (leaf L i bn)) = s.sect (forest s dins (leaf L i bn)) := by
    intro i bn hi hbn hne hij
    have hmem := leaf_mem hi hbn
    have hk := hg.keep _ hmem hne
    have hnx : forest s dins (leaf L i bn) ≠ x := by
      intro he
      refine hij (h₁.separate _ hmem _ hlmem ?_ (by rwa [hk]))
      rw [hk, he, hx]
    rw [hsect, update_of_ne hnx, hg.leaf_eq i bn hi hbn hne]
  obtain ⟨hnblk, hold⟩ := nblk_pass hn hblk
  have hmapped : ∀ m ∈ L.code.nodes, forest s2 (update dins j din₁) ((j, m.1), m.2) ≠ 0 ↔
      forest s dins ((j, m.1), m.2) ≠ 0 ∨ m ∈ Kernel.onPath (L.path (off / BSIZE)) := by
    intro m hm
    rw [ht2 _ ⟨hj, hm⟩, hg.mapped _ ⟨hj, hm⟩]
    simp [onPath, Kernel.onPath]
  have hkeep : ∀ m ∈ L.code.nodes, forest s dins ((j, m.1), m.2) ≠ 0 →
      forest s2 (update dins j din₁) ((j, m.1), m.2) = forest s dins ((j, m.1), m.2) := by
    intro m hm hne
    rw [ht2 _ ⟨hj, hm⟩, hg.keep _ ⟨hj, hm⟩ hne]
  refine ⟨h₂, ?_, ?_, ?_, hd, ?_, ?_⟩
  · rw [← hs2]
    exact hbd.of_lt hin
  · rw [← hs2]
    exact hg.freeinode_eq
  · intro b hb0 hbm
    rw [hsect, update_of_ne (by omega), hg.low_eq b hb0 hbm]
  · intro i hi hij
    apply (hf i hi).congr
    · intro m hm
      rw [ht2 _ ⟨hi, hm⟩]
      by_cases hz : forest s dins ((i, m.1), m.2) = 0
      · rw [hz]
        by_contra hne
        rcases (hg.mapped _ ⟨hi, hm⟩).mp hne with hne | ⟨he, -⟩
        · exact hne hz
        · exact hij (Prod.mk.inj he).1
      · exact hg.keep _ ⟨hi, hm⟩ hz
    · intro bn hbn hbr
      refine hleaf i bn hi (hbr.trans_le (reach_le L)) ((hf i hi).leaf_ne hbn hbr) ?_
      intro he
      exact hij (Prod.mk.inj (Prod.mk.inj he).1).1
  · have hlen : (c j ++ (List.range n).map src).length = off + n := by simp [hoff]
    have hj' := hf j hj
    refine ⟨?_, ?_, ?_, ?_⟩
    · intro m hm
      rw [hmapped m hm, hj'.mapped m hm, hlen, hnblk, ← hoff]
      constructor
      · rintro (⟨bn, hbn, hp⟩ | hp)
        · exact ⟨bn, by omega, hp⟩
        · exact ⟨off / BSIZE, by omega, hp⟩
      · rintro ⟨bn, hbn, hp⟩
        by_cases hbo : bn = off / BSIZE
        · exact .inr (hbo ▸ hp)
        · exact .inl ⟨bn, by omega, hp⟩
    · intro i hi hir
      rw [hlen] at hi
      rw [getD_append_map (by omega), ← hoff]
      by_cases hio : i < off
      · have hbn : i / BSIZE < nblk (c j).length := by
          rw [← hoff, lt_nblk_iff]
          have := div_mul_le_self i BSIZE
          omega
        have hne := hj'.leaf_ne hbn hir
        rw [if_pos hio, ← hj'.data i (by omega) hir, leaf,
          hkeep _ (path_mem (hir.trans_le (reach_le L))) hne, ← leaf]
        by_cases hib : i / BSIZE = off / BSIZE
        · -- the block being filled: its old bytes come before the offset
          have hxe : forest s dins (leaf L j (off / BSIZE)) = x := by
            rw [← hx]
            rw [hib] at hne
            exact (hg.keep _ hlmem hne).symm
          have hsx : s₁.sect x = s.sect x := by
            have := hg.leaf_eq j _ hj hmax (by rwa [hib] at hne)
            rwa [hxe] at this
          rw [hib, hxe, hsect, update_self, byte_blit hblk, if_neg ?_, ← hbuf, hsx]
          rw [BSIZE_eq] at *
          omega
        · rw [hleaf j _ hj (hir.trans_le (reach_le L)) hne]
          intro he
          have hpath := Prod.ext (Prod.mk.inj (Prod.mk.inj he).1).2 (Prod.mk.inj he).2
          exact hib (path_prefix_free (by rw [hpath]) (by rw [hpath]))
      · have hib : i / BSIZE = off / BSIZE := by
          rw [BSIZE_eq] at *
          omega
        rw [if_neg hio, hib, ht2 _ hlmem, hx, hsect, update_self, byte_blit hblk, if_pos ?_]
        · congr 1
          rw [BSIZE_eq] at *
          omega
        · rw [BSIZE_eq] at *
          omega
    · intro bn y hm
      rw [hlen, hnblk]
      refine wrote_append (by omega) (fun bn y hm => ?_) (fun _ => by rw [ht2 _ hlmem, hx]) hm
      obtain ⟨h1, h2⟩ := hj'.wrote bn y hm
      refine ⟨by rwa [hoff], fun hbr => ?_⟩
      rw [← h2 hbr]
      exact hkeep _ (path_mem (hbr.trans_le (reach_le L))) (hj'.leaf_ne h1 hbr)
    · intro bn hbn
      rw [hlen, hnblk] at hbn
      exact hj'.traced_append hoff hbn x

omit h hle hn hblk hb hr in
lemma index_of_reach_le (hfbn : reach L ≤ off / BSIZE) (hhi : off / BSIZE < L.MAXFILE) :
    (dins j).addrs L.NDIRECT ≠ 0 ∧
      ∀ k, L.NDIRECTIB ≤ k → k < NINDIRECT → s.word ((dins j).addrs L.NDIRECT) k = 0 := by
  have hrev : L ≠ .reverse := by
    rintro rfl
    exact absurd hhi (not_lt.mpr hfbn)
  have hreach : reach L = L.NDIRECT + L.NDIRECTIB := by
    cases L <;> first | rfl | contradiction
  have hib : 0 < L.NDIRECTIB := by cases L <;> decide
  have hblks : reach L ≤ nblk (c j).length := by
    rw [← hoff, nblk, BSIZE_eq] at *
    omega
  have hne : (dins j).addrs L.NDIRECT ≠ 0 := by
    apply ((hf j hj).mapped (L.NDIRECT, []) (slot_mem le_rfl)).mpr
    refine ⟨L.NDIRECT, by omega, ?_, nil_prefix⟩
    rw [path_of_lt_NDIRECTIB hrev le_rfl (by omega)]
  refine ⟨hne, ?_⟩
  intro k hk hlt
  by_contra hw
  have hnode : forest s dins ((j, L.NDIRECT), [k]) = s.word ((dins j).addrs L.NDIRECT) k := by
    have := table_snoc_of_ne (k := k) (show forest s dins ((j, L.NDIRECT), []) ≠ 0 from hne)
    exact this
  rw [← hnode] at hw
  obtain ⟨bn, hbn, hs, hp⟩ := ((hf j hj).mapped (L.NDIRECT, [k]) (entry_mem hlt)).mp hw
  by_cases hd : bn < L.NDIRECT
  · rw [path_of_lt_NDIRECT hd] at hs
    simp only at hs
    omega
  · rw [path_of_lt_NDIRECTIB hrev (not_lt.mp hd) (by omega)] at hp
    simp only [cons_prefix_cons, nil_prefix, and_true] at hp
    omega

omit hn hblk hr in
lemma block_lt_limit (hhi : off / BSIZE < L.MAXFILE) : off / BSIZE < limit L := by
  by_cases hL : L = .isingle
  · subst hL
    by_contra hge
    have hfbn := not_lt.mp hge
    obtain ⟨hne, -⟩ := index_of_reach_le hj hf hoff hfbn hhi
    rw [isingle_deep_eq h hle hj hne rfl hfbn] at hb
    cases hb
  · cases L <;> first | exact hhi | contradiction

lemma pass_detached (hfbn : reach L ≤ off / BSIZE) (hhi : off / BSIZE < L.MAXFILE) :
    Passed L s dins j c t ((List.range n).map src) [(off / BSIZE, x)]
      (wsect s₁ x (buf.blit (off % BSIZE) n src)) din₁ := by
  have hlay := layout L
  have hlow := h.nmeta_le
  obtain ⟨hne, hz⟩ := index_of_reach_le hj hf hoff hfbn hhi
  obtain ⟨rfl, hdet⟩ := block_deep_spec h hj hle hne hz hfbn hhi hb
  have hfree := hdet.le.trans hdet.lt.le
  have hkeep : ∀ m ∈ allNodes L, forest s dins m ≠ 0 →
      s₁.sect (forest s dins m) = s.sect (forest s dins m) := by
    intro m hm hm0
    exact hdet.sect_eq _ (pos_of_ne_zero hm0) (h.forest_lt hm)
  obtain ⟨h1, ht1⟩ :=
    h.change hdet.nsect_eq hfree hdet.last_le (hdet.sect_eq 1 (by omega) (by omega)) hdet.zero
    (fun r ks k hm hm0 => hkeep _ (allNodes_prefixClosed L _ _ _ hm) hm0) h.fits (fun _ _ => rfl)
  have hfl := h1.free_le
  have hxle := hdet.le
  have hxlt := hdet.lt
  obtain ⟨hin, -⟩ := (rsect_eq_ok (by omega)).mp hr
  rw [h1.nsect_eq] at hin
  have hnx : ∀ m ∈ allNodes L, forest s dins m ≠ x := by
    intro m hm he
    have := h.forest_lt hm
    omega
  obtain ⟨h2, ht2⟩ := h1.wsect_data (buf.blit (off % BSIZE) n src) (by omega) hdet.lt hin (by
    intro r ks k hm _
    have hm' := allNodes_prefixClosed L _ _ _ hm
    rw [ht1 _ hm']
    exact hnx _ hm')
  have hsect : (wsect s₁ x (buf.blit (off % BSIZE) n src)).sect =
      update s₁.sect x (buf.blit (off % BSIZE) n src) := wsect_sect (by omega)
  generalize hs2 : wsect s₁ x (buf.blit (off % BSIZE) n src) = s2 at h2 ht2 hsect ⊢
  have hsame : ∀ i, i < inodes → Holds L s2 dins i (c i) (t i) := by
    intro i hi
    apply (hf i hi).congr
    · intro m hm
      rw [ht2 _ ⟨hi, hm⟩, ht1 _ ⟨hi, hm⟩]
    · intro bn hbn hbr
      have hmem := leaf_mem hi (hbr.trans_le (reach_le L))
      rw [hsect, update_of_ne (hnx _ hmem), hkeep _ hmem ((hf i hi).leaf_ne hbn hbr)]
  rw [← update_eq_self j dins] at h2 hsame
  refine ⟨h2, ?_, ?_, ?_, rfl, fun i hi _ => hsame i hi, ?_⟩
  · rw [← hs2]
    exact hdet.bounded.of_lt hin
  · rw [← hs2]
    exact hdet.freeinode_eq
  · intro b hb0 hbm
    rw [hsect, update_of_ne (by omega), hdet.sect_eq b hb0 (by omega)]
  · have hlen : (c j ++ (List.range n).map src).length = off + n := by simp [hoff]
    obtain ⟨hnblk, hold⟩ := nblk_pass hn hblk
    have hj' := hsame j hj
    refine ⟨?_, ?_, ?_, ?_⟩
    · intro m hm
      rw [hj'.mapped m hm, hlen, hnblk, ← hoff]
      have hmin : min (nblk off) (reach L) = min (off / BSIZE + 1) (reach L) := by omega
      rw [hmin]
    · intro i hi hir
      rw [hlen] at hi
      have hio : i < off := by
        rw [BSIZE_eq] at *
        omega
      rw [getD_append_map (by omega), ← hoff, if_pos hio]
      exact hj'.data i (by omega) hir
    · intro bn y hm
      rw [hlen, hnblk]
      exact wrote_append (by omega) (by rw [hoff]; exact hj'.wrote) (fun hc => absurd hc (not_lt.mpr hfbn)) hm
    · intro bn hbn
      rw [hlen, hnblk] at hbn
      exact hj'.traced_append hoff hbn x

lemma pass_spec (hhi : off / BSIZE < L.MAXFILE) :
    Passed L s dins j c t ((List.range n).map src) [(off / BSIZE, x)]
      (wsect s₁ x (buf.blit (off % BSIZE) n src)) din₁ := by
  rcases lt_or_ge (off / BSIZE) (reach L) with hlt | hge
  · exact pass_linked h hle hj hf hoff hn hblk hb hr hlt
  · exact pass_detached h hle hj hf hoff hn hblk hb hr hge hhi

end Pass

/-! The loop. -/

section Loop

variable {c : ℕ → List UInt8} {t : ℕ → List (ℕ × ℕ)} {p q : List UInt8} {u v : List (ℕ × ℕ)}

lemma Passed.refl (h : Inv L s dins) (hle : s.freeblock ≤ L.FSSIZE) (hj : j < inodes)
    (hf : ∀ i, i < inodes → Holds L s dins i (c i) (t i)) : Passed L s dins j c t [] [] s (dins j) := by
  refine ⟨?_, hle, rfl, fun _ _ _ => rfl, rfl, ?_, ?_⟩
  · rwa [update_eq_self]
  · rw [update_eq_self]
    exact fun i hi _ => hf i hi
  · rw [update_eq_self, append_nil, append_nil]
    exact hf j hj

lemma Passed.trans {s₁ : State} {din₁ : Dinode} (h : Passed L s dins j c t p u s₁ din₁)
    (h' : Passed L s₁ (update dins j din₁) j (update c j (c j ++ p)) (update t j (t j ++ u)) q v s' din') :
    Passed L s dins j c t (p ++ q) (u ++ v) s' din' := by
  obtain ⟨hinv, hfree, hino, hlow, hinode, hother, hself⟩ := h'
  rw [update_idem] at hinv hother hself
  refine ⟨hinv, hfree, hino.trans h.freeinode_eq, ?_, ?_, ?_, ?_⟩
  · intro b hb hlt
    rw [hlow b hb hlt, h.low_eq b hb hlt]
  · rw [hinode, update_self, h.inode_eq]
  · intro i hi hij
    have := hother i hi hij
    rwa [update_of_ne hij, update_of_ne hij] at this
  · rwa [update_self, update_self, append_assoc, append_assoc] at hself

lemma Passed.files (h : Passed L s dins j c t p u s' din') (i : ℕ) (hi : i < inodes) :
    Holds L s' (update dins j din') i (update c j (c j ++ p) i) (update t j (t j ++ u) i) := by
  by_cases hij : i = j
  · subst hij
    rw [update_self, update_self]
    exact h.self
  · rw [update_of_ne hij, update_of_ne hij]
    exact h.other i hi hij

lemma map_range_getD (p : List UInt8) {k : ℕ} (hk : k ≤ p.length) :
    (List.range k).map (fun i => p.getD i 0) = p.take k := by
  apply ext_getElem
  · simpa using hk
  · intro i h1 h2
    have hi : i < p.length := by
      simp only [length_map, length_range] at h1
      omega
    simp [hi]

/-- Bytes that one pass of the loop takes from `p`. -/
def taken (off : ℕ) (p : List UInt8) : ℕ := min p.length (BSIZE - off % BSIZE)

lemma taken_pos (off : ℕ) (hp : p.length ≠ 0) : 0 < taken off p := by
  have := mod_lt off (show 0 < BSIZE by decide)
  simp only [taken]
  omega

lemma taken_le (off : ℕ) (p : List UInt8) : taken off p ≤ p.length := min_le_left _ _

lemma mod_add_taken_le (off : ℕ) (p : List UInt8) : off % BSIZE + taken off p ≤ BSIZE := by
  have := mod_lt off (show 0 < BSIZE by decide)
  simp only [taken]
  omega

lemma length_pass (hoff : off = (c j).length) : off + n =
    (update c j (c j ++ (List.range n).map src) j).length := by
  simp [hoff]

lemma iappendLoop_nil : iappendLoop L s din off [] = .ok ([], s, din, off) := by
  unfold iappendLoop
  rfl

lemma iappendLoop_of_ne (hp : p.length ≠ 0) :
    iappendLoop L s din off p =
      if off / BSIZE < L.MAXFILE then do
        let (x, s, din) ← block L s din (off / BSIZE)
        let buf ← rsect s x
        let (t, s, din, off') ← iappendLoop L
          (wsect s x (buf.blit (off % BSIZE) (taken off p) (fun i => p.getD i 0))) din
          (off + taken off p) (p.drop (taken off p))
        .ok ((off / BSIZE, x) :: t, s, din, off')
      else .error .assert := by
  have hmod : off - off / BSIZE * BSIZE = off % BSIZE := by
    rw [BSIZE_eq]
    omega
  have hn1 : (off / BSIZE + 1) * BSIZE - off = BSIZE - off % BSIZE := by
    rw [BSIZE_eq]
    omega
  conv_lhs => unfold iappendLoop
  simp only [if_neg hp, hmod, hn1, taken]

lemma iappendLoop_spec {off' : ℕ} (h : Inv L s dins) (hle : s.freeblock ≤ L.FSSIZE)
    (hj : j < inodes) (hf : ∀ i, i < inodes → Holds L s dins i (c i) (t i))
    (hoff : off = (c j).length) (hrun : iappendLoop L s (dins j) off p = .ok (u, s', din', off')) :
    Passed L s dins j c t p u s' din' ∧ off' = off + p.length ∧
      (off ≤ limit L * BSIZE → off' ≤ limit L * BSIZE) := by
  induction hp : p.length using Nat.strong_induction_on generalizing s dins off p u c t with
  | _ m ih =>
    by_cases hz : p.length = 0
    · obtain rfl := length_eq_zero_iff.mp hz
      rw [iappendLoop_nil] at hrun
      cases hrun
      simp only [length_nil] at hp
      subst hp
      exact ⟨Passed.refl h hle hj hf, rfl, id⟩
    · rw [iappendLoop_of_ne hz] at hrun
      obtain ⟨hmax, hrun⟩ := then_eq_ok.mp hrun
      simp only [bind_eq_ok] at hrun
      obtain ⟨⟨x, s₁, din₁⟩, hb, buf, hr, ⟨u', s2, din2, off2⟩, hloop, he⟩ := hrun
      cases he
      have hpos := taken_pos off hz
      have hk := taken_le off p
      have hblk := mod_add_taken_le off p
      have hpass : Passed L s dins j c t ((List.range (taken off p)).map fun i => p.getD i 0)
          [(off / BSIZE, x)] _ din₁ := pass_spec h hle hj hf hoff hpos hblk hb hr hmax
      rw [map_range_getD p hk] at hpass
      have hdin : update dins j din₁ j = din₁ := update_self ..
      rw [← hdin] at hloop
      obtain ⟨hrest, hlen, hbound⟩ := ih (p.drop (taken off p)).length (by simp; omega) hpass.inv
        hpass.free_le hpass.files (by simp [← hoff]; omega) hloop rfl
      have hall := hpass.trans hrest
      rw [take_append_drop] at hall
      refine ⟨hall, ?_, ?_⟩
      · rw [hlen, length_drop]
        omega
      · intro _
        have hlim := block_lt_limit h hle hj hf hoff hb hmax
        apply hbound
        rw [BSIZE_eq] at *
        omega

/-! When the loop does not abort. -/

lemma path_length_le (hfbn : fbn < reach L) : (L.path fbn).2.length ≤ 2 := by
  by_cases hd : fbn < L.NDIRECT
  · simp [path_of_lt_NDIRECT hd]
  · by_cases hL : L = .reverse
    · subst hL
      simp only [path, doublePath]
      split_ifs <;> simp
    · have hr : fbn < L.NDIRECT + L.NDIRECTIB := by cases L <;> first | exact hfbn | contradiction
      simp [path_of_lt_NDIRECTIB hL (not_lt.mp hd) hr]

section Room

variable (h : Inv L s dins) (hj : j < inodes)
  (hf : ∀ i, i < inodes → Holds L s dins i (c i) (t i)) (hoff : off = (c j).length)
include h hj hf hoff

lemma block_ok (hlim : off / BSIZE < limit L) (hroom : s.freeblock + 4 ≤ L.FSSIZE) :
    ∃ x s₁ din₁, block L s (dins j) (off / BSIZE) = .ok (x, s₁, din₁) ∧
      rsect s₁ x = .ok (s₁.sect x) ∧ s₁.freeblock ≤ s.freeblock + 4 := by
  have hlay := layout L
  have hhi := hlim.trans_le (limit_le L)
  by_cases hfbn : off / BSIZE < reach L
  · have hlen := path_length_le hfbn
    obtain ⟨⟨x, s₁, din₁⟩, hw⟩ := walk_ok h hj (path_mem hhi) (by omega)
    obtain ⟨h1, -, hx, hx0, -, hfree, -⟩ := walk_spec h hj (path_mem hhi) (by omega) hw
    have hlt := h1.forest_lt (leaf_mem (L := L) hj hhi)
    have hx : forest s₁ (update dins j din₁) (leaf L j (off / BSIZE)) = x := hx
    rw [hx] at hlt
    refine ⟨x, s₁, din₁, (block_eq_walk hfbn).trans hw, ?_, by omega⟩
    exact (rsect_eq_ok (by omega)).mpr ⟨by rw [h1.nsect_eq]; omega, rfl⟩
  · have hge := not_lt.mp hfbn
    obtain ⟨hne, hz⟩ := index_of_reach_le hj hf hoff hge hhi
    have hL : L ≠ .isingle := by
      rintro rfl
      exact hfbn hlim
    obtain ⟨g, sec, t, hg, hg2, hsec, heq⟩ := deep h (by omega) hj hne hz hge hhi hL
    rw [if_pos (by omega)] at heq
    refine ⟨g, _, _, heq, ?_, ?_⟩
    · refine (rsect_eq_ok (by omega)).mpr ⟨?_, rfl⟩
      rw [wsect_nsect (by omega) (by change sec < s.nsect; rw [h.nsect_eq]; omega)]
      rw [h.nsect_eq]
      omega
    · change g + 1 ≤ s.freeblock + 4
      omega

lemma pass_ok (hz : p.length ≠ 0) (hlim : off / BSIZE < limit L) (hroom : s.freeblock + 4 ≤ L.FSSIZE) :
    ∃ x s₁ din₁, block L s (dins j) (off / BSIZE) = .ok (x, s₁, din₁) ∧
      rsect s₁ x = .ok (s₁.sect x) ∧ s₁.freeblock ≤ s.freeblock + 4 ∧
      Passed L s dins j c t ((List.range (taken off p)).map fun i => p.getD i 0) [(off / BSIZE, x)]
        (wsect s₁ x ((s₁.sect x).blit (off % BSIZE) (taken off p) fun i => p.getD i 0)) din₁ := by
  obtain ⟨x, s₁, din₁, hb, hr, hfree⟩ := block_ok h hj hf hoff hlim hroom
  exact ⟨x, s₁, din₁, hb, hr, hfree, pass_spec h (by omega) hj hf hoff (taken_pos off hz)
    (mod_add_taken_le off p) hb hr (hlim.trans_le (limit_le L))⟩

lemma iappendLoop_ok (hmax : off + p.length ≤ limit L * BSIZE)
    (hroom : p.length = 0 ∨ s.freeblock + 4 * nblk (off % BSIZE + p.length) ≤ L.FSSIZE) :
    ∃ r, iappendLoop L s (dins j) off p = .ok r ∧
      r.2.1.freeblock ≤ s.freeblock + 4 * nblk (off % BSIZE + p.length) := by
  induction hp : p.length using Nat.strong_induction_on generalizing s dins off p c t with
  | _ m ih =>
    by_cases hz : p.length = 0
    · obtain rfl := length_eq_zero_iff.mp hz
      exact ⟨_, iappendLoop_nil, le_add_right _ _⟩
    · subst hp
      have hpos := taken_pos off hz
      have hk := taken_le off p
      have hlim : off / BSIZE < limit L := by
        rw [BSIZE_eq] at *
        omega
      have hhi := hlim.trans_le (limit_le L)
      have hblocks : 0 < nblk (off % BSIZE + p.length) := by
        rw [lt_nblk_iff]
        omega
      obtain ⟨x, s₁, din₁, hb, hr, hfree, hpass⟩ := pass_ok h hj hf hoff hz hlim (by omega)
      have hlen : (p.drop (taken off p)).length = p.length - taken off p := length_drop ..
      -- a pass that is not the last one ends at a block boundary
      have hnext : (p.drop (taken off p)).length = 0 ∨
          4 + 4 * nblk ((off + taken off p) % BSIZE + (p.drop (taken off p)).length) ≤
            4 * nblk (off % BSIZE + p.length) := by
        rw [hlen]
        by_cases hlast : p.length - taken off p = 0
        · exact .inl hlast
        · right
          simp only [nblk, taken, BSIZE_eq] at *
          omega
      obtain ⟨⟨u, s', din', off'⟩, hr', hf'⟩ := ih (p.drop (taken off p)).length (by omega) hpass.inv
        hpass.files (length_pass hoff) (by omega) (hnext.imp id fun hn => by simp only [wsect_freeblock]; omega) rfl
      rw [update_self] at hr'
      simp only [wsect_freeblock] at hf'
      refine ⟨((off / BSIZE, x) :: u, s', din', off'), ?_, ?_⟩
      · rw [iappendLoop_of_ne hz, if_pos hhi]
        simp only [hb, hr, ok_bind, hr']
      · rcases hnext with hlast | hnext
        · have hnil := length_eq_zero_iff.mp hlast
          rw [hnil, iappendLoop_nil] at hr'
          cases hr'
          simp only [wsect_freeblock]
          omega
        · simp only at hf' ⊢
          omega

/-- Compiled for isingle, a file longer than the first index block takes it out of its array. -/
lemma iappendLoop_outOfRange (hL : L = .isingle) (hmax : reach L * BSIZE < off + p.length)
    (hle : off ≤ reach L * BSIZE) (hroom : s.freeblock + 4 * nblk (off % BSIZE + p.length) ≤ L.FSSIZE) :
    iappendLoop L s (dins j) off p = .error .outOfRange := by
  induction hp : p.length using Nat.strong_induction_on generalizing s dins off p c t with
  | _ m ih =>
    have hz : p.length ≠ 0 := by omega
    have hpos := taken_pos off hz
    have hreach : reach L < L.MAXFILE := by
      subst hL
      decide
    have hhi : off / BSIZE < L.MAXFILE := by
      rw [BSIZE_eq] at *
      omega
    have hblocks : 0 < nblk (off % BSIZE + p.length) := by
      rw [lt_nblk_iff]
      omega
    rw [iappendLoop_of_ne hz, if_pos hhi]
    by_cases hfbn : off / BSIZE < reach L
    · have hlim := hfbn.trans_le (reach_le_limit L)
      obtain ⟨x, s₁, din₁, hb, hr, hfree, hpass⟩ := pass_ok h hj hf hoff hz hlim (by omega)
      have hlen : (p.drop (taken off p)).length = p.length - taken off p := length_drop ..
      -- the bytes that remain reach past this block, so the pass ended at its end
      have hend : (off + taken off p) % BSIZE = 0 ∧ off + taken off p ≤ reach L * BSIZE ∧
          4 + 4 * nblk (p.length - taken off p) ≤ 4 * nblk (off % BSIZE + p.length) := by
        simp only [nblk, taken, BSIZE_eq] at *
        omega
      obtain ⟨hmod, hle', hn⟩ := hend
      have := ih (p.drop (taken off p)).length (by omega) hpass.inv hpass.files
        (length_pass hoff) (by omega) hle' (by rw [hmod, hlen, zero_add]; simp only [wsect_freeblock]; omega) rfl
      rw [update_self] at this
      simp only [hb, hr, ok_bind, this, error_bind]
    · obtain ⟨hne, -⟩ := index_of_reach_le hj hf hoff (not_lt.mp hfbn) hhi
      rw [isingle_deep_eq h (by omega) hj hne hL (not_lt.mp hfbn), error_bind]

end Room

/-! Array accesses in range. -/

lemma rsect_ne_outOfRange : rsect s x ≠ .error .outOfRange := by
  simp only [rsect]
  split <;> simp

lemma fillWrite_ne_outOfRange {b : Block} {sec : ℕ} (hk : k < NINDIRECT) :
    fillWrite s b k sec ≠ .error .outOfRange := by
  simp only [fillWrite, if_neg (not_le.mpr hk)]
  split <;> simp

lemma walkFrom_ne_outOfRange {ks : List ℕ} (hk : ∀ k ∈ ks, k < NINDIRECT) :
    walkFrom s x ks ≠ .error .outOfRange := by
  induction ks generalizing s x with
  | nil => simp [walkFrom]
  | cons k ks ih =>
    obtain ⟨hk0, hks⟩ := forall_mem_cons.mp hk
    refine bind_ne_error rsect_ne_outOfRange fun b _ => ?_
    exact bind_ne_error (fillWrite_ne_outOfRange hk0) fun q _ => ih hks

lemma block_ne_outOfRange (hfbn : fbn < reach L) : block L s din fbn ≠ .error .outOfRange := by
  rw [block_eq_walk hfbn]
  refine bind_ne_error (walkFrom_ne_outOfRange ?_) fun q _ => by simp
  intro k hk
  exact path_index_lt (hfbn.trans_le (reach_le L)) hk

lemma iappendLoop_ne_outOfRange (hmax : off + p.length ≤ reach L * BSIZE) :
    iappendLoop L s din off p ≠ .error .outOfRange := by
  induction hp : p.length using Nat.strong_induction_on generalizing s din off p with
  | _ m ih =>
    by_cases hz : p.length = 0
    · obtain rfl := length_eq_zero_iff.mp hz
      simp [iappendLoop_nil]
    · have hpos := taken_pos off hz
      have hk := taken_le off p
      have hfbn : off / BSIZE < reach L := by
        rw [BSIZE_eq] at *
        omega
      rw [iappendLoop_of_ne hz, if_pos (hfbn.trans_le (reach_le L))]
      refine bind_ne_error (block_ne_outOfRange hfbn) fun q _ => ?_
      refine bind_ne_error rsect_ne_outOfRange fun buf _ => ?_
      refine bind_ne_error ?_ fun r _ => by simp
      exact ih (p.drop (taken off p)).length (by simp; omega) (by simp; omega) rfl

end Loop

end LearnXv6.Fs.Mkfs
