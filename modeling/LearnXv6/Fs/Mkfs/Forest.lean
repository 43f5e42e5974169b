import LearnXv6.Store.Result
import LearnXv6.Fs.Mkfs

/-! The block trees of an image under construction, all inodes together. -/
namespace LearnXv6.Fs.Mkfs
open Function Store List Store.PathCode Store.Block

variable {L : Lab} {s s' s'' : State} {dins dins' dins'' : ℕ → Dinode} {din din' : Dinode}
  {a j k x fbn : ℕ} {ks : List ℕ} {buf : Block}

/-- Inodes that fit in the inode blocks. -/
def inodes : ℕ := ninodeblocks * IPB

lemma layout (L : Lab) : 1 < (sb L).inodestart ∧ (sb L).inodestart ≤ (sb L).bmapstart ∧
    (sb L).bmapstart < nmeta L ∧ nmeta L < L.FSSIZE ∧ L.FSSIZE + 1 < 2 ^ 23 := by
  cases L <;> decide

lemma datastart_eq (L : Lab) : (sb L).datastart = nmeta L := by cases L <;> rfl

lemma iblock_lt (h : j < inodes) : (sb L).iblock j < (sb L).bmapstart := by
  have hdiv := Nat.div_lt_of_lt_mul (by rwa [Nat.mul_comm])
  simp only [Superblock.iblock, sb]
  omega

/-! Sectors. -/

lemma wsect_sect (h : a < 2 ^ 23) : (wsect s a buf).sect = update s.sect a buf := by
  simp only [wsect, Nat.mod_eq_of_lt h]

lemma wsect_nsect (h : a < 2 ^ 23) (ha : a < s.nsect) : (wsect s a buf).nsect = s.nsect := by
  simp only [wsect, Nat.mod_eq_of_lt h]
  omega

@[simp] lemma wsect_freeblock : (wsect s a buf).freeblock = s.freeblock := rfl

lemma rsect_eq_ok (h : a < 2 ^ 23) : rsect s a = .ok buf ↔ a < s.nsect ∧ s.sect a = buf := by
  simp only [rsect, Nat.mod_eq_of_lt h]
  split
  · simp_all
  · simp_all

/-! The forest. -/

def State.word (s : State) (a k : ℕ) : ℕ := (s.sect a).word k

/-- An inode and a slot of its `addrs`, then index entries. -/
abbrev Node := (ℕ × ℕ) × List ℕ

/-- The address kept for a node, zero when it is absent. -/
def forest (s : State) (dins : ℕ → Dinode) (n : Node) : ℕ :=
  table (fun r => (dins r.1).addrs r.2) s.word n

def allNodes (L : Lab) : Set Node := {n | n.1.1 < inodes ∧ (n.1.2, n.2) ∈ L.code.nodes}

lemma allNodes_prefixClosed (L : Lab) : PrefixClosed (allNodes L) := by
  rintro r ks k ⟨hr, hn⟩
  exact ⟨hr, L.nodes_prefixClosed _ _ _ hn⟩

def leaf (L : Lab) (j bn : ℕ) : Node := ((j, (L.path bn).1), (L.path bn).2)

lemma leaf_mem {bn : ℕ} (hj : j < inodes) (hbn : bn < L.MAXFILE) : leaf L j bn ∈ allNodes L :=
  ⟨hj, Lab.path_mem hbn⟩

/-- A sound image: blocks of the trees are distinct and below `freeblock`, the rest is zero. -/
structure Inv (L : Lab) (s : State) (dins : ℕ → Dinode) : Prop where
  nsect_eq : s.nsect = L.FSSIZE
  nmeta_le : nmeta L ≤ s.freeblock
  free_le : s.freeblock ≤ L.FSSIZE + 1
  super : s.sect 1 = Superblock.write 0 (sb L)
  zero : ∀ b, s.freeblock ≤ b → s.sect b = 0
  fits : ∀ j, (dins j).Fits
  owned : ∀ n ∈ allNodes L, forest s dins n ≠ 0 →
    nmeta L ≤ forest s dins n ∧ forest s dins n < s.freeblock
  separate : Separate (allNodes L) (forest s dins)

structure Grew (L : Lab) (S : Set Node) (s : State) (dins : ℕ → Dinode) (s' : State)
    (dins' : ℕ → Dinode) : Prop where
  freeinode_eq : s'.freeinode = s.freeinode
  keep : ∀ n ∈ allNodes L, forest s dins n ≠ 0 → forest s' dins' n = forest s dins n
  mapped : ∀ n ∈ allNodes L, forest s' dins' n ≠ 0 ↔ forest s dins n ≠ 0 ∨ n ∈ S
  leaf_eq : ∀ j bn, j < inodes → bn < L.MAXFILE → forest s dins (leaf L j bn) ≠ 0 →
    s'.sect (forest s dins (leaf L j bn)) = s.sect (forest s dins (leaf L j bn))
  low_eq : ∀ b, 0 < b → b < nmeta L → s'.sect b = s.sect b

lemma Grew.refl {S : Set Node} (h : ∀ n ∈ allNodes L, n ∈ S → forest s dins n ≠ 0) :
    Grew L S s dins s dins where
  freeinode_eq := rfl
  keep := fun _ _ _ => rfl
  mapped := by
    intro n hn
    constructor
    · exact .inl
    · rintro (h' | h')
      · exact h'
      · exact h n hn h'
  leaf_eq := fun _ _ _ _ _ => rfl
  low_eq := fun _ _ _ => rfl

lemma Grew.trans {S T : Set Node} (h : Grew L S s dins s' dins')
    (h' : Grew L T s' dins' s'' dins'') : Grew L (S ∪ T) s dins s'' dins'' where
  freeinode_eq := h'.freeinode_eq.trans h.freeinode_eq
  keep := by
    intro n hn hne
    have hk := h.keep n hn hne
    rw [h'.keep n hn (by rwa [hk]), hk]
  mapped := by
    intro n hn
    rw [h'.mapped n hn, h.mapped n hn, Set.mem_union, or_assoc]
  leaf_eq := by
    intro j bn hj hbn hne
    have hk := h.keep _ (leaf_mem hj hbn) hne
    rw [← h.leaf_eq j bn hj hbn hne, ← hk, h'.leaf_eq j bn hj hbn (by rwa [hk])]
  low_eq := by
    intro b hb hlt
    rw [h'.low_eq b hb hlt, h.low_eq b hb hlt]

/-- Either every allocated block is in the image or the address at hand is not. -/
def Bounded (L : Lab) (s : State) (a : ℕ) : Prop := s.freeblock ≤ L.FSSIZE ∨ L.FSSIZE ≤ a

lemma Bounded.of_lt (h : Bounded L s a) (ha : a < L.FSSIZE) : s.freeblock ≤ L.FSSIZE := by
  rcases h with h | h
  · exact h
  · omega

section Fill

variable (h : Inv L s dins)
include h

lemma Inv.forest_lt {n : Node} (hn : n ∈ allNodes L) : forest s dins n < s.freeblock := by
  by_cases hz : forest s dins n = 0
  · have := h.nmeta_le
    have := layout L
    omega
  · exact (h.owned n hn hz).2

lemma Inv.fill {n : Node} (hle : s.freeblock ≤ L.FSSIZE)
    (hnsect : s'.nsect = s.nsect) (hfree : s'.freeblock = s.freeblock + 1)
    (hsect : ∀ b, b < nmeta L ∨ s.freeblock ≤ b → s'.sect b = s.sect b)
    (hfits : ∀ j, (dins' j).Fits)
    (ht : ∀ m ∈ allNodes L, forest s' dins' m = if m = n then s.freeblock else forest s dins m) :
    Inv L s' dins' where
  nsect_eq := hnsect.trans h.nsect_eq
  nmeta_le := by
    have := h.nmeta_le
    omega
  free_le := by omega
  super := by
    have := layout L
    rw [hsect 1 (.inl (by omega)), h.super]
  zero := by
    intro b hb
    rw [hsect b (.inr (by omega)), h.zero b (by omega)]
  fits := hfits
  owned := by
    intro m hm
    have := h.nmeta_le
    rw [ht m hm]
    split
    · intro _
      omega
    · intro hne
      have := h.owned m hm hne
      omega
  separate := by
    refine h.separate.fill ?_ ht
    intro m hm
    exact (h.forest_lt hm).ne

lemma Inv.grew_fill {n : Node} (hn : n ∈ allNodes L) (hz : forest s dins n = 0)
    (hino : s'.freeinode = s.freeinode)
    (hlow : ∀ b, b < nmeta L → s'.sect b = s.sect b)
    (hleaf : ∀ j bn, j < inodes → bn < L.MAXFILE → forest s dins (leaf L j bn) ≠ 0 →
      s'.sect (forest s dins (leaf L j bn)) = s.sect (forest s dins (leaf L j bn)))
    (ht : ∀ m ∈ allNodes L, forest s' dins' m = if m = n then s.freeblock else forest s dins m) :
    Grew L {n} s dins s' dins' where
  freeinode_eq := hino
  keep := by
    intro m hm hne
    have hmn : m ≠ n := by
      rintro rfl
      exact hne hz
    rw [ht m hm, if_neg hmn]
  mapped := by
    intro m hm
    have := h.nmeta_le
    have := layout L
    rw [ht m hm]
    by_cases hmn : m = n
    · rw [if_pos hmn]
      constructor
      · exact fun _ => .inr hmn
      · intro _
        omega
    · rw [if_neg hmn]
      simp [hmn]
  leaf_eq := hleaf
  low_eq := fun b _ hlt => hlow b hlt

lemma fillAddr_spec (hj : j < inodes) (hn : (k, []) ∈ L.code.nodes)
    (hle : s.freeblock ≤ L.FSSIZE) (hr : fillAddr s (dins j) k = (s', din')) : Inv L s' (update dins j din') ∧
      Grew L {((j, k), [])} s dins s' (update dins j din') ∧
      forest s' (update dins j din') ((j, k), []) = din'.addrs k ∧ din'.addrs k ≠ 0 ∧
      Bounded L s' (din'.addrs k) ∧ s'.freeblock ≤ s.freeblock + 1 ∧
      din' = { dins j with addrs := din'.addrs } := by
  have hmem : ((j, k), []) ∈ allNodes L := ⟨hj, hn⟩
  have hlay := layout L
  have hfree := h.nmeta_le
  have hroot : ∀ d : Dinode, forest s' (update dins j d) ((j, k), []) = d.addrs k := by
    intro d
    simp [forest]
  unfold fillAddr at hr
  split at hr
  · rename_i hz
    obtain ⟨rfl, rfl⟩ := Prod.mk.inj hr
    have ht : ∀ m ∈ allNodes L, forest { s with freeblock := s.freeblock + 1 }
        (update dins j ((dins j).setAddr k s.freeblock)) m =
        if m = ((j, k), []) then s.freeblock else forest s dins m := by
      apply table_fill (allNodes_prefixClosed L) (show forest s dins ((j, k), []) = 0 from hz)
      · intro r ks i he
        simp at he
      · rintro ⟨i, l⟩ _
        by_cases hi : i = j
        · subst hi
          simp [update_apply]
        · simp [hi]
      · intro r ks i _ _
        rw [if_neg (by simp)]
        rfl
      · intro i
        simp [State.word, h.zero s.freeblock le_rfl]
    have hfits : ∀ i, (update dins j ((dins j).setAddr k s.freeblock) i).Fits := by
      intro i
      by_cases hi : i = j
      · subst hi
        simpa using (h.fits i).setAddr (Lab.nodes_slot_lt hn) (by omega)
      · simpa [hi] using h.fits i
    refine ⟨h.fill hle rfl rfl (fun _ _ => rfl) hfits ht,
      h.grew_fill hmem hz rfl (fun _ _ => rfl) (fun _ _ _ _ _ => rfl) ht, hroot _, ?_, ?_, le_rfl,
      rfl⟩
    · simp
      omega
    · simp only [Bounded, Dinode.setAddr_addrs, update_self]
      omega
  · rename_i hne
    obtain ⟨rfl, rfl⟩ := Prod.mk.inj hr
    rw [update_eq_self]
    refine ⟨h, Grew.refl ?_, rfl, hne, .inl hle, by omega, rfl⟩
    rintro m - rfl
    exact hne

lemma fillWrite_spec {r : ℕ × ℕ} {t : Block} (hn : (r, ks ++ [k]) ∈ allNodes L)
    (hne : forest s dins (r, ks) ≠ 0) (hle : s.freeblock ≤ L.FSSIZE)
    (hr : fillWrite s (s.sect (forest s dins (r, ks))) k (forest s dins (r, ks)) = .ok (s', t)) :
    Inv L s' dins ∧ Grew L {(r, ks ++ [k])} s dins s' dins ∧
      forest s' dins (r, ks ++ [k]) = t.word k ∧ t.word k ≠ 0 ∧ Bounded L s' (t.word k) ∧
      s'.freeblock ≤ s.freeblock + 1 := by
  have hn' := allNodes_prefixClosed L _ _ _ hn
  have hlay := layout L
  obtain ⟨hlo, hhi⟩ := h.owned _ hn' hne
  have hword : forest s dins (r, ks ++ [k]) = s.word (forest s dins (r, ks)) k :=
    table_snoc_of_ne hne
  have hklt := Lab.nodes_index_lt hn.2 (mem_append_right ks (mem_singleton.mpr rfl))
  have hk4 : 4 * k + 4 ≤ BSIZE := by
    rw [NINDIRECT_eq] at hklt
    rw [BSIZE_eq]
    omega
  unfold fillWrite at hr
  rw [if_neg (by omega)] at hr
  split at hr
  · rename_i hz
    cases hr
    have hz' := hword.trans hz
    have hval : ((s.sect (forest s dins (r, ks))).setWord k s.freeblock).word k = s.freeblock := by
      rw [word_setWord hk4, if_pos rfl, Nat.mod_eq_of_lt (by omega)]
    have hlt : forest s dins (r, ks) < 2 ^ 23 := by omega
    have hin : forest s dins (r, ks) < s.nsect := by
      rw [h.nsect_eq]
      omega
    generalize hs' : wsect { s with freeblock := s.freeblock + 1 } (forest s dins (r, ks))
      ((s.sect (forest s dins (r, ks))).setWord k s.freeblock) = s'
    have hsect : s'.sect = update s.sect (forest s dins (r, ks))
        ((s.sect (forest s dins (r, ks))).setWord k s.freeblock) := by
      rw [← hs', wsect_sect hlt]
    have hnsect : s'.nsect = s.nsect := by
      rw [← hs']
      exact wsect_nsect hlt hin
    have hfb : s'.freeblock = s.freeblock + 1 := by
      rw [← hs']
      rfl
    have hino : s'.freeinode = s.freeinode := by
      rw [← hs']
      rfl
    have hother : ∀ b, b ≠ forest s dins (r, ks) → s'.sect b = s.sect b := by
      intro b hb
      rw [hsect, update_of_ne hb]
    have ht : ∀ m ∈ allNodes L, forest s' dins m =
        if m = (r, ks ++ [k]) then s.freeblock else forest s dins m := by
      apply table_fill (allNodes_prefixClosed L) hz'
      · intro r' ks' i he
        simp only [Prod.mk.injEq] at he
        obtain ⟨rfl, he⟩ := he
        obtain ⟨rfl, -⟩ := append_inj' he rfl
        exact hne
      · intro r' _
        rw [if_neg (by simp)]
      · intro r' ks' i hm hm0
        have hm' := allNodes_prefixClosed L _ _ _ hm
        by_cases he : forest s dins (r', ks') = forest s dins (r, ks)
        · -- the same index block is the same node, so only the entry decides
          have hsame := h.separate _ hm' _ hn' he hm0
          obtain ⟨rfl, rfl⟩ := Prod.mk.inj hsame
          change (s'.sect (forest s dins (r', ks'))).word i = _
          rw [hsect, update_self, word_setWord hk4]
          by_cases hi : i = k
          · simp only [hi, if_true]
            exact Nat.mod_eq_of_lt (by omega)
          · simp [hi, State.word, forest]
        · have hne' : (r', ks' ++ [i]) ≠ (r, ks ++ [k]) := by
            intro hc
            obtain ⟨rfl, hks⟩ := Prod.mk.inj hc
            have := (append_inj' hks rfl).1
            exact he (by rw [this])
          rw [if_neg hne']
          exact congrArg (fun b : Block => b.word i) (hother _ he)
      · intro i
        have hb : s.freeblock ≠ forest s dins (r, ks) := by omega
        change (s'.sect s.freeblock).word i = 0
        rw [hother _ hb, h.zero _ le_rfl, word_zero]
    have hkeep : ∀ b, b < nmeta L ∨ s.freeblock ≤ b → s'.sect b = s.sect b := by
      intro b hb
      exact hother b (by omega)
    have hleaf : ∀ j bn, j < inodes → bn < L.MAXFILE → forest s dins (leaf L j bn) ≠ 0 →
        forest s dins (leaf L j bn) ≠ forest s dins (r, ks) := by
      intro j bn hj hbn hl he
      have hsame := h.separate _ (leaf_mem hj hbn) _ hn' he hl
      obtain ⟨rfl, rfl⟩ := Prod.mk.inj hsame
      exact Lab.path_snoc_not_mem hbn hn.2
    refine ⟨h.fill hle hnsect hfb hkeep h.fits ht,
      h.grew_fill hn hz' hino (fun b hb => hkeep b (.inl hb)) ?_ ht, ?_, ?_, ?_, hfb.le⟩
    · intro j bn hj hbn hl
      exact hother _ (hleaf j bn hj hbn hl)
    · rw [ht _ hn, if_pos rfl, hval]
    · rw [hval]
      omega
    · simp only [Bounded, hval]
      omega
  · rename_i hw
    cases hr
    refine ⟨h, Grew.refl ?_, hword, hw, .inl hle, by omega⟩
    rintro m - rfl
    rw [hword]
    exact hw

end Fill

/-! Whole walks. -/

/-- Follow index entries from block `a`, writing each index block back when it gets an entry. -/
def walkFrom (s : State) (a : ℕ) : List ℕ → Except Abort (ℕ × State)
  | [] => .ok (a, s)
  | k :: ks => do
    let table ← rsect s a
    let (s, table) ← fillWrite s table k a
    walkFrom s (table.word k) ks

/-- Follow a slot of `addrs` and then index entries. -/
def walk (s : State) (din : Dinode) (p : ℕ × List ℕ) : Except Abort (ℕ × State × Dinode) :=
  let (s, din) := fillAddr s din p.1
  do
    let (x, s) ← walkFrom s (din.addrs p.1) p.2
    .ok (x, s, din)

/-- The nodes on the way to a leaf. -/
def onPath (r : ℕ × ℕ) (ks : List ℕ) : Set Node := {n | n.1 = r ∧ n.2 <+: ks}

lemma walkFrom_spec {r : ℕ × ℕ} (h : Inv L s dins) (hne : forest s dins (r, ks) ≠ 0)
    (hb : Bounded L s (forest s dins (r, ks))) (js : List ℕ) (hn : (r, ks ++ js) ∈ allNodes L)
    (hw : walkFrom s (forest s dins (r, ks)) js = .ok (x, s')) :
    Inv L s' dins ∧ Grew L (onPath r (ks ++ js)) s dins s' dins ∧
      forest s' dins (r, ks ++ js) = x ∧ x ≠ 0 ∧ Bounded L s' x ∧ s'.freeblock ≤ s.freeblock + js.length := by
  induction js generalizing s ks with
  | nil =>
    simp only [walkFrom, Except.ok.injEq, Prod.mk.injEq] at hw
    obtain ⟨rfl, rfl⟩ := hw
    rw [append_nil]
    refine ⟨h, Grew.refl ?_, rfl, hne, hb, by simp⟩
    rintro ⟨r', ls⟩ - ⟨rfl, hp⟩
    exact table_prefix_ne_zero hp hne
  | cons k js ih =>
    have hsplit : ks ++ k :: js = (ks ++ [k]) ++ js := by simp
    rw [hsplit] at hn ⊢
    have hnk : (r, ks ++ [k]) ∈ allNodes L := ⟨hn.1, mem_nodes_of_prefix hn.2 (prefix_append _ _)⟩
    have hlt := h.forest_lt (allNodes_prefixClosed L _ _ _ hnk)
    have hfree := h.free_le
    have hlay := layout L
    simp only [walkFrom, bind_eq_ok] at hw
    obtain ⟨t, hrd, ⟨s1, t1⟩, hfill, hw⟩ := hw
    obtain ⟨hin, rfl⟩ := (rsect_eq_ok (by omega)).mp hrd
    rw [h.nsect_eq] at hin
    obtain ⟨h1, hg1, ht1, hne1, hb1, hf1⟩ := fillWrite_spec h hnk hne (hb.of_lt hin) hfill
    rw [← ht1] at hne1 hb1
    simp only [← ht1] at hw
    obtain ⟨h', hg', hx, hx0, hb', hf'⟩ := ih h1 hne1 hb1 hn hw
    refine ⟨h', ?_, hx, hx0, hb', ?_⟩
    · have hg := hg1.trans hg'
      have hS : ({(r, ks ++ [k])} : Set Node) ∪ onPath r ((ks ++ [k]) ++ js) =
          onPath r ((ks ++ [k]) ++ js) := by
        apply Set.union_eq_right.mpr
        rintro m rfl
        exact ⟨rfl, prefix_append _ _⟩
      rwa [hS] at hg
    · rw [length_cons]
      omega

lemma walk_spec {p : ℕ × List ℕ} (h : Inv L s dins) (hj : j < inodes) (hp : p ∈ L.code.nodes)
    (hle : s.freeblock ≤ L.FSSIZE) (hw : walk s (dins j) p = .ok (x, s', din')) :
    Inv L s' (update dins j din') ∧ Grew L (onPath (j, p.1) p.2) s dins s' (update dins j din') ∧
      forest s' (update dins j din') ((j, p.1), p.2) = x ∧ x ≠ 0 ∧ Bounded L s' x ∧
      s'.freeblock ≤ s.freeblock + p.2.length + 1 ∧ din' = { dins j with addrs := din'.addrs } := by
  obtain ⟨k, ks⟩ := p
  have hn0 := mem_nodes_of_prefix hp nil_prefix
  unfold walk at hw
  generalize hfa : fillAddr s (dins j) k = r at hw
  obtain ⟨s1, din1⟩ := r
  obtain ⟨h1, hg1, ht1, hne1, hb1, hf1, hd1⟩ := fillAddr_spec h hj hn0 hle hfa
  simp only [bind_eq_ok] at hw
  obtain ⟨⟨x2, s2⟩, hw, he⟩ := hw
  cases he
  rw [← ht1] at hne1 hb1 hw
  obtain ⟨h', hg', hx, hx0, hb', hf'⟩ := walkFrom_spec h1 hne1 hb1 ks ⟨hj, hp⟩ hw
  refine ⟨h', ?_, hx, hx0, hb', by simp only; omega, hd1⟩
  have hg := hg1.trans hg'
  have hS : ({((j, k), [])} : Set Node) ∪ onPath (j, k) ([] ++ ks) = onPath (j, k) ks := by
    apply Set.union_eq_right.mpr
    rintro m rfl
    exact ⟨rfl, nil_prefix⟩
  rwa [hS] at hg

lemma walkFrom_ok {r : ℕ × ℕ} (h : Inv L s dins) (hne : forest s dins (r, ks) ≠ 0)
    (js : List ℕ) (hn : (r, ks ++ js) ∈ allNodes L) (hroom : s.freeblock + js.length ≤ L.FSSIZE) :
    ∃ q, walkFrom s (forest s dins (r, ks)) js = .ok q := by
  induction js generalizing s ks with
  | nil => exact ⟨_, rfl⟩
  | cons k js ih =>
    have hsplit : ks ++ k :: js = (ks ++ [k]) ++ js := by simp
    rw [hsplit] at hn
    rw [length_cons] at hroom
    have hnk : (r, ks ++ [k]) ∈ allNodes L := ⟨hn.1, mem_nodes_of_prefix hn.2 (prefix_append _ _)⟩
    have hlt := h.forest_lt (allNodes_prefixClosed L _ _ _ hnk)
    have hlay := layout L
    have hklt := Lab.nodes_index_lt hnk.2 (mem_append_right ks (mem_singleton.mpr rfl))
    have hrd : rsect s (forest s dins (r, ks)) = .ok (s.sect (forest s dins (r, ks))) :=
      (rsect_eq_ok (by omega)).mpr ⟨by rw [h.nsect_eq]; omega, rfl⟩
    obtain ⟨⟨s1, t1⟩, hfill⟩ : ∃ q,
        fillWrite s (s.sect (forest s dins (r, ks))) k (forest s dins (r, ks)) = .ok q := by
      unfold fillWrite
      rw [if_neg (by omega)]
      split <;> exact ⟨_, rfl⟩
    obtain ⟨h1, -, ht1, hne1, -, hf1⟩ := fillWrite_spec h hnk hne (by omega) hfill
    rw [← ht1] at hne1
    obtain ⟨q, hq⟩ := ih h1 hne1 hn (by omega)
    refine ⟨q, ?_⟩
    simp only [walkFrom, hrd, ok_bind, hfill, ← ht1]
    exact hq

lemma walk_ok {p : ℕ × List ℕ} (h : Inv L s dins) (hj : j < inodes) (hp : p ∈ L.code.nodes)
    (hroom : s.freeblock + p.2.length + 1 ≤ L.FSSIZE) : ∃ q, walk s (dins j) p = .ok q := by
  obtain ⟨k, ks⟩ := p
  have hn0 := mem_nodes_of_prefix hp nil_prefix
  simp only at hroom
  generalize hfa : fillAddr s (dins j) k = r
  obtain ⟨s1, din1⟩ := r
  obtain ⟨h1, -, ht1, hne1, -, hf1, -⟩ := fillAddr_spec h hj hn0 (by omega) hfa
  rw [← ht1] at hne1
  obtain ⟨q, hq⟩ := walkFrom_ok h1 hne1 ks ⟨hj, hp⟩ (by omega)
  refine ⟨(q.1, q.2, din1), ?_⟩
  simp only [walk, hfa, ← ht1, hq, ok_bind]

/-! Which block numbers `iappend` reaches by such a walk. -/

/-- File blocks that `iappend` links to the inode: all of them in the reverse-tools tree, those of
the first index block elsewhere. -/
def reach (L : Lab) : ℕ :=
  match L with
  | .reverse => L.MAXFILE
  | _ => L.NDIRECT + L.NDIRECTIB

lemma reach_le (L : Lab) : reach L ≤ L.MAXFILE := by cases L <;> decide

lemma walk_nil (k : ℕ) : walk s din (k, []) = .ok ((fillAddr s din k).2.addrs k, fillAddr s din k) := rfl

lemma walk_single (i : ℕ) : walk s din (k, [i]) = (do
    let (s, din) := fillAddr s din k
    let indirect ← rsect s (din.addrs k)
    let (s, indirect) ← fillWrite s indirect i (din.addrs k)
    .ok (indirect.word i, s, din)) := by
  unfold walk
  simp only [walkFrom]
  cases rsect (fillAddr s din k).1 ((fillAddr s din k).2.addrs k) with
  | error e => rfl
  | ok t =>
    simp only [ok_bind]
    cases fillWrite (fillAddr s din k).1 t i ((fillAddr s din k).2.addrs k) <;> rfl

lemma walk_pair (i l : ℕ) : walk s din (k, [i, l]) = (do
    let (s, din) := fillAddr s din k
    let indirect ← rsect s (din.addrs k)
    let (s, indirect) ← fillWrite s indirect i (din.addrs k)
    let indirect2 ← rsect s (indirect.word i)
    let (s, indirect2) ← fillWrite s indirect2 l (indirect.word i)
    .ok (indirect2.word l, s, din)) := by
  unfold walk
  simp only [walkFrom]
  cases rsect (fillAddr s din k).1 ((fillAddr s din k).2.addrs k) with
  | error e => rfl
  | ok t =>
    simp only [ok_bind]
    cases fillWrite (fillAddr s din k).1 t i ((fillAddr s din k).2.addrs k) with
    | error e => rfl
    | ok q =>
      simp only [ok_bind]
      cases rsect q.1 (q.2.word i) with
      | error e => rfl
      | ok t2 =>
        simp only [ok_bind]
        cases fillWrite q.1 t2 l (q.2.word i) <;> rfl

lemma block_eq_walk (hf : fbn < reach L) : block L s din fbn = walk s din (L.path fbn) := by
  by_cases hd : fbn < L.NDIRECT
  · rw [Lab.path_of_lt_NDIRECT hd, walk_nil]
    cases L <;>
      simp only [block, blockStock, blockIdouble, blockItriple, blockReverse, hd, if_true]
  · by_cases hL : L = .reverse
    · subst hL
      have h12 : ¬ fbn < 12 := hd
      have hpath : Lab.path .reverse fbn = (12, [(fbn - 12) / NINDIRECT, (fbn - 12) % NINDIRECT]) := by
        simp [Lab.path, doublePath, if_neg h12]
      rw [hpath, walk_pair]
      simp only [block, blockReverse, hd, if_false]
      rfl
    · have hr : fbn < L.NDIRECT + L.NDIRECTIB := by cases L <;> first | exact hf | contradiction
      have hin : fbn - L.NDIRECT < L.NDIRECTIB := by omega
      rw [Lab.path_of_lt_NDIRECTIB hL (not_lt.mp hd) hr, walk_single]
      cases L with
      | reverse => contradiction
      | _ => simp only [block, blockStock, blockIdouble, blockItriple, hd, if_false, hin, if_true]

end LearnXv6.Fs.Mkfs
