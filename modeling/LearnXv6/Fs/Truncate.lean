import LearnXv6.Fs.ByteArray

/-! `itrunc`: it frees the blocks one level below `addrs[NDIRECT]` and nothing deeper. -/
namespace LearnXv6.Fs.Kernel
open List Lab

variable {L : Lab} {s s' s'' : State} {ip ip' : Inode} {b c m : ℕ}

/-- Exactly the bits of the blocks in `F` are cleared, in the free map alone. -/
structure Freed (F : Set ℕ) (s s' : State) : Prop where
  valid : Valid s'
  sb_eq : s'.sb = s.sb
  used_iff : ∀ b, s'.used b = true ↔ s.used b = true ∧ b ∉ F
  data_eq : ∀ b, s.sb.datastart ≤ b → s'.disk b = s.disk b

lemma Freed.refl (hv : Valid s) : Freed ∅ s s :=
  ⟨hv, rfl, by simp, fun _ _ => rfl⟩

lemma Freed.trans {F G : Set ℕ} (h : Freed F s s') (h' : Freed G s' s'') : Freed (F ∪ G) s s'' := by
  refine ⟨h'.valid, h'.sb_eq.trans h.sb_eq, ?_, ?_⟩
  · intro b
    rw [h'.used_iff, h.used_iff, Set.mem_union]
    tauto
  · intro b hb
    rw [h'.data_eq b (by rwa [h.sb_eq]), h.data_eq b hb]

lemma bfree_freed (hv : Valid s) (hb : s.sb.datastart ≤ b) (hlt : b < s.sb.size)
    (hu : s.used b = true) : ∃ s', bfree s b = .ok s' ∧ Freed {b} s s' := by
  have hbb := bblock_lt_datastart hlt
  have hused : ∀ c, (s.logWrite (s.sb.bblock b)
      ((s.disk (s.sb.bblock b)).clearBit (b % BPB))).used c = (!decide (c = b) && s.used c) := by
    intro c
    by_cases hq : c / BPB = b / BPB
    · exact used_logWrite_clearBit hq
    · have hne : s.sb.bblock c ≠ s.sb.bblock b := by
        simp only [Superblock.bblock]
        omega
      have hcb : c ≠ b := by
        rintro rfl
        exact hq rfl
      simp [used_logWrite_of_ne hne, hcb]
  refine ⟨_, hv.bfree hu, ⟨⟨?_, hv.super_lt, hv.inode_le, hv.size_le, hv.data_le, ?_⟩, rfl, ?_, ?_⟩⟩
  · have := bmapstart_le_bblock s.sb b
    have := hv.super_lt
    have := hv.inode_le
    rw [logWrite_disk_of_ne (by omega)]
    exact hv.sb_disk
  · intro c hc
    have hc : c < s.sb.datastart := hc
    have hcb : c ≠ b := by omega
    simp [hused, hcb, hv.meta_used c hc]
  · intro c
    simp [hused]
    tauto
  · intro c hc
    exact logWrite_disk_of_ne (by omega)

/-! The loops of `itrunc`. -/

/-- Blocks that can be freed in any order without meeting a clear bit. -/
structure Freeable (s : State) (bs : List ℕ) : Prop where
  owned : ∀ b ∈ bs, b ≠ 0 → s.sb.datastart ≤ b ∧ b < s.sb.size ∧ s.used b = true
  distinct : bs.Pairwise fun b c => b ≠ 0 → b ≠ c

lemma Freeable.step {bs : List ℕ} (h : Freeable s (b :: bs)) (hf : Freed {b} s s') (hb : b ≠ 0) :
    Freeable s' bs := by
  obtain ⟨hd, ht⟩ := pairwise_cons.mp h.distinct
  refine ⟨?_, ht⟩
  intro c hc hne
  obtain ⟨h1, h2, h3⟩ := h.owned c (mem_cons_of_mem b hc) hne
  rw [hf.sb_eq, hf.used_iff]
  refine ⟨h1, h2, h3, ?_⟩
  rintro rfl
  exact hd c hc hne rfl

lemma Freeable.tail {bs : List ℕ} (h : Freeable s (b :: bs)) : Freeable s bs :=
  ⟨fun c hc => h.owned c (mem_cons_of_mem b hc), (pairwise_cons.mp h.distinct).2⟩

/-- The blocks named by a list of entries. -/
def named (bs : List ℕ) : Set ℕ := {b | b ≠ 0 ∧ b ∈ bs}

lemma named_nil : named [] = ∅ := by
  ext b
  simp [named]

lemma named_zero_cons (bs : List ℕ) : named (0 :: bs) = named bs := by
  ext b
  simp [named]
  tauto

lemma named_cons {bs : List ℕ} (h : b ≠ 0) : named (b :: bs) = {b} ∪ named bs := by
  ext c
  simp only [named, mem_cons, Set.mem_ofPred_eq, Set.mem_union, Set.mem_singleton_iff]
  constructor
  · rintro ⟨hc, rfl | hm⟩
    · exact .inl rfl
    · exact .inr ⟨hc, hm⟩
  · rintro (rfl | ⟨hc, hm⟩)
    · exact ⟨h, .inl rfl⟩
    · exact ⟨hc, .inr hm⟩

lemma freeWords_spec {a : ℕ} (hv : Valid s) (ha : s.sb.datastart ≤ a) {js : List ℕ}
    (hf : Freeable s (js.map (s.word a))) :
    ∃ s', js.foldlM (fun s j => bfreeNonzero s (s.word a j)) s = .ok s' ∧
      Freed (named (js.map (s.word a))) s s' := by
  induction js generalizing s with
  | nil =>
    refine ⟨s, rfl, ?_⟩
    rw [map_nil, named_nil]
    exact Freed.refl hv
  | cons j js ih =>
    by_cases hz : s.word a j = 0
    · obtain ⟨s', h1, h2⟩ := ih hv ha hf.tail
      refine ⟨s', ?_, ?_⟩
      · simp only [foldlM_cons, bfreeNonzero, hz, ne_eq, not_true_eq_false, if_false]
        exact h1
      · rw [map_cons, hz, named_zero_cons]
        exact h2
    · obtain ⟨h1, h2, h3⟩ := hf.owned _ (mem_cons_self) hz
      obtain ⟨s1, hb, hfr⟩ := bfree_freed hv h1 h2 h3
      have hword : s1.word a = s.word a := by
        funext i
        simp only [State.word, hfr.data_eq a ha]
      have hf1 := hf.step hfr hz
      rw [← hword] at hf1
      obtain ⟨s', h4, h5⟩ := ih hfr.valid (by rwa [hfr.sb_eq]) hf1
      refine ⟨s', ?_, ?_⟩
      · simp only [foldlM_cons, bfreeNonzero, ne_eq, hz, not_false_eq_true, if_true, hb]
        exact h4
      · rw [hword] at h5
        rw [map_cons, named_cons hz]
        exact hfr.trans h5

lemma freeDirect_spec (hv : Valid s) {is : List ℕ} (hnd : is.Nodup)
    (hf : Freeable s (is.map ip.addrs)) :
    ∃ s' ip', is.foldlM (fun (s, ip) i => freeDirect s ip i) (s, ip) = .ok (s', ip') ∧
      Freed (named (is.map ip.addrs)) s s' ∧
      ip' = { ip with addrs := fun k => if k ∈ is then 0 else ip.addrs k } := by
  induction is generalizing s ip with
  | nil =>
    refine ⟨s, ip, rfl, ?_, by simp⟩
    rw [map_nil, named_nil]
    exact Freed.refl hv
  | cons i is ih =>
    obtain ⟨hi, hnd'⟩ := nodup_cons.mp hnd
    by_cases hz : ip.addrs i = 0
    · obtain ⟨s', ip', h1, h2, h3⟩ := ih hv hnd' hf.tail
      refine ⟨s', ip', ?_, ?_, ?_⟩
      · simp only [foldlM_cons, freeDirect, hz, ne_eq, not_true_eq_false, if_false]
        exact h1
      · rw [map_cons, hz, named_zero_cons]
        exact h2
      · rw [h3]
        congr 1
        funext k
        by_cases hk : k = i
        · subst hk
          simp [hz]
        · simp [hk]
    · obtain ⟨h1, h2, h3⟩ := hf.owned _ (mem_cons_self) hz
      obtain ⟨s1, hb, hfr⟩ := bfree_freed hv h1 h2 h3
      have hmap : is.map (ip.setAddr i 0).addrs = is.map ip.addrs := by
        apply map_congr_left
        intro k hk
        have : k ≠ i := by
          rintro rfl
          exact hi hk
        simp [Inode.setAddr, this]
      have hf1 := hf.step hfr hz
      rw [← hmap] at hf1
      obtain ⟨s', ip', h4, h5, h6⟩ := ih hfr.valid hnd' hf1
      refine ⟨s', ip', ?_, ?_, ?_⟩
      · simp only [foldlM_cons, freeDirect, ne_eq, hz, not_false_eq_true, if_true, hb]
        exact h4
      · rw [map_cons, named_cons hz, ← hmap]
        exact hfr.trans h5
      · rw [h6]
        simp only [Inode.setAddr]
        congr 1
        funext k
        by_cases hk : k = i
        · subst hk
          simp [hi]
        · simp [hk]

/-! The whole function. -/

/-- The nodes that `itrunc` looks at: the slots up to `NDIRECT` and the entries of the index
block in the last of them. -/
def shallow (L : Lab) : Set (ℕ × List ℕ) :=
  {n | n.1 ≤ L.NDIRECT ∧ n.2 = []} ∪ {n | n.1 = L.NDIRECT ∧ ∃ j, j < NINDIRECT ∧ n.2 = [j]}

lemma shallow_subset_nodes {n : ℕ × List ℕ} (h : n ∈ shallow L) : n ∈ L.code.nodes := by
  obtain ⟨k, ks⟩ := n
  rcases h with ⟨h, rfl⟩ | ⟨rfl, j, hj, rfl⟩
  · exact slot_mem h
  · exact entry_mem hj

/-- The blocks at the nodes of `N`. -/
def blocksAt (N : Set (ℕ × List ℕ)) (s : State) (ip : Inode) : Set ℕ :=
  {b | b ≠ 0 ∧ ∃ n ∈ N, tree s ip n = b}

lemma freeable_map {α : Type} {l : List α} {g : α → ℕ × List ℕ} {e : α → ℕ} (ho : Owns L s ip)
    (hmem : ∀ a ∈ l, g a ∈ L.code.nodes) (he : ∀ a ∈ l, e a = tree s ip (g a))
    (hinj : l.Pairwise fun a b => g a ≠ g b) : Freeable s (l.map e) := by
  refine ⟨?_, ?_⟩
  · intro b hb hne
    obtain ⟨a, ha, rfl⟩ := mem_map.mp hb
    rw [he a ha] at hne ⊢
    exact ho.owned _ (hmem a ha) hne
  · rw [pairwise_map]
    refine Pairwise.imp_of_mem ?_ hinj
    intro a b ha hb hab hne heq
    rw [he a ha] at hne
    rw [he a ha, he b hb] at heq
    exact hab (ho.separate _ (hmem a ha) _ (hmem b hb) heq hne)

lemma Freeable.of_freed {F : Set ℕ} {bs : List ℕ} (h : Freeable s bs) (hf : Freed F s s')
    (hd : ∀ b ∈ bs, b ≠ 0 → b ∉ F) : Freeable s' bs := by
  refine ⟨?_, h.distinct⟩
  intro b hb hne
  obtain ⟨h1, h2, h3⟩ := h.owned b hb hne
  rw [hf.sb_eq, hf.used_iff]
  exact ⟨h1, h2, h3, hd b hb hne⟩

lemma iupdate_used (h : s.sb.iblock ip.inum < s.sb.bmapstart) (b : ℕ) : (iupdate s ip).used b = s.used b :=
  used_logWrite_low h b

lemma tree_entry (ha : ip.addrs L.NDIRECT ≠ 0) (j : ℕ) :
    tree s ip (L.NDIRECT, [j]) = s.word (ip.addrs L.NDIRECT) j := by
  have h := Store.table_snoc_of_ne (k := j) (show Store.table ip.addrs s.word (L.NDIRECT, []) ≠ 0 from ha)
  exact h

lemma blocksAt_shallow_of_zero (ha : ip.addrs L.NDIRECT = 0) :
    blocksAt (shallow L) s ip = named ((List.range L.NDIRECT).map ip.addrs) := by
  ext b
  constructor
  · rintro ⟨hb, ⟨k, ks⟩, ⟨hk, rfl⟩ | ⟨rfl, j, hj, rfl⟩, rfl⟩
    · refine ⟨hb, mem_map.mpr ⟨k, mem_range.mpr ?_, rfl⟩⟩
      refine lt_of_le_of_ne hk ?_
      rintro rfl
      exact hb ha
    · refine absurd ?_ hb
      simp [tree, Store.table, ha]
  · rintro ⟨hb, hm⟩
    obtain ⟨i, hi, rfl⟩ := mem_map.mp hm
    exact ⟨hb, (i, []), .inl ⟨(mem_range.mp hi).le, rfl⟩, rfl⟩

lemma blocksAt_shallow_of_ne (ha : ip.addrs L.NDIRECT ≠ 0) :
    blocksAt (shallow L) s ip = named ((List.range L.NDIRECT).map ip.addrs) ∪
      named ((List.range NINDIRECT).map (s.word (ip.addrs L.NDIRECT))) ∪ {ip.addrs L.NDIRECT} := by
  ext b
  constructor
  · rintro ⟨hb, ⟨k, ks⟩, ⟨hk, rfl⟩ | ⟨rfl, j, hj, rfl⟩, rfl⟩
    · rcases Nat.lt_or_eq_of_le hk with hk | rfl
      · exact .inl (.inl ⟨hb, mem_map.mpr ⟨k, mem_range.mpr hk, rfl⟩⟩)
      · exact .inr rfl
    · refine .inl (.inr ⟨hb, mem_map.mpr ⟨j, mem_range.mpr hj, ?_⟩⟩)
      exact (tree_entry ha j).symm
  · rintro ((⟨hb, hm⟩ | ⟨hb, hm⟩) | rfl)
    · obtain ⟨i, hi, rfl⟩ := mem_map.mp hm
      exact ⟨hb, (i, []), .inl ⟨(mem_range.mp hi).le, rfl⟩, rfl⟩
    · obtain ⟨j, hj, rfl⟩ := mem_map.mp hm
      exact ⟨hb, (L.NDIRECT, [j]), .inr ⟨rfl, j, mem_range.mp hj, rfl⟩, tree_entry ha j⟩
    · exact ⟨ha, (L.NDIRECT, []), .inl ⟨le_rfl, rfl⟩, rfl⟩

section Blocks

variable (h : FileInv L s ip m)
include h

lemma freeable_direct : Freeable s ((List.range L.NDIRECT).map ip.addrs) := by
  apply freeable_map (g := fun i => (i, [])) h.owns
  · intro i hi
    exact slot_mem (mem_range.mp hi).le
  · intro i _
    rfl
  · refine Pairwise.imp ?_ nodup_range
    intro i j hij he
    exact hij (Prod.mk.inj he).1

lemma freeable_entries (ha : ip.addrs L.NDIRECT ≠ 0) :
    Freeable s ((List.range NINDIRECT).map (s.word (ip.addrs L.NDIRECT))) := by
  apply freeable_map (g := fun j => (L.NDIRECT, [j])) h.owns
  · intro j hj
    exact entry_mem (mem_range.mp hj)
  · intro j _
    exact (tree_entry ha j).symm
  · refine Pairwise.imp ?_ nodup_range
    intro i j hij he
    simp only [Prod.mk.injEq, cons.injEq, and_true, true_and] at he
    exact hij he

lemma tree_ne {p q : ℕ × List ℕ} (hp : p ∈ L.code.nodes) (hq : q ∈ L.code.nodes)
    (hne : tree s ip p ≠ 0) (hpq : p ≠ q) : tree s ip p ≠ tree s ip q :=
  fun he => hpq (h.owns.separate p hp q hq he hne)

lemma entry_not_direct (ha : ip.addrs L.NDIRECT ≠ 0) {j : ℕ} (hj : j < NINDIRECT)
    (hne : s.word (ip.addrs L.NDIRECT) j ≠ 0) :
    s.word (ip.addrs L.NDIRECT) j ∉ named ((List.range L.NDIRECT).map ip.addrs) := by
  rintro ⟨-, hm⟩
  obtain ⟨i, hi, he⟩ := mem_map.mp hm
  rw [← tree_entry ha j] at hne he
  exact tree_ne h (entry_mem hj) (slot_mem (mem_range.mp hi).le) hne (by simp)
    he.symm

lemma index_not_freed (ha : ip.addrs L.NDIRECT ≠ 0) :
    ip.addrs L.NDIRECT ∉ named ((List.range L.NDIRECT).map ip.addrs) ∪
      named ((List.range NINDIRECT).map (s.word (ip.addrs L.NDIRECT))) := by
  have hmem : (L.NDIRECT, []) ∈ L.code.nodes := slot_mem le_rfl
  rintro (⟨-, hm⟩ | ⟨-, hm⟩)
  · obtain ⟨i, hi, he⟩ := mem_map.mp hm
    have hlt := mem_range.mp hi
    refine tree_ne h hmem (slot_mem hlt.le) ha ?_ he.symm
    intro hc
    simp only [Prod.mk.injEq, and_true] at hc
    omega
  · obtain ⟨j, hj, he⟩ := mem_map.mp hm
    refine tree_ne h hmem (entry_mem (mem_range.mp hj)) ha (by simp) ?_
    rw [tree_entry ha j, he]
    rfl

lemma itrunc_spec : ∃ s' ip', itrunc L s ip = .ok (s', ip') ∧
    (∀ b, s'.used b = true ↔ s.used b = true ∧ b ∉ blocksAt (shallow L) s ip) ∧
    ∀ k, ip'.addrs k = if k ≤ L.NDIRECT then 0 else ip.addrs k := by
  obtain ⟨s1, ip1, hr1, hfr1, hip1⟩ := freeDirect_spec h.valid nodup_range (freeable_direct h)
  have haddrs : ∀ k, ip1.addrs k = if k < L.NDIRECT then 0 else ip.addrs k := by simp [hip1]
  have hindex : ip1.addrs L.NDIRECT = ip.addrs L.NDIRECT := by simp [haddrs]
  have hinum : ip1.inum = ip.inum := by rw [hip1]
  have hinode := hinum ▸ h.owns.inode_lt
  by_cases ha : ip.addrs L.NDIRECT = 0
  · refine ⟨iupdate s1 { ip1 with size := 0 }, { ip1 with size := 0 }, ?_, ?_, ?_⟩
    · simp only [itrunc, hr1, bind, Except.bind, hindex, ha, ne_eq, not_true_eq_false,
        if_false, pure, Except.pure]
    · intro b
      rw [iupdate_used (by rw [hfr1.sb_eq]; exact hinode), hfr1.used_iff,
        blocksAt_shallow_of_zero ha]
    · intro k
      rcases lt_trichotomy k L.NDIRECT with hk | rfl | hk
      · simp [haddrs, hk, hk.le]
      · simp [haddrs, ha]
      · simp [haddrs, hk.not_gt, hk.not_ge]
  · obtain ⟨h1, h2, h3⟩ := h.owns.owned (L.NDIRECT, []) (slot_mem le_rfl) ha
    have hd : s.sb.datastart ≤ ip.addrs L.NDIRECT := h1
    have hword : s1.word (ip.addrs L.NDIRECT) = s.word (ip.addrs L.NDIRECT) := by
      funext j
      simp only [State.word, hfr1.data_eq _ hd]
    have hf2 : Freeable s1 ((List.range NINDIRECT).map (s1.word (ip.addrs L.NDIRECT))) := by
      rw [hword]
      apply (freeable_entries h ha).of_freed hfr1
      intro b hb hne
      obtain ⟨j, hj, rfl⟩ := mem_map.mp hb
      exact entry_not_direct h ha (mem_range.mp hj) hne
    obtain ⟨s2, hr2, hfr2⟩ := freeWords_spec hfr1.valid (by rw [hfr1.sb_eq]; exact hd) hf2
    rw [hword] at hfr2
    have hfr := hfr1.trans hfr2
    obtain ⟨s3, hr3, hfr3⟩ := bfree_freed hfr.valid (by rw [hfr.sb_eq]; exact h1)
      (by rw [hfr.sb_eq]; exact h2) ((hfr.used_iff _).mpr ⟨h3, index_not_freed h ha⟩)
    have hall := hfr.trans hfr3
    have hr3 : bfree s2 (ip.addrs L.NDIRECT) = .ok s3 := hr3
    refine ⟨iupdate s3 { ip1.setAddr L.NDIRECT 0 with size := 0 },
      { ip1.setAddr L.NDIRECT 0 with size := 0 }, ?_, ?_, ?_⟩
    · simp only [itrunc, hr1, bind, Except.bind, hindex, ne_eq, ha, not_false_eq_true,
        if_true, pure, Except.pure, hr2, hr3]
    · intro b
      rw [iupdate_used (by rw [hall.sb_eq]; exact hinode), hall.used_iff,
        blocksAt_shallow_of_ne ha]
      rfl
    · intro k
      rcases lt_trichotomy k L.NDIRECT with hk | rfl | hk
      · simp [Inode.setAddr, haddrs, hk, hk.le, hk.ne]
      · simp [Inode.setAddr]
      · simp [Inode.setAddr, haddrs, hk.not_gt, hk.not_ge, hk.ne']

end Blocks

/-! Whole trees. -/

/-- What deleting a file asks of `itrunc`: the bits of its blocks are cleared, no other bit is, and
no address is left. -/
def Truncates (L : Lab) (s : State) (ip : Inode) : Prop :=
  ∃ s' ip', itrunc L s ip = .ok (s', ip') ∧
    (∀ b, s'.used b = true ↔ s.used b = true ∧ b ∉ blocksAt L.code.nodes s ip) ∧
    ∀ k, k < NADDRS → ip'.addrs k = 0

lemma onPath_subset_shallow (hL : L ≠ .reverse) {bn : ℕ} (hbn : bn < L.NDIRECT + L.NDIRECTIB)
    {n : ℕ × List ℕ} (hn : n ∈ onPath (L.path bn)) : n ∈ shallow L := by
  obtain ⟨k, ks⟩ := n
  obtain ⟨hk, hks⟩ := hn
  rcases Nat.lt_or_ge bn L.NDIRECT with hd | hd
  · rw [path_of_lt_NDIRECT hd] at hk hks
    simp only at hk
    exact .inl ⟨by simp only; omega, prefix_nil.mp hks⟩
  · have hib : L.NDIRECTIB ≤ NINDIRECT := Nat.sub_le _ _
    rw [path_of_lt_NDIRECTIB hL hd hbn] at hk hks
    rcases prefix_cons_iff.mp hks with rfl | ⟨l, rfl, hl⟩
    · exact .inl ⟨hk.le, rfl⟩
    · rw [prefix_nil.mp hl]
      exact .inr ⟨hk, bn - L.NDIRECT, by omega, rfl⟩

lemma truncates_of_le (hL : L ≠ .reverse) (h : FileInv L s ip m)
    (hm : m ≤ L.NDIRECT + L.NDIRECTIB) : Truncates L s ip := by
  have hblocks : blocksAt L.code.nodes s ip = blocksAt (shallow L) s ip := by
    ext b
    constructor
    · rintro ⟨hb, n, hn, rfl⟩
      obtain ⟨bn, hbn, hp⟩ := (h.mapped n hn).mp hb
      exact ⟨hb, n, onPath_subset_shallow hL (hbn.trans_le hm) hp, rfl⟩
    · rintro ⟨hb, n, hn, rfl⟩
      exact ⟨hb, n, shallow_subset_nodes hn, rfl⟩
  obtain ⟨s', ip', hr, hused, haddrs⟩ := itrunc_spec h
  refine ⟨s', ip', hr, ?_, ?_⟩
  · rw [hblocks]
    exact hused
  · intro k hk
    rw [haddrs]
    split
    · rfl
    · rename_i hgt
      by_contra hne
      have hmem : (k, []) ∈ L.code.nodes := slot_mem_of_lt hk
      obtain ⟨bn, hbn, hp⟩ := (h.mapped (k, []) hmem).mp hne
      rcases onPath_subset_shallow hL (hbn.trans_le hm) hp with ⟨hle, -⟩ | ⟨rfl, -⟩
      · exact hgt hle
      · exact hgt le_rfl

/-- The first block past the first index block hangs below the nodes that `itrunc` looks at. -/
lemma not_truncates_of_lt (h : FileInv L s ip m) {bn : ℕ} (hbn : bn < m)
    (hdeep : L.path bn ∉ shallow L) : ¬ Truncates L s ip := by
  rintro ⟨s', ip', hr, hused, -⟩
  obtain ⟨s'', ip'', hr', hused', -⟩ := itrunc_spec h
  rw [hr] at hr'
  cases hr'
  have hmem := path_mem (hbn.trans_le h.le)
  have hne := h.leaf_ne hbn
  have hmarked := (h.owns.owned _ hmem hne).2.2
  refine ((hused _).mp ((hused' _).mpr ⟨hmarked, ?_⟩)).2 ⟨hne, _, hmem, rfl⟩
  rintro ⟨-, n, hn, he⟩
  have := h.owns.separate _ hmem n (shallow_subset_nodes hn) he.symm hne
  exact hdeep (this ▸ hn)

lemma truncates_iff (hL : L = .isingle ∨ L = .idouble ∨ L = .itriple) (h : FileInv L s ip m) :
    Truncates L s ip ↔ m ≤ L.NDIRECT + L.NDIRECTIB := by
  constructor
  · intro ht
    by_contra hlt
    refine not_truncates_of_lt h (not_le.mp hlt) ?_ ht
    rcases hL with rfl | rfl | rfl <;> simp [shallow, path, Lab.NDIRECT, doublePath, triplePath,
      Lab.NDIRECTIB, Lab.NINDIRECTIB, NINDIRECT_eq]
  · apply truncates_of_le ?_ h
    rcases hL with rfl | rfl | rfl <;> decide

end LearnXv6.Fs.Kernel
