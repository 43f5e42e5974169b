import LearnXv6.Fs.Alloc

/-! The block tree of one inode: what it owns, and how a walk makes it grow. -/
namespace LearnXv6.Fs.Kernel
open Store List Except Lab

variable {L : Lab} {s s' s'' : State} {ip ip' ip'' : Inode} {a bn f k j : ℕ} {ks : List ℕ}
  {n : ℕ × List ℕ} {S T : Set (ℕ × List ℕ)}

/-- The address stored for a node of the block tree, zero when it is absent. -/
def tree (s : State) (ip : Inode) (n : ℕ × List ℕ) : ℕ := table ip.addrs s.word n

/-- Present nodes have their own marked block in the data area. -/
structure Owns (L : Lab) (s : State) (ip : Inode) : Prop where
  inode_lt : s.sb.iblock ip.inum < s.sb.bmapstart
  owned : ∀ n ∈ L.code.nodes, tree s ip n ≠ 0 →
    s.sb.datastart ≤ tree s ip n ∧ tree s ip n < s.sb.size ∧ s.used (tree s ip n) = true
  separate : Separate L.code.nodes (tree s ip)

/-- The tree grows by exactly the nodes of `S`, on fresh zeroed blocks. -/
structure Grows (L : Lab) (S : Set (ℕ × List ℕ)) (s : State) (ip : Inode) (s' : State)
    (ip' : Inode) : Prop where
  sb_eq : s'.sb = s.sb
  devsw_eq : s'.devsw = s.devsw
  inode_eq : ip' = { ip with addrs := ip'.addrs }
  keep : ∀ n ∈ L.code.nodes, tree s ip n ≠ 0 → tree s' ip' n = tree s ip n
  mapped : ∀ n ∈ L.code.nodes, tree s' ip' n ≠ 0 ↔ tree s ip n ≠ 0 ∨ n ∈ S
  fresh : ∀ n ∈ L.code.nodes, tree s ip n = 0 → tree s' ip' n ≠ 0 → s.used (tree s' ip' n) = false
  used_iff : ∀ b, b < s.sb.size → (s'.used b = true ↔ s.used b = true ∨
    ∃ n ∈ L.code.nodes, tree s ip n = 0 ∧ tree s' ip' n ≠ 0 ∧ tree s' ip' n = b)
  other_eq : ∀ b, s.sb.datastart ≤ b → b < s.sb.size → s.used b = true →
    (∀ n ∈ L.code.nodes, tree s ip n ≠ b) → s'.disk b = s.disk b
  leaf_eq : ∀ bn, bn < L.MAXFILE → tree s ip (L.path bn) ≠ 0 →
    s'.disk (tree s ip (L.path bn)) = s.disk (tree s ip (L.path bn))
  leaf_zero : ∀ bn, bn < L.MAXFILE → tree s ip (L.path bn) = 0 → tree s' ip' (L.path bn) ≠ 0 →
    s'.disk (tree s' ip' (L.path bn)) = 0
  low_eq : ∀ b, b < s.sb.bmapstart → s'.disk b = s.disk b

lemma Grows.refl (h : ∀ n ∈ L.code.nodes, n ∈ S → tree s ip n ≠ 0) : Grows L S s ip s ip where
  sb_eq := rfl
  devsw_eq := rfl
  inode_eq := rfl
  keep := fun _ _ _ => rfl
  mapped := by
    intro n hn
    constructor
    · exact .inl
    · rintro (h' | h')
      · exact h'
      · exact h n hn h'
  fresh := fun _ _ hz hne => absurd hz hne
  used_iff := by
    intro b _
    constructor
    · exact .inl
    · rintro (h' | ⟨n, _, hz, hne, _⟩)
      · exact h'
      · exact absurd hz hne
  other_eq := fun _ _ _ _ _ => rfl
  leaf_eq := fun _ _ _ => rfl
  leaf_zero := fun _ _ hz hne => absurd hz hne
  low_eq := fun _ _ => rfl

lemma Grows.trans (ho : Owns L s'' ip'') (h : Grows L S s ip s' ip')
    (h' : Grows L T s' ip' s'' ip'') : Grows L (S ∪ T) s ip s'' ip'' where
  sb_eq := h'.sb_eq.trans h.sb_eq
  devsw_eq := h'.devsw_eq.trans h.devsw_eq
  inode_eq := by rw [h'.inode_eq, h.inode_eq]
  keep := by
    intro n hn hne
    have hk := h.keep n hn hne
    rw [h'.keep n hn (by rwa [hk]), hk]
  mapped := by
    intro n hn
    rw [h'.mapped n hn, h.mapped n hn, Set.mem_union, or_assoc]
  fresh := by
    intro n hn hz hne
    by_cases hz' : tree s' ip' n = 0
    · have hu := h'.fresh n hn hz' hne
      by_contra hc
      have hlt : tree s'' ip'' n < s.sb.size := by
        have := (ho.owned n hn hne).2.1
        rwa [h'.sb_eq, h.sb_eq] at this
      have := (h.used_iff _ hlt).mpr (.inl (by simpa using hc))
      simp [this] at hu
    · rw [h'.keep n hn hz']
      exact h.fresh n hn hz hz'
  used_iff := by
    intro b hb
    rw [h'.used_iff b (by rwa [h.sb_eq]), h.used_iff b hb]
    constructor
    · rintro ((hu | ⟨n, hn, hz, hne, he⟩) | ⟨n, hn, hz, hne, he⟩)
      · exact .inl hu
      · exact .inr ⟨n, hn, hz, by rwa [h'.keep n hn hne], by rw [h'.keep n hn hne, he]⟩
      · refine .inr ⟨n, hn, ?_, hne, he⟩
        by_contra hc
        exact (h.mapped n hn).mpr (.inl hc) hz
    · rintro (hu | ⟨n, hn, hz, hne, he⟩)
      · exact .inl (.inl hu)
      · by_cases hz' : tree s' ip' n = 0
        · exact .inr ⟨n, hn, hz', hne, he⟩
        · rw [h'.keep n hn hz'] at he
          exact .inl (.inr ⟨n, hn, hz, hz', he⟩)
  other_eq := by
    intro b hb hlt hu hno
    have hu' := (h.used_iff b hlt).mpr (.inl hu)
    rw [h'.other_eq b (by rwa [h.sb_eq]) (by rwa [h.sb_eq]) hu' ?_, h.other_eq b hb hlt hu hno]
    intro n hn he
    by_cases hz : tree s ip n = 0
    · by_cases hne : tree s' ip' n = 0
      · have := bmapstart_lt_datastart s.sb
        omega
      · have := h.fresh n hn hz hne
        simp [he, hu] at this
    · exact hno n hn (by rw [← h.keep n hn hz, he])
  leaf_eq := by
    intro bn hbn hne
    have hk := h.keep _ (path_mem hbn) hne
    rw [← h.leaf_eq bn hbn hne, ← hk, h'.leaf_eq bn hbn (by rwa [hk])]
  leaf_zero := by
    intro bn hbn hz hne
    have hn := path_mem hbn
    by_cases hz' : tree s' ip' (L.path bn) = 0
    · exact h'.leaf_zero bn hbn hz' hne
    · have hk := h'.keep _ hn hz'
      rw [hk, h'.leaf_eq bn hbn hz']
      exact h.leaf_zero bn hbn hz hz'
  low_eq := by
    intro b hb
    rw [h'.low_eq b (by rwa [h.sb_eq]), h.low_eq b hb]

lemma leaf_ne_parent (ho : Owns L s ip) (hbn : bn < L.MAXFILE) (hj : (n.1, n.2 ++ [j]) ∈ L.code.nodes)
    (hne : tree s ip n ≠ 0) : tree s ip n ≠ tree s ip (L.path bn) := by
  intro he
  have hn := L.nodes_prefixClosed _ _ _ hj
  have := ho.separate n hn _ (path_mem hbn) he hne
  subst this
  exact path_snoc_not_mem hbn hj

/-- One fill: a fresh zeroed block `f` becomes node `n`, and at most one index block of the tree
changes besides. -/
lemma grows_fill {s1 : State} (hv : Valid s) (ho : Owns L s ip) (hf : Fresh s f s1)
    (hn : n ∈ L.code.nodes) (hz : tree s ip n = 0)
    (hs : s' = s1 ∨ ∃ m j v, (m.1, m.2 ++ [j]) ∈ L.code.nodes ∧ tree s ip m ≠ 0 ∧
      s' = s1.logWrite (tree s ip m) v) (hip : ip' = { ip with addrs := ip'.addrs })
    (ht : ∀ m ∈ L.code.nodes, tree s' ip' m = if m = n then f else tree s ip m) :
    Valid s' ∧ Owns L s' ip' ∧ Grows L {n} s ip s' ip' := by
  have hpos : f ≠ 0 := by
    have := hf.datastart_le
    have := bmapstart_lt_datastart s.sb
    omega
  have hnf : ∀ m ∈ L.code.nodes, tree s ip m ≠ f := by
    intro m hm he
    have hu := (ho.owned m hm (by rwa [he])).2.2
    rw [he, hf.unused] at hu
    cases hu
  -- the one index block that may change is owned, so it lies in the data area
  have hsb : s'.sb = s.sb := by
    rcases hs with rfl | ⟨_, _, _, _, _, rfl⟩ <;> exact hf.sb_eq
  have hdev : s'.devsw = s.devsw := by
    rcases hs with rfl | ⟨_, _, _, _, _, rfl⟩ <;> exact hf.devsw_eq
  have hdisk : ∀ b, (∀ m j, (m.1, m.2 ++ [j]) ∈ L.code.nodes → tree s ip m ≠ 0 →
      tree s ip m ≠ b) → s'.disk b = s1.disk b := by
    intro b hb
    rcases hs with rfl | ⟨m, j, v, hm, hne, rfl⟩
    · rfl
    · exact logWrite_disk_of_ne (hb m j hm hne).symm
  have hown : ∀ m j, (m.1, m.2 ++ [j]) ∈ L.code.nodes → tree s ip m ≠ 0 →
      s.sb.datastart ≤ tree s ip m := by
    intro m j hm hne
    exact (ho.owned m (L.nodes_prefixClosed _ _ _ hm) hne).1
  have hlow : ∀ b, b < s.sb.datastart → s'.disk b = s1.disk b := by
    intro b hb
    apply hdisk
    intro m j hm hne he
    have := hown m j hm hne
    omega
  have hused : ∀ b, b < s.sb.size → s'.used b = s1.used b := by
    intro b hb
    have := bblock_lt_datastart hb
    simp only [State.used, hsb, hf.sb_eq]
    rw [hlow _ this]
  have hv1 := hf.valid hv
  have hv' : Valid s' := by
    rcases hs with rfl | ⟨m, j, v, hm, hne, rfl⟩
    · exact hv1
    · exact hv1.logWrite_data (by rw [hf.sb_eq]; exact hown m j hm hne)
  have hsep := ho.separate.fill hnf ht
  have htn : tree s' ip' n = f := by simp [ht n hn]
  have hteq : ∀ m ∈ L.code.nodes, m ≠ n → tree s' ip' m = tree s ip m := by
    intro m hm hne
    simp [ht m hm, hne]
  refine ⟨hv', ⟨?_, ?_, hsep⟩, ?_⟩
  · rw [hsb, hip]
    exact ho.inode_lt
  · intro m hm hne
    rw [hsb]
    by_cases hmn : m = n
    · subst hmn
      rw [htn, hused f hf.lt_size, hf.used_eq f hf.lt_size]
      exact ⟨hf.datastart_le, hf.lt_size, by simp⟩
    · rw [hteq m hm hmn] at hne ⊢
      obtain ⟨h1, h2, h3⟩ := ho.owned m hm hne
      rw [hused _ h2, hf.used_eq _ h2, h3]
      exact ⟨h1, h2, by simp⟩
  · refine ⟨hsb, hdev, hip, ?_, ?_, ?_, ?_, ?_, ?_, ?_, ?_⟩
    · intro m hm hne
      exact hteq m hm (by rintro rfl; exact hne hz)
    · intro m hm
      by_cases hmn : m = n
      · subst hmn
        simp [htn, hpos]
      · simp [hteq m hm hmn, hmn]
    · intro m hm hmz hne
      by_cases hmn : m = n
      · subst hmn
        rw [htn]
        exact hf.unused
      · rw [hteq m hm hmn] at hne
        exact absurd hmz hne
    · intro b hb
      rw [hused b hb, hf.used_eq b hb]
      constructor
      · intro hu
        rcases (Bool.or_eq_true _ _).mp hu with hu | hu
        · have hbf : b = f := by simpa using hu
          exact .inr ⟨n, hn, hz, by rwa [htn], by rw [htn, hbf]⟩
        · exact .inl hu
      · rintro (hu | ⟨m, hm, hmz, hne, he⟩)
        · simp [hu]
        · by_cases hmn : m = n
          · subst hmn
            simp [← he, htn]
          · rw [hteq m hm hmn] at hne
            exact absurd hmz hne
    · intro b hb hlt hu hno
      have hbf : b ≠ f := by
        rintro rfl
        simp [hf.unused] at hu
      rw [hdisk b, hf.data_eq b hb hbf]
      intro m j hm _
      exact hno m (L.nodes_prefixClosed _ _ _ hm)
    · intro bn hbn hne
      have hmem := path_mem hbn
      rw [hdisk, hf.data_eq _ (ho.owned _ hmem hne).1 (hnf _ hmem)]
      intro m j hm hm0
      exact leaf_ne_parent ho hbn hm hm0
    · intro bn hbn hbz hne
      have hmem := path_mem hbn
      have hbn' : L.path bn = n := by
        by_contra hc
        rw [hteq _ hmem hc] at hne
        exact hne hbz
      rw [hbn', htn, hdisk f, hf.zero]
      intro m j hm _
      exact hnf m (L.nodes_prefixClosed _ _ _ hm)
    · intro b hb
      have := bmapstart_lt_datastart s.sb
      rw [hlow b (by omega), hf.low_eq b hb]

/-! One entry of the walk. -/

lemma addrEntry_spec (hv : Valid s) (ho : Owns L s ip) (hn : (k, []) ∈ L.code.nodes)
    (h : addrEntry s ip k = .ok (a, s', ip')) :
    Valid s' ∧ Owns L s' ip' ∧ Grows L {(k, [])} s ip s' ip' ∧ tree s' ip' (k, []) = a ∧ a ≠ 0 := by
  unfold addrEntry at h
  split at h
  · rename_i hz
    cases hb : balloc s with
    | error e => simp [hb, bind, Except.bind] at h
    | ok p =>
      obtain ⟨f, s1⟩ := p
      simp only [hb, bind, Except.bind, ok.injEq, Prod.mk.injEq] at h
      obtain ⟨rfl, rfl, rfl⟩ := h
      have hf := hv.balloc hb
      have ht : ∀ m ∈ L.code.nodes,
          tree s1 (ip.setAddr k f) m = if m = (k, []) then f else tree s ip m := by
        apply table_fill L.nodes_prefixClosed (show tree s ip (k, []) = 0 from hz)
        · intro r ks j he
          simp at he
        · intro r _
          simp [Inode.setAddr, Function.update_apply]
        · intro r ks j hr hne
          have hr' := L.nodes_prefixClosed _ _ _ hr
          obtain ⟨h1, -, h3⟩ := ho.owned _ hr' hne
          have hnf : tree s ip (r, ks) ≠ f := by
            intro he
            rw [he, hf.unused] at h3
            cases h3
          rw [if_neg (by simp)]
          exact congrArg (fun b : Block => b.word j) (hf.data_eq _ h1 hnf)
        · intro j
          simp [State.word, hf.zero]
      obtain ⟨hv', ho', hg⟩ := grows_fill hv ho hf hn hz (.inl rfl) rfl ht
      have htn : tree s1 (ip.setAddr k f) (k, []) = f := by simp [ht _ hn]
      refine ⟨hv', ho', hg, htn, ?_⟩
      have := hf.datastart_le
      have := bmapstart_lt_datastart s.sb
      omega
  · rename_i hne
    cases h
    refine ⟨hv, ho, Grows.refl ?_, rfl, hne⟩
    rintro m - rfl
    exact hne

lemma indirectEntry_spec (hv : Valid s) (ho : Owns L s ip) (hn : (k, ks ++ [j]) ∈ L.code.nodes)
    (hne : tree s ip (k, ks) ≠ 0) (h : indirectEntry s (tree s ip (k, ks)) j = .ok (a, s')) :
    Valid s' ∧ Owns L s' ip ∧ Grows L {(k, ks ++ [j])} s ip s' ip ∧
      tree s' ip (k, ks ++ [j]) = a ∧ a ≠ 0 := by
  have hn' := L.nodes_prefixClosed _ _ _ hn
  have hword : tree s ip (k, ks ++ [j]) = s.word (tree s ip (k, ks)) j := table_snoc_of_ne hne
  unfold indirectEntry at h
  split at h
  · rename_i hz
    cases hb : balloc s with
    | error e => simp [hb, bind, Except.bind] at h
    | ok p =>
      obtain ⟨f, s1⟩ := p
      simp only [hb, bind, Except.bind, ok.injEq, Prod.mk.injEq] at h
      obtain ⟨rfl, rfl⟩ := h
      have hf := hv.balloc hb
      have hjlt : 4 * j + 4 ≤ BSIZE := by
        have := nodes_index_lt hn (mem_append_right ks (mem_singleton.mpr rfl))
        rw [NINDIRECT_eq] at this
        rw [BSIZE_eq]
        omega
      have hflt := Nat.mod_eq_of_lt (hv.lt_of_lt_size hf.lt_size)
      have hnf : ∀ m ∈ L.code.nodes, tree s ip m ≠ 0 → tree s ip m ≠ f := by
        intro m hm hm0 he
        have h3 := (ho.owned m hm hm0).2.2
        rw [he, hf.unused] at h3
        cases h3
      have ht : ∀ m ∈ L.code.nodes,
          tree (s1.logWrite (tree s ip (k, ks)) ((s1.disk (tree s ip (k, ks))).setWord j f)) ip m =
            if m = (k, ks ++ [j]) then f else tree s ip m := by
        apply table_fill L.nodes_prefixClosed (hword.trans hz)
        · intro r ks' j' he
          simp only [Prod.mk.injEq] at he
          obtain ⟨rfl, he⟩ := he
          obtain ⟨rfl, -⟩ := append_inj' he rfl
          exact hne
        · intro r hr
          rw [if_neg (by simp)]
        · intro r ks' j' hr hr0
          have hr' := L.nodes_prefixClosed _ _ _ hr
          have hd := (ho.owned _ hr' hr0).1
          by_cases he : tree s ip (r, ks') = tree s ip (k, ks)
          · -- the same index block: by separation the same node, so only the index decides
            have hsame := ho.separate _ hr' _ hn' he hr0
            simp only [Prod.mk.injEq] at hsame
            obtain ⟨rfl, rfl⟩ := hsame
            change (Store.Block.word ((s1.logWrite _ _).disk (tree s ip (r, ks'))) j') = _
            rw [logWrite_disk_self, Store.Block.word_setWord hjlt, hflt,
              hf.data_eq _ hd (hnf _ hr' hr0)]
            by_cases hj : j' = j
            · simp [hj]
            · simp [hj, State.word, tree]
          · have hne' : (r, ks' ++ [j']) ≠ (k, ks ++ [j]) := by
              intro hc
              simp only [Prod.mk.injEq] at hc
              obtain ⟨rfl, hc⟩ := hc
              have := (append_inj' hc rfl).1
              exact he (by rw [this])
            rw [if_neg hne']
            change (Store.Block.word ((s1.logWrite _ _).disk (tree s ip (r, ks'))) j') = _
            rw [logWrite_disk_of_ne he, hf.data_eq _ hd (hnf _ hr' hr0)]
            rfl
        · intro i
          change (Store.Block.word ((s1.logWrite _ _).disk f) i) = 0
          rw [logWrite_disk_of_ne (hnf _ hn' hne).symm, hf.zero, Store.Block.word_zero]
      obtain ⟨hv', ho', hg⟩ := grows_fill hv ho hf hn (hword.trans hz)
        (.inr ⟨(k, ks), j, _, hn, hne, rfl⟩) rfl ht
      refine ⟨hv', ho', hg, by simp [ht _ hn], ?_⟩
      have := hf.datastart_le
      have := bmapstart_lt_datastart s.sb
      omega
  · rename_i hw
    cases h
    refine ⟨hv, ho, Grows.refl ?_, hword, hw⟩
    rintro m - rfl
    rwa [hword]

/-! Whole walks. -/

def onPath (p : ℕ × List ℕ) : Set (ℕ × List ℕ) := {n | n.1 = p.1 ∧ n.2 <+: p.2}

lemma walkFrom_spec (hv : Valid s) (ho : Owns L s ip) (hn : (k, ks) ∈ L.code.nodes)
    (hne : tree s ip (k, ks) ≠ 0) (js : List ℕ) (hj : (k, ks ++ js) ∈ L.code.nodes)
    (h : walkFrom s (tree s ip (k, ks)) js = .ok (a, s')) :
    Valid s' ∧ Owns L s' ip ∧ Grows L (onPath (k, ks ++ js)) s ip s' ip ∧
      tree s' ip (k, ks ++ js) = a ∧ a ≠ 0 := by
  induction js generalizing s ks with
  | nil =>
    simp only [walkFrom, ok.injEq, Prod.mk.injEq] at h
    obtain ⟨rfl, rfl⟩ := h
    rw [append_nil]
    refine ⟨hv, ho, Grows.refl ?_, rfl, hne⟩
    rintro ⟨r, ls⟩ - ⟨rfl, hp⟩
    exact table_prefix_ne_zero hp hne
  | cons j js ih =>
    have hsplit : ks ++ j :: js = (ks ++ [j]) ++ js := by simp
    rw [hsplit] at hj ⊢
    have hn' := Store.PathCode.mem_nodes_of_prefix hj (prefix_append _ _)
    cases hi : indirectEntry s (tree s ip (k, ks)) j with
    | error e => simp [walkFrom, hi, bind, Except.bind] at h
    | ok p =>
      obtain ⟨a1, s1⟩ := p
      obtain ⟨hv1, ho1, hg1, rfl, ha1⟩ := indirectEntry_spec hv ho hn' hne hi
      simp only [walkFrom, hi, bind, Except.bind] at h
      obtain ⟨hv', ho', hg', hta, ha⟩ := ih hv1 ho1 hn' ha1 hj h
      refine ⟨hv', ho', ?_, hta, ha⟩
      have hg := Grows.trans ho' hg1 hg'
      have hS : ({(k, ks ++ [j])} : Set (ℕ × List ℕ)) ∪ onPath (k, (ks ++ [j]) ++ js) =
          onPath (k, (ks ++ [j]) ++ js) := by
        apply Set.union_eq_right.mpr
        rintro m rfl
        exact ⟨rfl, prefix_append _ _⟩
      rwa [hS] at hg

lemma walk_spec (hv : Valid s) (ho : Owns L s ip) (hn : (k, ks) ∈ L.code.nodes)
    (h : walk s ip (k, ks) = .ok (a, s', ip')) :
    Valid s' ∧ Owns L s' ip' ∧ Grows L (onPath (k, ks)) s ip s' ip' ∧ tree s' ip' (k, ks) = a ∧ a ≠ 0 := by
  have hn0 := Store.PathCode.mem_nodes_of_prefix hn nil_prefix
  unfold walk at h
  cases hi : addrEntry s ip k with
  | error e => simp [hi, bind, Except.bind] at h
  | ok p =>
    obtain ⟨a1, s1, ip1⟩ := p
    obtain ⟨hv1, ho1, hg1, rfl, ha1⟩ := addrEntry_spec hv ho hn0 hi
    simp only [hi, bind, Except.bind] at h
    cases hw : walkFrom s1 (tree s1 ip1 (k, [])) ks with
    | error e => simp [hw] at h
    | ok q =>
      obtain ⟨a2, s2⟩ := q
      simp only [hw, ok.injEq, Prod.mk.injEq] at h
      obtain ⟨rfl, rfl, rfl⟩ := h
      obtain ⟨hv', ho', hg', hta, ha⟩ := walkFrom_spec hv1 ho1 hn0 ha1 ks hn hw
      refine ⟨hv', ho', ?_, hta, ha⟩
      have hg := Grows.trans ho' hg1 hg'
      have hS : ({(k, [])} : Set (ℕ × List ℕ)) ∪ onPath (k, [] ++ ks) = onPath (k, ks) := by
        apply Set.union_eq_right.mpr
        rintro m rfl
        simp [onPath]
      rwa [hS] at hg

lemma walkFrom_of_mapped (hne : tree s ip (k, ks) ≠ 0) (js : List ℕ) (h : tree s ip (k, ks ++ js) ≠ 0) :
    walkFrom s (tree s ip (k, ks)) js = .ok (tree s ip (k, ks ++ js), s) := by
  induction js generalizing ks with
  | nil => simp [walkFrom]
  | cons j js ih =>
    have hsplit : ks ++ j :: js = (ks ++ [j]) ++ js := by simp
    rw [hsplit] at h ⊢
    have hj : tree s ip (k, ks ++ [j]) ≠ 0 := table_prefix_ne_zero (prefix_append _ _) h
    have hword : tree s ip (k, ks ++ [j]) = s.word (tree s ip (k, ks)) j := table_snoc_of_ne hne
    rw [← ih hj h]
    simp only [walkFrom, indirectEntry, ← hword, if_neg hj, bind, Except.bind]

lemma walk_of_mapped (h : tree s ip (k, ks) ≠ 0) : walk s ip (k, ks) = .ok (tree s ip (k, ks), s, ip) := by
  have h0 := table_prefix_ne_zero nil_prefix h
  have hw := walkFrom_of_mapped h0 ks h
  have ha : addrEntry s ip k = .ok (tree s ip (k, []), s, ip) := by
    simp only [addrEntry, tree, table_nil] at h0 ⊢
    rw [if_neg h0]
  simp only [walk, ha, bind, Except.bind, hw, nil_append]

lemma bmap_of_mapped (hbn : bn < L.MAXFILE) (h : tree s ip (L.path bn) ≠ 0) :
    bmap L s ip bn = .ok (tree s ip (L.path bn), s, ip) := by
  rw [bmap_eq_walk hbn]
  exact walk_of_mapped h

lemma bmap_spec (hv : Valid s) (ho : Owns L s ip) (hbn : bn < L.MAXFILE)
    (h : bmap L s ip bn = .ok (a, s', ip')) :
    Valid s' ∧ Owns L s' ip' ∧ Grows L (onPath (L.path bn)) s ip s' ip' ∧
      tree s' ip' (L.path bn) = a ∧ a ≠ 0 := by
  rw [bmap_eq_walk hbn] at h
  exact walk_spec hv ho (path_mem hbn) h

lemma addrEntry_error {e : Panic} (h : addrEntry s ip k = .error e) : e = .outOfBlocks := by
  unfold addrEntry at h
  split at h
  · cases hb : balloc s with
    | error e' =>
      simp only [hb, bind, Except.bind, error.injEq] at h
      exact h ▸ balloc_error hb
    | ok p => simp [hb, bind, Except.bind] at h
  · cases h

lemma walkFrom_error {e : Panic} (h : walkFrom s a ks = .error e) : e = .outOfBlocks := by
  induction ks generalizing s a with
  | nil => cases h
  | cons k ks ih =>
    cases hi : indirectEntry s a k with
    | error e' =>
      simp only [walkFrom, hi, bind, Except.bind, error.injEq] at h
      subst h
      unfold indirectEntry at hi
      split at hi
      · cases hb : balloc s with
        | error e =>
          simp only [hb, bind, Except.bind, error.injEq] at hi
          exact hi ▸ balloc_error hb
        | ok p => simp [hb, bind, Except.bind] at hi
      · cases hi
    | ok p =>
      simp only [walkFrom, hi, bind, Except.bind] at h
      exact ih h

lemma bmap_error (hbn : bn < L.MAXFILE) {e : Panic} (h : bmap L s ip bn = .error e) : e = .outOfBlocks := by
  rw [bmap_eq_walk hbn] at h
  unfold walk at h
  cases hi : addrEntry s ip (L.path bn).1 with
  | error e' =>
    simp only [hi, bind, Except.bind, error.injEq] at h
    exact h ▸ addrEntry_error hi
  | ok p =>
    cases hw : walkFrom p.2.1 p.1 (L.path bn).2 with
    | error e' =>
      simp only [hi, hw, bind, Except.bind, error.injEq] at h
      exact h ▸ walkFrom_error hw
    | ok q => simp [hi, hw, bind, Except.bind] at h

end LearnXv6.Fs.Kernel
