import LearnXv6.Fs.ByteArray
import LearnXv6.Store.Result

/-! How many free blocks are enough: `balloc` fails only when there is none, and a write takes at
most four for each block it touches. -/
namespace LearnXv6.Fs.Kernel
open Store List

variable {L : Lab} {s s' : State} {ip ip' : Inode} {a b bn f k m n off : ℕ} {ks : List ℕ}
  {src : ℕ → UInt8} {e : Panic}

/-- The blocks that the free map does not mark. -/
def free (s : State) : Finset ℕ := (Finset.range s.sb.size).filter fun b => s.used b = false

lemma mem_free : b ∈ free s ↔ b < s.sb.size ∧ s.used b = false := by simp [free]

lemma free_eq_empty (h : balloc s = .error e) : free s = ∅ := by
  unfold balloc at h
  split at h
  · rename_i hnone
    rw [findSome?_eq_none_iff] at hnone
    apply Finset.eq_empty_of_forall_notMem
    intro b hb
    obtain ⟨hlt, hused⟩ := mem_free.mp hb
    have hpos : 0 < BPB := by decide
    have hq : b / BPB < (s.sb.size + BPB - 1) / BPB := by
      rw [BPB_eq]
      omega
    have hblock := hnone (b / BPB) (mem_range.mpr hq)
    rw [Option.map_eq_none_iff, ballocBlock, find?_eq_none] at hblock
    have hbit := hblock (b % BPB) (mem_range.mpr (Nat.mod_lt _ hpos))
    have hsum : b / BPB * BPB + b % BPB = b := by
      rw [Nat.mul_comm]
      exact Nat.div_add_mod b BPB
    have hbb : s.sb.bblock (b / BPB * BPB) = s.sb.bblock b := by
      simp only [Superblock.bblock, Nat.mul_div_cancel _ hpos]
    rw [hsum, hbb] at hbit
    rw [State.used] at hused
    simp [hlt, hused] at hbit
  · cases h

lemma balloc_fails_iff : Fails (balloc s) ↔ free s = ∅ := by
  constructor
  · rintro ⟨e, he⟩
    exact free_eq_empty he
  · intro hempty
    cases hb : balloc s with
    | error e => exact ⟨e, rfl⟩
    | ok x =>
      obtain ⟨hlt, hused, -⟩ := balloc_ok hb
      exact absurd (mem_free.mpr ⟨hlt, hused⟩) (hempty ▸ Finset.notMem_empty _)

lemma balloc_ok_of_free (h : b ∈ free s) : ∃ f s', balloc s = .ok (f, s') := by
  cases hb : balloc s with
  | error e =>
    rw [free_eq_empty hb] at h
    exact absurd h (Finset.notMem_empty b)
  | ok x => exact ⟨x.1, x.2, rfl⟩

lemma addrEntry_fails_iff : Fails (addrEntry s ip k) ↔ ip.addrs k = 0 ∧ free s = ∅ := by
  unfold addrEntry
  by_cases hz : ip.addrs k = 0
  · rw [if_pos hz, fails_bind, balloc_fails_iff]
    simp [hz, fails_ok]
  · rw [if_neg hz]
    simp [hz, fails_ok]

lemma indirectEntry_fails_iff : Fails (indirectEntry s b k) ↔ s.word b k = 0 ∧ free s = ∅ := by
  unfold indirectEntry
  by_cases hz : s.word b k = 0
  · rw [if_pos hz, fails_bind, balloc_fails_iff]
    simp [hz, fails_ok]
  · rw [if_neg hz]
    simp [hz, fails_ok]

lemma free_fresh (hf : Fresh s f s') : free s' = (free s).erase f := by
  ext a
  rw [Finset.mem_erase, mem_free, mem_free, hf.sb_eq]
  constructor
  · rintro ⟨hlt, hu⟩
    rw [hf.used_eq a hlt] at hu
    simp only [Bool.or_eq_false_iff, decide_eq_false_iff_not] at hu
    exact ⟨hu.1, hlt, hu.2⟩
  · rintro ⟨hne, hlt, hu⟩
    rw [hf.used_eq a hlt]
    simp [hne, hlt, hu]

lemma Grows.free_le {S : Set (ℕ × List ℕ)} (T : Finset (ℕ × List ℕ)) (hg : Grows L S s ip s' ip')
    (hS : ∀ p, p ∈ S → p ∈ T) : (free s).card ≤ (free s').card + T.card := by
  have hsub : free s ⊆ free s' ∪ T.image (tree s' ip') := by
    intro b hb
    obtain ⟨hlt, hused⟩ := mem_free.mp hb
    rw [Finset.mem_union, mem_free, hg.sb_eq, Finset.mem_image]
    by_cases hu : s'.used b = true
    · right
      rcases (hg.used_iff b hlt).mp hu with hc | ⟨p, hp, hz, hne, he⟩
      · simp [hc] at hused
      · refine ⟨p, hS p ?_, he⟩
        exact ((hg.mapped p hp).mp hne).resolve_left (fun hc => hc hz)
    · exact .inl ⟨hlt, by simpa using hu⟩
  calc (free s).card ≤ (free s' ∪ T.image (tree s' ip')).card := Finset.card_le_card hsub
    _ ≤ (free s').card + (T.image (tree s' ip')).card := Finset.card_union_le _ _
    _ ≤ (free s').card + T.card := Nat.add_le_add_left Finset.card_image_le _

lemma Grows.free_le_one {p : ℕ × List ℕ} (hg : Grows L {p} s ip s' ip') :
    (free s).card ≤ (free s').card + 1 := by
  have := hg.free_le {p} (by simp)
  rwa [Finset.card_singleton] at this

lemma Grows.free_le_path {p : ℕ × List ℕ} (hg : Grows L (onPath p) s ip s' ip') :
    (free s).card ≤ (free s').card + (p.2.length + 1) := by
  have hle := hg.free_le ((p.2.inits.map fun ks => (p.1, ks)).toFinset) (by
    rintro ⟨k, ks⟩ ⟨hk, hks⟩
    rw [mem_toFinset, mem_map]
    exact ⟨ks, (mem_inits _ _).mpr hks, by rw [← hk]⟩)
  have hcard := toFinset_card_le (p.2.inits.map fun ks => (p.1, ks))
  rw [length_map, length_inits] at hcard
  omega

lemma walkFrom_error_free (hv : Valid s) (ho : Owns L s ip) (hn : (k, ks) ∈ L.code.nodes)
    (hne : tree s ip (k, ks) ≠ 0) (js : List ℕ) (hj : (k, ks ++ js) ∈ L.code.nodes)
    (h : walkFrom s (tree s ip (k, ks)) js = .error e) : (free s).card < js.length := by
  induction js generalizing s ks with
  | nil => cases h
  | cons j js ih =>
    have hsplit : ks ++ j :: js = (ks ++ [j]) ++ js := by simp
    rw [hsplit] at hj
    have hn' := Store.PathCode.mem_nodes_of_prefix hj (prefix_append _ _)
    cases hi : indirectEntry s (tree s ip (k, ks)) j with
    | error e' => simp [(indirectEntry_fails_iff.mp ⟨e', hi⟩).2]
    | ok p =>
      obtain ⟨a1, s1⟩ := p
      obtain ⟨hv1, ho1, hg1, rfl, ha1⟩ := indirectEntry_spec hv ho hn' hne hi
      simp only [walkFrom, hi, bind, Except.bind] at h
      have := ih hv1 ho1 hn' ha1 hj h
      have := hg1.free_le_one
      rw [length_cons]
      omega

lemma bmap_error_free (hv : Valid s) (ho : Owns L s ip) (hbn : bn < L.MAXFILE)
    (h : bmap L s ip bn = .error e) : (free s).card ≤ (L.path bn).2.length := by
  rw [bmap_eq_walk hbn] at h
  have hmem := Lab.path_mem hbn
  have hn0 : ((L.path bn).1, []) ∈ L.code.nodes :=
    Store.PathCode.mem_nodes_of_prefix hmem nil_prefix
  unfold walk at h
  cases hi : addrEntry s ip (L.path bn).1 with
  | error e' => simp [(addrEntry_fails_iff.mp ⟨e', hi⟩).2]
  | ok p =>
    obtain ⟨a1, s1, ip1⟩ := p
    obtain ⟨hv1, ho1, hg1, rfl, ha1⟩ := addrEntry_spec hv ho hn0 hi
    cases hw : walkFrom s1 (tree s1 ip1 ((L.path bn).1, [])) (L.path bn).2 with
    | error e' =>
      have := walkFrom_error_free hv1 ho1 hn0 ha1 (L.path bn).2 hmem hw
      have := hg1.free_le_one
      omega
    | ok q => simp [hi, hw, bind, Except.bind] at h

lemma free_logWrite_data (hb : s.sb.datastart ≤ b) (v : Block) : free (s.logWrite b v) = free s := by
  ext c
  rw [mem_free, mem_free, logWrite_sb]
  constructor
  · rintro ⟨h1, h2⟩
    exact ⟨h1, by rwa [used_logWrite_data hb h1] at h2⟩
  · rintro ⟨h1, h2⟩
    exact ⟨h1, by rwa [used_logWrite_data hb h1]⟩

lemma writeiLoop_error_free (h : FileInv L s ip m) (hoff : off ≤ m * BSIZE)
    (hn : off + n ≤ L.MAXFILE * BSIZE) (hw : writeiLoop L s ip src off n = .error e) :
    (free s).card < 4 * nblk (off % BSIZE + n) := by
  induction n using Nat.strong_induction_on generalizing s ip off src m with
  | _ n ih =>
    unfold writeiLoop at hw
    split at hw
    · cases hw
    · rename_i hz
      have hpos := min_block_pos off hz
      have hbm : off / BSIZE ≤ m := by
        rw [BSIZE_eq] at *
        omega
      have hbn : off / BSIZE < L.MAXFILE := by
        rw [BSIZE_eq] at *
        omega
      have hlen := Lab.path_length_le L (off / BSIZE)
      have hblocks : 0 < nblk (off % BSIZE + n) := by
        rw [lt_nblk_iff]
        omega
      cases hb : bmap L s ip (off / BSIZE) with
      | error e' =>
        have := bmap_error_free h.valid h.owns hbn hb
        omega
      | ok p =>
        obtain ⟨a, s1, ip1⟩ := p
        obtain ⟨hinv, rfl, hg⟩ := h.bmap hbm hbn hb
        have hlt : off / BSIZE < max m (off / BSIZE + 1) := by omega
        have hdata := (hinv.owns.owned _ (Lab.path_mem hbn) (hinv.leaf_ne hlt)).1
        have hfree := hg.free_le_path
        simp only [hb, bind, Except.bind] at hw
        have hrest := ih _ (by omega) (hinv.logWrite_leaf hlt) (add_min_block_le m off n) (by omega) hw
        rw [free_logWrite_data hdata] at hrest
        -- the loop went on, so the pass ended at a block boundary
        have hne : n - min n (BSIZE - off % BSIZE) ≠ 0 := by
          intro hc
          rw [hc] at hw
          unfold writeiLoop at hw
          simp at hw
        have hstep : 4 + 4 * nblk ((off + min n (BSIZE - off % BSIZE)) % BSIZE +
            (n - min n (BSIZE - off % BSIZE))) ≤ 4 * nblk (off % BSIZE + n) := by
          simp only [nblk, BSIZE_eq] at *
          omega
        omega

lemma writei_ok (h : IsFile L s ip) (ha : Accepts L ip.size off n)
    (hroom : 4 * nblk (off % BSIZE + n) ≤ (free s).card) :
    ∃ s' ip', writei L s ip src off n = .ok ((n : ℤ), s', ip') := by
  have hsize : ip.size ≤ nblk ip.size * BSIZE := nblk_le_iff.mp le_rfl
  rw [writei_accept h ha]
  cases hl : writeiLoop L s ip src off n with
  | error e =>
    have := writeiLoop_error_free h.inv (ha.1.trans hsize) ha.2 hl
    omega
  | ok p =>
    simp only [bind, Except.bind]
    split <;> exact ⟨_, _, rfl⟩

end LearnXv6.Fs.Kernel
