import LearnXv6.Log.Write
import LearnXv6.Log.Phase

/-! The programs of the log and of `filewrite` obey the reservation protocol. -/
namespace LearnXv6.Log
open Store Fs Fs.Kernel List Finset

variable {sb : Superblock} {X own : Finset ℕ} {refs : Multiset ℕ} {φ : Phase} {α : Type}
  {Q : α → Phase → Prop} {b : ℕ} {v : Block} {l : List ℕ} {cl : Finset ℕ}

/-- The program obeys the reservation. -/
abbrev Reserves (X : Finset ℕ) (p : Proc α) (φ : Phase) (Q : α → Phase → Prop) : Prop :=
  Obeys (reservation X) p φ Q

/-! Operations on buffers. -/

lemma obeys_bread {f : Block → Proc α} (h : φ.allowed X (.bget b))
    (hk : ∀ v, Reserves X (f v) (φ.mapRefs (b ::ₘ ·)) Q) : Reserves X (bread b >>= f) φ Q := by
  refine ⟨h, ?_⟩
  rintro _ _ rfl
  cases φ with
  | outside => exact h.elim
  | inside own refs | commit l cl refs =>
    refine ⟨trivial, ?_⟩
    rintro v _ rfl
    exact hk v

variable {f : Unit → Proc α}

lemma obeys_setData (hk : Reserves X (f ()) φ Q) : Reserves X (setData b v >>= f) φ Q := by
  cases φ <;> exact ⟨trivial, by rintro _ _ rfl; exact hk⟩

lemma obeys_brelse (hb : b ∈ φ.refs) (hk : Reserves X (f ()) (φ.mapRefs (·.erase b)) Q) :
    Reserves X (brelse b >>= f) φ Q := by
  have hunref : φ.allowed X (.unref b) := by
    cases φ <;> exact hb
  have hunlock : φ.allowed X (.unlock b) := by
    cases φ <;> trivial
  refine ⟨hunlock, ?_⟩
  intro _ φ' hn
  obtain rfl : φ' = φ := by
    cases φ <;> exact hn
  refine ⟨hunref, ?_⟩
  rintro _ _ rfl
  exact hk

lemma obeys_brelse_inside (hk : Reserves X (f ()) (.inside own refs) Q) :
    Reserves X (brelse b >>= f) (.inside own (b ::ₘ refs)) Q := by
  refine obeys_brelse (Multiset.mem_cons_self b refs) ?_
  rwa [Phase.mapRefs_inside, Multiset.erase_cons_head]

lemma obeys_brelse_commit (hk : Reserves X (f ()) (.commit l cl refs) Q) :
    Reserves X (brelse b >>= f) (.commit l cl (b ::ₘ refs)) Q := by
  refine obeys_brelse (Multiset.mem_cons_self b refs) ?_
  rwa [Phase.mapRefs_commit, Multiset.erase_cons_head]

lemma obeys_logWrite (hb : b ∈ refs) (hown : (own \ X).card ≤ 7)
    (hk : Reserves X (f ()) (.inside (insert b own) refs) Q) :
    Reserves X (logWrite b >>= f) (.inside own refs) Q := by
  refine ⟨hown, ?_⟩
  rintro _ _ rfl
  refine ⟨hb, ?_⟩
  rintro _ _ rfl
  exact hk

lemma obeys_last {p : Proc α} (h : Reserves X (p >>= Prog.ret) φ Q) : Reserves X p φ Q := by
  rwa [Prog.bind_ret] at h

lemma obeys_panic {e : Panic} (h1 : e ≠ .noBuffers) (h2 : e ≠ .tooBigTransaction) :
    Reserves X (panic e : Proc α) φ Q := by
  refine ⟨?_, fun r => r.elim⟩
  cases φ <;> exact ⟨h1, h2⟩

/-! The commit. -/

lemma commit_room (hl : l.length ≤ 28) (hrefs : refs.card ≤ 1) :
    (Phase.commit l cl refs).allowed X (.bget b) := by
  right
  have h1 := card_union_le refs.toFinset (l.toFinset \ cl)
  have h2 := Multiset.toFinset_card_le refs
  have h3 := card_le_card (sdiff_subset (s := l.toFinset) (t := cl))
  have h4 := toFinset_card_le l
  simp only [NBUF, MAXOPBLOCKS]
  omega

lemma obeys_bwrite (hk : Reserves X (f ()) (.commit l (insert b cl) refs) Q) :
    Reserves X (bwrite b >>= f) (.commit l cl refs) Q := by
  refine ⟨trivial, ?_⟩
  rintro _ _ rfl
  exact hk

lemma obeys_readLh {f : List ℕ → Proc α} (hk : Reserves X (f l) (.commit l cl refs) Q) :
    Reserves X (perform .readLh >>= f) (.commit l cl refs) Q := by
  refine ⟨trivial, ?_⟩
  rintro _ _ ⟨rfl, rfl⟩
  exact hk

section

variable (hl : l.length ≤ 28)
include hl

lemma logBlock_obeys (tail home : ℕ) : Reserves X (logBlock sb tail home) (.commit l cl 0) fun _ φ =>
      ∃ cl', φ = .commit l cl' 0 := by
  refine obeys_bread (commit_room hl (by simp)) fun _ => ?_
  refine obeys_bread (commit_room hl (by simp)) fun _ => ?_
  refine obeys_setData (obeys_bwrite ?_)
  exact obeys_brelse_commit (obeys_last (obeys_brelse_commit ⟨_, rfl⟩))

lemma installBlock_obeys (tail home : ℕ) :
    Reserves X (installBlock sb tail home) (.commit l cl 0) fun _ φ => φ = .commit l (insert home cl) 0 := by
  refine obeys_bread (commit_room hl (by simp)) fun _ => ?_
  refine obeys_bread (commit_room hl (by simp)) fun _ => ?_
  refine obeys_setData (obeys_bwrite ?_)
  refine obeys_brelse (by simp) ?_
  simp only [Phase.mapRefs_commit]
  rw [Multiset.cons_swap, Multiset.erase_cons_head]
  exact obeys_last (obeys_brelse_commit rfl)

lemma writeHead_obeys : Reserves X (writeHead sb) (.commit l cl 0) fun _ φ =>
      φ = .commit l (insert sb.logstart cl) 0 := by
  refine obeys_bread (commit_room hl (by simp)) fun _ => ?_
  refine obeys_readLh (obeys_setData (obeys_bwrite ?_))
  exact obeys_last (obeys_brelse_commit rfl)

lemma writeLog_obeys : Reserves X (writeLog sb) (.commit l cl 0) fun _ φ => ∃ cl', φ = .commit l cl' 0 := by
  refine obeys_readLh ?_
  refine Obeys.range (fun _ (φ : Phase) => ∃ cl', φ = .commit l cl' 0) ?_ ⟨cl, rfl⟩
  rintro tail _ _ ⟨cl', rfl⟩
  exact logBlock_obeys hl tail _

lemma installTrans_obeys : Reserves X (installTrans sb) (.commit l cl 0) fun _ φ =>
      ∃ cl', φ = .commit l cl' 0 ∧ l.toFinset ⊆ cl' := by
  refine obeys_readLh ?_
  refine (Obeys.range (fun j φ => ∃ cl', φ = .commit l cl' 0 ∧ (l.take j).toFinset ⊆ cl') ?_
    ⟨cl, rfl, by simp⟩).mono ?_
  · rintro tail _ htail ⟨cl', rfl, hsub⟩
    refine (installBlock_obeys hl tail _).mono ?_
    rintro _ _ rfl
    refine ⟨_, rfl, ?_⟩
    rw [take_add_one, getElem?_eq_getElem htail, getD_eq_getElem _ _ htail, toFinset_append]
    refine union_subset (hsub.trans (subset_insert _ _)) ?_
    simp
  · rintro _ _ ⟨cl', rfl, hsub⟩
    exact ⟨cl', rfl, by rwa [take_length] at hsub⟩

lemma commit_obeys : Reserves X (commit sb) (.commit l ∅ 0) fun _ φ => ∃ cl, φ = .commit [] cl 0 := by
  refine obeys_readLh ?_
  by_cases hne : 0 < l.length
  · rw [if_pos hne]
    refine Obeys.bind ((writeLog_obeys hl).mono ?_)
    rintro _ _ ⟨cl, rfl⟩
    refine Obeys.bind ((writeHead_obeys hl).mono ?_)
    rintro _ _ rfl
    refine Obeys.bind ((installTrans_obeys hl).mono ?_)
    rintro _ _ ⟨cl, rfl, hsub⟩
    refine ⟨⟨rfl, hsub⟩, ?_⟩
    rintro _ _ rfl
    refine (writeHead_obeys (by simp)).mono ?_
    rintro _ _ rfl
    exact ⟨_, rfl⟩
  · rw [if_neg hne]
    obtain rfl : l = [] := eq_nil_of_length_eq_zero (by omega)
    exact ⟨∅, rfl⟩

end

lemma endOp_obeys (hX : X.card ≤ 2) : Reserves X (endOp sb) (.inside own 0) fun _ φ => φ = .outside := by
  refine ⟨rfl, ?_⟩
  rintro (_ | _) φ hn
  · obtain rfl := hn
    rfl
  · obtain ⟨l, hnodup, hcard, rfl⟩ := hn
    have hl : l.length ≤ 28 := by
      rw [← toFinset_card_of_nodup hnodup]
      have := card_le_card_sdiff_add_card (s := l.toFinset) (t := X)
      omega
    change Reserves X (commit sb >>= fun _ => perform .endCommit) _ _
    refine Obeys.bind ((commit_obeys hl).mono ?_)
    rintro _ _ ⟨cl, rfl⟩
    refine ⟨⟨rfl, rfl⟩, ?_⟩
    rintro _ _ rfl
    rfl

/-! Allocation. -/

lemma card_sdiff_le {s D : Finset ℕ} (h : s ⊆ X ∪ D) : (s \ X).card ≤ D.card := by
  refine card_le_card fun a ha => ?_
  obtain ⟨has, haX⟩ := mem_sdiff.mp ha
  exact (mem_union.mp (h has)).resolve_left haX

lemma union_insert_subset (X D : Finset ℕ) (a b : ℕ) : X ∪ insert a D ⊆ X ∪ insert a (insert b D) :=
  union_subset_union_right (insert_subset_insert _ (subset_insert _ _))

lemma card_insert_sdiff_le (b : ℕ) (s X : Finset ℕ) : (insert b s \ X).card ≤ (s \ X).card + 1 := by
  refine (card_sdiff_le (D := insert b (s \ X)) ?_).trans (card_insert_le _ _)
  rw [union_insert, union_sdiff_self_eq_union]
  exact insert_subset_insert b subset_union_right

lemma obeys_update {f : Block → Block} (h : ((own ∪ refs.toFinset) \ X).card ≤ 7) :
    Reserves X (do
      let bp ← bread b
      setData b (f bp)
      logWrite b
      brelse b) (.inside own refs) fun _ φ => φ = .inside (insert b own) refs := by
  have hown := (card_le_card (sdiff_subset_sdiff subset_union_left subset_rfl)).trans h
  refine obeys_bread ((card_insert_sdiff_le b _ X).trans (by omega)) fun _ => ?_
  refine obeys_setData (obeys_logWrite (by simp) hown ?_)
  exact obeys_last (obeys_brelse_inside rfl)

lemma iupdate_obeys {ip : Inode} (hown : (own \ X).card ≤ 7) :
    Reserves X (iupdate sb ip) (.inside own 0) fun _ φ => φ = .inside (insert (sb.iblock ip.inum) own) 0 :=
  obeys_update (f := fun bp => Fs.Dinode.write bp (ip.inum % Fs.IPB) ip.dinode) (by simpa using hown)

lemma ballocLoop_obeys (hB : sb.bmapstart ∈ X) (h : ((own ∪ refs.toFinset) \ X).card ≤ 7)
    (bs : List ℕ) (hbs : ∀ b ∈ bs, sb.bblock b = sb.bmapstart) :
    Reserves X (ballocLoop sb bs) (.inside own refs) fun addr φ =>
      φ = .inside (insert addr (insert sb.bmapstart own)) refs := by
  induction bs with
  | nil => exact obeys_panic (by simp) (by simp)
  | cons b bs ih =>
    have hb := hbs b mem_cons_self
    have hsame : ∀ s : Finset ℕ, insert sb.bmapstart s \ X = s \ X := by
      intro s
      exact insert_sdiff_of_mem _ hB
    have hown := (card_le_card (sdiff_subset_sdiff subset_union_left subset_rfl)).trans h
    refine obeys_bread ?_ fun bp => ?_
    · rw [hb]
      change (insert sb.bmapstart (own ∪ refs.toFinset) \ X).card ≤ 8
      rw [hsame]
      omega
    split
    · rename_i bi hbi
      refine obeys_setData (obeys_logWrite (by simp) hown (obeys_brelse_inside ?_))
      rw [hb]
      refine Obeys.bind ((obeys_update (f := fun _ => 0) ?_).mono ?_)
      · rw [insert_union, hsame]
        exact h
      · rintro _ _ rfl
        rfl
    · exact obeys_brelse_inside (ih fun a ha => hbs a (mem_cons_of_mem b ha))

/-- The blocks logged: shared ones, `n` data blocks and the index block. -/
def Within (X : Finset ℕ) (n : ℕ) (ip : Inode) (own : Finset ℕ) : Prop :=
  ∃ D : Finset ℕ, D.card ≤ n ∧ own ⊆ X ∪ insert (ip.addrs Lab.stock.NDIRECT) D

lemma Within.card_le {n : ℕ} {ip : Inode} (h : Within X n ip own) : (own \ X).card ≤ n + 1 := by
  obtain ⟨D, hD, hsub⟩ := h
  have := card_insert_le (ip.addrs Lab.stock.NDIRECT) D
  have := card_sdiff_le hsub
  omega

lemma ilock_obeys {inum : ℕ} : Reserves X (ilock sb inum) (.inside ∅ 0) fun _ φ => φ = .inside ∅ 0 := by
  refine ⟨trivial, ?_⟩
  rintro e _ rfl
  change Reserves X (if e.valid = true then _ else _) _ _
  split
  · rfl
  · refine obeys_bread ?_ fun bp => ?_
    · have := card_insert_sdiff_le (sb.iblock inum) (∅ ∪ Multiset.toFinset 0) X
      change (insert (sb.iblock inum) (∅ ∪ Multiset.toFinset 0) \ X).card ≤ 8
      simp only [Multiset.toFinset_zero, union_empty, empty_sdiff, card_empty] at this ⊢
      omega
    refine obeys_brelse_inside ⟨trivial, ?_⟩
    rintro _ _ rfl
    split
    · exact obeys_panic (by simp) (by simp)
    · rfl

section Layout

variable (hB : sb.bmapstart ∈ X) (hsize : sb.size ≤ BPB)
include hB hsize

lemma balloc_obeys (h : ((own ∪ refs.toFinset) \ X).card ≤ 7) :
    Reserves X (balloc sb) (.inside own refs) fun addr φ =>
      φ = .inside (insert addr (insert sb.bmapstart own)) refs := by
  refine ballocLoop_obeys hB h _ ?_
  intro b hb
  obtain ⟨q, hq, rfl⟩ := mem_map.mp hb
  have hpos : 0 < BPB := by decide
  have hlt : (sb.size + BPB - 1) / BPB < 2 := by
    rw [Nat.div_lt_iff_lt_mul hpos]
    omega
  have hq0 : q = 0 := by
    have := List.mem_range.mp hq
    omega
  simp [hq0, Superblock.bblock]

/-! The block map. -/

lemma addrEntry_obeys {ip : Inode} {k : ℕ} (h : (own \ X).card ≤ 7) :
    Reserves X (addrEntry sb ip k) (.inside own 0) fun r φ => (φ = .inside own 0 ∧ r = (ip.addrs k, ip)) ∨
      ∃ addr, φ = .inside (insert addr (insert sb.bmapstart own)) 0 ∧ ip.addrs k = 0 ∧
        r = (addr, ip.setAddr k addr) := by
  unfold addrEntry
  split
  · rename_i hk
    refine Obeys.bind ((balloc_obeys hB hsize (by simpa using h)).mono ?_)
    rintro addr _ rfl
    refine ⟨trivial, ?_⟩
    rintro _ _ rfl
    exact .inr ⟨addr, rfl, hk, rfl⟩
  · exact .inl ⟨rfl, rfl⟩

lemma indirectEntry_obeys {bno k : ℕ} {D : Finset ℕ} (hD : D.card ≤ 5) (hsub : own ⊆ X ∪ insert bno D) :
    Reserves X (indirectEntry sb bno k) (.inside own 0) fun addr φ =>
      ∃ own', φ = .inside own' 0 ∧ own' ⊆ X ∪ insert bno (insert addr D) := by
  have hins := insert_subset (mem_union_right _ (mem_insert_self _ _)) hsub
  have hcard := card_sdiff_le hins
  have hcardD := card_insert_le bno D
  refine obeys_bread ?_ fun bp => ?_
  · change (insert bno (own ∪ Multiset.toFinset 0) \ X).card ≤ 8
    rw [Multiset.toFinset_zero, union_empty]
    omega
  split
  · have hunion : own ∪ Multiset.toFinset (bno ::ₘ 0) = insert bno own := by
      rw [Multiset.toFinset_cons, Multiset.toFinset_zero, union_insert, union_empty]
    refine Obeys.bind ((balloc_obeys hB hsize (by rw [hunion]; omega)).mono ?_)
    rintro addr _ rfl
    have hsub' : insert addr (insert sb.bmapstart own) ⊆ X ∪ insert bno (insert addr D) := by
      refine insert_subset ?_ (insert_subset ?_ (hsub.trans ?_))
      · simp
      · exact mem_union_left _ hB
      · exact union_insert_subset _ _ _ _
    have hcard' := card_sdiff_le hsub'
    have h1 := card_insert_le bno (insert addr D)
    have h2 := card_insert_le addr D
    refine obeys_setData (obeys_logWrite (by simp) (by omega) (obeys_brelse_inside ?_))
    refine ⟨_, rfl, insert_subset ?_ hsub'⟩
    simp
  · exact obeys_brelse_inside ⟨own, rfl, hsub.trans (union_insert_subset _ _ _ _)⟩

variable (h0 : 0 ∈ X)
include h0

lemma bmap_obeys {ip : Inode} {bn n : ℕ} (hn : n ≤ 5) (h : Within X n ip own) :
    Reserves X (bmap sb ip bn) (.inside own 0) fun r φ =>
      ∃ own', φ = .inside own' 0 ∧ Within X (n + 1) r.2 (insert r.1 own') := by
  have hcard := h.card_le
  obtain ⟨D, hD, hsub⟩ := h
  unfold bmap
  split
  · rename_i hbn
    refine (addrEntry_obeys hB hsize (by omega)).mono ?_
    rintro _ _ (⟨rfl, rfl⟩ | ⟨addr, rfl, -, rfl⟩)
    · refine ⟨own, rfl, insert (ip.addrs bn) D, ?_, ?_⟩
      · have := card_insert_le (ip.addrs bn) D
        omega
      · exact insert_subset (by simp) (hsub.trans (union_insert_subset _ _ _ _))
    · refine ⟨_, rfl, insert addr D, ?_, ?_⟩
      · have := card_insert_le addr D
        omega
      · have hind : (ip.setAddr bn addr).addrs Lab.stock.NDIRECT = ip.addrs Lab.stock.NDIRECT :=
          Function.update_of_ne (by omega) _ _
        rw [hind]
        refine insert_subset (by simp) (insert_subset (by simp)
          (insert_subset (mem_union_left _ hB) (hsub.trans ?_)))
        exact union_insert_subset _ _ _ _
  split
  · refine Obeys.bind ((addrEntry_obeys hB hsize (by omega)).mono ?_)
    -- the index block is the one that the inode names now
    have hnext : ∀ own' ip', own' ⊆ X ∪ insert (ip'.addrs Lab.stock.NDIRECT) D →
        Reserves X (do
          let addr ← indirectEntry sb (ip'.addrs Lab.stock.NDIRECT) (bn - Lab.stock.NDIRECT)
          return (addr, ip')) (.inside own' 0) fun r φ =>
          ∃ own', φ = .inside own' 0 ∧ Within X (n + 1) r.2 (insert r.1 own') := by
      intro own' ip' hsub'
      refine Obeys.bind ((indirectEntry_obeys hB hsize (by omega) hsub').mono ?_)
      rintro addr _ ⟨own'', rfl, hsub''⟩
      refine ⟨own'', rfl, insert addr D, ?_, insert_subset (by simp) hsub''⟩
      have := card_insert_le addr D
      omega
    rintro _ _ (⟨rfl, rfl⟩ | ⟨addr, rfl, hzero, rfl⟩)
    · exact hnext own ip hsub
    · have hind : (ip.setAddr Lab.stock.NDIRECT addr).addrs Lab.stock.NDIRECT = addr := by
        simp [Inode.setAddr]
      have := hnext (insert addr (insert sb.bmapstart own)) (ip.setAddr Lab.stock.NDIRECT addr) ?_
      · rwa [hind] at this
      · rw [hind]
        refine insert_subset (by simp)
          (insert_subset (mem_union_left _ hB) (hsub.trans ?_))
        rw [hzero]
        refine union_subset subset_union_left (insert_subset ?_ ?_)
        · exact mem_union_left _ h0
        · exact (Finset.subset_insert _ _).trans Finset.subset_union_right
  · exact obeys_panic (by simp) (by simp)

/-! Writing. -/

lemma writeiLoop_obeys {j : ℕ} (n : ℕ) (ip : Inode) (src : ℕ → UInt8) (off : ℕ) (hj : j ≤ 6)
    (hn : n = 0 ∨ off % BSIZE + n ≤ (6 - j) * BSIZE) (h : Within X j ip own) :
    Reserves X (writeiLoop sb ip src off n) (.inside own 0) fun ip' φ =>
      ∃ own', φ = .inside own' 0 ∧ Within X 6 ip' own' := by
  induction n using Nat.strong_induction_on generalizing ip src off own j with
  | h n ih =>
    rw [writeiLoop]
    by_cases hn0 : n = 0
    · rw [if_pos hn0]
      obtain ⟨D, hD, hsub⟩ := h
      exact ⟨own, rfl, D, hD.trans hj, hsub⟩
    · rw [if_neg hn0]
      have hle := hn.resolve_left hn0
      have hmod := Nat.mod_lt off (show 0 < BSIZE by decide)
      have hj6 : j < 6 := by
        by_contra hc
        have : 6 - j = 0 := by omega
        rw [this] at hle
        omega
      refine Obeys.bind ((bmap_obeys hB hsize h0 (by omega) h).mono ?_)
      rintro ⟨addr, ip'⟩ _ ⟨own1, rfl, hw⟩
      have hcard := hw.card_le
      have hown1 : (own1 \ X).card ≤ (insert addr own1 \ X).card :=
        card_le_card (sdiff_subset_sdiff (subset_insert _ _) subset_rfl)
      refine obeys_bread ?_ fun bp => ?_
      · change (insert addr (own1 ∪ Multiset.toFinset 0) \ X).card ≤ 8
        rw [Multiset.toFinset_zero, union_empty]
        change (insert addr own1 \ X).card ≤ j + 1 + 1 at hcard
        omega
      change (insert addr own1 \ X).card ≤ j + 1 + 1 at hcard
      refine obeys_setData (obeys_logWrite (by simp) (by omega) (obeys_brelse_inside ?_))
      refine ih _ ?_ ip' _ _ (show j + 1 ≤ 6 by omega) ?_ hw
      · omega
      · by_cases hm : n ≤ BSIZE - off % BSIZE
        · left
          rw [Nat.min_eq_left hm, Nat.sub_self]
        · right
          have hmin : min n (BSIZE - off % BSIZE) = BSIZE - off % BSIZE :=
            Nat.min_eq_right (by omega)
          have hoff : (off + (BSIZE - off % BSIZE)) % BSIZE = 0 := by
            have := Nat.div_add_mod off BSIZE
            have hsum : off + (BSIZE - off % BSIZE) = BSIZE * (off / BSIZE + 1) := by
              rw [Nat.mul_add]
              omega
            rw [hsum]
            exact Nat.mul_mod_right _ _
          rw [hmin, hoff]
          have hmul : (6 - j) * BSIZE = (6 - (j + 1)) * BSIZE + BSIZE := by
            rw [← Nat.succ_mul]
            congr 1
            omega
          omega

variable {devsw : Devsw} {src : ℕ → UInt8} {off n : ℕ}

lemma writei_obeys {ip : Inode}
    (hn : off % BSIZE + n ≤ 6 * BSIZE) : Reserves X (writei sb devsw ip src off n) (.inside ∅ 0) fun _ φ =>
      ∃ own, φ = .inside own 0 := by
  unfold writei
  split
  · split
    · exact ⟨∅, rfl⟩
    · split <;> exact ⟨∅, rfl⟩
  split
  · exact ⟨∅, rfl⟩
  split
  · exact ⟨∅, rfl⟩
  refine Obeys.bind ((writeiLoop_obeys (j := 0) hB hsize h0 n ip src off (by omega) (.inr hn)
    ⟨∅, by simp, by simp⟩).mono ?_)
  rintro ip' _ ⟨own, rfl, hw⟩
  split
  · refine ⟨trivial, ?_⟩
    rintro _ _ rfl
    refine Obeys.bind ((iupdate_obeys hw.card_le).mono ?_)
    rintro _ _ rfl
    exact ⟨_, rfl⟩
  · exact ⟨own, rfl⟩

lemma writeChunk_obeys {inum : ℕ} (hX : X.card ≤ 2) (hn : off % BSIZE + n ≤ 6 * BSIZE) :
    Reserves X (writeChunk sb devsw inum src off n) .outside fun _ φ => φ = .outside := by
  refine ⟨trivial, ?_⟩
  rintro _ _ rfl
  change Reserves X (ilock sb inum >>= _) _ _
  refine Obeys.bind (ilock_obeys.mono ?_)
  rintro ip _ rfl
  refine Obeys.bind ((writei_obeys hB hsize h0 hn).mono ?_)
  rintro r _ ⟨own, rfl⟩
  refine ⟨trivial, ?_⟩
  rintro _ _ rfl
  change Reserves X (endOp sb >>= _) _ _
  refine Obeys.bind ((endOp_obeys hX).mono ?_)
  rintro _ _ rfl
  rfl

lemma filewrite_obeys {inum : ℕ} (hX : X.card ≤ 2) (hn : off % BSIZE + n ≤ 6 * BSIZE) :
    Reserves X (filewrite sb devsw inum src off n) .outside fun _ φ => φ = .outside := by
  have hloop : Reserves X (filewriteLoop sb devsw inum src off n) .outside fun _ φ =>
      φ = .outside := by
    rw [filewriteLoop]
    split
    · rfl
    have hmax : min n maxChunk = n := by
      refine Nat.min_eq_left ?_
      have : 6 * BSIZE ≤ maxChunk := by decide
      omega
    rw [hmax]
    refine Obeys.bind ((writeChunk_obeys hB hsize h0 hX hn).mono ?_)
    rintro r _ rfl
    split
    · rfl
    split
    · exact obeys_panic (by simp) (by simp)
    · rw [Nat.sub_self, filewriteLoop, if_pos rfl]
      rfl
  refine Obeys.bind (hloop.mono ?_)
  rintro ⟨all, off'⟩ _ rfl
  rfl

end Layout

end LearnXv6.Log
