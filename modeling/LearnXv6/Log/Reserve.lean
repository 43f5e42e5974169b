import LearnXv6.Log.Phase

/-! The invariant of the reservation in every interleaving: each operation that the protocol allows
keeps it, and none panics for want of a buffer or of space in the log. -/
namespace LearnXv6.Log
open Function Store Fs List Finset Phase

variable {τ : Type} [Fintype τ] [DecidableEq τ] {X : Finset ℕ} {gs : τ → Phase} {s s' : State} {t u : τ}
  {φ : Phase} {own cl : Finset ℕ} {refs : Multiset ℕ} {l : List ℕ} {b : ℕ}

/-! `log_write` -/

lemma reserve_insert {lh : Finset ℕ} (hown : own ⊆ lh)
    (hcard : ((own ∪ refs.toFinset) \ X).card ≤ 8) (hb : b ∈ refs) :
    (insert b lh \ X).card + (inside (insert b own) refs).reserve X ≤
      (lh \ X).card + (inside own refs).reserve X := by
  simp only [reserve]
  by_cases hbo : b ∈ own
  · rw [insert_eq_of_mem hbo, insert_eq_of_mem (hown hbo)]
  by_cases hbX : b ∈ X
  · rw [insert_sdiff_of_mem _ hbX, insert_sdiff_of_mem _ hbX]
  · have h1 : (insert b own \ X).card = (own \ X).card + 1 := by
      rw [insert_sdiff_of_notMem _ hbX, card_insert_of_notMem]
      exact fun hc => hbo (mem_sdiff.mp hc).1
    have h2 : (insert b lh \ X).card ≤ (lh \ X).card + 1 := by
      rw [insert_sdiff_of_notMem _ hbX]
      exact card_insert_le _ _
    have h3 : (insert b own \ X).card ≤ ((own ∪ refs.toFinset) \ X).card := by
      refine card_le_card (sdiff_subset_sdiff ?_ subset_rfl)
      refine insert_subset ?_ subset_union_left
      exact mem_union_right _ (Multiset.mem_toFinset.mpr hb)
    omega

lemma Inv.logAppend (h : Inv X gs s) (ht : gs t = .inside own refs) (hb : b ∈ refs)
    (hlh : l = if b ∈ s.log.lh then s.log.lh else s.log.lh ++ [b]) :
    Inv X (Function.update gs t (.inside (insert b own) refs))
      { s with log := { s.log with lh := l }, bcache := modify s.bcache b Buf.pin } := by
  obtain ⟨hown, hcard⟩ := h.inside t own refs ht
  obtain ⟨hnc, hout⟩ := h.not_committing ht
  have hset : l.toFinset = insert b s.log.lh.toFinset := by
    rw [hlh]
    by_cases hbl : b ∈ s.log.lh
    · rw [if_pos hbl, insert_eq_of_mem (mem_toFinset.mpr hbl)]
    · rw [if_neg hbl, toFinset_append]
      ext a
      simp
  have hnone : ∀ u l cl refs, gs u ≠ .commit l cl refs := by
    intro u l cl refs hu
    have := h.committing hu
    rw [hnc] at this
    cases this
  have hsub : s.log.lh.toFinset ⊆ l.toFinset := by
    rw [hset]
    exact Finset.subset_insert _ _
  refine h.update (by rw [ht]; rfl) (by rw [ht]; rfl) h.exclusive (fun _ hzero => ?_) ?_
    (fun u _ => ⟨fun own refs hu => (h.inside u own refs hu).1.trans hsub,
      fun l cl refs hu => absurd hu (hnone u l cl refs)⟩) ?_ nofun ?_ ?_
  · change s.log.outstanding = 0 at hzero
    omega
  · change l.Nodup
    rw [hlh]
    by_cases hbl : b ∈ s.log.lh
    · rw [if_pos hbl]
      exact h.nodup
    · rw [if_neg hbl]
      exact h.nodup.append (nodup_singleton b) (by simpa using hbl)
  · rintro _ _ ⟨⟩
    refine ⟨hset ▸ insert_subset_insert b hown, ?_⟩
    rwa [insert_union, insert_eq_of_mem]
    exact mem_union_right _ (Multiset.mem_toFinset.mpr hb)
  · have h1 := reserve_insert hown hcard hb
    have h2 : ∑ u, (Function.update gs t (.inside (insert b own) refs) u).reserve X +
        (gs t).reserve X = ∑ u, (gs u).reserve X + (Phase.inside (insert b own) refs).reserve X :=
      sum_update (f := Phase.reserve X)
    have h3 := h.reserve
    rw [ht] at h2
    rw [hset]
    omega
  · have hpinned : pinned (Function.update gs t (.inside (insert b own) refs)) l =
        insert b (pinned gs s.log.lh) := by
      rw [pinned_same (by rw [ht]; rfl), h.pinned_eq hnc, h.pinned_eq hnc, hset]
    rw [allRefs_same (by rw [ht]; rfl)]
    rw [hpinned]
    refine h.counts.pin ?_
    refine (Multiset.count_pos.mpr ?_).trans_le (le_allRefs gs t b)
    rw [ht]
    exact hb

/-! `begin_op` and `end_op` -/

omit [DecidableEq τ] in
lemma sum_reserve_le (gs : τ → Phase) : ∑ t, (gs t).reserve X ≤ 8 * ∑ t, (gs t).opened := by
  rw [mul_sum]
  refine sum_le_sum fun u _ => ?_
  cases gs u with
  | outside | commit l cl refs => exact Nat.zero_le _
  | inside own refs => exact Nat.sub_le _ _

lemma Inv.beginOp (h : Inv X gs s) (ht : gs t = .outside) (hc : s.log.committing = false)
    (hle : s.log.lh.length + (s.log.outstanding + 1) * MAXOPBLOCKS ≤ LOGSIZE) :
    Inv X (Function.update gs t (.inside ∅ 0))
      { s with log := { s.log with outstanding := s.log.outstanding + 1 } } := by
  refine h.update (by rw [ht]; rfl) (by rw [ht]; rfl) (fun hcom => ?_) nofun h.nodup
    (fun u _ => h.others rfl u) ?_ nofun ?_ ?_
  · change s.log.committing = true at hcom
    rw [hc] at hcom
    cases hcom
  · rintro _ _ ⟨⟩
    simp
  · have h1 : ∑ u, (Function.update gs t (.inside ∅ 0) u).reserve X + (gs t).reserve X =
        ∑ u, (gs u).reserve X + (Phase.inside ∅ 0).reserve X :=
      sum_update (f := Phase.reserve X)
    have h0 : (Phase.inside ∅ 0).reserve X = 8 := by simp [Phase.reserve]
    have h2 := sum_reserve_le (X := X) gs
    rw [← h.outstanding_eq] at h2
    have h3 : (s.log.lh.toFinset \ X).card ≤ s.log.lh.length :=
      (card_le_card sdiff_subset).trans (toFinset_card_le _)
    have h4 : s.log.outstanding = 0 → s.log.lh.length = 0 := by
      intro hzero
      rw [h.empty hc hzero]
      rfl
    simp only [MAXOPBLOCKS, LOGSIZE] at hle
    change (s.log.lh.toFinset \ X).card + _ ≤ 26
    omega
  · rw [allRefs_same (by rw [ht]; rfl), pinned_same (by rw [ht]; rfl)]
    exact h.counts

lemma Inv.endOp {last : Bool} (h : Inv X gs s) (ht : gs t = .inside own 0)
    (hlast : last = decide (s.log.outstanding - 1 = 0))
    (hφ : φ = if last then .commit s.log.lh ∅ 0 else .outside) :
    Inv X (Function.update gs t φ)
      { s with log := ⟨s.log.lh, s.log.outstanding - 1, last⟩ } := by
  obtain ⟨hnc, hout⟩ := h.not_committing ht
  have hopened : φ.opened = 0 ∧ φ.refs = 0 ∧ φ.cleaned = ∅ ∧ φ.reserve X = 0 ∧
      φ.commits = if last = true then 1 else 0 := by
    rw [hφ]
    cases last <;> exact ⟨rfl, rfl, rfl, rfl, rfl⟩
  obtain ⟨h1, h2, h3, h4, h5⟩ := hopened
  refine h.update ?_ ?_ ?_ ?_ h.nodup (fun u _ => h.others rfl u) ?_ ?_ ?_ ?_
  · rw [ht, h1]
    exact Nat.sub_add_cancel hout
  · rw [ht, h5, hnc]
    exact Nat.add_comm _ _
  · intro htrue
    rw [hlast] at htrue
    exact of_decide_eq_true htrue
  · intro hfalse hzero
    rw [hlast] at hfalse
    exact absurd hzero (of_decide_eq_false hfalse)
  · rintro own' refs' rfl
    cases h1
  · rintro l cl refs rfl
    cases last
    · cases hφ
    · cases hφ
      rfl
  · have hsum : ∑ u, (Function.update gs t φ u).reserve X + (gs t).reserve X =
        ∑ u, (gs u).reserve X + φ.reserve X := sum_update (f := Phase.reserve X)
    have := h.reserve
    change (s.log.lh.toFinset \ X).card + _ ≤ 26
    omega
  · rw [allRefs_same (by rw [ht, h2]; rfl), pinned_same (by rw [ht, h3]; rfl)]
    exact h.counts

/-! The commit. -/

lemma pinned_of_others (ho : ∀ u, u ≠ t → (gs u).cleaned = ∅) (l : List ℕ) :
    pinned gs l = l.toFinset \ (gs t).cleaned := by
  rw [pinned]
  congr 1
  ext a
  simp only [mem_biUnion, mem_univ, true_and]
  constructor
  · rintro ⟨u, hu⟩
    by_cases hut : u = t
    · rwa [hut] at hu
    · rw [ho u hut] at hu
      exact absurd hu (notMem_empty a)
  · intro ha
    exact ⟨t, ha⟩

lemma Inv.pinned_commit (h : Inv X gs s) (ht : gs t = .commit l cl refs) (l' : List ℕ) :
    pinned gs l' = l'.toFinset \ cl := by
  rw [pinned_of_others (t := t) fun u hut => by rw [h.others_outside ht hut]; rfl, ht]
  rfl

lemma Inv.allRefs_commit (h : Inv X gs s) (ht : gs t = .commit l cl refs) (a : ℕ) :
    allRefs gs a = refs.count a := by
  rw [allRefs, sum_eq_single t, ht]
  · rfl
  · intro u _ hut
    rw [h.others_outside ht hut]
    rfl
  · intro ht'
    exact absurd (mem_univ t) ht'

lemma Inv.commit_step (h : Inv X gs s) (ht : gs t = .commit l cl refs)
    (hφ : (∃ l' cl', φ = .commit l' cl' refs ∧ s'.log.lh = l' ∧ s'.log.committing = true) ∨
      (φ = .outside ∧ refs = 0 ∧ s'.log.lh = [] ∧ s'.log.committing = false))
    (hout : s'.log.outstanding = s.log.outstanding) (hlh : s'.log.lh.Sublist s.log.lh)
    (hcounts : Counts s'.bcache (allRefs gs) (s'.log.lh.toFinset \ φ.cleaned)) :
    Inv X (Function.update gs t φ) s' := by
  have hzero := h.exclusive (h.committing ht)
  have hopened : φ.opened = 0 ∧ φ.reserve X = 0 ∧ φ.refs = refs ∧
      φ.commits = if s'.log.committing = true then 1 else 0 := by
    rcases hφ with ⟨l', cl', rfl, -, hc⟩ | ⟨rfl, rfl, -, hc⟩
    · exact ⟨rfl, rfl, rfl, (if_pos hc).symm⟩
    · exact ⟨rfl, rfl, rfl, by rw [hc]; rfl⟩
  obtain ⟨h1, h2, h3, h4⟩ := hopened
  refine h.update (by rw [ht, h1, hout]; rfl) ?_ (fun _ => hout.trans hzero) ?_
    (h.nodup.sublist hlh) (fun u hut => ?_) ?_ ?_ ?_ ?_
  · rw [ht, h4, h.committing ht]
    exact Nat.add_comm _ _
  · intro hfalse _
    rcases hφ with ⟨l', cl', -, -, hc⟩ | ⟨-, -, hl, -⟩
    · rw [hfalse] at hc
      cases hc
    · exact hl
  · rw [h.others_outside ht hut]
    exact ⟨nofun, nofun⟩
  · rintro own' refs' rfl
    cases h1
  · rintro l1 cl1 refs1 rfl
    rcases hφ with ⟨l', cl', he, hl, -⟩ | ⟨he, -⟩
    · cases he
      exact hl
    · cases he
  · rw [sum_update_eq (f := Phase.reserve X) (by rw [ht, h2]; rfl)]
    have hcard : (s'.log.lh.toFinset \ X).card ≤ (s.log.lh.toFinset \ X).card := by
      refine card_le_card (sdiff_subset_sdiff ?_ subset_rfl)
      intro a ha
      exact mem_toFinset.mpr (hlh.subset (mem_toFinset.mp ha))
    have := h.reserve
    omega
  · have hothers : ∀ u, u ≠ t → (Function.update gs t φ u).cleaned = ∅ := by
      intro u hut
      rw [update_of_ne hut, h.others_outside ht hut]
      rfl
    rw [allRefs_same (by rw [ht, h3]; rfl), pinned_of_others hothers, update_self]
    exact hcounts

/-! Every step. -/

lemma Inv.step {sb : Superblock} {o : Op} {r : o.Ret} (h : Inv X gs s)
    (ha : (gs t).allowed X o) (he : exec sb o s = .ok (r, s')) :
    ∃ φ, (gs t).next X o r φ ∧ Inv X (Function.update gs t φ) s' := by
  have hkeep : (gs t).next X o r (gs t) → s'.log = s.log →
      Counts s'.bcache (allRefs gs) (pinned gs s.log.lh) →
      ∃ φ, (gs t).next X o r φ ∧ Inv X (Function.update gs t φ) s' := by
    intro hn hlog hcounts
    refine ⟨gs t, hn, ?_⟩
    rw [update_eq_self]
    exact h.frame hlog hcounts
  cases o with
  | bget b =>
    simp only [exec] at he
    split at he
    · rename_i c hget
      cases he
      exact ⟨_, rfl, h.bget ha hget⟩
    · cases he
  | acquire b =>
    simp only [exec] at he
    split at he
    · split at he
      · cases he
      · cases he
        refine hkeep (by cases gs t <;> rfl) rfl (h.counts.frame ?_ ?_ ?_) <;> exact fun _ => rfl
    · cases he
  | setData b v =>
    cases he
    refine hkeep (by cases gs t <;> rfl) rfl (h.counts.frame ?_ ?_ ?_) <;> exact fun _ => rfl
  | unlock b =>
    simp only [exec] at he
    split at he
    · split at he
      · cases he
        refine hkeep (by cases gs t <;> rfl) rfl (h.counts.frame ?_ ?_ ?_) <;> exact fun _ => rfl
      · cases he
    · cases he
  | unref b =>
    cases he
    have hb : b ∈ (gs t).refs := by
      cases hg : gs t <;> rw [hg] at ha <;> exact ha
    exact ⟨_, rfl, h.unref hb⟩
  | iacquire inum =>
    simp only [exec] at he
    split at he
    · cases he
    · cases he
      exact hkeep (by cases gs t <;> rfl) rfl h.counts
  | isetIp inum ip | irelease inum =>
    cases he
    exact hkeep (by cases gs t <;> rfl) rfl h.counts
  | panic e => cases he
  | logCheck =>
    simp only [exec] at he
    split at he
    · cases he
    · split at he
      · cases he
      · cases he
        exact hkeep (by cases gs t <;> rfl) rfl h.counts
  | logAppend b =>
    obtain ⟨own, refs, hg⟩ := eq_inside ha (.inr (.inl ⟨b, rfl⟩))
    rw [hg] at ha ⊢
    cases he
    exact ⟨_, rfl, h.logAppend hg ha rfl⟩
  | beginOp =>
    cases hg : gs t with
    | inside own refs | commit l cl refs => rw [hg] at ha; exact ha.elim
    | outside =>
      simp only [exec] at he
      split at he
      · cases he
      · rename_i hnc
        split at he
        · cases he
        · rename_i hle
          cases he
          exact ⟨_, rfl, h.beginOp hg (Bool.not_eq_true _ ▸ hnc) (Nat.not_lt.mp hle)⟩
  | endOp =>
    obtain ⟨own, refs, hg⟩ := eq_inside ha (.inr (.inr rfl))
    rw [hg] at ha ⊢
    obtain rfl : refs = 0 := ha
    simp only [exec] at he
    split at he
    · cases he
    · cases he
      refine ⟨_, ?_, h.endOp hg rfl rfl⟩
      have hcard : (s.log.lh.toFinset \ X).card ≤ 26 := by
        have := h.reserve
        omega
      cases hd : decide (s.log.outstanding - 1 = 0) with
      | false => rfl
      | true => exact ⟨s.log.lh, h.nodup, hcard, rfl⟩
  | bwrite b =>
    obtain ⟨l, cl, refs, hg⟩ := eq_commit ha (.inl ⟨b, rfl⟩)
    rw [hg]
    simp only [exec] at he
    split at he
    · split at he
      · cases he
        refine ⟨_, rfl, h.commit_step hg (.inl ⟨l, insert b cl, rfl, h.commit t l cl refs hg,
          h.committing hg⟩) rfl (Sublist.refl _) ?_⟩
        have hset : s.log.lh.toFinset \ insert b cl = (pinned gs s.log.lh).erase b := by
          rw [h.pinned_commit hg]
          ext a
          simp only [mem_sdiff, mem_insert, mem_erase]
          tauto
        change Counts _ _ (s.log.lh.toFinset \ insert b cl)
        rw [hset]
        exact h.counts.written
      · cases he
    · cases he
  | readLh =>
    obtain ⟨l, cl, refs, hg⟩ := eq_commit ha (.inr (.inl rfl))
    cases he
    exact hkeep (by rw [hg]; exact ⟨h.commit t l cl refs hg, rfl⟩) rfl h.counts
  | setLh l' =>
    obtain ⟨l, cl, refs, hg⟩ := eq_commit ha (.inr (.inr (.inl ⟨l', rfl⟩)))
    rw [hg] at ha ⊢
    obtain ⟨rfl, hsub⟩ := ha
    cases he
    refine ⟨_, rfl, h.commit_step hg (.inl ⟨[], ∅, rfl, rfl, h.committing hg⟩) rfl
      (nil_sublist _) ?_⟩
    have hnone : pinned gs s.log.lh = ∅ := by
      rw [h.pinned_commit hg, h.commit t l cl refs hg]
      exact sdiff_eq_empty_iff_subset.mpr hsub
    have := h.counts
    rw [hnone] at this
    exact this
  | endCommit =>
    obtain ⟨l, cl, refs, hg⟩ := eq_commit ha (.inr (.inr (.inr rfl)))
    rw [hg] at ha ⊢
    obtain ⟨rfl, rfl⟩ := ha
    cases he
    have hlh := h.commit t [] cl 0 hg
    refine ⟨_, rfl, h.commit_step hg (.inr ⟨rfl, rfl, hlh, rfl⟩) rfl (Sublist.refl _) ?_⟩
    have hnone : pinned gs s.log.lh = ∅ := by
      rw [h.pinned_commit hg, hlh, toFinset_nil, empty_sdiff]
    have hempty : s.log.lh.toFinset \ outside.cleaned = ∅ := by
      rw [hlh]
      rfl
    have := h.counts
    rw [hnone] at this
    rw [hempty]
    exact this

/-! No panic for want of space. -/

/-- The references of an operation to blocks that it has not logged. -/
def Phase.extra (X : Finset ℕ) : Phase → Finset ℕ
  | .inside own refs => (refs.toFinset \ own) \ X
  | _ => ∅

variable (h : Inv X gs s)
include h

omit [DecidableEq τ] in
lemma Inv.extra_le (u : τ) : ((gs u).extra X).card ≤ (gs u).reserve X := by
  cases hg : gs u with
  | outside | commit l cl refs => exact Nat.zero_le _
  | inside own refs =>
    have hcard := (h.inside u own refs hg).2
    have hsplit : (own ∪ refs.toFinset) \ X =
        own \ X ∪ (refs.toFinset \ own) \ X := by
      rw [← union_sdiff_distrib, union_sdiff_self_eq_union]
    have hdisj : Disjoint (own \ X) ((refs.toFinset \ own) \ X) :=
      (disjoint_sdiff.mono_left sdiff_subset).mono_right sdiff_subset
    rw [hsplit, card_union_of_disjoint hdisj] at hcard
    simp only [Phase.extra, Phase.reserve]
    omega

omit [DecidableEq τ] in
lemma Inv.room_inside (hX : X.card ≤ 2) (hc : s.log.committing = false) (b : ℕ) :
    Room (allRefs gs) (pinned gs s.log.lh) b := by
  right
  refine ⟨X ∪ (s.log.lh.toFinset \ X ∪ univ.biUnion fun u => (gs u).extra X), ?_, ?_⟩
  · intro a ha
    by_cases haX : a ∈ X
    · exact mem_union_left _ haX
    by_cases hal : a ∈ s.log.lh.toFinset
    · exact mem_union_right _ (mem_union_left _ (mem_sdiff.mpr ⟨hal, haX⟩))
    · rw [h.pinned_eq hc] at ha
      have hpos := ha.resolve_right hal
      obtain ⟨u, -, hu⟩ := exists_ne_zero_of_sum_ne_zero hpos.ne'
      have hmem := Multiset.count_ne_zero.mp hu
      refine mem_union_right _ (mem_union_right _ (mem_biUnion.mpr ⟨u, mem_univ u, ?_⟩))
      cases hg : gs u with
      | outside =>
        rw [hg] at hmem
        exact absurd hmem (Multiset.notMem_zero a)
      | commit l cl refs =>
        rw [h.committing hg] at hc
        cases hc
      | inside own refs =>
        rw [hg] at hmem
        refine mem_sdiff.mpr ⟨mem_sdiff.mpr ⟨Multiset.mem_toFinset.mpr hmem, ?_⟩, haX⟩
        exact fun ho => hal ((h.inside u own refs hg).1 ho)
  · have h1 : (univ.biUnion fun u => (gs u).extra X).card ≤ ∑ u, (gs u).reserve X :=
      card_biUnion_le.trans (sum_le_sum fun u _ => h.extra_le u)
    have h2 := card_union_le (s.log.lh.toFinset \ X)
      (univ.biUnion fun u => (gs u).extra X)
    have h3 := card_union_le X
      (s.log.lh.toFinset \ X ∪ univ.biUnion fun u => (gs u).extra X)
    have h4 := h.reserve
    simp only [NBUF, MAXOPBLOCKS]
    omega

lemma Inv.room (hX : X.card ≤ 2) (ha : (gs t).allowed X (.bget b)) :
    Room (allRefs gs) (pinned gs s.log.lh) b := by
  cases hg : gs t with
  | outside => rw [hg] at ha; exact ha.elim
  | inside own refs => exact h.room_inside hX (h.not_committing hg).1 b
  | commit l cl refs =>
    rw [hg] at ha
    have hpinned : pinned gs s.log.lh = l.toFinset \ cl := by
      rw [h.pinned_commit hg, h.commit t l cl refs hg]
    rw [hpinned]
    refine ha.imp_right fun hlt => ⟨refs.toFinset ∪ l.toFinset \ cl, fun a ha => ?_, hlt⟩
    rw [h.allRefs_commit hg] at ha
    exact mem_union.mpr (ha.imp_left fun hpos =>
      Multiset.mem_toFinset.mpr (Multiset.count_pos.mp hpos))

omit [DecidableEq τ] in
lemma Inv.log_room (hX : X.card ≤ 2) (ht : gs t = .inside own refs)
    (hown : (own \ X).card ≤ 7) : s.log.lh.length ≤ 27 := by
  have h1 : 1 ≤ (gs t).reserve X := by
    rw [ht]
    simp only [Phase.reserve]
    omega
  have h2 := single_le_sum (f := fun u => (gs u).reserve X) (fun _ _ => Nat.zero_le _)
    (mem_univ t)
  have h3 : s.log.lh.length ≤ (s.log.lh.toFinset \ X).card + X.card := by
    rw [← toFinset_card_of_nodup h.nodup]
    exact card_le_card_sdiff_add_card
  have h4 := h.reserve
  omega

/-- What the protocol allows does not panic for want of a buffer or of space in the log. -/
lemma Inv.safe {sb : Superblock} {o : Op} {e : Stop} (hX : X.card ≤ 2) (hlog : sb.nlog = LOGSIZE)
    (ha : (gs t).allowed X o) (he : exec sb o s = .error e) :
    e ≠ .panic .noBuffers ∧ e ≠ .panic .tooBigTransaction := by
  cases o with
  | bget b =>
    simp only [exec] at he
    split at he
    · cases he
    · rename_i hnone
      exact absurd hnone (h.counts.bget_ne_none (h.room hX ha))
  | logCheck =>
    obtain ⟨own, refs, hg⟩ := eq_inside ha (.inl rfl)
    rw [hg] at ha
    have hlen := h.log_room hX hg ha
    simp only [exec] at he
    split at he
    · rename_i hfull
      simp only [hlog, LOGSIZE, MAXOPBLOCKS] at hfull
      omega
    · split at he
      · cases he
        simp
      · cases he
  | panic e' =>
    cases he
    have hne : e' ≠ .noBuffers ∧ e' ≠ .tooBigTransaction := by
      cases hg : gs t <;> rw [hg] at ha <;> exact ha
    exact ⟨fun hc => hne.1 (Stop.panic.inj hc), fun hc => hne.2 (Stop.panic.inj hc)⟩
  | acquire b | unlock b | bwrite b | beginOp | endOp | iacquire inum =>
    simp only [exec] at he
    repeat' split at he
    all_goals cases he
    all_goals simp
  | setData b v | setLh l | isetIp inum ip | unref b | logAppend b | readLh | endCommit | irelease inum =>
    cases he

end LearnXv6.Log
