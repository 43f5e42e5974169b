import LearnXv6.Store.Pool
import LearnXv6.Log.Counts
import LearnXv6.Log.Model

/-! The reservation of `begin_op`: a protocol for operations that log eight blocks besides
those they share, and the space it leaves in the log and in the cache. -/
namespace LearnXv6.Log
open Function Store Fs Finset

/-! The protocol. -/

/-- Where a process is: outside of any operation; in one, with the blocks it has logged and the
references it has; or committing the blocks `l`, with those it has written since. -/
inductive Phase where
  | outside
  | inside (own : Finset ℕ) (refs : Multiset ℕ)
  | commit (l : List ℕ) (cleaned : Finset ℕ) (refs : Multiset ℕ)

namespace Phase

def refs : Phase → Multiset ℕ
  | outside => 0
  | inside _ refs => refs
  | commit _ _ refs => refs

def mapRefs (f : Multiset ℕ → Multiset ℕ) : Phase → Phase
  | outside => outside
  | inside own refs => inside own (f refs)
  | commit l cleaned refs => commit l cleaned (f refs)

@[simp] lemma mapRefs_inside (f : Multiset ℕ → Multiset ℕ) (own : Finset ℕ)
    (refs : Multiset ℕ) : (inside own refs).mapRefs f = inside own (f refs) := rfl

@[simp] lemma mapRefs_commit (f : Multiset ℕ → Multiset ℕ) (l : List ℕ) (cleaned : Finset ℕ)
    (refs : Multiset ℕ) : (commit l cleaned refs).mapRefs f = commit l cleaned (f refs) := rfl

@[simp] lemma refs_inside (own : Finset ℕ) (refs : Multiset ℕ) : (inside own refs).refs = refs := rfl

@[simp] lemma refs_commit (l : List ℕ) (cleaned : Finset ℕ) (refs : Multiset ℕ) :
    (commit l cleaned refs).refs = refs := rfl

def cleaned : Phase → Finset ℕ
  | commit _ cleaned _ => cleaned
  | _ => ∅

def opened : Phase → ℕ
  | inside _ _ => 1
  | _ => 0

def commits : Phase → ℕ
  | commit _ _ _ => 1
  | _ => 0

/-- The blocks outside of `X` that the operation may still log. -/
def reserve (X : Finset ℕ) : Phase → ℕ
  | inside own _ => 8 - (own \ X).card
  | _ => 0

/-- What the protocol asks of an operation: eight blocks outside of the set `X` of shared ones. -/
def allowed (X : Finset ℕ) : Phase → Op → Prop
  | inside own refs, .bget b => (insert b (own ∪ refs.toFinset) \ X).card ≤ 8
  | commit l cleaned refs, .bget b =>
    b ∈ l.toFinset \ cleaned ∨ (refs.toFinset ∪ l.toFinset \ cleaned).card < NBUF
  | inside own _, .logCheck => (own \ X).card ≤ 7
  | inside _ refs, .logAppend b => b ∈ refs
  | inside _ refs, .endOp => refs = 0
  | outside, .beginOp => True
  | commit _ _ _, .bwrite _ => True
  | commit _ _ _, .readLh => True
  | commit l cleaned _, .setLh l' => l' = [] ∧ l.toFinset ⊆ cleaned
  | commit l _ refs, .endCommit => l = [] ∧ refs = 0
  | φ, .unref b => b ∈ φ.refs
  | _, .acquire _ => True
  | _, .setData _ _ => True
  | _, .unlock _ => True
  | _, .iacquire _ => True
  | _, .isetIp _ _ => True
  | _, .irelease _ => True
  | _, .panic e => e ≠ .noBuffers ∧ e ≠ .tooBigTransaction
  | _, _ => False

/-- The phases that may follow. -/
def next (X : Finset ℕ) : Phase → (o : Op) → o.Ret → Phase → Prop
  | φ, .bget b, _, φ' => φ' = φ.mapRefs (b ::ₘ ·)
  | φ, .unref b, _, φ' => φ' = φ.mapRefs (·.erase b)
  | inside own refs, .logAppend b, _, φ' => φ' = inside (insert b own) refs
  | outside, .beginOp, _, φ' => φ' = inside ∅ 0
  | inside _ _, .endOp, true, φ' =>
    ∃ l : List ℕ, l.Nodup ∧ (l.toFinset \ X).card ≤ 26 ∧ φ' = commit l ∅ 0
  | inside _ _, .endOp, false, φ' => φ' = outside
  | commit l cleaned refs, .bwrite b, _, φ' => φ' = commit l (insert b cleaned) refs
  | commit l cleaned refs, .readLh, r, φ' => r = l ∧ φ' = commit l cleaned refs
  | commit _ _ refs, .setLh l, _, φ' => φ' = commit l ∅ refs
  | commit _ _ _, .endCommit, _, φ' => φ' = outside
  | φ, _, _, φ' => φ' = φ

variable {X : Finset ℕ} {φ : Phase} {o : Op}

lemma eq_inside (h : φ.allowed X o) (ho : o = .logCheck ∨ (∃ b, o = .logAppend b) ∨ o = .endOp) :
    ∃ own refs, φ = inside own refs := by
  cases φ with
  | inside own refs => exact ⟨own, refs, rfl⟩
  | outside | commit l cleaned refs => rcases ho with rfl | ⟨b, rfl⟩ | rfl <;> exact h.elim

lemma eq_commit (h : φ.allowed X o)
    (ho : (∃ b, o = .bwrite b) ∨ o = .readLh ∨ (∃ l, o = .setLh l) ∨ o = .endCommit) :
    ∃ l cleaned refs, φ = commit l cleaned refs := by
  cases φ with
  | commit l cleaned refs => exact ⟨l, cleaned, refs, rfl⟩
  | outside | inside own refs => rcases ho with ⟨b, rfl⟩ | rfl | ⟨l, rfl⟩ | rfl <;> exact h.elim

end Phase

/-- The protocol of the log, with the blocks `X` that several operations may log. -/
def reservation (X : Finset ℕ) : Protocol Op Op.Ret Phase := ⟨Phase.allowed X, Phase.next X⟩

/-! The invariant. -/

section Invariant

variable {τ : Type} [Fintype τ] {X : Finset ℕ} {gs : τ → Phase} {s s' : State} {t u : τ}
  {φ : Phase} {own cl : Finset ℕ} {refs : Multiset ℕ} {l : List ℕ} {b : ℕ}

/-- The references of all processes to a block. -/
def allRefs (gs : τ → Phase) (b : ℕ) : ℕ := ∑ t, (gs t).refs.count b

/-- The blocks pinned: those logged, except those that the commit has written. -/
def pinned (gs : τ → Phase) (l : List ℕ) : Finset ℕ :=
  l.toFinset \ univ.biUnion fun t => (gs t).cleaned

structure Inv (X : Finset ℕ) (gs : τ → Phase) (s : State) : Prop where
  outstanding_eq : s.log.outstanding = ∑ t, (gs t).opened
  committing_eq : (if s.log.committing = true then 1 else 0) = ∑ t, (gs t).commits
  exclusive : s.log.committing = true → s.log.outstanding = 0
  empty : s.log.committing = false → s.log.outstanding = 0 → s.log.lh = []
  nodup : s.log.lh.Nodup
  inside : ∀ t own refs, gs t = .inside own refs →
    own ⊆ s.log.lh.toFinset ∧ ((own ∪ refs.toFinset) \ X).card ≤ 8
  commit : ∀ t l cl refs, gs t = .commit l cl refs → s.log.lh = l
  reserve : (s.log.lh.toFinset \ X).card + ∑ t, (gs t).reserve X ≤ 26
  counts : Counts s.bcache (allRefs gs) (pinned gs s.log.lh)

lemma Inv.not_committing (h : Inv X gs s) (ht : gs t = .inside own refs) :
    s.log.committing = false ∧ 0 < s.log.outstanding := by
  have hone : (gs t).opened = 1 := by
    rw [ht]
    rfl
  have hpos : 0 < s.log.outstanding := by
    rw [h.outstanding_eq]
    have := single_le_sum (f := fun u => (gs u).opened) (fun _ _ => Nat.zero_le _)
      (mem_univ t)
    omega
  refine ⟨?_, hpos⟩
  cases hc : s.log.committing with
  | false => rfl
  | true =>
    have := h.exclusive hc
    omega

lemma Inv.committing (h : Inv X gs s) (ht : gs t = .commit l cl refs) : s.log.committing = true := by
  have hone : (gs t).commits = 1 := by
    rw [ht]
    rfl
  have hle := single_le_sum (f := fun u => (gs u).commits) (fun _ _ => Nat.zero_le _)
    (mem_univ t)
  rw [← h.committing_eq] at hle
  by_contra hc
  rw [if_neg hc] at hle
  omega

lemma Inv.pinned_eq (h : Inv X gs s) (hc : s.log.committing = false) (l : List ℕ) :
    pinned gs l = l.toFinset := by
  have hnone : ∀ u, (gs u).cleaned = ∅ := by
    intro u
    cases hu : gs u with
    | outside | inside own refs => rfl
    | commit l cl refs =>
      rw [h.committing hu] at hc
      cases hc
  simp only [pinned, hnone]
  ext
  simp

lemma le_allRefs (gs : τ → Phase) (t : τ) (b : ℕ) : (gs t).refs.count b ≤ allRefs gs b :=
  single_le_sum (f := fun u => (gs u).refs.count b) (fun _ _ => Nat.zero_le _)
    (mem_univ t)

lemma Inv.frame (h : Inv X gs s) (hlog : s'.log = s.log)
    (hcounts : Counts s'.bcache (allRefs gs) (pinned gs s.log.lh)) : Inv X gs s' :=
  ⟨hlog ▸ h.outstanding_eq, hlog ▸ h.committing_eq, hlog ▸ h.exclusive, hlog ▸ h.empty,
    hlog ▸ h.nodup, hlog ▸ h.inside, hlog ▸ h.commit, hlog ▸ h.reserve, hlog ▸ hcounts⟩

lemma Inv.others (h : Inv X gs s) (hlh : s'.log.lh = s.log.lh) (u : τ) :
    (∀ own refs, gs u = .inside own refs → own ⊆ s'.log.lh.toFinset) ∧
      ∀ l cl refs, gs u = .commit l cl refs → s'.log.lh = l :=
  hlh ▸ ⟨fun own refs hg => (h.inside u own refs hg).1, h.commit u⟩

variable [DecidableEq τ]

lemma Inv.others_outside (h : Inv X gs s) (ht : gs t = .commit l cl refs) (hu : u ≠ t) :
    gs u = .outside := by
  have hcom := h.committing ht
  cases hg : gs u with
  | outside => rfl
  | inside own refs =>
    have := (h.not_committing hg).1
    rw [hcom] at this
    cases this
  | commit l' cl' refs' =>
    have hsum := h.committing_eq
    rw [if_pos hcom, ← add_sum_erase univ _ (mem_univ t)] at hsum
    have hle := single_le_sum (f := fun u => (gs u).commits) (fun _ _ => Nat.zero_le _)
      (mem_erase.mpr ⟨hu, mem_univ u⟩)
    have hone : (gs t).commits = 1 := by
      rw [ht]
      rfl
    have hone' : (gs u).commits = 1 := by
      rw [hg]
      rfl
    omega

/-! Changes to the phase of one process. -/

lemma allRefs_update (gs : τ → Phase) (t : τ) (φ : Phase) (a : ℕ) :
    allRefs (update gs t φ) a + (gs t).refs.count a = allRefs gs a + φ.refs.count a :=
  sum_update (f := fun φ : Phase => φ.refs.count a)

lemma allRefs_same (hφ : φ.refs = (gs t).refs) : allRefs (update gs t φ) = allRefs gs := by
  funext a
  have := allRefs_update gs t φ a
  rw [hφ] at this
  omega

lemma allRefs_cons (hφ : φ.refs = b ::ₘ (gs t).refs) :
    allRefs (update gs t φ) = update (allRefs gs) b (allRefs gs b + 1) := by
  funext a
  have := allRefs_update gs t φ a
  rw [hφ] at this
  by_cases hab : a = b
  · subst hab
    rw [Multiset.count_cons_self] at this
    rw [update_self]
    omega
  · rw [Multiset.count_cons_of_ne hab] at this
    rw [update_of_ne hab]
    omega

lemma allRefs_erase (hb : b ∈ (gs t).refs) (hφ : φ.refs = (gs t).refs.erase b) :
    allRefs (update gs t φ) = update (allRefs gs) b (allRefs gs b - 1) := by
  funext a
  have := allRefs_update gs t φ a
  rw [hφ] at this
  by_cases hab : a = b
  · subst hab
    have hpos := Multiset.count_pos.mpr hb
    rw [Multiset.count_erase_self] at this
    rw [update_self]
    omega
  · rw [Multiset.count_erase_of_ne hab] at this
    rw [update_of_ne hab]
    omega

omit [Fintype τ] in
lemma cleaned_update (hφ : φ.cleaned = (gs t).cleaned) (u : τ) :
    (update gs t φ u).cleaned = (gs u).cleaned := by
  by_cases hu : u = t
  · subst hu
    rw [update_self, hφ]
  · rw [update_of_ne hu]

lemma pinned_same (hφ : φ.cleaned = (gs t).cleaned) : pinned (update gs t φ) l = pinned gs l := by
  simp only [pinned, cleaned_update hφ]

lemma Inv.update (h : Inv X gs s)
    (hopened : s'.log.outstanding + (gs t).opened = s.log.outstanding + φ.opened)
    (hcommits : (if s'.log.committing = true then 1 else 0) + (gs t).commits =
      (if s.log.committing = true then 1 else 0) + φ.commits)
    (hexclusive : s'.log.committing = true → s'.log.outstanding = 0)
    (hempty : s'.log.committing = false → s'.log.outstanding = 0 → s'.log.lh = [])
    (hnodup : s'.log.lh.Nodup)
    (hothers : ∀ u, u ≠ t → (∀ own refs, gs u = .inside own refs → own ⊆ s'.log.lh.toFinset) ∧
      ∀ l cl refs, gs u = .commit l cl refs → s'.log.lh = l)
    (hinside : ∀ own refs, φ = .inside own refs →
      own ⊆ s'.log.lh.toFinset ∧ ((own ∪ refs.toFinset) \ X).card ≤ 8)
    (hcommit : ∀ l cl refs, φ = .commit l cl refs → s'.log.lh = l)
    (hreserve : (s'.log.lh.toFinset \ X).card + ∑ u, (update gs t φ u).reserve X ≤ 26)
    (hcounts : Counts s'.bcache (allRefs (update gs t φ))
      (pinned (update gs t φ) s'.log.lh)) : Inv X (update gs t φ) s' := by
  refine ⟨?_, ?_, hexclusive, hempty, hnodup, ?_, ?_, hreserve, hcounts⟩
  · have hsum : ∑ u, (Function.update gs t φ u).opened + (gs t).opened =
        ∑ u, (gs u).opened + φ.opened := sum_update (f := Phase.opened)
    have := h.outstanding_eq
    omega
  · have hsum : ∑ u, (Function.update gs t φ u).commits + (gs t).commits =
        ∑ u, (gs u).commits + φ.commits := sum_update (f := Phase.commits)
    have := h.committing_eq
    omega
  · exact (forall_update_iff gs fun _ φ => ∀ own refs, φ = .inside own refs →
      own ⊆ s'.log.lh.toFinset ∧ ((own ∪ refs.toFinset) \ X).card ≤ 8).mpr
      ⟨hinside, fun u hu own refs hg => ⟨(hothers u hu).1 own refs hg, (h.inside u own refs hg).2⟩⟩
  · exact (forall_update_iff gs fun _ φ => ∀ l cl refs, φ = .commit l cl refs →
      s'.log.lh = l).mpr ⟨hcommit, fun u hu => (hothers u hu).2⟩

/-! Steps of a process that keeps its kind of phase. -/

namespace Phase

variable (f : Multiset ℕ → Multiset ℕ) (φ : Phase)

@[simp] lemma opened_mapRefs : (φ.mapRefs f).opened = φ.opened := by cases φ <;> rfl

@[simp] lemma commits_mapRefs : (φ.mapRefs f).commits = φ.commits := by cases φ <;> rfl

@[simp] lemma cleaned_mapRefs : (φ.mapRefs f).cleaned = φ.cleaned := by cases φ <;> rfl

@[simp] lemma reserve_mapRefs (X : Finset ℕ) : (φ.mapRefs f).reserve X = φ.reserve X := by
  cases φ <;> rfl

end Phase

lemma Inv.mapRefs {f : Multiset ℕ → Multiset ℕ} (h : Inv X gs s) (hlog : s'.log = s.log)
    (hin : ∀ own refs, gs t = .inside own refs → ((own ∪ (f refs).toFinset) \ X).card ≤ 8)
    (hcounts : Counts s'.bcache (allRefs (Function.update gs t ((gs t).mapRefs f)))
      (pinned gs s.log.lh)) : Inv X (Function.update gs t ((gs t).mapRefs f)) s' := by
  refine h.update (by rw [hlog, Phase.opened_mapRefs]) (by rw [hlog, Phase.commits_mapRefs])
    (hlog ▸ h.exclusive) (hlog ▸ h.empty) (hlog ▸ h.nodup) (fun u _ => h.others (by rw [hlog]) u)
    ?_ ?_ ?_ ?_
  · intro own refs hφ
    cases hg : gs t with
    | outside | commit l cl refs => rw [hg] at hφ; cases hφ
    | inside own' refs' =>
      rw [hg] at hφ
      cases hφ
      exact ⟨hlog ▸ (h.inside t own refs' hg).1, hin own refs' hg⟩
  · intro l cl refs hφ
    cases hg : gs t with
    | outside | inside own' refs' => rw [hg] at hφ; cases hφ
    | commit l' cl' refs' =>
      rw [hg] at hφ
      cases hφ
      exact hlog ▸ h.commit t l cl refs' hg
  · rw [hlog, sum_update_eq (f := Phase.reserve X) (Phase.reserve_mapRefs f _ X)]
    exact h.reserve
  · rw [hlog, pinned_same (Phase.cleaned_mapRefs f _)]
    exact hcounts

lemma Inv.bget {c : List Buf} (h : Inv X gs s) (ha : (gs t).allowed X (.bget b))
    (hget : bget s.bcache b = some c) :
    Inv X (Function.update gs t ((gs t).mapRefs (b ::ₘ ·))) { s with bcache := c } := by
  refine h.mapRefs rfl ?_ ?_
  · intro own refs ht
    rw [ht] at ha
    have hset : own ∪ (b ::ₘ refs).toFinset = insert b (own ∪ refs.toFinset) := by
      rw [Multiset.toFinset_cons, union_insert]
    rw [hset]
    exact ha
  · have hrefs : ((gs t).mapRefs (b ::ₘ ·)).refs = b ::ₘ (gs t).refs := by
      cases hg : gs t with
      | outside =>
        rw [hg] at ha
        exact ha.elim
      | inside own refs | commit l cl refs => rfl
    rw [allRefs_cons hrefs]
    exact h.counts.bget hget

lemma Inv.unref (h : Inv X gs s) (hb : b ∈ (gs t).refs) :
    Inv X (Function.update gs t ((gs t).mapRefs (·.erase b))) { s with bcache := release s.bcache b } := by
  refine h.mapRefs rfl ?_ ?_
  · intro own refs ht
    refine (card_le_card ?_).trans (h.inside t own refs ht).2
    refine sdiff_subset_sdiff (union_subset_union_right ?_) subset_rfl
    intro a ha
    exact Multiset.mem_toFinset.mpr (Multiset.mem_of_mem_erase (Multiset.mem_toFinset.mp ha))
  · have hrefs : ((gs t).mapRefs (·.erase b)).refs = (gs t).refs.erase b := by
      cases hg : gs t with
      | outside =>
        rw [hg] at hb
        exact absurd hb (Multiset.notMem_zero b)
      | inside own refs | commit l cl refs => rfl
    rw [allRefs_erase hb hrefs]
    refine h.counts.release ?_
    exact (Multiset.count_pos.mpr hb).trans_le (le_allRefs gs t b)

end Invariant

end LearnXv6.Log
