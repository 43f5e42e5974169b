import LearnXv6.Log.Bio

/-! Which buffers `bget` may take: the references to each block, and the blocks pinned by
`log_write`. -/
namespace LearnXv6.Log

open Function Finset

variable {c c' : List Buf} {refs refs' : ℕ → ℕ} {dirty dirty' : Finset ℕ} {a b : ℕ} {x : Buf}
  {f : Buf → Buf}

/-- The cache, with `refs b` references to block `b` and the blocks `dirty` pinned. -/
structure Counts (c : List Buf) (refs : ℕ → ℕ) (dirty : Finset ℕ) : Prop where
  length_eq : c.length = NBUF
  distinct : Distinct c
  blank : ∀ x ∈ c, x.blockno = none → x.unused
  refcnt_eq : ∀ x ∈ c, ∀ b, x.blockno = some b → x.refcnt = refs b
  dirty_eq : ∀ x ∈ c, ∀ b, x.blockno = some b → x.dirty = decide (b ∈ dirty)
  cached : ∀ b, 0 < refs b ∨ b ∈ dirty → (entry c b).isSome

lemma counts_binit : Counts binit (fun _ => 0) ∅ := by
  have hx : ∀ x ∈ binit, x = ⟨none, false, false, false, 0, 0⟩ :=
    fun x hx => List.eq_of_mem_replicate hx
  refine ⟨rfl, List.pairwise_replicate.mpr (.inr (.inl rfl)), ?_, ?_, ?_, by simp⟩
  · intro x hm _
    rw [hx x hm]
    exact ⟨rfl, rfl⟩
  · intro x hm b hb
    rw [hx x hm] at hb
    cases hb
  · intro x hm b hb
    rw [hx x hm] at hb
    cases hb

section

variable (h : Counts c refs dirty)
include h

lemma Counts.change (hf : ∀ x, (f x).blockno = x.blockno)
    (hself : ∀ x, x.refcnt = refs b → x.dirty = decide (b ∈ dirty) →
      (f x).refcnt = refs' b ∧ (f x).dirty = decide (b ∈ dirty'))
    (hother : ∀ a, a ≠ b → refs' a = refs a ∧ (a ∈ dirty' ↔ a ∈ dirty))
    (hb : 0 < refs' b ∨ b ∈ dirty' → (entry c b).isSome) : Counts (modify c b f) refs' dirty' := by
  have hbuf : ∀ y ∈ modify c b f, ∀ a, y.blockno = some a →
      y.refcnt = refs' a ∧ y.dirty = decide (a ∈ dirty') := by
    intro y hy a ha
    obtain ⟨x, hx, rfl⟩ := mem_modify hy
    by_cases hxb : x.blockno = some b
    · rw [if_pos hxb] at ha ⊢
      obtain rfl : b = a := by
        rw [hf, hxb] at ha
        exact Option.some.inj ha
      exact hself x (h.refcnt_eq x hx b hxb) (h.dirty_eq x hx b hxb)
    · rw [if_neg hxb] at ha ⊢
      have hab : a ≠ b := by
        rintro rfl
        exact hxb ha
      obtain ⟨h1, h2⟩ := hother a hab
      rw [h1, h.refcnt_eq x hx a ha, h.dirty_eq x hx a ha]
      simp only [h2, and_self]
  refine ⟨length_modify.trans h.length_eq, distinct_modify hf h.distinct, ?_,
    fun y hy a ha => (hbuf y hy a ha).1, fun y hy a ha => (hbuf y hy a ha).2, ?_⟩
  · intro y hy hn
    obtain ⟨x, hx, rfl⟩ := mem_modify hy
    by_cases hxb : x.blockno = some b
    · rw [if_pos hxb, hf, hxb] at hn
      cases hn
    · rw [if_neg hxb] at hn ⊢
      exact h.blank x hx hn
  · intro a ha
    rw [entry_modify_isSome hf]
    by_cases hab : a = b
    · subst hab
      exact hb ha
    · obtain ⟨h1, h2⟩ := hother a hab
      rw [h1, h2] at ha
      exact h.cached a ha

lemma Counts.frame (hf : ∀ x, (f x).blockno = x.blockno)
    (hr : ∀ x, (f x).refcnt = x.refcnt) (hd : ∀ x, (f x).dirty = x.dirty) :
    Counts (modify c b f) refs dirty :=
  h.change hf (fun x h1 h2 => ⟨(hr x).trans h1, (hd x).trans h2⟩) (fun _ _ => ⟨rfl, Iff.rfl⟩)
    (h.cached b)

lemma Counts.ref (hb : (entry c b).isSome) :
    Counts (modify c b Buf.ref) (update refs b (refs b + 1)) dirty := by
  refine h.change (fun _ => rfl) (fun x h1 h2 => ⟨?_, h2⟩) (fun a ha => ⟨?_, Iff.rfl⟩) fun _ => hb
  · rw [update_self, ← h1]
    rfl
  · exact update_of_ne ha _ _

lemma Counts.pin (hb : 0 < refs b) : Counts (modify c b Buf.pin) refs (insert b dirty) := by
  refine h.change (fun _ => rfl) (fun x h1 _ => ⟨h1, ?_⟩) (fun a ha => ⟨rfl, ?_⟩)
    fun _ => h.cached b (.inl hb)
  · rw [decide_eq_true (mem_insert_self b dirty)]
    rfl
  · rw [mem_insert]
    exact or_iff_right ha

lemma Counts.written : Counts (modify c b Buf.written) refs (dirty.erase b) := by
  refine h.change (fun _ => rfl) (fun x h1 _ => ⟨h1, ?_⟩) (fun a ha => ⟨rfl, ?_⟩) ?_
  · rw [decide_eq_false (notMem_erase b dirty)]
    rfl
  · rw [mem_erase]
    exact and_iff_right ha
  · rintro (hb | hb)
    · exact h.cached b (.inl hb)
    · exact absurd hb (notMem_erase b dirty)

lemma Counts.reorder (hlen : c'.length = c.length) (hdist : Distinct c') (hmem : ∀ x ∈ c', x ∈ c)
    (hcached : ∀ b, (entry c b).isSome → (entry c' b).isSome) : Counts c' refs dirty :=
  ⟨hlen.trans h.length_eq, hdist, fun x hx => h.blank x (hmem x hx),
    fun x hx => h.refcnt_eq x (hmem x hx), fun x hx => h.dirty_eq x (hmem x hx),
    fun b hb => hcached b (h.cached b hb)⟩

lemma Counts.release (hb : 0 < refs b) : Counts (release c b) (update refs b (refs b - 1)) dirty := by
  have hunref : Counts (modify c b Buf.unref) (update refs b (refs b - 1)) dirty := by
    refine h.change (fun _ => rfl) (fun x h1 h2 => ⟨?_, h2⟩) (fun a ha => ⟨?_, Iff.rfl⟩)
      fun _ => h.cached b (.inl hb)
    · rw [update_self, ← h1]
      rfl
    · exact update_of_ne ha _ _
  refine hunref.reorder ?_ (distinct_release h.distinct) (fun x hx => mem_release hx) ?_
  · rw [length_release, length_modify]
  · intro a ha
    have hsome : (entry (modify c b Buf.unref) a).isSome = (entry c a).isSome :=
      entry_modify_isSome fun _ => rfl
    rwa [entry_release_isSome, ← hsome]

/-! `bget` -/

lemma Counts.in_use (hx : x ∈ c) (hn : ¬ x.unused) :
    ∃ b, x.blockno = some b ∧ (0 < refs b ∨ b ∈ dirty) := by
  cases hb : x.blockno with
  | none => exact absurd (h.blank x hx hb) hn
  | some b =>
    refine ⟨b, rfl, ?_⟩
    by_contra hc
    rw [not_or] at hc
    refine hn ⟨?_, ?_⟩
    · rw [h.refcnt_eq x hx b hb]
      omega
    · rw [h.dirty_eq x hx b hb, decide_eq_false hc.2]

lemma Counts.unused (hx : x ∈ c) (hu : x.unused) (hb : x.blockno = some b) : refs b = 0 ∧ b ∉ dirty := by
  refine ⟨(h.refcnt_eq x hx b hb).symm.trans hu.1, ?_⟩
  have := (h.dirty_eq x hx b hb).symm.trans hu.2
  exact of_decide_eq_false this

lemma Counts.recycled (hn : entry c b = none)
    (hr : Recycled c b x c') : Counts c' (update refs b 1) dirty := by
  have hself : ∀ y ∈ c', y.blockno = some b → y = x.reuse b := by
    intro y hy hyb
    have := entry_of_mem hr.distinct hy hyb
    rw [hr.self] at this
    exact (Option.some.inj this).symm
  have hold : ∀ y ∈ c', y.blockno ≠ some b → y ∈ c := by
    intro y hy hyb
    rcases hr.mem_of y hy with rfl | hy
    · exact absurd rfl hyb
    · exact hy
  have hdirty : b ∉ dirty := by
    intro hd
    have := h.cached b (.inr hd)
    rw [hn] at this
    cases this
  refine ⟨hr.length_eq.trans h.length_eq, hr.distinct, ?_, ?_, ?_, ?_⟩
  · intro y hy hyn
    exact h.blank y (hold y hy (by simp [hyn])) hyn
  · intro y hy a ha
    by_cases hab : a = b
    · subst hab
      rw [hself y hy ha, update_self]
      rfl
    · rw [update_of_ne hab]
      exact h.refcnt_eq y (hold y hy (by simpa [ha] using hab)) a ha
  · intro y hy a ha
    by_cases hab : a = b
    · subst hab
      rw [hself y hy ha, decide_eq_false hdirty]
      rfl
    · exact h.dirty_eq y (hold y hy (by simpa [ha] using hab)) a ha
  · intro a ha
    by_cases hab : a = b
    · subst hab
      rw [hr.self]
      rfl
    · rw [update_of_ne hab] at ha
      have hxa : x.blockno ≠ some a := by
        intro hx
        obtain ⟨h1, h2⟩ := h.unused hr.mem hr.unused hx
        rcases ha with ha | ha
        · omega
        · exact h2 ha
      rw [hr.other a hab, if_neg hxa]
      exact h.cached a ha

end

/-- A block that is pinned, or fewer blocks in use than there are buffers. -/
def Room (refs : ℕ → ℕ) (dirty : Finset ℕ) (b : ℕ) : Prop :=
  b ∈ dirty ∨ ∃ S : Finset ℕ, (∀ a, 0 < refs a ∨ a ∈ dirty → a ∈ S) ∧ S.card < NBUF

lemma Counts.bget_ne_none (h : Counts c refs dirty) (hroom : Room refs dirty b) : bget c b ≠ none := by
  intro hnone
  obtain ⟨hn, hall⟩ := bget_eq_none.mp hnone
  rcases hroom with hd | ⟨S, hS, hcard⟩
  · have := h.cached b (.inr hd)
    rw [hn] at this
    cases this
  · have hlt : S.card < c.length := by rwa [h.length_eq]
    obtain ⟨x, hx, hu⟩ := exists_unused h.distinct (fun x hx hn => by
      obtain ⟨b, hb, hin⟩ := h.in_use hx hn
      exact ⟨b, hS b hin, hb⟩) hlt
    exact hall x hx hu

lemma Counts.bget (h : Counts c refs dirty) (hget : bget c b = some c') :
    Counts c' (update refs b (refs b + 1)) dirty := by
  cases he : entry c b with
  | some x =>
    rw [bget_hit he] at hget
    cases hget
    exact h.ref (by rw [he]; rfl)
  | none =>
    rw [bget_miss he] at hget
    obtain ⟨x, hr⟩ := recycle_spec h.distinct he hget
    have hzero : refs b = 0 := by
      by_contra hne
      have := h.cached b (.inl (Nat.pos_of_ne_zero hne))
      rw [he] at this
      cases this
    rw [hzero]
    exact h.recycled he hr

end LearnXv6.Log
