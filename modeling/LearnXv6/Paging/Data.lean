import LearnXv6.Paging.Users

/-! Where the data of the blocks are, in the cache and on the disk. -/
namespace LearnXv6.Paging
open Function Store

variable {τ δ : Type} {s s' : State τ δ} {a : Action τ δ} {t u : τ} {i j : Index} {k : Key}
  {p q : Phase} {es : List (Event δ)} {A : Set Index} {mem : Key → δ} {b : Buf δ}

/-- Where the data of the blocks are. A buffer has what its block should have, unless its holder has
changed it; and so has the disk, unless the buffer is dirty. -/
structure Data (A : Set Index) (mem : Key → δ) (s : State τ δ) : Prop where
  fresh : ∀ i, i ∉ A → (s.buf i).valid = false
  flags : ∀ i, (s.buf i).dirty = true → (s.buf i).valid = true
  holding : ∀ t i stored, s.phase t = .holding i stored → (s.buf i).valid = true
  queue : s.idequeue.Nodup
  request : ∀ i ∈ s.idequeue, ∃ t, s.phase t = .writing i ∧ (s.buf i).dirty = true ∨
    ∃ k, s.phase t = .reading i k ∧ (s.buf i).valid = false
  head : ∀ i rest, s.idequeue = i :: rest → (s.buf i).dirty = true →
    s.disk (sector (s.buf i).block) = (s.buf i).data
  data : ∀ i ∈ A, (∀ t, s.phase t ≠ .holding i false) → (s.buf i).valid = true →
    (s.buf i).data = mem (s.buf i).block
  clean : ∀ i ∈ A, (s.buf i).dirty = false → s.disk (sector (s.buf i).block) = mem (s.buf i).block
  absent : ∀ k, k.1 < 2 → (∀ i ∈ A, (s.buf i).block ≠ k) → s.disk (sector k) = mem k

lemma sector_ne {k k' : Key} (hk : k.1 < 2) (hk' : k'.1 < 2) (h : k ≠ k') : sector k ≠ sector k' := by
  intro he
  simp only [sector, Prod.mk.injEq] at he
  refine h (Prod.ext ?_ he.2)
  omega

/-- What the data of a buffer depend on. -/
structure Buf.Alike (b b' : Buf δ) : Prop where
  valid : b'.valid = b.valid
  dirty : b'.dirty = b.dirty
  block : b'.block = b.block
  data : b'.data = b.data

lemma alike_set (h : (s.buf i).Alike b) (j : Index) : (s.buf j).Alike ((s.set i b).buf j) := by
  by_cases hj : j = i
  · subst hj
    simpa [State.set] using h
  · simp only [State.set, update_of_ne hj]
    exact ⟨rfl, rfl, rfl, rfl⟩

namespace Data

variable (h : Data A mem s)
include h

lemma congr (hbuf : ∀ j, (s.buf j).Alike (s'.buf j)) (hphase : s'.phase = s.phase)
    (hqueue : s'.idequeue = s.idequeue) (hdisk : s'.disk = s.disk) : Data A mem s' := by
  refine ⟨?_, ?_, ?_, ?_, ?_, ?_, ?_, ?_, ?_⟩
  · intro i hi
    rw [(hbuf i).valid]
    exact h.fresh i hi
  · intro i hi
    rw [(hbuf i).dirty] at hi
    rw [(hbuf i).valid]
    exact h.flags i hi
  · intro t i stored ht
    rw [hphase] at ht
    rw [(hbuf i).valid]
    exact h.holding t i stored ht
  · rw [hqueue]
    exact h.queue
  · intro i hi
    rw [hqueue] at hi
    rw [hphase, (hbuf i).valid, (hbuf i).dirty]
    exact h.request i hi
  · intro i rest hq hi
    rw [hqueue] at hq
    rw [(hbuf i).dirty] at hi
    rw [hdisk, (hbuf i).block, (hbuf i).data]
    exact h.head i rest hq hi
  · intro i hi hmod hv
    rw [hphase] at hmod
    rw [(hbuf i).valid] at hv
    rw [(hbuf i).data, (hbuf i).block]
    exact h.data i hi hmod hv
  · intro i hi hd
    rw [(hbuf i).dirty] at hd
    rw [hdisk, (hbuf i).block]
    exact h.clean i hi hd
  · intro k hk hno
    rw [hdisk]
    refine h.absent k hk fun i hi => ?_
    rw [← (hbuf i).block]
    exact hno i hi

lemma touch (i : Index) (b : Buf δ) (hb : (s.buf i).Alike b) : Data A mem (s.set i b) :=
  h.congr (alike_set hb) rfl rfl rfl

lemma replace {A' : Set Index} (hbuf : s'.buf = update s.buf i b)
    (hphase : s'.phase = s.phase) (hdisk : s'.disk = s.disk) (hA : ∀ j, j ≠ i → (j ∈ A' ↔ j ∈ A))
    (hi : i ∈ A') (hqueue : s'.idequeue.Sublist s.idequeue) (hnot : i ∉ s'.idequeue)
    (hhead : ∀ j l, s'.idequeue = j :: l → (s.buf j).dirty = true →
      s.disk (sector (s.buf j).block) = (s.buf j).data) (hflags : b.dirty = true → b.valid = true)
    (hhold : ∀ t stored, s.phase t = .holding i stored → b.valid = true)
    (hdata : (∀ t, s.phase t ≠ .holding i false) → b.valid = true → b.data = mem b.block)
    (hclean : b.dirty = false → s.disk (sector b.block) = mem b.block)
    (hold : i ∈ A → b.block ≠ (s.buf i).block →
      s.disk (sector (s.buf i).block) = mem (s.buf i).block) : Data A' mem s' := by
  have hself : s'.buf i = b := by simp [hbuf]
  have hother : ∀ j, j ≠ i → s'.buf j = s.buf j := fun j hj => by simp [hbuf, hj]
  refine ⟨?_, ?_, ?_, h.queue.sublist hqueue, ?_, ?_, ?_, ?_, ?_⟩
  · intro j hj
    have hji : j ≠ i := fun he => hj (he ▸ hi)
    rw [hother j hji]
    exact h.fresh j fun hin => hj ((hA j hji).mpr hin)
  · intro j hj
    by_cases hji : j = i
    · subst hji
      rw [hself] at hj ⊢
      exact hflags hj
    · rw [hother j hji] at hj ⊢
      exact h.flags j hj
  · intro t j stored hp
    rw [hphase] at hp
    by_cases hji : j = i
    · subst hji
      rw [hself]
      exact hhold t stored hp
    · rw [hother j hji]
      exact h.holding t j stored hp
  · intro j hj
    rw [hphase, hother j fun he => hnot (he ▸ hj)]
    exact h.request j (hqueue.subset hj)
  · intro j l hl hj
    have hji : j ≠ i := by
      rintro rfl
      exact hnot (by simp [hl])
    rw [hother j hji] at hj ⊢
    rw [hdisk]
    exact hhead j l hl hj
  · intro j hj hmod hv
    rw [hphase] at hmod
    by_cases hji : j = i
    · subst hji
      rw [hself] at hv ⊢
      exact hdata hmod hv
    · rw [hother j hji] at hv ⊢
      exact h.data j ((hA j hji).mp hj) hmod hv
  · intro j hj hd
    rw [hdisk]
    by_cases hji : j = i
    · subst hji
      rw [hself] at hd ⊢
      exact hclean hd
    · rw [hother j hji] at hd ⊢
      exact h.clean j ((hA j hji).mp hj) hd
  · intro k hk hno
    rw [hdisk]
    by_cases hk' : i ∈ A ∧ (s.buf i).block = k
    · obtain ⟨hin, rfl⟩ := hk'
      exact hold hin fun he => hno i hi (by rw [hself, he])
    · refine h.absent k hk fun j hj he => ?_
      by_cases hji : j = i
      · subst hji
        exact hk' ⟨hj, he⟩
      · exact hno j ((hA j hji).mpr hj) (by rw [hother j hji, he])

/-- One phase changes. It waits for no request in the queue, and if it leaves a buffer that it has
changed, the change has been stored. -/
lemma goto [DecidableEq τ] (ht : s.phase t = q)
    (hhold : ∀ i stored, p = .holding i stored → (s.buf i).valid = true)
    (hreq : ∀ i ∈ s.idequeue, q ≠ .writing i ∧ ∀ k, q ≠ .reading i k)
    (hmod : ∀ i ∈ A, q = .holding i false → p ≠ .holding i false → (s.buf i).valid = true →
      (s.buf i).data = mem (s.buf i).block) : Data A mem (s.goto t p) := by
  subst ht
  refine ⟨h.fresh, h.flags, ?_, h.queue, ?_, h.head, ?_, h.clean, h.absent⟩
  · intro v i stored hv
    by_cases hvt : v = t
    · subst hvt
      simp only [State.goto, update_self] at hv
      exact hhold i stored hv
    · simp only [State.goto, update_of_ne hvt] at hv
      exact h.holding v i stored hv
  · intro i hi
    obtain ⟨v, hv⟩ := h.request i hi
    have hvt : v ≠ t := by
      rintro rfl
      rcases hv with ⟨hw, -⟩ | ⟨k, hr, -⟩
      · exact (hreq i hi).1 hw
      · exact (hreq i hi).2 k hr
    refine ⟨v, ?_⟩
    simp only [State.goto, update_of_ne hvt]
    exact hv
  · intro i hi hno hv
    have hp : p ≠ .holding i false := by
      have := hno t
      simpa [State.goto] using this
    by_cases ht : s.phase t = .holding i false
    · exact hmod i hi ht hp hv
    · refine h.data i hi (fun v => ?_) hv
      by_cases hvt : v = t
      · subst hvt
        exact ht
      · have := hno v
        simpa [State.goto, update_of_ne hvt] using this

lemma insert (ht : Table A s) (hno : i ∉ A → ∀ j ∈ A, (s.buf j).block ≠ (s.buf i).block) :
    Data (insert i A) mem s := by
  refine ⟨?_, h.flags, h.holding, h.queue, h.request, h.head, ?_, ?_, ?_⟩
  · exact fun j hj => h.fresh j fun hin => hj (Set.mem_insert_of_mem i hin)
  · intro j hj hmod hv
    by_cases hA : j ∈ A
    · exact h.data j hA hmod hv
    · rw [h.fresh j hA] at hv
      cases hv
  · intro j hj hd
    by_cases hA : j ∈ A
    · exact h.clean j hA hd
    · obtain rfl := hj.resolve_right hA
      exact h.absent _ (ht.dev j) (hno hA)
  · exact fun k hk hno => h.absent k hk fun j hj => hno j (Set.mem_insert_of_mem i hj)

lemma recycle (hk : k.1 < 2) (hno : ∀ j, (s.buf j).block ≠ k)
    (hi : ∀ t, (s.phase t).index ≠ some i) (hd : (s.buf i).dirty = false) (hb : b.block = k)
    (hbv : b.valid = false) (hbd : b.dirty = false) : Data (Insert.insert i A) mem (s.set i b) := by
  have hqueue : i ∉ s.idequeue := by
    intro hin
    obtain ⟨t, ⟨hw, -⟩ | ⟨k, hr, -⟩⟩ := h.request i hin
    · exact hi t (by rw [hw]; rfl)
    · exact hi t (by rw [hr]; rfl)
  refine h.replace rfl rfl rfl (fun j hj => ?_) (Set.mem_insert i A) (.refl _) hqueue h.head ?_ ?_ ?_ ?_ ?_
  · exact Set.mem_insert_iff.trans (or_iff_right hj)
  · simp [hbd]
  · intro t stored ht
    exact absurd (by rw [ht]; rfl) (hi t)
  · simp [hbv]
  · intro _
    rw [hb]
    exact h.absent k hk fun x _ => hno x
  · -- the block that the buffer had is on the disk, since the buffer was not dirty
    exact fun hA _ => h.clean i hA hd

lemma set (hA : i ∈ A) (hq : i ∉ s.idequeue) (hb : b.block = (s.buf i).block) (hbv : b.valid = true)
    (hclean : b.dirty = false → s.disk (sector (s.buf i).block) = mem (s.buf i).block)
    (hdata : (∀ t, s.phase t ≠ .holding i false) → b.data = mem (s.buf i).block) :
    Data A mem (s.set i b) := by
  refine h.replace rfl rfl rfl (fun _ _ => .rfl) hA (.refl _) hq h.head (fun _ => hbv)
    (fun _ _ _ => hbv) ?_ ?_ fun _ hne => absurd hb hne
  · rw [hb]
    exact fun hno _ => hdata hno
  · rw [hb]
    exact hclean

lemma store (ht : Table A s) (hA : i ∈ A) (hd : (s.buf i).dirty = true) :
    Data A (update mem (s.buf i).block (s.buf i).data) s := by
  have hother : ∀ j ∈ A, j ≠ i → (s.buf j).block ≠ (s.buf i).block :=
    fun j hj hji he => hji (ht.unique j hj i hA he)
  refine ⟨h.fresh, h.flags, h.holding, h.queue, h.request, h.head, ?_, ?_, ?_⟩
  · intro j hj hmod hv
    by_cases hji : j = i
    · subst hji
      rw [update_self]
    · rw [update_of_ne (hother j hj hji)]
      exact h.data j hj hmod hv
  · intro j hj hjd
    by_cases hji : j = i
    · subst hji
      rw [hd] at hjd
      cases hjd
    · rw [update_of_ne (hother j hj hji)]
      exact h.clean j hj hjd
  · intro k hk hno
    rw [update_of_ne (hno i hA).symm]
    exact h.absent k hk hno

lemma start (ht : Table A s) (hA : j ∈ A) : Data A mem { s with disk := started s j } := by
  unfold started
  by_cases hd : (s.buf j).dirty = true
  · rw [if_pos hd]
    have hother : ∀ i, i ∈ A → i ≠ j → sector (s.buf i).block ≠ sector (s.buf j).block :=
      fun i hi hij => sector_ne (ht.dev i) (ht.dev j) fun he => hij (ht.unique i hi j hA he)
    have hdirty : ∀ i, (s.buf i).dirty = true → i ∈ A := by
      intro i hi
      by_contra hnot
      have := h.flags i hi
      rw [h.fresh i hnot] at this
      cases this
    refine ⟨h.fresh, h.flags, h.holding, h.queue, h.request, ?_, h.data, ?_, ?_⟩
    · intro i rest hq hi
      by_cases hij : i = j
      · subst hij
        simp
      · change update s.disk _ _ _ = _
        rw [update_of_ne (hother i (hdirty i hi) hij)]
        exact h.head i rest hq hi
    · intro i hi hclean
      by_cases hij : i = j
      · subst hij
        rw [show (s.buf i).dirty = false from hclean] at hd
        cases hd
      · change update s.disk _ _ _ = _
        rw [update_of_ne (hother i hi hij)]
        exact h.clean i hi hclean
    · intro k hk hno
      change update s.disk _ _ _ = _
      rw [update_of_ne (sector_ne hk (ht.dev j) (hno j hA).symm)]
      exact h.absent k hk hno
  · rw [if_neg hd]
    exact h

lemma append (hq : i ∉ s.idequeue) (hreq : ∃ t, s.phase t = .writing i ∧ (s.buf i).dirty = true ∨
      ∃ k, s.phase t = .reading i k ∧ (s.buf i).valid = false)
    (hhead : s.idequeue = [] → (s.buf i).dirty = true → s.disk (sector (s.buf i).block) = (s.buf i).data) :
    Data A mem { s with idequeue := s.idequeue ++ [i] } := by
  refine ⟨h.fresh, h.flags, h.holding, ?_, ?_, ?_, h.data, h.clean, h.absent⟩
  · exact List.nodup_append.mpr ⟨h.queue, by simp, by
      intro x hx y hy
      rw [List.mem_singleton.mp hy]
      rintro rfl
      exact hq hx⟩
  · intro j hj
    rcases List.mem_append.mp hj with hj | hj
    · exact h.request j hj
    · rw [List.mem_singleton.mp hj]
      exact hreq
  · intro j rest heq hj
    change s.idequeue ++ [i] = j :: rest at heq
    cases hs : s.idequeue with
    | nil =>
      rw [hs] at heq
      cases heq
      exact hhead hs hj
    | cons x l =>
      rw [hs] at heq
      cases heq
      exact h.head _ l hs hj

lemma pop {rest : List Index} (hA : i ∈ A) (hq : s.idequeue = i :: rest)
    (hb : b.block = (s.buf i).block) (hbv : b.valid = true) (hdata : b.data = mem (s.buf i).block)
    (hdisk : s.disk (sector (s.buf i).block) = mem (s.buf i).block)
    (hhead : ∀ j l, rest = j :: l → (s.buf j).dirty = true →
      s.disk (sector (s.buf j).block) = (s.buf j).data) : Data A mem { s.set i b with idequeue := rest } := by
  have hnodup := h.queue
  rw [hq, List.nodup_cons] at hnodup
  refine h.replace rfl rfl rfl (fun _ _ => .rfl) hA ?_ hnodup.1 hhead (fun _ => hbv)
    (fun _ _ _ => hbv) (fun _ _ => ?_) (fun _ => ?_) fun _ hne => absurd hb hne
  · rw [hq]
    exact List.sublist_cons_self i rest
  · rw [hb, hdata]
  · rw [hb, hdisk]

end Data

end LearnXv6.Paging
