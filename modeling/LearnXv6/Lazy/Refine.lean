import LearnXv6.Lazy.Growproc

/-! Lazy and eager allocation are alike as long as a process gives back nothing that it has used and stays
inside of its memory. -/
namespace LearnXv6.Lazy
open Function Store Option

variable {g : Pgdir} {s s' : State} {m : Memory} {e : Entry} {v newsz va : ℕ} {n : ℤ} {x : Access}
  {es : List (Seen × Seen)} {r : State × State}

/-! `sbrk` -/

lemma Entry.Has.resize (h : e.Has v m) (hv : v < pages newsz) : e.Has v (m.resize newsz) := by
  refine ⟨by simpa [Memory.resize, hv] using h.1, fun o ho => ?_⟩
  simp only [Memory.resize, mul_add_div ho, if_pos hv]
  exact h.2 o ho

lemma blank_resize (hv : pages newsz ≤ v) : blank.Has v (m.resize newsz) := by
  refine ⟨by simp [Memory.resize, blank, not_lt.mpr hv], fun o ho => ?_⟩
  simp only [Memory.resize, mul_add_div ho, if_neg (not_lt.mpr hv)]
  rfl

lemma Holds.resize (h : Holds s m) (halive : s'.killed = false) (hsz : s'.sz = newsz)
    (hsmall : newsz < KERNBASE) (hformed : s'.pgdir.Formed)
    (hkept : ∀ v < pages newsz, s'.pgdir.pte v = s.pgdir.pte v ∨
      s.pgdir.pte v = none ∧ s'.pgdir.pte v = some blank)
    (hgone : ∀ v < UPAGES, pages newsz ≤ v → s'.pgdir.pte v = none) : Holds s' (m.resize newsz) := by
  refine ⟨halive, hsz, hsmall, hformed, fun v hv hne => ?_, fun v hv e he => ?_, fun v hv hnone => ?_⟩
  · by_contra hge
    exact hne (hgone v hv (not_lt.mp hge))
  · have hlt : v < pages newsz := by
      by_contra hge
      rw [hgone v hv (not_lt.mp hge)] at he
      cases he
    rcases hkept v hlt with hsame | ⟨hold, hnew⟩
    · exact (h.present v hv e (hsame ▸ he)).resize hlt
    · rw [hnew] at he
      cases he
      exact (h.absent v hv hold).resize hlt
  · by_cases hlt : v < pages newsz
    · rcases hkept v hlt with hsame | ⟨_, hnew⟩
      · exact (h.absent v hv (hsame ▸ hnone)).resize hlt
      · rw [hnew] at hnone
        cases hnone
    · exact blank_resize (not_lt.mp hlt)

lemma toInt_eq {sz : ℕ} (h : sz < KERNBASE) : toInt sz = sz := by
  unfold toInt
  unfold KERNBASE at h
  exact wrap_of_lt (by omega) (by omega)

/-- What the eager kernel needs of a step. -/
def Eager.Meets (s : State) : Op → Prop
  | .sbrk n =>
    if 0 ≤ n then s.sz + n < KERNBASE ∧ 2 * (pages (add32 s.sz n) - pages s.sz) ≤ s.free else 0 < s.sz + n
  | .access va _ => va < s.sz ∧ (s.pgdir.pte (va / PGSIZE)).all (·.user) = true

/-- What the lazy kernel needs of a step. -/
def Meets (s : State) : Op → Prop
  | .sbrk n =>
    if 0 ≤ n then s.sz + n < KERNBASE
    else 0 < s.sz + n ∧ ∀ v < pages s.sz, pages (add32 s.sz n) ≤ v → (s.pgdir.pte v).isNone = true
  | .access va _ => va < s.sz ∧ (s.pgdir.pte (va / PGSIZE)).all (·.user) = true ∧ 2 ≤ s.free

lemma HoldsAll.sized (h : HoldsAll s m) : Sized s where
  small := h.sz ▸ h.small
  formed := h.formed
  mapped v hv := ⟨fun hne => h.sz ▸ h.inside v hv hne, fun hlt => h.full v (h.sz ▸ hlt)⟩

lemma HoldsAll.grow (h : HoldsAll s m) (hs : Grown n s s') : HoldsAll s' (m.resize (m.sz + n).toNat) := by
  have hnew : (m.sz + n).toNat = s'.sz := by
    have := hs.sz
    rw [← h.sz]
    omega
  have hup := pages_le_upages hs.small
  rw [hnew]
  refine ⟨h.resize (hs.killed.trans h.alive) rfl hs.small hs.formed (fun v hv => ?_) fun v hv hge => ?_,
    fun v hv => (hs.mapped v (hv.trans_le hup)).mpr hv⟩
  · by_cases hlt : v < pages s.sz
    · exact .inl (hs.kept v hlt hv)
    · exact .inr ⟨h.sized.absent (not_lt.mp hlt) (hv.trans_le hup), hs.fresh v (not_lt.mp hlt) hv⟩
  · by_contra hne
    have := (hs.mapped v hv).mp hne
    omega

lemma HoldsAll.growproc (h : HoldsAll s m) (hc : Eager.Meets s (.sbrk n)) :
    ∃ s', growproc n s = .ok (true, s') ∧ HoldsAll s' (m.resize (m.sz + n).toNat) := by
  dsimp only [Eager.Meets] at hc
  rcases lt_trichotomy n 0 with hn | rfl | hn
  · rw [if_neg (by omega)] at hc
    obtain ⟨s', hgrow, hs⟩ := h.sized.shrink hn hc
    exact ⟨s', hgrow, h.grow hs⟩
  · exact ⟨s, rfl, h.grow h.sized.stay⟩
  · rw [if_pos hn.le] at hc
    obtain ⟨done, s', hgrow, hs, hdone⟩ := h.sized.grow hn (by unfold KERNBASE at hc; omega)
    obtain rfl := hdone hc.1 hc.2
    exact ⟨s', hgrow, h.grow hs⟩

lemma Holds.sysSbrk (h : Holds s m) (hc : Meets s (.sbrk n)) :
    Holds { s with sz := add32 s.sz n } (m.resize (m.sz + n).toNat) := by
  have hlt := h.sz ▸ h.small
  have hinside : ∀ v < UPAGES, s.pgdir.pte v ≠ none → v < pages s.sz := fun v hv hne => h.sz ▸ h.inside v hv hne
  have hpos : 0 ≤ (s.sz : ℤ) + n ∧ (s.sz : ℤ) + n < KERNBASE := by
    dsimp only [Meets] at hc
    split at hc
    · omega
    · omega
  have hadd := add32_eq hpos.1 hpos.2
  rw [← h.sz, ← hadd]
  refine h.resize h.alive rfl (by omega) h.formed (fun _ _ => .inl rfl) fun v hv hge => ?_
  by_contra hne
  have hv' := hinside v hv hne
  dsimp only [Meets] at hc
  split at hc
  · have := pages_mono (show s.sz ≤ add32 s.sz n by omega)
    omega
  · have hnone := hc.2 v hv' hge
    rw [isNone_iff_eq_none] at hnone
    exact hne hnone

/-! Loads and stores. -/

lemma Entry.Has.store {u : ℕ} {b : UInt8} (h : e.Has u m) (hu : u ≠ va / PGSIZE) :
    e.Has u { m with byte := update m.byte va b } := by
  refine ⟨h.1, fun o ho => ?_⟩
  have hne : u * PGSIZE + o ≠ va := by
    rintro rfl
    exact hu (mul_add_div ho).symm
  simp only [update_of_ne hne]
  exact h.2 o ho

lemma Entry.Has.store_self {b : UInt8} (h : e.Has (va / PGSIZE) m) :
    Entry.Has { e with data := update e.data (va % PGSIZE) b } (va / PGSIZE)
      { m with byte := update m.byte va b } := by
  refine ⟨h.1, fun o ho => ?_⟩
  by_cases hmod : o = va % PGSIZE
  · subst hmod
    simp only [update_self, div_mod_eq]
  · have hne : va / PGSIZE * PGSIZE + o ≠ va := by
      have hdm : va / PGSIZE * PGSIZE + va % PGSIZE = va := div_mod_eq
      omega
    simp only [update_of_ne hmod, update_of_ne hne]
    exact h.2 o ho

lemma Holds.perform (h : Holds s m) (hv : va / PGSIZE < UPAGES) (he : s.pgdir.pte (va / PGSIZE) = some e) :
    (x.perform va e s).2 = (m.access va x).2 ∧ Holds (x.perform va e s).1 (m.access va x).1 ∧
      ∀ u, s.pgdir.pte u ≠ none → (x.perform va e s).1.pgdir.pte u ≠ none := by
  have hhas := h.present _ hv e he
  cases x with
  | load =>
    refine ⟨?_, h, fun _ hu => hu⟩
    have hbyte := hhas.2 (va % PGSIZE) mod_lt_pgsize
    rw [div_mod_eq] at hbyte
    simp only [Access.perform, Memory.access, hbyte]
  | store b =>
    refine ⟨rfl, ⟨h.alive, h.sz, h.small, h.formed.update fun _ => h.formed _ hv (by simp [he]),
      fun u hu hne => ?_, fun u hu e' he' => ?_, fun u hu hnone => ?_⟩, fun u hu => ?_⟩
    · by_cases huv : u = va / PGSIZE
      · subst huv
        exact h.inside _ hu (by simp [he])
      · simp only [Access.perform, update_of_ne huv] at hne
        exact h.inside u hu hne
    · by_cases huv : u = va / PGSIZE
      · subst huv
        simp only [Access.perform, update_self, some.injEq] at he'
        subst he'
        exact hhas.store_self
      · simp only [Access.perform, update_of_ne huv] at he'
        exact (h.present u hu e' he').store huv
    · by_cases huv : u = va / PGSIZE
      · subst huv
        simp [Access.perform] at hnone
      · simp only [Access.perform, update_of_ne huv] at hnone
        exact (h.absent u hu hnone).store huv
    · by_cases huv : u = va / PGSIZE
      · subst huv
        simp [Access.perform]
      · simpa only [Access.perform, update_of_ne huv] using hu

lemma Holds.map {free : ℕ} (h : Holds s m) (hv : v < pages m.sz) (hnone : s.pgdir.pte v = none) :
    Holds { s with pgdir := s.pgdir.map v blank, free := free } m := by
  refine ⟨h.alive, h.sz, h.small, h.formed.map, fun u hu hne => ?_, fun u hu e he => ?_, fun u hu hu' => ?_⟩
  · by_cases huv : u = v
    · rw [huv]
      exact hv
    · simp only [Pgdir.map, update_of_ne huv] at hne
      exact h.inside u hu hne
  · by_cases huv : u = v
    · subst huv
      simp only [Pgdir.map, update_self, some.injEq] at he
      subst he
      exact h.absent u hu hnone
    · simp only [Pgdir.map, update_of_ne huv] at he
      exact h.present u hu e he
  · by_cases huv : u = v
    · subst huv
      simp [Pgdir.map] at hu'
    · simp only [Pgdir.map, update_of_ne huv] at hu'
      exact h.absent u hu hu'

lemma find_eq (he : g.pte (va / PGSIZE) = some e) (hu : e.user = true) : g.find va = some e := by
  simp [Pgdir.find, he, Option.filter, hu]

/-! The two kernels. -/

lemma eager_implements : Implements Eager.step Memory.step Eager.Meets HoldsAll := by
  intro s m op h hc
  cases op with
  | sbrk n =>
    obtain ⟨s', hgrow, hs'⟩ := h.growproc hc
    refine ⟨s', ?_, hs'⟩
    simp [Eager.step, h.alive, Eager.sysSbrk, hgrow, Memory.step, h.sz, toInt_eq h.small]
  | access va x =>
    obtain ⟨hlt, huser⟩ := hc
    have hv := div_lt_pages (h.sz ▸ hlt)
    obtain ⟨e, he⟩ := ne_none_iff_exists'.mp (h.full _ hv)
    rw [he, all_some] at huser
    obtain ⟨hseen, hholds, hmapped⟩ := h.perform (x := x) (hv.trans_le (pages_le_upages h.small)) he
    have hsz : (m.access va x).1.sz = m.sz := by cases x <;> rfl
    refine ⟨(x.perform va e s).1, ?_, hholds, fun u hu => hmapped u (h.full u (hsz ▸ hu))⟩
    rw [Memory.step, ← hseen]
    simp [Eager.step, h.alive, Eager.access, find_eq he huser]

lemma lazy_implements : Implements step Memory.step Meets Holds := by
  intro s m op h hc
  cases op with
  | sbrk n =>
    refine ⟨_, ?_, h.sysSbrk hc⟩
    simp [step, h.alive, Lazy.sysSbrk, Memory.step, h.sz, toInt_eq h.small]
  | access va x =>
    obtain ⟨hlt, huser, hfree⟩ := hc
    have hv := div_lt_pages (h.sz ▸ hlt)
    have hup := hv.trans_le (pages_le_upages h.small)
    cases he : s.pgdir.pte (va / PGSIZE) with
    | some e =>
      rw [he, all_some] at huser
      obtain ⟨hseen, hholds, _⟩ := h.perform (x := x) hup he
      refine ⟨(x.perform va e s).1, ?_, hholds⟩
      rw [Memory.step, ← hseen]
      simp [step, h.alive, access, find_eq he huser]
    | none =>
      -- the page fault maps the page, and the access is tried again
      obtain ⟨free, hfree⟩ : ∃ f, s.free = f + 1 := Nat.exists_eq_succ_of_ne_zero (by omega)
      obtain ⟨free', _, hmap⟩ := mappages_ok (e := blank) (show 0 < free by omega) he
      have hmapped : Holds { s with pgdir := s.pgdir.map (va / PGSIZE) blank, free := free' } m :=
        h.map hv he
      have hpte : (s.pgdir.map (va / PGSIZE) blank).pte (va / PGSIZE) = some blank := update_self ..
      obtain ⟨hseen, hholds, _⟩ := hmapped.perform (x := x) hup hpte
      refine ⟨_, ?_, hholds⟩
      have hnone : s.pgdir.find va = none := by simp [Pgdir.find, he]
      have htrap : trap va s = .ok { s with pgdir := s.pgdir.map (va / PGSIZE) blank, free := free' } := by
        simp [trap, hfree, hmap]
      rw [Memory.step, ← hseen]
      simp [step, h.alive, access, hnone, htrap, find_eq hpte rfl]

/-- A process after `exec`: the pages of its memory are mapped, and no others below KERNBASE. -/
structure Started (s : State) : Prop where
  alive : s.killed = false
  small : s.sz < KERNBASE
  formed : s.pgdir.Formed
  mapped : ∀ v < UPAGES, s.pgdir.pte v ≠ none ↔ v < pages s.sz

/-- The memory that the page tables have. -/
def State.memory (s : State) : Memory where
  sz := s.sz
  guard v := (s.pgdir.pte v).any (!·.user)
  byte a := ((s.pgdir.pte (a / PGSIZE)).map (·.data (a % PGSIZE))).getD 0

lemma Started.holds (h : Started s) : HoldsAll s s.memory := by
  have hmod : ∀ o < PGSIZE, ∀ v, (v * PGSIZE + o) % PGSIZE = o := by
    intro o ho v
    unfold PGSIZE at *
    omega
  refine ⟨⟨h.alive, rfl, h.small, h.formed, fun v hv hne => (h.mapped v hv).mp hne, fun v hv e he => ?_,
    fun v hv hnone => ?_⟩, fun v hv => (h.mapped v (hv.trans_le (pages_le_upages h.small))).mpr hv⟩
  · refine ⟨by simp [State.memory, he], fun o ho => ?_⟩
    simp [State.memory, mul_add_div ho, hmod o ho, he]
  · refine ⟨by simp [State.memory, hnone, blank], fun o ho => ?_⟩
    simp [State.memory, mul_add_div ho, hnone, blank]

/-- The rest of the last page is the process's own, and zero. -/
def Clean (s : State) : Prop :=
  s.sz % PGSIZE ≠ 0 → (s.pgdir.pte (s.sz / PGSIZE)).all (fun e => e.user &&
    (List.range PGSIZE).all fun o => decide (o < s.sz % PGSIZE) || e.data o == 0) = true

lemma HoldsAll.clean (h : HoldsAll s m) (hclean : Clean s) (hlo : s.sz ≤ va) (hva : va / PGSIZE < pages s.sz) :
    m.guard (va / PGSIZE) = false ∧ m.byte va = 0 := by
  have hdiv : va / PGSIZE = s.sz / PGSIZE ∧ s.sz % PGSIZE ≠ 0 ∧ ¬ va % PGSIZE < s.sz % PGSIZE := by
    unfold pages PGSIZE at *
    omega
  have hv := h.sz ▸ hva
  obtain ⟨e, he⟩ := ne_none_iff_exists'.mp (h.full _ hv)
  have hall := hclean hdiv.2.1
  rw [← hdiv.1, he, all_some, Bool.and_eq_true, List.all_eq_true] at hall
  obtain ⟨huser, hbyte⟩ := h.present _ (hv.trans_le (pages_le_upages h.small)) e he
  have hzero := hall.2 (va % PGSIZE) (List.mem_range.mpr mod_lt_pgsize)
  rw [Bool.or_eq_true, decide_eq_true_eq, beq_iff_eq] at hzero
  have hbyte := hbyte (va % PGSIZE) mod_lt_pgsize
  rw [div_mod_eq] at hbyte
  refine ⟨?_, ?_⟩
  · rw [hall.1] at huser
    simpa using huser.symm
  · rw [← hbyte]
    exact hzero.resolve_left hdiv.2.2

lemma HoldsAll.grown (newsz : ℕ) (h : HoldsAll s m) (hclean : Clean s) (hlo : s.sz ≤ va)
    (hup : va / PGSIZE < UPAGES) :
    (m.resize newsz).guard (va / PGSIZE) = false ∧ (m.resize newsz).byte va = 0 := by
  have hold : m.guard (va / PGSIZE) = false ∧ m.byte va = 0 := by
    by_cases hlt : va / PGSIZE < pages s.sz
    · exact h.clean hclean hlo hlt
    · have hnone : s.pgdir.pte (va / PGSIZE) = none := by
        by_contra hne
        exact hlt (h.sz ▸ h.inside _ hup hne)
      obtain ⟨hguard, hbyte⟩ := h.absent _ hup hnone
      have hbyte := hbyte (va % PGSIZE) mod_lt_pgsize
      rw [div_mod_eq] at hbyte
      exact ⟨by simpa [blank] using hguard.symm, hbyte.symm⟩
  simp [Memory.resize, hold.1, hold.2]

/-- In every run whose steps meet the conditions, the process gets to see the same with both kernels, it is not
killed, and what `sbrk` adds to its memory is zero. -/
theorem lazy_like_eager {free : ℕ} (h0 : Started s)
    (h : Run (both Eager.step step) (fun r op => Eager.Meets r.1 op ∧ Meets r.2 op)
      (s, { s with free := free }) es r) :
    (∀ o ∈ es, o.1 = o.2) ∧
    (∀ op, Eager.Meets r.1 op → Meets r.2 op → ∃ e' l' o, Eager.step op r.1 = .ok (e', o) ∧
      step op r.2 = .ok (l', o) ∧ o ≠ .killed) ∧
    ∀ n > 0, Eager.Meets r.1 (.sbrk n) → Meets r.2 (.sbrk n) → Clean r.1 →
      ∀ e' l' o o', Eager.step (.sbrk n) r.1 = .ok (e', o) → step (.sbrk n) r.2 = .ok (l', o') →
      ∀ va : ℕ, r.1.sz ≤ va → va < r.1.sz + n →
        (∃ e'', Eager.step (.access va .load) e' = .ok (e'', .loaded 0)) ∧
        (2 ≤ l'.free → ∃ l'', step (.access va .load) l' = .ok (l'', .loaded 0)) := by
  have hlazy : Holds { s with free := free } s.memory := by
    obtain ⟨h1, h2, h3, h4, h5, h6, h7⟩ := h0.holds.toHolds
    exact ⟨h1, h2, h3, h4, h5, h6, h7⟩
  obtain ⟨hes, m, heager, hlazy⟩ := both_agree eager_implements lazy_implements h h0.holds hlazy
  refine ⟨hes, fun op hc hc' => ?_, fun n hn hc hc' hclean e' l' o o' he hl va hlo hhi => ?_⟩
  · obtain ⟨e', he', _⟩ := eager_implements r.1 m op heager hc
    obtain ⟨l', hl', _⟩ := lazy_implements r.2 m op hlazy hc'
    refine ⟨e', l', _, he', hl', ?_⟩
    cases op with
    | sbrk n => simp [Memory.step]
    | access va x => cases x <;> simp [Memory.step, Memory.access]
  · obtain ⟨e₁, he₁, heager'⟩ := eager_implements r.1 m (.sbrk n) heager hc
    obtain ⟨l₁, hl₁, hlazy'⟩ := lazy_implements r.2 m (.sbrk n) hlazy hc'
    rw [he] at he₁
    rw [hl] at hl₁
    cases he₁
    cases hl₁
    have hgrown := fun hup => heager.grown (m.sz + n).toNat hclean hlo hup
    generalize hnew : (Memory.step (.sbrk n) m).1 = m' at heager' hlazy'
    have hresize : m.resize (m.sz + n).toNat = m' := hnew
    have hsz : m'.sz = (m.sz + n).toNat := by rw [← hnew]; rfl
    have hva : va < m'.sz := by
      rw [hsz, ← heager.sz]
      omega
    have hpage := div_lt_pages hva
    have hup := hpage.trans_le (pages_le_upages heager'.small)
    rw [hresize] at hgrown
    obtain ⟨hguard, hbyte⟩ := hgrown hup
    have huser : ∀ {s' : State}, Holds s' m' → (s'.pgdir.pte (va / PGSIZE)).all (·.user) = true := by
      intro s' hs'
      cases he : s'.pgdir.pte (va / PGSIZE) with
      | none => rfl
      | some e =>
        rw [all_some, (hs'.present _ hup e he).1, hguard]
        rfl
    have hload : (Memory.step (.access va .load) m').2 = .loaded 0 := by
      simp [Memory.step, Memory.access, hbyte]
    refine ⟨?_, fun hfree => ?_⟩
    · obtain ⟨e'', he'', _⟩ := eager_implements e' m' (.access va .load) heager'
        ⟨heager'.sz ▸ hva, huser heager'.toHolds⟩
      exact ⟨e'', hload ▸ he''⟩
    · obtain ⟨l'', hl'', _⟩ := lazy_implements l' m' (.access va .load) hlazy'
        ⟨hlazy'.sz ▸ hva, huser hlazy', hfree⟩
      exact ⟨l'', hload ▸ hl''⟩

instance : ∀ op, Decidable (Eager.Meets s op)
  | .sbrk n => inferInstanceAs (Decidable (if 0 ≤ n then _ ∧ _ else _))
  | .access _ _ => inferInstanceAs (Decidable (_ ∧ _))

instance : ∀ op, Decidable (Meets s op)
  | .sbrk n => inferInstanceAs (Decidable (if 0 ≤ n then _ else _ ∧ ∀ v < pages s.sz, _ → _))
  | .access _ _ => inferInstanceAs (Decidable (_ ∧ _ ∧ _))

lemma image_started : Started image :=
  ⟨rfl, image_sized.small, image_sized.formed, image_sized.mapped⟩

/-- A page is added, written and read. -/
theorem page_added : ∃ r, Run (both Eager.step step) (fun r op => Eager.Meets r.1 op ∧ Meets r.2 op)
    (image, { image with free := 10 }) [(.returned 12288, .returned 12288), (.stored, .stored),
      (.loaded 7, .loaded 7)] r ∧ ∃ e' l' o, Eager.step (.sbrk (-100)) r.1 = .ok (e', o) ∧
    step (.sbrk (-100)) r.2 = .ok (l', o) ∧ o ≠ .killed := by
  obtain ⟨r, hrun, heager, hlazy⟩ : ∃ r, Run (both Eager.step step)
      (fun r op => Eager.Meets r.1 op ∧ Meets r.2 op) (image, { image with free := 10 })
      [(.returned 12288, .returned 12288), (.stored, .stored), (.loaded 7, .loaded 7)] r ∧
      Eager.Meets r.1 (.sbrk (-100)) ∧ Meets r.2 (.sbrk (-100)) :=
    Run.of_leads [.sbrk 4096, .access 12288 (.store 7), .access 12288 .load] (by decide +kernel)
  exact ⟨r, hrun, (lazy_like_eager image_started hrun).2.1 _ heager hlazy⟩

/-- A page is written, given back and taken again; an address outside of the memory is read; more memory is
asked for than there is below KERNBASE. -/
theorem lazy_unlike_eager : (∃ r, Run (both Eager.step step) (fun _ _ => True) (image, image)
      [(.returned 12288, .returned 12288), (.stored, .stored), (.returned 16384, .returned 16384),
        (.returned 12288, .returned 12288), (.loaded 0, .loaded 7)] r) ∧
    (∃ r, Run (both Eager.step step) (fun _ _ => True) (image, image) [(.killed, .loaded 0)] r) ∧
    ∃ r, Run (both Eager.step step) (fun _ _ => True) (image, image) [(.returned (-1), .returned 12288)] r := by
  have hlead : ∀ l es, leads (both Eager.step step) (fun _ _ => True) l (image, image) es (fun _ => True) = true →
      ∃ r, Run (both Eager.step step) (fun _ _ => True) (image, image) es r := by
    intro l es h
    obtain ⟨r, hr, _⟩ := Run.of_leads l h
    exact ⟨r, hr⟩
  refine ⟨hlead [.sbrk 4096, .access 12288 (.store 7), .sbrk (-4096), .sbrk 4096, .access 12288 .load] _ ?_,
    hlead [.access 12288 .load] _ ?_, hlead [.sbrk 2147483647] _ ?_⟩
  all_goals decide +kernel

end LearnXv6.Lazy
