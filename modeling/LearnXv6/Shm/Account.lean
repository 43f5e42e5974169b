import LearnXv6.Shm.Vm

/-! Where the pages are: on the free list, in the page directory, its page tables or the user part. -/
namespace LearnXv6.Shm
open Function Store Finset

variable {g g' : Pgdir} {v t n m x : ℕ} {free free' : List Page} {oldsz newsz top : ℕ}

/-- If `P` holds, then no page is freed that is free. -/
def Once (P : Prop) (e : Fault) : Prop := P → ∀ m, e ≠ .twice m

/-- The page is the directory or one of its page tables. -/
def Pgdir.base (g : Pgdir) (x : Page) : ℕ :=
  (if some g.dir = some x then 1 else 0) + places (Finset.range NPDENTRIES) g.tab x

/-- The page is one of the first `t` of the user part. -/
def Pgdir.low (g : Pgdir) (t : ℕ) (x : Page) : ℕ := places (Finset.range t) g.pte x

/-- A page that is mapped is below KERNBASE and in a page table that is there. -/
def Pgdir.Formed (g : Pgdir) : Prop := ∀ v, g.pte v ≠ none → v < UPAGES ∧ g.tab (v / NPDENTRIES) ≠ none

lemma kfree_spec : Outcome (Once (free.count m = 0))
    (fun free' => ∀ x, free'.count x = free.count x + if some m = some x then 1 else 0)
    (kfree m free) := by
  unfold kfree
  split
  · intro _ _ h
    cases h
  · split
    · rename_i hmem
      intro hzero
      exact absurd hmem (List.count_eq_zero.mp hzero)
    · exact fun x => count_cons_add

lemma once_imp {α : Type} {P Q : Prop} {R : α → Prop} {f : Except Fault α} (h : Outcome (Once P) R f)
    (hP : Q → P) : Outcome (Once Q) R f :=
  h.imp (fun _ he hQ => he (hP hQ)) fun _ hr => hr

lemma kalloc_eq {r : Page × List Page} (h : kalloc free = some r) : free = r.1 :: r.2 := by
  cases free with
  | nil => cases h
  | cons m free =>
    cases h
    rfl

lemma kalloc_count {rest : List Page} (h : kalloc free = some (m, rest)) (x : Page) :
    free.count x = rest.count x + if some m = some x then 1 else 0 := by
  rw [kalloc_eq h]
  exact count_cons_add

lemma walkalloc_none (h : walkalloc g v free = none) : g.tab (v / NPDENTRIES) = none := by
  unfold walkalloc at h
  split at h
  · cases h
  · rename_i htab
    exact htab

/-- What `walkpgdir` may add to a page directory. -/
structure Walked (g : Pgdir) (v : ℕ) (free : List Page) (g' : Pgdir) (free' : List Page) : Prop where
  pte : g'.pte = g.pte
  here : g'.tab (v / NPDENTRIES) ≠ none
  tab : ∀ i, g.tab i ≠ none → g'.tab i ≠ none
  base : ∀ x, free'.count x + g'.base x = free.count x + g.base x

lemma walkalloc_spec (hv : v / NPDENTRIES < NPDENTRIES) (h : walkalloc g v free = some (g', free')) :
    Walked g v free g' free' := by
  unfold walkalloc at h
  split at h
  · rename_i m hm
    cases h
    exact ⟨rfl, by simp [hm], fun _ hi => hi, fun _ => rfl⟩
  · rename_i hnone
    split at h
    · cases h
    · rename_i m rest hk
      cases h
      refine ⟨rfl, by simp, fun i hi => ?_, fun x => ?_⟩
      · simp only [update_apply]
        split
        · simp
        · exact hi
      · have hplaces := places_update (f := g.tab) (o := some m) (a := x)
          (mem_range.mpr hv)
        rw [hnone] at hplaces
        have hcount := kalloc_count hk x
        rw [Pgdir.base, Pgdir.base]
        simp only [reduceCtorEq, if_false, add_zero] at hplaces hcount ⊢
        omega

/-- What `mappages` does with one page. -/
structure Mapped (g : Pgdir) (v : ℕ) (m : Page) (free : List Page) (r : Bool × Pgdir × List Page) :
    Prop where
  formed : r.2.1.Formed
  none : g.pte v = none
  base : ∀ x, r.2.2.count x + r.2.1.base x = free.count x + g.base x
  tab : ∀ i, g.tab i ≠ Option.none → r.2.1.tab i ≠ Option.none
  done : r.1 = true → r.2.1.pte = update g.pte v (some m)
  failed : r.1 = false → g.tab (v / NPDENTRIES) = Option.none ∧ r.2.1.pte = g.pte

lemma div_lt (hv : v < UPAGES) : v / NPDENTRIES < NPDENTRIES := by
  unfold UPAGES at hv
  unfold NPDENTRIES
  omega

lemma mappages_spec {user : Bool} (hg : g.Formed) (hv : v < UPAGES) :
    Outcome (fun e => ∀ m, e ≠ .twice m) (Mapped g v m free) (mappages g v m user free) := by
  unfold mappages
  split
  · rename_i hwalk
    have htab := walkalloc_none hwalk
    refine ⟨hg, ?_, fun _ => rfl, fun _ h => h, by simp, fun _ => ⟨htab, rfl⟩⟩
    by_contra hne
    exact (hg v hne).2 htab
  · rename_i g' free' hwalk
    have hw := walkalloc_spec (div_lt hv) hwalk
    split
    · intro _ h
      cases h
    · rename_i hpresent
      have hnone : g.pte v = none := by
        rw [Pgdir.present, if_pos hv, hw.pte] at hpresent
        simpa using hpresent
      refine ⟨fun u hu => ?_, hnone, hw.base, hw.tab, fun _ => ?_, by simp⟩
      · by_cases huv : u = v
        · subst huv
          exact ⟨hv, hw.here⟩
        · simp only [update_of_ne huv, hw.pte] at hu
          exact ⟨(hg u hu).1, hw.tab _ (hg u hu).2⟩
      · simp only [hw.pte]

/-- The entry of a page is cleared. -/
abbrev Pgdir.clear (g : Pgdir) (v : ℕ) : Pgdir := { g with pte := update g.pte v none }

lemma Pgdir.Formed.clear (hg : g.Formed) : (g.clear v).Formed := by
  intro u hu
  simp only [update_apply] at hu
  split at hu
  · exact absurd rfl hu
  · exact hg u hu

lemma low_update {o : Option Page} (hv : v < t) (h : g'.pte = update g.pte v o) :
    g'.low t x + (if g.pte v = some x then 1 else 0) = g.low t x + if o = some x then 1 else 0 := by
  rw [Pgdir.low, Pgdir.low, h]
  exact places_update (mem_range.mpr hv)

lemma low_clear (hv : v < t) (hm : g.pte v = some m) (x : Page) :
    (g.clear v).low t x + (if some m = some x then 1 else 0) = g.low t x := by
  have := low_update (x := x) hv (show (g.clear v).pte = _ from rfl)
  rw [hm] at this
  simpa using this

/-- What `deallocuvm` does from the page `v` on. -/
structure Dealloced (oldsz t v : ℕ) (g : Pgdir) (free : List Page) (r : Pgdir × List Page) : Prop where
  formed : r.1.Formed
  dir : r.1.dir = g.dir
  tab : r.1.tab = g.tab
  pte : ∀ u, r.1.pte u = if v ≤ u ∧ u * PGSIZE < oldsz then none else g.pte u
  low : ∀ x, r.2.count x + r.1.low t x = free.count x + g.low t x

lemma Dealloced.done (hg : g.Formed) (hv : oldsz ≤ v * PGSIZE) : Dealloced oldsz t v g free (g, free) := by
  refine ⟨hg, rfl, rfl, fun u => ?_, fun _ => rfl⟩
  rw [if_neg]
  rintro ⟨hvu, hu⟩
  have := Nat.mul_le_mul_right PGSIZE hvu
  omega

lemma deallocFrom_spec (hg : g.Formed) (hn : oldsz ≤ (v + n) * PGSIZE) (ht : oldsz ≤ t * PGSIZE) :
    Outcome (Once (∀ x, free.count x + g.low t x ≤ 1)) (Dealloced oldsz t v g free)
      (deallocFrom oldsz n v g free) := by
  induction n generalizing v g free with
  | zero => exact .done hg hn
  | succ n ih =>
    rw [deallocFrom]
    split
    · rename_i hlt
      have hvt : v < t := by
        by_contra hle
        have := Nat.mul_le_mul_right PGSIZE (not_lt.mp hle)
        omega
      have hnext : oldsz ≤ (v + 1 + n) * PGSIZE := by
        rwa [show v + (n + 1) = v + 1 + n by omega] at hn
      -- the rest of the loop after one page
      have hskip : ∀ u, v ≤ u ∧ u * PGSIZE < oldsz ↔ u = v ∨ v + 1 ≤ u ∧ u * PGSIZE < oldsz := by
        intro u
        constructor
        · rintro ⟨hvu, hu⟩
          by_cases huv : u = v
          · exact .inl huv
          · exact .inr ⟨by omega, hu⟩
        · rintro (rfl | ⟨hvu, hu⟩)
          · exact ⟨le_rfl, hlt⟩
          · exact ⟨by omega, hu⟩
      split
      · -- no page of the table is mapped
        rename_i htab
        have hnone : ∀ u, v ≤ u → u < (v / NPDENTRIES + 1) * NPDENTRIES → g.pte u = none := by
          intro u hvu hu
          by_contra hne
          have hdiv : u / NPDENTRIES = v / NPDENTRIES := by
            unfold NPDENTRIES at hu ⊢
            omega
          exact (hg u hne).2 (hdiv ▸ htab)
        have hle : v + 1 ≤ (v / NPDENTRIES + 1) * NPDENTRIES := by
          unfold NPDENTRIES
          omega
        have hn' : oldsz ≤ ((v / NPDENTRIES + 1) * NPDENTRIES + n) * PGSIZE :=
          hnext.trans (Nat.mul_le_mul_right PGSIZE (by omega))
        refine (ih hg hn').mono fun r hr => ⟨hr.formed, hr.dir, hr.tab, fun u => ?_, hr.low⟩
        rw [hr.pte]
        by_cases hu : v ≤ u ∧ u * PGSIZE < oldsz
        · rw [if_pos hu]
          split
          · rfl
          · rename_i hskip
            rw [not_and] at hskip
            exact hnone u hu.1 (by
              by_contra hge
              exact hskip (not_lt.mp hge) hu.2)
        · rw [if_neg hu, if_neg]
          rintro ⟨hvu, hlt'⟩
          exact hu ⟨by omega, hlt'⟩
      · split
        · rename_i hnone
          refine (ih hg hnext).mono fun r hr => ⟨hr.formed, hr.dir, hr.tab, fun u => ?_, hr.low⟩
          rw [hr.pte]
          by_cases huv : u = v
          · subst huv
            simp [hnone]
          · simp only [hskip, huv, false_or]
        · rename_i m hm
          have hlow := low_clear hvt hm
          refine Outcome.bind (once_imp kfree_spec fun hpre => ?_) ?_
          · have h1 := hlow m
            have h2 := hpre m
            rw [if_pos rfl] at h1
            omega
          · intro free' hfree'
            have hcount : ∀ x, free'.count x + (g.clear v).low t x = free.count x + g.low t x := by
              intro x
              have h1 := hfree' x
              have h2 := hlow x
              omega
            refine (ih hg.clear hnext).imp (fun e he hpre => he fun x => hcount x ▸ hpre x)
              fun r hr => ⟨hr.formed, hr.dir, hr.tab, fun u => ?_, fun x => (hr.low x).trans (hcount x)⟩
            rw [hr.pte]
            by_cases huv : u = v
            · subst huv
              simp [hlt]
            · simp only [hskip, huv, false_or, update_of_ne huv]
    · rename_i hge
      exact .done hg (not_lt.mp hge)

lemma pages_le (h : newsz ≤ t * PGSIZE) : pages newsz ≤ t := by
  unfold pages PGSIZE at *
  omega

lemma le_pages : newsz ≤ pages newsz * PGSIZE := by
  unfold pages PGSIZE
  omega

lemma pages_mono (h : newsz ≤ oldsz) : pages newsz ≤ pages oldsz := by
  unfold pages
  exact Nat.div_le_div_right (by omega)

lemma deallocuvm_spec (hg : g.Formed) (ht : oldsz ≤ t * PGSIZE) :
    Outcome (Once (∀ x, free.count x + g.low t x ≤ 1))
      (fun r => (r.1 = oldsz ∧ oldsz ≤ newsz ∨ r.1 = newsz ∧ newsz < oldsz) ∧
        Dealloced oldsz t (pages newsz) g free r.2) (deallocuvm g oldsz newsz free) := by
  unfold deallocuvm
  split
  · rename_i hle
    exact ⟨.inl ⟨rfl, hle⟩, .done hg (hle.trans le_pages)⟩
  · rename_i hlt
    refine Outcome.bind (deallocFrom_spec hg ?_ ht) fun r hr => ⟨.inr ⟨rfl, by omega⟩, hr⟩
    have h : oldsz ≤ pages oldsz * PGSIZE := le_pages
    have := Nat.mul_le_mul_right PGSIZE (Nat.le_add_left (pages oldsz) (pages newsz))
    omega

lemma freeTables_spec : Outcome (Once (∀ x, free.count x + places (Finset.range NPDENTRIES) g.tab x ≤ 1))
      (fun free' => ∀ x, free'.count x = free.count x + places (Finset.range NPDENTRIES) g.tab x)
      (freeTables g free) := by
  unfold freeTables
  refine Outcome.range (I := fun i (u : List Page) => ∀ x, u.count x =
    free.count x + places (Finset.range i) g.tab x) (fun i hi u hu => ?_) fun x => ?_
  · unfold freeTable
    split
    · rename_i hnone
      intro x
      rw [places_range_succ, hnone]
      simpa using hu x
    · rename_i m hm
      refine (once_imp kfree_spec fun hpre => ?_).mono fun w hw x => ?_
      · have h1 := hpre m
        have h2 := places_range_succ (f := g.tab) (n := i) (a := m)
        have h3 : places (Finset.range (i + 1)) g.tab m ≤
            places (Finset.range NPDENTRIES) g.tab m :=
          sum_le_sum_of_subset (range_subset_range.mpr hi)
        rw [hm, if_pos rfl] at h2
        have h4 := hu m
        omega
      · rw [places_range_succ, hm, hw x, hu x]
        omega
  · simp [places]

lemma freevm_spec (hg : g.Formed) (ht : top = t * PGSIZE) :
    Outcome (Once (∀ x, free.count x + g.base x + g.low t x ≤ 1))
      (fun free' => ∀ x, free'.count x = free.count x + g.base x + g.low t x) (freevm g top free) := by
  unfold freevm
  refine Outcome.bind (once_imp (deallocuvm_spec hg ht.le) fun hpre x => ?_) ?_
  · have := hpre x
    omega
  rintro ⟨_, g', free'⟩ hr
  have hd := hr.2
  -- nothing is left below `top`
  have hlow : ∀ x, g'.low t x = 0 := by
    intro x
    refine places_none fun v hv => ?_
    have hv := mem_range.mp hv
    rw [hd.pte, if_pos]
    refine ⟨by simp [pages, PGSIZE], ?_⟩
    rw [ht]
    exact Nat.mul_lt_mul_of_pos_right hv (by decide)
  have hcount : ∀ x, free'.count x = free.count x + g.low t x := by
    intro x
    have h1 := hd.low x
    have h2 := hlow x
    simp only at h1
    omega
  have hbase : ∀ x, g.base x = (if some g'.dir = some x then 1 else 0) +
      places (Finset.range NPDENTRIES) g'.tab x := by
    intro x
    rw [Pgdir.base, ← hd.dir, ← hd.tab]
  refine Outcome.bind (once_imp freeTables_spec fun hpre x => ?_) ?_
  · have h1 := hpre x
    have h2 := hbase x
    have h3 := hcount x
    omega
  · intro u hu
    refine (once_imp kfree_spec fun hpre => ?_).mono fun w hw x => ?_
    · have h1 := hpre g'.dir
      have h2 := hbase g'.dir
      rw [if_pos rfl] at h2
      have h3 := hcount g'.dir
      have h4 := hu g'.dir
      omega
    · rw [hw x, hu x, hcount x, hbase x]
      omega

/-- What `allocuvm` does below the page `t`. -/
structure Alloced (t : ℕ) (g : Pgdir) (free : List Page) (r : Pgdir × List Page) : Prop where
  formed : r.1.Formed
  pte : ∀ u, t ≤ u → r.1.pte u = g.pte u
  total : ∀ x, r.2.count x + r.1.base x + r.1.low t x = free.count x + g.base x + g.low t x

lemma Alloced.trans {r r' : Pgdir × List Page} (h : Alloced t g free r)
    (h' : Alloced t r.1 r.2 r') : Alloced t g free r' :=
  ⟨h'.formed, fun u hu => (h'.pte u hu).trans (h.pte u hu), fun x => (h'.total x).trans (h.total x)⟩

lemma Dealloced.alloced {r : Pgdir × List Page} (h : Dealloced newsz t v g free r)
    (ht : newsz ≤ t * PGSIZE) : Alloced t g free r := by
  refine ⟨h.formed, fun u hu => ?_, fun x => ?_⟩
  · rw [h.pte, if_neg]
    rintro ⟨_, hlt⟩
    have := Nat.mul_le_mul_right PGSIZE hu
    omega
  · have h1 := h.low x
    have h2 : r.1.base x = g.base x := by rw [Pgdir.base, Pgdir.base, h.dir, h.tab]
    omega

lemma Mapped.total {rest : List Page} (hm : Mapped g v m rest (true, g', free'))
    (hk : kalloc free = some (m, rest)) (hvt : v < t) (x : Page) :
    free'.count x + g'.base x + g'.low t x = free.count x + g.base x + g.low t x := by
  have h1 := low_update (x := x) hvt (hm.done rfl)
  have h2 := hm.base x
  have h3 := kalloc_count hk x
  rw [hm.none] at h1
  simp only [reduceCtorEq, if_false] at h1 h2
  omega

lemma Mapped.other {rest : List Page} {u : ℕ} (hm : Mapped g v m rest (true, g', free'))
    (hu : u ≠ v) : g'.pte u = g.pte u :=
  (congrFun (hm.done rfl) u).trans (update_of_ne hu _ _)

lemma Mapped.lost {rest : List Page} (hm : Mapped g v m rest (false, g', free'))
    (hk : kalloc free = some (m, rest)) (x : Page) : free'.count x + g'.base x + g'.low t x +
      (if some m = some x then 1 else 0) = free.count x + g.base x + g.low t x := by
  have h1 := (hm.failed rfl).2
  have h2 := hm.base x
  have h3 := kalloc_count hk x
  simp only at h2
  rw [Pgdir.low, Pgdir.low, h1]
  omega

lemma allocFrom_spec (hg : g.Formed) (ht : newsz ≤ t * PGSIZE) (htop : t ≤ UPAGES)
    (hn : v + n = pages newsz) (hv : pages oldsz ≤ v) :
    Outcome (Once (∀ x, free.count x + g.base x + g.low t x ≤ 1))
      (fun r => (r.1 = newsz ∨ r.1 = 0) ∧ Alloced t g free r.2) (allocFrom oldsz newsz n v g free) := by
  induction n generalizing v g free with
  | zero => exact ⟨.inl rfl, hg, fun _ _ => rfl, fun _ => rfl⟩
  | succ n ih =>
    have hvt : v < t := by
      have := pages_le ht
      omega
    rw [allocFrom]
    split
    · refine Outcome.bind (once_imp (deallocuvm_spec hg ht) fun hpre x => ?_)
        fun r hr => ⟨.inr rfl, hr.2.alloced ht⟩
      have := hpre x
      omega
    · rename_i m rest hk
      refine Outcome.bind ((mappages_spec hg (hvt.trans_le htop)).imp (fun e he _ => he)
        fun _ h => h) ?_
      rintro ⟨done, g', free'⟩ hm
      cases done with
      | true =>
        have hfirst : Alloced t g free (g', free') := by
          refine ⟨hm.formed, fun u hu => hm.other ?_, hm.total hk hvt⟩
          omega
        refine (ih hm.formed (by omega) (by omega)).imp (fun e he hpre => he fun x => ?_)
          fun r hr => ⟨hr.1, hfirst.trans hr.2⟩
        exact (hfirst.total x).le.trans (hpre x)
      | false =>
        have hlost := hm.lost (t := t) hk
        refine Outcome.bind (once_imp (deallocuvm_spec hm.formed ht) fun hpre x => ?_) ?_
        · have h1 := hlost x
          have h2 := hpre x
          omega
        · rintro ⟨_, g'', free''⟩ ⟨_, hd⟩
          have hd := hd.alloced ht
          refine Outcome.bind (once_imp kfree_spec fun hpre => ?_) ?_
          · have h1 := hlost m
            have h2 := hpre m
            have h3 := hd.total m
            rw [if_pos rfl] at h1
            simp only at h3
            omega
          · intro w hw
            refine ⟨.inr rfl, hd.formed, fun u hu => ?_, fun x => ?_⟩
            · exact (hd.pte u hu).trans (congrFun (hm.failed rfl).2 u)
            · have h1 := hlost x
              have h2 := hw x
              have h3 := hd.total x
              simp only at h3 ⊢
              omega

lemma allocuvm_spec (hg : g.Formed) (ht : top ≤ t * PGSIZE) (htop : t ≤ UPAGES) :
    Outcome (Once (∀ x, free.count x + g.base x + g.low t x ≤ 1))
      (fun r => (r.1 = 0 ∨ r.1 ≤ top ∧ r.1 = newsz ∧ oldsz ≤ newsz ∨ r.1 = oldsz ∧ newsz < oldsz) ∧
        Alloced t g free r.2) (allocuvm top g oldsz newsz free) := by
  unfold allocuvm
  split
  · exact ⟨.inl rfl, hg, fun _ _ => rfl, fun _ => rfl⟩
  · rename_i hle
    split
    · rename_i hlt
      exact ⟨.inr (.inr ⟨rfl, hlt⟩), hg, fun _ _ => rfl, fun _ => rfl⟩
    · rename_i hold
      have hpages : pages oldsz ≤ pages newsz := pages_mono (by omega)
      refine (allocFrom_spec hg (by omega) htop (by omega) le_rfl).mono fun r hr => ⟨?_, hr.2⟩
      rcases hr.1 with hr | hr
      · exact .inr (.inl ⟨by omega, hr, by omega⟩)
      · exact .inl hr

lemma mapKernel_spec {l : List ℕ} (hl : ∀ i ∈ l, i < NPDENTRIES) (g : Pgdir) (free : List Page) :
    (mapKernel l g free).2.1.pte = g.pte ∧ ∀ x, (mapKernel l g free).2.2.count x +
      (mapKernel l g free).2.1.base x = free.count x + g.base x := by
  induction l generalizing g free with
  | nil => exact ⟨rfl, fun _ => rfl⟩
  | cons i l ih =>
    have hi : i * NPDENTRIES / NPDENTRIES < NPDENTRIES := by
      have h := hl i (by simp)
      rwa [Nat.mul_div_cancel _ (by unfold NPDENTRIES; decide)]
    rw [mapKernel]
    split
    · exact ⟨rfl, fun _ => rfl⟩
    · rename_i g' free' hwalk
      have hw := walkalloc_spec hi hwalk
      have hrest := ih (fun j hj => hl j (by simp [hj])) g' free'
      exact ⟨hrest.1.trans hw.pte, fun x => (hrest.2 x).trans (hw.base x)⟩

lemma kernelTables_lt : ∀ i ∈ kernelTables, i < NPDENTRIES := by
  unfold NPDENTRIES
  decide

/-- A page directory without a user part. -/
structure Fresh (free : List Page) (g : Pgdir) (free' : List Page) : Prop where
  formed : g.Formed
  pte : ∀ v, g.pte v = none
  base : ∀ x, free'.count x + g.base x = free.count x

lemma setupkvm_spec (ht : top = t * PGSIZE) : Outcome (Once (∀ x, free.count x ≤ 1))
      (fun r => (r.1 = none → ∀ x, r.2.count x = free.count x) ∧
        ∀ g, r.1 = some g → Fresh free g r.2) (setupkvm top free) := by
  unfold setupkvm
  split
  · exact ⟨fun _ _ => rfl, by simp⟩
  · rename_i d rest hk
    obtain ⟨hpte, hbase⟩ :=
      mapKernel_spec kernelTables_lt ⟨d, fun _ => none, fun _ => none, fun _ => false⟩ rest
    have hcount : ∀ x, rest.count x +
        (⟨d, fun _ => none, fun _ => none, fun _ => false⟩ : Pgdir).base x = free.count x := by
      intro x
      rw [kalloc_count hk, Pgdir.base, places_none fun _ _ => rfl, add_zero]
    split
    · rename_i g' free' hmap
      rw [hmap] at hpte hbase
      simp only at hpte hbase
      refine ⟨by simp, fun g hg => ?_⟩
      cases hg
      have hnone : ∀ v, g'.pte v = none := fun v => by rw [hpte]
      exact ⟨fun v hv => absurd (hnone v) hv, hnone, fun x => (hbase x).trans (hcount x)⟩
    · rename_i g' free' hmap
      rw [hmap] at hpte hbase
      simp only at hpte hbase
      have hnone : ∀ v, g'.pte v = none := fun v => by rw [hpte]
      have hlow : ∀ x, g'.low t x = 0 := fun x => places_none fun v _ => hnone v
      refine Outcome.bind (once_imp (freevm_spec (fun v hv => absurd (hnone v) hv) ht)
        fun hpre x => ?_) fun u hu => ⟨fun _ x => ?_, by simp⟩
      · have h1 := hbase x
        have h2 := hcount x
        have h3 := hlow x
        have h4 := hpre x
        omega
      · have h1 := hbase x
        have h2 := hcount x
        have h3 := hlow x
        have h4 := hu x
        simp only
        omega

lemma copyFrom_spec {d : Pgdir} (hd : d.Formed) (hvt : v + n ≤ t) (htop : t ≤ UPAGES) :
    Outcome (fun e => ∀ m, e ≠ .twice m) (fun r => r.2.1.Formed ∧ (∀ u, v + n ≤ u → r.2.1.pte u = d.pte u) ∧
        ∀ x, r.2.2.count x + r.2.1.base x + r.2.1.low t x ≤ free.count x + d.base x + d.low t x)
      (copyFrom g n v d free) := by
  induction n generalizing v d free with
  | zero => exact ⟨hd, fun _ _ => rfl, fun _ => le_rfl⟩
  | succ n ih =>
    rw [copyFrom]
    split
    · intro _ h
      cases h
    split
    · intro _ h
      cases h
    split
    · exact ⟨hd, fun _ _ => rfl, fun _ => le_rfl⟩
    · rename_i m rest hk
      refine Outcome.bind (mappages_spec hd (by omega)) ?_
      rintro ⟨done, d', free'⟩ hm
      cases done with
      | true =>
        refine (ih hm.formed (by omega)).mono fun r hr => ⟨hr.1, fun u hu => ?_, fun x => ?_⟩
        · exact (hr.2.1 u (by omega)).trans (hm.other (by omega))
        · exact (hr.2.2 x).trans (hm.total hk (by omega) x).le
      | false =>
        -- the page that was to be mapped is lost
        refine ⟨hm.formed, fun u _ => congrFun (hm.failed rfl).2 u, fun x => ?_⟩
        exact (Nat.le_add_right _ _).trans (hm.lost hk x).le

lemma low_eq {t' : ℕ} (ht : t ≤ t') (h : ∀ u, t ≤ u → u < t' → g.pte u = none) (x : Page) :
    g.low t' x = g.low t x := by
  rw [Pgdir.low, Pgdir.low]
  refine (sum_subset (range_subset_range.mpr ht) fun u hu hu' => ?_).symm
  rw [h u (by simpa using hu') (mem_range.mp hu)]
  simp

lemma copyuvm_spec {sz : ℕ} (hsz : sz ≤ top) (ht : top = t * PGSIZE) (htop : t ≤ UPAGES) :
    Outcome (Once (∀ x, free.count x ≤ 1)) (fun r => (r.1 = none → ∀ x, r.2.count x ≤ free.count x) ∧
        ∀ d, r.1 = some d → d.Formed ∧ (∀ u, pages sz ≤ u → d.pte u = none) ∧
          ∀ x, r.2.count x + d.base x + d.low UPAGES x ≤ free.count x) (copyuvm top g sz free) := by
  have hpages := pages_le (ht ▸ hsz)
  unfold copyuvm
  refine Outcome.bind (setupkvm_spec ht) ?_
  rintro ⟨o, free1⟩ hset
  cases o with
  | none => exact ⟨fun _ x => (hset.1 rfl x).le, by simp⟩
  | some d =>
    have hfresh := hset.2 d rfl
    have hlow : ∀ x, d.low t x = 0 := fun x => places_none fun v _ => hfresh.pte v
    refine Outcome.bind ((copyFrom_spec hfresh.formed (by omega) htop).imp (fun e he _ => he)
      fun _ h => h) ?_
    rintro ⟨done, d', free2⟩ hr
    have hhigh : ∀ u, pages sz ≤ u → d'.pte u = none := by
      intro u hu
      rw [hr.2.1 u (by omega)]
      exact hfresh.pte u
    have htotal : ∀ x, free2.count x + d'.base x + d'.low t x ≤ free.count x := by
      intro x
      have h1 := hr.2.2 x
      have h2 := hfresh.base x
      have h3 := hlow x
      simp only at h1 h2
      omega
    cases done with
    | true =>
      refine ⟨by simp, fun d'' hd => ?_⟩
      cases hd
      refine ⟨hr.1, hhigh, fun x => ?_⟩
      rw [low_eq htop fun u hu _ => hhigh u (by omega)]
      exact htotal x
    | false =>
      refine Outcome.bind (once_imp (freevm_spec hr.1 ht) fun hpre x => ?_)
        fun w hw => ⟨fun _ x => ?_, by simp⟩
      · exact (htotal x).trans (hpre x)
      · have h1 := htotal x
        have h2 := hw x
        simp only at h1 h2 ⊢
        omega

end LearnXv6.Shm
