import LearnXv6.Shm.Mapping

/-! A page is in one place: on the free list, in the memory of a process, or among the pages of a key. -/
namespace LearnXv6.Shm
open Store Finset

variable {s s' u : State} {p q : Slot} {k : Key} {x y : Proc} {n i c : ℕ} {m : Page} {free : List Page}
  {es : List Event} {file : Option Image} {argv : List ℕ}

/-- In how many places a page is. -/
def State.total (s : State) (m : Page) : ℕ := s.free.count m + ∑ p, (s.proc p).owns m + s.shared m

/-- The processes differ in their parents only. -/
def Alike (x y : Proc) : Prop := ∃ o, y = { x with parent := o }

lemma Alike.refl : Alike x x := ⟨x.parent, rfl⟩

lemma abandon_alike : Alike x (x.abandon p) := by
  unfold Proc.abandon
  split
  · exact ⟨_, rfl⟩
  · exact .refl

lemma total_change (h : ∀ q ≠ p, Alike (s.proc q) (s'.proc q)) :
    s'.total m + (s.free.count m + (s.proc p).owns m + s.shared m) =
      s.total m + (s'.free.count m + (s'.proc p).owns m + s'.shared m) := by
  have h1 := add_sum_erase univ (fun q => (s.proc q).owns m) (mem_univ p)
  have h2 := add_sum_erase univ (fun q => (s'.proc q).owns m) (mem_univ p)
  have h3 : ∑ q ∈ univ.erase p, (s'.proc q).owns m = ∑ q ∈ univ.erase p, (s.proc q).owns m := by
    refine sum_congr rfl fun q hq => ?_
    obtain ⟨o, ho⟩ := h q (ne_of_mem_erase hq)
    rw [ho]
    rfl
  unfold State.total
  omega

lemma owns_le : s.free.count m + (s.proc p).owns m + s.shared m ≤ s.total m := by
  have h1 := add_sum_erase univ (fun q => (s.proc q).owns m) (mem_univ p)
  unfold State.total
  omega

lemma recorded_le {j : ℕ} (hj : j < s.numpages k) :
    s.free.count (s.pageaddr k j) + 1 ≤ s.total (s.pageaddr k j) := by
  have h1 := shared_eq (s := s) (x := s.pageaddr k j) k
  have h2 : 0 < s.ofKey k (s.pageaddr k j) := places_pos (mem_range.mpr hj) rfl
  unfold State.total
  omega

/-- The memory of a process is well formed and below `top`. -/
structure Proc.Fits (x : Proc) : Prop extends x.Laid where
  sz : x.sz ≤ x.top

/-- The page is not to be used again, or belongs to a key that the process uses. -/
def State.Harmless (s : State) (p : Slot) (m : Page) : Prop :=
  s.total m = 0 ∨ ∃ k j, (s.proc p).keys k = true ∧ j < s.numpages k ∧ s.pageaddr k j = m

structure Owned (s : State) : Prop where
  counted : Counted s
  once : ∀ m, s.total m ≤ 1
  zero : s.total 0 = 0
  fits : ∀ p, (s.proc p).state ≠ .unused → (s.proc p).Fits
  unused : ∀ k, s.refcount k = 0 → s.numpages k = 0
  /-- what is left in `key_pageaddr` behind the pages of the key -/
  stale : ∀ k j, s.numpages k ≤ j → s.total (s.pageaddr k j) = 0
  mapped : ∀ p, (s.proc p).state = .live → ∀ v m, (s.proc p).bound ≤ v →
    (s.proc p).pgdir.pte v = some m → s.Harmless p m

lemma Owned.step (h : Owned s) (hcounted : Counted s') (htotal : ∀ m, s'.total m ≤ s.total m)
    (hother : ∀ q ≠ p, Alike (s.proc q) (s'.proc q)) (hunused : ∀ k, s'.refcount k = 0 → s'.numpages k = 0)
    (hstale : ∀ k j, s'.numpages k ≤ j → s'.total (s'.pageaddr k j) = 0)
    (hharm : ∀ q ≠ p, (s.proc q).state = .live → ∀ m, s.Harmless q m → s'.Harmless q m)
    (hfits : (s'.proc p).state ≠ .unused → (s'.proc p).Fits)
    (hmapped : (s'.proc p).state = .live → ∀ v m, (s'.proc p).bound ≤ v →
      (s'.proc p).pgdir.pte v = some m → s'.Harmless p m) : Owned s' := by
  have hzero := le_antisymm ((htotal 0).trans h.zero.le) (Nat.zero_le _)
  refine ⟨hcounted, fun m => (htotal m).trans (h.once m), hzero, fun q hq => ?_, hunused, hstale,
    fun q hq v m hv hm => ?_⟩
  · by_cases hqp : q = p
    · subst hqp
      exact hfits hq
    · obtain ⟨o, ho⟩ := hother q hqp
      rw [ho] at hq ⊢
      obtain ⟨⟨h1, h2, h3⟩, h4⟩ := h.fits q hq
      exact ⟨⟨h1, h2, h3⟩, h4⟩
  · by_cases hqp : q = p
    · subst hqp
      exact hmapped hq v m hv hm
    · obtain ⟨o, ho⟩ := hother q hqp
      rw [ho] at hq hv hm
      exact hharm q hqp hq m (h.mapped q hq v m hv hm)

lemma Owned.change (h : Owned s) (hcounted : Counted s') (hother : ∀ q ≠ p, s'.proc q = s.proc q)
    (hrefcount : s'.refcount = s.refcount) (hnumpages : s'.numpages = s.numpages)
    (hpageaddr : s'.pageaddr = s.pageaddr)
    (hle : ∀ m, s'.free.count m + (s'.proc p).owns m ≤ s.free.count m + (s.proc p).owns m)
    (hfits : (s'.proc p).state ≠ .unused → (s'.proc p).Fits)
    (hmapped : (s'.proc p).state = .live → (∀ m, s.Harmless p m → (s'.proc p).keys = (s.proc p).keys →
      s'.Harmless p m) → ∀ v m, (s'.proc p).bound ≤ v → (s'.proc p).pgdir.pte v = some m →
      s'.Harmless p m) : Owned s' := by
  have halike : ∀ q ≠ p, Alike (s.proc q) (s'.proc q) := fun q hq => hother q hq ▸ .refl
  have hshared : ∀ m, s'.shared m = s.shared m := by
    intro m
    unfold State.shared State.ofKey
    rw [hnumpages, hpageaddr]
  have htotal : ∀ m, s'.total m ≤ s.total m := by
    intro m
    have h1 := total_change (m := m) halike
    have h2 := hle m
    have h3 := hshared m
    omega
  have hharm : ∀ q m, (s'.proc q).keys = (s.proc q).keys → s.Harmless q m → s'.Harmless q m := by
    rintro q m hkeys (hm | ⟨k, j, hk, hj, hm⟩)
    · exact .inl (Nat.le_zero.mp ((htotal m).trans hm.le))
    · exact .inr ⟨k, j, by rw [hkeys]; exact hk, by rw [hnumpages]; exact hj, by rw [hpageaddr]; exact hm⟩
  refine h.step hcounted htotal halike (fun k hk => ?_) (fun k j hj => ?_)
    (fun q hq _ m => hharm q m (by rw [hother q hq])) hfits
    fun hlive => hmapped hlive fun m hm hkeys => hharm p m hkeys hm
  · rw [hnumpages]
    exact h.unused k (by rw [← hrefcount]; exact hk)
  · rw [hnumpages] at hj
    rw [hpageaddr]
    exact Nat.le_zero.mp ((htotal _).trans (h.stale k j hj).le)

lemma Owned.once_free (h : Owned s) : s.free.count m + (s.proc p).owns m ≤ 1 := by
  have h1 := owns_le (s := s) (p := p) (m := m)
  have h2 := h.once m
  omega

lemma owns_unused (h : x.state = .unused) : x.owns m = 0 := if_pos h

/-! `fork` -/

inductive Allocated (s : State) : Option Slot → State → Prop
  | full : Allocated s none s
  | short (p : Slot) (hp : (s.proc p).state = .unused) (y : Proc) (hy : y.state = .unused) :
      Allocated s none (s.set p y)
  | done (p : Slot) (hp : (s.proc p).state = .unused) (m : Page) (free : List Page)
      (hfree : s.free = m :: free) :
      Allocated s (some p) { s.set p { s.proc p with
        state := .live, keys := fun _ => false, top := KERNBASE, kstack := m } with free := free }

lemma allocproc_spec {o : Option Slot} (h : allocproc s = (o, s')) : Allocated s o s' := by
  unfold allocproc at h
  split at h
  · cases h
    exact .full
  · rename_i p hfind
    have hp : (s.proc p).state = .unused := by simpa using List.find?_some hfind
    split at h
    · cases h
      exact .short p hp _ rfl
    · rename_i m free hfree
      cases h
      exact .done p hp m free (kalloc_eq hfree)

lemma Owned.unused_slot (h : Owned s) (hcounted : Counted { s.set p y with free := free })
    (hp : (s.proc p).state = .unused) (hy : y.state = .unused)
    (hfree : ∀ m, free.count m ≤ s.free.count m) : Owned { s.set p y with free := free } := by
  refine h.change hcounted (fun q hq => set_other hq) rfl rfl rfl (fun m => ?_) ?_ ?_
  · simp only [set_self, owns_unused hp, owns_unused hy]
    exact hfree m
  · simp [hy]
  · simp [hy]

lemma Owned.new_slot (h : Owned s) (hcounted : Counted { s.set p y with free := free })
    (hp : (s.proc p).state = .unused) (hlive : y.state = .live) (htop : y.top = KERNBASE)
    (hsz : y.sz ≤ KERNBASE) (hformed : y.pgdir.Formed)
    (hfree : ∀ m, free.count m + (if some y.kstack = some m then 1 else 0) + y.pgdir.base m +
      y.pgdir.low UPAGES m ≤ s.free.count m) : Owned { s.set p y with free := free } := by
  have hbound := bound_eq (htop.trans kernbase_eq)
  refine h.change hcounted (fun q hq => set_other hq) rfl rfl rfl (fun m => ?_) ?_ ?_
  · have h1 := hfree m
    simp only [set_self]
    rw [owns_unused hp, owns_of_used (by simp [hlive]), hbound]
    omega
  · intro _
    simp only [set_self]
    exact ⟨⟨hformed, by rw [hbound, htop, kernbase_eq], hbound.le⟩, htop ▸ hsz⟩
  · intro _ _ v m hv hm
    simp only [set_self] at hv hm
    have := (hformed v (by simp [hm])).1
    omega

lemma set_set {free' : List Page} : ({ ({ s.set p x with free := free } : State).set p y with
    free := free' } : State) = { s.set p y with free := free' } := by
  simp [State.set]

lemma Owned.low_le (h : Owned s) (hused : (s.proc p).state ≠ .unused) :
    s.free.count m + (if some (s.proc p).kstack = some m then 1 else 0) + (s.proc p).pgdir.base m +
      (s.proc p).pgdir.low (s.proc p).bound m ≤ 1 := by
  have h1 := h.once_free (p := p) (m := m)
  rw [owns_of_used hused] at h1
  omega

lemma fork_owned (h : Owned s) (hlive : (s.proc p).state = .live) :
    Outcome NotTwice (fun r => Counted r.1 → Owned r.1) (lift (fork p s)) := by
  unfold fork
  split
  · rename_i u halloc
    cases allocproc_spec halloc with
    | full => exact fun _ => h
    | short np hnp y hy => exact fun hcounted => h.unused_slot hcounted hnp hy fun _ => le_rfl
  · rename_i np u halloc
    cases allocproc_spec halloc with
    | done _ hnp m free hfree =>
      have hne : p ≠ np := by
        rintro rfl
        rw [hnp] at hlive
        cases hlive
      have hfits := h.fits p (by simp [hlive])
      have hcount : ∀ a, s.free.count a = free.count a + if some m = some a then 1 else 0 := by
        intro a
        rw [hfree, count_cons_add]
      have hle : ∀ a, s.free.count a ≤ 1 := by
        intro a
        have := h.once_free (p := p) (m := a)
        omega
      simp only [set_other hne, set_self, set_set]
      refine lift_notTwice (Outcome.bind ((copyuvm_spec hfits.sz hfits.top hfits.bound).imp
        (fun e he => he fun a => (hcount a ▸ Nat.le_add_right _ _ : _ ≤ _).trans (hle a)) fun _ h => h)
        fun r hr => ?_)
      obtain ⟨o, free1⟩ := r
      simp only at hr
      cases o with
      | none =>
        have hless := hr.1 rfl
        refine Outcome.bind (kfree_spec.imp (fun e he => he ?_) fun _ h => h) fun free2 hfree2 => ?_
        · have h1 := hle m
          have h2 := hcount m
          have h3 := hless m
          rw [if_pos rfl] at h2
          dsimp only
          omega
        · refine fun hcounted => h.unused_slot hcounted hnp rfl fun a => ?_
          have h1 := hfree2 a
          have h2 := hcount a
          have h3 := hless a
          dsimp only at h1
          omega
      | some d =>
        obtain ⟨hformed, hnone, htotal⟩ := hr.2 d rfl
        refine fun hcounted => h.new_slot hcounted hnp rfl rfl ?_ hformed fun a => ?_
        · have h1 := hfits.top
          have h2 := Nat.mul_le_mul_right PGSIZE hfits.bound
          exact hfits.sz.trans (h1.le.trans h2)
        · have h1 := htotal a
          have h2 := hcount a
          simp only
          omega

/-! `sbrk` -/

lemma resize_spec {z : ℤ} (hx : x.Fits) :
    Outcome (Once (∀ m, free.count m + x.pgdir.base m + x.pgdir.low x.bound m ≤ 1))
      (fun r => r.1 ≤ x.top ∧ Alloced x.bound x.pgdir free r.2) (resize x z free) := by
  have hsz := hx.sz
  have htop := hx.top
  unfold resize
  split
  · refine (allocuvm_spec hx.formed hx.top.le hx.bound).mono fun r hr => ⟨?_, hr.2⟩
    rcases hr.1 with h | ⟨h, _⟩ | ⟨h, _⟩ <;> omega
  split
  · refine (deallocuvm_spec hx.formed (htop ▸ hsz)).imp (fun e he hpre => he fun a => ?_)
      fun r hr => ⟨?_, hr.2.alloced (htop ▸ hsz)⟩
    · have := hpre a
      omega
    · rcases hr.1 with ⟨h, _⟩ | ⟨h, _⟩ <;> omega
  · exact ⟨hsz, hx.formed, fun _ _ => rfl, fun _ => rfl⟩

lemma Owned.resized (h : Owned s) (hused : (s.proc p).state ≠ .unused) {g : Pgdir} {sz : ℕ}
    (hsz : sz ≤ (s.proc p).top) (hg : Alloced (s.proc p).bound (s.proc p).pgdir s.free (g, free))
    (hcounted : Counted { s.set p { s.proc p with pgdir := g, sz := sz } with free := free }) :
    Owned { s.set p { s.proc p with pgdir := g, sz := sz } with free := free } := by
  have hfits := h.fits p hused
  refine h.change hcounted (fun q hq => set_other hq) rfl rfl rfl (fun m => ?_) ?_ ?_
  · have h1 := hg.total m
    simp only [set_self] at h1 ⊢
    rw [owns_of_used hused, owns_of_used (x := { s.proc p with pgdir := g, sz := sz }) hused]
    simp only [Proc.bound] at h1 ⊢
    omega
  · intro _
    simp only [set_self]
    exact ⟨⟨hg.formed, hfits.top, hfits.bound⟩, hsz⟩
  · intro hlive hharm v m hv hm
    simp only [set_self] at hlive hv hm hharm
    refine hharm m (h.mapped p hlive v m hv ?_) trivial
    have hpte := hg.pte v hv
    rw [← hpte, hm]

lemma sbrk_owned {z : ℤ} (h : Owned s) (hlive : (s.proc p).state = .live) :
    Outcome NotTwice (fun r => Counted r.1 → Owned r.1) (lift (sbrk p z s)) := by
  have hused : (s.proc p).state ≠ .unused := by simp [hlive]
  have hfits := h.fits p hused
  unfold sbrk
  refine lift_notTwice (Outcome.bind ((resize_spec hfits).imp (fun e he => he fun m => ?_) fun _ h => h)
    fun r hr => ?_)
  · have := h.low_le (m := m) hused
    omega
  · obtain ⟨sz, g, free⟩ := r
    dsimp only
    split
    · exact h.resized hused hfits.sz hr.2
    · exact h.resized hused hr.1 hr.2

/-! `wait` -/

lemma wait_owned (h : Owned s) : Outcome NotTwice (fun r => Counted r.1 → Owned r.1) (wait p s) := by
  unfold wait
  split
  · rename_i q hfind
    have hq := List.find?_some hfind
    rw [Bool.and_eq_true, decide_eq_true_eq, decide_eq_true_eq] at hq
    have hused : (s.proc q).state ≠ .unused := by simp [hq.2]
    have hfits := h.fits q hused
    refine Outcome.bind (lift_notTwice (kfree_spec.imp (fun e he => he ?_) fun _ h => h)) fun free hfree => ?_
    · have := h.low_le (m := (s.proc q).kstack) hused
      rw [if_pos rfl] at this
      omega
    refine Outcome.bind (lift_notTwice ((freevm_spec hfits.formed hfits.top).imp (fun e he => he fun m => ?_)
      fun _ h => h)) fun free' hfree' => ?_
    · have h1 := h.low_le (m := m) hused
      have h2 := hfree m
      omega
    · refine fun hcounted => h.change hcounted (fun q' hq' => set_other hq') rfl rfl rfl
        (fun m => ?_) ?_ ?_
      · have h1 := hfree m
        have h2 := hfree' m
        simp only [set_self]
        rw [owns_of_used hused, owns_unused rfl]
        omega
      · simp
      · simp
  · split
    · intro m hm
      cases hm
    · exact fun _ => h

/-! `exit` and `exec` -/

lemma two_users (hp : (s.proc p).uses k = some k) (hq : (s.proc q).uses k = some k) (hne : q ≠ p) :
    2 ≤ s.users k := by
  have hset := users_set (s := s) (p := p) (k := k) (y := .zero)
  have hpos : 0 < (s.set p .zero).users k := tally_pos (by rw [set_other hne, hq])
  rw [hp, if_pos rfl] at hset
  have hzero : Proc.zero.uses k = none := uses_of_ne (by simp [Proc.zero])
  rw [hzero, if_neg (by simp)] at hset
  omega

lemma Dropped.kept (hu : Dropped p (List.finRange NKEYS) s u) (hs : Counted s)
    (hlive : (s.proc p).state = .live) (hq : q ≠ p) (hqlive : (s.proc q).state = .live)
    (hk : (s.proc q).keys k = true) : u.numpages k = s.numpages k ∧ u.pageaddr k = s.pageaddr k := by
  have hlast : ¬ s.last p k := by
    rintro ⟨hkey, hone⟩
    have h2 : 2 ≤ s.users k := two_users (by simp [Proc.uses, hlive, hkey])
      (by simp [Proc.uses, hqlive, hk]) hq
    have h3 := hs.count k
    omega
  exact ⟨by rw [hu.numpages, if_neg (by simp [hlast])], hu.pageaddr k (by simp [hlast])⟩

lemma Owned.dropped (h : Owned s) (hu : Dropped p (List.finRange NKEYS) s u)
    (hlive : (s.proc p).state = .live) (hcounted : Counted s') (hrefcount : s'.refcount = u.refcount)
    (hnumpages : s'.numpages = u.numpages) (hpageaddr : s'.pageaddr = u.pageaddr)
    (hother : ∀ q ≠ p, Alike (s.proc q) (s'.proc q))
    (hle : ∀ m, s'.free.count m + (s'.proc p).owns m = u.free.count m + (s.proc p).owns m)
    (hfits : (s'.proc p).Fits)
    (hmapped : (s'.proc p).state = .live → ∀ v, (s'.proc p).bound ≤ v → (s'.proc p).pgdir.pte v = none) :
    Owned s' := by
  have hshared : ∀ m, s'.shared m = u.shared m := by
    intro m
    unfold State.shared State.ofKey
    rw [hnumpages, hpageaddr]
  have htotal : ∀ m, s'.total m = s.total m := by
    intro m
    have h1 := total_change (m := m) hother
    have h2 := hle m
    have h3 := hshared m
    have h4 := hu.total m
    omega
  have hnp : ∀ k, ¬ s.last p k → s'.numpages k = s.numpages k := by
    intro k hk
    rw [hnumpages, hu.numpages, if_neg (by simp [hk])]
  have hpa : ∀ k, ¬ s.last p k → s'.pageaddr k = s.pageaddr k := by
    intro k hk
    rw [hpageaddr, hu.pageaddr k (by simp [hk])]
  refine h.step hcounted (fun m => (htotal m).le) hother (fun k hk => ?_) (fun k j hj => ?_)
    (fun q hq hqlive m hm => ?_) (fun _ => hfits) fun hl v m hv hm => ?_
  · by_cases hlast : s.last p k
    · rw [hnumpages, hu.numpages, if_pos ⟨List.mem_finRange k, hlast⟩]
    · rw [hnp k hlast]
      refine h.unused k ?_
      have h1 := hu.refcount k
      rw [hrefcount] at hk
      rw [hk] at h1
      by_cases hkey : (s.proc p).keys k = true
      · rw [if_pos ⟨List.mem_finRange k, hkey⟩] at h1
        have h2 : s.refcount k ≠ 1 := fun h => hlast ⟨hkey, h⟩
        omega
      · rw [if_neg (by simp [hkey])] at h1
        exact h1.symm
  · rw [htotal]
    by_cases hlast : s.last p k
    · rw [hpageaddr, hu.cleared k (List.mem_finRange k) hlast]
      split
      · exact h.zero
      · rename_i hlt
        exact h.stale k j (not_lt.mp hlt)
    · rw [hpa k hlast]
      exact h.stale k j (hnp k hlast ▸ hj)
  · rcases hm with hm | ⟨k, j, hk, hj, hm⟩
    · exact .inl ((htotal m).trans hm)
    · obtain ⟨hnum, haddr⟩ := hu.kept h.counted hlive hq hqlive hk
      obtain ⟨o, ho⟩ := hother q hq
      exact .inr ⟨k, j, by rw [ho]; exact hk, by rw [hnumpages, hnum]; exact hj,
        by rw [hpageaddr, haddr]; exact hm⟩
  · rw [hmapped hl v hv] at hm
    cases hm

lemma Owned.drop_le (h : Owned s) : s.free.count m + s.shared m ≤ 1 := by
  have h1 := owns_le (s := s) (p := initproc) (m := m)
  have h2 := h.once m
  omega

lemma exit_owned (h : Owned s) (hlive : (s.proc p).state = .live) :
    Outcome NotTwice (fun r => Counted r.1 → Owned r.1) (exit p s) := by
  unfold exit
  split
  · intro m hm
    cases hm
  · refine Outcome.bind (decRefCount_spec.imp (fun e he => he.2 fun m => h.drop_le) fun _ h => h)
      fun u hu hcounted => ?_
    have hused : (s.proc p).state ≠ .unused := by simp [hlive]
    have halike : ∀ q, Alike (s.proc q) ((u.proc q).abandon p) := by
      intro q
      rw [hu.proc]
      exact abandon_alike
    obtain ⟨o, ho⟩ := halike p
    obtain ⟨⟨h1, h2, h3⟩, h4⟩ := h.fits p hused
    refine h.dropped hu hlive hcounted rfl rfl rfl (fun q hq => ?_) (fun m => ?_) ?_ ?_
    · rw [set_other hq]
      exact halike q
    · simp only [set_self, ho]
      rw [owns_of_used hused]
      rfl
    · simp only [set_self, ho]
      exact ⟨⟨h1, h2, h3⟩, h4⟩
    · simp

lemma exec_owned (h : Owned s) (hlive : (s.proc p).state = .live) (htop : (s.proc p).top = KERNBASE) :
    Outcome NotTwice (fun r => Counted r.1 → Owned r.1) (exec p file argv s) := by
  have hused : (s.proc p).state ≠ .unused := by simp [hlive]
  have hfits := h.fits p hused
  have hbound := bound_eq (htop.trans kernbase_eq)
  have hself : ∀ u : State, u.proc = s.proc →
      ({ u.proc p with top := KERNBASE, keys := fun _ => false } : Proc) =
        { s.proc p with keys := fun _ => false } := by
    intro u hu
    rw [hu, ← htop]
  unfold exec
  refine Outcome.bind (decRefCount_spec.imp (fun e he => he.2 fun m => h.drop_le) fun _ h => h) fun u hu => ?_
  rw [hself u hu.proc]
  generalize hw : u.set p { s.proc p with keys := fun _ => false } = w
  have hproc : w.proc p = { s.proc p with keys := fun _ => false } := by rw [← hw, set_self]
  have hother : ∀ q ≠ p, w.proc q = s.proc q := fun q hq => by rw [← hw, set_other hq, hu.proc]
  have hfree : w.free = u.free := by rw [← hw]; rfl
  have htotal : ∀ m, u.free.count m + (if some (s.proc p).kstack = some m then 1 else 0) +
      (s.proc p).pgdir.base m + (s.proc p).pgdir.low UPAGES m ≤ 1 := by
    intro m
    have h1 := hu.total m
    have h2 := owns_le (s := s) (p := p) (m := m)
    have h3 := h.once m
    rw [owns_of_used hused, hbound] at h2
    omega
  refine outcome_lift ((execRest_spec (by rw [hproc]; exact htop)).imp
    (fun e he m hm => ?_) fun r hr hcounted => ?_)
  · refine he ⟨by rw [hproc]; exact hfits.formed, fun a => ?_⟩ m (by cases hm; rfl)
    have h1 := htotal a
    rw [hproc, hfree]
    simp only
    omega
  · obtain ⟨s', es⟩ := r
    have halike : ∀ q ≠ p, Alike (s.proc q) (w.proc q) := fun q hq => hother q hq ▸ .refl
    have hinner : ∀ g : Pgdir, g.Formed → ∀ v, UPAGES ≤ v → g.pte v = none := by
      intro g hg v hv
      by_contra hne
      have := (hg v hne).1
      omega
    cases hr with
    | failed free hcount =>
      refine h.dropped hu hlive hcounted (by rw [← hw]; rfl) (by rw [← hw]; rfl) (by rw [← hw]; rfl) halike
        (fun m => ?_) ?_ ?_
      · simp only [hcount m, hfree, hproc]
        rfl
      · simp only [hproc]
        exact ⟨⟨hfits.formed, hfits.top, hfits.bound⟩, hfits.sz⟩
      · intro _ v hv
        simp only [hproc] at hv ⊢
        exact hinner _ hfits.formed v (hbound ▸ hv)
    | done g sz free hg hsz hcount =>
      refine h.dropped hu hlive hcounted (by rw [← hw]; rfl) (by rw [← hw]; rfl) (by rw [← hw]; rfl)
        (fun q hq => ?_) (fun m => ?_) ?_ ?_
      · simp only [set_other hq]
        exact halike q hq
      · have h1 := hcount (by rw [hproc]; exact hfits.formed) m
        simp only [hproc, hfree, set_self] at h1 ⊢
        rw [owns_of_used hused, owns_of_used (x := ⟨_, _, _, g, _, _, _⟩) hused]
        simp only [Proc.bound] at hbound ⊢
        rw [hbound]
        omega
      · simp only [hproc, set_self]
        exact ⟨⟨hg, hfits.top, hfits.bound⟩, htop ▸ hsz⟩
      · intro _ v hv
        simp only [hproc, set_self] at hv ⊢
        exact hinner g hg v (hbound ▸ hv)

end LearnXv6.Shm
