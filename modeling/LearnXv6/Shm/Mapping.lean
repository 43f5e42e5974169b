import LearnXv6.Shm.Counts

/-! What the loops of `shmgetat` map and where. -/
namespace LearnXv6.Shm
open Function Store

variable {s s' u : State} {p q : Slot} {k : Key} {x y : Proc} {n i c : ℕ} {m : Page} {r : Bool × State}

/-- The first page of the part that `freevm` leaves alone. -/
def Proc.bound (x : Proc) : ℕ := x.top / PGSIZE

/-- The pages that the slot has for itself: the stack of the kernel, the page tables and the memory below
`top`. -/
def Proc.owns (x : Proc) (m : Page) : ℕ :=
  if x.state = .unused then 0
  else (if some x.kstack = some m then 1 else 0) + x.pgdir.base m + x.pgdir.low x.bound m

/-- The memory of a process is well formed. -/
structure Proc.Laid (x : Proc) : Prop where
  formed : x.pgdir.Formed
  top : x.top = x.bound * PGSIZE
  bound : x.bound ≤ UPAGES

lemma bound_eq (h : x.top = n * PGSIZE) : x.bound = n := by
  rw [Proc.bound, h]
  exact Nat.mul_div_cancel n (by decide)

lemma owns_of_used (h : x.state ≠ .unused) :
    x.owns m = (if some x.kstack = some m then 1 else 0) + x.pgdir.base m + x.pgdir.low x.bound m :=
  if_neg h

/-- The top of a process goes down by `c` pages. -/
structure Lowered (p : Slot) (c : ℕ) (s s' : State) : Prop where
  other : ∀ q ≠ p, s'.proc q = s.proc q
  state : (s'.proc p).state = (s.proc p).state
  sz : (s'.proc p).sz = (s.proc p).sz
  keys : (s'.proc p).keys = (s.proc p).keys
  refcount : s'.refcount = s.refcount
  numpages : s'.numpages = s.numpages
  laid : (s'.proc p).Laid
  bound : (s'.proc p).bound + c = (s.proc p).bound
  high : ∀ v, (s.proc p).bound ≤ v → (s'.proc p).pgdir.pte v = (s.proc p).pgdir.pte v

lemma Lowered.trans {c' : ℕ} (h : Lowered p c s u) (h' : Lowered p c' u s') : Lowered p (c' + c) s s' := by
  have hb := h.bound
  have hb' := h'.bound
  exact ⟨fun q hq => (h'.other q hq).trans (h.other q hq), h'.state.trans h.state, h'.sz.trans h.sz,
    h'.keys.trans h.keys, h'.refcount.trans h.refcount, h'.numpages.trans h.numpages, h'.laid, by omega,
    fun v hv => (h'.high v (by omega)).trans (h.high v hv)⟩

@[simp] lemma set_self : (s.set p y).proc p = y := by simp [State.set]

@[simp] lemma set_other (h : q ≠ p) : (s.set p y).proc q = s.proc q := by
  simp [State.set, update_of_ne h]

lemma Lowered.set {free : List Page} (hstate : y.state = (s.proc p).state) (hsz : y.sz = (s.proc p).sz)
    (hkeys : y.keys = (s.proc p).keys) (hlaid : y.Laid) (hbound : y.bound + c = (s.proc p).bound)
    (hhigh : ∀ v, (s.proc p).bound ≤ v → y.pgdir.pte v = (s.proc p).pgdir.pte v) :
    Lowered p c s { s.set p y with free := free } := by
  refine ⟨fun q hq => set_other hq, ?_, ?_, ?_, rfl, rfl, ?_, ?_, ?_⟩
  all_goals simpa only [set_self]

lemma sub32_eq {a b : ℕ} (hb : b ≤ a) (ha : a < 2 ^ 32) : sub32 a b = a - b := by
  unfold sub32
  omega

/-- What `mapTop` does with the page `m`. -/
structure MappedTop (p : Slot) (m : Page) (s : State) (r : Bool × State) : Prop
    extends Lowered p 1 s r.2 where
  pageaddr : r.2.pageaddr = s.pageaddr
  owns : ∀ x, r.2.free.count x + (r.2.proc p).owns x = s.free.count x + (s.proc p).owns x
  tab : ∀ i, (s.proc p).pgdir.tab i ≠ none → (r.2.proc p).pgdir.tab i ≠ none
  done : r.1 = true → (r.2.proc p).pgdir.pte (r.2.proc p).bound = some m
  failed : r.1 = false → (s.proc p).pgdir.tab ((r.2.proc p).bound / NPDENTRIES) = none ∧
    (r.2.proc p).pgdir.pte (r.2.proc p).bound = none

lemma mapTop_spec (hx : (s.proc p).Laid) (hused : (s.proc p).state ≠ .unused)
    (hpos : PGSIZE ≤ (s.proc p).top) :
    Outcome (fun e => ∀ m, e ≠ .twice m) (MappedTop p m s) (mapTop p m s) := by
  obtain ⟨b, hb⟩ : ∃ b, (s.proc p).bound = b + 1 := by
    refine Nat.exists_eq_succ_of_ne_zero fun h => ?_
    have := hx.top
    rw [h] at this
    unfold PGSIZE at hpos
    omega
  have hle := hx.bound
  have htop : sub32 (s.proc p).top PGSIZE = b * PGSIZE := by
    rw [hx.top, hb]
    unfold UPAGES at hle
    unfold PGSIZE at *
    rw [sub32_eq (by omega) (by omega)]
    omega
  have hdiv : b * PGSIZE / PGSIZE = b := Nat.mul_div_cancel b (by decide)
  unfold mapTop
  dsimp only
  rw [htop, hdiv]
  refine (mappages_spec hx.formed (by omega)).bind fun r hr => ?_
  obtain ⟨done, g, free⟩ := r
  have hbound : ({ s.proc p with pgdir := g, top := b * PGSIZE } : Proc).bound = b := bound_eq rfl
  have hlow : ∀ x, g.low b x = (s.proc p).pgdir.low (b + 1) x := by
    intro x
    have hnone := low_eq (Nat.le_succ b) (fun v hv hv' => by
        have hvb : v = b := by omega
        rw [hvb, hr.none]) x
    rw [hnone]
    refine places_congr fun v hv => ?_
    have hvb : v ≠ b := (Finset.mem_range.mp hv).ne
    cases done with
    | true =>
      have hpte := hr.done rfl
      rw [hpte, update_of_ne hvb]
    | false =>
      have hpte := (hr.failed rfl).2
      rw [hpte]
  have hhigh : ∀ v, v ≠ b → g.pte v = (s.proc p).pgdir.pte v := by
    intro v hvb
    cases done with
    | true =>
      have hpte := hr.done rfl
      rw [hpte, update_of_ne hvb]
    | false =>
      have hpte := (hr.failed rfl).2
      rw [hpte]
  generalize hy : ({ s.proc p with pgdir := g, top := b * PGSIZE } : Proc) = y at hbound ⊢
  have hg : y.pgdir = g := by rw [← hy]
  have hstate : y.state = (s.proc p).state := by rw [← hy]
  have hlaid : y.Laid := ⟨hg ▸ hr.formed, by rw [hbound, ← hy], by rw [hbound]; omega⟩
  have hlowered : Lowered p 1 s { s.set p y with free := free } :=
    .set hstate (by rw [← hy]) (by rw [← hy]) hlaid (by omega)
      fun v hv => hg ▸ hhigh v (by omega)
  refine ⟨hlowered, rfl, ?_, ?_, ?_, ?_⟩
  all_goals simp only [set_self, hg, hbound]
  · intro x
    have hbase := hr.base x
    have hkstack : y.kstack = (s.proc p).kstack := by rw [← hy]
    simp only at hbase
    rw [owns_of_used hused, owns_of_used (hstate.trans_ne hused), hbound, hb, hg, hkstack, hlow]
    omega
  · exact hr.tab
  · intro h
    have hpte := hr.done h
    rw [hpte, update_self]
  · intro h
    have hpte := hr.failed h
    exact ⟨hpte.1, by rw [hpte.2, hr.none]⟩

/-- The loops of `shmgetat` have mapped `c` pages of the key, from the page `i` on, or tried to. -/
structure Attached (p : Slot) (k : Key) (i c : ℕ) (s : State) (r : Bool × State) : Prop
    extends Lowered p c s r.2 where
  other_key : ∀ k' ≠ k, r.2.pageaddr k' = s.pageaddr k'
  rest : ∀ j, j < i ∨ i + c ≤ j → r.2.pageaddr k j = s.pageaddr k j
  mapped : ∀ v m, (r.2.proc p).bound ≤ v → v < (s.proc p).bound → (r.2.proc p).pgdir.pte v = some m →
    ∃ j < c, m = r.2.pageaddr k (i + j)
  done : r.1 = true → ∀ j < c,
    (r.2.proc p).pgdir.pte ((s.proc p).bound - 1 - j) = some (r.2.pageaddr k (i + j))

lemma Attached.refl {b : Bool} (hx : (s.proc p).Laid) : Attached p k i 0 s (b, s) :=
  ⟨⟨fun _ _ => rfl, rfl, rfl, rfl, rfl, rfl, hx, rfl, fun _ _ => rfl⟩, fun _ _ => rfl, fun _ _ => rfl,
    fun v m hv hv' => by simp only at hv; omega, by simp⟩

/-- One page, whose address is recorded. -/
structure First (p : Slot) (k : Key) (i : ℕ) (m : Page) (s : State) (r : Bool × State) : Prop
    extends Lowered p 1 s r.2 where
  other_key : ∀ k' ≠ k, r.2.pageaddr k' = s.pageaddr k'
  rest : ∀ j, j ≠ i → r.2.pageaddr k j = s.pageaddr k j
  here : r.2.pageaddr k i = m
  done : r.1 = true → (r.2.proc p).pgdir.pte (r.2.proc p).bound = some m
  failed : r.1 = false → (r.2.proc p).pgdir.pte (r.2.proc p).bound = none

lemma First.attached (h : First p k i m s (false, u)) : Attached p k i 1 s (false, u) := by
  refine ⟨h.toLowered, h.other_key, fun j hj => h.rest j (by omega), fun v m' hv hv' hpte => ?_, by simp⟩
  have hb := h.bound
  have hnone := h.failed rfl
  simp only at hb hnone hv hpte
  have hvb : v = (u.proc p).bound := by omega
  rw [hvb, hnone] at hpte
  cases hpte

lemma First.cons (h : First p k i m s (true, u)) (h' : Attached p k (i + 1) c u r) :
    Attached p k i (c + 1) s r := by
  have hb := h.bound
  have hb' := h'.bound
  have hdone := h.done rfl
  have hhere := (h'.rest i (by omega)).trans h.here
  simp only at hb hdone
  have hpte := (h'.high _ le_rfl).trans hdone
  refine ⟨h.toLowered.trans h'.toLowered, fun k' hk' => (h'.other_key k' hk').trans (h.other_key k' hk'),
    fun j hj => (h'.rest j (by omega)).trans (h.rest j (by omega)), fun v m' hv hv' hm' => ?_,
    fun hr j hj => ?_⟩
  · by_cases hvb : v < (u.proc p).bound
    · obtain ⟨j, hj, hm⟩ := h'.mapped v m' hv hvb hm'
      exact ⟨j + 1, by omega, by rw [hm]; congr 1; omega⟩
    · have hvb' : v = (u.proc p).bound := by omega
      rw [hvb', hpte] at hm'
      cases hm'
      exact ⟨0, by omega, hhere.symm⟩
  · cases j with
    | zero =>
      have hv : (s.proc p).bound - 1 - 0 = (u.proc p).bound := by omega
      rw [hv, hpte]
      exact congrArg some hhere.symm
    | succ j =>
      have hv : (s.proc p).bound - 1 - (j + 1) = (u.proc p).bound - 1 - j := by omega
      have hij : i + (j + 1) = i + 1 + j := by omega
      rw [hv, hij]
      exact h'.done hr j (by omega)

/-- No page is freed that is free. -/
def NotTwice (e : Stop) : Prop := ∀ m, e ≠ .fault (.twice m)

lemma lift_notTwice {α : Type} {P : α → Prop} {f : Except Fault α}
    (h : Outcome (fun e => ∀ m, e ≠ .twice m) P f) : Outcome NotTwice P (lift f) :=
  outcome_lift (h.imp (fun e he m hm => he m (by cases hm; rfl)) fun _ h => h)

/-- The pages that `attachNew` has recorded. -/
def State.recorded (s : State) (k : Key) (i c : ℕ) (m : Page) : ℕ :=
  places (Finset.range c) (fun j => some (s.pageaddr k (i + j))) m

lemma recorded_succ : s.recorded k i (c + 1) m =
    s.recorded k (i + 1) c m + if some (s.pageaddr k i) = some m then 1 else 0 := by
  unfold State.recorded places
  rw [Finset.sum_range_succ']
  congr 1
  refine Finset.sum_congr rfl fun j _ => ?_
  have hij : i + (j + 1) = i + 1 + j := by omega
  simp only [hij]

lemma Lowered.room (h : Lowered p 1 s u) (hx : (s.proc p).Laid)
    (hroom : (n + 1) * PGSIZE ≤ (s.proc p).top) : n * PGSIZE ≤ (u.proc p).top := by
  rw [hx.top, ← h.bound] at hroom
  rw [h.laid.top]
  have hle := Nat.le_of_mul_le_mul_right hroom (by decide)
  exact Nat.mul_le_mul_right PGSIZE (by omega)

variable (hx : (s.proc p).Laid) (hused : (s.proc p).state ≠ .unused) (hroom : n * PGSIZE ≤ (s.proc p).top)
include hx hused hroom

lemma attachNew_spec :
    Outcome NotTwice (fun r => ∃ c ≤ n, (r.1 = true → c = n) ∧ Attached p k i c s r ∧ ∀ m,
        r.2.free.count m + (r.2.proc p).owns m + r.2.recorded k i c m = s.free.count m + (s.proc p).owns m)
      (attachNew p k n i s) := by
  induction n generalizing i s with
  | zero =>
    exact ⟨0, le_rfl, fun _ => rfl, .refl hx, fun m => by simp [State.recorded, places]⟩
  | succ n ih =>
    rw [attachNew]
    split
    · exact ⟨0, by omega, by simp, .refl hx, fun m => by simp [State.recorded, places]⟩
    · rename_i m free hfree
      have hcons := kalloc_eq hfree
      unfold setPage
      split
      · -- the page is recorded before it is mapped
        generalize hw : ({ s with
          free := free, pageaddr := update s.pageaddr k (update (s.pageaddr k) i m) } :
          State) = w
        have hproc : w.proc p = s.proc p := by rw [← hw]
        have hcount : ∀ a, s.free.count a = w.free.count a + if some m = some a then 1 else 0 := by
          intro a
          rw [hcons, count_cons_add, ← hw]
        refine (lift_notTwice (mapTop_spec (hproc ▸ hx) (hproc ▸ hused) ?_)).bind fun r hr => ?_
        · rw [hproc]
          unfold PGSIZE at *
          omega
        obtain ⟨b, u⟩ := r
        have hlow : Lowered p 1 s u := by
          have h := hr.toLowered
          rw [← hw] at h
          exact ⟨h.other, h.state, h.sz, h.keys, h.refcount, h.numpages, h.laid, h.bound, h.high⟩
        have hfirst : First p k i m s (b, u) := by
          have hpa := hr.pageaddr
          simp only [← hw] at hpa
          refine ⟨hlow, fun k' hk' => ?_, fun j hj => ?_, ?_, hr.done, fun h => (hr.failed h).2⟩
          · simp only [hpa, update_of_ne hk']
          · simp only [hpa, update_self, update_of_ne hj]
          · simp only [hpa, update_self]
        have howns : ∀ a, u.free.count a + (u.proc p).owns a + (if some m = some a then 1 else 0) =
            s.free.count a + (s.proc p).owns a := by
          intro a
          have h1 := hr.owns a
          have h2 := hcount a
          rw [hproc] at h1
          simp only at h1
          omega
        cases b with
        | false =>
          refine ⟨1, by omega, by simp, hfirst.attached, fun a => ?_⟩
          have h1 := howns a
          have h2 := recorded_succ (s := u) (k := k) (i := i) (c := 0) (m := a)
          have hhere := hfirst.here
          rw [hhere] at h2
          have h3 : u.recorded k (i + 1) 0 a = 0 := by simp [State.recorded, places]
          simp only [zero_add] at h2 ⊢
          omega
        | true =>
          refine (ih hlow.laid (hlow.state.trans_ne hused) (hlow.room hx hroom)).mono fun r' hr' => ?_
          obtain ⟨c, hc, hdone, hatt, htotal⟩ := hr'
          refine ⟨c + 1, by omega, fun h => by rw [hdone h], hfirst.cons hatt, fun a => ?_⟩
          have h1 := howns a
          have h2 := htotal a
          have h3 := (hatt.rest i (by omega)).trans hfirst.here
          rw [recorded_succ, h3]
          omega
      · intro m h
        cases h

lemma attachOld_spec : Outcome NotTwice
      (fun r => ∃ c ≤ n, (r.1 = true → c = n) ∧ Attached p k i c s r ∧ r.2.pageaddr = s.pageaddr ∧ ∀ m,
        r.2.free.count m + (r.2.proc p).owns m = s.free.count m + (s.proc p).owns m)
      (attachOld p k n i s) := by
  induction n generalizing i s with
  | zero => exact ⟨0, le_rfl, fun _ => rfl, .refl hx, rfl, fun _ => rfl⟩
  | succ n ih =>
    rw [attachOld, getPage]
    split
    · refine (lift_notTwice (mapTop_spec hx hused ?_)).bind fun r hr => ?_
      · unfold PGSIZE at *
        omega
      obtain ⟨b, u⟩ := r
      have hpa := hr.pageaddr
      have hfirst : First p k i (s.pageaddr k i) s (b, u) :=
        ⟨hr.toLowered, fun k' _ => congrFun hpa k', fun j _ => congrFun (congrFun hpa k) j,
          congrFun (congrFun hpa k) i, hr.done, fun h => (hr.failed h).2⟩
      cases b with
      | false => exact ⟨1, by omega, by simp, hfirst.attached, hpa, hr.owns⟩
      | true =>
        have hlow := hr.toLowered
        refine (ih hlow.laid (hlow.state.trans_ne hused) (hlow.room hx hroom)).mono fun r' hr' => ?_
        obtain ⟨c, hc, hdone, hatt, haddr, htotal⟩ := hr'
        exact ⟨c + 1, by omega, fun h => by rw [hdone h], hfirst.cons hatt, haddr.trans hpa,
          fun a => (htotal a).trans (hr.owns a)⟩
    · intro m h
      cases h

lemma attachOld_done {d : ℕ} (htab : (s.proc p).pgdir.tab d ≠ none)
    (hd : ∀ v, (s.proc p).bound - n ≤ v → v < (s.proc p).bound → v / NPDENTRIES = d) :
    Outcome (fun _ => True) (fun r => r.1 = true) (attachOld p k n i s) := by
  induction n generalizing i s with
  | zero => rfl
  | succ n ih =>
    rw [attachOld, getPage]
    split
    · refine (outcome_lift ((mapTop_spec hx hused ?_).imp (fun _ _ => trivial)
        fun _ h => h)).bind fun r hr => ?_
      · unfold PGSIZE at *
        omega
      have hb := hr.bound
      have hlow := hr.toLowered
      have hfailed := hr.failed
      obtain ⟨b, u⟩ := r
      simp only at hb hlow hfailed
      cases b with
      | false =>
        have hnone := (hfailed rfl).1
        rw [hd _ (by omega) (by omega)] at hnone
        exact absurd hnone htab
      | true =>
        exact ih hlow.laid (hlow.state.trans_ne hused) (hlow.room hx hroom) (hr.tab d htab)
          fun v hv hv' => hd v (by omega) (by omega)
    · trivial

lemma attachOld_failed {b : Bool}
    (hone : ((s.proc p).bound - 1) / NPDENTRIES = ((s.proc p).bound - n) / NPDENTRIES)
    (h : attachOld p k n i s = .ok (b, s')) :
    b = true ∨ ∀ v, (s'.proc p).bound ≤ v → v < (s.proc p).bound → (s'.proc p).pgdir.pte v = none := by
  cases n with
  | zero =>
    cases h
    exact .inl rfl
  | succ n =>
    rw [attachOld] at h
    obtain ⟨m, _, h⟩ := bind_eq_ok.mp h
    obtain ⟨⟨b1, u⟩, hmap, h⟩ := bind_eq_ok.mp h
    have hpos : PGSIZE ≤ (s.proc p).top := by
      unfold PGSIZE at *
      omega
    have hr := ok_of_outcome (mapTop_spec hx hused hpos) (lift_eq_ok.mp hmap)
    have hb := hr.bound
    simp only at hb
    cases b1 with
    | false =>
      cases h
      refine .inr fun v hv hv' => ?_
      have hvb : v = (s'.proc p).bound := by omega
      rw [hvb]
      exact (hr.failed rfl).2
    | true =>
      -- the page table is there now, and the other pages are in it
      have hlow := hr.toLowered
      have hpte := hr.done rfl
      simp only at hlow hpte
      have htab := (hlow.laid.formed (u.proc p).bound (by simp [hpte])).2
      refine .inl ((ok_of_outcome (attachOld_done hlow.laid (hlow.state.trans_ne hused)
        (hlow.room hx hroom) htab fun v hv hv' => ?_) h :))
      have hup : v / NPDENTRIES ≤ (u.proc p).bound / NPDENTRIES := Nat.div_le_div_right hv'.le
      have hdown : ((s.proc p).bound - (n + 1)) / NPDENTRIES ≤ v / NPDENTRIES :=
        Nat.div_le_div_right (by omega)
      have heq : (s.proc p).bound - 1 = (u.proc p).bound := by omega
      rw [heq] at hone
      omega

end LearnXv6.Shm
