import LearnXv6.Shm.Account
import LearnXv6.Shm.Model

/-! What failed calls leave: `exec`, which builds a new memory beside the old one, and `shmgetat`. -/
namespace LearnXv6.Shm
open Store

variable {g : Pgdir} {v n i sz top : ℕ} {free : List Page} {p : Slot} {s s' : State} {es : List Event}
  {file : Option Image} {argv : List ℕ}

lemma kernbase_eq : KERNBASE = UPAGES * PGSIZE := by decide

lemma loaduvm_spec {short : Option ℕ} :
    Outcome (fun e => ∀ m, e ≠ .twice m) (fun _ => True) (loaduvm g short n v i) := by
  induction n generalizing v i with
  | zero => trivial
  | succ n ih =>
    rw [loaduvm]
    split
    · intro _ h
      cases h
    · split
      · trivial
      · exact ih

lemma uva2ka_spec : Outcome (fun e => ∀ m, e ≠ .twice m) (fun _ => True) (uva2ka g v) := by
  unfold uva2ka
  split
  · intro _ h
    cases h
  · trivial

lemma copyout_spec {va len : ℕ} :
    Outcome (fun e => ∀ m, e ≠ .twice m) (fun _ => True) (copyout g n va len) := by
  induction n generalizing va len with
  | zero => trivial
  | succ n ih =>
    rw [copyout]
    split
    · trivial
    · refine uva2ka_spec.bind fun b _ => ?_
      cases b with
      | true => exact ih
      | false => trivial

lemma pushArgs_spec {l : List ℕ} {argc sp : ℕ} :
    Outcome (fun e => ∀ m, e ≠ .twice m) (fun _ => True) (pushArgs g l argc sp) := by
  induction l generalizing argc sp with
  | nil => trivial
  | cons len l ih =>
    rw [pushArgs]
    split
    · trivial
    · refine copyout_spec.bind fun b _ => ?_
      cases b with
      | true => exact ih
      | false => trivial

lemma pushStack_spec : Outcome (fun e => ∀ m, e ≠ .twice m) (fun _ => True) (pushStack g argv sz) := by
  unfold pushStack
  refine pushArgs_spec.bind fun o _ => ?_
  cases o with
  | none => trivial
  | some r => exact copyout_spec

/-- A page directory grows by pages of the free list, below KERNBASE. -/
structure Grown (g : Pgdir) (free : List Page) (r : Option ℕ × Pgdir × List Page) : Prop where
  formed : r.2.1.Formed
  total : ∀ x, r.2.2.count x + r.2.1.base x + r.2.1.low UPAGES x =
    free.count x + g.base x + g.low UPAGES x
  size : ∀ sz, r.1 = some sz → sz ≤ KERNBASE

lemma Grown.refl {o : Option ℕ} (hg : g.Formed) (ho : ∀ sz, o = some sz → sz ≤ KERNBASE) :
    Grown g free (o, g, free) := ⟨hg, fun _ => rfl, ho⟩

lemma Grown.of_alloced {r : Pgdir × List Page} {r' : Option ℕ × Pgdir × List Page}
    (h : Alloced UPAGES g free r) (h' : Grown r.1 r.2 r') : Grown g free r' :=
  ⟨h'.formed, fun x => (h'.total x).trans (h.total x), h'.size⟩

lemma loadSegments_spec {l : List (Option Segment)} (htop : top ≤ KERNBASE) (hg : g.Formed)
    (hsz : sz ≤ KERNBASE) : Outcome (Once (∀ x, free.count x + g.base x + g.low UPAGES x ≤ 1)) (Grown g free)
      (loadSegments top l sz g free) := by
  have ht := htop.trans kernbase_eq.le
  induction l generalizing sz g free with
  | nil =>
    refine .refl hg fun sz' h => ?_
    cases h
    exact hsz
  | cons o l ih =>
    cases o with
    | none => exact .refl hg (by simp)
    | some ph =>
      rw [loadSegments]
      split
      · exact ih hg hsz
      split
      · exact .refl hg (by simp)
      split
      · exact .refl hg (by simp)
      refine Outcome.bind (allocuvm_spec hg ht le_rfl) ?_
      rintro ⟨sz', g', free'⟩ ⟨hres, ha⟩
      have hbad : Grown g free (none, g', free') := .of_alloced ha (.refl ha.formed (by simp))
      dsimp only
      split
      · exact hbad
      split
      · exact hbad
      refine Outcome.bind (loaduvm_spec.imp (fun e he _ => he) fun _ h => h) fun b _ => ?_
      cases b with
      | false => exact hbad
      | true =>
        have hsz' : sz' ≤ KERNBASE := by
          rcases hres with h | ⟨h, _⟩ | ⟨h, _⟩
          · contradiction
          · exact h.trans htop
          · exact h.trans_le hsz
        refine (ih ha.formed hsz').imp (fun e he hpre => he fun x => ?_) fun r hr => .of_alloced ha hr
        have h1 := ha.total x
        have h2 := hpre x
        simp only at h1 ⊢
        omega

/-- The end of `buildImage`: the two pages for the stack and its guard, and the arguments. -/
def addStack (top : ℕ) (argv : List ℕ) (sz : ℕ) (g : Pgdir) (free : List Page) :
    Except Fault (Option ℕ × Pgdir × List Page) := do
  let (sz, g, free) ← allocuvm top g (pages sz * PGSIZE) (pages sz * PGSIZE + 2 * PGSIZE) free
  if sz = 0 then .ok (none, g, free)
  else do
    let g := { g with user := Function.update g.user (sz / PGSIZE - 2) false }
    if ← pushStack g argv sz then .ok (some sz, g, free) else .ok (none, g, free)

lemma addStack_spec (htop : top ≤ KERNBASE) (hg : g.Formed) :
    Outcome (Once (∀ x, free.count x + g.base x + g.low UPAGES x ≤ 1)) (Grown g free)
      (addStack top argv sz g free) := by
  refine Outcome.bind (allocuvm_spec hg (htop.trans kernbase_eq.le) le_rfl) ?_
  rintro ⟨sz', g', free'⟩ ⟨hres, h⟩
  dsimp only at hres ⊢
  split
  · exact ⟨h.formed, h.total, by simp⟩
  · refine Outcome.bind (pushStack_spec.imp (fun e he _ => he) fun _ h => h) fun b _ => ?_
    cases b with
    | false => exact ⟨h.formed, h.total, by simp⟩
    | true =>
      refine ⟨h.formed, h.total, fun sz'' h => ?_⟩
      cases h
      rcases hres with h | ⟨h, _⟩ | ⟨_, h⟩
      · contradiction
      · exact h.trans htop
      · omega

lemma buildImage_spec {im : Image} (htop : top ≤ KERNBASE) (hg : g.Formed) :
    Outcome (Once (∀ x, free.count x + g.base x + g.low UPAGES x ≤ 1)) (Grown g free)
      (buildImage top im argv g free) := by
  refine (loadSegments_spec htop hg (Nat.zero_le _)).bind ?_
  rintro ⟨o, g1, free1⟩ h1
  cases o with
  | none => exact ⟨h1.formed, h1.total, by simp⟩
  | some sz =>
    have hstack : Outcome _ (Grown g1 free1) (addStack top argv sz g1 free1) := addStack_spec htop h1.formed
    refine hstack.imp (fun e he hpre => he fun x => ?_)
      fun r hr => ⟨hr.formed, fun x => (hr.total x).trans (h1.total x), hr.size⟩
    have h2 := h1.total x
    have h3 := hpre x
    simp only at h2
    omega

lemma decRefCount_none (h : ∀ k, (s.proc p).keys k = false) : decRefCount p s = .ok s := by
  have hfold : ∀ l : List Key, l.foldlM (decKey p) s = .ok s := by
    intro l
    induction l with
    | nil => rfl
    | cons k l ih =>
      have hk : decKey p s k = .ok s := by simp [decKey, h k]
      rw [List.foldlM_cons, hk]
      exact ih
  exact hfold _

/-- The memory of the process, of the other ones and of the keys is as before, and so is the free list but for
its order. -/
def Unchanged (s s' : State) : Prop :=
  s'.proc = s.proc ∧ s'.refcount = s.refcount ∧ s'.numpages = s.numpages ∧ s'.pageaddr = s.pageaddr ∧
    s'.free.Perm s.free

lemma ok_of_outcome {ε α : Type} {E : ε → Prop} {P : α → Prop} {x : Except ε α} {a : α}
    (h : Outcome E P x) (hx : x = .ok a) : P a := by
  subst hx
  exact h

inductive Execed (p : Slot) (s : State) : State → List Event → Prop
  | failed (free : List Page) (hfree : ∀ x, free.count x = s.free.count x) :
      Execed p s { s with free := free } [.renewed p, .returned p (-1)]
  | done (g : Pgdir) (sz : ℕ) (free : List Page) (hg : g.Formed) (hsz : sz ≤ KERNBASE)
      (hfree : (s.proc p).pgdir.Formed → ∀ x, free.count x + g.base x + g.low UPAGES x =
        s.free.count x + (s.proc p).pgdir.base x + (s.proc p).pgdir.low UPAGES x) :
      Execed p s { s.set p { s.proc p with pgdir := g, sz := sz } with free := free }
        [.renewed p, .returned p 0]

lemma outcome_of_not {α : Type} {P : Prop} {x : Except Fault α} (h : ¬ P) :
    Outcome (Once P) (fun _ => True) x := by
  cases x with
  | ok a => trivial
  | error e => exact fun hp => absurd hp h

lemma execRest_spec (htop : (s.proc p).top = KERNBASE) :
    Outcome (Once ((s.proc p).pgdir.Formed ∧ ∀ x, s.free.count x + (s.proc p).pgdir.base x +
        (s.proc p).pgdir.low UPAGES x ≤ 1)) (fun r => Execed p s r.1 r.2) (execRest p file argv s) := by
  have ht := htop.trans kernbase_eq
  have hfail : ∀ free : List Page, (∀ x, free.count x = s.free.count x) →
      Execed p s { s with free := free } [.renewed p, .returned p (-1)] := fun free h => .failed free h
  unfold execRest
  cases file with
  | none => exact hfail s.free fun _ => rfl
  | some im =>
    dsimp only
    split
    · exact hfail s.free fun _ => rfl
    · refine Outcome.bind ((setupkvm_spec ht).imp (fun e he hpre => he fun x => ?_) fun _ h => h) ?_
      · have := hpre.2 x
        omega
      rintro ⟨o, free1⟩ h1
      cases o with
      | none => exact hfail free1 (h1.1 rfl)
      | some g =>
        have hfresh := h1.2 g rfl
        have hlow : ∀ x, g.low UPAGES x = 0 := fun x => places_none fun v _ => hfresh.pte v
        refine Outcome.bind ((buildImage_spec htop.le hfresh.formed).imp
          (fun e he hpre => he fun x => ?_) fun _ h => h) ?_
        · have h2 := hpre.2 x
          have h3 := hfresh.base x
          have h4 := hlow x
          simp only at h3 ⊢
          omega
        rintro ⟨r, g', free2⟩ hr
        have htotal : ∀ x, free2.count x + g'.base x + g'.low UPAGES x = s.free.count x := by
          intro x
          have h2 := hr.total x
          have h3 := hfresh.base x
          have h4 := hlow x
          simp only at h2 h3
          omega
        cases r with
        | none =>
          refine Outcome.bind ((freevm_spec hr.formed ht).imp
            (fun e he hpre => he fun x => ?_) fun _ h => h) fun w hw => hfail w fun x => ?_
          · have h2 := hpre.2 x
            have h3 := htotal x
            simp only
            omega
          · exact (hw x).trans (htotal x)
        | some sz =>
          -- the old memory is freed
          by_cases hold : (s.proc p).pgdir.Formed
          · refine Outcome.bind ((freevm_spec hold ht).imp
              (fun e he hpre => he fun x => ?_) fun _ h => h) fun w hw => ?_
            · have h2 := hpre.2 x
              have h3 := htotal x
              omega
            · refine .done g' sz w hr.formed (hr.size sz rfl) fun _ x => ?_
              have h2 := hw x
              have h3 := htotal x
              omega
          · exact (outcome_of_not fun h => hold h.1).bind fun w _ =>
              .done g' sz w hr.formed (hr.size sz rfl) fun h => absurd h hold

lemma lift_eq_ok {α : Type} {x : Except Fault α} {a : α} : lift x = .ok a ↔ x = .ok a := by
  cases x with
  | ok b | error f => simp [lift]

lemma exec_eq (h : exec p file argv s = .ok (s', es)) : ∃ s1, decRefCount p s = .ok s1 ∧
    Execed p (s1.set p { s1.proc p with top := KERNBASE, keys := fun _ => false }) s' es := by
  unfold exec at h
  obtain ⟨s1, hdec, h⟩ := bind_eq_ok.mp h
  have htop : ((s1.set p { s1.proc p with top := KERNBASE, keys := fun _ => false }).proc p).top =
      KERNBASE := by simp [State.set]
  have hrest := ok_of_outcome (execRest_spec htop) (lift_eq_ok.mp h)
  exact ⟨s1, hdec, hrest⟩

/-- A failed `exec` leaves everything as it was exactly if there was nothing to give up. -/
theorem failed_exec_unchanged (h : exec p file argv s = .ok (s', es)) (hes : .returned p (-1) ∈ es) :
    Unchanged s s' ↔ (s.proc p).top = KERNBASE ∧ ∀ k, (s.proc p).keys k = false := by
  obtain ⟨s₁, hdec, hex⟩ := exec_eq h
  cases hex with
  | done g sz free hg hsz hfree => simp at hes
  | failed free hfree =>
    constructor
    · rintro ⟨hproc, _⟩
      rw [← hproc]
      simp [State.set]
    · rintro ⟨htop, hkeys⟩
      rw [decRefCount_none hkeys] at hdec
      cases hdec
      have hsame : s.set p { s.proc p with top := KERNBASE, keys := fun _ => false } = s := by
        have hk := funext fun k => (hkeys k).symm
        rw [← htop, hk]
        exact congrArg (fun f => { s with proc := f }) (Function.update_eq_self p s.proc)
      rw [hsame] at hfree ⊢
      exact ⟨rfl, rfl, rfl, rfl, List.perm_iff_count.mpr hfree⟩

lemma step_exec (h : step (.exec p file argv) s = .ok (s', es)) : exec p file argv s = .ok (s', es) := by
  unfold step at h
  split at h
  · exact h
  · cases h

/-- The memory of the first process, one page. -/
def initPgdir : Pgdir where
  dir := 1
  tab i := if i = 0 then some 2 else if i ∈ kernelTables then some (1000 + i) else none
  pte v := if v = 0 then some 3 else none
  user _ := true

/-- The first process executes a path that leads to nothing. -/
theorem missing_path_unchanged : ∃ s' es, exec 0 none [] (boot 4 initPgdir [5, 6]) = .ok (s', es) ∧
    .returned 0 (-1) ∈ es ∧ Unchanged (boot 4 initPgdir [5, 6]) s' := by
  have hfail : .returned 0 (-1) ∈ eventsOf step (.exec 0 none []) (boot 4 initPgdir [5, 6]) := by
    decide +kernel
  obtain ⟨s', es, hstep, hmem⟩ := mem_eventsOf hfail
  exact ⟨s', es, step_exec hstep, hmem,
    (failed_exec_unchanged (step_exec hstep) hmem).mpr ⟨rfl, fun _ => rfl⟩⟩

/-- A process that shares a page executes a path that leads to nothing. -/
theorem missing_path_detaches : ∃ s s' es, Run step (fun _ _ => True) (boot 4 initPgdir [5, 6, 7]) [
    .attached 0 0 1 (KERNBASE - PGSIZE)] s ∧ exec 0 none [] s = .ok (s', es) ∧
    .returned 0 (-1) ∈ es ∧ ¬ Unchanged s s' := by
  obtain ⟨s, hrun, hkeys, hfail⟩ : ∃ s, Run step (fun _ _ => True) (boot 4 initPgdir [5, 6, 7])
      [.attached 0 0 1 (KERNBASE - PGSIZE)] s ∧ (s.proc 0).keys 0 = true ∧
      .returned 0 (-1) ∈ eventsOf step (.exec 0 none []) s :=
    Run.of_leads [.shmgetat 0 0 1] (by decide +kernel)
  obtain ⟨s', es, hstep, hmem⟩ := mem_eventsOf hfail
  refine ⟨s, s', es, hrun, step_exec hstep, hmem, fun hsame => ?_⟩
  obtain ⟨s₁, _, hex⟩ := exec_eq (step_exec hstep)
  cases hex with
  | done g sz free hg hsz hfree => simp at hmem
  | failed free hfree =>
    rw [← hsame.1] at hkeys
    simp [State.set] at hkeys

/-! What a failed `shmgetat` leaves behind. -/

variable {key num : ℤ} {k : Key} {m : Page}

/-- The call comes to the first `proc->top -= PGSIZE`. -/
def Begins (p : Slot) (k : Key) (n : ℕ) (s : State) : Prop :=
  if s.refcount k = 0 then s.free ≠ [] ∧ (s.proc p).sz ≤ sub32 (s.proc p).top (n * PGSIZE)
  else (s.proc p).keys k = false

/-- The boundary is some pages lower, at most `n`. -/
def Fell (p : Slot) (n : ℕ) (s s' : State) : Prop :=
  ∃ c < n, (s'.proc p).top = sub32 (s.proc p).top ((c + 1) * PGSIZE)

lemma mapTop_top {r : Bool × State} (h : lift (mapTop p m s) = .ok r) :
    (r.2.proc p).top = sub32 (s.proc p).top PGSIZE := by
  obtain ⟨⟨done, g, free⟩, -, hr⟩ := bind_eq_ok.mp (lift_eq_ok.mp h)
  cases hr
  simp [State.set]

lemma Fell.of_first {u : State} (hu : (u.proc p).top = sub32 (s.proc p).top PGSIZE)
    (h : s' = u ∨ Fell p n u s') : Fell p (n + 1) s s' := by
  rcases h with rfl | ⟨c, hc, htop⟩
  · exact ⟨0, by omega, by rw [hu, Nat.zero_add, Nat.one_mul]⟩
  · refine ⟨c + 1, by omega, ?_⟩
    rw [htop, hu]
    unfold sub32 PGSIZE
    omega

lemma attachNew_fell (h : attachNew p k n i s = .ok (false, s')) :
    s.free = [] ∧ s' = s ∨ s.free ≠ [] ∧ Fell p n s s' := by
  induction n generalizing i s with
  | zero => cases h
  | succ n ih =>
    rw [attachNew] at h
    cases hfree : s.free with
    | nil =>
      rw [hfree] at h
      cases h
      exact .inl ⟨rfl, rfl⟩
    | cons m free =>
      rw [hfree] at h
      obtain ⟨u, hset, h⟩ := bind_eq_ok.mp h
      obtain ⟨⟨done, v⟩, hmap, h⟩ := bind_eq_ok.mp h
      have htop : (v.proc p).top = sub32 (s.proc p).top PGSIZE := by
        rw [mapTop_top hmap]
        unfold setPage at hset
        obtain ⟨-, hset⟩ := then_eq_ok.mp hset
        cases hset
        rfl
      refine .inr ⟨by simp, .of_first htop ?_⟩
      cases done with
      | false =>
        cases h
        exact .inl rfl
      | true =>
        rcases ih h with hv | hv
        · exact .inl hv.2
        · exact .inr hv.2

lemma attachOld_fell (h : attachOld p k n i s = .ok (false, s')) : Fell p n s s' := by
  induction n generalizing i s with
  | zero => cases h
  | succ n ih =>
    obtain ⟨m, -, h⟩ := bind_eq_ok.mp h
    obtain ⟨⟨done, v⟩, hmap, h⟩ := bind_eq_ok.mp h
    refine .of_first (mapTop_top hmap) ?_
    cases done with
    | false =>
      cases h
      exact .inl rfl
    | true => exact .inr (ih h)

lemma Fell.top_ne (h : Fell p n s s') (hn : n ≤ NKEYPAGES) : (s'.proc p).top ≠ (s.proc p).top := by
  obtain ⟨c, hc, htop⟩ := h
  have hc4 : c < 4 := hc.trans_le hn
  rw [htop]
  unfold sub32 PGSIZE
  omega

lemma shmgetatKey_cases (h : shmgetatKey p k n s = .ok (s', [.returned p 0])) :
    ¬ Begins p k n s ∧ s' = s ∨ Begins p k n s ∧ Fell p n s s' := by
  unfold shmgetatKey at h
  unfold Begins
  dsimp only at h
  split at h
  · rename_i hcount
    rw [if_pos hcount]
    split at h
    · rename_i hroom
      cases h
      exact .inl ⟨fun hb => absurd hb.2 (not_le.mpr hroom), rfl⟩
    · rename_i hroom
      obtain ⟨⟨done, u⟩, hloop, h⟩ := bind_eq_ok.mp h
      cases done with
      | true => cases h
      | false =>
        cases h
        rcases attachNew_fell hloop with hf | hf
        · exact .inl ⟨fun hb => hb.1 hf.1, hf.2⟩
        · exact .inr ⟨⟨hf.1, not_lt.mp hroom⟩, hf.2⟩
  · rename_i hcount
    rw [if_neg hcount]
    split at h
    · rename_i hkey
      obtain ⟨⟨done, u⟩, hloop, h⟩ := bind_eq_ok.mp h
      cases done with
      | true => cases h
      | false =>
        cases h
        exact .inr ⟨hkey, attachOld_fell hloop⟩
    · rename_i hkey
      cases h
      exact .inl ⟨hkey, rfl⟩

lemma Unchanged.refl : Unchanged s s := ⟨rfl, rfl, rfl, rfl, .refl _⟩

/-- A failed `shmgetat` leaves everything as it was exactly if it fails before it lowers the boundary. -/
theorem failed_shmgetat_unchanged (h : shmgetat p key num s = .ok (s', [.returned p 0])) :
    (Unchanged s s' ↔ ∀ k : Key, k = key → 1 ≤ num → num ≤ NKEYPAGES → ¬ Begins p k num.toNat s) ∧
      (Unchanged s s' ∨ (s'.proc p).top ≠ (s.proc p).top) := by
  unfold shmgetat at h
  split at h
  · cases h
    refine ⟨iff_of_true .refl fun k hk => ?_, .inl .refl⟩
    omega
  split at h
  · cases h
    exact ⟨iff_of_true .refl fun k _ h1 h4 => by omega, .inl .refl⟩
  obtain ⟨k, hk, h⟩ := bind_eq_ok.mp h
  have hkey : (k : ℤ) = key := by
    unfold slotOf at hk
    split at hk
    · cases hk
      simp only
      omega
    · cases hk
  rcases shmgetatKey_cases h with ⟨hb, rfl⟩ | ⟨hb, hfell⟩
  · refine ⟨iff_of_true .refl fun k' hk' _ _ => ?_, .inl .refl⟩
    obtain rfl : k' = k := Fin.ext (by omega)
    exact hb
  · have hne := hfell.top_ne (by omega)
    exact ⟨iff_of_false (fun hu => hne (by rw [hu.1])) fun hall => hall k hkey (by omega) (by omega) hb,
      .inr hne⟩

/-- The first process asks for two pages when none is free. -/
theorem no_memory_unchanged : ∃ s', shmgetat 0 0 2 (boot 4 initPgdir []) = .ok (s', [.returned 0 0]) ∧
    Unchanged (boot 4 initPgdir []) s' := by
  obtain ⟨⟨s', es⟩, hs, rfl⟩ := map_eq_ok.mp (show (·.2) <$> shmgetat 0 0 2 (boot 4 initPgdir []) =
    .ok [.returned 0 0] by decide +kernel)
  refine ⟨s', hs, (failed_shmgetat_unchanged hs).1.mpr fun k _ _ _ hb => ?_⟩
  exact hb.1 rfl

/-- The first process asks for two pages when there is one and one for the page table: both are gone. -/
theorem one_page_lost : (fun r => ((r.1.proc 0).top, r.1.free, (r.1.proc 0).pgdir.pte (UPAGES - 1), r.2)) <$>
    shmgetat 0 0 2 (boot 4 initPgdir [5, 6]) = .ok (KERNBASE - PGSIZE, [], some 5, [.returned 0 0]) := by
  decide +kernel

end LearnXv6.Shm
