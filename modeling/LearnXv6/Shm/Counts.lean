import LearnXv6.Shm.Exec
import LearnXv6.Shm.Keys
import LearnXv6.Store.Pool
import LearnXv6.Store.Timeline

/-! The reference counts of the keys. -/
namespace LearnXv6.Shm
open Function Store Proc

variable {s s' u : State} {p q : Slot} {k : Key} {x y : Proc} {n i : ℕ} {es : List Event} {m : Page}
  {done : Bool} {file : Option Image} {argv : List ℕ}

/-- A process that has not exited uses the key. -/
def Proc.uses (k : Key) (x : Proc) : Option Key := if x.state = .live ∧ x.keys k = true then some k else none

/-- The number of processes that use the key. -/
def State.users (s : State) (k : Key) : ℕ := tally (Proc.uses k) s.proc k

lemma uses_of_ne (h : x.state ≠ .live) : x.uses k = none := by simp [uses, h]

lemma uses_eq (h : y.state = x.state) (hk : y.keys = x.keys) : y.uses k = x.uses k := by
  rw [uses, uses, h, hk]

/-- The counts are right, and the keys have no more pages than there is room for. -/
structure Counted (s : State) : Prop where
  count : ∀ k, s.refcount k = s.users k
  pages : ∀ k, s.numpages k ≤ NKEYPAGES

structure Kept (s s' : State) : Prop where
  refcount : s'.refcount = s.refcount
  numpages : s'.numpages = s.numpages
  uses : ∀ q k, (s'.proc q).uses k = (s.proc q).uses k

lemma Kept.refl : Kept s s := ⟨rfl, rfl, fun _ _ => rfl⟩

lemma Kept.trans (h : Kept s u) (h' : Kept u s') : Kept s s' :=
  ⟨h'.refcount.trans h.refcount, h'.numpages.trans h.numpages, fun q k => (h'.uses q k).trans (h.uses q k)⟩

lemma users_congr (h : ∀ q, (s'.proc q).uses k = (s.proc q).uses k) : s'.users k = s.users k := by
  simp only [State.users, tally, h]

lemma Kept.counted (h : Kept s s') (hs : Counted s) : Counted s' := by
  refine ⟨fun k => ?_, fun k => ?_⟩
  · rw [h.refcount, hs.count k, users_congr fun q => h.uses q k]
  · rw [h.numpages]
    exact hs.pages k

lemma Kept.set (hy : ∀ k, y.uses k = (s.proc p).uses k) : Kept s (s.set p y) := by
  refine ⟨rfl, rfl, fun q k => ?_⟩
  by_cases hq : q = p
  · subst hq
    simpa [State.set] using hy k
  · simp [State.set, update_of_ne hq]

structure Same (s s' : State) : Prop where
  refcount : s'.refcount = s.refcount
  numpages : s'.numpages = s.numpages
  state : ∀ q, (s'.proc q).state = (s.proc q).state
  keys : ∀ q, (s'.proc q).keys = (s.proc q).keys

lemma Same.refl : Same s s := ⟨rfl, rfl, fun _ => rfl, fun _ => rfl⟩

lemma Same.trans (h : Same s u) (h' : Same u s') : Same s s' :=
  ⟨h'.refcount.trans h.refcount, h'.numpages.trans h.numpages,
    fun q => (h'.state q).trans (h.state q), fun q => (h'.keys q).trans (h.keys q)⟩

lemma Same.kept (h : Same s s') : Kept s s' :=
  ⟨h.refcount, h.numpages, fun q _ => uses_eq (h.state q) (h.keys q)⟩

lemma Same.set {free : List Page} (hstate : y.state = (s.proc p).state)
    (hkeys : y.keys = (s.proc p).keys) : Same s { s.set p y with free := free } := by
  refine ⟨rfl, rfl, fun q => ?_, fun q => ?_⟩
  · by_cases hq : q = p
    · subst hq
      simpa [State.set] using hstate
    · simp [State.set, update_of_ne hq]
  · by_cases hq : q = p
    · subst hq
      simpa [State.set] using hkeys
    · simp [State.set, update_of_ne hq]

lemma mapTop_same (h : mapTop p m s = .ok (done, s')) : Same s s' := by
  unfold mapTop at h
  obtain ⟨⟨b, g, free⟩, _, h⟩ := bind_eq_ok.mp h
  cases h
  exact .set rfl rfl

lemma attachOld_same (h : attachOld p k n i s = .ok (done, s')) : Same s s' := by
  induction n generalizing i s with
  | zero =>
    cases h
    exact .refl
  | succ n ih =>
    rw [attachOld] at h
    obtain ⟨m, hm, h⟩ := bind_eq_ok.mp h
    obtain ⟨⟨b, u⟩, hmap, h⟩ := bind_eq_ok.mp h
    have hfirst := mapTop_same (lift_eq_ok.mp hmap)
    dsimp only at h
    split at h
    · exact hfirst.trans (ih h)
    · cases h
      exact hfirst

lemma attachNew_same (h : attachNew p k n i s = .ok (done, s')) : Same s s' := by
  induction n generalizing i s with
  | zero =>
    cases h
    exact .refl
  | succ n ih =>
    rw [attachNew] at h
    split at h
    · cases h
      exact .refl
    · obtain ⟨w, hw, h⟩ := bind_eq_ok.mp h
      obtain ⟨⟨b, u⟩, hmap, h⟩ := bind_eq_ok.mp h
      have hfirst : Same s w := by
        unfold setPage at hw
        obtain ⟨-, hw⟩ := then_eq_ok.mp hw
        cases hw
        exact ⟨rfl, rfl, fun _ => rfl, fun _ => rfl⟩
      have hsecond := hfirst.trans (mapTop_same (lift_eq_ok.mp hmap))
      dsimp only at h
      split at h
      · exact hsecond.trans (ih h)
      · cases h
        exact hsecond

/-- The index of no array is out of range. -/
def InArray (e : Stop) : Prop := ∀ i, e ≠ .index i

lemma lift_inArray {α : Type} {f : Except Fault α} : Outcome InArray (fun a => f = .ok a) (lift f) := by
  cases f with
  | ok a => rfl
  | error e =>
    intro i h
    cases h

lemma attachOld_inArray (h : i + n ≤ NKEYPAGES) :
    Outcome InArray (fun _ => True) (attachOld p k n i s) := by
  induction n generalizing i s with
  | zero => trivial
  | succ n ih =>
    rw [attachOld, getPage, if_pos (by omega)]
    refine lift_inArray.bind fun r _ => ?_
    obtain ⟨b, u⟩ := r
    cases b with
    | true => exact ih (by omega)
    | false => trivial

lemma attachNew_inArray (h : i + n ≤ NKEYPAGES) :
    Outcome InArray (fun _ => True) (attachNew p k n i s) := by
  induction n generalizing i s with
  | zero => trivial
  | succ n ih =>
    rw [attachNew]
    split
    · trivial
    · rw [setPage, if_pos (by omega)]
      refine lift_inArray.bind fun r _ => ?_
      obtain ⟨b, u⟩ := r
      cases b with
      | true => exact ih (by omega)
      | false => trivial

lemma users_set {y : Proc} : (s.set p y).users k + (if (s.proc p).uses k = some k then 1 else 0) =
    s.users k + if y.uses k = some k then 1 else 0 := by
  unfold State.users State.set
  exact tally_update

lemma attach_counted (hs : Counted s) (hlive : (s.proc p).state = .live)
    (hkeys : (s.proc p).keys k = false) : Counted (attach p k n s).1 := by
  refine ⟨fun k' => ?_, hs.pages⟩
  generalize hy : ({ s.proc p with keys := update (s.proc p).keys k true } : Proc) = y
  have hset := users_set (s := s) (p := p) (k := k') (y := y)
  have hcount := hs.count k'
  have hgoal : (attach p k n s).1.users k' = (s.set p y).users k' := by rw [← hy]; rfl
  rw [hgoal]
  by_cases hk : k' = k
  · subst hk
    have hold : (s.proc p).uses k' = none := by simp [uses, hkeys]
    have hnew : y.uses k' = some k' := by simp [uses, ← hy, hlive]
    rw [hold, hnew] at hset
    simp only [reduceCtorEq, if_false, if_true] at hset
    simp only [attach, update_self]
    omega
  · have hsame : y.uses k' = (s.proc p).uses k' := by
      simp [uses, ← hy, update_of_ne hk]
    rw [hsame] at hset
    simp only [attach, update_of_ne hk]
    omega

lemma outcome_and {ε α : Type} {E : ε → Prop} {P : α → Prop} {y : Except ε α}
    (h : Outcome E (fun _ => True) y) (hP : ∀ a, y = .ok a → P a) : Outcome E P y := by
  cases y with
  | ok a => exact hP a rfl
  | error e => exact h

section

variable (hs : Counted s) (hlive : (s.proc p).state = .live)
include hs hlive

lemma Counted.unused_key (hzero : s.refcount k = 0) : (s.proc p).keys k = false := by
  cases hk : (s.proc p).keys k with
  | false => rfl
  | true =>
    have hpos : 0 < s.users k := tally_pos (t := p) (by simp [uses, hlive, hk])
    have := hs.count k
    omega

lemma shmgetatKey_counted (hn : n ≤ NKEYPAGES) :
    Outcome InArray (fun r => Counted r.1) (shmgetatKey p k n s) := by
  have hunused : s.refcount k = 0 → (s.proc p).keys k = false := hs.unused_key hlive
  unfold shmgetatKey
  dsimp only
  split
  · rename_i hzero
    split
    · exact hs
    · refine Outcome.bind (outcome_and (attachNew_inArray (by omega)) fun r hr => hr) fun r hr => ?_
      obtain ⟨b, w⟩ := r
      have hsame := attachNew_same hr
      cases b with
      | true =>
        refine attach_counted ⟨fun k' => ?_, fun k' => ?_⟩ ?_ ?_
        · exact (hsame.kept.counted hs).count k'
        · by_cases hk : k' = k
          · subst hk
            simpa using hn
          · simpa [update_of_ne hk] using (hsame.kept.counted hs).pages k'
        · exact (hsame.state p).trans hlive
        · exact (congrFun (hsame.keys p) k).trans (hunused hzero)
      | false => exact hsame.kept.counted hs
  · split
    · rename_i hkeys
      refine Outcome.bind (outcome_and (attachOld_inArray (by omega)) fun r hr => hr) fun r hr => ?_
      obtain ⟨b, w⟩ := r
      have hsame := attachOld_same hr
      cases b with
      | true =>
        exact attach_counted (hsame.kept.counted hs) ((hsame.state p).trans hlive)
          ((congrFun (hsame.keys p) k).trans hkeys)
      | false => exact hsame.kept.counted hs
    · exact hs

lemma Dropped.counted (h : Dropped p (List.finRange NKEYS) s u) (hy : ∀ k, y.uses k = none) : Counted (u.set p y) := by
  refine ⟨fun k => ?_, fun k => ?_⟩
  · have hset := users_set (s := u) (p := p) (k := k) (y := y)
    have husers : u.users k = s.users k := users_congr fun q => by rw [h.proc]
    have hcount := hs.count k
    have hrc := h.refcount k
    have hrefcount : (u.set p y).refcount k = u.refcount k := rfl
    rw [h.proc, hy k, husers] at hset
    simp only [List.mem_finRange, true_and] at hrc
    rw [hrefcount, hrc]
    cases hk : (s.proc p).keys k with
    | true =>
      have hold : (s.proc p).uses k = some k := by simp [uses, hlive, hk]
      rw [hold] at hset
      simp only [if_true, reduceCtorEq, if_false] at hset ⊢
      omega
    | false =>
      have hold : (s.proc p).uses k = none := by simp [uses, hk]
      rw [hold] at hset
      simp only [Bool.false_eq_true, reduceCtorEq, if_false] at hset ⊢
      omega
  · have hnp := h.numpages k
    have hgoal : (u.set p y).numpages k = u.numpages k := rfl
    rw [hgoal, hnp]
    split
    · exact Nat.zero_le _
    · exact hs.pages k

end

lemma allocproc_kept {o : Option Slot} (h : allocproc s = (o, s')) :
    Kept s s' ∧ ∀ np, o = some np → ∀ k, (s'.proc np).keys k = false := by
  unfold allocproc at h
  split at h
  · cases h
    exact ⟨.refl, by simp⟩
  · rename_i p hfind
    have hp : (s.proc p).state = .unused := by simpa using List.find?_some hfind
    have hold : ∀ k, (s.proc p).uses k = none := fun k => uses_of_ne (by simp [hp])
    dsimp only at h
    split at h
    · cases h
      exact ⟨.set fun k => (uses_of_ne (by simp)).trans (hold k).symm, by simp⟩
    · cases h
      refine ⟨⟨rfl, rfl, (Kept.set fun k => ?_).uses⟩, fun np hnp k => ?_⟩
      · rw [hold k]
        simp [uses]
      · cases hnp
        simp [State.set]

lemma fork_kept (h : fork p s = .ok (s', es)) : Kept s s' := by
  unfold fork at h
  split at h
  · rename_i u halloc
    cases h
    exact (allocproc_kept halloc).1
  · rename_i np u halloc
    obtain ⟨hkept, hkeys⟩ := allocproc_kept halloc
    have hold : ∀ k, (u.proc np).uses k = none := fun k => by simp [uses, hkeys np rfl k]
    obtain ⟨⟨o, free⟩, _, h⟩ := bind_eq_ok.mp h
    cases o with
    | none =>
      obtain ⟨free', _, h⟩ := bind_eq_ok.mp h
      cases h
      refine hkept.trans ⟨rfl, rfl, (Kept.set fun k => ?_).uses⟩
      exact (uses_of_ne (by simp)).trans (hold k).symm
    | some d =>
      cases h
      refine hkept.trans ⟨rfl, rfl, (Kept.set fun k => ?_).uses⟩
      exact uses_eq rfl rfl

lemma sbrk_same {n : ℤ} (h : sbrk p n s = .ok (s', es)) : Same s s' := by
  unfold sbrk at h
  obtain ⟨⟨sz, g, free⟩, _, h⟩ := bind_eq_ok.mp h
  dsimp only at h
  split at h
  · cases h
    exact .set rfl rfl
  · cases h
    exact .set rfl rfl

lemma abandon_eq : (x.abandon p).state = x.state ∧ (x.abandon p).keys = x.keys := by
  unfold abandon
  split
  · exact ⟨rfl, rfl⟩
  · exact ⟨rfl, rfl⟩

lemma exit_counted (hs : Counted s) (hlive : (s.proc p).state = .live) :
    Outcome InArray (fun r => Counted r.1) (exit p s) := by
  unfold exit
  split
  · intro i h
    cases h
  · refine Outcome.bind (decRefCount_spec.imp (fun e he => he.1 hs.pages) fun _ h => h) fun u hu => ?_
    -- the children are given away
    have hproc : ∀ q, (u.proc q).abandon p = (s.proc q).abandon p := fun q => by rw [hu.proc]
    have hzombie := hu.counted hs hlive (y := { (u.proc p).abandon p with state := .zombie })
      fun k => uses_of_ne (by simp)
    refine Kept.counted (s := u.set p { (u.proc p).abandon p with state := .zombie })
      ⟨rfl, rfl, fun q k => ?_⟩ hzombie
    by_cases hq : q = p
    · subst hq
      simp [State.set]
    · simp only [State.set, update_of_ne hq]
      exact uses_eq abandon_eq.1 abandon_eq.2

lemma wait_kept : Outcome InArray (fun r => Kept s r.1) (wait p s) := by
  unfold wait
  split
  · rename_i q hfind
    have hq := List.find?_some hfind
    rw [Bool.and_eq_true, decide_eq_true_eq, decide_eq_true_eq] at hq
    refine Outcome.bind lift_inArray fun free _ => Outcome.bind lift_inArray fun free' _ => ?_
    refine ⟨rfl, rfl, (Kept.set fun k => ?_).uses⟩
    exact (uses_of_ne (by simp)).trans (uses_of_ne (by simp [hq.2])).symm
  · split
    · intro i h
      cases h
    · exact .refl

lemma Execed.same (h : Execed p s s' es) : Same s s' := by
  cases h with
  | failed free hfree => exact ⟨rfl, rfl, fun _ => rfl, fun _ => rfl⟩
  | done g sz free hg hsz hfree => exact .set rfl rfl

lemma exec_counted (hs : Counted s) (hlive : (s.proc p).state = .live) :
    Outcome InArray (fun r => Counted r.1) (exec p file argv s) := by
  unfold exec
  refine Outcome.bind (decRefCount_spec.imp (fun e he => he.1 hs.pages) fun _ h => h) fun u hu => ?_
  have hdrop := hu.counted hs hlive
    (y := { u.proc p with top := KERNBASE, keys := fun _ => false }) fun k => by simp [uses]
  have htop : ((u.set p { u.proc p with top := KERNBASE, keys := fun _ => false }).proc p).top =
      KERNBASE := by simp [State.set]
  refine lift_inArray.mono fun r hr => ?_
  have hex := ok_of_outcome (execRest_spec htop) hr
  exact hex.same.kept.counted hdrop

/-- The keys of the calls are in the table, or `shmgetat` can tell that they are not. -/
def InRange : Action → Prop
  | .shmgetat _ key _ => key ≠ NKEYS
  | .shmRefcount _ key => 0 ≤ key ∧ key < NKEYS
  | .fork _ | .exec _ _ _ | .sbrk _ _ | .exit _ | .wait _ => True

lemma call_counted {a : Action} (hs : Counted s) (hlive : (s.proc a.caller).state = .live)
    (ha : InRange a) : Outcome InArray (fun r => Counted r.1) (call a s) := by
  cases a with
  | fork p => exact lift_inArray.mono fun r hr => (fork_kept hr).counted hs
  | shmgetat p key num =>
    simp only [call, shmgetat]
    split
    · exact hs
    · rename_i hkey
      split
      · exact hs
      · rename_i hnum
        have hin : 0 ≤ key ∧ key < NKEYS := by
          simp only [InRange] at ha
          omega
        rw [slotOf, dif_pos hin]
        exact shmgetatKey_counted hs hlive (by omega)
  | shmRefcount p key =>
    have hin : 0 ≤ key ∧ key < NKEYS := ha
    simp only [call, shmRefcount]
    rw [slotOf, dif_pos hin]
    exact hs
  | exec p file argv => exact exec_counted hs hlive
  | sbrk p n => exact lift_inArray.mono fun r hr => (sbrk_same hr).kept.counted hs
  | exit p => exact exit_counted hs hlive
  | wait p => exact wait_kept.mono fun r hr => hr.counted hs

lemma step_counted {a : Action} (hs : Counted s) (ha : InRange a) :
    Outcome InArray (fun r => Counted r.1) (step a s) := by
  unfold step
  split
  · rename_i hlive
    exact call_counted hs hlive ha
  · intro i h
    cases h

lemma Counted.boot {kstack : Page} {g : Pgdir} {free : List Page} : Counted (boot kstack g free) := by
  refine ⟨fun k => (tally_eq_zero fun q => ?_).symm, fun k => Nat.zero_le _⟩
  by_cases hq : q = initproc
  · subst hq
    simp [Shm.boot, uses]
  · simp [Shm.boot, uses, update_of_ne hq, zero]

/-- After calls that do not overlap and are for keys of the table, no access is outside of the arrays and the counts are
those of the processes that use the keys. -/
theorem refcounts_exact {kstack : Page} {g : Pgdir} {free : List Page}
    (h : Timeline step (NoOverlap fun _ a => InRange a) (boot kstack g free) es (.idle s)) :
    (∀ k, s.refcount k = s.users k) ∧ ∀ a, InRange a → ∀ i, step a s ≠ .error (.index i) := by
  have hs := h.run.invariant (I := Counted)
      (fun s a s' es hs ha hstep => (ok_of_outcome (step_counted hs ha) hstep :)) .boot
  refine ⟨hs.count, fun a ha i hi => ?_⟩
  have hstep := step_counted (a := a) hs ha
  rw [hi] at hstep
  exact hstep i rfl

instance : ∀ a, Decidable (InRange a)
  | .shmgetat _ key _ => inferInstanceAs (Decidable (key ≠ NKEYS))
  | .shmRefcount _ _ => inferInstanceAs (Decidable (_ ∧ _))
  | .fork _ | .exec _ _ _ | .sbrk _ _ | .exit _ | .wait _ => inferInstanceAs (Decidable True)

/-- A process shares a page, and the count of its key is one. -/
theorem attached_once : ∃ s : State, (s.proc 0).keys 7 = true ∧ s.refcount 7 = s.users 7 ∧ s.refcount 7 = 1 := by
  obtain ⟨s, hrun, hkeys, hone⟩ : ∃ s, Run step (fun _ a => InRange a) (boot 4 initPgdir [5, 6, 7])
      [.attached 0 7 1 (KERNBASE - PGSIZE)] s ∧ (s.proc 0).keys 7 = true ∧ s.refcount 7 = 1 :=
    Run.of_leads [.shmgetat 0 7 1] (by decide +kernel)
  exact ⟨s, hkeys, (refcounts_exact hrun.timeline).1 7, hone⟩

/-- The key after the last one passes the check of `shmgetat`, and `shm_refcount` has none. -/
theorem key_out_of_range : step (.shmgetat 0 8 1) (boot 4 initPgdir [5, 6, 7]) = .error (.index 8) ∧
    step (.shmRefcount 0 (-1)) (boot 4 initPgdir [5, 6, 7]) = .error (.index (-1)) :=
  ⟨rfl, rfl⟩

end LearnXv6.Shm
