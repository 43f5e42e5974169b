import LearnXv6.Shm.Sharing

/-! Processes that share a key see the same pages. -/
namespace LearnXv6.Shm
open Function Store

variable {s s' u w : State} {p q : Slot} {k : Key} {x y : Proc} {n i c addr : ℕ} {m : Page}
  {free : List Page} {es es' : List Event} {K : Key → Bool} {file : Option Image} {argv : List ℕ}

/-- The attachments of the processes: the number of pages, and the address that `shmgetat` has returned. -/
abbrev Attachments := Slot → Key → Option (ℕ × ℕ)

def Attachments.after (t : Attachments) : Event → Attachments
  | .attached p k n addr => update t p (update (t p) k (some (n, addr)))
  | .renewed p => update t p fun _ => none
  | .returned _ _ => t

def attachments (es : List Event) : Attachments := es.foldl .after fun _ _ => none

lemma foldl_after {t : Attachments} {a : ℕ × ℕ} (h : es.foldl .after t p k = some a) :
    .attached p k a.1 a.2 ∈ es ∨ t p k = some a ∧ .renewed p ∉ es := by
  induction es generalizing t with
  | nil => exact .inr ⟨h, by simp⟩
  | cons e es ih =>
    rcases ih h with hmem | ⟨hold, hnot⟩
    · exact .inl (List.mem_cons_of_mem e hmem)
    cases e with
    | returned q r => exact .inr ⟨hold, by simp [hnot]⟩
    | renewed q =>
      by_cases hq : p = q
      · subst hq
        simp [Attachments.after] at hold
      · simp only [Attachments.after, update_of_ne hq] at hold
        exact .inr ⟨hold, by simp [hnot, hq]⟩
    | attached q k' n addr =>
      by_cases hq : p = q
      · subst hq
        by_cases hk : k = k'
        · subst hk
          simp only [Attachments.after, update_self, Option.some.injEq] at hold
          subst hold
          exact .inl (by simp)
        · simp only [Attachments.after, update_self, update_of_ne hk] at hold
          exact .inr ⟨hold, by simp [hnot]⟩
      · simp only [Attachments.after, update_of_ne hq] at hold
        exact .inr ⟨hold, by simp [hnot]⟩

/-- The pages of the key are mapped from the address on, the last one first. -/
def Shows (s : State) (p : Slot) (k : Key) (n addr : ℕ) : Prop :=
  (s.proc p).keys k = true ∧ n = s.numpages k ∧ ∃ v, addr = v * PGSIZE ∧ (s.proc p).bound ≤ v ∧
    ∀ i < n, (s.proc p).pgdir.pte (v + i) = some (s.pageaddr k (n - 1 - i))

/-- What a step leaves as it was for a process that shares memory. -/
structure Frame (q : Slot) (s s' : State) : Prop where
  keys : ∀ k, (s.proc q).keys k = true → (s'.proc q).keys k = true
  bound : (s'.proc q).bound ≤ (s.proc q).bound
  pte : ∀ v, (s.proc q).bound ≤ v → (s'.proc q).pgdir.pte v = (s.proc q).pgdir.pte v
  table : ∀ k, (s.proc q).keys k = true → s'.numpages k = s.numpages k ∧ s'.pageaddr k = s.pageaddr k

lemma Shows.frame (h : Shows s q k n addr) (hf : Frame q s s') : Shows s' q k n addr := by
  obtain ⟨hkey, hn, v, haddr, hv, hpte⟩ := h
  obtain ⟨hnum, hpa⟩ := hf.table k hkey
  refine ⟨hf.keys k hkey, by rw [hnum]; exact hn, v, haddr, hf.bound.trans hv, fun i hi => ?_⟩
  rw [hf.pte (v + i) (by omega), hpa]
  exact hpte i hi

lemma Frame.same (hproc : s'.proc q = s.proc q) (hnum : s'.numpages = s.numpages)
    (haddr : s'.pageaddr = s.pageaddr) : Frame q s s' := by
  refine ⟨?_, ?_, ?_, fun k _ => ⟨congrFun hnum k, congrFun haddr k⟩⟩
  all_goals simp [hproc]

/-- What a step does to the shared memory. -/
structure Steady (s : State) (r : State × List Event) : Prop where
  frame : ∀ q, (r.1.proc q).state = .live →
    .renewed q ∈ r.2 ∨ (s.proc q).state = .live ∧ Frame q s r.1
  shows : ∀ p k n addr, .attached p k n addr ∈ r.2 → Shows r.1 p k n addr

lemma Steady.refl (hes : ∀ p k n addr, .attached p k n addr ∉ es) : Steady s (s, es) :=
  ⟨fun _ hq => .inr ⟨hq, .same rfl rfl rfl⟩, fun p k n addr h => absurd h (hes p k n addr)⟩

lemma Steady.slot (hes : ∀ p k n addr, .attached p k n addr ∉ es)
    (hy : y.state = .live → .renewed p ∈ es) : Steady s ({ s.set p y with free := free }, es) := by
  refine ⟨fun q hq => ?_, fun p k n addr h => absurd h (hes p k n addr)⟩
  by_cases hqp : q = p
  · subst hqp
    simp only [set_self] at hq
    exact .inl (hy hq)
  · simp only [set_other hqp] at hq
    exact .inr ⟨hq, .same (set_other hqp) rfl rfl⟩

lemma fork_steady (h : fork p s = .ok (s', es)) : Steady s (s', es) := by
  unfold fork at h
  split at h
  · rename_i u halloc
    cases h
    cases allocproc_spec halloc with
    | full => exact .refl (by simp)
    | short np hnp y hy => exact .slot (by simp) (by simp [hy])
  · rename_i np u halloc
    cases allocproc_spec halloc with
    | done _ hnp m free hfree =>
      obtain ⟨⟨o, free1⟩, _, h⟩ := bind_eq_ok.mp h
      cases o with
      | none =>
        obtain ⟨free2, _, h⟩ := bind_eq_ok.mp h
        cases h
        rw [set_set]
        exact .slot (by simp) (by simp)
      | some d =>
        cases h
        rw [set_set]
        exact .slot (by simp) (by simp)

lemma sbrk_steady {z : ℤ} (hx : (s.proc p).Fits) (h : sbrk p z s = .ok (s', es)) : Steady s (s', es) := by
  unfold sbrk at h
  obtain ⟨⟨sz, g, free⟩, hresize, h⟩ := bind_eq_ok.mp h
  have hg := (ok_of_outcome (resize_spec hx) hresize).2
  have hframe : ∀ sz q, Frame q s { s.set p { s.proc p with pgdir := g, sz := sz } with free := free } := by
    intro sz q
    by_cases hq : q = p
    · subst hq
      refine ⟨?_, ?_, ?_, fun _ _ => ⟨rfl, rfl⟩⟩
      all_goals simp only [set_self]
      · exact fun _ hk => hk
      · exact le_rfl
      · exact hg.pte
    · exact .same (set_other hq) rfl rfl
  have hlive : ∀ sz q, (({ s.set p { s.proc p with pgdir := g, sz := sz } with free := free } : State).proc
      q).state = (s.proc q).state := by
    intro sz q
    by_cases hq : q = p
    · subst hq
      simp only [set_self]
    · simp only [set_other hq]
  dsimp only at h
  split at h
  · cases h
    exact ⟨fun q hq => .inr ⟨hlive (s.proc p).sz q ▸ hq, hframe (s.proc p).sz q⟩, by simp⟩
  · cases h
    exact ⟨fun q hq => .inr ⟨hlive sz q ▸ hq, hframe sz q⟩, by simp⟩

lemma wait_steady (h : wait p s = .ok (s', es)) : Steady s (s', es) := by
  unfold wait at h
  split at h
  · obtain ⟨free, _, h⟩ := bind_eq_ok.mp h
    obtain ⟨free', _, h⟩ := bind_eq_ok.mp h
    cases h
    exact .slot (by simp) (by simp)
  · split at h
    · cases h
    · cases h
      exact .refl (by simp)

section

variable (hs : Counted s) (hlive : (s.proc p).state = .live)
include hs hlive

lemma Dropped.steady (hu : Dropped p (List.finRange NKEYS) s u) (hother : ∀ q ≠ p, Alike (s.proc q) (s'.proc q))
    (hnum : s'.numpages = u.numpages) (haddr : s'.pageaddr = u.pageaddr)
    (hself : (s'.proc p).state = .live → .renewed p ∈ es) (hes : ∀ p k n addr, .attached p k n addr ∉ es) :
    Steady s (s', es) := by
  refine ⟨fun q hq => ?_, fun p k n addr h => absurd h (hes p k n addr)⟩
  simp only at hq
  by_cases hqp : q = p
  · subst hqp
    exact .inl (hself hq)
  · obtain ⟨o, ho⟩ := hother q hqp
    rw [ho] at hq
    refine .inr ⟨hq, ?_, ?_, ?_, fun k hk => ?_⟩
    · simp [ho]
    · rw [ho]
      exact le_rfl
    · simp [ho]
    · obtain ⟨h1, h2⟩ := hu.kept hs hlive hqp hq hk
      exact ⟨(congrFun hnum k).trans h1, (congrFun haddr k).trans h2⟩

lemma exit_steady (h : exit p s = .ok (s', es)) : Steady s (s', es) := by
  unfold exit at h
  obtain ⟨-, h⟩ := else_eq_ok.mp h
  obtain ⟨u, hdec, h⟩ := bind_eq_ok.mp h
  cases h
  have hu := ok_of_outcome decRefCount_spec hdec
  refine hu.steady hs hlive (fun q hq => ?_) rfl rfl (by simp) (by simp)
  rw [set_other hq, hu.proc]
  exact abandon_alike

lemma exec_steady (h : exec p file argv s = .ok (s', es)) : Steady s (s', es) := by
  obtain ⟨u, hdec, hex⟩ := exec_eq h
  have hu := ok_of_outcome decRefCount_spec hdec
  cases hex with
  | failed free hfree | done g sz free hg hsz hfree =>
    refine hu.steady hs hlive (fun q hq => ?_) rfl rfl (by simp) (by simp)
    simp only [set_other hq, hu.proc]
    exact .refl

end

/-- `shmgetat` has lowered the top of the process from `s` to `u`, and `w` is the state after it. -/
lemma Attached.frame {b : Bool} (hatt : Attached p k 0 c s (b, u))
    (hproc : w.proc = update u.proc p { u.proc p with keys := K })
    (hkeys : ∀ k', (s.proc p).keys k' = true → K k' = true)
    (htable : ∀ q, (s.proc q).state = .live → ∀ k', (s.proc q).keys k' = true →
      w.numpages k' = s.numpages k' ∧ w.pageaddr k' = s.pageaddr k')
    (hq : (w.proc q).state = .live) : (s.proc q).state = .live ∧ Frame q s w := by
  by_cases hqp : q = p
  · subst hqp
    have hstate := hatt.state
    have hbound := hatt.bound
    rw [hproc, update_self] at hq
    simp only at hstate hbound hq
    rw [hstate] at hq
    refine ⟨hq, fun k' hk' => ?_, ?_, fun v hv => ?_, htable q hq⟩
    · rw [hproc, update_self]
      exact hkeys k' hk'
    · rw [hproc, update_self]
      simp only [Proc.bound] at hbound ⊢
      omega
    · rw [hproc, update_self]
      exact hatt.high v hv
  · have hsame : w.proc q = s.proc q := by
      rw [hproc, update_of_ne hqp]
      exact hatt.other q hqp
    rw [hsame] at hq
    exact ⟨hq, by simp [hsame], by rw [hsame], by simp [hsame], htable q hq⟩

lemma Attached.shows (hatt : Attached p k 0 n s (true, u))
    (hproc : w.proc = update u.proc p { u.proc p with keys := K }) (hkey : K k = true)
    (hnum : n = w.numpages k) (haddr : w.pageaddr = u.pageaddr) : Shows w p k n (u.proc p).top := by
  have hbound := hatt.bound
  have hlaid := hatt.laid
  have hdone := hatt.done rfl
  simp only [zero_add] at hbound hlaid hdone
  have hb : (w.proc p).bound = (u.proc p).bound := by
    rw [hproc, update_self]
    rfl
  refine ⟨by rw [hproc, update_self]; exact hkey, hnum, (u.proc p).bound, hlaid.top, hb.le,
    fun i hi => ?_⟩
  have hv : (u.proc p).bound + i = (s.proc p).bound - 1 - (n - 1 - i) := by omega
  rw [hproc, update_self, hv, haddr]
  exact hdone (n - 1 - i) (by omega)

/-- A key in use is attached with the number of pages that it has. -/
def Fitting (s : State) : Action → Prop
  | .shmgetat p key num => ∀ k : Key, k.val = key.toNat → s.refcount k ≠ 0 →
      (s.proc p).keys k = false → num.toNat = s.numpages k
  | .exec _ _ _ | .shmRefcount _ _ | .fork _ | .sbrk _ _ | .exit _ | .wait _ => True

lemma shmgetatKey_steady (h : Owned s) (hlive : (s.proc p).state = .live) (hroom : Room s p k n)
    (hn : s.refcount k ≠ 0 → (s.proc p).keys k = false → n = s.numpages k)
    (hcall : shmgetatKey p k n s = .ok (s', es)) : Steady s (s', es) := by
  have hused : (s.proc p).state ≠ .unused := by simp [hlive]
  have hlaid := (h.fits p hused).toLaid
  have hkeep : ∀ {u : State}, (u.proc p).keys = (s.proc p).keys → ∀ k', (s.proc p).keys k' = true →
      update (u.proc p).keys k true k' = true := by
    intro u hu k' hk'
    by_cases hkk : k' = k
    · subst hkk
      exact update_self ..
    · rw [update_of_ne hkk, hu]
      exact hk'
  unfold shmgetatKey at hcall
  dsimp only at hcall
  split at hcall
  · rename_i hzero
    have hroom' := (hroom (h.counted.unused_key hlive hzero)).1
    split at hcall
    · cases hcall
      exact .refl (by simp)
    obtain ⟨⟨b, u⟩, hattach, hcall⟩ := bind_eq_ok.mp hcall
    obtain ⟨c, hc, hdone, hatt, _⟩ := (ok_of_outcome (attachNew_spec hlaid hused hroom') hattach :)
    have hnumu := hatt.numpages
    -- nobody uses the key
    have hother : ∀ q, (s.proc q).state = .live → ∀ k', (s.proc q).keys k' = true → k' ≠ k := by
      rintro q hq k' hk' rfl
      rw [h.counted.unused_key hq hzero] at hk'
      cases hk'
    cases b with
    | true =>
      obtain rfl := hdone rfl
      cases hcall
      refine ⟨fun q hq => .inr ?_, fun p' k' n' addr hmem => ?_⟩
      · refine hatt.frame rfl (hkeep hatt.keys) (fun q hq k' hk' => ?_) hq
        have hkk := hother q hq k' hk'
        exact ⟨(update_of_ne hkk _ _).trans (congrFun hnumu k'), hatt.other_key k' hkk⟩
      · simp only [List.mem_singleton, Event.attached.injEq] at hmem
        obtain ⟨rfl, rfl, rfl, rfl⟩ := hmem
        exact hatt.shows rfl (update_self ..) (update_self _ _ u.numpages).symm rfl
    | false =>
      cases hcall
      refine ⟨fun q hq => .inr (hatt.frame (K := (u.proc p).keys) ?_ (fun k' hk' => ?_)
        (fun q hq k' hk' => ⟨congrFun hnumu k', hatt.other_key k' (hother q hq k' hk')⟩) hq), by simp⟩
      · exact (update_eq_self p u.proc).symm
      · exact (congrFun hatt.keys k').trans hk'
  · rename_i hne
    split at hcall
    · rename_i hkey
      have hroom' := (hroom hkey).1
      obtain ⟨⟨b, u⟩, hattach, hcall⟩ := bind_eq_ok.mp hcall
      obtain ⟨c, hc, hdone, hatt, haddr, _⟩ :=
        (ok_of_outcome (attachOld_spec hlaid hused hroom') hattach :)
      have hnumu := hatt.numpages
      have haddru := haddr
      cases b with
      | true =>
        obtain rfl := hdone rfl
        cases hcall
        refine ⟨fun q hq => .inr ?_, fun p' k' n' addr hmem => ?_⟩
        · exact hatt.frame rfl (hkeep hatt.keys)
            (fun q _ k' _ => ⟨congrFun hnumu k', congrFun haddru k'⟩) hq
        · simp only [List.mem_singleton, Event.attached.injEq] at hmem
          obtain ⟨rfl, rfl, rfl, rfl⟩ := hmem
          exact hatt.shows rfl (update_self ..) ((hn hne hkey).trans (congrFun hnumu _).symm) rfl
      | false =>
        cases hcall
        refine ⟨fun q hq => .inr (hatt.frame (K := (u.proc p).keys) ?_ (fun k' hk' => ?_)
          (fun q _ k' _ => ⟨congrFun hnumu k', congrFun haddru k'⟩) hq), by simp⟩
        · exact (update_eq_self p u.proc).symm
        · exact (congrFun hatt.keys k').trans hk'
    · cases hcall
      exact .refl (by simp)

lemma step_steady {a : Action} (h : Owned s) (hvalid : Valid a) (hsafe : Safe s a) (hfit : Fitting s a)
    (hstep : step a s = .ok (s', es)) : Steady s (s', es) := by
  unfold step at hstep
  obtain ⟨hlive, hstep⟩ := then_eq_ok.mp hstep
  cases a with
  | fork p => exact fork_steady (lift_eq_ok.mp hstep)
  | shmgetat p key num =>
    simp only [call, shmgetat] at hstep
    split at hstep
    · cases hstep
      exact .refl (by simp)
    split at hstep
    · cases hstep
      exact .refl (by simp)
    · rw [slotOf, dif_pos hvalid.1] at hstep
      exact shmgetatKey_steady h hlive (hsafe _ rfl) (hfit _ rfl) hstep
  | shmRefcount p key =>
    have hin : 0 ≤ key ∧ key < NKEYS := hvalid
    simp only [call, shmRefcount] at hstep
    rw [slotOf, dif_pos hin] at hstep
    cases hstep
    exact .refl (by simp)
  | exec p file argv => exact exec_steady h.counted hlive hstep
  | sbrk p n =>
    have hused : (s.proc p).state ≠ .unused := by
      intro hunused
      cases hunused.symm.trans hlive
    exact sbrk_steady (h.fits p hused) (lift_eq_ok.mp hstep)
  | exit p => exact exit_steady h.counted hlive hstep
  | wait p => exact wait_steady hstep

/-- Every attachment of a process that has not exited is as `Shows` says. -/
structure Attaches (es : List Event) (s : State) : Prop where
  owned : Owned s
  shows : ∀ p, (s.proc p).state = .live → ∀ k n addr, attachments es p k = some (n, addr) →
    Shows s p k n addr

lemma Attaches.step {a : Action} (h : Attaches es s) (hvalid : Valid a) (hsafe : Safe s a)
    (hfit : Fitting s a) (hstep : Shm.step a s = .ok (s', es')) : Attaches (es ++ es') s' := by
  have hsteady := step_steady h.owned hvalid hsafe hfit hstep
  refine ⟨(ok_of_outcome (step_owned h.owned hvalid hsafe) hstep :), fun p hp k n addr hatt => ?_⟩
  rw [attachments, List.foldl_append] at hatt
  rcases foldl_after hatt with hmem | ⟨hold, hnot⟩
  · exact hsteady.shows p k n addr hmem
  · rcases hsteady.frame p hp with hnew | ⟨hlive, hframe⟩
    · exact absurd hnew hnot
    · exact (h.shows p hlive k n addr hold).frame hframe

/-- After calls that do not overlap and use shared memory as before, each key always with the number of pages
that it has, two processes see the same page of the key at the same distance from their addresses. -/
theorem attached_pages_agree {kstack : Page} {g : Pgdir} (hboot : Booted kstack g free)
    (h : Timeline step (NoOverlap fun s a => (Valid a ∧ Safe s a) ∧ Fitting s a) (boot kstack g free) es
      (.idle s))
    {a b : ℕ} (hp : (s.proc p).state = .live) (hq : (s.proc q).state = .live)
    (hpa : attachments es p k = some (n, a)) (hqb : attachments es q k = some (c, b)) :
    ∀ i, i < n → i < c → ∃ j < s.numpages k,
      (s.proc p).pgdir.pte ((a + i * PGSIZE) / PGSIZE) = some (s.pageaddr k j) ∧
      (s.proc q).pgdir.pte ((b + i * PGSIZE) / PGSIZE) = some (s.pageaddr k j) := by
  have hs := h.run.history (I := Attaches)
    (fun es s a s' es' hs (ha : (Valid a ∧ Safe s a) ∧ Fitting s a) hstep =>
      hs.step ha.1.1 ha.1.2 ha.2 hstep) ⟨.boot hboot, by simp [attachments]⟩
  obtain ⟨_, hn, v, rfl, _, hpte⟩ := hs.shows p hp k n a hpa
  obtain ⟨_, hc, w, rfl, _, hpte'⟩ := hs.shows q hq k c b hqb
  intro i hi hi'
  have hdiv : ∀ v, (v * PGSIZE + i * PGSIZE) / PGSIZE = v + i := fun v => by
    rw [← Nat.add_mul]
    exact Nat.mul_div_cancel _ (by decide)
  refine ⟨n - 1 - i, by omega, ?_, ?_⟩
  · rw [hdiv]
    exact hpte i hi
  · rw [hdiv, hn, ← hc]
    exact hpte' i hi'

instance : ∀ a, Decidable (Fitting s a)
  | .shmgetat p _ num => inferInstanceAs (Decidable (∀ k : Key, _ → s.refcount k ≠ 0 →
      (s.proc p).keys k = false → num.toNat = s.numpages k))
  | .exec _ _ _ | .shmRefcount _ _ | .fork _ | .sbrk _ _ | .exit _ | .wait _ =>
    inferInstanceAs (Decidable True)

/-- A process and its child attach two pages each. -/
theorem child_sees_pages : ∃ s, Run step (fun s a => (Valid a ∧ Safe s a) ∧ Fitting s a)
    (boot 4 initPgdir (List.range' 5 200)) [.attached 0 0 2 (KERNBASE - 2 * PGSIZE), .renewed 1,
      .returned 0 1, .attached 1 0 2 (KERNBASE - 2 * PGSIZE)] s ∧ ∀ i, i < 2 → i < 2 → ∃ j < s.numpages 0,
      (s.proc 0).pgdir.pte ((KERNBASE - 2 * PGSIZE + i * PGSIZE) / PGSIZE) = some (s.pageaddr 0 j) ∧
      (s.proc 1).pgdir.pte ((KERNBASE - 2 * PGSIZE + i * PGSIZE) / PGSIZE) = some (s.pageaddr 0 j) := by
  obtain ⟨s, hrun, hparent, hchild⟩ : ∃ s, Run step (fun s a => (Valid a ∧ Safe s a) ∧ Fitting s a)
      (boot 4 initPgdir (List.range' 5 200)) [.attached 0 0 2 (KERNBASE - 2 * PGSIZE), .renewed 1,
        .returned 0 1, .attached 1 0 2 (KERNBASE - 2 * PGSIZE)] s ∧
      (s.proc 0).state = .live ∧ (s.proc 1).state = .live :=
    Run.of_leads [.shmgetat 0 0 2, .fork 0, .shmgetat 1 0 2] (by decide +kernel)
  exact ⟨s, hrun, attached_pages_agree initPgdir_booted hrun.timeline hparent hchild (by decide) (by decide)⟩

/-- The child attaches one page of two, and sees the first where its parent sees the second; or two pages of
one, and has the page zero mapped. -/
theorem child_sees_others :
    (∃ s, Run step (fun s a => Valid a ∧ Safe s a) (boot 4 initPgdir (List.range' 5 200))
      [.attached 0 0 2 (KERNBASE - 2 * PGSIZE), .renewed 1, .returned 0 1,
        .attached 1 0 1 (KERNBASE - PGSIZE)] s ∧ (s.proc 0).state = .live ∧ (s.proc 1).state = .live ∧
      (s.proc 0).pgdir.pte ((KERNBASE - 2 * PGSIZE) / PGSIZE) = some (s.pageaddr 0 1) ∧
      (s.proc 1).pgdir.pte ((KERNBASE - PGSIZE) / PGSIZE) = some (s.pageaddr 0 0) ∧
      s.pageaddr 0 0 ≠ s.pageaddr 0 1) ∧
    ∃ s, Run step (fun s a => Valid a ∧ Safe s a) (boot 4 initPgdir (List.range' 5 200))
      [.attached 0 0 1 (KERNBASE - PGSIZE), .renewed 1, .returned 0 1,
        .attached 1 0 2 (KERNBASE - 2 * PGSIZE)] s ∧
      (s.proc 1).state = .live ∧ (s.proc 1).pgdir.pte ((KERNBASE - 2 * PGSIZE) / PGSIZE) = some 0 ∧
      s.numpages 0 = 1 :=
  ⟨Run.of_leads [.shmgetat 0 0 2, .fork 0, .shmgetat 1 0 1] (by decide +kernel),
    Run.of_leads [.shmgetat 0 0 1, .fork 0, .shmgetat 1 0 2] (by decide +kernel)⟩

end LearnXv6.Shm
