import LearnXv6.Shm.Pages
import LearnXv6.Store.Timeline

/-! Pages that processes share are not freed under them. -/
namespace LearnXv6.Shm
open Function Store Finset

variable {s s' u w : State} {p q : Slot} {k : Key} {x y : Proc} {n i c : ℕ} {m : Page} {free : List Page}
  {es : List Event} {r : Bool × State} {K : Key → Bool}

lemma Owned.attach {b : Bool} (h : Owned s) (hcounted : Counted w) (hlive : (s.proc p).state = .live)
    (hatt : Attached p k 0 c s (b, u)) (hproc : w.proc = update u.proc p { u.proc p with keys := K })
    (hkeys : ∀ k', (s.proc p).keys k' = true → K k' = true)
    (hother : ∀ k' ≠ k, w.refcount k' = s.refcount k' ∧ w.numpages k' = s.numpages k')
    (hpageaddr : w.pageaddr = u.pageaddr) (htotal : ∀ m, w.total m ≤ s.total m)
    (hold : ∀ j < s.numpages k, j < w.numpages k ∧ w.pageaddr k j = s.pageaddr k j)
    (hunused : w.refcount k = 0 → w.numpages k = 0)
    (hstale : ∀ j, w.numpages k ≤ j → w.total (w.pageaddr k j) = 0)
    (hroom : (s.proc p).sz + c * PGSIZE ≤ (s.proc p).top)
    (hnew : ∀ v m, (u.proc p).bound ≤ v → v < (s.proc p).bound → (u.proc p).pgdir.pte v = some m →
      w.Harmless p m) : Owned w := by
  have hp : w.proc p = { u.proc p with keys := K } := by rw [hproc, update_self]
  have hq : ∀ q ≠ p, w.proc q = s.proc q := by
    intro q hq
    rw [hproc, update_of_ne hq]
    exact hatt.other q hq
  have hharm : ∀ q m, (∀ k', (s.proc q).keys k' = true → (w.proc q).keys k' = true) → s.Harmless q m →
      w.Harmless q m := by
    rintro q m hsub (hm | ⟨k', j, hk', hj, hm⟩)
    · exact .inl (Nat.le_zero.mp ((htotal m).trans hm.le))
    · refine .inr ⟨k', j, hsub k' hk', ?_⟩
      by_cases hkk : k' = k
      · subst hkk
        rw [(hold j hj).2]
        exact ⟨(hold j hj).1, hm⟩
      · have haddr := hpageaddr ▸ hatt.other_key k' hkk
        rw [(hother k' hkk).2, haddr]
        exact ⟨hj, hm⟩
  refine h.step hcounted htotal (fun q hq' => hq q hq' ▸ .refl) (fun k' hk' => ?_) (fun k' j hj => ?_)
    (fun q hq' _ m => hharm q m fun k' hk' => by rw [hq q hq']; exact hk') (fun _ => ?_)
    fun _ v m hv hm => ?_
  · by_cases hkk : k' = k
    · subst hkk
      exact hunused hk'
    · rw [(hother k' hkk).1] at hk'
      rw [(hother k' hkk).2]
      exact h.unused k' hk'
  · by_cases hkk : k' = k
    · subst hkk
      exact hstale j hj
    · have haddr := hpageaddr ▸ hatt.other_key k' hkk
      rw [(hother k' hkk).2] at hj
      rw [haddr]
      exact Nat.le_zero.mp ((htotal _).trans (h.stale k' j hj).le)
  · have hlaid := hatt.laid
    have hsz := hatt.sz
    have hbound := hatt.bound
    have htop := (h.fits p (by simp [hlive])).top
    have htop' := hlaid.top
    simp only at hlaid hsz hbound htop'
    rw [hp]
    refine ⟨⟨hlaid.formed, hlaid.top, hlaid.bound⟩, ?_⟩
    simp only
    rw [← hbound, Nat.add_mul] at htop
    omega
  · simp only [hp, Proc.bound] at hv hm
    by_cases hlt : v < (s.proc p).bound
    · exact hnew v m hv hlt hm
    · have hpte := hatt.high v (not_lt.mp hlt)
      rw [hpte] at hm
      exact hharm p m (fun k' hk' => by rw [hp]; exact hkeys k' hk')
        (h.mapped p hlive v m (not_lt.mp hlt) hm)

/-- What the process that gets the keys `K` has for itself does not depend on them. -/
lemma total_keys (hother : ∀ q ≠ p, u.proc q = s.proc q)
    (hproc : w.proc = update u.proc p { u.proc p with keys := K }) (hfree : w.free = u.free) :
    w.total m + (s.free.count m + (s.proc p).owns m + s.shared m) =
      s.total m + (u.free.count m + (u.proc p).owns m + w.shared m) := by
  have hsame : ∀ q ≠ p, Alike (s.proc q) (w.proc q) := fun q hq => by
    rw [hproc, update_of_ne hq, hother q hq]
    exact .refl
  have h1 := total_change (m := m) hsame
  have h2 : (w.proc p).owns m = (u.proc p).owns m := by
    rw [hproc, update_self]
    rfl
  rw [h2, hfree] at h1
  exact h1

/-- The page tables have room for the pages below `top`, and so has the memory of the process. -/
def Room (s : State) (p : Slot) (k : Key) (n : ℕ) : Prop :=
  (s.proc p).keys k = false → n * PGSIZE ≤ (s.proc p).top ∧
    (s.refcount k ≠ 0 → (s.proc p).sz + n * PGSIZE ≤ (s.proc p).top ∧
      ((s.proc p).bound - 1) / NPDENTRIES = ((s.proc p).bound - n) / NPDENTRIES)

lemma shared_congr (hother : ∀ k' ≠ k, w.ofKey k' m = s.ofKey k' m) :
    w.shared m + s.ofKey k m = s.shared m + w.ofKey k m := by
  rw [shared_eq k, shared_eq k]
  have : ∑ k' ∈ univ.erase k, w.ofKey k' m = ∑ k' ∈ univ.erase k, s.ofKey k' m :=
    sum_congr rfl fun k' hk' => hother k' (ne_of_mem_erase hk')
  omega

lemma ofKey_congr (hnumpages : w.numpages k = s.numpages k) (hpageaddr : w.pageaddr k = s.pageaddr k) :
    w.ofKey k m = s.ofKey k m := by
  unfold State.ofKey
  rw [hnumpages, hpageaddr]

lemma ofKey_eq_recorded (hnumpages : w.numpages k = n) (hpageaddr : w.pageaddr = u.pageaddr) :
    w.ofKey k m = u.recorded k 0 n m := by
  unfold State.ofKey State.recorded
  rw [hnumpages, hpageaddr]
  exact places_congr fun j _ => by rw [zero_add]

lemma recorded_pos {j : ℕ} (hj : j < c) : 0 < u.recorded k 0 c (u.pageaddr k j) :=
  places_pos (mem_range.mpr hj) (by rw [zero_add])

lemma attach_refcount (hw : (Shm.attach p k n u).1 = w) :
    w.refcount k ≠ 0 ∧ ∀ k' ≠ k, w.refcount k' = u.refcount k' := by
  subst hw
  refine ⟨by simp [Shm.attach], fun k' hk' => ?_⟩
  exact update_of_ne hk' _ u.refcount

lemma attach_proc (hw : (Shm.attach p k n u).1 = w) : w.proc = update u.proc p
    { u.proc p with keys := update (u.proc p).keys k true } := by
  subst hw
  rfl

lemma keys_attached {K' : Key → Bool} (hK : K' = K) {k' : Key} (hk' : K k' = true) :
    update K' k true k' = true := by
  by_cases hkk : k' = k
  · subst hkk
    exact update_self ..
  · rw [update_of_ne hkk, hK]
    exact hk'

section

variable {b : Bool} (h : Owned s) (hlive : (s.proc p).state = .live) (hatt : Attached p k 0 c s (b, u))
  (hroom : (s.proc p).sz + c * PGSIZE ≤ (s.proc p).top)
include h hlive hatt hroom

lemma new_owned (hzero : s.refcount k = 0)
    (htotal : ∀ m, u.free.count m + (u.proc p).owns m + u.recorded k 0 c m =
      s.free.count m + (s.proc p).owns m) : (Counted u → Owned u) ∧ (b = true →
      Counted (Shm.attach p k c { u with numpages := update u.numpages k c }).1 →
        Owned (Shm.attach p k c { u with numpages := update u.numpages k c }).1) := by
  have hnum := h.unused k hzero
  have hnumu : u.numpages = s.numpages := hatt.numpages
  have hrefu := hatt.refcount
  have hnone : ∀ m, s.ofKey k m = 0 := by
    intro m
    simp [State.ofKey, hnum, places]
  have hmapped : ∀ v m, (u.proc p).bound ≤ v → v < (s.proc p).bound → (u.proc p).pgdir.pte v = some m →
      ∃ j < c, m = u.pageaddr k j := by
    intro v m hv hv' hm
    obtain ⟨j, hj, hjm⟩ := hatt.mapped v m hv hv' hm
    exact ⟨j, hj, by simpa using hjm⟩
  have hbehind : ∀ j, c ≤ j → u.pageaddr k j = s.pageaddr k j := fun j hj => hatt.rest j (by omega)
  constructor
  · intro hcounted
    have hproc : u.proc = update u.proc p { u.proc p with keys := (s.proc p).keys } := by
      have hkeys := hatt.keys
      rw [← hkeys]
      exact (update_eq_self p u.proc).symm
    have hsum : ∀ m, u.total m + u.recorded k 0 c m = s.total m := by
      intro m
      have h1 := total_keys (m := m) hatt.other hproc rfl
      have h2 := shared_congr (m := m) fun k' hk' =>
        ofKey_congr (congrFun hnumu k') (hatt.other_key k' hk')
      have h3 : u.ofKey k m = 0 := by simp [State.ofKey, hnumu, hnum, places]
      have h4 := htotal m
      have h5 := hnone m
      simp only at h1
      omega
    have hgone : ∀ j < c, u.total (u.pageaddr k j) = 0 := by
      intro j hj
      have h1 := hsum (u.pageaddr k j)
      have h2 := recorded_pos (u := u) (k := k) hj
      have h3 := h.once (u.pageaddr k j)
      omega
    refine h.attach hcounted hlive hatt hproc (fun _ hk => hk)
      (fun k' _ => ⟨congrFun hrefu k', congrFun hnumu k'⟩) rfl (fun m => ?_) (by simp [hnum])
      (fun _ => by rw [hnumu, hnum]) (fun j _ => ?_) hroom fun v m hv hv' hm => ?_
    · have := hsum m
      omega
    · by_cases hj : j < c
      · exact hgone j hj
      · rw [hbehind j (not_lt.mp hj)]
        have h1 := hsum (s.pageaddr k j)
        have h2 := h.stale k j (by omega)
        omega
    · obtain ⟨j, hj, hjm⟩ := hmapped v m hv hv' hm
      exact .inl (hjm ▸ hgone j hj)
  · intro hb
    generalize hw : (Shm.attach p k c { u with numpages := update u.numpages k c }).1 = w
    intro hcounted
    have hkeys := hatt.keys
    have hproc := attach_proc hw
    have haddr : w.pageaddr = u.pageaddr := by
      rw [← hw]
      rfl
    have hnumk : w.numpages k = c := by
      rw [← hw]
      exact update_self k c u.numpages
    have hnumo : ∀ k' ≠ k, w.numpages k' = s.numpages k' := by
      intro k' hk'
      rw [← hw, ← hnumu]
      exact update_of_ne hk' c u.numpages
    obtain ⟨hrefk, hrefo⟩ := attach_refcount hw
    have hsum : ∀ m, w.total m = s.total m := by
      intro m
      have h1 := total_keys (m := m) hatt.other hproc (by rw [← hw]; rfl)
      have h2 := shared_congr (m := m) fun k' hk' =>
        ofKey_congr (hnumo k' hk') (haddr ▸ hatt.other_key k' hk')
      have h3 : w.ofKey k m = u.recorded k 0 c m := ofKey_eq_recorded hnumk haddr
      have h4 := htotal m
      have h5 := hnone m
      simp only at h1
      omega
    refine h.attach hcounted hlive hatt hproc (fun _ => keys_attached hkeys)
      (fun k' hk' => ⟨(hrefo k' hk').trans (congrFun hrefu k'), hnumo k' hk'⟩) haddr
      (fun m => (hsum m).le) (by simp [hnum]) (fun h => absurd h hrefk) (fun j hj => ?_) hroom
      fun v m hv hv' hm => ?_
    · rw [haddr, hbehind j (hnumk ▸ hj), hsum]
      exact h.stale k j (by omega)
    · obtain ⟨j, hj, hjm⟩ := hmapped v m hv hv' hm
      refine .inr ⟨k, j, ?_, hnumk ▸ hj, by rw [haddr, hjm]⟩
      rw [hproc, update_self]
      exact update_self ..

lemma old_owned (hne : s.refcount k ≠ 0) (haddr : u.pageaddr = s.pageaddr)
    (htotal : ∀ m, u.free.count m + (u.proc p).owns m = s.free.count m + (s.proc p).owns m)
    (hfailed : b = true ∨ ∀ v, (u.proc p).bound ≤ v → v < (s.proc p).bound → (u.proc p).pgdir.pte v = none) :
    (b = false → Counted u → Owned u) ∧ (Counted (Shm.attach p k n u).1 → Owned (Shm.attach p k n u).1) := by
  have hnumu := hatt.numpages
  have hrefu := hatt.refcount
  have hkeys := hatt.keys
  have hsum : ∀ (w : State) (K : Key → Bool) (m : Page),
      w.proc = update u.proc p { u.proc p with keys := K } → w.free = u.free →
      w.numpages = s.numpages → w.pageaddr = s.pageaddr → w.total m = s.total m := by
    intro w K m hproc hfree hnum hpa
    have h1 := total_keys (m := m) hatt.other hproc hfree
    have h2 := shared_congr (k := k) (m := m) fun k' _ =>
      ofKey_congr (congrFun hnum k') (congrFun hpa k')
    have h3 : w.ofKey k m = s.ofKey k m := ofKey_congr (congrFun hnum k) (congrFun hpa k)
    have h4 := htotal m
    simp only at h1
    omega
  constructor
  · intro hb hcounted
    have hproc : u.proc = update u.proc p { u.proc p with keys := (s.proc p).keys } := by
      rw [← hkeys]
      exact (update_eq_self p u.proc).symm
    have hsame : ∀ m, u.total m = s.total m := fun m => hsum u _ m hproc rfl hnumu haddr
    refine h.attach hcounted hlive hatt hproc (fun _ hk => hk)
      (fun k' _ => ⟨congrFun hrefu k', congrFun hnumu k'⟩) rfl (fun m => (hsame m).le)
      (fun j hj => ⟨by rw [hnumu]; exact hj, by rw [haddr]⟩) (fun hk => absurd (hrefu ▸ hk) hne)
      (fun j hj => ?_) hroom fun v m hv hv' hm => ?_
    · rw [hsame, haddr]
      exact h.stale k j (hnumu ▸ hj)
    · rcases hfailed with hdone | hnone
      · rw [hb] at hdone
        cases hdone
      · rw [hnone v hv hv'] at hm
        cases hm
  · generalize hw : (Shm.attach p k n u).1 = w
    intro hcounted
    have hproc := attach_proc hw
    have hnumw : w.numpages = s.numpages := by
      rw [← hw, ← hnumu]
      rfl
    have haddrw : w.pageaddr = s.pageaddr := by
      rw [← hw, ← haddr]
      rfl
    obtain ⟨hrefk, hrefo⟩ := attach_refcount hw
    have hsame : ∀ m, w.total m = s.total m := fun m => hsum w _ m hproc (by rw [← hw]; rfl) hnumw haddrw
    have hstale : ∀ j, w.numpages k ≤ j → w.total (w.pageaddr k j) = 0 := by
      intro j hj
      rw [hsame, haddrw]
      exact h.stale k j (hnumw ▸ hj)
    refine h.attach hcounted hlive hatt hproc (fun _ => keys_attached hkeys)
      (fun k' hk' => ⟨(hrefo k' hk').trans (congrFun hrefu k'), congrFun hnumw k'⟩)
      (haddrw.trans haddr.symm) (fun m => (hsame m).le)
      (fun j hj => ⟨by rw [hnumw]; exact hj, by rw [haddrw]⟩) (fun h => absurd h hrefk) hstale hroom
      fun v m hv hv' hm => ?_
    · obtain ⟨j, hj, hjm⟩ := hatt.mapped v m hv hv' hm
      have hm' : m = w.pageaddr k j := by
        rw [hjm, haddrw, haddr, zero_add]
      by_cases hlt : j < w.numpages k
      · refine .inr ⟨k, j, ?_, hlt, hm'.symm⟩
        rw [hproc, update_self]
        exact update_self ..
      · exact .inl (hm' ▸ hstale j (not_lt.mp hlt))

end

lemma top_lt (hx : x.Laid) : x.top < 2 ^ 32 := by
  have h1 := hx.top
  have h2 := Nat.mul_le_mul_right PGSIZE hx.bound
  rw [← kernbase_eq] at h2
  unfold KERNBASE at h2
  omega

lemma shmgetatKey_owned (h : Owned s) (hlive : (s.proc p).state = .live) (hroom : Room s p k n) :
    Outcome NotTwice (fun r => Counted r.1 → Owned r.1) (shmgetatKey p k n s) := by
  have hused : (s.proc p).state ≠ .unused := by simp [hlive]
  have hfits := h.fits p hused
  have hunused : s.refcount k = 0 → (s.proc p).keys k = false := h.counted.unused_key hlive
  unfold shmgetatKey
  dsimp only
  split
  · rename_i hzero
    have hn := (hroom (hunused hzero)).1
    split
    · exact fun _ => h
    · rename_i hcheck
      rw [sub32_eq hn (top_lt hfits.toLaid)] at hcheck
      have hfit : (s.proc p).sz + n * PGSIZE ≤ (s.proc p).top := by omega
      refine Outcome.bind (attachNew_spec hfits.toLaid hused hn) fun r hr => ?_
      obtain ⟨c, hc, hdone, hatt, htotal⟩ := hr
      have hle := le_trans (Nat.add_le_add_left (Nat.mul_le_mul_right PGSIZE hc) _) hfit
      have hnew := new_owned h hlive hatt hle hzero htotal
      obtain ⟨b, u⟩ := r
      cases b with
      | true =>
        obtain rfl := hdone rfl
        exact hnew.2 rfl
      | false => exact hnew.1
  · rename_i hne
    split
    · rename_i hkey
      obtain ⟨hn, hold⟩ := hroom hkey
      obtain ⟨hfit, hone⟩ := hold hne
      refine Outcome.bind (outcome_and ((attachOld_spec hfits.toLaid hused hn).mono fun _ _ => trivial)
        fun r hr => hr) fun r hr => ?_
      obtain ⟨c, hc, hdone, hatt, haddr, htotal⟩ :=
        (ok_of_outcome (attachOld_spec hfits.toLaid hused hn) hr :)
      have hle := le_trans (Nat.add_le_add_left (Nat.mul_le_mul_right PGSIZE hc) _) hfit
      obtain ⟨b, u⟩ := r
      have hall := attachOld_failed hfits.toLaid hused hn hone hr
      have hnext := old_owned (n := n) h hlive hatt hle hne haddr htotal hall
      cases b with
      | true => exact hnext.2
      | false => exact hnext.1 rfl
    · exact fun _ => h

/-- The arguments of the call are in their ranges. -/
def Valid : Action → Prop
  | .shmgetat _ key num => (0 ≤ key ∧ key < NKEYS) ∧ 1 ≤ num ∧ num ≤ NKEYPAGES
  | .shmRefcount _ key => 0 ≤ key ∧ key < NKEYS
  | .fork _ | .exec _ _ _ | .sbrk _ _ | .exit _ | .wait _ => True

/-- `exec` is called by processes that share nothing, and `shmgetat` where there is room. -/
def Safe (s : State) : Action → Prop
  | .shmgetat p key num => ∀ k : Key, k.val = key.toNat → Room s p k num.toNat
  | .exec p _ _ => (s.proc p).top = KERNBASE
  | .shmRefcount _ _ | .fork _ | .sbrk _ _ | .exit _ | .wait _ => True

lemma Valid.inRange {a : Action} (h : Valid a) : InRange a := by
  cases a with
  | shmgetat p key num =>
    have := h.1.2
    simp only [InRange]
    omega
  | shmRefcount p key => exact h
  | _ => trivial

lemma call_owned {a : Action} (h : Owned s) (hlive : (s.proc a.caller).state = .live) (hvalid : Valid a)
    (hsafe : Safe s a) : Outcome NotTwice (fun r => Counted r.1 → Owned r.1) (call a s) := by
  cases a with
  | fork p => exact fork_owned h hlive
  | shmgetat p key num =>
    simp only [call, shmgetat]
    split
    · exact fun _ => h
    split
    · exact fun _ => h
    · rw [slotOf, dif_pos hvalid.1]
      exact shmgetatKey_owned h hlive (hsafe _ rfl)
  | shmRefcount p key =>
    have hin : 0 ≤ key ∧ key < NKEYS := hvalid
    simp only [call, shmRefcount]
    rw [slotOf, dif_pos hin]
    exact fun _ => h
  | exec p file argv => exact exec_owned h hlive hsafe
  | sbrk p n => exact sbrk_owned h hlive
  | exit p => exact exit_owned h hlive
  | wait p => exact wait_owned h

lemma step_owned {a : Action} (h : Owned s) (hvalid : Valid a) (hsafe : Safe s a) :
    Outcome NotTwice (fun r => Owned r.1) (step a s) := by
  have hcounted := step_counted h.counted hvalid.inRange
  unfold step at hcounted ⊢
  split
  · rename_i hlive
    rw [if_pos hlive] at hcounted
    have hcall := call_owned h hlive hvalid hsafe
    refine outcome_and (hcall.mono fun _ _ => trivial) fun r hr => ?_
    exact (ok_of_outcome hcall hr :) (ok_of_outcome hcounted hr :)
  · intro m hm
    cases hm

/-- The memory that the first process starts with and the free list have no page in common. -/
structure Booted (kstack : Page) (g : Pgdir) (free : List Page) : Prop where
  formed : g.Formed
  once : ∀ m, free.count m + (if some kstack = some m then 1 else 0) + g.base m + g.low UPAGES m ≤ 1
  zero : free.count 0 + (if some kstack = some 0 then 1 else 0) + g.base 0 + g.low UPAGES 0 = 0

lemma total_boot {kstack : Page} {g : Pgdir} : (boot kstack g free).total m =
    free.count m + (if some kstack = some m then 1 else 0) + g.base m + g.low UPAGES m := by
  have hshared : (boot kstack g free).shared m = 0 := by
    simp [State.shared, State.ofKey, boot, places]
  have hother : ∀ q ≠ initproc, ((boot kstack g free).proc q).owns m = 0 := by
    intro q hq
    refine owns_unused ?_
    simp [boot, update_of_ne hq, Proc.zero]
  have hinit : ((boot kstack g free).proc initproc).owns m =
      (if some kstack = some m then 1 else 0) + g.base m + g.low UPAGES m := by
    have hproc : (boot kstack g free).proc initproc =
        ⟨.live, none, kstack, g, PGSIZE, KERNBASE, fun _ => false⟩ := by simp [boot]
    rw [hproc, owns_of_used (by simp), bound_eq kernbase_eq]
  have hsum := sum_eq_single_of_mem
    initproc (mem_univ _) fun q _ hq => hother q hq
  have hfree : (boot kstack g free).free = free := rfl
  unfold State.total
  rw [hfree]
  omega

lemma Owned.boot {kstack : Page} {g : Pgdir} (h : Booted kstack g free) : Owned (boot kstack g free) := by
  have hproc : (Shm.boot kstack g free).proc initproc =
      ⟨.live, none, kstack, g, PGSIZE, KERNBASE, fun _ => false⟩ := by simp [Shm.boot]
  have hother : ∀ q ≠ initproc, ((Shm.boot kstack g free).proc q).state = .unused := by
    intro q hq
    simp [Shm.boot, update_of_ne hq, Proc.zero]
  have hbound : ((Shm.boot kstack g free).proc initproc).bound = UPAGES :=
    bound_eq (by rw [hproc]; exact kernbase_eq)
  have hzero := total_boot.trans h.zero
  refine ⟨.boot, fun m => total_boot.trans_le (h.once m), hzero, fun q hq => ?_, fun _ _ => rfl,
    fun _ _ _ => hzero, fun q hq v m hv hm => ?_⟩
  · have hinit : q = initproc := by
      by_contra hne
      exact hq (hother q hne)
    subst hinit
    refine ⟨⟨by rw [hproc]; exact h.formed, ?_, hbound.le⟩, ?_⟩
    · rw [hbound, hproc, kernbase_eq]
    · rw [hproc]
      exact (by decide : PGSIZE ≤ KERNBASE)
  · have hinit : q = initproc := by
      by_contra hne
      rw [hother q hne] at hq
      cases hq
    subst hinit
    rw [hproc] at hm
    have := (h.formed v (by simp only at hm; simp [hm])).1
    omega

lemma Owned.mapped_notMem (h : Owned s) (hlive : (s.proc p).state = .live) {v : ℕ}
    (hm : (s.proc p).pgdir.pte v = some m) : m ∉ s.free := by
  rw [← List.count_eq_zero]
  by_cases hv : v < (s.proc p).bound
  · have h1 := h.low_le (p := p) (m := m) (by simp [hlive])
    have h2 : 0 < (s.proc p).pgdir.low (s.proc p).bound m := places_pos (mem_range.mpr hv) hm
    omega
  · rcases h.mapped p hlive v m (not_lt.mp hv) hm with hgone | ⟨k, j, _, hj, hjm⟩
    · have := owns_le (s := s) (p := p) (m := m)
      omega
    · have h1 := recorded_le hj
      have h2 := h.once (s.pageaddr k j)
      rw [hjm] at h1 h2
      omega

/-- After calls that do not overlap, none of which executes a program in a process that shares memory or maps
shared pages where there is no room, no page that a process has mapped is on the free list, and none is freed twice. -/
theorem shared_pages_kept {kstack : Page} {g : Pgdir} (hboot : Booted kstack g free)
    (h : Timeline step (NoOverlap fun s a => Valid a ∧ Safe s a) (boot kstack g free) es (.idle s)) :
    (∀ p, (s.proc p).state = .live → ∀ v m, (s.proc p).pgdir.pte v = some m → m ∉ s.free) ∧
      ∀ a, Valid a → Safe s a → ∀ m, step a s ≠ .error (.fault (.twice m)) := by
  have hs := h.run.invariant
      (fun s a s' es hs (ha : Valid a ∧ Safe s a) hstep =>
        (ok_of_outcome (step_owned hs ha.1 ha.2) hstep :)) (.boot hboot)
  refine ⟨fun p hp v m hm => hs.mapped_notMem hp hm, fun a hv hsafe m hm => ?_⟩
  have hstep := step_owned hs hv hsafe
  rw [hm] at hstep
  exact hstep m rfl

instance : ∀ a, Decidable (Valid a)
  | .shmgetat _ _ _ => inferInstanceAs (Decidable ((_ ∧ _) ∧ _ ∧ _))
  | .shmRefcount _ _ => inferInstanceAs (Decidable (_ ∧ _))
  | .fork _ | .exec _ _ _ | .sbrk _ _ | .exit _ | .wait _ => inferInstanceAs (Decidable True)

instance : Decidable (Room s p k n) := inferInstanceAs (Decidable (_ → _ ∧ (_ → _ ∧ _)))

instance : ∀ a, Decidable (Safe s a)
  | .shmgetat p _ num => inferInstanceAs (Decidable (∀ k : Key, _ → Room s p k num.toNat))
  | .exec p _ _ => inferInstanceAs (Decidable ((s.proc p).top = KERNBASE))
  | .shmRefcount _ _ | .fork _ | .sbrk _ _ | .exit _ | .wait _ => inferInstanceAs (Decidable True)

lemma initPgdir_booted : Booted 4 initPgdir (List.range' 5 200) := by
  have hpte : ∀ m, initPgdir.low UPAGES m = if m = 3 then 1 else 0 := by
    intro m
    have hone := sum_eq_single_of_mem (f := fun v => if initPgdir.pte v = some m then 1 else 0)
      0 (mem_range.mpr (by decide : 0 < UPAGES)) fun v _ hv => by simp [initPgdir, hv]
    rw [Pgdir.low, places, hone]
    simp [initPgdir, eq_comm]
  have htab : ∀ m, places (Finset.range NPDENTRIES) initPgdir.tab m ≤
      if m = 2 ∨ 1000 < m then 1 else 0 := by
    intro m
    split
    · refine places_le_one fun i _ j _ hi hj => ?_
      simp only [initPgdir] at hi hj
      split at hi <;> split at hj <;> grind
    · rename_i hm
      refine (places_eq_zero fun i _ hi => ?_).le
      simp only [initPgdir] at hi
      grind
  have hbase : ∀ m, initPgdir.base m ≤ (if m = 1 then 1 else 0) + if m = 2 ∨ 1000 < m then 1 else 0 := by
    intro m
    have hdir : (if some initPgdir.dir = some m then 1 else 0) = if m = 1 then 1 else 0 := by
      simp [initPgdir, eq_comm]
    have := htab m
    rw [Pgdir.base, hdir]
    omega
  have hfree : ∀ m, (List.range' 5 200).count m = if 5 ≤ m ∧ m < 205 then 1 else 0 := by
    intro m
    rw [List.Nodup.count (List.nodup_range')]
    simp [List.mem_range'_1]
  have hkstack : ∀ m, (if some 4 = some m then 1 else 0) = if m = 4 then 1 else 0 := by
    intro m
    simp [eq_comm]
  have htotal : ∀ m, (List.range' 5 200).count m + (if some 4 = some m then 1 else 0) +
      initPgdir.base m + initPgdir.low UPAGES m ≤ if m = 0 then 0 else 1 := by
    intro m
    rw [hfree, hkstack, hpte]
    grind
  refine ⟨fun v hv => ?_, fun m => (htotal m).trans (by split <;> omega), Nat.le_zero.mp (htotal 0)⟩
  have hzero : v = 0 := by
    by_contra hne
    exact hv (by simp [initPgdir, hne])
  subst hzero
  exact ⟨by decide, by simp [initPgdir]⟩

/-- Two processes share a page, and the child exits. -/
theorem sharing_child_exits : ∃ s, Run step (fun s a => Valid a ∧ Safe s a)
    (boot 4 initPgdir (List.range' 5 200)) [.attached 0 0 1 (KERNBASE - PGSIZE), .renewed 1, .returned 0 1,
      .attached 1 0 1 (KERNBASE - PGSIZE)] s ∧
    (s.proc 0).pgdir.pte (UPAGES - 1) = some (s.pageaddr 0 0) ∧ s.pageaddr 0 0 ∉ s.free := by
  obtain ⟨s, hrun, hlive, hpte⟩ : ∃ s, Run step (fun s a => Valid a ∧ Safe s a)
      (boot 4 initPgdir (List.range' 5 200)) [.attached 0 0 1 (KERNBASE - PGSIZE), .renewed 1,
        .returned 0 1, .attached 1 0 1 (KERNBASE - PGSIZE)] s ∧
      (s.proc 0).state = .live ∧ (s.proc 0).pgdir.pte (UPAGES - 1) = some (s.pageaddr 0 0) :=
    Run.of_leads [.shmgetat 0 0 1, .fork 0, .shmgetat 1 0 1, .exit 1] (by decide +kernel)
  exact ⟨s, hrun, hpte, (shared_pages_kept initPgdir_booted hrun.timeline).1 0 hlive _ _ hpte⟩

/-- The child calls `exec` without success before it exits. Then `freevm` frees the page, which the parent still
maps. -/
theorem sharing_child_executes : ∃ s, Run step (fun _ a => Valid a) (boot 4 initPgdir (List.range' 5 200))
    [.attached 0 0 1 (KERNBASE - PGSIZE), .renewed 1, .returned 0 1, .attached 1 0 1 (KERNBASE - PGSIZE),
      .renewed 1, .returned 1 (-1), .returned 0 1] s ∧ (s.proc 0).state = .live ∧ s.numpages 0 = 1 ∧
    (s.proc 0).pgdir.pte (UPAGES - 1) = some (s.pageaddr 0 0) ∧ s.pageaddr 0 0 ∈ s.free :=
  Run.of_leads [.shmgetat 0 0 1, .fork 0, .shmgetat 1 0 1, .exec 1 none [], .exit 1, .wait 0] (by decide +kernel)

end LearnXv6.Shm
