import LearnXv6.Lazy.Memory

/-! What `growproc` returns and what it leaves of the memory, for every argument. -/
namespace LearnXv6.Lazy
open Function Store

variable {g : Pgdir} {s : State} {oldsz newsz v k free : ℕ} {n : ℤ}

/-- Exactly the pages of the process are mapped. -/
structure Sized (s : State) : Prop where
  small : s.sz < KERNBASE
  formed : s.pgdir.Formed
  mapped : ∀ v < UPAGES, s.pgdir.pte v ≠ none ↔ v < pages s.sz

/-- The process has `n` bytes more. -/
structure Grown (n : ℤ) (s s' : State) : Prop where
  killed : s'.killed = s.killed
  formed : s'.pgdir.Formed
  sz : (s'.sz : ℤ) = s.sz + n
  small : s'.sz < KERNBASE
  mapped : ∀ v < UPAGES, s'.pgdir.pte v ≠ none ↔ v < pages s'.sz
  fresh : ∀ v, pages s.sz ≤ v → v < pages s'.sz → s'.pgdir.pte v = some blank
  kept : ∀ v, v < pages s.sz → v < pages s'.sz → s'.pgdir.pte v = s.pgdir.pte v

/-- The size, the mappings and the contents of the pages are the same. -/
def Same (s s' : State) : Prop := s'.sz = s.sz ∧ s'.pgdir.pte = s.pgdir.pte

/-- `growproc` returns 0 with `n` bytes more, or -1 with nothing changed. -/
def GrowsOrFails (n : ℤ) (s : State) : Prop :=
  ∃ done s', growproc n s = .ok (done, s') ∧ if done then Grown n s s' else Same s s'

lemma deallocuvm_pte (hg : g.Formed) (hsmall : oldsz < KERNBASE) (hle : newsz < oldsz) (free : ℕ) :
    ∃ g' free', deallocuvm g oldsz newsz free = (newsz, g', free') ∧ g'.Formed ∧
      ∀ u, g'.pte u = if pages newsz ≤ u ∧ u < pages oldsz then none else g.pte u := by
  have hold : oldsz ≤ UPAGES * PGSIZE := by
    unfold UPAGES PGSIZE
    unfold KERNBASE at hsmall
    omega
  have hfuel : oldsz ≤ (pages newsz + pages oldsz) * PGSIZE := by
    unfold pages PGSIZE
    omega
  obtain ⟨htab, hpte⟩ := deallocFrom_pte hg hold hfuel free
  refine ⟨_, _, by rw [deallocuvm, if_neg (by omega)], fun u hu hne => ?_, fun u => ?_⟩
  · rw [htab]
    refine hg u hu fun hnone => hne ?_
    rw [hpte, hnone]
    exact ite_self none
  · rw [hpte]
    simp only [lt_pages]

/-- The loop of `allocuvm` maps its pages, or it takes back what was mapped above `oldsz`. With two free pages for
each page it does not run out of memory. -/
lemma allocFrom_cases (free : ℕ) (hg : g.Formed) (hsmall : newsz < KERNBASE) (hlo : pages oldsz ≤ v)
    (hhi : v + k = pages newsz) (hnone : ∀ u, v ≤ u → u < pages newsz → g.pte u = none) :
    ∃ r g' free', allocFrom oldsz newsz k v g free = .ok (r, g', free') ∧
      (r = newsz ∧ g'.Formed ∧ (∀ u, g'.pte u = if v ≤ u ∧ u < pages newsz then some blank else g.pte u) ∨
        r = 0 ∧ free < 2 * k ∧ ∀ u, g'.pte u = if pages oldsz ≤ u ∧ u < pages newsz then none else g.pte u) := by
  induction k generalizing v g free with
  | zero => exact ⟨newsz, g, free, rfl, .inl ⟨rfl, hg, fun u => (if_neg (by omega)).symm⟩⟩
  | succ k ih =>
    have hlt : oldsz < newsz := by
      by_contra hge
      have := pages_mono (not_lt.mp hge)
      omega
    unfold allocFrom
    cases free with
    | zero =>
      obtain ⟨g', free', hde, -, hpte⟩ := deallocuvm_pte hg hsmall hlt 0
      rw [hde]
      exact ⟨0, g', free', rfl, .inr ⟨rfl, by omega, hpte⟩⟩
    | succ free =>
      obtain ⟨done, g1, free1, hmap, hroom, hpte1⟩ := mappages_cases blank free (hnone v le_rfl (by omega))
      have hg1 := mappages_formed hg hmap
      dsimp only
      rw [hmap, ok_bind]
      dsimp only
      cases done with
      | true =>
        have hother : ∀ u, u ≠ v → g1.pte u = g.pte u := by
          intro u hu
          rw [hpte1, if_pos rfl, update_of_ne hu]
        obtain ⟨r, g', free', hrest, hcases⟩ := ih free1 hg1 (v := v + 1) (by omega) (by omega)
          fun u hu hu' => by rw [hother u (by omega), hnone u (by omega) hu']
        refine ⟨r, g', free', hrest, ?_⟩
        rcases hcases with ⟨hr, hg', hpte⟩ | ⟨hr, hfew, hpte⟩
        · refine .inl ⟨hr, hg', fun u => ?_⟩
          rw [hpte]
          by_cases huv : u = v
          · subst huv
            rw [if_neg (by omega), if_pos (by omega), hpte1, if_pos rfl, update_self]
          · simp only [show (v + 1 ≤ u ↔ v ≤ u) by omega, hother u huv]
        · refine .inr ⟨hr, by omega, fun u => ?_⟩
          rw [hpte]
          split
          · rfl
          · exact hother u (by omega)
      | false =>
        obtain ⟨g', free', hde, -, hpte⟩ := deallocuvm_pte hg1 hsmall hlt free1
        simp only [Bool.false_eq_true, if_false, false_and, imp_false] at hpte1 hroom ⊢
        rw [hde]
        refine ⟨0, g', free' + 1, rfl, .inr ⟨rfl, by omega, fun u => ?_⟩⟩
        rw [hpte, hpte1]

/-- The end of `growproc`, where the size 0 stands for a failure. -/
def settle (s : State) : ℕ × Pgdir × ℕ → Bool × State
  | (sz, g, free) =>
    if sz = 0 then (false, { s with pgdir := g, free := free })
    else (true, { s with pgdir := g, free := free, sz := sz })

lemma growproc_pos {r : ℕ × Pgdir × ℕ} (hn : 0 < n)
    (h : allocuvm s.pgdir s.sz (add32 s.sz n) s.free = .ok r) : growproc n s = .ok (settle s r) := by
  have hne : n ≠ 0 := hn.ne'
  rw [growproc, if_pos hn, h, ok_bind, settle]
  simp only [hne, ne_eq, not_false_eq_true, true_and]
  split
  · rfl
  · rfl

lemma growproc_neg (hn : n < 0) :
    growproc n s = .ok (settle s (deallocuvm s.pgdir s.sz (add32 s.sz n) s.free)) := by
  have hne : n ≠ 0 := hn.ne
  rw [growproc, if_neg hn.not_gt, if_pos hn, ok_bind, settle]
  simp only [hne, ne_eq, not_false_eq_true, true_and]
  split
  · rfl
  · rfl

lemma add32_eq (h : 0 ≤ s.sz + n) (hlt : s.sz + n < KERNBASE) : add32 s.sz n = (s.sz + n).toNat := by
  unfold add32
  unfold KERNBASE at hlt
  rw [Int.emod_eq_of_lt h (by omega)]

namespace Sized

lemma absent (h : Sized s) (hlo : pages s.sz ≤ v) (hv : v < UPAGES) : s.pgdir.pte v = none := by
  by_contra hne
  have := (h.mapped v hv).mp hne
  omega

lemma stay (h : Sized s) : Grown 0 s s :=
  ⟨rfl, h.formed, by omega, h.small, h.mapped, fun v hlo hhi => absurd hhi (by omega), fun _ _ _ => rfl⟩

lemma grow (h : Sized s) (hn : 0 < n) (hn' : n < 2 ^ 31) :
    ∃ done s', growproc n s = .ok (done, s') ∧ (if done then Grown n s s' else Same s s') ∧
      (s.sz + n < KERNBASE → 2 * (pages (add32 s.sz n) - pages s.sz) ≤ s.free → done = true) := by
  have hsmall := h.small
  unfold KERNBASE at hsmall
  have hadd : add32 s.sz n = (s.sz + n).toNat := by
    unfold add32
    rw [Int.emod_eq_of_lt (by omega) (by omega)]
  generalize hnew : add32 s.sz n = newsz at hadd
  by_cases hbig : newsz ≥ KERNBASE
  · refine ⟨false, s, ?_, ⟨rfl, rfl⟩, fun hlt => by omega⟩
    rw [growproc_pos hn (r := (0, s.pgdir, s.free)) (by rw [hnew, allocuvm, if_pos hbig])]
    rfl
  have hmono : pages s.sz ≤ pages newsz := pages_mono (by omega)
  have hup := pages_le_upages (not_le.mp hbig)
  obtain ⟨r, g, free, halloc, hcases⟩ := allocFrom_cases s.free h.formed
    (not_le.mp hbig) (le_refl (pages s.sz)) (Nat.add_sub_of_le hmono) fun u hu hu' => h.absent hu (by omega)
  have hgrow : growproc n s = .ok (settle s (r, g, free)) := by
    refine growproc_pos hn ?_
    rw [hnew, allocuvm, if_neg hbig, if_neg (by omega), halloc]
  rw [hgrow]
  rcases hcases with ⟨rfl, hformed, hpte⟩ | ⟨rfl, hfew, hpte⟩
  · have hne : r ≠ 0 := by omega
    refine ⟨true, _, by rw [settle, if_neg hne], ?_, fun _ _ => rfl⟩
    rw [if_pos rfl]
    refine ⟨rfl, hformed, by show (r : ℤ) = _; omega, not_le.mp hbig, fun v hv => ?_, fun v hlo hhi => ?_, fun v hv _ => ?_⟩
    · show g.pte v ≠ none ↔ v < pages r
      rw [hpte]
      split
      · simp only [ne_eq, reduceCtorEq, not_false_eq_true, true_iff]
        omega
      · rw [h.mapped v hv]
        omega
    · exact (hpte v).trans (if_pos ⟨hlo, hhi⟩)
    · exact (hpte v).trans (if_neg (by omega))
  · refine ⟨false, _, rfl, ⟨rfl, funext fun u => ?_⟩, fun _ hroom => absurd hroom (by omega)⟩
    show g.pte u = _
    rw [hpte]
    split
    · rename_i hu
      exact (h.absent hu.1 (by omega)).symm
    · rfl

lemma shrink (h : Sized s) (hn : n < 0) (hsz : 0 < s.sz + n) :
    ∃ s', growproc n s = .ok (true, s') ∧ Grown n s s' := by
  have hsmall := h.small
  have hadd := add32_eq (s := s) (n := n) hsz.le (by omega)
  generalize hnew : add32 s.sz n = newsz at hadd
  obtain ⟨g, free, hde, hformed, hpte⟩ := deallocuvm_pte h.formed hsmall (show newsz < s.sz by omega) s.free
  have hmono : pages newsz ≤ pages s.sz := pages_mono (by omega)
  have hne : newsz ≠ 0 := by omega
  refine ⟨_, by rw [growproc_neg hn, hnew, hde, settle, if_neg hne], ?_⟩
  refine ⟨rfl, hformed, by show (newsz : ℤ) = _; omega, by show newsz < _; omega, fun v hv => ?_, fun v hlo hhi => ?_,
    fun v _ hv => ?_⟩
  · show g.pte v ≠ none ↔ v < pages newsz
    rw [hpte]
    split
    · simp only [ne_eq, not_true, false_iff]
      omega
    · rw [h.mapped v hv]
      omega
  · exact absurd (hhi.trans_le hmono) (by omega)
  · exact (hpte v).trans (if_neg (by dsimp only at hv; omega))

/-- A process can give back its whole memory, and more: the first loses its pages and gets -1, the second keeps
them and gets 0. -/
lemma not_grows (h : Sized s) (hn : -2 ^ 31 ≤ n) (hpos : 0 < s.sz) (hle : s.sz + n ≤ 0) :
    ¬ GrowsOrFails n s := by
  have hsmall := h.small
  unfold KERNBASE at hsmall
  rintro ⟨done, s', hgrow, hres⟩
  rw [growproc_neg (by omega)] at hgrow
  rcases hle.eq_or_lt with hzero | hneg
  · have hadd : add32 s.sz n = 0 := by
      unfold add32
      rw [hzero]
      rfl
    obtain ⟨g, free, hde, -, hpte⟩ := deallocuvm_pte h.formed h.small hpos s.free
    rw [hadd, hde] at hgrow
    cases hgrow
    -- the first page was there
    have hfirst : (0 : ℕ) < pages s.sz := by
      rw [lt_pages]
      omega
    have hgone := congrFun hres.2 0
    dsimp only at hgone
    rw [hpte, if_pos ⟨by decide, hfirst⟩] at hgone
    exact (h.mapped 0 (by decide)).mpr hfirst hgone.symm
  · have hadd : s.sz ≤ add32 s.sz n := by
      unfold add32
      rw [← Int.add_emod_right, Int.emod_eq_of_lt (by omega) (by omega)]
      omega
    rw [deallocuvm, if_pos hadd, settle, if_neg hpos.ne'] at hgrow
    cases hgrow
    have hsz := hres.sz
    omega

end Sized

/-- `growproc` does what it returns, unless a process gives back all of its memory or more. -/
theorem growproc_exact (n : ℤ) (s : State) (hlo : -2 ^ 31 ≤ n) (hhi : n < 2 ^ 31) (h : Sized s) :
    GrowsOrFails n s ↔ ¬ (n < 0 ∧ 0 < s.sz ∧ s.sz + n ≤ 0) := by
  constructor
  · rintro hgrows ⟨-, hpos, hle⟩
    exact h.not_grows hlo hpos hle hgrows
  · intro hnot
    rcases lt_trichotomy n 0 with hn | rfl | hn
    · rcases Nat.eq_zero_or_pos s.sz with hz | hpos
      · -- nothing can be given back, and the size 0 reads as a failure
        refine ⟨false, s, ?_, rfl, rfl⟩
        rw [growproc_neg hn, deallocuvm, if_pos (by omega), settle, if_pos hz]
      · obtain ⟨s', hgrow, hs⟩ := h.shrink hn (by omega)
        exact ⟨true, s', hgrow, hs⟩
    · exact ⟨true, s, rfl, h.stay⟩
    · obtain ⟨done, s', hgrow, hs, -⟩ := h.grow hn hhi
      exact ⟨done, s', hgrow, hs⟩

/-- A process with a page for its program, a guard page and a stack. The pages of the kernel are not for the
user. -/
def image : State where
  pgdir := {
    tab i := decide (i = 0) || decide (512 ≤ i)
    pte v := if v < 3 then some ⟨decide (v ≠ 1), fun _ => 0⟩
      else if v < UPAGES then none else some ⟨false, fun _ => 0⟩ }
  sz := 3 * PGSIZE
  killed := false
  free := 100

lemma image_sized : Sized image := by
  refine ⟨by decide, fun v hv hne => ?_, fun v hv => ?_⟩
  · have hlt : v < 3 := by
      by_contra hge
      simp [image, hge, hv] at hne
    have hzero : v / NPDENTRIES = 0 := Nat.div_eq_of_lt (hlt.trans (by unfold NPDENTRIES; decide))
    simp [image, hzero]
  · have hpages : pages image.sz = 3 := by decide
    rw [hpages]
    by_cases hlt : v < 3
    · simp [image, hlt]
    · simp [image, hlt, hv]

theorem image_grows : GrowsOrFails 4097 image :=
  (growproc_exact 4097 image (by decide) (by decide) image_sized).mpr (by simp)

/-- Three pages of memory, given back at once or with one byte too many. -/
theorem growproc_inexact : ¬ GrowsOrFails (-12288) image ∧ ¬ GrowsOrFails (-12289) image :=
  ⟨image_sized.not_grows (by decide) (by decide) (by decide),
    image_sized.not_grows (by decide) (by decide) (by decide)⟩

end LearnXv6.Lazy
