import LearnXv6.Lazy.Refine

/-! What the page fault handler of the lazy kernel does with a fault of any kind. -/
namespace LearnXv6.Lazy
open Store

/-- A page fault: `rcr2`, and the error code with its cause. -/
structure PageFault where
  va : ℕ
  err : ℕ

/-- `trap` for a page fault. The error code is only printed. -/
def pgflt (f : PageFault) (s : State) : Except Fault State := trap f.va s

variable {s s' : State} {f : PageFault}

/-- The page below the stack, which `clearpteu` has taken from the user. -/
def Guard (s : State) (v : ℕ) : Prop := ∃ e, s.pgdir.pte v = some e ∧ e.user = false

/-- What is asked of the handler when it returns. -/
structure Handled (s : State) (f : PageFault) (s' : State) : Prop where
  /-- it maps only what was not mapped, below the size of the process -/
  inside : ∀ v, s'.pgdir.pte v ≠ s.pgdir.pte v → s.pgdir.pte v = none ∧ v * PGSIZE < s.sz
  /-- no page for the user is added above KERNBASE or over a guard page -/
  user : ∀ v e, s'.pgdir.pte v = some e → e.user = true → s'.pgdir.pte v ≠ s.pgdir.pte v →
    v < UPAGES ∧ ¬ Guard s v
  /-- the faulting page is mapped, or the process is killed -/
  killed : ¬ (s.pgdir.pte (f.va / PGSIZE) = none ∧ s'.pgdir.pte (f.va / PGSIZE) ≠ none) →
    s'.killed = true

/-- There is memory for the page, and for a page table if that is not there. -/
def Room (s : State) (v : ℕ) : Prop := 2 ≤ s.free ∨ s.free = 1 ∧ s.pgdir.tab (v / NPDENTRIES) = true

lemma pgflt_cases (f : PageFault) (s : State) :
    (¬ Room s (f.va / PGSIZE) ∧ ∃ s', pgflt f s = .ok s' ∧ s'.pgdir = s.pgdir ∧ s'.killed = s.killed) ∨
    (Room s (f.va / PGSIZE) ∧ s.pgdir.pte (f.va / PGSIZE) ≠ none ∧ pgflt f s = .error (.panic "remap")) ∨
    Room s (f.va / PGSIZE) ∧ s.pgdir.pte (f.va / PGSIZE) = none ∧ ∃ s', pgflt f s = .ok s' ∧
      s'.pgdir.pte = Function.update s.pgdir.pte (f.va / PGSIZE) (some blank) := by
  unfold pgflt trap
  split
  · rename_i hfree
    refine .inl ⟨?_, s, rfl, rfl, rfl⟩
    rintro (h | ⟨h, -⟩) <;> omega
  · rename_i free hfree
    unfold mappages
    cases hwalk : walkpgdir s.pgdir (f.va / PGSIZE) free with
    | none =>
      refine .inl ⟨?_, _, rfl, rfl, rfl⟩
      unfold walkpgdir at hwalk
      split at hwalk
      · cases hwalk
      · rename_i htab
        split at hwalk
        · rintro (h | ⟨-, h⟩)
          · omega
          · exact htab h
        · cases hwalk
    | some r =>
      obtain ⟨g, free'⟩ := r
      have hroom : Room s (f.va / PGSIZE) := by
        unfold walkpgdir at hwalk
        split at hwalk
        · rename_i htab
          by_cases h2 : 2 ≤ s.free
          · exact .inl h2
          · exact .inr ⟨by omega, htab⟩
        · split at hwalk
          · cases hwalk
          · exact .inl (by omega)
      have hpte := walkpgdir_pte hwalk
      dsimp only
      rw [hpte]
      by_cases hmapped : s.pgdir.pte (f.va / PGSIZE) = none
      · refine .inr (.inr ⟨hroom, hmapped, ?_⟩)
        simp [hmapped]
      · refine .inr (.inl ⟨hroom, hmapped, ?_⟩)
        rw [if_pos (Option.isSome_iff_ne_none.mpr hmapped)]
        rfl

/-- The handler does what is asked of it exactly if there is memory and the faulting page is not mapped
and below the size of the process and KERNBASE, or the process has been killed before and there is no memory. -/
theorem page_fault_handled (f : PageFault) (s : State) : (∃ s', pgflt f s = .ok s' ∧ Handled s f s') ↔
      Room s (f.va / PGSIZE) ∧ s.pgdir.pte (f.va / PGSIZE) = none ∧ f.va / PGSIZE * PGSIZE < s.sz ∧
        f.va / PGSIZE < UPAGES ∨ ¬ Room s (f.va / PGSIZE) ∧ s.killed = true := by
  rcases pgflt_cases f s with ⟨hroom, s', hs, hpgdir, hkilled⟩ | ⟨hroom, hmapped, hs⟩ |
    ⟨hroom, hmapped, s', hs, hpte⟩
  · refine ⟨?_, fun hc => ⟨s', hs, ⟨fun v hv => ?_, fun v _ _ _ hv => ?_, fun _ => ?_⟩⟩⟩
    · rintro ⟨u, hu, hhandled⟩
      rw [hs] at hu
      cases hu
      refine .inr ⟨hroom, hkilled ▸ hhandled.killed ?_⟩
      rintro ⟨hnone, hsome⟩
      rw [hpgdir] at hsome
      exact hsome hnone
    · exact absurd (by rw [hpgdir]) hv
    · exact absurd (by rw [hpgdir]) hv
    · rw [hkilled]
      rcases hc with ⟨hr, -⟩ | ⟨-, hk⟩
      · exact absurd hr hroom
      · exact hk
  · refine ⟨?_, ?_⟩
    · rintro ⟨u, hu, -⟩
      rw [hs] at hu
      cases hu
    · rintro (⟨-, hnone, -⟩ | ⟨hr, -⟩)
      · exact absurd hnone hmapped
      · exact absurd hroom hr
  · have hself : s'.pgdir.pte (f.va / PGSIZE) = some blank := by rw [hpte, Function.update_self]
    have hchange : ∀ v, s'.pgdir.pte v ≠ s.pgdir.pte v → v = f.va / PGSIZE := by
      intro v hv
      by_contra hne
      rw [hpte, Function.update_of_ne hne] at hv
      exact hv rfl
    have hnew : s'.pgdir.pte (f.va / PGSIZE) ≠ s.pgdir.pte (f.va / PGSIZE) := by
      rw [hself, hmapped]
      exact Option.some_ne_none _
    refine ⟨?_, ?_⟩
    · rintro ⟨u, hu, hhandled⟩
      rw [hs] at hu
      cases hu
      refine .inl ⟨hroom, hmapped, (hhandled.inside _ hnew).2, (hhandled.user _ blank hself rfl hnew).1⟩
    · rintro (⟨-, -, hsz, hup⟩ | ⟨hr, -⟩)
      · refine ⟨s', hs, ⟨fun v hv => ?_, fun v e _ _ hv => ?_, fun hno => ?_⟩⟩
        · rw [hchange v hv]
          exact ⟨hmapped, hsz⟩
        · rw [hchange v hv]
          refine ⟨hup, ?_⟩
          rintro ⟨g, hg, -⟩
          rw [hmapped] at hg
          cases hg
        · exact absurd ⟨hmapped, by rw [hself]; exact Option.some_ne_none _⟩ hno
      · exact absurd hroom hr

/-- The pages that `kmap` has: the memory, and the devices. -/
def Kernel (v : ℕ) : Prop := UPAGES ≤ v ∧ v < UPAGES + 57344 ∨ 2 ^ 20 - 8192 ≤ v

instance (v : ℕ) : Decidable (Kernel v) := inferInstanceAs (Decidable (_ ∨ _))

/-- A process with a page of text, a guard page and a page of stack. -/
def smallProcess (free : ℕ) : State where
  pgdir := {
    tab i := decide (i = 0) || decide (512 ≤ i ∧ i < 568) || decide (1016 ≤ i)
    pte v :=
      if v < 3 then some ⟨decide (v ≠ 1), fun _ => 0⟩
      else if Kernel v then some ⟨false, fun _ => 0⟩ else none }
  sz := 3 * PGSIZE
  killed := false
  free := free

/-- A fault above the memory of the process is mapped, also above KERNBASE where the kernel has nothing;
one in the guard page is a panic; and without memory the process goes on as if nothing had happened. -/
theorem page_fault_mishandled :
    (∃ s, pgflt ⟨0x3000, 6⟩ (smallProcess 1) = .ok s ∧ s.pgdir.pte 3 = some blank ∧ s.sz = 0x3000) ∧
    (∃ s, pgflt ⟨0x8E000000, 6⟩ (smallProcess 2) = .ok s ∧ s.pgdir.pte 0x8E000 = some blank) ∧
    pgflt ⟨0x1000, 7⟩ (smallProcess 1) = .error (.panic "remap") ∧
    pgflt ⟨0x3000, 6⟩ (smallProcess 0) = .ok (smallProcess 0) ∧ (smallProcess 0).killed = false ∧
    ∃ f s, ¬ ∃ s', pgflt f s = .ok s' ∧ Handled s f s' := by
  have hguard : pgflt ⟨0x1000, 7⟩ (smallProcess 1) = .error (.panic "remap") := by with_unfolding_all rfl
  with_unfolding_all refine ⟨⟨_, rfl, rfl, rfl⟩, ⟨_, rfl, rfl⟩, hguard, rfl, rfl, ⟨0x1000, 7⟩, smallProcess 1, ?_⟩
  rintro ⟨s', hs, -⟩
  rw [hguard] at hs
  cases hs

/-! `fork` in the lazy kernel. -/

open Function List

def PHYSTOP : ℕ := 0xE000000
def DEVSPACE : ℕ := 0xFE000000

/-- The pages of `kmap`, in its order: the first 1 MB, the text, the data up to PHYSTOP, the devices. -/
def kernelPages : List ℕ :=
  List.range' UPAGES (PHYSTOP / PGSIZE) ++
    List.range' (DEVSPACE / PGSIZE) ((2 ^ 32 - DEVSPACE) / PGSIZE)

/-- `freevm`, with what it gives back. -/
def freevm (g : Pgdir) (free : ℕ) : ℕ :=
  let (g, free) := (deallocuvm g KERNBASE 0 free).2
  free + ((List.range NPDENTRIES).filter fun i => g.tab i).length + 1

/-- `mappages` for the pages of the kernel. What they contain is not for the process. -/
def mapKernel : List ℕ → Pgdir → ℕ → Except Fault (Bool × Pgdir × ℕ)
  | [], g, free => .ok (true, g, free)
  | v :: l, g, free => do
    let (done, g, free) ← mappages g v ⟨false, fun _ => 0⟩ free
    if done then mapKernel l g free else .ok (false, g, free)

def setupkvm (free : ℕ) : Except Fault (Option Pgdir × ℕ) :=
  match free with
  | 0 => .ok (none, 0)
  | free + 1 => do
    let (done, g, free) ← mapKernel kernelPages ⟨fun _ => false, fun _ => none⟩ free
    if done then .ok (some g, free) else .ok (none, freevm g free)

/-- The loop of `copyuvm` with `n` pages left, from the page `v`. -/
def copyFrom (g : Pgdir) : ℕ → ℕ → Pgdir → ℕ → Except Fault (Option Pgdir × ℕ)
  | 0, _, d, free => .ok (some d, free)
  | n + 1, v, d, free =>
    if g.tab (v / NPDENTRIES) then
      match g.pte v with
      | none => .error (.panic "copyuvm: page not present")
      | some e =>
        match free with
        | 0 => .ok (none, freevm d 0)
        | free + 1 => do
          let (done, d, free) ← mappages d v e free
          if done then copyFrom g n (v + 1) d free else .ok (none, freevm d free)
    else .error (.panic "copyuvm: pte should exist")

def copyuvm (g : Pgdir) (sz free : ℕ) : Except Fault (Option Pgdir × ℕ) := do
  match ← setupkvm free with
  | (none, free) => .ok (none, free)
  | (some d, free) => copyFrom g (pages sz) 0 d free

/-- `fork`, with a free slot in the process table or without. It gives the child and the parent. -/
def fork (slot : Bool) (s : State) : Except Fault (Option State × State) :=
  if slot then
    match s.free with
    | 0 => .ok (none, s)
    | free + 1 => do
      match ← copyuvm s.pgdir s.sz free with
      | (none, free) => .ok (none, { s with free := free + 1 })
      | (some d, free) => .ok (some ⟨d, s.sz, false, free⟩, { s with free := free })
  else .ok (none, s)

variable {g d : Pgdir} {s s' s₀ : State} {v n free : ℕ} {e : Entry} {l : List ℕ} {es : List Seen}

lemma mapKernel_spec (hnodup : l.Nodup) (hnone : ∀ v ∈ l, g.pte v = none) (free : ℕ) :
    ∃ done g' free', mapKernel l g free = .ok (done, g', free') ∧ (∀ v ∉ l, g'.pte v = g.pte v) ∧
      (l.length ≤ free → done = true ∧ free ≤ free' + l.length) := by
  induction l generalizing g free with
  | nil => exact ⟨true, g, free, rfl, fun _ _ => rfl, fun _ => ⟨rfl, le_rfl⟩⟩
  | cons v l ih =>
    obtain ⟨hv, hnodup⟩ := nodup_cons.mp hnodup
    obtain ⟨done, g1, free1, hmap, hroom, hpte⟩ :=
      mappages_cases ⟨false, fun _ => 0⟩ free (hnone v (mem_cons_self ..))
    simp only [mapKernel, hmap, ok_bind]
    cases done with
    | false =>
      refine ⟨false, g1, free1, rfl, fun u _ => by rw [hpte]; rfl, fun hlen => ?_⟩
      cases (hroom (by rw [length_cons] at hlen; omega)).1
    | true =>
      simp only [if_true] at hpte ⊢
      obtain ⟨done, g2, free2, hrest, hother, hroom'⟩ := ih hnodup (g := g1) (fun u hu => by
        have huv : u ≠ v := by
          rintro rfl
          exact hv hu
        rw [hpte, update_of_ne huv]
        exact hnone u (mem_cons_of_mem _ hu)) free1
      refine ⟨done, g2, free2, hrest, fun u hu => ?_, fun hlen => ?_⟩
      · rw [mem_cons, not_or] at hu
        rw [hother u hu.2, hpte, update_of_ne hu.1]
      · rw [length_cons] at hlen ⊢
        have h1 := hroom (by omega)
        have h2 := hroom' (by omega)
        exact ⟨h2.1, by omega⟩

lemma kernelPages_nodup : kernelPages.Nodup := by
  unfold kernelPages
  rw [nodup_append]
  refine ⟨nodup_range', nodup_range', ?_⟩
  intro a ha b hb
  rw [mem_range'_1] at ha hb
  unfold UPAGES PHYSTOP PGSIZE DEVSPACE at *
  omega

lemma not_mem_kernelPages (h : v < UPAGES) : v ∉ kernelPages := by
  unfold kernelPages
  rw [mem_append, mem_range'_1, mem_range'_1]
  unfold UPAGES PHYSTOP PGSIZE DEVSPACE at *
  omega

lemma kernelPages_length : kernelPages.length = 65536 := by
  unfold kernelPages
  rw [length_append, length_range', length_range']
  rfl

lemma setupkvm_spec (free : ℕ) : ∃ o free', setupkvm free = .ok (o, free') ∧
    (∀ d, o = some d → ∀ v < UPAGES, d.pte v = none) ∧ (65537 ≤ free → o ≠ none ∧ free ≤ free' + 65537) := by
  unfold setupkvm
  cases free with
  | zero => exact ⟨none, 0, rfl, fun d hd => (by cases hd), fun h => absurd h (by decide)⟩
  | succ free =>
    obtain ⟨done, g, free', hmap, hother, hroom⟩ := mapKernel_spec (g := ⟨fun _ => false, fun _ => none⟩)
      kernelPages_nodup (fun _ _ => rfl) free
    rw [kernelPages_length] at hroom
    simp only [hmap, ok_bind]
    cases done with
    | false =>
      refine ⟨none, freevm g free', rfl, fun d hd => (by cases hd), fun h => ?_⟩
      cases (hroom (by omega)).1
    | true =>
      refine ⟨some g, free', rfl, fun d hd v hv => ?_, fun h => ⟨Option.some_ne_none _, ?_⟩⟩
      · cases hd
        exact hother v (not_mem_kernelPages hv)
      · have := (hroom (by omega)).2
        omega

lemma copyFrom_spec (hg : ∀ u, v ≤ u → u < v + n → g.tab (u / NPDENTRIES) = true ∧ g.pte u ≠ none)
    (hd : ∀ u, v ≤ u → u < v + n → d.pte u = none) (free : ℕ) : ∃ o free',
    copyFrom g n v d free = .ok (o, free') ∧ ∀ d', o = some d' →
      (∀ u < v, d'.pte u = d.pte u) ∧ ∀ u, v ≤ u → u < v + n → d'.pte u = g.pte u := by
  induction n generalizing v d free with
  | zero =>
    refine ⟨some d, free, rfl, fun d' hd' => ?_⟩
    cases hd'
    exact ⟨fun _ _ => rfl, fun u hu hu' => absurd hu (by omega)⟩
  | succ n ih =>
    obtain ⟨htab, hpte⟩ := hg v le_rfl (by omega)
    obtain ⟨e, he⟩ := Option.ne_none_iff_exists'.mp hpte
    simp only [copyFrom, htab, he, if_true]
    cases free with
    | zero => exact ⟨none, _, rfl, fun d' hd' => by cases hd'⟩
    | succ free =>
      obtain ⟨done, d1, free1, hmap, -, hpte1⟩ := mappages_cases e free (hd v le_rfl (by omega))
      simp only [hmap, ok_bind]
      cases done with
      | false => exact ⟨none, _, rfl, fun d' hd' => by cases hd'⟩
      | true =>
        simp only [if_true] at hpte1 ⊢
        obtain ⟨o, free', hcopy, hspec⟩ := ih (v := v + 1) (d := d1)
          (fun u hu hu' => hg u (by omega) (by omega)) (fun u hu hu' => by
            rw [hpte1, update_of_ne (by omega)]
            exact hd u (by omega) (by omega)) free1
        refine ⟨o, free', hcopy, fun d' hd' => ?_⟩
        obtain ⟨hlow, hcopied⟩ := hspec d' hd'
        refine ⟨fun u hu => ?_, fun u hu hu' => ?_⟩
        · rw [hlow u (by omega), hpte1, update_of_ne (by omega)]
        · by_cases huv : u = v
          · subst huv
            rw [hlow u (by omega), hpte1, update_self, he]
          · exact hcopied u (by omega) (by omega)

end LearnXv6.Lazy
