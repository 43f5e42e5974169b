import LearnXv6.Lazy.Model

/-! The memory of a process as it sees it, and how each kernel keeps it. -/
namespace LearnXv6.Lazy
open Function Store

variable {g : Pgdir} {s : State} {m : Memory} {v n oldsz newsz free va : ℕ}

/-- A memory of bytes, some pages of which the process must not touch. -/
structure Memory where
  sz : ℕ
  guard : ℕ → Bool
  byte : ℕ → UInt8

/-- What is beyond the last page is gone, and is zero if it comes back. -/
def Memory.resize (newsz : ℕ) (m : Memory) : Memory where
  sz := newsz
  guard v := decide (v < pages newsz) && m.guard v
  byte a := if a / PGSIZE < pages newsz then m.byte a else 0

def Memory.access (va : ℕ) (m : Memory) : Access → Memory × Seen
  | .load => (m, .loaded (m.byte va))
  | .store b => ({ m with byte := update m.byte va b }, .stored)

def Memory.step (op : Op) (m : Memory) : Memory × Seen :=
  match op with
  | .sbrk n => (m.resize (m.sz + n).toNat, .returned m.sz)
  | .access va x => m.access va x

/-- An entry has its part of the memory. -/
def Entry.Has (e : Entry) (v : ℕ) (m : Memory) : Prop :=
  e.user = !m.guard v ∧ ∀ o < PGSIZE, e.data o = m.byte (v * PGSIZE + o)

/-- A page that is mapped is in a page table that is there. -/
def Pgdir.Formed (g : Pgdir) : Prop := ∀ v < UPAGES, g.pte v ≠ none → g.tab (v / NPDENTRIES) = true

/-- The page tables have the memory. A page that is not mapped is not a guard page, and zero. -/
structure Holds (s : State) (m : Memory) : Prop where
  alive : s.killed = false
  sz : s.sz = m.sz
  small : m.sz < KERNBASE
  formed : s.pgdir.Formed
  inside : ∀ v < UPAGES, s.pgdir.pte v ≠ none → v < pages m.sz
  present : ∀ v < UPAGES, ∀ e, s.pgdir.pte v = some e → e.Has v m
  absent : ∀ v < UPAGES, s.pgdir.pte v = none → blank.Has v m

/-- All pages of the memory are mapped. -/
structure HoldsAll (s : State) (m : Memory) : Prop extends Holds s m where
  full : ∀ v < pages m.sz, s.pgdir.pte v ≠ none

lemma pages_le_upages (h : newsz < KERNBASE) : pages newsz ≤ UPAGES := by
  unfold pages PGSIZE UPAGES
  unfold KERNBASE at h
  omega

lemma lt_pages : v < pages newsz ↔ v * PGSIZE < newsz := by
  unfold pages PGSIZE
  omega

lemma pages_mono {a b : ℕ} (h : a ≤ b) : pages a ≤ pages b := by
  unfold pages
  exact Nat.div_le_div_right (by omega)

lemma div_lt_pages (h : va < newsz) : va / PGSIZE < pages newsz := by
  rw [lt_pages]
  unfold PGSIZE
  omega

lemma div_mod_eq : va / PGSIZE * PGSIZE + va % PGSIZE = va := Nat.div_add_mod' va PGSIZE

lemma mul_add_div {o : ℕ} (ho : o < PGSIZE) : (v * PGSIZE + o) / PGSIZE = v := by
  unfold PGSIZE at *
  omega

lemma mod_lt_pgsize : va % PGSIZE < PGSIZE := Nat.mod_lt va (by decide)

/-! The loops. -/

lemma Pgdir.Formed.update {o : Option Entry} (hg : g.Formed) (hv : o ≠ none → g.tab (v / NPDENTRIES) = true) :
    Pgdir.Formed { g with pte := update g.pte v o } := by
  intro u hu hne
  by_cases huv : u = v
  · subst huv
    simp only [update_self] at hne
    exact hv hne
  · simp only [update_of_ne huv] at hne
    exact hg u hu hne

lemma deallocFrom_pte (hg : g.Formed) (hold : oldsz ≤ UPAGES * PGSIZE) (hn : oldsz ≤ (v + n) * PGSIZE)
    (free : ℕ) : (deallocFrom oldsz n v g free).1.tab = g.tab ∧
      ∀ u, (deallocFrom oldsz n v g free).1.pte u =
        if v ≤ u ∧ u * PGSIZE < oldsz then none else g.pte u := by
  have hend : ∀ w, oldsz ≤ w * PGSIZE → ∀ u, ¬ (w ≤ u ∧ u * PGSIZE < oldsz) := by
    rintro w hw u ⟨hwu, hlt⟩
    have := Nat.mul_le_mul_right PGSIZE hwu
    omega
  induction n generalizing v g free with
  | zero => exact ⟨rfl, fun u => (if_neg (hend v hn u)).symm⟩
  | succ n ih =>
    have hnext : oldsz ≤ (v + 1 + n) * PGSIZE := by
      rw [Nat.add_assoc, Nat.add_comm 1 n]
      exact hn
    rw [deallocFrom]
    split
    · rename_i hlt
      split
      · split
        · rename_i hnone
          obtain ⟨htab, hpte⟩ := ih hg hnext free
          refine ⟨htab, fun u => ?_⟩
          rw [hpte]
          by_cases huv : u = v
          · subst huv
            simp [hnone]
          · simp only [show (v + 1 ≤ u ↔ v ≤ u) by omega]
        · obtain ⟨htab, hpte⟩ := ih (hg.update (v := v) (o := none) (by simp)) hnext (free + 1)
          refine ⟨htab, fun u => ?_⟩
          rw [hpte]
          by_cases huv : u = v
          · subst huv
            simp [hlt]
          · simp only [show (v + 1 ≤ u ↔ v ≤ u) by omega, update_of_ne huv]
      · -- the pages of a page table that is not there
        rename_i htab
        have hskip : ∀ u, v ≤ u → u < (v / NPDENTRIES + 1) * NPDENTRIES → u < UPAGES → g.pte u = none := by
          intro u hvu hu hlt
          by_contra hne
          have hdiv : u / NPDENTRIES = v / NPDENTRIES := by
            unfold NPDENTRIES at *
            omega
          exact htab (hdiv ▸ hg u hlt hne)
        have hle : v + 1 ≤ (v / NPDENTRIES + 1) * NPDENTRIES := by
          unfold NPDENTRIES
          omega
        have hnext' : oldsz ≤ ((v / NPDENTRIES + 1) * NPDENTRIES + n) * PGSIZE :=
          hnext.trans (Nat.mul_le_mul_right PGSIZE (by omega))
        obtain ⟨htab', hpte⟩ := ih hg hnext' free
        refine ⟨htab', fun u => ?_⟩
        rw [hpte]
        by_cases hu : v ≤ u ∧ u * PGSIZE < oldsz
        · rw [if_pos hu]
          split
          · rfl
          · exact hskip u hu.1 (by omega) (Nat.lt_of_mul_lt_mul_right (hu.2.trans_le hold))
        · rw [if_neg hu, if_neg]
          omega
    · rename_i hge
      exact ⟨rfl, fun u => (if_neg (hend v (not_lt.mp hge) u)).symm⟩

lemma walkpgdir_some (hfree : 0 < free) : ∃ free', free ≤ free' + 1 ∧ walkpgdir g v free =
    some ({ g with tab := update g.tab (v / NPDENTRIES) true }, free') := by
  unfold walkpgdir
  split
  · rename_i htab
    refine ⟨free, by omega, ?_⟩
    have hsame : update g.tab (v / NPDENTRIES) true = g.tab := by
      rw [← htab]
      exact update_eq_self (v / NPDENTRIES) g.tab
    rw [hsame]
  · cases free with
    | zero => cases hfree
    | succ free => exact ⟨free, le_rfl, rfl⟩

/-- The directory with the page `v` mapped, in a page table that may be new. -/
def Pgdir.map (g : Pgdir) (v : ℕ) (e : Entry) : Pgdir :=
  ⟨update g.tab (v / NPDENTRIES) true, update g.pte v (some e)⟩

lemma Pgdir.Formed.map {e : Entry} (hg : g.Formed) : (g.map v e).Formed := by
  intro u hu hne
  by_cases hdiv : u / NPDENTRIES = v / NPDENTRIES
  · rw [Pgdir.map, hdiv]
    exact update_self ..
  · have huv : u ≠ v := by
      rintro rfl
      exact hdiv rfl
    simp only [Pgdir.map, update_of_ne huv, update_of_ne hdiv] at hne ⊢
    exact hg u hu hne

lemma mappages_ok {e : Entry} (hfree : 0 < free) (hnone : g.pte v = none) :
    ∃ free', free ≤ free' + 1 ∧ mappages g v e free = .ok (true, g.map v e, free') := by
  obtain ⟨free', hle, hwalk⟩ := walkpgdir_some (g := g) (v := v) hfree
  refine ⟨free', hle, ?_⟩
  simp [mappages, hwalk, hnone, Pgdir.map]

lemma walkpgdir_pte {g g' : Pgdir} {v free free' : ℕ} (h : walkpgdir g v free = some (g', free')) :
    g'.pte = g.pte := by
  unfold walkpgdir at h
  split at h
  · cases h
    rfl
  · split at h
    · cases h
    · cases h
      rfl

lemma mappages_cases (e : Entry) (free : ℕ) (h : g.pte v = none) : ∃ done g' free',
    mappages g v e free = .ok (done, g', free') ∧ (0 < free → done = true ∧ free ≤ free' + 1) ∧
      g'.pte = if done then update g.pte v (some e) else g.pte := by
  unfold mappages
  cases hwalk : walkpgdir g v free with
  | none =>
    refine ⟨false, g, free, rfl, fun hpos => ?_, rfl⟩
    obtain ⟨free', -, hsome⟩ := walkpgdir_some (g := g) (v := v) hpos
    rw [hsome] at hwalk
    cases hwalk
  | some r =>
    obtain ⟨g', free'⟩ := r
    have hpte := walkpgdir_pte hwalk
    dsimp only
    rw [hpte, h]
    refine ⟨true, _, free', rfl, fun hpos => ⟨rfl, ?_⟩, rfl⟩
    obtain ⟨free'', hle, hsome⟩ := walkpgdir_some (g := g) (v := v) hpos
    rw [hsome] at hwalk
    cases hwalk
    exact hle

lemma mappages_formed {g' : Pgdir} {free' : ℕ} {done : Bool} (h : g.Formed)
    (hmap : mappages g v e free = .ok (done, g', free')) : g'.Formed := by
  unfold mappages at hmap
  cases hwalk : walkpgdir g v free with
  | none =>
    rw [hwalk] at hmap
    cases hmap
    exact h
  | some r =>
    obtain ⟨g1, free1⟩ := r
    have hg1 : g1.Formed ∧ g1.tab (v / NPDENTRIES) = true := by
      unfold walkpgdir at hwalk
      split at hwalk
      · rename_i htab
        cases hwalk
        exact ⟨h, htab⟩
      · split at hwalk
        · cases hwalk
        · cases hwalk
          refine ⟨fun u hu hne => ?_, update_self ..⟩
          by_cases huv : u / NPDENTRIES = v / NPDENTRIES
          · simp [huv]
          · simp only [update_of_ne huv]
            exact h u hu hne
    rw [hwalk] at hmap
    dsimp only at hmap
    split at hmap
    · cases hmap
    · cases hmap
      exact hg1.1.update fun _ => hg1.2

end LearnXv6.Lazy
