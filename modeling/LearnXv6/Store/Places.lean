import LearnXv6.Store.Result

/-! Sums over a table of which single entries change. -/
namespace Store

open Function Finset

variable {ι α : Type} [DecidableEq ι] {S : Finset ι} {i j : ι}

lemma sum_change (g g' : ι → ℕ) (hi : i ∈ S) (h : ∀ j ∈ S, j ≠ i → g' j = g j) :
    ∑ j ∈ S, g' j + g i = ∑ j ∈ S, g j + g' i := by
  have h1 := add_sum_erase S g hi
  have h2 := add_sum_erase S g' hi
  have h3 : ∑ j ∈ S.erase i, g' j = ∑ j ∈ S.erase i, g j :=
    sum_congr rfl fun j hj => h j (mem_of_mem_erase hj) (ne_of_mem_erase hj)
  omega

/-- The total of `f` over the entries of the table. -/
def total (S : Finset ι) (f : α → ℕ) (D : ι → α) : ℕ := ∑ i ∈ S, f (D i)

variable {f g : α → ℕ} {D : ι → α} {a : α}

lemma total_update (hi : i ∈ S) : total S f (update D i a) + f (D i) = total S f D + f a := by
  have h := sum_change (fun j => f (D j)) (fun j => f (update D i a j)) hi
    fun j _ hj => by rw [update_of_ne hj]
  rwa [update_self] at h

lemma total_update₂ {b : α} (hi : i ∈ S) (hj : j ∈ S) (hij : j ≠ i) :
    total S f (update (update D i a) j b) + f (D i) + f (D j) = total S f D + f a + f b := by
  have h1 : total S f (update D i a) + f (D i) = total S f D + f a := total_update hi
  have h2 : total S f (update (update D i a) j b) + f (update D i a j) =
    total S f (update D i a) + f b := total_update hj
  rw [update_of_ne hij] at h2
  omega

omit [DecidableEq ι] in
lemma total_add : total S (fun a => f a + g a) D = total S f D + total S g D :=
  sum_add_distrib

omit [DecidableEq ι] in
lemma total_congr (h : ∀ i ∈ S, f (D i) = g (D i)) : total S f D = total S g D :=
  sum_congr rfl h

omit [DecidableEq ι] in
lemma le_total (hi : i ∈ S) : f (D i) ≤ total S f D :=
  single_le_sum (f := fun i => f (D i)) (fun _ _ => Nat.zero_le _) hi

lemma add_le_total (hi : i ∈ S) (hj : j ∈ S) (hij : i ≠ j) : f (D i) + f (D j) ≤ total S f D := by
  rw [← sum_pair (f := fun i => f (D i)) hij]
  refine sum_le_sum_of_subset fun k hk => ?_
  rcases mem_insert.mp hk with rfl | hk
  · exact hi
  · rwa [mem_singleton.mp hk]

/-! In how many places of a table a thing is. -/

open Finset

variable {ι α β : Type} [DecidableEq α] {S T : Finset ι} {f g : ι → Option α} {i : ι} {o : Option α} {a : α}

/-- The number of places of `S` that have `a`. -/
def places (S : Finset ι) (f : ι → Option α) (a : α) : ℕ := ∑ i ∈ S, if f i = some a then 1 else 0

lemma places_congr (h : ∀ i ∈ S, f i = g i) : places S f a = places S g a :=
  sum_congr rfl fun i hi => by rw [h i hi]

lemma places_eq_zero (h : ∀ i ∈ S, f i ≠ some a) : places S f a = 0 :=
  sum_eq_zero fun i hi => if_neg (h i hi)

lemma places_none (h : ∀ i ∈ S, f i = none) : places S f a = 0 :=
  places_eq_zero fun i hi => by simp [h i hi]

lemma places_pos (hi : i ∈ S) (h : f i = some a) : 0 < places S f a := by
  refine sum_pos' (fun _ _ => Nat.zero_le _) ⟨i, hi, ?_⟩
  rw [if_pos h]
  exact Nat.one_pos

lemma places_le_one (h : ∀ i ∈ S, ∀ j ∈ S, f i = some a → f j = some a → i = j) : places S f a ≤ 1 := by
  rw [places, ← card_filter]
  refine card_le_one.mpr fun i hi j hj => ?_
  obtain ⟨hiS, hi⟩ := mem_filter.mp hi
  obtain ⟨hjS, hj⟩ := mem_filter.mp hj
  exact h i hiS j hjS hi hj

section Update

variable [DecidableEq ι]

lemma places_update (hi : i ∈ S) : places S (Function.update f i o) a +
    (if f i = some a then 1 else 0) = places S f a + if o = some a then 1 else 0 := by
  have h1 := add_sum_erase S (fun j => if f j = some a then 1 else 0) hi
  have h2 := add_sum_erase S (fun j => if Function.update f i o j = some a then 1 else 0) hi
  have h3 : ∑ j ∈ S.erase i, (if Function.update f i o j = some a then 1 else 0) =
      ∑ j ∈ S.erase i, if f j = some a then 1 else 0 := by
    refine sum_congr rfl fun j hj => ?_
    rw [Function.update_of_ne (ne_of_mem_erase hj)]
  simp only [Function.update_self] at h2
  simp only [places]
  omega

end Update

lemma places_range_succ {f : ℕ → Option α} {n : ℕ} :
    places (Finset.range (n + 1)) f a = places (Finset.range n) f a + if f n = some a then 1 else 0 :=
  sum_range_succ _ n

/-- Whoever takes the first of a list leaves the others. -/
lemma count_cons_add {l : List α} {b : α} :
    (b :: l).count a = l.count a + if some b = some a then 1 else 0 := by
  simp [List.count_cons]

end Store
