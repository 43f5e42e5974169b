import Mathlib.Data.Set.Function
import Mathlib.Logic.Equiv.Basic
import Mathlib.Order.Interval.Set.Basic
import Mathlib.Tactic

/-! Binary heaps in the entries `1, 2, ..., n` of an array: what the two sifts keep of the contents and
of the order. -/
namespace Store.BinaryHeap

open Function

variable {α β : Type} [LinearOrder β] (key : α → β)

def swap (a : ℕ → α) (i j : ℕ) : ℕ → α := a ∘ Equiv.swap i j

/-- Exchanges entry `i` with its parent where they are out of order, then goes on at the parent, up to
the root. -/
def siftUp : ℕ → ℕ → (ℕ → α) → ℕ → α
  | 0, _, a => a
  | fuel + 1, i, a =>
    if i = 1 then a
    else siftUp fuel (i / 2) (if key (a i) < key (a (i / 2)) then swap a (i / 2) i else a)

/-- The entry with the smallest key among `i` and its children up to `n`. -/
def smallest (n : ℕ) (a : ℕ → α) (i : ℕ) : ℕ :=
  let m := if 2 * i ≤ n ∧ key (a (2 * i)) < key (a i) then 2 * i else i
  if 2 * i + 1 ≤ n ∧ key (a (2 * i + 1)) < key (a m) then 2 * i + 1 else m

/-- Exchanges entry `i` with its smallest child, and goes on there, until the children are in
order. -/
def siftDown (n : ℕ) : ℕ → ℕ → (ℕ → α) → ℕ → α
  | 0, _, a => a
  | fuel + 1, i, a =>
    let m := smallest key n a i
    if m = i then a else siftDown n fuel m (swap a m i)

section Contents

variable {a : ℕ → α} {n i j k : ℕ} {S : Set α}

@[simp] lemma swap_left : swap a i j i = a j := by simp [swap]

@[simp] lemma swap_right : swap a i j j = a i := by simp [swap]

lemma swap_of_ne (hi : k ≠ i) (hj : k ≠ j) : swap a i j k = a k := by
  simp [swap, Equiv.swap_apply_of_ne_of_ne hi hj]

/-- The entries `1, ..., n` are the elements of `S`, each once. -/
abbrev Contents (a : ℕ → α) (n : ℕ) (S : Set α) : Prop := Set.BijOn a (Set.Icc 1 n) S

lemma Contents.swap (h : Contents a n S) (hi : i ∈ Set.Icc 1 n) (hj : j ∈ Set.Icc 1 n) :
    Contents (swap a i j) n S := by
  have hmaps : Set.MapsTo (Equiv.swap i j) (Set.Icc 1 n) (Set.Icc 1 n) := by
    intro k hk
    rw [Equiv.swap_apply_def]
    split_ifs
    · exact hj
    · exact hi
    · exact hk
  have hbij : Set.BijOn (Equiv.swap i j) (Set.Icc 1 n) (Set.Icc 1 n) := by
    refine ⟨hmaps, (Equiv.swap i j).injective.injOn, ?_⟩
    intro k hk
    exact ⟨Equiv.swap i j k, hmaps hk, Equiv.swap_apply_self i j k⟩
  exact h.comp hbij

lemma Contents.siftUp (fuel : ℕ) (h : Contents a n S) (hi : i ∈ Set.Icc 1 n) :
    Contents (siftUp key fuel i a) n S := by
  induction fuel generalizing i a with
  | zero => exact h
  | succ fuel ih =>
    simp only [BinaryHeap.siftUp]
    split
    · exact h
    · rename_i hne
      obtain ⟨h1, hn⟩ := hi
      have hpar : i / 2 ∈ Set.Icc 1 n := ⟨by omega, by omega⟩
      split
      · exact ih (h.swap hpar ⟨h1, hn⟩) hpar
      · exact ih h hpar

variable {key}

lemma smallest_cases (h : smallest key n a i ≠ i) :
    smallest key n a i = 2 * i ∧ 2 * i ≤ n ∨ smallest key n a i = 2 * i + 1 ∧ 2 * i + 1 ≤ n := by
  simp only [smallest] at h ⊢
  split_ifs at h ⊢ with h1 h2 h3
  · exact .inr ⟨rfl, h2.1⟩
  · exact .inl ⟨rfl, h1.1⟩
  · exact .inr ⟨rfl, h3.1⟩
  · exact absurd rfl h

variable (key)

lemma Contents.siftDown (fuel : ℕ) (h : Contents a n S) (hi : 1 ≤ i) :
    Contents (siftDown key n fuel i a) n S := by
  induction fuel generalizing i a with
  | zero => exact h
  | succ fuel ih =>
    simp only [BinaryHeap.siftDown]
    split
    · exact h
    · rename_i hne
      have hm : smallest key n a i ∈ Set.Icc 1 n ∧ i ∈ Set.Icc 1 n := by
        rcases smallest_cases hne with ⟨hm, hle⟩ | ⟨hm, hle⟩ <;> rw [hm] <;>
          exact ⟨⟨by omega, by omega⟩, by omega, by omega⟩
      exact ih (h.swap hm.1 hm.2) hm.1.1

end Contents

/-! The order. -/

section Order

variable {key} {a : ℕ → α} {n i : ℕ}

/-- Every entry up to `n` is at or after its parent. -/
def Ordered (key : α → β) (n : ℕ) (a : ℕ → α) : Prop :=
  ∀ j, 2 ≤ j → j ≤ n → key (a (j / 2)) ≤ key (a j)

lemma Ordered.root_le (h : Ordered key n a) : ∀ j, 1 ≤ j → j ≤ n → key (a 1) ≤ key (a j) := by
  intro j
  induction j using Nat.strongRecOn with
  | ind j ih =>
    intro h1 hn
    by_cases hj : j = 1
    · rw [hj]
    · exact (ih (j / 2) (by omega) (by omega) (by omega)).trans (h j (by omega) hn)

/-- In order but for entry `i` and its parent. -/
structure UpOrdered (key : α → β) (n : ℕ) (a : ℕ → α) (i : ℕ) : Prop where
  others : ∀ j, 2 ≤ j → j ≤ n → j ≠ i → key (a (j / 2)) ≤ key (a j)
  children : 2 ≤ i → ∀ j, j ≤ n → j / 2 = i → key (a (i / 2)) ≤ key (a j)

lemma Ordered.upOrdered (h : Ordered key n a) (hi : i ≤ n) : UpOrdered key n a i := by
  refine ⟨fun j h2 hn _ => h j h2 hn, ?_⟩
  intro h2 j hn hj
  have h1 := h i h2 hi
  have h3 := h j (by omega) hn
  rw [hj] at h3
  exact h1.trans h3

lemma UpOrdered.swap (h : UpOrdered key n a i) (h2 : 2 ≤ i) (hi : i ≤ n)
    (hlt : key (a i) < key (a (i / 2))) : UpOrdered key n (swap a (i / 2) i) (i / 2) := by
  have hne : i / 2 ≠ i := by omega
  constructor
  · intro j hj2 hj hji
    by_cases hj' : j = i
    · subst hj'
      rw [swap_left, swap_right]
      exact hlt.le
    rw [swap_of_ne (k := j) hji hj']
    by_cases hp : j / 2 = i
    · rw [hp, swap_right]
      exact h.children h2 j hj hp
    by_cases hq : j / 2 = i / 2
    · rw [hq, swap_left]
      have := h.others j hj2 hj hj'
      rw [hq] at this
      exact hlt.le.trans this
    · rw [swap_of_ne hq hp]
      exact h.others j hj2 hj hj'
  · intro hp2 j hj hji
    have htop := h.others (i / 2) hp2 (by omega) hne
    rw [swap_of_ne (k := i / 2 / 2) (by omega) (by omega)]
    by_cases hj' : j = i
    · subst hj'
      rwa [swap_right]
    · rw [swap_of_ne (k := j) (by omega) hj']
      have := h.others j (by omega) hj hj'
      rw [hji] at this
      exact htop.trans this

/-- A sift from an entry that may be too small for its parent puts the heap in order. -/
lemma UpOrdered.siftUp {fuel : ℕ} (h : UpOrdered key n a i) (h1 : 1 ≤ i) (hi : i ≤ n)
    (hfuel : i ≤ fuel) : Ordered key n (siftUp key fuel i a) := by
  induction fuel generalizing i a with
  | zero => omega
  | succ fuel ih =>
    simp only [BinaryHeap.siftUp]
    split
    · rename_i hone
      intro j h2 hn
      exact h.others j h2 hn (by omega)
    · rename_i hne
      split
      · rename_i hlt
        exact ih (h.swap (by omega) hi hlt) (by omega) (by omega) (by omega)
      · rename_i hge
        have hord : Ordered key n a := by
          intro j h2 hn
          by_cases hji : j = i
          · subst hji
            exact not_lt.mp hge
          · exact h.others j h2 hn hji
        exact ih (hord.upOrdered (by omega)) (by omega) (by omega) (by omega)

/-- In order but for entry `i` and its children. -/
structure DownOrdered (key : α → β) (n : ℕ) (a : ℕ → α) (i : ℕ) : Prop where
  others : ∀ j, 2 ≤ j → j ≤ n → j / 2 ≠ i → key (a (j / 2)) ≤ key (a j)
  children : 2 ≤ i → ∀ j, j ≤ n → j / 2 = i → key (a (i / 2)) ≤ key (a j)

lemma smallest_le (j : ℕ) (hj : j = i ∨ j / 2 = i ∧ j ≤ n) : key (a (smallest key n a i)) ≤ key (a j) := by
  have hj' : j = i ∨ j = 2 * i ∧ 2 * i ≤ n ∨ j = 2 * i + 1 ∧ 2 * i + 1 ≤ n := by omega
  simp only [smallest]
  rcases hj' with rfl | ⟨rfl, hle⟩ | ⟨rfl, hle⟩ <;> split_ifs <;> simp_all [le_of_lt]
  all_goals order

lemma DownOrdered.swap (h : DownOrdered key n a i) (hne : smallest key n a i ≠ i)
    (h1 : 1 ≤ i) : DownOrdered key n (swap a (smallest key n a i) i) (smallest key n a i) := by
  have hmin : ∀ j, j = i ∨ j / 2 = i ∧ j ≤ n → key (a (smallest key n a i)) ≤ key (a j) :=
    smallest_le
  have hcases := smallest_cases hne
  generalize smallest key n a i = m at hne hmin hcases ⊢
  have hm : m / 2 = i := by omega
  have hmi : m ≠ i := hne
  constructor
  · intro j h2 hn hjm
    by_cases hji : j / 2 = i
    · rw [hji, swap_right]
      by_cases hj : j = m
      · subst hj
        rw [swap_left]
        exact hmin i (.inl rfl)
      · rw [swap_of_ne (k := j) hj (by omega)]
        exact hmin j (.inr ⟨hji, hn⟩)
    · rw [swap_of_ne (k := j / 2) hjm hji]
      by_cases hj : j = i
      · subst hj
        rw [swap_right]
        exact h.children h2 m (by omega) hm
      · rw [swap_of_ne (k := j) (by omega) hj]
        exact h.others j h2 hn hji
  · intro _ j hn hj
    rw [hm, swap_right, swap_of_ne (k := j) (by omega) (by omega)]
    have := h.others j (by omega) hn (by omega)
    rwa [hj] at this

/-- A sift from an entry that may be too large for its children puts the heap in order. -/
lemma DownOrdered.siftDown {fuel : ℕ} (h : DownOrdered key n a i) (h1 : 1 ≤ i)
    (hfuel : n ≤ i + fuel) : Ordered key n (siftDown key n fuel i a) := by
  induction fuel generalizing i a with
  | zero =>
    intro j h2 hn
    exact h.others j h2 hn (by omega)
  | succ fuel ih =>
    simp only [BinaryHeap.siftDown]
    split
    · rename_i heq
      intro j h2 hn
      by_cases hj : j / 2 = i
      · have : key (a (smallest key n a i)) ≤ key (a j) := smallest_le j (.inr ⟨hj, hn⟩)
        rwa [heq, ← hj] at this
      · exact h.others j h2 hn hj
    · rename_i hne
      have hcases := smallest_cases hne
      exact ih (h.swap hne h1) (by omega) (by omega)

lemma smallest_last (hle : key (a i) ≤ key (a n)) : smallest key n a i = smallest key (n - 1) a i := by
  have hdrop : ∀ j m, key (a m) ≤ key (a i) →
      (j ≤ n ∧ key (a j) < key (a m) ↔ j ≤ n - 1 ∧ key (a j) < key (a m)) := by
    intro j m hm
    have hlast := not_lt.mpr (hm.trans hle)
    constructor
    · rintro ⟨hj, hlt⟩
      refine ⟨?_, hlt⟩
      by_contra hjn
      have hjn' : j = n := by omega
      rw [hjn'] at hlt
      exact hlast hlt
    · rintro ⟨hj, hlt⟩
      exact ⟨by omega, hlt⟩
  simp only [smallest, hdrop (2 * i) i le_rfl]
  by_cases h1 : 2 * i ≤ n - 1 ∧ key (a (2 * i)) < key (a i)
  · simp only [if_pos h1, hdrop (2 * i + 1) (2 * i) h1.2.le]
  · simp only [if_neg h1, hdrop (2 * i + 1) i le_rfl]

/-- The last entry takes no part in a sift of an entry that is not after it. -/
lemma siftDown_last {fuel : ℕ} (hi : i < n) (hle : key (a i) ≤ key (a n)) :
    siftDown key n fuel i a = siftDown key (n - 1) fuel i a := by
  induction fuel generalizing i a with
  | zero => rfl
  | succ fuel ih =>
    simp only [BinaryHeap.siftDown, smallest_last hle]
    split
    · rfl
    · rename_i hne
      have hcases := smallest_cases hne
      refine ih (by omega) ?_
      rwa [swap_left, swap_of_ne (by omega) (by omega)]

end Order

/-! Insertion at the end, and removal of the root. -/

section Operations

variable {a : ℕ → α} {n : ℕ} {S : Set α} {x : α} (fuel : ℕ)

lemma Contents.update_last (h : Contents a n S) (hx : x ∉ S) :
    Contents (update a (n + 1) x) (n + 1) (insert x S) := by
  have hsame : ∀ j ∈ Set.Icc 1 n, update a (n + 1) x j = a j := by
    intro j hj
    exact update_of_ne (by have := hj.2; omega) _ _
  have hinit := h.congr fun j hj => (hsame j hj).symm
  have hlast : update a (n + 1) x (n + 1) = x := update_self _ _ _
  have hinsert := hinit.insert (a := n + 1) (by rwa [hlast])
  rw [hlast] at hinsert
  have hIcc : Set.Icc 1 (n + 1) = insert (n + 1) (Set.Icc 1 n) := by
    ext j
    simp only [Set.mem_Icc, Set.mem_insert_iff]
    omega
  rwa [Contents, hIcc]

lemma Contents.insert (h : Contents a n S) (hx : x ∉ S) :
    Contents (BinaryHeap.siftUp key fuel (n + 1) (update a (n + 1) x)) (n + 1) (insert x S) :=
  (h.update_last hx).siftUp key fuel ⟨by omega, le_rfl⟩

lemma Contents.update_root (h : Contents a n S) (hn : 1 ≤ n) :
    Contents (update a 1 (a n)) (n - 1) (S \ {a 1}) := by
  have hroot : (1 : ℕ) ∈ Set.Icc 1 n := ⟨le_rfl, hn⟩
  -- entry `j` of the new array is entry `old j` of the given one
  let old : ℕ → ℕ := fun j => if j = 1 then n else j
  have hold : ∀ j, update a 1 (a n) j = a (old j) := by
    intro j
    by_cases hj : j = 1
    · subst hj
      simp [old]
    · simp [old, hj]
  have hmem : ∀ j ∈ Set.Icc 1 (n - 1), old j ∈ Set.Icc 1 n ∧ old j ≠ 1 := by
    rintro j ⟨h1, h2⟩
    simp only [old, Set.mem_Icc]
    split <;> omega
  refine ⟨?_, ?_, ?_⟩
  · intro j hj
    obtain ⟨hin, hne⟩ := hmem j hj
    rw [hold]
    exact ⟨h.mapsTo hin, fun he => hne (h.injOn hin hroot he)⟩
  · intro i hi j hj hij
    rw [hold, hold] at hij
    have heq := h.injOn (hmem i hi).1 (hmem j hj).1 hij
    have hi2 := hi.2
    have hj2 := hj.2
    simp only [old] at heq
    split at heq <;> split at heq <;> omega
  · rintro y ⟨hy, hne⟩
    obtain ⟨j, ⟨h1, h2⟩, rfl⟩ := h.surjOn hy
    have hj1 : j ≠ 1 := fun he => hne (by rw [he]; rfl)
    by_cases hjn : j = n
    · exact ⟨1, ⟨le_rfl, by omega⟩, by rw [hold]; simp [old, hjn]⟩
    · exact ⟨j, ⟨h1, by omega⟩, by rw [hold]; simp [old, hj1]⟩

variable {key}

lemma siftDown_root (hn : 1 ≤ n) : BinaryHeap.siftDown key n fuel 1 (update a 1 (a n)) =
      BinaryHeap.siftDown key (n - 1) fuel 1 (update a 1 (a n)) := by
  rcases hn.lt_or_eq with hlt | rfl
  · refine siftDown_last hlt ?_
    rw [update_self, update_of_ne (by omega)]
  · -- the only entry has no children
    have hsmall : ∀ m, m ≤ 1 → smallest key m (update a 1 (a 1)) 1 = 1 := by
      intro m hm
      simp only [smallest]
      rw [if_neg (c := 2 * 1 ≤ m ∧ _) (by omega), if_neg (by omega)]
    cases fuel with
    | zero => rfl
    | succ fuel => simp only [BinaryHeap.siftDown, hsmall 1 le_rfl, hsmall 0 (by omega), if_true]

variable (key)

lemma Contents.extract (h : Contents a n S) (hn : 1 ≤ n) :
    Contents (BinaryHeap.siftDown key n fuel 1 (update a 1 (a n))) (n - 1) (S \ {a 1}) := by
  rw [siftDown_root fuel hn]
  exact (h.update_root hn).siftDown key fuel le_rfl

variable {key}

lemma Ordered.insert (h : Ordered key n a) (hfuel : n + 1 ≤ fuel) : Ordered key (n + 1)
      (BinaryHeap.siftUp key fuel (n + 1) (update a (n + 1) x)) := by
  refine UpOrdered.siftUp ⟨?_, ?_⟩ (by omega) le_rfl hfuel
  · intro j h2 hn hj
    rw [update_of_ne hj, update_of_ne (by omega)]
    exact h j h2 (by omega)
  · intro _ j hn hj
    omega

lemma Ordered.extract (h : Ordered key n a) (hn : 1 ≤ n) (hfuel : n ≤ fuel) :
    Ordered key (n - 1) (BinaryHeap.siftDown key n fuel 1 (update a 1 (a n))) := by
  rw [siftDown_root fuel hn]
  refine DownOrdered.siftDown ⟨?_, ?_⟩ le_rfl (by omega)
  · intro j h2 hj hne
    rw [update_of_ne hne, update_of_ne (by omega)]
    exact h j h2 (by omega)
  · intro h2
    omega

end Operations

end Store.BinaryHeap
