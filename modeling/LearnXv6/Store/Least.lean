import Mathlib

/-! Loops that keep the best element seen so far. -/
namespace Store
open List

variable {α κ : Type} [LinearOrder κ] (P : α → Prop) [DecidablePred P] (k : α → κ)

/-- The body of a loop that looks for the least key among the elements with `P`. -/
def improve (y x : α) : α := if P x ∧ k x < k y then x else y

/-- The same loop, as long as it may have no element. -/
def improve? (c : Option α) (x : α) : Option α :=
  if P x then
    match c with
    | none => some x
    | some y => if k x < k y then some x else some y
  else c

variable {P k} {x y : α} {l : List α}

lemma improve_spec (hy : P y) : P (improve P k y x) ∧ k (improve P k y x) ≤ k y ∧
    (P x → k (improve P k y x) ≤ k x) := by
  unfold improve
  split
  · rename_i h
    exact ⟨h.1, h.2.le, fun _ => le_rfl⟩
  · rename_i h
    exact ⟨hy, le_rfl, fun hx => not_lt.mp fun hlt => h ⟨hx, hlt⟩⟩

/-- The loop ends with an element whose key is least. -/
lemma foldl_improve (hy : P y) : P (l.foldl (improve P k) y) ∧ k (l.foldl (improve P k) y) ≤ k y ∧
    ∀ x ∈ l, P x → k (l.foldl (improve P k) y) ≤ k x := by
  induction l generalizing y with
  | nil => exact ⟨hy, le_rfl, by simp⟩
  | cons a l ih =>
    obtain ⟨hP, hle, ha⟩ := improve_spec (k := k) (x := a) hy
    obtain ⟨hr, hbest, hl⟩ := ih hP
    constructor
    · exact hr
    constructor
    · exact hbest.trans hle
    · intro x hx hPx
      rcases mem_cons.mp hx with rfl | hx
      · exact hbest.trans (ha hPx)
      · exact hl x hx hPx

lemma improve?_some : improve? P k (some y) x = some (improve P k y x) := by
  unfold improve? improve
  by_cases hx : P x
  · by_cases hlt : k x < k y <;> simp [hx, hlt]
  · simp [hx]

lemma foldl_improve?_some : l.foldl (improve? P k) (some y) = some (l.foldl (improve P k) y) := by
  induction l generalizing y with
  | nil => rfl
  | cons a l ih =>
    rw [foldl_cons, improve?_some]
    exact ih

/-- The loop ends with nothing exactly when there is no element with `P`. -/
lemma foldl_improve?_none : l.foldl (improve? P k) none = none ↔ ∀ x ∈ l, ¬ P x := by
  induction l with
  | nil => simp
  | cons a l ih =>
    by_cases ha : P a
    · simp [improve?, ha, foldl_improve?_some]
    · simpa [improve?, ha] using ih

variable [LinearOrder α]

/-- Among equal keys the one that was seen first stays. -/
lemma foldl_improve_first (hy : P y) (hl : (y :: l).Pairwise (· < ·)) :
    ∀ x ∈ y :: l, P x → k x = k (l.foldl (improve P k) y) → l.foldl (improve P k) y ≤ x := by
  induction l generalizing y with
  | nil =>
    intro x hx _ _
    simp only [mem_singleton] at hx
    exact hx.ge
  | cons a l ih =>
    obtain ⟨hya, hal⟩ := pairwise_cons.mp hl
    intro x hx hPx hkey
    rw [foldl_cons] at hkey ⊢
    by_cases ha : P a ∧ k a < k y
    · rw [show improve P k y a = a from if_pos ha] at hkey ⊢
      rcases mem_cons.mp hx with rfl | hx
      · have hle := (foldl_improve (k := k) (l := l) ha.1).2.1
        exact absurd (hkey ▸ ha.2) hle.not_gt
      · exact ih ha.1 hal x hx hPx hkey
    · rw [show improve P k y a = y from if_neg ha] at hkey ⊢
      have hyl := pairwise_cons.mpr ⟨fun b hb => hya b (by simp [hb]), (pairwise_cons.mp hal).2⟩
      rcases mem_cons.mp hx with rfl | hx
      · exact ih hy hyl x (by simp) hPx hkey
      rcases mem_cons.mp hx with rfl | hx
      · -- a key equal to the final one is no better than that of `y`
        have hbest := (foldl_improve (k := k) (l := l) hy).2.1
        have hxy := not_lt.mp fun hlt => ha ⟨hPx, hlt⟩
        have hfirst := ih hy hyl y (by simp) hy (le_antisymm (hxy.trans hkey.le) hbest)
        exact hfirst.trans (hya x (by simp)).le
      · exact ih hy hyl x (by simp [hx]) hPx hkey

/-- What the loop over a whole list ends with: the first element of those with the least key. -/
structure IsLeast? (P : α → Prop) (k : α → κ) (l : List α) (o : Option α) : Prop where
  nothing : o = none ↔ ∀ x ∈ l, ¬ P x
  least : ∀ y, o = some y → P y ∧ ∀ x ∈ l, P x → k y ≤ k x ∧ (k x = k y → y ≤ x)

lemma foldl_improve?_least (hl : l.Pairwise (· < ·)) : IsLeast? P k l (l.foldl (improve? P k) none) := by
  refine ⟨foldl_improve?_none, ?_⟩
  induction l with
  | nil => simp
  | cons a l ih =>
    intro y hy
    rw [foldl_cons] at hy
    by_cases ha : P a
    · rw [show improve? P k none a = some a by simp [improve?, ha], foldl_improve?_some] at hy
      obtain rfl := Option.some.inj hy
      obtain ⟨hP, hle, hmin⟩ := foldl_improve (k := k) (l := l) ha
      refine ⟨hP, fun x hx hPx => ⟨?_, foldl_improve_first ha hl x hx hPx⟩⟩
      rcases mem_cons.mp hx with rfl | hx
      · exact hle
      · exact hmin x hx hPx
    · rw [show improve? P k none a = none by simp [improve?, ha]] at hy
      obtain ⟨hP, hmin⟩ := ih (pairwise_cons.mp hl).2 y hy
      refine ⟨hP, fun x hx hPx => ?_⟩
      rcases mem_cons.mp hx with rfl | hx
      · exact absurd hPx ha
      · exact hmin x hx hPx

end Store
