import Mathlib.Tactic

/-! Ring buffers addressed by counters that only grow, and lists linked through an array. -/
namespace Store
open List

variable {α : Type}

/-- The entries of `l` stand in the ring of `n` places from position `pos` on. -/
structure Ring (n : ℕ) (r : ℕ → Option α) (pos : ℕ) (l : List α) : Prop where
  fits : l.length ≤ n
  entry : ∀ j a, l[j]? = some a → r ((pos + j) % n) = some a

namespace Ring

variable {n pos : ℕ} {r : ℕ → Option α} {a : α} {l : List α}

lemma nil : Ring n r pos [] := ⟨by simp, fun _ _ h => by cases h⟩

lemma put (h : Ring n r pos l) (hlt : l.length < n) (a : α) :
    Ring n (Function.update r ((pos + l.length) % n) (some a)) pos (l ++ [a]) := by
  constructor
  · simpa using hlt
  · intro j b hj
    rcases Nat.lt_trichotomy j l.length with hlt' | rfl | hgt
    · -- an earlier entry stands in another place, since it is less than a round away
      have hne : (pos + j) % n ≠ (pos + l.length) % n := by
        intro heq
        have hdvd := (Nat.modEq_iff_dvd' (by omega : pos + j ≤ pos + l.length)).mp heq
        have hle := Nat.le_of_dvd (by omega) hdvd
        omega
      rw [Function.update_of_ne hne]
      rw [getElem?_append_left hlt'] at hj
      exact h.entry j b hj
    · have hab : a = b := by simpa using hj
      rw [Function.update_self, hab]
    · rw [getElem?_eq_none (by simp; omega)] at hj
      cases hj

lemma head (h : Ring n r pos (a :: l)) : r (pos % n) = some a := by
  simpa using h.entry 0 a rfl

lemma tail (h : Ring n r pos (a :: l)) : Ring n r (pos + 1) l := by
  constructor
  · have := h.fits
    rw [length_cons] at this
    omega
  · intro j b hj
    have := h.entry (j + 1) b (by simpa using hj)
    rwa [show pos + (j + 1) = pos + 1 + j by omega] at this

end Ring

/-- Following `next` from `start` visits the elements of `l` in order, and then ends. -/
def Linked {κ : Type} (next : κ → Option κ) : Option κ → List κ → Prop
  | start, [] => start = none
  | start, i :: l => start = some i ∧ Linked next (next i) l

namespace Linked

variable {κ : Type} {next next' : κ → Option κ} {start : Option κ} {i b : κ} {l l₁ l₂ : List κ}

lemma congr (h : Linked next start l) (heq : ∀ i ∈ l, next' i = next i) : Linked next' start l := by
  induction l generalizing start with
  | nil => exact h
  | cons i l ih =>
    refine ⟨h.1, ?_⟩
    rw [heq i (by simp)]
    exact ih h.2 fun j hj => heq j (by simp [hj])

lemma eq_none (h : Linked next start l) : start = none ↔ l = [] := by
  cases l with
  | nil => exact iff_of_true h rfl
  | cons i l => simp [h.1]

lemma insert_after (h : Linked next start (l₁ ++ b :: l₂)) (hnodup : (l₁ ++ b :: l₂).Nodup)
    (hi : i ∉ l₁ ++ b :: l₂) (hb : next' b = some i) (hni : next' i = next b)
    (heq : ∀ j, j ≠ b → j ≠ i → next' j = next j) : Linked next' start (l₁ ++ b :: i :: l₂) := by
  induction l₁ generalizing start with
  | nil =>
    obtain ⟨hstart, hrest⟩ := h
    refine ⟨hstart, hb, ?_⟩
    rw [hni]
    refine congr hrest fun j hj => heq j ?_ ?_
    · rintro rfl
      simp [hj] at hnodup
    · rintro rfl
      simp [hj] at hi
  | cons c l₁ ih =>
    obtain ⟨hstart, hrest⟩ := h
    rw [cons_append, nodup_cons] at hnodup
    have hcb : c ≠ b := by
      rintro rfl
      simp at hnodup
    have hci : c ≠ i := by
      rintro rfl
      simp at hi
    refine ⟨hstart, ?_⟩
    rw [heq c hcb hci]
    exact ih hrest hnodup.2 fun hmem => hi (by simp only [cons_append, mem_cons]; exact .inr hmem)

end Linked

end Store
