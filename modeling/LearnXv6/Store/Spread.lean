import Mathlib.Tactic
import Mathlib.Data.Finset.Lattice.Fold

/-! How far the counters of a finite set are apart, and what counting up the least one does to it. -/
namespace Store

variable {α : Type} {S : Finset α} {c c' : α → ℤ} {D : ℤ}

/-- The largest counter minus the smallest one, and 0 where there is none. -/
def spread (S : Finset α) (c : α → ℤ) : ℤ := if h : S.Nonempty then S.sup' h c - S.inf' h c else 0

lemma sub_le_spread {a b : α} (ha : a ∈ S) (hb : b ∈ S) : c a - c b ≤ spread S c := by
  unfold spread
  rw [dif_pos ⟨a, ha⟩]
  have hsup := Finset.le_sup' c ha
  have hinf := Finset.inf'_le c hb
  omega

lemma spread_le_iff (hD : 0 ≤ D) : spread S c ≤ D ↔ ∀ a ∈ S, ∀ b ∈ S, c a - c b ≤ D := by
  constructor
  · intro h a ha b hb
    exact (sub_le_spread ha hb).trans h
  · intro h
    unfold spread
    split
    · rename_i hS
      obtain ⟨a, ha, hsup⟩ := Finset.exists_mem_eq_sup' hS c
      obtain ⟨b, hb, hinf⟩ := Finset.exists_mem_eq_inf' hS c
      rw [hsup, hinf]
      exact h a ha b hb
    · exact hD

/-- Counting up the least counter leaves the counters as close together as they were, or makes one of
them larger than the others by one. -/
lemma spread_count_least {p : α} (hD : 1 ≤ D) (hp : ∀ a ∈ S, c p ≤ c a)
    (hc : ∀ a ∈ S, a ≠ p → c' a = c a) (hcp : (∃ a ∈ S, a ≠ p) → c' p = c p + 1)
    (h : spread S c ≤ D) : spread S c' ≤ D := by
  have hle := (spread_le_iff (by omega)).mp h
  apply (spread_le_iff (by omega)).mpr
  intro a ha b hb
  by_cases hap : a = p
  · subst hap
    by_cases hba : b = a
    · subst hba
      omega
    · rw [hcp ⟨b, hb, hba⟩, hc b hb hba]
      have := hp b hb
      omega
  · rw [hc a ha hap]
    by_cases hbp : b = p
    · subst hbp
      have := hle a ha b hb
      rw [hcp ⟨a, ha, hap⟩]
      omega
    · rw [hc b hb hbp]
      exact hle a ha b hb

end Store
