import Mathlib.Tactic

/-! Infinite chains of a relation on finitely many points. -/
namespace Store
open Relation

variable {α : Type} {R : α → α → Prop} {a b : α}

lemma reflTransGen_chain {f : ℕ → α} (h : ∀ k, R (f k) (f (k + 1))) (n : ℕ) :
    ReflTransGen R (f 0) (f n) := by
  induction n with
  | zero => exact .refl
  | succ n ih => exact ih.tail (h n)

lemma transGen_chain {f : ℕ → α} (h : ∀ k, R (f k) (f (k + 1))) {i j : ℕ} (hij : i < j) :
    TransGen R (f i) (f j) := by
  induction j, hij using Nat.le_induction with
  | base => exact .single (h i)
  | succ j _ ih => exact ih.tail (h j)

/-- A point that leads to a cycle has a next one that does. -/
lemma next_to_cycle (hb : TransGen R b b) (h : TransGen R a b) : ∃ c, R a c ∧ TransGen R c b := by
  obtain ⟨c, hac, hcb⟩ := TransGen.head'_iff.mp h
  refine ⟨c, hac, ?_⟩
  rcases Relation.reflTransGen_iff_eq_or_transGen.mp hcb with rfl | hcb
  · exact hb
  · exact hcb

/-- There is an infinite chain exactly when a cycle can be reached. -/
lemma infinite_chain_iff [Finite α] :
    (∃ f : ℕ → α, f 0 = a ∧ ∀ k, R (f k) (f (k + 1))) ↔ ∃ b, ReflTransGen R a b ∧ TransGen R b b := by
  constructor
  · rintro ⟨f, rfl, h⟩
    obtain ⟨i, j, hne, heq⟩ := Finite.exists_ne_map_eq_of_infinite f
    rcases lt_or_gt_of_ne hne with hij | hji
    · have hcycle := transGen_chain h hij
      rw [← heq] at hcycle
      exact ⟨f i, reflTransGen_chain h i, hcycle⟩
    · have hcycle := transGen_chain h hji
      rw [heq] at hcycle
      exact ⟨f j, reflTransGen_chain h j, hcycle⟩
  · rintro ⟨b, hab, hb⟩
    choose next hR hnext using fun c : { c // TransGen R c b } => next_to_cycle hb c.2
    have ha : TransGen R a b := .trans_right hab hb
    let f : ℕ → { c // TransGen R c b } := fun k => (fun c => ⟨next c, hnext c⟩)^[k] ⟨a, ha⟩
    refine ⟨fun k => (f k).1, rfl, fun k => ?_⟩
    show R (f k).1 (f (k + 1)).1
    rw [show f (k + 1) = ⟨next (f k), hnext (f k)⟩ from Function.iterate_succ_apply' _ k _]
    exact hR (f k)

end Store
