import LearnXv6.Store.Result

/-! Two computations that may fail and do the same, up to a relation on their results. -/
namespace Store
open List

universe u v

variable {ε : Type u} {α β γ δ : Type v}

/-- Both end with related results, or both fail with the same error. -/
def Alike (R : α → β → Prop) : Except ε α → Except ε β → Prop
  | .ok a, .ok b => R a b
  | .error e, .error e' => e = e'
  | _, _ => False

namespace Alike

variable {R : α → β → Prop} {S : γ → δ → Prop} {x : Except ε α} {y : Except ε β}
  {f : α → Except ε γ} {g : β → Except ε δ}

variable (h : Alike R x y)
include h

lemma bind (hfg : ∀ a b, R a b → Alike S (f a) (g b)) : Alike S (x >>= f) (y >>= g) := by
  cases x with
  | error e =>
    cases y with
    | error e' => exact h
    | ok b => exact h.elim
  | ok a =>
    cases y with
    | error e' => exact h.elim
    | ok b => exact hfg a b h

lemma map_left {f : α → γ} {R' : γ → β → Prop}
    (hR : ∀ a b, R a b → R' (f a) b) : Alike R' (x >>= fun a => .ok (f a)) y := by
  cases x with
  | error e =>
    cases y with
    | error e' => exact h
    | ok b => exact h.elim
  | ok a =>
    cases y with
    | error e' => exact h.elim
    | ok b => exact hR a b h

/-- The relation may use what the two computations return. -/
lemma with_eq : Alike (fun a b => R a b ∧ x = .ok a ∧ y = .ok b) x y := by
  cases x <;> cases y <;> simp_all [Alike]

lemma of_ok {a : α} (hx : x = .ok a) : ∃ b, y = .ok b ∧ R a b := by
  subst hx
  cases y with
  | error e => exact h.elim
  | ok b => exact ⟨b, rfl, h⟩

lemma ok_of {b : β} (hy : y = .ok b) : ∃ a, x = .ok a ∧ R a b := by
  subst hy
  cases x with
  | error e => exact h.elim
  | ok a => exact ⟨a, rfl, h⟩

end Alike

/-- Two loops whose passes do the same, but one of them only where `P` holds. -/
lemma foldlM_ok_iff {ι σ : Type v} {δ : Type u} {f : σ → ι → Except ε σ} {g : σ → ι → Except δ σ}
    {I : σ → Prop} {P : ι → Prop} {l : List ι}
    (hstep : ∀ a ∈ l, ∀ s s', I s → (g s a = .ok s' ↔ f s a = .ok s' ∧ P a))
    (hkeep : ∀ a ∈ l, ∀ s s', I s → g s a = .ok s' → I s') {s : σ} (hs : I s) (s' : σ) :
    (l.foldlM g s = .ok s' ↔ l.foldlM f s = .ok s' ∧ ∀ a ∈ l, P a) ∧ (l.foldlM g s = .ok s' → I s') := by
  induction l generalizing s with
  | nil =>
    refine ⟨?_, fun h => ?_⟩
    · simp [pure, Except.pure]
    · cases h
      exact hs
  | cons a l ih =>
    have ihl : ∀ s1, I s1 → _ := fun s1 hs1 =>
      ih (fun b hb => hstep b (mem_cons_of_mem a hb))
        (fun b hb => hkeep b (mem_cons_of_mem a hb)) hs1
    have ha := hstep a mem_cons_self s
    rw [foldlM_cons, foldlM_cons, bind_eq_ok, bind_eq_ok]
    refine ⟨⟨?_, ?_⟩, ?_⟩
    · rintro ⟨s1, h1, h⟩
      obtain ⟨hf, hP⟩ := (ha s1 hs).mp h1
      obtain ⟨hrest, hall⟩ := (ihl s1 (hkeep a mem_cons_self s s1 hs h1)).1.mp h
      exact ⟨⟨s1, hf, hrest⟩, forall_mem_cons.mpr ⟨hP, hall⟩⟩
    · rintro ⟨⟨s1, hf, h⟩, hall⟩
      obtain ⟨hP, hrest⟩ := forall_mem_cons.mp hall
      have h1 := (ha s1 hs).mpr ⟨hf, hP⟩
      exact ⟨s1, h1, (ihl s1 (hkeep a mem_cons_self s s1 hs h1)).1.mpr ⟨h, hrest⟩⟩
    · rintro ⟨s1, h1, h⟩
      exact (ihl s1 (hkeep a mem_cons_self s s1 hs h1)).2 h

end Store
