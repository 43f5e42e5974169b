import Mathlib.Logic.Relation
import Mathlib.Tactic

/-! Programs over an interface of atomic operations: run alone, stopped at any point, or interleaved
with others. -/
namespace Store

/-- A program that performs operations of `ι`; operation `i` answers with a value of `ρ i`. -/
inductive Prog (ι : Type) (ρ : ι → Type) (α : Type) : Type
  | ret (a : α)
  | op (i : ι) (k : ρ i → Prog ι ρ α)

namespace Prog

variable {ι : Type} {ρ : ι → Type} {α β σ ε : Type}

def bind : Prog ι ρ α → (α → Prog ι ρ β) → Prog ι ρ β
  | ret a, f => f a
  | op i k, f => op i fun r => bind (k r) f

instance : Monad (Prog ι ρ) where
  pure := ret
  bind := bind

/-- The program that performs one operation. -/
def perform (i : ι) : Prog ι ρ (ρ i) := op i ret

@[simp] lemma pure_eq (a : α) : (pure a : Prog ι ρ α) = ret a := rfl

@[simp] lemma ret_bind (a : α) (f : α → Prog ι ρ β) : ret a >>= f = f a := rfl

@[simp] lemma op_bind (i : ι) (k : ρ i → Prog ι ρ α) (f : α → Prog ι ρ β) :
    op i k >>= f = op i fun r => k r >>= f := rfl

lemma bind_assoc {γ : Type} (p : Prog ι ρ α) (f : α → Prog ι ρ β) (g : β → Prog ι ρ γ) :
    p >>= f >>= g = p >>= fun a => f a >>= g := by
  induction p with
  | ret a => rfl
  | op i k ih =>
    simp only [op_bind]
    congr 1
    funext r
    exact ih r

lemma bind_ret (p : Prog ι ρ α) : p >>= ret = p := by
  induction p with
  | ret a => rfl
  | op i k ih =>
    rw [op_bind]
    congr 1
    funext r
    exact ih r

/-! One program alone. -/

section Run

variable (step : (i : ι) → σ → Except ε (ρ i × σ))

def run : Prog ι ρ α → σ → Except ε (α × σ)
  | ret a, s => .ok (a, s)
  | op i k, s =>
    match step i s with
    | .ok (r, s) => run (k r) s
    | .error e => .error e

lemma run_perform (i : ι) (s : σ) : (perform i).run step s = step i s := by
  simp only [perform, run]
  split
  · rename_i h
    exact h.symm
  · rename_i h
    exact h.symm

lemma run_bind (p : Prog ι ρ α) (f : α → Prog ι ρ β) (s : σ) :
    (p >>= f).run step s = (p.run step s).bind fun r => (f r.1).run step r.2 := by
  induction p generalizing s with
  | ret a => rfl
  | op i k ih =>
    rw [op_bind]
    simp only [run]
    split
    · exact ih _ _
    · rfl

/-- The states between the operations of a run, the first and the last included. -/
inductive Visits : Prog ι ρ α → σ → σ → Prop
  | here (p : Prog ι ρ α) (s : σ) : Visits p s s
  | next {i : ι} {k : ρ i → Prog ι ρ α} {s s' u : σ} {r : ρ i} :
      step i s = .ok (r, s') → Visits (k r) s' u → Visits (op i k) s u

/-- The program ends, in a state that satisfies `Q`, and wherever it is stopped `C` holds. -/
def Meets (C : σ → Prop) : Prog ι ρ α → σ → (α → σ → Prop) → Prop
  | ret a, s, Q => C s ∧ Q a s
  | op i k, s, Q => C s ∧ ∃ r s', step i s = .ok (r, s') ∧ Meets C (k r) s' Q

variable {step} {C : σ → Prop} {Q : α → σ → Prop} {p : Prog ι ρ α} {s : σ}

section

variable (h : Meets step C p s Q)
include h

lemma Meets.crash : C s := by
  cases p with
  | ret a | op i k => exact h.1

lemma Meets.run : ∃ a s', p.run step s = .ok (a, s') ∧ Q a s' := by
  induction p generalizing s with
  | ret a => exact ⟨a, s, rfl, h.2⟩
  | op i k ih =>
    obtain ⟨-, r, s', hs, hk⟩ := h
    obtain ⟨a, u, hrun, hq⟩ := ih r hk
    refine ⟨a, u, ?_, hq⟩
    simp only [Prog.run, hs]
    exact hrun

lemma Meets.visits {u : σ} (hv : Visits step p s u) : C u := by
  induction hv with
  | here p s => exact h.crash
  | next hs _ ih =>
    obtain ⟨-, r', s', hs', hk⟩ := h
    rw [hs] at hs'
    cases hs'
    exact ih hk

lemma Meets.mono {R : α → σ → Prop} (hq : ∀ a s, Q a s → R a s) : Meets step C p s R := by
  induction p generalizing s with
  | ret a => exact ⟨h.1, hq a s h.2⟩
  | op i k ih =>
    obtain ⟨hc, r, s', hs, hk⟩ := h
    exact ⟨hc, r, s', hs, ih r hk⟩

lemma Meets.weaken {C' : σ → Prop} (hc : ∀ s, C s → C' s) : Meets step C' p s Q := by
  induction p generalizing s with
  | ret a => exact ⟨hc s h.1, h.2⟩
  | op i k ih =>
    obtain ⟨h0, r, s', hs, hk⟩ := h
    exact ⟨hc s h0, r, s', hs, ih r hk⟩

end

lemma visits_of_run {a : α} {u : σ} (h : p.run step s = .ok (a, u)) : Visits step p s u := by
  induction p generalizing s with
  | ret b =>
    cases h
    exact .here _ _
  | op i k ih =>
    simp only [Prog.run] at h
    split at h
    · rename_i r s' hs
      exact .next hs (ih r h)
    · cases h

lemma Meets.bind {R : β → σ → Prop} {f : α → Prog ι ρ β}
    (h : Meets step C p s fun a s' => Meets step C (f a) s' R) : Meets step C (p >>= f) s R := by
  induction p generalizing s with
  | ret a => exact h.2
  | op i k ih =>
    obtain ⟨hc, r, s', hs, hk⟩ := h
    exact ⟨hc, r, s', hs, ih r hk⟩

lemma Meets.last (h : Meets step C (p >>= ret) s Q) : Meets step C p s Q := by
  rwa [bind_ret] at h

/-- A loop that keeps an invariant indexed by the number of passes done. -/
lemma Meets.forM {γ : Type} {body : γ → Prog ι ρ PUnit} (I : ℕ → σ → Prop) (xs : List γ)
    (hbody : ∀ j x s, xs[j]? = some x → I j s → Meets step C (body x) s fun _ s' => I (j + 1) s')
    (hc : ∀ s, I xs.length s → C s) (h0 : I 0 s) :
    Meets step C (xs.forM body) s fun _ s' => I xs.length s' := by
  induction xs generalizing s I with
  | nil => exact ⟨hc s h0, h0⟩
  | cons x xs ih =>
    change Meets step C (body x >>= fun _ => xs.forM body) s _
    refine Meets.bind ((hbody 0 x s rfl h0).mono fun _ s' h1 => ?_)
    exact ih (fun j => I (j + 1)) (fun j y u hy hi => hbody (j + 1) y u hy hi) hc h1

lemma Meets.range {n : ℕ} {body : ℕ → Prog ι ρ PUnit} (I : ℕ → σ → Prop)
    (hbody : ∀ j s, j < n → I j s → Meets step C (body j) s fun _ s' => I (j + 1) s')
    (hc : ∀ s, I n s → C s) (h0 : I 0 s) : Meets step C ((List.range n).forM body) s fun _ s' => I n s' := by
  have h : Meets step C ((List.range n).forM body) s fun _ s' => I (List.range n).length s' := by
    refine forM I _ (fun j x s' hx hi => ?_) (by rwa [List.length_range]) h0
    obtain ⟨hj, rfl⟩ : j < n ∧ j = x := by simpa using List.getElem?_eq_some_iff.mp hx
    exact hbody j s' hj hi
  rwa [List.length_range] at h

end Run

end Prog

end Store
