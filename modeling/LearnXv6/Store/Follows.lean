import LearnXv6.Store.Program

/-! Programs that follow a function, ending where it returns and stopping where it fails; and the states
that a run visits before a condition is broken. -/
namespace Store.Prog

variable {ι : Type} {ρ : ι → Type} {α β γ δ σ ε φ : Type}

section Defs

variable (step : (i : ι) → σ → Except ε (ρ i × σ))

/-- An operation that fails stops the program, and `C` holds until then. -/
def Halts (C : σ → Prop) : Prog ι ρ α → σ → Prop
  | ret _, _ => False
  | op i k, s => C s ∧
    ((∃ e, step i s = .error e) ∨ ∃ r s', step i s = .ok (r, s') ∧ Halts C (k r) s')

/-- The program ends, with `Q` between its result and that of `x`, if `x` is a result, and stops
otherwise; `C` holds on the way. -/
def Follows (C : σ → Prop) (p : Prog ι ρ α) (s : σ) (x : Except φ γ) (Q : α → σ → γ → Prop) : Prop :=
  match x with
  | .ok c => Meets step C p s fun a s' => Q a s' c
  | .error _ => Halts step C p s

/-- The states between the operations of a run, up to the first one without `D`. -/
inductive VisitsWhile (D : σ → Prop) : Prog ι ρ α → σ → σ → Prop
  | here {p : Prog ι ρ α} {s : σ} : D s → VisitsWhile D p s s
  | next {i : ι} {k : ρ i → Prog ι ρ α} {s s' u : σ} {r : ρ i} :
      D s → step i s = .ok (r, s') → VisitsWhile D (k r) s' u → VisitsWhile D (op i k) s u

end Defs

variable {step : (i : ι) → σ → Except ε (ρ i × σ)} {C D : σ → Prop} {p : Prog ι ρ α}
  {f : α → Prog ι ρ β} {s u : σ}

/-! Programs that stop. -/

lemma Halts.bind (h : Halts step C p s) : Halts step C (p >>= f) s := by
  induction p generalizing s with
  | ret a => exact h.elim
  | op i k ih =>
    obtain ⟨hc, he | ⟨r, s', hs, hk⟩⟩ := h
    · exact ⟨hc, .inl he⟩
    · exact ⟨hc, .inr ⟨r, s', hs, ih r hk⟩⟩

lemma Meets.halts (h : Meets step C p s fun a s' => Halts step C (f a) s') : Halts step C (p >>= f) s := by
  induction p generalizing s with
  | ret a => exact h.2
  | op i k ih =>
    obtain ⟨hc, r, s', hs, hk⟩ := h
    exact ⟨hc, .inr ⟨r, s', hs, ih r hk⟩⟩

lemma Halts.visits (h : Halts step C p s) (hv : Visits step p s u) : C u := by
  induction hv with
  | here p s =>
    cases p with
    | ret a => exact h.elim
    | op i k => exact h.1
  | next hs _ ih =>
    obtain ⟨-, ⟨e, he⟩ | ⟨r', s', hs', hk⟩⟩ := h
    · rw [hs] at he
      cases he
    · rw [hs] at hs'
      cases hs'
      exact ih hk

/-! Programs that follow a function. -/

lemma Follows.bind {x : Except φ γ} {g : γ → Except φ δ} {Q : α → σ → γ → Prop}
    {R : β → σ → δ → Prop} (h : Follows step C p s x Q)
    (hk : ∀ a s' c, Q a s' c → Follows step C (f a) s' (g c) R) : Follows step C (p >>= f) s (x >>= g) R := by
  cases x with
  | error e => exact Halts.bind h
  | ok c =>
    have hmeets := Meets.mono h fun a s' hq => hk a s' c hq
    change Follows step C (p >>= f) s (g c) R
    generalize g c = y at hmeets
    cases y with
    | error e => exact hmeets.halts
    | ok d => exact hmeets.bind

/-- What a program does before it takes up the function. -/
lemma Meets.follows {x : Except φ γ} {R : β → σ → γ → Prop}
    (h : Meets step C p s fun a s' => Follows step C (f a) s' x R) : Follows step C (p >>= f) s x R := by
  cases x with
  | error e => exact h.halts
  | ok c => exact h.bind

lemma Follows.with_eq {x : Except φ γ} {Q : α → σ → γ → Prop} (h : Follows step C p s x Q) :
    Follows step C p s x fun a s' c => x = .ok c ∧ Q a s' c := by
  cases x with
  | error e => exact h
  | ok c => exact Meets.mono h fun a s' hq => ⟨rfl, hq⟩

lemma Follows.mono {x : Except φ γ} {Q R : α → σ → γ → Prop} (h : Follows step C p s x Q)
    (hq : ∀ a s' c, Q a s' c → R a s' c) : Follows step C p s x R := by
  cases x with
  | error e => exact h
  | ok c => exact Meets.mono h fun a s' => hq a s' c

/-! The first part of a run. -/

section

variable (h : VisitsWhile step D p s u)
include h

lemma VisitsWhile.start : D s := by
  cases h with
  | here hd | next hd _ _ => exact hd

lemma VisitsWhile.last : D u := by
  induction h with
  | here hd => exact hd
  | next _ _ _ ih => exact ih

lemma VisitsWhile.visits : Visits step p s u := by
  induction h with
  | here _ => exact .here _ _
  | next _ hs _ ih => exact .next hs ih

lemma VisitsWhile.bind : VisitsWhile step D (p >>= f) s u := by
  induction h with
  | here hd => exact .here hd
  | next hd hs _ ih => exact .next hd hs ih

end

/-- A state of a sequence is one of the first program, or one of the second after the first has
ended. -/
lemma VisitsWhile.of_bind (h : VisitsWhile step D (p >>= f) s u) : VisitsWhile step D p s u ∨
    ∃ a s', p.run step s = .ok (a, s') ∧ VisitsWhile step D (f a) s' u := by
  induction p generalizing s with
  | ret a => exact .inr ⟨a, s, rfl, h⟩
  | op i k ih =>
    rw [op_bind] at h
    cases h with
    | here hd => exact .inl (.here hd)
    | next hd hs hk =>
      rcases ih _ hk with hv | ⟨a, s', hrun, hv⟩
      · exact .inl (.next hd hs hv)
      · refine .inr ⟨a, s', ?_, hv⟩
        simp only [run, hs]
        exact hrun

/-- A program that ends comes to the states of the one that follows it. -/
lemma Meets.visitsWhile {P : σ → Prop}
    (h : Meets step D p s fun a s' => ∃ u, VisitsWhile step D (f a) s' u ∧ P u) :
    ∃ u, VisitsWhile step D (p >>= f) s u ∧ P u := by
  induction p generalizing s with
  | ret a => exact h.2
  | op i k ih =>
    obtain ⟨hd, r, s', hs, hk⟩ := h
    obtain ⟨u, hv, hp⟩ := ih r hk
    exact ⟨u, .next hd hs hv, hp⟩

end Store.Prog
