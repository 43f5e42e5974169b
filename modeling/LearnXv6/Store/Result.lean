import Mathlib.Tactic

/-! Computations that may fail: what a success of a sequence or of a loop says. -/
namespace Store

universe u v

variable {ε : Type u} {α β σ : Type v} {x : Except ε α}

variable {f : α → Except ε β}

lemma bind_eq_ok {b : β} : (x >>= f) = .ok b ↔ ∃ a, x = .ok a ∧ f a = .ok b := by
  cases x with
  | error e | ok a => simp [bind, Except.bind]

lemma map_eq_ok {f : α → β} {b : β} : x.map f = .ok b ↔ ∃ a, x = .ok a ∧ f a = b := by
  cases x with
  | error e | ok a => simp [Except.map]

section Guard
variable {c : Prop} [Decidable c] {e : ε} {a : α}

lemma then_eq_ok : (if c then x else .error e) = .ok a ↔ c ∧ x = .ok a := by
  split <;> simp [*]

lemma else_eq_ok : (if c then .error e else x) = .ok a ↔ ¬ c ∧ x = .ok a := by
  split <;> simp [*]

end Guard

/-- A sequence avoids an error that both of its parts avoid. -/
lemma bind_ne_error {e : ε} (hx : x ≠ .error e)
    (hf : ∀ a, x = .ok a → f a ≠ .error e) : (x >>= f) ≠ .error e := by
  cases x with
  | error e' =>
    intro h
    exact hx (congrArg Except.error (Except.error.inj h))
  | ok a => exact hf a rfl

@[simp] lemma ok_bind (a : α) (f : α → Except ε β) : (Except.ok a >>= f) = f a := rfl

@[simp] lemma error_bind (e : ε) (f : α → Except ε β) :
    ((Except.error e : Except ε α) >>= f) = .error e := rfl

/-- Every result of the computation satisfies `P`. -/
def Ensures (x : Except ε α) (P : α → Prop) : Prop := ∀ a, x = .ok a → P a

variable {P : α → Prop}

lemma Ensures.ok {a : α} (h : P a) : Ensures (.ok a : Except ε α) P := by
  intro b hb
  cases hb
  exact h

lemma Ensures.error {e : ε} : Ensures (.error e) P := by
  intro b hb
  cases hb

lemma Ensures.trivial : Ensures x fun _ => True := fun _ _ => True.intro

lemma Ensures.bind {Q : β → Prop}
    (hx : Ensures x P) (hf : ∀ a, P a → Ensures (f a) Q) : Ensures (x >>= f) Q := by
  intro b hb
  obtain ⟨a, ha, hb⟩ := bind_eq_ok.mp hb
  exact hf a (hx a ha) b hb

/-- A loop that succeeds keeps what each of its passes keeps. -/
lemma foldlM_invariant {f : σ → α → Except ε σ} {I : List α → σ → Prop}
    (hstep : ∀ done a s s', I done s → f s a = .ok s' → I (done ++ [a]) s') :
    ∀ (l done : List α) (s s' : σ), I done s → l.foldlM f s = .ok s' → I (done ++ l) s' := by
  intro l
  induction l with
  | nil =>
    intro done s s' hi h
    cases h
    rwa [List.append_nil]
  | cons a l ih =>
    intro done s s' hi h
    rw [List.foldlM_cons, bind_eq_ok] at h
    obtain ⟨s1, h1, h⟩ := h
    have := ih (done ++ [a]) s1 s' (hstep done a s s1 hi h1) h
    rwa [List.append_assoc] at this

/-- The computation gives a result that satisfies `P`, or an error that satisfies `E`. -/
def Outcome (E : ε → Prop) (P : α → Prop) : Except ε α → Prop
  | .ok a => P a
  | .error e => E e

lemma outcome_false : Outcome (fun _ => False) P x ↔ ∃ a, x = .ok a ∧ P a := by
  cases x with
  | ok a | error e => simp [Outcome]

lemma outcome_true : Outcome (fun _ => True) P x ↔ Ensures x P := by
  cases x with
  | ok a | error e => simp [Outcome, Ensures]

lemma Outcome.imp {E F : ε → Prop} {P Q : α → Prop} (h : Outcome E P x)
    (hEF : ∀ e, E e → F e) (hPQ : ∀ a, P a → Q a) : Outcome F Q x := by
  cases x with
  | ok a => exact hPQ a h
  | error e => exact hEF e h

lemma Outcome.mono {E : ε → Prop} {P Q : α → Prop} (h : Outcome E P x)
    (hPQ : ∀ a, P a → Q a) : Outcome E Q x := h.imp (fun _ he => he) hPQ

lemma Outcome.bind {E : ε → Prop} {Q : β → Prop} (hx : Outcome E P x) (hf : ∀ a, P a → Outcome E Q (f a)) :
    Outcome E Q (x >>= f) := by
  cases x with
  | ok a => exact hf a hx
  | error e => exact hx

lemma Outcome.foldlM {E : ε → Prop} {I : σ → Prop} {f : σ → α → Except ε σ} {s : σ}
    (hstep : ∀ s a, I s → Outcome E I (f s a)) (l : List α) (h : I s) : Outcome E I (l.foldlM f s) := by
  induction l generalizing s with
  | nil => exact h
  | cons a l ih =>
    rw [List.foldlM_cons]
    exact (hstep s a h).bind fun s' hs' => ih hs'

lemma Outcome.range {E : ε → Prop} {I : ℕ → σ → Prop} {f : σ → ℕ → Except ε σ} {s : σ} {n : ℕ}
    (hstep : ∀ i < n, ∀ s, I i s → Outcome E (I (i + 1)) (f s i)) (h : I 0 s) :
    Outcome E (I n) ((List.range n).foldlM f s) := by
  induction n with
  | zero => exact h
  | succ n ih =>
    rw [List.range_succ, List.foldlM_append]
    refine (ih fun i hi => hstep i (hi.trans (Nat.lt_succ_self n))).bind fun s' hs' => ?_
    rw [List.foldlM_cons]
    exact (hstep n (Nat.lt_succ_self n) s' hs').bind fun s'' hs'' => hs''

def Fails (x : Except ε α) : Prop := ∃ e, x = .error e

lemma fails_ok {a : α} : ¬ Fails (.ok a : Except ε α) := by
  rintro ⟨e, he⟩
  cases he

lemma fails_bind : Fails (x >>= f) ↔ Fails x ∨ ∃ a, x = .ok a ∧ Fails (f a) := by
  cases x with
  | error e => exact ⟨fun _ => .inl ⟨e, rfl⟩, fun _ => ⟨e, rfl⟩⟩
  | ok a =>
    refine ⟨fun h => .inr ⟨a, rfl, h⟩, ?_⟩
    rintro (h | ⟨a', ha, h⟩)
    · exact (fails_ok h).elim
    · cases ha
      exact h

/-- Evaluates a property of the result of a computation that ends without an error. -/
lemma exists_eq_ok {P : α → Prop} [DecidablePred P]
    (h : (match x with | .ok u => decide (P u) | .error _ => false) = true) : ∃ u, x = .ok u ∧ P u := by
  cases x with
  | ok u => exact ⟨u, rfl, by simpa using h⟩
  | error e => cases h

end Store
