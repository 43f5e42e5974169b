import LearnXv6.Store.Result

/-! Runs of a machine that takes one action at a time, and the events that its actions make. -/
namespace Store

variable {α σ ω ε : Type}

/-- The runs from `s` that take each action where `C` allows it. -/
inductive Run (step : α → σ → Except ε (σ × List ω)) (C : σ → α → Prop) (s : σ) :
    List ω → σ → Prop
  | refl : Run step C s [] s
  | tail {es es' : List ω} {a : α} {s₁ s₂ : σ} :
      Run step C s es s₁ → C s₁ a → step a s₁ = .ok (s₂, es') → Run step C s (es ++ es') s₂

/-- A machine each of whose actions makes one event. -/
def single (step : α → σ → Except ε (σ × ω)) (a : α) (s : σ) : Except ε (σ × List ω) := do
  let (s', o) ← step a s
  .ok (s', [o])

/-- Takes the actions in order. -/
def runList (step : α → σ → Except ε (σ × List ω)) : List α → σ → Except ε (σ × List ω)
  | [], s => .ok (s, [])
  | a :: as, s =>
    match step a s with
    | .ok (s₁, es) =>
      match runList step as s₁ with
      | .ok (s₂, es') => .ok (s₂, es ++ es')
      | .error e => .error e
    | .error e => .error e

/-- Whether each action of the list is allowed where it is taken. -/
def allowed (step : α → σ → Except ε (σ × List ω)) (C : σ → α → Prop)
    [∀ s a, Decidable (C s a)] : List α → σ → Bool
  | [], _ => true
  | a :: as, s =>
    decide (C s a) &&
      match step a s with
      | .ok (s₁, _) => allowed step C as s₁
      | .error _ => true

/-- Whether the actions of the list are allowed, make these events and lead to a state with `Q`. -/
def leads [DecidableEq ω] (step : α → σ → Except ε (σ × List ω)) (C : σ → α → Prop)
    [∀ s a, Decidable (C s a)] (l : List α) (s : σ) (es : List ω) (Q : σ → Prop) [DecidablePred Q] :
    Bool :=
  allowed step C l s &&
    match runList step l s with
    | .ok (s', es') => decide (es' = es) && decide (Q s')
    | .error _ => false

/-- The events of an action, if it can be taken. -/
def eventsOf (step : α → σ → Except ε (σ × List ω)) (a : α) (s : σ) : List ω :=
  match step a s with
  | .ok (_, es) => es
  | .error _ => []

lemma mem_eventsOf {step : α → σ → Except ε (σ × List ω)} {a : α} {s : σ} {e : ω}
    (h : e ∈ eventsOf step a s) : ∃ s' es, step a s = .ok (s', es) ∧ e ∈ es := by
  unfold eventsOf at h
  split at h
  · rename_i s' es hstep
    exact ⟨s', es, hstep, h⟩
  · cases h

namespace Run

variable {step : α → σ → Except ε (σ × List ω)} {C D : σ → α → Prop} {s s₁ s₂ : σ}
  {es es' : List ω}

lemma mono (h : Run step C s es s₁) (hCD : ∀ s a, C s a → D s a) : Run step D s es s₁ := by
  induction h with
  | refl => exact .refl
  | tail _ hc hs ih => exact .tail ih (hCD _ _ hc) hs

lemma trans (h : Run step C s es s₁) (h' : Run step C s₁ es' s₂) : Run step C s (es ++ es') s₂ := by
  induction h' with
  | refl => rwa [List.append_nil]
  | tail _ hc hs ih =>
    rw [← List.append_assoc]
    exact .tail ih hc hs

/-- What every allowed action keeps holds after every run. -/
lemma invariant {I : σ → Prop} (hstep : ∀ s a s' es, I s → C s a → step a s = .ok (s', es) → I s')
    (h : Run step C s es s₁) (h0 : I s) : I s₁ := by
  induction h with
  | refl => exact h0
  | tail _ hc hs ih => exact hstep _ _ _ _ ih hc hs

lemma history {I : List ω → σ → Prop}
    (hstep : ∀ es s a s' es', I es s → C s a → step a s = .ok (s', es') → I (es ++ es') s')
    (h : Run step C s es s₁) (h0 : I [] s) : I es s₁ := by
  induction h with
  | refl => exact h0
  | tail _ hc hs ih => exact hstep _ _ _ _ _ ih hc hs

lemma of_allowed [∀ s a, Decidable (C s a)] (l : List α) (h : runList step l s = .ok (s₁, es))
    (hC : allowed step C l s = true) : Run step C s es s₁ := by
  induction l generalizing s s₁ es with
  | nil =>
    cases h
    exact .refl
  | cons a l ih =>
    simp only [runList] at h
    split at h
    · rename_i u es1 hs
      split at h
      · rename_i v es2 hrest
        cases h
        simp only [allowed, hs, Bool.and_eq_true, decide_eq_true_eq] at hC
        have hfirst : Run step C s ([] ++ es1) u := .tail .refl hC.1 hs
        exact hfirst.trans (ih hrest hC.2)
      · cases h
    · cases h

lemma of_leads [DecidableEq ω] [∀ s a, Decidable (C s a)] {Q : σ → Prop} [DecidablePred Q]
    (l : List α) (h : leads step C l s es Q = true) : ∃ s', Run step C s es s' ∧ Q s' := by
  unfold leads at h
  rw [Bool.and_eq_true] at h
  obtain ⟨hC, h⟩ := h
  split at h
  · rename_i s' es' hrun
    simp only [Bool.and_eq_true, decide_eq_true_eq] at h
    obtain ⟨rfl, hQ⟩ := h
    exact ⟨s', of_allowed l hrun hC, hQ⟩
  · cases h

lemma of_runList (l : List α) (h : runList step l s = .ok (s₁, es))
    (hC : ∀ s a, a ∈ l → C s a) : Run step C s es s₁ := by
  classical
  refine of_allowed l h ?_
  clear h
  induction l generalizing s with
  | nil => rfl
  | cons a l ih =>
    simp only [allowed, Bool.and_eq_true, decide_eq_true_eq]
    refine ⟨hC s a (by simp), ?_⟩
    split
    · exact ih fun s b hb => hC s b (by simp [hb])
    · rfl

end Run

/-! Two machines that implement one specification are alike to whoever drives them. -/

variable {α σ σ₁ σ₂ τ ω ε : Type}

/-- Where `C` allows an action, the machine does what the specification says. -/
def Implements (step : α → σ → Except ε (σ × ω)) (spec : α → τ → τ × ω) (C : σ → α → Prop)
    (R : σ → τ → Prop) : Prop :=
  ∀ s t a, R s t → C s a → ∃ s', step a s = .ok (s', (spec a t).2) ∧ R s' (spec a t).1

/-- Two machines take the same actions. -/
def both (step₁ : α → σ₁ → Except ε (σ₁ × ω)) (step₂ : α → σ₂ → Except ε (σ₂ × ω)) (a : α)
    (s : σ₁ × σ₂) : Except ε ((σ₁ × σ₂) × List (ω × ω)) := do
  let (s₁, o₁) ← step₁ a s.1
  let (s₂, o₂) ← step₂ a s.2
  .ok ((s₁, s₂), [(o₁, o₂)])

variable {step₁ : α → σ₁ → Except ε (σ₁ × ω)} {step₂ : α → σ₂ → Except ε (σ₂ × ω)}
  {spec : α → τ → τ × ω} {C₁ : σ₁ → α → Prop} {C₂ : σ₂ → α → Prop} {R₁ : σ₁ → τ → Prop}
  {R₂ : σ₂ → τ → Prop} {t : τ} {s s' : σ₁ × σ₂} {es : List (ω × ω)}

lemma both_eq_ok {a : α} (h : both step₁ step₂ a s = .ok (s', es)) :
    ∃ o1 o2, step₁ a s.1 = .ok (s'.1, o1) ∧ step₂ a s.2 = .ok (s'.2, o2) ∧ es = [(o1, o2)] := by
  unfold both at h
  obtain ⟨⟨s1, o1⟩, h1, h⟩ := bind_eq_ok.mp h
  obtain ⟨⟨s2, o2⟩, h2, h⟩ := bind_eq_ok.mp h
  cases h
  exact ⟨o1, o2, h1, h2, rfl⟩

/-- After every run both machines are in the same state of the specification, and whoever drives them has seen
the same. -/
lemma both_agree (h1 : Implements step₁ spec C₁ R₁) (h2 : Implements step₂ spec C₂ R₂)
    (hrun : Run (both step₁ step₂) (fun s a => C₁ s.1 a ∧ C₂ s.2 a) s es s') (ht1 : R₁ s.1 t)
    (ht2 : R₂ s.2 t) : (∀ o ∈ es, o.1 = o.2) ∧ ∃ t', R₁ s'.1 t' ∧ R₂ s'.2 t' := by
  refine hrun.history (I := fun es s => (∀ o ∈ es, o.1 = o.2) ∧ ∃ t', R₁ s.1 t' ∧ R₂ s.2 t') ?_
    ⟨by simp, t, ht1, ht2⟩
  rintro es s a s' es' ⟨hes, t', hr1, hr2⟩ ⟨hc1, hc2⟩ hstep
  obtain ⟨o1, o2, hs1, hs2, rfl⟩ := both_eq_ok hstep
  obtain ⟨u1, hu1, hr1⟩ := h1 s.1 t' a hr1 hc1
  obtain ⟨u2, hu2, hr2⟩ := h2 s.2 t' a hr2 hc2
  rw [hs1] at hu1
  rw [hs2] at hu2
  cases hu1
  cases hu2
  refine ⟨fun o ho => ?_, _, hr1, hr2⟩
  rcases List.mem_append.mp ho with ho | ho
  · exact hes o ho
  · cases List.mem_singleton.mp ho
    rfl

end Store
