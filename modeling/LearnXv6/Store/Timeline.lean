import LearnXv6.Store.Run

/-! Calls that take time. A call that no other overlaps does what one step of a machine does. Nothing is known
of calls that overlap: they leave any state and make any events. -/
namespace Store

variable {α σ ω ε : Type}

/-- The calls that have begun and not ended, whether two of them have overlapped since a time without any,
and the state that the calls before them have left. -/
structure Calls (α σ : Type) where
  pending : List α
  overlap : Bool
  state : σ

def Calls.idle (s : σ) : Calls α σ := ⟨[], false, s⟩

/-- What is reached from `s` by calls each of which begins where `C` allows it. -/
inductive Timeline (step : α → σ → Except ε (σ × List ω)) (C : Calls α σ → α → Prop) (s : σ) :
    List ω → Calls α σ → Prop
  | start : Timeline step C s [] (.idle s)
  | begins {es : List ω} {c : Calls α σ} {a : α} : Timeline step C s es c → C c a →
      Timeline step C s es ⟨a :: c.pending, c.overlap || !c.pending.isEmpty, c.state⟩
  | alone {es es' : List ω} {a : α} {s₁ s₂ : σ} : Timeline step C s es ⟨[a], false, s₁⟩ →
      step a s₁ = .ok (s₂, es') → Timeline step C s (es ++ es') (.idle s₂)
  | overlapped {es es' : List ω} {a : α} {l l' : List α} {s₁ s₂ : σ} :
      Timeline step C s es ⟨l, true, s₁⟩ → l.Perm (a :: l') →
      Timeline step C s (es ++ es') ⟨l', !l'.isEmpty, s₂⟩

/-- No other call is in progress, and `C` allows the call. -/
def NoOverlap (C : σ → α → Prop) (c : Calls α σ) (a : α) : Prop := c.pending = [] ∧ C c.state a

variable {step : α → σ → Except ε (σ × List ω)} {C : σ → α → Prop} {s s₁ : σ} {es : List ω}
  {c : Calls α σ}

lemma Timeline.serial (h : Timeline step (NoOverlap C) s es c) :
    c.overlap = false ∧ (∀ a ∈ c.pending, c.pending = [a] ∧ C c.state a) ∧ Run step C s es c.state := by
  induction h with
  | start => exact ⟨rfl, by simp [Calls.idle], .refl⟩
  | begins _ hc ih =>
    obtain ⟨hpending, hc⟩ := hc
    obtain ⟨hoverlap, _, hrun⟩ := ih
    simp only [hpending, hoverlap]
    refine ⟨rfl, fun b hb => ?_, hrun⟩
    obtain rfl := List.mem_singleton.mp hb
    exact ⟨rfl, hc⟩
  | alone _ hs ih =>
    obtain ⟨_, hpending, hrun⟩ := ih
    exact ⟨rfl, by simp [Calls.idle], .tail hrun (hpending _ (by simp)).2 hs⟩
  | overlapped _ _ ih => cases ih.1

/-- Calls that do not overlap are a run of the machine. -/
lemma Timeline.run (h : Timeline step (NoOverlap C) s es (.idle s₁)) : Run step C s es s₁ := h.serial.2.2

lemma Run.timeline (h : Run step C s es s₁) : Timeline step (NoOverlap C) s es (.idle s₁) := by
  induction h with
  | refl => exact .start
  | tail _ hc hs ih => exact .alone (.begins ih ⟨rfl, hc⟩) hs

end Store
