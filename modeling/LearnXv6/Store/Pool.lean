import LearnXv6.Store.Program

/-! Threads that run programs over one shared state, and protocols that they obey. -/
namespace Store

open Function Finset

variable {ι : Type} {ρ : ι → Type} {α β σ ε τ γ : Type}

/-! Interleavings. -/

/-- The rest of each thread's program. -/
abbrev Pool (τ ι : Type) (ρ : ι → Type) (α : Type) := τ → Prog ι ρ α

namespace Pool

variable [DecidableEq τ] (step : (i : ι) → σ → Except ε (ρ i × σ))

inductive Step : Pool τ ι ρ α × σ → Pool τ ι ρ α × σ → Prop
  | op {P : Pool τ ι ρ α} {s s' : σ} {t : τ} {i : ι} {k : ρ i → Prog ι ρ α} {r : ρ i} :
      P t = .op i k → step i s = .ok (r, s') → Step (P, s) (update P t (k r), s')

abbrev Reach : Pool τ ι ρ α × σ → Pool τ ι ρ α × σ → Prop := Relation.ReflTransGen (Step step)

/-- The next operation of some thread stops with `e`. -/
def Fails (c : Pool τ ι ρ α × σ) (e : ε) : Prop :=
  ∃ t i k, c.1 t = .op i k ∧ step i c.2 = .error e

/-- Each thread of the list performs its next operation, in this order. -/
def schedule : List τ → Pool τ ι ρ α × σ → Option (Pool τ ι ρ α × σ)
  | [], c => some c
  | t :: ts, (P, s) =>
    match P t with
    | .ret _ => none
    | .op i k =>
      match step i s with
      | .ok (r, s') => schedule ts (update P t (k r), s')
      | .error _ => none

variable {step} {P : Pool τ ι ρ α} {s s' : σ} {t : τ}

lemma reach_of_schedule (ts : List τ) {c c' : Pool τ ι ρ α × σ}
    (h : schedule step ts c = some c') : Reach step c c' := by
  induction ts generalizing c with
  | nil =>
    cases h
    exact .refl
  | cons t ts ih =>
    obtain ⟨P, s⟩ := c
    simp only [schedule] at h
    split at h
    · cases h
    · rename_i i k hp
      split at h
      · rename_i r s' hs
        exact .head (.op hp hs) (ih h)
      · cases h

/-- A thread that runs alone to the end of the first part of its program. -/
lemma reach_of_run {p : Prog ι ρ β} {f : β → Prog ι ρ α} {b : β} (hp : P t = p >>= f)
    (hrun : p.run step s = .ok (b, s')) : Reach step (P, s) (update P t (f b), s') := by
  induction p generalizing P s with
  | ret a =>
    cases hrun
    have : update P t (f b) = P := by
      rw [← Prog.ret_bind b f, ← hp]
      exact update_eq_self t P
    rw [this]
  | op i k ih =>
    simp only [Prog.run] at hrun
    split at hrun
    · rename_i r u hstep
      have h1 : Step step (P, s) (update P t (k r >>= f), u) := .op hp hstep
      have h2 := ih r (P := update P t (k r >>= f)) (update_self _ _ _) hrun
      rw [update_idem] at h2
      exact .head h1 h2
    · cases hrun

/-- A thread that runs alone until an operation stops it. -/
lemma fails_of_run {p : Prog ι ρ β} {f : β → Prog ι ρ α} {e : ε} (hp : P t = p >>= f)
    (hrun : p.run step s = .error e) : ∃ c, Reach step (P, s) c ∧ Fails step c e := by
  induction p generalizing P s with
  | ret a => cases hrun
  | op i k ih =>
    simp only [Prog.run] at hrun
    split at hrun
    · rename_i r u hstep
      have h1 : Step step (P, s) (update P t (k r >>= f), u) := .op hp hstep
      obtain ⟨c, hc, hf⟩ := ih r (P := update P t (k r >>= f)) (update_self _ _ _) hrun
      exact ⟨c, .head h1 hc, hf⟩
    · rename_i e' hstep
      cases hrun
      exact ⟨(P, s), .refl, t, i, _, hp, hstep⟩

end Pool

/-! Protocols: what a thread may do next depends on its phase. -/

/-- The operations that each phase allows, and the phases that may follow an answer. -/
structure Protocol (ι : Type) (ρ : ι → Type) (γ : Type) where
  allowed : γ → ι → Prop
  next : γ → (i : ι) → ρ i → γ → Prop

/-- Whatever the answers, the program does what its phase allows and ends as `Q` says. -/
def Obeys (M : Protocol ι ρ γ) : Prog ι ρ α → γ → (α → γ → Prop) → Prop
  | .ret a, g, Q => Q a g
  | .op i k, g, Q => M.allowed g i ∧ ∀ r g', M.next g i r g' → Obeys M (k r) g' Q

namespace Obeys

variable {M : Protocol ι ρ γ} {p : Prog ι ρ α} {g : γ} {Q : α → γ → Prop}

lemma mono {R : α → γ → Prop} (h : Obeys M p g Q) (hq : ∀ a g, Q a g → R a g) : Obeys M p g R := by
  induction p generalizing g with
  | ret a => exact hq a g h
  | op i k ih => exact ⟨h.1, fun r g' hn => ih r (h.2 r g' hn)⟩

lemma bind {R : β → γ → Prop} {f : α → Prog ι ρ β}
    (h : Obeys M p g fun a g' => Obeys M (f a) g' R) : Obeys M (p >>= f) g R := by
  induction p generalizing g with
  | ret a => exact h
  | op i k ih => exact ⟨h.1, fun r g' hn => ih r (h.2 r g' hn)⟩

lemma forM {δ : Type} {body : δ → Prog ι ρ PUnit} (I : ℕ → γ → Prop) (xs : List δ)
    (hbody : ∀ j x g, xs[j]? = some x → I j g → Obeys M (body x) g fun _ g' => I (j + 1) g')
    (h0 : I 0 g) : Obeys M (xs.forM body) g fun _ g' => I xs.length g' := by
  induction xs generalizing g I with
  | nil => exact h0
  | cons x xs ih =>
    refine bind (p := body x) (f := fun _ => xs.forM body) ?_
    refine (hbody 0 x g rfl h0).mono fun _ g' h1 => ?_
    exact ih (fun j => I (j + 1)) (fun j y u hy hi => hbody (j + 1) y u hy hi) h1

lemma range {n : ℕ} {body : ℕ → Prog ι ρ PUnit} (I : ℕ → γ → Prop)
    (hbody : ∀ j g, j < n → I j g → Obeys M (body j) g fun _ g' => I (j + 1) g') (h0 : I 0 g) :
    Obeys M ((List.range n).forM body) g fun _ g' => I n g' := by
  have h : Obeys M ((List.range n).forM body) g fun _ g' => I (List.range n).length g' := by
    refine forM I _ (fun j x g' hx hi => ?_) h0
    obtain ⟨hj, rfl⟩ : j < n ∧ j = x := by simpa using List.getElem?_eq_some_iff.mp hx
    exact hbody j g' hj hi
  rwa [List.length_range] at h

end Obeys

/-! Invariants of the phases of all threads and the state. -/

section Invariant

variable [DecidableEq τ] {step : (i : ι) → σ → Except ε (ρ i × σ)} {M : Protocol ι ρ γ}
  {G : (τ → γ) → σ → Prop} {Q : α → γ → Prop} {c c' : Pool τ ι ρ α × σ}

/-- Every thread obeys the protocol from its phase on, and the phases satisfy `G`. -/
def Keeps (M : Protocol ι ρ γ) (G : (τ → γ) → σ → Prop) (Q : α → γ → Prop)
    (c : Pool τ ι ρ α × σ) : Prop :=
  ∃ gs : τ → γ, (∀ t, Obeys M (c.1 t) (gs t) Q) ∧ G gs c.2

/-- One thread performs an operation, in a configuration that is known. -/
lemma Keeps.next_of (hG : ∀ gs t i r s', (∀ u, Obeys M (c.1 u) (gs u) Q) → G gs c.2 → M.allowed (gs t) i →
      step i c.2 = .ok (r, s') → ∃ g, M.next (gs t) i r g ∧ G (update gs t g) s')
    (h : Keeps M G Q c) (hs : Pool.Step step c c') : Keeps M G Q c' := by
  obtain ⟨gs, hobeys, hg⟩ := h
  cases hs with
  | @op P s s' t i k r hp hstep =>
    have ht := hobeys t
    simp only [hp] at ht
    obtain ⟨g, hnext, hg'⟩ := hG gs t i r s' hobeys hg ht.1 hstep
    refine ⟨update gs t g, ?_, hg'⟩
    intro u
    by_cases hu : u = t
    · subst hu
      simp only [update_self]
      exact ht.2 r g hnext
    · simp only [update_of_ne hu]
      exact hobeys u

section

variable (hG : ∀ gs s t i r s', G gs s → M.allowed (gs t) i → step i s = .ok (r, s') → ∃ g, M.next (gs t) i r g ∧ G (update gs t g) s')
include hG

lemma Keeps.next (h : Keeps M G Q c) (hs : Pool.Step step c c') : Keeps M G Q c' :=
  h.next_of (fun gs t i r s' _ => hG gs c.2 t i r s') hs

lemma Keeps.reach (h : Keeps M G Q c) (hs : Pool.Reach step c c') : Keeps M G Q c' := by
  induction hs with
  | refl => exact h
  | tail _ hstep ih => exact ih.next hG hstep

end

omit [DecidableEq τ] in
/-- No thread stops with an error that no allowed operation gives. -/
lemma Keeps.not_fails (bad : ε → Prop)
    (hbad : ∀ gs s t i e, G gs s → M.allowed (gs t) i → step i s = .error e → ¬ bad e)
    (h : Keeps M G Q c) {e : ε} (he : bad e) : ¬ Pool.Fails step c e := by
  rintro ⟨t, i, k, hp, hstep⟩
  obtain ⟨gs, hobeys, hg⟩ := h
  have ht := hobeys t
  rw [hp] at ht
  exact hbad gs c.2 t i e hg ht.1 hstep he

end Invariant

/-! Sums over the phases of all threads. -/

section Sum

variable [Fintype τ] [DecidableEq τ] {gs : τ → γ} {t : τ} {g : γ} {f : γ → ℕ}

lemma sum_update : ∑ u, f (update gs t g u) + f (gs t) = ∑ u, f (gs u) + f g := by
  have h1 := add_sum_erase univ (fun u => f (gs u)) (mem_univ t)
  have h2 := add_sum_erase univ (fun u => f (update gs t g u))
    (mem_univ t)
  have h3 : ∑ u ∈ univ.erase t, f (update gs t g u) =
      ∑ u ∈ univ.erase t, f (gs u) := by
    refine sum_congr rfl fun u hu => ?_
    rw [update_of_ne (ne_of_mem_erase hu)]
  simp only [update_self] at h2
  omega

lemma sum_update_eq (h : f g = f (gs t)) : ∑ u, f (update gs t g u) = ∑ u, f (gs u) := by
  have : ∑ u, f (update gs t g u) + f (gs t) = ∑ u, f (gs u) + f g := sum_update
  omega

end Sum

/-! How many threads are at one thing. -/

section Tally

variable {κ : Type} [DecidableEq κ] [Fintype τ] {f f' : γ → Option κ} {p : τ → γ} {t : τ} {g : γ}
  {i : κ}

/-- The number of threads whose phase is about `i`. -/
def tally (f : γ → Option κ) (p : τ → γ) (i : κ) : ℕ := ∑ t, if f (p t) = some i then 1 else 0

lemma tally_update [DecidableEq τ] : tally f (update p t g) i +
    (if f (p t) = some i then 1 else 0) = tally f p i + (if f g = some i then 1 else 0) :=
  sum_update (f := fun g => if f g = some i then 1 else 0)

lemma tally_update_eq [DecidableEq τ] (h : f g = f (p t)) : tally f (update p t g) i = tally f p i :=
  sum_update_eq (f := fun g => if f g = some i then 1 else 0) (by rw [h])

lemma tally_pos (h : f (p t) = some i) : 0 < tally f p i := by
  refine sum_pos' (fun _ _ => Nat.zero_le _) ⟨t, mem_univ t, ?_⟩
  rw [if_pos h]
  exact Nat.one_pos

lemma tally_eq_zero (h : ∀ t, f (p t) ≠ some i) : tally f p i = 0 :=
  sum_eq_zero fun t _ => if_neg (h t)

lemma tally_le (h : ∀ g, f g = some i → f' g = some i) : tally f p i ≤ tally f' p i := by
  refine sum_le_sum fun t _ => ?_
  by_cases hf : f (p t) = some i
  · rw [if_pos hf, if_pos (h _ hf)]
  · rw [if_neg hf]
    exact Nat.zero_le _

lemma tally_lt (h : ∀ g, f g = some i → f' g = some i) (ht : f (p t) ≠ some i)
    (ht' : f' (p t) = some i) : tally f p i < tally f' p i := by
  refine sum_lt_sum (fun u _ => ?_) ⟨t, mem_univ t, ?_⟩
  · by_cases hf : f (p u) = some i
    · rw [if_pos hf, if_pos (h _ hf)]
    · rw [if_neg hf]
      exact Nat.zero_le _
  · rw [if_neg ht, if_pos ht']
    exact Nat.one_pos

end Tally

end Store
