import Mathlib.Tactic

/-! Histories of a memory: what is stored and what is loaded. -/
namespace Store

variable {κ ν : Type}

inductive Access (κ ν : Type) where
  | store (k : κ) (v : ν)
  | load (k : κ) (v : ν)

variable [DecidableEq κ] {m : κ → ν} {l : List (Access κ ν)} {k : κ} {v : ν}

/-- The memory after the accesses. -/
def contents (m : κ → ν) (l : List (Access κ ν)) : κ → ν :=
  l.foldl (fun m a => match a with
    | .store k v => Function.update m k v
    | .load _ _ => m) m

/-- Every load answers with what was stored last, or else with what was there at first. -/
def Legal (m : κ → ν) (l : List (Access κ ν)) : Prop :=
  ∀ l₁ k v l₂, l = l₁ ++ .load k v :: l₂ → v = contents m l₁ k

@[simp] lemma contents_nil : contents m [] = m := rfl

@[simp] lemma contents_store : contents m (.store k v :: l) = contents (Function.update m k v) l := rfl

@[simp] lemma contents_load : contents m (.load k v :: l) = contents m l := rfl

lemma contents_append {l' : List (Access κ ν)} : contents m (l ++ l') = contents (contents m l) l' :=
  List.foldl_append

namespace Legal

lemma nil : Legal m [] := by
  intro l1 k v l2 h
  simp at h

lemma store : Legal m [.store k v] := by
  intro l1 k' v' l2 h
  rcases List.append_eq_singleton_iff.mp h.symm with ⟨-, he⟩ | ⟨-, he⟩
  · cases he
  · cases he

lemma load (hv : v = m k) : Legal m [.load k v] := by
  intro l1 k' v' l2 h
  rcases List.append_eq_singleton_iff.mp h.symm with ⟨rfl, he⟩ | ⟨-, he⟩
  · cases he
    exact hv
  · cases he

lemma append {l' : List (Access κ ν)} (h : Legal m l) (h' : Legal (contents m l) l') :
    Legal m (l ++ l') := by
  intro l1 k v l2 heq
  rcases List.append_eq_append_iff.mp heq with ⟨c, rfl, hl'⟩ | ⟨c, rfl, hc⟩
  · rw [contents_append]
    exact h' c k v l2 hl'
  · cases c with
    | nil =>
      rw [List.append_nil] at h'
      exact h' [] k v l2 hc.symm
    | cons x c =>
      cases hc
      exact h l1 k v c rfl

end Legal

end Store
