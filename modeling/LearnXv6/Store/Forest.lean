import Mathlib.Data.Set.Basic
import Mathlib.Data.List.Basic
import Mathlib.Tactic

/-! Forests of pointers kept in an array of words: address zero is null, a node is a root
slot followed by a path of word indices. -/
namespace Store

/-- Follow word `k` of the block at `a`; null stays null. -/
def child (word : ℕ → ℕ → ℕ) (a k : ℕ) : ℕ := if a = 0 then 0 else word a k

/-- Follow a path of word indices from address `a`. -/
def descend (word : ℕ → ℕ → ℕ) (a : ℕ) (ks : List ℕ) : ℕ := ks.foldl (child word) a

/-- The address stored for a node, zero when the node is absent. -/
def table {ρ : Type*} (root : ρ → ℕ) (word : ℕ → ℕ → ℕ) (n : ρ × List ℕ) : ℕ :=
  descend word (root n.1) n.2

section Table

variable {ρ : Type*} {root root' : ρ → ℕ} {word word' : ℕ → ℕ → ℕ}
  {N : Set (ρ × List ℕ)} {r : ρ} {ks : List ℕ} {k f : ℕ}

@[simp] lemma child_zero (k : ℕ) : child word 0 k = 0 := by simp [child]

@[simp] lemma descend_nil (a : ℕ) : descend word a [] = a := rfl

lemma descend_cons (a k : ℕ) (ks : List ℕ) :
    descend word a (k :: ks) = descend word (child word a k) ks := rfl

lemma descend_append (a : ℕ) (ks js : List ℕ) :
    descend word a (ks ++ js) = descend word (descend word a ks) js := by
  simp [descend]

@[simp] lemma descend_zero (ks : List ℕ) : descend word 0 ks = 0 := by
  induction ks with
  | nil => rfl
  | cons k ks ih => rw [descend_cons, child_zero, ih]

@[simp] lemma table_nil : table root word (r, []) = root r := rfl

lemma table_snoc : table root word (r, ks ++ [k]) = child word (table root word (r, ks)) k := by
  simp [table, descend_append, descend_cons]

lemma table_snoc_of_ne (h : table root word (r, ks) ≠ 0) :
    table root word (r, ks ++ [k]) = word (table root word (r, ks)) k := by
  rw [table_snoc, child, if_neg h]

lemma table_prefix_ne_zero {js : List ℕ} (hp : ks <+: js)
    (h : table root word (r, js) ≠ 0) : table root word (r, ks) ≠ 0 := by
  obtain ⟨l, rfl⟩ := hp
  intro hz
  apply h
  simp only [table, descend_append] at hz ⊢
  rw [hz, descend_zero]

/-- Every ancestor of a node of the set is in the set. -/
def PrefixClosed (N : Set (ρ × List ℕ)) : Prop := ∀ r ks k, (r, ks ++ [k]) ∈ N → (r, ks) ∈ N

/-- Distinct present nodes have distinct addresses. -/
def Separate (N : Set (ρ × List ℕ)) (t : ρ × List ℕ → ℕ) : Prop :=
  ∀ m ∈ N, ∀ n ∈ N, t m = t n → t m ≠ 0 → m = n

lemma Separate.congr {t u : ρ × List ℕ → ℕ} (h : Separate N t) (he : ∀ n ∈ N, u n = t n) :
    Separate N u := by
  intro m hm n hn
  rw [he m hm, he n hn]
  exact h m hm n hn

lemma Separate.fill [DecidableEq ρ] {t u : ρ × List ℕ → ℕ} {n0 : ρ × List ℕ}
    (h : Separate N t) (hf : ∀ n ∈ N, t n ≠ f)
    (he : ∀ n ∈ N, u n = if n = n0 then f else t n) : Separate N u := by
  intro m hm n hn
  rw [he m hm, he n hn]
  by_cases hm0 : m = n0 <;> by_cases hn0 : n = n0
  · intro _ _
    rw [hm0, hn0]
  · rw [if_pos hm0, if_neg hn0]
    intro he
    exact absurd he.symm (hf n hn)
  · rw [if_neg hm0, if_pos hn0]
    intro he
    exact absurd he (hf m hm)
  · rw [if_neg hm0, if_neg hn0]
    exact h m hm n hn

/-- Words of index blocks decide the table: everything else on the disk may change. -/
lemma table_congr (hN : PrefixClosed N) (hroot : ∀ r, (r, []) ∈ N → root' r = root r)
    (hword : ∀ r ks k, (r, ks ++ [k]) ∈ N → table root word (r, ks) ≠ 0 →
      word' (table root word (r, ks)) k = word (table root word (r, ks)) k) :
    ∀ n ∈ N, table root' word' n = table root word n := by
  rintro ⟨r, ks⟩
  induction ks using List.reverseRecOn with
  | nil => intro hn; exact hroot r hn
  | append_singleton ks k ih =>
    intro hn
    rw [table_snoc, table_snoc, ih (hN _ _ _ hn)]
    unfold child
    split
    · rfl
    · exact hword r ks k hn ‹_›

/-- Storing the address of a zeroed block in one null slot changes that node and no other. -/
lemma table_fill [DecidableEq ρ] {n0 : ρ × List ℕ} (hN : PrefixClosed N)
    (hz : table root word n0 = 0)
    (hpar : ∀ r ks k, n0 = (r, ks ++ [k]) → table root word (r, ks) ≠ 0)
    (hroot : ∀ r, (r, []) ∈ N → root' r = if (r, []) = n0 then f else root r)
    (hword : ∀ r ks k, (r, ks ++ [k]) ∈ N → table root word (r, ks) ≠ 0 →
      word' (table root word (r, ks)) k =
        if (r, ks ++ [k]) = n0 then f else word (table root word (r, ks)) k)
    (hfresh : ∀ j, word' f j = 0) :
    ∀ n ∈ N, table root' word' n = if n = n0 then f else table root word n := by
  rintro ⟨r, ks⟩
  induction ks using List.reverseRecOn with
  | nil => intro hn; exact hroot r hn
  | append_singleton ks k ih =>
    intro hn
    rw [table_snoc, table_snoc, ih (hN _ _ _ hn)]
    by_cases hp : (r, ks) = n0
    · -- the new block is zero, so its children are absent before and after
      have hne : (r, ks ++ [k]) ≠ n0 := by
        intro he
        rw [← hp] at he
        simpa using congrArg (fun n => n.2.length) he
      rw [if_pos hp, if_neg hne, hp, hz, child_zero, child, hfresh]
      simp
    · rw [if_neg hp]
      by_cases ht : table root word (r, ks) = 0
      · have hne : (r, ks ++ [k]) ≠ n0 := fun he => hpar r ks k he.symm ht
        rw [if_neg hne, ht, child_zero, child_zero]
      · rw [child, child, if_neg ht, if_neg ht]
        exact hword r ks k hn ht

end Table

/-- A prefix-free assignment of root slots and index paths to the leaves `0 .. count - 1`. -/
structure PathCode where
  count : ℕ
  slots : ℕ
  width : ℕ
  path : ℕ → ℕ × List ℕ
  slot_lt : ∀ bn, bn < count → (path bn).1 < slots
  index_lt : ∀ bn, bn < count → ∀ k ∈ (path bn).2, k < width
  prefix_free : ∀ a b, a < count → b < count → (path a).1 = (path b).1 →
    (path a).2 <+: (path b).2 → a = b

namespace PathCode

variable (C : PathCode) {a b : ℕ} {k j : ℕ} {ks : List ℕ}

/-- The nodes of the code: every prefix of a leaf path. -/
def nodes : Set (ℕ × List ℕ) := {n | ∃ bn, bn < C.count ∧ n.1 = (C.path bn).1 ∧ n.2 <+: (C.path bn).2}

variable {C}

lemma path_mem_nodes (h : a < C.count) : C.path a ∈ C.nodes := ⟨a, h, rfl, List.prefix_rfl⟩

lemma nodes_prefixClosed : PrefixClosed C.nodes := by
  rintro r ks k ⟨bn, hbn, hr, hp⟩
  exact ⟨bn, hbn, hr, (List.prefix_append ks [k]).trans hp⟩

lemma mem_nodes_of_prefix {js : List ℕ} (h : (k, ks) ∈ C.nodes) (hp : js <+: ks) : (k, js) ∈ C.nodes := by
  obtain ⟨bn, hbn, hr, hk⟩ := h
  exact ⟨bn, hbn, hr, hp.trans hk⟩

lemma nodes_slot_lt (h : (k, ks) ∈ C.nodes) : k < C.slots := by
  obtain ⟨bn, hbn, hr, _⟩ := h
  have := C.slot_lt bn hbn
  simp only at hr
  omega

lemma nodes_index_lt (h : (k, ks) ∈ C.nodes) (hj : j ∈ ks) : j < C.width := by
  obtain ⟨bn, hbn, _, hp⟩ := h
  exact C.index_lt bn hbn j (hp.subset hj)

/-- A leaf has no child in the code. -/
lemma path_snoc_not_mem (h : a < C.count) : ((C.path a).1, (C.path a).2 ++ [j]) ∉ C.nodes := by
  rintro ⟨bn, hbn, hr, hp⟩
  have he := C.prefix_free a bn h hbn hr ((List.prefix_append _ _).trans hp)
  subst he
  have := hp.length_le
  simp at this

end PathCode

end Store
