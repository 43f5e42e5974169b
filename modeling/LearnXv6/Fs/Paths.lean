import LearnXv6.Fs.Layout

/-! The slot of `addrs` and the index entries that lead to each file block. -/
namespace LearnXv6.Fs

/-- Two-level layout: entries from `nd` on of the index block lead to further index blocks. -/
def doublePath (nd bn : ℕ) : ℕ × List ℕ :=
  if bn < 12 then (bn, [])
  else if bn - 12 < nd then (12, [bn - 12])
  else (12, [nd + (bn - 12 - nd) / NINDIRECT, (bn - 12 - nd) % NINDIRECT])

/-- Three-level layout, with `ib` index entries and `nd` data entries in the upper blocks. -/
def triplePath (ib nd bn : ℕ) : ℕ × List ℕ :=
  if bn < 12 then (bn, [])
  else if bn - 12 < nd then (12, [bn - 12])
  else
    let index := (bn - 12 - nd) / (NINDIRECT * ib + nd)
    let offset := (bn - 12 - nd) % (NINDIRECT * ib + nd)
    if offset < nd then (12, [nd + index, offset])
    else (12, [nd + index, nd + (offset - nd) / NINDIRECT, offset % NINDIRECT])

section Codes

variable {ib nd a b bn : ℕ}

lemma doublePath_cases (nd bn : ℕ) : (bn < 12 ∧ doublePath nd bn = (bn, [])) ∨
    (12 ≤ bn ∧ bn < 12 + nd ∧ doublePath nd bn = (12, [bn - 12])) ∨
    ∃ i o, bn = 12 + nd + 128 * i + o ∧ o < 128 ∧ doublePath nd bn = (12, [nd + i, o]) := by
  unfold doublePath
  rw [NINDIRECT_eq]
  split
  · exact .inl ⟨by omega, rfl⟩
  split
  · exact .inr (.inl ⟨by omega, by omega, rfl⟩)
  · exact .inr (.inr ⟨_, _, by omega, Nat.mod_lt _ (by omega), rfl⟩)

lemma doublePath_prefix_free (hs : (doublePath nd a).1 = (doublePath nd b).1)
    (hp : (doublePath nd a).2 <+: (doublePath nd b).2) : a = b := by
  obtain ⟨ha, ea⟩ | ⟨ha, ha', ea⟩ | ⟨i, o, ha, ho, ea⟩ := doublePath_cases nd a <;>
  obtain ⟨hb, eb⟩ | ⟨hb, hb', eb⟩ | ⟨j, p, hb, hq, eb⟩ := doublePath_cases nd b <;>
  simp only [ea, eb] at hs hp <;> simp [List.cons_prefix_cons] at hp <;> omega

lemma triplePath_cases (ib nd bn : ℕ) (hw : 0 < 128 * ib + nd) :
    (bn < 12 ∧ triplePath ib nd bn = (bn, [])) ∨
    (12 ≤ bn ∧ bn < 12 + nd ∧ triplePath ib nd bn = (12, [bn - 12])) ∨
    (∃ i o, bn = 12 + nd + (128 * ib + nd) * i + o ∧ o < nd ∧ triplePath ib nd bn = (12, [nd + i, o])) ∨
    ∃ i o, bn = 12 + nd + (128 * ib + nd) * i + o ∧ nd ≤ o ∧ o < 128 * ib + nd ∧
      triplePath ib nd bn = (12, [nd + i, nd + (o - nd) / 128, o % 128]) := by
  unfold triplePath
  rw [NINDIRECT_eq]
  have hm := Nat.div_add_mod (bn - 12 - nd) (128 * ib + nd)
  split
  · exact .inl ⟨by omega, rfl⟩
  split
  · exact .inr (.inl ⟨by omega, by omega, rfl⟩)
  dsimp only
  split
  · exact .inr (.inr (.inl ⟨_, _, by omega, by assumption, rfl⟩))
  · exact .inr (.inr (.inr ⟨_, _, by omega, by omega, Nat.mod_lt _ hw, rfl⟩))

/-- Data entries end below `nd` and index entries start there, so no path extends another. -/
lemma triplePath_prefix_free (hw : 0 < 128 * ib + nd) (hs : (triplePath ib nd a).1 = (triplePath ib nd b).1)
    (hp : (triplePath ib nd a).2 <+: (triplePath ib nd b).2) : a = b := by
  obtain ⟨ha, ea⟩ | ⟨ha, ha', ea⟩ | ⟨i, o, ha, ho, ea⟩ | ⟨i, o, ha, ho, ho', ea⟩ :=
    triplePath_cases ib nd a hw <;>
  obtain ⟨hb, eb⟩ | ⟨hb, hb', eb⟩ | ⟨j, p, hb, hq, eb⟩ | ⟨j, p, hb, hq, hq', eb⟩ :=
    triplePath_cases ib nd b hw <;>
  simp only [ea, eb] at hs hp <;> simp [List.cons_prefix_cons] at hp <;> try omega
  · obtain ⟨rfl, rfl⟩ := hp
    omega
  · obtain ⟨rfl, h1, h2⟩ := hp
    omega

end Codes

namespace Lab

/-- Where `bmap` of each tree keeps the address of block `bn`. -/
def path : Lab → ℕ → ℕ × List ℕ
  | stock, bn => if bn < 12 then (bn, []) else (12, [bn - 12])
  | isingle, bn =>
    if bn < 10 then (bn, []) else (10 + (bn - 10) / NINDIRECT, [(bn - 10) % NINDIRECT])
  | idouble, bn => doublePath idouble.NDIRECTIB bn
  | itriple, bn => triplePath itriple.NINDIRECTIB itriple.NDIRECTIB bn
  | reverse, bn => doublePath 0 bn

variable {L : Lab}

lemma path_of_lt_NDIRECT {bn : ℕ} (h : bn < L.NDIRECT) : L.path bn = (bn, []) := by
  cases L <;> simp only [NDIRECT] at h <;> simp [path, doublePath, triplePath, h]

lemma path_of_lt_NDIRECTIB {bn : ℕ} (hL : L ≠ reverse) (h : L.NDIRECT ≤ bn)
    (h' : bn < L.NDIRECT + L.NDIRECTIB) : L.path bn = (L.NDIRECT, [bn - L.NDIRECT]) := by
  cases L with
  | stock =>
    have h : 12 ≤ bn := h
    exact if_neg (by omega)
  | isingle =>
    have h : 10 ≤ bn := h
    have h' : bn < 138 := h'
    simp only [path, NINDIRECT_eq, NDIRECT]
    rw [if_neg (by omega), Nat.div_eq_of_lt (by omega), Nat.mod_eq_of_lt (by omega)]
  | idouble =>
    have h : 12 ≤ bn := h
    have h' : bn < 12 + idouble.NDIRECTIB := h'
    simp only [path, doublePath, NDIRECT]
    rw [if_neg (by omega), if_pos (by omega)]
  | itriple =>
    have h : 12 ≤ bn := h
    have h' : bn < 12 + itriple.NDIRECTIB := h'
    simp only [path, triplePath, NDIRECT]
    rw [if_neg (by omega), if_pos (by omega)]
  | reverse => exact absurd rfl hL

lemma path_length_le (L : Lab) (bn : ℕ) : (L.path bn).2.length ≤ 3 := by
  cases L <;> simp only [path, doublePath, triplePath] <;> split_ifs <;> simp

lemma path_slot_lt {bn : ℕ} (h : bn < L.MAXFILE) : (L.path bn).1 < NADDRS := by
  rw [NADDRS_eq]
  cases L with
  | stock => simp only [path]; split_ifs <;> omega
  | isingle =>
    simp only [MAXFILE, NDIRECT, MAXINDIRECT, NINDIRECT_eq] at h
    simp only [path, NINDIRECT_eq]
    split_ifs <;> omega
  | idouble => simp only [path, doublePath]; split_ifs <;> omega
  | itriple =>
    obtain ⟨_, e⟩ | ⟨_, _, e⟩ | ⟨_, _, _, _, e⟩ | ⟨_, _, _, _, _, e⟩ :=
      triplePath_cases itriple.NINDIRECTIB itriple.NDIRECTIB bn (by decide) <;>
      simp only [path, e] <;> omega
  | reverse => simp only [path, doublePath]; split_ifs <;> omega

lemma path_index_lt {bn k : ℕ} (h : bn < L.MAXFILE) (hk : k ∈ (L.path bn).2) : k < NINDIRECT := by
  have h2 : idouble.NDIRECTIB = 124 := rfl
  have h3 : itriple.NDIRECTIB = 126 := rfl
  have h3' : itriple.NINDIRECTIB = 2 := rfl
  rw [NINDIRECT_eq]
  cases L with
  | stock =>
    simp only [path, MAXFILE, NDIRECT, NINDIRECT_eq] at h hk
    split at hk <;> simp at hk
    omega
  | isingle =>
    simp only [path, NINDIRECT_eq] at hk
    split at hk <;> simp at hk
    omega
  | idouble =>
    have h : bn < 648 := h
    obtain ⟨_, e⟩ | ⟨_, _, e⟩ | ⟨i, o, _, _, e⟩ := doublePath_cases idouble.NDIRECTIB bn <;>
      simp only [path, e] at hk <;> simp at hk <;> omega
  | itriple =>
    have h : bn < 902 := h
    obtain ⟨_, e⟩ | ⟨_, _, e⟩ | ⟨i, o, he, _, e⟩ | ⟨i, o, he, _, _, e⟩ :=
      triplePath_cases itriple.NINDIRECTIB itriple.NDIRECTIB bn (by decide) <;>
      simp only [path, e] at hk <;> simp at hk <;> rw [h3, h3'] at * <;> omega
  | reverse =>
    have h : bn < 16396 := h
    obtain ⟨_, e⟩ | ⟨_, _, e⟩ | ⟨i, o, _, _, e⟩ := doublePath_cases 0 bn <;>
      simp only [path, e] at hk <;> simp at hk <;> omega

lemma path_prefix_free {a b : ℕ} (hs : (L.path a).1 = (L.path b).1)
    (hp : (L.path a).2 <+: (L.path b).2) : a = b := by
  cases L with
  | stock =>
    simp only [path] at hs hp
    split at hs <;> split at hs <;> simp_all [List.cons_prefix_cons]
    omega
  | isingle =>
    simp only [path, NINDIRECT_eq] at hs hp
    split at hs <;> split at hs <;> simp_all [List.cons_prefix_cons]
    omega
  | idouble => exact doublePath_prefix_free hs hp
  | itriple => exact triplePath_prefix_free (by decide) hs hp
  | reverse => exact doublePath_prefix_free hs hp

/-- The block map of each tree as a prefix-free code. -/
def code (L : Lab) : Store.PathCode where
  count := L.MAXFILE
  slots := NADDRS
  width := NINDIRECT
  path := L.path
  slot_lt := fun _ h => path_slot_lt h
  index_lt := fun _ h _ hk => path_index_lt h hk
  prefix_free := fun _ _ _ _ hs hp => path_prefix_free hs hp

lemma path_mem {bn : ℕ} (h : bn < L.MAXFILE) : L.path bn ∈ L.code.nodes :=
  Store.PathCode.path_mem_nodes (C := L.code) h

lemma path_snoc_not_mem {bn j : ℕ} (h : bn < L.MAXFILE) :
    ((L.path bn).1, (L.path bn).2 ++ [j]) ∉ L.code.nodes :=
  Store.PathCode.path_snoc_not_mem (C := L.code) h

lemma nodes_prefixClosed (L : Lab) : Store.PrefixClosed L.code.nodes :=
  Store.PathCode.nodes_prefixClosed

lemma nodes_slot_lt {k : ℕ} {ks : List ℕ} (h : (k, ks) ∈ L.code.nodes) : k < NADDRS :=
  Store.PathCode.nodes_slot_lt (C := L.code) h

lemma nodes_index_lt {k j : ℕ} {ks : List ℕ} (h : (k, ks) ∈ L.code.nodes) (hj : j ∈ ks) : j < NINDIRECT :=
  Store.PathCode.nodes_index_lt (C := L.code) h hj

/-- A block in the tree of slot `k`. -/
def underSlot (L : Lab) (k : ℕ) : ℕ :=
  if k < L.NDIRECT then k else L.NDIRECT + (k - L.NDIRECT) * NINDIRECT

lemma slot_mem_of_lt {k : ℕ} (h : k < NADDRS) : (k, []) ∈ L.code.nodes := by
  have hall : ∀ k < 13, underSlot L k < L.MAXFILE ∧ (L.path (underSlot L k)).1 = k := by
    cases L <;> decide
  obtain ⟨h1, h2⟩ := hall k h
  exact ⟨underSlot L k, h1, h2.symm, List.nil_prefix⟩

lemma slot_mem {k : ℕ} (h : k ≤ L.NDIRECT) : (k, []) ∈ L.code.nodes :=
  slot_mem_of_lt (h.trans_lt (NDIRECT_lt L))

/-- A block whose path starts with entry `j` of the index block. -/
def underEntry (L : Lab) (j : ℕ) : ℕ :=
  match L with
  | .stock => 12 + j
  | .isingle => 10 + j
  | .idouble => if j < 124 then 12 + j else 12 + 124 + 128 * (j - 124)
  | .itriple => if j < 126 then 12 + j else 12 + 126 + 382 * (j - 126)
  | .reverse => 12 + 128 * j

lemma entry_mem {j : ℕ} (h : j < NINDIRECT) : (L.NDIRECT, [j]) ∈ L.code.nodes := by
  rw [NINDIRECT_eq] at h
  have hall : ∀ j < 128, underEntry L j < L.MAXFILE ∧ (L.path (underEntry L j)).1 = L.NDIRECT ∧
      (L.path (underEntry L j)).2.head? = some j := by
    cases L <;> decide
  obtain ⟨h1, h2, h3⟩ := hall j h
  refine ⟨underEntry L j, h1, h2.symm, ?_⟩
  obtain ⟨l, hl⟩ : ∃ l, (L.path (underEntry L j)).2 = j :: l := by
    cases hp : (L.path (underEntry L j)).2 with
    | nil => simp [hp] at h3
    | cons i l =>
      simp only [hp, List.head?_cons, Option.some.injEq] at h3
      exact ⟨l, by rw [h3]⟩
  simp only [code, hl]
  exact List.prefix_append [j] l

end Lab
end LearnXv6.Fs
