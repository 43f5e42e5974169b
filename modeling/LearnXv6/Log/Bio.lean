import LearnXv6.Fs.Layout

/-! `bio.c`: the buffer cache, a list of `NBUF` buffers with the most recently used first. -/
namespace LearnXv6.Log
open Fs List

def MAXOPBLOCKS : ℕ := 10
def LOGSIZE : ℕ := MAXOPBLOCKS * 3
def NBUF : ℕ := MAXOPBLOCKS * 3

/-- `struct buf`. A buffer that was never used has no block. -/
structure Buf where
  blockno : Option ℕ
  valid : Bool
  dirty : Bool
  locked : Bool
  refcnt : ℕ
  data : Block

/-- The condition under which `bget` recycles a buffer. -/
def Buf.unused (x : Buf) : Prop := x.refcnt = 0 ∧ x.dirty = false

instance (x : Buf) : Decidable x.unused := inferInstanceAs (Decidable (_ ∧ _))

def Buf.reuse (x : Buf) (b : ℕ) : Buf :=
  { x with blockno := some b, valid := false, dirty := false, refcnt := 1 }

def Buf.ref (x : Buf) : Buf := { x with refcnt := x.refcnt + 1 }
def Buf.unref (x : Buf) : Buf := { x with refcnt := x.refcnt - 1 }
def Buf.unlock (x : Buf) : Buf := { x with locked := false }
def Buf.setData (v : Block) (x : Buf) : Buf := { x with data := v }

/-- The buffer locked and read. -/
def Buf.fill (v : Block) (x : Buf) : Buf := { x with locked := true, valid := true, data := v }

/-- The buffer after `iderw` has written it. -/
def Buf.written (x : Buf) : Buf := { x with valid := true, dirty := false }

/-- The buffer after `log_write`: `B_DIRTY` prevents eviction. -/
def Buf.pin (x : Buf) : Buf := { x with dirty := true }

def binit : List Buf := replicate NBUF ⟨none, false, false, false, 0, 0⟩

def entry (c : List Buf) (b : ℕ) : Option Buf := c.find? fun x => x.blockno = some b

/-- A change to the buffer of block `b`. -/
def modify (c : List Buf) (b : ℕ) (f : Buf → Buf) : List Buf :=
  c.map fun x => if x.blockno = some b then f x else x

/-- The second loop of `bget`, from the least recently used end. -/
def recycle (b : ℕ) : List Buf → Option (List Buf)
  | [] => none
  | x :: c =>
    match recycle b c with
    | some c => some (x :: c)
    | none => if x.unused then some (x.reuse b :: c) else none

/-- The cache after `bget`; none when it panics. -/
def bget (c : List Buf) (b : ℕ) : Option (List Buf) :=
  if (entry c b).isSome then some (modify c b Buf.ref)
  else recycle b c

/-- Drop one reference, and move the buffer to the front with the last one. -/
def release (c : List Buf) (b : ℕ) : List Buf :=
  let c := modify c b Buf.unref
  match entry c b with
  | some x => if x.refcnt = 0 then x :: c.eraseP (fun y => y.blockno = some b) else c
  | none => c

/-! Lookup. -/

variable {c c' : List Buf} {b b' : ℕ} {x : Buf} {f : Buf → Buf}

/-- No block has two buffers. -/
def Distinct (c : List Buf) : Prop :=
  c.Pairwise fun x y => x.blockno = none ∨ x.blockno ≠ y.blockno

lemma entry_blockno (h : entry c b = some x) : x.blockno = some b := by
  simpa using find?_some h

lemma entry_mem (h : entry c b = some x) : x ∈ c := mem_of_find?_eq_some h

lemma entry_of_mem (hd : Distinct c) (hx : x ∈ c) (hb : x.blockno = some b) : entry c b = some x := by
  induction c with
  | nil => cases hx
  | cons y c ih =>
    obtain ⟨hy, hd⟩ := pairwise_cons.mp hd
    rcases mem_cons.mp hx with rfl | hx
    · simp [entry, hb]
    · have hne : y.blockno ≠ some b := by
        rcases hy x hx with hn | hn
        · simp [hn]
        · rwa [hb] at hn
      have := ih hd hx
      simpa [entry, hne] using this

section

variable (hf : ∀ x, (f x).blockno = x.blockno)
include hf

lemma entry_modify :
    entry (modify c b f) b' = if b' = b then (entry c b').map f else entry c b' := by
  induction c with
  | nil => simp [entry, modify]
  | cons y c ih =>
    have hcons : modify (y :: c) b f = (if y.blockno = some b then f y else y) :: modify c b f := rfl
    have hnum : (if y.blockno = some b then f y else y).blockno = y.blockno := by
      split
      · exact hf y
      · rfl
    rw [hcons]
    by_cases hy : y.blockno = some b'
    · by_cases hb : b' = b
      · subst hb
        simp [entry, hy, hf]
      · simp [entry, hy, hb]
    · have h1 : entry ((if y.blockno = some b then f y else y) :: modify c b f) b' =
          entry (modify c b f) b' := by
        simp [entry, hnum, hy]
      have h2 : entry (y :: c) b' = entry c b' := by simp [entry, hy]
      rw [h1, h2, ih]

lemma entry_modify_isSome : (entry (modify c b f) b').isSome = (entry c b').isSome := by
  rw [entry_modify hf]
  split
  · rw [Option.isSome_map]
  · rfl

lemma distinct_modify (hd : Distinct c) : Distinct (modify c b f) := by
  have hnum : ∀ y : Buf, (if y.blockno = some b then f y else y).blockno = y.blockno := by
    intro y
    split
    · exact hf y
    · rfl
  refine pairwise_map.mpr (hd.imp ?_)
  intro y z h
  rwa [hnum, hnum]

end

lemma mem_modify {y : Buf} (h : y ∈ modify c b f) :
    ∃ x ∈ c, y = if x.blockno = some b then f x else x := by
  obtain ⟨x, hx, he⟩ := mem_map.mp h
  exact ⟨x, hx, he.symm⟩

lemma modify_modify {g : Buf → Buf} (hf : ∀ x, (f x).blockno = x.blockno) :
    modify (modify c b f) b g = modify c b fun x => g (f x) := by
  simp only [modify, map_map]
  refine map_congr_left fun x _ => ?_
  by_cases hx : x.blockno = some b
  · simp [hx, hf]
  · simp [hx]

@[simp] lemma length_modify : (modify c b f).length = c.length := length_map _

/-! Recycling. -/

/-- The cache after one unused buffer `x` was given to block `b`. -/
structure Recycled (c : List Buf) (b : ℕ) (x : Buf) (c' : List Buf) : Prop where
  mem : x ∈ c
  mem_of : ∀ y ∈ c', y = x.reuse b ∨ y ∈ c
  unused : x.unused
  length_eq : c'.length = c.length
  distinct : Distinct c'
  self : entry c' b = some (x.reuse b)
  other : ∀ b', b' ≠ b → entry c' b' = if x.blockno = some b' then none else entry c b'

lemma recycle_eq_none : recycle b c = none ↔ ∀ x ∈ c, ¬ x.unused := by
  induction c with
  | nil => simp [recycle]
  | cons y c ih =>
    rw [recycle]
    cases hr : recycle b c with
    | some c' =>
      simp only [reduceCtorEq, false_iff]
      intro h
      rw [ih.mpr fun x hx => h x (mem_cons_of_mem _ hx)] at hr
      cases hr
    | none =>
      have hc := ih.mp hr
      by_cases hy : y.unused
      · simp [hy]
      · simp only [hy, if_false, true_iff, mem_cons, forall_eq_or_imp, not_false_eq_true, true_and]
        exact hc

lemma recycle_split (h : recycle b c = some c') : ∃ l x r, c = l ++ x :: r ∧ x.unused ∧
    c' = l ++ x.reuse b :: r := by
  induction c generalizing c' with
  | nil => cases h
  | cons y c ih =>
    rw [recycle] at h
    cases hr : recycle b c with
    | some c'' =>
      simp only [hr, Option.some.injEq] at h
      subst h
      obtain ⟨l, x, r, rfl, hx, rfl⟩ := ih hr
      exact ⟨y :: l, x, r, rfl, hx, rfl⟩
    | none =>
      simp only [hr] at h
      obtain ⟨hy, h⟩ := Option.ite_none_right_eq_some.mp h
      cases h
      exact ⟨[], y, c, rfl, hy, rfl⟩

lemma entry_eq_none : entry c b = none ↔ ∀ x ∈ c, x.blockno ≠ some b := by
  simp [entry]

lemma entry_append (l r : List Buf) (b : ℕ) : entry (l ++ r) b = (entry l b).or (entry r b) :=
  find?_append

lemma entry_cons (x : Buf) (c : List Buf) (b : ℕ) :
    entry (x :: c) b = if x.blockno = some b then some x else entry c b := by
  by_cases h : x.blockno = some b
  · simp [entry, h]
  · simp [entry, h]

lemma recycle_spec (hd : Distinct c) (hn : entry c b = none) (h : recycle b c = some c') :
    ∃ x, Recycled c b x c' := by
  obtain ⟨l, x, r, rfl, hx, rfl⟩ := recycle_split h
  have hno := entry_eq_none.mp hn
  obtain ⟨hl, hr, hlr⟩ := pairwise_append.mp hd
  obtain ⟨hxr, hr⟩ := pairwise_cons.mp hr
  have hnl : entry l b = none := entry_eq_none.mpr fun y hy => hno y (by simp [hy])
  refine ⟨x, by simp, ?_, hx, by simp, ?_, ?_, ?_⟩
  · intro y hy
    simp only [mem_append, mem_cons] at hy ⊢
    rcases hy with hy | rfl | hy
    · exact .inr (.inl hy)
    · exact .inl rfl
    · exact .inr (.inr (.inr hy))
  · refine pairwise_append.mpr ⟨hl, pairwise_cons.mpr ⟨?_, hr⟩, ?_⟩
    · intro y hy
      exact .inr fun he => hno y (by simp [hy]) he.symm
    · intro y hy z hz
      rcases mem_cons.mp hz with rfl | hz
      · exact .inr (hno y (by simp [hy]))
      · exact hlr y hy z (mem_cons_of_mem _ hz)
  · rw [entry_append, hnl, entry_cons]
    simp [Buf.reuse]
  · intro b' hb'
    have hne : (x.reuse b).blockno ≠ some b' := by
      simpa [Buf.reuse] using hb'.symm
    rw [entry_append, entry_append, entry_cons, entry_cons, if_neg hne]
    split
    · rename_i hxb
      -- the block that `x` held had no other buffer
      have h1 : entry l b' = none := by
        refine entry_eq_none.mpr fun y hy he => ?_
        rcases hlr y hy x mem_cons_self with h | h
        · rw [h] at he
          cases he
        · exact h (he.trans hxb.symm)
      have h2 : entry r b' = none := by
        refine entry_eq_none.mpr fun y hy he => ?_
        rcases hxr y hy with h | h
        · rw [h] at hxb
          cases hxb
        · exact h (hxb.trans he.symm)
      rw [h1, h2]
      rfl
    · rfl

lemma exists_unused (hd : Distinct c) {S : Finset ℕ}
    (hS : ∀ x ∈ c, ¬ x.unused → ∃ b ∈ S, x.blockno = some b) (hlt : S.card < c.length) :
    ∃ x ∈ c, x.unused := by
  by_contra hno
  push Not at hno
  have hall : ∀ x ∈ c, ∃ b ∈ S, x.blockno = some b := fun x hx => hS x hx (hno x hx)
  have hnodup : (c.map Buf.blockno).Nodup := by
    refine pairwise_map.mpr (hd.imp_of_mem ?_)
    intro x y hx _ h
    obtain ⟨b, -, hb⟩ := hall x hx
    rcases h with h | h
    · rw [h] at hb
      cases hb
    · exact h
  have hsub : (c.map Buf.blockno).toFinset ⊆ S.image some := by
    intro o ho
    obtain ⟨x, hx, rfl⟩ := mem_map.mp (mem_toFinset.mp ho)
    obtain ⟨b, hb, he⟩ := hall x hx
    exact Finset.mem_image.mpr ⟨b, hb, he.symm⟩
  have hcard := Finset.card_le_card hsub
  rw [toFinset_card_of_nodup hnodup, length_map] at hcard
  have := Finset.card_image_le (s := S) (f := some)
  omega

/-! `bget` -/

lemma bget_hit (h : entry c b = some x) : bget c b = some (modify c b Buf.ref) := by
  rw [bget, h]
  rfl

lemma bget_miss (h : entry c b = none) : bget c b = recycle b c := by
  rw [bget, h]
  rfl

lemma bget_eq_none : bget c b = none ↔ entry c b = none ∧ ∀ x ∈ c, ¬ x.unused := by
  cases he : entry c b with
  | some x => simp [bget_hit he]
  | none => simp [bget_miss he, recycle_eq_none]

/-! `release` -/

lemma entry_eraseP (hb : b' ≠ b) : entry (c.eraseP fun y => y.blockno = some b) b' = entry c b' := by
  induction c with
  | nil => rfl
  | cons y c ih =>
    by_cases hy : y.blockno = some b
    · have hne : y.blockno ≠ some b' := by
        rw [hy]
        simpa using hb.symm
      rw [entry_cons, if_neg hne, eraseP_cons_of_pos (by simpa using hy)]
    · rw [eraseP_cons_of_neg (by simpa using hy), entry_cons, entry_cons, ih]

lemma entry_release : entry (release c b) b' =
    if b' = b then (entry c b).map Buf.unref else entry c b' := by
  have hm : ∀ a, entry (modify c b Buf.unref) a =
      if a = b then (entry c a).map Buf.unref else entry c a := fun a => entry_modify fun _ => rfl
  unfold release
  simp only
  split
  · rename_i y hy
    split
    · rw [entry_cons, entry_blockno hy]
      by_cases hb : b' = b
      · subst hb
        rw [if_pos rfl, if_pos rfl, ← hy, hm, if_pos rfl]
      · rw [if_neg (by simpa using Ne.symm hb), entry_eraseP hb, hm, if_neg hb, if_neg hb]
    · rw [hm]
      split
      · rename_i hb
        rw [hb]
      · rfl
  · rw [hm]
    split
    · rename_i hb
      rw [hb]
    · rfl

lemma entry_release_isSome : (entry (release c b) b').isSome = (entry c b').isSome := by
  rw [entry_release]
  split
  · rename_i hb
    rw [Option.isSome_map, hb]
  · rfl

lemma mem_release (hx : x ∈ release c b) : x ∈ modify c b Buf.unref := by
  unfold release at hx
  simp only at hx
  split at hx
  · rename_i y hy
    split at hx
    · rcases mem_cons.mp hx with rfl | hx
      · exact entry_mem hy
      · exact mem_of_mem_eraseP hx
    · exact hx
  · exact hx

lemma mem_eraseP_blockno (hd : Distinct c) (hx : x ∈ c.eraseP fun y => y.blockno = some b) :
    x.blockno ≠ some b := by
  induction c with
  | nil => cases hx
  | cons y c ih =>
    obtain ⟨hy, hd⟩ := pairwise_cons.mp hd
    by_cases hyb : y.blockno = some b
    · rw [eraseP_cons_of_pos (by simpa using hyb)] at hx
      rcases hy x hx with h | h
      · rw [hyb] at h
        cases h
      · exact fun he => h (hyb.trans he.symm)
    · rw [eraseP_cons_of_neg (by simpa using hyb)] at hx
      rcases mem_cons.mp hx with rfl | hx
      · exact hyb
      · exact ih hd hx

lemma distinct_release (hd : Distinct c) : Distinct (release c b) := by
  have hm : Distinct (modify c b Buf.unref) := distinct_modify (fun _ => rfl) hd
  unfold release
  simp only
  split
  · rename_i y hy
    split
    · refine pairwise_cons.mpr ⟨?_, hm.sublist eraseP_sublist⟩
      intro z hz
      right
      rw [entry_blockno hy]
      exact (mem_eraseP_blockno hm hz).symm
    · exact hm
  · exact hm

lemma length_release : (release c b).length = c.length := by
  unfold release
  simp only
  split
  · rename_i y hy
    split
    · have hmem := entry_mem hy
      have hpos := length_pos_of_mem hmem
      rw [length_cons, length_eraseP_of_mem hmem (by simpa using entry_blockno hy)]
      rw [length_modify] at hpos ⊢
      omega
    · exact length_modify
  · exact length_modify

end LearnXv6.Log
