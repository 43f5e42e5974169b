import LearnXv6.Links.Model

/-! A directory as the list of its entries: `.`, `..` and the others. -/
namespace LearnXv6.Links
open Store Icache List

variable {d : Dinode} {n m off : ℕ} {name : Name} {e : Dirent}

/-- The number that `..` has. -/
def parent (d : Dinode) : ℕ := (d.entries.getD 1 ⟨[], 0⟩).inum

/-- The entries after `.` and `..`. -/
def rest (d : Dinode) : List Dirent := d.entries.drop 2

/-- The number of these that name `m`. -/
def naming (d : Dinode) (m : ℕ) : ℕ := (rest d).countP fun e => e.inum = m

/-- The directory `n` has `.` and `..` first and no other entries of these names. -/
structure Dir (n : ℕ) (d : Dinode) : Prop where
  entries : d.entries = ⟨dot, n⟩ :: ⟨dotdot, parent d⟩ :: rest d
  proper : ∀ e ∈ rest d, e.inum ≠ 0 → e.name ≠ dot ∧ e.name ≠ dotdot

lemma find_eq_some (h : d.find name = some (off, m)) : d.entries[off]? = some ⟨name, m⟩ ∧ m ≠ 0 := by
  unfold Dinode.find at h
  obtain ⟨⟨e, k⟩, he, h⟩ := Option.map_eq_some_iff.mp h
  cases h
  have hmem := mem_of_find?_eq_some he
  have hp := find?_some he
  simp only [decide_eq_true_eq] at hp
  obtain ⟨h0, rfl⟩ := hp
  exact ⟨mem_zipIdx_iff_getElem?.mp hmem, h0⟩

lemma find_eq_none (h : d.find name = none) (he : e ∈ d.entries) (h0 : e.inum ≠ 0) : e.name ≠ name := by
  unfold Dinode.find at h
  rw [Option.map_eq_none_iff, find?_eq_none] at h
  obtain ⟨k, hk⟩ := getElem?_of_mem he
  have := h (e, k) (mem_zipIdx_iff_getElem?.mpr hk)
  simp only [decide_eq_true_eq, not_and] at this
  exact this h0

lemma countP_write {α : Type} {p : α → Bool} {l : List α} {k : ℕ} {a : α} :
    (l.take k ++ a :: l.drop (k + 1)).countP p + (l[k]?.toList).countP p = l.countP p + [a].countP p := by
  have hl : l.countP p = (l.take k).countP p + ((l[k]?.toList).countP p + (l.drop (k + 1)).countP p) := by
    rw [← countP_append, ← countP_append, ← drop_eq_getElem?_toList_append, take_append_drop]
  rw [hl, countP_append, ← singleton_append, countP_append]
  omega

lemma rest_write {k : ℕ} (h : 2 ≤ d.entries.length) :
    rest (d.write (k + 2) e) = (rest d).take k ++ e :: (rest d).drop (k + 1) := by
  unfold rest Dinode.write
  match hd : d.entries, h with
  | a :: b :: l, _ => simp

lemma naming_write {k : ℕ} (h : 2 ≤ d.entries.length) :
    naming (d.write (k + 2) e) m + ((rest d)[k]?.toList).countP (fun e => e.inum = m) =
      naming d m + if e.inum = m then 1 else 0 := by
  unfold naming
  rw [rest_write h, countP_write, countP_singleton]
  simp

namespace Dir

lemma two_le (h : Dir n d) : 2 ≤ d.entries.length := by
  rw [h.entries]
  simp

lemma write {k : ℕ} (h : Dir n d) (he : e.inum ≠ 0 → e.name ≠ dot ∧ e.name ≠ dotdot) :
    Dir n (d.write (k + 2) e) ∧ parent (d.write (k + 2) e) = parent d := by
  have hp : parent (d.write (k + 2) e) = parent d := by
    unfold parent Dinode.write
    rw [h.entries]
    simp
  refine ⟨⟨?_, ?_⟩, hp⟩
  · rw [rest_write h.two_le, hp]
    unfold Dinode.write
    rw [h.entries]
    simp [rest]
  · intro e' he' h0
    rw [rest_write h.two_le, mem_append, mem_cons] at he'
    rcases he' with he' | rfl | he'
    · exact h.proper e' (mem_of_mem_take he') h0
    · exact he h0
    · exact h.proper e' (mem_of_mem_drop he') h0

lemma find (h : Dir n d) (hf : d.find name = some (off, m)) (h1 : name ≠ dot) (h2 : name ≠ dotdot) :
    ∃ k, off = k + 2 ∧ (rest d)[k]? = some ⟨name, m⟩ := by
  have hoff := (find_eq_some hf).1
  rw [h.entries] at hoff
  match off, hoff with
  | 0, hoff =>
    cases hoff
    exact absurd rfl h1
  | 1, hoff =>
    cases hoff
    exact absurd rfl h2
  | k + 2, hoff => exact ⟨k, rfl, hoff⟩

lemma slot (h : Dir n d) (hn : n ≠ 0) (hp : parent d ≠ 0) :
    ∃ k, d.slot = k + 2 ∧ ∀ e, (rest d)[k]? = some e → e.inum = 0 := by
  refine ⟨(rest d).findIdx fun e => e.inum = 0, ?_, ?_⟩
  · unfold Dinode.slot
    rw [h.entries, findIdx_cons, findIdx_cons]
    simp [hn, hp]
  · intro e he
    obtain ⟨hlt, rfl⟩ := List.getElem?_eq_some_iff.mp he
    simpa using findIdx_getElem (w := hlt)

lemma name_ne (h : Dir n d) (hn : n ≠ 0) (hp : parent d ≠ 0) (hf : d.find name = none) :
    name ≠ dot ∧ name ≠ dotdot := by
  have h1 : (⟨dot, n⟩ : Dirent) ∈ d.entries := by
    rw [h.entries]
    simp
  have h2 : (⟨dotdot, parent d⟩ : Dirent) ∈ d.entries := by
    rw [h.entries]
    simp
  exact ⟨(find_eq_none hf h1 hn).symm, (find_eq_none hf h2 hp).symm⟩

end Dir

/-- The directory is as before, with another content. -/
structure Rewritten (n : ℕ) (d d' : Dinode) : Prop where
  dir : Dir n d'
  type : d'.type = d.type
  parent : parent d' = parent d

lemma Dir.add (h : Dir n d) (hn : n ≠ 0) (hp : parent d ≠ 0) (hf : d.find name = none) {i : ℕ} :
    Rewritten n d (d.write d.slot ⟨name, i⟩) ∧
      ∀ m ≠ 0, naming (d.write d.slot ⟨name, i⟩) m = naming d m + if i = m then 1 else 0 := by
  obtain ⟨k, hk, hempty⟩ := h.slot hn hp
  rw [hk]
  obtain ⟨hdir, hparent⟩ := h.write (k := k) (e := ⟨name, i⟩) fun _ => h.name_ne hn hp hf
  refine ⟨⟨hdir, rfl, hparent⟩, fun m hm => ?_⟩
  have := naming_write (m := m) (k := k) (e := ⟨name, i⟩) h.two_le
  have h0 : ((rest d)[k]?.toList).countP (fun e => e.inum = m) = 0 := by
    rw [countP_eq_zero]
    intro e he
    simp only [Option.mem_toList] at he
    simp [hempty e he, hm.symm]
  rw [h0] at this
  exact this

lemma Dir.remove (h : Dir n d) (h1 : name ≠ dot) (h2 : name ≠ dotdot)
    (hf : d.find name = some (off, m)) :
    Rewritten n d (d.write off ⟨[], 0⟩) ∧ 0 < naming d m ∧
      ∀ k ≠ 0, naming (d.write off ⟨[], 0⟩) k + (if m = k then 1 else 0) = naming d k := by
  obtain ⟨k, rfl, hk⟩ := h.find hf h1 h2
  obtain ⟨hdir, hparent⟩ := h.write (k := k) (e := ⟨[], 0⟩) fun h0 => absurd rfl h0
  refine ⟨⟨hdir, rfl, hparent⟩, ?_, fun j hj => ?_⟩
  · refine countP_pos_iff.mpr ⟨⟨name, m⟩, mem_of_getElem? hk, ?_⟩
    simp
  · have := naming_write (m := j) (k := k) (e := ⟨[], 0⟩) h.two_le
    rw [hk, if_neg (Ne.symm hj)] at this
    simpa [countP_singleton] using this

lemma naming_eq_zero (h : d.isdirempty = true) (hm : m ≠ 0) : naming d m = 0 := by
  unfold naming
  rw [countP_eq_zero]
  intro e he
  have := all_eq_true.mp h e he
  simp only [decide_eq_true_eq] at this
  simp [this, hm.symm]

end LearnXv6.Links
