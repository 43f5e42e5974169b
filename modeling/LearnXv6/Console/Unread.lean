import LearnXv6.Console.Model

/-! The counters of the console stay in order and unread bytes stay, as long as every key asks for room. -/
namespace LearnXv6.Console
open Store

variable {s s' : Input} {n : ℕ}

/-- `r`, `w` and `e` in their order, at most one buffer apart. -/
structure InOrder (s : Input) : Prop where
  read : s.r ≤ s.w
  edit : s.w ≤ s.e
  room : s.e ≤ s.r + INPUT_BUF

/-- The bytes that are complete and not read yet are the same. -/
def Keeps (s s' : Input) : Prop := ∀ x, s.r ≤ x → x < s.w → s'.byte x = s.byte x

lemma Keeps.of_buf (h : s'.buf = s.buf) : Keeps s s' := by
  intro x _ _
  rw [Input.byte, Input.byte, h]

lemma Keeps.trans {s1 s2 : Input} (h : Keeps s s1) (h' : Keeps s1 s2) (hr : s1.r = s.r)
    (hw : s1.w = s.w) : Keeps s s2 := by
  intro x hx hx'
  rw [h' x (hr.trans_le hx) (hx'.trans_eq hw.symm), h x hx hx']

lemma InOrder.word_sub (h : InOrder s) : (word (s.e - s.r) : ℤ) = s.e - s.r := by
  obtain ⟨hread, hedit, hroom⟩ := h
  unfold word
  unfold INPUT_BUF at hroom
  omega

lemma InOrder.word_left (h : InOrder s) : (word (s.e - s.w) : ℤ) = s.e - s.w := by
  obtain ⟨hread, hedit, hroom⟩ := h
  unfold word
  unfold INPUT_BUF at hroom
  omega

lemma InOrder.put (h : InOrder s) (hroom : s.e < s.r + INPUT_BUF) (c : UInt8) : InOrder (s.put c) := by
  constructor
  · exact h.read
  · exact h.edit.trans (Int.le_add_one le_rfl)
  · exact hroom

lemma keeps_put (h : InOrder s) (hroom : s.e < s.r + INPUT_BUF) (c : UInt8) : Keeps s (s.put c) := by
  intro x hx hx'
  have hedit := h.edit
  have hne : word x % INPUT_BUF ≠ word s.e % INPUT_BUF := by
    unfold word INPUT_BUF
    unfold INPUT_BUF at hroom
    omega
  exact Function.update_of_ne hne _ _

lemma iterate_put (h : InOrder s) (hroom : s.e + n ≤ s.r + INPUT_BUF) (c : UInt8) :
    InOrder (Nat.iterate (Input.put · c) n s) ∧ Keeps s (Nat.iterate (Input.put · c) n s) := by
  induction n generalizing s with
  | zero => exact ⟨h, .of_buf rfl⟩
  | succ n ih =>
    rw [Nat.cast_succ] at hroom
    have hput : s.e < s.r + INPUT_BUF := by omega
    have hrest := ih (h.put hput c) (by simp only [Input.put]; omega)
    exact ⟨hrest.1, (keeps_put h hput c).trans hrest.2 rfl rfl⟩

lemma killLine_spec (h : s.w + n ≤ s.e) : ∃ e, killLine n s = { s with e := e } ∧ s.w ≤ e ∧ e ≤ s.e := by
  induction n generalizing s with
  | zero => exact ⟨s.e, rfl, by omega, le_rfl⟩
  | succ n ih =>
    unfold killLine
    split
    · exact ⟨s.e, rfl, by omega, le_rfl⟩
    · rw [Nat.cast_succ] at h
      obtain ⟨e, heq, hw, he⟩ := ih (s := { s with e := s.e - 1 }) (by simp only; omega)
      exact ⟨e, heq, hw, by simp only at he; omega⟩

section

variable (h : InOrder s)
include h

lemma InOrder.back {e : ℤ} (hw : s.w ≤ e) (he : e ≤ s.e) : InOrder { s with e := e } :=
  ⟨h.read, hw, he.trans h.room⟩

lemma InOrder.killLine : InOrder (killLine (word (s.e - s.w)) s) ∧
    Keeps s (killLine (word (s.e - s.w)) s) := by
  obtain ⟨e, heq, hw, he⟩ := killLine_spec (s := s) (n := word (s.e - s.w)) (by rw [h.word_left]; omega)
  rw [heq]
  exact ⟨h.back hw he, .of_buf rfl⟩

lemma InOrder.backspace : InOrder (backspace s) ∧ Keeps s (backspace s) := by
  unfold Console.backspace
  split
  · rename_i hne
    have hlt : s.w < s.e := by
      rcases h.edit.lt_or_eq with hlt | heq
      · exact hlt
      · rw [heq] at hne
        exact absurd rfl hne
    exact ⟨h.back (Int.le_sub_one_of_lt hlt) (by omega), .of_buf rfl⟩
  · exact ⟨h, .of_buf rfl⟩

lemma InOrder.deleteLine : InOrder (deleteLine s) := by
  have hleft := h.word_left
  apply h.back
  · omega
  · omega

lemma InOrder.tab (hroom : word (s.e - s.r) + TAB_LENGHT ≤ INPUT_BUF) :
    InOrder (tab s) ∧ Keeps s (tab s) := by
  apply iterate_put h
  have := h.word_sub
  omega

lemma InOrder.rightArrow (hroom : s.byte s.e = 0 ∨ s.byte s.e = newline ∨ word (s.e - s.r) < INPUT_BUF) :
    InOrder (rightArrow s) ∧ Keeps s (rightArrow s) := by
  unfold Console.rightArrow
  split
  · rename_i hne
    have hsub := h.word_sub
    have hlt : word (s.e - s.r) < INPUT_BUF := by
      rcases hroom with hzero | hline | hlt
      · exact absurd hzero hne.1
      · exact absurd hline hne.2
      · exact hlt
    refine ⟨⟨h.read, ?_, ?_⟩, .of_buf rfl⟩
    · exact h.edit.trans (Int.le_add_one le_rfl)
    · simp only
      omega
  · exact ⟨h, .of_buf rfl⟩

lemma InOrder.typed (c : UInt8) : InOrder (typed c s).2 ∧ Keeps s (typed c s).2 := by
  unfold Console.typed
  split
  · rename_i hguard
    have hsub := h.word_sub
    have hlt : s.e < s.r + INPUT_BUF := by omega
    generalize (if c = 13 then newline else c) = d
    have hput := h.put hlt d
    have hkeeps := keeps_put h hlt d
    simp only
    split
    · exact ⟨⟨hput.read.trans hput.edit, le_rfl, hput.room⟩, hkeeps⟩
    · exact ⟨hput, hkeeps⟩
  · exact ⟨h, .of_buf rfl⟩

lemma readBytes_spec (target n : ℕ) : ∃ r,
    (readBytes target n s).2.2.2 = { s with r := r } ∧ s.r ≤ r ∧ r ≤ s.w := by
  induction n generalizing s with
  | zero => exact ⟨s.r, rfl, le_rfl, h.read⟩
  | succ n ih =>
    unfold readBytes
    split
    · exact ⟨s.r, rfl, le_rfl, h.read⟩
    · rename_i hne
      have hlt : s.r < s.w := by
        rcases h.read.lt_or_eq with hlt | heq
        · exact hlt
        · rw [heq] at hne
          exact absurd rfl hne
      simp only
      split
      · split
        · exact ⟨s.r + 1 - 1, rfl, by omega, by omega⟩
        · exact ⟨s.r + 1, rfl, by omega, by omega⟩
      · split
        · exact ⟨s.r + 1, rfl, by omega, by omega⟩
        · have hnext : InOrder { s with r := s.r + 1 } :=
            ⟨by simp only; omega, h.edit, by have := h.room; simp only; omega⟩
          obtain ⟨r, heq, hr, hw⟩ := ih hnext
          exact ⟨r, heq, by simp only at hr; omega, hw⟩

lemma InOrder.previous {m : Outside} {copying : Option ℕ}
    (heq : previous m s = .ok (copying, s')) : InOrder s' ∧ Keeps s s' := by
  unfold Console.previous at heq
  split at heq
  · cases heq
    exact ⟨h, .of_buf rfl⟩
  · obtain ⟨⟨tmp, i⟩, -, heq⟩ := bind_eq_ok.mp heq
    obtain ⟨⟨i, a⟩, -, heq⟩ := bind_eq_ok.mp heq
    obtain ⟨⟨i, a⟩, -, heq⟩ := bind_eq_ok.mp heq
    cases heq
    exact ⟨h.deleteLine, .of_buf rfl⟩

end

section Runs

variable {τ : Type} {k k' : State τ} {a : Act τ} {es : List Event}

/-- The tab key and the right arrow come with room in the buffer, and so does every byte that the up
and down arrows copy: the test that every other key makes. -/
def Guarded (k : State τ) : Act τ → Prop
  | .key _ c =>
    (c = 9 → word (k.input.e - k.input.r) + TAB_LENGHT ≤ INPUT_BUF) ∧
    (c = 229 → k.input.byte k.input.e = 0 ∨ k.input.byte k.input.e = newline ∨
      word (k.input.e - k.input.r) < INPUT_BUF)
  | .copy => ∀ i ∈ k.copying, k.input.buf (i % INPUT_BUF) = newline ∨
      word (k.input.e - k.input.r) < INPUT_BUF
  | _ => True

instance (k : State τ) (a : Act τ) : Decidable (Guarded k a) :=
  match a with
  | .key _ _ => inferInstanceAs (Decidable (_ ∧ _))
  | .copy => inferInstanceAs (Decidable (∀ i ∈ k.copying, _))
  | .read _ _ | .run _ | .kill _ => inferInstanceAs (Decidable True)

lemma InOrder.consoleintr (h : InOrder k.input) {m : Outside} {c : UInt8}
    (hguard : Guarded k (.key m c)) (heq : consoleintr m c k = .ok k') :
    InOrder k'.input ∧ Keeps k.input k'.input := by
  unfold Console.consoleintr at heq
  split at heq
  · cases heq
    exact ⟨h, .of_buf rfl⟩
  split at heq
  · cases heq
    exact h.killLine
  split at heq
  · cases heq
    exact h.backspace
  split at heq
  · rename_i htab
    cases heq
    exact h.tab (hguard.1 htab)
  split at heq
  · obtain ⟨⟨copying, input⟩, hprevious, heq⟩ := bind_eq_ok.mp heq
    cases heq
    exact h.previous hprevious
  split at heq
  · rename_i harrow
    cases heq
    exact h.rightArrow (hguard.2 harrow)
  · have htyped := h.typed c
    generalize Console.typed c k.input = r at heq htyped
    obtain ⟨done, input⟩ := r
    cases heq
    cases done <;> exact htyped

lemma InOrder.copyByte (h : InOrder k.input) {i : ℕ}
    (hguard : k.input.buf (i % INPUT_BUF) = newline ∨ word (k.input.e - k.input.r) < INPUT_BUF) :
    InOrder (copyByte i k).input ∧ Keeps k.input (copyByte i k).input := by
  unfold Console.copyByte
  simp only
  split
  · exact ⟨h, .of_buf rfl⟩
  · rename_i hne
    have hsub := h.word_sub
    have hlt := hguard.resolve_left hne
    have hroom : k.input.e < k.input.r + INPUT_BUF := by omega
    exact ⟨h.put hroom _, keeps_put h hroom _⟩

variable [DecidableEq τ]

lemma consoleread_input (t : τ) (n target : ℕ) (k : State τ) :
    (consoleread t n target k).1.input = (readBytes target n k.input).2.2.2 := by
  unfold consoleread
  simp only
  split
  · split <;> rfl
  · rfl

lemma InOrder.consoleread (h : InOrder k.input) (t : τ) (n target : ℕ) :
    InOrder (consoleread t n target k).1.input ∧ Keeps k.input (consoleread t n target k).1.input := by
  obtain ⟨r, heq, hr, hw⟩ := readBytes_spec h target n
  rw [consoleread_input, heq]
  refine ⟨⟨hw, h.edit, ?_⟩, .of_buf rfl⟩
  exact h.room.trans (Int.add_le_add_right hr _)

lemma InOrder.step (h : InOrder k.input) (hguard : Guarded k a)
    (heq : step a k = .ok (k', es)) : InOrder k'.input ∧ Keeps k.input k'.input := by
  unfold Console.step at heq
  split at heq
  · obtain ⟨k1, hkey, heq⟩ := bind_eq_ok.mp heq
    cases heq
    exact h.consoleintr hguard hkey
  · rename_i i hcopying
    cases heq
    exact h.copyByte (hguard i hcopying)
  · split at heq
    · cases heq
      exact ⟨h, .of_buf rfl⟩
    · cases heq
  · split at heq
    · rename_i t _ _ n target _
      have hread := h.consoleread t n target
      have hpair := Except.ok.inj heq
      rwa [hpair] at hread
    · cases heq
  · cases heq
    exact ⟨h, .of_buf rfl⟩
  · cases heq

/-- In a run where every key that extends the line asks for room, the counters stay in order and no
action changes a byte that no reader has got yet. -/
theorem unread_kept (h : Run step Guarded (empty : State τ) es k) :
    (k.input.r ≤ k.input.w ∧ k.input.w ≤ k.input.e ∧ k.input.e ≤ k.input.r + INPUT_BUF) ∧
    ∀ a k' es', Guarded k a → step a k = .ok (k', es') →
      ∀ x, k.input.r ≤ x → x < k.input.w → k'.input.byte x = k.input.byte x := by
  have horder : InOrder k.input := by
    apply h.invariant (I := fun k => InOrder k.input)
    · intro k a k' es hk hguard hstep
      exact (hk.step hguard hstep).1
    · exact ⟨le_rfl, le_rfl, by simp [empty]⟩
  refine ⟨⟨horder.read, horder.edit, horder.room⟩, ?_⟩
  intro a k' es' hguard hstep
  exact (horder.step hguard hstep).2

/-- A line, the up arrow that copies it, and a reader that gets half of it. -/
def history : List (Act Bool) :=
  [.key (fun _ _ => 0) 108, .key (fun _ _ => 0) 115, .key (fun _ _ => 0) 10,
   .key (fun _ _ => 10) 226, .copy, .copy, .copy, .key (fun _ _ => 0) 9, .read false 1, .run false]

theorem unread_kept_history : ∃ k : State Bool, Run step Guarded empty [.copied [108], .result 1] k ∧
    k.input.r = 1 ∧ k.input.w = 3 ∧ k.input.e = 9 ∧ k.input.e ≤ k.input.r + INPUT_BUF := by
  have hleads : ∃ k : State Bool, Run step Guarded empty [.copied [108], .result 1] k ∧
      k.input.r = 1 ∧ k.input.w = 3 ∧ k.input.e = 9 :=
    Run.of_leads history (by decide +kernel)
  obtain ⟨k, hrun, hr, hw, he⟩ := hleads
  exact ⟨k, hrun, hr, hw, he, (unread_kept hrun).1.2.2⟩

/-- A line of one letter that nobody reads, and 124 letters of the next one. -/
def almostFull : List (Act Bool) :=
  .key (fun _ _ => 0) 120 :: .key (fun _ _ => 0) 10 ::
    List.replicate 124 (.key (fun _ _ => 0) 97)

/-- The tab key does not ask for room: its last two blanks replace the line that nobody has read. -/
theorem tab_overwrites : ∃ k k' : State Bool,
    Run step (fun _ _ => True) empty [] k ∧ step (.key (fun _ _ => 0) 9) k = .ok (k', []) ∧
    k.input.r = 0 ∧ k.input.w = 2 ∧ k.input.byte 0 = 120 ∧ k'.input.byte 0 = 32 ∧
    k'.input.r + INPUT_BUF < k'.input.e := by
  have hleads : ∃ k : State Bool, Run step (fun _ _ => True) empty [] k ∧
      k.copying = none ∧ k.input.r = 0 ∧ k.input.w = 2 ∧ k.input.byte 0 = 120 ∧
      (tab k.input).byte 0 = 32 ∧ (tab k.input).e = 130 ∧ (tab k.input).r = 0 :=
    Run.of_leads almostFull (by decide +kernel)
  obtain ⟨k, hrun, hidle, hr, hw, hx, hblank, he, hr'⟩ := hleads
  refine ⟨k, { k with input := tab k.input }, hrun, ?_, hr, hw, hx, hblank, ?_⟩
  · have hkey : consoleintr (fun _ _ => 0) 9 k = .ok { k with input := tab k.input } := by
      simp [consoleintr]
    simp only [step, hidle, hkey]
    rfl
  · simp only [he, hr']
    decide

end Runs

end LearnXv6.Console
