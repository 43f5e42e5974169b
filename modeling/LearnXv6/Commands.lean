import Mathlib.Tactic

/-! User programs: `cmp`, `head` and `tail`, and the shell that looks for commands in `/.sh_profile`. -/
namespace LearnXv6.Commands
open List

/-- The two files that `cmp` is given. -/
inductive Arg where
  | first
  | second

inductive Report where
  | difference (byte line : ℕ)
  | longer (file : Arg) (bytes : ℕ)
  | equals

/-- The test after the loop, on what the last two calls of `read` returned. -/
def verdict (r1 r2 : ℤ) (bytes : ℕ) : Report :=
  if r1 < 0 ∧ r2 > 0 then .longer .second bytes
  else if r1 > 0 ∧ r2 < 0 then .longer .first bytes
  else .equals

/-- The loop, on what is left of the two files: at its end `read` returns 0. Without a byte of the first
file the second is not read, and `r2` is left as it was. -/
def cmpLoop : List UInt8 → List UInt8 → ℤ → ℕ → ℕ → Report
  | [], _, r2, bytes, _ => verdict 0 r2 bytes
  | _ :: _, [], _, bytes, _ => verdict 1 0 bytes
  | c1 :: f1, c2 :: f2, _, bytes, lines =>
    if c1 ≠ c2 then .difference (bytes + 1) lines
    else cmpLoop f1 f2 1 (bytes + 1) (if c1 = 0xa then lines + 1 else lines)

/-- `cmp`; nothing sets `r2` before the loop. -/
def cmp (f1 f2 : List UInt8) (r2 : ℤ) : Report := cmpLoop f1 f2 r2 0 0

/-- Both files have a byte at `i`, the first one that differs. -/
def DifferAt (f1 f2 : List UInt8) (i : ℕ) : Prop :=
  f1.take i = f2.take i ∧ ∃ a b, f1[i]? = some a ∧ f2[i]? = some b ∧ a ≠ b

/-- The report says how the files are related. -/
def Report.Right (f1 f2 : List UInt8) : Report → Prop
  | .difference byte _ => ∃ i, byte = i + 1 ∧ DifferAt f1 f2 i
  | .longer .first _ => f2 <+: f1 ∧ f1 ≠ f2
  | .longer .second _ => f1 <+: f2 ∧ f1 ≠ f2
  | .equals => f1 = f2

variable {f1 f2 : List UInt8} {i : ℕ}

lemma DifferAt.symm (h : DifferAt f1 f2 i) : DifferAt f2 f1 i := by
  obtain ⟨htake, a, b, ha, hb, hne⟩ := h
  exact ⟨htake.symm, b, a, hb, ha, hne.symm⟩

lemma DifferAt.not_prefix (h : DifferAt f1 f2 i) : ¬ f1 <+: f2 := by
  rintro ⟨t, rfl⟩
  obtain ⟨-, a, b, ha, hb, hne⟩ := h
  rw [getElem?_append_left (List.getElem?_eq_some_iff.mp ha).1, ha] at hb
  exact hne (Option.some.inj hb)

/-- No verdict names a file: where it gives no byte, `read` returns 0. -/
lemma cmpLoop_cases (f1 f2 : List UInt8) (r2 : ℤ) (bytes lines : ℕ) :
    (f1 <+: f2 ∨ f2 <+: f1) ∧ cmpLoop f1 f2 r2 bytes lines = .equals ∨
      ∃ i l, cmpLoop f1 f2 r2 bytes lines = .difference (bytes + i + 1) l ∧ DifferAt f1 f2 i := by
  induction f1 generalizing f2 r2 bytes lines with
  | nil => exact .inl ⟨.inl nil_prefix, by simp [cmpLoop, verdict]⟩
  | cons c1 f1 ih =>
    cases f2 with
    | nil => exact .inl ⟨.inr nil_prefix, by simp [cmpLoop, verdict]⟩
    | cons c2 f2 =>
      by_cases hc : c1 = c2
      · subst hc
        rw [cmpLoop, if_neg (not_not.mpr rfl)]
        rcases ih f2 1 (bytes + 1) (if c1 = 0xa then lines + 1 else lines) with ⟨hp, he⟩ | ⟨i, l, he, hd⟩
        · refine .inl ⟨?_, he⟩
          rwa [prefix_cons_inj, prefix_cons_inj]
        · refine .inr ⟨i + 1, l, by rw [he]; congr 1; omega, ?_⟩
          simpa [DifferAt] using hd
      · exact .inr ⟨0, lines, by rw [cmpLoop, if_pos hc], rfl, c1, c2, rfl, rfl, hc⟩

/-- `cmp` is right, whatever `r2` held, unless one file is longer and starts with the other. -/
theorem cmp_right_iff (f1 f2 : List UInt8) (r2 : ℤ) : (cmp f1 f2 r2).Right f1 f2 ↔
    (f1 <+: f2 → f1 = f2) ∧ (f2 <+: f1 → f1 = f2) := by
  rcases cmpLoop_cases f1 f2 r2 0 0 with ⟨hp, he⟩ | ⟨i, l, he, hd⟩
  · rw [cmp, he]
    exact ⟨fun h => ⟨fun _ => h, fun _ => h⟩, fun h => hp.elim h.1 h.2⟩
  · rw [cmp, he]
    refine iff_of_true ⟨i, by omega, hd⟩ ⟨fun h => ?_, fun h => ?_⟩
    · exact (hd.not_prefix h).elim
    · exact (hd.symm.not_prefix h).elim

/-- An empty file equals every file. -/
theorem empty_file_equals : cmp [] [0x61] 0 = .equals ∧ ¬ (cmp [] [0x61] 0).Right [] [0x61] := by
  refine ⟨rfl, ?_⟩
  rintro ⟨⟩

/-! `head` and `tail`. -/

inductive Moden where
  | default
  | lines
  | bytes
deriving DecidableEq

/-- A loop over the bytes that the calls of `read` give, up to the end of the file. -/
def eachByte {σ : Type} (f : σ → UInt8 → σ) : List (List UInt8) → σ → σ
  | [], s | [] :: _, s => s
  | (c :: buf) :: reads, s => eachByte f reads ((c :: buf).foldl f s)

/-- A byte in `head`, with what is printed and `l`. Both loops end when `l` has come to `n`, and then nothing
more is printed. -/
def headByte (n : ℤ) (moden : Moden) (s : List UInt8 × ℤ) (c : UInt8) : List UInt8 × ℤ :=
  if s.2 < n then
    (s.1 ++ [c], if c = 0xa ∧ moden ≠ .bytes then s.2 + 1 else if moden = .bytes then s.2 + 1 else s.2)
  else s

def head (reads : List (List UInt8)) (n : ℤ) (moden : Moden) : List UInt8 :=
  (eachByte (headByte n moden) reads ([], 0)).1

/-- The first passage of `tail` counts `nr` and `nb`. -/
def tailCount (moden : Moden) (s : ℤ × ℤ) (c : UInt8) : ℤ × ℤ :=
  (if c = 0xa ∧ moden ≠ .bytes then s.1 + 1 else s.1, s.2 + 1)

/-- The second passage, with what is printed. -/
def tailByte (n : ℤ) (moden : Moden) (nrf nbf : ℤ) (s : List UInt8 × ℤ × ℤ) (c : UInt8) :
    List UInt8 × ℤ × ℤ :=
  let out := if moden ≠ .bytes ∧ nrf - s.2.1 ≤ n then s.1 ++ [c] else s.1
  let out := if moden = .bytes ∧ nbf - s.2.2 ≤ n then out ++ [c] else out
  (out, tailCount moden s.2 c)

/-- `tail`; each passage has calls of `read` of its own. -/
def tail (reads reads' : List (List UInt8)) (n : ℤ) (moden : Moden) : List UInt8 :=
  let (nrf, nbf) := eachByte (tailCount moden) reads (0, 0)
  (eachByte (tailByte n moden nrf nbf) reads' ([], 0, 0)).1

/-- One way to read the file through the buffer. -/
structure Reads (file : List UInt8) (reads : List (List UInt8)) : Prop where
  all : reads.flatten = file
  size : ∀ buf ∈ reads, 1 ≤ buf.length ∧ buf.length ≤ 512

/-- The newlines of the file, or its bytes. -/
def Moden.units (moden : Moden) (file : List UInt8) : ℕ :=
  if moden = .bytes then file.length else file.count 0xa

/-- The count of `tail` that decides. -/
def Moden.at (moden : Moden) (s : ℤ × ℤ) : ℤ := if moden = .bytes then s.2 else s.1

variable {n k l : ℤ} {moden : Moden} {file : List UInt8} {reads : List (List UInt8)} {f : ℤ × ℤ}

lemma Reads.eachByte_eq {σ : Type} {f : σ → UInt8 → σ} (h : Reads file reads) (s : σ) :
    eachByte f reads s = file.foldl f s := by
  obtain ⟨rfl, h⟩ := h
  induction reads generalizing s with
  | nil => rfl
  | cons buf reads ih =>
    rw [forall_mem_cons] at h
    cases buf with
    | nil => simp at h
    | cons c buf => rw [flatten_cons, foldl_append, eachByte, ih _ h.2]

lemma at_tailCount (s : ℤ × ℤ) (c : UInt8) : moden.at (tailCount moden s c) =
    if c = 0xa ∧ moden ≠ .bytes then moden.at s + 1 else if moden = .bytes then moden.at s + 1 else moden.at s := by
  cases moden <;> simp [Moden.at, tailCount]

lemma at_foldl (cs : List UInt8) (s : ℤ × ℤ) :
    moden.at (cs.foldl (tailCount moden) s) = moden.at s + moden.units cs := by
  induction cs generalizing s with
  | nil => simp [Moden.units]
  | cons c cs ih =>
    rw [foldl_cons, ih, at_tailCount, Moden.units, Moden.units, count_cons, length_cons]
    split_ifs <;> simp_all <;> omega

lemma tailByte_eq (p : List UInt8) (s : ℤ × ℤ) (c : UInt8) : tailByte n moden f.1 f.2 (p, s) c =
    (if moden.at f - moden.at s ≤ n then p ++ [c] else p, tailCount moden s c) := by
  cases moden <;> simp [tailByte, Moden.at]

lemma foldl_eq (hk : moden.at f - n = k) (cs p q : List UInt8) (s : ℤ × ℤ)
    (hl : l = moden.at s ∨ k ≤ l ∧ k ≤ moden.at s) (hq : moden.at s < k → q = []) :
    (cs.foldl (headByte k moden) (p, l)).1 ++ (cs.foldl (tailByte n moden f.1 f.2) (q, s)).1 = p ++ q ++ cs := by
  induction cs generalizing l p q s with
  | nil => simp
  | cons c cs ih =>
    have hat : moden.at (tailCount moden s c) = _ := at_tailCount s c
    rw [foldl_cons, foldl_cons, tailByte_eq, headByte]
    by_cases hs : l < k
    · obtain rfl : l = moden.at s := by omega
      rw [if_pos hs, if_neg (show ¬ moden.at f - moden.at s ≤ n by omega)]
      dsimp only
      rw [← hat, ih _ _ _ (.inl rfl) fun _ => hq hs, hq hs]
      simp
    · rw [if_neg hs, if_pos (by omega), ih _ _ _ (.inr ?_) ?_]
      · simp
      · split_ifs at hat <;> omega
      · split_ifs at hat <;> omega

/-- However the three passages are read, the first `k` lines or bytes and the last of the others are the
file. -/
theorem head_append_tail {reads₁ reads₂ reads₃ : List (List UInt8)} (h₁ : Reads file reads₁)
    (h₂ : Reads file reads₂) (h₃ : Reads file reads₃) (moden : Moden) (k : ℕ) :
    head reads₁ k moden ++ tail reads₂ reads₃ (moden.units file - k) moden = file := by
  rw [head, h₁.eachByte_eq, tail, h₂.eachByte_eq]
  dsimp only
  rw [h₃.eachByte_eq]
  refine (foldl_eq ?_ file [] [] (0, 0) (.inl ?_) fun _ => rfl).trans (nil_append _)
  · rw [at_foldl]
    simp [Moden.at]
  · simp [Moden.at]

/-- Two lines of three, read at once by `head` and byte by byte by `tail`. -/
theorem three_lines : head [[0x61, 0xa, 0xa, 0xa]] 2 .lines ++
    tail [[0x61], [0xa], [0xa], [0xa]] [[0x61, 0xa], [0xa, 0xa]] (3 - 2) .lines = [0x61, 0xa, 0xa, 0xa] :=
  head_append_tail ⟨rfl, by decide⟩ ⟨rfl, by decide⟩ ⟨rfl, by decide⟩ .lines 2

/-! The shell of the exportpath lab. -/

/-- An access outside of `buf` or `tmp`. -/
inductive Fault where
  | outside

/-- The file with these entries. -/
def text (es : List (List UInt8)) : List UInt8 := es.flatMap (· ++ [0xa])

/-- The loop of `runcmd` over `buf`. Of the 513 bytes of `tmp` those below `j` are kept, since only they are
read. The newline is stored in `tmp` and then overwritten by the command. -/
def copyLoop (argv0 : List UInt8) : List UInt8 → List UInt8 → Except Fault (List (List UInt8))
  | [], _ => .ok []
  | c :: buf, tmp =>
    if c = 0 then .ok []
    else if 513 ≤ tmp.length then .error .outside
    else if c = 0xa then
      if 513 ≤ tmp.length + argv0.length then .error .outside
      else ((tmp ++ argv0) :: ·) <$> copyLoop argv0 buf []
    else copyLoop argv0 buf (tmp ++ [c])

/-- The case `EXEC` of `runcmd`: the paths given to `exec`, which returns only when it fails. Without the
file `read` returns -1, and `buf[-1]` is set. -/
def runcmd (profile : Option (List UInt8)) (argv0 : List UInt8) : Except Fault (List (List UInt8)) :=
  match profile with
  | none => .error .outside
  | some file => (· ++ [argv0]) <$> copyLoop argv0 (file.take 512 ++ [0]) []

variable {argv0 buf e : List UInt8} {es : List (List UInt8)}

lemma copyLoop_entry (hn : 0xa ∉ e) (h0 : 0 ∉ e) {tmp : List UInt8} (hlen : tmp.length + e.length ≤ 512) :
    copyLoop argv0 (e ++ 0xa :: buf) tmp = if 513 ≤ tmp.length + e.length + argv0.length then .error .outside
      else ((tmp ++ e ++ argv0) :: ·) <$> copyLoop argv0 buf [] := by
  induction e generalizing tmp with
  | nil => simp [copyLoop, Nat.lt_succ_of_le (show tmp.length ≤ 512 from hlen)]
  | cons c e ih =>
    simp only [mem_cons, not_or, length_cons] at hn h0 hlen
    rw [cons_append, copyLoop, if_neg (Ne.symm h0.1), if_neg (by omega), if_neg (Ne.symm hn.1),
      ih hn.2 h0.2 (by simp; omega)]
    simp [Nat.add_assoc, Nat.add_comm 1]

lemma copyLoop_zero (hn : 0xa ∉ e) (h0 : 0 ∈ e) {tmp : List UInt8} (hlen : tmp.length + e.length ≤ 512) :
    copyLoop argv0 (e ++ buf) tmp = .ok [] := by
  induction e generalizing tmp with
  | nil => cases h0
  | cons c e ih =>
    simp only [mem_cons, not_or, length_cons] at hn h0 hlen
    by_cases hc : c = 0
    · simp [copyLoop, hc]
    · rw [cons_append, copyLoop, if_neg hc, if_neg (by omega), if_neg (Ne.symm hn.1),
        ih hn.2 (h0.resolve_left (Ne.symm hc)) (by simp; omega)]

/-- Every entry is followed by the command, as far as `tmp` has room. -/
lemma copyLoop_text (hes : ∀ e ∈ es, 0xa ∉ e) (hlen : (text es).length ≤ 512) :
    copyLoop argv0 (text es ++ [0]) [] = .ok (es.map (· ++ argv0)) ↔
      ∀ e ∈ es, 0 ∉ e ∧ e.length + argv0.length ≤ 512 := by
  induction es with
  | nil => simp [text, copyLoop]
  | cons e es ih =>
    rw [forall_mem_cons] at hes
    have htext : text (e :: es) = e ++ 0xa :: text es := by simp [text]
    rw [htext, length_append, length_cons] at hlen
    rw [htext, append_assoc, cons_append, forall_mem_cons, ← ih hes.2 (by omega)]
    by_cases h0 : 0 ∈ e
    · simp [copyLoop_zero hes.1 h0 (show [].length + e.length ≤ 512 by simp; omega), h0]
    rw [copyLoop_entry hes.1 h0 (by simp; omega)]
    by_cases h : e.length + argv0.length ≤ 512
    · rw [if_neg (by simp; omega)]
      cases copyLoop argv0 (text es ++ [0]) [] <;> simp [h, h0]
    · simp [h, show 513 ≤ e.length + argv0.length by omega]

/-- The shell tries what it should, inside of its buffers, if the file exists, no zero byte ends it early and
`tmp` has room for each entry with the command. -/
theorem attempts_iff (profile : Option (List (List UInt8))) (argv0 : List UInt8)
    (hp : ∀ es ∈ profile, (∀ e ∈ es, 0xa ∉ e) ∧ (text es).length ≤ 512) :
    runcmd (profile.map text) argv0 = .ok ((profile.getD []).map (· ++ argv0) ++ [argv0]) ↔
      ∃ es, profile = some es ∧ ∀ e ∈ es, 0 ∉ e ∧ e.length + argv0.length ≤ 512 := by
  cases profile with
  | none => simp [runcmd]
  | some es =>
    obtain ⟨hes, hlen⟩ := hp es rfl
    have htext : copyLoop argv0 _ _ = _ ↔ _ := copyLoop_text hes hlen
    simp only [Option.some.injEq, exists_eq_left', ← htext, Option.map_some, Option.getD_some, runcmd,
      take_of_length_le hlen]
    cases copyLoop argv0 (text es ++ [0]) [] <;> simp

theorem bin_attempted : runcmd (some [0x2f, 0x62, 0x2f, 0xa]) [0x6c, 0x73] =
    .ok [[0x2f, 0x62, 0x2f, 0x6c, 0x73], [0x6c, 0x73]] :=
  (attempts_iff (some [[0x2f, 0x62, 0x2f]]) [0x6c, 0x73] (by
    rintro _ ⟨⟩
    exact ⟨by decide, by decide⟩)).mpr ⟨_, rfl, by decide⟩

/-- Before the first `exportpath` every command sets a byte outside of `buf`. -/
theorem missing_profile : runcmd none [0x6c, 0x73] = .error .outside := rfl

end LearnXv6.Commands
