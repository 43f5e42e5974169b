import LearnXv6.Store.Chain
import Mathlib.Data.List.TakeWhile

/-! The front of `exec` in the shebang lab: a file that starts with `#!` is handed to the interpreter that its
first line names. -/
namespace LearnXv6.Exec
open Store Relation List

abbrev Path := List UInt8

/-- The files, by their inodes, and what the process finds under a path. -/
structure Files where
  ninodes : ℕ
  namei : Path → Option (Fin ninodes)
  data : Fin ninodes → List UInt8

/-- The bytes of the kernel stack from `interp_path` on, when `exec` is called. -/
abbrev Stack := { l : List UInt8 // 16 ≤ l.length }

/-- `readi` of a file that is no device -/
def readi (file : List UInt8) (off n : ℕ) : List UInt8 := (file.drop off).take n

/-- The loop that ends the path at a newline, with `n` bytes left. -/
def endLine : ℕ → List UInt8 → List UInt8
  | 0, l => l
  | _ + 1, [] => []
  | n + 1, c :: l => if c = 0xa then 0 :: l else c :: endLine n l

/-- The stack from `interp_path` on, with the path filled in. -/
def interpPath (file : List UInt8) (stack : Stack) : List UInt8 :=
  let read := readi file 2 16
  endLine 16 (read ++ stack.1.drop read.length)

/-- A string up to its NUL. -/
def cstring (l : List UInt8) : Path := l.takeWhile (· ≠ 0)

/-- How a call goes on. -/
inductive Next (n : ℕ) where
  | fail
  | interpreter (path : Path) (argv : List Path)
  | program (ip : Fin n) (argv : List Path)
  deriving DecidableEq

/-- `exec` up to the check of the ELF header. -/
def enter (F : Files) (stack : Stack) (path : Path) (argv : List Path) : Next F.ninodes :=
  match F.namei path with
  | none => .fail
  | some ip =>
    let shebang := readi (F.data ip) 0 3
    if shebang.length ≠ 3 then .fail
    else if shebang.take 2 = [0x23, 0x21] then
      let interp := cstring (interpPath (F.data ip) stack)
      .interpreter interp [interp, path]
    else .program ip argv

/-- `exec` with the calls that it makes, each with its own stack; `none` if they are more than `n`. -/
def exec (F : Files) (stack : ℕ → Stack) : ℕ → ℕ → Path → List Path → Option (Next F.ninodes)
  | 0, _, _, _ => none
  | n + 1, d, path, argv =>
    match enter F (stack d) path argv with
    | .interpreter path argv => exec F stack n (d + 1) path argv
    | r => some r

variable {F : Files} {file l : List UInt8} {path : Path} {argv : List Path} {ip : Fin F.ninodes} {n d : ℕ}
  {stack : ℕ → Stack}

/-! The path of the interpreter. -/

/-- The bytes between `#!` and the first newline. -/
def line (file : List UInt8) : Path := (file.drop 2).takeWhile (· ≠ 0xa)

/-- The first line has a newline that the buffer holds, and no NUL. -/
def Fits (file : List UInt8) : Prop := (line file).length < 16 ∧ 0xa ∈ file.drop 2 ∧ 0 ∉ line file

instance (file : List UInt8) : Decidable (Fits file) := inferInstanceAs (Decidable (_ ∧ _ ∧ _))

lemma endLine_newline {a b : List UInt8} (ha : 0xa ∉ a) (hn : a.length < n) :
    endLine n (a ++ 0xa :: b) = a ++ 0 :: b := by
  induction a generalizing n with
  | nil =>
    obtain ⟨n, rfl⟩ := Nat.exists_eq_succ_of_ne_zero (Nat.ne_zero_of_lt hn)
    rfl
  | cons c a ih =>
    obtain ⟨n, rfl⟩ := Nat.exists_eq_succ_of_ne_zero (Nat.ne_zero_of_lt hn)
    rw [mem_cons, not_or] at ha
    rw [cons_append, endLine, if_neg (Ne.symm ha.1), ih ha.2 (Nat.lt_of_succ_lt_succ hn)]
    rfl

lemma endLine_eq_self (h : 0xa ∉ l) : endLine n l = l := by
  induction l generalizing n with
  | nil =>
    cases n with
    | zero | succ n => rfl
  | cons c l ih =>
    rw [mem_cons, not_or] at h
    cases n with
    | zero => rfl
    | succ n => rw [endLine, if_neg (Ne.symm h.1), ih h.2]

lemma cstring_eq_self (h : 0 ∉ l) : cstring l = l := by
  refine takeWhile_eq_self_iff.mpr fun c hc => ?_
  simpa using fun h0 : c = 0 => h (h0 ▸ hc)

lemma zero_not_mem_cstring : 0 ∉ cstring l := by
  intro h
  simpa using mem_takeWhile_imp h

lemma cstring_append {a b : List UInt8} (h : 0 ∉ a) : cstring (a ++ b) = a ++ cstring b := by
  refine takeWhile_append_of_pos fun c hc => ?_
  simpa using fun h0 : c = 0 => h (h0 ▸ hc)

lemma newline_not_mem_line : 0xa ∉ line file := by
  intro h
  simpa using mem_takeWhile_imp h

lemma interpPath_newline (hlen : (line file).length < 16) (hmem : 0xa ∈ file.drop 2) (stack : Stack) :
    ∃ rest, interpPath file stack = line file ++ 0 :: rest := by
  obtain ⟨rest, hrest⟩ : ∃ rest, file.drop 2 = line file ++ 0xa :: rest := by
    have hsplit := (takeWhile_append_dropWhile (p := (· ≠ 0xa)) (l := file.drop 2)).symm
    cases hdrop : (file.drop 2).dropWhile (· ≠ 0xa) with
    | nil =>
      rw [hdrop, append_nil] at hsplit
      rw [hsplit] at hmem
      exact absurd hmem newline_not_mem_line
    | cons c rest =>
      have hc : c = 0xa := by
        have := head?_dropWhile_not (fun x : UInt8 => decide (x ≠ 0xa)) (file.drop 2)
        rw [hdrop] at this
        simpa using this
      subst hc
      rw [hdrop] at hsplit
      exact ⟨rest, hsplit⟩
  obtain ⟨more, hmore⟩ : ∃ more, readi file 2 16 = line file ++ 0xa :: more := by
    refine ⟨rest.take (15 - (line file).length), ?_⟩
    rw [readi, hrest, take_append, take_of_length_le (by omega),
      show 16 - (line file).length = 15 - (line file).length + 1 by omega, take_succ_cons]
  unfold interpPath
  dsimp only
  rw [hmore, append_assoc, cons_append, endLine_newline newline_not_mem_line hlen]
  exact ⟨_, rfl⟩

/-- Without one, what the stack held before ends up in the path. -/
lemma interpPath_stack (h : 0xa ∉ readi file 2 16) (k : ℕ) (hk : 16 ≤ k) :
    interpPath file ⟨replicate k 0x61, by simpa using hk⟩ =
      readi file 2 16 ++ replicate (k - (readi file 2 16).length) 0x61 := by
  unfold interpPath
  dsimp only
  rw [drop_replicate, endLine_eq_self]
  simp [h]

lemma mem_of_readi (h : 0xa ∈ readi file 2 16) : (line file).length < 16 ∧ 0xa ∈ file.drop 2 := by
  refine ⟨?_, mem_of_mem_take h⟩
  by_contra hge
  have hpre : (file.drop 2).take 16 = (line file).take 16 := by
    obtain ⟨rest, hrest⟩ := takeWhile_prefix (p := fun c : UInt8 => decide (c ≠ 0xa)) (l := file.drop 2)
    rw [← hrest, take_append_of_le_length (by exact not_lt.mp hge)]
    rfl
  rw [readi, hpre] at h
  exact newline_not_mem_line (mem_of_mem_take h)

lemma readi_start (h : 0xa ∉ readi file 2 16) : readi file 2 16 <+: line file := by
  rw [line, ← take_append_drop 16 (file.drop 2), takeWhile_append_of_pos]
  · exact prefix_append _ _
  · intro c hc
    simpa using fun hnl : c = 0xa => h (hnl ▸ hc)

/-- The interpreter is the one of the first line, whatever the stack held, exactly when the line fits. -/
lemma interp_eq_line_iff : (∀ stack, cstring (interpPath file stack) = line file) ↔ Fits file := by
  constructor
  · intro h
    have h0 : 0 ∉ line file := by
      rw [← h ⟨replicate 16 0, by simp⟩]
      exact zero_not_mem_cstring
    by_cases hread : 0xa ∈ readi file 2 16
    · obtain ⟨hlen, hmem⟩ := mem_of_readi hread
      exact ⟨hlen, hmem, h0⟩
    · -- two stacks give two paths
      exfalso
      have hlen : (readi file 2 16).length ≤ 16 := by simp [readi]
      have hpath : ∀ k (hk : 16 ≤ k), line file =
          readi file 2 16 ++ replicate (k - (readi file 2 16).length) 0x61 := by
        intro k hk
        rw [← h, interpPath_stack hread k hk]
        refine cstring_eq_self fun hmem => ?_
        rcases mem_append.mp hmem with hmem | hmem
        · exact h0 ((readi_start hread).subset hmem)
        · simp at hmem
      have hlen' := congrArg length ((hpath 17 (by omega)).symm.trans (hpath 18 (by omega)))
      simp only [length_append, length_replicate] at hlen'
      omega
  · rintro ⟨hlen, hmem, h0⟩ stack
    obtain ⟨rest, hrest⟩ := interpPath_newline hlen hmem stack
    rw [hrest, cstring_append h0]
    simp [cstring]

/-! The calls for the interpreters. -/

/-- The file has an interpreter. -/
def Script (file : List UInt8) : Prop := 3 ≤ file.length ∧ file.take 2 = [0x23, 0x21]

instance (file : List UInt8) : Decidable (Script file) := inferInstanceAs (Decidable (_ ∧ _))

/-- The path of the interpreter of a script. -/
def interp (F : Files) (ip : Fin F.ninodes) (stack : Stack) : Path := cstring (interpPath (F.data ip) stack)

lemma enter_script {stack : Stack} (hname : F.namei path = some ip) (h : Script (F.data ip)) :
    enter F stack path argv = .interpreter (interp F ip stack) [interp F ip stack, path] := by
  have hlen : (readi (F.data ip) 0 3).length = 3 := by
    rw [readi, drop_zero, length_take]
    exact min_eq_left h.1
  have hfront : (readi (F.data ip) 0 3).take 2 = [0x23, 0x21] := by
    rw [readi, drop_zero, take_take]
    exact h.2
  simp [enter, hname, hlen, hfront, interp]

lemma enter_cases (F : Files) (stack : Stack) (path : Path) (argv : List Path) :
    (∃ ip, F.namei path = some ip ∧ Script (F.data ip)) ∨ ∀ q l, enter F stack path argv ≠ .interpreter q l := by
  unfold enter
  split
  · exact .inr nofun
  · rename_i ip hname
    dsimp only
    split
    · exact .inr nofun
    · rename_i hlen
      split
      · rename_i hfront
        refine .inl ⟨ip, hname, ?_, ?_⟩
        · have := not_not.mp hlen
          simp only [readi, drop_zero, length_take] at this
          omega
        · rwa [readi, drop_zero, take_take] at hfront
      · exact .inr nofun

/-- The call fails, or it is for the interpreter of the first line with the script as the first argument. -/
def Honours (F : Files) (path : Path) (ip : Fin F.ninodes) : Prop :=
  ∀ stack argv, enter F stack path argv = .fail ∨
    enter F stack path argv = .interpreter (line (F.data ip)) [line (F.data ip), path]

/-- The first line of a file with `#!` is honoured exactly when it fits in the buffer with its newline and has no
NUL, or when the file has nothing after `#!`. -/
theorem shebang_honoured (F : Files) (path : Path) (ip : Fin F.ninodes) (hname : F.namei path = some ip)
    (hfront : (F.data ip).take 2 = [0x23, 0x21]) :
    Honours F path ip ↔ (F.data ip).length < 3 ∨ Fits (F.data ip) := by
  by_cases hlen : (F.data ip).length < 3
  · refine iff_of_true (fun stack argv => .inl ?_) (.inl hlen)
    have hshort : (readi (F.data ip) 0 3).length ≠ 3 := by
      rw [readi, drop_zero, length_take]
      omega
    simp [enter, hname, hshort]
  · have hscript : Script (F.data ip) := ⟨not_lt.mp hlen, hfront⟩
    rw [← interp_eq_line_iff, or_iff_right hlen]
    constructor
    · intro h stack
      rcases h stack [] with hfail | hinterp
      · rw [enter_script hname hscript] at hfail
        cases hfail
      · rw [enter_script hname hscript] at hinterp
        exact (Next.interpreter.inj hinterp).1
    · intro h stack argv
      refine .inr ?_
      rw [enter_script hname hscript, interp, h stack]

/-- The interpreter of the script `i` can be the file `j`, depending on the stack. -/
def Leads (F : Files) (i j : Fin F.ninodes) : Prop :=
  Script (F.data i) ∧ ∃ stack, F.namei (interp F i stack) = some j

/-- A script that can be its own interpreter, with others between. -/
def Circular (F : Files) (ip : Fin F.ninodes) : Prop := TransGen (Leads F) ip ip

lemma exec_script (hname : F.namei path = some ip) (h : Script (F.data ip)) :
    exec F stack (n + 1) d path argv =
      exec F stack n (d + 1) (interp F ip (stack d)) [interp F ip (stack d), path] := by
  rw [exec, enter_script hname h]

/-- A call that does not return is one for a script, and so is the call that it makes. -/
lemma hangs_script (h : ∀ n, exec F stack n d path argv = none) :
    ∃ ip, F.namei path = some ip ∧ Script (F.data ip) := by
  rcases enter_cases F (stack d) path argv with hscript | hnext
  · exact hscript
  · have hone := h 1
    rw [exec] at hone
    split at hone
    · rename_i q l hq
      exact absurd hq (hnext q l)
    · cases hone

/-- By induction over the interpreters that can still come. -/
lemma returns_of_acc (h : Acc (fun j i => Leads F i j) ip) (hname : F.namei path = some ip) :
    ∃ n r, exec F stack n d path argv = some r := by
  induction h generalizing d path argv with
  | intro ip _ ih =>
    by_contra hnone
    have hhangs : ∀ n, exec F stack n d path argv = none := by
      intro n
      rw [Option.eq_none_iff_forall_not_mem]
      exact fun r hr => hnone ⟨n, r, hr⟩
    obtain ⟨ip', hname', hscript⟩ := hangs_script hhangs
    obtain rfl : ip = ip' := Option.some.inj (hname.symm.trans hname')
    have hnext : ∀ n, exec F stack n (d + 1) (interp F ip (stack d)) [interp F ip (stack d), path] = none := by
      intro n
      rw [← exec_script hname hscript]
      exact hhangs (n + 1)
    obtain ⟨j, hj, -⟩ := hangs_script hnext
    obtain ⟨n, r, hr⟩ := ih j ⟨hscript, stack d, hj⟩ hj
    rw [hnext] at hr
    cases hr

lemma hangs_of_chain {f : ℕ → Fin F.ninodes} (hscript : ∀ k, Script (F.data (f k)))
    (hstack : ∀ k, F.namei (interp F (f k) (stack k)) = some (f (k + 1))) (n k : ℕ)
    (hname : F.namei path = some (f k)) : exec F stack n k path argv = none := by
  induction n generalizing k path argv with
  | zero => rfl
  | succ n ih =>
    rw [exec_script hname (hscript k)]
    exact ih (k + 1) (hstack k)

/-- `exec` returns, whatever the stack holds, exactly when no script that it can come to is circular. -/
theorem exec_returns_iff (F : Files) (path : Path) :
    (∀ stack argv, ∃ n r, exec F stack n 0 path argv = some r) ↔
      ∀ ip, F.namei path = some ip → ¬ ∃ b, ReflTransGen (Leads F) ip b ∧ Circular F b := by
  constructor
  · rintro h ip hname hcycle
    obtain ⟨f, rfl, hf⟩ := infinite_chain_iff.mpr hcycle
    choose hscript stack hstack using hf
    obtain ⟨n, r, hr⟩ := h stack []
    rw [hangs_of_chain hscript hstack n 0 hname] at hr
    cases hr
  · intro h stack argv
    cases hname : F.namei path with
    | none => exact ⟨1, .fail, by simp [exec, enter, hname]⟩
    | some ip =>
      refine returns_of_acc (acc_iff_isEmpty_descending_chain.mpr ⟨fun f => ?_⟩) hname
      exact h ip hname (infinite_chain_iff.mp ⟨f.1, f.2⟩)

/-- One file, under the path `a`. -/
abbrev oneFile (file : List UInt8) : Files where
  ninodes := 1
  namei p := if p = [0x61] then some 0 else none
  data _ := file

theorem short_line_honoured : Honours (oneFile [0x23, 0x21, 0x62, 0xa]) [0x61] 0 :=
  (shebang_honoured (oneFile [0x23, 0x21, 0x62, 0xa]) [0x61] 0 rfl rfl).mpr (.inr (by decide))

/-- A line of sixteen bytes gets what follows the buffer on the stack, and a file without a newline what the buffer
held before. -/
theorem shebang_not_honoured :
    enter (oneFile ([0x23, 0x21] ++ replicate 16 0x62 ++ [0xa])) ⟨replicate 17 0x63, by decide⟩ [0x61] [] =
        .interpreter (replicate 16 0x62 ++ [0x63]) [replicate 16 0x62 ++ [0x63], [0x61]] ∧
      ¬ Honours (oneFile ([0x23, 0x21] ++ replicate 16 0x62 ++ [0xa])) [0x61] 0 ∧
      ¬ Honours (oneFile [0x23, 0x21, 0x62]) [0x61] 0 := by
  refine ⟨by decide, fun h => ?_, fun h => ?_⟩
  · exact absurd (h ⟨replicate 17 0x63, by decide⟩ []) (by decide)
  · exact absurd (h ⟨replicate 17 0x63, by decide⟩ []) (by decide)

/-- A script that names itself. -/
theorem exec_never_returns : (oneFile [0x23, 0x21, 0x61, 0xa]).namei [0x61] = some 0 ∧
    ∀ stack argv n, exec (oneFile [0x23, 0x21, 0x61, 0xa]) stack n 0 [0x61] argv = none := by
  refine ⟨rfl, fun stack argv n => ?_⟩
  refine hangs_of_chain (f := fun _ => 0) (fun _ => by decide) (fun k => ?_) n 0 rfl
  have hline : interp (oneFile [0x23, 0x21, 0x61, 0xa]) 0 (stack k) = [0x61] :=
    interp_eq_line_iff.mpr (by decide) (stack k)
  rw [hline]
  rfl

end LearnXv6.Exec
