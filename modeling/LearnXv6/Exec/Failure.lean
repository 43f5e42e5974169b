import LearnXv6.Exec.Shebang
import LearnXv6.Shm.Exec

/-! The whole of `exec` in the shebang lab, with what it takes and gives back. -/
namespace LearnXv6.Exec
open Function Store Shm

/-- What `exec` reads of a program, and its entry point. -/
structure Program extends Image where
  entry : ℕ

/-- What a successful `exec` changes of the process. -/
structure Proc where
  pgdir : Pgdir
  sz : ℕ
  name : Path
  eip : ℕ
  esp : ℕ

/-- The process, the free pages, the operations on the log that it has begun and not ended, and its references to
inodes and locks on them. -/
structure World (F : Files) where
  proc : Proc
  free : List Page
  ops : ℤ
  ref : Fin F.ninodes → ℕ
  locked : Fin F.ninodes → Bool

variable {F : Files}

/-- `namei` has found the inode. -/
def World.hold (w : World F) (ip : Fin F.ninodes) : World F :=
  { w with ref := update w.ref ip (w.ref ip + 1), locked := update w.locked ip true }

/-- `ilock`, by a process that does not have the lock. -/
def ilock (ip : Fin F.ninodes) (w : World F) : Except Stop (World F) :=
  if w.locked ip then .error .disabled else .ok (w.hold ip)

/-- `iunlockput` and `end_op` -/
def release (ip : Fin F.ninodes) (w : World F) : Except Stop (World F) :=
  if w.locked ip = false ∨ w.ref ip < 1 then .error (.fault (.panic "iunlock"))
  else .ok { w with
    ref := update w.ref ip (w.ref ip - 1), locked := update w.locked ip false, ops := w.ops - 1 }

/-- The stack pointer for these arguments. -/
def esp (g : Pgdir) (argv : List ℕ) (sz : ℕ) : ℕ :=
  match pushArgs g argv 0 sz with
  | .ok (some (argc, sp)) => sub32 sp ((3 + argc + 1) * 4)
  | _ => 0

/-- The last part of the path, as `safestrcpy` leaves it. -/
def lastName (path : Path) : Path := ((path.reverse.takeWhile (· ≠ 0x2f)).reverse).take 15

/-- `exec` from the check of the ELF header on. -/
def load (prog : Program) (ip : Fin F.ninodes) (path : Path) (argv : List Path) (w : World F) :
    Except Stop (ℤ × World F) :=
  if prog.elf = false then do
    let w ← release ip w
    .ok (-1, w)
  else do
    match ← lift (setupkvm KERNBASE w.free) with
    | (none, free) => do
      let w ← release ip { w with free := free }
      .ok (-1, w)
    | (some g, free) =>
      match ← lift (loadSegments (KERNBASE - 1) prog.segments 0 g free) with
      | (none, g, free) => do
        let free ← lift (freevm g KERNBASE free)
        let w ← release ip { w with free := free }
        .ok (-1, w)
      | (some sz, g, free) => do
        let w ← release ip { w with free := free }
        match ← lift (addStack (KERNBASE - 1) (argv.map List.length) sz g w.free) with
        | (none, g, free) => do
          let free ← lift (freevm g KERNBASE free)
          .ok (-1, { w with free := free })
        | (some sz, g, free) => do
          let free ← lift (freevm w.proc.pgdir KERNBASE free)
          .ok (0, { w with
            free := free, proc := ⟨g, sz, lastName path, prog.entry, esp g (argv.map List.length) sz⟩ })

/-- `exec` with at most `n` calls. -/
def execAll (prog : Fin F.ninodes → Program) (stack : ℕ → Stack) :
    ℕ → ℕ → Path → List Path → World F → Except Stop (ℤ × World F)
  | 0, _, _, _, _ => .error .disabled
  | n + 1, d, path, argv, w =>
    let w := { w with ops := w.ops + 1 }
    match F.namei path with
    | none => .ok (-1, { w with ops := w.ops - 1 })
    | some ip => do
      let w ← ilock ip w
      match enter F (stack d) path argv with
      | .fail => do
        let w ← release ip w
        .ok (-1, w)
      | .interpreter path argv => do
        let w ← release ip w
        execAll prog stack n (d + 1) path argv w
      | .program _ argv => load (prog ip) ip path argv w

/-- The process, the log and the inodes are as before, and so is the set of the free pages. -/
structure Restored (w w' : World F) : Prop where
  proc : w'.proc = w.proc
  ops : w'.ops = w.ops
  ref : w'.ref = w.ref
  locked : w'.locked = w.locked
  free : w'.free.Perm w.free

/-- No page is free and used at once, or used twice. -/
def Apart (w : World F) : Prop :=
  w.proc.pgdir.Formed ∧ ∀ x, w.free.count x + w.proc.pgdir.base x + w.proc.pgdir.low UPAGES x ≤ 1

/-- No page is freed twice. -/
def NotTwice (w : World F) (e : Stop) : Prop := Apart w → ∀ m, e ≠ .fault (.twice m)

variable {w w₁ : World F} {ip : Fin F.ninodes} {path : Path} {argv : List Path} {free free₁ : List Page}
  {g g₁ : Pgdir}

lemma Restored.of_free (h : ∀ x, free.count x = w.free.count x) : Restored w { w with free := free } :=
  ⟨rfl, rfl, rfl, rfl, List.perm_iff_count.mpr h⟩

lemma release_hold (hip : w.locked ip = false) (free : List Page) :
    release ip { ({ w with ops := w.ops + 1 } : World F).hold ip with free := free } =
      .ok { w with free := free } := by
  have href : update (update w.ref ip (w.ref ip + 1)) ip (w.ref ip) = w.ref := by
    rw [update_idem, update_eq_self]
  have hlocked : update (update w.locked ip true) ip false = w.locked := by
    rw [update_idem, ← hip, update_eq_self]
  simp [release, World.hold, href, hlocked]

lemma lift_outcome {α : Type} {P : Prop} {Q : α → Prop} {x : Except Shm.Fault α} (h : Outcome (Shm.Once P) Q x)
    (hP : Apart w → P) : Outcome (NotTwice w) Q (lift x) := by
  cases x with
  | ok a => exact h
  | error e =>
    intro hw m he
    cases he
    exact h (hP hw) m rfl

/-- The pages of the new directory are from the free list. -/
structure Taken (w : World F) (g : Pgdir) (free : List Page) : Prop where
  formed : g.Formed
  total : ∀ x, free.count x + g.base x + g.low UPAGES x = w.free.count x

namespace Taken

lemma grown {o : Option ℕ} (h : Taken w g free) (hg : Grown g free (o, g₁, free₁)) : Taken w g₁ free₁ :=
  ⟨hg.formed, fun x => (hg.total x).trans (h.total x)⟩

lemma once (h : Taken w g free) (hw : Apart w) (x : Page) : free.count x + g.base x + g.low UPAGES x ≤ 1 := by
  have := hw.2 x
  rw [h.total x]
  omega

lemma freevm (h : Taken w g free) : Outcome (NotTwice w) (fun free₁ => ∀ x, free₁.count x = w.free.count x)
    (lift (freevm g KERNBASE free)) :=
  (lift_outcome (freevm_spec h.formed kernbase_eq) h.once).mono fun _ hfree x => (hfree x).trans (h.total x)

end Taken

lemma load_spec {prog : Program} (hip : w.locked ip = false) :
    Outcome (NotTwice w) (fun r => r.1 = -1 → Restored w r.2)
      (load prog ip path argv (({ w with ops := w.ops + 1 } : World F).hold ip)) := by
  have htop : KERNBASE - 1 ≤ KERNBASE := Nat.sub_le _ _
  unfold load
  generalize KERNBASE - 1 = t at htop ⊢
  split
  · have hrel : release ip (({ w with ops := w.ops + 1 } : World F).hold ip) = .ok w := release_hold hip w.free
    rw [hrel]
    exact fun _ => .of_free fun _ => rfl
  refine Outcome.bind (lift_outcome (setupkvm_spec kernbase_eq) fun hw x => ?_) ?_
  · have := hw.2 x
    show w.free.count x ≤ 1
    omega
  rintro ⟨o, free1⟩ hkvm
  cases o with
  | none =>
    dsimp only
    rw [release_hold hip]
    exact fun _ => .of_free (hkvm.1 rfl)
  | some g =>
    have hfresh := hkvm.2 g rfl
    have htaken : Taken w g free1 := by
      refine ⟨hfresh.formed, fun x => ?_⟩
      have hlow : g.low UPAGES x = 0 := places_none fun v _ => hfresh.pte v
      rw [hlow]
      exact hfresh.base x
    refine Outcome.bind (lift_outcome
      (loadSegments_spec htop hfresh.formed (Nat.zero_le _)) htaken.once) ?_
    rintro ⟨o, g1, free2⟩ hgrown
    have htaken := htaken.grown hgrown
    cases o with
    | none =>
      refine htaken.freevm.bind fun free3 hfree => ?_
      rw [release_hold hip]
      exact fun _ => .of_free hfree
    | some sz =>
      -- from here on the inode is released, and only pages are left to give back
      dsimp only
      rw [release_hold hip, ok_bind]
      refine Outcome.bind (lift_outcome (addStack_spec htop hgrown.formed) htaken.once) ?_
      rintro ⟨o, g2, free3⟩ hstack
      have htaken := htaken.grown hstack
      cases o with
      | none => exact htaken.freevm.bind fun free4 hfree _ => .of_free hfree
      | some sz' =>
        refine Outcome.bind (P := fun _ => True) ?_ fun free4 _ h => absurd h (by simp)
        by_cases hold : w.proc.pgdir.Formed
        · refine (lift_outcome (freevm_spec hold kernbase_eq) fun hw x => ?_).mono fun _ _ => trivial
          have h1 := hw.2 x
          have h2 := htaken.total x
          omega
        · dsimp only
          cases lift (Shm.freevm w.proc.pgdir KERNBASE free3) with
          | ok a => trivial
          | error e => exact fun hw => absurd hw.1 hold

lemma execAll_spec (prog : Fin F.ninodes → Program) (stack : ℕ → Stack) (n d : ℕ) (path : Path)
    (argv : List Path) (w : World F) :
    Outcome (NotTwice w) (fun r => r.1 = -1 → Restored w r.2) (execAll prog stack n d path argv w) := by
  induction n generalizing d path argv with
  | zero => exact fun _ m h => by cases h
  | succ n ih =>
    unfold execAll
    cases F.namei path with
    | none => exact fun _ => ⟨rfl, add_sub_cancel_right w.ops 1, rfl, rfl, .refl _⟩
    | some ip =>
      dsimp only
      unfold ilock
      split
      · exact fun _ m h => by cases h
      rename_i hip
      have hip : w.locked ip = false := by simpa using hip
      have hrel : release ip (({ w with ops := w.ops + 1 } : World F).hold ip) = .ok w := release_hold hip w.free
      rw [ok_bind]
      cases enter F (stack d) path argv with
      | fail =>
        rw [hrel]
        exact fun _ => .of_free fun _ => rfl
      | interpreter path argv =>
        rw [hrel]
        exact ih (d + 1) path argv
      | program _ argv => exact load_spec hip

/-- An `exec` that fails, also in one of the interpreters, leaves nothing behind, and no `exec` frees a page twice. -/
theorem failed_exec_restores (F : Files) (prog : Fin F.ninodes → Program) (stack : ℕ → Stack) (n d : ℕ)
    (path : Path) (argv : List Path) (w : World F) :
    (∀ w', execAll prog stack n d path argv w = .ok (-1, w') → Restored w w') ∧
      (Apart w → ∀ m, execAll prog stack n d path argv w ≠ .error (.fault (.twice m))) := by
  have hspec := execAll_spec prog stack n d path argv w
  refine ⟨fun w' h => ?_, fun hw m h => ?_⟩
  · rw [h] at hspec
    exact hspec rfl
  · rw [h] at hspec
    exact hspec hw m rfl

/-- A process without memory of its own, and 200 free pages. -/
def smallWorld (file : List UInt8) : World (oneFile file) :=
  ⟨⟨⟨1, fun _ => none, fun _ => none, fun _ => false⟩, 0, [], 0, 0⟩, List.range' 5 200, 0, 0, fun _ => false⟩

/-- A program of one page, which `readi` does not read in full: the page and the new page tables are given back,
in another order. -/
theorem short_program_restored : ∃ w', execAll (fun _ => ⟨⟨true, [some ⟨true, 0, 4096, 4096, some 0⟩]⟩, 0⟩)
    (fun _ => ⟨List.replicate 16 0, by decide⟩) 2 0 [0x61] [] (smallWorld [0x7f, 0x45, 0x4c]) = .ok (-1, w') ∧
    w'.free ≠ (smallWorld [0x7f, 0x45, 0x4c]).free ∧ Restored (smallWorld [0x7f, 0x45, 0x4c]) w' := by
  obtain ⟨⟨r, w'⟩, hexec, hr, hfree⟩ : ∃ q,
      execAll (fun _ => ⟨⟨true, [some ⟨true, 0, 4096, 4096, some 0⟩]⟩, 0⟩)
        (fun _ => ⟨List.replicate 16 0, by decide⟩) 2 0 [0x61] [] (smallWorld [0x7f, 0x45, 0x4c]) = .ok q ∧
      q.1 = -1 ∧ q.2.free ≠ (smallWorld [0x7f, 0x45, 0x4c]).free := exists_eq_ok (by decide +kernel)
  obtain rfl : r = -1 := hr
  exact ⟨w', hexec, hfree, (failed_exec_restores _ _ _ _ _ _ _ _).1 w' hexec⟩

end LearnXv6.Exec
