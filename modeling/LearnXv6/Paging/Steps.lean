import LearnXv6.Paging.Bio

/-! What one action of the buffer cache does. -/
namespace LearnXv6.Paging
open Store

variable {τ δ : Type} {policy : Policy} {s s' : State τ δ} {a : Action τ δ} {i : Index} {b : Buf δ}
  {es : List (Event δ)}

/-- Every buffer keeps its block. -/
def SameBlocks (s s' : State τ δ) : Prop := ∀ i, (s'.buf i).block = (s.buf i).block

lemma sameBlocks_set (h : b.block = (s.buf i).block) : SameBlocks s (s.set i b) := by
  intro j
  by_cases hj : j = i
  · subst hj
    simp [State.set, h]
  · simp [State.set, Function.update_of_ne hj]

/-- The disk once the request for a buffer has been started. -/
def started (s : State τ δ) (i : Index) : Key → δ :=
  if (s.buf i).dirty then Function.update s.disk (sector (s.buf i).block) (s.buf i).data else s.disk

lemma idestart_ok (h : idestart i s = .ok s') : s' = { s with disk := started s i } := by
  unfold idestart at h
  dsimp only at h
  unfold started
  obtain ⟨-, h⟩ := else_eq_ok.mp h
  split at h
  · rename_i hd
    cases h
    rw [if_pos hd]
  · rename_i hd
    cases h
    rw [if_neg hd]

lemma iderw_ok (h : iderw i s = .ok s') :
    ((s.buf i).locked = true ∧ ((s.buf i).valid = true → (s.buf i).dirty = true)) ∧ s' = { s with
        idequeue := s.idequeue ++ [i]
        disk := if s.idequeue = [] then started s i else s.disk } := by
  unfold iderw at h
  dsimp only at h
  obtain ⟨hlocked, h⟩ := else_eq_ok.mp h
  obtain ⟨hwork, h⟩ := else_eq_ok.mp h
  split at h
  · cases h
  · refine ⟨⟨by simpa using hlocked, by simpa using hwork⟩, ?_⟩
    split at h
    · rename_i hq
      rw [if_pos hq]
      exact idestart_ok h
    · rename_i hq
      cases h
      rw [if_neg hq]

/-- The buffer after its request: read if it was not dirty. -/
def served (s : State τ δ) (i : Index) : Buf δ :=
  { s.buf i with
    data := if (s.buf i).dirty then (s.buf i).data else s.disk (sector (s.buf i).block)
    valid := true
    dirty := false }

/-- The disk once the next request in the queue, if any, has been started. -/
def restarted (s : State τ δ) : List Index → Key → δ
  | [] => s.disk
  | j :: _ => started s j

lemma ideintr_ok (h : ideintr s = .ok s') : (s.idequeue = [] ∧ s' = s) ∨ ∃ i rest, s.idequeue = i :: rest ∧
      s' = { s.set i (served s i) with
        idequeue := rest
        disk := restarted (s.set i (served s i)) rest } := by
  unfold ideintr at h
  split at h
  · rename_i hq
    cases h
    exact .inl ⟨hq, rfl⟩
  · rename_i i rest hq
    refine .inr ⟨i, rest, hq, ?_⟩
    dsimp only at h
    split at h
    · cases h
      rfl
    · rw [idestart_ok h]
      rfl

lemma victim_default {u : State τ δ} (h : victim .DEFAULT s = (some i, u)) : (s.buf i).unused ∧ s = u := by
  simp only [victim, Prod.mk.injEq] at h
  exact ⟨by simpa using List.find?_some h.1, h.2⟩

variable [DecidableEq τ]

inductive Does (policy : Policy) (s : State τ δ) :
    Action τ δ → State τ δ → List (Event δ) → Prop
  | hit (t : τ) (k : Key) (i : Index) (ht : s.phase t = .out) (hi : s.cached k = some i) :
      Does policy s (.bget t k)
        ((s.set i { s.buf i with refcnt := (s.buf i).refcnt + 1 }).goto t (.waiting i k)) [.got i k]
  | miss (t : τ) (k : Key) (i : Index) (u : State τ δ) (ht : s.phase t = .out)
      (hnone : s.cached k = none) (hv : victim policy s = (some i, u)) :
      Does policy s (.bget t k)
        ((u.set i { s.buf i with block := k, valid := false, dirty := false, refcnt := 1 }).goto t
          (.waiting i k))
        [.recycled i (s.buf i).refcnt (s.buf i).dirty, .got i k]
  | acquire (t : τ) (i : Index) (k : Key) (ht : s.phase t = .waiting i k)
      (hfree : (s.buf i).locked = false) :
      Does policy s (.acquiresleep t)
        ((s.set i { s.buf i with locked := true }).goto t (.locked i k)) []
  | ready (t : τ) (i : Index) (k : Key) (ht : s.phase t = .locked i k)
      (hvalid : (s.buf i).valid = true) :
      Does policy s (.bread t) (s.goto t (.holding i true)) [.access (.load k (s.buf i).data)]
  | submit (t : τ) (i : Index) (k : Key) (ht : s.phase t = .locked i k)
      (hvalid : (s.buf i).valid = false) :
      Does policy s (.bread t)
        ({ s with
          idequeue := s.idequeue ++ [i]
          disk := if s.idequeue = [] then started s i else s.disk }.goto t (.reading i k)) []
  | read (t : τ) (i : Index) (k : Key) (ht : s.phase t = .reading i k) (hf : finished (s.buf i)) :
      Does policy s (.wake t) (s.goto t (.holding i true)) [.access (.load k (s.buf i).data)]
  | wrote (t : τ) (i : Index) (ht : s.phase t = .writing i) (hf : finished (s.buf i)) :
      Does policy s (.wake t) (s.goto t (.holding i true)) []
  | modify (t : τ) (i : Index) (stored : Bool) (v : δ) (ht : s.phase t = .holding i stored) :
      Does policy s (.modify t v)
        ((s.set i { s.buf i with data := v }).goto t (.holding i false)) []
  | write (t : τ) (i : Index) (stored : Bool) (ht : s.phase t = .holding i stored) :
      Does policy s (.bwrite t)
        ({ s.set i { s.buf i with dirty := true } with
          idequeue := s.idequeue ++ [i]
          disk := if s.idequeue = [] then started (s.set i { s.buf i with dirty := true }) i
            else s.disk }.goto t (.writing i))
        [.access (.store (s.buf i).block (s.buf i).data)]
  | logged (t : τ) (i : Index) (stored : Bool) (ht : s.phase t = .holding i stored) :
      Does policy s (.logWrite t)
        ((s.set i { s.buf i with dirty := true }).goto t (.holding i true))
        [.access (.store (s.buf i).block (s.buf i).data)]
  | release (t : τ) (i : Index) (stored : Bool) (ht : s.phase t = .holding i stored) :
      Does policy s (.brelse t)
        ((s.set i { s.buf i with locked := false }).goto t (.releasing i)) []
  | unref (t : τ) (i : Index) (ht : s.phase t = .releasing i) :
      Does policy s (.unref t) (unref t i s) []
  | spurious (hq : s.idequeue = []) : Does policy s .ideintr s []
  | served (i : Index) (rest : List Index) (hq : s.idequeue = i :: rest) :
      Does policy s .ideintr
        { s.set i (served s i) with
          idequeue := rest
          disk := restarted (s.set i (Paging.served s i)) rest } []

lemma bget_does {t : τ} {k : Key} (ht : s.phase t = .out) (h : bget policy t k s = .ok (s', es)) :
    Does policy s (.bget t k) s' es := by
  unfold bget at h
  split at h
  · rename_i i hi
    cases h
    exact .hit t k i ht hi
  · rename_i hnone
    split at h
    · rename_i i u hv
      cases h
      exact .miss t k i u ht hnone hv
    · cases h

lemma bread_does {t : τ} {k : Key} (ht : s.phase t = .locked i k)
    (h : bread t i k s = .ok (s', es)) : Does policy s (.bread t) s' es := by
  unfold bread at h
  split at h
  · rename_i hvalid
    cases h
    exact .ready t i k ht hvalid
  · rename_i hvalid
    split at h
    · rename_i u hu
      obtain ⟨-, rfl⟩ := iderw_ok hu
      cases h
      exact .submit t i k ht (by simpa using hvalid)
    · cases h

lemma bwrite_does {t : τ} {stored : Bool} (ht : s.phase t = .holding i stored)
    (h : bwrite t i s = .ok (s', es)) : Does policy s (.bwrite t) s' es := by
  unfold bwrite at h
  dsimp only at h
  obtain ⟨-, h⟩ := else_eq_ok.mp h
  split at h
  · rename_i u hu
    obtain ⟨-, rfl⟩ := iderw_ok hu
    cases h
    exact .write t i stored ht
  · cases h

lemma step_does (h : step policy a s = .ok (s', es)) : Does policy s a s' es := by
  cases a with
  | bget t k =>
    simp only [step] at h
    split at h
    · rename_i ht
      exact bget_does ht h
    · cases h
  | acquiresleep t =>
    simp only [step] at h
    split at h
    · rename_i i k ht
      obtain ⟨hfree, h⟩ := else_eq_ok.mp h
      cases h
      exact .acquire t i k ht (by simpa using hfree)
    · cases h
  | bread t =>
    simp only [step] at h
    split at h
    · rename_i i k ht
      exact bread_does ht h
    · cases h
  | wake t =>
    simp only [step] at h
    split at h
    · rename_i i k ht
      obtain ⟨hf, h⟩ := then_eq_ok.mp h
      cases h
      exact .read t i k ht hf
    · rename_i i ht
      obtain ⟨hf, h⟩ := then_eq_ok.mp h
      cases h
      exact .wrote t i ht hf
    · cases h
  | modify t v =>
    simp only [step] at h
    split at h
    · rename_i i stored ht
      cases h
      exact .modify t i stored v ht
    · cases h
  | bwrite t =>
    simp only [step] at h
    split at h
    · rename_i i stored ht
      exact bwrite_does ht h
    · cases h
  | logWrite t =>
    simp only [step] at h
    split at h
    · rename_i i stored ht
      cases h
      exact .logged t i stored ht
    · cases h
  | brelse t =>
    simp only [step] at h
    split at h
    · rename_i i stored ht
      obtain ⟨-, h⟩ := else_eq_ok.mp h
      cases h
      exact .release t i stored ht
    · cases h
  | unref t =>
    simp only [step] at h
    split at h
    · rename_i i ht
      cases h
      exact .unref t i ht
    · cases h
  | ideintr =>
    simp only [step] at h
    split at h
    · rename_i u hu
      cases h
      rcases ideintr_ok hu with ⟨hq, rfl⟩ | ⟨i, rest, hq, rfl⟩
      · exact .spurious hq
      · exact .served i rest hq
    · cases h

end LearnXv6.Paging
