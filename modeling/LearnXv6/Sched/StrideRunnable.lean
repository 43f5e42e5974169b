import LearnXv6.Sched.StrideHeap

/-! The heap of the stride lab holds the runnable processes in every run in which `kill` finds none of
them runnable or asleep. -/
namespace LearnXv6.Sched.Stride
open Store Table

variable {s s' u : State} {p q : Slot} {n : ℕ} {S : Set Slot} {a : Action ℤ Empty} {es : List Slot}

lemma Rep.congr (h : Rep s S n) (hq : s'.queue = s.queue) : Rep s' S n :=
  ⟨by rw [hq, h.last], by rw [hq]; exact h.contents⟩

lemma scheduler_ok (h : Rep s s.runnable n) (hn : 1 ≤ n) :
    ∃ p s', scheduler s = .ok (dispatch p s', [p]) ∧ s.queue.heap 1 = some p ∧ p ∈ s.runnable ∧
      Moved s s' ∧ Rep s' (s.runnable \ {p}) (n - 1) ∧ (dispatch p s').runnable = s.runnable \ {p} ∧
      (BinaryHeap.Ordered (key s) n s.queue.heap → BinaryHeap.Ordered (key s') (n - 1) s'.queue.heap) := by
  obtain ⟨p, s', hs', hroot, hmem, hm, hrep, hord⟩ := leave_ok h hn
  have hlast : s.queue.last > 0 := by
    rw [h.last]
    omega
  have hstate : (s'.proc p).state = .RUNNABLE := by
    rw [hm.state]
    exact hmem
  refine ⟨p, s', ?_, hroot, hmem, hm, hrep, ?_, hord⟩
  · rw [scheduler, if_pos hlast, hs', ok_bind]
    dsimp only
    rw [if_pos hstate]
    rfl
  · ext q
    by_cases hqp : q = p
    · subst hqp
      simp [dispatch, mem_runnable]
    · simp [dispatch, mem_runnable, set_proc_of_ne hqp, hqp, hm.state]

lemma scheduler_empty (h : Rep s S n) (hn : ¬ 1 ≤ n) : scheduler s = .ok (s, []) := by
  have hlast : ¬ s.queue.last > 0 := by
    rw [h.last]
    omega
  rw [scheduler, if_neg hlast]
  rfl

/-- The heap holds the runnable processes. -/
def Inv (s : State) : Prop := ∃ n, Rep s s.runnable n

namespace Inv

lemma init : Inv init := by
  refine ⟨0, rfl, ?_⟩
  have hnone : Stride.init.runnable = ∅ := by
    ext p
    simp [mem_runnable, Stride.init, boot]
  rw [hnone, Set.image_empty, BinaryHeap.Contents, Set.Icc_eq_empty (by decide)]
  exact Set.bijOn_empty _

variable (h : Inv s)
include h

lemma congr (hq : s'.queue = s.queue) (hr : s'.runnable = s.runnable) : Inv s' := by
  obtain ⟨n, hn⟩ := h
  refine ⟨n, ?_⟩
  rw [hr]
  exact hn.congr hq

lemma same (hsame : Same s s') : Inv s' := h.congr hsame.queue hsame.runnable

lemma enter (hp : p ∉ s.runnable) (hq : u.queue = s.queue) (hr : u.runnable = Insert.insert p s.runnable) :
    ∃ s', enter p u = .ok s' ∧ Inv s' ∧ Moved u s' := by
  obtain ⟨n, hn⟩ := h
  obtain ⟨s', hs', hm, hrep, -⟩ := enter_ok (hn.congr hq) hp
  refine ⟨s', hs', ⟨n + 1, ?_⟩, hm⟩
  rw [hm.runnable, hr]
  exact hrep

lemma start (hp : p ∉ s.runnable) (hq : u.queue = s.queue) (hr : u.runnable = s.runnable) (tickets : ℤ) :
    ∃ s', start tickets p u = .ok s' ∧ Inv s' := by
  have hnew : (u.set p (started tickets)).runnable = Insert.insert p s.runnable := by
    ext q
    by_cases hqp : q = p
    · subst hqp
      simp [mem_runnable, started]
    · have : q ∈ u.runnable ↔ q ∈ s.runnable := by rw [hr]
      simpa [mem_runnable, set_proc_of_ne hqp, hqp] using this
  obtain ⟨s', hs', hinv, -⟩ := h.enter (u := u.set p (started tickets)) hp hq hnew
  exact ⟨s', hs', hinv⟩

lemma yield (hp : (s.proc p).state = .RUNNING) : ∃ s', yield p s = .ok s' ∧ Inv s' := by
  obtain ⟨n, hn⟩ := h
  have hnot : p ∉ s.runnable := by simp [mem_runnable, hp]
  obtain ⟨s', hs', hm, hrep, -⟩ := enter_ok hn hnot
  refine ⟨s'.setState p .RUNNABLE, ?_, n + 1, ?_⟩
  · rw [Stride.yield, hs']
    rfl
  · rw [setState_runnable_insert, hm.runnable]
    exact hrep.congr rfl

lemma wake (hp : (s.proc p).state = .SLEEPING) :
    ∃ s', wake p s = .ok s' ∧ Inv s' ∧ ∀ q, q ≠ p → (s'.proc q).state = (s.proc q).state := by
  obtain ⟨s', hs', hinv, hm⟩ := h.enter (p := p) (u := s.setState p .RUNNABLE)
    (by simp [mem_runnable, hp]) rfl setState_runnable_insert
  refine ⟨s', hs', hinv, fun q hq => ?_⟩
  rw [hm.state, setState_of_ne hq]

lemma sleep (hp : (s.proc p).state = .RUNNING) (chan : Option Chan) :
    ∃ s', sleep p chan s = .ok s' ∧ Inv s' := by
  let s1 := s.set p fun x => { x with chan := chan }
  have hsame : Same s s1 := Same.set (fun _ => rfl) fun _ => rfl
  have hstate : (s1.proc p).state = .RUNNING := by rw [hsame.state, hp]
  refine ⟨s1.setState p .SLEEPING, ?_, (h.same hsame).congr rfl ?_⟩
  · simp only [Stride.sleep]
    rw [if_neg (show ¬ (s1.proc p).state = .RUNNABLE by simp [hstate])]
    rfl
  · exact setState_runnable (by simp [hstate]) (by simp)

lemma kill (hrun : (s.proc p).state ≠ .RUNNABLE)
    (hsleep : (s.proc p).state ≠ .SLEEPING) : ∃ s', kill p s = .ok s' ∧ Inv s' := by
  let s1 := s.set p fun x => { x with killed := true }
  have hsame : Same s s1 := Same.set (fun _ => rfl) fun _ => rfl
  refine ⟨s1, ?_, h.same hsame⟩
  simp only [Stride.kill]
  rw [if_neg (show ¬ (s1.proc p).state = .RUNNABLE by rwa [hsame.state]), pure_bind,
    if_neg (show ¬ (s1.proc p).state = .SLEEPING by rwa [hsame.state])]
  rfl

lemma scheduler : ∃ s' es, scheduler s = .ok (s', es) ∧ Inv s' := by
  obtain ⟨n, hn⟩ := h
  by_cases hpos : 1 ≤ n
  · obtain ⟨p, s', hs', -, -, -, hrep, hrunnable, -⟩ := scheduler_ok hn hpos
    refine ⟨dispatch p s', [p], hs', n - 1, ?_⟩
    rw [hrunnable]
    exact hrep.congr rfl
  · exact ⟨s, [], scheduler_empty hn hpos, n, hn⟩

lemma allocproc : Inv (allocproc lab s) := by
  unfold Sched.allocproc
  split
  · exact h
  · rename_i p hfind
    have hunused := find?_slots hfind
    refine h.congr rfl ?_
    refine runnable_of_ne (p := p) ?_ (by simp [hunused]) (by simp)
    intro q hq
    simp only [set_proc_of_ne hq]

lemma wakeup1 (chan : Option Chan) : ∃ s', wakeup1 lab chan s = .ok s' ∧ Inv s' := by
  refine outcome_false.mp (wakeup1_outcome (fun q s hinv hq => outcome_false.mpr ?_) chan h)
  obtain ⟨s', hs', hinv', -⟩ := hinv.wake hq
  exact ⟨s', hs', hinv'⟩

lemma exit (hp : (s.proc p).state = .RUNNING) : ∃ s', exit lab p s = .ok s' ∧ Inv s' := by
  have hwake : ∀ q s, Inv s ∧ (s.proc p).state = .RUNNING → (s.proc q).state = .SLEEPING →
      Outcome (fun _ => False) (fun s => Inv s ∧ (s.proc p).state = .RUNNING) (lab.wake q s) := by
    rintro q s ⟨hinv, hrun⟩ hq
    obtain ⟨s', hs', hinv', hothers⟩ := hinv.wake hq
    have hne : p ≠ q := by
      rintro rfl
      rw [hrun] at hq
      cases hq
    exact outcome_false.mpr ⟨s', hs', hinv', by rw [hothers p hne, hrun]⟩
  have hparent : ∀ q (s : State) parent, Inv s ∧ (s.proc p).state = .RUNNING →
      Inv (s.set q fun x => { x with parent := parent }) ∧
        ((s.set q fun x => { x with parent := parent }).proc p).state = .RUNNING := by
    intro q s parent hj
    have hsame : Same s (s.set q fun x => { x with parent := parent }) :=
      Same.set (fun _ => rfl) fun _ => rfl
    exact ⟨hj.1.same hsame, by rw [hsame.state, hj.2]⟩
  obtain ⟨s', hs', u, rfl, hinv, hrun⟩ :=
    outcome_false.mp (exit_outcome (p := p) hwake hparent ⟨h, hp⟩)
  exact ⟨_, hs', hinv.congr rfl (setState_runnable (by simp [hrun]) (by simp))⟩

lemma wait (hp : (s.proc p).state = .RUNNING) : ∃ s', wait lab p s = .ok s' ∧ Inv s' := by
  unfold Sched.wait
  split
  · rename_i q hfind
    obtain ⟨-, hzombie⟩ := find?_slots hfind
    refine ⟨_, rfl, h.congr rfl (runnable_of_ne (p := q) ?_ (by simp [hzombie]) (by simp))⟩
    intro r hr
    rw [set_proc_of_ne hr]
  · split
    · exact ⟨s, rfl, h⟩
    · exact h.sleep hp _

end Inv

/-- A `kill` finds its process, if any, neither runnable nor asleep. -/
def Spares (s : State) (a : Action ℤ Empty) : Prop :=
  ∀ pid p, a = .kill pid → (slots.find? fun p => (s.proc p).pid = pid) = some p →
    (s.proc p).state ≠ .RUNNABLE ∧ (s.proc p).state ≠ .SLEEPING

lemma quiet_ok {r : Except Fault State} (h : ∃ s', r = .ok s' ∧ Inv s')
    (hs : quiet r = .ok (s', es)) : Inv s' := by
  obtain ⟨s1, rfl, hinv⟩ := h
  cases hs
  exact hinv

lemma Inv.step (h : Inv s) (ha : Spares s a) (hs : step lab a s = .ok (s', es)) : Inv s' := by
  cases a with
  | allocproc =>
    cases hs
    exact h.allocproc
  | noMemory np =>
    obtain ⟨hnp, hs⟩ := when_ok hs
    cases hs
    exact h.congr rfl (setState_runnable (by simp [hnp]) (by simp))
  | userinit p =>
    obtain ⟨⟨hp, -⟩, hs⟩ := when_ok hs
    have hsame : Same s { s with initproc := some p } := ⟨rfl, fun _ => rfl, fun _ => rfl⟩
    exact quiet_ok (h.start (by simp [mem_runnable, hp]) hsame.queue hsame.runnable _) hs
  | fork curproc np tickets =>
    obtain ⟨⟨-, hnp⟩, hs⟩ := when_ok hs
    have hsame : Same s (s.set np fun x => { x with parent := some curproc }) :=
      Same.set (fun _ => rfl) fun _ => rfl
    exact quiet_ok (h.start (by simp [mem_runnable, hnp]) hsame.queue hsame.runnable _) hs
  | scheduler =>
    obtain ⟨s1, es1, hs1, hinv⟩ := h.scheduler
    have : step lab .scheduler s = .ok (s1, es1) := by
      simp only [Sched.step]
      rw [show lab.scheduler s = .ok (s1, es1) from hs1]
    rw [this] at hs
    cases hs
    exact hinv
  | yield curproc =>
    obtain ⟨hp, hs⟩ := when_ok hs
    exact quiet_ok (h.yield hp) hs
  | sleep curproc chan =>
    obtain ⟨hp, hs⟩ := when_ok hs
    exact quiet_ok (h.sleep hp _) hs
  | wakeup chan => exact quiet_ok (h.wakeup1 _) hs
  | kill pid =>
    simp only [Sched.step] at hs
    split at hs
    · rename_i p hfind
      obtain ⟨hrun, hsleep⟩ := ha pid p rfl hfind
      exact quiet_ok (h.kill hrun hsleep) hs
    · cases hs
      exact h
  | exit curproc =>
    obtain ⟨hp, hs⟩ := when_ok hs
    split at hs
    · cases hs
    · exact quiet_ok (h.exit hp) hs
  | wait curproc =>
    obtain ⟨hp, hs⟩ := when_ok hs
    exact quiet_ok (h.wait hp) hs
  | call x => exact x.elim

/-- The entries `heap[1..last]` are distinct, and they are the runnable processes. -/
structure HeapIsRunnable (s : State) : Prop where
  distinct : ∀ i j : ℕ, 1 ≤ i → i ≤ s.queue.last → 1 ≤ j → j ≤ s.queue.last →
    s.queue.heap i = s.queue.heap j → i = j
  runnable : ∀ i : ℕ, 1 ≤ i → i ≤ s.queue.last →
    ∃ p, s.queue.heap i = some p ∧ (s.proc p).state = .RUNNABLE
  entered : ∀ p, (s.proc p).state = .RUNNABLE →
    ∃ i : ℕ, 1 ≤ i ∧ i ≤ s.queue.last ∧ s.queue.heap i = some p

lemma Inv.heapIsRunnable (h : Inv s) : HeapIsRunnable s := by
  obtain ⟨n, hlast, hmaps, hinj, hsurj⟩ := h
  constructor
  all_goals simp only [hlast, Nat.cast_le]
  · intro i j hi1 hin hj1 hjn heq
    exact hinj ⟨hi1, hin⟩ ⟨hj1, hjn⟩ heq
  · intro i h1 hn
    obtain ⟨p, hp, heq⟩ := hmaps (⟨h1, hn⟩ : i ∈ Set.Icc 1 n)
    exact ⟨p, heq.symm, hp⟩
  · intro p hp
    obtain ⟨i, ⟨h1, hn⟩, heq⟩ := hsurj ⟨p, hp, rfl⟩
    exact ⟨i, h1, hn, heq⟩

/-- In every run whose kills spare the runnable and the sleeping, the heap holds the runnable
processes. -/
theorem heap_is_runnable (h : Run (step lab) Spares init es s) : HeapIsRunnable s :=
  Inv.heapIsRunnable (h.invariant (fun _ _ _ _ hi ha hs => hi.step ha hs) Inv.init)

/-- A process forks and waits for its child. -/
def family : List (Action ℤ Empty) :=
  [.allocproc, .userinit 0, .scheduler, .allocproc, .fork 0 1 100, .wait 0, .scheduler]

/-- The child kills itself and exits, which wakes the parent. -/
theorem family_heap : ∃ s : State, (s.proc 1).killed = true ∧ s.queue.last = 1 ∧ s.queue.heap 1 = some 0 ∧
    HeapIsRunnable s := by
  have hrun : Run (step lab) Spares init _ _ := Run.of_runList family rfl (by
    rintro s a ha pid p rfl
    simp [family] at ha)
  have hkilled := hrun.tail (a := .kill 2) (by
    rintro pid p ⟨⟩ hp
    cases hp
    exact ⟨by decide, by decide⟩) rfl
  have hexited := hkilled.tail (a := .exit 1) (by rintro pid p ⟨⟩) rfl
  exact ⟨_, rfl, rfl, rfl, heap_is_runnable hexited⟩

/-- A process kills its runnable child. -/
def doomed : List (Action ℤ Empty) :=
  [.allocproc, .userinit 0, .scheduler, .allocproc, .fork 0 1 100, .kill 2]

theorem doomed_lost : ∃ (es : List Slot) (s : State),
    Run (step lab) (fun _ _ => True) init es s ∧ (s.proc 1).state = .RUNNABLE ∧
      s.queue.last = 0 ∧ ¬ HeapIsRunnable s := by
  refine ⟨_, _, Run.of_runList doomed rfl fun _ _ _ => trivial, rfl, rfl, fun h => ?_⟩
  obtain ⟨i, h1, hi, -⟩ := h.entered 1 rfl
  have : (i : ℤ) ≤ 0 := hi
  omega

end LearnXv6.Sched.Stride
