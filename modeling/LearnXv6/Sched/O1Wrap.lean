import LearnXv6.Sched.O1Moves

/-! A run of the O(1) lab in which the counters of a queue that never gets used up come to the end of
the `int`s. -/
namespace LearnXv6.Sched.O1
open Function Store Container

variable {s : State} {p : Slot} {i a b : ℕ} {n : ℤ}

def Container.opened (c : Container) (i : ℕ) : Container :=
  if c.validity i then c else addQueue c i i

def Container.enter (c : Container) (i : ℕ) (p : Slot) : Container :=
  let last := wrap ((c.queue i).last + 1)
  c.setQueue i { c.queue i with
    last := last
    procs := update (c.queue i).procs (last.tmod NPROC).toNat (some p) }

def Container.leave (c : Container) (i : ℕ) : Container :=
  c.setQueue i { c.queue i with pos := wrap ((c.queue i).pos + 1) }

def Container.drop (c : Container) (i : ℕ) : Container :=
  { c with validity := update c.validity i false, actualQueue := (c.queue i).next }

lemma insertRunnable_eq {w : Which} (hp : (s.proc p).state = .RUNNABLE)
    (hprio : (s.proc p).lab.priority = i) (hi : i < MAX_PRIORITY)
    (hlast : 0 ≤ (wrap ((((s.queue w).opened i).queue i).last + 1)).tmod NPROC) :
    insertRunnable p w s = .ok (setContainer s w (((s.queue w).opened i).enter i p)) := by
  rw [insertRunnable, if_neg (not_not.mpr hp), hprio]
  have hget : getQueue (s.queue w) i = .ok (i, (s.queue w).opened i) := by
    rw [getQueue, queueIndex_ok hi]
    rfl
  rw [hget, ok_bind]
  simp only [addProcToQueue, procsIndex]
  rw [if_pos hlast]
  rfl

/-- One entry of the table and the active container change. -/
structure Effect (s s' : State) (p : Slot) (x : Proc Fields) (c : Container) : Prop where
  proc : s'.proc = update s.proc p x
  active : s'.queue .active = c
  nextpid : s'.nextpid = s.nextpid

lemma Effect.mk_set (f : Proc Fields → Proc Fields) (c : Container) :
    Effect s (setContainer (s.set p f) .active c) p (f (s.proc p)) c :=
  ⟨rfl, by simp [setContainer], rfl⟩

lemma step_fork (curproc : Slot) (hcur : (s.proc curproc).state = .RUNNING)
    (hp : (s.proc p).state = .EMBRYO) (hprio : (s.proc p).lab.priority = i) (hi : i < MAX_PRIORITY)
    (hlast : 0 ≤ (wrap ((((s.queue .active).opened i).queue i).last + 1)).tmod NPROC) :
    ∃ s', step lab (.fork curproc p ()) s = .ok (s', []) ∧
      Effect s s' p { s.proc p with parent := some curproc, state := .RUNNABLE }
        (((s.queue .active).opened i).enter i p) := by
  have hset : (s.set p fun x => { x with parent := some curproc }).setState p .RUNNABLE =
      s.set p fun x => { x with parent := some curproc, state := .RUNNABLE } := by
    simp [Table.setState, Table.set]
  have hins := insertRunnable_eq (p := p)
    (s := s.set p fun x => { x with parent := some curproc, state := .RUNNABLE }) (by simp)
    (by simpa using hprio) hi hlast
  refine ⟨_, ?_, Effect.mk_set (fun x => { x with parent := some curproc, state := .RUNNABLE }) _⟩
  simp only [step, when, hcur, hp, and_self, if_true, lab, fork, insertActive]
  rw [hset, hins]
  rfl

lemma step_yield (hp : (s.proc p).state = .RUNNING) (hprio : (s.proc p).lab.priority = i)
    (hi : i < MAX_PRIORITY) (hcicle : (s.proc p).lab.ncicle.tmod (i + 1) = 0)
    (hlast : 0 ≤ (wrap ((((s.queue .active).opened i).queue i).last + 1)).tmod NPROC) :
    ∃ s', step lab (.yield p) s = .ok (s', []) ∧
      Effect s s' p (ready (s.proc p)) (((s.queue .active).opened i).enter i p) := by
  have hset : (s.setState p .RUNNABLE).set p (fun x => { x with
      lab := { x.lab with ncicle := wrap ((s.proc p).lab.ncicle + 1) } }) = s.set p ready := by
    simp [Table.setState, Table.set, ready]
  have hwrap : wrap ((i : ℤ) + 1) = i + 1 := by
    refine wrap_eq (by omega) ?_
    unfold MAX_PRIORITY at hi
    unfold INT_MAX
    omega
  have hins := insertRunnable_eq (p := p) (s := s.set p ready)
    (by simp [ready]) (by simpa [ready] using hprio) hi hlast
  have hready : (ready (s.proc p)).lab.priority = i := hprio
  refine ⟨_, ?_, Effect.mk_set ready _⟩
  simp only [step, when, hp, if_true, lab, yield, insertExpired, Table.setState_lab]
  rw [hset, Table.set_proc_self, hready, hwrap, if_neg (by omega), if_pos hcicle, hins]
  rfl

section

variable (hact : (s.queue .active).actualQueue = some a)
include hact

section

variable (hpos : ((s.queue .active).queue a).pos ≤ ((s.queue .active).queue a).last)
    (hindex : 0 ≤ ((s.queue .active).queue a).pos.tmod NPROC)
include hpos hindex

lemma getNextProcFuel_take {n : ℕ} : getNextProcFuel (n + 1) s = .ok (((s.queue .active).queue a).procs
        (((s.queue .active).queue a).pos.tmod NPROC).toNat,
      setContainer s .active ((s.queue .active).leave a), []) := by
  simp only [getNextProcFuel, nonempty, hact, fromQueue, takeProc, procsIndex]
  rw [if_neg (by omega), if_pos hindex]
  rfl

lemma step_take (hp : ((s.queue .active).queue a).procs
      (((s.queue .active).queue a).pos.tmod NPROC).toNat = some p) :
    ∃ s', step lab .scheduler s = .ok (s', [.returned p]) ∧
      Effect s s' p { s.proc p with state := .RUNNING, chan := none }
        ((s.queue .active).leave a) := by
  refine ⟨_, ?_, Effect.mk_set (fun x => { x with state := .RUNNING, chan := none }) _⟩
  simp only [step, lab, scheduler, getNextProc]
  rw [getNextProcFuel_take hact hpos hindex, hp]
  rfl

end

lemma step_drop_take (husedUp : ((s.queue .active).queue a).pos > ((s.queue .active).queue a).last)
    (ha : a < MAX_PRIORITY) (hprio : ((s.queue .active).queue a).priority = a)
    (hnext : ((s.queue .active).queue a).next = some b)
    (hpos : ((s.queue .active).queue b).pos ≤ ((s.queue .active).queue b).last)
    (hindex : 0 ≤ ((s.queue .active).queue b).pos.tmod NPROC) (hp : ((s.queue .active).queue b).procs
      (((s.queue .active).queue b).pos.tmod NPROC).toNat = some p) :
    ∃ s', step lab .scheduler s = .ok (s', [.returned p]) ∧
      Effect s s' p { s.proc p with state := .RUNNING, chan := none }
        (((s.queue .active).drop a).leave b) := by
  have hset : setNextQueue s = .ok (setContainer s .active ((s.queue .active).drop a), []) := by
    simp only [setNextQueue, hact]
    rw [hprio, queueIndex_ok ha, ok_bind, hnext, drop, hnext]
    rfl
  have hdrop : (setContainer s .active ((s.queue .active).drop a)).queue .active =
      (s.queue .active).drop a := by simp [setContainer]
  have htake := getNextProcFuel_take (n := 2 * MAX_PRIORITY - 1)
    (by rw [hdrop]; exact hnext)
    (by rw [hdrop]; exact hpos) (by rw [hdrop]; exact hindex)
  rw [hdrop] at htake
  have hqueue : ((s.queue .active).drop a).queue = (s.queue .active).queue := rfl
  rw [hqueue, hp] at htake
  have hget : getNextProc s = .ok (some p,
      setContainer s .active (((s.queue .active).drop a).leave b), []) := by
    rw [getNextProc, show 2 * MAX_PRIORITY + 1 = (2 * MAX_PRIORITY - 1 + 1) + 1 from rfl]
    rw [getNextProcFuel]
    simp only [nonempty, hact, fromQueue]
    rw [if_pos husedUp, hset, ok_bind]
    dsimp only
    rw [htake]
    simp [setContainer, bind, Except.bind, pure, Except.pure]
  refine ⟨_, ?_, Effect.mk_set (fun x => { x with state := .RUNNING, chan := none }) _⟩
  simp only [step, lab, scheduler]
  rw [hget]
  rfl

end

lemma step_call (pid x : ℤ) (hp : (slots.find? fun q => (s.proc q).pid = pid) = some p) :
    ∃ s', step lab (.call ⟨pid, x⟩) s = .ok (s', []) ∧
      Effect s s' p { s.proc p with lab := { (s.proc p).lab with priority := x } }
        (s.queue .active) := by
  refine ⟨s.set p fun y => { y with lab := { y.lab with priority := x } }, ?_, rfl, rfl, rfl⟩
  simp only [step, lab, setpriority]
  rw [hp]
  rfl

lemma slots_eq : ∃ l, slots = 0 :: 1 :: 2 :: l := ⟨_, rfl⟩

/-! The process in entry 0 changes its priority to and fro between 0 and 1, so that the queue of
priority 1 is never found used up. -/

/-- The queue of priority 1 comes first, and is used up as far as `n`. -/
structure Turn (n : ℤ) (s : State) : Prop where
  actual : (s.queue .active).actualQueue = some 1
  closed : (s.queue .active).validity 0 = false
  valid : (s.queue .active).validity 1 = true
  queue : ((s.queue .active).queue 1).priority = 1
  last : ((s.queue .active).queue 1).last = n
  pos : ((s.queue .active).queue 1).pos = wrap (n + 1)

structure Lap (n : ℤ) (s : State) : Prop extends Turn n s where
  state : (s.proc 0).state = .RUNNING
  pid : (s.proc 0).pid = 1
  priority : (s.proc 0).lab.priority = 1
  odd : (s.proc 0).lab.ncicle % 2 = 1

/-- It runs with priority 0, and has used up the queue of priority 0. -/
structure HalfLap (n : ℤ) (s : State) : Prop where
  state : (s.proc 0).state = .RUNNING
  pid : (s.proc 0).pid = 1
  even : (s.proc 0).lab.ncicle % 2 = 0
  actual : (s.queue .active).actualQueue = some 0
  valid : (s.queue .active).validity 1 = true
  queue : ((s.queue .active).queue 1).priority = 1
  first : ((s.queue .active).queue 0).priority = 0 ∧ ((s.queue .active).queue 0).next = some 1 ∧
    ((s.queue .active).queue 0).pos > ((s.queue .active).queue 0).last
  last : ((s.queue .active).queue 1).last = n
  pos : ((s.queue .active).queue 1).pos = wrap (n + 1)

structure Frame (s s' : State) : Prop where
  proc : ∀ p, p ≠ 0 → s'.proc p = s.proc p
  nextpid : s'.nextpid = s.nextpid

lemma wrap_emod_two (x : ℤ) : wrap x % 2 = x % 2 := by
  have hmod : x.bmod (2 ^ 32) % ((2 ^ 32 : ℕ) : ℤ) = x % ((2 ^ 32 : ℕ) : ℤ) := Int.bmod_emod
  unfold wrap
  omega

lemma opened_valid {c : Container} (h : c.validity i = true) : c.opened i = c := by
  simp [opened, h]

/-- Each action finds the other entries as they are in `s`, and no call takes a priority out of
range. -/
def Elsewhere (s u : State) (a : Act) : Prop := Frame s u ∧ InRangeCall a

lemma Frame.refl : Frame s s := ⟨fun _ _ => rfl, rfl⟩

lemma Frame.effect {u v : State} {x : Proc Fields} {c : Container} (h : Frame s u)
    (he : Effect u v 0 x c) : Frame s v := by
  refine ⟨fun p hp => ?_, by rw [he.nextpid, h.nextpid]⟩
  rw [he.proc, update_of_ne hp, h.proc p hp]

lemma Frame.trans {u v : State} (h : Frame s u) (h' : Frame u v) : Frame s v :=
  ⟨fun p hp => by rw [h'.proc p hp, h.proc p hp], by rw [h'.nextpid, h.nextpid]⟩

lemma Lap.half (h : Lap n s) : ∃ s', Run (step lab) (Elsewhere s) s [.returned 0] s' ∧
    HalfLap n s' ∧ Frame s s' ∧ ((s'.queue .active).queue 1).procs = ((s.queue .active).queue 1).procs := by
  obtain ⟨l, hl⟩ := slots_eq
  -- the queue of the higher rank becomes the first one
  have hopened : (s.queue .active).opened 0 = ⟨update (s.queue .active).validity 0 true, update (s.queue .active).queue 0
      { initQueue ((s.queue .active).queue 0) 0 with next := some 1 }, some 0⟩ := by
    simp [opened, h.closed, addQueue, h.actual, setQueue, h.queue]
  obtain ⟨s1, h1, e1⟩ := step_call (s := s) (p := 0) 1 0 (by rw [hl]; simp [h.pid])
  obtain ⟨s2, h2, e2⟩ := step_yield (s := s1) (p := 0) (i := 0) (by simp [e1.proc, h.state])
    (by simp [e1.proc]) (by decide) (by simp)
    (by rw [e1.active, hopened]; simp [initQueue, wrap])
  rw [e1.active, hopened] at e2
  obtain ⟨s3, h3, e3⟩ := step_take (a := 0) (p := 0) (s := s2)
    (by simp [e2.active, enter, setQueue])
    (by simp [e2.active, enter, setQueue, initQueue, wrap])
    (by simp [e2.active, enter, setQueue, initQueue])
    (by simp [e2.active, enter, setQueue, initQueue, wrap])
  have hf1 := Frame.refl.effect e1
  have hf2 := hf1.effect e2
  have c1 : InRangeCall (.call ⟨1, 0⟩) := by decide
  have c2 : InRangeCall (.yield 0) := by decide
  have c3 : InRangeCall .scheduler := by decide
  refine ⟨s3, .tail (.tail (.tail .refl ⟨.refl, c1⟩ h1) ⟨hf1, c2⟩ h2) ⟨hf2, c3⟩ h3, ?_,
    hf2.effect e3, ?_⟩
  · constructor
    · simp [e3.proc]
    · simp [e3.proc, e2.proc, e1.proc, ready, h.pid]
    · have := h.odd
      simp only [e3.proc, e2.proc, e1.proc, ready, update_self, wrap_emod_two]
      omega
    all_goals simp [e3.active, e2.active, leave, setQueue, enter,
      initQueue, wrap, h.valid, h.queue, h.last, h.pos]
  · simp [e3.active, e2.active, leave, setQueue, enter]

lemma HalfLap.next (h : HalfLap n s) (hn : 0 ≤ n) (hmax : n + 1 ≤ INT_MAX) :
    ∃ s', Run (step lab) (Elsewhere s) s [.returned 0] s' ∧ Lap (n + 1) s' ∧ Frame s s' ∧
      ((n + 1) % NPROC ≠ 0 → ((s'.queue .active).queue 1).procs 0 = ((s.queue .active).queue 1).procs 0) := by
  obtain ⟨l, hl⟩ := slots_eq
  have hwrap := wrap_eq (by omega) hmax
  have hmod : (n + 1).tmod NPROC = (n + 1) % NPROC := Int.tmod_eq_emod_of_nonneg (by omega)
  have hnonneg : 0 ≤ (n + 1) % (NPROC : ℤ) := Int.emod_nonneg _ (by decide)
  obtain ⟨s1, h1, e1⟩ := step_call (s := s) (p := 0) 1 1 (by rw [hl]; simp [h.pid])
  have hopened : (s1.queue .active).opened 1 = s.queue .active := by
    rw [e1.active, opened_valid h.valid]
  obtain ⟨s2, h2, e2⟩ := step_yield (s := s1) (p := 0) (i := 1) (by simp [e1.proc, h.state])
    (by simp [e1.proc]) (by decide) (by
      simp only [e1.proc, update_self]
      exact Int.tmod_eq_zero_of_dvd (Int.dvd_of_emod_eq_zero h.even))
    (by rw [hopened, h.last, hwrap, hmod]; exact hnonneg)
  rw [hopened] at e2
  obtain ⟨s3, h3, e3⟩ := step_drop_take (a := 0) (b := 1) (p := 0) (s := s2)
    (by simp [e2.active, enter, setQueue, h.actual])
    (by simpa [e2.active, enter, setQueue] using h.first.2.2)
    (by decide)
    (by simp [e2.active, enter, setQueue, h.first.1])
    (by simp [e2.active, enter, setQueue, h.first.2.1])
    (by simp [e2.active, enter, setQueue, h.pos, h.last])
    (by
      simp only [e2.active, enter, setQueue, update_self, h.pos, hwrap, hmod]
      exact hnonneg)
    (by simp [e2.active, enter, setQueue, h.pos, h.last])
  have hf1 := Frame.refl.effect e1
  have hf2 := hf1.effect e2
  have c1 : InRangeCall (.call ⟨1, 1⟩) := by decide
  have c2 : InRangeCall (.yield 0) := by decide
  have c3 : InRangeCall .scheduler := by decide
  refine ⟨s3, .tail (.tail (.tail .refl ⟨.refl, c1⟩ h1) ⟨hf1, c2⟩ h2) ⟨hf2, c3⟩ h3, ?_,
    hf2.effect e3, ?_⟩
  · refine ⟨⟨?_, ?_, ?_, ?_, ?_, ?_⟩, ?_, ?_, ?_, ?_⟩
    rotate_right 4
    · simp [e3.proc]
    · simp [e3.proc, e2.proc, e1.proc, ready, h.pid]
    · simp [e3.proc, e2.proc, e1.proc, ready]
    · have := h.even
      simp only [e3.proc, e2.proc, e1.proc, ready, update_self, wrap_emod_two]
      omega
    all_goals simp [e3.active, e2.active, leave, drop, setQueue,
      enter, h.first, h.valid, h.queue, h.last, h.pos, hwrap]
  · intro hne
    simp only [e3.active, e2.active, leave, drop, setQueue, enter, update_self, h.last, hwrap, hmod]
    rw [update_of_ne (by omega)]

/-- It goes through `k` laps. The first place of the ring keeps its entry until the ring comes round
to it. -/
lemma Lap.laps (h : Lap n s) (hn : 0 ≤ n) (k : ℕ) (hmax : n + k ≤ INT_MAX) :
    ∃ es s', Run (step lab) (Elsewhere s) s es s' ∧ Lap (n + k) s' ∧ Frame s s' ∧
      (∀ e ∈ es, e = .returned 0) ∧
      ((∀ j, n < j → j ≤ n + k → j % NPROC ≠ 0) → ((s'.queue .active).queue 1).procs 0 =
        ((s.queue .active).queue 1).procs 0) := by
  induction k with
  | zero => exact ⟨[], s, .refl, by simpa using h, .refl, by simp, fun _ => rfl⟩
  | succ k ih =>
    push_cast at hmax
    obtain ⟨es, s1, hrun1, hlap1, hf1, hes, hring1⟩ := ih (by omega)
    obtain ⟨s2, hrun2, hhalf, hf2, hring2⟩ := hlap1.half
    obtain ⟨s3, hrun3, hlap, hf3, hring3⟩ := hhalf.next (by omega) (by omega)
    have hf := hf1.trans hf2
    have hrun2' := hrun1.trans (hrun2.mono fun u a hu => ⟨hf1.trans hu.1, hu.2⟩)
    have hrun3' := hrun2'.trans (hrun3.mono fun u a hu => ⟨hf.trans hu.1, hu.2⟩)
    refine ⟨_, s3, hrun3', ?_, hf.trans hf3, ?_, fun hj => ?_⟩
    · push_cast
      rwa [← add_assoc]
    · intro e he
      simp only [List.mem_append, List.mem_singleton] at he
      rcases he with (he | he) | he
      · exact hes e he
      · exact he
      · exact he
    · push_cast at hj
      rw [hring3 (hj _ (by omega) (by omega)), hring2]
      exact hring1 fun j h1 h2 => hj j h1 (by omega)

/-- The first process and a second one run. The first one takes priority 1 and yields. -/
def warmUp : List Act :=
  [.allocproc, .userinit 0, .scheduler, .allocproc, .fork 0 1 (), .scheduler, .call ⟨1, 1⟩, .yield 0,
    .scheduler]

lemma warmUp_lap : ∃ es s, Run (step lab) (fun _ a => InRangeCall a) init es s ∧ Lap 0 s ∧
    (s.proc 1).state = .RUNNING ∧ (s.proc 1).pid = 2 ∧ (s.proc 2).state = .UNUSED ∧ s.nextpid = 3 :=
  ⟨_, _, Run.of_allowed warmUp rfl (by decide +kernel),
    ⟨⟨rfl, rfl, rfl, rfl, rfl, rfl⟩, rfl, rfl, rfl, rfl⟩, rfl, rfl, rfl, rfl⟩

lemma Turn.pass {s1 : State} {x : Proc Fields} (h : Turn n s) (hn : 0 ≤ n) (hmax : n + 1 ≤ INT_MAX)
    (he : Effect s s1 p x (((s.queue .active).opened 1).enter 1 p)) :
    ∃ s2, step lab .scheduler s1 = .ok (s2, [.returned p]) ∧ Turn (n + 1) s2 ∧
      s2.proc = update s.proc p { x with state := .RUNNING, chan := none } ∧
      ((s2.queue .active).queue 1).procs =
        update ((s.queue .active).queue 1).procs ((n + 1) % NPROC).toNat (some p) := by
  have hwrap := wrap_eq (by omega) hmax
  have hmod : (n + 1).tmod NPROC = (n + 1) % NPROC := Int.tmod_eq_emod_of_nonneg (by omega)
  have hnonneg : 0 ≤ (n + 1) % (NPROC : ℤ) := Int.emod_nonneg _ (by decide)
  rw [opened_valid h.valid] at he
  obtain ⟨s2, hs2, he2⟩ := step_take (p := p)
    (by rw [he.active]; exact h.actual)
    (by simp [he.active, enter, setQueue, h.pos, h.last])
    (by simpa [he.active, enter, setQueue, h.pos, hwrap, hmod] using hnonneg)
    (by simp [he.active, enter, setQueue, h.pos, h.last])
  refine ⟨s2, hs2, ⟨?_, ?_, ?_, ?_, ?_, ?_⟩, by simp [he2.proc, he.proc], ?_⟩
  all_goals simp [he2.active, he.active, leave, setQueue, enter,
    h.actual, h.closed, h.valid, h.queue, h.last, h.pos, hwrap, hmod]

/-- A process with priority 1 is forked near the end of the counters. It is returned, yields and is
returned again, and the first place of the ring is left to it. -/
lemma Lap.visit (h : Lap (INT_MAX - 65) s) (h1 : (s.proc 1).state = .RUNNING)
    (h1pid : (s.proc 1).pid = 2) (h2 : (s.proc 2).state = .UNUSED) (hnext : s.nextpid = 3) :
    ∃ s0 s', Run (step lab) (fun _ a => InRangeCall a) s [] s0 ∧
      Run (step lab) (fun u a => ((u.proc 2).pid = 3 ∧ (u.proc 2).lab.priority = 1) ∧ InRangeCall a)
        s0 [.returned 2, .returned 2] s' ∧
      Lap (INT_MAX - 63) s' ∧ ((s'.proc 2).pid = 3 ∧ (s'.proc 2).lab.priority = 1) ∧
      (s'.proc 2).state = .RUNNING ∧ ((s'.queue .active).queue 1).procs 0 = some 2 := by
  obtain ⟨l, hl⟩ := slots_eq
  have hfind : (slots.find? fun p => (s.proc p).state = .UNUSED) = some 2 := by
    rw [hl]
    simp [h.state, h1, h2]
  obtain ⟨s1, hs1, hq1, hp1⟩ : ∃ s1, step lab .allocproc s = .ok (s1, []) ∧ s1.queue = s.queue ∧
      s1.proc = update s.proc 2
        { s.proc 2 with state := .EMBRYO, lab := ⟨10, 0⟩, pid := 3 } := by
    refine ⟨allocproc lab s, rfl, ?_, ?_⟩
    · simp [allocproc, hfind]
    · simp [allocproc, hfind, lab, Table.set, hnext]
  obtain ⟨s2, hs2, e2⟩ := step_call (p := 2) 3 1 (by
    rw [hl, hp1]
    simp [h.pid, h1pid])
  have hturn : Turn (INT_MAX - 65) s2 := by
    have ha : s2.queue .active = s.queue .active := by rw [e2.active, hq1]
    refine ⟨?_, ?_, ?_, ?_, ?_, ?_⟩
    all_goals rw [ha]
    exacts [h.actual, h.closed, h.valid, h.queue, h.last, h.pos]
  obtain ⟨s3, hs3, e3⟩ := step_fork (s := s2) (p := 2) (i := 1) 0
    (by simp [e2.proc, hp1, h.state]) (by simp [e2.proc, hp1]) (by simp [e2.proc]) (by decide)
    (by rw [opened_valid hturn.valid, hturn.last]; decide)
  obtain ⟨s4, hs4, hturn4, hp4, -⟩ := hturn.pass (by decide) (by decide) e3
  obtain ⟨s5, hs5, e5⟩ := step_yield (s := s4) (p := 2) (i := 1) (by simp [hp4])
    (by simp [hp4, e2.proc]) (by decide) (by simp [hp4, e2.proc, hp1])
    (by rw [opened_valid hturn4.valid, hturn4.last]; decide)
  obtain ⟨s6, hs6, hturn6, hp6, hring⟩ := hturn4.pass (by decide) (by decide) e5
  have k2 : (s2.proc 2).pid = 3 ∧ (s2.proc 2).lab.priority = 1 := by simp [e2.proc, hp1]
  have k3 : (s3.proc 2).pid = 3 ∧ (s3.proc 2).lab.priority = 1 := by simpa [e3.proc] using k2
  have k4 : (s4.proc 2).pid = 3 ∧ (s4.proc 2).lab.priority = 1 := by simpa [hp4] using k2
  have k5 : (s5.proc 2).pid = 3 ∧ (s5.proc 2).lab.priority = 1 := by simpa [e5.proc, ready] using k4
  have k6 : (s6.proc 2).pid = 3 ∧ (s6.proc 2).lab.priority = 1 := by simpa [hp6, ready] using k4
  refine ⟨s2, s6, .tail (.tail .refl (by decide) hs1) (by decide) hs2,
    .tail (.tail (.tail (.tail .refl ⟨k2, by decide⟩ hs3) ⟨k3, by decide⟩ hs4) ⟨k4, by decide⟩ hs5)
      ⟨k5, by decide⟩ hs6, ⟨hturn6, ?_, ?_, ?_, ?_⟩, k6, by simp [hp6], ?_⟩
  · simp [hp6, hp4, e2.proc, hp1, h.state]
  · simp [hp6, hp4, e2.proc, hp1, h.pid]
  · simp [hp6, hp4, e2.proc, hp1, h.priority]
  · simp [hp6, hp4, e2.proc, hp1, h.odd]
  · rw [hring]
    rfl

/-- A run at whose end `last` is the largest `int` and `pos` the smallest one. The process in entry 2,
which has been returned twice, is still in the first place of the ring. -/
lemma wrapped : ∃ es0 s0 es s, Run (step lab) (fun _ a => InRangeCall a) init es0 s0 ∧
    Run (step lab) (fun u a => ((u.proc 2).pid = 3 ∧ (u.proc 2).lab.priority = 1) ∧ InRangeCall a) s0 es s ∧
    .exchange ∉ es ∧ es.count (.returned 2) = 2 ∧ Turn INT_MAX s ∧ (s.proc 2).state = .RUNNING ∧
    ((s.proc 2).pid = 3 ∧ (s.proc 2).lab.priority = 1) ∧ ((s.queue .active).queue 1).procs 0 = some 2 := by
  obtain ⟨es1, s1, hrun1, hlap1, h1, h1pid, h2, hnext⟩ := warmUp_lap
  obtain ⟨es2, s2, hrun2, hlap2, hf2, -, -⟩ := hlap1.laps le_rfl (INT_MAX - 65).toNat (by decide)
  obtain ⟨s0, s3, hrun0, hrun3, hlap3, hkept, hstate, hring⟩ := Lap.visit hlap2
    (by rw [hf2.proc 1 (by decide), h1]) (by rw [hf2.proc 1 (by decide), h1pid])
    (by rw [hf2.proc 2 (by decide), h2]) (by rw [hf2.nextpid, hnext])
  obtain ⟨es4, s4, hrun4, hlap4, hf4, hes4, hring4⟩ := hlap3.laps (by decide) 63 (by decide)
  have hproc4 := hf4.proc 2 (by decide)
  refine ⟨_, s0, _, s4, (hrun1.trans (hrun2.mono fun u a hu => hu.2)).trans hrun0,
    hrun3.trans (hrun4.mono fun u a hu => ⟨?_, hu.2⟩), ?_, ?_, hlap4.toTurn, ?_, ?_, ?_⟩
  · rw [hu.1.proc 2 (by decide)]
    exact hkept
  · intro hmem
    rcases List.mem_append.mp hmem with hmem | hmem
    · simp at hmem
    · cases hes4 _ hmem
  · have hnone : es4.count (.returned 2) = 0 := by
      refine List.count_eq_zero.mpr fun hmem => ?_
      cases hes4 _ hmem
    rw [List.count_append, hnone]
    rfl
  · rw [hproc4, hstate]
  · rwa [hproc4]
  · rw [hring4 ?_, hring]
    intro j hlo hhi hmod
    simp only [INT_MAX, NPROC] at hlo hhi hmod
    omega

end LearnXv6.Sched.O1
