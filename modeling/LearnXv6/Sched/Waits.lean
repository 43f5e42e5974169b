import LearnXv6.Sched.Family

/-! Which process a call of `wait` reports: the history of forks and exits decides who may report a
process, and that it is reported once. -/
namespace LearnXv6.Sched.Compiled
open Function Store Policies List

variable {pol : Policy} {s s' : State} {a : Act} {es es' : List Event} {p q np c : Slot}
  {e : Event} {z : Generator}

/-- The parents of the pids after one more event: the children of a process that exits go to the first
process. -/
def grow (t : ℤ → Option ℤ) : Event → ℤ → Option ℤ
  | .forked parent child => update t child (some parent)
  | .exited pid => fun c => if t c = some pid then some 1 else t c
  | _ => t

/-- The process tree that a history of events makes. -/
def tree (es : List Event) : ℤ → Option ℤ := es.foldl grow fun _ => none

lemma tree_append (es : List Event) (e : Event) : tree (es ++ [e]) = grow (tree es) e := by
  simp [tree]

/-- Every pid that was reported belonged to a process that had exited, was a child of the process that
reports it, and had not been reported before. -/
def ReportedOnce (es : List Event) : Prop :=
  ∀ es₁ es₂ w c, es = es₁ ++ .waited w c :: es₂ →
    .exited c ∈ es₁ ∧ tree es₁ c = some w ∧ ∀ w', .waited w' c ∉ es₁

/-- What the history says about the processes of the table. -/
structure Recorded (es : List Event) (s : State) : Prop where
  range : ∀ p, (s.proc p).state ≠ .UNUSED → (s.proc p).pid < s.nextpid
  distinct : ∀ p q, (s.proc p).state ≠ .UNUSED → (s.proc q).state ≠ .UNUSED →
    (s.proc p).pid = (s.proc q).pid → p = q
  first : ∀ i, s.initproc = some i → (s.proc i).pid = 1
  parent : ∀ p q, Live (s.proc p).state ∨ (s.proc p).state = .ZOMBIE → s.initproc ≠ some p →
    (s.proc p).parent = some q → tree es (s.proc p).pid = some (s.proc q).pid
  zombie : ∀ p, (s.proc p).state = .ZOMBIE → .exited (s.proc p).pid ∈ es
  gone : ∀ w c, .waited w c ∈ es → c < s.nextpid ∧ ∀ p, (s.proc p).state ≠ .UNUSED →
    (s.proc p).pid ≠ c
  once : ReportedOnce es

lemma ReportedOnce.append (h : ReportedOnce es) (he : ∀ w c, e = .waited w c →
    .exited c ∈ es ∧ tree es c = some w ∧ ∀ w', .waited w' c ∉ es) : ReportedOnce (es ++ [e]) := by
  intro es1 es2 w c hes
  rcases eq_nil_or_concat es2 with rfl | ⟨es2, e', rfl⟩
  · obtain ⟨rfl, hlast⟩ := append_inj' hes rfl
    exact he w c (by simpa using hlast)
  · rw [concat_eq_append, ← cons_append, ← append_assoc] at hes
    obtain ⟨hes, -⟩ := append_inj' hes rfl
    exact h es1 es2 w c hes

lemma ReportedOnce.append_other (h : ReportedOnce es) (he : ∀ w c, e ≠ .waited w c) :
    ReportedOnce (es ++ [e]) := h.append fun w c hwc => absurd hwc (he w c)

section

variable (h : Recorded es s)
include h

lemma Recorded.calm (hc : Calm s s') : Recorded es s' := by
  have hlive p := (hc.proc p).live_iff
  have hstate {y : Procstate} (hy : ¬ Live y) p := (hc.proc p).state_iff hy
  have hpid p := (hc.proc p).pid
  have hpar p := (hc.proc p).parent
  have hunused := hstate (y := .UNUSED) (by decide)
  have hzombie := hstate (y := .ZOMBIE) (by decide)
  obtain ⟨hrange, hdistinct, hfirst, hparent, hzombies, hgone, honce⟩ := h
  refine ⟨?_, ?_, ?_, ?_, ?_, ?_, honce⟩
  all_goals simpa only [hc.initproc, hc.nextpid, hpid, hpar, hlive, hunused, hzombie, ne_eq]

lemma Recorded.picked (o : Option Slot) : Recorded (es ++ [.picked o]) s := by
  obtain ⟨hrange, hdistinct, hfirst, hparent, hzombies, hgone, honce⟩ := h
  refine ⟨hrange, hdistinct, hfirst, ?_, ?_, ?_, honce.append_other (by simp)⟩
  · rwa [tree_append]
  · simpa using hzombies
  · simpa using hgone

section

variable (hf : Family s)
include hf

lemma Recorded.alloc (hnp : unused s = some np) :
    Recorded es (moveTo p (.fork np) (allocproc pol s)) := by
  have hunused := unused_state hnp
  obtain ⟨i, hi, hilive, -⟩ := hf.init
  have hchild := hf.child
  rw [allocproc_of_unused hnp]
  refine ⟨?_, ?_, ?_, ?_, ?_, ?_, h.once⟩
  all_goals cases h
  all_goals simp only [moveTo, update_apply]
  all_goals grind [Live]

lemma Recorded.noMemory (hat : s.queue.position p = .fork np) :
    Recorded es (moveTo p .elsewhere (s.setState np .UNUSED)) := by
  obtain ⟨hembryo, -⟩ := hf.fork p np hat
  refine ⟨?_, ?_, ?_, ?_, ?_, ?_, h.once⟩
  all_goals cases h
  all_goals simp only [moveTo, Table.setState, Table.set, update_apply]
  all_goals grind [Live]

lemma Recorded.setParent (hat : s.queue.position p = .fork np) :
    Recorded es (moveTo p (.parent np) (s.set np fun x => { x with parent := some p })) := by
  obtain ⟨hembryo, -⟩ := hf.fork p np hat
  refine ⟨?_, ?_, ?_, ?_, ?_, ?_, h.once⟩
  all_goals cases h
  all_goals simp only [moveTo, Table.set, update_apply]
  all_goals grind [Live]

lemma Recorded.forked (hp : (s.proc p).state = .RUNNING)
    (hat : s.queue.position p = .parent np) : Recorded (es ++ [.forked (s.proc p).pid (s.proc np).pid])
      (moveTo p .elsewhere (s.setState np .RUNNABLE)) := by
  obtain ⟨hembryo, hnp⟩ := hf.parent p np hat
  obtain ⟨i, hi, hilive, -⟩ := hf.init
  refine ⟨?_, ?_, ?_, ?_, ?_, ?_, h.once.append_other (by simp)⟩
  all_goals cases h
  all_goals simp only [moveTo, Table.setState, Table.set, update_apply, tree_append, grow]
  all_goals grind [Live]

/-- The children of a process that exits get the first process as their parent, in the table and in the
tree. -/
lemma Recorded.exit (hp : (s.proc p).state = .RUNNING)
    (hinit : s.initproc ≠ some p) : Recorded (es ++ [.exited (s.proc p).pid]) (exited p s) := by
  have hstate {q} (hq : q ≠ p) := exited_state (s := s) hq
  have hpid q : ((exited p s).proc q).pid = (s.proc q).pid := (exited_proc p q s).1
  have hpar q := (exited_proc p q s).2.2.2
  have hused : ∀ q, ((exited p s).proc q).state ≠ .UNUSED → (s.proc q).state ≠ .UNUSED := by
    intro q hq
    by_cases hqp : q = p
    · rw [hqp, hp]
      decide
    · have := hstate hqp
      grind
  have hold : ∀ q, Live ((exited p s).proc q).state ∨ ((exited p s).proc q).state = .ZOMBIE →
      Live (s.proc q).state ∨ (s.proc q).state = .ZOMBIE := by
    intro q hq
    by_cases hqp : q = p
    · exact .inl (by rw [hqp, hp]; decide)
    · have := hstate hqp
      grind [Live]
  constructor
  · intro q hq
    rw [hpid]
    exact h.range q (hused q hq)
  · intro q r hq hr
    rw [hpid, hpid]
    exact h.distinct q r (hused q hq) (hused r hr)
  · intro i hi
    rw [hpid]
    exact h.first i hi
  · intro q r hq hqi hr
    obtain ⟨r', hr', hlive⟩ := hf.child q (hold q hq) hqi
    have htree := h.parent q r' (hold q hq) hqi hr'
    rw [hpar, hr'] at hr
    rw [tree_append, hpid, hpid]
    simp only [grow, htree]
    by_cases hrp : r' = p
    · subst hrp
      rw [if_pos rfl] at hr ⊢
      rw [h.first r hr]
    · have hne : (s.proc r').pid ≠ (s.proc p).pid := by
        intro he
        refine hrp (h.distinct r' p ?_ (by rw [hp]; decide) he)
        grind [Live]
      rw [if_neg (by simpa using hrp)] at hr
      rw [if_neg (by simpa using hne)]
      cases hr
      rfl
  · intro q hq
    rw [hpid]
    by_cases hqp : q = p
    · simp [hqp]
    · have := hstate hqp
      exact mem_append_left _ (h.zombie q (by grind))
  · intro w c hw
    obtain ⟨hc, hnone⟩ := h.gone w c (by simpa using hw)
    refine ⟨hc, fun q hq => ?_⟩
    rw [hpid]
    exact hnone q (hused q hq)
  · exact h.once.append_other (by simp)

lemma Recorded.reap (hparent : (s.proc c).parent = some p)
    (hzombie : (s.proc c).state = .ZOMBIE) : Recorded (es ++ [.waited (s.proc p).pid (s.proc c).pid])
      (moveTo p .elsewhere (s.set c reaped)) := by
  obtain ⟨i, hi, hilive, -⟩ := hf.init
  have hci : s.initproc ≠ some c := by
    rw [hi]
    grind [Live]
  have hchild := hf.child
  have honce : ReportedOnce (es ++ [.waited (s.proc p).pid (s.proc c).pid]) := by
    refine h.once.append fun w d hwd => ?_
    cases hwd
    refine ⟨h.zombie c hzombie, h.parent c p (.inr hzombie) hci hparent, fun w' hw' => ?_⟩
    exact (h.gone w' _ hw').2 c (by rw [hzombie]; decide) rfl
  refine ⟨?_, ?_, ?_, ?_, ?_, ?_, honce⟩
  all_goals cases h
  all_goals simp only [moveTo, Table.set, reaped, update_apply, tree_append, grow]
  all_goals grind [Live]

end

lemma Recorded.sleep (hp : (s.proc p).state = .RUNNING) :
    Recorded es (moveTo p .wait (asleep p (.proc p) s)) := by
  refine ⟨?_, ?_, ?_, ?_, ?_, ?_, h.once⟩
  all_goals cases h
  all_goals simp only [moveTo, asleep, Table.setState, Table.set, update_apply]
  all_goals grind [Live]

lemma Recorded.does (hf : Family s) (hd : Does s a s' es') : Recorded (es ++ es') s' := by
  cases hd with
  | picked _ _ hc => exact (h.calm hc).picked _
  | calm _ _ hc => simpa using h.calm hc
  | alloc p np pol hp hat hnp => simpa using h.alloc hf hnp
  | noMemory p np hp hat => simpa using h.noMemory hf hat
  | parent p np hp hat => simpa using h.setParent hf hat
  | fork p np hp hat => exact h.forked hf hp hat
  | exit p hp hat hinit => exact h.exit hf hp hinit
  | reap p c hp hat hparent hzombie => exact h.reap hf hparent hzombie
  | noChild p hp hat =>
    rw [append_nil]
    exact ⟨h.range, h.distinct, h.first, h.parent, h.zombie, h.gone, h.once⟩
  | waiting p hp hat hnone => simpa using h.sleep hp

end

lemma unused_blank (z : Generator) : unused (blank z) = some 0 := by
  have hslots : slots = 0 :: (finRange 63).map Fin.succ := finRange_succ
  unfold unused
  rw [hslots]
  rfl

lemma userinit_proc (pol : Policy) (z : Generator) (p : Slot) : (userinit pol z).proc p =
    if p = 0 then ⟨.RUNNABLE, 1, none, none, false,
      ⟨.found 0, (newTickets ⟨0, z, fun _ => .elsewhere⟩).1⟩⟩
    else (blank z).proc p := by
  unfold userinit
  simp only [unused_blank, allocproc_of_unused (unused_blank z), Table.setState, Table.set,
    update_apply]
  by_cases hp : p = 0 <;> simp [hp, blank, boot]

lemma userinit_fields (pol : Policy) (z : Generator) : (userinit pol z).initproc = some 0 ∧
    (userinit pol z).nextpid = 2 ∧ (userinit pol z).queue.position = fun _ => .elsewhere := by
  unfold userinit
  rw [unused_blank, allocproc_of_unused (unused_blank z)]
  exact ⟨rfl, rfl, rfl⟩

lemma family_userinit (pol : Policy) (z : Generator) : Family (userinit pol z) := by
  obtain ⟨hinit, -, hat⟩ := userinit_fields pol z
  constructor
  all_goals simp only [hinit, hat, userinit_proc, blank, boot]
  all_goals grind [Live]

lemma recorded_userinit (pol : Policy) (z : Generator) : Recorded [] (userinit pol z) := by
  obtain ⟨hinit, hnext, -⟩ := userinit_fields pol z
  refine ⟨?_, ?_, ?_, ?_, ?_, ?_, fun es1 es2 w c hes => by simp at hes⟩
  all_goals simp only [hinit, hnext, userinit_proc, blank, boot]
  all_goals grind [Live]

lemma run_recorded (h : Run (step pol) (fun _ _ => True) (userinit pol z) es s) :
    Family s ∧ Recorded es s := by
  apply h.history (I := fun es s => Family s ∧ Recorded es s)
  · intro es s a s' es' ⟨hf, hr⟩ _ hs
    have hd := step_does hs
    exact ⟨hf.does hd, hr.does hf hd⟩
  · exact ⟨family_userinit pol z, recorded_userinit pol z⟩

/-- In every run of the lab, each process but the first has a parent that is in the table and has not
exited, no process sleeps in `wait` next to a child that has exited, and each pid is reported at most
once, after its process has exited and to the parent that it then has. -/
theorem process_tree (pol : Policy) (z : Generator) (es : List Event) (s : State)
    (h : Run (step pol) (fun _ _ => True) (userinit pol z) es s) :
    (∀ p, Live (s.proc p).state ∨ (s.proc p).state = .ZOMBIE → s.initproc ≠ some p →
        ∃ q, (s.proc p).parent = some q ∧ (s.proc q).state ≠ .UNUSED ∧ (s.proc q).state ≠ .ZOMBIE) ∧
      (∀ p, (s.proc p).state = .SLEEPING → s.queue.position p = .wait →
        ∀ c, (s.proc c).parent = some p → (s.proc c).state ≠ .ZOMBIE) ∧ ReportedOnce es := by
  obtain ⟨hf, hr⟩ := run_recorded h
  refine ⟨fun p hp hinit => ?_, fun p hp hw => (hf.waiting p hp hw).2, hr.once⟩
  obtain ⟨q, hq, hlive⟩ := hf.child p hp hinit
  refine ⟨q, hq, ?_, ?_⟩
  · intro hu
    rw [hu] at hlive
    revert hlive
    decide
  · intro hz
    rw [hz] at hlive
    revert hlive
    decide

/-- The first process makes a child and waits for it, and the child exits. -/
theorem child_reported : ∃ s, Run (step .FCFS) (fun _ _ => True) (userinit .FCFS seed)
    [.picked (some 0), .forked 1 2, .picked (some 1), .exited 2, .picked (some 0), .waited 1 2] s ∧
    ReportedOnce [.picked (some 0), .forked 1 2, .picked (some 1), .exited 2, .picked (some 0),
      .waited 1 2] := by
  obtain ⟨s, hrun, -⟩ : ∃ s, Run (step .FCFS) (fun _ _ => True) (userinit .FCFS seed)
      [.picked (some 0), .forked 1 2, .picked (some 1), .exited 2, .picked (some 0),
        .waited 1 2] s ∧ (s.proc 1).state = .UNUSED :=
    Run.of_leads [.scheduler, .allocproc 0, .parent 0, .fork 0, .wait 0, .scheduler, .exit 1,
      .scheduler, .wait 0] (by decide +kernel)
  exact ⟨s, hrun, (process_tree .FCFS seed _ s hrun).2.2⟩

/-! Whether the policy FCFS serves the processes in the order of their pids. -/

variable {s s' : State} {a : Act} {es es' : List Event} {p q np : Slot} {z : Generator}

/-- A process that may run again, or is being made. -/
def Present (x : Procstate) : Prop := x ≠ .UNUSED ∧ x ≠ .ZOMBIE

instance : DecidablePred Present := fun x => inferInstanceAs (Decidable (x ≠ .UNUSED ∧ x ≠ .ZOMBIE))

/-- The order in which the policy takes processes: by creation time, then by their place in the table. -/
def Before (s : State) (p q : Slot) : Prop :=
  (s.proc p).lab.ctime < (s.proc q).lab.ctime ∨
    (s.proc p).lab.ctime = (s.proc q).lab.ctime ∧ p < q

/-- Older processes come first. -/
def InOrder (s : State) : Prop :=
  ∀ p q, Present (s.proc p).state → Present (s.proc q).state → (s.proc p).pid < (s.proc q).pid →
    Before s p q

/-- A new process comes behind all that are present: they were created in an earlier tick, or in this
one and in a lower entry of the table. -/
def ComesLast (s : State) (a : Act) : Prop :=
  match a with
  | .allocproc _ => ∀ np ∈ unused s, ∀ q, Present (s.proc q).state →
      (s.proc q).lab.ctime < s.queue.ticks ∨ (s.proc q).lab.ctime = s.queue.ticks ∧ q < np
  | _ => True

instance : ∀ s a, Decidable (ComesLast s a) := by
  intro s a
  unfold ComesLast
  split <;> infer_instance

lemma InOrder.of_present (h : InOrder s) (hs : ∀ p, Present (s'.proc p).state →
    Present (s.proc p).state ∧ (s'.proc p).pid = (s.proc p).pid ∧
      (s'.proc p).lab.ctime = (s.proc p).lab.ctime) : InOrder s' := by
  intro p q hp hq hlt
  obtain ⟨hp, hpid, hpc⟩ := hs p hp
  obtain ⟨hq, hqid, hqc⟩ := hs q hq
  rw [hpid, hqid] at hlt
  unfold Before
  rw [hpc, hqc]
  exact h p q hp hq hlt

lemma InOrder.calm (h : InOrder s) (hc : Calm s s') : InOrder s' := by
  apply h.of_present
  intro p hp
  have hunused := (hc.proc p).state_iff (y := .UNUSED) (by decide)
  have hzombie := (hc.proc p).state_iff (y := .ZOMBIE) (by decide)
  refine ⟨?_, (hc.proc p).pid, (hc.proc p).ctime⟩
  simpa only [Present, ne_eq, hunused, hzombie] using hp

/-- A step other than `allocproc` brings no process into the table. -/
lemma InOrder.does (h : InOrder s) (hf : Family s) (hr : Recorded es s) (hc : ComesLast s a)
    (hd : Does s a s' es') : InOrder s' := by
  cases hd with
  | picked _ _ hcalm | calm _ _ hcalm => exact h.calm hcalm
  | alloc p np pol hp hat hnp =>
    have hlast := hc np hnp
    have hrange := hr.range
    rw [allocproc_of_unused hnp]
    intro q r hq hr
    simp only [moveTo, Before, update_apply] at *
    grind [Present, InOrder, Before, Stats.found]
  | noMemory p np hp hat =>
    apply h.of_present
    intro q hq
    simp only [moveTo, Table.setState, Table.set, update_apply] at *
    grind [Present]
  | parent p np hp hat =>
    apply h.of_present
    intro q hq
    simp only [moveTo, Table.set, update_apply] at *
    grind [Present]
  | fork p np hp hat =>
    obtain ⟨hembryo, -⟩ := hf.parent p np hat
    apply h.of_present
    intro q hq
    simp only [moveTo, Table.setState, Table.set, update_apply] at *
    grind [Present]
  | exit p hp hat hinit =>
    apply h.of_present
    intro q hq
    obtain ⟨hpid, hlab, -⟩ := exited_proc p q s
    have hqp : q ≠ p := by
      rintro rfl
      rw [exited_self] at hq
      exact hq.2 rfl
    have hstate := exited_state (s := s) hqp
    refine ⟨?_, hpid, by rw [hlab]⟩
    grind [Present]
  | reap p c hp hat hparent hzombie =>
    apply h.of_present
    intro q hq
    simp only [moveTo, Table.set, reaped, update_apply] at *
    grind [Present]
  | noChild p hp hat => exact h
  | waiting p hp hat hnone =>
    apply h.of_present
    intro q hq
    simp only [moveTo, asleep, Table.setState, Table.set, update_apply] at *
    grind [Present]

lemma run_inOrder (h : Run (step .FCFS) ComesLast (userinit .FCFS z) es s) : InOrder s := by
  have hinv : (Family s ∧ Recorded es s) ∧ InOrder s := by
    apply h.history (I := fun es s => (Family s ∧ Recorded es s) ∧ InOrder s)
    · intro es s a s' es' ⟨⟨hf, hr⟩, ho⟩ hc hs
      have hd := step_does hs
      exact ⟨⟨hf.does hd, hr.does hf hd⟩, ho.does hf hr hc hd⟩
    · refine ⟨⟨family_userinit .FCFS z, recorded_userinit .FCFS z⟩, fun p q hp hq => ?_⟩
      simp only [userinit_proc, blank, boot] at *
      grind [Present]
  exact hinv.2

lemma InOrder.pid_le (h : InOrder s) (hp : RunnableIn s p) (hq : RunnableIn s q)
    (hleast : FirstLeast s (fun x => x.ctime) p) : (s.proc p).pid ≤ (s.proc q).pid := by
  by_contra hlt
  have hpresent : ∀ r, RunnableIn s r → Present (s.proc r).state := by
    intro r hr
    rw [show (s.proc r).state = .RUNNABLE from hr]
    decide
  obtain ⟨hle, htie⟩ := hleast q hq
  dsimp only at hle htie
  rcases h q p (hpresent q hq) (hpresent p hp) (by omega) with hlt | ⟨heq, hlt⟩
  · omega
  · exact absurd (htie (by omega)) hlt.not_ge

lemma step_picked {pol : Policy} {o : Option Slot} (h : readyProcess pol s = .ok (o, z)) :
    ∃ s', step pol .scheduler s = .ok (s', [.picked o]) := by
  cases o with
  | none => exact ⟨{ s with queue := { s.queue with generator := z } }, by
      simp only [step, scheduler, h, ok_bind]; rfl⟩
  | some p =>
    exact ⟨({ s with queue := { s.queue with generator := z } } : State).set p dispatched, by
      simp only [step, scheduler, h, ok_bind]; rfl⟩

/-- In every run in which each new process comes last, the scheduler picks the runnable process with
the smallest pid. -/
theorem fcfs_picks_oldest (z : Generator) (es : List Event) (s : State)
    (h : Run (step .FCFS) ComesLast (userinit .FCFS z) es s) :
    ∃ s' o, step .FCFS .scheduler s = .ok (s', [.picked o]) ∧ (o = none ↔ ∀ p, ¬ RunnableIn s p) ∧
      ∀ p, o = some p → RunnableIn s p ∧ ∀ q, RunnableIn s q → (s.proc p).pid ≤ (s.proc q).pid := by
  obtain ⟨o, z', hready, hpick, hchosen⟩ := readyProcess_chooses .FCFS (by decide) s
  obtain ⟨s', hs⟩ := step_picked hready
  refine ⟨s', o, hs, hpick.nothing, fun p hp => ?_⟩
  have hrun := hpick.runnable p hp
  exact ⟨hrun, fun q hq => (run_inOrder h).pid_le hrun hq (hchosen p hp)⟩

/-- Two children, created in different ticks. -/
theorem children_in_order : ∃ s s' o, (s.proc 1).pid = 2 ∧ (s.proc 2).pid = 3 ∧
    RunnableIn s 1 ∧ RunnableIn s 2 ∧ step .FCFS .scheduler s = .ok (s', [.picked o]) ∧
    ∀ p, o = some p → ∀ q, RunnableIn s q → (s.proc p).pid ≤ (s.proc q).pid := by
  obtain ⟨s, hrun, h1, h2, hr1, hr2⟩ : ∃ s, Run (step .FCFS) ComesLast (userinit .FCFS seed)
      [.picked (some 0), .forked 1 2, .forked 1 3] s ∧ (s.proc 1).pid = 2 ∧ (s.proc 2).pid = 3 ∧
      RunnableIn s 1 ∧ RunnableIn s 2 :=
    Run.of_leads [.scheduler, .tick, .allocproc 0, .parent 0, .fork 0, .tick, .allocproc 0,
      .parent 0, .fork 0, .wait 0] (by decide +kernel)
  obtain ⟨s', o, hs, -, hsome⟩ := fcfs_picks_oldest seed _ s hrun
  exact ⟨s, s', o, h1, h2, hr1, hr2, hs, fun p hp => (hsome p hp).2⟩

/-- A child exits and its entry is taken again in the same tick: the new child runs before the one that
was there first. -/
theorem reused_entry_first : ∃ es s s', Run (step .FCFS) (fun _ _ => True) (userinit .FCFS seed) es s ∧
    step .FCFS .scheduler s = .ok (s', [.picked (some 1)]) ∧ (s.proc 1).pid = 4 ∧
    RunnableIn s 2 ∧ (s.proc 2).pid = 3 := by
  obtain ⟨s, hrun, h1, hr1, hr2, h2, hready⟩ : ∃ s, Run (step .FCFS) (fun _ _ => True)
      (userinit .FCFS seed) [.picked (some 0), .forked 1 2, .forked 1 3, .picked (some 1), .exited 2,
        .picked (some 0), .waited 1 2, .forked 1 4] s ∧ (s.proc 1).pid = 4 ∧ RunnableIn s 1 ∧
      RunnableIn s 2 ∧ (s.proc 2).pid = 3 ∧
      readyProcess .FCFS s = .ok (some 1, s.queue.generator) :=
    Run.of_leads [.scheduler, .allocproc 0, .parent 0, .fork 0, .allocproc 0, .parent 0, .fork 0,
      .wait 0, .scheduler, .exit 1, .scheduler, .wait 0, .allocproc 0, .parent 0, .fork 0, .wait 0]
      (by decide +kernel)
  obtain ⟨s', hs⟩ := step_picked hready
  exact ⟨_, s, s', hrun, hs, h1, hr2, h2⟩

end LearnXv6.Sched.Compiled
