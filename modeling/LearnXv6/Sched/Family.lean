import LearnXv6.Sched.Steps

/-! The process tree: every process has a live parent, and a parent that waits has nothing to find. -/
namespace LearnXv6.Sched.Compiled
open Function Store Policies

variable {pol : Policy} {s s' : State} {a : Act} {es es' : List Event} {p q np c : Slot}
  {x : Procstate}

/-- What holds of the processes whenever `ptable.lock` is free. -/
structure Family (s : State) : Prop where
  init : ∃ i, s.initproc = some i ∧ Live (s.proc i).state ∧ (s.proc i).parent = none
  irrefl : ∀ p, (s.proc p).parent ≠ some p
  child : ∀ p, Live (s.proc p).state ∨ (s.proc p).state = .ZOMBIE → s.initproc ≠ some p →
    ∃ q, (s.proc p).parent = some q ∧ Live (s.proc q).state
  unused : ∀ p, (s.proc p).state = .UNUSED → (s.proc p).parent = none
  embryo : ∀ p q, (s.proc p).state = .EMBRYO → (s.proc p).parent = some q →
    s.queue.position q = .parent p
  fork : ∀ p np, s.queue.position p = .fork np →
    (s.proc np).state = .EMBRYO ∧ (s.proc np).parent = none
  parent : ∀ p np, s.queue.position p = .parent np →
    (s.proc np).state = .EMBRYO ∧ (s.proc np).parent = some p
  one : ∀ p q np, s.queue.position p = .fork np → s.queue.position q = .fork np → p = q
  live : ∀ p, s.queue.position p ≠ .elsewhere → Live (s.proc p).state
  waiting : ∀ p, (s.proc p).state = .SLEEPING → s.queue.position p = .wait →
    (s.proc p).chan = some (.proc p) ∧
      ∀ c, (s.proc c).parent = some p → (s.proc c).state ≠ .ZOMBIE

lemma CalmAt.live_iff {x x' : Proc Fields} {at' : Position} (h : CalmAt at' x x') :
    Live x'.state ↔ Live x.state := by
  rcases h.state with h | ⟨h, h'⟩
  · rw [h]
  · exact iff_of_true h' h

lemma CalmAt.state_iff {x x' : Proc Fields} {at' : Position} {y : Procstate} (h : CalmAt at' x x')
    (hy : ¬ Live y) : x'.state = y ↔ x.state = y := by
  rcases h.state with h | ⟨h, h'⟩
  · rw [h]
  · constructor
    · rintro rfl
      exact absurd h' hy
    · rintro rfl
      exact absurd h hy

lemma Family.calm (h : Family s) (hc : Calm s s') : Family s' := by
  have hlive p := (hc.proc p).live_iff
  have hstate {y : Procstate} (hy : ¬ Live y) p := (hc.proc p).state_iff hy
  have hpar p := (hc.proc p).parent
  constructor
  · obtain ⟨i, hi, hl, hroot⟩ := h.init
    exact ⟨i, hc.initproc.trans hi, (hlive i).mpr hl, (hpar i).trans hroot⟩
  · intro p
    rw [hpar]
    exact h.irrefl p
  · intro p hp hne
    rw [hlive, hstate (by decide)] at hp
    obtain ⟨q, hq, hl⟩ := h.child p hp (hc.initproc ▸ hne)
    exact ⟨q, (hpar p).trans hq, (hlive q).mpr hl⟩
  · intro p hp
    rw [hpar]
    exact h.unused p ((hstate (by decide) p).mp hp)
  · intro p q hp hq
    rw [hc.position]
    exact h.embryo p q ((hstate (by decide) p).mp hp) ((hpar p).symm.trans hq)
  · intro p np hp
    rw [hc.position] at hp
    rw [hstate (by decide), hpar]
    exact h.fork p np hp
  · intro p np hp
    rw [hc.position] at hp
    rw [hstate (by decide), hpar]
    exact h.parent p np hp
  · rw [hc.position]
    exact h.one
  · intro p hp
    rw [hc.position] at hp
    exact (hlive p).mpr (h.live p hp)
  · intro p hp hw
    rw [hc.position] at hw
    rcases (hc.proc p).sleep hp with he | ⟨hp, hchan⟩
    · rw [hw] at he
      cases he
    · obtain ⟨hself, hnone⟩ := h.waiting p hp hw
      refine ⟨hchan.trans hself, fun c hc' => ?_⟩
      rw [hpar] at hc'
      rw [Ne, hstate (by decide)]
      exact hnone c hc'

lemma unused_state (h : unused s = some np) : (s.proc np).state = .UNUSED := find?_slots h

lemma allocproc_of_unused (h : unused s = some np) : allocproc pol s = { s with
      proc := update s.proc np { s.proc np with
        state := .EMBRYO, pid := s.nextpid,
        lab := { toStats := .found s.queue.ticks, ntickets := (newTickets s.queue).1 } }
      nextpid := s.nextpid + 1
      queue := { s.queue with generator := (newTickets s.queue).2 } } := by
  unfold allocproc Sched.allocproc
  rw [h]
  unfold unused at h
  rw [h]
  rfl

variable (h : Family s)
include h

section

variable (hp : (s.proc p).state = .RUNNING) (hat : s.queue.position p = .elsewhere)
include hp hat

lemma Family.exit (hinit : s.initproc ≠ some p) : Family (exited p s) := by
  have hself := exited_self p s
  have hstate {q} (hq : q ≠ p) := exited_state (s := s) hq
  have hparent q := (exited_proc p q s).2.2.2
  have hchan q := (exited_proc p q s).2.2.1
  have hlive {q} (hq : q ≠ p) : Live ((exited p s).proc q).state ↔ Live (s.proc q).state := by
    grind [Live]
  -- no child of `p` is still being made
  have hembryo : ∀ q, (s.proc q).state = .EMBRYO → (s.proc q).parent ≠ some p := by
    intro q hq hqp
    have := h.embryo q p hq hqp
    rw [hat] at this
    cases this
  have hnot : ∀ q np, s.queue.position q = .fork np ∨ s.queue.position q = .parent np → np ≠ p := by
    rintro q np hq rfl
    have : (s.proc np).state = .EMBRYO := by
      rcases hq with hq | hq
      · exact (h.fork q np hq).1
      · exact (h.parent q np hq).1
    rw [hp] at this
    cases this
  obtain ⟨i, hi, hilive, hroot⟩ := h.init
  have hip : i ≠ p := by
    rintro rfl
    exact hinit hi
  constructor
  · exact ⟨i, hi, (hlive hip).mpr hilive, by rw [hparent, hroot]; simp⟩
  · intro q hq
    rw [hparent] at hq
    split at hq
    · rename_i hqp
      rw [hi] at hq
      cases hq
      rw [hroot] at hqp
      cases hqp
    · exact h.irrefl q hq
  · intro q hq hqi
    by_cases hqp : (s.proc q).parent = some p
    · exact ⟨i, by rw [hparent, if_pos hqp, hi], (hlive hip).mpr hilive⟩
    · have hq' : Live (s.proc q).state ∨ (s.proc q).state = .ZOMBIE := by
        by_cases he : q = p
        · exact .inl (by rw [he, hp]; decide)
        · have := hstate he
          grind [Live]
      obtain ⟨r, hr, hrlive⟩ := h.child q hq' hqi
      have hrp : r ≠ p := by
        rintro rfl
        exact hqp hr
      exact ⟨r, by rw [hparent, if_neg hqp, hr], (hlive hrp).mpr hrlive⟩
  · intro q hq
    have hqp : q ≠ p := by
      rintro rfl
      rw [hself] at hq
      cases hq
    have hnone := h.unused q (by have := hstate hqp; grind)
    rw [hparent, if_neg (by rw [hnone]; simp), hnone]
  · intro q r hq hr
    have hqp : q ≠ p := by
      rintro rfl
      rw [hself] at hq
      cases hq
    have hq : (s.proc q).state = .EMBRYO := by
      grind
    rw [hparent, if_neg (hembryo q hq)] at hr
    exact h.embryo q r hq hr
  · intro q np hq
    obtain ⟨hnp, hnone⟩ := h.fork q np hq
    rw [hparent, if_neg (hembryo np hnp)]
    exact ⟨by grind, hnone⟩
  · intro q np hq
    obtain ⟨hnp, hnone⟩ := h.parent q np hq
    rw [hparent, if_neg (hembryo np hnp)]
    exact ⟨by grind, hnone⟩
  · exact h.one
  · intro q hq
    have hqp : q ≠ p := by
      rintro rfl
      exact hq hat
    exact (hlive hqp).mpr (h.live q hq)
  · intro q hq hw
    have hqp : q ≠ p := by
      rintro rfl
      rw [hself] at hq
      cases hq
    have hq' : (s.proc q).state = .SLEEPING := by
      have := hstate hqp
      grind
    obtain ⟨hqchan, hnone⟩ := h.waiting q hq' hw
    obtain ⟨hnotparent, hnotinit⟩ := exited_asleep hqp hq hqchan
    refine ⟨(hchan q).trans hqchan, fun c hc hz => ?_⟩
    rw [hparent] at hc
    -- a zombie child of a sleeper in `wait` is `p` itself, an old child, or one that `p` left
    by_cases hcp : c = p
    · subst hcp
      split at hc
      · rename_i hcc
        exact h.irrefl c hcc
      · exact hnotparent hc
    · have hzc : (s.proc c).state = .ZOMBIE := by
        have := hstate hcp
        grind
      split at hc
      · rename_i hcc
        exact hnotinit hc c hcc hzc
      · exact hnone c hc hzc

/-! The steps of `fork` and `wait` change one process, and where another one is. -/

lemma Family.alloc (hnp : Compiled.unused s = some np) :
    Family (moveTo p (.fork np) (allocproc pol s)) := by
  have hunused := unused_state hnp
  cases h
  rw [allocproc_of_unused hnp]
  constructor
  all_goals simp only [moveTo, update_apply]
  all_goals grind [Live]

end

lemma Family.noMemory (hat : s.queue.position p = .fork np) :
    Family (moveTo p .elsewhere (s.setState np .UNUSED)) := by
  cases h
  constructor
  all_goals simp only [moveTo, Table.setState, Table.set, update_apply]
  all_goals grind [Live]

lemma Family.setParent (hp : (s.proc p).state = .RUNNING) (hat : s.queue.position p = .fork np) :
    Family (moveTo p (.parent np) (s.set np fun x => { x with parent := some p })) := by
  cases h
  constructor
  all_goals simp only [moveTo, Table.set, update_apply]
  all_goals grind [Live]

lemma Family.forked (hp : (s.proc p).state = .RUNNING) (hat : s.queue.position p = .parent np) :
    Family (moveTo p .elsewhere (s.setState np .RUNNABLE)) := by
  cases h
  constructor
  all_goals simp only [moveTo, Table.setState, Table.set, update_apply]
  all_goals grind [Live]

section

variable (hat : s.queue.position p = .elsewhere ∨ s.queue.position p = .wait)
include hat

lemma Family.reap
    (hzombie : (s.proc c).state = .ZOMBIE) : Family (moveTo p .elsewhere (s.set c reaped)) := by
  cases h
  constructor
  all_goals simp only [moveTo, Table.set, reaped, update_apply]
  all_goals grind [Live]

lemma Family.noChild : Family (moveTo p .elsewhere s) := by
  cases h
  constructor
  all_goals simp only [moveTo, update_apply]
  all_goals grind

lemma Family.sleep (hp : (s.proc p).state = .RUNNING)
    (hnone : ∀ c, (s.proc c).parent = some p → (s.proc c).state ≠ .ZOMBIE) :
    Family (moveTo p .wait (asleep p (.proc p) s)) := by
  cases h
  constructor
  all_goals simp only [moveTo, asleep, Table.setState, Table.set, update_apply]
  all_goals grind [Live]

end

lemma Family.does (hd : Does s a s' es) : Family s' := by
  cases hd with
  | picked _ _ hc | calm _ _ hc => exact h.calm hc
  | alloc p np pol hp hat hnp => exact h.alloc hp hat hnp
  | noMemory p np hp hat => exact h.noMemory hat
  | parent p np hp hat => exact h.setParent hp hat
  | fork p np hp hat => exact h.forked hp hat
  | exit p hp hat hinit => exact h.exit hp hat hinit
  | reap p c hp hat hparent hzombie => exact h.reap hat hzombie
  | noChild p hp hat => exact h.noChild hat
  | waiting p hp hat hnone => exact h.sleep hat hp hnone

end LearnXv6.Sched.Compiled
