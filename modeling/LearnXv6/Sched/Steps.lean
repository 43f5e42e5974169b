import LearnXv6.Sched.Selection

/-! What each step of the lab with the compiled policies does to the processes. -/
namespace LearnXv6.Sched.Compiled
open Store Policies List Table

variable {pol : Policy} {s s' : State} {a : Act} {es : List Event} {p q np c : Slot} {k : Kernel}

/-! `wakeup1`, `exit` and `wait` without their loops. -/

def wakeOne (chan : Option Chan) (x : Proc Fields) : Proc Fields :=
  if x.state = .SLEEPING ∧ x.chan = chan then { x with state := .RUNNABLE } else x

def wakeAll (chan : Option Chan) (s : State) : State :=
  { s with proc := fun q => wakeOne chan (s.proc q) }

lemma foldlM_ok {ε α σ : Type} {f : σ → α → Except ε σ} {g : σ → α → σ} (l : List α) (s : σ)
    (h : ∀ s a, f s a = .ok (g s a)) : l.foldlM f s = .ok (l.foldl g s) := by
  induction l generalizing s with
  | nil => rfl
  | cons a l ih =>
    rw [foldlM_cons, h]
    exact ih _

lemma wakeup1_eq (chan : Option Chan) (s : State) : wakeup1 (lab pol k) chan s = .ok (wakeAll chan s) := by
  have hbody : ∀ (s : State) (p : Slot),
      (if (s.proc p).state = .SLEEPING ∧ (s.proc p).chan = chan then (lab pol k).wake p s
        else .ok s : Except Fault State) = .ok (s.set p (wakeOne chan)) := by
    intro s p
    split
    · rename_i hp
      simp [lab, ready, Table.setState, Table.set, wakeOne, hp]
    · rename_i hp
      simp [Table.set, wakeOne, hp]
  -- the entries of a list of distinct slots are changed one after the other
  have hfold : ∀ (l : List Slot), l.Nodup → ∀ s : State,
      l.foldl (fun s p => s.set p (wakeOne chan)) s =
        { s with proc := fun q => if q ∈ l then wakeOne chan (s.proc q) else s.proc q } := by
    intro l
    induction l with
    | nil => simp
    | cons p l ih =>
      intro hl s
      obtain ⟨hp, hl⟩ := nodup_cons.mp hl
      rw [foldl_cons, ih hl]
      simp only [Table.set, mk.injEq, and_true]
      funext q
      by_cases hq : q = p
      · subst hq
        simp [hp]
      · simp [hq]
  unfold wakeup1
  rw [foldlM_ok slots s hbody, hfold slots (nodup_finRange NPROC)]
  simp [wakeAll, slots]

/-- Whether an abandoned child is left for init to find. -/
def LeavesZombie (s : State) (p : Slot) (l : List Slot) : Prop :=
  ∃ q ∈ l, (s.proc q).parent = some p ∧ (s.proc q).state = .ZOMBIE

instance (s : State) (p : Slot) (l : List Slot) : Decidable (LeavesZombie s p l) :=
  inferInstanceAs (Decidable (∃ q ∈ l, _))

/-- The processes after the children in the list `l` are abandoned. -/
def abandoned (s : State) (p : Slot) (l : List Slot) (q : Slot) : Proc Fields :=
  let x := if LeavesZombie s p l then wakeOne (s.initproc.map .proc) (s.proc q) else s.proc q
  { x with parent := if q ∈ l ∧ (s.proc q).parent = some p then s.initproc else (s.proc q).parent }

@[simp] lemma wakeOne_fields (chan : Option Chan) (x : Proc Fields) :
    (wakeOne chan x).parent = x.parent ∧ (wakeOne chan x).pid = x.pid ∧
      (wakeOne chan x).chan = x.chan ∧ (wakeOne chan x).lab = x.lab := by
  unfold wakeOne
  split <;> exact ⟨rfl, rfl, rfl, rfl⟩

lemma wakeOne_state (chan : Option Chan) (x : Proc Fields) : (wakeOne chan x).state = x.state ∨
    x.state = .SLEEPING ∧ (wakeOne chan x).state = .RUNNABLE := by
  unfold wakeOne
  split
  · rename_i h
    exact .inr ⟨h.1, rfl⟩
  · exact .inl rfl

lemma wakeOne_asleep {chan : Option Chan} {x : Proc Fields}
    (h : (wakeOne chan x).state = .SLEEPING) : x.state = .SLEEPING ∧ x.chan ≠ chan := by
  unfold wakeOne at h
  split at h
  · cases h
  · rename_i hx
    exact ⟨h, fun hchan => hx ⟨h, hchan⟩⟩

lemma wakeOne_zombie (chan : Option Chan) (x : Proc Fields) :
    (wakeOne chan x).state = .ZOMBIE ↔ x.state = .ZOMBIE := by
  unfold wakeOne
  split
  · rename_i h
    simp [h.1]
  · rfl

/-- One pass of the loop over the children. -/
def abandonOne (p : Slot) (s : State) (q : Slot) : State :=
  if (s.proc q).parent = some p then
    let s' := s.set q fun x => { x with parent := s.initproc }
    if (s.proc q).state = .ZOMBIE then wakeAll (s.initproc.map .proc) s' else s'
  else s

lemma wakeOne_setParent (chan : Option Chan) (x : Proc Fields) (parent : Option Slot) :
    wakeOne chan { x with parent := parent } = { wakeOne chan x with parent := parent } := by
  unfold wakeOne
  split <;> rfl

lemma wakeOne_abandoned (l : List Slot) (r : Slot) : wakeOne (s.initproc.map .proc) (abandoned s p l r) =
      { wakeOne (s.initproc.map .proc) (s.proc r) with parent := (abandoned s p l r).parent } := by
  unfold abandoned
  rw [wakeOne_setParent]
  split
  · unfold wakeOne
    split <;> simp_all
  · rfl

lemma abandonOne_abandoned {l : List Slot} (hq : q ∉ l) :
    abandonOne p { s with proc := abandoned s p l } q =
      { s with proc := abandoned s p (l ++ [q]) } := by
  have hparent : (abandoned s p l q).parent = (s.proc q).parent := by simp [abandoned, hq]
  have hzombie : (abandoned s p l q).state = .ZOMBIE ↔ (s.proc q).state = .ZOMBIE := by
    unfold abandoned
    split
    · exact wakeOne_zombie _ _
    · rfl
  have hleaves : LeavesZombie s p (l ++ [q]) ↔
      LeavesZombie s p l ∨ (s.proc q).parent = some p ∧ (s.proc q).state = .ZOMBIE := by
    simp [LeavesZombie, or_and_right, exists_or]
  unfold abandonOne
  simp only [hparent, hzombie]
  by_cases hp : (s.proc q).parent = some p
  · by_cases hz : (s.proc q).state = .ZOMBIE
    · have hl := hleaves.mpr (.inr ⟨hp, hz⟩)
      simp only [hp, hz, if_true, wakeAll, Table.set, mk.injEq, and_true]
      funext r
      by_cases hr : r = q
      · subst hr
        rw [Function.update_self, wakeOne_setParent, wakeOne_abandoned]
        simp [abandoned, hl, hp]
      · rw [Function.update_of_ne hr, wakeOne_abandoned]
        simp [abandoned, hl, hr]
    · have hl : LeavesZombie s p (l ++ [q]) ↔ LeavesZombie s p l := by simp [hleaves, hz]
      simp only [hp, hz, if_true, if_false, Table.set, mk.injEq, and_true]
      funext r
      by_cases hr : r = q
      · subst hr
        simp [abandoned, hl, hp]
      · simp [abandoned, hl, hr]
  · have hl : LeavesZombie s p (l ++ [q]) ↔ LeavesZombie s p l := by simp [hleaves, hp]
    simp only [hp, if_false, mk.injEq, and_true]
    funext r
    by_cases hr : r = q
    · subst hr
      simp [abandoned, hl, hp]
    · simp [abandoned, hl, hr]

lemma abandon_eq (p : Slot) (s : State) :
    abandon (lab pol k) p s = .ok { s with proc := abandoned s p slots } := by
  have hbody : ∀ (s : State) (q : Slot),
      (if (s.proc q).parent = some p then
        let s' := s.set q fun x => { x with parent := s.initproc }
        if (s.proc q).state = .ZOMBIE then wakeup1 (lab pol k) (s.initproc.map .proc) s' else .ok s'
      else .ok s : Except Fault State) = .ok (abandonOne p s q) := by
    intro s q
    unfold abandonOne
    split
    · split
      · rw [wakeup1_eq]
      · rfl
    · rfl
  have hfold : ∀ l : List Slot, l.Nodup →
      l.foldl (abandonOne p) s = { s with proc := abandoned s p l } := by
    intro l hl
    induction l using reverseRecOn with
    | nil =>
      have hnil : abandoned s p [] = s.proc := by
        funext q
        simp [abandoned, LeavesZombie]
      rw [hnil]
      rfl
    | append_singleton l q ih =>
      obtain ⟨hl, -, hq⟩ := nodup_append.mp hl
      rw [foldl_append, ih hl, foldl_cons, foldl_nil]
      exact abandonOne_abandoned fun hmem => hq q hmem q (by simp) rfl
  unfold abandon
  rw [foldlM_ok slots s hbody, hfold slots (nodup_finRange NPROC)]

/-- `exit`, after its `acquire`. -/
def exited (p : Slot) (s : State) : State :=
  let u := wakeAll ((s.proc p).parent.map .proc) s
  ({ u with proc := abandoned u p slots } : State).setState p .ZOMBIE

lemma exit_eq (p : Slot) (s : State) : Sched.exit (lab pol k) p s = .ok (exited p s) := by
  unfold Sched.exit
  rw [wakeup1_eq, ok_bind, abandon_eq, ok_bind]
  rfl

/-- What `exit` does to the other processes: children go to init, and a parent or an init that waits for
what is now there to be found wakes up. -/
lemma exited_proc (p q : Slot) (s : State) :
    ((exited p s).proc q).pid = (s.proc q).pid ∧ ((exited p s).proc q).lab = (s.proc q).lab ∧
    ((exited p s).proc q).chan = (s.proc q).chan ∧
    ((exited p s).proc q).parent =
      (if (s.proc q).parent = some p then s.initproc else (s.proc q).parent) := by
  by_cases hq : q = p
  · subst hq
    simp only [exited, setState, set_proc_self, abandoned, wakeAll]
    split <;> simp [slots]
  · simp only [exited, setState_of_ne hq, abandoned, wakeAll]
    split <;> simp [slots]

lemma exited_self (p : Slot) (s : State) : ((exited p s).proc p).state = .ZOMBIE := by
  simp [exited]

lemma exited_state (hq : q ≠ p) : ((exited p s).proc q).state = (s.proc q).state ∨
    (s.proc q).state = .SLEEPING ∧ ((exited p s).proc q).state = .RUNNABLE := by
  simp only [exited, setState_of_ne hq, abandoned, wakeAll]
  have hfirst := wakeOne_state ((s.proc p).parent.map .proc) (s.proc q)
  split
  · have hsecond := wakeOne_state (s.initproc.map .proc)
      (wakeOne ((s.proc p).parent.map .proc) (s.proc q))
    grind
  · exact hfirst

lemma exited_asleep (hq : q ≠ p) (hsleep : ((exited p s).proc q).state = .SLEEPING)
    (hchan : (s.proc q).chan = some (.proc q)) : (s.proc p).parent ≠ some q ∧
    (s.initproc = some q → ∀ c, (s.proc c).parent = some p → (s.proc c).state ≠ .ZOMBIE) := by
  simp only [exited, setState_of_ne hq, abandoned, wakeAll] at hsleep
  constructor
  · intro hparent
    have hfirst : (wakeOne ((s.proc p).parent.map .proc) (s.proc q)).state = .SLEEPING := by
      split at hsleep
      · exact (wakeOne_asleep hsleep).1
      · exact hsleep
    apply (wakeOne_asleep hfirst).2
    rw [hparent]
    exact hchan
  · intro hinit c hc hz
    rw [if_pos ⟨c, by simp [slots], by simpa using hc, (wakeOne_zombie _ _).mpr hz⟩] at hsleep
    apply (wakeOne_asleep hsleep).2
    rw [(wakeOne_fields _ _).2.2.1, hinit]
    exact hchan

/-- What `wait` leaves of a child. -/
def reaped (x : Proc Fields) : Proc Fields :=
  { x with pid := 0, parent := none, killed := false, state := .UNUSED }

def asleep (p : Slot) (chan : Chan) (s : State) : State :=
  (s.set p fun x => { x with chan := some chan }).setState p .SLEEPING

lemma wait_eq (p : Slot) (s : State) : Sched.wait (lab pol k) p s = .ok (
    match zombieChild p s with
    | some c => s.set c reaped
    | none =>
      if (∀ q, (s.proc q).parent ≠ some p) ∨ (s.proc p).killed then s else asleep p (.proc p) s) := by
  have hwait : Sched.wait (lab pol k) p s =
      match zombieChild p s with
      | some c => .ok (s.set c reaped)
      | none =>
        if (∀ q, (s.proc q).parent ≠ some p) ∨ (s.proc p).killed then .ok s else .ok (asleep p (.proc p) s) := rfl
  rw [hwait]
  cases zombieChild p s with
  | some c => rfl
  | none =>
    dsimp only
    split <;> rfl

/-- A process that the scheduler knows. -/
def Live (x : Procstate) : Prop := x = .RUNNABLE ∨ x = .RUNNING ∨ x = .SLEEPING

instance : DecidablePred Live := fun x =>
  inferInstanceAs (Decidable (x = .RUNNABLE ∨ x = .RUNNING ∨ x = .SLEEPING))

/-- A change of one process that leaves its place in the family alone: it goes to sleep outside of
`fork` and `wait`, wakes up, or gets or gives up a CPU. -/
structure CalmAt (position : Position) (x x' : Proc Fields) : Prop where
  pid : x'.pid = x.pid
  parent : x'.parent = x.parent
  ctime : x'.lab.ctime = x.lab.ctime
  state : x'.state = x.state ∨ Live x.state ∧ Live x'.state
  sleep : x'.state = .SLEEPING → position = .elsewhere ∨ x.state = .SLEEPING ∧ x'.chan = x.chan

/-- A step that only does that. -/
structure Calm (s s' : State) : Prop where
  position : s'.queue.position = s.queue.position
  initproc : s'.initproc = s.initproc
  nextpid : s'.nextpid = s.nextpid
  proc : ∀ p, CalmAt (s.queue.position p) (s.proc p) (s'.proc p)

inductive Does (s : State) : Act → State → List Event → Prop
  | picked (s' : State) (o : Option Slot) (h : Calm s s') : Does s .scheduler s' [.picked o]
  | calm (a : Act) (s' : State) (h : Calm s s') : Does s a s' []
  | alloc (p np : Slot) (pol : Policy) (hp : (s.proc p).state = .RUNNING)
      (hat : s.queue.position p = .elsewhere) (hnp : unused s = some np) :
      Does s (.allocproc p) (moveTo p (.fork np) (allocproc pol s)) []
  | noMemory (p np : Slot) (hp : (s.proc p).state = .RUNNING)
      (hat : s.queue.position p = .fork np) :
      Does s (.noMemory p) (moveTo p .elsewhere (s.setState np .UNUSED)) []
  | parent (p np : Slot) (hp : (s.proc p).state = .RUNNING) (hat : s.queue.position p = .fork np) :
      Does s (.parent p) (moveTo p (.parent np) (s.set np fun x => { x with parent := some p })) []
  | fork (p np : Slot) (hp : (s.proc p).state = .RUNNING) (hat : s.queue.position p = .parent np) :
      Does s (.fork p) (moveTo p .elsewhere (s.setState np .RUNNABLE))
        [.forked (s.proc p).pid (s.proc np).pid]
  | exit (p : Slot) (hp : (s.proc p).state = .RUNNING) (hat : s.queue.position p = .elsewhere)
      (hinit : s.initproc ≠ some p) : Does s (.exit p) (exited p s) [.exited (s.proc p).pid]
  | reap (p c : Slot) (hp : (s.proc p).state = .RUNNING)
      (hat : s.queue.position p = .elsewhere ∨ s.queue.position p = .wait)
      (hparent : (s.proc c).parent = some p) (hzombie : (s.proc c).state = .ZOMBIE) :
      Does s (.wait p) (moveTo p .elsewhere (s.set c reaped))
        [.waited (s.proc p).pid (s.proc c).pid]
  | noChild (p : Slot) (hp : (s.proc p).state = .RUNNING)
      (hat : s.queue.position p = .elsewhere ∨ s.queue.position p = .wait) :
      Does s (.wait p) (moveTo p .elsewhere s) []
  | waiting (p : Slot) (hp : (s.proc p).state = .RUNNING)
      (hat : s.queue.position p = .elsewhere ∨ s.queue.position p = .wait)
      (hnone : ∀ c, (s.proc c).parent = some p → (s.proc c).state ≠ .ZOMBIE) :
      Does s (.wait p) (moveTo p .wait (asleep p (.proc p) s)) []

lemma CalmAt.refl (x : Proc Fields) (position : Position) : CalmAt position x x :=
  ⟨rfl, rfl, rfl, .inl rfl, fun hx => .inr ⟨hx, rfl⟩⟩

lemma CalmAt.wakeOne (x : Proc Fields) (chan : Option Chan) (position : Position) :
    CalmAt position x (wakeOne chan x) := by
  refine ⟨by simp, by simp, by simp, ?_, fun h => ?_⟩
  · rcases wakeOne_state chan x with h | ⟨h, h'⟩
    · exact .inl h
    · exact .inr ⟨.inr (.inr h), .inl h'⟩
  · rcases wakeOne_state chan x with h' | ⟨-, h'⟩
    · exact .inr ⟨h' ▸ h, by simp⟩
    · rw [h'] at h
      cases h

lemma CalmAt.awake {x x' : Proc Fields} {position : Position} (hx : Live x.state)
    (hx' : x'.state = .RUNNABLE ∨ x'.state = .RUNNING) (hpid : x'.pid = x.pid)
    (hparent : x'.parent = x.parent) (hctime : x'.lab.ctime = x.lab.ctime) : CalmAt position x x' := by
  refine ⟨hpid, hparent, hctime, .inr ⟨hx, ?_⟩, fun h => ?_⟩
  · rcases hx' with h | h
    · exact .inl h
    · exact .inr (.inl h)
  · rcases hx' with h' | h' <;> rw [h'] at h <;> cases h

lemma Calm.one (hat : s'.queue.position = s.queue.position) (hinit : s'.initproc = s.initproc)
    (hnext : s'.nextpid = s.nextpid) (hother : ∀ q, q ≠ p → s'.proc q = s.proc q)
    (h : CalmAt (s.queue.position p) (s.proc p) (s'.proc p)) : Calm s s' := by
  refine ⟨hat, hinit, hnext, fun q => ?_⟩
  by_cases hq : q = p
  · subst hq
    exact h
  · rw [hother q hq]
    exact .refl _ _

lemma Calm.set {f : Proc Fields → Proc Fields}
    (h : CalmAt (s.queue.position p) (s.proc p) (f (s.proc p))) : Calm s (s.set p f) := by
  refine Calm.one (p := p) rfl rfl rfl (fun q hq => set_proc_of_ne hq) ?_
  rwa [set_proc_self]

lemma Calm.of_proc (hproc : s'.proc = s.proc) (hat : s'.queue.position = s.queue.position)
    (hinit : s'.initproc = s.initproc) (hnext : s'.nextpid = s.nextpid) : Calm s s' :=
  ⟨hat, hinit, hnext, fun p => by rw [hproc]; exact .refl _ _⟩

lemma Calm.setPid {f : Fields → Fields} (pid : ℤ) (hf : ∀ x, (f x).ctime = x.ctime) :
    Calm s (setPid s pid f) := by
  unfold Policies.setPid
  split
  · exact Calm.set ⟨rfl, rfl, hf _, .inl rfl, fun h => .inr ⟨h, rfl⟩⟩
  · exact .of_proc rfl rfl rfl rfl

lemma readyProcess_runnable {z : Generator} (h : readyProcess pol s = .ok (some p, z)) :
    (s.proc p).state = .RUNNABLE := by
  by_cases hpol : pol = .LOTTERY
  · subst hpol
    simp only [readyProcess, Except.ok.injEq, Prod.mk.injEq] at h
    obtain ⟨h, -⟩ := h
    unfold lottery at h
    dsimp only at h
    split at h
    · exact ((foldl_ticket slots slots_pairwise _).2 p h).1
    · cases h
  · obtain ⟨o, z', hready, hpick, -⟩ := readyProcess_chooses pol hpol s
    rw [h] at hready
    cases hready
    exact hpick.runnable p rfl

lemma scheduler_does (h : scheduler pol s = .ok (s', es)) : Does s .scheduler s' es := by
  obtain ⟨⟨o, z⟩, hready, h⟩ := bind_eq_ok.mp h
  cases o with
  | none =>
    cases h
    exact .picked _ _ (.of_proc rfl rfl rfl rfl)
  | some p =>
    cases h
    have hrun := readyProcess_runnable hready
    refine .picked _ _ (Calm.one (p := p) rfl rfl rfl (fun q hq => set_proc_of_ne hq) ?_)
    rw [set_proc_self]
    exact .awake (.inl hrun) (.inr rfl) rfl rfl rfl

lemma zombieChild_none (h : zombieChild p s = none) (hc : (s.proc c).parent = some p) :
    (s.proc c).state ≠ .ZOMBIE := by
  simp only [zombieChild, find?_eq_none] at h
  intro hz
  exact h c (by simp [slots]) (by simp [hc, hz])

lemma wait_does (hp : (s.proc p).state = .RUNNING)
    (hat : s.queue.position p = .elsewhere ∨ s.queue.position p = .wait)
    (h : (do
      let (s', _) ← quiet (ω := Event) (Sched.wait (lab pol s.queue) p s)
      let sleeping := (s'.proc p).state = .SLEEPING
      return (moveTo p (if sleeping then .wait else .elsewhere) s',
        (zombieChild p s).toList.map fun c => .waited (s.proc p).pid (s.proc c).pid) :
      Except (Stop Fault) (State × List Event)) = .ok (s', es)) : Does s (.wait p) s' es := by
  rw [wait_eq] at h
  cases hz : zombieChild p s with
  | some c =>
    obtain ⟨hparent, hzombie⟩ := find?_slots hz
    have hne : p ≠ c := by
      intro hpc
      rw [← hpc, hp] at hzombie
      cases hzombie
    rw [hz] at h
    cases h
    have hstill : ¬ ((s.set c reaped).proc p).state = .SLEEPING := by
      rw [set_proc_of_ne hne, hp]
      decide
    rw [if_neg hstill]
    exact .reap p c hp hat hparent hzombie
  | none =>
    rw [hz] at h
    dsimp only at h
    split at h
    · cases h
      rw [if_neg (by rw [hp]; decide)]
      exact .noChild p hp hat
    · cases h
      rw [if_pos (by simp [asleep])]
      exact .waiting p hp hat fun c hc => zombieChild_none hz hc

lemma step_does (h : step pol a s = .ok (s', es)) : Does s a s' es := by
  cases a with
  | scheduler =>
    simp only [step] at h
    split at h
    · rename_i r hr
      cases h
      exact scheduler_does hr
    · cases h
  | tick =>
    cases h
    exact .calm _ _ (.of_proc rfl rfl rfl rfl)
  | update_statistics =>
    cases h
    refine .calm _ _ ⟨rfl, rfl, rfl, fun p => ⟨rfl, rfl, ?_, .inl rfl, fun h => .inr ⟨h, rfl⟩⟩⟩
    simp only [update_statistics, Stats.update]
    split <;> rfl
  | yield p =>
    obtain ⟨hp, h⟩ := when_ok h
    cases h
    exact .calm _ _ (Calm.set (.awake (.inr (.inl hp)) (.inl rfl) rfl rfl rfl))
  | allocproc p =>
    obtain ⟨hp, h⟩ := when_ok h
    obtain ⟨hat, h⟩ := when_ok h
    split at h
    · rename_i np hnp
      cases h
      exact .alloc p np pol hp hat hnp
    · rename_i hnone
      cases h
      refine .calm _ _ ?_
      unfold allocproc
      rw [hnone]
      exact .of_proc rfl rfl rfl rfl
  | noMemory p =>
    obtain ⟨hp, h⟩ := when_ok h
    split at h
    · rename_i np hat
      cases h
      exact .noMemory p np hp hat
    · cases h
  | parent p =>
    obtain ⟨hp, h⟩ := when_ok h
    split at h
    · rename_i np hat
      cases h
      exact .parent p np hp hat
    · cases h
  | fork p =>
    obtain ⟨hp, h⟩ := when_ok h
    split at h
    · rename_i np hat
      cases h
      exact .fork p np hp hat
    · cases h
  | exit p =>
    obtain ⟨hp, h⟩ := when_ok h
    obtain ⟨hat, h⟩ := when_ok h
    obtain ⟨hinit, h⟩ := else_eq_ok.mp h
    rw [exit_eq] at h
    cases h
    exact .exit p hp hat hinit
  | wait p =>
    obtain ⟨hp, h⟩ := when_ok h
    obtain ⟨hat, h⟩ := when_ok h
    exact wait_does hp hat h
  | sleep p chan =>
    obtain ⟨hp, h⟩ := when_ok h
    obtain ⟨hat, h⟩ := when_ok h
    cases h
    refine .calm _ _ (Calm.one (p := p) rfl rfl rfl (fun q hq => ?_) ?_)
    · rw [setState_of_ne hq, set_proc_of_ne hq]
    · simp only [setState, set_proc_self]
      exact ⟨rfl, rfl, rfl, .inr ⟨.inr (.inl hp), .inr (.inr rfl)⟩, fun _ => .inl hat⟩
  | wakeup chan =>
    simp only [step, wakeup1_eq] at h
    cases h
    exact .calm _ _ ⟨rfl, rfl, rfl, fun p => CalmAt.wakeOne _ _ _⟩
  | kill pid =>
    simp only [step] at h
    split at h
    · rename_i p hp
      cases h
      refine .calm _ _ ?_
      split
      · rename_i hsleep
        refine Calm.one (p := p) rfl rfl rfl (fun q hq => ?_) ?_
        · rw [setState_of_ne hq, set_proc_of_ne hq]
        · simp only [setState, set_proc_self] at hsleep ⊢
          exact .awake (.inr (.inr hsleep)) (.inl rfl) rfl rfl rfl
      · exact Calm.set ⟨rfl, rfl, rfl, .inl rfl, fun h => .inr ⟨h, rfl⟩⟩
    · cases h
      exact .calm _ _ (.of_proc rfl rfl rfl rfl)
  | setpriority pid priority | settickets pid tickets =>
    cases h
    exact .calm _ _ (Calm.setPid _ fun _ => rfl)

end LearnXv6.Sched.Compiled
