import LearnXv6.Sched.O1Pending

/-! What the actions of the O(1) lab do to the processes and to what is pending, as moves of single
processes. -/
namespace LearnXv6.Sched.O1
open Store Multiset Table Function

abbrev Act := Action Unit SetPriority

variable {s s' u : State} {a : Act} {p q : Slot} {w : Which} {B : ℤ} {m : Which → Multiset Slot}

/-- A priority with a queue. -/
def InRange (x : ℤ) : Prop := 0 ≤ x ∧ x < MAX_PRIORITY

/-- The call, if any, asks for a priority with a queue. -/
def InRangeCall (a : Act) : Prop := ∀ x, a = .call x → InRange x.priority

instance : DecidablePred InRange := fun x => inferInstanceAs (Decidable (0 ≤ x ∧ x < MAX_PRIORITY))

instance : DecidablePred InRangeCall
  | .call x => decidable_of_iff (InRange x.priority) (by simp [InRangeCall])
  | .allocproc | .noMemory _ | .userinit _ | .fork _ _ _ | .scheduler | .yield _ | .sleep _ _
  | .wakeup _ | .kill _ | .exit _ | .wait _ => isTrue (by simp [InRangeCall])

def OutOfRange (s : State) : Prop := ∃ p, ¬ InRange (s.proc p).lab.priority

/-- The containers hold each runnable process once, and nothing else. -/
structure Inv (s : State) (B : ℤ) (m : Which → Multiset Slot) : Prop where
  holds : Holds s.queue B m
  nodup : (m .active + m .expired).Nodup
  runnable : ∀ p, p ∈ m .active + m .expired ↔ (s.proc p).state = .RUNNABLE

/-- The processes, with what is pending in the containers. -/
structure View where
  proc : Slot → Proc Fields
  pending : Which → Multiset Slot

def View.set (v : View) (p : Slot) (f : Proc Fields → Proc Fields) : View :=
  { v with proc := update v.proc p (f (v.proc p)) }

def View.push (v : View) (p : Slot) (w : Which) : View :=
  { v with pending := update v.pending w (p ::ₘ v.pending w) }

/-- The container that `insertExpired` puts a process into. -/
def Fields.which (x : Fields) : Which :=
  if x.ncicle.tmod (wrap (x.priority + 1)) = 0 then .active else .expired

/-- A process that `insertExpired` takes in. -/
def ready (x : Proc Fields) : Proc Fields :=
  { x with state := .RUNNABLE, lab := { x.lab with ncicle := wrap (x.lab.ncicle + 1) } }

/-- What happens to processes in the loops of an action: one is marked (its parent, its `chan` or that it
is killed), or it becomes runnable again. -/
inductive Stir (p : Slot) (v : View) : View → Prop
  | mark (f : Proc Fields → Proc Fields) (hstate : ∀ x, (f x).state = x.state)
      (hlab : ∀ x, (f x).lab = x.lab) (hpid : ∀ x, (f x).pid = x.pid) : Stir p v (v.set p f)
  | back (h : (v.proc p).state = .RUNNING ∨ (v.proc p).state = .SLEEPING) :
      Stir p v ((v.set p ready).push p (v.proc p).lab.which)

/-- What an action can do in the end. -/
inductive Move (p : Slot) (v : View) : View → Prop
  | found (pid : ℤ) (h : (v.proc p).state = .UNUSED) : Move p v (v.set p fun x =>
      { x with state := .EMBRYO, pid := pid, lab := { x.lab with priority := 10, ncicle := 0 } })
  | lost (h : (v.proc p).state = .EMBRYO) : Move p v (v.set p fun x => { x with state := .UNUSED })
  | stop (state : Procstate) (h : (v.proc p).state = .RUNNING)
      (hstate : state = .SLEEPING ∨ state = .ZOMBIE) :
      Move p v (v.set p fun x => { x with state := state })
  | reap (h : (v.proc p).state = .ZOMBIE) : Move p v (v.set p fun x =>
      { x with pid := 0, parent := none, killed := false, state := .UNUSED })
  | start (h : (v.proc p).state = .EMBRYO) :
      Move p v ((v.set p fun x => { x with state := .RUNNABLE }).push p .active)

def Stirs : View → View → Prop := Relation.ReflTransGen fun v v' => ∃ p, Stir p v v'

def Moves (v v' : View) : Prop := ∃ u, Stirs v u ∧ (v' = u ∨ ∃ p, Move p u v')

/-- After moves from `s` and `m`, the containers still hold the runnable processes. -/
def After (s : State) (m : Which → Multiset Slot) (s' : State) : Prop :=
  ∃ B' m', Inv s' B' m' ∧ B' < INT_MAX ∧ Moves ⟨s.proc, m⟩ ⟨s'.proc, m'⟩

namespace Inv

variable (h : Inv s B m)
include h

lemma congr (hq : s'.queue = s.queue) (hr : s'.runnable = s.runnable) : Inv s' B m := by
  refine ⟨by rw [hq]; exact h.holds, h.nodup, fun p => ?_⟩
  rw [h.runnable p, ← mem_runnable, ← mem_runnable, hr]

variable {f : Proc Fields → Proc Fields}

lemma set (hf : (s.proc p).state = .RUNNABLE ↔ (f (s.proc p)).state = .RUNNABLE) : Inv (s.set p f) B m := by
  refine h.congr rfl ?_
  ext q
  by_cases hq : q = p
  · subst hq
    simp [mem_runnable, hf]
  · simp [mem_runnable, set_proc_of_ne hq]

lemma not_mem (hp : (s.proc p).state ≠ .RUNNABLE) :
    p ∉ m .active + m .expired := fun hmem => hp ((h.runnable p).mp hmem)

lemma card_lt (hp : (s.proc p).state ≠ .RUNNABLE) (w : Which) : (m w).card < NPROC := by
  have hnodup := nodup_cons.mpr ⟨h.not_mem hp, h.nodup⟩
  have hle : (p ::ₘ (m .active + m .expired)).card ≤ NPROC := by
    have hcard := Finset.card_le_univ (⟨_, hnodup⟩ : Finset Slot)
    rwa [Fintype.card_fin] at hcard
  rw [card_cons, card_add] at hle
  cases w with
  | active | expired => omega

lemma insert (hB : -1 ≤ B ∧ B < INT_MAX) (hp : (s.proc p).state ≠ .RUNNABLE) (hf : (f (s.proc p)).state = .RUNNABLE) (w : Which) :
    Outcome (fun _ => ¬ InRange (f (s.proc p)).lab.priority)
      (fun s' => s'.proc = (s.set p f).proc ∧ Inv s' (B + 1) (update m w (p ::ₘ m w)))
      (insertRunnable p w (s.set p f)) := by
  have hstate : ((s.set p f).proc p).state = .RUNNABLE := by rwa [set_proc_self]
  by_cases hrange : InRange (f (s.proc p)).lab.priority
  · obtain ⟨Q', hins, hholds⟩ := Holds.insertRunnable (s := s.set p f) h.holds hB
      hstate (by rwa [set_proc_self]) (h.card_lt hp w)
    rw [hins]
    have hsum : update m w (p ::ₘ m w) .active + update m w (p ::ₘ m w) .expired =
        p ::ₘ (m .active + m .expired) := by
      cases w with
      | active | expired => simp
    refine ⟨rfl, hholds, ?_, fun q => ?_⟩
    · rw [hsum]
      exact nodup_cons.mpr ⟨h.not_mem hp, h.nodup⟩
    · rw [hsum, mem_cons, h.runnable q]
      by_cases hq : q = p
      · subst hq
        simp [hf]
      · simp [hq, set_proc_of_ne hq]
  · have hindex : queueIndex (f (s.proc p)).lab.priority =
        .error (.queue (f (s.proc p)).lab.priority) := by
      rw [InRange] at hrange
      rw [queueIndex, if_neg hrange]
    rw [insertRunnable, if_neg (not_not.mpr hstate), set_proc_self, getQueue, hindex]
    exact hrange

lemma back (hB : -1 ≤ B ∧ B < INT_MAX) (hp : (s.proc p).state = .RUNNING ∨ (s.proc p).state = .SLEEPING) :
    Outcome (fun _ => ¬ InRange (s.proc p).lab.priority)
      (fun s' => s'.proc = (s.set p ready).proc ∧ Inv s' (B + 1)
        (update m (s.proc p).lab.which (p ::ₘ m (s.proc p).lab.which)))
      (insertExpired p (s.setState p .RUNNABLE)) := by
  have hne : (s.proc p).state ≠ .RUNNABLE := by
    rcases hp with hp | hp <;> simp [hp]
  have hset : (s.setState p .RUNNABLE).set p (fun x => { x with
      lab := { x.lab with ncicle := wrap ((s.proc p).lab.ncicle + 1) } }) = s.set p ready := by
    simp [Table.setState, Table.set, ready]
  simp only [insertExpired, setState_lab, hset]
  split
  · rename_i hzero
    rintro ⟨h0, h20⟩
    have : wrap ((s.proc p).lab.priority + 1) = (s.proc p).lab.priority + 1 := by
      refine wrap_eq (by omega) ?_
      unfold MAX_PRIORITY at h20
      unfold INT_MAX
      omega
    rw [set_proc_self, ready] at hzero
    dsimp only at hzero
    omega
  · have hw : (if (s.proc p).lab.ncicle.tmod (wrap (((s.set p ready).proc p).lab.priority + 1)) = 0
        then Which.active else .expired) = (s.proc p).lab.which := by
      rw [set_proc_self]
      rfl
    rw [hw]
    exact h.insert hB hne rfl _

end Inv

/-! The loops, which wake at most as many processes as sleep. -/

def sleepers (s : State) : ℕ := (Finset.univ.filter fun p => (s.proc p).state = .SLEEPING).card

lemma sleepers_le : sleepers s ≤ NPROC := by
  have := Finset.card_filter_le (Finset.univ : Finset Slot) fun p => (s.proc p).state = .SLEEPING
  rwa [Finset.card_univ, Fintype.card_fin] at this

lemma sleepers_wake (hp : (s.proc p).state = .SLEEPING) (hproc : u.proc = (s.set p ready).proc) :
    sleepers u + 1 = sleepers s := by
  have hmem : p ∈ Finset.univ.filter fun q => (s.proc q).state = .SLEEPING := by simp [hp]
  rw [sleepers, sleepers, ← Finset.card_erase_add_one hmem]
  congr 2
  ext q
  by_cases hq : q = p
  · subst hq
    simp [hproc, ready]
  · simp [hproc, set_proc_of_ne hq, hq]

/-- In the middle of an action that began with `s₀` and `m₀`: there is still room for every
sleeper. -/
def Within (s₀ : State) (m₀ : Which → Multiset Slot) (s : State) : Prop :=
  ∃ B m, Inv s B m ∧ -1 ≤ B ∧ B + sleepers s + 1 < INT_MAX ∧ Stirs ⟨s₀.proc, m₀⟩ ⟨s.proc, m⟩ ∧
    ∀ q, (s.proc q).lab.priority = (s₀.proc q).lab.priority

namespace Within

variable {s₀ : State} {m₀ : Which → Multiset Slot}

lemma start (h : Inv s B m) (hB : -1 ≤ B) (hroom : B + sleepers s + 1 < INT_MAX) : Within s m s :=
  ⟨B, m, h, hB, hroom, .refl, fun _ => rfl⟩

variable (h : Within s₀ m₀ s)
include h

lemma after : After s₀ m₀ s := by
  obtain ⟨B, m, hinv, -, hroom, hmoves, -⟩ := h
  exact ⟨B, m, hinv, by omega, _, hmoves, .inl rfl⟩

lemma move (hf : (s.proc p).state = .RUNNABLE ↔ (f (s.proc p)).state = .RUNNABLE)
    (hmove : ∀ m, Move p ⟨s.proc, m⟩ ⟨(s.set p f).proc, m⟩) : After s₀ m₀ (s.set p f) := by
  obtain ⟨B, m, hinv, -, hroom, hmoves, -⟩ := h
  exact ⟨B, m, hinv.set hf, by omega, _, hmoves, .inr ⟨p, hmove m⟩⟩

lemma mark (hstate : ∀ x, (f x).state = x.state) (hlab : ∀ x, (f x).lab = x.lab)
    (hpid : ∀ x, (f x).pid = x.pid) : Within s₀ m₀ (s.set p f) := by
  obtain ⟨B, m, hinv, hB, hroom, hmoves, hprio⟩ := h
  have hsame : Same s (s.set p f) := Same.set hstate hlab
  refine ⟨B, m, hinv.congr hsame.queue hsame.runnable, hB, ?_,
    hmoves.tail ⟨p, .mark f hstate hlab hpid⟩, fun q => ?_⟩
  · rw [sleepers] at hroom ⊢
    simpa only [hsame.state] using hroom
  · rw [hsame.lab, hprio]

lemma wake (hp : (s.proc p).state = .SLEEPING) : Outcome (fun _ => OutOfRange s₀)
      (fun s' => Within s₀ m₀ s' ∧ ∀ q, q ≠ p → s'.proc q = s.proc q) (O1.wake p s) := by
  obtain ⟨B, m, hinv, hB, hroom, hmoves, hprio⟩ := h
  refine (hinv.back ⟨hB, by omega⟩ (.inr hp)).imp (fun _ he => ⟨p, by rwa [← hprio p]⟩) ?_
  rintro s' ⟨hproc, hinv'⟩
  have hsleepers := sleepers_wake hp hproc
  refine ⟨⟨B + 1, _, hinv', by omega, by omega, hmoves.tail ⟨p, ?_⟩, fun q => ?_⟩, fun q hq => ?_⟩
  · rw [hproc]
    exact .back (.inr hp)
  · rw [hproc]
    by_cases hq : q = p
    · subst hq
      rw [set_proc_self, ready, hprio]
    · rw [set_proc_of_ne hq, hprio]
  · rw [hproc, set_proc_of_ne hq]

lemma wakeup1 (chan : Option Chan) : Outcome (fun _ => OutOfRange s₀) (Within s₀ m₀) (wakeup1 lab chan s) :=
  wakeup1_outcome (fun _ _ hs hp => (hs.wake hp).mono fun _ hs' => hs'.1) chan h

lemma exit (hp : (s.proc p).state = .RUNNING) : Outcome (fun _ => OutOfRange s₀) (After s₀ m₀)
      (exit lab p s) := by
  have hwake : ∀ q s, Within s₀ m₀ s ∧ (s.proc p).state = .RUNNING →
      (s.proc q).state = .SLEEPING → Outcome (fun _ => OutOfRange s₀)
        (fun s => Within s₀ m₀ s ∧ (s.proc p).state = .RUNNING) (lab.wake q s) := by
    rintro q s ⟨hs, hrun⟩ hq
    have hne : p ≠ q := by
      rintro rfl
      rw [hrun] at hq
      cases hq
    refine (hs.wake hq).mono fun s' hs' => ⟨hs'.1, ?_⟩
    rw [hs'.2 p hne, hrun]
  have hparent : ∀ q (s : State) parent, Within s₀ m₀ s ∧ (s.proc p).state = .RUNNING →
      Within s₀ m₀ (s.set q fun x => { x with parent := parent }) ∧
        ((s.set q fun x => { x with parent := parent }).proc p).state = .RUNNING := by
    rintro q s parent ⟨hs, hrun⟩
    have hsame : Same s (s.set q fun x => { x with parent := parent }) :=
      Same.set (fun _ => rfl) fun _ => rfl
    exact ⟨hs.mark (fun _ => rfl) (fun _ => rfl) fun _ => rfl, by rw [hsame.state, hrun]⟩
  refine (exit_outcome hwake hparent ⟨h, hp⟩).mono ?_
  rintro s' ⟨u, rfl, hu, hrun⟩
  exact hu.move (by simp [hrun]) fun m => .stop .ZOMBIE hrun (.inr rfl)

lemma back (hp : (s.proc p).state = .RUNNING ∨ (s.proc p).state = .SLEEPING) :
    Outcome (fun _ => OutOfRange s₀) (After s₀ m₀) (insertExpired p (s.setState p .RUNNABLE)) := by
  obtain ⟨B, m, hinv, hB, hroom, hmoves, hprio⟩ := h
  refine (hinv.back ⟨hB, by omega⟩ hp).imp (fun _ he => ⟨p, by rwa [← hprio p]⟩) ?_
  rintro s' ⟨hproc, hinv'⟩
  refine ⟨B + 1, _, hinv', by omega, _, hmoves.tail ⟨p, ?_⟩, .inl rfl⟩
  rw [hproc]
  exact .back hp

lemma insertActive (hp : (s.proc p).state = .EMBRYO) :
    Outcome (fun _ => OutOfRange s₀) (After s₀ m₀) (insertActive p (s.setState p .RUNNABLE)) := by
  obtain ⟨B, m, hinv, hB, hroom, hmoves, hprio⟩ := h
  rw [O1.insertActive, setState]
  refine (hinv.insert ⟨hB, by omega⟩ (f := fun x => { x with state := .RUNNABLE }) (by simp [hp])
    rfl .active).imp (fun _ he => ⟨p, by rwa [← hprio p]⟩) ?_
  rintro s' ⟨hproc, hinv'⟩
  refine ⟨B + 1, _, hinv', by omega, _, hmoves, .inr ⟨p, ?_⟩⟩
  rw [hproc]
  exact .start hp

lemma kill : Outcome (fun _ => OutOfRange s₀) (After s₀ m₀) (kill p s) := by
  have hmark : Within s₀ m₀ (s.set p fun x => { x with killed := true }) :=
    h.mark (fun _ => rfl) (fun _ => rfl) fun _ => rfl
  unfold O1.kill
  dsimp only
  split
  · rename_i hsleep
    exact hmark.back (.inr hsleep)
  · exact hmark.after

lemma sleep (hp : (s.proc p).state = .RUNNING) (chan : Option Chan) :
    Outcome (fun _ => OutOfRange s₀) (After s₀ m₀) (sleep p chan s) := by
  have hmark : Within s₀ m₀ (s.set p fun x => { x with chan := chan }) :=
    h.mark (fun _ => rfl) (fun _ => rfl) fun _ => rfl
  have hrun : ((s.set p fun x => { x with chan := chan }).proc p).state = .RUNNING := by simp [hp]
  exact hmark.move (by rw [hrun]; simp) fun m => .stop .SLEEPING hrun (.inl rfl)

lemma wait (hp : (s.proc p).state = .RUNNING) :
    Outcome (fun _ => OutOfRange s₀) (After s₀ m₀) (wait lab p s) := by
  unfold Sched.wait
  split
  · rename_i q hfind
    obtain ⟨-, hzombie⟩ := find?_slots hfind
    exact h.move (by simp [hzombie]) fun m => .reap hzombie
  · split
    · exact h.after
    · exact h.sleep hp _

lemma allocproc : After s₀ m₀ (allocproc lab s) := by
  unfold Sched.allocproc
  split
  · exact h.after
  · rename_i p hfind
    have hunused := find?_slots hfind
    obtain ⟨B, m, hinv, hB, hmoves⟩ := h.move (p := p) (f := fun x =>
      { x with state := .EMBRYO, lab := lab.found x.lab, pid := s.nextpid })
      (by simp [hunused]) fun m => .found s.nextpid hunused
    exact ⟨B, m, hinv.congr rfl rfl, hB, hmoves⟩

end Within

/-- No queue is near the end of its counter: it has room for one more round of all the processes. -/
def Small (s : State) : Prop := ∀ w i, i < MAX_PRIORITY → (s.queue w).validity i = true →
  ((s.queue w).queue i).last + NPROC + 1 < INT_MAX

lemma Small.inv (hs : Small s) (h : Inv s B m) : Inv s (INT_MAX - NPROC - 2) m := by
  refine ⟨fun w => ?_, h.nodup, h.runnable⟩
  obtain ⟨L, f, hrep, hm, -⟩ := h.holds w
  refine ⟨L, f, hrep, hm, fun i hi => ?_⟩
  have hbound := hrep.bound i hi
  have := hs w i hbound ((hrep.valid i hbound).mpr hi)
  omega

lemma Small.within (hs : Small s) (h : Inv s B m) : Within s m s := by
  refine Within.start (hs.inv h) (by decide) ?_
  have := sleepers_le (s := s)
  omega

/-- An action other than a dispatch or a call is a sequence of moves. It fails for a process that is not
there, in a panic or for a priority without a queue. -/
lemma step_moves (hs : Small s) (h : Inv s B m) (ha : a ≠ .scheduler) (hcall : ∀ x, a ≠ .call x) :
    Outcome (fun e => e = .disabled ∨ e = .panic ∨ OutOfRange s)
      (fun r => After s m r.1 ∧ r.2 = []) (step lab a s) := by
  have hw := hs.within h
  have hquiet : ∀ r, Outcome (fun _ => OutOfRange s) (After s m) r →
      Outcome (fun e => e = .disabled ∨ e = .panic ∨ OutOfRange s)
        (fun r => After s m r.1 ∧ r.2 = []) (quiet r : Except (Stop Fault) (State × List Event)) := by
    intro r hr
    refine (quiet_outcome hr).imp ?_ fun _ hx => hx
    rintro e ⟨f, rfl, hf⟩
    exact .inr (.inr hf)
  cases a with
  | allocproc => exact ⟨hw.allocproc, rfl⟩
  | noMemory np =>
    refine when_outcome (.inl rfl) fun hnp => ⟨?_, rfl⟩
    exact hw.move (f := fun x => { x with state := .UNUSED }) (by simp [hnp]) fun m => .lost hnp
  | userinit p =>
    refine when_outcome (.inl rfl) fun ⟨hp, _⟩ => hquiet _ ?_
    obtain ⟨B, m', hinv, hrest⟩ := hw
    have hinit : Within s m { s with initproc := some p } := ⟨B, m', hinv.congr rfl rfl, hrest⟩
    exact hinit.insertActive hp
  | fork curproc np arg =>
    refine when_outcome (.inl rfl) fun ⟨_, hnp⟩ => hquiet _ ?_
    have hparent : Within s m (s.set np fun x => { x with parent := some curproc }) :=
      hw.mark (fun _ => rfl) (fun _ => rfl) fun _ => rfl
    exact hparent.insertActive (by simpa using hnp)
  | scheduler => exact absurd rfl ha
  | yield curproc => exact when_outcome (.inl rfl) fun hp => hquiet _ (hw.back (.inl hp))
  | sleep curproc chan => exact when_outcome (.inl rfl) fun hp => hquiet _ (hw.sleep hp _)
  | wakeup chan => exact hquiet _ ((hw.wakeup1 _).mono fun _ hs' => hs'.after)
  | kill pid =>
    simp only [step]
    split
    · exact hquiet _ hw.kill
    · exact ⟨hw.after, rfl⟩
  | exit curproc =>
    refine when_outcome (.inl rfl) fun hp => ?_
    split
    · exact .inr (.inl rfl)
    · exact hquiet _ (hw.exit hp)
  | wait curproc => exact when_outcome (.inl rfl) fun hp => hquiet _ (hw.wait hp)
  | call x => exact absurd rfl (hcall x)

lemma step_setpriority (h : Inv s B m) (x : SetPriority) :
    ∃ s', step lab (.call x) s = .ok (s', []) ∧ Inv s' B m ∧ (s' = s ∨ ∃ p, s' = s.set p fun y =>
      { y with lab := { y.lab with priority := x.priority } }) := by
  cases hfind : slots.find? fun p => (s.proc p).pid = x.pid with
  | none =>
    refine ⟨s, ?_, h, .inl rfl⟩
    simp only [step, lab, setpriority, hfind]
    rfl
  | some p =>
    refine ⟨s.set p fun y => { y with lab := { y.lab with priority := x.priority } }, ?_,
      h.set Iff.rfl, .inr ⟨p, rfl⟩⟩
    simp only [step, lab, setpriority, hfind]
    rfl

/-- What a dispatch does: nothing, when nothing is pending, or a process leaves the containers and
runs. Without an exchange it leaves the active container. -/
inductive Dispatch (v : View) : List Event → View → Prop
  | idle (es : List Event) (hes : ∀ e ∈ es, e = .exchange)
      (hnone : v.pending .active + v.pending .expired = 0) : Dispatch v es ⟨v.proc, fun _ => 0⟩
  | run (p : Slot) (es : List Event) (m : Which → Multiset Slot) (hes : ∀ e ∈ es, e = .exchange)
      (hsum : v.pending .active + v.pending .expired = p ::ₘ (m .active + m .expired))
      (hactive : es = [] → v.pending .active = p ::ₘ m .active ∧ m .expired = v.pending .expired) :
      Dispatch v (es ++ [.returned p])
        ⟨(v.set p fun x => { x with state := .RUNNING, chan := none }).proc, m⟩

lemma step_dispatch (hs : Small s) (h : Inv s B m) : ∃ s' es B' m',
    step lab .scheduler s = .ok (s', es) ∧ Inv s' B' m' ∧ B' < INT_MAX ∧
      Dispatch ⟨s.proc, m⟩ es ⟨s'.proc, m'⟩ := by
  have hinv := hs.inv h
  obtain ⟨r, Q', es, hnext, hpicked⟩ := hinv.holds.getNextProc (by decide)
  have hstep : ∀ x, lab.scheduler s = .ok x → step lab .scheduler s = .ok x := by
    intro x hx
    simp only [step, hx]
  cases r with
  | none =>
    obtain ⟨hnone, hholds⟩ := hpicked.none rfl
    refine ⟨{ s with queue := Q' }, es, _, fun _ => 0, hstep _ ?_, ⟨hholds, by simp, fun p => ?_⟩,
      by decide, .idle es hpicked.exchange hnone⟩
    · simp only [lab, scheduler]
      rw [hnext, ok_bind]
      rfl
    · have := hinv.runnable p
      rw [hnone] at this
      simpa using this
  | some p =>
    obtain ⟨m', hholds, hsum, hactive⟩ := hpicked.some p rfl
    have hnodup := hinv.nodup
    rw [hsum, nodup_cons] at hnodup
    refine ⟨{ s with queue := Q' }.set p fun x => { x with state := .RUNNING, chan := none },
      es ++ [.returned p], _, m', hstep _ ?_, ⟨hholds, hnodup.2, fun q => ?_⟩,
      by decide, .run p es m' hpicked.exchange hsum hactive⟩
    · simp only [lab, scheduler]
      rw [hnext, ok_bind]
      rfl
    · by_cases hq : q = p
      · subst hq
        simp only [set_proc_self, reduceCtorEq, iff_false]
        exact hnodup.1
      · rw [set_proc_of_ne hq]
        have := hinv.runnable q
        rw [hsum, mem_cons] at this
        rw [← this]
        simp [hq]

/-- What one action does to the processes and to what is pending, with the events that it makes. -/
inductive Does (v : View) : List Event → View → Prop
  | moves {v' : View} (h : Moves v v') : Does v [] v'
  | call (p : Slot) (x : ℤ) : Does v [] (v.set p fun y => { y with lab := { y.lab with priority := x } })
  | dispatch {es : List Event} {v' : View} (h : Dispatch v es v') : Does v es v'

lemma step_does {es : List Event} (hs : Small s) (h : Inv s B m) (hstep : step lab a s = .ok (s', es)) :
    ∃ B' m', Inv s' B' m' ∧ B' < INT_MAX ∧ Does ⟨s.proc, m⟩ es ⟨s'.proc, m'⟩ := by
  by_cases hsched : a = .scheduler
  · subst hsched
    obtain ⟨s1, es1, B', m', hs1, hinv, hB, hdispatch⟩ := step_dispatch hs h
    rw [hs1] at hstep
    cases hstep
    exact ⟨B', m', hinv, hB, .dispatch hdispatch⟩
  · by_cases hcall : ∃ x, a = .call x
    · obtain ⟨x, rfl⟩ := hcall
      obtain ⟨s1, hs1, hinv, hcase⟩ := step_setpriority (hs.inv h) x
      rw [hs1] at hstep
      cases hstep
      refine ⟨_, m, hinv, by decide, ?_⟩
      rcases hcase with rfl | ⟨p, rfl⟩
      · exact .moves ⟨_, .refl, .inl rfl⟩
      · exact .call p x.priority
    · have hmoves := step_moves hs h hsched fun x hx => hcall ⟨x, hx⟩
      rw [hstep] at hmoves
      obtain ⟨⟨B', m', hinv, hB, hmoves⟩, hes⟩ := hmoves
      cases hes
      exact ⟨B', m', hinv, hB, .moves hmoves⟩

end LearnXv6.Sched.O1
