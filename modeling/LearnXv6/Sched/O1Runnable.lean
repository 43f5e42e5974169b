import LearnXv6.Sched.O1Wrap

/-! In the O(1) lab the two containers hold the runnable processes, and every index is in bounds, as
long as no counter comes near the end of the `int`s and each priority has its queue. -/
namespace LearnXv6.Sched.O1
open Function Store Multiset

variable {s s' : State} {a : Act} {p : Slot} {w : Which} {i : ℕ} {k : ℤ} {B : ℤ}
  {m : Which → Multiset Slot} {es : List Event} {q : PriorityQueue} {l : List Slot}

/-- The process stands at the position `k` of a queue, between `pos` and `last`. -/
def QueuedAt (q : PriorityQueue) (k : ℤ) (p : Slot) : Prop :=
  q.pos ≤ k ∧ k ≤ q.last ∧ ∃ j, procsIndex k = .ok j ∧ q.procs j = some p

/-- The process stands at a pending position of a valid queue. -/
def PendingAt (s : State) (w : Which) (i : ℕ) (k : ℤ) (p : Slot) : Prop :=
  i < MAX_PRIORITY ∧ (s.queue w).validity i = true ∧ QueuedAt ((s.queue w).queue i) k p

/-- Each runnable process is pending once, and nothing else is. -/
structure QueuesRunnable (s : State) : Prop where
  once : ∀ p, (s.proc p).state = .RUNNABLE →
    ∃! x : Which × ℕ × ℤ, PendingAt s x.1 x.2.1 x.2.2 p
  only : ∀ w i k p, PendingAt s w i k p → (s.proc p).state = .RUNNABLE
  next : ∃ r s' es, getNextProc s = .ok (r, s', es) ∧
    (r = none ↔ ∀ p, (s.proc p).state ≠ .RUNNABLE)

lemma QRep.queuedAt (h : QRep q i l) : QueuedAt q k p ↔ ∃ n : ℕ, k = q.pos + n ∧ l[n]? = some p := by
  have hpos := h.pos
  have hlast := h.last
  constructor
  · rintro ⟨hlo, hhi, j, hj, hp⟩
    obtain ⟨n, hn⟩ := Int.eq_ofNat_of_zero_le (show 0 ≤ k - q.pos by omega)
    have hlt : n < l.length := by omega
    refine ⟨n, by omega, ?_⟩
    rw [procsIndex_ok (by omega)] at hj
    cases hj
    have hentry := h.ring.entry n _ (List.getElem?_eq_getElem hlt)
    rw [show q.pos.toNat + n = k.toNat by omega, hp] at hentry
    rw [List.getElem?_eq_getElem hlt, hentry]
  · rintro ⟨n, rfl, hn⟩
    have hlt := (List.getElem?_eq_some_iff.mp hn).1
    refine ⟨by omega, by omega, _, procsIndex_ok (by omega), ?_⟩
    rw [show (q.pos + n).toNat = q.pos.toNat + n by omega]
    exact h.ring.entry n p hn

variable {f : ℕ → List Slot}

lemma mem_pending : p ∈ pending f ↔ ∃ i, i < MAX_PRIORITY ∧ p ∈ f i := by
  simp [pending, mem_sum]

lemma pending_disjoint (h : (pending f).Nodup) {j : ℕ} (hi : i < MAX_PRIORITY)
    (hj : j < MAX_PRIORITY) (hpi : p ∈ f i) (hpj : p ∈ f j) : i = j := by
  by_contra hne
  obtain ⟨x, hf, hg⟩ := pending_split hi (update f i []) (f := f)
    fun j hj => update_of_ne hj _ _
  rw [hf, nodup_add] at h
  have hx : p ∈ pending (update f i []) := by
    refine mem_pending.mpr ⟨j, hj, ?_⟩
    rwa [update_of_ne (Ne.symm hne)]
  rw [hg, update_self, coe_nil, zero_add] at hx
  exact disjoint_left.mp h.2.2 hpi hx

lemma pending_list (h : (pending f).Nodup) (hi : i < MAX_PRIORITY) : (f i).Nodup := by
  obtain ⟨x, hf, -⟩ := pending_split hi f (f := f) fun j _ => rfl
  rw [hf, nodup_add] at h
  exact coe_nodup.mp h.1

lemma CRep.pendingAt {L : List ℕ} (h : CRep (s.queue w) L f) : PendingAt s w i k p ↔ i ∈ L ∧
      ∃ n : ℕ, k = ((s.queue w).queue i).pos + n ∧ (f i)[n]? = some p := by
  constructor
  · rintro ⟨hi, hvalid, hat⟩
    have hmem := (h.valid i hi).mp hvalid
    exact ⟨hmem, (h.queue i hmem).queuedAt.mp hat⟩
  · rintro ⟨hmem, hat⟩
    have hi := h.bound i hmem
    exact ⟨hi, (h.valid i hi).mpr hmem, (h.queue i hmem).queuedAt.mpr hat⟩

lemma Holds.mem (h : Holds s.queue B m) : p ∈ m w ↔ ∃ i k, PendingAt s w i k p := by
  obtain ⟨L, f, hrep, hm, -⟩ := h w
  rw [hm, mem_pending]
  simp only [hrep.pendingAt]
  constructor
  · rintro ⟨i, hi, hp⟩
    obtain ⟨n, hn⟩ := List.getElem?_of_mem hp
    refine ⟨i, _, ?_, n, rfl, hn⟩
    by_contra hnot
    rw [hrep.rest i hnot] at hp
    cases hp
  · rintro ⟨i, k, hmem, n, -, hn⟩
    exact ⟨i, hrep.bound i hmem, List.mem_of_getElem? hn⟩

lemma Holds.unique (h : Holds s.queue B m) (hnodup : (m w).Nodup) {j : ℕ} {k' : ℤ}
    (h1 : PendingAt s w i k p) (h2 : PendingAt s w j k' p) : i = j ∧ k = k' := by
  obtain ⟨L, f, hrep, hm, -⟩ := h w
  rw [hm] at hnodup
  obtain ⟨hi, n, hk, hn⟩ := hrep.pendingAt.mp h1
  obtain ⟨hj, n', hk', hn'⟩ := hrep.pendingAt.mp h2
  have hij := pending_disjoint hnodup (hrep.bound i hi) (hrep.bound j hj)
    (List.mem_of_getElem? hn) (List.mem_of_getElem? hn')
  subst hij
  have hlt := (List.getElem?_eq_some_iff.mp hn).1
  have hnn : n = n' := (List.getElem?_inj hlt (pending_list hnodup (hrep.bound i hi))).mp
    (hn.trans hn'.symm)
  subst hnn
  exact ⟨rfl, by rw [hk, hk']⟩

lemma Inv.queuesRunnable (h : Inv s B m) (hB : B < INT_MAX) : QueuesRunnable s := by
  have hnodup : ∀ w, (m w).Nodup := by
    intro w
    have := nodup_add.mp h.nodup
    cases w with
    | active => exact this.1
    | expired => exact this.2.1
  have hor : ∀ p, (s.proc p).state = .RUNNABLE ↔ ∃ w, p ∈ m w := by
    intro p
    rw [← h.runnable p, mem_add]
    constructor
    · rintro (hp | hp)
      · exact ⟨_, hp⟩
      · exact ⟨_, hp⟩
    · rintro ⟨w, hp⟩
      cases w with
      | active => exact .inl hp
      | expired => exact .inr hp
  refine ⟨fun p hp => ?_, fun w i k p hp => (hor p).mpr ⟨w, h.holds.mem.mpr ⟨i, k, hp⟩⟩, ?_⟩
  · obtain ⟨w, hw⟩ := (hor p).mp hp
    obtain ⟨i, k, hat⟩ := h.holds.mem.mp hw
    refine ⟨(w, i, k), hat, ?_⟩
    rintro ⟨w', j, k'⟩ hat'
    have hww : w' = w := by
      have hw' := h.holds.mem.mpr ⟨j, k', hat'⟩
      have hdisj : p ∈ m .active → p ∉ m .expired :=
        fun hp => disjoint_left.mp (nodup_add.mp h.nodup).2.2 hp
      cases w with
      | active =>
        cases w' with
        | active => rfl
        | expired => exact absurd hw' (hdisj hw)
      | expired =>
        cases w' with
        | active => exact absurd hw (hdisj hw')
        | expired => rfl
    subst hww
    obtain ⟨rfl, rfl⟩ := h.holds.unique (hnodup w') hat hat'
    rfl
  · obtain ⟨r, Q', es, hnext, hpicked⟩ := h.holds.getNextProc hB
    refine ⟨r, _, es, hnext, ?_⟩
    cases r with
    | none =>
      obtain ⟨hnone, -⟩ := hpicked.none rfl
      simp [← h.runnable, hnone]
    | some p =>
      obtain ⟨m', -, hsum, -⟩ := hpicked.some p rfl
      simp only [reduceCtorEq, false_iff, not_forall, not_not]
      refine ⟨p, (h.runnable p).mp ?_⟩
      rw [hsum]
      exact mem_cons_self p _

/-! Runs. -/

def Bounded (s : State) (a : Act) : Prop := Small s ∧ InRangeCall a

lemma Stirs.priority {v v' : View} (h : Stirs v v') (p : Slot) :
    (v'.proc p).lab.priority = (v.proc p).lab.priority ∧ (v'.proc p).pid = (v.proc p).pid := by
  induction h with
  | refl => exact ⟨rfl, rfl⟩
  | tail _ hstir ih =>
    obtain ⟨q, hstir⟩ := hstir
    rw [← ih.1, ← ih.2]
    by_cases hq : p = q
    · subst hq
      cases hstir with
      | mark f hstate hlab hpid => simp [View.set, hlab, hpid]
      | back h => simp [View.set, View.push, ready]
    · cases hstir with
      | mark f hstate hlab hpid => simp [View.set, update_of_ne hq]
      | back h => simp [View.set, View.push, update_of_ne hq]

lemma Moves.inRange {v v' : View} (h : Moves v v') (hv : ∀ p, InRange (v.proc p).lab.priority) :
    ∀ p, InRange (v'.proc p).lab.priority := by
  obtain ⟨u, hstirs, hmove⟩ := h
  have hu : ∀ p, InRange (u.proc p).lab.priority := by
    intro p
    rw [(hstirs.priority p).1]
    exact hv p
  intro p
  rcases hmove with rfl | ⟨q, hmove⟩
  · exact hu p
  · by_cases hq : p = q
    · subst hq
      have hold := hu p
      cases hmove with
      | found pid h => simp [View.set, InRange, MAX_PRIORITY]
      | lost h | stop state h hstate | reap h => simpa [View.set] using hold
      | start h => simpa [View.set, View.push] using hold
    · have hold := hu p
      cases hmove with
      | _ => simpa [View.set, View.push, update_of_ne hq] using hold

/-- What holds in every state of a bounded run. -/
structure Sound (s : State) : Prop where
  queues : ∃ B m, Inv s B m ∧ B < INT_MAX
  inRange : ∀ p, InRange (s.proc p).lab.priority

namespace Sound

lemma init : Sound init := by
  refine ⟨⟨-1, fun _ => 0, ⟨Holds.init, by simp, ?_⟩, by decide⟩, ?_⟩
  · intro p
    simp [O1.init, boot]
  · intro p
    simp [O1.init, boot, InRange, MAX_PRIORITY]

lemma dispatch (h : Sound s) (hs : Small s) :
    Outcome (fun _ => False) (fun r => Sound r.1) (Sched.step lab .scheduler s) := by
  obtain ⟨⟨B, m, hinv, -⟩, hrange⟩ := h
  obtain ⟨s', es, B', m', hs', hinv', hB', hdispatch⟩ := step_dispatch hs hinv
  rw [hs']
  refine ⟨⟨B', m', hinv', hB'⟩, fun p => ?_⟩
  generalize hv : (⟨s'.proc, m'⟩ : View) = v' at hdispatch
  have hproc : s'.proc = v'.proc := by rw [← hv]
  rw [hproc]
  cases hdispatch with
  | idle es hes hnone => exact hrange p
  | run q es m' hes hsum hactive =>
    by_cases hpq : p = q
    · subst hpq
      simpa [View.set] using hrange p
    · simpa [View.set, update_of_ne hpq] using hrange p

lemma call (h : Sound s) {x : SetPriority} (hx : InRange x.priority) :
    Outcome (fun _ => False) (fun r => Sound r.1) (Sched.step lab (.call x) s) := by
  obtain ⟨⟨B, m, hinv, hB⟩, hrange⟩ := h
  obtain ⟨s', hs', hinv', hcase⟩ := step_setpriority hinv x
  rw [hs']
  refine ⟨⟨B, m, hinv', hB⟩, fun p => ?_⟩
  rcases hcase with rfl | ⟨q, rfl⟩
  · exact hrange p
  · by_cases hpq : p = q
    · subst hpq
      simpa using hx
    · simpa [Table.set_proc_of_ne hpq] using hrange p

/-- An action keeps the queues sound, and the only errors are those of a process that is not there and
of a panic. -/
lemma step (h : Sound s) (ha : Bounded s a) :
    Outcome (fun e => e = .disabled ∨ e = .panic) (fun r => Sound r.1) (step lab a s) := by
  by_cases hsched : a = .scheduler
  · subst hsched
    exact (h.dispatch ha.1).imp (fun _ he => he.elim) fun _ hr => hr
  · by_cases hcall : ∃ x, a = .call x
    · obtain ⟨x, rfl⟩ := hcall
      exact (h.call (ha.2 x rfl)).imp (fun _ he => he.elim) fun _ hr => hr
    · obtain ⟨⟨B, m, hinv, -⟩, hrange⟩ := h
      refine (step_moves ha.1 hinv hsched fun x hx => hcall ⟨x, hx⟩).imp ?_ ?_
      · rintro e (he | he | ⟨p, hp⟩)
        · exact .inl he
        · exact .inr he
        · exact absurd (hrange p) hp
      · rintro ⟨s', es⟩ ⟨⟨B', m', hinv', hB', hmoves⟩, -⟩
        exact ⟨⟨B', m', hinv', hB'⟩, hmoves.inRange hrange⟩

lemma of_run (h : Run (Sched.step lab) Bounded O1.init es s) : Sound s := by
  refine h.invariant (fun s a s' es hs ha hstep => ?_) Sound.init
  have := hs.step ha
  rwa [hstep] at this

end Sound

/-- In every run that stays away from the end of the counters and gives each process a priority with a
queue, the containers hold each runnable process once, and nothing else. -/
theorem queues_hold_runnable (h : Run (step lab) Bounded init es s) : QueuesRunnable s := by
  obtain ⟨B, m, hinv, hB⟩ := (Sound.of_run h).queues
  exact hinv.queuesRunnable hB

/-- In such a run no index is out of bounds, and no remainder is taken by zero. -/
theorem indices_in_bounds (h : Run (step lab) Bounded init es s) (ha : Bounded s a) (f : Fault) :
    step lab a s ≠ .error (.fault f) := by
  intro herr
  have hstep := (Sound.of_run h).step ha
  rw [herr] at hstep
  rcases hstep with he | he
  · cases he
  · cases he

/-! A run that is bounded, and two that are not. -/

instance : DecidablePred Small := fun s =>
  decidable_of_iff (∀ i, i < MAX_PRIORITY →
      ((s.queue .active).validity i = true →
        ((s.queue .active).queue i).last + NPROC + 1 < INT_MAX) ∧
      ((s.queue .expired).validity i = true →
        ((s.queue .expired).queue i).last + NPROC + 1 < INT_MAX)) <| by
    constructor
    · intro h w i hi
      cases w with
      | active => exact (h i hi).1
      | expired => exact (h i hi).2
    · intro h i hi
      exact ⟨h .active i hi, h .expired i hi⟩

instance (s : State) (a : Act) : Decidable (Bounded s a) :=
  inferInstanceAs (Decidable (Small s ∧ InRangeCall a))

/-- A process forks, waits for its child, whose priority it has changed, and is woken by it. -/
def family : List Act :=
  [.allocproc, .userinit 0, .scheduler, .allocproc, .fork 0 1 (), .call ⟨2, 3⟩, .wait 0, .scheduler,
    .yield 1, .scheduler, .exit 1]

theorem family_queues : ∃ s : State, (s.proc 0).state = .RUNNABLE ∧ (s.proc 1).state = .ZOMBIE ∧
    QueuesRunnable s := by
  have hrun : Run (step lab) Bounded init _ _ := Run.of_allowed family rfl (by decide +kernel)
  exact ⟨_, rfl, rfl, queues_hold_runnable hrun⟩

theorem family_in_bounds : ∃ s : State, (s.proc 0).state = .RUNNABLE ∧
    ∀ f, step lab .scheduler s ≠ .error (.fault f) := by
  have hrun : Run (step lab) Bounded init _ _ := Run.of_allowed family rfl (by decide +kernel)
  exact ⟨_, rfl, indices_in_bounds hrun (by decide +kernel)⟩

/-- The lowest priority that the `nice` command takes has no queue. -/
theorem nice_out_of_bounds : ∃ (es : List Event) (s : State), Run (step lab) (fun _ _ => True) init es s ∧
      step lab (.yield 0) s = .error (.fault (.queue 20)) :=
  ⟨_, _, Run.of_runList [.allocproc, .userinit 0, .scheduler, .call ⟨1, 20⟩] rfl
    fun _ _ _ => trivial, rfl⟩

/-- Once a counter has gone past the largest `int`, a process that runs is still pending. -/
theorem wrapped_pending : ∃ (es : List Event) (s : State),
    Run (step lab) (fun _ a => InRangeCall a) init es s ∧ (s.proc 2).state = .RUNNING ∧
      PendingAt s .active 1 0 2 ∧ ¬ QueuesRunnable s := by
  obtain ⟨es₀, s₀, es, s, hrun₀, hrun, -, -, hturn, hstate, -, hring⟩ := wrapped
  have hat : PendingAt s .active 1 0 2 := by
    refine ⟨by decide, hturn.valid, ?_, ?_, 0, rfl, hring⟩
    · rw [hturn.pos]
      decide
    · rw [hturn.last]
      decide
  refine ⟨es₀ ++ es, s, hrun₀.trans (hrun.mono fun u a hu => hu.2), hstate, hat, fun h => ?_⟩
  have := h.only _ _ _ _ hat
  rw [hstate] at this
  cases this

end LearnXv6.Sched.O1
