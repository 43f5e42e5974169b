import LearnXv6.Sched.O1Queue

/-! What the containers hold, over the operations of the lab. -/
namespace LearnXv6.Sched.O1
open Function Store

variable {Q Q' : Queues} {B : ℤ} {m : Which → Multiset Slot} {w v : Which} {p : Slot} {s : State}

/-- The containers are well formed and hold the processes `m`, and no counter `last` of a valid queue
exceeds `B`. -/
def Holds (Q : Queues) (B : ℤ) (m : Which → Multiset Slot) : Prop :=
  ∀ w, ∃ L f, CRep (Q w) L f ∧ m w = pending f ∧ ∀ i ∈ L, ((Q w).queue i).last ≤ B

namespace Holds

lemma init : Holds (fun _ => initQueueContainer) (-1) fun _ => 0 := by
  intro w
  exact ⟨[], fun _ => [], .init, CRep.init.pending_nil.symm, by simp⟩

lemma mono {B' : ℤ} (h : Holds Q B m) (hB : B ≤ B') : Holds Q B' m := by
  intro w
  obtain ⟨L, f, hrep, hm, hlast⟩ := h w
  exact ⟨L, f, hrep, hm, fun i hi => (hlast i hi).trans hB⟩

lemma update {c : Container} {x : Multiset Slot} (h : Holds Q B m)
    (hc : ∃ L f, CRep c L f ∧ x = pending f ∧ ∀ i ∈ L, (c.queue i).last ≤ B) :
    Holds (update Q w c) B (update m w x) := by
  intro v
  by_cases hv : v = w
  · subst hv
    simpa using hc
  · simpa [update_of_ne hv] using h v

lemma insertRunnable (h : Holds s.queue B m) (hB : -1 ≤ B ∧ B < INT_MAX) (hp : (s.proc p).state = .RUNNABLE)
    (hprio : 0 ≤ (s.proc p).lab.priority ∧ (s.proc p).lab.priority < MAX_PRIORITY)
    (hcard : (m w).card < NPROC) : ∃ Q', insertRunnable p w s = .ok { s with queue := Q' } ∧
      Holds Q' (B + 1) (Function.update m w (p ::ₘ m w)) := by
  obtain ⟨i, hi⟩ := Int.eq_ofNat_of_zero_le hprio.1
  have hlt : i < MAX_PRIORITY := by omega
  obtain ⟨L, f, hrep, hm, hlast⟩ := h w
  have hfits : (f i).length < NPROC := by
    have := length_le_pending (f := f) hlt
    rw [← hm] at this
    omega
  obtain ⟨c', q', L', hget, hadd, hrep', hlast'⟩ := hrep.insert hlt hfits hB hlast p
  refine ⟨Function.update s.queue w (c'.setQueue i q'), ?_, ?_⟩
  · rw [O1.insertRunnable, if_neg (not_not.mpr hp), hi]
    rw [hget, ok_bind]
    dsimp only
    rw [hadd, ok_bind]
    rfl
  · refine (h.mono (by omega)).update ⟨L', _, hrep', ?_, hlast'⟩
    rw [pending_push hlt, hm]

end Holds

/-- What `getNextProc` answers: nothing, when nothing is pending, or a process, which then is no longer
pending. Without an exchange it was pending in the active container. -/
structure Picked (B : ℤ) (m : Which → Multiset Slot) (r : Option Slot) (Q' : Queues)
    (es : List Event) : Prop where
  exchange : ∀ e ∈ es, e = .exchange
  none : r = none → m .active + m .expired = 0 ∧ Holds Q' B fun _ => 0
  some : ∀ p, r = some p → ∃ m', Holds Q' B m' ∧
    m .active + m .expired = p ::ₘ (m' .active + m' .expired) ∧
    (es = [] → m .active = p ::ₘ m' .active ∧ m' .expired = m .expired)

namespace Picked

variable {r : Option Slot} {es es' : List Event}

lemma prepend {m1 : Which → Multiset Slot} (h : Picked B m1 r Q' es)
    (hes : ∀ e ∈ es', e = .exchange) (hsum : m1 .active + m1 .expired = m .active + m .expired)
    (hm : es' = [] → m1 = m) : Picked B m r Q' (es' ++ es) := by
  refine ⟨?_, ?_, ?_⟩
  · intro e he
    rcases List.mem_append.mp he with he | he
    · exact hes e he
    · exact h.exchange e he
  · intro hr
    rw [← hsum]
    exact h.none hr
  · intro p hp
    obtain ⟨m', hm', htotal, hactive⟩ := h.some p hp
    refine ⟨m', hm', by rw [← hsum, htotal], fun hnil => ?_⟩
    rw [List.append_eq_nil_iff] at hnil
    rw [← hm hnil.1]
    exact hactive hnil.2

end Picked

section Next

variable {L : Which → List ℕ} {f : Which → ℕ → List Slot} {a : ℕ} {t : List ℕ}

/-- The containers with their lists, for the recursion of `getNextProc`. -/
structure Lists (s : State) (B : ℤ) (L : Which → List ℕ) (f : Which → ℕ → List Slot) : Prop where
  rep : ∀ w, CRep (s.queue w) (L w) (f w)
  last : ∀ w, ∀ i ∈ L w, ((s.queue w).queue i).last ≤ B

lemma Lists.holds (h : Lists s B L f) : Holds s.queue B fun w => pending (f w) :=
  fun w => ⟨L w, f w, h.rep w, rfl, h.last w⟩

lemma Lists.exchange (h : Lists s B L f) : Lists (exchange s) B (fun w => L w.other) fun w => f w.other :=
  ⟨fun w => h.rep w.other, fun w => h.last w.other⟩

lemma Lists.drop (h : Lists s B L f) (hL : L .active = a :: t) (hempty : f .active a = []) :
    ∃ Q', Lists { s with queue := Q' } B (update L .active t) f ∧
      setNextQueue s = .ok (if t = [] then (O1.exchange { s with queue := Q' }, [.exchange])
        else ({ s with queue := Q' }, [])) := by
  have hrep := h.rep .active
  have hlast := h.last .active
  rw [hL] at hrep hlast
  have hact := hrep.linked.1
  have hdrop := hrep.drop hempty
  have ha := hrep.bound a (by simp)
  have hnext : ((s.queue .active).queue a).next = none ↔ t = [] := hrep.linked.2.eq_none
  refine ⟨update s.queue .active { s.queue .active with
    validity := update (s.queue .active).validity a false
    actualQueue := ((s.queue .active).queue a).next }, ⟨?_, ?_⟩, ?_⟩
  · intro w
    cases w with
    | active => simpa using hdrop
    | expired => simpa using h.rep .expired
  · intro w
    cases w with
    | active =>
      intro i hi
      simp only [update_self] at hi ⊢
      exact hlast i (by simp [hi])
    | expired => simpa using h.last .expired
  · simp only [setNextQueue, hact]
    rw [(hrep.queue a (by simp)).priority, queueIndex_ok ha, ok_bind]
    split
    · rename_i b hb
      rw [if_neg (fun ht => by rw [hnext.mpr ht] at hb; cases hb)]
      rfl
    · rename_i hb
      rw [if_pos (hnext.mp hb)]
      rfl

lemma Lists.take (h : Lists s B L f) (hB : B < INT_MAX) (hL : L .active = a :: t) {p : Slot}
    {l : List Slot} (hp : f .active a = p :: l) : ∃ Q', takeProc a s = .ok (some p, { s with queue := Q' }) ∧
      Lists { s with queue := Q' } B L
        (update f .active (update (f .active) a l)) := by
  have hmem : a ∈ L .active := by simp [hL]
  have hq := (h.rep .active).queue a hmem
  have hlast := h.last .active a hmem
  rw [hp] at hq
  obtain ⟨hindex, hentry, hq'⟩ := hq.take (by omega)
  refine ⟨update s.queue .active ((s.queue .active).setQueue a
    { (s.queue .active).queue a with pos := wrap (((s.queue .active).queue a).pos + 1) }), ?_, ?_, ?_⟩
  · rw [takeProc, hindex, ok_bind, hentry]
    rfl
  · intro w
    cases w with
    | active => simpa using (h.rep .active).setQueue hmem hq' rfl
    | expired => simpa using h.rep .expired
  · intro w
    cases w with
    | active =>
      intro i hi
      by_cases hia : i = a
      · subst hia
        simpa [Container.setQueue] using hlast
      · simpa [Container.setQueue, update_of_ne hia] using h.last .active i hi
    | expired => simpa using h.last .expired

/-- A call of `getNextProc`, or of what it calls, that comes back with an answer. -/
def Answers (r : Except Fault (Option Slot × State × List Event)) (s : State) (B : ℤ)
    (m : Which → Multiset Slot) : Prop :=
  ∃ p Q' es, r = .ok (p, { s with queue := Q' }, es) ∧ Picked B m p Q' es

lemma Lists.fromQueue {again : State → Except Fault (Option Slot × State × List Event)} {n : ℕ}
    (hagain : ∀ s L f, Lists s B L f → (L .active).length + (L .expired).length < n →
      Answers (again s) s B fun w => pending (f w))
    (h : Lists s B L f) (hB : B < INT_MAX) (hL : L .active = a :: t)
    (hlen : (L .active).length + (L .expired).length ≤ n) :
    Answers (O1.fromQueue again a s) s B fun w => pending (f w) := by
  have hmem : a ∈ L .active := by simp [hL]
  have husedUp := ((h.rep .active).queue a hmem).usedUp
  rw [O1.fromQueue]
  cases hp : f .active a with
  | nil =>
    rw [if_pos (husedUp.mpr hp)]
    obtain ⟨Q1, hlists, hnext⟩ := h.drop hL hp
    rw [hL, List.length_cons] at hlen
    rw [hnext, ok_bind]
    by_cases ht : t = []
    · rw [if_pos ht]
      obtain ⟨r, Q', es, hr, hpicked⟩ := hagain _ _ _ hlists.exchange (by
        simp only [Which.other, update_self]
        rw [update_of_ne (by decide)]
        omega)
      refine ⟨r, Q', [.exchange] ++ es, ?_, hpicked.prepend (by simp) (add_comm _ _) (by simp)⟩
      dsimp only
      rw [hr, ok_bind]
      rfl
    · rw [if_neg ht]
      obtain ⟨r, Q', es, hr, hpicked⟩ := hagain _ _ _ hlists (by
        rw [update_self, update_of_ne (by decide)]
        omega)
      refine ⟨r, Q', [] ++ es, ?_, hpicked.prepend (by simp) rfl fun _ => rfl⟩
      dsimp only
      rw [hr, ok_bind]
      rfl
  | cons p l =>
    have hnot : ¬ ((s.queue .active).queue a).pos > ((s.queue .active).queue a).last :=
      fun hlt => by
        rw [husedUp.mp hlt] at hp
        cases hp
    rw [if_neg hnot]
    obtain ⟨Q', htake, hlists⟩ := h.take hB hL hp
    have hpop := pending_pop ((h.rep .active).bound a hmem) hp
    refine ⟨some p, Q', [], by rw [htake]; rfl, by simp, by simp, fun p' hp' => ?_⟩
    cases hp'
    refine ⟨_, hlists.holds, ?_, fun _ => ⟨?_, ?_⟩⟩
    · simp [hpop]
    · simp [hpop]
    · simp

lemma Lists.getNextProcFuel (h : Lists s B L f) (hB : B < INT_MAX) {n : ℕ}
    (hlen : (L .active).length + (L .expired).length < n) :
    Answers (O1.getNextProcFuel n s) s B fun w => pending (f w) := by
  induction n generalizing s L f with
  | zero => omega
  | succ n ih =>
    have hagain : ∀ s L f, Lists s B L f → (L .active).length + (L .expired).length < n →
        Answers (O1.getNextProcFuel n s) s B fun w => pending (f w) :=
      fun _ _ _ h hlen => ih h hlen
    cases hL : L .active with
    | cons a t =>
      have hact := (h.rep .active).linked
      rw [hL] at hact
      obtain ⟨r, Q', es, hr, hpicked⟩ := h.fromQueue hagain hB hL (by omega)
      refine ⟨r, Q', [] ++ es, ?_, hpicked.prepend (by simp) rfl fun _ => rfl⟩
      simp only [O1.getNextProcFuel, nonempty, hact.1]
      rw [hr]
      rfl
    | nil =>
      have hact := (h.rep .active).linked.eq_none.mpr hL
      have hswap := h.exchange
      cases hL' : L .expired with
      | nil =>
        have hexp := (h.rep .expired).linked.eq_none.mpr hL'
        have hnil : ∀ w, pending (f w) = 0 := by
          intro w
          have hrep := h.rep w
          cases w with
          | active =>
            rw [hL] at hrep
            exact hrep.pending_nil
          | expired =>
            rw [hL'] at hrep
            exact hrep.pending_nil
        refine ⟨none, (O1.exchange s).queue, [.exchange], ?_, by simp, fun _ => ⟨?_, ?_⟩, by simp⟩
        · simp [O1.getNextProcFuel, nonempty, hact, O1.exchange, Which.other, hexp]
        · simp [hnil]
        · simpa [hnil] using hswap.holds
      | cons a t =>
        have hexp := (h.rep .expired).linked
        rw [hL'] at hexp
        obtain ⟨r, Q', es, hr, hpicked⟩ := hswap.fromQueue hagain hB (a := a) (t := t) hL'
          (by simp only [Which.other]; omega)
        refine ⟨r, Q', [.exchange] ++ es, ?_, hpicked.prepend (by simp) (add_comm _ _) (by simp)⟩
        have hact' : ((O1.exchange s).queue .active).actualQueue = some a := hexp.1
        simp only [O1.getNextProcFuel, nonempty, hact, hact']
        rw [hr]
        rfl

end Next

lemma CRep.length_le {c : Container} {L : List ℕ} {f : ℕ → List Slot} (h : CRep c L f) :
    L.length ≤ MAX_PRIORITY := by
  have hsub : L ⊆ List.range MAX_PRIORITY := fun i hi => List.mem_range.mpr (h.bound i hi)
  simpa using (List.subperm_of_subset h.nodup hsub).length_le

lemma Holds.getNextProc (h : Holds s.queue B m) (hB : B < INT_MAX) : Answers (getNextProc s) s B m := by
  choose L f hrep hm hlast using h
  have hlists : Lists s B L f := ⟨hrep, hlast⟩
  have hlen : (L .active).length + (L .expired).length < 2 * MAX_PRIORITY + 1 := by
    have h1 := (hrep .active).length_le
    have h2 := (hrep .expired).length_le
    omega
  rw [funext hm]
  exact hlists.getNextProcFuel hB hlen

end LearnXv6.Sched.O1
