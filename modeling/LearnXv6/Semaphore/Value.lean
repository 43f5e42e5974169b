import LearnXv6.Semaphore.Locks

/-! The value of a semaphore, and that nobody sleeps on it who could go on. -/
namespace LearnXv6.Semaphore
open Function Store State

variable {τ : Type} {s s' s₀ s₁ : State τ} {a : Action τ} {t u : τ} {i j : Index} {p : Phase} {c : Call}
  {v : ℤ} {es es₀ es₁ : List Event}

/-- The semaphore that a process within a call is at, once it has come to it. -/
def Phase.at : Phase → Option Index
  | locked i _ | asleep i _ | waking i | releasing i => some i
  | out | acquiring _ => none

/-- A process that has come to a semaphore has been called for it. -/
def Phase.Located (p : Phase) : Prop :=
  ∀ c j, p.call = some c → p.at = some j → slot c.sem = some j

lemma Next.located {p' : Phase} (h : Next p p') (hp : p.Located) : p'.Located := by
  intro c j hc hj
  cases h with
  | acquire hi =>
    cases hc
    cases hj
    exact hi
  | sleep => exact hp c j hc hj
  | wake => cases hj
  | refuse | update | signal | wakeup | release => cases hc

/-- What the calls that have taken effect have added to the value. -/
def net (i : Index) (es : List Event) : ℤ :=
  (es.map fun e => match e with
    | .waited j count => if j = i then -count else 0
    | .signaled j count => if j = i then count else 0
    | .returned _ => 0).sum

@[simp] lemma net_nil : net i [] = 0 := rfl

@[simp] lemma net_waited {count : ℤ} :
    net i [.waited j count] = if j = i then -count else 0 := by simp [net]

@[simp] lemma net_signaled {count : ℤ} :
    net i [.signaled j count] = if j = i then count else 0 := by simp [net]

@[simp] lemma net_returned {r : ℤ} : net i [.returned r] = 0 := by simp [net]

lemma net_append : net i (es ++ es₀) = net i es + net i es₀ := by
  simp [net]

/-- A call that waits for a count or adds it. -/
def Call.Counts : Call → Prop
  | wait _ count | signal _ count => 0 ≤ count
  | init _ _ | destroy _ => False

instance : ∀ c : Call, Decidable c.Counts
  | .wait _ _ | .signal _ _ => inferInstanceAs (Decidable (_ ≤ _))
  | .init _ _ | .destroy _ => inferInstanceAs (Decidable False)

/-- The value after the addition of `sem_signal` to the semaphore. -/
def State.added (s : State τ) (i : Index) : Phase → ℤ
  | .locked j (.signal _ count) => if j = i then (s.sema i).value + count else 0
  | _ => 0

/-- The calls for the semaphore wait for counts or add them, and no addition overflows. -/
def Counted (i : Index) (s : State τ) : Action τ → Prop
  | .call _ c => slot c.sem = some i → c.Counts
  | .body t => s.added i (s.phase t) < 2 ^ 31
  | .acquire _ | .wakeup _ | .release _ | .kill _ => True

/-- The calls in progress for the semaphore are such. -/
def Phase.Counts (i : Index) (p : Phase) : Prop :=
  ∀ c, p.call = some c → slot c.sem = some i → c.Counts

lemma Next.counts {p' : Phase} (h : Next p p') (hp : p.Counts i) : p'.Counts i := by
  intro c hc hi
  cases h with
  | acquire _ | sleep | wake => exact hp c hc hi
  | refuse | update | signal | wakeup | release => cases hc

/-- The semaphore `i`, which began with `v`: whoever sleeps on it cannot go on, or is about to be
woken. -/
structure Fair (i : Index) (v : ℤ) (es : List Event) (s : State τ) : Prop where
  locked : Locked s
  located : ∀ t, (s.phase t).Located
  counts : ∀ t, (s.phase t).Counts i
  value : (s.sema i).value = v + net i es
  nonneg : 0 ≤ (s.sema i).value
  bound : (s.sema i).value < 2 ^ 31
  asleep : ∀ t sem count, s.phase t = .asleep i (.wait sem count) →
    (s.sema i).value < count ∨ ∃ u, s.phase u = .waking i

namespace Fair

lemma call_counts (h : Fair i v es s) (ht : s.phase t = .locked i c) : c.Counts := by
  have hi := h.located t c i (by rw [ht]; rfl) (by rw [ht]; rfl)
  exact h.counts t c (by rw [ht]; rfl) hi

lemma not_waking (h : Fair i v es s) (ht : s.phase t = .locked i c) (u : τ) : s.phase u ≠ .waking i := by
  intro hu
  have heq := h.locked.unique (t := t) (u := u) (by rw [holds, ht]; rfl)
    (by rw [holds, hu]; rfl)
  subst heq
  rw [ht] at hu
  cases hu

variable [DecidableEq τ]

lemma keep (h : Fair i v es s) (ha : Counted i s a) (hd : Does s a s' es₀)
    (hvalue : (s'.sema i).value = (s.sema i).value + net i es₀)
    (hnonneg : 0 ≤ (s'.sema i).value) (hbound : (s'.sema i).value < 2 ^ 31)
    (hasleep : ∀ t sem count, s'.phase t = .asleep i (.wait sem count) →
      (s'.sema i).value < count ∨ ∃ u, s'.phase u = .waking i) : Fair i v (es ++ es₀) s' := by
  refine ⟨h.locked.does hd, hd.phases h.located ?_ fun _ _ hn => hn.located,
    hd.phases h.counts ?_ fun _ _ hn => hn.counts, ?_, hnonneg, hbound, hasleep⟩
  · rintro t c rfl c' j hc hj
    cases hj
  · rintro t c rfl c' hc hi
    cases hc
    exact ha hi
  · rw [hvalue, h.value, net_append, add_assoc]

lemma asleep_goto (h : Fair i v es s) {w : State τ} (hw : w.phase = s.phase)
    (hle : (w.sema i).value ≤ (s.sema i).value) (ht : s.phase t ≠ .waking i)
    (hp : ∀ sem count, p ≠ .asleep i (.wait sem count)) (u : τ) (sem count : ℤ)
    (hu : (w.goto t p).phase u = .asleep i (.wait sem count)) :
    ((w.goto t p).sema i).value < count ∨ ∃ u, (w.goto t p).phase u = .waking i := by
  have hut : u ≠ t := by
    rintro rfl
    simp only [goto, update_self] at hu
    exact hp sem count hu
  simp only [goto, update_of_ne hut, hw] at hu
  rcases h.asleep u sem count hu with hlt | ⟨x, hx⟩
  · exact .inl (hle.trans_lt hlt)
  · have hxt : x ≠ t := fun he => ht (he ▸ hx)
    exact .inr ⟨x, by simp only [goto, update_of_ne hxt, hw, hx]⟩

lemma step_goto (h : Fair i v es s) (ha : Counted i s a) {w : State τ}
    (hd : Does s a (w.goto t p) es₀) (hw : w.phase = s.phase)
    (hvalue : (w.sema i).value = (s.sema i).value) (hnet : net i es₀ = 0)
    (ht : s.phase t ≠ .waking i) (hp : ∀ sem count, p ≠ .asleep i (.wait sem count)) :
    Fair i v (es ++ es₀) (w.goto t p) := by
  have heq : ((w.goto t p).sema i).value = (s.sema i).value := hvalue
  refine h.keep ha hd ?_ ?_ ?_ (h.asleep_goto hw hvalue.le ht hp)
  · rw [heq, hnet, add_zero]
  · rw [heq]
    exact h.nonneg
  · rw [heq]
    exact h.bound

omit [DecidableEq τ] in
lemma value_set_of_ne {x : Sema τ} (hj : j ≠ i) : ((s.set j x).sema i).value = (s.sema i).value := by
  simp [State.set, update_of_ne hj.symm]

omit [DecidableEq τ] in
lemma value_set_eq {x : Sema τ} (hx : x.value = (s.sema j).value) :
    ((s.set j x).sema i).value = (s.sema i).value := by
  by_cases hj : i = j
  · subst hj
    simp [State.set, hx]
  · simp [State.set, update_of_ne hj]

variable (h : Fair i v es s)
include h

lemma step_wait {sem count : ℤ} (ht : s.phase t = .locked i (.wait sem count))
    (hle : count ≤ (s.sema i).value) (ha : Counted i s (.body t)) : Fair i v (es ++ [.waited i count])
      ((s.set i { s.sema i with value := wrap ((s.sema i).value - count) }).goto t (.releasing i)) := by
  have hcount : 0 ≤ count := h.call_counts ht
  have hb := h.bound
  have hwrap := wrap_of_lt (x := (s.sema i).value - count) (by omega) (by omega)
  have hvalue : ((s.set i { s.sema i with value := wrap ((s.sema i).value - count) }).sema i).value =
      (s.sema i).value - count := by simp [State.set, hwrap]
  refine h.keep ha (.wait t i sem count ht hle) ?_ ?_ ?_
    (h.asleep_goto rfl (by rw [hvalue]; omega) (by rw [ht]; simp) (by simp))
  · exact hvalue.trans (by simp [sub_eq_add_neg])
  · exact (by omega : 0 ≤ (s.sema i).value - count).trans_eq hvalue.symm
  · exact hvalue.trans_lt (by omega)

lemma step_sleep {sem count : ℤ} (ht : s.phase t = .locked i (.wait sem count))
    (hlt : (s.sema i).value < count) (ha : Counted i s (.body t)) : Fair i v (es ++ [])
      ((s.set i { s.sema i with lock := none }).goto t (.asleep i (.wait sem count))) := by
  have hvalue : ((s.set i { s.sema i with lock := none }).sema i).value = (s.sema i).value :=
    value_set_eq rfl
  refine h.keep ha (.sleep t i sem count ht hlt) ?_ ?_ ?_ ?_
  · exact hvalue.trans (by simp)
  · exact h.nonneg.trans_eq hvalue.symm
  · exact hvalue.trans_lt h.bound
  · intro u sem' count' hu
    left
    refine hvalue.trans_lt ?_
    by_cases hut : u = t
    · subst hut
      simp only [goto, update_self] at hu
      cases hu
      exact hlt
    · simp only [State.goto, State.set, update_of_ne hut] at hu
      rcases h.asleep u sem' count' hu with hlt | ⟨x, hx⟩
      · exact hlt
      · exact absurd hx (h.not_waking ht x)

lemma step_signal {sem count : ℤ}
    (ht : s.phase t = .locked i (.signal sem count)) (ha : Counted i s (.body t)) :
    Fair i v (es ++ [.signaled i count])
      ((s.set i { s.sema i with value := wrap ((s.sema i).value + count) }).goto t (.waking i)) := by
  have hcount : 0 ≤ count := h.call_counts ht
  have hn := h.nonneg
  have hb : (s.sema i).value + count < 2 ^ 31 := by
    have hadded : s.added i (s.phase t) < 2 ^ 31 := ha
    rw [ht] at hadded
    simpa [added] using hadded
  have hwrap := wrap_of_lt (x := (s.sema i).value + count) (by omega) hb
  have hvalue : ((s.set i { s.sema i with value := wrap ((s.sema i).value + count) }).sema i).value =
      (s.sema i).value + count := by simp [State.set, hwrap]
  refine h.keep ha (.signal t i sem count ht) ?_ ?_ ?_ fun _ _ _ _ => .inr ⟨t, by simp [State.goto]⟩
  · exact hvalue.trans (by simp)
  · exact (by omega : 0 ≤ (s.sema i).value + count).trans_eq hvalue.symm
  · exact hvalue.trans_lt hb

lemma step_wakeup (ht : s.phase t = .waking j) :
    Fair i v (es ++ []) ((s.wakeup j).goto t (.releasing j)) := by
  refine h.keep (a := .wakeup t) trivial (.wakeup t j ht) (by simp [goto, wakeup])
    h.nonneg h.bound ?_
  intro u sem count hu
  have hut : u ≠ t := by
    rintro rfl
    simp only [goto, update_self] at hu
    cases hu
  simp only [goto, wakeup, update_of_ne hut] at hu
  have hji : j ≠ i ∧ s.phase u = .asleep i (.wait sem count) := by
    cases hp : s.phase u with
    | asleep x c =>
      rw [hp] at hu
      simp only [Phase.wake] at hu
      split at hu
      · cases hu
      · rename_i hx
        cases hu
        exact ⟨fun he => hx he.symm, rfl⟩
    | _ =>
      rw [hp] at hu
      cases hu
  rcases h.asleep u sem count hji.2 with hlt | ⟨x, hx⟩
  · exact .inl hlt
  · have hxt : x ≠ t := by
      rintro rfl
      rw [ht] at hx
      cases hx
      exact hji.1 rfl
    refine .inr ⟨x, ?_⟩
    simp only [goto, wakeup, update_of_ne hxt, hx]
    rfl

lemma does (ha : Counted i s a) (hd : Does s a s' es₀) : Fair i v (es ++ es₀) s' := by
  cases hd with
  | call t c ht =>
    exact h.step_goto ha (.call t c ht) rfl rfl rfl (by rw [ht]; simp) nofun
  | acquire t c j ht hj hfree =>
    exact h.step_goto ha (.acquire t c j ht hj hfree) rfl (value_set_eq rfl) rfl (by rw [ht]; simp)
      nofun
  | init t j sem value ht hactive =>
    have hji : j ≠ i := by
      rintro rfl
      exact h.call_counts ht
    exact h.step_goto ha (.init t j sem value ht hactive) rfl (value_set_of_ne hji) rfl
      (by rw [ht]; simp) nofun
  | refuse t j sem value ht hactive =>
    exact h.step_goto ha (.refuse t j sem value ht hactive) rfl rfl net_returned (by rw [ht]; simp)
      nofun
  | destroy t j sem ht =>
    exact h.step_goto ha (.destroy t j sem ht) rfl (value_set_eq rfl) rfl (by rw [ht]; simp)
      nofun
  | wait t j sem count ht hle =>
    by_cases hji : j = i
    · subst hji
      exact h.step_wait ht hle ha
    · exact h.step_goto ha (.wait t j sem count ht hle) rfl (value_set_of_ne hji) (by simp [hji])
        (by rw [ht]; simp) nofun
  | sleep t j sem count ht hlt =>
    by_cases hji : j = i
    · subst hji
      exact h.step_sleep ht hlt ha
    · exact h.step_goto ha (.sleep t j sem count ht hlt) rfl (value_set_eq rfl) rfl (by rw [ht]; simp)
        (by rintro sem count ⟨⟩; exact hji rfl)
  | signal t j sem count ht =>
    by_cases hji : j = i
    · subst hji
      exact h.step_signal ht ha
    · exact h.step_goto ha (.signal t j sem count ht) rfl (value_set_of_ne hji) (by simp [hji])
        (by rw [ht]; simp) nofun
  | wakeup t j ht => exact h.step_wakeup ht
  | release t j ht =>
    exact h.step_goto ha (.release t j ht) rfl (value_set_eq rfl) net_returned (by rw [ht]; simp)
      nofun
  | kill t j c ht =>
    exact h.step_goto ha (.kill t j c ht) rfl rfl rfl (by rw [ht]; simp) nofun
  | mark t => simpa using h

end Fair

variable [DecidableEq τ]

lemma located_of_run {C : State τ → Action τ → Prop} (h : Run step C boot es s) :
    Locked s ∧ ∀ t, (s.phase t).Located := by
  refine Run.invariant (I := fun s => Locked s ∧ ∀ t, (s.phase t).Located) ?_ h ⟨?_, ?_⟩
  · intro s a s' es hI _ hstep
    have hd := step_does hstep
    refine ⟨hI.1.does hd, hd.phases hI.2 ?_ fun _ _ hn => hn.located⟩
    rintro t c rfl c' j _ hj
    cases hj
  · intro t i hi
    cases hi
  · intro t c j hc
    cases hc

lemma Fair.of_init {sem : ℤ} (hv : 0 ≤ v) (hmax : v < 2 ^ 31) (hlocked : Locked s)
    (hlocated : ∀ t, (s.phase t).Located) (ht : s.phase t = .locked i (.init sem v))
    (hactive : (s.sema i).active = false)
    (hcalls : ∀ u ≠ t, (s.phase u).Counts i ∧
      ∀ sem count, s.phase u = .asleep i (.wait sem count) → v < count)
    (h : step (.body t) s = .ok (s₁, es₁)) : Fair i v [] s₁ := by
  have hs1 : s₁ =
      (s.set i { s.sema i with active := true, value := v }).goto t (.releasing i) := by
    simp only [step, ht, body, semInit, hactive, if_true] at h
    cases h
    rfl
  have hd : Does s (.body t) s₁ [] := by
    rw [hs1]
    exact .init t i sem v ht hactive
  have hvalue : (s₁.sema i).value = v := by simp [hs1, State.goto, State.set]
  have hself : s₁.phase t = .releasing i := by simp [hs1, State.goto]
  have hother : ∀ u ≠ t, s₁.phase u = s.phase u := by
    intro u hu
    simp [hs1, State.goto, State.set, update_of_ne hu]
  refine ⟨hlocked.does hd, hd.phases hlocated (by simp) fun _ _ hn => hn.located, ?_,
    by simp [hvalue], hvalue ▸ hv, hvalue ▸ hmax, ?_⟩
  · intro u
    by_cases hu : u = t
    · subst hu
      rw [hself]
      intro c hc
      cases hc
    · rw [hother u hu]
      exact (hcalls u hu).1
  · intro u sem count hasleep
    by_cases hu : u = t
    · subst hu
      rw [hself] at hasleep
      cases hasleep
    · rw [hother u hu] at hasleep
      exact .inl (hvalue.trans_lt ((hcalls u hu).2 _ _ hasleep))

/-- From the `sem_init` of a semaphore that is not active and on which nobody sleeps for as much as the
value, the value is what the calls have made it, and whoever sleeps while the lock is free waits for
more. -/
theorem value_conserved {sem : ℤ} (hboot : Run step (fun _ _ => True) boot es₀ s₀) (hv : 0 ≤ v)
    (hmax : v < 2 ^ 31) (ht : s₀.phase t = .locked i (.init sem v)) (hactive : (s₀.sema i).active = false)
    (hcalls : ∀ u ≠ t, (s₀.phase u).Counts i ∧
      ∀ sem count, s₀.phase u = .asleep i (.wait sem count) → v < count)
    (hinit : step (.body t) s₀ = .ok (s₁, es₁)) (hrun : Run step (Counted i) s₁ es s) :
    (s.sema i).value = v + net i es ∧ 0 ≤ (s.sema i).value ∧ ((s.sema i).lock = none →
        ∀ u sem count, s.phase u = .asleep i (.wait sem count) → (s.sema i).value < count) := by
  obtain ⟨hlocked, hlocated⟩ := located_of_run hboot
  have hfair := hrun.history (I := Fair i v)
      (fun es s a s' es' h ha hstep => h.does ha (step_does hstep))
      (.of_init hv hmax hlocked hlocated ht hactive hcalls hinit)
  refine ⟨hfair.value, hfair.nonneg, fun hfree u sem count hu => ?_⟩
  rcases hfair.asleep u sem count hu with hlt | ⟨x, hx⟩
  · exact hlt
  · -- whoever is about to wake the sleepers has the lock
    have hlock := hfair.locked x i (by rw [holds, hx]; rfl)
    rw [lock, hfree] at hlock
    cases hlock

instance (i : Index) (s : State τ) : ∀ a, Decidable (Counted i s a)
  | .call _ c => inferInstanceAs (Decidable (slot c.sem = some i → c.Counts))
  | .body _ => inferInstanceAs (Decidable (_ < _))
  | .acquire _ | .wakeup _ | .release _ | .kill _ => inferInstanceAs (Decidable True)

/-- A process waits for two of one, and another one takes it. -/
theorem waiter_asleep : ∃ s : State (Fin 3), (s.sema 0).lock = none ∧ s.phase 1 = .asleep 0 (.wait 0 2) ∧
    (s.sema 0).value = 1 + net 0 [.returned 0, .waited 0 1, .returned 0] ∧ (s.sema 0).value < 2 := by
  let s₀ : State (Fin 3) := ((boot.goto 0 (.acquiring (.init 0 1))).set 0 ⟨0, false, some 0⟩).goto 0
    (.locked 0 (.init 0 1))
  have hinit : Run step (fun _ _ => True) boot [] s₀ :=
    .of_runList [.call 0 (.init 0 1), .acquire 0] rfl (by simp)
  obtain ⟨s, hrun, hfree, hasleep⟩ : ∃ s, Run step (Counted 0)
      ((s₀.set 0 ⟨1, true, some 0⟩).goto 0 (.releasing 0)) [.returned 0, .waited 0 1, .returned 0] s ∧
      (s.sema 0).lock = none ∧ s.phase 1 = .asleep 0 (.wait 0 2) :=
    Run.of_leads [.release 0, .call 1 (.wait 0 2), .acquire 1, .body 1, .call 2 (.wait 0 1), .acquire 2, .body 2,
      .release 2] (by decide +kernel)
  have hcalls : ∀ u ≠ 0, (s₀.phase u).Counts 0 ∧
      ∀ sem count, s₀.phase u = .asleep 0 (.wait sem count) → 1 < count := by
    intro u hu
    have hout : s₀.phase u = .out := by
      simp [s₀, State.goto, State.set, update_of_ne hu, boot]
    rw [hout]
    exact ⟨fun c hc => (by cases hc), fun _ _ hc => (by cases hc)⟩
  obtain ⟨hvalue, _, hlt⟩ := value_conserved hinit (by decide) (by decide) rfl rfl hcalls rfl hrun
  exact ⟨s, hfree, hasleep, hvalue, hlt hfree 1 0 2 hasleep⟩

/-- A process sleeps in `sem_wait` on the semaphore that is not active yet. `sem_init` sets the value without
`wakeup`, and the process sleeps on with a count below the value while the lock is free. -/
theorem asleep_before_init : ∃ s₀ s : State (Fin 2), Run step (fun _ _ => True) boot [] s₀ ∧
    s₀.phase 0 = .locked 0 (.init 0 5) ∧ (s₀.sema 0).active = false ∧
    Run step (Counted 0) s₀ [.returned 0] s ∧ (s.sema 0).lock = none ∧ (s.sema 0).value = 5 ∧
    s.phase 1 = .asleep 0 (.wait 0 1) := by
  obtain ⟨s₀, hboot, hphase, hactive, hafter⟩ : ∃ s₀ : State (Fin 2), Run step (fun _ _ => True) boot [] s₀ ∧
      s₀.phase 0 = .locked 0 (.init 0 5) ∧ (s₀.sema 0).active = false ∧
      leads step (Counted 0) [.body 0, .release 0] s₀ [.returned 0] (fun s =>
        (s.sema 0).lock = none ∧ (s.sema 0).value = 5 ∧ s.phase 1 = .asleep 0 (.wait 0 1)) = true :=
    Run.of_leads [.call 1 (.wait 0 1), .acquire 1, .body 1, .call 0 (.init 0 5), .acquire 0] (by decide +kernel)
  obtain ⟨s, hrun, hend⟩ := Run.of_leads _ hafter
  exact ⟨s₀, s, hboot, hphase, hactive, hrun, hend⟩

end LearnXv6.Semaphore
