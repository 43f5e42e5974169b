import LearnXv6.Semaphore.Model

/-! Who holds the locks of the semaphores. -/
namespace LearnXv6.Semaphore
open Function Store State

variable {τ : Type} {s s' : State τ} {a : Action τ} {t u : τ} {i j : Index} {p : Phase} {x : Sema τ}
  {es : List Event}

lemma slot_eq_none {sem : ℤ} : slot sem = none ↔ ¬ (0 ≤ sem ∧ sem < NSEMA) := by
  unfold slot
  split
  · rename_i h
    simp [h]
  · rename_i h
    simpa using h

/-- The semaphore whose lock is held. -/
def Phase.holds : Phase → Option Index
  | locked i _ | waking i | releasing i => some i
  | out | acquiring _ | asleep _ _ => none

variable [DecidableEq τ]

inductive Does (s : State τ) : Action τ → State τ → List Event → Prop
  | call (t : τ) (c : Call) (ht : s.phase t = .out) : Does s (.call t c) (s.goto t (.acquiring c)) []
  | acquire (t : τ) (c : Call) (i : Index) (ht : s.phase t = .acquiring c)
      (hi : slot c.sem = some i) (hfree : (s.sema i).lock = none) :
      Does s (.acquire t) ((s.set i { s.sema i with lock := some t }).goto t (.locked i c)) []
  | init (t : τ) (i : Index) (sem value : ℤ) (ht : s.phase t = .locked i (.init sem value))
      (hactive : (s.sema i).active = false) : Does s (.body t)
        ((s.set i { s.sema i with active := true, value := value }).goto t (.releasing i)) []
  | refuse (t : τ) (i : Index) (sem value : ℤ) (ht : s.phase t = .locked i (.init sem value))
      (hactive : (s.sema i).active = true) : Does s (.body t) (s.goto t .out) [.returned (-1)]
  | destroy (t : τ) (i : Index) (sem : ℤ) (ht : s.phase t = .locked i (.destroy sem)) :
      Does s (.body t) ((s.set i { s.sema i with active := false }).goto t (.releasing i)) []
  | wait (t : τ) (i : Index) (sem count : ℤ) (ht : s.phase t = .locked i (.wait sem count))
      (hle : count ≤ (s.sema i).value) : Does s (.body t)
        ((s.set i { s.sema i with value := wrap ((s.sema i).value - count) }).goto t (.releasing i))
        [.waited i count]
  | sleep (t : τ) (i : Index) (sem count : ℤ) (ht : s.phase t = .locked i (.wait sem count))
      (hlt : (s.sema i).value < count) : Does s (.body t)
        ((s.set i { s.sema i with lock := none }).goto t (.asleep i (.wait sem count))) []
  | signal (t : τ) (i : Index) (sem count : ℤ) (ht : s.phase t = .locked i (.signal sem count)) :
      Does s (.body t)
        ((s.set i { s.sema i with value := wrap ((s.sema i).value + count) }).goto t (.waking i))
        [.signaled i count]
  | wakeup (t : τ) (i : Index) (ht : s.phase t = .waking i) :
      Does s (.wakeup t) ((s.wakeup i).goto t (.releasing i)) []
  | release (t : τ) (i : Index) (ht : s.phase t = .releasing i) :
      Does s (.release t) ((s.set i { s.sema i with lock := none }).goto t .out) [.returned 0]
  | kill (t : τ) (i : Index) (c : Call) (ht : s.phase t = .asleep i c) :
      Does s (.kill t) (s.goto t (.acquiring c)) []
  | mark (t : τ) : Does s (.kill t) s []

lemma body_does {c : Call} (ht : s.phase t = .locked i c) (h : body t i c s = (s', es)) :
    Does s (.body t) s' es := by
  cases c with
  | init sem value =>
    simp only [body, semInit] at h
    split at h
    · rename_i hactive
      cases h
      exact .init t i sem value ht hactive
    · rename_i hactive
      cases h
      exact .refuse t i sem value ht (by simpa using hactive)
  | destroy sem =>
    cases h
    exact .destroy t i sem ht
  | wait sem count =>
    simp only [body, semWait] at h
    split at h
    · rename_i hle
      cases h
      exact .wait t i sem count ht hle
    · rename_i hlt
      cases h
      exact .sleep t i sem count ht (not_le.mp hlt)
  | signal sem count =>
    cases h
    exact .signal t i sem count ht

lemma step_does (h : step a s = .ok (s', es)) : Does s a s' es := by
  cases a with
  | call t c =>
    simp only [step] at h
    split at h
    · rename_i ht
      cases h
      exact .call t c ht
    · cases h
  | acquire t =>
    simp only [step] at h
    split at h
    · rename_i c ht
      split at h
      · cases h
      · rename_i i hi
        split at h
        · cases h
        · rename_i hfree
          cases h
          exact .acquire t c i ht hi hfree
    · cases h
  | body t =>
    simp only [step] at h
    split at h
    · rename_i i c ht
      exact body_does ht (Except.ok.inj h)
    · cases h
  | wakeup t =>
    simp only [step] at h
    split at h
    · rename_i i ht
      cases h
      exact .wakeup t i ht
    · cases h
  | release t =>
    simp only [step] at h
    split at h
    · rename_i i ht
      cases h
      exact .release t i ht
    · cases h
  | kill t =>
    simp only [step] at h
    split at h
    · rename_i i c ht
      cases h
      exact .kill t i c ht
    · cases h
      exact .mark t

omit [DecidableEq τ] in
lemma Phase.wake_holds : (p.wake i).holds = p.holds := by
  cases p with
  | asleep j c =>
    simp only [Phase.wake]
    split
    · rfl
    · rfl
  | _ => rfl

def State.lock (s : State τ) (i : Index) : Option τ := (s.sema i).lock

def State.holds (s : State τ) (t : τ) : Option Index := (s.phase t).holds

omit [DecidableEq τ] in
lemma State.set_lock : (s.set i x).lock = update s.lock i x.lock := by
  funext j
  by_cases hj : j = i
  · subst hj
    simp [State.set, State.lock]
  · simp [State.set, State.lock, update_of_ne hj]

omit [DecidableEq τ] in
lemma State.set_lock_eq (h : x.lock = (s.sema i).lock) : (s.set i x).lock = s.lock := by
  rw [set_lock, h]
  exact update_eq_self i s.lock

lemma State.goto_holds : (s.goto t p).holds = update s.holds t p.holds := by
  funext u
  by_cases hu : u = t
  · subst hu
    simp [State.goto, State.holds]
  · simp [State.goto, State.holds, update_of_ne hu]

lemma State.goto_holds_eq (h : p.holds = (s.phase t).holds) : (s.goto t p).holds = s.holds := by
  rw [goto_holds, h]
  exact update_eq_self t s.holds

omit [DecidableEq τ] in
lemma State.wakeup_holds : (s.wakeup i).holds = s.holds :=
  funext fun _ => Phase.wake_holds

inductive Moves (s : State τ) : State τ → Prop
  | stay {s' : State τ} (hlock : s'.lock = s.lock) (hholds : s'.holds = s.holds) : Moves s s'
  | take {s' : State τ} (t : τ) (i : Index) (ht : s.holds t = none) (hi : s.lock i = none)
      (hlock : s'.lock = update s.lock i (some t))
      (hholds : s'.holds = update s.holds t (some i)) : Moves s s'
  | drop {s' : State τ} (t : τ) (i : Index) (ht : s.holds t = some i)
      (hlock : s'.lock = update s.lock i none)
      (hholds : s'.holds = update s.holds t none) : Moves s s'

lemma Does.moves (h : Does s a s' es) (hr : .returned (-1) ∉ es) : Moves s s' := by
  cases h with
  | call t c ht => exact .stay rfl (goto_holds_eq (by rw [ht]; rfl))
  | acquire t c i ht hi hfree =>
    exact .take t i (by rw [State.holds, ht]; rfl) hfree set_lock goto_holds
  | init t i sem value ht hactive =>
    exact .stay (set_lock_eq rfl) (goto_holds_eq (by rw [State.set, ht]; rfl))
  | refuse t i sem value ht hactive => simp at hr
  | destroy t i sem ht | wait t i sem count ht hle =>
    exact .stay (set_lock_eq rfl) (goto_holds_eq (by rw [State.set, ht]; rfl))
  | sleep t i sem count ht hlt =>
    exact .drop t i (by rw [State.holds, ht]; rfl) set_lock goto_holds
  | signal t i sem count ht =>
    exact .stay (set_lock_eq rfl) (goto_holds_eq (by rw [State.set, ht]; rfl))
  | wakeup t i ht =>
    refine .stay rfl ?_
    rw [goto_holds, wakeup_holds]
    have hsame : (Phase.releasing i).holds = s.holds t := by rw [State.holds, ht]; rfl
    rw [hsame]
    exact update_eq_self t s.holds
  | release t i ht => exact .drop t i (by rw [State.holds, ht]; rfl) set_lock goto_holds
  | kill t i c ht => exact .stay rfl (goto_holds_eq (by rw [ht]; rfl))
  | mark t => exact .stay rfl rfl

/-- Whoever has come to hold a lock holds it. -/
def Locked (s : State τ) : Prop := ∀ t i, s.holds t = some i → s.lock i = some t

/-- Every lock that is taken is held by a process within a call. -/
def Owned (s : State τ) : Prop := ∀ t i, s.lock i = some t → s.holds t = some i

lemma Locked.moves (h : Locked s) (hm : Moves s s') : Locked s' := by
  intro u j hu
  cases hm with
  | stay hlock hholds =>
    rw [hholds] at hu
    rw [hlock]
    exact h u j hu
  | take t i ht hi hlock hholds =>
    rw [hholds] at hu
    rw [hlock]
    by_cases hut : u = t
    · subst hut
      rw [update_self] at hu
      cases hu
      rw [update_self]
    · rw [update_of_ne hut] at hu
      have hl := h u j hu
      have hji : j ≠ i := by
        rintro rfl
        rw [hi] at hl
        cases hl
      rw [update_of_ne hji, hl]
  | drop t i ht hlock hholds =>
    rw [hholds] at hu
    rw [hlock]
    by_cases hut : u = t
    · subst hut
      rw [update_self] at hu
      cases hu
    · rw [update_of_ne hut] at hu
      have hl := h u j hu
      have hji : j ≠ i := by
        rintro rfl
        rw [h t j ht] at hl
        exact hut (Option.some.inj hl).symm
      rw [update_of_ne hji, hl]

/-- The `sem_init` that keeps its lock leaves it with nobody within a call. -/
lemma Locked.does (h : Locked s) (hd : Does s a s' es) : Locked s' := by
  by_cases hr : .returned (-1) ∈ es
  · cases hd with
    | refuse t i sem value ht hactive =>
      intro u j hu
      rw [goto_holds] at hu
      by_cases hut : u = t
      · subst hut
        rw [update_self] at hu
        cases hu
      · rw [update_of_ne hut] at hu
        exact h u j hu
    | _ => simp at hr
  · exact h.moves (hd.moves hr)

omit [DecidableEq τ] in
lemma Locked.unique (h : Locked s) (ht : s.holds t = some i) (hu : s.holds u = some i) : u = t := by
  have h1 := h t i ht
  rw [h u i hu] at h1
  exact Option.some.inj h1

lemma Owned.moves (h : Owned s) (hm : Moves s s') : Owned s' := by
  intro u j hu
  cases hm with
  | stay hlock hholds =>
    rw [hlock] at hu
    rw [hholds]
    exact h u j hu
  | take t i ht hi hlock hholds =>
    rw [hlock] at hu
    rw [hholds]
    by_cases hji : j = i
    · subst hji
      rw [update_self] at hu
      cases hu
      rw [update_self]
    · rw [update_of_ne hji] at hu
      have hh := h u j hu
      have hut : u ≠ t := by
        rintro rfl
        rw [ht] at hh
        cases hh
      rw [update_of_ne hut, hh]
  | drop t i ht hlock hholds =>
    rw [hlock] at hu
    rw [hholds]
    by_cases hji : j = i
    · subst hji
      rw [update_self] at hu
      cases hu
    · rw [update_of_ne hji] at hu
      have hh := h u j hu
      have hut : u ≠ t := by
        rintro rfl
        rw [ht] at hh
        exact hji (Option.some.inj hh).symm
      rw [update_of_ne hut, hh]

/-- Whether `sem_init` is going to find its semaphore active. -/
def State.again (s : State τ) : Phase → Bool
  | .locked i (.init _ _) => (s.sema i).active
  | _ => false

/-- The calls are for semaphores of the table, and `sem_init` is for one that is not active. -/
def Proper (s : State τ) : Action τ → Prop
  | .call _ c => 0 ≤ c.sem ∧ c.sem < NSEMA
  | .body t => s.again (s.phase t) = false
  | .acquire _ | .wakeup _ | .release _ | .kill _ => True

instance (s : State τ) : ∀ a, Decidable (Proper s a)
  | .call _ _ => inferInstanceAs (Decidable (_ ∧ _))
  | .body _ => inferInstanceAs (Decidable (_ = _))
  | .acquire _ | .wakeup _ | .release _ | .kill _ => inferInstanceAs (Decidable True)

/-- The call that a process may still lock a semaphore for. -/
def Phase.call : Phase → Option Call
  | acquiring c | locked _ c | asleep _ c => some c
  | out | waking _ | releasing _ => none

inductive Next : Phase → Phase → Prop
  | acquire {i : Index} {c : Call} (hi : slot c.sem = some i) : Next (.acquiring c) (.locked i c)
  | refuse {i : Index} {c : Call} : Next (.locked i c) .out
  | update {i : Index} {c : Call} : Next (.locked i c) (.releasing i)
  | signal {i : Index} {c : Call} : Next (.locked i c) (.waking i)
  | sleep {i : Index} {sem count : ℤ} :
      Next (.locked i (.wait sem count)) (.asleep i (.wait sem count))
  | wake {i : Index} {c : Call} : Next (.asleep i c) (.acquiring c)
  | wakeup {i : Index} : Next (.waking i) (.releasing i)
  | release {i : Index} : Next (.releasing i) .out

lemma Does.next (h : Does s a s' es) (u : τ) : s'.phase u = s.phase u ∨
    Next (s.phase u) (s'.phase u) ∨ ∃ c, a = .call u c ∧ s'.phase u = .acquiring c := by
  have hgoto : ∀ {v : State τ} {t p}, v.phase = s.phase → Next (s.phase t) p →
      (v.goto t p).phase u = s.phase u ∨ Next (s.phase u) ((v.goto t p).phase u) ∨
        ∃ c, a = .call u c ∧ (v.goto t p).phase u = .acquiring c := by
    intro v t p hv hp
    by_cases hu : u = t
    · subst hu
      simp only [State.goto, update_self]
      exact .inr (.inl hp)
    · simp only [State.goto, update_of_ne hu, hv]
      exact .inl trivial
  cases h with
  | call t c ht =>
    by_cases hu : u = t
    · subst hu
      exact .inr (.inr ⟨c, rfl, by simp [State.goto]⟩)
    · left
      simp [State.goto, update_of_ne hu]
  | acquire t c i ht hi hfree => exact hgoto rfl (by rw [ht]; exact .acquire hi)
  | init t i sem value ht hactive => exact hgoto rfl (by rw [ht]; exact .update)
  | refuse t i sem value ht hactive => exact hgoto rfl (by rw [ht]; exact .refuse)
  | destroy t i sem ht | wait t i sem count ht hle => exact hgoto rfl (by rw [ht]; exact .update)
  | sleep t i sem count ht hlt => exact hgoto rfl (by rw [ht]; exact .sleep)
  | signal t i sem count ht => exact hgoto rfl (by rw [ht]; exact .signal)
  | wakeup t i ht =>
    by_cases hu : u = t
    · subst hu
      right
      left
      simp only [State.goto, update_self, ht]
      exact .wakeup
    · simp only [State.goto, State.wakeup, update_of_ne hu]
      cases hp : s.phase u with
      | asleep j c =>
        simp only [Phase.wake]
        split
        · exact .inr (.inl .wake)
        · exact .inl rfl
      | _ => exact .inl rfl
  | release t i ht => exact hgoto rfl (by rw [ht]; exact .release)
  | kill t i c ht => exact hgoto rfl (by rw [ht]; exact .wake)
  | mark t => exact .inl rfl

/-- What holds of the phases of all processes, if a call begins with it and goes on with it. -/
lemma Does.phases {P : Phase → Prop} (h : Does s a s' es) (hs : ∀ t, P (s.phase t))
    (hcall : ∀ t c, a = .call t c → P (.acquiring c)) (hnext : ∀ p p', Next p p' → P p → P p') (t : τ) :
    P (s'.phase t) := by
  rcases h.next t with heq | hn | ⟨c, ha, heq⟩
  · rw [heq]
    exact hs t
  · exact hnext _ _ hn (hs t)
  · rw [heq]
    exact hcall t c ha

/-- The call in progress is for a semaphore of the table. -/
def Phase.InTable (p : Phase) : Prop := ∀ c, p.call = some c → 0 ≤ c.sem ∧ c.sem < NSEMA

omit [DecidableEq τ] in
lemma Next.inTable {p' : Phase} (h : Next p p') (hp : p.InTable) : p'.InTable := by
  intro c hc
  cases h with
  | acquire hi | sleep | wake => exact hp c hc
  | refuse | update | signal | wakeup | release => cases hc

/-- An access outside of the table is made by a call for a semaphore that does not exist. -/
lemma step_index {n : ℤ} (h : step a s = .error (.index n)) :
    ∃ t c, s.phase t = .acquiring c ∧ c.sem = n ∧ ¬ (0 ≤ n ∧ n < NSEMA) := by
  cases a with
  | acquire t =>
    simp only [step] at h
    split at h
    · rename_i c ht
      split at h
      · rename_i hnone
        cases h
        exact ⟨t, c, ht, rfl, slot_eq_none.mp hnone⟩
      · split at h
        · cases h
        · cases h
    · cases h
  | call t c | body t | wakeup t | release t | kill t =>
    simp only [step] at h
    split at h <;> cases h

lemma Does.not_refused (h : Does s a s' es) (ha : Proper s a) : .returned (-1) ∉ es := by
  cases h with
  | refuse t i sem value ht hactive =>
    have ha : s.again (s.phase t) = false := ha
    rw [ht] at ha
    rw [State.again, hactive] at ha
    cases ha
  | _ => simp

/-- In every run of proper calls the accesses are within the table, and the locks are free whenever no
process is within a call. -/
theorem locks_released (h : Run step Proper (boot : State τ) es s) : (∀ a n, step a s ≠ .error (.index n)) ∧
      ((∀ t, s.phase t = .out) → ∀ i, (s.sema i).lock = none) := by
  have hinv := h.invariant (I := fun s => Owned s ∧ ∀ t, (s.phase t).InTable) ?_ ⟨?_, ?_⟩
  · obtain ⟨howned, htable⟩ := hinv
    refine ⟨fun a n hn => ?_, fun hout i => ?_⟩
    · obtain ⟨t, c, ht, rfl, hc⟩ := step_index hn
      exact hc (htable t c (by rw [ht]; rfl))
    · cases hl : (s.sema i).lock with
      | none => rfl
      | some t =>
        have hholds := howned t i hl
        rw [State.holds, hout t] at hholds
        cases hholds
  · intro s a s' es hi ha hs
    have hd := step_does hs
    refine ⟨hi.1.moves (hd.moves (hd.not_refused ha)), hd.phases hi.2 ?_ fun _ _ hn => hn.inTable⟩
    rintro t c rfl c' hc
    cases hc
    exact ha
  · rintro t i ⟨⟩
  · rintro t c ⟨⟩

/-- The steps of a call that does not wait. -/
def calling (t : τ) (c : Call) : List (Action τ) := [.call t c, .acquire t, .body t, .release t]

theorem init_released : ∃ s : State Unit, Run step Proper boot [.returned 0] s ∧
    (s.sema 3).value = 1 ∧ ((∀ t, s.phase t = .out) → ∀ i, (s.sema i).lock = none) := by
  have hrun : Run step Proper (boot : State Unit) [.returned 0] _ :=
    Run.of_allowed (calling () (.init 3 1)) rfl (by decide +kernel)
  exact ⟨_, hrun, rfl, (locks_released hrun).2⟩

/-- A second `sem_init` returns with the lock; and nothing keeps a call within the table. -/
theorem lock_kept : (∃ s : State Unit, Run step (fun _ _ => True) boot [.returned 0, .returned (-1)] s ∧
      (∀ t, s.phase t = .out) ∧ (s.sema 3).lock = some ()) ∧
    ∃ s : State Unit, Run step (fun _ _ => True) boot [] s ∧ step (.acquire ()) s = .error (.index 32) := by
  refine ⟨⟨_, Run.of_runList (calling () (.init 3 1) ++ [.call () (.init 3 1), .acquire (), .body ()]) rfl
    fun _ _ _ => trivial, fun _ => rfl, rfl⟩, ⟨_, Run.of_runList [.call () (.wait 32 1)] rfl
    fun _ _ _ => trivial, rfl⟩⟩

end LearnXv6.Semaphore
