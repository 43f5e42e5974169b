import LearnXv6.Sched.O1Runnable

/-! How often the O(1) lab returns one process between two exchanges. -/
namespace LearnXv6.Sched.O1
open Function Store List View

variable {s s' s₀ s₁ s₂ : State} {a : Act} {p r : Slot} {d : ℤ} {k : ℕ} {v v' : View} {B : ℤ}
  {m : Which → Multiset Slot} {es es₀ es₁ es₂ : List Event}

def IsInt (x : ℤ) : Prop := -2 ^ 31 ≤ x ∧ x ≤ INT_MAX

lemma isInt_wrap (x : ℤ) : IsInt (wrap x) := wrap_bounds x

/-- No two cycles in a row put a process back into the active container, not even when the counter
wraps: the largest `int` is a prime. -/
lemma tmod_wrap_ne_zero {c : ℤ} (hd : 2 ≤ d ∧ d ≤ MAX_PRIORITY) (hc : IsInt c)
    (hzero : c.tmod d = 0) : (wrap (c + 1)).tmod d ≠ 0 := by
  obtain ⟨hlo, hhi⟩ := hd
  have hdvd : d ∣ c := Int.dvd_of_tmod_eq_zero hzero
  have hne : c ≠ INT_MAX := by
    rintro rfl
    unfold MAX_PRIORITY at hhi
    unfold INT_MAX at hdvd
    interval_cases d <;> omega
  have hwrap : wrap (c + 1) = c + 1 := by
    obtain ⟨hmin, hmax⟩ := hc
    exact wrap_eq (by omega) (by omega)
  rw [hwrap]
  intro hone
  have hdvd' := Int.dvd_of_tmod_eq_zero hone
  have : d ∣ 1 := (Int.dvd_add_right hdvd).mp hdvd'
  have := Int.le_of_dvd (by decide) this
  omega

/-- When the process last became runnable again, it went into the active container. -/
def Rewarded (d : ℤ) (x : Fields) : Prop := ∃ c, IsInt c ∧ c.tmod d = 0 ∧ x.ncicle = wrap (c + 1)

/-- The process has been returned `k` times since the last exchange. -/
def Phase (p : Slot) (d : ℤ) (k : ℕ) (v : View) : Prop :=
  k = 0 ∨ ((v.proc p).state ≠ .UNUSED ∧ (v.proc p).state ≠ .EMBRYO) ∧
    (k = 1 ∧ (p ∈ v.pending .active → Rewarded d (v.proc p).lab) ∨
      k = 2 ∧ p ∉ v.pending .active ∧ (p ∈ v.pending .expired ∨ Rewarded d (v.proc p).lab))

lemma Phase.le_two (h : Phase p d k v) : k ≤ 2 := by
  rcases h with h | ⟨-, h | h⟩ <;> omega

lemma Phase.congr (h : Phase p d k v) (hstate : (v.proc p).state ≠ .UNUSED ∧ (v.proc p).state ≠ .EMBRYO →
      (v'.proc p).state ≠ .UNUSED ∧ (v'.proc p).state ≠ .EMBRYO)
    (hcicle : (v'.proc p).lab.ncicle = (v.proc p).lab.ncicle)
    (hmem : ∀ w, p ∈ v'.pending w ↔ p ∈ v.pending w) : Phase p d k v' := by
  have hrew : Rewarded d (v'.proc p).lab ↔ Rewarded d (v.proc p).lab := by
    unfold Rewarded
    rw [hcicle]
  rcases h with h | ⟨hs, h⟩
  · exact .inl h
  · refine .inr ⟨hstate hs, ?_⟩
    rwa [hmem, hmem, hrew]

/-- A process with the divisor `d`, in a phase. -/
structure Good (p : Slot) (d : ℤ) (k : ℕ) (v : View) : Prop where
  divisor : wrap ((v.proc p).lab.priority + 1) = d
  isInt : IsInt (v.proc p).lab.ncicle
  runnable : ∀ w, p ∈ v.pending w → (v.proc p).state = .RUNNABLE
  phase : Phase p d k v

lemma View.mem_push_of_ne (hne : p ≠ r) (w w' : Which) :
    p ∈ (v.push r w).pending w' ↔ p ∈ v.pending w' := by
  by_cases hw : w' = w
  · subst hw
    simp [push, hne]
  · simp [push, update_of_ne hw]

lemma View.mem_push_of_mem {w w' : Which} (h : p ∈ v.pending w') : p ∈ (v.push r w).pending w' := by
  by_cases hw : w' = w
  · subst hw
    simp [push, h]
  · simpa [push, update_of_ne hw] using h

namespace Good

section

variable (hd : 2 ≤ d ∧ d ≤ MAX_PRIORITY)
include hd

lemma back (h : Good p d k v) (hp : (v.proc p).state = .RUNNING ∨ (v.proc p).state = .SLEEPING) :
    Good p d k ((v.set p ready).push p (v.proc p).lab.which) := by
  have hnot : ∀ w, p ∉ v.pending w := by
    intro w hw
    have := h.runnable w hw
    rcases hp with hp | hp <;> simp [hp] at this
  have hproc : ((v.set p ready).push p (v.proc p).lab.which).proc p = ready (v.proc p) := by
    simp [View.set, View.push]
  have hmem : ∀ w, p ∈ ((v.set p ready).push p (v.proc p).lab.which).pending w ↔
      w = (v.proc p).lab.which := by
    intro w
    by_cases hw : w = (v.proc p).lab.which
    · simp [View.push, hw]
    · simp [View.push, View.set, hnot w, hw]
  refine ⟨?_, ?_, fun _ _ => ?_, ?_⟩
  · rw [hproc]
    exact h.divisor
  · rw [hproc]
    exact isInt_wrap _
  · rw [hproc]
    rfl
  · have hrew : (v.proc p).lab.which = .active → Rewarded d (ready (v.proc p)).lab := by
      intro hw
      refine ⟨(v.proc p).lab.ncicle, h.isInt, ?_, rfl⟩
      rw [Fields.which, h.divisor] at hw
      by_contra hne
      rw [if_neg hne] at hw
      cases hw
    rcases h.phase with hk | ⟨-, ⟨hk, -⟩ | ⟨hk, -, hlast⟩⟩
    · exact .inl hk
    · refine .inr ⟨by rw [hproc]; simp [ready], .inl ⟨hk, fun hin => ?_⟩⟩
      rw [hproc]
      exact hrew ((hmem _).mp hin).symm
    · -- it went into the active container last time, so it goes into the expired one now
      have hexpired : (v.proc p).lab.which = .expired := by
        obtain ⟨c, hc, hzero, hcicle⟩ := hlast.resolve_left (hnot _)
        rw [Fields.which, h.divisor, hcicle, if_neg (tmod_wrap_ne_zero hd hc hzero)]
      refine .inr ⟨by rw [hproc]; simp [ready], .inr ⟨hk, ?_, .inl ?_⟩⟩
      · rw [hmem, hexpired]
        simp
      · rw [hmem, hexpired]

lemma stir (h : Good p d k v) (hs : Stir r v v') : Good p d k v' := by
  by_cases hr : p = r
  · subst hr
    cases hs with
    | mark f hstate hlab hpid =>
      have hs : ((v.set p f).proc p).state = (v.proc p).state := by simp [View.set, hstate]
      have hl : ((v.set p f).proc p).lab = (v.proc p).lab := by simp [View.set, hlab]
      refine ⟨by rw [hl, h.divisor], by rw [hl]; exact h.isInt, fun w hw => ?_, ?_⟩
      · rw [hs]
        exact h.runnable w hw
      · exact h.phase.congr (by rw [hs]; exact id) (by rw [hl]) fun _ => Iff.rfl
    | back hp => exact h.back hd hp
  · have hsame : v'.proc p = v.proc p ∧ ∀ w, p ∈ v'.pending w ↔ p ∈ v.pending w := by
      cases hs with
      | mark f hstate hlab hpid => exact ⟨by simp [View.set, update_of_ne hr], fun _ => Iff.rfl⟩
      | back hp =>
        exact ⟨by simp [View.set, View.push, update_of_ne hr], fun w => mem_push_of_ne hr _ w⟩
    obtain ⟨hproc, hmem⟩ := hsame
    refine ⟨by rw [hproc, h.divisor], by rw [hproc]; exact h.isInt, fun w hw => ?_, ?_⟩
    · rw [hproc]
      exact h.runnable w ((hmem w).mp hw)
    · exact h.phase.congr (by rw [hproc]; exact id) (by rw [hproc]) hmem

lemma stirs (h : Good p d k v) (hs : Stirs v v') : Good p d k v' := by
  induction hs with
  | refl => exact h
  | tail _ hstir ih =>
    obtain ⟨r, hstir⟩ := hstir
    exact ih.stir hd hstir

end

lemma move (h : Good p d k v) (hm : Move r v v') (hpid : (v'.proc p).pid ≠ 0) : Phase p d k v' := by
  by_cases hr : p = r
  · subst hr
    have hnew : (v.proc p).state = .UNUSED ∨ (v.proc p).state = .EMBRYO → k = 0 := by
      intro hnew
      rcases h.phase with hk | ⟨⟨h1, h2⟩, -⟩
      · exact hk
      · rcases hnew with hnew | hnew
        · exact absurd hnew h1
        · exact absurd hnew h2
    cases hm with
    | found pid hs => exact .inl (hnew (.inl hs))
    | lost hs => exact .inl (hnew (.inr hs))
    | stop state hs hstate =>
      refine h.phase.congr (fun _ => ?_) (by simp [View.set]) fun _ => Iff.rfl
      rcases hstate with rfl | rfl <;> simp [View.set]
    | reap hs => exact absurd (by simp [View.set]) hpid
    | start hs => exact .inl (hnew (.inr hs))
  · cases hm with
    | start hs =>
      refine h.phase.congr ?_ ?_ fun w => mem_push_of_ne hr _ w
      · simp [View.set, View.push, update_of_ne hr]
      · simp [View.set, View.push, update_of_ne hr]
    | _ =>
      refine h.phase.congr ?_ ?_ fun _ => Iff.rfl
      · simp [View.set, update_of_ne hr]
      · simp [View.set, update_of_ne hr]

end Good

/-! The count over a run. -/

def tally (p : Slot) (k : ℕ) : Event → ℕ
  | .exchange => 0
  | .returned r => if r = p then k + 1 else k

/-- How often the process has been returned since the last exchange. -/
def since (p : Slot) (es : List Event) : ℕ := es.foldl (tally p) 0

lemma since_append (es es' : List Event) :
    since p (es ++ es') = es'.foldl (tally p) (since p es) := foldl_append

lemma foldl_tally_exchange (hes : ∀ e ∈ es, e = .exchange) (hne : es ≠ []) : es.foldl (tally p) k = 0 := by
  induction es generalizing k with
  | nil => exact absurd rfl hne
  | cons e es ih =>
    rw [foldl_cons, hes e (by simp)]
    cases es with
    | nil => rfl
    | cons e' es => exact ih (fun x hx => hes x (by simp [hx])) (by simp)

lemma foldl_tally (hes : .exchange ∉ es) : es.foldl (tally p) k = k + es.count (.returned p) := by
  induction es generalizing k with
  | nil => rfl
  | cons e es ih =>
    rw [mem_cons, not_or] at hes
    cases e with
    | exchange => exact absurd rfl hes.1
    | returned r =>
      rw [foldl_cons, ih hes.2, count_cons]
      by_cases hr : r = p
      · subst hr
        simp only [tally, if_true, beq_self_eq_true]
        omega
      · simp [tally, hr]

lemma Good.dispatch (h : Good p d k v) (hnodup : (v.pending .active + v.pending .expired).Nodup)
    (hs : Dispatch v es v') :
    Phase p d (es.foldl (tally p) k) v' ∧ ∀ l, l <+: es → l.foldl (tally p) k ≤ 2 := by
  have hle := h.phase.le_two
  have hexchanges : ∀ x : List Event, (∀ e ∈ x, e = .exchange) → x.foldl (tally p) k ≤ k := by
    intro x hx
    by_cases hne : x = []
    · rw [hne, foldl_nil]
    · rw [foldl_tally_exchange hx hne]
      exact Nat.zero_le k
  cases hs with
  | idle es hes hnone =>
    refine ⟨?_, fun l hl => (hexchanges l fun e he => hes e (hl.subset he)).trans hle⟩
    by_cases hne : es = []
    · subst hne
      have hnot : ∀ w, p ∉ v.pending w := by
        intro w hw
        have hzero := add_eq_zero.mp hnone
        cases w with
        | active => simp [hzero.1] at hw
        | expired => simp [hzero.2] at hw
      exact h.phase.congr id rfl fun w => by simp [hnot w]
    · rw [foldl_tally_exchange hes hne]
      exact .inl rfl
  | run q x m' hes hsum hactive =>
    rw [hsum, Multiset.nodup_cons, Multiset.mem_add, not_or] at hnodup
    have hphase : Phase p d ((x ++ [Event.returned q]).foldl (tally p) k)
        ⟨(v.set q fun x => { x with state := .RUNNING, chan := none }).proc, m'⟩ := by
      rw [foldl_append]
      by_cases hne : x = []
      · subst hne
        obtain ⟨hact, hexp⟩ := hactive rfl
        by_cases hq : q = p
        · subst hq
          simp only [foldl_nil, foldl_cons, tally, if_true]
          refine .inr ⟨by simp [View.set], ?_⟩
          rcases h.phase with hk | ⟨-, ⟨hk, hrew⟩ | ⟨hk, hnot, -⟩⟩
          · exact .inl ⟨by omega, fun hin => absurd hin hnodup.1.1⟩
          · refine .inr ⟨by omega, hnodup.1.1, .inr ?_⟩
            simpa [View.set] using hrew (by simp [hact])
          · exact absurd (by simp [hact]) hnot
        · simp only [foldl_nil, foldl_cons, tally, if_neg hq]
          refine h.phase.congr ?_ ?_ fun w => ?_
          · simp [View.set, update_of_ne (Ne.symm hq)]
          · simp [View.set, update_of_ne (Ne.symm hq)]
          · cases w with
            | active => simp [hact, Ne.symm hq]
            | expired => simp [hexp]
      · rw [foldl_tally_exchange hes hne]
        by_cases hq : q = p
        · subst hq
          simp only [foldl_nil, foldl_cons, tally, if_true]
          exact .inr ⟨by simp [View.set], .inl ⟨rfl, fun hin => absurd hin hnodup.1.1⟩⟩
        · simp only [foldl_nil, foldl_cons, tally, if_neg hq]
          exact .inl rfl
    refine ⟨hphase, fun l hl => ?_⟩
    rcases prefix_concat_iff.mp hl with rfl | hl
    · exact hphase.le_two
    · exact (hexchanges l fun e he => hes e (hl.subset he)).trans hle

lemma Good.does (h : Good p d k v) (hd : 2 ≤ d ∧ d ≤ MAX_PRIORITY)
    (hnodup : (v.pending .active + v.pending .expired).Nodup) (hs : Does v es v') :
    ((v'.proc p).pid ≠ 0 → Phase p d (es.foldl (tally p) k) v') ∧
      ∀ l, l <+: es → l.foldl (tally p) k ≤ 2 := by
  cases hs with
  | moves hm =>
    refine ⟨fun hpid => ?_, fun l hl => ?_⟩
    · obtain ⟨u, hstirs, hend⟩ := hm
      have hu := h.stirs hd hstirs
      rcases hend with rfl | ⟨r, hmove⟩
      · exact hu.phase
      · exact hu.move hmove hpid
    · rw [prefix_nil.mp hl]
      exact h.phase.le_two
  | call r x =>
    refine ⟨fun _ => ?_, fun l hl => ?_⟩
    · by_cases hr : p = r
      · subst hr
        exact h.phase.congr (by simp [View.set]) (by simp [View.set]) fun _ => Iff.rfl
      · exact h.phase.congr (by simp [View.set, update_of_ne hr])
          (by simp [View.set, update_of_ne hr]) fun _ => Iff.rfl
    · rw [prefix_nil.mp hl]
      exact h.phase.le_two
  | dispatch hdisp =>
    obtain ⟨hphase, hle⟩ := h.dispatch hnodup hdisp
    exact ⟨fun _ => hphase, hle⟩

lemma isInt_zero : IsInt 0 := ⟨by decide, by decide⟩

section

variable (hv : ∀ p, IsInt (v.proc p).lab.ncicle)
include hv

lemma View.isInt_set {f : Proc Fields → Proc Fields}
    (hf : IsInt (f (v.proc r)).lab.ncicle) : ∀ p, IsInt ((v.set r f).proc p).lab.ncicle := by
  intro p
  by_cases hp : p = r
  · subst hp
    simpa [set] using hf
  · simpa [set, update_of_ne hp] using hv p

lemma Stirs.isInt (h : Stirs v v') : ∀ p, IsInt (v'.proc p).lab.ncicle := by
  induction h with
  | refl => exact hv
  | tail _ hstir ih =>
    obtain ⟨r, hstir⟩ := hstir
    cases hstir with
    | mark f hstate hlab hpid => exact isInt_set ih (by rw [hlab]; exact ih r)
    | back h => exact isInt_set (f := ready) ih (isInt_wrap _)

lemma Move.isInt (h : Move r v v') : ∀ p, IsInt (v'.proc p).lab.ncicle := by
  cases h with
  | found pid h => exact isInt_set hv isInt_zero
  | lost h | stop state h hstate | reap h => exact isInt_set hv (hv r)
  | start h => exact isInt_set (f := fun x => { x with state := .RUNNABLE }) hv (hv r)

lemma Does.isInt (h : Does v es v') : ∀ p, IsInt (v'.proc p).lab.ncicle := by
  cases h with
  | moves hm =>
    obtain ⟨u, hstirs, hend⟩ := hm
    have hu := hstirs.isInt hv
    rcases hend with rfl | ⟨r, hmove⟩
    · exact hu
    · exact hmove.isInt hu
  | call r x => exact isInt_set hv (hv r)
  | dispatch hd =>
    cases hd with
    | idle es hes hnone => exact hv
    | run r x m' hes hsum hactive =>
      exact isInt_set (f := fun x => { x with state := .RUNNING, chan := none }) hv (hv r)

end

/-- What holds in every state before and during the time of the process. -/
structure Steady (s : State) (m : Which → Multiset Slot) : Prop where
  inv : ∃ B, Inv s B m
  isInt : ∀ p, IsInt (s.proc p).lab.ncicle

lemma Steady.of_run (h : Run (step lab) (fun s _ => Small s) init es s) : ∃ m, Steady s m := by
  refine h.invariant (I := fun s => ∃ m, Steady s m) ?_ ?_
  · rintro s a s' es ⟨m, ⟨B, hinv⟩, hint⟩ hsmall hstep
    obtain ⟨B', m', hinv', -, hdoes⟩ := step_does hsmall hinv hstep
    exact ⟨m', ⟨B', hinv'⟩, hdoes.isInt hint⟩
  · refine ⟨fun _ => 0, ⟨-1, Holds.init, by simp, ?_⟩, ?_⟩
    · intro p
      simp [init, boot]
    · intro p
      exact isInt_zero

/-- The process keeps its number and its priority. -/
def Keeps (p : Slot) (pid q : ℤ) (s : State) (_ : Act) : Prop :=
  Small s ∧ (s.proc p).pid = pid ∧ (s.proc p).lab.priority = q

lemma Steady.good {pid q : ℤ} (h : Steady s m) (hk : Keeps p pid q s a) (hq : 1 ≤ q ∧ q < MAX_PRIORITY)
    (hphase : Phase p (q + 1) k ⟨s.proc, m⟩) : Good p (q + 1) k ⟨s.proc, m⟩ := by
  obtain ⟨B, hinv⟩ := h.inv
  refine ⟨?_, h.isInt p, fun w hw => ?_, hphase⟩
  · change wrap ((s.proc p).lab.priority + 1) = q + 1
    rw [hk.2.2]
    refine wrap_eq (by omega) ?_
    unfold MAX_PRIORITY at hq
    unfold INT_MAX
    omega
  · refine (hinv.runnable p).mp (Multiset.mem_add.mpr ?_)
    cases w with
    | active => exact .inl hw
    | expired => exact .inr hw

lemma Steady.count {pid q : ℤ} (hpid : pid ≠ 0) (hq : 1 ≤ q ∧ q < MAX_PRIORITY) (h0 : Steady s₀ m)
    (h : Run (step lab) (Keeps p pid q) s₀ es s) :
    (∃ m', Steady s m' ∧ ((s.proc p).pid = pid → Phase p (q + 1) (since p es) ⟨s.proc, m'⟩)) ∧
      ∀ l, l <+: es → since p l ≤ 2 := by
  refine h.history (I := fun es s => (∃ m', Steady s m' ∧ ((s.proc p).pid = pid →
      Phase p (q + 1) (since p es) ⟨s.proc, m'⟩)) ∧ ∀ l, l <+: es → since p l ≤ 2) ?_ ?_
  · rintro es s a s' es' ⟨⟨m, hsteady, hphase⟩, hle⟩ hkeeps hstep
    obtain ⟨B, hinv⟩ := hsteady.inv
    obtain ⟨B', m', hinv', -, hdoes⟩ := step_does hkeeps.1 hinv hstep
    have hgood := hsteady.good hkeeps hq (hphase hkeeps.2.1)
    obtain ⟨hphase', hle'⟩ := hgood.does ⟨by omega, by omega⟩ hinv.nodup hdoes
    refine ⟨⟨m', ⟨⟨B', hinv'⟩, hdoes.isInt hsteady.isInt⟩, fun hp => ?_⟩, fun l hl => ?_⟩
    · rw [since_append]
      exact hphase' (by rw [hp]; exact hpid)
    · obtain ⟨t, ht⟩ := hl
      rcases append_eq_append_iff.mp ht with ⟨x, hx, -⟩ | ⟨x, hx, hx'⟩
      · exact hle l ⟨x, hx.symm⟩
      · rw [hx, since_append]
        exact hle' x ⟨t, hx'.symm⟩
  · exact ⟨⟨m, h0, fun _ => .inl rfl⟩, fun l hl => by simp [prefix_nil.mp hl, since]⟩


/-! A process that waits in the expired container. -/

/-- The process stands in the expired container. -/
def Waiting (s : State) (p : Slot) : Prop := ∃ i k, PendingAt s .expired i k p

lemma Stirs.expired (h : Stirs v v') (hp : p ∈ v.pending .expired) : p ∈ v'.pending .expired := by
  induction h with
  | refl => exact hp
  | tail _ hstir ih =>
    obtain ⟨r, hstir⟩ := hstir
    cases hstir with
    | mark f hstate hlab hpid => exact ih
    | back h => exact mem_push_of_mem ih

lemma Does.expired (h : Does v es v') (hes : .exchange ∉ es) (hp : p ∈ v.pending .expired) :
    p ∈ v'.pending .expired := by
  cases h with
  | moves hm =>
    obtain ⟨u, hstirs, hend⟩ := hm
    have hu := hstirs.expired hp
    rcases hend with rfl | ⟨r, hmove⟩
    · exact hu
    · cases hmove with
      | start h => exact mem_push_of_mem hu
      | _ => exact hu
  | call r x => exact hp
  | dispatch hd =>
    cases hd with
    | idle es hes' hnone =>
      rw [(add_eq_zero.mp hnone).2] at hp
      simp at hp
    | run r x m' hes' hsum hactive =>
      have hnil : x = [] := by
        refine eq_nil_iff_forall_not_mem.mpr fun e he => hes ?_
        rw [← hes' e he]
        simp [he]
      change p ∈ m' .expired
      rw [(hactive hnil).2]
      exact hp

lemma Steady.waiting (h0 : Steady s₀ m) (h : Run (step lab) (fun s _ => Small s) s₀ es s)
    (hes : .exchange ∉ es) (hr : Waiting s₀ r) : Waiting s r := by
  obtain ⟨B, hinv⟩ := h0.inv
  have hkept := h.history (I := fun es s => .exchange ∉ es →
      ∃ B m, Inv s B m ∧ r ∈ m .expired) (by
    intro es s a s' es' hi hsmall hstep hes
    rw [mem_append, not_or] at hes
    obtain ⟨B, m, hinv, hr⟩ := hi hes.1
    obtain ⟨B', m', hinv', -, hdoes⟩ := step_does hsmall hinv hstep
    exact ⟨B', m', hinv', hdoes.expired hes.2 hr⟩) (fun _ => ⟨B, m, hinv, hinv.holds.mem.mpr hr⟩)
  obtain ⟨B', m', hinv', hr'⟩ := hkept hes
  exact hinv'.holds.mem.mp hr'

/-- While a process keeps a priority from 1 on, it is returned at most twice between two exchanges. So
another one that waits in the expired container is bypassed at most twice before the next exchange. -/
theorem returned_at_most_twice {pid q : ℤ} (hpid : pid ≠ 0) (hq : 1 ≤ q ∧ q < MAX_PRIORITY)
    (h₀ : Run (step lab) (fun s _ => Small s) init es₀ s₀)
    (h₁ : Run (step lab) (Keeps p pid q) s₀ es₁ s₁) (h₂ : Run (step lab) (Keeps p pid q) s₁ es₂ s₂) :
    (∀ l, l <:+: es₁ ++ es₂ → .exchange ∉ l → l.count (.returned p) ≤ 2) ∧
      (.exchange ∉ es₂ → ∀ r, Waiting s₁ r → Waiting s₂ r ∧ es₂.count (.returned p) ≤ 2) := by
  obtain ⟨m, hsteady⟩ := Steady.of_run h₀
  have hcount : ∀ l, l <:+: es₁ ++ es₂ → .exchange ∉ l → l.count (.returned p) ≤ 2 := by
    rintro l ⟨l₁, l₃, hl⟩ hexch
    have hle := (hsteady.count hpid hq (h₁.trans h₂)).2 (l₁ ++ l) ⟨l₃, hl⟩
    rw [since_append, foldl_tally hexch] at hle
    omega
  refine ⟨hcount, fun hexch r hr => ⟨?_, hcount es₂ ⟨es₁, [], by simp⟩ hexch⟩⟩
  obtain ⟨⟨m₁, hsteady₁, -⟩, -⟩ := hsteady.count hpid hq h₁
  exact hsteady₁.waiting (h₂.mono fun _ _ hk => hk.1) hexch hr

instance (p : Slot) (pid q : ℤ) (s : State) (a : Act) : Decidable (Keeps p pid q s a) :=
  inferInstanceAs (Decidable (Small s ∧ (s.proc p).pid = pid ∧ (s.proc p).lab.priority = q))

def reached (l : List Act) : State :=
  match runList (step lab) l init with
  | .ok (s, _) => s
  | .error _ => init

/-- The first process is returned twice, and then once more after an exchange. -/
theorem first_process_returned :
    (∀ l : List Event, l <:+: [.returned 0, .returned 0] ++ [.exchange, .returned 0] →
      .exchange ∉ l → l.count (.returned 0) ≤ 2) ∧
    Run (step lab) (Keeps 0 1 10) (reached [.allocproc, .userinit 0]) [.returned 0, .returned 0]
      (reached [.allocproc, .userinit 0, .scheduler, .yield 0, .scheduler]) := by
  have h₀ : Run (step lab) (fun s _ => Small s) init [] (reached [.allocproc, .userinit 0]) :=
    Run.of_allowed [.allocproc, .userinit 0] rfl (by decide +kernel)
  have h₁ : Run (step lab) (Keeps 0 1 10) (reached [.allocproc, .userinit 0])
      [.returned 0, .returned 0]
      (reached [.allocproc, .userinit 0, .scheduler, .yield 0, .scheduler]) :=
    Run.of_allowed [.scheduler, .yield 0, .scheduler] rfl (by decide +kernel)
  have h₂ : Run (step lab) (Keeps 0 1 10)
      (reached [.allocproc, .userinit 0, .scheduler, .yield 0, .scheduler])
      [.exchange, .returned 0]
      (reached [.allocproc, .userinit 0, .scheduler, .yield 0, .scheduler, .yield 0, .scheduler]) :=
    Run.of_allowed [.yield 0, .scheduler] rfl (by decide +kernel)
  exact ⟨(returned_at_most_twice (by decide) (by decide) h₀ h₁ h₂).1, h₁⟩

/-- Once a counter has gone past the largest `int`, a process is returned three times without an
exchange. -/
theorem thrice_returned : ∃ (es₀ : List Event) (s₀ : State) (es : List Event) (s : State),
    Run (step lab) (fun _ a => InRangeCall a) init es₀ s₀ ∧
    Run (step lab) (fun u a => ((u.proc 2).pid = 3 ∧ (u.proc 2).lab.priority = 1) ∧ InRangeCall a) s₀ es s ∧
    .exchange ∉ es ∧ es.count (.returned 2) = 3 := by
  obtain ⟨es₀, s₀, es, s, hrun₀, hrun, hexch, hcount, hturn, -, hkept, hring⟩ := wrapped
  obtain ⟨s', hs', -⟩ := step_take (p := 2) hturn.actual (by rw [hturn.pos, hturn.last]; decide)
    (by rw [hturn.pos]; decide) (by rw [hturn.pos]; exact hring)
  refine ⟨es₀, s₀, es ++ [.returned 2], s', hrun₀, .tail hrun ⟨hkept, by decide⟩ hs', ?_, ?_⟩
  · simpa using hexch
  · rw [count_append, hcount]
    rfl

end LearnXv6.Sched.O1
