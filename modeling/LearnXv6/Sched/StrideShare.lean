import LearnXv6.Sched.StrideRunnable

/-! Processes that are only dispatched and yield, on one CPU: their passes stay together, so each gets
its share. -/
namespace LearnXv6.Sched.Stride
open Store Store.BinaryHeap List Table

variable {s s' s₀ : State} {p q : Slot} {n : ℕ} {S : ℤ} {l : List Slot} {es : List Slot}

def stride (s : State) (p : Slot) : ℤ := (s.proc p).lab.stride

/-- Enters the processes one after the other. -/
def enrol (l : List Slot) (s : State) : Except Fault State := l.foldlM (fun s p => enter p s) s

/-- The processes of `l` are runnable and not yet in the heap. Their strides are positive and at most
`S`, and so is the distance of any two passes. -/
structure Crew (l : List Slot) (S : ℤ) (s : State) : Prop where
  nodup : l.Nodup
  empty : s.queue.last = 0
  runnable : ∀ p, (s.proc p).state = .RUNNABLE ↔ p ∈ l
  idle : ∀ p, (s.proc p).state ≠ .RUNNING
  stride : ∀ p ∈ l, 0 < stride s p ∧ stride s p ≤ S
  pass : ∀ p ∈ l, ∀ q ∈ l, |pass s p - pass s q| ≤ S

/-- The only CPU switches to a process when none runs, and the pass of that process does not overflow;
or a process yields. -/
def OneCpu (s : State) : Action ℤ Empty → Prop
  | .scheduler => (∀ p, (s.proc p).state ≠ .RUNNING) ∧
      ∀ p, s.queue.heap 1 = some p → wrap (pass s p + stride s p) = pass s p + stride s p
  | .yield _ => True
  | _ => False

lemma Moved.stride_eq (h : Moved s s') (p : Slot) : Stride.stride s' p = Stride.stride s p := by
  obtain ⟨x, hx⟩ := h.proc p
  rw [Stride.stride, hx]
  rfl

/-- The heap is in order, and it holds the processes of `l` but for the one that runs. -/
structure Rota (l : List Slot) (s : State) : Prop where
  heap : ∃ n, Rep s s.runnable n ∧ Ordered (key s) n s.queue.heap
  crew : ∀ p, (s.proc p).state = .RUNNABLE ∨ (s.proc p).state = .RUNNING ↔ p ∈ l

lemma enrol_ok (hl : l.Nodup) {S : Set Slot} (h : Rep s S n) (hord : Ordered (key s) n s.queue.heap)
    (hnew : ∀ p ∈ l, p ∉ S) : ∃ s' m, enrol l s = .ok s' ∧ Moved s s' ∧ Rep s' (S ∪ {p | p ∈ l}) m ∧
      Ordered (key s') m s'.queue.heap := by
  induction l generalizing s S n with
  | nil => exact ⟨s, n, rfl, .refl, by simpa using h, hord⟩
  | cons p l ih =>
    obtain ⟨hp, hl⟩ := nodup_cons.mp hl
    obtain ⟨s1, hs1, hm1, hrep1, hord1⟩ := enter_ok h (hnew p (by simp))
    have hnew1 : ∀ q ∈ l, q ∉ Insert.insert p S := by
      intro q hq hmem
      rcases hmem with rfl | hmem
      · exact hp hq
      · exact hnew q (by simp [hq]) hmem
    obtain ⟨s', m, hs', hm, hrep, hord'⟩ := ih hl hrep1 (hord1 hord) hnew1
    refine ⟨s', m, ?_, hm1.trans hm, ?_, hord'⟩
    · rw [enrol, foldlM_cons, hs1, ok_bind]
      exact hs'
    · have hset : S ∪ {q | q ∈ p :: l} = Insert.insert p S ∪ {q | q ∈ l} := by
        ext q
        simp only [Set.mem_union, Set.mem_ofPred_eq, mem_cons, Set.mem_insert_iff]
        tauto
      rw [hset]
      exact hrep

lemma Crew.rota (h : Crew l S s) : ∃ s', enrol l s = .ok s' ∧ Moved s s' ∧ Rota l s' := by
  have hempty : Rep s ∅ 0 := by
    refine ⟨h.empty, ?_⟩
    rw [Set.image_empty, BinaryHeap.Contents, Set.Icc_eq_empty (by decide)]
    exact Set.bijOn_empty _
  obtain ⟨s', m, hs', hm, hrep, hord⟩ := enrol_ok h.nodup hempty (fun j h2 hj => by omega)
    (fun _ _ hp => hp)
  have hrunnable : s'.runnable = ∅ ∪ {p | p ∈ l} := by
    ext p
    simp only [mem_runnable, hm.state, h.runnable, Set.empty_union, Set.mem_ofPred_eq]
  refine ⟨s', hs', hm, ⟨m, by rw [hrunnable]; exact hrep, hord⟩, fun p => ?_⟩
  rw [hm.state, ← h.runnable]
  simp [h.idle p]

lemma dispatch_pass : pass (dispatch p s) q =
    if q = p then wrap (pass s p + stride s p) else pass s q := by
  by_cases hq : q = p
  · subst hq
    simp [pass, dispatch, stride]
  · simp [pass, dispatch, set_proc_of_ne hq, hq]

lemma dispatch_stride : stride (dispatch p s) q = stride s q := by
  by_cases hq : q = p
  · subst hq
    simp [dispatch, stride]
  · simp [dispatch, set_proc_of_ne hq, stride]

lemma Rota.scheduler (h : Rota l s) (hidle : ∀ p, (s.proc p).state ≠ .RUNNING) :
    scheduler s = .ok (s, []) ∧ l = [] ∨
      ∃ p s', scheduler s = .ok (s', [p]) ∧ p ∈ l ∧ s.queue.heap 1 = some p ∧
        (∀ q ∈ l, pass s p ≤ pass s q) ∧ Rota l s' ∧
        (∀ q, pass s' q = if q = p then wrap (pass s p + stride s p) else pass s q) ∧
        ∀ q, stride s' q = stride s q := by
  obtain ⟨⟨n, hrep, hord⟩, hcrew⟩ := h
  have hrunnable : ∀ q, q ∈ s.runnable ↔ q ∈ l := by
    intro q
    rw [← hcrew q, mem_runnable]
    simp [hidle q]
  by_cases hn : 1 ≤ n
  · obtain ⟨p, s', hs', hroot, hmem, hm, hrep', hset, hord'⟩ := scheduler_ok hrep hn
    refine .inr ⟨p, dispatch p s', hs', (hrunnable p).mp hmem, hroot, ?_, ⟨⟨n - 1, ?_, ?_⟩, ?_⟩, ?_, ?_⟩
    · intro q hq
      obtain ⟨i, ⟨h1, hi⟩, heq⟩ := hrep.contents.surjOn ⟨q, (hrunnable q).mpr hq, rfl⟩
      have hle := hord.root_le i h1 hi
      rw [hroot, heq] at hle
      exact hle
    · rw [hset]
      exact hrep'.congr rfl
    · -- the entries left in the heap keep their passes
      have hkey : ∀ j, 1 ≤ j → j ≤ n - 1 →
          key (dispatch p s') (s'.queue.heap j) = key s' (s'.queue.heap j) := by
        intro j h1 hj
        obtain ⟨q, ⟨-, hne⟩, heq⟩ := hrep'.contents.mapsTo (⟨h1, hj⟩ : j ∈ Set.Icc 1 (n - 1))
        rw [← heq]
        have hqp : q ≠ p := hne
        simp [key, dispatch_pass, hqp]
      intro j h2 hj
      change key (dispatch p s') (s'.queue.heap (j / 2)) ≤ key (dispatch p s') (s'.queue.heap j)
      rw [hkey j (by omega) hj, hkey (j / 2) (by omega) (by omega)]
      exact hord' hord j h2 hj
    · intro q
      by_cases hqp : q = p
      · subst hqp
        have := (hrunnable q).mp hmem
        simp [dispatch, this]
      · rw [dispatch, set_proc_of_ne hqp, hm.state]
        exact hcrew q
    · intro q
      rw [dispatch_pass, hm.pass_eq, hm.pass_eq, hm.stride_eq]
    · intro q
      rw [dispatch_stride, hm.stride_eq]
  · refine .inl ⟨scheduler_empty hrep hn, ?_⟩
    rw [eq_nil_iff_forall_not_mem]
    intro q hq
    obtain ⟨i, ⟨h1, hi⟩, -⟩ := hrep.contents.surjOn ⟨q, (hrunnable q).mpr hq, rfl⟩
    omega

lemma Rota.yield (h : Rota l s) (hp : (s.proc p).state = .RUNNING) :
    ∃ s', yield p s = .ok s' ∧ Rota l s' ∧ (∀ q, pass s' q = pass s q) ∧ ∀ q, stride s' q = stride s q := by
  obtain ⟨⟨n, hrep, hord⟩, hcrew⟩ := h
  obtain ⟨s', hs', hm, hrep', hord'⟩ := enter_ok hrep
    (show p ∉ s.runnable by simp [mem_runnable, hp])
  refine ⟨s'.setState p .RUNNABLE, ?_, ⟨⟨n + 1, ?_, ?_⟩, ?_⟩, ?_, ?_⟩
  · rw [Stride.yield, hs']
    rfl
  · rw [setState_runnable_insert, hm.runnable]
    exact hrep'.congr rfl
  · have hkey : key (s'.setState p .RUNNABLE) = key s' := by
      funext o
      cases o with
      | none => rfl
      | some q => simp [key, pass]
    rw [hkey]
    exact hord' hord
  · intro q
    by_cases hqp : q = p
    · subst hqp
      have := (hcrew q).mp (.inr hp)
      simp [this]
    · rw [setState_of_ne hqp, hm.state]
      exact hcrew q
  · intro q
    simp only [pass, setState_lab]
    exact hm.pass_eq q
  · intro q
    simp only [stride, setState_lab]
    exact hm.stride_eq q

/-- Each pass has grown by a stride for each dispatch, and no two passes are more than `S` apart. -/
structure Fair (l : List Slot) (S : ℤ) (s₀ : State) (es : List Slot) (s : State) : Prop where
  rota : Rota l s
  stride_eq : ∀ p, stride s p = stride s₀ p
  pass_eq : ∀ p ∈ l, pass s p = pass s₀ p + es.count p * stride s₀ p
  spread : ∀ p ∈ l, ∀ q ∈ l, pass s p - pass s q ≤ S

lemma Fair.step (hstride : ∀ p ∈ l, 0 < stride s₀ p ∧ stride s₀ p ≤ S) (h : Fair l S s₀ es s)
    {a : Action ℤ Empty} {es' : List Slot} (ha : OneCpu s a)
    (hs : step lab a s = .ok (s', es')) : Fair l S s₀ (es ++ es') s' := by
  cases a with
  | scheduler =>
    obtain ⟨hidle, hover⟩ := ha
    simp only [Sched.step, lab] at hs
    rcases h.rota.scheduler hidle with ⟨hsched, hl⟩ | ⟨p, s1, hsched, hp, hroot, hmin, hrota, hpass, hstr⟩
    · rw [hsched] at hs
      cases hs
      rw [append_nil]
      exact h
    · rw [hsched] at hs
      cases hs
      have hnew : pass s' p = pass s p + stride s p := by
        rw [hpass, if_pos rfl]
        exact hover p hroot
      have hold : ∀ q, q ≠ p → pass s' q = pass s q := fun q hq => by rw [hpass, if_neg hq]
      have hinc := hstride p hp
      rw [← h.stride_eq p] at hinc
      refine ⟨hrota, fun q => by rw [hstr, h.stride_eq], ?_, ?_⟩
      · intro q hq
        by_cases hqp : q = p
        · subst hqp
          rw [hnew, h.pass_eq q hq, h.stride_eq, count_append, count_singleton_self]
          push_cast
          ring
        · have hcount : count q [p] = 0 := count_eq_zero.mpr (by simpa using hqp)
          rw [hold q hqp, h.pass_eq q hq, count_append, hcount, Nat.add_zero]
      · -- the dispatched process had the smallest pass
        intro q hq r hr
        have hmq := hmin q hq
        have hmr := hmin r hr
        by_cases hqp : q = p
        · by_cases hrp : r = p
          · rw [hqp, hrp]
            omega
          · rw [hqp, hnew, hold r hrp]
            omega
        · by_cases hrp : r = p
          · have := h.spread q hq p hp
            rw [hrp, hnew, hold q hqp]
            omega
          · rw [hold q hqp, hold r hrp]
            exact h.spread q hq r hr
  | yield curproc =>
    obtain ⟨hrun, hs⟩ := when_ok hs
    obtain ⟨s1, hs1, hrota, hpass, hstr⟩ := h.rota.yield hrun
    have hlab : lab.yield curproc s = .ok s1 := hs1
    rw [hlab] at hs
    cases hs
    rw [append_nil]
    refine ⟨hrota, fun q => by rw [hstr, h.stride_eq], ?_, ?_⟩
    · intro q hq
      rw [hpass, h.pass_eq q hq]
    · intro q hq r hr
      rw [hpass, hpass]
      exact h.spread q hq r hr
  | _ => exact ha.elim

/-- However the processes are dispatched, no two passes are ever more than the largest stride apart,
and the time that two processes have had, each dispatch counted with its stride, differs by at most
twice that. -/
theorem passes_stay_together (h : Crew l S s₀) :
    ∃ s₁, enrol l s₀ = .ok s₁ ∧ ∀ es s, Run (step lab) OneCpu s₁ es s →
      (∀ p ∈ l, ∀ q ∈ l, |pass s p - pass s q| ≤ S) ∧
      ∀ p ∈ l, ∀ q ∈ l, |es.count p * stride s₀ p - es.count q * stride s₀ q| ≤ 2 * S := by
  obtain ⟨s₁, hs₁, hm, hrota⟩ := h.rota
  refine ⟨s₁, hs₁, fun es s hrun => ?_⟩
  have hfair : Fair l S s₀ es s := by
    refine hrun.history (fun es s a s' es' hi ha hs => hi.step h.stride ha hs) ?_
    refine ⟨hrota, hm.stride_eq, fun p _ => by simp [hm.pass_eq], fun p hp q hq => ?_⟩
    rw [hm.pass_eq, hm.pass_eq]
    exact (abs_le.mp (h.pass p hp q hq)).2
  have hspread : ∀ p ∈ l, ∀ q ∈ l, |pass s p - pass s q| ≤ S := by
    intro p hp q hq
    have h1 := hfair.spread p hp q hq
    have h2 := hfair.spread q hq p hp
    exact abs_le.mpr ⟨by omega, h1⟩
  refine ⟨hspread, fun p hp q hq => ?_⟩
  have h1 := abs_le.mp (hspread p hp q hq)
  have h2 := abs_le.mp (h.pass p hp q hq)
  rw [hfair.pass_eq p hp, hfair.pass_eq q hq] at h1
  exact abs_le.mpr ⟨by omega, by omega⟩

/-- Two processes with 50 and 100 tickets. -/
def couple : State :=
  { init with
    proc := fun p => ⟨if p.val < 2 then .RUNNABLE else .UNUSED, p, none, none, false,
      ⟨if p.val = 0 then 200 else 100, if p.val = 0 then 30 else 0, 0, 0, 0⟩⟩ }

theorem couple_stays_together : ∃ s₁, enrol [0, 1] couple = .ok s₁ ∧ ∀ es s, Run (step lab) OneCpu s₁ es s →
      (∀ p ∈ [0, 1], ∀ q ∈ [0, 1], |pass s p - pass s q| ≤ 200) ∧ ∀ p ∈ [0, 1], ∀ q ∈ [0, 1],
        |es.count p * stride couple p - es.count q * stride couple q| ≤ 2 * 200 := by
  refine passes_stay_together ⟨by decide, rfl, ?_, ?_, ?_, ?_⟩
  · decide
  · decide
  · decide
  · decide

end LearnXv6.Sched.Stride
