import LearnXv6.Paging.Steps

/-! Which buffers `bget` recycles under the three policies. -/
namespace LearnXv6.Paging
open Store

variable {τ δ : Type} {policy : Policy} {s s' : State τ δ} {a : Action τ δ} {i : Index} {b : Buf δ}
  {es : List (Event δ)} {disk : Key → δ} {havedisk1 : Bool} {garbage : δ}

/-- The default policy; or the buffer that is next by the policy is neither in use nor logged when a block is
missed in the cache. -/
def Calm (policy : Policy) (s : State τ δ) (a : Action τ δ) : Prop :=
  policy = .DEFAULT ∨
    ∀ t k i, a = .bget t k → s.cached k = none → (victim policy s).1 = some i → (s.buf i).unused

lemma victim_buf (policy : Policy) (s : State τ δ) : (victim policy s).2.buf = s.buf := by
  cases policy with
  | DEFAULT | RANDOM => rfl
  | FIFO =>
    unfold victim
    dsimp only
    split
    · rfl
    · rfl

variable [DecidableEq τ]

lemma Does.blocks (h : Does policy s a s' es) : (SameBlocks s s' ∧ ∀ i r d, .recycled i r d ∉ es) ∨
      ∃ t k i u, a = .bget t k ∧ s.cached k = none ∧ victim policy s = (some i, u) ∧
        es = [.recycled i (s.buf i).refcnt (s.buf i).dirty, .got i k] ∧
        ∀ j, j ≠ i → (s'.buf j).block = (s.buf j).block := by
  cases h with
  | miss t k i u ht hnone hv =>
    right
    have hbuf : u.buf = s.buf := by
      have := victim_buf policy s
      rwa [hv] at this
    refine ⟨t, k, i, u, rfl, hnone, hv, rfl, fun j hj => ?_⟩
    simp [State.goto, State.set, Function.update_of_ne hj, hbuf]
  | hit t k i ht hi =>
    exact .inl ⟨sameBlocks_set (b := { s.buf i with refcnt := (s.buf i).refcnt + 1 }) rfl, by simp⟩
  | acquire t i k ht hfree =>
    exact .inl ⟨sameBlocks_set (b := { s.buf i with locked := true }) rfl, by simp⟩
  | modify t i stored v ht =>
    exact .inl ⟨sameBlocks_set (b := { s.buf i with data := v }) rfl, by simp⟩
  | write t i stored ht | logged t i stored ht =>
    exact .inl ⟨sameBlocks_set (b := { s.buf i with dirty := true }) rfl, by simp⟩
  | release t i stored ht =>
    exact .inl ⟨sameBlocks_set (b := { s.buf i with locked := false }) rfl, by simp⟩
  | unref t i ht =>
    have hset := sameBlocks_set (s := s) (i := i) (b := (s.buf i).unref) rfl
    refine .inl ⟨?_, by simp⟩
    unfold Paging.unref
    dsimp only
    split
    · exact hset
    · exact hset
  | served i rest hq => exact .inl ⟨sameBlocks_set (b := Paging.served s i) rfl, by simp⟩
  | ready t i k ht hvalid | submit t i k ht hvalid | read t i k ht hf | wrote t i ht hf | spurious hq =>
    exact .inl ⟨fun _ => rfl, by simp⟩

lemma Does.calm (h : Does policy s a s' es) (hc : Calm policy s a) :
    (∀ i r d, .recycled i r d ∈ es → r = 0 ∧ d = false) ∧
      ∀ i, ¬ (s.buf i).unused → (s'.buf i).block = (s.buf i).block := by
  rcases h.blocks with ⟨hsame, hno⟩ | ⟨t, k, i, u, rfl, hnone, hv, rfl, hrest⟩
  · exact ⟨fun i r d hin => absurd hin (hno i r d), fun i _ => hsame i⟩
  · have hunused : (s.buf i).unused := by
      rcases hc with rfl | hc
      · exact (victim_default hv).1
      · exact hc t k i rfl hnone (by rw [hv])
    refine ⟨?_, fun j hj => hrest j fun he => hj (he ▸ hunused)⟩
    intro j r d hin
    simp only [List.mem_cons, Event.recycled.injEq, List.not_mem_nil, or_false, reduceCtorEq] at hin
    obtain ⟨rfl, rfl, rfl⟩ := hin
    exact hunused

/-- In every calm run only unused buffers are recycled, and a buffer keeps its block as long as it is in
use or logged. -/
theorem recycles_unused
    (h : Run (step policy) (Calm policy) (binit disk havedisk1 garbage : State τ δ) es s) :
    (∀ i r d, .recycled i r d ∈ es → r = 0 ∧ d = false) ∧
      ∀ i es' s', Run (step policy) (fun u a => Calm policy u a ∧ ¬ (u.buf i).unused) s es' s' →
        (s'.buf i).block = (s.buf i).block := by
  constructor
  · refine h.history (I := fun es _ => ∀ i r d, .recycled i r d ∈ es → r = 0 ∧ d = false) ?_ ?_
    · intro es s a s' es' hi hc hs i r d hin
      rcases List.mem_append.mp hin with hin | hin
      · exact hi i r d hin
      · exact ((step_does hs).calm hc).1 i r d hin
    · simp
  · intro i es' s' hrun
    refine hrun.invariant (I := fun u => (u.buf i).block = (s.buf i).block) ?_ rfl
    intro u a u' es hu hc hs
    rw [((step_does hs).calm hc.1).2 i hc.2, hu]

/-- The process 0 reads block 0, changes it, logs it and releases it; the process 1 asks for block 1. -/
def changeAndLog : List (Action ℕ ℕ) :=
  [.bget 0 (1, 0), .acquiresleep 0, .bread 0, .ideintr, .wake 0, .modify 0 7, .logWrite 0, .brelse 0,
    .unref 0, .bget 1 (1, 1)]

theorem changeAndLog_kept : ∃ s : State ℕ ℕ,
    Run (step .DEFAULT) (Calm .DEFAULT) (binit (fun _ => 0) true 0) [.recycled 0 0 false, .got 0 (1, 0),
      .access (.load (1, 0) 0), .access (.store (1, 0) 7), .recycled 1 0 false, .got 1 (1, 1)] s ∧
    (s.buf 0).dirty = true ∧ ∀ es s', Run (step .DEFAULT)
      (fun u a => Calm .DEFAULT u a ∧ ¬ (u.buf 0).unused) s es s' → (s'.buf 0).block = (1, 0) := by
  have hrun : Run (step .DEFAULT) (Calm .DEFAULT) (binit (fun _ => 0) true 0 : State ℕ ℕ)
      [.recycled 0 0 false, .got 0 (1, 0), .access (.load (1, 0) 0), .access (.store (1, 0) 7),
        .recycled 1 0 false, .got 1 (1, 1)] _ :=
    Run.of_runList changeAndLog rfl fun _ _ _ => .inl rfl
  exact ⟨_, hrun, rfl, fun es s' h => (recycles_unused hrun).2 0 es s' h⟩

theorem busy_recycled : -- the first two numbers that `random` gives are the same
    (∃ s : State ℕ ℕ, Run (step .RANDOM) (fun _ _ => True) (binit (fun _ => 0) true 0)
      [.recycled 24 0 false, .got 24 (1, 0), .access (.load (1, 0) 0), .access (.store (1, 0) 7),
        .recycled 24 0 true, .got 24 (1, 1)] s ∧ ∀ i, (s.buf i).block ≠ (1, 0)) ∧
    -- the position has come round after 30 misses
    ∃ s : State ℕ ℕ, Run (step .FIFO) (fun _ _ => True) (binit (fun _ => 0) true 0)
      ((List.finRange 30).flatMap (fun n => [.recycled n.rev 0 false, .got n.rev (1, n)]) ++
        [.recycled 29 1 false, .got 29 (1, 30)]) s ∧
      s.phase 0 = .waiting 29 (1, 0) ∧ ∀ i, (s.buf i).block ≠ (1, 0) := by
  refine ⟨⟨_, Run.of_runList changeAndLog rfl fun _ _ _ => trivial, ?_⟩,
    ⟨_, Run.of_runList ((List.range 31).map fun n => .bget n (1, n)) rfl fun _ _ _ => trivial, rfl, ?_⟩⟩
  · decide +kernel
  · decide +kernel

end LearnXv6.Paging
