import LearnXv6.Pipe.Bytes

/-! Who sleeps on a pipe: no process sleeps past what it waits for, but for a write that fails halfway. -/
namespace LearnXv6.Pipe
open Function Store

variable {τ : Type} {s s' u : State τ} {t : τ} {a : Act τ} {es : List Event}
  {read queue l : List UInt8} {n : ℕ} {x : Phase}

def Phase.reading : Phase → Bool
  | .readSleep _ => true
  | _ => false

def Phase.writing : Phase → Bool
  | .writeSleep _ _ => true
  | _ => false

/-- A reader sleeps only at an empty pipe with a writer, a writer only at a full pipe with a reader. -/
structure Rests (s : State τ) : Prop where
  readers : ∀ t, (s.phase t).reading → s.nread = s.nwrite ∧ s.writeopen
  writers : ∀ t, (s.phase t).writing → s.full ∧ s.readopen

lemma wakeReaders_reading (s : State τ) (t : τ) : ((wakeReaders s).phase t).reading = false := by
  simp only [wakeReaders]
  cases s.phase t <;> rfl

lemma wakeReaders_writing (s : State τ) (t : τ) :
    ((wakeReaders s).phase t).writing = (s.phase t).writing := by
  simp only [wakeReaders]
  cases s.phase t <;> rfl

lemma wakeWriters_writing (s : State τ) (t : τ) : ((wakeWriters s).phase t).writing = false := by
  simp only [wakeWriters]
  cases s.phase t <;> rfl

lemma wakeWriters_reading (s : State τ) (t : τ) :
    ((wakeWriters s).phase t).reading = (s.phase t).reading := by
  simp only [wakeWriters]
  cases s.phase t <;> rfl

lemma Rests.pipeclose (h : Rests s) (writable : Bool) : Rests (pipeclose writable s) := by
  cases writable with
  | true =>
    refine ⟨fun t ht => ?_, fun t ht => ?_⟩
    · exact absurd ((wakeReaders_reading _ t).symm.trans ht) Bool.false_ne_true
    · exact h.writers t ((wakeReaders_writing _ t).symm.trans ht)
  | false =>
    refine ⟨fun t ht => ?_, fun t ht => ?_⟩
    · exact h.readers t ((wakeWriters_reading _ t).symm.trans ht)
    · exact absurd ((wakeWriters_writing _ t).symm.trans ht) Bool.false_ne_true

lemma Rests.stored (h : Rests s) (hcarries : Carries read queue s)
    (hu : u = { s with data := u.data, nwrite := u.nwrite }) {bytes : List UInt8}
    (hafter : Carries read (queue ++ bytes) u) (t : τ) (ht : (s.phase t).writing) :
    u.full ∧ u.readopen := by
  obtain ⟨hfull, hopen⟩ := h.writers t ht
  have hlength := hcarries.full_iff.mp hfull
  have hle := hafter.length_le
  rw [List.length_append] at hle
  constructor
  · rw [hafter.full_iff, List.length_append]
    omega
  · rw [hu]
    exact hopen

/-- The bytes of a write that are not stored yet. -/
def Phase.left : Phase → List UInt8
  | .pipewrite _ rest => rest
  | _ => []

/-- A write that may fail halfway, one of more bytes than fit by a process that is killed or whose
readers are gone, finds no reader asleep. -/
def Noticed (s : State τ) : Act τ → Prop
  | .run t => (s.readopen = false ∨ s.killed t) ∧ PIPESIZE < (s.phase t).left.length →
      ∀ u, (s.phase u).reading = false
  | _ => True

instance [Fintype τ] (s : State τ) (a : Act τ) : Decidable (Noticed s a) :=
  match a with
  | .run _ => inferInstanceAs (Decidable (_ → _))
  | .write _ _ | .read _ _ | .close _ | .kill _ => inferInstanceAs (Decidable True)

variable [DecidableEq τ]

lemma Rests.goto (h : Rests s) (hr : x.reading → s.nread = s.nwrite ∧ s.writeopen)
    (hw : x.writing → s.full ∧ s.readopen) (t : τ) : Rests (s.goto t x) := by
  constructor
  · intro t' ht'
    rcases eq_or_ne t' t with rfl | hne
    · simp only [State.goto, update_self] at ht'
      exact hr ht'
    · simp only [State.goto, update_of_ne hne] at ht'
      exact h.readers t' ht'
  · intro t' ht'
    rcases eq_or_ne t' t with rfl | hne
    · simp only [State.goto, update_self] at ht'
      exact hw ht'
    · simp only [State.goto, update_of_ne hne] at ht'
      exact h.writers t' ht'

lemma Rests.awake (h : Rests s) (hr : x.reading = false) (hw : x.writing = false) (t : τ) :
    Rests (s.goto t x) := by
  apply h.goto
  · intro hx
    exact absurd (hr.symm.trans hx) Bool.false_ne_true
  · intro hx
    exact absurd (hw.symm.trans hx) Bool.false_ne_true

lemma Rests.kill (h : Rests s) (t : τ) : Rests (kill t s) := by
  have hawake : Rests (s.goto t (s.phase t).woken) := by
    apply h.awake
    · cases s.phase t <;> rfl
    · cases s.phase t <;> rfl
  exact ⟨hawake.readers, hawake.writers⟩

lemma Rests.pipewrite (h : Rests s) (hcarries : Carries read queue s)
    (hnoticed : (s.readopen = false ∨ s.killed t) ∧ PIPESIZE < l.length →
      ∀ u, (s.phase u).reading = false) (n : ℕ) : Rests (pipewrite t n l s).1 := by
  obtain ⟨bytes, rest, u, hl, hu, hafter, hwrites⟩ := pipewrite_writes hcarries t n l
  have hphase : u.phase = s.phase := by rw [hu]
  have hwriters : ∀ t', (u.phase t').writing → u.full ∧ u.readopen := by
    intro t' ht'
    rw [hphase] at ht'
    exact h.stored hcarries hu hafter t' ht'
  have hwoken : Rests (wakeReaders u) := by
    refine ⟨fun t' ht' => ?_, fun t' ht' => ?_⟩
    · rw [wakeReaders_reading] at ht'
      cases ht'
    · rw [wakeReaders_writing] at ht'
      exact hwriters t' ht'
  generalize Pipe.pipewrite t n l s = r at hwrites
  cases hwrites with
  | done => exact hwoken.awake rfl rfl t
  | sleeps hfull hopen =>
    apply hwoken.goto
    · exact fun h => absurd h Bool.false_ne_true
    · exact fun _ => ⟨hafter.full_iff.mpr hfull, hopen⟩
  | failed hrest hfull hgone =>
    have hrests : Rests u := by
      refine ⟨fun t' ht' => ?_, hwriters⟩
      -- a reader asleep found the pipe empty, so that the bytes stored are a whole pipe of them
      rw [hphase] at ht'
      have hqueue := hcarries.empty_iff.mp (h.readers t' ht').1
      have hlong : PIPESIZE < l.length := by
        have hpos := List.length_pos_iff.mpr hrest
        rw [hqueue, List.nil_append] at hfull
        rw [hl, List.length_append]
        omega
      have hnone := hnoticed ⟨by rwa [hu] at hgone, hlong⟩ t'
      rw [hnone] at ht'
      cases ht'
    exact hrests.awake rfl rfl t

lemma Rests.piperead (h : Rests s) (hcarries : Carries read queue s) (t : τ) (n : ℕ) :
    Rests (piperead t n s).1 := by
  have hreads := piperead_reads hcarries t n
  generalize Pipe.piperead t n s = r at hreads
  cases hreads with
  | failed => exact h.awake rfl rfl t
  | sleeps hqueue hopen =>
    apply h.goto
    · exact fun _ => ⟨hcarries.empty_iff.mpr hqueue, hopen⟩
    · exact fun h => absurd h Bool.false_ne_true
  | @done bytes queue' nread hqueue hafter =>
    refine Rests.awake ?_ rfl rfl t
    constructor
    · intro t' ht'
      -- a reader still asleep: there was nothing to take
      rw [wakeWriters_reading] at ht'
      obtain ⟨hempty, hopen⟩ := h.readers t' ht'
      have hnil := hcarries.empty_iff.mp hempty
      rw [hnil] at hqueue
      have hqueue' := (List.append_eq_nil_iff.mp hqueue.symm).2
      exact ⟨hafter.empty_iff.mpr hqueue', hopen⟩
    · intro t' ht'
      rw [wakeWriters_writing] at ht'
      cases ht'

lemma Rests.step (h : Rests s) (hcarries : Carries read queue s) (hnoticed : Noticed s a)
    (hstep : step a s = .ok (s', es)) : Rests s' := by
  cases step_does hstep with
  | write t bytes | read t n => exact h.awake rfl rfl t
  | pipewrite hphase =>
    simp only [Noticed, hphase] at hnoticed
    exact h.pipewrite hcarries hnoticed _
  | piperead _ => exact h.piperead hcarries _ _
  | close writable => exact h.pipeclose writable
  | kill t => exact h.kill t

lemma run_rests {data : ℕ → UInt8} (h : Run step Noticed (pipealloc data) es s) : Rests s := by
  have hboth : Holds es s ∧ Rests s := by
    apply h.history (I := fun es s => Holds es s ∧ Rests s)
    · rintro es s a s' es' ⟨hholds, hrests⟩ hnoticed hstep
      obtain ⟨queue, -, hcarries⟩ := id hholds
      exact ⟨hholds.step hstep, hrests.step hcarries hnoticed hstep⟩
    · exact ⟨⟨[], rfl, rfl, rfl, Ring.nil⟩, fun _ h => absurd h Bool.false_ne_true,
        fun _ h => absurd h Bool.false_ne_true⟩
  exact hboth.2

/-- Reads return the bytes of the writes in their order and the counters stay within a pipe of each
other, in every run. In a run where each write that may fail halfway finds no reader asleep, no
process sleeps on the pipe while what it waits for is there. -/
theorem pipe_delivers (data : ℕ → UInt8) :
    (∀ es (s : State τ), Run step (fun _ _ => True) (pipealloc data) es s →
      returnedIn es <+: storedIn es ∧ (s.nwrite + 2 ^ 32 - s.nread) % 2 ^ 32 ≤ PIPESIZE) ∧
    ∀ es (s : State τ), Run step Noticed (pipealloc data) es s →
      (∀ t n, s.phase t = .readSleep n → s.nread = s.nwrite ∧ s.writeopen) ∧
      ∀ t n rest, s.phase t = .writeSleep n rest → s.full ∧ s.readopen := by
  constructor
  · intro es s hrun
    obtain ⟨queue, hbytes, hcarries⟩ := run_holds hrun
    have hle := hcarries.length_le
    refine ⟨⟨queue, hbytes.symm⟩, ?_⟩
    rw [hcarries.nread, hcarries.nwrite]
    unfold PIPESIZE at *
    omega
  · intro es s hrun
    have hrests := run_rests hrun
    refine ⟨fun t n ht => hrests.readers t ?_, fun t n rest ht => hrests.writers t ?_⟩
    · rw [ht]
      rfl
    · rw [ht]
      rfl

/-- A reader waits, gets the two bytes of a writer, and waits again. -/
theorem pipe_delivers_two : ∃ s : State Bool, Run step Noticed (pipealloc fun _ => 0)
      [.stored [1, 2], .result 2, .returned [1, 2], .result 2] s ∧
    returnedIn [.stored [1, 2], .result 2, .returned [1, 2], .result 2] <+:
      storedIn [.stored [1, 2], .result 2, .returned [1, 2], .result 2] ∧
    s.phase false = .readSleep 1 ∧ s.nread = s.nwrite ∧ s.writeopen := by
  have hleads : ∃ s, Run step Noticed (pipealloc (τ := Bool) fun _ => 0)
      [.stored [1, 2], .result 2, .returned [1, 2], .result 2] s ∧ s.phase false = .readSleep 1 :=
    Run.of_leads [.read false 3, .run false, .write true [1, 2], .run true, .run false,
      .read false 1, .run false] (by decide +kernel)
  obtain ⟨s, hrun, hphase⟩ := hleads
  have hdelivers := pipe_delivers (τ := Bool) fun _ => 0
  refine ⟨s, hrun, (hdelivers.1 _ s (hrun.mono fun _ _ _ => trivial)).1, hphase, ?_⟩
  exact (hdelivers.2 _ s hrun).1 false 1 hphase

/-- A writer of 513 bytes is killed before it gets the lock, and fails after the first 512. Every other
way out of the loop wakes the readers; this one leaves a reader asleep at a full pipe. -/
theorem pipewrite_leaves_reader_asleep : ∃ s : State Bool, Run step (fun _ _ => True) (pipealloc fun _ => 0)
      [.stored (List.replicate 512 7), .result (-1)] s ∧
    s.phase false = .readSleep 1 ∧ s.full ∧ s.nread ≠ s.nwrite :=
  Run.of_leads [.read false 1, .run false, .write true (List.replicate 513 7), .kill true, .run true]
    (by decide +kernel)

end LearnXv6.Pipe
