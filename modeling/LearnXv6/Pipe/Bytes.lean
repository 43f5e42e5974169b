import LearnXv6.Pipe.Model
import LearnXv6.Store.Ring

/-! The bytes of a pipe: reads return them in the order of the writes, also when the counters wrap. -/
namespace LearnXv6.Pipe
open Store List

variable {τ : Type} {s s' : State τ} {t : τ} {a : Act τ} {es es' : List Event}
  {read queue bytes rest l : List UInt8} {n : ℕ} {b : UInt8}

def storedIn : List Event → List UInt8
  | [] => []
  | .stored bytes :: es => bytes ++ storedIn es
  | _ :: es => storedIn es

def returnedIn : List Event → List UInt8
  | [] => []
  | .returned bytes :: es => bytes ++ returnedIn es
  | _ :: es => returnedIn es

lemma storedIn_append (es es' : List Event) : storedIn (es ++ es') = storedIn es ++ storedIn es' := by
  induction es with
  | nil => rfl
  | cons e es ih => cases e <;> simp [storedIn, ih]

lemma returnedIn_append (es es' : List Event) :
    returnedIn (es ++ es') = returnedIn es ++ returnedIn es' := by
  induction es with
  | nil => rfl
  | cons e es ih => cases e <;> simp [returnedIn, ih]

/-- The pipe after `read` has been read, with the bytes `queue` in it: the counters are those of all
bytes so far, modulo `2 ^ 32`. -/
structure Carries (read queue : List UInt8) (s : State τ) : Prop where
  nread : s.nread = read.length % 2 ^ 32
  nwrite : s.nwrite = (read.length + queue.length) % 2 ^ 32
  ring : Ring PIPESIZE (fun i => some (s.data i)) read.length queue

namespace Carries

section

variable (h : Carries read queue s)
include h

lemma length_le : queue.length ≤ PIPESIZE := h.ring.fits

/-- The test of `pipewrite` and the loop of `piperead` compare counters less than `2 ^ 32` apart. -/
lemma full_iff : s.full ↔ queue.length = PIPESIZE := by
  have hle := h.length_le
  unfold State.full
  rw [h.nread, h.nwrite]
  unfold PIPESIZE at *
  omega

lemma empty_iff : s.nread = s.nwrite ↔ queue = [] := by
  have hle := h.length_le
  rw [h.nread, h.nwrite, ← length_eq_zero_iff]
  unfold PIPESIZE at *
  omega

lemma congr (hdata : s'.data = s.data) (hread : s'.nread = s.nread)
    (hwrite : s'.nwrite = s.nwrite) : Carries read queue s' := by
  refine ⟨hread.trans h.nread, hwrite.trans h.nwrite, ?_⟩
  rw [hdata]
  exact h.ring

lemma put (hfull : ¬ s.full) (b : UInt8) : Carries read (queue ++ [b]) (s.put b) := by
  have hlt : queue.length < PIPESIZE := by
    have hle := h.length_le
    have := mt h.full_iff.mpr hfull
    omega
  have hplace : s.nwrite % PIPESIZE = (read.length + queue.length) % PIPESIZE := by
    rw [h.nwrite]
    unfold PIPESIZE
    omega
  constructor
  · exact h.nread
  · simp only [State.put, h.nwrite, length_append, length_singleton]
    omega
  · have hput := h.ring.put hlt b
    rw [← hplace] at hput
    refine Eq.mp (congrArg (fun r => Ring PIPESIZE r read.length (queue ++ [b])) ?_) hput
    funext i
    by_cases hi : i = s.nwrite % PIPESIZE
    · simp [State.put, hi]
    · simp [State.put, Function.update_of_ne hi]

end

lemma take (h : Carries read (b :: queue) s) : s.data (s.nread % PIPESIZE) = b ∧
    Carries (read ++ [b]) queue { s with nread := (s.nread + 1) % 2 ^ 32 } := by
  have hplace : s.nread % PIPESIZE = read.length % PIPESIZE := by
    rw [h.nread]
    unfold PIPESIZE
    omega
  have hhead := h.ring.head
  constructor
  · rw [hplace]
    exact Option.some.inj hhead
  · refine ⟨?_, ?_, ?_⟩
    · simp only [h.nread, length_append, length_singleton]
      omega
    · simp only [h.nwrite, length_append, length_cons, length_nil]
      congr 1
      omega
    · simpa using h.ring.tail

end Carries

/-- What the loop of `pipewrite` does: it stores the front of what is left, and stops early only at a
full pipe. -/
structure Stores (l : List UInt8) (s : State τ) (queue : List UInt8)
    (r : List UInt8 × List UInt8 × State τ) : Prop where
  split : l = r.1 ++ r.2.1
  full : r.2.1 ≠ [] → (queue ++ r.1).length = PIPESIZE
  same : r.2.2 = { s with data := r.2.2.data, nwrite := r.2.2.nwrite }

lemma store_stores (h : Carries read queue s) :
    Stores l s queue (store l s) ∧ Carries read (queue ++ (store l s).1) (store l s).2.2 := by
  induction l generalizing queue s with
  | nil => exact ⟨⟨rfl, fun h => absurd rfl h, rfl⟩, by simpa [store] using h⟩
  | cons b l ih =>
    unfold store
    split
    · rename_i hfull
      refine ⟨⟨rfl, fun _ => ?_, rfl⟩, by simpa using h⟩
      simpa using h.full_iff.mp hfull
    · rename_i hfull
      obtain ⟨hstores, hcarries⟩ := ih (h.put hfull b)
      refine ⟨⟨?_, ?_, ?_⟩, ?_⟩
      · simpa using hstores.split
      · simpa using hstores.full
      · exact hstores.same
      · simpa using hcarries

/-- What the loop of `piperead` does: it takes the front of the queue. -/
lemma fetch_fetches (h : Carries read queue s) : ∃ queue', queue = (fetch n s).1 ++ queue' ∧
    Carries (read ++ (fetch n s).1) queue' (fetch n s).2 ∧
    (fetch n s).2 = { s with nread := (fetch n s).2.nread } := by
  induction n generalizing read queue s with
  | zero => exact ⟨queue, rfl, by simpa [fetch] using h, rfl⟩
  | succ n ih =>
    unfold fetch
    split
    · exact ⟨queue, rfl, by simpa using h, rfl⟩
    · rename_i hne
      cases queue with
      | nil => exact absurd (h.empty_iff.mpr rfl) hne
      | cons b queue =>
        obtain ⟨hb, hrest⟩ := h.take
        obtain ⟨queue', hqueue, hcarries, hsame⟩ := ih hrest
        refine ⟨queue', ?_, ?_, hsame⟩
        · simp only [hb, cons_append, cons.injEq, true_and]
          exact hqueue
        · simpa [hb] using hcarries

/-- After the events `es`: the bytes stored and not returned are those in the pipe. -/
def Holds (es : List Event) (s : State τ) : Prop :=
  ∃ queue, storedIn es = returnedIn es ++ queue ∧ Carries (returnedIn es) queue s

lemma Holds.quiet (h : Holds es s) (hstored : storedIn es' = []) (hreturned : returnedIn es' = [])
    (hdata : s'.data = s.data) (hread : s'.nread = s.nread) (hwrite : s'.nwrite = s.nwrite) :
    Holds (es ++ es') s' := by
  obtain ⟨queue, hbytes, hcarries⟩ := h
  unfold Holds
  rw [storedIn_append, returnedIn_append, hstored, hreturned, append_nil, append_nil]
  exact ⟨queue, hbytes, hcarries.congr hdata hread hwrite⟩

variable [DecidableEq τ]

/-- The ways in which `pipewrite` gives up the lock: done, at a full pipe with an error, or asleep at a
full pipe. The bytes that it stored stand in `u`. -/
inductive Writes (t : τ) (n : ℕ) (queue bytes : List UInt8) (u : State τ) :
    List UInt8 → State τ × List Event → Prop
  | done : Writes t n queue bytes u [] ((wakeReaders u).goto t .out, [.stored bytes, .result n])
  | failed {rest : List UInt8} : rest ≠ [] → (queue ++ bytes).length = PIPESIZE →
      u.readopen = false ∨ u.killed t →
      Writes t n queue bytes u rest (u.goto t .out, [.stored bytes, .result (-1)])
  | sleeps {rest : List UInt8} : (queue ++ bytes).length = PIPESIZE → u.readopen →
      Writes t n queue bytes u rest
        ((wakeReaders u).goto t (.writeSleep n rest), [.stored bytes])

lemma pipewrite_writes (h : Carries read queue s) (t : τ) (n : ℕ) (l : List UInt8) :
    ∃ bytes rest u, l = bytes ++ rest ∧ u = { s with data := u.data, nwrite := u.nwrite } ∧
      Carries read (queue ++ bytes) u ∧ Writes t n queue bytes u rest (pipewrite t n l s) := by
  obtain ⟨hstores, hcarries⟩ := store_stores (l := l) h
  refine ⟨(store l s).1, (store l s).2.1, (store l s).2.2, hstores.split, hstores.same, hcarries, ?_⟩
  have hfull := hstores.full
  unfold pipewrite
  generalize store l s = r at hfull ⊢
  obtain ⟨bytes, rest, u⟩ := r
  cases rest with
  | nil => exact .done
  | cons b rest =>
    have hlength := hfull (cons_ne_nil b rest)
    by_cases hgone : u.readopen = false ∨ u.killed t
    · simp only [hgone, if_true]
      exact .failed (cons_ne_nil b rest) hlength hgone
    · simp only [hgone, if_false]
      push Not at hgone
      exact .sleeps hlength (by simpa using hgone.1)

/-- The ways in which `piperead` gives up the lock: with an error, asleep at an empty pipe, or with the
bytes that it took. -/
inductive Reads (t : τ) (n : ℕ) (read queue : List UInt8) (s : State τ) :
    State τ × List Event → Prop
  | failed : Reads t n read queue s (s.goto t .out, [.result (-1)])
  | sleeps : queue = [] → s.writeopen → Reads t n read queue s (s.goto t (.readSleep n), [])
  | done {bytes queue' : List UInt8} {nread : ℕ} : queue = bytes ++ queue' →
      Carries (read ++ bytes) queue' { s with nread := nread } →
      Reads t n read queue s ((wakeWriters { s with nread := nread }).goto t .out,
        [.returned bytes, .result bytes.length])

lemma piperead_reads (h : Carries read queue s) (t : τ) (n : ℕ) :
    Reads t n read queue s (piperead t n s) := by
  unfold piperead
  split
  · rename_i hempty
    split
    · exact .failed
    · exact .sleeps (h.empty_iff.mp hempty.1) hempty.2
  · obtain ⟨queue', hqueue, hcarries, hsame⟩ := fetch_fetches (n := n) h
    generalize fetch n s = r at hqueue hcarries hsame ⊢
    obtain ⟨bytes, u⟩ := r
    simp only at hqueue hcarries hsame ⊢
    rw [hsame] at hcarries ⊢
    exact .done hqueue hcarries

lemma Holds.pipewrite (h : Holds es s) (t : τ) (n : ℕ) (l : List UInt8) :
    Holds (es ++ (pipewrite t n l s).2) (pipewrite t n l s).1 := by
  obtain ⟨queue, hbytes, hcarries⟩ := h
  obtain ⟨bytes, rest, u, -, -, hu, hwrites⟩ := pipewrite_writes hcarries t n l
  generalize Pipe.pipewrite t n l s = r at hwrites
  have hstored : storedIn r.2 = bytes := by cases hwrites <;> simp [storedIn]
  have hreturned : returnedIn r.2 = [] := by cases hwrites <;> rfl
  unfold Holds
  rw [storedIn_append, returnedIn_append, hbytes, hstored, hreturned, append_nil]
  refine ⟨queue ++ bytes, append_assoc _ _ _, ?_⟩
  cases hwrites <;> exact hu.congr rfl rfl rfl

lemma Holds.piperead (h : Holds es s) (t : τ) (n : ℕ) :
    Holds (es ++ (piperead t n s).2) (piperead t n s).1 := by
  obtain ⟨queue, hbytes, hcarries⟩ := id h
  have hreads := piperead_reads hcarries t n
  generalize Pipe.piperead t n s = r at hreads
  cases hreads with
  | failed | sleeps _ _ => exact h.quiet rfl rfl rfl rfl rfl
  | @done bytes queue' _ hqueue hu =>
    unfold Holds
    rw [storedIn_append, returnedIn_append, hbytes, hqueue]
    refine ⟨queue', by simp [storedIn, returnedIn], ?_⟩
    rw [show returnedIn [Event.returned bytes, .result bytes.length] = bytes from append_nil bytes]
    exact hu.congr rfl rfl rfl

lemma Holds.step (h : Holds es s) (hstep : step a s = .ok (s', es')) : Holds (es ++ es') s' := by
  cases step_does hstep with
  | write _ _ | read _ _ => exact h.quiet rfl rfl rfl rfl rfl
  | pipewrite _ => exact h.pipewrite _ _ _
  | piperead _ => exact h.piperead _ _
  | close writable => cases writable <;> exact h.quiet rfl rfl rfl rfl rfl
  | kill _ => exact h.quiet rfl rfl rfl rfl rfl

lemma run_holds {C : State τ → Act τ → Prop} {data : ℕ → UInt8}
    (h : Run step C (pipealloc data) es s) : Holds es s := by
  apply h.history
  · intro es s a s' es' hs _ hstep
    exact hs.step hstep
  · exact ⟨[], rfl, rfl, rfl, Ring.nil⟩

end LearnXv6.Pipe
