import LearnXv6.Mailbox.Model

/-! A mailbox is a first-in first-out queue of the messages that it accepts, as long as it accepts no
more than it has entries. -/
namespace LearnXv6.Mailbox
open Function Store List

/-- The first entries of the queue are the accepted messages, and those before `recvIndex` are the
returned ones. -/
structure Rep (b : Box) (accepted returned : List Msg) : Prop where
  sendIndex : b.sendIndex = accepted.length
  size : b.recvIndex + b.size = accepted.length
  bound : accepted.length ≤ MAILBOX_MSG_QUEUE
  queue : ∀ i : Fin MAILBOX_MSG_QUEUE, ∀ m, accepted[(i : ℕ)]? = some m → b.queue i = m
  returned : returned = accepted.take b.recvIndex

namespace Rep

variable {b : Box} {accepted returned : List Msg}

lemma init : Rep .init [] [] := by
  refine ⟨rfl, rfl, by decide, ?_, rfl⟩
  intro i m hm
  cases hm

variable (h : Rep b accepted returned)
include h

lemma put (hi : b.sendIndex < MAILBOX_MSG_QUEUE) (m : Msg)
    (sync : ℤ) : Rep (b.put ⟨b.sendIndex, hi⟩ m sync) (accepted ++ [m]) returned := by
  have hlen := h.sendIndex
  have hsize := h.size
  constructor
  · simp [Box.put, MAILBOX_MSG_QUEUE, hlen]
  · simp only [Box.put, length_append, length_singleton]
    omega
  · simp only [length_append, length_singleton]
    omega
  · intro i m' hm
    by_cases heq : i = ⟨b.sendIndex, hi⟩
    · subst heq
      have hm' : m = m' := by simpa [hlen] using hm
      simp [Box.put, hm']
    · have hne : (i : ℕ) ≠ accepted.length := by
        rw [← hlen]
        exact fun hc => heq (Fin.ext hc)
      have hlt : (i : ℕ) < accepted.length := by
        obtain ⟨hl, -⟩ := List.getElem?_eq_some_iff.mp hm
        simp only [length_append, length_singleton] at hl
        omega
      rw [getElem?_append_left hlt] at hm
      simpa [Box.put, update_of_ne heq] using h.queue i m' hm
  · have hle : b.recvIndex ≤ accepted.length := by omega
    simpa [Box.put, take_append_of_le_length hle] using h.returned

lemma recvIndex_lt (hsize : b.size ≠ 0) : b.recvIndex < MAILBOX_MSG_QUEUE := by
  have h1 := h.size
  have h2 := h.bound
  omega

lemma take (hsize : b.size ≠ 0) (hi : b.recvIndex < MAILBOX_MSG_QUEUE) :
    Rep (b.take ⟨b.recvIndex, hi⟩) accepted (returned ++ [b.queue ⟨b.recvIndex, hi⟩]) := by
  have hs := h.size
  have hlt : b.recvIndex < accepted.length := by omega
  have hqueue := h.queue ⟨b.recvIndex, hi⟩ accepted[b.recvIndex] (getElem?_eq_getElem hlt)
  refine ⟨h.sendIndex, ?_, h.bound, h.queue, ?_⟩
  · simp only [Box.take, MAILBOX_MSG_QUEUE]
    omega
  · rw [hqueue, h.returned]
    exact (take_append_getElem hlt)

lemma isPrefix : returned <+: accepted := by
  rw [h.returned]
  exact take_prefix _ _

end Rep

variable {τ : Type}

/-- Every mailbox holds what its history says. -/
def Inv (s : State τ) : Prop :=
  ∀ md, Rep (s.mailbox md) (s.accepted md) (s.returned md)

lemma Inv.init : Inv (State.init : State τ) := fun _ => .init

lemma Inv.step [DecidableEq τ] {s s' : State τ} {o : Op τ} {r : o.Ret} (h : Inv s)
    (hs : exec o s = .ok (r, s')) : Inv s' := by
  cases o with
  | full md =>
    cases hs
    exact h
  | enqueue md buffer sync =>
    simp only [exec] at hs
    split at hs
    · rename_i hi
      cases hs
      intro md'
      by_cases heq : md' = md
      · subst heq
        simpa using (h md').put hi buffer sync
      · simpa [update_of_ne heq] using h md'
    · cases hs
  | await md i =>
    simp only [exec] at hs
    split at hs
    · split at hs
      · cases hs
        exact h
      · cases hs
    · cases hs
  | dequeue md me =>
    simp only [exec] at hs
    split at hs
    · split at hs
      · cases hs
        exact h
      · cases hs
    · rename_i hsize
      split at hs
      · rename_i hi
        cases hs
        intro md'
        by_cases heq : md' = md
        · subst heq
          simpa using (h md').take hsize hi
        · simpa [update_of_ne heq] using h md'
      · cases hs
  | kill p =>
    cases hs
    exact h

/-- `await` is called with the index that `enqueue` answered. -/
def protocol (τ : Type) : Protocol (Op τ) Op.Ret Unit where
  allowed _ o := match o with
    | .await _ i => i < MAILBOX_MSG_QUEUE
    | _ => True
  next _ o r _ := match o, r with
    | .enqueue _ _ _, (i : ℕ) => i < MAILBOX_MSG_QUEUE
    | _, _ => True

lemma run_obeys (me : τ) (c : Call τ) : Obeys (protocol τ) (c.run me) () fun _ _ => True := by
  cases c with
  | sendmsg md buffer sync =>
    refine Obeys.bind ?_
    simp only [sendmsg]
    cases slot md with
    | none => trivial
    | some md =>
      refine ⟨trivial, fun full _ _ => ?_⟩
      cases full with
      | true => trivial
      | false => exact ⟨trivial, fun i _ hi => ⟨hi, fun _ _ _ => trivial⟩⟩
  | recvmsg md =>
    refine Obeys.bind ?_
    simp only [recvmsg]
    cases slot md with
    | none => trivial
    | some md =>
      refine ⟨trivial, fun answer _ _ => ?_⟩
      cases answer with
      | none | some buffer => trivial
  | kill p => exact ⟨trivial, fun _ _ _ => trivial⟩

lemma process_obeys (me : τ) (calls : List (Call τ)) :
    Obeys (protocol τ) (process me calls) () fun _ _ => True :=
  Obeys.forM (fun _ _ => True) calls (fun _ c _ _ _ => run_obeys me c) trivial

variable [DecidableEq τ]

lemma exec_next {s s' : State τ} {o : Op τ} {r : o.Ret} (hs : exec o s = .ok (r, s')) :
    (protocol τ).next () o r () := by
  cases o with
  | enqueue md buffer sync =>
    simp only [exec] at hs
    split at hs
    · rename_i hi
      cases hs
      exact hi
    · cases hs
  | _ => trivial

variable {calls : τ → List (Call τ)} {c : Pool τ (Op τ) Op.Ret Unit × State τ}

lemma keeps_reach (h : Pool.Reach exec (fun t => process t (calls t), State.init) c) :
    Keeps (protocol τ) (fun _ s => Inv s) (fun _ _ => True) c := by
  refine Keeps.reach ?_ ⟨fun _ => (), fun t => process_obeys t (calls t), Inv.init⟩ h
  intro gs s t o r s' hinv _ hs
  exact ⟨(), exec_next hs, hinv.step hs⟩

lemma exec_index {s : State τ} {o : Op τ} {i : ℕ} (h : Inv s) (ho : (protocol τ).allowed () o) :
    exec o s = .error (.index i) ↔
      ∃ md buffer sync, o = .enqueue md buffer sync ∧ i = (s.accepted md).length ∧ MAILBOX_MSG_QUEUE ≤ i := by
  cases o with
  | full md => simp [exec]
  | enqueue md buffer sync =>
    have hlen := (h md).sendIndex
    simp only [exec]
    split
    · rename_i hi
      simp only [reduceCtorEq, false_iff]
      rintro ⟨md', buffer', sync', heq, rfl, hle⟩
      cases heq
      omega
    · rename_i hi
      constructor
      · intro he
        cases he
        exact ⟨md, buffer, sync, rfl, hlen, by omega⟩
      · rintro ⟨md', buffer', sync', heq, rfl, hle⟩
        cases heq
        rw [hlen]
  | await md j =>
    have hj : j < MAILBOX_MSG_QUEUE := ho
    simp only [exec, dif_pos hj]
    split <;> simp
  | dequeue md me =>
    simp only [exec]
    split
    · split <;> simp
    · rename_i hsize
      rw [dif_pos ((h md).recvIndex_lt hsize)]
      simp
  | kill p => simp [exec]

/-- Whatever the processes do, each mailbox returns the messages in the order in which it accepted
them, and no index is out of bounds while no process adds to a mailbox that has already accepted
`MAILBOX_MSG_QUEUE` messages. -/
theorem fifo_until_wrap (h : Pool.Reach exec (fun t => process t (calls t), State.init) c) :
    (∀ md, c.2.returned md <+: c.2.accepted md) ∧ ((∀ i, ¬ Pool.Fails exec c (.index i)) ↔
        ∀ t md buffer sync k, c.1 t = .op (.enqueue md buffer sync) k →
          (c.2.accepted md).length < MAILBOX_MSG_QUEUE) := by
  obtain ⟨gs, hobeys, hinv⟩ := keeps_reach h
  refine ⟨fun md => (hinv md).isPrefix, ?_, ?_⟩
  · intro hsafe t md buffer sync k ht
    by_contra hlen
    have hindex := (exec_index (o := .enqueue md buffer sync) hinv trivial).mpr
      ⟨md, buffer, sync, rfl, rfl, not_lt.mp hlen⟩
    exact hsafe _ ⟨t, _, k, ht, hindex⟩
  · rintro hroom i ⟨t, o, k, ht, hstep⟩
    have hallowed := hobeys t
    rw [ht] at hallowed
    obtain ⟨md, buffer, sync, rfl, rfl, hle⟩ := (exec_index hinv hallowed.1).mp hstep
    have := hroom t md buffer sync k ht
    omega

def hello : Msg := fun _ => 104

theorem one_message_returned : ∃ c : Pool Unit (Op Unit) Op.Ret Unit × State Unit,
    c.2.returned ⟨3, by decide⟩ = [hello] ∧ (∀ md, c.2.returned md <+: c.2.accepted md) ∧
      ((∀ i, ¬ Pool.Fails exec c (.index i)) ↔ ∀ t md buffer sync k, c.1 t = .op (.enqueue md buffer sync) k →
          (c.2.accepted md).length < MAILBOX_MSG_QUEUE) := by
  have hrun : Pool.Reach exec
      (fun t => process t [.sendmsg 3 hello 0, .recvmsg 3], (State.init : State Unit)) _ :=
    Pool.reach_of_run (t := ()) (Prog.bind_ret _).symm rfl
  exact ⟨_, rfl, fifo_until_wrap hrun⟩

/-- A process that passes itself one message more than the queue has entries, never more than one at
a time. -/
def alone : List (Call Unit) :=
  (replicate MAILBOX_MSG_QUEUE [.sendmsg 0 hello 0, .recvmsg 0]).flatten ++
    [.sendmsg 0 hello 0]

theorem alone_out_of_bounds : ∃ c, Pool.Reach exec (fun t => process t alone, State.init) c ∧
      Pool.Fails exec c (.index MAILBOX_MSG_QUEUE) :=
  Pool.fails_of_run (t := ()) (Prog.bind_ret _).symm rfl

end LearnXv6.Mailbox
