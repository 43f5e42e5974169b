import LearnXv6.Mailbox.Fifo

/-! A mailbox holds at most `MAILBOX_MSG_QUEUE` messages as long as it accepts no more of them. The copy of
another one would overwrite the indices and the size of the mailbox, where `exec` stops. -/
namespace LearnXv6.Mailbox
open Function Store

variable {τ : Type}

instance : NeZero MAILBOX_SIZE := ⟨by decide⟩

abbrev Config (τ : Type) := Pool τ (Op τ) Op.Ret Unit × State τ

/-- The mailbox that a process is going to copy its message to, after the test of the size. -/
def inserting (c : Config τ) (t : τ) : Option (Fin MAILBOX_SIZE) :=
  match c.1 t with
  | .op (.enqueue md _ _) _ => some md
  | _ => none

/-- Whoever is going to copy a message does so to a mailbox that has accepted fewer messages than its queue
has entries. -/
def Unwrapped (c : Config τ) : Prop :=
  ∀ t md, inserting c t = some md → (c.2.accepted md).length < MAILBOX_MSG_QUEUE

lemma Rep.size_le {b : Box} {accepted returned : List Msg} (h : Rep b accepted returned) :
    b.size ≤ MAILBOX_MSG_QUEUE := by
  have h1 := h.size
  have h2 := h.bound
  omega

lemma Rep.size_eq {b : Box} {accepted returned : List Msg} (h : Rep b accepted returned) :
    (b.size : ℤ) = accepted.length - returned.length := by
  have h1 := h.size
  have h2 : returned.length = b.recvIndex := by
    rw [h.returned, List.length_take]
    omega
  omega

variable [DecidableEq τ] {calls : τ → List (Call τ)} {c : Config τ}

lemma Unwrapped.no_index {i : ℕ} (hc : Unwrapped c)
    (h : Keeps (protocol τ) (fun _ s => Inv s) (fun _ _ => True) c) : ¬ Pool.Fails exec c (.index i) := by
  obtain ⟨gs, hobeys, hinv⟩ := h
  rintro ⟨t, o, k, ht, hstep⟩
  have hallowed := hobeys t
  rw [ht] at hallowed
  obtain ⟨md, buffer, sync, rfl, rfl, hle⟩ := (exec_index hinv hallowed.1).mp hstep
  have := hc t md (by rw [inserting, ht])
  omega

/-- In every run in which no process copies to a mailbox that has accepted `MAILBOX_MSG_QUEUE` messages, no
mailbox holds more messages than it has entries, nor fewer than none. A sender that is going to copy finds
room, and no index is out of bounds. -/
theorem capacity_kept (h : Relation.ReflTransGen (fun c c' => Pool.Step exec c c' ∧ Unwrapped c)
    (fun t => process t (calls t), State.init) c) (md : Fin MAILBOX_SIZE) :
    (c.2.mailbox md).size ≤ MAILBOX_MSG_QUEUE ∧
      ((c.2.mailbox md).size : ℤ) = (c.2.accepted md).length - (c.2.returned md).length ∧
      (Unwrapped c → (∀ t, inserting c t = some md → (c.2.mailbox md).size < MAILBOX_MSG_QUEUE) ∧
        ∀ i, ¬ Pool.Fails exec c (.index i)) := by
  have hkeeps := keeps_reach (Relation.ReflTransGen.mono (fun _ _ hs => And.left hs) _ _ h)
  have hinv : Inv c.2 := hkeeps.choose_spec.2
  refine ⟨(hinv md).size_le, (hinv md).size_eq, fun hc => ⟨fun t ht => ?_, fun i => hc.no_index hkeeps⟩⟩
  have hsize := (hinv md).size
  have := hc t md ht
  omega

lemma exec_accepted {s s' : State τ} {o : Op τ} {r : o.Ret} (hs : exec o s = .ok (r, s'))
    (md : Fin MAILBOX_SIZE) : (s.accepted md).length ≤ (s'.accepted md).length := by
  cases o with
  | full md' | kill p =>
    cases hs
    exact le_rfl
  | enqueue md' buffer sync =>
    simp only [exec] at hs
    split at hs
    · cases hs
      by_cases hmd : md = md'
      · subst hmd
        simp
      · simp [update_of_ne hmd]
    · cases hs
  | await md' i =>
    simp only [exec] at hs
    split at hs
    · split at hs
      · cases hs
        exact le_rfl
      · cases hs
    · cases hs
  | dequeue md' me =>
    simp only [exec] at hs
    split at hs
    · split at hs
      · cases hs
        exact le_rfl
      · cases hs
    · split at hs
      · cases hs
        exact le_rfl
      · cases hs

/-- A run at whose end no mailbox has accepted `MAILBOX_MSG_QUEUE` messages has met the condition. -/
lemma reach_unwrapped {c₀ : Config τ} (h : Pool.Reach exec c₀ c)
    (hlt : ∀ md, (c.2.accepted md).length < MAILBOX_MSG_QUEUE) :
    Relation.ReflTransGen (fun c c' => Pool.Step exec c c' ∧ Unwrapped c) c₀ c := by
  induction h with
  | refl => exact .refl
  | tail _ hs ih =>
    have hstep := hs
    cases hs with
    | op ht hexec =>
      have hbefore := fun md => (exec_accepted hexec md).trans_lt (hlt md)
      exact (ih hbefore).tail ⟨hstep, fun t md _ => hbefore md⟩

/-- One message is stored, and the sender is going to copy a second one. -/
theorem one_message_stored : ∃ c : Config Unit, c.2.accepted 3 = [hello] ∧ inserting c () = some 3 ∧
    (c.2.mailbox 3).size ≤ MAILBOX_MSG_QUEUE ∧
      ((c.2.mailbox 3).size : ℤ) = (c.2.accepted 3).length - (c.2.returned 3).length ∧
      (c.2.mailbox 3).size < MAILBOX_MSG_QUEUE ∧ ∀ i, ¬ Pool.Fails exec c (.index i) := by
  obtain ⟨c, hrun, hlt, hone, hnext⟩ : ∃ c : Config Unit, Pool.Reach exec
      (fun t => process t [.sendmsg 3 hello 0, .sendmsg 3 hello 0], State.init) c ∧
      (∀ md, (c.2.accepted md).length < MAILBOX_MSG_QUEUE) ∧ c.2.accepted 3 = [hello] ∧
      inserting c () = some 3 :=
    ⟨_, Pool.reach_of_schedule (List.replicate 4 ()) rfl, by decide, rfl, rfl⟩
  obtain ⟨hle, hsize, hroom⟩ := capacity_kept (reach_unwrapped hrun hlt) 3
  obtain ⟨hfree, hindex⟩ := hroom fun t md _ => hlt md
  exact ⟨c, hone, hnext, hle, hsize, hfree () hnext, hindex⟩

/-- Two processes that only send. -/
def senders : Fin 2 → List (Call (Fin 2))
  | 0 => List.replicate MAILBOX_MSG_QUEUE (.sendmsg 0 hello 0)
  | 1 => [.sendmsg 0 hello 0]

/-- The second process tests the size when one entry is left, and the first one then takes it. The copy
of the second goes past the end of the queue, and no test is left that could return -1. -/
theorem full_when_inserting : ∃ c : Config (Fin 2),
    Pool.Reach exec (fun t => process t (senders t), State.init) c ∧
      (c.2.mailbox 0).size = MAILBOX_MSG_QUEUE ∧ c.2.returned 0 = [] ∧
      inserting c 1 = some 0 ∧ Pool.Fails exec c (.index MAILBOX_MSG_QUEUE) := by
  have hrun : Pool.Reach exec (fun t => process t (senders t), (State.init : State (Fin 2))) _ :=
    Pool.reach_of_schedule (List.replicate 45 0 ++ [1] ++ List.replicate 3 0) rfl
  exact ⟨_, hrun, rfl, rfl, rfl, 1, _, _, rfl, rfl⟩

end LearnXv6.Mailbox
