import LearnXv6.Store.Pool

/-! The mailboxes of the messages lab: `sendmsg` and `recvmsg` as programs over their critical
sections. -/
namespace LearnXv6.Mailbox
open Store Function

def MAILBOX_SIZE : ℕ := 8
def MAILBOX_MSG_QUEUE : ℕ := 16
def MSG_SIZE : ℕ := 255

/-- `char [MSG_SIZE]` -/
abbrev Msg := Fin MSG_SIZE → UInt8

/-- An entry of `mailbox`, without its lock. -/
structure Box where
  queue : Fin MAILBOX_MSG_QUEUE → Msg
  sendIndex : ℕ
  recvIndex : ℕ
  size : ℕ
  sync : Fin MAILBOX_MSG_QUEUE → ℤ

/-- The mailboxes and the `killed` flags of the processes. `accepted` and `returned` record, for each
mailbox, the messages that `sendmsg` has copied in and those that `recvmsg` has copied out. -/
structure State (τ : Type) where
  mailbox : Fin MAILBOX_SIZE → Box
  killed : τ → Bool
  accepted : Fin MAILBOX_SIZE → List Msg
  returned : Fin MAILBOX_SIZE → List Msg

/-- Why an operation does not return: the process sleeps, or it indexes `queue` or `sync` outside
their bounds. -/
inductive Stop where
  | sleep
  | index (i : ℕ)
  deriving DecidableEq, Repr

/-- The operations: the unlocked test of `size`, and what runs under the lock of the mailbox from one
`acquire` or wake-up to the next `release` or `sleep`. -/
inductive Op (τ : Type) where
  | full (md : Fin MAILBOX_SIZE)
  | enqueue (md : Fin MAILBOX_SIZE) (buffer : Msg) (sync : ℤ)
  | await (md : Fin MAILBOX_SIZE) (i : ℕ)
  | dequeue (md : Fin MAILBOX_SIZE) (me : τ)
  | kill (p : τ)

def Op.Ret {τ : Type} : Op τ → Type
  | .full _ => Bool
  | .enqueue _ _ _ => ℕ
  | .dequeue _ _ => Option Msg
  | _ => Unit

section Exec

variable {τ : Type} [DecidableEq τ]

def Box.init : Box := ⟨fun _ _ => 0, 0, 0, 0, fun _ => 0⟩

def State.init : State τ := ⟨fun _ => .init, fun _ => false, fun _ => [], fun _ => []⟩

/-- The queue entry and the flag of the message at `sendIndex`, which `+ 1 % MAILBOX_MSG_QUEUE` then
moves on by one. -/
def Box.put (b : Box) (i : Fin MAILBOX_MSG_QUEUE) (buffer : Msg) (sync : ℤ) : Box :=
  { queue := update b.queue i buffer
    sendIndex := b.sendIndex + 1 % MAILBOX_MSG_QUEUE
    recvIndex := b.recvIndex
    size := b.size + 1
    sync := update b.sync i (if sync = 1 then sync else 0) }

def Box.take (b : Box) (i : Fin MAILBOX_MSG_QUEUE) : Box :=
  { b with
    recvIndex := b.recvIndex + 1 % MAILBOX_MSG_QUEUE
    size := b.size - 1
    sync := if b.sync i = 0 then b.sync else update b.sync i 0 }

/-- An access past the end of the queue stops. In the code `queue[MAILBOX_MSG_QUEUE]` are the indices and the
size of the mailbox, which `sendmsg` would overwrite. -/
def exec : (o : Op τ) → State τ → Except Stop (o.Ret × State τ)
  | .full md, s => .ok (decide ((s.mailbox md).size = MAILBOX_MSG_QUEUE), s)
  | .enqueue md buffer sync, s =>
    let b := s.mailbox md
    if h : b.sendIndex < MAILBOX_MSG_QUEUE then
      .ok (b.sendIndex, { s with
        mailbox := update s.mailbox md (b.put ⟨b.sendIndex, h⟩ buffer sync)
        accepted := update s.accepted md (s.accepted md ++ [buffer]) })
    else .error (.index b.sendIndex)
  | .await md i, s =>
    if h : i < MAILBOX_MSG_QUEUE then
      if (s.mailbox md).sync ⟨i, h⟩ = 0 then .ok ((), s) else .error .sleep
    else .error (.index i)
  | .dequeue md me, s =>
    let b := s.mailbox md
    if b.size = 0 then
      if s.killed me then .ok (none, s) else .error .sleep
    else if h : b.recvIndex < MAILBOX_MSG_QUEUE then
      let buffer := b.queue ⟨b.recvIndex, h⟩
      .ok (some buffer, { s with
        mailbox := update s.mailbox md (b.take ⟨b.recvIndex, h⟩)
        returned := update s.returned md (s.returned md ++ [buffer]) })
    else .error (.index b.recvIndex)
  | .kill p, s => .ok ((), { s with killed := update s.killed p true })

end Exec

section Calls

variable {τ : Type}

abbrev Proc (τ : Type) := Prog (Op τ) Op.Ret

def perform (o : Op τ) : Proc τ o.Ret := Prog.perform o

/-- `mailbox[md]`, when it exists. -/
def slot (md : ℤ) : Option (Fin MAILBOX_SIZE) :=
  if h : 0 ≤ md ∧ md < MAILBOX_SIZE then some ⟨md.toNat, by omega⟩ else none

def sendmsg (md : ℤ) (buffer : Msg) (sync : ℤ) : Proc τ ℤ :=
  match slot md with
  | none => return -1
  | some md => do
    let full : Bool ← perform (.full md)
    if full then
      return -1
    else
      let sendIndex : ℕ ← perform (.enqueue md buffer sync)
      perform (.await md sendIndex)
      return 0

/-- The answer and, when a message was copied, the caller's buffer. -/
def recvmsg (me : τ) (md : ℤ) : Proc τ (ℤ × Option Msg) :=
  match slot md with
  | none => return (-1, none)
  | some md => do
    let answer : Option Msg ← perform (.dequeue md me)
    match answer with
    | none => return (-1, none)
    | some buffer => return (MSG_SIZE, some buffer)

inductive Call (τ : Type) where
  | sendmsg (md : ℤ) (buffer : Msg) (sync : ℤ)
  | recvmsg (md : ℤ)
  | kill (p : τ)

def Call.run (me : τ) : Call τ → Proc τ Unit
  | .sendmsg md buffer sync => do
    let _ ← Mailbox.sendmsg md buffer sync
    return ()
  | .recvmsg md => do
    let _ ← Mailbox.recvmsg me md
    return ()
  | .kill p => perform (.kill p)

/-- A process that makes the calls in order. -/
def process (me : τ) (calls : List (Call τ)) : Proc τ Unit :=
  calls.forM (Call.run me)

end Calls

end LearnXv6.Mailbox
