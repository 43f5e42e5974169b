import LearnXv6.Param
import LearnXv6.Store.Run
import LearnXv6.Store.Pool

/-! The process table of the thread lab. A step is what a process does between two points where others
may run: the part of a system call that holds `ptable.lock`, or one that only writes a slot which nobody
else reads. -/
namespace LearnXv6.Thread
open Store Function

abbrev Slot := Fin NPROC
abbrev Fd := Fin NOFILE
abbrev File := Fin NFILE
abbrev Page := ℕ

inductive ProcState where
  | unused | embryo | sleeping | runnable | running | zombie
  deriving DecidableEq, Repr

/-- What a process sleeps on: its own slot in `wait` and `join`, or an address of another part of the
kernel. -/
inductive Chan where
  | proc (p : Slot)
  | other (n : ℕ)
  deriving DecidableEq, Repr

/-- Where a process goes on in the kernel when it runs. -/
inductive Context where
  | user
  /-- in the loop of `wait` -/
  | wait
  /-- in the loop of `join` -/
  | join
  /-- in `exit`, with the files closed -/
  | exit
  deriving DecidableEq, Repr

/-- `struct proc` -/
structure Proc where
  state : ProcState
  pid : ℕ
  parent : Option Slot
  pgdir : Option Page
  kstack : Option Page
  isthread : Bool
  killed : Bool
  chan : Option Chan
  ofile : Fd → Option File
  cwd : Option ℕ
  stack : ℕ
  context : Context

/-- The process table, the processors with the process that each of them runs, `kmem.freelist` and the
counts of `ftable`. -/
structure State (κ : Type) where
  proc : Slot → Proc
  cpu : κ → Option Slot
  nextpid : ℕ
  free : List Page
  ref : File → ℕ
  initproc : Slot

inductive Stop where
  | disabled
  | panic (message : String)
  deriving DecidableEq, Repr

inductive Event where
  /-- the page directory and all that it maps -/
  | freevm (d : Page)
  /-- the kernel stack of a slot -/
  | kfree (p : Slot)
  | returned (p : Slot) (result : ℤ)
  /-- `*stack = p->stack` -/
  | stack (p : Slot) (stack : ℕ)
  deriving DecidableEq, Repr

section Files

variable {κ : Type}

def State.set (s : State κ) (p : Slot) (x : Proc) : State κ :=
  { s with proc := update s.proc p x }

def setFile (p : Slot) (i : Fd) (o : Option File) (s : State κ) : State κ :=
  s.set p { s.proc p with ofile := update (s.proc p).ofile i o }

def filedup (f : File) (s : State κ) : Except Stop (State κ) :=
  if s.ref f < 1 then .error (.panic "filedup")
  else .ok { s with ref := update s.ref f (s.ref f + 1) }

def fileclose (f : File) (s : State κ) : Except Stop (State κ) :=
  if s.ref f < 1 then .error (.panic "fileclose")
  else .ok { s with ref := update s.ref f (s.ref f - 1) }

def filealloc (s : State κ) : Option (File × State κ) :=
  ((List.finRange NFILE).find? fun f => s.ref f = 0).map
    fun f => (f, { s with ref := update s.ref f 1 })

def fdalloc (p : Slot) (f : File) (s : State κ) : Option (Fd × State κ) :=
  ((List.finRange NOFILE).find? fun i => (s.proc p).ofile i = none).map
    fun i => (i, setFile p i (some f) s)

lemma toNat_lt {fd : ℤ} (h : 0 ≤ fd ∧ fd < NOFILE) : fd.toNat < NOFILE := by omega

def argfd (p : Slot) (fd : ℤ) (s : State κ) : Option (Fd × File) :=
  if h : 0 ≤ fd ∧ fd < NOFILE then
    let i : Fd := ⟨fd.toNat, toNat_lt h⟩
    ((s.proc p).ofile i).map fun f => (i, f)
  else none

/-- `sys_open`; `found` tells whether the path leads to an inode that may be opened. -/
def sysOpen (p : Slot) (found : Bool) (s : State κ) : Except Stop (State κ × ℤ) :=
  if found = false then .ok (s, -1)
  else
    match filealloc s with
    | none => .ok (s, -1)
    | some (f, s) =>
      match fdalloc p f s with
      | none => (fileclose f s).map fun s => (s, -1)
      | some (i, s) => .ok (s, i.val)

def sysDup (p : Slot) (fd : ℤ) (s : State κ) : Except Stop (State κ × ℤ) :=
  match argfd p fd s with
  | none => .ok (s, -1)
  | some (_, f) =>
    match fdalloc p f s with
    | none => .ok (s, -1)
    | some (i, s) => (filedup f s).map fun s => (s, i.val)

def sysClose (p : Slot) (fd : ℤ) (s : State κ) : Except Stop (State κ × ℤ) :=
  match argfd p fd s with
  | none => .ok (s, -1)
  | some (i, f) => (fileclose f (setFile p i none s)).map fun s => (s, 0)

/-- One pass of the loop over the files in `fork` and `clone`. -/
def copyFile (p np : Slot) (s : State κ) (i : Fd) : Except Stop (State κ) :=
  match (s.proc p).ofile i with
  | none => .ok s
  | some f => (filedup f s).map (setFile np i (some f))

/-- One pass of the loop over the files in `exit`. -/
def closeFile (p : Slot) (s : State κ) (i : Fd) : Except Stop (State κ) :=
  match (s.proc p).ofile i with
  | none => .ok s
  | some f => (fileclose f s).map (setFile p i none)

end Files

section Memory

variable {κ : Type}

def kalloc (s : State κ) : Option (Page × State κ) :=
  match s.free with
  | [] => none
  | k :: free => some (k, { s with free := free })

def kfree (k : Page) (s : State κ) : State κ := { s with free := k :: s.free }

/-- `copyuvm`; `room` tells whether there is memory for all that the new directory is to map. -/
def copyuvm (room : Bool) (s : State κ) : Option Page × State κ :=
  match kalloc s with
  | none => (none, s)
  | some (d, s') => if room then (some d, s') else (none, kfree d s')

/-- `kfree(p->kstack); p->kstack = 0;` -/
def freeKstack (p : Slot) (s : State κ) : Except Stop (State κ) :=
  match (s.proc p).kstack with
  | none => .error (.panic "kfree")
  | some k => .ok (kfree k (s.set p { s.proc p with kstack := none }))

end Memory

section Calls

variable {κ : Type}

def allocproc (s : State κ) : Option Slot × State κ :=
  match (List.finRange NPROC).find? fun p => (s.proc p).state = .unused with
  | none => (none, s)
  | some p =>
    let s := { s with nextpid := s.nextpid + 1 }.set p
      { s.proc p with state := .embryo, pid := s.nextpid }
    match kalloc s with
    | none => (none, s.set p { s.proc p with state := .unused, kstack := none })
    | some (k, s) =>
      (some p, s.set p { s.proc p with kstack := some k, isthread := false, context := .user })

/-- The end of `fork` and `clone`: the files, the directory, and the new process may run. -/
def start (p np : Slot) (s : State κ) : Except Stop (State κ × ℤ) := do
  let s ← (List.finRange NOFILE).foldlM (copyFile p np) s
  .ok (s.set np { s.proc np with cwd := (s.proc p).cwd, state := .runnable }, (s.proc np).pid)

def fork (p : Slot) (room : Bool) (s : State κ) : Except Stop (State κ × ℤ) :=
  match allocproc s with
  | (none, s) => .ok (s, -1)
  | (some np, s) =>
    match copyuvm room s with
    | (none, s) => do
      let s ← freeKstack np s
      .ok (s.set np { s.proc np with pgdir := none, state := .unused }, -1)
    | (some d, s) =>
      start p np (s.set np { s.proc np with pgdir := some d, parent := some p })

/-- `clone` with the stack that it is given. -/
def clone (p : Slot) (stack : ℕ) (s : State κ) : Except Stop (State κ × ℤ) :=
  match allocproc s with
  | (none, s) => .ok (s, -1)
  | (some np, s) =>
    start p np (s.set np { s.proc np with
      pgdir := (s.proc p).pgdir, parent := some p, stack := stack, isthread := true })

def Proc.wake (chan : Option Chan) (x : Proc) : Proc :=
  if x.state = .sleeping ∧ x.chan = chan then { x with state := .runnable } else x

def wakeup1 (chan : Option Chan) (s : State κ) : State κ :=
  { s with proc := fun q => (s.proc q).wake chan }

/-- `exit` before it takes `ptable.lock`. -/
def exitFiles (p : Slot) (s : State κ) : Except Stop (State κ) := do
  if p = s.initproc then .error (.panic "init exiting")
  let s ← (List.finRange NOFILE).foldlM (closeFile p) s
  .ok (s.set p { s.proc p with cwd := none, context := .exit })

/-- One pass of the loop over the children in `exit`. A thread is taken down as it is, any other child
goes to init. -/
def abandon (p : Slot) (r : State κ × List Event) (q : Slot) : Except Stop (State κ × List Event) :=
  let (s, es) := r
  if (s.proc q).parent = some p then
    if (s.proc q).isthread then do
      let s ← freeKstack q s
      .ok (s.set q { s.proc q with state := .unused }, es ++ [.kfree q])
    else
      let s := s.set q { s.proc q with parent := some s.initproc }
      .ok (if (s.proc q).state = .zombie then wakeup1 (some (.proc s.initproc)) s else s, es)
  else .ok (s, es)

/-- `exit` with `ptable.lock`. -/
def exitLocked (p : Slot) (s : State κ) : Except Stop (State κ × List Event) := do
  let (s, es) ← (List.finRange NPROC).foldlM (abandon p)
    (wakeup1 ((s.proc p).parent.map .proc) s, [])
  .ok (s.set p { s.proc p with state := .zombie }, es)

/-- The child that the scan of `wait` or of `join` finds. -/
def findZombie (child : Proc → Bool) (s : State κ) : Option Slot :=
  (List.finRange NPROC).find? fun q => child (s.proc q) && (s.proc q).state = .zombie

/-- Whether `wait` looks at a slot. -/
def waitsFor (p : Slot) (x : Proc) : Bool := x.parent = some p

/-- Whether `join` looks at a slot. -/
def joinsFor (p : Slot) (x : Proc) : Bool := x.parent = some p && x.isthread

def Proc.reset (x : Proc) : Proc :=
  { x with pid := 0, parent := none, killed := false, state := .unused }

/-- What `wait` does with a zombie. -/
def reapWait (p q : Slot) (s : State κ) : Except Stop (State κ × List Event) := do
  let pid := (s.proc q).pid
  let s ← freeKstack q s
  match (s.proc q).pgdir with
  | none => .error (.panic "freevm: no pgdir")
  | some d => .ok ((kfree d s).set q (s.proc q).reset, [.kfree q, .freevm d, .returned p pid])

/-- What `join` does with a zombie. -/
def reapJoin (p q : Slot) (s : State κ) : Except Stop (State κ × List Event) := do
  let pid := (s.proc q).pid
  let s ← freeKstack q s
  .ok (s.set q (s.proc q).reset, [.kfree q, .stack p (s.proc q).stack, .returned p pid])

def Proc.kill (x : Proc) : Proc :=
  { x with killed := true, state := if x.state = .sleeping then .runnable else x.state }

/-- Whether `kill` of the process `p` marks the slot `q`. -/
def marks (p q : Slot) (x : Proc) : Bool := q = p || x.parent = some p && x.isthread

def kill (pid : ℕ) (s : State κ) : State κ × ℤ :=
  match (List.finRange NPROC).find? fun p => (s.proc p).pid = pid with
  | none => (s, -1)
  | some p => 
    let mark q := if marks p q (s.proc q) then (s.proc q).kill else s.proc q
    ({ s with proc := mark }, 0)

end Calls

inductive Action (κ : Type) where
  | schedule (c : κ) (p : Slot)
  | yield (c : κ)
  /-- a sleep in another part of the kernel -/
  | sleep (c : κ) (n : ℕ)
  | wakeup (n : ℕ)
  | fork (c : κ) (room : Bool)
  | clone (c : κ) (stack : ℕ)
  | exitFiles (c : κ)
  | exitLocked (c : κ)
  | wait (c : κ)
  | join (c : κ)
  | kill (c : κ) (pid : ℕ)
  | sysOpen (c : κ) (found : Bool)
  | dup (c : κ) (fd : ℤ)
  | close (c : κ) (fd : ℤ)

section Step

variable {κ : Type} [DecidableEq κ]

/-- `sched`: the processor is left. -/
def sched (c : κ) (s : State κ) : State κ := { s with cpu := update s.cpu c none }

/-- The process that the processor runs, if it is at one of these points. -/
def running (c : κ) (points : List Context) (s : State κ) : Except Stop Slot :=
  match s.cpu c with
  | some p => if (s.proc p).context ∈ points then .ok p else .error .disabled
  | none => .error .disabled

/-- The loop of `wait` and `join`: a zombie is reaped, or the process has nothing to wait for, or it
sleeps on its own slot. -/
def scan (c : κ) (p : Slot) (child : Proc → Bool) (context : Context)
    (reap : Slot → State κ → Except Stop (State κ × List Event)) (s : State κ) :
    Except Stop (State κ × List Event) :=
  match findZombie child s with
  | some q => reap q (s.set p { s.proc p with context := .user })
  | none =>
    if (¬ ∃ q, child (s.proc q)) ∨ (s.proc p).killed then
      .ok (s.set p { s.proc p with context := .user }, [.returned p (-1)])
    else
      .ok (sched c (s.set p { s.proc p with
        chan := some (.proc p), state := .sleeping, context := context }), [])

def step (a : Action κ) (s : State κ) : Except Stop (State κ × List Event) :=
  match a with
  | .schedule c p =>
    -- the process tidies up after `sleep` before it gives the lock back
    if s.cpu c = none ∧ (s.proc p).state = .runnable then
      .ok ({ s with cpu := update s.cpu c (some p) }.set p
        { s.proc p with state := .running, chan := none }, [])
    else .error .disabled
  | .yield c => do
    let p ← running c [.user, .exit] s
    .ok (sched c (s.set p { s.proc p with state := .runnable }), [])
  | .sleep c n => do
    let p ← running c [.user, .exit] s
    .ok (sched c (s.set p { s.proc p with chan := some (.other n), state := .sleeping }), [])
  | .wakeup n => .ok (wakeup1 (some (.other n)) s, [])
  | .fork c room => do
    let p ← running c [.user] s
    let (s, r) ← fork p room s
    .ok (s, [.returned p r])
  | .clone c stack => do
    let p ← running c [.user] s
    let (s, r) ← clone p stack s
    .ok (s, [.returned p r])
  | .exitFiles c => do
    let p ← running c [.user] s
    let s ← exitFiles p s
    .ok (s, [])
  | .exitLocked c => do
    let p ← running c [.exit] s
    let (s, es) ← exitLocked p s
    .ok (sched c s, es)
  | .wait c => do
    let p ← running c [.user, .wait] s
    scan c p (waitsFor p) .wait (reapWait p) s
  | .join c => do
    let p ← running c [.user, .join] s
    scan c p (joinsFor p) .join (reapJoin p) s
  | .kill c pid => do
    let p ← running c [.user] s
    let (s, r) := kill pid s
    .ok (s, [.returned p r])
  | .sysOpen c found => do
    let p ← running c [.user] s
    let (s, r) ← sysOpen p found s
    .ok (s, [.returned p r])
  | .dup c fd => do
    let p ← running c [.user] s
    let (s, r) ← sysDup p fd s
    .ok (s, [.returned p r])
  | .close c fd => do
    let p ← running c [.user] s
    let (s, r) ← sysClose p fd s
    .ok (s, [.returned p r])

end Step

/-- An unused slot of the table at boot, all zero. -/
def Proc.zero : Proc :=
  ⟨.unused, 0, none, none, none, false, false, none, fun _ => none, none, 0, .user⟩

/-- After `userinit`, with the kernel stack `k`, the page directory `d` and the inode of the root. -/
def boot {κ : Type} (k d : Page) (free : List Page) (root : ℕ) : State κ where
  proc := update (fun _ => .zero) 0 { Proc.zero with
    state := .runnable, pid := 1, pgdir := some d, kstack := some k, cwd := some root }
  cpu _ := none
  nextpid := 2
  free := free
  ref _ := 0
  initproc := 0

end LearnXv6.Thread
