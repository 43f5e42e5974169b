import LearnXv6.Shm.Vm
import LearnXv6.Store.Run

/-! The processes of the shared memory lab and the keys. -/
namespace LearnXv6.Shm
open Store Function

def NKEYS : ℕ := 8
def NKEYPAGES : ℕ := 4
def MAXARG : ℕ := 32

abbrev Slot := Fin NPROC
abbrev Key := Fin NKEYS

instance : NeZero NKEYS := ⟨by decide⟩

/-- The states of a process; EMBRYO to RUNNING are one. -/
inductive ProcState where
  | unused | live | zombie
  deriving DecidableEq, Repr

/-- `struct proc` -/
structure Proc where
  state : ProcState
  parent : Option Slot
  kstack : Page
  pgdir : Pgdir
  sz : ℕ
  top : ℕ
  keys : Key → Bool

/-- The process table, `key_refcount`, `key_numpages`, `key_pageaddr` and `kmem.freelist`. -/
structure State where
  proc : Slot → Proc
  refcount : Key → ℕ
  numpages : Key → ℕ
  pageaddr : Key → ℕ → Page
  free : List Page

inductive Stop where
  | disabled
  /-- an access outside of an array of the keys -/
  | index (i : ℤ)
  | fault (f : Fault)
  deriving DecidableEq, Repr

/-- A computation on the page tables within a system call. -/
def lift {α : Type} : Except Fault α → Except Stop α
  | .ok a => .ok a
  | .error f => .error (.fault f)

inductive Event where
  | returned (p : Slot) (result : ℤ)
  /-- `shmgetat` has mapped the pages of the key and returned the address -/
  | attached (p : Slot) (k : Key) (n addr : ℕ)
  /-- the slot begins with a new memory -/
  | renewed (p : Slot)
  deriving DecidableEq, Repr

def initproc : Slot := 0

def State.set (s : State) (p : Slot) (x : Proc) : State := { s with proc := update s.proc p x }

/-- Subtraction of `uint`. -/
def sub32 (a b : ℕ) : ℕ := (a + 2 ^ 32 - b % 2 ^ 32) % 2 ^ 32

/-! The keys. -/

/-- One pass of the loop over the pages of a key in `dec_ref_count`. -/
def freeKeyPage (k : Key) (s : State) (j : ℕ) : Except Stop State :=
  if j < NKEYPAGES then do
    let free ← lift (kfree (s.pageaddr k j) s.free)
    .ok { s with
      free := free, pageaddr := update s.pageaddr k (update (s.pageaddr k) j 0) }
  else .error (.index j)

/-- One pass of the loop over the keys in `dec_ref_count`. -/
def decKey (p : Slot) (s : State) (k : Key) : Except Stop State :=
  if (s.proc p).keys k ∧ s.refcount k ≠ 0 then
    let s := { s with refcount := update s.refcount k (s.refcount k - 1) }
    if s.refcount k = 0 then do
      let s ← (List.range (s.numpages k)).foldlM (freeKeyPage k) s
      .ok { s with numpages := update s.numpages k 0 }
    else .ok s
  else .ok s

def decRefCount (p : Slot) (s : State) : Except Stop State := (List.finRange NKEYS).foldlM (decKey p) s

/-- The next page below `top` is mapped; `false` stands for -1. -/
def mapTop (p : Slot) (m : Page) (s : State) : Except Fault (Bool × State) := do
  let x := s.proc p
  let top := sub32 x.top PGSIZE
  let (done, g, free) ← mappages x.pgdir (top / PGSIZE) m true s.free
  .ok (done, { s.set p { x with pgdir := g, top := top } with free := free })

/-- `key_pageaddr[k][i] = mem` -/
def setPage (k : Key) (i : ℕ) (m : Page) (s : State) : Except Stop State :=
  if i < NKEYPAGES then
    .ok { s with pageaddr := update s.pageaddr k (update (s.pageaddr k) i m) }
  else .error (.index i)

/-- `key_pageaddr[k][i]` -/
def getPage (k : Key) (i : ℕ) (s : State) : Except Stop Page :=
  if i < NKEYPAGES then .ok (s.pageaddr k i) else .error (.index i)

/-- The loop of `shmgetat` for a key that nobody uses, with `n` pages left. -/
def attachNew (p : Slot) (k : Key) : ℕ → ℕ → State → Except Stop (Bool × State)
  | 0, _, s => .ok (true, s)
  | n + 1, i, s =>
    match kalloc s.free with
    | none => .ok (false, s)
    | some (m, free) => do
      let s ← setPage k i m { s with free := free }
      let (done, s) ← lift (mapTop p m s)
      if done then attachNew p k n (i + 1) s else .ok (false, s)

/-- The loop of `shmgetat` for a key in use. -/
def attachOld (p : Slot) (k : Key) : ℕ → ℕ → State → Except Stop (Bool × State)
  | 0, _, s => .ok (true, s)
  | n + 1, i, s => do
    let m ← getPage k i s
    let (done, s) ← lift (mapTop p m s)
    if done then attachOld p k n (i + 1) s else .ok (false, s)

/-- `key_refcount[key]++; proc->keys[key] = 1;` and the address is returned. -/
def attach (p : Slot) (k : Key) (n : ℕ) (s : State) : State × List Event :=
  let x := s.proc p
  ({ s.set p { x with keys := update x.keys k true } with
    refcount := update s.refcount k (s.refcount k + 1) }, [.attached p k n x.top])

/-- `shmgetat` once the key is known to be in the table. -/
def shmgetatKey (p : Slot) (k : Key) (n : ℕ) (s : State) : Except Stop (State × List Event) :=
  let x := s.proc p
  if s.refcount k = 0 then
    if sub32 x.top (n * PGSIZE) < x.sz then .ok (s, [.returned p 0])
    else do
      let (done, s) ← attachNew p k n 0 s
      if done then
        .ok (attach p k n { s with numpages := update s.numpages k n })
      else .ok (s, [.returned p 0])
  else if x.keys k = false then do
    let (done, s) ← attachOld p k n 0 s
    if done then .ok (attach p k n s) else .ok (s, [.returned p 0])
  else .ok (s, [.returned p 0])

/-- An index into the tables of the keys. -/
def slotOf (key : ℤ) : Except Stop Key :=
  if h : 0 ≤ key ∧ key < NKEYS then .ok ⟨key.toNat, by omega⟩ else .error (.index key)

def shmgetat (p : Slot) (key num : ℤ) (s : State) : Except Stop (State × List Event) :=
  if key < 0 ∨ key > NKEYS then .ok (s, [.returned p 0])
  else if num < 1 ∨ num > NKEYPAGES then .ok (s, [.returned p 0])
  else do
    let k ← slotOf key
    shmgetatKey p k num.toNat s

def shmRefcount (p : Slot) (key : ℤ) (s : State) : Except Stop (State × List Event) := do
  let k ← slotOf key
  .ok (s, [.returned p (s.refcount k)])

/-! The processes. -/

def allocproc (s : State) : Option Slot × State :=
  match (List.finRange NPROC).find? fun p => (s.proc p).state = .unused with
  | none => (none, s)
  | some p =>
    let x := { s.proc p with state := .live, keys := fun _ => false, top := KERNBASE }
    match kalloc s.free with
    | none => (none, s.set p { x with state := .unused, kstack := 0 })
    | some (k, free) => (some p, { s.set p { x with kstack := k } with free := free })

def fork (p : Slot) (s : State) : Except Fault (State × List Event) :=
  match allocproc s with
  | (none, s) => .ok (s, [.returned p (-1)])
  | (some np, s) => do
    let (o, free) ← copyuvm (s.proc p).top (s.proc p).pgdir (s.proc p).sz s.free
    match o with
    | none => do
      let free ← kfree (s.proc np).kstack free
      .ok ({ s.set np { s.proc np with kstack := 0, state := .unused } with free := free },
        [.returned p (-1)])
    | some d =>
      .ok ({ s.set np { s.proc np with
        pgdir := d, sz := (s.proc p).sz, parent := some p, top := KERNBASE } with free := free },
        [.renewed np, .returned p np.val])

/-- The new size and memory in `growproc`. -/
def resize (x : Proc) (n : ℤ) (free : List Page) : Except Fault (ℕ × Pgdir × List Page) :=
  let newsz := ((x.sz + n) % 2 ^ 32).toNat
  if n > 0 then allocuvm x.top x.pgdir x.sz newsz free
  else if n < 0 then deallocuvm x.pgdir x.sz newsz free
  else .ok (x.sz, x.pgdir, free)

/-- `sbrk` with `growproc`; `n` is an `int`. -/
def sbrk (p : Slot) (n : ℤ) (s : State) : Except Fault (State × List Event) := do
  let x := s.proc p
  let (sz, g, free) ← resize x n s.free
  if n ≠ 0 ∧ sz = 0 then
    .ok ({ s.set p { x with pgdir := g } with free := free }, [.returned p (-1)])
  else .ok ({ s.set p { x with pgdir := g, sz := sz } with free := free }, [.returned p x.sz])

/-- A child of `p` goes to init. -/
def Proc.abandon (p : Slot) (x : Proc) : Proc :=
  if x.parent = some p then { x with parent := some initproc } else x

def exit (p : Slot) (s : State) : Except Stop (State × List Event) :=
  if p = initproc then .error (.fault (.panic "init exiting"))
  else do
    let s ← decRefCount p s
    let s := { s with proc := fun q => (s.proc q).abandon p }
    .ok (s.set p { s.proc p with state := .zombie }, [])

/-- `wait`. A process with children none of which has exited sleeps: the step cannot be taken. -/
def wait (p : Slot) (s : State) : Except Stop (State × List Event) :=
  match (List.finRange NPROC).find? fun q =>
    (s.proc q).parent = some p && (s.proc q).state = .zombie with
  | some q => do
    let x := s.proc q
    let free ← lift (kfree x.kstack s.free)
    let free ← lift (freevm x.pgdir x.top free)
    .ok ({ s.set q { x with kstack := 0, parent := none, state := .unused } with free := free },
      [.returned p q.val])
  | none =>
    if ∃ q, (s.proc q).parent = some p then .error .disabled else .ok (s, [.returned p (-1)])

/-! `exec` -/

/-- A program header with what there is to load. -/
structure Segment where
  /-- whether the type is ELF_PROG_LOAD -/
  load : Bool
  vaddr : ℕ
  memsz : ℕ
  filesz : ℕ
  /-- the page of the segment at which `readi` comes short, if it does -/
  short : Option ℕ

/-- What `exec` reads of a file: whether there is an ELF header with its magic number, and the program
headers that it can read. -/
structure Image where
  elf : Bool
  segments : List (Option Segment)

/-- The loop of `loaduvm` with `n` pages left; `false` stands for -1. -/
def loaduvm (g : Pgdir) (short : Option ℕ) : ℕ → ℕ → ℕ → Except Fault Bool
  | 0, _, _ => .ok true
  | n + 1, v, i =>
    match g.tab (v / NPDENTRIES) with
    | none => .error (.panic "loaduvm: address should exist")
    | some _ => if short = some i then .ok false else loaduvm g short n (v + 1) (i + 1)

/-- The loop over the program headers. The result is the size, if nothing goes wrong. -/
def loadSegments (top : ℕ) : List (Option Segment) → ℕ → Pgdir → List Page →
    Except Fault (Option ℕ × Pgdir × List Page)
  | [], sz, g, free => .ok (some sz, g, free)
  | none :: _, _, g, free => .ok (none, g, free)
  | some ph :: l, sz, g, free =>
    if ph.load = false then loadSegments top l sz g free
    else if ph.memsz < ph.filesz then .ok (none, g, free)
    else if (ph.vaddr + ph.memsz) % 2 ^ 32 < ph.vaddr then .ok (none, g, free)
    else do
      let (sz, g, free) ← allocuvm top g sz ((ph.vaddr + ph.memsz) % 2 ^ 32) free
      if sz = 0 then .ok (none, g, free)
      else if ph.vaddr % PGSIZE ≠ 0 then .ok (none, g, free)
      else do
        if ← loaduvm g ph.short (pages ph.filesz) (ph.vaddr / PGSIZE) 0 then
          loadSegments top l sz g free
        else .ok (none, g, free)

/-- `uva2ka`: whether the user may access the page. -/
def uva2ka (g : Pgdir) (v : ℕ) : Except Fault Bool :=
  match g.tab (v / NPDENTRIES) with
  | none => .error .null
  | some _ => .ok (v < UPAGES && (g.pte v).isSome && g.user v)

/-- The loop of `copyout`, at most `n` times; `false` stands for -1. -/
def copyout (g : Pgdir) : ℕ → ℕ → ℕ → Except Fault Bool
  | 0, _, _ => .ok true
  | n + 1, va, len =>
    if len = 0 then .ok true
    else do
      if ← uva2ka g (va / PGSIZE) then
        copyout g n ((va / PGSIZE + 1) * PGSIZE % 2 ^ 32) (len - min (PGSIZE - va % PGSIZE) len)
      else .ok false

/-- The loop over the arguments, which are strings of these lengths. -/
def pushArgs (g : Pgdir) : List ℕ → ℕ → ℕ → Except Fault (Option (ℕ × ℕ))
  | [], argc, sp => .ok (some (argc, sp))
  | len :: l, argc, sp =>
    if argc ≥ MAXARG then .ok none
    else do
      let sp := sub32 sp (len + 1) / 4 * 4
      if ← copyout g (len / PGSIZE + 2) sp (len + 1) then pushArgs g l (argc + 1) sp
      else .ok none

/-- The stack of the new program; `false` stands for `goto bad`. -/
def pushStack (g : Pgdir) (argv : List ℕ) (sz : ℕ) : Except Fault Bool := do
  match ← pushArgs g argv 0 sz with
  | none => .ok false
  | some (argc, sp) => copyout g 2 (sub32 sp ((3 + argc + 1) * 4)) ((3 + argc + 1) * 4)

/-- The new memory of `exec`, or none after `goto bad`. -/
def buildImage (top : ℕ) (im : Image) (argv : List ℕ) (g : Pgdir) (free : List Page) :
    Except Fault (Option ℕ × Pgdir × List Page) := do
  let (o, g, free) ← loadSegments top im.segments 0 g free
  match o with
  | none => .ok (none, g, free)
  | some sz => do
    let (sz, g, free) ← allocuvm top g (pages sz * PGSIZE) (pages sz * PGSIZE + 2 * PGSIZE) free
    if sz = 0 then .ok (none, g, free)
    else do
      -- `clearpteu` of the guard page
      let g := { g with user := update g.user (sz / PGSIZE - 2) false }
      if ← pushStack g argv sz then .ok (some sz, g, free) else .ok (none, g, free)

/-- `exec` from `begin_op` on, of a path that leads to this file, or to none. -/
def execRest (p : Slot) (file : Option Image) (argv : List ℕ) (s : State) :
    Except Fault (State × List Event) :=
  let x := s.proc p
  match file with
  | none => .ok (s, [.renewed p, .returned p (-1)])
  | some im =>
    if im.elf = false then .ok (s, [.renewed p, .returned p (-1)])
    else do
      match ← setupkvm x.top s.free with
      | (none, free) => .ok ({ s with free := free }, [.renewed p, .returned p (-1)])
      | (some g, free) =>
        match ← buildImage x.top im argv g free with
        | (none, g, free) => do
          let free ← freevm g x.top free
          .ok ({ s with free := free }, [.renewed p, .returned p (-1)])
        | (some sz, g, free) => do
          let free ← freevm x.pgdir x.top free
          .ok ({ s.set p { x with pgdir := g, sz := sz } with free := free },
            [.renewed p, .returned p 0])

/-- `exec`. The memory that the process shares is given up first. -/
def exec (p : Slot) (file : Option Image) (argv : List ℕ) (s : State) :
    Except Stop (State × List Event) := do
  let s ← decRefCount p s
  lift (execRest p file argv (s.set p { s.proc p with top := KERNBASE, keys := fun _ => false }))

/-! The steps. -/

inductive Action where
  | fork (p : Slot)
  | shmgetat (p : Slot) (key num : ℤ)
  | shmRefcount (p : Slot) (key : ℤ)
  | exec (p : Slot) (file : Option Image) (argv : List ℕ)
  | sbrk (p : Slot) (n : ℤ)
  | exit (p : Slot)
  | wait (p : Slot)

def Action.caller : Action → Slot
  | fork p | shmgetat p _ _ | shmRefcount p _ | exec p _ _ | sbrk p _ | exit p | wait p => p

def call (a : Action) (s : State) : Except Stop (State × List Event) :=
  match a with
  | .fork p => lift (fork p s)
  | .shmgetat p key num => shmgetat p key num s
  | .shmRefcount p key => shmRefcount p key s
  | .exec p file argv => exec p file argv s
  | .sbrk p n => lift (sbrk p n s)
  | .exit p => exit p s
  | .wait p => wait p s

/-- A process makes a call that no other overlaps. The tables of the keys have no lock, so that calls that do
overlap may see and leave them halfway. A `wait` counts from where it finds a child that has exited. -/
def step (a : Action) (s : State) : Except Stop (State × List Event) :=
  if (s.proc a.caller).state = .live then call a s else .error .disabled

/-- An unused slot at boot. -/
def Proc.zero : Proc :=
  ⟨.unused, none, 0, ⟨0, fun _ => none, fun _ => none, fun _ => false⟩, 0, 0, fun _ => false⟩

/-- After `userinit`, with the kernel stack and the memory of the first process. -/
def boot (kstack : Page) (g : Pgdir) (free : List Page) : State where
  proc := update (fun _ => .zero) initproc
    ⟨.live, none, kstack, g, PGSIZE, KERNBASE, fun _ => false⟩
  refcount _ := 0
  numpages _ := 0
  pageaddr _ _ := 0
  free := free

end LearnXv6.Shm
