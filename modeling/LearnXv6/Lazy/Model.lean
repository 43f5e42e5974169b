import LearnXv6.Param
import LearnXv6.Store.Run
import LearnXv6.Store.Wrap

/-! `sbrk` and page faults, with eager and with lazy allocation. The pages of the process are its own, so that
what they contain is kept with the entries of the page tables; of the free list only the length matters. The
page tables of the shared memory lab, where two processes have one page, keep addresses instead. -/
namespace LearnXv6.Lazy
open Store Function

/-- An entry that is present: its PTE_U, and the page. -/
structure Entry where
  user : Bool
  data : ℕ → UInt8

/-- The page tables that are there, by PDX, and the entries that are present, by the number of the page. -/
structure Pgdir where
  tab : ℕ → Bool
  pte : ℕ → Option Entry

/-- The process, and the number of free pages. -/
structure State where
  pgdir : Pgdir
  sz : ℕ
  killed : Bool
  free : ℕ

inductive Fault where
  | panic (message : String)
  /-- the process is not there any more -/
  | disabled
  /-- the instruction faults again and again -/
  | stuck
  deriving DecidableEq, Repr

/-- `walkpgdir` with `alloc`, for the page `v` -/
def walkpgdir (g : Pgdir) (v free : ℕ) : Option (Pgdir × ℕ) :=
  if g.tab (v / NPDENTRIES) then some (g, free)
  else
    match free with
    | 0 => none
    | free + 1 => some ({ g with tab := update g.tab (v / NPDENTRIES) true }, free)

/-- `mappages` for one page; `false` stands for -1. -/
def mappages (g : Pgdir) (v : ℕ) (e : Entry) (free : ℕ) : Except Fault (Bool × Pgdir × ℕ) :=
  match walkpgdir g v free with
  | none => .ok (false, g, free)
  | some (g, free) =>
    if (g.pte v).isSome then .error (.panic "remap")
    else .ok (true, { g with pte := update g.pte v (some e) }, free)

/-- `PGROUNDUP` in pages -/
def pages (sz : ℕ) : ℕ := (sz + PGSIZE - 1) / PGSIZE

/-- The loop of `deallocuvm` from the page `v`. A page table that is not there is skipped. -/
def deallocFrom (oldsz : ℕ) : ℕ → ℕ → Pgdir → ℕ → Pgdir × ℕ
  | 0, _, g, free => (g, free)
  | n + 1, v, g, free =>
    if v * PGSIZE < oldsz then
      if g.tab (v / NPDENTRIES) then
        match g.pte v with
        | none => deallocFrom oldsz n (v + 1) g free
        | some _ => deallocFrom oldsz n (v + 1) { g with pte := update g.pte v none } (free + 1)
      else deallocFrom oldsz n ((v / NPDENTRIES + 1) * NPDENTRIES) g free
    else (g, free)

def deallocuvm (g : Pgdir) (oldsz newsz free : ℕ) : ℕ × Pgdir × ℕ :=
  if newsz ≥ oldsz then (oldsz, g, free)
  else (newsz, deallocFrom oldsz (pages oldsz) (pages newsz) g free)

/-- A page after `memset`. -/
def blank : Entry := ⟨true, fun _ => 0⟩

/-- The loop of `allocuvm` with `n` pages left, from the page `v`. -/
def allocFrom (oldsz newsz : ℕ) : ℕ → ℕ → Pgdir → ℕ → Except Fault (ℕ × Pgdir × ℕ)
  | 0, _, g, free => .ok (newsz, g, free)
  | n + 1, v, g, free =>
    match free with
    | 0 => .ok (0, (deallocuvm g newsz oldsz 0).2)
    | free + 1 => do
      let (done, g, free) ← mappages g v blank free
      if done then allocFrom oldsz newsz n (v + 1) g free
      else
        let (g, free) := (deallocuvm g newsz oldsz free).2
        .ok (0, g, free + 1)

def allocuvm (g : Pgdir) (oldsz newsz free : ℕ) : Except Fault (ℕ × Pgdir × ℕ) :=
  if newsz ≥ KERNBASE then .ok (0, g, free)
  else if newsz < oldsz then .ok (oldsz, g, free)
  else allocFrom oldsz newsz (pages newsz - pages oldsz) (pages oldsz) g free

/-- The sum of a `uint` and an `int`. -/
def add32 (sz : ℕ) (n : ℤ) : ℕ := ((sz + n) % 2 ^ 32).toNat

/-- `growproc`; `false` stands for -1. -/
def growproc (n : ℤ) (s : State) : Except Fault (Bool × State) := do
  let (sz, g, free) ←
    if n > 0 then allocuvm s.pgdir s.sz (add32 s.sz n) s.free
    else if n < 0 then .ok (deallocuvm s.pgdir s.sz (add32 s.sz n) s.free)
    else .ok (s.sz, s.pgdir, s.free)
  if n ≠ 0 ∧ sz = 0 then .ok (false, { s with pgdir := g, free := free })
  else .ok (true, { s with pgdir := g, free := free, sz := sz })

inductive Seen where
  | returned (r : ℤ)
  | loaded (b : UInt8)
  | stored
  | killed
  deriving DecidableEq, Repr

inductive Access where
  | load
  | store (b : UInt8)

inductive Op where
  | sbrk (n : ℤ)
  | access (va : ℕ) (x : Access)

/-- The entry with which the processor reaches the address in user mode. -/
def Pgdir.find (g : Pgdir) (va : ℕ) : Option Entry := (g.pte (va / PGSIZE)).filter (·.user)

def Access.perform (x : Access) (va : ℕ) (e : Entry) (s : State) : State × Seen :=
  match x with
  | .load => (s, .loaded (e.data (va % PGSIZE)))
  | .store b =>
    let e := { e with data := update e.data (va % PGSIZE) b }
    ({ s with pgdir := { s.pgdir with pte := update s.pgdir.pte (va / PGSIZE) (some e) } }, .stored)

/-- The value of a `uint` as an `int`. -/
def toInt (sz : ℕ) : ℤ := wrap sz

namespace Eager

/-- `sys_sbrk` with `growproc` -/
def sysSbrk (n : ℤ) (s : State) : Except Fault (State × Seen) := do
  let (done, s') ← growproc n s
  .ok (s', .returned (if done then toInt s.sz else -1))

/-- An access. A page fault falls to the default case of `trap`, which kills the process. -/
def access (va : ℕ) (x : Access) (s : State) : State × Seen :=
  match s.pgdir.find va with
  | some e => x.perform va e s
  | none => ({ s with killed := true }, .killed)

def step (op : Op) (s : State) : Except Fault (State × Seen) :=
  if s.killed then .error .disabled
  else
    match op with
    | .sbrk n => sysSbrk n s
    | .access va x => .ok (access va x s)

end Eager

def sysSbrk (n : ℤ) (s : State) : Except Fault (State × Seen) :=
  .ok ({ s with sz := add32 s.sz n }, .returned (toInt s.sz))

/-- The case T_PGFLT of `trap`. -/
def trap (va : ℕ) (s : State) : Except Fault State :=
  match s.free with
  | 0 => .ok s
  | free + 1 => do
    let (_, g, free) ← mappages s.pgdir (va / PGSIZE) blank free
    .ok { s with pgdir := g, free := free }

/-- An access, which is tried again after a page fault. -/
def access (va : ℕ) (x : Access) (s : State) : Except Fault (State × Seen) :=
  match s.pgdir.find va with
  | some e => .ok (x.perform va e s)
  | none => do
    let s ← trap va s
    match s.pgdir.find va with
    | some e => .ok (x.perform va e s)
    | none => .error .stuck

def step (op : Op) (s : State) : Except Fault (State × Seen) :=
  if s.killed then .error .disabled
  else
    match op with
    | .sbrk n => sysSbrk n s
    | .access va x => access va x s

end LearnXv6.Lazy
