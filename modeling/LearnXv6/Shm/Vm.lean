import LearnXv6.Param
import LearnXv6.Store.Places

/-! The page tables of the shared memory lab: `kalloc`, `kfree` and the user part of `vm.c`. The entries and
the free list are addresses, since a page may be in two page tables; what the pages contain is left out. -/
namespace LearnXv6.Shm
open Store

/-- A page of physical memory by its kernel address, zero for none. -/
abbrev Page := ℕ

inductive Fault where
  | panic (message : String)
  /-- `kfree` of a page that is free -/
  | twice (page : Page)
  /-- an access through a null pointer -/
  | null
  deriving DecidableEq, Repr

def kalloc : List Page → Option (Page × List Page)
  | [] => none
  | m :: free => some (m, free)

/-- `kfree`. The model stops at a page that is on the list already. -/
def kfree (m : Page) (free : List Page) : Except Fault (List Page) :=
  if m = 0 then .error (.panic "kfree")
  else if m ∈ free then .error (.twice m)
  else .ok (m :: free)

/-- A page directory with its page tables. The entries of the kernel are the same in each and not kept. -/
structure Pgdir where
  dir : Page
  /-- the page tables, by PDX -/
  tab : ℕ → Option Page
  /-- the pages of the user part, by their number -/
  pte : ℕ → Option Page
  /-- the PTE_U of these -/
  user : ℕ → Bool

def walkalloc (g : Pgdir) (v : ℕ) (free : List Page) : Option (Pgdir × List Page) :=
  match g.tab (v / NPDENTRIES) with
  | some _ => some (g, free)
  | none =>
    match kalloc free with
    | none => none
    | some (m, free) =>
      some ({ g with tab := Function.update g.tab (v / NPDENTRIES) (some m) }, free)

/-- Whether the entry of the page `v` is present, in a page table that is there. -/
def Pgdir.present (g : Pgdir) (v : ℕ) : Bool := if v < UPAGES then (g.pte v).isSome else true

def mappages (g : Pgdir) (v : ℕ) (m : Page) (user : Bool) (free : List Page) :
    Except Fault (Bool × Pgdir × List Page) :=
  match walkalloc g v free with
  | none => .ok (false, g, free)
  | some (g, free) =>
    if g.present v then .error (.panic "remap")
    else .ok (true, { g with
      pte := Function.update g.pte v (some m), user := Function.update g.user v user }, free)

def pages (sz : ℕ) : ℕ := (sz + PGSIZE - 1) / PGSIZE

def deallocFrom (oldsz : ℕ) : ℕ → ℕ → Pgdir → List Page → Except Fault (Pgdir × List Page)
  | 0, _, g, free => .ok (g, free)
  | n + 1, v, g, free =>
    if v * PGSIZE < oldsz then
      match g.tab (v / NPDENTRIES) with
      | none => deallocFrom oldsz n ((v / NPDENTRIES + 1) * NPDENTRIES) g free
      | some _ =>
        match g.pte v with
        | none => deallocFrom oldsz n (v + 1) g free
        | some m => do
          let free ← kfree m free
          deallocFrom oldsz n (v + 1) { g with pte := Function.update g.pte v none } free
    else .ok (g, free)

def deallocuvm (g : Pgdir) (oldsz newsz : ℕ) (free : List Page) :
    Except Fault (ℕ × Pgdir × List Page) :=
  if newsz ≥ oldsz then .ok (oldsz, g, free)
  else do
    let (g, free) ← deallocFrom oldsz (pages oldsz) (pages newsz) g free
    .ok (newsz, g, free)

/-- One pass of the loop over the page directory in `freevm`. -/
def freeTable (g : Pgdir) (free : List Page) (i : ℕ) : Except Fault (List Page) :=
  match g.tab i with
  | none => .ok free
  | some m => kfree m free

def freeTables (g : Pgdir) (free : List Page) : Except Fault (List Page) :=
  (List.range NPDENTRIES).foldlM (freeTable g) free

def freevm (g : Pgdir) (top : ℕ) (free : List Page) : Except Fault (List Page) := do
  let (_, g, free) ← deallocuvm g top 0 free
  let free ← freeTables g free
  kfree g.dir free

def allocFrom (oldsz newsz : ℕ) : ℕ → ℕ → Pgdir → List Page → Except Fault (ℕ × Pgdir × List Page)
  | 0, _, g, free => .ok (newsz, g, free)
  | n + 1, v, g, free =>
    match kalloc free with
    | none => do
      let (_, g, free) ← deallocuvm g newsz oldsz free
      .ok (0, g, free)
    | some (m, free) => do
      let (done, g, free) ← mappages g v m true free
      if done then allocFrom oldsz newsz n (v + 1) g free
      else
        let (_, g, free) ← deallocuvm g newsz oldsz free
        let free ← kfree m free
        .ok (0, g, free)

/-- `allocuvm`, with the `top` of the process that runs. -/
def allocuvm (top : ℕ) (g : Pgdir) (oldsz newsz : ℕ) (free : List Page) :
    Except Fault (ℕ × Pgdir × List Page) :=
  if newsz > top then .ok (0, g, free)
  else if newsz < oldsz then .ok (oldsz, g, free)
  else allocFrom oldsz newsz (pages newsz - pages oldsz) (pages oldsz) g free

/-- The page tables of `kmap`: from KERNBASE to PHYSTOP, and from DEVSPACE. -/
def kernelTables : List ℕ := List.range' 512 56 ++ List.range' 1016 8

/-- The loop over `kmap`, which allocates the page tables; `false` stands for -1. -/
def mapKernel : List ℕ → Pgdir → List Page → Bool × Pgdir × List Page
  | [], g, free => (true, g, free)
  | i :: l, g, free =>
    match walkalloc g (i * NPDENTRIES) free with
    | none => (false, g, free)
    | some (g, free) => mapKernel l g free

def setupkvm (top : ℕ) (free : List Page) : Except Fault (Option Pgdir × List Page) :=
  match kalloc free with
  | none => .ok (none, free)
  | some (d, free) =>
    match mapKernel kernelTables ⟨d, fun _ => none, fun _ => none, fun _ => false⟩ free with
    | (true, g, free) => .ok (some g, free)
    | (false, g, free) => do
      let free ← freevm g top free
      .ok (none, free)

/-- The loop of `copyuvm` with `n` pages left, from the page `v`; `false` stands for `goto bad`. -/
def copyFrom (g : Pgdir) : ℕ → ℕ → Pgdir → List Page → Except Fault (Bool × Pgdir × List Page)
  | 0, _, d, free => .ok (true, d, free)
  | n + 1, v, d, free =>
    match g.tab (v / NPDENTRIES) with
    | none => .error (.panic "copyuvm: pte should exist")
    | some _ =>
      if g.pte v = none then .error (.panic "copyuvm: page not present")
      else
        match kalloc free with
        | none => .ok (false, d, free)
        | some (m, free) => do
          let (done, d, free) ← mappages d v m (g.user v) free
          if done then copyFrom g n (v + 1) d free else .ok (false, d, free)

def copyuvm (top : ℕ) (g : Pgdir) (sz : ℕ) (free : List Page) :
    Except Fault (Option Pgdir × List Page) := do
  match ← setupkvm top free with
  | (none, free) => .ok (none, free)
  | (some d, free) =>
    match ← copyFrom g (pages sz) 0 d free with
    | (true, d, free) => .ok (some d, free)
    | (false, d, free) => do
      let free ← freevm d top free
      .ok (none, free)

end LearnXv6.Shm
