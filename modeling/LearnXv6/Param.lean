import Mathlib.Tactic

/-! Constants of `param.h`, `mmu.h`, `memlayout.h`, `fs.h` and `mkfs.c` that are the same in every lab. -/
namespace LearnXv6

def NPROC : ℕ := 64
def NOFILE : ℕ := 16
def NFILE : ℕ := 100

instance : NeZero NPROC := ⟨by decide⟩
instance : NeZero NOFILE := ⟨by decide⟩
instance : NeZero NFILE := ⟨by decide⟩

def PGSIZE : ℕ := 4096

/-- The entries of a page directory and of a page table. -/
@[irreducible] def NPDENTRIES : ℕ := 1024

def KERNBASE : ℕ := 2 ^ 31

/-- The pages below KERNBASE. -/
def UPAGES : ℕ := 2 ^ 19

def ROOTINO : ℕ := 1
def DIRSIZ : ℕ := 14
def NINODES : ℕ := 200

end LearnXv6
