import LearnXv6.Param
import LearnXv6.Icache.Model

/-! The system calls that make and remove names of files. -/
namespace LearnXv6.Links
open Store Icache Function

def ROOTDEV : ℕ := 1
def MAXFILE : ℕ := 140

/-- `BSIZE / sizeof(struct dirent)` -/
def DPB : ℕ := 32

def O_RDONLY : UInt32 := 0x000
def O_CREATE : UInt32 := 0x200
def O_CHECKED : UInt32 := 0x400

/-- The bytes of a string, up to the one that ends it. -/
abbrev Path := List UInt8

def slash : UInt8 := 47
def dot : Name := [46]
def dotdot : Name := [46, 46]

/-- `struct file`; its inode if the type is `FD_INODE`, none if it is `FD_NONE`. -/
structure File where
  ref : ℕ
  ip : Option Index
  deriving DecidableEq

structure Sys (τ : Type) where
  kernel : State τ
  cwd : τ → Index
  ofile : τ → Fin NOFILE → Option (Fin NFILE)
  file : Fin NFILE → File

inductive Call where
  /-- a path is none if `argstr` fails -/
  | link (old new : Option Path)
  | unlink (path : Option Path)
  | mkdir (path : Option Path)
  | openFile (path : Option Path) (omode : UInt32)
  | chdir (path : Option Path)
  | close (fd : ℤ)
  deriving DecidableEq, Repr

section Fs

variable {τ : Type} [DecidableEq τ]

def idup (i : Index) (s : State τ) : State τ :=
  s.set i { s.inode i with ref := (s.inode i).ref + 1 }

def ilock (t : τ) (i : Index) (s : State τ) : Except Stop (State τ) :=
  if (s.inode i).ref < 1 then .error .panic
  else do
    let s ← acquiresleep t i s
    load i s

def iunlock (t : τ) (i : Index) (s : State τ) : Except Stop (State τ) :=
  if (s.inode i).lock ≠ some t ∨ (s.inode i).ref < 1 then .error .panic
  else .ok (releasesleep i s)

/-- The part of `iput` that has the lock. -/
def reclaim (i : Index) (s : State τ) : State τ :=
  if (s.inode i).unneeded then free i (itrunc i s) else s

def iput (t : τ) (i : Index) (s : State τ) : Except Stop (State τ) := do
  let s ← acquiresleep t i s
  let s := releasesleep i (reclaim i s)
  return s.set i { s.inode i with ref := (s.inode i).ref - 1 }

def iunlockput (t : τ) (i : Index) (s : State τ) : Except Stop (State τ) := do
  let s ← iunlock t i s
  iput t i s

/-- The loop of `ialloc` over these inode numbers. -/
def iallocFrom (dev : ℕ) (type : Kind) : List ℕ → State τ → Except Stop (Index × State τ)
  | [], _ => .error .panic
  | inum :: l, s =>
    match Icache.ialloc (dev, inum) type s with
    | (true, s) => iget (dev, inum) s
    | (false, s) => iallocFrom dev type l s

def ialloc (dev : ℕ) (type : Kind) (s : State τ) : Except Stop (Index × State τ) :=
  iallocFrom dev type (List.range' 1 (NINODES - 1)) s

/-- The inode that the entry names, and the position of the entry. -/
def dirlookup (dp : Index) (name : Name) (s : State τ) :
    Except Stop (Option (Index × ℕ) × State τ) :=
  if (s.inode dp).type ≠ .T_DIR then .error .panic
  else
    match (s.dinode dp).find name with
    | none => .ok (none, s)
    | some (off, inum) => do
      let (ip, s) ← iget ((s.inode dp).key.1, inum) s
      return (some (ip, off), s)

def writeEntry (dp : Index) (off : ℕ) (de : Dirent) (s : State τ) : Except Stop (State τ) :=
  if MAXFILE * DPB ≤ off then .error .panic
  else .ok (s.setDinode dp ((s.dinode dp).write off de))

/-- Whether it could write the entry. -/
def dirlink (t : τ) (dp : Index) (name : Name) (inum : ℕ) (s : State τ) :
    Except Stop (Bool × State τ) := do
  match ← dirlookup dp name s with
  | (some (ip, _), s) => return (false, ← iput t ip s)
  | (none, s) => return (true, ← writeEntry dp (s.dinode dp).slot ⟨name, inum⟩ s)

/-- The element of a path that is next, and what follows it. -/
def skipelem (path : Path) : Option (Path × Name) :=
  let s := path.dropWhile (· = slash)
  if s = [] then none
  else some ((s.dropWhile (· ≠ slash)).dropWhile (· = slash), (s.takeWhile (· ≠ slash)).take DIRSIZ)

lemma not_of_dropWhile {p : UInt8 → Bool} {path l : Path} {b : UInt8}
    (h : path.dropWhile p = b :: l) : p b = false := by
  have := List.head?_dropWhile_not p path
  rwa [h] at this

lemma skipelem_lt {path rest : Path} {name : Name} (h : skipelem path = some (rest, name)) :
    rest.length < path.length := by
  obtain ⟨hs, h⟩ := Option.ite_none_left_eq_some.mp h
  cases h
  cases hp : path.dropWhile (· = slash) with
  | nil => exact absurd hp hs
  | cons b l =>
    have hb := not_of_dropWhile hp
    have h1 := (List.dropWhile_sublist (l := path) fun x : UInt8 => decide (x = slash)).length_le
    have h2 := (List.dropWhile_sublist (l := l) fun x : UInt8 => decide (x ≠ slash)).length_le
    have h3 := (List.dropWhile_sublist (l := l.dropWhile fun x => decide (x ≠ slash))
      fun x : UInt8 => decide (x = slash)).length_le
    rw [hp, List.length_cons] at h1
    rw [List.dropWhile_cons_of_pos (by simpa using hb)]
    omega

/-- The loop of `namex`. The name is the last element of the path, for `nameiparent`. -/
def walk (t : τ) (parent : Bool) (path : Path) (name : Name) (ip : Index) (s : State τ) :
    Except Stop (Option (Index × Name) × State τ) :=
  match _h : skipelem path with
  | none =>
    if parent then do return (none, ← iput t ip s)
    else .ok (some (ip, name), s)
  | some (path, name) => do
    let s ← ilock t ip s
    if (s.inode ip).type ≠ .T_DIR then return (none, ← iunlockput t ip s)
    else if parent ∧ path = [] then return (some (ip, name), ← iunlock t ip s)
    else
      match ← dirlookup ip name s with
      | (none, s) => return (none, ← iunlockput t ip s)
      | (some (next, _), s) =>
        let s ← iunlockput t ip s
        walk t parent path name next s
termination_by path.length
decreasing_by exact skipelem_lt _h

def namex (t : τ) (cwd : Index) (path : Path) (parent : Bool) (s : State τ) :
    Except Stop (Option (Index × Name) × State τ) :=
  if path.head? = some slash then do
    let (ip, s) ← iget (ROOTDEV, ROOTINO) s
    walk t parent path [] ip s
  else walk t parent path [] cwd (idup cwd s)

def namei (t : τ) (cwd : Index) (path : Path) (s : State τ) :
    Except Stop (Option (Index × Name) × State τ) := namex t cwd path false s

def nameiparent (t : τ) (cwd : Index) (path : Path) (s : State τ) :
    Except Stop (Option (Index × Name) × State τ) := namex t cwd path true s

/-- The end of `sys_link` when it fails. -/
def bad (t : τ) (ip : Index) (s : State τ) : Except Stop (ℤ × State τ) := do
  let s ← ilock t ip s
  let s ← iunlockput t ip (setNlink ip ((s.inode ip).nlink - 1) s)
  return (-1, s)

/-- `sys_link` once the file counts the new link. -/
def linkNew (t : τ) (cwd ip : Index) (new : Path) (s : State τ) : Except Stop (ℤ × State τ) := do
  match ← nameiparent t cwd new s with
  | (none, s) => bad t ip s
  | (some (dp, name), s) =>
    let s ← ilock t dp s
    if (s.inode dp).key.1 ≠ (s.inode ip).key.1 then
      let s ← iunlockput t dp s
      bad t ip s
    else
      match ← dirlink t dp name (s.inode ip).key.2 s with
      | (false, s) =>
        let s ← iunlockput t dp s
        bad t ip s
      | (true, s) =>
        let s ← iunlockput t dp s
        return (0, ← iput t ip s)

def link (t : τ) (cwd : Index) (old new : Path) (s : State τ) : Except Stop (ℤ × State τ) := do
  match ← namei t cwd old s with
  | (none, s) => return (-1, s)
  | (some (ip, _), s) =>
    let s ← ilock t ip s
    if (s.inode ip).type = .T_DIR then return (-1, ← iunlockput t ip s)
    else
      let s ← iunlock t ip (setNlink ip ((s.inode ip).nlink + 1) s)
      linkNew t cwd ip new s

/-- The end of `sys_unlink`, once the directory is written. -/
def dropName (t : τ) (dp ip : Index) (s : State τ) : Except Stop (ℤ × State τ) := do
  let s ← iunlockput t dp s
  let s ← iunlockput t ip (setNlink ip ((s.inode ip).nlink - 1) s)
  return (0, s)

/-- `sys_unlink` with both inodes locked, for the entry at this position. -/
def removeEntry (t : τ) (dp ip : Index) (off : ℕ) (s : State τ) : Except Stop (ℤ × State τ) := do
  let s ← writeEntry dp off ⟨[], 0⟩ s
  dropName t dp ip
    (if (s.inode ip).type = .T_DIR then setNlink dp ((s.inode dp).nlink - 1) s else s)

def unlink (t : τ) (cwd : Index) (path : Path) (s : State τ) : Except Stop (ℤ × State τ) := do
  match ← nameiparent t cwd path s with
  | (none, s) => return (-1, s)
  | (some (dp, name), s) =>
    let s ← ilock t dp s
    if name = dot ∨ name = dotdot then return (-1, ← iunlockput t dp s)
    else
      match ← dirlookup dp name s with
      | (none, s) => return (-1, ← iunlockput t dp s)
      | (some (ip, off), s) =>
        let s ← ilock t ip s
        if (s.inode ip).nlink < 1 then .error .panic
        else if (s.inode ip).type = .T_DIR ∧ (s.dinode ip).isdirempty = false then
          let s ← iunlockput t ip s
          return (-1, ← iunlockput t dp s)
        else removeEntry t dp ip off s

/-- `dirlink` where it must not fail. -/
def mustLink (t : τ) (dp : Index) (name : Name) (inum : ℕ) (s : State τ) :
    Except Stop (State τ) := do
  match ← dirlink t dp name inum s with
  | (false, _) => .error .panic
  | (true, s) => return s

/-- `create` where it makes a directory. -/
def dots (t : τ) (dp ip : Index) (s : State τ) : Except Stop (State τ) := do
  let s := setNlink dp ((s.inode dp).nlink + 1) s
  let s ← mustLink t ip dot (s.inode ip).key.2 s
  mustLink t ip dotdot (s.inode dp).key.2 s

/-- The end of `create`: the new inode gets its name. -/
def enter (t : τ) (dp ip : Index) (name : Name) (s : State τ) : Except Stop (Index × State τ) := do
  let s ← mustLink t dp name (s.inode ip).key.2 s
  return (ip, ← iunlockput t dp s)

/-- `create` where the name is not there. -/
def createNew (t : τ) (dp : Index) (name : Name) (type : Kind) (s : State τ) :
    Except Stop (Index × State τ) := do
  let (ip, s) ← ialloc (s.inode dp).key.1 type s
  let s ← ilock t ip s
  let s := setNlink ip 1 s
  let s ← if type = .T_DIR then dots t dp ip s else pure s
  enter t dp ip name s

def create (t : τ) (cwd : Index) (path : Path) (type : Kind) (s : State τ) :
    Except Stop (Option Index × State τ) := do
  match ← nameiparent t cwd path s with
  | (none, s) => return (none, s)
  | (some (dp, name), s) =>
    let s ← ilock t dp s
    match ← dirlookup dp name s with
    | (some (ip, _), s) =>
      let s ← iunlockput t dp s
      let s ← ilock t ip s
      if type = .T_FILE ∧ (s.inode ip).type = .T_FILE then return (some ip, s)
      else return (none, ← iunlockput t ip s)
    | (none, s) =>
      let (ip, s) ← createNew t dp name type s
      return (some ip, s)

def mkdir (t : τ) (cwd : Index) (path : Path) (s : State τ) : Except Stop (ℤ × State τ) := do
  match ← create t cwd path .T_DIR s with
  | (none, s) => return (-1, s)
  | (some ip, s) => return (0, ← iunlockput t ip s)

/-- The inode that `sys_open` opens, locked. -/
def openInode (t : τ) (cwd : Index) (path : Path) (omode : UInt32) (s : State τ) :
    Except Stop (Option Index × State τ) :=
  if omode &&& O_CREATE ≠ 0 then
    if omode &&& O_CHECKED ≠ 0 then create t cwd path .T_CHECKED s
    else create t cwd path .T_FILE s
  else do
    match ← namei t cwd path s with
    | (none, s) => return (none, s)
    | (some (ip, _), s) =>
      let s ← ilock t ip s
      if (s.inode ip).type = .T_DIR ∧ omode ≠ O_RDONLY then return (none, ← iunlockput t ip s)
      else return (some ip, s)

end Fs

section Calls

variable {τ : Type} [DecidableEq τ]

def filealloc (file : Fin NFILE → File) : Option (Fin NFILE) :=
  (List.finRange NFILE).find? fun f => (file f).ref = 0

def fdalloc (ofile : Fin NOFILE → Option (Fin NFILE)) : Option (Fin NOFILE) :=
  (List.finRange NOFILE).find? fun fd => ofile fd = none

def fileclose (t : τ) (f : Fin NFILE) (s : Sys τ) : Except Stop (Sys τ) :=
  let ff := s.file f
  if ff.ref < 1 then .error .panic
  else if 0 < ff.ref - 1 then
    .ok { s with file := update s.file f { ff with ref := ff.ref - 1 } }
  else
    let s := { s with file := update s.file f ⟨0, none⟩ }
    match ff.ip with
    | none => .ok s
    | some ip => do return { s with kernel := ← iput t ip s.kernel }

def sysOpen (t : τ) (path : Path) (omode : UInt32) (s : Sys τ) : Except Stop (ℤ × Sys τ) := do
  let (r, k) ← openInode t (s.cwd t) path omode s.kernel
  match r with
  | none => return (-1, { s with kernel := k })
  | some ip =>
    match filealloc s.file with
    | none => return (-1, { s with kernel := ← iunlockput t ip k })
    | some f =>
      match fdalloc (s.ofile t) with
      | none =>
        let s ← fileclose t f
          { s with kernel := k, file := update s.file f { s.file f with ref := 1 } }
        return (-1, { s with kernel := ← iunlockput t ip s.kernel })
      | some fd =>
        return (fd, { s with
          kernel := ← iunlock t ip k
          ofile := update s.ofile t (update (s.ofile t) fd (some f))
          file := update s.file f ⟨1, some ip⟩ })

def sysClose (t : τ) (fd : ℤ) (s : Sys τ) : Except Stop (ℤ × Sys τ) :=
  if h : 0 ≤ fd ∧ fd < NOFILE then
    let n : Fin NOFILE := ⟨fd.toNat, by omega⟩
    match s.ofile t n with
    | none => .ok (-1, s)
    | some f => do
      let s ← fileclose t f
        { s with ofile := update s.ofile t (update (s.ofile t) n none) }
      return (0, s)
  else .ok (-1, s)

def sysChdir (t : τ) (path : Path) (s : Sys τ) : Except Stop (ℤ × Sys τ) := do
  match ← namei t (s.cwd t) path s.kernel with
  | (none, k) => return (-1, { s with kernel := k })
  | (some (ip, _), k) =>
    let k ← ilock t ip k
    if (k.inode ip).type ≠ .T_DIR then return (-1, { s with kernel := ← iunlockput t ip k })
    else
      let k ← iunlock t ip k
      let k ← iput t (s.cwd t) k
      return (0, { s with kernel := k, cwd := update s.cwd t ip })

/-- A call that only the file system takes part in. -/
def inKernel (f : State τ → Except Stop (ℤ × State τ)) (s : Sys τ) : Except Stop (ℤ × Sys τ) := do
  let (r, k) ← f s.kernel
  return (r, { s with kernel := k })

def sysCall (t : τ) (s : Sys τ) : Call → Except Stop (ℤ × Sys τ)
  | .link (some old) (some new) => inKernel (link t (s.cwd t) old new) s
  | .unlink (some path) => inKernel (unlink t (s.cwd t) path) s
  | .mkdir (some path) => inKernel (mkdir t (s.cwd t) path) s
  | .openFile (some path) omode => sysOpen t path omode s
  | .chdir (some path) => sysChdir t path s
  | .close fd => sysClose t fd s
  | .link none _ | .link _ none | .unlink none | .mkdir none | .openFile none _ | .chdir none =>
    .ok (-1, s)

/-- A process makes a call that no other overlaps; the event is what the call returns. Between
`nameiparent` and `ilock(dp)` the code has no lock on the parent, and another call may remove it there. -/
def step (a : τ × Call) (s : Sys τ) : Except Stop (Sys τ × List ℤ) := do
  let (r, s) ← sysCall a.1 s a.2
  return (s, [r])

end Calls

/-- The root directory that `mkfs` makes, filled up to whole blocks. -/
def rootEntries (names : List Name) : List Dirent :=
  let l := ⟨dot, ROOTINO⟩ :: ⟨dotdot, ROOTINO⟩ :: names.zipIdx.map fun e => ⟨e.1, e.2 + 2⟩
  l ++ List.replicate ((l.length / DPB + 1) * DPB - l.length) ⟨[], 0⟩

/-- The inodes that `mkfs` makes for files with these names. -/
def mkfs (names : List Name) (inum : ℕ) : Dinode :=
  if inum = ROOTINO then ⟨.T_DIR, 1, rootEntries names⟩
  else if 2 ≤ inum ∧ inum < names.length + 2 then ⟨.T_FILE, 1, []⟩
  else ⟨.free, 0, []⟩

/-- The processes start in the root directory, with no open files. -/
def boot (τ : Type) [Fintype τ] (names : List Name) : Sys τ where
  kernel :=
    { inode := fun i => ⟨(ROOTDEV, ROOTINO), if i = 0 then Fintype.card τ else 0, none, false, .free, 0⟩
      disk := fun k => mkfs names k.2 }
  cwd _ := 0
  ofile _ _ := none
  file _ := ⟨0, none⟩

end LearnXv6.Links
