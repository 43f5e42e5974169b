import LearnXv6.Store.Run

/-! The inode cache and what the disk holds of inodes and directories. Each operation is a stretch of
code under one lock. -/
namespace LearnXv6.Icache
open Store

def NINODE : ℕ := 50

abbrev Index := Fin NINODE

instance : NeZero NINODE := ⟨by decide⟩

/-- An inode: its device and its number. -/
abbrev Key := ℕ × ℕ

/-- The type of an inode; `free` is 0. -/
inductive Kind where
  | free | T_DIR | T_FILE | T_DEV | T_CHECKED
  deriving DecidableEq, Repr

/-- At most `DIRSIZ` bytes, none of them 0. -/
abbrev Name := List UInt8

/-- `struct dirent`; the entry is empty when `inum` is 0. -/
structure Dirent where
  name : Name
  inum : ℕ
  deriving DecidableEq, Repr

/-- `struct dinode`, with its content if it is a directory. -/
structure Dinode where
  type : Kind
  nlink : ℤ
  entries : List Dirent
  deriving DecidableEq, Repr

/-- `struct inode`, with the process that holds its lock. -/
structure Inode (τ : Type) where
  key : Key
  ref : ℤ
  lock : Option τ
  valid : Bool
  type : Kind
  nlink : ℤ

structure State (τ : Type) where
  inode : Index → Inode τ
  disk : Key → Dinode

inductive Stop where
  | disabled
  | panic
  deriving DecidableEq, Repr

inductive Op where
  /-- one pass of the loop of `ialloc` -/
  | ialloc (k : Key) (type : Kind)
  | iget (k : Key)
  | idup (i : Index)
  /-- `ilock` until it has the lock -/
  | ilock (i : Index)
  /-- the rest of `ilock` -/
  | load (i : Index)
  | iunlock (i : Index)
  | key (i : Index)
  | type (i : Index)
  | nlink (i : Index)
  /-- the loop of `dirlookup` -/
  | find (i : Index) (name : Name)
  /-- the loop of `dirlink` -/
  | slot (i : Index)
  | isdirempty (i : Index)
  /-- `nlink = 1` with `iupdate` -/
  | setLink (i : Index)
  /-- `nlink++` with `iupdate` -/
  | addLink (i : Index)
  /-- `nlink--` with `iupdate` -/
  | dropLink (i : Index)
  /-- `writei` of one entry -/
  | write (i : Index) (off : ℕ) (de : Dirent)
  /-- `iput` until it has the lock -/
  | iput (i : Index)
  /-- the tests of `iput` -/
  | count (i : Index)
  | itrunc (i : Index)
  /-- `type = 0` with `iupdate`, and `valid = 0` -/
  | free (i : Index)
  /-- `releasesleep` in `iput` -/
  | release (i : Index)
  /-- `ref--` -/
  | unref (i : Index)
  deriving DecidableEq, Repr

/-- What an operation returns. -/
abbrev Answer : Op → Type
  | .iget _ => Index
  | .key _ => Key
  | .type _ => Kind
  | .nlink _ => ℤ
  | .find _ _ => Option (ℕ × ℕ)
  | .slot _ => ℕ
  | .ialloc _ _ | .isdirempty _ | .count _ => Bool
  | .idup _ | .ilock _ | .load _ | .iunlock _ | .setLink _ | .addLink _ | .dropLink _ | .write _ _ _
  | .iput _ | .itrunc _ | .free _ | .release _ | .unref _ => Unit

namespace Dinode

/-- The position of the entry with this name, and its number. -/
def find (d : Dinode) (name : Name) : Option (ℕ × ℕ) :=
  (d.entries.zipIdx.find? fun e => e.1.inum ≠ 0 ∧ e.1.name = name).map fun e => (e.2, e.1.inum)

/-- The position of the first empty entry, or else the end. -/
def slot (d : Dinode) : ℕ := d.entries.findIdx fun e => e.inum = 0

def isdirempty (d : Dinode) : Bool := (d.entries.drop 2).all fun e => e.inum = 0

def write (d : Dinode) (off : ℕ) (de : Dirent) : Dinode :=
  { d with entries := d.entries.take off ++ de :: d.entries.drop (off + 1) }

end Dinode

variable {τ : Type}

def State.set (s : State τ) (i : Index) (ip : Inode τ) : State τ :=
  { s with inode := Function.update s.inode i ip }

/-- The inode of the disk that the cache entry is for. -/
def State.dinode (s : State τ) (i : Index) : Dinode := s.disk (s.inode i).key

def State.setDinode (s : State τ) (i : Index) (d : Dinode) : State τ :=
  { s with disk := Function.update s.disk (s.inode i).key d }

def ialloc (k : Key) (type : Kind) (s : State τ) : Bool × State τ :=
  if (s.disk k).type = .free then (true, { s with disk := Function.update s.disk k ⟨type, 0, []⟩ })
  else (false, s)

def iupdate (i : Index) (s : State τ) : State τ :=
  s.setDinode i { s.dinode i with type := (s.inode i).type, nlink := (s.inode i).nlink }

/-- The entry that the loop of `iget` finds. -/
def State.cached (s : State τ) (k : Key) : Option Index :=
  (List.finRange NINODE).find? fun i => 0 < (s.inode i).ref ∧ (s.inode i).key = k

/-- The empty slot that it remembers. -/
def State.empty (s : State τ) : Option Index :=
  (List.finRange NINODE).find? fun i => (s.inode i).ref = 0

def iget (k : Key) (s : State τ) : Except Stop (Index × State τ) :=
  match s.cached k with
  | some i => .ok (i, s.set i { s.inode i with ref := (s.inode i).ref + 1 })
  | none =>
    match s.empty with
    | some i => .ok (i, s.set i { s.inode i with key := k, ref := 1, valid := false })
    | none => .error .panic

def acquiresleep (t : τ) (i : Index) (s : State τ) : Except Stop (State τ) :=
  match (s.inode i).lock with
  | some _ => .error .disabled
  | none => .ok (s.set i { s.inode i with lock := some t })

def releasesleep (i : Index) (s : State τ) : State τ :=
  s.set i { s.inode i with lock := none }

/-- `ilock` with the lock. -/
def load (i : Index) (s : State τ) : Except Stop (State τ) :=
  if (s.inode i).valid then .ok s
  else
    let d := s.dinode i
    if d.type = .free then .error .panic
    else .ok (s.set i { s.inode i with type := d.type, nlink := d.nlink, valid := true })

/-- Changes `nlink`, which is a `short`, and writes it through. -/
def setNlink (i : Index) (n : ℤ) (s : State τ) : State τ :=
  iupdate i (s.set i { s.inode i with nlink := n.bmod (2 ^ 16) })

/-- Whether `iput` frees the inode: no links and no other references. -/
def Inode.unneeded (ip : Inode τ) : Prop := ip.valid = true ∧ ip.nlink = 0 ∧ ip.ref = 1

instance (ip : Inode τ) : Decidable ip.unneeded := inferInstanceAs (Decidable (_ ∧ _ ∧ _))

def itrunc (i : Index) (s : State τ) : State τ := s.setDinode i { s.dinode i with entries := [] }

def free (i : Index) (s : State τ) : State τ :=
  let s' := iupdate i (s.set i { s.inode i with type := .free })
  s'.set i { s'.inode i with valid := false }

def exec [DecidableEq τ] (t : τ) (op : Op) (s : State τ) : Except Stop (Answer op × State τ) :=
  match op with
  | .ialloc k type => .ok (ialloc k type s)
  | .iget k => iget k s
  | .idup i => .ok ((), s.set i { s.inode i with ref := (s.inode i).ref + 1 })
  | .ilock i =>
    if (s.inode i).ref < 1 then .error .panic
    else match acquiresleep t i s with
      | .ok s' => .ok ((), s')
      | .error e => .error e
  | .load i =>
    match load i s with
    | .ok s' => .ok ((), s')
    | .error e => .error e
  | .iunlock i =>
    if (s.inode i).lock ≠ some t ∨ (s.inode i).ref < 1 then .error .panic
    else .ok ((), releasesleep i s)
  | .key i => .ok ((s.inode i).key, s)
  | .type i => .ok ((s.inode i).type, s)
  | .nlink i => .ok ((s.inode i).nlink, s)
  | .find i name => .ok ((s.dinode i).find name, s)
  | .slot i => .ok ((s.dinode i).slot, s)
  | .isdirempty i => .ok ((s.dinode i).isdirempty, s)
  | .setLink i => .ok ((), setNlink i 1 s)
  | .addLink i => .ok ((), setNlink i ((s.inode i).nlink + 1) s)
  | .dropLink i => .ok ((), setNlink i ((s.inode i).nlink - 1) s)
  | .write i off de =>
    if (s.dinode i).entries.length < off then .error .panic
    else .ok ((), s.setDinode i ((s.dinode i).write off de))
  | .iput i =>
    match acquiresleep t i s with
    | .ok s' => .ok ((), s')
    | .error e => .error e
  | .count i => .ok (decide (s.inode i).unneeded, s)
  | .itrunc i => .ok ((), itrunc i s)
  | .free i => .ok ((), free i s)
  | .release i => .ok ((), releasesleep i s)
  | .unref i => .ok ((), s.set i { s.inode i with ref := (s.inode i).ref - 1 })

end LearnXv6.Icache
