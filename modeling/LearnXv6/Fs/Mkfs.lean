import LearnXv6.Fs.Kernel

/-! `mkfs.c`: building an image from a list of files. -/
namespace LearnXv6.Fs.Mkfs

/-- A failed `assert`, a failed system call (`perror` and `exit`), or an access outside an array. -/
inductive Abort where
  | assert | perror | outOfRange
  deriving DecidableEq, Repr

def nbitmap (L : Lab) : ℕ := L.FSSIZE / (BSIZE * 8) + 1
def ninodeblocks : ℕ := NINODES / IPB + 1
def nlog (L : Lab) : ℕ := L.LOGSIZE

/-- Meta blocks: boot, super block, log, inodes, bitmap. -/
def nmeta (L : Lab) : ℕ := 2 + nlog L + ninodeblocks + nbitmap L
def nblocks (L : Lab) : ℕ := L.FSSIZE - nmeta L

def sb (L : Lab) : Superblock where
  size := L.FSSIZE
  nblocks := nblocks L
  ninodes := NINODES
  nlog := nlog L
  logstart := 2
  inodestart := 2 + nlog L
  bmapstart := 2 + nlog L + ninodeblocks

/-- The image file, `nsect` whole sectors long, and the two counters. -/
structure State where
  nsect : ℕ
  sect : Disk
  freeinode : ℕ
  freeblock : ℕ

/-! Sectors. The byte offset `sec * BSIZE` is a `uint`. -/

def wsect (s : State) (sec : ℕ) (buf : Block) : State :=
  let sec := sec % 2 ^ 23
  { s with nsect := max s.nsect (sec + 1), sect := Function.update s.sect sec buf }

/-- Reading at or past the end of the image fails. -/
def rsect (s : State) (sec : ℕ) : Except Abort Block :=
  let sec := sec % 2 ^ 23
  if sec < s.nsect then .ok (s.sect sec) else .error .perror

/-- The image after the zeroing loop and the super block. -/
def format (L : Lab) : State :=
  let s : State := ⟨0, fun _ => 0, 1, nmeta L⟩
  let s := (List.range L.FSSIZE).foldl (fun s i => wsect s i 0) s
  wsect s 1 (Superblock.write 0 (sb L))

/-! Inodes. -/

def winode (L : Lab) (s : State) (inum : ℕ) (ip : Dinode) : Except Abort State := do
  let bn := (sb L).iblock inum
  let buf ← rsect s bn
  .ok (wsect s bn (Dinode.write buf (inum % IPB) ip))

def rinode (L : Lab) (s : State) (inum : ℕ) : Except Abort Dinode := do
  let buf ← rsect s ((sb L).iblock inum)
  .ok (Dinode.read buf (inum % IPB))

/-- The next inode number is not compared with `NINODES`. -/
def ialloc (L : Lab) (s : State) (type : ℕ) : Except Abort (ℕ × State) := do
  let inum := s.freeinode
  let s := { s with freeinode := s.freeinode + 1 }
  let din : Dinode := { (0 : Dinode) with type := type, nlink := 1, size := 0 }
  let s ← winode L s inum din
  .ok (inum, s)

/-- Write the free map: one block, with the bits below `used` set. -/
def balloc (L : Lab) (s : State) (used : ℕ) : Except Abort State :=
  if used < BSIZE * 8 then
    .ok (wsect s (sb L).bmapstart ((List.range used).foldl (fun buf i => buf.setBit i) 0))
  else .error .assert

/-! The block of a file block number. -/

/-- `if(xint(din.addrs[k]) == 0) din.addrs[k] = xint(freeblock++);` -/
def fillAddr (s : State) (din : Dinode) (k : ℕ) : State × Dinode :=
  if din.addrs k = 0 then ({ s with freeblock := s.freeblock + 1 }, din.setAddr k s.freeblock)
  else (s, din)

/-- `if(table[k] == 0) table[k] = xint(freeblock++);` on an index block in memory. -/
def fill (s : State) (table : Block) (k : ℕ) : Except Abort (State × Block) :=
  if NINDIRECT ≤ k then .error .outOfRange
  else if table.word k = 0 then
    .ok ({ s with freeblock := s.freeblock + 1 }, table.setWord k s.freeblock)
  else .ok (s, table)

/-- `if(table[k] == 0){ table[k] = xint(freeblock++); wsect(sec, table); }` -/
def fillWrite (s : State) (table : Block) (k sec : ℕ) : Except Abort (State × Block) :=
  if NINDIRECT ≤ k then .error .outOfRange
  else if table.word k = 0 then
    let table := table.setWord k s.freeblock
    .ok (wsect { s with freeblock := s.freeblock + 1 } sec table, table)
  else .ok (s, table)

/-- The stock text, compiled with the constants of `L`. -/
def blockStock (L : Lab) (s : State) (din : Dinode) (fbn : ℕ) :
    Except Abort (ℕ × State × Dinode) :=
  if fbn < L.NDIRECT then
    let (s, din) := fillAddr s din fbn
    .ok (din.addrs fbn, s, din)
  else do
    let (s, din) := fillAddr s din L.NDIRECT
    let indirect ← rsect s (din.addrs L.NDIRECT)
    let (s, indirect) ← fillWrite s indirect (fbn - L.NDIRECT) (din.addrs L.NDIRECT)
    .ok (indirect.word (fbn - L.NDIRECT), s, din)

/-- The index block read at the first level is not written back after `fill`, and the second
level goes to the sector in its entry `NDIRECTIB` whatever `index` is. -/
def blockIdouble (s : State) (din : Dinode) (fbn : ℕ) : Except Abort (ℕ × State × Dinode) :=
  let L := Lab.idouble
  if fbn < L.NDIRECT then
    let (s, din) := fillAddr s din fbn
    .ok (din.addrs fbn, s, din)
  else do
    let (s, din) := fillAddr s din L.NDIRECT
    let indirect ← rsect s (din.addrs L.NDIRECT)
    if fbn - L.NDIRECT < L.NDIRECTIB then
      let (s, indirect) ← fillWrite s indirect (fbn - L.NDIRECT) (din.addrs L.NDIRECT)
      .ok (indirect.word (fbn - L.NDIRECT), s, din)
    else
      let index := (fbn - L.NDIRECT - L.NDIRECTIB) / NINDIRECT
      let offset := (fbn - L.NDIRECT - L.NDIRECTIB) % NINDIRECT
      let (s, indirect) ← fill s indirect (L.NDIRECTIB + index)
      let indirect2 ← rsect s (indirect.word (L.NDIRECTIB + index))
      let (s, indirect2) ← fillWrite s indirect2 offset (indirect.word L.NDIRECTIB)
      .ok (indirect2.word offset, s, din)

/-- As in idouble, with a third level whose parent is not written back either. The uninitialised
`x` of the last branch cannot be reached, since `offset2 < NINDIRECT`. -/
def blockItriple (s : State) (din : Dinode) (fbn : ℕ) : Except Abort (ℕ × State × Dinode) :=
  let L := Lab.itriple
  if fbn < L.NDIRECT then
    let (s, din) := fillAddr s din fbn
    .ok (din.addrs fbn, s, din)
  else do
    let (s, din) := fillAddr s din L.NDIRECT
    let indirect ← rsect s (din.addrs L.NDIRECT)
    if fbn - L.NDIRECT < L.NDIRECTIB then
      let (s, indirect) ← fillWrite s indirect (fbn - L.NDIRECT) (din.addrs L.NDIRECT)
      .ok (indirect.word (fbn - L.NDIRECT), s, din)
    else
      let index := (fbn - L.NDIRECT - L.NDIRECTIB) / (NINDIRECT * L.NINDIRECTIB + L.NDIRECTIB)
      let offset := (fbn - L.NDIRECT - L.NDIRECTIB) % (NINDIRECT * L.NINDIRECTIB + L.NDIRECTIB)
      let (s, indirect) ← fill s indirect (L.NDIRECTIB + index)
      let indirect2 ← rsect s (indirect.word (L.NDIRECTIB + index))
      if offset < L.NDIRECTIB then
        let (s, indirect2) ← fillWrite s indirect2 offset (indirect.word L.NDIRECTIB)
        .ok (indirect2.word offset, s, din)
      else
        let index2 := (offset - L.NDIRECTIB) / NINDIRECT
        let offset2 := (offset - L.NDIRECTIB) % NINDIRECT
        let (s, indirect2) ← fill s indirect2 (L.NDIRECTIB + index2)
        let indirect3 ← rsect s (indirect2.word (L.NDIRECTIB + index2))
        if offset2 < NINDIRECT then
          let (s, indirect3) ← fillWrite s indirect3 offset2 (indirect2.word (L.NDIRECTIB + index2))
          .ok (indirect3.word offset2, s, din)
        else .error .outOfRange

def blockReverse (s : State) (din : Dinode) (fbn : ℕ) : Except Abort (ℕ × State × Dinode) :=
  let L := Lab.reverse
  if fbn < L.NDIRECT then
    let (s, din) := fillAddr s din fbn
    .ok (din.addrs fbn, s, din)
  else do
    let (s, din) := fillAddr s din L.NDIRECT
    let row := (fbn - L.NDIRECT) / NINDIRECT
    let col := (fbn - L.NDIRECT) % NINDIRECT
    let indirect ← rsect s (din.addrs L.NDIRECT)
    let (s, indirect) ← fillWrite s indirect row (din.addrs L.NDIRECT)
    let indirect2 ← rsect s (indirect.word row)
    let (s, indirect2) ← fillWrite s indirect2 col (indirect.word row)
    .ok (indirect2.word col, s, din)

/-- The part of `iappend` that finds the sector `x` of file block `fbn`. -/
def block (L : Lab) : State → Dinode → ℕ → Except Abort (ℕ × State × Dinode) :=
  match L with
  | .stock => blockStock .stock
  | .isingle => blockStock .isingle
  | .idouble => blockIdouble
  | .itriple => blockItriple
  | .reverse => blockReverse

/-- The loop of `iappend` from offset `off`, with `p` the bytes that remain. The list in the
result records the sector written for each file block number. -/
def iappendLoop (L : Lab) (s : State) (din : Dinode) (off : ℕ) (p : List UInt8) :
    Except Abort (List (ℕ × ℕ) × State × Dinode × ℕ) :=
  if p.length = 0 then .ok ([], s, din, off)
  else
    let fbn := off / BSIZE
    if fbn < L.MAXFILE then do
      let (x, s, din) ← block L s din fbn
      let n1 := min p.length ((fbn + 1) * BSIZE - off)
      let buf ← rsect s x
      let s := wsect s x (buf.blit (off - fbn * BSIZE) n1 (fun i => p.getD i 0))
      let (t, s, din, off) ← iappendLoop L s din (off + n1) (p.drop n1)
      .ok ((fbn, x) :: t, s, din, off)
    else .error .assert
termination_by p.length
decreasing_by
  rw [List.length_drop]
  have := BSIZE_eq
  have := Nat.lt_div_mul_add (a := off) (show 0 < BSIZE by decide)
  rw [Nat.add_mul]
  omega

def iappend (L : Lab) (s : State) (inum : ℕ) (p : List UInt8) :
    Except Abort (List (ℕ × ℕ) × State) := do
  let din ← rinode L s inum
  let (t, s, din, off) ← iappendLoop L s din din.size p
  let s ← winode L s inum { din with size := off }
  .ok (t, s)

/-! `main` -/

/-- An argument of `mkfs`: a C string and, when `open` succeeds, what each `read` returns. -/
structure File where
  name : List UInt8
  reads : Option (List (List UInt8))
  name_ne : 0 ∉ name

def slash : UInt8 := 47
def underscore : UInt8 := 95
def dot : UInt8 := 46

/-- The argument without one leading `_`. -/
def shortName (name : List UInt8) : List UInt8 :=
  if name.head? = some underscore then name.tail else name

/-- The bytes of `de` after `bzero`, the assignment of `inum` and `strncpy` of the name. -/
def dirent (inum : ℕ) (name : List UInt8) : List UInt8 :=
  [UInt8.ofNat inum, UInt8.ofNat (inum / 256)] ++ (List.range DIRSIZ).map (Kernel.cstr (name.take DIRSIZ))

/-- The body of the loop over the arguments. -/
def addFile (L : Lab) (rootino : ℕ) (s : State) (f : File) : Except Abort State :=
  if slash ∈ f.name then .error .assert
  else match f.reads with
    | none => .error .perror
    | some chunks => do
      let (inum, s) ← ialloc L s T_FILE
      let (_, s) ← iappend L s rootino (dirent inum (shortName f.name))
      chunks.foldlM (fun s buf => do
        let (_, s) ← iappend L s inum buf
        .ok s) s

/-- Round the size of the root directory. -/
def fixSize (L : Lab) (s : State) (rootino : ℕ) : Except Abort State := do
  let din ← rinode L s rootino
  winode L s rootino { din with size := (din.size / BSIZE + 1) * BSIZE }

def main (L : Lab) (files : List File) : Except Abort State := do
  let s := format L
  let (rootino, s) ← ialloc L s T_DIR
  if rootino = ROOTINO then
    let (_, s) ← iappend L s rootino (dirent rootino [dot])
    let (_, s) ← iappend L s rootino (dirent rootino [dot, dot])
    let s ← files.foldlM (addFile L rootino) s
    let s ← fixSize L s rootino
    balloc L s s.freeblock
  else .error .assert

end LearnXv6.Fs.Mkfs
