import LearnXv6.Fs.Paths

/-! `fs.c`: block allocator, block map, reading, writing, truncation and directory lookup.
The disk is the one seen through the buffer cache: `log_write` is the update of a block. -/
namespace LearnXv6.Fs.Kernel

inductive Panic where
  | outOfBlocks | freeingFreeBlock | bmapOutOfRange | notDir | dirlookupRead
  deriving DecidableEq, Repr

/-- The `read` and `write` entries of `devsw`, with the count they return. -/
structure Devsw where
  read : Option (ℕ → ℤ × List UInt8)
  write : Option ((ℕ → UInt8) → ℕ → ℤ)

def NDEV : ℕ := 10

structure State where
  disk : Disk
  sb : Superblock
  devsw : ℕ → Devsw

/-- The in-memory inode. -/
structure Inode where
  inum : ℕ
  type : ℕ
  major : ℕ
  minor : ℕ
  nlink : ℕ
  size : ℕ
  addrs : ℕ → ℕ

def State.logWrite (s : State) (b : ℕ) (v : Block) : State :=
  { s with disk := Function.update s.disk b v }

def Inode.setAddr (ip : Inode) (k v : ℕ) : Inode :=
  { ip with addrs := Function.update ip.addrs k v }

/-- The bit of block `b` in the free map. -/
def State.used (s : State) (b : ℕ) : Bool := (s.disk (s.sb.bblock b)).bit (b % BPB)

/-- The words of every block, the tables that `bmap` follows. -/
def State.word (s : State) (a k : ℕ) : ℕ := (s.disk a).word k

/-! Blocks. -/

/-- The inner loop of `balloc`: the first clear bit of the bitmap block of `b`. -/
def ballocBlock (s : State) (b : ℕ) : Option ℕ :=
  (List.range BPB).find? fun bi => b + bi < s.sb.size && !(s.disk (s.sb.bblock b)).bit bi

def balloc (s : State) : Except Panic (ℕ × State) :=
  match (List.range ((s.sb.size + BPB - 1) / BPB)).findSome? fun q =>
    (ballocBlock s (q * BPB)).map fun bi => (q * BPB, bi) with
  | none => .error .outOfBlocks
  | some (b, bi) =>
    let s := s.logWrite (s.sb.bblock b) ((s.disk (s.sb.bblock b)).setBit bi)
    .ok (b + bi, s.logWrite (b + bi) 0)

/-- Free a disk block. The super block is read again first. -/
def bfree (s : State) (b : ℕ) : Except Panic State :=
  let s := { s with sb := Superblock.read (s.disk 1) }
  let bp := s.disk (s.sb.bblock b)
  let bi := b % BPB
  if bp.bit bi = false then .error .freeingFreeBlock
  else .ok (s.logWrite (s.sb.bblock b) (bp.clearBit bi))

/-! Inodes. -/

def Inode.dinode (ip : Inode) : Dinode :=
  ⟨ip.type, ip.major, ip.minor, ip.nlink, ip.size, ip.addrs⟩

def iupdate (s : State) (ip : Inode) : State :=
  let b := s.sb.iblock ip.inum
  s.logWrite b (Dinode.write (s.disk b) (ip.inum % IPB) ip.dinode)

/-- The in-memory inode that `ilock` reads from the disk. -/
def iload (s : State) (inum : ℕ) : Inode :=
  let dip := Dinode.read (s.disk (s.sb.iblock inum)) (inum % IPB)
  ⟨inum, dip.type, dip.major, dip.minor, dip.nlink, dip.size, dip.addrs⟩

/-- `if((addr = ip->addrs[k]) == 0) ip->addrs[k] = addr = balloc(ip->dev)` -/
def addrEntry (s : State) (ip : Inode) (k : ℕ) : Except Panic (ℕ × State × Inode) :=
  if ip.addrs k = 0 then do
    let (addr, s) ← balloc s
    .ok (addr, s, ip.setAddr k addr)
  else .ok (ip.addrs k, s, ip)

/-- `if((addr = a[k]) == 0){ a[k] = addr = balloc(ip->dev); log_write(bp); }` for the index
block `bno`. -/
def indirectEntry (s : State) (bno k : ℕ) : Except Panic (ℕ × State) :=
  if s.word bno k = 0 then do
    let (addr, s) ← balloc s
    .ok (addr, s.logWrite bno ((s.disk bno).setWord k addr))
  else .ok (s.word bno k, s)

def bmapStock (s : State) (ip : Inode) (bn : ℕ) : Except Panic (ℕ × State × Inode) :=
  if bn < Lab.stock.NDIRECT then addrEntry s ip bn
  else
    let bn := bn - Lab.stock.NDIRECT
    if bn < NINDIRECT then do
      let (addr, s, ip) ← addrEntry s ip Lab.stock.NDIRECT
      let (addr, s) ← indirectEntry s addr bn
      .ok (addr, s, ip)
    else .error .bmapOutOfRange

/-- `while (bn >= NINDIRECT) { indirect_block++; bn -= NINDIRECT; }` -/
def skipIndirect (indirectBlock bn : ℕ) : ℕ × ℕ :=
  if NINDIRECT ≤ bn then skipIndirect (indirectBlock + 1) (bn - NINDIRECT) else (indirectBlock, bn)
termination_by bn
decreasing_by have := NINDIRECT_eq; omega

def bmapIsingle (s : State) (ip : Inode) (bn : ℕ) : Except Panic (ℕ × State × Inode) :=
  if bn < Lab.isingle.NDIRECT then addrEntry s ip bn
  else
    let (indirectBlock, bn) := skipIndirect 0 (bn - Lab.isingle.NDIRECT)
    if Lab.isingle.MAXINDIRECT ≤ indirectBlock then .error .bmapOutOfRange
    else do
      let (addr, s, ip) ← addrEntry s ip (Lab.isingle.NDIRECT + indirectBlock)
      let (addr, s) ← indirectEntry s addr bn
      .ok (addr, s, ip)

def bmapIdouble (s : State) (ip : Inode) (bn : ℕ) : Except Panic (ℕ × State × Inode) :=
  let maxsize := Lab.idouble.MAXFILE - Lab.idouble.NDIRECT
  if bn < Lab.idouble.NDIRECT then addrEntry s ip bn
  else
    let bn := bn - Lab.idouble.NDIRECT
    if bn < maxsize then do
      let (addr, s, ip) ← addrEntry s ip Lab.idouble.NDIRECT
      if bn < Lab.idouble.NDIRECTIB then
        let (addr, s) ← indirectEntry s addr bn
        .ok (addr, s, ip)
      else
        let bn := bn - Lab.idouble.NDIRECTIB
        let index := bn / NINDIRECT
        let offset := bn % NINDIRECT
        let (addr, s) ← indirectEntry s addr (Lab.idouble.NDIRECTIB + index)
        if offset < NINDIRECT then
          let (addr, s) ← indirectEntry s addr offset
          .ok (addr, s, ip)
        else .error .bmapOutOfRange
    else .error .bmapOutOfRange

def bmapItriple (s : State) (ip : Inode) (bn : ℕ) : Except Panic (ℕ × State × Inode) :=
  let maxsize := Lab.itriple.NINDIRECTIB * Lab.itriple.NINDIRECTIB * NINDIRECT +
    Lab.itriple.NDIRECTIB * Lab.itriple.NINDIRECTIB + Lab.itriple.NDIRECTIB
  if bn < Lab.itriple.NDIRECT then addrEntry s ip bn
  else
    let bn := bn - Lab.itriple.NDIRECT
    if bn < maxsize then do
      let (addr, s, ip) ← addrEntry s ip Lab.itriple.NDIRECT
      if bn < Lab.itriple.NDIRECTIB then
        let (addr, s) ← indirectEntry s addr bn
        .ok (addr, s, ip)
      else
        let bn := bn - Lab.itriple.NDIRECTIB
        let index := bn / (NINDIRECT * Lab.itriple.NINDIRECTIB + Lab.itriple.NDIRECTIB)
        let offset := bn % (NINDIRECT * Lab.itriple.NINDIRECTIB + Lab.itriple.NDIRECTIB)
        let (addr, s) ← indirectEntry s addr (Lab.itriple.NDIRECTIB + index)
        if offset < Lab.itriple.NDIRECTIB then
          let (addr, s) ← indirectEntry s addr offset
          .ok (addr, s, ip)
        else
          let index2 := (offset - Lab.itriple.NDIRECTIB) / NINDIRECT
          let offset2 := offset % NINDIRECT
          let (addr, s) ← indirectEntry s addr (Lab.itriple.NDIRECTIB + index2)
          if offset2 < NINDIRECT then
            let (addr, s) ← indirectEntry s addr offset2
            .ok (addr, s, ip)
          else .ok (addr, s, ip)
    else .error .bmapOutOfRange

def bmapReverse (s : State) (ip : Inode) (bn : ℕ) : Except Panic (ℕ × State × Inode) :=
  if bn < Lab.reverse.NDIRECT then addrEntry s ip bn
  else
    let bn := bn - Lab.reverse.NDIRECT
    if bn < NINDIRECT * NINDIRECT then do
      let (addr, s, ip) ← addrEntry s ip Lab.reverse.NDIRECT
      let row := bn / NINDIRECT % 2 ^ 16
      let col := bn % NINDIRECT % 2 ^ 16
      let (addr, s) ← indirectEntry s addr row
      let (addr, s) ← indirectEntry s addr col
      .ok (addr, s, ip)
    else .error .bmapOutOfRange

/-- Return the disk block address of the nth block in inode ip, allocating it if needed. -/
def bmap (L : Lab) : State → Inode → ℕ → Except Panic (ℕ × State × Inode) :=
  match L with
  | .stock => bmapStock
  | .isingle => bmapIsingle
  | .idouble => bmapIdouble
  | .itriple => bmapItriple
  | .reverse => bmapReverse

/-- `if(a[j]) bfree(ip->dev, a[j])` -/
def bfreeNonzero (s : State) (b : ℕ) : Except Panic State :=
  if b ≠ 0 then bfree s b else .ok s

/-- The first loop of `itrunc`. -/
def freeDirect (s : State) (ip : Inode) (i : ℕ) : Except Panic (State × Inode) :=
  if ip.addrs i ≠ 0 then do
    let s ← bfree s (ip.addrs i)
    .ok (s, ip.setAddr i 0)
  else .ok (s, ip)

/-- Truncate inode. The text is the stock one in every tree: the direct blocks, the blocks named
by the index block in `addrs[NDIRECT]`, and that index block. -/
def itrunc (L : Lab) (s : State) (ip : Inode) : Except Panic (State × Inode) := do
  let (s, ip) ← (List.range L.NDIRECT).foldlM (fun (s, ip) i => freeDirect s ip i) (s, ip)
  let (s, ip) ←
    if ip.addrs L.NDIRECT ≠ 0 then do
      let s ← (List.range NINDIRECT).foldlM
        (fun s j => bfreeNonzero s (s.word (ip.addrs L.NDIRECT) j)) s
      let s ← bfree s (ip.addrs L.NDIRECT)
      pure (s, ip.setAddr L.NDIRECT 0)
    else pure (s, ip)
  let ip := { ip with size := 0 }
  .ok (iupdate s ip, ip)

/-! Inode content. -/

/-- The loop of `readi`, with `n` the bytes that remain. -/
def readiLoop (L : Lab) (s : State) (ip : Inode) (off n : ℕ) :
    Except Panic (List UInt8 × State × Inode) :=
  if n = 0 then .ok ([], s, ip)
  else do
    let (addr, s, ip) ← bmap L s ip (off / BSIZE)
    let m := min n (BSIZE - off % BSIZE)
    let data := (List.range m).map fun i => (s.disk addr).byte (off % BSIZE + i)
    let (rest, s, ip) ← readiLoop L s ip (off + m) (n - m)
    .ok (data ++ rest, s, ip)
termination_by n
decreasing_by have := BSIZE_eq; have := Nat.mod_lt off (show 0 < BSIZE by decide); omega

/-- Read data from inode: the count and the bytes copied to `dst`. -/
def readi (L : Lab) (s : State) (ip : Inode) (off n : ℕ) :
    Except Panic (ℤ × List UInt8 × State × Inode) :=
  if ip.type = T_DEV then
    if NDEV ≤ ip.major then .ok (-1, [], s, ip)
    else match (s.devsw ip.major).read with
      | none => .ok (-1, [], s, ip)
      | some f => .ok ((f n).1, (f n).2, s, ip)
  else if ip.size < off ∨ (off + n) % 2 ^ 32 < off then .ok (-1, [], s, ip)
  else do
    let n := if ip.size < (off + n) % 2 ^ 32 then ip.size - off else n
    let (data, s, ip) ← readiLoop L s ip off n
    .ok (n, data, s, ip)

def writeiLoop (L : Lab) (s : State) (ip : Inode) (src : ℕ → UInt8) (off n : ℕ) :
    Except Panic (State × Inode) :=
  if n = 0 then .ok (s, ip)
  else do
    let (addr, s, ip) ← bmap L s ip (off / BSIZE)
    let m := min n (BSIZE - off % BSIZE)
    let s := s.logWrite addr ((s.disk addr).blit (off % BSIZE) m src)
    writeiLoop L s ip (fun i => src (m + i)) (off + m) (n - m)
termination_by n
decreasing_by have := BSIZE_eq; have := Nat.mod_lt off (show 0 < BSIZE by decide); omega

def writei (L : Lab) (s : State) (ip : Inode) (src : ℕ → UInt8) (off n : ℕ) :
    Except Panic (ℤ × State × Inode) :=
  if ip.type = T_DEV then
    if NDEV ≤ ip.major then .ok (-1, s, ip)
    else match (s.devsw ip.major).write with
      | none => .ok (-1, s, ip)
      | some f => .ok (f src n, s, ip)
  else if ip.size < off ∨ (off + n) % 2 ^ 32 < off then .ok (-1, s, ip)
  else if L.MAXFILE * BSIZE < (off + n) % 2 ^ 32 then .ok (-1, s, ip)
  else do
    let (s, ip) ← writeiLoop L s ip src off n
    if 0 < n ∧ ip.size < off + n then
      let ip := { ip with size := off + n }
      .ok (n, iupdate s ip, ip)
    else .ok (n, s, ip)

/-! Directories. -/

/-- The C string whose bytes before the terminator are `l`. -/
def cstr (l : List UInt8) (i : ℕ) : UInt8 := l.getD i 0

/-- `strncmp(p, q, n)` -/
def strncmp (p q : ℕ → UInt8) : ℕ → ℤ
  | 0 => 0
  | n + 1 =>
    if p 0 ≠ 0 ∧ p 0 = q 0 then strncmp (fun i => p (i + 1)) (fun i => q (i + 1)) n
    else (p 0).toNat - (q 0).toNat

def namecmp (s t : ℕ → UInt8) : ℤ := strncmp s t DIRSIZ

/-- `sizeof(struct dirent)` -/
def DIRENT : ℕ := 2 + DIRSIZ

def direntInum (de : List UInt8) : ℕ := (cstr de 0).toNat + 256 * (cstr de 1).toNat

def direntName (de : List UInt8) (i : ℕ) : UInt8 := cstr de (2 + i)

/-- The loop of `dirlookup` from offset `off`: the inode number and the offset of the entry. -/
def dirlookupLoop (L : Lab) (s : State) (dp : Inode) (name : ℕ → UInt8) (off : ℕ) :
    ℕ → Except Panic (Option (ℕ × ℕ) × State × Inode)
  | 0 => .ok (none, s, dp)
  | fuel + 1 =>
    if off < dp.size then do
      let (n, de, s, dp) ← readi L s dp off DIRENT
      if n ≠ DIRENT then .error .dirlookupRead
      else if direntInum de ≠ 0 ∧ namecmp name (direntName de) = 0 then
        .ok (some (direntInum de, off), s, dp)
      else dirlookupLoop L s dp name (off + DIRENT) fuel
    else .ok (none, s, dp)

/-- Look for a directory entry in a directory. Each pass advances `off` by a whole entry, so
`dp->size` passes are more than the loop makes. -/
def dirlookup (L : Lab) (s : State) (dp : Inode) (name : ℕ → UInt8) :
    Except Panic (Option (ℕ × ℕ) × State × Inode) :=
  if dp.type ≠ T_DIR then .error .notDir
  else dirlookupLoop L s dp name 0 dp.size

end LearnXv6.Fs.Kernel
