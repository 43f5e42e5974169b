import LearnXv6.Log.Model

/-! `filewrite` of `file.c` and what it needs of `fs.c`, as programs over the log. -/
namespace LearnXv6.Log
open Store Fs Fs.Kernel

variable (sb : Superblock)

/-! Blocks. -/

def bzero (b : ℕ) : Proc Unit := do
  let _ ← bread b
  setData b 0
  logWrite b
  brelse b

/-- The loop of `balloc`, over the first block of each bitmap block. -/
def ballocLoop : List ℕ → Proc ℕ
  | [] => panic .outOfBlocks
  | b :: bs => do
    let bp ← bread (sb.bblock b)
    match (List.range BPB).find? fun bi => b + bi < sb.size && !bp.bit bi with
    | some bi =>
      setData (sb.bblock b) (bp.setBit bi)
      logWrite (sb.bblock b)
      brelse (sb.bblock b)
      bzero (b + bi)
      return b + bi
    | none =>
      brelse (sb.bblock b)
      ballocLoop bs

def balloc : Proc ℕ := ballocLoop sb ((List.range ((sb.size + BPB - 1) / BPB)).map (· * BPB))

/-! Inodes. A process that has locked an inode has the copy of the cache to itself. -/

/-- The in-memory copy of a dinode. -/
def ofDinode (inum : ℕ) (dip : Dinode) : Inode :=
  ⟨inum, dip.type, dip.major, dip.minor, dip.nlink, dip.size, dip.addrs⟩

def iupdate (ip : Inode) : Proc Unit := do
  let bp ← bread (sb.iblock ip.inum)
  setData (sb.iblock ip.inum) (Dinode.write bp (ip.inum % IPB) ip.dinode)
  logWrite (sb.iblock ip.inum)
  brelse (sb.iblock ip.inum)

/-- Lock the given inode, and read it from disk if necessary. -/
def ilock (inum : ℕ) : Proc Inode := do
  let e : Icache ← perform (.iacquire inum)
  if e.valid then return e.ip
  else
    let bp ← bread (sb.iblock inum)
    let ip := ofDinode inum (Dinode.read bp (inum % IPB))
    brelse (sb.iblock inum)
    perform (.isetIp inum ip)
    if ip.type = 0 then panic .ilockNoType
    else return ip

def iunlock (inum : ℕ) : Proc Unit := perform (.irelease inum)

def addrEntry (ip : Inode) (k : ℕ) : Proc (ℕ × Inode) :=
  if ip.addrs k = 0 then do
    let addr ← balloc sb
    perform (.isetIp ip.inum (ip.setAddr k addr))
    return (addr, ip.setAddr k addr)
  else return (ip.addrs k, ip)

def indirectEntry (bno k : ℕ) : Proc ℕ := do
  let bp ← bread bno
  if bp.word k = 0 then
    let addr ← balloc sb
    setData bno (bp.setWord k addr)
    logWrite bno
    brelse bno
    return addr
  else
    brelse bno
    return bp.word k

def bmap (ip : Inode) (bn : ℕ) : Proc (ℕ × Inode) :=
  if bn < Lab.stock.NDIRECT then addrEntry sb ip bn
  else if bn - Lab.stock.NDIRECT < NINDIRECT then do
    let (addr, ip) ← addrEntry sb ip Lab.stock.NDIRECT
    let addr ← indirectEntry sb addr (bn - Lab.stock.NDIRECT)
    return (addr, ip)
  else panic .bmapOutOfRange

/-! Inode content. -/

def writeiLoop (ip : Inode) (src : ℕ → UInt8) (off n : ℕ) : Proc Inode :=
  if n = 0 then return ip
  else do
    let (addr, ip) ← bmap sb ip (off / BSIZE)
    let bp ← bread addr
    let m := min n (BSIZE - off % BSIZE)
    setData addr (bp.blit (off % BSIZE) m src)
    logWrite addr
    brelse addr
    writeiLoop ip (fun i => src (m + i)) (off + m) (n - m)
termination_by n
decreasing_by have := Fs.BSIZE_eq; have := Nat.mod_lt off (show 0 < BSIZE by decide); omega

/-- The `write` entries of `devsw`, with the count they return. -/
abbrev Devsw := ℕ → Option ((ℕ → UInt8) → ℕ → ℤ)

def writei (devsw : Devsw) (ip : Inode) (src : ℕ → UInt8) (off n : ℕ) : Proc ℤ :=
  if ip.type = T_DEV then
    if NDEV ≤ ip.major then return -1
    else match devsw ip.major with
      | none => return -1
      | some f => return f src n
  else if ip.size < off ∨ (off + n) % 2 ^ 32 < off then return -1
  else if Lab.stock.MAXFILE * BSIZE < (off + n) % 2 ^ 32 then return -1
  else do
    let ip ← writeiLoop sb ip src off n
    if 0 < n ∧ ip.size < off + n then
      perform (.isetIp ip.inum { ip with size := off + n })
      iupdate sb { ip with size := off + n }
      return n
    else return n

/-! `file.c` -/

/-- `int max = ((LOGSIZE-1-1-2) / 2) * 512` -/
def maxChunk : ℕ := (LOGSIZE - 1 - 1 - 2) / 2 * 512

/-- The transaction of one chunk. -/
def writeChunk (devsw : Devsw) (inum : ℕ) (src : ℕ → UInt8) (off n1 : ℕ) : Proc ℤ := do
  beginOp
  let ip ← ilock sb inum
  let r ← writei sb devsw ip src off n1
  iunlock inum
  endOp sb
  return r

/-- The loop of `filewrite`, with `n` the bytes that remain: whether it writes all of them, and
`f->off` after it. -/
def filewriteLoop (devsw : Devsw) (inum : ℕ) (src : ℕ → UInt8) (off n : ℕ) : Proc (Bool × ℕ) :=
  if n = 0 then return (true, off)
  else do
    let n1 := min n maxChunk
    let r ← writeChunk sb devsw inum src off n1
    if r < 0 then return (false, off)
    else if r ≠ n1 then panic .shortFilewrite
    else filewriteLoop devsw inum (fun i => src (n1 + i)) (off + n1) (n - n1)
termination_by n
decreasing_by have : 0 < maxChunk := by decide
              omega

/-- Write to the file of inode `inum`, open at offset `off`: the result and the new offset. -/
def filewrite (devsw : Devsw) (inum : ℕ) (src : ℕ → UInt8) (off n : ℕ) : Proc (ℤ × ℕ) := do
  let (all, off) ← filewriteLoop sb devsw inum src off n
  return (if all then (n : ℤ) else -1, off)

end LearnXv6.Log
