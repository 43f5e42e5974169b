import LearnXv6.Fs.Kernel
import LearnXv6.Store.Run

/-! The checksum lab: `fs.c` with the files of type T_CHECKED, whose block addresses carry a checksum
byte. -/
namespace LearnXv6.Checksum
open Fs Fs.Kernel

def T_CHECKED : ℕ := 4

def NDIRECT : ℕ := Lab.stock.NDIRECT

def MAXFILE : ℕ := Lab.stock.MAXFILE

/-- The size of the disk, which `mkfs` puts into the super block. -/
def FSSIZE : ℕ := Lab.stock.FSSIZE

/-- `0x00ffffff & w` -/
def mask (w : ℕ) : ℕ := w % 2 ^ 24

/-- Return the disk block address of the nth block in inode ip, allocating it if needed: the stock
function, with the checksum taken off the entry that it finds. -/
def bmap (s : State) (ip : Inode) (bn : ℕ) : Except Panic (ℕ × State × Inode) := do
  let (addr, s, ip) ← Kernel.bmap .stock s ip bn
  .ok (if ip.type = T_CHECKED then mask addr else addr, s, ip)

/-! The checksum. -/

/-- `(uint)*data` for a `char` that has a sign. -/
def extend (c : UInt8) : BitVec 32 := c.toBitVec.signExtend 32

/-- The loop over the bytes of the block, the same in `readi` and `writei`. -/
def checksum (b : Block) : BitVec 32 :=
  (List.range BSIZE).foldl (fun checksum i => checksum ^^^ extend (b.byte i)) 0

/-- `block + (checksum << 24)` -/
def pack (block : ℕ) (checksum : BitVec 32) : ℕ := (block + (checksum <<< 24).toNat) % 2 ^ 32

/-- The loop over the direct entries, the same in `readi` and `writei`. -/
def findDirect (ip : Inode) (block : ℕ) : Option ℕ :=
  (List.range NDIRECT).find? fun i => mask (ip.addrs i) = block

/-- The entry in which `readi` looks for the checksum. In the index block its pointer stays on the first
entry. -/
def findEntry (s : State) (ip : Inode) (block : ℕ) : ℕ :=
  match findDirect ip block with
  | some i => ip.addrs i
  | none =>
    if ip.addrs NDIRECT ≠ 0 then
      (List.range NINDIRECT).foldl (fun addr _ =>
        let ptr := s.word (ip.addrs NDIRECT) 0
        if mask ptr = block then ptr else addr) 0
    else 0

def setEntry (s : State) (ip : Inode) (block : ℕ) (checksum : BitVec 32) : State × Inode :=
  match findDirect ip block with
  | some blockNum => (s, ip.setAddr blockNum (pack block checksum))
  | none =>
    let bno := ip.addrs NDIRECT
    match (List.range NINDIRECT).find? fun i => mask (s.word bno i) = block with
    | some i => (s.logWrite bno ((s.disk bno).setWord i (pack block checksum)), ip)
    | none => (s, ip)

/-! Inode content. -/

/-- What `readi` returns and copies to `dst`, and the buffers that it leaves locked. -/
structure Read where
  count : ℤ
  data : List UInt8
  locked : List ℕ
  s : State
  ip : Inode

/-- The loop of `readi`, with `n` the bytes that remain; `count` is what it returns at the end. -/
def readiLoop (count : ℕ) (s : State) (ip : Inode) (off n : ℕ) : Except Panic Read :=
  if n = 0 then .ok ⟨count, [], [], s, ip⟩
  else do
    let (block, s, ip) ← bmap s ip (off / BSIZE)
    let (bno, s, ip) ← bmap s ip (off / BSIZE)
    let bp := s.disk bno
    let m := min n (BSIZE - off % BSIZE)
    if ip.type = T_CHECKED then
      let old := findEntry s ip block / 2 ^ 24
      .ok ⟨if (checksum bp).toNat = old then 1 else -1, [], [bno], s, ip⟩
    else
      let data := (List.range m).map fun i => bp.byte (off % BSIZE + i)
      let r ← readiLoop count s ip (off + m) (n - m)
      .ok { r with data := data ++ r.data }
termination_by n
decreasing_by have := BSIZE_eq; have := Nat.mod_lt off (show 0 < BSIZE by decide); omega

def readi (s : State) (ip : Inode) (off n : ℕ) : Except Panic Read :=
  if ip.type = T_DEV then
    if NDEV ≤ ip.major then .ok ⟨-1, [], [], s, ip⟩
    else match (s.devsw ip.major).read with
      | none => .ok ⟨-1, [], [], s, ip⟩
      | some f => .ok ⟨(f n).1, (f n).2, [], s, ip⟩
  else if ip.size < off ∨ (off + n) % 2 ^ 32 < off then .ok ⟨-1, [], [], s, ip⟩
  else
    let n := if ip.size < (off + n) % 2 ^ 32 then ip.size - off else n
    readiLoop n s ip off n

/-- One pass of the loop of `writei`, which writes `m` bytes into one block. -/
def writeBlock (s : State) (ip : Inode) (src : ℕ → UInt8) (off m : ℕ) :
    Except Panic (State × Inode) := do
  let (block, s, ip) ← bmap s ip (off / BSIZE)
  let (bno, s, ip) ← bmap s ip (off / BSIZE)
  let bp := (s.disk bno).blit (off % BSIZE) m src
  let (s, ip) := if ip.type = T_CHECKED then setEntry s ip block (checksum bp) else (s, ip)
  .ok (s.logWrite bno bp, ip)

def writeiLoop (s : State) (ip : Inode) (src : ℕ → UInt8) (off n : ℕ) :
    Except Panic (State × Inode) :=
  if n = 0 then .ok (s, ip)
  else do
    let m := min n (BSIZE - off % BSIZE)
    let (s, ip) ← writeBlock s ip src off m
    writeiLoop s ip (fun i => src (m + i)) (off + m) (n - m)
termination_by n
decreasing_by have := BSIZE_eq; have := Nat.mod_lt off (show 0 < BSIZE by decide); omega

def writei (s : State) (ip : Inode) (src : ℕ → UInt8) (off n : ℕ) :
    Except Panic (ℤ × State × Inode) :=
  if ip.type = T_DEV then
    if NDEV ≤ ip.major then .ok (-1, s, ip)
    else match (s.devsw ip.major).write with
      | none => .ok (-1, s, ip)
      | some f => .ok (f src n, s, ip)
  else if ip.size < off ∨ (off + n) % 2 ^ 32 < off then .ok (-1, s, ip)
  else if MAXFILE * BSIZE < (off + n) % 2 ^ 32 then .ok (-1, s, ip)
  else do
    let (s, ip) ← writeiLoop s ip src off n
    if 0 < n ∧ ip.size < off + n then
      let ip := { ip with size := off + n }
      .ok (n, iupdate s ip, ip)
    else .ok (n, s, ip)

/-! Truncation. -/

/-- The panics of `fs.c`, and that of `idestart` for a block outside the disk. -/
inductive Fault where
  | panic (e : Panic)
  | incorrectBlockno (b : ℕ)
  deriving DecidableEq

def bfree (s : State) (b : ℕ) : Except Fault State :=
  let sb := Superblock.read (s.disk 1)
  if FSSIZE ≤ sb.bblock b then .error (.incorrectBlockno (sb.bblock b))
  else match Kernel.bfree s b with
    | .ok s => .ok s
    | .error e => .error (.panic e)

def bfreeNonzero (s : State) (b : ℕ) : Except Fault State :=
  if b ≠ 0 then bfree s b else .ok s

def freeDirect (s : State) (ip : Inode) (i : ℕ) : Except Fault (State × Inode) :=
  if ip.addrs i ≠ 0 then do
    let s ← bfree s (ip.addrs i)
    .ok (s, ip.setAddr i 0)
  else .ok (s, ip)

/-- Truncate inode: the stock text, which takes the entries as they are. -/
def itrunc (s : State) (ip : Inode) : Except Fault (State × Inode) := do
  let (s, ip) ← (List.range NDIRECT).foldlM (fun (s, ip) i => freeDirect s ip i) (s, ip)
  let (s, ip) ←
    if ip.addrs NDIRECT ≠ 0 then do
      let s ← (List.range NINDIRECT).foldlM
        (fun s j => bfreeNonzero s (s.word (ip.addrs NDIRECT) j)) s
      let s ← bfree s (ip.addrs NDIRECT)
      pure (s, ip.setAddr NDIRECT 0)
    else pure (s, ip)
  let ip := { ip with size := 0 }
  .ok (iupdate s ip, ip)

/-! Runs of `writei` on one inode. -/

/-- A call of `writei`; offsets and counts are `uint`. -/
structure Write where
  src : ℕ → UInt8
  off : UInt32
  n : UInt32

/-- One call, and what it has written if it succeeds. -/
def step (w : Write) (x : State × Inode) : Except Panic ((State × Inode) × List Write) := do
  let (r, s, ip) ← writei x.1 x.2 w.src w.off.toNat w.n.toNat
  .ok ((s, ip), if r < 0 then [] else [w])

end LearnXv6.Checksum
