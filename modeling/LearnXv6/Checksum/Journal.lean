import LearnXv6.Checksum.File
import LearnXv6.Log.Inside

/-! `writei` of the lab over the log: the buffers that it writes with `bwrite`, past the log. -/
namespace LearnXv6.Checksum.Journal
open Store Fs
open Fs.Kernel (Inode NDEV)
open Log

variable (sb : Superblock)

def bmap (ip : Inode) (bn : ℕ) : Proc (ℕ × Inode) := do
  let (addr, ip) ← Log.bmap sb ip bn
  return (if ip.type = T_CHECKED then mask addr else addr, ip)

/-- The index block with the checksum in the entry of `block`. -/
def patch (buf : Block) (block : ℕ) (checksum : BitVec 32) : Block :=
  match (List.range NINDIRECT).find? fun i => mask (buf.word i) = block with
  | some i => buf.setWord i (pack block checksum)
  | none => buf

/-- Where `writei` puts the checksum. The index block goes to the disk at once, and not to the log. -/
def setEntry (ip : Inode) (block : ℕ) (checksum : BitVec 32) : Proc Inode :=
  match findDirect ip block with
  | some blockNum => do
    perform (.isetIp ip.inum (ip.setAddr blockNum (pack block checksum)))
    return ip.setAddr blockNum (pack block checksum)
  | none => do
    let buf ← bread (ip.addrs NDIRECT)
    setData (ip.addrs NDIRECT) (patch buf block checksum)
    bwrite (ip.addrs NDIRECT)
    brelse (ip.addrs NDIRECT)
    return ip

/-- The first half of a pass: the buffer of the block with the `m` new bytes, and its checksum. -/
def fillBlock (ip : Inode) (src : ℕ → UInt8) (off m : ℕ) : Proc (ℕ × Inode) := do
  let (block, ip) ← bmap sb ip (off / BSIZE)
  let (bno, ip) ← bmap sb ip (off / BSIZE)
  let bp ← bread bno
  let bp := bp.blit (off % BSIZE) m src
  setData bno bp
  if ip.type = T_CHECKED then do
    let ip ← setEntry ip block (checksum bp)
    return (bno, ip)
  else return (bno, ip)

/-- One pass of the loop of `writei`: `log_write(bp); bwrite(bp); brelse(bp);` -/
def writeBlock (ip : Inode) (src : ℕ → UInt8) (off m : ℕ) : Proc Inode := do
  let (bno, ip) ← fillBlock sb ip src off m
  logWrite bno
  bwrite bno
  brelse bno
  return ip

def writeiLoop (ip : Inode) (src : ℕ → UInt8) (off n : ℕ) : Proc Inode :=
  if n = 0 then return ip
  else do
    let m := min n (BSIZE - off % BSIZE)
    let ip ← writeBlock sb ip src off m
    writeiLoop ip (fun i => src (m + i)) (off + m) (n - m)
termination_by n
decreasing_by have := BSIZE_eq; have := Nat.mod_lt off (show 0 < BSIZE by decide); omega

def writei (devsw : Devsw) (ip : Inode) (src : ℕ → UInt8) (off n : ℕ) : Proc ℤ :=
  if ip.type = T_DEV then
    if NDEV ≤ ip.major then return -1
    else match devsw ip.major with
      | none => return -1
      | some f => return f src n
  else if ip.size < off ∨ (off + n) % 2 ^ 32 < off then return -1
  else if MAXFILE * BSIZE < (off + n) % 2 ^ 32 then return -1
  else do
    let ip ← writeiLoop sb ip src off n
    if 0 < n ∧ ip.size < off + n then
      perform (.isetIp ip.inum { ip with size := off + n })
      Log.iupdate sb { ip with size := off + n }
      return n
    else return n

end LearnXv6.Checksum.Journal
