import LearnXv6.Store.Program
import LearnXv6.Fs.Mkfs
import LearnXv6.Log.Bio

/-! `log.c` as programs over the critical sections of `bio.c` and `log.c`. -/
namespace LearnXv6.Log
open Store Fs Fs.Kernel

/-- The super block of the stock file system. -/
abbrev stock : Superblock := Fs.Mkfs.sb .stock

/-- `struct log` without the constants of the super block; `lh` lists `lh.block[0..lh.n)`. -/
structure LogState where
  lh : List ℕ
  outstanding : ℕ
  committing : Bool

/-- An entry of the inode cache. -/
structure Icache where
  ip : Inode
  valid : Bool
  locked : Bool

structure State where
  disk : Disk
  bcache : List Buf
  log : LogState
  icache : ℕ → Icache

def State.setIcache (s : State) (inum : ℕ) (e : Icache) : State :=
  { s with icache := Function.update s.icache inum e }

inductive Panic where
  | noBuffers | bwrite | brelse | tooBigTransaction | outsideTrans | logCommitting | headerOverflow
  | outOfBlocks | bmapOutOfRange | ilockNoType | shortFilewrite
  deriving DecidableEq, Repr

/-- Why an operation does not return: the process sleeps, or the kernel panics. -/
inductive Stop where
  | sleep
  | panic (e : Panic)
  deriving DecidableEq, Repr

/-- The operations, each under one lock or on a buffer or inode that the process has locked. -/
inductive Op where
  | bget (b : ℕ)
  | acquire (b : ℕ)
  | setData (b : ℕ) (v : Block)
  | bwrite (b : ℕ)
  | unlock (b : ℕ)
  | unref (b : ℕ)
  | logCheck
  | logAppend (b : ℕ)
  | beginOp
  | endOp
  | readLh
  | setLh (l : List ℕ)
  | endCommit
  | iacquire (inum : ℕ)
  | isetIp (inum : ℕ) (ip : Inode)
  | irelease (inum : ℕ)
  | panic (e : Panic)

def Op.Ret : Op → Type
  | .acquire _ => Block
  | .endOp => Bool
  | .readLh => List ℕ
  | .iacquire _ => Icache
  | .panic _ => Empty
  | _ => Unit

abbrev Proc := Prog Op Op.Ret

def perform (o : Op) : Proc o.Ret := Prog.perform o

variable (sb : Superblock)

def exec : (o : Op) → State → Except Stop (o.Ret × State)
  | .bget b, s =>
    match bget s.bcache b with
    | some c => .ok ((), { s with bcache := c })
    | none => .error (.panic .noBuffers)
  | .acquire b, s =>
    match entry s.bcache b with
    | some x =>
      if x.locked then .error .sleep
      else
        let data := if x.valid then x.data else s.disk b
        .ok (data, { s with bcache := modify s.bcache b (Buf.fill data) })
    | none => .error .sleep
  | .setData b v, s =>
    .ok ((), { s with bcache := modify s.bcache b (Buf.setData v) })
  | .bwrite b, s =>
    match entry s.bcache b with
    | some x =>
      if x.locked then
        let c := modify s.bcache b Buf.written
        .ok ((), { s with disk := Function.update s.disk b x.data, bcache := c })
      else .error (.panic .bwrite)
    | none => .error (.panic .bwrite)
  | .unlock b, s =>
    match entry s.bcache b with
    | some x =>
      if x.locked then
        .ok ((), { s with bcache := modify s.bcache b Buf.unlock })
      else .error (.panic .brelse)
    | none => .error (.panic .brelse)
  | .unref b, s => .ok ((), { s with bcache := release s.bcache b })
  | .logCheck, s =>
    if LOGSIZE ≤ s.log.lh.length ∨ sb.nlog ≤ s.log.lh.length + 1 then
      .error (.panic .tooBigTransaction)
    else if s.log.outstanding < 1 then .error (.panic .outsideTrans)
    else .ok ((), s)
  | .logAppend b, s =>
    let lh := if b ∈ s.log.lh then s.log.lh else s.log.lh ++ [b]
    let c := modify s.bcache b Buf.pin
    .ok ((), { s with log := { s.log with lh := lh }, bcache := c })
  | .beginOp, s =>
    if s.log.committing then .error .sleep
    else if LOGSIZE < s.log.lh.length + (s.log.outstanding + 1) * MAXOPBLOCKS then .error .sleep
    else .ok ((), { s with log := { s.log with outstanding := s.log.outstanding + 1 } })
  | .endOp, s =>
    if s.log.committing then .error (.panic .logCommitting)
    else
      let outstanding := s.log.outstanding - 1
      let doCommit := decide (outstanding = 0)
      .ok (doCommit, { s with log := ⟨s.log.lh, outstanding, doCommit⟩ })
  | .readLh, s => .ok (s.log.lh, s)
  | .setLh l, s => .ok ((), { s with log := { s.log with lh := l } })
  | .endCommit, s => .ok ((), { s with log := { s.log with committing := false } })
  | .iacquire inum, s =>
    if (s.icache inum).locked then .error .sleep
    else .ok (s.icache inum, s.setIcache inum { s.icache inum with locked := true })
  | .isetIp inum ip, s => .ok ((), s.setIcache inum { s.icache inum with ip := ip, valid := true })
  | .irelease inum, s => .ok ((), s.setIcache inum { s.icache inum with locked := false })
  | .panic e, _ => .error (.panic e)

/-! `bio.c` -/

def bread (b : ℕ) : Proc Block := do
  perform (.bget b)
  perform (.acquire b)

def setData (b : ℕ) (v : Block) : Proc Unit := perform (.setData b v)

def bwrite (b : ℕ) : Proc Unit := perform (.bwrite b)

def brelse (b : ℕ) : Proc Unit := do
  perform (.unlock b)
  perform (.unref b)

def panic {α : Type} (e : Panic) : Proc α := .op (.panic e) fun r => r.elim

/-! `log.c` -/

def logWrite (b : ℕ) : Proc Unit := do
  perform .logCheck
  perform (.logAppend b)

/-- The header that `write_head` makes of the buffer `hb`. -/
def header (hb : Block) (l : List ℕ) : Block :=
  (List.range l.length).foldl (fun v i => v.setWord (i + 1) (l.getD i 0)) (hb.setWord 0 l.length)

/-- The block numbers in a header. The count is an `int`, and a negative one stops every loop. -/
def logged (hb : Block) : List ℕ :=
  let n := if hb.word 0 < 2 ^ 31 then hb.word 0 else 0
  (List.range n).map fun i => hb.word (i + 1)

def readHead : Proc Unit := do
  let buf ← bread sb.logstart
  if LOGSIZE < (logged buf).length then panic .headerOverflow
  else
    perform (.setLh (logged buf))
    brelse sb.logstart

def writeHead : Proc Unit := do
  let buf ← bread sb.logstart
  let l ← perform .readLh
  setData sb.logstart (header buf l)
  bwrite sb.logstart
  brelse sb.logstart

/-- Copy one block from the log to its home. -/
def installBlock (tail home : ℕ) : Proc Unit := do
  let lbuf ← bread (sb.logstart + tail + 1)
  let _ ← bread home
  setData home lbuf
  bwrite home
  brelse (sb.logstart + tail + 1)
  brelse home

def installTrans : Proc Unit := do
  let l ← perform .readLh
  (List.range l.length).forM fun tail => installBlock sb tail (l.getD tail 0)

/-- Copy one block from the cache to the log. -/
def logBlock (tail home : ℕ) : Proc Unit := do
  let _ ← bread (sb.logstart + tail + 1)
  let data ← bread home
  setData (sb.logstart + tail + 1) data
  bwrite (sb.logstart + tail + 1)
  brelse home
  brelse (sb.logstart + tail + 1)

def writeLog : Proc Unit := do
  let l ← perform .readLh
  (List.range l.length).forM fun tail => logBlock sb tail (l.getD tail 0)

def commit : Proc Unit := do
  let l ← perform .readLh
  if 0 < l.length then
    writeLog sb
    writeHead sb
    installTrans sb
    perform (.setLh [])
    writeHead sb

def beginOp : Proc Unit := perform .beginOp

def endOp : Proc Unit := do
  let doCommit : Bool ← perform .endOp
  if doCommit then
    commit sb
    perform .endCommit

def recoverFromLog : Proc Unit := do
  readHead sb
  installTrans sb
  perform (.setLh [])
  writeHead sb

end LearnXv6.Log
