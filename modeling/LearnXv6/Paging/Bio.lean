import LearnXv6.Store.Memory
import LearnXv6.Store.Run

/-! The buffer cache of the disk-paging lab with its three replacement policies, over the IDE driver.
Each action is a stretch of code under one lock. -/
namespace LearnXv6.Paging
open Store

def NBUF : ℕ := 30
def FSSIZE : ℕ := 1000

abbrev Index := Fin NBUF

instance : NeZero NBUF := ⟨by decide⟩

/-- A block: its device and its number. -/
abbrev Key := ℕ × ℕ

/-- `struct buf`, with the flags `B_VALID` and `B_DIRTY`. -/
structure Buf (δ : Type) where
  valid : Bool
  dirty : Bool
  block : Key
  locked : Bool
  refcnt : ℕ
  data : δ

/-- Which `bget` is compiled. -/
inductive Policy where
  | DEFAULT | RANDOM | FIFO
  deriving DecidableEq, Repr

structure Generator where
  z1 : BitVec 32
  z2 : BitVec 32
  z3 : BitVec 32
  z4 : BitVec 32

/-- `random(max)`: at most `max - 1`, and not negative. -/
def random (max : ℤ) (g : Generator) : ℤ × Generator :=
  if max ≤ 0 then (1, g)
  else
    let b1 := ((g.z1 <<< 6) ^^^ g.z1).sshiftRight 13
    let z1 := ((g.z1 &&& 4294967294#32) <<< 18) ^^^ b1
    let b2 := ((g.z2 <<< 2) ^^^ g.z2).sshiftRight 27
    let z2 := ((g.z2 &&& 4294967288#32) <<< 2) ^^^ b2
    let b3 := ((g.z3 <<< 13) ^^^ g.z3).sshiftRight 21
    let z3 := ((g.z3 &&& 4294967280#32) <<< 7) ^^^ b3
    let b4 := ((g.z4 <<< 3) ^^^ g.z4).sshiftRight 12
    let z4 := ((g.z4 &&& 4294967168#32) <<< 13) ^^^ b4
    let rand := (z1 ^^^ z2 ^^^ z3 ^^^ z4).toInt.tmod max
    (if rand < 0 then rand * -1 else rand, ⟨z1, z2, z3, z4⟩)

/-- How far the use of one buffer has come. A process that has several buffers at once uses each of them
separately. -/
inductive Phase where
  | out
  /-- `bget` has found the buffer, and waits for its lock -/
  | waiting (i : Index) (k : Key)
  | locked (i : Index) (k : Key)
  /-- in `iderw`, for `bread` -/
  | reading (i : Index) (k : Key)
  /-- `bread` has returned; tells whether the data are as last read or stored -/
  | holding (i : Index) (stored : Bool)
  /-- in `iderw`, for `bwrite` -/
  | writing (i : Index)
  /-- in `brelse`, without the lock of the buffer -/
  | releasing (i : Index)
  deriving DecidableEq, Repr

structure State (τ δ : Type) where
  buf : Index → Buf δ
  /-- the buffers from `bcache.head.next` on -/
  order : List Index
  pos : ℕ
  gen : Generator
  idequeue : List Index
  havedisk1 : Bool
  disk : Key → δ
  phase : τ → Phase

inductive Stop where
  | disabled
  | panic
  deriving DecidableEq, Repr

inductive Event (δ : Type) where
  /-- a buffer is given to another block, with what it was before -/
  | recycled (i : Index) (refcnt : ℕ) (dirty : Bool)
  /-- `bget` takes the buffer for the block -/
  | got (i : Index) (k : Key)
  /-- `bread` returns, or `bwrite` or `log_write` is called -/
  | access (a : Access Key δ)

inductive Action (τ δ : Type) where
  | bget (t : τ) (k : Key)
  | acquiresleep (t : τ)
  | bread (t : τ)
  | wake (t : τ)
  | modify (t : τ) (v : δ)
  | bwrite (t : τ)
  | logWrite (t : τ)
  | brelse (t : τ)
  | unref (t : τ)
  | ideintr

variable {τ δ : Type}

/-- The condition under which the default `bget` recycles a buffer. -/
def Buf.unused (b : Buf δ) : Prop := b.refcnt = 0 ∧ b.dirty = false

instance (b : Buf δ) : Decidable b.unused := inferInstanceAs (Decidable (_ ∧ _))

/-- `uint` arithmetic: there are fewer processes than values of a `uint`. -/
def Buf.unref (b : Buf δ) : Buf δ :=
  { b with refcnt := if b.refcnt = 0 then 2 ^ 32 - 1 else b.refcnt - 1 }

def State.set (s : State τ δ) (i : Index) (b : Buf δ) : State τ δ :=
  { s with buf := Function.update s.buf i b }

def State.goto [DecidableEq τ] (s : State τ δ) (t : τ) (p : Phase) : State τ δ :=
  { s with phase := Function.update s.phase t p }

/-- The first loop of `bget`. -/
def State.cached (s : State τ δ) (k : Key) : Option Index :=
  s.order.find? fun i => (s.buf i).block = k

/-- The buffer that the second loop of `bget` finds, from `bcache.head.prev` on. -/
def victim (policy : Policy) (s : State τ δ) : Option Index × State τ δ :=
  match policy with
  | .DEFAULT => (s.order.reverse.find? fun i => (s.buf i).unused, s)
  | .RANDOM =>
    let (vittima, gen) := random NBUF s.gen
    (s.order.reverse.find? fun i => (i.val : ℤ) = vittima, { s with gen := gen })
  | .FIFO =>
    match s.order.reverse.find? fun i => i.val = s.pos - 1 with
    | some i => (some i, { s with pos := if s.pos - 1 = 0 then NBUF else s.pos - 1 })
    | none => (none, s)

section Functions

variable [DecidableEq τ]

def bget (policy : Policy) (t : τ) (k : Key) (s : State τ δ) :
    Except Stop (State τ δ × List (Event δ)) :=
  match s.cached k with
  | some i =>
    .ok ((s.set i { s.buf i with refcnt := (s.buf i).refcnt + 1 }).goto t (.waiting i k), [.got i k])
  | none =>
    match victim policy s with
    | (some i, s') =>
      .ok ((s'.set i { s.buf i with block := k, valid := false, dirty := false, refcnt := 1 }).goto t
        (.waiting i k), [.recycled i (s.buf i).refcnt (s.buf i).dirty, .got i k])
    | (none, _) => .error .panic

/-- Where the driver finds a block: it knows two disks. -/
def sector (k : Key) : Key := (k.1 % 2, k.2)

/-- `idestart`; a write takes effect at once. -/
def idestart (i : Index) (s : State τ δ) : Except Stop (State τ δ) :=
  let b := s.buf i
  if b.block.2 ≥ FSSIZE then .error .panic
  else if b.dirty then .ok { s with disk := Function.update s.disk (sector b.block) b.data }
  else .ok s

/-- `iderw` up to the wait for the request. -/
def iderw (i : Index) (s : State τ δ) : Except Stop (State τ δ) :=
  let b := s.buf i
  if b.locked = false then .error .panic
  else if b.valid ∧ b.dirty = false then .error .panic
  else if b.block.1 ≠ 0 ∧ s.havedisk1 = false then .error .panic
  else
    let s' := { s with idequeue := s.idequeue ++ [i] }
    if s.idequeue = [] then idestart i s' else .ok s'

def ideintr (s : State τ δ) : Except Stop (State τ δ) :=
  match s.idequeue with
  | [] => .ok s
  | i :: rest =>
    let b := s.buf i
    let data := if b.dirty then b.data else s.disk (sector b.block)
    let s' := { s.set i { b with data := data, valid := true, dirty := false } with idequeue := rest }
    match rest with
    | [] => .ok s'
    | j :: _ => idestart j s'

/-- `bread` with its buffer locked. -/
def bread (t : τ) (i : Index) (k : Key) (s : State τ δ) :
    Except Stop (State τ δ × List (Event δ)) :=
  if (s.buf i).valid then .ok (s.goto t (.holding i true), [.access (.load k (s.buf i).data)])
  else
    match iderw i s with
    | .ok s' => .ok (s'.goto t (.reading i k), [])
    | .error e => .error e

/-- The end of the wait in `iderw`. -/
def finished (b : Buf δ) : Prop := b.valid = true ∧ b.dirty = false

instance (b : Buf δ) : Decidable (finished b) := inferInstanceAs (Decidable (_ ∧ _))

def bwrite (t : τ) (i : Index) (s : State τ δ) : Except Stop (State τ δ × List (Event δ)) :=
  let b := s.buf i
  if b.locked = false then .error .panic
  else
    match iderw i (s.set i { b with dirty := true }) with
    | .ok s' => .ok (s'.goto t (.writing i), [.access (.store b.block b.data)])
    | .error e => .error e

/-- What `log_write` does to the buffer. -/
def logWrite (t : τ) (i : Index) (s : State τ δ) : State τ δ × List (Event δ) :=
  let b := s.buf i
  ((s.set i { b with dirty := true }).goto t (.holding i true), [.access (.store b.block b.data)])

/-- The second half of `brelse`: the buffer moves to the head with its last reference. -/
def unref (t : τ) (i : Index) (s : State τ δ) : State τ δ :=
  let b := (s.buf i).unref
  let s' := (s.set i b).goto t .out
  if b.refcnt = 0 then { s' with order := i :: s.order.erase i } else s'

def step (policy : Policy) (a : Action τ δ) (s : State τ δ) :
    Except Stop (State τ δ × List (Event δ)) :=
  match a with
  | .bget t k =>
    match s.phase t with
    | .out => bget policy t k s
    | _ => .error .disabled
  | .acquiresleep t =>
    match s.phase t with
    | .waiting i k =>
      if (s.buf i).locked then .error .disabled
      else .ok ((s.set i { s.buf i with locked := true }).goto t (.locked i k), [])
    | _ => .error .disabled
  | .bread t =>
    match s.phase t with
    | .locked i k => bread t i k s
    | _ => .error .disabled
  | .wake t =>
    match s.phase t with
    | .reading i k =>
      if finished (s.buf i) then
        .ok (s.goto t (.holding i true), [.access (.load k (s.buf i).data)])
      else .error .disabled
    | .writing i =>
      if finished (s.buf i) then .ok (s.goto t (.holding i true), []) else .error .disabled
    | _ => .error .disabled
  | .modify t v =>
    match s.phase t with
    | .holding i _ => .ok ((s.set i { s.buf i with data := v }).goto t (.holding i false), [])
    | _ => .error .disabled
  | .bwrite t =>
    match s.phase t with
    | .holding i _ => bwrite t i s
    | _ => .error .disabled
  | .logWrite t =>
    match s.phase t with
    | .holding i _ => .ok (logWrite t i s)
    | _ => .error .disabled
  | .brelse t =>
    match s.phase t with
    | .holding i _ =>
      if (s.buf i).locked = false then .error .panic
      else .ok ((s.set i { s.buf i with locked := false }).goto t (.releasing i), [])
    | _ => .error .disabled
  | .unref t =>
    match s.phase t with
    | .releasing i => .ok (unref t i s, [])
    | _ => .error .disabled
  | .ideintr =>
    match ideintr s with
    | .ok s' => .ok (s', [])
    | .error e => .error e

/-- The cache after `binit`, over a disk, with `garbage` in the buffers. -/
def binit (disk : Key → δ) (havedisk1 : Bool) (garbage : δ) : State τ δ where
  buf _ := ⟨false, false, (0, 0), false, 0, garbage⟩
  order := (List.finRange NBUF).reverse
  pos := NBUF
  gen := ⟨12345#32, 12345#32, 12345#32, 12345#32⟩
  idequeue := []
  havedisk1 := havedisk1
  disk := disk
  phase _ := .out

end Functions

end LearnXv6.Paging
