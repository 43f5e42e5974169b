import LearnXv6.Store.Run

/-! The input buffer of the console lab: the keys of `consoleintr`, and the readers. -/
namespace LearnXv6.Console
open Store

def INPUT_BUF : ℕ := 128

def TAB_LENGHT : ℕ := 4

/-- The value of a `uint` that has been counted up and down from `0`. -/
def word (x : ℤ) : ℕ := (x % 2 ^ 32).toNat

/-- `input`. The counters do not wrap here; the code sees them through `word`. -/
structure Input where
  buf : ℕ → UInt8
  r : ℤ
  w : ℤ
  e : ℤ

/-- What `input.buf[i]` gives for an `i` outside of the buffer. -/
abbrev Outside : Type := Input → ℤ → UInt8

/-- Why an action has no next state: it is not its turn, a write below `tmp`, or a loop without end. -/
inductive Stop where
  | disabled
  | overrun
  | endless
  deriving DecidableEq, Repr

namespace Input

variable (m : Outside) (s : Input)

/-- `input.buf[x % INPUT_BUF]` for a `uint`. -/
def byte (x : ℤ) : UInt8 := s.buf (word x % INPUT_BUF)

/-- `input.buf[i]` for an `int`. -/
def peek (i : ℤ) : UInt8 := if 0 ≤ i ∧ i < INPUT_BUF then s.buf i.toNat else m s i

/-- `input.buf[i % INPUT_BUF]` for an `int`, whose remainder has the sign of `i`. -/
def peekMod (i : ℤ) : UInt8 := s.peek m (i.tmod INPUT_BUF)

/-- `input.buf[input.e++ % INPUT_BUF] = c` -/
def put (c : UInt8) : Input :=
  { s with buf := Function.update s.buf (word s.e % INPUT_BUF) c, e := s.e + 1 }

end Input

def newline : UInt8 := 10

/-- `C('D')` -/
def eof : UInt8 := 4

def tab (s : Input) : Input := Nat.iterate (Input.put · 32) TAB_LENGHT s

section Previous

variable (m : Outside)

/-- The current line, backwards from `i`, as `tmp` gets it from `tmp[INPUT_BUF]` down; and where its
newline stands. There is room for `n` more bytes and the final `0`. -/
def currentLine (s : Input) : ℕ → ℤ → Except Stop (List UInt8 × ℤ)
  | n, i =>
    if s.peekMod m i = newline then .ok ([], i)
    else
      match n with
      | 0 => .error .overrun
      | n + 1 => do
        let (tmp, k) ← currentLine s n (i - 1)
        .ok (s.peekMod m i :: tmp, k)

/-- `while(input.buf[i % INPUT_BUF] == '\n') { i--; a++; }` -/
def skipNewlines (s : Input) : ℕ → ℤ → ℤ → Except Stop (ℤ × ℤ)
  | 0, _, _ => .error .endless
  | n + 1, i, a =>
    if s.peekMod m i = newline then skipNewlines s n (i - 1) (a + 1) else .ok (i, a)

/-- The loop that counts the bytes in which the last command is the current line, up to a newline. -/
def countEqual (s : Input) : List UInt8 → ℤ → ℤ → ℤ × ℤ
  | [], i, a => (i, a)
  | c :: tmp, i, a =>
    if c = 0 ∨ s.peekMod m i = newline then (i, a)
    else countEqual s tmp (i - 1) (if s.peekMod m i = c then a + 1 else a)

/-- The loop that takes them off again. -/
def uncountEqual (s : Input) : List UInt8 → ℤ → ℤ → ℤ × ℤ
  | [], i, a => (i, a)
  | c :: tmp, i, a =>
    if c = 0 then (i, a) else uncountEqual s tmp (i - 1) (if s.peekMod m i = c then a - 1 else a)

/-- The place behind the last newline among the first `n`. -/
def behindNewline (s : Input) (n : ℕ) : Option ℕ :=
  ((List.range n).filter fun i => s.buf i = newline).getLast?.map (· + 1)

/-- `while(input.e != input.w) input.e--` -/
def deleteLine (s : Input) : Input := { s with e := s.e - word (s.e - s.w) }

/-- Where the command to copy starts, after the current line has been deleted: `j`. -/
def commandStart (s : Input) (a : ℤ) (j : ℕ) : ℕ :=
  match behindNewline s (word (s.e - a) % INPUT_BUF) with
  | some j => j
  | none =>
    if s.peek m (word (s.e - a)) = newline ∨ word (s.e - a) = 0 then 0
    else (behindNewline s INPUT_BUF).getD j

/-- `previous` up to its last loop: nothing to do, or where that loop starts to copy from. No loop over
an `int` that ends takes more than `2 ^ 32` rounds. -/
def previous (s : Input) : Except Stop (Option ℕ × Input) :=
  if (List.range (word s.e)).all fun i => s.peek m i ≠ newline then .ok (none, s)
  else do
    let (tmp, i) ← currentLine m s INPUT_BUF (word s.e % INPUT_BUF - 1)
    let (i, a) ← skipNewlines m s (2 ^ 32) i 0
    let k := i + 1
    let (i, a) := countEqual m s tmp i a
    let (i, a) := if s.peek m k = newline then (i, a) else uncountEqual m s tmp (k - 1) a
    let (_, a) ← skipNewlines m s (2 ^ 32) i a
    let s := deleteLine s
    .ok (some (commandStart m s a (INPUT_BUF - tmp.length)), s)

end Previous

/-- The loop of `C('U')`: it ends at `input.w` at the latest, `n` bytes away. -/
def killLine : ℕ → Input → Input
  | 0, s => s
  | n + 1, s => if s.byte (s.e - 1) = newline then s else killLine n { s with e := s.e - 1 }

def backspace (s : Input) : Input := if word s.e ≠ word s.w then { s with e := s.e - 1 } else s

def rightArrow (s : Input) : Input :=
  if s.byte s.e ≠ 0 ∧ s.byte s.e ≠ newline then { s with e := s.e + 1 } else s

/-- Any other key: whether it completes a line, and the buffer. -/
def typed (c : UInt8) (s : Input) : Bool × Input :=
  if c ≠ 0 ∧ word (s.e - s.r) < INPUT_BUF then
    let c := if c = 13 then newline else c
    let s := s.put c
    if c = newline ∨ c = eof ∨ word s.e = word (s.r + INPUT_BUF) then (true, { s with w := s.e })
    else (false, s)
  else (false, s)

/-- Where a process is: in no call, about to get the lock in `consoleread`, or asleep in it. -/
inductive Phase where
  | out
  | consoleread (n target : ℕ)
  | asleep (n target : ℕ)
  deriving DecidableEq, Repr

/-- The buffer, the place that `previous` copies from while it does, and the processes that read. -/
structure State (τ : Type) where
  input : Input
  copying : Option ℕ
  killed : τ → Bool
  phase : τ → Phase

/-- The bytes that a call copies to the reader, and the value that it returns. -/
inductive Event where
  | copied (bytes : List UInt8)
  | result (r : ℤ)
  deriving DecidableEq, Repr

/-- The loop of `consoleread` with `n` bytes to go: the bytes, whether it stops at an empty buffer, and
the bytes then to go. -/
def readBytes (target : ℕ) : ℕ → Input → List UInt8 × Bool × ℕ × Input
  | 0, s => ([], false, 0, s)
  | n + 1, s =>
    if word s.r = word s.w then ([], true, n + 1, s)
    else
      let c := s.byte s.r
      let s := { s with r := s.r + 1 }
      if c = eof then
        if n + 1 < target then ([], false, n + 1, { s with r := s.r - 1 }) else ([], false, n + 1, s)
      else if c = newline then ([c], false, n, s)
      else
        let (bytes, rest) := readBytes target n s
        (c :: bytes, rest)

section Code

variable {τ : Type} [DecidableEq τ]

def State.goto (s : State τ) (t : τ) (x : Phase) : State τ :=
  { s with phase := Function.update s.phase t x }

def wakeup (s : State τ) : State τ :=
  { s with
    phase := fun t =>
      match s.phase t with
      | .asleep n target => .consoleread n target
      | x => x }

/-- `consoleread` from `acquire`, or from the end of `sleep`, to `release` or to the next `sleep`. -/
def consoleread (t : τ) (n target : ℕ) (s : State τ) : State τ × List Event :=
  let (bytes, empty, left, input) := readBytes target n s.input
  let s := { s with input := input }
  if empty then
    if s.killed t then (s.goto t .out, [.copied bytes, .result (-1)])
    else (s.goto t (.asleep left target), [.copied bytes])
  else (s.goto t .out, [.copied bytes, .result (target - left)])

/-- One round of the loop of `consoleintr`, up to the last loop of `previous`. -/
def consoleintr (m : Outside) (c : UInt8) (s : State τ) : Except Stop (State τ) :=
  if c = 16 then .ok s
  else if c = 21 then
    .ok { s with input := killLine (word (s.input.e - s.input.w)) s.input }
  else if c = 8 ∨ c = 0x7f ∨ c = 228 then .ok { s with input := backspace s.input }
  else if c = 9 then .ok { s with input := tab s.input }
  else if c = 226 ∨ c = 227 then do
    let (copying, input) ← previous m s.input
    .ok { s with input := input, copying := copying }
  else if c = 229 then .ok { s with input := rightArrow s.input }
  else
    let (done, input) := typed c s.input
    let s := { s with input := input }
    .ok (if done then wakeup s else s)

/-- One round of the last loop of `previous`. -/
def copyByte (i : ℕ) (s : State τ) : State τ :=
  let c := s.input.buf (i % INPUT_BUF)
  if c = newline then { s with copying := none }
  else { s with input := s.input.put c, copying := some (i + 1) }

/-- What `kill` does to a process that reads. -/
def kill (t : τ) (s : State τ) : State τ :=
  { s with
    killed := Function.update s.killed t true
    phase := Function.update s.phase t
      (match s.phase t with
      | .asleep n target => .consoleread n target
      | x => x) }

inductive Act (τ : Type) where
  | key (m : Outside) (c : UInt8)
  /-- `previous` goes on -/
  | copy
  /-- a call with the given length -/
  | read (t : τ) (n : ℕ)
  /-- the process gets the lock -/
  | run (t : τ)
  | kill (t : τ)

/-- An action. `previous` holds the lock until it has copied the line. -/
def step (a : Act τ) (s : State τ) : Except Stop (State τ × List Event) :=
  match a, s.copying with
  | .key m c, none => do
    let s ← consoleintr m c s
    .ok (s, [])
  | .copy, some i => .ok (copyByte i s, [])
  | .read t n, _ =>
    if s.phase t = .out then .ok (s.goto t (.consoleread n n), []) else .error .disabled
  | .run t, none =>
    match s.phase t with
    | .consoleread n target => .ok (consoleread t n target s)
    | _ => .error .disabled
  | .kill t, _ => .ok (kill t s, [])
  | _, _ => .error .disabled

def empty : State τ where
  input := ⟨fun _ => 0, 0, 0, 0⟩
  copying := none
  killed _ := false
  phase _ := .out

end Code

end LearnXv6.Console
