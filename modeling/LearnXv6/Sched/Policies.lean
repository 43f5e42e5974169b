import LearnXv6.Store.Least
import LearnXv6.Store.Wrap
import LearnXv6.Sched.Table

/-! The scheduling policies of the labs that follow 06K: the functions that choose the next process, and
the part of `proc.c` that these labs share. -/
namespace LearnXv6.Sched.Policies
open Store

variable {ε κ φ : Type}

/-- The fields of `struct proc` that 06K adds. -/
structure Stats where
  priority : ℤ
  ctime : ℕ
  stime : ℤ
  retime : ℤ
  rutime : ℤ
  deriving DecidableEq, Repr

/-- An index outside an array, or a call through a pointer that is none of the policies. -/
inductive Fault where
  | index (i : ℤ)
  | wild
  deriving DecidableEq, Repr

/-- The static variables of `random`. -/
structure Generator where
  z1 : BitVec 32
  z2 : BitVec 32
  z3 : BitVec 32
  z4 : BitVec 32
  deriving DecidableEq, Repr

def seed : Generator := ⟨12345, 12345, 12345, 12345⟩

/-- `b = ((z << l) ^ z) >> r; z = ((z & mask) << k) ^ b`, where the mask is too large for an `int` and
the second line is computed in 64 bits. -/
def shift (z : BitVec 32) (l r : ℕ) (mask : BitVec 64) (k : ℕ) : BitVec 32 :=
  let b := ((z <<< l) ^^^ z).sshiftRight r
  (((z.signExtend 64 &&& mask) <<< k) ^^^ b.signExtend 64).setWidth 32

def Generator.next (z : Generator) : Generator :=
  ⟨shift z.z1 6 13 4294967294 18, shift z.z2 2 27 4294967288 2, shift z.z3 13 21 4294967280 7,
    shift z.z4 3 12 4294967168 13⟩

def random (max : ℤ) (z : Generator) : ℤ × Generator :=
  if max ≤ 0 then (1, z)
  else
    let z := z.next
    let rand := (z.z1 ^^^ z.z2 ^^^ z.z3 ^^^ z.z4).toInt.tmod max
    (if rand < 0 then rand * -1 else rand, z)

/-- The process at `ptable.proc + i`. -/
def slot (i : ℤ) : Except Fault Slot :=
  if h : 0 ≤ i ∧ i < NPROC then .ok ⟨i.toNat, by omega⟩ else .error (.index i)

/-- The process that `queue[i]` points to. -/
def element (queue : List Slot) (i : ℤ) : Except Fault Slot :=
  if 0 ≤ i then
    match queue[i.toNat]? with
    | some p => .ok p
    | none => .error (.index i)
  else .error (.index i)

section Choice

variable (state : Slot → Procstate) (stats : Slot → Stats)

/-- The loop of `defaultScheduler` from `i` on, with `n` passes left. -/
def scan (rnd : ℤ) : ℕ → ℤ → Except Fault (Option Slot)
  | 0, _ => .ok none
  | n + 1, i => do
    let p ← slot ((rnd + i).tmod NPROC)
    if state p = .RUNNABLE then return some p else scan rnd n (i + 1)

def defaultScheduler (z : Generator) : Except Fault (Option Slot × Generator) := do
  let (rnd, z) := random NPROC z
  let p ← scan state rnd NPROC 0
  return (p, z)

/-- The body of the loop of the three policies that look for the least value of a field. -/
def better (key : Stats → ℤ) (pcandidate : Option Slot) (p : Slot) : Option Slot :=
  if state p = .RUNNABLE then
    match pcandidate with
    | none => some p
    | some q => if key (stats p) < key (stats q) then some p else some q
  else pcandidate

def candidate (key : Stats → ℤ) : Option Slot := slots.foldl (better state stats key) none

def priorityScheduler : Option Slot := candidate state stats Stats.priority

def fcfsScheduler : Option Slot := candidate state stats fun x => x.ctime

def cfsScheduler : Option Slot := candidate state stats Stats.rutime

/-- The runnable processes whose priority is in the range of one queue. -/
def level (c : ℤ → Prop) [DecidablePred c] : List Slot :=
  slots.filter fun p => state p = .RUNNABLE ∧ c (stats p).priority

/-- `queue[random(index)]`, for a queue with `index` entries. -/
def anyOf (queue : List Slot) (z : Generator) : Except Fault (Option Slot × Generator) := do
  let (i, z) := random queue.length z
  let p ← element queue i
  return (some p, z)

def smlScheduler (z : Generator) : Except Fault (Option Slot × Generator) :=
  let high_queue := level state stats fun x => x ≤ 7
  let mid_queue := level state stats fun x => x > 7 ∧ x ≤ 14
  let low_queue := level state stats fun x => ¬ x ≤ 7 ∧ ¬ (x > 7 ∧ x ≤ 14)
  if high_queue.length > 0 then anyOf high_queue z
  else if mid_queue.length > 0 then anyOf mid_queue z
  else if low_queue.length > 0 then anyOf low_queue z
  else .ok (none, z)

/-- What the next process to run has to be: a runnable one, if there is any. -/
structure Picks (o : Option Slot) : Prop where
  nothing : o = none ↔ ∀ p, state p ≠ .RUNNABLE
  runnable : ∀ p, o = some p → state p = .RUNNABLE

end Choice

variable {state : Slot → Procstate} {stats : Slot → Stats} {z : Generator} {p : Slot}

lemma Picks.some (h : state p = .RUNNABLE) : Picks state (some p) := by
  refine ⟨⟨fun hn => (by cases hn), fun hn => absurd h (hn p)⟩, fun q hq => ?_⟩
  cases hq
  exact h

lemma Picks.none (h : ∀ p, state p ≠ .RUNNABLE) : Picks state none :=
  ⟨⟨fun _ => h, fun _ => rfl⟩, fun _ hq => by cases hq⟩

/-- The remainder of a negative number is turned round, and never reaches the bound. -/
lemma random_bounds {max : ℤ} (hmax : 0 < max) (z : Generator) :
    0 ≤ (random max z).1 ∧ (random max z).1 < max := by
  unfold random
  rw [if_neg (by omega)]
  dsimp only
  generalize (z.next.z1 ^^^ z.next.z2 ^^^ z.next.z3 ^^^ z.next.z4).toInt = x
  have hlt := Int.tmod_lt_of_pos x hmax
  have hgt : -max < x.tmod max := by
    have := Int.tmod_lt_of_pos (-x) hmax
    rw [Int.neg_tmod] at this
    omega
  split <;> omega

lemma slot_ok {i : ℤ} (h : 0 ≤ i ∧ i < NPROC) : ∃ p : Slot, slot i = .ok p ∧ (p.val : ℤ) = i :=
  ⟨⟨i.toNat, by omega⟩, dif_pos h, Int.toNat_of_nonneg h.1⟩

/-- The first runnable process in cyclic order from `start` on. -/
def FirstFrom (state : Slot → Procstate) (start p : Slot) : Prop :=
  ∀ q, state q = .RUNNABLE → p - start ≤ q - start

lemma sub_val (p start : Slot) : (p - start).val = (64 - start.val + p.val) % 64 := rfl

lemma scan_picks {start : Slot} (n : ℕ) (i : ℤ) (hi : 0 ≤ i) (hn : i + n = NPROC)
    (hdone : ∀ q, state q = .RUNNABLE → i ≤ (q - start).val) :
    ∃ o, scan state start.val n i = .ok o ∧ Picks state o ∧ ∀ p, o = some p → FirstFrom state start p := by
  induction n generalizing i with
  | zero =>
    refine ⟨none, rfl, Picks.none fun p hp => ?_, by simp⟩
    have hlt := (p - start).isLt
    have hle := hdone p hp
    push_cast at hn
    omega
  | succ n ih =>
    have hlt : i < NPROC := by push_cast at hn; omega
    obtain ⟨p, hslot, hp⟩ := slot_ok (i := ((start.val : ℤ) + i).tmod NPROC)
      ⟨Int.tmod_nonneg _ (by omega), Int.tmod_lt_of_pos _ (by decide)⟩
    have hpi : ((p - start).val : ℤ) = i := by
      rw [Int.tmod_eq_emod_of_nonneg (by omega)] at hp
      rw [sub_val]
      unfold NPROC at *
      omega
    unfold scan
    rw [hslot]
    simp only [ok_bind]
    split
    · rename_i hrun
      refine ⟨some p, rfl, Picks.some hrun, fun q hq r hr => ?_⟩
      cases hq
      have hle := hdone r hr
      exact Fin.le_def.mpr (by omega)
    · rename_i hrun
      refine ih (i + 1) (by omega) (by push_cast at hn; omega) fun q hq => ?_
      have hle := hdone q hq
      have hne : ((q - start).val : ℤ) ≠ i := by
        intro h
        have hqp : q - start = p - start := Fin.ext (by omega)
        rw [sub_left_inj.mp hqp] at hq
        exact hrun hq
      omega

lemma defaultScheduler_picks (z : Generator) :
    ∃ o z', defaultScheduler state z = .ok (o, z') ∧ Picks state o ∧
      ∀ p, o = some p → ∃ start : Slot, (start.val : ℤ) = (random NPROC z).1 ∧ FirstFrom state start p := by
  obtain ⟨start, -, hstart⟩ := slot_ok (random_bounds (show (0 : ℤ) < NPROC by decide) z)
  obtain ⟨o, ho, hpick, hfirst⟩ := scan_picks NPROC 0 le_rfl (by simp) fun q _ => by omega
  refine ⟨o, (random NPROC z).2, ?_, hpick, fun p hp => ⟨start, hstart, hfirst p hp⟩⟩
  unfold defaultScheduler
  dsimp only
  rw [← hstart, ho]
  rfl

lemma slots_pairwise : slots.Pairwise (· < ·) := List.pairwise_lt_finRange NPROC

/-- The loop of the three policies keeps the first process with the least value. -/
lemma candidate_least (key : Stats → ℤ) :
    IsLeast? (fun p => state p = .RUNNABLE) (fun p => key (stats p)) slots (candidate state stats key) := by
  have hbody : better state stats key =
      improve? (fun p => state p = .RUNNABLE) fun p => key (stats p) := by
    funext c p
    cases c <;> simp [better, improve?]
  unfold candidate
  rw [hbody]
  exact foldl_improve?_least slots_pairwise

lemma candidate_picks (key : Stats → ℤ) : Picks state (candidate state stats key) := by
  have hleast := @candidate_least state stats key
  constructor
  · simpa [slots] using hleast.nothing
  · intro p hp
    exact (hleast.least p hp).1

lemma mem_level {c : ℤ → Prop} [DecidablePred c] :
    p ∈ level state stats c ↔ state p = .RUNNABLE ∧ c (stats p).priority := by
  simp [level, slots]

lemma anyOf_mem {queue : List Slot} (hlen : queue.length > 0) (z : Generator) :
    ∃ p z', anyOf queue z = .ok (some p, z') ∧ p ∈ queue := by
  obtain ⟨hlo, hhi⟩ := random_bounds (show (0 : ℤ) < queue.length by omega) z
  have hi : (random queue.length z).1.toNat < queue.length := by omega
  refine ⟨queue[(random queue.length z).1.toNat], (random queue.length z).2, ?_,
    List.getElem_mem hi⟩
  unfold anyOf element
  dsimp only
  rw [if_pos hlo, List.getElem?_eq_getElem hi]
  rfl

/-- The queue that a priority belongs to, the best one first. -/
def classOf (priority : ℤ) : ℕ := if priority ≤ 7 then 0 else if priority ≤ 14 then 1 else 2

lemma level_empty {c : ℤ → Prop} [DecidablePred c] (h : ¬ (level state stats c).length > 0)
    (hp : state p = .RUNNABLE) : ¬ c (stats p).priority :=
  fun hc => h (List.length_pos_of_mem (mem_level.mpr ⟨hp, hc⟩))

/-- Each process is in the range of one of the three queues, and the first of them that is not empty
gives the next process. -/
lemma smlScheduler_picks (z : Generator) :
    ∃ o z', smlScheduler state stats z = .ok (o, z') ∧ Picks state o ∧ ∀ p, o = some p →
      ∀ q, state q = .RUNNABLE → classOf (stats p).priority ≤ classOf (stats q).priority := by
  unfold smlScheduler
  dsimp only
  split
  · rename_i h
    obtain ⟨p, z', hany, hmem⟩ := anyOf_mem h z
    obtain ⟨hp, hc⟩ := mem_level.mp hmem
    refine ⟨some p, z', hany, Picks.some hp, fun q hq r _ => ?_⟩
    cases hq
    simp [classOf, hc]
  rename_i hhigh
  split
  · rename_i h
    obtain ⟨p, z', hany, hmem⟩ := anyOf_mem h z
    obtain ⟨hp, hc⟩ := mem_level.mp hmem
    refine ⟨some p, z', hany, Picks.some hp, fun q hq r hr => ?_⟩
    cases hq
    have hr7 := level_empty hhigh hr
    simp only [classOf]
    split_ifs <;> omega
  rename_i hmid
  split
  · rename_i h
    obtain ⟨p, z', hany, hmem⟩ := anyOf_mem h z
    obtain ⟨hp, hc⟩ := mem_level.mp hmem
    refine ⟨some p, z', hany, Picks.some hp, fun q hq r hr => ?_⟩
    cases hq
    have hr7 := level_empty hhigh hr
    have hr14 := level_empty hmid hr
    simp only [classOf]
    split_ifs <;> omega
  · rename_i hlow
    refine ⟨none, z, rfl, Picks.none fun p hp => ?_, by simp⟩
    exact level_empty hlow hp ⟨level_empty hhigh hp, level_empty hmid hp⟩

/-! The part of `proc.c` that does not depend on the lab. -/

/-- Lets the scheduler choose a process. -/
def ready (p : Slot) (s : Table ε κ) : Except φ (Table ε κ) := .ok (s.setState p .RUNNABLE)

def sleep (p : Slot) (chan : Option Chan) (s : Table ε κ) : Except φ (Table ε κ) :=
  .ok ((s.set p fun x => { x with chan := chan }).setState p .SLEEPING)

def kill (p : Slot) (s : Table ε κ) : Except φ (Table ε κ) :=
  let s := s.set p fun x => { x with killed := true }
  .ok (if (s.proc p).state = .SLEEPING then s.setState p .RUNNABLE else s)

/-- What `allocproc` assigns. -/
def Stats.found (ticks : ℕ) : Stats := ⟨10, ticks, 0, 0, 0⟩

/-- What `update_statistics` does to a process in the given state. -/
def Stats.update (state : Procstate) (x : Stats) : Stats :=
  match state with
  | .SLEEPING => { x with stime := wrap (x.stime + 1) }
  | .RUNNABLE => { x with retime := wrap (x.retime + 1) }
  | .RUNNING => { x with rutime := wrap (x.rutime + 1) }
  | _ => x

/-- `ticks++`, of an unsigned 32-bit counter. -/
def nextTick (ticks : ℕ) : ℕ := (ticks + 1) % 2 ^ 32

/-- Changes the fields of the first process with the given pid, if there is one. -/
def setPid (s : Table ε κ) (pid : ℤ) (f : ε → ε) : Table ε κ :=
  match slots.find? fun p => (s.proc p).pid = pid with
  | some p => s.set p fun x => { x with lab := f x.lab }
  | none => s

end LearnXv6.Sched.Policies
