import LearnXv6.Sched.Compiled

/-! The system call `getptable`, which copies the process table for programs such as `ps`. -/
namespace LearnXv6.Sched.Getptable
open Store List

variable {ε : Type}

/-- The fields of `struct proc` that only `getptable` reads here, and those that a lab adds. -/
structure Shown (ε : Type) where
  sz : ℕ
  name : Fin 16 → UInt8
  lab : ε

/-- `struct proc_us`. -/
structure ProcUs (ε : Type) where
  sz : ℕ
  state : Procstate
  pid : ℤ
  ppid : ℤ
  name : Fin 16 → UInt8
  lab : ε

/-- An address outside `ptable.proc` or the buffer, or a field of a null pointer. -/
inductive Fault where
  | outside
  | null
  deriving DecidableEq, Repr

abbrev Ptable (ε : Type) := Slot → Proc (Shown ε)

variable (ptable : Ptable ε)

/-- The assignments to `*p_dst`, for the process at `p_src`. -/
def copied (p : Slot) : Except Fault (ProcUs ε) :=
  let x := ptable p
  match x.parent with
  | some q => .ok ⟨x.lab.sz, x.state, x.pid, (ptable q).pid, x.lab.name, x.lab.lab⟩
  | none => .error .null

/-- The loop with `n` rounds left, for the indices `src` and `dst` of `p_src` and `p_dst`. -/
def copyLoop : ℕ → ℕ → ℕ → List (ProcUs ε) → Except Fault (List (ProcUs ε))
  | 0, _, _, buffer => .ok buffer
  | n + 1, src, dst, buffer =>
    if h : src < NPROC then
      -- `continue` leaves `p_src` where it is
      if (ptable ⟨src, h⟩).state = .UNUSED then copyLoop n src dst buffer
      else do
        let x ← copied ptable ⟨src, h⟩
        if dst < buffer.length then copyLoop n (src + 1) (dst + 1) (buffer.set dst x)
        else .error .outside
    else .error .outside

/-- `getptable`, with the fields `ε` that a lab adds to the table. -/
def copyTable (nproc : ℤ) (buffer : List (ProcUs ε)) : Except Fault (List (ProcUs ε)) :=
  copyLoop ptable nproc.toNat 0 0 buffer

end LearnXv6.Sched.Getptable

namespace LearnXv6.Sched

/-- `getptable` of the lab that adds it. -/
def AddSystemCall.getptable :
    Getptable.Ptable Unit → ℤ → List (Getptable.ProcUs Unit) →
      Except Getptable.Fault (List (Getptable.ProcUs Unit)) := Getptable.copyTable

/-- The same with the fields of the scheduling lab. -/
def Compiled.getptable : Getptable.Ptable Compiled.Fields → ℤ →
    List (Getptable.ProcUs Compiled.Fields) →
      Except Getptable.Fault (List (Getptable.ProcUs Compiled.Fields)) := Getptable.copyTable

end LearnXv6.Sched

namespace LearnXv6.Sched.Getptable
open Store List

variable {ε : Type} {ptable : Ptable ε} {buffer buffer' : List (ProcUs ε)} {n i : ℕ}

def Used (ptable : Ptable ε) (p : Slot) : Prop := (ptable p).state ≠ .UNUSED

instance (ptable : Ptable ε) : DecidablePred (Used ptable) :=
  fun p => inferInstanceAs (Decidable ((ptable p).state ≠ .UNUSED))

/-- The processes in the order of the table. -/
def used (ptable : Ptable ε) : List Slot := slots.filter fun p => Used ptable p

/-- An entry of the buffer that describes the process. One without a parent may have any `ppid`. -/
structure Describes (ptable : Ptable ε) (p : Slot) (x : ProcUs ε) : Prop where
  sz : x.sz = (ptable p).lab.sz
  state : x.state = (ptable p).state
  pid : x.pid = (ptable p).pid
  ppid : ∀ q, (ptable p).parent = some q → x.ppid = (ptable q).pid
  name : x.name = (ptable p).lab.name
  lab : x.lab = (ptable p).lab.lab

/-- The call fills the front of every buffer for the whole table with its processes. -/
def Lists (ptable : Ptable ε)
    (getptable : Ptable ε → ℤ → List (ProcUs ε) → Except Fault (List (ProcUs ε))) : Prop :=
  ∀ buffer, buffer.length = NPROC → ∃ buffer', getptable ptable NPROC buffer = .ok buffer' ∧
    List.Forall₂ (Describes ptable) (used ptable) (buffer'.take (used ptable).length)

/-- The processes are at the front of the table, and each of them has a parent. -/
structure Packed (ptable : Ptable ε) : Prop where
  front : ∀ p q, p ≤ q → ¬ Used ptable p → ¬ Used ptable q
  parent : ∀ p, Used ptable p → (ptable p).parent ≠ none

lemma copied_describes {p : Slot} {x : ProcUs ε} (h : copied ptable p = .ok x) : Describes ptable p x := by
  unfold copied at h
  dsimp only at h
  split at h
  · rename_i q hq
    cases h
    refine ⟨rfl, rfl, rfl, fun r hr => ?_, rfl, rfl⟩
    rw [hq] at hr
    cases hr
    rfl
  · cases h

lemma copied_ok_iff {p : Slot} : (∃ x, copied ptable p = .ok x) ↔ (ptable p).parent ≠ none := by
  unfold copied
  dsimp only
  cases (ptable p).parent with
  | none | some q => simp

/-- What the loop has done after `n` rounds: it has copied `m` processes, and stays at an unused entry
if there are rounds left. -/
structure Copied (ptable : Ptable ε) (n i m : ℕ) (buffer buffer' : List (ProcUs ε)) : Prop where
  le : m ≤ n
  length : buffer'.length = buffer.length
  before : ∀ j < i, buffer'[j]? = buffer[j]?
  entries : ∀ p : Slot, i ≤ p.val → p.val < i + m →
    Used ptable p ∧ (ptable p).parent ≠ none ∧ ∃ x, buffer'[p.val]? = some x ∧ Describes ptable p x
  after : ∀ j, i + m ≤ j → buffer'[j]? = buffer[j]?
  stuck : m < n → ∃ h : i + m < NPROC, ¬ Used ptable ⟨i + m, h⟩

lemma Copied.stay (hi : i < NPROC) (hunused : ¬ Used ptable ⟨i, hi⟩) {m : ℕ}
    (h : Copied ptable n i m buffer buffer') : Copied ptable (n + 1) i 0 buffer buffer' := by
  -- nothing is copied from an unused entry
  have hm : m = 0 := by
    by_contra hm
    exact hunused (h.entries ⟨i, hi⟩ le_rfl (by show i < i + m; omega)).1
  subst hm
  exact ⟨by omega, h.length, h.before, h.entries, h.after, fun _ => ⟨hi, hunused⟩⟩

lemma Copied.advance (hi : i < NPROC) (hused : Used ptable ⟨i, hi⟩)
    (hparent : (ptable ⟨i, hi⟩).parent ≠ none) {x : ProcUs ε} (hx : Describes ptable ⟨i, hi⟩ x)
    (hlen : i < buffer.length) {m : ℕ} (h : Copied ptable n (i + 1) m (buffer.set i x) buffer') :
    Copied ptable (n + 1) i (m + 1) buffer buffer' := by
  have hsum : i + 1 + m = i + (m + 1) := by omega
  have hother : ∀ j, j ≠ i → (buffer.set i x)[j]? = buffer[j]? :=
    fun j hj => getElem?_set_ne (Ne.symm hj)
  constructor
  · have := h.le
    omega
  · simpa using h.length
  · intro j hj
    rw [h.before j (by omega), hother j (by omega)]
  · intro p hlo hhi
    by_cases hp : p.val = i
    · obtain rfl : p = ⟨i, hi⟩ := Fin.ext hp
      refine ⟨hused, hparent, x, ?_, hx⟩
      rw [h.before i (by omega), getElem?_set_self hlen]
    · exact h.entries p (by omega) (by omega)
  · intro j hj
    rw [h.after j (by omega), hother j (by omega)]
  · intro hm
    simp only [← hsum]
    exact h.stuck (by omega)

lemma copyLoop_outcome (ptable : Ptable ε) (n i : ℕ) (buffer : List (ProcUs ε)) (hlen : buffer.length = NPROC)
    (hn : i + n ≤ NPROC) : Outcome (fun _ => ∃ p, Used ptable p ∧ (ptable p).parent = none)
      (fun buffer' => ∃ m, Copied ptable n i m buffer buffer') (copyLoop ptable n i i buffer) := by
  induction n generalizing i buffer with
  | zero => exact ⟨0, le_rfl, rfl, fun _ _ => rfl, fun p _ _ => by omega, fun _ _ => rfl, by simp⟩
  | succ n ih =>
    have hi : i < NPROC := by omega
    unfold copyLoop
    rw [dif_pos hi]
    split
    · rename_i hunused
      refine (ih i buffer hlen (by omega)).mono fun buffer' ⟨m, h⟩ => ⟨0, h.stay hi ?_⟩
      simpa [Used] using hunused
    · rename_i hused
      have hcopied : (∃ x, copied ptable ⟨i, hi⟩ = .ok x) ↔ _ := copied_ok_iff
      cases hx : copied ptable ⟨i, hi⟩ with
      | error e => exact ⟨⟨i, hi⟩, hused, by simpa [hx] using hcopied⟩
      | ok x =>
        have hparent := hcopied.mp ⟨x, hx⟩
        rw [ok_bind, if_pos (by omega)]
        exact (ih (i + 1) (buffer.set i x) (by simpa using hlen) (by omega)).mono
          fun buffer' ⟨m, h⟩ => ⟨m + 1, h.advance hi hused hparent (copied_describes hx) (by omega)⟩

lemma used_split {m : ℕ} (hused : ∀ p : Slot, p.val < m → Used ptable p) :
    used ptable = slots.take m ++ (slots.drop m).filter fun p => Used ptable p := by
  unfold used
  conv_lhs => rw [← take_append_drop m slots, filter_append]
  rw [filter_eq_self.mpr]
  intro p hp
  obtain ⟨j, hj, rfl⟩ := mem_take_iff_getElem.mp hp
  simp only [slots, getElem_finRange, decide_eq_true_eq]
  exact hused _ (by simp; omega)

lemma drop_unused {m : ℕ} : ((slots.drop m).filter fun p => Used ptable p) = [] ↔
    ∀ p : Slot, m ≤ p.val → ¬ Used ptable p := by
  rw [filter_eq_nil_iff]
  constructor
  · intro h p hp
    have hmem : p ∈ slots.drop m := by
      refine mem_drop_iff_getElem.mpr ⟨p.val - m, by simp [slots]; omega, ?_⟩
      simp only [slots, getElem_finRange]
      exact Fin.ext (by simp; omega)
    simpa using h p hmem
  · intro h p hp
    obtain ⟨j, hj, rfl⟩ := mem_drop_iff_getElem.mp hp
    simp only [slots, getElem_finRange, decide_eq_true_eq]
    exact h _ (by simp)

lemma copyTable_copied (hlen : buffer.length = NPROC)
    (h : copyTable ptable NPROC buffer = .ok buffer') : ∃ m, Copied ptable NPROC 0 m buffer buffer' := by
  have hloop := copyLoop_outcome ptable NPROC 0 buffer hlen (by omega)
  rw [show copyLoop ptable NPROC 0 0 buffer = .ok buffer' from h] at hloop
  exact hloop

lemma Packed.lists (h : Packed ptable) : Lists ptable copyTable := by
  intro buffer hlen
  have hloop := copyLoop_outcome ptable NPROC 0 buffer hlen (by omega)
  cases hres : copyLoop ptable NPROC 0 0 buffer with
  | error e =>
    rw [hres] at hloop
    obtain ⟨p, hp, hnone⟩ := hloop
    exact absurd hnone (h.parent p hp)
  | ok buffer' =>
    rw [hres] at hloop
    obtain ⟨m, hm⟩ := hloop
    have hmle := hm.le
    have hrest : ∀ p : Slot, m ≤ p.val → ¬ Used ptable p := by
      intro p hp
      obtain ⟨hlt, hunused⟩ := hm.stuck (by have := p.isLt; omega)
      refine h.front ⟨0 + m, hlt⟩ p (Fin.le_def.mpr ?_) hunused
      show 0 + m ≤ p.val
      omega
    have hused : used ptable = slots.take m := by
      rw [used_split (m := m) fun p hp => (hm.entries p (by omega) (by omega)).1,
        drop_unused.mpr hrest, append_nil]
    have hcount : (used ptable).length = m := by
      rw [hused]
      simp only [slots, length_take, length_finRange]
      omega
    refine ⟨buffer', hres, forall₂_iff_get.mpr ⟨?_, fun j h1 h2 => ?_⟩⟩
    · rw [length_take, hm.length, hcount]
      omega
    · have hj : j < m := by omega
      obtain ⟨-, -, x, hx, hdesc⟩ := hm.entries ⟨j, by omega⟩ (by omega) (by show j < 0 + m; omega)
      have hslot : (used ptable).get ⟨j, h1⟩ = ⟨j, by omega⟩ := by
        simp [hused, slots]
      have hentry : (buffer'.take (used ptable).length).get ⟨j, h2⟩ = x := by
        obtain ⟨hlt, hx⟩ := List.getElem?_eq_some_iff.mp hx
        simpa using hx
      rw [hslot, hentry]
      exact hdesc

lemma Copied.unique {m m' : ℕ} {b b' : List (ProcUs ε)} (h : Copied ptable NPROC 0 m buffer buffer')
    (h' : Copied ptable NPROC 0 m' b b') : m ≤ m' := by
  by_contra hlt
  have hle := h.le
  obtain ⟨hm', hunused⟩ := h'.stuck (by omega)
  exact hunused (h.entries ⟨0 + m', hm'⟩ (by omega) (by show 0 + m' < 0 + m; omega)).1

lemma Lists.packed (h : Lists ptable copyTable) : Packed ptable := by
  let x (pid : ℤ) : ProcUs ε := ⟨0, .UNUSED, pid, 0, (ptable 0).lab.name, (ptable 0).lab.lab⟩
  have hlen : ∀ pid, (replicate NPROC (x pid)).length = NPROC := by simp
  obtain ⟨b, hb, hall⟩ := h (replicate NPROC (x 0)) (hlen 0)
  obtain ⟨b', hb', hall'⟩ := h (replicate NPROC (x 1)) (hlen 1)
  obtain ⟨m, hm⟩ := copyTable_copied (hlen 0) hb
  obtain ⟨m', hm'⟩ := copyTable_copied (hlen 1) hb'
  obtain rfl : m = m' := le_antisymm (hm.unique hm') (hm'.unique hm)
  have hsplit := used_split (m := m) fun p hp => (hm.entries p (by omega) (by omega)).1
  -- with more processes than were copied, the entry behind the copies would tell two pids
  have hcount : (used ptable).length ≤ m := by
    by_contra hlt
    have hmk : m < (used ptable).length := by omega
    have hpid : ∀ (pid : ℤ) (b : List (ProcUs ε)),
        Copied ptable NPROC 0 m (replicate NPROC (x pid)) b →
        List.Forall₂ (Describes ptable) (used ptable) (b.take (used ptable).length) →
        pid = (ptable (used ptable)[m]).pid := by
      intro pid b hm hall
      obtain ⟨hlen, hget⟩ := forall₂_iff_get.mp hall
      have hentry := hm.after m (by omega)
      have hbm : m < (b.take (used ptable).length).length := by omega
      have hmN : m < NPROC := by
        have := hm.length
        simp only [length_take, length_replicate] at hbm this
        omega
      rw [getElem?_replicate, if_pos hmN] at hentry
      obtain ⟨hlt, hentry⟩ := List.getElem?_eq_some_iff.mp hentry
      have hdesc := (hget m hmk hbm).pid
      simp only [get_eq_getElem, getElem_take, hentry] at hdesc
      exact hdesc
    have h0 := hpid 0 b hm hall
    have h1 := hpid 1 b' hm' hall'
    omega
  have hrest : ∀ p : Slot, m ≤ p.val → ¬ Used ptable p := by
    apply drop_unused.mp
    have hlength := congrArg length hsplit
    have hmle := hm.le
    simp only [length_append, slots, length_take, length_finRange] at hlength
    apply eq_nil_of_length_eq_zero
    simp only [slots]
    omega
  constructor
  · intro p q hpq hp
    apply hrest
    by_contra hq
    exact hp (hm.entries p (by omega) (by have := Fin.le_def.mp hpq; omega)).1
  · intro p hp
    have hlt : p.val < m := by
      by_contra hge
      exact hrest p (by omega) hp
    exact (hm.entries p (by omega) (by omega)).2.1

lemma lists_iff (ptable : Ptable ε) : Lists ptable copyTable ↔ Packed ptable :=
  ⟨Lists.packed, Packed.lists⟩

/-- In both labs the call lists the processes exactly when they are at the front of the table and each
of them has a parent. -/
theorem getptable_lists (ptable : Ptable Unit) (ptable' : Ptable Compiled.Fields) :
    (Lists ptable AddSystemCall.getptable ↔ Packed ptable) ∧
      (Lists ptable' Compiled.getptable ↔ Packed ptable') :=
  ⟨lists_iff ptable, lists_iff ptable'⟩

def booted (ε : Type) (lab : ε) : Ptable ε := fun p =>
  if p = 0 then ⟨.RUNNABLE, 1, none, none, false, 4096, fun _ => 0, lab⟩
  else ⟨.UNUSED, 0, none, none, false, 0, fun _ => 0, lab⟩

/-- Already with the first process alone, the call follows its null pointer to a parent. -/
theorem getptable_null : ¬ Lists (booted Unit ()) AddSystemCall.getptable ∧
    ∀ buffer, AddSystemCall.getptable (booted Unit ()) NPROC buffer = .error .null := by
  have hnull : ∀ buffer, AddSystemCall.getptable (booted Unit ()) NPROC buffer = .error .null := by
    intro buffer
    rfl
  refine ⟨fun h => ?_, hnull⟩
  obtain ⟨buffer', hbuffer, -⟩ := h (replicate NPROC ⟨0, .UNUSED, 0, 0, fun _ => 0, ()⟩) (by simp)
  rw [hnull] at hbuffer
  cases hbuffer

/-! The system call of the scheduling lab, with the arguments that it takes from the caller. -/

/-- `sizeof(struct proc_us)` -/
def PROC_US : ℕ := 56

/-- Whether `argptr` takes the address `i` for a block of `size` bytes. -/
def argptr (sz i : ℕ) (size : ℤ) : Bool := !(size < 0 || i ≥ sz || (i + size.toNat) % 2 ^ 32 > sz)

/-- `sys_getptable` for a caller of `sz` bytes; `none` stands for -1. The `entries` are those that are whole
inside of the buffer. -/
def sysGetptable (sz : ℕ) (ptable : Ptable Compiled.Fields) (nproc size : ℤ) (buffer : ℕ)
    (entries : List (ProcUs Compiled.Fields)) :
    Except Fault (Option (List (ProcUs Compiled.Fields))) :=
  if argptr sz buffer size then
    -- the product is unsigned
    if size % 2 ^ 32 ≠ nproc * PROC_US % 2 ^ 32 then .ok none
    else do
      let entries ← Compiled.getptable ptable nproc entries
      .ok (some entries)
  else .ok none

/-- The arguments are accepted. -/
def Accepted (sz : ℕ) (nproc size : ℤ) (buffer : ℕ) : Prop :=
  argptr sz buffer size = true ∧ size % 2 ^ 32 = nproc * PROC_US % 2 ^ 32

instance (sz : ℕ) (nproc size : ℤ) (buffer : ℕ) : Decidable (Accepted sz nproc size buffer) :=
  inferInstanceAs (Decidable (_ ∧ _))

/-- The call stays in the table and in the buffer, which is memory of the caller. -/
def Confined (sz : ℕ) (ptable : Ptable Compiled.Fields) (nproc size : ℤ) (buffer : ℕ) : Prop :=
  (∀ entries, entries.length = size.toNat / PROC_US →
    ∃ entries', sysGetptable sz ptable nproc size buffer entries = .ok (some entries')) ∧
    buffer + size.toNat ≤ sz

/-- The loop comes to the index `j`, if nothing stops it before. -/
def Reached (ptable : Ptable ε) (nproc : ℤ) (j : ℕ) : Prop :=
  j < nproc ∧ ∀ p : Slot, p.val ≤ j → Used ptable p

/-- There is a process at the index `j` of the table, and it has a parent. -/
def HasParent (ptable : Ptable ε) (j : ℕ) : Prop := ∃ h : j < NPROC, (ptable ⟨j, h⟩).parent ≠ none

/-- The loop ends well exactly when every index that it comes to is one of a process with a parent and of an
entry of the buffer. -/
lemma copyLoop_ok_iff (ptable : Ptable ε) (n i : ℕ) (buffer : List (ProcUs ε))
    (hfront : ∀ p : Slot, p.val < i → Used ptable p) :
    (∃ buffer', copyLoop ptable n i i buffer = .ok buffer') ↔
      ∀ j, i ≤ j → j < i + n → (∀ p : Slot, p.val ≤ j → Used ptable p) →
        HasParent ptable j ∧ j < buffer.length := by
  induction n generalizing i buffer with
  | zero => exact ⟨fun _ j hlo hhi => by omega, fun _ => ⟨buffer, rfl⟩⟩
  | succ n ih =>
    unfold copyLoop
    by_cases hi : i < NPROC
    · rw [dif_pos hi]
      split
      · -- the loop stays at an unused entry
        rename_i hunused
        have hstop : ∀ j, i ≤ j → ¬ ∀ p : Slot, p.val ≤ j → Used ptable p :=
          fun j hj hall => hall ⟨i, hi⟩ hj hunused
        rw [ih i buffer hfront]
        exact ⟨fun _ j hlo _ hall => (hstop j hlo hall).elim, fun _ j hlo _ hall => (hstop j hlo hall).elim⟩
      · rename_i hused
        have hfront' : ∀ p : Slot, p.val < i + 1 → Used ptable p := by
          intro p hp
          rcases Nat.lt_succ_iff_lt_or_eq.mp hp with hp | hp
          · exact hfront p hp
          · obtain rfl : p = ⟨i, hi⟩ := Fin.ext hp
            exact hused
        constructor
        · rintro ⟨buffer', h⟩ j hlo hhi hall
          obtain ⟨x, hx, h⟩ := bind_eq_ok.mp h
          obtain ⟨hlen, h⟩ := then_eq_ok.mp h
          rcases Nat.eq_or_lt_of_le hlo with rfl | hlo
          · exact ⟨⟨hi, copied_ok_iff.mp ⟨x, hx⟩⟩, hlen⟩
          · have := (ih (i + 1) (buffer.set i x) hfront').mp ⟨buffer', h⟩ j hlo (by omega) hall
            rwa [length_set] at this
        · intro h
          obtain ⟨⟨_, hparent⟩, hlen⟩ := h i le_rfl (by omega) fun p hp => hfront' p (by omega)
          obtain ⟨x, hx⟩ := copied_ok_iff.mpr hparent
          rw [hx, ok_bind, if_pos hlen]
          refine (ih (i + 1) (buffer.set i x) hfront').mpr fun j hlo hhi hall => ?_
          rw [length_set]
          exact h j (by omega) (by omega) hall
    · rw [dif_neg hi]
      refine ⟨fun h => (nomatch h.choose_spec), fun h => ?_⟩
      obtain ⟨⟨hlt, _⟩, _⟩ := h i le_rfl (by omega) fun p _ => hfront p (by omega)
      exact absurd hlt hi

variable {sz j : ℕ} {nproc size : ℤ}

lemma argptr_inside {i : ℕ} (hsz : sz < KERNBASE) (h32 : size < 2 ^ 31) (h : argptr sz i size = true) :
    0 ≤ size ∧ i + size.toNat ≤ sz := by
  unfold KERNBASE at hsz
  simp only [argptr, Bool.not_eq_true', Bool.or_eq_false_iff, decide_eq_false_iff_not, not_lt, ge_iff_le,
    not_le] at h
  omega

/-- A call that is accepted stays in its bounds exactly when the slots before the first unused one, as far as
`nproc` goes, have a parent and an entry in the buffer, and the loop does not leave the table. -/
theorem getptable_confined (ptable : Ptable Compiled.Fields) (sz : ℕ) (nproc size : ℤ) (buffer : ℕ)
    (hsz : sz < KERNBASE) (h32 : size < 2 ^ 31) (h : Accepted sz nproc size buffer) :
    Confined sz ptable nproc size buffer ↔
      ∀ j, Reached ptable nproc j → HasParent ptable j ∧ PROC_US * (j + 1) ≤ size := by
  obtain ⟨hpos, hinside⟩ := argptr_inside hsz h32 h.1
  have hcall : ∀ entries, (∃ entries', sysGetptable sz ptable nproc size buffer entries = .ok (some entries')) ↔
      ∃ entries', copyLoop ptable nproc.toNat 0 0 entries = .ok entries' := by
    intro entries
    unfold sysGetptable
    rw [if_pos h.1, if_neg (not_not.mpr h.2)]
    cases hres : Compiled.getptable ptable nproc entries with
    | error e | ok entries' => simp_all [Compiled.getptable, copyTable]
  have hroom : ∀ j, j < size.toNat / PROC_US ↔ (PROC_US * (j + 1) : ℤ) ≤ size := by
    intro j
    unfold PROC_US
    omega
  have hloop := fun entries => copyLoop_ok_iff ptable nproc.toNat 0 entries fun p hp => by omega
  constructor
  · rintro ⟨hok, -⟩ j ⟨hj, hall⟩
    have hlen : (replicate (size.toNat / PROC_US)
        (⟨0, .UNUSED, 0, 0, fun _ => 0, (ptable 0).lab.lab⟩ : ProcUs Compiled.Fields)).length =
        size.toNat / PROC_US := length_replicate
    obtain ⟨hparent, hlt⟩ := (hloop _).mp ((hcall _).mp (hok _ hlen)) j (by omega) (by omega) hall
    rw [hlen, hroom] at hlt
    exact ⟨hparent, hlt⟩
  · intro hall
    refine ⟨fun entries hlen => (hcall _).mpr ((hloop _).mpr fun j _ hj hused => ?_), hinside⟩
    rw [hlen, hroom]
    exact hall j ⟨by omega, hused⟩

/-- A table of processes that are their own parents. -/
def full : Ptable Compiled.Fields :=
  fun p => ⟨.RUNNABLE, p.val, some p, none, false, 4096, fun _ => 0, ⟨⟨0, 0, 0, 0, 0⟩, 0⟩⟩

theorem ps_confined : Confined 8192 full NPROC (NPROC * PROC_US) 0 :=
  (getptable_confined full 8192 NPROC (NPROC * PROC_US) 0 (by decide) (by decide) (by decide)).mpr
    fun j hj => ⟨⟨by exact_mod_cast hj.1, by simp [full]⟩, by
      have := hj.1
      simp only [PROC_US, NPROC] at *
      omega⟩

set_option maxRecDepth 4000 in
/-- The first process alone, a product that wraps around, and one entry more than the table has. -/
theorem getptable_astray : (Accepted 4096 1 56 0 ∧ ¬ Confined 4096 (booted _ ⟨⟨0, 0, 0, 0, 0⟩, 0⟩) 1 56 0) ∧
      (Accepted 4096 (2 ^ 29) 0 0 ∧ ¬ Confined 4096 full (2 ^ 29) 0 0) ∧
      Accepted 4096 65 3640 0 ∧ ¬ Confined 4096 full 65 3640 0 := by
  refine ⟨⟨by decide, fun h => ?_⟩, ⟨by decide, fun h => ?_⟩, by decide, fun h => ?_⟩
  · obtain ⟨_, h⟩ := h.1 [⟨0, .UNUSED, 0, 0, fun _ => 0, ⟨⟨0, 0, 0, 0, 0⟩, 0⟩⟩] rfl
    cases h
  · obtain ⟨_, h⟩ := h.1 [] rfl
    cases h
  · obtain ⟨_, h⟩ := h.1 (replicate 65 ⟨0, .UNUSED, 0, 0, fun _ => 0, ⟨⟨0, 0, 0, 0, 0⟩, 0⟩⟩) rfl
    cases h

end LearnXv6.Sched.Getptable
