import LearnXv6.Thread.Model

/-! What the steps of the process table do. -/
namespace LearnXv6.Thread
open Function Store List

variable {κ : Type} {s s' s₀ : State κ} {c : κ} {p q np : Slot} {x x' : Proc} {es : List Event}
  {f : File} {i : Fd} {r : ℤ} {a : Action κ}

/-- How many descriptors of a process point to the file. -/
def Proc.uses (x : Proc) (f : File) : ℕ := tally id x.ofile f

/-- A slot keeps its memory and its files. A parent changes only for a child that is not a thread. -/
structure Soft (x x' : Proc) : Prop where
  pid : x'.pid = x.pid
  pgdir : x'.pgdir = x.pgdir
  kstack : x'.kstack = x.kstack
  isthread : x'.isthread = x.isthread
  ofile : x'.ofile = x.ofile
  cwd : x'.cwd = x.cwd
  context : x'.context = .exit → x.context = .exit
  parent : x'.parent = x.parent ∨ x.isthread = false ∧ x.parent ≠ none

variable {chan : Option Chan}

lemma Soft.state {state : ProcState} {killed : Bool} :
    Soft x { x with state := state, chan := chan, killed := killed } :=
  ⟨rfl, rfl, rfl, rfl, rfl, rfl, id, .inl rfl⟩

lemma Soft.refl : Soft x x := .state

lemma Soft.user : Soft x { x with context := .user } :=
  ⟨rfl, rfl, rfl, rfl, rfl, rfl, by simp, .inl rfl⟩

lemma Soft.trans {y : Proc} (h : Soft x y) (h' : Soft y x') : Soft x x' where
  pid := h'.pid.trans h.pid
  pgdir := h'.pgdir.trans h.pgdir
  kstack := h'.kstack.trans h.kstack
  isthread := h'.isthread.trans h.isthread
  ofile := h'.ofile.trans h.ofile
  cwd := h'.cwd.trans h.cwd
  context hx := h.context (h'.context hx)
  parent := by
    have hthread := h.isthread
    rcases h.parent with he | he
    · rcases h'.parent with he' | he'
      · exact .inl (he'.trans he)
      · rw [hthread, he] at he'
        exact .inr he'
    · exact .inr he

/-- At most a sleeper is woken. -/
def Woken (x x' : Proc) : Prop :=
  x'.state = x.state ∨ x.state = .sleeping ∧ x'.state = .runnable

lemma Woken.refl : Woken x x := .inl rfl

lemma Woken.trans {y : Proc} (h : Woken x y) (h' : Woken y x') : Woken x x' := by
  rcases h with h | h
  · rcases h' with h' | h'
    · exact .inl (h'.trans h)
    · exact .inr ⟨h ▸ h'.1, h'.2⟩
  · rcases h' with h' | h'
    · exact .inr ⟨h.1, h'.trans h.2⟩
    · rw [h.2] at h'
      cases h'.1

/-- Nothing is freed. -/
def Quiet (es : List Event) : Prop := (∀ d, .freevm d ∉ es) ∧ ∀ p, .kfree p ∉ es

lemma Quiet.nil : Quiet [] := ⟨fun _ => not_mem_nil, fun _ => not_mem_nil⟩

lemma Quiet.returned : Quiet [.returned p r] := by
  constructor
  · intro d
    simp
  · intro p
    simp

/-- What stays when neither memory nor a file changes hands. -/
structure Rest (s s' : State κ) : Prop where
  nextpid : s'.nextpid = s.nextpid
  free : s'.free = s.free
  ref : s'.ref = s.ref

lemma Rest.refl : Rest s s := ⟨rfl, rfl, rfl⟩

variable {u : State κ}

lemma Rest.trans (h : Rest s u) (h' : Rest u s') : Rest s s' :=
  ⟨h'.nextpid.trans h.nextpid, h'.free.trans h.free, h'.ref.trans h.ref⟩

inductive Given (s : State κ) (p : Slot) (x : Proc) (free : List Page) : Prop
  | fork (k d : Page) (hfree : s.free = k :: d :: free) (hk : x.kstack = some k)
      (hd : x.pgdir = some d) (ht : x.isthread = false)
  | clone (k : Page) (hfree : s.free = k :: free) (hk : x.kstack = some k)
      (hd : x.pgdir = (s.proc p).pgdir) (ht : x.isthread = true)

structure Refiled (x x' : Proc) : Prop where
  state : x'.state = x.state
  pid : x'.pid = x.pid
  pgdir : x'.pgdir = x.pgdir
  kstack : x'.kstack = x.kstack
  isthread : x'.isthread = x.isthread
  parent : x'.parent = x.parent
  exit : x'.context = .exit → (∀ i, x'.ofile i = none) ∧ x'.cwd = none

/-! The files. -/

lemma fileclose_eq (h : fileclose f s = .ok s') :
    1 ≤ s.ref f ∧ s' = { s with ref := update s.ref f (s.ref f - 1) } := by
  unfold fileclose at h
  obtain ⟨hf, h⟩ := else_eq_ok.mp h
  cases h
  exact ⟨not_lt.mp hf, rfl⟩

lemma filedup_eq (h : filedup f s = .ok s') : s' = { s with ref := update s.ref f (s.ref f + 1) } := by
  unfold filedup at h
  split at h
  · cases h
  · cases h
    rfl

/-- Only the descriptors of the process and the counts of the files change. -/
structure Filed (p : Slot) (s s' : State κ) : Prop where
  self : ∃ o, s'.proc p = { s.proc p with ofile := o }
  other : ∀ q ≠ p, s'.proc q = s.proc q
  cpu : s'.cpu = s.cpu
  nextpid : s'.nextpid = s.nextpid
  free : s'.free = s.free

/-- The counts change as the descriptors do. -/
def Balanced (p : Slot) (s s' : State κ) : Prop :=
  ∀ f, s'.ref f + (s.proc p).uses f = s.ref f + (s'.proc p).uses f

lemma Filed.refl : Filed p s s := ⟨⟨_, rfl⟩, fun _ _ => rfl, rfl, rfl, rfl⟩

lemma Filed.trans (h : Filed p s u) (h' : Filed p u s') : Filed p s s' where
  self := by
    obtain ⟨o, ho⟩ := h.self
    obtain ⟨o', ho'⟩ := h'.self
    exact ⟨o', by rw [ho', ho]⟩
  other q hq := (h'.other q hq).trans (h.other q hq)
  cpu := h'.cpu.trans h.cpu
  nextpid := h'.nextpid.trans h.nextpid
  free := h'.free.trans h.free

lemma Balanced.refl : Balanced p s s := fun _ => rfl

lemma Balanced.trans (h : Balanced p s u) (h' : Balanced p u s') : Balanced p s s' := by
  intro f
  have h1 := h f
  have h2 := h' f
  omega

lemma setFile_filed {o : Option File} {ref : File → ℕ} : Filed p s { setFile p i o s with ref := ref } := by
  refine ⟨?_, fun q hq => ?_, rfl, rfl, rfl⟩
  · exact ⟨update (s.proc p).ofile i o, by simp [setFile, State.set]⟩
  · simp [setFile, State.set, update_of_ne hq]

lemma setFile_balanced {o : Option File} {ref : File → ℕ}
    (href : ∀ f, ref f + (if (s.proc p).ofile i = some f then 1 else 0) =
      s.ref f + if o = some f then 1 else 0) :
    Balanced p s { setFile p i o s with ref := ref } := by
  intro f
  have hupdate := tally_update (f := id) (p := (s.proc p).ofile) (t := i) (g := o) (i := f)
  have hf := href f
  simp only [setFile, State.set, update_self, Proc.uses, id] at hupdate ⊢
  omega

lemma setFile_ofile {o : Option File} {j : Fd} :
    ((setFile p i o s).proc p).ofile j = if j = i then o else (s.proc p).ofile j := by
  simp only [setFile, State.set, update_self, update_apply]

lemma closed_balanced (hi : (s.proc p).ofile i = some f) (hf : 1 ≤ s.ref f) :
    Balanced p s { setFile p i none s with ref := update s.ref f (s.ref f - 1) } := by
  refine setFile_balanced fun g => ?_
  rw [hi, if_neg (show ¬ none = some g by simp)]
  by_cases hg : g = f
  · subst hg
    simp
    omega
  · rw [update_of_ne hg, if_neg (by simpa using Ne.symm hg)]

lemma opened_balanced (hi : (s.proc p).ofile i = none) :
    Balanced p s { setFile p i (some f) s with ref := update s.ref f (s.ref f + 1) } := by
  refine setFile_balanced fun g => ?_
  rw [hi, if_neg (show ¬ none = some g by simp)]
  by_cases hg : g = f
  · subst hg
    simp
  · rw [update_of_ne hg, if_neg (by simpa using Ne.symm hg)]

lemma closeFile_spec (h : closeFile p s i = .ok s') : Filed p s s' ∧ Balanced p s s' ∧
    ∀ j, (s'.proc p).ofile j = if j = i then none else (s.proc p).ofile j := by
  unfold closeFile at h
  split at h
  · rename_i hi
    cases h
    refine ⟨.refl, .refl, fun j => ?_⟩
    split
    · rename_i hj
      rw [hj, hi]
    · rfl
  · rename_i g hi
    obtain ⟨u, hclose, rfl⟩ := map_eq_ok.mp h
    obtain ⟨hg, rfl⟩ := fileclose_eq hclose
    exact ⟨setFile_filed, closed_balanced hi hg, fun j => setFile_ofile⟩

lemma closeFiles_spec {l : List Fd} (h : l.foldlM (closeFile p) s = .ok s') :
    Filed p s s' ∧ Balanced p s s' ∧ ∀ i ∈ l, (s'.proc p).ofile i = none := by
  have hinv := foldlM_invariant (f := closeFile p) (I := fun done u => Filed p s u ∧
    Balanced p s u ∧ ∀ i ∈ done, (u.proc p).ofile i = none) ?_ l [] s s' ⟨.refl, .refl, by simp⟩ h
  · simpa using hinv
  · rintro done i u u' ⟨hfiled, hbal, hnone⟩ hstep
    obtain ⟨hfiled', hbal', hofile⟩ := closeFile_spec hstep
    refine ⟨hfiled.trans hfiled', hbal.trans hbal', fun j hj => ?_⟩
    rw [hofile]
    split
    · rfl
    · rename_i hji
      rw [mem_append, mem_singleton] at hj
      exact hnone j (hj.resolve_right hji)

lemma copyFile_spec (h : copyFile p np s i = .ok s') : Filed np s s' ∧
    ((s.proc np).ofile i = none → Balanced np s s') ∧
    ∀ j ≠ i, (s'.proc np).ofile j = (s.proc np).ofile j := by
  unfold copyFile at h
  split at h
  · cases h
    exact ⟨.refl, fun _ => .refl, fun _ _ => rfl⟩
  · rename_i g hi
    obtain ⟨u, hdup, rfl⟩ := map_eq_ok.mp h
    obtain rfl := filedup_eq hdup
    exact ⟨setFile_filed, opened_balanced, fun j hj => setFile_ofile.trans (if_neg hj)⟩

lemma copyFiles_spec {l : List Fd} (hl : l.Nodup) (h : l.foldlM (copyFile p np) s = .ok s') :
    Filed np s s' ∧ ((∀ i ∈ l, (s.proc np).ofile i = none) → Balanced np s s') := by
  induction l generalizing s with
  | nil =>
    cases h
    exact ⟨.refl, fun _ => .refl⟩
  | cons i l ih =>
    rw [foldlM_cons] at h
    obtain ⟨u, hfirst, hrest⟩ := bind_eq_ok.mp h
    obtain ⟨hfiled, hbal, hofile⟩ := copyFile_spec hfirst
    obtain ⟨hfiled', hbal'⟩ := ih (nodup_cons.mp hl).2 hrest
    refine ⟨hfiled.trans hfiled', fun hnone => ?_⟩
    refine (hbal (hnone i (by simp))).trans (hbal' fun j hj => ?_)
    have hji : j ≠ i := by
      rintro rfl
      exact (nodup_cons.mp hl).1 hj
    rw [hofile j hji]
    exact hnone j (by simp [hj])

lemma fdalloc_eq (h : fdalloc p f s = some (i, s')) :
    (s.proc p).ofile i = none ∧ s' = setFile p i (some f) s := by
  unfold fdalloc at h
  obtain ⟨j, hj, he⟩ := Option.map_eq_some_iff.mp h
  cases he
  exact ⟨by simpa using find?_some hj, rfl⟩

lemma sysOpen_spec {found : Bool} (h : sysOpen p found s = .ok (s', r)) :
    Filed p s s' ∧ Balanced p s s' := by
  unfold sysOpen at h
  split at h
  · cases h
    exact ⟨.refl, .refl⟩
  split at h
  · cases h
    exact ⟨.refl, .refl⟩
  rename_i g u halloc
  unfold filealloc at halloc
  obtain ⟨g', hfind, hg⟩ := Option.map_eq_some_iff.mp halloc
  cases hg
  have hzero : s.ref g = 0 := by simpa using find?_some hfind
  split at h
  · -- no descriptor is free, and the file is closed again
    obtain ⟨v, hclose, hv⟩ := map_eq_ok.mp h
    cases hv
    obtain ⟨_, rfl⟩ := fileclose_eq hclose
    refine ⟨⟨⟨_, rfl⟩, fun _ _ => rfl, rfl, rfl, rfl⟩, fun f => ?_⟩
    by_cases hf : f = g
    · subst hf
      simp [hzero]
    · simp [update_of_ne hf]
  · rename_i i v hfd
    cases h
    obtain ⟨hnone, rfl⟩ := fdalloc_eq hfd
    have hopened : Balanced p s _ := opened_balanced (f := g) hnone
    rw [hzero] at hopened
    exact ⟨setFile_filed, hopened⟩

lemma sysDup_spec {fd : ℤ} (h : sysDup p fd s = .ok (s', r)) : Filed p s s' ∧ Balanced p s s' := by
  unfold sysDup at h
  split at h
  · cases h
    exact ⟨.refl, .refl⟩
  split at h
  · cases h
    exact ⟨.refl, .refl⟩
  rename_i g _ _ i u hfd
  obtain ⟨hnone, rfl⟩ := fdalloc_eq hfd
  obtain ⟨v, hdup, hv⟩ := map_eq_ok.mp h
  cases hv
  obtain rfl := filedup_eq hdup
  exact ⟨setFile_filed, opened_balanced hnone⟩

lemma argfd_eq {fd : ℤ} {r : Fd × File} (h : argfd p fd s = some r) : (s.proc p).ofile r.1 = some r.2 := by
  unfold argfd at h
  split at h
  · obtain ⟨f, hf, rfl⟩ := Option.map_eq_some_iff.mp h
    exact hf
  · cases h

lemma sysClose_spec {fd : ℤ} (h : sysClose p fd s = .ok (s', r)) : Filed p s s' ∧ Balanced p s s' := by
  unfold sysClose at h
  split at h
  · cases h
    exact ⟨.refl, .refl⟩
  rename_i i g harg
  obtain ⟨v, hclose, hv⟩ := map_eq_ok.mp h
  cases hv
  obtain ⟨hg, rfl⟩ := fileclose_eq hclose
  exact ⟨setFile_filed, closed_balanced (argfd_eq harg) hg⟩

lemma running_eq {points : List Context} (h : running c points s = .ok p) :
    s.cpu c = some p ∧ (s.proc p).context ∈ points := by
  unfold running at h
  split at h
  · rename_i q hq
    obtain ⟨hp, h⟩ := then_eq_ok.mp h
    cases h
    exact ⟨hq, hp⟩
  · cases h

/-! The processes. -/

@[simp] lemma set_self : (s.set p x).proc p = x := by simp [State.set]

@[simp] lemma set_of_ne (h : q ≠ p) : (s.set p x).proc q = s.proc q := by
  simp [State.set, update_of_ne h]

lemma set_soft (h : Soft (s.proc p) x) (q : Slot) : Soft (s.proc q) ((s.set p x).proc q) := by
  by_cases hq : q = p
  · subst hq
    rwa [set_self]
  · rw [set_of_ne hq]
    exact .refl

lemma wake_soft : Soft x (x.wake chan) := by
  unfold Proc.wake
  split
  · exact .state
  · exact .refl

lemma wake_woken : Woken x (x.wake chan) := by
  unfold Proc.wake
  split
  · rename_i h
    exact .inr ⟨h.1, rfl⟩
  · exact .refl

lemma kill_woken : Woken x x.kill := by
  unfold Proc.kill
  by_cases hx : x.state = .sleeping
  · exact .inr ⟨hx, by simp [hx]⟩
  · exact .inl (by simp [hx])

@[simp] lemma kfree_proc {k : Page} : (kfree k s).proc = s.proc := rfl

lemma freeKstack_eq (h : freeKstack p s = .ok s') : ∃ k, (s.proc p).kstack = some k ∧
    s' = kfree k (s.set p { s.proc p with kstack := none }) := by
  unfold freeKstack at h
  split at h
  · cases h
  · rename_i k hk
    cases h
    exact ⟨k, hk, rfl⟩

inductive Alloced (s : State κ) : Option Slot → State κ → Prop
  | full : Alloced s none s
  | short (p : Slot) (hp : (s.proc p).state = .unused) (hfree : s.free = []) : Alloced s none
      ({ s with nextpid := s.nextpid + 1 }.set p
        { s.proc p with state := .unused, pid := s.nextpid, kstack := none })
  | found (p : Slot) (k : Page) (free : List Page) (hp : (s.proc p).state = .unused)
      (hfree : s.free = k :: free) : Alloced s (some p)
      ({ s with nextpid := s.nextpid + 1, free := free }.set p { s.proc p with
        state := .embryo, pid := s.nextpid, kstack := some k, isthread := false, context := .user })

lemma set_set {y : Proc} : (s.set p x).set p y = s.set p y := by
  simp [State.set, update_idem]

lemma allocproc_spec {o : Option Slot} (h : allocproc s = (o, s')) : Alloced s o s' := by
  unfold allocproc at h
  split at h
  · cases h
    exact .full
  · rename_i p hfind
    have hp : (s.proc p).state = .unused := by simpa using find?_some hfind
    simp only [kalloc, State.set] at h
    split at h
    · rename_i hk
      split at hk
      · rename_i hfree
        cases h
        have hshort := Alloced.short p hp hfree
        simpa [State.set] using hshort
      · cases hk
    · rename_i k u hk
      split at hk
      · cases hk
      · rename_i k' free hfree
        cases hk
        cases h
        have hfound := Alloced.found p k free hp hfree
        simpa [State.set] using hfound

lemma Given.congr {free : List Page} (h : Given s p x free) (hk : x'.kstack = x.kstack)
    (hd : x'.pgdir = x.pgdir) (ht : x'.isthread = x.isthread) : Given s p x' free := by
  cases h with
  | fork k d hfree hk' hd' ht' => exact .fork k d hfree (hk.trans hk') (hd.trans hd') (ht.trans ht')
  | clone k hfree hk' hd' ht' => exact .clone k hfree (hk.trans hk') (hd.trans hd') (ht.trans ht')

structure Embryo (s : State κ) (p np : Slot) (u : State κ) : Prop where
  unused : (s.proc np).state = .unused
  pid : (u.proc np).pid = s.nextpid
  parent : (u.proc np).parent = some p
  context : (u.proc np).context = .user
  ofile : (u.proc np).ofile = (s.proc np).ofile
  given : Given s p (u.proc np) u.free
  other : ∀ q ≠ np, u.proc q = s.proc q
  cpu : u.cpu = s.cpu
  nextpid : u.nextpid = s.nextpid + 1
  ref : u.ref = s.ref

lemma Embryo.of_eq {state : ProcState} {pgdir kstack : Option Page} {isthread : Bool}
    {stack : ℕ} (hnp : (s.proc np).state = .unused) (hself : u.proc np = { s.proc np with
      state := state, pid := s.nextpid, parent := some p, pgdir := pgdir, kstack := kstack,
      isthread := isthread, stack := stack, context := .user })
    (hgiven : Given s p { s.proc np with pgdir := pgdir, kstack := kstack, isthread := isthread } u.free)
    (hother : ∀ q ≠ np, u.proc q = s.proc q) (hcpu : u.cpu = s.cpu)
    (hnext : u.nextpid = s.nextpid + 1) (href : u.ref = s.ref) : Embryo s p np u := by
  refine ⟨hnp, ?_, ?_, ?_, ?_, ?_, hother, hcpu, hnext, href⟩
  · rw [hself]
  · rw [hself]
  · rw [hself]
  · rw [hself]
  · rw [hself]
    exact hgiven.congr rfl rfl rfl

lemma copyuvm_eq {room : Bool} {o : Option Page} (h : copyuvm room s = (o, s')) :
    o = none ∧ s' = s ∨ ∃ d free, o = some d ∧ s.free = d :: free ∧ s' = { s with free := free } := by
  unfold copyuvm kalloc at h
  split at h
  · cases h
    exact .inl ⟨rfl, rfl⟩
  · rename_i d u hk
    split at hk
    · cases hk
    · rename_i free hfree
      cases hk
      split at h
      · cases h
        exact .inr ⟨d, free, rfl, hfree, rfl⟩
      · cases h
        refine .inl ⟨rfl, ?_⟩
        rw [kfree, ← hfree]

/-- Every change is soft, at most sleepers are woken, and nothing changes hands. -/
structure Calm (s s' : State κ) : Prop where
  soft : ∀ q, Soft (s.proc q) (s'.proc q)
  woken : ∀ q, Woken (s.proc q) (s'.proc q)
  cpu : s'.cpu = s.cpu
  rest : Rest s s'

lemma Calm.trans (h : Calm s u) (h' : Calm u s') : Calm s s' :=
  ⟨fun q => (h.soft q).trans (h'.soft q), fun q => (h.woken q).trans (h'.woken q),
    h'.cpu.trans h.cpu, h.rest.trans h'.rest⟩

lemma Calm.refl : Calm s s := ⟨fun _ => .refl, fun _ => .refl, rfl, .refl⟩

lemma wakeup1_calm : Calm s (wakeup1 chan s) :=
  ⟨fun _ => wake_soft, fun _ => wake_woken, rfl, ⟨rfl, rfl, rfl⟩⟩

lemma set_calm (h : Soft (s.proc p) x) (hstate : x.state = (s.proc p).state) : Calm s (s.set p x) := by
  refine ⟨set_soft h, fun q => ?_, rfl, ⟨rfl, rfl, rfl⟩⟩
  by_cases hq : q = p
  · subst hq
    rw [set_self]
    exact .inl hstate
  · rw [set_of_ne hq]
    exact .refl

lemma abandon_calm {es' : List Event} (hchild : (s.proc q).parent = some p → (s.proc q).isthread = false)
    (h : abandon p (s, es) q = .ok (s', es')) : Calm s s' ∧ es' = es := by
  simp only [abandon] at h
  split at h
  · rename_i hparent
    split at h
    · rename_i hthread
      rw [hchild hparent] at hthread
      cases hthread
    cases h
    refine ⟨?_, rfl⟩
    have hset : Calm s (s.set q { s.proc q with parent := some s.initproc }) :=
      set_calm ⟨rfl, rfl, rfl, rfl, rfl, rfl, id, .inr ⟨hchild hparent, by simp [hparent]⟩⟩ rfl
    split
    · exact hset.trans wakeup1_calm
    · exact hset
  · cases h
    exact ⟨.refl, rfl⟩

/-- What the scan of `wait` and of `join` may do with a zombie. -/
structure Reaped (s : State κ) (q : Slot) (k : Page) (freed : Option Page) (s' : State κ) : Prop where
  kstack : (s.proc q).kstack = some k
  self : s'.proc q = { (s.proc q).reset with kstack := none }
  other : ∀ r ≠ q, s'.proc r = s.proc r
  cpu : s'.cpu = s.cpu
  nextpid : s'.nextpid = s.nextpid
  free : s'.free = freed.toList ++ k :: s.free
  ref : s'.ref = s.ref

lemma reapWait_spec (h : reapWait p q s = .ok (s', es)) : ∃ k d, (s.proc q).pgdir = some d ∧
    Reaped s q k (some d) s' ∧ es = [.kfree q, .freevm d, .returned p (s.proc q).pid] := by
  unfold reapWait at h
  obtain ⟨u, hfree, hu⟩ := bind_eq_ok.mp h
  obtain ⟨k, hk, rfl⟩ := freeKstack_eq hfree
  split at hu
  · cases hu
  · rename_i d hd
    cases hu
    have hd' : (s.proc q).pgdir = some d := by simpa [kfree] using hd
    refine ⟨k, d, hd', ⟨hk, ?_, fun r hr => ?_, rfl, rfl, rfl, rfl⟩, rfl⟩
    · rw [set_self]
      simp [kfree, Proc.reset]
    · rw [set_of_ne hr]
      simp [kfree, hr]

lemma reapJoin_spec (h : reapJoin p q s = .ok (s', es)) : ∃ k, Reaped s q k none s' ∧
    es = [.kfree q, .stack p (s.proc q).stack, .returned p (s.proc q).pid] := by
  unfold reapJoin at h
  obtain ⟨u, hfree, hu⟩ := bind_eq_ok.mp h
  obtain ⟨k, hk, rfl⟩ := freeKstack_eq hfree
  cases hu
  refine ⟨k, ⟨hk, ?_, fun r hr => ?_, rfl, rfl, rfl, rfl⟩, by simp [kfree]⟩
  · rw [set_self]
    simp [kfree, Proc.reset]
  · rw [set_of_ne hr]
    simp [kfree, hr]

variable [DecidableEq κ]

/-- What a step does when no thread is taken down with its parent. -/
inductive Does (s : State κ) (a : Action κ) : State κ → List Event → Prop
  | touch {s' : State κ} {es : List Event} (hsoft : ∀ q, Soft (s.proc q) (s'.proc q))
      (hwoken : ∀ q, Woken (s.proc q) (s'.proc q)) (hcpu : s'.cpu = s.cpu) (hrest : Rest s s')
      (hes : Quiet es) : Does s a s' es
  | schedule {s' : State κ} (c : κ) (p : Slot) (hc : s.cpu c = none)
      (hp : (s.proc p).state = .runnable) (hsoft : ∀ q, Soft (s.proc q) (s'.proc q))
      (hp' : (s'.proc p).state = .running) (hother : ∀ q ≠ p, s'.proc q = s.proc q)
      (hcpu : s'.cpu = update s.cpu c (some p)) (hrest : Rest s s') : Does s a s' []
  | leave {s' : State κ} (c : κ) (p : Slot) (hc : s.cpu c = some p)
      (hsoft : ∀ q, Soft (s.proc q) (s'.proc q))
      (hp' : (s'.proc p).state = .runnable ∨ (s'.proc p).state = .sleeping)
      (hother : ∀ q ≠ p, s'.proc q = s.proc q)
      (hcpu : s'.cpu = update s.cpu c none) (hrest : Rest s s') : Does s a s' []
  | miss {s' : State κ} {es : List Event} (p : Slot) (hp : (s.proc p).state = .unused)
      (hp' : (s'.proc p).state = .unused) (hparent : (s'.proc p).parent = (s.proc p).parent)
      (hofile : (s'.proc p).ofile = (s.proc p).ofile) (hcwd : (s'.proc p).cwd = (s.proc p).cwd)
      (hother : ∀ q ≠ p, s'.proc q = s.proc q) (hcpu : s'.cpu = s.cpu)
      (hpid : s.nextpid ≤ s'.nextpid) (hfree : s'.free = s.free) (href : s'.ref = s.ref)
      (hes : Quiet es) : Does s a s' es
  | create {s' : State κ} {es : List Event} (c : κ) (p np : Slot) (hc : s.cpu c = some p)
      (hnp : (s.proc np).state = .unused) (hnp' : (s'.proc np).state = .runnable)
      (hpid : (s'.proc np).pid = s.nextpid) (hnext : s'.nextpid = s.nextpid + 1)
      (hparent : (s'.proc np).parent = some p) (hcontext : (s'.proc np).context = .user)
      (hgiven : Given s p (s'.proc np) s'.free)
      (hfiles : (∀ i, (s.proc np).ofile i = none) →
        ∀ f, s'.ref f = s.ref f + (s'.proc np).uses f)
      (hother : ∀ q ≠ np, s'.proc q = s.proc q) (hcpu : s'.cpu = s.cpu) (hes : Quiet es) :
      Does s a s' es
  | files {s' : State κ} {es : List Event} (c : κ) (p : Slot) (hc : s.cpu c = some p)
      (hp : Refiled (s.proc p) (s'.proc p))
      (hfiles : ∀ f, s'.ref f + (s.proc p).uses f = s.ref f + (s'.proc p).uses f)
      (hother : ∀ q ≠ p, s'.proc q = s.proc q) (hcpu : s'.cpu = s.cpu)
      (hpid : s'.nextpid = s.nextpid) (hfree : s'.free = s.free) (hes : Quiet es) : Does s a s' es
  | die {s' : State κ} {es : List Event} (c : κ) (p : Slot) (hc : s.cpu c = some p)
      (hcontext : (s.proc p).context = .exit)
      (hchildren : ∀ q, (s.proc q).parent = some p → (s.proc q).isthread = false)
      (hsoft : ∀ q, Soft (s.proc q) (s'.proc q)) (hp' : (s'.proc p).state = .zombie)
      (hwoken : ∀ q ≠ p, Woken (s.proc q) (s'.proc q))
      (hcpu : s'.cpu = update s.cpu c none) (hrest : Rest s s') (hes : Quiet es) :
      Does s a s' es
  | reap {s' : State κ} {es : List Event} (c : κ) (p q : Slot) (k : Page) (freed : Option Page)
      (hc : s.cpu c = some p) (hq : (s.proc q).state = .zombie) (hparent : (s.proc q).parent = some p)
      (hk : (s.proc q).kstack = some k)
      (hfreed : a = .wait c ∧ freed = (s.proc q).pgdir ∨ freed = none ∧ (s.proc q).isthread = true)
      (hq' : (s'.proc q).state = .unused) (hreset : (s'.proc q).parent = none)
      (hofile : (s'.proc q).ofile = (s.proc q).ofile) (hcwd : (s'.proc q).cwd = (s.proc q).cwd)
      (hsoft : ∀ r ≠ q, Soft (s.proc r) (s'.proc r))
      (hother : ∀ r ≠ q, (s'.proc r).state = (s.proc r).state)
      (hcpu : s'.cpu = s.cpu) (hpid : s'.nextpid = s.nextpid)
      (hfree : s'.free = freed.toList ++ k :: s.free) (href : s'.ref = s.ref)
      (hvm : ∀ d, .freevm d ∈ es → freed = some d) (hstack : ∀ r, .kfree r ∈ es → r = q) :
      Does s a s' es

lemma Calm.does (h : Calm s s') (hes : Quiet es) : Does s a s' es :=
  .touch h.soft h.woken h.cpu h.rest hes

lemma Refiled.of_eq {o : Fd → Option File} {cwd : Option ℕ} {t : Context}
    (hx' : x' = { x with ofile := o, cwd := cwd, context := t })
    (hexit : t = .exit → (∀ i, o i = none) ∧ cwd = none) : Refiled x x' := by
  subst hx'
  exact ⟨rfl, rfl, rfl, rfl, rfl, rfl, hexit⟩

lemma Filed.does (hfiled : Filed p s s') (hbal : Balanced p s s') (hc : s.cpu c = some p)
    (hcontext : (s.proc p).context ∈ [Context.user]) (hes : Quiet es) : Does s a s' es := by
  obtain ⟨o, hself⟩ := hfiled.self
  refine .files c p hc (.of_eq hself fun hx => ?_) hbal hfiled.other hfiled.cpu
    hfiled.nextpid hfiled.free hes
  simp [hx] at hcontext

lemma exitFiles_does (h : exitFiles p s = .ok s') (hc : s.cpu c = some p) : Does s a s' [] := by
  unfold exitFiles at h
  split at h
  · cases h
  obtain ⟨u, hloop, hu⟩ := bind_eq_ok.mp h
  cases hu
  obtain ⟨hfiled, hbal, hnone⟩ := closeFiles_spec hloop
  obtain ⟨o, hself⟩ := hfiled.self
  have ho : ∀ i, o i = none := fun i => by simpa [hself] using hnone i (mem_finRange i)
  refine .files c p hc (.of_eq (t := .exit) ?_ fun _ => ⟨ho, rfl⟩) ?_ ?_ hfiled.cpu
    hfiled.nextpid hfiled.free .nil
  · rw [set_self, hself]
  · intro f
    simpa [Proc.uses, State.set] using hbal f
  · intro q hq
    rw [set_of_ne hq, hfiled.other q hq]

lemma kill_does {pid : ℕ} (h : kill pid s = (s', r)) (hes : Quiet es) : Does s a s' es := by
  unfold kill at h
  split at h
  · cases h
    exact Calm.refl.does hes
  · cases h
    refine .touch (fun q => ?_) (fun q => ?_) rfl ⟨rfl, rfl, rfl⟩ hes
    · simp only
      split
      · exact .state
      · exact .refl
    · simp only
      split
      · exact kill_woken
      · exact .refl

lemma Embryo.does (hu : Embryo s p np u) (h : start p np u = .ok (s', r))
    (hc : s.cpu c = some p) (hes : Quiet es) : Does s a s' es := by
  unfold start at h
  obtain ⟨v, hloop, hv⟩ := bind_eq_ok.mp h
  cases hv
  obtain ⟨hfiled, hbal⟩ := copyFiles_spec (nodup_finRange NOFILE) hloop
  obtain ⟨o, hself⟩ := hfiled.self
  refine .create c p np hc hu.unused ?_ ?_ (hfiled.nextpid.trans hu.nextpid) ?_ ?_ ?_ ?_ ?_
    (hfiled.cpu.trans hu.cpu) hes
  · rw [set_self]
  · rw [set_self, hself]
    exact hu.pid
  · rw [set_self, hself]
    exact hu.parent
  · rw [set_self, hself]
    exact hu.context
  · have hfree : (v.set np { v.proc np with cwd := (v.proc p).cwd, state := .runnable }).free =
        u.free := hfiled.free
    rw [hfree, set_self, hself]
    exact hu.given.congr rfl rfl rfl
  · intro hclean f
    have hf := hbal (fun i _ => by rw [hu.ofile]; exact hclean i) f
    have hzero : (u.proc np).uses f = 0 := tally_eq_zero fun i => by simp [hu.ofile, hclean]
    rw [hzero, hu.ref] at hf
    simpa [Proc.uses, State.set] using hf
  · intro q hq
    rw [set_of_ne hq, hfiled.other q hq, hu.other q hq]

lemma Does.missed {pid : ℕ} {pgdir kstack : Option Page} {isthread : Bool} {context : Context}
    (hp : (s.proc p).state = .unused) (hself : s'.proc p = { s.proc p with
      state := .unused, pid := pid, pgdir := pgdir, kstack := kstack, isthread := isthread,
      context := context })
    (hother : ∀ q ≠ p, s'.proc q = s.proc q) (hcpu : s'.cpu = s.cpu) (hpid : s.nextpid ≤ s'.nextpid)
    (hfree : s'.free = s.free) (href : s'.ref = s.ref) (hes : Quiet es) : Does s a s' es := by
  refine .miss p hp ?_ ?_ ?_ ?_ hother hcpu hpid hfree href hes
  · rw [hself]
  · rw [hself]
  · rw [hself]
  · rw [hself]

lemma Alloced.miss (h : Alloced s none s') (hes : Quiet es) : Does s a s' es := by
  cases h with
  | full => exact Calm.refl.does hes
  | short p hp hfree =>
    exact .missed hp set_self (fun q hq => set_of_ne hq) rfl (Nat.le_succ _) rfl rfl hes

lemma clone_does {stack : ℕ} (h : clone p stack s = .ok (s', r)) (hc : s.cpu c = some p)
    (hp : (s.proc p).state = .running) (hes : Quiet es) : Does s a s' es := by
  unfold clone at h
  split at h
  · rename_i u halloc
    cases h
    exact (allocproc_spec halloc).miss hes
  · rename_i np u halloc
    have hu := allocproc_spec halloc
    cases hu with
    | found _ k free hnp hfree =>
      have hpnp : p ≠ np := by
        rintro rfl
        rw [hp] at hnp
        cases hnp
      rw [set_self, set_set, set_of_ne hpnp] at h
      refine Embryo.does ?_ h hc hes
      exact .of_eq hnp set_self (.clone k hfree rfl rfl rfl) (fun q hq => set_of_ne hq) rfl rfl rfl

lemma fork_does {room : Bool} (h : fork p room s = .ok (s', r)) (hc : s.cpu c = some p)
    (hes : Quiet es) : Does s a s' es := by
  unfold fork at h
  split at h
  · rename_i u halloc
    cases h
    exact (allocproc_spec halloc).miss hes
  · rename_i np u halloc
    have hu := allocproc_spec halloc
    cases hu with
    | found _ k free hnp hfree =>
      split at h
      · -- the kernel stack is given back
        rename_i v hcopy
        obtain ⟨_, rfl⟩ | ⟨d, _, hd, _⟩ := copyuvm_eq hcopy
        · obtain ⟨w, hw, hs'⟩ := bind_eq_ok.mp h
          cases hs'
          obtain ⟨k', hk', rfl⟩ := freeKstack_eq hw
          rw [set_self] at hk'
          cases hk'
          simp only [kfree_proc, set_self]
          refine .missed hnp set_self (fun q hq => ?_) rfl (Nat.le_succ _) hfree.symm rfl hes
          simp [hq]
        · cases hd
      · rename_i d v hcopy
        obtain ⟨hd, _⟩ | ⟨d', free', hd, hfree', rfl⟩ := copyuvm_eq hcopy
        · cases hd
        · cases hd
          rw [set_self] at h
          refine Embryo.does ?_ h hc hes
          refine .of_eq hnp set_self (.fork k d ?_ rfl rfl rfl) (fun q hq => ?_) rfl rfl rfl
          · rw [hfree]
            exact congrArg (k :: ·) hfree'
          · rw [set_of_ne hq]
            exact set_of_ne hq

lemma exitLocked_does (hchildren : ∀ q, (s.proc q).parent = some p → (s.proc q).isthread = false)
    (h : exitLocked p s = .ok (s', es)) (hc : s.cpu c = some p)
    (hcontext : (s.proc p).context ∈ [Context.exit]) : Does s a (sched c s') es := by
  unfold exitLocked at h
  obtain ⟨⟨u, es'⟩, hloop, hu⟩ := bind_eq_ok.mp h
  cases hu
  have hinv := foldlM_invariant (f := abandon p) (I := fun _ r => Calm s r.1 ∧ r.2 = []) ?_
    (finRange NPROC) [] _ _ ⟨wakeup1_calm, rfl⟩ hloop
  · have hcalm : Calm s u := hinv.1
    obtain rfl : es = [] := hinv.2
    have hset := set_soft (s := u) (p := p) (x := { u.proc p with state := .zombie }) .state
    refine .die c p hc (by simpa using hcontext) hchildren
      (fun q => (hcalm.soft q).trans (hset q)) ?_ (fun q hq => ?_) ?_ (hcalm.rest.trans ⟨rfl, rfl, rfl⟩) .nil
    · simp [sched]
    · have hw := hcalm.woken q
      simpa [sched, hq] using hw
    · simp [sched, State.set, hcalm.cpu]
  · rintro done q ⟨v, es⟩ ⟨v', es'⟩ ⟨hcalm, hnil⟩ hstep
    have hchild : (v.proc q).parent = some p → (v.proc q).isthread = false := by
      intro hq
      rw [(hcalm.soft q).isthread]
      rcases (hcalm.soft q).parent with he | he
      · exact hchildren q (he ▸ hq)
      · exact he.1
    obtain ⟨hcalm', hes⟩ := abandon_calm hchild hstep
    exact ⟨hcalm.trans hcalm', hes.trans hnil⟩

lemma scan_cases {child : Proc → Bool} {context : Context}
    {reap : Slot → State κ → Except Stop (State κ × List Event)}
    (h : scan c p child context reap s = .ok (s', es)) (hc : s.cpu c = some p)
    (hcontext : context ≠ .exit) : Does s a s' es ∨ ∃ q, child (s.proc q) ∧ (s.proc q).state = .zombie ∧
        reap q (s.set p { s.proc p with context := .user }) = .ok (s', es) := by
  unfold scan at h
  split at h
  · rename_i q hfind
    unfold findZombie at hfind
    have hq := find?_some hfind
    rw [Bool.and_eq_true, decide_eq_true_eq] at hq
    exact .inr ⟨q, hq.1, hq.2, h⟩
  · left
    split at h
    · cases h
      exact (set_calm .user rfl).does .returned
    · cases h
      refine .leave c p hc (set_soft ⟨rfl, rfl, rfl, rfl, rfl, rfl, fun hx => absurd hx hcontext,
        .inl rfl⟩) (.inr ?_) (fun q hq => set_of_ne hq) rfl ⟨rfl, rfl, rfl⟩
      simp [sched]

lemma Reaped.does {k : Page} {freed : Option Page}
    (h : Reaped (s.set p { s.proc p with context := .user }) q k freed s') (hc : s.cpu c = some p)
    (hq : (s.proc q).state = .zombie) (hparent : (s.proc q).parent = some p)
    (hfreed : a = .wait c ∧ freed = (s.proc q).pgdir ∨ freed = none ∧ (s.proc q).isthread = true)
    (hvm : ∀ d, .freevm d ∈ es → freed = some d) (hstack : ∀ r, .kfree r ∈ es → r = q) :
    Does s a s' es := by
  have hcalm : Calm s (s.set p { s.proc p with context := .user }) := set_calm .user rfl
  have hsoft := hcalm.soft q
  refine .reap c p q k freed hc hq hparent ?_ hfreed ?_ ?_ ?_ ?_ (fun r hr => ?_) (fun r hr => ?_)
    h.cpu h.nextpid h.free h.ref hvm hstack
  · exact hsoft.kstack ▸ h.kstack
  · rw [h.self]
    rfl
  · rw [h.self]
    rfl
  · rw [h.self]
    exact hsoft.ofile
  · rw [h.self]
    exact hsoft.cwd
  · rw [h.other r hr]
    exact hcalm.soft r
  · rw [h.other r hr]
    by_cases hrp : r = p
    · subst hrp
      rw [set_self]
    · rw [set_of_ne hrp]

lemma wait_does (h : scan c p (waitsFor p) .wait (reapWait p) s = .ok (s', es))
    (hc : s.cpu c = some p) : Does s (.wait c) s' es := by
  rcases scan_cases h hc (by simp) with hd | ⟨q, hchild, hq, hreap⟩
  · exact hd
  · obtain ⟨k, d, hd, hreaped, rfl⟩ := reapWait_spec hreap
    have hsoft := set_soft (s := s) (p := p) .user q
    refine hreaped.does hc hq (by simpa [waitsFor] using hchild) (.inl ⟨rfl, ?_⟩) ?_ ?_
    · rw [← hd, hsoft.pgdir]
    · intro d' hd'
      simp only [mem_cons, reduceCtorEq, Event.freevm.injEq, not_mem_nil, or_false, false_or] at hd'
      rw [hd']
    · intro r hr
      simpa using hr

lemma join_does (h : scan c p (joinsFor p) .join (reapJoin p) s = .ok (s', es))
    (hc : s.cpu c = some p) : Does s a s' es := by
  rcases scan_cases h hc (by simp) with hd | ⟨q, hchild, hq, hreap⟩
  · exact hd
  · obtain ⟨k, hreaped, rfl⟩ := reapJoin_spec hreap
    have hthread : (s.proc q).parent = some p ∧ (s.proc q).isthread = true := by
      simpa [joinsFor] using hchild
    refine hreaped.does hc hq hthread.1 (.inr ⟨rfl, hthread.2⟩) ?_ ?_
    · intro d hd
      simp at hd
    · intro r hr
      simpa using hr

/-- No process exits while it has threads. -/
def Alone (s : State κ) : Action κ → Prop
  | .exitLocked c =>
    ∀ p, s.cpu c = some p → ∀ q, (s.proc q).parent = some p → (s.proc q).isthread = false
  | _ => True

/-- A processor runs a process that is RUNNING, and no other processor runs it. -/
structure OnCpu (s : State κ) : Prop where
  running : ∀ c p, s.cpu c = some p → (s.proc p).state = .running
  unique : ∀ c c' p, s.cpu c = some p → s.cpu c' = some p → c = c'

lemma step_does (hcpu : OnCpu s) (ha : Alone s a) (h : step a s = .ok (s', es)) : Does s a s' es := by
  cases a with
  | schedule c p =>
    simp only [step] at h
    obtain ⟨hp, h⟩ := then_eq_ok.mp h
    cases h
    exact .schedule c p hp.1 hp.2 (set_soft .state)
      (by rw [set_self]) (fun q hq => set_of_ne hq) rfl ⟨rfl, rfl, rfl⟩
  | yield c =>
    obtain ⟨p, hp, h⟩ := bind_eq_ok.mp h
    cases h
    exact .leave c p (running_eq hp).1 (set_soft .state) (.inl (by simp [sched]))
      (fun q hq => set_of_ne hq) rfl ⟨rfl, rfl, rfl⟩
  | sleep c n =>
    obtain ⟨p, hp, h⟩ := bind_eq_ok.mp h
    cases h
    exact .leave c p (running_eq hp).1 (set_soft .state)
      (.inr (by simp [sched])) (fun q hq => set_of_ne hq) rfl ⟨rfl, rfl, rfl⟩
  | wakeup n =>
    cases h
    exact wakeup1_calm.does .nil
  | fork c room =>
    obtain ⟨p, hp, h⟩ := bind_eq_ok.mp h
    obtain ⟨⟨u, r⟩, hfork, h⟩ := bind_eq_ok.mp h
    cases h
    exact fork_does hfork (running_eq hp).1 .returned
  | clone c stack =>
    obtain ⟨p, hp, h⟩ := bind_eq_ok.mp h
    obtain ⟨⟨u, r⟩, hclone, h⟩ := bind_eq_ok.mp h
    cases h
    exact clone_does hclone (running_eq hp).1 (hcpu.running c p (running_eq hp).1) .returned
  | exitFiles c =>
    obtain ⟨p, hp, h⟩ := bind_eq_ok.mp h
    obtain ⟨u, hexit, h⟩ := bind_eq_ok.mp h
    cases h
    exact exitFiles_does hexit (running_eq hp).1
  | exitLocked c =>
    obtain ⟨p, hp, h⟩ := bind_eq_ok.mp h
    obtain ⟨⟨u, es'⟩, hexit, h⟩ := bind_eq_ok.mp h
    cases h
    exact exitLocked_does (ha p (running_eq hp).1) hexit (running_eq hp).1 (running_eq hp).2
  | wait c =>
    obtain ⟨p, hp, h⟩ := bind_eq_ok.mp h
    exact wait_does h (running_eq hp).1
  | join c =>
    obtain ⟨p, hp, h⟩ := bind_eq_ok.mp h
    exact join_does h (running_eq hp).1
  | kill c pid =>
    obtain ⟨p, hp, h⟩ := bind_eq_ok.mp h
    cases h
    exact kill_does rfl .returned
  | sysOpen c found =>
    obtain ⟨p, hp, h⟩ := bind_eq_ok.mp h
    obtain ⟨⟨u, r⟩, hopen, h⟩ := bind_eq_ok.mp h
    cases h
    obtain ⟨hfiled, hbal⟩ := sysOpen_spec hopen
    exact hfiled.does hbal (running_eq hp).1 (running_eq hp).2 .returned
  | dup c fd =>
    obtain ⟨p, hp, h⟩ := bind_eq_ok.mp h
    obtain ⟨⟨u, r⟩, hdup, h⟩ := bind_eq_ok.mp h
    cases h
    obtain ⟨hfiled, hbal⟩ := sysDup_spec hdup
    exact hfiled.does hbal (running_eq hp).1 (running_eq hp).2 .returned
  | close c fd =>
    obtain ⟨p, hp, h⟩ := bind_eq_ok.mp h
    obtain ⟨⟨u, r⟩, hclose, h⟩ := bind_eq_ok.mp h
    cases h
    obtain ⟨hfiled, hbal⟩ := sysClose_spec hclose
    exact hfiled.does hbal (running_eq hp).1 (running_eq hp).2 .returned

end LearnXv6.Thread
