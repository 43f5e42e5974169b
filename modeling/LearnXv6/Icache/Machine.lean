import LearnXv6.Icache.Sole

/-! Processes that use the inode cache in any order, each with the references that it holds. -/
namespace LearnXv6.Icache
open Function Store

variable {τ : Type}

structure Machine (τ : Type) where
  kernel : State τ
  stage : τ → Stage
  /-- the references that were handed out and not yet put -/
  held : Index → ℕ

inductive Event where
  /-- `iput` calls `itrunc`, with `nlink` and `ref` as they are then -/
  | itrunc (nlink ref : ℤ)
  deriving DecidableEq, Repr

/-- The references after an operation. -/
def hand (op : Op) (r : Answer op) (held : Index → ℕ) : Index → ℕ :=
  match op, r with
  | .iget _, i => update held i (held i + 1)
  | .idup i, _ => update held i (held i + 1)
  | .unref i, _ => update held i (held i - 1)
  | _, _ => held

def events (s : State τ) : Op → List Event
  | .itrunc i => [.itrunc (s.inode i).nlink (s.inode i).ref]
  | _ => []

section

variable [Fintype τ] [DecidableEq τ]

instance {S : τ → Stage} {held : Index → ℕ} {s : State τ} {t : τ} :
    ∀ op, Decidable (Starts S held s t op)
  | .idup _ | .ilock _ | .iput _ => inferInstanceAs (Decidable (_ < _))
  | .setLink _ | .addLink _ | .dropLink _ | .write _ _ _ => inferInstanceAs (Decidable (_ ∧ _))
  | .ialloc _ _ => inferInstanceAs (Decidable (_ ≠ _))
  | .iget _ | .iunlock _ | .key _ | .type _ | .nlink _ | .find _ _ | .slot _ | .isdirempty _ =>
    inferInstanceAs (Decidable True)
  | .load _ | .count _ | .itrunc _ | .free _ | .release _ | .unref _ =>
    inferInstanceAs (Decidable False)

instance {S : τ → Stage} {held : Index → ℕ} {s : State τ} {t : τ} {op : Op} :
    Decidable (Permits S held s t op) := inferInstanceAs (Decidable (_ ∨ _ ∧ _))

def step (a : τ × Op) (m : Machine τ) : Except Stop (Machine τ × List Event) :=
  if Permits m.stage m.held m.kernel a.1 a.2 then
    match exec a.1 a.2 m.kernel with
    | .ok (r, s) =>
      .ok (⟨s, update m.stage a.1 (Stage.next a.2 r), hand a.2 r m.held⟩, events m.kernel a.2)
    | .error e => .error e
  else .error .disabled

end

/-- The cache after `iinit`, over a disk. -/
def iinit (disk : Key → Dinode) : Machine τ where
  kernel := ⟨fun _ => ⟨(0, 0), 0, none, false, .free, 0⟩, disk⟩
  stage _ := .idle
  held _ := 0

/-- A condition on the calls of `iget`. -/
def Igets (P : Machine τ → τ → Key → Prop) (m : Machine τ) (a : τ × Op) : Prop :=
  match a.2 with
  | .iget k => P m a.1 k
  | _ => True

/-- The directory has an entry that names the inode. -/
def Names (m : Machine τ) (n : ℕ) (k : Key) : Prop :=
  (m.kernel.disk (k.1, n)).type = .T_DIR ∧ ∃ e ∈ (m.kernel.disk (k.1, n)).entries, e.inum = k.2

/-- `iget` is called for an inode that an entry names, or that the caller has marked. -/
def Naming : Machine τ → τ × Op → Prop :=
  Igets fun m t k => m.stage t = .marked k ∨ ∃ n, Names m n k

/-- `iget` is called for an inode that has links, that the caller has marked or that it has locked. -/
def Linked : Machine τ → τ × Op → Prop := Igets fun m t k => Needed m.stage m.kernel t k

variable [Fintype τ] [DecidableEq τ] {m m' : Machine τ} {a : τ × Op} {es : List Event}
  {s s' : State τ} {held : Index → ℕ} {t : τ} {disk : Key → Dinode}

omit [Fintype τ] [DecidableEq τ] in
lemma ref_set {i j : Index} {ip : Inode τ} : ((s.set i ip).inode j).ref =
    update (fun j => (s.inode j).ref) i ip.ref j := by
  by_cases hj : j = i
  · subst hj
    simp
  · rw [State.set_inode_of_ne hj, update_of_ne hj]

omit [Fintype τ] [DecidableEq τ] in
lemma ref_set_eq {i j : Index} {ip : Inode τ} (h : ip.ref = (s.inode i).ref) :
    ((s.set i ip).inode j).ref = (s.inode j).ref := by
  rw [ref_set, h]
  exact congrFun (update_eq_self i fun j => (s.inode j).ref) j

section

variable (hheld : ∀ i, (s.inode i).ref = held i)
include hheld

omit [Fintype τ] [DecidableEq τ] in
lemma ref_set_update {i j : Index} {ip : Inode τ} {n : ℕ}
    (hn : ip.ref = n) : ((s.set j ip).inode i).ref = update held j n i := by
  rw [ref_set]
  by_cases hi : i = j
  · subst hi
    rw [update_self, update_self, hn]
  · rw [update_of_ne hi, update_of_ne hi, hheld]

omit [Fintype τ] [DecidableEq τ] in
lemma iget_ref {k : Key} {r : Index}
    (h : iget k s = .ok (r, s')) (i : Index) : (s'.inode i).ref = hand (.iget k) r held i := by
  unfold iget at h
  split at h
  · cases h
    exact ref_set_update hheld (by simp [hheld])
  · split at h
    · rename_i hi
      cases h
      refine ref_set_update hheld ?_
      rw [Nat.cast_add, ← hheld, empty_eq_some hi]
      rfl
    · cases h

omit [Fintype τ] in
lemma exec_ref {op : Op} {r : Answer op}
    (hput : ∀ i, op = .unref i → 0 < held i) (h : exec t op s = .ok (r, s')) (i : Index) :
    (s'.inode i).ref = hand op r held i := by
  cases op with
  | iget k => exact iget_ref hheld h i
  | idup j =>
    cases h
    exact ref_set_update hheld (by simp [hheld])
  | unref j =>
    cases h
    have := hput j rfl
    refine ref_set_update hheld ?_
    simp only [hheld]
    omega
  | ialloc k type =>
    simp only [exec, ialloc] at h
    split at h
    · cases h
      exact hheld i
    · cases h
      exact hheld i
  | ilock j =>
    simp only [exec] at h
    obtain ⟨-, h⟩ := else_eq_ok.mp h
    split at h
    · rename_i u hu
      cases h
      rw [(acquiresleep_ok hu).2, ref_set_eq (by rfl)]
      exact hheld i
    · cases h
  | iput j =>
    simp only [exec] at h
    split at h
    · rename_i u hu
      cases h
      rw [(acquiresleep_ok hu).2, ref_set_eq (by rfl)]
      exact hheld i
    · cases h
  | load j =>
    simp only [exec] at h
    split at h
    · rename_i u hu
      cases h
      rcases load_ok hu with ⟨-, rfl⟩ | ⟨-, -, rfl⟩
      · exact hheld i
      · rw [ref_set_eq (by rfl)]
        exact hheld i
    · cases h
  | iunlock j =>
    simp only [exec] at h
    obtain ⟨-, h⟩ := else_eq_ok.mp h
    cases h
    rw [releasesleep, ref_set_eq (by rfl)]
    exact hheld i
  | release j =>
    cases h
    rw [releasesleep, ref_set_eq (by rfl)]
    exact hheld i
  | setLink j | addLink j | dropLink j =>
    cases h
    rw [setNlink, iupdate, State.setDinode_inode, ref_set_eq (by rfl)]
    exact hheld i
  | write j off de =>
    simp only [exec] at h
    split at h
    · cases h
    · cases h
      exact hheld i
  | free j =>
    cases h
    rw [free, ref_set_eq (by rfl), iupdate, State.setDinode_inode, ref_set_eq (by rfl)]
    exact hheld i
  | find j name | itrunc j | key j | type j | nlink j | slot j | isdirempty j | count j =>
    cases h
    exact hheld i

end

/-- What holds of the cache whatever the processes do with it. -/
structure Held (m : Machine τ) : Prop where
  counts : Counts m.stage m.kernel
  held : ∀ i, (m.kernel.inode i).ref = m.held i

omit [DecidableEq τ] in
lemma Held.iinit : Held (iinit disk : Machine τ) := by
  refine ⟨⟨?_, ?_, ?_, ?_⟩, fun _ => rfl⟩
  · intro i j hi
    exact absurd hi (lt_irrefl 0)
  · intro i
    rw [puts, tally_eq_zero nofun]
    exact le_refl 0
  · rintro t i ⟨⟩
  · rintro t i ⟨⟩

lemma step_ok (h : step a m = .ok (m', es)) : ∃ r, Permits m.stage m.held m.kernel a.1 a.2 ∧
    exec a.1 a.2 m.kernel = .ok (r, m'.kernel) ∧
    m'.stage = update m.stage a.1 (Stage.next a.2 r) ∧ m'.held = hand a.2 r m.held ∧
    es = events m.kernel a.2 := by
  unfold step at h
  obtain ⟨hp, h⟩ := then_eq_ok.mp h
  split at h
  · rename_i r u hu
    cases h
    exact ⟨r, hp, hu, rfl, rfl, rfl⟩
  · cases h

lemma Held.step (hm : Held m) (h : Icache.step a m = .ok (m', es)) :
    Held m' ∧ ∃ g, Does m.stage m.kernel a.1 a.2 g m'.kernel ∧ m'.stage = update m.stage a.1 g := by
  obtain ⟨r, hp, hexec, hstage, hheld, -⟩ := step_ok h
  have hdoes := exec_does hm.held hp hexec
  refine ⟨⟨?_, ?_⟩, _, hdoes, hstage⟩
  · rw [hstage]
    exact hm.counts.does hdoes
  · rw [hheld]
    refine exec_ref hm.held (fun i hi => ?_) hexec
    rw [hi] at hp
    rcases hp with hon | ⟨-, hs⟩
    · have hS := Stage.of_goesOn hon
      have hpos : 0 < puts m.stage i := tally_pos (t := a.1) (by rw [hS]; rfl)
      have hle := hm.counts.puts i
      rw [hm.held i] at hle
      omega
    · exact absurd hs id

omit [DecidableEq τ] in
lemma Does.key {S : τ → Stage} {g : Stage} {op : Op} {i : Index} (h : Does S s t op g s')
    (hi : 0 < (s.inode i).ref) : (s'.inode i).key = (s.inode i).key := by
  cases h with
  | miss k j hS hnone hj =>
    have hji : i ≠ j := by
      rintro rfl
      rw [empty_eq_some hj] at hi
      exact lt_irrefl 0 hi
    rw [State.set_inode_of_ne hji]
  | look op hS | mark k type hS htype hfree | ready j hS hv | sole j hS hj | shared j hS hj
  | itrunc j hS | write j off de hS hlock hv hoff => rfl
  | free j hS => exact touches_free.keys
  | setNlink op j n hS hlock hv => exact Touches.keys (touches_iupdate rfl)
  | hit k j hS hj | idup j hS hj | ilock j hS hj hlock | load j hS hv htype | iunlock j hS hlock
  | iput j hS hj hlock | release j hS | unref j hS => exact Touches.keys (touches_set rfl)

lemma step_itrunc {n r : ℤ} (h : step a m = .ok (m', es)) (he : .itrunc n r ∈ es) :
    ∃ i, m.stage a.1 = .itrunc i ∧ n = (m.kernel.inode i).nlink ∧ r = (m.kernel.inode i).ref := by
  obtain ⟨r', hp, -, -, -, rfl⟩ := step_ok h
  cases hop : a.2 with
  | itrunc i =>
    rw [hop] at he hp
    simp only [events, List.mem_singleton, Event.itrunc.injEq] at he
    rcases hp with hon | ⟨-, hs⟩
    · exact ⟨i, Stage.of_goesOn hon, he⟩
    · exact absurd hs id
  | _ =>
    rw [hop] at he
    simp [events] at he

omit [DecidableEq τ] in
lemma Sole.iinit : Sole (iinit disk : Machine τ).stage (Icache.iinit disk : Machine τ).kernel := by
  refine ⟨?_, ?_, ?_, ?_, ?_⟩
  · intro i hi
    exact absurd hi (lt_irrefl 0)
  · rintro t i ⟨⟩
  · intro i hi
    exact absurd hi (lt_irrefl 0)
  · rintro t k ⟨⟩
  · rintro t u k ⟨⟩

/-- In every run that calls `iget` only for inodes that are needed, the entries in use are for different
inodes and stay with them, they are counted, and an inode is freed with its last reference. -/
theorem iput_frees_last (h : Run step Linked (Icache.iinit disk : Machine τ) es m) :
    (∀ i j, 0 < (m.kernel.inode i).ref → 0 < (m.kernel.inode j).ref →
      (m.kernel.inode i).key = (m.kernel.inode j).key → i = j) ∧ (∀ i, (m.kernel.inode i).ref = m.held i) ∧
    (∀ i es' m', Run step (fun u a => Linked u a ∧ 0 < (u.kernel.inode i).ref) m es' m' →
      (m'.kernel.inode i).key = (m.kernel.inode i).key) ∧ ∀ n r, .itrunc n r ∈ es → n = 0 ∧ r = 1 := by
  have hinv := h.history (I := fun es m => Held m ∧ Sole m.stage m.kernel ∧
    ∀ n r, .itrunc n r ∈ es → n = 0 ∧ r = 1) ?_ ⟨Held.iinit, Sole.iinit, by simp⟩
  · obtain ⟨hheld, -, hes⟩ := hinv
    refine ⟨hheld.counts.unique, hheld.held, ?_, hes⟩
    intro i es' m' hrun
    have hkeep := hrun.invariant (I := fun u => Held u ∧
      (u.kernel.inode i).key = (m.kernel.inode i).key) ?_ ⟨hheld, rfl⟩
    · exact hkeep.2
    · intro u a u' es hu hc hs
      obtain ⟨hheld', g, hd, -⟩ := hu.1.step hs
      exact ⟨hheld', (hd.key hc.2).trans hu.2⟩
  · intro es m a m' es' hi hc hs
    obtain ⟨hheld, hsole, hes⟩ := hi
    obtain ⟨hheld', g, hd, hstage⟩ := hheld.step hs
    refine ⟨hheld', ?_, ?_⟩
    · rw [hstage]
      refine hsole.does hheld.counts (fun k hk => ?_) hd
      simpa [Linked, Igets, hk] using hc
    · intro n r he
      rcases List.mem_append.mp he with he | he
      · exact hes n r he
      · obtain ⟨i, hS, rfl, rfl⟩ := step_itrunc hs he
        obtain ⟨href, -, hnlink⟩ := hsole.frees a.1 i (by rw [hS]; rfl)
        exact ⟨hnlink, href⟩

/-- In every such run, what a valid entry in use has is what the disk has, who is in a function that has
an entry locked has the lock of it alone, and no two processes allocate the same inode. -/
theorem cache_agrees_with_disk (h : Run step Linked (Icache.iinit disk : Machine τ) es m) :
    Agree m.kernel ∧ (∀ t u i, (m.stage t).locks = some i → (m.stage u).locks = some i → t = u) ∧
    ∀ t u k, m.stage t = .marked k → m.stage u = .marked k → t = u := by
  have hinv := h.invariant (I := fun m => Held m ∧ Sole m.stage m.kernel) ?_ ⟨Held.iinit, Sole.iinit⟩
  · obtain ⟨hheld, hsole⟩ := hinv
    refine ⟨hsole.agree, ?_, hsole.once⟩
    intro t u i ht hu
    have hlock := hheld.counts.lock t i ht
    rw [hheld.counts.lock u i hu] at hlock
    exact (Option.some.inj hlock).symm
  · intro m a m' es hi hc hs
    obtain ⟨hheld, hsole⟩ := hi
    obtain ⟨hheld', g, hd, hstage⟩ := hheld.step hs
    refine ⟨hheld', ?_⟩
    rw [hstage]
    refine hsole.does hheld.counts (fun k hk => ?_) hd
    simpa [Linked, Igets, hk] using hc

/-! Runs of the system calls, by the operations that they perform. -/

instance {P : Machine τ → τ → Key → Prop} [∀ m t k, Decidable (P m t k)] (m : Machine τ) :
    ∀ a : τ × Op, Decidable (Igets P m a)
  | (t, .iget k) => inferInstanceAs (Decidable (P m t k))
  | (_, .ialloc _ _) | (_, .idup _) | (_, .ilock _) | (_, .load _) | (_, .iunlock _) | (_, .key _)
  | (_, .type _) | (_, .nlink _) | (_, .find _ _) | (_, .slot _) | (_, .isdirempty _)
  | (_, .setLink _) | (_, .addLink _) | (_, .dropLink _) | (_, .write _ _ _) | (_, .iput _)
  | (_, .count _) | (_, .itrunc _) | (_, .free _) | (_, .release _) | (_, .unref _) =>
    inferInstanceAs (Decidable True)

omit [Fintype τ] [DecidableEq τ] in
instance (m : Machine τ) (n : ℕ) (k : Key) : Decidable (Names m n k) :=
  inferInstanceAs (Decidable (_ ∧ _))

instance (m : Machine τ) (a : τ × Op) : Decidable (Linked m a) :=
  haveI : ∀ (m : Machine τ) (t : τ) (k : Key), Decidable (Needed m.stage m.kernel t k) :=
    fun _ _ _ => inferInstanceAs (Decidable (_ ∨ _ ∨ _))
  inferInstanceAs (Decidable (Igets _ m a))

def lockOps (i : Index) : List Op := [.ilock i, .load i]

/-- `iput` of an inode that is needed. -/
def putOps (i : Index) : List Op := [.iput i, .count i, .release i, .unref i]

/-- The root directory with one file. -/
def oneFile : Key → Dinode
  | (1, 1) => ⟨.T_DIR, 1, [⟨[46], 1⟩, ⟨[46, 46], 1⟩, ⟨[97], 2⟩]⟩
  | (1, 2) => ⟨.T_FILE, 1, []⟩
  | _ => ⟨.free, 0, []⟩

/-- `unlink("/a")`. -/
def unlinkOps : List Op :=
  [.iget (1, 1)] ++ lockOps 0 ++ [.iunlock 0] ++ lockOps 0 ++ [.find 0 [97], .iget (1, 2)] ++
    lockOps 1 ++ [.nlink 1, .type 1, .write 0 2 ⟨[], 0⟩, .iunlock 0] ++ putOps 0 ++
    [.dropLink 1, .iunlock 1, .iput 1, .count 1, .itrunc 1, .free 1, .release 1, .unref 1]

theorem unlink_frees : ∃ m : Machine (Fin 1), Run step Linked (Icache.iinit oneFile) [.itrunc 0 1] m ∧
    (m.kernel.disk (1, 2)).type = .free ∧ ∀ n r, .itrunc n r ∈ [Event.itrunc 0 1] → n = 0 ∧ r = 1 := by
  obtain ⟨m, hrun, hfree⟩ : ∃ m : Machine (Fin 1), Run step Linked (Icache.iinit oneFile)
      [.itrunc 0 1] m ∧ (m.kernel.disk (1, 2)).type = .free :=
    Run.of_leads (unlinkOps.map fun op => (0, op)) (by decide +kernel)
  exact ⟨m, hrun, hfree, (iput_frees_last hrun).2.2.2⟩

theorem unlink_agrees_with_disk : ∃ m : Machine (Fin 1),
    Run step Linked (Icache.iinit oneFile) [.itrunc 0 1] m ∧ Agree m.kernel := by
  obtain ⟨m, hrun, -⟩ : ∃ m : Machine (Fin 1), Run step Linked (Icache.iinit oneFile)
      [.itrunc 0 1] m ∧ True := Run.of_leads (unlinkOps.map fun op => (0, op)) (by decide +kernel)
  exact ⟨m, hrun, (cache_agrees_with_disk hrun).1⟩

/-- The directory `a`, with the directory `b` in it. -/
def nested : Key → Dinode
  | (1, 1) => ⟨.T_DIR, 2, [⟨[46], 1⟩, ⟨[46, 46], 1⟩, ⟨[97], 2⟩]⟩
  | (1, 2) => ⟨.T_DIR, 2, [⟨[46], 2⟩, ⟨[46, 46], 1⟩, ⟨[98], 3⟩]⟩
  | (1, 3) => ⟨.T_DIR, 1, [⟨[46], 3⟩, ⟨[46, 46], 2⟩]⟩
  | _ => ⟨.free, 0, []⟩

/-- `chdir("/a/b")`; the entry 0 is then for `b`. -/
def chdirOps : List Op :=
  [.iget (1, 1)] ++ lockOps 0 ++ [.find 0 [97], .iget (1, 2), .iunlock 0] ++ putOps 0 ++ lockOps 1 ++
    [.find 1 [98], .iget (1, 3), .iunlock 1] ++ putOps 1 ++ lockOps 0 ++ [.type 0, .iunlock 0]

/-- `open("/a", 0)`; the entry 2 is then for `a`. -/
def openOps : List Op :=
  [.iget (1, 1)] ++ lockOps 1 ++ [.find 1 [97], .iget (1, 2), .iunlock 1] ++ putOps 1 ++ lockOps 2 ++
    [.type 2, .iunlock 2]

/-- `unlink("/a/b")`. -/
def unlinkInnerOps : List Op :=
  [.iget (1, 1)] ++ lockOps 1 ++ [.find 1 [97], .iget (1, 2), .iunlock 1] ++ putOps 1 ++ lockOps 2 ++
    [.iunlock 2] ++ lockOps 2 ++ [.find 2 [98], .iget (1, 3)] ++ lockOps 0 ++
    [.nlink 0, .isdirempty 0, .write 2 2 ⟨[], 0⟩, .dropLink 2, .iunlock 2] ++ putOps 2 ++
    [.dropLink 0, .iunlock 0] ++ putOps 0

/-- `unlink("/a")`. -/
def unlinkOuterOps : List Op :=
  [.iget (1, 1)] ++ lockOps 1 ++ [.iunlock 1] ++ lockOps 1 ++ [.find 1 [97], .iget (1, 2)] ++
    lockOps 2 ++ [.nlink 2, .isdirempty 2, .write 1 2 ⟨[], 0⟩, .dropLink 1, .iunlock 1] ++ putOps 1 ++
    [.dropLink 2, .iunlock 2] ++ putOps 2

/-- The start of `open("..", 0)`. -/
def openParentOps : List Op := [.idup 0] ++ lockOps 0 ++ [.find 0 [46, 46], .iget (1, 2)]

/-- One process has the removed directory `b` as its current one. While the other closes the last file of
`a`, which is removed too, the first comes to `a` again by `..`. -/
theorem parent_found_while_freed : ∃ m : Machine (Fin 2),
    Run step Naming (Icache.iinit nested) [.itrunc 0 2] m := by
  obtain ⟨m, hrun, -⟩ : ∃ m : Machine (Fin 2), Run step (Igets fun m _ k => ∃ n ∈ [1, 2, 3], Names m n k)
      (Icache.iinit nested) [.itrunc 0 2] m ∧ True :=
    Run.of_leads ((chdirOps.map fun op => (0, op)) ++
      ((openOps ++ unlinkInnerOps ++ unlinkOuterOps ++ [Op.iput 2, .count 2]).map fun op => (1, op)) ++
      (openParentOps.map fun op => (0, op)) ++ [(1, .itrunc 2)]) (by decide +kernel)
  refine ⟨m, hrun.mono fun m a hc => ?_⟩
  unfold Naming Igets at *
  split
  · rename_i k hk
    rw [hk] at hc
    obtain ⟨n, -, hn⟩ := hc
    exact .inr ⟨n, hn⟩
  · trivial

end LearnXv6.Icache
