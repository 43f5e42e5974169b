import LearnXv6.Log.Commit

/-! A group of operations that commit together, stopped anywhere, and the recovery after it. -/
namespace LearnXv6.Log
open Store Fs Finset

/-- What the open operations do. Those of different processes come in any order; the buffer locks
keep two of them off one block. -/
inductive Event where
  | beginOp
  | bread (b : ℕ)
  | logWrite (b : ℕ) (v : Block)
  | brelse (b : ℕ)
  | endOp

def Event.proc (sb : Superblock) : Event → Proc Unit
  | .beginOp => Log.beginOp
  | .bread b => do
    let _ ← Log.bread b
  | .logWrite b v => do
    setData b v
    Log.logWrite b
  | .brelse b => Log.brelse b
  | .endOp => Log.endOp sb

/-- The events, and the `end_op` of the last operation, which commits. -/
def group (sb : Superblock) (es : List Event) : Proc Unit := do
  es.forM (Event.proc sb)
  endOp sb

/-! The group as a transaction: what each event is for. -/

/-- The contents with every logged write, the blocks logged, the buffers held and the number of
operations that are open. -/
structure Txn where
  cur : ℕ → Block
  lh : Finset ℕ
  held : Finset ℕ
  outstanding : ℕ

namespace Txn

def start (d : Disk) : Txn := ⟨d, ∅, ∅, 0⟩

/-- One event; none when it would sleep, exceed the capacity of the log or of the cache, release a
buffer that is not held, or end the last operation. -/
def step (sb : Superblock) : Event → Txn → Option Txn
  | .beginOp, t =>
    if t.lh.card + (t.outstanding + 1) * MAXOPBLOCKS ≤ LOGSIZE then
      some { t with outstanding := t.outstanding + 1 }
    else none
  | .bread b, t =>
    if Home sb b ∧ b ∉ t.held ∧ (b ∈ t.lh ∨ (t.held ∪ t.lh).card < NBUF) then
      some { t with held := insert b t.held }
    else none
  | .logWrite b v, t =>
    if b ∈ t.held ∧ 0 < t.outstanding ∧ t.lh.card < LOGSIZE ∧ t.lh.card + 1 < sb.nlog then
      some { t with cur := Function.update t.cur b v, lh := insert b t.lh }
    else none
  | .brelse b, t =>
    if b ∈ t.held then some { t with held := t.held.erase b } else none
  | .endOp, t =>
    if 1 < t.outstanding then some { t with outstanding := t.outstanding - 1 } else none

def run (sb : Superblock) (es : List Event) (t : Txn) : Option Txn :=
  es.foldlM (fun t e => t.step sb e) t

end Txn

variable {sb : Superblock} {s s' u : State} {t t' : Txn} {e : Event} {es : List Event} {b : ℕ}
  {base d : Disk}

/-- The state of the kernel while the transaction is open, over the disk `base`. -/
structure Opened (sb : Superblock) (base : Disk) (t : Txn) (s : State) : Prop where
  rep : Rep s t.cur t.held t.lh
  disk_eq : s.disk = base
  nodup : s.log.lh.Nodup
  lh_eq : s.log.lh.toFinset = t.lh
  outstanding_eq : s.log.outstanding = t.outstanding
  committing_eq : s.log.committing = false
  home : ∀ b, b ∈ t.held ∨ b ∈ t.lh → Home sb b
  same : ∀ b, b ∉ t.lh → t.cur b = base b
  room : t.lh = ∅ ∨ t.lh.card < sb.nlog

section

variable (h : Opened sb base t s)
include h

lemma Opened.length_eq : s.log.lh.length = t.lh.card := by
  rw [← h.lh_eq, List.toFinset_card_of_nodup h.nodup]

lemma Opened.beginOp (he : t.step sb .beginOp = some t') : Guards sb (· = base) Log.beginOp s fun _ s' =>
      Opened sb base t' s' := by
  simp only [Txn.step] at he
  obtain ⟨hle, he⟩ := Option.ite_none_right_eq_some.mp he
  cases he
  have hexec : exec sb .beginOp s =
      .ok ((), { s with log := { s.log with outstanding := s.log.outstanding + 1 } }) := by
    rw [← h.length_eq, ← h.outstanding_eq] at hle
    simp only [exec, h.committing_eq, if_neg (Nat.not_lt.mpr hle)]
    rfl
  exact ⟨h.disk_eq, (), _, hexec, h.disk_eq, h.rep.setLog _, h.disk_eq, h.nodup, h.lh_eq,
    congrArg (· + 1) h.outstanding_eq, h.committing_eq, h.home, h.same, h.room⟩

lemma Opened.setHeld {held : Finset ℕ}
    (hrep : Rep s' t.cur held t.lh) (hdisk : s'.disk = s.disk) (hlog : s'.log = s.log)
    (hhome : ∀ a ∈ held, a ∈ t.held ∨ Home sb a) : Opened sb base { t with held := held } s' := by
  refine ⟨hrep, hdisk.trans h.disk_eq, hlog ▸ h.nodup, hlog ▸ h.lh_eq, hlog ▸ h.outstanding_eq,
    hlog ▸ h.committing_eq, ?_, h.same, h.room⟩
  rintro a (ha | ha)
  · exact (hhome a ha).elim (fun ha => h.home a (.inl ha)) id
  · exact h.home a (.inr ha)

lemma Opened.bread_meets (hhome : Home sb b)
    (hheld : b ∉ t.held) (hroom : b ∈ t.lh ∨ (t.held ∪ t.lh).card < NBUF) :
    Guards sb (· = base) (Log.bread b) s fun v s' =>
      v = t.cur b ∧ Opened sb base { t with held := insert b t.held } s' := by
  refine Prog.Meets.last (h.rep.bread_meets (D := fun d => d = base) hheld hroom h.disk_eq
    fun s' hrep hdisk hlog _ => ⟨hdisk.trans h.disk_eq, rfl, ?_⟩)
  refine h.setHeld hrep hdisk hlog fun a ha => ?_
  rcases mem_insert.mp ha with rfl | ha
  · exact .inr hhome
  · exact .inl ha

lemma Opened.bread (he : t.step sb (.bread b) = some t') :
    Guards sb (· = base) (Event.proc sb (.bread b)) s fun _ s' => Opened sb base t' s' := by
  simp only [Txn.step] at he
  obtain ⟨hg, he⟩ := Option.ite_none_right_eq_some.mp he
  obtain ⟨hhome, hheld, hroom⟩ := hg
  cases he
  exact Prog.Meets.bind ((h.bread_meets hhome hheld hroom).mono fun v s' h' => ⟨h'.2.disk_eq, h'.2⟩)

lemma Opened.brelse (he : t.step sb (.brelse b) = some t') :
    Guards sb (· = base) (Event.proc sb (.brelse b)) s fun _ s' => Opened sb base t' s' := by
  simp only [Txn.step] at he
  obtain ⟨hheld, he⟩ := Option.ite_none_right_eq_some.mp he
  cases he
  have hclean : b ∈ t.lh ∨ t.cur b = s.disk b := by
    rw [h.disk_eq]
    exact or_iff_not_imp_left.mpr (h.same b)
  refine Prog.Meets.last (h.rep.brelse_meets (D := fun d => d = base) hheld hclean h.disk_eq
    fun s' hrep hdisk hlog _ => ⟨hdisk.trans h.disk_eq, ?_⟩)
  exact h.setHeld hrep hdisk hlog fun a ha => .inl (mem_of_mem_erase ha)

lemma Opened.logWrite {v : Block} (he : t.step sb (.logWrite b v) = some t') :
    Guards sb (· = base) (Event.proc sb (.logWrite b v)) s fun _ s' => Opened sb base t' s' := by
  simp only [Txn.step] at he
  obtain ⟨hg, he⟩ := Option.ite_none_right_eq_some.mp he
  obtain ⟨hheld, hout, hsize, hnlog⟩ := hg
  cases he
  refine h.rep.setData_meets (D := fun d => d = base) hheld h.disk_eq
    fun s1 hrep1 hdisk1 hlog1 _ => ?_
  have hd1 := hdisk1.trans h.disk_eq
  have hcheck : exec sb .logCheck s1 = .ok ((), s1) := by
    rw [← h.length_eq, ← hlog1] at hsize hnlog
    rw [← h.outstanding_eq, ← hlog1] at hout
    simp only [exec]
    rw [if_neg (by omega), if_neg (by omega)]
  obtain ⟨s2, hexec, hrep2, hdisk2, hlog2, -⟩ := hrep1.logAppend sb hheld
  have hd2 := hdisk2.trans hd1
  have hlh : s1.log.lh = s.log.lh := by rw [hlog1]
  rw [hlh] at hlog2
  refine ⟨hd1, (), s1, hcheck, hd1, (), s2, hexec, hd2, hrep2, hd2, ?_, ?_, ?_, ?_, ?_, ?_, ?_⟩
  · rw [hlog2]
    by_cases hb : b ∈ s.log.lh
    · rw [if_pos hb]
      exact h.nodup
    · rw [if_neg hb]
      exact h.nodup.append (List.nodup_singleton b) (by simpa using hb)
  · rw [hlog2]
    by_cases hb : b ∈ s.log.lh
    · have hmem : b ∈ t.lh := by
        rw [← h.lh_eq]
        exact List.mem_toFinset.mpr hb
      rw [if_pos hb, insert_eq_of_mem hmem]
      exact h.lh_eq
    · rw [if_neg hb, List.toFinset_append, h.lh_eq]
      ext a
      simp
  · rw [hlog2, hlog1]
    exact h.outstanding_eq
  · rw [hlog2, hlog1]
    exact h.committing_eq
  · intro a ha
    rcases ha with ha | ha
    · exact h.home a (.inl ha)
    · rcases mem_insert.mp ha with rfl | ha
      · exact h.home a (.inl hheld)
      · exact h.home a (.inr ha)
  · intro a ha
    rw [mem_insert, not_or] at ha
    exact (Function.update_of_ne ha.1 _ _).trans (h.same a ha.2)
  · right
    exact (card_insert_le b t.lh).trans_lt hnlog

lemma Opened.endOp (he : t.step sb .endOp = some t') :
    Guards sb (· = base) (Event.proc sb .endOp) s fun _ s' => Opened sb base t' s' := by
  simp only [Txn.step] at he
  obtain ⟨hout, he⟩ := Option.ite_none_right_eq_some.mp he
  cases he
  have hexec : exec sb .endOp s =
      .ok (false, { s with log := ⟨s.log.lh, s.log.outstanding - 1, false⟩ }) := by
    have hne : ¬ s.log.outstanding - 1 = 0 := by
      rw [h.outstanding_eq]
      omega
    simp only [exec, h.committing_eq, decide_eq_false hne]
    rfl
  exact ⟨h.disk_eq, false, _, hexec, h.disk_eq, h.rep.setLog _, h.disk_eq, h.nodup, h.lh_eq,
    congrArg (· - 1) h.outstanding_eq, rfl, h.home, h.same, h.room⟩

lemma Opened.step (he : t.step sb e = some t') : Guards sb (· = base) (e.proc sb) s fun _ s' =>
      Opened sb base t' s' := by
  cases e with
  | beginOp => exact h.beginOp he
  | bread b => exact h.bread he
  | logWrite b v => exact h.logWrite he
  | brelse b => exact h.brelse he
  | endOp => exact h.endOp he

lemma Opened.run (hes : t.run sb es = some t') :
    Guards sb (· = base) (es.forM (Event.proc sb)) s fun _ s' => Opened sb base t' s' := by
  induction es generalizing t s with
  | nil =>
    cases hes
    exact ⟨h.disk_eq, h⟩
  | cons e es ih =>
    obtain ⟨t1, he, hes⟩ := Option.bind_eq_some_iff.mp hes
    exact Prog.Meets.bind ((h.step he).mono fun _ s1 h1 => ih h1 hes)

/-! The last `end_op`. -/

end

/-- No operation is open and the disk has an empty header. -/
structure Idle (sb : Superblock) (s : State) : Prop where
  rep : Rep s s.disk ∅ ∅
  log_eq : s.log = ⟨[], 0, false⟩
  empty : logged (s.disk sb.logstart) = []

lemma Idle.opened (h : Idle sb s) : Opened sb s.disk (Txn.start s.disk) s := by
  have hlh : s.log.lh = [] := by rw [h.log_eq]
  refine ⟨h.rep, rfl, by simp [hlh], by simp [hlh, Txn.start], ?_, ?_, by simp [Txn.start],
    fun _ _ => rfl, .inl rfl⟩
  · rw [h.log_eq]
    rfl
  · rw [h.log_eq]

lemma Opened.fits (h : Opened sb base t s) (hsize : sb.nlog ≤ LOGSIZE) :
    s.log.lh = [] ∨ Fits sb s.log.lh := by
  rcases h.room with hr | hr
  · left
    rw [← h.lh_eq] at hr
    exact List.toFinset_eq_empty_iff _ |>.mp hr
  · right
    refine ⟨h.nodup, ?_, h.length_eq ▸ hr, hsize⟩
    intro b hb
    exact h.home b (.inr (h.lh_eq ▸ List.mem_toFinset.mpr hb))

lemma Opened.commit (h : Opened sb base t s) (hpos : 0 < sb.nlog)
    (hsize : sb.nlog ≤ LOGSIZE) (hempty : logged (base sb.logstart) = [])
    (hout : t.outstanding = 1) (hheld : t.held = ∅) :
    Guards sb (fun d => Clean sb base d ∨ Recoverable sb t.cur d)
      (Log.endOp sb) s fun _ s' => Idle sb s' ∧ Clean sb t.cur s'.disk := by
  have hC : Clean sb base s.disk := by
    rw [h.disk_eq]
    exact ⟨hempty, fun _ _ => rfl⟩
  have hexec : exec sb .endOp s = .ok (true, { s with log := ⟨s.log.lh, 0, true⟩ }) := by
    simp only [exec, h.committing_eq, h.outstanding_eq, hout]
    rfl
  have hrep : Rep { s with log := ⟨s.log.lh, 0, true⟩ } t.cur ∅ s.log.lh.toFinset := by
    rw [← hheld, h.lh_eq]
    exact h.rep.setLog _
  refine ⟨.inl hC, true, _, hexec, ?_⟩
  change Prog.Meets (exec sb) _ (Log.commit sb >>= fun _ => perform .endCommit) _ _
  refine Prog.Meets.bind ((commit_meets hrep rfl (h.fits hsize) hC).mono ?_)
  rintro _ s1 ⟨hrep1, hlog1, hC1⟩
  have hrec : Clean sb base s1.disk ∨ Recoverable sb t.cur s1.disk :=
    .inr ⟨[], hC1.committed hpos hsize⟩
  refine ⟨hrec, (), _, rfl, hrec, ⟨hrep1.setLog _, ?_, hC1.empty⟩, hC1⟩
  simp only [hlog1]

lemma group_meets (h : Idle sb s) (hpos : 0 < sb.nlog) (hsize : sb.nlog ≤ LOGSIZE)
    (hes : (Txn.start s.disk).run sb es = some t) (hout : t.outstanding = 1) (hheld : t.held = ∅) :
    Guards sb (fun d => Clean sb s.disk d ∨ Recoverable sb t.cur d)
      (group sb es) s fun _ s' => Idle sb s' ∧ Clean sb t.cur s'.disk := by
  have hclean : ∀ u : State, u.disk = s.disk →
      Clean sb s.disk u.disk ∨ Recoverable sb t.cur u.disk := by
    intro u hu
    rw [hu]
    exact .inl ⟨h.empty, fun _ _ => rfl⟩
  refine Prog.Meets.bind (((h.opened.run hes).weaken hclean).mono ?_)
  intro _ s1 h1
  exact h1.commit hpos hsize h.empty hout hheld

/-! Crashes and recovery. -/

/-- The kernel after a reboot with the disk `d`. -/
def boot (d : Disk) : State where
  disk := d
  bcache := binit
  log := ⟨[], 0, false⟩
  icache := fun inum => ⟨⟨inum, 0, 0, 0, 0, 0, fun _ => 0⟩, false, false⟩

/-- One recovery that stops on its way leaves the disk `d'`. -/
def RecoveryStops (sb : Superblock) (d d' : Disk) : Prop :=
  ∃ u, Prog.Visits (exec sb) (recoverFromLog sb) (boot d) u ∧ u.disk = d'

/-- Any number of recoveries that stop on their way. -/
abbrev Crashes (sb : Superblock) : Disk → Disk → Prop := Relation.ReflTransGen (RecoveryStops sb)

lemma Recoverable.crashes {c : ℕ → Block} {d' : Disk} (h : Recoverable sb c d)
    (hd : Crashes sb d d') : Recoverable sb c d' := by
  induction hd with
  | refl => exact h
  | tail _ hstop ih =>
    obtain ⟨u, hu, rfl⟩ := hstop
    exact (recoverFromLog_meets (rep_binit rfl) ih).visits hu

lemma Recoverable.recovers {c : ℕ → Block} (h : Recoverable sb c d) :
    ∃ s', (recoverFromLog sb).run (exec sb) (boot d) = .ok ((), s') ∧ Idle sb s' ∧ Clean sb c s'.disk := by
  obtain ⟨⟨⟩, s', hrun, hrep, hlog, hclean⟩ := (recoverFromLog_meets (s := boot d) (rep_binit rfl) h).run
  exact ⟨s', hrun, ⟨hrep, hlog, hclean.empty⟩, hclean⟩

/-- A group of operations is atomic: wherever the kernel stops in it, and however often the
recovery stops too, the recovery that ends leaves an empty header and either no write of the group
or all of them. -/
theorem group_atomic (h : Idle sb s) (hpos : 0 < sb.nlog) (hsize : sb.nlog ≤ LOGSIZE)
    (hes : (Txn.start s.disk).run sb es = some t) (hout : t.outstanding = 1) (hheld : t.held = ∅)
    (hu : Prog.Visits (exec sb) (group sb es) s u) (hd : Crashes sb u.disk d) :
    ∃ s', (recoverFromLog sb).run (exec sb) (boot d) = .ok ((), s') ∧ logged (s'.disk sb.logstart) = [] ∧
      ((∀ b, Home sb b → s'.disk b = s.disk b) ∨ ∀ b, Home sb b → s'.disk b = t.cur b) := by
  rcases (group_meets h hpos hsize hes hout hheld).visits hu with hc | hc
  · have hrec : Recoverable sb s.disk u.disk := ⟨[], hc.committed hpos hsize⟩
    obtain ⟨s', hrun, -, hclean⟩ := (hrec.crashes hd).recovers
    exact ⟨s', hrun, hclean.empty, .inl hclean.home⟩
  · obtain ⟨s', hrun, -, hclean⟩ := (hc.crashes hd).recovers
    exact ⟨s', hrun, hclean.empty, .inr hclean.home⟩

/-- Two processes write one block each. -/
def twoWriters : List Event :=
  [.beginOp, .beginOp, .bread 600, .bread 601, .logWrite 601 (Store.Block.setWord 0 0 1),
    .logWrite 600 (Store.Block.setWord 0 0 2), .brelse 600, .endOp, .brelse 601]

theorem twoWriters_atomic : ∃ u s' t, (Txn.start fun _ => 0).run stock twoWriters = some t ∧
    Prog.Visits (exec stock) (group stock twoWriters) (boot fun _ => 0) u ∧
    (recoverFromLog stock).run (exec stock) (boot u.disk) = .ok ((), s') ∧
    logged (s'.disk stock.logstart) = [] ∧
    ((∀ b, Home stock b → s'.disk b = 0) ∨ ∀ b, Home stock b → s'.disk b = t.cur b) := by
  have hidle : Idle stock (boot fun _ => 0) := ⟨rep_binit rfl, rfl, by simp [logged, boot]⟩
  have hpos : 0 < stock.nlog := by decide
  have hsize : stock.nlog ≤ LOGSIZE := by decide
  have hmeets : Prog.Meets _ _ (group stock twoWriters) _ _ :=
    group_meets hidle hpos hsize rfl rfl rfl
  obtain ⟨_, u, hrun, -⟩ := hmeets.run
  have hu := Prog.visits_of_run hrun
  obtain ⟨s', hrec⟩ := group_atomic hidle hpos hsize rfl rfl rfl hu .refl
  exact ⟨u, s', _, rfl, hu, hrec⟩

end LearnXv6.Log
