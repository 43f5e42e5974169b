import LearnXv6.Thread.Steps

/-! Who runs, and whose the open files are. -/
namespace LearnXv6.Thread
open Function Store Finset

variable {κ : Type} {s s' : State κ} {c : κ} {p q : Slot} {x x' : Proc} {es : List Event} {f : File}
  {a : Action κ} {k d : Page} {free : List Page} {root : ℕ}

lemma Woken.eq_of_ne (h : Woken x x') (hx : x.state ≠ .sleeping) : x'.state = x.state := by
  rcases h with h | h
  · exact h
  · exact absurd h.1 hx

lemma Woken.unused (h : Woken x x') (hx : x'.state = .unused) : x.state = .unused := by
  rcases h with h | h
  · exact h ▸ hx
  · simp [h.2] at hx

lemma Woken.zombie (h : Woken x x') (hx : x'.state = .zombie) : x.state = .zombie := by
  rcases h with h | h
  · exact h ▸ hx
  · simp [h.2] at hx

lemma OnCpu.keep (h : OnCpu s) (hcpu : ∀ c p, s'.cpu c = some p → s.cpu c = some p)
    (hstate : ∀ c p, s'.cpu c = some p → (s'.proc p).state = (s.proc p).state) : OnCpu s' where
  running c p hc := (hstate c p hc).trans (h.running c p (hcpu c p hc))
  unique c c' p hc hc' := h.unique c c' p (hcpu c p hc) (hcpu c' p hc')

lemma OnCpu.ne (h : OnCpu s) (hc : s.cpu c = some p) (hq : (s.proc q).state ≠ .running) : p ≠ q := by
  rintro rfl
  exact hq (h.running c p hc)

/-- Nothing is left of the files of a process. -/
def Proc.NoFiles (x : Proc) : Prop := (∀ i, x.ofile i = none) ∧ x.cwd = none

/-- The counts are those of the descriptors, and a slot that has ended has none. -/
structure Tidy (s : State κ) : Prop where
  cpu : OnCpu s
  ref : ∀ f, s.ref f = ∑ p, (s.proc p).uses f
  unused : ∀ p, (s.proc p).state = .unused → (s.proc p).parent = none ∧ (s.proc p).NoFiles
  zombie : ∀ p, (s.proc p).state = .zombie → (s.proc p).NoFiles
  exit : ∀ p, (s.proc p).context = .exit → (s.proc p).NoFiles

/-- What the files of a slot are. -/
def Proc.Clean (x : Proc) : Prop :=
  (x.state = .unused → x.parent = none ∧ x.NoFiles) ∧ (x.state = .zombie → x.NoFiles) ∧
    (x.context = .exit → x.NoFiles)

lemma Proc.NoFiles.uses (h : x.NoFiles) : x.uses f = 0 :=
  tally_eq_zero fun i => by simp [h.1 i]

lemma Proc.NoFiles.of_eq (h : x.NoFiles) (ho : x'.ofile = x.ofile) (hc : x'.cwd = x.cwd) : x'.NoFiles := by
  refine ⟨fun i => ?_, hc.trans h.2⟩
  rw [ho]
  exact h.1 i

lemma Soft.noFiles (h : Soft x x') (hx : x.NoFiles) : x'.NoFiles := hx.of_eq h.ofile h.cwd

lemma Soft.no_parent (h : Soft x x') (hx : x.parent = none) : x'.parent = none := by
  rcases h.parent with he | he
  · exact he.trans hx
  · exact absurd hx he.2

lemma sum_uses (h : ∀ q ≠ p, (s'.proc q).ofile = (s.proc q).ofile) (f : File) :
    ∑ q, (s'.proc q).uses f + (s.proc p).uses f = ∑ q, (s.proc q).uses f + (s'.proc p).uses f := by
  have h1 := add_sum_erase univ (fun q => (s.proc q).uses f) (mem_univ p)
  have h2 := add_sum_erase univ (fun q => (s'.proc q).uses f) (mem_univ p)
  have h3 : ∑ q ∈ univ.erase p, (s'.proc q).uses f =
      ∑ q ∈ univ.erase p, (s.proc q).uses f := by
    refine sum_congr rfl fun q hq => ?_
    rw [Proc.uses, Proc.uses, h q (ne_of_mem_erase hq)]
  omega

lemma sum_soft (h : ∀ q, (s'.proc q).ofile = (s.proc q).ofile) (f : File) :
    ∑ q, (s'.proc q).uses f = ∑ q, (s.proc q).uses f :=
  sum_congr rfl fun q _ => by rw [Proc.uses, Proc.uses, h q]

namespace Tidy

lemma slot (h : Tidy s) (q : Slot) : (s.proc q).Clean :=
  ⟨h.unused q, h.zombie q, h.exit q⟩

lemma soft_slot (h : Tidy s) (hsoft : Soft (s.proc q) x)
    (hstate : x.state = .unused → (s.proc q).state = .unused)
    (hzombie : x.state = .zombie → (s.proc q).state = .zombie) : x.Clean := by
  refine ⟨fun hq => ?_, fun hq => ?_, fun hq => ?_⟩
  · obtain ⟨hparent, hfiles⟩ := h.unused q (hstate hq)
    exact ⟨hsoft.no_parent hparent, hsoft.noFiles hfiles⟩
  · exact hsoft.noFiles (h.zombie q (hzombie hq))
  · exact hsoft.noFiles (h.exit q (hsoft.context hq))

lemma of_slots (hcpu : OnCpu s') (href : ∀ f, s'.ref f = ∑ p, (s'.proc p).uses f)
    (hslot : ∀ q, (s'.proc q).Clean) : Tidy s' :=
  ⟨hcpu, href, fun q => (hslot q).1, fun q => (hslot q).2.1, fun q => (hslot q).2.2⟩

lemma of_slot (h : Tidy s) (hcpu : OnCpu s') (href : ∀ f, s'.ref f = ∑ p, (s'.proc p).uses f)
    (hother : ∀ q ≠ p, s'.proc q = s.proc q) (hp : (s'.proc p).Clean) : Tidy s' := by
  refine of_slots hcpu href fun q => ?_
  by_cases hq : q = p
  · exact hq ▸ hp
  · exact hother q hq ▸ h.slot q

lemma ref_soft (h : Tidy s) (hsoft : ∀ q, Soft (s.proc q) (s'.proc q)) (hrest : Rest s s')
    (f : File) : s'.ref f = ∑ q, (s'.proc q).uses f := by
  rw [hrest.ref, sum_soft fun q => (hsoft q).ofile]
  exact h.ref f

end Tidy

lemma Tidy.boot : Tidy (boot k d free root : State κ) := by
  refine Tidy.of_slots ⟨fun c p hc => (by cases hc), fun c c' p hc => (by cases hc)⟩ (fun f => ?_)
    fun q => ?_
  · refine (sum_eq_zero fun q _ => tally_eq_zero fun i => ?_).symm
    by_cases hq : q = 0
    · subst hq
      simp [Thread.boot, Proc.zero]
    · simp [Thread.boot, Proc.zero, update_of_ne hq]
  · by_cases hq : q = 0
    · subst hq
      simp [Thread.boot, Proc.zero, Proc.Clean]
    · simp [Thread.boot, Proc.zero, update_of_ne hq, Proc.NoFiles, Proc.Clean]

variable [DecidableEq κ]

lemma OnCpu.left {c' : κ} (h : OnCpu s) (hc : s.cpu c = some p)
    (hcpu : s'.cpu = update s.cpu c none) (hc' : s'.cpu c' = some q) : s.cpu c' = some q ∧ q ≠ p := by
  rw [hcpu] at hc'
  by_cases hcc : c' = c
  · subst hcc
    simp at hc'
  · rw [update_of_ne hcc] at hc'
    refine ⟨hc', ?_⟩
    rintro rfl
    exact hcc (h.unique c' c q hc' hc)

lemma OnCpu.does (h : OnCpu s) (hd : Does s a s' es) : OnCpu s' := by
  cases hd with
  | touch hsoft hwoken hcpu hrest hes =>
    refine h.keep (fun c p hc => hcpu ▸ hc) fun c p hc => ?_
    refine (hwoken p).eq_of_ne ?_
    rw [h.running c p (hcpu ▸ hc)]
    simp
  | schedule c p hc hp hsoft hp' hother hcpu hrest =>
    have hne : ∀ c' q, c' ≠ c → s'.cpu c' = some q → s.cpu c' = some q ∧ q ≠ p := by
      intro c' q hcc hc'
      rw [hcpu, update_of_ne hcc] at hc'
      exact ⟨hc', h.ne hc' (by simp [hp])⟩
    have hself : s'.cpu c = some p := by simp [hcpu]
    refine ⟨fun c' q hc' => ?_, fun c1 c2 q h1 h2 => ?_⟩
    · by_cases hcc : c' = c
      · subst hcc
        rw [hself] at hc'
        cases hc'
        exact hp'
      · obtain ⟨hq, hqp⟩ := hne c' q hcc hc'
        rw [hother q hqp]
        exact h.running c' q hq
    · by_cases hc1 : c1 = c
      · subst hc1
        by_contra hc2
        rw [hself] at h1
        cases h1
        exact (hne c2 p (Ne.symm hc2) h2).2 rfl
      · obtain ⟨hq, hqp⟩ := hne c1 q hc1 h1
        by_cases hc2 : c2 = c
        · subst hc2
          rw [hself] at h2
          cases h2
          exact absurd rfl hqp
        · exact h.unique c1 c2 q hq (hne c2 q hc2 h2).1
  | leave c p hc hsoft hp' hother hcpu hrest =>
    refine h.keep (fun c' q hc' => (h.left hc hcpu hc').1) fun c' q hc' => ?_
    rw [hother q (h.left hc hcpu hc').2]
  | miss p hp hp' hparent hofile hcwd hother hcpu hpid hfree href hes =>
    refine h.keep (fun c p hc => hcpu ▸ hc) fun c q hc => ?_
    rw [hother q (h.ne (hcpu ▸ hc) (by simp [hp]))]
  | create c p np hc hnp hnp' hpid hnext hparent hcontext hgiven hfiles hother hcpu hes =>
    refine h.keep (fun c p hc => hcpu ▸ hc) fun c q hc => ?_
    rw [hother q (h.ne (hcpu ▸ hc) (by simp [hnp]))]
  | files c p hc hp hfiles hother hcpu hpid hfree hes =>
    refine h.keep (fun c p hc => hcpu ▸ hc) fun c q hc => ?_
    by_cases hq : q = p
    · subst hq
      exact hp.state
    · rw [hother q hq]
  | die c p hc hcontext hchildren hsoft hp' hwoken hcpu hrest hes =>
    refine h.keep (fun c' q hc' => (h.left hc hcpu hc').1) fun c' q hc' => ?_
    obtain ⟨hq, hqp⟩ := h.left hc hcpu hc'
    refine (hwoken q hqp).eq_of_ne ?_
    rw [h.running c' q hq]
    simp
  | reap c p q k freed hc hq hparent hk hfreed hq' hreset hofile hcwd hsoft hother hcpu =>
    exact h.keep (fun c p hc => hcpu ▸ hc) fun c r hc =>
      hother r (h.ne (hcpu ▸ hc) (by simp [hq]))

lemma Tidy.does (h : Tidy s) (hd : Does s a s' es) : Tidy s' := by
  have honcpu := h.cpu.does hd
  cases hd with
  | touch hsoft hwoken hcpu hrest hes =>
    exact .of_slots honcpu (h.ref_soft hsoft hrest) fun q =>
      h.soft_slot (hsoft q) (hwoken q).unused (hwoken q).zombie
  | schedule c p hc hp hsoft hp' hother hcpu hrest =>
    exact h.of_slot honcpu (h.ref_soft hsoft hrest) hother
      (h.soft_slot (hsoft p) (by simp [hp']) (by simp [hp']))
  | leave c p hc hsoft hp' hother hcpu hrest =>
    refine h.of_slot honcpu (h.ref_soft hsoft hrest) hother ?_
    rcases hp' with hp' | hp'
    · exact h.soft_slot (hsoft p) (by simp [hp']) (by simp [hp'])
    · exact h.soft_slot (hsoft p) (by simp [hp']) (by simp [hp'])
  | miss p hp hp' hparent hofile hcwd hother hcpu hpid hfree href hes =>
    have hclean := h.unused p hp
    have hclean' := hclean.2.of_eq hofile hcwd
    refine h.of_slot honcpu (fun f => ?_) hother
      ⟨fun _ => ⟨hparent.trans hclean.1, hclean'⟩, fun _ => hclean', fun _ => hclean'⟩
    have hsum := sum_uses (s := s) (fun q hq => congrArg Proc.ofile (hother q hq)) f
    rw [hclean.2.uses, hclean'.uses] at hsum
    rw [href, h.ref f]
    omega
  | create c p np hc hnp hnp' hpid hnext hparent hcontext hgiven hfiles hother hcpu hes =>
    have hclean := (h.unused np hnp).2
    refine h.of_slot honcpu (fun f => ?_) hother ⟨by simp [hnp'], by simp [hnp'], by simp [hcontext]⟩
    have hsum := sum_uses (s := s) (fun q hq => congrArg Proc.ofile (hother q hq)) f
    rw [hclean.uses, add_zero] at hsum
    rw [hfiles hclean.1 f, h.ref f]
    exact hsum.symm
  | files c p hc hp hfiles hother hcpu hpid hfree hes =>
    have hrunning := h.cpu.running c p hc
    refine h.of_slot honcpu (fun f => ?_) hother
      ⟨by simp [hp.state, hrunning], by simp [hp.state, hrunning], hp.exit⟩
    have hsum := sum_uses (s := s) (fun q hq => congrArg Proc.ofile (hother q hq)) f
    have hf := hfiles f
    rw [h.ref f] at hf
    omega
  | die c p hc hcontext hchildren hsoft hp' hwoken hcpu hrest hes =>
    refine .of_slots honcpu (h.ref_soft hsoft hrest) fun q => ?_
    by_cases hq : q = p
    · subst hq
      have hnone := (hsoft q).noFiles (h.exit q hcontext)
      exact ⟨by simp [hp'], fun _ => hnone, fun _ => hnone⟩
    · exact h.soft_slot (hsoft q) (hwoken q hq).unused (hwoken q hq).zombie
  | reap c p q k freed hc hq hparent hk hfreed hq' hreset hofile hcwd hsoft hother hcpu hpid hfree
      href =>
    have hnone := h.zombie q hq
    have hnone' := hnone.of_eq hofile hcwd
    refine .of_slots honcpu (fun f => ?_) fun r => ?_
    · have hsum := sum_uses (s := s) (fun r hr => (hsoft r hr).ofile) f
      rw [hnone.uses, hnone'.uses] at hsum
      rw [href, h.ref f]
      omega
    · by_cases hr : r = q
      · subst hr
        exact ⟨fun _ => ⟨hreset, hnone'⟩, fun _ => hnone', fun _ => hnone'⟩
      · exact h.soft_slot (hsoft r hr) (by simp [hother r hr]) (by simp [hother r hr])

/-- In every run in which no process exits while it has threads, the counts of the open files are those of
the descriptors, and an unused slot is empty. -/
theorem files_counted (h : Run step Alone (boot k d free root : State κ) es s) :
    (∀ f, s.ref f = ∑ p, if (s.proc p).state = .unused then 0 else (s.proc p).uses f) ∧
      ∀ p, (s.proc p).state = .unused → (s.proc p).parent = none ∧
        (∀ i, (s.proc p).ofile i = none) ∧ (s.proc p).cwd = none := by
  have htidy : Tidy s :=
    h.invariant (fun s a s' es h ha hstep => h.does (step_does h.cpu ha hstep)) .boot
  refine ⟨fun f => ?_, htidy.unused⟩
  rw [htidy.ref f]
  refine sum_congr rfl fun p _ => ?_
  split
  · rename_i hp
    exact (htidy.unused p hp).2.uses
  · rfl

instance (s : State κ) : ∀ a, Decidable (Alone s a)
  | .exitLocked c => inferInstanceAs (Decidable (∀ p, s.cpu c = some p →
      ∀ q, (s.proc q).parent = some p → (s.proc q).isthread = false))
  | .schedule _ _ | .yield _ | .sleep _ _ | .wakeup _ | .fork _ _ | .clone _ _ | .exitFiles _
  | .wait _ | .join _ | .kill _ _ | .sysOpen _ _ | .dup _ _ | .close _ _ =>
    inferInstanceAs (Decidable True)

/-- A process opens a file, and a thread of it exits and is joined. -/
theorem thread_joined : ∃ s : State Unit, (s.proc 1).state = .unused ∧ s.ref 0 = 1 ∧
    (s.proc 1).parent = none ∧
    s.ref 0 = ∑ p, if (s.proc p).state = .unused then 0 else (s.proc p).uses 0 := by
  obtain ⟨s, hrun, hunused, href⟩ : ∃ s : State Unit, Run step Alone (boot 100 101 [1, 2, 3] 1)
      [.returned 0 0, .returned 0 2, .kfree 1, .stack 0 4096, .returned 0 2] s ∧
      (s.proc 1).state = .unused ∧ s.ref 0 = 1 :=
    Run.of_leads [.schedule () 0, .sysOpen () true, .clone () 4096, .yield (), .schedule () 1, .exitFiles (),
      .exitLocked (), .schedule () 0, .join ()] (by decide +kernel)
  obtain ⟨hcount, hempty⟩ := files_counted hrun
  exact ⟨s, hunused, href, (hempty 1 hunused).1, hcount 0⟩

/-- A process exits while it has a thread: the slot of the thread is unused, with a parent and a file that
is still counted. -/
theorem thread_abandoned : ∃ (s : State Unit) (es : List Event),
    Run step (fun _ _ => True) (boot 100 101 [1, 2, 3, 4] 1) es s ∧ s.ref 0 = 1 ∧
    (∀ p, (s.proc p).state ≠ .unused → ∀ i, (s.proc p).ofile i = none) ∧
    (s.proc 2).state = .unused ∧ (s.proc 2).parent = some 1 ∧ (s.proc 2).ofile 0 = some 0 := by
  obtain ⟨s, hrun, hs⟩ : ∃ s : State Unit, Run step (fun _ _ => True) (boot 100 101 [1, 2, 3, 4] 1)
      [.returned 0 2, .returned 1 0, .returned 1 3, .kfree 2] s ∧ s.ref 0 = 1 ∧
      (∀ p, (s.proc p).state ≠ .unused → ∀ i, (s.proc p).ofile i = none) ∧
      (s.proc 2).state = .unused ∧ (s.proc 2).parent = some 1 ∧ (s.proc 2).ofile 0 = some 0 :=
    Run.of_leads [.schedule () 0, .fork () true, .yield (), .schedule () 1, .sysOpen () true, .clone () 4096,
      .exitFiles (), .exitLocked ()] (by decide +kernel)
  exact ⟨s, _, hrun, hs⟩

end LearnXv6.Thread
