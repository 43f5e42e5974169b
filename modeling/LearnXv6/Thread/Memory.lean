import LearnXv6.Thread.Files

/-! Whose the page directories and the kernel stacks are. -/
namespace LearnXv6.Thread
open Function Store List Option

variable {κ : Type} {s s' : State κ} {c : κ} {p q r : Slot} {x x' : Proc} {es es' : List Event}
  {a : Action κ} {k d : Page} {free : List Page} {root : ℕ}

def Proc.Used (x : Proc) : Prop := x.state ≠ .unused

/-- The process has not ended. -/
def Proc.Live (x : Proc) : Prop := x.state ≠ .unused ∧ x.state ≠ .zombie

lemma Proc.Live.used (h : x.Live) : x.Used := h.1

/-- The pages of a slot. -/
def Proc.Has (x : Proc) (page : Page) : Prop := x.kstack = some page ∨ x.pgdir = some page

/-- Kernel stacks belong to one slot each, and page directories to one process each, whose threads share
them. -/
structure Separate (s : State κ) : Prop where
  cpu : OnCpu s
  nodup : s.free.Nodup
  pid : ∀ q, (s.proc q).Used → (s.proc q).pid < s.nextpid
  pages : ∀ q, (s.proc q).Used → (s.proc q).kstack ≠ none ∧ (s.proc q).pgdir ≠ none
  free : ∀ q, (s.proc q).Used → ∀ page, (s.proc q).Has page → page ∉ s.free
  stack : ∀ p q, (s.proc p).Used → (s.proc q).Used → (s.proc p).kstack = (s.proc q).kstack → p = q
  apart : ∀ p q, (s.proc p).Used → (s.proc q).Used → (s.proc p).kstack ≠ (s.proc q).pgdir
  owner : ∀ p q, (s.proc p).Used → (s.proc q).Used → (s.proc p).isthread = false →
    (s.proc q).isthread = false → (s.proc p).pgdir = (s.proc q).pgdir → p = q
  thread : ∀ q, (s.proc q).Used → (s.proc q).isthread = true → ∃ p, (s.proc q).parent = some p ∧
    (s.proc p).Live ∧ (s.proc q).pgdir = (s.proc p).pgdir ∧ (s.proc p).pid < (s.proc q).pid

structure Kept (x x' : Proc) : Prop where
  pid : x'.pid = x.pid
  pgdir : x'.pgdir = x.pgdir
  kstack : x'.kstack = x.kstack
  isthread : x'.isthread = x.isthread
  parent : x.isthread = true → x'.parent = x.parent

lemma Kept.of_eq (h : x' = x) : Kept x x' := by
  subst h
  exact ⟨rfl, rfl, rfl, rfl, fun _ => rfl⟩

lemma Soft.kept (h : Soft x x') : Kept x x' := by
  refine ⟨h.pid, h.pgdir, h.kstack, h.isthread, fun hx => ?_⟩
  rcases h.parent with he | he
  · exact he
  · rw [hx] at he
    cases he.1

lemma Refiled.kept (h : Refiled x x') : Kept x x' :=
  ⟨h.pid, h.pgdir, h.kstack, h.isthread, fun _ => h.parent⟩

lemma Kept.has {page : Page} (h : Kept x x') (hp : x'.Has page) : x.Has page := by
  rwa [Proc.Has, h.kstack, h.pgdir] at hp

lemma Woken.used (h : Woken x x') : x'.Used ↔ x.Used := by
  rcases h with h | h
  · rw [Proc.Used, Proc.Used, h]
  · simp [Proc.Used, h]

lemma Woken.live (h : Woken x x') : x'.Live ↔ x.Live := by
  rcases h with h | h
  · rw [Proc.Live, Proc.Live, h]
  · simp [Proc.Live, h]

namespace Separate

variable (h : Separate s)
include h

lemma process (hq : (s.proc q).Used) : ∃ r, (s.proc r).Used ∧
    (s.proc r).isthread = false ∧ (s.proc r).pgdir = (s.proc q).pgdir ∧ (r = q ∨ (s.proc r).Live) := by
  -- a thread has a greater pid than its parent
  induction hn : (s.proc q).pid using Nat.strong_induction_on generalizing q with
  | _ n ih =>
    cases ht : (s.proc q).isthread with
    | false => exact ⟨q, hq, ht, rfl, .inl rfl⟩
    | true =>
      obtain ⟨p, _, hlive, hdir, hlt⟩ := h.thread q hq ht
      obtain ⟨r, hr, hthread, hrdir, hrp⟩ := ih _ (hn ▸ hlt) hlive.used rfl
      refine ⟨r, hr, hthread, hrdir.trans hdir.symm, .inr ?_⟩
      rcases hrp with rfl | hlive'
      · exact hlive
      · exact hlive'

lemma sole (hq : (s.proc q).state = .zombie) (hthread : (s.proc q).isthread = false)
    (hr : (s.proc r).Used) (hdir : (s.proc r).pgdir = (s.proc q).pgdir) : r = q := by
  obtain ⟨p, hp, hpthread, hpdir, hpr⟩ := h.process hr
  have hpq : p = q := h.owner p q hp (by simp [Proc.Used, hq]) hpthread hthread (hpdir.trans hdir)
  subst hpq
  rcases hpr with rfl | hlive
  · rfl
  · exact absurd hq hlive.2

section

variable (hcpu : OnCpu s') (hpid : s.nextpid ≤ s'.nextpid)
include hcpu hpid

section

variable (hkept : ∀ q, (s'.proc q).Used → (s.proc q).Used ∧ Kept (s.proc q) (s'.proc q))
  (hlive : ∀ p q, (s.proc q).isthread = true → (s'.proc q).Used → (s.proc q).parent = some p →
    (s.proc p).Live → (s'.proc p).Live)
include hkept hlive

lemma keep (hnodup : s'.free.Nodup)
    (hfree : ∀ q, (s'.proc q).Used → ∀ page, (s.proc q).Has page → page ∉ s'.free) : Separate s' where
  cpu := hcpu
  nodup := hnodup
  pid q hq := by
    obtain ⟨hq, hk⟩ := hkept q hq
    rw [hk.pid]
    exact (h.pid q hq).trans_le hpid
  pages q hq := by
    obtain ⟨hq, hk⟩ := hkept q hq
    rw [hk.kstack, hk.pgdir]
    exact h.pages q hq
  free q hq page hpage := hfree q hq page ((hkept q hq).2.has hpage)
  stack p q hp hq heq := by
    obtain ⟨hp, hkp⟩ := hkept p hp
    obtain ⟨hq, hkq⟩ := hkept q hq
    rw [hkp.kstack, hkq.kstack] at heq
    exact h.stack p q hp hq heq
  apart p q hp hq := by
    obtain ⟨hp, hkp⟩ := hkept p hp
    obtain ⟨hq, hkq⟩ := hkept q hq
    rw [hkp.kstack, hkq.pgdir]
    exact h.apart p q hp hq
  owner p q hp hq htp htq heq := by
    obtain ⟨hp, hkp⟩ := hkept p hp
    obtain ⟨hq, hkq⟩ := hkept q hq
    rw [hkp.isthread] at htp
    rw [hkq.isthread] at htq
    rw [hkp.pgdir, hkq.pgdir] at heq
    exact h.owner p q hp hq htp htq heq
  thread q hq' ht := by
    obtain ⟨hq, hk⟩ := hkept q hq'
    rw [hk.isthread] at ht
    obtain ⟨p, hp, hplive, hdir, hlt⟩ := h.thread q hq ht
    have hplive' := hlive p q ht hq' hp hplive
    have hkp := (hkept p hplive'.used).2
    refine ⟨p, (hk.parent ht).trans hp, hplive', ?_, ?_⟩
    · rw [hk.pgdir, hkp.pgdir, hdir]
    · rw [hk.pid, hkp.pid]
      exact hlt

lemma keep_free (hfree : s'.free = s.free) : Separate s' := by
  refine h.keep hcpu hpid hkept hlive (hfree ▸ h.nodup) fun q hq page hpage => ?_
  rw [hfree]
  exact h.free q (hkept q hq).1 page hpage

end

lemma keep_one (hfree : s'.free = s.free) (hother : ∀ q ≠ p, s'.proc q = s.proc q)
    (hkept : (s'.proc p).Used → (s.proc p).Used ∧ Kept (s.proc p) (s'.proc p))
    (hlive : (s.proc p).Live → (s'.proc p).Live) : Separate s' := by
  refine h.keep_free hcpu hpid (fun q hq => ?_) (fun r q _ _ _ hr => ?_) hfree
  · by_cases hqp : q = p
    · subst hqp
      exact hkept hq
    · rw [hother q hqp] at hq ⊢
      exact ⟨hq, .of_eq rfl⟩
  · by_cases hrp : r = p
    · subst hrp
      exact hlive hr
    · rwa [hother r hrp]

end

lemma given (hp : (s.proc p).Used) (hg : Given s p x free) : ∃ k d,
    x.kstack = some k ∧ x.pgdir = some d ∧ k ∈ s.free ∧ k ≠ d ∧ k ∉ free ∧ d ∉ free ∧ free.Nodup ∧
      free ⊆ s.free ∧ (x.isthread = false ∧ d ∈ s.free ∨ x.isthread = true ∧ (s.proc p).pgdir = some d) := by
  have hnodup := h.nodup
  cases hg with
  | fork k d hfree hk hd ht =>
    rw [hfree, nodup_cons, nodup_cons, mem_cons, not_or] at hnodup
    obtain ⟨⟨hkd, hkfree⟩, hdfree, hfree'⟩ := hnodup
    exact ⟨k, d, hk, hd, by simp [hfree], hkd, hkfree, hdfree, hfree',
      fun y hy => by simp [hfree, hy], .inl ⟨ht, by simp [hfree]⟩⟩
  | clone k hfree hk hd ht =>
    rw [hfree, nodup_cons] at hnodup
    obtain ⟨d, hpd⟩ := ne_none_iff_exists'.mp (h.pages p hp).2
    have hdfree := h.free p hp d (.inr hpd)
    rw [hfree, mem_cons, not_or] at hdfree
    exact ⟨k, d, hk, hd.trans hpd, by simp [hfree], Ne.symm hdfree.1, hnodup.1, hdfree.2, hnodup.2,
      fun y hy => by simp [hfree, hy], .inr ⟨ht, hpd⟩⟩

lemma create {np : Slot} (hcpu : OnCpu s') (hp : (s.proc p).Live)
    (hnp : (s.proc np).state = .unused) (hnp' : (s'.proc np).state = .runnable)
    (hpid : (s'.proc np).pid = s.nextpid) (hnext : s'.nextpid = s.nextpid + 1)
    (hparent : (s'.proc np).parent = some p) (hgiven : Given s p (s'.proc np) s'.free)
    (hother : ∀ q ≠ np, s'.proc q = s.proc q) : Separate s' := by
  obtain ⟨k, d, hk, hd, hkold, hkd, hkfree, hdfree, hnodup, hsub, hdir⟩ := h.given hp.used hgiven
  have hused : ∀ q ≠ np, (s'.proc q).Used → (s.proc q).Used := fun q hq hu => hother q hq ▸ hu
  have hpnp : p ≠ np := by
    rintro rfl
    exact hp.1 hnp
  -- the pages of the other slots are not those that have been free
  have hold : ∀ q ≠ np, (s'.proc q).Used → ∀ page, (s'.proc q).Has page → page ∉ s.free := by
    intro q hq hu page hpage
    rw [hother q hq] at hpage
    exact h.free q (hused q hq hu) page hpage
  refine ⟨hcpu, hnodup, fun q hu => ?_, fun q hu => ?_, fun q hu page hpage => ?_,
    fun q r hu hv heq => ?_, fun q r hu hv heq => ?_, fun q r hu hv htq htr heq => ?_,
    fun q hu ht => ?_⟩
  · rw [hnext]
    by_cases hq : q = np
    · subst hq
      rw [hpid]
      exact Nat.lt_succ_self _
    · rw [hother q hq]
      exact (h.pid q (hused q hq hu)).trans (Nat.lt_succ_self _)
  · by_cases hq : q = np
    · subst hq
      simp [hk, hd]
    · rw [hother q hq]
      exact h.pages q (hused q hq hu)
  · by_cases hq : q = np
    · subst hq
      rcases hpage with hpage | hpage
      · rw [hk] at hpage
        cases hpage
        exact hkfree
      · rw [hd] at hpage
        cases hpage
        exact hdfree
    · exact fun hmem => hold q hq hu page hpage (hsub hmem)
  · by_cases hq : q = np
    · subst hq
      by_contra hr
      rw [hk] at heq
      exact hold r (Ne.symm hr) hv k (.inl heq.symm) hkold
    · by_cases hr : r = np
      · subst hr
        rw [hk] at heq
        exact absurd hkold (hold q hq hu k (.inl heq))
      · rw [hother q hq, hother r hr] at heq
        exact h.stack q r (hused q hq hu) (hused r hr hv) heq
  · by_cases hq : q = np
    · subst hq
      rw [hk] at heq
      by_cases hr : r = q
      · subst hr
        rw [hd] at heq
        exact hkd (some.inj heq)
      · exact hold r hr hv k (.inr heq.symm) hkold
    · by_cases hr : r = np
      · subst hr
        rw [hd] at heq
        rcases hdir with ⟨_, hdold⟩ | ⟨_, hpd⟩
        · exact hold q hq hu d (.inl heq) hdold
        · rw [hother q hq, ← hpd] at heq
          exact h.apart q p (hused q hq hu) hp.used heq
      · rw [hother q hq, hother r hr] at heq
        exact h.apart q r (hused q hq hu) (hused r hr hv) heq
  · have hnew : ∀ r ≠ np, (s'.proc r).Used → (s'.proc np).isthread = false →
        (s'.proc r).pgdir ≠ some d := by
      intro r hr hv ht heq
      rcases hdir with ⟨_, hdold⟩ | ⟨ht', _⟩
      · exact hold r hr hv d (.inr heq) hdold
      · rw [ht] at ht'
        cases ht'
    by_cases hq : q = np
    · subst hq
      by_contra hr
      exact hnew r (Ne.symm hr) hv htq (heq.symm.trans hd)
    · by_cases hr : r = np
      · subst hr
        exact absurd (heq.trans hd) (hnew q hq hu htr)
      · rw [hother q hq] at htq heq
        rw [hother r hr] at htr heq
        exact h.owner q r (hused q hq hu) (hused r hr hv) htq htr heq
  · by_cases hq : q = np
    · subst hq
      rcases hdir with ⟨ht', _⟩ | ⟨_, hpd⟩
      · rw [ht] at ht'
        cases ht'
      · refine ⟨p, hparent, ?_, ?_, ?_⟩
        · rwa [hother p hpnp]
        · rw [hother p hpnp, hd, hpd]
        · rw [hother p hpnp, hpid]
          exact h.pid p hp.used
    · rw [hother q hq] at ht
      obtain ⟨r, hr, hlive, hrdir, hlt⟩ := h.thread q (hused q hq hu) ht
      have hrnp : r ≠ np := by
        rintro rfl
        exact hlive.1 hnp
      refine ⟨r, ?_, ?_, ?_, ?_⟩
      · rw [hother q hq, hr]
      · rwa [hother r hrnp]
      · rw [hother q hq, hother r hrnp, hrdir]
      · rwa [hother q hq, hother r hrnp]

lemma reap {freed : Option Page} (hcpu : OnCpu s')
    (hq : (s.proc q).state = .zombie) (hk : (s.proc q).kstack = some k)
    (hfreed : freed = (s.proc q).pgdir ∧ (s.proc q).isthread = false ∨ freed = none)
    (hq' : (s'.proc q).state = .unused) (hsoft : ∀ r ≠ q, Soft (s.proc r) (s'.proc r))
    (hother : ∀ r ≠ q, (s'.proc r).state = (s.proc r).state) (hpid : s'.nextpid = s.nextpid)
    (hfree : s'.free = freed.toList ++ k :: s.free) : Separate s' := by
  have hqused : (s.proc q).Used := by simp [Proc.Used, hq]
  have hkfree := h.free q hqused k (.inl hk)
  have hne : ∀ r, (s'.proc r).Used → r ≠ q := by
    rintro r hr rfl
    exact hr hq'
  have hused : ∀ r, (s'.proc r).Used → (s.proc r).Used := by
    intro r hr
    rwa [Proc.Used, hother r (hne r hr)] at hr
  have hmem : ∀ page, page ∈ s'.free ↔ freed = some page ∨ page = k ∨ page ∈ s.free := by
    intro page
    rw [hfree, mem_append, mem_toList, mem_cons]
  refine h.keep hcpu hpid.ge (fun r hr => ⟨hused r hr, (hsoft r (hne r hr)).kept⟩)
    (fun p r ht hr hp hlive => ?_) ?_ fun r hr page hpage hin => ?_
  rotate_left
  · rw [hfree]
    rcases hfreed with ⟨rfl, _⟩ | rfl
    · obtain ⟨d, hd⟩ := ne_none_iff_exists'.mp (h.pages q hqused).2
      have hdk : d ≠ k := by
        rintro rfl
        exact h.apart q q hqused hqused (hk.trans hd.symm)
      rw [hd, toList_some, singleton_append, nodup_cons, nodup_cons, mem_cons, not_or]
      exact ⟨⟨hdk, h.free q hqused d (.inr hd)⟩, hkfree, h.nodup⟩
    · exact nodup_cons.mpr ⟨hkfree, h.nodup⟩
  · rcases (hmem page).mp hin with hfr | rfl | hin
    · rcases hfreed with ⟨rfl, hthread⟩ | rfl
      · rcases hpage with hpage | hpage
        · exact h.apart r q (hused r hr) hqused (hpage.trans hfr.symm)
        · exact hne r hr (h.sole hq hthread (hused r hr) (hpage.trans hfr.symm))
      · cases hfr
    · rcases hpage with hpage | hpage
      · exact hne r hr (h.stack r q (hused r hr) hqused (hpage.trans hk.symm))
      · exact h.apart q r hqused (hused r hr) (hk.trans hpage.symm)
    · exact h.free r (hused r hr) page hpage hin
  · have hpq : p ≠ q := by
      rintro rfl
      exact hlive.2 hq
    rwa [Proc.Live, hother p hpq]

end Separate

/-- Besides, no process waits while a thread of it has exited and is not joined. -/
def Joined (s : State κ) (a : Action κ) : Prop :=
  Alone s a ∧ match a with
    | .wait c => ∀ p, s.cpu c = some p → ∀ q, (s.proc q).parent = some p →
      (s.proc q).state = .zombie → (s.proc q).isthread = false
    | _ => True

variable [DecidableEq κ]

lemma Separate.does (h : Separate s) (ha : Joined s a) (hd : Does s a s' es) : Separate s' := by
  have honcpu := h.cpu.does hd
  cases hd with
  | touch hsoft hwoken hcpu hrest hes =>
    exact h.keep_free honcpu hrest.nextpid.ge (fun q hq => ⟨(hwoken q).used.mp hq, (hsoft q).kept⟩)
      (fun p q _ _ _ hlive => (hwoken p).live.mpr hlive) hrest.free
  | schedule c p hc hp hsoft hp' hother hcpu hrest =>
    exact h.keep_one honcpu hrest.nextpid.ge hrest.free hother
      (fun _ => ⟨by simp [Proc.Used, hp], (hsoft p).kept⟩) fun _ => by simp [Proc.Live, hp']
  | leave c p hc hsoft hp' hother hcpu hrest =>
    have hrunning := h.cpu.running c p hc
    refine h.keep_one honcpu hrest.nextpid.ge hrest.free hother
      (fun _ => ⟨by simp [Proc.Used, hrunning], (hsoft p).kept⟩) fun _ => ?_
    rcases hp' with hp' | hp'
    · simp [Proc.Live, hp']
    · simp [Proc.Live, hp']
  | miss p hp hp' hparent hofile hcwd hother hcpu hpid hfree href hes =>
    exact h.keep_one honcpu hpid hfree hother (fun hused => absurd hp' hused) fun hl => absurd hp hl.1
  | create c p np hc hnp hnp' hpid hnext hparent hcontext hgiven hfiles hother hcpu hes =>
    exact h.create honcpu (by simp [Proc.Live, h.cpu.running c p hc]) hnp hnp' hpid hnext hparent
      hgiven hother
  | files c p hc hp hfiles hother hcpu hpid hfree hes =>
    refine h.keep_one honcpu hpid.ge hfree hother (fun hused => ⟨?_, hp.kept⟩) fun hl => ?_
    · rwa [Proc.Used, hp.state] at hused
    · rwa [Proc.Live, hp.state]
  | die c p hc hcontext hchildren hsoft hp' hwoken hcpu hrest hes =>
    have hrunning := h.cpu.running c p hc
    refine h.keep_free honcpu hrest.nextpid.ge (fun q hq => ⟨?_, (hsoft q).kept⟩)
      (fun r q ht _ hr hlive => ?_) hrest.free
    · by_cases hqp : q = p
      · subst hqp
        simp [Proc.Used, hrunning]
      · exact (hwoken q hqp).used.mp hq
    · -- the process that ends is no thread's parent
      have hrp : r ≠ p := by
        rintro rfl
        rw [hchildren q hr] at ht
        cases ht
      exact (hwoken r hrp).live.mpr hlive
  | reap c p q k freed hc hq hparent hk hfreed hq' hreset hofile hcwd hsoft hother hcpu hpid hfree =>
    refine h.reap honcpu hq hk ?_ hq' hsoft hother hpid hfree
    rcases hfreed with ⟨rfl, hfr⟩ | ⟨hfr, _⟩
    · exact .inl ⟨hfr, ha.2 p hc q hparent hq⟩
    · exact .inr hfr

omit [DecidableEq κ] in
lemma Separate.boot (hfree : (k :: d :: free).Nodup) : Separate (boot k d free root : State κ) := by
  simp only [nodup_cons, mem_cons, not_or] at hfree
  obtain ⟨⟨hkd, hk⟩, hd, hnodup⟩ := hfree
  have hzero : ∀ q, ((Thread.boot k d free root : State κ).proc q).Used → q = 0 := by
    intro q hq
    by_contra hne
    simp [Thread.boot, Proc.Used, Proc.zero, update_of_ne hne] at hq
  refine ⟨⟨fun c p hc => (by cases hc), fun c c' p hc => (by cases hc)⟩, hnodup, fun q hq => ?_,
    fun q hq => ?_, fun q hq page hpage => ?_, fun p q hp hq _ => ?_, fun p q hp hq heq => ?_,
    fun p q hp hq _ _ _ => ?_, fun q hq ht => ?_⟩
  · obtain rfl := hzero q hq
    simp [Thread.boot]
  · obtain rfl := hzero q hq
    simp [Thread.boot]
  · obtain rfl := hzero q hq
    simp only [Thread.boot, update_self, Proc.Has, some.injEq] at hpage ⊢
    rcases hpage with rfl | rfl
    · exact hk
    · exact hd
  · rw [hzero p hp, hzero q hq]
  · obtain rfl := hzero p hp
    obtain rfl := hzero q hq
    simp only [Thread.boot, update_self, some.injEq] at heq
    exact hkd heq
  · rw [hzero p hp, hzero q hq]
  · obtain rfl := hzero q hq
    simp [Thread.boot, Proc.zero] at ht

/-- In every run in which processes join their threads before they wait and before they exit, a page
directory is freed when only slots that have ended have it, and no kernel stack is freed that is in use. -/
theorem freed_after_end (hfree : (k :: d :: free).Nodup)
    (h : Run step Joined (boot k d free root : State κ) es s) (ha : Joined s a)
    (hs : step a s = .ok (s', es')) : (∀ d, .freevm d ∈ es' → ∀ q, (s.proc q).pgdir = some d →
      (s.proc q).state = .unused ∨ (s.proc q).state = .zombie) ∧
    ∀ p, .kfree p ∈ es' → (s.proc p).state ≠ .running := by
  have hsep : Separate s :=
    h.invariant (fun s a s' es h ha hstep => h.does ha (step_does h.cpu ha.1 hstep)) (.boot hfree)
  have hquiet : Quiet es' → (∀ d, .freevm d ∈ es' → ∀ q, (s.proc q).pgdir = some d →
      (s.proc q).state = .unused ∨ (s.proc q).state = .zombie) ∧
      ∀ p, .kfree p ∈ es' → (s.proc p).state ≠ .running :=
    fun hq => ⟨fun d hd => absurd hd (hq.1 d), fun p hp => absurd hp (hq.2 p)⟩
  cases step_does hsep.cpu ha.1 hs with
  | touch hsoft hwoken hcpu hrest hes => exact hquiet hes
  | schedule | leave => exact hquiet .nil
  | miss p hp hp' hparent hofile hcwd hother hcpu hpid hfree href hes => exact hquiet hes
  | create c p np hc hnp hnp' hpid hnext hparent hcontext hgiven hfiles hother hcpu hes =>
    exact hquiet hes
  | files c p hc hp hfiles hother hcpu hpid hfree hes
  | die c p hc hcontext hchildren hsoft hp' hwoken hcpu hrest hes => exact hquiet hes
  | reap c p q k freed hc hq hparent hk hfreed hq' hreset hofile hcwd hsoft hother hcpu hpid hfree href
      hvm hstack =>
    refine ⟨fun d hd r hr => ?_, fun r hr => ?_⟩
    · by_contra hrused
      rw [not_or] at hrused
      rcases hfreed with ⟨rfl, hfr⟩ | ⟨hfr, _⟩
      · have hthread := ha.2 p hc q hparent hq
        have hdir : (s.proc r).pgdir = (s.proc q).pgdir := by rw [hr, ← hvm d hd, hfr]
        have hrq := hsep.sole hq hthread hrused.1 hdir
        exact hrused.2 (hrq ▸ hq)
      · rw [hvm d hd] at hfr
        cases hfr
    · rw [hstack r hr, hq]
      simp

instance (s : State κ) : ∀ a, Decidable (Joined s a)
  | .wait c => inferInstanceAs (Decidable (_ ∧ ∀ p, s.cpu c = some p → ∀ q,
      (s.proc q).parent = some p → (s.proc q).state = .zombie → (s.proc q).isthread = false))
  | .exitLocked _ | .schedule _ _ | .yield _ | .sleep _ _ | .wakeup _ | .fork _ _ | .clone _ _
  | .exitFiles _ | .join _ | .kill _ _ | .sysOpen _ _ | .dup _ _ | .close _ _ =>
    inferInstanceAs (Decidable (_ ∧ True))

/-- A child exits, and its parent waits for it. -/
theorem child_freed : ∃ s : State Unit, .freevm 2 ∈ eventsOf step (.wait ()) s ∧ (s.proc 1).pgdir = some 2 ∧
    ((s.proc 1).state = .unused ∨ (s.proc 1).state = .zombie) := by
  obtain ⟨s, hrun, hdir, ha, hfree⟩ : ∃ s : State Unit,
      Run step Joined (boot 100 101 [1, 2, 3] 1) [.returned 0 2] s ∧ (s.proc 1).pgdir = some 2 ∧
      Joined s (.wait ()) ∧ .freevm 2 ∈ eventsOf step (.wait ()) s :=
    Run.of_leads [.schedule () 0, .fork () true, .yield (), .schedule () 1, .exitFiles (), .exitLocked (),
      .schedule () 0] (by decide +kernel)
  obtain ⟨s', es', hstep, hmem⟩ := mem_eventsOf hfree
  exact ⟨s, hfree, hdir, (freed_after_end (by decide) hrun ha hstep).1 2 hmem 1 hdir⟩

/-- A process exits while its thread runs on another processor, and its kernel stack is freed; a process
waits for a thread that has exited, and its own page directory is freed. -/
theorem freed_while_running : (∃ (s : State Bool) (es : List Event),
      Run step (fun _ _ => True) (boot 100 101 [1, 2, 3, 4] 1) es s ∧
      .kfree 2 ∈ eventsOf step (.exitLocked false) s ∧ (s.proc 2).state = .running) ∧
    ∃ (s : State Unit) (es : List Event), Run step (fun _ _ => True) (boot 100 101 [1, 2, 3, 4] 1) es s ∧
      .freevm 101 ∈ eventsOf step (.wait ()) s ∧ (s.proc 0).pgdir = some 101 ∧ (s.proc 0).state = .running := by
  obtain ⟨s, hrun, hs⟩ : ∃ s : State Bool,
      Run step (fun _ _ => True) (boot 100 101 [1, 2, 3, 4] 1) [.returned 0 2, .returned 1 3] s ∧
      .kfree 2 ∈ eventsOf step (.exitLocked false) s ∧ (s.proc 2).state = .running :=
    Run.of_leads [.schedule false 0, .fork false true, .yield false, .schedule false 1, .clone false 4096,
      .schedule true 2, .exitFiles false] (by decide +kernel)
  obtain ⟨u, hrun', hu⟩ : ∃ s : State Unit,
      Run step (fun _ _ => True) (boot 100 101 [1, 2, 3, 4] 1) [.returned 0 2] s ∧
      .freevm 101 ∈ eventsOf step (.wait ()) s ∧ (s.proc 0).pgdir = some 101 ∧ (s.proc 0).state = .running :=
    Run.of_leads [.schedule () 0, .clone () 4096, .yield (), .schedule () 1, .exitFiles (), .exitLocked (),
      .schedule () 0] (by decide +kernel)
  exact ⟨⟨s, _, hrun, hs⟩, u, _, hrun', hu⟩

end LearnXv6.Thread
