import LearnXv6.Log.Counts
import LearnXv6.Log.Model

/-! The buffer cache as one process sees it that runs alone: the contents of every block, the
buffers it holds, and those that wait for the commit. -/
namespace LearnXv6.Log
open Function Store Fs Finset

variable {sb : Superblock} {s s' : State} {mem mem' : ℕ → Block} {held held' dirty dirty' : Finset ℕ}
  {b : ℕ} {v : Block} {x : Buf} {f : Buf → Buf}

/-- One reference to each buffer held. -/
def single (held : Finset ℕ) (b : ℕ) : ℕ := if b ∈ held then 1 else 0

lemma single_insert (hb : b ∉ held) :
    update (single held) b (single held b + 1) = single (insert b held) := by
  funext a
  by_cases ha : a = b
  · subst ha
    simp [single, hb]
  · simp [single, ha]

lemma single_erase (hb : b ∈ held) :
    update (single held) b (single held b - 1) = single (held.erase b) := by
  funext a
  by_cases ha : a = b
  · subst ha
    simp [single, hb]
  · simp [single, ha]

lemma single_pos : 0 < single held b ↔ b ∈ held := by
  by_cases hb : b ∈ held <;> simp [single, hb]

/-- The content and the lock of the buffer `x` of block `b`. -/
structure BufOk (mem : ℕ → Block) (held dirty : Finset ℕ) (x : Buf) (b : ℕ) : Prop where
  locked_eq : x.locked = decide (b ∈ held)
  data_eq : x.valid = true → x.data = mem b
  valid : b ∈ held ∨ b ∈ dirty → x.valid = true

/-- The state as the contents `mem` of the blocks, with the buffers `held` and `dirty`. -/
structure Rep (s : State) (mem : ℕ → Block) (held dirty : Finset ℕ) : Prop where
  counts : Counts s.bcache (single held) dirty
  unlocked : ∀ x ∈ s.bcache, x.blockno = none → x.locked = false
  bufs : ∀ x ∈ s.bcache, ∀ b, x.blockno = some b → BufOk mem held dirty x b
  clean : ∀ b, b ∉ held → b ∉ dirty → mem b = s.disk b

lemma rep_binit (h : s.bcache = binit) : Rep s s.disk ∅ ∅ := by
  have hx : ∀ x ∈ s.bcache, x = ⟨none, false, false, false, 0, 0⟩ := by
    rw [h]
    exact fun x hx => List.eq_of_mem_replicate hx
  refine ⟨h ▸ counts_binit, ?_, ?_, fun _ _ _ => rfl⟩
  · intro x hm _
    rw [hx x hm]
  · intro x hm b hb
    rw [hx x hm] at hb
    cases hb

lemma exec_bwrite (hx : entry s.bcache b = some x) (hl : x.locked = true) :
    exec sb (.bwrite b) s = .ok ((), { s with
      disk := update s.disk b x.data,
      bcache := modify s.bcache b Buf.written }) := by
  simp only [exec, hx, hl, if_true]

lemma exec_unlock (hx : entry s.bcache b = some x) (hl : x.locked = true) :
    exec sb (.unlock b) s = .ok ((), { s with bcache := modify s.bcache b Buf.unlock }) := by
  simp only [exec, hx, hl, if_true]

lemma bget_mem {c : List Buf} (hd : Distinct s.bcache) (hget : bget s.bcache b = some c)
    (hx : x ∈ c) (hb : x.blockno ≠ some b) : x ∈ s.bcache := by
  cases he : entry s.bcache b with
  | some y =>
    rw [bget_hit he] at hget
    cases hget
    obtain ⟨z, hz, rfl⟩ := mem_modify hx
    by_cases hzb : z.blockno = some b
    · rw [if_pos hzb] at hb
      exact absurd hzb hb
    · rwa [if_neg hzb]
  | none =>
    rw [bget_miss he] at hget
    obtain ⟨y, hr⟩ := recycle_spec hd he hget
    rcases hr.mem_of x hx with rfl | hx
    · exact absurd rfl hb
    · exact hx

section Rep

variable (h : Rep s mem held dirty)
include h

lemma Rep.cached (hb : b ∈ held) : (entry s.bcache b).isSome :=
  h.counts.cached b (.inl (single_pos.mpr hb))

lemma Rep.entry_ok (he : entry s.bcache b = some x) :
    BufOk mem held dirty x b := h.bufs x (entry_mem he) b (entry_blockno he)

lemma Rep.setLog (log : LogState) : Rep { s with log := log } mem held dirty :=
  ⟨h.counts, h.unlocked, h.bufs, h.clean⟩

lemma Rep.change (hcounts : Counts s'.bcache (single held') dirty')
    (hmem : ∀ y ∈ s'.bcache, y ∈ modify s.bcache b f) (hf : ∀ x, (f x).blockno = x.blockno)
    (hself : ∀ x, BufOk mem held dirty x b → BufOk mem' held' dirty' (f x) b)
    (hother : ∀ a, a ≠ b → mem' a = mem a ∧ (a ∈ held' ↔ a ∈ held) ∧ (a ∈ dirty' ↔ a ∈ dirty))
    (hclean : ∀ a, a ∉ held' → a ∉ dirty' → mem' a = s'.disk a) : Rep s' mem' held' dirty' := by
  refine ⟨hcounts, ?_, ?_, hclean⟩
  · intro y hy hn
    obtain ⟨x, hx, rfl⟩ := mem_modify (hmem y hy)
    by_cases hxb : x.blockno = some b
    · rw [if_pos hxb, hf, hxb] at hn
      cases hn
    · rw [if_neg hxb] at hn ⊢
      exact h.unlocked x hx hn
  · intro y hy a ha
    obtain ⟨x, hx, rfl⟩ := mem_modify (hmem y hy)
    by_cases hxb : x.blockno = some b
    · rw [if_pos hxb] at ha ⊢
      obtain rfl : b = a := by
        rw [hf, hxb] at ha
        exact Option.some.inj ha
      exact hself x (h.bufs x hx b hxb)
    · rw [if_neg hxb] at ha ⊢
      have hab : a ≠ b := by
        rintro rfl
        exact hxb ha
      obtain ⟨h1, h2, h3⟩ := hother a hab
      have hok := h.bufs x hx a ha
      exact ⟨by simp only [hok.locked_eq, h2], fun hv => (hok.data_eq hv).trans h1.symm,
        fun hv => hok.valid (by rwa [h2, h3] at hv)⟩

/-! Operations. -/

lemma Rep.held_entry (hb : b ∈ held) :
    ∃ x, entry s.bcache b = some x ∧ x.locked = true ∧ x.data = mem b := by
  obtain ⟨x, hx⟩ := Option.isSome_iff_exists.mp (h.cached hb)
  have hok := h.entry_ok hx
  exact ⟨x, hx, by simp [hok.locked_eq, hb], hok.data_eq (hok.valid (.inl hb))⟩

lemma Rep.setData (sb : Superblock) (hb : b ∈ held) (v : Block) :
    ∃ s', exec sb (.setData b v) s = .ok ((), s') ∧
      Rep s' (update mem b v) held dirty ∧ s'.disk = s.disk ∧ s'.log = s.log ∧ s'.icache = s.icache := by
  refine ⟨_, rfl, ?_, rfl, rfl, rfl⟩
  refine h.change (h.counts.frame (fun _ => rfl) (fun _ => rfl) fun _ => rfl) (fun _ hy => hy)
    (fun _ => rfl) ?_ ?_ ?_
  · intro x hok
    exact ⟨hok.locked_eq, fun _ => by rw [update_self]; rfl, hok.valid⟩
  · intro a ha
    exact ⟨update_of_ne ha _ _, Iff.rfl, Iff.rfl⟩
  · intro a ha hd
    have hab : a ≠ b := by
      rintro rfl
      exact ha hb
    rw [update_of_ne hab]
    exact h.clean a ha hd

lemma Rep.bwrite (sb : Superblock) (hb : b ∈ held) :
    ∃ s', exec sb (.bwrite b) s = .ok ((), s') ∧ Rep s' mem held (dirty.erase b) ∧
      s'.disk = update s.disk b (mem b) ∧ s'.log = s.log ∧ s'.icache = s.icache := by
  obtain ⟨x, hx, hlock, hdata⟩ := h.held_entry hb
  refine ⟨_, exec_bwrite hx hlock, ?_, by rw [hdata], rfl, rfl⟩
  refine h.change h.counts.written (fun _ hy => hy) (fun _ => rfl) ?_ ?_ ?_
  · intro y hok
    exact ⟨hok.locked_eq, fun _ => hok.data_eq (hok.valid (.inl hb)), fun _ => rfl⟩
  · intro a ha
    simp [ha]
  · intro a ha hd
    have hab : a ≠ b := by
      rintro rfl
      exact ha hb
    have hd' : a ∉ dirty := fun hc => hd (mem_erase.mpr ⟨hab, hc⟩)
    simp only [update_of_ne hab]
    exact h.clean a ha hd'

lemma Rep.logAppend (sb : Superblock) (hb : b ∈ held) :
    ∃ s', exec sb (.logAppend b) s = .ok ((), s') ∧ Rep s' mem held (insert b dirty) ∧
      s'.disk = s.disk ∧
      s'.log = { s.log with lh := if b ∈ s.log.lh then s.log.lh else s.log.lh ++ [b] } ∧
      s'.icache = s.icache := by
  refine ⟨_, rfl, ?_, rfl, rfl, rfl⟩
  refine h.change (h.counts.pin (single_pos.mpr hb)) (fun _ hy => hy) (fun _ => rfl) ?_ ?_ ?_
  · intro y hok
    exact ⟨hok.locked_eq, hok.data_eq, fun _ => hok.valid (.inl hb)⟩
  · intro a ha
    simp [ha]
  · intro a ha hd
    exact h.clean a ha fun hc => hd (mem_insert_of_mem hc)

lemma Rep.release (sb : Superblock) (hb : b ∈ held) (hclean : b ∈ dirty ∨ mem b = s.disk b) :
    ∃ s1 s', exec sb (.unlock b) s = .ok ((), s1) ∧ exec sb (.unref b) s1 = .ok ((), s') ∧
      Rep s' mem (held.erase b) dirty ∧ s1.disk = s.disk ∧ s'.disk = s.disk ∧ s'.log = s.log ∧
      s'.icache = s.icache := by
  obtain ⟨x, hx, hlock, hdata⟩ := h.held_entry hb
  refine ⟨_, _, exec_unlock hx hlock, rfl, ?_, rfl, rfl, rfl, rfl⟩
  have hunlock : Counts (modify s.bcache b Buf.unlock) (single held) dirty :=
    h.counts.frame (fun _ => rfl) (fun _ => rfl) fun _ => rfl
  have hcounts := hunlock.release (single_pos.mpr hb)
  rw [single_erase hb] at hcounts
  have htwo : modify (modify s.bcache b Buf.unlock) b Buf.unref =
      modify s.bcache b fun x => x.unlock.unref := modify_modify fun _ => rfl
  refine h.change (f := fun x => x.unlock.unref) hcounts (fun y hy => htwo ▸ mem_release hy)
    (fun _ => rfl) ?_ ?_ ?_
  · intro y hok
    exact ⟨by simp [Buf.unref, Buf.unlock], hok.data_eq, fun _ => hok.valid (.inl hb)⟩
  · intro a ha
    simp [ha]
  · intro a ha hd
    by_cases hab : a = b
    · subst hab
      exact hclean.resolve_left hd
    · exact h.clean a (fun hc => ha (mem_erase.mpr ⟨hab, hc⟩)) hd

lemma Rep.bget_entry {c : List Buf} (hb : b ∉ held)
    (hget : bget s.bcache b = some c) :
    ∃ x, entry c b = some x ∧ x.locked = false ∧
      (if x.valid = true then x.data else s.disk b) = mem b := by
  cases he : entry s.bcache b with
  | some x =>
    rw [bget_hit he] at hget
    cases hget
    have hok := h.entry_ok he
    have hentry : entry (modify s.bcache b Buf.ref) b = some x.ref := by
      rw [entry_modify (f := Buf.ref) fun _ => rfl, if_pos rfl, he]
      rfl
    refine ⟨x.ref, hentry, hok.locked_eq.trans (decide_eq_false hb), ?_⟩
    by_cases hv : x.valid = true
    · exact (if_pos hv).trans (hok.data_eq hv)
    · exact (if_neg hv).trans (h.clean b hb fun hd => hv (hok.valid (.inr hd))).symm
  | none =>
    rw [bget_miss he] at hget
    obtain ⟨x, hr⟩ := recycle_spec h.counts.distinct he hget
    have hd : b ∉ dirty := by
      intro hd
      have := h.counts.cached b (.inr hd)
      rw [he] at this
      cases this
    refine ⟨x.reuse b, hr.self, ?_, (h.clean b hb hd).symm⟩
    cases hn : x.blockno with
    | none => exact h.unlocked x hr.mem hn
    | some a =>
      have hfree := (h.counts.unused hr.mem hr.unused hn).1
      have ha : a ∉ held := by
        intro ha
        have := single_pos.mpr ha
        omega
      exact (h.bufs x hr.mem a hn).locked_eq.trans (decide_eq_false ha)

lemma Rep.get (sb : Superblock) (hb : b ∉ held) (hroom : b ∈ dirty ∨ (held ∪ dirty).card < NBUF) :
    ∃ s1 s', exec sb (.bget b) s = .ok ((), s1) ∧ exec sb (.acquire b) s1 = .ok (mem b, s') ∧
      Rep s' mem (insert b held) dirty ∧ s1.disk = s.disk ∧ s'.disk = s.disk ∧ s'.log = s.log ∧
      s'.icache = s.icache := by
  have hroom' : Room (single held) dirty b := by
    refine hroom.imp_right fun hlt => ⟨held ∪ dirty, fun a ha => ?_, hlt⟩
    rwa [single_pos, ← mem_union] at ha
  obtain ⟨c, hget⟩ := Option.ne_none_iff_exists'.mp (h.counts.bget_ne_none hroom')
  obtain ⟨x, hx, hlock, hdata⟩ := h.bget_entry hb hget
  have hbget : exec sb (.bget b) s = .ok ((), { s with bcache := c }) := by
    simp only [exec, hget]
  have hacquire : exec sb (.acquire b) { s with bcache := c } =
      .ok (mem b, { s with bcache := modify c b (Buf.fill (mem b)) }) := by
    simp only [exec, hx, hlock, hdata]
    rfl
  refine ⟨_, _, hbget, hacquire, ⟨?_, ?_, ?_, ?_⟩, rfl, rfl, rfl, rfl⟩
  · have hcounts := h.counts.bget hget
    rw [single_insert hb] at hcounts
    exact hcounts.frame (fun _ => rfl) (fun _ => rfl) fun _ => rfl
  · intro y hy hn
    obtain ⟨z, hz, rfl⟩ := mem_modify hy
    by_cases hzb : z.blockno = some b
    · rw [if_pos hzb] at hn
      exact absurd (hzb.symm.trans hn) (by simp)
    · rw [if_neg hzb] at hn ⊢
      exact h.unlocked z (bget_mem h.counts.distinct hget hz hzb) hn
  · intro y hy a ha
    obtain ⟨z, hz, rfl⟩ := mem_modify hy
    by_cases hzb : z.blockno = some b
    · rw [if_pos hzb] at ha ⊢
      obtain rfl : b = a := Option.some.inj (hzb.symm.trans ha)
      exact ⟨by simp [Buf.fill], fun _ => rfl, fun _ => rfl⟩
    · rw [if_neg hzb] at ha ⊢
      have hab : a ≠ b := by
        rintro rfl
        exact hzb ha
      have hok := h.bufs z (bget_mem h.counts.distinct hget hz hzb) a ha
      exact ⟨by simp [hok.locked_eq, hab], hok.data_eq,
        fun hv => hok.valid (by simpa [hab] using hv)⟩
  · intro a ha hd
    exact h.clean a (fun hc => ha (mem_insert_of_mem hc)) hd

/-! The same for programs. -/

/-- The program ends with `Q`, and wherever a crash stops it the disk has `D`. -/
abbrev Guards (sb : Superblock) (D : Disk → Prop) {α : Type} (p : Proc α) (s : State)
    (Q : α → State → Prop) : Prop :=
  Prog.Meets (exec sb) (fun u => D u.disk) p s Q

section Meets

variable {D : Disk → Prop} {α : Type} {Q : α → State → Prop}

lemma Rep.bread_meets (hb : b ∉ held)
    (hroom : b ∈ dirty ∨ (held ∪ dirty).card < NBUF) (hD : D s.disk) {f : Block → Proc α}
    (hk : ∀ s', Rep s' mem (insert b held) dirty → s'.disk = s.disk → s'.log = s.log →
      s'.icache = s.icache → Guards sb D (f (mem b)) s' Q) : Guards sb D (bread b >>= f) s Q := by
  obtain ⟨s1, s', h1, h2, hrep, hd1, hd, hl, hi⟩ := h.get sb hb hroom
  exact ⟨hD, (), s1, h1, (congrArg D hd1).mpr hD, mem b, s', h2, hk s' hrep hd hl hi⟩

section

variable (hb : b ∈ held) {f : Unit → Proc α}
include hb

lemma Rep.brelse_meets (hclean : b ∈ dirty ∨ mem b = s.disk b) (hD : D s.disk)
    (hk : ∀ s', Rep s' mem (held.erase b) dirty → s'.disk = s.disk → s'.log = s.log →
      s'.icache = s.icache → Guards sb D (f ()) s' Q) : Guards sb D (brelse b >>= f) s Q := by
  obtain ⟨s1, s', h1, h2, hrep, hd1, hd, hl, hi⟩ := h.release sb hb hclean
  exact ⟨hD, (), s1, h1, (congrArg D hd1).mpr hD, (), s', h2, hk s' hrep hd hl hi⟩

lemma Rep.setData_meets (hD : D s.disk)
    (hk : ∀ s', Rep s' (update mem b v) held dirty → s'.disk = s.disk → s'.log = s.log →
      s'.icache = s.icache → Guards sb D (f ()) s' Q) : Guards sb D (Log.setData b v >>= f) s Q := by
  obtain ⟨s', h1, hrep, hd, hl, hi⟩ := h.setData sb hb v
  exact ⟨hD, (), s', h1, hk s' hrep hd hl hi⟩

lemma Rep.bwrite_meets (hD : D s.disk)
    (hk : ∀ s', Rep s' mem held (dirty.erase b) → s'.disk = update s.disk b (mem b) →
      s'.log = s.log → s'.icache = s.icache → Guards sb D (f ()) s' Q) :
    Guards sb D (Log.bwrite b >>= f) s Q := by
  obtain ⟨s', h1, hrep, hd, hl, hi⟩ := h.bwrite sb hb
  exact ⟨hD, (), s', h1, hk s' hrep hd hl hi⟩

end

end Meets

end Rep

end LearnXv6.Log
