import LearnXv6.Log.Cache

/-! The commit and the recovery, with what the disk holds wherever they stop. -/
namespace LearnXv6.Log
open Function Store Fs Finset List

variable {sb : Superblock} {s s' : State} {mem mem' base c : ℕ → Block} {dirty : Finset ℕ} {b : ℕ}
  {l : List ℕ} {d : Disk} {hb v : Block}

/-! The header block. -/

lemma word_fill (hl : l.length ≤ LOGSIZE) (n : ℕ) (hn : n ≤ l.length) (j : ℕ) :
    ((List.range n).foldl (fun v i => v.setWord (i + 1) (l.getD i 0)) v).word j =
      if 1 ≤ j ∧ j ≤ n then l.getD (j - 1) 0 % 2 ^ 32 else v.word j := by
  induction n with
  | zero =>
    rw [if_neg (by omega)]
    rfl
  | succ n ih =>
    have hsize : 4 * (n + 1) + 4 ≤ Fs.BSIZE := by
      simp only [LOGSIZE, MAXOPBLOCKS] at hl
      rw [Fs.BSIZE_eq]
      omega
    rw [range_succ, foldl_append, foldl_cons, foldl_nil,
      Store.Block.word_setWord hsize, ih (by omega)]
    by_cases hj : j = n + 1
    · subst hj
      rw [if_pos rfl, if_pos (by omega), Nat.add_sub_cancel]
    · rw [if_neg hj]
      by_cases h : 1 ≤ j ∧ j ≤ n
      · rw [if_pos h, if_pos (by omega)]
      · rw [if_neg h, if_neg (by omega)]

lemma logged_header (hl : l.length ≤ LOGSIZE) (hlt : ∀ b ∈ l, b < 2 ^ 32) : logged (header hb l) = l := by
  have h30 : l.length ≤ 30 := hl
  have hzero : (header hb l).word 0 = l.length := by
    rw [header, word_fill hl _ le_rfl, if_neg (by omega), Store.Block.word_setWord (by decide),
      if_pos rfl]
    omega
  have hentry : ∀ i, i < l.length → (header hb l).word (i + 1) = l.getD i 0 := by
    intro i hi
    rw [header, word_fill hl _ le_rfl, if_pos (by omega), Nat.add_sub_cancel]
    apply Nat.mod_eq_of_lt
    rw [getD_eq_getElem _ _ hi]
    exact hlt _ (getElem_mem hi)
  simp only [logged, hzero, if_pos (show l.length < 2 ^ 31 by omega)]
  apply ext_getElem
  · simp
  · intro i h1 h2
    simp [hentry i h2, h2]

/-! The disk. -/

/-- A block outside the log area, with a number that fits an entry of the header. -/
def Home (sb : Superblock) (b : ℕ) : Prop :=
  b < 2 ^ 32 ∧ (b < sb.logstart ∨ sb.logstart + sb.nlog ≤ b)

instance (sb : Superblock) (b : ℕ) : Decidable (Home sb b) := inferInstanceAs (Decidable (_ ∧ _))

lemma Home.ne_log (h : Home sb b) {i : ℕ} (hi : i < sb.nlog) : b ≠ sb.logstart + i := by
  have := h.2
  omega

lemma Home.ne_header (h : Home sb b) (hpos : 0 < sb.nlog) : b ≠ sb.logstart :=
  h.ne_log hpos

/-- The header is empty and the home blocks hold `c`. -/
structure Clean (sb : Superblock) (c : ℕ → Block) (d : Disk) : Prop where
  empty : logged (d sb.logstart) = []
  home : ∀ b, Home sb b → d b = c b

/-- A list of blocks that fits the log. -/
structure Fits (sb : Superblock) (l : List ℕ) : Prop where
  nodup : l.Nodup
  home : ∀ b ∈ l, Home sb b
  room : l.length < sb.nlog
  size : sb.nlog ≤ LOGSIZE

/-- The header lists `l`, and the log has the contents `c` of these blocks. -/
structure Committed (sb : Superblock) (c : ℕ → Block) (l : List ℕ) (d : Disk) : Prop where
  fits : Fits sb l
  listed : logged (d sb.logstart) = l
  copied : ∀ i b, l[i]? = some b → d (sb.logstart + i + 1) = c b
  home : ∀ b, Home sb b → b ∉ l → d b = c b

/-- Recovery gives the home blocks the contents `c`. -/
def Recoverable (sb : Superblock) (c : ℕ → Block) (d : Disk) : Prop := ∃ l, Committed sb c l d

lemma Fits.pos (h : Fits sb l) : 0 < sb.nlog := by
  have := h.room
  omega

lemma Fits.ne_log (h : Fits sb l) (hb : b ∈ l) {i : ℕ} (hi : i < l.length) : b ≠ sb.logstart + i + 1 := by
  have := (h.home b hb).ne_log (i := i + 1) (by have := h.room; omega)
  omega

lemma Fits.ne_header (h : Fits sb l) (hb : b ∈ l) : b ≠ sb.logstart :=
  (h.home b hb).ne_header h.pos

lemma Fits.lt_nbuf (h : Fits sb l) : l.toFinset.card < NBUF := by
  have h1 := h.room
  have h2 : sb.nlog ≤ NBUF := h.size
  have h3 := toFinset_card_le l
  omega

lemma Clean.committed (h : Clean sb c d) (hpos : 0 < sb.nlog) (hsize : sb.nlog ≤ LOGSIZE) :
    Committed sb c [] d :=
  ⟨⟨nodup_nil, by simp, hpos, hsize⟩, h.empty, by simp, fun b hb _ => h.home b hb⟩

lemma Committed.install (h : Committed sb c l d) (hb : b ∈ l) (v : Block) :
    Committed sb c l (update d b v) := by
  refine ⟨h.fits, ?_, ?_, ?_⟩
  · rw [update_of_ne (h.fits.ne_header hb).symm]
    exact h.listed
  · intro i a ha
    have hi := (List.getElem?_eq_some_iff.mp ha).1
    rw [update_of_ne (h.fits.ne_log hb hi).symm]
    exact h.copied i a ha
  · intro a ha hal
    have hab : a ≠ b := by
      rintro rfl
      exact hal hb
    rw [update_of_ne hab]
    exact h.home a ha hal

lemma Clean.update_log (h : Clean sb c d) {i : ℕ} (hi : i + 1 < sb.nlog) (v : Block) :
    Clean sb c (update d (sb.logstart + i + 1) v) := by
  refine ⟨?_, ?_⟩
  · rw [update_of_ne (by omega)]
    exact h.empty
  · intro b hb
    have := hb.ne_log hi
    rw [update_of_ne (by omega)]
    exact h.home b hb

/-! `write_head` -/

lemma writeHead_meets {D : Disk → Prop} (h : Rep s mem ∅ dirty) (hcard : dirty.card < NBUF)
    (hd : sb.logstart ∉ dirty) (hD : D s.disk)
    (hD' : D (update s.disk sb.logstart (header (s.disk sb.logstart) s.log.lh))) :
    Guards sb D (writeHead sb) s fun _ s' =>
      (∃ mem', Rep s' mem' ∅ dirty ∧ ∀ b, b ≠ sb.logstart → mem' b = mem b) ∧ s'.log = s.log ∧
      s'.disk = update s.disk sb.logstart (header (s.disk sb.logstart) s.log.lh) := by
  have hmem := h.clean _ (by simp) hd
  refine h.bread_meets (by simp) (.inr (by simpa using hcard)) hD fun s1 h1 hd1 hl1 _ => ?_
  refine ⟨(congrArg D hd1).mpr hD, s1.log.lh, s1, rfl, ?_⟩
  refine h1.setData_meets (by simp) ((congrArg D hd1).mpr hD) fun s2 h2 hd2 hl2 _ => ?_
  have hdisk2 := hd2.trans hd1
  refine h2.bwrite_meets (by simp) ((congrArg D hdisk2).mpr hD) fun s3 h3 hd3 hl3 _ => ?_
  rw [update_self, hdisk2, hl1, hmem] at hd3
  rw [erase_eq_of_notMem hd, hl1, hmem] at h3
  refine Prog.Meets.last (h3.brelse_meets (by simp) (.inr ?_) ((congrArg D hd3).mpr hD') ?_)
  · rw [hd3, update_self, update_self]
  · intro s4 h4 hd4 hl4 _
    refine ⟨(congrArg D (hd4.trans hd3)).mpr hD', ⟨_, by simpa using h4, ?_⟩, ?_, hd4.trans hd3⟩
    · intro b hb
      exact update_of_ne hb _ _
    · rw [hl4, hl3, hl2, hl1]

/-! `install_trans` -/

lemma take_succ_mem {j : ℕ} (hj : l[j]? = some b) (a : ℕ) : a ∈ l.take (j + 1) ↔ a ∈ l.take j ∨ a = b := by
  rw [take_add_one, hj]
  simp

lemma erase_pair (a b : ℕ) : erase (erase (insert b (insert a ∅)) b) a = ∅ := by
  ext x
  simp only [mem_erase, mem_insert, notMem_empty]
  tauto

/-- What holds after `j` passes of `install_trans`, with the buffers `dirty` at the start. -/
structure Installed (sb : Superblock) (c : ℕ → Block) (l : List ℕ) (dirty : Finset ℕ)
    (log : LogState) (j : ℕ) (s : State) : Prop where
  rep : ∃ mem, Rep s mem ∅ (dirty \ (l.take j).toFinset)
  log_eq : s.log = log
  committed : Committed sb c l s.disk
  done : ∀ b ∈ l.take j, s.disk b = c b

lemma installBlock_meets {log : LogState} {j : ℕ} (h : Installed sb c l dirty log j s)
    (hj : l[j]? = some b) (hdirty : dirty = ∅ ∨ dirty = l.toFinset) :
    Guards sb (Committed sb c l) (installBlock sb j b) s fun _ s' =>
      Installed sb c l dirty log (j + 1) s' := by
  obtain ⟨mem, hrep⟩ := h.rep
  obtain ⟨hjlt, hget⟩ := List.getElem?_eq_some_iff.mp hj
  have hC := h.committed
  have hbl : b ∈ l := mem_of_getElem? hj
  have hne := hC.fits.ne_log hbl hjlt
  set a := sb.logstart + j + 1 with ha
  have hsub : dirty ⊆ l.toFinset := by
    rcases hdirty with rfl | rfl <;> simp
  have had : a ∉ dirty := fun hd => hC.fits.ne_log (mem_toFinset.mp (hsub hd)) hjlt rfl
  have hcard : (dirty \ (l.take j).toFinset).card < NBUF :=
    (card_le_card (sdiff_subset.trans hsub)).trans_lt hC.fits.lt_nbuf
  have hroom : b ∈ dirty \ (l.take j).toFinset ∨
      (insert a ∅ ∪ dirty \ (l.take j).toFinset).card < NBUF := by
    rcases hdirty with rfl | rfl
    · right
      simp [NBUF, MAXOPBLOCKS]
    · left
      have hnot : b ∉ l.take j := by
        intro hc
        obtain ⟨i, hi, hib⟩ := mem_take_iff_getElem.mp hc
        have := (Nodup.getElem_inj_iff hC.fits.nodup).mp (hib.trans hget.symm)
        omega
      simp [hbl, hnot]
  have hlog := (hrep.clean a (by simp) (by simp [had])).trans (hC.copied j b hj)
  have hC' : Committed sb c l (update s.disk b (c b)) := hC.install hbl _
  refine hrep.bread_meets (by simp) (.inr (by simpa using hcard)) hC fun s1 h1 hd1 hl1 _ => ?_
  refine h1.bread_meets (by simpa using hne) hroom (hd1 ▸ hC) fun s2 h₂ hd2 hl2 _ => ?_
  have hdisk2 := hd2.trans hd1
  refine h₂.setData_meets (by simp) (hdisk2 ▸ hC) fun s3 h3 hd3 hl3 _ => ?_
  have hdisk3 := hd3.trans hdisk2
  refine h3.bwrite_meets (by simp) (hdisk3 ▸ hC) fun s4 h4 hd4 hl4 _ => ?_
  rw [update_self, hdisk3, hlog] at hd4
  rw [hlog] at h4
  refine h4.brelse_meets (by simp) (.inr ?_) (hd4 ▸ hC') fun s5 h5 hd5 hl5 _ => ?_
  · rw [hd4, update_of_ne hne.symm, update_of_ne hne.symm, hlog]
    exact (hC.copied j b hj).symm
  have hdisk5 := hd5.trans hd4
  refine Prog.Meets.last (h5.brelse_meets (by simpa using hne) (.inr ?_) (hdisk5 ▸ hC') ?_)
  · rw [hdisk5, update_self, update_self]
  intro s6 h6 hd6 hl6 _
  have hdisk6 := hd6.trans hdisk5
  have hC6 : Committed sb c l s6.disk := hdisk6 ▸ hC'
  refine ⟨hC6, ⟨⟨update mem b (c b), ?_⟩, ?_, hC6, ?_⟩⟩
  · have h2 : (dirty \ (l.take j).toFinset).erase b = dirty \ (l.take (j + 1)).toFinset := by
      ext x
      simp only [mem_erase, mem_sdiff, mem_toFinset, take_succ_mem hj]
      tauto
    rw [erase_right_comm, erase_pair, h2] at h6
    exact h6
  · rw [hl6, hl5, hl4, hl3, hl2, hl1, h.log_eq]
  · intro x hx
    rw [hdisk6]
    by_cases hxb : x = b
    · rw [hxb, update_self]
    · rw [update_of_ne hxb]
      exact h.done x (((take_succ_mem hj x).mp hx).resolve_right hxb)

lemma installTrans_meets (h : Rep s mem ∅ dirty) (hl : s.log.lh = l)
    (hdirty : dirty = ∅ ∨ dirty = l.toFinset) (hC : Committed sb c l s.disk) :
    Guards sb (Committed sb c l) (installTrans sb) s fun _ s' =>
      Rep s' s'.disk ∅ ∅ ∧ s'.log = s.log ∧ Committed sb c l s'.disk ∧ ∀ b, Home sb b → s'.disk b = c b := by
  refine ⟨hC, s.log.lh, s, rfl, ?_⟩
  rw [hl]
  have h0 : Installed sb c l dirty s.log 0 s := ⟨⟨mem, by simpa using h⟩, rfl, hC, by simp⟩
  refine (Prog.Meets.range (fun j s' => Installed sb c l dirty s.log j s') (fun j s' hj hI => ?_)
    (fun _ hI => hI.committed) h0).mono fun _ s' hI => ?_
  · rw [getD_eq_getElem _ _ hj]
    exact installBlock_meets hI (getElem?_eq_getElem hj) hdirty
  · obtain ⟨mem', hrep⟩ := hI.rep
    have hempty : dirty \ (l.take l.length).toFinset = ∅ := by
      rw [take_length]
      rcases hdirty with rfl | rfl <;> simp
    rw [hempty] at hrep
    have hmem : mem' = s'.disk := by
      funext b
      exact hrep.clean b (by simp) (by simp)
    refine ⟨hmem ▸ hrep, hI.log_eq, hI.committed, ?_⟩
    intro b hb
    by_cases hbl : b ∈ l
    · exact hI.done b (by rwa [take_length])
    · exact hI.committed.home b hb hbl

/-! `write_log` -/

/-- What holds after `j` passes of `write_log`. -/
structure Written (sb : Superblock) (base mem : ℕ → Block) (l : List ℕ) (log : LogState) (j : ℕ)
    (s : State) : Prop where
  rep : ∃ mem', Rep s mem' ∅ l.toFinset ∧ ∀ b, Home sb b → mem' b = mem b
  log_eq : s.log = log
  clean : Clean sb base s.disk
  done : ∀ i b, i < j → l[i]? = some b → s.disk (sb.logstart + i + 1) = mem b

lemma logBlock_meets {log : LogState} {j : ℕ} (hl : Fits sb l)
    (h : Written sb base mem l log j s) (hj : l[j]? = some b) :
    Guards sb (Clean sb base) (logBlock sb j b) s fun _ s' => Written sb base mem l log (j + 1) s' := by
  obtain ⟨mem', hrep, hmem⟩ := h.rep
  obtain ⟨hjlt, hget⟩ := List.getElem?_eq_some_iff.mp hj
  have hC := h.clean
  have hbl : b ∈ l := mem_of_getElem? hj
  have hne := hl.ne_log hbl hjlt
  set a := sb.logstart + j + 1 with ha
  have had : a ∉ l.toFinset := fun hd => hl.ne_log (mem_toFinset.mp hd) hjlt rfl
  have hb := hmem b (hl.home b hbl)
  have hC' : Clean sb base (update s.disk a (mem b)) := hC.update_log (by have := hl.room; omega) _
  have hroom : (∅ ∪ l.toFinset).card < NBUF := by simpa using hl.lt_nbuf
  refine hrep.bread_meets (by simp) (.inr hroom) hC fun s1 h1 hd1 hl1 _ => ?_
  refine h1.bread_meets (by simpa using hne) (.inl (mem_toFinset.mpr hbl)) (hd1 ▸ hC)
    fun s2 h2 hd2 hl2 _ => ?_
  have hdisk2 := hd2.trans hd1
  refine h2.setData_meets (by simp) (hdisk2 ▸ hC) fun s3 h3 hd3 hl3 _ => ?_
  have hdisk3 := hd3.trans hdisk2
  refine h3.bwrite_meets (by simp) (hdisk3 ▸ hC) fun s4 h4 hd4 hl4 _ => ?_
  rw [update_self, hdisk3, hb] at hd4
  rw [hb, erase_eq_of_notMem had] at h4
  refine h4.brelse_meets (by simp) (.inl (mem_toFinset.mpr hbl)) (hd4 ▸ hC')
    fun s5 h5 hd5 hl5 _ => ?_
  have hdisk5 := hd5.trans hd4
  refine Prog.Meets.last (h5.brelse_meets (by simpa using hne.symm) (.inr ?_) (hdisk5 ▸ hC') ?_)
  · rw [hdisk5, update_self, update_self]
  intro s6 h6 hd6 hl6 _
  have hdisk6 := hd6.trans hdisk5
  have hC6 := hdisk6 ▸ hC'
  refine ⟨hC6, ⟨⟨update mem' a (mem b), ?_, ?_⟩, ?_, hC6, ?_⟩⟩
  · rwa [erase_pair] at h6
  · intro x hx
    have := hx.ne_log (i := j + 1) (by have := hl.room; omega)
    rw [update_of_ne (by omega), hmem x hx]
  · rw [hl6, hl5, hl4, hl3, hl2, hl1, h.log_eq]
  · intro i x hi hx
    rw [hdisk6]
    by_cases hij : i = j
    · subst hij
      obtain rfl : b = x := Option.some.inj (hj.symm.trans hx)
      rw [update_self]
    · rw [update_of_ne (by omega)]
      exact h.done i x (by omega) hx

lemma writeLog_meets (h : Rep s mem ∅ l.toFinset) (hl : s.log.lh = l) (hfit : Fits sb l)
    (hC : Clean sb base s.disk) : Guards sb (Clean sb base) (writeLog sb) s fun _ s' =>
      Written sb base mem l s.log l.length s' := by
  refine ⟨hC, s.log.lh, s, rfl, ?_⟩
  rw [hl]
  have h0 : Written sb base mem l s.log 0 s := ⟨⟨mem, h, fun _ _ => rfl⟩, rfl, hC, by simp⟩
  refine Prog.Meets.range (fun j s' => Written sb base mem l s.log j s') (fun j s' hj hI => ?_)
    (fun _ hI => hI.clean) h0
  rw [getD_eq_getElem _ _ hj]
  exact logBlock_meets hfit hI (getElem?_eq_getElem hj)

/-! `commit` -/

lemma Written.committed {log : LogState} (h : Written sb base mem l log l.length s)
    (hl : Fits sb l) (hbase : ∀ b, Home sb b → b ∉ l → base b = mem b) :
    Committed sb mem l (update s.disk sb.logstart (header (s.disk sb.logstart) l)) := by
  refine ⟨hl, ?_, ?_, ?_⟩
  · rw [update_self]
    exact logged_header (hl.room.le.trans hl.size) fun b hb => (hl.home b hb).1
  · intro i b hi
    rw [update_of_ne (by omega)]
    exact h.done i b (List.getElem?_eq_some_iff.mp hi).1 hi
  · intro b hb hbl
    rw [update_of_ne (hb.ne_header hl.pos), h.clean.home b hb, hbase b hb hbl]

lemma Committed.erase (h : Committed sb c l d) (hc : ∀ b, Home sb b → d b = c b) (hb : Block) :
    Clean sb c (update d sb.logstart (header hb [])) := by
  refine ⟨?_, ?_⟩
  · rw [update_self]
    exact logged_header (by simp) (by simp)
  · intro b hb
    rw [update_of_ne (hb.ne_header h.fits.pos)]
    exact hc b hb

lemma erase_meets (h : Rep s s.disk ∅ ∅) (hC : Committed sb c l s.disk)
    (hc : ∀ b, Home sb b → s.disk b = c b) : Guards sb (Recoverable sb c)
      (perform (.setLh []) >>= fun _ => writeHead sb) s fun _ s' =>
      Rep s' s'.disk ∅ ∅ ∧ s'.log = { s.log with lh := [] } ∧ Clean sb c s'.disk := by
  have hrec : Recoverable sb c s.disk := ⟨l, hC⟩
  have hclean := hC.erase hc (s.disk sb.logstart)
  have hrep : Rep { s with log := { s.log with lh := [] } } s.disk ∅ ∅ := h.setLog _
  refine ⟨hrec, (), _, rfl, ?_⟩
  refine (writeHead_meets hrep (by decide) (by simp) hrec
    ⟨[], hclean.committed hC.fits.pos hC.fits.size⟩).mono ?_
  rintro _ s' ⟨⟨mem', h', -⟩, hlog, hdisk⟩
  have hmem : mem' = s'.disk := by
    funext b
    exact h'.clean b (by simp) (by simp)
  exact ⟨hmem ▸ h', hlog, hdisk ▸ hclean⟩

/-- The commit takes the home blocks from `base` to `mem`; stopped anywhere, it leaves the one or
what recovery turns into the other. -/
lemma commit_meets (h : Rep s mem ∅ l.toFinset) (hl : s.log.lh = l)
    (hfit : l = [] ∨ Fits sb l) (hC : Clean sb base s.disk) :
    Guards sb (fun d => Clean sb base d ∨ Recoverable sb mem d) (commit sb) s
      fun _ s' => Rep s' s'.disk ∅ ∅ ∧ s'.log = { s.log with lh := [] } ∧
        Clean sb mem s'.disk := by
  have hbase : ∀ b, Home sb b → b ∉ l → base b = mem b := by
    intro b hb hbl
    rw [h.clean b (by simp) (by simpa using hbl), hC.home b hb]
  refine ⟨.inl hC, s.log.lh, s, rfl, ?_⟩
  rw [hl]
  change Prog.Meets (exec sb) _ (if 0 < l.length then _ else _) s _
  by_cases hne : l = []
  · subst hne
    have hmem : mem = s.disk := by
      funext b
      exact h.clean b (by simp) (by simp)
    refine ⟨.inl hC, hmem ▸ h, by rw [← hl], hC.empty, ?_⟩
    intro b hb
    rw [hmem]
  · have hfit := hfit.resolve_left hne
    rw [if_pos (length_pos_iff.mpr hne)]
    refine Prog.Meets.bind (((writeLog_meets h hl hfit hC).weaken fun _ => .inl).mono ?_)
    intro _ s1 h1
    obtain ⟨mem1, hrep1, hmem1⟩ := h1.rep
    have hlog1 : s1.log.lh = l := by rw [h1.log_eq, hl]
    have hC1 := h1.committed hfit hbase
    refine Prog.Meets.bind ((writeHead_meets
      (D := fun d => Clean sb base d ∨ Recoverable sb mem d) hrep1 hfit.lt_nbuf ?_
      (.inl h1.clean) (.inr ⟨l, hlog1.symm ▸ hC1⟩)).mono ?_)
    · intro hd
      exact hfit.ne_header (mem_toFinset.mp hd) rfl
    rintro _ s2 ⟨⟨mem2, hrep2, -⟩, hlog2, hdisk2⟩
    rw [hlog1] at hdisk2
    refine Prog.Meets.bind (((installTrans_meets hrep2 (hlog2 ▸ hlog1) (.inr rfl)
      (hdisk2 ▸ hC1)).weaken fun _ hc => .inr ⟨l, hc⟩).mono ?_)
    rintro _ s3 ⟨hrep3, hlog3, hC3, hhome3⟩
    refine ((erase_meets hrep3 hC3 hhome3).weaken fun _ => .inr).mono ?_
    rintro _ s4 ⟨hrep4, hlog4, hC4⟩
    refine ⟨hrep4, ?_, hC4⟩
    rw [hlog4, hlog3, hlog2, h1.log_eq]

/-! `recover_from_log` -/

lemma readHead_meets {D : Disk → Prop} (h : Rep s s.disk ∅ ∅)
    (hlen : (logged (s.disk sb.logstart)).length ≤ LOGSIZE) (hD : D s.disk) :
    Guards sb D (readHead sb) s fun _ s' =>
      Rep s' s'.disk ∅ ∅ ∧ s'.log = { s.log with lh := logged (s.disk sb.logstart) } ∧
      s'.disk = s.disk := by
  refine h.bread_meets (by simp) (.inr (by decide)) hD fun s1 h1 hd1 hl1 _ => ?_
  rw [if_neg (by omega)]
  have hD1 := hd1 ▸ hD
  refine ⟨hD1, (), _, rfl, ?_⟩
  have h2 : Rep { s1 with log := { s1.log with lh := logged (s.disk sb.logstart) } } s.disk
      (insert sb.logstart ∅) ∅ := h1.setLog _
  refine Prog.Meets.last (h2.brelse_meets (by simp) (.inr (by rw [hd1])) hD1 ?_)
  intro s3 h3 hd3 hl3 _
  have hdisk := hd3.trans hd1
  refine ⟨(congrArg D hdisk).mpr hD, ?_, ?_, hdisk⟩
  · rw [hdisk]
    simpa using h3
  · rw [hl3, hl1]

lemma recoverFromLog_meets (h : Rep s s.disk ∅ ∅) (hC : Recoverable sb c s.disk) :
    Guards sb (Recoverable sb c) (recoverFromLog sb) s fun _ s' =>
      Rep s' s'.disk ∅ ∅ ∧ s'.log = { s.log with lh := [] } ∧ Clean sb c s'.disk := by
  obtain ⟨l, hC⟩ := hC
  have hlen : (logged (s.disk sb.logstart)).length ≤ LOGSIZE := by
    rw [hC.listed]
    exact hC.fits.room.le.trans hC.fits.size
  refine Prog.Meets.bind ((readHead_meets h hlen ⟨l, hC⟩).mono ?_)
  rintro _ s1 ⟨hrep1, hlog1, hdisk1⟩
  have hC1 := hdisk1 ▸ hC
  have hlh1 : s1.log.lh = l := by rw [hlog1, ← hC.listed]
  refine Prog.Meets.bind (((installTrans_meets hrep1 hlh1 (.inl rfl) hC1).weaken
    fun _ hc => ⟨l, hc⟩).mono ?_)
  rintro _ s2 ⟨hrep2, hlog2, hC2, hhome2⟩
  refine (erase_meets hrep2 hC2 hhome2).mono ?_
  rintro _ s3 ⟨hrep3, hlog3, hC3⟩
  refine ⟨hrep3, ?_, hC3⟩
  rw [hlog3, hlog2, hlog1]

end LearnXv6.Log
