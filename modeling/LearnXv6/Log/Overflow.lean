import LearnXv6.Log.Crash
import LearnXv6.Log.Obey
import LearnXv6.Log.Reserve

/-! Processes that write files: when the reservation suffices, and a run in which it does not. -/
namespace LearnXv6.Log
open Function Store Fs Fs.Kernel List Dinode

/-- A call of `filewrite`: the inode, the bytes, the offset and the count. -/
structure Call where
  inum : ℕ
  src : ℕ → UInt8
  off : ℕ
  n : ℕ

/-- A process that makes these calls. -/
def process (devsw : Devsw) (calls : List Call) : Proc Unit :=
  calls.forM fun c => do
    let _ ← filewrite stock devsw c.inum c.src c.off c.n

lemma process_cons (devsw : Devsw) (c : Call) (cs : List Call) (hn : c.n ≠ 0) :
    ∃ k : ℤ → Proc Unit, process devsw (c :: cs) = beginOp >>= fun _ => ilock stock c.inum >>=
      fun ip => writei stock devsw ip c.src c.off (min c.n maxChunk) >>= k := by
  have hcons : process devsw (c :: cs) =
      (filewrite stock devsw c.inum c.src c.off c.n >>= fun _ => .ret ()) >>=
        fun _ => process devsw cs := rfl
  rw [hcons, filewrite, filewriteLoop, if_neg hn]
  simp only [writeChunk, Prog.bind_assoc]
  exact ⟨_, rfl⟩

/-- A call that touches at most six blocks of the file. -/
def Call.Short (c : Call) : Prop := c.off % BSIZE + c.n ≤ 6 * BSIZE

/-- The bitmap block, and block 0, which `balloc` would give out if its bit were clear. -/
def shared : Finset ℕ := {stock.bmapstart, 0}

lemma process_obeys {devsw : Devsw} {calls : List Call} (h : ∀ c ∈ calls, c.Short) :
    Obeys (reservation shared) (process devsw calls) .outside fun _ φ => φ = .outside := by
  refine (Obeys.forM (fun _ φ => φ = .outside) calls ?_ rfl).mono fun _ _ hφ => hφ
  rintro j c _ hc rfl
  have hshort := h c (mem_of_getElem? hc)
  refine Obeys.bind ((filewrite_obeys (by decide) (by decide) (by decide) (by decide) hshort).mono ?_)
  rintro _ _ rfl
  rfl

lemma inv_start {N : ℕ} {s : State} (hlog : s.log = ⟨[], 0, false⟩)
    (hcache : Counts s.bcache (fun _ => 0) ∅) : Inv shared (fun _ : Fin N => .outside) s := by
  have hrefs : allRefs (fun _ : Fin N => Phase.outside) = fun _ => 0 := by
    funext b
    simp [allRefs, Phase.refs]
  refine ⟨by simp [hlog, Phase.opened], by simp [hlog, Phase.commits], by simp [hlog],
    by simp [hlog], by simp [hlog], ?_, ?_, by simp [hlog, Phase.reserve], ?_⟩
  · rintro _ _ _ ⟨⟩
  · rintro _ _ _ _ ⟨⟩
  · have hpinned : pinned (fun _ : Fin N => Phase.outside) s.log.lh = ∅ := by
      rw [hlog]
      exact Finset.empty_sdiff _
    rw [hrefs, hpinned]
    exact hcache

/-! Overwriting the blocks of a file. -/

section Overwrite

variable {s s' : State} {ip : Inode} {a j : ℕ} {l : List ℕ}

/-- The log holds the blocks `l`, and no buffer is held. -/
structure Filled (l : List ℕ) (s : State) : Prop where
  rep : ∃ mem, Rep s mem ∅ l.toFinset
  lh_eq : s.log.lh = l
  opened : 0 < s.log.outstanding

/-- The file has its direct blocks from `a` on. -/
def Direct (ip : Inode) (a : ℕ) : Prop := 0 < a ∧ ∀ k, k < 12 → ip.addrs k = a + k

lemma bmap_direct (h : Direct ip a) (hj : j < 12) : bmap stock ip j = .ret (a + j, ip) := by
  have hk := h.2 j hj
  have hne : ip.addrs j ≠ 0 := by
    have := h.1
    omega
  rw [bmap, if_pos (show j < Fs.Lab.stock.NDIRECT from hj), addrEntry, if_neg hne, hk]
  rfl

/-- The body of one pass of `writei` over a whole block. -/
def overwrite (b : ℕ) (f : Block → Block) : Proc Unit := do
  let bp ← bread b
  setData b (f bp)
  logWrite b
  brelse b

lemma writeiLoop_block (src : ℕ → UInt8) (h : Direct ip a) {n : ℕ} (hj : j < 12) :
    writeiLoop stock ip src (j * BSIZE) ((n + 1) * BSIZE) =
      overwrite (a + j) (fun bp => bp.blit 0 BSIZE src) >>= fun _ =>
        writeiLoop stock ip (fun i => src (BSIZE + i)) ((j + 1) * BSIZE) (n * BSIZE) := by
  have hpos : 0 < BSIZE := by decide
  have hmod : j * BSIZE % BSIZE = 0 := Nat.mul_mod_left _ _
  have hdiv : j * BSIZE / BSIZE = j := Nat.mul_div_cancel _ hpos
  have hmul : (n + 1) * BSIZE = n * BSIZE + BSIZE := Nat.succ_mul _ _
  have hmin : min ((n + 1) * BSIZE) (BSIZE - 0) = BSIZE := by
    rw [Nat.sub_zero]
    exact Nat.min_eq_right (by omega)
  rw [writeiLoop, if_neg (by omega), hdiv, bmap_direct h hj]
  simp only [Prog.ret_bind, hmod, hmin]
  rw [show (n + 1) * BSIZE - BSIZE = n * BSIZE by omega,
    show j * BSIZE + BSIZE = (j + 1) * BSIZE from (Nat.succ_mul _ _).symm]
  rfl

lemma overwrite_ok {b : ℕ} {f : Block → Block} (h : Filled l s) (hl : l.length ≤ 28) (hb : b ∉ l) :
    ∃ s', (overwrite b f).run (exec stock) s = .ok ((), s') ∧ Filled (l ++ [b]) s' := by
  obtain ⟨mem, hrep⟩ := h.rep
  have hcard := toFinset_card_le l
  have hmeets : Prog.Meets (exec stock) (fun u => (fun _ => True) u.disk) (overwrite b f) s
      fun _ s' => Filled (l ++ [b]) s' := by
    refine hrep.bread_meets (D := fun _ => True) (by simp) (.inr ?_) trivial
      fun s1 h1 _ hl1 _ => ?_
    · rw [Finset.empty_union]
      simp only [NBUF, MAXOPBLOCKS]
      omega
    refine h1.setData_meets (by simp) trivial fun s2 h2 _ hl2 _ => ?_
    have hlog2 := hl2.trans hl1
    have hcheck : exec stock .logCheck s2 = .ok ((), s2) := by
      have hopen := h.opened
      simp only [exec, hlog2, h.lh_eq]
      rw [if_neg, if_neg (by omega)]
      have : stock.nlog = 30 := rfl
      simp only [LOGSIZE, MAXOPBLOCKS]
      omega
    obtain ⟨s3, hexec, h3, _, hl3, _⟩ := h2.logAppend stock (b := b) (by simp)
    rw [hlog2, h.lh_eq, if_neg hb] at hl3
    refine ⟨trivial, (), s2, hcheck, trivial, (), s3, hexec, ?_⟩
    refine Prog.Meets.last (h3.brelse_meets (D := fun _ => True) (by simp) (.inl (by simp))
      trivial ?_)
    intro s4 h4 _ hl4 _
    refine ⟨trivial, ⟨update mem b (f (mem b)), ?_⟩, by rw [hl4, hl3], by rw [hl4, hl3]; exact h.opened⟩
    · have hset : insert b l.toFinset = (l ++ [b]).toFinset := by
        ext
        simp
      rw [hset] at h4
      simpa using h4
  obtain ⟨⟨⟩, s', hrun, hfilled⟩ := hmeets.run
  exact ⟨s', hrun, hfilled⟩

lemma overwrite_full {b : ℕ} {f : Block → Block} (h : Filled l s) (hl : l.length = 29) :
    (overwrite b f).run (exec stock) s = .error (.panic .tooBigTransaction) := by
  obtain ⟨mem, hrep⟩ := h.rep
  have hcard := toFinset_card_le l
  obtain ⟨s1, s2, h1, h2, hrep2, -, -, hl2, -⟩ := hrep.get stock (b := b) (by simp)
    (.inr (by rw [Finset.empty_union]; simp only [NBUF, MAXOPBLOCKS]; omega))
  obtain ⟨s3, h3, -, -, hl3, -⟩ := hrep2.setData stock (b := b) (by simp) (f (mem b))
  have hlog3 : s3.log.lh = l := by rw [hl3, hl2, h.lh_eq]
  have hcheck : exec stock .logCheck s3 = .error (.panic .tooBigTransaction) := by
    simp only [exec, hlog3]
    rw [if_pos]
    right
    rw [hl]
    exact Nat.le_refl 30
  have hrun : (overwrite b f).run (exec stock) s = Prog.run (exec stock)
      (.op (.bget b) fun _ => .op (.acquire b) fun bp => .op (.setData b (f bp)) fun _ =>
        .op .logCheck fun _ => perform (.logAppend b) >>= fun _ => brelse b) s := rfl
  rw [hrun]
  simp only [Prog.run, h1, h2, h3, hcheck]

lemma notMem_append (hnew : ∀ k, j ≤ k → k < 12 → a + k ∉ l) :
    ∀ k, j + 1 ≤ k → k < 12 → a + k ∉ l ++ [a + j] := by
  intro k hk hk12 hmem
  rcases mem_append.mp hmem with hm | hm
  · exact hnew k (by omega) hk12 hm
  · have := mem_singleton.mp hm
    omega

section

variable (n : ℕ) (src : ℕ → UInt8) (h : Filled l s) (hip : Direct ip a) (hj : j + n ≤ 12)
include n src h hip hj

lemma writeiLoop_ok (hl : l.length + n ≤ 29) (hnew : ∀ k, j ≤ k → k < 12 → a + k ∉ l) :
    ∃ s' l', (writeiLoop stock ip src (j * BSIZE) (n * BSIZE)).run (exec stock) s = .ok (ip, s') ∧
      Filled l' s' ∧ l'.length = l.length + n ∧ ∀ b ∈ l', b ∈ l ∨ (a ≤ b ∧ b < a + 12) := by
  induction n generalizing s l j src with
  | zero =>
    refine ⟨s, l, ?_, h, rfl, fun b hb => .inl hb⟩
    rw [Nat.zero_mul, writeiLoop, if_pos rfl]
    rfl
  | succ n ih =>
    obtain ⟨s1, hrun1, h1⟩ := overwrite_ok h (by omega)
      (hnew j le_rfl (by omega))
    obtain ⟨s', l', hrun, h', hlen, hmem⟩ := ih (fun i => src (BSIZE + i)) h1
      (by omega) (by rw [length_append]; simp only [length_singleton]; omega) (notMem_append hnew)
    refine ⟨s', l', ?_, h', ?_, ?_⟩
    · rw [writeiLoop_block src hip (by omega), Prog.run_bind, hrun1]
      exact hrun
    · rw [hlen, length_append, length_singleton]
      omega
    · intro b hb
      rcases hmem b hb with hm | hm
      · rcases mem_append.mp hm with hm | hm
        · exact .inl hm
        · rw [mem_singleton.mp hm]
          exact .inr ⟨by omega, by omega⟩
      · exact .inr hm

lemma writeiLoop_full
    (hl : l.length ≤ 29) (hn : 30 ≤ l.length + n) (hnew : ∀ k, j ≤ k → k < 12 → a + k ∉ l) :
    (writeiLoop stock ip src (j * BSIZE) (n * BSIZE)).run (exec stock) s =
      .error (.panic .tooBigTransaction) := by
  induction n generalizing s l j src with
  | zero => omega
  | succ n ih =>
    rw [writeiLoop_block src hip (by omega), Prog.run_bind]
    by_cases hfull : l.length = 29
    · rw [overwrite_full h hfull]
      rfl
    · obtain ⟨s1, hrun1, h1⟩ := overwrite_ok h (by omega)
        (hnew j le_rfl (by omega))
      rw [hrun1]
      refine ih _ h1 (by omega) ?_ ?_ (notMem_append hnew)
      · rw [length_append, length_singleton]
        omega
      · rw [length_append, length_singleton]
        omega

end

end Overwrite

/-! Three files of twelve blocks, and three processes that overwrite one each. -/

/-- The inode of file `t`. -/
def file (t : ℕ) : Dinode where
  type := 2
  major := 0
  minor := 0
  nlink := 1
  size := 12 * BSIZE
  addrs := fun k => if k < 12 then 100 + 16 * t + k else 0

/-- The in-memory inode of file `t`. -/
def fileInode (t : ℕ) : Inode := ofDinode (2 + t) (file t)

/-- The disk with the files as inodes 2, 3 and 4 and their blocks marked in the bitmap. -/
def threeFiles : Disk :=
  let bitmap := (List.range 148).foldl (fun v i => v.setBit i) 0
  let inodes := Dinode.write (Dinode.write (Dinode.write 0 2 (file 0)) 3 (file 1)) 4 (file 2)
  update (update (fun _ => 0) stock.bmapstart bitmap) (stock.iblock 2) inodes

lemma file_fits {t : ℕ} (ht : t < 3) : (file t).Fits := by
  refine ⟨by simp [file], by simp [file], by simp [file], by simp [file], ?_, ?_, ?_⟩
  · exact show 12 * BSIZE < 2 ^ 32 by decide
  · intro k
    simp only [file]
    split <;> omega
  · intro k hk
    have : 12 ≤ k := le_trans (by decide) hk
    simp only [file]
    rw [if_neg (by omega)]

lemma threeFiles_read (t : Fin 3) :
    read (threeFiles (stock.iblock (2 + t))) ((2 + t) % Fs.IPB) = file t := by
  have hblock : ∀ t : Fin 3, stock.iblock (2 + t) = stock.iblock 2 := by decide
  have hslot : ∀ t : Fin 3, (2 + t : ℕ) % Fs.IPB = 2 + t := by decide
  rw [hblock, hslot, threeFiles, update_self]
  fin_cases t
  · rw [read_write_of_ne (by decide) (by decide),
      read_write_of_ne (by decide) (by decide)]
    exact read_write (by decide) (file_fits (by decide))
  · rw [read_write_of_ne (by decide) (by decide)]
    exact read_write (by decide) (file_fits (by decide))
  · exact read_write (by decide) (file_fits (by decide))

/-- The state after the boot, with `n` operations begun and the inodes from `2 + k` on not yet
locked. -/
structure Begun (n k : ℕ) (s : State) : Prop where
  rep : Rep s s.disk ∅ ∅
  disk_eq : s.disk = threeFiles
  log_eq : s.log = ⟨[], n, false⟩
  icache : ∀ i, k ≤ i → (s.icache (2 + i)).locked = false ∧ (s.icache (2 + i)).valid = false

lemma begun_boot : Begun 0 0 (boot threeFiles) :=
  ⟨rep_binit rfl, rfl, rfl, fun _ _ => ⟨rfl, rfl⟩⟩

lemma Begun.begin_ok {n k : ℕ} {s : State} (h : Begun n k s) (hn : n < 3) :
    ∃ s', Prog.run (exec stock) beginOp s = .ok ((), s') ∧ Begun (n + 1) k s' := by
  have hexec : exec stock .beginOp s = .ok ((), { s with log := ⟨[], n + 1, false⟩ }) := by
    have hle : ¬ LOGSIZE < 0 + (n + 1) * MAXOPBLOCKS := by
      simp only [LOGSIZE, MAXOPBLOCKS]
      omega
    simp only [exec, h.log_eq, length_nil, if_neg hle]
    rfl
  refine ⟨_, ?_, h.rep.setLog ⟨[], n + 1, false⟩, h.disk_eq, rfl, h.icache⟩
  exact (Prog.run_perform _ _ _).trans hexec

lemma Begun.lock_ok {n : ℕ} {t : Fin 3} {s : State} (h : Begun n t s) :
    ∃ s', (ilock stock (2 + t)).run (exec stock) s = .ok (fileInode t, s') ∧ Begun n (t + 1) s' := by
  have hread := threeFiles_read t
  rw [← h.disk_eq] at hread
  obtain ⟨hlocked, hvalid⟩ := h.icache t le_rfl
  have hmeets : Prog.Meets (exec stock) (fun u => (fun _ => True) u.disk) (ilock stock (2 + t)) s
      fun ip s' => ip = fileInode t ∧ Begun n (t + 1) s' := by
    have hacquire : exec stock (.iacquire (2 + t)) s = .ok (s.icache (2 + t),
        s.setIcache (2 + t) { s.icache (2 + t) with locked := true }) := by
      simp only [exec, hlocked]
      rfl
    refine ⟨trivial, _, _, hacquire, ?_⟩
    change Prog.Meets (exec stock) _ (if (s.icache (2 + t)).valid = true then _ else _) _ _
    rw [if_neg (by simp [hvalid])]
    have hrep : Rep (s.setIcache (2 + t) { s.icache (2 + t) with locked := true }) s.disk ∅ ∅ :=
      ⟨h.rep.counts, h.rep.unlocked, h.rep.bufs, h.rep.clean⟩
    refine hrep.bread_meets (D := fun _ => True) (by simp) (.inr (by decide)) trivial
      fun s1 h1 hd1 hl1 hi1 => ?_
    rw [hread]
    refine h1.brelse_meets (by simp) (.inr (by rw [hd1]; rfl)) trivial
      fun s2 h2 hd2 hl2 hi2 => ?_
    refine ⟨trivial, (), _, rfl, ?_⟩
    change Prog.Meets (exec stock) _ (if (fileInode t).type = 0 then panic .ilockNoType
      else .ret (fileInode t)) _ _
    rw [if_neg (by simp [fileInode, ofDinode, file])]
    have hdisk : s2.disk = s.disk := hd2.trans hd1
    refine ⟨trivial, rfl, ?_, hdisk.trans h.disk_eq, ?_, ?_⟩
    · have h2' : Rep s2 s.disk ∅ ∅ := by simpa using h2
      rw [← hdisk] at h2'
      exact ⟨h2'.counts, h2'.unlocked, h2'.bufs, h2'.clean⟩
    · exact (hl2.trans hl1).trans h.log_eq
    · intro i hi
      have hne : 2 + i ≠ 2 + (t : ℕ) := by omega
      have hic : (s2.setIcache (2 + t) ⟨fileInode t, true, (s2.icache (2 + t)).locked⟩).icache (2 + i) =
          s.icache (2 + i) := by
        simp only [State.setIcache, update_of_ne hne, hi2, hi1]
      exact hic ▸ h.icache i (by omega)
  obtain ⟨ip, s', hrun, rfl, hbegun⟩ := hmeets.run
  exact ⟨s', hrun, hbegun⟩

lemma fileInode_direct (t : ℕ) : Direct (fileInode t) (100 + 16 * t) := by
  refine ⟨by omega, fun k hk => ?_⟩
  exact if_pos hk

lemma writei_file (devsw : Devsw) (t : ℕ) (src : ℕ → UInt8) {n : ℕ} (hn : n ≤ 12) :
    ∃ k, writei stock devsw (fileInode t) src 0 (n * BSIZE) =
      writeiLoop stock (fileInode t) src (0 * BSIZE) (n * BSIZE) >>= k := by
  have hle : n * BSIZE ≤ 12 * BSIZE := Nat.mul_le_mul_right _ hn
  have hmax : 12 * BSIZE ≤ Fs.Lab.stock.MAXFILE * BSIZE := by decide
  rw [writei, if_neg (by simp [fileInode, ofDinode, file, Fs.T_DEV]), if_neg (by simp),
    if_neg (by omega), Nat.zero_mul]
  exact ⟨_, rfl⟩

lemma Begun.filled {n k : ℕ} {s : State} (h : Begun n k s) (hn : 0 < n) : Filled [] s :=
  ⟨⟨s.disk, h.rep⟩, by rw [h.log_eq], by rw [h.log_eq]; exact hn⟩

/-- Each process overwrites the first `n` blocks of its file, less than a whole chunk. -/
def overwriters (n : ℕ) (t : Fin 3) : Proc Unit :=
  process (fun _ => none) [⟨2 + t, fun _ => 1, 0, n * BSIZE⟩]

/-- The loop of `writei` over these blocks. -/
def overwriting (n : ℕ) (t : Fin 3) : Proc Inode :=
  writeiLoop stock (fileInode t) (fun _ => 1) (0 * BSIZE) (n * BSIZE)

lemma update_all {A B : Fin 3 → Proc Unit} : update (update (update A 0 (B 0)) 1 (B 1)) 2 (B 2) = B := by
  funext t
  fin_cases t <;> rfl

/-- All three begin and lock their inodes before one of them goes on. -/
lemma overwriters_begun {n : ℕ} (h0 : n ≠ 0) (hn : n ≤ 12) : ∃ s, ∃ k : Fin 3 → Inode → Proc Unit,
    Pool.Reach (exec stock) (overwriters n, boot threeFiles) (fun t => overwriting n t >>= k t, s) ∧
      Filled [] s := by
  have hprog : ∀ t : Fin 3, ∃ k : Inode → Proc Unit, ∃ k' : Inode → Proc Unit,
      overwriters n t = (beginOp >>= fun _ => ilock stock (2 + t) >>= k) ∧
      k (fileInode t) = overwriting n t >>= k' := by
    intro t
    have hpos : n * BSIZE ≠ 0 := Nat.mul_ne_zero h0 (by decide)
    obtain ⟨k, hk⟩ := process_cons (fun _ => none) ⟨2 + t, fun _ => 1, 0, n * BSIZE⟩ [] hpos
    obtain ⟨k', hk'⟩ := writei_file (fun _ => none) t (fun _ => 1) hn
    refine ⟨_, fun ip => k' ip >>= k, hk, ?_⟩
    have hmin : min (n * BSIZE) maxChunk = n * BSIZE :=
      min_eq_left ((Nat.mul_le_mul_right _ hn).trans (by decide))
    simp only [hmin, hk', Prog.bind_assoc]
    rfl
  choose k k' hbegin hwrite using hprog
  obtain ⟨s₁, hrun₁, h₁⟩ := begun_boot.begin_ok (by decide)
  obtain ⟨s₂, hrun₂, h₂⟩ := h₁.begin_ok (by decide)
  obtain ⟨s₃, hrun₃, h₃⟩ := h₂.begin_ok (by decide)
  have hr₁ := Pool.reach_of_run (hbegin 0) hrun₁
  have hr₂ := hr₁.trans (Pool.reach_of_run (t := 1) (hbegin 1) hrun₂)
  have hr₃ := hr₂.trans (Pool.reach_of_run (t := 2) (hbegin 2) hrun₃)
  rw [update_all (B := fun t => ilock stock (2 + t) >>= k t)] at hr₃
  obtain ⟨s₄, hrun₄, h₄⟩ := Begun.lock_ok (t := 0) h₃
  obtain ⟨s₅, hrun₅, h₅⟩ := Begun.lock_ok (t := 1) h₄
  obtain ⟨s₆, hrun₆, h₆⟩ := Begun.lock_ok (t := 2) h₅
  have hr₄ := hr₃.trans (Pool.reach_of_run rfl hrun₄)
  have hr₅ := hr₄.trans (Pool.reach_of_run (t := 1) rfl hrun₅)
  have hr₆ := hr₅.trans (Pool.reach_of_run (t := 2) rfl hrun₆)
  rw [update_all (B := fun t => k t (fileInode t))] at hr₆
  refine ⟨s₆, k', ?_, h₆.filled (by decide)⟩
  rwa [show (fun t => overwriting n t >>= k' t) = fun t => k t (fileInode t) from
    funext fun t => (hwrite t).symm]

/-- A process logs the blocks of its file, if the log has room for them. -/
lemma overwriting_ok {n : ℕ} {s : State} {l : List ℕ} (t : Fin 3) (hn : n ≤ 12) (h : Filled l s)
    (hl : l.length + n ≤ 29) (hnew : ∀ b ∈ l, b < 100 + 16 * t) :
    ∃ s' l', (overwriting n t).run (exec stock) s = .ok (fileInode t, s') ∧ Filled l' s' ∧
      l'.length = l.length + n ∧ ∀ b ∈ l', b < 100 + 16 * (t + 1) := by
  obtain ⟨s', l', hrun, h', hlen, hmem⟩ := writeiLoop_ok (j := 0) n (fun _ => 1) h
    (fileInode_direct t) (by omega) hl (fun k _ _ hk => by have := hnew _ hk; omega)
  refine ⟨s', l', hrun, h', hlen, fun b hb => ?_⟩
  rcases hmem b hb with hb | hb
  · have := hnew b hb
    omega
  · omega

/-- Two of the processes have logged their blocks. -/
lemma two_logged {n : ℕ} (h0 : n ≠ 0) (hn : n ≤ 12) :
    ∃ s, ∃ P : Fin 3 → Proc Unit, ∃ k : Fin 3 → Inode → Proc Unit, ∃ l,
      Pool.Reach (exec stock) (overwriters n, boot threeFiles) (P, s) ∧ P 2 = overwriting n 2 >>= k 2 ∧
      Filled l s ∧ l.length = 2 * n ∧ ∀ b ∈ l, b < 100 + 16 * 2 := by
  obtain ⟨s, k, hreach, hs⟩ := overwriters_begun h0 hn
  obtain ⟨s₁, l₁, hrun₁, h₁, hlen₁, hmem₁⟩ := overwriting_ok 0 hn hs (by simp; omega) (by simp)
  obtain ⟨s₂, l₂, hrun₂, h₂, hlen₂, hmem₂⟩ := overwriting_ok 1 hn h₁ (by rw [hlen₁]; simp; omega) hmem₁
  have hr₁ := hreach.trans (Pool.reach_of_run (t := 0) rfl hrun₁)
  have hr₂ := hr₁.trans (Pool.reach_of_run (t := 1) rfl hrun₂)
  refine ⟨s₂, _, k, l₂, hr₂, rfl, h₂, ?_, hmem₂⟩
  rw [hlen₂, hlen₁, List.length_nil]
  omega

/-- In every interleaving of processes whose writes touch at most six blocks each, no `log_write`
finds the log full and no `bget` runs out of buffers. -/
theorem short_writes_fit {N : ℕ} {devsw : Devsw} {calls : Fin N → List Call} {s : State}
    {c : Pool (Fin N) Op Op.Ret Unit × State} (hshort : ∀ t, ∀ c ∈ calls t, c.Short)
    (hlog : s.log = ⟨[], 0, false⟩) (hcache : Counts s.bcache (fun _ => 0) ∅)
    (hc : Pool.Reach (exec stock) (fun t => process devsw (calls t), s) c) :
    ¬ Pool.Fails (exec stock) c (.panic .tooBigTransaction) ∧
      ¬ Pool.Fails (exec stock) c (.panic .noBuffers) := by
  have hstart : Keeps (reservation shared) (Inv shared) (fun _ φ => φ = .outside)
      (fun t => process devsw (calls t), s) :=
    ⟨fun _ => .outside, fun t => process_obeys (hshort t), inv_start hlog hcache⟩
  have hkeep := hstart.reach (fun _ _ _ _ _ _ hinv ha he => hinv.step ha he) hc
  have hsafe : ∀ e : Stop, (e = .panic .noBuffers ∨ e = .panic .tooBigTransaction) →
      ¬ Pool.Fails (exec stock) c e := by
    intro e he
    refine hkeep.not_fails (fun e => e = .panic .noBuffers ∨ e = .panic .tooBigTransaction) ?_ he
    intro gs s t o e hinv ha hexec hbad
    obtain ⟨h1, h2⟩ := hinv.safe (by decide) rfl ha hexec
    exact hbad.elim h1 h2
  exact ⟨hsafe _ (.inr rfl), hsafe _ (.inl rfl)⟩

lemma six_short (t : Fin 3) : ∀ c ∈ [(⟨2 + t, fun _ => 1, 0, 6 * BSIZE⟩ : Call)], c.Short := by
  intro c hc
  obtain rfl := mem_singleton.mp hc
  exact Nat.le_refl _

/-- Three processes that write six blocks each, when all of them have logged their blocks. -/
theorem three_short_writes_fit : ∃ c, Pool.Reach (exec stock) (overwriters 6, boot threeFiles) c ∧
    c.2.log.lh.length = 18 ∧ ¬ Pool.Fails (exec stock) c (.panic .tooBigTransaction) ∧
      ¬ Pool.Fails (exec stock) c (.panic .noBuffers) := by
  obtain ⟨s, P, k, l, hreach, hP, hs, hlen, hmem⟩ := two_logged (n := 6) (by decide) (by decide)
  obtain ⟨s', l', hrun, hs', hlen', -⟩ := overwriting_ok (n := 6) 2 (by decide) hs (by omega) hmem
  have hall := hreach.trans (Pool.reach_of_run (t := 2) hP hrun)
  refine ⟨_, hall, ?_, short_writes_fit six_short rfl counts_binit hall⟩
  rw [hs'.lh_eq, hlen', hlen]

/-- Two processes log twelve blocks each, and the third finds the log full. -/
theorem overwriters_overflow : ∃ c, Pool.Reach (exec stock) (overwriters 12, boot threeFiles) c ∧
    Pool.Fails (exec stock) c (.panic .tooBigTransaction) := by
  obtain ⟨s, P, k, l, hreach, hP, hs, hlen, hmem⟩ := two_logged (n := 12) (by decide) (by decide)
  have hfull := writeiLoop_full 12 (fun _ => 1) hs (fileInode_direct 2) le_rfl (by omega) (by omega)
    (fun i _ _ hi => by have := hmem _ hi; omega)
  obtain ⟨c, hc, hfail⟩ := Pool.fails_of_run hP hfull
  exact ⟨c, hreach.trans hc, hfail⟩

/-- In every such interleaving the log has no block twice and commits only without open operations; and
while a process is about to write a block of the commit, no other one is in an operation or commits. -/
theorem commit_excludes_operations {N : ℕ} {devsw : Devsw} {calls : Fin N → List Call} {s : State}
    {c : Pool (Fin N) Op Op.Ret Unit × State} (hshort : ∀ t, ∀ c ∈ calls t, c.Short)
    (hlog : s.log = ⟨[], 0, false⟩) (hcache : Counts s.bcache (fun _ => 0) ∅)
    (hc : Pool.Reach (exec stock) (fun t => process devsw (calls t), s) c) :
    c.2.log.lh.Nodup ∧ (c.2.log.committing = true → c.2.log.outstanding = 0) ∧
    ∀ t u b o k k', c.1 t = .op (.bwrite b) k → u ≠ t → c.1 u = .op o k' →
      o ≠ .logCheck ∧ o ≠ .endOp ∧ ∀ a, o ≠ .logAppend a ∧ o ≠ .bget a ∧ o ≠ .bwrite a := by
  have hstart : Keeps (reservation shared) (Inv shared) (fun _ φ => φ = .outside)
      (fun t => process devsw (calls t), s) :=
    ⟨fun _ => .outside, fun t => process_obeys (hshort t), inv_start hlog hcache⟩
  obtain ⟨gs, hobeys, hinv⟩ := hstart.reach (fun _ _ _ _ _ _ hinv ha he => hinv.step ha he) hc
  refine ⟨hinv.nodup, hinv.exclusive, ?_⟩
  intro t u b o k k' ht hu hop
  have hwrites := hobeys t
  rw [ht] at hwrites
  obtain ⟨l, cl, refs, hcommit⟩ := Phase.eq_commit hwrites.1 (.inl ⟨b, rfl⟩)
  have hother := hobeys u
  rw [hop, hinv.others_outside hcommit hu] at hother
  have hallowed : Phase.outside.allowed shared o := hother.1
  refine ⟨?_, ?_, fun a => ⟨?_, ?_, ?_⟩⟩ <;> rintro rfl <;> exact hallowed

/-- Two of three processes have logged six blocks each. -/
theorem two_short_writes_excluded : ∃ c, Pool.Reach (exec stock) (overwriters 6, boot threeFiles) c ∧
    c.2.log.lh.length = 12 ∧ c.2.log.lh.Nodup := by
  obtain ⟨s, P, k, l, hreach, -, hs, hlen, -⟩ := two_logged (n := 6) (by decide) (by decide)
  refine ⟨_, hreach, ?_, (commit_excludes_operations six_short rfl counts_binit hreach).1⟩
  rw [hs.lh_eq, hlen]

end LearnXv6.Log
