import LearnXv6.Fs.Directory
import LearnXv6.Fs.Mkfs.Boot

/-! `main`: the calls it makes, and the image it leaves. -/
namespace LearnXv6.Fs.Mkfs
open Function Store Kernel List Nat

variable {L : Lab} {s s' : State} {din : Dinode} {fbn k inum off : ℕ} {p : List UInt8}
  {files : List File} {f : File}

/-! The inode counter moves in `ialloc` only. -/

/-- The result keeps the inode counter of `s`. -/
def KeepsCount (s : State) (r : ℕ × State × Dinode) : Prop := r.2.1.freeinode = s.freeinode

lemma fillAddr_freeinode : (fillAddr s din k).1.freeinode = s.freeinode := by
  unfold fillAddr
  split <;> rfl

lemma fill_freeinode {t : Block} : Ensures (fill s t k) fun r => r.1.freeinode = s.freeinode := by
  unfold fill
  split
  · exact .error
  · split
    · exact .ok rfl
    · exact .ok rfl

lemma fillWrite_freeinode {t : Block} {sec : ℕ} :
    Ensures (fillWrite s t k sec) fun r => r.1.freeinode = s.freeinode := by
  unfold fillWrite
  split
  · exact .error
  · split
    · exact .ok rfl
    · exact .ok rfl

lemma blockStock_freeinode : Ensures (blockStock L s din fbn) (KeepsCount s) := by
  unfold blockStock
  split
  · exact .ok fillAddr_freeinode
  · refine .bind .trivial fun t _ => .bind fillWrite_freeinode fun r hr => .ok ?_
    exact hr.trans fillAddr_freeinode

lemma blockIdouble_freeinode : Ensures (blockIdouble s din fbn) (KeepsCount s) := by
  simp only [blockIdouble]
  split
  · exact .ok fillAddr_freeinode
  · refine .bind .trivial fun t _ => ?_
    split
    · refine .bind fillWrite_freeinode fun r hr => .ok ?_
      exact hr.trans fillAddr_freeinode
    · refine .bind fill_freeinode fun r hr => .bind .trivial fun t2 _ =>
        .bind fillWrite_freeinode fun r2 hr2 => .ok ?_
      exact hr2.trans (hr.trans fillAddr_freeinode)

lemma blockItriple_freeinode : Ensures (blockItriple s din fbn) (KeepsCount s) := by
  simp only [blockItriple]
  split
  · exact .ok fillAddr_freeinode
  · refine .bind .trivial fun t _ => ?_
    split
    · refine .bind fillWrite_freeinode fun r hr => .ok ?_
      exact hr.trans fillAddr_freeinode
    · refine .bind fill_freeinode fun r hr => .bind .trivial fun t2 _ => ?_
      have hr1 := hr.trans fillAddr_freeinode
      split
      · refine .bind fillWrite_freeinode fun r2 hr2 => .ok ?_
        exact hr2.trans hr1
      · refine .bind fill_freeinode fun r2 hr2 => .bind .trivial fun t3 _ => ?_
        split
        · refine .bind fillWrite_freeinode fun r3 hr3 => .ok ?_
          exact hr3.trans (hr2.trans hr1)
        · exact .error

lemma blockReverse_freeinode : Ensures (blockReverse s din fbn) (KeepsCount s) := by
  simp only [blockReverse]
  split
  · exact .ok fillAddr_freeinode
  · refine .bind .trivial fun t _ => .bind fillWrite_freeinode fun r hr => .bind .trivial fun t2 _ =>
      .bind fillWrite_freeinode fun r2 hr2 => .ok ?_
    exact hr2.trans (hr.trans fillAddr_freeinode)

lemma block_freeinode : Ensures (block L s din fbn) (KeepsCount s) := by
  cases L with
  | stock | isingle => exact blockStock_freeinode
  | idouble => exact blockIdouble_freeinode
  | itriple => exact blockItriple_freeinode
  | reverse => exact blockReverse_freeinode

lemma iappendLoop_freeinode :
    Ensures (iappendLoop L s din off p) fun r => r.2.1.freeinode = s.freeinode := by
  induction hp : p.length using Nat.strong_induction_on generalizing s din off p with
  | _ m ih =>
    by_cases hz : p.length = 0
    · obtain rfl := length_eq_zero_iff.mp hz
      rw [iappendLoop_nil]
      exact .ok rfl
    · subst hp
      rw [iappendLoop_of_ne hz]
      split
      · have hlt : (p.drop (taken off p)).length < p.length := by
          have := taken_pos off hz
          rw [length_drop]
          omega
        exact .bind block_freeinode fun r hr => .bind .trivial fun b _ =>
          .bind (ih _ hlt rfl) fun r' hr' => .ok (hr'.trans hr)
      · exact .error

lemma winode_freeinode {d : Dinode} : Ensures (winode L s inum d) fun s' => s'.freeinode = s.freeinode :=
  .bind .trivial fun _ _ => .ok rfl

lemma iappend_freeinode : Ensures (iappend L s inum p) fun r => r.2.freeinode = s.freeinode :=
  .bind .trivial fun _ _ => .bind iappendLoop_freeinode fun _ hr =>
    .bind winode_freeinode fun _ hw => .ok (hw.trans hr)

/-! The calls that `main` makes. -/

/-- What the reads of a file return. -/
def chunks (f : File) : List (List UInt8) := f.reads.getD []

def fileCalls (inum : ℕ) (f : File) : List Call :=
  .ialloc T_FILE :: .iappend ROOTINO (dirent inum (shortName f.name)) ::
    (chunks f).map (.iappend inum)

/-- The calls for the files from inode `inum` on. -/
def filesCalls : ℕ → List File → List Call
  | _, [] => []
  | inum, f :: files => fileCalls inum f ++ filesCalls (inum + 1) files

def mainCalls (files : List File) : List Call :=
  .ialloc T_DIR :: .iappend ROOTINO (dirent ROOTINO [dot]) ::
    .iappend ROOTINO (dirent ROOTINO [dot, dot]) :: filesCalls 2 files

lemma chunks_run {bufs : List (List UInt8)}
    (hr : bufs.foldlM (fun s buf => do
      let (_, s) ← iappend L s inum buf
      .ok s) s = .ok s') (t : ℕ → List (ℕ × ℕ)) :
    ∃ t', (bufs.map (.iappend inum)).foldlM (exec L) (s, t) = .ok (s', t') ∧
      s'.freeinode = s.freeinode := by
  induction bufs generalizing s t with
  | nil =>
    cases hr
    exact ⟨t, rfl, rfl⟩
  | cons buf bufs ih =>
    simp only [foldlM_cons, bind_eq_ok] at hr
    obtain ⟨s1, ⟨⟨u, s2⟩, ha, he⟩, hr⟩ := hr
    cases he
    obtain ⟨t', hrun, hfi⟩ := ih hr (update t inum (t inum ++ u))
    refine ⟨t', ?_, hfi.trans (iappend_freeinode _ ha)⟩
    simp only [map_cons, foldlM_cons, exec, ha, ok_bind]
    exact hrun

lemma ialloc_freeinode {type : ℕ} :
    Ensures (ialloc L s type) fun r => r.1 = s.freeinode ∧ r.2.freeinode = s.freeinode + 1 :=
  .bind winode_freeinode fun _ hw => .ok ⟨rfl, hw⟩

lemma addFile_run (hr : addFile L ROOTINO s f = .ok s') (t : ℕ → List (ℕ × ℕ)) :
    slash ∉ f.name ∧ ∃ t', (fileCalls s.freeinode f).foldlM (exec L) (s, t) = .ok (s', t') ∧
      s'.freeinode = s.freeinode + 1 := by
  unfold addFile at hr
  obtain ⟨hslash, hr⟩ := else_eq_ok.mp hr
  split at hr
  · cases hr
  · rename_i bufs hreads
    simp only [bind_eq_ok] at hr
    obtain ⟨⟨inum, s1⟩, hi, ⟨u, s2⟩, ha, hr⟩ := hr
    obtain ⟨hinum, hfi⟩ := ialloc_freeinode _ hi
    simp only at hinum hfi ha hr
    subst hinum
    obtain ⟨t', hrun, hfr⟩ := chunks_run hr (update t ROOTINO (t ROOTINO ++ u))
    refine ⟨hslash, t', ?_, ?_⟩
    · simp only [fileCalls, chunks, hreads, Option.getD_some, foldlM_cons, exec, hi, ha, ok_bind]
      exact hrun
    · have hfa : s2.freeinode = s1.freeinode := iappend_freeinode _ ha
      omega

lemma files_run (hr : files.foldlM (addFile L ROOTINO) s = .ok s') (t : ℕ → List (ℕ × ℕ)) :
    ∃ t', (filesCalls s.freeinode files).foldlM (exec L) (s, t) = .ok (s', t') ∧
      s'.freeinode = s.freeinode + files.length := by
  induction files generalizing s t with
  | nil =>
    cases hr
    exact ⟨t, rfl, rfl⟩
  | cons f files ih =>
    simp only [foldlM_cons, bind_eq_ok] at hr
    obtain ⟨s1, ha, hr⟩ := hr
    obtain ⟨-, t1, hrun1, hfi1⟩ := addFile_run ha t
    obtain ⟨t', hrun, hfi⟩ := ih hr t1
    refine ⟨t', ?_, ?_⟩
    · rw [filesCalls, foldlM_append, hrun1, ok_bind, ← hfi1]
      exact hrun
    · rw [length_cons]
      omega

/-- A successful `main` is a run of calls, the rounding of the root directory and the free map. -/
lemma main_run (hr : main L files = .ok s) :
    ∃ s1 t s2, build L (mainCalls files) = .ok (s1, t) ∧ s1.freeinode = files.length + 2 ∧
      fixSize L s1 ROOTINO = .ok s2 ∧ balloc L s2 s2.freeblock = .ok s := by
  obtain ⟨-, -, -, hino, -⟩ := format_facts L
  simp only [main, bind_eq_ok] at hr
  obtain ⟨⟨rootino, s1⟩, hi, hr⟩ := hr
  obtain ⟨hroot, hfi⟩ : rootino = ROOTINO ∧ s1.freeinode = 2 := by
    have := ialloc_freeinode _ hi
    rwa [hino] at this
  subst hroot
  simp only [if_true, bind_eq_ok] at hr
  obtain ⟨⟨u1, s2⟩, h1, ⟨u2, s3⟩, h2, s4, h3, s5, h4, h5⟩ := hr
  have hf1 : s2.freeinode = s1.freeinode := iappend_freeinode _ h1
  have hf2 : s3.freeinode = s2.freeinode := iappend_freeinode _ h2
  obtain ⟨t, hrun, hf3 : s4.freeinode = s3.freeinode + files.length⟩ := files_run h3
    (update (update (fun _ => []) ROOTINO ([] ++ u1)) ROOTINO
      (update (fun _ => []) ROOTINO ([] ++ u1) ROOTINO ++ u2))
  refine ⟨s4, t, s5, ?_, by omega, h4, h5⟩
  have hf : s3.freeinode = 2 := by omega
  simp only [hf] at hrun
  simp only [build, mainCalls, foldlM_cons, exec, hi, h1, h2, ok_bind]
  exact hrun

lemma chunks_wellFormed {next : ℕ} (hpos : 0 < inum) (hlt : inum < next)
    (bufs : List (List UInt8)) {calls : List Call} (h : WellFormed next calls) :
    WellFormed next (bufs.map (.iappend inum) ++ calls) := by
  induction bufs with
  | nil => exact h
  | cons buf bufs ih => exact ⟨⟨hpos, hlt⟩, ih⟩

lemma filesCalls_wellFormed (hpos : 2 ≤ inum) (hle : inum + files.length ≤ inodes) :
    WellFormed inum (filesCalls inum files) := by
  induction files generalizing inum with
  | nil => trivial
  | cons f files ih =>
    rw [length_cons] at hle
    have hroot : ROOTINO = 1 := rfl
    refine ⟨by omega, .inr rfl, ⟨by omega, by omega⟩, ?_⟩
    exact chunks_wellFormed (by omega) (by omega) _ (ih (by omega) (by omega))

/-- Up to 206 files the inode blocks hold every inode. -/
lemma mainCalls_wellFormed (hn : files.length ≤ 206) : WellFormed 1 (mainCalls files) := by
  have hino : inodes = 208 := rfl
  exact ⟨by decide, .inl rfl, by decide, by decide, filesCalls_wellFormed le_rfl (by omega)⟩

/-! What the calls put into each file. -/

/-- The directory entries of the files from inode `inum` on. -/
def entriesFrom : ℕ → List File → List (List UInt8)
  | _, [] => []
  | inum, f :: files => dirent inum (shortName f.name) :: entriesFrom (inum + 1) files

def rootEntries (files : List File) : List (List UInt8) :=
  dirent ROOTINO [dot] :: dirent ROOTINO [dot, dot] :: entriesFrom 2 files

lemma appended_append (a b : List Call) (j : ℕ) :
    appended (a ++ b) j = appended a j ++ appended b j := flatMap_append

lemma appended_chunks (bufs : List (List UInt8)) (j : ℕ) :
    appended (bufs.map (.iappend inum)) j = if inum = j then bufs.flatten else [] := by
  induction bufs with
  | nil => simp [appended]
  | cons buf bufs ih =>
    have hcons : appended ((buf :: bufs).map (.iappend inum)) j =
        (if inum = j then buf else []) ++ appended (bufs.map (.iappend inum)) j := rfl
    rw [hcons, ih]
    split <;> simp

lemma appended_fileCalls (f : File) (j : ℕ) :
    appended (fileCalls inum f) j =
      (if ROOTINO = j then dirent inum (shortName f.name) else []) ++
        if inum = j then (chunks f).flatten else [] := by
  have hcons : appended (fileCalls inum f) j =
      (if ROOTINO = j then dirent inum (shortName f.name) else []) ++
        appended ((chunks f).map (.iappend inum)) j := rfl
  rw [hcons, appended_chunks]

lemma appended_filesCalls_root (hpos : 2 ≤ inum) :
    appended (filesCalls inum files) ROOTINO = (entriesFrom inum files).flatten := by
  induction files generalizing inum with
  | nil => rfl
  | cons f files ih =>
    have hne : inum ≠ ROOTINO := by
      have : ROOTINO = 1 := rfl
      omega
    rw [filesCalls, appended_append, appended_fileCalls, ih (by omega), if_pos rfl, if_neg hne,
      append_nil]
    rfl

lemma appended_filesCalls_lt {j : ℕ} (hj : j ≠ ROOTINO) (hlt : j < inum) :
    appended (filesCalls inum files) j = [] := by
  induction files generalizing inum with
  | nil => rfl
  | cons f files ih =>
    rw [filesCalls, appended_append, appended_fileCalls, ih (by omega), if_neg (Ne.symm hj),
      if_neg (by omega)]
    rfl

lemma appended_filesCalls_file (hpos : 2 ≤ inum) {i : ℕ} (hi : i < files.length) :
    appended (filesCalls inum files) (inum + i) = (chunks files[i]).flatten := by
  have hroot : ROOTINO = 1 := rfl
  induction files generalizing inum i with
  | nil => cases hi
  | cons f files ih =>
    rw [filesCalls, appended_append, appended_fileCalls, if_neg (by omega)]
    cases i with
    | zero =>
      rw [add_zero, if_pos rfl, appended_filesCalls_lt (by omega) (by omega)]
      simp
    | succ i =>
      rw [if_neg (by omega), show inum + (i + 1) = inum + 1 + i by omega,
        ih (by omega) (by simpa using hi)]
      rfl

lemma appended_main_root : appended (mainCalls files) ROOTINO = (rootEntries files).flatten := by
  have hcons : appended (mainCalls files) ROOTINO = dirent ROOTINO [dot] ++
      (dirent ROOTINO [dot, dot] ++ appended (filesCalls 2 files) ROOTINO) := rfl
  rw [hcons, appended_filesCalls_root le_rfl]
  rfl

lemma appended_main_file {i : ℕ} (hi : i < files.length) :
    appended (mainCalls files) (i + 2) = (chunks files[i]).flatten := by
  have hroot : ROOTINO ≠ i + 2 := by
    have : ROOTINO = 1 := rfl
    omega
  have hcons : appended (mainCalls files) (i + 2) = appended (filesCalls 2 files) (i + 2) := by
    simp [mainCalls, appended, hroot]
  rw [hcons, add_comm, appended_filesCalls_file le_rfl hi]

lemma dirent_length (inum : ℕ) (name : List UInt8) : (dirent inum name).length = DIRENT := by
  simp [dirent, DIRENT]
  omega

lemma entriesFrom_length : (entriesFrom inum files).length = files.length := by
  induction files generalizing inum with
  | nil => rfl
  | cons f files ih => simp [entriesFrom, ih]

lemma entriesFrom_getElem (i : ℕ) : (entriesFrom inum files)[i]? =
      files[i]?.map fun f => dirent (inum + i) (shortName f.name) := by
  induction files generalizing inum i with
  | nil => rfl
  | cons f files ih =>
    cases i with
    | zero => rfl
    | succ i =>
      rw [entriesFrom, getElem?_cons_succ, getElem?_cons_succ, ih,
        show inum + 1 + i = inum + (i + 1) by omega]

lemma rootEntries_length : (rootEntries files).length = files.length + 2 := by
  simp [rootEntries, entriesFrom_length]

lemma mem_entriesFrom_length {e : List UInt8} (he : e ∈ entriesFrom inum files) : e.length = DIRENT := by
  induction files generalizing inum with
  | nil => cases he
  | cons f files ih =>
    rcases mem_cons.mp he with rfl | he
    · exact dirent_length _ _
    · exact ih he

lemma mem_rootEntries_length {e : List UInt8} (he : e ∈ rootEntries files) : e.length = DIRENT := by
  simp only [rootEntries, mem_cons] at he
  rcases he with rfl | rfl | he
  · exact dirent_length _ _
  · exact dirent_length _ _
  · exact mem_entriesFrom_length he

lemma flatten_getD {l : List (List UInt8)} {n : ℕ} (hl : ∀ e ∈ l, e.length = n) {e : List UInt8}
    {k i : ℕ} (hk : l[k]? = some e) (hi : i < n) : l.flatten.getD (k * n + i) 0 = e.getD i 0 := by
  induction l generalizing k with
  | nil => cases hk
  | cons a l ih =>
    have ha := hl a mem_cons_self
    cases k with
    | zero =>
      cases hk
      rw [zero_mul, zero_add, flatten_cons, getD_append _ _ _ _ (by omega)]
    | succ k =>
      rw [flatten_cons, succ_mul, getD_append_right _ _ _ _ (by omega), ha,
        show k * n + n + i - n = k * n + i by omega]
      exact ih (fun e he => hl e (mem_cons_of_mem _ he)) hk

lemma root_length : (appended (mainCalls files) ROOTINO).length = (files.length + 2) * DIRENT := by
  have hconst : (rootEntries files).map length = replicate (files.length + 2) DIRENT := by
    rw [← rootEntries_length]
    exact map_eq_replicate_iff.mpr fun e he => mem_rootEntries_length he
  rw [appended_main_root, length_flatten, hconst, sum_replicate, smul_eq_mul]

/-! Types. -/

lemma kinds_append (a b : List Call) : kinds (a ++ b) = kinds a ++ kinds b :=
  filterMap_append

lemma kinds_chunks (bufs : List (List UInt8)) : kinds (bufs.map (.iappend inum)) = [] := by
  induction bufs with
  | nil => rfl
  | cons buf bufs ih => exact ih

lemma kinds_filesCalls : kinds (filesCalls inum files) = replicate files.length T_FILE := by
  induction files generalizing inum with
  | nil => rfl
  | cons f files ih =>
    have hfile : kinds (fileCalls inum f) = T_FILE :: kinds ((chunks f).map (.iappend inum)) := rfl
    rw [filesCalls, kinds_append, hfile, kinds_chunks, ih]
    rfl

lemma kinds_mainCalls : kinds (mainCalls files) = T_DIR :: replicate files.length T_FILE := by
  have hcons : kinds (mainCalls files) = T_DIR :: kinds (filesCalls 2 files) := rfl
  rw [hcons, kinds_filesCalls]

/-! With room, `main` succeeds. -/

/-- Blocks enough for the entry and the contents of a file. -/
def cost (f : File) : ℕ := 4 + ((chunks f).map fun p => 4 * nblk (BSIZE - 1 + p.length)).sum

lemma Built.eq_nil (h : Built L s c t) {j : ℕ} (hge : s.freeinode ≤ j) (hj : j < inodes) : c j = [] := by
  have hsize := h.size_eq j hj
  rw [h.blank j hge hj] at hsize
  exact length_eq_zero_iff.mp hsize.symm

lemma nblk_mono {a b : ℕ} (h : a ≤ b) : nblk a ≤ nblk b :=
  nblk_le_iff.mpr (h.trans (nblk_le_iff.mp le_rfl))

lemma chunks_ok {bufs : List (List UInt8)}
    (h : Built L s c t) (hi : inum < s.freeinode) (hlt : inum < inodes)
    (hlen : (c inum ++ bufs.flatten).length ≤ limit L * BSIZE)
    (hroom : s.freeblock + (bufs.map fun p => 4 * nblk (BSIZE - 1 + p.length)).sum ≤ L.FSSIZE) :
    ∃ s' t', bufs.foldlM (fun s buf => do
        let (_, s) ← iappend L s inum buf
        .ok s) s = .ok s' ∧
      Built L s' (update c inum (c inum ++ bufs.flatten)) t' ∧
      s'.freeinode = s.freeinode ∧
      s'.freeblock ≤ s.freeblock + (bufs.map fun p => 4 * nblk (BSIZE - 1 + p.length)).sum := by
  induction bufs generalizing s c t with
  | nil =>
    refine ⟨s, t, rfl, ?_, rfl, le_add_right _ _⟩
    simpa using h
  | cons buf bufs ih =>
    rw [flatten_cons, length_append, length_append] at hlen
    rw [map_cons, sum_cons] at hroom ⊢
    have hmod := mod_lt (c inum).length (show 0 < BSIZE by decide)
    have hblk : nblk ((c inum).length % BSIZE + buf.length) ≤ nblk (BSIZE - 1 + buf.length) :=
      nblk_mono (by omega)
    obtain ⟨u, s1, ha, -, hfree⟩ := iappend_ok (p := buf) h.toLinked hlt (h.size_eq _ hlt) (by omega)
      (by omega)
    obtain ⟨hb, hfi, -⟩ := iappend_spec h hi hlt ha
    obtain ⟨s', t', hrun, hb', hfi', hfree'⟩ := ih hb (by omega)
      (by rw [update_self, length_append, length_append]; omega) (by omega)
    refine ⟨s', t', ?_, ?_, hfi'.trans hfi, by omega⟩
    · simp only [foldlM_cons, ha, ok_bind]
      exact hrun
    · rw [update_self, update_idem, append_assoc] at hb'
      exact hb'

lemma nblk_entry {len : ℕ} (hd : DIRENT ∣ len) (inum : ℕ) (name : List UInt8) :
    nblk (len % BSIZE + (dirent inum name).length) = 1 := by
  obtain ⟨e, rfl⟩ := hd
  rw [dirent_length, nblk, show DIRENT = 16 from rfl, BSIZE_eq]
  omega

/-- `main` has a state `s` between two files: the root directory has `e` entries. -/
structure Between (L : Lab) (s : State) (e : ℕ) (c : ℕ → List UInt8) (t : ℕ → List (ℕ × ℕ)) :
    Prop extends Built L s c t where
  count_eq : s.freeinode = e
  two_le : 2 ≤ e
  root_len : (c ROOTINO).length = e * DIRENT

lemma addFile_ok {e : ℕ} (h : Between L s e c t)
    (hlt : e < inodes) (hslash : slash ∉ f.name) (hreads : f.reads ≠ none)
    (hlen : (chunks f).flatten.length ≤ limit L * BSIZE) (hroom : s.freeblock + cost f ≤ L.FSSIZE) :
    ∃ s' c' t', addFile L ROOTINO s f = .ok s' ∧ Between L s' (e + 1) c' t' ∧
      s'.freeblock ≤ s.freeblock + cost f := by
  have hcount := h.count_eq
  have htwo := h.two_le
  have hroot : ROOTINO = 1 := rfl
  have hino : inodes = 208 := rfl
  have hlim : 8 ≤ limit L := by cases L <;> decide
  obtain ⟨bufs, hbufs⟩ := Option.ne_none_iff_exists'.mp hreads
  have hchunks : chunks f = bufs := by rw [chunks, hbufs, Option.getD_some]
  rw [cost, hchunks] at hroom ⊢
  rw [hchunks] at hlen
  obtain ⟨s1, hi, hb1, hfi1, hfb1, -⟩ := ialloc_spec h.toBuilt (by omega)
    (show T_FILE < 2 ^ 16 by decide) (show T_FILE ≠ T_DEV by decide)
  have hentry : nblk ((c ROOTINO).length % BSIZE + (dirent s.freeinode (shortName f.name)).length) =
      1 := nblk_entry (by rw [h.root_len]; exact Dvd.intro_left _ rfl) _ _
  obtain ⟨u, s2, ha, -, hfb2⟩ := iappend_ok (p := dirent s.freeinode (shortName f.name))
    hb1.toLinked (show ROOTINO < inodes by decide) (hb1.size_eq _ (by decide)) (by
      rw [h.root_len, dirent_length, show DIRENT = 16 from rfl, BSIZE_eq]
      omega) (by omega)
  obtain ⟨hb2, hfi2, -⟩ := iappend_spec hb1 (by omega) (by decide) ha
  have hnil : c e = [] := h.eq_nil (by omega) hlt
  have hne : e ≠ ROOTINO := by omega
  have hnew : (update c ROOTINO (c ROOTINO ++ dirent s.freeinode (shortName f.name)) e ++
      bufs.flatten).length ≤ limit L * BSIZE := by
    rwa [update_of_ne hne, hnil]
  obtain ⟨s', t', hrun, hb', hfi', hfb'⟩ := chunks_ok hb2 (by omega) hlt hnew (by omega)
  refine ⟨s', _, t', ?_, ⟨hb', by omega, by omega, ?_⟩, by omega⟩
  · rw [addFile, if_neg hslash]
    simp only [hbufs, hi, ha, ok_bind]
    rw [hcount]
    exact hrun
  · rw [update_of_ne hne.symm, update_self, length_append, h.root_len,
      dirent_length, add_mul, one_mul]

lemma files_ok {e : ℕ} (h : Between L s e c t) (hle : e + files.length ≤ inodes)
    (hfiles : ∀ f ∈ files, slash ∉ f.name ∧ f.reads ≠ none ∧ (chunks f).flatten.length ≤ limit L * BSIZE)
    (hroom : s.freeblock + (files.map cost).sum ≤ L.FSSIZE) :
    ∃ s' c' t', files.foldlM (addFile L ROOTINO) s = .ok s' ∧ Between L s' (e + files.length) c' t' ∧
      s'.freeblock ≤ s.freeblock + (files.map cost).sum := by
  induction files generalizing s c t e with
  | nil => exact ⟨s, c, t, rfl, h, le_add_right _ _⟩
  | cons f files ih =>
    rw [map_cons, sum_cons] at hroom ⊢
    rw [length_cons] at hle ⊢
    obtain ⟨h1, h2, h3⟩ := hfiles f mem_cons_self
    obtain ⟨s1, c1, t1, ha, hb1, hfb1⟩ := addFile_ok h (by omega) h1 h2 h3 (by omega)
    obtain ⟨s', c', t', hrun, hb', hfb'⟩ := ih hb1 (by omega)
      (fun g hg => hfiles g (mem_cons_of_mem _ hg)) (by omega)
    refine ⟨s', c', t', ?_, ?_, by omega⟩
    · rw [foldlM_cons, ha, ok_bind]
      exact hrun
    · rwa [show e + (files.length + 1) = e + 1 + files.length by omega]

lemma main_start (L : Lab) : ∃ s1 u1 s2 u2 s c t, ialloc L (format L) T_DIR = .ok (ROOTINO, s1) ∧
    iappend L s1 ROOTINO (dirent ROOTINO [dot]) = .ok (u1, s2) ∧
    iappend L s2 ROOTINO (dirent ROOTINO [dot, dot]) = .ok (u2, s) ∧
    Between L s 2 c t ∧ s.freeblock ≤ nmeta L + 8 := by
  obtain ⟨-, -, -, hino, hfree⟩ := format_facts L
  have hroot : ROOTINO < inodes := by decide
  have hroom : nmeta L + 8 ≤ L.FSSIZE ∧ 8 ≤ limit L := by cases L <;> decide
  obtain ⟨s1, hi, hb1, hfi1, hfb1, -⟩ := ialloc_spec (format_built L) (by rw [hino]; decide)
    (show T_DIR < 2 ^ 16 by decide) (show T_DIR ≠ T_DEV by decide)
  rw [hino] at hi hfi1
  have hnil : DIRENT ∣ ([] : List UInt8).length := Dvd.intro 0 rfl
  obtain ⟨u1, s2, ha1, -, hfb2⟩ := iappend_ok (p := dirent ROOTINO [dot]) hb1.toLinked hroot
    (hb1.size_eq _ hroot)
    (by rw [dirent_length, show DIRENT = 16 from rfl, BSIZE_eq]; simp only [length_nil]; omega)
    (by rw [nblk_entry hnil]; omega)
  obtain ⟨hb2, hfi2, -⟩ := iappend_spec hb1 (by rw [hfi1]; decide) hroot ha1
  have hlen : (update (fun _ => []) ROOTINO ([] ++ dirent ROOTINO [dot]) ROOTINO :
      List UInt8).length = DIRENT := by
    rw [update_self, nil_append, dirent_length]
  rw [nblk_entry hnil] at hfb2
  obtain ⟨u2, s, ha2, -, hfb⟩ := iappend_ok (p := dirent ROOTINO [dot, dot]) hb2.toLinked hroot
    (hb2.size_eq _ hroot)
    (by rw [hlen, dirent_length, show DIRENT = 16 from rfl, BSIZE_eq]; omega)
    (by rw [hlen, nblk_entry dvd_rfl]; omega)
  obtain ⟨hb, hfi, -⟩ := iappend_spec hb2 (by rw [hfi2, hfi1]; decide) hroot ha2
  rw [hlen, nblk_entry dvd_rfl] at hfb
  refine ⟨s1, u1, s2, u2, s, _, _, hi, ha1, ha2, ⟨hb, by omega, le_rfl, ?_⟩, by omega⟩
  rw [update_self, length_append, hlen, dirent_length]
  rfl

lemma main_eq {u1 u2 : List (ℕ × ℕ)} {s1 s2 : State} (hi : ialloc L (format L) T_DIR = .ok (ROOTINO, s1))
    (h1 : iappend L s1 ROOTINO (dirent ROOTINO [dot]) = .ok (u1, s2))
    (h2 : iappend L s2 ROOTINO (dirent ROOTINO [dot, dot]) = .ok (u2, s)) (files : List File) :
    main L files = files.foldlM (addFile L ROOTINO) s >>= fun s =>
      fixSize L s ROOTINO >>= fun s => balloc L s s.freeblock := by
  simp only [main, hi, h1, h2, ok_bind, if_true]

lemma finish_ok (hs : s.nsect = L.FSSIZE) (hfree : s.freeblock < BSIZE * 8) :
    ∃ s', (fixSize L s ROOTINO >>= fun s => balloc L s s.freeblock) = .ok s' := by
  have hroot : ROOTINO < inodes := by decide
  simp only [fixSize, rinode_eq hroot hs, winode_eq hroot hs, ok_bind]
  exact ⟨_, if_pos hfree⟩

lemma main_ok (hn : files.length ≤ 206) (hfiles : ∀ f ∈ files, slash ∉ f.name ∧ f.reads ≠ none ∧
      (chunks f).flatten.length ≤ limit L * BSIZE) (hroom : nmeta L + 8 + (files.map cost).sum ≤ L.FSSIZE)
    (hbits : nmeta L + 8 + (files.map cost).sum < BSIZE * 8) : ∃ s, main L files = .ok s := by
  have hino : inodes = 208 := rfl
  obtain ⟨s1, u1, s2, u2, s, c, t, hi, h1, h2, hb, hfree⟩ := main_start L
  obtain ⟨s', c', t', hrun, hb', hfree'⟩ := files_ok hb (by omega) hfiles (by omega)
  obtain ⟨r, hr⟩ := finish_ok (L := L) hb'.inv.nsect_eq (by omega)
  refine ⟨r, ?_⟩
  rw [main_eq hi h1 h2, hrun, ok_bind]
  exact hr

/-! Files to build images from. -/

/-- A letter from `A` to `P`. -/
def letter (i : ℕ) : UInt8 := UInt8.ofNat (65 + i % 16)

lemma letter_toNat (i : ℕ) : (letter i).toNat = 65 + i % 16 := by
  rw [letter, UInt8.toNat_ofNat']
  omega

lemma letter_ne {v : UInt8} (i : ℕ) (hv : v.toNat < 65 ∨ 80 < v.toNat) : letter i ≠ v := by
  intro h
  have := letter_toNat i
  rw [h] at this
  omega

lemma notMem_letters {v : UInt8} (i j : ℕ) (hv : v.toNat < 65 ∨ 80 < v.toNat) :
    v ∉ [letter i, letter j] := by
  simp only [mem_cons, not_mem_nil, or_false, not_or]
  exact ⟨(letter_ne i hv).symm, (letter_ne j hv).symm⟩

/-- An empty file with two letters for its name. -/
def numbered (i : ℕ) : File :=
  ⟨[letter (i / 16), letter i], some [], notMem_letters _ _ (by decide)⟩

def hello : File := ⟨[underscore, letter 7], some [[104, 105]], by decide⟩

lemma numbered_cost (n : ℕ) : (((List.range n).map numbered).map cost).sum = 4 * n := by
  have hconst : ((List.range n).map numbered).map cost = replicate n 4 := by
    rw [map_map]
    refine (map_eq_replicate_iff.mpr fun i _ => rfl).trans ?_
    rw [length_range]
  rw [hconst, sum_replicate, smul_eq_mul, mul_comm]

lemma numbered_facts {n : ℕ} (hf : f ∈ (List.range n).map numbered) :
    slash ∉ f.name ∧ f.reads ≠ none ∧ (chunks f).flatten.length ≤ limit L * BSIZE := by
  obtain ⟨i, -, rfl⟩ := mem_map.mp hf
  exact ⟨notMem_letters _ _ (by decide), by simp [numbered], zero_le _⟩

lemma Linked.wsect_bitmap (h : Linked L s c t) (v : Block) : Linked L (wsect s (sb L).bmapstart v) c t ∧
      ∀ j, j < inodes → dinodes L (wsect s (sb L).bmapstart v) j = dinodes L s j := by
  have hlay := layout L
  have hlow := h.inv.nmeta_le
  have hns := h.inv.nsect_eq
  have hother : ∀ b, b ≠ (sb L).bmapstart → (wsect s (sb L).bmapstart v).sect b = s.sect b := by
    intro b hb
    rw [wsect_sect (by omega), update_of_ne hb]
  have hdin : ∀ j, j < inodes → dinodes L (wsect s (sb L).bmapstart v) j = dinodes L s j := by
    intro j hj
    have := iblock_facts hj L
    rw [dinodes, hother _ (by omega), dinodes]
  have hkeep : ∀ n ∈ allNodes L, forest s (dinodes L s) n ≠ 0 →
      (wsect s (sb L).bmapstart v).sect (forest s (dinodes L s) n) =
        s.sect (forest s (dinodes L s) n) := by
    intro n hn hne
    have := (h.inv.owned n hn hne).1
    exact hother _ (by omega)
  obtain ⟨hinv, ht⟩ := h.inv.change (wsect_nsect (by omega) (by omega)) le_rfl h.inv.free_le
    (hother 1 (by omega)) (fun b hb => hother b (by have : s.freeblock ≤ b := hb; omega))
    (fun r ks k hn hne => hkeep _ (allNodes_prefixClosed L _ _ _ hn) hne)
    (fun j => Dinode.read_fits _ _) (fun j hj => congrArg Dinode.addrs (hdin j hj))
  refine ⟨⟨hinv, h.free_le, ?_⟩, hdin⟩
  intro j hj
  refine (h.holds j hj).congr (fun n hn => ht _ ⟨hj, hn⟩) ?_
  intro bn hbn hbr
  exact hkeep _ (leaf_mem hj (hbr.trans_le (reach_le L))) ((h.holds j hj).leaf_ne hbn hbr)

lemma ialloc_past (h : Linked L s c t) (hfi : s.freeinode = inodes) :
    ∃ s', ialloc L s T_FILE = .ok (inodes, s') ∧ Linked L s' c t ∧ s'.freeblock = s.freeblock ∧
      ∀ j, j < inodes → dinodes L s' j = dinodes L s j := by
  have hlay := layout L
  have hblk : (sb L).iblock inodes = (sb L).bmapstart := by cases L <;> decide
  generalize hs1 : ({ s with freeinode := s.freeinode + 1 } : State) = s1
  have hl1 : Linked L s1 c t := by
    subst hs1
    refine ⟨⟨h.inv.nsect_eq, h.inv.nmeta_le, h.inv.free_le, h.inv.super, h.inv.zero, h.inv.fits,
      h.inv.owned, h.inv.separate⟩, h.free_le, fun j hj => ?_⟩
    exact ⟨(h.holds j hj).mapped, (h.holds j hj).data, (h.holds j hj).wrote, (h.holds j hj).traced⟩
  have hread : rsect s1 (sb L).bmapstart = .ok (s1.sect (sb L).bmapstart) :=
    (rsect_eq_ok (by omega)).mpr ⟨by rw [hl1.inv.nsect_eq]; omega, rfl⟩
  have hw : ∀ d, winode L s1 inodes d = .ok (wsect s1 (sb L).bmapstart
      (Dinode.write (s1.sect (sb L).bmapstart) (inodes % IPB) d)) := by
    intro d
    simp only [winode, hblk, hread, ok_bind]
  obtain ⟨hl, hdin⟩ := hl1.wsect_bitmap (Dinode.write (s1.sect (sb L).bmapstart) (inodes % IPB)
    { (0 : Dinode) with type := T_FILE, nlink := 1, size := 0 })
  refine ⟨_, ?_, hl, ?_, fun j hj => (hdin j hj).trans ?_⟩
  · simp only [ialloc, hs1]
    rw [hfi, hw]
    rfl
  · subst hs1
    rfl
  · subst hs1
    rfl

lemma numbered_207_main_ok : ∃ s, main .stock ((List.range 207).map numbered) = .ok s := by
  have hroot : ROOTINO < inodes := by decide
  obtain ⟨s1, u1, s2, u2, s, c, t, hi, h1, h2, hb, hfree⟩ := main_start .stock
  have hmeta : nmeta .stock = 59 ∧ Lab.stock.FSSIZE = 1000 := by decide
  obtain ⟨s3, c3, t3, hrun, hb3, hfree3⟩ := files_ok (s := s) hb
    (show 2 + ((List.range 206).map numbered).length ≤ inodes by simp; decide)
    (fun f hf => numbered_facts hf) (by rw [numbered_cost]; omega)
  rw [numbered_cost] at hfree3
  -- the last file: its inode is number 208, and the root directory takes its entry
  have hfi3 : s3.freeinode = inodes := by
    rw [hb3.count_eq, length_map, length_range]
    rfl
  have hlen3 : (c3 ROOTINO).length = 208 * DIRENT := by
    rw [hb3.root_len, length_map, length_range]
  obtain ⟨s4, hi4, hl4, hfree4, hdin4⟩ := ialloc_past hb3.toLinked hfi3
  have hentry : nblk ((c3 ROOTINO).length % BSIZE +
      (dirent inodes (shortName (numbered 206).name)).length) = 1 :=
    nblk_entry (by rw [hlen3]; exact Dvd.intro_left _ rfl) _ _
  obtain ⟨u5, s5, h5, hns5, hfree5⟩ := iappend_ok
    (p := dirent inodes (shortName (numbered 206).name)) hl4 hroot
    (by rw [hdin4 _ hroot, hb3.size_eq _ hroot]) (by rw [hlen3, dirent_length]; decide) (by omega)
  have hadd : addFile .stock ROOTINO s3 (numbered 206) = .ok s5 := by
    rw [addFile, if_neg (numbered_facts (L := .stock) (n := 207) (mem_map_of_mem
      (mem_range.mpr (by decide)))).1]
    simp only [numbered, hi4, ok_bind]
    simp only [numbered] at h5
    simp only [h5, ok_bind]
    rfl
  obtain ⟨r, hr⟩ := finish_ok (L := .stock) (s := s5) hns5 (by rw [BSIZE_eq]; omega)
  refine ⟨r, ?_⟩
  rw [main_eq hi h1 h2, range_succ, map_append, foldlM_append, hrun, ok_bind,
    map_singleton, foldlM_cons, hadd, ok_bind]
  exact hr

/-! The finished image. -/

/-- The image `s` before the free map is written: the files of `main`, with the size of the root
directory rounded up past its last entry. -/
structure Made (L : Lab) (files : List File) (s : State) (t : ℕ → List (ℕ × ℕ)) : Prop
    extends Linked L s (appended (mainCalls files)) t where
  count_le : files.length ≤ 206
  bitmap : ∀ b, (sb L).bmapstart ≤ b → b < nmeta L → s.sect b = 0
  freeinode_eq : s.freeinode = files.length + 2
  root_size : (dinodes L s ROOTINO).size =
    ((files.length + 2) * DIRENT / BSIZE + 1) * BSIZE
  root_type : (dinodes L s ROOTINO).type = T_DIR
  file_size : ∀ i, i < files.length →
    (dinodes L s (i + 2)).size = (appended (mainCalls files) (i + 2)).length
  file_type : ∀ i, i < files.length → (dinodes L s (i + 2)).type = T_FILE
  len_le : ∀ j, j < inodes → (appended (mainCalls files) j).length ≤ limit L * BSIZE

lemma fixSize_made (hn : files.length ≤ 206)
    (hb : build L (mainCalls files) = .ok (s, t)) (hfi : s.freeinode = files.length + 2)
    (hr : fixSize L s ROOTINO = .ok s') : Made L files s' t := by
  have hino : inodes = 208 := rfl
  have hroot : ROOTINO < inodes := by decide
  have hwf := mainCalls_wellFormed hn
  obtain ⟨hbuilt, -⟩ := build_built hwf hb
  have hty : ∀ j, j < inodes → (dinodes L s j).type =
      if j < 1 then 0 else (T_DIR :: replicate files.length T_FILE).getD (j - 1) 0 := by
    intro j hj
    obtain ⟨-, -, -, hf1, -⟩ := format_facts L
    have := (run_built (format_built L) (by rw [hf1]; decide) (by rwa [hf1]) hb).2.2 j hj
    rw [kinds_mainCalls, hf1, format_dinodes hj] at this
    exact this
  have hsize : (dinodes L s ROOTINO).size = (files.length + 2) * DIRENT := by
    rw [hbuilt.size_eq _ hroot]
    exact root_length
  simp only [fixSize, rinode_eq hroot hbuilt.inv.nsect_eq, ok_bind,
    winode_eq hroot hbuilt.inv.nsect_eq, Except.ok.injEq, hsize] at hr
  generalize hd : ({ dinodes L s ROOTINO with
    size := ((files.length + 2) * DIRENT / BSIZE + 1) * BSIZE } : Dinode) = d at hr
  have hfits : d.Fits := by
    have h0 := hbuilt.inv.fits ROOTINO
    subst hd
    refine ⟨h0.type_lt, h0.major_lt, h0.minor_lt, h0.nlink_lt, ?_, h0.addrs_lt, h0.addrs_ge⟩
    have hDIRENT : DIRENT = 16 := rfl
    simp only [hDIRENT, BSIZE_eq]
    omega
  obtain ⟨hinv, ht⟩ := hbuilt.inv.setDinode hroot hfits (by rw [← hd]) (fun _ _ _ => rfl)
  have hdin := dinodes_setDinode (L := L) (s := s) hroot hfits
  subst hr
  refine ⟨⟨hinv, hbuilt.free_le, ?_⟩, hn, ?_, hfi, ?_, ?_, ?_, ?_, hbuilt.len_le⟩
  · intro j hj
    exact (hbuilt.holds j hj).setDinode hbuilt.inv hroot hj ht
  · intro b hb hbl
    have := iblock_facts hroot L
    rw [setDinode_sect hroot (by omega), hbuilt.bitmap b hb hbl]
  · rw [hdin, if_pos rfl, ← hd]
  · rw [hdin, if_pos rfl, ← hd]
    exact hty _ hroot
  · intro i hi
    rw [hdin, if_neg (by change i + 2 ≠ 1; omega)]
    exact hbuilt.size_eq _ (by omega)
  · intro i hi
    rw [hdin, if_neg (by change i + 2 ≠ 1; omega), hty _ (by omega), if_neg (by omega)]
    simp [hi]

lemma main_made (hr : main L files = .ok s) (hn : files.length ≤ 206) :
    ∃ s1 t, Made L files s1 t ∧ Finished L s1 s := by
  obtain ⟨s1, t, s2, hb, hfi, hfix, hal⟩ := main_run hr
  have hmade := fixSize_made hn hb hfi hfix
  exact ⟨s2, t, hmade, balloc_spec hmade.toLinked hmade.bitmap hal⟩

end LearnXv6.Fs.Mkfs
