import LearnXv6.Fs.File

/-! A file is a byte array: every run of `readi` and `writei` calls returns what the array does. -/
namespace LearnXv6.Fs.Kernel
open List

variable {L : Lab} {s s' : State} {ip ip' : Inode} {m off n : ℕ} {v : Block} {src : ℕ → UInt8}

/-! Writing back the inode. -/

section InodeBlock

variable {b : ℕ} (hb : b < s.sb.bmapstart)
include hb

lemma logWrite_low_data (ho : Owns L s ip) {p : ℕ × List ℕ} (hp : p ∈ L.code.nodes)
    (hne : tree s ip p ≠ 0) : (s.logWrite b v).disk (tree s ip p) = s.disk (tree s ip p) := by
  have := (ho.owned p hp hne).1
  have := bmapstart_lt_datastart s.sb
  exact logWrite_disk_of_ne (by omega)

lemma tree_logWrite_low (ho : Owns L s ip) (p : ℕ × List ℕ) (hp : p ∈ L.code.nodes) :
    tree (s.logWrite b v) ip p = tree s ip p := by
  apply Store.table_congr L.nodes_prefixClosed (fun _ _ => rfl) ?_ p hp
  intro r ks k hr hne
  exact congrArg (fun c : Block => c.word k)
    (logWrite_low_data hb ho (L.nodes_prefixClosed _ _ _ hr) hne)

lemma used_logWrite_low (c : ℕ) : (s.logWrite b v).used c = s.used c := by
  have := bmapstart_le_bblock s.sb c
  exact used_logWrite_of_ne (by omega)

lemma FileInv.logWrite_inode (h : FileInv L s ip m) (hb' : s.sb.inodestart ≤ b) :
    FileInv L (s.logWrite b v) ip m := by
  have ht := tree_logWrite_low (v := v) hb h.owns
  refine ⟨h.valid.logWrite_inode hb' hb, ⟨h.owns.inode_lt, ?_, h.owns.separate.congr ht⟩, h.le, ?_⟩
  · intro p hp hne
    rw [ht p hp] at hne ⊢
    rw [used_logWrite_low hb]
    exact h.owns.owned p hp hne
  · intro p hp
    rw [ht p hp]
    exact h.mapped p hp

lemma FileInv.fileByte_logWrite_inode (h : FileInv L s ip m) {i : ℕ} (hi : i < m * BSIZE) :
    fileByte L (s.logWrite b v) ip i = fileByte L s ip i := by
  have hbn := Nat.div_lt_of_lt_mul (by rwa [Nat.mul_comm])
  have hmem := Lab.path_mem (lt_of_lt_of_le hbn h.le)
  rw [fileByte, tree_logWrite_low hb h.owns _ hmem,
    logWrite_low_data hb h.owns hmem (h.leaf_ne hbn), fileByte]

end InodeBlock

/-- The tree depends on the inode only through `addrs`. -/
lemma FileInv.of_addrs (h : FileInv L s ip m) (hi : ip'.inum = ip.inum)
    (ha : ip'.addrs = ip.addrs) : FileInv L s ip' m := by
  have ht : ∀ p, tree s ip' p = tree s ip p := by
    intro p
    simp only [tree, ha]
  refine ⟨h.valid, ⟨by rw [hi]; exact h.owns.inode_lt, ?_, ?_⟩, h.le, ?_⟩
  · simpa only [ht] using h.owns.owned
  · exact h.owns.separate.congr (fun p _ => ht p)
  · simpa only [ht] using h.mapped

/-! The abstract file. -/

def content (L : Lab) (s : State) (ip : Inode) : List UInt8 :=
  (List.range ip.size).map (fileByte L s ip)

@[simp] lemma content_length : (content L s ip).length = ip.size := by simp [content]

/-- Replace the bytes of `[off, off + n)`, growing the array when it ends before that. -/
def overwrite (c : List UInt8) (off n : ℕ) (src : ℕ → UInt8) : List UInt8 :=
  c.take off ++ (List.range n).map src ++ c.drop (off + n)

lemma map_range_overwrite {g h : ℕ → UInt8} {size : ℕ} (hoff : off ≤ size)
    (hg : ∀ i, i < max size (off + n) →
      g i = if off ≤ i ∧ i < off + n then src (i - off) else h i) :
    (List.range (max size (off + n))).map g = overwrite ((List.range size).map h) off n src := by
  unfold overwrite
  apply ext_getElem
  · simp
    omega
  · intro i h1 h2
    have hi : i < max size (off + n) := by simpa using h1
    simp only [getElem_map, getElem_range, hg i hi]
    by_cases ha : i < off
    · rw [if_neg (by omega), getElem_append_left (by simp; omega),
        getElem_append_left (by simp; omega)]
      simp
    by_cases hb : i < off + n
    · rw [if_pos (by omega), getElem_append_left (by simp; omega),
        getElem_append_right (by simp; omega)]
      simp
      congr 1
      omega
    · rw [if_neg (by omega), getElem_append_right (by simp; omega)]
      simp
      congr 1
      omega

/-- A regular file: present blocks are exactly those its size covers. -/
structure IsFile (L : Lab) (s : State) (ip : Inode) : Prop where
  inv : FileInv L s ip (nblk ip.size)
  not_dev : ip.type ≠ T_DEV

lemma MAXFILE_lt (L : Lab) : L.MAXFILE * BSIZE < 2 ^ 32 := by cases L <;> decide

def Accepts (L : Lab) (size off n : ℕ) : Prop := off ≤ size ∧ off + n ≤ L.MAXFILE * BSIZE

instance (L : Lab) (size off n : ℕ) : Decidable (Accepts L size off n) :=
  inferInstanceAs (Decidable (_ ∧ _))

lemma writei_reject (h : IsFile L s ip) (ho : off < 2 ^ 32) (hn : n < 2 ^ 32)
    (ha : ¬ Accepts L ip.size off n) : writei L s ip src off n = .ok (-1, s, ip) := by
  have hmax := MAXFILE_lt L
  unfold writei
  rw [if_neg h.not_dev]
  by_cases h1 : ip.size < off ∨ (off + n) % 2 ^ 32 < off
  · rw [if_pos h1]
  · rw [if_neg h1, if_pos]
    unfold Accepts at ha
    omega

lemma writei_accept (h : IsFile L s ip) (ha : Accepts L ip.size off n) :
    writei L s ip src off n = (do
      let (s, ip) ← writeiLoop L s ip src off n
      if 0 < n ∧ ip.size < off + n then
        let ip := { ip with size := off + n }
        .ok ((n : ℤ), iupdate s ip, ip)
      else .ok ((n : ℤ), s, ip)) := by
  have hmax := MAXFILE_lt L
  obtain ⟨h1, h2⟩ := ha
  unfold writei
  rw [if_neg h.not_dev, if_neg (by omega), if_neg (by omega)]

lemma iblock_le (sb : Superblock) (i : ℕ) : sb.inodestart ≤ sb.iblock i := by
  simp [Superblock.iblock]

lemma writei_spec {r : ℤ} (h : IsFile L s ip) (ha : Accepts L ip.size off n)
    (hw : writei L s ip src off n = .ok (r, s', ip')) :
    r = n ∧ IsFile L s' ip' ∧ content L s' ip' = overwrite (content L s ip) off n src := by
  rw [writei_accept h ha] at hw
  obtain ⟨hoff, hlen⟩ := ha
  have hsize : ip.size ≤ nblk ip.size * BSIZE := nblk_le_iff.mp le_rfl
  cases hl : writeiLoop L s ip src off n with
  | error e => simp [hl, bind, Except.bind] at hw
  | ok p =>
    obtain ⟨s1, ip1⟩ := p
    have hwr := writeiLoop_spec h.inv (hoff.trans hsize) hlen hl
    have hs1 : ip1.size = ip.size := by rw [hwr.inode_eq]
    have ht1 : ip1.type = ip.type := by rw [hwr.inode_eq]
    have hnb : max (nblk ip.size) (nblk (off + n)) = nblk (max ip.size (off + n)) := by
      simp only [nblk, BSIZE_eq]
      omega
    have hinv := hwr.inv
    rw [hnb] at hinv
    have hbytes : (List.range (max ip.size (off + n))).map (fileByte L s1 ip1) =
        overwrite (content L s ip) off n src := by
      apply map_range_overwrite hoff
      intro i hi
      apply hwr.byte_eq
      omega
    simp only [hl, bind, Except.bind] at hw
    split at hw
    · rename_i hgrow
      cases hw
      have hm : max ip.size (off + n) = off + n := by omega
      rw [hm] at hinv hbytes
      have hinum : ip1.inum = ip.inum := by rw [hwr.inode_eq]
      have hb := hinv.owns.inode_lt
      refine ⟨rfl, ⟨?_, fun hc => h.not_dev (ht1 ▸ hc)⟩, ?_⟩
      · exact (hinv.logWrite_inode hb (iblock_le _ _)).of_addrs rfl rfl
      · rw [← hbytes]
        apply map_congr_left
        intro i hi
        refine Eq.trans rfl (hinv.fileByte_logWrite_inode hb ?_)
        have : off + n ≤ nblk (off + n) * BSIZE := nblk_le_iff.mp le_rfl
        have := mem_range.mp hi
        simp only at this
        omega
    · rename_i hgrow
      cases hw
      have hm : max ip.size (off + n) = ip.size := by omega
      rw [hm] at hinv hbytes
      refine ⟨rfl, ⟨by rwa [hs1], by rw [ht1]; exact h.not_dev⟩, ?_⟩
      rw [content, hs1]
      exact hbytes

lemma writei_error (h : IsFile L s ip) (ho : off < 2 ^ 32) (hn : n < 2 ^ 32) {e : Panic}
    (hw : writei L s ip src off n = .error e) : e = .outOfBlocks := by
  by_cases ha : Accepts L ip.size off n
  · rw [writei_accept h ha] at hw
    cases hl : writeiLoop L s ip src off n with
    | error e' =>
      simp only [hl, bind, Except.bind, Except.error.injEq] at hw
      exact hw ▸ writeiLoop_error ha.2 hl
    | ok p =>
      simp only [hl, bind, Except.bind] at hw
      split at hw <;> cases hw
  · rw [writei_reject h ho hn ha] at hw
    cases hw

lemma readi_spec (hd : ip.type ≠ T_DEV) (hle : nblk ip.size ≤ L.MAXFILE)
    (hmap : ∀ bn, bn < nblk ip.size → tree s ip (L.path bn) ≠ 0) (hoff : off ≤ ip.size)
    (hn : off + n < 2 ^ 32) : readi L s ip off n = .ok ((min n (ip.size - off) : ℕ),
      ((content L s ip).drop off).take n, s, ip) := by
  have hsize : ip.size ≤ nblk ip.size * BSIZE := nblk_le_iff.mp le_rfl
  have hmin : (if ip.size < (off + n) % 2 ^ 32 then ip.size - off else n) =
      min n (ip.size - off) := by
    rw [Nat.mod_eq_of_lt hn]
    split <;> omega
  have hslice : ((content L s ip).drop off).take n =
      (List.range (min n (ip.size - off))).map fun i => fileByte L s ip (off + i) := by
    apply ext_getElem
    · simp [content]
    · intro i h1 h2
      simp [content]
  unfold readi
  rw [if_neg hd, if_neg (by rw [Nat.mod_eq_of_lt hn]; omega)]
  simp only [hmin]
  rw [readiLoop_spec hle hmap (by omega), hslice]
  rfl

lemma readi_reject (hd : ip.type ≠ T_DEV) (hn : n < 2 ^ 32) (ho : off < 2 ^ 32)
    (ha : ¬ (off ≤ ip.size ∧ off + n < 2 ^ 32)) : readi L s ip off n = .ok (-1, [], s, ip) := by
  unfold readi
  rw [if_neg hd, if_pos]
  omega

/-! Runs of calls. -/

/-- A system-level call on the inode; offsets and counts are `uint`. -/
inductive Call where
  | write (src : ℕ → UInt8) (off n : UInt32)
  | read (off n : UInt32)

/-- The value a call returns, with the bytes a read copies out. -/
inductive Reply where
  | wrote (r : ℤ)
  | data (r : ℤ) (bytes : List UInt8)
  deriving DecidableEq

def exec (L : Lab) (s : State) (ip : Inode) : Call → Except Panic (Reply × State × Inode)
  | .write src off n => do
    let (r, s, ip) ← writei L s ip src off.toNat n.toNat
    .ok (.wrote r, s, ip)
  | .read off n => do
    let (r, bytes, s, ip) ← readi L s ip off.toNat n.toNat
    .ok (.data r bytes, s, ip)

def run (L : Lab) (s : State) (ip : Inode) : List Call → Except Panic (List Reply × State × Inode)
  | [] => .ok ([], s, ip)
  | c :: cs => do
    let (r, s, ip) ← exec L s ip c
    let (rs, s, ip) ← run L s ip cs
    .ok (r :: rs, s, ip)

/-- What the same call does to a byte array of at most `MAXFILE * BSIZE` bytes. -/
def arrayExec (L : Lab) (c : List UInt8) : Call → Reply × List UInt8
  | .write src off n =>
    if Accepts L c.length off.toNat n.toNat then
      (.wrote n.toNat, overwrite c off.toNat n.toNat src)
    else (.wrote (-1), c)
  | .read off n =>
    if off.toNat ≤ c.length ∧ off.toNat + n.toNat < 2 ^ 32 then
      (.data (min n.toNat (c.length - off.toNat) : ℕ) ((c.drop off.toNat).take n.toNat), c)
    else (.data (-1) [], c)

def arrayRun (L : Lab) (c : List UInt8) : List Call → List Reply × List UInt8
  | [] => ([], c)
  | call :: calls =>
    let (r, c) := arrayExec L c call
    let (rs, c) := arrayRun L c calls
    (r :: rs, c)

lemma exec_read {off n : UInt32} (h : IsFile L s ip) :
    exec L s ip (.read off n) = .ok ((arrayExec L (content L s ip) (.read off n)).1, s, ip) := by
  by_cases ha : off.toNat ≤ ip.size ∧ off.toNat + n.toNat < 2 ^ 32
  · have hr := readi_spec h.not_dev h.inv.le (fun bn hbn => h.inv.leaf_ne hbn) ha.1 ha.2
    simp only [exec, hr, bind, Except.bind, arrayExec, content_length, if_pos ha]
  · have hr := readi_reject (L := L) (s := s) h.not_dev n.toNat_lt off.toNat_lt ha
    simp only [exec, hr, bind, Except.bind, arrayExec, content_length, if_neg ha]

lemma exec_spec (h : IsFile L s ip) {c : Call} : exec L s ip c = .error .outOfBlocks ∨
    ∃ s' ip', exec L s ip c = .ok ((arrayExec L (content L s ip) c).1, s', ip') ∧
      IsFile L s' ip' ∧ content L s' ip' = (arrayExec L (content L s ip) c).2 := by
  cases c with
  | write src off n =>
    have ho := off.toNat_lt
    have hn := n.toNat_lt
    by_cases ha : Accepts L ip.size off.toNat n.toNat
    · cases hw : writei L s ip src off.toNat n.toNat with
      | error e =>
        left
        have := writei_error h ho hn hw
        subst this
        simp [exec, hw, bind, Except.bind]
      | ok p =>
        obtain ⟨r, s', ip'⟩ := p
        obtain ⟨rfl, hf, hc⟩ := writei_spec h ha hw
        refine .inr ⟨s', ip', ?_, hf, ?_⟩
        · simp [exec, hw, bind, Except.bind, arrayExec, ha]
        · simp [arrayExec, ha, hc]
    · refine .inr ⟨s, ip, ?_, h, ?_⟩
      · simp [exec, writei_reject h ho hn ha, bind, Except.bind, arrayExec, ha]
      · simp [arrayExec, ha]
  | read off n =>
    refine .inr ⟨s, ip, exec_read h, h, ?_⟩
    simp only [arrayExec]
    split <;> rfl

/-- Every run that does not use up the free blocks simulates the run of the byte array. -/
lemma run_spec (h : IsFile L s ip) {cs : List Call} (hr : run L s ip cs ≠ .error .outOfBlocks) :
    ∃ s' ip', run L s ip cs = .ok ((arrayRun L (content L s ip) cs).1, s', ip') ∧
      IsFile L s' ip' ∧ content L s' ip' = (arrayRun L (content L s ip) cs).2 := by
  induction cs generalizing s ip with
  | nil => exact ⟨s, ip, rfl, h, rfl⟩
  | cons c cs ih =>
    rcases exec_spec h (c := c) with he | ⟨s1, ip1, he, h1, hc⟩
    · simp [run, he, bind, Except.bind] at hr
    · have hr1 : run L s1 ip1 cs ≠ .error .outOfBlocks := by
        intro hc
        simp [run, he, hc, bind, Except.bind] at hr
      obtain ⟨s', ip', hrun, hf, hcont⟩ := ih h1 hr1
      rw [hc] at hrun hcont
      refine ⟨s', ip', ?_, hf, hcont⟩
      simp [run, he, hrun, bind, Except.bind, arrayRun]

end LearnXv6.Fs.Kernel
