import LearnXv6.Checksum.Write

/-! Reading a checked file: what `readi` returns, and which damage it reports; and what `stati` reports. -/
namespace LearnXv6.Checksum
open Fs Store Fs.Kernel List

variable {s s' s₀ t : State} {ip ip₀ jp : Inode} {b bn m n off : ℕ} {c : ℕ → ℕ} {ws : List Write}

/-! The search. -/

lemma foldl_same {p : ℕ} {P : Prop} [Decidable P] (n : ℕ) :
    (List.range (n + 1)).foldl (fun a _ => if P then p else a) 0 = if P then p else 0 := by
  by_cases hP : P
  · simp only [if_pos hP]
    rw [range_succ, foldl_append]
    rfl
  · simp only [if_neg hP]
    exact foldl_fixed _

/-- The search finds the entries of the direct blocks and the first one of the index block. -/
lemma Packed.findEntry_eq (h : Packed c s ip t jp m) (hbn : bn < m) :
    findEntry s ip (blockOf s ip bn) = if bn ≤ NDIRECT then entry s ip bn else 0 := by
  rw [h.blockOf_eq hbn]
  unfold findEntry
  rw [h.findDirect_eq hbn]
  by_cases hd : bn < NDIRECT
  · rw [if_pos hd, if_pos hd.le]
    exact (if_pos hd).symm
  · have hi := (h.plain.index_of_mapped (h.inv.leaf_ne hbn)).resolve_left hd
    have hfirst : entry s ip NDIRECT = s.word (ip.addrs NDIRECT) 0 := by
      unfold entry
      rw [if_neg (lt_irrefl _), Nat.sub_self]
    have hiff := h.mask_eq_iff (b := NDIRECT) (by decide) (.inr hi) hbn
    rw [hfirst] at hiff
    simp only [if_neg hd, if_pos hi]
    rw [show NINDIRECT = 127 + 1 from rfl, foldl_same]
    by_cases he : NDIRECT = bn
    · rw [if_pos (hiff.mpr he), if_pos he.ge, ← hfirst, he]
    · rw [if_neg (mt hiff.mp he), if_neg (by omega)]

/-! Damage. -/

/-- The disk after something other than `writei` has changed data blocks of the file. -/
structure Damaged (s : State) (ip : Inode) (s' : State) : Prop where
  disk_eq : ∀ b, (∀ bn, bn < nblk ip.size → b ≠ blockOf s ip bn) → s'.disk b = s.disk b

lemma Damaged.refl (s : State) (ip : Inode) : Damaged s ip s := ⟨fun _ _ => rfl⟩

section

variable (h : Packed c s ip t jp (nblk ip.size))
include h

section

variable (hd : Damaged s ip s')
include hd

lemma Packed.damaged_index (k : ℕ) : s'.word (ip.addrs NDIRECT) k = s.word (ip.addrs NDIRECT) k := by
  refine congrArg (fun x : Block => x.word k) (hd.disk_eq _ fun bn hbn => ?_)
  rw [h.blockOf_eq hbn]
  by_cases hi : ip.addrs NDIRECT = 0
  · rw [hi]
    exact (h.inv.leaf_ne hbn).symm
  · exact (h.plain.leaf_ne_index h.inv.owns (h.lt_MAXFILE hbn) hi).symm

lemma Packed.damaged_entry (bn : ℕ) : entry s' ip bn = entry s ip bn := by
  unfold entry
  rw [h.damaged_index hd]

lemma Packed.damaged_findEntry (b : ℕ) : findEntry s' ip b = findEntry s ip b := by
  unfold findEntry
  rw [h.damaged_index hd]

/-! One call. -/

/-- The first pass decides: `readi` returns there, with nothing copied and the buffer locked. -/
lemma Packed.readi_eq
    (hoff : off < ip.size) (hn : 0 < n) (hend : off + n < 2 ^ 32) :
    readi s' ip off n = .ok ⟨if (checksum (s'.disk (blockOf s ip (off / BSIZE)))).toNat =
      (if off / BSIZE ≤ NDIRECT then sumOf s ip (off / BSIZE) else 0) then 1 else -1, [],
      [blockOf s ip (off / BSIZE)], s', ip⟩ := by
  have hbn : off / BSIZE < nblk ip.size := by
    rw [lt_nblk_iff, BSIZE_eq]
    omega
  have hdev : ip.type ≠ T_DEV := by
    rw [h.type_eq]
    decide
  have hmap : Checksum.bmap s' ip (off / BSIZE) = .ok (blockOf s ip (off / BSIZE), s', ip) := by
    have hent := h.damaged_entry hd (off / BSIZE)
    unfold blockOf
    rw [← hent]
    refine bmap_of_entry (h.lt_MAXFILE hbn) h.type_eq
      (h.plain.index_of_mapped (h.inv.leaf_ne hbn)) ?_
    rw [hent]
    exact h.entry_ne hbn
  have hold : findEntry s ip (blockOf s ip (off / BSIZE)) / 2 ^ 24 =
      if off / BSIZE ≤ NDIRECT then sumOf s ip (off / BSIZE) else 0 := by
    rw [h.findEntry_eq hbn]
    split <;> rfl
  unfold readi
  rw [if_neg hdev, if_neg (by rw [Nat.mod_eq_of_lt hend]; omega)]
  dsimp only
  rw [readiLoop, if_neg (by split <;> omega), hmap, ok_bind]
  dsimp only
  rw [hmap, ok_bind]
  dsimp only
  rw [if_pos h.type_eq, h.damaged_findEntry hd, hold]

end

end

lemma readi_zero (htype : ip.type = T_CHECKED) (hoff : off ≤ ip.size)
    (hn : n = 0 ∨ off = ip.size) (hend : off + n < 2 ^ 32) : readi s ip off n = .ok ⟨0, [], [], s, ip⟩ := by
  unfold readi
  rw [if_neg (by rw [htype]; decide), if_neg (by rw [Nat.mod_eq_of_lt hend]; omega)]
  dsimp only
  have hz : (if ip.size < (off + n) % 2 ^ 32 then ip.size - off else n) = 0 := by
    rw [Nat.mod_eq_of_lt hend]
    split <;> omega
  rw [hz, readiLoop, if_pos rfl]
  rfl

lemma readi_overflow (htype : ip.type = T_CHECKED) (hoff : off < 2 ^ 32) (hn : n < 2 ^ 32)
    (hend : 2 ^ 32 ≤ off + n) : readi s ip off n = .ok ⟨-1, [], [], s, ip⟩ := by
  unfold readi
  rw [if_neg (by rw [htype]; decide), if_pos (by omega)]

/-! Against an ordinary file. -/

/-- `readi` on a checked file acts as on an ordinary one exactly when there is nothing to copy. -/
theorem readi_ordinary_iff (h : NewFile s₀ ip₀)
    (hrun : Run step (fun _ _ => True) (s₀, ip₀) ws (s, ip)) (off n : UInt32) (hoff : off.toNat ≤ ip.size) :
    (∃ r, readi s ip off.toNat n.toNat = .ok r ∧ r.locked = [] ∧
      Reply.data r.count r.data = (arrayExec .stock (stored ws) (.read off n)).1) ↔
      n = 0 ∨ off.toNat = ip.size ∨ 2 ^ 32 ≤ off.toNat + n.toNat := by
  have hw := run_written h hrun
  have hlen : (stored ws).length = ip.size := hw.size_eq
  obtain ⟨c, t, jp, hpack, -⟩ := hw
  have hz : n = 0 ↔ n.toNat = 0 := by
    rw [← UInt32.toNat_inj]
    rfl
  have harray : (arrayExec .stock (stored ws) (.read off n)).1 =
      if off.toNat ≤ (stored ws).length ∧ off.toNat + n.toNat < 2 ^ 32 then
        .data (min n.toNat ((stored ws).length - off.toNat) : ℕ)
          (((stored ws).drop off.toNat).take n.toNat)
      else .data (-1) [] := apply_ite Prod.fst _ _ _
  rw [hz, harray]
  by_cases hover : 2 ^ 32 ≤ off.toNat + n.toNat
  · refine iff_of_true ⟨_, readi_overflow hpack.type_eq off.toNat_lt n.toNat_lt hover, rfl, ?_⟩
      (.inr (.inr hover))
    rw [if_neg (by omega)]
  have hin : off.toNat ≤ (stored ws).length ∧ off.toNat + n.toNat < 2 ^ 32 := by omega
  by_cases hnone : n.toNat = 0 ∨ off.toNat = ip.size
  · refine iff_of_true ⟨_, readi_zero hpack.type_eq hoff hnone hin.2, rfl, ?_⟩ (by tauto)
    have hmin : min n.toNat ((stored ws).length - off.toNat) = 0 := by omega
    have hnil : ((stored ws).drop off.toNat).take n.toNat = [] := by
      apply eq_nil_of_length_eq_zero
      rw [length_take, length_drop]
      exact hmin
    rw [if_pos hin, hmin, hnil]
    rfl
  · refine iff_of_false ?_ (by tauto)
    rintro ⟨r, hr, hlocked, -⟩
    rw [hpack.readi_eq (Damaged.refl s ip) (show off.toNat < ip.size by omega)
      (show 0 < n.toNat by omega) hin.2] at hr
    rw [← Except.ok.inj hr] at hlocked
    cases hlocked

/-- A block written, and a read at the end of the file. -/
theorem readi_at_end : ∃ s₀ ip₀ s ip, NewFile s₀ ip₀ ∧
    Run step (fun _ _ => True) (s₀, ip₀) [writeFirst (oneByte 7)] (s, ip) ∧ ip.size = 512 ∧
    ∃ r, readi s ip 512 1 = .ok r ∧ r.locked = [] ∧
      Reply.data r.count r.data = (arrayExec .stock (stored [writeFirst (oneByte 7)]) (.read 512 1)).1 := by
  obtain ⟨s₀, ip₀, s, ip, hnew, hrun, hsize, -⟩ := exists_firstRun (oneByte 7)
  refine ⟨s₀, ip₀, s, ip, hnew, hrun, hsize, ?_⟩
  exact (readi_ordinary_iff hnew hrun 512 1 hsize.ge).mpr (.inr (.inl hsize.symm))

/-- A block written, and its first byte read: the call succeeds and copies nothing. -/
theorem readi_copies_nothing : ∃ s₀ ip₀ s ip b, NewFile s₀ ip₀ ∧
    Run step (fun _ _ => True) (s₀, ip₀) [writeFirst (oneByte 7)] (s, ip) ∧
    readi s ip 0 1 = .ok ⟨1, [], [b], s, ip⟩ ∧
    (arrayExec .stock (stored [writeFirst (oneByte 7)]) (.read 0 1)).1 = .data 1 [7] := by
  obtain ⟨s₀, ip₀, s, ip, hnew, hrun, hsize, hblock, c, t, jp, hpack⟩ := exists_firstRun (oneByte 7)
  refine ⟨s₀, ip₀, s, ip, blockOf s ip 0, hnew, hrun, ?_, by decide +kernel⟩
  have hsum : sumOf s ip 0 = 7 := by
    rw [hpack.sumOf_eq (by rw [hsize]; decide), hblock]
    decide +kernel
  have hread := hpack.readi_eq (Damaged.refl s ip) (show 0 < ip.size by omega) (show 0 < 1 by decide)
    (by decide)
  rw [show 0 / BSIZE = 0 from rfl, hblock, if_pos (Nat.zero_le NDIRECT), hsum,
    if_pos (by decide +kernel)] at hread
  exact hread

/-! What is reported. -/

/-- The XOR of the bytes of block `bn` of the file. -/
def blockXor (s : State) (ip : Inode) (bn : ℕ) : ℕ := (xorBytes (s.disk (blockOf s ip bn))).toNat

/-- The request for `n` bytes at `off` reaches block `bn`. -/
def Touches (size off n bn : ℕ) : Prop := off / BSIZE ≤ bn ∧ bn * BSIZE < min (off + n) size

/-- The XOR of the block is not the one that its last `writei` left. -/
def Changed (s : State) (ip : Inode) (s' : State) (bn : ℕ) : Prop :=
  blockXor s' ip bn ≠ blockXor s ip bn

lemma Packed.damaged_blockOf (h : Packed c s ip t jp (nblk ip.size)) (hd : Damaged s ip s')
    (bn : ℕ) : blockOf s' ip bn = blockOf s ip bn := by
  unfold blockOf
  rw [h.damaged_entry hd]

lemma blockXor_lt (s : State) (ip : Inode) (bn : ℕ) : blockXor s ip bn < 256 :=
  (xorBytes _).toNat_lt

lemma count_iff {P : Prop} [Decidable P] {d : List UInt8} {l : List ℕ} :
    (∃ r, (.ok ⟨if P then 1 else -1, d, l, s, ip⟩ : Except Panic Read) = .ok r ∧ r.count = -1) ↔
      ¬ P := by
  constructor
  · rintro ⟨r, hr, hc⟩ hP
    rw [← Except.ok.inj hr, if_pos hP] at hc
    cases hc
  · intro hP
    exact ⟨_, rfl, if_neg hP⟩

/-- The error of `readi`: the first block has a XOR with its top bit set or a changed one, and past the
first entry of the index block any XOR but zero. -/
lemma Packed.readi_error_iff (h : Packed c s ip t jp (nblk ip.size)) (hd : Damaged s ip s')
    (hoff : off < ip.size) (hn : 0 < n) (hend : off + n < 2 ^ 32) :
    (∃ r, readi s' ip off n = .ok r ∧ r.count = -1) ↔
      if off / BSIZE ≤ NDIRECT then
        128 ≤ blockXor s' ip (off / BSIZE) ∨ Changed s ip s' (off / BSIZE)
      else blockXor s' ip (off / BSIZE) ≠ 0 := by
  have hbn : off / BSIZE < nblk ip.size := by
    rw [lt_nblk_iff, BSIZE_eq]
    omega
  have hsum : sumOf s ip (off / BSIZE) = blockXor s ip (off / BSIZE) := h.sumOf_eq hbn
  have hlt := blockXor_lt s ip (off / BSIZE)
  have hnow : (xorBytes (s'.disk (blockOf s ip (off / BSIZE)))).toNat =
      blockXor s' ip (off / BSIZE) := by
    unfold blockXor
    rw [h.damaged_blockOf hd]
  rw [h.readi_eq hd hoff hn hend, hsum]
  rw [count_iff, checksum_toNat_eq_iff (by split <;> omega), hnow]
  unfold Changed
  split <;> omega

lemma touches_first (hoff : off < b) (hn : 0 < n) : Touches b off n (off / BSIZE) := by
  refine ⟨le_rfl, ?_⟩
  rw [BSIZE_eq]
  omega

/-- A request reports the changed blocks exactly when its first block does: with a XOR below 128 or a
changed one, past the first entry of the index block with a change from or to zero, and with a report
wherever a later block has changed. -/
theorem readi_reports_changes_iff (h : NewFile s₀ ip₀)
    (hrun : Run step (fun _ _ => True) (s₀, ip₀) ws (s, ip)) (hd : Damaged s ip s')
    (hoff : off < ip.size) (hn : 0 < n) (hend : off + n < 2 ^ 32) :
    ((∃ r, readi s' ip off n = .ok r ∧ r.count = -1) ↔
      ∃ bn, Touches ip.size off n bn ∧ Changed s ip s' bn) ↔
    ((∃ bn, off / BSIZE < bn ∧ Touches ip.size off n bn ∧ Changed s ip s' bn) ∧
      if off / BSIZE ≤ NDIRECT then
        128 ≤ blockXor s' ip (off / BSIZE) ∨ Changed s ip s' (off / BSIZE)
      else blockXor s' ip (off / BSIZE) ≠ 0) ∨
    ((∀ bn, off / BSIZE < bn → Touches ip.size off n bn → ¬ Changed s ip s' bn) ∧
      if off / BSIZE ≤ NDIRECT then
        blockXor s' ip (off / BSIZE) < 128 ∨ Changed s ip s' (off / BSIZE)
      else blockXor s' ip (off / BSIZE) ≠ 0 ↔ Changed s ip s' (off / BSIZE)) := by
  obtain ⟨c, t, jp, hpack, -⟩ := run_written h hrun
  have hany : (∃ bn, Touches ip.size off n bn ∧ Changed s ip s' bn) ↔
      (∃ bn, off / BSIZE < bn ∧ Touches ip.size off n bn ∧ Changed s ip s' bn) ∨
        Changed s ip s' (off / BSIZE) := by
    constructor
    · rintro ⟨bn, htouch, hchanged⟩
      rcases htouch.1.lt_or_eq with hlt | he
      · exact .inl ⟨bn, hlt, htouch, hchanged⟩
      · exact .inr (he ▸ hchanged)
    · rintro (⟨bn, -, h⟩ | h)
      · exact ⟨bn, h⟩
      · exact ⟨_, touches_first hoff hn, h⟩
  have hnone : (∀ bn, off / BSIZE < bn → Touches ip.size off n bn → ¬ Changed s ip s' bn) ↔
      ¬ ∃ bn, off / BSIZE < bn ∧ Touches ip.size off n bn ∧ Changed s ip s' bn := by
    simp only [not_exists, not_and]
  rw [hpack.readi_error_iff hd hoff hn hend, hany, hnone, ← not_le]
  generalize (∃ bn, off / BSIZE < bn ∧ Touches ip.size off n bn ∧ Changed s ip s' bn) = later
  generalize Changed s ip s' (off / BSIZE) = first
  split <;> grind

/-- A block overwritten by other means, and the error for it. -/
theorem readi_reports_damage : ∃ s₀ ip₀ s ip s', NewFile s₀ ip₀ ∧
    Run step (fun _ _ => True) (s₀, ip₀) [writeFirst (oneByte 7)] (s, ip) ∧ Damaged s ip s' ∧
    Changed s ip s' 0 ∧ ∃ r, readi s' ip 0 1 = .ok r ∧ r.count = -1 := by
  obtain ⟨s₀, ip₀, s, ip, hnew, hrun, hsize, hblock, c, t, jp, hpack⟩ := exists_firstRun (oneByte 7)
  have hd : Damaged s ip (s.logWrite (blockOf s ip 0) (oneByte 5)) := by
    refine ⟨fun b hb => Kernel.logWrite_disk_of_ne (hb 0 ?_)⟩
    rw [hsize]
    decide
  have hxor : blockXor (s.logWrite (blockOf s ip 0) (oneByte 5)) ip 0 = 5 := by
    unfold blockXor
    rw [hpack.damaged_blockOf hd, Kernel.logWrite_disk_self]
    decide +kernel
  have hchanged : Changed s ip (s.logWrite (blockOf s ip 0) (oneByte 5)) 0 := by
    unfold Changed
    rw [hxor]
    unfold blockXor
    rw [hblock]
    decide +kernel
  refine ⟨s₀, ip₀, s, ip, _, hnew, hrun, hd, hchanged, ?_⟩
  refine ((readi_reports_changes_iff hnew hrun hd (show 0 < ip.size by omega) (by decide)
    (by decide)).mpr (.inr ⟨fun bn hlt htouch => ?_, .inr hchanged⟩)).mpr
    ⟨0, touches_first (by omega) (by decide), hchanged⟩
  have h0 := hlt
  have h2 := htouch.2
  rw [BSIZE_eq] at h0 h2
  omega

/-- A block that is as it was written, with 128 for its XOR. -/
theorem readi_reports_unchanged : ∃ s₀ ip₀ s ip, NewFile s₀ ip₀ ∧
    Run step (fun _ _ => True) (s₀, ip₀) [writeFirst (oneByte 128)] (s, ip) ∧
    ¬ ((∃ r, readi s ip 0 1 = .ok r ∧ r.count = -1) ↔ ∃ bn, Touches ip.size 0 1 bn ∧ Changed s ip s bn) := by
  obtain ⟨s₀, ip₀, s, ip, hnew, hrun, hsize, hblock, c, t, jp, hpack⟩ := exists_firstRun (oneByte 128)
  refine ⟨s₀, ip₀, s, ip, hnew, hrun, fun hiff => ?_⟩
  have herror : ∃ r, readi s ip 0 1 = .ok r ∧ r.count = -1 := by
    rw [hpack.readi_error_iff (Damaged.refl s ip) (show 0 < ip.size by omega) (by decide) (by decide)]
    refine .inl ?_
    unfold blockXor
    rw [show 0 / BSIZE = 0 from rfl, hblock]
    decide +kernel
  obtain ⟨bn, -, hchanged⟩ := hiff.mp herror
  exact hchanged rfl

/-! The checksum that `stati` reports. -/

variable {x : ℕ} {f g : ℕ → ℕ}

/-- The loops of `stati`, over `n` words with these bytes. -/
def xors (x : ℕ) (f : ℕ → ℕ) (n : ℕ) : ℕ := (List.range n).foldl (fun checksum i => checksum ^^^ f i) x

/-- `(w >> 24) & 0xff` -/
def highByte (w : ℕ) : ℕ := w / 2 ^ 24 % 256

/-- What `stati` puts into `st->checksum`, if anything. Of the index block it reads the one that
`ip->addrs[NINDIRECT]` names: a word `w` behind the array. -/
def stati (w : ℕ) (s : State) (ip : Inode) : Except Fault (Option ℕ) :=
  if ip.type = T_CHECKED then
    let checksum := xors 0 (fun i => highByte (ip.addrs i)) NDIRECT
    if ip.addrs NDIRECT ≠ 0 then
      if FSSIZE ≤ w then .error (.incorrectBlockno w)
      else .ok (some (xors checksum (fun i => highByte (s.word w i)) NINDIRECT % 256))
    else .ok (some (checksum % 256))
  else .ok none

/-- The XOR of the checksum bytes of all blocks of the file. -/
def fileSum (s : State) (ip : Inode) : ℕ := xors 0 (fun bn => highByte (entry s ip bn)) (nblk ip.size)

lemma xors_succ : xors x f (n + 1) = xors x f n ^^^ f n := by
  unfold xors
  rw [range_succ, foldl_append]
  rfl

lemma xors_congr (h : ∀ i, i < n → f i = g i) : xors x f n = xors x g n := by
  induction n with
  | zero => rfl
  | succ n ih => rw [xors_succ, xors_succ, ih fun i hi => h i (by omega), h n (by omega)]

lemma xors_of_zero (hmn : m ≤ n) (hz : ∀ i, m ≤ i → i < n → f i = 0) : xors x f n = xors x f m := by
  induction n, hmn using Nat.le_induction with
  | base => rfl
  | succ n hn ih => rw [xors_succ, ih fun i hi hin => hz i hi (by omega), hz n hn (by omega), Nat.xor_zero]

lemma xors_lt (hx : x < 2 ^ 8) (hf : ∀ i, f i < 2 ^ 8) : xors x f n < 2 ^ 8 := by
  induction n with
  | zero => exact hx
  | succ n ih =>
    rw [xors_succ]
    exact Nat.xor_lt_two_pow ih (hf n)

lemma Packed.index_iff (h : Packed c s ip t jp m) : ip.addrs NDIRECT ≠ 0 ↔ NDIRECT < m := by
  rw [← h.plain.index]
  refine (h.inv.mapped (NDIRECT, []) (Lab.slot_mem (L := .stock) le_rfl)).trans ?_
  constructor
  · rintro ⟨bn, hbn, hslot, -⟩
    by_contra hle
    have hd : bn < NDIRECT := by omega
    change NDIRECT = (path bn).1 at hslot
    rw [path_direct hd] at hslot
    exact hd.ne hslot.symm
  · exact fun hlt => ⟨NDIRECT, hlt, rfl, nil_prefix⟩

lemma Packed.stati_iff (h : Packed c s ip t jp (nblk ip.size)) :
    (∀ w, stati w s ip = .ok (some (fileSum s ip))) ↔ ip.size ≤ NDIRECT * BSIZE := by
  rw [← nblk_le_iff, ← not_lt, ← h.index_iff, not_ne_iff]
  constructor
  · intro hall
    by_contra hne
    have hw := hall FSSIZE
    rw [stati, if_pos h.type_eq, if_pos hne, if_pos le_rfl] at hw
    cases hw
  · intro hzero w
    have hle := not_lt.mp fun hlt => h.index_iff.mpr hlt hzero
    rw [stati, if_pos h.type_eq, if_neg (not_not.mpr hzero)]
    -- the entries past the end of the file hold no checksum
    have hsum : xors 0 (fun i => highByte (ip.addrs i)) NDIRECT = fileSum s ip := by
      rw [xors_of_zero hle, fileSum]
      · refine xors_congr fun i hi => ?_
        rw [entry, if_pos (hi.trans_le hle)]
      · intro i hi hlt
        have hmax : i < MAXFILE := hlt.trans (by decide)
        have hc := h.plain.sum_absent hmax (not_not.mp fun hne => hi.not_gt ((h.inv.leaf_iff hmax).mp hne))
        rw [highByte, (h.plain.direct i hlt).div_eq, hc]
    have hlt : fileSum s ip < 256 := xors_lt (by decide) fun i => Nat.mod_lt _ (by decide)
    rw [hsum, Nat.mod_eq_of_lt hlt]

/-- Whatever stands behind the array, the checksum of a file is reported if the file has no index
block, and only then. -/
theorem stati_right_iff (h : NewFile s₀ ip₀) (hrun : Run step (fun _ _ => True) (s₀, ip₀) ws (s, ip)) :
    (∀ w, stati w s ip = .ok (some (fileSum s ip))) ↔ ip.size ≤ NDIRECT * BSIZE := by
  obtain ⟨c, t, jp, hpack, -⟩ := run_written h hrun
  exact hpack.stati_iff

theorem one_block_reported : ∃ s₀ ip₀ s ip, NewFile s₀ ip₀ ∧
    Run step (fun _ _ => True) (s₀, ip₀) [writeFirst (oneByte 7)] (s, ip) ∧
    ∀ w, stati w s ip = .ok (some (fileSum s ip)) := by
  obtain ⟨s₀, ip₀, s, ip, hnew, hrun, hsize, -⟩ := exists_firstRun (oneByte 7)
  refine ⟨s₀, ip₀, s, ip, hnew, hrun, (stati_right_iff hnew hrun).mpr ?_⟩
  rw [hsize]
  decide

/-- Thirteen blocks, and a word behind the array that is no block of the disk. -/
theorem thirteen_blocks_fail : ∃ s₀ ip₀ s ip, NewFile s₀ ip₀ ∧
    Run step (fun _ _ => True) (s₀, ip₀) [⟨fun _ => 1, 0, 6656⟩] (s, ip) ∧ ip.size = 6656 ∧
    stati FSSIZE s ip = .error (.incorrectBlockno FSSIZE) := by
  obtain ⟨s₀, ip₀, hnew, -, hroom⟩ := exists_newFile
  obtain ⟨⟨s, ip⟩, hs⟩ := hnew.write_ok ⟨fun _ => 1, 0, 6656⟩ rfl
    (show (6656 : UInt32).toNat ≤ MAXFILE * BSIZE by decide)
    (le_trans (show 4 * nblk (6656 : UInt32).toNat ≤ 4 * MAXFILE by decide) hroom)
  have hw : Written [⟨fun _ => 1, 0, 6656⟩] (s, ip) := hnew.written.step hs
  have hsize : ip.size = 6656 := by
    rw [← hw.size_eq]
    simp only [stored, foldl_cons, foldl_nil, overwrite, length_append, length_map,
      length_range, take_nil, drop_nil, length_nil]
    rfl
  obtain ⟨c, t, jp, hpack, -⟩ := hw
  refine ⟨s₀, ip₀, s, ip, hnew, .tail .refl trivial hs, hsize, ?_⟩
  rw [stati, if_pos hpack.type_eq, if_pos (hpack.index_iff.mpr (by rw [hsize]; decide)), if_pos le_rfl]

end LearnXv6.Checksum
