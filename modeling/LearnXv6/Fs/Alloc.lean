import LearnXv6.Fs.Kernel

/-! `bmap` of every tree is one walk along the path of the block. -/
namespace LearnXv6.Fs.Kernel

variable {L : Lab} {s s' : State} {ip ip' : Inode} {a bn k : ℕ} {ks : List ℕ}

/-- Follow index entries from block `a`, allocating the missing ones. -/
def walkFrom (s : State) (a : ℕ) : List ℕ → Except Panic (ℕ × State)
  | [] => .ok (a, s)
  | k :: ks => do
    let (a, s) ← indirectEntry s a k
    walkFrom s a ks

/-- Follow a slot of `addrs` and then index entries, allocating the missing ones. -/
def walk (s : State) (ip : Inode) (p : ℕ × List ℕ) : Except Panic (ℕ × State × Inode) := do
  let (a, s, ip) ← addrEntry s ip p.1
  let (a, s) ← walkFrom s a p.2
  .ok (a, s, ip)

lemma walkFrom_cons_bind {α : Type} (j : ℕ) (f : ℕ × State → Except Panic α) :
    walkFrom s a (j :: ks) >>= f = indirectEntry s a j >>= fun x => walkFrom x.2 x.1 ks >>= f :=
  bind_assoc _ _ _

lemma walk_nil : walk s ip (k, []) = addrEntry s ip k := by
  unfold walk walkFrom
  cases addrEntry s ip k <;> rfl

lemma walk_single (j : ℕ) : walk s ip (k, [j]) = (do
    let (addr, s, ip) ← addrEntry s ip k
    let (addr, s) ← indirectEntry s addr j
    .ok (addr, s, ip)) := by
  refine bind_congr fun ⟨a, s, ip⟩ => ?_
  exact (walkFrom_cons_bind j _).trans (bind_congr fun ⟨a, s⟩ => rfl)

lemma walk_pair (i j : ℕ) : walk s ip (k, [i, j]) = (do
    let (addr, s, ip) ← addrEntry s ip k
    let (addr, s) ← indirectEntry s addr i
    let (addr, s) ← indirectEntry s addr j
    .ok (addr, s, ip)) := by
  refine bind_congr fun ⟨a, s, ip⟩ => ?_
  refine (walkFrom_cons_bind i _).trans (bind_congr fun ⟨a, s⟩ => ?_)
  exact (walkFrom_cons_bind j _).trans (bind_congr fun ⟨a, s⟩ => rfl)

lemma walk_triple (i j l : ℕ) : walk s ip (k, [i, j, l]) = (do
    let (addr, s, ip) ← addrEntry s ip k
    let (addr, s) ← indirectEntry s addr i
    let (addr, s) ← indirectEntry s addr j
    let (addr, s) ← indirectEntry s addr l
    .ok (addr, s, ip)) := by
  refine bind_congr fun ⟨a, s, ip⟩ => ?_
  refine (walkFrom_cons_bind i _).trans (bind_congr fun ⟨a, s⟩ => ?_)
  refine (walkFrom_cons_bind j _).trans (bind_congr fun ⟨a, s⟩ => ?_)
  exact (walkFrom_cons_bind l _).trans (bind_congr fun ⟨a, s⟩ => rfl)

lemma skipIndirect_eq (i bn : ℕ) : skipIndirect i bn = (i + bn / NINDIRECT, bn % NINDIRECT) := by
  rw [NINDIRECT_eq]
  induction bn using Nat.strong_induction_on generalizing i with
  | _ bn ih =>
    unfold skipIndirect
    rw [NINDIRECT_eq]
    split
    · rw [ih (bn - 128) (by omega)]
      ext <;> simp only <;> omega
    · ext <;> simp only <;> omega

lemma bmap_eq_walk (h : bn < L.MAXFILE) : bmap L s ip bn = walk s ip (L.path bn) := by
  by_cases hd : bn < L.NDIRECT
  · rw [Lab.path_of_lt_NDIRECT hd, walk_nil]
    cases L <;> simp [bmap, bmapStock, bmapIsingle, bmapIdouble, bmapItriple, bmapReverse, hd]
  cases L with
  | stock =>
    have h : bn < 140 := h
    have hd : ¬ bn < 12 := hd
    have hp : Lab.stock.path bn = (12, [bn - 12]) := by simp [Lab.path, hd]
    have hn : bn - 12 < 128 := by omega
    rw [hp, walk_single]
    simp [bmap, bmapStock, Lab.NDIRECT, hd, NINDIRECT_eq, hn]
  | isingle =>
    have h : bn < 394 := h
    have hd : ¬ bn < 10 := hd
    have hp : Lab.isingle.path bn = (10 + (bn - 10) / 128, [(bn - 10) % 128]) := by
      simp [Lab.path, hd, NINDIRECT_eq]
    have hn : ¬ 3 ≤ (bn - 10) / 128 := by omega
    rw [hp, walk_single]
    simp [bmap, bmapIsingle, Lab.NDIRECT, Lab.MAXINDIRECT, hd, skipIndirect_eq, NINDIRECT_eq, hn]
  | idouble =>
    have h : bn < 648 := h
    have hd : ¬ bn < 12 := hd
    have hm : Lab.idouble.MAXFILE - 12 = 636 := rfl
    have hib : Lab.idouble.NDIRECTIB = 124 := rfl
    have hlt : bn - 12 < 636 := by omega
    have hmod := Nat.mod_lt (bn - 12 - 124) (show 0 < 128 by omega)
    by_cases hn : bn - 12 < 124
    · have hp : Lab.idouble.path bn = (12, [bn - 12]) := by simp [Lab.path, doublePath, hd, hib, hn]
      rw [hp, walk_single]
      simp [bmap, bmapIdouble, Lab.NDIRECT, hd, hm, hib, hn, hlt]
    · have hp : Lab.idouble.path bn =
          (12, [124 + (bn - 12 - 124) / 128, (bn - 12 - 124) % 128]) := by
        simp [Lab.path, doublePath, hd, hib, hn, NINDIRECT_eq]
      rw [hp, walk_pair]
      simp [bmap, bmapIdouble, Lab.NDIRECT, hd, hm, hib, hn, hlt, NINDIRECT_eq, hmod]
  | itriple =>
    have h : bn < 902 := h
    have hd : ¬ bn < 12 := hd
    have hib : Lab.itriple.NDIRECTIB = 126 := rfl
    have hii : Lab.itriple.NINDIRECTIB = 2 := rfl
    have hlt : bn - 12 < 890 := by omega
    have hmod := Nat.mod_lt ((bn - 12 - 126) % 382) (show 0 < 128 by omega)
    by_cases hn : bn - 12 < 126
    · have hp : Lab.itriple.path bn = (12, [bn - 12]) := by simp [Lab.path, triplePath, hd, hib, hn]
      rw [hp, walk_single]
      simp [bmap, bmapItriple, Lab.NDIRECT, hd, hib, hii, hn, hlt, NINDIRECT_eq]
    by_cases ho : (bn - 12 - 126) % 382 < 126
    · have hp : Lab.itriple.path bn =
          (12, [126 + (bn - 12 - 126) / 382, (bn - 12 - 126) % 382]) := by
        simp [Lab.path, triplePath, hd, hib, hii, hn, ho, NINDIRECT_eq]
      rw [hp, walk_pair]
      simp [bmap, bmapItriple, Lab.NDIRECT, hd, hib, hii, hn, ho, hlt, NINDIRECT_eq]
    · have hp : Lab.itriple.path bn = (12, [126 + (bn - 12 - 126) / 382,
          126 + ((bn - 12 - 126) % 382 - 126) / 128, (bn - 12 - 126) % 382 % 128]) := by
        simp [Lab.path, triplePath, hd, hib, hii, hn, ho, NINDIRECT_eq]
      rw [hp, walk_triple]
      simp [bmap, bmapItriple, Lab.NDIRECT, hd, hib, hii, hn, ho, hlt, NINDIRECT_eq, hmod]
  | reverse =>
    have h : bn < 16396 := h
    have hd : ¬ bn < 12 := hd
    have hlt : bn - 12 < 16384 := by omega
    have hrow : (bn - 12) / 128 % 65536 = (bn - 12) / 128 := by omega
    have hcol : (bn - 12) % 128 % 65536 = (bn - 12) % 128 := by omega
    have hp : Lab.reverse.path bn = (12, [(bn - 12) / 128, (bn - 12) % 128]) := by
      simp [Lab.path, doublePath, hd, NINDIRECT_eq]
    rw [hp, walk_pair]
    simp [bmap, bmapReverse, Lab.NDIRECT, hd, hlt, NINDIRECT_eq, hrow, hcol]

/-! The free map. -/

open Superblock

variable {s s' : State} {b f : ℕ} {v : Block}

@[simp] lemma logWrite_sb (s : State) (b : ℕ) (v : Block) : (s.logWrite b v).sb = s.sb := rfl
@[simp] lemma logWrite_disk_self (s : State) (b : ℕ) (v : Block) :
    (s.logWrite b v).disk b = v := by simp [State.logWrite]
lemma logWrite_disk_of_ne {c : ℕ} (h : c ≠ b) : (s.logWrite b v).disk c = s.disk c := by
  simp [State.logWrite, h]

/-- The layout that `mkfs` promises: the super block on disk, the areas in order and the meta
blocks marked in the free map. `balloc` counts the blocks in an `int`. -/
structure Valid (s : State) : Prop where
  sb_disk : Superblock.read (s.disk 1) = s.sb
  super_lt : 1 < s.sb.inodestart
  inode_le : s.sb.inodestart ≤ s.sb.bmapstart
  size_le : s.sb.size ≤ 2 ^ 31
  data_le : s.sb.datastart ≤ s.sb.size
  meta_used : ∀ b, b < s.sb.datastart → s.used b = true

lemma Valid.lt_of_lt_size (hv : Valid s) (h : b < s.sb.size) : b < 2 ^ 32 :=
  (h.trans_le hv.size_le).trans (by decide)

lemma bblock_lt_datastart {sb : Superblock} (h : b < sb.size) : sb.bblock b < sb.datastart := by
  have := Nat.div_le_div_right (c := BPB) h.le
  simp only [bblock, datastart]
  omega

lemma bmapstart_le_bblock (sb : Superblock) (b : ℕ) : sb.bmapstart ≤ sb.bblock b := by
  simp [bblock]

lemma bmapstart_lt_datastart (sb : Superblock) : sb.bmapstart < sb.datastart := by
  have := Nat.zero_le (sb.size / BPB)
  simp only [datastart]
  omega

lemma used_logWrite_of_ne (h : s.sb.bblock b ≠ f) : (s.logWrite f v).used b = s.used b := by
  simp [State.used, logWrite_disk_of_ne h]

lemma mod_bpb_inj (h : b / BPB = f / BPB) : b % BPB = f % BPB ↔ b = f := by
  have h1 := Nat.div_add_mod b BPB
  have h2 := Nat.div_add_mod f BPB
  rw [h] at h1
  constructor
  · intro he
    omega
  · rintro rfl
    rfl

lemma used_logWrite_setBit (h : b / BPB = f / BPB) :
    (s.logWrite (s.sb.bblock f) ((s.disk (s.sb.bblock f)).setBit (f % BPB))).used b =
      (decide (b = f) || s.used b) := by
  have hb : s.sb.bblock b = s.sb.bblock f := by simp [bblock, h]
  have hlt : f % BPB < 8 * BSIZE := Nat.mod_lt _ (by decide)
  simp only [State.used, logWrite_sb, hb, logWrite_disk_self, Store.Block.bit_setBit hlt]
  simp only [mod_bpb_inj h]

lemma used_logWrite_clearBit (h : b / BPB = f / BPB) :
    (s.logWrite (s.sb.bblock f) ((s.disk (s.sb.bblock f)).clearBit (f % BPB))).used b =
      (!decide (b = f) && s.used b) := by
  have hb : s.sb.bblock b = s.sb.bblock f := by simp [bblock, h]
  have hlt : f % BPB < 8 * BSIZE := Nat.mod_lt _ (by decide)
  simp only [State.used, logWrite_sb, hb, logWrite_disk_self, Store.Block.bit_clearBit hlt]
  simp only [mod_bpb_inj h]

/-! `balloc` -/

lemma ballocBlock_some {bi : ℕ} (h : ballocBlock s b = some bi) :
    bi < BPB ∧ b + bi < s.sb.size ∧ (s.disk (s.sb.bblock b)).bit bi = false := by
  have hp := List.find?_some h
  have hm := List.mem_of_find?_eq_some h
  simp at hp hm
  exact ⟨hm, hp⟩

lemma balloc_ok (h : balloc s = .ok (f, s')) : f < s.sb.size ∧ s.used f = false ∧
      s' = (s.logWrite (s.sb.bblock f) ((s.disk (s.sb.bblock f)).setBit (f % BPB))).logWrite f 0 := by
  unfold balloc at h
  split at h
  · cases h
  · rename_i b bi hfind
    obtain ⟨q, _, hq⟩ := List.exists_of_findSome?_eq_some hfind
    rw [Option.map_eq_some_iff] at hq
    obtain ⟨c, hc, he⟩ := hq
    obtain ⟨rfl, rfl⟩ := Prod.mk.inj he
    obtain ⟨hlt, hsize, hbit⟩ := ballocBlock_some hc
    cases h
    have hpos : 0 < BPB := by decide
    have hdiv : (q * BPB + c) / BPB = q := by
      rw [Nat.mul_comm, Nat.mul_add_div hpos, Nat.div_eq_of_lt hlt, Nat.add_zero]
    have hdiv' : q * BPB / BPB = q := Nat.mul_div_cancel _ hpos
    have hmod : (q * BPB + c) % BPB = c := by
      rw [Nat.mul_comm, Nat.mul_add_mod, Nat.mod_eq_of_lt hlt]
    have hblock : s.sb.bblock (q * BPB + c) = s.sb.bblock (q * BPB) := by
      simp only [bblock, hdiv, hdiv']
    refine ⟨hsize, ?_, ?_⟩
    · rw [State.used, hblock, hmod, hbit]
    · rw [hblock, hmod]

lemma balloc_error {e : Panic} (h : balloc s = .error e) : e = .outOfBlocks := by
  unfold balloc at h
  split at h
  · exact (Except.error.inj h).symm
  · cases h

structure Fresh (s : State) (f : ℕ) (s' : State) : Prop where
  lt_size : f < s.sb.size
  datastart_le : s.sb.datastart ≤ f
  unused : s.used f = false
  sb_eq : s'.sb = s.sb
  devsw_eq : s'.devsw = s.devsw
  zero : s'.disk f = 0
  used_eq : ∀ b, b < s.sb.size → s'.used b = (decide (b = f) || s.used b)
  low_eq : ∀ b, b < s.sb.bmapstart → s'.disk b = s.disk b
  data_eq : ∀ b, s.sb.datastart ≤ b → b ≠ f → s'.disk b = s.disk b

lemma Valid.balloc (hv : Valid s) (h : balloc s = .ok (f, s')) : Fresh s f s' := by
  obtain ⟨hlt, hun, rfl⟩ := balloc_ok h
  have hdata : s.sb.datastart ≤ f := by
    by_contra hc
    have := hv.meta_used f (by omega)
    simp_all
  have hbf := bblock_lt_datastart hlt
  refine ⟨hlt, hdata, hun, rfl, rfl, by simp, ?_, ?_, ?_⟩
  · intro b hb
    have hbb := bblock_lt_datastart hb
    rw [used_logWrite_of_ne (by simp only [logWrite_sb]; omega)]
    by_cases hq : b / BPB = f / BPB
    · exact used_logWrite_setBit hq
    · have hne : s.sb.bblock b ≠ s.sb.bblock f := by
        simp only [bblock]
        omega
      have hbf : b ≠ f := by
        rintro rfl
        exact hq rfl
      simp [used_logWrite_of_ne hne, hbf]
  · intro b hb
    have := bmapstart_le_bblock s.sb f
    rw [logWrite_disk_of_ne (by omega), logWrite_disk_of_ne (by omega)]
  · intro b hb hne
    rw [logWrite_disk_of_ne hne, logWrite_disk_of_ne (by omega)]

lemma Fresh.valid (hf : Fresh s f s') (hv : Valid s) : Valid s' := by
  have h1 := lt_of_lt_of_le hv.super_lt hv.inode_le
  have hsb := hf.sb_eq
  refine ⟨?_, by simpa [hsb] using hv.super_lt, by simpa [hsb] using hv.inode_le,
    by simpa [hsb] using hv.size_le, by simpa [hsb] using hv.data_le, ?_⟩
  · rw [hf.low_eq 1 h1, hsb]
    exact hv.sb_disk
  · intro b hb
    rw [hsb] at hb
    rw [hf.used_eq b (lt_of_lt_of_le hb hv.data_le), hv.meta_used b hb, Bool.or_true]

lemma used_logWrite_data (hb : s.sb.datastart ≤ b) {c : ℕ} (hc : c < s.sb.size) :
    (s.logWrite b v).used c = s.used c := by
  have := bblock_lt_datastart hc
  exact used_logWrite_of_ne (by omega)

lemma Valid.logWrite_data (hv : Valid s) (hb : s.sb.datastart ≤ b) : Valid (s.logWrite b v) := by
  have h1 := lt_of_lt_of_le hv.super_lt hv.inode_le
  have h2 := bmapstart_lt_datastart s.sb
  refine ⟨?_, hv.super_lt, hv.inode_le, hv.size_le, hv.data_le, ?_⟩
  · rw [logWrite_disk_of_ne (by omega)]
    exact hv.sb_disk
  · intro c hc
    rw [used_logWrite_data hb (lt_of_lt_of_le hc hv.data_le)]
    exact hv.meta_used c hc

lemma Valid.logWrite_inode (hv : Valid s) (hb : s.sb.inodestart ≤ b) (hb' : b < s.sb.bmapstart) :
    Valid (s.logWrite b v) := by
  refine ⟨?_, hv.super_lt, hv.inode_le, hv.size_le, hv.data_le, ?_⟩
  · have := hv.super_lt
    rw [logWrite_disk_of_ne (by omega)]
    exact hv.sb_disk
  · intro c hc
    have := bmapstart_le_bblock s.sb c
    rw [used_logWrite_of_ne (by omega)]
    exact hv.meta_used c hc

/-! `bfree` -/

lemma Valid.bfree (hv : Valid s) (hu : s.used b = true) :
    bfree s b = .ok (s.logWrite (s.sb.bblock b) ((s.disk (s.sb.bblock b)).clearBit (b % BPB))) := by
  have hs : { s with sb := read (s.disk 1) } = s := by rw [hv.sb_disk]
  change (fun t : State => if (t.disk (t.sb.bblock b)).bit (b % BPB) = false then
      Except.error Panic.freeingFreeBlock else
      .ok (t.logWrite (t.sb.bblock b) ((t.disk (t.sb.bblock b)).clearBit (b % BPB))))
    { s with sb := read (s.disk 1) } = _
  rw [hs]
  exact if_neg (by simpa [State.used] using hu)

end LearnXv6.Fs.Kernel
