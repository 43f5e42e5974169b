import LearnXv6.Checksum.Model
import LearnXv6.Store.Alike
import LearnXv6.Fs.ByteArray

/-! Checksum bytes and the words that they share with block addresses. -/
namespace LearnXv6.Checksum
open Fs

variable {b : Block} {a w : ℕ} {c : UInt8}

/-- The XOR of the bytes of a block. -/
def xorBytes (b : Block) : UInt8 := (List.range BSIZE).foldl (fun x i => x ^^^ b.byte i) 0

lemma xorBytes_zero : xorBytes 0 = 0 := by simp [xorBytes]

lemma extend_xor (c d : UInt8) : extend (c ^^^ d) = extend c ^^^ extend d := by
  simp [extend, BitVec.signExtend_xor]

/-- The sign does not get lost: the loop computes the extended XOR. -/
lemma checksum_eq (b : Block) : checksum b = extend (xorBytes b) := by
  have hfold : ∀ (l : List ℕ) (c : UInt8),
      l.foldl (fun checksum i => checksum ^^^ extend (b.byte i)) (extend c) =
        extend (l.foldl (fun x i => x ^^^ b.byte i) c) := by
    intro l
    induction l with
    | nil => exact fun _ => rfl
    | cons i l ih =>
      intro c
      rw [List.foldl_cons, List.foldl_cons, ← extend_xor, ih]
  exact hfold (List.range BSIZE) 0

lemma shift_extend (c : UInt8) : (extend c <<< 24).toNat = c.toNat * 2 ^ 24 := by
  have h : ∀ c : BitVec 8, ((c.signExtend 32) <<< 24).toNat = c.toNat * 2 ^ 24 := by decide +kernel
  exact h c.toBitVec

lemma pack_eq (ha : a < 2 ^ 24) (c : UInt8) : pack a (extend c) = a + c.toNat * 2 ^ 24 := by
  have := c.toNat_lt
  unfold pack
  rw [shift_extend, Nat.mod_eq_of_lt (by omega)]

lemma pack_lt (a : ℕ) (x : BitVec 32) : pack a x < 2 ^ 32 := Nat.mod_lt _ (by decide)

/-- A checksum with its upper bits set is never found in an entry. -/
lemma checksum_toNat_eq_iff (hw : w < 256) :
    (checksum b).toNat = w ↔ (xorBytes b).toNat < 128 ∧ (xorBytes b).toNat = w := by
  have h : ∀ c : BitVec 8, (c.signExtend 32).toNat =
      if c.toNat < 128 then c.toNat else c.toNat + (2 ^ 32 - 256) := by decide +kernel
  have hc : (checksum b).toNat = if (xorBytes b).toNat < 128 then (xorBytes b).toNat
      else (xorBytes b).toNat + (2 ^ 32 - 256) := by
    rw [checksum_eq]
    exact h (xorBytes b).toBitVec
  rw [hc]
  split <;> omega

/-! A checked file as an ordinary one. -/

open Store Fs.Kernel

variable {s t : State} {ip jp : Inode} {a b bn f k w v : ℕ} {c : ℕ → ℕ}

lemma setAddr_self : (ip.setAddr k v).addrs k = v := by simp [Inode.setAddr]

lemma setAddr_of_ne {j : ℕ} (h : j ≠ k) : (ip.setAddr k v).addrs j = ip.addrs j := by
  simp [Inode.setAddr, h]

/-- The entry `w` holds the address `v` and the checksum `c`. -/
structure Codes (c w v : ℕ) : Prop where
  eq : w = v + c * 2 ^ 24
  lt : v < 2 ^ 24
  zero : v = 0 → c = 0

lemma Codes.of_lt (h : v < 2 ^ 24) : Codes 0 v v := ⟨by omega, h, fun _ => rfl⟩

lemma Codes.eq_zero_iff {c : ℕ} (h : Codes c w v) : w = 0 ↔ v = 0 := by
  have := h.eq
  have := h.zero
  constructor <;> omega

lemma Codes.mask_eq {c : ℕ} (h : Codes c w v) : mask w = v := by
  have := h.eq
  have := h.lt
  unfold mask
  omega

lemma Codes.div_eq {c : ℕ} (h : Codes c w v) : w / 2 ^ 24 = c := by
  have := h.eq
  have := h.lt
  omega

/-- The state `t` and the inode `jp` are `s` and `ip` without the checksum bytes `c`; the inode blocks,
which the block map does not read, may differ. -/
structure Plain (c : ℕ → ℕ) (s : State) (ip : Inode) (t : State) (jp : Inode) : Prop where
  sb_eq : t.sb = s.sb
  inode_eq : jp = { ip with addrs := jp.addrs }
  direct : ∀ k, k < NDIRECT → Codes (c k) (ip.addrs k) (jp.addrs k)
  index : jp.addrs NDIRECT = ip.addrs NDIRECT
  word : ip.addrs NDIRECT ≠ 0 → ∀ k, k < NINDIRECT →
    Codes (c (NDIRECT + k)) (s.word (ip.addrs NDIRECT) k) (t.word (ip.addrs NDIRECT) k)
  absent : ip.addrs NDIRECT = 0 → ∀ k, k < NINDIRECT → c (NDIRECT + k) = 0
  disk : ∀ b, b < s.sb.inodestart ∨ s.sb.bmapstart ≤ b →
    (ip.addrs NDIRECT ≠ 0 → b ≠ ip.addrs NDIRECT) → t.disk b = s.disk b

lemma Plain.refl (hdirect : ∀ k, k < NDIRECT → ip.addrs k < 2 ^ 24)
    (hindex : ip.addrs NDIRECT = 0) : Plain (fun _ => 0) s ip s ip where
  sb_eq := rfl
  inode_eq := rfl
  direct := fun k hk => Codes.of_lt (hdirect k hk)
  index := rfl
  word := fun h => absurd hindex h
  absent := fun _ _ _ => rfl
  disk := fun _ _ _ => rfl

lemma Plain.type_eq (hp : Plain c s ip t jp) : jp.type = ip.type := by rw [hp.inode_eq]

lemma Plain.size_eq (hp : Plain c s ip t jp) : jp.size = ip.size := by rw [hp.inode_eq]

lemma Plain.inum_eq (hp : Plain c s ip t jp) : jp.inum = ip.inum := by rw [hp.inode_eq]

lemma owned_index (ho : Owns .stock t jp) (h : jp.addrs NDIRECT ≠ 0) :
    t.sb.datastart ≤ jp.addrs NDIRECT ∧ jp.addrs NDIRECT < t.sb.size ∧ t.used (jp.addrs NDIRECT) = true :=
  ho.owned (NDIRECT, []) (Lab.slot_mem (L := .stock) le_rfl) h

/-! Allocation. -/

/-- What `balloc` does for the block that it finds. -/
def fill (s : State) (f : ℕ) : State :=
  (s.logWrite (s.sb.bblock f) ((s.disk (s.sb.bblock f)).setBit (f % BPB))).logWrite f 0

lemma findSome?_congr {α β : Type} {p q : α → Option β} {l : List α} (h : ∀ x ∈ l, p x = q x) :
    l.findSome? p = l.findSome? q := by
  induction l with
  | nil => rfl
  | cons x l ih =>
    rw [List.findSome?_cons, List.findSome?_cons, h x (by simp), ih fun y hy => h y (by simp [hy])]

/-- The number that `balloc` returns. -/
def freeBlock (s : State) : Option ℕ :=
  (List.range ((s.sb.size + BPB - 1) / BPB)).findSome? fun q =>
    (ballocBlock s (q * BPB)).map fun bi => q * BPB + bi

lemma balloc_freeBlock (s : State) : (balloc s).toOption.map Prod.fst = freeBlock s := by
  have hmap : freeBlock s = ((List.range ((s.sb.size + BPB - 1) / BPB)).findSome? fun q =>
      (ballocBlock s (q * BPB)).map fun bi => (q * BPB, bi)).map fun x => x.1 + x.2 := by
    unfold freeBlock
    generalize List.range ((s.sb.size + BPB - 1) / BPB) = l
    induction l with
    | nil => rfl
    | cons q l ih =>
      simp only [List.findSome?_cons]
      cases ballocBlock s (q * BPB) with
      | none => exact ih
      | some bi => rfl
  rw [hmap]
  unfold balloc
  split
  · rename_i h
    rw [h]
    rfl
  · rename_i b bi h
    rw [h]
    rfl

section

variable (hsb : t.sb = s.sb)
    (hmap : ∀ b, b < s.sb.size → t.disk (s.sb.bblock b) = s.disk (s.sb.bblock b))
include hsb hmap

lemma freeBlock_congr : freeBlock t = freeBlock s := by
  unfold freeBlock
  rw [hsb]
  refine findSome?_congr fun q hq => ?_
  have hlt : q * BPB < s.sb.size := by
    have := List.mem_range.mp hq
    rw [BPB_eq] at this ⊢
    omega
  simp only [ballocBlock, hsb, hmap _ hlt]

lemma balloc_alike : Alike (fun x y => x = (y.1, fill s y.1) ∧ y = (y.1, fill t y.1) ∧ y.1 < t.sb.size ∧
      t.used y.1 = false) (balloc s) (balloc t) := by
  have hnum : (balloc t).toOption.map Prod.fst = (balloc s).toOption.map Prod.fst := by
    rw [balloc_freeBlock, balloc_freeBlock, freeBlock_congr hsb hmap]
  cases hs : balloc s with
  | error e =>
    cases ht : balloc t with
    | error e' => exact (Kernel.balloc_error hs).trans (Kernel.balloc_error ht).symm
    | ok y =>
      rw [hs, ht] at hnum
      cases hnum
  | ok x =>
    cases ht : balloc t with
    | error e' =>
      rw [hs, ht] at hnum
      cases hnum
    | ok y =>
      obtain ⟨f, s'⟩ := x
      obtain ⟨g, t'⟩ := y
      rw [hs, ht] at hnum
      obtain rfl : g = f := Option.some.inj hnum
      obtain ⟨-, -, rfl⟩ := balloc_ok hs
      obtain ⟨hlt, hused, rfl⟩ := balloc_ok ht
      exact ⟨rfl, rfl, hlt, hused⟩

end

lemma fill_disk_of_ne (hf : b ≠ f) (hb : b ≠ s.sb.bblock f) : (fill s f).disk b = s.disk b := by
  unfold fill
  rw [logWrite_disk_of_ne hf, logWrite_disk_of_ne hb]

lemma Plain.fill (hp : Plain c s ip t jp)
    (hind : ip.addrs NDIRECT ≠ 0 → ip.addrs NDIRECT ≠ f ∧ ip.addrs NDIRECT ≠ s.sb.bblock f) :
    Plain c (fill s f) ip (fill t f) jp := by
  refine ⟨hp.sb_eq, hp.inode_eq, hp.direct, hp.index, fun hne k hk => ?_, hp.absent,
    fun b hb hne => ?_⟩
  · obtain ⟨h1, h2⟩ := hind hne
    have hs := fill_disk_of_ne h1 h2
    have ht := fill_disk_of_ne h1 (by rwa [hp.sb_eq])
    unfold State.word
    rw [hs, ht]
    exact hp.word hne k hk
  · unfold Checksum.fill
    by_cases hf : b = f
    · subst hf
      rw [logWrite_disk_self, logWrite_disk_self]
    rw [logWrite_disk_of_ne hf, logWrite_disk_of_ne hf, hp.sb_eq]
    by_cases hbb : b = s.sb.bblock f
    · subst hbb
      rw [logWrite_disk_self, logWrite_disk_self, hp.disk _ hb hne]
    · rw [logWrite_disk_of_ne hbb, logWrite_disk_of_ne hbb]
      exact hp.disk b hb hne

/-! The block map. -/

section BlockMap

variable (hp : Plain c s ip t jp) (hv : Valid t) (ho : Owns .stock t jp) (hsize : t.sb.size ≤ 2 ^ 24)
include hp hv ho

lemma Plain.balloc : Alike (fun x y => x.1 = y.1 ∧ Kernel.Fresh t y.1 y.2 ∧ Plain c x.2 ip y.2 jp)
      (balloc s) (balloc t) := by
  have hmap : ∀ b, b < s.sb.size → t.disk (s.sb.bblock b) = s.disk (s.sb.bblock b) := by
    intro b hb
    refine hp.disk _ (.inr (bmapstart_le_bblock _ _)) fun hne he => ?_
    have hdata := (owned_index ho (hp.index ▸ hne)).1
    have hlow := bblock_lt_datastart hb
    rw [hp.index, hp.sb_eq] at hdata
    omega
  cases ht : Kernel.balloc t with
  | error e =>
    have h := balloc_alike hp.sb_eq hmap
    rw [ht] at h
    cases hs : Kernel.balloc s with
    | error e' => rwa [hs] at h
    | ok x =>
      rw [hs] at h
      exact h.elim
  | ok y =>
    obtain ⟨f, t'⟩ := y
    obtain ⟨x, hs, hx, hy, hlt, hused⟩ := (balloc_alike hp.sb_eq hmap).ok_of ht
    rw [hs, hx]
    refine ⟨rfl, hv.balloc ht, ?_⟩
    rw [hy]
    refine hp.fill fun hne => ?_
    obtain ⟨hdata, -, hmark⟩ := owned_index ho (hp.index ▸ hne)
    have hlow := bblock_lt_datastart hlt
    rw [hp.index] at hdata hmark
    rw [hp.sb_eq] at hdata hlow
    refine ⟨fun he => ?_, (hlow.trans_le hdata).ne'⟩
    rw [he, hused] at hmark
    cases hmark

include hsize in
lemma Plain.addrEntry_direct (hk : k < NDIRECT) :
    Alike (fun x y => Codes (c k) x.1 y.1 ∧ Plain c x.2.1 x.2.2 y.2.1 y.2.2)
      (addrEntry s ip k) (addrEntry t jp k) := by
  unfold addrEntry
  have hiff := (hp.direct k hk).eq_zero_iff
  by_cases hz : jp.addrs k = 0
  · rw [if_pos hz, if_pos (hiff.mpr hz)]
    refine (hp.balloc hv ho).bind ?_
    rintro ⟨f, s'⟩ ⟨g, t'⟩ ⟨hf, hfresh, hp'⟩
    obtain rfl : f = g := hf
    have hlt : f < 2 ^ 24 := hfresh.lt_size.trans_le hsize
    have hindex : ∀ i : Inode, (i.setAddr k f).addrs NDIRECT = i.addrs NDIRECT :=
      fun i => setAddr_of_ne hk.ne'
    have hcode : Codes (c k) f f := by
      rw [(hp.direct k hk).zero hz]
      exact Codes.of_lt hlt
    refine ⟨hcode, hp'.sb_eq, ?_, fun j hj => ?_, ?_, ?_, ?_, ?_⟩
    · rw [hp.inode_eq]
      rfl
    · by_cases hjk : j = k
      · rw [hjk, setAddr_self, setAddr_self]
        exact hcode
      · rw [setAddr_of_ne hjk, setAddr_of_ne hjk]
        exact hp.direct j hj
    · rw [hindex, hindex]
      exact hp.index
    · rw [hindex]
      exact hp'.word
    · rw [hindex]
      exact hp'.absent
    · rw [hindex]
      exact hp'.disk
  · rw [if_neg hz, if_neg fun h => hz (hiff.mp h)]
    exact ⟨hp.direct k hk, hp⟩

lemma Plain.addrEntry_index : Alike (fun x y => x.1 = y.1 ∧ x.2.2.addrs NDIRECT = x.1 ∧ x.1 ≠ 0 ∧
      Plain c x.2.1 x.2.2 y.2.1 y.2.2) (addrEntry s ip NDIRECT) (addrEntry t jp NDIRECT) := by
  unfold addrEntry
  rw [hp.index]
  by_cases hz : ip.addrs NDIRECT = 0
  · rw [if_pos hz, if_pos hz]
    refine (hp.balloc hv ho).bind ?_
    rintro ⟨f, s'⟩ ⟨g, t'⟩ ⟨hf, hfresh, hp'⟩
    obtain rfl : f = g := hf
    have hdata := hfresh.datastart_le
    have hlow := bmapstart_lt_datastart t.sb
    -- the new index block is zero on both sides
    have hsame : t'.disk f = s'.disk f := by
      refine hp'.disk _ (.inr ?_) fun hne => absurd hz hne
      rw [← hp'.sb_eq, hfresh.sb_eq]
      omega
    refine ⟨rfl, setAddr_self, ?_, hp'.sb_eq, ?_, fun j hj => ?_, ?_, fun _ k hk => ?_,
      fun h0 => ?_, fun b hb _ => ?_⟩
    · show f ≠ 0
      omega
    · rw [hp.inode_eq]
      rfl
    · rw [setAddr_of_ne hj.ne, setAddr_of_ne hj.ne]
      exact hp.direct j hj
    · rw [setAddr_self, setAddr_self]
    · rw [setAddr_self]
      unfold State.word
      rw [← hsame, hfresh.zero, Block.word_zero, hp.absent hz k hk]
      exact Codes.of_lt (by decide)
    · rw [setAddr_self] at h0
      omega
    · exact hp'.disk b hb fun hne => absurd hz hne
  · rw [if_neg hz, if_neg hz]
    exact ⟨rfl, rfl, hz, hp⟩

include hsize in
lemma Plain.indirectEntry (ha : ip.addrs NDIRECT = a) (hne : a ≠ 0) (hk : k < NINDIRECT) :
    Alike (fun x y => Codes (c (NDIRECT + k)) x.1 y.1 ∧ Plain c x.2 ip y.2 jp) (indirectEntry s a k)
      (indirectEntry t a k) := by
  subst ha
  unfold Kernel.indirectEntry
  have hiff := (hp.word hne k hk).eq_zero_iff
  by_cases hz : t.word (ip.addrs NDIRECT) k = 0
  · rw [if_pos hz, if_pos (hiff.mpr hz)]
    refine (hp.balloc hv ho).bind ?_
    rintro ⟨f, s'⟩ ⟨g, t'⟩ ⟨hf, hfresh, hp'⟩
    obtain rfl : f = g := hf
    have hlt : f < 2 ^ 24 := hfresh.lt_size.trans_le hsize
    have hpos : 4 * k + 4 ≤ BSIZE := by
      rw [NINDIRECT_eq] at hk
      rw [BSIZE_eq]
      omega
    have hcode : Codes (c (NDIRECT + k)) f f := by
      rw [(hp.word hne k hk).zero hz]
      exact Codes.of_lt hlt
    refine ⟨hcode, hp'.sb_eq, hp'.inode_eq, hp'.direct, hp'.index, fun _ j hj => ?_, hp'.absent,
      fun b hb hbne => ?_⟩
    · unfold State.word
      rw [logWrite_disk_self, logWrite_disk_self, Block.word_setWord hpos, Block.word_setWord hpos]
      by_cases hjk : j = k
      · rw [if_pos hjk, if_pos hjk, hjk, Nat.mod_eq_of_lt (hlt.trans (by decide))]
        exact hcode
      · rw [if_neg hjk, if_neg hjk]
        exact hp'.word hne j hj
    · rw [logWrite_disk_of_ne (hbne hne), logWrite_disk_of_ne (hbne hne)]
      exact hp'.disk b hb hbne
  · rw [if_neg hz, if_neg fun h => hz (hiff.mp h)]
    exact ⟨hp.word hne k hk, hp⟩

include hsize in
lemma Plain.index_entry {b : ℕ} (hab : a = b) (ha : ip.addrs NDIRECT = a) (hne : a ≠ 0)
    (hk : k < NINDIRECT) :
    Alike (fun x y => Codes (c (NDIRECT + k)) x.1 y.1 ∧ Plain c x.2.1 x.2.2 y.2.1 y.2.2)
      (do let (addr, s) ← Kernel.indirectEntry s a k; .ok (addr, s, ip))
      (do let (addr, t) ← Kernel.indirectEntry t b k; .ok (addr, t, jp)) := by
  subst hab
  refine (hp.indirectEntry hv ho hsize ha hne hk).bind ?_
  rintro ⟨x, s'⟩ ⟨y, t'⟩ h
  exact h

include hsize in
lemma Plain.bmap (hbn : bn < MAXFILE) :
    Alike (fun x y => Codes (c bn) x.1 y.1 ∧ Plain c x.2.1 x.2.2 y.2.1 y.2.2)
      (Kernel.bmap .stock s ip bn) (Kernel.bmap .stock t jp bn) := by
  change Alike _ (Kernel.bmapStock s ip bn) (Kernel.bmapStock t jp bn)
  unfold Kernel.bmapStock
  by_cases hd : bn < Lab.stock.NDIRECT
  · rw [if_pos hd, if_pos hd]
    exact hp.addrEntry_direct hv ho hsize hd
  rw [if_neg hd, if_neg hd]
  have hlt : bn - Lab.stock.NDIRECT < NINDIRECT := by
    have h12 : ¬ bn < 12 := hd
    have h140 : bn < 140 := hbn
    change bn - 12 < 128
    omega
  rw [if_pos hlt, if_pos hlt]
  refine (hp.addrEntry_index hv ho).with_eq.bind fun x y h => ?_
  have hspec := Kernel.addrEntry_spec hv ho (Lab.slot_mem (L := .stock) le_rfl) h.2.2
  have hsize' : y.2.1.sb.size ≤ 2 ^ 24 := by rwa [hspec.2.2.1.sb_eq]
  have hentry := h.1.2.2.2.index_entry hspec.1 hspec.2.1 hsize' h.1.1 h.1.2.1 h.1.2.2.1 hlt
  rw [show NDIRECT + (bn - Lab.stock.NDIRECT) = bn from Nat.add_sub_of_le (not_lt.mp hd)] at hentry
  exact hentry

end BlockMap

end LearnXv6.Checksum
