import LearnXv6.Param
import LearnXv6.Store.Block
import LearnXv6.Store.Forest

/-! The on-disk format of `fs.h` and `param.h` in the stock tree and in the labs that change it. -/
namespace LearnXv6.Fs
open Store.Block

def BSIZE : ℕ := 512

/-- Block addresses in one index block. -/
def NINDIRECT : ℕ := BSIZE / 4

/-- Entries of `addrs`: `NDIRECT + 1` in most trees, `NDIRECT + MAXINDIRECT` in isingle. -/
def NADDRS : ℕ := 13

/-- `sizeof(struct dinode)` -/
def DINODE : ℕ := 64

def IPB : ℕ := BSIZE / DINODE

def BPB : ℕ := BSIZE * 8

lemma BSIZE_eq : BSIZE = 512 := rfl
lemma NINDIRECT_eq : NINDIRECT = 128 := rfl
lemma NADDRS_eq : NADDRS = 13 := rfl
lemma DINODE_eq : DINODE = 64 := rfl
lemma IPB_eq : IPB = 8 := rfl
lemma BPB_eq : BPB = 4096 := rfl

def T_DIR : ℕ := 1
def T_FILE : ℕ := 2
def T_DEV : ℕ := 3

abbrev Block := Store.Block BSIZE
abbrev Disk := Store.Disk BSIZE

/-- The source trees: stock xv6, the three indirection labs and the reverse-tools lab. -/
inductive Lab where
  | stock | isingle | idouble | itriple | reverse
  deriving DecidableEq, Repr

namespace Lab

def NDIRECT : Lab → ℕ
  | isingle => 10
  | _ => 12

/-- Indirect blocks of an inode, `MAXINDIRECT` in isingle and `INDIRECT` elsewhere. -/
def MAXINDIRECT : Lab → ℕ
  | isingle => 3
  | _ => 1

/-- Entries of an index block that lead to another index block. -/
def NINDIRECTIB : Lab → ℕ
  | idouble => 4
  | itriple => 2
  | _ => 0

def NDIRECTIB (L : Lab) : ℕ := NINDIRECT - L.NINDIRECTIB

def MAXFILE (L : Lab) : ℕ :=
  match L with
  | stock => L.NDIRECT + NINDIRECT
  | isingle => L.NDIRECT + L.MAXINDIRECT * NINDIRECT
  | idouble => L.NINDIRECTIB * NINDIRECT + L.NDIRECTIB + L.NDIRECT
  | itriple => L.NINDIRECTIB * L.NINDIRECTIB * NINDIRECT + L.NDIRECTIB * L.NINDIRECTIB +
      L.NDIRECTIB + L.NDIRECT
  | reverse => L.NDIRECT + NINDIRECT * NINDIRECT

def MAXOPBLOCKS : Lab → ℕ
  | isingle => 20
  | _ => 10

def LOGSIZE (L : Lab) : ℕ := L.MAXOPBLOCKS * 3

def FSSIZE : Lab → ℕ
  | stock => 1000
  | isingle => 2000
  | idouble => 2000
  | itriple => 4000
  | reverse => 20000

lemma NDIRECT_lt (L : Lab) : L.NDIRECT < NADDRS := by cases L <;> decide

end Lab

/-- The super block. -/
structure Superblock where
  size : ℕ
  nblocks : ℕ
  ninodes : ℕ
  nlog : ℕ
  logstart : ℕ
  inodestart : ℕ
  bmapstart : ℕ
  deriving DecidableEq, Repr

namespace Superblock

/-- Block containing inode `i`: `IBLOCK`. -/
def iblock (sb : Superblock) (i : ℕ) : ℕ := i / IPB + sb.inodestart

/-- Block of the free map containing the bit of block `b`: `BBLOCK`. -/
def bblock (sb : Superblock) (b : ℕ) : ℕ := b / BPB + sb.bmapstart

/-- The first block after the free map. -/
def datastart (sb : Superblock) : ℕ := sb.bmapstart + sb.size / BPB + 1

def read (b : Block) : Superblock where
  size := b.word 0
  nblocks := b.word 1
  ninodes := b.word 2
  nlog := b.word 3
  logstart := b.word 4
  inodestart := b.word 5
  bmapstart := b.word 6

/-- `memmove(buf, &sb, sizeof(sb))` over a block `b`. -/
def write (b : Block) (sb : Superblock) : Block :=
  ((((((b.setWord 0 sb.size).setWord 1 sb.nblocks).setWord 2 sb.ninodes).setWord 3
    sb.nlog).setWord 4 sb.logstart).setWord 5 sb.inodestart).setWord 6 sb.bmapstart

/-- Every field fits in a 32-bit word. -/
def Fits (sb : Superblock) : Prop :=
  sb.size < 2 ^ 32 ∧ sb.nblocks < 2 ^ 32 ∧ sb.ninodes < 2 ^ 32 ∧ sb.nlog < 2 ^ 32 ∧
    sb.logstart < 2 ^ 32 ∧ sb.inodestart < 2 ^ 32 ∧ sb.bmapstart < 2 ^ 32

lemma read_write {sb : Superblock} (h : sb.Fits) (b : Block) : read (write b sb) = sb := by
  obtain ⟨h0, h1, h2, h3, h4, h5, h6⟩ := h
  have hw : ∀ k, k < 7 → 4 * k + 4 ≤ BSIZE := by have := BSIZE_eq; omega
  simp only [read, write, word_setWord (hw 0 (by omega)),
    word_setWord (hw 1 (by omega)), word_setWord (hw 2 (by omega)),
    word_setWord (hw 3 (by omega)), word_setWord (hw 4 (by omega)),
    word_setWord (hw 5 (by omega)), word_setWord (hw 6 (by omega)),
    Nat.mod_eq_of_lt, h0, h1, h2, h3, h4, h5, h6]
  rfl

end Superblock

/-- The on-disk inode; entries of `addrs` from `NADDRS` on are not part of the record. -/
@[ext]
structure Dinode where
  type : ℕ
  major : ℕ
  minor : ℕ
  nlink : ℕ
  size : ℕ
  addrs : ℕ → ℕ

namespace Dinode

instance : Zero Dinode := ⟨⟨0, 0, 0, 0, 0, fun _ => 0⟩⟩

/-- `din.addrs[k] = v` -/
def setAddr (d : Dinode) (k v : ℕ) : Dinode := { d with addrs := Function.update d.addrs k v }

@[simp] lemma setAddr_addrs (d : Dinode) (k v : ℕ) :
    (d.setAddr k v).addrs = Function.update d.addrs k v := rfl

/-- The dinode in slot `s` of a block: `(struct dinode*)b + s`. -/
def read (b : Block) (s : ℕ) : Dinode where
  type := b.le (DINODE * s) 2
  major := b.le (DINODE * s + 2) 2
  minor := b.le (DINODE * s + 4) 2
  nlink := b.le (DINODE * s + 6) 2
  size := b.le (DINODE * s + 8) 4
  addrs := fun k => if k < NADDRS then b.le (DINODE * s + 12 + 4 * k) 4 else 0

def bytes (d : Dinode) (i : ℕ) : UInt8 :=
  if i < 2 then UInt8.ofNat (d.type / 256 ^ i)
  else if i < 4 then UInt8.ofNat (d.major / 256 ^ (i - 2))
  else if i < 6 then UInt8.ofNat (d.minor / 256 ^ (i - 4))
  else if i < 8 then UInt8.ofNat (d.nlink / 256 ^ (i - 6))
  else if i < 12 then UInt8.ofNat (d.size / 256 ^ (i - 8))
  else UInt8.ofNat (d.addrs ((i - 12) / 4) / 256 ^ ((i - 12) % 4))

/-- Store the record in slot `s` of a block: `*dip = *ip`. -/
def write (b : Block) (s : ℕ) (d : Dinode) : Block := b.blit (DINODE * s) DINODE d.bytes

/-- Every field fits in the bytes of the record. -/
structure Fits (d : Dinode) : Prop where
  type_lt : d.type < 2 ^ 16
  major_lt : d.major < 2 ^ 16
  minor_lt : d.minor < 2 ^ 16
  nlink_lt : d.nlink < 2 ^ 16
  size_lt : d.size < 2 ^ 32
  addrs_lt : ∀ k, d.addrs k < 2 ^ 32
  addrs_ge : ∀ k, NADDRS ≤ k → d.addrs k = 0

lemma Fits.setAddr {d : Dinode} (h : d.Fits) {k v : ℕ} (hk : k < NADDRS) (hv : v < 2 ^ 32) :
    (d.setAddr k v).Fits := by
  refine ⟨h.type_lt, h.major_lt, h.minor_lt, h.nlink_lt, h.size_lt, ?_, ?_⟩
  · intro j
    by_cases hj : j = k
    · simpa [hj] using hv
    · simpa [hj] using h.addrs_lt j
  · intro j hj
    have hne : j ≠ k := by omega
    simpa [hne] using h.addrs_ge j hj

section Write

variable {b : Block} {s s' : ℕ} {d : Dinode}

lemma read_fits (b : Block) (s : ℕ) : (read b s).Fits where
  type_lt := le_lt _ _ _
  major_lt := le_lt _ _ _
  minor_lt := le_lt _ _ _
  nlink_lt := le_lt _ _ _
  size_lt := le_lt _ _ _
  addrs_lt := by
    intro k
    simp only [read]
    split
    · exact le_lt _ _ _
    · decide
  addrs_ge := by
    intro k hk
    simp only [read]
    rw [if_neg (by omega)]

variable (hs : s < IPB)
include hs

lemma slot_le : DINODE * s + DINODE ≤ BSIZE := by
  rw [IPB_eq] at hs
  rw [BSIZE_eq, DINODE_eq]
  omega

lemma le_write {w v o : ℕ} (hw : o + w ≤ DINODE)
    (h : ∀ i, i < w → d.bytes (o + i) = UInt8.ofNat (v / 256 ^ i)) :
    (write b s d).le (DINODE * s + o) w = v % 256 ^ w := by
  apply le_of_digits
  intro i hi
  have hb := slot_le hs
  rw [write, byte_blit hb, if_pos (by omega), ← h i hi]
  congr 1
  omega

lemma read_write_type : (read (write b s d) s).type = d.type % 2 ^ 16 := by
  refine le_write (o := 0) hs (by decide) ?_
  intro i hi
  simp [bytes, show i < 2 by omega]

lemma read_write_major : (read (write b s d) s).major = d.major % 2 ^ 16 := by
  refine le_write (o := 2) hs (by decide) ?_
  intro i hi
  simp [bytes, show ¬ 2 + i < 2 by omega, show 2 + i < 4 by omega]

lemma read_write_minor : (read (write b s d) s).minor = d.minor % 2 ^ 16 := by
  refine le_write (o := 4) hs (by decide) ?_
  intro i hi
  simp [bytes, show ¬ 4 + i < 2 by omega, show ¬ 4 + i < 4 by omega, show 4 + i < 6 by omega]

lemma read_write_nlink : (read (write b s d) s).nlink = d.nlink % 2 ^ 16 := by
  refine le_write (o := 6) hs (by decide) ?_
  intro i hi
  simp [bytes, show ¬ 6 + i < 2 by omega, show ¬ 6 + i < 4 by omega, show ¬ 6 + i < 6 by omega,
    show 6 + i < 8 by omega]

lemma read_write_size : (read (write b s d) s).size = d.size % 2 ^ 32 := by
  refine le_write (o := 8) hs (by decide) ?_
  intro i hi
  simp [bytes, show ¬ 8 + i < 2 by omega, show ¬ 8 + i < 4 by omega, show ¬ 8 + i < 6 by omega,
    show ¬ 8 + i < 8 by omega, show 8 + i < 12 by omega]

lemma read_write_addrs {k : ℕ} (hk : k < NADDRS) : (read (write b s d) s).addrs k = d.addrs k % 2 ^ 32 := by
  have hw : 12 + 4 * k + 4 ≤ DINODE := by have := NADDRS_eq; have := DINODE_eq; omega
  simp only [read, if_pos hk]
  rw [Nat.add_assoc]
  refine le_write (o := 12 + 4 * k) hs hw ?_
  intro i hi
  have h4 : (12 + 4 * k + i - 12) / 4 = k := by omega
  have h5 : (12 + 4 * k + i - 12) % 4 = i := by omega
  simp [bytes, show ¬ 12 + 4 * k + i < 2 by omega, show ¬ 12 + 4 * k + i < 4 by omega,
    show ¬ 12 + 4 * k + i < 6 by omega, show ¬ 12 + 4 * k + i < 8 by omega,
    show ¬ 12 + 4 * k + i < 12 by omega, h4, h5]

lemma read_write (h : d.Fits) : read (write b s d) s = d := by
  have h1 := read_write_type (b := b) (d := d) hs
  have h2 := read_write_major (b := b) (d := d) hs
  have h3 := read_write_minor (b := b) (d := d) hs
  have h4 := read_write_nlink (b := b) (d := d) hs
  have h5 := read_write_size (b := b) (d := d) hs
  rw [Nat.mod_eq_of_lt h.type_lt] at h1
  rw [Nat.mod_eq_of_lt h.major_lt] at h2
  rw [Nat.mod_eq_of_lt h.minor_lt] at h3
  rw [Nat.mod_eq_of_lt h.nlink_lt] at h4
  rw [Nat.mod_eq_of_lt h.size_lt] at h5
  have h6 : (read (write b s d) s).addrs = d.addrs := by
    funext k
    by_cases hk : k < NADDRS
    · rw [read_write_addrs hs hk, Nat.mod_eq_of_lt (h.addrs_lt k)]
    · rw [h.addrs_ge k (by omega), (read_fits _ _).addrs_ge k (by omega)]
  exact Dinode.ext h1 h2 h3 h4 h5 h6

lemma read_write_of_ne (h : s' ≠ s) : read (write b s d) s' = read b s' := by
  have hb := slot_le hs
  have hle : ∀ off w, off + w ≤ DINODE →
      (write b s d).le (DINODE * s' + off) w = b.le (DINODE * s' + off) w := by
    intro off w hw
    apply le_blit_of_disjoint hb
    rw [DINODE_eq] at hw ⊢
    omega
  unfold read
  congr 1
  · exact hle 0 2 (by decide)
  · exact hle 2 2 (by decide)
  · exact hle 4 2 (by decide)
  · exact hle 6 2 (by decide)
  · exact hle 8 4 (by decide)
  · funext k
    split
    · rw [Nat.add_assoc]
      exact hle (12 + 4 * k) 4 (by have := NADDRS_eq; have := DINODE_eq; omega)
    · rfl

end Write

@[simp] lemma read_zero (s : ℕ) : read (0 : Block) s = 0 := by
  unfold read
  simp
  rfl

end Dinode

end LearnXv6.Fs
