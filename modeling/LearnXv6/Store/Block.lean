import Mathlib.Data.Nat.Bitwise
import Mathlib.Tactic

/-! Fixed-size byte blocks with little-endian fields, single bits and byte ranges. -/
namespace Store

/-- A block of `n` bytes. -/
def Block (n : ℕ) : Type := Fin n → UInt8

namespace Block

variable {n : ℕ} {b c : Block n}

instance : Inhabited (Block n) := ⟨fun _ => 0⟩

instance : Zero (Block n) := ⟨fun _ => 0⟩

instance : DecidableEq (Block n) := inferInstanceAs (DecidableEq (Fin n → UInt8))

/-- Byte `i`, with zero past the end of the block. -/
def byte (b : Block n) (i : ℕ) : UInt8 := if h : i < n then b ⟨i, h⟩ else 0

lemma ext_byte (h : ∀ i, i < n → b.byte i = c.byte i) : b = c := by
  funext ⟨i, hi⟩
  simpa [byte, hi] using h i hi

@[simp] lemma byte_zero (i : ℕ) : (0 : Block n).byte i = 0 := by
  unfold byte
  split <;> rfl

/-- Replace the `m` bytes from `off` by those of `src`. -/
def blit (b : Block n) (off m : ℕ) (src : ℕ → UInt8) : Block n :=
  fun i => if off ≤ i.val ∧ i.val < off + m then src (i.val - off) else b i

lemma byte_blit {off m : ℕ} {src : ℕ → UInt8} (h : off + m ≤ n) (i : ℕ) :
    (b.blit off m src).byte i = if off ≤ i ∧ i < off + m then src (i - off) else b.byte i := by
  by_cases hi : i < n
  · simp [byte, blit, hi]
  · have : ¬ (off ≤ i ∧ i < off + m) := by omega
    simp [byte, hi, this]

/-! Little-endian fields of `w` bytes. -/

/-- The unsigned little-endian value of the `w` bytes from `off`. -/
def le (b : Block n) (off : ℕ) : ℕ → ℕ
  | 0 => 0
  | w + 1 => (b.byte off).toNat + 256 * le b (off + 1) w

/-- Store the low `w` bytes of `v` from `off` on. -/
def putLE (b : Block n) (off w v : ℕ) : Block n :=
  b.blit off w (fun i => UInt8.ofNat (v / 256 ^ i))

lemma le_lt (b : Block n) (off w : ℕ) : b.le off w < 256 ^ w := by
  induction w generalizing off with
  | zero => simp [le]
  | succ w ih =>
    have hb := (b.byte off).toNat_lt
    have hr := ih (off + 1)
    simp only [le, pow_succ]
    omega

@[simp] lemma le_zero (off w : ℕ) : (0 : Block n).le off w = 0 := by
  induction w generalizing off with
  | zero => rfl
  | succ w ih => simp [le, ih]

lemma le_congr {off w : ℕ} (h : ∀ i, off ≤ i → i < off + w → b.byte i = c.byte i) :
    b.le off w = c.le off w := by
  induction w generalizing off with
  | zero => rfl
  | succ w ih =>
    simp only [le]
    rw [h off (by omega) (by omega), ih (fun i hi hj => h i (by omega) (by omega))]

/-- A field read back from the bytes that encode it. -/
lemma le_of_digits {off w v : ℕ} (h : ∀ i, i < w → b.byte (off + i) = UInt8.ofNat (v / 256 ^ i)) :
    b.le off w = v % 256 ^ w := by
  induction w generalizing off v with
  | zero => simp [le, Nat.mod_one]
  | succ w ih =>
    have h0 := h 0 (by omega)
    have hrest : ∀ i, i < w → b.byte (off + 1 + i) = UInt8.ofNat (v / 256 / 256 ^ i) := by
      intro i hi
      have := h (i + 1) (by omega)
      rw [Nat.div_div_eq_div_mul, ← pow_succ']
      simpa [Nat.add_assoc, Nat.add_comm 1 i] using this
    simp only [le]
    rw [ih hrest]
    simp only [Nat.add_zero, pow_zero, Nat.div_one] at h0
    rw [h0, pow_succ', Nat.mod_mul, UInt8.toNat_ofNat']

lemma le_putLE_self {off w : ℕ} (h : off + w ≤ n) (v : ℕ) : (b.putLE off w v).le off w = v % 256 ^ w := by
  apply le_of_digits
  intro i hi
  rw [putLE, byte_blit h]
  have : off ≤ off + i ∧ off + i < off + w := by omega
  simp [this]

lemma le_blit_of_disjoint {off w off' m : ℕ} {src : ℕ → UInt8} (h : off' + m ≤ n)
    (hd : off + w ≤ off' ∨ off' + m ≤ off) : (b.blit off' m src).le off w = b.le off w := by
  apply le_congr
  intro i hi hj
  rw [byte_blit h, if_neg (by omega)]

/-! Blocks read as an array of 32-bit words. -/

/-- Entry `k` of the block seen as an array of 32-bit words. -/
def word (b : Block n) (k : ℕ) : ℕ := b.le (4 * k) 4

def setWord (b : Block n) (k v : ℕ) : Block n := b.putLE (4 * k) 4 v

@[simp] lemma word_zero (k : ℕ) : (0 : Block n).word k = 0 := le_zero _ _

lemma word_setWord {k : ℕ} (h : 4 * k + 4 ≤ n) (v j : ℕ) :
    (b.setWord k v).word j = if j = k then v % 2 ^ 32 else b.word j := by
  split
  · subst j
    simpa [word, setWord] using le_putLE_self (b := b) h v
  · unfold word setWord putLE
    exact le_blit_of_disjoint h (by omega)

/-! Blocks read as an array of bits. -/

def bit (b : Block n) (i : ℕ) : Bool := (b.byte (i / 8)).toNat.testBit (i % 8)

/-- `data[i/8] |= 1 << (i % 8)` -/
def setBit (b : Block n) (i : ℕ) : Block n :=
  b.blit (i / 8) 1 (fun _ => b.byte (i / 8) ||| 1 <<< UInt8.ofNat (i % 8))

/-- `data[i/8] &= ~(1 << (i % 8))` -/
def clearBit (b : Block n) (i : ℕ) : Block n :=
  b.blit (i / 8) 1 (fun _ => b.byte (i / 8) &&& ~~~ (1 <<< UInt8.ofNat (i % 8)))

@[simp] lemma bit_zero (i : ℕ) : (0 : Block n).bit i = false := by
  simp [bit]

private lemma toNat_mask {j : ℕ} (h : j < 8) : (1 <<< UInt8.ofNat j : UInt8).toNat = 2 ^ j := by
  interval_cases j <;> rfl

private lemma toNat_not_mask {j : ℕ} (h : j < 8) (k : ℕ) (hk : k < 8) :
    (~~~ (1 <<< UInt8.ofNat j) : UInt8).toNat.testBit k = !decide (j = k) := by
  interval_cases j <;> interval_cases k <;> rfl

lemma bit_setBit {i : ℕ} (h : i < 8 * n) (j : ℕ) : (b.setBit i).bit j = (decide (j = i) || b.bit j) := by
  unfold bit setBit
  rw [byte_blit (by omega)]
  by_cases hj : j / 8 = i / 8
  · rw [if_pos (by omega), UInt8.toNat_or, Nat.testBit_or, toNat_mask (Nat.mod_lt _ (by omega)),
      Nat.testBit_two_pow, hj, Bool.or_comm]
    congr 1
    simp only [decide_eq_decide]
    omega
  · rw [if_neg (by omega)]
    have : j ≠ i := by intro he; subst j; exact hj rfl
    simp [this]

/-- Setting the first `m` bits of a zero block one after the other. -/
lemma bit_foldl_setBit {m : ℕ} (h : m ≤ 8 * n) (j : ℕ) :
    ((List.range m).foldl (fun b i => b.setBit i) (0 : Block n)).bit j = decide (j < m) := by
  induction m with
  | zero => simp
  | succ m ih =>
    rw [List.range_succ, List.foldl_append]
    simp only [List.foldl_cons, List.foldl_nil]
    rw [bit_setBit (by omega), ih (by omega), ← Bool.decide_or]
    simp only [decide_eq_decide]
    omega

lemma bit_clearBit {i : ℕ} (h : i < 8 * n) (j : ℕ) :
    (b.clearBit i).bit j = (!decide (j = i) && b.bit j) := by
  unfold bit clearBit
  rw [byte_blit (by omega)]
  by_cases hj : j / 8 = i / 8
  · rw [if_pos (by omega), UInt8.toNat_and, Nat.testBit_and,
      toNat_not_mask (Nat.mod_lt _ (by omega)) _ (Nat.mod_lt _ (by omega)), hj, Bool.and_comm]
    congr 2
    simp only [decide_eq_decide]
    omega
  · rw [if_neg (by omega)]
    have : j ≠ i := by intro he; subst j; exact hj rfl
    simp [this]

end Block

/-- A disk of blocks indexed by sector number. -/
abbrev Disk (n : ℕ) := ℕ → Block n

end Store
