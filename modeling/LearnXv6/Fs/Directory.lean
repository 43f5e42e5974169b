import LearnXv6.Store.Result
import LearnXv6.Fs.ByteArray

/-! Directories: `readi` and `dirlookup` on an inode whose first `m` blocks are mapped. -/
namespace LearnXv6.Fs.Kernel
open List Nat

variable {L : Lab} {s : State} {dp : Inode} {name : ℕ → UInt8} {m n off k : ℕ}

/-! Names. -/

lemma strncmp_cstr {a b : List UInt8} (ha : 0 ∉ a) (hb : 0 ∉ b) (n : ℕ) :
    strncmp (cstr a) (cstr b) n = 0 ↔ a.take n = b.take n := by
  induction n generalizing a b with
  | zero => simp [strncmp]
  | succ n ih =>
    cases a with
    | nil =>
      cases b with
      | nil => simp [strncmp, cstr]
      | cons y b =>
        have hy : y ≠ 0 := fun h => hb (h ▸ mem_cons_self)
        simp only [strncmp, cstr, getD_nil, ne_eq, not_true_eq_false, false_and, if_false,
          getD_cons_zero, take_nil, take_succ_cons, reduceCtorEq, iff_false]
        intro hc
        exact hy (UInt8.toNat_inj.mp (by simp only [UInt8.toNat_zero] at hc ⊢; omega))
    | cons x a =>
      have hx : x ≠ 0 := fun h => ha (h ▸ mem_cons_self)
      have ha' : 0 ∉ a := fun h => ha (mem_cons_of_mem _ h)
      have hb' : 0 ∉ b.tail := fun h => hb (mem_of_mem_tail h)
      by_cases hxy : x = cstr b 0
      · -- the same first byte, so `b` is not empty either
        cases b with
        | nil => exact absurd hxy hx
        | cons y b =>
          have hy : x = y := hxy
          subst hy
          have hnext : strncmp (cstr (x :: a)) (cstr (x :: b)) (n + 1) =
              strncmp (cstr a) (cstr b) n := by
            rw [strncmp, if_pos ⟨hx, rfl⟩]
            rfl
          rw [hnext, take_succ_cons, take_succ_cons, cons.injEq]
          exact (ih ha' hb').trans ⟨fun h => ⟨rfl, h⟩, And.right⟩
      · have hne : ((x.toNat : ℤ) - ((cstr b 0).toNat : ℤ)) ≠ 0 := by
          intro hc
          exact hxy (UInt8.toNat_inj.mp (by omega))
        have hstop : strncmp (cstr (x :: a)) (cstr b) (n + 1) =
            (x.toNat : ℤ) - (cstr b 0).toNat := by
          rw [strncmp, if_neg (fun h => hxy h.2)]
          rfl
        rw [hstop]
        refine iff_of_false hne ?_
        intro ht
        cases b with
        | nil => simp at ht
        | cons y b =>
          simp only [take_succ_cons, cons.injEq] at ht
          exact hxy ht.1

/-! Reading entries. -/

/-- The first `m` blocks of the directory are mapped. -/
structure Mapped (L : Lab) (s : State) (dp : Inode) (m : ℕ) : Prop where
  not_dev : dp.type ≠ T_DEV
  le : m ≤ L.MAXFILE
  leaf_ne : ∀ bn, bn < m → tree s dp (L.path bn) ≠ 0

lemma Mapped.readi (h : Mapped L s dp m) (hsize : off + n ≤ dp.size) (hm : off + n ≤ m * BSIZE) :
    readi L s dp off n = .ok (n, (List.range n).map fun i => fileByte L s dp (off + i), s, dp) := by
  have h32 := hm.trans_lt ((mul_le_mul_right _ h.le).trans_lt (MAXFILE_lt L))
  unfold Kernel.readi
  rw [if_neg h.not_dev, if_neg (by rw [mod_eq_of_lt h32]; omega)]
  simp only [mod_eq_of_lt h32, if_neg (show ¬ dp.size < off + n by omega)]
  rw [readiLoop_spec h.le h.leaf_ne hm]
  rfl

/-- The bytes of the entry `k` of a directory. -/
def entryAt (L : Lab) (s : State) (dp : Inode) (k : ℕ) : List UInt8 :=
  (List.range DIRENT).map fun i => fileByte L s dp (k * DIRENT + i)

/-- The entry that stops the loop of `dirlookup`. -/
def Matches (name : ℕ → UInt8) (de : List UInt8) : Prop :=
  direntInum de ≠ 0 ∧ namecmp name (direntName de) = 0

instance (name : ℕ → UInt8) (de : List UInt8) : Decidable (Matches name de) :=
  inferInstanceAs (Decidable (_ ∧ _))

section

variable (h : Mapped L s dp m)
include h

lemma Mapped.dirlookupLoop_succ (hsize : (k + 1) * DIRENT ≤ dp.size)
    (hm : (k + 1) * DIRENT ≤ m * BSIZE) (fuel : ℕ) :
    dirlookupLoop L s dp name (k * DIRENT) (fuel + 1) =
      if Matches name (entryAt L s dp k) then
        .ok (some (direntInum (entryAt L s dp k), k * DIRENT), s, dp)
      else dirlookupLoop L s dp name ((k + 1) * DIRENT) fuel := by
  rw [add_mul, one_mul] at *
  have hpos : 0 < DIRENT := by decide
  have hr := h.readi hsize hm
  rw [dirlookupLoop, if_pos (by omega), hr]
  simp only [bind, Except.bind, ne_eq, not_true_eq_false, if_false]
  rfl

lemma Mapped.dirlookupLoop_found {fuel : ℕ} (hf : n < fuel)
    (hsize : (k + n + 1) * DIRENT ≤ dp.size) (hm : (k + n + 1) * DIRENT ≤ m * BSIZE)
    (hfirst : ∀ i, k ≤ i → i < k + n → ¬ Matches name (entryAt L s dp i))
    (hmatch : Matches name (entryAt L s dp (k + n))) : dirlookupLoop L s dp name (k * DIRENT) fuel =
      .ok (some (direntInum (entryAt L s dp (k + n)), (k + n) * DIRENT), s, dp) := by
  induction n generalizing k fuel with
  | zero =>
    obtain ⟨fuel, rfl⟩ := exists_eq_add_one_of_ne_zero (show fuel ≠ 0 by omega)
    simp only [add_zero] at *
    rw [h.dirlookupLoop_succ hsize hm, if_pos hmatch]
  | succ n ih =>
    obtain ⟨fuel, rfl⟩ := exists_eq_add_one_of_ne_zero (show fuel ≠ 0 by omega)
    have hk : k + (n + 1) = k + 1 + n := by omega
    have hle : (k + 1) * DIRENT ≤ (k + (n + 1) + 1) * DIRENT := mul_le_mul_right _ (by omega)
    rw [h.dirlookupLoop_succ (hle.trans hsize) (hle.trans hm), if_neg (hfirst k le_rfl (by omega))]
    rw [hk] at hsize hm hmatch hfirst ⊢
    exact ih (by omega) hsize hm (fun i h1 h2 => hfirst i (by omega) h2) hmatch

lemma Mapped.dirlookup_found (hdir : dp.type = T_DIR)
    (hsize : (k + 1) * DIRENT ≤ dp.size) (hm : (k + 1) * DIRENT ≤ m * BSIZE)
    (hfirst : ∀ i, i < k → ¬ Matches name (entryAt L s dp i)) (hmatch : Matches name (entryAt L s dp k)) :
    dirlookup L s dp name = .ok (some (direntInum (entryAt L s dp k), k * DIRENT), s, dp) := by
  have hfuel : k < dp.size := by
    have : k + 1 ≤ (k + 1) * DIRENT := Nat.le_mul_of_pos_right _ (by decide)
    omega
  have hk := zero_add k
  have hloop := h.dirlookupLoop_found hfuel (by rwa [hk]) (by rwa [hk])
      (fun i _ hi => hfirst i (by omega)) (by rwa [hk])
  rw [hk, zero_mul] at hloop
  rw [dirlookup, if_neg (not_not.mpr hdir), hloop]

end

end LearnXv6.Fs.Kernel
