import LearnXv6.Fs.Kernel
import LearnXv6.Store.Result

/-! `getfsstats` of the stats lab, which unpacks the free map into one entry for each block. -/
namespace LearnXv6.Fs.Kernel
open Store List

/-- `struct diskstats` -/
structure Diskstats where
  size : ℕ
  nlog : ℕ
  ninode : ℕ
  nbmap : ℕ
  nblock : ℕ
  logstart : ℕ
  inodestart : ℕ
  bmapstart : ℕ
  blockstart : ℕ
  diskmap : List ℕ

/-- An access through a null pointer or outside of an array. -/
inductive Stray where
  | null
  | read (i : ℕ)
  | write (i : ℕ)
  deriving DecidableEq, Repr

/-- `ds->diskmap[bn + i] = (v & (1 << i)) >> i` -/
def showBit (v bn : ℕ) (diskmap : List ℕ) (i : ℕ) : Except Stray (List ℕ) :=
  if bn + i < diskmap.length then .ok (diskmap.set (bn + i) ((v &&& 1 <<< i) >>> i))
  else .error (.write (bn + i))

structure Reading where
  b : Option Block
  offset : ℕ
  diskmap : List ℕ

/-- The pass of the loop for `bn = 8 * k`. -/
def showByte (s : State) (r : Reading) (k : ℕ) : Except Stray Reading := do
  let bn := 8 * k
  let r := if bn % BPB = 0 then
    { r with b := some (s.disk (s.sb.bmapstart + r.offset)), offset := r.offset + 1 } else r
  match r.b with
  | none => .error .null
  | some b =>
    if bn / 8 % BPB < BSIZE then
      let diskmap ← (List.range 8).foldlM (showBit (b.byte (bn / 8 % BPB)).toNat bn) r.diskmap
      .ok { r with diskmap := diskmap }
    else .error (.read (bn / 8 % BPB))

def getfsstats (s : State) (ds : Diskstats) : Except Stray Diskstats := do
  let r ← (List.range ((s.sb.size + 7) / 8)).foldlM (showByte s) ⟨none, 0, ds.diskmap⟩
  .ok {
    size := s.sb.size
    nlog := s.sb.nlog
    ninode := s.sb.ninodes
    nbmap := s.sb.size / BPB + 1
    nblock := s.sb.nblocks
    logstart := s.sb.logstart
    inodestart := s.sb.inodestart
    bmapstart := s.sb.bmapstart
    blockstart := s.sb.bmapstart + (s.sb.size / BPB + 1)
    diskmap := r.diskmap }

variable {s : State} {v bn k n : ℕ} {m m' : List ℕ} {r r' : Reading}

lemma shift_mask (v i : ℕ) : (v &&& 1 <<< i) >>> i = (v.testBit i).toNat := by
  rw [Nat.shiftLeft_eq, one_mul, Nat.and_two_pow, Nat.shiftRight_eq_div_pow,
    Nat.mul_div_cancel _ (Nat.two_pow_pos i)]

/-- The map with the entries from `bn` to `bn + n` replaced by the bits of a byte. -/
structure Shows (v bn n : ℕ) (m m' : List ℕ) : Prop where
  length : m'.length = m.length
  inside : ∀ i < n, m'[bn + i]? = some (v.testBit i).toNat
  outside : ∀ j, j < bn ∨ bn + n ≤ j → m'[j]? = m[j]?

lemma Shows.next (h : Shows v bn n m m') (hn : bn + n < m.length) :
    Shows v bn (n + 1) m (m'.set (bn + n) (v.testBit n).toNat) := by
  constructor
  · rw [length_set, h.length]
  · intro i hi
    rcases Nat.lt_succ_iff_lt_or_eq.mp hi with hi | rfl
    · rw [getElem?_set_ne (by omega)]
      exact h.inside i hi
    · exact getElem?_set_self (by rw [h.length]; exact hn)
  · intro j hj
    rw [getElem?_set_ne (by omega)]
    exact h.outside j (by omega)

lemma showBits_ok (hbn : bn + 8 ≤ m.length) :
    ∃ m', (List.range 8).foldlM (showBit v bn) m = .ok m' ∧ Shows v bn 8 m m' := by
  refine outcome_false.mp (Outcome.range (I := fun n m' => Shows v bn n m m') (fun n hn m' h => ?_) ?_)
  · have hlt : bn + n < m'.length := by
      rw [h.length]
      omega
    rw [showBit, if_pos hlt, shift_mask]
    exact h.next (by omega)
  · exact ⟨rfl, by simp, by simp⟩

lemma showBits_le (h : (List.range 8).foldlM (showBit v bn) m = .ok m') :
    m'.length = m.length ∧ bn + 8 ≤ m.length := by
  have hall := foldlM_invariant (I := fun done m' => m'.length = m.length ∧ ∀ i ∈ done, bn + i < m.length)
    (fun done i m1 m2 hi hs => by
      unfold showBit at hs
      split at hs
      · cases hs
        refine ⟨by rw [length_set, hi.1], fun j hj => ?_⟩
        rcases mem_append.mp hj with hj | hj
        · exact hi.2 j hj
        · obtain rfl := mem_singleton.mp hj
          omega
      · cases hs) _ [] m m' ⟨rfl, by simp⟩ h
  have := hall.2 7 (by simp)
  exact ⟨hall.1, by omega⟩

structure Read (s : State) (k : ℕ) (r : Reading) : Prop where
  length : r.diskmap.length = s.sb.size
  block : 0 < k → r.b = some (s.disk s.sb.bmapstart)
  offset : k = 0 → r.offset = 0
  shown : ∀ i < 8 * k, r.diskmap[i]? = some (s.used i).toNat

lemma used_eq {i : ℕ} (hi : i < BPB) :
    (s.used i).toNat = (((s.disk s.sb.bmapstart).byte (i / 8)).toNat.testBit (i % 8)).toNat := by
  rw [State.used, Superblock.bblock, Nat.div_eq_of_lt hi, Nat.mod_eq_of_lt hi, Nat.zero_add, Store.Block.bit]

lemma Read.step (h : Read s k r) (hk : 8 * k + 8 ≤ s.sb.size) (hsize : s.sb.size ≤ BPB) :
    ∃ r', showByte s r k = .ok r' ∧ Read s (k + 1) r' := by
  have hB := BPB_eq
  have hB' := BSIZE_eq
  have hidx : 8 * k / 8 % BPB = k := by
    rw [Nat.mul_div_cancel_left k (by decide)]
    exact Nat.mod_eq_of_lt (by omega)
  -- the only block of the map is read in the first pass
  obtain ⟨r1, hr1, hb, hmap⟩ : ∃ r1 : Reading, (if 8 * k % BPB = 0 then
      { r with b := some (s.disk (s.sb.bmapstart + r.offset)), offset := r.offset + 1 } else r) = r1 ∧
      r1.b = some (s.disk s.sb.bmapstart) ∧ r1.diskmap = r.diskmap := by
    rcases Nat.eq_zero_or_pos k with rfl | hpos
    · refine ⟨_, rfl, ?_, rfl⟩
      simp [h.offset rfl]
    · refine ⟨r, if_neg ?_, h.block hpos, rfl⟩
      rw [Nat.mod_eq_of_lt (by omega)]
      omega
  obtain ⟨m, hm, hshows⟩ := showBits_ok (v := ((s.disk s.sb.bmapstart).byte k).toNat)
    (show 8 * k + 8 ≤ r.diskmap.length by rw [h.length]; exact hk)
  have hstep : showByte s r k = .ok { r1 with diskmap := m } := by
    unfold showByte
    dsimp only
    rw [hr1, hb]
    dsimp only
    rw [hidx, if_pos (by omega), hmap, hm, ok_bind]
  refine ⟨_, hstep, by rw [hshows.length, h.length], fun _ => hb, nofun, fun i hi => ?_⟩
  by_cases hlt : i < 8 * k
  · rw [hshows.outside i (.inl hlt)]
    exact h.shown i hlt
  · have hin := hshows.inside (i - 8 * k) (by omega)
    rw [show 8 * k + (i - 8 * k) = i by omega] at hin
    rw [hin, used_eq (by omega), show i / 8 = k by omega, show i % 8 = i - 8 * k by omega]

lemma showByte_le (h : showByte s r k = .ok r') :
    r'.diskmap.length = r.diskmap.length ∧ 8 * k + 8 ≤ r.diskmap.length ∧ k % BPB < BSIZE := by
  unfold showByte at h
  dsimp only at h
  have hmap : (if 8 * k % BPB = 0 then
      { r with b := some (s.disk (s.sb.bmapstart + r.offset)), offset := r.offset + 1 } else r).diskmap =
      r.diskmap := by
    split
    · rfl
    · rfl
  split at h
  · cases h
  · split at h
    · rename_i hidx
      obtain ⟨m, hm, h⟩ := bind_eq_ok.mp h
      cases h
      obtain ⟨hlen, hle⟩ := showBits_le hm
      rw [hmap] at hlen hle
      rw [Nat.mul_div_cancel_left k (by decide)] at hidx
      exact ⟨hlen, hle, hidx⟩
    · cases h

/-- The call reports the free map, and touches nothing outside of the map and of the blocks it reads. -/
def Reports (s : State) : Prop :=
  ∀ ds : Diskstats, ds.diskmap.length = s.sb.size → ∃ ds', getfsstats s ds = .ok ds' ∧
    ds'.diskmap.length = s.sb.size ∧ ∀ i < s.sb.size, ds'.diskmap[i]? = some (s.used i).toNat

lemma Reports.size_le (h : Reports s) : s.sb.size % 8 = 0 ∧ s.sb.size ≤ BPB := by
  have hlen : (replicate s.sb.size 0).length = s.sb.size := length_replicate
  obtain ⟨ds', hds, -⟩ := h ⟨0, 0, 0, 0, 0, 0, 0, 0, 0, replicate s.sb.size 0⟩ hlen
  obtain ⟨r, hr, -⟩ := bind_eq_ok.mp hds
  have hall := foldlM_invariant (I := fun done (r : Reading) => r.diskmap.length = s.sb.size ∧
      ∀ k ∈ done, 8 * k + 8 ≤ s.sb.size ∧ k % BPB < BSIZE)
    (fun done k r1 r2 hi hs => by
      obtain ⟨hlen, hle, hidx⟩ := showByte_le hs
      refine ⟨hlen.trans hi.1, fun j hj => ?_⟩
      rcases mem_append.mp hj with hj | hj
      · exact hi.2 j hj
      · obtain rfl := mem_singleton.mp hj
        exact ⟨hi.1 ▸ hle, hidx⟩) _ [] _ r ⟨hlen, by simp⟩ hr
  have hB := BPB_eq
  have hB' := BSIZE_eq
  constructor
  · -- the last pass fills its eight entries
    by_contra hmod
    have := (hall.2 (s.sb.size / 8) (by simp; omega)).1
    omega
  · by_contra hgt
    have := (hall.2 512 (by simp; omega)).2
    rw [BPB_eq] at this
    omega

lemma reports_of_size (h8 : s.sb.size % 8 = 0) (hsize : s.sb.size ≤ BPB) : Reports s := by
  intro ds hds
  obtain ⟨r, hr, hread⟩ := outcome_false.mp (Outcome.range (E := fun _ : Stray => False) (I := Read s)
    (s := ⟨none, 0, ds.diskmap⟩) (n := (s.sb.size + 7) / 8)
    (fun k hk r h => outcome_false.mpr (h.step (by omega) hsize)) ⟨hds, nofun, fun _ => rfl, by simp⟩)
  have hmap : ∀ i < s.sb.size, r.diskmap[i]? = some (s.used i).toNat :=
    fun i hi => hread.shown i (by omega)
  rw [getfsstats, hr, ok_bind]
  exact ⟨_, rfl, hread.length, hmap⟩

/-- `getfsstats` is right exactly for the sizes that are multiples of eight and fit in one block of the map. -/
theorem getfsstats_reports_iff (s : State) : Reports s ↔ s.sb.size % 8 = 0 ∧ s.sb.size ≤ BPB :=
  ⟨Reports.size_le, fun h => reports_of_size h.1 h.2⟩

/-- A disk of `size` blocks, all of them zero. -/
def zeroed (size : ℕ) : State := ⟨fun _ => 0, ⟨size, 0, 0, 0, 0, 0, 0⟩, fun _ => ⟨none, none⟩⟩

/-- With nine blocks it writes seven entries too many, and with more than one block of the map it reads behind
the buffer. -/
theorem getfsstats_strays : ¬ Reports (zeroed 9) ∧ ¬ Reports (zeroed 4104) ∧
    getfsstats (zeroed 9) ⟨0, 0, 0, 0, 0, 0, 0, 0, 0, replicate 9 0⟩ = .error (.write 9) := by
  refine ⟨fun h => ?_, fun h => ?_, by rfl⟩
  · have := h.size_le
    simp [zeroed] at this
  · have := h.size_le
    simp [zeroed, BPB_eq] at this

end LearnXv6.Fs.Kernel
