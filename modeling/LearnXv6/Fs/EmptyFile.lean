import LearnXv6.Fs.Room
import LearnXv6.Fs.Truncate
import LearnXv6.Fs.Mkfs.Boot
import LearnXv6.Store.Run

/-! Everything that calls can make of an empty inode: reading and writing it, and deleting it; and
the free map under any calls. -/
namespace LearnXv6.Fs.Kernel

variable {L : Lab} {s s' : State} {ip ip' : Inode} {calls : List Call} {rs : List Reply}

/-- An inode with size 0 and no blocks, in a file system with a sound layout. -/
structure EmptyFile (s : State) (ip : Inode) : Prop where
  valid : Valid s
  inode_lt : s.sb.iblock ip.inum < s.sb.bmapstart
  not_dev : ip.type ≠ T_DEV
  size_eq : ip.size = 0
  addrs_eq : ∀ k, k < NADDRS → ip.addrs k = 0

lemma EmptyFile.isFile (h : EmptyFile s ip) (L : Lab) : IsFile L s ip := by
  have ht : ∀ n ∈ L.code.nodes, tree s ip n = 0 := by
    rintro ⟨k, ks⟩ hn
    simp only [tree, Store.table, h.addrs_eq k (Lab.nodes_slot_lt hn), Store.descend_zero]
  have hm : nblk ip.size = 0 := by
    rw [h.size_eq]
    rfl
  refine ⟨⟨h.valid, ⟨h.inode_lt, ?_, ?_⟩, by omega, ?_⟩, h.not_dev⟩
  · intro n hn hne
    exact absurd (ht n hn) hne
  · intro m hm n _ _ hne
    exact absurd (ht m hm) hne
  · intro n hn
    constructor
    · intro hne
      exact absurd (ht n hn) hne
    · rintro ⟨bn, hbn, -⟩
      omega

lemma EmptyFile.content_eq (h : EmptyFile s ip) (L : Lab) : content L s ip = [] := by
  simp [content, h.size_eq]

lemma IsFile.exec_write (h : IsFile L s ip) (src : ℕ → UInt8) {off n : UInt32}
    (ha : Accepts L ip.size off.toNat n.toNat)
    (hroom : 4 * nblk (off.toNat % BSIZE + n.toNat) ≤ (free s).card) :
    ∃ s' ip', exec L s ip (.write src off n) = .ok (.wrote n.toNat, s', ip') ∧ IsFile L s' ip' ∧
      content L s' ip' = overwrite (content L s ip) off.toNat n.toNat src := by
  obtain ⟨s', ip', hw⟩ : ∃ s' ip', writei L s ip src off.toNat n.toNat = .ok (n.toNat, s', ip') :=
    writei_ok h ha hroom
  obtain ⟨-, hf, hc⟩ := writei_spec h ha hw
  exact ⟨s', ip', by simp only [exec, hw, bind, Except.bind], hf, hc⟩

lemma EmptyFile.write_ok (h : EmptyFile s ip) (src : ℕ → UInt8) {n : UInt32}
    (hn : n.toNat ≤ L.MAXFILE * BSIZE) (hroom : 4 * nblk n.toNat ≤ (free s).card) :
    ∃ s' ip', run L s ip [.write src 0 n] = .ok ([.wrote n.toNat], s', ip') ∧
      IsFile L s' ip' ∧ ip'.size = n.toNat := by
  have ha : Accepts L ip.size (0 : UInt32).toNat n.toNat := by
    refine ⟨Nat.zero_le _, ?_⟩
    simpa using hn
  obtain ⟨s', ip', he, hf, hc⟩ := (h.isFile L).exec_write src ha (by simpa using hroom)
  refine ⟨s', ip', by simp only [run, he, bind, Except.bind], hf, ?_⟩
  rw [← content_length (L := L) (s := s'), hc, h.content_eq]
  simp [overwrite]

end LearnXv6.Fs.Kernel

namespace LearnXv6.Fs.Mkfs
open Kernel

lemma boot_free {L : Lab} {s s' : State} {d : ℕ → Devsw} (hf : Finished L s s') :
    L.FSSIZE - s.freeblock ≤ (free (boot s' d)).card := by
  have hsub : Finset.Ico s.freeblock L.FSSIZE ⊆ free (boot s' d) := by
    intro b hb
    obtain ⟨hge, hlt⟩ := Finset.mem_Ico.mp hb
    rw [Kernel.mem_free, boot_sb hf, boot_used hf hlt]
    exact ⟨hlt, decide_eq_false (by omega)⟩
  have := Finset.card_le_card hsub
  rwa [Nat.card_Ico] at this

lemma empty_image (L : Lab) (d : ℕ → Devsw) : ∃ r, image L (oneFile []) = .ok r ∧
    EmptyFile (boot r.1 d) (iload (boot r.1 d) 1) ∧ L.FSSIZE - nmeta L ≤ (free (boot r.1 d)).card := by
  have hlay := layout L
  obtain ⟨r, hr, -, hfree⟩ := oneFile_ok (L := L) (p := []) (Nat.zero_le _)
    (by cases L <;> decide) (by cases L <;> decide)
  obtain ⟨s, -, hb, hf, -⟩ := image_spec (oneFile_wellFormed []) hr
  have hone : 1 < inodes := by decide
  have hinv := boot_fileInv (d := d) hb.toLinked hf hone
  refine ⟨r, hr, ⟨hinv.valid, hinv.owns.inode_lt, ?_, ?_, ?_⟩, ?_⟩
  · rw [iload_type hf hone]
    exact hb.not_dev 1 hone
  · rw [iload_size hf hone, hb.size_eq 1 hone, oneFile_appended]
    rfl
  · intro k hk
    by_contra hne
    obtain ⟨bn, hbn, -⟩ := (hinv.mapped (k, []) (Lab.slot_mem_of_lt hk)).mp hne
    rw [oneFile_appended] at hbn
    have : Kernel.nblk ([] : List UInt8).length = 0 := rfl
    omega
  · have hle : r.1.freeblock ≤ nmeta L := hfree
    rw [hf.freeblock_eq] at hle
    have := boot_free (d := d) hf
    omega

end LearnXv6.Fs.Mkfs

namespace LearnXv6.Fs.Kernel
open Mkfs

variable {L : Lab} {s s' : State} {ip ip' : Inode} {calls : List Call} {rs : List Reply}

/-! The byte array. -/

/-- In the itriple tree an inode is a byte array from its creation on, whatever the calls, as long
as `balloc` finds a block: a rejected write is a reply of -1 that changes nothing. -/
theorem itriple_run_eq_arrayRun (h : EmptyFile s ip) (hr : run .itriple s ip calls ≠ .error .outOfBlocks) :
    ∃ s' ip', run .itriple s ip calls = .ok ((arrayRun .itriple [] calls).1, s', ip') ∧
      content .itriple s' ip' = (arrayRun .itriple [] calls).2 ∧
      ip'.size = (arrayRun .itriple [] calls).2.length ∧
      ∀ src off n, ¬ Accepts .itriple ip'.size (UInt32.toNat off) (UInt32.toNat n) →
        exec .itriple s' ip' (.write src off n) = .ok (.wrote (-1), s', ip') := by
  obtain ⟨s', ip', hrun, hf, hc⟩ := run_spec (h.isFile .itriple) hr
  rw [h.content_eq] at hrun hc
  refine ⟨s', ip', hrun, hc, ?_, ?_⟩
  · rw [← hc, content_length]
  · intro src off n hrej
    simp [exec, writei_reject hf off.toNat_lt n.toNat_lt hrej, bind, Except.bind]

/-- Fourteen blocks: the last two are reached through the first index block. -/
theorem itriple_run_fourteen_blocks : ∃ r s' ip', image .itriple (oneFile []) = .ok r ∧
    run .itriple (boot r.1 noDev) (iload (boot r.1 noDev) 1) [.write (fun _ => 7) 0 7168] =
      .ok ([.wrote 7168], s', ip') ∧
    content .itriple s' ip' = (arrayRun .itriple [] [.write (fun _ => 7) 0 7168]).2 ∧
    nblk ip'.size = Lab.itriple.NDIRECT + 2 := by
  obtain ⟨r, hr, hempty, hfree⟩ := empty_image .itriple noDev
  obtain ⟨s₁, ip₁, hw, -, hlen⟩ := hempty.write_ok (L := .itriple) (fun _ => 7) (n := 7168) (by decide)
    (le_trans (by decide) hfree)
  obtain ⟨s', ip', hrun, hc, -, -⟩ := itriple_run_eq_arrayRun hempty (by rw [hw]; simp)
  rw [hw] at hrun
  cases hrun
  exact ⟨r, s₁, ip₁, hr, hw, hc, by rw [hlen]; decide⟩

/-! Deletion. -/

lemma run_isFile (h : IsFile L s ip) (hr : run L s ip calls = .ok (rs, s', ip')) : IsFile L s' ip' := by
  obtain ⟨s1, ip1, hrun, hf, -⟩ := run_spec h (by rw [hr]; simp)
  rw [hr] at hrun
  cases hrun
  exact hf

lemma IsFile.truncates_iff (hL : L = .isingle ∨ L = .idouble ∨ L = .itriple) (h : IsFile L s ip) :
    Truncates L s ip ↔ ip.size ≤ (L.NDIRECT + L.NDIRECTIB) * BSIZE := by
  rw [Kernel.truncates_iff hL h.inv, nblk_le_iff]

/-- In the indirection trees `itrunc` releases exactly the files that end within the first index
block, whatever the calls that wrote them. -/
theorem run_truncates_iff (hL : L = .isingle ∨ L = .idouble ∨ L = .itriple) (h : EmptyFile s ip)
    (hr : run L s ip calls = .ok (rs, s', ip')) :
    Truncates L s' ip' ↔ ip'.size ≤ (L.NDIRECT + L.NDIRECTIB) * BSIZE :=
  (run_isFile (h.isFile L) hr).truncates_iff hL

theorem itriple_small_run_truncates : ∃ r s' ip', image .itriple (oneFile []) = .ok r ∧
    run .itriple (boot r.1 noDev) (iload (boot r.1 noDev) 1) [.write (fun _ => 7) 0 7168] =
      .ok ([.wrote 7168], s', ip') ∧ Truncates .itriple s' ip' := by
  obtain ⟨r, hr, hempty, hfree⟩ := empty_image .itriple noDev
  obtain ⟨s', ip', hw, -, hsize⟩ := hempty.write_ok (L := .itriple) (fun _ => 7) (n := 7168)
    (by decide) (le_trans (by decide) hfree)
  refine ⟨r, s', ip', hr, hw, ?_⟩
  exact (run_truncates_iff (.inr (.inr rfl)) hempty hw).mpr (by rw [hsize]; decide)

/-- 139 blocks written to a new file: the index block of the last one stays marked. -/
theorem itriple_large_run_not_truncates : ∃ r s' ip', image .itriple (oneFile []) = .ok r ∧
    run .itriple (boot r.1 noDev) (iload (boot r.1 noDev) 1) [.write (fun _ => 0) 0 71168] =
      .ok ([.wrote 71168], s', ip') ∧ ¬ Truncates .itriple s' ip' := by
  obtain ⟨r, hr, hempty, hfree⟩ := empty_image .itriple noDev
  obtain ⟨s', ip', hw, hf, hsize⟩ := hempty.write_ok (L := .itriple) (fun _ => 0) (n := 71168)
    (by decide) (le_trans (by decide) hfree)
  refine ⟨r, s', ip', hr, hw, ?_⟩
  rw [hf.truncates_iff (.inr (.inr rfl)), hsize]
  decide

/-! The free map under any sequence of calls. -/

inductive BlockCall where
  | balloc
  | bfree (b : ℕ)

/-- One call, with the block that `balloc` returns. -/
def BlockCall.exec : BlockCall → State → Except Panic (State × List ℕ)
  | .balloc, s => (Kernel.balloc s).map fun (b, s) => (s, [b])
  | .bfree b, s => (Kernel.bfree s b).map fun s => (s, [])

/-- `bfree` is called for an allocated block: a marked one behind the metadata. -/
def Allocated (s : State) : BlockCall → Prop
  | .balloc => True
  | .bfree b => s.sb.datastart ≤ b ∧ b < s.sb.size ∧ s.used b = true

lemma Valid.exec {c : BlockCall} {bs : List ℕ} (hv : Valid s) (hc : Allocated s c)
    (h : c.exec s = .ok (s', bs)) : Valid s' := by
  cases c with
  | balloc =>
    obtain ⟨⟨b, t⟩, hb, h⟩ := Store.map_eq_ok.mp h
    cases h
    exact (hv.balloc hb).valid hv
  | bfree b =>
    obtain ⟨t, hb, h⟩ := Store.map_eq_ok.mp h
    obtain ⟨hlow, hlt, hu⟩ := hc
    obtain ⟨t', hb', hfreed⟩ := bfree_freed hv hlow hlt hu
    rw [hb] at hb'
    cases hb'
    cases h
    exact hfreed.valid

/-- What `balloc` and `bfree` do wherever a run of them leads. -/
theorem run_free_map {s₀ : State} {bs : List ℕ} (hv : Valid s₀)
    (h : Store.Run BlockCall.exec Allocated s₀ bs s) :
    (∀ b s', balloc s = .ok (b, s') → b < s.sb.size ∧ s.used b = false ∧
      (∀ c, c < s.sb.size → (s'.used c = true ↔ s.used c = true ∨ c = b)) ∧
      s'.disk (s.sb.bblock b) = (s.disk (s.sb.bblock b)).setBit (b % BPB) ∧ s'.disk b = 0 ∧
      ∀ c, c ≠ b → c ≠ s.sb.bblock b → s'.disk c = s.disk c) ∧
    (∀ e, balloc s = .error e → ∀ b, b < s.sb.size → s.used b = true) ∧
    ∀ b, Allocated s (.bfree b) → ∃ s', bfree s b = .ok s' ∧
      (∀ c, s'.used c = true ↔ s.used c = true ∧ c ≠ b) ∧
      ∀ c, c ≠ s.sb.bblock b → s'.disk c = s.disk c := by
  have hv := h.invariant (fun _ _ _ _ hv hc hs => Valid.exec hv hc hs) hv
  refine ⟨?_, ?_, ?_⟩
  · intro b s' hb
    have hf := hv.balloc hb
    have hmap := bblock_lt_datastart hf.lt_size
    have hdata := hf.datastart_le
    obtain ⟨hlt, hun, rfl⟩ := balloc_ok hb
    refine ⟨hlt, hun, ?_, ?_, hf.zero, ?_⟩
    · intro c hc
      simp [hf.used_eq c hc, or_comm]
    · rw [logWrite_disk_of_ne (by omega), logWrite_disk_self]
    · intro c hcb hcm
      rw [logWrite_disk_of_ne hcb, logWrite_disk_of_ne hcm]
  · intro e he b hb
    by_contra hu
    have hmem : b ∈ free s := mem_free.mpr ⟨hb, by simpa using hu⟩
    simp [free_eq_empty he] at hmem
  · rintro b ⟨hlow, hlt, hu⟩
    obtain ⟨s', hs, hfreed⟩ := bfree_freed hv hlow hlt hu
    refine ⟨s', hs, hfreed.used_iff, ?_⟩
    intro c hc
    rw [hv.bfree hu] at hs
    cases hs
    exact logWrite_disk_of_ne hc

/-- On a new image `balloc` finds a block, and `bfree` gives it back. -/
theorem image_free_map : ∃ r, image .itriple (oneFile []) = .ok r ∧ ∃ a s₁ s₂,
    balloc (boot r.1 noDev) = .ok (a, s₁) ∧ s₁.used a = true ∧ bfree s₁ a = .ok s₂ ∧ s₂.used a = false := by
  obtain ⟨r, hr, hempty, hfree⟩ := empty_image .itriple noDev
  obtain ⟨c, hc⟩ : (free (boot r.1 noDev)).Nonempty :=
    Finset.card_pos.mp (lt_of_lt_of_le (by decide) hfree)
  obtain ⟨a, s₁, ha⟩ := balloc_ok_of_free hc
  have hfresh := hempty.valid.balloc ha
  have hused : s₁.used a = true := by simp [hfresh.used_eq a hfresh.lt_size]
  have hrun : Store.Run BlockCall.exec Allocated (boot r.1 noDev) ([] ++ [a]) s₁ :=
    .tail (a := BlockCall.balloc) .refl trivial (by simp [BlockCall.exec, ha, Except.map])
  obtain ⟨-, -, hbfree⟩ := run_free_map hempty.valid hrun
  obtain ⟨s₂, hs₂, hmap, -⟩ := hbfree a (by
    rw [Allocated, hfresh.sb_eq]
    exact ⟨hfresh.datastart_le, hfresh.lt_size, hused⟩)
  refine ⟨r, hr, a, s₁, s₂, ha, hused, hs₂, ?_⟩
  rw [← Bool.not_eq_true, hmap]
  exact fun h => h.2 rfl

end LearnXv6.Fs.Kernel
