import LearnXv6.Checksum.File
import LearnXv6.Fs.EmptyFile

/-! Writing a checked file: the loop of `writei` and whole runs, beside those of an ordinary file. -/
namespace LearnXv6.Checksum
open Fs Store Fs.Kernel List Kernel

variable {s s' t t' : State} {ip ip' jp jp' : Inode} {b bn m n off k : ℕ} {c : ℕ → ℕ}
  {src : ℕ → UInt8} {ws es : List Write}

/-! One pass. -/

namespace Packed

variable (h : Packed c s ip t jp m)
include h

lemma store (hbn : bn < m) (x : Block) : Packed (Function.update c bn (xorBytes x).toNat)
      ((setEntry s ip (tree t jp (path bn)) (checksum x)).1.logWrite (tree t jp (path bn)) x)
      (setEntry s ip (tree t jp (path bn)) (checksum x)).2 (t.logWrite (tree t jp (path bn)) x) jp m := by
  have hp := h.plain_setEntry hbn (xorBytes x)
  rw [← checksum_eq] at hp
  have htree : ∀ b, b < m → tree (t.logWrite (tree t jp (path bn)) x) jp (path b) =
      tree t jp (path b) := by
    intro b hb
    exact tree_logWrite_leaf h.inv.owns (h.lt_MAXFILE hbn) _ (Lab.path_mem (h.lt_MAXFILE hb))
  refine ⟨?_, ?_, hp.logWrite fun hi => ?_, h.inv.logWrite_leaf hbn, fun b hb => ?_⟩
  · rw [← h.type_eq, ← h.plain.type_eq, hp.type_eq]
  · rw [← h.size_eq, ← h.plain.sb_eq, hp.sb_eq]
    rfl
  · have hindex := hp.index.symm.trans h.plain.index
    rw [hindex] at hi ⊢
    exact h.plain.leaf_ne_index h.inv.owns (h.lt_MAXFILE hbn) hi
  · rw [htree b hb]
    by_cases hbb : b = bn
    · rw [hbb, Function.update_self, logWrite_disk_self]
    · rw [Function.update_of_ne hbb, logWrite_disk_of_ne fun he => hbb (h.inv.leaf_inj hb hbn he)]
      exact h.sum b hb

lemma bmap_mapped (hbn : bn < m) : bmap s ip bn = .ok (tree t jp (path bn), s, ip) := by
  rw [← h.blockOf_eq hbn]
  exact bmap_of_entry (h.lt_MAXFILE hbn) h.type_eq (h.plain.index_of_mapped (h.inv.leaf_ne hbn))
    (h.entry_ne hbn)

lemma bmap (hle : bn ≤ m) (hbn : bn < MAXFILE) :
    Alike (fun x y => x.1 = y.1 ∧ y.1 = tree y.2.1 y.2.2 (path bn) ∧
      Packed c x.2.1 x.2.2 y.2.1 y.2.2 (max m (bn + 1)))
      (Checksum.bmap s ip bn) (Kernel.bmap .stock t jp bn) := by
  refine (h.plain.bmap h.inv.valid h.inv.owns h.size_le hbn).with_eq.map_left ?_
  rintro ⟨w, s', ip'⟩ ⟨a, t', jp'⟩ ⟨⟨hcode, hp⟩, -, hb⟩
  obtain ⟨hinv, ha, hg⟩ := h.inv.bmap hle hbn hb
  have htype : ip'.type = T_CHECKED := by
    rw [← hp.type_eq, hg.inode_eq]
    exact h.plain.type_eq.trans h.type_eq
  refine ⟨?_, ha, htype, ?_, hp, hinv, fun b hb' => ?_⟩
  · exact (if_pos htype).trans hcode.mask_eq
  · exact (hp.sb_eq.symm.trans (hg.sb_eq.trans h.plain.sb_eq)) ▸ h.size_eq
  · by_cases hbm : b < m
    · rw [hg.leaf_disk h.inv hbm]
      exact h.sum b hbm
    · -- a new block is zero, and so is its entry's checksum
      have hbmax := hb'.trans_le (max_le h.inv.le hbn)
      have hz : tree t jp (path b) = 0 := by
        by_contra hc
        exact hbm ((h.inv.leaf_iff hbmax).mp hc)
      rw [hg.leaf_zero b hbmax hz (hinv.leaf_ne hb'), xorBytes_zero, h.plain.sum_absent hbmax hz]
      rfl

lemma writeBlock_mapped (hbn : off / BSIZE < m) {x : Block}
    (hx : x = (t.disk (tree t jp (path (off / BSIZE)))).blit (off % BSIZE) k src) :
    writeBlock s ip src off k = .ok ((setEntry s ip (tree t jp (path (off / BSIZE))) (checksum x)).1.logWrite
        (tree t jp (path (off / BSIZE))) x,
        (setEntry s ip (tree t jp (path (off / BSIZE))) (checksum x)).2) := by
  have hdisk : s.disk (tree t jp (path (off / BSIZE))) = t.disk (tree t jp (path (off / BSIZE))) := by
    rw [← h.disk_eq hbn, h.blockOf_eq hbn]
  unfold writeBlock
  rw [h.bmap_mapped hbn, ok_bind]
  dsimp only
  rw [h.bmap_mapped hbn, ok_bind]
  dsimp only
  rw [hdisk, ← hx, if_pos h.type_eq]

end Packed

/-- The pass of the loop of `writei` on an ordinary file. -/
def plainBlock (t : State) (jp : Inode) (src : ℕ → UInt8) (off k : ℕ) :
    Except Panic (State × Inode) := do
  let (addr, t, jp) ← Kernel.bmap .stock t jp (off / BSIZE)
  .ok (t.logWrite addr ((t.disk addr).blit (off % BSIZE) k src), jp)

lemma plainLoop (hn : n ≠ 0) : Kernel.writeiLoop .stock t jp src off n = (do
    let k := min n (BSIZE - off % BSIZE)
    let (t, jp) ← plainBlock t jp src off k
    Kernel.writeiLoop .stock t jp (fun i => src (k + i)) (off + k) (n - k)) := by
  rw [Kernel.writeiLoop, if_neg hn]
  unfold plainBlock
  cases Kernel.bmap .stock t jp (off / BSIZE) <;> rfl

lemma Packed.writeBlock (h : Packed c s ip t jp m) (hle : off / BSIZE ≤ m) (hbn : off / BSIZE < MAXFILE) :
    Alike (fun x y => ∃ c', Packed c' x.1 x.2 y.1 y.2 (max m (off / BSIZE + 1)))
      (writeBlock s ip src off k) (plainBlock t jp src off k) := by
  unfold Checksum.writeBlock plainBlock
  refine (h.bmap hle hbn).bind ?_
  rintro ⟨a, s1, ip1⟩ ⟨a', t1, jp1⟩ ⟨ha, ha', h1⟩
  have hlt : off / BSIZE < max m (off / BSIZE + 1) := lt_max_of_lt_right (Nat.lt_succ_self _)
  have hmapped := h1.writeBlock_mapped hlt
    (x := (t1.disk (tree t1 jp1 (path (off / BSIZE)))).blit (off % BSIZE) k src) rfl
  unfold Checksum.writeBlock at hmapped
  rw [h1.bmap_mapped hlt, ok_bind] at hmapped
  dsimp only at ha ha' hmapped ⊢
  rw [ha, ha', hmapped]
  exact ⟨_, h1.store hlt _⟩

/-! The loop. -/

lemma Packed.writeiLoop (h : Packed c s ip t jp m) (hoff : off ≤ m * BSIZE)
    (hn : off + n ≤ MAXFILE * BSIZE) :
    Alike (fun x y => ∃ c', Packed c' x.1 x.2 y.1 y.2 (max m (nblk (off + n))))
      (writeiLoop s ip src off n) (Kernel.writeiLoop .stock t jp src off n) := by
  induction n using Nat.strong_induction_on generalizing c s ip t jp off src m with
  | _ n ih =>
    by_cases hz : n = 0
    · subst hz
      have hmax : max m (nblk (off + 0)) = m := max_eq_left (nblk_le_iff.mpr hoff)
      unfold Checksum.writeiLoop Kernel.writeiLoop
      rw [if_pos rfl, if_pos rfl, hmax]
      exact ⟨c, h⟩
    · have hpos := min_block_pos off hz
      have hbm : off / BSIZE ≤ m := by
        rw [BSIZE_eq] at *
        omega
      have hbn : off / BSIZE < MAXFILE := by
        rw [BSIZE_eq] at *
        omega
      rw [Checksum.writeiLoop, if_neg hz, plainLoop hz]
      refine (h.writeBlock hbm hbn).bind ?_
      rintro ⟨s1, ip1⟩ ⟨t1, jp1⟩ ⟨c1, h1⟩
      have hend := add_min_block_le m off n
      have hmax := max_block_nblk m off hz
      generalize hk : min n (BSIZE - off % BSIZE) = k at *
      have hnk : off + k + (n - k) = off + n := by omega
      have hrest : Alike _ (Checksum.writeiLoop s1 ip1 (fun i => src (k + i)) (off + k) (n - k)) _ :=
        ih (n - k) (by omega) h1 hend (by omega)
      rwa [hnk, hmax] at hrest

/-! Whole calls. -/

lemma Plain.iupdate (hp : Plain c s ip t jp) (ho : Kernel.Owns .stock t jp) :
    Plain c (Kernel.iupdate s { ip with size := n }) { ip with size := n }
      (Kernel.iupdate t { jp with size := n }) { jp with size := n } := by
  have hlow := ho.inode_lt
  have hge := iblock_le t.sb jp.inum
  rw [hp.sb_eq, hp.inum_eq] at hlow hge
  have hkeep : ∀ (u : State) (i : Inode), u.sb.iblock i.inum = s.sb.iblock ip.inum →
      ∀ b, b < s.sb.inodestart ∨ s.sb.bmapstart ≤ b → (Kernel.iupdate u i).disk b = u.disk b := by
    intro u i hi b hb
    refine logWrite_disk_of_ne ?_
    rw [hi]
    omega
  have hs := hkeep s { ip with size := n } rfl
  have ht := hkeep t { jp with size := n } (by rw [hp.sb_eq]; exact congrArg _ hp.inum_eq)
  refine ⟨hp.sb_eq, congrArg (fun i : Inode => { i with size := n }) hp.inode_eq, hp.direct, hp.index,
    fun hi k hk => ?_, hp.absent, fun b hb hbi => ?_⟩
  · have hdata := (owned_index ho (hp.index ▸ hi)).1
    have hmap := bmapstart_lt_datastart t.sb
    rw [hp.index, hp.sb_eq] at hdata
    rw [hp.sb_eq] at hmap
    have hindex := hmap.le.trans hdata
    unfold State.word
    rw [hs _ (.inr hindex), ht _ (.inr hindex)]
    exact hp.word hi k hk
  · rw [hs b hb, ht b hb]
    exact hp.disk b hb hbi

lemma Packed.iupdate (h : Packed c s ip t jp m) :
    Packed c (Kernel.iupdate s { ip with size := n }) { ip with size := n }
      (Kernel.iupdate t { jp with size := n }) { jp with size := n } m := by
  have hlow := h.inv.owns.inode_lt
  refine ⟨h.type_eq, h.size_eq, h.plain.iupdate h.inv.owns, ?_, fun bn hbn => ?_⟩
  · exact (h.inv.logWrite_inode hlow (iblock_le _ _)).of_addrs rfl rfl
  · have hmem := Lab.path_mem (h.lt_MAXFILE hbn)
    rw [h.sum bn hbn]
    refine congrArg (fun x => (xorBytes x).toNat) ?_
    calc t.disk (tree t jp (path bn))
        = (Kernel.iupdate t { jp with size := n }).disk (tree t jp (path bn)) :=
          (logWrite_low_data hlow h.inv.owns hmem (h.inv.leaf_ne hbn)).symm
      _ = (Kernel.iupdate t { jp with size := n }).disk
          (tree (Kernel.iupdate t { jp with size := n }) { jp with size := n } (path bn)) :=
          congrArg _ (tree_logWrite_low hlow h.inv.owns _ hmem).symm

lemma Packed.writei (h : Packed c s ip t jp (nblk ip.size)) (hoff : off < 2 ^ 32) (hn : n < 2 ^ 32) :
    Alike (fun x y => x.1 = y.1 ∧ ∃ c', Packed c' x.2.1 x.2.2 y.2.1 y.2.2 (nblk x.2.2.size))
      (writei s ip src off n) (Kernel.writei .stock t jp src off n) := by
  have hdev : ip.type ≠ T_DEV := by
    rw [h.type_eq]
    decide
  unfold Checksum.writei Kernel.writei
  rw [h.plain.type_eq, h.plain.size_eq, if_neg hdev, if_neg hdev,
    show Lab.stock.MAXFILE = MAXFILE from rfl]
  split
  · exact ⟨rfl, c, h⟩
  split
  · exact ⟨rfl, c, h⟩
  rename_i hend hmax
  have hlen : off + n ≤ MAXFILE * BSIZE := by
    have : MAXFILE * BSIZE < 2 ^ 32 := by decide
    omega
  have hcover : off ≤ nblk ip.size * BSIZE := by
    have := nblk_le_iff.mp (le_refl (nblk ip.size))
    omega
  refine (h.writeiLoop hcover hlen).with_eq.bind ?_
  rintro ⟨s1, ip1⟩ ⟨t1, jp1⟩ ⟨⟨c1, h1⟩, -, hloop⟩
  have hwrote := writeiLoop_spec h.inv hcover hlen hloop
  have hsize : jp1.size = ip.size := by
    rw [hwrote.inode_eq]
    exact h.plain.size_eq
  have hsize' := h1.plain.size_eq.symm.trans hsize
  dsimp only
  rw [hsize, hsize']
  have hblocks : max (nblk ip.size) (nblk (off + n)) = nblk (max ip.size (off + n)) := by
    simp only [nblk, BSIZE_eq]
    omega
  dsimp only at h1
  rw [hblocks] at h1
  split
  · rename_i hgrow
    rw [max_eq_right hgrow.2.le] at h1
    exact ⟨rfl, c1, h1.iupdate⟩
  · rename_i hgrow
    have hle : max ip.size (off + n) = ip.size := by omega
    rw [hle] at h1
    refine ⟨rfl, c1, ?_⟩
    dsimp only
    rwa [hsize']

/-! Runs. -/

/-- The bytes that successful calls leave in a new file. -/
def stored (ws : List Write) : List UInt8 :=
  ws.foldl (fun c w => overwrite c w.off.toNat w.n.toNat w.src) []

/-- A new file of type T_CHECKED, in a file system of the size that `mkfs` makes. -/
structure NewFile (s : State) (ip : Inode) : Prop extends EmptyFile s ip where
  type_eq : ip.type = T_CHECKED
  fssize : s.sb.size = FSSIZE

/-- What a run of calls makes of a new file. -/
def Written (ws : List Write) (x : State × Inode) : Prop :=
  ∃ c t jp, Packed c x.1 x.2 t jp (nblk x.2.size) ∧ Kernel.content .stock t jp = stored ws

lemma NewFile.packed (h : NewFile s ip) : Packed (fun _ => 0) s ip s ip (nblk ip.size) := by
  have haddrs : ∀ k, k ≤ NDIRECT → ip.addrs k = 0 := fun k hk => h.addrs_eq k (Nat.lt_succ_of_le hk)
  have hz : nblk ip.size = 0 := by
    rw [h.size_eq]
    rfl
  refine ⟨h.type_eq, h.fssize, Plain.refl (fun k hk => ?_) (haddrs _ le_rfl), (h.isFile .stock).inv,
    fun bn hbn => ?_⟩
  · rw [haddrs k hk.le]
    decide
  · omega

lemma NewFile.written (h : NewFile s ip) : Written [] (s, ip) :=
  ⟨_, s, ip, h.packed, h.content_eq .stock⟩

lemma Written.step {w : Write} {x x' : State × Inode} (h : Written ws x)
    (hs : step w x = .ok (x', es)) : Written (ws ++ es) x' := by
  obtain ⟨c, t, jp, hpack, hcontent⟩ := h
  obtain ⟨⟨r, s', ip'⟩, hw, hok⟩ := bind_eq_ok.mp hs
  obtain ⟨rfl, rfl⟩ := Prod.mk.inj (Except.ok.inj hok)
  obtain ⟨⟨r', t', jp'⟩, hw', hr, c', hpack'⟩ := (hpack.writei w.off.toNat_lt w.n.toNat_lt).of_ok hw
  obtain rfl : r = r' := hr
  have hfile : IsFile .stock t jp := by
    refine ⟨by rw [hpack.plain.size_eq]; exact hpack.inv, ?_⟩
    rw [hpack.plain.type_eq, hpack.type_eq]
    decide
  refine ⟨c', t', jp', hpack', ?_⟩
  by_cases ha : Accepts .stock jp.size w.off.toNat w.n.toNat
  · obtain ⟨rfl, -, hover⟩ := writei_spec hfile ha hw'
    rw [if_neg (by omega), hover, hcontent]
    unfold stored
    rw [foldl_append]
    rfl
  · rw [writei_reject hfile w.off.toNat_lt w.n.toNat_lt ha] at hw'
    obtain ⟨rfl, he⟩ := Prod.mk.inj (Except.ok.inj hw')
    obtain ⟨rfl, rfl⟩ := Prod.mk.inj he
    rw [if_pos (by decide), append_nil]
    exact hcontent

lemma run_written {C : State × Inode → Write → Prop} {x : State × Inode} (h : NewFile s ip)
    (hrun : Run step C (s, ip) ws x) : Written ws x :=
  hrun.history (fun _ _ _ _ _ hi _ hs => hi.step hs) h.written

lemma Written.size_eq {x : State × Inode} (h : Written ws x) : (stored ws).length = x.2.size := by
  obtain ⟨c, t, jp, hpack, hcontent⟩ := h
  rw [← hcontent, content_length, hpack.plain.size_eq]

lemma Written.byte_eq (h : Written ws (s, ip)) {i : ℕ} (hi : i < ip.size) :
    (s.disk (blockOf s ip (i / BSIZE))).byte (i % BSIZE) = (stored ws).getD i 0 := by
  obtain ⟨c, t, jp, hpack, hcontent⟩ := h
  have hbn : i / BSIZE < nblk ip.size := by
    rw [lt_nblk_iff, BSIZE_eq]
    omega
  have hlen : i < (List.range jp.size).length := by
    rw [length_range, hpack.plain.size_eq]
    exact hi
  rw [hpack.disk_eq hbn, ← hcontent]
  unfold Kernel.content
  rw [getD_eq_getElem _ _ (by rwa [length_map]), getElem_map, getElem_range]
  rfl

lemma Written.block_eq (h : Written ws (s, ip)) (hfull : (bn + 1) * BSIZE ≤ ip.size) {x : Block}
    (hx : ∀ i, i < BSIZE → (stored ws).getD (bn * BSIZE + i) 0 = x.byte i) :
    s.disk (blockOf s ip bn) = x := by
  apply Block.ext_byte
  intro i hi
  have hdiv := mul_block_add bn hi
  have hbyte := h.byte_eq (i := bn * BSIZE + i) (by rw [BSIZE_eq] at *; omega)
  rw [hdiv.1, hdiv.2] at hbyte
  rw [hbyte, hx i hi]

lemma iload_iupdate (h : ip.dinode.Fits) : Kernel.iload (Kernel.iupdate s ip) ip.inum = ip := by
  have hslot : ip.inum % IPB < IPB := Nat.mod_lt _ (by decide)
  unfold Kernel.iload Kernel.iupdate
  simp only [logWrite_sb, logWrite_disk_self, Dinode.read_write hslot h]
  rfl

/-! A new file in the image that `mkfs` makes. -/

lemma NewFile.write_ok (h : NewFile s ip) (w : Write) (hoff : w.off = 0)
    (hn : w.n.toNat ≤ MAXFILE * BSIZE) (hroom : 4 * nblk w.n.toNat ≤ (Kernel.free s).card) :
    ∃ x, step w (s, ip) = .ok (x, [w]) := by
  have ha : Accepts .stock ip.size w.off.toNat w.n.toNat := by
    rw [hoff]
    refine ⟨Nat.zero_le _, ?_⟩
    rw [UInt32.toNat_zero, Nat.zero_add]
    exact hn
  obtain ⟨t', jp', hw'⟩ := writei_ok (h.isFile .stock) ha (by rw [hoff]; simpa using hroom)
  obtain ⟨⟨r, s', ip'⟩, hw, hr, -⟩ := (h.packed.writei w.off.toNat_lt w.n.toNat_lt).ok_of hw'
  obtain rfl := hr
  refine ⟨(s', ip'), ?_⟩
  unfold step
  rw [hw, ok_bind]
  dsimp only
  rw [if_neg (by omega)]

lemma exists_newFile : ∃ s ip, NewFile s ip ∧ Kernel.iload s ip.inum = ip ∧
    4 * MAXFILE ≤ (Kernel.free s).card := by
  obtain ⟨r, hr, hempty, hfree⟩ := Mkfs.empty_image .stock Mkfs.noDev
  obtain ⟨_, -, -, hf, -⟩ := Mkfs.image_spec (Mkfs.oneFile_wellFormed []) hr
  generalize hs : Mkfs.boot r.1 Mkfs.noDev = s at *
  have hsb := hs ▸ Mkfs.boot_sb hf
  have hlow := hempty.inode_lt
  refine ⟨Kernel.iupdate s { Kernel.iload s 1 with type := T_CHECKED },
    { Kernel.iload s 1 with type := T_CHECKED }, ⟨⟨?_, hlow, ?_, hempty.size_eq, hempty.addrs_eq⟩,
    rfl, congrArg Superblock.size hsb⟩, ?_, ?_⟩
  · exact hempty.valid.logWrite_inode (iblock_le _ _) hlow
  · show T_CHECKED ≠ T_DEV
    decide
  · have hfits := Dinode.read_fits (s.disk (s.sb.iblock 1)) (1 % IPB)
    exact iload_iupdate ⟨show T_CHECKED < 2 ^ 16 by decide, hfits.major_lt, hfits.minor_lt,
      hfits.nlink_lt, hfits.size_lt, hfits.addrs_lt, hfits.addrs_ge⟩
  · have hsame : Kernel.free (Kernel.iupdate s { Kernel.iload s 1 with type := T_CHECKED }) =
        Kernel.free s := by
      ext b
      rw [mem_free, mem_free]
      exact and_congr Iff.rfl (iff_of_eq (congrArg (· = false) (used_logWrite_low hlow b)))
    rw [hsame]
    exact le_trans (by decide) hfree

/-- The block with a single byte. -/
def oneByte (v : UInt8) : Block := Block.blit 0 0 1 fun _ => v

/-- The call that writes the block at the start of a file. -/
def writeFirst (b : Block) : Write := ⟨b.byte, 0, 512⟩

lemma exists_firstBlock (b : Block) : ∃ s0 ip0 s ip, NewFile s0 ip0 ∧ Kernel.iload s0 ip0.inum = ip0 ∧
    step (writeFirst b) (s0, ip0) = .ok ((s, ip), [writeFirst b]) ∧ ip.size = 512 ∧
    s.disk (blockOf s ip 0) = b := by
  obtain ⟨s0, ip0, hnew, hload, hroom⟩ := exists_newFile
  obtain ⟨⟨s, ip⟩, hs⟩ := hnew.write_ok (writeFirst b) rfl
    (show (512 : UInt32).toNat ≤ MAXFILE * BSIZE by decide)
    (le_trans (show 4 * nblk (512 : UInt32).toNat ≤ 4 * MAXFILE by decide) hroom)
  have hw : Written [writeFirst b] (s, ip) := hnew.written.step hs
  have hstored : stored [writeFirst b] = (List.range 512).map b.byte := by
    simp [stored, Kernel.overwrite, writeFirst]
  have hsize : ip.size = 512 := by
    rw [← hw.size_eq, hstored, length_map, length_range]
  refine ⟨s0, ip0, s, ip, hnew, hload, hs, hsize, hw.block_eq (by rw [hsize]; decide) fun i hi => ?_⟩
  have hlt : i < 512 := hi
  simp [hstored, hlt]

lemma exists_firstRun (b : Block) : ∃ s₀ ip₀ s ip, NewFile s₀ ip₀ ∧
    Run step (fun _ _ => True) (s₀, ip₀) [writeFirst b] (s, ip) ∧ ip.size = 512 ∧
    s.disk (blockOf s ip 0) = b ∧ ∃ c t jp, Packed c s ip t jp (nblk ip.size) := by
  obtain ⟨s₀, ip₀, s, ip, hnew, -, hs, hsize, hblock⟩ := exists_firstBlock b
  have hrun : Run step (fun _ _ => True) (s₀, ip₀) [writeFirst b] (s, ip) := .tail .refl trivial hs
  obtain ⟨c, t, jp, hpack, -⟩ := run_written hnew hrun
  exact ⟨s₀, ip₀, s, ip, hnew, hrun, hsize, hblock, c, t, jp, hpack⟩

end LearnXv6.Checksum
