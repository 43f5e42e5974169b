import LearnXv6.Checksum.Write

/-! Loading a checked file again: the entries in memory, and those that `iupdate` has put on the disk. -/
namespace LearnXv6.Checksum
open Fs Store Fs.Kernel Kernel

variable {s s' s₀ t : State} {ip ip' ip₀ jp : Inode} {b bn k m n off : ℕ} {c : ℕ → ℕ}
  {src : ℕ → UInt8} {ws es : List Write}

/-- The file, loaded by `ilock`, has its size, its blocks and a checksum for each block. -/
def Reloads (x : State × Inode) : Prop :=
  (iload x.1 x.2.inum).size = x.2.size ∧ ∀ bn, bn < nblk x.2.size →
    blockOf x.1 (iload x.1 x.2.inum) bn = blockOf x.1 x.2 bn ∧
    sumOf x.1 (iload x.1 x.2.inum) bn = (xorBytes (x.1.disk (blockOf x.1 x.2 bn))).toNat

/-- Block `bn` of the file after the call. -/
def written (w : Write) (bn : ℕ) (v : Block) : Block := fun i =>
  if w.off.toNat ≤ bn * BSIZE + i ∧ bn * BSIZE + i < w.off.toNat + w.n.toNat then
    w.src (bn * BSIZE + i - w.off.toNat)
  else v i

/-- A call that `writei` rejects, that extends the file, or that leaves the XOR of its direct blocks. -/
def Safe (x : State × Inode) (w : Write) : Prop :=
  ¬ Accepts .stock x.2.size w.off.toNat w.n.toNat ∨
  0 < w.n.toNat ∧ x.2.size < w.off.toNat + w.n.toNat ∨
  ∀ bn, bn < NDIRECT → bn < nblk x.2.size →
    xorBytes (written w bn (x.1.disk (blockOf x.1 x.2 bn))) = xorBytes (x.1.disk (blockOf x.1 x.2 bn))

/-! Writing in place. -/

lemma setEntry_disk_of_ne {a : ℕ} {x : BitVec 32} (hne : b ≠ ip.addrs NDIRECT) :
    (setEntry s ip a x).1.disk b = s.disk b := by
  unfold setEntry
  split
  · rfl
  · dsimp only
    split
    · exact logWrite_disk_of_ne hne
    · rfl

/-- A write inside the blocks that the file has: no block is mapped and no inode block written. -/
lemma Packed.writeiLoop_inPlace (h : Packed c s ip t jp m) (hend : off + n ≤ m * BSIZE) (src : ℕ → UInt8) :
    ∃ s' ip' c' t', Checksum.writeiLoop s ip src off n = .ok (s', ip') ∧
      Kernel.writeiLoop .stock t jp src off n = .ok (t', jp) ∧ Packed c' s' ip' t' jp m ∧
      ∀ b, s.sb.inodestart ≤ b → b < s.sb.bmapstart → s'.disk b = s.disk b := by
  induction n using Nat.strong_induction_on generalizing c s ip t off src with
  | _ n ih =>
    by_cases hz : n = 0
    · subst hz
      refine ⟨s, ip, c, t, ?_, ?_, h, fun _ _ _ => rfl⟩
      · rw [Checksum.writeiLoop, if_pos rfl]
      · rw [Kernel.writeiLoop, if_pos rfl]
    · have hpos := min_block_pos off hz
      have hbn : off / BSIZE < m := by
        rw [BSIZE_eq] at *
        omega
      generalize hk : min n (BSIZE - off % BSIZE) = k at hpos
      have h1 := h.store hbn ((t.disk (tree t jp (path (off / BSIZE)))).blit (off % BSIZE) k src)
      obtain ⟨s', ip', c', t', hs', ht', h', hlow⟩ :=
        ih (n - k) (by omega) h1 (show off + k + (n - k) ≤ _ by omega) fun i => src (k + i)
      refine ⟨s', ip', c', t', ?_, ?_, h', fun b hge hb => ?_⟩
      · rw [Checksum.writeiLoop, if_neg hz]
        dsimp only
        rw [hk, h.writeBlock_mapped hbn rfl, ok_bind]
        exact hs'
      · rw [plainLoop hz]
        dsimp only
        rw [hk, plainBlock, bmap_of_mapped (h.lt_MAXFILE hbn) (h.inv.leaf_ne hbn), ok_bind]
        exact ht'
      · have hmap := bmapstart_lt_datastart t.sb
        have hleaf : t.sb.datastart ≤ tree t jp (path (off / BSIZE)) :=
          (h.inv.owns.owned _ (Lab.path_mem (h.lt_MAXFILE hbn)) (h.inv.leaf_ne hbn)).1
        have hsuper := h.inv.valid.super_lt
        have hindex := fun hi => (owned_index h.inv.owns hi).1
        have hsb : t.sb = _ := h1.plain.sb_eq
        rw [h.plain.index] at hindex
        rw [← h.plain.sb_eq] at hge hb
        rw [hlow b (hsb ▸ hge) (hsb ▸ hb), logWrite_disk_of_ne (by omega)]
        refine setEntry_disk_of_ne fun he => ?_
        by_cases hi : ip.addrs NDIRECT = 0
        · omega
        · have := hindex hi
          omega

lemma byte_written (w : Write) (v : Block) {i : ℕ} (hi : i < BSIZE) :
    (written w bn v).byte i =
      if w.off.toNat ≤ bn * BSIZE + i ∧ bn * BSIZE + i < w.off.toNat + w.n.toNat then
        w.src (bn * BSIZE + i - w.off.toNat)
      else v.byte i := by
  unfold Block.byte written
  rw [dif_pos hi, dif_pos hi]

lemma wrote_block {w : Write} {t' : State}
    (hw : Kernel.Wrote .stock t jp m w.src w.off.toNat w.n.toNat t' jp) (hbn : bn < m) :
    t'.disk (tree t' jp (path bn)) = written w bn (t.disk (tree t jp (path bn))) := by
  apply Block.ext_byte
  intro i hi
  have hdiv := mul_block_add bn hi
  have hlt : bn * BSIZE + i < m * BSIZE := by
    rw [BSIZE_eq] at *
    omega
  have hbyte := hw.byte_eq (bn * BSIZE + i) (.inr hlt)
  unfold fileByte at hbyte
  rw [hdiv.1, hdiv.2] at hbyte
  rw [hbyte, byte_written w _ hi]

/-! The inode on the disk. -/

/-- The inode block holds what the inode in memory does. -/
structure Stored (s : State) (ip : Inode) : Prop where
  size : (iload s ip.inum).size = ip.size
  addrs : ∀ k, k ≤ NDIRECT → (iload s ip.inum).addrs k = ip.addrs k

lemma Stored.of_iload (h : iload s ip.inum = ip) : Stored s ip :=
  ⟨congrArg Inode.size h, fun k _ => congrArg (fun i : Inode => i.addrs k) h⟩

lemma Stored.entry_eq (h : Stored s ip) (bn : ℕ) : entry s (iload s ip.inum) bn = entry s ip bn := by
  unfold entry
  rw [h.addrs NDIRECT le_rfl]
  split
  · rename_i hd
    exact h.addrs bn hd.le
  · rfl

lemma Stored.reloads (h : Stored s ip) (hpack : Packed c s ip t jp (nblk ip.size)) : Reloads (s, ip) := by
  refine ⟨h.size, fun bn hbn => ⟨?_, ?_⟩⟩
  · exact congrArg mask (h.entry_eq bn)
  · rw [← hpack.sumOf_eq hbn]
    exact congrArg (· / 2 ^ 24) (h.entry_eq bn)

lemma Packed.addrs_lt (h : Packed c s ip t jp m) (hk : k ≤ NDIRECT) : ip.addrs k < 2 ^ 32 := by
  rcases hk.lt_or_eq with hd | rfl
  · have hcode := h.plain.direct k hd
    have heq := hcode.eq
    have hlt := hcode.lt
    have hc : c k < 256 := by
      by_cases hm : k < m
      · rw [h.sum k hm]
        exact (xorBytes _).toNat_lt
      · rw [h.plain.sum_absent (hd.trans (by decide)) ?_]
        · decide
        · by_contra hne
          exact hm ((h.inv.leaf_iff (hd.trans (by decide))).mp hne)
    omega
  · by_cases hi : ip.addrs NDIRECT = 0
    · rw [hi]
      decide
    · have hlt := (owned_index h.inv.owns (by rwa [h.plain.index])).2.1
      rw [h.plain.index] at hlt
      exact h.inv.valid.lt_of_lt_size hlt

lemma Stored.iupdate (haddrs : ∀ k, k ≤ NDIRECT → ip.addrs k < 2 ^ 32) (hsize : ip.size < 2 ^ 32) :
    Stored (Kernel.iupdate s ip) ip := by
  have hslot : ip.inum % IPB < IPB := Nat.mod_lt _ (by decide)
  have hread : ∀ d, d = Dinode.read ((Kernel.iupdate s ip).disk (s.sb.iblock ip.inum))
      (ip.inum % IPB) → d.size = ip.size ∧ ∀ k, k ≤ NDIRECT → d.addrs k = ip.addrs k := by
    rintro d rfl
    unfold Kernel.iupdate
    rw [logWrite_disk_self]
    refine ⟨?_, fun k hk => ?_⟩
    · rw [Dinode.read_write_size hslot]
      exact Nat.mod_eq_of_lt hsize
    · rw [Dinode.read_write_addrs hslot (Nat.lt_succ_of_le hk)]
      exact Nat.mod_eq_of_lt (haddrs k hk)
  exact ⟨(hread _ rfl).1, (hread _ rfl).2⟩

/-! One call. -/

lemma writei_reject (htype : ip.type = T_CHECKED) (hoff : off < 2 ^ 32) (hn : n < 2 ^ 32)
    (ha : ¬ Accepts .stock ip.size off n) : writei s ip src off n = .ok (-1, s, ip) := by
  have hmax : MAXFILE * BSIZE < 2 ^ 32 := by decide
  have hrej : ¬ (off ≤ ip.size ∧ off + n ≤ MAXFILE * BSIZE) := ha
  unfold writei
  rw [if_neg (by rw [htype]; decide)]
  by_cases h1 : ip.size < off ∨ (off + n) % 2 ^ 32 < off
  · rw [if_pos h1]
  · rw [if_neg h1, if_pos]
    omega

lemma writei_accept (htype : ip.type = T_CHECKED) (ha : Accepts .stock ip.size off n) :
    writei s ip src off n = (do
      let (s, ip) ← writeiLoop s ip src off n
      if 0 < n ∧ ip.size < off + n then
        let ip := { ip with size := off + n }
        .ok ((n : ℤ), Kernel.iupdate s ip, ip)
      else .ok ((n : ℤ), s, ip)) := by
  have hmax : MAXFILE * BSIZE < 2 ^ 32 := by decide
  obtain ⟨h1, h2⟩ : off ≤ ip.size ∧ off + n ≤ MAXFILE * BSIZE := ha
  unfold writei
  rw [if_neg (by rw [htype]; decide), if_neg (by omega), if_neg (by omega)]

lemma Packed.writei_inPlace (h : Packed c s ip t jp (nblk ip.size)) {w : Write}
    (ha : Accepts .stock ip.size w.off.toNat w.n.toNat)
    (hend : ¬ (0 < w.n.toNat ∧ ip.size < w.off.toNat + w.n.toNat)) :
    ∃ s' ip' c' t', Checksum.writei s ip w.src w.off.toNat w.n.toNat = .ok ((w.n.toNat : ℤ), s', ip') ∧
      Packed c' s' ip' t' jp (nblk ip.size) ∧ iload s' ip'.inum = iload s ip.inum ∧
      ∀ bn, bn < nblk ip.size → c' bn = (xorBytes (written w bn (s.disk (blockOf s ip bn)))).toNat := by
  have hcover := nblk_le_iff.mp (le_refl (nblk ip.size))
  have hoff := ha.1
  have hin : w.off.toNat + w.n.toNat ≤ nblk ip.size * BSIZE := by omega
  obtain ⟨s', ip', c', t', hs', ht', h', hlow⟩ := h.writeiLoop_inPlace hin w.src
  have hwrote := writeiLoop_spec h.inv (hoff.trans hcover) ha.2 ht'
  have hsize := h'.plain.size_eq.symm.trans h.plain.size_eq
  have hinum := h'.plain.inum_eq.symm.trans h.plain.inum_eq
  have hsb := h'.plain.sb_eq.symm.trans (hwrote.sb_eq.trans h.plain.sb_eq)
  have hblock : s'.disk (s.sb.iblock ip.inum) = s.disk (s.sb.iblock ip.inum) := by
    refine hlow _ (iblock_le _ _) ?_
    rw [← h.plain.sb_eq, ← h.plain.inum_eq]
    exact h.inv.owns.inode_lt
  refine ⟨s', ip', c', t', ?_, h', ?_, fun bn hbn => ?_⟩
  · rw [writei_accept h.type_eq ha, hs', ok_bind]
    dsimp only
    rw [hsize, if_neg hend]
  · unfold iload
    rw [hinum, hsb, hblock]
  · rw [h'.sum bn hbn, wrote_block hwrote hbn, h.disk_eq hbn]

lemma Stored.step {w : Write} {x x' : State × Inode} (hw : Written ws x) (hst : Stored x.1 x.2)
    (hsafe : Safe x w) (hs : step w x = .ok (x', es)) : Stored x'.1 x'.2 := by
  obtain ⟨s, ip⟩ := x
  obtain ⟨c, t, jp, hpack, -⟩ := hw
  obtain ⟨⟨r, s', ip'⟩, hwrite, hok⟩ := bind_eq_ok.mp hs
  obtain ⟨rfl, -⟩ := Prod.mk.inj (Except.ok.inj hok)
  dsimp only at hpack hst hwrite ⊢
  by_cases ha : Accepts .stock ip.size w.off.toNat w.n.toNat
  · by_cases hgrow : 0 < w.n.toNat ∧ ip.size < w.off.toNat + w.n.toNat
    · -- the file grows, and `iupdate` writes the entries back
      have hcover := nblk_le_iff.mp (le_refl (nblk ip.size))
      have hlen := ha.2
      rw [writei_accept hpack.type_eq ha] at hwrite
      obtain ⟨⟨s1, ip1⟩, hloop, h⟩ := bind_eq_ok.mp hwrite
      obtain ⟨⟨t1, jp1⟩, hloop', c1, hpack1⟩ := (hpack.writeiLoop (ha.1.trans hcover) hlen).of_ok hloop
      have hwrote := writeiLoop_spec hpack.inv (ha.1.trans hcover) ha.2 hloop'
      have hsize : ip1.size = ip.size := by
        rw [← hpack1.plain.size_eq, hwrote.inode_eq]
        exact hpack.plain.size_eq
      dsimp only at h
      rw [hsize, if_pos hgrow] at h
      obtain ⟨-, he⟩ := Prod.mk.inj (Except.ok.inj h)
      obtain ⟨rfl, rfl⟩ := Prod.mk.inj he
      have hmax : MAXFILE * BSIZE < 2 ^ 32 := by decide
      exact Stored.iupdate (fun k hk => hpack1.addrs_lt hk) (hlen.trans_lt hmax)
    · obtain ⟨s1, ip1, c', t', hwrite', hpack', hload, hsum⟩ := hpack.writei_inPlace ha hgrow
      rw [hwrite] at hwrite'
      obtain ⟨-, he⟩ := Prod.mk.inj (Except.ok.inj hwrite')
      obtain ⟨rfl, rfl⟩ := Prod.mk.inj he
      have hkeep := (hsafe.resolve_left (not_not.mpr ha)).resolve_left hgrow
      refine ⟨?_, fun k hk => ?_⟩
      · rw [hload, hst.size, ← hpack.plain.size_eq, hpack'.plain.size_eq]
      · rw [hload, hst.addrs k hk]
        rcases hk.lt_or_eq with hd | rfl
        · have hck : c k = c' k := by
            by_cases hm : k < nblk ip.size
            · rw [hsum k hm, hkeep k hd hm, hpack.sum k hm, hpack.disk_eq hm]
            · have hz : tree t jp (path k) = 0 := by
                by_contra hne
                exact hm ((hpack.inv.leaf_iff (hd.trans (by decide))).mp hne)
              have hz' : tree t' jp (path k) = 0 := by
                by_contra hne
                exact hm ((hpack'.inv.leaf_iff (hd.trans (by decide))).mp hne)
              rw [hpack.plain.sum_absent (hd.trans (by decide)) hz,
                hpack'.plain.sum_absent (hd.trans (by decide)) hz']
          rw [(hpack.plain.direct k hd).eq, (hpack'.plain.direct k hd).eq, hck]
        · rw [← hpack.plain.index, hpack'.plain.index]
  · rw [writei_reject hpack.type_eq w.off.toNat_lt w.n.toNat_lt ha] at hwrite
    obtain ⟨-, he⟩ := Prod.mk.inj (Except.ok.inj hwrite)
    obtain ⟨rfl, rfl⟩ := Prod.mk.inj he
    exact hst

/-- In every run of calls that extend the file or keep the XOR of its direct blocks, the inode on the
disk has the checksums of the blocks. -/
theorem run_reloads {x : State × Inode} (h : NewFile s₀ ip₀) (hload : iload s₀ ip₀.inum = ip₀)
    (hrun : Run step Safe (s₀, ip₀) ws x) : Reloads x := by
  have hinv : Written ws x ∧ Stored x.1 x.2 := by
    refine hrun.history (I := fun ws x => Written ws x ∧ Stored x.1 x.2) ?_
      ⟨h.written, Stored.of_iload hload⟩
    rintro ws x w x' es ⟨hw, hst⟩ hsafe hs
    exact ⟨hw.step hs, hst.step hw hsafe hs⟩
  obtain ⟨⟨c, t, jp, hpack, -⟩, hst⟩ := hinv
  exact hst.reloads hpack

lemma written_writeFirst (b v : Block) : written (writeFirst b) 0 v = b := by
  apply Block.ext_byte
  intro i hi
  have hlt : i < 512 := hi
  rw [byte_written _ _ hi]
  simp [writeFirst, hlt]

lemma exists_overwrite (b b' : Block) : ∃ s₀ ip₀ s ip s' ip', NewFile s₀ ip₀ ∧
    iload s₀ ip₀.inum = ip₀ ∧ step (writeFirst b) (s₀, ip₀) = .ok ((s, ip), [writeFirst b]) ∧
    step (writeFirst b') (s, ip) = .ok ((s', ip'), [writeFirst b']) ∧ ip.size = 512 ∧
    ip'.size = 512 ∧ s.disk (blockOf s ip 0) = b ∧ s'.disk (blockOf s' ip' 0) = b' ∧
    iload s' ip'.inum = iload s ip.inum := by
  obtain ⟨s₀, ip₀, s, ip, hnew, hload, hs, hsize, hblock⟩ := exists_firstBlock b
  have hw := hnew.written.step hs
  have hfile := hw
  obtain ⟨c, t, jp, hpack, -⟩ := hfile
  have ha : Accepts .stock ip.size (writeFirst b').off.toNat (writeFirst b').n.toNat :=
    ⟨Nat.zero_le _, show 0 + (512 : UInt32).toNat ≤ 140 * BSIZE by decide⟩
  have hin : ¬ (0 < (writeFirst b').n.toNat ∧
      ip.size < (writeFirst b').off.toNat + (writeFirst b').n.toNat) := by
    rw [hsize]
    exact fun hc => lt_irrefl 512 hc.2
  obtain ⟨s', ip', c', t', hwrite, hpack', hload', -⟩ := hpack.writei_inPlace ha hin
  have hs' : step (writeFirst b') (s, ip) = .ok ((s', ip'), [writeFirst b']) := by
    unfold step
    rw [hwrite, ok_bind]
    dsimp only
    rw [if_neg (by omega)]
  have hw' : Written ([writeFirst b] ++ [writeFirst b']) (s', ip') := hw.step hs'
  have hstored : stored ([writeFirst b] ++ [writeFirst b']) = (List.range 512).map b'.byte := by
    simp [stored, Kernel.overwrite, writeFirst]
  have hsize' : ip'.size = 512 := by
    rw [← hw'.size_eq, hstored, List.length_map, List.length_range]
  refine ⟨s₀, ip₀, s, ip, s', ip', hnew, hload, hs, hs', hsize, hsize', hblock, ?_, hload'⟩
  refine hw'.block_eq (by rw [hsize']; decide) fun i hi => ?_
  have hlt : i < 512 := hi
  rw [hstored]
  simp [hlt]

lemma safe_first (h : NewFile s₀ ip₀) (b : Block) : Safe (s₀, ip₀) (writeFirst b) := by
  refine .inr (.inl ⟨show 0 < (512 : UInt32).toNat by decide, ?_⟩)
  rw [show (s₀, ip₀).2.size = 0 from h.size_eq]
  exact show 0 < 0 + (512 : UInt32).toNat by decide

/-- A block overwritten by another one with the same XOR. -/
theorem same_xor_reloads : ∃ s₀ ip₀ x, NewFile s₀ ip₀ ∧ iload s₀ ip₀.inum = ip₀ ∧
    Run step Safe (s₀, ip₀) [writeFirst (oneByte 1), writeFirst (Block.blit 0 1 1 fun _ => 1)] x ∧
    Reloads x := by
  obtain ⟨s₀, ip₀, s, ip, s', ip', hnew, hload, hs, hs', hsize, -, hblock, -⟩ :=
    exists_overwrite (oneByte 1) (Block.blit 0 1 1 fun _ => 1)
  have hsecond : Safe (s, ip) (writeFirst (Block.blit 0 1 1 fun _ => 1)) := by
    refine .inr (.inr fun bn _ hbn => ?_)
    obtain rfl : bn = 0 := by
      rw [show (s, ip).2.size = 512 from hsize] at hbn
      exact Nat.lt_one_iff.mp hbn
    rw [written_writeFirst, hblock]
    decide +kernel
  have hrun : Run step Safe (s₀, ip₀)
      [writeFirst (oneByte 1), writeFirst (Block.blit 0 1 1 fun _ => 1)] (s', ip') :=
    .tail (.tail .refl (safe_first hnew _) hs) hsecond hs'
  exact ⟨s₀, ip₀, (s', ip'), hnew, hload, hrun, run_reloads hnew hload hrun⟩

/-- A block overwritten in place by one with another XOR: the inode block keeps the old checksum. -/
theorem overwrite_not_reloaded : ∃ s₀ ip₀ x, NewFile s₀ ip₀ ∧ iload s₀ ip₀.inum = ip₀ ∧
    Run step (fun _ _ => True) (s₀, ip₀) [writeFirst (oneByte 1), writeFirst (oneByte 2)] x ∧
    ¬ Reloads x := by
  obtain ⟨s₀, ip₀, s, ip, s', ip', hnew, hload, hs, hs', hsize, hsize', hblock, hblock', hload'⟩ :=
    exists_overwrite (oneByte 1) (oneByte 2)
  have hrun : Run step (fun _ _ => True) (s₀, ip₀) [writeFirst (oneByte 1), writeFirst (oneByte 2)]
      (s', ip') := .tail (.tail .refl trivial hs) trivial hs'
  have hst := Stored.step hnew.written (Stored.of_iload hload) (safe_first hnew _) hs
  obtain ⟨c, t, jp, hpack, -⟩ := hnew.written.step hs
  have hold : sumOf s ip 0 = 1 := by
    rw [hpack.sumOf_eq (by rw [show (s, ip).2.size = 512 from hsize]; decide), hblock]
    decide +kernel
  refine ⟨s₀, ip₀, (s', ip'), hnew, hload, hrun, fun hre => ?_⟩
  have hnew' := (hre.2 0 (by rw [show (s', ip').2.size = 512 from hsize']; decide)).2
  dsimp only at hnew'
  rw [hblock', hload'] at hnew'
  have hsame : sumOf s' (iload s ip.inum) 0 = sumOf s ip 0 :=
    congrArg (· / 2 ^ 24) (hst.addrs 0 (Nat.zero_le _))
  rw [hsame, hold] at hnew'
  exact absurd hnew' (by decide +kernel)

end LearnXv6.Checksum
