import LearnXv6.Checksum.Journal
import LearnXv6.Checksum.Sound
import LearnXv6.Checksum.Write

/-! Crashes inside the lab's `writei`, before the commit record of its transaction. -/
namespace LearnXv6.Checksum
open Function Store Fs Finset
open Fs.Kernel (State Inode Valid Accepts tree free)
open Log (Proc Opened Txn Spare Marked Uncommitted Undone Home Clean Rep LOGSIZE MAXOPBLOCKS NBUF exec
  logged)

variable {s s₁ : State} {ip ip₁ : Inode} {b bn m n off w : ℕ} {src : ℕ → UInt8}

/-! One pass of the loop. -/

/-- The kernel in an operation that has just begun: the cache shows the file system `s`, and `d` is the
disk. Other operations may be open, and may have logged blocks. -/
structure Begun (s : State) (d : Disk) (t : Txn) (k : Log.State) : Prop where
  opened : Opened s.sb d t k
  cur_eq : t.cur = s.disk
  held_eq : t.held = ∅
  outstanding_pos : 0 < t.outstanding
  room : t.lh.card + t.outstanding * MAXOPBLOCKS ≤ LOGSIZE
  empty : logged (d s.sb.logstart) = []

variable {k : Log.State}

lemma Begun.spare {d : Disk} {t : Txn} (h : Begun s d t k) (hsb : s.sb = Log.stock) : Spare s.sb t 8 := by
  have h1 : t.lh.card + t.outstanding * 10 ≤ 30 := h.room
  have h2 := h.outstanding_pos
  refine ⟨h2, ?_, ?_⟩
  · rw [h.held_eq, hsb, card_empty, show Log.stock.nlog = 30 from rfl]
    omega
  · rw [hsb]
    decide

lemma MappedAt.bmap_meets {sb : Superblock} {d : Disk} {t : Txn}
    (h : MappedAt s ip bn w) (hbn : bn < MAXFILE) (hk : Opened sb d t k) (hs : Spare sb t n)
    (hsb : s.sb = sb) (hcur : t.cur = s.disk) (hheld : t.held = ∅) :
    Prog.Meets (exec sb) (fun u => u.disk = d) (Log.bmap sb ip bn) k fun a k' =>
      a = (w, ip) ∧ Opened sb d t k' := by
  have hentry := h.entry_eq
  have hne := h.ne_zero
  unfold Log.bmap
  unfold entry at hentry
  by_cases hd : bn < NDIRECT
  · rw [if_pos hd] at hentry
    have haddr : Log.addrEntry sb ip bn = pure (ip.addrs bn, ip) := if_neg (by rwa [hentry])
    rw [if_pos (show bn < Lab.stock.NDIRECT from hd), haddr, hentry]
    exact ⟨hk.disk_eq, rfl, hk⟩
  · rw [if_neg hd] at hentry
    have hi := h.path.resolve_left hd
    have haddr : Log.addrEntry sb ip Lab.stock.NDIRECT = pure (ip.addrs NDIRECT, ip) := if_neg hi
    rw [if_neg (show ¬ bn < Lab.stock.NDIRECT from hd),
      if_pos (show bn - Lab.stock.NDIRECT < NINDIRECT from index_lt hbn hd), haddr,
      Prog.pure_eq, Prog.ret_bind]
    have hready := h.sound.ready
    have hindex := hready.index hi
    have hnot : ip.addrs NDIRECT ∉ t.held := by
      rw [hheld]
      exact notMem_empty _
    have hword : Block.word (t.cur (ip.addrs NDIRECT)) (bn - Lab.stock.NDIRECT) = w := by
      rw [hcur]
      exact hentry
    refine Prog.Meets.bind ((hk.indirectEntry_mapped hs (hsb ▸ hready.home_data hindex.1 hindex.2.1)
      hnot (by rwa [hword])).mono ?_)
    rintro a k' ⟨rfl, hk'⟩
    rw [hword]
    exact ⟨hk'.disk_eq, rfl, hk'⟩

/-- Where `writei` puts the checksum: nothing but the index block reaches the disk. -/
lemma setEntry_meets {sb : Superblock} {mem : ℕ → Block} {held dirty : Finset ℕ}
    {sum : BitVec 32} (h : Rep k mem held dirty) (hu : Uncommitted sb k) (hroom : (held ∪ dirty).card < NBUF)
    (hindex : findDirect ip b = none → ip.addrs NDIRECT ∉ held ∧ ip.addrs NDIRECT ≠ sb.logstart) :
    Prog.Meets (exec sb) (Uncommitted sb) (Journal.setEntry ip b sum) k fun _ k' =>
      k'.log = k.log ∧ Uncommitted sb k' ∧ ∃ mem' dirty', Rep k' mem' held dirty' ∧
        ∀ a ∈ held, mem' a = mem a := by
  unfold Journal.setEntry
  cases hfind : findDirect ip b with
  | some i =>
    refine ⟨hu, (), _, rfl, hu, rfl, hu, mem, dirty, ?_, fun _ _ => rfl⟩
    exact ⟨h.counts, h.unlocked, h.bufs, h.clean⟩
  | none =>
    obtain ⟨hnot, hne⟩ := hindex hfind
    set a := ip.addrs NDIRECT with ha
    refine h.bread_meets (D := fun d => logged (d sb.logstart) = []) hnot (.inr hroom) hu
      fun k1 h1 hd1 hl1 _ => ?_
    have hu1 := hu.of_disk hd1
    refine h1.setData_meets (D := fun d => logged (d sb.logstart) = []) (mem_insert_self _ _)
      hu1 fun k2 h2 hd2 hl2 _ => ?_
    have hu2 := hu1.of_disk hd2
    refine h2.bwrite_meets (D := fun d => logged (d sb.logstart) = []) (mem_insert_self _ _)
      hu2 fun k3 h3 hd3 hl3 _ => ?_
    have hu3 : Uncommitted sb k3 := by
      unfold Uncommitted
      rw [hd3, update_of_ne (Ne.symm hne)]
      exact hu2
    refine h3.brelse_meets (D := fun d => logged (d sb.logstart) = []) (mem_insert_self _ _)
      (.inr (by rw [hd3, update_self, update_self])) hu3 fun k4 h4 hd4 hl4 _ => ?_
    have hu4 := hu3.of_disk hd4
    rw [erase_insert hnot] at h4
    refine ⟨hu4, by rw [hl4, hl3, hl2, hl1], hu4, _, _, h4, fun x hx => ?_⟩
    have hxa : x ≠ a := by
      rintro rfl
      exact hnot hx
    exact update_of_ne hxa _ _

lemma journal_bmap_meets {sb : Superblock} {C : Log.State → Prop}
    {P : Log.State → Prop} (hC : ∀ u, P u → C u)
    (h : Prog.Meets (exec sb) C (Log.bmap sb ip bn) k fun a k' => a = (w, ip₁) ∧ P k') :
    Prog.Meets (exec sb) C (Journal.bmap sb ip bn) k fun a k' => a = (address ip₁ w, ip₁) ∧ P k' := by
  refine Prog.Meets.bind (h.mono ?_)
  rintro _ k' ⟨rfl, hp⟩
  exact ⟨hC k' hp, rfl, hp⟩

section

variable {d : Disk} {t : Txn} (h : Begun s d t k) (hsound : Sound s ip) (hbn : off / BSIZE < MAXFILE)
    (hb : Kernel.bmap .stock s ip (off / BSIZE) = .ok (w, s₁, ip₁))
include h hsound hbn hb

lemma fillBlock_meets :
    Prog.Meets (exec s.sb) (Uncommitted s.sb) (Journal.fillBlock s.sb ip src off m) k fun a k' =>
      a.1 = address ip₁ w ∧ Uncommitted s.sb k' ∧ k'.log.lh.length ≤ t.lh.card + 5 ∧
      0 < k'.log.outstanding ∧ ∃ mem dirty, Rep k' mem {address ip₁ w} dirty ∧
        mem (address ip₁ w) = (s₁.disk (address ip₁ w)).blit (off % BSIZE) m src := by
  have hspare := h.spare hsound.sb_eq
  have hempty : ∀ u : Log.State, u.disk = d → Uncommitted s.sb u := by
    intro u hu
    unfold Uncommitted
    rw [hu]
    exact h.empty
  obtain ⟨hmap, hsb, htype⟩ := hsound.bmap hbn hb
  -- the first `bmap` may allocate, the second finds the block
  have hfirst := h.opened.bmap_follows h.cur_eq rfl hsound.ready (by rw [h.held_eq]; simp [Marked])
    (n := 2) hspare h.held_eq (off / BSIZE)
  rw [hb] at hfirst
  have hfirst' := journal_bmap_meets (P := fun k' => ∃ lh : Finset ℕ, lh.card ≤ t.lh.card + 5 ∧
    Opened s.sb d ⟨s₁.disk, lh, t.held, t.outstanding⟩ k') (by
      rintro u ⟨lh, -, hu⟩
      exact hempty u hu.disk_eq) (Prog.Meets.weaken hfirst hempty)
  refine Prog.Meets.bind (hfirst'.mono ?_)
  rintro _ k1 ⟨rfl, lh, hcard, h1⟩
  have hs1 : Spare s.sb ⟨s₁.disk, lh, t.held, t.outstanding⟩ 3 :=
    hspare.later rfl (by dsimp only; omega)
  have hsecond := journal_bmap_meets (P := Opened s.sb d ⟨s₁.disk, lh, t.held, t.outstanding⟩)
    (fun u hu => hempty u hu.disk_eq)
    ((hmap.bmap_meets hbn h1 hs1 hsb rfl h.held_eq).weaken hempty)
  refine Prog.Meets.bind (hsecond.mono ?_)
  rintro _ k2 ⟨rfl, h2⟩
  have hu2 := hempty k2 h2.disk_eq
  have hrep2 : Rep k2 s₁.disk ∅ lh := by
    rw [← h.held_eq]
    exact h2.rep
  have hlh : lh.card + 4 < NBUF := by
    have hroom : t.held.card + lh.card + 3 + 1 < s.sb.nlog := hs1.room
    have hle : s.sb.nlog ≤ NBUF := hs1.nlog_le
    omega
  refine hrep2.bread_meets (D := fun d => logged (d s.sb.logstart) = []) (notMem_empty _)
    (.inr (by rw [empty_union]; omega)) hu2 fun k3 h3 hd3 hl3 _ => ?_
  have hu3 := hu2.of_disk hd3
  refine h3.setData_meets (D := fun d => logged (d s.sb.logstart) = []) (mem_insert_self _ _)
    hu3 fun k4 h4 hd4 hl4 _ => ?_
  have hu4 := hu3.of_disk hd4
  have hlog4 := hl4.trans hl3
  have hlen : k2.log.lh.length ≤ t.lh.card + 5 := by
    rw [h2.length_eq]
    exact hcard
  have hout : 0 < k2.log.outstanding := by
    rw [h2.outstanding_eq]
    exact h.outstanding_pos
  rw [insert_empty_eq] at h4
  by_cases hchecked : ip₁.type = T_CHECKED
  · rw [if_pos hchecked]
    have hroom4 : ({address ip₁ w} ∪ lh).card < NBUF := by
      have := card_union_le {address ip₁ w} lh
      rw [card_singleton] at this
      omega
    refine Prog.Meets.bind ((setEntry_meets h4 hu4 hroom4 fun hnone => ?_).mono ?_)
    · have hi := hmap.index hchecked (by rwa [address, if_pos hchecked] at hnone)
      obtain ⟨hdata, hlt, -⟩ := hmap.sound.ready.index hi
      have hhome := hmap.sound.ready.home_data hdata hlt
      rw [hsb] at hhome
      refine ⟨fun hmem => hmap.ne_index hi (mem_singleton.mp hmem).symm, ?_⟩
      exact hhome.ne_header (Nat.zero_lt_of_lt hs1.room)
    · rintro ip' k5 ⟨hlog5, hu5, mem, dirty, h5, hmem⟩
      have hlog := hlog5.trans hlog4
      refine ⟨hu5, rfl, hu5, by rwa [hlog], by rwa [hlog], mem, dirty, h5, ?_⟩
      rw [hmem _ (mem_singleton_self _), update_self]
  · rw [if_neg hchecked]
    refine ⟨hu4, rfl, hu4, by rwa [hlog4], by rwa [hlog4], _, _, h4, ?_⟩
    rw [update_self]

lemma writeBlock_visits (src : ℕ → UInt8) (m : ℕ) :
    ∃ u, Prog.VisitsWhile (exec s.sb) (Uncommitted s.sb) (Journal.writeBlock s.sb ip src off m) k u ∧
      u.disk (address ip₁ w) = (s₁.disk (address ip₁ w)).blit (off % BSIZE) m src := by
  obtain ⟨hmap, hsb, -⟩ := hsound.bmap hbn hb
  have hhome := hmap.sound.ready.home_data hmap.data.1 hmap.data.2
  rw [hsb] at hhome
  have hspare := h.spare hsound.sb_eq
  refine Prog.Meets.visitsWhile ((fillBlock_meets h hsound hbn hb).mono ?_)
  rintro ⟨bno, ip'⟩ k1 ⟨hbno, hu, hlen, hout, mem, dirty, hrep, hmem⟩
  obtain rfl := hbno
  have hcheck : exec s.sb .logCheck k1 = .ok ((), k1) := by
    have hroom := hspare.room
    have hle := hspare.nlog_le
    simp only [exec]
    rw [if_neg (by omega), if_neg (by omega)]
  have hheld := mem_singleton_self (address ip₁ w)
  obtain ⟨k2, happend, hrep2, hd2, -, -⟩ := hrep.logAppend s.sb hheld
  obtain ⟨k3, hwrite, -, hd3, -, -⟩ := hrep2.bwrite s.sb hheld
  have hu2 := hu.of_disk hd2
  have hu3 : Uncommitted s.sb k3 := by
    unfold Uncommitted
    rw [hd3, update_of_ne (hhome.ne_header (Nat.zero_lt_of_lt hspare.room)).symm]
    exact hu2
  refine ⟨k3, .next hu hcheck (.next hu happend (.next hu2 hwrite (.here hu3))), ?_⟩
  rw [hd3, update_self, hmem]

end

/-! The call. -/

/-- A transaction from the call of `writei` on. -/
def transaction (sb : Superblock) (devsw : Log.Devsw) (ip : Inode) (src : ℕ → UInt8) (off n : ℕ) :
    Proc Unit := do
  let _ ← Journal.writei sb devsw ip src off n
  Log.endOp sb

lemma journal_writei_accept (sb : Superblock) (devsw : Log.Devsw) (src : ℕ → UInt8)
    (hdev : ip.type ≠ T_DEV) (ha : Accepts .stock ip.size off n) (hn : n ≠ 0) :
    ∃ f : Inode → Proc ℤ, Journal.writei sb devsw ip src off n =
      Journal.writeBlock sb ip src off (min n (BSIZE - off % BSIZE)) >>= f := by
  have hmax : MAXFILE * BSIZE < 2 ^ 32 := by decide
  obtain ⟨hoff, hle⟩ := ha
  change off + n ≤ MAXFILE * BSIZE at hle
  have hmod : (off + n) % 2 ^ 32 = off + n := Nat.mod_eq_of_lt (by omega)
  unfold Journal.writei
  rw [if_neg hdev, hmod, if_neg (by omega), if_neg (by omega), Journal.writeiLoop, if_neg hn]
  exact ⟨_, Prog.bind_assoc _ _ _⟩

lemma journal_writei_reject (sb : Superblock) (devsw : Log.Devsw) (src : ℕ → UInt8)
    (hoff : off < 2 ^ 32) (hn : n < 2 ^ 32) (h : ip.type = T_DEV ∨ ¬ Accepts .stock ip.size off n ∨ n = 0) :
    ∃ r : ℤ, Journal.writei sb devsw ip src off n = pure r := by
  unfold Journal.writei
  split
  · split
    · exact ⟨_, rfl⟩
    · split
      · exact ⟨_, rfl⟩
      · exact ⟨_, rfl⟩
  rename_i hdev
  split
  · exact ⟨_, rfl⟩
  split
  · exact ⟨_, rfl⟩
  rename_i h1 h2
  have hz : n = 0 := by
    refine (h.resolve_left hdev).resolve_left fun hrej => hrej ⟨by omega, ?_⟩
    change off + n ≤ MAXFILE * BSIZE
    omega
  subst hz
  rw [Journal.writeiLoop, if_pos rfl]
  exact ⟨_, rfl⟩

section Call

variable {d : Disk} {t : Txn} {k : Log.State} {devsw : Log.Devsw}

lemma Begun.clean {u : Log.State} (h : Begun s d t k) (hu : u.disk = d) : Clean s.sb d u.disk := by
  rw [hu]
  exact ⟨h.empty, fun _ _ => rfl⟩

lemma Begun.undone_of_pure {r : ℤ} (h : Begun s d t k) (hsound : Sound s ip)
    (hw : Journal.writei s.sb devsw ip src off n = pure r) :
    Undone s.sb d (transaction s.sb devsw ip src off n) k := by
  have hspare := h.spare hsound.sb_eq
  intro u e hv he
  unfold transaction at hv
  rw [hw, Prog.pure_eq, Prog.ret_bind] at hv
  exact (h.opened.endOp_visits hspare.nlog_le h.empty h.held_eq hv).recovers
    (Nat.zero_lt_of_lt hspare.room) hspare.nlog_le he

lemma Begun.undone_of_fails (h : Begun s d t k) (hsound : Sound s ip) (hdev : ip.type ≠ T_DEV)
    (ha : Accepts .stock ip.size off n) (hn : n ≠ 0) (hb : Fails (Kernel.bmap .stock s ip (off / BSIZE))) :
    Undone s.sb d (transaction s.sb devsw ip src off n) k := by
  have hspare := h.spare hsound.sb_eq
  obtain ⟨e, hb⟩ := hb
  have hfollow := h.opened.bmap_follows h.cur_eq rfl hsound.ready (by rw [h.held_eq]; simp [Marked])
    (n := 2) hspare h.held_eq (off / BSIZE)
  rw [hb] at hfollow
  have hblock : Prog.Halts (exec s.sb) (fun u => u.disk = d)
      (Journal.writeBlock s.sb ip src off (min n (BSIZE - off % BSIZE))) k :=
    Prog.Halts.bind (Prog.Halts.bind (Prog.Halts.bind hfollow))
  obtain ⟨f, hw⟩ := journal_writei_accept s.sb devsw src hdev ha hn
  intro u e hv he
  unfold transaction at hv
  rw [hw, Prog.bind_assoc] at hv
  exact (h.clean (hblock.bind.visits hv.visits)).recovers (Nat.zero_lt_of_lt hspare.room)
    hspare.nlog_le he

/-- A new byte is on the disk before the commit record, and recovery leaves it there. -/
lemma Begun.not_undone (h : Begun s d t k) (hsound : Sound s ip) (hdev : ip.type ≠ T_DEV)
    (ha : Accepts .stock ip.size off n) (hn : n ≠ 0)
    (hb : Kernel.bmap .stock s ip (off / BSIZE) = .ok (w, s₁, ip₁))
    (hsrc : src 0 ≠ Block.byte (d (address ip₁ w)) (off % BSIZE)) :
    ¬ Undone s.sb d (transaction s.sb devsw ip src off n) k := by
  have hspare := h.spare hsound.sb_eq
  have hpos := Kernel.min_block_pos off hn
  have hbn : off / BSIZE < MAXFILE := by
    have hle : off + n ≤ MAXFILE * BSIZE := ha.2
    rw [Nat.div_lt_iff_lt_mul (by decide)]
    omega
  obtain ⟨hmap, hsb, -⟩ := hsound.bmap hbn hb
  have hhome := hmap.sound.ready.home_data hmap.data.1 hmap.data.2
  rw [hsb] at hhome
  obtain ⟨u, hv, hdisk⟩ := writeBlock_visits h hsound hbn hb src (min n (BSIZE - off % BSIZE))
  obtain ⟨f, hw⟩ := journal_writei_accept s.sb devsw src hdev ha hn
  have hvisit : Prog.VisitsWhile (exec s.sb) (Uncommitted s.sb)
      (transaction s.sb devsw ip src off n) k u := by
    unfold transaction
    rw [hw]
    exact hv.bind.bind
  refine Log.not_undone (Nat.zero_lt_of_lt hspare.room) hspare.nlog_le hvisit hhome fun he => hsrc ?_
  rw [← he, hdisk, Block.byte_blit (by omega), if_pos (by omega), Nat.sub_self]

end Call

/-- Whatever the bytes, the home blocks survive a crash before the commit record if and only if the
call writes nothing: `writei` refuses it, it is empty, the inode is a device, or `bmap` finds too few
free blocks for the first block and the kernel panics. -/
theorem writei_undone_iff {d : Disk} {t : Txn} {k : Log.State} (hsound : Sound s ip)
    (h : Begun s d t k) (devsw : Log.Devsw) (off n : UInt32) :
    (∀ src, Undone s.sb d (transaction s.sb devsw ip src off.toNat n.toNat) k) ↔
      ip.type = T_DEV ∨ ¬ Accepts .stock ip.size off.toNat n.toNat ∨ n = 0 ∨
      (free s).card < missing s ip (off.toNat / BSIZE) := by
  have hbn : Accepts .stock ip.size off.toNat n.toNat → n ≠ 0 → off.toNat / BSIZE < MAXFILE := by
    intro ha hn
    have hle : off.toNat + n.toNat ≤ MAXFILE * BSIZE := ha.2
    have hpos : n.toNat ≠ 0 := fun hz => hn (UInt32.toNat_inj.mp hz)
    rw [Nat.div_lt_iff_lt_mul (by decide)]
    omega
  constructor
  · intro hall
    by_contra hno
    obtain ⟨hdev, ha, hn, hfree⟩ : ip.type ≠ T_DEV ∧ Accepts .stock ip.size off.toNat n.toNat ∧
        n ≠ 0 ∧ ¬ (free s).card < missing s ip (off.toNat / BSIZE) := by
      simpa only [not_or, not_not] using hno
    rw [← bmap_fails_iff hsound.ready.valid (hbn ha hn)] at hfree
    cases hb : Kernel.bmap .stock s ip (off.toNat / BSIZE) with
    | error e => exact hfree ⟨e, hb⟩
    | ok x =>
      obtain ⟨w, s₁, ip₁⟩ := x
      have hnew : Block.byte (d (address ip₁ w)) (off.toNat % BSIZE) + 1 ≠
          Block.byte (d (address ip₁ w)) (off.toNat % BSIZE) := by
        simp
      exact h.not_undone hsound hdev ha (fun hz => hn (UInt32.toNat_inj.mp hz)) hb hnew
        (hall fun _ => Block.byte (d (address ip₁ w)) (off.toNat % BSIZE) + 1)
  · intro hcond src
    by_cases hquiet : ip.type = T_DEV ∨ ¬ Accepts .stock ip.size off.toNat n.toNat ∨ n = 0
    · obtain ⟨r, hr⟩ := journal_writei_reject s.sb devsw src off.toNat_lt n.toNat_lt
        (hquiet.imp_right (Or.imp_right fun hz => by rw [hz]; rfl))
      exact h.undone_of_pure hsound hr
    · obtain ⟨hdev, ha, hn⟩ : ip.type ≠ T_DEV ∧ Accepts .stock ip.size off.toNat n.toNat ∧ n ≠ 0 := by
        simpa only [not_or, not_not] using hquiet
      have hfree := ((hcond.resolve_left hdev).resolve_left (not_not.mpr ha)).resolve_left hn
      rw [← bmap_fails_iff hsound.ready.valid (hbn ha hn)] at hfree
      exact h.undone_of_fails hsound hdev ha (fun hz => hn (UInt32.toNat_inj.mp hz)) hfree

/-! A checked file of one block, which holds a single byte. -/

/-- The super block, a free map with the bits of the first 60 blocks, and the data block 59. -/
def oneBlockDisk : Disk := fun b =>
  if b = 1 then Log.stock.write 0
  else if b = 58 then (List.range 60).foldl (fun b i => b.setBit i) (0 : Fs.Block)
  else if b = 59 then oneByte 1
  else 0

def oneBlockFs : State := ⟨oneBlockDisk, Log.stock, fun _ => ⟨none, none⟩⟩

/-- The inode, with the entries `addrs 0` and no other. -/
def oneBlockFile (addr : ℕ) : Inode := ⟨1, T_CHECKED, 0, 0, 1, 512, fun k => if k = 0 then addr else 0⟩

lemma oneBlockFs_used (hb : b < 1000) : oneBlockFs.used b = decide (b < 60) := by
  have hdiv : b / BPB = 0 := Nat.div_eq_of_lt (by rw [BPB_eq]; omega)
  have hmod : b % BPB = b := Nat.mod_eq_of_lt (by rw [BPB_eq]; omega)
  have hblock : oneBlockFs.sb.bblock b = 58 := by
    unfold Superblock.bblock
    rw [hdiv]
    rfl
  unfold State.used
  rw [hblock, hmod]
  exact Block.bit_foldl_setBit (by decide) b

lemma oneBlockFs_valid : Valid oneBlockFs := by
  refine ⟨?_, by decide, by decide, by decide, by decide, fun b hb => ?_⟩
  · exact Superblock.read_write (Mkfs.sb_fits .stock) 0
  · have hlt : b < 59 := hb
    rw [oneBlockFs_used (by omega)]
    simpa using hlt.trans (by decide)

lemma oneBlockFile_tree {p : ℕ × List ℕ} (hp : p ∈ Lab.stock.code.nodes)
    (hne : tree oneBlockFs (oneBlockFile 59) p ≠ 0) : p = (0, []) := by
  obtain ⟨k, ks⟩ := p
  obtain ⟨bn, -, hk, hks⟩ := hp
  have hz : k = 0 := by
    by_contra hz
    have haddr : (oneBlockFile 59).addrs k = 0 := if_neg hz
    apply hne
    unfold tree table
    rw [haddr, descend_zero]
  subst hz
  have hd : bn < NDIRECT := by
    by_contra hd
    rw [show Lab.stock.code.path bn = _ from path_indirect hd] at hk
    cases hk
  rw [show Lab.stock.code.path bn = _ from path_direct hd, List.prefix_nil] at hks
  exact congrArg (Prod.mk 0) hks

lemma oneBlockFile_sound : Sound oneBlockFs (oneBlockFile (59 + 2 ^ 24)) := by
  have htree : tree oneBlockFs (oneBlockFile 59) (0, []) = 59 := rfl
  refine ⟨rfl, fun k => if k = 0 then 1 else 0, oneBlockFs, oneBlockFile 59, fun h => absurd rfl h, ?_,
    oneBlockFs_valid, by decide, fun p hp hne => ?_, fun p hp q hq he hne => ?_⟩
  · refine ⟨rfl, rfl, fun k _ => ?_, rfl, fun h => absurd rfl h, fun _ k _ => ?_, fun _ _ _ => rfl⟩
    · by_cases hk : k = 0
      · subst hk
        exact ⟨rfl, by decide, by decide⟩
      · rw [show (oneBlockFile (59 + 2 ^ 24)).addrs k = 0 from if_neg hk,
          show (oneBlockFile 59).addrs k = 0 from if_neg hk]
        exact ⟨by simp [hk], by decide, by simp [hk]⟩
    · exact if_neg (by unfold NDIRECT; simp [Lab.NDIRECT])
  · rw [oneBlockFile_tree hp hne, htree, oneBlockFs_used (by decide)]
    decide
  · rw [oneBlockFile_tree hp hne, oneBlockFile_tree hq (he ▸ hne)]

/-- The kernel after a boot from that disk and one `begin_op`. -/
def oneBlockKernel : Log.State := { Log.boot oneBlockDisk with log := ⟨[], 1, false⟩ }

lemma oneBlock_begun : Begun oneBlockFs oneBlockDisk ⟨oneBlockDisk, ∅, ∅, 1⟩ oneBlockKernel where
  opened := ⟨Log.rep_binit rfl, rfl, List.nodup_nil, rfl, rfl, rfl, by simp, fun _ _ => rfl, .inl rfl⟩
  cur_eq := rfl
  held_eq := rfl
  outstanding_pos := Nat.one_pos
  room := by decide
  empty := by
    rw [show oneBlockDisk oneBlockFs.sb.logstart = 0 from rfl]
    simp [logged]

/-- Two bytes behind the end of the file, which `writei` refuses. -/
theorem write_past_end_undone : Undone oneBlockFs.sb oneBlockDisk
    (transaction oneBlockFs.sb (fun _ => none) (oneBlockFile (59 + 2 ^ 24)) (fun _ => 2)
      (513 : UInt32).toNat (2 : UInt32).toNat) oneBlockKernel :=
  (writei_undone_iff oneBlockFile_sound oneBlock_begun (fun _ => none) 513 2).mpr
    (.inr (.inl (by decide))) fun _ => 2

/-- The byte 2 written over the byte 1 of a checked file: a crash after `bwrite` leaves it in block 59,
though the transaction has not committed. -/
theorem overwrite_not_undone : ∃ s d t k ip src, Sound s ip ∧ Begun s d t k ∧ ip.type = T_CHECKED ∧
    Block.byte (d (blockOf s ip 0)) 0 = 1 ∧ src 0 = 2 ∧
    ¬ Undone s.sb d (transaction s.sb (fun _ => none) ip src 0 1) k := by
  have hb : Kernel.bmap .stock oneBlockFs (oneBlockFile (59 + 2 ^ 24)) (0 / BSIZE) =
      .ok (59 + 2 ^ 24, oneBlockFs, oneBlockFile (59 + 2 ^ 24)) := rfl
  refine ⟨oneBlockFs, oneBlockDisk, _, oneBlockKernel, oneBlockFile (59 + 2 ^ 24), fun _ => 2,
    oneBlockFile_sound, oneBlock_begun, rfl, by decide +kernel, rfl, ?_⟩
  exact oneBlock_begun.not_undone oneBlockFile_sound (by decide) ⟨by decide, by decide⟩ one_ne_zero hb
    (by decide +kernel)

end LearnXv6.Checksum
