import LearnXv6.Store.Follows
import LearnXv6.Store.Result
import LearnXv6.Fs.Alloc
import LearnXv6.Log.Crash
import LearnXv6.Log.Write

/-! Inside an operation the block map works on the contents that the cache shows: its programs follow
the functions on the file system. -/
namespace LearnXv6.Log
open Store Fs Fs.Kernel List Finset

variable {sb : Superblock} {base : Disk} {t : Txn} {k : State} {s s' : Fs.Kernel.State} {ip : Inode}
  {b j n : ℕ} {v : Block} {φ α γ : Type} {x : Except φ γ} {R : α → State → γ → Prop}

/-- The program follows a function, and does not write to the disk. -/
abbrev Tracks (sb : Superblock) (base : Disk) (p : Proc α) (k : State) (x : Except φ γ)
    (R : α → State → γ → Prop) : Prop :=
  Prog.Follows (exec sb) (fun u => u.disk = base) p k x R

/-- A logged write. -/
abbrev Txn.put (t : Txn) (b : ℕ) (v : Block) : Txn :=
  { t with cur := Function.update t.cur b v, lh := insert b t.lh }

/-- The log and the cache have room for `n` more blocks. -/
structure Spare (sb : Superblock) (t : Txn) (n : ℕ) : Prop where
  outstanding_pos : 0 < t.outstanding
  room : t.held.card + t.lh.card + n + 1 < sb.nlog
  nlog_le : sb.nlog ≤ LOGSIZE

lemma Spare.lt_nbuf (h : Spare sb t n) : (t.held ∪ t.lh).card < NBUF := by
  have h1 := card_union_le t.held t.lh
  have h2 := h.room
  have h3 : sb.nlog ≤ NBUF := h.nlog_le
  omega

lemma Spare.later (h : Spare sb t n) {t' : Txn} {m : ℕ} (ho : t'.outstanding = t.outstanding)
    (hcard : t'.held.card + t'.lh.card + m ≤ t.held.card + t.lh.card + n) : Spare sb t' m := by
  have := h.room
  exact ⟨ho ▸ h.outstanding_pos, by omega, h.nlog_le⟩

section

variable (h : Opened sb base t k)
include h

lemma Opened.setIcache {inum : ℕ} {e : Icache} : Opened sb base t (k.setIcache inum e) :=
  ⟨⟨h.rep.counts, h.rep.unlocked, h.rep.bufs, h.rep.clean⟩, h.disk_eq, h.nodup, h.lh_eq,
    h.outstanding_eq, h.committing_eq, h.home, h.same, h.room⟩

variable {f : Unit → Proc α}

lemma Opened.isetIp {inum : ℕ} (hk : ∀ k', Opened sb base t k' → Tracks sb base (f ()) k' x R) :
    Tracks sb base (perform (.isetIp inum ip) >>= f) k x R := by
  refine Prog.Meets.follows ?_
  exact ⟨h.disk_eq, (), _, rfl, h.disk_eq, hk _ h.setIcache⟩

/-! Buffers. -/

lemma Opened.bread_follows {f : Block → Proc α} (hs : Spare sb t n) (hhome : Home sb b) (hheld : b ∉ t.held)
    (hk : ∀ k', Opened sb base { t with held := insert b t.held } k' → Tracks sb base (f (t.cur b)) k' x R) :
    Tracks sb base (Log.bread b >>= f) k x R := by
  refine Prog.Meets.follows ((h.bread_meets hhome hheld (Or.inr hs.lt_nbuf)).mono ?_)
  rintro _ k' ⟨rfl, h'⟩
  exact hk k' h'

lemma Opened.write_follows (hs : Spare sb t n) (hheld : b ∈ t.held)
    (hk : ∀ k', Opened sb base (t.put b v) k' → Tracks sb base (f ()) k' x R) : Tracks sb base
      (Log.setData b v >>= fun _ => Log.logWrite b >>= f) k x R := by
  have hroom := hs.room
  have hle := hs.nlog_le
  have he : t.step sb (.logWrite b v) = some (t.put b v) :=
    if_pos ⟨hheld, hs.outstanding_pos, by omega, by omega⟩
  rw [← Prog.bind_assoc]
  exact Prog.Meets.follows ((h.logWrite he).mono fun _ k' h' => hk k' h')

lemma Opened.brelse_follows (hheld : b ∈ t.held)
    (hk : ∀ k', Opened sb base { t with held := t.held.erase b } k' → Tracks sb base (f ()) k' x R) :
    Tracks sb base (Log.brelse b >>= f) k x R := by
  have he : t.step sb (.brelse b) = some { t with held := t.held.erase b } := if_pos hheld
  exact Prog.Meets.follows ((h.brelse he).mono fun _ k' h' => hk k' h')

/-! Allocation. -/

end

/-- The kernel after a part of the operation that has logged at most `n` more blocks: the cache shows
the file system `s`. -/
def Shows (sb : Superblock) (base : Disk) (t : Txn) (n : ℕ) (s : Fs.Kernel.State) (k : State) : Prop :=
  ∃ lh : Finset ℕ, lh.card ≤ t.lh.card + n ∧
    Opened sb base { t with cur := s.disk, lh := lh } k

lemma Opened.replace_follows (g : Block → Block) (h : Opened sb base t k)
    (hs : Spare sb t (n + 1)) (hhome : Home sb b) (hheld : b ∉ t.held)
    (hk : ∀ k', Opened sb base (t.put b (g (t.cur b))) k' → Tracks sb base (f ()) k' x R) : Tracks sb base
      (Log.bread b >>= fun bp => Log.setData b (g bp) >>= fun _ => Log.logWrite b >>= fun _ =>
        Log.brelse b >>= f) k x R := by
  refine h.bread_follows hs hhome hheld fun k1 h1 => ?_
  have hs1 : Spare sb { t with held := insert b t.held } n := by
    refine hs.later rfl ?_
    have := card_insert_le b t.held
    simp only
    omega
  refine h1.write_follows hs1 (mem_insert_self b _) fun k2 h2 => ?_
  refine h2.brelse_follows (mem_insert_self b _) fun k3 h3 => hk k3 ?_
  simpa only [erase_insert hheld] using h3

lemma Opened.bzero_follows (h : Opened sb base t k) (hs : Spare sb t (n + 1))
    (hhome : Home sb b) (hheld : b ∉ t.held)
    (hk : ∀ k', Opened sb base (t.put b 0) k' → Tracks sb base (f ()) k' x R) :
    Tracks sb base (Log.bzero b >>= f) k x R := by
  have hprog : Log.bzero b >>= f = Log.bread b >>= fun _ => Log.setData b 0 >>= fun _ =>
      Log.logWrite b >>= fun _ => Log.brelse b >>= f := by
    simp only [Log.bzero, Prog.bind_assoc]
  rw [hprog]
  exact h.replace_follows (fun _ => 0) hs hhome hheld hk

/-- What `balloc` does with the bit that it finds. -/
def allocated (s : Fs.Kernel.State) : Option (ℕ × ℕ) → Except Fs.Kernel.Panic (ℕ × Fs.Kernel.State)
  | none => .error .outOfBlocks
  | some (b, bi) =>
    .ok (b + bi, (s.logWrite (s.sb.bblock b) ((s.disk (s.sb.bblock b)).setBit bi)).logWrite (b + bi) 0)

/-- The first clear bit of the bitmap blocks of `bs`. -/
def clearBit (s : Fs.Kernel.State) (bs : List ℕ) : Option (ℕ × ℕ) :=
  bs.findSome? fun b => (Fs.Kernel.ballocBlock s b).map fun bi => (b, bi)

lemma balloc_eq (s : Fs.Kernel.State) : Fs.Kernel.balloc s =
    allocated s (clearBit s ((List.range ((s.sb.size + BPB - 1) / BPB)).map (· * BPB))) := by
  simp only [clearBit, findSome?_map, Function.comp_def]
  unfold Fs.Kernel.balloc
  split
  · rename_i hnone
    rw [hnone]
    rfl
  · rename_i b bi hsome
    rw [hsome]
    rfl

-- the unifier would otherwise run the search over the bits of a bitmap block
set_option maxRecDepth 20000 in
lemma ballocLoop_cons (sb : Superblock) (b : ℕ) (bs : List ℕ) : ballocLoop sb (b :: bs) =
    Log.bread (sb.bblock b) >>= fun bp =>
      match (List.range BPB).find? fun bi => b + bi < sb.size && !bp.bit bi with
      | some bi => Log.setData (sb.bblock b) (bp.setBit bi) >>= fun _ =>
        Log.logWrite (sb.bblock b) >>= fun _ => Log.brelse (sb.bblock b) >>= fun _ =>
        Log.bzero (b + bi) >>= fun _ => pure (b + bi)
      | none => Log.brelse (sb.bblock b) >>= fun _ => ballocLoop sb bs := rfl

lemma Opened.ballocLoop_follows (h : Opened sb base t k) (hs : Spare sb t (n + 2))
    (hcur : t.cur = s.disk) (hsb : s.sb = sb) (bs : List ℕ)
    (hbs : ∀ b ∈ bs, Home sb (sb.bblock b) ∧ sb.bblock b ∉ t.held)
    (hbit : ∀ b bi, clearBit s bs = some (b, bi) → Home sb (b + bi) ∧ b + bi ∉ t.held) :
    Tracks sb base (Log.ballocLoop sb bs) k
      (allocated s (clearBit s bs)) fun a k' c => a = c.1 ∧ Shows sb base t 2 c.2 k' := by
  induction bs generalizing k with
  | nil =>
    rw [show clearBit s [] = none from findSome?_nil]
    exact ⟨h.disk_eq, Or.inl ⟨.panic .outOfBlocks, rfl⟩⟩
  | cons b bs ih =>
    have hhome := (hbs b mem_cons_self).1
    have hheld := (hbs b mem_cons_self).2
    have hfind : ((List.range BPB).find? fun bi => b + bi < sb.size && !(t.cur (sb.bblock b)).bit bi) =
        Fs.Kernel.ballocBlock s b := by
      rw [hcur, ← hsb]
      rfl
    rw [ballocLoop_cons]
    cases hblock : Fs.Kernel.ballocBlock s b with
    | none =>
      have hclear : clearBit s (b :: bs) = clearBit s bs := by
        unfold clearBit
        rw [findSome?_cons, hblock]
        rfl
      rw [hclear] at hbit ⊢
      have ih' := fun k' h' => ih (k := k') h' (fun a ha => hbs a (mem_cons_of_mem _ ha)) hbit
      generalize allocated s (clearBit s bs) = y at ih' ⊢
      refine h.bread_follows hs hhome hheld fun k1 h1 => ?_
      rw [hfind, hblock]
      refine h1.brelse_follows (mem_insert_self _ _) fun k2 h2 => ih' k2 ?_
      simpa only [erase_insert hheld] using h2
    | some bi =>
      have hclear : clearBit s (b :: bs) = some (b, bi) := by
        unfold clearBit
        rw [findSome?_cons, hblock]
        rfl
      have hfresh := (hbit b bi hclear).1
      have hfree := (hbit b bi hclear).2
      rw [hclear]
      refine h.bread_follows hs hhome hheld fun k1 h1 => ?_
      rw [hfind, hblock]
      have hs1 : Spare sb { t with held := insert (sb.bblock b) t.held } (n + 1) := by
        have := card_insert_le (sb.bblock b) t.held
        exact hs.later rfl (by dsimp only; omega)
      refine h1.write_follows hs1 (mem_insert_self _ _) fun k2 h2 => ?_
      refine h2.brelse_follows (mem_insert_self _ _) fun k3 h3 => ?_
      have h3' : Opened sb base (t.put (sb.bblock b) ((t.cur (sb.bblock b)).setBit bi)) k3 := by
        simpa only [erase_insert hheld] using h3
      have hcard3 := card_insert_le (sb.bblock b) t.lh
      have hs3 : Spare sb (t.put (sb.bblock b) ((t.cur (sb.bblock b)).setBit bi)) (n + 1) :=
        hs.later rfl (by dsimp only; omega)
      refine h3'.bzero_follows hs3 hfresh hfree fun k4 h4 => ?_
      have hcard4 := card_insert_le (b + bi) (insert (sb.bblock b) t.lh)
      refine ⟨h4.disk_eq, rfl, insert (b + bi) (insert (sb.bblock b) t.lh), by omega, ?_⟩
      rw [← hsb] at h4 ⊢
      simp only [Txn.put, hcur] at h4
      exact h4

/-- What the block map relies on: a sound layout with the log before the inodes, and an index block in
the data area that the free map marks. -/
structure Ready (s : Fs.Kernel.State) (ip : Inode) : Prop where
  valid : Valid s
  log_le : s.sb.logstart + s.sb.nlog ≤ s.sb.inodestart
  index : ip.addrs Lab.stock.NDIRECT ≠ 0 → s.sb.datastart ≤ ip.addrs Lab.stock.NDIRECT ∧
    ip.addrs Lab.stock.NDIRECT < s.sb.size ∧ s.used (ip.addrs Lab.stock.NDIRECT) = true

lemma Ready.home (h : Ready s ip) (hb : s.sb.bmapstart ≤ b) (hlt : b < s.sb.size) : Home s.sb b := by
  have h1 := h.valid.size_le
  have h2 := h.valid.inode_le
  have h3 := h.log_le
  exact ⟨by omega, Or.inr (by omega)⟩

lemma Ready.home_data (h : Ready s ip) (hb : s.sb.datastart ≤ b) (hlt : b < s.sb.size) :
    Home s.sb b := h.home ((bmapstart_lt_datastart s.sb).le.trans hb) hlt

lemma Ready.home_map (h : Ready s ip) (hlt : b < s.sb.size) : Home s.sb (s.sb.bblock b) :=
  h.home (bmapstart_le_bblock s.sb b) ((bblock_lt_datastart hlt).trans_le h.valid.data_le)

lemma Ready.fresh {f : ℕ} (h : Ready s ip) (hf : Fresh s f s') : Ready s' ip := by
  refine ⟨hf.valid h.valid, by rw [hf.sb_eq]; exact h.log_le, fun hne => ?_⟩
  obtain ⟨h1, h2, h3⟩ := h.index hne
  rw [hf.sb_eq, hf.used_eq _ h2, h3, Bool.or_true]
  exact ⟨h1, h2, rfl⟩

/-- Blocks in the data area that the free map marks. -/
def Marked (s : Fs.Kernel.State) (held : Finset ℕ) : Prop :=
  ∀ a ∈ held, s.sb.datastart ≤ a ∧ s.used a = true

lemma Opened.balloc_follows (h : Opened sb base t k) (hs : Spare sb t (n + 2))
    (hcur : t.cur = s.disk) (hsb : s.sb = sb) (hr : Ready s ip) (hheld : Marked s t.held) :
    Tracks sb base (Log.balloc sb) k (Fs.Kernel.balloc s)
      fun a k' c => a = c.1 ∧ Fresh s c.1 c.2 ∧ Shows sb base t 2 c.2 k' := by
  have hprog : Log.balloc sb =
      ballocLoop sb ((List.range ((s.sb.size + BPB - 1) / BPB)).map (· * BPB)) := by
    rw [hsb]
    rfl
  have hfollow := h.ballocLoop_follows hs hcur hsb
    ((List.range ((s.sb.size + BPB - 1) / BPB)).map (· * BPB)) ?_ ?_
  · rw [← balloc_eq, ← hprog] at hfollow
    refine hfollow.with_eq.mono fun a k' c hc => ⟨hc.2.1, hr.valid.balloc hc.1, hc.2.2⟩
  · intro b hb
    obtain ⟨q, hq, rfl⟩ := mem_map.mp hb
    have hlt : q * BPB < s.sb.size := by
      have := List.mem_range.mp hq
      rw [BPB_eq] at this ⊢
      omega
    refine ⟨hsb ▸ hr.home_map hlt, fun hmem => ?_⟩
    have := (hheld _ hmem).1
    have := bblock_lt_datastart hlt
    rw [← hsb] at *
    omega
  · intro b bi hbit
    have hf := hr.valid.balloc ((balloc_eq s).trans (by rw [hbit]; rfl))
    refine ⟨hsb ▸ hr.home_data hf.datastart_le hf.lt_size, fun hmem => ?_⟩
    have hu := (hheld _ hmem).2
    rw [hf.unused] at hu
    cases hu

/-! The block map. -/

lemma Ready.addrEntry {a : ℕ} {ip' : Inode} (h : Ready s ip)
    (he : Fs.Kernel.addrEntry s ip j = .ok (a, s', ip')) :
    Ready s' ip' ∧ s'.sb = s.sb ∧ ip'.addrs j = a ∧ a ≠ 0 := by
  unfold Fs.Kernel.addrEntry at he
  split at he
  · obtain ⟨⟨f, s1⟩, hb, he⟩ := bind_eq_ok.mp he
    have hf := h.valid.balloc hb
    cases he
    have hr := h.fresh hf
    have hne : a ≠ 0 := by
      have := hf.datastart_le
      have := bmapstart_lt_datastart s.sb
      omega
    refine ⟨⟨hr.valid, hr.log_le, fun hindex => ?_⟩, hf.sb_eq, by simp [Inode.setAddr], hne⟩
    by_cases hj : j = Lab.stock.NDIRECT
    · subst hj
      have hself : (ip.setAddr Lab.stock.NDIRECT a).addrs Lab.stock.NDIRECT = a := by
        simp [Inode.setAddr]
      rw [hself, hf.sb_eq, hf.used_eq a hf.lt_size]
      exact ⟨hf.datastart_le, hf.lt_size, by simp⟩
    · have hother : (ip.setAddr j a).addrs Lab.stock.NDIRECT = ip.addrs Lab.stock.NDIRECT := by
        simp [Inode.setAddr, Ne.symm hj]
      rw [hother] at hindex ⊢
      exact hr.index hindex
  · rename_i hne
    cases he
    exact ⟨h, rfl, rfl, hne⟩

lemma Opened.indirectEntry_mapped {bno : ℕ} (h : Opened sb base t k) (hs : Spare sb t n)
    (hhome : Home sb bno) (hfree : bno ∉ t.held) (hne : Store.Block.word (t.cur bno) j ≠ 0) :
    Guards sb (· = base) (Log.indirectEntry sb bno j) k fun a k' =>
      a = Store.Block.word (t.cur bno) j ∧ Opened sb base t k' := by
  have hf : Tracks sb base (Log.indirectEntry sb bno j) k
      (.ok () : Except Unit Unit) fun a k' _ =>
        a = Store.Block.word (t.cur bno) j ∧ Opened sb base t k' := by
    unfold Log.indirectEntry
    refine h.bread_follows hs hhome hfree fun k1 h1 => ?_
    rw [if_neg hne]
    refine h1.brelse_follows (mem_insert_self _ _) fun k2 h2 => ?_
    simp only [erase_insert hfree] at h2
    exact ⟨h2.disk_eq, rfl, h2⟩
  exact hf

section BlockMap

variable (h : Opened sb base t k) (hcur : t.cur = s.disk) (hsb : s.sb = sb) (hr : Ready s ip)
  (hheld : Marked s t.held)
include h hcur hsb hr hheld

lemma Opened.addrEntry_follows (hs : Spare sb t (n + 2)) (j : ℕ) : Tracks sb base (Log.addrEntry sb ip j) k
      (Fs.Kernel.addrEntry s ip j) fun a k' c => a = (c.1, c.2.2) ∧ Shows sb base t 2 c.2.1 k' := by
  unfold Log.addrEntry Fs.Kernel.addrEntry
  by_cases hz : ip.addrs j = 0
  · rw [if_pos hz, if_pos hz]
    refine (h.balloc_follows hs hcur hsb hr hheld).bind ?_
    rintro f k1 ⟨_, s1⟩ ⟨rfl, -, lh, hcard, h1⟩
    exact h1.isetIp fun k2 h2 => ⟨h2.disk_eq, rfl, lh, hcard, h2⟩
  · rw [if_neg hz, if_neg hz]
    refine ⟨h.disk_eq, rfl, t.lh, by omega, ?_⟩
    rw [← hcur]
    exact h

lemma Opened.indirectEntry_follows {bno : ℕ} (hs : Spare sb t (n + 4)) (hdata : s.sb.datastart ≤ bno)
    (hlt : bno < s.sb.size) (hused : s.used bno = true) (hfree : bno ∉ t.held) (j : ℕ) :
    Tracks sb base (Log.indirectEntry sb bno j) k
      (Fs.Kernel.indirectEntry s bno j) fun a k' c => a = c.1 ∧ Shows sb base t 3 c.2 k' := by
  have hcard := card_insert_le bno t.held
  have hs1 : Spare sb { t with held := insert bno t.held } (n + 3) :=
    hs.later rfl (by dsimp only; omega)
  unfold Log.indirectEntry Fs.Kernel.indirectEntry
  refine h.bread_follows hs (hsb ▸ hr.home_data hdata hlt) hfree fun k1 h1 => ?_
  have hword : Store.Block.word (t.cur bno) j = s.word bno j := by
    rw [hcur]
    rfl
  by_cases hz : s.word bno j = 0
  · rw [if_pos (hword.trans hz), if_pos hz]
    have hheld1 : Marked s (insert bno t.held) := by
      intro a ha
      rcases mem_insert.mp ha with rfl | ha
      · exact ⟨hdata, hused⟩
      · exact hheld a ha
    refine (h1.balloc_follows (n := n + 1) hs1 hcur hsb hr hheld1).bind ?_
    rintro f k2 ⟨_, s1⟩ ⟨rfl, hf, lh, hlh, h2⟩
    dsimp only at hf hlh h2 ⊢
    have hs2 : Spare sb ⟨s1.disk, lh, insert bno t.held, t.outstanding⟩ (n + 1) :=
      hs1.later rfl (by dsimp only; omega)
    refine h2.write_follows hs2 (mem_insert_self _ _) fun k3 h3 => ?_
    refine h3.brelse_follows (mem_insert_self _ _) fun k4 h4 => ?_
    have hlh' := card_insert_le bno lh
    refine ⟨h4.disk_eq, rfl, insert bno lh, by omega, ?_⟩
    have hne : bno ≠ f := by
      rintro rfl
      rw [hf.unused] at hused
      cases hused
    have hsame : s1.disk bno = t.cur bno := by
      rw [hcur]
      exact hf.data_eq bno hdata hne
    simp only [erase_insert hfree, ← hsame] at h4
    exact h4
  · rw [if_neg (by rwa [hword]), if_neg hz]
    refine h1.brelse_follows (mem_insert_self _ _) fun k2 h2 => ?_
    refine ⟨h2.disk_eq, hword, t.lh, by omega, ?_⟩
    simp only [erase_insert hfree, hcur] at h2
    exact h2

lemma Opened.index_entry_follows {a : ℕ} (hs : Spare sb t (n + 4)) (hfree : t.held = ∅)
    (hne : a ≠ 0) (ha : ip.addrs Lab.stock.NDIRECT = a) (j : ℕ) :
    Tracks sb base
      (do let addr ← Log.indirectEntry sb a j; return (addr, ip)) k
      (do let (addr, s) ← Fs.Kernel.indirectEntry s a j; .ok (addr, s, ip))
      fun a k' c => a = (c.1, c.2.2) ∧ Shows sb base t 3 c.2.1 k' := by
  have hindex := hr.index (by rwa [ha])
  rw [ha] at hindex
  have hnone : a ∉ t.held := by
    rw [hfree]
    exact notMem_empty a
  refine (h.indirectEntry_follows hcur hsb hr hheld hs hindex.1 hindex.2.1 hindex.2.2 hnone j).bind ?_
  rintro _ k2 ⟨c, s2⟩ ⟨rfl, hshows⟩
  exact ⟨hshows.choose_spec.2.disk_eq, rfl, hshows⟩

lemma Opened.bmap_follows (hs : Spare sb t (n + 6)) (hfree : t.held = ∅) (bn : ℕ) :
    Tracks sb base (Log.bmap sb ip bn) k
      (Fs.Kernel.bmap .stock s ip bn) fun a k' c => a = (c.1, c.2.2) ∧ Shows sb base t 5 c.2.1 k' := by
  change Prog.Follows _ _ _ _ (Fs.Kernel.bmapStock s ip bn) _
  unfold Log.bmap Fs.Kernel.bmapStock
  by_cases hd : bn < Lab.stock.NDIRECT
  · rw [if_pos hd, if_pos hd]
    refine (h.addrEntry_follows hcur hsb hr hheld (n := n + 4) hs bn).mono ?_
    rintro a k' c ⟨ha, lh, hcard, h'⟩
    exact ⟨ha, lh, by omega, h'⟩
  rw [if_neg hd, if_neg hd]
  by_cases hi : bn - Lab.stock.NDIRECT < NINDIRECT
  · rw [if_pos hi, if_pos hi]
    have hentry : ∀ x k1 c, Fs.Kernel.addrEntry s ip Lab.stock.NDIRECT = .ok c ∧ x = (c.1, c.2.2) ∧
        Shows sb base t 2 c.2.1 k1 → Tracks sb base
        (do let addr ← Log.indirectEntry sb x.1 (bn - Lab.stock.NDIRECT); return (addr, x.2)) k1
        (do let (a, s) ← Fs.Kernel.indirectEntry c.2.1 c.1 (bn - Lab.stock.NDIRECT); .ok (a, s, c.2.2))
        fun a k' c => a = (c.1, c.2.2) ∧ Shows sb base t 5 c.2.1 k' := by
      intro x k1 c hx
      -- the case splits would otherwise evaluate the entry of the index block
      generalize hm : Fs.Kernel.indirectEntry c.2.1 c.1 (bn - Lab.stock.NDIRECT) = m
      obtain ⟨he, rfl, lh, hcard, h1⟩ := hx
      obtain ⟨hr1, hsb1, ha, hne⟩ := hr.addrEntry he
      have hs1 : Spare sb ⟨c.2.1.disk, lh, t.held, t.outstanding⟩ (n + 4) :=
        hs.later rfl (by dsimp only; omega)
      have hmarked : Marked c.2.1 t.held := by
        rw [hfree]
        exact fun b hb => absurd hb (notMem_empty b)
      subst hm
      refine (h1.index_entry_follows rfl (hsb1.trans hsb) hr1 hmarked hs1 hfree hne ha _).mono ?_
      rintro a k2 c2 ⟨ha2, lh2, hcard2, h2⟩
      exact ⟨ha2, lh2, by dsimp only at hcard2; omega, h2⟩
    exact (h.addrEntry_follows hcur hsb hr hheld (n := n + 4) hs _).with_eq.bind hentry
  · rw [if_neg hi, if_neg hi]
    exact ⟨h.disk_eq, Or.inl ⟨.panic .bmapOutOfRange, rfl⟩⟩

end BlockMap

/-! Crashes before the commit record of a group: recovery gives back what the disk held. -/

variable {sb : Superblock} {base d : Disk} {t : Txn} {k u : State} {mem : ℕ → Block} {l : List ℕ}
  {α : Type}

/-- No commit record is on the disk. -/
def Uncommitted (sb : Superblock) (u : State) : Prop := logged (u.disk sb.logstart) = []

lemma Uncommitted.of_disk {k' : State} (h : Uncommitted sb k) (hd : k'.disk = k.disk) :
    Uncommitted sb k' := by
  unfold Uncommitted
  rw [hd]
  exact h

/-- Wherever the program is stopped before a commit record is on the disk, and however often the
recovery stops too, the recovery that ends leaves the home blocks of `d`. -/
def Undone (sb : Superblock) (d : Disk) (p : Proc α) (k : State) : Prop :=
  ∀ u e, Prog.VisitsWhile (exec sb) (Uncommitted sb) p k u → Crashes sb u.disk e →
    ∃ k', (recoverFromLog sb).run (exec sb) (boot e) = .ok ((), k') ∧
      ∀ b, Home sb b → k'.disk b = d b

lemma Clean.recovers (h : Clean sb d u.disk) (hpos : 0 < sb.nlog) (hsize : sb.nlog ≤ LOGSIZE)
    {e : Disk} (he : Crashes sb u.disk e) : ∃ k', (recoverFromLog sb).run (exec sb) (boot e) = .ok ((), k') ∧
      ∀ b, Home sb b → k'.disk b = d b := by
  have hrec : Recoverable sb d u.disk := ⟨[], h.committed hpos hsize⟩
  obtain ⟨k', hrun, -, hclean⟩ := (hrec.crashes he).recovers
  exact ⟨k', hrun, hclean.home⟩

lemma not_undone {p : Proc α} {b : ℕ} (hpos : 0 < sb.nlog) (hsize : sb.nlog ≤ LOGSIZE)
    (hv : Prog.VisitsWhile (exec sb) (Uncommitted sb) p k u) (hb : Home sb b)
    (hne : u.disk b ≠ d b) : ¬ Undone sb d p k := by
  intro hundone
  obtain ⟨k', hrun, hhome⟩ := hundone u u.disk hv .refl
  have hself : Clean sb u.disk u.disk := ⟨hv.last, fun _ _ => rfl⟩
  obtain ⟨k'', hrun', hhome'⟩ := hself.recovers hpos hsize .refl
  rw [hrun] at hrun'
  cases hrun'
  exact hne ((hhome' b hb).symm.trans (hhome b hb))

lemma commit_visits {f : Unit → Proc α} (h : Rep k mem ∅ l.toFinset) (hl : k.log.lh = l)
    (hfit : l = [] ∨ Fits sb l) (hC : Clean sb base k.disk)
    (hv : Prog.VisitsWhile (exec sb) (Uncommitted sb) (commit sb >>= f) k u) :
    Clean sb base u.disk ∨ l = [] ∧ Prog.VisitsWhile (exec sb) (Uncommitted sb) (f ()) k u := by
  cases hv with
  | here _ => exact .inl hC
  | next _ hs hv =>
    cases hs
    rw [hl] at hv
    change Prog.VisitsWhile (exec sb) _ ((if 0 < l.length then _ else _) >>= f) k u at hv
    by_cases hne : l = []
    · subst hne
      exact .inr ⟨rfl, hv⟩
    have hfit := hfit.resolve_left hne
    rw [if_pos (List.length_pos_iff.mpr hne), Prog.bind_assoc] at hv
    have hwrite := writeLog_meets h hl hfit hC
    rcases hv.of_bind with hv | ⟨_, k1, hrun, hv⟩
    · exact .inl (hwrite.visits hv.visits)
    obtain ⟨_, k1', hrun', hw⟩ := hwrite.run
    rw [hrun] at hrun'
    cases hrun'
    obtain ⟨mem1, hrep1, -⟩ := hw.rep
    have hlog1 : k1.log.lh = l := by rw [hw.log_eq, hl]
    have hrecord : logged (header (k1.disk sb.logstart) l) = l :=
      logged_header (hfit.room.le.trans hfit.size) fun b hb => (hfit.home b hb).1
    have hhead := writeHead_meets (D := fun d => logged (d sb.logstart) = [] → Clean sb base d)
      hrep1 hfit.lt_nbuf (fun hd => hfit.ne_header (List.mem_toFinset.mp hd) rfl)
      (fun _ => hw.clean) (fun he => by
        rw [Function.update_self, hlog1, hrecord] at he
        exact absurd he hne)
    rw [Prog.bind_assoc] at hv
    rcases hv.of_bind with hv | ⟨_, k2, hrun, hv⟩
    · exact .inl (hhead.visits hv.visits hv.last)
    obtain ⟨_, k2', hrun', -, -, hdisk⟩ := hhead.run
    rw [hrun] at hrun'
    cases hrun'
    have hstart : logged (k2.disk sb.logstart) = [] := hv.start
    rw [hdisk, Function.update_self, hlog1, hrecord] at hstart
    exact absurd hstart hne

lemma Opened.endOp_visits (h : Opened sb base t k) (hsize : sb.nlog ≤ LOGSIZE)
    (hempty : logged (base sb.logstart) = []) (hheld : t.held = ∅)
    (hv : Prog.VisitsWhile (exec sb) (Uncommitted sb) (Log.endOp sb) k u) : Clean sb base u.disk := by
  have hbase : ∀ v : State, v.disk = base → Clean sb base v.disk := by
    intro v hd
    rw [hd]
    exact ⟨hempty, fun _ _ => rfl⟩
  by_cases hout : 1 < t.outstanding
  · have he : t.step sb .endOp = some { t with outstanding := t.outstanding - 1 } := if_pos hout
    exact hbase u ((h.endOp he).visits hv.visits)
  have hexec : exec sb .endOp k = .ok (true, { k with log := ⟨k.log.lh, 0, true⟩ }) := by
    have hz : k.log.outstanding - 1 = 0 := by
      rw [h.outstanding_eq]
      omega
    simp only [exec, h.committing_eq, hz]
    rfl
  have hrep : Rep { k with log := ⟨k.log.lh, 0, true⟩ } t.cur ∅ k.log.lh.toFinset := by
    rw [← hheld, h.lh_eq]
    exact h.rep.setLog _
  cases hv with
  | here _ => exact hbase k h.disk_eq
  | next _ hs hv =>
    rw [hexec] at hs
    cases hs
    rcases commit_visits hrep rfl (h.fits hsize) (hbase _ h.disk_eq) hv with hc | ⟨-, hv⟩
    · exact hc
    · cases hv with
      | here _ => exact hbase _ h.disk_eq
      | next _ hs hv =>
        cases hs
        cases hv with
        | here _ => exact hbase _ h.disk_eq

end LearnXv6.Log
