import LearnXv6.Fs.Mkfs.Append

/-! The image between two calls: `format`, `ialloc` and `iappend`, in any order. -/
namespace LearnXv6.Fs.Mkfs
open Function Store Kernel List Dinode

variable {L : Lab} {s s' : State} {dins : ℕ → Dinode} {d din : Dinode} {i j inum : ℕ}
  {c : ℕ → List UInt8} {t : ℕ → List (ℕ × ℕ)} {p : List UInt8} {u : List (ℕ × ℕ)}

/-! The inode table. -/

def dinodes (L : Lab) (s : State) (j : ℕ) : Dinode :=
  Dinode.read (s.sect ((sb L).iblock j)) (j % IPB)

/-- The image after `*dip = *ip` for inode `j`. -/
def setDinode (L : Lab) (s : State) (j : ℕ) (d : Dinode) : State :=
  wsect s ((sb L).iblock j) (Dinode.write (s.sect ((sb L).iblock j)) (j % IPB) d)

section Table

variable (hj : j < inodes)
include hj

lemma iblock_facts (L : Lab) : 1 < (sb L).iblock j ∧ (sb L).iblock j < (sb L).bmapstart ∧
    (sb L).iblock j < L.FSSIZE ∧ (sb L).iblock j < 2 ^ 23 := by
  have hlt := iblock_lt (L := L) hj
  have hlay := layout L
  have hge : (sb L).inodestart ≤ (sb L).iblock j := by simp [Superblock.iblock]
  omega

lemma rinode_eq (hs : s.nsect = L.FSSIZE) : rinode L s j = .ok (dinodes L s j) := by
  have hb := iblock_facts hj L
  have hr : rsect s ((sb L).iblock j) = .ok (s.sect ((sb L).iblock j)) :=
    (rsect_eq_ok (by omega)).mpr ⟨by omega, rfl⟩
  simp only [rinode, hr, ok_bind]
  rfl

lemma winode_eq (hs : s.nsect = L.FSSIZE) (d : Dinode) : winode L s j d = .ok (setDinode L s j d) := by
  have hb := iblock_facts hj L
  have hr : rsect s ((sb L).iblock j) = .ok (s.sect ((sb L).iblock j)) :=
    (rsect_eq_ok (by omega)).mpr ⟨by omega, rfl⟩
  simp only [winode, hr, ok_bind]
  rfl

lemma setDinode_nsect (hs : s.nsect = L.FSSIZE) (d : Dinode) : (setDinode L s j d).nsect = s.nsect := by
  have hb := iblock_facts hj L
  exact wsect_nsect (by omega) (by omega)

lemma setDinode_sect {b : ℕ} (hb : b ≠ (sb L).iblock j) (d : Dinode) :
    (setDinode L s j d).sect b = s.sect b := by
  have := iblock_facts hj L
  rw [setDinode, wsect_sect (by omega), update_of_ne hb]

lemma dinodes_setDinode (hd : d.Fits) (i : ℕ) :
    dinodes L (setDinode L s j d) i = if i = j then d else dinodes L s i := by
  have hb := iblock_facts hj L
  have hslot : j % IPB < IPB := Nat.mod_lt _ (by decide)
  by_cases hij : i = j
  · subst hij
    rw [if_pos rfl, dinodes, setDinode, wsect_sect (by omega), update_self,
      read_write hslot hd]
  · rw [if_neg hij]
    by_cases he : (sb L).iblock i = (sb L).iblock j
    · -- the same block, so another slot of it
      have hne : i % IPB ≠ j % IPB := by
        simp only [Superblock.iblock] at he
        have h1 := Nat.div_add_mod i IPB
        have h2 := Nat.div_add_mod j IPB
        intro hm
        rw [hm, show i / IPB = j / IPB by omega] at h1
        omega
      rw [dinodes, he, setDinode, wsect_sect (by omega), update_self,
        read_write_of_ne hslot hne, dinodes, he]
    · rw [dinodes, setDinode_sect hj he, dinodes]

end Table

lemma dinodes_congr (h : ∀ b, 0 < b → b < nmeta L → s'.sect b = s.sect b) (hi : i < inodes) :
    dinodes L s' i = dinodes L s i := by
  have hb := iblock_facts hi L
  have hlay := layout L
  rw [dinodes, h _ (by omega) (by omega), dinodes]

/-! The image as a whole. -/

/-- The image holds the files `c` in blocks of its own for each. -/
structure Linked (L : Lab) (s : State) (c : ℕ → List UInt8) (t : ℕ → List (ℕ × ℕ)) : Prop where
  inv : Inv L s (dinodes L s)
  free_le : s.freeblock ≤ L.FSSIZE
  holds : ∀ j, j < inodes → Holds L s (dinodes L s) j (c j) (t j)

/-- Besides, the sizes are those of `c`, the free map is still blank, and no inode from
`freeinode` on is in use. -/
structure Built (L : Lab) (s : State) (c : ℕ → List UInt8) (t : ℕ → List (ℕ × ℕ)) : Prop
    extends Linked L s c t where
  ino_pos : 0 < s.freeinode
  bitmap : ∀ b, (sb L).bmapstart ≤ b → b < nmeta L → s.sect b = 0
  size_eq : ∀ j, j < inodes → (dinodes L s j).size = (c j).length
  len_le : ∀ j, j < inodes → (c j).length ≤ limit L * BSIZE
  not_dev : ∀ j, j < inodes → (dinodes L s j).type ≠ T_DEV
  blank : ∀ j, s.freeinode ≤ j → j < inodes → dinodes L s j = 0

lemma Inv.setDinode (h : Inv L s dins) (hj : j < inodes) (hd : d.Fits) (hdj : d.addrs = (dins j).addrs)
    (hsync : ∀ i, i < inodes → i ≠ j → dinodes L s i = dins i) :
    Inv L (setDinode L s j d) (dinodes L (setDinode L s j d)) ∧
      ∀ n ∈ allNodes L, forest (Mkfs.setDinode L s j d) (dinodes L (Mkfs.setDinode L s j d)) n =
        forest s dins n := by
  have hb := iblock_facts hj L
  have hlay := layout L
  have hlow := h.nmeta_le
  apply h.change (setDinode_nsect hj h.nsect_eq d) le_rfl h.free_le
  · exact setDinode_sect hj (by omega) d
  · intro b hle
    have hle : s.freeblock ≤ b := hle
    exact setDinode_sect hj (by omega) d
  · intro r ks k hn hne
    have := (h.owned _ (allNodes_prefixClosed L _ _ _ hn) hne).1
    exact setDinode_sect hj (by omega) d
  · exact fun i => read_fits _ _
  · intro i hi
    rw [dinodes_setDinode hj hd]
    by_cases hij : i = j
    · rw [if_pos hij, hij, hdj]
    · rw [if_neg hij, hsync i hi hij]

lemma Holds.setDinode (h : Inv L s dins) (hj : j < inodes) (hi : i < inodes) {e : List UInt8}
    {v : List (ℕ × ℕ)} (hh : Holds L s dins i e v)
    (ht : ∀ n ∈ allNodes L, forest (setDinode L s j d) (dinodes L (setDinode L s j d)) n = forest s dins n) :
    Holds L (Mkfs.setDinode L s j d) (dinodes L (Mkfs.setDinode L s j d)) i e v := by
  have hb := iblock_facts hj L
  have hlay := layout L
  apply hh.congr
  · intro n hn
    exact ht _ ⟨hi, hn⟩
  · intro bn hbn hbr
    have := (h.owned _ (leaf_mem hi (hbr.trans_le (reach_le L))) (hh.leaf_ne hbn hbr)).1
    exact setDinode_sect hj (by omega) d

/-! `format` -/

lemma zero_sectors {n : ℕ} (hn : n ≤ 2 ^ 23) (s : State) (hs : s.nsect = 0) (hz : ∀ b, s.sect b = 0) :
    ((List.range n).foldl (fun s i => wsect s i 0) s).nsect = n ∧
      (∀ b, ((List.range n).foldl (fun s i => wsect s i 0) s).sect b = 0) ∧
      ((List.range n).foldl (fun s i => wsect s i 0) s).freeinode = s.freeinode ∧
      ((List.range n).foldl (fun s i => wsect s i 0) s).freeblock = s.freeblock := by
  induction n with
  | zero => exact ⟨hs, hz, rfl, rfl⟩
  | succ n ih =>
    obtain ⟨h1, h2, h3, h4⟩ := ih (by omega)
    rw [range_succ, foldl_append]
    refine ⟨?_, ?_, h3, h4⟩
    · simp only [foldl_cons, foldl_nil]
      rw [wsect, Nat.mod_eq_of_lt (show n < 2 ^ 23 by omega), h1]
      exact max_eq_right (Nat.le_succ n)
    · intro b
      simp only [foldl_cons, foldl_nil]
      rw [wsect_sect (by omega)]
      by_cases hb : b = n
      · rw [hb, update_self]
      · rw [update_of_ne hb, h2]

lemma format_facts (L : Lab) : (format L).nsect = L.FSSIZE ∧
    (format L).sect 1 = Superblock.write 0 (sb L) ∧ (∀ b, b ≠ 1 → (format L).sect b = 0) ∧
    (format L).freeinode = 1 ∧ (format L).freeblock = nmeta L := by
  have hlay := layout L
  obtain ⟨h1, h2, h3, h4⟩ := zero_sectors (n := L.FSSIZE) (by omega) ⟨0, fun _ => 0, 1, nmeta L⟩ rfl
    (fun _ => rfl)
  refine ⟨?_, ?_, ?_, h3, h4⟩
  · rw [← h1]
    exact wsect_nsect (by omega) (by rw [h1]; omega)
  · rw [format, wsect_sect (by omega), update_self]
  · intro b hb
    rw [format, wsect_sect (by omega), update_of_ne hb]
    exact h2 b

lemma format_dinodes (hj : j < inodes) : dinodes L (format L) j = 0 := by
  obtain ⟨-, -, hz, -, -⟩ := format_facts L
  have hb := iblock_facts hj L
  rw [dinodes, hz _ (by omega), read_zero]

lemma format_forest {n : Node} (hn : n ∈ allNodes L) : forest (format L) (dinodes L (format L)) n = 0 := by
  have hroot : (dinodes L (format L) n.1.1).addrs n.1.2 = 0 := by
    rw [format_dinodes hn.1]
    rfl
  simp only [forest, Store.table, hroot, descend_zero]

lemma format_built (L : Lab) : Built L (format L) (fun _ => []) (fun _ => []) := by
  obtain ⟨hns, hsup, hz, hino, hfree⟩ := format_facts L
  have hlay := layout L
  refine ⟨⟨⟨hns, hfree.ge, by omega, hsup, ?_, fun j => read_fits _ _, ?_, ?_⟩, by omega,
    ?_⟩, by omega, ?_, ?_, fun _ _ => Nat.zero_le _, ?_, fun j _ hj => format_dinodes hj⟩
  · intro b hb
    exact hz b (by omega)
  · intro n hn hne
    exact absurd (format_forest hn) hne
  · intro m hm n _ _ hne
    exact absurd (format_forest hm) hne
  · intro j hj
    refine ⟨?_, ?_, ?_, ?_⟩
    · intro n hn
      constructor
      · intro hne
        exact absurd (format_forest ⟨hj, hn⟩) hne
      · rintro ⟨bn, hbn, -⟩
        have : nblk ([] : List UInt8).length = 0 := rfl
        omega
    · intro i hi
      cases hi
    · intro bn x hm
      cases hm
    · intro bn hbn
      cases hbn
  · intro b hb _
    exact hz b (by omega)
  · intro j hj
    rw [format_dinodes hj]
    rfl
  · intro j hj
    rw [format_dinodes hj]
    decide

/-! `ialloc` -/

lemma ialloc_spec {type : ℕ} (h : Built L s c t) (hlt : s.freeinode < inodes)
    (htype : type < 2 ^ 16) (hdev : type ≠ T_DEV) :
    ∃ s', ialloc L s type = .ok (s.freeinode, s') ∧ Built L s' c t ∧
      s'.freeinode = s.freeinode + 1 ∧ s'.freeblock = s.freeblock ∧
      ∀ i, i < inodes →
        (dinodes L s' i).type = if i = s.freeinode then type else (dinodes L s i).type := by
  have hblank := h.blank s.freeinode le_rfl hlt
  generalize hs1 : ({ s with freeinode := s.freeinode + 1 } : State) = s1
  have hsect : s1.sect = s.sect := by rw [← hs1]
  have hinv1 : Inv L s1 (dinodes L s) := by
    subst hs1
    exact ⟨h.inv.nsect_eq, h.inv.nmeta_le, h.inv.free_le, h.inv.super, h.inv.zero,
      h.inv.fits, h.inv.owned, h.inv.separate⟩
  have hholds1 : ∀ i, i < inodes → Holds L s1 (dinodes L s) i (c i) (t i) := by
    subst hs1
    intro i hi
    exact ⟨(h.holds i hi).mapped, (h.holds i hi).data, (h.holds i hi).wrote, (h.holds i hi).traced⟩
  generalize hd : ({ (0 : Dinode) with type := type, nlink := 1, size := 0 } : Dinode) = d
  have hfits : d.Fits := by
    have h0 := read_zero 0 ▸ read_fits 0 0
    subst hd
    exact ⟨htype, h0.major_lt, h0.minor_lt, one_lt_two.trans (by decide), h0.size_lt, h0.addrs_lt,
      h0.addrs_ge⟩
  have hdin : ∀ i, dinodes L (setDinode L s1 s.freeinode d) i =
      if i = s.freeinode then d else dinodes L s i := by
    intro i
    rw [dinodes_setDinode hlt hfits]
    simp only [dinodes, hsect]
  obtain ⟨hinv, ht⟩ := hinv1.setDinode hlt hfits (by rw [hblank, ← hd])
    (fun i _ _ => by simp only [dinodes, hsect])
  have hfi : (setDinode L s1 s.freeinode d).freeinode = s.freeinode + 1 := by
    rw [← hs1]
    rfl
  refine ⟨setDinode L s1 s.freeinode d, ?_, ⟨⟨hinv, ?_, ?_⟩, by omega, ?_, ?_, h.len_le, ?_, ?_⟩,
    hfi, ?_, ?_⟩
  · simp only [ialloc, hs1, hd]
    rw [winode_eq hlt hinv1.nsect_eq]
    rfl
  · rw [← hs1]
    exact h.free_le
  · intro i hi
    exact (hholds1 i hi).setDinode hinv1 hlt hi ht
  · intro b hb hbl
    have := iblock_facts hlt L
    rw [setDinode_sect hlt (by omega), hsect, h.bitmap b hb hbl]
  · intro i hi
    rw [hdin]
    split
    · rename_i he
      rw [← h.size_eq i hi, he, hblank, ← hd]
      rfl
    · exact h.size_eq i hi
  · intro i hi
    rw [hdin]
    split
    · rwa [← hd]
    · exact h.not_dev i hi
  · intro i hge hi
    rw [hdin, if_neg (by omega)]
    exact h.blank i (by omega) hi
  · rw [← hs1]
    rfl
  · intro i hi
    rw [hdin]
    split
    · rw [← hd]
    · rfl

/-! `iappend` -/

lemma iappend_spec (h : Built L s c t) (hj : inum < s.freeinode) (hlt : inum < inodes)
    (hr : iappend L s inum p = .ok (u, s')) :
    Built L s' (update c inum (c inum ++ p)) (update t inum (t inum ++ u)) ∧ s'.freeinode = s.freeinode ∧
      ∀ i, i < inodes → (dinodes L s' i).type = (dinodes L s i).type := by
  simp only [iappend, bind_eq_ok, rinode_eq hlt h.inv.nsect_eq] at hr
  obtain ⟨din0, hd0, ⟨u', s1, din1, off⟩, hloop, s2, hw, he⟩ := hr
  simp only [Except.ok.injEq, Prod.mk.injEq] at hd0 he
  obtain ⟨rfl, rfl⟩ := he
  subst hd0
  obtain ⟨hp, hoff, hlim⟩ := iappendLoop_spec h.inv h.free_le hlt h.holds (h.size_eq inum hlt) hloop
  have hsize := h.size_eq inum hlt
  have hoff_le := hlim (by rw [hsize]; exact h.len_le inum hlt)
  have hmax := limit_le L
  have hmax32 : L.MAXFILE * BSIZE < 2 ^ 32 := by cases L <;> decide
  have hle := Nat.mul_le_mul_right BSIZE hmax
  rw [winode_eq hlt hp.inv.nsect_eq] at hw
  simp only [Except.ok.injEq] at hw
  subst hw
  have hfit1 : din1.Fits := by
    have := hp.inv.fits inum
    rwa [update_self] at this
  have hfits : Dinode.Fits { din1 with size := off } :=
    ⟨hfit1.type_lt, hfit1.major_lt, hfit1.minor_lt, hfit1.nlink_lt, by simp only; omega,
      hfit1.addrs_lt, hfit1.addrs_ge⟩
  have hsync : ∀ i, i < inodes → dinodes L s1 i = dinodes L s i :=
    fun i hi => dinodes_congr hp.low_eq hi
  obtain ⟨hinv, ht⟩ := hp.inv.setDinode hlt hfits (by rw [update_self])
    (fun i hi hij => by rw [hsync i hi, update_of_ne hij])
  have hdin : ∀ i, i < inodes → dinodes L (setDinode L s1 inum { din1 with size := off }) i =
      if i = inum then { din1 with size := off } else dinodes L s i := by
    intro i hi
    rw [dinodes_setDinode hlt hfits, hsync i hi]
  have htype : din1.type = (dinodes L s inum).type := by rw [hp.inode_eq]
  have hlen : off = (c inum ++ p).length := by
    rw [length_append]
    omega
  refine ⟨⟨⟨hinv, hp.free_le, ?_⟩, ?_, ?_, ?_, ?_, ?_, ?_⟩, hp.freeinode_eq, ?_⟩
  · intro i hi
    exact (hp.files i hi).setDinode hp.inv hlt hi ht
  · exact hp.freeinode_eq ▸ h.ino_pos
  · intro b hb hbl
    have := iblock_facts hlt L
    rw [setDinode_sect hlt (by omega), hp.low_eq b (by omega) hbl, h.bitmap b hb hbl]
  · intro i hi
    rw [hdin i hi]
    by_cases hij : i = inum
    · subst hij
      rw [if_pos rfl, update_self]
      exact hlen
    · rw [if_neg hij, update_of_ne hij]
      exact h.size_eq i hi
  · intro i hi
    by_cases hij : i = inum
    · subst hij
      rw [update_self, ← hlen]
      exact hoff_le
    · rw [update_of_ne hij]
      exact h.len_le i hi
  · intro i hi
    rw [hdin i hi]
    split
    · change din1.type ≠ T_DEV
      rw [htype]
      exact h.not_dev inum hlt
    · exact h.not_dev i hi
  · intro i hge hi
    have hge := hp.freeinode_eq ▸ hge
    rw [hdin i hi, if_neg (by omega)]
    exact h.blank i hge hi
  · intro i hi
    rw [hdin i hi]
    split
    · rename_i he
      rw [he]
      exact htype
    · rfl

lemma iappend_ok (h : Linked L s c t) (hlt : inum < inodes)
    (hsize : (dinodes L s inum).size = (c inum).length) (hmax : (c inum).length + p.length ≤ limit L * BSIZE)
    (hroom : s.freeblock + 4 * nblk ((c inum).length % BSIZE + p.length) ≤ L.FSSIZE) :
    ∃ u s', iappend L s inum p = .ok (u, s') ∧ s'.nsect = L.FSSIZE ∧
      s'.freeblock ≤ s.freeblock + 4 * nblk ((c inum).length % BSIZE + p.length) := by
  rw [← hsize] at hmax hroom ⊢
  obtain ⟨⟨u, s1, din1, off⟩, hloop, hfree⟩ :=
    iappendLoop_ok h.inv hlt h.holds hsize hmax (.inr hroom)
  obtain ⟨hp, -, -⟩ := iappendLoop_spec h.inv h.free_le hlt h.holds hsize hloop
  refine ⟨u, setDinode L s1 inum { din1 with size := off }, ?_, ?_, hfree⟩
  swap
  · rw [setDinode_nsect hlt hp.inv.nsect_eq, hp.inv.nsect_eq]
  simp only [iappend, rinode_eq hlt h.inv.nsect_eq, ok_bind, hloop, winode_eq hlt hp.inv.nsect_eq]

lemma iappend_ne_outOfRange (h : Built L s c t) (hlt : inum < inodes)
    (hmax : (c inum).length + p.length ≤ reach L * BSIZE) : iappend L s inum p ≠ .error .outOfRange := by
  have hsize := h.size_eq inum hlt
  simp only [iappend, rinode_eq hlt h.inv.nsect_eq, ok_bind]
  refine bind_ne_error (iappendLoop_ne_outOfRange (by omega)) ?_
  rintro ⟨u, s1, din1, off⟩ hloop
  obtain ⟨hp, -, -⟩ := iappendLoop_spec h.inv h.free_le hlt h.holds hsize hloop
  simp [winode_eq hlt hp.inv.nsect_eq]

lemma iappend_outOfRange (h : Built .isingle s c t) (hlt : inum < inodes)
    (hmax : reach .isingle * BSIZE < (c inum).length + p.length)
    (hroom : s.freeblock + 4 * nblk ((c inum).length % BSIZE + p.length) ≤ Lab.isingle.FSSIZE) :
    iappend .isingle s inum p = .error .outOfRange := by
  have hsize := h.size_eq inum hlt
  have hle := hsize ▸ h.len_le inum hlt
  rw [← hsize] at hmax hroom
  simp only [iappend, rinode_eq hlt h.inv.nsect_eq, ok_bind,
    iappendLoop_outOfRange h.inv hlt h.holds hsize rfl hmax hle hroom, error_bind]

/-! Runs of calls. -/

/-- A call that `main` makes. -/
inductive Call where
  | ialloc (type : ℕ)
  | iappend (inum : ℕ) (p : List UInt8)

/-- One call, with the sectors written so far for each inode. -/
def exec (L : Lab) : State × (ℕ → List (ℕ × ℕ)) → Call → Except Abort (State × (ℕ → List (ℕ × ℕ)))
  | (s, t), .ialloc type => do
    let (_, s) ← ialloc L s type
    .ok (s, t)
  | (s, t), .iappend inum p => do
    let (u, s) ← iappend L s inum p
    .ok (s, update t inum (t inum ++ u))

/-- The image built by a sequence of calls, before the free map is written. -/
def build (L : Lab) (calls : List Call) : Except Abort (State × (ℕ → List (ℕ × ℕ))) :=
  calls.foldlM (exec L) (format L, fun _ => [])

/-- Calls append to inodes that were allocated before, and the inode blocks hold them all. -/
def WellFormed : ℕ → List Call → Prop
  | _, [] => True
  | next, .ialloc type :: calls =>
    next < inodes ∧ (type = T_DIR ∨ type = T_FILE) ∧ WellFormed (next + 1) calls
  | next, .iappend inum _ :: calls => (0 < inum ∧ inum < next) ∧ WellFormed next calls

def appended (calls : List Call) (j : ℕ) : List UInt8 :=
  calls.flatMap fun
    | .ialloc _ => []
    | .iappend inum p => if inum = j then p else []

section Runs

variable {calls : List Call} {r : State × (ℕ → List (ℕ × ℕ))}

lemma appended_iappend (inum : ℕ) (p : List UInt8) (calls : List Call) (j : ℕ) :
    c j ++ appended (.iappend inum p :: calls) j = update c inum (c inum ++ p) j ++ appended calls j := by
  by_cases hj : inum = j
  · subst hj
    simp [appended]
  · simp [appended, hj, update_of_ne (Ne.symm hj)]

lemma type_facts {type : ℕ} (h : type = T_DIR ∨ type = T_FILE) : type < 2 ^ 16 ∧ type ≠ T_DEV := by
  rcases h with rfl | rfl <;> decide

/-- The types of the inodes that the calls allocate, in order. -/
def kinds (calls : List Call) : List ℕ :=
  calls.filterMap fun
    | .ialloc type => some type
    | .iappend _ _ => none

/-- Every run keeps the image sound and its files equal to what was appended to them, and gives the
inodes that it allocates their types. -/
lemma run_built (h : Built L s c t) (hle : s.freeinode ≤ inodes)
    (hwf : WellFormed s.freeinode calls) (hr : calls.foldlM (exec L) (s, t) = .ok r) :
    Built L r.1 (fun j => c j ++ appended calls j) r.2 ∧ r.1.freeinode ≤ inodes ∧
      ∀ j, j < inodes → (dinodes L r.1 j).type =
        if j < s.freeinode then (dinodes L s j).type else (kinds calls).getD (j - s.freeinode) 0 := by
  induction calls generalizing s c t with
  | nil =>
    cases hr
    refine ⟨by simpa [appended] using h, hle, fun j hj => ?_⟩
    split
    · rfl
    · rw [h.blank j (by omega) hj]
      rfl
  | cons call calls ih =>
    rw [foldlM_cons, bind_eq_ok] at hr
    obtain ⟨⟨s1, t1⟩, hx, hr⟩ := hr
    cases call with
    | ialloc type =>
      obtain ⟨hlt, htype, hwf⟩ := hwf
      obtain ⟨s2, ha, hb, hfi, -, hty⟩ := ialloc_spec h hlt (type_facts htype).1 (type_facts htype).2
      simp only [exec, ha, ok_bind, Except.ok.injEq, Prod.mk.injEq] at hx
      obtain ⟨rfl, rfl⟩ := hx
      obtain ⟨hbuilt, hino, htypes⟩ := ih hb (by omega) (hfi ▸ hwf) hr
      refine ⟨hbuilt, hino, fun j hj => ?_⟩
      rw [htypes j hj, hty j hj, show kinds (.ialloc type :: calls) = type :: kinds calls from rfl, hfi]
      by_cases h1 : j < s.freeinode
      · rw [if_pos (by omega), if_neg (by omega), if_pos h1]
      · by_cases h2 : j = s.freeinode
        · rw [if_pos (by omega), if_pos h2, if_neg h1, h2, Nat.sub_self]
          rfl
        · rw [if_neg (by omega), if_neg h1,
            show j - s.freeinode = j - (s.freeinode + 1) + 1 by omega, getD_cons_succ]
    | iappend inum p =>
      obtain ⟨⟨-, hlt⟩, hwf⟩ := hwf
      simp only [exec, bind_eq_ok] at hx
      obtain ⟨⟨u, s2⟩, ha, hx⟩ := hx
      cases hx
      obtain ⟨hb, hfi, hty⟩ := iappend_spec h hlt (by omega) ha
      obtain ⟨hbuilt, hino, htypes⟩ := ih hb (by omega) (hfi ▸ hwf) hr
      refine ⟨by simpa only [appended_iappend] using hbuilt, hino, fun j hj => ?_⟩
      rw [htypes j hj, hty j hj, hfi]
      rfl

lemma build_built (hwf : WellFormed 1 calls) (hr : build L calls = .ok r) :
    Built L r.1 (appended calls) r.2 ∧ r.1.freeinode ≤ inodes := by
  obtain ⟨-, -, -, hino, -⟩ := format_facts L
  obtain ⟨hb, hle, -⟩ := run_built (format_built L) (by rw [hino]; decide) (by rwa [hino]) hr
  exact ⟨by simpa using hb, hle⟩

lemma run_ne_outOfRange (h : Built L s c t) (hle : s.freeinode ≤ inodes)
    (hwf : WellFormed s.freeinode calls) (hlen : ∀ j, (c j ++ appended calls j).length ≤ reach L * BSIZE) :
    calls.foldlM (exec L) (s, t) ≠ .error .outOfRange := by
  induction calls generalizing s c t with
  | nil => simp [pure, Except.pure]
  | cons call calls ih =>
    rw [foldlM_cons]
    cases call with
    | ialloc type =>
      obtain ⟨hlt, htype, hwf⟩ := hwf
      obtain ⟨s2, ha, hb, hfi, -, -⟩ := ialloc_spec h hlt (type_facts htype).1 (type_facts htype).2
      simp only [exec, ha, ok_bind]
      exact ih hb (by omega) (hfi ▸ hwf) hlen
    | iappend inum p =>
      obtain ⟨⟨-, hlt⟩, hwf⟩ := hwf
      simp only [appended_iappend] at hlen
      have hp := hlen inum
      rw [update_self, length_append, length_append] at hp
      refine bind_ne_error ?_ ?_
      · refine bind_ne_error (iappend_ne_outOfRange h (by omega) (by omega)) ?_
        simp
      · rintro ⟨s1, t1⟩ hx
        simp only [exec, bind_eq_ok] at hx
        obtain ⟨⟨u, s2⟩, ha, hx⟩ := hx
        simp only [Except.ok.injEq, Prod.mk.injEq] at hx
        obtain ⟨rfl, rfl⟩ := hx
        obtain ⟨hb, hfi, -⟩ := iappend_spec h hlt (by omega) ha
        exact ih hb (by omega) (hfi ▸ hwf) hlen

lemma appended_eq_nil {next : ℕ} (hwf : WellFormed next calls) (hle : next ≤ inodes)
    (hj : inodes ≤ j) : appended calls j = [] := by
  induction calls generalizing next with
  | nil => rfl
  | cons call calls ih =>
    cases call with
    | ialloc type => exact ih hwf.2.2 hwf.1
    | iappend inum p =>
      obtain ⟨⟨-, hlt⟩, hwf⟩ := hwf
      have hne : inum ≠ j := by omega
      have := ih hwf hle
      simpa [appended, hne] using this

end Runs

end LearnXv6.Fs.Mkfs
