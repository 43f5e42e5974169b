import LearnXv6.Links.Directory
import LearnXv6.Store.Places

/-! The directories of a disk as a tree, and how the number of links to its inodes changes. -/
namespace LearnXv6.Links
open Function Store Icache

/-- A directory that has links. -/
def Live (d : Dinode) : Prop := d.type = .T_DIR ∧ 0 < d.nlink

instance (d : Dinode) : Decidable (Live d) := inferInstanceAs (Decidable (_ ∧ _))

/-- The entries of a directory that has links, other than `.`, that name `m`. -/
def gives (m : ℕ) (d : Dinode) : ℕ :=
  if Live d then d.entries.countP fun e => e.inum = m ∧ e.name ≠ dot else 0

/-- The entries other than `.` that name `m` in directories that have links. -/
def links (D : ℕ → Dinode) (m : ℕ) : ℕ := total (Finset.range NINODES) (gives m) D

/-- The directory is below `m`. -/
def below (m : ℕ) (d : Dinode) : ℕ := if Live d ∧ parent d = m then 1 else 0

/-- The entries for `m` other than `.` and `..`. -/
def named (m : ℕ) (d : Dinode) : ℕ := if Live d then naming d m else 0

def names (D : ℕ → Dinode) (m : ℕ) : ℕ := total (Finset.range NINODES) (named m) D

variable {D : ℕ → Dinode} {d d' : Dinode} {n m p i : ℕ}

lemma gives_of_not_live (h : ¬ Live d) : gives m d = 0 := if_neg h

lemma named_of_not_live (h : ¬ Live d) : named m d = 0 := if_neg h

lemma Dir.gives_eq (h : Dir n d) (hm : m ≠ 0) : gives m d = below m d + named m d := by
  unfold gives below named
  by_cases hl : Live d
  · have hrest : (rest d).countP (fun e => decide (e.inum = m ∧ e.name ≠ dot)) = naming d m := by
      refine List.countP_congr fun e he => ?_
      simp only [decide_eq_true_eq]
      refine ⟨fun h => h.1, fun h0 => ⟨h0, ?_⟩⟩
      exact (h.proper e he (h0 ▸ hm)).1
    rw [if_pos hl, if_pos hl, h.entries, List.countP_cons, List.countP_cons, hrest]
    have hne : dotdot ≠ dot := by decide
    by_cases hp : parent d = m
    · simp [hp, hl, hne, Nat.add_comm]
    · simp [hp]
  · simp [hl]

structure Node (D : ℕ → Dinode) (n : ℕ) : Prop where
  range : (D n).type ≠ .free → n ≠ 0 ∧ n < NINODES
  count : (D n).type ≠ .free → (D n).nlink = links D n
  unnamed : n ≠ 0 → (D n).type = .free → links D n = 0
  dir : (D n).type = .T_DIR → Dir n (D n)
  empty : (D n).type = .T_DIR → (D n).nlink = 0 → (D n).isdirempty = true
  once : Live (D n) → n ≠ ROOTINO → names D n = 1
  up : Live (D n) → Live (D (parent (D n)))
  named : Live (D n) → n ≠ ROOTINO → 0 < named n (D (parent (D n)))

/-- The directories with links are a tree, and `nlink` counts the entries. -/
structure Tree (D : ℕ → Dinode) : Prop where
  node : ∀ n, Node D n
  root : Live (D ROOTINO)
  rootParent : parent (D ROOTINO) = ROOTINO
  unnamed : names D ROOTINO = 0

lemma Live.ne_free (h : Live d) : d.type ≠ .free := by
  rw [h.1]
  decide

namespace Tree

variable (h : Tree D)
include h

lemma mem (hn : (D n).type ≠ .free) : n ∈ Finset.range NINODES :=
  Finset.mem_range.mpr ((h.node n).range hn).2

lemma ne_zero (hn : (D n).type ≠ .free) : n ≠ 0 := ((h.node n).range hn).1

lemma nlink_nonneg (hn : (D n).type ≠ .free) : 0 ≤ (D n).nlink := by
  rw [(h.node n).count hn]
  exact Int.natCast_nonneg _

lemma dir (hn : Live (D n)) : Dir n (D n) := (h.node n).dir hn.1

lemma parent_ne_zero (hn : Live (D n)) : parent (D n) ≠ 0 :=
  h.ne_zero ((h.node n).up hn).ne_free

lemma live_of_naming (hp : (D p).type = .T_DIR) (hm : m ≠ 0) (hpm : 0 < naming (D p) m) : Live (D p) := by
  refine ⟨hp, ?_⟩
  have hpos := h.nlink_nonneg (n := p) (by rw [hp]; decide)
  have hne : (D p).nlink ≠ 0 := by
    intro h0
    have := naming_eq_zero ((h.node p).empty hp h0) hm
    omega
  omega

lemma linked (hn : Live (D n)) {e : Dirent} (he : e ∈ (D n).entries)
    (h0 : e.inum ≠ 0) : (D e.inum).type ≠ .free ∧ 0 < (D e.inum).nlink := by
  by_cases hdot : e.name = dot
  · have hd := h.dir hn
    rw [hd.entries] at he
    have hself : e.inum = n := by
      rcases List.mem_cons.mp he with rfl | he
      · rfl
      · rcases List.mem_cons.mp he with rfl | he
        · exact absurd hdot (by decide : dotdot ≠ dot)
        · exact absurd hdot (hd.proper e he h0).1
    rw [hself]
    exact ⟨hn.ne_free, hn.2⟩
  · have hgives : 0 < gives e.inum (D n) := by
      unfold gives
      rw [if_pos hn]
      refine List.countP_pos_iff.mpr ⟨e, he, ?_⟩
      simp [hdot]
    have hle : gives e.inum (D n) ≤ links D e.inum := le_total (h.mem hn.ne_free)
    have hne : (D e.inum).type ≠ .free := by
      intro hfree
      have := (h.node _).unnamed h0 hfree
      omega
    refine ⟨hne, ?_⟩
    rw [(h.node _).count hne]
    omega

lemma links_eq (hm : m ≠ 0) : links D m = total (Finset.range NINODES) (below m) D + names D m := by
  rw [names, ← total_add]
  refine total_congr fun n _ => ?_
  by_cases hn : Live (D n)
  · exact (h.dir hn).gives_eq hm
  · rw [gives_of_not_live hn, named_of_not_live hn, below, if_neg fun hl => hn hl.1]

/-- Of a directory other than the root there is one name, in the directory above it. -/
lemma above (hm : Live (D m)) (hp : Live (D p)) (hpm : 0 < naming (D p) m) :
    m ≠ ROOTINO ∧ parent (D m) = p ∧ naming (D p) m = 1 := by
  have hle : named m (D p) ≤ names D m := le_total (h.mem hp.ne_free)
  have hnamed : named m (D p) = naming (D p) m := if_pos hp
  have hroot : m ≠ ROOTINO := by
    rintro rfl
    have := h.unnamed
    omega
  have hone := (h.node m).once hm hroot
  refine ⟨hroot, ?_, by omega⟩
  by_contra hne
  have hup := (h.node m).named hm hroot
  have := add_le_total (f := named m) (D := D) (h.mem ((h.node m).up hm).ne_free) (h.mem hp.ne_free) hne
  unfold names at hone
  omega

lemma two_le_nlink (hm : Live (D m)) (hroot : m ≠ ROOTINO) : 2 ≤ (D (parent (D m))).nlink := by
  have hp := (h.node m).up hm
  have hself : below (parent (D m)) (D m) = 1 := if_pos ⟨hm, rfl⟩
  rw [(h.node _).count hp.ne_free, h.links_eq (h.parent_ne_zero hm)]
  by_cases hpr : parent (D m) = ROOTINO
  · have := add_le_total (f := below (parent (D m))) (D := D) (h.mem hm.ne_free)
      (h.mem h.root.ne_free) hroot
    have hother : below (parent (D m)) (D ROOTINO) = 1 := if_pos ⟨h.root, by rw [h.rootParent, hpr]⟩
    omega
  · have hone := (h.node _).once hp hpr
    have hle : below (parent (D m)) (D m) ≤ total (Finset.range NINODES) (below (parent (D m))) D :=
      le_total (h.mem hm.ne_free)
    omega

end Tree

lemma Dir.gives_of_live (h : Dir n d) (hl : Live d) (hm : m ≠ 0) :
    gives m d = (if parent d = m then 1 else 0) + naming d m := by
  rw [h.gives_eq hm, below, named, if_pos hl]
  simp [hl]

lemma Node.of_not_live (hdead : ¬ Live (D n)) (hrange : (D n).type ≠ .free → n ≠ 0 ∧ n < NINODES)
    (hcount : (D n).type ≠ .free → (D n).nlink = links D n)
    (hunnamed : n ≠ 0 → (D n).type = .free → links D n = 0)
    (hdir : (D n).type = .T_DIR → Dir n (D n) ∧ (D n).isdirempty = true) : Node D n :=
  ⟨hrange, hcount, hunnamed, fun ht => (hdir ht).1, fun ht _ => (hdir ht).2, fun hl => absurd hl hdead,
    fun hl => absurd hl hdead, fun hl => absurd hl hdead⟩

/-- An inode that is not changed keeps what holds of it, if its links and names do not change and the
directory above it stays. -/
lemma Node.other {D' : ℕ → Dinode} (h : Node D n) (hn : D' n = D n)
    (hlinks : n ≠ 0 → links D' n = links D n) (hnames : Live (D n) → names D' n = names D n)
    (hup : Live (D n) → Live (D' (parent (D n))))
    (hnamed : Live (D n) → n ≠ ROOTINO → 0 < Links.named n (D' (parent (D n)))) : Node D' n := by
  refine ⟨?_, ?_, ?_, ?_, ?_, ?_, ?_, ?_⟩ <;> rw [hn]
  · exact h.range
  · intro hf
    rw [hlinks (h.range hf).1]
    exact h.count hf
  · intro h0 hf
    rw [hlinks h0]
    exact h.unnamed h0 hf
  · exact h.dir
  · exact h.empty
  · intro hl hr
    rw [hnames hl]
    exact h.once hl hr
  · exact hup
  · exact hnamed

lemma named_of_live (h : Live d) : named m d = naming d m := if_pos h

/-- The tree with two inodes replaced. -/
abbrev replace (D : ℕ → Dinode) (i : ℕ) (a : Dinode) (p : ℕ) (b : Dinode) : ℕ → Dinode :=
  update (update D i a) p b

section Change

variable {a b : Dinode}

lemma replace_of_ne (hni : n ≠ i) (hnp : n ≠ p) : replace D i a p b n = D n := by
  rw [replace, update_of_ne hnp, update_of_ne hni]

lemma replace_left (hpi : p ≠ i) : replace D i a p b i = a := by
  rw [replace, update_of_ne hpi.symm, update_self]

lemma replace_right : replace D i a p b p = b := update_self ..

variable (h : Tree D) (hp : Live (D p)) (hpi : p ≠ i) (hi : i < NINODES)
include h hp hpi hi

lemma links_replace : links (replace D i a p b) m + gives m (D i) + gives m (D p) =
    links D m + gives m a + gives m b :=
  total_update₂ (Finset.mem_range.mpr hi) (h.mem hp.ne_free) hpi

lemma names_replace : names (replace D i a p b) m + named m (D i) + named m (D p) =
    names D m + named m a + named m b :=
  total_update₂ (Finset.mem_range.mpr hi) (h.mem hp.ne_free) hpi

lemma Tree.change (hbLive : Live b) (hb : Rewritten p (D p) b) (hroot : ROOTINO ≠ i)
    (hnaming : ∀ m ≠ 0, m ≠ i → naming b m = naming (D p) m)
    (hgives : ∀ m ≠ 0, m ≠ i → m ≠ p → gives m a = gives m (D i))
    (hnames : ∀ m ≠ 0, m ≠ i → named m a = named m (D i))
    (hlink : b.nlink + gives p (D i) = (D p).nlink + gives p a)
    (hbelow : ∀ n ≠ i, Live (D n) → parent (D n) ≠ i) (hnode : Node (replace D i a p b) i) :
    Tree (replace D i a p b) := by
  have hgives' : ∀ m ≠ 0, m ≠ i → gives m b = gives m (D p) := by
    intro m hm hmi
    rw [hb.dir.gives_of_live hbLive hm, (h.dir hp).gives_of_live hp hm, hb.parent, hnaming m hm hmi]
  have hlinks : ∀ m ≠ 0, m ≠ i → links (replace D i a p b) m + gives m (D i) = links D m + gives m a := by
    intro m hm hmi
    have hsum := links_replace h hp hpi hi (m := m) (a := a) (b := b)
    rw [hgives' m hm hmi] at hsum
    omega
  have hnames' : ∀ m ≠ 0, m ≠ i → names (replace D i a p b) m = names D m := by
    intro m hm hmi
    have hsum := names_replace h hp hpi hi (m := m) (a := a) (b := b)
    rw [hnames m hm hmi, named_of_live hp, named_of_live hbLive, hnaming m hm hmi] at hsum
    omega
  have hlive : ∀ n ≠ i, Live (D n) → Live (replace D i a p b n) := by
    intro n hni hn
    by_cases hnp : n = p
    · subst hnp
      rwa [replace_right]
    · rwa [replace_of_ne hni hnp]
  have hup : ∀ n ≠ i, Live (D n) → Live (replace D i a p b (parent (D n))) := fun n hni hn =>
    hlive _ (hbelow n hni hn) ((h.node n).up hn)
  have hnamed : ∀ n ≠ i, Live (D n) → n ≠ ROOTINO →
      0 < named n (replace D i a p b (parent (D n))) := by
    intro n hni hn hr
    have hpos := (h.node n).named hn hr
    have hq := hbelow n hni hn
    by_cases hqp : parent (D n) = p
    · rw [hqp, named_of_live hp] at hpos
      rw [hqp, replace_right, named_of_live hbLive, hnaming n (h.ne_zero hn.ne_free) hni]
      exact hpos
    · rwa [replace_of_ne hq hqp]
  refine ⟨fun n => ?_, hlive _ hroot h.root, ?_, ?_⟩
  · by_cases hni : n = i
    · subst hni
      exact hnode
    · by_cases hnp : n = p
      · subst hnp
        refine ⟨fun _ => (h.node n).range hp.ne_free, fun _ => ?_, ?_, ?_, ?_, ?_, ?_, ?_⟩ <;>
          rw [replace_right]
        · have hcount := (h.node n).count hp.ne_free
          have := hlinks n (h.ne_zero hp.ne_free) hni
          omega
        · exact fun _ hf => absurd hf hbLive.ne_free
        · exact fun _ => hb.dir
        · exact fun _ hz => absurd hz hbLive.2.ne'
        · intro _ hr
          rw [hnames' n (h.ne_zero hp.ne_free) hni]
          exact (h.node n).once hp hr
        · intro _
          rw [hb.parent]
          exact hup n hni hp
        · intro _ hr
          rw [hb.parent]
          exact hnamed n hni hp hr
      · refine (h.node n).other (replace_of_ne hni hnp) (fun h0 => ?_)
          (fun hl => hnames' n (h.ne_zero hl.ne_free) hni) (hup n hni) (hnamed n hni)
        have := hlinks n h0 hni
        rw [hgives n h0 hni hnp] at this
        omega
  · by_cases hrp : ROOTINO = p
    · rw [hrp, replace_right, hb.parent, ← hrp]
      exact h.rootParent
    · rw [replace_of_ne hroot hrp]
      exact h.rootParent
  · rw [hnames' ROOTINO (by decide) hroot]
    exact h.unnamed

omit hpi in
lemma Tree.changeFile (hi0 : i ≠ 0) (hfile : (D i).type ≠ .T_DIR)
    (ha : a.type ≠ .T_DIR) (halloc : a.type ≠ .free) (hb : Rewritten p (D p) b) (hbl : b.nlink = (D p).nlink)
    (hnaming : ∀ m ≠ 0, m ≠ i → naming b m = naming (D p) m)
    (hcount : a.nlink + naming (D p) i = links D i + naming b i) : Tree (replace D i a p b) := by
  have hpi : p ≠ i := by
    rintro rfl
    exact hfile hp.1
  have hbLive : Live b := ⟨hb.type.trans hp.1, by rw [hbl]; exact hp.2⟩
  have hnil : ¬ Live (D i) := fun hl => hfile hl.1
  have hnal : ¬ Live a := fun hl => ha hl.1
  have hgives : ∀ m, gives m a = gives m (D i) := fun m => by
    rw [gives_of_not_live hnal, gives_of_not_live hnil]
  refine h.change hp hpi hi hbLive hb ?_ hnaming (fun m _ _ _ => hgives m) (fun m _ _ => ?_) ?_ ?_
    (.of_not_live ?_ ?_ ?_ ?_ ?_)
  · rintro rfl
    exact hnil h.root
  · rw [named_of_not_live hnal, named_of_not_live hnil]
  · rw [hbl, hgives]
  · rintro n - hn rfl
    exact hnil ((h.node n).up hn)
  all_goals rw [replace_left hpi]
  · exact hnal
  · exact fun _ => ⟨hi0, hi⟩
  · intro _
    have hsum := links_replace h hp hpi hi (m := i) (a := a) (b := b)
    rw [hgives, (h.dir hp).gives_of_live hp hi0, hb.dir.gives_of_live hbLive hi0, hb.parent] at hsum
    omega
  · exact fun _ hf => absurd hf halloc
  · exact fun hd => absurd hd ha

omit hpi in
lemma Tree.addDir (hi0 : i ≠ 0) (hfree : (D i).type = .free)
    (ha : a.type = .T_DIR) (ha1 : a.nlink = 1) (hdir : Dir i a) (hap : parent a = p)
    (hempty : ∀ m ≠ 0, naming a m = 0) (hb : Rewritten p (D p) b)
    (hbl : b.nlink = (D p).nlink + 1)
    (hnaming : ∀ m ≠ 0, naming b m = naming (D p) m + if i = m then 1 else 0) :
    Tree (replace D i a p b) := by
  have hpi : p ≠ i := by
    rintro rfl
    exact hp.ne_free hfree
  have hpos := hp.2
  have hbLive : Live b := ⟨hb.type.trans hp.1, by omega⟩
  have haLive : Live a := ⟨ha, by omega⟩
  have hnil : ¬ Live (D i) := fun hl => hl.ne_free hfree
  have hgives : ∀ m ≠ 0, gives m a = if p = m then 1 else 0 := fun m hm => by
    rw [hdir.gives_of_live haLive hm, hap, hempty m hm, Nat.add_zero]
  have hother : ∀ m ≠ 0, m ≠ i → naming b m = naming (D p) m := fun m hm hmi => by
    rw [hnaming m hm, if_neg (Ne.symm hmi), Nat.add_zero]
  have hunlinked := (h.node i).unnamed hi0 hfree
  refine h.change hp hpi hi hbLive hb ?_ hother (fun m hm _ hmp => ?_) (fun m hm _ => ?_) ?_ ?_ ?_
  · rintro rfl
    exact hnil h.root
  · rw [hgives m hm, if_neg (Ne.symm hmp), gives_of_not_live hnil]
  · rw [named_of_live haLive, hempty m hm, named_of_not_live hnil]
  · rw [hbl, hgives p (h.ne_zero hp.ne_free), if_pos rfl, gives_of_not_live hnil]
    omega
  · rintro n - hn rfl
    exact hnil ((h.node n).up hn)
  · refine ⟨fun _ => ⟨hi0, hi⟩, fun _ => ?_, ?_, ?_, ?_, ?_, ?_, ?_⟩ <;> rw [replace_left hpi]
    · have hsum := links_replace h hp hpi hi (m := i) (a := a) (b := b)
      rw [gives_of_not_live hnil, hgives i hi0, if_neg hpi, (h.dir hp).gives_of_live hp hi0,
        hb.dir.gives_of_live hbLive hi0, hb.parent, hnaming i hi0, if_pos rfl] at hsum
      omega
    · exact fun _ hf => absurd hf haLive.ne_free
    · exact fun _ => hdir
    · exact fun _ hz => absurd hz haLive.2.ne'
    · intro _ _
      have hlinks := h.links_eq hi0
      have hsum := names_replace h hp hpi hi (m := i) (a := a) (b := b)
      rw [named_of_not_live hnil, named_of_live hp, named_of_live haLive, named_of_live hbLive,
        hempty i hi0, hnaming i hi0, if_pos rfl] at hsum
      omega
    · intro _
      rwa [hap, replace_right]
    · intro _ _
      rw [hap, replace_right, named_of_live hbLive, hnaming i hi0, if_pos rfl]
      omega

omit hpi hi in
lemma Tree.removeDir (hi : Live (D i)) (ha : a = { D i with nlink := (D i).nlink - 1 })
    (hempty : (D i).isdirempty = true)
    (hpos : 0 < naming (D p) i) (hb : Rewritten p (D p) b) (hbl : b.nlink = (D p).nlink - 1)
    (hnaming : ∀ m ≠ 0, naming b m + (if i = m then 1 else 0) = naming (D p) m) :
    Tree (replace D i a p b) ∧ 0 < b.nlink := by
  obtain ⟨hroot, hip, hone⟩ := h.above hi hp hpos
  have hi0 := h.ne_zero hi.ne_free
  have hlt := ((h.node i).range hi.ne_free).2
  have htwo := h.two_le_nlink hi hroot
  rw [hip] at htwo
  have hnone : ∀ m ≠ 0, naming (D i) m = 0 := fun m hm => naming_eq_zero hempty hm
  have hbelow : ∀ n ≠ i, Live (D n) → parent (D n) ≠ i := by
    intro n hni hn hpar
    by_cases hr : n = ROOTINO
    · subst hr
      exact hroot (hpar.symm.trans h.rootParent)
    · have := (h.node n).named hn hr
      rw [hpar, named_of_live hi, hnone n (h.ne_zero hn.ne_free)] at this
      exact absurd this (Nat.lt_irrefl 0)
  have hpi : p ≠ i := by
    rintro rfl
    rw [hnone p hi0] at hpos
    exact absurd hpos (Nat.lt_irrefl 0)
  have hbLive : Live b := ⟨hb.type.trans hp.1, by omega⟩
  have hlink1 : links D i = 1 := by
    have h1 := h.links_eq hi0
    have h2 := (h.node i).once hi hroot
    have h3 : total (Finset.range NINODES) (below i) D = 0 := by
      refine Finset.sum_eq_zero fun n _ => ?_
      rw [below, if_neg]
      rintro ⟨hn, hpar⟩
      by_cases hni : n = i
      · subst hni
        exact hpi (hip.symm.trans hpar)
      · exact hbelow n hni hn hpar
    omega
  have hcount := (h.node i).count hi.ne_free
  subst ha
  have hdead : ¬ Live { D i with nlink := (D i).nlink - 1 } := fun hl => by
    have := hl.2
    simp only at this
    omega
  have hgives : ∀ m ≠ 0, gives m (D i) = if p = m then 1 else 0 := fun m hm => by
    rw [(h.dir hi).gives_of_live hi hm, hip, hnone m hm, Nat.add_zero]
  have hother : ∀ m ≠ 0, m ≠ i → naming b m = naming (D p) m := fun m hm hmi => by
    rw [← hnaming m hm, if_neg (Ne.symm hmi), Nat.add_zero]
  refine ⟨h.change hp hpi hlt hbLive hb hroot.symm hother (fun m hm _ hmp => ?_) (fun m hm _ => ?_) ?_
    hbelow (.of_not_live ?_ ?_ ?_ ?_ ?_), hbLive.2⟩
  · rw [hgives m hm, if_neg (Ne.symm hmp), gives_of_not_live hdead]
  · rw [named_of_live hi, hnone m hm, named_of_not_live hdead]
  · rw [hbl, hgives p (h.ne_zero hp.ne_free), if_pos rfl, gives_of_not_live hdead]
    omega
  all_goals rw [replace_left hpi]
  · exact hdead
  · exact fun _ => ⟨hi0, hlt⟩
  · intro _
    have hsum := links_replace h hp hpi hlt (m := i) (a := { D i with nlink := (D i).nlink - 1 }) (b := b)
    have hless := hnaming i hi0
    rw [gives_of_not_live hdead, hgives i hi0, if_neg hpi, (h.dir hp).gives_of_live hp hi0,
      hb.dir.gives_of_live hbLive hi0, hb.parent] at hsum
    rw [if_pos rfl] at hless
    change (D i).nlink - 1 = _
    omega
  · exact fun _ hf => absurd hf hi.ne_free
  · exact fun _ => ⟨⟨(h.dir hi).entries, (h.dir hi).proper⟩, hempty⟩

end Change

lemma Tree.free (h : Tree D) (hi : (D i).type ≠ .free) (hlink : (D i).nlink = 0) :
    Tree (update D i ⟨.free, 0, []⟩) := by
  have hnil : ¬ Live (D i) := fun hl => hl.2.ne' hlink
  have hnew : ¬ Live ⟨.free, 0, []⟩ := fun hl => hl.ne_free rfl
  have hlinks : ∀ m, links (update D i ⟨.free, 0, []⟩) m = links D m := by
    intro m
    have hsum : links (update D i ⟨.free, 0, []⟩) m + gives m (D i) = links D m + gives m _ :=
      total_update (h.mem hi)
    rw [gives_of_not_live hnil, gives_of_not_live hnew] at hsum
    omega
  have hnames : ∀ m, names (update D i ⟨.free, 0, []⟩) m = names D m := by
    intro m
    have hsum : names (update D i ⟨.free, 0, []⟩) m + named m (D i) = names D m + named m _ :=
      total_update (h.mem hi)
    rw [named_of_not_live hnil, named_of_not_live hnew] at hsum
    omega
  have hlive : ∀ n, Live (D n) → n ≠ i := by
    rintro n hn rfl
    exact hnil hn
  have hroot := hlive _ h.root
  refine ⟨fun n => ?_, ?_, ?_, ?_⟩
  · by_cases hni : n = i
    · subst hni
      refine .of_not_live ?_ ?_ ?_ ?_ ?_ <;> rw [update_self]
      · exact hnew
      · exact fun hf => absurd rfl hf
      · exact fun hf => absurd rfl hf
      · intro _ _
        have := (h.node n).count hi
        rw [hlinks]
        omega
      · exact fun hd => by cases hd
    · refine (h.node n).other (update_of_ne hni ..) (fun _ => hlinks n) (fun _ => hnames n)
        (fun hl => ?_) fun hl hr => ?_
      · rw [update_of_ne (hlive _ ((h.node n).up hl))]
        exact (h.node n).up hl
      · rw [update_of_ne (hlive _ ((h.node n).up hl))]
        exact (h.node n).named hl hr
  · rw [update_of_ne hroot]
    exact h.root
  · rw [update_of_ne hroot]
    exact h.rootParent
  · rw [hnames]
    exact h.unnamed

end LearnXv6.Links
