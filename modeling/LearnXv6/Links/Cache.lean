import LearnXv6.Links.Tree
import LearnXv6.Icache.Counts

/-! The inode cache during a call: its entries agree with the disk, and each of them has as many
references as are held. -/
namespace LearnXv6.Links
open Function Store Icache

variable {τ : Type} {s s' : State τ} {h b : Index → ℕ} {i j : Index} {n : ℕ} {ip : Inode τ} {d : Dinode}

def inodes (s : State τ) (n : ℕ) : Dinode := s.disk (ROOTDEV, n)

/-- One reference to `i`. -/
abbrev one (i : Index) : Index → ℕ := Pi.single i 1

/-- The entries of which `h` references are held. -/
structure Cached (h : Index → ℕ) (s : State τ) : Prop where
  ref : ∀ i, (s.inode i).ref = h i
  dev : ∀ i, 0 < h i → (s.inode i).key.1 = ROOTDEV
  unique : ∀ i j, 0 < h i → 0 < h j → (s.inode i).key = (s.inode j).key → i = j
  valid : ∀ i, 0 < h i → (s.inode i).valid = true → (s.inode i).type = (s.dinode i).type ∧
    (s.inode i).nlink = (s.dinode i).nlink ∧ (s.dinode i).type ≠ .free

/-- The inodes without links are referred to. -/
def Kept (h : Index → ℕ) (s : State τ) : Prop :=
  ∀ n, (inodes s n).type ≠ .free → (inodes s n).nlink = 0 →
    ∃ i, 0 < h i ∧ (s.inode i).key = (ROOTDEV, n) ∧ (s.inode i).valid = true

/-- The entries that are referred to stay. -/
structure Frame (h : Index → ℕ) (s s' : State τ) : Prop where
  key : ∀ i, 0 < h i → (s'.inode i).key = (s.inode i).key
  valid : ∀ i, 0 < h i → (s.inode i).valid = true → (s'.inode i).valid = true

structure Moved (h : Index → ℕ) (s s' : State τ) : Prop extends Frame h s s' where
  disk : s'.disk = s.disk

lemma one_self : one i i = 1 := Pi.single_eq_same i 1

lemma one_of_ne (hij : j ≠ i) : one i j = 0 := Pi.single_eq_of_ne hij 1

lemma add_one_of_ne (hij : j ≠ i) : (h + one i) j = h j := by
  rw [Pi.add_apply, one_of_ne hij, Nat.add_zero]

lemma pos_add (hi : 0 < h i) : 0 < (h + one j) i := Nat.lt_of_lt_of_le hi (Nat.le_add_right _ _)

lemma pos_add_self : 0 < (h + one i) i := by
  rw [Pi.add_apply, one_self]
  exact Nat.succ_pos _

namespace Frame

lemma refl : Frame h s s := ⟨fun _ _ => rfl, fun _ _ hv => hv⟩

lemma trans {s1 s2 s3 : State τ} (h1 : Frame h s1 s2) (h2 : Frame h s2 s3) : Frame h s1 s3 :=
  ⟨fun i hi => (h2.key i hi).trans (h1.key i hi), fun i hi hv => h2.valid i hi (h1.valid i hi hv)⟩

lemma mono (hf : Frame h s s') (hb : ∀ i, 0 < b i → 0 < h i) : Frame b s s' :=
  ⟨fun i hi => hf.key i (hb i hi), fun i hi => hf.valid i (hb i hi)⟩

lemma of_add (hf : Frame (h + one j) s s') : Frame h s s' := hf.mono fun _ => pos_add

lemma set (hs' : s'.inode = update s.inode i ip) (hkey : 0 < h i → ip.key = (s.inode i).key)
    (hvalid : 0 < h i → (s.inode i).valid = true → ip.valid = true) : Frame h s s' := by
  constructor
  · rw [hs']
    exact (forall_update_iff s.inode fun j ip => 0 < h j → ip.key = (s.inode j).key).mpr
      ⟨hkey, fun _ _ _ => rfl⟩
  · rw [hs']
    exact (forall_update_iff s.inode fun j ip => 0 < h j → (s.inode j).valid = true →
      ip.valid = true).mpr ⟨hvalid, fun _ _ _ => id⟩

end Frame

namespace Moved

lemma refl : Moved h s s := ⟨Frame.refl, rfl⟩

lemma trans {s1 s2 s3 : State τ} (h1 : Moved h s1 s2) (h2 : Moved h s2 s3) : Moved h s1 s3 :=
  ⟨h1.toFrame.trans h2.toFrame, h2.disk.trans h1.disk⟩

lemma of_add (hm : Moved (h + one j) s s') : Moved h s s' := ⟨hm.toFrame.of_add, hm.disk⟩

lemma inodes (hm : Moved h s s') : inodes s' = inodes s := by
  funext n
  rw [Links.inodes, Links.inodes, hm.disk]

end Moved

section

variable (hk : Kept h s)
include hk

lemma Kept.mono (hb : ∀ i, 0 < h i → 0 < b i) : Kept b s := by
  intro n hn h0
  obtain ⟨i, hi, hrest⟩ := hk n hn h0
  exact ⟨i, hb i hi, hrest⟩

lemma Kept.add : Kept (h + one j) s := hk.mono fun _ => pos_add

lemma Kept.frame (hf : Frame h s s') (hd : ∀ n, (inodes s' n).type ≠ .free → (inodes s' n).nlink = 0 →
      (inodes s n).type ≠ .free ∧ (inodes s n).nlink = 0) : Kept h s' := by
  intro n hn h0
  obtain ⟨hn, h0⟩ := hd n hn h0
  obtain ⟨i, hi, hkey, hv⟩ := hk n hn h0
  exact ⟨i, hi, (hf.key i hi).trans hkey, hf.valid i hi hv⟩

lemma Kept.changed (hf : Frame h s s')
    (hd : ∀ n, inodes s' n ≠ inodes s n → 0 < (inodes s' n).nlink) : Kept h s' := by
  refine hk.frame hf fun n hn h0 => ?_
  by_cases hsame : inodes s' n = inodes s n
  · rw [← hsame]
    exact ⟨hn, h0⟩
  · exact absurd h0 (hd n hsame).ne'

lemma Kept.update (hf : Frame h s s')
    (hin : inodes s' = update (inodes s) n d) (hd : 0 < d.nlink) : Kept h s' := by
  refine hk.changed hf fun m hm => ?_
  rw [hin] at hm ⊢
  by_cases hmn : m = n
  · rwa [hmn, update_self]
  · exact absurd (update_of_ne hmn ..) hm

lemma Kept.moved (hm : Moved h s s') : Kept h s' :=
  hk.frame hm.toFrame fun n hn h0 => by
    rw [hm.inodes] at hn h0
    exact ⟨hn, h0⟩

end

lemma inodes_setDinode (hkey : (s.inode i).key = (ROOTDEV, n)) :
    inodes (s.setDinode i d) = update (inodes s) n d := by
  funext m
  simp only [inodes, State.setDinode, hkey]
  by_cases hm : m = n
  · subst hm
    rw [update_self, update_self]
  · rw [update_of_ne hm, update_of_ne]
    · rfl
    · simpa using hm

lemma Cached.alloc (hc : Cached h s) (hfree : (inodes s n).type = .free) :
    Cached h { s with disk := update s.disk (ROOTDEV, n) d } := by
  refine ⟨hc.ref, hc.dev, hc.unique, fun i hi hv => ?_⟩
  have hvalid := hc.valid i hi hv
  have hne : (s.inode i).key ≠ (ROOTDEV, n) := by
    intro hkey
    rw [State.dinode, hkey] at hvalid
    exact hvalid.2.2 hfree
  simp only [State.dinode]
  rw [update_of_ne hne]
  exact hvalid

lemma dinode_eq (hkey : (s.inode i).key = (ROOTDEV, n)) : s.dinode i = inodes s n := by
  rw [State.dinode, hkey, inodes]

namespace Cached

lemma key (hc : Cached h s) (hi : 0 < h i) : (s.inode i).key = (ROOTDEV, (s.inode i).key.2) := by
  rw [← hc.dev i hi]

lemma set {h' : Index → ℕ} (hc : Cached h s) (hs' : s'.inode = update s.inode i ip)
    (hh : ∀ j ≠ i, h' j = h j) (href : ip.ref = h' i) (hdev : 0 < h' i → ip.key.1 = ROOTDEV)
    (hunique : 0 < h' i → ∀ j ≠ i, 0 < h j → (s.inode j).key ≠ ip.key)
    (hdisk : ∀ j ≠ i, 0 < h j → s'.disk (s.inode j).key = s.disk (s.inode j).key)
    (hvalid : 0 < h' i → ip.valid = true → ip.type = (s'.disk ip.key).type ∧
      ip.nlink = (s'.disk ip.key).nlink ∧ (s'.disk ip.key).type ≠ .free) : Cached h' s' := by
  have hself : s'.inode i = ip := by rw [hs', update_self]
  have hother : ∀ j ≠ i, s'.inode j = s.inode j := fun j hj => by rw [hs', update_of_ne hj]
  refine ⟨fun j => ?_, fun j hj => ?_, fun j k hj hk hjk => ?_, fun j hj hv => ?_⟩
  · by_cases hji : j = i
    · rw [hji, hself, href]
    · rw [hother j hji, hh j hji]
      exact hc.ref j
  · by_cases hji : j = i
    · subst hji
      exact hself ▸ hdev hj
    · rw [hother j hji]
      exact hc.dev j (hh j hji ▸ hj)
  · by_cases hji : j = i
    · subst hji
      by_cases hki : k = j
      · exact hki.symm
      · rw [hself, hother k hki] at hjk
        exact absurd hjk.symm (hunique hj k hki (hh k hki ▸ hk))
    · by_cases hki : k = i
      · subst hki
        rw [hself, hother j hji] at hjk
        exact absurd hjk (hunique hk j hji (hh j hji ▸ hj))
      · rw [hother j hji, hother k hki] at hjk
        exact hc.unique j k (hh j hji ▸ hj) (hh k hki ▸ hk) hjk
  · unfold State.dinode
    by_cases hji : j = i
    · subst hji
      rw [hself] at hv ⊢
      exact hvalid hj hv
    · have hj' : 0 < h j := hh j hji ▸ hj
      rw [hother j hji] at hv ⊢
      rw [hdisk j hji hj']
      exact hc.valid j hj' hv

lemma key_ne (hc : Cached h s) (hi : 0 < h i) (hj : j ≠ i) (hpos : 0 < h j) :
    (s.inode j).key ≠ (s.inode i).key := fun hk => hj (hc.unique j i hpos hi hk)

lemma setDinode {h' : Index → ℕ} (hc : Cached h s) (hi : 0 < h i) (hkey : ip.key = (s.inode i).key)
    (hh : ∀ j ≠ i, h' j = h j) (href : ip.ref = h' i)
    (hvalid : 0 < h' i → ip.valid = true → ip.type = d.type ∧ ip.nlink = d.nlink ∧ d.type ≠ .free) :
    Cached h' ((s.set i ip).setDinode i d) := by
  have hset : ((s.set i ip).setDinode i d).disk = update s.disk ip.key d := by
    simp [State.setDinode]
  refine hc.set rfl hh href (fun _ => hkey ▸ hc.dev i hi) ?_ ?_ ?_
  · exact fun _ j hj hpos => hkey ▸ hc.key_ne hi hj hpos
  · intro j hj hpos
    rw [hset, update_of_ne (hkey ▸ hc.key_ne hi hj hpos)]
  · rw [hset, update_self]
    exact hvalid

end Cached

/-! The operations of the cache. -/

section Ops

variable {t : τ}

section

variable (hc : Cached h s)
include hc

lemma idup_spec (hi : 0 < h i) : Cached (h + one i) (idup i s) ∧ Moved h s (idup i s) := by
  refine ⟨hc.set rfl (fun _ => add_one_of_ne) ?_ (fun _ => hc.dev i hi) (fun _ _ => hc.key_ne hi)
    (fun _ _ _ => rfl) fun _ => hc.valid i hi, ⟨Frame.set rfl (fun _ => rfl) fun _ hv => hv, rfl⟩⟩
  rw [Pi.add_apply, one_self, hc.ref]
  rfl

lemma iget_spec : Ensures (iget (ROOTDEV, n) s) fun r =>
    Cached (h + one r.1) r.2 ∧ Moved h s r.2 ∧ (r.2.inode r.1).key = (ROOTDEV, n) := by
  unfold iget
  split
  · rename_i i hi
    obtain ⟨hpos, hkey⟩ := cached_eq_some hi
    have hhi : 0 < h i := by
      have := hc.ref i
      omega
    obtain ⟨hc', hm⟩ := idup_spec hc hhi
    exact Ensures.ok ⟨hc', hm, by rwa [State.set_inode_self]⟩
  · rename_i hnone
    split
    · rename_i i hi
      have h0 : h i = 0 := by
        have h1 := empty_eq_some hi
        have h2 := hc.ref i
        omega
      refine Ensures.ok ⟨hc.set rfl (fun _ => add_one_of_ne) ?_ (fun _ => rfl) ?_ (fun _ _ _ => rfl) ?_,
        ⟨Frame.set rfl ?_ ?_, rfl⟩, ?_⟩
      · rw [Pi.add_apply, one_self, h0]
        rfl
      · intro _ j _ hjpos
        refine cached_eq_none hnone ?_
        rw [hc.ref]
        exact Int.natCast_pos.mpr hjpos
      · exact fun _ hv => by cases hv
      · exact fun hpos => absurd h0 hpos.ne'
      · exact fun hpos => absurd h0 hpos.ne'
      · rw [State.set_inode_self]
    · exact Ensures.error

lemma lock_spec {l : Option τ} : Cached h (s.set i { s.inode i with lock := l }) ∧
      Moved h s (s.set i { s.inode i with lock := l }) := by
  exact ⟨hc.set rfl (fun _ _ => rfl) (hc.ref i) (hc.dev i) (fun hi _ => hc.key_ne hi) (fun _ _ _ => rfl)
    (hc.valid i), ⟨Frame.set rfl (fun _ => rfl) fun _ hv => hv, rfl⟩⟩

lemma ilock_spec : Ensures (ilock t i s) fun s' =>
    0 < h i ∧ Cached h s' ∧ Moved h s s' ∧ (s'.inode i).valid = true := by
  unfold ilock
  split
  · exact Ensures.error
  · rename_i href
    have hi : 0 < h i := by
      have := hc.ref i
      omega
    intro s' hs
    obtain ⟨u, hu, hs⟩ := bind_eq_ok.mp hs
    obtain ⟨-, rfl⟩ := acquiresleep_ok hu
    obtain ⟨hcu, hmu⟩ := lock_spec hc (i := i) (l := some t)
    generalize s.set i { s.inode i with lock := some t } = u at hcu hmu hs
    rcases load_ok hs with ⟨hv, rfl⟩ | ⟨-, hne, rfl⟩
    · exact ⟨hi, hcu, hmu, hv⟩
    · refine ⟨hi, hcu.set rfl (fun _ _ => rfl) (hcu.ref i) (hcu.dev i) (fun _ _ => hcu.key_ne hi)
        (fun _ _ _ => rfl) fun _ _ => ⟨rfl, rfl, hne⟩,
        hmu.trans ⟨Frame.set rfl (fun _ => rfl) fun _ _ => rfl, rfl⟩, ?_⟩
      rw [State.set_inode_self]

lemma iunlock_spec [DecidableEq τ] : Ensures (iunlock t i s) fun s' => Cached h s' ∧ Moved h s s' := by
  unfold iunlock
  split
  · exact Ensures.error
  · exact Ensures.ok (lock_spec hc)

end

lemma free_itrunc : free i (itrunc i s) =
    (s.set i { s.inode i with type := .free, valid := false }).setDinode i
      ⟨.free, (s.inode i).nlink, []⟩ := by
  simp [free, itrunc, iupdate, State.set, State.setDinode, State.dinode]

structure Freed (s s' : State τ) (i : Index) : Prop where
  type : (s.dinode i).type ≠ .free
  nlink : (s.dinode i).nlink = 0
  inodes : inodes s' = update (inodes s) (s.inode i).key.2 ⟨.free, 0, []⟩

lemma unref_spec (hc : Cached (h + one i) s) :
    Cached h (s.set i { s.inode i with lock := none, ref := (s.inode i).ref - 1 }) ∧
      Moved h s (s.set i { s.inode i with lock := none, ref := (s.inode i).ref - 1 }) := by
  have hpos : 0 < (h + one i) i := pos_add_self
  have href := hc.ref i
  rw [Pi.add_apply, one_self] at href
  exact ⟨hc.set rfl (fun _ hj => (add_one_of_ne hj).symm) (by simp only; omega) (fun _ => hc.dev i hpos)
    (fun _ _ => hc.key_ne hpos) (fun _ _ _ => rfl) fun _ => hc.valid i hpos,
    ⟨Frame.set rfl (fun _ => rfl) fun _ hv => hv, rfl⟩⟩

lemma iput_ok (hs : iput t i s = .ok s') :
    (¬ (s.inode i).unneeded ∧ s' = s.set i { s.inode i with lock := none, ref := (s.inode i).ref - 1 }) ∨
      (s.inode i).unneeded ∧ s' = (s.set i { s.inode i with
        lock := none, type := .free, valid := false, ref := 0 }).setDinode i ⟨.free, 0, []⟩ := by
  unfold iput at hs
  obtain ⟨u, hu, hs⟩ := bind_eq_ok.mp hs
  obtain ⟨-, rfl⟩ := acquiresleep_ok hu
  cases hs
  have hiff : ((s.set i { s.inode i with lock := some t }).inode i).unneeded ↔ (s.inode i).unneeded := by
    simp [Inode.unneeded]
  unfold reclaim
  by_cases hun : (s.inode i).unneeded
  · refine .inr ⟨hun, ?_⟩
    rw [if_pos (hiff.mpr hun), free_itrunc]
    obtain ⟨hv, h0, h1⟩ := hun
    simp [releasesleep, State.set, State.setDinode, h0, h1]
  · refine .inl ⟨hun, ?_⟩
    rw [if_neg (hun ∘ hiff.mp)]
    simp [releasesleep, State.set]

lemma iput_spec (hc : Cached (h + one i) s) : Ensures (iput t i s) fun s' =>
    Cached h s' ∧ Frame h s s' ∧ (¬ (s.inode i).unneeded ∧ s'.disk = s.disk ∨
      (s.inode i).unneeded ∧ h i = 0 ∧ Freed s s' i) := by
  intro s' hs
  have hpos : 0 < (h + one i) i := pos_add_self
  rcases iput_ok hs with ⟨hun, rfl⟩ | ⟨hun, rfl⟩
  · obtain ⟨h1, h2⟩ := unref_spec hc
    exact ⟨h1, h2.toFrame, .inl ⟨hun, rfl⟩⟩
  · have h0 : h i = 0 := by
      have href := hc.ref i
      rw [hun.2.2, Pi.add_apply, one_self] at href
      omega
    obtain ⟨-, hnlink, htype⟩ := hc.valid i hpos hun.1
    refine ⟨hc.setDinode hpos rfl (fun _ hj => (add_one_of_ne hj).symm) (by rw [h0]; rfl)
      fun hi => absurd h0 hi.ne', Frame.set rfl (fun _ => rfl) fun hi => absurd h0 hi.ne', .inr ⟨hun, h0, ?_⟩⟩
    refine ⟨htype, hnlink ▸ hun.2.1, ?_⟩
    rw [inodes_setDinode (n := (s.inode i).key.2)]
    · rfl
    · rw [State.set_inode_self]
      exact hc.key hpos

lemma iput_keep (hc : Cached (h + one i) s) (hk : Kept h s) : Ensures (iput t i s) fun s' =>
    Cached h s' ∧ Moved h s s' := by
  intro s' hs
  obtain ⟨hc', hf, hcase⟩ := iput_spec hc s' hs
  rcases hcase with ⟨-, hd⟩ | ⟨-, h0, hfree⟩
  · exact ⟨hc', hf, hd⟩
  · have hpos : 0 < (h + one i) i := pos_add_self
    have hkey := hc.key hpos
    obtain ⟨j, hj, hjk, -⟩ := hk (s.inode i).key.2 (by rw [← dinode_eq hkey]; exact hfree.type)
      (by rw [← dinode_eq hkey]; exact hfree.nlink)
    have hji : j = i := hc.unique j i (pos_add hj) hpos (hjk.trans hkey.symm)
    exact absurd h0 (hji ▸ hj.ne')

lemma short_update {D : ℕ → Dinode} (hD : ∀ n, (D n).nlink < 2 ^ 15) (hd : d.nlink < 2 ^ 15) :
    ∀ m, (update D n d m).nlink < 2 ^ 15 :=
  (forall_update_iff D fun _ d => d.nlink < 2 ^ 15).mpr ⟨hd, fun m _ => hD m⟩

/-- Between the calls: nothing is counted wrong. -/
structure Fine (h : Index → ℕ) (s : State τ) : Prop where
  cached : Cached h s
  kept : Kept h s
  tree : Tree (inodes s)
  short : ∀ n, (inodes s n).nlink < 2 ^ 15

lemma Fine.moved (hs : Fine h s) (hc : Cached b s') (hm : Moved h s s') (hb : ∀ i, 0 < h i → 0 < b i) :
    Fine b s' := by
  refine ⟨hc, (hs.kept.moved hm).mono hb, ?_, ?_⟩ <;> rw [hm.inodes]
  · exact hs.tree
  · exact hs.short

lemma iput_fine (hs : Fine (h + one i) s) : Ensures (iput t i s) (Fine h) := by
  intro s' hput
  obtain ⟨hc, hf, hcase⟩ := iput_spec hs.cached s' hput
  have hpos : 0 < (h + one i) i := pos_add_self
  have hkey := hs.cached.key hpos
  rcases hcase with ⟨hun, hd⟩ | ⟨-, h0, hfree⟩
  · have hin : inodes s' = inodes s := by
      funext n
      rw [inodes, inodes, hd]
    refine ⟨hc, ?_, by rw [hin]; exact hs.tree, by rw [hin]; exact hs.short⟩
    intro n hn hn0
    rw [hin] at hn hn0
    obtain ⟨j, hj, hjk, hv⟩ := hs.kept n hn hn0
    have hj' : 0 < h j := by
      by_contra hj0
      have hji : j = i := by
        by_contra hji
        rw [Pi.add_apply, one_of_ne hji] at hj
        omega
      subst hji
      refine hun ⟨hv, ?_, ?_⟩
      · rw [(hs.cached.valid j hj hv).2.1, dinode_eq hjk]
        exact hn0
      · rw [hs.cached.ref, Pi.add_apply, one_self]
        omega
    exact ⟨j, hj', (hf.key j hj').trans hjk, hf.valid j hj' hv⟩
  · refine ⟨hc, ?_, ?_, fun n => ?_⟩
    · intro n hn hn0
      rw [hfree.inodes] at hn hn0
      have hne : n ≠ (s.inode i).key.2 := by
        rintro rfl
        rw [update_self] at hn
        exact hn rfl
      rw [update_of_ne hne] at hn hn0
      obtain ⟨j, hj, hjk, hv⟩ := hs.kept n hn hn0
      have hji : j ≠ i := by
        rintro rfl
        rw [hjk] at hne
        exact hne rfl
      have hj' : 0 < h j := by
        rw [Pi.add_apply, one_of_ne hji] at hj
        omega
      exact ⟨j, hj', (hf.key j hj').trans hjk, hf.valid j hj' hv⟩
    · rw [hfree.inodes]
      exact hs.tree.free (by rw [← dinode_eq hkey]; exact hfree.type)
        (by rw [← dinode_eq hkey]; exact hfree.nlink)
    · rw [hfree.inodes]
      exact short_update hs.short (Int.pow_pos (by decide)) n

end Ops

end LearnXv6.Links
