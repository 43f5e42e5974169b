import LearnXv6.Icache.Counts

/-! An inode is freed only by the process that has its last reference. -/
namespace LearnXv6.Icache
open Function Store State Stage

variable {τ : Type} {s s' : State τ} {S : τ → Stage} {t u : τ} {g g₀ : Stage} {i j : Index} {k : Key}
  {op : Op}

/-- What the cache has of an inode is what the disk has. -/
def Agree (s : State τ) : Prop :=
  ∀ i, 0 < (s.inode i).ref → (s.inode i).valid = true →
    (s.dinode i).type = (s.inode i).type ∧ (s.dinode i).nlink = (s.inode i).nlink ∧
      (s.inode i).type ≠ .free

/-- `iget` is called for an inode that has links, that the caller has marked or that it has locked. -/
def Needed (S : τ → Stage) (s : State τ) (t : τ) (k : Key) : Prop :=
  S t = .marked k ∨ ((s.disk k).type ≠ .free ∧ 0 < (s.disk k).nlink) ∨
    ∃ i, (s.inode i).lock = some t ∧ (s.inode i).key = k

/-- What one entry is for stays, and only this entry and its inode change. -/
structure Touches (s s' : State τ) (i : Index) : Prop where
  other : ∀ j, j ≠ i → s'.inode j = s.inode j
  key : (s'.inode i).key = (s.inode i).key
  disk : ∀ k, k ≠ (s.inode i).key → s'.disk k = s.disk k

lemma Touches.rfl : Touches s s i := ⟨fun _ _ => Eq.refl _, Eq.refl _, fun _ _ => Eq.refl _⟩

lemma Touches.trans {u : State τ} (h : Touches s s' i) (h' : Touches s' u i) : Touches s u i where
  other j hj := (h'.other j hj).trans (h.other j hj)
  key := h'.key.trans h.key
  disk k hk := (h'.disk k (by rwa [h.key])).trans (h.disk k hk)

lemma Touches.keys (h : Touches s s' i) : (s'.inode j).key = (s.inode j).key := by
  by_cases hj : j = i
  · rw [hj]
    exact h.key
  · rw [h.other j hj]

lemma touches_set {ip : Inode τ} (hk : ip.key = (s.inode i).key) : Touches s (s.set i ip) i :=
  ⟨fun _ hj => set_inode_of_ne hj, by rw [set_inode_self, hk], fun _ _ => rfl⟩

lemma touches_setDinode {d : Dinode} : Touches s (s.setDinode i d) i :=
  ⟨fun _ _ => rfl, rfl, fun _ hk => update_of_ne hk _ _⟩

lemma touches_iupdate {ip : Inode τ} (hk : ip.key = (s.inode i).key) :
    Touches s (iupdate i (s.set i ip)) i :=
  (touches_set hk).trans touches_setDinode

lemma touches_free : Touches s (free i s) i := by
  refine Touches.trans ?_ (touches_set rfl)
  exact touches_iupdate rfl

lemma Agree.congr (h : Agree s) (hdisk : s'.disk = s.disk)
    (hinode : ∀ j, 0 < (s'.inode j).ref → 0 < (s.inode j).ref ∧ (s'.inode j).key = (s.inode j).key ∧
      (s'.inode j).valid = (s.inode j).valid ∧ (s'.inode j).type = (s.inode j).type ∧
      (s'.inode j).nlink = (s.inode j).nlink) : Agree s' := by
  intro j hj hv
  obtain ⟨href, hkey, hvalid, htype, hnlink⟩ := hinode j hj
  rw [hvalid] at hv
  rw [dinode, hdisk, hkey, htype, hnlink]
  exact h j href hv

lemma Agree.set (h : Agree s) {ip : Inode τ} (href : 0 < ip.ref → 0 < (s.inode i).ref)
    (hkey : ip.key = (s.inode i).key) (hvalid : ip.valid = (s.inode i).valid)
    (htype : ip.type = (s.inode i).type) (hnlink : ip.nlink = (s.inode i).nlink) : Agree (s.set i ip) := by
  refine h.congr rfl fun j hj => ?_
  by_cases hji : j = i
  · subst hji
    rw [set_inode_self] at hj ⊢
    exact ⟨href hj, hkey, hvalid, htype, hnlink⟩
  · rw [set_inode_of_ne hji] at hj ⊢
    exact ⟨hj, rfl, rfl, rfl, rfl⟩

lemma Agree.update (h : Agree s) {d : Dinode}
    (hk : ∀ j, 0 < (s.inode j).ref → (s.inode j).valid = true → (s.inode j).key ≠ k) :
    Agree { s with disk := update s.disk k d } := by
  intro j hj hv
  have hne := hk j hj hv
  simp only [dinode, update_of_ne hne]
  exact h j hj hv

lemma Agree.setEntries (h : Agree s) {l : List Dirent} :
    Agree (s.setDinode i { s.dinode i with entries := l }) := by
  intro j hj hv
  have hj' := h j hj hv
  by_cases hk : (s.inode j).key = (s.inode i).key
  · simp only [dinode, setDinode, hk, update_self]
    rw [← hk]
    exact hj'
  · simp only [dinode, setDinode, update_of_ne hk]
    exact hj'

variable [Fintype τ]

lemma Agree.iupdate (h : Agree s) (hc : Counts S s) {ip : Inode τ}
    (hi : 0 < (s.inode i).ref) (href : ip.ref = (s.inode i).ref) (hkey : ip.key = (s.inode i).key)
    (htype : ip.valid = true → ip.type ≠ .free) : Agree (iupdate i (s.set i ip)) := by
  intro j hj hv
  by_cases hji : j = i
  · subst hji
    simp only [Icache.iupdate, setDinode_inode, set_inode_self] at hv
    simp only [Icache.iupdate, dinode, setDinode, set_inode_self, update_self]
    exact ⟨trivial, trivial, htype hv⟩
  · simp only [Icache.iupdate, setDinode_inode, set_inode_of_ne hji] at hj hv
    have hne : (s.inode j).key ≠ ip.key := by
      rw [hkey]
      exact fun he => hji (hc.unique j i hj hi he)
    simp only [Icache.iupdate, dinode, setDinode, set_inode_self, set_disk,
      set_inode_of_ne hji, update_of_ne hne]
    exact h j hj hv

lemma Agree.does (h : Agree s) (hc : Counts S s) (hd : Does S s t op g s') : Agree s' := by
  cases hd with
  | look op hS => exact h
  | mark k type hS htype hfree =>
    refine h.update fun j hj hv hk => ?_
    obtain ⟨htype', -, hne⟩ := h j hj hv
    rw [dinode, hk, hfree] at htype'
    exact hne htype'.symm
  | hit k i hS hi => exact h.set (fun _ => (cached_eq_some hi).1) rfl rfl rfl rfl
  | miss k i hS hnone hi =>
    intro j hj hv
    by_cases hji : j = i
    · subst hji
      rw [set_inode_self] at hv
      cases hv
    · simp only [dinode, set_disk, set_inode_of_ne hji] at hj hv ⊢
      exact h j hj hv
  | idup i hS hi => exact h.set (fun _ => by omega) rfl rfl rfl rfl
  | ilock i hS hi hlock => exact h.set id rfl rfl rfl rfl
  | ready i hS hv => exact h
  | load i hS hv htype =>
    intro j hj hv'
    by_cases hji : j = i
    · subst hji
      simp only [dinode, set_disk, set_inode_self]
      exact ⟨trivial, trivial, htype⟩
    · simp only [dinode, set_disk, set_inode_of_ne hji] at hj hv' ⊢
      exact h j hj hv'
  | iunlock i hS hlock => exact h.set id rfl rfl rfl rfl
  | setNlink op i n hS hlock hv =>
    have hpos := hc.ref_pos hlock
    exact h.iupdate hc hpos rfl rfl fun _ => (h i hpos hv).2.2
  | write i off de hS hlock hv hoff => exact h.setEntries
  | iput i hS hi hlock => exact h.set id rfl rfl rfl rfl
  | sole i hS hi | shared i hS hi => exact h
  | itrunc i hS => exact h.setEntries
  | free i hS =>
    have hpos := hc.ref_pos (hc.lock t i (by rw [hS]; rfl))
    intro j hj hv
    by_cases hji : j = i
    · subst hji
      simp [Icache.free] at hv
    · have hup : Agree (Icache.iupdate i (s.set i { s.inode i with type := .free, valid := false })) :=
        h.iupdate hc hpos rfl rfl (by simp)
      have hother := hup j
      simp only [Icache.free, Icache.iupdate, dinode, setDinode, set_disk,
        set_inode_self, set_inode_of_ne hji] at hj hv hother ⊢
      exact hother hj hv
  | release i hS => exact h.set id rfl rfl rfl rfl
  | unref i hS => exact h.set (fun hpos => by dsimp only at hpos; omega) rfl rfl rfl rfl

/-- Who frees an inode has the only reference; those that are left of a free inode are about to be
dropped; and whoever has marked an inode is the first that uses it. -/
structure Sole (S : τ → Stage) (s : State τ) : Prop where
  agree : Agree s
  frees : ∀ t i, (S t).frees = some i →
    (s.inode i).ref = 1 ∧ (s.inode i).valid = true ∧ (s.inode i).nlink = 0
  freed : ∀ i, 0 < (s.inode i).ref → (s.dinode i).type = .free → (s.inode i).ref = late S i
  marked : ∀ t k, S t = .marked k → (s.disk k).type ≠ .free ∧ (s.disk k).nlink = 0 ∧
    ∀ i, 0 < (s.inode i).ref → (s.inode i).key = k → (s.inode i).ref = late S i
  once : ∀ t u k, S t = .marked k → S u = .marked k → t = u

namespace Sole

/-- An entry that is in use by more than those who drop it is not for an inode that is free or only
marked. -/
lemma not_marked (h : Sole S s) (hl : (late S i : ℤ) < (s.inode i).ref) (hu : S u = .marked k) :
    (s.inode i).key ≠ k := by
  intro hk
  have := (h.marked u k hu).2.2 i (by omega) hk
  omega

lemma frees_late_lt (hc : Counts S s) (ht : (S t).frees = some i) : (late S i : ℤ) < (s.inode i).ref :=
  hc.late_lt (hc.lock t i (locks_of_frees ht)) (late_of_frees ht)

lemma not_frees (hc : Counts S s) (hl : (s.inode i).lock = some t ∨ (s.inode i).lock = none)
    (hu : u ≠ t) : (S u).frees ≠ some i := by
  intro hf
  have := hc.lock u i (locks_of_frees hf)
  rcases hl with hl | hl
  · rw [hl] at this
    cases this
    exact hu rfl
  · rw [hl] at this
    cases this

section Iget

variable (h : Sole S s) (hc : Counts S s) (hS : S t = .idle ∨ S t = .marked k) (hn : Needed S s t k)

include hS in
omit [Fintype τ] in
lemma late_eq_none : (S t).late = none := by
  rcases hS with hS | hS
  · rw [hS]
    rfl
  · rw [hS]
    rfl

include hS in
lemma locked_late_lt (hc : Counts S s) (hl : (s.inode i).lock = some t) :
    (Icache.late S i : ℤ) < (s.inode i).ref := by
  refine hc.late_lt hl ?_
  rw [late_eq_none hS]
  rintro ⟨⟩

include h hc hn

lemma needed_not_frees (hi : 0 < (s.inode i).ref) (hk : (s.inode i).key = k) (hu : u ≠ t) :
    (S u).frees ≠ some i := by
  intro hf
  obtain ⟨-, hv, hnlink⟩ := h.frees u i hf
  rcases hn with hm | ⟨-, hpos⟩ | ⟨j, hl, hkj⟩
  · exact h.not_marked (frees_late_lt hc hf) hm hk
  · have := (h.agree i hi hv).2.1
    rw [dinode, hk] at this
    omega
  · obtain rfl := hc.unique j i (hc.ref_pos hl) hi (hkj.trans hk.symm)
    exact not_frees hc (.inl hl) hu hf

include hS

lemma needed_type : (s.disk k).type ≠ .free := by
  rcases hn with hm | ⟨htype, -⟩ | ⟨i, hl, rfl⟩
  · exact (h.marked t k hm).1
  · exact htype
  · intro hfree
    have hlt := locked_late_lt hS hc hl
    have := h.freed i (by omega) hfree
    omega

lemma needed_alone (hu : S u = .marked k) : u = t := by
  rcases hn with hm | ⟨-, hnlink⟩ | ⟨i, hl, rfl⟩
  · exact h.once u t k hu hm
  · rw [(h.marked u k hu).2.1] at hnlink
    exact absurd hnlink (lt_irrefl 0)
  · exact absurd rfl (h.not_marked (locked_late_lt hS hc hl) hu)

end Iget

variable [DecidableEq τ]

omit [Fintype τ] in
lemma marked_update (hmark : ∀ k, g ≠ .marked k) (h : update S t g u = .marked k) :
    u ≠ t ∧ S u = .marked k := by
  by_cases hut : u = t
  · subst hut
    rw [update_self] at h
    exact absurd h (hmark k)
  · exact ⟨hut, by rwa [update_of_ne hut] at h⟩

omit [Fintype τ] in
lemma frees_update (hg : g.frees = none) (h : (update S t g u).frees = some j) : (S u).frees = some j := by
  by_cases hut : u = t
  · subst hut
    rw [update_self, hg] at h
    cases h
  · rwa [update_of_ne hut] at h

lemma stay (h : Sole S s) (hS : S t = g₀) (hlate : g.late = g₀.late) (hmark : ∀ k, g ≠ .marked k)
    (hfrees : g.frees = none) : Sole (update S t g) s := by
  have hl : ∀ j, Icache.late (update S t g) j = Icache.late S j :=
    fun j => tally_update_eq (by rw [hS, hlate])
  refine ⟨h.agree, fun u j hu => h.frees u j (frees_update hfrees hu), ?_, ?_, fun u v k hu hv => ?_⟩
  · intro j hj hfree
    rw [hl]
    exact h.freed j hj hfree
  · intro u k hu
    obtain ⟨h1, h2, h3⟩ := h.marked u k (marked_update hmark hu).2
    exact ⟨h1, h2, fun j hj hk => by rw [hl]; exact h3 j hj hk⟩
  · exact h.once u v k (marked_update hmark hu).2 (marked_update hmark hv).2

lemma late_update (hlate : g.late = (S t).late ∨ g.late = some i ∧ (S t).late = none ∨
    g.late = none ∧ (S t).late = some i) (hj : j ≠ i) : Icache.late (update S t g) j = Icache.late S j := by
  have hu := tally_update (f := Stage.late) (p := S) (t := t) (g := g) (i := j)
  have hne : some i ≠ some j := fun he => hj (Option.some.inj he).symm
  rcases hlate with hl | ⟨hl, hl'⟩ | ⟨hl, hl'⟩
  · exact tally_update_eq hl
  · rw [hl, hl', if_neg hne, if_neg nofun] at hu
    exact hu
  · rw [hl, hl', if_neg hne, if_neg nofun] at hu
    exact hu

section Touches

variable (h : Sole S s) (hc : Counts S s) (hagree : Agree s') (hS : S t = g₀) (ht : Touches s s' i)
  (hg : g.late = g₀.late ∨ g.late = some i ∧ g₀.late = none ∨ g.late = none ∧ g₀.late = some i)
  (hmark : ∀ k, g ≠ .marked k)
  (hgfrees : ∀ j, g.frees = some j → (s'.inode j).ref = 1 ∧ (s'.inode j).valid = true ∧
    (s'.inode j).nlink = 0)

include h hc hagree hS ht hg hmark hgfrees

lemma at_entry (hpos : 0 < (s.inode i).ref) (hfrees : ∀ u, u ≠ t → (S u).frees ≠ some i)
    (hfreed : 0 < (s'.inode i).ref → (s'.dinode i).type = .free →
      (s'.inode i).ref = Icache.late (update S t g) i) (hmarked : ∀ u, u ≠ t → S u = .marked (s.inode i).key →
      s'.disk (s.inode i).key = s.disk (s.inode i).key ∧
        (0 < (s'.inode i).ref → (s'.inode i).ref = Icache.late (update S t g) i)) :
    Sole (update S t g) s' := by
  obtain ⟨hother, hkey, hdisk⟩ := ht
  have hlate : ∀ j, j ≠ i → Icache.late (update S t g) j = Icache.late S j :=
    fun j hj => late_update (by rwa [hS]) hj
  refine ⟨hagree, ?_, ?_, ?_, fun u v k hu hv => ?_⟩
  · intro u j hu
    by_cases hut : u = t
    · subst hut
      rw [update_self] at hu
      exact hgfrees j hu
    · rw [update_of_ne hut] at hu
      rw [hother j fun he => hfrees u hut (he ▸ hu)]
      exact h.frees u j hu
  · intro j hj hfree
    by_cases hji : j = i
    · subst hji
      exact hfreed hj hfree
    · rw [hother j hji] at hj ⊢
      have hk : (s.inode j).key ≠ (s.inode i).key := fun he => hji (hc.unique j i hj hpos he)
      rw [dinode, hother j hji, hdisk _ hk] at hfree
      rw [hlate j hji]
      exact h.freed j hj hfree
  · intro u k hu
    obtain ⟨hut, hu⟩ := marked_update hmark hu
    obtain ⟨h1, h2, h3⟩ := h.marked u k hu
    have hk : s'.disk k = s.disk k := by
      by_cases hki : k = (s.inode i).key
      · rw [hki] at hu ⊢
        exact (hmarked u hut hu).1
      · exact hdisk k hki
    rw [hk]
    refine ⟨h1, h2, fun j hj hkj => ?_⟩
    by_cases hji : j = i
    · subst hji
      rw [hkey] at hkj
      exact (hmarked u hut (by rw [hkj]; exact hu)).2 hj
    · rw [hother j hji] at hj hkj ⊢
      rw [hlate j hji]
      exact h3 j hj hkj
  · exact h.once u v k (marked_update hmark hu).2 (marked_update hmark hv).2

lemma used (hlt : (Icache.late S i : ℤ) < (s.inode i).ref)
    (htype : (s'.disk (s.inode i).key).type = (s.disk (s.inode i).key).type)
    (hfrees : ∀ u, u ≠ t → (S u).frees ≠ some i) : Sole (update S t g) s' := by
  refine h.at_entry hc hagree hS ht hg hmark hgfrees (by omega) hfrees ?_ ?_
  · intro _ hfree
    rw [dinode, ht.key, htype] at hfree
    have := h.freed i (by omega) hfree
    omega
  · intro u _ hu
    exact absurd rfl (h.not_marked hlt hu)

lemma locked (hl : (s.inode i).lock = some t) (hne : g₀.late ≠ some i)
    (htype : (s'.disk (s.inode i).key).type = (s.disk (s.inode i).key).type) : Sole (update S t g) s' :=
  h.used hc hagree hS ht hg hmark hgfrees (hc.late_lt hl (by rwa [hS])) htype
    fun _ hu => not_frees hc (.inl hl) hu

end Touches

/-- A marked inode was free, so that what is left of its references is about to be dropped. -/
lemma mark (h : Sole S s) {type : Kind} (hS : S t = .idle) (htype : type ≠ .free)
    (hfree : (s.disk k).type = .free) (hagree : Agree { s with
      disk := update s.disk k ⟨type, 0, []⟩ }) :
    Sole (update S t (.marked k)) { s with
      disk := update s.disk k ⟨type, 0, []⟩ } := by
  have hl : ∀ j, Icache.late (update S t (.marked k)) j = Icache.late S j :=
    fun j => tally_update_eq (by rw [hS]; rfl)
  have hne : ∀ u, S u ≠ .marked k := fun u hu => (h.marked u k hu).1 hfree
  refine ⟨hagree, fun u j hu => h.frees u j (frees_update rfl hu), ?_, ?_, ?_⟩
  · intro j hj hf
    rw [hl]
    by_cases hk : (s.inode j).key = k
    · simp only [dinode, hk, update_self] at hf
      exact absurd hf htype
    · simp only [dinode, update_of_ne hk] at hf
      exact h.freed j hj hf
  · intro u k' hu
    by_cases hut : u = t
    · subst hut
      rw [update_self] at hu
      cases hu
      simp only [update_self]
      refine ⟨htype, trivial, fun j hj hk => ?_⟩
      rw [hl]
      refine h.freed j hj ?_
      rw [dinode, hk, hfree]
    · rw [update_of_ne hut] at hu
      have hk : k' ≠ k := fun he => hne u (he ▸ hu)
      simp only [update_of_ne hk]
      obtain ⟨h1, h2, h3⟩ := h.marked u k' hu
      exact ⟨h1, h2, fun j hj hkj => by rw [hl]; exact h3 j hj hkj⟩
  · intro u v k' hu hv
    by_cases hut : u = t
    · by_cases hvt : v = t
      · rw [hut, hvt]
      · rw [update_of_ne hvt] at hv
        rw [hut, update_self] at hu
        cases hu
        exact absurd hv (hne v)
    · rw [update_of_ne hut] at hu
      by_cases hvt : v = t
      · rw [hvt, update_self] at hv
        cases hv
        exact absurd hu (hne u)
      · rw [update_of_ne hvt] at hv
        exact h.once u v k' hu hv

lemma miss (h : Sole S s) (hc : Counts S s) (hS : S t = .idle ∨ S t = .marked k)
    (hn : Needed S s t k) (hi : (s.inode i).ref = 0)
    (hagree : Agree (s.set i { s.inode i with key := k, ref := 1, valid := false })) :
    Sole (update S t .idle) (s.set i { s.inode i with key := k, ref := 1, valid := false }) := by
  have hl : ∀ j, Icache.late (update S t .idle) j = Icache.late S j :=
    fun j => tally_update_eq (late_eq_none hS).symm
  refine ⟨hagree, ?_, ?_, ?_, fun u v k' hu hv => ?_⟩
  · intro u j hu
    have hj := h.frees u j (frees_update rfl hu)
    have hji : j ≠ i := by
      rintro rfl
      omega
    rw [set_inode_of_ne hji]
    exact hj
  · intro j hj hf
    rw [hl]
    by_cases hji : j = i
    · subst hji
      simp only [dinode, set_inode_self, set_disk] at hf
      exact absurd hf (h.needed_type hc hS hn)
    · simp only [dinode, set_inode_of_ne hji, set_disk] at hj hf ⊢
      exact h.freed j hj hf
  · intro u k' hu
    obtain ⟨hut, hu⟩ := marked_update (by rintro k ⟨⟩) hu
    obtain ⟨h1, h2, h3⟩ := h.marked u k' hu
    refine ⟨h1, h2, fun j hj hkj => ?_⟩
    rw [hl]
    by_cases hji : j = i
    · subst hji
      rw [set_inode_self] at hkj
      cases hkj
      exact absurd (h.needed_alone hc hS hn hu) hut
    · rw [set_inode_of_ne hji] at hj hkj ⊢
      exact h3 j hj hkj
  · exact h.once u v k' (marked_update (by rintro k ⟨⟩) hu).2 (marked_update (by rintro k ⟨⟩) hv).2

lemma does (h : Sole S s) (hc : Counts S s) (hn : ∀ k, op = .iget k → Needed S s t k)
    (hd : Does S s t op g s') : Sole (update S t g) s' := by
  have hagree := h.agree.does hc hd
  have hlate : ∀ {i}, (Icache.puts S i : ℤ) < (s.inode i).ref → (Icache.late S i : ℤ) < (s.inode i).ref := by
    intro i hi
    have hle : Icache.late S i ≤ Icache.puts S i := tally_le fun _ hg => puts_of_late hg
    omega
  cases hd with
  | look op hS => exact h.stay hS rfl (by simp) rfl
  | mark k type hS htype hfree => exact h.mark hS htype hfree hagree
  | hit k i hS hi =>
    obtain ⟨hpos, rfl⟩ := cached_eq_some hi
    have hneeded := hn _ rfl
    refine h.at_entry hc hagree rfl (touches_set rfl) (.inl (late_eq_none hS).symm) (by simp) (by rintro _ ⟨⟩) hpos
      (fun u hu => h.needed_not_frees hc hneeded hpos rfl hu) ?_ ?_
    · intro _ hfree
      rw [dinode, set_inode_self] at hfree
      exact absurd hfree (h.needed_type hc hS hneeded)
    · intro u hu hm
      exact absurd (h.needed_alone hc hS hneeded hm) hu
  | miss k i hS hnone hi => exact h.miss hc hS (hn k rfl) (empty_eq_some hi) hagree
  | idup i hS hi =>
    refine h.used hc hagree hS (touches_set rfl) (.inl rfl) (by simp) (by rintro _ ⟨⟩) (hlate hi) rfl fun u _ hf => ?_
    have hone := (h.frees u i hf).1
    have hpos : 0 < Icache.puts S i := tally_pos (puts_of_holds (holds_of_frees hf))
    omega
  | ilock i hS hi hlock =>
    exact h.used hc hagree hS (touches_set rfl) (.inl rfl) (by simp) (by rintro _ ⟨⟩) (hlate hi) rfl
      fun u hu => not_frees hc (.inr hlock) hu
  | ready i hS hv => exact h.stay hS rfl (by simp) rfl
  | load i hS hv htype =>
    exact h.locked hc hagree hS (touches_set rfl) (.inl rfl) (by simp) (by rintro _ ⟨⟩) (hc.lock t i (by rw [hS]; rfl))
      (by rintro ⟨⟩) rfl
  | iunlock i hS hl =>
    exact h.locked hc hagree hS (touches_set rfl) (.inl rfl) (by simp) (by rintro _ ⟨⟩) hl (by rintro ⟨⟩) rfl
  | setNlink op i n hS hl hv =>
    have htype := (h.agree i (hc.ref_pos hl) hv).1
    refine h.locked hc hagree hS (touches_iupdate rfl) (.inl rfl) (by simp) (by rintro _ ⟨⟩) hl (by rintro ⟨⟩) ?_
    simpa [setNlink, iupdate, setDinode, dinode] using htype.symm
  | write i off de hS hl hv hoff =>
    refine h.locked hc hagree hS touches_setDinode (.inl rfl) (by simp) (by rintro _ ⟨⟩) hl (by rintro ⟨⟩) ?_
    simp [setDinode, dinode, Dinode.write]
  | iput i hS hi hlock =>
    exact h.used hc hagree hS (touches_set rfl) (.inl rfl) (by simp) (by rintro _ ⟨⟩) (hlate hi) rfl
      fun u hu => not_frees hc (.inr hlock) hu
  | sole i hS hi =>
    refine h.locked hc hagree hS .rfl (.inl rfl) (by simp) ?_ (hc.lock t i (by rw [hS]; rfl)) (by rintro ⟨⟩) rfl
    rintro j ⟨⟩
    exact ⟨hi.2.2, hi.1, hi.2.1⟩
  | shared i hS hi =>
    exact h.locked hc hagree hS .rfl (.inr (.inl ⟨rfl, rfl⟩)) (by simp) (by rintro _ ⟨⟩)
      (hc.lock t i (by rw [hS]; rfl)) (by rintro ⟨⟩) rfl
  | itrunc i hS =>
    refine h.locked hc hagree hS touches_setDinode (.inl rfl) (by simp) ?_
      (hc.lock t i (by rw [hS]; rfl)) (by rintro ⟨⟩) ?_
    · rintro j ⟨⟩
      exact h.frees t i (by rw [hS]; rfl)
    · simp [Icache.itrunc, setDinode, dinode]
  | free i hS =>
    have hl := hc.lock t i (by rw [hS]; rfl)
    have hlt := hc.late_lt hl (by rw [hS]; rintro ⟨⟩)
    have hone := (h.frees t i (by rw [hS]; rfl)).1
    refine h.at_entry hc hagree hS touches_free (.inr (.inl ⟨rfl, rfl⟩)) (by simp) (by rintro _ ⟨⟩) (by omega)
      (fun u hu => not_frees hc (.inl hl) hu) ?_ ?_
    · intro _ _
      have hu := tally_update (f := Stage.late) (p := S) (t := t) (g := .release i) (i := i)
      rw [hS, if_neg (by rintro ⟨⟩), if_pos (by rfl)] at hu
      have href : ((Icache.free i s).inode i).ref = (s.inode i).ref := by simp [Icache.free, iupdate]
      have hlt' : (tally Stage.late S i : ℤ) < (s.inode i).ref := hlt
      rw [href]
      change _ = ((tally _ _ _ : ℕ) : ℤ)
      omega
    · intro u _ hm
      exact absurd rfl (h.not_marked hlt hm)
  | release i hS =>
    have hl := hc.lock t i (by rw [hS]; rfl)
    have hsame : Icache.late (update S t (.unref i)) i = Icache.late S i :=
      tally_update_eq (by rw [hS]; rfl)
    refine h.at_entry hc hagree hS (touches_set rfl) (.inl rfl) (by simp) (by rintro _ ⟨⟩) (hc.ref_pos hl)
      (fun u hu => not_frees hc (.inl hl) hu) ?_ ?_
    · intro hpos hfree
      rw [hsame]
      simp only [dinode, set_inode_self, set_disk] at hpos hfree ⊢
      exact h.freed i hpos hfree
    · intro u _ hm
      refine ⟨rfl, fun hpos => ?_⟩
      rw [hsame]
      simp only [set_inode_self] at hpos ⊢
      exact (h.marked u _ hm).2.2 i hpos rfl
  | unref i hS =>
    have hcount : (Icache.late (update S t .idle) i : ℤ) = Icache.late S i - 1 := by
      have hu := tally_update (f := Stage.late) (p := S) (t := t) (g := .idle) (i := i)
      rw [hS, if_pos (by rfl), if_neg (by rintro ⟨⟩)] at hu
      change ((tally _ _ _ : ℕ) : ℤ) = ((tally _ _ _ : ℕ) : ℤ) - 1
      omega
    have hpos : 0 < Icache.late S i := tally_pos (by rw [hS]; rfl)
    have hle := hc.late_le i
    refine h.at_entry hc hagree hS (touches_set rfl) (.inr (.inr ⟨rfl, rfl⟩)) (by simp) (by rintro _ ⟨⟩) (by omega)
      (fun u hu hf => ?_) ?_ ?_
    · have hone := (h.frees u i hf).1
      have := frees_late_lt hc hf
      omega
    · intro _ hfree
      rw [hcount]
      simp only [dinode, set_inode_self, set_disk] at hfree ⊢
      rw [h.freed i (by omega) hfree]
    · intro u _ hm
      refine ⟨rfl, fun _ => ?_⟩
      rw [hcount]
      simp only [set_inode_self]
      rw [(h.marked u _ hm).2.2 i (by omega) rfl]

end Sole

end LearnXv6.Icache
