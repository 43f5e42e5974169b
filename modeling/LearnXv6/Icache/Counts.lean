import LearnXv6.Icache.Stages

/-! The references to the entries of the inode cache, and who holds their locks. -/
namespace LearnXv6.Icache
open Function Store State Stage

variable {τ : Type} {s s' : State τ} {S : τ → Stage} {t : τ} {g : Stage} {i j : Index} {k : Key}
  {ip : Inode τ}

@[simp] lemma State.set_inode_self : (s.set i ip).inode i = ip := by simp [set]

lemma State.set_inode_of_ne (h : j ≠ i) : (s.set i ip).inode j = s.inode j := by
  simp [set, update_of_ne h]

@[simp] lemma State.set_disk : (s.set i ip).disk = s.disk := rfl

@[simp] lemma State.setDinode_inode {d : Dinode} : (s.setDinode i d).inode = s.inode := rfl

lemma cached_eq_some (h : s.cached k = some i) : 0 < (s.inode i).ref ∧ (s.inode i).key = k := by
  simpa using List.find?_some h

lemma cached_eq_none (h : s.cached k = none) (hi : 0 < (s.inode i).ref) : (s.inode i).key ≠ k := by
  have := List.find?_eq_none.mp h i (List.mem_finRange i)
  simp only [decide_eq_true_eq, not_and] at this
  exact this hi

lemma empty_eq_some (h : s.empty = some i) : (s.inode i).ref = 0 := by
  simpa using List.find?_some h

/-- The entry, without what its lock protects. -/
structure Inode.Same (ip ip' : Inode τ) : Prop where
  key : ip'.key = ip.key
  ref : ip'.ref = ip.ref
  lock : ip'.lock = ip.lock

lemma Inode.Same.rfl : ip.Same ip := ⟨Eq.refl _, Eq.refl _, Eq.refl _⟩

lemma same_set (h : (s.inode i).Same ip) (j : Index) : (s.inode j).Same ((s.set i ip).inode j) := by
  by_cases hj : j = i
  · subst hj
    rw [set_inode_self]
    exact h
  · rw [set_inode_of_ne hj]
    exact .rfl

variable [Fintype τ]

/-- The entries that are in use are for different inodes. The references that are being put are some of
those that are counted; whoever has locked an entry has another. -/
structure Counts (S : τ → Stage) (s : State τ) : Prop where
  unique : ∀ i j, 0 < (s.inode i).ref → 0 < (s.inode j).ref → (s.inode i).key = (s.inode j).key → i = j
  puts : ∀ i, (puts S i : ℤ) ≤ (s.inode i).ref
  lock : ∀ t i, (S t).locks = some i → (s.inode i).lock = some t
  locked : ∀ t i, (s.inode i).lock = some t → (S t).holds ≠ some i →
    (Icache.puts S i : ℤ) < (s.inode i).ref

namespace Counts

lemma late_le (h : Counts S s) (i : Index) : (late S i : ℤ) ≤ (s.inode i).ref := by
  have hle : late S i ≤ Icache.puts S i := tally_le fun _ hg => puts_of_late hg
  have := h.puts i
  omega

lemma late_lt (h : Counts S s) (ht : (s.inode i).lock = some t) (hS : (S t).late ≠ some i) :
    (late S i : ℤ) < (s.inode i).ref := by
  by_cases hholds : (S t).holds = some i
  · have hlt : late S i < Icache.puts S i :=
      tally_lt (fun _ hg => puts_of_late hg) hS (puts_of_holds hholds)
    have := h.puts i
    omega
  · have hle : late S i ≤ Icache.puts S i := tally_le fun _ hg => puts_of_late hg
    have := h.locked t i ht hholds
    omega

lemma ref_pos (h : Counts S s) (ht : (s.inode i).lock = some t) : 0 < (s.inode i).ref := by
  by_cases hholds : (S t).holds = some i
  · have hpos : 0 < Icache.puts S i := tally_pos (puts_of_holds hholds)
    have := h.puts i
    omega
  · have := h.locked t i ht hholds
    omega

variable [DecidableEq τ]

variable (h : Counts S s)
include h

lemma stay {g0 : Stage} (hS : S t = g0)
    (hs : ∀ j, (s.inode j).Same (s'.inode j)) (hputs : g.puts = g0.puts) (hholds : g.holds = g0.holds)
    (hlocks : ∀ j, g.locks = some j → g0.locks = some j) : Counts (update S t g) s' := by
  subst hS
  have hp : ∀ j, Icache.puts (update S t g) j = Icache.puts S j := fun j => tally_update_eq hputs
  have hsame : ∀ u, (update S t g u).holds = (S u).holds := by
    intro u
    by_cases hu : u = t
    · subst hu
      rw [update_self, hholds]
    · rw [update_of_ne hu]
  refine ⟨?_, ?_, ?_, ?_⟩
  · intro i j hi hj hk
    rw [(hs i).ref] at hi
    rw [(hs j).ref] at hj
    rw [(hs i).key, (hs j).key] at hk
    exact h.unique i j hi hj hk
  · intro j
    rw [hp, (hs j).ref]
    exact h.puts j
  · intro u j hj
    rw [(hs j).lock]
    by_cases hu : u = t
    · subst hu
      rw [update_self] at hj
      exact h.lock u j (hlocks j hj)
    · rw [update_of_ne hu] at hj
      exact h.lock u j hj
  · intro u j hl hne
    rw [(hs j).lock] at hl
    rw [hsame] at hne
    rw [hp, (hs j).ref]
    exact h.locked u j hl hne

lemma set (hrest : ∀ j, j ≠ i → (g.puts = some j ↔ (S t).puts = some j) ∧
      (g.locks = some j → (S t).locks = some j) ∧ ((S t).holds = some j → g.holds = some j))
    (hkey : 0 < ip.ref → ∀ j, j ≠ i → 0 < (s.inode j).ref → (s.inode j).key ≠ ip.key)
    (hputs : (Icache.puts (update S t g) i : ℤ) ≤ ip.ref)
    (hlock : ∀ u, (update S t g u).locks = some i → ip.lock = some u)
    (hlocked : ∀ u, ip.lock = some u → (update S t g u).holds ≠ some i →
      (Icache.puts (update S t g) i : ℤ) < ip.ref) : Counts (update S t g) (s.set i ip) := by
  have hp : ∀ j, j ≠ i → Icache.puts (update S t g) j = Icache.puts S j := by
    intro j hj
    have hu := tally_update (f := Stage.puts) (p := S) (t := t) (g := g) (i := j)
    simp only [(hrest j hj).1] at hu
    exact Nat.add_right_cancel hu
  refine ⟨?_, ?_, ?_, ?_⟩
  · intro x y hx hy hk
    by_cases hxi : x = i
    · by_cases hyi : y = i
      · rw [hxi, hyi]
      · subst hxi
        rw [set_inode_of_ne hyi] at hk hy
        rw [set_inode_self] at hk hx
        exact absurd hk.symm (hkey hx y hyi hy)
    · rw [set_inode_of_ne hxi] at hk hx
      by_cases hyi : y = i
      · subst hyi
        rw [set_inode_self] at hk hy
        exact absurd hk (hkey hy x hxi hx)
      · rw [set_inode_of_ne hyi] at hk hy
        exact h.unique x y hx hy hk
  · intro j
    by_cases hj : j = i
    · subst hj
      rw [set_inode_self]
      exact hputs
    · rw [set_inode_of_ne hj, hp j hj]
      exact h.puts j
  · intro u j hl
    by_cases hj : j = i
    · subst hj
      rw [set_inode_self]
      exact hlock u hl
    · rw [set_inode_of_ne hj]
      refine h.lock u j ?_
      by_cases hu : u = t
      · subst hu
        rw [update_self] at hl
        exact (hrest j hj).2.1 hl
      · rwa [update_of_ne hu] at hl
  · intro u j hl hne
    by_cases hj : j = i
    · subst hj
      rw [set_inode_self] at hl ⊢
      exact hlocked u hl hne
    · rw [set_inode_of_ne hj] at hl ⊢
      rw [hp j hj]
      refine h.locked u j hl ?_
      by_cases hu : u = t
      · subst hu
        rw [update_self] at hne
        exact fun he => hne ((hrest j hj).2.2 he)
      · rwa [update_of_ne hu] at hne

omit [DecidableEq τ] in
lemma key_ne (hi : 0 < (s.inode i).ref) (j : Index) (hj : j ≠ i)
    (hpos : 0 < (s.inode j).ref) : (s.inode j).key ≠ (s.inode i).key :=
  fun hk => hj (h.unique j i hpos hi hk)

lemma more (hS : (S t).puts = none ∧ (S t).holds = none) (hi : 0 < (s.inode i).ref) :
    Counts (update S t .idle) (s.set i { s.inode i with ref := (s.inode i).ref + 1 }) := by
  have hstay : Counts (update S t .idle) s := h.stay rfl (fun _ => .rfl) hS.1.symm hS.2.symm nofun
  refine h.set (fun j _ => by rw [hS.1, hS.2]; exact ⟨.rfl, nofun, nofun⟩) (fun _ => h.key_ne hi) ?_ ?_ ?_
  · exact (hstay.puts i).trans (le_add_of_nonneg_right Int.one_nonneg)
  · exact fun u => hstay.lock u i
  · exact fun u hl hne => (hstay.locked u i hl hne).trans (lt_add_one _)

lemma fresh (hS : (S t).puts = none ∧ (S t).holds = none)
    (hnone : s.cached k = none) (hi : (s.inode i).ref = 0) :
    Counts (update S t .idle) (s.set i { s.inode i with key := k, ref := 1, valid := false }) := by
  have hstay : Counts (update S t .idle) s := h.stay rfl (fun _ => .rfl) hS.1.symm hS.2.symm nofun
  have hfree : ∀ u, (s.inode i).lock ≠ some u := by
    intro u hu
    have := h.ref_pos hu
    omega
  refine h.set (fun j _ => by rw [hS.1, hS.2]; exact ⟨.rfl, nofun, nofun⟩)
    (fun _ j _ hj => cached_eq_none hnone hj) ?_ ?_ ?_
  · have := hstay.puts i
    dsimp only
    omega
  · exact fun u hu => hstay.lock u i hu
  · exact fun u hl => absurd hl (hfree u)

lemma acquire (hS : S t = .idle) (hi : (Icache.puts S i : ℤ) < (s.inode i).ref)
    (hlock : (s.inode i).lock = none) (hg : g = .ilock i ∨ g = .iput i) :
    Counts (update S t g) (s.set i { s.inode i with lock := some t }) := by
  have hown : (Icache.puts (update S t g) i : ℤ) ≤ (s.inode i).ref ∧
      (g.holds ≠ some i → (Icache.puts (update S t g) i : ℤ) < (s.inode i).ref) := by
    have hu := tally_update (f := Stage.puts) (p := S) (t := t) (g := g) (i := i)
    rw [hS, if_neg nofun] at hu
    change (tally Stage.puts _ i : ℤ) ≤ _ ∧ (_ → (tally Stage.puts _ i : ℤ) < _)
    have hi' : (tally Stage.puts S i : ℤ) < (s.inode i).ref := hi
    rcases hg with rfl | rfl
    · rw [if_neg nofun] at hu
      exact ⟨by omega, fun _ => by omega⟩
    · rw [if_pos (by rfl)] at hu
      exact ⟨by omega, fun hne => absurd rfl hne⟩
  refine h.set (fun j hj => ?_) (fun _ => h.key_ne (by omega)) hown.1 ?_ ?_
  · rcases hg with rfl | rfl
    · simp [hS, Stage.puts, Stage.locks, Stage.holds, hj.symm]
    · simp [hS, Stage.puts, Stage.locks, Stage.holds, hj.symm]
  · intro u hu
    by_cases hut : u = t
    · rw [hut]
    · rw [update_of_ne hut] at hu
      have hl := h.lock u i hu
      rw [hlock] at hl
      cases hl
  · rintro u ⟨⟩ hne
    rw [update_self] at hne
    exact hown.2 hne

lemma unlock (hlock : (s.inode i).lock = some t) (hputs : g.puts = (S t).puts)
    (hlocks : g.locks = none) (hS : ∀ j, (S t).holds = some j → j = i) :
    Counts (update S t g) (s.set i { s.inode i with lock := none }) := by
  have hp : Icache.puts (update S t g) i = Icache.puts S i := tally_update_eq hputs
  refine h.set (fun j hj => ?_) (fun _ => h.key_ne (h.ref_pos hlock)) ?_ ?_ nofun
  · rw [hputs, hlocks]
    exact ⟨.rfl, nofun, fun he => absurd (hS j he) hj⟩
  · rw [hp]
    exact h.puts i
  · intro u hu
    have hut : u ≠ t := by
      rintro rfl
      rw [update_self, hlocks] at hu
      cases hu
    rw [update_of_ne hut] at hu
    have hl := h.lock u i hu
    rw [hlock] at hl
    cases hl
    exact absurd rfl hut

lemma unref (hS : S t = .unref i) :
    Counts (update S t .idle) (s.set i { s.inode i with ref := (s.inode i).ref - 1 }) := by
  have hcount : Icache.puts (update S t .idle) i + 1 = Icache.puts S i := by
    have hu := tally_update (f := Stage.puts) (p := S) (t := t) (g := .idle) (i := i)
    rwa [hS, if_pos (by rfl), if_neg nofun] at hu
  have hle := h.puts i
  refine h.set (fun j hj => ?_) (fun hpos => h.key_ne ?_) ?_ ?_ ?_
  · simp [hS, Stage.puts, Stage.locks, Stage.holds, hj.symm]
  · omega
  · dsimp only
    omega
  · intro u hu
    refine h.lock u i ?_
    by_cases hut : u = t
    · rw [hut, update_self] at hu
      cases hu
    · rwa [update_of_ne hut] at hu
  · intro u hl hne
    have hlt : (Icache.puts S i : ℤ) < (s.inode i).ref := by
      refine h.locked u i hl ?_
      by_cases hut : u = t
      · rw [hut, hS]
        rintro ⟨⟩
      · rwa [update_of_ne hut] at hne
    dsimp only
    omega

lemma does {op : Op} (hd : Does S s t op g s') : Counts (update S t g) s' := by
  have hidle : ∀ {k}, S t = .idle ∨ S t = .marked k → (S t).puts = none ∧ (S t).holds = none := by
    rintro k (hS | hS)
    · rw [hS]
      exact ⟨rfl, rfl⟩
    · rw [hS]
      exact ⟨rfl, rfl⟩
  cases hd with
  | look op hS | mark k type hS htype hfree => exact h.stay hS (fun _ => .rfl) rfl rfl nofun
  | hit k i hS hi => exact h.more (hidle hS) (cached_eq_some hi).1
  | miss k i hS hnone hi => exact h.fresh (hidle hS) hnone (empty_eq_some hi)
  | idup i hS hi =>
    refine h.more (by rw [hS]; exact ⟨rfl, rfl⟩) ?_
    omega
  | ilock i hS hi hlock => exact h.acquire hS hi hlock (.inl rfl)
  | ready i hS hv => exact h.stay hS (fun _ => .rfl) rfl rfl nofun
  | load i hS hv htype => exact h.stay hS (same_set ⟨rfl, rfl, rfl⟩) rfl rfl nofun
  | iunlock i hS hlock =>
    exact h.unlock hlock (by rw [hS]) rfl fun j hj => by rw [hS] at hj; cases hj
  | setNlink op i n hS hlock hv => exact h.stay hS (same_set ⟨rfl, rfl, rfl⟩) rfl rfl nofun
  | write i off de hS hlock hv hoff => exact h.stay hS (fun _ => .rfl) rfl rfl nofun
  | iput i hS hi hlock => exact h.acquire hS hi hlock (.inr rfl)
  | sole i hS hi | shared i hS hi | itrunc i hS => exact h.stay hS (fun _ => .rfl) rfl rfl fun _ => id
  | free i hS =>
    refine h.stay hS (fun j => ?_) rfl rfl fun _ => id
    by_cases hj : j = i
    · subst hj
      exact ⟨by simp [Icache.free, iupdate], by simp [Icache.free, iupdate],
        by simp [Icache.free, iupdate]⟩
    · simp only [Icache.free, iupdate, setDinode_inode, set_inode_of_ne hj]
      exact ⟨rfl, rfl, rfl⟩
  | release i hS =>
    refine h.unlock (h.lock t i (by rw [hS]; rfl)) (by rw [hS]; rfl) rfl fun j hj => ?_
    rw [hS] at hj
    cases hj
    rfl
  | unref i hS => exact h.unref hS

end Counts

end LearnXv6.Icache
