import LearnXv6.Paging.Steps
import LearnXv6.Store.Pool

/-! Who uses the buffers, who holds their locks and which blocks they have, under the default policy. -/
namespace LearnXv6.Paging
open Function Store List Set

variable {τ δ : Type} {s s' : State τ δ} {a : Action τ δ} {t u : τ} {i j : Index} {k : Key}
  {p q : Phase} {es : List (Event δ)} {A : Set Index}

/-- The buffer that is counted in `refcnt`. -/
def Phase.index : Phase → Option Index
  | .out => none
  | .waiting i _ | .locked i _ | .reading i _ | .holding i _ | .writing i | .releasing i => some i

/-- The buffer whose lock is held. -/
def Phase.holder : Phase → Option Index
  | .out | .waiting _ _ | .releasing _ => none
  | .locked i _ | .reading i _ | .holding i _ | .writing i => some i

/-- The block that `bread` was called for. -/
def Phase.asked : Phase → Option (Index × Key)
  | .waiting i k | .locked i k | .reading i k => some (i, k)
  | .out | .holding _ _ | .writing _ | .releasing _ => none

lemma Phase.index_of_holder (h : p.holder = some i) : p.index = some i := by
  cases p with
  | out | waiting i k | releasing i => cases h
  | locked i k | reading i k | holding i stored | writing i => exact h

/-- What `bget` has given out. -/
def got (es : List (Event δ)) : Set Index := {i | ∃ k, .got i k ∈ es}

@[simp] lemma got_nil : got ([] : List (Event δ)) = ∅ := by simp [got]

@[simp] lemma got_got : got (.got i k :: es) = insert i (got es) := by
  ext j
  simp only [got, mem_cons, Event.got.injEq, mem_ofPred_eq, mem_insert_iff]
  constructor
  · rintro ⟨k', ⟨rfl, -⟩ | h⟩
    · exact .inl rfl
    · exact .inr ⟨k', h⟩
  · rintro (rfl | ⟨k', h⟩)
    · exact ⟨k, .inl ⟨rfl, rfl⟩⟩
    · exact ⟨k', .inr h⟩

@[simp] lemma got_recycled {r : ℕ} {d : Bool} : got (.recycled i r d :: es) = got es := by
  simp [got]

@[simp] lemma got_access {x : Access Key δ} : got (.access x :: es) = got es := by
  simp [got]

lemma got_append {es' : List (Event δ)} : got (es ++ es') = got es ∪ got es' := by
  ext j
  simp only [got, mem_append, mem_ofPred_eq, mem_union]
  constructor
  · rintro ⟨k, h | h⟩
    · exact .inl ⟨k, h⟩
    · exact .inr ⟨k, h⟩
  · rintro (⟨k, h⟩ | ⟨k, h⟩)
    · exact ⟨k, .inl h⟩
    · exact ⟨k, .inr h⟩

section Count

variable [Fintype τ]

def users (s : State τ δ) (i : Index) : ℕ := ∑ t, if (s.phase t).index = some i then 1 else 0

def holders (s : State τ δ) (i : Index) : ℕ := ∑ t, if (s.phase t).holder = some i then 1 else 0

/-- `refcnt` counts the users, and a buffer that is locked has one holder. -/
structure Users (s : State τ δ) : Prop where
  refcnt : ∀ i, (s.buf i).refcnt = users s i
  lock : ∀ i, holders s i = if (s.buf i).locked then 1 else 0

lemma users_pos (h : (s.phase t).index = some i) : 0 < users s i := tally_pos h

lemma Users.unique [DecidableEq τ] (h : Users s) (ht : (s.phase t).holder = some i)
    (hu : (s.phase u).holder = some i) : t = u := by
  by_contra hne
  have hle : holders s i ≤ 1 := by
    rw [h.lock i]
    split <;> omega
  have hsub : ∑ v ∈ {t, u}, (if (s.phase v).holder = some i then 1 else 0) ≤ holders s i :=
    Finset.sum_le_sum_of_subset (Finset.subset_univ _)
  rw [Finset.sum_pair hne, if_pos ht, if_pos hu] at hsub
  omega

lemma Users.not_used (h : Users s) (hi : (s.buf i).refcnt = 0) (t : τ) : (s.phase t).index ≠ some i := by
  intro ht
  have := users_pos ht
  rw [← h.refcnt i] at this
  omega

variable [DecidableEq τ]

lemma users_goto : users (s.goto t p) i + (if (s.phase t).index = some i then 1 else 0) =
    users s i + (if p.index = some i then 1 else 0) := tally_update

lemma holders_goto : holders (s.goto t p) i + (if (s.phase t).holder = some i then 1 else 0) =
    holders s i + (if p.holder = some i then 1 else 0) := tally_update

namespace Users

lemma goto (h : Users s) (hphase : s'.phase = update s.phase t p)
    (href : ∀ j, (s'.buf j).refcnt + (if (s.phase t).index = some j then 1 else 0) =
      (s.buf j).refcnt + (if p.index = some j then 1 else 0))
    (hlock : ∀ j, (if (s'.buf j).locked then 1 else 0) +
        (if (s.phase t).holder = some j then 1 else 0) =
      (if (s.buf j).locked then 1 else 0) + (if p.holder = some j then 1 else 0)) : Users s' := by
  have hu : ∀ j, users s' j = users (s.goto t p) j := by
    intro j
    rw [users, hphase]
    rfl
  have hh : ∀ j, holders s' j = holders (s.goto t p) j := by
    intro j
    rw [holders, hphase]
    rfl
  refine ⟨fun j => ?_, fun j => ?_⟩
  · have h1 := users_goto (s := s) (t := t) (p := p) (i := j)
    have h2 := h.refcnt j
    have h3 := href j
    rw [hu]
    omega
  · have h1 := holders_goto (s := s) (t := t) (p := p) (i := j)
    have h2 := h.lock j
    have h3 := hlock j
    rw [hh]
    omega

lemma at_index {b : Buf δ} (h : Users s) (ht : s.phase t = q)
    (hphase : s'.phase = update s.phase t p) (hbuf : s'.buf = update s.buf i b)
    (hold : ∀ j, q.index = some j → j = i) (hnew : ∀ j, p.index = some j → j = i)
    (href : b.refcnt + (if q.index = some i then 1 else 0) =
      (s.buf i).refcnt + (if p.index = some i then 1 else 0))
    (hlock : (if b.locked then 1 else 0) + (if q.holder = some i then 1 else 0) =
      (if (s.buf i).locked then 1 else 0) + (if p.holder = some i then 1 else 0)) : Users s' := by
  subst ht
  refine h.goto hphase (fun j => ?_) fun j => ?_
  · by_cases hj : j = i
    · subst hj
      rw [hbuf, update_self, href]
    · rw [hbuf, update_of_ne hj, if_neg fun he => hj (hold j he), if_neg fun he => hj (hnew j he)]
  · by_cases hj : j = i
    · subst hj
      rw [hbuf, update_self, hlock]
    · rw [hbuf, update_of_ne hj, if_neg fun he => hj (hold j (Phase.index_of_holder he)),
        if_neg fun he => hj (hnew j (Phase.index_of_holder he))]

lemma stay (h : Users s) (ht : s.phase t = q) (hphase : s'.phase = update s.phase t p)
    (hindex : p.index = q.index) (hholder : p.holder = q.holder)
    (hbuf : ∀ j, (s'.buf j).refcnt = (s.buf j).refcnt ∧ (s'.buf j).locked = (s.buf j).locked) : Users s' := by
  refine h.goto hphase (fun j => ?_) fun j => ?_
  · rw [hindex, ht, (hbuf j).1]
  · rw [hholder, ht, (hbuf j).2]

omit [Fintype τ] [DecidableEq τ] in
lemma same_set {b : Buf δ} (hr : b.refcnt = (s.buf i).refcnt) (hl : b.locked = (s.buf i).locked)
    (j : Index) : ((s.set i b).buf j).refcnt = (s.buf j).refcnt ∧
      ((s.set i b).buf j).locked = (s.buf j).locked := by
  by_cases hj : j = i
  · subst hj
    simp [State.set, hr, hl]
  · simp [State.set, update_of_ne hj]

lemma unref (h : Users s) (ht : s.phase t = .releasing i) : Users (unref t i s) := by
  have hpos : 0 < (s.buf i).refcnt := by
    rw [h.refcnt i]
    exact users_pos (by rw [ht]; rfl)
  have hset : Users ((s.set i (s.buf i).unref).goto t .out) := by
    refine h.at_index ht rfl rfl (by rintro j ⟨⟩; rfl) nofun ?_
      (by simp [Phase.holder, Buf.unref])
    simp only [Phase.index, Buf.unref]
    rw [if_neg (by omega)]
    simp
    omega
  unfold Paging.unref
  dsimp only
  split
  · exact ⟨hset.refcnt, hset.lock⟩
  · exact hset

lemma does (h : Users s) (hd : Does .DEFAULT s a s' es) : Users s' := by
  cases hd with
  | hit t k i ht hi =>
    exact h.at_index ht rfl rfl nofun (by rintro j ⟨⟩; rfl) (by simp [Phase.index])
      (by simp [Phase.holder])
  | miss t k i u ht hnone hv =>
    obtain ⟨hunused, rfl⟩ := victim_default hv
    exact h.at_index ht rfl rfl nofun (by rintro j ⟨⟩; rfl)
      (by simp [Phase.index, hunused.1]) (by simp [Phase.holder])
  | acquire t i k ht hfree =>
    exact h.at_index ht rfl rfl (by rintro j ⟨⟩; rfl) (by rintro j ⟨⟩; rfl) (by simp [Phase.index])
      (by simp [Phase.holder, hfree])
  | ready t i k ht hvalid | submit t i k ht hvalid | read t i k ht hf | wrote t i ht hf =>
    exact h.stay ht rfl rfl rfl fun _ => ⟨rfl, rfl⟩
  | modify t i stored v ht =>
    exact h.stay ht rfl rfl rfl (same_set rfl rfl)
  | write t i stored ht | logged t i stored ht =>
    exact h.stay ht rfl rfl rfl (same_set rfl rfl)
  | release t i stored ht =>
    have hlocked : (s.buf i).locked = true := by
      have hpos : 0 < holders s i := tally_pos (by rw [ht]; rfl)
      by_contra hnot
      rw [h.lock i, if_neg hnot] at hpos
      exact absurd hpos (by decide)
    exact h.at_index ht rfl rfl (by rintro j ⟨⟩; rfl) (by rintro j ⟨⟩; rfl) (by simp [Phase.index])
      (by simp [Phase.holder, hlocked])
  | unref t i ht => exact h.unref ht
  | spurious hq => exact h
  | served i rest hq =>
    have hsame := same_set (b := Paging.served s i) rfl rfl
    refine ⟨fun j => ?_, fun j => ?_⟩
    · exact (hsame j).1.trans (h.refcnt j)
    · exact (h.lock j).trans (by rw [← (hsame j).2])

end Users

end Count

/-! Which block a buffer has. Those that `bget` has never given out are all of block 0 on device 0, and
come last in the list. -/

structure Table (A : Set Index) (s : State τ δ) : Prop where
  nodup : s.order.Nodup
  all : ∀ i, i ∈ s.order
  used : ∀ t i, (s.phase t).index = some i → i ∈ A
  asked : ∀ t i k, (s.phase t).asked = some (i, k) → (s.buf i).block = k
  fresh : ∀ i, i ∉ A → (s.buf i).block = (0, 0)
  first : s.order.Pairwise fun i j => i ∉ A → j ∈ A → (s.buf j).block ≠ (0, 0)
  unique : ∀ i ∈ A, ∀ j ∈ A, (s.buf i).block = (s.buf j).block → i = j
  dev : ∀ i, (s.buf i).block.1 < 2

lemma Phase.index_of_asked (h : p.asked = some (i, k)) : p.index = some i := by
  cases p with
  | out | holding i stored | writing i | releasing i => cases h
  | waiting i k | locked i k | reading i k =>
    cases h
    rfl

lemma cached_eq_some (h : s.cached k = some i) : (s.buf i).block = k ∧
    ∃ l1 l2, s.order = l1 ++ i :: l2 ∧ ∀ j ∈ l1, (s.buf j).block ≠ k := by
  obtain ⟨hk, l1, l2, horder, hl⟩ := find?_eq_some_iff_append.mp h
  exact ⟨by simpa using hk, l1, l2, horder, by simpa using hl⟩

/-- Blocks are asked for on the two disks that the driver knows. -/
def OnDisk (a : Action τ δ) : Prop := ∀ t k, a = .bget t k → k.1 < 2

namespace Table

lemma cached_eq_none (h : Table A s) (hn : s.cached k = none) (i : Index) : (s.buf i).block ≠ k := by
  have := find?_eq_none.mp hn i (h.all i)
  simpa using this

lemma hit_absent (h : Table A s) (hi : s.cached k = some i) (hA : i ∉ A) (j : Index) (hj : j ∈ A) :
    (s.buf j).block ≠ k := by
  obtain ⟨hk, l1, l2, horder, hl⟩ := cached_eq_some hi
  have hzero : k = (0, 0) := by rw [← hk, h.fresh i hA]
  have hmem := h.all j
  have hfirst := h.first
  rw [horder] at hmem hfirst
  rcases mem_append.mp hmem with hmem | hmem
  · exact hl j hmem
  · rcases mem_cons.mp hmem with rfl | hmem
    · exact absurd hj hA
    · rw [hzero]
      exact rel_of_pairwise_cons (pairwise_append.mp hfirst).2.1 hmem hA hj

lemma congr (h : Table A s) (horder : s'.order = s.order) (hphase : s'.phase = s.phase)
    (hblock : ∀ j, (s'.buf j).block = (s.buf j).block) : Table A s' := by
  refine ⟨horder ▸ h.nodup, horder ▸ h.all, hphase ▸ h.used, ?_, ?_, ?_, ?_, ?_⟩
  · intro u i k hu
    rw [hphase] at hu
    rw [hblock]
    exact h.asked u i k hu
  · intro i hi
    rw [hblock, h.fresh i hi]
  · rw [horder]
    refine h.first.imp fun hij hi hj => ?_
    rw [hblock]
    exact hij hi hj
  · intro i hi j hj hij
    rw [hblock, hblock] at hij
    exact h.unique i hi j hj hij
  · intro i
    rw [hblock]
    exact h.dev i

variable [DecidableEq τ]

variable (h : Table A s)
include h

lemma goto (ht : s.phase t = q) (hindex : ∀ j, p.index = some j → q.index = some j)
    (hasked : ∀ x, p.asked = some x → q.asked = some x) : Table A (s.goto t p) := by
  subst ht
  refine ⟨h.nodup, h.all, ?_, ?_, h.fresh, h.first, h.unique, h.dev⟩
  · exact (forall_update_iff s.phase fun _ p => ∀ i, p.index = some i → i ∈ A).mpr
      ⟨fun i hi => h.used t i (hindex i hi), fun u _ => h.used u⟩
  · exact (forall_update_iff s.phase fun _ p =>
      ∀ i k, p.asked = some (i, k) → (s.buf i).block = k).mpr
      ⟨fun i k hi => h.asked t i k (hasked _ hi), fun u _ => h.asked u⟩

lemma move (ht : s.phase t = q) (horder : s'.order = s.order)
    (hphase : s'.phase = s.phase) (hblock : ∀ j, (s'.buf j).block = (s.buf j).block)
    (hindex : ∀ j, p.index = some j → q.index = some j)
    (hasked : ∀ x, p.asked = some x → q.asked = some x) : Table A (s'.goto t p) :=
  (h.congr horder hphase hblock).goto (by rw [hphase, ht]) hindex hasked

lemma used_waiting {u : τ} {b : Buf δ}
    (hu : (((s.set i b).goto t (.waiting i k)).phase u).index = some j) : j ∈ insert i A := by
  by_cases hut : u = t
  · subst hut
    simp only [State.goto, update_self] at hu
    cases hu
    exact mem_insert i A
  · simp only [State.goto, update_of_ne hut] at hu
    exact mem_insert_of_mem i (h.used u j hu)

lemma hit (ht : s.phase t = .out) (hi : s.cached k = some i) {b : Buf δ} (hb : b.block = (s.buf i).block) :
    Table (insert i A) ((s.set i b).goto t (.waiting i k)) := by
  obtain ⟨hk, l1, l2, horder, hl⟩ := cached_eq_some hi
  have hblock : ∀ j, (((s.set i b).goto t (.waiting i k)).buf j).block = (s.buf j).block :=
    sameBlocks_set hb
  refine ⟨h.nodup, h.all, fun u j hu => h.used_waiting hu, ?_, ?_, ?_, ?_, ?_⟩
  · intro u j k' hu
    rw [hblock]
    by_cases hut : u = t
    · subst hut
      simp only [State.goto, update_self] at hu
      cases hu
      exact hk
    · simp only [State.goto, update_of_ne hut] at hu
      exact h.asked u j k' hu
  · intro j hj
    rw [hblock]
    exact h.fresh j fun hin => hj (mem_insert_of_mem i hin)
  · change s.order.Pairwise _
    have hfirst := h.first
    rw [horder] at hfirst ⊢
    obtain ⟨h1, h2, h3⟩ := pairwise_append.mp hfirst
    obtain ⟨h4, h5⟩ := pairwise_cons.mp h2
    have hnodup := h.nodup
    rw [horder, nodup_append, nodup_cons] at hnodup
    have hold : ∀ x y, y ≠ i → (x ∉ A → y ∈ A → (s.buf y).block ≠ (0, 0)) → x ∉ insert i A →
        y ∈ insert i A → (((s.set i b).goto t (.waiting i k)).buf y).block ≠ (0, 0) := by
      intro x y hy hxy hx hyin
      rw [hblock]
      exact hxy (fun hin => hx (mem_insert_of_mem i hin)) (hyin.resolve_left hy)
    have hl1 : ∀ y ∈ l1, y ≠ i := fun y hy => hnodup.2.2 y hy i (by simp)
    have hl2 : ∀ y ∈ l2, y ≠ i := fun y hy he => hnodup.2.1.1 (he ▸ hy)
    refine pairwise_append.mpr ⟨?_, pairwise_cons.mpr ⟨?_, ?_⟩, ?_⟩
    · exact h1.imp_of_mem fun _ hy hxy => hold _ _ (hl1 _ hy) hxy
    · exact fun y hy => hold i y (hl2 y hy) (h4 y hy)
    · exact h5.imp_of_mem fun _ hy hxy => hold _ _ (hl2 _ hy) hxy
    · intro x hx y hy
      rcases mem_cons.mp hy with rfl | hy'
      · -- a fresh buffer further in front would have been found first
        intro hxA _ hzero
        rw [hblock, hk] at hzero
        refine hl x hx ?_
        rw [h.fresh x fun hin => hxA (mem_insert_of_mem y hin), hzero]
      · exact hold x y (hl2 y hy') (h3 x hx y hy)
  · intro x hx y hy hxy
    rw [hblock, hblock] at hxy
    have hother : ∀ j ∈ A, (s.buf j).block = (s.buf i).block → j = i := by
      intro j hj hji
      by_cases hA : i ∈ A
      · exact h.unique j hj i hA hji
      · exact absurd (hji.trans hk) (h.hit_absent hi hA j hj)
    rcases hx with rfl | hx
    · rcases hy with rfl | hy
      · rfl
      · exact (hother y hy hxy.symm).symm
    · rcases hy with rfl | hy
      · exact hother x hx hxy
      · exact h.unique x hx y hy hxy
  · intro j
    rw [hblock]
    exact h.dev j

lemma miss (hk : k.1 < 2) (hnone : s.cached k = none)
    (hi : ∀ u, (s.phase u).index ≠ some i) {b : Buf δ} (hb : b.block = k) :
    Table (insert i A) ((s.set i b).goto t (.waiting i k)) := by
  have hno := h.cached_eq_none hnone
  have hself : (((s.set i b).goto t (.waiting i k)).buf i).block = k := by
    simp [State.goto, State.set, hb]
  have hother : ∀ j, j ≠ i → (((s.set i b).goto t (.waiting i k)).buf j).block = (s.buf j).block := by
    intro j hj
    simp [State.goto, State.set, update_of_ne hj]
  refine ⟨h.nodup, h.all, fun u j hu => h.used_waiting hu, ?_, ?_, ?_, ?_, ?_⟩
  · intro u j k' hu
    by_cases hut : u = t
    · subst hut
      simp only [State.goto, update_self] at hu
      cases hu
      exact hself
    · simp only [State.goto, update_of_ne hut] at hu
      have hj : j ≠ i := by
        rintro rfl
        exact hi u (Phase.index_of_asked hu)
      rw [hother j hj]
      exact h.asked u j k' hu
  · intro j hj
    rw [hother j fun he => hj (mem_insert_iff.mpr (.inl he))]
    exact h.fresh j fun hin => hj (mem_insert_of_mem i hin)
  · refine h.first.imp fun {x y} hxy hx hy => ?_
    have hxA : x ∉ A := fun hin => hx (mem_insert_of_mem i hin)
    by_cases hyi : y = i
    · subst hyi
      rw [hself]
      rintro rfl
      exact hno x (h.fresh x hxA)
    · rw [hother y hyi]
      exact hxy hxA (hy.resolve_left hyi)
  · intro x hx y hy hxy
    by_cases hxi : x = i
    · subst hxi
      by_contra hne
      rw [hself, hother y (Ne.symm hne)] at hxy
      exact hno y hxy.symm
    · by_cases hyi : y = i
      · subst hyi
        rw [hself, hother x hxi] at hxy
        exact absurd hxy (hno x)
      · rw [hother x hxi, hother y hyi] at hxy
        exact h.unique x (hx.resolve_left hxi) y (hy.resolve_left hyi) hxy
  · intro j
    by_cases hj : j = i
    · subst hj
      rw [hself]
      exact hk
    · rw [hother j hj]
      exact h.dev j

lemma unref (ht : s.phase t = .releasing i) : Table A (unref t i s) := by
  have hset : Table A ((s.set i (s.buf i).unref).goto t .out) := by
    exact h.move ht rfl rfl (sameBlocks_set rfl) nofun nofun
  have hA : i ∈ A := h.used t i (by rw [ht]; rfl)
  unfold Paging.unref
  dsimp only
  split
  · refine ⟨?_, fun j => ?_, hset.used, hset.asked, hset.fresh, ?_, hset.unique, hset.dev⟩
    · refine nodup_cons.mpr ⟨fun hin => ?_, h.nodup.erase i⟩
      exact (h.nodup.mem_erase_iff.mp hin).1 rfl
    · by_cases hj : j = i
      · subst hj
        exact mem_cons_self
      · exact mem_cons_of_mem i (h.nodup.mem_erase_iff.mpr ⟨hj, h.all j⟩)
    · refine pairwise_cons.mpr ⟨fun j _ hi => absurd hA hi, ?_⟩
      exact hset.first.sublist erase_sublist
  · exact hset

lemma does [Fintype τ] (hu : Users s) (ha : OnDisk a)
    (hd : Does .DEFAULT s a s' es) : Table (A ∪ got es) s' := by
  cases hd with
  | hit t k i ht hi =>
    have := h.hit ht hi (b := { s.buf i with refcnt := (s.buf i).refcnt + 1 }) rfl
    simpa [union_comm] using this
  | miss t k i u ht hnone hv =>
    obtain ⟨hunused, rfl⟩ := victim_default hv
    have := h.miss (t := t) (ha t k rfl) hnone (hu.not_used hunused.1)
      (b := { s.buf i with block := k, valid := false, dirty := false, refcnt := 1 }) rfl
    simpa [union_comm] using this
  | acquire t i k ht hfree =>
    rw [got_nil, union_empty]
    exact h.move ht rfl rfl (sameBlocks_set rfl) (fun _ => id) fun _ => id
  | ready t i k ht hvalid =>
    rw [got_access, got_nil, union_empty]
    exact h.goto ht (fun _ => id) nofun
  | submit t i k ht hvalid =>
    rw [got_nil, union_empty]
    exact h.move ht rfl rfl (fun _ => rfl) (fun _ => id) fun _ => id
  | read t i k ht hf =>
    rw [got_access, got_nil, union_empty]
    exact h.goto ht (fun _ => id) nofun
  | wrote t i ht hf =>
    rw [got_nil, union_empty]
    exact h.goto ht (fun _ => id) nofun
  | modify t i stored v ht =>
    rw [got_nil, union_empty]
    exact h.move ht rfl rfl (sameBlocks_set rfl) (fun _ => id) nofun
  | write t i stored ht | logged t i stored ht =>
    rw [got_access, got_nil, union_empty]
    exact h.move ht rfl rfl (sameBlocks_set rfl) (fun _ => id) nofun
  | release t i stored ht =>
    rw [got_nil, union_empty]
    exact h.move ht rfl rfl (sameBlocks_set rfl) (fun _ => id) nofun
  | unref t i ht => simpa using h.unref ht
  | spurious hq => simpa using h
  | served i rest hq =>
    rw [got_nil, union_empty]
    exact h.congr rfl rfl (sameBlocks_set rfl)

end Table

end LearnXv6.Paging
