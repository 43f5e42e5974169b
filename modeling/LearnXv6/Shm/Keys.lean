import LearnXv6.Shm.Account
import LearnXv6.Shm.Model

/-! What `dec_ref_count` does to the keys and their pages. -/
namespace LearnXv6.Shm
open Function Store List

variable {s s' : State} {p : Slot} {k : Key} {x : Page} {n : ℕ}

lemma outcome_lift {α : Type} {E : Stop → Prop} {P : α → Prop} {y : Except Fault α}
    (h : Outcome (fun f => E (.fault f)) P y) : Outcome E P (lift y) := by
  cases y with
  | ok a | error f => exact h

/-- In how many places of the key a page is recorded. -/
def State.ofKey (s : State) (k : Key) (x : Page) : ℕ :=
  places (Finset.range (s.numpages k)) (fun j => some (s.pageaddr k j)) x

/-- The same for all keys. -/
def State.shared (s : State) (x : Page) : ℕ := ∑ k, s.ofKey k x

lemma shared_eq (k : Key) : s.shared x = s.ofKey k x + ∑ k' ∈ Finset.univ.erase k, s.ofKey k' x :=
  (Finset.add_sum_erase Finset.univ (fun k => s.ofKey k x) (Finset.mem_univ k)).symm

/-- No array is left if `P` holds, and no page freed that is free if `Q` holds. -/
def Careful (P Q : Prop) (e : Stop) : Prop := (P → ∀ i, e ≠ .index i) ∧ (Q → ∀ m, e ≠ .fault (.twice m))

lemma Careful.imp {P Q P' Q' : Prop} {e : Stop} (h : Careful P Q e) (hP : P' → P) (hQ : Q' → Q) :
    Careful P' Q' e := ⟨fun hp => h.1 (hP hp), fun hq => h.2 (hQ hq)⟩

/-- The pages of a key are free and no longer recorded, up to the page `n`. -/
structure FreedPages (k : Key) (s : State) (n : ℕ) (s' : State) : Prop where
  proc : s'.proc = s.proc
  refcount : s'.refcount = s.refcount
  numpages : s'.numpages = s.numpages
  other : ∀ k' ≠ k, s'.pageaddr k' = s.pageaddr k'
  zero : ∀ j < n, s'.pageaddr k j = 0
  rest : ∀ j, n ≤ j → s'.pageaddr k j = s.pageaddr k j
  free : ∀ x, s'.free.count x =
    s.free.count x + places (Finset.range n) (fun j => some (s.pageaddr k j)) x

lemma freeKeyPages_spec : Outcome (Careful (n ≤ NKEYPAGES)
      (∀ x, s.free.count x + places (Finset.range n) (fun j => some (s.pageaddr k j)) x ≤ 1))
    (FreedPages k s n) ((List.range n).foldlM (freeKeyPage k) s) := by
  refine Outcome.range (I := FreedPages k s) (fun j hj u hu => ?_)
    ⟨rfl, rfl, rfl, fun _ _ => rfl, by simp, fun _ _ => rfl, fun _ => by simp [places]⟩
  unfold freeKeyPage
  split
  · refine Outcome.bind (outcome_lift (kfree_spec.imp (fun e he => ⟨fun _ _ h => (by cases h), ?_⟩)
      fun _ h => h)) fun free hfree => ?_
    · intro hpre m hm
      cases hm
      refine he ?_ m rfl
      have h1 := hpre (u.pageaddr k j)
      have h2 := hu.free (u.pageaddr k j)
      have h3 : places (Finset.range (j + 1)) (fun j => some (s.pageaddr k j)) (u.pageaddr k j) ≤
          places (Finset.range n) (fun j => some (s.pageaddr k j)) (u.pageaddr k j) :=
        Finset.sum_le_sum_of_subset (Finset.range_subset_range.mpr hj)
      rw [places_range_succ, hu.rest j le_rfl, if_pos rfl] at h3
      rw [hu.rest j le_rfl] at h1 h2 ⊢
      omega
    · refine ⟨hu.proc, hu.refcount, hu.numpages, fun k' hk' => ?_, fun i hi => ?_, fun i hi => ?_,
        fun x => ?_⟩
      · simp only [update_of_ne hk']
        exact hu.other k' hk'
      · by_cases hij : i = j
        · subst hij
          simp
        · simp only [update_self, update_of_ne hij]
          exact hu.zero i (by omega)
      · have hij : i ≠ j := by omega
        simp only [update_self, update_of_ne hij]
        exact hu.rest i (by omega)
      · rw [places_range_succ, hfree x, hu.free x, hu.rest j le_rfl, Nat.add_assoc]
  · rename_i hlt
    exact ⟨fun hn => absurd (hj.trans_le hn) hlt, fun _ _ h => (by cases h)⟩

/-- The process is the last one that uses the key. -/
def State.last (s : State) (p : Slot) (k : Key) : Prop := (s.proc p).keys k = true ∧ s.refcount k = 1

instance (s : State) (p : Slot) (k : Key) : Decidable (s.last p k) := inferInstanceAs (Decidable (_ ∧ _))

/-- What `dec_ref_count` does for the keys of a list. -/
structure Dropped (p : Slot) (l : List Key) (s s' : State) : Prop where
  proc : s'.proc = s.proc
  refcount : ∀ k, s'.refcount k =
    if k ∈ l ∧ (s.proc p).keys k = true then s.refcount k - 1 else s.refcount k
  numpages : ∀ k, s'.numpages k = if k ∈ l ∧ s.last p k then 0 else s.numpages k
  pageaddr : ∀ k, ¬ (k ∈ l ∧ s.last p k) → s'.pageaddr k = s.pageaddr k
  cleared : ∀ k ∈ l, s.last p k → ∀ j, s'.pageaddr k j = if j < s.numpages k then 0 else s.pageaddr k j
  total : ∀ x, s'.free.count x + s'.shared x = s.free.count x + s.shared x

lemma Dropped.nil : Dropped p [] s s :=
  ⟨rfl, fun _ => by simp, fun _ => by simp, fun _ _ => rfl, by simp, fun _ => rfl⟩

lemma decKey_spec : Outcome (Careful (∀ k, s.numpages k ≤ NKEYPAGES) (∀ x, s.free.count x + s.shared x ≤ 1))
    (Dropped p [k] s) (decKey p s k) := by
  unfold decKey
  split
  · rename_i hk
    have hrc : update s.refcount k (s.refcount k - 1) k = s.refcount k - 1 := by simp
    have hrefcount : ∀ k', update s.refcount k (s.refcount k - 1) k' =
        if k' ∈ [k] ∧ (s.proc p).keys k' = true then s.refcount k' - 1 else s.refcount k' := by
      intro k'
      by_cases hkk : k' = k
      · subst hkk
        simp [hk.1]
      · simp [hkk]
    dsimp only
    split
    · rename_i hzero
      rw [hrc] at hzero
      have hone : s.refcount k = 1 := by
        have := hk.2
        omega
      have hlast : s.last p k := ⟨hk.1, hone⟩
      refine Outcome.bind (freeKeyPages_spec.imp (fun e he => he.imp (fun h => h k) fun h x => ?_)
        fun _ h => h) fun u hu => ?_
      · have h1 := h x
        have h2 := shared_eq (s := s) (x := x) k
        rw [State.ofKey] at h2
        dsimp only
        omega
      · refine ⟨hu.proc, fun k' => ?_, fun k' => ?_, fun k' hk' => ?_, fun k' hk' _ j => ?_,
          fun x => ?_⟩
        · rw [← hrefcount k']
          exact congrFun hu.refcount k'
        · by_cases hkk : k' = k
          · subst hkk
            simp [hlast]
          · simp only [hu.numpages, update_of_ne hkk, mem_singleton, hkk, false_and, if_false]
        · have hkk : k' ≠ k := by
            rintro rfl
            exact hk' ⟨by simp, hlast⟩
          exact hu.other k' hkk
        · rw [mem_singleton] at hk'
          subst hk'
          split
          · rename_i hj
            exact hu.zero j hj
          · rename_i hj
            exact hu.rest j (not_lt.mp hj)
        · have h1 := shared_eq (s := s) (x := x) k
          have h2 := shared_eq (s := { u with numpages := update u.numpages k 0 }) (x := x) k
          have h3 := hu.free x
          have h4 : State.ofKey { u with numpages := update u.numpages k 0 } k x = 0 := by
            simp [State.ofKey, places]
          have h5 : ∑ k' ∈ Finset.univ.erase k,
              State.ofKey { u with numpages := update u.numpages k 0 } k' x =
              ∑ k' ∈ Finset.univ.erase k, s.ofKey k' x := by
            refine Finset.sum_congr rfl fun k' hk' => ?_
            have hkk := Finset.ne_of_mem_erase hk'
            simp only [State.ofKey, update_of_ne hkk, hu.numpages, hu.other k' hkk]
          rw [State.ofKey] at h1
          dsimp only at h3 ⊢
          omega
    · rename_i hne
      rw [hrc] at hne
      have hnot : ∀ k', ¬ (k' ∈ [k] ∧ s.last p k') := by
        rintro k' ⟨hk', hlast⟩
        rw [mem_singleton] at hk'
        subst hk'
        have := hlast.2
        omega
      exact ⟨rfl, hrefcount, fun k' => by rw [if_neg (hnot k')], fun _ _ => rfl,
        fun k' hk' hl => absurd ⟨hk', hl⟩ (hnot k'), fun _ => rfl⟩
  · rename_i hk
    have hcase : ∀ k', ¬ (k' ∈ [k] ∧ s.last p k') := by
      rintro k' ⟨hk', hlast⟩
      rw [mem_singleton] at hk'
      subst hk'
      exact hk ⟨hlast.1, by rw [hlast.2]; decide⟩
    refine ⟨rfl, fun k' => ?_, fun k' => by rw [if_neg (hcase k')], fun _ _ => rfl,
      fun k' hk' hl => absurd ⟨hk', hl⟩ (hcase k'), fun _ => rfl⟩
    split
    · rename_i hk'
      obtain ⟨hk', hkeys⟩ := hk'
      rw [mem_singleton] at hk'
      subst hk'
      have hz : s.refcount k' = 0 := by
        by_contra hne
        exact hk ⟨hkeys, hne⟩
      rw [hz]
    · rfl

lemma Dropped.cons {l : List Key} {u : State} (hk : k ∉ l) (h : Dropped p [k] s u)
    (h' : Dropped p l u s') : Dropped p (k :: l) s s' := by
  have hrc : ∀ k' ∈ l, u.refcount k' = s.refcount k' := by
    intro k' hk'
    have hkk : k' ≠ k := by
      rintro rfl
      exact hk hk'
    rw [h.refcount, if_neg (by simp [hkk])]
  have hlast : ∀ k' ∈ l, (u.last p k' ↔ s.last p k') := by
    intro k' hk'
    rw [State.last, State.last, h.proc, hrc k' hk']
  refine ⟨h'.proc.trans h.proc, fun k' => ?_, fun k' => ?_, fun k' hk' => ?_, fun k' hk' hl j => ?_,
    fun x => (h'.total x).trans (h.total x)⟩
  · rw [h'.refcount, h.proc]
    by_cases hkl : k' ∈ l
    · have hkk : k' ≠ k := by
        rintro rfl
        exact hk hkl
      simp [hkl, hkk, hrc k' hkl]
    · rw [if_neg (by simp [hkl]), h.refcount]
      simp [hkl]
  · rw [h'.numpages]
    by_cases hkl : k' ∈ l
    · have hkk : k' ≠ k := by
        rintro rfl
        exact hk hkl
      have hnp : u.numpages k' = s.numpages k' := by
        rw [h.numpages, if_neg (by simp [hkk])]
      simp [hkl, hkk, hlast k' hkl, hnp]
    · rw [if_neg (by simp [hkl]), h.numpages]
      simp [hkl]
  · have h1 : ¬ (k' ∈ l ∧ u.last p k') := by
      rintro ⟨hkl, hl⟩
      exact hk' ⟨by simp [hkl], (hlast k' hkl).mp hl⟩
    have h2 : ¬ (k' ∈ [k] ∧ s.last p k') := by
      rintro ⟨hkl, hl⟩
      exact hk' ⟨by simp_all, hl⟩
    rw [h'.pageaddr k' h1, h.pageaddr k' h2]
  · by_cases hkl : k' ∈ l
    · have hkk : k' ≠ k := by
        rintro rfl
        exact hk hkl
      have hnum : u.numpages k' = s.numpages k' := by simp [h.numpages, hkk]
      rw [h'.cleared k' hkl ((hlast k' hkl).mpr hl), hnum, h.pageaddr k' (by simp [hkk])]
    · have hkk : k' = k := by simpa [hkl] using hk'
      subst hkk
      rw [h'.pageaddr k' (by simp [hkl])]
      exact h.cleared k' (by simp) hl j

lemma decKeys_spec {l : List Key} (hl : l.Nodup) : Outcome
    (Careful (∀ k, s.numpages k ≤ NKEYPAGES) (∀ x, s.free.count x + s.shared x ≤ 1))
    (Dropped p l s) (l.foldlM (decKey p) s) := by
  induction l generalizing s with
  | nil => exact .nil
  | cons k l ih =>
    rw [foldlM_cons]
    refine decKey_spec.bind fun u hu => ?_
    refine (ih (nodup_cons.mp hl).2).imp (fun e he => he.imp (fun h k' => ?_) fun h x => ?_)
      fun s' hs' => hu.cons (nodup_cons.mp hl).1 hs'
    · rw [hu.numpages]
      split
      · exact Nat.zero_le _
      · exact h k'
    · exact (hu.total x).le.trans (h x)

lemma decRefCount_spec : Outcome
    (Careful (∀ k, s.numpages k ≤ NKEYPAGES) (∀ x, s.free.count x + s.shared x ≤ 1))
    (Dropped p (finRange NKEYS) s) (decRefCount p s) :=
  decKeys_spec (nodup_finRange NKEYS)

end LearnXv6.Shm
