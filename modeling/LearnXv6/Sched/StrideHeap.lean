import LearnXv6.Sched.Stride
import LearnXv6.Store.BinaryHeap
import Mathlib.Data.Set.Card

/-! `heap.c` is a binary heap, and without `kill` it holds the runnable processes. -/
namespace LearnXv6.Sched.Stride
open Function Store Store.BinaryHeap

variable {s s' s'' : State} {p q : Slot} {i j n : ℕ} {S : Set Slot}

/-- The order of the heap. -/
def key (s : State) (o : Option Slot) : ℤ := o.elim 0 (pass s)

/-- Only the heap and the fields `position` differ. -/
structure Moved (s s' : State) : Prop where
  initproc : s'.initproc = s.initproc
  proc : ∀ p, ∃ x, s'.proc p = { s.proc p with lab := { (s.proc p).lab with position := x } }

namespace Moved

lemma refl : Moved s s := ⟨rfl, fun _ => ⟨_, rfl⟩⟩

section

variable (h : Moved s s')
include h

lemma trans (h' : Moved s' s'') : Moved s s'' := by
  refine ⟨h'.initproc.trans h.initproc, fun p => ?_⟩
  obtain ⟨x, hx⟩ := h.proc p
  obtain ⟨y, hy⟩ := h'.proc p
  exact ⟨y, by rw [hy, hx]⟩

lemma state (p : Slot) : (s'.proc p).state = (s.proc p).state := by
  obtain ⟨x, hx⟩ := h.proc p
  rw [hx]

lemma pass_eq (p : Slot) : pass s' p = pass s p := by
  obtain ⟨x, hx⟩ := h.proc p
  rw [pass, hx]
  rfl

lemma key_eq : key s' = key s := by
  funext o
  cases o with
  | none => rfl
  | some p => exact h.pass_eq p

lemma runnable : s'.runnable = s.runnable := by
  ext p
  simp only [Table.mem_runnable, h.state]

end

lemma setPosition (x : ℤ) : Moved s (setPosition s p x) := by
  refine ⟨rfl, fun q => ?_⟩
  by_cases hq : q = p
  · subst hq
    exact ⟨x, by simp [Stride.setPosition]⟩
  · exact ⟨(s.proc q).lab.position, by simp only [Stride.setPosition, Table.set_proc_of_ne hq]⟩

lemma setHeap : Moved s (setHeap s i p) := ⟨rfl, fun _ => ⟨_, rfl⟩⟩

lemma setLast (x : ℤ) : Moved s (setLast s x) := ⟨rfl, fun _ => ⟨_, rfl⟩⟩

end Moved

@[simp] lemma setPosition_queue (x : ℤ) : (setPosition s p x).queue = s.queue := rfl

@[simp] lemma setHeap_queue : (setHeap s i p).queue = ⟨s.queue.last, update s.queue.heap i (some p)⟩ := rfl

@[simp] lemma setLast_queue (x : ℤ) : (setLast s x).queue = ⟨x, s.queue.heap⟩ := rfl

/-! The recursions of `heap.c`. -/

/-- The entries `1, ..., n` point to processes. -/
def Filled (n : ℕ) (h : ℕ → Option Slot) : Prop := ∀ j, 1 ≤ j → j ≤ n → ∃ p, h j = some p

lemma Filled.swap {h : ℕ → Option Slot} (hf : Filled n h) (hi : 1 ≤ i ∧ i ≤ n)
    (hj : 1 ≤ j ∧ j ≤ n) : Filled n (BinaryHeap.swap h i j) := by
  intro k h1 hn
  simp only [BinaryHeap.swap, comp_apply, Equiv.swap_apply_def]
  split_ifs
  · exact hf j hj.1 hj.2
  · exact hf i hi.1 hi.2
  · exact hf k h1 hn

lemma deref_ok (hi : i ≤ NPROC) (hp : s.queue.heap i = some p) : deref s i = .ok p := by
  simp [deref, hi, hp]

lemma exchange_ok (hi : i ≤ NPROC) (hj : j ≤ NPROC) (hp : s.queue.heap i = some p)
    (hq : s.queue.heap j = some q) : ∃ s', exchange i j s = .ok s' ∧ Moved s s' ∧
      s'.queue = ⟨s.queue.last, BinaryHeap.swap s.queue.heap i j⟩ := by
  refine ⟨_, by rw [exchange, deref_ok hi hp, ok_bind, deref_ok hj hq, ok_bind]; rfl, ?_, ?_⟩
  · exact (((Moved.setHeap.trans .setHeap).trans (.setPosition _)).trans (.setPosition _)).trans
      (.setPosition _)
  · simp only [setPosition_queue, setHeap_queue, ← hp, ← hq]
    congr 1
    funext k
    by_cases hkj : k = j
    · subst hkj
      simp
    by_cases hki : k = i
    · subst hki
      simp [update_of_ne hkj]
    · rw [update_of_ne hkj, update_of_ne hki, BinaryHeap.swap_of_ne hki hkj]

lemma parent_eq (i : ℕ) : (if i % 2 ≠ 0 then (i - 1) / 2 else i / 2) = i / 2 := by
  split <;> omega

lemma checkHeapParent_ok (fuel : ℕ) (h1 : 1 ≤ i) (hin : i ≤ n) (hn : n ≤ NPROC)
    (hfuel : i ≤ fuel) (hf : Filled n s.queue.heap) :
    ∃ s', checkHeapParent fuel i s = .ok (i, s') ∧ Moved s s' ∧
      s'.queue = ⟨s.queue.last, BinaryHeap.siftUp (key s) fuel i s.queue.heap⟩ := by
  induction fuel generalizing i s with
  | zero => omega
  | succ fuel ih =>
    simp only [checkHeapParent, BinaryHeap.siftUp, parent_eq]
    split
    · exact ⟨s, rfl, .refl, rfl⟩
    · rename_i hne
      obtain ⟨p, hp⟩ := hf (i / 2) (by omega) (by omega)
      obtain ⟨q, hq⟩ := hf i h1 hin
      rw [deref_ok (by omega) hp, ok_bind, deref_ok (by omega) hq, ok_bind]
      have hkey : key s (s.queue.heap i) < key s (s.queue.heap (i / 2)) ↔ pass s q < pass s p := by
        rw [hp, hq]
        rfl
      by_cases hlt : pass s q < pass s p
      · obtain ⟨s1, hs1, hm1, hq1⟩ := exchange_ok (s := s) (by omega) (by omega) hp hq
        obtain ⟨s2, hs2, hm2, hq2⟩ := ih (i := i / 2) (s := s1) (by omega) (by omega) (by omega)
          (by rw [hq1]; exact hf.swap ⟨by omega, by omega⟩ ⟨h1, hin⟩)
        refine ⟨s2, ?_, hm1.trans hm2, ?_⟩
        · rw [if_pos hlt, hs1, ok_bind, hs2]
          rfl
        · rw [hq2, hm1.key_eq, hq1, if_pos (hkey.mpr hlt)]
      · obtain ⟨s2, hs2, hm2, hq2⟩ := ih (i := i / 2) (s := s) (by omega) (by omega) (by omega) hf
        refine ⟨s2, ?_, hm2, ?_⟩
        · rw [if_neg hlt, pure_bind, hs2]
          rfl
        · rw [hq2, if_neg (hkey.not.mpr hlt)]

lemma smaller_ok {c m : ℕ} (hc : 1 ≤ c) (hm : 1 ≤ m ∧ m ≤ n) (hn : n ≤ NPROC)
    (hf : Filled n s.queue.heap) :
    smaller n c m s =
      .ok (if c ≤ n ∧ key s (s.queue.heap c) < key s (s.queue.heap m) then c else m) := by
  unfold smaller
  by_cases hcn : c ≤ n
  · obtain ⟨p, hp⟩ := hf c hc hcn
    obtain ⟨q, hq⟩ := hf m hm.1 hm.2
    rw [if_pos hcn, deref_ok (by omega) hp, ok_bind, deref_ok (by omega) hq, ok_bind]
    simp only [hcn, true_and, hp, hq, key, Option.elim]
    rfl
  · rw [if_neg hcn, if_neg (fun h => hcn h.1)]
    rfl

lemma checkHeapChild_ok (fuel : ℕ) (h1 : 1 ≤ i) (hin : i ≤ n) (hn : n ≤ NPROC)
    (hfuel : n < i + fuel) (hf : Filled n s.queue.heap) :
    ∃ s', checkHeapChild n fuel i s = .ok s' ∧ Moved s s' ∧
      s'.queue = ⟨s.queue.last, BinaryHeap.siftDown (key s) n fuel i s.queue.heap⟩ := by
  induction fuel generalizing i s with
  | zero => omega
  | succ fuel ih =>
    simp only [checkHeapChild, BinaryHeap.siftDown]
    have hboth : smaller n (2 * i + 1) _ s = .ok (BinaryHeap.smallest (key s) n s.queue.heap i) :=
      smaller_ok (by omega) (by split <;> omega) hn hf
    rw [smaller_ok (by omega) ⟨h1, hin⟩ hn hf, ok_bind, hboth, ok_bind]
    by_cases hm : BinaryHeap.smallest (key s) n s.queue.heap i = i
    · refine ⟨s, ?_, .refl, ?_⟩
      · rw [if_neg (not_not.mpr hm)]
        rfl
      · rw [if_pos hm]
    · have hcases := BinaryHeap.smallest_cases hm
      rw [if_pos hm]
      generalize BinaryHeap.smallest (key s) n s.queue.heap i = m at hm hcases ⊢
      obtain ⟨p, hp⟩ := hf m (by omega) (by omega)
      obtain ⟨q, hq⟩ := hf i h1 hin
      obtain ⟨s1, hs1, hm1, hq1⟩ := exchange_ok (s := s) (by omega) (by omega) hp hq
      obtain ⟨s2, hs2, hm2, hq2⟩ := ih (i := m) (s := s1) (by omega) (by omega) (by omega)
        (by rw [hq1]; exact hf.swap ⟨by omega, by omega⟩ ⟨h1, hin⟩)
      refine ⟨s2, ?_, hm1.trans hm2, ?_⟩
      · rw [hs1, ok_bind, hs2]
      · rw [hq2, hm1.key_eq, hq1, if_neg hm]

/-! Entering and leaving the heap. -/

/-- The heap has `n` entries, the processes of `S`, each once. -/
structure Rep (s : State) (S : Set Slot) (n : ℕ) : Prop where
  last : s.queue.last = n
  contents : Contents s.queue.heap n (some '' S)

namespace Rep

lemma filled (h : Rep s S n) : Filled n s.queue.heap := by
  intro j h1 hn
  obtain ⟨p, -, hp⟩ := h.contents.mapsTo ⟨h1, hn⟩
  exact ⟨p, hp.symm⟩

lemma card (h : Rep s S n) : n = S.ncard := by
  have h1 := h.contents.ncard_eq
  rw [Set.ncard_image_of_injective _ (Option.some_injective _), Set.ncard_eq_toFinset_card',
    Set.toFinset_Icc, Nat.card_Icc] at h1
  omega

lemma le (h : Rep s S n) : n ≤ NPROC := by
  rw [h.card]
  simpa using Set.ncard_le_card S

lemma lt (h : Rep s S n) (hp : p ∉ S) : n < NPROC := by
  have h1 := Set.ncard_lt_card (s := S) fun hS => hp (hS ▸ Set.mem_univ p)
  rw [h.card]
  simpa using h1

end Rep

lemma index_ok (h : i ≤ NPROC) : index (i : ℤ) = .ok i := by
  have : (0 : ℤ) ≤ i ∧ (i : ℤ) ≤ NPROC := by omega
  simp [index, this]

lemma enter_ok (h : Rep s S n) (hp : p ∉ S) :
    ∃ s', enter p s = .ok s' ∧ Moved s s' ∧ Rep s' (Insert.insert p S) (n + 1) ∧
      (Ordered (key s) n s.queue.heap → Ordered (key s') (n + 1) s'.queue.heap) := by
  have hn := h.lt hp
  have hlast : s.queue.last + 1 = ((n + 1 : ℕ) : ℤ) := by
    rw [h.last]
    rfl
  let s1 := setHeap (setLast s (s.queue.last + 1)) (n + 1) p
  have hfilled : Filled (n + 1) s1.queue.heap := by
    intro j h1 hj
    by_cases hjn : j = n + 1
    · exact ⟨p, by simp [s1, hjn]⟩
    · simpa [s1, update_of_ne hjn] using h.filled j h1 (by omega)
  obtain ⟨s2, hs2, hm, hq⟩ := checkHeapParent_ok (NPROC + 1) (by omega) le_rfl
    (by omega) (by omega) hfilled
  have hmoved : Moved s s1 := (Moved.setLast _).trans .setHeap
  have hmoved' : Moved s (setPosition s2 p (n + 1 : ℕ)) := (hmoved.trans hm).trans (.setPosition _)
  refine ⟨setPosition s2 p (n + 1 : ℕ), ?_, hmoved', ⟨?_, ?_⟩, ?_⟩
  · have hindex : index (s.queue.last + 1) = .ok (n + 1) := by
      rw [hlast]
      exact index_ok (by omega)
    simp only [enter, insert]
    rw [hindex, ok_bind, hs2]
    rfl
  · rw [setPosition_queue, hq]
    exact hlast
  · have hnot : some p ∉ some '' S := by simpa using hp
    have hins := h.contents.insert (key s1) (NPROC + 1) hnot
    rw [setPosition_queue, hq, Set.image_insert_eq]
    exact hins
  · intro hord
    have hins := hord.insert (x := some p) (NPROC + 1) (by omega)
    rw [hmoved'.key_eq, setPosition_queue, hq, hmoved.key_eq]
    exact hins

lemma leave_ok (h : Rep s S n) (hn : 1 ≤ n) :
    ∃ p s', leave 1 s = .ok (p, s') ∧ s.queue.heap 1 = some p ∧ p ∈ S ∧ Moved s s' ∧
      Rep s' (S \ {p}) (n - 1) ∧
      (Ordered (key s) n s.queue.heap → Ordered (key s') (n - 1) s'.queue.heap) := by
  have hle := h.le
  obtain ⟨p, hp⟩ := h.filled 1 le_rfl hn
  obtain ⟨m, hm⟩ := h.filled n hn le_rfl
  have hmem : p ∈ S := by
    have := h.contents.mapsTo (⟨le_rfl, hn⟩ : 1 ∈ Set.Icc 1 n)
    rw [hp] at this
    simpa using this
  let s0 := setLast s (s.queue.last - 1)
  let s1 := setHeap (setPosition s0 m (position s0 p)) 1 m
  have hmoved : Moved s s1 := ((Moved.setLast _).trans (.setPosition _)).trans .setHeap
  have hheap : s1.queue.heap = update s.queue.heap 1 (s.queue.heap n) := by
    rw [hm]
    rfl
  have hfilled : Filled n s1.queue.heap := by
    intro j h1 hj
    rw [hheap]
    by_cases hj1 : j = 1
    · exact ⟨m, by simp [hj1, hm]⟩
    · simpa [update_of_ne hj1] using h.filled j h1 hj
  obtain ⟨s2, hs2, hm2, hq⟩ := checkHeapChild_ok (NPROC + 1) le_rfl hn hle (by omega) hfilled
  have hmoved' := hmoved.trans hm2
  refine ⟨p, s2, ?_, hp, hmem, hmoved', ⟨?_, ?_⟩, ?_⟩
  · have hone : index 1 = .ok 1 := index_ok (by decide : 1 ≤ NPROC)
    have hlast : index s.queue.last = .ok n := by
      rw [h.last]
      exact index_ok hle
    have hp0 : deref s0 1 = .ok p := deref_ok (by decide) hp
    have hm0 : deref s0 n = .ok m := deref_ok hle hm
    simp only [leave, extract]
    rw [hone, ok_bind, hlast, ok_bind, hp0, ok_bind, hm0, ok_bind, hs2]
    rfl
  · rw [hq]
    change s.queue.last - 1 = _
    rw [h.last]
    omega
  · have hext := h.contents.extract (key s1) (NPROC + 1) hn
    rw [hq, hheap, Set.image_sdiff (Option.some_injective _), Set.image_singleton, ← hp]
    exact hext
  · intro hord
    have hext := hord.extract (NPROC + 1) hn (by omega)
    rw [hmoved'.key_eq, hq, hmoved.key_eq, hheap]
    exact hext

end LearnXv6.Sched.Stride
