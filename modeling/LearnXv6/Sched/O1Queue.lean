import LearnXv6.Sched.O1
import LearnXv6.Store.Ring
import Mathlib.Data.Nat.Find
import Mathlib.Algebra.BigOperators.Group.Finset.Basic

/-! The containers of the O(1) lab as sorted lists of queues of processes. -/
namespace LearnXv6.Sched.O1
open Function Store List

variable {c c' : Container} {q : PriorityQueue} {i j : ℕ} {p : Slot} {l : List Slot} {L : List ℕ}
  {f : ℕ → List Slot}

lemma queueIndex_ok (h : i < MAX_PRIORITY) : queueIndex (i : ℤ) = .ok i := by
  have : (0 : ℤ) ≤ i ∧ (i : ℤ) < MAX_PRIORITY := by omega
  simp [queueIndex, this]

lemma procsIndex_ok {x : ℤ} (h : 0 ≤ x) : procsIndex x = .ok (x.toNat % NPROC) := by
  obtain ⟨n, rfl⟩ := Int.eq_ofNat_of_zero_le h
  have hmod : (n : ℤ).tmod NPROC = ((n % NPROC : ℕ) : ℤ) := by
    rw [Int.tmod_eq_emod_of_nonneg (by omega)]
    rfl
  rw [procsIndex, hmod, if_pos (by omega), Int.toNat_natCast, Int.toNat_natCast]

/-! One queue. -/

/-- The queue of priority `i`, with the processes between `pos` and `last`. -/
structure QRep (q : PriorityQueue) (i : ℕ) (l : List Slot) : Prop where
  priority : q.priority = i
  pos : 0 ≤ q.pos
  last : q.last + 1 = q.pos + l.length
  ring : Ring NPROC q.procs q.pos.toNat l

namespace QRep

lemma init : QRep (initQueue q i) i [] := ⟨rfl, le_rfl, rfl, .nil⟩

lemma setNext (h : QRep q i l) (next : Option ℕ) : QRep { q with next := next } i l :=
  ⟨h.priority, h.pos, h.last, h.ring⟩

lemma usedUp (h : QRep q i l) : q.pos > q.last ↔ l = [] := by
  have := h.last
  rw [← length_eq_zero_iff]
  omega

lemma addProc (h : QRep q i l) (hfits : l.length < NPROC) (hlast : q.last < INT_MAX) (p : Slot) :
    ∃ q', addProcToQueue p q = .ok q' ∧ QRep q' i (l ++ [p]) ∧ q'.next = q.next ∧ q'.last = q.last + 1 := by
  have hl := h.last
  have hpos := h.pos
  have hwrap : wrap (q.last + 1) = q.last + 1 := wrap_eq (by omega) (by omega)
  have hindex : procsIndex (wrap (q.last + 1)) = .ok ((q.pos.toNat + l.length) % NPROC) := by
    rw [hwrap, procsIndex_ok (by omega)]
    congr 2
    omega
  refine ⟨{ q with
    last := wrap (q.last + 1)
    procs := update q.procs ((q.pos.toNat + l.length) % NPROC) (some p) }, ?_,
    ⟨h.priority, h.pos, ?_, ?_⟩, rfl, hwrap⟩
  · rw [addProcToQueue, hindex, ok_bind]
    rfl
  · change wrap (q.last + 1) + 1 = _
    rw [hwrap, length_append, length_singleton]
    push_cast
    omega
  · exact h.ring.put hfits p

lemma take (h : QRep q i (p :: l)) (hlast : q.last < INT_MAX) :
    procsIndex q.pos = .ok (q.pos.toNat % NPROC) ∧ q.procs (q.pos.toNat % NPROC) = some p ∧
      QRep { q with pos := wrap (q.pos + 1) } i l := by
  have hl := h.last
  have hpos := h.pos
  rw [length_cons] at hl
  have hwrap : wrap (q.pos + 1) = q.pos + 1 := wrap_eq (by omega) (by omega)
  refine ⟨procsIndex_ok hpos, h.ring.head, h.priority, ?_, ?_, ?_⟩
  · change 0 ≤ wrap (q.pos + 1)
    omega
  · change q.last + 1 = wrap (q.pos + 1) + l.length
    omega
  · change Ring NPROC q.procs (wrap (q.pos + 1)).toNat l
    rw [hwrap, show (q.pos + 1).toNat = q.pos.toNat + 1 by omega]
    exact h.ring.tail

end QRep

/-! One container. -/

/-- The container links its valid queues `L` by ascending priority, and `f` lists what is pending in
each queue. -/
structure CRep (c : Container) (L : List ℕ) (f : ℕ → List Slot) : Prop where
  linked : Linked (fun i => (c.queue i).next) c.actualQueue L
  sorted : L.Pairwise (· < ·)
  bound : ∀ i ∈ L, i < MAX_PRIORITY
  valid : ∀ i, i < MAX_PRIORITY → (c.validity i = true ↔ i ∈ L)
  queue : ∀ i ∈ L, QRep (c.queue i) i (f i)
  rest : ∀ i, i ∉ L → f i = []

namespace CRep

lemma init : CRep initQueueContainer [] fun _ => [] :=
  ⟨rfl, .nil, by simp, by simp [initQueueContainer], by simp, by simp⟩

lemma nodup (h : CRep c L f) : L.Nodup := h.sorted.imp fun hlt => Nat.ne_of_lt hlt

lemma before_spec (h : CRep c L f) (hi : i < MAX_PRIORITY) {a : ℕ} (ha : a ∈ L) (hai : a < i) :
    before c i a ∈ L ∧ before c i a < i ∧ ∀ j ∈ L, j < i → j ≤ before c i a := by
  have hfind : ∃ b, ((List.range i).reverse.find? fun j => c.validity j) = some b := by
    rw [← Option.isSome_iff_exists, find?_isSome]
    exact ⟨a, by simpa using hai, (h.valid a (by omega)).mpr ha⟩
  obtain ⟨b, hb⟩ := hfind
  have hbi : b < i := by simpa using mem_of_find?_eq_some hb
  rw [before, hb, Option.getD_some]
  obtain ⟨hvalid, above, below, hsplit, habove⟩ := find?_eq_some_iff_append.mp hb
  refine ⟨(h.valid b (by omega)).mp hvalid, hbi, fun j hj hji => ?_⟩
  have hdesc : (above ++ b :: below).Pairwise (· > ·) := by
    rw [← hsplit, pairwise_reverse]
    exact pairwise_lt_range
  have hmem : j ∈ above ++ b :: below := by
    rw [← hsplit]
    simpa using hji
  rcases mem_append.mp hmem with hj' | hj'
  · have := habove j hj'
    simp [(h.valid j (by omega)).mpr hj] at this
  · rcases mem_cons.mp hj' with rfl | hj'
    · exact le_rfl
    · exact (rel_of_pairwise_cons (pairwise_append.mp hdesc).2.1 hj').le

lemma before_split (h : CRep c L f) (hi : i < MAX_PRIORITY) (hnot : i ∉ L) {a : ℕ} (ha : a ∈ L)
    (hai : a < i) : ∃ l1 l2, L = l1 ++ before c i a :: l2 ∧ before c i a < i ∧ ∀ j ∈ l2, i < j := by
  obtain ⟨hmem, hlt, hmax⟩ := h.before_spec hi ha hai
  obtain ⟨l1, l2, hL⟩ := append_of_mem hmem
  refine ⟨l1, l2, hL, hlt, fun j hj => ?_⟩
  have hjL : j ∈ L := by
    rw [hL]
    simp [hj]
  have hsorted := h.sorted
  rw [hL] at hsorted
  have hbj := rel_of_pairwise_cons (pairwise_append.mp hsorted).2.1 hj
  have hji : ¬ j < i := fun hji => by
    have := hmax j hjL hji
    omega
  have hne : j ≠ i := fun he => hnot (he ▸ hjL)
  omega

lemma link (h : CRep c L f) (hi : i < MAX_PRIORITY) (hnot : i ∉ L) (c' : Container) (L' : List ℕ)
    (hmem : ∀ j, j ∈ L' ↔ j = i ∨ j ∈ L) (hsorted : L'.Pairwise (· < ·))
    (hlinked : Linked (fun j => (c'.queue j).next) c'.actualQueue L')
    (hvalid : c'.validity = update c.validity i true)
    (hnew : ∃ next, c'.queue i = { initQueue (c.queue i) i with next := next })
    (hold : ∀ j, j ≠ i → ∃ next, c'.queue j = { c.queue j with next := next }) :
    CRep c' L' f ∧ ∀ j ∈ L', (c'.queue j).last = -1 ∨
      j ∈ L ∧ (c'.queue j).last = (c.queue j).last := by
  obtain ⟨next, hnext⟩ := hnew
  refine ⟨⟨hlinked, hsorted, ?_, ?_, ?_, ?_⟩, ?_⟩
  · intro j hj
    rcases (hmem j).mp hj with rfl | hj
    · exact hi
    · exact h.bound j hj
  · intro j hj
    rw [hvalid, hmem]
    by_cases hji : j = i
    · subst hji
      simp
    · simp [hji, h.valid j hj]
  · intro j hj
    by_cases hji : j = i
    · subst hji
      rw [hnext, h.rest j hnot]
      exact QRep.init.setNext next
    · obtain ⟨next', hnext'⟩ := hold j hji
      rw [hnext']
      exact (h.queue j (((hmem j).mp hj).resolve_left hji)).setNext next'
  · intro j hj
    exact h.rest j fun hjL => hj ((hmem j).mpr (.inr hjL))
  · intro j hj
    by_cases hji : j = i
    · subst hji
      left
      rw [hnext]
      rfl
    · obtain ⟨next', hnext'⟩ := hold j hji
      exact .inr ⟨((hmem j).mp hj).resolve_left hji, by rw [hnext']⟩

lemma before_update (a : ℕ) (queue : ℕ → PriorityQueue) (actual : Option ℕ) :
    before ⟨update c.validity i true, queue, actual⟩ i a = before c i a := by
  unfold before
  congr 1
  refine find?_congr fun j hj => ?_
  have : j ≠ i := by
    have : j < i := by simpa using hj
    omega
  simp [update_of_ne this]

lemma addQueue (h : CRep c L f) (hi : i < MAX_PRIORITY) (hnot : i ∉ L) :
    ∃ L', CRep (addQueue c i i) L' f ∧ i ∈ L' ∧ ∀ j ∈ L', ((addQueue c i i).queue j).last = -1 ∨
      j ∈ L ∧ ((addQueue c i i).queue j).last = (c.queue j).last := by
  cases hact : c.actualQueue with
  | none =>
    have hL : L = [] := h.linked.eq_none.mp hact
    have hadd : O1.addQueue c i i = ⟨update c.validity i true,
        update c.queue i (initQueue (c.queue i) i), some i⟩ := by
      simp [O1.addQueue, Container.setQueue, hact]
    obtain ⟨hrep, hlast⟩ := h.link hi hnot (O1.addQueue c i i) [i] (by simp [hL])
      (pairwise_singleton _ _) (by rw [hadd]; exact ⟨rfl, by simp [initQueue, Linked]⟩)
      (by rw [hadd]) ⟨none, by simp [hadd, initQueue]⟩
      (fun j hj => ⟨(c.queue j).next, by simp [hadd, update_of_ne hj]⟩)
    exact ⟨[i], hrep, by simp, hlast⟩
  | some a =>
    obtain ⟨t, rfl⟩ : ∃ t, L = a :: t := by
      cases L with
      | nil =>
        have := h.linked
        rw [hact] at this
        cases this
      | cons b t =>
        have := h.linked.1
        rw [hact] at this
        cases this
        exact ⟨t, rfl⟩
    have hne : a ≠ i := fun he => hnot (by simp [he])
    have hprio := (h.queue a (by simp)).priority
    by_cases hlt : i < a
    · -- the new queue comes first
      have hadd : O1.addQueue c i i = ⟨update c.validity i true,
          update c.queue i { initQueue (c.queue i) i with next := some a }, some i⟩ := by
        simp [O1.addQueue, Container.setQueue, hact, update_of_ne hne, hprio, hlt]
      have hsorted : (i :: a :: t).Pairwise (· < ·) := by
        refine pairwise_cons.mpr ⟨fun j hj => ?_, h.sorted⟩
        rcases mem_cons.mp hj with rfl | hj
        · exact hlt
        · exact hlt.trans (rel_of_pairwise_cons h.sorted hj)
      have hlinked : Linked (fun j => ((O1.addQueue c i i).queue j).next)
          (O1.addQueue c i i).actualQueue (i :: a :: t) := by
        rw [hadd]
        refine ⟨rfl, ?_⟩
        have hold := h.linked
        rw [hact] at hold
        simp only [update_self]
        refine hold.congr fun j hj => ?_
        have hji : j ≠ i := fun he => hnot (he ▸ hj)
        simp [update_of_ne hji]
      obtain ⟨hrep, hlast⟩ := h.link hi hnot (O1.addQueue c i i) (i :: a :: t) (by simp) hsorted
        hlinked (by rw [hadd]) ⟨some a, by simp [hadd]⟩
        (fun j hj => ⟨(c.queue j).next, by simp [hadd, update_of_ne hj]⟩)
      exact ⟨i :: a :: t, hrep, by simp, hlast⟩
    · -- the new queue goes behind the last one below it
      have hai : a < i := by omega
      obtain ⟨l1, l2, hL, hbi, habove⟩ := h.before_split hi hnot (a := a) (by simp) hai
      have hbefore := before_update (c := c) (i := i) a
        (update c.queue i (initQueue (c.queue i) i)) (some a)
      generalize hb : before c i a = b at hL hbi hbefore
      have hbne : b ≠ i := by omega
      have hadd : O1.addQueue c i i = ⟨update c.validity i true, update (update c.queue i
            { initQueue (c.queue i) i with next := (c.queue b).next }) b
            { c.queue b with next := some i }, some a⟩ := by
        simp only [O1.addQueue, Container.setQueue, hact, update_of_ne hne, hprio]
        rw [if_neg (by omega), hbefore]
        simp [update_of_ne hbne]
      rw [hL] at h hnot ⊢
      have hmem : ∀ j, j ∈ l1 ++ b :: i :: l2 ↔ j = i ∨ j ∈ l1 ++ b :: l2 := by
        intro j
        simp only [mem_append, mem_cons]
        tauto
      have hsorted : (l1 ++ b :: i :: l2).Pairwise (· < ·) := by
        have hold := h.sorted
        rw [pairwise_append] at hold ⊢
        obtain ⟨h1, h2, h3⟩ := hold
        rw [pairwise_cons] at h2
        refine ⟨h1, ?_, ?_⟩
        · refine pairwise_cons.mpr ⟨?_, pairwise_cons.mpr ⟨habove, h2.2⟩⟩
          intro j hj
          rcases mem_cons.mp hj with rfl | hj
          · exact hbi
          · exact h2.1 j hj
        · intro j hj k hk
          rcases mem_cons.mp hk with rfl | hk
          · exact h3 j hj k (by simp)
          · rcases mem_cons.mp hk with rfl | hk
            · exact (h3 j hj b (by simp)).trans hbi
            · exact h3 j hj k (by simp [hk])
      have hlinked : Linked (fun j => ((O1.addQueue c i i).queue j).next)
          (O1.addQueue c i i).actualQueue (l1 ++ b :: i :: l2) := by
        have hold := h.linked
        rw [hact] at hold
        rw [hadd]
        refine hold.insert_after h.nodup hnot ?_ ?_ ?_
        · simp
        · simp [update_of_ne hbne.symm]
        · intro j hjb hji
          simp [update_of_ne hjb, update_of_ne hji]
      have hold : ∀ j, j ≠ i → ∃ next, (O1.addQueue c i i).queue j =
          { c.queue j with next := next } := by
        intro j hj
        by_cases hjb : j = b
        · exact ⟨some i, by simp [hadd, hjb]⟩
        · exact ⟨(c.queue j).next, by
            simp [hadd, update_of_ne hjb, update_of_ne hj]⟩
      obtain ⟨hrep, hlast⟩ := h.link hi hnot (O1.addQueue c i i) (l1 ++ b :: i :: l2) hmem hsorted
        hlinked (by rw [hadd])
        ⟨(c.queue b).next, by simp [hadd, update_of_ne hbne.symm]⟩ hold
      exact ⟨l1 ++ b :: i :: l2, hrep, by simp, hlast⟩

lemma getQueue (h : CRep c L f) (hi : i < MAX_PRIORITY) :
    ∃ c' L', getQueue c i = .ok (i, c') ∧ CRep c' L' f ∧ i ∈ L' ∧
      ∀ j ∈ L', (c'.queue j).last = -1 ∨ j ∈ L ∧ (c'.queue j).last = (c.queue j).last := by
  simp only [O1.getQueue]
  rw [queueIndex_ok hi, ok_bind]
  by_cases hvalid : c.validity i = true
  · rw [if_pos hvalid]
    exact ⟨c, L, rfl, h, (h.valid i hi).mp hvalid, fun j hj => .inr ⟨hj, rfl⟩⟩
  · rw [if_neg hvalid]
    obtain ⟨L', hrep, hmem, hlast⟩ := h.addQueue hi fun hmem => hvalid ((h.valid i hi).mpr hmem)
    exact ⟨_, L', rfl, hrep, hmem, hlast⟩

lemma setQueue (h : CRep c L f) (hi : i ∈ L) (hq : QRep q i l) (hnext : q.next = (c.queue i).next) :
    CRep (c.setQueue i q) L (update f i l) := by
  refine ⟨?_, h.sorted, h.bound, h.valid, ?_, ?_⟩
  · refine h.linked.congr fun j _ => ?_
    by_cases hji : j = i
    · subst hji
      simp [Container.setQueue, hnext]
    · simp [Container.setQueue, update_of_ne hji]
  · intro j hj
    by_cases hji : j = i
    · subst hji
      simpa [Container.setQueue] using hq
    · simpa [Container.setQueue, update_of_ne hji] using h.queue j hj
  · intro j hj
    have hji : j ≠ i := fun he => hj (he ▸ hi)
    rw [update_of_ne hji]
    exact h.rest j hj

lemma insert {B : ℤ} (h : CRep c L f) (hi : i < MAX_PRIORITY) (hfits : (f i).length < NPROC)
    (hB : -1 ≤ B ∧ B < INT_MAX) (hroom : ∀ j ∈ L, (c.queue j).last ≤ B) (p : Slot) :
    ∃ c' q' L', O1.getQueue c i = .ok (i, c') ∧ addProcToQueue p (c'.queue i) = .ok q' ∧
      CRep (c'.setQueue i q') L' (update f i (f i ++ [p])) ∧
      ∀ j ∈ L', ((c'.setQueue i q').queue j).last ≤ B + 1 := by
  obtain ⟨c', L', hget, hrep, hmem, hlast⟩ := h.getQueue hi
  have hle : ∀ j ∈ L', (c'.queue j).last ≤ B := by
    intro j hj
    rcases hlast j hj with heq | ⟨hjL, heq⟩
    · omega
    · rw [heq]
      exact hroom j hjL
  obtain ⟨q', hadd, hq', hnext, hlast'⟩ :=
    (hrep.queue i hmem).addProc hfits (by have := hle i hmem; omega) p
  refine ⟨c', q', L', hget, hadd, hrep.setQueue hmem hq' hnext, fun j hj => ?_⟩
  by_cases hji : j = i
  · subst hji
    have := hle j hj
    simp only [Container.setQueue, update_self]
    omega
  · have := hle j hj
    simp only [Container.setQueue, update_of_ne hji]
    omega

lemma drop {a : ℕ} {t : List ℕ} (h : CRep c (a :: t) f) (hempty : f a = []) : CRep { c with
      validity := update c.validity a false
      actualQueue := (c.queue a).next } t f := by
  have hnot : a ∉ t := (nodup_cons.mp h.nodup).1
  refine ⟨h.linked.2, (pairwise_cons.mp h.sorted).2, fun j hj => h.bound j (by simp [hj]), ?_,
    fun j hj => h.queue j (by simp [hj]), ?_⟩
  · intro j hj
    by_cases hja : j = a
    · subst hja
      simp [hnot]
    · have := h.valid j hj
      simpa [update_of_ne hja, hja] using this
  · intro j hj
    by_cases hja : j = a
    · rw [hja, hempty]
    · exact h.rest j (by simp [hja, hj])

end CRep

/-! What is pending in a container. -/

/-- All the processes that the queues list. -/
def pending (f : ℕ → List Slot) : Multiset Slot := ∑ i ∈ Finset.range MAX_PRIORITY, (f i : Multiset Slot)

section

variable (hi : i < MAX_PRIORITY)
include hi

lemma pending_split (g : ℕ → List Slot) (hg : ∀ j, j ≠ i → g j = f j) :
    ∃ m, pending f = f i + m ∧ pending g = g i + m := by
  have hmem := Finset.mem_range.mpr hi
  refine ⟨∑ j ∈ (Finset.range MAX_PRIORITY).erase i, (f j : Multiset Slot), ?_, ?_⟩
  · exact (Finset.add_sum_erase _ (fun j => (f j : Multiset Slot)) hmem).symm
  · rw [pending, ← Finset.add_sum_erase _ (fun j => (g j : Multiset Slot)) hmem]
    congr 1
    refine Finset.sum_congr rfl fun j hj => ?_
    rw [hg j (Finset.ne_of_mem_erase hj)]

lemma pending_push (p : Slot) : pending (update f i (f i ++ [p])) = p ::ₘ pending f := by
  obtain ⟨m, hf, hg⟩ := pending_split hi (update f i (f i ++ [p])) (f := f)
    fun j hj => update_of_ne hj _ _
  have hcons : ((f i ++ [p] : List Slot) : Multiset Slot) = p ::ₘ (f i : Multiset Slot) := by
    rw [Multiset.cons_coe, Multiset.coe_eq_coe]
    exact perm_append_singleton p _
  rw [hg, update_self, hcons, Multiset.cons_add, hf]

lemma pending_pop (hp : f i = p :: l) : pending f = p ::ₘ pending (update f i l) := by
  obtain ⟨m, hf, hg⟩ := pending_split hi (update f i l) (f := f)
    fun j hj => update_of_ne hj _ _
  rw [hf, hg, update_self, hp, ← Multiset.cons_add, Multiset.cons_coe]

lemma length_le_pending : (f i).length ≤ (pending f).card := by
  obtain ⟨m, hf, -⟩ := pending_split hi f (f := f) fun j _ => rfl
  rw [hf, Multiset.card_add, Multiset.coe_card]
  omega

end

lemma CRep.pending_nil (h : CRep c [] f) : pending f = 0 := by
  refine Finset.sum_eq_zero fun j _ => ?_
  rw [h.rest j (by simp)]
  rfl

end LearnXv6.Sched.O1
