import LearnXv6.Paging.Data

/-! Under the default policy the cache is coherent: the blocks behave like one memory. -/
namespace LearnXv6.Paging
open Function Store List

variable {τ δ : Type} {s s' : State τ δ} {a : Action τ δ} {t u : τ} {i j : Index} {k : Key}
  {p q : Phase} {es : List (Event δ)} {A : Set Index} {mem : Key → δ} {b : Buf δ}

variable [Fintype τ] [DecidableEq τ]

structure Coherent (A : Set Index) (mem : Key → δ) (s : State τ δ) : Prop where
  users : Users s
  table : Table A s
  data : Data A mem s

namespace Coherent

variable (h : Coherent A mem s)
include h

lemma not_queued (ht : s.phase t = q) (hh : q.holder = some i)
    (hw : q ≠ .writing i) (hr : ∀ k, q ≠ .reading i k) : i ∉ s.idequeue := by
  intro hin
  subst ht
  obtain ⟨u, ⟨hu, -⟩ | ⟨k, hu, -⟩⟩ := h.data.request i hin
  · obtain rfl := h.users.unique hh (by rw [hu]; rfl)
    exact hw hu
  · obtain rfl := h.users.unique hh (by rw [hu]; rfl)
    exact hr k hu

lemma not_changed (ht : s.phase t = q) (hh : q.holder = some i)
    (hno : q ≠ .holding i false) (u : τ) : s.phase u ≠ .holding i false := by
  intro hu
  subst ht
  obtain rfl := h.users.unique hh (by rw [hu]; rfl)
  exact hno hu

lemma queued_unchanged (hi : i ∈ s.idequeue) (u : τ) : s.phase u ≠ .holding i false := by
  obtain ⟨t, ⟨ht, -⟩ | ⟨k, ht, -⟩⟩ := h.data.request i hi
  · exact h.not_changed ht rfl nofun u
  · exact h.not_changed ht rfl nofun u

omit [DecidableEq τ] in
lemma queued_mem (hi : i ∈ s.idequeue) : i ∈ A := by
  obtain ⟨t, ⟨ht, -⟩ | ⟨k, ht, -⟩⟩ := h.data.request i hi
  · exact h.table.used t i (by rw [ht]; rfl)
  · exact h.table.used t i (by rw [ht]; rfl)

lemma data_hit (ht : s.phase t = .out) (hi : s.cached k = some i) : Data (insert i A) mem
      ((s.set i { s.buf i with refcnt := (s.buf i).refcnt + 1 }).goto t (.waiting i k)) := by
  have hk := (cached_eq_some hi).1
  have hins : Data (insert i A) mem s := by
    refine h.data.insert h.table fun hA j hj => ?_
    rw [hk]
    exact h.table.hit_absent hi hA j hj
  have hset := hins.touch i { s.buf i with refcnt := (s.buf i).refcnt + 1 } ⟨rfl, rfl, rfl, rfl⟩
  exact hset.goto ht nofun (fun _ _ => ⟨nofun, nofun⟩) nofun

lemma data_miss (hk : k.1 < 2) (ht : s.phase t = .out) (hnone : s.cached k = none) (hi : (s.buf i).unused) :
    Data (insert i A) mem ((s.set i { s.buf i with
      block := k, valid := false, dirty := false, refcnt := 1 }).goto t (.waiting i k)) := by
  have hrec := h.data.recycle hk (h.table.cached_eq_none hnone) (h.users.not_used hi.1) hi.2
    (b := { s.buf i with block := k, valid := false, dirty := false, refcnt := 1 }) rfl rfl rfl
  exact hrec.goto ht nofun (fun _ _ => ⟨nofun, nofun⟩) nofun

lemma returned (ht : s.phase t = q) (ha : q.asked = some (i, k))
    (hh : q.holder = some i) (hv : (s.buf i).valid = true) : (s.buf i).data = mem k := by
  have hno : q ≠ .holding i false := by
    rintro rfl
    cases ha
  have hchanged := h.not_changed ht hh hno
  subst ht
  rw [h.data.data i (h.table.used t i (Phase.index_of_asked ha)) hchanged hv, h.table.asked t i k ha]

lemma data_hold (ht : s.phase t = q) (hh : q.holder = some i)
    (hno : q ≠ .holding i false) (hv : (s.buf i).valid = true)
    (hq : i ∉ s.idequeue) : Data A mem (s.goto t (.holding i true)) := by
  refine h.data.goto ht ?_ ?_ ?_
  · rintro j stored ⟨⟩
    exact hv
  · intro j hj
    refine ⟨?_, ?_⟩
    · rintro rfl
      cases hh
      exact hq hj
    · rintro k rfl
      cases hh
      exact hq hj
  · rintro j _ rfl
    cases hh
    exact absurd rfl hno

omit [DecidableEq τ] in
lemma finished_not_queued (hf : finished (s.buf i)) : i ∉ s.idequeue := by
  intro hin
  obtain ⟨t, ⟨-, hd⟩ | ⟨k, -, hv⟩⟩ := h.data.request i hin
  · rw [hf.2] at hd
    cases hd
  · rw [hf.1] at hv
    cases hv

lemma data_submit (ht : s.phase t = .locked i k) (hv : (s.buf i).valid = false) : Data A mem ({ s with
      idequeue := s.idequeue ++ [i]
      disk := if s.idequeue = [] then started s i else s.disk }.goto t (.reading i k)) := by
  have hd : (s.buf i).dirty = false := by
    by_contra hd
    have := h.data.flags i (by simpa using hd)
    rw [hv] at this
    cases this
  have hq := h.not_queued ht rfl nofun nofun
  have hdisk : (if s.idequeue = [] then started s i else s.disk) = s.disk := by
    simp [started, hd]
  have hgoto : Data A mem (s.goto t (.reading i k)) :=
    h.data.goto ht nofun (fun _ _ => ⟨nofun, nofun⟩) nofun
  have happ := hgoto.append hq ⟨t, .inr ⟨k, by simp [State.goto], hv⟩⟩ fun _ hdirty => by
    rw [show (s.buf i).dirty = true from hdirty] at hd
    cases hd
  rw [hdisk]
  exact happ

section

variable {stored : Bool} (ht : s.phase t = .holding i stored)
include ht

lemma data_modify (v : δ) :
    Data A mem ((s.set i { s.buf i with data := v }).goto t (.holding i false)) := by
  have hA : i ∈ A := h.table.used t i (by rw [ht]; rfl)
  have hv := h.data.holding t i stored ht
  have hq := h.not_queued ht rfl nofun nofun
  have hgoto : Data A mem (s.goto t (.holding i false)) := by
    refine h.data.goto ht ?_ (fun _ _ => ⟨nofun, nofun⟩) ?_
    · rintro j stored' ⟨⟩
      exact hv
    · rintro j _ ⟨⟩ hne
      exact absurd rfl hne
  refine hgoto.set hA hq rfl hv (h.data.clean i hA) ?_
  intro hno
  exact absurd (by simp [State.goto]) (hno t)

lemma data_dirty :
    Data A (update mem (s.buf i).block (s.buf i).data) (s.set i { s.buf i with dirty := true }) := by
  have hA : i ∈ A := h.table.used t i (by rw [ht]; rfl)
  have hv := h.data.holding t i stored ht
  have hq := h.not_queued ht rfl nofun nofun
  have hset : Data A mem (s.set i { s.buf i with dirty := true }) := by
    refine h.data.set hA hq rfl hv nofun fun hno => ?_
    exact h.data.data i hA hno hv
  have htable : Table A (s.set i { s.buf i with dirty := true }) :=
    h.table.congr rfl rfl (sameBlocks_set rfl)
  have := hset.store htable hA (by simp [State.set])
  simpa [State.set] using this

lemma data_stored
    (hp : ∀ j stored, p = .holding j stored → j = i) : Data A (update mem (s.buf i).block (s.buf i).data)
      ((s.set i { s.buf i with dirty := true }).goto t p) := by
  refine (h.data_dirty ht).goto ht ?_ (fun _ _ => ⟨nofun, nofun⟩) ?_
  · intro j stored' hj
    obtain rfl := hp j stored' hj
    simpa [State.set] using h.data.holding t j stored ht
  · rintro j _ ⟨⟩ _ _
    simp [State.set]

lemma data_write :
    Data A (update mem (s.buf i).block (s.buf i).data) ({ s.set i { s.buf i with dirty := true } with
        idequeue := s.idequeue ++ [i]
        disk := if s.idequeue = [] then started (s.set i { s.buf i with dirty := true }) i
          else s.disk }.goto t (.writing i)) := by
  have hA : i ∈ A := h.table.used t i (by rw [ht]; rfl)
  have hq := h.not_queued ht rfl nofun nofun
  have hgoto : Data A (update mem (s.buf i).block (s.buf i).data)
      ((s.set i { s.buf i with dirty := true }).goto t (.writing i)) := h.data_stored ht nofun
  have htable : Table A ((s.set i { s.buf i with dirty := true }).goto t (.writing i)) :=
    h.table.move ht rfl rfl (sameBlocks_set rfl) (fun _ => id) nofun
  have hreq : ∃ u, ((s.set i { s.buf i with dirty := true }).goto t (.writing i)).phase u =
      .writing i ∧ (((s.set i { s.buf i with dirty := true }).goto t (.writing i)).buf i).dirty =
        true := ⟨t, by simp [State.goto], by simp [State.goto, State.set]⟩
  obtain ⟨u, hu⟩ := hreq
  by_cases hempty : s.idequeue = []
  · have hstart := hgoto.start htable hA
    have happ := hstart.append hq ⟨u, .inl hu⟩ fun _ _ => by
      simp [started, State.goto, State.set]
    rw [if_pos hempty]
    exact happ
  · rw [if_neg hempty]
    exact hgoto.append hq ⟨u, .inl hu⟩ fun he => absurd he hempty

end

lemma data_release (ht : s.phase t = .holding i true) :
    Data A mem ((s.set i { s.buf i with locked := false }).goto t (.releasing i)) := by
  have hset := h.data.touch i { s.buf i with locked := false } ⟨rfl, rfl, rfl, rfl⟩
  exact hset.goto ht nofun (fun _ _ => ⟨nofun, nofun⟩) nofun

lemma data_unref (ht : s.phase t = .releasing i) : Data A mem (unref t i s) := by
  have hset := h.data.touch i (s.buf i).unref ⟨rfl, rfl, rfl, rfl⟩
  have hgoto : Data A mem ((s.set i (s.buf i).unref).goto t .out) :=
    hset.goto ht nofun (fun _ _ => ⟨nofun, nofun⟩) nofun
  unfold unref
  dsimp only
  split
  · exact hgoto.congr (fun j => ⟨rfl, rfl, rfl, rfl⟩) rfl rfl rfl
  · exact hgoto

lemma data_served {rest : List Index} (hq : s.idequeue = i :: rest) : Data A mem { s.set i (served s i) with
      idequeue := rest
      disk := restarted (s.set i (served s i)) rest } := by
  have hin : i ∈ s.idequeue := by simp [hq]
  have hA := h.queued_mem hin
  have hnodup := h.data.queue
  rw [hq, nodup_cons] at hnodup
  have hwritten : (s.buf i).dirty = true → (s.buf i).data = mem (s.buf i).block :=
    fun hd => h.data.data i hA (h.queued_unchanged hin) (h.data.flags i hd)
  have hdisk : s.disk (sector (s.buf i).block) = mem (s.buf i).block := by
    by_cases hd : (s.buf i).dirty = true
    · rw [h.data.head i rest hq hd, hwritten hd]
    · exact h.data.clean i hA (by simpa using hd)
  have hdata : (served s i).data = mem (s.buf i).block := by
    by_cases hd : (s.buf i).dirty = true
    · simpa [served, hd] using hwritten hd
    · simpa [served, hd] using hdisk
  cases rest with
  | nil => exact h.data.pop hA hq rfl rfl hdata hdisk nofun
  | cons j l =>
    have hji : j ≠ i := by
      rintro rfl
      simp at hnodup
    have hjA := h.queued_mem (i := j) (by simp [hq])
    have hsame : started (s.set i (served s i)) j = started s j := by
      simp [started, State.set, update_of_ne hji]
    have hstart := h.data.start h.table hjA
    have hdisk' : started s j (sector (s.buf i).block) = mem (s.buf i).block := by
      unfold started
      split
      · rw [update_of_ne (sector_ne (h.table.dev i) (h.table.dev j) fun he =>
          hji (h.table.unique i hA j hjA he).symm), hdisk]
      · exact hdisk
    have hpop := hstart.pop (b := served s i) hA hq rfl rfl hdata hdisk' (by
      rintro j' l' ⟨⟩ hd
      simp [started, show (s.buf j).dirty = true from hd])
    change Data A mem { s.set i (served s i) with idequeue := _, disk := started _ j }
    rw [hsame]
    exact hpop

end Coherent

/-- The loads and stores of the blocks. -/
def accesses (es : List (Event δ)) : List (Access Key δ) :=
  es.filterMap fun e => match e with
    | .access x => some x
    | .recycled _ _ _ | .got _ _ => none

/-- A buffer that was changed is stored before it is released. -/
def Disciplined (s : State τ δ) (a : Action τ δ) : Prop :=
  OnDisk a ∧ ∀ t i, a = .brelse t → s.phase t ≠ .holding i false

section

variable (h : Coherent A mem s) (ha : Disciplined s a) (hd : Does .DEFAULT s a s' es)
include h ha hd

lemma Coherent.data_does :
    Data (A ∪ got es) (contents mem (accesses es)) s' ∧ Legal mem (accesses es) := by
  cases hd with
  | hit t k i ht hi => exact ⟨by simpa [Set.union_comm, accesses] using h.data_hit ht hi, Legal.nil⟩
  | miss t k i u ht hnone hv =>
    obtain ⟨hunused, rfl⟩ := victim_default hv
    have hmiss := h.data_miss (ha.1 t k rfl) ht hnone hunused
    exact ⟨by simpa [Set.union_comm, accesses] using hmiss, Legal.nil⟩
  | acquire t i k ht hfree =>
    refine ⟨?_, Legal.nil⟩
    have hset := h.data.touch i { s.buf i with locked := true } ⟨rfl, rfl, rfl, rfl⟩
    have hgoto := hset.goto (p := .locked i k) ht nofun (fun _ _ => ⟨nofun, nofun⟩) nofun
    simpa [accesses] using hgoto
  | ready t i k ht hvalid =>
    refine ⟨?_, Legal.load (h.returned ht rfl rfl hvalid)⟩
    have hq := h.not_queued ht rfl nofun nofun
    simpa [accesses] using h.data_hold ht rfl nofun hvalid hq
  | submit t i k ht hvalid => exact ⟨by simpa [accesses] using h.data_submit ht hvalid, Legal.nil⟩
  | read t i k ht hf =>
    refine ⟨?_, Legal.load (h.returned ht rfl rfl hf.1)⟩
    simpa [accesses] using h.data_hold ht rfl nofun hf.1 (h.finished_not_queued hf)
  | wrote t i ht hf =>
    refine ⟨?_, Legal.nil⟩
    simpa [accesses] using h.data_hold ht rfl nofun hf.1 (h.finished_not_queued hf)
  | modify t i stored v ht => exact ⟨by simpa [accesses] using h.data_modify ht v, Legal.nil⟩
  | write t i stored ht => exact ⟨by simpa [accesses] using h.data_write ht, Legal.store⟩
  | logged t i stored ht => exact ⟨by simpa [accesses] using h.data_stored ht (by rintro j _ ⟨⟩; rfl), Legal.store⟩
  | release t i stored ht =>
    refine ⟨?_, Legal.nil⟩
    cases stored with
    | false => exact absurd ht (ha.2 t i rfl)
    | true => simpa [accesses] using h.data_release ht
  | unref t i ht => exact ⟨by simpa [accesses] using h.data_unref ht, Legal.nil⟩
  | spurious hq => exact ⟨by simpa [accesses] using h.data, Legal.nil⟩
  | served i rest hq => exact ⟨by simpa [accesses] using h.data_served hq, Legal.nil⟩

lemma Coherent.does :
    Coherent (A ∪ got es) (contents mem (accesses es)) s' ∧ Legal mem (accesses es) := by
  obtain ⟨hdata, hlegal⟩ := h.data_does ha hd
  exact ⟨⟨h.users.does hd, h.table.does h.users ha.1 hd, hdata⟩, hlegal⟩

end

variable {disk : Key → δ} {havedisk1 : Bool} {garbage : δ}

omit [DecidableEq τ] in
lemma Coherent.binit : Coherent ∅ (fun k => disk (sector k))
    (Paging.binit disk havedisk1 garbage : State τ δ) := by
  refine ⟨⟨fun i => ?_, fun i => ?_⟩, ⟨?_, ?_, ?_, ?_, ?_, ?_, ?_, ?_⟩, ?_⟩
  · simp [Paging.users, Paging.binit, Phase.index]
  · simp [holders, Paging.binit, Phase.holder]
  · exact nodup_reverse.mpr (nodup_finRange NBUF)
  · intro i
    exact mem_reverse.mpr (mem_finRange i)
  · rintro t i ⟨⟩
  · rintro t i k ⟨⟩
  · intro i _
    rfl
  · exact pairwise_of_forall fun _ _ _ hj => absurd hj (Set.notMem_empty _)
  · intro i hi
    exact absurd hi (Set.notMem_empty i)
  · intro i
    exact Nat.two_pos
  · refine ⟨fun _ _ => rfl, ?_, ?_, nodup_nil, ?_, ?_, ?_, ?_, ?_⟩
    · rintro i ⟨⟩
    · rintro t i stored ⟨⟩
    · rintro i ⟨⟩
    · rintro i rest ⟨⟩
    · intro i hi
      exact absurd hi (Set.notMem_empty i)
    · intro i hi
      exact absurd hi (Set.notMem_empty i)
    · intro k _ _
      rfl

/-- In every disciplined run under the default policy the buffers have different blocks, every `bread`
returns what was stored last, and nobody shares a lock. -/
theorem blocks_coherent
    (h : Run (step .DEFAULT) Disciplined (Paging.binit disk havedisk1 garbage : State τ δ) es s) :
    (∀ i ∈ got es, ∀ j ∈ got es, (s.buf i).block = (s.buf j).block → i = j) ∧
      Legal (fun k => disk (sector k)) (accesses es) ∧
      ∀ t u i, (s.phase t).holder = some i → (s.phase u).holder = some i → t = u := by
  have hrun := h.history (I := fun es s => Coherent (got es)
    (contents (fun k => disk (sector k)) (accesses es)) s ∧
      Legal (fun k => disk (sector k)) (accesses es)) ?_ ?_
  · exact ⟨hrun.1.table.unique, hrun.2, fun t u i ht hu => hrun.1.users.unique ht hu⟩
  · intro es s a s' es' hi ha hs
    obtain ⟨hc, hl⟩ := hi.1.does ha (step_does hs)
    have happ : accesses (es ++ es') = accesses es ++ accesses es' := filterMap_append
    rw [got_append, happ, contents_append]
    exact ⟨hc, hi.2.append hl⟩
  · refine ⟨?_, Legal.nil⟩
    rw [got_nil]
    exact Coherent.binit

instance (s : State (Fin 2) ℕ) (a : Action (Fin 2) ℕ) : Decidable (Disciplined s a) := by
  cases a with
  | bget t k =>
    exact decidable_of_iff (k.1 < 2) ⟨fun h => ⟨by rintro t k ⟨⟩; exact h, by rintro t i ⟨⟩⟩,
      fun h => h.1 t k rfl⟩
  | brelse t =>
    exact decidable_of_iff (∀ i, s.phase t ≠ .holding i false)
      ⟨fun h => ⟨by rintro t k ⟨⟩, by rintro t i ⟨⟩; exact h i⟩, fun h i => h.2 t i rfl⟩
  | _ => exact isTrue ⟨by rintro t k ⟨⟩, by rintro t i ⟨⟩⟩

/-- The process 0 reads a block, changes it, logs it and releases it, and the process 1 reads it. -/
theorem logged_read : ∃ s : State (Fin 2) ℕ, Run (step .DEFAULT) Disciplined
    (Paging.binit (fun _ => 3) true 0) [.recycled 0 0 false, .got 0 (1, 5), .access (.load (1, 5) 3),
      .access (.store (1, 5) 7), .got 0 (1, 5), .access (.load (1, 5) 7)] s ∧
    Legal (fun _ => 3) [.load (1, 5) 3, .store (1, 5) 7, .load (1, 5) 7] := by
  have hrun : Run (step .DEFAULT) Disciplined (Paging.binit (fun _ => 3) true 0 : State (Fin 2) ℕ)
      [.recycled 0 0 false, .got 0 (1, 5), .access (.load (1, 5) 3), .access (.store (1, 5) 7),
        .got 0 (1, 5), .access (.load (1, 5) 7)] _ :=
    Run.of_allowed [.bget 0 (1, 5), .acquiresleep 0, .bread 0, .ideintr, .wake 0, .modify 0 7,
      .logWrite 0, .brelse 0, .bget 1 (1, 5), .acquiresleep 1, .unref 0, .bread 1] rfl
      (by decide +kernel)
  exact ⟨_, hrun, (blocks_coherent hrun).2.1⟩

end LearnXv6.Paging
