import Mathlib
import LearnXv6.Links.Cache

/-! Looking up names: a walk along a path changes nothing on the disk, and does not leave the
directories that have links. -/
namespace LearnXv6.Links
open Store Icache List Function

variable {τ : Type} {s s' : State τ} {h b : Index → ℕ} {i dp ip : Index} {n inum : ℕ} {t : τ}
  {name : Name} {d : Dinode}

/-- An entry of the cache that is locked: for the inode `n`, with what is on the disk. -/
structure Locked (h : Index → ℕ) (s : State τ) (i : Index) (n : ℕ) : Prop where
  pos : 0 < h i
  key : (s.inode i).key = (ROOTDEV, n)
  valid : (s.inode i).valid = true

namespace Locked

variable (hl : Locked h s i n)
include hl

lemma frame (hf : Frame h s s') : Locked h s' i n :=
  ⟨hl.pos, (hf.key i hl.pos).trans hl.key, hf.valid i hl.pos hl.valid⟩

lemma type (hc : Cached h s) : (s.inode i).type = (inodes s n).type := by
  rw [(hc.valid i hl.pos hl.valid).1, dinode_eq hl.key]

lemma nlink (hc : Cached h s) : (s.inode i).nlink = (inodes s n).nlink := by
  rw [(hc.valid i hl.pos hl.valid).2.1, dinode_eq hl.key]

lemma ne_free (hc : Cached h s) : (inodes s n).type ≠ .free := by
  rw [← dinode_eq hl.key]
  exact (hc.valid i hl.pos hl.valid).2.2

lemma add {j : Index} : Locked (h + one j) s i n :=
  ⟨pos_add hl.pos, hl.key, hl.valid⟩

end Locked

lemma ilock_locked (hc : Cached h s) : Ensures (ilock t i s) fun s' =>
    Cached h s' ∧ Moved h s s' ∧ Locked h s' i (s.inode i).key.2 := by
  intro s' hs
  obtain ⟨hpos, hc', hm, hv⟩ := ilock_spec hc s' hs
  exact ⟨hc', hm, hpos, (hm.key i hpos).trans (hc.key hpos), hv⟩

lemma ilock_fine (hs : Fine h s) : Ensures (ilock t i s) fun s' =>
    Fine h s' ∧ Moved h s s' ∧ Locked h s' i (s.inode i).key.2 := by
  intro s' hs'
  obtain ⟨hc, hm, hl⟩ := ilock_locked hs.cached s' hs'
  exact ⟨hs.moved hc hm fun _ => id, hm, hl⟩

lemma Locked.kept (hl : Locked h s i n) (hk : Kept h s) (hf : Frame h s s')
    (hin : inodes s' = update (inodes s) n d) : Kept h s' := by
  intro m hm h0
  by_cases hmn : m = n
  · subst hmn
    have hl' := hl.frame hf
    exact ⟨i, hl'.pos, hl'.key, hl'.valid⟩
  · rw [hin, update_of_ne hmn] at hm h0
    obtain ⟨j, hj, hjk, hjv⟩ := hk m hm h0
    exact ⟨j, hj, (hf.key j hj).trans hjk, hf.valid j hj hjv⟩

lemma setNlink_spec (hc : Cached h s) (hl : Locked h s i n) {v : ℤ} (hbmod : v.bmod (2 ^ 16) = v) :
    Cached h (setNlink i v s) ∧ Frame h s (setNlink i v s) ∧
      inodes (setNlink i v s) = update (inodes s) n { inodes s n with nlink := v } := by
  obtain ⟨hi, hkey, hv⟩ := hl
  obtain ⟨htype, -, hne⟩ := hc.valid i hi hv
  have hset : setNlink i v s = (s.set i { s.inode i with nlink := v }).setDinode i
      { inodes s n with nlink := v } := by
    simp only [setNlink, iupdate, hbmod, State.set_inode_self, htype, dinode_eq hkey]
    rw [dinode_eq (n := n) (by rw [State.set_inode_self]; exact hkey)]
    rfl
  rw [hset]
  refine ⟨hc.setDinode hi rfl (fun _ _ => rfl) (hc.ref i) fun _ _ => ?_,
    Frame.set rfl (fun _ => rfl) fun _ hv => hv, ?_⟩
  · rw [htype, dinode_eq hkey]
    exact ⟨rfl, rfl, dinode_eq hkey ▸ hne⟩
  · rw [inodes_setDinode (n := n) (by rw [State.set_inode_self]; exact hkey)]
    rfl

section

variable [DecidableEq τ]

lemma iunlockput_keep (hc : Cached (h + one i) s) (hk : Kept h s) :
    Ensures (iunlockput t i s) fun s' => Cached h s' ∧ Moved h s s' := by
  refine (iunlock_spec hc).bind fun u ⟨hcu, hmu⟩ => ?_
  intro s' hs
  obtain ⟨hc', hm⟩ := iput_keep hcu (hk.moved hmu.of_add) s' hs
  exact ⟨hc', hmu.of_add.trans hm⟩

lemma iunlockput_fine (hs : Fine (h + one i) s) : Ensures (iunlockput t i s) (Fine h) :=
  (iunlock_spec hs.cached).bind fun _ ⟨hcu, hmu⟩ => iput_fine (hs.moved hcu hmu fun _ => id)

end

structure Looked (h : Index → ℕ) (n : ℕ) (name : Name) (s : State τ)
    (r : Option (Index × ℕ) × State τ) : Prop where
  dir : (inodes s n).type = .T_DIR
  moved : Moved h s r.2
  none : r.1 = none → (inodes s n).find name = none ∧ Cached h r.2
  some : ∀ ip off, r.1 = some (ip, off) → Cached (h + one ip) r.2 ∧
    ∃ m, (inodes s n).find name = some (off, m) ∧ (r.2.inode ip).key = (ROOTDEV, m)

lemma dirlookup_spec (hc : Cached h s) (hl : Locked h s dp n) :
    Ensures (dirlookup dp name s) (Looked h n name s) := by
  have htype := hl.type hc
  unfold dirlookup
  rw [dinode_eq hl.key, hl.key]
  split
  · exact Ensures.error
  · rename_i hdir
    have hdir := htype ▸ not_not.mp hdir
    split
    · rename_i hfind
      exact Ensures.ok ⟨hdir, Moved.refl, fun _ => ⟨hfind, hc⟩, fun _ _ hr => by cases hr⟩
    · rename_i off m hfind
      refine (iget_spec hc).bind fun ⟨ip, u⟩ ⟨hcu, hmu, hku⟩ => ?_
      refine Ensures.ok ⟨hdir, hmu, fun hr => (by cases hr), fun ip' off' hr => ?_⟩
      cases hr
      exact ⟨hcu, m, hfind, hku⟩

structure Linked (h : Index → ℕ) (n : ℕ) (name : Name) (inum : ℕ) (s s' : State τ) : Prop where
  cached : Cached h s'
  frame : Frame h s s'
  dir : (inodes s n).type = .T_DIR
  find : (inodes s n).find name = none
  inodes : inodes s' =
    update (inodes s) n ((inodes s n).write (inodes s n).slot ⟨name, inum⟩)

lemma writeEntry_spec {off : ℕ} {de : Dirent} (hc : Cached h s) (hi : 0 < h dp)
    (hkey : (s.inode dp).key = (ROOTDEV, n)) : Ensures (writeEntry dp off de s) fun s' =>
    Cached h s' ∧ Frame h s s' ∧ inodes s' = update (inodes s) n ((inodes s n).write off de) := by
  unfold writeEntry
  split
  · exact Ensures.error
  · have hself : s.set dp (s.inode dp) = s := by simp [State.set]
    have hc' : Cached h ((s.set dp (s.inode dp)).setDinode dp ((s.dinode dp).write off de)) :=
      hc.setDinode hi rfl (fun _ _ => rfl) (hc.ref dp) (hc.valid dp)
    rw [hself] at hc'
    refine Ensures.ok ⟨hc', ⟨fun _ _ => rfl, fun _ _ => id⟩, ?_⟩
    rw [inodes_setDinode hkey, dinode_eq hkey]

lemma dirlink_spec (hc : Cached h s) (hk : Kept h s) (hdp : Locked h s dp n) :
    Ensures (dirlink t dp name inum s) fun r =>
      (r.1 = false → Cached h r.2 ∧ Moved h s r.2) ∧ (r.1 = true → Linked h n name inum s r.2) := by
  refine (dirlookup_spec hc hdp).bind fun ⟨o, u⟩ hl => ?_
  match o with
  | some (ip, off) =>
    refine (iput_keep (hl.some ip off rfl).1 (hk.moved hl.moved)).bind fun s' ⟨hc', hm⟩ => ?_
    exact Ensures.ok ⟨fun _ => ⟨hc', hl.moved.trans hm⟩, fun hr => by cases hr⟩
  | none =>
    have hin := hl.moved.inodes
    obtain ⟨hfind, hcu⟩ := hl.none rfl
    have hku := (hl.moved.key dp hdp.pos).trans hdp.key
    refine (writeEntry_spec hcu hdp.pos hku).bind fun s' ⟨hc', hf', hin'⟩ => ?_
    refine Ensures.ok ⟨fun hr => (by cases hr), fun _ => ⟨hc', hl.moved.toFrame.trans hf', hl.dir, hfind, ?_⟩⟩
    rw [hin', dinode_eq hku, hin]

/-- The entries of directories with links name inodes with links. -/
def Closed (D : ℕ → Dinode) : Prop :=
  ∀ n, Live (D n) → ∀ e ∈ (D n).entries, e.inum ≠ 0 → 0 < (D e.inum).nlink

lemma Tree.closed {D : ℕ → Dinode} (h : Tree D) : Closed D :=
  fun _ hn _ he h0 => (h.linked hn he h0).2

lemma Closed.find {D : ℕ → Dinode} (hD : Closed D) {off m : ℕ} (hdir : (D n).type = .T_DIR)
    (hn : 0 < (D n).nlink) (hf : (D n).find name = some (off, m)) : 0 < (D m).nlink := by
  obtain ⟨he, h0⟩ := find_eq_some hf
  exact hD n ⟨hdir, hn⟩ ⟨name, m⟩ (mem_of_getElem? he) h0

/-- What `namex` returns: nothing on the disk changes, and from a directory with links it comes to an
inode with links. -/
structure Walked (b : Index → ℕ) (linked : Prop) (s : State τ) (r : Option (Index × Name) × State τ) :
    Prop where
  moved : Moved b s r.2
  none : r.1 = none → Cached b r.2
  some : ∀ i name, r.1 = some (i, name) → Cached (b + one i) r.2 ∧
    (linked → 0 < (inodes s (r.2.inode i).key.2).nlink)

section

variable {linked : Prop} {r : Option (Index × Name) × State τ}

lemma Walked.fine_none (hw : Walked b linked s r) (hs : Fine b s) (hr : r.1 = .none) : Fine b r.2 :=
  hs.moved (hw.none hr) hw.moved fun _ => id

lemma Walked.fine (hw : Walked b linked s r) (hs : Fine b s) (hr : r.1 = .some (i, name)) :
    Fine (b + one i) r.2 := hs.moved (hw.some i name hr).1 hw.moved fun _ => pos_add

lemma Walked.after (hm : Moved b s s') (hw : Walked b linked s' r) : Walked b linked s r := by
  refine ⟨hm.trans hw.moved, hw.none, fun i nm hi => ?_⟩
  obtain ⟨h1, h2⟩ := hw.some i nm hi
  rw [hm.inodes] at h2
  exact ⟨h1, h2⟩

end

variable [DecidableEq τ]

lemma walk_spec {parent : Bool} {path : Path} {linked : Prop} (hc : Cached (b + one ip) s)
    (hk : Kept b s) (hlink : linked → Closed (inodes s) ∧ 0 < (inodes s (s.inode ip).key.2).nlink) :
    Ensures (walk t parent path name ip s) (Walked b linked s) := by
  induction hlen : path.length using Nat.strong_induction_on generalizing path name ip s with
  | _ len ih =>
    subst hlen
    rw [walk]
    split
    · split
      · refine (iput_keep hc hk).bind ?_
        rintro s' ⟨hc', hm⟩
        exact Ensures.ok ⟨hm, fun _ => hc', fun _ _ hr => by cases hr⟩
      · refine Ensures.ok ⟨Moved.refl, fun hr => (by cases hr), fun i nm hr => ?_⟩
        cases hr
        exact ⟨hc, fun hl => (hlink hl).2⟩
    · rename_i path' name' hskip
      refine (ilock_spec hc).bind ?_
      rintro u ⟨hpos, hcu, hmu, hvu⟩
      have hkeyu := hmu.key ip hpos
      have hku := hk.moved hmu.of_add
      split
      · refine (iunlockput_keep hcu hku).bind ?_
        rintro s' ⟨hc', hm⟩
        exact Ensures.ok ⟨hmu.of_add.trans hm, fun _ => hc', fun _ _ hr => by cases hr⟩
      · split
        · refine (iunlock_spec hcu).bind ?_
          rintro s' ⟨hc', hm⟩
          refine Ensures.ok ⟨(hmu.trans hm).of_add, fun hr => (by cases hr), fun i nm hr => ?_⟩
          cases hr
          refine ⟨hc', fun hl => ?_⟩
          simp only
          rw [(hmu.trans hm).key ip hpos]
          exact (hlink hl).2
        · refine (dirlookup_spec hcu ⟨hpos, hcu.key hpos, hvu⟩).bind ?_
          rintro ⟨o, v⟩ hl
          rcases o with _ | ⟨next, off⟩
          · have hcv := (hl.none rfl).2
            refine (iunlockput_keep hcv (hku.moved hl.moved.of_add)).bind ?_
            rintro s' ⟨hc', hm⟩
            exact Ensures.ok ⟨(hmu.trans hl.moved).of_add.trans hm, fun _ => hc',
              fun _ _ hr => by cases hr⟩
          · obtain ⟨hcv, m, hfind, hkm⟩ := hl.some next off rfl
            have hmv := (hmu.trans hl.moved).of_add
            rw [add_right_comm] at hcv
            refine (iunlockput_keep hcv (hk.moved hmv).add).bind ?_
            rintro w ⟨hcw, hmw⟩
            have hin := hmw.inodes.trans (hl.moved.inodes.trans hmu.inodes)
            have hmw' := hmv.trans hmw.of_add
            have hnext : linked → Closed (inodes w) ∧ 0 < (inodes w (w.inode next).key.2).nlink := by
              intro hlk
              rw [hin, hmw.key next pos_add_self]
              simp only at hkm ⊢
              rw [hkm]
              obtain ⟨hclosed, hpos'⟩ := hlink hlk
              refine ⟨hclosed, ?_⟩
              have hdir := hl.dir
              rw [hkeyu, hmu.inodes] at hdir hfind
              exact hclosed.find hdir hpos' hfind
            intro r hr
            exact (ih path'.length (skipelem_lt hskip) hcw (hk.moved hmw') hnext rfl r hr).after hmw'

/-- A walk starts at the root or at the directory of the process. -/
def Starts (s : State τ) (cwd : Index) (path : Path) : Prop :=
  path.head? = some slash ∨ 0 < (inodes s (s.inode cwd).key.2).nlink

/-- The walk starts where links lead to. -/
def Reaches (s : State τ) (cwd : Index) (path : Path) : Prop :=
  Closed (inodes s) ∧ Live (inodes s ROOTINO) ∧ Starts s cwd path

lemma namex_spec {parent : Bool} {path : Path} {cwd : Index} (hc : Cached h s) (hk : Kept h s)
    (hcwd : 0 < h cwd) : Ensures (namex t cwd path parent s) (Walked h (Reaches s cwd path) s) := by
  unfold namex
  split
  · refine (iget_spec hc).bind fun ⟨ip, u⟩ ⟨hcu, hmu, hku⟩ => ?_
    have hstart : Reaches s cwd path → Closed (inodes u) ∧ 0 < (inodes u (u.inode ip).key.2).nlink := by
      simp only at hku
      rw [hmu.inodes, hku]
      exact fun hl => ⟨hl.1, hl.2.1.2⟩
    intro r hr
    exact (walk_spec hcu (hk.moved hmu) hstart r hr).after hmu
  · rename_i habs
    obtain ⟨hcu, hmu⟩ := idup_spec hc hcwd
    have hstart : Reaches s cwd path → Closed (inodes (idup cwd s)) ∧
        0 < (inodes (idup cwd s) ((idup cwd s).inode cwd).key.2).nlink := by
      rw [hmu.inodes, hmu.key cwd hcwd]
      exact fun hl => ⟨hl.1, hl.2.2.resolve_left habs⟩
    intro r hr
    exact (walk_spec hcu (hk.moved hmu) hstart r hr).after hmu

/-! The elements of a path. -/

/-- What `skipelem` returns, called again and again until it returns none. -/
def elems (path : Path) : List (Path × Name) :=
  match _h : skipelem path with
  | none => []
  | some (rest, name) => (rest, name) :: elems rest
termination_by path.length
decreasing_by exact skipelem_lt _h

/-- The parts of a path between slashes, without the empty ones. -/
def components (path : Path) : List Path := (path.splitOnP (· = slash)).filter (· ≠ [])

lemma components_slash (path : Path) : components (slash :: path) = components path := by
  simp [components, splitOnP_cons_eq_if_modifyHead]

lemma components_dropWhile (path : Path) :
    components (path.dropWhile (· = slash)) = components path := by
  induction path with
  | nil => rfl
  | cons b path ih =>
    by_cases hb : b = slash
    · rw [dropWhile_cons_of_pos (by simpa using hb), ih, hb, components_slash]
    · rw [dropWhile_cons_of_neg (by simpa using hb)]

/-- A component ends at the next slash or with the path. -/
lemma components_word {w r : Path} (hne : w ≠ []) (hw : ∀ x ∈ w, decide (x = slash) = false)
    (hr : r = [] ∨ ∃ l, r = slash :: l) : components (w ++ r) = w :: components r := by
  rcases hr with rfl | ⟨l, rfl⟩
  · simp [components, splitOnP_eq_singleton hw, hne]
  · rw [components_slash, components, splitOnP_append_cons_of_forall_mem hw slash (by simp)]
    simp [components, hne]

lemma components_scan {b : UInt8} {l : Path} (hb : b ≠ slash) : components (b :: l) =
    (b :: l).takeWhile (· ≠ slash) :: components ((b :: l).dropWhile (· ≠ slash)) := by
  rw [← components_word, takeWhile_append_dropWhile]
  · simp [hb]
  · intro x hx
    simpa using all_eq_true.mp all_takeWhile x hx
  · cases hr : (b :: l).dropWhile (· ≠ slash) with
    | nil => exact .inl rfl
    | cons c r =>
      have hc := not_of_dropWhile hr
      exact .inr ⟨r, by simpa using hc⟩

lemma skipelem_none {path : Path} (h : skipelem path = none) : path.dropWhile (· = slash) = [] := by
  by_contra hs
  simp [skipelem, hs] at h

lemma skipelem_some {path rest : Path} {name : Name} (h : skipelem path = some (rest, name)) :
    (∃ w, components path = w :: components rest ∧ name = w.take DIRSIZ) ∧
      rest.dropWhile (· = slash) = rest := by
  obtain ⟨hs, h⟩ := Option.ite_none_left_eq_some.mp h
  cases h
  refine ⟨⟨_, ?_, rfl⟩, dropWhile_eq_self_iff.mpr (dropWhile_get_zero_not _ _)⟩
  rw [← components_dropWhile path, components_dropWhile (dropWhile _ _)]
  cases hp : path.dropWhile (· = slash) with
  | nil => exact absurd hp hs
  | cons b l =>
    have hb := not_of_dropWhile hp
    exact components_scan (by simpa using hb)

/-- The calls of `skipelem` give the components of the path, and nothing is left of it exactly
after the last one. -/
theorem elems_eq_components (path : Path) :
    (elems path).map Prod.snd = (components path).map (·.take DIRSIZ) ∧
      ∀ l r rest name, elems path = l ++ (rest, name) :: r → (rest = [] ↔ r = []) := by
  induction path using elems.induct with
  | case1 path h =>
    rw [elems, h, ← components_dropWhile, skipelem_none h]
    simp [components]
  | case2 path rest name h ih =>
    obtain ⟨⟨w, hw, rfl⟩, hrest⟩ := skipelem_some h
    have he : elems path = (rest, w.take DIRSIZ) :: elems rest := by rw [elems, h]
    refine ⟨by simp [he, hw, ih.1], ?_⟩
    intro l r rest' name' hl
    rw [he] at hl
    rcases cons_eq_append_iff.mp hl with ⟨rfl, hr⟩ | ⟨l', rfl, hr⟩
    · cases hr
      cases hn : skipelem rest with
      | none =>
        have hnil := hrest.symm.trans (skipelem_none hn)
        rw [elems, hn]
        simp [hnil]
      | some e =>
        have hne : rest ≠ [] := by
          rintro rfl
          cases hn
        rw [elems, hn]
        simp [hne]
    · exact ih.2 _ _ _ _ hr
end LearnXv6.Links
