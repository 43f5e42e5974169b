import LearnXv6.Links.Create
import LearnXv6.Store.Timeline

/-! Runs of the calls of all processes, from the file system that `mkfs` makes. -/
namespace LearnXv6.Links
open Function Store Icache List

section Boot

variable {names : List Name} {n m : ℕ}

lemma countP_zipIdx (l : List Name) (k : ℕ) : ((l.zipIdx k).map fun e => (⟨e.1, e.2 + 2⟩ : Dirent)).countP
    (fun e => e.inum = m) = if k + 2 ≤ m ∧ m < k + 2 + l.length then 1 else 0 := by
  induction l generalizing k with
  | nil => simp
  | cons name l ih =>
    rw [zipIdx_cons, map_cons, countP_cons, ih]
    simp only [length_cons, decide_eq_true_eq]
    split_ifs <;> omega

lemma mkfs_root : mkfs names ROOTINO = ⟨.T_DIR, 1, rootEntries names⟩ := if_pos rfl

lemma mkfs_live (h : Live (mkfs names n)) : n = ROOTINO := by
  by_contra hn
  unfold mkfs at h
  rw [if_neg hn] at h
  split at h
  · cases h.1
  · cases h.1

lemma mkfs_root_live : Live (mkfs names ROOTINO) := by
  rw [mkfs_root]
  exact ⟨rfl, Int.one_pos⟩

lemma mkfs_parent : parent (mkfs names ROOTINO) = ROOTINO := by
  rw [mkfs_root]
  rfl

lemma mkfs_naming (hm : m ≠ 0) :
    naming (mkfs names ROOTINO) m = if 2 ≤ m ∧ m < names.length + 2 then 1 else 0 := by
  rw [mkfs_root]
  unfold naming rest rootEntries
  simp only [cons_append, drop_succ_cons, drop_zero]
  rw [countP_append, countP_zipIdx, countP_replicate]
  simp only [hm.symm, decide_false, Bool.false_eq_true, if_false, Nat.zero_add, Nat.add_zero]
  rw [Nat.add_comm 2]

lemma mkfs_dir (hdots : ∀ name ∈ names, name ≠ dot ∧ name ≠ dotdot) : Dir ROOTINO (mkfs names ROOTINO) := by
  rw [mkfs_root]
  refine ⟨rfl, fun e he h0 => ?_⟩
  unfold rest rootEntries at he
  simp only [cons_append, drop_succ_cons, drop_zero, mem_append, mem_map, mem_replicate] at he
  rcases he with ⟨⟨name, k⟩, hk, rfl⟩ | ⟨-, rfl⟩
  · exact hdots name (fst_mem_of_mem_zipIdx hk)
  · exact absurd rfl h0

lemma total_mkfs {f : Dinode → ℕ} (hf : ∀ d, ¬ Live d → f d = 0) :
    total (Finset.range NINODES) f (mkfs names) = f (mkfs names ROOTINO) := by
  refine Finset.sum_eq_single_of_mem ROOTINO (Finset.mem_range.mpr (by decide)) fun n _ hn => ?_
  exact hf _ fun hl => hn (mkfs_live hl)

lemma links_mkfs (hdots : ∀ name ∈ names, name ≠ dot ∧ name ≠ dotdot) (hm : m ≠ 0) :
    links (mkfs names) m = (if ROOTINO = m then 1 else 0) +
      if 2 ≤ m ∧ m < names.length + 2 then 1 else 0 := by
  unfold links
  rw [total_mkfs fun d hd => gives_of_not_live hd, (mkfs_dir hdots).gives_of_live mkfs_root_live hm,
    mkfs_parent, mkfs_naming hm]

lemma tree_mkfs (hlen : names.length + 2 ≤ NINODES)
    (hdots : ∀ name ∈ names, name ≠ dot ∧ name ≠ dotdot) : Tree (mkfs names) := by
  have hnames : Links.names (mkfs names) ROOTINO = 0 := by
    unfold Links.names
    rw [total_mkfs fun d hd => named_of_not_live hd, named_of_live mkfs_root_live, mkfs_naming (by decide)]
    rfl
  refine ⟨fun n => ?_, mkfs_root_live, mkfs_parent, hnames⟩
  by_cases hroot : n = ROOTINO
  · subst hroot
    refine ⟨fun _ => by decide, fun _ => ?_, fun _ hf => ?_, fun _ => mkfs_dir hdots, fun _ h0 => ?_,
      fun _ hr => absurd rfl hr, fun _ => ?_, fun _ hr => absurd rfl hr⟩
    · rw [links_mkfs hdots (by decide), mkfs_root]
      rfl
    · exact absurd hf mkfs_root_live.ne_free
    · exact absurd h0 mkfs_root_live.2.ne'
    · rw [mkfs_parent]
      exact mkfs_root_live
  · have hdead : ¬ Live (mkfs names n) := fun hl => hroot (mkfs_live hl)
    have hval : mkfs names n = if 2 ≤ n ∧ n < names.length + 2 then ⟨.T_FILE, 1, []⟩ else ⟨.free, 0, []⟩ :=
      if_neg hroot
    refine .of_not_live hdead ?_ ?_ ?_ ?_ <;> rw [hval] <;> by_cases hn : 2 ≤ n ∧ n < names.length + 2
    · exact fun _ => ⟨by omega, by omega⟩
    · rw [if_neg hn]
      exact fun hf => absurd rfl hf
    · intro _
      rw [links_mkfs hdots (by omega), if_pos hn, if_pos hn, if_neg (Ne.symm hroot)]
      rfl
    · rw [if_neg hn]
      exact fun hf => absurd rfl hf
    · rw [if_pos hn]
      exact fun _ hf => by cases hf
    · intro h0 _
      rw [links_mkfs hdots h0, if_neg hn, if_neg (Ne.symm hroot)]
    all_goals simp [hn]

end Boot

section Runs

variable {τ : Type}

/-- An open file has a descriptor. -/
structure Files (s : Sys τ) : Prop where
  unused : ∀ f, (s.file f).ref = 0 → (s.file f).ip = none
  single : ∀ f, (s.file f).ref ≤ 1
  opened : ∀ f, (s.file f).ip ≠ none → ∃ t fd, s.ofile t fd = some f

/-- A process refers to the inode by its directory or by an open file. -/
def Held (s : Sys τ) (n : ℕ) : Prop :=
  ∃ t i, (s.cwd t = i ∨ ∃ fd f, s.ofile t fd = some f ∧ (s.file f).ip = some i) ∧
    (s.kernel.inode i).key = (ROOTDEV, n)

/-- A name is only added along a path that starts in a directory with links, and no count of links is
at its greatest value. -/
def Meets (s : Sys τ) (a : τ × Call) : Prop :=
  match a.2 with
  | .link _ (some path) | .mkdir (some path) =>
    Starts s.kernel (s.cwd a.1) path ∧ ∀ n < NINODES, (inodes s.kernel n).nlink < 2 ^ 15 - 1
  | .openFile (some path) omode => omode &&& O_CREATE ≠ 0 → Starts s.kernel (s.cwd a.1) path
  | _ => True

variable {s s' : Sys τ} {names : List Name} {es : List ℤ} {t : τ} {i ip : Index}

/-- What holds of one file. -/
def Tidy (o : τ → Fin NOFILE → Option (Fin NFILE)) (f : Fin NFILE) (x : File) : Prop :=
  (x.ref = 0 → x.ip = none) ∧ x.ref ≤ 1 ∧ (x.ip ≠ none → ∃ t fd, o t fd = some f)

lemma Files.update {f : Fin NFILE} {x : File} (hfile : s'.file = update s.file f x)
    (hx : Tidy s'.ofile f x) (hother : ∀ g ≠ f, Tidy s'.ofile g (s.file g)) : Files s' := by
  have hall : ∀ g, Tidy s'.ofile g (s'.file g) := by
    rw [hfile]
    exact (forall_update_iff s.file (Tidy s'.ofile)).mpr ⟨hx, hother⟩
  exact ⟨fun g => (hall g).1, fun g => (hall g).2.1, fun g => (hall g).2.2⟩

variable [Fintype τ]

/-- The references that the processes hold to the entry of the cache. -/
def holders (s : Sys τ) (i : Index) : ℕ :=
  places Finset.univ (fun t => some (s.cwd t)) i + places Finset.univ (fun f => (s.file f).ip) i

structure Good (s : Sys τ) : Prop where
  fine : Fine (holders s) s.kernel
  files : Files s

lemma holders_cwd (s : Sys τ) (t : τ) : 0 < holders s (s.cwd t) := by
  have h : 0 < places Finset.univ (fun t => some (s.cwd t)) (s.cwd t) :=
    places_pos (Finset.mem_univ t) rfl
  unfold holders
  omega

lemma Good.held (h : Good s) {n : ℕ} (hn : (inodes s.kernel n).type ≠ .free)
    (h0 : (inodes s.kernel n).nlink = 0) : Held s n := by
  obtain ⟨i, hi, hkey, -⟩ := h.fine.kept n hn h0
  unfold holders at hi
  by_cases hcwd : ∃ t, s.cwd t = i
  · obtain ⟨t, ht⟩ := hcwd
    exact ⟨t, i, .inl ht, hkey⟩
  · have hzero : places Finset.univ (fun t => some (s.cwd t)) i = 0 :=
      places_eq_zero fun t _ ht => hcwd ⟨t, Option.some.inj ht⟩
    have hfile : ∃ f, (s.file f).ip = some i := by
      by_contra hno
      have : places Finset.univ (fun f => (s.file f).ip) i = 0 :=
        places_eq_zero fun f _ hf => hno ⟨f, hf⟩
      omega
    obtain ⟨f, hf⟩ := hfile
    obtain ⟨t, fd, ht⟩ := h.files.opened f (by simp [hf])
    exact ⟨t, i, .inr ⟨fd, f, ht, hf⟩, hkey⟩

lemma good_boot (hlen : names.length + 2 ≤ NINODES)
    (hdots : ∀ name ∈ names, name ≠ dot ∧ name ≠ dotdot) : Good (boot τ names) := by
  have hholders : ∀ i, holders (boot τ names) i = if i = 0 then Fintype.card τ else 0 := by
    intro i
    have hfiles : places Finset.univ (fun f => ((boot τ names).file f).ip) i = 0 :=
      places_none fun _ _ => rfl
    unfold holders
    rw [hfiles]
    simp only [places, boot]
    by_cases hi : i = 0
    · subst hi
      simp
    · simp [hi, Ne.symm hi]
  have hzero : ∀ i, 0 < holders (boot τ names) i → i = 0 := by
    intro i hi
    rw [hholders] at hi
    by_contra h0
    rw [if_neg h0] at hi
    exact absurd hi (Nat.lt_irrefl 0)
  have hin : inodes (boot τ names).kernel = mkfs names := rfl
  have hlink : ∀ n, (mkfs names n).type ≠ .free → (mkfs names n).nlink = 1 := by
    intro n hn
    unfold mkfs at hn ⊢
    split_ifs at hn ⊢
    · rfl
    · rfl
    · exact absurd rfl hn
  refine ⟨⟨⟨fun i => ?_, fun _ _ => rfl, fun i j hi hj _ => ?_, fun _ _ hv => by cases hv⟩, ?_, ?_, ?_⟩,
    fun _ _ => rfl, fun _ => Nat.zero_le _, fun f hf => absurd rfl hf⟩
  · rw [hholders]
    simp only [boot]
    split_ifs
    · rfl
    · rfl
  · rw [hzero i hi, hzero j hj]
  · intro n hn h0
    rw [hin] at hn h0
    rw [hlink n hn] at h0
    cases h0
  · rw [hin]
    exact tree_mkfs hlen hdots
  · intro n
    rw [hin]
    unfold mkfs
    split_ifs
    · change (1 : ℤ) < 2 ^ 15
      decide
    · decide
    · decide

lemma holders_file (s : Sys τ) (k : State τ) (o : τ → Fin NOFILE → Option (Fin NFILE))
    (f : Fin NFILE) (x : File) (i : Index) :
    holders { s with kernel := k, ofile := o, file := update s.file f x } i +
      (if (s.file f).ip = some i then 1 else 0) = holders s i + if x.ip = some i then 1 else 0 := by
  have h := places_update (f := fun f => (s.file f).ip) (a := i) (o := x.ip) (Finset.mem_univ f)
  have hfun : (fun g => (update s.file f x g).ip) =
      update (fun f => (s.file f).ip) f x.ip := comp_update File.ip s.file f x
  simp only [holders, hfun]
  omega

lemma Good.withKernel (h : Good s) {k : State τ} (hk : Fine (holders s) k) :
    Good { s with kernel := k } := ⟨hk, ⟨h.files.unused, h.files.single, h.files.opened⟩⟩

lemma inKernel_good {f : State τ → Except Stop (ℤ × State τ)} (h : Good s)
    (hf : Ensures (f s.kernel) fun r => Fine (holders s) r.2) : Ensures (inKernel f s) fun r => Good r.2 :=
  hf.bind fun _ hr => Ensures.ok (h.withKernel hr)

lemma fileclose_good {f : Fin NFILE} (hs : Fine (holders s) s.kernel)
    (hone : (s.file f).ref ≤ 1) (hother : ∀ g ≠ f, Tidy s.ofile g (s.file g)) :
    Ensures (fileclose t f s) Good := by
  unfold fileclose
  dsimp only
  split
  · exact Ensures.error
  · split
    · omega
    · have hfiles : ∀ k : State τ, Files { s with kernel := k, file := update s.file f ⟨0, none⟩ } := by
        exact fun k => Files.update rfl ⟨fun _ => rfl, Nat.zero_le _, fun hx => absurd rfl hx⟩ hother
      split
      · rename_i hip
        refine Ensures.ok ⟨?_, hfiles s.kernel⟩
        have hsame : holders { s with file := update s.file f ⟨0, none⟩ } = holders s := by
          funext i
          have := holders_file s s.kernel s.ofile f ⟨0, none⟩ i
          simpa [hip] using this
        rw [hsame]
        exact hs
      · rename_i ip hip
        have hless : holders s = holders { s with file := update s.file f ⟨0, none⟩ } + one ip := by
          funext i
          have := holders_file s s.kernel s.ofile f ⟨0, none⟩ i
          simp only [hip, Option.some.injEq, reduceCtorEq, if_false, Nat.add_zero] at this
          rw [Pi.add_apply, one, Pi.single_apply, ← this]
          simp only [eq_comm (a := i)]
        rw [hless] at hs
        exact (iput_fine hs).bind fun k hk => Ensures.ok ⟨hk, hfiles k⟩

variable [DecidableEq τ]

lemma holders_chdir (s : Sys τ) (k : State τ) (t : τ) (ip : Index) :
    holders { s with kernel := k, cwd := update s.cwd t ip } + one (s.cwd t) =
      holders s + one ip := by
  funext i
  have h := places_update (f := fun t => some (s.cwd t)) (a := i) (o := some ip) (Finset.mem_univ t)
  have hfun : (fun u => some (update s.cwd t ip u)) =
      update (fun t => some (s.cwd t)) t (some ip) := comp_update some s.cwd t ip
  simp only [Pi.add_apply, holders, hfun, one, Pi.single_apply]
  simp only [Option.some.injEq] at h
  simp only [eq_comm (a := i)]
  omega

lemma sysChdir_good {path : Path} (h : Good s) : Ensures (sysChdir t path s) fun r => Good r.2 := by
  refine (namex_spec h.fine.cached h.fine.kept (holders_cwd s t)).bind fun ⟨o, k1⟩ hw => ?_
  match o with
  | none => exact Ensures.ok (h.withKernel (hw.fine_none h.fine rfl))
  | some (ip, name) =>
    refine (ilock_fine (hw.fine h.fine rfl)).bind fun k2 ⟨hf2, _⟩ => ?_
    split
    · exact (iunlockput_fine hf2).bind fun k hk => Ensures.ok (h.withKernel hk)
    · refine (iunlock_spec hf2.cached).bind fun k3 ⟨hc3, hm3⟩ => ?_
      have hf3 := hf2.moved hc3 hm3 fun _ => id
      rw [← holders_chdir s k3 t ip] at hf3
      refine (iput_fine hf3).bind fun k4 hf4 => ?_
      exact Ensures.ok ⟨hf4, h.files.unused, h.files.single, h.files.opened⟩

omit [Fintype τ] in
lemma opened_update {o : τ → Fin NOFILE → Option (Fin NFILE)} {fd : Fin NOFILE}
    {x : Option (Fin NFILE)} {g : Fin NFILE} (hne : o t fd ≠ some g) (h : ∃ u fd, o u fd = some g) :
    ∃ u fd', update o t (update (o t) fd x) u fd' = some g := by
  obtain ⟨u, fd', hu⟩ := h
  refine ⟨u, fd', ?_⟩
  by_cases hut : u = t
  · subst hut
    rw [update_self, update_of_ne]
    · exact hu
    · rintro rfl
      exact hne hu
  · rwa [update_of_ne hut]

lemma sysClose_good {fd : ℤ} (h : Good s) : Ensures (sysClose t fd s) fun r => Good r.2 := by
  unfold sysClose
  split
  · dsimp only
    split
    · exact Ensures.ok h
    · rename_i f hf
      refine Ensures.bind (P := Good) ?_ fun u hu => Ensures.ok hu
      refine fileclose_good h.fine (h.files.single f) fun g hgf =>
        ⟨h.files.unused g, h.files.single g, fun hg => opened_update ?_ (h.files.opened g hg)⟩
      rw [hf]
      exact fun he => hgf (Option.some.inj he).symm
  · exact Ensures.ok h

lemma sysOpen_good {path : Path} {omode : UInt32} (h : Good s)
    (hstart : omode &&& O_CREATE ≠ 0 → Starts s.kernel (s.cwd t) path) :
    Ensures (sysOpen t path omode s) fun r => Good r.2 := by
  refine (openInode_spec h.fine (holders_cwd s t) hstart).bind fun ⟨o, k⟩ ⟨hno, hyes⟩ => ?_
  match o with
  | none => exact Ensures.ok (h.withKernel (hno rfl))
  | some ip =>
    have hk := hyes ip rfl
    dsimp only
    split
    · exact (iunlockput_fine hk).bind fun k' hk' => Ensures.ok (h.withKernel hk')
    · rename_i f hf
      have href : (s.file f).ref = 0 := by simpa using find?_some hf
      have hip := h.files.unused f href
      split
      · -- `fileclose` puts nothing, since the file has no inode yet
        unfold fileclose
        simp only [update_self, hip]
        refine Ensures.bind (P := fun u => u.kernel = k ∧ ∀ k', Fine (holders s) k' → Good { u with kernel := k' })
          (Ensures.ok ⟨rfl, fun k' hk' => ?_⟩) fun u ⟨hu, hgood⟩ => ?_
        · have hself : update (update s.file f ⟨1, (s.file f).ip⟩) f ⟨0, none⟩ = s.file := by
            rw [update_idem, ← hip, ← href]
            exact update_eq_self f s.file
          simp only [hip] at hself
          rw [hself]
          exact h.withKernel hk'
        · rw [hu]
          exact (iunlockput_fine hk).bind fun k' hk' => Ensures.ok (hgood k' hk')
      · rename_i fd hfd
        have hnone : s.ofile t fd = none := by simpa using find?_some hfd
        refine (iunlock_spec hk.cached).bind fun k' ⟨hc', hm'⟩ => ?_
        have hk' := hk.moved hc' hm' fun _ => id
        have hmore : holders { s with
            kernel := k'
            ofile := update s.ofile t (update (s.ofile t) fd (some f))
            file := update s.file f ⟨1, some ip⟩ } = holders s + one ip := by
          funext i
          have := holders_file s k' (update s.ofile t (update (s.ofile t) fd (some f)))
            f ⟨1, some ip⟩ i
          simp only [hip, reduceCtorEq, if_false, Nat.add_zero, Option.some.injEq] at this
          rw [this, Pi.add_apply, one, Pi.single_apply]
          simp only [eq_comm (a := i)]
        rw [← hmore] at hk'
        refine Ensures.ok ⟨hk', Files.update rfl ⟨fun h0 => (by cases h0), le_rfl, fun _ => ⟨t, fd, by simp⟩⟩
          fun g hgf => ⟨h.files.unused g, h.files.single g, fun hg => ?_⟩⟩
        exact opened_update (by simp [hnone]) (h.files.opened g hg)

lemma step_good {a : τ × Call} (h : Good s) (hc : Meets s a) (hs : step a s = .ok (s', es)) : Good s' := by
  obtain ⟨⟨r, u⟩, hcall, hs⟩ := bind_eq_ok.mp hs
  cases hs
  have hcwd := holders_cwd s a.1
  obtain ⟨t, call⟩ := a
  match call, hc, hcall with
  | .link (some _) (some _), hc, hcall => exact inKernel_good h (link_spec h.fine hcwd hc.1 hc.2) _ hcall
  | .unlink (some _), _, hcall => exact inKernel_good h (unlink_spec h.fine hcwd) _ hcall
  | .mkdir (some _), hc, hcall => exact inKernel_good h (mkdir_spec h.fine hcwd hc.1 hc.2) _ hcall
  | .openFile (some _) _, hc, hcall => exact sysOpen_good h hc _ hcall
  | .chdir (some _), _, hcall => exact sysChdir_good h _ hcall
  | .close _, _, hcall => exact sysClose_good h _ hcall
  | .link none _, _, hcall | .link (some _) none, _, hcall | .unlink none, _, hcall
  | .mkdir none, _, hcall | .openFile none _, _, hcall | .chdir none, _, hcall =>
    cases hcall
    exact h

/-- After calls that do not overlap, `nlink` of every inode is the number of entries that name it in
directories with links, and an inode without links is allocated only while a process refers to it. -/
theorem nlink_counts_entries (hlen : names.length + 2 ≤ NINODES)
    (hdots : ∀ name ∈ names, name ≠ dot ∧ name ≠ dotdot)
    (h : Timeline step (NoOverlap Meets) (boot τ names) es (.idle s))
    (n : ℕ) (hn : (inodes s.kernel n).type ≠ .free) : (inodes s.kernel n).nlink = links (inodes s.kernel) n ∧
      ((inodes s.kernel n).nlink = 0 → Held s n) := by
  have hgood := h.run.invariant (fun _ _ _ _ hg hc hs => step_good hg hc hs) (good_boot hlen hdots)
  exact ⟨(hgood.fine.tree.node n).count hn, hgood.held hn⟩

/-- After calls that do not overlap, the entries of a directory with links lead to inodes with links, and
a directory has its only name, apart from `.` and `..`, where its `..` leads to. -/
theorem entries_lead_to_links {p : ℕ} {e : Dirent} (hlen : names.length + 2 ≤ NINODES)
    (hdots : ∀ name ∈ names, name ≠ dot ∧ name ≠ dotdot)
    (h : Timeline step (NoOverlap Meets) (boot τ names) es (.idle s))
    (hp : Live (inodes s.kernel p)) (he : e ∈ (inodes s.kernel p).entries) (h0 : e.inum ≠ 0) :
    (inodes s.kernel e.inum).type ≠ .free ∧ 0 < (inodes s.kernel e.inum).nlink ∧
      (e ∈ rest (inodes s.kernel p) → (inodes s.kernel e.inum).type = .T_DIR → e.inum ≠ ROOTINO ∧
        parent (inodes s.kernel e.inum) = p ∧ naming (inodes s.kernel p) e.inum = 1) := by
  have hgood := h.run.invariant (fun _ _ _ _ hg hc hs => step_good hg hc hs) (good_boot hlen hdots)
  obtain ⟨hfree, hlink⟩ := hgood.fine.tree.linked hp he h0
  refine ⟨hfree, hlink, fun hrest hdir => hgood.fine.tree.above ⟨hdir, hlink⟩ hp ?_⟩
  exact List.countP_pos_iff.mpr ⟨e, hrest, by simp⟩

end Runs

instance {τ : Type} {s : State τ} {cwd : Index} {path : Path} : Decidable (Starts s cwd path) :=
  inferInstanceAs (Decidable (_ ∨ _))

instance {τ : Type} {s : Sys τ} : ∀ a : τ × Call, Decidable (Meets s a)
  | (_, .link _ (some _)) | (_, .mkdir (some _)) => inferInstanceAs (Decidable (_ ∧ _))
  | (_, .openFile (some _) _) => inferInstanceAs (Decidable (_ → _))
  | (_, .link _ none) | (_, .mkdir none) | (_, .openFile none _) | (_, .unlink _) | (_, .chdir _)
  | (_, .close _) => inferInstanceAs (Decidable True)

/-- A process removes the directory that it is in, which stays until it leaves. -/
theorem removed_directory_held : ∃ s, Run step Meets (boot (Fin 1) [[102]]) [0, 0, 0] s ∧
    (inodes s.kernel 3).type = .T_DIR ∧ (inodes s.kernel 3).nlink = 0 ∧
    links (inodes s.kernel) 3 = 0 ∧ Held s 3 := by
  obtain ⟨s, hrun, htype, hlink⟩ : ∃ s, Run step Meets (boot (Fin 1) [[102]]) [0, 0, 0] s ∧
      (inodes s.kernel 3).type = .T_DIR ∧ (inodes s.kernel 3).nlink = 0 :=
    Run.of_leads [(0, .mkdir (some [47, 100])), (0, .chdir (some [100])), (0, .unlink (some [47, 100]))]
      (by decide +kernel)
  obtain ⟨hcount, hheld⟩ := nlink_counts_entries (by decide) (by decide) hrun.timeline 3 (by rw [htype]; decide)
  refine ⟨s, hrun, htype, hlink, ?_, hheld hlink⟩
  rw [hlink] at hcount
  exact (Int.natCast_eq_zero.mp hcount.symm)

theorem new_directory_named_once : ∃ s, Run step Meets (boot (Fin 1) [[102]]) [0] s ∧
    parent (inodes s.kernel 3) = 1 ∧ naming (inodes s.kernel 1) 3 = 1 := by
  obtain ⟨s, hrun, hroot, hmem, hdir⟩ : ∃ s, Run step Meets (boot (Fin 1) [[102]]) [0] s ∧
      Live (inodes s.kernel 1) ∧ ⟨[100], 3⟩ ∈ rest (inodes s.kernel 1) ∧ (inodes s.kernel 3).type = .T_DIR :=
    Run.of_leads [(0, .mkdir (some [47, 100]))] (by decide +kernel)
  have hlead := entries_lead_to_links (by decide) (by decide) hrun.timeline hroot (List.mem_of_mem_drop hmem)
    (by decide)
  exact ⟨s, hrun, (hlead.2.2 hmem hdir).2⟩

/-- In the directory that it has removed, the process makes a second name of a file: the file counts
two links, but one of the names is in a directory without links. -/
theorem link_in_removed_directory : ∃ s, Run step (fun _ _ => True) (boot (Fin 1) [[102]]) [0, 0, 0, 0] s ∧
    (inodes s.kernel 2).type = .T_FILE ∧ (inodes s.kernel 2).nlink = 2 ∧ links (inodes s.kernel) 2 = 1 :=
  Run.of_leads [(0, .mkdir (some [47, 100])), (0, .chdir (some [100])), (0, .unlink (some [47, 100])),
    (0, .link (some [47, 102]) (some [103]))] (by decide +kernel)

end LearnXv6.Links
