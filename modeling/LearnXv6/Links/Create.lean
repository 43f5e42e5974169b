import LearnXv6.Links.Calls

/-! Making files and directories. -/
namespace LearnXv6.Links
open Function Store Icache

variable {τ : Type} {s s' : State τ} {h : Index → ℕ} {i dp ip cwd : Index} {n m p : ℕ}
  {t : τ} {name : Name} {path : Path} {type : Kind}

/-- What `ialloc` returns: an entry for an inode that was free. -/
structure Allocated (h : Index → ℕ) (type : Kind) (s : State τ) (ip : Index) (s' : State τ) (n : ℕ) :
    Prop where
  free : (inodes s n).type = .free
  cached : Cached (h + one ip) s'
  frame : Frame h s s'
  key : (s'.inode ip).key = (ROOTDEV, n)
  inodes : inodes s' = update (inodes s) n ⟨type, 0, []⟩

lemma iallocFrom_spec (hc : Cached h s) (l : List ℕ) : Ensures (iallocFrom ROOTDEV type l s) fun r =>
    ∃ n ∈ l, Allocated h type s r.1 r.2 n := by
  induction l with
  | nil => exact Ensures.error
  | cons n l ih =>
    unfold iallocFrom Icache.ialloc
    by_cases hfree : (s.disk (ROOTDEV, n)).type = .free
    · simp only [if_pos hfree]
      intro r hr
      obtain ⟨hc', hm, hkey⟩ := iget_spec (hc.alloc hfree) r hr
      refine ⟨n, List.mem_cons_self .., hfree, hc', ⟨hm.key, hm.valid⟩, hkey, ?_⟩
      rw [hm.inodes]
      funext m
      by_cases hmn : m = n
      · subst hmn
        simp [Links.inodes]
      · have hne : (ROOTDEV, m) ≠ (ROOTDEV, n) := by simpa using hmn
        simp [Links.inodes, update_of_ne hne, update_of_ne hmn]
    · simp only [if_neg hfree]
      intro r hr
      obtain ⟨k, hk, hall⟩ := ih r hr
      exact ⟨k, List.mem_cons_of_mem _ hk, hall⟩

lemma ialloc_spec (hc : Cached h s) : Ensures (ialloc ROOTDEV type s) fun r =>
    ∃ n, n ≠ 0 ∧ n < NINODES ∧ Allocated h type s r.1 r.2 n := by
  intro r hr
  obtain ⟨n, hn, hall⟩ := iallocFrom_spec hc _ r hr
  rw [List.mem_range'_1] at hn
  unfold NINODES at *
  exact ⟨n, by omega, by omega, hall⟩

lemma mustLink_spec {inum : ℕ} (hc : Cached h s) (hk : Kept h s) (hdp : Locked h s dp n) :
    Ensures (mustLink t dp name inum s) (Linked h n name inum s) := by
  refine (dirlink_spec hc hk hdp).bind fun ⟨r, u⟩ ⟨_, hyes⟩ => ?_
  match r with
  | false => exact Ensures.error
  | true => exact Ensures.ok (hyes rfl)

lemma dots_spec {D : ℕ → Dinode} (hc : Cached h s) (hk : Kept h s)
    (hdp : Locked h s dp p) (hip : Locked h s ip n) (hpn : p ≠ n) (hn : n ≠ 0)
    (hin : inodes s = update D n ⟨.T_DIR, 1, []⟩) (h0 : 0 ≤ (D p).nlink)
    (hroom : (D p).nlink < 2 ^ 15 - 1) : Ensures (dots t dp ip s) fun s' =>
    Cached h s' ∧ Frame h s s' ∧ inodes s' = replace D n ⟨.T_DIR, 1, [⟨dot, n⟩, ⟨dotdot, p⟩]⟩ p
      { D p with nlink := (D p).nlink + 1 } := by
  have hDp : inodes s p = D p := by rw [hin, update_of_ne hpn]
  unfold dots
  rw [hdp.nlink hc, hDp]
  obtain ⟨hc1, hf1, hin1⟩ := setNlink_spec (v := (D p).nlink + 1) hc hdp
    (bmod_short (by omega) (by omega))
  rw [hDp] at hin1
  have hk1 := hk.update hf1 hin1 (by simp only; omega)
  have hip1 := hip.frame hf1
  have hdp1 := hdp.frame hf1
  generalize setNlink dp ((D p).nlink + 1) s = s1 at hc1 hf1 hin1 hk1 hip1 hdp1
  simp only [hip1.key]
  have hDn : inodes s1 n = ⟨.T_DIR, 1, []⟩ := by
    rw [hin1, update_of_ne hpn.symm, hin, update_self]
  refine (mustLink_spec hc1 hk1 hip1).bind fun s2 hl2 => ?_
  have hin2 := hl2.inodes
  rw [hDn] at hin2
  have hDn2 : inodes s2 n = ⟨.T_DIR, 1, [⟨dot, n⟩]⟩ := by
    rw [hin2, update_self]
    rfl
  have hk2 := hk1.update hl2.frame hin2 Int.one_pos
  have hdp2 := hdp1.frame hl2.frame
  rw [hdp2.key]
  intro s3 hs3
  have hl3 := mustLink_spec hl2.cached hk2 (hip1.frame hl2.frame) s3 hs3
  refine ⟨hl3.cached, hf1.trans (hl2.frame.trans hl3.frame), ?_⟩
  rw [hl3.inodes, hDn2, hin2, update_idem, hin1, hin]
  have hslot : Dinode.slot ⟨.T_DIR, 1, [⟨dot, n⟩]⟩ = 1 := by
    simp [Dinode.slot, List.findIdx_cons, hn]
  rw [hslot, update_comm hpn, update_idem]
  rfl

variable [DecidableEq τ]

lemma enter_spec {D : ℕ → Dinode} {a b : Dinode} (hc : Cached (h + one dp + one ip) s) (hk : Kept h s)
    (hdp : Locked (h + one dp + one ip) s dp p) (hip : Locked (h + one dp + one ip) s ip n)
    (hin : inodes s = replace D n a p b) (hshort : ∀ n, (inodes s n).nlink < 2 ^ 15) (hpos : 0 < b.nlink)
    (ht : b.find name = none → Tree (replace D n a p (b.write b.slot ⟨name, n⟩))) :
    Ensures (enter t dp ip name s) fun r => Fine (h + one r.1) r.2 := by
  unfold enter
  rw [hip.key]
  refine (mustLink_spec hc hk.add.add hdp).bind fun u hl => ?_
  have hDp : inodes s p = b := by rw [hin, replace_right]
  have hinu := hl.inodes
  have hfind := hl.find
  rw [hDp, hin, update_idem] at hinu
  rw [hDp] at hfind
  have hku : Kept h u := by
    refine hk.update hl.frame.of_add.of_add hl.inodes ?_
    rw [hDp]
    exact hpos
  have hfine : Fine (h + one ip + one dp) u := by
    refine ⟨?_, hku.add.add, ?_, ?_⟩
    · rw [add_right_comm]
      exact hl.cached
    · rw [hinu]
      exact ht hfind
    · rw [hl.inodes]
      exact short_update hshort (hshort p)
  exact (iunlockput_fine hfine).bind fun v hv => Ensures.ok hv

lemma createNew_spec (hc : Cached (h + one dp) s) (hk : Kept h s) (ht : Tree (inodes s))
    (hdp : Locked (h + one dp) s dp p) (hp : Live (inodes s p)) (htype : type ≠ .free)
    (hshort : ∀ n, (inodes s n).nlink < 2 ^ 15)
    (hroom : type = .T_DIR → ∀ n < NINODES, (inodes s n).nlink < 2 ^ 15 - 1) :
    Ensures (createNew t dp name type s) fun r => Fine (h + one r.1) r.2 := by
  unfold createNew
  rw [hdp.key]
  refine (ialloc_spec hc).bind fun ⟨ip, s1⟩ ⟨n, hn0, hn, hall⟩ => ?_
  refine (ilock_locked hall.cached).bind fun s2 ⟨hc2, hm2, hip2⟩ => ?_
  have hkey := hall.key
  have hfree := hall.free
  simp only at hkey
  rw [hkey] at hip2
  obtain ⟨hc3, hf3, hin3⟩ := setNlink_spec (v := 1) hc2 hip2 (by decide)
  rw [hm2.inodes, hall.inodes, update_self, update_idem] at hin3
  have hframe := hall.frame.trans (hm2.toFrame.trans hf3).of_add
  have hip3 := hip2.frame hf3
  have hdp3 := (hdp.frame hframe).add (j := ip)
  have hpn : p ≠ n := by
    rintro rfl
    exact hp.ne_free hfree
  have hk3 := hk.update hframe.of_add hin3 Int.one_pos
  generalize setNlink ip 1 s2 = s3 at hc3 hf3 hin3 hframe hip3 hdp3 hk3
  have hpos := hp.2
  have hreplace : ∀ (a b : Dinode), a.nlink = 1 → b.nlink < 2 ^ 15 → ∀ m,
      (replace (inodes s) n a p b m).nlink < 2 ^ 15 := by
    intro a b ha hb
    exact short_update (short_update hshort (by rw [ha]; decide)) hb
  have hp0 := ht.ne_zero hp.ne_free
  split
  · rename_i hdir
    have hr := hroom hdir p ((ht.node p).range hp.ne_free).2
    subst hdir
    refine (dots_spec hc3 hk3.add.add hdp3 hip3 hpn hn0 hin3 hpos.le hr).bind fun s4 ⟨hc4, hf4, hin4⟩ => ?_
    have hk4 : Kept h s4 := by
      refine hk3.changed hf4.of_add.of_add fun m hm => ?_
      rw [hin4] at hm ⊢
      by_cases hmp : m = p
      · rw [hmp, replace_right]
        simp only
        omega
      · by_cases hmn : m = n
        · rw [hmn, replace_left hpn]
          exact Int.one_pos
        · rw [replace_of_ne hmn hmp, hin3, update_of_ne hmn] at hm
          exact absurd rfl hm
    refine enter_spec hc4 hk4 (hdp3.frame hf4) (hip3.frame hf4) hin4 ?_ (by simp only; omega) fun hfind => ?_
    · rw [hin4]
      exact hreplace _ _ rfl (by simp only; omega)
    · obtain ⟨hb, hadd⟩ := (ht.dir hp).add (i := n) hp0 (ht.parent_ne_zero hp) hfind
      refine ht.addDir hp hn hn0 hfree rfl rfl ⟨rfl, ?_⟩ rfl ?_
        ⟨⟨hb.dir.entries, hb.dir.proper⟩, hb.type, hb.parent⟩ rfl hadd
      · intro e he
        cases he
      · exact fun _ _ => rfl
  · rename_i hfile
    have hself : inodes s3 = replace (inodes s) n ⟨type, 1, []⟩ p (inodes s p) := by
      rw [hin3]
      refine (update_eq_iff.mpr ⟨?_, fun _ _ => rfl⟩).symm
      rw [update_of_ne hpn]
    refine enter_spec hc3 hk3 hdp3 hip3 hself ?_ hpos fun hfind => ?_
    · rw [hself]
      exact hreplace _ _ rfl (hshort p)
    · obtain ⟨hb, hadd⟩ := (ht.dir hp).add (i := n) hp0 (ht.parent_ne_zero hp) hfind
      refine ht.changeFile hp hn hn0 ?_ hfile htype hb rfl ?_ ?_
      · rw [hfree]
        decide
      · intro m hm hmn
        rw [hadd m hm, if_neg (Ne.symm hmn)]
        rfl
      · rw [hadd n hn0, if_pos rfl, (ht.node n).unnamed hn0 hfree]
        push_cast
        omega

lemma create_spec (hs : Fine h s) (hcwd : 0 < h cwd) (htype : type ≠ .free) (hstart : Starts s cwd path)
    (hroom : type = .T_DIR → ∀ n < NINODES, (inodes s n).nlink < 2 ^ 15 - 1) :
    Ensures (create t cwd path type s) fun r =>
      (r.1 = none → Fine h r.2) ∧ ∀ ip, r.1 = some ip → Fine (h + one ip) r.2 := by
  refine (namex_spec hs.cached hs.kept hcwd).bind fun ⟨o, s1⟩ hw => ?_
  match o with
  | none =>
    exact Ensures.ok ⟨fun _ => hw.fine_none hs rfl, fun _ hr => by cases hr⟩
  | some (dp, name) =>
    have hlive := (hw.some dp name rfl).2
    refine (ilock_fine (hw.fine hs rfl)).bind fun s2 ⟨hf2, hm2, hdp2⟩ => ?_
    refine (dirlookup_spec hf2.cached hdp2).bind fun ⟨o, s3⟩ hl => ?_
    match o with
    | some (ip, off) =>
      have hf3 : Fine (h + one ip + one dp) s3 := by
        have := hf2.moved (hl.some ip off rfl).1 hl.moved fun _ => pos_add
        rwa [add_right_comm] at this
      refine (iunlockput_fine hf3).bind fun s4 hf4 => ?_
      refine (ilock_fine hf4).bind fun s5 ⟨hf5, _⟩ => ?_
      split
      · refine Ensures.ok ⟨fun hr => (by cases hr), fun i hi => ?_⟩
        cases hi
        exact hf5
      · refine (iunlockput_fine hf5).bind fun u hu => ?_
        exact Ensures.ok ⟨fun _ => hu, fun _ hr => by cases hr⟩
    | none =>
      have hin := hl.moved.inodes.trans (hm2.inodes.trans hw.moved.inodes)
      have hmoved := hw.moved.trans (hm2.trans hl.moved).of_add
      have hdir := hl.dir
      rw [hm2.inodes, hw.moved.inodes] at hdir
      have hp : Live (inodes s (s1.inode dp).key.2) :=
        ⟨hdir, hlive ⟨hs.tree.closed, hs.tree.root, hstart⟩⟩
      refine (createNew_spec (hl.none rfl).2 (hs.kept.moved hmoved) (hin ▸ hs.tree)
        (hdp2.frame hl.moved.toFrame) (hin ▸ hp) htype (hin ▸ hs.short) (hin ▸ hroom)).bind fun ⟨ip, s4⟩ hf4 => ?_
      refine Ensures.ok ⟨fun hr => (by cases hr), fun i hi => ?_⟩
      cases hi
      exact hf4

lemma mkdir_spec (hs : Fine h s) (hcwd : 0 < h cwd) (hstart : Starts s cwd path)
    (hroom : ∀ n < NINODES, (inodes s n).nlink < 2 ^ 15 - 1) :
    Ensures (mkdir t cwd path s) fun r => Fine h r.2 := by
  refine (create_spec hs hcwd (by decide) hstart fun _ => hroom).bind fun ⟨o, s1⟩ ⟨hno, hyes⟩ => ?_
  match o with
  | none => exact Ensures.ok (hno rfl)
  | some ip => exact (iunlockput_fine (hyes ip rfl)).bind fun u hu => Ensures.ok hu

lemma openInode_spec {omode : UInt32} (hs : Fine h s) (hcwd : 0 < h cwd)
    (hstart : omode &&& O_CREATE ≠ 0 → Starts s cwd path) : Ensures (openInode t cwd path omode s) fun r =>
      (r.1 = none → Fine h r.2) ∧ ∀ ip, r.1 = some ip → Fine (h + one ip) r.2 := by
  unfold openInode
  split
  · rename_i hcreate
    split
    · exact create_spec hs hcwd (by decide) (hstart hcreate) fun hdir => by cases hdir
    · exact create_spec hs hcwd (by decide) (hstart hcreate) fun hdir => by cases hdir
  · refine (namex_spec hs.cached hs.kept hcwd).bind fun ⟨o, s1⟩ hw => ?_
    match o with
    | none =>
      exact Ensures.ok ⟨fun _ => hw.fine_none hs rfl, fun _ hr => by cases hr⟩
    | some (ip, name) =>
      refine (ilock_fine (hw.fine hs rfl)).bind fun s2 ⟨hf2, _⟩ => ?_
      split
      · refine (iunlockput_fine hf2).bind fun u hu => ?_
        exact Ensures.ok ⟨fun _ => hu, fun _ hr => by cases hr⟩
      · refine Ensures.ok ⟨fun hr => (by cases hr), fun i hi => ?_⟩
        cases hi
        exact hf2

end LearnXv6.Links
