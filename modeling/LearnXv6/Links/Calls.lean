import LearnXv6.Links.Walk

/-! What the calls do to the tree of directories. -/
namespace LearnXv6.Links
open Function Store Icache

variable {τ : Type} [DecidableEq τ] {s s' : State τ} {h : Index → ℕ} {i dp ip cwd : Index} {n m p : ℕ}
  {t : τ} {name : Name} {path : Path}

lemma bmod_short {v : ℤ} (h1 : -2 ^ 15 ≤ v) (h2 : v < 2 ^ 15) : v.bmod (2 ^ 16) = v :=
  Int.bmod_eq_of_le (by omega) (by omega)

variable {D : ℕ → Dinode}

section

variable (hc : Cached (h + one dp + one ip) s) (hk : Kept h s) (hip : Locked (h + one dp + one ip) s ip m)
  (hshort : ∀ n, (inodes s n).nlink < 2 ^ 15)
include hc hk hip hshort

lemma dropName_spec {b : Dinode} (hin : inodes s = update D p b) (hpm : p ≠ m)
    (hpos : 0 < (D m).nlink) (ht : Tree (replace D m { D m with nlink := (D m).nlink - 1 } p b)) :
    Ensures (dropName t dp ip s) fun r => Fine h r.2 := by
  have hDm : inodes s m = D m := by rw [hin, update_of_ne hpm.symm]
  rw [add_right_comm] at hc
  refine (iunlockput_keep hc hk.add).bind fun v ⟨hcv, hmv⟩ => ?_
  have hipv : Locked (h + one ip) v ip m :=
    ⟨pos_add_self, (hmv.key ip pos_add_self).trans hip.key, hmv.valid ip pos_add_self hip.valid⟩
  have hnl : (v.inode ip).nlink = (D m).nlink := by
    rw [hipv.nlink hcv, hmv.inodes, hDm]
  have hsm := hshort m
  rw [hDm] at hsm
  rw [hnl]
  obtain ⟨hcw, hfw, hinw⟩ := setNlink_spec (v := (D m).nlink - 1) hcv hipv
    (bmod_short (by omega) (by omega))
  have hkw := hipv.kept (hk.add.moved hmv) hfw hinw
  rw [hmv.inodes, hDm] at hinw
  have hfine : Fine (h + one ip) (setNlink ip ((D m).nlink - 1) v) := by
    refine ⟨hcw, hkw, ?_, ?_⟩ <;> rw [hinw]
    · rw [hin, update_comm hpm]
      exact ht
    · exact short_update hshort (by simp only; omega)
  exact (iunlockput_fine hfine).bind fun w hw => Ensures.ok hw

lemma removeEntry_spec {off : ℕ} (ht : Tree (inodes s)) (hdp : Locked (h + one dp + one ip) s dp p)
    (hdir : (inodes s p).type = .T_DIR) (hfind : (inodes s p).find name = some (off, m))
    (h1 : name ≠ dot) (h2 : name ≠ dotdot) (hpos : 0 < (inodes s m).nlink)
    (hempty : (inodes s m).type = .T_DIR → (inodes s m).isdirempty = true) :
    Ensures (removeEntry t dp ip off s) fun r => Fine h r.2 := by
  set D := inodes s
  have hm0 := (find_eq_some hfind).2
  obtain ⟨hb, hnaming, hless⟩ := ((ht.node p).dir hdir).remove h1 h2 hfind
  have hplive := ht.live_of_naming hdir hm0 hnaming
  have hpm : p ≠ m := by
    rintro rfl
    have := naming_eq_zero (hempty hdir) hm0
    omega
  generalize hbdef : (D p).write off ⟨[], 0⟩ = b at hb hless
  have hblink : b.nlink = (D p).nlink := by rw [← hbdef]; rfl
  unfold removeEntry
  refine (writeEntry_spec hc hdp.pos hdp.key).bind fun u ⟨hcu, hfu, hinu⟩ => ?_
  rw [hbdef] at hinu
  have hdpu := hdp.frame hfu
  have hipu := hip.frame hfu
  have htype : (u.inode ip).type = (D m).type := by
    rw [hipu.type hcu, hinu, update_of_ne hpm.symm]
  have hsp := hshort p
  have hplink := hplive.2
  simp only [htype]
  split
  · rename_i hmdir
    have hnl : (u.inode dp).nlink = (D p).nlink := by
      rw [hdpu.nlink hcu, hinu, update_self, hblink]
    rw [hnl]
    obtain ⟨hcv, hfv, hinv⟩ := setNlink_spec (v := (D p).nlink - 1) hcu hdpu
      (bmod_short (by omega) (by omega))
    rw [hinu, update_self, update_idem] at hinv
    obtain ⟨htree, hbpos⟩ := ht.removeDir hplive ⟨hmdir, hpos⟩ rfl (hempty hmdir) hnaming
      (b := { b with nlink := (D p).nlink - 1 }) ⟨⟨hb.dir.entries, hb.dir.proper⟩, hb.type, hb.parent⟩ rfl hless
    exact dropName_spec hcv (hk.update (hfu.trans hfv).of_add.of_add hinv hbpos) (hipu.frame hfv)
      (hinv ▸ short_update hshort (by simp only; omega)) hinv hpm hpos htree
  · rename_i hfile
    have halloc := hip.ne_free hc
    refine dropName_spec hcu (hk.update hfu.of_add.of_add hinu (by omega)) hipu
      (hinu ▸ short_update hshort (by omega)) hinu hpm hpos ?_
    refine ht.changeFile hplive ((ht.node m).range halloc).2 hm0 hfile hfile halloc hb hblink ?_ ?_
    · intro k hk0 hkm
      have := hless k hk0
      rw [if_neg (Ne.symm hkm)] at this
      exact this
    · have h3 := hless m hm0
      have h4 := (ht.node m).count halloc
      rw [if_pos rfl] at h3
      change (D m).nlink - 1 + (naming (D p) m : ℤ) = links D m + naming b m
      omega

end

lemma unlink_spec (hs : Fine h s) (hcwd : 0 < h cwd) :
    Ensures (unlink t cwd path s) fun r => Fine h r.2 := by
  refine (namex_spec hs.cached hs.kept hcwd).bind fun ⟨o, s1⟩ hw => ?_
  match o with
  | none => exact Ensures.ok (hw.fine_none hs rfl)
  | some (dp, name) =>
    refine (ilock_fine (hw.fine hs rfl)).bind fun s2 ⟨hf2, hm2, hdp2⟩ => ?_
    split
    · exact (iunlockput_fine hf2).bind fun u hu => Ensures.ok hu
    · rename_i hname
      rw [not_or] at hname
      refine (dirlookup_spec hf2.cached hdp2).bind fun ⟨o, s3⟩ hl => ?_
      match o with
      | none =>
        have hf3 := hf2.moved (hl.none rfl).2 hl.moved fun _ => id
        exact (iunlockput_fine hf3).bind fun u hu => Ensures.ok hu
      | some (ip, off) =>
        obtain ⟨hc3, m, hfind, hkey⟩ := hl.some ip off rfl
        have hf3 := hf2.moved hc3 hl.moved fun _ => pos_add
        refine (ilock_fine hf3).bind fun s4 ⟨hf4, hm4, hip4⟩ => ?_
        have hc4 := hf4.cached
        simp only at hkey
        rw [hkey] at hip4
        have hdp4 := ((hdp2.frame hl.moved.toFrame).add).frame hm4.toFrame
        have hin := hm4.inodes.trans hl.moved.inodes
        split
        · exact Ensures.error
        · rename_i hnlink
          rw [hip4.nlink hc4] at hnlink
          split
          · refine (iunlockput_fine hf4).bind fun u hu => ?_
            exact (iunlockput_fine hu).bind fun v hv => Ensures.ok hv
          · rename_i hempty
            rw [hip4.type hc4, dinode_eq hip4.key] at hempty
            refine removeEntry_spec hc4 ?_ hip4 hf4.short hf4.tree hdp4 ?_ ?_ hname.1 hname.2 (by omega) ?_
            · exact hs.kept.moved (hw.moved.trans (hm2.trans (hl.moved.trans hm4.of_add)).of_add)
            · rw [hin]
              exact hl.dir
            · rw [hin]
              exact hfind
            · intro hdir
              simpa [hdir] using hempty

lemma bad_spec (hc : Cached (h + one ip) s) (hk : Kept h s) (ht : Tree D)
    (hshort : ∀ n, (D n).nlink < 2 ^ 15) (hkey : (s.inode ip).key = (ROOTDEV, n)) (hn : (D n).type ≠ .free)
    (hin : inodes s = update D n { D n with nlink := (D n).nlink + 1 }) :
    Ensures (bad t ip s) fun r => Fine h r.2 := by
  refine (ilock_locked hc).bind fun u ⟨hcu, hmu, hipu⟩ => ?_
  rw [hkey] at hipu
  have hnl : (u.inode ip).nlink - 1 = (D n).nlink := by
    rw [hipu.nlink hcu, hmu.inodes, hin, update_self]
    exact add_sub_cancel_right _ _
  rw [hnl]
  have hnonneg := ht.nlink_nonneg hn
  obtain ⟨hcv, hfv, hinv⟩ := setNlink_spec (v := (D n).nlink) hcu hipu
    (bmod_short (by omega) (hshort n))
  have hkv := hipu.kept (hk.add.moved hmu) hfv hinv
  rw [hmu.inodes, hin, update_self, update_idem] at hinv
  have hD := hinv.trans (update_eq_self n D)
  have hfine : Fine (h + one ip) (setNlink ip (D n).nlink u) := ⟨hcv, hkv, by rwa [hD], by rwa [hD]⟩
  exact (iunlockput_fine hfine).bind fun w hw => Ensures.ok hw

lemma Closed.more (hD : Closed D) {d : Dinode} (hfile : (D n).type ≠ .T_DIR)
    (htype : d.type = (D n).type) (hmore : (D n).nlink ≤ d.nlink) : Closed (update D n d) := by
  intro k hk e he h0
  have hkn : k ≠ n := by
    rintro rfl
    rw [update_self] at hk
    exact hfile (htype ▸ hk.1)
  rw [update_of_ne hkn] at hk he
  have hpos := hD k hk e he h0
  by_cases hen : e.inum = n
  · rw [hen, update_self]
    rw [hen] at hpos
    omega
  · rwa [update_of_ne hen]

lemma linkNew_spec {new : Path} (hc : Cached (h + one ip) s) (hk : Kept h s)
    (ht : Tree D) (hshort : ∀ n, (D n).nlink < 2 ^ 15) (hroom : (D n).nlink < 2 ^ 15 - 1)
    (hkey : (s.inode ip).key = (ROOTDEV, n)) (hn : (D n).type ≠ .free) (hfile : (D n).type ≠ .T_DIR)
    (hin : inodes s = update D n { D n with nlink := (D n).nlink + 1 })
    (hcwd : 0 < h cwd)
    (hstart : new.head? = some slash ∨ 0 < (D (s.inode cwd).key.2).nlink) :
    Ensures (linkNew t cwd ip new s) fun r => Fine h r.2 := by
  have hreach : Reaches s cwd new := by
    refine ⟨?_, ?_, ?_⟩
    · rw [hin]
      exact ht.closed.more hfile rfl (by simp only; omega)
    · rw [hin, update_of_ne]
      · exact ht.root
      · rintro rfl
        exact hfile ht.root.1
    · rcases hstart with habs | hpos
      · exact .inl habs
      · refine .inr ?_
        rw [hin]
        by_cases hcn : (s.inode cwd).key.2 = n
        · rw [hcn, update_self]
          rw [hcn] at hpos
          simp only
          omega
        · rwa [update_of_ne hcn]
  refine (namex_spec hc hk.add (pos_add hcwd)).bind fun ⟨o, s1⟩ hw => ?_
  have hkey1 := (hw.moved.key ip pos_add_self).trans hkey
  have hin1 := hw.moved.inodes.trans hin
  have hk1 := hk.moved hw.moved.of_add
  match o with
  | none => exact bad_spec (hw.none rfl) hk1 ht hshort hkey1 hn hin1
  | some (dp, name) =>
    obtain ⟨hc1, hlive⟩ := hw.some dp name rfl
    refine (ilock_locked hc1).bind fun s2 ⟨hc2, hm2, hdp2⟩ => ?_
    have hkey2 := (hm2.key ip (pos_add pos_add_self)).trans hkey1
    have hin2 := hm2.inodes.trans hin1
    have hk2 := hk1.moved hm2.of_add.of_add
    -- the failing ends: the directory is put and the link taken back
    have hback : ∀ u : State τ, Cached (h + one ip + one dp) u → Moved (h + one ip + one dp) s2 u →
        Ensures (iunlockput t dp u >>= fun s => bad t ip s) fun r => Fine h r.2 := by
      intro u hcu hmu
      have hku := hk2.moved hmu.of_add.of_add
      refine (iunlockput_keep hcu hku.add).bind fun v ⟨hcv, hmv⟩ => ?_
      refine bad_spec hcv (hku.moved hmv.of_add) ht hshort ?_ hn (hmv.inodes.trans (hmu.inodes.trans hin2))
      rw [hmv.key ip pos_add_self, hmu.key ip (pos_add pos_add_self)]
      exact hkey2
    split
    · exact hback s2 hc2 Moved.refl
    · rw [hkey2]
      refine (dirlink_spec hc2 hk2.add.add hdp2).bind fun ⟨r, s3⟩ ⟨hno, hyes⟩ => ?_
      match r with
      | false =>
        obtain ⟨hc3, hm3⟩ := hno rfl
        exact hback s3 hc3 hm3
      | true =>
        have hl := hyes rfl
        generalize (s1.inode dp).key.2 = p at hdp2 hl hlive
        have hpn : p ≠ n := by
          rintro rfl
          have := hl.dir
          rw [hin2, update_self] at this
          exact hfile this
        have hDp : inodes s2 p = D p := by rw [hin2, update_of_ne hpn]
        have hdir := hl.dir
        have hfind := hl.find
        have hinl := hl.inodes
        rw [hDp] at hdir hfind hinl
        have hpos : 0 < (D p).nlink := by
          have := hlive hreach
          rwa [hin, update_of_ne hpn] at this
        have hp : Live (D p) := ⟨hdir, hpos⟩
        have hp0 := ht.ne_zero hp.ne_free
        obtain ⟨hb, hadd⟩ := (ht.dir hp).add (i := n) hp0 (ht.parent_ne_zero hp) hfind
        rw [hin2] at hinl
        have hn0 := ht.ne_zero hn
        have htree : Tree (inodes s3) := by
          rw [hinl]
          refine ht.changeFile hp ((ht.node n).range hn).2 hn0 hfile hfile hn hb rfl ?_ ?_
          · intro m hm hmn
            rw [hadd m hm, if_neg (Ne.symm hmn)]
            rfl
          · rw [hadd n hn0, if_pos rfl]
            have := (ht.node n).count hn
            push_cast
            omega
        have hshort3 : ∀ m, (inodes s3 m).nlink < 2 ^ 15 := by
          rw [hinl]
          exact short_update (short_update hshort (by simp only; omega)) (hshort p)
        have hk3 : Kept h s3 := by
          refine hk2.update hl.frame.of_add.of_add hl.inodes ?_
          rw [hDp]
          exact hpos
        have hfine : Fine (h + one ip + one dp) s3 := ⟨hl.cached, hk3.add.add, htree, hshort3⟩
        refine (iunlockput_fine hfine).bind fun u hu => ?_
        exact (iput_fine hu).bind fun v hv => Ensures.ok hv

lemma link_spec {old new : Path} (hs : Fine h s) (hcwd : 0 < h cwd) (hstart : Starts s cwd new)
    (hroom : ∀ n < NINODES, (inodes s n).nlink < 2 ^ 15 - 1) :
    Ensures (link t cwd old new s) fun r => Fine h r.2 := by
  refine (namex_spec hs.cached hs.kept hcwd).bind fun ⟨o, s1⟩ hw => ?_
  match o with
  | none => exact Ensures.ok (hw.fine_none hs rfl)
  | some (ip, name) =>
    refine (ilock_fine (hw.fine hs rfl)).bind fun s2 ⟨hf2, hm2, hip2⟩ => ?_
    have hc2 := hf2.cached
    rw [hip2.type hc2]
    split
    · exact (iunlockput_fine hf2).bind fun u hu => Ensures.ok hu
    · rename_i hfile
      generalize (s1.inode ip).key.2 = n at hip2 hfile
      have hn := hip2.ne_free hc2
      have hin2 := hm2.inodes.trans hw.moved.inodes
      have hr := hroom n ((hs.tree.node n).range (hin2 ▸ hn)).2
      have hnonneg := hs.tree.nlink_nonneg (hin2 ▸ hn)
      rw [hip2.nlink hc2, hin2]
      obtain ⟨hc3, hf3, hin3⟩ := setNlink_spec (v := (inodes s n).nlink + 1) hc2 hip2
        (bmod_short (by omega) (by omega))
      refine (iunlock_spec hc3).bind fun s4 ⟨hc4, hm4⟩ => ?_
      have hframe := hf3.trans hm4.toFrame
      have hall := hw.moved.toFrame.trans (hm2.toFrame.trans hframe).of_add
      rw [hin2] at hin3 hn hfile
      have hin4 := hm4.inodes.trans hin3
      refine linkNew_spec hc4 (hs.kept.update hall hin4 (by simp only; omega)) hs.tree hs.short hr
        ((hframe.key ip pos_add_self).trans hip2.key) hn hfile hin4 hcwd ?_
      rw [hall.key cwd hcwd]
      exact hstart

end LearnXv6.Links
