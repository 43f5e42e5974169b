import LearnXv6.Icache.Model
import LearnXv6.Store.Pool

/-! How far each process is in the functions of the inode cache, and what the next operation does. -/
namespace LearnXv6.Icache
open Store

inductive Stage where
  | idle
  /-- `ialloc` has marked the inode -/
  | marked (k : Key)
  /-- `ilock` has the lock -/
  | ilock (i : Index)
  /-- `iput` has the lock -/
  | iput (i : Index)
  /-- `iput` is going to call `itrunc` -/
  | itrunc (i : Index)
  | free (i : Index)
  | release (i : Index)
  | unref (i : Index)
  deriving DecidableEq, Repr

namespace Stage

/-- The reference that is being put. -/
def puts : Stage → Option Index
  | idle | marked _ | ilock _ => none
  | iput i | itrunc i | free i | release i | unref i => some i

/-- The reference that is being put, once its inode is not looked at any more. -/
def late : Stage → Option Index
  | release i | unref i => some i
  | idle | marked _ | ilock _ | iput _ | itrunc _ | free _ => none

/-- The lock that `iput` holds. -/
def holds : Stage → Option Index
  | iput i | itrunc i | free i | release i => some i
  | idle | marked _ | ilock _ | unref _ => none

/-- The inode that is being freed. -/
def frees : Stage → Option Index
  | itrunc i | free i => some i
  | idle | marked _ | ilock _ | iput _ | release _ | unref _ => none

/-- The lock that the function holds. -/
def locks : Stage → Option Index
  | ilock i | iput i | itrunc i | free i | release i => some i
  | idle | marked _ | unref _ => none

lemma puts_of_late {g : Stage} {i : Index} (h : g.late = some i) : g.puts = some i := by
  cases g with
  | release j | unref j => exact h
  | _ => cases h

lemma puts_of_holds {g : Stage} {i : Index} (h : g.holds = some i) : g.puts = some i := by
  cases g with
  | iput j | itrunc j | free j | release j => exact h
  | _ => cases h

lemma locks_of_frees {g : Stage} {i : Index} (h : g.frees = some i) : g.locks = some i := by
  cases g with
  | itrunc j | free j => exact h
  | _ => cases h

lemma holds_of_frees {g : Stage} {i : Index} (h : g.frees = some i) : g.holds = some i := by
  cases g with
  | itrunc j | free j => exact h
  | _ => cases h

lemma late_of_frees {g : Stage} {i j : Index} (h : g.frees = some i) : g.late ≠ some j := by
  cases g with
  | itrunc i | free i => rintro ⟨⟩
  | _ => cases h

/-- The operation that a function goes on with. -/
def goesOn : Stage → Option Op
  | idle => none
  | marked k => some (.iget k)
  | ilock i => some (.load i)
  | iput i => some (.count i)
  | itrunc i => some (.itrunc i)
  | free i => some (.free i)
  | release i => some (.release i)
  | unref i => some (.unref i)

/-- The stage after an operation. -/
def next (op : Op) (r : Answer op) : Stage :=
  match op, r with
  | .ialloc k _, r => if r then marked k else idle
  | .ilock i, _ => ilock i
  | .iput i, _ => iput i
  | .count i, r => if r then itrunc i else release i
  | .itrunc i, _ => free i
  | .free i, _ => release i
  | .release i, _ => unref i
  | .iget _, _ | .idup _, _ | .load _, _ | .iunlock _, _ | .key _, _ | .type _, _ | .nlink _, _
  | .find _ _, _ | .slot _, _ | .isdirempty _, _ | .setLink _, _ | .addLink _, _ | .dropLink _, _
  | .write _ _ _, _ | .unref _, _ => idle

end Stage

variable {τ : Type} {s s' : State τ} {S : τ → Stage} {t : τ} {i : Index}

section

variable [Fintype τ]

/-- The references to an entry that are being put. -/
abbrev puts (S : τ → Stage) (i : Index) : ℕ := tally Stage.puts S i

abbrev late (S : τ → Stage) (i : Index) : ℕ := tally Stage.late S i

/-- What a process may start with: it uses only a reference that is held and not being put, and changes
only an inode that it has locked. -/
def Starts (S : τ → Stage) (held : Index → ℕ) (s : State τ) (t : τ) : Op → Prop
  | .idup i | .ilock i | .iput i => puts S i < held i
  | .setLink i | .addLink i | .dropLink i | .write i _ _ =>
    (s.inode i).lock = some t ∧ (s.inode i).valid = true
  | .ialloc _ type => type ≠ .free
  | .iget _ | .iunlock _ | .key _ | .type _ | .nlink _ | .find _ _ | .slot _ | .isdirempty _ => True
  | .load _ | .count _ | .itrunc _ | .free _ | .release _ | .unref _ => False

/-- What a process may do: it goes on with the function that it is in, or starts with another. -/
def Permits (S : τ → Stage) (held : Index → ℕ) (s : State τ) (t : τ) (op : Op) : Prop :=
  (S t).goesOn = some op ∨ S t = .idle ∧ Starts S held s t op

inductive Does (S : τ → Stage) (s : State τ) (t : τ) : Op → Stage → State τ → Prop
  | look (op : Op) (hS : S t = .idle) : Does S s t op .idle s
  | mark (k : Key) (type : Kind) (hS : S t = .idle) (htype : type ≠ .free)
      (hfree : (s.disk k).type = .free) :
      Does S s t (.ialloc k type) (.marked k) { s with disk := Function.update s.disk k ⟨type, 0, []⟩ }
  | hit (k : Key) (i : Index) (hS : S t = .idle ∨ S t = .marked k) (hi : s.cached k = some i) :
      Does S s t (.iget k) .idle (s.set i { s.inode i with ref := (s.inode i).ref + 1 })
  | miss (k : Key) (i : Index) (hS : S t = .idle ∨ S t = .marked k) (hnone : s.cached k = none)
      (hi : s.empty = some i) :
      Does S s t (.iget k) .idle (s.set i { s.inode i with key := k, ref := 1, valid := false })
  | idup (i : Index) (hS : S t = .idle) (hi : (puts S i : ℤ) < (s.inode i).ref) :
      Does S s t (.idup i) .idle (s.set i { s.inode i with ref := (s.inode i).ref + 1 })
  | ilock (i : Index) (hS : S t = .idle) (hi : (puts S i : ℤ) < (s.inode i).ref)
      (hlock : (s.inode i).lock = none) :
      Does S s t (.ilock i) (.ilock i) (s.set i { s.inode i with lock := some t })
  | ready (i : Index) (hS : S t = .ilock i) (hv : (s.inode i).valid = true) : Does S s t (.load i) .idle s
  | load (i : Index) (hS : S t = .ilock i) (hv : (s.inode i).valid = false)
      (htype : (s.dinode i).type ≠ .free) :
      Does S s t (.load i) .idle (s.set i { s.inode i with
        type := (s.dinode i).type, nlink := (s.dinode i).nlink, valid := true })
  | iunlock (i : Index) (hS : S t = .idle) (hlock : (s.inode i).lock = some t) :
      Does S s t (.iunlock i) .idle (s.set i { s.inode i with lock := none })
  | setNlink (op : Op) (i : Index) (n : ℤ) (hS : S t = .idle) (hlock : (s.inode i).lock = some t)
      (hv : (s.inode i).valid = true) : Does S s t op .idle (setNlink i n s)
  | write (i : Index) (off : ℕ) (de : Dirent) (hS : S t = .idle) (hlock : (s.inode i).lock = some t)
      (hv : (s.inode i).valid = true) (hoff : off ≤ (s.dinode i).entries.length) :
      Does S s t (.write i off de) .idle (s.setDinode i ((s.dinode i).write off de))
  | iput (i : Index) (hS : S t = .idle) (hi : (puts S i : ℤ) < (s.inode i).ref)
      (hlock : (s.inode i).lock = none) :
      Does S s t (.iput i) (.iput i) (s.set i { s.inode i with lock := some t })
  | sole (i : Index) (hS : S t = .iput i) (hi : (s.inode i).unneeded) : Does S s t (.count i) (.itrunc i) s
  | shared (i : Index) (hS : S t = .iput i) (hi : ¬ (s.inode i).unneeded) : Does S s t (.count i) (.release i) s
  | itrunc (i : Index) (hS : S t = .itrunc i) : Does S s t (.itrunc i) (.free i) (itrunc i s)
  | free (i : Index) (hS : S t = .free i) : Does S s t (.free i) (.release i) (free i s)
  | release (i : Index) (hS : S t = .release i) :
      Does S s t (.release i) (.unref i) (s.set i { s.inode i with lock := none })
  | unref (i : Index) (hS : S t = .unref i) :
      Does S s t (.unref i) .idle (s.set i { s.inode i with ref := (s.inode i).ref - 1 })

end

lemma acquiresleep_ok (h : acquiresleep t i s = .ok s') :
    (s.inode i).lock = none ∧ s' = s.set i { s.inode i with lock := some t } := by
  unfold acquiresleep at h
  split at h
  · cases h
  · rename_i hlock
    cases h
    exact ⟨hlock, rfl⟩

lemma load_ok (h : load i s = .ok s') : ((s.inode i).valid = true ∧ s' = s) ∨
    (s.inode i).valid = false ∧ (s.dinode i).type ≠ .free ∧ s' = s.set i { s.inode i with
      type := (s.dinode i).type, nlink := (s.dinode i).nlink, valid := true } := by
  unfold load at h
  dsimp only at h
  split at h
  · rename_i hv
    cases h
    exact .inl ⟨hv, rfl⟩
  · rename_i hv
    obtain ⟨htype, h⟩ := else_eq_ok.mp h
    cases h
    exact .inr ⟨by simpa using hv, htype, rfl⟩

lemma Stage.of_goesOn {g : Stage} {op : Op} (h : g.goesOn = some op) :
    match op with
    | .iget k => g = .marked k
    | .load i => g = .ilock i
    | .count i => g = .iput i
    | .itrunc i => g = .itrunc i
    | .free i => g = .free i
    | .release i => g = .release i
    | .unref i => g = .unref i
    | _ => False := by
  cases g with
  | idle => cases h
  | marked k | ilock i | iput i | itrunc i | free i | release i | unref i => cases h; rfl

variable [Fintype τ] [DecidableEq τ]

omit [DecidableEq τ] in
lemma iget_does {k : Key} {r : Index} (hS : S t = .idle ∨ S t = .marked k)
    (h : iget k s = .ok (r, s')) : Does S s t (.iget k) .idle s' := by
  unfold iget at h
  split at h
  · rename_i i hi
    cases h
    exact .hit k _ hS hi
  · rename_i hnone
    split at h
    · rename_i i hi
      cases h
      exact .miss k _ hS hnone hi
    · cases h

lemma exec_does {op : Op} {r : Answer op} {held : Index → ℕ} (hheld : ∀ i, (s.inode i).ref = held i)
    (hp : Permits S held s t op) (h : exec t op s = .ok (r, s')) :
    Does S s t op (Stage.next op r) s' := by
  have hfree : ∀ {i}, puts S i < held i → (puts S i : ℤ) < (s.inode i).ref := by
    intro i hi
    rw [hheld i]
    exact_mod_cast hi
  rcases hp with hon | ⟨hS, hop⟩
  · have hS := Stage.of_goesOn hon
    cases op with
    | iget k => exact iget_does (.inr hS) h
    | load i =>
      simp only [exec] at h
      split at h
      · rename_i u hu
        cases h
        rcases load_ok hu with ⟨hv, rfl⟩ | ⟨hv, htype, rfl⟩
        · exact .ready i hS hv
        · exact .load i hS hv htype
      · cases h
    | count i =>
      cases h
      by_cases hi : (s.inode i).unneeded
      · simpa [Stage.next, hi] using Does.sole i hS hi
      · simpa [Stage.next, hi] using Does.shared i hS hi
    | itrunc i =>
      cases h
      exact .itrunc i hS
    | free i =>
      cases h
      exact .free i hS
    | release i =>
      cases h
      exact .release i hS
    | unref i =>
      cases h
      exact .unref i hS
    | _ => exact absurd hS id
  · cases op with
    | ialloc k type =>
      simp only [exec, ialloc] at h
      split at h
      · rename_i hfree
        cases h
        exact .mark k type hS hop hfree
      · cases h
        exact .look _ hS
    | iget k => exact iget_does (.inl hS) h
    | idup i =>
      cases h
      exact .idup i hS (hfree hop)
    | ilock i =>
      simp only [exec] at h
      obtain ⟨-, h⟩ := else_eq_ok.mp h
      split at h
      · rename_i u hu
        cases h
        obtain ⟨hlock, rfl⟩ := acquiresleep_ok hu
        exact .ilock i hS (hfree hop) hlock
      · cases h
    | iunlock i =>
      simp only [exec] at h
      obtain ⟨hlock, h⟩ := else_eq_ok.mp h
      cases h
      rw [not_or, not_not] at hlock
      exact .iunlock i hS hlock.1
    | iput i =>
      simp only [exec] at h
      split at h
      · rename_i u hu
        cases h
        obtain ⟨hlock, rfl⟩ := acquiresleep_ok hu
        exact .iput i hS (hfree hop) hlock
      · cases h
    | write i off de =>
      simp only [exec] at h
      obtain ⟨hoff, h⟩ := else_eq_ok.mp h
      cases h
      exact .write i off de hS hop.1 hop.2 (by omega)
    | setLink i =>
      cases h
      exact .setNlink _ i 1 hS hop.1 hop.2
    | addLink i | dropLink i =>
      cases h
      exact .setNlink _ i _ hS hop.1 hop.2
    | key i | type i | nlink i | slot i | isdirempty i | find i name =>
      cases h
      exact .look _ hS
    | load i | count i | itrunc i | free i | release i | unref i => exact absurd hop id

end LearnXv6.Icache
