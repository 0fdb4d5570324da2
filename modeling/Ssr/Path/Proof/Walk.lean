import Ssr.Path.PosixPathTools
import Mathlib.Data.List.Basic

/-!
# What a path designates

`walk` follows path components from a directory and `file` says which file a path designates; like
the code, both know nothing of symbolic links.
-/

set_option autoImplicit false

namespace Ssr.PosixPathTools

/-- A directory: the names on the way to it from the root, the last one first. -/
abbrev Directory := List Token

/-- One component of a path. The parent of the root is the root. -/
def enter (dir : Directory) (t : Token) : Directory :=
  if t = [] ∨ t = dot then dir
  else if t = dotdot then dir.tail
  else t :: dir

def walk (dir : Directory) (path : List Token) : Directory := path.foldl enter dir

/-- A path that starts with a slash starts at the root. -/
def resolve (dir : Directory) (path : List Token) : Directory :=
  if path.head? = some [] then walk [] path else walk dir path

/-- The file that a path designates, read in the directory `dir`. -/
def file (dir : Directory) (path : String) : Option Directory :=
  if path = "" then none else some (resolve dir (tokenize path))

def currentDir (cwd : String) : Directory := walk [] (tokenize cwd)

/-- The directory part of a file name. -/
def directory (cwd filename : String) : Directory :=
  resolve (currentDir cwd) (removeLastComponent (tokenize filename))

/-- The directory starts with a slash, as `getcwd` returns it. -/
def IsAbsolute (cwd : String) : Prop := (tokenize cwd).head? = some []

instance (cwd : String) : Decidable (IsAbsolute cwd) :=
  inferInstanceAs (Decidable (_ = _))

/-! ## Steps -/

@[simp] theorem enter_nil (dir : Directory) : enter dir [] = dir := rfl

@[simp] theorem enter_dot (dir : Directory) : enter dir dot = dir := rfl

@[simp] theorem enter_dotdot (dir : Directory) : enter dir dotdot = dir.tail := rfl

theorem enter_name {t : Token} (h : t ≠ []) (h₁ : t ≠ dot) (h₂ : t ≠ dotdot) (dir : Directory) :
    enter dir t = t :: dir := by
  unfold enter
  rw [if_neg (not_or.2 ⟨h, h₁⟩), if_neg h₂]

@[simp] theorem walk_nil (dir : Directory) : walk dir [] = dir := rfl

@[simp] theorem walk_cons (dir : Directory) (t : Token) (ts : List Token) :
    walk dir (t :: ts) = walk (enter dir t) ts := rfl

@[simp] theorem walk_append (dir : Directory) (ts us : List Token) :
    walk dir (ts ++ us) = walk (walk dir ts) us := List.foldl_append

theorem walk_replicate_dotdot (n : ℕ) (dir : Directory) :
    walk dir (List.replicate n dotdot) = dir.drop n := by
  induction n generalizing dir with
  | zero => rfl
  | succ n ih => rw [List.replicate_succ, walk_cons, ih, enter_dotdot, List.drop_tail]

/-- At the root, `..` leads nowhere. -/
theorem walk_root {ts : List Token} (h : ∀ t ∈ ts, t = [] ∨ t = dotdot) : walk [] ts = [] := by
  induction ts with
  | nil => rfl
  | cons t ts ih =>
    have ht := ih fun u hu => h u (List.mem_cons_of_mem t hu)
    rcases h t List.mem_cons_self with rfl | rfl
    · exact ht
    · exact ht

theorem length_enter_le (dir : Directory) (t : Token) :
    (enter dir t).length ≤ dir.length + if t ≠ [] then 1 else 0 := by
  by_cases h : t = []
  · simp [h]
  · unfold enter
    split
    · omega
    · split
      · rw [List.length_tail]
        omega
      · exact Nat.le_refl _

theorem length_walk_le (dir : Directory) (ts : List Token) :
    (walk dir ts).length ≤ dir.length + ts.countP (· ≠ []) := by
  induction ts generalizing dir with
  | nil => simp
  | cons t ts ih =>
    have h₁ := ih (enter dir t)
    have h₂ := length_enter_le dir t
    rw [List.countP_cons, walk_cons]
    simp only [decide_eq_true_eq] at *
    omega

/-- Components without `.` and `..` can be undone one by one. -/
theorem drop_walk_names {ts : List Token} (h : ∀ t ∈ ts, t ≠ dot ∧ t ≠ dotdot) (dir : Directory) :
    (walk dir ts).drop (ts.countP (· ≠ [])) = dir := by
  induction ts generalizing dir with
  | nil => rfl
  | cons t ts ih =>
    have ih := ih fun u hu => h u (List.mem_cons_of_mem t hu)
    obtain ⟨h₁, h₂⟩ := h t List.mem_cons_self
    rw [walk_cons, List.countP_cons]
    by_cases ht : t = []
    · subst ht
      exact ih dir
    · rw [enter_name ht h₁ h₂, if_pos (by simpa using ht), ← List.drop_drop, ih]
      rfl

theorem resolve_append {ts : List Token} (h : ts.head? ≠ some []) (dir : Directory)
    (us : List Token) : resolve dir (us ++ ts) = walk (resolve dir us) ts := by
  cases us with
  | nil => rw [List.nil_append, resolve, if_neg h, resolve, if_neg (by simp), walk_nil]
  | cons u us =>
    unfold resolve
    rw [List.cons_append, List.head?_cons, List.head?_cons, ← List.cons_append, walk_append,
      walk_append]
    split <;> rfl

end Ssr.PosixPathTools
