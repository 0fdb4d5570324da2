import Ssr.Path.Proof.Walk
import Mathlib.Data.List.Induction

/-!
# clean_path

The loop goes through the components from the end and keeps count of the `..`s. A `Place` is where
one gets in reading order: `cleanLoop_eq_path` says that the loop writes down the way to the place,
with the pending levels as `..`s to be read after the components that it still has before it.
-/

set_option autoImplicit false

namespace Ssr.PosixPathTools

/-! ## The passes of the loop -/

namespace Cleaning

/-- A pass takes one component, and what the loop will make of the list stays the same. -/
theorem step_eq {s : Cleaning} {t : Token} {ahead : List Token} (h : s.ahead = t :: ahead) :
    ∃ s', s.step = some s' ∧ s'.ahead = ahead ∧
      cleanLoop s'.levels s'.ahead ++ s'.kept = cleanLoop s.levels s.ahead ++ s.kept := by
  obtain ⟨_, kept, levels⟩ := s
  subst h
  simp only [step, cleanLoop]
  split
  · exact ⟨_, rfl, rfl, rfl⟩
  · split
    · exact ⟨_, rfl, rfl, rfl⟩
    · split
      · exact ⟨_, rfl, rfl, rfl⟩
      · cases levels with
        | zero => exact ⟨_, rfl, rfl, by rw [List.append_assoc]; rfl⟩
        | succ levels => exact ⟨_, rfl, rfl, rfl⟩

theorem run_eq {n : ℕ} {s : Cleaning} (h : s.ahead.length ≤ n) :
    (run n s).step = none ∧ (run n s).tokens = cleanLoop s.levels s.ahead ++ s.kept := by
  induction n generalizing s with
  | zero =>
    obtain ⟨ahead, kept, levels⟩ := s
    obtain rfl : ahead = [] := List.eq_nil_of_length_eq_zero (Nat.le_zero.1 h)
    exact ⟨rfl, rfl⟩
  | succ n ih =>
    cases ha : s.ahead with
    | nil =>
      have hstep : s.step = none := by rw [step, ha]
      rw [run, hstep]
      refine ⟨hstep, ?_⟩
      rw [tokens, ha]
      rfl
    | cons t ahead =>
      obtain ⟨s', hs, hahead, hloop⟩ := step_eq ha
      rw [← ha, ← hloop, run, hs]
      refine ih ?_
      rw [ha, List.length_cons] at h
      rw [hahead]
      exact Nat.le_of_succ_le_succ h

end Cleaning

/-! ## Places -/

/-- A component that stays in a clean path. -/
def IsName (t : Token) : Prop := t ≠ [] ∧ t ≠ dot ∧ t ≠ dotdot

/-- The path without the empty component at its end. -/
def withoutSlash (ts : List Token) : List Token :=
  if ts.getLast? = some [] then ts.dropLast else ts

/-- Where path components lead: the names on the way, the last one first, and the `..`s that went
above the place where the path starts. -/
structure Place where
  above : ℕ
  dir : Directory
  name : ∀ t ∈ dir, IsName t
deriving DecidableEq

namespace Place

/-- Where every path starts. -/
def origin : Place := ⟨0, [], fun _ ht => absurd ht List.not_mem_nil⟩

/-- The directory above. -/
def parent : Place → Place
  | ⟨above, [], name⟩ => ⟨above + 1, [], name⟩
  | ⟨above, _ :: dir, name⟩ => ⟨above, dir, fun t ht => name t (List.mem_cons_of_mem _ ht)⟩

def enter (place : Place) (t : Token) : Place :=
  if h : t = [] ∨ t = dot then place
  else if h' : t = dotdot then place.parent
  else
    ⟨place.above, t :: place.dir, fun u hu => by
      rcases List.mem_cons.1 hu with rfl | hu
      · exact ⟨fun he => h (.inl he), fun he => h (.inr he), h'⟩
      · exact place.name u hu⟩

/-- The place to which path components lead. -/
def of (path : List Token) : Place := path.foldl enter origin

/-- The way to a place. -/
def path (place : Place) : List Token :=
  List.replicate place.above dotdot ++ place.dir.reverse

@[simp] theorem enter_nil (place : Place) : place.enter [] = place := rfl

@[simp] theorem enter_dot (place : Place) : place.enter dot = place := rfl

@[simp] theorem enter_dotdot (place : Place) : place.enter dotdot = place.parent := rfl

theorem enter_name {t : Token} (h : IsName t) (place : Place) :
    (place.enter t).above = place.above ∧ (place.enter t).dir = t :: place.dir := by
  unfold enter
  rw [dif_neg (not_or.2 ⟨h.1, h.2.1⟩), dif_neg h.2.2]
  exact ⟨rfl, rfl⟩

theorem parent_enter_name {t : Token} (h : IsName t) (place : Place) :
    (place.enter t).parent = place := by
  unfold enter
  rw [dif_neg (not_or.2 ⟨h.1, h.2.1⟩), dif_neg h.2.2]
  rfl

theorem path_enter_name {t : Token} (h : IsName t) (place : Place) :
    (place.enter t).path = place.path ++ [t] := by
  unfold path
  rw [(enter_name h place).1, (enter_name h place).2, List.reverse_cons, List.append_assoc]

theorem of_concat (ts : List Token) (t : Token) : of (ts ++ [t]) = (of ts).enter t := by
  rw [of, List.foldl_append]
  rfl

theorem of_nil_cons (ts : List Token) : of ([] :: ts) = of ts := rfl

theorem of_append (ts us : List Token) : of (ts ++ us) = us.foldl enter (of ts) :=
  List.foldl_append

theorem of_withoutSlash (ts : List Token) : of (withoutSlash ts) = of ts := by
  unfold withoutSlash
  split
  · rename_i h
    obtain ⟨us, rfl⟩ := List.getLast?_eq_some_iff.1 h
    rw [List.dropLast_concat, of_concat, enter_nil]
  · rfl

theorem of_replicate_dotdot (n : ℕ) : of (List.replicate n dotdot) = ⟨n, [], origin.name⟩ := by
  induction n with
  | zero => rfl
  | succ n ih =>
    rw [List.replicate_succ', of_concat, ih]
    rfl

/-- The way to a place leads there. -/
@[simp] theorem of_path (place : Place) : of place.path = place := by
  obtain ⟨above, dir, name⟩ := place
  unfold path
  simp only
  induction dir with
  | nil => rw [List.reverse_nil, List.append_nil, of_replicate_dotdot]
  | cons t dir ih =>
    have ht := name t List.mem_cons_self
    rw [List.reverse_cons, ← List.append_assoc, of_concat,
      ih fun u hu => name u (List.mem_cons_of_mem t hu), enter, dif_neg (not_or.2 ⟨ht.1, ht.2.1⟩),
      dif_neg ht.2.2]

theorem path_injective {place place' : Place} (h : place.path = place'.path) : place = place' := by
  rw [← of_path place, h, of_path]

theorem path_eq_nil {place : Place} : place.path = [] ↔ place = origin :=
  ⟨fun h => path_injective (h.trans rfl), fun h => by rw [h]; rfl⟩

theorem mem_path {place : Place} {t : Token} (h : t ∈ place.path) :
    t = dotdot ∨ t ∈ place.dir := by
  rcases List.mem_append.1 h with h | h
  · exact .inl (List.eq_of_mem_replicate h)
  · exact .inr (List.mem_reverse.1 h)

theorem nil_notMem_path (place : Place) : [] ∉ place.path := fun h => by
  rcases mem_path h with h | h
  · exact absurd h (by decide)
  · exact (place.name _ h).1 rfl

theorem dot_notMem_path (place : Place) : dot ∉ place.path := fun h => by
  rcases mem_path h with h | h
  · exact absurd h (by decide)
  · exact (place.name _ h).2.1 rfl

theorem mem_of {t : Token} {ts : List Token} (h : t ∈ (of ts).dir) : t ∈ ts := by
  induction ts using List.reverseRecOn with
  | nil => cases h
  | append_singleton ts u ih =>
    rw [of_concat, enter] at h
    split at h
    · exact List.mem_append_left [u] (ih h)
    · split at h
      · refine List.mem_append_left [u] (ih ?_)
        unfold parent at h
        split at h
        · cases h
        · rename_i hplace
          rw [hplace]
          exact List.mem_cons_of_mem _ h
      · rcases List.mem_cons.1 h with rfl | h
        · exact List.mem_append_right ts List.mem_cons_self
        · exact List.mem_append_left [u] (ih h)

end Place

/-- From a directory, a path leads up and then down. -/
theorem walk_eq (dir : Directory) (ts : List Token) :
    walk dir ts = (Place.of ts).dir ++ dir.drop (Place.of ts).above := by
  induction ts using List.reverseRecOn with
  | nil => rfl
  | append_singleton ts t ih =>
    rw [walk_append, ih, Place.of_concat, walk_cons, walk_nil, enter, Place.enter]
    split
    · rfl
    · split
      · unfold Place.parent
        split
        · rename_i hplace
          rw [hplace]
          exact List.tail_drop
        · rename_i hplace
          rw [hplace]
          rfl
      · rfl

/-- The levels that are pending stand for `..`s after the components that are left. -/
theorem cleanLoop_eq_path (levels : ℕ) (ts : List Token) :
    cleanLoop levels ts = (Place.of (ts.reverse ++ List.replicate levels dotdot)).path := by
  induction ts generalizing levels with
  | nil =>
    rw [List.reverse_nil, List.nil_append, Place.of_replicate_dotdot, cleanLoop, Place.path,
      List.reverse_nil, List.append_nil]
  | cons t ts ih =>
    rw [List.reverse_cons, Place.of_append, Place.of_concat]
    unfold cleanLoop
    split
    · rename_i h
      rw [ih, h, Place.enter_dot, Place.of_append]
    · rename_i h₁
      split
      · rename_i h
        rw [ih, h, List.replicate_succ, Place.of_append]
        rfl
      · rename_i h₂
        split
        · rename_i h
          rw [ih, h, Place.enter_nil, Place.of_append]
        · rename_i h
          have hname : IsName t := ⟨h, h₁, h₂⟩
          cases levels with
          | zero =>
            rw [ih, List.replicate_zero, List.append_nil, List.foldl_nil,
              Place.path_enter_name hname]
          | succ levels =>
            rw [List.replicate_succ, List.foldl_cons, Place.enter_dotdot,
              Place.parent_enter_name hname, ← Place.of_append]
            exact ih levels

/-- What is left of a path between its first and its last slash. -/
theorem cleanLoop_withoutSlash (ts : List Token) :
    cleanLoop 0 (withoutSlash ts).reverse = (Place.of ts).path := by
  rw [cleanLoop_eq_path, List.reverse_reverse, List.replicate_zero, List.append_nil,
    Place.of_withoutSlash]

/-- The empty component for a trailing slash. -/
def ending (slash : Prop) [Decidable slash] : List Token := if slash then [[]] else []

section Ending

variable {slash : Prop} [Decidable slash]

theorem ending_eq (slash : Prop) [Decidable slash] : ending slash = [] ∨ ending slash = [[]] := by
  unfold ending
  split
  · exact .inr rfl
  · exact .inl rfl

theorem eq_nil_of_mem_ending {t : Token} (h : t ∈ ending slash) : t = [] := by
  rcases ending_eq slash with hnil | hnil
  · rw [hnil] at h
    cases h
  · rw [hnil] at h
    exact List.mem_singleton.1 h

theorem ending_congr {slash' : Prop} [Decidable slash'] (h : slash ↔ slash') :
    ending slash = ending slash' := by
  unfold ending
  simp only [h]

theorem of_append_ending (ts : List Token) : Place.of (ts ++ ending slash) = Place.of ts := by
  rw [Place.of_append]
  rcases ending_eq slash with h | h <;> rw [h] <;> rfl

theorem getLast?_append_ending {ts : List Token} (h : ts.getLast? ≠ some []) :
    (ts ++ ending slash).getLast? = some [] ↔ slash := by
  unfold ending
  split
  · rename_i hs
    rw [List.getLast?_concat]
    exact iff_of_true rfl hs
  · rename_i hs
    rw [List.append_nil]
    exact iff_of_false h hs

end Ending

theorem Place.getLast?_path (place : Place) : place.path.getLast? ≠ some [] := fun h =>
  place.nil_notMem_path (List.mem_of_getLast? h)

/-- An absolute path. -/
theorem cleanPath_root (ts : List Token) : cleanPath ([] :: ts) =
    [] :: ((Place.of ts).path ++ ending (ts.getLast? = some [] ∨ Place.of ts = Place.origin)) := by
  have hloop := cleanLoop_withoutSlash ts
  unfold withoutSlash at hloop
  unfold cleanPath ending
  simp only [List.head?_cons, reduceCtorEq, if_false, if_true, List.tail_cons, hloop]
  by_cases hdir : ts.getLast? = some []
  · rw [if_pos hdir, if_pos (Or.inl hdir), if_neg (by simp)]
    rfl
  · rw [if_neg hdir]
    by_cases horigin : Place.of ts = Place.origin
    · rw [if_pos (Or.inr horigin), horigin]
      rfl
    · have hpath : (Place.of ts).path ≠ [] := fun h => horigin (Place.path_eq_nil.1 h)
      rw [if_neg (not_or.2 ⟨hdir, horigin⟩), if_neg (by simpa using hpath), List.append_nil]

/-- The way to a place that is never empty. -/
def Place.localPath (place : Place) : List Token :=
  if place = Place.origin then [dot] else place.path

theorem Place.localPath_eq (place : Place) :
    place.localPath = if place.path = [] then [dot] else place.path := by
  unfold localPath
  simp only [path_eq_nil]

theorem Place.nil_notMem_localPath (place : Place) : [] ∉ place.localPath := by
  unfold localPath
  split
  · decide
  · exact place.nil_notMem_path

theorem Place.localPath_ne_nil (place : Place) : place.localPath ≠ [] := by
  rw [localPath_eq]
  split
  · decide
  · rename_i h
    exact h

theorem Place.mem_localPath {place : Place} {t : Token} (h : t ∈ place.localPath) :
    t = dot ∨ t = dotdot ∨ t ∈ place.dir := by
  unfold localPath at h
  split at h
  · exact .inl (List.mem_singleton.1 h)
  · exact .inr (mem_path h)

/-- The root marker is no way to a place. -/
theorem Place.head?_localPath (place : Place) (ts : List Token) :
    (place.localPath ++ ts).head? ≠ some [] := by
  obtain ⟨u, us, hu⟩ := List.exists_cons_of_ne_nil place.localPath_ne_nil
  intro h
  rw [hu] at h
  exact place.nil_notMem_localPath (by rw [hu, Option.some.inj h]; exact List.mem_cons_self)

@[simp] theorem Place.of_localPath (place : Place) : of place.localPath = place := by
  unfold localPath
  split
  · rename_i h
    rw [h]
    rfl
  · exact of_path place

/-- A relative path. -/
theorem cleanPath_local {ts : List Token} (hne : ts ≠ []) (hhead : ts.head? ≠ some []) :
    cleanPath ts = (Place.of ts).localPath ++ ending (ts.getLast? = some []) := by
  have hloop := cleanLoop_withoutSlash ts
  unfold withoutSlash at hloop
  unfold cleanPath ending
  simp only [hne, hhead, if_false, hloop, ← Place.localPath_eq]
  by_cases hdir : ts.getLast? = some []
  · rw [if_pos hdir, if_neg fun h => Place.head?_localPath _ _ (by rw [h]; rfl), if_pos hdir]
  · rw [if_neg hdir, if_neg hdir, List.append_nil]
    refine if_neg fun h => (Place.of ts).nil_notMem_localPath ?_
    rw [h]
    exact List.mem_cons_self

/-! ## The form of a clean path -/

/-- The path without the empty component of the root. -/
def withoutRoot (ts : List Token) : List Token :=
  if ts.head? = some [] then ts.tail else ts

/-- The components that the loop goes through. -/
def body (ts : List Token) : List Token := withoutSlash (withoutRoot ts)

/-- `.` only for the current directory, empty components only at the ends, `..`s only at the
start. -/
structure IsNormal (ts : List Token) : Prop where
  dot : dot ∈ ts → ts = [dot] ∨ ts = [dot, []]
  empty : ∀ us vs, withoutRoot ts = us ++ [] :: vs → vs = []
  dotdot : ∃ levels rest, withoutRoot ts = List.replicate levels dotdot ++ rest ∧ dotdot ∉ rest

theorem eq_nil_of_empty {ts last us vs : List Token} (hlast : last = [] ∨ last = [[]])
    (h : [] ∉ ts) (he : ts ++ last = us ++ [] :: vs) : vs = [] := by
  rcases List.append_eq_append_iff.1 he with ⟨more, -, hend⟩ | ⟨more, hts, hend⟩
  · rcases hlast with rfl | rfl
    · cases more <;> cases hend
    · have hlen := congrArg List.length hend
      rw [List.length_append, List.length_cons, List.length_cons, List.length_nil] at hlen
      exact List.eq_nil_of_length_eq_zero (by omega)
  · cases more with
    | nil =>
      rcases hlast with rfl | rfl
      · cases hend
      · exact (List.cons.inj hend).2
    | cons t more =>
      rw [List.cons_append] at hend
      exact absurd (by rw [hts, (List.cons.inj hend).1]; simp) h

theorem Place.path_levels (place : Place) (slash : Prop) [Decidable slash] :
    ∃ levels rest, place.path ++ ending slash = List.replicate levels dotdot ++ rest ∧
      dotdot ∉ rest := by
  refine ⟨place.above, place.dir.reverse ++ ending slash, List.append_assoc _ _ _, fun h => ?_⟩
  rcases List.mem_append.1 h with h | h
  · exact (place.name _ (List.mem_reverse.1 h)).2.2 rfl
  · exact absurd (eq_nil_of_mem_ending h) (by decide)

theorem Place.localPath_levels (place : Place) (slash : Prop) [Decidable slash] :
    ∃ levels rest, place.localPath ++ ending slash = List.replicate levels dotdot ++ rest ∧
      dotdot ∉ rest := by
  unfold localPath
  split
  · refine ⟨0, [dot] ++ ending slash, rfl, fun h => ?_⟩
    rcases List.mem_append.1 h with h | h
    · exact absurd (List.mem_singleton.1 h) (by decide)
    · exact absurd (eq_nil_of_mem_ending h) (by decide)
  · exact place.path_levels slash

theorem isNormal_cleanPath (ts : List Token) : IsNormal (cleanPath ts) := by
  by_cases hne : ts = []
  · rw [hne]
    refine ⟨fun h => absurd h List.not_mem_nil, fun us vs h => ?_, 0, [], rfl, List.not_mem_nil⟩
    exact absurd h.symm (List.append_ne_nil_of_right_ne_nil us (List.cons_ne_nil _ _))
  by_cases hhead : ts.head? = some []
  · obtain ⟨ts, rfl⟩ := List.head?_eq_some_iff.1 hhead
    rw [cleanPath_root]
    refine ⟨fun h => ?_, fun us vs h => ?_, Place.path_levels _ _⟩
    · rcases List.mem_cons.1 h with h | h
      · cases h
      · rcases List.mem_append.1 h with h | h
        · exact absurd h (Place.dot_notMem_path _)
        · cases eq_nil_of_mem_ending h
    · exact eq_nil_of_empty (ending_eq _) (Place.nil_notMem_path _) h
  · rw [cleanPath_local hne hhead]
    have hroot : withoutRoot ((Place.of ts).localPath ++ ending (ts.getLast? = some [])) =
        (Place.of ts).localPath ++ ending (ts.getLast? = some []) :=
      if_neg (Place.head?_localPath _ _)
    refine ⟨fun h => ?_, fun us vs h => ?_, ?_⟩
    · rcases List.mem_append.1 h with h | h
      · unfold Place.localPath at h ⊢
        split at h
        · rename_i horigin
          rw [if_pos horigin]
          rcases ending_eq (ts.getLast? = some []) with hnil | hnil
          · exact .inl (by rw [hnil]; rfl)
          · exact .inr (by rw [hnil]; rfl)
        · exact absurd h (Place.dot_notMem_path _)
      · cases eq_nil_of_mem_ending h
    · rw [hroot] at h
      exact eq_nil_of_empty (ending_eq _) (Place.nil_notMem_localPath _) h
    · rw [hroot]
      exact Place.localPath_levels _ _

theorem head?_cleanPath (ts : List Token) :
    (cleanPath ts).head? = some [] ↔ ts.head? = some [] := by
  by_cases hne : ts = []
  · rw [hne]
    decide
  by_cases hhead : ts.head? = some []
  · obtain ⟨ts, rfl⟩ := List.head?_eq_some_iff.1 hhead
    rw [cleanPath_root]
    rfl
  · rw [cleanPath_local hne hhead]
    exact iff_of_false (Place.head?_localPath _ _) hhead

/-- A clean path leads to the same place. -/
theorem of_cleanPath (ts : List Token) : Place.of (cleanPath ts) = Place.of ts := by
  by_cases hne : ts = []
  · rw [hne]
    rfl
  by_cases hhead : ts.head? = some []
  · obtain ⟨ts, rfl⟩ := List.head?_eq_some_iff.1 hhead
    rw [cleanPath_root, Place.of_nil_cons, of_append_ending, Place.of_path, Place.of_nil_cons]
  · rw [cleanPath_local hne hhead, of_append_ending, Place.of_localPath]

theorem walk_cleanPath (dir : Directory) (ts : List Token) :
    walk dir (cleanPath ts) = walk dir ts := by
  rw [walk_eq, of_cleanPath, walk_eq]

theorem resolve_cleanPath (dir : Directory) (ts : List Token) :
    resolve dir (cleanPath ts) = resolve dir ts := by
  unfold resolve
  simp only [head?_cleanPath, walk_cleanPath]

theorem Place.getLast?_localPath (place : Place) : place.localPath.getLast? ≠ some [] := fun h =>
  place.nil_notMem_localPath (List.mem_of_getLast? h)

theorem getLast?_cleanPath (ts : List Token) :
    (cleanPath ts).getLast? = some [] ↔
      (withoutRoot ts).getLast? = some [] ∨ cleanPath ts = [[], []] := by
  by_cases hne : ts = []
  · rw [hne]
    decide
  by_cases hhead : ts.head? = some []
  · obtain ⟨ts, rfl⟩ := List.head?_eq_some_iff.1 hhead
    rw [cleanPath_root]
    have hroot : Place.of ts = Place.origin ↔ [] :: ((Place.of ts).path ++
        ending (ts.getLast? = some [] ∨ Place.of ts = Place.origin)) = [[], []] := by
      refine ⟨fun h => ?_, fun h => ?_⟩
      · rw [ending, if_pos (Or.inr h), h]
        rfl
      · have hplace := congrArg Place.of (List.cons.inj h).2
        rwa [of_append_ending, Place.of_path] at hplace
    have hcons : (Place.of ts).path ++
        ending (ts.getLast? = some [] ∨ Place.of ts = Place.origin) ≠ [] := by
      intro h
      obtain ⟨hpath, hend⟩ := List.append_eq_nil_iff.1 h
      rw [ending, if_pos (Or.inr (Place.path_eq_nil.1 hpath))] at hend
      cases hend
    obtain ⟨u, us, hu⟩ := List.exists_cons_of_ne_nil hcons
    rw [← hroot, hu, List.getLast?_cons_cons, ← hu, getLast?_append_ending (Place.getLast?_path _)]
    rfl
  · have hroot : withoutRoot ts = ts := if_neg hhead
    rw [cleanPath_local hne hhead, hroot, getLast?_append_ending (Place.getLast?_localPath _)]
    refine ⟨.inl, fun h => h.resolve_right fun hnil => ?_⟩
    exact Place.head?_localPath _ _ (by rw [hnil]; rfl)

theorem cleanPath_cleanPath (ts : List Token) : cleanPath (cleanPath ts) = cleanPath ts := by
  by_cases hne : ts = []
  · rw [hne]
    rfl
  by_cases hhead : ts.head? = some []
  · obtain ⟨ts, rfl⟩ := List.head?_eq_some_iff.1 hhead
    rw [cleanPath_root, cleanPath_root, of_append_ending, Place.of_path]
    congr 2
    refine ending_congr ?_
    rw [getLast?_append_ending (Place.getLast?_path _), or_assoc, or_self]
  · have hlocal : (Place.of ts).localPath ++ ending (ts.getLast? = some []) ≠ [] := fun h =>
      (Place.of ts).localPath_ne_nil (List.append_eq_nil_iff.1 h).1
    rw [cleanPath_local hne hhead, cleanPath_local hlocal (Place.head?_localPath _ _),
      of_append_ending, Place.of_localPath]
    congr 1
    exact ending_congr (getLast?_append_ending (Place.getLast?_localPath _))

/-- **`clean_path`**: the loop ends, and the path that it leaves is in normal form and leads where it
led before. -/
theorem cleanPath_normalises (ts : List Token) :
    (∃ s, Cleaning.run (body ts).length (Cleaning.start (body ts)) = s ∧ s.step = none ∧
      s.tokens = cleanLoop 0 (body ts).reverse) ∧
    (∀ dir, resolve dir (cleanPath ts) = resolve dir ts) ∧
    ((cleanPath ts).getLast? = some [] ↔
      (withoutRoot ts).getLast? = some [] ∨ cleanPath ts = [[], []]) ∧
    IsNormal (cleanPath ts) ∧ cleanPath (cleanPath ts) = cleanPath ts ∧ cleanPath [] = [] := by
  have hlength : (body ts).reverse.length ≤ (body ts).length :=
    Nat.le_of_eq List.length_reverse
  obtain ⟨hend, htokens⟩ := Cleaning.run_eq (s := Cleaning.start (body ts)) hlength
  refine ⟨⟨_, rfl, hend, htokens.trans (List.append_nil _)⟩, fun dir => resolve_cleanPath dir ts,
    getLast?_cleanPath ts, isNormal_cleanPath ts, cleanPath_cleanPath ts, rfl⟩

end Ssr.PosixPathTools
