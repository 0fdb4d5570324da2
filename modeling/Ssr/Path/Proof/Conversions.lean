import Ssr.Path.Proof.Resolve

/-!
# The two conversions of scene files

One undoes the other (`conversions_file`). Both give relative paths, but a slash at the end of the
path gets lost when nothing of the path is left after the common directories: `keepsSlash_iff`.
-/

set_option autoImplicit false

namespace Ssr.PosixPathTools

/-! ## The file stays the same -/

theorem isRelative_eq_false {path : String} (h : path = "" ∨ path.toList.head? = some '/') :
    isRelative path = false := by
  unfold isRelative
  rcases h with rfl | h
  · rfl
  · obtain ⟨s, hs⟩ := List.head?_eq_some_iff.1 h
    rw [hs]
    rfl

/-- **The conversions** keep the file that a path designates, and each undoes the other; absolute
and empty paths are not converted. -/
theorem conversions_file {cwd : String} (hcwd : IsAbsolute cwd) (path filename : String) :
    (file (directory cwd filename) (makePathRelativeToFile cwd path filename) =
        file (currentDir cwd) path ∧
      file (currentDir cwd) (makePathRelativeToCurrentDir cwd path filename) =
        file (directory cwd filename) path) ∧
    (file (currentDir cwd) (makePathRelativeToCurrentDir cwd
          (makePathRelativeToFile cwd path filename) filename) = file (currentDir cwd) path ∧
      file (directory cwd filename) (makePathRelativeToFile cwd
          (makePathRelativeToCurrentDir cwd path filename) filename) =
        file (directory cwd filename) path) ∧
    (path = "" ∨ path.toList.head? = some '/' →
      makePathRelativeToFile cwd path filename = path ∧
        makePathRelativeToCurrentDir cwd path filename = path) := by
  have hto := file_relativeToFile hcwd
  have hfrom := file_relativeToCurrentDir hcwd
  refine ⟨⟨hto path filename, hfrom path filename⟩, ⟨?_, ?_⟩, fun h => ?_⟩
  · rw [hfrom, hto]
  · rw [hto, hfrom]
  · have hrel := isRelative_eq_false h
    unfold makePathRelativeToFile makePathRelativeToCurrentDir
    rw [hrel]
    exact ⟨rfl, rfl⟩

/-- A path in the directory of a scene, and back. -/
theorem conversions_file_scene :
    IsAbsolute "/home/x" ∧
      file (currentDir "/home/x") (makePathRelativeToCurrentDir "/home/x"
        (makePathRelativeToFile "/home/x" "../a.wav" "b/s.asd") "b/s.asd") =
      file (currentDir "/home/x") "../a.wav" :=
  ⟨by decide, (conversions_file (by decide) "../a.wav" "b/s.asd").2.1.1⟩

/-! ## The slash at the end -/

def HasSlash (path : String) : Prop := path.toList.getLast? = some '/'

instance (path : String) : Decidable (HasSlash path) := inferInstanceAs (Decidable (_ = _))

theorem splitSlash_concat_slash (s : List Char) :
    splitSlash (s ++ ['/']) = splitSlash s ++ [[]] := by
  induction s with
  | nil => rfl
  | cons c s ih =>
    by_cases hc : c = '/'
    · rw [List.cons_append, splitSlash, if_pos hc, ih, splitSlash, if_pos hc]
      rfl
    · obtain ⟨t, ts, hs, hcs⟩ := splitSlash_cons hc s
      rw [List.cons_append, splitSlash, if_neg hc, ih, hs, hcs]
      rfl

theorem getLast?_splitSlash_concat {c : Char} (hc : c ≠ '/') (s : List Char) :
    (splitSlash (s ++ [c])).getLast? ≠ some [] := by
  induction s with
  | nil =>
    rw [List.nil_append, splitSlash_token (by simpa using Ne.symm hc)]
    simp
  | cons d s ih =>
    obtain ⟨t, ts, hs⟩ := List.exists_cons_of_ne_nil (splitSlash_ne_nil (s ++ [c]))
    rw [hs] at ih
    rw [List.cons_append, splitSlash]
    split
    · rwa [hs, List.getLast?_cons_cons]
    · rw [hs]
      cases ts with
      | nil => simp
      | cons u us =>
        rwa [List.getLast?_cons_cons] at ih ⊢

/-- A slash at the end is an empty component at the end. -/
theorem getLast?_tokenize {path : String} (hne : path ≠ "") :
    (tokenize path).getLast? = some [] ↔ HasSlash path := by
  have hlist : path.toList ≠ [] := fun h => hne (String.toList_eq_nil_iff.1 h)
  unfold tokenize HasSlash
  obtain hnil | ⟨s, c, hs⟩ := List.eq_nil_or_concat path.toList
  · exact absurd hnil hlist
  · rw [hs, List.concat_eq_append, List.getLast?_concat]
    by_cases hc : c = '/'
    · rw [hc, splitSlash_concat_slash, List.getLast?_concat]
      exact iff_of_true rfl rfl
    · exact iff_of_false (getLast?_splitSlash_concat hc s) fun h => hc (Option.some.inj h)

theorem hasSlash_untokenize {ts : List Token} (h : ∀ t ∈ ts, '/' ∉ t)
    (hrel : ts.head? ≠ some []) : HasSlash (untokenize ts) ↔ ts.getLast? = some [] := by
  by_cases hne : ts = []
  · rw [hne]
    decide
  · rw [← getLast?_tokenize (untokenize_ne_empty ts), tokenize_untokenize h hrel hne]

theorem isRelative_untokenize {ts : List Token} (h : ∀ t ∈ ts, '/' ∉ t)
    (hrel : ts.head? ≠ some []) : isRelative (untokenize ts) = true := by
  rw [isRelative_iff]
  refine ⟨untokenize_ne_empty ts, ?_⟩
  by_cases hne : ts = []
  · rw [hne]
    decide
  · rwa [tokenize_untokenize h hrel hne]

theorem removeCommon_eq_nil (path dir : List Token) :
    (removeCommon path dir).1 = [] ↔ path <+: dir := by
  induction path generalizing dir with
  | nil => simp [removeCommon]
  | cons p path ih =>
    cases dir with
    | nil => simp [removeCommon]
    | cons d dir =>
      rw [removeCommon, List.cons_prefix_cons]
      split
      · rename_i h
        rw [ih]
        exact ⟨fun hp => ⟨h, hp⟩, And.right⟩
      · rename_i h
        exact ⟨fun he => absurd he (List.cons_ne_nil p path), fun hp => absurd hp.1 h⟩

/-- With a slash at its end, the way to a place is part of another one only if it is the same. -/
theorem path_isPrefix {place place' : Place} {slash : Prop} [Decidable slash] :
    place.path ++ [[]] <+: place'.path ++ ending slash ↔ place = place' ∧ slash := by
  refine ⟨fun ⟨more, h⟩ => ?_, fun ⟨hplace, hs⟩ => ?_⟩
  · rw [List.append_assoc] at h
    obtain rfl := eq_nil_of_empty (ending_eq _) (Place.nil_notMem_path place') h.symm
    have hplace := congrArg Place.of h
    rw [List.append_nil, of_append_ending, Place.of_path, Place.of_concat, Place.of_path] at hplace
    refine ⟨hplace, Decidable.byContradiction fun hs => Place.nil_notMem_path place' ?_⟩
    rw [ending, if_neg hs, List.append_nil, List.append_nil] at h
    rw [← h]
    exact List.mem_append_right _ List.mem_cons_self
  · have hend : ending slash = [[]] := if_pos hs
    exact ⟨[], by rw [List.append_nil, hplace, hend]⟩

/-- From the current directory, both paths lead to the same place, and the directory, too, ends with
a slash or is the root. -/
def Meet (cwd : String) (path dir : List Token) : Prop :=
  placeIn cwd path = placeIn cwd dir ∧
    (dir.getLast? = some [] ∨ placeIn cwd dir = Place.origin)

/-- Only if the path and the directory meet, `make_relative` takes the empty component at the end of
the path for a common parent. -/
theorem getLast?_makeRelative {cwd : String} (hcwd : IsAbsolute cwd) {path : List Token}
    (hslash : path.getLast? = some []) (dir : List Token) :
    (makeRelative cwd path dir).getLast? = some [] ↔ ¬Meet cwd path dir := by
  have hne : path ≠ [] := fun h => by rw [h] at hslash; cases hslash
  unfold makeRelative
  simp only [cleanPath_makeAbsolute hcwd hne, cleanPath_base hcwd, removeCommon_cons]
  have hfromRoot : fromRoot cwd path = (placeIn cwd path).path ++ [[]] := by
    rw [fromRoot, ending, if_pos (Or.inl hslash)]
  have hnil : (removeCommon (fromRoot cwd path) (fromRoot cwd dir)).1 = [] ↔ Meet cwd path dir := by
    rw [removeCommon_eq_nil, hfromRoot]
    exact path_isPrefix
  obtain ⟨common, hpath, -⟩ := removeCommon_eq (fromRoot cwd path) (fromRoot cwd dir)
  generalize removeCommon (fromRoot cwd path) (fromRoot cwd dir) = rest at hnil hpath ⊢
  by_cases hrest : rest.1 = []
  · have hends : ∀ n, List.getLast? (List.replicate n dotdot) ≠ some [] := fun n h =>
      absurd (List.eq_of_mem_replicate (List.mem_of_getLast? h)) (by decide)
    rw [hrest, List.append_nil, if_neg fun h => hends _ (by rw [h]; rfl)]
    exact iff_of_false (hends _) fun h => h (hnil.1 hrest)
  · refine iff_of_true ?_ fun h => hrest (hnil.2 h)
    split
    · rfl
    · have hlast := congrArg List.getLast? hpath
      rw [hfromRoot, List.getLast?_append_of_ne_nil common hrest, List.getLast?_concat] at hlast
      rw [List.getLast?_append_of_ne_nil _ hrest, ← hlast]

theorem untokenize_slash {path : String} {ts : List Token} (h : ∀ t ∈ ts, '/' ∉ t)
    (hhead : ts.head? ≠ some []) {keeps : Prop}
    (hkeeps : HasSlash path → (ts.getLast? = some [] ↔ keeps)) :
    isRelative (untokenize ts) = true ∧ (HasSlash path → (HasSlash (untokenize ts) ↔ keeps)) :=
  ⟨isRelative_untokenize h hhead, fun hs => (hasSlash_untokenize h hhead).trans (hkeeps hs)⟩

theorem toFile_slash {cwd path : String} (hcwd : IsAbsolute cwd) (hrel : isRelative path = true)
    (filename : String) : isRelative (makePathRelativeToFile cwd path filename) = true ∧
      (HasSlash path → (HasSlash (makePathRelativeToFile cwd path filename) ↔
        ¬(removeLastComponent (tokenize filename) ≠ [] ∧
          removeLastComponent (tokenize filename) ≠ [dot] ∧
          Meet cwd (tokenize path) (removeLastComponent (tokenize filename))))) := by
  obtain ⟨hne, hhead⟩ := isRelative_iff.1 hrel
  unfold makePathRelativeToFile
  rw [if_pos hrel]
  simp only
  split
  · rename_i hdir
    refine untokenize_slash (not_mem_cleanPath hrel) (mt (head?_cleanPath _).1 hhead) fun hs => ?_
    refine iff_of_true ?_ fun h => hdir.elim h.1 h.2.1
    rw [cleanPath_local (tokenize_ne_nil path) hhead,
      getLast?_append_ending (Place.getLast?_localPath _)]
    exact (getLast?_tokenize hne).2 hs
  · rename_i hdir
    obtain ⟨hhead', hmem, -⟩ := walk_makeRelative hcwd
      (removeLastComponent (tokenize filename)) (tokenize_ne_nil path) not_mem_splitSlash
    refine untokenize_slash hmem hhead' fun hs => ?_
    rw [getLast?_makeRelative hcwd ((getLast?_tokenize hne).2 hs), ← and_assoc]
    exact not_congr (iff_and_self.2 fun _ => not_or.1 hdir)

theorem toCurrentDir_slash {cwd path : String} (hcwd : IsAbsolute cwd)
    (hrel : isRelative path = true) (filename : String) :
    isRelative (makePathRelativeToCurrentDir cwd path filename) = true ∧
      (HasSlash path → (HasSlash (makePathRelativeToCurrentDir cwd path filename) ↔
        ¬Meet cwd (removeLastComponent (tokenize filename) ++ tokenize path) [])) := by
  obtain ⟨hne, -⟩ := isRelative_iff.1 hrel
  unfold makePathRelativeToCurrentDir
  rw [if_pos hrel]
  obtain ⟨hhead, hmem, -⟩ := walk_makeRelative hcwd [] (append_tokenize_ne_nil _ path)
    (not_mem_append path filename)
  refine untokenize_slash hmem hhead fun hs => getLast?_makeRelative hcwd ?_ []
  rw [List.getLast?_append_of_ne_nil _ (tokenize_ne_nil path)]
  exact (getLast?_tokenize hne).2 hs

/-- The result is relative, and a slash at the end of the path is there again. -/
def Kept (path result : String) : Prop :=
  isRelative result = true ∧ (HasSlash path → HasSlash result)

instance (path result : String) : Decidable (Kept path result) :=
  inferInstanceAs (Decidable (_ ∧ _))

theorem kept_iff {path result : String} {keeps : Prop}
    (h : isRelative result = true ∧ (HasSlash path → (HasSlash result ↔ keeps))) :
    Kept path result ↔ (HasSlash path → keeps) :=
  ⟨fun hk hs => (h.2 hs).1 (hk.2 hs), fun hk => ⟨h.1, fun hs => (h.2 hs).2 (hk hs)⟩⟩

/-- **Relativity and the slash**: the converted paths are relative. The slash at the end of the path
is lost exactly if the path leads to the directory that it is to be read in and this is the root or,
like the directory of `a//b`, ends with a slash of its own. -/
theorem keepsSlash_iff {cwd path : String} (hcwd : IsAbsolute cwd) (hrel : isRelative path = true)
    (filename : String) :
    (isRelative (makePathRelativeToFile cwd path filename) = true ∧
      isRelative (makePathRelativeToCurrentDir cwd path filename) = true) ∧
    (Kept path (makePathRelativeToFile cwd path filename) ↔
      (HasSlash path → ¬(removeLastComponent (tokenize filename) ≠ [] ∧
        removeLastComponent (tokenize filename) ≠ [dot] ∧
        Meet cwd (tokenize path) (removeLastComponent (tokenize filename))))) ∧
    (Kept path (makePathRelativeToCurrentDir cwd path filename) ↔
      (HasSlash path →
        ¬Meet cwd (removeLastComponent (tokenize filename) ++ tokenize path) [])) :=
  have htoFile := toFile_slash hcwd hrel filename
  have htoCurrentDir := toCurrentDir_slash hcwd hrel filename
  ⟨⟨htoFile.1, htoCurrentDir.1⟩, kept_iff htoFile, kept_iff htoCurrentDir⟩

theorem keepsSlash_iff_parent :
    (IsAbsolute "/c/d" ∧ isRelative "../" = true) ∧
      (Kept "../" (makePathRelativeToFile "/c/d" "../" "e/x") ↔
        (HasSlash "../" → ¬(removeLastComponent (tokenize "e/x") ≠ [] ∧
          removeLastComponent (tokenize "e/x") ≠ [dot] ∧
          Meet "/c/d" (tokenize "../") (removeLastComponent (tokenize "e/x"))))) :=
  ⟨by decide, (keepsSlash_iff (by decide) (by decide) "e/x").2.1⟩

/-- The directory of `a//x` ends with a slash of its own. -/
example : makePathRelativeToFile "/c" "a/" "a//x" = "." := by decide

/-- Nothing is left of the root. -/
theorem root_loses_slash :
    makePathRelativeToFile "/c" "../" "/x" = "." ∧
      makePathRelativeToCurrentDir "/" "./" "x" = "." ∧
      ¬∀ cwd path filename, IsAbsolute cwd → isRelative path = true →
        Kept path (makePathRelativeToFile cwd path filename) ∧
          Kept path (makePathRelativeToCurrentDir cwd path filename) :=
  ⟨by decide, by decide, fun h =>
    absurd (h "/c" "../" "/x" (by decide) (by decide)).1 (by decide)⟩

end Ssr.PosixPathTools
