import Ssr.Path.Proof.CleanPath

/-!
# Paths lead where they did

`make_relative` finds the way from a directory to a file (`walk_makeRelative`), and with it the two
conversions of scene files keep the file that a path designates: `file_relativeToFile` and
`file_relativeToCurrentDir`.
-/

set_option autoImplicit false

namespace Ssr.PosixPathTools

/-! ## Clean paths -/

/-- What `clean_path` makes of a path: at the end there may be an empty component for a trailing
slash. -/
structure Clean (ts : List Token) (levels : ℕ) (names last : List Token) : Prop where
  eq : ts = List.replicate levels dotdot ++ names ++ last
  name : ∀ t ∈ names, IsName t
  last : last = [] ∨ last = [[]]

theorem Place.clean (place : Place) (slash : Prop) [Decidable slash] :
    Clean (place.path ++ ending slash) place.above place.dir.reverse (ending slash) :=
  ⟨rfl, fun t ht => place.name t (List.mem_reverse.1 ht), ending_eq slash⟩

theorem mem_cleanPath {ts : List Token} (hhead : ts.head? ≠ some []) {t : Token}
    (h : t ∈ cleanPath ts) : t ∈ [[], dot, dotdot] ∨ t ∈ ts := by
  by_cases hne : ts = []
  · rw [hne] at h
    cases h
  rw [cleanPath_local hne hhead] at h
  rcases List.mem_append.1 h with h | h
  · rcases Place.mem_localPath h with rfl | rfl | h
    · exact .inl (by decide)
    · exact .inl (by decide)
    · exact .inr (Place.mem_of h)
  · rw [eq_nil_of_mem_ending h]
    exact .inl (by decide)

/-! ## Tokens -/

theorem splitSlash_ne_nil (s : List Char) : splitSlash s ≠ [] := by
  cases s with
  | nil => simp [splitSlash]
  | cons c s =>
    unfold splitSlash
    split
    · simp
    · split <;> simp

theorem splitSlash_cons {c : Char} (hc : c ≠ '/') (s : List Char) :
    ∃ t ts, splitSlash s = t :: ts ∧ splitSlash (c :: s) = (c :: t) :: ts := by
  cases hs : splitSlash s with
  | nil => exact absurd hs (splitSlash_ne_nil s)
  | cons t ts => exact ⟨t, ts, rfl, by rw [splitSlash, if_neg hc, hs]⟩

theorem not_mem_splitSlash {s : List Char} : ∀ t ∈ splitSlash s, '/' ∉ t := by
  induction s with
  | nil =>
    intro t ht
    rw [List.mem_singleton.1 ht]
    exact List.not_mem_nil
  | cons c s ih =>
    intro t ht
    by_cases hc : c = '/'
    · rw [splitSlash, if_pos hc] at ht
      rcases List.mem_cons.1 ht with rfl | ht
      · exact List.not_mem_nil
      · exact ih t ht
    · obtain ⟨u, us, hs, hcs⟩ := splitSlash_cons hc s
      rw [hcs] at ht
      rcases List.mem_cons.1 ht with rfl | ht
      · intro hmem
        rcases List.mem_cons.1 hmem with h | h
        · exact hc h.symm
        · exact ih u (by rw [hs]; exact List.mem_cons_self) h
      · exact ih t (by rw [hs]; exact List.mem_cons_of_mem u ht)

theorem splitSlash_token {t : Token} (ht : '/' ∉ t) : splitSlash t = [t] := by
  induction t with
  | nil => rfl
  | cons c t ih =>
    rw [List.mem_cons, not_or] at ht
    rw [splitSlash, if_neg (Ne.symm ht.1), ih ht.2]

theorem splitSlash_append {t : Token} (ht : '/' ∉ t) (s : List Char) :
    splitSlash (t ++ '/' :: s) = t :: splitSlash s := by
  induction t with
  | nil => rw [List.nil_append, splitSlash, if_pos rfl]
  | cons c t ih =>
    rw [List.mem_cons, not_or] at ht
    rw [List.cons_append, splitSlash, if_neg (Ne.symm ht.1), ih ht.2]

theorem splitSlash_joinSlash {t : Token} {ts : List Token} (h : ∀ u ∈ t :: ts, '/' ∉ u) :
    splitSlash (joinSlash (t :: ts)) = t :: ts := by
  induction ts generalizing t with
  | nil => exact splitSlash_token (h t List.mem_cons_self)
  | cons u us ih =>
    rw [joinSlash.eq_def]
    simp only
    rw [splitSlash_append (h t List.mem_cons_self), ih fun v hv => h v (List.mem_cons_of_mem t hv)]

theorem untokenize_ne_empty (ts : List Token) : untokenize ts ≠ "" := by
  unfold untokenize
  simp only
  split
  · decide
  · rename_i h
    exact fun he => h (String.ofList_eq_empty_iff.1 he)

theorem tokenize_untokenize {ts : List Token} (h : ∀ t ∈ ts, '/' ∉ t) (hrel : ts.head? ≠ some [])
    (hne : ts ≠ []) : tokenize (untokenize ts) = ts := by
  obtain ⟨t, ts, rfl⟩ := List.exists_cons_of_ne_nil hne
  have hjoin : joinSlash (t :: ts) ≠ [] := by
    intro he
    have hsplit := splitSlash_joinSlash h
    rw [he] at hsplit
    exact hrel (by rw [← hsplit]; rfl)
  unfold untokenize tokenize
  rw [if_neg hjoin, String.toList_ofList, splitSlash_joinSlash h]

/-- A relative path designates what its components lead to. -/
theorem file_untokenize {ts : List Token} (h : ∀ t ∈ ts, '/' ∉ t) (hrel : ts.head? ≠ some [])
    (dir : Directory) : file dir (untokenize ts) = some (walk dir ts) := by
  unfold file
  rw [if_neg (untokenize_ne_empty ts)]
  by_cases hne : ts = []
  · rw [hne]
    rfl
  · rw [tokenize_untokenize h hrel hne, resolve, if_neg hrel]

/-! ## make_relative -/

theorem removeCommon_cons (t : Token) (path dir : List Token) :
    removeCommon (t :: path) (t :: dir) = removeCommon path dir :=
  if_pos rfl

theorem removeCommon_eq (path dir : List Token) : ∃ common,
    path = common ++ (removeCommon path dir).1 ∧ dir = common ++ (removeCommon path dir).2 := by
  induction path generalizing dir with
  | nil => exact ⟨[], rfl, rfl⟩
  | cons p path ih =>
    cases dir with
    | nil => exact ⟨[], rfl, rfl⟩
    | cons d dir =>
      by_cases h : p = d
      · obtain ⟨common, hp, hd⟩ := ih dir
        subst h
        rw [removeCommon_cons]
        exact ⟨p :: common, congrArg (p :: ·) hp, congrArg (p :: ·) hd⟩
      · refine ⟨[], ?_, ?_⟩
        · rw [removeCommon, if_neg h]
          rfl
        · rw [removeCommon, if_neg h]
          rfl

/-- The way back from the end of a clean path. -/
theorem Clean.drop_walk {ts names last common rest : List Token} {levels : ℕ}
    (h : Clean ts levels names last) (he : ts = common ++ rest) :
    (walk (walk [] common) rest).drop (rest.countP (· ≠ [])) = walk [] common := by
  have hsplit : List.replicate levels dotdot ++ (names ++ last) = common ++ rest := by
    rw [← List.append_assoc, ← h.eq, he]
  rcases List.append_eq_append_iff.1 hsplit with ⟨more, rfl, hrest⟩ | ⟨more, hcommon, rfl⟩
  · refine drop_walk_names (fun t ht => ?_) _
    have hmem : t ∈ names ++ last := by rw [hrest]; exact List.mem_append_right more ht
    rcases List.mem_append.1 hmem with hmem | hmem
    · exact (h.name t hmem).2
    · rcases h.last with hl | hl
      · rw [hl] at hmem
        cases hmem
      · rw [hl] at hmem
        rw [List.mem_singleton.1 hmem]
        decide
  · have hroot : walk [] common = [] := walk_root fun t ht => .inr <| List.eq_of_mem_replicate
      (by rw [hcommon]; exact List.mem_append_left more ht)
    rw [hroot, List.drop_eq_nil_iff]
    exact Nat.le_trans (length_walk_le [] _) (Nat.le_of_eq (Nat.zero_add _))

/-- In a clean path, only the last component can be empty. -/
theorem Clean.eq_nil_of_empty {ts names last common rest : List Token} {levels : ℕ}
    (h : Clean ts levels names last) (he : ts = common ++ [] :: rest) : rest = [] := by
  have hne : [] ∉ List.replicate levels dotdot ++ names := by
    intro hmem
    rcases List.mem_append.1 hmem with hmem | hmem
    · exact absurd (List.eq_of_mem_replicate hmem) (by decide)
    · exact (h.name [] hmem).1 rfl
  exact PosixPathTools.eq_nil_of_empty h.last hne (h.eq.symm.trans he)

/-- The place to which a path leads from the current directory. -/
def placeIn (cwd : String) (path : List Token) : Place :=
  Place.of (if path.head? = some [] then path else tokenize cwd ++ path)

/-- The absolute path that `make_relative` compares, after the slash at its start. -/
def fromRoot (cwd : String) (path : List Token) : List Token :=
  (placeIn cwd path).path ++ ending (path.getLast? = some [] ∨ placeIn cwd path = Place.origin)

theorem cleanPath_makeAbsolute {cwd : String} (hcwd : IsAbsolute cwd) {path : List Token}
    (hne : path ≠ []) : cleanPath (makeAbsolute cwd path) = [] :: fromRoot cwd path := by
  obtain ⟨t, ts, rfl⟩ := List.exists_cons_of_ne_nil hne
  by_cases ht : t = []
  · subst ht
    have hlast : ts.getLast? = some [] ∨ Place.of ts = Place.origin ↔
        ([] :: ts).getLast? = some [] ∨ Place.of ts = Place.origin := by
      cases ts with
      | nil => exact iff_of_true (.inr rfl) (.inl rfl)
      | cons u us => rw [List.getLast?_cons_cons]
    exact (cleanPath_root ts).trans (congrArg (fun e => [] :: ((Place.of ts).path ++ e))
      (ending_congr hlast))
  · obtain ⟨us, hus⟩ := List.head?_eq_some_iff.1 hcwd
    have hhead : ¬(t :: ts).head? = some [] := fun h => ht (Option.some.inj h)
    rw [fromRoot, placeIn, if_neg hhead, makeAbsolute, if_neg ht, hus, List.cons_append,
      cleanPath_root, Place.of_nil_cons]
    simp only [List.getLast?_append_of_ne_nil us (List.cons_ne_nil t ts)]

/-- The base directory of `make_relative`. -/
theorem cleanPath_base {cwd : String} (hcwd : IsAbsolute cwd) (dir : List Token) :
    cleanPath (makeAbsolute cwd (if dir = [] then [dot] else dir)) = [] :: fromRoot cwd dir := by
  by_cases hdir : dir = []
  · have hplace : placeIn cwd [dot] = placeIn cwd [] := by
      unfold placeIn
      rw [if_neg (by decide), if_neg (by decide), Place.of_concat, Place.enter_dot, List.append_nil]
    rw [if_pos hdir, cleanPath_makeAbsolute hcwd (List.cons_ne_nil dot []), hdir, fromRoot, fromRoot,
      hplace]
    congr 2
    exact ending_congr (or_congr_left (iff_of_false (by decide) (by decide)))
  · rw [if_neg hdir, cleanPath_makeAbsolute hcwd hdir]

theorem walk_fromRoot (cwd : String) (path : List Token) :
    walk [] (fromRoot cwd path) = resolve (currentDir cwd) path := by
  rw [fromRoot, walk_eq, of_append_ending, Place.of_path, placeIn, List.drop_nil, List.append_nil,
    resolve, currentDir]
  split
  · rw [walk_eq, List.drop_nil, List.append_nil]
  · rw [← walk_append, walk_eq, List.drop_nil, List.append_nil]

theorem not_mem_fromRoot (cwd : String) {path : List Token} (h : ∀ t ∈ path, '/' ∉ t) :
    ∀ t ∈ fromRoot cwd path, '/' ∉ t := by
  intro t ht
  rcases List.mem_append.1 ht with ht | ht
  · rcases Place.mem_path ht with rfl | ht
    · decide
    · have hmem := Place.mem_of ht
      split at hmem
      · exact h t hmem
      · rcases List.mem_append.1 hmem with hmem | hmem
        · exact not_mem_splitSlash t hmem
        · exact h t hmem
  · rw [eq_nil_of_mem_ending ht]
    decide

/-- **`make_relative`** finds a relative way from the directory to the file. -/
theorem walk_makeRelative {cwd : String} (hcwd : IsAbsolute cwd) {path : List Token}
    (dir : List Token) (hpath : path ≠ []) (hfree : ∀ t ∈ path, '/' ∉ t) :
    (makeRelative cwd path dir).head? ≠ some [] ∧
      (∀ t ∈ makeRelative cwd path dir, '/' ∉ t) ∧
      walk (resolve (currentDir cwd) dir) (makeRelative cwd path dir) =
        resolve (currentDir cwd) path := by
  unfold makeRelative
  simp only [cleanPath_makeAbsolute hcwd hpath, cleanPath_base hcwd, removeCommon_cons]
  rw [← walk_fromRoot cwd path, ← walk_fromRoot cwd dir]
  have hcp : Clean (fromRoot cwd path) _ _ _ := (placeIn cwd path).clean _
  have hcd : Clean (fromRoot cwd dir) _ _ _ := (placeIn cwd dir).clean _
  have hmem := not_mem_fromRoot cwd hfree
  generalize fromRoot cwd path = p at hcp hmem ⊢
  generalize fromRoot cwd dir = d at hcd ⊢
  obtain ⟨common, hpc, hdc⟩ := removeCommon_eq p d
  generalize removeCommon p d = rest at hpc hdc ⊢
  have hwalk : walk (walk [] d) (List.replicate (rest.2.countP (· ≠ [])) dotdot ++ rest.1) =
      walk [] p := by
    rw [walk_append, walk_replicate_dotdot, hpc, hdc, walk_append [] common rest.2,
      hcd.drop_walk hdc, walk_append]
  split
  · rename_i hnil
    rw [hnil] at hwalk
    exact ⟨by decide, by decide, hwalk⟩
  · rename_i hne
    refine ⟨fun hhead => hne ?_, fun t ht => ?_, hwalk⟩
    · cases hn : rest.2.countP (· ≠ []) with
      | succ n =>
        rw [hn] at hhead
        cases hhead
      | zero =>
        rw [hn] at hhead
        obtain ⟨more, hmore⟩ := List.head?_eq_some_iff.1 hhead
        have hnil : more = [] := hcp.eq_nil_of_empty (hpc.trans (congrArg (common ++ ·) hmore))
        rw [hmore, hnil]
    · rcases List.mem_append.1 ht with ht | ht
      · rw [List.eq_of_mem_replicate ht]
        decide
      · exact hmem t (by rw [hpc]; exact List.mem_append_right common ht)

/-! ## The paths of a scene file -/

theorem isRelative_iff {path : String} :
    isRelative path = true ↔ path ≠ "" ∧ (tokenize path).head? ≠ some [] := by
  unfold isRelative tokenize
  rw [ne_eq, ← String.toList_eq_nil_iff]
  cases path.toList with
  | nil => decide
  | cons c s =>
    by_cases hc : c = '/'
    · subst hc
      simp [splitSlash]
    · obtain ⟨t, ts, -, hcs⟩ := splitSlash_cons hc s
      simp [hc, hcs]

theorem file_of_relative {path : String} (h : isRelative path = true) (dir : Directory) :
    file dir path = some (walk dir (tokenize path)) := by
  obtain ⟨hne, hhead⟩ := isRelative_iff.1 h
  rw [file, if_neg hne, resolve, if_neg hhead]

/-- Read anywhere, a path that is not relative designates the same file. -/
theorem file_of_not_relative {path : String} (h : ¬isRelative path = true) (dir dir' : Directory) :
    file dir path = file dir' path := by
  rw [isRelative_iff, not_and, not_not] at h
  unfold file
  split
  · rfl
  · rename_i hne
    rw [resolve, resolve, if_pos (h hne), if_pos (h hne)]

theorem tokenize_ne_nil (path : String) : tokenize path ≠ [] := splitSlash_ne_nil path.toList

theorem not_mem_cleanPath {path : String} (hrel : isRelative path = true) :
    ∀ t ∈ cleanPath (tokenize path), '/' ∉ t := by
  intro t ht
  rcases mem_cleanPath (isRelative_iff.1 hrel).2 ht with ht | ht
  · simp only [List.mem_cons, List.not_mem_nil, or_false] at ht
    rcases ht with rfl | rfl | rfl <;> decide
  · exact not_mem_splitSlash t ht

/-- The components that `make_path_relative_to_current_dir` puts together. -/
theorem not_mem_append (path filename : String) :
    ∀ t ∈ removeLastComponent (tokenize filename) ++ tokenize path, '/' ∉ t := by
  intro t ht
  rcases List.mem_append.1 ht with ht | ht
  · refine not_mem_splitSlash (s := filename.toList) t ?_
    unfold removeLastComponent at ht
    split at ht
    · exact ht
    · split at ht
      · exact List.dropLast_subset _ ht
      · exact ht
  · exact not_mem_splitSlash t ht

theorem append_tokenize_ne_nil (ts : List Token) (path : String) : ts ++ tokenize path ≠ [] :=
  List.append_ne_nil_of_right_ne_nil ts (tokenize_ne_nil path)

/-- **From the current directory to a file**: read in the directory of the file, the converted path
designates the same file as before. -/
theorem file_relativeToFile {cwd : String} (hcwd : IsAbsolute cwd) (path filename : String) :
    file (directory cwd filename) (makePathRelativeToFile cwd path filename) =
      file (currentDir cwd) path := by
  unfold makePathRelativeToFile
  split
  · rename_i hrel
    have hhead := (isRelative_iff.1 hrel).2
    rw [file_of_relative hrel]
    simp only
    split
    · rename_i hdir
      rw [file_untokenize (not_mem_cleanPath hrel) (mt (head?_cleanPath _).1 hhead),
        walk_cleanPath, directory]
      rcases hdir with hdir | hdir <;> rw [hdir] <;> rfl
    · obtain ⟨hhead', hmem, hwalk⟩ := walk_makeRelative hcwd
        (removeLastComponent (tokenize filename)) (tokenize_ne_nil path) not_mem_splitSlash
      rw [file_untokenize hmem hhead', directory, hwalk, resolve, if_neg hhead]
  · rename_i hrel
    exact file_of_not_relative hrel _ _

/-- **From a file to the current directory**: the converted path designates the file that the path
designates in the directory of the file. -/
theorem file_relativeToCurrentDir {cwd : String} (hcwd : IsAbsolute cwd) (path filename : String) :
    file (currentDir cwd) (makePathRelativeToCurrentDir cwd path filename) =
      file (directory cwd filename) path := by
  unfold makePathRelativeToCurrentDir
  split
  · rename_i hrel
    have hhead := (isRelative_iff.1 hrel).2
    obtain ⟨hhead', hmem, hwalk⟩ := walk_makeRelative hcwd [] (append_tokenize_ne_nil _ path)
      (not_mem_append path filename)
    have hcur : resolve (currentDir cwd) [] = currentDir cwd := rfl
    rw [hcur] at hwalk
    simp only
    rw [file_untokenize hmem hhead', hwalk, resolve_append hhead, file_of_relative hrel, directory]
  · rename_i hrel
    exact file_of_not_relative hrel _ _

end Ssr.PosixPathTools
