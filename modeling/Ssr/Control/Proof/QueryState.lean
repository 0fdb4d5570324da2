import Ssr.Control.QueryState
import Ssr.Renderer.Proof.AddSource
import Mathlib.Data.List.Perm.Subperm

/-!
# Published levels belong to the right source

Sources get increasing addresses, and both the list and the map are in the order of addition
(`Ordered`). So what has been in the map since a query is a part of the list of that query, followed
by newer sources (`Seen`); if the sizes and the last elements agree then the two are the same
(`Seen.eq_of_last`).
-/

set_option autoImplicit false

namespace Ssr

open Lib

variable {F V : Type} {cfg : RendererConfig}

namespace Renderer

/-- The sources that commands are going to add. -/
def added : List (Command F) → List Ptr :=
  List.filterMap fun
    | .addSource source _ => some source
    | _ => none

/-- The source list, with the sources that are still to be added. -/
def upcoming (r : Renderer F) : List Ptr := r.rt.sourceList ++ added r.pending

/-- Sources are in the order of their addition, in the list as in the map. -/
structure Ordered (r : Renderer F) : Prop where
  list : r.upcoming.Pairwise (· < ·)
  bounded : ∀ source ∈ r.upcoming, source < r.nextPtr
  map : (r.sourceMap.entries.map Prod.snd).Pairwise (· < ·)

variable {r r' : Renderer F} {rt rt' : RtState F}

/-! ## Commands -/

theorem added_append (cs ds : List (Command F)) : added (cs ++ ds) = added cs ++ added ds :=
  List.filterMap_append

theorem remExecute_sublist {α : Type} [DecidableEq α] {list list' delinquents : List α}
    (h : remExecute list delinquents = .ok list') : list'.Sublist list := by
  induction delinquents generalizing list with
  | nil =>
    cases h
    exact .refl _
  | cons x delinquents ih =>
    rw [remExecute] at h
    split at h
    · exact (ih h).trans List.erase_sublist
    · cases h

/-- A command adds its source at the end or leaves some sources out. -/
theorem execute_sourceList {c : Command F} (h : c.execute rt = .ok rt') :
    rt'.sourceList.Sublist (rt.sourceList ++ added [c]) := by
  have hsame : ∀ {list : List Ptr}, list.Sublist (list ++ []) := fun {list} => by
    rw [List.append_nil]
  cases c with
  | addInput | addModePairs | setSource | setState =>
    cases h
    exact hsame
  | addSource source data =>
    cases h
    exact .refl _
  | remSource source =>
    simp only [Command.execute, bind, Except.bind] at h
    split at h
    · cases h
    · rename_i list hlist
      cases h
      exact (remExecute_sublist hlist).trans hsame
  | remInput | addToSublist | remFromSublist | remModePairs =>
    simp only [Command.execute, bind, Except.bind] at h
    split at h
    · cases h
    · cases h
      exact hsame

theorem executeAll_sourceList {cs : List (Command F)} (h : executeAll rt cs = .ok rt') :
    rt'.sourceList.Sublist (rt.sourceList ++ added cs) := by
  induction cs generalizing rt with
  | nil =>
    cases h
    rw [added, List.filterMap_nil, List.append_nil]
  | cons c cs ih =>
    simp only [executeAll, bind, Except.bind] at h
    split at h
    · cases h
    · rename_i rt₁ hc
      refine (ih h).trans ?_
      rw [← List.singleton_append, added_append, ← List.append_assoc]
      exact (execute_sourceList hc).append_right _

/-! ## The order of addition -/

theorem added_connectCommands (object : SourceObject) :
    added (cfg.connectCommands object : List (Command F)) = [] := by
  rw [RendererConfig.connectCommands, added_append]
  cases object.elements <;> split <;> rfl

theorem added_disconnectCommands (object : SourceObject) :
    added (cfg.disconnectCommands object : List (Command F)) = [] := by
  rw [RendererConfig.disconnectCommands, added_append]
  cases object.elements <;> split <;> rfl

theorem upcoming_push (r : Renderer F) (cs : List (Command F)) :
    (r.push cs).upcoming = r.upcoming ++ added cs := by
  rw [upcoming, push, added_append, ← List.append_assoc]
  rfl

variable (cfg) in
/-- `add_source` adds at most one source to the list, and only such a source to the map. -/
theorem addSource_upcoming [FloatOps F] (r : Renderer F) (p : SourceParams) :
    (r.addSource cfg p).1.nextPtr = r.nextPtr + 2 ∧
      ((r.addSource cfg p).1.upcoming = r.upcoming ∧
          (r.addSource cfg p).1.sourceMap = r.sourceMap ∨
        (r.addSource cfg p).1.upcoming = r.upcoming ++ [r.nextPtr + 1] ∧
          ((r.addSource cfg p).1.sourceMap = r.sourceMap ∨
            (r.addSource cfg p).1.sourceMap =
              r.sourceMap.insert (r.highestId + 1) (r.nextPtr + 1))) := by
  unfold addSource
  simp only
  split
  · refine ⟨rfl, .inl ⟨?_, rfl⟩⟩
    rw [upcoming_push, upcoming_push]
    simp [added, upcoming]
  · split
    · refine ⟨rfl, .inr ⟨?_, .inl rfl⟩⟩
      rw [upcoming_push, upcoming_push]
      simp [added, upcoming]
    · rename_i object _
      refine ⟨rfl, .inr ⟨?_, .inr rfl⟩⟩
      change r.rt.sourceList ++ added (r.pending ++ [.addInput r.nextPtr] ++
        [.addSource (r.nextPtr + 1) .new] ++ cfg.connectCommands object) = _
      rw [added_append, added_connectCommands, List.append_nil, added_append, added_append]
      simp [added, upcoming]

variable {source : Ptr}

theorem remSource_eq (h : r.remSource cfg (some source) = .ok r') :
    ∃ id object, r' = ({ r with sourceMap := r.sourceMap.erase id }).push
      (cfg.disconnectCommands object ++
        [Command.remSource source, Command.remInput object.input]) := by
  simp only [remSource] at h
  split at h
  · cases h
  · rename_i entry _
    cases h
    exact ⟨entry.1, r.objects source, rfl⟩

theorem remSource_upcoming (h : r.remSource cfg (some source) = .ok r') :
    r'.upcoming = r.upcoming ∧ r'.nextPtr = r.nextPtr ∧
      r'.sourceMap.entries.Sublist r.sourceMap.entries := by
  obtain ⟨id, object, rfl⟩ := remSource_eq h
  refine ⟨?_, rfl, List.filter_sublist⟩
  rw [upcoming_push, added_append, added_disconnectCommands]
  simp [added, upcoming]

theorem execute_upcoming [FloatOps F] (h : r.step cfg .execute = some r') :
    r'.upcoming.Sublist r.upcoming ∧ r'.nextPtr = r.nextPtr ∧ r'.sourceMap = r.sourceMap := by
  simp only [Renderer.step] at h
  split at h
  · cases h
  · rename_i c cs hp
    cases hc : c.execute r.rt with
    | error e =>
      rw [hc] at h
      cases h
    | ok rt =>
      rw [hc] at h
      cases h
      refine ⟨?_, rfl, rfl⟩
      rw [upcoming, upcoming, hp, ← List.singleton_append, added_append, ← List.append_assoc]
      exact (execute_sourceList hc).append_right _

theorem Ordered.of_sublist (h : Ordered r) (hlist : r'.upcoming.Sublist r.upcoming)
    (hptr : r'.nextPtr = r.nextPtr) (hmap : r'.sourceMap.entries.Sublist r.sourceMap.entries) :
    Ordered r' where
  list := h.list.sublist hlist
  bounded source hs := hptr ▸ h.bounded source (hlist.subset hs)
  map := h.map.sublist (hmap.map Prod.snd)

/-- The values of the map, with a new id. -/
theorem map_insert_new (h : Ready cfg r rt) :
    (r.sourceMap.insert (r.highestId + 1) source).entries.map Prod.snd =
      r.sourceMap.entries.map Prod.snd ++ [source] := by
  rw [OrdMap.entries_insert_last, List.map_append]
  · rfl
  · intro k hk
    obtain ⟨v, hv⟩ := Option.isSome_iff_exists.1 (OrdMap.mem_keys_iff.1 hk)
    exact Nat.lt_succ_of_le (h.bounded k v hv).2.2

theorem lt_nextPtr (h : Ready cfg r rt) {v : Ptr} (hv : v ∈ r.sourceMap.entries.map Prod.snd) :
    v < r.nextPtr := by
  obtain ⟨⟨id, v⟩, hmem, rfl⟩ := List.mem_map.1 hv
  exact (h.bounded id v (OrdMap.mem_entries_iff.1 hmem)).1

theorem pairwise_snoc {xs : List Ptr} {n : ℕ} (h : xs.Pairwise (· < ·)) (hn : ∀ x ∈ xs, x < n) :
    (xs ++ [n]).Pairwise (· < ·) :=
  List.pairwise_append.2 ⟨h, List.pairwise_singleton _ _, fun x hx y hy => by
    rw [List.mem_singleton.1 hy]
    exact hn x hx⟩

theorem Ordered.addSource [FloatOps F] (h : Ordered r) (hready : Ready cfg r rt) (p : SourceParams) :
    Ordered (r.addSource cfg p).1 := by
  obtain ⟨hptr, hcases⟩ := addSource_upcoming cfg r p
  have hlt : ∀ v ∈ r.upcoming, v < r.nextPtr + 1 := fun v hv => Nat.lt_succ_of_lt (h.bounded v hv)
  have hmapLt : ∀ v ∈ r.sourceMap.entries.map Prod.snd, v < r.nextPtr + 1 := fun v hv =>
    Nat.lt_succ_of_lt (lt_nextPtr hready hv)
  rcases hcases with ⟨hlist, hmap⟩ | ⟨hlist, hmap⟩
  · refine ⟨hlist ▸ h.list, fun v hv => ?_, hmap ▸ h.map⟩
    rw [hptr]
    exact Nat.lt_succ_of_lt (hlt v (hlist ▸ hv))
  · refine ⟨hlist ▸ pairwise_snoc h.list hlt, fun v hv => ?_, ?_⟩
    · rw [hptr]
      rw [hlist] at hv
      rcases List.mem_append.1 hv with hv | hv
      · exact Nat.lt_succ_of_lt (hlt v hv)
      · rw [List.mem_singleton.1 hv]
        exact Nat.lt_succ_self _
    · rcases hmap with hmap | hmap
      · exact hmap ▸ h.map
      · rw [hmap, map_insert_new hready]
        exact pairwise_snoc h.map hmapLt

/-! ## What a query has seen -/

/-- The list of an earlier query: everything in the map is in this list or has come after all of it.
-/
structure Seen (list : List Ptr) (r : Renderer F) : Prop where
  sorted : list.Pairwise (· < ·)
  bounded : ∀ source ∈ list, source < r.nextPtr
  map : ∀ v ∈ r.sourceMap.entries.map Prod.snd, v ∈ list ∨ ∀ source ∈ list, source < v

/-- At the query itself, the commands that are pending add the rest. -/
theorem Ordered.seen (h : Ordered r) (hready : Ready cfg r rt) : Seen r.rt.sourceList r := by
  obtain ⟨hsorted, -, hnewer⟩ := List.pairwise_append.1 h.list
  refine ⟨hsorted, fun v hv => h.bounded v (List.mem_append_left _ hv), fun v hv => ?_⟩
  obtain ⟨⟨id, v⟩, hmem, rfl⟩ := List.mem_map.1 hv
  have hlisted := (hready.listed id v (OrdMap.mem_entries_iff.1 hmem)).sourceList
  have hall := (executeAll_sourceList hready.flushed).subset hlisted
  rcases List.mem_append.1 hall with hin | hadded
  · exact .inl hin
  · exact .inr fun source hs => hnewer source hs v hadded

theorem Seen.of_subset {list : List Ptr} (h : Seen list r) (hptr : r.nextPtr ≤ r'.nextPtr)
    (hmap : r'.sourceMap.entries.Sublist r.sourceMap.entries) : Seen list r' where
  sorted := h.sorted
  bounded v hv := lt_of_lt_of_le (h.bounded v hv) hptr
  map v hv := h.map v ((hmap.map Prod.snd).subset hv)

theorem Seen.addSource [FloatOps F] {list : List Ptr} (h : Seen list r) (hready : Ready cfg r rt)
    (p : SourceParams) : Seen list (r.addSource cfg p).1 := by
  obtain ⟨hptr, hcases⟩ := addSource_upcoming cfg r p
  have hle : r.nextPtr ≤ (r.addSource cfg p).1.nextPtr := hptr ▸ Nat.le_add_right _ 2
  have hsame : (r.addSource cfg p).1.sourceMap = r.sourceMap → Seen list (r.addSource cfg p).1 :=
    fun hmap => h.of_subset hle (hmap ▸ .refl _)
  rcases hcases with ⟨-, hmap⟩ | ⟨-, hmap | hmap⟩
  · exact hsame hmap
  · exact hsame hmap
  · refine ⟨h.sorted, fun v hv => lt_of_lt_of_le (h.bounded v hv) hle, fun v hv => ?_⟩
    rw [hmap, map_insert_new hready] at hv
    rcases List.mem_append.1 hv with hv | hv
    · exact h.map v hv
    · rw [List.mem_singleton.1 hv]
      exact .inr fun source hs => Nat.lt_succ_of_lt (h.bounded source hs)

end Renderer

/-! ## The query -/

namespace Querying

open Renderer

/-- The levels that have been read from `source`. -/
def ReadFrom (readings : Ptr → Option (Reading V)) (l : SourceLevel V) (source : Ptr) : Prop :=
  ∃ r, readings source = some r ∧ l.source = r.level ∧
    (l.outputsAvailable = true → r.outputs = some l.outputs)

structure Consistent (cfg : RendererConfig) (s : Querying F V) : Prop where
  ready : ∃ rt, Ready cfg s.renderer rt
  ordered : Ordered s.renderer
  levels : s.executed = true → s.query.discardSourceLevels = false →
    ∃ list, Seen list s.renderer ∧ s.query.lastSource = list.getLast? ∧
      List.Forall₂ (ReadFrom s.readings) s.query.sourceLevels list

variable {s t : Querying F V}

theorem readFrom_query {list : List Ptr} {reading : Ptr → Reading V}
    {readings : Ptr → Option (Reading V)} (hreadings : ∀ p ∈ list, readings p = some (reading p)) :
    ∀ {levels : List (SourceLevel V)}, levels.length = list.length →
      List.Forall₂ (ReadFrom readings)
        (levels.zipWith (fun l source => l.read (reading source)) list) list := by
  induction list with
  | nil =>
    intro levels _
    rw [List.zipWith_nil_right]
    exact .nil
  | cons p list ih =>
    intro levels hlength
    cases levels with
    | nil => cases hlength
    | cons l levels =>
      refine .cons ⟨reading p, hreadings p List.mem_cons_self, rfl, fun havailable => ?_⟩
        (ih (fun q hq => hreadings q (List.mem_cons_of_mem p hq)) (Nat.succ.inj hlength))
      obtain ⟨outputs, houtputs⟩ := Option.isSome_iff_exists.1 havailable
      simp [SourceLevel.read, houtputs]

/-- The renderer changes and the list of the query remains the one that has been seen. -/
theorem Consistent.renderer (h : Consistent cfg s) {r : Renderer F} (hready : ∃ rt, Ready cfg r rt)
    (hordered : Ordered r) (hseen : ∀ list, Seen list s.renderer → Seen list r) :
    Consistent cfg { s with renderer := r } :=
  ⟨hready, hordered, fun hexecuted hkept => by
    obtain ⟨list, hlist, hrest⟩ := h.levels hexecuted hkept
    exact ⟨list, hseen list hlist, hrest⟩⟩

variable [FloatOps F] [Zero V]

theorem Consistent.step (h : Consistent cfg s) {a : Action V} (hs : s.step cfg a = some t) :
    Consistent cfg t := by
  obtain ⟨rt, hready⟩ := h.ready
  cases a with
  | addSource p =>
    cases hs
    exact h.renderer (hready.addSource p) (h.ordered.addSource hready p)
      fun list hlist => hlist.addSource hready p
  | remSource source =>
    simp only [Querying.step] at hs
    cases hr : s.renderer.remSource cfg (some source) with
    | error e =>
      rw [hr] at hs
      cases hs
    | ok r =>
      rw [hr] at hs
      cases hs
      obtain ⟨hlist, hptr, hmap⟩ := remSource_upcoming hr
      obtain ⟨-, rt', -, hready', -⟩ := hready.remSource_of_ok hr
      exact h.renderer ⟨rt', hready'⟩ (h.ordered.of_sublist (hlist ▸ .refl _) hptr hmap)
        fun list hlist => hlist.of_subset hptr.ge hmap
  | resetIds =>
    simp only [Querying.step] at hs
    split at hs
    · rename_i hempty
      cases hs
      refine h.renderer ⟨rt, { hready with bounded := fun id source hid => ?_ }⟩
        { h.ordered with } fun list hlist => { hlist with }
      have hmem := OrdMap.mem_entries_iff.2 hid
      rw [hempty] at hmem
      cases hmem
    · cases hs
  | execute =>
    obtain ⟨r, hr, rfl⟩ := Option.map_eq_some_iff.1 hs
    obtain ⟨hlist, hptr, hmap⟩ := execute_upcoming hr
    have hsub : r.sourceMap.entries.Sublist s.renderer.sourceMap.entries := hmap ▸ .refl _
    exact h.renderer (hready.step hr) (h.ordered.of_sublist hlist hptr hsub)
      fun list hlist => hlist.of_subset hptr.ge hsub
  | query reading =>
    simp only [Querying.step] at hs
    split at hs
    · cases hs
    · cases hs
      refine ⟨h.ready, h.ordered, fun _ hkept => ⟨s.renderer.rt.sourceList, h.ordered.seen hready, ?_⟩⟩
      simp only [QueryState.query] at hkept ⊢
      split at hkept
      · rename_i hlength
        simp only [if_pos hlength]
        refine ⟨trivial, readFrom_query (fun p hp => ?_) hlength⟩
        simp [hp]
      · cases hkept
  | update =>
    simp only [Querying.step] at hs
    split at hs
    · cases hs
      exact ⟨h.ready, h.ordered, fun hexecuted => by cases hexecuted⟩
    · cases hs

end Querying

end Ssr
