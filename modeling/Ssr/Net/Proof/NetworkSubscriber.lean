import Ssr.Net.NetworkSubscriber
import Ssr.Control.Proof.QueryState

/-!
# Deleted sources disappear from the level messages

The map of the renderer changes in two ways (`MapStep`): sources leave it, or a new source enters it
with a new address and its id is given. So an id that is not in the map after a deletion can only
come back by being given again (`Remaining`), and this holds on from the moment when the renderer is
done with the deletion, which is before any other subscriber is called. What `update()` publishes
under the lock are ids of the map, which no deletion can change meanwhile (`Inv.updating`), hence a
connection that has handled a deletion does not get the id again (`Forgotten`).
-/

set_option autoImplicit false

namespace Ssr

open Lib

variable {F V : Type}

def Published.id : Published V → ℕ
  | .signalLevel id _ => id
  | .outputLevels id _ => id

theorem QueryState.id_mem_of_mem_setSourceSignalLevels {p : Published V} {entries : List (ℕ × Ptr)}
    {levels : List (SourceLevel V)} (hp : p ∈ QueryState.setSourceSignalLevels entries levels) :
    p.id ∈ entries.map Prod.fst := by
  induction entries generalizing levels with
  | nil => cases levels <;> cases hp
  | cons e entries ih =>
    cases levels with
    | nil => cases hp
    | cons l levels =>
      rw [setSourceSignalLevels] at hp
      rcases List.mem_cons.1 hp with rfl | hp
      · exact List.mem_cons_self
      rcases List.mem_append.1 hp with hp | hp
      · split at hp
        · rw [List.mem_singleton.1 hp]
          exact List.mem_cons_self
        · cases hp
      · exact List.mem_cons_of_mem _ (ih hp)

theorem QueryState.id_mem_of_mem_published {q : QueryState V} {map : OrdMap ℕ Ptr} {p : Published V}
    (hp : p ∈ q.published map) : p.id ∈ map.keys := by
  unfold published at hp
  split at hp
  · exact id_mem_of_mem_setSourceSignalLevels hp
  · cases hp

variable {cfg : RendererConfig} {r : Renderer F}

variable (cfg) in
/-- `add_source` returns an id exactly when it inserts a source. -/
theorem Renderer.addSource_cases [FloatOps F] (r : Renderer F) (p : SourceParams) :
    ((r.addSource cfg p).2.toOption = none ∧ (r.addSource cfg p).1.sourceMap = r.sourceMap) ∨
      ((r.addSource cfg p).2.toOption = some (r.highestId + 1) ∧
        (r.addSource cfg p).1.sourceMap =
          r.sourceMap.insert (r.highestId + 1) (r.nextPtr + 1)) := by
  unfold addSource
  simp only
  split
  · exact .inl ⟨rfl, rfl⟩
  · split
    · exact .inl ⟨rfl, rfl⟩
    · exact .inr ⟨rfl, rfl⟩

end Ssr

namespace Net

open Lib Ssr

variable {ι τ F V : Type}

namespace NetworkSubscriber

theorem keys_delete {s : NetworkSubscriber V} {deletion : Deletion} {id : ℕ}
    (h : id ∈ (s.delete deletion).sourceLevels.keys) :
    id ∈ s.sourceLevels.keys ∧ ¬ deletion.Covers id := by
  rw [OrdMap.mem_keys_iff] at h ⊢
  cases deletion with
  | source i =>
    change ((s.sourceLevels.erase i).find id).isSome at h
    rw [OrdMap.find_erase] at h
    split at h
    · cases h
    · rename_i hne
      exact ⟨h, hne⟩
  | all => cases h

theorem keys_publish {s : NetworkSubscriber V} {p : Published V} {id : ℕ}
    (h : id ∈ (s.publish p).sourceLevels.keys) : id ∈ s.sourceLevels.keys ∨ p.id = id := by
  cases p with
  | signalLevel i level =>
    rw [OrdMap.mem_keys_iff] at h ⊢
    change ((s.sourceLevels.insert i level).find id).isSome at h
    rw [OrdMap.find_insert] at h
    split at h
    · rename_i heq
      exact .inr heq.symm
    · exact .inl h
  | outputLevels => exact .inl h

end NetworkSubscriber

namespace LevelThreads

variable {cfg : RendererConfig} {s s' : LevelThreads ι τ F V}

/-! ## The map -/

/-- A step removes sources from the map or adds one. -/
inductive MapStep (s s' : LevelThreads ι τ F V) : Prop
  | shrink (map : ∀ e ∈ s'.sourceMap.entries, e ∈ s.sourceMap.entries)
      (nextPtr : s.querying.renderer.nextPtr ≤ s'.querying.renderer.nextPtr)
      (given : s'.given = s.given)
  | insert (id : ℕ)
      (map : ∀ e ∈ s'.sourceMap.entries,
        e = (id, s.querying.renderer.nextPtr + 1) ∨ e ∈ s.sourceMap.entries)
      (nextPtr : s.querying.renderer.nextPtr + 1 < s'.querying.renderer.nextPtr)
      (given : s'.given = s.given ++ [id])

/-- The renderer is the same, as far as the map goes. -/
theorem MapStep.of_eq (hmap : s'.sourceMap = s.sourceMap)
    (hptr : s'.querying.renderer.nextPtr = s.querying.renderer.nextPtr)
    (hgiven : s'.given = s.given) : MapStep s s' :=
  .shrink (fun e he => by rwa [hmap] at he) hptr.ge hgiven

/-- An id that comes back to the map has been given again, after the first `mark` ids. -/
structure Remaining (s : LevelThreads ι τ F V) (id mark : ℕ) : Prop where
  le : mark ≤ s.given.length
  given : id ∈ s.sourceMap.keys → id ∈ s.given.drop mark

theorem MapStep.given_mono (h : MapStep s s') {id mark : ℕ} (hid : id ∈ s.given.drop mark) :
    id ∈ s'.given.drop mark := by
  cases h with
  | shrink _ _ hgiven => rwa [hgiven]
  | insert i _ _ hgiven =>
    rw [hgiven, List.drop_append]
    exact List.mem_append_left _ hid

theorem Remaining.step {id mark : ℕ} (h : Remaining s id mark) (hs : MapStep s s') :
    Remaining s' id mark := by
  refine ⟨?_, fun hid => ?_⟩
  · cases hs with
    | shrink _ _ hgiven => exact hgiven ▸ h.le
    | insert i _ _ hgiven =>
      rw [hgiven, List.length_append]
      exact h.le.trans (Nat.le_add_right _ _)
  · obtain ⟨e, he, rfl⟩ := List.mem_map.1 hid
    have hold : e ∈ s.sourceMap.entries → e.1 ∈ s'.given.drop mark := fun he =>
      hs.given_mono (h.given (List.mem_map_of_mem he))
    cases hs with
    | shrink hmap => exact hold (hmap e he)
    | insert i hmap _ hgiven =>
      rcases hmap e he with rfl | he
      · rw [hgiven, List.drop_append_of_le_length h.le]
        exact List.mem_append_right _ List.mem_cons_self
      · exact hold he

/-- What a thread relies on in the course of a deletion. -/
def Consistent (s : LevelThreads ι τ F V) (d : Deleting) : Prop :=
  match d.place with
  | .renderer => True
  | .remSource source => source < s.querying.renderer.nextPtr ∧
      ∀ id, d.deletion = .source id → ∀ e ∈ s.sourceMap.entries, e.2 = source → e.1 = id
  | .resetIds mark | .subscriber _ mark => ∀ id, d.deletion.Covers id → s.Remaining id mark

structure Inv (s : LevelThreads ι τ F V) : Prop where
  bounded : ∀ e ∈ s.sourceMap.entries, e.2 < s.querying.renderer.nextPtr
  unique : ∀ e ∈ s.sourceMap.entries, ∀ e' ∈ s.sourceMap.entries, e.2 = e'.2 → e = e'
  deleting : ∀ t d, s.deleting t = some d → s.Consistent d
  updating : ∀ u, s.updating = some u → ∀ p ∈ u.published, p.id ∈ s.sourceMap.keys

theorem MapStep.bounded (h : MapStep s s') (hs : Inv s) :
    ∀ e ∈ s'.sourceMap.entries, e.2 < s'.querying.renderer.nextPtr := by
  intro e he
  cases h with
  | shrink hmap hptr => exact (hs.bounded e (hmap e he)).trans_le hptr
  | insert id hmap hptr =>
    rcases hmap e he with rfl | he
    · exact hptr
    · exact (hs.bounded e he).trans (Nat.lt_of_succ_lt hptr)

theorem MapStep.unique (h : MapStep s s') (hs : Inv s) :
    ∀ e ∈ s'.sourceMap.entries, ∀ e' ∈ s'.sourceMap.entries, e.2 = e'.2 → e = e' := by
  intro e he e' he' heq
  cases h with
  | shrink hmap => exact hs.unique e (hmap e he) e' (hmap e' he') heq
  | insert id hmap =>
    have hold : ∀ e ∈ s.sourceMap.entries, e.2 ≠ s.querying.renderer.nextPtr + 1 := fun e he =>
      ne_of_lt (Nat.lt_succ_of_lt (hs.bounded e he))
    rcases hmap e he with rfl | he <;> rcases hmap e' he' with rfl | he'
    · rfl
    · exact absurd heq.symm (hold e' he')
    · exact absurd heq (hold e he)
    · exact hs.unique e he e' he' heq

theorem Consistent.step {d : Deleting} (h : Consistent s d) (hs : MapStep s s') :
    Consistent s' d := by
  obtain ⟨deletion, stop, place⟩ := d
  cases place with
  | renderer => trivial
  | remSource source =>
    obtain ⟨hlt, hid⟩ := h
    cases hs with
    | shrink hmap hptr =>
      exact ⟨hlt.trans_le hptr, fun id hd e he => hid id hd e (hmap e he)⟩
    | insert i hmap hptr =>
      refine ⟨hlt.trans (Nat.lt_of_succ_lt hptr), fun id hd e he heq => ?_⟩
      rcases hmap e he with rfl | he
      · exact absurd heq (ne_of_gt (Nat.lt_succ_of_lt hlt))
      · exact hid id hd e he heq
  | resetIds mark => exact fun id hid => (h id hid).step hs
  | subscriber next mark => exact fun id hid => (h id hid).step hs

/-! ## Steps -/

section
variable [FloatOps F] [Zero V] {q q' : Querying F V}

theorem querying_execute (h : q.step cfg .execute = some q') :
    q'.renderer.sourceMap = q.renderer.sourceMap ∧ q'.renderer.nextPtr = q.renderer.nextPtr := by
  obtain ⟨r, hr, rfl⟩ := Option.map_eq_some_iff.1 h
  obtain ⟨-, hptr, hmap⟩ := Renderer.execute_upcoming hr
  exact ⟨hmap, hptr⟩

theorem querying_query {reading : Ptr → Reading V} (h : q.step cfg (.query reading) = some q') :
    q'.renderer = q.renderer := by
  simp only [Querying.step] at h
  split at h
  · cases h
  · cases h
    rfl

theorem querying_update (h : q.step cfg .update = some q') : q'.renderer = q.renderer := by
  simp only [Querying.step] at h
  split at h
  · cases h
    rfl
  · cases h

/-- `rem_source` removes the first entry with this source. -/
theorem querying_remSource {source : Ptr} (h : q.step cfg (.remSource source) = some q') :
    q'.renderer.nextPtr = q.renderer.nextPtr ∧
      ∃ e ∈ q.renderer.sourceMap.entries, e.2 = source ∧
        q'.renderer.sourceMap = q.renderer.sourceMap.erase e.1 := by
  simp only [Querying.step, Renderer.remSource] at h
  split at h
  · cases h
  · rename_i e he
    cases h
    refine ⟨rfl, e, List.mem_of_find?_eq_some he, ?_, rfl⟩
    simpa using List.find?_some he

end

/-- What the next step of a deletion does. -/
inductive ProceedStep [DecidableEq τ] [DecidableEq ι] [FloatOps F] [Zero V]
    (cfg : RendererConfig) (s : LevelThreads ι τ F V) (t : τ) :
    Deleting → LevelThreads ι τ F V → Prop
  | found {id stop : ℕ} {source : Ptr} (h : s.sourceMap.find id = some source) :
    ProceedStep cfg s t ⟨.source id, stop, .renderer⟩
      (s.goTo t ⟨.source id, stop, .renderer⟩ (.remSource source))
  | empty {stop : ℕ} (h : s.sourceMap.entries = []) :
    ProceedStep cfg s t ⟨.all, stop, .renderer⟩
      (s.goTo t ⟨.all, stop, .renderer⟩ (.resetIds s.given.length))
  | first {stop : ℕ} {e : ℕ × Ptr} {es : List (ℕ × Ptr)} (h : s.sourceMap.entries = e :: es) :
    ProceedStep cfg s t ⟨.all, stop, .renderer⟩
      (s.goTo t ⟨.all, stop, .renderer⟩ (.remSource e.2))
  | remSource {deletion : Deletion} {stop : ℕ} {source : Ptr} {querying : Querying F V}
    (place : Place) (hplace : place = match deletion with
      | .source _ => .subscriber 0 s.given.length
      | .all => .renderer)
    (hfree : s.updating = none) (hq : s.querying.step cfg (.remSource source) = some querying) :
    ProceedStep cfg s t ⟨deletion, stop, .remSource source⟩
      ({ s with querying }.goTo t ⟨deletion, stop, .remSource source⟩ place)
  | resetIds {deletion : Deletion} {stop mark : ℕ} :
    ProceedStep cfg s t ⟨deletion, stop, .resetIds mark⟩
      ({ s with
        querying := { s.querying with renderer := { s.querying.renderer with highestId := 0 } }
        }.goTo t ⟨deletion, stop, .resetIds mark⟩ (.subscriber 0 mark))
  | delete {deletion : Deletion} {stop next mark : ℕ} (x : ι) :
    ProceedStep cfg s t ⟨deletion, stop, .subscriber next mark⟩
      ({ s with
        connections := Function.update s.connections x ((s.connections x).delete deletion)
        }.goTo t ⟨deletion, stop, .subscriber next mark⟩ (.subscriber (next + 1) mark))
  | done {deletion : Deletion} {stop mark : ℕ} :
    ProceedStep cfg s t ⟨deletion, stop, .subscriber stop mark⟩
      { s with deleting := Function.update s.deleting t none }

/-- What a step does. -/
inductive LevelStep [DecidableEq τ] [DecidableEq ι] [FloatOps F] [Zero V]
    (cfg : RendererConfig) (s : LevelThreads ι τ F V) : LevelThreads ι τ F V → Prop
  | subscribers (subscribers : List ι) : LevelStep cfg s { s with subscribers }
  | newSource {querying : Querying F V} (p : SourceParams) (hfree : s.updating = none)
    (hq : s.querying.step cfg (.addSource p) = some querying) :
    LevelStep cfg s { s with
      querying, given := s.given ++ (s.querying.renderer.addSource cfg p).2.toOption.toList }
  | renderer {querying : Querying F V}
    (hmap : querying.renderer.sourceMap = s.querying.renderer.sourceMap)
    (hptr : querying.renderer.nextPtr = s.querying.renderer.nextPtr) :
    LevelStep cfg s { s with querying }
  | delete (t : τ) (deletion : Deletion) (stop : ℕ) : LevelStep cfg s { s with
      deleting := Function.update s.deleting t (some ⟨deletion, stop, .renderer⟩) }
  | proceed {t : τ} {d : Deleting} {s' : LevelThreads ι τ F V} (hd : s.deleting t = some d)
    (h : ProceedStep cfg s t d s') : LevelStep cfg s s'
  | lock (stop : ℕ) : LevelStep cfg s { s with
      updating := some ⟨s.querying.query.published s.sourceMap, 0, stop⟩ }
  | published {u : Updating V} {p : Published V} {ps : List (Published V)}
    (hu : s.updating = some u) (hp : u.published = p :: ps) (stop : ℕ) :
    LevelStep cfg s { s with updating := some ⟨ps, 0, stop⟩ }
  | publish {u : Updating V} {p : Published V} {ps : List (Published V)}
    (hu : s.updating = some u) (hp : u.published = p :: ps) (x : ι) :
    LevelStep cfg s { s with
      connections := Function.update s.connections x ((s.connections x).publish p)
      updating := some { u with next := u.next + 1 } }
  | unlock {querying : Querying F V}
    (hmap : querying.renderer.sourceMap = s.querying.renderer.sourceMap)
    (hptr : querying.renderer.nextPtr = s.querying.renderer.nextPtr) :
    LevelStep cfg s { s with querying, updating := none }

variable [DecidableEq ι] [DecidableEq τ] [FloatOps F] [Zero V] {a : Action ι τ V}

theorem proceed_cases {t : τ} {d : Deleting} (h : s.proceed cfg t d = some s') :
    ProceedStep cfg s t d s' := by
  obtain ⟨deletion, stop, place⟩ := d
  cases place with
  | renderer =>
    cases deletion with
    | source id =>
      obtain ⟨source, hsource, rfl⟩ := Option.map_eq_some_iff.1 h
      exact .found hsource
    | all =>
      simp only [proceed] at h
      split at h
      · rename_i hempty
        cases h
        exact .empty hempty
      · rename_i e es hentries
        cases h
        exact .first hentries
  | remSource source =>
    simp only [proceed] at h
    split at h
    · cases h
    · rename_i hfree
      obtain ⟨q, hq, rfl⟩ := Option.map_eq_some_iff.1 h
      exact .remSource _ rfl (Option.not_isSome_iff_eq_none.1 hfree) hq
  | resetIds mark =>
    cases h
    exact .resetIds
  | subscriber next mark =>
    simp only [proceed] at h
    split at h
    · rename_i hstop
      cases h
      rw [hstop]
      exact .done
    · obtain ⟨x, -, rfl⟩ := Option.map_eq_some_iff.1 h
      exact .delete x

theorem step_cases (h : s.step cfg a = some s') : LevelStep cfg s s' := by
  cases a with
  | subscribe x | unsubscribe x =>
    cases h
    exact .subscribers _
  | newSource p =>
    simp only [step] at h
    split at h
    · cases h
    · rename_i hfree
      obtain ⟨q, hq, rfl⟩ := Option.map_eq_some_iff.1 h
      exact .newSource p (Option.not_isSome_iff_eq_none.1 hfree) hq
  | execute =>
    obtain ⟨q, hq, rfl⟩ := Option.map_eq_some_iff.1 h
    exact .renderer (querying_execute hq).1 (querying_execute hq).2
  | query reading =>
    obtain ⟨q, hq, rfl⟩ := Option.map_eq_some_iff.1 h
    have hr := querying_query hq
    exact .renderer (congrArg (·.sourceMap) hr) (congrArg (·.nextPtr) hr)
  | delete t deletion =>
    simp only [step] at h
    split at h <;> cases h
    exact .delete t deletion _
  | proceed t =>
    obtain ⟨d, hd, h⟩ := Option.bind_eq_some_iff.1 h
    exact .proceed hd (proceed_cases h)
  | lock =>
    simp only [step] at h
    split at h <;> cases h
    exact .lock _
  | publish =>
    obtain ⟨u, hu, h⟩ := Option.bind_eq_some_iff.1 h
    unfold publish at h
    split at h
    · cases h
    · rename_i p ps hp
      split at h
      · cases h
        exact .published hu hp _
      · obtain ⟨x, -, rfl⟩ := Option.map_eq_some_iff.1 h
        exact .publish hu hp x
  | unlock =>
    simp only [step] at h
    split at h
    · obtain ⟨q, hq, rfl⟩ := Option.map_eq_some_iff.1 h
      have hr := querying_update hq
      exact .unlock (congrArg (·.sourceMap) hr) (congrArg (·.nextPtr) hr)
    · cases h

/-! ## The invariant -/

theorem ProceedStep.mapStep {t : τ} {d : Deleting} (h : ProceedStep cfg s t d s') :
    MapStep s s' := by
  cases h with
  | found | empty | first | resetIds | delete | done => exact .of_eq rfl rfl rfl
  | @remSource _ _ _ q _ _ _ hq =>
    obtain ⟨hptr, e, -, -, hmap⟩ := querying_remSource hq
    refine .shrink (fun e' he' => ?_) hptr.ge rfl
    change e' ∈ q.renderer.sourceMap.entries at he'
    rw [hmap] at he'
    exact List.mem_of_mem_filter he'

theorem LevelStep.mapStep (h : LevelStep cfg s s') : MapStep s s' := by
  cases h with
  | subscribers | delete | lock | published | publish => exact .of_eq rfl rfl rfl
  | renderer hmap hptr | unlock hmap hptr => exact .of_eq hmap hptr rfl
  | proceed _ h => exact h.mapStep
  | newSource p _ hq =>
    cases hq
    have hptr := (Renderer.addSource_upcoming cfg s.querying.renderer p).1
    rcases Renderer.addSource_cases cfg s.querying.renderer p with ⟨hid, hmap⟩ | ⟨hid, hmap⟩
    · refine .shrink (fun e he => ?_) ?_ ?_
      · change e ∈ (s.querying.renderer.addSource cfg p).1.sourceMap.entries at he
        rwa [hmap] at he
      · exact hptr ▸ Nat.le_add_right _ _
      · change s.given ++ _ = s.given
        rw [hid]
        exact List.append_nil _
    · refine .insert (s.querying.renderer.highestId + 1) (fun e he => ?_) ?_ ?_
      · change e ∈ (s.querying.renderer.addSource cfg p).1.sourceMap.entries at he
        rw [hmap] at he
        exact OrdMap.mem_insertEntry he
      · change _ < (s.querying.renderer.addSource cfg p).1.nextPtr
        rw [hptr]
        exact Nat.lt_succ_self _
      · change s.given ++ _ = _
        rw [hid]
        rfl

omit [DecidableEq ι] [FloatOps F] [Zero V] in
/-- The thread that has just been set. -/
theorem update_self_inj {f : τ → Option Deleting} {t : τ} {x : Option Deleting} {d : Deleting}
    (h : Function.update f t x t = some d) : x = some d := by
  rwa [Function.update_self] at h

theorem ProceedStep.consistent (hs : Inv s) {t : τ} {d : Deleting} (hd : s.deleting t = some d)
    (h : ProceedStep cfg s t d s') : ∀ d', s'.deleting t = some d' → Consistent s' d' := by
  intro d' hd'
  have hstep := h.mapStep
  have hold := hs.deleting t d hd
  cases h with
  | @found id _ source hsource =>
    cases update_self_inj hd'
    have hmem := OrdMap.mem_entries_iff.2 hsource
    refine ⟨hs.bounded _ hmem, fun id' hid' e he heq => ?_⟩
    cases hid'
    exact congrArg Prod.fst (hs.unique e he _ hmem heq)
  | empty hempty =>
    cases update_self_inj hd'
    refine fun id _ => ⟨le_rfl, fun hid => ?_⟩
    rw [OrdMap.keys, show (goTo s t _ _).sourceMap.entries = [] from hempty] at hid
    cases hid
  | first hentries =>
    cases update_self_inj hd'
    exact ⟨hs.bounded _ (hentries ▸ List.mem_cons_self), fun id hid => by cases hid⟩
  | @remSource deletion _ _ q place hplace _ hq =>
    cases update_self_inj hd'
    subst hplace
    cases deletion with
    | all => trivial
    | source id =>
      -- the entry that is erased has this id
      obtain ⟨-, e, he, hsource, hmap⟩ := querying_remSource hq
      have hid := hold.2 id rfl e he hsource
      intro id' hcovers
      refine ⟨le_rfl, fun hkey => ?_⟩
      rw [OrdMap.mem_keys_iff] at hkey
      change (q.renderer.sourceMap.find id').isSome at hkey
      rw [hmap, OrdMap.find_erase, if_pos (Eq.trans hcovers hid.symm)] at hkey
      cases hkey
  | resetIds | delete =>
    cases update_self_inj hd'
    exact fun id hid => (hold id hid).step hstep
  | done => cases update_self_inj hd'

theorem ProceedStep.other {t t' : τ} (ht : t' ≠ t) {d : Deleting}
    (h : ProceedStep cfg s t d s') : s'.deleting t' = s.deleting t' := by
  cases h <;> exact Function.update_of_ne ht _ _

theorem LevelStep.deleting (hs : Inv s) (h : LevelStep cfg s s') :
    ∀ t d, s'.deleting t = some d → Consistent s' d := by
  have hstep := h.mapStep
  intro t d hd
  have hold : s.deleting t = some d → Consistent s' d := fun hd => (hs.deleting t d hd).step hstep
  cases h with
  | subscribers | newSource | renderer | lock | published | publish | unlock => exact hold hd
  | delete t' deletion stop =>
    by_cases ht : t = t'
    · subst ht
      cases update_self_inj hd
      trivial
    · exact hold ((Function.update_of_ne ht _ _).symm.trans hd)
  | @proceed t' d' _ hd' h =>
    by_cases ht : t = t'
    · subst ht
      exact h.consistent hs hd' d hd
    · exact hold (h.other ht ▸ hd)

/-- While `update()` has the lock, a deletion does not change the map. -/
theorem ProceedStep.locked {t : τ} {d : Deleting} (h : ProceedStep cfg s t d s') {u : Updating V}
    (hu : s'.updating = some u) : s.updating = some u ∧ s'.sourceMap = s.sourceMap := by
  cases h with
  | remSource _ _ hfree => cases hfree.symm.trans hu
  | found | empty | first | resetIds | delete | done => exact ⟨hu, rfl⟩

theorem LevelStep.updating (hs : Inv s) (h : LevelStep cfg s s') :
    ∀ u, s'.updating = some u → ∀ p ∈ u.published, p.id ∈ s'.sourceMap.keys := by
  intro u hu p hp
  cases h with
  | subscribers | delete => exact hs.updating u hu p hp
  | newSource _ hfree => cases hfree.symm.trans hu
  | renderer hmap =>
    rw [sourceMap, hmap]
    exact hs.updating u hu p hp
  | proceed _ h =>
    obtain ⟨hold, hmap⟩ := h.locked hu
    exact hmap ▸ hs.updating u hold p hp
  | lock =>
    cases hu
    exact QueryState.id_mem_of_mem_published hp
  | published hv hps =>
    cases hu
    exact hs.updating _ hv p (hps ▸ List.mem_cons_of_mem _ hp)
  | publish hv =>
    cases hu
    exact hs.updating _ hv p hp
  | unlock => cases hu

theorem Inv.step (hs : Inv s) (h : s.step cfg a = some s') : Inv s' where
  bounded := (step_cases h).mapStep.bounded hs
  unique := (step_cases h).mapStep.unique hs
  deleting := (step_cases h).deleting hs
  updating := (step_cases h).updating hs

omit [DecidableEq ι] [DecidableEq τ] [Zero V] in
theorem inv_init : Inv (init cfg : LevelThreads ι τ F V) where
  bounded _ he := by cases he
  unique _ he := by cases he
  deleting _ _ hd := by cases hd
  updating _ hu := by cases hu

/-! ## Connections -/

omit [DecidableEq τ] [FloatOps F] [Zero V] in
/-- A call of one connection changes its own levels. -/
theorem sourceLevels_update {y : ι} {connection : NetworkSubscriber V} {x : ι} {id : ℕ}
    (hid : id ∈ (Function.update s.connections y connection x).sourceLevels.keys) :
    id ∈ (s.connections x).sourceLevels.keys ∨
      x = y ∧ id ∈ connection.sourceLevels.keys := by
  by_cases hx : x = y
  · subst hx
    rw [Function.update_self] at hid
    exact .inr ⟨rfl, hid⟩
  · rw [Function.update_of_ne hx] at hid
    exact .inl hid

theorem ProceedStep.connections {t : τ} {d : Deleting} (h : ProceedStep cfg s t d s') {x : ι}
    {id : ℕ} (hid : id ∈ (s'.connections x).sourceLevels.keys) :
    id ∈ (s.connections x).sourceLevels.keys := by
  cases h with
  | found | empty | first | remSource | resetIds | done => exact hid
  | delete y =>
    rcases sourceLevels_update hid with hold | ⟨rfl, hid⟩
    · exact hold
    · exact (NetworkSubscriber.keys_delete hid).1

/-- Only `update()` adds an id to the levels of a connection. -/
theorem LevelStep.connections (h : LevelStep cfg s s') {x : ι} {id : ℕ}
    (hid : id ∈ (s'.connections x).sourceLevels.keys) :
    id ∈ (s.connections x).sourceLevels.keys ∨
      ∃ u, s.updating = some u ∧ ∃ p ∈ u.published, p.id = id := by
  cases h with
  | subscribers | newSource | renderer | delete | lock | published | unlock => exact .inl hid
  | proceed _ h => exact .inl (h.connections hid)
  | publish hu hp y =>
    rcases sourceLevels_update hid with hold | ⟨rfl, hid⟩
    · exact .inl hold
    · exact (NetworkSubscriber.keys_publish hid).imp_right fun hid =>
        ⟨_, hu, _, hp ▸ List.mem_cons_self, hid⟩

/-- The connection `x` has handled a deletion of `id`. -/
structure Forgotten (s : LevelThreads ι τ F V) (x : ι) (id mark : ℕ) : Prop where
  inv : Inv s
  remaining : Remaining s id mark
  levels : id ∈ (s.connections x).sourceLevels.keys → id ∈ s.given.drop mark

theorem Forgotten.step {x : ι} {id mark : ℕ} (h : Forgotten s x id mark)
    (hs : s.step cfg a = some s') : Forgotten s' x id mark := by
  have hmap := (step_cases hs).mapStep
  refine ⟨h.inv.step hs, h.remaining.step hmap, fun hid => hmap.given_mono ?_⟩
  rcases (step_cases hs).connections hid with hold | ⟨u, hu, p, hp, rfl⟩
  · exact h.levels hold
  · exact h.remaining.given (h.inv.updating u hu p hp)

/-- The call itself. -/
theorem Calls.forgotten {t : τ} {x : ι} {deletion : Deletion} {id mark : ℕ} (hs : Inv s)
    (hcalls : s.Calls t x deletion mark) (hid : deletion.Covers id)
    (h : s.step cfg (.proceed t) = some s') : Forgotten s' x id mark := by
  obtain ⟨stop, next, ht, hnext, hx⟩ := hcalls
  have hmap := (step_cases h).mapStep
  have hremaining := hs.deleting t _ ht id hid
  refine ⟨hs.step h, hremaining.step hmap, fun hkey => ?_⟩
  simp only [LevelThreads.step, ht, Option.bind_some, proceed, if_neg hnext, hx,
    Option.map_some] at h
  cases h
  change id ∈ (Function.update s.connections x _ x).sourceLevels.keys at hkey
  rw [Function.update_self] at hkey
  exact absurd hid (NetworkSubscriber.keys_delete hkey).2

/-- **Deleted sources disappear from the level messages.** In every run of all threads: once the
connection `x` has handled a deletion of `id`, none of its level messages mentions `id` unless a
source has been given this id since the renderer was done with the deletion. -/
theorem deleted_not_sent {s₁ s₂ s₃ : LevelThreads ι τ F V} {t : τ} {x : ι} {deletion : Deletion}
    {id mark : ℕ} (hs₁ : Reach (step cfg) (fun _ _ => True) (init cfg) s₁)
    (hcalls : s₁.Calls t x deletion mark) (hid : deletion.Covers id)
    (hcall : s₁.step cfg (.proceed t) = some s₂)
    (hs₃ : Reach (step cfg) (fun _ _ => True) s₂ s₃)
    (hsent : id ∈ (s₃.connections x).sendLevels.map Prod.fst) : id ∈ s₃.given.drop mark := by
  have hinv : Inv s₁ := hs₁.inv Inv inv_init fun _ _ _ h _ hstep => h.step hstep
  have h : Forgotten s₃ x id mark :=
    hs₃.inv (Forgotten · x id mark) (hcalls.forgotten hinv hid hcall) fun _ _ _ h _ hstep =>
      h.step hstep
  exact h.levels hsent

/-- All sources are deleted while `update()` publishes the level of the only one; its id is given
again, and so it is mentioned again. -/
theorem deleted_not_sent_again :
    let cfg : RendererConfig := ⟨.vbap, 2, fun _ => none⟩
    ∃ s₁ s₂ s₃ : LevelThreads Unit Unit ℤ ℤ, Reach (step cfg) (fun _ _ => True) (init cfg) s₁ ∧
      s₁.Calls () () .all 1 ∧ s₁.step cfg (.proceed ()) = some s₂ ∧
      Reach (step cfg) (fun _ _ => True) s₂ s₃ ∧
      1 ∈ (s₃.connections ()).sendLevels.map Prod.fst ∧ 1 ∈ s₃.given.drop 1 := by
  intro cfg
  let reading (p : Ptr) : Reading ℤ := ⟨p, none⟩
  let before : List (Action Unit Unit ℤ) :=
    [.subscribe (), .newSource ⟨"", ""⟩, .execute, .execute, .query reading, .lock, .unlock,
      .query reading, .lock, .delete () .all, .proceed (), .publish, .publish, .unlock, .proceed (),
      .proceed (), .proceed ()]
  let after : List (Action Unit Unit ℤ) :=
    [.proceed (), .newSource ⟨"", ""⟩, .execute, .execute, .execute, .execute, .query reading, .lock,
      .publish]
  have hbefore : (run (step cfg) (init cfg : LevelThreads Unit Unit ℤ ℤ) before).map
      (fun s => (s.deleting (), s.subscribers)) =
        some (some ⟨.all, 1, .subscriber 0 1⟩, [()]) := by decide
  have hall : (run (step cfg) (init cfg : LevelThreads Unit Unit ℤ ℤ)
      (before ++ .proceed () :: after)).map
        (fun s => (s.connections ()).sendLevels.map Prod.fst) = some [1] := by decide
  obtain ⟨s₁, hs₁, hvalues⟩ := Option.map_eq_some_iff.1 hbefore
  obtain ⟨s₃, hs₃, hsent⟩ := Option.map_eq_some_iff.1 hall
  rw [run_append, hs₁, Option.bind_some, run_cons] at hs₃
  obtain ⟨s₂, hcall, hs₃⟩ := Option.bind_eq_some_iff.1 hs₃
  obtain ⟨hdeleting, hsubscribers⟩ := Prod.mk.inj hvalues
  have hreach₁ : Reach (step cfg) (fun _ _ => True) (init cfg) s₁ :=
    .of_run hs₁ fun _ _ _ => trivial
  have hreach₃ : Reach (step cfg) (fun _ _ => True) s₂ s₃ := .of_run hs₃ fun _ _ _ => trivial
  have hcalls : s₁.Calls () () .all 1 :=
    ⟨1, 0, hdeleting, by decide, by rw [hsubscribers]; rfl⟩
  have hmem : 1 ∈ (s₃.connections ()).sendLevels.map Prod.fst := by
    rw [hsent]
    exact List.mem_cons_self
  exact ⟨s₁, s₂, s₃, hreach₁, hcalls, hcall, hreach₃, hmem,
    deleted_not_sent hreach₁ hcalls trivial hcall hreach₃ hmem⟩

end LevelThreads

end Net
