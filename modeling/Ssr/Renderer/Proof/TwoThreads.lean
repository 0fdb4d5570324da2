import Ssr.Renderer.TwoThreads
import Ssr.Renderer.Proof.AddSource

/-!
# Ids stay unique

`Complete` adds to `Ready` that every source in the list has a map entry. It is kept by the steps of
both threads that are `Careful` (`Complete.step`).
-/

set_option autoImplicit false

namespace Ssr.TwoThreads

open Lib

variable {F : Type} {cfg : RendererConfig} {s t : TwoThreads F}

/-- All commands can be executed, and then every source has an entry. -/
def Complete (cfg : RendererConfig) (r : Renderer F) : Prop :=
  ∃ rt, Renderer.Ready cfg r rt ∧ ∀ source ∈ rt.sourceList, ∃ id, r.sourceMap.find id = some source

variable {r r' : Renderer F}

theorem Complete.remSource (h : Complete cfg r) {source : Ptr}
    (hr : r.remSource cfg (some source) = .ok r') : Complete cfg r' := by
  obtain ⟨rt, hready, hall⟩ := h
  obtain ⟨id, rt₁, hid, hready₁, hmap, hlist⟩ := hready.remSource_of_ok hr
  refine ⟨rt₁, hready₁, fun source' hs => ?_⟩
  rw [hlist] at hs
  obtain ⟨hne, hs⟩ := (List.Nodup.mem_erase_iff hready.nodup).1 hs
  obtain ⟨id', hid'⟩ := hall source' hs
  refine ⟨id', ?_⟩
  rw [hmap, OrdMap.find_erase, if_neg]
  · exact hid'
  · rintro rfl
    exact hne (Option.some.inj (hid'.symm.trans hid))

/-- Nothing is left to keep apart when the ids start again. -/
theorem Complete.reset (h : Complete cfg r) (hempty : r.sourceMap.entries = []) :
    Complete cfg { r with highestId := 0 } := by
  obtain ⟨rt, hready, hall⟩ := h
  refine ⟨rt, { hready with bounded := fun id source hid => ?_ }, hall⟩
  have hmem := OrdMap.mem_entries_iff.2 hid
  rw [hempty] at hmem
  cases hmem

theorem Complete.execute [FloatOps F] (h : Complete cfg r) (hr : r.step cfg .execute = some r') :
    Complete cfg r' := by
  obtain ⟨rt, hready, hall⟩ := h
  simp only [Renderer.step] at hr
  split at hr
  · cases hr
  · rename_i c cs hp
    obtain ⟨rt₁, hc, hready₁⟩ := hready.execute hp
    simp only [hc, Except.map, Except.toOption] at hr
    cases hr
    exact ⟨rt, hready₁, hall⟩

variable [FloatOps F]

theorem Complete.addSource (h : Complete cfg r) {p : SourceParams}
    (hp : ¬ (cfg.sourceError p.propertiesFile = none ∧ cfg.kind = .nfcHoa ∧ 58 ≤ cfg.outputs)) :
    Complete cfg (r.addSource cfg p).1 := by
  obtain ⟨rt, hready, hall⟩ := h
  cases herror : cfg.sourceError p.propertiesFile with
  | some e =>
    obtain ⟨r₁, he, hready₁, hmap, -⟩ := hready.addSource_sourceError herror
    rw [he]
    exact ⟨rt, hready₁, fun source hs => hmap ▸ hall source hs⟩
  | none =>
    have hconnect : ¬ (cfg.kind = .nfcHoa ∧ 29 ≤ cfg.order) := by
      rintro ⟨hkind, horder⟩
      refine hp ⟨herror, hkind, ?_⟩
      unfold RendererConfig.order at horder
      omega
    obtain ⟨r₁, rt₁, he, hready₁, hmap, -, -, -, hlist⟩ := hready.addSource_ok herror hconnect
    rw [he]
    refine ⟨rt₁, hready₁, fun source hs => ?_⟩
    simp only [hmap]
    rw [hlist] at hs
    rcases List.mem_append.1 hs with hs | hs
    · obtain ⟨id, hid⟩ := hall source hs
      have hle := (hready.bounded id source hid).2.2
      refine ⟨id, ?_⟩
      rw [OrdMap.find_insert, if_neg (by omega)]
      exact hid
    · refine ⟨r.highestId + 1, ?_⟩
      rw [OrdMap.find_insert, if_pos rfl, List.mem_singleton.1 hs]

/-! ## Steps and runs -/

omit [FloatOps F] in
theorem Complete.remove (h : Complete cfg s.renderer) {caller : Caller} {source : Ptr} {pc : RemAll}
    (hs : s.remove cfg caller source pc = some t) : Complete cfg t.renderer := by
  unfold TwoThreads.remove at hs
  cases hr : s.renderer.remSource cfg (some source) with
  | error e => rw [hr] at hs; cases hs
  | ok r =>
    rw [hr] at hs
    cases hs
    exact h.remSource hr

/-- **Careful steps** of the two threads keep the map and the list together. -/
theorem Complete.step (h : Complete cfg s.renderer) {a : Action} (ha : s.Careful cfg a)
    (hs : s.step cfg a = some t) : Complete cfg t.renderer := by
  cases a with
  | addSource caller p =>
    simp only [TwoThreads.step] at hs
    split at hs
    · cases hs
      exact h.addSource ha
    · cases hs
  | remSource caller source =>
    simp only [TwoThreads.step] at hs
    split at hs
    · exact h.remove hs
    · cases hs
  | remAllSources caller =>
    simp only [TwoThreads.step] at hs
    split at hs
    · cases hs
      exact h
    · cases hs
  | next caller =>
    simp only [TwoThreads.step, TwoThreads.next] at hs
    split at hs
    · cases hs
    · cases hs
      exact h
    · obtain ⟨entry, -, rfl⟩ := Option.map_eq_some_iff.1 hs
      exact h
    · exact h.remove hs
    · rename_i hpc
      cases hs
      exact h.reset (ha hpc)
  | execute =>
    obtain ⟨r, hr, rfl⟩ := Option.map_eq_some_iff.1 hs
    exact h.execute hr

end Ssr.TwoThreads
