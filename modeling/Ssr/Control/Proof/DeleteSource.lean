import Ssr.Control.Proof.Agree

/-!
# Deleting a source

`deletesExactly_iff`: in every reachable state `delete_source` does what it is meant to do if and
only if there is a source with the given id. For any other id the renderer dereferences a null
pointer.
-/

set_option autoImplicit false

namespace Ssr

open Lib

variable {F : Type} [FloatOps F]

namespace Controller

variable {cfg : Config F} {c c' : Controller F} {env : Environment F}

/-- `delete_source` faults nowhere and removes the source `id`, if there is one, from the map of the
Scene and from the map and the list of the renderer; the other sources keep their data and stay in
all lists. -/
def DeletesExactly (cfg : Config F) (c : Controller F) (id : ℕ) : Prop :=
  ∃ c' rt rt', c.deleteSource cfg id = .ok c' ∧
    c.renderer.flushed = .ok rt ∧ c'.renderer.flushed = .ok rt' ∧
    c'.scene = { c.scene with sourceMap := c.scene.sourceMap.erase id } ∧
    c'.renderer.sourceMap = c.renderer.sourceMap.erase id ∧
    rt'.sourceList = rt.sourceList.filter (fun p => c.renderer.getSource id ≠ some p) ∧
    rt'.data = rt.data ∧ rt'.state = rt.state ∧
    (∀ id' p, c'.renderer.getSource id' = some p →
      Renderer.Listed cfg.renderer (c'.renderer.objects p) p rt') ∧
    (c.renderer.getSource id = none → c' = c)

theorem deletesExactly_of_source {rt : RtState F} (h : Renderer.Ready cfg.renderer c.renderer rt)
    {id : ℕ} {source : Ptr} (hid : c.renderer.sourceMap.find id = some source) :
    DeletesExactly cfg c id := by
  obtain ⟨r', rt', hrem, h', hmap, -, hlist, hdata, hstate⟩ := h.remSource hid
  refine ⟨⟨c.scene.deleteSource id, r', c.audioPlayer⟩, rt, rt', ?_, h.flushed, h'.flushed, rfl, hmap,
    ?_, hdata, hstate, h'.listed, fun hnone => ?_⟩
  · simp only [Controller.deleteSource, publish, Renderer.handle, Renderer.getSource, hid, hrem]
    rfl
  · rw [hlist, h.nodup.erase_eq_filter]
    refine List.filter_congr fun p _ => ?_
    simp only [Renderer.getSource, hid, ne_eq, Option.some.injEq, bne, decide_not]
    rw [Bool.beq_eq_decide_eq, decide_eq_decide.2 eq_comm]
  · rw [Renderer.getSource, hid] at hnone
    cases hnone

theorem deleteSource_of_none {id : ℕ} (hid : c.renderer.sourceMap.find id = none) :
    c.deleteSource cfg id = .error .assertSource := by
  simp only [Controller.deleteSource, publish, Renderer.handle, Renderer.getSource, hid,
    Renderer.remSource]
  rfl

/-- **`delete_source` is safe** for an id in a reachable state if and only if the Scene has a source
with this id. -/
theorem deletesExactly_iff {c₀ : Controller F} {ops : List (Op F)} {id : ℕ}
    (hnew : new cfg env = some c₀) (hrun : run (step cfg) c₀ ops = some c) :
    DeletesExactly cfg c id ↔ id ∈ c.scene.sourceMap.keys := by
  obtain ⟨v, w, ⟨rfl, rt, h, rfl⟩, o, d, hlink⟩ := linked_of_run hnew hrun
  have hsources : c.scene.view.sources id = (c.renderer.view rt).sources id := by rw [hlink]; rfl
  have hsome : (c.scene.sourceMap.find id).isSome = (c.renderer.sourceMap.find id).isSome := by
    simpa [Scene.view, Renderer.view] using congrArg Option.isSome hsources
  rw [OrdMap.mem_keys_iff, hsome]
  cases hid : c.renderer.sourceMap.find id with
  | some source => exact iff_of_true (deletesExactly_of_source h hid) rfl
  | none =>
    refine iff_of_false ?_ (by decide)
    rintro ⟨c', rt, rt', hdel, -⟩
    rw [deleteSource_of_none hid] at hdel
    cases hdel

theorem deletesExactly_iff_mono : ∃ c, new soundfileConfig monoEnvironment = some c ∧
    (DeletesExactly soundfileConfig c 1 ↔ 1 ∈ c.scene.sourceMap.keys) :=
  ⟨_, rfl, deletesExactly_iff (show new soundfileConfig monoEnvironment = _ from rfl) run_nil⟩

/-- An id that was never used: `assert(source)` fails. -/
theorem delete_unknown_source :
    ¬ ∀ (cfg : Config ℤ) (env : Environment ℤ) (c₀ c : Controller ℤ) (ops : List (Op ℤ)) (id : ℕ),
      new cfg env = some c₀ → run (step cfg) c₀ ops = some c → DeletesExactly cfg c id := by
  intro h
  obtain ⟨c', rt, rt', hdel, -⟩ := h soundfileConfig monoEnvironment _ _ [] 7 rfl rfl
  rw [deleteSource_of_none rfl] at hdel
  cases hdel

end Controller

end Ssr
