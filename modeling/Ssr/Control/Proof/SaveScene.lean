import Ssr.Control.Proof.Loading
import Ssr.Control.Proof.SavedDocument
import Mathlib.Data.List.Forall2

/-!
# Saving a scene and loading it again

`saved_scene_reloads_iff`: a saved scene is loaded again with the same sources if and only if it is
`Saveable`. `loadSources_saved` follows the loop over the sources of the document.
-/

set_option autoImplicit false

namespace Ssr

open Lib Apf PosixPathTools Schema

variable {F : Type} [FloatOps F]

/-- The sources are the same in all that is saved, apart from numbers with a fraction. -/
structure SameSource (cwd : String) (s s' : Source F) : Prop where
  name : s'.name = s.name
  model : s'.model = s.model
  fixedPosition : s'.fixedPosition = s.fixedPosition
  mute : s'.mute = s.mute
  channel : s'.audioFileChannel = s.audioFileChannel
  audioFile : file (currentDir cwd) s'.audioFileName = file (currentDir cwd) s.audioFileName
  propertiesFile : file (currentDir cwd) s'.propertiesFile = file (currentDir cwd) s.propertiesFile

/-- There is an audio player for the audio file, and the constructor of the source accepts its
properties file. -/
def Source.Creatable (cfg : Config F) (cwd fileName : String) (s : Source F) : Prop :=
  (s.audioFileName ≠ "" → cfg.ecasound = true) ∧
    ¬Renderer.Fails cfg.renderer (makePathRelativeToCurrentDir cwd s.propertiesFile fileName)

/-- The files of a source can be given relative to the scene file: there is no channel without a
file, libxml2 keeps the name of the audio file, and the properties file, which is saved as it is,
designates the same file in the directory of the scene file and in the current directory. -/
def Source.Portable (nodeContent : String → String) (cwd fileName : String) (s : Source F) : Prop :=
  (s.audioFileName = "" → s.audioFileChannel = 0) ∧
  (s.audioFileName ≠ "" →
    file (directory cwd fileName) (nodeContent (makePathRelativeToFile cwd s.audioFileName fileName)) =
      file (directory cwd fileName) (makePathRelativeToFile cwd s.audioFileName fileName)) ∧
  file (directory cwd fileName) s.propertiesFile = file (currentDir cwd) s.propertiesFile

/-- The condition for a scene to survive saving and loading. -/
def Saveable (cfg : Config F) (nodeContent : String → String) (cwd fileName : String) (s : Scene F) :
    Prop :=
  cfg.xmlSchema ≠ "" ∧ s.Accepted nodeContent ∧
    ∀ source ∈ s.getSources, source.Creatable cfg cwd fileName ∧
      source.Portable nodeContent cwd fileName

/-- `s'` is what loading makes of the saved source `s`. -/
structure Reloaded (nodeContent : String → String) (cwd fileName : String) (s s' : Source F) :
    Prop where
  name : s'.name = s.name
  model : s'.model = s.model
  fixedPosition : s'.fixedPosition = s.fixedPosition
  mute : s'.mute = s.mute
  audioFileName : s'.audioFileName = loadedAudioFile nodeContent cwd fileName s
  channel : s'.audioFileChannel =
    if loadedAudioFile nodeContent cwd fileName s ≠ "" then s.audioFileChannel else 0
  propertiesFile : s'.propertiesFile = makePathRelativeToCurrentDir cwd s.propertiesFile fileName

variable {nodeContent : String → String} {cwd fileName : String} {s s' : Source F}

/-! ## The files -/

theorem file_eq_none_iff (dir : Directory) {path : String} : file dir path = none ↔ path = "" := by
  unfold file
  split <;> simp [*]

omit [FloatOps F] in
/-- **The same source** comes back if its files are portable. -/
theorem Reloaded.sameSource_iff (h : Reloaded nodeContent cwd fileName s s')
    (hcwd : IsAbsolute cwd) : SameSource cwd s s' ↔ s.Portable nodeContent cwd fileName := by
  have hprop : file (currentDir cwd) s'.propertiesFile =
      file (directory cwd fileName) s.propertiesFile := by
    rw [h.propertiesFile, file_relativeToCurrentDir hcwd]
  by_cases ha : s.audioFileName = ""
  · have hload : loadedAudioFile nodeContent cwd fileName s = "" := if_pos ha
    have hchannel : s'.audioFileChannel = 0 := by rw [h.channel, hload]; rfl
    constructor
    · intro hsame
      exact ⟨fun _ => hsame.channel ▸ hchannel, fun hne => absurd ha hne,
        hprop.symm.trans hsame.propertiesFile⟩
    · rintro ⟨hzero, -, hfile⟩
      exact ⟨h.name, h.model, h.fixedPosition, h.mute, hchannel.trans (hzero ha).symm,
        by rw [h.audioFileName, hload, ha], hprop.trans hfile⟩
  · have hload : loadedAudioFile nodeContent cwd fileName s = makePathRelativeToCurrentDir cwd
        (nodeContent (makePathRelativeToFile cwd s.audioFileName fileName)) fileName := if_neg ha
    have haudio : file (currentDir cwd) s'.audioFileName = file (directory cwd fileName)
        (nodeContent (makePathRelativeToFile cwd s.audioFileName fileName)) := by
      rw [h.audioFileName, hload, file_relativeToCurrentDir hcwd]
    have hsaved := file_relativeToFile hcwd s.audioFileName fileName
    constructor
    · intro hsame
      exact ⟨fun he => absurd he ha, fun _ => by rw [← haudio, hsame.audioFile, hsaved],
        hprop.symm.trans hsame.propertiesFile⟩
    · rintro ⟨-, hfile, hpfile⟩
      have hsame := haudio.trans ((hfile ha).trans hsaved)
      have hne : loadedAudioFile nodeContent cwd fileName s ≠ "" := by
        rw [← h.audioFileName, ne_eq, ← file_eq_none_iff (currentDir cwd), hsame,
          file_eq_none_iff]
        exact ha
      exact ⟨h.name, h.model, h.fixedPosition, h.mute, by rw [h.channel, if_pos hne], hsame,
        hprop.trans hpfile⟩

namespace Controller

variable {cfg : Config F} {c c' : Controller F} {env : Environment F} {values : List (Source F)}

/-! ## The loop over the sources -/

omit [FloatOps F] in
theorem ReadAs.creates_iff {a : SourceArgs F} (h : ReadAs nodeContent cwd fileName s a)
    (hpos : s.audioFileName ≠ "" → 0 < s.audioFileChannel.toInt) :
    Creates cfg a ↔ s.Creatable cfg cwd fileName := by
  unfold Creates Source.Creatable
  rw [h.propertiesFile, h.channel]
  by_cases ha : s.audioFileName = ""
  · simp [ha]
  · simp [ha, hpos ha]

omit [FloatOps F] in
theorem ReadAs.reloaded {a : SourceArgs F} (h : ReadAs nodeContent cwd fileName s a)
    (hpos : s.audioFileName ≠ "" → 0 < s.audioFileChannel.toInt) (portName : String)
    (fileLength : ℤ) : Reloaded nodeContent cwd fileName s (newSourceOf a portName
      (if 0 < a.channel.toInt then a.fileOrPortName else "") fileLength) := by
  have hname : (if 0 < a.channel.toInt then a.fileOrPortName else "") =
      loadedAudioFile nodeContent cwd fileName s := by
    rw [h.channel, h.fileOrPortName]
    by_cases ha : s.audioFileName = ""
    · simp [ha, loadedAudioFile]
    · simp [ha, hpos ha]
  refine ⟨h.name, h.model, h.positionFixed, h.muted, hname, ?_, h.propertiesFile⟩
  rw [newSourceOf, hname, h.channel]
  by_cases ha : s.audioFileName = ""
  · simp [loadedAudioFile, ha]
  · simp [ha]

/-- **The loop over the saved sources** creates those that are creatable. -/
theorem loadSources_saved (nodeContent : String → String) (fileName : String) (env : Environment F)
    (hread : ReadsDecimals F) {sources : List (Source F)} (h : Loading cfg c values)
    (hacc : ∀ s ∈ sources, s.Accepted) :
    ∃ c' news, loadSources cfg env fileName
        (sources.map (addSourceNode nodeContent env.cwd fileName)) c = .ok c' ∧
      Loading cfg c' (values ++ news) ∧ news.length ≤ sources.length ∧
      (news.length = sources.length → ∀ s ∈ sources, s.Creatable cfg env.cwd fileName) ∧
      ((∀ s ∈ sources, s.Creatable cfg env.cwd fileName) →
        List.Forall₂ (Reloaded nodeContent env.cwd fileName) sources news) := by
  induction sources generalizing c values with
  | nil =>
    exact ⟨c, [], rfl, by rwa [List.append_nil], Nat.le_refl 0, fun _ s hs => (by cases hs),
      fun _ => .nil⟩
  | cons s sources ih =>
    have hs := hacc s List.mem_cons_self
    have hpos := hs.2.2.2.2.2
    obtain ⟨a, hrs, hra⟩ := readSource_addSourceNode nodeContent fileName hread cfg env hs
    have ha : 0 ≤ a.channel.toInt := by
      rw [hra.channel]
      split
      · decide
      · rename_i hne
        exact (hpos hne).le
    obtain ⟨c₁, hc₁, hyes, hno⟩ := h.newSource env ha
    have hloop : ∀ c', loadSources cfg env fileName
        (sources.map (addSourceNode nodeContent env.cwd fileName)) c₁ = .ok c' →
        loadSources cfg env fileName
          ((s :: sources).map (addSourceNode nodeContent env.cwd fileName)) c = .ok c' := by
      intro c' hc'
      simp only [List.map_cons, Controller.loadSources, hrs, hc₁, bind, Except.bind]
      exact hc'
    have hacc' : ∀ s ∈ sources, s.Accepted := fun s' hs' => hacc s' (List.mem_cons_of_mem s hs')
    by_cases hcr : Creates cfg a
    · obtain ⟨portName, fileLength, h₁⟩ := hyes hcr
      obtain ⟨c', news, hc', hl, hlen, hall, hrel⟩ := ih h₁ hacc'
      refine ⟨c', _ :: news, hloop c' hc', by rwa [List.append_assoc] at hl,
        Nat.succ_le_succ hlen, fun he => ?_, fun hcreate => ?_⟩
      · refine List.forall_mem_cons.2 ⟨(ReadAs.creates_iff hra hpos).1 hcr, ?_⟩
        exact hall (Nat.succ.inj he)
      · exact .cons (ReadAs.reloaded hra hpos portName fileLength)
          (hrel fun s' hs' => hcreate s' (List.mem_cons_of_mem s hs'))
    · obtain ⟨c', news, hc', hl, hlen, hall, hrel⟩ := ih (hno hcr) hacc'
      refine ⟨c', news, hloop c' hc', hl, Nat.le_succ_of_le hlen, fun he => ?_, fun hcreate => ?_⟩
      · exact absurd (he ▸ hlen) (Nat.not_succ_le_self _)
      · exact absurd ((ReadAs.creates_iff hra hpos).2 (hcreate s List.mem_cons_self)) hcr

/-! ## The whole scene -/

/-- `load_scene` accepts the file, and afterwards the Scene has the same sources in the same order.
-/
def Reloads (cfg : Config F) (env : Environment F) (fileName : String) (scene : Scene F)
    (d : Controller F) : Prop :=
  ∃ d', d.loadScene cfg env fileName = .ok (d', .returned true) ∧
    List.Forall₂ (SameSource env.cwd) scene.getSources d'.scene.getSources

theorem readReference_saved (nodeContent : String → String) (cwd fileName : String)
    (scene : Scene F) : ∃ r : Position F × Orientation F,
    readReference (saveSceneAsXml nodeContent cwd fileName scene) = some r := by
  unfold readReference
  rw [evalXpath_saveSceneAsXml]
  exact ⟨_, rfl⟩

theorem not_reloads {scene : Scene F} {d d' : Controller F}
    (h : d.loadScene cfg env fileName = .ok (d', .returned false)) :
    ¬Reloads cfg env fileName scene d := by
  rintro ⟨d'', hd, -⟩
  rw [h] at hd
  cases hd

theorem IsReady.reloads_iff {d : Controller F} {other : OtherRules} {scene : Scene F}
    (hready : d.IsReady cfg) (hread : ReadsDecimals F) (hasd : getFileExtension fileName = "asd")
    (hcwd : IsAbsolute env.cwd)
    (hfile : env.loadFile fileName = some (saveSceneAsXml nodeContent env.cwd fileName scene))
    (hschema : ∀ doc, env.validate cfg.xmlSchema doc = validAsdf other doc) :
    Reloads cfg env fileName scene d ↔ Saveable cfg nodeContent env.cwd fileName scene := by
  obtain ⟨d₁, hl₁, hload⟩ := loadScene_asd hready env hasd
  simp only [loadAsd, hfile, hschema] at hload
  by_cases hempty : cfg.xmlSchema = ""
  · rw [if_pos hempty] at hload
    exact iff_of_false (not_reloads hload) fun hs => hs.1 hempty
  rw [if_neg hempty] at hload
  by_cases hacc : scene.Accepted nodeContent
  · rw [if_pos (validAsdf_iff nodeContent other env.cwd fileName scene |>.2 hacc)] at hload
    obtain ⟨r, href⟩ := readReference_saved nodeContent env.cwd fileName scene
    obtain ⟨d₂, hl₂, hdoc⟩ := hl₁.loadDocument env fileName href
    obtain ⟨d₃, news, hd₃, hl₃, -, hall, hrel⟩ := loadSources_saved nodeContent fileName
      env hread hl₂ hacc.2.2.2.2
    obtain ⟨d₄, hd₄, hl₄⟩ := hl₃.startProcessing
    have hsources := evalXpath_saveSceneAsXml nodeContent env.cwd fileName "source" scene
    simp only [String.reduceEq, if_false, if_true, List.nil_append] at hsources
    rw [hdoc, hsources, hd₃] at hload
    simp only [Except.map, Except.bind, hd₄] at hload
    have hnews : d₄.scene.getSources = news := hl₄.values
    have hreload : Reloads cfg env fileName scene d ↔
        List.Forall₂ (SameSource env.cwd) scene.getSources news := by
      rw [← hnews]
      constructor
      · rintro ⟨d', hd', hsame⟩
        rw [hload] at hd'
        cases hd'
        exact hsame
      · exact fun hsame => ⟨d₄, hload, hsame⟩
    rw [hreload]
    constructor
    · intro hsame
      have hcreate := hall hsame.length_eq.symm
      have hportable := (List.forall₂_and_left
        (p := fun s : Source F => s.Portable nodeContent env.cwd fileName) _ _).1 <|
          (hrel hcreate).mp (fun s s' hr hs => ⟨(hr.sameSource_iff hcwd).1 hs, hr⟩) hsame
      exact ⟨hempty, hacc, fun source hs => ⟨hcreate source hs, hportable.1 source hs⟩⟩
    · rintro ⟨-, -, hsave⟩
      have hportable := (List.forall₂_and_left
        (p := fun s : Source F => s.Portable nodeContent env.cwd fileName) _ _).2
          ⟨fun source hs => (hsave source hs).2, hrel fun source hs => (hsave source hs).1⟩
      exact hportable.imp fun s s' h => (h.2.sameSource_iff hcwd).2 h.1
  · have hvalid := validAsdf_iff nodeContent other env.cwd fileName scene
    rw [if_neg fun hv => hacc (hvalid.1 hv)] at hload
    exact iff_of_false (not_reloads hload) fun hs => hacc hs.2.1

theorem isReady_of_run {env₀ : Environment F} {d₀ d : Controller F} {ops : List (Op F)}
    (hnew : new cfg env₀ = some d₀) (hrun : run (step cfg) d₀ ops = some d) : d.IsReady cfg := by
  obtain ⟨v, w, ⟨-, rt, hready, -⟩, -⟩ := linked_of_run hnew hrun
  exact ⟨rt, hready⟩

/-- **Saving and loading.** A scene that is saved in a file `*.asd` is loaded again, by a controller
with the same current directory, if and only if it is `Saveable`. -/
theorem saved_scene_reloads_iff {env₀ : Environment F} {d₀ d : Controller F} {ops : List (Op F)}
    {other : OtherRules} {scene : Scene F} (hread : ReadsDecimals F) (hnew : new cfg env₀ = some d₀)
    (hrun : run (step cfg) d₀ ops = some d) (hasd : getFileExtension fileName = "asd")
    (hcwd : IsAbsolute env.cwd)
    (hfile : env.loadFile fileName = some (saveSceneAsXml nodeContent env.cwd fileName scene))
    (hschema : ∀ doc, env.validate cfg.xmlSchema doc = validAsdf other doc) :
    Reloads cfg env fileName scene d ↔ Saveable cfg nodeContent env.cwd fileName scene :=
  (isReady_of_run hnew hrun).reloads_iff hread hasd hcwd hfile hschema

/-- A renderer for binaural room synthesis, started without a scene. -/
def brsConfig : Config ℤ :=
  { soundfileConfig with
    renderer := ⟨.brs, 2, fun _ => none⟩
    sceneFileName := "" }

/-- The scene has been saved in all files. -/
def savedEnvironment (scene : Scene ℤ) (fileName : String) : Environment ℤ :=
  { monoEnvironment with
    loadFile := fun _ => some (saveSceneAsXml id "/" fileName scene)
    validate := fun _ => validAsdf ⟨fun _ => false, fun _ => false⟩ }

/-- A source that plays the second channel of a file. -/
def fileScene : Scene ℤ :=
  { Scene.new with
    sourceMap := OrdMap.empty.insert 1
      { Source.new with name := "flute", audioFileName := "audio/flute.wav", audioFileChannel := 2 } }

theorem readsDecimals_int : ReadsDecimals ℤ := fun x _ => by
  rw [show (FloatOps.S2A (FloatOps.A2S x) : Option ℤ) = some x from readInt_toString x]
  rfl

theorem saved_scene_reloads_iff_file : ∃ d, new brsConfig monoEnvironment = some d ∧
    Reloads brsConfig (savedEnvironment fileScene "scenes/s.asd") "scenes/s.asd" fileScene d := by
  obtain ⟨d, hd⟩ : ∃ d, new brsConfig monoEnvironment = some d := ⟨_, rfl⟩
  refine ⟨d, hd, (saved_scene_reloads_iff readsDecimals_int hd run_nil (by decide)
    (by decide) rfl fun _ => rfl).2 ⟨by decide, ⟨by decide, by decide, by decide, by decide, ?_⟩, ?_⟩⟩
  · intro source hs
    rw [List.mem_singleton.1 hs]
    exact ⟨.inl rfl, by decide, by decide, by decide, by decide, fun _ => by decide⟩
  · intro source hs
    rw [List.mem_singleton.1 hs]
    refine ⟨⟨fun _ => rfl, ?_⟩, fun he => absurd he (by decide), fun _ => rfl, by decide⟩
    rintro (hf | hf)
    · exact hf rfl
    · exact absurd hf.1 (by decide)

/-- A source whose impulse responses are in a subdirectory. -/
def hallSource : SourceArgs ℤ :=
  { name := "hall", model := .point, fileOrPortName := "", channel := 0, position := .origin,
    positionFixed := false, orientation := .zero, gain := 1, muted := false,
    propertiesFile := "brirs/hall.wav" }

/-- The source of a scene in another directory has lost its properties file. -/
theorem properties_file_not_converted :
    ¬ ∀ (cfg : Config ℤ) (env₀ env : Environment ℤ) (c₀ c : Controller ℤ) (ops : List (Op ℤ))
      (other : OtherRules) (fileName : String), new cfg env₀ = some c₀ →
      run (step cfg) c₀ ops = some c → getFileExtension fileName = "asd" → IsAbsolute env.cwd →
      env.loadFile fileName = some (saveSceneAsXml id env.cwd fileName c.scene) →
      (∀ doc, env.validate cfg.xmlSchema doc = validAsdf other doc) →
      Reloads cfg env fileName c.scene c := by
  intro h
  obtain ⟨c₀, hc₀⟩ : ∃ c₀, new brsConfig monoEnvironment = some c₀ := ⟨_, rfl⟩
  obtain ⟨c, hc, hsources⟩ : ∃ c, run (step brsConfig) c₀ [.newSource monoEnvironment hallSource] =
      some c ∧ c.scene.getSources.map (·.propertiesFile) = ["brirs/hall.wav"] := by
    cases hc₀
    exact ⟨_, rfl, rfl⟩
  have hcwd : IsAbsolute (savedEnvironment c.scene "scenes/s.asd").cwd := by
    change IsAbsolute "/"
    decide
  have hreload := h brsConfig monoEnvironment (savedEnvironment c.scene "scenes/s.asd") c₀ c _ _
    "scenes/s.asd" hc₀ hc (by decide) hcwd rfl fun _ => rfl
  obtain ⟨-, -, hsave⟩ := ((isReady_of_run hc₀ hc).reloads_iff readsDecimals_int (by decide) hcwd rfl
    fun _ => rfl).1 hreload
  obtain ⟨source, hs, hp⟩ := List.mem_map.1 (hsources ▸ List.mem_singleton_self _)
  have hfile := (hsave source hs).2.2.2
  rw [hp] at hfile
  change file (directory "/" "scenes/s.asd") "brirs/hall.wav" =
    file (currentDir "/") "brirs/hall.wav" at hfile
  exact absurd hfile (by decide)

end Controller

end Ssr
