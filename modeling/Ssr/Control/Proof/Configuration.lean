import Ssr.Control.Configuration

/-!
# The last line of an option

In a configuration file that is read to its end every option that is kept as a text has the value of
the last line that names it (`get_load`). But a line with nothing after the `=` does not write the
buffer `value`, and its option gets the value of the line before that has written it
(`lastWins_iff`).
-/

set_option autoImplicit false

namespace Ssr.Configuration

open Apf Lib PosixPathTools

variable {F : Type}

/-! ## Lines -/

/-- The lines of a file, where `line` has been read of the present one, in reverse. -/
def splitLines (line : List Char) : List Char → List (List Char)
  | [] => if line = [] then [] else [line.reverse]
  | c :: cs =>
    if c = '\n' then (c :: line).reverse :: splitLines [] cs else splitLines (c :: line) cs

theorem exists_longer (line : List Char) (c : Char) (cs : List Char) :
    ∃ l ∈ splitLines line (c :: cs), line.length < l.length := by
  induction cs generalizing line c with
  | nil =>
    rw [splitLines]
    split
    · exact ⟨_, List.mem_cons_self, by simp⟩
    · refine ⟨(c :: line).reverse, ?_, by simp⟩
      simp [splitLines]
  | cons c' cs ih =>
    rw [splitLines]
    split
    · exact ⟨_, List.mem_cons_self, by simp⟩
    · obtain ⟨l, hl, hlt⟩ := ih (c :: line) c'
      exact ⟨l, hl, Nat.lt_of_succ_lt hlt⟩

/-- Lines that fit into the buffer are read as they are. -/
theorem fgets_eq_splitLines {size : ℕ} {line cs : List Char}
    (h : ∀ l ∈ splitLines line cs, l.length < size) : fgets size line cs = splitLines line cs := by
  induction cs generalizing line with
  | nil => rfl
  | cons c cs ih =>
    rw [fgets, splitLines]
    rw [splitLines] at h
    by_cases hc : c = '\n'
    · rw [if_pos hc] at h
      rw [if_pos (.inl hc), if_pos hc, ih fun l hl => h l (List.mem_cons_of_mem _ hl)]
    · rw [if_neg hc] at h
      rw [if_neg hc, ← ih h]
      split
      · rename_i hfull
        have hsize := hfull.resolve_left hc
        cases cs with
        | nil => simp [fgets]
        | cons c' cs =>
          obtain ⟨l, hl, hlt⟩ := exists_longer (c :: line) c' cs
          have hl' := h l hl
          rw [List.length_cons] at hlt
          omega
      · rfl

/-- The lines of a file, as text. -/
def fileLines (file : List Char) : List (List Char) := (splitLines [] file).map cString

/-! ## What a line says -/

def lineKey (line : List Char) : List Char := (parse line []).2.1

/-- The text of the value, if there is anything after the `=`. -/
def valueText (line : List Char) : Option (List Char) :=
  match parse line [] with
  | (.success, _, value) => some value
  | _ => none

theorem parseValue_result (line : List Char) :
    (parseValue line).1 ≠ .noValue ∧ (parseValue line).1 ≠ .empty := by
  unfold parseValue
  dsimp only
  split_ifs <;> exact ⟨by simp, by simp⟩

/-- The buffer `value` matters only if there is nothing after the `=`. -/
theorem parse_eq (line value : List Char) :
    parse line value = ((parse line []).1, lineKey line,
      if (parse line []).1 = .noValue ∨ (parse line []).1 = .empty then value
      else (parse line []).2.2) := by
  unfold lineKey parse
  dsimp only
  split
  · rfl
  · split
    · rfl
    · dsimp only
      rw [if_neg (not_or.2 (parseValue_result _))]

/-- The line is for this option. -/
def Names (option : ConfOption) (line : List Char) : Prop :=
  isCommentOrEmpty line = false ∧ String.ofList (lineKey line) = option.key

/-- What the buffer `value` contains after the lines. -/
def carried (value : List Char) (lines : List (List Char)) : List Char :=
  lines.foldl (fun value line =>
    if isCommentOrEmpty line then value else (valueText line).getD value) value

variable {env : ConfigEnv F} {filename : String} {conf conf' : ConfStruct F} {value : List Char}
  {line : List Char} {lines : List (List Char)}

theorem loadLines_comment (h : isCommentOrEmpty line = true) :
    loadLines env filename conf value (line :: lines) = loadLines env filename conf value lines :=
  if_pos h

/-- A line that is not skipped sets its option to its own value or to that in the buffer. -/
theorem loadLines_cons (hline : isCommentOrEmpty line = false)
    (h : loadLines env filename conf value (line :: lines) = .ok conf') :
    ∃ conf₁, setKey env filename conf (lineKey line) ((valueText line).getD value) = .ok conf₁ ∧
      loadLines env filename conf₁ ((valueText line).getD value) lines = .ok conf' := by
  rw [loadLines, if_neg (by simp [hline]), parse_eq] at h
  have hkey : (parse line []).2.1 = lineKey line := rfl
  unfold valueText
  revert h hkey
  generalize parse line [] = r
  obtain ⟨result, key, text⟩ := r
  rintro h rfl
  have hset : ∀ value, (do
      let conf₁ ← setKey env filename conf (lineKey line) value
      loadLines env filename conf₁ value lines) = .ok conf' →
      ∃ conf₁, setKey env filename conf (lineKey line) value = .ok conf₁ ∧
        loadLines env filename conf₁ value lines = .ok conf' := by
    intro value h
    cases hset : setKey env filename conf (lineKey line) value with
    | error e =>
      rw [hset] at h
      cases h
    | ok conf₁ =>
      rw [hset] at h
      exact ⟨conf₁, rfl, h⟩
  cases result with
  | success => exact hset text h
  | empty => exact hset value h
  | noValue => exact absurd h (by simp)
  | noQuote => exact absurd h (by simp)
  | quote => exact absurd h (by simp)

/-! ## Where the texts are kept -/

/-- A member of `conf_struct` or a parameter of the renderer. -/
inductive Slot
  | param (name : String)
  | tracker
  | trackerPorts
  | sceneFileName
  | xmlSchema
  | audioRecorderFileName
  | inputPortPrefix
  | outputPortPrefix
  | pathToGuiImages
  | pathToSceneMenu
  deriving DecidableEq

def Slot.get (conf : ConfStruct F) : Slot → Option String
  | param name => conf.rendererParams.find name
  | tracker => some conf.tracker
  | trackerPorts => some conf.trackerPorts
  | sceneFileName => some conf.sceneFileName
  | xmlSchema => some conf.xmlSchema
  | audioRecorderFileName => some conf.audioRecorderFileName
  | inputPortPrefix => some conf.inputPortPrefix
  | outputPortPrefix => some conf.outputPortPrefix
  | pathToGuiImages => some conf.pathToGuiImages
  | pathToSceneMenu => some conf.pathToSceneMenu

/-- A text as it is, or a path. -/
inductive TextKind
  | plain
  | path
  deriving DecidableEq

def TextKind.convert (env : ConfigEnv F) (filename : String) (kind : TextKind) (text : List Char) :
    String :=
  match kind with
  | plain => String.ofList text
  | path => makePathRelativeToCurrentDir env.cwd (String.ofList text) filename

/-- The options that are kept as texts. -/
def text : ConfOption → Option (Slot × TextKind)
  | .name => some (.param "name", .plain)
  | .numberOfThreads => some (.param "threads", .plain)
  | .masterVolumeCorrection => some (.param "master_volume_correction", .plain)
  | .sceneFileName => some (.sceneFileName, .path)
  | .sceneMenu => some (.pathToSceneMenu, .path)
  | .playbackSetupFileName => some (.param "reproduction_setup", .path)
  | .xmlSchemaFileName => some (.xmlSchema, .path)
  | .audioRecorderFileName => some (.audioRecorderFileName, .path)
  | .wfsPrefilter => some (.param "prefilter_file", .path)
  | .delaylineSize => some (.param "delayline_size", .plain)
  | .initialDelay => some (.param "initial_delay", .plain)
  | .hrirFileName => some (.param "hrir_file", .path)
  | .hrirSize => some (.param "hrir_size", .plain)
  | .inputPrefix => some (.inputPortPrefix, .plain)
  | .outputPrefix => some (.outputPortPrefix, .plain)
  | .pathToGuiImages => some (.pathToGuiImages, .path)
  | .tracker => some (.tracker, .plain)
  | .trackerPorts => some (.trackerPorts, .plain)
  | .standardAmplitudeReferenceDistance | .rendererType | .ambisonicsOrder | .inPhaseRendering
  | .freewheel | .gui | .networkInterface | .serverPort | .verbose => none

/-- The option that writes a slot. -/
def Slot.writer : Slot → Option ConfOption
  | param "name" => some .name
  | param "threads" => some .numberOfThreads
  | param "master_volume_correction" => some .masterVolumeCorrection
  | param "reproduction_setup" => some .playbackSetupFileName
  | param "prefilter_file" => some .wfsPrefilter
  | param "delayline_size" => some .delaylineSize
  | param "initial_delay" => some .initialDelay
  | param "hrir_file" => some .hrirFileName
  | param "hrir_size" => some .hrirSize
  | param "ambisonics_order" => some .ambisonicsOrder
  | param "in_phase" => some .inPhaseRendering
  | param _ => none
  | tracker => some .tracker
  | trackerPorts => some .trackerPorts
  | sceneFileName => some .sceneFileName
  | xmlSchema => some .xmlSchemaFileName
  | audioRecorderFileName => some .audioRecorderFileName
  | inputPortPrefix => some .inputPrefix
  | outputPortPrefix => some .outputPrefix
  | pathToGuiImages => some .pathToGuiImages
  | pathToSceneMenu => some .sceneMenu

theorem writer_of_text {option : ConfOption} {slot : Slot} {kind : TextKind}
    (h : text option = some (slot, kind)) : slot.writer = some option := by
  cases option <;> cases h <;> rfl

theorem ofKey_key (option : ConfOption) : ConfOption.ofKey option.key = some option := by
  cases option <;> rfl

theorem key_of_ofKey {key : String} {option : ConfOption} (h : ConfOption.ofKey key = some option) :
    option.key = key := by
  simpa using List.find?_some h

theorem get_setParam (name text : String) (slot : Slot) :
    slot.get (conf.setParam name text) = if slot = .param name then some text else slot.get conf := by
  cases slot with
  | param name' =>
    simp only [Slot.get, ConfStruct.setParam, OrdMap.find_insert, Slot.param.injEq]
  | _ => rfl

theorem setSize_eq {name text : String} {least : ℤ} (h : setSize conf name text least = .ok conf') :
    conf' = conf.setParam name text := by
  unfold setSize at h
  split at h
  · cases h
  · split at h
    · cases h
    · exact (Except.ok.inj h).symm

theorem setHrirSize_eq {text : String} (h : setHrirSize conf text = .ok conf') :
    conf' = conf.setParam "hrir_size" text := by
  unfold setHrirSize at h
  split at h
  · cases h
  · exact (Except.ok.inj h).symm

/-- A branch of the loader writes its own slot. -/
theorem get_setOption {option : ConfOption} {slot : Slot} {kind : TextKind} {text' : List Char}
    (hslot : text option = some (slot, kind))
    (h : setOption env filename conf (String.ofList text') option = .ok conf') :
    slot.get conf' = some (kind.convert env filename text') := by
  cases option <;> cases hslot <;> simp only [setOption, Except.ok.injEq] at h
  case delaylineSize | initialDelay => rw [setSize_eq h, get_setParam, if_pos rfl]; rfl
  case hrirSize => rw [setHrirSize_eq h, get_setParam, if_pos rfl]; rfl
  all_goals subst h
  all_goals first
    | rfl
    | exact (get_setParam _ _ _).trans (if_pos rfl)

/-- A branch of the loader writes no slot of another option. -/
theorem get_setOption_of_ne {option : ConfOption} {slot : Slot} {text' : String}
    (hslot : slot.writer ≠ some option) (h : setOption env filename conf text' option = .ok conf') :
    slot.get conf' = slot.get conf := by
  have hparam : ∀ {name : String} (text : String), (Slot.param name).writer = some option →
      slot.get (conf.setParam name text) = slot.get conf := by
    intro name text hwriter
    rw [get_setParam, if_neg]
    rintro rfl
    exact hslot hwriter
  cases option <;> simp only [setOption, Except.ok.injEq] at h
  case delaylineSize | initialDelay => rw [setSize_eq h]; exact hparam _ rfl
  case hrirSize => rw [setHrirSize_eq h]; exact hparam _ rfl
  case inPhaseRendering =>
    split at h
    · cases h; exact hparam _ rfl
    · split at h
      · cases h; exact hparam _ rfl
      · cases h; rfl
  case networkInterface | serverPort =>
    subst h
    split
    · cases slot <;> rfl
    · rfl
  all_goals subst h
  all_goals first
    | exact hparam _ rfl
    | cases slot <;> first | rfl | exact absurd rfl hslot

/-! ## The loop -/

theorem get_setKey {option : ConfOption} {slot : Slot} {kind : TextKind} {key text' : List Char}
    (hslot : text option = some (slot, kind)) (h : setKey env filename conf key text' = .ok conf') :
    slot.get conf' =
      if String.ofList key = option.key then some (kind.convert env filename text')
      else slot.get conf := by
  unfold setKey at h
  split at h
  · rename_i option' hkey
    split
    · rename_i hname
      rw [hname, ofKey_key] at hkey
      cases hkey
      exact get_setOption hslot h
    · rename_i hname
      refine get_setOption_of_ne (fun hwriter => hname ?_) h
      rw [writer_of_text hslot] at hwriter
      cases hwriter
      exact (key_of_ofKey hkey).symm
  · cases h

/-- The line `line` is the last one that names the option. -/
structure LastLine (option : ConfOption) (lines pre : List (List Char)) (line : List Char)
    (post : List (List Char)) : Prop where
  split : lines = pre ++ line :: post
  names : Names option line
  last : ∀ l ∈ post, ¬ Names option l

/-- Lines that do not name an option leave it as it is. -/
theorem get_load_of_not_names {option : ConfOption} {slot : Slot} {kind : TextKind}
    (hslot : text option = some (slot, kind)) (hlines : ∀ l ∈ lines, ¬ Names option l)
    (h : loadLines env filename conf value lines = .ok conf') : slot.get conf' = slot.get conf := by
  induction lines generalizing conf value with
  | nil =>
    cases h
    rfl
  | cons line lines ih =>
    have hrest : ∀ l ∈ lines, ¬ Names option l := fun l hl => hlines l (List.mem_cons_of_mem _ hl)
    cases hline : isCommentOrEmpty line with
    | true =>
      rw [loadLines_comment hline] at h
      exact ih hrest h
    | false =>
      obtain ⟨conf₁, hset, hload⟩ := loadLines_cons hline h
      rw [ih hrest hload, get_setKey hslot hset, if_neg]
      exact fun hkey => hlines line List.mem_cons_self ⟨hline, hkey⟩

/-- The option has the value of its last line, or what the buffer contains there. -/
theorem get_load {option : ConfOption} {slot : Slot} {kind : TextKind}
    {pre post : List (List Char)} (hslot : text option = some (slot, kind))
    (hlast : LastLine option lines pre line post)
    (h : loadLines env filename conf value lines = .ok conf') :
    slot.get conf' =
      some (kind.convert env filename ((valueText line).getD (carried value pre))) := by
  obtain ⟨rfl, hnames, hlast⟩ := hlast
  induction pre generalizing conf value with
  | nil =>
    obtain ⟨conf₁, hset, hload⟩ := loadLines_cons hnames.1 h
    rw [get_load_of_not_names hslot hlast hload, get_setKey hslot hset, if_pos hnames.2]
    rfl
  | cons line' pre ih =>
    rw [carried, List.foldl_cons, ← carried]
    cases hline : isCommentOrEmpty line' with
    | true =>
      rw [List.cons_append, loadLines_comment hline] at h
      exact ih h
    | false =>
      obtain ⟨conf₁, -, hload⟩ := loadLines_cons hline h
      exact ih hload

/-! ## Files -/

/-- Every option that is kept as a text and named in the file has the value of its last line, where
nothing after the `=` stands for the empty text. -/
def LastWins (env : ConfigEnv F) (filename : String) (file : List Char) (conf' : ConfStruct F) :
    Prop :=
  ∀ option slot kind pre line post, text option = some (slot, kind) →
    LastLine option (fileLines file) pre line post →
    slot.get conf' = some (kind.convert env filename ((valueText line).getD []))

/-- Where the last line of an option has nothing after the `=`, what is left in the buffer stands for
the same as the empty text. -/
def NothingCarried (env : ConfigEnv F) (filename : String) (file buffer : List Char) : Prop :=
  ∀ option slot kind pre line post, text option = some (slot, kind) →
    LastLine option (fileLines file) pre line post → valueText line = none →
    kind.convert env filename (carried buffer pre) = kind.convert env filename []

/-- **The last line of an option wins** exactly if no value is carried over to a line without one. -/
theorem lastWins_iff {file buffer : List Char}
    (hshort : ∀ line ∈ splitLines [] file, line.length < bufSize)
    (hload : loadConfigFile env filename (some file) conf buffer = .ok conf') :
    LastWins env filename file conf' ↔ NothingCarried env filename file buffer := by
  have hlines : bufferLines file = fileLines file := by
    rw [bufferLines, fgets_eq_splitLines hshort, fileLines]
  rw [loadConfigFile, hlines] at hload
  constructor
  · intro h option slot kind pre line post hslot hlast hnone
    have hget := h option slot kind pre line post hslot hlast
    rw [get_load hslot hlast hload, hnone] at hget
    exact Option.some.inj hget
  · intro h option slot kind pre line post hslot hlast
    rw [get_load hslot hlast hload]
    cases hvalue : valueText line with
    | none => exact congrArg some (h option slot kind pre line post hslot hlast hvalue)
    | some v => rfl

/-! ## Two files -/

def exampleEnv : ConfigEnv ℤ := { cwd := "/", enableIpInterface := true, atof := fun _ => 0 }

def exampleConf (inputPrefix : String) : ConfStruct ℤ :=
  { rendererParams := .empty, standAmplRefDist := 3, gui := true, ipServer := false, tracker := "",
    trackerPorts := "", freewheeling := false, sceneFileName := "", xmlSchema := "",
    audioRecorderFileName := "", inputPortPrefix := inputPrefix, outputPortPrefix := "",
    pathToGuiImages := "", pathToSceneMenu := "", serverPort := 4711, verbose := 0 }

def twoValues : List Char := "INPUT_PREFIX = a\n# comment\nINPUT_PREFIX = b\n".toList

theorem lastWins_twoValues : LastWins exampleEnv "ssr.conf" twoValues (exampleConf "b") := by
  have hload : loadConfigFile exampleEnv "ssr.conf" (some twoValues) (exampleConf "") [] =
      .ok (exampleConf "b") := rfl
  refine (lastWins_iff (by decide) hload).2 fun option slot kind pre line post _ hlast hnone => ?_
  have hvalues : ∀ l ∈ fileLines twoValues, isCommentOrEmpty l = false → valueText l ≠ none := by
    decide
  exact absurd hnone (hvalues line (hlast.split ▸ by simp) hlast.names.1)

/-- The tracker gets the prefix of the input ports. -/
def noValue : List Char := "INPUT_PREFIX = a\nTRACKER =\n".toList

theorem not_lastWins :
    ¬ ∀ (env : ConfigEnv ℤ) (filename : String) (file buffer : List Char)
      (conf conf' : ConfStruct ℤ), (∀ line ∈ splitLines [] file, line.length < bufSize) →
      loadConfigFile env filename (some file) conf buffer = .ok conf' →
        LastWins env filename file conf' := by
  intro h
  have hload : loadConfigFile exampleEnv "ssr.conf" (some noValue) (exampleConf "") [] =
      .ok { exampleConf "a" with tracker := "a" } := rfl
  have hlast : LastLine .tracker (fileLines noValue) ["INPUT_PREFIX = a\n".toList]
      "TRACKER =\n".toList [] := ⟨rfl, ⟨rfl, rfl⟩, by simp⟩
  have hwins := h exampleEnv "ssr.conf" noValue [] _ _ (by decide) hload .tracker .tracker .plain _ _ _
    rfl hlast
  exact absurd hwins (by decide)

end Ssr.Configuration
