import Ssr.Control.AudioPlayer

/-!
# The file that is probed and the file that is played

Escaping can be undone (`unescape_escape`), but it is not idempotent: it adds a backslash for every
white space, again and again (`escape_eq_self_iff`). `getFormat` escapes its argument, which the
constructor has escaped already, so the two operands differ by one round of escaping
(`getFormat_operands`, `connect_operands`).
-/

set_option autoImplicit false

namespace Ssr.AudioPlayer

open Apf (isspace)
open PosixPathTools (escape getEscapedFilename)

/-! ## Escaping -/

/-- The text without the backslashes that are directly before white space. -/
def unescape : List Char → List Char
  | [] => []
  | c :: cs =>
    if c = '\\' ∧ cs.head?.any isspace then unescape cs else c :: unescape cs

theorem escape_length (cs : List Char) : (escape cs).length = cs.length + cs.countP isspace := by
  induction cs with
  | nil => rfl
  | cons c cs ih =>
    by_cases hc : isspace c = true
    · rw [escape, if_pos hc, List.countP_cons_of_pos hc]
      simp only [List.length_cons, ih]
      omega
    · rw [escape, if_neg hc, List.countP_cons_of_neg hc]
      simp only [List.length_cons, ih]
      omega

/-- Only a text without white space stays as it is. -/
theorem escape_eq_self_iff (cs : List Char) : escape cs = cs ↔ ∀ c ∈ cs, isspace c = false := by
  constructor
  · intro h
    have hlength := escape_length cs
    rw [h] at hlength
    have hcount : cs.countP isspace = 0 := by omega
    intro c hc
    simpa using List.countP_eq_zero.1 hcount c hc
  · intro h
    induction cs with
    | nil => rfl
    | cons c cs ih =>
      obtain ⟨hc, hcs⟩ := List.forall_mem_cons.1 h
      rw [escape, if_neg (by simp [hc]), ih hcs]

/-- White space never comes first in an escaped text. -/
theorem escape_head (cs : List Char) : (escape cs).head?.any isspace = false := by
  cases cs with
  | nil => rfl
  | cons c cs =>
    by_cases hc : isspace c = true
    · rw [escape, if_pos hc]
      rfl
    · rw [escape, if_neg hc]
      simpa using hc

theorem unescape_escape (cs : List Char) : unescape (escape cs) = cs := by
  induction cs with
  | nil => rfl
  | cons c cs ih =>
    by_cases hc : isspace c = true
    · have hne : c ≠ '\\' := by
        rintro rfl
        exact absurd hc (by decide)
      rw [escape, if_pos hc, unescape, if_pos ⟨rfl, by simpa using hc⟩, unescape,
        if_neg (by simp [hne]), ih]
    · rw [escape, if_neg hc, unescape, if_neg (by simp [escape_head]), ih]

theorem getEscapedFilename_toList (filename : String) :
    (getEscapedFilename filename).toList = escape filename.toList := String.toList_ofList

theorem getEscapedFilename_injective : Function.Injective getEscapedFilename := by
  intro filename filename' h
  have hescape : escape filename.toList = escape filename'.toList := by
    rw [← getEscapedFilename_toList, ← getEscapedFilename_toList, h]
  rw [← String.toList_inj, ← unescape_escape filename.toList, hescape, unescape_escape]

/-! ## Operands -/

/-- What follows the first `key` in a text. -/
def operandAfter (key : List Char) : List Char → Option (List Char)
  | [] => none
  | c :: cs =>
    if key.isPrefixOf (c :: cs) then some ((c :: cs).drop key.length) else operandAfter key cs

def isAiAdd (command : String) : Bool := "ai-add ".toList.isPrefixOf command.toList

/-- The operand after `sndfile,` in an `ai-add` command. -/
def sndfileOperand (command : String) : Option (List Char) :=
  if isAiAdd command then operandAfter "sndfile,".toList command.toList else none

/-- The sound files that are opened. -/
def sndfileOperands (commands : List String) : List (List Char) := commands.filterMap sndfileOperand

theorem sndfileOperands_other {command : String} (h : isAiAdd command = false)
    (commands : List String) : sndfileOperands (command :: commands) = sndfileOperands commands :=
  List.filterMap_cons_none (by rw [sndfileOperand, if_neg (by simp [h])])

theorem sndfileOperands_file {command : String} {operand : List Char}
    (h : sndfileOperand command = some operand) (commands : List String) :
    sndfileOperands (command :: commands) = operand :: sndfileOperands commands :=
  List.filterMap_cons_some h

theorem sndfileOperands_eq_nil {commands : List String} (h : commands.any isAiAdd = false) :
    sndfileOperands commands = [] := by
  induction commands with
  | nil => rfl
  | cons command commands ih =>
    rw [List.any_cons, Bool.or_eq_false_iff] at h
    rw [sndfileOperands_other h.1, ih h.2]

theorem sndfileOperands_append (commands commands' : List String) :
    sndfileOperands (commands ++ commands') = sndfileOperands commands ++ sndfileOperands commands' :=
  List.filterMap_append

theorem sndfileOperand_aiAdd (escapedFilename : String) (loop resample : Bool) :
    sndfileOperand (Soundfile.aiAdd escapedFilename loop resample) = some escapedFilename.toList := by
  cases loop <;> cases resample <;> simp [sndfileOperand, isAiAdd, Soundfile.aiAdd, operandAfter]

namespace Soundfile

theorem setUp_operands (escapedFilename outputPrefix clientName : String) (loop : Bool)
    (format : Format) (jackSampleRate : ℕ) :
    sndfileOperands (setUp escapedFilename outputPrefix clientName loop format jackSampleRate) =
      [escapedFilename.toList] := by
  have hformat : isAiAdd ("cs-set-audio-format ," ++ toString format.channels ++ "," ++
      toString jackSampleRate) = false := by simp [isAiAdd, List.isPrefixOf]
  have hout : isAiAdd ("ao-add jack_generic," ++ outputPrefix) = false := by
    simp [isAiAdd, List.isPrefixOf]
  have hname : isAiAdd ("-G:jack," ++ clientName ++ ",recv") = false := by
    simp [isAiAdd, List.isPrefixOf]
  rw [setUp, sndfileOperands_other (by decide), sndfileOperands_other (by decide),
    sndfileOperands_other hformat, sndfileOperands_file (sndfileOperand_aiAdd _ _ _),
    sndfileOperands_eq_nil (by simp only [List.any_cons, hout, hname]; decide)]

theorem getFormat_operands (eca : Ecasound) (filename : String) :
    sndfileOperands (getFormat eca filename).1 = [escape filename.toList] := by
  have hai : sndfileOperand ("ai-add sndfile," ++ getEscapedFilename filename) =
      some (escape filename.toList) := by
    rw [← getEscapedFilename_toList]
    exact sndfileOperand_aiAdd _ false false
  have hconnect : sndfileOperands ["cs-add dummy_chainsetup", "c-add dummy_chain",
      "ai-add sndfile," ++ getEscapedFilename filename, "ao-add null", "cs-connect"] =
        [escape filename.toList] := by
    rw [sndfileOperands_other (by decide), sndfileOperands_other (by decide),
      sndfileOperands_file hai, sndfileOperands_eq_nil (by decide)]
  rw [getFormat, probe]
  split
  · exact hconnect
  · dsimp only
    split <;> simp only [sndfileOperands_append, hconnect] <;> rfl

theorem connect_operands (eca : Ecasound) (file : Soundfile) (loop : Bool) (jackSampleRate : ℕ) :
    sndfileOperands (connect eca file loop jackSampleRate).1 = [file.escapedFilename.toList] := by
  rw [connect]
  split
  · exact setUp_operands _ _ _ _ _ _
  · dsimp only
    split <;> simp only [sndfileOperands_append, setUp_operands] <;> rfl

theorem new_operands (env : Environment) (filename : String) (loop : Bool) (outputPrefix : String) :
    sndfileOperands (new env filename loop outputPrefix).1.format =
        [escape (escape filename.toList)] ∧
      ∀ played ∈ sndfileOperands (new env filename loop outputPrefix).1.own,
        played = escape filename.toList := by
  have hprobed := getFormat_operands env.format (getEscapedFilename filename)
  rw [getEscapedFilename_toList] at hprobed
  rw [new]
  cases hformat : getFormat env.format (getEscapedFilename filename) with
  | mk sent format =>
    rw [hformat] at hprobed
    cases format with
    | error e => exact ⟨hprobed, by simp [sndfileOperands]⟩
    | ok format =>
      cases getJackSampleRate env.jack with
      | mk jack rate =>
        cases rate with
        | error e => exact ⟨hprobed, by simp [sndfileOperands]⟩
        | ok rate =>
          refine ⟨hprobed, fun played hplayed => ?_⟩
          dsimp only at hplayed
          rw [connect_operands, List.mem_singleton] at hplayed
          rw [hplayed, getEscapedFilename_toList]

/-- An ecasound that takes every command. -/
def willing : Ecasound :=
  { error := fun _ => false, lastError := fun _ => "", lastString := fun _ => "s16_le,2,44100"
    lastLongInteger := fun _ => 0 }

theorem readFormat_willing : readFormat "s16_le,2,44100" = some ⟨"s16_le", 2, 44100⟩ := by decide

/-- With it the constructor gets as far as its own chain. -/
theorem new_willing (filename : String) :
    sndfileOperands (new ⟨willing, willing, willing, 64⟩ filename false "channel").1.own =
      [escape filename.toList] := by
  have hprobe : ∀ aiAdd select context conversion, ∃ sent,
      probe willing aiAdd select context conversion = (sent, .ok ⟨"s16_le", 2, 44100⟩) := by
    intro aiAdd select context conversion
    rw [probe]
    simp only [willing, Bool.false_eq_true, if_false, readFormat_willing]
    exact ⟨_, rfl⟩
  obtain ⟨sent, hformat⟩ : ∃ sent, getFormat willing (getEscapedFilename filename) =
      (sent, .ok ⟨"s16_le", 2, 44100⟩) := hprobe _ _ _ _
  obtain ⟨jack, hrate⟩ : ∃ jack, getJackSampleRate willing = (jack, .ok 44100) := by
    obtain ⟨jack, hjack⟩ := hprobe "ai-add jack" [] "_get_jack_sample_rate(): "
      "Couldn't convert string for getting sample rate!"
    exact ⟨jack, by rw [getJackSampleRate, hjack]; rfl⟩
  rw [new]
  simp only [hformat, hrate]
  rw [connect_operands, getEscapedFilename_toList]

end Soundfile

/-- The player plays what has been probed, and the file name can be read off the operand. -/
structure SameFile (filename : String) : Prop where
  operand : ∀ env loop outputPrefix,
    ∀ played ∈ sndfileOperands (Soundfile.new env filename loop outputPrefix).1.own,
      sndfileOperands (Soundfile.new env filename loop outputPrefix).1.format = [played]
  unescape : ∀ env loop outputPrefix,
    ∀ played ∈ sndfileOperands (Soundfile.new env filename loop outputPrefix).1.own,
      unescape played = filename.toList

/-- **The same file is probed and played** if and only if its name has no white space; escaping is
injective in any case. -/
theorem sameFile_iff (filename : String) : Function.Injective getEscapedFilename ∧
    (SameFile filename ↔ ∀ c ∈ filename.toList, isspace c = false) := by
  refine ⟨getEscapedFilename_injective, ?_, ?_⟩
  · intro h
    have hplayed := Soundfile.new_willing filename
    have hsame := h.operand _ _ _ _ (by rw [hplayed]; exact List.mem_singleton_self _)
    rw [(Soundfile.new_operands _ _ _ _).1] at hsame
    have hescape : escape (escape filename.toList) = escape filename.toList :=
      List.head_eq_of_cons_eq hsame
    have hnone := (escape_eq_self_iff _).1 hescape
    have hback := congrArg AudioPlayer.unescape hescape
    rw [unescape_escape, unescape_escape] at hback
    rw [hback] at hnone
    exact hnone
  · intro h
    have hescape := (escape_eq_self_iff filename.toList).2 h
    constructor
    · intro env loop outputPrefix played hplayed
      obtain ⟨hprobed, hown⟩ := Soundfile.new_operands env filename loop outputPrefix
      rw [hprobed, hown played hplayed, hescape, hescape]
    · intro env loop outputPrefix played hplayed
      rw [(Soundfile.new_operands env filename loop outputPrefix).2 played hplayed, unescape_escape]

/-- `a b.wav` is probed under a name with two backslashes. -/
theorem sameFile_space : ¬ SameFile "a b.wav" := by
  intro h
  have hplayed := Soundfile.new_willing "a b.wav"
  have hsame := h.operand _ _ _ _ (by rw [hplayed]; exact List.mem_singleton_self _)
  rw [(Soundfile.new_operands _ _ _ _).1] at hsame
  exact absurd hsame (by decide)

end Ssr.AudioPlayer
