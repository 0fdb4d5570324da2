import Ssr.Apf.Proof.TimeFields

/-!
# Numbers with a unit

Whatever `stringToNumber` reads is in the grammar, and it reads everything in the grammar, except
that `ws` may fail behind a number at the end of the text (`NumberTime.AtEnd`).
-/

set_option autoImplicit false

namespace Apf

open Lib

variable {platform : Platform} {format : Format}

/-! ## Numbers with units -/

/-- Nothing follows the number or its unit. -/
def NumberTime.AtEnd (x : NumberTime) : Prop :=
  x.trail.chars = [] ∧ (x.unit = none → x.gap.chars = [])

theorem value_eq_intValue {n : Numeral} (h : n.HasFormat .integer) : n.value = n.intValue := by
  obtain ⟨sign, whole, fraction, exponent⟩ := n
  obtain ⟨rfl, rfl⟩ := h
  simp only [Numeral.value, Numeral.intValue, Option.elim_none, add_zero]
  split
  · rw [Int.cast_neg, Int.cast_natCast]
  · rw [Int.cast_natCast]

theorem divide_thousand {n : Numeral} (h : n.HasFormat format) :
    (divide format n.value 1000 * 1000 = n.value ↔
      (format = .integer → (1000 : ℤ) ∣ n.intValue)) := by
  cases format with
  | rational =>
    refine ⟨(fun _ h => by cases h), fun _ => ?_⟩
    exact div_mul_cancel₀ _ (by norm_num)
  | integer =>
    have hdivide : divide .integer n.value 1000 = ((n.intValue.tdiv 1000 : ℤ) : ℚ) := by
      rw [value_eq_intValue h]
      rfl
    have hiff : ((n.intValue.tdiv 1000 : ℤ) : ℚ) * 1000 = (n.intValue : ℚ) ↔
        n.intValue.tdiv 1000 * 1000 = n.intValue := by
      exact_mod_cast Iff.rfl
    rw [hdivide, value_eq_intValue h, hiff]
    refine ⟨fun h _ => ⟨n.intValue.tdiv 1000, ?_⟩, fun h => Int.tdiv_mul_cancel (h rfl)⟩
    rw [mul_comm, h]

theorem applySuffix_text {n : Numeral} (hn : n.HasFormat format) {u : TimeUnit}
    (hu : u = .ms → format = .integer → (1000 : ℤ) ∣ n.intValue) :
    applySuffix format u.text n.value = some (u.seconds n.value) := by
  cases u with
  | h =>
    have hsuffix : applySuffix format TimeUnit.h.text n.value = some (n.value * 60 * 60) := rfl
    rw [hsuffix, TimeUnit.seconds]
    congr 1
    ring
  | min => rfl
  | s => rfl
  | ms =>
    have hmul := (divide_thousand hn).2 (hu rfl)
    have hdiv : divide format n.value 1000 = n.value / 1000 :=
      (eq_div_iff (by norm_num)).2 hmul
    have hsuffix : applySuffix format TimeUnit.ms.text n.value =
        if divide format n.value 1000 * 1000 ≠ n.value then none
        else some (divide format n.value 1000) := rfl
    rw [hsuffix, if_neg (not_not.2 hmul), hdiv]
    rfl

theorem of_applySuffix {n : Numeral} (hn : n.HasFormat format) {theRest : List Char} {v : ℚ}
    (h : applySuffix format theRest n.value = some v) :
    ∃ u : TimeUnit, theRest = u.text ∧
      (u = .ms → format = .integer → (1000 : ℤ) ∣ n.intValue) := by
  rw [applySuffix] at h
  split at h
  · rename_i heq
    exact ⟨.h, heq, fun h => by cases h⟩
  · split at h
    · rename_i heq
      exact ⟨.min, heq, fun h => by cases h⟩
    · split at h
      · rename_i heq
        exact ⟨.s, heq, fun h => by cases h⟩
      · split at h
        · rename_i heq
          split at h
          · cases h
          · rename_i hmul
            exact ⟨.ms, heq, fun _ => (divide_thousand hn).1 (not_not.1 hmul)⟩
        · cases h

theorem NumberTime.stops (x : NumberTime) :
    Stops (x.gap.chars ++ (x.unit.elim [] TimeUnit.text ++ x.trail.chars)) := by
  refine x.gap.stops _ ?_
  cases x.unit with
  | none => exact x.trail.stops_chars
  | some u =>
    intro c hc
    cases u <;>
    · cases hc
      decide

theorem NumberTime.Grammar.extract_text {x : NumberTime} (h : x.Grammar format) :
    (Istream.new x.text).extract isspace format (fun _ => true) =
      (.after (x.gap.chars ++ (x.unit.elim [] TimeUnit.text ++ x.trail.chars)) true,
        some x.number) := by
  exact Istream.extract_live x.lead.isspace true (fun h => by cases h) h.hasFormat h.complete
    (head_text h.complete _) (text_ne_nil h.complete _) x.stops

theorem NumberTime.Grammar.stringToNumber_text {x : NumberTime} (h : x.Grammar format)
    (platform : Platform) :
    (platform.wsSentry = true ∧ x.AtEnd → stringToNumber platform format x.text = none) ∧
      (¬ (platform.wsSentry = true ∧ x.AtEnd) →
        stringToNumber platform format x.text = some x.value) := by
  rw [stringToNumber, h.extract_text]
  cases hu : x.unit with
  | none =>
    have hspace : ∀ c ∈ x.gap.chars ++ x.trail.chars, isspace c = true := fun c hc =>
      (List.mem_append.1 hc).elim (x.gap.isspace c) (x.trail.isspace c)
    have hend : x.AtEnd ↔ (x.gap.chars ++ x.trail.chars).isEmpty = true := by
      rw [AtEnd, hu, List.isEmpty_iff, List.append_eq_nil_iff]
      exact ⟨fun h => ⟨h.2 rfl, h.1⟩, fun h => ⟨h.2, fun _ => h.1⟩⟩
    have hvalue : x.value = x.number.value := by
      rw [value, hu]
      rfl
    simp only [Option.elim_none, List.nil_append, Istream.ws_after platform.wsSentry true hspace,
      hend, hvalue]
    cases platform.wsSentry <;> cases (x.gap.chars ++ x.trail.chars).isEmpty <;>
      simp [Istream.after]
  | some u =>
    have hall : u.text.all (!isspace ·) = true := by cases u <;> rfl
    have hword : ∀ c ∈ u.text, isspace c = false := fun c hc => by
      simpa using List.all_eq_true.1 hall c hc
    have hne : u.text ≠ [] := by cases u <;> decide
    have hrest : ∀ c ∈ x.trail.chars.head?, isspace c = true := fun c hc =>
      x.trail.isspace c (List.mem_of_head? hc)
    have hhead : ∀ c ∈ (u.text ++ x.trail.chars).head?, isspace c = false := by
      intro c hc
      rw [List.head?_append, List.head?_eq_some_head hne] at hc
      cases hc
      exact hword _ (List.head_mem hne)
    have hws : (Istream.after (x.gap.chars ++ (u.text ++ x.trail.chars)) true).ws isspace
        platform.wsSentry = .live (u.text ++ x.trail.chars) true := by
      rw [Istream.after_of_ne_nil (by simp [hne]), Istream.ws_live _ _ x.gap.isspace hhead,
        Istream.after_of_ne_nil (by simp [hne])]
    have hend : x.AtEnd ↔ x.trail.chars.isEmpty = true := by
      rw [AtEnd, hu, List.isEmpty_iff]
      exact ⟨And.left, fun h => ⟨h, fun h => by cases h⟩⟩
    have hvalue : x.value = u.seconds x.number.value := by
      rw [value, hu]
      rfl
    have hsuffix := applySuffix_text h.hasFormat (u := u) fun hms => h.ms (by rw [hu, hms])
    simp only [Option.elim_some, hws, Istream.extractWord_live hword hne hrest, hend, hvalue,
      Istream.ws_after platform.wsSentry true x.trail.isspace, hsuffix]
    cases platform.wsSentry <;> cases x.trail.chars.isEmpty <;> simp [Istream.after, Istream.live]

/-- White space, a word and white space again. -/
theorem of_word {rest theRest : List Char} {s : Istream}
    (heof : ¬((Istream.after rest true).ws isspace platform.wsSentry).eofbit = true)
    (hword : ((Istream.after rest true).ws isspace platform.wsSentry).extractWord isspace =
      (s, some theRest))
    (hend : (s.ws isspace platform.wsSentry).eofbit = true) :
    ∃ gap trail : Spaces, rest = gap.chars ++ (theRest ++ trail.chars) := by
  have hne : rest ≠ [] := by
    rintro rfl
    have hnil : ∀ c ∈ ([] : List Char), isspace c = true := fun _ h => by cases h
    rw [Istream.ws_after platform.wsSentry true hnil] at heof
    exact heof rfl
  rw [Istream.after_of_ne_nil hne, Istream.ws_eq] at hword
  have hdrop : rest.dropWhile isspace ≠ [] := by
    intro hempty
    rw [Istream.after_of_ne_nil hne, Istream.ws_eq, hempty] at heof
    exact heof rfl
  rw [Istream.after_of_ne_nil hdrop] at hword
  obtain ⟨lead, trail, hlead, hcs, rfl⟩ := Istream.of_extractWord hword
  have hspace : ∀ c ∈ trail, isspace c = true :=
    (Istream.ws_eofbit_iff platform.wsSentry rfl List.isEmpty_iff.1).1 hend
  have hgap : ∀ c ∈ rest.takeWhile isspace ++ lead, isspace c = true := fun c hc =>
    (List.mem_append.1 hc).elim List.mem_takeWhile_imp (hlead c)
  refine ⟨⟨_, hgap⟩, ⟨trail, hspace⟩, ?_⟩
  dsimp only
  rw [List.append_assoc, ← hcs, List.takeWhile_append_dropWhile]

theorem of_stringToNumber {text : List Char} {v : ℚ}
    (h : stringToNumber platform format text = some v) :
    ∃ x : NumberTime, x.Grammar format ∧ x.text = text := by
  rw [stringToNumber] at h
  split at h
  · cases h
  · rename_i s n hn
    obtain ⟨lead, rest, hlead, -, hcs, hformat, hcomplete, -, -, rfl⟩ :=
      Istream.of_extract (show (Istream.live text true).extract isspace format _ = _ from hn)
    simp only at h
    split at h
    · cases h
    · rename_i hfail
      split at h
      · rename_i heof
        have hspace : ∀ c ∈ rest, isspace c = true :=
          (Istream.ws_eofbit_iff platform.wsSentry rfl List.isEmpty_iff.1).1 heof
        refine ⟨⟨⟨lead, hlead⟩, n, ⟨rest, hspace⟩, none, ⟨[], fun _ h => by cases h⟩⟩,
          ⟨hformat, hcomplete, fun h => by cases h⟩, ?_⟩
        rw [hcs]
        simp [NumberTime.text]
      · rename_i heof
        split at h
        · cases h
        · rename_i s theRest hword
          split at h
          · cases h
          · split at h
            · cases h
            · rename_i hend
              obtain ⟨u, rfl, hms⟩ := of_applySuffix hformat h
              obtain ⟨gap, trail, rfl⟩ := of_word heof hword (by simpa using hend)
              refine ⟨⟨⟨lead, hlead⟩, n, gap, some u, trail⟩,
                ⟨hformat, hcomplete, fun hu => hms (Option.some.inj hu)⟩, ?_⟩
              rw [hcs]
              simp [NumberTime.text]

end Apf
