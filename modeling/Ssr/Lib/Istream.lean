import Ssr.Lib.Numeral

/-!
# Input streams

`std::istringstream` with formatted and unformatted input. `space` is what the locale takes for
white space. `std::ws` constructs a sentry since C++11 and so fails on a stream that is already at
its end; older libraries do not (`wsSentry`). An extraction is given with a check of the range of
its type; it has no result if it sets `failbit`.

The lemmas are about streams without error bits (`live`): one operation at a time, for a text that
is given in parts, and backwards from its success.
-/

set_option autoImplicit false

namespace Lib

structure Istream where
  /-- what has not been extracted yet -/
  rest : List Char
  eofbit : Bool
  failbit : Bool
  skipws : Bool
  deriving DecidableEq, Repr

namespace Istream

def new (text : List Char) : Istream :=
  { rest := text, eofbit := false, failbit := false, skipws := true }

def good (s : Istream) : Bool := !s.eofbit && !s.failbit

section
variable (space : Char → Bool)

/-- The constructor of a `sentry` for formatted input, and whether it is ok. -/
def sentry (s : Istream) : Istream × Bool :=
  if s.good then
    if s.skipws then
      let rest := s.rest.dropWhile space
      if rest.isEmpty then ({ s with rest, eofbit := true, failbit := true }, false)
      else ({ s with rest }, true)
    else (s, true)
  else ({ s with failbit := true }, false)

/-- `std::ws` -/
def ws (wsSentry : Bool) (s : Istream) : Istream :=
  if wsSentry && !s.good then { s with failbit := true }
  else
    let rest := s.rest.dropWhile space
    { s with rest, eofbit := s.eofbit || rest.isEmpty }

/-- `>>` for a number. -/
def extract (format : Format) (inRange : Numeral → Bool) (s : Istream) : Istream × Option Numeral :=
  let sentry := s.sentry space
  if sentry.2 then
    let n := scan format sentry.1.rest
    let s := { sentry.1 with rest := n.2, eofbit := n.2.isEmpty }
    if n.1.complete && inRange n.1 then (s, some n.1) else ({ s with failbit := true }, none)
  else (sentry.1, none)

/-- `>>` for a string. -/
def extractWord (s : Istream) : Istream × Option (List Char) :=
  let sentry := s.sentry space
  if sentry.2 then
    let word := sentry.1.rest.takeWhile (!space ·)
    let rest := sentry.1.rest.dropWhile (!space ·)
    let s := { sentry.1 with rest, eofbit := rest.isEmpty }
    if word.isEmpty then ({ s with failbit := true }, none) else (s, some word)
  else (sentry.1, none)

end

def get (s : Istream) : Istream × Option Char :=
  if s.good then
    match s.rest with
    | [] => ({ s with eofbit := true, failbit := true }, none)
    | c :: rest => ({ s with rest }, some c)
  else ({ s with failbit := true }, none)

def peek (s : Istream) : Istream × Option Char :=
  if s.good then
    match s.rest with
    | [] => ({ s with eofbit := true }, none)
    | c :: _ => (s, some c)
  else ({ s with failbit := true }, none)

def ignore (s : Istream) : Istream :=
  if s.good then
    match s.rest with
    | [] => { s with eofbit := true }
    | _ :: rest => { s with rest }
  else { s with failbit := true }

/-- `read` with the characters that it has extracted. -/
def read (s : Istream) (n : ℕ) : Istream × List Char :=
  if s.good then
    if s.rest.length < n then ({ s with rest := [], eofbit := true, failbit := true }, s.rest)
    else ({ s with rest := s.rest.drop n }, s.rest.take n)
  else ({ s with failbit := true }, [])

/-- A stream without error bits. -/
def live (rest : List Char) (skipws : Bool) : Istream :=
  { rest, eofbit := false, failbit := false, skipws }

/-- A stream after an extraction that may have reached the end. -/
def after (rest : List Char) (skipws : Bool) : Istream :=
  { rest, eofbit := rest.isEmpty, failbit := false, skipws }

theorem after_cons (c : Char) (rest : List Char) (skipws : Bool) :
    after (c :: rest) skipws = live (c :: rest) skipws := rfl

theorem after_of_ne_nil {rest : List Char} (h : rest ≠ []) (skipws : Bool) :
    after rest skipws = live rest skipws := by
  cases rest with
  | nil => exact absurd rfl h
  | cons c rest => rfl

/-! ## Characters -/

section
variable {cs rest : List Char} {skipws : Bool} {n : ℕ}

theorem read_live (h : cs.length = n) :
    (live (cs ++ rest) skipws).read n = (live rest skipws, cs) := by
  have hgood : (live (cs ++ rest) skipws).good = true := rfl
  have hlength : ¬ (live (cs ++ rest) skipws).rest.length < n := by
    simp only [live, List.length_append, h]
    exact Nat.not_lt.2 (Nat.le_add_right _ _)
  rw [read, if_pos hgood, if_neg hlength]
  simp only [live, ← h, List.drop_left, List.take_left]

theorem of_read {s : Istream} {ch : List Char} (h : (live cs skipws).read n = (s, ch))
    (hs : s.failbit = false) :
    ∃ rest, ch.length = n ∧ cs = ch ++ rest ∧ s = live rest skipws := by
  have hgood : (live cs skipws).good = true := rfl
  rw [read, if_pos hgood] at h
  split at h
  · cases h
    cases hs
  · rename_i hlength
    cases h
    exact ⟨cs.drop n, List.length_take_of_le (Nat.not_lt.1 hlength),
      (List.take_append_drop n cs).symm, rfl⟩

end

/-! ## White space -/

section
variable {space : Char → Bool} {lead rest : List Char}

theorem dropWhile_of_head (h : ∀ c ∈ rest.head?, space c = false) :
    rest.dropWhile space = rest := by
  cases rest with
  | nil => rfl
  | cons c rest => exact List.dropWhile_cons_of_neg (by simp [h c rfl])

theorem dropWhile_lead (hlead : ∀ c ∈ lead, space c = true)
    (h : ∀ c ∈ rest.head?, space c = false) : (lead ++ rest).dropWhile space = rest := by
  rw [List.dropWhile_append_of_pos hlead, dropWhile_of_head h]

theorem ws_eq (wsSentry skipws : Bool) (cs : List Char) :
    (live cs skipws).ws space wsSentry = after (cs.dropWhile space) skipws := by
  have hgood : (live cs skipws).good = true := rfl
  rw [ws, hgood, Bool.not_true, Bool.and_false, if_neg Bool.false_ne_true]
  simp only [live, after, Bool.false_or]

theorem ws_live (wsSentry skipws : Bool) (hlead : ∀ c ∈ lead, space c = true)
    (h : ∀ c ∈ rest.head?, space c = false) :
    (live (lead ++ rest) skipws).ws space wsSentry = after rest skipws := by
  rw [ws_eq, dropWhile_lead hlead h]

/-- Only white space is left. -/
theorem ws_eofbit_iff (wsSentry : Bool) {s : Istream} (hfail : s.failbit = false)
    (heof : s.eofbit = true → s.rest = []) :
    (s.ws space wsSentry).eofbit = true ↔ ∀ c ∈ s.rest, space c = true := by
  rw [ws]
  split
  · rename_i hgood
    have heofbit : s.eofbit = true := by
      simp only [good, hfail, Bool.not_false, Bool.and_true, Bool.not_not, Bool.and_eq_true] at hgood
      exact hgood.2
    rw [heof heofbit]
    exact ⟨fun _ _ hc => (List.not_mem_nil hc).elim, fun _ => heofbit⟩
  · simp only [Bool.or_eq_true, List.isEmpty_iff, List.dropWhile_eq_nil_iff]
    refine ⟨fun h => h.elim (fun he c hc => ?_) id, .inr⟩
    rw [heof he] at hc
    cases hc

theorem ws_after (wsSentry skipws : Bool) {cs : List Char} (hcs : ∀ c ∈ cs, space c = true) :
    (after cs skipws).ws space wsSentry =
      { after [] skipws with failbit := wsSentry && cs.isEmpty } := by
  cases cs with
  | nil => cases wsSentry <;> rfl
  | cons c cs =>
    rw [after_cons, ws_eq, List.dropWhile_eq_nil_iff.2 hcs]
    cases wsSentry <;> rfl

theorem sentry_eq (space : Char → Bool) (cs : List Char) :
    (live cs true).sentry space =
      if (cs.dropWhile space).isEmpty then
        ({ rest := cs.dropWhile space, eofbit := true, failbit := true, skipws := true }, false)
      else (live (cs.dropWhile space) true, true) := rfl

theorem sentry_live (hlead : ∀ c ∈ lead, space c = true) (h : ∀ c ∈ rest.head?, space c = false)
    (hrest : rest ≠ []) : (live (lead ++ rest) true).sentry space = (live rest true, true) := by
  have hempty : rest.isEmpty = false := List.isEmpty_eq_false_iff.2 hrest
  rw [sentry_eq, dropWhile_lead hlead h, hempty, if_neg Bool.false_ne_true]

/-- After the sentry. -/
theorem of_sentry {cs : List Char} {skipws : Bool} {s : Istream}
    (h : (live cs skipws).sentry space = (s, true)) :
    ∃ lead rest, (∀ c ∈ lead, space c = true) ∧ (skipws = false → lead = []) ∧ cs = lead ++ rest ∧
      s = live rest skipws := by
  cases skipws with
  | false =>
    cases h
    exact ⟨[], cs, (fun c hc => by cases hc), fun _ => rfl, rfl, rfl⟩
  | true =>
    rw [sentry_eq] at h
    split at h
    · cases h
    · cases h
      refine ⟨cs.takeWhile space, cs.dropWhile space, fun c hc => List.mem_takeWhile_imp hc,
        (fun h => by cases h), List.takeWhile_append_dropWhile.symm, rfl⟩

/-! ## Numbers -/

variable {format : Format} {inRange : Numeral → Bool} {n : Numeral}

theorem extract_live (hlead : ∀ c ∈ lead, space c = true) (skipws : Bool)
    (hskip : skipws = false → lead = []) (hformat : n.HasFormat format) (hn : n.complete = true)
    (hspace : ∀ c ∈ (n.text ++ rest).head?, space c = false) (hne : n.text ++ rest ≠ [])
    (hstop : Stops rest) :
    (live (lead ++ (n.text ++ rest)) skipws).extract space format inRange =
      if inRange n then (after rest skipws, some n)
      else ({ after rest skipws with failbit := true }, none) := by
  have hsentry : (live (lead ++ (n.text ++ rest)) skipws).sentry space =
      (live (n.text ++ rest) skipws, true) := by
    cases skipws with
    | false =>
      rw [hskip rfl]
      rfl
    | true => exact sentry_live hlead hspace hne
  have hscan : scan format (live (n.text ++ rest) skipws).rest = (n, rest) :=
    scan_text hformat hn hstop
  simp only [extract, hsentry, if_true, hscan, hn, Bool.true_and]
  rfl

theorem of_extract {cs : List Char} {skipws : Bool} {s : Istream}
    (h : (live cs skipws).extract space format inRange = (s, some n)) :
    ∃ lead rest, (∀ c ∈ lead, space c = true) ∧ (skipws = false → lead = []) ∧
      cs = lead ++ (n.text ++ rest) ∧ n.HasFormat format ∧ n.complete = true ∧ inRange n = true ∧
      scan format (n.text ++ rest) = (n, rest) ∧ s = after rest skipws := by
  simp only [extract] at h
  split at h
  · rename_i hok
    obtain ⟨lead, rest, hlead, hskip, hcs, hs⟩ := of_sentry (s := ((live cs skipws).sentry space).1)
      (Prod.ext rfl hok)
    split at h
    · rename_i hcheck
      rw [hs] at h hcheck
      obtain ⟨rfl, hn⟩ := Prod.mk.inj h
      cases hn
      have htext := text_scan format rest
      rw [Bool.and_eq_true] at hcheck
      refine ⟨lead, (scan format rest).2, hlead, hskip, by rw [hcs]; exact congrArg _ htext.symm,
        scan_hasFormat format rest, hcheck.1, hcheck.2, ?_, rfl⟩
      change scan format ((scan format rest).1.text ++ (scan format rest).2) = _
      rw [htext]
      rfl
    · cases h
  · cases h

/-! ## Words -/

theorem extractWord_live {word : List Char} (hword : ∀ c ∈ word, space c = false) (hne : word ≠ [])
    (hrest : ∀ c ∈ rest.head?, space c = true) :
    (live (word ++ rest) true).extractWord space = (after rest true, some word) := by
  have hhead : ∀ c ∈ (word ++ rest).head?, space c = false := by
    intro c hc
    rw [List.head?_append, List.head?_eq_some_head hne] at hc
    cases hc
    exact hword _ (List.head_mem hne)
  have hsentry : (live ([] ++ (word ++ rest)) true).sentry space = (live (word ++ rest) true, true) :=
    sentry_live (fun _ h => by cases h) hhead (by simp [hne])
  have hnot : ∀ c ∈ word, (!space c) = true := fun c hc => by simp [hword c hc]
  have hstop : rest.takeWhile (!space ·) = [] ∧ rest.dropWhile (!space ·) = rest := by
    cases rest with
    | nil => exact ⟨rfl, rfl⟩
    | cons c rest =>
      have hc := hrest c rfl
      exact ⟨List.takeWhile_cons_of_neg (by simp [hc]), List.dropWhile_cons_of_neg (by simp [hc])⟩
  have hempty : word.isEmpty = false := List.isEmpty_eq_false_iff.2 hne
  rw [List.nil_append] at hsentry
  simp only [extractWord, hsentry, if_true]
  simp only [live, List.takeWhile_append_of_pos hnot, List.dropWhile_append_of_pos hnot, hstop.1,
    hstop.2, List.append_nil, hempty, Bool.false_eq_true, if_false]
  rfl

theorem of_extractWord {cs word : List Char} {s : Istream}
    (h : (live cs true).extractWord space = (s, some word)) :
    ∃ lead rest, (∀ c ∈ lead, space c = true) ∧ cs = lead ++ (word ++ rest) ∧
      s = after rest true := by
  simp only [extractWord] at h
  split at h
  · rename_i hok
    obtain ⟨lead, rest, hlead, -, hcs, hs⟩ := of_sentry (s := ((live cs true).sentry space).1)
      (Prod.ext rfl hok)
    rw [hs] at h
    split at h
    · cases h
    · cases h
      exact ⟨lead, rest.dropWhile (!space ·), hlead,
        by rw [hcs]; exact congrArg _ List.takeWhile_append_dropWhile.symm, rfl⟩
  · cases h

end

end Istream

end Lib
