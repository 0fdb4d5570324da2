import Ssr.Apf.Proof.Cascade
import Ssr.Apf.Proof.Interpolation
import Ssr.Lib.Traverse
import Ssr.Renderer.NfcHoaMode
import Ssr.Renderer.Proof.HoaCoefficients

/-!
# The filters and the gains of NFC-HOA over several blocks

The coefficients that belong to a block are computed from the distance and the model of the source.
Within a block the filter of a mode goes along a line from the coefficients of the block before to
these, sample by sample, also where `_process` takes the shorter way because nothing has changed
(`Mode.run_filter`). The two gains of a mode do the same (`accumulator_gain`).
-/

set_option autoImplicit false

namespace Ssr.NfcHoaRenderer

open Apf CombineChannels Lib

variable {T : Type} [Scalar T] {n : ℕ}

/-! ## One block -/

/-- The line from one set of coefficients to another. -/
def rampSections (b : ℕ) (first last : List (SosCoefficients T)) (i : ℕ) :
    List (SosCoefficients T) :=
  first.zipWith (fun c d => ⟨ramp b c.b0 d.b0 i, ramp b c.b1 d.b1 i, ramp b c.b2 d.b2 i,
    ramp b c.a1 d.a1 i, ramp b c.a2 d.a2 i⟩) last

section
variable {old new : List (SosCoefficients T)}

theorem interpolate_eq (b : ℕ) (old new : List (SosCoefficients T)) (i : ℕ) :
    old.zipWith (Mode.interpolate (i : T) (b : T)) new = rampSections b old new i := by
  unfold rampSections Mode.interpolate
  congr 1
  funext c d
  simp only [SosCoefficients.add, SosCoefficients.sub, SosCoefficients.mul, SosCoefficients.div,
    ramp, SosCoefficients.mk.injEq]
  refine ⟨?_, ?_, ?_, ?_, ?_⟩ <;> ring

theorem length_rampSections (h : old.length = new.length) (b i : ℕ) :
    (rampSections b old new i).length = new.length := by
  simp [rampSections, h]

theorem rampSections_zero (h : old.length = new.length) (b : ℕ) :
    rampSections b old new 0 = old := by
  simp only [rampSections, ramp_zero]
  exact List.ext_getElem (by simp [h]) fun i _ _ => by simp

theorem rampSections_end [CharZero T] {b : ℕ} (hb : 0 < b) (h : old.length = new.length) :
    rampSections b old new b = new := by
  simp only [rampSections, ramp_end hb]
  exact List.ext_getElem (by simp [h]) fun i _ _ => by simp

end

/-- What happens to the filter while it works off samples, the first of which has the number `k`. -/
def sampleOperations (b : ℕ) (old new : List (SosCoefficients T)) :
    ℕ → List T → List (Cascade.Operation T)
  | _, [] => []
  | k, x :: xs => .set (rampSections b old new k) :: .sample x :: sampleOperations b old new (k + 1) xs

/-- **The loop over the samples** sets the coefficients for the next sample; `run` sets them before
the sample. -/
theorem filterSamples_eq {b : ℕ} {old new : List (SosCoefficients T)} (h : old.length = new.length)
    {cascade : Cascade T T} (hlength : cascade.length = new.length) (k : ℕ) (xs : List T) :
    ∃ cascade' ys, Cascade.run Mode.denormals cascade (sampleOperations b old new k xs) =
        some (cascade', ys) ∧ cascade'.length = new.length ∧
      Mode.filterSamples old new (b : T) (cascade.set (rampSections b old new k)) ((k + 1 : ℕ) : T) xs =
        some (cascade'.set (rampSections b old new (k + xs.length)), ys) := by
  induction xs generalizing cascade k with
  | nil => exact ⟨cascade, [], rfl, hlength, rfl⟩
  | cons x xs ih =>
    have hfits : ∀ (c : Cascade T T) (i : ℕ), c.length = new.length →
        c.fits (rampSections b old new i) = true := fun c i hc =>
      Cascade.fits_iff.2 (hc.trans (length_rampSections h b i).symm)
    have hset := Cascade.length_set (hfits cascade k hlength)
    have hcall := (Cascade.length_call Mode.denormals (cascade.set (rampSections b old new k)) x).trans
      (hset.trans hlength)
    obtain ⟨cascade', ys, hrun, hlength', hsamples⟩ := ih hcall (k + 1)
    refine ⟨cascade', ((cascade.set (rampSections b old new k)).call Mode.denormals x).2 :: ys, ?_,
      hlength', ?_⟩
    · simp only [sampleOperations, Cascade.run, hfits cascade k hlength, if_true, hrun,
        Option.map_some]
    · have hindex : k + 1 + xs.length = k + (x :: xs).length := by
        simp only [List.length_cons]
        omega
      have hnext : ((k + 1 : ℕ) : T) + 1 = ((k + 1 + 1 : ℕ) : T) := (Nat.cast_succ (k + 1)).symm
      rw [hindex] at hsamples
      rw [Mode.filterSamples, interpolate_eq]
      dsimp only
      rw [if_pos (hfits _ (k + 1) hcall), hnext, hsamples]
      rfl

/-- A whole block: the filter goes from the coefficients `old` to `new`, and every cascade that is the
filter once it gets the coefficients `old` gives the same samples. -/
theorem filterBlock_eq [CharZero T] {b : ℕ} (hb : 0 < b) {old new : List (SosCoefficients T)}
    (h : old.length = new.length) {filter : Cascade T T} (hlength : filter.length = new.length)
    (hcurrent : filter.map (·.coefficients) = old) {xs : List T} (hxs : xs.length = b) :
    ∃ filter' ys, Mode.filterSamples old new (b : T) filter 1 xs = some (filter', ys) ∧
      filter'.length = new.length ∧ filter'.map (·.coefficients) = new ∧
      ∀ cascade : Cascade T T, cascade.length = new.length → cascade.set old = filter →
        ∃ cascade', Cascade.run Mode.denormals cascade (sampleOperations b old new 0 xs) =
          some (cascade', ys) ∧ cascade'.length = new.length ∧ cascade'.set new = filter' := by
  have hloop := fun (cascade : Cascade T T) (hc : cascade.length = new.length) =>
    filterSamples_eq (b := b) h hc 0 xs
  simp only [rampSections_zero h, hxs, Nat.zero_add, rampSections_end hb h, Nat.cast_one] at hloop
  obtain ⟨cascade, ys, -, hcascade, hfilter⟩ := hloop filter hlength
  rw [Cascade.set_self hcurrent] at hfilter
  have hfits : cascade.fits new = true := Cascade.fits_iff.2 hcascade
  refine ⟨cascade.set new, ys, hfilter, (Cascade.length_set hfits).trans hcascade,
    Cascade.map_set hfits, fun cascade₀ hc hset => ?_⟩
  obtain ⟨cascade', ys', hrun, hcascade', hfilter'⟩ := hloop cascade₀ hc
  rw [hset, hfilter] at hfilter'
  obtain ⟨hset', rfl⟩ := Prod.mk.inj (Option.some.inj hfilter')
  exact ⟨cascade', hrun, hcascade', hset'.symm⟩

/-- If the coefficients do not change, the filter can work off the whole block. -/
theorem execute_eq {b : ℕ} {s : List (SosCoefficients T)} {filter : Cascade T T}
    (h : filter.map (·.coefficients) = s) (index : T) (xs : List T) :
    Mode.filterSamples s s (b : T) filter index xs = some (filter.execute Mode.denormals xs) := by
  induction xs generalizing filter index with
  | nil => rfl
  | cons x xs ih =>
    have hline : s.zipWith (Mode.interpolate index (b : T)) s = s := by
      have hconst : ∀ c : SosCoefficients T, Mode.interpolate index (b : T) c c = c := by
        intro c
        simp [Mode.interpolate, SosCoefficients.add, SosCoefficients.sub, SosCoefficients.mul,
          SosCoefficients.div]
      rw [List.zipWith_self]
      simp [hconst]
    have hcall := (Cascade.map_call Mode.denormals filter x).trans h
    have hfits : (filter.call Mode.denormals x).1.fits s = true := by
      rw [Cascade.fits_iff, ← hcall, List.length_map]
    rw [Mode.filterSamples, hline]
    dsimp only
    rw [if_pos hfits, Cascade.set_self hcall, ih hcall]
    rfl

/-! ## Several blocks -/

variable [LinearOrder T] [CMath T]

/-- What the environment of a source is in each block. -/
structure History (T : Type) (n : ℕ) where
  states : ℕ → RenderState T
  masterVolumeCorrection : T
  data : ℕ → SourceData T
  samples : ℕ → Samples n T

variable (h : History T n)

/-- The source after `t` blocks. -/
def sourceAt : ℕ → Source T n
  | 0 => .new { data := h.data 0, weightingFactor := .new 0, samples := h.samples 0 }
  | t + 1 =>
    let source := sourceAt t
    Source.process (h.states t) { source with
      base := source.base.process (h.states t) h.masterVolumeCorrection (h.data t) (h.samples t) }

/-- A block of a source: every parameter is assigned once. -/
theorem sourceAt_succ (t : ℕ) :
    (sourceAt h (t + 1)).base.samples = h.samples t ∧
    (sourceAt h (t + 1)).base.weightingFactor.old = (sourceAt h t).base.weightingFactor.current ∧
    (sourceAt h (t + 1)).distance.old = (sourceAt h t).distance.current ∧
    (sourceAt h (t + 1)).angle.old = (sourceAt h t).angle.current ∧
    (sourceAt h (t + 1)).sourceModel.old = (sourceAt h t).sourceModel.current ∧
    (∃ angle, (sourceAt h (t + 1)).angle.current = some angle) ∧
    ∃ model, (sourceAt h (t + 1)).sourceModel.current = some model := by
  have hold : ∀ (state : RenderState T) (c : T) (data : SourceData T) (w : BlockParameter T),
      (RenderSource.gains state c data w).old = w.current := by
    intro state c data w
    unfold RenderSource.gains
    split
    · rfl
    · rfl
  rw [sourceAt]
  simp only [Source.process, RenderSource.process]
  split
  · exact ⟨rfl, hold .., rfl, rfl, rfl, ⟨_, rfl⟩, ⟨_, rfl⟩⟩
  · exact ⟨rfl, hold .., rfl, rfl, rfl, ⟨_, rfl⟩, ⟨_, rfl⟩⟩

variable (table : List (T × T)) (arrayRadius : T) (mode : Mode T n)

/-- The mode after `t` blocks. -/
def modeAt : ℕ → Option (Mode T n)
  | 0 => some mode
  | t + 1 => (modeAt t).bind (Mode.process table arrayRadius (sourceAt h (t + 1)))

/-- The coefficients that belong to the block `t`, for the `distance` and the model of the source in
this block; all are zero before the first one. -/
def sectionsAt : ℕ → List (SosCoefficients T)
  | 0 => mode.coefficients.sections
  | t + 1 =>
    let source := sourceAt h (t + 1)
    ((source.sourceModel.current.bind (mode.coefficients.reset table
      (max source.distance.current arrayRadius))).map HoaCoefficients.sections).getD []

/-- A mode before its first block, whose rows are in the table. -/
structure Mode.Fresh : Prop where
  coefficients : mode.oldCoefficients = mode.coefficients
  rows : mode.coefficients.coeffsBegin + mode.coefficients.sections.length ≤ table.length
  filter : mode.filter.length = mode.coefficients.sections.length
  zero : mode.filter.map (·.coefficients) = mode.coefficients.sections
  rotation : mode.rotation1 = 0 ∧ mode.rotation2 = 0

/-- The state of the filter after `t` blocks. -/
structure Mode.Filtered (t : ℕ) (m : Mode T n) : Prop where
  coefficients : m.coefficients =
    { mode.coefficients with sections := sectionsAt h table arrayRadius mode t }
  oldCoefficients : ∃ old : List (SosCoefficients T),
    m.oldCoefficients = { mode.coefficients with sections := old } ∧
      old.length = mode.coefficients.sections.length
  length : (sectionsAt h table arrayRadius mode t).length = mode.coefficients.sections.length
  filter : m.filter.length = mode.coefficients.sections.length
  current : m.filter.map (·.coefficients) = sectionsAt h table arrayRadius mode t

variable {h table arrayRadius mode}

/-- The new coefficients do not depend on the old ones. -/
theorem reset_place {c : HoaCoefficients T} {s : List (SosCoefficients T)}
    (hlength : s.length = c.sections.length) (distance : T) (model : SourceType) :
    HoaCoefficients.reset table { c with sections := s } distance model =
      c.reset table distance model := by
  simp only [HoaCoefficients.reset, hlength]
  rfl

/-- The coefficients of a block. -/
theorem reset_sectionsAt (arrayRadius : T) (hrows : mode.coefficients.coeffsBegin +
    mode.coefficients.sections.length ≤ table.length) (t : ℕ) {model : SourceType}
    (hmodel : (sourceAt h (t + 1)).sourceModel.current = some model) :
    mode.coefficients.reset table (max (sourceAt h (t + 1)).distance.current arrayRadius) model =
        some { mode.coefficients with sections := sectionsAt h table arrayRadius mode (t + 1) } ∧
      (sectionsAt h table arrayRadius mode (t + 1)).length = mode.coefficients.sections.length := by
  have hsome : (mode.coefficients.reset table
      (max (sourceAt h (t + 1)).distance.current arrayRadius) model).isSome :=
    HoaCoefficients.reset_isSome_iff.2 (.inr hrows)
  obtain ⟨c, hc⟩ := Option.isSome_iff_exists.1 hsome
  have hsections : sectionsAt h table arrayRadius mode (t + 1) = c.sections := by
    rw [sectionsAt, hmodel, Option.bind_some, hc]
    rfl
  rw [hc, hsections]
  refine ⟨?_, (HoaCoefficients.reset_place hc).2⟩
  rw [HoaCoefficients.reset, Option.map_eq_some_iff] at hc
  obtain ⟨rows, -, rfl⟩ := hc
  rfl

/-- Where nothing has changed, the coefficients are those of the block before. -/
theorem sectionsAt_unchanged (table : List (T × T)) (arrayRadius : T) (mode : Mode T n) {t : ℕ}
    (hdistance : (sourceAt h (t + 1)).distance.changed = false)
    (hmodel : (sourceAt h (t + 1)).sourceModel.changed = false) :
    sectionsAt h table arrayRadius mode (t + 1) = sectionsAt h table arrayRadius mode t := by
  obtain ⟨-, -, holdDistance, -, holdModel, -, model, hcurrent⟩ := sourceAt_succ h t
  have hdistance : (sourceAt h (t + 1)).distance.current = (sourceAt h t).distance.current := by
    simpa [BlockParameter.changed, holdDistance] using hdistance
  have hmodel : (sourceAt h (t + 1)).sourceModel.current = (sourceAt h t).sourceModel.current := by
    simpa [BlockParameter.changed, holdModel] using hmodel
  cases t with
  | zero =>
    rw [hmodel] at hcurrent
    cases hcurrent
  | succ t =>
    rw [sectionsAt, sectionsAt]
    simp only [hdistance, hmodel]

theorem Mode.Fresh.filtered (hfresh : mode.Fresh table) :
    mode.Filtered h table arrayRadius 0 mode where
  coefficients := rfl
  oldCoefficients := ⟨mode.coefficients.sections, hfresh.coefficients, rfl⟩
  length := rfl
  filter := hfresh.filter
  current := hfresh.zero

/-- **The filter in one block.** -/
theorem Mode.processFilter_filtered [CharZero T] (hn : 0 < n) (hfresh : mode.Fresh table) {t : ℕ}
    {m : Mode T n} (hm : mode.Filtered h table arrayRadius t m) :
    ∃ filter buffer coefficients oldCoefficients,
      m.processFilter table arrayRadius (sourceAt h (t + 1)) =
        some { m with filter, buffer, coefficients, oldCoefficients } ∧
      mode.Filtered h table arrayRadius (t + 1)
        { m with filter, buffer, coefficients, oldCoefficients } ∧
      ∀ cascade : Cascade T T, cascade.length = mode.coefficients.sections.length →
        cascade.set (sectionsAt h table arrayRadius mode t) = m.filter →
        ∃ cascade', Cascade.run denormals cascade
            (sampleOperations n (sectionsAt h table arrayRadius mode t)
              (sectionsAt h table arrayRadius mode (t + 1)) 0 (List.ofFn (h.samples t))) =
            some (cascade', buffer) ∧
          cascade'.length = mode.coefficients.sections.length ∧
          cascade'.set (sectionsAt h table arrayRadius mode (t + 1)) = filter := by
  obtain ⟨hsamples, -, -, -, -, -, model, hmodel⟩ := sourceAt_succ h t
  obtain ⟨hreset, hlengthNext⟩ :=
    reset_sectionsAt arrayRadius hfresh.rows t hmodel
  have hlength : (sectionsAt h table arrayRadius mode t).length =
      (sectionsAt h table arrayRadius mode (t + 1)).length := hm.length.trans hlengthNext.symm
  obtain ⟨filter, buffer, hfilter, hfilterLength, hcurrent, hrun⟩ := filterBlock_eq hn hlength
    (hm.filter.trans hlengthNext.symm) hm.current (List.length_ofFn (f := h.samples t))
  rw [hlengthNext] at hfilterLength hrun
  by_cases hchanged : (!(sourceAt h (t + 1)).distance.changed &&
      !(sourceAt h (t + 1)).sourceModel.changed) = true
  · obtain ⟨hdistance, hsourceModel⟩ := Bool.and_eq_true_iff.1 hchanged
    have hsame := sectionsAt_unchanged table arrayRadius mode (by simpa using hdistance)
      (by simpa using hsourceModel)
    rw [hsame, execute_eq hm.current] at hfilter
    refine ⟨filter, buffer, m.coefficients, m.oldCoefficients, ?_,
      ⟨?_, hm.oldCoefficients, hlengthNext, hfilterLength, hcurrent⟩, hrun⟩
    · rw [Mode.processFilter, if_pos hchanged, hsamples, Option.some.inj hfilter]
    · rw [hsame]
      exact hm.coefficients
  · obtain ⟨old, hold, holdLength⟩ := hm.oldCoefficients
    have hnew : HoaCoefficients.reset table
        { m.coefficients with sections := m.oldCoefficients.sections }
        (max (sourceAt h (t + 1)).distance.current arrayRadius) model =
        some { mode.coefficients with
          sections := sectionsAt h table arrayRadius mode (t + 1) } := by
      rw [hm.coefficients, hold, ← hreset]
      exact reset_place holdLength _ _
    refine ⟨filter, buffer,
      { mode.coefficients with sections := sectionsAt h table arrayRadius mode (t + 1) },
      { mode.coefficients with sections := sectionsAt h table arrayRadius mode t }, ?_,
      ⟨rfl, ⟨_, rfl, hm.length⟩, hlengthNext, hfilterLength, hcurrent⟩, hrun⟩
    have holdSections : { m.oldCoefficients with sections := m.coefficients.sections } =
        { mode.coefficients with sections := sectionsAt h table arrayRadius mode t } := by
      rw [hm.coefficients, hold]
    have hsections : m.coefficients.sections = sectionsAt h table arrayRadius mode t := by
      rw [hm.coefficients]
    rw [hsections] at holdSections
    rw [Mode.processFilter, if_neg hchanged, hmodel, hsamples]
    simp only [Option.bind_eq_bind, Option.bind_some, hsections, hnew, holdSections, hfilter]
    rfl

/-! ## Rotations -/

variable (h mode)

/-- The rotations that belong to the block `t`. -/
def rotationsAt : ℕ → T × T
  | 0 => (0, 0)
  | t + 1 =>
    let angle := (sourceAt h (t + 1)).angle.current.getD 0
    (CMath.cos (-(mode.modeNumber : T) * angle), CMath.sin ((mode.modeNumber : T) * angle))

/-- The two gains of a mode at the beginning of the block `t`: a rotation and the weight. -/
def gainsAt (t : ℕ) : T × T :=
  ((rotationsAt h mode t).1 * (sourceAt h t).base.weightingFactor.current,
    (rotationsAt h mode t).2 * (sourceAt h t).base.weightingFactor.current)

variable {h mode}

theorem rotationsAt_unchanged (mode : Mode T n) {t : ℕ}
    (hangle : (sourceAt h (t + 1)).angle.changed = false) :
    rotationsAt h mode (t + 1) = rotationsAt h mode t := by
  obtain ⟨-, -, -, hold, -, ⟨angle, hcurrent⟩, -⟩ := sourceAt_succ h t
  have hsame : (sourceAt h (t + 1)).angle.current = (sourceAt h t).angle.current := by
    simpa [BlockParameter.changed, hold] using hangle
  cases t with
  | zero =>
    rw [hsame] at hcurrent
    cases hcurrent
  | succ t => rw [rotationsAt, rotationsAt, hsame]

/-- The state of a mode after `t` blocks. -/
structure Mode.Holds (h : History T n) (table : List (T × T)) (arrayRadius : T) (mode : Mode T n)
    (t : ℕ) (m : Mode T n) : Prop where
  filtered : mode.Filtered h table arrayRadius t m
  number : m.modeNumber = mode.modeNumber
  rotations : (m.rotation1, m.rotation2) = rotationsAt h mode t

/-- **A mode in one block.** -/
theorem Mode.Holds.process [CharZero T] (hn : 0 < n) (hfresh : mode.Fresh table) {t : ℕ} {m : Mode T n}
    (hm : mode.Holds h table arrayRadius t m) :
    ∃ m', m.process table arrayRadius (sourceAt h (t + 1)) = some m' ∧
      mode.Holds h table arrayRadius (t + 1) m' ∧
      (m'.oldRotation1, m'.oldRotation2) = rotationsAt h mode t ∧
      m'.interpolationMode = selectInterpolation (sourceAt h (t + 1)) ∧
      ∀ cascade : Cascade T T, cascade.length = mode.coefficients.sections.length →
        cascade.set (sectionsAt h table arrayRadius mode t) = m.filter →
        ∃ cascade', Cascade.run denormals cascade
            (sampleOperations n (sectionsAt h table arrayRadius mode t)
              (sectionsAt h table arrayRadius mode (t + 1)) 0 (List.ofFn (h.samples t))) =
            some (cascade', m'.buffer) ∧
          cascade'.length = mode.coefficients.sections.length ∧
          cascade'.set (sectionsAt h table arrayRadius mode (t + 1)) = m'.filter := by
  obtain ⟨filter, buffer, coefficients, oldCoefficients, hprocess, hfiltered, hrun⟩ :=
    processFilter_filtered hn hfresh hm.filtered
  obtain ⟨-, -, -, -, -, ⟨angle, hangle⟩, -⟩ := sourceAt_succ h t
  obtain ⟨rotation1, rotation2, hrotate, hrotations⟩ : ∃ rotation1 rotation2,
      ({ m with filter, buffer, coefficients, oldCoefficients } : Mode T n).rotate
          (sourceAt h (t + 1)) = some { m with
            filter, buffer, coefficients, oldCoefficients, rotation1, rotation2
            oldRotation1 := m.rotation1, oldRotation2 := m.rotation2 } ∧
        (rotation1, rotation2) = rotationsAt h mode (t + 1) := by
    cases hchanged : (sourceAt h (t + 1)).angle.changed with
    | false =>
      refine ⟨m.rotation1, m.rotation2, ?_, ?_⟩
      · simp [Mode.rotate, hchanged]
      · rw [rotationsAt_unchanged mode hchanged]
        exact hm.rotations
    | true =>
      refine ⟨CMath.cos (-(mode.modeNumber : T) * angle), CMath.sin ((mode.modeNumber : T) * angle),
        ?_, ?_⟩
      · simp [Mode.rotate, hchanged, hangle, hm.number]
      · rw [rotationsAt, hangle]
        rfl
  let m' : Mode T n := { m with
    filter, buffer, coefficients, oldCoefficients, rotation1, rotation2
    oldRotation1 := m.rotation1, oldRotation2 := m.rotation2
    interpolationMode := selectInterpolation (sourceAt h (t + 1)) }
  refine ⟨m', ?_, ⟨?_, hm.number, hrotations⟩, hm.rotations, rfl, hrun⟩
  · rw [Mode.process, hprocess, Option.bind_eq_bind, Option.bind_some, hrotate, Option.bind_some]
    rfl
  · exact ⟨hfiltered.coefficients, hfiltered.oldCoefficients, hfiltered.length, hfiltered.filter,
      hfiltered.current⟩

theorem modeAt_holds [CharZero T] (h : History T n) (arrayRadius : T) (hn : 0 < n)
    (hfresh : mode.Fresh table) (t : ℕ) :
    ∃ m, modeAt h table arrayRadius mode t = some m ∧ mode.Holds h table arrayRadius t m := by
  induction t with
  | zero =>
    refine ⟨mode, rfl, hfresh.filtered, rfl, ?_⟩
    rw [hfresh.rotation.1, hfresh.rotation.2]
    rfl
  | succ t ih =>
    obtain ⟨m, hm, hholds⟩ := ih
    obtain ⟨m', hm', hholds', -⟩ := hholds.process hn hfresh
    exact ⟨m', by rw [modeAt, hm, Option.bind_some, hm'], hholds'⟩

/-! ## The filter over several blocks -/

/-- What happens to the filter in the first `t` blocks. -/
def operations (h : History T n) (table : List (T × T)) (arrayRadius : T) (mode : Mode T n) (t : ℕ) :
    List (Cascade.Operation T) :=
  (List.range t).flatMap fun k => sampleOperations n (sectionsAt h table arrayRadius mode k)
    (sectionsAt h table arrayRadius mode (k + 1)) 0 (List.ofFn (h.samples k))

/-- The samples of the first `t` blocks of a mode. -/
def outputs (h : History T n) (table : List (T × T)) (arrayRadius : T) (mode : Mode T n) (t : ℕ) :
    List T :=
  (List.range t).flatMap fun k => ((modeAt h table arrayRadius mode (k + 1)).map Mode.buffer).getD []

theorem run_operations [CharZero T] (h : History T n) (arrayRadius : T) (hn : 0 < n)
    (hfresh : mode.Fresh table) (t : ℕ) :
    ∃ cascade m, Cascade.run Mode.denormals mode.filter (operations h table arrayRadius mode t) =
        some (cascade, outputs h table arrayRadius mode t) ∧
      cascade.length = mode.coefficients.sections.length ∧
      modeAt h table arrayRadius mode t = some m ∧
      cascade.set (sectionsAt h table arrayRadius mode t) = m.filter := by
  induction t with
  | zero => exact ⟨mode.filter, mode, rfl, hfresh.filter, rfl, Cascade.set_self hfresh.zero⟩
  | succ t ih =>
    obtain ⟨cascade, m, hrun, hlength, hm, hset⟩ := ih
    obtain ⟨m₁, hm₁, hholds⟩ := modeAt_holds h arrayRadius hn hfresh t
    obtain rfl : m = m₁ := Option.some.inj (hm.symm.trans hm₁)
    obtain ⟨m', hm', -, -, -, hstep⟩ := hholds.process hn hfresh
    obtain ⟨cascade', hrun', hlength', hset'⟩ := hstep cascade hlength hset
    have hnext : modeAt h table arrayRadius mode (t + 1) = some m' := by
      rw [modeAt, hm, Option.bind_some, hm']
    refine ⟨cascade', m', ?_, hlength', hnext, hset'⟩
    rw [operations, List.range_succ, List.flatMap_append, List.flatMap_singleton,
      Cascade.run_append, ← operations, hrun, Option.bind_some, hrun', Option.map_some, outputs,
      outputs, List.range_succ, List.flatMap_append, List.flatMap_singleton, hnext]
    rfl

omit [LinearOrder T] [CMath T] in
/-- A new mode. -/
theorem Mode.new_fresh {maxSize modeNumber sampleRate : ℕ} {radius speedOfSound : T}
    (hnumber : modeNumber < 2 ^ 32) (htable : table.length = laplaceCoeffsRows)
    (hnew : Mode.new maxSize modeNumber sampleRate radius speedOfSound = .ok mode) :
    mode.Fresh table := by
  unfold Mode.new at hnew
  cases hc : HoaCoefficients.new maxSize modeNumber sampleRate radius speedOfSound with
  | error e =>
    rw [hc] at hnew
    cases hnew
  | ok c =>
    rw [hc] at hnew
    obtain rfl := (Except.ok.inj hnew).symm
    obtain ⟨-, hfirst, hbegin, hlength⟩ := HoaCoefficients.new_ok hc
    have hrows := HoaCoefficients.rows_inside hnumber hfirst
    have hsections : c.sections =
        List.replicate (HoaCoefficients.numSections modeNumber) ⟨0, 0, 0, 0, 0⟩ := by
      unfold HoaCoefficients.new at hc
      split at hc
      · cases hc
      split at hc
      · cases hc
      · cases hc
        rfl
    refine ⟨rfl, ?_, ?_, ?_, rfl, rfl⟩
    · rw [hbegin, hlength, htable]
      exact hrows
    · rw [hlength]
      exact List.length_replicate ..
    · rw [hsections]
      exact List.map_replicate ..

/-- **The filter of a mode** goes along lines from the coefficients of one block to those of the next,
sample by sample, whatever the source does; every block has a result. -/
theorem Mode.run_filter [CharZero T] (hn : 0 < n) {maxSize modeNumber sampleRate : ℕ}
    {radius speedOfSound : T} (hnumber : modeNumber < 2 ^ 32)
    (htable : table.length = laplaceCoeffsRows)
    (hnew : Mode.new maxSize modeNumber sampleRate radius speedOfSound = .ok mode)
    (h : History T n) (arrayRadius : T) (t : ℕ) :
    (∀ k, (modeAt h table arrayRadius mode k).isSome) ∧
      (Cascade.run Mode.denormals mode.filter (operations h table arrayRadius mode t)).map Prod.snd =
        some (outputs h table arrayRadius mode t) := by
  have hfresh := Mode.new_fresh hnumber htable hnew
  refine ⟨fun k => ?_, ?_⟩
  · obtain ⟨m, hm, -⟩ := modeAt_holds h arrayRadius hn hfresh k
    rw [hm]
    rfl
  · obtain ⟨cascade, m, hrun, -⟩ := run_operations h arrayRadius hn hfresh t
    rw [hrun]
    rfl

/-- A source that goes away from the reference and around it, and becomes a plane wave on the way. -/
noncomputable def moving : History ℝ 4 :=
  { states := fun _ => .new, masterVolumeCorrection := 1
    data := fun t => { SourceData.new with
      position := ⟨(t + 3 : ℕ), t⟩, model := if t = 2 then .plane else .point }
    samples := fun t i => t + (i : ℕ) }

theorem new_order_zero : ∃ mode : Mode ℝ 4, Mode.new 1 0 44100 2 343 = .ok mode := by
  obtain ⟨c, hc⟩ := HoaCoefficients.new_total
    (show HoaCoefficients.numSections 0 ≤ 1 by decide) (by decide) 44100 (2 : ℝ) 343
  unfold Mode.new
  rw [hc]
  exact ⟨_, rfl⟩

theorem Mode.run_filter_moving : ∃ mode : Mode ℝ 4, Mode.new 1 0 44100 2 343 = .ok mode ∧
    (∀ k, (modeAt moving (List.replicate laplaceCoeffsRows (1, 1)) 2 mode k).isSome) ∧
    (Cascade.run Mode.denormals mode.filter
      (operations moving (List.replicate laplaceCoeffsRows (1, 1)) 2 mode 3)).map Prod.snd =
      some (outputs moving (List.replicate laplaceCoeffsRows (1, 1)) 2 mode 3) := by
  obtain ⟨mode, hmode⟩ := new_order_zero
  exact ⟨mode, hmode, run_filter (by decide) (by decide) (List.length_replicate ..) hmode moving 2 3⟩

/-! ## Mode accumulators -/

/-- A sample of a mode in the block `t`. -/
def sampleOf (h : History T n) (table : List (T × T)) (arrayRadius : T) (mode : Mode T n) (t : ℕ)
    (i : Fin n) : T :=
  (((modeAt h table arrayRadius mode (t + 1)).map Mode.buffer).getD []).getD i 0

/-- The sum of the modes of several sources in the block `t`. -/
def accumulatorAt (table : List (T × T)) (arrayRadius : T) (mode : Mode T n)
    (sources : List (History T n)) (outputChannels : Target n (T × T)) (t : ℕ) :
    Option (Samples n (T × T)) := do
  let items ← sources.mapM fun h =>
    (modeAt h table arrayRadius mode (t + 1)).map fun mode => ⟨sourceAt h (t + 1), mode⟩
  let (outputChannels, _) ← processAccumulator items outputChannels
  return outputChannels.buffer

/-- The signal that an accumulator takes from a mode, between the gains of two blocks. -/
def modeSignal (item : Item T n) (i : Fin n) : T × T :=
  let x := item.mode.buffer.getD i 0
  let w := item.source.base.weightingFactor
  (x * ramp n (item.mode.oldRotation1 * w.old) (item.mode.rotation1 * w.current) i,
    x * ramp n (item.mode.oldRotation2 * w.old) (item.mode.rotation2 * w.current) i)

omit [CMath T] in
/-- **One mode**: the selection is right if the rotations change only together with the angle. -/
theorem selects (item : Item T n)
    (hmode : item.mode.interpolationMode = Mode.selectInterpolation item.source)
    (hrotations : item.source.angle.changed = false →
      item.mode.oldRotation1 = item.mode.rotation1 ∧ item.mode.oldRotation2 = item.mode.rotation2) :
    Selects renderFunction (fun item i => item.mode.buffer.getD i 0) id modeSignal item := by
  intro f
  refine ⟨rfl, ?_⟩
  have hselection : ((renderFunction (n := n)).select f item).2.2 = item.mode.interpolationMode := rfl
  rw [hselection, hmode]
  unfold Mode.selectInterpolation at hmode ⊢
  split at hmode
  · rename_i hboth
    rw [if_pos hboth]
    rw [BlockParameter.bothEq, Bool.and_eq_true, decide_eq_true_eq, decide_eq_true_eq] at hboth
    funext i
    simp [modeSignal, hboth.1, hboth.2]
  rename_i hboth
  split at hmode
  · rename_i hchange
    rw [if_neg hboth, if_pos hchange]
    funext i
    simp only [renderFunction, select, hmode]
    rfl
  · rename_i hchange
    rw [if_neg hboth, if_neg hchange]
    simp only [Bool.or_eq_true, not_or, Bool.not_eq_true] at hchange
    obtain ⟨hold1, hold2⟩ := hrotations hchange.1.1.2
    have hweight : item.source.base.weightingFactor.current =
        item.source.base.weightingFactor.old := by
      simpa [BlockParameter.changed] using hchange.1.1.1
    funext i
    simp only [renderFunction, select, hmode]
    simp [modeSignal, hold1, hold2, ← hweight]

/-- The modes of all sources with the same number, in the block `t`. -/
def itemsAt (table : List (T × T)) (arrayRadius : T) (mode : Mode T n) (sources : List (History T n))
    (t : ℕ) : Option (List (Item T n)) :=
  sources.mapM fun h =>
    (modeAt h table arrayRadius mode (t + 1)).map fun mode => ⟨sourceAt h (t + 1), mode⟩

/-- What an accumulator puts out of these modes, whatever has been in its channels. -/
theorem processAccumulator_items [CharZero T] (hn : 0 < n) {maxSize modeNumber sampleRate : ℕ}
    {radius speedOfSound : T} (hnumber : modeNumber < 2 ^ 32)
    (htable : table.length = laplaceCoeffsRows)
    (hnew : Mode.new maxSize modeNumber sampleRate radius speedOfSound = .ok mode)
    (sources : List (History T n)) (arrayRadius : T) (t : ℕ) :
    ∃ items, itemsAt table arrayRadius mode sources t = some items ∧
      ∀ outputChannels, ∃ r, processAccumulator items outputChannels = some r ∧
        r.1.buffer = fun i => (sources.map fun h =>
          (sampleOf h table arrayRadius mode t i *
              rampSignal n (fun t => (gainsAt h mode t).1) (t * n + i),
            sampleOf h table arrayRadius mode t i *
              rampSignal n (fun t => (gainsAt h mode t).2) (t * n + i))).sum := by
  have hfresh := Mode.new_fresh hnumber htable hnew
  -- the items of the block
  have hitem : ∀ h : History T n, ∃ item : Item T n,
      (modeAt h table arrayRadius mode (t + 1)).map (fun mode => ⟨sourceAt h (t + 1), mode⟩) =
        some item ∧
      Selects renderFunction (fun item i => item.mode.buffer.getD i 0) id modeSignal item ∧
      modeSignal item = fun i => (sampleOf h table arrayRadius mode t i *
            rampSignal n (fun t => (gainsAt h mode t).1) (t * n + i),
          sampleOf h table arrayRadius mode t i *
            rampSignal n (fun t => (gainsAt h mode t).2) (t * n + i)) := by
    intro h
    obtain ⟨m, hm, hholds⟩ := modeAt_holds h arrayRadius hn hfresh t
    obtain ⟨m', hm', hholds', hold, hmode, -⟩ := hholds.process hn hfresh
    have hnext : modeAt h table arrayRadius mode (t + 1) = some m' := by
      rw [modeAt, hm, Option.bind_some, hm']
    obtain ⟨-, hweight, -⟩ := sourceAt_succ h t
    have hold1 := congrArg Prod.fst hold
    have hold2 := congrArg Prod.snd hold
    have hnew1 := congrArg Prod.fst hholds'.rotations
    have hnew2 := congrArg Prod.snd hholds'.rotations
    refine ⟨⟨sourceAt h (t + 1), m'⟩, by rw [hnext, Option.map_some], selects _ hmode ?_, ?_⟩
    · intro hangle
      have hsame := rotationsAt_unchanged mode hangle
      exact ⟨hold1.trans ((congrArg Prod.fst hsame).symm.trans hnew1.symm),
        hold2.trans ((congrArg Prod.snd hsame).symm.trans hnew2.symm)⟩
    · funext i
      simp only [modeSignal, sampleOf, hnext, Option.map_some, Option.getD_some,
        rampSignal_block i.isLt, gainsAt]
      rw [show m'.oldRotation1 = _ from hold1, show m'.oldRotation2 = _ from hold2,
        show m'.rotation1 = _ from hnew1, show m'.rotation2 = _ from hnew2, hweight]
  choose item hmap hselects hsignal using hitem
  refine ⟨sources.map item, mapM_eq fun h _ => hmap h, fun outputChannels => ?_⟩
  have hall : ∀ x ∈ sources.map item,
      Selects renderFunction (fun item i => item.mode.buffer.getD i 0) id modeSignal x := by
    simpa using fun h _ => hselects h
  obtain ⟨out, hout, hbuffer⟩ := interpolation_eq hall RenderFunction.new outputChannels
  refine ⟨_, hout, ?_⟩
  simp only [hbuffer, List.map_map, Function.comp_def, hsignal]

/-- **The gains of the modes**: what a mode accumulator puts out of each source is the filtered signal
times two gain signals, which go along lines between the rotations of successive blocks, times the
weights. -/
theorem accumulator_gain [CharZero T] (hn : 0 < n) {maxSize modeNumber sampleRate : ℕ}
    {radius speedOfSound : T} (hnumber : modeNumber < 2 ^ 32)
    (htable : table.length = laplaceCoeffsRows)
    (hnew : Mode.new maxSize modeNumber sampleRate radius speedOfSound = .ok mode)
    (sources : List (History T n)) (arrayRadius : T) (outputChannels : Target n (T × T)) (t : ℕ) :
    accumulatorAt table arrayRadius mode sources outputChannels t = some fun i =>
      (sources.map fun h =>
        (sampleOf h table arrayRadius mode t i *
            rampSignal n (fun t => (gainsAt h mode t).1) (t * n + i),
          sampleOf h table arrayRadius mode t i *
            rampSignal n (fun t => (gainsAt h mode t).2) (t * n + i))).sum := by
  obtain ⟨items, hitems, hprocess⟩ := processAccumulator_items hn hnumber htable hnew sources
    arrayRadius t
  obtain ⟨r, hr, hbuffer⟩ := hprocess outputChannels
  rw [← hbuffer]
  rw [itemsAt] at hitems
  rw [accumulatorAt, hitems, Option.bind_eq_bind, Option.bind_some, hr]
  rfl

theorem accumulator_gain_moving : ∃ mode : Mode ℝ 4, Mode.new 1 0 44100 2 343 = .ok mode ∧
    accumulatorAt (List.replicate laplaceCoeffsRows (1, 1)) 2 mode [moving, moving]
      { buffer := fun _ => (5, 7), accumulate := true } 3 = some fun i =>
      ([moving, moving].map fun h =>
        (sampleOf h (List.replicate laplaceCoeffsRows (1, 1)) 2 mode 3 i *
            rampSignal 4 (fun t => (gainsAt h mode t).1) (3 * 4 + i),
          sampleOf h (List.replicate laplaceCoeffsRows (1, 1)) 2 mode 3 i *
            rampSignal 4 (fun t => (gainsAt h mode t).2) (3 * 4 + i))).sum := by
  obtain ⟨mode, hmode⟩ := new_order_zero
  exact ⟨mode, hmode, accumulator_gain (by decide) (by decide) (List.length_replicate ..) hmode
    [moving, moving] 2 _ 3⟩

end Ssr.NfcHoaRenderer
