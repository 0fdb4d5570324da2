import Ssr.Apf.FixedMatrix
import Ssr.Lib.RowMajor
import Mathlib.Data.Finset.Card
import Mathlib.Data.Finset.Prod
import Mathlib.Tactic.Ring

/-!
# The two views of a matrix

As long as the number of elements is a `size_t`, a matrix of `C` channels and `S` slices has the
`Shape` in which the element `s` of the channel `c` is at `c * S + s`, in both views; the rest is
arithmetic of rows in a flat list. `set_channels` overwrites the rows one after the other
(`setChannelsFrom_eq`). `law_iff` is about all dimensions: a product that wraps leaves fewer elements
than the views refer to (`Views.length_le`).
-/

set_option autoImplicit false

namespace Apf.FixedMatrix

open Lib (traverse traverse_eq)
open Lib.RowMajor (rows grid)

variable {T : Type} {limits : VectorLimits} {C S : ℕ} {m : FixedMatrix T}

/-! ## Construction -/

section
variable [Inhabited T]

theorem collectPtrs_ok (n : ℕ) (iter step : ℤ) (size size' : ℕ) :
    ∃ ptrs, collectPtrs n ⟨⟨iter, step⟩, size⟩ ⟨⟨iter + n * step, step⟩, size'⟩ = .ok ptrs := by
  induction n generalizing iter with
  | zero =>
    refine ⟨[], ?_⟩
    rw [collectPtrs, if_pos (by simp [ChannelsIterator.same])]
  | succ n ih =>
    rw [collectPtrs]
    split
    · exact ⟨_, rfl⟩
    · obtain ⟨ptrs, hptrs⟩ := ih (iter + step)
      rw [show iter + step + n * step = iter + (n + 1 : ℕ) * step by push_cast; ring] at hptrs
      exact ⟨_, by simp only [ChannelsIterator.next, StrideIterator.next, hptrs]; rfl⟩

/-- What a matrix is after `initialize`. -/
theorem init_ok {m₀ : FixedMatrix T} (h : m₀.init limits C S = .ok m) :
    mul64 C S ≤ limits.elements ∧ C ≤ limits.pointers ∧ m.data.length = mul64 C S ∧
      m.channels = makeChannels C S ∧ m.slices = makeSlices C S := by
  unfold init at h
  split at h
  · cases h
  · split at h
    · cases h
    · dsimp only at h
      split at h
      · cases h
      · split at h
        · cases h
        · cases hptrs : collectPtrs C (makeChannels C S).begin (makeChannels C S).past with
          | error e =>
            rw [hptrs] at h
            cases h
          | ok ptrs =>
            rw [hptrs] at h
            cases h
            exact ⟨by omega, by omega, List.length_replicate, rfl, rfl⟩

/-- `initialize` throws only for lack of room. -/
theorem init_raw (hsize : mul64 C S ≤ limits.elements) (hpointers : C ≤ limits.pointers) :
    ∃ m : FixedMatrix T, raw.init limits C S = .ok m := by
  have hC : toDifference C = C := toDifference_eq (by omega) (by have := limits.pointers_lt; omega)
  obtain ⟨ptrs, hptrs⟩ := collectPtrs_ok C 0 (toDifference S) S S
  unfold init
  rw [if_neg (by simp [raw]), if_neg (by omega)]
  dsimp only
  rw [if_neg (by simp [raw]), if_neg (by omega)]
  simp only [makeChannels, ChannelsIterator.new, ChannelsIterator.add, StrideIterator.new,
    StrideIterator.add, hC, hptrs]
  exact ⟨_, rfl⟩

/-- A matrix that has been initialized, whatever its elements are now. -/
def IsMatrix (limits : VectorLimits) (C S : ℕ) (m : FixedMatrix T) : Prop :=
  ∃ m₀ m₁ : FixedMatrix T, m₀.init limits C S = .ok m₁ ∧ m.data.length = m₁.data.length ∧
    m.channels = m₁.channels ∧ m.slices = m₁.slices

/-- The constructor calls `initialize` twice. -/
theorem isMatrix_of_new (h : new limits C S = .ok m) : IsMatrix limits C S m := by
  unfold new at h
  cases hempty : (raw : FixedMatrix T).init limits 0 0 with
  | error e =>
    rw [hempty] at h
    cases h
  | ok m₀ =>
    rw [hempty] at h
    exact ⟨m₀, m, h, rfl, rfl, rfl⟩

end

/-- A matrix of `C` channels and `S` slices. -/
structure Shape (C S : ℕ) (m : FixedMatrix T) : Prop where
  length : m.data.length = C * S
  channels : m.channels = ⟨⟨⟨0, S⟩, S⟩, ⟨⟨C * S, S⟩, S⟩⟩
  slices : m.slices = ⟨⟨0, C, S⟩, ⟨S, C, S⟩⟩
  channels_pos : 1 ≤ C
  slices_pos : 1 ≤ S
  channels_diff : toDifference C = C
  slices_diff : toDifference S = S

theorem IsMatrix.shape [Inhabited T] (h : IsMatrix limits C S m) (hC : 1 ≤ C) (hS : 1 ≤ S)
    (hsize : C * S < word) : Shape C S m := by
  obtain ⟨m₀, m₁, hinit, hlength, hchannels, hslices⟩ := h
  obtain ⟨helements, -, hlength', hchannels', hslices'⟩ := init_ok hinit
  have hmul : mul64 C S = C * S := Nat.mod_eq_of_lt hsize
  have hlt := limits.elements_lt
  have hle : C ≤ C * S := Nat.le_mul_of_pos_right C hS
  have hle' : S ≤ C * S := Nat.le_mul_of_pos_left S hC
  have hdiff : toDifference C = C := toDifference_eq (by omega) (by omega)
  have hdiff' : toDifference S = S := toDifference_eq (by omega) (by omega)
  refine ⟨by rw [hlength, hlength', hmul], ?_, ?_, hC, hS, hdiff, hdiff'⟩
  · simp [hchannels, hchannels', makeChannels, ChannelsIterator.new, ChannelsIterator.add,
      StrideIterator.new, StrideIterator.add, hdiff, hdiff']
  · simp [hslices, hslices', makeSlices, SlicesIterator.add, hdiff']

/-! ## The views -/

theorem channelElement_eq (h : Shape C S m) (c s : ℕ) : m.channelElement c s = (c * S + s : ℕ) := by
  simp [channelElement, h.channels, ChannelsIterator.add, ChannelsIterator.deref,
    StrideIterator.add]

theorem sliceElement_eq (h : Shape C S m) (s c : ℕ) : m.sliceElement s c = (c * S + s : ℕ) := by
  simp [sliceElement, h.slices, SlicesIterator.add, SlicesIterator.deref, StrideIterator.new,
    StrideIterator.subscript, h.slices_diff, Int.add_comm]

theorem traverse_pointers (first : ℤ) {n fuel : ℕ} (hfuel : n < fuel) :
    traverse (· + 1) (· == ·) fuel first (first + n) =
      some ((List.range n).map fun i : ℕ => first + i) := by
  refine traverse_eq (fun i : ℕ => first + i) (Int.add_zero first) (fun i _ => ?_) (fun i _ => ?_)
    hfuel
  · exact Int.add_assoc first i 1
  · simp

theorem traverse_stride (it : StrideIterator) (hstep : 0 < it.step) {n fuel : ℕ}
    (hfuel : n < fuel) : traverse StrideIterator.next (· == ·) fuel it (it.add n) =
      some ((List.range n).map fun i : ℕ => it.add i) := by
  refine traverse_eq (fun i : ℕ => it.add i) ?_ (fun i _ => ?_) (fun i _ => ?_) hfuel
  · simp [StrideIterator.add]
  · simp [StrideIterator.add, StrideIterator.next, Int.add_mul, Int.add_assoc]
  · simp [StrideIterator.add, hstep.ne']

theorem traverse_channels (h : Shape C S m) {fuel : ℕ} (hC : C < fuel) :
    traverse ChannelsIterator.next ChannelsIterator.same fuel m.channels.begin m.channels.past =
      some ((List.range C).map fun c : ℕ => m.channels.begin.add c) := by
  have hpos := h.slices_pos
  have hend : m.channels.past = m.channels.begin.add C := by
    simp [h.channels, ChannelsIterator.add, StrideIterator.add]
  rw [hend]
  refine traverse_eq (fun c : ℕ => m.channels.begin.add c) ?_ (fun c _ => ?_) (fun c _ => ?_) hC
  · simp [ChannelsIterator.add, StrideIterator.add]
  · simp [ChannelsIterator.add, ChannelsIterator.next, StrideIterator.add, StrideIterator.next,
      Int.add_mul, Int.add_assoc]
  · simp [ChannelsIterator.same, ChannelsIterator.add, StrideIterator.add, h.channels]
    omega

theorem traverse_slices (h : Shape C S m) {fuel : ℕ} (hS : S < fuel) :
    traverse SlicesIterator.next SlicesIterator.same fuel m.slices.begin m.slices.past =
      some ((List.range S).map fun s : ℕ => m.slices.begin.add s) := by
  have hend : m.slices.past = m.slices.begin.add S := by
    simp [h.slices, SlicesIterator.add]
  rw [hend]
  refine traverse_eq (fun s : ℕ => m.slices.begin.add s) ?_ (fun s _ => ?_) (fun s _ => ?_) hS
  · simp [SlicesIterator.add]
  · simp [SlicesIterator.add, SlicesIterator.next, Int.add_assoc]
  · simp [SlicesIterator.same, SlicesIterator.add]

/-- The loop over the channels and their elements. -/
theorem channelElements_eq (h : Shape C S m) {fuel : ℕ} (hC : C < fuel) (hS : S < fuel) :
    m.channelElements fuel = some (rows C S fun c s => m.channelElement c s) := by
  rw [channelElements, traverse_channels h hC, Option.bind_eq_bind, Option.bind_some,
    List.mapM_map]
  refine Lib.mapM_eq fun c _ => ?_
  have hpast : (m.channels.begin.add c).deref.past = (m.channels.begin.add c).deref.begin + S := by
    simp [h.channels, ChannelsIterator.add, ChannelsIterator.deref]
  rw [Function.comp_apply, hpast]
  exact traverse_pointers _ hS

/-- The loop over the slices and their elements. -/
theorem sliceElements_eq (h : Shape C S m) {fuel : ℕ} (hC : C < fuel) (hS : S < fuel) :
    m.sliceElements fuel = some (rows S C fun s c => m.sliceElement s c) := by
  have hpos := h.slices_pos
  rw [sliceElements, traverse_slices h hS, Option.bind_eq_bind, Option.bind_some, List.mapM_map]
  refine Lib.mapM_eq fun s _ => ?_
  have hpast : (m.slices.begin.add s).deref.past = (m.slices.begin.add s).deref.begin.add C := by
    simp [h.slices, SlicesIterator.add, SlicesIterator.deref, h.channels_diff]
  have hstep : 0 < (m.slices.begin.add s).deref.begin.step := by
    simp [h.slices, SlicesIterator.add, SlicesIterator.deref, StrideIterator.new, h.slices_diff]
    omega
  rw [Function.comp_apply, hpast, traverse_stride _ hstep hC, Option.map_some, List.map_map]
  rfl

/-! ## Every element once -/

/-- The loops over the views end and go through the elements that the subscripts refer to, the views
refer to the same elements, and each of them refers to every element once. -/
structure Views (C S : ℕ) (m : FixedMatrix T) : Prop where
  channels : ∃ fuel, m.channelElements fuel = some (rows C S fun c s => m.channelElement c s)
  slices : ∃ fuel, m.sliceElements fuel = some (rows S C fun s c => m.sliceElement s c)
  same : ∀ c < C, ∀ s < S, m.channelElement c s = m.sliceElement s c
  inside : ∀ c < C, ∀ s < S, 0 ≤ m.channelElement c s ∧ m.channelElement c s < m.data.length
  channel_unique : ∀ k < m.data.length,
    ∃! p : ℕ × ℕ, (p.1 < C ∧ p.2 < S) ∧ m.channelElement p.1 p.2 = k
  slice_unique : ∀ k < m.data.length,
    ∃! p : ℕ × ℕ, (p.1 < C ∧ p.2 < S) ∧ m.sliceElement p.2 p.1 = k

theorem Shape.views (h : Shape C S m) : Views C S m := by
  have hfuel : C < C + S + 1 := by omega
  have hfuel' : S < C + S + 1 := by omega
  have hunique : ∀ k < m.data.length,
      ∃! p : ℕ × ℕ, (p.1 < C ∧ p.2 < S) ∧ p.1 * S + p.2 = k := by
    intro k hk
    rw [h.length] at hk
    exact Lib.RowMajor.existsUnique_index hk
  refine ⟨⟨_, channelElements_eq h hfuel hfuel'⟩, ⟨_, sliceElements_eq h hfuel hfuel'⟩,
    ?_, ?_, ?_, ?_⟩
  · intro c _ s _
    rw [channelElement_eq h, sliceElement_eq h]
  · intro c hc s hs
    have hlt := Lib.RowMajor.index_lt hc hs
    rw [channelElement_eq h, h.length]
    omega
  · simpa only [channelElement_eq h, Int.natCast_inj] using hunique
  · simpa only [sliceElement_eq h, Int.natCast_inj] using hunique

/-- The views refer to that many different elements. -/
theorem Views.length_le (h : Views C S m) : C * S ≤ m.data.length := by
  have hcard : (Finset.range C ×ˢ Finset.range S).card ≤ (Finset.range m.data.length).card := by
    refine Finset.card_le_card_of_injOn (fun p => (m.channelElement p.1 p.2).toNat) ?_ ?_
    · intro p hp
      simp only [Finset.coe_product, Set.mem_prod, Finset.coe_range, Set.mem_Iio] at hp ⊢
      have := h.inside p.1 hp.1 p.2 hp.2
      omega
    · intro p hp q hq hpq
      simp only [Finset.coe_product, Set.mem_prod, Finset.coe_range, Set.mem_Iio] at hp hq hpq
      have hp' := h.inside p.1 hp.1 p.2 hp.2
      have hq' := h.inside q.1 hq.1 q.2 hq.2
      refine (h.channel_unique (m.channelElement q.1 q.2).toNat (by omega)).unique ⟨hp, ?_⟩
        ⟨hq, ?_⟩
      · omega
      · omega
  simpa using hcard

/-! ## `set_channels` -/

theorem read_of_nat (m : FixedMatrix T) (k : ℕ) : m.read k = m.data[k]? := by
  rw [read, if_neg (by omega), Int.toNat_natCast]

/-- Copying a row replaces a part of the buffer. -/
theorem copyTo_eq (row : List T) (pre old post : List T) (h : old.length = row.length) :
    copyTo (pre ++ (old ++ post)) pre.length row = some (pre ++ (row ++ post)) := by
  induction row generalizing pre old with
  | nil =>
    rw [List.eq_nil_of_length_eq_zero h]
    rfl
  | cons x row ih =>
    cases old with
    | nil => cases h
    | cons y old =>
      have hset : (pre ++ (y :: old ++ post)).set pre.length x = (pre ++ [x]) ++ (old ++ post) := by
        simp
      have hroom : ¬ ((pre.length : ℤ) < 0 ∨
          (pre ++ (y :: old ++ post)).length ≤ (pre.length : ℤ).toNat) := by
        simp
      rw [copyTo, if_neg hroom, Int.toNat_natCast, hset]
      have hrest := ih (pre ++ [x]) old (by simpa using h)
      rw [List.length_append, List.length_singleton] at hrest
      push_cast at hrest
      rw [hrest]
      simp

/-- The loop of `set_channels` replaces as many rows. -/
theorem setChannelsFrom_eq {n : ℕ} (ch : List (List T)) (hch : ∀ row ∈ ch, row.length = n)
    (pre old post : List T) (h : old.length = ch.flatten.length) :
    setChannelsFrom (pre ++ (old ++ post)) ⟨⟨pre.length, n⟩, n⟩ ch =
      some (pre ++ (ch.flatten ++ post)) := by
  induction ch generalizing pre old with
  | nil =>
    rw [List.eq_nil_of_length_eq_zero h]
    rfl
  | cons row ch ih =>
    obtain ⟨hrow, hch⟩ := List.forall_mem_cons.1 hch
    rw [List.flatten_cons, List.length_append] at h
    obtain ⟨first, rest, rfl, hfirst⟩ : ∃ first rest, old = first ++ rest ∧
        first.length = row.length :=
      ⟨old.take row.length, old.drop row.length, (List.take_append_drop _ _).symm, by
        rw [List.length_take]
        omega⟩
    have hcopy := copyTo_eq row pre first (rest ++ post) hfirst
    have hrest := ih hch (pre ++ row) rest (by rw [List.length_append] at h; omega)
    rw [List.length_append, hrow, List.append_assoc] at hrest
    push_cast at hrest
    rw [setChannelsFrom, List.append_assoc first]
    simp only [ChannelsIterator.deref, ChannelsIterator.next, StrideIterator.next, hcopy,
      Option.bind_some, hrest]
    simp

/-- `set_channels` with rows that fill the matrix. -/
theorem setChannels_eq (h : Shape C S m) {f : ℕ → ℕ → T} :
    m.setChannels (rows C S f) = some { m with data := grid C S f } := by
  have hlength : m.data.length = (grid C S f).length := by
    rw [h.length, Lib.RowMajor.length_grid]
  have hrows : ∀ row ∈ rows C S f, row.length = S := by
    intro row hrow
    obtain ⟨i, -, rfl⟩ := List.mem_map.1 hrow
    simp
  have hloop := setChannelsFrom_eq (rows C S f) hrows [] m.data [] hlength
  rw [List.nil_append, List.append_nil, List.nil_append, List.append_nil] at hloop
  rw [setChannels, h.channels]
  exact congrArg _ hloop

/-- The elements of a matrix. -/
theorem Shape.data_eq [Inhabited T] (h : Shape C S m) : ∃ f, m.data = grid C S f := by
  refine ⟨fun c s => m.data.getD (c * S + s) default, Lib.RowMajor.eq_grid h.length ?_⟩
  intro c hc s hs
  have hlt := Lib.RowMajor.index_lt hc hs
  rw [← h.length] at hlt
  rw [List.getD_eq_getElem?_getD, List.getElem?_eq_getElem hlt]
  rfl

theorem read_element (h : Shape C S m) {f : ℕ → ℕ → T} (hdata : m.data = grid C S f) {c s : ℕ}
    (hc : c < C) (hs : s < S) : m.read (m.channelElement c s) = some (f c s) := by
  rw [channelElement_eq h, read_of_nat, hdata, Lib.RowMajor.grid_getElem? f hc hs]

/-- The values of the slices. -/
theorem readSlices_eq (h : Shape C S m) {f : ℕ → ℕ → T} (hdata : m.data = grid C S f) {fuel : ℕ}
    (hC : C < fuel) (hS : S < fuel) : m.readSlices fuel = some (rows S C fun s c => f c s) := by
  rw [readSlices, sliceElements_eq h hC hS, Option.bind_eq_bind, Option.bind_some, rows,
    List.mapM_map]
  refine Lib.mapM_eq fun s hs => ?_
  rw [Function.comp_apply, List.mapM_map]
  refine Lib.mapM_eq fun c hc => ?_
  have hs := List.mem_range.1 hs
  have hc := List.mem_range.1 hc
  rw [Function.comp_apply, ← h.views.same c hc s hs, read_element h hdata hc hs]

/-- **One round of `set_channels`** with the slices of another matrix. -/
theorem transpose_eq {t : FixedMatrix T} (h : Shape C S m) (ht : Shape S C t) {f : ℕ → ℕ → T}
    (hdata : m.data = grid C S f) : ∃ fuel ch, m.readSlices fuel = some ch ∧
      t.setChannels ch = some { t with data := grid S C fun s c => f c s } :=
  ⟨C + S + 1, _, readSlices_eq h hdata (by omega) (by omega), setChannels_eq ht⟩

theorem Shape.setData (h : Shape C S m) (f : ℕ → ℕ → T) :
    Shape C S { m with data := grid C S f } :=
  { h with length := Lib.RowMajor.length_grid C S f }

variable [Inhabited T]

theorem IsMatrix.setData (h : IsMatrix limits C S m) {data : List T}
    (hlength : data.length = m.data.length) : IsMatrix limits C S { m with data } := by
  obtain ⟨m₀, m₁, hinit, hlength', hchannels, hslices⟩ := h
  exact ⟨m₀, m₁, hinit, hlength.trans hlength', hchannels, hslices⟩

/-- The views of every matrix of these dimensions are consistent, also right after the constructor,
its slices give its transpose to `set_channels`, and the slices of the transpose give back the
original. -/
structure Law (T : Type) [Inhabited T] (limits : VectorLimits) (C S : ℕ) : Prop where
  constructed : ∀ m : FixedMatrix T, new limits C S = .ok m → IsMatrix limits C S m
  views : ∀ m : FixedMatrix T, IsMatrix limits C S m → Views C S m
  transposes : ∀ m t : FixedMatrix T, IsMatrix limits C S m → IsMatrix limits S C t →
    ∃ fuel ch t', m.readSlices fuel = some ch ∧ t.setChannels ch = some t' ∧
      IsMatrix limits S C t' ∧ ∀ c < C, ∀ s < S,
        ∃ x, m.read (m.channelElement c s) = some x ∧ t'.read (t'.channelElement s c) = some x
  restores : ∀ m t u : FixedMatrix T, IsMatrix limits C S m → IsMatrix limits S C t →
    IsMatrix limits C S u → ∃ fuel ch t' ch' u', m.readSlices fuel = some ch ∧
      t.setChannels ch = some t' ∧ t'.readSlices fuel = some ch' ∧ u.setChannels ch' = some u' ∧
        u'.data = m.data ∧ (u = m → u' = m)

theorem law_of_size (hC : 1 ≤ C) (hS : 1 ≤ S) (hsize : C * S < word) : Law T limits C S := by
  have hsize' : S * C < word := by rwa [Nat.mul_comm]
  refine ⟨fun m => isMatrix_of_new, ?_, ?_, ?_⟩
  · intro m hm
    exact (hm.shape hC hS hsize).views
  · intro m t hm ht
    have hshape := hm.shape hC hS hsize
    have hshape' := ht.shape hS hC hsize'
    obtain ⟨f, hdata⟩ := hshape.data_eq
    obtain ⟨fuel, ch, hread, hset⟩ := transpose_eq hshape hshape' hdata
    refine ⟨fuel, ch, _, hread, hset, ht.setData ?_, fun c hc s hs => ⟨f c s, ?_, ?_⟩⟩
    · rw [hshape'.length, Lib.RowMajor.length_grid]
    · exact read_element hshape hdata hc hs
    · exact read_element (hshape'.setData fun s c => f c s) rfl hs hc
  · intro m t u hm ht hu
    have hshape := hm.shape hC hS hsize
    have hshape' := ht.shape hS hC hsize'
    obtain ⟨f, hdata⟩ := hshape.data_eq
    have hback : (grid C S fun c s => f c s) = m.data := hdata.symm
    refine ⟨C + S + 1, _, _, _, _, readSlices_eq hshape hdata (by omega) (by omega),
      setChannels_eq hshape', readSlices_eq (hshape'.setData fun s c => f c s) rfl (by omega)
        (by omega), setChannels_eq (hu.shape hC hS hsize), hback, ?_⟩
    rintro rfl
    rw [hback]

/-- A product that wraps leaves room for fewer elements than there are pairs. -/
theorem not_law (hsize : word ≤ C * S) (helements : mul64 C S ≤ limits.elements)
    (hpointers : C ≤ limits.pointers) : ¬ Law T limits C S := by
  intro h
  obtain ⟨m, hm⟩ := init_raw (T := T) helements hpointers
  have hle := (h.views m ⟨raw, m, hm, rfl, rfl, rfl⟩).length_le
  have hlength := (init_ok hm).2.2.1
  have hlt : mul64 C S < word := Nat.mod_lt _ (by decide)
  omega

/-- **The views of a matrix are consistent** if and only if the number of its elements is a `size_t`,
or if there is no such matrix. -/
theorem law_iff (hC : 1 ≤ C) (hS : 1 ≤ S) : Law T limits C S ↔
    C * S < word ∨ limits.elements < mul64 C S ∨ limits.pointers < C := by
  constructor
  · intro h
    by_contra hnot
    push Not at hnot
    obtain ⟨hsize, helements, hpointers⟩ := hnot
    exact not_law hsize helements hpointers h
  · intro h
    by_cases hsize : C * S < word
    · exact law_of_size hC hS hsize
    · have hnone : ∀ m : FixedMatrix T, ¬ IsMatrix limits C S m := by
        rintro m ⟨m₀, m₁, hinit, -⟩
        obtain ⟨helements, hpointers, -⟩ := init_ok hinit
        omega
      exact ⟨fun m => isMatrix_of_new, fun m hm => absurd hm (hnone m),
        fun m _ hm => absurd hm (hnone m), fun m _ _ hm => absurd hm (hnone m)⟩

/-- Vectors of at most `2 ^ 60` elements. -/
def sampleLimits : VectorLimits :=
  { elements := 2 ^ 60, pointers := 2 ^ 60, elements_lt := by decide, pointers_lt := by decide }

theorem law_two_three : (1 ≤ 2 ∧ 1 ≤ 3) ∧ (Law ℕ sampleLimits 2 3 ↔
    2 * 3 < word ∨ sampleLimits.elements < mul64 2 3 ∨ sampleLimits.pointers < 2) :=
  ⟨by decide, law_iff (by decide) (by decide)⟩

/-- The product of these dimensions is `2 ^ 64 + 2`, so there are two elements. -/
theorem law_wrapped : mul64 3 6148914691236517206 = 2 ∧
    ¬ Law ℕ sampleLimits 3 6148914691236517206 :=
  ⟨by decide, not_law (by decide) (by decide) (by decide)⟩

end Apf.FixedMatrix
