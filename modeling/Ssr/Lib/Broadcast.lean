import Ssr.Lib.Run
import Mathlib.Data.List.Infix
import Mathlib.Logic.Function.Basic

/-!
# Several writers and one row of receivers

A writer hands its message to the receivers `0, 1, …, n - 1` in this order, one at a time; the
deliveries of different writers come in any order. A message touches keys, `log` is what a receiver
has got for one of them. While no delivery overtakes an older message for the same key (`InOrder`),
the logs of a key are all prefixes of that of receiver 0, and equal once nothing is on its way
(`Ordered.isPrefix`, `Ordered.log_eq`). The invariant is `Cut`: what receiver `i` has got is what
receiver 0 had got up to some moment, and whatever came later is still on its way to `i`.
-/

set_option autoImplicit false

namespace Lib.Broadcast

variable {τ μ κ : Type}

/-- A message on its way to receiver `next`; `turn` is its place in what receiver 0 has got. -/
structure Sending (μ : Type) where
  message : μ
  next : ℕ
  turn : ℕ
  deriving DecidableEq, Repr

structure State (τ μ : Type) where
  sending : τ → Option (Sending μ)
  received : ℕ → List μ

inductive Event (τ μ : Type)
  | start (t : τ) (message : μ)
  /-- the next delivery, or the end after the last one -/
  | proceed (t : τ)
  deriving DecidableEq, Repr

namespace State

def init : State τ μ := { sending := fun _ => none, received := fun _ => [] }

def Idle (s : State τ μ) : Prop := ∀ t, s.sending t = none

/-- What receiver `i` has got for the key `k`. -/
def log (touches : μ → κ → Bool) (s : State τ μ) (i : ℕ) (k : κ) : List μ :=
  (s.received i).filter (touches · k)

end State

section
variable [DecidableEq τ]

/-- Receiver `p.next` gets the message. -/
def State.deliver (s : State τ μ) (t : τ) (p : Sending μ) (turn : ℕ) : State τ μ :=
  { sending := Function.update s.sending t (some ⟨p.message, p.next + 1, turn⟩)
    received := Function.update s.received p.next (s.received p.next ++ [p.message]) }

def step (n : ℕ) (s : State τ μ) : Event τ μ → Option (State τ μ)
  | .start t message =>
    match s.sending t with
    | some _ => none
    | none => some { s with sending := Function.update s.sending t (some ⟨message, 0, 0⟩) }
  | .proceed t =>
    match s.sending t with
    | none => none
    | some p =>
      if p.next < n then
        some (s.deliver t p (if p.next = 0 then (s.received 0).length else p.turn))
      else some { s with sending := Function.update s.sending t none }

end

/-- `q` has been delivered to receiver 0 before `p`. -/
def Sending.Before (q p : Sending μ) : Prop := 0 < q.next ∧ 0 < p.next ∧ q.turn < p.turn

/-- The event delivers no message to a receiver that an older message for the same key has not
reached yet. -/
def InOrder (touches : μ → κ → Bool) (n : ℕ) (s : State τ μ) : Event τ μ → Prop
  | .start _ _ => True
  | .proceed t => ∀ p, s.sending t = some p → p.next < n →
    ∀ u q k, s.sending u = some q → touches p.message k → touches q.message k →
      q.Before p → p.next < q.next

/-- The first `b` messages of receiver 0 have reached receiver `i`, as far as the key `k` goes, and
the later ones are on their way. -/
structure Cut (touches : μ → κ → Bool) (s : State τ μ) (k : κ) (i b : ℕ) : Prop where
  le : b ≤ (s.received 0).length
  log : s.log touches i k = ((s.received 0).take b).filter (touches · k)
  sent : ∀ t p, s.sending t = some p → touches p.message k → 0 < p.next → p.next ≤ i → b ≤ p.turn
  pending : ∀ j m, b ≤ j → (s.received 0)[j]? = some m → touches m k →
    ∃ t p, s.sending t = some p ∧ 0 < p.next ∧ p.next ≤ i ∧ p.turn = j

structure Ordered (touches : μ → κ → Bool) (n : ℕ) (s : State τ μ) : Prop where
  place : ∀ t p, s.sending t = some p → 0 < p.next →
    (s.received 0)[p.turn]? = some p.message
  distinct : ∀ t u p q, s.sending t = some p → s.sending u = some q → 0 < p.next → 0 < q.next →
    p.turn = q.turn → t = u
  cut : ∀ k i, i < n → ∃ b, Cut touches s k i b

/-! ## One step -/

theorem update_eq_some [DecidableEq τ] {f : τ → Option (Sending μ)} {t u : τ}
    {x : Option (Sending μ)} {q : Sending μ} :
    Function.update f t x u = some q ↔ (u = t ∧ x = some q) ∨ (u ≠ t ∧ f u = some q) := by
  by_cases hu : u = t
  · subst hu
    simp
  · simp [hu]

section
variable [DecidableEq τ] (s : State τ μ) (t : τ) (p : Sending μ) (turn : ℕ)

@[simp] theorem State.deliver_received_next :
    (s.deliver t p turn).received p.next = s.received p.next ++ [p.message] :=
  Function.update_self _ _ _

theorem State.deliver_received {i : ℕ} (hi : i ≠ p.next) :
    (s.deliver t p turn).received i = s.received i := Function.update_of_ne hi _ _

theorem State.deliver_sending {u : τ} {q : Sending μ} :
    (s.deliver t p turn).sending u = some q ↔
      (u = t ∧ q = ⟨p.message, p.next + 1, turn⟩) ∨ (u ≠ t ∧ s.sending u = some q) := by
  rw [State.deliver, update_eq_some, Option.some.injEq, eq_comm (b := q)]

end

/-- A message that no other follows up to its place. -/
theorem filter_take_succ {p : μ → Bool} {l : List μ} {b j : ℕ} {m : μ} (hb : b ≤ j)
    (hm : l[j]? = some m) (hp : p m) (h : ∀ i x, b ≤ i → i < j → l[i]? = some x → ¬ p x) :
    (l.take (j + 1)).filter p = (l.take b).filter p ++ [m] := by
  have hj : j < l.length := (List.getElem?_eq_some_iff.1 hm).1
  have hget : l[j] = m := (List.getElem?_eq_some_iff.1 hm).2
  have hsplit : l.take j = l.take b ++ (l.take j).drop b := by
    have := List.take_append_drop b (l.take j)
    rwa [List.take_take, Nat.min_eq_left hb, eq_comm] at this
  have hnone : ((l.take j).drop b).filter p = [] := by
    rw [List.filter_eq_nil_iff]
    intro x hx
    obtain ⟨i, hi, hxi⟩ := List.mem_iff_getElem.1 hx
    rw [List.length_drop, List.length_take] at hi
    rw [List.getElem_drop, List.getElem_take] at hxi
    exact h (b + i) x (Nat.le_add_right b i) (by omega)
      (List.getElem?_eq_some_iff.2 ⟨by omega, hxi⟩)
  rw [← List.take_append_getElem hj, List.filter_append, hsplit, List.filter_append, hnone,
    List.append_nil, hget]
  simp [hp]

variable {touches : μ → κ → Bool} {n : ℕ} {s s' : State τ μ}

theorem Ordered.init : Ordered touches n (State.init : State τ μ) where
  place _ _ h := by cases h
  distinct _ _ _ _ h := by cases h
  cut _ _ _ := ⟨0, le_refl 0, rfl, fun _ _ h => (by cases h), fun _ _ _ h => (by cases h)⟩

variable [DecidableEq τ]

/-- A writer begins or is through: nothing on its way to the receivers below `n` changes. -/
theorem Ordered.setSending (h : Ordered touches n s) {t : τ} {x : Option (Sending μ)}
    (hold : ∀ p, s.sending t = some p → 0 < p.next → n ≤ p.next)
    (hx : ∀ p, x = some p → p.next = 0) :
    Ordered touches n { s with sending := Function.update s.sending t x } := by
  have hsub : ∀ u q, Function.update s.sending t x u = some q → 0 < q.next →
      s.sending u = some q := by
    intro u q hu hq
    rcases update_eq_some.1 hu with ⟨-, hu⟩ | ⟨-, hu⟩
    · have := hx q hu
      omega
    · exact hu
  refine ⟨fun u q hu hq => h.place u q (hsub u q hu hq) hq,
    fun t u p q ht hu hp hq => h.distinct t u p q (hsub t p ht hp) (hsub u q hu hq) hp hq,
    fun k i hi => ?_⟩
  obtain ⟨b, hcut⟩ := h.cut k i hi
  refine ⟨b, hcut.le, hcut.log,
    fun u q hu hk hq => hcut.sent u q (hsub u q hu hq) hk hq, fun j m hj hm hk => ?_⟩
  obtain ⟨u, q, hu, hq, hqi, hturn⟩ := hcut.pending j m hj hm hk
  refine ⟨u, q, update_eq_some.2 (.inr ⟨?_, hu⟩), hq, hqi, hturn⟩
  rintro rfl
  have := hold q hu hq
  omega

theorem State.deliver_first {t : τ} {p : Sending μ} (hp : p.next = 0) (turn : ℕ) :
    (s.deliver t p turn).received 0 = s.received 0 ++ [p.message] := by
  have := s.deliver_received_next t p turn
  rwa [hp] at this

/-- The first delivery moves no cut of the other receivers. -/
theorem Cut.first {t : τ} {p : Sending μ} {k : κ} {i b : ℕ} (h : Cut touches s k i b)
    (ht : s.sending t = some p) (hp : p.next = 0) (hi : 0 < i) :
    Cut touches (s.deliver t p (s.received 0).length) k i b := by
  have hzero := s.deliver_first (t := t) hp (s.received 0).length
  refine ⟨?_, ?_, fun u q hu hk hq hqi => ?_, fun j m hj hm hk => ?_⟩
  · rw [hzero, List.length_append]
    exact Nat.le_add_right_of_le h.le
  · rw [State.log, s.deliver_received _ _ _ (by omega), hzero, List.take_append_of_le_length h.le]
    exact h.log
  · rcases (s.deliver_sending ..).1 hu with ⟨-, rfl⟩ | ⟨-, hu'⟩
    · exact h.le
    · exact h.sent u q hu' hk hq hqi
  · rw [hzero] at hm
    rcases Nat.lt_or_ge j (s.received 0).length with hj' | hj'
    · rw [List.getElem?_append_left hj'] at hm
      obtain ⟨u, q, hu, hq, hqi, hturn⟩ := h.pending j m hj hm hk
      refine ⟨u, q, (s.deliver_sending ..).2 (.inr ⟨?_, hu⟩), hq, hqi, hturn⟩
      rintro rfl
      rw [ht] at hu
      cases hu
      omega
    · -- the message that has just been delivered
      have hlen := (List.getElem?_eq_some_iff.1 hm).1
      rw [List.length_append, List.length_singleton] at hlen
      refine ⟨t, _, (s.deliver_sending ..).2 (.inl ⟨rfl, rfl⟩), Nat.succ_pos _, ?_, ?_⟩
      · change p.next + 1 ≤ i
        omega
      · change (s.received 0).length = j
        omega

/-- The first delivery: the message comes last in what receiver 0 has got. -/
theorem Ordered.first (h : Ordered touches n s) {t : τ} {p : Sending μ} (ht : s.sending t = some p)
    (hp : p.next = 0) : Ordered touches n (s.deliver t p (s.received 0).length) := by
  have hlt : ∀ u q, s.sending u = some q → 0 < q.next → q.turn < (s.received 0).length :=
    fun u q hu hq => (List.getElem?_eq_some_iff.1 (h.place u q hu hq)).1
  have hzero := s.deliver_first (t := t) hp (s.received 0).length
  refine ⟨fun u q hu hq => ?_, fun u v q r hu hv hq hr he => ?_, fun k i hi => ?_⟩
  · rw [hzero]
    rcases (s.deliver_sending ..).1 hu with ⟨-, rfl⟩ | ⟨-, hu'⟩
    · simp
    · rw [List.getElem?_append_left (hlt u q hu' hq)]
      exact h.place u q hu' hq
  · rcases (s.deliver_sending ..).1 hu with ⟨hut, hqt⟩ | ⟨-, hu'⟩ <;>
      rcases (s.deliver_sending ..).1 hv with ⟨hvt, hrt⟩ | ⟨-, hv'⟩
    · rw [hut, hvt]
    · rw [hqt] at he
      exact absurd he (hlt v r hv' hr).ne'
    · rw [hrt] at he
      exact absurd he (hlt u q hu' hq).ne
    · exact h.distinct u v q r hu' hv' hq hr he
  · rcases Nat.eq_zero_or_pos i with rfl | hpos
    · refine ⟨(s.received 0).length + 1, by simp [hzero], ?_, fun u q _ _ hq hqi => by omega,
        fun j m hj hm => ?_⟩
      · rw [State.log, hzero, List.take_of_length_le (by simp)]
      · have hlen := (List.getElem?_eq_some_iff.1 hm).1
        rw [hzero, List.length_append, List.length_singleton] at hlen
        omega
    · obtain ⟨b, hcut⟩ := h.cut k i hi
      exact ⟨b, hcut.first ht hp hpos⟩

/-- The receiver that gets a message of the key `k`: the cut moves behind this message. -/
theorem Ordered.cut_delivered (h : Ordered touches n s) {t : τ} {p : Sending μ} {k : κ} {b : ℕ}
    (ht : s.sending t = some p) (hp : 0 < p.next) (hk : touches p.message k)
    (horder : ∀ u q, s.sending u = some q → touches q.message k → q.Before p → p.next < q.next)
    (hcut : Cut touches s k p.next b) :
    Cut touches (s.deliver t p p.turn) k p.next (p.turn + 1) := by
  have hb : b ≤ p.turn := hcut.sent t p ht hk hp (le_refl _)
  have hplace := h.place t p ht hp
  have hzero : (s.deliver t p p.turn).received 0 = s.received 0 :=
    s.deliver_received _ _ _ hp.ne
  have hgap : ∀ j m, b ≤ j → j < p.turn → (s.received 0)[j]? = some m → ¬ touches m k := by
    intro j m hj hjt hm hmk
    obtain ⟨u, q, hu, hq, hqi, hturn⟩ := hcut.pending j m hj hm hmk
    have hqm := h.place u q hu hq
    rw [hturn, hm] at hqm
    cases hqm
    have hlt := horder u q hu hmk ⟨hq, hp, hturn ▸ hjt⟩
    omega
  refine ⟨?_, ?_, fun u q hu hqk hq hqi => ?_, fun j m hj hm hmk => ?_⟩
  · rw [hzero]
    exact (List.getElem?_eq_some_iff.1 hplace).1
  · rw [State.log, s.deliver_received_next, hzero, List.filter_append,
      filter_take_succ hb hplace hk hgap, ← hcut.log]
    simp [State.log, hk]
  · rcases (s.deliver_sending ..).1 hu with ⟨-, rfl⟩ | ⟨hut, hu'⟩
    · exact absurd hqi (Nat.not_succ_le_self _)
    · rcases Nat.lt_trichotomy q.turn p.turn with hlt | heq | hgt
      · exact absurd (horder u q hu' hqk ⟨hq, hp, hlt⟩) (Nat.not_lt.2 hqi)
      · exact absurd (h.distinct u t q p hu' ht hq hp heq) hut
      · exact hgt
  · rw [hzero] at hm
    obtain ⟨u, q, hu, hq, hqi, hturn⟩ := hcut.pending j m (by omega) hm hmk
    refine ⟨u, q, (s.deliver_sending ..).2 (.inr ⟨?_, hu⟩), hq, hqi, hturn⟩
    rintro rfl
    rw [ht] at hu
    cases hu
    omega

/-- A later delivery, which overtakes nothing. -/
theorem Ordered.later (h : Ordered touches n s) {t : τ} {p : Sending μ} (ht : s.sending t = some p)
    (hp : 0 < p.next)
    (horder : ∀ u q k, s.sending u = some q → touches p.message k → touches q.message k →
      q.Before p → p.next < q.next) : Ordered touches n (s.deliver t p p.turn) := by
  -- what a writer sends now, it has sent before
  have hold : ∀ u q, (s.deliver t p p.turn).sending u = some q → ∃ q', s.sending u = some q' ∧
      q'.message = q.message ∧ q'.turn = q.turn ∧ (0 < q.next → 0 < q'.next) ∧
      q'.next ≤ q.next ∧ (u = t → q.next = p.next + 1) := by
    intro u q hu
    rcases (s.deliver_sending ..).1 hu with ⟨rfl, rfl⟩ | ⟨hut, hu'⟩
    · exact ⟨p, ht, rfl, rfl, fun _ => hp, Nat.le_succ _, fun _ => rfl⟩
    · exact ⟨q, hu', rfl, rfl, id, le_refl _, fun he => absurd he hut⟩
  have hzero : (s.deliver t p p.turn).received 0 = s.received 0 :=
    s.deliver_received _ _ _ hp.ne
  refine ⟨fun u q hu hq => ?_, fun u v q r hu hv hq hr he => ?_, fun k i hi => ?_⟩
  · obtain ⟨q', hu', hm, hturn, hpos, -⟩ := hold u q hu
    rw [hzero, ← hm, ← hturn]
    exact h.place u q' hu' (hpos hq)
  · obtain ⟨q', hu', -, hqt, hqpos, -⟩ := hold u q hu
    obtain ⟨r', hv', -, hrt, hrpos, -⟩ := hold v r hv
    exact h.distinct u v q' r' hu' hv' (hqpos hq) (hrpos hr) (by rw [hqt, hrt, he])
  · obtain ⟨b, hcut⟩ := h.cut k i hi
    by_cases hip : i = p.next ∧ touches p.message k
    · obtain ⟨rfl, hk⟩ := hip
      exact ⟨p.turn + 1, h.cut_delivered ht hp hk (fun u q hu hkq hqp => horder u q k hu hk hkq hqp)
        hcut⟩
    · refine ⟨b, ?_, ?_, fun u q hu hqk hq hqi => ?_, fun j m hj hm hmk => ?_⟩
      · rw [hzero]
        exact hcut.le
      · rw [hzero, ← hcut.log]
        by_cases hi' : i = p.next
        · have hk : ¬ touches p.message k := fun hk => hip ⟨hi', hk⟩
          subst hi'
          simp [State.log, hk]
        · rw [State.log, s.deliver_received _ _ _ hi', State.log]
      · obtain ⟨q', hu', hm, hturn, hpos, hle, -⟩ := hold u q hu
        rw [← hturn]
        exact hcut.sent u q' hu' (hm ▸ hqk) (hpos hq) (hle.trans hqi)
      · rw [hzero] at hm
        obtain ⟨u, q, hu, hq, hqi, hturn⟩ := hcut.pending j m hj hm hmk
        by_cases hut : u = t
        · subst hut
          rw [ht] at hu
          cases hu
          have hplace := h.place u p ht hp
          rw [hturn, hm] at hplace
          cases hplace
          have hne : i ≠ p.next := fun he => hip ⟨he, hmk⟩
          refine ⟨u, _, (s.deliver_sending ..).2 (.inl ⟨rfl, rfl⟩), Nat.succ_pos _, ?_, hturn⟩
          change p.next + 1 ≤ i
          omega
        · exact ⟨u, q, (s.deliver_sending ..).2 (.inr ⟨hut, hu⟩), hq, hqi, hturn⟩

/-- **One step** that overtakes nothing keeps the order. -/
theorem Ordered.step (h : Ordered touches n s) {e : Event τ μ} (hc : InOrder touches n s e)
    (hs : step n s e = some s') : Ordered touches n s' := by
  cases e with
  | start t m =>
    simp only [Broadcast.step] at hs
    split at hs
    · cases hs
    · rename_i hnone
      cases hs
      exact h.setSending (fun p hp => by rw [hnone] at hp; cases hp) (fun p hp => by cases hp; rfl)
  | proceed t =>
    simp only [Broadcast.step] at hs
    split at hs
    · cases hs
    · rename_i p ht
      split at hs
      · rename_i hn
        cases hs
        by_cases hp : p.next = 0
        · simp only [hp, if_true]
          exact h.first ht hp
        · simp only [hp, if_false]
          exact h.later ht (Nat.pos_of_ne_zero hp) (hc p ht hn)
      · rename_i hn
        cases hs
        refine h.setSending (fun q hq _ => ?_) (fun q hq => by cases hq)
        rw [ht] at hq
        cases hq
        exact Nat.le_of_not_lt hn

/-! ## What the receivers have got -/

omit [DecidableEq τ] in
theorem Ordered.isPrefix (h : Ordered touches n s) {i : ℕ} (hi : i < n) (k : κ) :
    s.log touches i k <+: s.log touches 0 k := by
  obtain ⟨b, hcut⟩ := h.cut k i hi
  rw [hcut.log]
  exact (List.take_prefix b _).filter _

omit [DecidableEq τ] in
/-- Nothing is on its way: all receivers have got the same. -/
theorem Ordered.log_eq (h : Ordered touches n s) (hidle : s.Idle) {i : ℕ} (hi : i < n) (k : κ) :
    s.log touches i k = s.log touches 0 k := by
  obtain ⟨b, hcut⟩ := h.cut k i hi
  have hrest : ((s.received 0).drop b).filter (touches · k) = [] := by
    rw [List.filter_eq_nil_iff]
    intro m hm hk
    obtain ⟨j, hj, hmj⟩ := List.mem_iff_getElem.1 hm
    rw [List.getElem_drop] at hmj
    rw [List.length_drop] at hj
    obtain ⟨t, p, ht, -⟩ := hcut.pending (b + j) m (Nat.le_add_right b j)
      (List.getElem?_eq_some_iff.2 ⟨by omega, hmj⟩) hk
    rw [hidle t] at ht
    cases ht
  conv_rhs => rw [State.log, ← List.take_append_drop b (s.received 0), List.filter_append, hrest,
    List.append_nil]
  exact hcut.log

end Lib.Broadcast
