import Ssr.Apf.FifoThreads

/-!
# The FIFO is a queue for one producer and one consumer

`Consistent size s xs` is the invariant: the ring holds `xs`, the items that have been accepted and
not yet popped, and the local variables of the two threads are old values of the indices
(`ProducerOk`, `ConsumerOk`). Each thread keeps what is said of the other one
(`Consistent.producerStep`, `Consistent.consumerStep`).
-/

set_option autoImplicit false

namespace Apf.FifoThreads

open Lib LockFreeFifo

variable {T : Type}

/-- What `push` knows of the ring `q` with the items `xs`. Its copy of `_read_index` may be old: it
goes with the `saw` items that there were then. -/
def ProducerOk (q : LockFreeFifo T) (xs : List T) (saw : ℕ) : Producer T → Prop
  | .idle | .readRead _ => True
  | .readWrite _ r =>
    r < q.size ∧ saw < q.size ∧ q.writeIndex = (r + saw) % q.size ∧ xs.length ≤ saw
  | .store _ w => xs.length + 1 < q.size ∧ w + 1 < 2 * q.size ∧ w % q.size = q.writeIndex
  | .publish item w =>
    (xs.length + 1 < q.size ∧ w + 1 < 2 * q.size ∧ w % q.size = q.writeIndex) ∧
      q.data[q.writeIndex]? = some (some item)

/-- What `pop` knows. Its copy of `_write_index` may be old: it goes with `saw` items. -/
def ConsumerOk (q : LockFreeFifo T) (xs : List T) (saw : ℕ) : Consumer T → Prop
  | .idle | .emptyFirst _ => True
  | .emptySecond true w => w = (q.readIndex + saw) % q.size ∧ saw ≤ xs.length
  | .emptySecond false r => r = q.readIndex
  | .readIndex => xs ≠ []
  | .readSlot r => r = q.readIndex ∧ xs ≠ []
  | .advance r retval => r = q.readIndex ∧ xs ≠ [] ∧ retval = xs.head?

/-- The invariant, for a ring of `size` slots. -/
structure Consistent (size : ℕ) (s : FifoThreads T) (xs : List T) : Prop where
  holds : Holds s.fifo xs
  size_eq : s.fifo.size = size
  accepted : s.accepted = s.popped ++ xs
  producer : ProducerOk s.fifo xs s.pushSaw s.producer
  consumer : ConsumerOk s.fifo xs s.popSaw s.consumer
  refused : ∀ n ∈ s.refused, n = size - 1
  nulls : ∀ n ∈ s.nulls, n = 0

variable {size : ℕ} {s s' : FifoThreads T} {xs : List T}

theorem Consistent.waiting_eq (h : Consistent size s xs) : s.waiting = xs.length := by
  rw [waiting, h.accepted, List.length_append]
  omega

theorem forall_mem_snoc {p : ℕ → Prop} {ns : List ℕ} {n : ℕ} (h : ∀ m ∈ ns, p m) (hn : p n) :
    ∀ m ∈ ns ++ [n], p m := by
  intro m hm
  rcases List.mem_append.1 hm with hm | hm
  · exact h m hm
  · rw [List.mem_singleton.1 hm]
    exact hn

/-! ## The producer -/

/-- A new item does not disturb `pop`. -/
theorem ConsumerOk.snoc {q : LockFreeFifo T} {saw : ℕ} {c : Consumer T} (h : ConsumerOk q xs saw c)
    (item : T) (w : ℕ) : ConsumerOk { q with writeIndex := w } (xs ++ [item]) saw c := by
  have hne : xs ++ [item] ≠ [] := by simp
  match c, h with
  | .idle, _ | .emptyFirst _, _ => trivial
  | .emptySecond true _, ⟨hw, hsaw⟩ =>
    refine ⟨hw, ?_⟩
    rw [List.length_append]
    omega
  | .emptySecond false _, hr => exact hr
  | .readIndex, _ => exact hne
  | .readSlot _, ⟨hr, _⟩ => exact ⟨hr, hne⟩
  | .advance _ _, ⟨hr, hxs, hret⟩ =>
    refine ⟨hr, hne, ?_⟩
    rw [hret, List.head?_append_of_ne_nil _ hxs]

/-- The indices and the items stay: neither does it notice a write to a slot. -/
theorem ConsumerOk.setSlot {q : LockFreeFifo T} {saw : ℕ} {c : Consumer T} (h : ConsumerOk q xs saw c)
    (data : List (Option T)) : ConsumerOk { q with data } xs saw c := by
  match c, h with
  | .idle, _ | .emptyFirst _, _ => trivial
  | .emptySecond true _, h | .emptySecond false _, h | .readIndex, h | .readSlot _, h
  | .advance _ _, h => exact h

theorem Consistent.producerStep (h : Consistent size s xs) (hs : s.producerStep = some s') :
    ∃ xs', Consistent size s' xs' := by
  have hsz := h.holds.size_lt_word
  have hprod := h.producer
  simp only [FifoThreads.producerStep] at hs
  split at hs
  · cases hs
  · cases hs
    exact ⟨xs, { h with producer := ⟨h.holds.read, h.waiting_eq ▸ h.holds.room,
      h.waiting_eq ▸ h.holds.write_eq, h.waiting_eq.ge⟩ }⟩
  · rename_i item r hpc
    rw [hpc] at hprod
    obtain ⟨hr, hsaw, hw, hle⟩ := hprod
    have hunwrap := h.holds.unwrap_eq hr hsaw hw
    have hfull := h.holds.toRing.full_iff hr hsaw
    simp only [hunwrap] at hs
    split at hs
    · rename_i hgt
      cases hs
      exact ⟨xs, { h with
        producer := trivial
        refused := forall_mem_snoc h.refused (h.size_eq ▸ hfull.1 hgt) }⟩
    · rename_i hgt
      have hne : s.pushSaw ≠ s.fifo.size - 1 := mt hfull.2 hgt
      have hroom : xs.length + 1 < s.fifo.size := by omega
      have hlt : r + s.pushSaw + 1 < 2 * s.fifo.size := by omega
      cases hs
      exact ⟨xs, { h with producer := ⟨hroom, hlt, hw.symm⟩ }⟩
  · rename_i item w hpc
    rw [hpc] at hprod
    obtain ⟨hroom, hw, hmod⟩ := hprod
    cases hs
    rw [h.holds.and_mask, hmod]
    have hslot : (s.fifo.data.set s.fifo.writeIndex (some item))[s.fifo.writeIndex]? =
        some (some item) :=
      List.getElem?_set_self (by rw [h.holds.length]; exact h.holds.write)
    exact ⟨xs, { h with
      holds := h.holds.setSlot (some item)
      producer := ⟨⟨hroom, hw, hmod⟩, hslot⟩
      consumer := h.consumer.setSlot _ }⟩
  · rename_i item w hpc
    rw [hpc] at hprod
    obtain ⟨⟨hroom, hw, hmod⟩, hslot⟩ := hprod
    cases hs
    rw [add64_eq (by omega), h.holds.and_mask, ← Nat.mod_add_mod, hmod]
    exact ⟨xs ++ [item], { h with
      holds := h.holds.setWrite hroom hslot
      accepted := by rw [h.accepted, List.append_assoc]
      producer := trivial
      consumer := h.consumer.snoc item _ }⟩

/-! ## The consumer -/

/-- An item less does not disturb `push`. -/
theorem ProducerOk.tail {q : LockFreeFifo T} {x : T} {saw : ℕ} {p : Producer T}
    (h : ProducerOk q (x :: xs) saw p) (r : ℕ) : ProducerOk { q with readIndex := r } xs saw p := by
  match p, h with
  | .idle, _ | .readRead _, _ => trivial
  | .readWrite _ _, ⟨hr, hsaw, hw, hle⟩ => exact ⟨hr, hsaw, hw, Nat.le_of_succ_le hle⟩
  | .store _ _, ⟨hroom, hw⟩ => exact ⟨Nat.lt_of_succ_lt hroom, hw⟩
  | .publish _ _, ⟨⟨hroom, hw⟩, hslot⟩ => exact ⟨⟨Nat.lt_of_succ_lt hroom, hw⟩, hslot⟩

/-- The indices are equal only if there were no items. -/
theorem eq_zero_of_index_eq {q : LockFreeFifo T} (h : Holds q xs) {saw : ℕ} (hsaw : saw ≤ xs.length)
    (he : q.readIndex = (q.readIndex + saw) % q.size) : saw = 0 := by
  have hroom := h.room
  have hmod : Nat.ModEq q.size (q.readIndex + 0) (q.readIndex + saw) := by
    unfold Nat.ModEq
    rw [Nat.add_zero, ← he]
    exact Nat.mod_eq_of_lt h.read
  exact (Nat.ModEq.eq_of_lt_of_lt (Nat.ModEq.add_left_cancel' q.readIndex hmod) (by omega)
    (by omega)).symm

theorem Consistent.consumerStep (h : Consistent size s xs) (hs : s.consumerStep = some s') :
    ∃ xs', Consistent size s' xs' := by
  have hsz := h.holds.size_lt_word
  have hcons := h.consumer
  have hempty : s.fifo.readIndex = s.fifo.writeIndex ↔ xs = [] := by
    rw [← h.holds.empty_iff, empty, beq_iff_eq]
  simp only [FifoThreads.consumerStep] at hs
  split at hs
  · cases hs
  · cases hs
    exact ⟨xs, { h with consumer := ⟨h.waiting_eq ▸ h.holds.write_eq, h.waiting_eq.le⟩ }⟩
  · cases hs
    exact ⟨xs, { h with consumer := rfl }⟩
  · rename_i w hpc
    rw [hpc] at hcons
    obtain ⟨rfl, hsaw⟩ := hcons
    split at hs
    · rename_i he
      cases hs
      exact ⟨xs, { h with
        consumer := trivial
        nulls := forall_mem_snoc h.nulls (eq_zero_of_index_eq h.holds hsaw he) }⟩
    · rename_i hne
      cases hs
      refine ⟨xs, { h with consumer := ?_ }⟩
      rintro rfl
      rw [Nat.le_zero.1 hsaw, Nat.add_zero, Nat.mod_eq_of_lt h.holds.read] at hne
      exact hne rfl
  · rename_i r hpc
    rw [hpc] at hcons
    obtain rfl := hcons
    split at hs
    · rename_i he
      cases hs
      exact ⟨xs, { h with
        consumer := trivial
        nulls := forall_mem_snoc h.nulls (by rw [h.waiting_eq, hempty.1 he]; rfl) }⟩
    · rename_i hne
      cases hs
      exact ⟨xs, { h with consumer := mt hempty.2 hne }⟩
  · rename_i hpc
    rw [hpc] at hcons
    cases hs
    exact ⟨xs, { h with consumer := ⟨rfl, hcons⟩ }⟩
  · rename_i r hpc
    rw [hpc] at hcons
    obtain ⟨rfl, hne⟩ := hcons
    cases hs
    refine ⟨xs, { h with consumer := ⟨rfl, hne, ?_⟩ }⟩
    obtain ⟨x, xs, rfl⟩ := List.exists_cons_of_ne_nil hne
    exact h.holds.head
  · rename_i r retval hpc
    rw [hpc] at hcons
    obtain ⟨rfl, hne, rfl⟩ := hcons
    obtain ⟨x, xs, rfl⟩ := List.exists_cons_of_ne_nil hne
    have hread := h.holds.read
    cases hs
    rw [add64_eq (by omega), h.holds.and_mask]
    exact ⟨xs, { h with
      holds := h.holds.setRead
      accepted := by rw [h.accepted, List.append_assoc]; rfl
      producer := h.producer.tail _
      consumer := trivial }⟩

/-! ## Runs -/

theorem Consistent.step (h : Consistent size s xs) {a : Action T} (hs : s.step a = some s') :
    ∃ xs', Consistent size s' xs' := by
  cases a with
  | push item =>
    simp only [FifoThreads.step] at hs
    split at hs
    · cases hs
      exact ⟨xs, { h with producer := trivial }⟩
    · cases hs
  | pop writeFirst =>
    simp only [FifoThreads.step] at hs
    split at hs
    · cases hs
      exact ⟨xs, { h with consumer := trivial }⟩
    · cases hs
  | producer => exact h.producerStep hs
  | consumer => exact h.consumerStep hs

theorem Consistent.not_clash (h : Consistent size s xs) : ¬ s.Clash := by
  rintro ⟨item, w, r, hp, hc, he⟩
  have hprod := h.producer
  have hcons := h.consumer
  rw [hp] at hprod
  rw [hc] at hcons
  obtain ⟨rfl, hne⟩ := hcons
  rw [h.holds.and_mask, hprod.2.2] at he
  refine h.holds.slot_ne (List.length_pos_iff.2 hne) ?_
  rw [Nat.add_zero, Nat.mod_eq_of_lt h.holds.read, he]

theorem consistent_init {maxSize fuel size : ℕ} {q : LockFreeFifo T} (hsize : 2 ≤ q.size)
    (hq : new maxSize fuel size = some q) : Consistent q.size (init q) [] := by
  have htwo : 2 ≤ size := by
    by_contra hlt
    obtain ⟨r, hr, -, rfl⟩ := new_cases hq
    have hone := nextPowerOf2_of_le_one (by omega) hr
    have htwo : 2 ≤ r := hsize
    omega
  exact ⟨(new_holds htwo hq).1, rfl, rfl, trivial, trivial, by simp [init], by simp [init]⟩

/-- **The FIFO is a queue**, in every interleaving of its two threads: what is popped is, in order,
the first part of what has been accepted; a call of `pop` returns null only if there was nothing to
pop, a call of `push` returns `false` only if the ring was full, when the other thread's index was
read; and no slot is read and written at the same time. -/
theorem fifo_correct {maxSize fuel size : ℕ} {q : LockFreeFifo T} (hsize : 2 ≤ q.size)
    (hq : new maxSize fuel size = some q) (hs : Reach step (fun _ _ => True) (init q) s) :
    s.popped <+: s.accepted ∧ (∀ n ∈ s.nulls, n = 0) ∧ (∀ n ∈ s.refused, n = q.size - 1) ∧
      ¬ s.Clash := by
  obtain ⟨xs, h⟩ := hs.inv (fun s => ∃ xs, Consistent q.size s xs) ⟨[], consistent_init hsize hq⟩
    fun _ _ _ ⟨_, h⟩ _ hstep => h.step hstep
  exact ⟨⟨xs, h.accepted.symm⟩, h.nulls, h.refused, h.not_clash⟩

/-- In a ring of two slots a second `push` is refused while the first item is popped, a third one
succeeds, and a second `pop` has begun before that. -/
def twoSlotTrace : List (Action Bool) :=
  [.push true, .producer, .producer, .producer, .producer, .push false, .pop true, .consumer,
    .producer, .consumer, .producer, .consumer, .consumer, .consumer, .pop false, .consumer,
    .push false, .producer, .consumer, .producer, .producer, .producer]

theorem fifo_correct_two : ∃ (q : LockFreeFifo Bool) (s : FifoThreads Bool),
    new (2 ^ 60 - 1) 64 2 = some q ∧ run step (init q) twoSlotTrace = some s ∧
      s.accepted = [true, false] ∧ s.popped = [true] ∧ s.refused = [1] ∧ s.nulls = [0] ∧
      s.popped <+: s.accepted ∧ (∀ n ∈ s.nulls, n = 0) ∧ (∀ n ∈ s.refused, n = q.size - 1) ∧
      ¬ s.Clash := by
  obtain ⟨q, hq⟩ : ∃ q : LockFreeFifo Bool, new (2 ^ 60 - 1) 64 2 = some q := ⟨_, rfl⟩
  have hsize : 2 ≤ q.size := by
    cases hq
    decide
  obtain ⟨s, hs⟩ : ∃ s, run step (init q) twoSlotTrace = some s := by
    cases hq
    exact ⟨_, rfl⟩
  have hcorrect := fifo_correct hsize hq (.of_run hs fun _ _ _ => trivial)
  refine ⟨q, s, hq, hs, ?_⟩
  cases hq
  cases hs
  exact ⟨rfl, rfl, rfl, rfl, hcorrect⟩

end Apf.FifoThreads
