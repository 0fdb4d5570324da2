import Ssr.Lib.Run
import Mathlib.Data.List.Infix

/-!
# Writing to a network client (`boostnetwork/connection.cpp`)

`Connection::write` starts one `async_write` for each message and returns; there is no queue, and
the handler at the end of an operation does nothing. The whole scene (`start`), the levels
(`timeout_handler`) and every update of a `NetworkSubscriber` are written this way. An operation
sends its buffer in parts, and the parts of operations that are pending at the same time may be
interleaved.

`stream_right`: the client gets the messages in the order of the calls as long as every part that is
sent belongs to the oldest pending operation. `write` does not see to that (`messages_mixed`).
-/

set_option autoImplicit false

namespace Net

open Lib

abbrev Bytes := List UInt8

structure Connection where
  /-- the arguments of all calls of `write` -/
  calls : List Bytes
  /-- what the operations that have not finished still have to send, the oldest first -/
  pending : List Bytes
  /-- what the client has got -/
  delivered : Bytes
  deriving DecidableEq, Repr

namespace Connection

inductive Event
  | write (writestring : Bytes)
  /-- `async_write_some`: the pending operation with this number sends a part of this size -/
  | writeSome (operation size : ℕ)
  deriving DecidableEq, Repr

/-- The socket has just been accepted. -/
def accepted : Connection := { calls := [], pending := [], delivered := [] }

/-- The copy of a message that is sent. -/
def buffer (writestring : Bytes) : Bytes := writestring ++ [0]

def write (c : Connection) (writestring : Bytes) : Connection :=
  { c with
    calls := c.calls ++ [writestring]
    pending := c.pending ++ [buffer writestring] }

/-- A part is not empty; after the last one the operation is finished. -/
def writeSome (c : Connection) (operation size : ℕ) : Option Connection :=
  match c.pending[operation]? with
  | none => none
  | some rest =>
    if 0 < size ∧ size ≤ rest.length then
      some { c with
        pending :=
          if size = rest.length then c.pending.eraseIdx operation
          else c.pending.set operation (rest.drop size)
        delivered := c.delivered ++ rest.take size }
    else none

def step (c : Connection) : Event → Option Connection
  | .write writestring => some (c.write writestring)
  | .writeSome operation size => c.writeSome operation size

/-- All messages in the order of the calls, each with a NUL byte behind it. -/
def messages (c : Connection) : Bytes := (c.calls.map buffer).flatten

/-- The part belongs to the oldest pending operation. -/
def InTurn (_ : Connection) : Event → Prop
  | .write _ => True
  | .writeSome operation _ => operation = 0

/-- Nothing is written before the previous operation has finished. -/
def OneAtATime (c : Connection) : Event → Prop
  | .write _ => c.pending = []
  | .writeSome _ _ => True

/-! ## One step -/

/-- What has been sent and what is pending, one after the other, are the messages. -/
def Complete (c : Connection) : Prop := c.delivered ++ c.pending.flatten = c.messages

theorem Complete.write {c : Connection} (h : c.Complete) (m : Bytes) : (c.write m).Complete := by
  have hd : c.delivered ++ c.pending.flatten = (c.calls.map buffer).flatten := h
  simp only [Complete, Connection.write, messages, List.map_append, List.flatten_append,
    List.map_cons, List.map_nil, List.flatten_cons, List.flatten_nil, List.append_nil]
  rw [← List.append_assoc, hd]

theorem writeSome_zero {c d : Connection} {size : ℕ} (h : c.writeSome 0 size = some d) :
    ∃ rest ops, c.pending = rest :: ops ∧ d.calls = c.calls ∧
      d.delivered = c.delivered ++ rest.take size ∧
      d.pending.flatten = rest.drop size ++ ops.flatten := by
  simp only [writeSome] at h
  split at h
  · cases h
  · rename_i rest hrest
    split at h
    · rename_i hsize
      cases h
      cases hp : c.pending with
      | nil =>
        rw [hp] at hrest
        cases hrest
      | cons r ops =>
        rw [hp] at hrest
        cases hrest
        refine ⟨rest, ops, rfl, rfl, rfl, ?_⟩
        dsimp only
        split
        · rename_i he
          rw [List.eraseIdx_cons_zero, he, List.drop_length, List.nil_append]
        · rw [List.set_cons_zero, List.flatten_cons]
    · cases h

theorem Complete.step {c d : Connection} (h : c.Complete) {e : Event} (hturn : c.InTurn e)
    (hs : c.step e = some d) : d.Complete := by
  cases e with
  | write m =>
    cases hs
    exact h.write m
  | writeSome operation size =>
    obtain rfl : operation = 0 := hturn
    obtain ⟨rest, ops, hp, hcalls, hdelivered, hpending⟩ := writeSome_zero hs
    have hd : c.delivered ++ c.pending.flatten = (c.calls.map buffer).flatten := h
    rw [Complete, messages, hcalls, ← hd, hdelivered, hpending, hp, List.flatten_cons,
      List.append_assoc, ← List.append_assoc (rest.take size), List.take_append_drop]

/-- There is at most one operation, so it is the oldest. -/
theorem length_pending {c d : Connection} (h : c.pending.length ≤ 1) {e : Event}
    (hone : c.OneAtATime e) (hs : c.step e = some d) : d.pending.length ≤ 1 := by
  cases e with
  | write m =>
    cases hs
    have hnil : c.pending = [] := hone
    simp [Connection.write, hnil]
  | writeSome operation size =>
    simp only [step, writeSome] at hs
    split at hs
    · cases hs
    · split at hs
      · cases hs
        dsimp only
        split
        · exact (List.length_eraseIdx_le _ _).trans h
        · rwa [List.length_set]
      · cases hs

theorem inTurn_of_length {c d : Connection} (h : c.pending.length ≤ 1) {e : Event}
    (hs : c.step e = some d) : c.InTurn e := by
  cases e with
  | write m => trivial
  | writeSome operation size =>
    simp only [step, writeSome] at hs
    split at hs
    · cases hs
    · rename_i rest hrest
      have hlt := (List.getElem?_eq_some_iff.1 hrest).1
      change operation = 0
      omega

/-! ## Runs -/

/-- The client has got the beginning of the messages, and all of them once nothing is pending. -/
def StreamRight (c : Connection) : Prop :=
  c.delivered <+: c.messages ∧ (c.pending = [] → c.delivered = c.messages)

theorem Complete.streamRight {c : Connection} (h : c.Complete) : c.StreamRight := by
  refine ⟨⟨_, h⟩, fun hp => ?_⟩
  have hd : c.delivered ++ c.pending.flatten = c.messages := h
  rwa [hp, List.flatten_nil, List.append_nil] at hd

variable {c : Connection} {es : List Event}

/-- **The messages are not mixed** in any run in which only the oldest pending operation sends. -/
theorem stream_right (hrun : run step accepted es = some c)
    (hturn : AllSteps step InTurn accepted es) : c.StreamRight :=
  (hturn.inv Complete rfl (fun _ _ _ h ht hs => h.step ht hs) hrun).streamRight

/-- **One write at a time** is enough. -/
theorem stream_right_one (hrun : run step accepted es = some c)
    (hone : AllSteps step OneAtATime accepted es) : c.StreamRight := by
  have hinv := hone.inv (fun c => c.Complete ∧ c.pending.length ≤ 1) ⟨rfl, Nat.zero_le 1⟩
    (fun _ _ _ h ho hs =>
      ⟨h.1.step (inTurn_of_length h.2 hs) hs, length_pending h.2 ho hs⟩) hrun
  exact hinv.1.streamRight

/-- Two writes of "ab" and "c" without waiting, each part of one byte or more. -/
theorem stream_right_two :
    (⟨[[97, 98], [99]], [[99, 0]], [97, 98, 0]⟩ : Connection).StreamRight := by
  have hrun : run step accepted [.write [97, 98], .writeSome 0 1, .write [99], .writeSome 0 2] =
      some ⟨[[97, 98], [99]], [[99, 0]], [97, 98, 0]⟩ := rfl
  exact stream_right hrun ((allSteps_cons rfl).2 ⟨trivial, (allSteps_cons rfl).2
    ⟨rfl, (allSteps_cons rfl).2 ⟨trivial, (allSteps_cons rfl).2 ⟨rfl, allSteps_nil⟩⟩⟩⟩)

/-- The levels are written while an update is on its way: the client gets "a", "c", NUL, "b",
NUL. -/
theorem messages_mixed :
    ∃ c, run step accepted [.write [97, 98], .writeSome 0 1, .write [99], .writeSome 1 2,
        .writeSome 0 2] = some c ∧
      c.pending = [] ∧ c.delivered ≠ c.messages ∧ ¬ c.StreamRight :=
  ⟨_, rfl, rfl, by decide, fun h => absurd (h.2 rfl) (by decide)⟩

/-! ## Writes that overlap -/

/-- Every pending operation still has to send its NUL byte. -/
def Terminated (c : Connection) : Prop := ∀ rest ∈ c.pending, ∃ front, rest = front ++ [0]

theorem Terminated.step {c d : Connection} (h : c.Terminated) {e : Event} (hs : c.step e = some d) :
    d.Terminated := by
  cases e with
  | write m =>
    cases hs
    intro rest hrest
    rcases List.mem_append.1 hrest with hrest | hrest
    · exact h rest hrest
    · exact ⟨m, List.mem_singleton.1 hrest⟩
  | writeSome operation size =>
    simp only [Connection.step, writeSome] at hs
    split at hs
    · cases hs
    · rename_i rest hrest
      split at hs
      · rename_i hsize
        cases hs
        intro r hr
        dsimp only at hr
        split at hr
        · exact h r (List.mem_of_mem_eraseIdx hr)
        · rename_i hne
          rcases List.mem_or_eq_of_mem_set hr with hr | rfl
          · exact h r hr
          · obtain ⟨front, rfl⟩ := h rest (List.mem_of_getElem? hrest)
            rw [List.length_append, List.length_singleton] at hsize hne
            exact ⟨front.drop size, List.drop_append_of_le_length (by omega)⟩
      · cases hs

/-- The oldest operation has only its NUL byte left, and another one goes first. -/
theorem not_prefix_of_early {c : Connection} (hc : c.Complete) {ops : List Bytes} {x : UInt8}
    {m : Bytes} (hp : c.pending = [0] :: (ops ++ [x :: m])) (hx : x ≠ 0) :
    ∃ d, c.step (.writeSome (ops.length + 1) 1) = some d ∧ ¬ d.delivered <+: d.messages := by
  have hget : c.pending[ops.length + 1]? = some (x :: m) := by
    rw [hp, List.getElem?_cons_succ, List.getElem?_concat_length]
  have hmessages : c.messages = c.delivered ++ 0 :: (ops ++ [x :: m]).flatten := by
    have h : c.delivered ++ c.pending.flatten = c.messages := hc
    rw [← h, hp]
    rfl
  have hsize : 0 < 1 ∧ 1 ≤ (x :: m).length := ⟨Nat.one_pos, by simp⟩
  simp only [Connection.step, writeSome, hget, if_pos hsize]
  refine ⟨_, rfl, fun hpre => hx ?_⟩
  change c.delivered ++ [x] <+: c.messages at hpre
  rw [hmessages, List.prefix_append_right_inj] at hpre
  exact (List.cons_prefix_cons.1 hpre).1

/-- **A message that is written while another one is pending** can be mixed into it: that no writes
overlap is necessary. -/
theorem overlap_mixes (hrun : run step accepted es = some c)
    (hturn : AllSteps step InTurn accepted es) (hp : c.pending ≠ []) {x : UInt8} (hx : x ≠ 0)
    (m : Bytes) :
    ∃ es d, run step (c.write (x :: m)) es = some d ∧ ¬ d.delivered <+: d.messages := by
  obtain ⟨hc, ht⟩ := hturn.inv (fun c => c.Complete ∧ c.Terminated) ⟨rfl, fun _ h => (by cases h)⟩
    (fun _ _ _ h ht hs => ⟨h.1.step ht hs, h.2.step hs⟩) hrun
  obtain ⟨r, ops, hp⟩ := List.exists_cons_of_ne_nil hp
  obtain ⟨front, rfl⟩ := ht r (by simp [hp])
  have hw : (c.write (x :: m)).pending = (front ++ [0]) :: (ops ++ [buffer (x :: m)]) := by
    simp [Connection.write, hp]
  -- everything but the NUL byte of the oldest message is sent first
  obtain ⟨es, c', hrun, hc', hp'⟩ : ∃ es c', run step (c.write (x :: m)) es = some c' ∧
      c'.Complete ∧ c'.pending = [0] :: (ops ++ [buffer (x :: m)]) := by
    by_cases hf : front = []
    · subst hf
      exact ⟨[], _, rfl, hc.write _, hw⟩
    · have hlen := List.length_pos_of_ne_nil hf
      have hs : (c.write (x :: m)).step (.writeSome 0 front.length) =
          some { c.write (x :: m) with
            pending := [0] :: (ops ++ [buffer (x :: m)])
            delivered := (c.write (x :: m)).delivered ++ front } := by
        simp [Connection.step, writeSome, hw, hlen]
      have hturn : (c.write (x :: m)).InTurn (.writeSome 0 front.length) := rfl
      exact ⟨[.writeSome 0 front.length], _, by rw [run_cons, hs]; rfl,
        (hc.write (x :: m)).step hturn hs, rfl⟩
  obtain ⟨d, hs, hmixed⟩ := not_prefix_of_early hc' hp' hx
  refine ⟨es ++ [.writeSome (ops.length + 1) 1], d, ?_, hmixed⟩
  rw [run_snoc, hrun]
  exact hs

end Connection

end Net
