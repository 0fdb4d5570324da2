import Ssr.Lib.Packets
import Ssr.Net.Connection

/-!
# Reading from a network client (`boostnetwork/connection.cpp`)

`start_read` starts an `async_read_until`, which takes bytes from the socket until there is a NUL
byte in the buffer; there may be more bytes behind it (`Event.readSome`, as `boost::asio` documents
it). Then `read_handler` takes one packet from the buffer, gives it to the command parser and calls
`start_read` again. In an error it does not.

A `Link` is a connection that writes and one that reads what arrives, with any delays between them
and in any parts: the packets that are parsed are the messages that were written (`link_right`).
-/

set_option autoImplicit false

namespace Net

open Lib

structure Reader where
  streambuf : Bytes
  /-- an `async_read_until` is pending -/
  reading : Bool
  /-- everything that has been read from the socket -/
  received : Bytes
  /-- the arguments of all calls of `parse_cmd` -/
  parsed : List Bytes
  deriving DecidableEq, Repr

namespace Reader

inductive Event
  /-- `async_read_until` reads a part from the socket -/
  | readSome (bytes : Bytes)
  /-- `read_handler` without an error -/
  | readHandler
  /-- `read_handler` with an error of the socket -/
  | error
  deriving DecidableEq, Repr

/-- `start` has called `start_read`. -/
def start : Reader := { streambuf := [], reading := true, received := [], parsed := [] }

/-- It is only read from the socket if there is no packet in the buffer. -/
def step (r : Reader) : Event → Option Reader
  | .readSome bytes =>
    if r.reading ∧ 0 ∉ r.streambuf ∧ bytes ≠ [] then
      some { r with streambuf := r.streambuf ++ bytes, received := r.received ++ bytes }
    else none
  | .readHandler =>
    if r.reading then
      (takePacket 0 r.streambuf).map fun (packet, rest) =>
        { r with streambuf := rest, parsed := r.parsed ++ [packet] }
    else none
  | .error => if r.reading ∧ 0 ∉ r.streambuf then some { r with reading := false } else none

/-- What has been parsed and what is in the buffer, one after the other, have been received. -/
structure Right (r : Reader) : Prop where
  received : r.received = joinPackets 0 r.parsed ++ r.streambuf
  parsed : ∀ packet ∈ r.parsed, 0 ∉ packet

theorem right_start : start.Right := ⟨rfl, fun _ h => by cases h⟩

theorem Right.step {r r' : Reader} (h : r.Right) {e : Event} (hs : r.step e = some r') :
    r'.Right := by
  cases e with
  | readSome bytes =>
    simp only [Reader.step] at hs
    split at hs
    · cases hs
      refine ⟨?_, h.parsed⟩
      dsimp only
      rw [h.received, List.append_assoc]
    · cases hs
  | readHandler =>
    simp only [Reader.step] at hs
    split at hs
    · rw [Option.map_eq_some_iff] at hs
      obtain ⟨⟨packet, rest⟩, htake, rfl⟩ := hs
      obtain ⟨hpacket, hbuffer⟩ := takePacket_eq_some htake
      refine ⟨?_, fun p hp => ?_⟩
      · dsimp only
        rw [h.received, hbuffer, joinPackets_concat]
        simp
      · rcases List.mem_append.1 hp with hp | hp
        · exact h.parsed p hp
        · rwa [List.mem_singleton.1 hp]
    · cases hs
  | error =>
    simp only [Reader.step] at hs
    split at hs
    · cases hs
      exact ⟨h.received, h.parsed⟩
    · cases hs

end Reader

/-! ## Both ends -/

/-- What has been sent stays sent. -/
theorem Connection.delivered_grows {c d : Connection} {e : Connection.Event}
    (hs : c.step e = some d) : c.delivered <+: d.delivered := by
  cases e with
  | write m =>
    cases hs
    exact List.prefix_rfl
  | writeSome operation size =>
    simp only [Connection.step, Connection.writeSome] at hs
    split at hs
    · cases hs
    · split at hs
      · cases hs
        exact List.prefix_append _ _
      · cases hs

/-- A connection that writes, and one that reads. -/
structure Link where
  writer : Connection
  reader : Reader
  deriving DecidableEq, Repr

namespace Link

inductive Event
  | writer (e : Connection.Event)
  | reader (e : Reader.Event)
  deriving DecidableEq, Repr

def start : Link := { writer := .accepted, reader := .start }

/-- The reader gets what the writer has sent, as far as it has arrived. -/
def step (s : Link) : Event → Option Link
  | .writer e => (s.writer.step e).map fun writer => { s with writer }
  | .reader e => (s.reader.step e).bind fun reader =>
      if reader.received <+: s.writer.delivered then some { s with reader } else none

/-- The writer only sends for its oldest operation. -/
def InTurn (s : Link) : Event → Prop
  | .writer e => s.writer.InTurn e
  | .reader _ => True

structure Right (s : Link) : Prop where
  writer : s.writer.Complete
  reader : s.reader.Right
  arrived : s.reader.received <+: s.writer.delivered

theorem Right.step {s s' : Link} (h : s.Right) {e : Event} (hturn : s.InTurn e)
    (hs : s.step e = some s') : s'.Right := by
  cases e with
  | writer e =>
    simp only [Link.step, Option.map_eq_some_iff] at hs
    obtain ⟨writer, hwriter, rfl⟩ := hs
    exact ⟨h.writer.step hturn hwriter, h.reader,
      h.arrived.trans (Connection.delivered_grows hwriter)⟩
  | reader e =>
    simp only [Link.step, Option.bind_eq_some_iff] at hs
    obtain ⟨reader, hreader, hs⟩ := hs
    split at hs
    · rename_i harrived
      cases hs
      exact ⟨h.writer, h.reader.step hreader, harrived⟩
    · cases hs

variable {s : Link} {es : List Event}

/-- **Every message arrives once and in order**, however the messages are divided and delayed: the
packets that have been parsed are the first messages, and if everything that has been sent has been
read, and no packet is left in the buffer, then they are all messages. -/
theorem link_right (hrun : run step start es = some s) (hturn : AllSteps step InTurn start es)
    (hmessages : ∀ m ∈ s.writer.calls, 0 ∉ m) :
    s.reader.parsed <+: s.writer.calls ∧
      (s.writer.pending = [] → s.reader.received = s.writer.delivered → 0 ∉ s.reader.streambuf →
        s.reader.parsed = s.writer.calls ∧ s.reader.streambuf = []) := by
  have hright : s.Right := hturn.inv Right ⟨rfl, Reader.right_start, List.prefix_rfl⟩
    (fun _ _ _ h ht hs => h.step ht hs) hrun
  obtain ⟨hbegins, hall⟩ := hright.writer.streamRight
  have hcalls : s.writer.messages = joinPackets 0 s.writer.calls := rfl
  refine ⟨?_, fun hpending hreceived hnone => ?_⟩
  · have hbeginning := hright.arrived.trans hbegins
    rw [hright.reader.received, hcalls] at hbeginning
    obtain ⟨rest, hrest, -⟩ := packets_prefix hmessages hright.reader.parsed hbeginning
    exact ⟨rest, hrest.symm⟩
  · rw [hright.reader.received, hall hpending, hcalls] at hreceived
    exact packets_unique hmessages hright.reader.parsed hnone hreceived

/-- Two messages, the second of which arrives together with the end of the first one. -/
theorem link_right_two :
    let s : Link := ⟨⟨[[97, 98], [99]], [], [97, 98, 0, 99, 0]⟩,
      ⟨[99, 0], true, [97, 98, 0, 99, 0], [[97, 98]]⟩⟩
    s.reader.parsed <+: s.writer.calls ∧
      (s.writer.pending = [] → s.reader.received = s.writer.delivered → 0 ∉ s.reader.streambuf →
        s.reader.parsed = s.writer.calls ∧ s.reader.streambuf = []) := by
  have hrun : run step start [.writer (.write [97, 98]), .writer (.write [99]),
      .writer (.writeSome 0 1), .reader (.readSome [97]), .writer (.writeSome 0 2),
      .writer (.writeSome 0 2), .reader (.readSome [98, 0, 99, 0]), .reader .readHandler] =
        some ⟨⟨[[97, 98], [99]], [], [97, 98, 0, 99, 0]⟩,
          ⟨[99, 0], true, [97, 98, 0, 99, 0], [[97, 98]]⟩⟩ := rfl
  refine link_right hrun ?_ (by decide)
  exact (allSteps_cons rfl).2 ⟨trivial, (allSteps_cons rfl).2 ⟨trivial, (allSteps_cons rfl).2
    ⟨rfl, (allSteps_cons rfl).2 ⟨trivial, (allSteps_cons rfl).2 ⟨rfl, (allSteps_cons rfl).2
      ⟨rfl, (allSteps_cons rfl).2 ⟨trivial, (allSteps_cons rfl).2 ⟨trivial, allSteps_nil⟩⟩⟩⟩⟩⟩⟩⟩

end Link

end Net
