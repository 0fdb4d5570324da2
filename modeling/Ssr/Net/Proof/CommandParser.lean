import Ssr.Control.Proof.Loading
import Ssr.Net.CommandParser

/-!
# What a request can do to the controller

`new_source` takes a name for that of a file if the channel is not zero, and its assertion needs a
channel that is not negative. The parser checks a channel only by an assertion of its own, and passes
a channel 0 on for a file. A request is safe exactly if no source of it has such a channel
(`safe_iff`).
-/

set_option autoImplicit false

namespace Net.CommandParser

open Ssr Apf

variable {F : Type}

/-! ## `new_source` -/

theorem publishAll_ok [FloatOps F] {cfg : Config F} {us : List (Update F)}
    (h : ∀ u ∈ us, DeletesNothing u) (c : Controller F) :
    ∃ c', Controller.publishAll cfg us c = .ok c' := by
  induction us generalizing c with
  | nil => exact ⟨c, rfl⟩
  | cons u us ih =>
    obtain ⟨r, hr⟩ := Renderer.handle_ok cfg.renderer c.renderer (h u List.mem_cons_self)
    obtain ⟨c', hc'⟩ := ih (fun u hu => h u (List.mem_cons_of_mem _ hu))
      { c with scene := c.scene.handle u, renderer := r }
    refine ⟨c', ?_⟩
    simp only [Controller.publishAll, Controller.publish, hr]
    exact hc'

theorem addSource_ok [FloatOps F] (cfg : Config F) (c : Controller F) (a : SourceArgs F)
    (portName fileName : String) (fileLength : ℤ) :
    ∃ c', c.addSource cfg a portName fileName fileLength = .ok c' := by
  rw [Controller.addSource]
  split
  · exact ⟨_, rfl⟩
  · exact publishAll_ok (Controller.newSourceUpdates_deletesNothing _ _ _ _ _) _

/-- No assertion of `new_source` fails. -/
def Accepted [FloatOps F] (a : SourceArgs F) : Prop :=
  ∀ (cfg : Config F) (env : Environment F) (c : Controller F), ∃ c', c.newSource cfg env a = .ok c'

theorem accepted_of_nonneg [FloatOps F] {a : SourceArgs F} (h : 0 ≤ a.channel.toInt) : Accepted a := by
  intro cfg env c
  rw [Controller.newSource, if_neg (not_lt.2 h)]
  split
  · split
    · exact addSource_ok _ _ _ _ _ _
    · exact ⟨c, rfl⟩
  · exact addSource_ok _ _ _ _ _ _

/-! ## Sources -/

/-- Among the calls there is no `new_source`. -/
def NoNewSource (calls : List (Call F)) : Prop := ∀ a, .newSource a ∉ calls

theorem NoNewSource.nil : NoNewSource ([] : List (Call F)) := fun _ => List.not_mem_nil

theorem NoNewSource.append {calls rest : List (Call F)} (h : NoNewSource calls)
    (h' : NoNewSource rest) : NoNewSource (calls ++ rest) :=
  fun a ha => (List.mem_append.1 ha).elim (h a) (h' a)

theorem noNewSource_unlessNew (node : Node) {call : Call F} (h : ∀ a, call ≠ .newSource a) :
    NoNewSource (unlessNew node call) := by
  intro a ha
  rw [unlessNew] at ha
  split at ha
  · exact absurd ha List.not_mem_nil
  · exact h a (List.mem_singleton.1 ha).symm

theorem noNewSource_deleteCalls (node : Node) : NoNewSource (deleteCalls (F := F) node) := by
  intro a ha
  obtain ⟨inner, -, ha⟩ := List.mem_flatMap.1 ha
  split at ha
  · split at ha <;> simp at ha
  · simp at ha

variable [FloatOps F]

theorem noNewSource_placeChild (node : Node) (id : ℕ) (p : Placement F) (inner : Node) :
    NoNewSource (placeChild node id p inner).2 := by
  have hposition : ∀ position,
      NoNewSource (unlessNew node (Call.setSourcePosition (F := F) id position)) :=
    fun _ => noNewSource_unlessNew node (by simp)
  have hfixed : ∀ fixed,
      NoNewSource (unlessNew node (Call.setSourcePositionFixed (F := F) id fixed)) :=
    fun _ => noNewSource_unlessNew node (by simp)
  unfold placeChild
  split
  · dsimp only
    split
    · split
      · exact (hposition _).append (hfixed _)
      · exact NoNewSource.nil.append (hfixed _)
    · split
      · exact hposition _
      · exact .nil
  · split
    · split
      · exact noNewSource_unlessNew node (by simp)
      · exact .nil
    · exact .nil

theorem noNewSource_placeChildren (node : Node) (id : ℕ) (p : Placement F) (ns : List Node) :
    NoNewSource (placeChildren node id p ns).2 := by
  induction ns generalizing p with
  | nil => exact .nil
  | cons inner ns ih => exact (noNewSource_placeChild node id p inner).append (ih _)

theorem noNewSource_attributeCalls (node : Node) (id : ℕ) :
    NoNewSource (attributeCalls (F := F) node id) := by
  unfold attributeCalls
  refine ((((NoNewSource.append ?_ ?_).append ?_).append ?_).append ?_).append ?_
  all_goals
    split
    · exact noNewSource_unlessNew node (by simp)
    · exact .nil

theorem mem_newSourceCall {node : Node} {p : Placement F} {name : String} {channel : Int32}
    {a : SourceArgs F} (h : .newSource a ∈ newSourceCall node p name channel) :
    isNew node = true ∧ name ≠ "" ∧ a.fileOrPortName = name ∧ a.channel = channel := by
  rw [newSourceCall] at h
  split at h
  · rename_i hnew
    cases List.mem_singleton.1 h
    exact ⟨hnew.1, hnew.2, rfl, rfl⟩
  · exact absurd h List.not_mem_nil

/-- The channel of a file is at least 1 and that of a port is 0, and no assertion fails. -/
def CallSafe (node : Node) (a : SourceArgs F) : Prop :=
  Accepted a ∧ (a.fileOrPortName = node.getAttribute "file" → 1 ≤ a.channel.toInt) ∧
    (a.fileOrPortName = node.getAttribute "port" → a.channel.toInt = 0)

/-- No assertion fails for this element, and every source that it creates has the right channel. -/
structure ElementSafe (string2time : String → Option F) (node : Node) : Prop where
  asserts : (parseElement string2time node).ending ≠ .assertFailed
  calls : ∀ a, .newSource a ∈ (parseElement string2time node).calls → CallSafe node a

/-- The channel is not negative, and a new source with a file has no port of the same name and no
channel 0. -/
structure ChannelOk (node : Node) : Prop where
  nonneg : ∀ channel, S2AInt (node.getAttribute "channel") = some channel → 0 ≤ channel.toInt
  file : isNew node = true → node.getAttribute "file" ≠ "" →
    node.getAttribute "file" ≠ node.getAttribute "port" ∧
      ∀ channel, S2AInt (node.getAttribute "channel") = some channel → 1 ≤ channel.toInt

/-- What `file_or_port_name` is taken from. -/
theorem fileOrPortName_cases (node : Node) :
    (fileOrPortName node = none ∧
      ∃ channel, S2AInt (node.getAttribute "channel") = some channel ∧ channel.toInt < 0) ∨
    (∀ channel, S2AInt (node.getAttribute "channel") = some channel → 0 ≤ channel.toInt) ∧
      ((node.getAttribute "file" = "" ∧ fileOrPortName node = some (node.getAttribute "port", 0)) ∨
        node.getAttribute "file" ≠ "" ∧ fileOrPortName node =
          some (node.getAttribute "file", (S2AInt (node.getAttribute "channel")).getD 1)) := by
  unfold fileOrPortName
  cases hchannel : S2AInt (node.getAttribute "channel") with
  | none =>
    right
    refine ⟨by simp, ?_⟩
    by_cases hfile : node.getAttribute "file" = ""
    · simp [hfile]
    · simp [hfile]
  | some channel =>
    by_cases hneg : channel.toInt < 0
    · simp [hneg]
    · right
      refine ⟨by simpa using hneg, ?_⟩
      by_cases hfile : node.getAttribute "file" = ""
      · simp [hfile, hneg]
      · simp [hfile, hneg]

/-- The only call of `new_source` is the one at the end. -/
theorem parseSource_eq {node : Node} (hid : sourceId node ≠ none) :
    ∃ (p : Placement F) (calls : List (Call F)), NoNewSource calls ∧
      parseSource node = finishSource node p calls (fileOrPortName node) := by
  obtain ⟨id, hid⟩ := Option.ne_none_iff_exists'.1 hid
  refine ⟨(placeChildren node id ⟨.origin, false, .zero⟩ node.children).1, _,
    (noNewSource_placeChildren node id ⟨.origin, false, .zero⟩ node.children).append
      (noNewSource_attributeCalls node id), ?_⟩
  simp only [parseSource, hid]

theorem parseElement_source (string2time : String → Option F) {node : Node}
    (h : node.name = "source") : parseElement string2time node = parseSource node := if_pos h

/-- **A source** is safe exactly if its channel is all right. -/
theorem elementSafe_source (string2time : String → Option F) {node : Node}
    (hsource : node.name = "source") (hid : sourceId node ≠ none) :
    ElementSafe string2time node ↔ ChannelOk node := by
  obtain ⟨p, calls, hcalls, hparse⟩ := parseSource_eq (F := F) hid
  have helement := (parseElement_source string2time hsource).trans hparse
  obtain ⟨hnone, channel, hchannel, hneg⟩ | ⟨hnonneg, hname⟩ := fileOrPortName_cases node
  · rw [hnone] at helement
    refine iff_of_false (fun h => h.asserts (by rw [helement]; rfl)) fun h => ?_
    exact absurd (h.nonneg channel hchannel) (not_le.2 hneg)
  · obtain ⟨name, channel, hsome⟩ : ∃ name channel, fileOrPortName node = some (name, channel) := by
      obtain ⟨-, h⟩ | ⟨-, h⟩ := hname
      · exact ⟨_, _, h⟩
      · exact ⟨_, _, h⟩
    rw [hsome] at helement hname
    constructor
    · intro h
      refine ⟨hnonneg, fun hnew hfile => ?_⟩
      obtain ⟨hempty, -⟩ | ⟨-, hname⟩ := hname
      · exact absurd hempty hfile
      cases hname
      obtain ⟨a, ha, hafile, hachannel⟩ : ∃ a, .newSource a ∈ (parseElement string2time node).calls ∧
          a.fileOrPortName = node.getAttribute "file" ∧
          a.channel = (S2AInt (node.getAttribute "channel")).getD 1 := by
        rw [helement, finishSource, newSourceCall, if_pos ⟨hnew, hfile⟩]
        exact ⟨_, List.mem_append_right _ List.mem_cons_self, rfl, rfl⟩
      obtain ⟨-, hsafefile, hsafeport⟩ := h.calls a ha
      have hone := hsafefile hafile
      refine ⟨fun heq => ?_, fun channel hchannel => ?_⟩
      · have hzero := hsafeport (hafile.trans heq)
        omega
      · rw [hachannel, hchannel] at hone
        exact hone
    · intro h
      refine ⟨by simp [helement, finishSource], fun a ha => ?_⟩
      rw [helement] at ha
      obtain ⟨hnew, hne, haname, hachannel⟩ :=
        mem_newSourceCall ((List.mem_append.1 ha).resolve_left (hcalls a))
      obtain ⟨hempty, hname⟩ | ⟨hfile, hname⟩ := hname
      · cases hname
        rw [CallSafe, haname, hachannel, hempty]
        exact ⟨accepted_of_nonneg (hachannel ▸ by decide), fun h => absurd h hne, fun _ => rfl⟩
      · cases hname
        obtain ⟨hport, hone⟩ := h.file hnew hfile
        have hchannel : 1 ≤ a.channel.toInt := by
          rw [hachannel]
          cases hread : S2AInt (node.getAttribute "channel") with
          | none => decide
          | some channel => exact hone channel hread
        exact ⟨accepted_of_nonneg (by omega), fun _ => hchannel,
          fun h => absurd (haname.symm.trans h) hport⟩

/-! ## The other elements -/

theorem noNewSource_referenceCalls {setPosition : Position F → Call F}
    {setOrientation : Orientation F → Call F} (hposition : ∀ p a, setPosition p ≠ .newSource a)
    (horientation : ∀ o a, setOrientation o ≠ .newSource a) (node : Node) :
    NoNewSource (referenceCalls setPosition setOrientation node) := by
  intro a ha
  obtain ⟨inner, -, ha⟩ := List.mem_flatMap.1 ha
  split at ha
  · split at ha
    · exact hposition _ a (List.mem_singleton.1 ha).symm
    · exact absurd ha List.not_mem_nil
  · split at ha
    · split at ha
      · exact horientation _ a (List.mem_singleton.1 ha).symm
      · exact absurd ha List.not_mem_nil
    · exact absurd ha List.not_mem_nil

theorem noNewSource_sceneCalls (node : Node) : NoNewSource (sceneCalls (F := F) node) := by
  unfold sceneCalls
  refine ((NoNewSource.append ?_ ?_).append ?_).append ?_
  all_goals
    intro a ha
    repeat' split at ha
    all_goals simp at ha

theorem noNewSource_stateCalls (string2time : String → Option F) (node : Node) :
    NoNewSource (stateCalls string2time node) := by
  unfold stateCalls
  refine ((NoNewSource.append ?_ ?_).append ?_).append ?_
  all_goals
    intro a ha
    repeat' split at ha
    all_goals simp at ha

/-- The other elements create no sources. -/
theorem elementSafe_other (string2time : String → Option F) {node : Node}
    (h : node.name ≠ "source") : ElementSafe string2time node := by
  have helement : (parseElement string2time node).ending = .finished ∧
      NoNewSource (parseElement string2time node).calls := by
    rw [parseElement, if_neg h]
    refine ⟨rfl, ?_⟩
    dsimp only
    split
    · exact noNewSource_referenceCalls (by simp) (by simp) node
    · split
      · exact noNewSource_referenceCalls (by simp) (by simp) node
      · split
        · exact noNewSource_deleteCalls node
        · split
          · exact noNewSource_sceneCalls node
          · split
            · exact noNewSource_stateCalls string2time node
            · exact .nil
  exact ⟨by simp [helement.1], fun a ha => absurd ha (helement.2 a)⟩

/-! ## Requests -/

/-- The elements that the loop gets to. -/
def processed (string2time : String → Option F) : List Node → List Node
  | [] => []
  | node :: nodes =>
    node :: if (parseElement string2time node).ending = .finished then processed string2time nodes
      else []

/-- The calls of a request are those of the elements that the loop gets to, and its end is that of
the last one. -/
theorem parseElements_eq (string2time : String → Option F) (nodes : List Node) :
    (parseElements string2time nodes).calls = (processed string2time nodes).flatMap
        (fun node => (parseElement string2time node).calls) ∧
      ((parseElements string2time nodes).ending = .assertFailed ↔
        ∃ node ∈ processed string2time nodes,
          (parseElement string2time node).ending = .assertFailed) := by
  induction nodes with
  | nil => simp [parseElements, processed]
  | cons node nodes ih =>
    rw [parseElements, processed]
    generalize hnode : parseElement string2time node = parsed
    obtain ⟨calls, ending⟩ := parsed
    cases ending with
    | finished => simp [hnode, ih.1, ih.2]
    | returned => simp [hnode]
    | assertFailed => simp [hnode]

def elements (cmd : Option Node) : List Node :=
  match cmd with
  | none => []
  | some root => if root.name = "request" then root.children else []

theorem parseCmd_eq (string2time : String → Option F) (cmd : Option Node) :
    parseCmd string2time cmd = parseElements string2time (elements cmd) := by
  cases cmd with
  | none => rfl
  | some root =>
    rw [parseCmd, elements]
    split
    · rfl
    · rfl

/-- No assertion fails in the parser, and none in `new_source`, which never takes the name of a file
for that of a port or the reverse. -/
structure Safe (string2time : String → Option F) (cmd : Option Node) : Prop where
  asserts : (parseCmd string2time cmd).ending ≠ .assertFailed
  calls : ∀ node ∈ processed string2time (elements cmd), ∀ a,
    .newSource a ∈ (parseElement string2time node).calls → CallSafe node a

/-- The elements before the first source that has no ID and is not new. -/
def identified (nodes : List Node) : List Node :=
  nodes.takeWhile fun node => !(node.name = "source" && (sourceId node).isNone)

/-- A source without an ID ends the request. -/
theorem parseElement_unidentified (string2time : String → Option F) {node : Node}
    (hsource : node.name = "source") (hid : sourceId node = none) :
    parseElement string2time node = { calls := [], ending := .returned } := by
  rw [parseElement_source string2time hsource, parseSource, hid]

/-- Any other element that is safe lets the loop go on. -/
theorem ElementSafe.finished {string2time : String → Option F} {node : Node}
    (h : ElementSafe string2time node) (hid : node.name = "source" → sourceId node ≠ none) :
    (parseElement string2time node).ending = .finished := by
  by_cases hsource : node.name = "source"
  · obtain ⟨p, calls, -, hparse⟩ := parseSource_eq (F := F) (hid hsource)
    have hasserts := h.asserts
    rw [parseElement_source string2time hsource, hparse] at hasserts ⊢
    cases hname : fileOrPortName node with
    | none => exact absurd (by rw [hname]; rfl) hasserts
    | some name => rfl
  · rw [parseElement, if_neg hsource]

theorem elementsSafe_iff (string2time : String → Option F) (nodes : List Node) :
    (∀ node ∈ processed string2time nodes, ElementSafe string2time node) ↔
      ∀ node ∈ identified nodes, node.name = "source" → ChannelOk node := by
  induction nodes with
  | nil => simp [processed, identified]
  | cons node nodes ih =>
    by_cases hstop : node.name = "source" ∧ sourceId node = none
    · have hparse := parseElement_unidentified string2time hstop.1 hstop.2
      have hidentified : identified (node :: nodes) = [] := by
        rw [identified, List.takeWhile_cons, if_neg (by simp [hstop])]
      have hprocessed : processed string2time (node :: nodes) = [node] := by
        rw [processed, hparse]
        rfl
      rw [hidentified, hprocessed, List.forall_mem_singleton]
      exact iff_of_true ⟨by simp [hparse], by simp [hparse]⟩ (by simp)
    · have hid : node.name = "source" → sourceId node ≠ none := fun h h' => hstop ⟨h, h'⟩
      have hsafe : ElementSafe string2time node ↔ (node.name = "source" → ChannelOk node) := by
        by_cases hsource : node.name = "source"
        · rw [elementSafe_source string2time hsource (hid hsource)]
          exact ⟨fun h _ => h, fun h => h hsource⟩
        · exact iff_of_true (elementSafe_other string2time hsource) fun h => absurd h hsource
      have hidentified : identified (node :: nodes) = node :: identified nodes := by
        rw [identified, List.takeWhile_cons, if_pos]
        · rfl
        · by_cases hsource : node.name = "source"
          · simp [hsource, Option.isSome_iff_ne_none, hid hsource]
          · simp [hsource]
      rw [hidentified, List.forall_mem_cons, ← ih, ← hsafe, processed, List.forall_mem_cons]
      refine and_congr_right fun h => ?_
      rw [if_pos (h.finished hid)]

theorem safe_iff_elements (string2time : String → Option F) (cmd : Option Node) :
    Safe string2time cmd ↔
      ∀ node ∈ processed string2time (elements cmd), ElementSafe string2time node := by
  have hassert := (parseElements_eq string2time (elements cmd)).2
  rw [← parseCmd_eq] at hassert
  constructor
  · intro h node hnode
    exact ⟨fun hfailed => h.asserts (hassert.2 ⟨node, hnode, hfailed⟩), h.calls node hnode⟩
  · intro h
    refine ⟨fun hfailed => ?_, fun node hnode => (h node hnode).calls⟩
    obtain ⟨node, hnode, hfailed⟩ := hassert.1 hfailed
    exact (h node hnode).asserts hfailed

/-- **A request is safe** exactly if the channels of its sources are all right, up to the first source
without an ID. -/
theorem safe_iff (string2time : String → Option F) (cmd : Option Node) :
    Safe string2time cmd ↔
      ∀ node ∈ identified (elements cmd), node.name = "source" → ChannelOk node := by
  rw [safe_iff_elements, elementsSafe_iff]

def fileSource (channel : String) : Node :=
  .element "source" [("new", "true"), ("file", "a.wav"), ("channel", channel)] []

/-- A negative channel fails the assertion of the parser, and the channel 0 makes a port of a file. -/
theorem not_safe_fileSource :
    ¬ Safe (fun _ => (none : Option ℤ)) (some (.element "request" [] [fileSource "-1"])) ∧
      ¬ Safe (fun _ => (none : Option ℤ)) (some (.element "request" [] [fileSource "0"])) := by
  constructor
  · rw [safe_iff_elements, elementsSafe_iff]
    intro h
    have hok := h (fileSource "-1") List.mem_cons_self rfl
    exact absurd (hok.nonneg (-1) (by decide)) (by decide)
  · rw [safe_iff_elements, elementsSafe_iff]
    intro h
    have hok := h (fileSource "0") List.mem_cons_self rfl
    exact absurd ((hok.file (by decide) (by decide)).2 0 (by decide)) (by decide)

end Net.CommandParser
