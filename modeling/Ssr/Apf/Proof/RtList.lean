import Ssr.Apf.RtList
import Ssr.Apf.Proof.CommandOrder
import Mathlib.Data.List.Count
import Mathlib.Data.List.Perm.Subperm

/-!
# Who owns the elements of an `RtList`

An element that has been added is in exactly one place: in the list of a command, in the actual
list, or deleted (`Owns.conserved`, which counts). A command moves elements when it is executed
(`execute_spec`, `Owns.execute`) and deletes its own when it is cleaned up (`Owns.cleanup`). That it
does so once, and that the commands come in the order of the calls, is known of the queue (`Facts`).
The results are put together in `rtList_owns`.
-/

set_option autoImplicit false

namespace Apf

open Lib

/-! ## The commands in one step of the threads -/

namespace Threads

variable {Q : Type} [Fifo Q] {t u : Threads Q} {a : Action}

theorem step_executed (h : t.step a = some u) : u.executed = t.executed ++ t.executes a := by
  cases a with
  | call c =>
    obtain ⟨-, rfl⟩ := call_cases h
    cases c <;> simp [enter, executes, spawn, goto]
  | nrt =>
    cases nrt_cases h with
    | push hstack hactive | execute hstack hactive =>
      simp [executes, hstack, hactive, execute, goto]
    | pushIn hstack | full hstack | drained hstack | cleanup hstack | waited hstack
    | again hstack | deactivate hstack | stillActive hstack | reactivate hstack =>
      simp [executes, hstack, setIn, setOut, setActive, goto]
  | rt =>
    cases h
    generalize hstep : t.rtStep = u
    cases rtStep_cases hstep with
    | begin hrt => simp [executes, hrt, goRt]
    | finish hrt hpop | execute hrt hpop => simp [executes, hrt, hpop, goRt, setIn, execute]
    | handBack hrt | lose hrt => simp [executes, hrt, goRt, setOut, lose]

theorem step_cleaned (h : t.step a = some u) : u.cleaned = t.cleaned ++ t.cleans a := by
  cases a with
  | call c =>
    obtain ⟨-, rfl⟩ := call_cases h
    cases c <;> simp [enter, cleans, spawn, goto]
  | nrt =>
    cases nrt_cases h with
    | push hstack hactive | execute hstack hactive =>
      simp [cleans, hstack, hactive, execute, goto]
    | drained hstack hpop | cleanup hstack hpop => simp [cleans, hstack, hpop, setOut, goto]
    | pushIn hstack | full hstack | waited hstack | again hstack | deactivate hstack
    | stillActive hstack | reactivate hstack =>
      simp [cleans, hstack, setIn, setActive, goto]
  | rt =>
    cases h
    have hnone : t.cleans .rt = [] := rfl
    rw [hnone, List.append_nil]
    generalize hstep : t.rtStep = u
    cases rtStep_cases hstep <;> rfl

theorem toList_cases {β : Type} (x : Option β) : x.toList = [] ∨ ∃ b, x.toList = [b] := by
  cases x with
  | none => exact .inl rfl
  | some b => exact .inr ⟨b, rfl⟩

theorem executes_cases (t : Threads Q) (a : Action) :
    t.executes a = [] ∨ ∃ cmd, t.executes a = [cmd] := by
  cases a with
  | call c => exact .inl rfl
  | nrt =>
    simp only [executes]
    split
    · split
      · exact .inl rfl
      · exact .inr ⟨_, rfl⟩
    · exact .inl rfl
  | rt =>
    simp only [executes]
    split
    · exact toList_cases _
    · exact .inl rfl

theorem cleans_cases (t : Threads Q) (a : Action) :
    t.cleans a = [] ∨ ∃ cmd, t.cleans a = [cmd] := by
  cases a with
  | call c => exact .inl rfl
  | nrt =>
    simp only [cleans]
    split
    · split
      · exact .inl rfl
      · exact .inr ⟨_, rfl⟩
    · exact toList_cases _
    · exact .inl rfl
  | rt => exact .inl rfl

omit [Fifo Q] in
theorem nextId_le_cleanup (s : Threads Q) (cmd : Command) (fs : List Frame) :
    s.nextId ≤ (s.cleanup cmd fs).nextId := by
  unfold cleanup
  cases cmd.kind with
  | query => exact Nat.le_succ _
  | plain | wait => exact le_refl _

theorem nextId_le (h : t.step a = some u) : t.nextId ≤ u.nextId := by
  cases a with
  | call c =>
    obtain ⟨-, rfl⟩ := call_cases h
    cases c <;> simp [enter, spawn, goto]
  | nrt =>
    cases nrt_cases h with
    | execute => exact (t.execute _).nextId_le_cleanup _ _
    | @cleanup fs q cmd => exact (t.setOut q).nextId_le_cleanup cmd _
    | push | pushIn | full | drained | waited | again | deactivate | stillActive | reactivate =>
      exact le_refl _
  | rt =>
    cases h
    generalize hstep : t.rtStep = u
    cases rtStep_cases hstep <;> exact le_refl _

section
variable {β : Type} {f : Command → Option β}

omit [Fifo Q] in
theorem listed_cleanup (s : Threads Q) (hf : ∀ kind, f ⟨s.nextId, kind⟩ = none) (cmd : Command)
    (fs : List Frame) : ((s.cleanup cmd fs).stack.flatMap Frame.pending).filterMap f =
      (fs.flatMap Frame.pending).filterMap f := by
  unfold cleanup
  cases cmd.kind with
  | query => simp [spawn, markCleaned, Frame.pending, hf]
  | plain | wait => rfl

/-- A step makes no new command of the list, and keeps the order of those that there are. -/
theorem step_listed (hf : ∀ kind, f ⟨t.nextId, kind⟩ = none) (h : t.step a = some u) :
    (t.pushes a ++ u.stack.flatMap Frame.pending).filterMap f =
      (t.stack.flatMap Frame.pending).filterMap f := by
  cases a with
  | call c =>
    obtain ⟨hstack, rfl⟩ := call_cases h
    cases c <;> simp [enter, pushes, spawn, goto, hstack, Frame.pending, hf]
  | nrt =>
    cases nrt_cases h with
    | push hstack hactive =>
      simp only [pushes, hstack, hactive]
      rfl
    | execute hstack hactive =>
      simp only [pushes, hstack, hactive]
      rw [List.filterMap_append, listed_cleanup (t.execute _) hf, ← List.filterMap_append]
      rfl
    | pushIn hstack hpush =>
      simp only [pushes, hstack, hpush]
      rfl
    | full hstack hpush =>
      simp only [pushes, hstack, hpush]
      rfl
    | @cleanup fs q cmd hstack =>
      simp only [pushes, hstack, List.nil_append]
      exact listed_cleanup (t.setOut q) hf cmd _
    | drained hstack | waited hstack | again hstack | deactivate hstack | stillActive hstack
    | reactivate hstack =>
      simp only [pushes, hstack, List.nil_append]
      rfl
  | rt =>
    cases h
    rw [t.rtStep_stack]
    rfl

end

end Threads

/-! ## What is known of the queue -/

open Threads

/-- The commands of a history in order: those executed, then the rest; each has its own id. -/
structure Facts (g : History (LockFreeFifo Command)) : Prop where
  order : ∃ rest, g.pushed = g.threads.executed ++ rest
  ids : ((g.pushed ++ g.threads.stack.flatMap Frame.pending).map Command.id).Perm
    (List.range g.threads.nextId)
  cleaned : ∀ cmd ∈ g.threads.cleaned, cmd ∈ g.threads.executed

theorem facts_of_reach {maxSize fuel size : ℕ} {q : CommandQueue (LockFreeFifo Command)}
    (hsize : 2 ≤ size) (hq : CommandQueue.new maxSize fuel size = some q) {g : History (LockFreeFifo Command)}
    (hg : Reach History.step History.RtStopped (History.init q) g) : Facts g := by
  obtain ⟨t, hsim, h⟩ := ordered_of_reach hsize hq hg
  obtain ⟨-, -, -, hafter⟩ := h.nodup
  have horder := h.order
  have hids := h.ids
  rw [hsim.executed] at horder hafter
  rw [hsim.cleaned] at hafter
  rw [hsim.stack, hsim.nextId] at hids
  exact ⟨⟨_, horder⟩, hids, hafter⟩

variable {g : History (LockFreeFifo Command)}

theorem Facts.executed_lt (h : Facts g) {cmd : Command} (hcmd : cmd ∈ g.threads.executed) :
    cmd.id < g.threads.nextId := by
  obtain ⟨rest, hrest⟩ := h.order
  have hmem : cmd.id ∈ (g.pushed ++ g.threads.stack.flatMap Frame.pending).map Command.id :=
    List.mem_map_of_mem (List.mem_append_left _ (hrest ▸ List.mem_append_left _ hcmd))
  exact List.mem_range.1 (h.ids.mem_iff.1 hmem)

theorem Facts.executed_nodup (h : Facts g) : (g.threads.executed.map Command.id).Nodup := by
  obtain ⟨rest, hrest⟩ := h.order
  have hall := h.ids.nodup_iff.2 List.nodup_range
  rw [hrest, List.append_assoc, List.map_append] at hall
  exact List.Nodup.of_append_left hall

/-! ## Counting -/

variable {α : Type} [DecidableEq α]

/-- How often `x` is in the lists of the commands below `n`. -/
def ownCount (own : ℕ → List α) (n : ℕ) (x : α) : ℕ :=
  ((List.range n).map fun id => (own id).count x).sum

theorem ownCount_succ (own : ℕ → List α) (n : ℕ) (x : α) :
    ownCount own (n + 1) x = ownCount own n x + (own n).count x := by
  simp [ownCount, List.range_succ]

theorem ownCount_update_of_le {own : ℕ → List α} {n id : ℕ} (h : n ≤ id) (ys : List α) (x : α) :
    ownCount (Function.update own id ys) n x = ownCount own n x := by
  induction n with
  | zero => rfl
  | succ n ih =>
    rw [ownCount_succ, ownCount_succ, ih (Nat.le_of_succ_le h),
      Function.update_of_ne (Nat.ne_of_lt h)]

theorem ownCount_update (own : ℕ → List α) {n id : ℕ} (h : id < n) (ys : List α) (x : α) :
    ownCount (Function.update own id ys) n x + (own id).count x =
      ownCount own n x + ys.count x := by
  induction n with
  | zero => exact absurd h (Nat.not_lt_zero id)
  | succ n ih =>
    rw [ownCount_succ, ownCount_succ]
    rcases Nat.lt_succ_iff_lt_or_eq.1 h with hlt | rfl
    · have := ih hlt
      rw [Function.update_of_ne (Nat.ne_of_gt hlt)]
      omega
    · rw [ownCount_update_of_le (le_refl id), Function.update_self]
      omega

theorem ownCount_eq_zero {own : ℕ → List α} (h : ∀ id, own id = []) (n : ℕ) (x : α) :
    ownCount own n x = 0 := by
  induction n with
  | zero => rfl
  | succ n ih => rw [ownCount_succ, ih, h n, List.count_nil]

theorem ownCount_mono {own : ℕ → List α} {n m : ℕ} (hnm : n ≤ m) (h : ∀ id, n ≤ id → own id = [])
    (x : α) : ownCount own m x = ownCount own n x := by
  induction m, hnm using Nat.le_induction with
  | base => rfl
  | succ m hm ih => rw [ownCount_succ, ih, h m hm, List.count_nil, Nat.add_zero]

/-! ## One command -/

namespace RtList

/-- All items are found. -/
theorem remLoop_eq {dst splice delinquents : List α} (hnodup : delinquents.Nodup)
    (hmem : ∀ x ∈ delinquents, x ∈ dst) : remLoop dst splice delinquents =
      (dst.diff delinquents, delinquents.reverse ++ splice, false) := by
  induction delinquents generalizing dst splice with
  | nil => rfl
  | cons i delinquents ih =>
    obtain ⟨hi, hnodup⟩ := List.nodup_cons.1 hnodup
    rw [remLoop, if_pos (hmem i List.mem_cons_self), ih hnodup, List.diff_cons,
      List.reverse_cons, List.append_assoc, List.singleton_append]
    intro x hx
    have hne : x ≠ i := fun he => hi (he ▸ hx)
    exact (List.mem_erase_of_ne hne).2 (hmem x (List.mem_cons_of_mem i hx))

theorem count_diff_add {dst delinquents : List α} (hnodup : delinquents.Nodup)
    (hmem : ∀ x ∈ delinquents, x ∈ dst) (x : α) :
    (dst.diff delinquents).count x + delinquents.count x = dst.count x := by
  have hle : delinquents.count x ≤ dst.count x :=
    (List.subperm_of_subset hnodup hmem).count_le x
  rw [List.count_diff]
  omega

/-- `execute()` of a new command does to the actual list what it is meant to, and the elements go
into the list of the command or come from there. -/
theorem execute_spec {l : RtList α} {id : ℕ} {c : ListCommand α} (hown : l.own id = c.initial)
    (hrem : ∀ delinquents, c = .rem delinquents → delinquents.Nodup ∧
      ∀ x ∈ delinquents, x ∈ l.theActualList) :
    ∃ ys, l.execute id c = { l with
        theActualList := c.apply l.theActualList
        own := Function.update l.own id ys } ∧
      (∀ items, c = .add items → ys = []) ∧
      ∀ x, ys.count x + (c.apply l.theActualList).count x =
        (l.own id).count x + l.theActualList.count x := by
  cases c with
  | add items =>
    refine ⟨[], ?_, fun _ _ => rfl, fun x => ?_⟩
    · rw [execute, hown]
      rfl
    · rw [hown, ListCommand.apply, ListCommand.initial, List.count_nil, List.count_append]
      omega
  | rem delinquents =>
    obtain ⟨hnodup, hmem⟩ := hrem delinquents rfl
    refine ⟨delinquents.reverse, ?_, fun _ h => (by cases h), fun x => ?_⟩
    · rw [execute, hown, remLoop_eq hnodup hmem]
      simp [ListCommand.apply, ListCommand.initial]
    · have hcount := count_diff_add hnodup hmem x
      rw [hown, ListCommand.apply, ListCommand.initial, List.count_reverse, List.count_nil]
      omega
  | clear =>
    refine ⟨l.theActualList, ?_, fun _ h => (by cases h), fun x => ?_⟩
    · rw [execute, hown]
      rfl
    · rw [hown, ListCommand.apply, ListCommand.initial, List.count_nil, Nat.add_zero,
        Nat.zero_add]

end RtList

/-! ## The calls -/

namespace RtListThreads

/-- Every call was careful when it was made. -/
def CarefulAll (called : List (ListCommand α)) : Prop :=
  ∀ pre c post, called = pre ++ c :: post → Careful pre c

theorem CarefulAll.snoc {called : List (ListCommand α)} (h : CarefulAll called) {c : ListCommand α}
    (hc : Careful called c) : CarefulAll (called ++ [c]) := by
  intro pre d post heq
  rcases List.eq_nil_or_concat post with rfl | ⟨post, e, rfl⟩
  · obtain ⟨rfl, he⟩ := List.append_inj' heq rfl
    cases he
    exact hc
  · rw [List.concat_eq_append, ← List.cons_append, ← List.append_assoc] at heq
    obtain ⟨heq, -⟩ := List.append_inj' heq rfl
    exact h pre d post heq

theorem CarefulAll.nodup {called : List (ListCommand α)} (h : CarefulAll called) :
    (added called).Nodup := by
  induction called using List.reverseRecOn with
  | nil => exact List.nodup_nil
  | append_singleton called c ih =>
    have hc := h called c [] rfl
    have ih := ih fun pre d post heq => h pre d (post ++ [c]) (by rw [heq]; simp)
    rw [added, List.flatMap_append, List.flatMap_cons, List.flatMap_nil, List.append_nil]
    cases c with
    | add items =>
      refine List.nodup_append.2 ⟨ih, hc.1, fun x hx y hy hxy => hc.2 y hy (hxy ▸ hx)⟩
    | rem | clear => rwa [ListCommand.initial, List.append_nil]

/-! ## The invariant -/

/-- The elements of the list after the commands `executed` and `cleaned`, where `n` is the next id.
-/
structure Owns (commands : ℕ → Option (ListCommand α)) (called : List (ListCommand α)) (n : ℕ)
    (executed cleaned : List Command) (l : RtList α) : Prop where
  known : ∀ id, n ≤ id → commands id = none
  waiting : ∀ id, id ∉ executed.map Command.id →
    l.own id = (commands id).elim [] ListCommand.initial
  added : ∀ cmd ∈ executed, ∀ items, commands cmd.id = some (.add items) → l.own cmd.id = []
  other : ∀ id, commands id = none → l.own id = []
  cleaned : ∀ cmd ∈ cleaned, l.own cmd.id = []
  actual : l.theActualList =
    (executed.filterMap fun cmd => commands cmd.id).foldl ListCommand.apply []
  threw : l.threw = false
  conserved : ∀ x, (RtListThreads.added called).count x =
    ownCount l.own n x + l.theActualList.count x + l.deleted.count x

variable {commands : ℕ → Option (ListCommand α)} {called : List (ListCommand α)} {n m : ℕ}
  {executed cleaned : List Command} {l : RtList α} {cmd : Command}

theorem Owns.mono (h : Owns commands called n executed cleaned l) (hnm : n ≤ m) :
    Owns commands called m executed cleaned l := by
  refine { h with known := fun id hid => h.known id (hnm.trans hid), conserved := fun x => ?_ }
  rw [h.conserved x, ownCount_mono hnm fun id hid => h.other id (h.known id hid)]

/-- A new command of the list is constructed. -/
theorem Owns.construct (h : Owns commands called n executed cleaned l)
    (hexecuted : ∀ cmd ∈ executed, cmd.id < n) (hcleaned : ∀ cmd ∈ cleaned, cmd ∈ executed)
    (c : ListCommand α) :
    Owns (Function.update commands n (some c)) (called ++ [c]) (n + 1) executed cleaned
      (l.construct n c) := by
  have hne : ∀ cmd ∈ executed, cmd.id ≠ n := fun cmd hcmd => Nat.ne_of_lt (hexecuted cmd hcmd)
  refine ⟨fun id hid => ?_, fun id hid => ?_, fun cmd hcmd items hc => ?_, fun id hc => ?_,
    fun cmd hcmd => ?_, ?_, h.threw, fun x => ?_⟩
  · rw [Function.update_of_ne (by omega)]
    exact h.known id (by omega)
  · by_cases hn : id = n
    · subst hn
      simp [RtList.construct]
    · simp only [RtList.construct, Function.update_of_ne hn]
      exact h.waiting id hid
  · simp only [RtList.construct, Function.update_of_ne (hne cmd hcmd)] at hc ⊢
    exact h.added cmd hcmd items hc
  · by_cases hn : id = n
    · subst hn
      simp at hc
    · simp only [RtList.construct, Function.update_of_ne hn] at hc ⊢
      exact h.other id hc
  · simp only [RtList.construct, Function.update_of_ne (hne cmd (hcleaned cmd hcmd))]
    exact h.cleaned cmd hcmd
  · have hsame : (executed.filterMap fun cmd => Function.update commands n (some c) cmd.id) =
        executed.filterMap fun cmd => commands cmd.id :=
      List.filterMap_congr fun cmd hcmd => Function.update_of_ne (hne cmd hcmd) _ _
    rw [hsame]
    exact h.actual
  · have hown : l.own n = [] := h.other n (h.known n (le_refl n))
    have hcount := ownCount_update l.own (Nat.lt_add_one n) c.initial x
    have hbefore := h.conserved x
    rw [ownCount_succ l.own, hown, List.count_nil, Nat.add_zero] at hcount
    rw [RtListThreads.added, List.flatMap_append, List.count_append]
    simp only [List.flatMap_cons, List.flatMap_nil, List.append_nil, RtList.construct]
    rw [RtListThreads.added] at hbefore
    omega

theorem Owns.execute (h : Owns commands called n executed cleaned l) (hn : cmd.id < n)
    (hnew : cmd.id ∉ executed.map Command.id) (hcleaned : ∀ cmd ∈ cleaned, cmd ∈ executed)
    (hcareful : ∀ c, commands cmd.id = some c →
      Careful (executed.filterMap fun cmd => commands cmd.id) c) :
    Owns commands called n (executed ++ [cmd]) cleaned (executeAll commands l [cmd]) := by
  cases hc : commands cmd.id with
  | none =>
    have hl : executeAll commands l [cmd] = l := by simp [executeAll, hc]
    rw [hl]
    refine { h with waiting := fun id hid => h.waiting id ?_, added := ?_, actual := ?_ }
    · intro hmem
      exact hid (by rw [List.map_append]; exact List.mem_append_left _ hmem)
    · intro d hd items hitems
      rcases List.mem_append.1 hd with hd | hd
      · exact h.added d hd items hitems
      · rw [List.mem_singleton.1 hd, hc] at hitems
        cases hitems
    · rw [h.actual, List.filterMap_append]
      simp [hc]
  | some c =>
    have hown : l.own cmd.id = c.initial := by rw [h.waiting cmd.id hnew, hc]; rfl
    obtain ⟨ys, hl, hadd, hcount⟩ := RtList.execute_spec hown fun delinquents hd => by
      have := hcareful c hc
      rw [hd] at this
      rw [h.actual]
      exact this
    have hl' : executeAll commands l [cmd] = l.execute cmd.id c := by simp [executeAll, hc]
    rw [hl', hl]
    have hne : ∀ d ∈ executed, d.id ≠ cmd.id := fun d hd he =>
      hnew (he ▸ List.mem_map_of_mem hd)
    refine ⟨h.known, fun id hid => ?_, fun d hd items hitems => ?_, fun id hid => ?_,
      fun d hd => ?_, ?_, h.threw, fun x => ?_⟩
    · rw [List.map_append, List.mem_append, not_or] at hid
      have hid' : id ≠ cmd.id := fun he => hid.2 (he ▸ List.mem_cons_self)
      simp only [Function.update_of_ne hid']
      exact h.waiting id hid.1
    · rcases List.mem_append.1 hd with hd | hd
      · simp only [Function.update_of_ne (hne d hd)]
        exact h.added d hd items hitems
      · rw [List.mem_singleton.1 hd] at hitems ⊢
        rw [hc] at hitems
        cases hitems
        simp only [Function.update_self]
        exact hadd items rfl
    · have hid' : id ≠ cmd.id := fun he => by rw [he, hc] at hid; cases hid
      simp only [Function.update_of_ne hid']
      exact h.other id hid
    · simp only [Function.update_of_ne (hne d (hcleaned d hd))]
      exact h.cleaned d hd
    · rw [List.filterMap_append, List.foldl_append, ← h.actual]
      simp [hc]
    · have hsum := ownCount_update l.own hn ys x
      have hx := hcount x
      have hbefore := h.conserved x
      dsimp only
      omega

theorem Owns.cleanup (h : Owns commands called n executed cleaned l) (hn : cmd.id < n)
    (hcmd : cmd ∈ executed) :
    Owns commands called n executed (cleaned ++ [cmd]) (cleanupAll commands l [cmd]) := by
  have hsnoc : ∀ {l' : RtList α}, Owns commands called n executed cleaned l' →
      l'.own cmd.id = [] → Owns commands called n executed (cleaned ++ [cmd]) l' := by
    intro l' h' hown
    refine { h' with cleaned := fun d hd => ?_ }
    rcases List.mem_append.1 hd with hd | hd
    · exact h'.cleaned d hd
    · rw [List.mem_singleton.1 hd]
      exact hown
  have hmoved : Owns commands called n executed cleaned { l with
      own := Function.update l.own cmd.id []
      deleted := l.deleted ++ l.own cmd.id } := by
    have hempty : ∀ id, l.own id = [] → Function.update l.own cmd.id [] id = [] := by
      intro id hid
      by_cases he : id = cmd.id
      · rw [he, Function.update_self]
      · rw [Function.update_of_ne he, hid]
    refine { h with
      waiting := fun id hid => ?_
      added := fun d hd items hitems => hempty _ (h.added d hd items hitems)
      other := fun id hid => hempty id (h.other id hid)
      cleaned := fun d hd => hempty _ (h.cleaned d hd)
      conserved := fun x => ?_ }
    · have hid' : id ≠ cmd.id := fun he => hid (he ▸ List.mem_map_of_mem hcmd)
      simp only [Function.update_of_ne hid']
      exact h.waiting id hid
    · have hsum := ownCount_update l.own hn [] x
      have hbefore := h.conserved x
      rw [List.count_nil] at hsum
      simp only [List.count_append]
      omega
  cases hc : commands cmd.id with
  | none =>
    have hl : cleanupAll commands l [cmd] = l := by simp [cleanupAll, hc]
    rw [hl]
    exact hsnoc h (h.other _ hc)
  | some c =>
    have hl : cleanupAll commands l [cmd] = l.cleanup cmd.id c := by simp [cleanupAll, hc]
    rw [hl]
    cases c with
    | add items => exact hsnoc h (h.added cmd hcmd items hc)
    | rem | clear => exact hsnoc hmoved (Function.update_self _ _ _)

/-! ## Runs -/

variable {s s' : RtListThreads (LockFreeFifo Command) α}

structure Inv (s : RtListThreads (LockFreeFifo Command) α) : Prop where
  owns : Owns s.commands s.called s.history.threads.nextId s.history.threads.executed
    s.history.threads.cleaned s.list
  /-- the commands have been called in the order in which they are pushed -/
  listed : s.called = (s.history.pushed ++ s.history.threads.stack.flatMap Frame.pending).filterMap
    fun cmd => s.commands cmd.id
  careful : CarefulAll s.called

theorem Inv.init (q : CommandQueue (LockFreeFifo Command)) :
    Inv (RtListThreads.init (α := α) q) := by
  refine ⟨⟨fun _ _ => rfl, fun _ _ => rfl, fun _ h => (by cases h), fun _ _ => rfl,
    fun _ h => (by cases h), rfl, rfl, fun x => ?_⟩, rfl, fun pre c post h => ?_⟩
  · rfl
  · cases pre <;> cases h

/-- What has been executed is the beginning of what has been called. -/
theorem Inv.called_eq (h : Inv s) (hg : Facts s.history) :
    ∃ rest, s.called = s.executed ++ rest := by
  obtain ⟨rest, hrest⟩ := hg.order
  rw [h.listed, hrest, List.append_assoc, List.filterMap_append]
  exact ⟨_, rfl⟩

theorem Inv.step_threads (h : Inv s) (hold : Facts s.history) {a : Threads.Action}
    {g : History (LockFreeFifo Command)} (hs : s.history.step a = some g) (hnew : Facts g) :
    Inv { s with
      history := g
      list := cleanupAll s.commands (executeAll s.commands s.list (s.history.threads.executes a))
        (s.history.threads.cleans a) } := by
  obtain ⟨u, hu, rfl⟩ := Option.map_eq_some_iff.1 hs
  have hexecuted := step_executed hu
  have hcleaned := step_cleaned hu
  have hlisted : s.called = ((s.history.pushed ++ s.history.threads.pushes a) ++
      u.stack.flatMap Frame.pending).filterMap fun cmd => s.commands cmd.id := by
    rw [h.listed, List.append_assoc, List.filterMap_append, List.filterMap_append,
      step_listed (fun kind => h.owns.known _ (le_refl _)) hu]
  have howns := h.owns.mono (nextId_le hu)
  have howns₁ : Owns s.commands s.called u.nextId u.executed s.history.threads.cleaned
      (executeAll s.commands s.list (s.history.threads.executes a)) := by
    rcases s.history.threads.executes_cases a with he | ⟨cmd, he⟩
    · rw [he] at hexecuted ⊢
      rw [hexecuted, List.append_nil]
      exact howns
    · have hids := hnew.executed_nodup
      have hmem : cmd ∈ u.executed := by simp [hexecuted, he]
      have hlt := hnew.executed_lt hmem
      obtain ⟨rest, hrest⟩ := hnew.order
      dsimp only at hrest hids
      rw [he] at hexecuted ⊢
      rw [hexecuted, List.map_append] at hids
      rw [hexecuted] at hrest ⊢
      refine howns.execute hlt (fun hmem => ?_) hold.cleaned fun c hc => ?_
      · exact (List.nodup_append.1 hids).2.2 _ hmem _ List.mem_cons_self rfl
      · refine h.careful _ c ((rest ++ u.stack.flatMap Frame.pending).filterMap fun cmd =>
          s.commands cmd.id) ?_
        rw [hlisted, hrest]
        simp [hc]
  refine ⟨?_, hlisted, h.careful⟩
  rcases s.history.threads.cleans_cases a with he | ⟨cmd, he⟩
  · rw [he] at hcleaned ⊢
    rw [hcleaned, List.append_nil]
    exact howns₁
  · have hmem := hnew.cleaned cmd (by simp [hcleaned, he])
    have hlt := hnew.executed_lt hmem
    rw [he] at hcleaned ⊢
    rw [hcleaned]
    exact howns₁.cleanup hlt hmem

theorem Inv.step_list (h : Inv s) {c : ListCommand α} (hc : Careful s.called c)
    (hold : Facts s.history) {g : History (LockFreeFifo Command)}
    (hs : s.history.step (.call (.push .plain)) = some g) :
    Inv
      { history := g
        list := s.list.construct s.history.threads.nextId c
        commands := Function.update s.commands s.history.threads.nextId (some c)
        called := s.called ++ [c] } := by
  obtain ⟨u, hu, rfl⟩ := Option.map_eq_some_iff.1 hs
  obtain ⟨hstack, rfl⟩ := call_cases hu
  refine ⟨h.owns.construct (fun _ hcmd => hold.executed_lt hcmd) hold.cleaned c, ?_,
    h.careful.snoc hc⟩
  have hlt : ∀ cmd ∈ s.history.pushed, cmd.id ≠ s.history.threads.nextId := by
    intro cmd hcmd
    have hmem := hold.ids.mem_iff.1 (List.mem_map_of_mem (List.mem_append_left _ hcmd))
    exact Nat.ne_of_lt (List.mem_range.1 hmem)
  have hcalled := h.listed
  rw [hstack, List.flatMap_nil, List.append_nil] at hcalled
  rw [hcalled]
  simp only [enter, spawn, pushes, List.append_nil, List.flatMap_cons, List.flatMap_nil,
    Frame.pending, List.filterMap_append]
  congr 1
  · exact List.filterMap_congr fun cmd hcmd => (Function.update_of_ne (hlt cmd hcmd) _ _).symm
  · simp

theorem Inv.step (h : Inv s) {a : Action α} (hold : Facts s.history) (hnew : Facts s'.history)
    (ha : s.Allowed a) (hs : s.step a = some s') : Inv s' := by
  cases a with
  | list c =>
    obtain ⟨g, hg, rfl⟩ := Option.map_eq_some_iff.1 hs
    exact h.step_list (ha.2 c rfl) hold hg
  | threads a =>
    obtain ⟨g, hg, rfl⟩ := Option.map_eq_some_iff.1 hs
    exact h.step_threads hold hg hnew

theorem step_history {a : Action α} (hs : s.step a = some s') :
    s.history.step a.ofThreads = some s'.history := by
  cases a <;> (obtain ⟨g, hg, rfl⟩ := Option.map_eq_some_iff.1 hs; exact hg)

theorem reach_history {q : CommandQueue (LockFreeFifo Command)}
    (hs : Reach step Allowed (RtListThreads.init (α := α) q) s) :
    Reach History.step History.RtStopped (History.init q) s.history := by
  induction hs with
  | refl => exact .refl
  | tail _ ha hs ih => exact .tail ih ha.1 (step_history hs)

theorem inv_of_reach {maxSize fuel size : ℕ} {q : CommandQueue (LockFreeFifo Command)}
    (hsize : 2 ≤ size) (hq : CommandQueue.new maxSize fuel size = some q)
    (hs : Reach step Allowed (RtListThreads.init (α := α) q) s) : Inv s := by
  induction hs with
  | refl => exact .init q
  | tail hr ha hs ih =>
    exact ih.step (facts_of_reach hsize hq (reach_history hr))
      (facts_of_reach hsize hq (reach_history (hr.tail ha hs))) ha hs

/-- **Every element has one owner.** In every reachable state the actual list is what the executed
commands, the first ones called, make of the empty list; no `execute()` has thrown; what has been
deleted has been deleted once and is not in the list; and if all commands are through, then the
destructor of the list leaves every element that was added deleted once. -/
theorem rtList_owns {maxSize fuel size : ℕ} {q : CommandQueue (LockFreeFifo Command)}
    (hsize : 2 ≤ size) (hq : CommandQueue.new maxSize fuel size = some q)
    (hs : Reach step Allowed (RtListThreads.init (α := α) q) s) :
    s.executed <+: s.called ∧ s.list.theActualList = s.executed.foldl ListCommand.apply [] ∧
      s.list.threw = false ∧ s.list.deleted.Nodup ∧
      (∀ x ∈ s.list.deleted, x ∉ s.list.theActualList) ∧
      (s.Finished → (added s.called).Nodup ∧
        s.list.destroy.deleted.Perm (added s.called)) := by
  have h := inv_of_reach hsize hq hs
  have hg := facts_of_reach hsize hq (reach_history hs)
  obtain ⟨rest, hrest⟩ := h.called_eq hg
  have hnodup := h.careful.nodup
  have hcount : ∀ x, s.list.theActualList.count x + s.list.deleted.count x ≤ 1 := fun x => by
    have hone := List.nodup_iff_count_le_one.1 hnodup x
    have hsum := h.owns.conserved x
    omega
  refine ⟨⟨rest, hrest.symm⟩, h.owns.actual, h.owns.threw,
    List.nodup_iff_count_le_one.2 fun x => ?_, fun x hx hx' => ?_, fun hfinished => ⟨hnodup, ?_⟩⟩
  · have := hcount x
    omega
  · have hpos := List.count_pos_iff.2 hx
    have hpos' := List.count_pos_iff.2 hx'
    have := hcount x
    omega
  · have hempty : ∀ id, s.list.own id = [] := fun id => by
      cases hc : s.commands id with
      | none => exact h.owns.other id hc
      | some c =>
        obtain ⟨cmd, hcmd, -, rfl⟩ := hfinished id c hc
        exact h.owns.cleaned cmd hcmd
    rw [List.perm_iff_count]
    intro x
    have hsum := h.owns.conserved x
    rw [ownCount_eq_zero hempty] at hsum
    rw [RtList.destroy, List.count_append]
    omega

/-- Two elements are added and one of them is removed; another one is added, and then all commands
are cleaned up. -/
def addAndRemove : List (Action ℕ) :=
  [.list (.add [1, 2]), .threads .nrt, .threads .nrt, .threads .nrt,
    .threads .rt, .threads .rt, .threads .rt, .threads .rt,
    .list (.rem [1]), .threads .nrt, .threads .nrt, .threads .nrt, .threads .nrt,
    .threads .rt, .threads .rt, .threads .rt, .threads .rt,
    .list (.add [3]), .threads .nrt, .threads .nrt, .threads .nrt, .threads .nrt,
    .threads .rt, .threads .rt, .threads .rt, .threads .rt,
    .threads (.call .cleanupCommands), .threads .nrt, .threads .nrt]

theorem run_addAndRemove :
    let q : CommandQueue (LockFreeFifo Command) :=
      ⟨⟨0, 0, 2, 1, [none, none]⟩, ⟨0, 0, 2, 1, [none, none]⟩, true⟩
    AllSteps step Allowed (RtListThreads.init q) addAndRemove ∧
      (run step (RtListThreads.init q) addAndRemove).map
        (fun s => (s.history.threads.nextId, s.history.threads.cleaned,
          s.history.threads.executed)) =
          some (3, [⟨0, .plain⟩, ⟨1, .plain⟩, ⟨2, .plain⟩],
            [⟨0, .plain⟩, ⟨1, .plain⟩, ⟨2, .plain⟩]) ∧
      (run step (RtListThreads.init q) addAndRemove).map
        (fun s => (s.executed, s.called, s.list.theActualList, s.list.deleted)) =
          some ([.add [1, 2], .rem [1], .add [3]], [.add [1, 2], .rem [1], .add [3]],
            [2, 3], [1]) := by
  refine ⟨?_, ?_, ?_⟩ <;> decide +kernel

theorem rtList_owns_two : ∃ q s, CommandQueue.new (2 ^ 60 - 1) 64 2 = some q ∧
    run step (RtListThreads.init (α := ℕ) q) addAndRemove = some s ∧
    s.executed = [.add [1, 2], .rem [1], .add [3]] ∧ s.list.theActualList = [2, 3] ∧
    s.list.deleted = [1] ∧ s.list.theActualList = s.executed.foldl ListCommand.apply [] ∧
    s.Finished ∧ s.list.destroy.deleted.Perm [1, 2, 3] := by
  obtain ⟨q, hq⟩ : ∃ q, CommandQueue.new (2 ^ 60 - 1) 64 2 = some q := ⟨_, rfl⟩
  have howns := fun s hs => rtList_owns (α := ℕ) (s := s) (by decide) hq hs
  have hinv := fun s hs => inv_of_reach (α := ℕ) (s := s) (by decide) hq hs
  refine ⟨q, ?_⟩
  cases hq
  obtain ⟨hallowed, hthreads, hlists⟩ := run_addAndRemove
  obtain ⟨s, hs, heq⟩ := Option.map_eq_some_iff.1 hthreads
  rw [hs, Option.map_some] at hlists
  simp only [Prod.mk.injEq, Option.some.injEq] at heq hlists
  obtain ⟨hnext, hcleaned, hthreads⟩ := heq
  obtain ⟨hexecuted, hcalled, hactual, hdeleted⟩ := hlists
  have hreach : Reach step Allowed (RtListThreads.init _) s := .of_allSteps hs hallowed
  obtain ⟨-, hlist, -, -, -, hend⟩ := howns s hreach
  have hfinished : s.Finished := by
    intro id c hc
    have hlt : id < 3 := by
      by_contra hge
      rw [(hinv s hreach).owns.known id (by omega)] at hc
      cases hc
    rw [hcleaned, hthreads]
    match id with
    | 0 | 1 | 2 => simp
  rw [hcalled] at hend
  exact ⟨s, rfl, hs, hexecuted, hactual, hdeleted, hlist, hfinished, (hend hfinished).2⟩

end RtListThreads

end Apf
