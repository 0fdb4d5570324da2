import Mathlib.Data.List.TakeWhile
import Mathlib.Data.List.Nodup
import Mathlib.Data.List.Perm.Basic
import Mathlib.Logic.Function.Basic

/-!
# Linked lists and their iterators

`StdLists L ν` are the `std::list`s of a program. The nodes `ν` are distinct objects, so that an
iterator is a node, or the end of one of the lists, and stays valid when its node is spliced into
another list. An operation is `none` where the behaviour of the program is undefined: where an
iterator does not belong to the list that it is used with.
-/

set_option autoImplicit false

namespace Lib

variable {L ν : Type}

structure StdLists (L ν : Type) where
  nodes : L → List ν
  nodup : ∀ l, (nodes l).Nodup
  disjoint : ∀ l l', l ≠ l' → (nodes l).Disjoint (nodes l')

inductive Iterator (L ν : Type)
  | node (n : ν)
  | endOf (l : L)

namespace StdLists

variable (s : StdLists L ν) (l : L)

def begin : Iterator L ν :=
  match s.nodes l with
  | [] => .endOf l
  | n :: _ => .node n

variable [DecidableEq L] {l}

/-! ## Moving nodes from list to list -/

section Move
variable {s} {x : L} {before after xbefore range xafter : List ν}

/-- The nodes after `range` has moved from the list `x` to the list `l`. -/
def movedNodes (nodes : L → List ν) (l x : L) (before after xbefore range xafter : List ν) :
    L → List ν :=
  Function.update (Function.update nodes l (before ++ range ++ after)) x (xbefore ++ xafter)

theorem movedNodes_from (nodes : L → List ν) :
    movedNodes nodes l x before after xbefore range xafter x = xbefore ++ xafter :=
  Function.update_self ..

theorem movedNodes_to (nodes : L → List ν) (hne : l ≠ x) :
    movedNodes nodes l x before after xbefore range xafter l = before ++ range ++ after := by
  rw [movedNodes, Function.update_of_ne hne, Function.update_self]

theorem movedNodes_of_ne (nodes : L → List ν) {k : L} (hl : k ≠ l) (hx : k ≠ x) :
    movedNodes nodes l x before after xbefore range xafter k = nodes k := by
  rw [movedNodes, Function.update_of_ne hx, Function.update_of_ne hl]

/-- A node has moved or it is where it was. -/
theorem mem_movedNodes (hne : l ≠ x) (hl : s.nodes l = before ++ after)
    (hx : s.nodes x = xbefore ++ (range ++ xafter)) {k : L} {n : ν}
    (hn : n ∈ movedNodes s.nodes l x before after xbefore range xafter k) :
    (n ∈ range ∧ k = l) ∨ (n ∉ range ∧ n ∈ s.nodes k) := by
  have hxnodup := s.nodup x
  rw [hx] at hxnodup
  have hrange : ∀ {m}, m ∈ range → m ∈ s.nodes x := by
    intro m hm
    rw [hx]
    simp [hm]
  by_cases hkx : k = x
  · subst hkx
    rw [movedNodes_from, List.mem_append] at hn
    obtain ⟨-, hrest, hfront⟩ := List.nodup_append'.1 hxnodup
    obtain ⟨-, -, hback⟩ := List.nodup_append'.1 hrest
    refine .inr ⟨fun hr => ?_, ?_⟩
    · rcases hn with hn | hn
      · exact hfront hn (List.mem_append_left _ hr)
      · exact hback hr hn
    · rw [hx]
      rcases hn with hn | hn <;> simp [hn]
  · by_cases hkl : k = l
    · subst hkl
      rw [movedNodes_to s.nodes hne] at hn
      by_cases hr : n ∈ range
      · exact .inl ⟨hr, rfl⟩
      · refine .inr ⟨hr, ?_⟩
        rw [hl]
        simpa [hr] using hn
    · rw [movedNodes_of_ne s.nodes hkl hkx] at hn
      exact .inr ⟨fun hr => s.disjoint k x hkx hn (hrange hr), hn⟩

theorem nodup_movedNodes (hne : l ≠ x) (hl : s.nodes l = before ++ after)
    (hx : s.nodes x = xbefore ++ (range ++ xafter)) (k : L) :
    (movedNodes s.nodes l x before after xbefore range xafter k).Nodup := by
  have hlnodup := s.nodup l
  have hxnodup := s.nodup x
  have hdisjoint := s.disjoint l x hne
  rw [hl] at hlnodup hdisjoint
  rw [hx] at hxnodup hdisjoint
  by_cases hkx : k = x
  · subst hkx
    rw [movedNodes_from]
    exact hxnodup.sublist ((List.sublist_append_right _ _).append_left _)
  · by_cases hkl : k = l
    · subst hkl
      have hperm : (before ++ range ++ after).Perm (before ++ after ++ range) := by
        rw [List.append_assoc, List.append_assoc]
        exact List.perm_append_comm.append_left _
      have hrange : range.Nodup := (List.nodup_append'.1 (List.nodup_append'.1 hxnodup).2.1).1
      rw [movedNodes_to s.nodes hne, hperm.nodup_iff]
      exact List.nodup_append'.2 ⟨hlnodup, hrange, fun n hn hr => hdisjoint hn (by simp [hr])⟩
    · rw [movedNodes_of_ne s.nodes hkl hkx]
      exact s.nodup k

/-- The nodes `range` of the list `x` move to the list `l`. -/
def move (s : StdLists L ν) (hne : l ≠ x) (hl : s.nodes l = before ++ after)
    (hx : s.nodes x = xbefore ++ (range ++ xafter)) : StdLists L ν :=
  { nodes := movedNodes s.nodes l x before after xbefore range xafter
    nodup := nodup_movedNodes hne hl hx
    disjoint := by
      intro k k' hkk n hn hn'
      rcases mem_movedNodes hne hl hx hn with ⟨hr, rfl⟩ | ⟨hr, hold⟩
      · rcases mem_movedNodes hne hl hx hn' with ⟨-, rfl⟩ | ⟨hr', -⟩
        · exact hkk rfl
        · exact hr' hr
      · rcases mem_movedNodes hne hl hx hn' with ⟨hr', -⟩ | ⟨-, hold'⟩
        · exact hr hr'
        · exact s.disjoint k k' hkk hold hold' }

end Move

/-! ## `splice()` -/

variable [DecidableEq ν]

/-- The nodes of a part of the list `l` before an iterator and from it on. -/
def splitNodes (l : L) (nodes : List ν) : Iterator L ν → Option (List ν × List ν)
  | .node n => if n ∈ nodes then some (nodes.takeWhile (· ≠ n), nodes.dropWhile (· ≠ n)) else none
  | .endOf l' => if l' = l then some (nodes, []) else none

theorem splitNodes_append {l : L} {nodes before after : List ν} {it : Iterator L ν}
    (h : splitNodes l nodes it = some (before, after)) : nodes = before ++ after := by
  cases it with
  | node n =>
    simp only [splitNodes] at h
    split at h
    · cases h
      exact List.takeWhile_append_dropWhile.symm
    · cases h
  | endOf l' =>
    simp only [splitNodes] at h
    split at h
    · cases h
      exact (List.append_nil _).symm
    · cases h

theorem splitNodes_endOf (l : L) (nodes : List ν) :
    splitNodes l nodes (.endOf l) = some (nodes, []) := if_pos rfl

/-- The iterator at the node after `before`. -/
theorem splitNodes_node {l : L} {before after : List ν} {n : ν} (h : n ∉ before) :
    splitNodes l (before ++ n :: after) (.node n) = some (before, n :: after) := by
  have hall : ∀ m ∈ before, decide (m ≠ n) = true := by
    intro m hm
    rw [decide_eq_true_eq]
    rintro rfl
    exact h hm
  simp only [splitNodes]
  rw [if_pos (by simp), List.takeWhile_append_of_pos hall, List.dropWhile_append_of_pos hall]
  simp

/-- `l.splice(position, x)`; the list `x` must be another one. -/
def splice (l : L) (position : Iterator L ν) (x : L) : Option (StdLists L ν) :=
  if hne : l = x then none
  else match hl : splitNodes l (s.nodes l) position with
    | none => none
    | some _ =>
      some (s.move hne (splitNodes_append hl)
        (show s.nodes x = [] ++ (s.nodes x ++ []) by rw [List.append_nil, List.nil_append]))

/-- `l.splice(position, x, first, last)` for another list `x`. -/
def spliceRange (l : L) (position : Iterator L ν) (x : L) (first last : Iterator L ν) :
    Option (StdLists L ν) :=
  if hne : l = x then none
  else match hl : splitNodes l (s.nodes l) position, hx : splitNodes x (s.nodes x) first with
    | some _, some (xbefore, rest) =>
      match hrest : splitNodes x rest last with
      | none => none
      | some (range, xafter) =>
        some (s.move hne (splitNodes_append hl) (show s.nodes x = xbefore ++ (range ++ xafter) from
          splitNodes_append hrest ▸ splitNodes_append hx))
    | _, _ => none

section Specs
variable {s} {l x : L} {position first last : Iterator L ν}
variable {before after xbefore rest range xafter : List ν}

theorem splice_spec (hne : l ≠ x) (hl : splitNodes l (s.nodes l) position = some (before, after)) :
    ∃ t, s.splice l position x = some t ∧
      t.nodes = movedNodes s.nodes l x before after [] (s.nodes x) [] := by
  unfold splice
  rw [dif_neg hne]
  split
  · rename_i hnone
    rw [hl] at hnone
    cases hnone
  · rename_i hsome
    rw [hl] at hsome
    cases hsome
    exact ⟨_, rfl, rfl⟩

theorem spliceRange_spec (hne : l ≠ x)
    (hl : splitNodes l (s.nodes l) position = some (before, after))
    (hx : splitNodes x (s.nodes x) first = some (xbefore, rest))
    (hrest : splitNodes x rest last = some (range, xafter)) :
    ∃ t, s.spliceRange l position x first last = some t ∧
      t.nodes = movedNodes s.nodes l x before after xbefore range xafter := by
  unfold spliceRange
  rw [dif_neg hne]
  split
  · rename_i hl' hx'
    rw [hl] at hl'
    rw [hx] at hx'
    cases hl'
    cases hx'
    split
    · rename_i hnone
      rw [hrest] at hnone
      cases hnone
    · rename_i hsome
      rw [hrest] at hsome
      cases hsome
      exact ⟨_, rfl, rfl⟩
  · rename_i hother
    exact (hother _ _ _ hl hx).elim

theorem splitNodes_begin (s : StdLists L ν) (l : L) :
    splitNodes l (s.nodes l) (s.begin l) = some ([], s.nodes l) := by
  unfold begin
  cases s.nodes l with
  | nil => exact splitNodes_endOf l []
  | cons n nodes => exact splitNodes_node List.not_mem_nil

/-- The iterator at the first node of a list, or at its end, after other nodes have been put in front
of the list. -/
theorem splitNodes_joined (s : StdLists L ν) (hdisjoint : before.Disjoint (s.nodes l)) :
    splitNodes l (before ++ s.nodes l) (s.begin l) = some (before, s.nodes l) := by
  unfold begin
  generalize s.nodes l = nodes at hdisjoint ⊢
  cases nodes with
  | nil => rw [List.append_nil]; exact splitNodes_endOf l before
  | cons n nodes => exact splitNodes_node fun hn => hdisjoint hn List.mem_cons_self

/-- **Nodes that were put in front** of a list are taken back by a splice up to its old beginning. -/
theorem spliceRange_restores {t : StdLists L ν} (hne : l ≠ x)
    (ht : t.nodes = movedNodes s.nodes x l [] (s.nodes x) [] (s.nodes l) []) :
    ∃ u, t.spliceRange l (.endOf l) x (t.begin x) (s.begin x) = some u ∧ u.nodes = s.nodes := by
  have htl : t.nodes l = [] := by rw [ht, movedNodes_from, List.append_nil]
  have htx : t.nodes x = s.nodes l ++ s.nodes x := by rw [ht, movedNodes_to s.nodes hne.symm]; rfl
  have hfirst := splitNodes_begin t x
  have hlast := splitNodes_joined s (s.disjoint l x hne)
  rw [← htx] at hlast
  obtain ⟨u, hu, hnodes⟩ := spliceRange_spec hne (splitNodes_endOf l (t.nodes l)) hfirst hlast
  refine ⟨u, hu, ?_⟩
  rw [hnodes]
  funext k
  by_cases hkx : k = x
  · subst hkx
    rw [movedNodes_from, List.nil_append]
  · by_cases hkl : k = l
    · subst hkl
      rw [movedNodes_to t.nodes hne, htl, List.nil_append, List.append_nil]
    · rw [movedNodes_of_ne t.nodes hkl hkx, ht, movedNodes_of_ne s.nodes hkx hkl]

end Specs

end StdLists

end Lib
