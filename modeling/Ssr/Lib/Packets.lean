import Mathlib.Data.List.Infix

/-!
# Packets with a terminator

A stream of packets, each of which has the terminator `t` behind it. Packets that do not contain the
terminator can be taken from the stream again (`takePacket`), and they are determined by it, also if
only the beginning of the stream is known (`packets_prefix`).
-/

set_option autoImplicit false

namespace Lib

variable {α : Type*} {t : α}

def joinPackets (t : α) (ps : List (List α)) : List α := (ps.map (· ++ [t])).flatten

@[simp] theorem joinPackets_nil : joinPackets t [] = [] := rfl

theorem joinPackets_cons (p : List α) (ps : List (List α)) :
    joinPackets t (p :: ps) = p ++ t :: joinPackets t ps := by
  simp [joinPackets]

theorem joinPackets_concat (ps : List (List α)) (p : List α) :
    joinPackets t (ps ++ [p]) = joinPackets t ps ++ (p ++ [t]) := by
  simp [joinPackets]

/-! ## The first packet -/

section
variable [DecidableEq α]

/-- The first packet of a stream, and what is behind its terminator. -/
def takePacket (t : α) : List α → Option (List α × List α)
  | [] => none
  | x :: xs =>
    if x = t then some ([], xs) else (takePacket t xs).map fun (p, rest) => (x :: p, rest)

theorem takePacket_eq_some {xs p rest : List α} (h : takePacket t xs = some (p, rest)) :
    t ∉ p ∧ xs = p ++ t :: rest := by
  induction xs generalizing p with
  | nil => cases h
  | cons x xs ih =>
    rw [takePacket] at h
    by_cases hx : x = t
    · rw [if_pos hx] at h
      cases h
      exact ⟨List.not_mem_nil, by rw [hx, List.nil_append]⟩
    · rw [if_neg hx, Option.map_eq_some_iff] at h
      obtain ⟨⟨q, rest'⟩, hq, heq⟩ := h
      cases heq
      obtain ⟨hnot, rfl⟩ := ih hq
      refine ⟨fun hmem => ?_, rfl⟩
      rcases List.mem_cons.1 hmem with rfl | hmem
      · exact hx rfl
      · exact hnot hmem

end

/-! ## The packets of a stream -/

theorem prefix_packet {p q xs ys : List α} (hp : t ∉ p) (hq : t ∉ q)
    (h : q ++ t :: ys <+: p ++ t :: xs) : q = p ∧ ys <+: xs := by
  induction p generalizing q with
  | nil =>
    cases q with
    | nil => exact ⟨rfl, (List.cons_prefix_cons.1 h).2⟩
    | cons y q => exact absurd ((List.cons_prefix_cons.1 h).1 ▸ List.mem_cons_self) hq
  | cons x p ih =>
    cases q with
    | nil => exact absurd ((List.cons_prefix_cons.1 h).1 ▸ List.mem_cons_self) hp
    | cons y q =>
      obtain ⟨rfl, hrest⟩ := List.cons_prefix_cons.1 h
      obtain ⟨rfl, hxs⟩ := ih (List.not_mem_of_not_mem_cons hp) (List.not_mem_of_not_mem_cons hq)
        hrest
      exact ⟨rfl, hxs⟩

/-- **The beginning of a stream** contains the first packets. -/
theorem packets_prefix {ps qs : List (List α)} {ys : List α} (hp : ∀ p ∈ ps, t ∉ p)
    (hq : ∀ q ∈ qs, t ∉ q) (h : joinPackets t qs ++ ys <+: joinPackets t ps) :
    ∃ rest, ps = qs ++ rest ∧ ys <+: joinPackets t rest := by
  induction qs generalizing ps with
  | nil => exact ⟨ps, rfl, h⟩
  | cons q qs ih =>
    rw [joinPackets_cons, List.append_assoc, List.cons_append] at h
    cases ps with
    | nil =>
      have hempty := List.prefix_nil.1 h
      simp at hempty
    | cons p ps =>
      rw [joinPackets_cons] at h
      obtain ⟨rfl, hrest⟩ :=
        prefix_packet (hp p List.mem_cons_self) (hq q List.mem_cons_self) h
      obtain ⟨rest, rfl, hys⟩ := ih (fun p hmem => hp p (List.mem_cons_of_mem _ hmem))
        (fun q hmem => hq q (List.mem_cons_of_mem _ hmem)) hrest
      exact ⟨rest, rfl, hys⟩

/-- **The whole stream** contains all packets. -/
theorem packets_unique {ps qs : List (List α)} {ys : List α} (hp : ∀ p ∈ ps, t ∉ p)
    (hq : ∀ q ∈ qs, t ∉ q) (hys : t ∉ ys) (h : joinPackets t qs ++ ys = joinPackets t ps) :
    qs = ps ∧ ys = [] := by
  obtain ⟨rest, rfl, -⟩ := packets_prefix hp hq ⟨[], (List.append_nil _).trans h⟩
  have hrest : ys = joinPackets t rest := by
    have hsplit : joinPackets t (qs ++ rest) = joinPackets t qs ++ joinPackets t rest := by
      simp [joinPackets]
    rw [hsplit] at h
    exact List.append_cancel_left h
  cases rest with
  | nil => exact ⟨(List.append_nil qs).symm, hrest⟩
  | cons p rest =>
    rw [hrest, joinPackets_cons] at hys
    exact absurd (List.mem_append_right p List.mem_cons_self) hys

end Lib
