import Mathlib.Data.List.Basic
import Mathlib.Tactic.Common

/-!
# Logs of lines

A log is a sequence of pieces: whole rows, each with the separator behind it, and torn parts of
rows, without one. Reading splits the log at the separators. Without torn pieces the lines are
the rows. A torn piece spoils one line, the next one that ends, and the row that it ends with.
-/
namespace DbtNova.LineLog

variable {β : Type*}

/-- The parts between separators; a separator at the end begins no further line. -/
def lines [DecidableEq β] (sep : β) : List β → List (List β)
  | [] => []
  | c :: cs =>
      if c = sep then [] :: lines sep cs
      else
        match lines sep cs with
        | [] => [[c]]
        | line :: rest => (c :: line) :: rest

inductive Piece (β : Type*) where
  | whole (row : List β)
  | torn (part : List β)
  deriving DecidableEq, Repr

namespace Piece

def body : Piece β → List β
  | .whole row => row
  | .torn part => part

def render (sep : β) : Piece β → List β
  | .whole row => row ++ [sep]
  | .torn part => part

def isTorn : Piece β → Bool
  | .whole _ => false
  | .torn _ => true

end Piece

def text (sep : β) (pieces : List (Piece β)) : List β := pieces.flatMap (Piece.render sep)

/-- The rows that were written whole. -/
def rows (pieces : List (Piece β)) : List (List β) :=
  pieces.filterMap fun piece =>
    match piece with
    | .whole row => some row
    | .torn _ => none

def tornCount (pieces : List (Piece β)) : ℕ := pieces.countP Piece.isTorn

/-- The lines, with torn text that still waits for the end of its line. -/
def linesBehind : List β → List (Piece β) → List (List β)
  | pending, [] => if pending = [] then [] else [pending]
  | pending, .torn part :: pieces => linesBehind (pending ++ part) pieces
  | pending, .whole row :: pieces => (pending ++ row) :: linesBehind [] pieces

/-- No piece has a separator in it. -/
def Separated (sep : β) (pieces : List (Piece β)) : Prop := ∀ piece ∈ pieces, sep ∉ piece.body

section Basic
variable {sep : β} {line pending row part : List β} {pieces others : List (Piece β)}

@[simp] theorem text_nil : text sep [] = [] := rfl

@[simp] theorem text_append : text sep (pieces ++ others) = text sep pieces ++ text sep others :=
  List.flatMap_append

@[simp] theorem text_whole : text sep [.whole row] = row ++ [sep] := by
  simp [text, Piece.render]

@[simp] theorem text_torn : text sep [.torn part] = part := by
  simp [text, Piece.render]

@[simp] theorem rows_append : rows (pieces ++ others) = rows pieces ++ rows others :=
  List.filterMap_append

@[simp] theorem rows_whole : rows [.whole row] = [row] := rfl

@[simp] theorem rows_torn : rows [.torn part] = [] := rfl

@[simp] theorem tornCount_append : tornCount (pieces ++ others) =
    tornCount pieces + tornCount others := List.countP_append

theorem rows_map_whole (written : List (List β)) : rows (written.map .whole) = written := by
  induction written with
  | nil => rfl
  | cons row written ih => simp [rows]

theorem tornCount_eq_zero_iff : tornCount pieces = 0 ↔ pieces = (rows pieces).map .whole := by
  induction pieces with
  | nil => simp [tornCount, rows]
  | cons piece pieces ih =>
      cases piece with
      | whole row => simpa [tornCount, rows, Piece.isTorn] using ih
      | torn part =>
          constructor
          · intro hzero
            simp [tornCount, Piece.isTorn] at hzero
          · intro hwhole
            have hmem : Piece.torn part ∈ (rows pieces).map Piece.whole := by
              rw [show rows pieces = rows (.torn part :: pieces) from rfl, ← hwhole]
              exact List.mem_cons_self
            simp at hmem

theorem Separated.tail {piece : Piece β} (h : Separated sep (piece :: pieces)) :
    Separated sep pieces := fun other hother => h other (List.mem_cons_of_mem piece hother)

theorem Separated.append (h : Separated sep pieces) (h' : Separated sep others) :
    Separated sep (pieces ++ others) := by
  intro piece hpiece
  rcases List.mem_append.mp hpiece with hleft | hright
  · exact h piece hleft
  · exact h' piece hright

/-- Without torn pieces the lines are the rows. -/
theorem linesBehind_whole (written : List (List β)) :
    linesBehind [] (written.map .whole) = written := by
  induction written with
  | nil => rfl
  | cons row written ih => simp [linesBehind, ih]

theorem linesBehind_whole_torn (written : List (List β)) {part : List β} (hpart : part ≠ []) :
    linesBehind [] (written.map .whole ++ [.torn part]) = written ++ [part] := by
  induction written with
  | nil => simp [linesBehind, hpart]
  | cons row written ih => simp [linesBehind, ih]

/-- Each torn piece costs at most one line that is no row, and at most one row. -/
theorem exists_intact (pending : List β) (pieces : List (Piece β)) :
    ∃ intact : List (List β), intact.Sublist (linesBehind pending pieces) ∧ intact.Sublist (rows pieces) ∧
      (linesBehind pending pieces).length ≤
        intact.length + tornCount pieces + (if pending = [] then 0 else 1) ∧
      (rows pieces).length ≤
        intact.length + tornCount pieces + (if pending = [] then 0 else 1) := by
  induction pieces generalizing pending with
  | nil =>
      refine ⟨[], List.nil_sublist _, List.nil_sublist _, ?_, ?_⟩
      · by_cases hpending : pending = [] <;> simp [linesBehind, hpending]
      · simp [rows]
  | cons piece pieces ih =>
      cases piece with
      | whole row =>
          have hrows : rows (.whole row :: pieces) = row :: rows pieces := rfl
          have htorn : tornCount (.whole row :: pieces) = tornCount pieces := by
            simp [tornCount, Piece.isTorn]
          obtain ⟨intact, hlines, hwritten, hfew, hlost⟩ := ih []
          simp only [if_true] at hfew hlost
          rw [linesBehind, hrows, htorn]
          by_cases hpending : pending = []
          · refine ⟨row :: intact, ?_, hwritten.cons_cons row, ?_, ?_⟩
            · rw [hpending, List.nil_append]
              exact hlines.cons_cons row
            · simp only [List.length_cons, hpending, if_true]
              omega
            · simp only [List.length_cons, hpending, if_true]
              omega
          · refine ⟨intact, hlines.cons _, hwritten.cons _, ?_, ?_⟩
            · simp only [List.length_cons, hpending, if_false]
              omega
            · simp only [List.length_cons, hpending, if_false]
              omega
      | torn part =>
          have hrows : rows (.torn part :: pieces) = rows pieces := rfl
          have htorn : tornCount (.torn part :: pieces) = tornCount pieces + 1 :=
            List.countP_cons_of_pos rfl
          obtain ⟨intact, hlines, hwritten, hfew, hlost⟩ := ih (pending ++ part)
          rw [linesBehind, hrows, htorn]
          refine ⟨intact, hlines, hwritten, ?_, ?_⟩
          · split at hfew <;> split <;> omega
          · split at hlost <;> split <;> omega

end Basic

section Lines
variable [DecidableEq β] {sep : β} {line pending : List β} {pieces : List (Piece β)}

theorem lines_cons_ne {c : β} {cs : List β} (h : c ≠ sep) :
    lines sep (c :: cs) = match lines sep cs with
      | [] => [[c]]
      | line :: rest => (c :: line) :: rest := by
  rw [lines, if_neg h]

/-- What stands before the first separator begins the first line. -/
theorem lines_behind (hline : sep ∉ line) (cs : List β) :
    lines sep (line ++ sep :: cs) = line :: lines sep cs := by
  induction line with
  | nil => simp [lines]
  | cons c line ih =>
      simp only [List.mem_cons, not_or] at hline
      rw [List.cons_append, lines_cons_ne (Ne.symm hline.1), ih hline.2]

theorem lines_of_notMem (hline : sep ∉ line) (hne : line ≠ []) : lines sep line = [line] := by
  induction line with
  | nil => exact absurd rfl hne
  | cons c line ih =>
      simp only [List.mem_cons, not_or] at hline
      rw [lines_cons_ne (Ne.symm hline.1)]
      cases line with
      | nil => rfl
      | cons d line => rw [ih hline.2 (List.cons_ne_nil d line)]

/-- Text without separators begins the first line. -/
theorem lines_append_of_notMem (hline : sep ∉ line) (hne : line ≠ []) (cs : List β) :
    lines sep (line ++ cs) = match lines sep cs with
      | [] => [line]
      | first :: rest => (line ++ first) :: rest := by
  induction line with
  | nil => exact absurd rfl hne
  | cons c line ih =>
      simp only [List.mem_cons, not_or] at hline
      rw [List.cons_append, lines_cons_ne (Ne.symm hline.1)]
      cases line with
      | nil =>
          rw [List.nil_append]
          cases lines sep cs <;> rfl
      | cons d line =>
          rw [ih hline.2 (List.cons_ne_nil d line)]
          cases lines sep cs <;> rfl

/-- Splitting the text of a log gives its lines. -/
theorem lines_text (hpending : sep ∉ pending) (h : Separated sep pieces) :
    lines sep (pending ++ text sep pieces) = linesBehind pending pieces := by
  induction pieces generalizing pending with
  | nil =>
      cases pending with
      | nil => simp [lines, linesBehind]
      | cons c pending =>
          simp [lines_of_notMem hpending (List.cons_ne_nil c pending), linesBehind]
  | cons piece pieces ih =>
      have hpiece := h piece List.mem_cons_self
      cases piece with
      | whole row =>
          have hline : sep ∉ pending ++ row := by
            simp only [List.mem_append, not_or]
            exact ⟨hpending, hpiece⟩
          have hrest := ih List.not_mem_nil h.tail
          rw [List.nil_append] at hrest
          rw [linesBehind, ← hrest]
          simp only [text, List.flatMap_cons, Piece.render]
          rw [← List.append_assoc, ← List.append_assoc, List.append_assoc, List.singleton_append,
            lines_behind hline]
      | torn part =>
          have hline : sep ∉ pending ++ part := by
            simp only [List.mem_append, not_or]
            exact ⟨hpending, hpiece⟩
          rw [linesBehind, ← ih hline h.tail]
          simp only [text, List.flatMap_cons, Piece.render, List.append_assoc]

theorem lines_whole_text (h : Separated sep pieces) :
    lines sep (text sep pieces) = linesBehind [] pieces :=
  lines_text List.not_mem_nil h

end Lines

end DbtNova.LineLog
