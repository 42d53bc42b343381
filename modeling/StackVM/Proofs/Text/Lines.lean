import Mathlib.Data.List.Basic
import StackVM.Proofs.Text.Words

/-!
# Lines of text

A text is read line by line. Main statement: lines without newlines of their own that are written one after
the other are read back (`lines_join`). Words and numbers have none (`Words.oneLine`).
-/

namespace StackVM

namespace Text

/-- What stands before each newline of a text, and what stands after the last one unless that is nothing. -/
def lines (text : String) : List String :=
  let pieces := (text.toList.splitOn '\n').map String.ofList
  if pieces.getLast? = some "" then pieces.dropLast else pieces

/-- The text has no newline. -/
def OneLine (text : String) : Prop := '\n' ∉ text.toList

instance (text : String) : Decidable (OneLine text) := inferInstanceAs (Decidable ('\n' ∉ text.toList))

variable {s t : String}

theorem OneLine.append (first : OneLine s) (second : OneLine t) : OneLine (s ++ t) := by
  rw [OneLine, String.toList_append, List.mem_append, not_or]
  exact ⟨first, second⟩

theorem Words.oneLine (words : Words s) : OneLine s := words.not_mem (by decide)

/-! ### Reading lines back -/

theorem splitOn_lines {texts : List (List Char)} (each : ∀ text ∈ texts, '\n' ∉ text) :
    (texts.flatMap (· ++ ['\n'])).splitOn '\n' = texts ++ [[]] := by
  induction texts with
  | nil => rfl
  | cons text texts ih =>
    obtain ⟨first, each⟩ := List.forall_mem_cons.1 each
    rw [List.flatMap_cons, List.append_assoc, List.singleton_append, List.splitOn_append_cons_self,
      List.splitOn_eq_singleton first, ih each]
    rfl

theorem lines_join {texts : List String} (each : ∀ text ∈ texts, OneLine text) :
    lines (String.join (texts.map (· ++ "\n"))) = texts := by
  have chars : (String.join (texts.map (· ++ "\n"))).toList =
      (texts.map String.toList).flatMap (· ++ ['\n']) := by
    rw [String.toList_join, List.flatMap_map, List.flatMap_map]
    refine List.flatMap_congr fun text _ => ?_
    rw [String.toList_append]
    rfl
  have pieces : ((String.join (texts.map (· ++ "\n"))).toList.splitOn '\n').map String.ofList =
      texts ++ [""] := by
    rw [chars, splitOn_lines (List.forall_mem_map.2 each), List.map_append, List.map_map]
    congr 1
    exact List.map_id'' (fun text => String.ofList_toList) texts
  simp only [lines, pieces]
  simp

end Text

end StackVM
