import Mathlib.Data.List.Basic
import StackVM.Proofs.Text.Words

/-!
# Escape sequences in a text

A terminal takes an escape character, a bracket, parameters and an `m` as an order to change the style.
Main statement: no sequence goes on past a character that stands in none (`stripChars_append_cons`). So a text
that ends in such a character is closed: it can be stripped apart from what comes next. A text without escape
characters is closed as well, and stripping leaves it as it is (`Free.strip_eq`).
-/

namespace StackVM

namespace Text

def escape : Char := '\x1b'

/-- A character of the parameters of an escape sequence. -/
def isParameter (c : Char) : Bool := c.isDigit || c == ';'

/-- What comes after an escape sequence whose first character has been read, if the rest of it is there. -/
def afterSequence? : List Char → Option (List Char)
  | '[' :: cs =>
    match cs.dropWhile isParameter with
    | 'm' :: rest => some rest
    | _ => none
  | _ => none

theorem length_of_afterSequence? {cs rest : List Char} (found : afterSequence? cs = some rest) :
    rest.length < cs.length := by
  unfold afterSequence? at found
  split at found
  · next cs =>
    have shorter := (List.dropWhile_sublist isParameter (l := cs)).length_le
    split at found
    · next dropped =>
      cases found
      rw [dropped, List.length_cons] at shorter
      rw [List.length_cons]
      omega
    · cases found
  · cases found

/-- The characters that are left when all escape sequences are deleted. -/
def stripChars : List Char → List Char
  | [] => []
  | c :: cs =>
    if c = escape then
      match _found : afterSequence? cs with
      | some rest => stripChars rest
      | none => c :: stripChars cs
    else c :: stripChars cs
termination_by cs => cs.length
decreasing_by
  · exact Nat.lt_succ_of_lt (length_of_afterSequence? _found)
  · exact Nat.lt_succ_self _
  · exact Nat.lt_succ_self _

/-- The text without its escape sequences. -/
def strip (text : String) : String := String.ofList (stripChars text.toList)

/-! ### Where sequences end -/

variable {c : Char} {cs rest : List Char} {s t : String}

/-- The character stands in no escape sequence. -/
def Outside (c : Char) : Prop := c ≠ escape ∧ c ≠ '[' ∧ isParameter c = false ∧ c ≠ 'm'

instance (c : Char) : Decidable (Outside c) :=
  inferInstanceAs (Decidable (c ≠ escape ∧ c ≠ '[' ∧ isParameter c = false ∧ c ≠ 'm'))

theorem stripChars_cons (plain : c ≠ escape) : stripChars (c :: cs) = c :: stripChars cs := by
  rw [stripChars, if_neg plain]

theorem stripChars_escape (cs : List Char) :
    stripChars (escape :: cs) = (afterSequence? cs).elim (escape :: stripChars cs) stripChars := by
  rw [stripChars, if_pos rfl]
  split
  · next rest found => rw [found, Option.elim_some]
  · next missing => rw [missing, Option.elim_none]

theorem dropWhile_append_outside (outside : Outside c) :
    (cs ++ c :: rest).dropWhile isParameter = cs.dropWhile isParameter ++ c :: rest := by
  have stop : (c :: rest).dropWhile isParameter = c :: rest :=
    List.dropWhile_cons_of_neg (by simp [outside.2.2.1])
  rw [List.dropWhile_append, stop]
  split
  · next empty => rw [List.isEmpty_iff.1 empty, List.nil_append]
  · rfl

theorem afterSequence?_append_cons (outside : Outside c) :
    afterSequence? (cs ++ c :: rest) = (afterSequence? cs).map (· ++ c :: rest) := by
  obtain ⟨-, bracket, -, final⟩ := id outside
  -- a character that is found first and is not the one outside was there before
  have first {x : Char} {ys zs : List Char} (other : c ≠ x) (same : ys ++ c :: rest = x :: zs) :
      ∃ ys', ys = x :: ys' := by
    rcases List.append_eq_cons_iff.1 same with ⟨-, same⟩ | ⟨ys', same, -⟩
    · exact absurd (List.cons.inj same).1 other
    · exact ⟨ys', same⟩
  fun_cases afterSequence? cs with
  | case1 cs after dropped =>
    rw [List.cons_append, afterSequence?, dropWhile_append_outside outside, dropped]
    rfl
  | case2 cs other =>
    rw [List.cons_append, afterSequence?, dropWhile_append_outside outside]
    split
    · next same =>
      obtain ⟨after, dropped⟩ := first final same
      exact (other after dropped).elim
    · rfl
  | case3 cs other =>
    unfold afterSequence?
    split
    · next same =>
      obtain ⟨after, same⟩ := first bracket same
      exact (other after same).elim
    · rfl

/-- What follows a character that stands in no sequence has no part in those before it. -/
theorem stripChars_append_cons (outside : Outside c) :
    stripChars (cs ++ c :: rest) = stripChars cs ++ c :: stripChars rest := by
  fun_induction stripChars cs with
  | case1 => exact stripChars_cons outside.1
  | case2 cs after found ih =>
    rw [List.cons_append, stripChars_escape, afterSequence?_append_cons outside, found]
    exact ih
  | case3 cs missing ih =>
    rw [List.cons_append, stripChars_escape, afterSequence?_append_cons outside, missing]
    exact congrArg (escape :: ·) ih
  | case4 x cs plain ih => rw [List.cons_append, stripChars_cons plain, ih, List.cons_append]

/-! ### Stripping a text apart from what comes next -/

theorem strip_empty : strip "" = "" := by decide +kernel

theorem toList_strip (text : String) : (strip text).toList = stripChars text.toList := by
  rw [strip, String.toList_ofList]

/-- A text can be cut, with regard to its escape sequences, before a character that stands in none. -/
theorem strip_append_of_outside (outside : Outside c) (first : t.toList.head? = some c) :
    strip (s ++ t) = strip s ++ strip t := by
  obtain ⟨rest, chars⟩ := List.head?_eq_some_iff.1 first
  rw [← String.toList_inj, String.toList_append, toList_strip, toList_strip, toList_strip,
    String.toList_append, chars, stripChars_append_cons outside, stripChars_cons outside.1]

/-- An escape sequence leaves nothing. -/
theorem strip_sequence {parameters : String} (each : parameters.toList.all isParameter = true) (rest : String) :
    strip ("\x1b[" ++ parameters ++ "m" ++ rest) = strip rest := by
  have after : afterSequence? ('[' :: (parameters.toList ++ 'm' :: rest.toList)) = some rest.toList := by
    rw [afterSequence?, List.dropWhile_append_of_pos (List.all_eq_true.1 each),
      List.dropWhile_cons_of_neg (by decide)]
    rfl
  have chars : ("\x1b[" ++ parameters ++ "m" ++ rest).toList =
      escape :: '[' :: (parameters.toList ++ 'm' :: rest.toList) := by
    simp [escape]
  rw [strip, chars, stripChars_escape, after, Option.elim_some, strip]

/-- The text has no escape character. -/
def Bare (text : String) : Prop := escape ∉ text.toList

instance (text : String) : Decidable (Bare text) := inferInstanceAs (Decidable (escape ∉ text.toList))

theorem Words.bare (words : Words s) : Bare s := words.not_mem (by decide)

theorem Bare.append (first : Bare s) (second : Bare t) : Bare (s ++ t) := by
  rw [Bare, String.toList_append, List.mem_append, not_or]
  exact ⟨first, second⟩

theorem stripChars_append_of_not_mem (bare : escape ∉ cs) : stripChars (cs ++ rest) = cs ++ stripChars rest := by
  induction cs with
  | nil => rfl
  | cons c cs ih =>
    obtain ⟨plain, bare⟩ := not_or.1 (mt List.mem_cons.2 bare)
    rw [List.cons_append, stripChars_cons (Ne.symm plain), ih bare, List.cons_append]

theorem Bare.strip_append (bare : Bare s) (rest : String) : strip (s ++ rest) = s ++ strip rest := by
  rw [← String.toList_inj, String.toList_append, toList_strip, toList_strip, String.toList_append,
    stripChars_append_of_not_mem bare]

theorem Bare.strip_eq (bare : Bare s) : strip s = s := by
  have alone := bare.strip_append ""
  rwa [String.append_empty, strip_empty, String.append_empty] at alone

/-- No escape sequence that begins in the text goes on after it. -/
def Closed (text : String) : Prop := ∀ rest, strip (text ++ rest) = strip text ++ strip rest

theorem Bare.closed (bare : Bare s) : Closed s := by
  intro rest
  rw [bare.strip_append, bare.strip_eq]

example : strip "\x1b[1;31merror\x1b[0m: \x1b[1m" = "error: " := by decide +kernel

end Text

end StackVM
