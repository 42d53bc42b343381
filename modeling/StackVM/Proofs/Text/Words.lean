import StackVM.Float.Text

/-!
# Words and numbers

The class of the characters that names and numbers are written with: letters and digits, and the marks
between them. It has no brackets, no newline and no other control character. Main statements: a number is
written with it, whether with all its digits (`words_nat`, `words_int`) or in either style of floating-point
numbers (`words_write`).
-/

namespace StackVM

namespace Text

/-- Letters, digits, and the marks within names and numbers and between them. -/
def isWordChar (c : Char) : Bool := c.isAlphanum || c ∈ [' ', '.', '_', '-']

/-- The text is made of words and numbers. -/
def Words (text : String) : Prop := ∀ c ∈ text.toList, isWordChar c = true

instance (text : String) : Decidable (Words text) := List.decidableBAll (isWordChar · = true) text.toList

variable {s t : String}

theorem Words.append (first : Words s) (second : Words t) : Words (s ++ t) := by
  intro c mem
  rw [String.toList_append, List.mem_append] at mem
  exact mem.elim (first c) (second c)

theorem Words.join {texts : List String} (each : ∀ text ∈ texts, Words text) : Words (String.join texts) := by
  intro c mem
  rw [String.toList_join, List.mem_flatMap] at mem
  obtain ⟨text, there, mem⟩ := mem
  exact each text there c mem

/-- What is no such character is not in the text. -/
theorem Words.not_mem {c : Char} (words : Words s) (other : isWordChar c = false) : c ∉ s.toList := by
  intro mem
  rw [words c mem] at other
  cases other

/-! ### Numbers with all their digits -/

theorem isDigit_of_mem_toDigits {n : Nat} {c : Char} (mem : c ∈ Nat.toDigits 10 n) : c.isDigit = true :=
  Nat.isDigit_of_mem_toDigits (by decide) (by decide) mem

theorem isWordChar_of_mem_toDigits {n : Nat} {c : Char} (mem : c ∈ Nat.toDigits 10 n) :
    isWordChar c = true := by
  simp [isWordChar, Char.isAlphanum, isDigit_of_mem_toDigits mem]

/-- Different numbers are written differently. -/
theorem toDigits_injective {m n : Nat} (same : Nat.toDigits 10 m = Nat.toDigits 10 n) : m = n := by
  rw [← Nat.ofDigitChars_toDigits (b := 10) (n := m) (by decide) (by decide), same,
    Nat.ofDigitChars_toDigits (by decide) (by decide)]

theorem words_nat (n : Nat) : Words (toString n) := by
  intro c mem
  rw [Nat.toString_eq_repr, Nat.toList_repr] at mem
  exact isWordChar_of_mem_toDigits mem

theorem words_int (n : Int) : Words (toString n) := by
  rw [Int.toString_eq_repr, Int.repr_eq_if]
  split
  · exact words_nat _
  · exact Words.append (by decide) (words_nat _)

/-! ### Floating-point numbers -/

/-- To the digits only zeros, points and an exponent are added. -/
theorem isWordChar_of_mem_layOut (style : FloatStyle) {digits : List Char} (lead : Int)
    (each : ∀ c ∈ digits, isWordChar c = true) : ∀ c ∈ style.layOut digits lead, isWordChar c = true := by
  have zeros (n : Nat) : ∀ c ∈ List.replicate n '0', isWordChar c = true := by
    intro c mem
    rw [List.eq_of_mem_replicate mem]
    decide
  have point : isWordChar '.' = true := by decide
  have mark : ∀ c ∈ 'e' :: (toString lead).toList, isWordChar c = true :=
    List.forall_mem_cons.2 ⟨by decide, words_int lead⟩
  unfold FloatStyle.layOut
  split
  · split
    · refine List.forall_mem_append.2 ⟨List.forall_mem_cons.2 ⟨by decide, ?_⟩, each⟩
      exact List.forall_mem_cons.2 ⟨point, zeros _⟩
    -- a whole number is filled up with zeros, any other one is cut at the point
    · by_cases fits : digits.length ≤ lead.toNat + 1
      · simp only [if_pos fits]
        refine List.forall_mem_append.2 ⟨List.forall_mem_append.2 ⟨each, zeros _⟩, ?_⟩
        split
        · exact List.forall_mem_cons.2 ⟨point, List.forall_mem_singleton.2 (by decide)⟩
        · exact List.forall_mem_nil _
      · simp only [if_neg fits]
        refine List.forall_mem_append.2 ⟨fun c mem => each c (List.mem_of_mem_take mem), ?_⟩
        exact List.forall_mem_cons.2 ⟨point, fun c mem => each c (List.mem_of_mem_drop mem)⟩
  · split
    · obtain ⟨first, rest⟩ := List.forall_mem_cons.1 each
      refine List.forall_mem_append.2 ⟨?_, mark⟩
      exact List.forall_mem_cons.2 ⟨first, List.forall_mem_cons.2 ⟨point, rest⟩⟩
    · exact List.forall_mem_append.2 ⟨each, mark⟩

theorem words_write (style : FloatStyle) (x : FloatClass) : Words (style.write x) := by
  have sign (negative : Bool) : Words (FloatStyle.write.sign negative) := by
    cases negative with
    | false => decide
    | true => decide
  cases x with
  | nan => exact (by decide : Words "NaN")
  | infinite negative => exact (sign negative).append (by decide)
  | zero negative =>
    refine (sign negative).append ?_
    split
    · decide
    · decide
  | finite negative size =>
    refine (sign negative).append ?_
    rw [Words, String.toList_ofList]
    exact isWordChar_of_mem_layOut style _ fun c mem => isWordChar_of_mem_toDigits mem

end Text

end StackVM
