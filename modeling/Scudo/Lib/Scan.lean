import Mathlib.Data.List.TakeWhile
import Mathlib.Tactic.Common

/-!
Text that ends at a zero character, read through pointers: a pointer is the text behind it.
-/

namespace Scudo.Lib

/-- What the pointer points to. -/
def first (text : List Char) : Char := text.headD '\x00'

@[simp] theorem first_nil : first [] = '\x00' := rfl
@[simp] theorem first_cons (ch : Char) (text : List Char) : first (ch :: text) = ch := rfl

/-- `strncmp(text, word, strlen(word)) == 0`. -/
def startsWith (text word : List Char) : Bool := word.isPrefixOf text

theorem startsWith_iff {text word : List Char} :
    startsWith text word = true ↔ ∃ rest, text = word ++ rest := by
  rw [startsWith, List.isPrefixOf_iff_prefix]
  constructor
  · rintro ⟨rest, parts⟩
    exact ⟨rest, parts.symm⟩
  · rintro ⟨rest, parts⟩
    exact ⟨rest, parts.symm⟩

section While

variable {p : Char → Bool} {run rest : List Char}

theorem dropWhile_of_stop (stops : p (first rest) = false) : rest.dropWhile p = rest := by
  cases rest with
  | nil => rfl
  | cons ch text => exact List.dropWhile_cons_of_neg (by rwa [first_cons, ← Bool.not_eq_true] at stops)

/-- A scan stops behind a run of characters that it passes. -/
theorem dropWhile_run (passes : ∀ ch ∈ run, p ch = true) (stops : p (first rest) = false) :
    (run ++ rest).dropWhile p = rest := by
  rw [List.dropWhile_append_of_pos passes, dropWhile_of_stop stops]

theorem takeWhile_run (passes : ∀ ch ∈ run, p ch = true) (stops : p (first rest) = false) :
    (run ++ rest).takeWhile p = run := by
  have parts : (run ++ rest).takeWhile p ++ (run ++ rest).dropWhile p = run ++ rest :=
    List.takeWhile_append_dropWhile
  rw [dropWhile_run passes stops] at parts
  exact List.append_cancel_right parts

/-- Where a scan stopped, the text goes on or is at its end. -/
theorem first_ne_zero_iff {ch : Char} (real : ch ≠ '\x00') {text : List Char} :
    first text = ch ↔ ∃ rest, text = ch :: rest := by
  cases text with
  | nil => simp [real.symm]
  | cons other text => simp

end While

/-- The same first occurrence of a character splits a text in one way. -/
theorem split_unique {mark : Char} {before before' after after' : List Char}
    (clean : mark ∉ before) (clean' : mark ∉ before')
    (same : before ++ mark :: after = before' ++ mark :: after') : before = before' := by
  have run {before after : List Char} (clean : mark ∉ before) :
      (before ++ mark :: after).takeWhile (fun ch => decide (ch ≠ mark)) = before := by
    refine takeWhile_run (fun ch member => ?_) (by simp)
    rw [decide_eq_true_iff]
    rintro rfl
    exact clean member
  have left := @run before after clean
  rw [← left, same, run clean']

end Scudo.Lib
