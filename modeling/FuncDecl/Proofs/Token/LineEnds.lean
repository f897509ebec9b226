import FuncDecl.Token.Basic
import Mathlib.Data.List.TakeWhile

/-!
# Line ends

`skipNewlines` drops the line ends at the front of a list of tokens.

* `skipNewlines_append` and `skipNewlines_append_cons`: line ends at the front do not matter, and
  they are skipped up to a token that is none.
* `skipNewlines_eq_self` and `skipNewlines_eq_nil_iff`: when nothing is dropped, and when all is.
* `exists_append_skipNewlines` and `head?_skipNewlines`: what was dropped are line ends, and what is
  left begins with another token.
-/

namespace FuncDecl

/-- Of no tokens none are left. -/
@[simp] theorem skipNewlines_nil : skipNewlines [] = [] := rfl

/-- A line end at the front is dropped. -/
theorem skipNewlines_cons_of_newline {t : Token} (h : t.kind = .newline) (ts : List Token) :
    skipNewlines (t :: ts) = skipNewlines ts := by
  rw [skipNewlines, List.dropWhile_cons_of_pos (by rw [Token.isNewline, h]; rfl)]
  rfl

/-- Any other token at the front stays, with all behind it. -/
theorem skipNewlines_cons_of_ne {t : Token} (h : t.kind ≠ .newline) (ts : List Token) :
    skipNewlines (t :: ts) = t :: ts := by
  rw [skipNewlines, List.dropWhile_cons_of_neg]
  rw [Token.isNewline, beq_iff_eq]
  exact h

/-- Line ends at the front do not matter. -/
theorem skipNewlines_append {gap : List Token} (h : ∀ t ∈ gap, t.kind = .newline)
    (ts : List Token) : skipNewlines (gap ++ ts) = skipNewlines ts := by
  induction gap with
  | nil => rfl
  | cons t gap ih =>
    rw [List.forall_mem_cons] at h
    rw [List.cons_append, skipNewlines_cons_of_newline h.1, ih h.2]

/-- Line ends are skipped up to a token that is none. -/
theorem skipNewlines_append_cons {t : Token} (h : t.kind ≠ .newline) (front rest : List Token) :
    skipNewlines (front ++ t :: rest) = skipNewlines front ++ t :: rest := by
  induction front with
  | nil => exact skipNewlines_cons_of_ne h rest
  | cons u front ih =>
    by_cases hu : u.kind = .newline
    · rw [List.cons_append, skipNewlines_cons_of_newline hu, skipNewlines_cons_of_newline hu, ih]
    · rw [List.cons_append, skipNewlines_cons_of_ne hu, skipNewlines_cons_of_ne hu, List.cons_append]

/-- Where no line end is at the front, nothing is dropped. -/
theorem skipNewlines_eq_self {ts : List Token} (h : ∀ t ∈ ts.head?, t.kind ≠ .newline) :
    skipNewlines ts = ts := by
  cases ts with
  | nil => rfl
  | cons t ts => exact skipNewlines_cons_of_ne (h t rfl) ts

/-- Nothing is left exactly if there are only line ends. -/
theorem skipNewlines_eq_nil_iff {ts : List Token} :
    skipNewlines ts = [] ↔ ∀ t ∈ ts, t.kind = .newline := by
  rw [skipNewlines, List.dropWhile_eq_nil_iff]
  simp [Token.isNewline]

/-- Only line ends are dropped. -/
theorem exists_append_skipNewlines (ts : List Token) :
    ∃ gap, ts = gap ++ skipNewlines ts ∧ ∀ t ∈ gap, t.kind = .newline := by
  refine ⟨ts.takeWhile Token.isNewline, ?_, fun t ht => ?_⟩
  · rw [skipNewlines, List.takeWhile_append_dropWhile]
  · simpa [Token.isNewline] using List.mem_takeWhile_imp ht

/-- What is left begins with another token. -/
theorem head?_skipNewlines (ts : List Token) {t : Token} (h : t ∈ (skipNewlines ts).head?) :
    t.kind ≠ .newline := by
  have := List.head?_dropWhile_not Token.isNewline ts
  rw [skipNewlines, Option.mem_def] at h
  rw [h] at this
  simpa [Token.isNewline] using this

end FuncDecl
