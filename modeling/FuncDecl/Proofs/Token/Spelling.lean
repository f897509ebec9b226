import FuncDecl.Dialect
import FuncDecl.Proofs.Table
import FuncDecl.Token.Lexeme

/-!
# Spellings and kinds

The first character of a token tells its kind apart from the others: what is spelled like a name is
a name.

* `Text.isName`: whether a text is spelled like a name.
* `Token.exists_next_of_mem_scanFrom`: every token of a source stood at the front of some text.
* `Token.kind_of_isName`: a token of a source that is spelled like a name is one.
* `Token.kind_of_spelling`: where the modifiers of a project are spelled like names, a token that
  spells one of them is a name.
-/

namespace FuncDecl

/-- Whether a text is spelled like a name. -/
def Text.isName (text : String) : Bool :=
  match text.toList with
  | [] => false
  | c :: cs => isNameStart c && cs.all isNameChar

/-! ## The first character of a token -/

/-- A token that begins like a name is one. -/
theorem Lexeme.kind_of_next {c : Char} {cs text rest : List Char} {kind : Token.Kind}
    (h : next c cs = token kind text rest) (hc : Text.isNameStart c = true) : kind = .ident := by
  have hn : c ≠ '\n' := by
    rintro rfl
    exact absurd hc (by decide +kernel)
  rw [next, if_neg hn] at h
  split at h
  · simp at h
  · split at h
    · simp at h
    · exact (Lexeme.token.inj h).1.symm

/-- Every token stands at the front of some text. -/
theorem Token.exists_next_of_mem_scanFrom {offset : Nat} {cs : List Char} {ts : List Token}
    (h : scanFrom offset cs = .ok ts) {t : Token} (ht : t ∈ ts) :
    ∃ c cs rest, Lexeme.next c cs = .token t.kind t.text.toList rest := by
  fun_induction scanFrom offset cs generalizing ts with
  | case1 =>
    rw [← Except.ok.inj h] at ht
    exact absurd ht List.not_mem_nil
  | case2 offset c cs text rest hnext ih => exact ih h ht
  | case3 offset c cs kind text rest hnext stop =>
    rename_i ih
    cases hrest : scanFrom stop rest with
    | error fault =>
      rw [hrest] at h
      exact absurd h (by simp [Except.map])
    | ok us =>
      rw [hrest] at h
      rw [← Except.ok.inj h] at ht
      rcases List.mem_cons.mp ht with rfl | ht
      · exact ⟨c, cs, rest, by rw [hnext, String.toList_ofList]⟩
      · exact ih hrest ht
  | case4 => simp at h
  | case5 => simp at h

/-- A token of a source that is spelled like a name is one. -/
theorem Token.kind_of_isName {source : String} {ts : List Token} (h : scan source = .ok ts)
    {t : Token} (ht : t ∈ ts) (hname : Text.isName t.text = true) : t.kind = .ident := by
  obtain ⟨c, cs, rest, hnext⟩ := exists_next_of_mem_scanFrom h ht
  refine Lexeme.kind_of_next hnext ?_
  have hsplit := Lexeme.splits_next c cs
  rw [hnext] at hsplit
  rw [Text.isName] at hname
  cases htext : t.text.toList with
  | nil =>
    rw [htext] at hname
    exact absurd hname (by simp)
  | cons c' cs' =>
    rw [htext] at hname hsplit
    rw [← (List.cons.inj hsplit.2).1]
    exact (Bool.and_eq_true_iff.mp hname).1

/-! ## Modifiers -/

/-- A token of a source that spells a modifier is a name, if all modifiers are spelled like names. -/
theorem Token.kind_of_spelling {k : Keywords} (hk : ∀ m, Text.isName (k.spelling m) = true)
    {source : String} {ts : List Token} (h : scan source = .ok ts) {t : Token} (ht : t ∈ ts)
    (hspelling : k.reading.contains t.text = true) : t.kind = .ident := by
  refine Token.kind_of_isName h ht ?_
  rw [Keywords.reading, Keywords.readingOf, Table.contains_ofList, List.any_map, List.any_eq_true]
    at hspelling
  obtain ⟨m, -, hm⟩ := hspelling
  rw [← beq_iff_eq.mp hm]
  exact hk m

end FuncDecl
