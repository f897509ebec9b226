import Mathlib.Data.List.Lex

/-!
# The order of texts

Texts are compared character by character. In UTF-8 a character with a greater code has greater
bytes: the first byte tells how many bytes there are, and the digits of the code follow, the highest
first. So texts come in the same order if they are compared byte by byte.

* `Text.bytes` and `Text.Precedes`: the bytes of a text, and the order of texts by their bytes.
* `Text.lex_utf8EncodeChar`: a lower character has lower bytes, whatever comes behind them.
* `Text.precedes_of_lt`: **UTF-8 keeps the order of texts**. It follows character by character from
  the lemma before.
-/

namespace FuncDecl.Text

/-- The bytes of a text in UTF-8. -/
def bytes (s : String) : List UInt8 :=
  s.toUTF8.data.toList

/-- The first text comes before the second one, byte by byte. -/
def Precedes (a b : String) : Prop :=
  List.Lex (· < ·) (bytes a) (bytes b)

/-- The bytes of a text are those of its characters in a row. -/
theorem bytes_ofList (cs : List Char) : bytes (String.ofList cs) = cs.flatMap String.utf8EncodeChar := by
  rw [bytes, String.toUTF8_eq_toByteArray, String.toByteArray_ofList, List.utf8Encode,
    List.data_toByteArray]

/-- Two rows of bytes, of which the first ones are in order. -/
theorem lex_cons_ofNat {a b : Nat} {as bs : List UInt8} (hle : a ≤ b) (hb : b < 256)
    (h : a = b → List.Lex (· < ·) as bs) :
    List.Lex (· < ·) (UInt8.ofNat a :: as) (UInt8.ofNat b :: bs) := by
  rcases Nat.lt_or_eq_of_le hle with hlt | rfl
  · exact .rel ((UInt8.ofNat_lt_iff_lt (Nat.lt_trans hlt hb) hb).mpr hlt)
  · exact .cons (h rfl)

/-- A lower character has lower bytes, whatever comes behind them. -/
theorem lex_utf8EncodeChar {c d : Char} (h : c < d) (cs ds : List UInt8) :
    List.Lex (· < ·) (String.utf8EncodeChar c ++ cs) (String.utf8EncodeChar d ++ ds) := by
  have hlt : c.val.toNat < d.val.toNat := h
  have hd : d.val.toNat < 0x110000 := d.valid.elim (Nat.lt_trans · (by decide)) (·.2)
  unfold String.utf8EncodeChar
  dsimp only
  -- The codes share a first byte only if they have equally many digits, and then these decide.
  repeat' split
  all_goals
    repeat' (refine lex_cons_ofNat (by omega) (by omega) fun _ => ?_)
    omega

/-- Rows of characters that are in order have bytes that are in order. By induction along the
characters that both have in common. -/
theorem lex_flatMap_utf8EncodeChar {cs ds : List Char} (h : List.Lex (· < ·) cs ds) :
    List.Lex (· < ·) (cs.flatMap String.utf8EncodeChar) (ds.flatMap String.utf8EncodeChar) := by
  induction h with
  | @nil d ds =>
    obtain ⟨b, bs, heq⟩ := List.exists_cons_of_ne_nil (String.utf8EncodeChar_ne_nil (c := d))
    rw [List.flatMap_cons, heq]
    exact .nil
  | rel hlt => exact lex_utf8EncodeChar hlt _ _
  | @cons c _ _ _ ih => exact List.Lex.append_left _ ih (String.utf8EncodeChar c)

/-- UTF-8 keeps the order of texts. -/
theorem precedes_of_lt {a b : String} (h : a < b) : Precedes a b := by
  rw [Precedes, ← String.ofList_toList (s := a), ← String.ofList_toList (s := b), bytes_ofList,
    bytes_ofList]
  exact lex_flatMap_utf8EncodeChar h

end FuncDecl.Text
