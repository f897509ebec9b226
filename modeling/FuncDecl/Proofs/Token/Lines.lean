import FuncDecl.Proofs.Token.Layout

/-!
# Lines

No token reaches over a line end, so a text is cut line by line.

* `Lexeme.next_append_newline`: what stands at the front of a text does not depend on what follows
  its first line.
* `Token.scanFrom_append_newline_eq`: **no token reaches over a line end**. A text is cut up to a
  line end as it is alone, and from there on if it has no fault.
* `Token.scanFrom_add`: what is found in a text does not depend on where it begins, up to the places
  (`Token.shift`).
* `Token.scan_append_newline_append`: **a source is cut line by line**, also if one of its parts has
  a fault.
* `Text.CutInto text P`: wherever the text stands, it is cut into tokens with a property. It holds
  of whole lines (`Text.cutInto_layout`, `Text.cutInto_line`), and pieces in a row are cut one after
  the other (`Text.CutInto.append`).
-/

namespace FuncDecl

/-! ## Up to a line end -/

section UpToNewline

variable {p : Char → Bool} (hp : p '\n' = false) (cs more : List Char)
include hp

/-- A run that no line feed belongs to ends at the line feed at the latest. -/
theorem takeWhile_append_newline :
    (cs ++ '\n' :: more).takeWhile p = cs.takeWhile p := by
  induction cs with
  | nil => rw [List.nil_append, List.takeWhile_cons_of_neg (by simp [hp]), List.takeWhile_nil]
  | cons c cs ih => rw [List.cons_append, List.takeWhile_cons, List.takeWhile_cons, ih]

/-- Behind such a run follows what is left of the line, and then the next one. -/
theorem dropWhile_append_newline :
    (cs ++ '\n' :: more).dropWhile p = cs.dropWhile p ++ '\n' :: more := by
  induction cs with
  | nil => rw [List.nil_append, List.dropWhile_cons_of_neg (by simp [hp]), List.dropWhile_nil,
      List.nil_append]
  | cons c cs ih =>
    rw [List.cons_append, List.dropWhile_cons, List.dropWhile_cons]
    split
    · exact ih
    · rfl

end UpToNewline

/-- A string is closed on its line or not at all. -/
theorem closeString_append_newline (quote : Char) (escaped : Bool) (cs more : List Char) :
    closeString quote escaped (cs ++ '\n' :: more) =
      (closeString quote escaped cs).map fun r => (r.1, r.2 ++ '\n' :: more) := by
  induction cs generalizing escaped with
  | nil => simp [closeString]
  | cons c cs ih =>
    rw [List.cons_append, closeString, closeString, ih]
    split
    · rfl
    · split
      · rfl
      · cases closeString quote (!escaped && c == '\\') cs with
        | none => rfl
        | some r => rfl

namespace Lexeme

/-- The lexeme with more text behind it. -/
def extend (more : List Char) : Lexeme → Lexeme
  | skipped text rest => skipped text (rest ++ more)
  | token kind text rest => token kind text (rest ++ more)
  | openString text => openString text
  | stray c => stray c

/-- A mark of one character does not depend on what follows. -/
theorem singleMark_append (c : Char) (cs more : List Char) :
    singleMark c (cs ++ more) = (singleMark c cs).extend more := by
  unfold singleMark
  split <;> rfl

/-- A mark does not go on with a line feed. -/
theorem mark_append_newline (c : Char) (cs more : List Char) :
    mark c (cs ++ '\n' :: more) = (mark c cs).extend ('\n' :: more) := by
  cases cs with
  | nil =>
    have hall : ∀ entry ∈ pairMarks, entry.1.2 ≠ '\n' := by decide
    rw [List.nil_append, mark, Word.lookup_pairMarks_eq_none fun entry he _ => hall entry he]
    exact singleMark_append c [] _
  | cons d cs =>
    rw [List.cons_append, mark, mark]
    split
    · rfl
    · exact singleMark_append c (d :: cs) _

/-- What stands at the front of a text does not depend on what follows its first line. -/
theorem next_append_newline (c : Char) (cs more : List Char) :
    next c (cs ++ '\n' :: more) = (next c cs).extend ('\n' :: more) := by
  have hname : Text.isNameChar '\n' = false := by decide +kernel
  have htilde : (cs ++ '\n' :: more).head? = some '~' ↔ cs.head? = some '~' := by
    cases cs <;> simp
  unfold next
  simp only [htilde, takeWhile_append_newline hname, dropWhile_append_newline hname,
    takeWhile_append_newline (p := isNumberChar) rfl, dropWhile_append_newline (p := isNumberChar) rfl,
    takeWhile_append_newline (p := isInLine) rfl, dropWhile_append_newline (p := isInLine) rfl,
    closeString_append_newline, mark_append_newline]
  split
  · rfl
  · split
    · rfl
    · split
      · rfl
      · split
        · rfl
        · split
          · rfl
          · split
            · cases closeString c false cs <;> rfl
            · rfl

end Lexeme

namespace Token

/-- **No token reaches over a line end.** A text is cut up to a line end as it is alone, and from
there on if it has no fault. -/
theorem scanFrom_append_newline_eq (offset : Nat) (cs more : List Char) :
    scanFrom offset (cs ++ '\n' :: more) = (scanFrom offset cs).bind fun ts =>
      prepend ts (scanFrom (offset + Text.byteLength cs) ('\n' :: more)) := by
  fun_induction scanFrom offset cs with
  | case1 offset => exact (prepend_nil _).symm
  | case2 offset c cs text rest hnext ih =>
    -- no lexeme reaches over a newline, so the first one is the same in both texts
    have hsplit := Lexeme.splits_next c cs
    rw [hnext] at hsplit
    have hnext' := Lexeme.next_append_newline c cs more
    rw [hnext] at hnext'
    rw [List.cons_append, scanFrom_of_skipped hnext', ih, ← hsplit.2, Text.byteLength_append,
      Nat.add_assoc]
  | case3 offset c cs kind text rest hnext stop =>
    rename_i ih
    have hsplit := Lexeme.splits_next c cs
    rw [hnext] at hsplit
    have hnext' := Lexeme.next_append_newline c cs more
    rw [hnext] at hnext'
    rw [List.cons_append, scanFrom_of_token hnext', ih]
    cases hrest : scanFrom stop rest with
    | error fault => rfl
    | ok us =>
      rw [← hsplit.2, Text.byteLength_append, ← Nat.add_assoc]
      exact prepend_prepend ..
  | case4 offset c cs text hnext =>
    have hnext' := Lexeme.next_append_newline c cs more
    rw [hnext] at hnext'
    exact scanFrom_of_openString hnext' offset
  | case5 offset c cs d hnext =>
    have hnext' := Lexeme.next_append_newline c cs more
    rw [hnext] at hnext'
    exact scanFrom_of_stray hnext' offset

/-- The same for a text without a fault. -/
theorem scanFrom_append_newline {offset : Nat} {cs : List Char} {ts : List Token}
    (h : scanFrom offset cs = .ok ts) (more : List Char) :
    scanFrom offset (cs ++ '\n' :: more) =
      prepend ts (scanFrom (offset + Text.byteLength cs) ('\n' :: more)) := by
  rw [scanFrom_append_newline_eq, h]
  rfl

/-- The token of a text that begins later. -/
def shift (n : Nat) (t : Token) : Token :=
  { t with span := ⟨t.span.start + n, t.span.stop + n⟩ }

end Token

/-- The fault of a text that begins later. -/
def LexFault.shift (n : Nat) (e : LexFault) : LexFault :=
  { e with span := ⟨e.span.start + n, e.span.stop + n⟩ }

namespace Token

/-- The tokens or the fault of a text that begins later. -/
def shiftScan (n : Nat) : Except LexFault (List Token) → Except LexFault (List Token)
  | .ok ts => .ok (ts.map (shift n))
  | .error fault => .error (fault.shift n)

/-- What is found in a text does not depend on where it begins, up to the places. -/
theorem scanFrom_add (offset n : Nat) (cs : List Char) :
    scanFrom (offset + n) cs = shiftScan n (scanFrom offset cs) := by
  fun_induction scanFrom offset cs with
  | case1 offset =>
    rw [scanFrom]
    rfl
  | case2 offset c cs text rest hnext ih =>
    rw [scanFrom_of_skipped hnext, Nat.add_right_comm, ih]
  | case3 offset c cs kind text rest hnext stop =>
    rename_i ih
    rw [scanFrom_of_token hnext, Nat.add_right_comm, ih]
    cases scanFrom stop rest with
    | error fault => rfl
    | ok us => rfl
  | case4 offset c cs text hnext =>
    rw [scanFrom_of_openString hnext, Nat.add_right_comm]
    rfl
  | case5 offset c cs d hnext =>
    rw [scanFrom_of_stray hnext, Nat.add_right_comm]
    rfl

/-- The tokens of a text that begins later are the same, moved. -/
theorem scanFrom_shift {offset : Nat} {cs : List Char} {ts : List Token}
    (h : scanFrom offset cs = .ok ts) (n : Nat) :
    scanFrom (offset + n) cs = .ok (ts.map (shift n)) := by
  rw [scanFrom_add, h]
  rfl

/-- **A source is cut line by line.** A source with a line end in it has the first fault of the two
parts, in its place, or else the tokens of both with the line end between them.
Source: `lex`. -/
theorem scan_append_newline_append (a b : String) :
    scan (a ++ "\n" ++ b) =
      match scan a with
      | .error fault => .error fault
      | .ok ts =>
        match scan b with
        | .error fault => .error (fault.shift (a.utf8ByteSize + 1))
        | .ok us =>
          .ok (ts ++ ⟨.newline, "\n", ⟨a.utf8ByteSize, a.utf8ByteSize + 1⟩⟩ ::
            us.map (shift (a.utf8ByteSize + 1))) := by
  have htext : (a ++ "\n" ++ b).toList = a.toList ++ '\n' :: b.toList := by simp
  have hrest : scanFrom (a.utf8ByteSize + 1) b.toList =
      shiftScan (a.utf8ByteSize + 1) (scan b) := by
    rw [scan, ← scanFrom_add, Nat.zero_add]
  rw [scan, htext, scanFrom_append_newline_eq, Text.byteLength_toList, Nat.zero_add,
    scanFrom_newline, hrest]
  change (scan a).bind _ = _
  cases scan a with
  | error fault => rfl
  | ok ts =>
    cases scan b with
    | error fault => rfl
    | ok us => rfl

end Token

/-- A layout that fits in front of a line end is also cut into its words at the end of a text. -/
theorem Layout.scanFrom_text_end {l : Layout} (h : l.Fits '\n') (offset : Nat) :
    Token.scanFrom offset l.text = .ok (l.place offset) := by
  have hline := Layout.scanFrom_text h offset []
  rw [Token.scanFrom_append_newline_eq] at hline
  cases hscan : Token.scanFrom offset l.text with
  | error fault =>
    rw [hscan, Token.scanFrom_newline, Token.scanFrom] at hline
    exact absurd hline (by simp [Except.bind])
  | ok ts =>
    rw [hscan, Token.scanFrom_newline, Token.scanFrom] at hline
    rw [List.append_inj_left' (Except.ok.inj hline) rfl]

/-! ## Pieces of text -/

/-- One line of printed text. -/
def printLine (margin text : List Char) : List Char :=
  margin ++ text ++ ['\n']

/-- The word of a line end. -/
def Word.newline : Word :=
  ⟨.newline, "\n"⟩

namespace Text

/-- Wherever the text stands, it is cut into tokens with the given property. -/
def CutInto (text : List Char) (P : List Token → Prop) : Prop :=
  ∀ offset rest, ∃ ts stop, P ts ∧
    Token.scanFrom offset (text ++ rest) = Token.prepend ts (Token.scanFrom stop rest)

namespace CutInto

variable {text text' : List Char} {P Q : List Token → Prop}

/-- The empty text is cut into no tokens. -/
theorem nil (h : P []) : CutInto [] P :=
  fun offset _ => ⟨[], offset, h, (Token.prepend_nil _).symm⟩

/-- A text that is cut into tokens with a property is cut into tokens with a weaker one. -/
theorem mono (h : CutInto text P) (himp : ∀ ts, P ts → Q ts) : CutInto text Q := by
  intro offset rest
  obtain ⟨ts, stop, hts, hscan⟩ := h offset rest
  exact ⟨ts, stop, himp ts hts, hscan⟩

/-- Two pieces in a row are cut one after the other. -/
theorem append (h : CutInto text P) (h' : CutInto text' Q) :
    CutInto (text ++ text') fun ts => ∃ us vs, ts = us ++ vs ∧ P us ∧ Q vs := by
  intro offset rest
  obtain ⟨us, mid, hus, hscan⟩ := h offset (text' ++ rest)
  obtain ⟨vs, stop, hvs, hscan'⟩ := h' mid rest
  exact ⟨us ++ vs, stop, ⟨us, vs, rfl, hus, hvs⟩,
    by rw [List.append_assoc, hscan, hscan', Token.prepend_prepend]⟩

/-- A text that is cut as a whole is cut into the same tokens. -/
theorem scan_eq (h : CutInto text P) : ∃ ts, P ts ∧ Token.scan (String.ofList text) = .ok ts := by
  obtain ⟨ts, stop, hts, hscan⟩ := h 0 []
  refine ⟨ts, hts, ?_⟩
  rw [Token.scan, String.toList_ofList, ← List.append_nil text, hscan, Token.scanFrom,
    Token.prepend_ok, List.append_nil]

end CutInto

/-- Blanks that do not end a line. -/
def IsMargin (margin : List Char) : Prop :=
  ∀ c ∈ margin, isBlank c = true ∧ c ≠ '\n'

/-- Tokens with the given property and a line end behind them. -/
def EndsLine (P : List Token → Prop) (ts : List Token) : Prop :=
  ∃ us newline, ts = us ++ [newline] ∧ newline.word = .newline ∧ P us

/-- A line with a layout on it is cut into the words of the layout. -/
theorem cutInto_layout {margin : List Char} (hmargin : IsMargin margin) {l : Layout}
    (h : l.Fits '\n') :
    CutInto (margin ++ l.text ++ ['\n']) (EndsLine fun ts => ∃ offset, ts = l.place offset) := by
  intro offset rest
  have hscan := Layout.scanFrom_text h (offset + byteLength margin) rest
  rw [Token.scanFrom_newline, Token.prepend_prepend, ← Token.scanFrom_blanks hmargin] at hscan
  exact ⟨_, _, ⟨_, _, rfl, rfl, _, rfl⟩, by simpa using hscan⟩

/-- A line is cut into the tokens that its text has alone, up to their places. -/
theorem cutInto_line {margin : List Char} (hmargin : IsMargin margin) {line : String}
    {ts : List Token} (h : Token.scan line = .ok ts) :
    CutInto (margin ++ line.toList ++ ['\n'])
      (EndsLine fun us => us.map Token.word = ts.map Token.word) := by
  intro offset rest
  have hshift := Token.scanFrom_shift h (offset + byteLength margin)
  rw [Nat.zero_add] at hshift
  have hscan := Token.scanFrom_append_newline hshift rest
  rw [Token.scanFrom_newline, Token.prepend_prepend, ← Token.scanFrom_blanks hmargin] at hscan
  exact ⟨_, _, ⟨ts.map (Token.shift _), _, rfl, rfl, List.map_map⟩, by simpa using hscan⟩

end Text

end FuncDecl
