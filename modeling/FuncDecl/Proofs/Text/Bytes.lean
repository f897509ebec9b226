import FuncDecl.Text.Span

/-!
# Places in a text

Offsets are counted in bytes, character by character. Here they are tied to the bytes of a text.

* `Text.byteLength_toList`: the characters of a text take as many bytes as the text.
* `Span.Cuts s source text`: the text stands in the source at the span. `Span.cuts_of_toList` gives
  it from the characters in front of the text and behind it.
* `Span.Cuts.bytes_eq`: the bytes of the span are those of the text.
* `Span.Cuts.isValid_start` and `Span.Cuts.isValid_stop`: the span begins and ends between two
  characters.
-/

namespace FuncDecl

/-! ## Lengths -/

namespace Text

/-- Two rows of characters take as many bytes as both together. -/
theorem byteLength_append (cs ds : List Char) :
    byteLength (cs ++ ds) = byteLength cs + byteLength ds := by
  induction cs with
  | nil => exact (Nat.zero_add _).symm
  | cons c cs ih =>
    calc byteLength (c :: (cs ++ ds)) = c.utf8Size + byteLength (cs ++ ds) := rfl
      _ = c.utf8Size + byteLength cs + byteLength ds := by rw [ih, Nat.add_assoc]

/-- The characters of a text take as many bytes as the text. -/
theorem byteLength_toList (s : String) : byteLength s.toList = s.utf8ByteSize := by
  induction s using String.push_induction with
  | empty => rfl
  | push s c ih =>
    rw [String.toList_push, byteLength_append, ih, String.utf8ByteSize_push]
    rfl

/-- Characters take bytes. -/
theorem byteLength_pos {cs : List Char} (h : cs ≠ []) : 0 < byteLength cs := by
  obtain ⟨c, cs, rfl⟩ := List.exists_cons_of_ne_nil h
  exact Nat.add_pos_left c.utf8Size_pos _

end Text

/-! ## Spans -/

/-- The text stands in the source at the span. -/
def Span.Cuts (s : Span) (source text : String) : Prop :=
  ∃ before after, source = before ++ text ++ after ∧ s.start = before.utf8ByteSize ∧
    s.stop = s.start + text.utf8ByteSize

/-- A text that stands behind some characters of the source stands at the span that begins at their
length. -/
theorem Span.cuts_of_toList {s : Span} {source : String} {before text after : List Char}
    (hsource : source.toList = before ++ text ++ after) (hstart : s.start = Text.byteLength before)
    (hstop : s.stop = s.start + Text.byteLength text) : s.Cuts source (String.ofList text) := by
  refine ⟨String.ofList before, String.ofList after, ?_, ?_, ?_⟩
  · rw [← String.ofList_append, ← String.ofList_append, ← hsource, String.ofList_toList]
  · rw [hstart, ← Text.byteLength_toList, String.toList_ofList]
  · rw [hstop, ← Text.byteLength_toList, String.toList_ofList]

namespace Span.Cuts

variable {s : Span} {source text : String} (h : s.Cuts source text)
include h

/-- The bytes of the span are those of the text. -/
theorem bytes_eq : source.toByteArray.extract s.start s.stop = text.toByteArray := by
  obtain ⟨before, after, rfl, hstart, hstop⟩ := h
  have hsize : before.utf8ByteSize = before.toByteArray.size + 0 := rfl
  rw [hstop, hstart, String.append_assoc, String.toByteArray_append, hsize, Nat.add_assoc,
    ByteArray.extract_append_size_add, String.toByteArray_append]
  exact ByteArray.extract_append_eq_left (Nat.zero_add _)

/-- The span begins between two characters of the source. -/
theorem isValid_start : String.Pos.Raw.IsValid source ⟨s.start⟩ := by
  obtain ⟨before, after, rfl, hstart, -⟩ := h
  exact String.Pos.Raw.isValid_iff_exists_append.mpr
    ⟨before, text ++ after, String.append_assoc, String.Pos.Raw.ext hstart⟩

/-- The span ends between two characters of the source. -/
theorem isValid_stop : String.Pos.Raw.IsValid source ⟨s.stop⟩ := by
  obtain ⟨before, after, rfl, hstart, hstop⟩ := h
  refine String.Pos.Raw.isValid_iff_exists_append.mpr
    ⟨before ++ text, after, rfl, String.Pos.Raw.ext ?_⟩
  calc s.stop = before.utf8ByteSize + text.utf8ByteSize := by rw [hstop, hstart]
    _ = (before ++ text).utf8ByteSize := String.utf8ByteSize_append.symm

end Span.Cuts

end FuncDecl
