import FuncDecl.Proofs.Text.Bytes
import FuncDecl.Proofs.Token.Layout
import FuncDecl.Proofs.Token.Lexemes
import Mathlib.Data.List.Nodup

/-!
# The pieces of a text

A text without a fault is a row of tokens with gaps around them: nothing is lost and nothing is read
twice.

* `Text.IsGap`: what may stand between tokens, blanks and then perhaps a comment.
* `Token.Woven offset cs ts`: the text is made up of the tokens, each behind a gap, and a last gap.
  `Token.Woven.of_scanFrom` gives it for every text without a fault, by induction along the lexemes.
* `Token.Woven.exists_split`: behind any of the tokens the rest of the text is such a row again.
* `Token.Woven.cuts`, `Token.Woven.pairwise`, `Token.Woven.exists_gap` and
  `Token.Woven.count_newline`: the facts about places that follow.
* `Token.Partition source ts`: the list of these facts. Every token is the text of its span, the
  spans increase, only blanks and comments stand between them, and every line feed is a token.
* `Token.scan_partition`: **cutting a source partitions it** into tokens and gaps.
-/

namespace FuncDecl

/-! ## Gaps -/

/-- What may stand in front of a token or at the end of a text: blanks that do not end the line, and a
comment behind them, if the line ends where the gap does. -/
inductive Text.IsGap (lineEnds : Prop) : List Char → Prop
  | nil : IsGap lineEnds []
  | blank {c : Char} {cs : List Char} (hblank : isBlank c = true) (hline : c ≠ '\n')
      (rest : IsGap lineEnds cs) : IsGap lineEnds (c :: cs)
  | comment {cs : List Char} (hend : lineEnds) (hline : '\n' ∉ cs) :
      IsGap lineEnds ('~' :: '~' :: cs)

/-- No line feed stands in a gap. -/
theorem Text.IsGap.newline_not_mem {lineEnds : Prop} {gap : List Char} (h : IsGap lineEnds gap) :
    '\n' ∉ gap := by
  induction h with
  | nil => exact List.not_mem_nil
  | blank _ hline _ ih => simp [ih, Ne.symm hline]
  | comment _ hline => simpa using hline

/-- An element that is not in the first of two parts stands in the second one. -/
theorem exists_append_of_not_mem {α : Type} {xs ys pre post : List α} {c : α}
    (h : xs ++ ys = pre ++ c :: post) (hc : c ∉ xs) :
    ∃ mid, pre = xs ++ mid ∧ ys = mid ++ c :: post := by
  rcases List.append_eq_append_iff.mp h with ⟨mid, hpre, hys⟩ | ⟨mid, hxs, hpost⟩
  · exact ⟨mid, hpre, hys⟩
  · cases mid with
    | nil => exact ⟨[], by simpa using hxs.symm, by simpa using hpost.symm⟩
    | cons d mid =>
      rw [hxs, (List.cons.inj hpost).1] at hc
      exact absurd (List.mem_append_right pre List.mem_cons_self) hc

namespace Token

/-! ## Tokens and gaps in a row -/

/-- The text may be that of a token of this kind: it is not empty, and a line feed is the whole of a
line end and in no other token. -/
structure Piece (kind : Kind) (text : List Char) : Prop where
  ne_nil : text ≠ []
  newline : kind = .newline ∧ text = ['\n'] ∨ kind ≠ .newline ∧ '\n' ∉ text

/-- The text from an offset on is made up of the tokens, each behind a gap, and a last gap. -/
inductive Woven : Nat → List Char → List Token → Prop
  | done {offset : Nat} {gap : List Char} (hgap : Text.IsGap True gap) : Woven offset gap []
  | token {offset : Nat} {gap text rest : List Char} {kind : Kind} {ts : List Token}
      (hgap : Text.IsGap (kind = .newline) gap) (piece : Piece kind text)
      (behind : Woven (offset + Text.byteLength gap + Text.byteLength text) rest ts) :
      Woven offset (gap ++ (text ++ rest))
        (⟨kind, String.ofList text, ⟨offset + Text.byteLength gap,
          offset + Text.byteLength gap + Text.byteLength text⟩⟩ :: ts)

namespace Woven

variable {offset : Nat} {cs rest : List Char} {ts : List Token}

/-- A blank goes into the first gap. -/
theorem blank {c : Char} (hblank : Text.isBlank c = true) (hline : c ≠ '\n')
    (h : Woven (offset + c.utf8Size) rest ts) : Woven offset (c :: rest) ts := by
  cases h with
  | done hgap => exact .done (.blank hblank hline hgap)
  | @token _ gap _ _ _ _ hgap piece behind =>
    have hoffset : offset + c.utf8Size + Text.byteLength gap =
        offset + Text.byteLength (c :: gap) := Nat.add_assoc ..
    rw [hoffset] at behind ⊢
    exact .token (.blank hblank hline hgap) piece behind

/-- A comment is the whole of the first gap, since the line ends behind it. -/
theorem comment (hcs : '\n' ∉ cs) (hrest : ∀ c ∈ rest.head?, c = '\n')
    (h : Woven (offset + Text.byteLength ('~' :: '~' :: cs)) rest ts) :
    Woven offset ('~' :: '~' :: cs ++ rest) ts := by
  cases h with
  | done hgap =>
    cases rest with
    | nil => exact .done (by simpa using .comment trivial hcs)
    | cons c rest =>
      rw [hrest c rfl] at hgap
      exact absurd List.mem_cons_self hgap.newline_not_mem
  | @token _ gap text _ _ _ hgap piece behind =>
    cases gap with
    | cons c gap =>
      have hc : c = '\n' := hrest c rfl
      exact absurd (by rw [hc]; exact List.mem_cons_self) hgap.newline_not_mem
    | nil =>
      obtain ⟨c, text, rfl⟩ := List.exists_cons_of_ne_nil piece.ne_nil
      have hc : c = '\n' := hrest c rfl
      have hkind := piece.newline.resolve_right fun h => h.2 (by rw [hc]; exact List.mem_cons_self)
      exact .token (.comment hkind.1 hcs) piece behind

/-- **A text without a fault is a row of tokens and gaps.** -/
theorem of_scanFrom (h : scanFrom offset cs = .ok ts) : Woven offset cs ts := by
  fun_induction scanFrom offset cs generalizing ts with
  | case1 =>
    rw [← Except.ok.inj h]
    exact .done .nil
  | case2 offset c cs text rest hnext ih =>
    have hfound := Lexeme.found_next c cs
    rw [hnext] at hfound
    cases hfound with
    | blank hline hblank => exact .blank hblank hline (ih h)
    | comment hc hcs =>
      obtain ⟨cs, rfl⟩ := List.head?_eq_some_iff.mp hcs
      subst hc
      have hline : '\n' ∉ cs.takeWhile isInLine := fun hmem =>
        absurd (List.mem_takeWhile_imp hmem) (by decide)
      have hrest : ∀ c ∈ (cs.dropWhile isInLine).head?, c = '\n' := fun c hc => by
        have := List.head?_dropWhile_not isInLine cs
        rw [hc] at this
        simpa [isInLine] using this
      have hwoven := Woven.comment hline hrest (ih h)
      rwa [List.cons_append, List.cons_append, List.takeWhile_append_dropWhile] at hwoven
  | case3 offset c cs kind text rest hnext stop =>
    rename_i ih
    have hfound := Lexeme.found_next c cs
    have hsplit := Lexeme.splits_next c cs
    rw [hnext] at hfound hsplit
    cases hrest : scanFrom stop rest with
    | error fault =>
      rw [hrest] at h
      exact absurd h (by simp [Except.map])
    | ok us =>
      rw [hrest] at h
      rw [← Except.ok.inj h, ← hsplit.2]
      exact .token .nil ⟨hsplit.1, hfound.newline_cases⟩ (ih hrest)
  | case4 => simp at h
  | case5 => simp at h

/-! ## What is in front and what is behind -/

/-- The rest of the text behind some of the tokens is made up of the others. It begins where the last
of these tokens ends. -/
theorem exists_split {front back : List Token} (h : Woven offset cs (front ++ back)) :
    ∃ cs₁ cs₂, cs = cs₁ ++ cs₂ ∧ Woven (offset + Text.byteLength cs₁) cs₂ back ∧
      (front.getLast?.map (·.span.stop)).getD offset = offset + Text.byteLength cs₁ := by
  induction front generalizing offset cs with
  | nil => exact ⟨[], cs, rfl, h, rfl⟩
  | cons t front ih =>
    cases h with
    | @token _ gap text rest kind _ hgap piece behind =>
      obtain ⟨cs₁, cs₂, rfl, hwoven, hlast⟩ := ih behind
      have hlength : offset + Text.byteLength gap + Text.byteLength text + Text.byteLength cs₁ =
          offset + Text.byteLength (gap ++ (text ++ cs₁)) := by
        rw [Text.byteLength_append, Text.byteLength_append, Nat.add_assoc, Nat.add_assoc]
      rw [hlength] at hwoven hlast
      refine ⟨gap ++ (text ++ cs₁), cs₂, by simp, hwoven, ?_⟩
      rw [List.getLast?_cons, ← hlast]
      cases front.getLast? with
      | none => rfl
      | some u => rfl

/-- A token is found in the text where its span says. -/
theorem exists_of_mem (h : Woven offset cs ts) {t : Token} (ht : t ∈ ts) :
    ∃ before after, cs = before ++ t.text.toList ++ after ∧ Piece t.kind t.text.toList ∧
      t.span.start = offset + Text.byteLength before ∧
      t.span.stop = t.span.start + Text.byteLength t.text.toList := by
  obtain ⟨front, back, rfl⟩ := List.append_of_mem ht
  obtain ⟨cs₁, cs₂, rfl, hwoven, -⟩ := h.exists_split
  cases hwoven with
  | @token _ gap text rest kind _ hgap piece behind =>
    refine ⟨cs₁ ++ gap, rest, ?_⟩
    rw [String.toList_ofList, Text.byteLength_append]
    exact ⟨by simp, piece, by rw [Nat.add_assoc], rfl⟩

/-- A gap stands in front of every token and at the end. -/
theorem exists_gap {front back : List Token} (h : Woven offset cs (front ++ back)) :
    ∃ before gap after, cs = before ++ gap ++ after ∧
      Text.IsGap (∀ t ∈ back.head?, t.kind = .newline) gap ∧
      (front.getLast?.map (·.span.stop)).getD offset = offset + Text.byteLength before ∧
      (back.head?.map (·.span.start)).getD (offset + Text.byteLength cs) =
        offset + Text.byteLength before + Text.byteLength gap := by
  obtain ⟨cs₁, cs₂, rfl, hwoven, hstop⟩ := h.exists_split
  cases hwoven with
  | done hgap =>
    refine ⟨cs₁, cs₂, [], by simp, by simpa using hgap, hstop, ?_⟩
    rw [Text.byteLength_append, Nat.add_assoc]
    rfl
  | @token _ gap text rest kind _ hgap piece behind =>
    exact ⟨cs₁, gap, text ++ rest, by simp, by simpa using hgap, hstop, rfl⟩

/-- Every token ends where the next one begins or in front of it. -/
theorem pairwise (h : Woven offset cs ts) : ts.Pairwise fun t u => t.span.stop ≤ u.span.start := by
  induction h with
  | done => exact .nil
  | token hgap piece behind ih =>
    refine .cons (fun u hu => ?_) ih
    obtain ⟨before, -, -, -, hstart, -⟩ := behind.exists_of_mem hu
    rw [hstart]
    exact Nat.le_add_right _ _

/-- A line feed in the text is a token. -/
theorem newline_mem (h : Woven offset cs ts) {before after : List Char}
    (hcs : cs = before ++ '\n' :: after) :
    ⟨.newline, "\n", ⟨offset + Text.byteLength before, offset + Text.byteLength before + 1⟩⟩ ∈ ts := by
  induction h generalizing before with
  | done hgap => exact absurd (by rw [hcs]; simp) hgap.newline_not_mem
  | @token offset gap text rest kind ts hgap piece behind ih =>
    -- the line feed is not in the gap
    obtain ⟨inner, rfl, hinner⟩ := exists_append_of_not_mem hcs hgap.newline_not_mem
    rw [Text.byteLength_append, ← Nat.add_assoc]
    rcases piece.newline with ⟨rfl, rfl⟩ | ⟨-, hline⟩
    · cases inner with
      | nil => exact List.mem_cons_self
      | cons c inner =>
        obtain ⟨rfl, hrest⟩ := List.cons.inj hinner
        have hmem := ih hrest
        rw [Nat.add_assoc _ (Text.byteLength ['\n'])] at hmem
        exact List.mem_cons_of_mem _ hmem
    · obtain ⟨inner, rfl, hrest⟩ := exists_append_of_not_mem hinner hline
      have hmem := ih hrest
      rw [Text.byteLength_append, ← Nat.add_assoc]
      exact List.mem_cons_of_mem _ hmem

end Woven

/-! ## The pieces of a source -/

/-- The tokens are the pieces of the source that are neither blanks nor comments, each in its place. -/
structure Partition (source : String) (ts : List Token) : Prop where
  text_ne_empty : ∀ t ∈ ts, t.text ≠ ""
  /-- A token is the text of its span. -/
  bytes : ∀ t ∈ ts, source.toByteArray.extract t.span.start t.span.stop = t.text.toByteArray
  /-- A span lies in the source and begins and ends between two characters. -/
  boundaries : ∀ t ∈ ts, String.Pos.Raw.IsValid source ⟨t.span.start⟩ ∧
    String.Pos.Raw.IsValid source ⟨t.span.stop⟩
  span_nonempty : ∀ t ∈ ts, t.span.start < t.span.stop
  /-- The spans increase and have no byte in common. -/
  apart : ts.Pairwise fun t u => t.span.stop ≤ u.span.start
  /-- Only blanks and comments stand in front of the first token, between two tokens and behind the last
  one, and a comment reaches up to a line end or to the end of the source. -/
  gaps : ∀ front back, ts = front ++ back → ∃ gap : String,
    source.toByteArray.extract (endSpan front).stop
        ((back.head?.map (·.span.start)).getD source.utf8ByteSize) = gap.toByteArray ∧
      Text.IsGap (∀ t ∈ back.head?, t.kind = .newline) gap.toList
  /-- Every line feed of the source is one token. -/
  newlines : ∀ before after, source = before ++ "\n" ++ after →
    ts.count ⟨.newline, "\n", ⟨before.utf8ByteSize, before.utf8ByteSize + 1⟩⟩ = 1
  /-- No other token has a line feed in it. -/
  newline_iff : ∀ t ∈ ts, t.kind = .newline ↔ '\n' ∈ t.text.toList
  newline_text : ∀ t ∈ ts, t.kind = .newline → t.text = "\n"

/-- A token is a line end exactly if a line feed is in its text. -/
theorem Piece.newline_iff {kind : Kind} {text : List Char} (h : Piece kind text) :
    kind = .newline ↔ '\n' ∈ text := by
  rcases h.newline with ⟨rfl, rfl⟩ | ⟨hkind, hline⟩
  · simp
  · exact ⟨fun h => absurd h hkind, fun h => absurd h hline⟩

/-- The text of a line end is the line feed. -/
theorem Piece.text_eq {kind : Kind} {text : List Char} (h : Piece kind text)
    (hkind : kind = .newline) : text = ['\n'] :=
  (h.newline.resolve_right fun h => h.1 hkind).2

/-- The end of the tokens is where the last of them ends. -/
theorem stop_endSpan (ts : List Token) :
    (endSpan ts).stop = (ts.getLast?.map (·.span.stop)).getD 0 := by
  rw [endSpan]
  cases ts.getLast? with
  | none => rfl
  | some t => rfl

namespace Woven

variable {source : String} {ts : List Token} (h : Woven 0 source.toList ts)
include h

/-- The text of a token of the source is one that a token of its kind may have. -/
theorem piece {t : Token} (ht : t ∈ ts) : Piece t.kind t.text.toList := by
  obtain ⟨before, after, -, piece, -, -⟩ := h.exists_of_mem ht
  exact piece

/-- A token stands in the source at its span. -/
theorem cuts {t : Token} (ht : t ∈ ts) : t.span.Cuts source t.text := by
  obtain ⟨before, after, hsource, -, hstart, hstop⟩ := h.exists_of_mem ht
  have hcuts := Span.cuts_of_toList hsource (hstart.trans (Nat.zero_add _)) hstop
  rwa [String.ofList_toList] at hcuts

/-- A token has at least one byte. -/
theorem start_lt_stop {t : Token} (ht : t ∈ ts) : t.span.start < t.span.stop := by
  obtain ⟨before, after, -, piece, -, hstop⟩ := h.exists_of_mem ht
  rw [hstop]
  exact Nat.lt_add_of_pos_right (Text.byteLength_pos piece.ne_nil)

/-- No token comes twice, since no two have a byte in common. -/
theorem nodup : ts.Nodup := by
  refine h.pairwise.imp_of_mem fun ht _ hle => ?_
  rintro rfl
  exact absurd hle (Nat.not_le_of_lt (h.start_lt_stop ht))

/-- A gap stands in the source between the places where the tokens around it end and begin. -/
theorem exists_cuts_gap {front back : List Token} (hts : ts = front ++ back) :
    ∃ gap, Span.Cuts ⟨(endSpan front).stop,
        (back.head?.map (·.span.start)).getD source.utf8ByteSize⟩ source gap ∧
      Text.IsGap (∀ t ∈ back.head?, t.kind = .newline) gap.toList := by
  rw [hts] at h
  obtain ⟨before, gap, after, hsource, hgap, hstop, hstart⟩ := h.exists_gap
  rw [Nat.zero_add] at hstop
  rw [Nat.zero_add, Nat.zero_add, Text.byteLength_toList] at hstart
  rw [stop_endSpan, hstop, hstart]
  exact ⟨String.ofList gap, Span.cuts_of_toList hsource rfl rfl, by rwa [String.toList_ofList]⟩

/-- A line feed in the source is one token. -/
theorem count_newline {before after : String} (hsource : source = before ++ "\n" ++ after) :
    ts.count ⟨.newline, "\n", ⟨before.utf8ByteSize, before.utf8ByteSize + 1⟩⟩ = 1 := by
  have hchars : source.toList = before.toList ++ '\n' :: after.toList := by simp [hsource]
  have hmem := h.newline_mem hchars
  rw [Text.byteLength_toList, Nat.zero_add] at hmem
  exact List.count_eq_one_of_mem h.nodup hmem

end Woven

/-- **Cutting a source partitions it** into tokens and gaps.
Source: `lex`. -/
theorem scan_partition {source : String} {ts : List Token} (h : scan source = .ok ts) :
    Partition source ts := by
  have hwoven : Woven 0 source.toList ts := .of_scanFrom h
  refine {
    text_ne_empty := fun t ht hempty => (hwoven.piece ht).ne_nil (by rw [hempty]; rfl)
    bytes := fun t ht => (hwoven.cuts ht).bytes_eq
    boundaries := fun t ht => ⟨(hwoven.cuts ht).isValid_start, (hwoven.cuts ht).isValid_stop⟩
    span_nonempty := fun t ht => hwoven.start_lt_stop ht
    apart := hwoven.pairwise
    gaps := fun front back hts => ?_
    newlines := fun before after hsource => hwoven.count_newline hsource
    newline_iff := fun t ht => (hwoven.piece ht).newline_iff
    newline_text := fun t ht hkind => ?_ }
  · obtain ⟨gap, hcuts, hgap⟩ := hwoven.exists_cuts_gap hts
    exact ⟨gap, hcuts.bytes_eq, hgap⟩
  · exact String.toList_inj.mp ((hwoven.piece ht).text_eq hkind)

/-- A comment behind a letter of two bytes, one at the end, and a string that looks like one. -/
theorem scan_partition_of_comments :
    let source := "é~~ ü\n\t'~~'-> ~~"
    let ts : List Token := [⟨.ident, "é", ⟨0, 2⟩⟩, ⟨.newline, "\n", ⟨7, 8⟩⟩, ⟨.str, "'~~'", ⟨9, 13⟩⟩,
      ⟨.arrow, "->", ⟨13, 15⟩⟩]
    scan source = .ok ts ∧ Partition source ts := by
  intro source ts
  have hscan : scan source = .ok ts := scan_of_scanWithin 10 (by decide +kernel)
  exact ⟨hscan, scan_partition hscan⟩

end Token

end FuncDecl
