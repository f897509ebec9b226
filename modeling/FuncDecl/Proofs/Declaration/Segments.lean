import FuncDecl.Proofs.Declaration.Registry
import FuncDecl.Proofs.Declaration.Scanning
import FuncDecl.Proofs.Token.Partition

/-!
# The segments of a parameter list

A parameter list is cut into segments by its commas and ended by its closing parenthesis, but only
by those that are outermost. All of this is said by the tokens alone.

* `OpensFirst`: a part is opened by the first token that can open it. Such a part begins
  nowhere else (`OpensFirst.unique`).
* `Segment`: a name, perhaps a type behind the first colon, and perhaps a default value behind the
  first equals sign outside of angle brackets.
* `Outermost ts`: a mark behind these tokens is outermost. In front of the equals sign of a segment
  this is outside of all angle brackets; behind it, outside of all groups, and angle brackets mean
  nothing.
* `Splits ts close cuts last`: the tokens are segments that go on to commas, and a last one that
  goes on to the parenthesis.
* `Segment.entry`: the table entry that a segment stands for.
* `ParamScan.Tracks s p`: the scan has read a segment so far. One token keeps this
  (`ParamScan.Tracks.take`), and by induction a whole list does
  (`ParamScan.exists_tracked_splits_of_run`).
* `readParams_segments`: **a parameter list is cut at its outermost commas and nowhere else**, and
  the table is what the segments say.
-/

namespace FuncDecl

/-! ## A part behind the first mark -/

/-- A token of a list with one more at its end is that one or stands in front of it. -/
theorem concat_eq_append_cons {α : Type} {xs before after : List α} {x y : α}
    (h : xs ++ [x] = before ++ y :: after) :
    (before = xs ∧ y = x) ∨ ∃ rest, xs = before ++ y :: rest := by
  obtain rfl | ⟨rest, z, rfl⟩ := after.eq_nil_or_concat
  · obtain ⟨rfl, hx⟩ := List.append_inj' h rfl
    exact .inl ⟨rfl, (List.singleton_inj.mp hx).symm⟩
  · rw [List.concat_eq_append, ← List.cons_append, ← List.append_assoc] at h
    exact .inr ⟨rest, (List.append_inj' h rfl).1⟩

/-- A part of a parameter that a mark opens: the mark and the tokens behind it, if there is one. -/
abbrev MarkedPart := Option (Token × List Token)

namespace MarkedPart

/-- The tokens of a part with its mark. -/
def tokens : MarkedPart → List Token
  | none => []
  | some (mark, ts) => mark :: ts

/-- The first token of a part is its mark. -/
theorem tokens_eq_cons_iff {part : MarkedPart} {mark : Token} {ts : List Token} :
    part.tokens = mark :: ts ↔ part = some (mark, ts) := by
  cases part with
  | none => simp [tokens]
  | some opened => simp [tokens, Prod.ext_iff]

/-- A part is known by its tokens. -/
theorem tokens_injective : Function.Injective tokens := by
  rintro (_ | ⟨mark, ts⟩) part h
  · cases part with
    | none => rfl
    | some opened => simp [tokens] at h
  · exact (tokens_eq_cons_iff.mp h.symm).symm

end MarkedPart

/-- A part is opened by the first token that can open it. Whether it can may depend on the tokens in
front of it. -/
structure OpensFirst (opens : List Token → Token → Prop) (front : List Token) (part : MarkedPart) :
    Prop where
  none_before : ∀ before t after, front = before ++ t :: after → ¬ opens before t
  mark : ∀ opened ∈ part, opens front opened.1

namespace OpensFirst

variable {opens : List Token → Token → Prop} {front front' : List Token} {part part' : MarkedPart}
  {t : Token}

/-- Where there are no tokens, no part is opened. -/
theorem nil : OpensFirst opens [] none :=
  ⟨by simp, by simp⟩

/-- A token that can open the part opens it. -/
theorem start (h : OpensFirst opens front none) (ht : opens front t) :
    OpensFirst opens front (some (t, [])) :=
  ⟨h.none_before, by simpa using ht⟩

/-- A token that cannot open the part goes to what is in front of it. -/
theorem skip (h : OpensFirst opens front none) (ht : ¬ opens front t) :
    OpensFirst opens (front ++ [t]) none := by
  refine ⟨fun before u after heq => ?_, by simp⟩
  obtain ⟨rfl, rfl⟩ | ⟨rest, hfront⟩ := concat_eq_append_cons heq
  · exact ht
  · exact h.none_before before u rest hfront

/-- What is behind the mark does not matter. -/
theorem extend {mark : Token} {ts : List Token} (h : OpensFirst opens front (some (mark, ts)))
    (us : List Token) : OpensFirst opens front (some (mark, us)) :=
  ⟨h.none_before, by simpa using h.mark⟩

/-- A part does not begin further behind in the same tokens. -/
theorem eq_nil_of_longer {rest : List Token} (h : OpensFirst opens front part)
    (h' : OpensFirst opens (front ++ rest) part') (heq : part.tokens = rest ++ part'.tokens) :
    rest = [] := by
  cases rest with
  | nil => rfl
  | cons t rest =>
    have hpart := MarkedPart.tokens_eq_cons_iff.mp heq
    exact absurd (h.mark _ hpart) (h'.none_before front t rest rfl)

/-- A part that is opened by its first mark begins nowhere else. -/
theorem unique (h : OpensFirst opens front part) (h' : OpensFirst opens front' part')
    (heq : front ++ part.tokens = front' ++ part'.tokens) : front = front' ∧ part = part' := by
  have hfront : front = front' := by
    obtain ⟨rest, rfl, hpart⟩ | ⟨rest, rfl, hpart⟩ := List.append_eq_append_iff.mp heq
    · rw [h.eq_nil_of_longer h' hpart, List.append_nil]
    · rw [h'.eq_nil_of_longer h hpart, List.append_nil]
  subst hfront
  exact ⟨rfl, MarkedPart.tokens_injective (List.append_cancel_left heq)⟩

end OpensFirst

/-! ## Segments -/

/-- The joined text of tokens. -/
def Token.joined (style : Text.CommaStyle) (ts : List Token) : String :=
  Text.attachAll style "" (ts.map Token.word)

/-- The depth of groups behind tokens; a mark that closes nothing leaves it at zero. -/
def groupDepth (ts : List Token) : Nat :=
  ts.foldl (fun depth t => t.kind.groupDepth depth) 0

/-- The tokens of a parameter by what they are read as. -/
structure SegmentParts where
  name : List Token := []
  /-- The colon and the type. -/
  type : MarkedPart := none
  /-- The equals sign and the default value. -/
  default : MarkedPart := none

/-- The tokens in front of the default value. -/
def SegmentParts.front (p : SegmentParts) : List Token :=
  p.name ++ p.type.tokens

/-- The tokens of a list from one outermost mark to the next: the first colon opens the type, and
the first equals sign outside of angle brackets opens the default value. -/
structure Segment extends SegmentParts where
  type_opens : OpensFirst (fun _ t => t.kind = .colon) name type
  default_opens :
    OpensFirst (fun before t => t.kind = .equals ∧ angleDepth before = 0) toSegmentParts.front default

namespace Segment

variable {p : Segment}

/-- All tokens of a segment. -/
def tokens (p : Segment) : List Token :=
  p.front ++ p.default.tokens

/-- The tokens of the default value. -/
def value (p : Segment) : List Token :=
  p.default.tokens.tail

/-- A segment without a default value is its front. -/
theorem tokens_of_default_eq_none (h : p.default = none) : p.tokens = p.front := by
  rw [tokens, h, MarkedPart.tokens, List.append_nil]

/-- A segment without a default value has no tokens of one. -/
theorem value_of_default_eq_none (h : p.default = none) : p.value = [] := by
  rw [value, h]
  rfl

/-- A segment is known by its tokens, from `OpensFirst.unique`. -/
theorem tokens_injective : Function.Injective tokens := by
  intro p q h
  obtain ⟨hfront, hdefault⟩ := p.default_opens.unique q.default_opens h
  obtain ⟨hname, htype⟩ := p.type_opens.unique q.type_opens hfront
  obtain ⟨⟨name, type, default⟩, _, _⟩ := p
  obtain ⟨⟨name', type', default'⟩, _, _⟩ := q
  obtain rfl : name = name' := hname
  obtain rfl : type = type' := htype
  obtain rfl : default = default' := hdefault
  rfl

/-- The segment without tokens. -/
def empty : Segment where
  type_opens := .nil
  default_opens := .nil

/-- The empty segment has no tokens. -/
theorem tokens_empty : empty.tokens = [] := rfl

/-- The table entry that a segment stands for. -/
def entry (p : Segment) : String × ParamInfo :=
  (Token.joined .tight p.name,
    { type := (p.type.map fun opened => Token.joined .tight opened.2).getD "Any"
      generic := p.type.isSome && p.front.any (·.kind == .less)
      default := p.default.map fun opened => Token.joined .spaced opened.2
      annotated := p.type.isSome })

/-- The table entries of segments. A segment without tokens has none. -/
def entries (segments : List Segment) : List (String × ParamInfo) :=
  (segments.filter fun p => p.tokens ≠ []).map entry

/-- The first segment gives an entry if it has tokens. -/
theorem entries_cons (p : Segment) (segments : List Segment) :
    entries (p :: segments) = (if p.tokens = [] then [] else [p.entry]) ++ entries segments := by
  by_cases h : p.tokens = [] <;> simp [entries, h]

/-- The entries of segments in a row. -/
theorem entries_append (segments more : List Segment) :
    entries (segments ++ more) = entries segments ++ entries more := by
  rw [entries, List.filter_append, List.map_append]
  rfl

end Segment

/-- A mark behind these tokens of a segment is outermost: if they have no default value, they close
all angle brackets; if they have one, it closes all groups. -/
def Outermost (ts : List Token) : Prop :=
  ∃ p : Segment, p.tokens = ts ∧ angleDepth p.front = 0 ∧ groupDepth p.value = 0

/-- A mark behind a segment is outermost exactly if both depths are zero. -/
theorem Segment.outermost_tokens_iff (p : Segment) :
    Outermost p.tokens ↔ angleDepth p.front = 0 ∧ groupDepth p.value = 0 := by
  refine ⟨?_, fun h => ⟨p, rfl, h⟩⟩
  rintro ⟨q, hq, h⟩
  obtain rfl := tokens_injective hq
  exact h

/-- Whether a token can end a segment. -/
def Token.Kind.EndsSegment (kind : Token.Kind) : Prop :=
  kind = .comma ∨ kind = .closeParen

/-- No mark inside a segment is outermost. -/
def Segment.Enclosed (p : Segment) : Prop :=
  ∀ before t after, p.tokens = before ++ t :: after → t.kind.EndsSegment → ¬ Outermost before

/-- The empty segment has no mark inside. -/
theorem Segment.enclosed_empty : Segment.empty.Enclosed := by
  intro before t after h
  simp [tokens_empty] at h

/-- A segment goes on to the first outermost mark. -/
structure Segment.EndsAt (p : Segment) (mark : Token) : Prop where
  mark : mark.kind.EndsSegment
  enclosed : p.Enclosed
  outermost : Outermost p.tokens

/-- Tokens in front of a closing parenthesis are segments: each but the last goes on to a comma, the
last to the parenthesis. -/
structure Splits (ts : List Token) (close : Token) (cuts : List (Segment × Token)) (last : Segment) :
    Prop where
  tokens_eq : ts = cuts.flatMap (fun cut => cut.1.tokens ++ [cut.2]) ++ last.tokens
  commas : ∀ cut ∈ cuts, cut.2.kind = .comma ∧ cut.1.EndsAt cut.2
  close : close.kind = .closeParen ∧ last.EndsAt close

/-! ## The draft of a segment -/

/-- The last token is joined to the text of the others. -/
theorem Token.joined_concat (style : Text.CommaStyle) (ts : List Token) (t : Token) :
    Token.joined style (ts ++ [t]) = Text.attach style (Token.joined style ts) t.text := by
  rw [joined, List.map_append, Text.attachAll_append]
  rfl

/-- Tokens with texts are joined to nothing only if there are none. -/
theorem Token.joined_eq_empty_iff {style : Text.CommaStyle} {ts : List Token}
    (h : ∀ t ∈ ts, t.text ≠ "") : Token.joined style ts = "" ↔ ts = [] := by
  obtain rfl | ⟨ts, t, rfl⟩ := ts.eq_nil_or_concat
  · exact ⟨fun _ => rfl, fun _ => rfl⟩
  · rw [List.concat_eq_append] at h ⊢
    rw [joined_concat, Text.attach_eq_empty_iff]
    simp [h t (by simp)]

/-- The depth of groups behind the last token. -/
theorem groupDepth_concat (ts : List Token) (t : Token) :
    groupDepth (ts ++ [t]) = t.kind.groupDepth (groupDepth ts) := by
  rw [groupDepth, List.foldl_append]
  rfl

/-- A draft holds the texts of the parts of a segment. -/
structure Draft.Writes (d : Draft) (p : Segment) : Prop where
  name : d.name = Token.joined .tight p.name
  type : d.type = p.type.map fun opened => Token.joined .tight opened.2
  default : d.default = p.default.map fun opened => Token.joined .spaced opened.2
  generic : d.generic = p.front.any (·.kind == .less)

namespace Draft.Writes

variable {d : Draft} {p : Segment} {t : Token}

/-- A draft is blank exactly if nothing of its segment was read. -/
theorem isBlank_iff (h : d.Writes p) (htext : ∀ t ∈ p.tokens, t.text ≠ "") :
    d.isBlank = true ↔ p.tokens = [] := by
  have hname : d.name = "" ↔ p.name = [] := by
    rw [h.name]
    refine Token.joined_eq_empty_iff fun t ht => htext t ?_
    simp [Segment.tokens, SegmentParts.front, ht]
  have htokens : p.tokens = [] ↔ p.name = [] ∧ p.type = none ∧ p.default = none := by
    rw [Segment.tokens, SegmentParts.front]
    cases p.type <;> cases p.default <;> simp [MarkedPart.tokens]
  rw [htokens, ← hname, isBlank, h.type, h.default]
  simp [and_assoc]

/-- A draft that is complete gives the entry of its segment. -/
theorem info_eq (h : d.Writes p) {info : ParamInfo} (hinfo : d.info = .ok info) :
    (d.name, info) = p.entry := by
  have hfields :
      info = ⟨d.type.getD "Any", d.type.isSome && d.generic, d.default, d.type.isSome⟩ := by
    rw [Draft.info] at hinfo
    cases htype : d.type with
    | none =>
      simp only [htype] at hinfo
      split at hinfo
      · exact (Except.ok.inj hinfo).symm
      · cases hinfo
    | some type =>
      simp only [htype] at hinfo
      split at hinfo
      · cases hinfo
      · split at hinfo
        · cases hinfo
        · exact (Except.ok.inj hinfo).symm
  rw [hfields, h.name, h.type, h.default, h.generic, Option.isSome_map]
  rfl

/-- What a draft adds to the table when its segment ends. -/
theorem entries_commit (h : d.Writes p) (htext : ∀ t ∈ p.tokens, t.text ≠ "")
    {table table' : ParamTable} {ending : Span} (hcommit : d.commit table ending = .ok table') :
    table'.entries = table.entries ++ if p.tokens = [] then [] else [p.entry] := by
  obtain ⟨hblank, rfl⟩ | ⟨hblank, -, hnew, info, hinfo, rfl⟩ := commit_eq_ok_cases hcommit
  · rw [if_pos ((h.isBlank_iff htext).mp hblank), List.append_nil]
  · rw [if_neg fun hnil => by simp [(h.isBlank_iff htext).mpr hnil] at hblank,
      Table.entries_insert_of_new hnew, h.info_eq hinfo]

end Draft.Writes

/-! ## The scan of a segment -/

/-- The draft with a note on whether an angle bracket opens. -/
def Draft.heed (d : Draft) (t : Token) : Draft :=
  { d with generic := d.generic || t.kind == .less }

/-- Only an opening bracket is noted. -/
theorem Draft.heed_of_ne_less (d : Draft) {t : Token} (h : t.kind ≠ .less) : d.heed t = d := by
  rw [heed, beq_false_of_ne h, Bool.or_false]

namespace Draft.Writes

variable {d : Draft} {p : Segment} {t : Token}

/-- A token in front of the default value that opens nothing goes on with the name or the type. -/
theorem push (h : d.Writes p) (hdefault : p.default = none)
    (hcolon : p.type = none → t.kind ≠ .colon)
    (hmark : t.kind = .equals → angleDepth p.front ≠ 0) :
    ∃ p' : Segment, p'.front = p.front ++ [t] ∧ p'.default = none ∧
      ((d.heed t).push t).Writes p' := by
  obtain ⟨⟨name, type, default⟩, htype, hopens⟩ := p
  obtain ⟨hn, ht, hd, hg⟩ := h
  obtain rfl : default = none := hdefault
  have hskip : ¬ (t.kind = .equals ∧ angleDepth (name ++ type.tokens) = 0) :=
    fun ⟨hequals, hdepth⟩ => hmark hequals hdepth
  have hdefault := hopens.skip hskip
  have hgeneric : (d.generic || t.kind == .less) =
      (name ++ type.tokens ++ [t]).any (·.kind == .less) := by
    rw [hg, List.any_append]
    simp [SegmentParts.front]
  cases type with
  | none =>
    have hfront : (⟨name ++ [t], none, none⟩ : SegmentParts).front = name ++ [] ++ [t] := by
      simp [SegmentParts.front, MarkedPart.tokens]
    refine ⟨⟨⟨name ++ [t], none, none⟩, htype.skip (hcolon rfl), hfront ▸ hdefault⟩, hfront, rfl, ?_⟩
    rw [Option.map_none] at hd ht
    rw [Draft.push, heed, hd, ht]
    exact ⟨by rw [hn, Token.joined_concat], rfl, rfl, by rw [hfront]; exact hgeneric⟩
  | some opened =>
    have hfront : (⟨name, some (opened.1, opened.2 ++ [t]), none⟩ : SegmentParts).front =
        name ++ MarkedPart.tokens (some opened) ++ [t] := by
      simp [SegmentParts.front, MarkedPart.tokens]
    refine ⟨⟨⟨name, some (opened.1, opened.2 ++ [t]), none⟩, htype.extend _, hfront ▸ hdefault⟩,
      hfront, rfl, ?_⟩
    rw [Option.map_some] at ht
    rw [Option.map_none] at hd
    rw [Draft.push, heed, hd, ht]
    exact ⟨hn, by rw [Option.map_some, Token.joined_concat], rfl, by rw [hfront]; exact hgeneric⟩

/-- The first colon opens the type. -/
theorem open_type (h : d.Writes p) (hdefault : p.default = none) (htype : p.type = none)
    (hkind : t.kind = .colon) :
    ∃ p' : Segment, p'.front = p.front ++ [t] ∧ p'.default = none ∧
      ({ d with type := some "" } : Draft).Writes p' := by
  obtain ⟨⟨name, type, default⟩, hopens, hmark⟩ := p
  obtain ⟨hn, ht, hd, hg⟩ := h
  obtain rfl : default = none := hdefault
  obtain rfl : type = none := htype
  have hfront : (⟨name, some (t, []), none⟩ : SegmentParts).front = name ++ [] ++ [t] := by
    simp [SegmentParts.front, MarkedPart.tokens]
  refine ⟨⟨⟨name, some (t, []), none⟩, hopens.start hkind, hfront ▸ hmark.skip ?_⟩, hfront, rfl, ?_⟩
  · simp [hkind]
  · refine ⟨hn, rfl, hd, ?_⟩
    rw [hfront, List.any_append, hg]
    simp [hkind, SegmentParts.front, MarkedPart.tokens]

/-- The first equals sign outside of angle brackets opens the default value. -/
theorem open_value (h : d.Writes p) (hdefault : p.default = none) (hkind : t.kind = .equals)
    (hdepth : angleDepth p.front = 0) :
    ∃ p' : Segment, p'.tokens = p.tokens ++ [t] ∧ p'.front = p.front ∧ p'.value = [] ∧
      ({ d with default := some "" } : Draft).Writes p' := by
  obtain ⟨⟨name, type, default⟩, hopens, hmark⟩ := p
  obtain ⟨hn, ht, hd, hg⟩ := h
  obtain rfl : default = none := hdefault
  refine ⟨⟨⟨name, type, some (t, [])⟩, hopens, hmark.start ⟨hkind, hdepth⟩⟩, ?_, rfl, rfl,
    ⟨hn, ht, rfl, hg⟩⟩
  simp [Segment.tokens, SegmentParts.front, MarkedPart.tokens]

/-- A token of the default value goes on with it. -/
theorem push_value (h : d.Writes p) (hdefault : p.default.isSome = true) :
    ∃ p' : Segment, p'.tokens = p.tokens ++ [t] ∧ p'.front = p.front ∧ p'.value = p.value ++ [t] ∧
      (d.push t).Writes p' := by
  obtain ⟨⟨name, type, default⟩, htype, hopens⟩ := p
  obtain ⟨hn, ht, hd, hg⟩ := h
  obtain ⟨⟨mark, value⟩, rfl⟩ := Option.isSome_iff_exists.mp hdefault
  refine ⟨⟨⟨name, type, some (mark, value ++ [t])⟩, htype, hopens.extend _⟩, ?_, rfl, rfl, ?_⟩
  · simp [Segment.tokens, SegmentParts.front, MarkedPart.tokens]
  · rw [Option.map_some] at hd
    rw [Draft.push, hd]
    exact ⟨hn, ht, by rw [Option.map_some, Token.joined_concat], hg⟩

end Draft.Writes

namespace ParamScan

variable {s s' : ParamScan} {p : Segment} {t : Token}

/-- The scan has read a segment so far. -/
structure Tracks (s : ParamScan) (p : Segment) : Prop where
  writes : s.draft.Writes p
  angles : (s.angles : Int) = angleDepth p.front
  groups : s.groups = groupDepth p.value
  /-- No angle bracket was closed that was not open. -/
  nonneg : ∀ front, front <+: p.front → 0 ≤ angleDepth front

/-- The scan takes a token into the segment that it reads. -/
def Takes (s : ParamScan) (t : Token) (s' : ParamScan) : Prop :=
  s.draft.default.isSome = true ∧ s' = s.stepDefault t ∨
    s.draft.default = none ∧ s.stepTyped t = .more s'

/-- All that a token in front of a default value does to a scan that goes on. -/
theorem stepTyped_eq_more_cases (h : s.stepTyped t = .more s') :
    (t.kind = .equals ∧ s.angles = 0 ∧
      s' = { s with draft := { s.draft with default := some "" } }) ∨
    (t.kind = .colon ∧ s.draft.type = none ∧
      s' = { s with draft := { s.draft with type := some "" } }) ∨
    ((t.kind = .equals → s.angles ≠ 0) ∧ (s.draft.type = none → t.kind ≠ .colon) ∧
      ∃ angles : Nat, (angles : Int) = s.angles + t.angle ∧
        s' = { s with angles, draft := (s.draft.heed t).push t }) := by
  rw [stepTyped] at h
  split at h
  · next hkind =>
    refine .inr (.inr ⟨by simp [hkind], by simp [hkind], s.angles + 1, ?_, ?_⟩)
    · simp [Token.angle, hkind]
    · rw [Draft.heed, hkind, ← Outcome.more.inj h, beq_self_eq_true, Bool.or_true]
  · next hkind =>
    split at h
    · cases h
    · next hangles =>
      refine .inr (.inr ⟨by simp [hkind], by simp [hkind], s.angles - 1, ?_, ?_⟩)
      · simp only [Token.angle, hkind]
        omega
      · rw [s.draft.heed_of_ne_less (by simp [hkind]), ← Outcome.more.inj h]
        rfl
  · next hkind =>
    split at h
    · next hangles => exact .inl ⟨hkind, hangles, (Outcome.more.inj h).symm⟩
    · next hangles =>
      refine .inr (.inr ⟨fun _ => hangles, by simp [hkind], s.angles, ?_, ?_⟩)
      · simp [Token.angle, hkind]
      · rw [s.draft.heed_of_ne_less (by simp [hkind]), ← Outcome.more.inj h]
        rfl
  · next hkind =>
    split at h
    · next htype => exact .inr (.inl ⟨hkind, by simpa using htype, (Outcome.more.inj h).symm⟩)
    · next htype =>
      refine .inr (.inr ⟨by simp [hkind], fun hnone => by simp [hnone] at htype, s.angles, ?_, ?_⟩)
      · simp [Token.angle, hkind]
      · rw [s.draft.heed_of_ne_less (by simp [hkind]), ← Outcome.more.inj h]
        rfl
  · next hless hgreater hequals hcolon =>
    refine .inr (.inr ⟨fun h => absurd h hequals, fun _ => hcolon, s.angles, ?_, ?_⟩)
    · simp [Token.angle]
    · rw [s.draft.heed_of_ne_less hless, ← Outcome.more.inj h]
      rfl

/-- In front of a default value only commas and parentheses end the list. -/
theorem stepTyped_ne_done_ok (s : ParamScan) (t : Token) (table : ParamTable) :
    s.stepTyped t ≠ .done (.ok table) := by
  rw [stepTyped]
  split
  · simp
  · split <;> simp
  · split <;> simp
  · split <;> simp
  · simp

/-- All that a token does to a scan that goes on. -/
theorem step_eq_more_cases (h : s.step t = .more s') :
    (t.kind = .newline ∧ s' = s) ∨
    (t.kind = .comma ∧ (s.angles = 0 ∧ s.groups = 0) ∧
      ∃ table, s.draft.commit s.table t.span = .ok table ∧ s' = { s with table, draft := {} }) ∨
    (t.kind ≠ .newline ∧ (t.kind.EndsSegment → ¬ (s.angles = 0 ∧ s.groups = 0)) ∧
      s.Takes t s') := by
  rw [step] at h
  split at h
  · next hline => exact .inl ⟨hline, (Outcome.more.inj h).symm⟩
  next hline =>
  refine .inr ?_
  split at h
  · next hcomma =>
    split at h
    · next table hcommit => exact .inl ⟨hcomma.1, hcomma.2, table, hcommit, (Outcome.more.inj h).symm⟩
    · cases h
  next hcomma =>
  split at h
  · split at h <;> cases h
  next hclose =>
  refine .inr ⟨hline, ?_, ?_⟩
  · rintro (hkind | hkind) hdepth
    · exact hcomma ⟨hkind, hdepth⟩
    · exact hclose ⟨hkind, hdepth.2⟩
  · split at h
    · next hdefault => exact .inl ⟨hdefault, (Outcome.more.inj h).symm⟩
    · next hdefault => exact .inr ⟨by simpa using hdefault, h⟩

/-- A scan that ends well ends at a closing parenthesis. -/
theorem step_eq_done_cases {table : ParamTable} (h : s.step t = .done (.ok table)) :
    t.kind = .closeParen ∧ (s.angles = 0 ∧ s.groups = 0) ∧
      s.draft.commit s.table t.span = .ok table := by
  rw [step] at h
  split at h
  · cases h
  split at h
  · split at h <;> cases h
  split at h
  · next hclose =>
    split at h
    · next hangles => exact ⟨hclose.1, ⟨hangles, hclose.2⟩, Outcome.done.inj h⟩
    · cases h
  split at h
  · cases h
  · exact absurd h (s.stepTyped_ne_done_ok t table)

/-- The scan tells by its counts whether a mark would be outermost. -/
theorem Tracks.outermost_iff (h : s.Tracks p) :
    Outermost p.tokens ↔ s.angles = 0 ∧ s.groups = 0 := by
  rw [p.outermost_tokens_iff, ← h.angles, ← h.groups, Int.natCast_eq_zero]

/-- A token that goes on with the front of a segment. -/
theorem Tracks.of_front {p' : Segment} (h : s.Tracks p) (hdefault : p.default = none)
    (hdefault' : p'.default = none) (hfront : p'.front = p.front ++ [t])
    (hwrites : s'.draft.Writes p') (hangles : (s'.angles : Int) = s.angles + t.angle)
    (hgroups : s'.groups = s.groups) : p'.tokens = p.tokens ++ [t] ∧ s'.Tracks p' := by
  have hdepth : (s'.angles : Int) = angleDepth p'.front := by
    rw [hfront, angleDepth_concat, ← h.angles, hangles]
  refine ⟨?_, hwrites, hdepth, ?_, fun front hprefix => ?_⟩
  · rw [p.tokens_of_default_eq_none hdefault, p'.tokens_of_default_eq_none hdefault', hfront]
  · rw [hgroups, h.groups, p.value_of_default_eq_none hdefault,
      p'.value_of_default_eq_none hdefault']
  · rw [hfront, List.prefix_concat_iff, ← hfront] at hprefix
    rcases hprefix with rfl | hprefix
    · rw [← hdepth]
      exact Int.natCast_nonneg s'.angles
    · exact h.nonneg front hprefix

/-- A token that is taken into a segment is its last one. -/
theorem Tracks.take (h : s.Tracks p) (htake : s.Takes t s') :
    ∃ p' : Segment, p'.tokens = p.tokens ++ [t] ∧ s'.Tracks p' ∧ s'.table = s.table := by
  obtain ⟨hdefault, rfl⟩ | ⟨hdefault, hstep⟩ := htake
  · rw [h.writes.default, Option.isSome_map] at hdefault
    obtain ⟨p', htokens, hfront, hvalue, hwrites⟩ := h.writes.push_value hdefault
    refine ⟨p', htokens, ⟨hwrites, ?_, ?_, hfront ▸ h.nonneg⟩, rfl⟩
    · rw [hfront]
      exact h.angles
    · rw [hvalue, groupDepth_concat, ← h.groups]
      rfl
  · rw [h.writes.default, Option.map_eq_none_iff] at hdefault
    obtain ⟨hkind, hangles, rfl⟩ | ⟨hkind, htype, rfl⟩ | ⟨hmark, hcolon, angles, hangles, rfl⟩ :=
      stepTyped_eq_more_cases hstep
    · -- the equals sign that opens the default value
      have hdepth : angleDepth p.front = 0 := by
        rw [← h.angles, hangles]
        rfl
      obtain ⟨p', htokens, hfront, hvalue, hwrites⟩ := h.writes.open_value hdefault hkind hdepth
      refine ⟨p', htokens, ⟨hwrites, ?_, ?_, hfront ▸ h.nonneg⟩, rfl⟩
      · rw [hfront]
        exact h.angles
      · rw [hvalue, ← p.value_of_default_eq_none hdefault]
        exact h.groups
    · -- the colon that opens the type
      rw [h.writes.type, Option.map_eq_none_iff] at htype
      obtain ⟨p', hfront, hdefault', hwrites⟩ := h.writes.open_type hdefault htype hkind
      have hangles : (s.angles : Int) = s.angles + t.angle := by simp [Token.angle, hkind]
      exact ⟨p', and_assoc.mp ⟨h.of_front hdefault hdefault' hfront hwrites hangles rfl, rfl⟩⟩
    · -- a token of the name or of the type
      have hmark' : t.kind = .equals → angleDepth p.front ≠ 0 := by
        intro hkind
        have := h.angles
        have := hmark hkind
        omega
      rw [h.writes.type, Option.map_eq_none_iff] at hcolon
      obtain ⟨p', hfront, hdefault', hwrites⟩ := h.writes.push hdefault hcolon hmark'
      exact ⟨p', and_assoc.mp ⟨h.of_front hdefault hdefault' hfront hwrites hangles rfl, rfl⟩⟩

/-- A scan that begins a segment has read nothing of it. -/
theorem tracks_empty (hdraft : s.draft = {}) (hdepth : s.angles = 0 ∧ s.groups = 0) :
    s.Tracks .empty where
  writes := by
    rw [hdraft]
    exact ⟨rfl, rfl, rfl, rfl⟩
  angles := congrArg Nat.cast hdepth.1
  groups := hdepth.2
  nonneg front hprefix := by
    rw [List.prefix_nil.mp hprefix]
    exact Int.le_refl 0

/-- A mark where a scan goes on is not outermost. -/
theorem Tracks.enclosed {p' : Segment} (h : s.Tracks p) (hp : p.Enclosed)
    (hmark : t.kind.EndsSegment → ¬ (s.angles = 0 ∧ s.groups = 0))
    (htokens : p'.tokens = p.tokens ++ [t]) : p'.Enclosed := by
  intro before u after heq hu
  obtain ⟨rfl, rfl⟩ | ⟨rest, hrest⟩ := concat_eq_append_cons (htokens.symm.trans heq)
  · rw [h.outermost_iff]
    exact hmark hu
  · exact hp before u rest hrest hu

/-- A mark where both counts are zero ends the segment. -/
theorem Tracks.endsAt (h : s.Tracks p) (hp : p.Enclosed) (hmark : t.kind.EndsSegment)
    (hdepth : s.angles = 0 ∧ s.groups = 0) : p.EndsAt t :=
  ⟨hmark, hp, h.outermost_iff.mpr hdepth⟩

end ParamScan

/-! ## The scan of a list -/

/-- The tokens in front of a place in a list: whole segments, each with the comma that it goes on to,
and the segment that the place is in, as far as it has come. -/
structure Begins (ts : List Token) (cuts : List (Segment × Token)) (current : Segment) : Prop where
  tokens_eq : ts = cuts.flatMap (fun cut => cut.1.tokens ++ [cut.2]) ++ current.tokens
  commas : ∀ cut ∈ cuts, cut.2.kind = .comma ∧ cut.1.EndsAt cut.2
  enclosed : current.Enclosed

/-- A whole segment stands in front of those that were cut. -/
theorem Begins.cons {p current : Segment} {comma : Token} {ts : List Token}
    {cuts : List (Segment × Token)} (h : Begins ts cuts current) (hcomma : comma.kind = .comma)
    (hends : p.EndsAt comma) : Begins (p.tokens ++ comma :: ts) ((p, comma) :: cuts) current where
  tokens_eq := by
    rw [h.tokens_eq]
    simp
  commas := by simpa [hcomma, hends] using h.commas
  enclosed := h.enclosed

namespace ParamScan

variable {s s' : ParamScan} {p : Segment} {ts : List Token}

/-- The scan behind some tokens, unless one of them ends it. -/
def after? (s : ParamScan) : List Token → Option ParamScan
  | [] => some s
  | t :: ts =>
    match s.step t with
    | .more s' => after? s' ts
    | .done _ => none

/-- A step that goes on leads to the scan of the rest. -/
theorem after?_cons_of_more {t : Token} (h : s.step t = .more s') (ts : List Token) :
    s.after? (t :: ts) = s'.after? ts := by
  rw [after?, h]

/-- A scan that has come behind a token went on with it. -/
theorem exists_more_of_after? {t : Token} (h : s.after? (t :: ts) = some s') :
    ∃ s₁, s.step t = .more s₁ ∧ s₁.after? ts = some s' := by
  rw [after?] at h
  cases hstep : s.step t with
  | done result =>
    rw [hstep] at h
    cases h
  | more s₁ =>
    rw [hstep] at h
    exact ⟨s₁, rfl, h⟩

/-- A scan that ends well goes on up to a token that ends it. -/
theorem exists_after?_of_run {stop : Span} {rest : List Token} {table : ParamTable}
    (h : run stop s ts = (.ok table, rest)) :
    ∃ inner close s', ts = inner ++ close :: rest ∧ s.after? inner = some s' ∧
      s'.step close = .done (.ok table) := by
  induction ts generalizing s with
  | nil => cases congrArg Prod.fst h
  | cons t ts ih =>
    rw [run] at h
    cases hstep : s.step t with
    | done result =>
      rw [hstep] at h
      obtain ⟨rfl, rfl⟩ := Prod.mk.inj h
      exact ⟨[], t, s, rfl, rfl, hstep⟩
    | more s₁ =>
      rw [hstep] at h
      obtain ⟨inner, close, s', rfl, hafter, hdone⟩ := ih h
      exact ⟨t :: inner, close, s', rfl, (after?_cons_of_more hstep inner).trans hafter, hdone⟩

/-- A scan in the middle of a segment goes on with it. Wherever it has come to, it has cut the tokens
into segments and is in the middle of one. -/
theorem Tracks.exists_begins (h : s.after? ts = some s') (hs : s.Tracks p) (hp : p.Enclosed) :
    ∃ cuts current, Begins (p.tokens ++ ts.filter fun t => !t.isNewline) cuts current ∧
      s'.Tracks current ∧ (∀ cut ∈ cuts, ∃ s, Tracks s cut.1) ∧
      ((∀ t ∈ p.tokens ++ ts, t.text ≠ "") →
        s'.table.entries = s.table.entries ++ Segment.entries (cuts.map Prod.fst)) := by
  -- the segment so far grows with the tokens that are taken, and starts anew behind a comma
  induction ts generalizing s p with
  | nil =>
    obtain rfl := Option.some.inj h
    exact ⟨[], p, ⟨by simp, by simp, hp⟩, hs, by simp, fun _ => by simp [Segment.entries]⟩
  | cons t ts ih =>
    obtain ⟨s₁, hstep, hafter⟩ := exists_more_of_after? h
    obtain ⟨hline, rfl⟩ | ⟨hkind, hdepth, table, hcommit, rfl⟩ | ⟨hline, hmark, htake⟩ :=
      step_eq_more_cases hstep
    · -- a line end says nothing
      obtain ⟨cuts, current, hbegins, htracks, hcuts, hentries⟩ := ih hafter hs hp
      refine ⟨cuts, current, ?_, htracks, hcuts, fun htext => hentries fun u hu => htext u ?_⟩
      · rwa [List.filter_cons_of_neg (by simp [Token.isNewline, hline])]
      · exact List.mem_append.mpr ((List.mem_append.mp hu).imp_right (List.mem_cons_of_mem t))
    · -- a comma that ends the segment
      obtain ⟨cuts, current, hbegins, htracks, hcuts, hentries⟩ :=
        ih hafter (tracks_empty rfl hdepth) Segment.enclosed_empty
      refine ⟨(p, t) :: cuts, current, ?_, htracks, ?_, fun htext => ?_⟩
      · rw [List.filter_cons_of_pos (by simp [Token.isNewline, hkind])]
        exact hbegins.cons hkind (hs.endsAt hp (.inl hkind) hdepth)
      · exact List.forall_mem_cons.mpr ⟨⟨s, hs⟩, hcuts⟩
      · rw [List.forall_mem_append, List.forall_mem_cons] at htext
        rw [hentries (by simpa [Segment.tokens_empty] using htext.2.2),
          hs.writes.entries_commit htext.1 hcommit, List.map_cons, Segment.entries_cons,
          List.append_assoc]
    · -- a token of the segment
      obtain ⟨p', htokens, hs', htable⟩ := hs.take htake
      obtain ⟨cuts, current, hbegins, htracks, hcuts, hentries⟩ :=
        ih hafter hs' (hs.enclosed hp hmark htokens)
      rw [htokens, List.append_assoc] at hbegins hentries
      refine ⟨cuts, current, ?_, htracks, hcuts, htable ▸ hentries⟩
      rwa [List.filter_cons_of_pos (by simp [Token.isNewline, hline])]

/-- A scan that ends well cuts the list into segments up to the parenthesis where it ends, and has
followed each of them. -/
theorem exists_tracked_splits_of_run {stop : Span} {rest : List Token} {table : ParamTable}
    (h : run stop s ts = (.ok table, rest)) (htext : ∀ t ∈ ts, t.text ≠ "") (hs : s.Tracks p)
    (hp : p.Enclosed) (hptext : ∀ t ∈ p.tokens, t.text ≠ "") :
    ∃ inner close cuts last, ts = inner ++ close :: rest ∧
      Splits (p.tokens ++ inner.filter fun t => !t.isNewline) close cuts last ∧
      table.entries = s.table.entries ++ Segment.entries (cuts.map Prod.fst ++ [last]) ∧
      ∀ q ∈ cuts.map Prod.fst ++ [last], ∃ s, Tracks s q := by
  obtain ⟨inner, close, s', rfl, hafter, hdone⟩ := exists_after?_of_run h
  obtain ⟨hkind, hdepth, hcommit⟩ := step_eq_done_cases hdone
  obtain ⟨cuts, last, hbegins, htracks, hcuts, hentries⟩ := hs.exists_begins hafter hp
  rw [List.forall_mem_append] at htext
  have hlast : ∀ t ∈ last.tokens, t.text ≠ "" := by
    intro t ht
    have hmem : t ∈ p.tokens ++ inner.filter fun t => !t.isNewline := by
      rw [hbegins.tokens_eq]
      exact List.mem_append_right _ ht
    rcases List.mem_append.mp hmem with hmem | hmem
    · exact hptext t hmem
    · exact htext.1 t (List.mem_of_mem_filter hmem)
  refine ⟨inner, close, cuts, last, rfl, ⟨hbegins.tokens_eq, hbegins.commas, hkind,
    htracks.endsAt hbegins.enclosed (.inr hkind) hdepth⟩, ?_, ?_⟩
  · rw [htracks.writes.entries_commit hlast hcommit,
      hentries (List.forall_mem_append.mpr ⟨hptext, htext.1⟩), Segment.entries_append,
      Segment.entries_cons last, List.append_assoc]
    simp [Segment.entries]
  · rw [List.forall_mem_append, List.forall_mem_singleton, List.forall_mem_map]
    exact ⟨hcuts, s', htracks⟩

/-- The same without what the scan has followed, and with the entries that it adds. -/
theorem exists_splits_of_run {stop : Span} {rest : List Token} {table : ParamTable}
    (h : run stop s ts = (.ok table, rest)) (htext : ∀ t ∈ ts, t.text ≠ "") (hs : s.Tracks p)
    (hp : p.Enclosed) (hptext : ∀ t ∈ p.tokens, t.text ≠ "") :
    ∃ inner close cuts last, ts = inner ++ close :: rest ∧
      Splits (p.tokens ++ inner.filter fun t => !t.isNewline) close cuts last ∧
      table.entries = s.table.entries ++ Segment.entries (cuts.map Prod.fst ++ [last]) := by
  obtain ⟨inner, close, cuts, last, hts, hsplits, hentries, -⟩ :=
    exists_tracked_splits_of_run h htext hs hp hptext
  exact ⟨inner, close, cuts, last, hts, hsplits, hentries⟩

end ParamScan

/-- **A parameter list is cut at its outermost commas and nowhere else.** The tokens up to the
parenthesis that ends it, line ends apart, are segments with commas between them; a comma or a
parenthesis ends a segment if and only if it is outermost. The table has one entry for each segment
that has tokens, in their order and under distinct names, and the entry is what the tokens of the
segment say.
Source: `extract`, with `push` and `commit` of `Pending`. -/
theorem readParams_segments {source : String} {tokens ts rest : List Token} {stop : Span}
    {table : ParamTable} (hscan : Token.scan source = .ok tokens) (hts : ts ⊆ tokens)
    (h : readParams stop ts = (.ok table, rest)) :
    ∃ inner close cuts last, ts = inner ++ close :: rest ∧
      Splits (inner.filter fun t => !t.isNewline) close cuts last ∧
      table.entries = Segment.entries (cuts.map Prod.fst ++ [last]) ∧ table.names.Nodup := by
  have htext : ∀ t ∈ ts, t.text ≠ "" := fun t ht hempty =>
    ((Token.Woven.of_scanFrom hscan).piece (hts ht)).ne_nil (by rw [hempty]; rfl)
  obtain ⟨inner, close, cuts, last, hinner, hsplits, hentries⟩ :=
    ParamScan.exists_splits_of_run h htext (ParamScan.tracks_empty rfl ⟨rfl, rfl⟩) Segment.enclosed_empty
      (by simp [Segment.tokens_empty])
  exact ⟨inner, close, cuts, last, hinner, hsplits, hentries,
    (ParamScan.wellFormed_run ParamTable.wellFormed_empty h).distinct⟩

/-- Commas inside angle brackets and inside the groups of a default value part nothing, nor does an
equals sign inside angle brackets open a default value; the last comma is followed by nothing. -/
theorem readParams_segments_of_nested :
    let source := "a: Map<K, V> = f(x < y, [1, 2]),\nb: Of<N = 1, T>, ) -> int"
    let tokens := ((Token.scanWithin 80 0 source.toList).bind Except.toOption).getD []
    let table : ParamTable := ⟨[("a", ⟨"Map<K,V>", true, some "f(x<y, [1, 2])", true⟩),
      ("b", ⟨"Of<N=1,T>", true, none, true⟩)]⟩
    Token.scan source = .ok tokens ∧ readParams ⟨0, 0⟩ tokens = (.ok table, tokens.drop 35) ∧
      ∃ inner close cuts last, tokens = inner ++ close :: tokens.drop 35 ∧
        Splits (inner.filter fun t => !t.isNewline) close cuts last ∧
        table.entries = Segment.entries (cuts.map Prod.fst ++ [last]) ∧ table.names.Nodup := by
  intro source tokens table
  have hscan : Token.scan source = .ok tokens := Token.scan_of_scanWithin 80 (by decide +kernel)
  have hread : readParams ⟨0, 0⟩ tokens = (.ok table, tokens.drop 35) := by decide +kernel
  exact ⟨hscan, hread, readParams_segments hscan (List.Subset.refl tokens) hread⟩

end FuncDecl
