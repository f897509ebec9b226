import FuncDecl.Proofs.Declaration.Compiling
import FuncDecl.Proofs.Declaration.Decorators
import FuncDecl.Proofs.Declaration.TypeTexts
import FuncDecl.Proofs.Text.WholeWords

/-!
# The lines of a printed declaration

What an accepted declaration is printed as is said line by line. That these are the lines of the
printed text needs that no line end gets into one of them: line ends are tokens of their own, and
every reader of a header leaves them out of the texts that it puts together.

* `Compiled.lines`: the decorators, two more that follow from a modifier and from the scope, the
  header, and a stub where there is no body.
* `Header.filterMap_pieces`: the pieces of one sort, in order. From it follow the fragments of each
  line (`Header.decorator?_pieces`, `Header.header?_pieces`, `Header.body?_pieces`).
* `Compiler.lines_pieces`: the printed lines are the specified ones.
* `Compiled.Lineless`: none of the texts that are printed has a line end in it.
* `Compiler.lineless_outcome`: **no line end gets into what is printed of a declaration**, over
  however many lines it is written.
* `Compiler.splitOn_output`: a function is printed in its lines.
-/

namespace FuncDecl

/-! ## The specified lines -/

namespace Compiled

/-- A parameter as it is printed: with its type, if one was written. -/
def paramText (name : String) (info : ParamInfo) : String :=
  if info.annotated then name ++ ": " ++ String.ofList (Text.unknownToAny info.type.toList) else name

/-- The header as it is printed, on one line. -/
def headerText (c : Compiled) : String :=
  (if .static ∈ c.modifiers then "static " else "") ++
    (if .async ∈ c.modifiers then "async " else "") ++ "def " ++ c.name ++
    "(" ++ ", ".intercalate (c.params.entries.map fun entry => paramText entry.1 entry.2) ++ ")" ++
    ((c.returnType.map fun type => " -> " ++ String.ofList (Text.unknownToAny type.toList)).getD "") ++
    ":"

/-- The lines of a function in its scope, indented by as many units as scopes enclose it. -/
def lines (c : Compiled) (unit : String) (parent : Scope) : List String :=
  let indent := String.join (List.replicate parent.indent unit)
  c.decorators.map (fun d => indent ++ "@" ++ d.text) ++
    (if .final ∈ c.modifiers then [indent ++ "@final"] else []) ++
    (if parent.kind = .interfaceType ∨ parent.kind = .abstractType then
      [indent ++ "@abstractmethod"] else []) ++
    [indent ++ c.headerText] ++
    (if c.ending = .bodiless then [indent ++ unit ++ "pass"] else [])

/-- None of the texts of a function that are printed has a line end in it. -/
structure Lineless (c : Compiled) : Prop where
  name : '\n' ∉ c.name.toList
  params : ∀ entry ∈ c.params.entries, '\n' ∉ entry.1.toList ∧ '\n' ∉ entry.2.type.toList
  returnType : ∀ type ∈ c.returnType, '\n' ∉ type.toList
  decorators : ∀ d ∈ c.decorators, '\n' ∉ d.text.toList

end Compiled

/-! ## The pieces of a header -/

namespace Header

variable (h : Header) (parent : Scope)

/-- An element that is there under a condition, and what becomes of it. -/
theorem filterMap_ite {α β : Type} (f : α → Option β) (p : Prop) [Decidable p] (x : α) :
    (if p then [x] else []).filterMap f = if p then (f x).toList else [] := by
  split
  · cases hx : f x with
    | none => exact List.filterMap_cons_none hx
    | some y => exact List.filterMap_cons_some hx
  · rfl

/-- The pieces of one sort, in order. -/
theorem filterMap_pieces (f : Piece → Option String) :
    (h.pieces parent).filterMap f =
      h.decorators.filterMap (fun d => f (.decorator d.text)) ++
        (if h.flags.final then (f (.decorator "final")).toList else []) ++
        (if parent.kind.hasAbstractMethods then (f (.decorator "abstractmethod")).toList else []) ++
        (if h.flags.static then (f (.keyword "static")).toList else []) ++
        (if h.flags.async then (f (.keyword "async")).toList else []) ++
        [Piece.name h.name.text, .params (EmitParam.ofTable h.params)].filterMap f ++
        (h.returnType.bind fun type => f (.returnType type)).toList ++
        [Piece.colon].filterMap f ++
        (if h.ending = .bodiless then (f .stub).toList else []) := by
  have htype : (h.returnType.map Piece.returnType).toList.filterMap f =
      (h.returnType.bind fun type => f (.returnType type)).toList := by
    cases h.returnType with
    | none => rfl
    | some type => exact filterMap_ite f True (Piece.returnType type)
  simp only [pieces, List.filterMap_append, filterMap_ite, List.filterMap_map, htype]
  rfl

/-- The decorators that are printed: those that were written, and then those for a modifier and for
the scope. -/
theorem decorator?_pieces :
    (h.pieces parent).filterMap Piece.decorator? =
      h.decorators.map (fun d => "@" ++ d.text) ++
        (if h.flags.final then ["@final"] else []) ++
        (if parent.kind.hasAbstractMethods then ["@abstractmethod"] else []) := by
  rw [filterMap_pieces]
  simp [Piece.decorator?, List.filterMap_cons]

/-- The fragments of the header, from the modifiers to the colon. -/
theorem header?_pieces :
    (h.pieces parent).filterMap Piece.header? =
      (if h.flags.static then ["static "] else []) ++ (if h.flags.async then ["async "] else []) ++
        ["def " ++ h.name.text,
          "(" ++ ", ".intercalate ((EmitParam.ofTable h.params).map EmitParam.text) ++ ")"] ++
        (h.returnType.map fun type => " -> " ++ spellType type).toList ++ [":"] := by
  rw [filterMap_pieces]
  cases h.returnType with
  | none => simp [Piece.header?]
  | some type => simp [Piece.header?]

/-- A stub is printed for a function without a body. -/
theorem body?_pieces :
    (h.pieces parent).filterMap Piece.body? = if h.ending = .bodiless then ["pass"] else [] := by
  rw [filterMap_pieces]
  simp [Piece.body?, List.filterMap_cons]

end Header

/-! ## The printed lines -/

/-- The parameters are printed with their types, in their order. -/
theorem EmitParam.map_text_ofTable (table : ParamTable) :
    (ofTable table).map text =
      table.entries.map fun entry => Compiled.paramText entry.1 entry.2 := by
  rw [ofTable, List.map_map]
  refine List.map_congr_left fun entry _ => ?_
  show text ⟨entry.1, if entry.2.annotated then some entry.2.type else none⟩ = _
  rw [Compiled.paramText]
  split
  · show entry.1 ++ ": " ++ String.ofList (renameUnknown entry.2.type.toList) = _
    rw [renameUnknown_eq]
  · rfl

section Choice

variable {p q : Prop} [Decidable p] [Decidable q] (h : p ↔ q)
include h

/-- A text that is there under a condition, as characters. -/
theorem flatMap_toList_ite (s : String) :
    (if p then [s] else []).flatMap String.toList = (if q then s else "").toList := by
  by_cases hq : q
  · simp [h.mpr hq, hq]
  · simp [mt h.mp hq, hq]

/-- An element that is there under a condition, translated under the same one. -/
theorem map_ite {α β : Type} (f : α → β) (x : α) :
    (if p then [x] else []).map f = if q then [f x] else [] := by
  by_cases hq : q
  · simp [h.mpr hq, hq]
  · simp [mt h.mp hq, hq]

end Choice

namespace Compiler

variable (c : Compiler) (h : Header) (tree : Scope.Tree) (parent : Scope)

/-- The fragments of the header make up its line. -/
theorem header_pieces :
    (⟨c.indent, parent.indent, h.pieces parent⟩ : Emission).header =
      (c.outcome h tree parent).headerText := by
  have hstatic : h.flags.static = true ↔ .static ∈ h.modifiers := List.contains_iff_mem
  have hasync : h.flags.async = true ↔ .async ∈ h.modifiers := List.contains_iff_mem
  have htype : (h.returnType.map fun type => " -> " ++ spellType type).toList.flatMap String.toList =
      ((h.returnType.map fun type =>
        " -> " ++ String.ofList (Text.unknownToAny type.toList)).getD "").toList := by
    cases h.returnType with
    | none => rfl
    | some type => simp [spellType, renameUnknown_eq]
  have hchars : (⟨c.indent, parent.indent, h.pieces parent⟩ : Emission).header.toList =
      ((h.pieces parent).filterMap Piece.header?).flatMap String.toList := String.toList_join
  rw [← String.toList_inj, hchars, h.header?_pieces parent, EmitParam.map_text_ofTable,
    Compiled.headerText]
  simp only [List.flatMap_append, flatMap_toList_ite hstatic, flatMap_toList_ite hasync, htype,
    String.toList_append, List.flatMap_cons, List.flatMap_nil, List.append_assoc, List.append_nil]
  rfl

/-- The printed lines are the specified ones. -/
theorem lines_pieces :
    (⟨c.indent, parent.indent, h.pieces parent⟩ : Emission).lines =
      (c.outcome h tree parent).lines c.indent parent := by
  have hfinal : h.flags.final = true ↔ .final ∈ h.modifiers := List.contains_iff_mem
  have habstract : parent.kind.hasAbstractMethods = true ↔
      parent.kind = .interfaceType ∨ parent.kind = .abstractType := by
    cases parent.kind <;> simp [Scope.Kind.hasAbstractMethods]
  have hinner : String.join (List.replicate (parent.indent + 1) c.indent) =
      String.join (List.replicate parent.indent c.indent) ++ c.indent := by
    rw [← String.toList_inj, toList_join_replicate, String.toList_append, toList_join_replicate,
      List.replicate_succ', List.flatten_append, List.flatten_singleton]
  have hheader : (c.outcome h tree parent).headerText ≠ "" := by
    intro hempty
    have hchars := congrArg String.toList hempty
    rw [Compiled.headerText, String.toList_append] at hchars
    exact absurd hchars (by simp)
  rw [Emission.lines, Compiled.lines, c.header_pieces h tree parent, if_neg hheader,
    h.decorator?_pieces parent, h.body?_pieces parent]
  simp only [Emission.margin, indentation_eq_join, hinner, Nat.add_zero, List.map_append,
    List.map_map, Function.comp_def, map_ite hfinal, map_ite habstract, map_ite Iff.rfl,
    String.append_assoc]
  rfl

end Compiler

/-! ## No line end in a line -/

/-- No line end is in texts that are joined, if none is in them and in what separates them. -/
theorem Text.newline_not_mem_intercalate {sep : String} (hsep : '\n' ∉ sep.toList)
    {texts : List String} (h : ∀ text ∈ texts, '\n' ∉ text.toList) :
    '\n' ∉ (sep.intercalate texts).toList := by
  rw [String.toList_intercalate]
  induction texts with
  | nil => simp
  | cons first texts ih =>
    obtain ⟨hfirst, hrest⟩ := List.forall_mem_cons.mp h
    cases texts with
    | nil => simpa using hfirst
    | cons second texts =>
      rw [List.map_cons, List.map_cons, List.intercalate_cons_cons, List.mem_append, List.mem_append,
        not_or, not_or]
      exact ⟨⟨hfirst, hsep⟩, ih hrest⟩

namespace Compiled.Lineless

variable {c : Compiled} (h : c.Lineless)
include h

/-- The header is one line. -/
theorem headerText : '\n' ∉ c.headerText.toList := by
  have hparams : ∀ text ∈ c.params.entries.map (fun entry => paramText entry.1 entry.2),
      '\n' ∉ text.toList := by
    intro text htext
    obtain ⟨entry, hentry, rfl⟩ := List.mem_map.mp htext
    obtain ⟨hname, htype⟩ := h.params entry hentry
    rw [paramText]
    split
    · simp [hname, Text.newline_not_mem_unknownToAny htype]
    · exact hname
  have htype : '\n' ∉ ((c.returnType.map fun type =>
      " -> " ++ String.ofList (Text.unknownToAny type.toList)).getD "").toList := by
    cases htype : c.returnType with
    | none => simp
    | some type => simp [Text.newline_not_mem_unknownToAny (h.returnType type htype)]
  have hchoice : ∀ (p : Prop) [Decidable p] (word : String), '\n' ∉ word.toList →
      '\n' ∉ (if p then word else "").toList := by
    intro p _ word hword
    split
    · exact hword
    · simp
  simp only [Compiled.headerText, String.toList_append, List.mem_append, not_or]
  exact ⟨⟨⟨⟨⟨⟨⟨⟨hchoice _ _ (by decide), hchoice _ _ (by decide)⟩, by decide⟩, h.name⟩, by decide⟩,
    Text.newline_not_mem_intercalate (by decide) hparams⟩, by decide⟩, htype⟩, by decide⟩

/-- Every specified line is one line. -/
theorem lines {unit : String} (hunit : '\n' ∉ unit.toList) (parent : Scope) :
    ∀ line ∈ c.lines unit parent, '\n' ∉ line.toList := by
  intro line hline
  simp only [Compiled.lines, List.mem_append, List.mem_map, List.mem_ite_nil_right,
    List.mem_singleton] at hline
  rcases hline with (((⟨d, hd, rfl⟩ | ⟨-, rfl⟩) | ⟨-, rfl⟩) | rfl) | ⟨-, rfl⟩
  · simp [hunit, h.decorators d hd]
  · simp [hunit]
  · simp [hunit]
  · simp [hunit, h.headerText]
  · simp [hunit]

end Compiled.Lineless

/-! ## No line end in a text -/

/-- Line ends are tokens of their own, so text that is joined without them has none. -/
theorem Token.newline_not_mem_joined {source : String} {tokens ts : List Token}
    (hscan : Token.scan source = .ok tokens) (hts : ts ⊆ tokens.filter (!·.isNewline))
    (style : Text.CommaStyle) : '\n' ∉ (Token.joined style ts).toList := by
  rw [Token.joined, Text.mem_attachAll_iff (by decide)]
  rintro (hempty | ⟨w, hw, hline⟩)
  · exact absurd hempty (by simp)
  · obtain ⟨t, ht, rfl⟩ := List.mem_map.mp hw
    obtain ⟨hmem, hnewline⟩ := List.mem_filter.mp (hts ht)
    have hkind := ((Token.Woven.of_scanFrom hscan).piece hmem).newline_iff.mpr hline
    rw [Token.isNewline, hkind] at hnewline
    exact absurd hnewline (by decide)

/-- No line end is in the name of a function. -/
theorem FunctionName.newline_not_mem {source : String} {tokens : List Token}
    (hscan : Token.scan source = .ok tokens) {t : Token} (ht : t ∈ tokens) {name : FunctionName}
    (h : FunctionName.ofToken? t = some name) : '\n' ∉ name.text.toList := by
  rw [ofToken?] at h
  split at h
  · next hkind =>
    obtain rfl := Option.some.inj h
    intro hline
    have hnewline := ((Token.Woven.of_scanFrom hscan).piece ht).newline_iff.mpr hline
    rw [hkind] at hnewline
    exact absurd hnewline (by decide)
  · obtain ⟨method, hlookup, rfl⟩ := Option.map_eq_some_iff.mp h
    have hall : (operatorMethods.all fun entry => !entry.2.toList.contains '\n') = true := by
      decide +kernel
    obtain ⟨front, back, heq, -⟩ := List.lookup_eq_some_iff.mp hlookup
    have hmem : (t.text, method) ∈ operatorMethods := by
      rw [heq]
      simp
    simpa using List.all_eq_true.mp hall _ hmem

/-- No line end is in a decorator, since its text is joined without them. -/
theorem Decorator.newline_not_mem {source : String} {tokens ts rest : List Token}
    {ds : List Decorator} (hscan : Token.scan source = .ok tokens) (hts : ts <:+: tokens)
    (h : readAll ts = (ds, rest)) : ∀ d ∈ ds, '\n' ∉ d.text.toList := by
  obtain ⟨fs, hfs, hds⟩ := exists_leading ts
  rw [hfs.map_assembled hscan hts, h] at hds
  intro d hd
  rw [show ds = _ from hds] at hd
  obtain ⟨f, hf, rfl⟩ := List.mem_map.mp hd
  refine Token.newline_not_mem_joined hscan (List.filter_subset _ fun t ht => ?_) .spaced
  exact ((hfs.stands_of_mem hf).1.trans hts).subset (List.mem_cons_of_mem _ ht)

/-- The names and types of parameters are joined from tokens of their segments. -/
theorem newline_not_mem_of_readParams {source : String} {tokens ts rest : List Token} {stop : Span}
    {table : ParamTable} (hscan : Token.scan source = .ok tokens) (hts : ts ⊆ tokens)
    (h : readParams stop ts = (.ok table, rest)) :
    ∀ entry ∈ table.entries, '\n' ∉ entry.1.toList ∧ '\n' ∉ entry.2.type.toList := by
  obtain ⟨segments, ⟨inner, close, cuts, last, rfl, hsplits, rfl, hentries⟩, -⟩ :=
    exists_segmentedAs hscan hts h
  intro entry hentry
  rw [hentries] at hentry
  obtain ⟨p, hp, rfl⟩ := List.mem_map.mp hentry
  have hinner : inner ⊆ tokens := List.Subset.trans (List.subset_append_left _ _) hts
  have htokens : p.tokens ⊆ tokens.filter (!·.isNewline) :=
    List.Subset.trans (hsplits.tokens_subset (List.mem_filter.mp hp).1) (List.filter_subset _ hinner)
  constructor
  · refine Token.newline_not_mem_joined hscan (List.Subset.trans ?_ htokens) .tight
    exact fun t ht => List.mem_append_left _ (List.mem_append_left _ ht)
  · cases htype : p.type with
    | none =>
      rw [(Segment.entry_of_type_eq_none htype).2]
      decide
    | some opened =>
      rw [Segment.type_entry (by rw [htype]; rfl)]
      exact Token.newline_not_mem_joined hscan (List.Subset.trans p.typeTokens_subset htokens) .tight

/-- **No line end gets into what is printed of a declaration,** over however many lines it is
written. -/
theorem Compiler.lineless_outcome {source : String} {tokens unit : List Token}
    (hscan : Token.scan source = .ok tokens) (hunit : unit <:+: tokens) {d : Dialect} {h : Header}
    (hread : Header.read d unit = .ok h) (c : Compiler) (tree : Scope.Tree) (parent : Scope) :
    (c.outcome h tree parent).Lineless := by
  obtain ⟨cut, hcut⟩ := Header.read_eq_ok_iff.mp hread
  have hkeyword := List.Subset.trans hcut.keyword_suffix.subset hunit.subset
  refine ⟨?_, ?_, ?_, ?_⟩
  · exact FunctionName.newline_not_mem hscan (hkeyword (by simp)) hcut.name
  · refine newline_not_mem_of_readParams hscan (fun t ht => hkeyword ?_) (hcut.params default)
    simp [ht]
  · intro type htype
    have hreturn := hcut.returnType
    rw [show h.returnType = some type from htype] at hreturn
    obtain ⟨arrow, ts, hbehind, -, rfl, -⟩ := exists_anglesPair_of_readReturnType hreturn
    refine Token.newline_not_mem_joined hscan (List.filter_subset _ fun t ht => ?_) .tight
    refine hunit.subset (hcut.behind_suffix.subset ?_)
    rw [hbehind]
    simp [ht]
  · refine Decorator.newline_not_mem hscan ?_ hcut.decorators
    exact (List.dropWhile_suffix _).isInfix.trans hunit

/-- A function is printed in its lines. -/
theorem Compiler.splitOn_output {c : Compiler} (hindent : '\n' ∉ c.indent.toList) {h : Header}
    {tree : Scope.Tree} {parent : Scope} (hlines : (c.outcome h tree parent).Lineless) :
    ((c.outcome h tree parent).output.toList.splitOn '\n').map String.ofList =
      (c.outcome h tree parent).lines c.indent parent := by
  have hne : (c.outcome h tree parent).lines c.indent parent ≠ [] := by simp [Compiled.lines]
  have houtput : (c.outcome h tree parent).output.toList =
      ['\n'].intercalate (((c.outcome h tree parent).lines c.indent parent).map String.toList) := by
    rw [← c.lines_pieces h tree parent]
    simp only [Compiler.outcome, Compiler.emit, Emission.text, String.toList_intercalate]
    rfl
  rw [houtput, List.splitOn_intercalate _ _ (by simpa using hne), List.map_map]
  · simp [Function.comp_def]
  · intro line hline
    obtain ⟨text, htext, rfl⟩ := List.mem_map.mp hline
    exact hlines.lines hindent parent text htext

end FuncDecl
