import FuncDecl.Proofs.Source.Units
import FuncDecl.Scope.Tree

/-!
# Programs as they are printed

A program is a tree, and it is printed line by line, each block closed by a brace on a line of its
own. The keywords are spelled as they are where a project chooses no spelling.

* `Line`, `PlainLine`, `BlockLine`, `TypeLine`: the lines of a program other than those of
  functions.
* `Program`: lines that declare nothing, blocks behind such a line, types and functions with their
  bodies, and functions without one.
* `Program.print`, `Program.source`: the printed text.
* `Program.declared`, `Program.Suits`: what a program declares in the scope around it, and that all
  of it suits its scopes.
* `Program.Cut p cs`: the chunks of a program are those of its nodes, in the order of the lines.
* `Chunked` and `Yields`: what tokens and texts fall into, wherever they stand. Pieces in a
  row fall into their chunks in a row (`Yields.append`).
* `Line.yields`, `TypeLine.yields`, `Declaration.yields`: the chunks of each sort of node.
* `Program.yields_print`: **a printed program falls into the chunks of its nodes**. By induction on
  the program.
-/

namespace FuncDecl

/-- The dialect in which every keyword has its usual spelling. -/
def Dialect.usual : Dialect :=
  .ofKeywords {}

/-! ## Lines -/

/-- Whether a word is a modifier. -/
def Word.isModifier (w : Word) : Bool :=
  w.kind == .ident && Modifier.all.any fun m => m.name == w.text

/-- Whether a word opens a type. -/
def Word.isTypeKeyword (w : Word) : Bool :=
  w.kind == .ident && (Scope.Kind.keywords.map Prod.fst).contains w.text

/-- Whether a word is a brace. -/
def Word.isBrace (w : Word) : Bool :=
  w.kind == .openBrace || w.kind == .closeBrace

/-- A line of text that declares nothing: it does not begin with an `@`, with a word that opens a
type, or with modifiers and the function keyword. -/
structure Line where
  text : String
  tokens : List Token
  scan_text : Token.scan text = .ok tokens
  oneLine : ∀ t ∈ tokens, t.kind ≠ .newline
  noSign : ∀ t ∈ tokens.head?, t.kind ≠ .atSign
  noType : ∀ t ∈ tokens.head?, t.word.isTypeKeyword = false
  noHeader : ((tokens.map Token.word).dropWhile Word.isModifier).head? ≠ some (.function {})

/-- The words of a line. -/
def Line.words (l : Line) : List Word :=
  l.tokens.map Token.word

/-- A line without braces. -/
structure PlainLine extends Line where
  noBrace : ∀ w ∈ toLine.words, w.isBrace = false

/-- A line whose only brace is an opening one at its end. -/
structure BlockLine extends Line where
  front : List Word
  words_eq : toLine.words = front ++ [.openBrace]
  noBrace : ∀ w ∈ front, w.isBrace = false

/-- The line that opens a type: a word for its kind, its name, and a brace. -/
structure TypeLine where
  keyword : String
  kind : Scope.Kind
  isKeyword : (keyword, kind) ∈ Scope.Kind.keywords
  name : Name
  notKeyword : name.word.isTypeKeyword = false

namespace TypeLine

/-- The layout of the line. -/
def layout (l : TypeLine) : Layout :=
  .apart [⟨.ident, l.keyword⟩, l.name.word, .openBrace]

/-- The line that opens a type fits in front of its end. -/
theorem fits_layout (l : TypeLine) : l.layout.Fits '\n' := by
  have hall : ∀ entry ∈ Scope.Kind.keywords, Text.isName entry.1 = true := by decide +kernel
  have hkeyword : (⟨.ident, l.keyword⟩ : Word).Before ' ' :=
    Name.before ⟨l.keyword, hall _ l.isKeyword⟩ (by decide +kernel)
  exact ⟨hkeyword, l.name.before (by decide +kernel), Word.before_of_mem_solid (by decide) _, trivial⟩

end TypeLine

/-! ## Programs -/

/-- The lines of a file or of a block. -/
inductive Program where
  | done
  | line (l : PlainLine) (rest : Program)
  | block (l : BlockLine) (body rest : Program)
  | type (l : TypeLine) (body rest : Program)
  /-- A function with a body. -/
  | function (d : Declaration) (body rest : Program)
  /-- A function without a body. -/
  | prototype (d : Declaration) (rest : Program)

/-- The lines of a declaration. -/
def Declaration.print (d : Declaration) (margin : List Char) (ending : HeaderEnd) : List Char :=
  d.decorations.flatMap (fun x => printLine margin x.layout.text) ++
    printLine margin (d.layout {} ending).text

namespace Program

/-- The line that closes a block. -/
def closing (margin : List Char) : List Char :=
  printLine margin Word.closeBrace.chars

/-- The printed lines of a program that is nested to some depth. Every depth has its own margin. -/
def print (margin : Nat → List Char) (depth : Nat) : Program → List Char
  | done => []
  | line l rest => printLine (margin depth) l.text.toList ++ rest.print margin depth
  | block l body rest =>
    printLine (margin depth) l.text.toList ++ (body.print margin (depth + 1) ++
      (closing (margin depth) ++ rest.print margin depth))
  | type l body rest =>
    printLine (margin depth) l.layout.text ++ (body.print margin (depth + 1) ++
      (closing (margin depth) ++ rest.print margin depth))
  | function d body rest =>
    d.print (margin depth) .body ++ (body.print margin (depth + 1) ++
      (closing (margin depth) ++ rest.print margin depth))
  | prototype d rest => d.print (margin depth) .bodiless ++ rest.print margin depth

/-- The source text of a program. -/
def source (margin : Nat → List Char) (p : Program) : String :=
  String.ofList (p.print margin 0)

/-! ## What a program declares -/

/-- The functions that a program declares in the scope around it, also from inside its blocks. -/
def declared : Program → List Declaration
  | done => []
  | line _ rest => rest.declared
  | block _ body rest => body.declared ++ rest.declared
  | type _ _ rest => rest.declared
  | function d _ rest => d :: rest.declared
  | prototype d rest => d :: rest.declared

/-- The names under which the functions of a program are registered in the scope around it. -/
def names (p : Program) : List String :=
  p.declared.map (·.name.registered)

end Program

/-- The declaration suits a scope of the given kind: operators and static functions belong into types,
and some modifiers do not go together. No decorator has the function keyword in its name. -/
structure Declaration.Suits (d : Declaration) (kind : Scope.Kind) : Prop where
  operator : d.name.glyph?.isSome = true → kind.hasMethods = true
  static : .static ∈ d.modifiers → kind.hasMethods = true
  notPrivateStatic : ¬(.priv ∈ d.modifiers ∧ .static ∈ d.modifiers)
  notAsyncUnchecked : ¬(.async ∈ d.modifiers ∧ .unchecked ∈ d.modifiers)
  avoids : ∀ x ∈ d.decorations, x.Avoids "fn"

instance (d : Declaration) (kind : Scope.Kind) : Decidable (d.Suits kind) :=
  decidable_of_iff
    ((d.name.glyph?.isSome = true → kind.hasMethods = true) ∧
      (.static ∈ d.modifiers → kind.hasMethods = true) ∧
      ¬(.priv ∈ d.modifiers ∧ .static ∈ d.modifiers) ∧
      ¬(.async ∈ d.modifiers ∧ .unchecked ∈ d.modifiers) ∧ ∀ x ∈ d.decorations, x.Avoids "fn")
    ⟨fun ⟨h₁, h₂, h₃, h₄, h₅⟩ => ⟨h₁, h₂, h₃, h₄, h₅⟩,
      fun ⟨h₁, h₂, h₃, h₄, h₅⟩ => ⟨h₁, h₂, h₃, h₄, h₅⟩⟩

namespace Program

/-- All declarations of a program suit the scopes they stand in, where the program is in a scope of
the given kind and level. Functions without a body are not at the outermost level, and no two
functions of a scope inside the program have the same name. -/
def Suits (kind : Scope.Kind) (indent : Nat) : Program → Prop
  | done => True
  | line _ rest => rest.Suits kind indent
  | block _ body rest => body.Suits kind indent ∧ rest.Suits kind indent
  | type l body rest =>
    (body.Suits l.kind (indent + 1) ∧ body.names.Nodup) ∧ rest.Suits kind indent
  | function d body rest =>
    d.Suits kind ∧ (body.Suits .function (indent + 1) ∧ body.names.Nodup) ∧ rest.Suits kind indent
  | prototype d rest => d.Suits kind ∧ indent ≠ 0 ∧ rest.Suits kind indent

instance decidableSuits (kind : Scope.Kind) (indent : Nat) :
    (p : Program) → Decidable (p.Suits kind indent)
  | done => isTrue trivial
  | line _ rest => decidableSuits kind indent rest
  | block _ body rest =>
    have := decidableSuits kind indent body
    have := decidableSuits kind indent rest
    inferInstanceAs (Decidable (_ ∧ _))
  | type l body rest =>
    have := decidableSuits l.kind (indent + 1) body
    have := decidableSuits kind indent rest
    inferInstanceAs (Decidable ((_ ∧ _) ∧ _))
  | function _ body rest =>
    have := decidableSuits .function (indent + 1) body
    have := decidableSuits kind indent rest
    inferInstanceAs (Decidable (_ ∧ (_ ∧ _) ∧ _))
  | prototype _ rest =>
    have := decidableSuits kind indent rest
    inferInstanceAs (Decidable (_ ∧ _ ∧ _))

/-! ## Chunks -/

/-- The chunks of a line: none if it has no token. -/
def lineChunks : List Token → List Chunk
  | [] => []
  | t :: ts => [.line (t :: ts)]

/-- The chunks of a program, those of its nodes in their order. -/
inductive Cut : Program → List Chunk → Prop
  | done : Cut done []
  | line {l : PlainLine} {rest : Program} {ts : List Token} {newline : Token} {cs : List Chunk}
      (hts : ts.map Token.word = l.words) (hrest : Cut rest cs) :
      Cut (line l rest) (lineChunks ts ++ .newline newline :: cs)
  | block {l : BlockLine} {body rest : Program} {ts : List Token} {newline close newline' : Token}
      {bs cs : List Chunk} (hts : ts.map Token.word = l.words) (hbody : Cut body bs)
      (hclose : close.word = .closeBrace) (hrest : Cut rest cs) :
      Cut (block l body rest) (.line ts :: .newline newline ::
        (bs ++ .line [close] :: .newline newline' :: cs))
  | type {l : TypeLine} {body rest : Program} {ts : List Token} {newline close newline' : Token}
      {bs cs : List Chunk} (hts : ts.map Token.word = l.layout.words) (hbody : Cut body bs)
      (hclose : close.word = .closeBrace) (hrest : Cut rest cs) :
      Cut (type l body rest) (.line ts :: .newline newline ::
        (bs ++ .line [close] :: .newline newline' :: cs))
  | function {d : Declaration} {body rest : Program} {lines head : List Token}
      {newline close newline' : Token} {bs cs : List Chunk}
      (hlines : Decoration.Printed d.decorations lines)
      (hhead : head.map Token.word = d.words {} .body) (hbody : Cut body bs)
      (hclose : close.word = .closeBrace) (hrest : Cut rest cs) :
      Cut (function d body rest) (.declaration (lines ++ head) :: .newline newline ::
        (bs ++ .line [close] :: .newline newline' :: cs))
  | prototype {d : Declaration} {rest : Program} {lines head : List Token} {newline : Token}
      {cs : List Chunk} (hlines : Decoration.Printed d.decorations lines)
      (hhead : head.map Token.word = d.words {} .bodiless) (hrest : Cut rest cs) :
      Cut (prototype d rest) (.declaration (lines ++ head) :: .newline newline :: cs)

end Program

/-! ## Printed text falls into these chunks -/

namespace Dialect

/-- Whether a token is a modifier is told by its word. -/
theorem isModifier_usual (t : Token) : usual.isModifier t = t.word.isModifier := by
  have hname : ∀ m, ({} : Keywords).spelling m = m.name := by
    intro m
    cases m <;> rfl
  rw [isModifier, usual, ofKeywords, Keywords.reading, Keywords.readingOf, Table.contains_ofList,
    List.any_map, Word.isModifier]
  simp only [Function.comp_def, hname]
  rfl

/-- A line begins with a header exactly if its words do. -/
theorem headerFront_line {newline : Token} (hnewline : newline.kind = .newline)
    (ts more : List Token) :
    usual.HeaderFront (ts ++ newline :: more) ↔
      ((ts.map Token.word).dropWhile Word.isModifier).head? = some (.function {}) := by
  induction ts with
  | nil =>
    have hmod : ¬usual.isModifier newline = true := by simp [isModifier, hnewline]
    rw [List.nil_append, HeaderFront, List.dropWhile_cons_of_neg hmod]
    simp [isFunctionKeyword, Token.isName, hnewline]
  | cons t ts ih =>
    rw [HeaderFront] at ih
    rw [HeaderFront, List.cons_append, List.map_cons, List.dropWhile_cons, List.dropWhile_cons,
      isModifier_usual]
    split
    · exact ih
    · simp only [List.head?_cons, Option.mem_some, exists_eq_left', Option.some.injEq]
      exact isFunctionKeyword_iff

end Dialect

/-- Wherever the tokens stand in front, they fall into the given chunks. -/
def Chunked (ts : List Token) (cs : List Chunk) : Prop :=
  ∀ more, Dialect.usual.chunks (ts ++ more) = cs ++ Dialect.usual.chunks more

/-- Tokens in a row fall into their chunks in a row. -/
theorem Chunked.append {ts us : List Token} {cs ds : List Chunk} (h : Chunked ts cs)
    (h' : Chunked us ds) : Chunked (ts ++ us) (cs ++ ds) := by
  intro more
  rw [List.append_assoc, h, h', List.append_assoc]

/-- A line end is a chunk of its own. -/
theorem chunked_newline {t : Token} (h : t.kind = .newline) : Chunked [t] [.newline t] := by
  have hall : ∀ u ∈ [t], u.kind = .newline := by simpa using h
  exact fun more => Dialect.usual.chunks_newlines hall more

/-- A line with its end is a chunk of its own. -/
theorem chunked_line {ts : List Token} {newline : Token} (hnewline : newline.kind = .newline)
    (hline : ∀ w ∈ ts.map Token.word, w.kind ≠ .newline)
    (hsign : ∀ w ∈ (ts.map Token.word).head?, w.kind ≠ .atSign)
    (hheader : ((ts.map Token.word).dropWhile Word.isModifier).head? ≠ some (.function {})) :
    Chunked (ts ++ [newline]) (Program.lineChunks ts ++ [.newline newline]) := by
  cases ts with
  | nil => exact chunked_newline hnewline
  | cons t ts =>
    intro more
    have hopens : Dialect.usual.opensDeclaration (t :: (ts ++ newline :: more)) = false := by
      rw [← Bool.not_eq_true, Dialect.opensDeclaration_iff]
      rintro (ht | hfront)
      · exact hsign t.word rfl ht
      · exact hheader ((Dialect.headerFront_line hnewline (t :: ts) more).mp hfront)
    have hline' : ∀ u ∈ t :: ts, u.kind ≠ .newline := fun u hu =>
      hline u.word (List.mem_map_of_mem hu)
    have hend := chunked_newline hnewline more
    rw [List.singleton_append] at hend
    rw [List.append_assoc, List.singleton_append, List.cons_append,
      Dialect.chunks_line _ hline' hnewline hopens, hend]
    rfl

/-- Wherever the text stands, its tokens fall into chunks with the given property. -/
def Yields (text : List Char) (P : List Chunk → Prop) : Prop :=
  Text.CutInto text fun ts => ∃ cs, P cs ∧ Chunked ts cs

namespace Yields

/-- A text that falls into chunks with a property falls into chunks with a weaker one. -/
theorem mono {text : List Char} {P Q : List Chunk → Prop} (h : Yields text P)
    (himp : ∀ cs, P cs → Q cs) : Yields text Q :=
  Text.CutInto.mono h fun _ ⟨cs, hcs, hts⟩ => ⟨cs, himp cs hcs, hts⟩

/-- Texts in a row fall into their chunks in a row. -/
theorem append {text text' : List Char} {P Q : List Chunk → Prop} (h : Yields text P)
    (h' : Yields text' Q) :
    Yields (text ++ text') fun cs => ∃ as bs, cs = as ++ bs ∧ P as ∧ Q bs := by
  refine (Text.CutInto.append h h').mono ?_
  rintro _ ⟨us, vs, rfl, ⟨as, has, hus⟩, ⟨bs, hbs, hvs⟩⟩
  exact ⟨as ++ bs, ⟨as, bs, rfl, has, hbs⟩, hus.append hvs⟩

end Yields

section Nodes

variable {margin : List Char} (hmargin : Text.IsMargin margin)
include hmargin

/-- A line that declares nothing is a chunk, if it has words, and then its end. -/
theorem Line.yields (l : Line) : Yields (printLine margin l.text.toList) fun cs =>
    ∃ ts newline, cs = Program.lineChunks ts ++ [.newline newline] ∧ ts.map Token.word = l.words := by
  refine (Text.cutInto_line hmargin l.scan_text).mono ?_
  rintro _ ⟨ts, newline, rfl, hnewline, hts⟩
  refine ⟨_, ⟨ts, newline, rfl, hts⟩, chunked_line (congrArg Word.kind hnewline) ?_ ?_ ?_⟩
  · rw [hts]
    intro w hw
    obtain ⟨t, ht, rfl⟩ := List.mem_map.mp hw
    exact l.oneLine t ht
  · rw [hts, List.head?_map]
    intro w hw
    obtain ⟨t, ht, rfl⟩ := Option.map_eq_some_iff.mp hw
    exact l.noSign t ht
  · rw [hts]
    exact l.noHeader

/-- A line with a given layout is a chunk with its words. -/
theorem Layout.yields {l : Layout} (hfits : l.Fits '\n')
    (hline : ∀ w ∈ l.words, w.kind ≠ .newline) (hsign : ∀ w ∈ l.words.head?, w.kind ≠ .atSign)
    (hheader : (l.words.dropWhile Word.isModifier).head? ≠ some (.function {})) :
    Yields (printLine margin l.text) fun cs =>
      ∃ ts newline, cs = Program.lineChunks ts ++ [.newline newline] ∧
        ts.map Token.word = l.words := by
  refine (Text.cutInto_layout hmargin hfits).mono ?_
  rintro _ ⟨_, newline, rfl, hnewline, offset, rfl⟩
  have hwords := Layout.word_place offset l
  exact ⟨_, ⟨l.place offset, newline, rfl, hwords⟩, chunked_line (congrArg Word.kind hnewline)
    (by rwa [hwords]) (by rwa [hwords]) (by rwa [hwords])⟩

/-- The line that opens a type is no declaration of a function. -/
theorem TypeLine.yields (l : TypeLine) : Yields (printLine margin l.layout.text) fun cs =>
    ∃ ts newline, cs = Program.lineChunks ts ++ [.newline newline] ∧
      ts.map Token.word = l.layout.words := by
  have hall : ∀ entry ∈ Scope.Kind.keywords,
      Word.isModifier ⟨.ident, entry.1⟩ = false ∧ entry.1 ≠ "fn" := by decide
  obtain ⟨hmod, hfn⟩ := hall _ l.isKeyword
  refine Layout.yields hmargin l.fits_layout ?_ ?_ ?_
  · rw [layout, Layout.words_apart]
    simp [Name.word, Word.openBrace]
  · rw [layout, Layout.words_apart]
    simp
  · rw [layout, Layout.words_apart, List.dropWhile_cons_of_neg (by simp [hmod])]
    simpa [Word.function] using hfn

/-- A brace that closes a block is a chunk. -/
theorem Program.yields_closing : Yields (closing margin) fun cs =>
    ∃ close newline, cs = [.line [close], .newline newline] ∧ close.word = .closeBrace := by
  have hfits : Layout.Fits '\n' [(false, .closeBrace)] :=
    ⟨Word.before_of_mem_solid (by decide) _, trivial⟩
  refine (Layout.yields hmargin hfits (by decide) (by decide) (by decide)).mono ?_
  rintro _ ⟨ts, newline, rfl, hts⟩
  obtain ⟨span, us, rfl, hus⟩ := Token.exists_cons_of_words hts
  obtain rfl := List.map_eq_nil_iff.mp hus
  exact ⟨_, newline, rfl, rfl⟩

/-- A declaration is a chunk with its decorators and its header. -/
theorem Declaration.yields {d : Declaration} (havoid : ∀ x ∈ d.decorations, x.Avoids "fn")
    (ending : HeaderEnd) : Yields (d.print margin ending) fun cs =>
      ∃ lines head newline, cs = [.declaration (lines ++ head), .newline newline] ∧
        Decoration.Printed d.decorations lines ∧ head.map Token.word = d.words {} ending := by
  refine ((Decoration.cutInto_lines hmargin d.decorations).append (Text.cutInto_layout hmargin
    (d.fits_layout Keywords.proper_usual ending))).mono ?_
  rintro _ ⟨lines, _, rfl, hlines, ⟨_, newline, rfl, hnewline, offset, rfl⟩⟩
  have hwords : ((d.layout {} ending).place offset).map Token.word = d.words {} ending := by
    rw [Layout.word_place, d.words_layout]
  refine ⟨_, ⟨lines, _, newline, rfl, hlines, hwords⟩, ?_⟩
  have hunit : Chunked (lines ++ (d.layout {} ending).place offset) [.declaration _] :=
    d.chunks_printed Keywords.proper_usual havoid hlines hwords
  rw [← List.append_assoc]
  exact hunit.append (chunked_newline (congrArg Word.kind hnewline))

end Nodes

namespace Program

/-- A line with words is a chunk. -/
theorem lineChunks_of_words {ts : List Token} {ws : List Word} (h : ts.map Token.word = ws)
    (hne : ws ≠ []) : lineChunks ts = [.line ts] := by
  cases ts with
  | nil => exact absurd h.symm hne
  | cons t ts => rfl

/-- **A printed program falls into the chunks of its nodes.** -/
theorem yields_print {margin : Nat → List Char} (hmargin : ∀ n, Text.IsMargin (margin n))
    {p : Program} {kind : Scope.Kind} {indent : Nat} (h : p.Suits kind indent) (depth : Nat) :
    Yields (p.print margin depth) p.Cut := by
  induction p generalizing kind indent depth with
  | done => exact .nil ⟨[], .done, fun _ => rfl⟩
  | line l rest ih =>
    refine ((l.toLine.yields (hmargin depth)).append (ih h depth)).mono ?_
    rintro _ ⟨_, cs, rfl, ⟨ts, newline, rfl, hts⟩, hcs⟩
    rw [List.append_assoc, List.singleton_append]
    exact .line hts hcs
  | block l body rest ihbody ih =>
    refine ((l.toLine.yields (hmargin depth)).append ((ihbody h.1 (depth + 1)).append
      ((yields_closing (hmargin depth)).append (ih h.2 depth)))).mono ?_
    rintro _ ⟨_, _, rfl, ⟨ts, newline, rfl, hts⟩, bs, _, rfl, hbs, _, cs, rfl,
      ⟨close, newline', rfl, hclose⟩, hcs⟩
    rw [lineChunks_of_words hts (by rw [l.words_eq]; simp)]
    exact .block hts hbs hclose hcs
  | type l body rest ihbody ih =>
    refine ((l.yields (hmargin depth)).append ((ihbody h.1.1 (depth + 1)).append
      ((yields_closing (hmargin depth)).append (ih h.2 depth)))).mono ?_
    rintro _ ⟨_, _, rfl, ⟨ts, newline, rfl, hts⟩, bs, _, rfl, hbs, _, cs, rfl,
      ⟨close, newline', rfl, hclose⟩, hcs⟩
    rw [lineChunks_of_words hts (by simp [TypeLine.layout])]
    exact .type hts hbs hclose hcs
  | function d body rest ihbody ih =>
    refine ((Declaration.yields (hmargin depth) h.1.avoids .body).append
      ((ihbody h.2.1.1 (depth + 1)).append ((yields_closing (hmargin depth)).append
        (ih h.2.2 depth)))).mono ?_
    rintro _ ⟨_, _, rfl, ⟨lines, head, newline, rfl, hlines, hhead⟩, bs, _, rfl, hbs, _, cs, rfl,
      ⟨close, newline', rfl, hclose⟩, hcs⟩
    exact .function hlines hhead hbs hclose hcs
  | prototype d rest ih =>
    refine ((Declaration.yields (hmargin depth) h.1.avoids .bodiless).append (ih h.2.2 depth)).mono ?_
    rintro _ ⟨_, cs, rfl, ⟨lines, head, newline, rfl, hlines, hhead⟩, hcs⟩
    exact .prototype hlines hhead hcs

end Program

end FuncDecl
