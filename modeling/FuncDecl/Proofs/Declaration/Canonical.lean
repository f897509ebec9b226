import FuncDecl.Declaration.Header
import FuncDecl.Proofs.Token.Lines

/-!
# Declarations as they are printed

A declaration is given here by what it says. It has one printed form, the layout of its header and
of its decorators.

* `TypeExpr`: a type is a name, or a name with types in angle brackets.
* `Phrase`: arguments and default values are names, numbers, strings, commas and bracketed groups.
* `Param`, `FunctionWord`, `Decoration`, `Declaration`: the parts of a declaration and the whole,
  each with its words and its layout.
* `Declaration.header`: the header that the printed form is to be read as, up to places.
* `Layout.behindSpace` and `Layout.apart`: words with spaces in front and between.
* `Word.Plain` holds of the words of types and phrases (`TypeExpr.plain_words`,
  `Phrase.plain_words`), so they fit in front of every gap.
* `Keywords.Proper`: the keywords are spelled by seven different names.
* `Declaration.fits_layout` and `Decoration.fits_layout`: **every word of the printed form stands in
  front of what follows it**.
-/

namespace FuncDecl

/-! ## Marks -/

namespace Word

def comma : Word := ⟨.comma, ","⟩
def openParen : Word := ⟨.openParen, "("⟩
def closeParen : Word := ⟨.closeParen, ")"⟩
def less : Word := ⟨.less, "<"⟩
def greater : Word := ⟨.greater, ">"⟩
def equals : Word := ⟨.equals, "="⟩
def colon : Word := ⟨.colon, ":"⟩
def atSign : Word := ⟨.atSign, "@"⟩
def arrow : Word := ⟨.arrow, "->"⟩
def openBrace : Word := ⟨.openBrace, "\x7b"⟩
def closeBrace : Word := ⟨.closeBrace, "\x7d"⟩
def semicolon : Word := ⟨.semicolon, ";"⟩
def dot : Word := ⟨.operator, "."⟩

/-- The spelling of the function keyword. -/
def function (k : Keywords) : Word := ⟨.ident, k.function⟩

/-- The spelling of a modifier. -/
def modifier (k : Keywords) (m : Modifier) : Word := ⟨.ident, k.spelling m⟩

end Word

/-! ## Types -/

mutual

/-- A type: a name, or a name with types in angle brackets. -/
inductive TypeExpr where
  | name (n : Name)
  | apply (n : Name) (args : TypeArgs)

/-- One type or more. -/
inductive TypeArgs where
  | last (t : TypeExpr)
  | cons (t : TypeExpr) (args : TypeArgs)

end

mutual

/-- The words of a type. -/
def TypeExpr.words : TypeExpr → List Word
  | .name n => [n.word]
  | .apply n args => n.word :: .less :: (args.words ++ [.greater])

/-- The words of types with commas between them. -/
def TypeArgs.words : TypeArgs → List Word
  | .last t => t.words
  | .cons t args => t.words ++ .comma :: args.words

end

namespace TypeExpr

/-- Whether the type has arguments. -/
def isGeneric : TypeExpr → Bool
  | name _ => false
  | apply _ _ => true

/-- Whether the type is `void`, which no parameter has. -/
def isVoid : TypeExpr → Bool
  | name n => n.text == "void"
  | apply _ _ => false

/-- The layout of a type, without a space in it. -/
def layout (t : TypeExpr) : Layout :=
  .joined .tight none t.words

/-- The type as printed. -/
def text (t : TypeExpr) : String :=
  String.ofList t.layout.text

end TypeExpr

/-! ## Phrases -/

/-- A word of a phrase that is no mark. -/
inductive Atom where
  | name (n : Name)
  | digits (n : Digits)
  | quoted (q : Quoted)

/-- The word of an atom. -/
def Atom.word : Atom → Word
  | name n => n.word
  | digits n => n.word
  | quoted q => q.word

/-- The three sorts of brackets that enclose a group. -/
inductive Bracket where
  | round
  | square
  | curly
deriving DecidableEq

namespace Bracket

/-- The mark that opens a group. -/
def opening : Bracket → Word
  | round => .openParen
  | square => ⟨.openBracket, "["⟩
  | curly => .openBrace

/-- The mark that closes a group. -/
def closing : Bracket → Word
  | round => .closeParen
  | square => ⟨.closeBracket, "]"⟩
  | curly => .closeBrace

end Bracket

/-- Names, numbers, strings and commas in a row, with groups of such in brackets. -/
inductive Phrase where
  | nil
  | atom (a : Atom) (rest : Phrase)
  | comma (rest : Phrase)
  | group (b : Bracket) (inside rest : Phrase)

namespace Phrase

/-- The words of a phrase. -/
def words : Phrase → List Word
  | nil => []
  | atom a rest => a.word :: rest.words
  | comma rest => .comma :: rest.words
  | group b inside rest => b.opening :: (inside.words ++ b.closing :: rest.words)

/-- Whether no comma stands outside the groups. -/
def isSingle : Phrase → Bool
  | nil => true
  | atom _ rest => rest.isSingle
  | comma _ => false
  | group _ _ rest => rest.isSingle

/-- The layout of a phrase, with a space behind each comma. -/
def layout (p : Phrase) : Layout :=
  .joined .spaced none p.words

/-- The phrase as printed. -/
def text (p : Phrase) : String :=
  String.ofList p.layout.text

/-- The layout of a phrase in parentheses. -/
def enclosed (p : Phrase) : Layout :=
  .joined .spaced none (.openParen :: (p.words ++ [.closeParen]))

end Phrase

/-! ## Parameters -/

/-- A parameter: a receiver without a type or a name with a type, and perhaps a default value. -/
inductive Param where
  | receiver (name : Name) (isReceiver : receivers.contains name.text = true)
  | presetReceiver (name : Name) (isReceiver : receivers.contains name.text = true)
      (default : Phrase) (single : default.isSingle = true)
  | typed (name : Name) (type : TypeExpr) (notVoid : type.isVoid = false)
  | preset (name : Name) (type : TypeExpr) (notVoid : type.isVoid = false) (default : Phrase)
      (single : default.isSingle = true)

namespace Param

/-- The name of a parameter. -/
def name : Param → Name
  | receiver n _ => n
  | presetReceiver n _ _ _ => n
  | typed n _ _ => n
  | preset n _ _ _ _ => n

/-- What is to be known of a parameter. -/
def info : Param → ParamInfo
  | receiver _ _ => ⟨"Any", false, none, false⟩
  | presetReceiver _ _ v _ => ⟨"Any", false, some v.text, false⟩
  | typed _ t _ => ⟨t.text, t.isGeneric, none, true⟩
  | preset _ t _ v _ => ⟨t.text, t.isGeneric, some v.text, true⟩

/-- The words of a parameter. -/
def words : Param → List Word
  | receiver n _ => [n.word]
  | presetReceiver n _ v _ => n.word :: .equals :: v.words
  | typed n t _ => n.word :: .colon :: t.words
  | preset n t _ v _ => n.word :: .colon :: (t.words ++ .equals :: v.words)

/-- The words of parameters with commas between them. -/
def allWords : List Param → List Word
  | [] => []
  | [p] => p.words
  | p :: q :: ps => p.words ++ .comma :: allWords (q :: ps)

end Param

/-! ## Layouts of the parts -/

namespace Layout

/-- The layout with a space in front. -/
def behindSpace : Layout → Layout
  | [] => []
  | (_, w) :: l => (true, w) :: l

/-- Words with a space between each two of them. -/
def apart : List Word → Layout
  | [] => []
  | w :: ws => (false, w) :: ws.map ((true, ·))

/-- An empty layout has no words. -/
@[simp] theorem words_nil : words [] = [] := rfl

/-- The words of a layout do not depend on its spaces. -/
@[simp] theorem words_cons (gap : Bool) (w : Word) (l : Layout) :
    words ((gap, w) :: l) = w :: l.words := rfl

/-- The words of two layouts in a row. -/
@[simp] theorem words_append (l m : Layout) : words (l ++ m) = l.words ++ m.words :=
  List.map_append

/-- A space in front changes no word. -/
@[simp] theorem words_behindSpace (l : Layout) : l.behindSpace.words = l.words := by
  cases l <;> rfl

/-- Words with spaces between them are the same words. -/
@[simp] theorem words_apart (ws : List Word) : (apart ws).words = ws := by
  cases ws with
  | nil => rfl
  | cons w ws => simp [apart, words, Function.comp_def]

/-- A layout that fits also fits behind a space. -/
theorem fits_behindSpace {next : Char} {l : Layout} (h : l.Fits next) : l.behindSpace.Fits next := by
  cases l with
  | nil => trivial
  | cons entry l => exact h

/-- Behind a word comes the space in front of the layout, or what follows an empty one. -/
theorem first_behindSpace (next : Char) (l : Layout) :
    first next l.behindSpace = ' ' ∨ first next l.behindSpace = next := by
  cases l with
  | nil => exact Or.inr rfl
  | cons entry l => exact Or.inl rfl

/-- Words that stand in front of a space and of what follows fit with spaces between them. -/
theorem fits_apart {next : Char} {ws : List Word} (hspace : ∀ w ∈ ws, w.Before ' ')
    (hnext : ∀ w ∈ ws, w.Before next) : (apart ws).Fits next := by
  cases ws with
  | nil => trivial
  | cons w ws =>
    rw [apart]
    induction ws generalizing w with
    | nil => exact ⟨hnext w (by simp), trivial⟩
    | cons w' ws ih =>
      rw [List.forall_mem_cons] at hspace hnext
      exact ⟨hspace.1, ih w' hspace.2 hnext.2⟩

end Layout

namespace Param

/-- The layout of a parameter. -/
def layout : Param → Layout
  | receiver n _ => [(false, n.word)]
  | presetReceiver n _ v _ => (false, n.word) :: (true, .equals) :: v.layout.behindSpace
  | typed n t _ => (false, n.word) :: (false, .colon) :: t.layout.behindSpace
  | preset n t _ v _ => (false, n.word) :: (false, .colon) ::
      (t.layout.behindSpace ++ (true, .equals) :: v.layout.behindSpace)

/-- The layout of parameters. -/
def allLayout : List Param → Layout
  | [] => []
  | [p] => p.layout
  | p :: q :: ps => p.layout ++ (false, .comma) :: (allLayout (q :: ps)).behindSpace

/-- The layout of a parameter has its words. -/
theorem words_layout (p : Param) : p.layout.words = p.words := by
  cases p with
  | receiver n h => rfl
  | presetReceiver n h v hv => simp [layout, words, Phrase.layout, Layout.words_joined]
  | typed n t h => simp [layout, words, TypeExpr.layout, Layout.words_joined]
  | preset n t h v hv =>
    simp [layout, words, TypeExpr.layout, Phrase.layout, Layout.words_joined]

/-- The layout of a list of parameters has its words. -/
theorem words_allLayout (ps : List Param) : (allLayout ps).words = allWords ps := by
  fun_induction allLayout ps with
  | case1 => rfl
  | case2 p => exact p.words_layout
  | case3 p q ps ih => simp [allWords, words_layout, ih]

end Param

/-! ## Declarations -/

/-- The name of a function as it is written: a name, or an operator that stands for one. -/
inductive FunctionWord where
  | name (n : Name)
  | operator (glyph method : String) (isOperator : (glyph, method) ∈ operatorMethods)

namespace FunctionWord

/-- The kind of the mark that an operator is. -/
def glyphKind (glyph : String) : Token.Kind :=
  if glyph = "<" then .less
  else if glyph = ">" then .greater
  else if glyph = "@" then .atSign
  else .operator

/-- The word that is written. -/
def word : FunctionWord → Word
  | name n => n.word
  | operator glyph _ _ => ⟨glyphKind glyph, glyph⟩

/-- The name under which the function is registered. -/
def registered : FunctionWord → String
  | name n => n.text
  | operator _ method _ => method

/-- The operator that is written in place of a name. -/
def glyph? : FunctionWord → Option String
  | name _ => none
  | operator glyph _ _ => some glyph

end FunctionWord

/-- A decorator: a dotted name, and perhaps arguments. -/
structure Decoration where
  head : Name
  tail : List Name
  args : Option Phrase

namespace Decoration

/-- The layout of a decorator without its `@`. -/
def bare (x : Decoration) : Layout :=
  (false, x.head.word) :: (x.tail.flatMap (fun n => [(false, .dot), (false, n.word)]) ++
    (x.args.map Phrase.enclosed).getD [])

/-- The layout of a decorator. -/
def layout (x : Decoration) : Layout :=
  (false, .atSign) :: x.bare

/-- The decorator as printed, without its `@`. -/
def text (x : Decoration) : String :=
  String.ofList x.bare.text

/-- The decorator that the printed one is to be read as. Its place is left open. -/
def decorator (x : Decoration) : Decorator :=
  ⟨x.text, default⟩

end Decoration

/-- What a declaration says in front of the mark that ends it. -/
structure Declaration where
  decorations : List Decoration
  modifiers : List Modifier
  name : FunctionWord
  params : List Param
  distinct : (params.map (·.name.text)).Nodup
  returnType : Option TypeExpr

/-- The mark that ends a header. -/
def HeaderEnd.word : HeaderEnd → Word
  | body => .openBrace
  | bodiless => .semicolon

namespace Declaration

/-- The words in front of the name. -/
def lead (d : Declaration) (k : Keywords) : List Word :=
  d.modifiers.map (.modifier k) ++ [.function k]

/-- The words of the return type with its arrow. -/
def returnWords (d : Declaration) : List Word :=
  (d.returnType.map fun t => .arrow :: t.words).getD []

/-- The words of the header. -/
def words (d : Declaration) (k : Keywords) (ending : HeaderEnd) : List Word :=
  d.lead k ++ d.name.word :: .openParen :: (Param.allWords d.params ++ .closeParen ::
    (d.returnWords ++ [ending.word]))

/-- The layout of the header, which is one line. -/
def layout (d : Declaration) (k : Keywords) (ending : HeaderEnd) : Layout :=
  .apart (d.lead k) ++ (true, d.name.word) :: (false, .openParen) ::
    (Param.allLayout d.params ++ (false, .closeParen) ::
      ((d.returnType.map fun t => (true, .arrow) :: t.layout.behindSpace).getD [] ++
        [(ending == .body, ending.word)]))

/-- The layout of a header has its words. -/
theorem words_layout (d : Declaration) (k : Keywords) (ending : HeaderEnd) :
    (d.layout k ending).words = d.words k ending := by
  rw [layout, words, returnWords]
  cases d.returnType with
  | none => simp [Param.words_allLayout]
  | some t => simp [Param.words_allLayout, TypeExpr.layout, Layout.words_joined]

/-- The header that the declaration is to be read as. Its places are left open. -/
def header (d : Declaration) (ending : HeaderEnd) : Header where
  decorators := d.decorations.map Decoration.decorator
  modifiers := d.modifiers
  lead := default
  name := ⟨d.name.registered, default, d.name.glyph?⟩
  params := ⟨d.params.map fun p => (p.name.text, p.info)⟩
  returnType := d.returnType.map TypeExpr.text
  ending := ending

end Declaration

/-! ## Printed declarations fit -/

mutual

/-- Types consist of plain words. By induction on the type and on its arguments. -/
theorem TypeExpr.plain_words (t : TypeExpr) : ∀ w ∈ t.words, w.Plain := by
  cases t with
  | name n => exact List.forall_mem_singleton.mpr (.name n)
  | apply n args =>
    rw [TypeExpr.words, List.forall_mem_cons, List.forall_mem_cons, List.forall_mem_append,
      List.forall_mem_singleton]
    exact ⟨.name n, .less, args.plain_words, .greater⟩

/-- The same for the arguments of a type. -/
theorem TypeArgs.plain_words (args : TypeArgs) : ∀ w ∈ args.words, w.Plain := by
  cases args with
  | last t =>
    rw [TypeArgs.words]
    exact t.plain_words
  | cons t args =>
    rw [TypeArgs.words, List.forall_mem_append, List.forall_mem_cons]
    exact ⟨t.plain_words, .mark (by decide), args.plain_words⟩

end

/-- An atom is a plain word. -/
theorem Atom.plain_word (a : Atom) : a.word.Plain := by
  cases a with
  | name n => exact .name n
  | digits n => exact .digits n
  | quoted q => exact .quoted q

/-- Brackets are plain words. -/
theorem Bracket.plain (b : Bracket) : b.opening.Plain ∧ b.closing.Plain := by
  cases b with
  | round => exact ⟨.mark (by decide), .mark (by decide)⟩
  | square => exact ⟨.mark (by decide), .mark (by decide)⟩
  | curly => exact ⟨.mark (by decide), .mark (by decide)⟩

/-- Phrases consist of plain words. By induction on the phrase. -/
theorem Phrase.plain_words (p : Phrase) : ∀ w ∈ p.words, w.Plain := by
  induction p with
  | nil => simp [words]
  | atom a rest ih =>
    rw [words, List.forall_mem_cons]
    exact ⟨a.plain_word, ih⟩
  | comma rest ih =>
    rw [words, List.forall_mem_cons]
    exact ⟨.mark (by decide), ih⟩
  | group b inside rest ihin ih =>
    rw [words, List.forall_mem_cons, List.forall_mem_append, List.forall_mem_cons]
    exact ⟨b.plain.1, ihin, b.plain.2, ih⟩

/-- A type fits in front of every gap. -/
theorem TypeExpr.fits_layout (t : TypeExpr) {next : Char} (h : Word.isGap next = true) :
    t.layout.Fits next :=
  Layout.fits_joined t.plain_words h none

/-- A phrase fits in front of every gap. -/
theorem Phrase.fits_layout (p : Phrase) {next : Char} (h : Word.isGap next = true) :
    p.layout.Fits next :=
  Layout.fits_joined p.plain_words h none

/-- A phrase in parentheses fits in front of every gap. -/
theorem Phrase.fits_enclosed (p : Phrase) {next : Char} (h : Word.isGap next = true) :
    p.enclosed.Fits next := by
  refine Layout.fits_joined ?_ h none
  rw [List.forall_mem_cons, List.forall_mem_append, List.forall_mem_singleton]
  exact ⟨.mark (by decide), p.plain_words, .mark (by decide)⟩

/-- A space is a gap. -/
theorem Word.isGap_space : isGap ' ' = true := by decide +kernel

/-- A default value fits behind its equals sign. -/
theorem Phrase.fits_behindEquals (v : Phrase) {next : Char} (h : Word.isGap next = true) :
    Layout.Fits next ((true, .equals) :: v.layout.behindSpace) := by
  refine ⟨?_, Layout.fits_behindSpace (v.fits_layout h)⟩
  -- only another equals sign would go on with this one
  have hnext : next ≠ '=' := by
    rintro rfl
    exact absurd h (by decide +kernel)
  rcases Layout.first_behindSpace next v.layout with hf | hf <;> rw [hf]
  · exact Word.before_of_mem_nearlySolid (by decide) (by decide)
  · exact Word.before_of_mem_nearlySolid (by decide) hnext

namespace Param

/-- A parameter fits in front of every gap. -/
theorem fits_layout (p : Param) {next : Char} (h : Word.isGap next = true) :
    p.layout.Fits next := by
  have hcolon : Word.isGap ':' = true := by decide +kernel
  cases p with
  | receiver n hn => exact ⟨(Word.Plain.name n).before h, trivial⟩
  | presetReceiver n hn v hv =>
    exact ⟨(Word.Plain.name n).before Word.isGap_space, v.fits_behindEquals h⟩
  | typed n t ht =>
    exact ⟨(Word.Plain.name n).before hcolon, Word.before_of_mem_solid (by decide) _,
      Layout.fits_behindSpace (t.fits_layout h)⟩
  | preset n t ht v hv =>
    refine ⟨(Word.Plain.name n).before hcolon, Word.before_of_mem_solid (by decide) _, ?_⟩
    rw [Layout.fits_append]
    exact ⟨Layout.fits_behindSpace (t.fits_layout Word.isGap_space), v.fits_behindEquals h⟩

/-- A list of parameters fits in front of every gap. By induction on the parameters. -/
theorem fits_allLayout (ps : List Param) {next : Char} (h : Word.isGap next = true) :
    (allLayout ps).Fits next := by
  fun_induction allLayout ps with
  | case1 => trivial
  | case2 p => exact p.fits_layout h
  | case3 p q ps ih =>
    have hcomma : Word.isGap ',' = true := by decide +kernel
    rw [Layout.fits_append]
    exact ⟨p.fits_layout hcomma, Word.before_of_mem_solid (by decide) _,
      Layout.fits_behindSpace ih⟩

end Param

/-- Every operator that may be overloaded stands in front of the parameters. -/
theorem FunctionWord.before_paren (f : FunctionWord) : f.word.Before '(' := by
  cases f with
  | name n => exact n.before (by decide +kernel)
  | operator glyph method h =>
    have hall : ∀ entry ∈ operatorMethods,
        (entry.1.toList.any fun c => entry.1.toList = [c] ∧
          singleMarks.lookup c = some (glyphKind entry.1) ∧ pairMarks.lookup (c, '(') = none) ∨
        (entry.1.toList.any fun c => entry.1.toList.any fun c' => entry.1.toList = [c, c'] ∧
          pairMarks.lookup (c, c') = some (glyphKind entry.1) ∧
          (singleMarks.lookup c).isSome = true ∧ c ≠ '~') := by decide +kernel
    simp only [List.any_eq_true, decide_eq_true_eq] at hall
    rcases hall _ h with ⟨c, -, hc, hkind, hpair⟩ | ⟨c, -, c', -, hc, hkind, hsome, ht⟩
    · exact Word.before_of_singleMark (w := ⟨glyphKind glyph, glyph⟩) hc hkind hpair
        fun h => absurd h.2 (by decide)
    · obtain ⟨kind, hc'⟩ := Option.isSome_iff_exists.mp hsome
      exact Word.before_of_pairMark (w := ⟨glyphKind glyph, glyph⟩) hc hkind hc' ht '('

/-- A decorator fits on its line. -/
theorem Decoration.fits_layout (x : Decoration) : x.layout.Fits '\n' := by
  have hparen : Text.isNameChar '(' = false := by decide +kernel
  have hdot : Text.isNameChar '.' = false := by decide +kernel
  have hargs : ((x.args.map Phrase.enclosed).getD []).Fits '\n' ∧
      Text.isNameChar (Layout.first '\n' ((x.args.map Phrase.enclosed).getD [])) = false := by
    cases x.args with
    | none => exact ⟨trivial, by decide +kernel⟩
    | some v => exact ⟨v.fits_enclosed (by decide +kernel), hparen⟩
  rw [layout, bare]
  refine ⟨Word.before_of_mem_solid (by decide) _, ?_⟩
  -- each part of the name is followed by a dot or by what follows the name
  generalize (x.args.map Phrase.enclosed).getD [] = args at hargs
  generalize x.head = n
  induction x.tail generalizing n with
  | nil => exact ⟨n.before hargs.2, hargs.1⟩
  | cons m tail ih =>
    exact ⟨n.before hdot, Word.before_of_mem_solid (by decide) _, ih m⟩

/-- The keywords are spelled by seven different names. -/
structure Keywords.Proper (k : Keywords) : Prop where
  isName_function : Text.isName k.function = true
  isName_spelling : ∀ m, Text.isName (k.spelling m) = true
  spelling_ne_function : ∀ m, k.spelling m ≠ k.function
  spelling_injective : ∀ m m', k.spelling m = k.spelling m' → m = m'

/-- The usual spellings are such names. -/
theorem Keywords.proper_usual : ({} : Keywords).Proper where
  isName_function := by decide +kernel
  isName_spelling m := by cases m <;> decide +kernel
  spelling_ne_function m := by cases m <;> decide
  spelling_injective m m' := by cases m <;> cases m' <;> decide

/-- A header fits on its line. -/
theorem Declaration.fits_layout (d : Declaration) {k : Keywords} (hk : k.Proper)
    (ending : HeaderEnd) : (d.layout k ending).Fits '\n' := by
  have hlead : ∀ w ∈ d.lead k, w.Before ' ' := by
    intro w hw
    rcases List.mem_append.mp hw with hw | hw
    · obtain ⟨m, -, rfl⟩ := List.mem_map.mp hw
      exact Name.before ⟨_, hk.isName_spelling m⟩ (by decide +kernel)
    · rw [List.mem_singleton.mp hw]
      exact Name.before ⟨_, hk.isName_function⟩ (by decide +kernel)
  have hend : Layout.Fits '\n' [(ending == .body, ending.word)] ∧
      Word.isGap (Layout.first '\n' [(ending == .body, ending.word)]) = true := by
    cases ending with
    | body => exact ⟨⟨Word.before_of_mem_solid (by decide) _, trivial⟩, by decide +kernel⟩
    | bodiless => exact ⟨⟨Word.before_of_mem_solid (by decide) _, trivial⟩, by decide +kernel⟩
  have hclose : Word.isGap ')' = true := by decide +kernel
  rw [layout, Layout.fits_append]
  refine ⟨Layout.fits_apart hlead hlead, d.name.before_paren,
    Word.before_of_mem_solid (by decide) _, ?_⟩
  rw [Layout.fits_append]
  refine ⟨Param.fits_allLayout _ hclose, Word.before_of_mem_solid (by decide) _, ?_⟩
  rw [Layout.fits_append]
  refine ⟨?_, hend.1⟩
  cases d.returnType with
  | none => trivial
  | some t =>
    exact ⟨Word.before_of_pairMark (c := '-') rfl rfl rfl (by decide) _,
      Layout.fits_behindSpace (t.fits_layout hend.2)⟩

end FuncDecl
