import FuncDecl.Declaration.Parameter

/-!
# Emitted text

A declaration is printed as a header of the target language. What to print is collected as a list of
pieces.

* `spellType`: a type as the target language spells it.
* `EmitParam`: a parameter to print.
* `Piece`: a line in front of the header, a fragment of the header, or a line behind it.
* `Emission.text`: prints the pieces in that order, whatever the order in which the three sorts were
  collected.
-/

namespace FuncDecl

/-! ## Types of the target language -/

/-- A text in which every whole word `unknown` is replaced by `Any`.
Source: the loop of `target_type`. -/
def renameUnknown : List Char → List Char
  | [] => []
  | c :: cs =>
    if Text.isNameChar c then
      let word := c :: cs.takeWhile Text.isNameChar
      (if word = "unknown".toList then "Any".toList else word) ++
        renameUnknown (cs.dropWhile Text.isNameChar)
    else c :: renameUnknown cs
termination_by cs => cs.length
decreasing_by
  · have := (List.dropWhile_sublist (l := cs) Text.isNameChar).length_le
    simp only [List.length_cons]
    omega
  · simp

/-- A type as the target language spells it.
Source: `target_type`. -/
def spellType (type : String) : String :=
  String.ofList (renameUnknown type.toList)

/-! ## Pieces -/

/-- A parameter to print; one without a type is printed by its name alone.
Source: `Param`. -/
structure EmitParam where
  name : String
  type : Option String
deriving DecidableEq, Repr

namespace EmitParam

/-- The parameters of a table; only types that were written are printed.
Source: `from_table`. -/
def ofTable (params : ParamTable) : List EmitParam :=
  params.entries.map fun (name, info) => ⟨name, if info.annotated then some info.type else none⟩

/-- The text of a parameter. -/
def text (p : EmitParam) : String :=
  match p.type with
  | some type => p.name ++ ": " ++ spellType type
  | none => p.name

end EmitParam

/-- A piece of the printed declaration.
Source: `EmitOp`. -/
inductive Piece where
  /-- A decorator line, given without its `@`. -/
  | decorator (text : String)
  /-- A keyword in front of the definition. -/
  | keyword (text : String)
  | name (text : String)
  | params (params : List EmitParam)
  | returnType (type : String)
  /-- The colon that ends the header. -/
  | colon
  /-- The body of a declaration that has none. -/
  | stub
deriving DecidableEq, Repr

namespace Piece

/-- The text of a decorator line. -/
def decorator? : Piece → Option String
  | decorator text => some ("@" ++ text)
  | _ => none

/-- The text of a fragment of the header. -/
def header? : Piece → Option String
  | keyword text => some (text ++ " ")
  | name text => some ("def " ++ text)
  | params ps => some ("(" ++ ", ".intercalate (ps.map EmitParam.text) ++ ")")
  | returnType type => some (" -> " ++ spellType type)
  | colon => some ":"
  | _ => none

/-- The text of a line of the body. -/
def body? : Piece → Option String
  | stub => some "pass"
  | _ => none

end Piece

/-! ## Lines -/

/-- A unit of indentation, repeated. An empty unit needs no repetition, however deep the level. -/
def indentation (unit : String) (levels : Nat) : String :=
  if unit = "" then "" else String.join (List.replicate levels unit)

/-- The characters of a repeated text are its characters, repeated. -/
theorem toList_join_replicate (unit : String) (n : Nat) :
    (String.join (List.replicate n unit)).toList = (List.replicate n unit.toList).flatten := by
  simp [String.toList_join, List.flatMap_replicate]

/-- Indentation is the unit repeated as often as there are levels; the short cut for the empty unit
gives the same text. -/
theorem indentation_eq_join (unit : String) (levels : Nat) :
    indentation unit levels = String.join (List.replicate levels unit) := by
  unfold indentation
  split
  · next h =>
    subst h
    rw [← String.toList_inj, toList_join_replicate]
    simp
  · rfl

/-- Pieces to be printed at some depth.
Source: `FunctionEmitter`. -/
structure Emission where
  /-- One level of indentation. -/
  unit : String
  level : Nat
  pieces : List Piece := []
deriving DecidableEq, Repr

namespace Emission

/-- Collect one more piece.
Source: `push` of `FunctionEmitter`. -/
def add (e : Emission) (piece : Piece) : Emission :=
  { e with pieces := e.pieces ++ [piece] }

/-- What stands in front of a line, `extra` levels further in than the declaration.
Source: `indent` of `FunctionEmitter`. -/
def margin (e : Emission) (extra : Nat) : String :=
  indentation e.unit (e.level + extra)

/-- The header in one text, empty where it has no fragment. -/
def header (e : Emission) : String :=
  String.join (e.pieces.filterMap Piece.header?)

/-- The printed lines: decorators, then the header, then the body.
Source: the lines of `render`. -/
def lines (e : Emission) : List String :=
  let outer := e.margin 0
  let inner := e.margin 1
  (e.pieces.filterMap Piece.decorator?).map (outer ++ ·) ++
    (if e.header = "" then [] else [outer ++ e.header]) ++
    (e.pieces.filterMap Piece.body?).map (inner ++ ·)

/-- The printed declaration.
Source: `render`. -/
def text (e : Emission) : String :=
  "\n".intercalate e.lines

end Emission

end FuncDecl
