import FuncDecl.Dialect

/-!
# Modifiers of a declaration

The modifiers in front of the function keyword may come in any order and more than once.

* `readModifiers`: reads them as long as the next token spells one.
* `Flags`, `Flags.ofModifiers`: which of them there are.
-/

namespace FuncDecl

/-- The modifiers at the front of the tokens, and the tokens behind them.
Source: `parse`. -/
def readModifiers (table : ModifierTable) : List Token → List Modifier × List Token
  | [] => ([], [])
  | t :: ts =>
    match table.find? t.text with
    | some m =>
      let (ms, rest) := readModifiers table ts
      (m :: ms, rest)
    | none => ([], t :: ts)

/-- Which modifiers a declaration has.
Source: `ModifierFlags`. -/
structure Flags where
  static : Bool := false
  async : Bool := false
  unchecked : Bool := false
  priv : Bool := false
  prot : Bool := false
  final : Bool := false
deriving DecidableEq, Repr, Inhabited

namespace Flags

/-- The flags of a list of modifiers.
Source: `from_modifiers`. -/
def ofModifiers (ms : List Modifier) : Flags where
  static := ms.contains .static
  async := ms.contains .async
  unchecked := ms.contains .unchecked
  priv := ms.contains .priv
  prot := ms.contains .prot
  final := ms.contains .final

/-- The modifiers that are set. -/
def toModifiers (f : Flags) : List Modifier :=
  (if f.static then [.static] else []) ++ (if f.async then [.async] else []) ++
    (if f.unchecked then [.unchecked] else []) ++ (if f.priv then [.priv] else []) ++
    (if f.prot then [.prot] else []) ++ (if f.final then [.final] else [])

end Flags

end FuncDecl
