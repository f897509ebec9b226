import FuncDecl.Proofs.Scope.Grafting
import FuncDecl.Proofs.Source.Junction
import FuncDecl.Proofs.Source.Origins
import FuncDecl.Proofs.Text.Bytes

/-!
# A pass further behind

The chunks of a text that stands below another one are passed over as they are alone. The one
condition is that no function of the text below has the name of a global function of the text above.
Only the diagnostics of registration quote a line, and the number of the line ends their message.

* `raiseLastNumber`: the text with the number at its end raised.
* `Report.relocate n lines`: the report with its places moved and its line numbers raised.
* `PassContext.withSource`: the pass over another text.
* `Pass.graft n first p`: the state of the pass alone, grafted behind the tree that the text above
  has left.
* `Pass.Rooted fs p`: a state of a pass over one file. One chunk and a whole pass keep this
  (`Pass.Rooted.step`, `Pass.Rooted.run`).
* `Pass.stepLine_graft` and `Pass.stepDeclaration_graft`: a line and a declaration of the text
  below.
* `Pass.step_graft`: a chunk of the text below.
* `Pass.run_graft`: **a text below another one** is passed over as it is alone. By induction on the
  chunks.
-/

namespace FuncDecl

variable {n : Nat}

/-! ## Lines -/

namespace Text

/-- A text in front adds its line feeds. -/
theorem lineFeedsWithin_add (front rest : List Char) (bytes : Nat) :
    lineFeedsWithin (bytes + byteLength front) (front ++ rest) =
      lineFeedsWithin bytes rest + front.count '\n' := by
  induction front generalizing bytes with
  | nil => rfl
  | cons c front ih =>
    have hpos := c.utf8Size_pos
    have hbytes : bytes + byteLength (c :: front) - c.utf8Size = bytes + byteLength front := by
      show bytes + (c.utf8Size + byteLength front) - c.utf8Size = _
      omega
    have hne : bytes + byteLength (c :: front) ≠ 0 := by
      show bytes + (c.utf8Size + byteLength front) ≠ 0
      omega
    rw [List.cons_append, lineFeedsWithin, if_neg hne, hbytes, ih, List.count_cons]
    simp only [beq_iff_eq]
    omega

/-- What is behind a text does not count before its end. -/
theorem lineFeedsWithin_append {front : List Char} {bytes : Nat} (h : bytes ≤ byteLength front)
    (rest : List Char) : lineFeedsWithin bytes (front ++ rest) = lineFeedsWithin bytes front := by
  induction front generalizing bytes with
  | nil =>
    obtain rfl : bytes = 0 := Nat.le_zero.mp h
    cases rest <;> rfl
  | cons c front ih =>
    have hrest : bytes - c.utf8Size ≤ byteLength front := by
      have : bytes ≤ c.utf8Size + byteLength front := h
      omega
    rw [List.cons_append, lineFeedsWithin, lineFeedsWithin, ih hrest]

end Text

/-! ## Quoted line numbers -/

/-- A number at the end of a text is its digits. -/
theorem Text.toList_append_number (front : String) (n : Nat) :
    (front ++ toString n).toList = front.toList ++ Nat.toDigits 10 n := by
  rw [String.toList_append, Nat.toString_eq_ofList_toDigits, String.toList_ofList]

/-- The digits of a number are digits. -/
theorem Text.isDigit_toDigits (n : Nat) : ∀ c ∈ Nat.toDigits 10 n, c.isDigit = true := fun _ hc =>
  Nat.isDigit_of_mem_toDigits (by decide) (by decide) hc

/-- The text with the number that its last digits make up raised. -/
def raiseLastNumber (lines : Nat) (text : String) : String :=
  let front := text.toList.reverse.dropWhile Char.isDigit
  let digits := text.toList.reverse.takeWhile Char.isDigit
  String.ofList front.reverse ++ toString (Nat.ofDigitChars 10 digits.reverse 0 + lines)

/-- The number behind a text that ends with no digit is raised. -/
theorem raiseLastNumber_append {text : String} (h : ∀ c ∈ text.toList.getLast?, c.isDigit = false)
    (lines number : Nat) :
    raiseLastNumber lines (text ++ toString number) = text ++ toString (number + lines) := by
  have hdigits : ∀ c ∈ (Nat.toDigits 10 number).reverse, c.isDigit = true := fun c hc =>
    Text.isDigit_toDigits number c (List.mem_reverse.mp hc)
  have htoList : (text ++ toString number).toList.reverse =
      (Nat.toDigits 10 number).reverse ++ text.toList.reverse := by
    rw [Text.toList_append_number, List.reverse_append]
  have hfront : text.toList.reverse.takeWhile Char.isDigit = [] ∧
      text.toList.reverse.dropWhile Char.isDigit = text.toList.reverse := by
    rw [List.getLast?_eq_head?_reverse] at h
    cases hreverse : text.toList.reverse with
    | nil => exact ⟨rfl, rfl⟩
    | cons c rest =>
      have hc : ¬c.isDigit = true := by
        rw [hreverse] at h
        rw [h c rfl]
        decide
      exact ⟨List.takeWhile_cons_of_neg hc, List.dropWhile_cons_of_neg hc⟩
  unfold raiseLastNumber
  dsimp only
  rw [htoList, List.takeWhile_append_of_pos hdigits, List.dropWhile_append_of_pos hdigits, hfront.1,
    hfront.2, List.append_nil, List.reverse_reverse, List.reverse_reverse, String.ofList_toList,
    Nat.ofDigitChars_ten_toDigits]

/-! ## Reports -/

/-- The diagnostic of a text below another one. -/
def Diagnostic.relocate (n lines : Nat) (d : Diagnostic) : Diagnostic :=
  { d with
    span := d.span.shift n
    message := if d.phase = .registration then raiseLastNumber lines d.message else d.message }

/-- A diagnostic of registration has its place moved and its line raised. -/
theorem Diagnostic.relocate_registration {text : String}
    (h : ∀ c ∈ text.toList.getLast?, c.isDigit = false) (number lines : Nat) (span : Span)
    (severity : Severity) :
    relocate n lines ⟨text ++ toString number, span, severity, .registration⟩ =
      ⟨text ++ toString (number + lines), span.shift n, severity, .registration⟩ := by
  show Diagnostic.mk (raiseLastNumber lines (text ++ toString number)) _ _ _ = _
  rw [raiseLastNumber_append h]

namespace Report

/-- The report of a text below another one. -/
def relocate (n lines : Nat) (r : Report) : Report :=
  ⟨r.functions.map (Compiled.shift n), r.diagnostics.map (Diagnostic.relocate n lines)⟩

/-- Reports in a row are moved one by one. -/
theorem relocate_append (lines : Nat) (a b : Report) :
    (a ++ b).relocate n lines = a.relocate n lines ++ b.relocate n lines := by
  show (⟨_, _⟩ : Report) = ⟨_, _⟩
  rw [functions_append, diagnostics_append, List.map_append, List.map_append]
  rfl

end Report

/-- The pass over another text. -/
def PassContext.withSource (ctx : PassContext) (source : String) : PassContext :=
  { ctx with source }

namespace Pass

section Report

variable {ctx : PassContext} {source : String} {lines : Nat}
  (hlines : ∀ span : Span, (span.shift n).line source = span.line ctx.source + lines)
include hlines

/-- An accepted declaration is reported further behind. -/
theorem accepted_shift (c : Compiled) :
    accepted (ctx.withSource source) (c.shift n) = (accepted ctx c).relocate n lines := by
  obtain ⟨name, nameSpan, output, params, returnType, modifiers, decorators, ending, shadows⟩ := c
  cases shadows with
  | none => rfl
  | some earlier =>
    have hend : ∀ c ∈ ("function `" ++ name ++ "` shadows the definition on line ").toList.getLast?,
        c.isDigit = false := by
      rw [String.toList_append, List.getLast?_append]
      rintro c ⟨⟩
      rfl
    have hmessage := Diagnostic.relocate_registration (n := n) hend (earlier.line ctx.source) lines
      nameSpan .warning
    rw [← hlines] at hmessage
    show (⟨[_], if ctx.warnings then [_] else []⟩ : Report) =
      Report.relocate n lines ⟨[_], if ctx.warnings then [_] else []⟩
    split
    · exact congrArg (fun d => Report.mk _ [d]) hmessage.symm
    · rfl

/-- A refused declaration is reported further behind. -/
theorem refused_shift (f : Fault) :
    refused (ctx.withSource source) (f.shift n) = (refused ctx f).relocate n lines := by
  obtain ⟨cause, span⟩ := f
  cases cause with
  | duplicateFunction name previous =>
    have hend : ∀ c ∈ ("Function `" ++ name ++ "` is already defined in this scope" ++
        "; first defined on line ").toList.getLast?, c.isDigit = false := by
      rw [String.toList_append, List.getLast?_append]
      rintro c ⟨⟩
      rfl
    have hmessage := Diagnostic.relocate_registration (n := n) hend (previous.line ctx.source) lines
      span .error
    rw [← hlines] at hmessage
    exact congrArg (fun d => Report.mk [] [d]) hmessage.symm
  | _ => rfl

end Report

end Pass

/-! ## States -/

/-- The type that a line declares, wherever the line stands. -/
theorem TypeHead.ofLine?_shift (line : List Token) :
    TypeHead.ofLine? (line.map (Token.shift n)) = TypeHead.ofLine? line := by
  cases line with
  | nil => rfl
  | cons t ts =>
    have hnamed : ((ts.map (Token.shift n)).find? fun t =>
        t.kind == .ident && (Scope.Kind.ofKeyword? t.text).isNone).map Token.text =
          (ts.find? fun t => t.kind == .ident && (Scope.Kind.ofKeyword? t.text).isNone).map
            Token.text := by
      rw [List.find?_map, Option.map_map]
      rfl
    rw [List.map_cons, TypeHead.ofLine?, TypeHead.ofLine?]
    dsimp only
    rw [hnamed, Token.kind_shift, Token.text_shift]

/-- A brace of a text below another one. -/
def OpenBrace.relocate (size n : Nat) (brace : OpenBrace) : OpenBrace :=
  ⟨brace.scope.renumber size, brace.span.shift n⟩

namespace Pass

/-- The state of a pass, behind the tree that a text above has left. -/
def graft (n : Nat) (first : Scope.Tree) (p : Pass) : Pass where
  tree := first.graft n p.tree
  braces := p.braces.map (OpenBrace.relocate first.size n)
  pending := p.pending

variable {ctx : PassContext} {p : Pass} {first : Scope.Tree}

/-- The scope of a grafted state is that of the state, under its new index. -/
theorem scope_graft : (p.graft n first).scope = p.scope.renumber first.size := by
  obtain ⟨tree, braces, pending⟩ := p
  cases braces <;> rfl

/-- A state of a pass over one file: its tree has a root, and it is grounded in the functions that
were reported. -/
structure Rooted (fs : List Compiled) (p : Pass) : Prop where
  tree : p.tree.Rooted
  grounded : p.Grounded fs

namespace Rooted

variable {fs : List Compiled}

/-- The state at the beginning of a file. -/
theorem new (name : String) (k : Keywords) : Rooted [] { tree := .new name k } :=
  ⟨.new name k, .new name k⟩

/-- A type declaration that waits changes nothing else. -/
theorem wait (h : p.Rooted fs) (pending : Option TypeHead) : Rooted fs { p with pending } :=
  ⟨h.tree, h.grounded.nonempty, h.grounded.braces, h.grounded.functions, h.grounded.shadows⟩

/-- A brace that opens keeps the tree rooted. -/
theorem openBrace (h : p.Rooted fs) (span : Span) : (p.openBrace span).Rooted fs := by
  refine ⟨?_, h.grounded.openBrace span⟩
  rcases p.openBrace_cases span with ⟨head, -, heq⟩ | ⟨-, heq⟩
  all_goals rw [heq]
  · exact h.tree.nest h.grounded.scope_lt head.kind head.name
  · exact h.tree

/-- A token of a line keeps the tree rooted. -/
theorem stepToken (h : p.Rooted fs) (t : Token) : (p.stepToken t).1.Rooted fs := by
  refine stepToken_induct (P := Rooted fs) ?_ ?_ h t
  · intro p span h
    exact h.openBrace span
  · intro p brace braces hbraces h
    exact ⟨h.tree, h.grounded.closeBrace hbraces⟩

/-- A chunk keeps the tree rooted. -/
theorem step (h : p.Rooted fs) (ctx : PassContext) (c : Chunk) :
    (p.step ctx c).1.Rooted (fs ++ (p.step ctx c).2.functions) := by
  refine ⟨?_, h.grounded.step ctx c⟩
  cases c with
  | newline t => exact h.tree
  | stray unit => exact h.tree
  | declaration unit =>
    rw [Pass.step]
    rcases stepDeclaration_cases ctx h.grounded.scope_lt unit with
      ⟨fault, -, -, hstep⟩ | ⟨header, -, -, -, hstep⟩
    · rw [hstep]
      exact h.tree.nest h.grounded.scope_lt .function ""
    · rw [hstep]
      exact h.tree.accept h.grounded.scope_lt header
  | line line =>
    have hline : (p.stepLine line).1.Rooted fs := by
      refine stepLine_induct (P := Rooted fs) ?_ ?_ line ?_
      · intro p span h
        exact h.openBrace span
      · intro p brace braces hbraces h
        exact ⟨h.tree, h.grounded.closeBrace hbraces⟩
      · intro pending _
        exact h.wait pending
    exact hline.tree

/-- A pass keeps the tree rooted. -/
theorem run (h : p.Rooted fs) (ctx : PassContext) (cs : List Chunk) :
    (p.run ctx cs).1.Rooted (fs ++ (p.run ctx cs).2.functions) :=
  @run_induct ctx p (fun _ p report => p.Rooted report.functions) cs
    (fun c _ _ _ _ h => h.step ctx c) [] ⟨fs, []⟩ h

end Rooted

/-! ### Lines -/

/-- A type is announced in the text below. -/
theorem announce_graft (p : Pass) (line : List Token) :
    (p.graft n first).announce (line.map (Token.shift n)) = (p.announce line).graft n first := by
  unfold announce
  rw [TypeHead.ofLine?_shift]
  cases TypeHead.ofLine? line with
  | some head => rfl
  | none =>
    cases line with
    | nil => rfl
    | cons t ts =>
      rw [List.map_cons]
      dsimp only
      rw [Token.kind_shift]
      split <;> rfl

section Line

variable {fs : List Compiled} (hfirst : first.Rooted)
include hfirst

/-- A brace opens in the text below. -/
theorem openBrace_graft (h : p.Rooted fs) (span : Span) :
    (p.graft n first).openBrace (span.shift n) = (p.openBrace span).graft n first := by
  have hnest := Scope.Tree.graft_nest (n := n) hfirst h.tree
  have hsize := Scope.Tree.size_graft (n := n) hfirst.nonempty h.tree.nonempty
  unfold openBrace
  rw [scope_graft, show (p.graft n first).pending = p.pending from rfl]
  cases p.pending with
  | none => rfl
  | some head =>
    show Pass.mk ((first.graft n p.tree).nest _ _ _) (⟨(first.graft n p.tree).size, _⟩ :: _) _ = _
    rw [hnest, hsize]
    rfl

/-- A token of a line of the text below. -/
theorem stepToken_graft (h : p.Rooted fs) (lines : Nat) (t : Token) :
    (p.graft n first).stepToken (t.shift n) =
      ((p.stepToken t).1.graft n first, (p.stepToken t).2.relocate n lines) := by
  unfold stepToken
  rw [Token.kind_shift]
  split
  · rw [Token.span_shift, openBrace_graft hfirst h]
    rfl
  · obtain ⟨tree, braces, pending⟩ := p
    cases braces <;> rfl
  · rfl

/-- The tokens of a line of the text below. By induction on them. -/
theorem stepTokens_graft (h : p.Rooted fs) (lines : Nat) (ts : List Token) :
    (p.graft n first).stepTokens (ts.map (Token.shift n)) =
      ((p.stepTokens ts).1.graft n first, (p.stepTokens ts).2.relocate n lines) := by
  induction ts generalizing p with
  | nil => rfl
  | cons t ts ih =>
    rw [List.map_cons, stepTokens_cons, stepTokens_cons, stepToken_graft hfirst h lines,
      ih (h.stepToken t), Report.relocate_append]

/-- A line of a text below another one. -/
theorem stepLine_graft (h : p.Rooted fs) (lines : Nat) (line : List Token) :
    (p.graft n first).stepLine (line.map (Token.shift n)) =
      ((p.stepLine line).1.graft n first, (p.stepLine line).2.relocate n lines) := by
  have hannounce : (p.announce line).Rooted fs := by
    obtain ⟨pending, heq, -⟩ := p.announce_eq line
    rw [heq]
    exact h.wait pending
  rw [stepLine, stepLine, announce_graft, stepTokens_graft hfirst hannounce lines]

end Line

/-! ### Declarations -/

/-- The brace of a body, further behind. -/
theorem bodyBrace?_shift (size : Nat) (scope : Scope.Id) (unit : List Token) :
    bodyBrace? (scope.renumber size) (unit.map (Token.shift n)) =
      (bodyBrace? scope unit).map (OpenBrace.relocate size n) := by
  unfold bodyBrace?
  rw [List.getLast?_map]
  cases unit.getLast? with
  | none => rfl
  | some t =>
    dsimp only [Option.map_some]
    rw [Token.kind_shift]
    split <;> rfl

section Judge

variable (ctx) {unit : List Token} (hp : p.scope < p.tree.size)
include hp

/-- A declaration that is refused leaves an empty scope for its body. -/
theorem stepDeclaration_of_judge_error {fault : Fault} (hjudge : ctx.compiler.judge unit
      (p.tree.nest p.scope .function "") (p.tree.get p.scope) = .error fault) :
    p.stepDeclaration ctx unit =
      (p.behind unit (p.tree.nest p.scope .function ""), refused ctx fault) := by
  rcases stepDeclaration_cases ctx hp unit with ⟨fault', hfault, -, hstep⟩ | ⟨h, hread, hsuits, -⟩
  · obtain rfl := Except.error.inj (hjudge.symm.trans hfault)
    exact hstep
  · rw [Compiler.judge_eq_ok_iff.mpr ⟨hread, hsuits, rfl⟩] at hjudge
    exact absurd hjudge (by simp)

/-- A declaration that is accepted leaves the tree of `accept`. -/
theorem stepDeclaration_of_judge_ok {h : Header} {c : Compiled} (hjudge : ctx.compiler.judge unit
      (p.tree.nest p.scope .function "") (p.tree.get p.scope) = .ok (h, c)) :
    p.stepDeclaration ctx unit = (p.behind unit (p.tree.accept p.scope h), accepted ctx c) := by
  rcases stepDeclaration_cases ctx hp unit with ⟨fault, hfault, -⟩ | ⟨h', hread, hsuits, -, hstep⟩
  · exact absurd (hjudge.symm.trans hfault) (by simp)
  · rw [Compiler.judge_eq_ok_iff.mpr ⟨hread, hsuits, rfl⟩] at hjudge
    obtain ⟨rfl, rfl⟩ := Prod.mk.inj (Except.ok.inj hjudge)
    exact hstep

/-- A function that is accepted is reported by its name. -/
theorem exists_name_of_judge_ok {found : Header × Compiled} (hjudge : ctx.compiler.judge unit
      (p.tree.nest p.scope .function "") (p.tree.get p.scope) = .ok found) :
    ∃ c ∈ (p.stepDeclaration ctx unit).2.functions, c.name = found.1.name.text := by
  obtain ⟨h, c⟩ := found
  rw [stepDeclaration_of_judge_ok ctx hp hjudge]
  obtain ⟨-, -, rfl⟩ := Compiler.judge_eq_ok_iff.mp hjudge
  exact ⟨_, List.mem_singleton_self _, rfl⟩

end Judge

section Declaration

variable {fs : List Compiled} (hfirst : first.Rooted) (h : p.Rooted fs)
include hfirst h

/-- The state behind a declaration of the text below. -/
theorem behind_graft (unit : List Token) (tree : Scope.Tree) :
    (p.graft n first).behind (unit.map (Token.shift n)) (first.graft n tree) =
      (p.behind unit tree).graft n first := by
  have hsize := Scope.Tree.size_graft (n := n) hfirst.nonempty h.tree.nonempty
  show Pass.mk _ ((bodyBrace? (first.graft n p.tree).size _).toList ++ _) none =
    Pass.mk _ (List.map _ (_ ++ _)) none
  rw [hsize, bodyBrace?_shift, List.map_append]
  cases bodyBrace? p.tree.size unit <;> rfl

/-- The scope of a grafted state is in its tree. -/
theorem scope_graft_lt : (p.graft n first).scope < (p.graft n first).tree.size := by
  show _ < (first.graft n p.tree).size
  rw [scope_graft, Scope.Tree.size_graft hfirst.nonempty h.tree.nonempty,
    Scope.Id.renumber_lt_iff hfirst.nonempty]
  exact h.grounded.scope_lt

/-- A declaration of a text below another one is judged as it is alone. -/
theorem judge_graft {unit : List Token} (hunit : unit ≠ [])
    (hnew : ∀ c ∈ fs ++ (p.stepDeclaration ctx unit).2.functions,
      c.name ∉ (first.get Scope.Tree.root).functions.names) :
    ctx.compiler.judge (unit.map (Token.shift n))
        ((p.graft n first).tree.nest (p.graft n first).scope .function "")
        ((p.graft n first).tree.get (p.graft n first).scope) =
      shiftResult n (fun found => (found.1.shift n, found.2.shift n))
        (ctx.compiler.judge unit (p.tree.nest p.scope .function "") (p.tree.get p.scope)) := by
  have hscope := h.grounded.scope_lt
  have hparent : (p.tree.nest p.scope .function "").get p.scope = p.tree.get p.scope :=
    Scope.Tree.get_nest_of_lt hscope p.scope .function ""
  have hparent' := Scope.Tree.get_nest_of_lt (scope_graft_lt (n := n) hfirst h)
    (p.graft n first).scope .function ""
  have hnest : (p.graft n first).tree.nest (p.graft n first).scope .function "" =
      first.graft n (p.tree.nest p.scope .function "") := by
    rw [scope_graft]
    exact Scope.Tree.graft_nest hfirst h.tree p.scope .function ""
  rw [← hparent', ← hparent, hnest, scope_graft]
  refine Compiler.judge_graft hfirst (h.tree.nest hscope .function "") p.scope ?_ _ hunit ?_
  · intro name hname
    rw [hparent, Option.eq_none_iff_forall_not_mem]
    intro signature hfind
    obtain ⟨c, hc, rfl, -⟩ := h.grounded.functions_find? hfind
    exact hnew c (List.mem_append_left _ hc) hname
  · intro found hjudge
    rw [hparent] at hjudge
    obtain ⟨c, hc, hname⟩ := exists_name_of_judge_ok ctx hscope hjudge
    rw [← hname]
    exact hnew c (List.mem_append_right _ hc)

variable {lines : Nat} {source : String}
  (hlines : ∀ span : Span, (span.shift n).line source = span.line ctx.source + lines)
include hlines

/-- A declaration of a text below another one. -/
theorem stepDeclaration_graft {unit : List Token} (hunit : unit ≠ [])
    (hnew : ∀ c ∈ fs ++ (p.stepDeclaration ctx unit).2.functions,
      c.name ∉ (first.get Scope.Tree.root).functions.names) :
    (p.graft n first).stepDeclaration (ctx.withSource source) (unit.map (Token.shift n)) =
      ((p.stepDeclaration ctx unit).1.graft n first,
        (p.stepDeclaration ctx unit).2.relocate n lines) := by
  have hscope := h.grounded.scope_lt
  have hscope' := scope_graft_lt (n := n) hfirst h
  have hjudge' := judge_graft (n := n) hfirst h hunit hnew
  cases hjudge : ctx.compiler.judge unit (p.tree.nest p.scope .function "") (p.tree.get p.scope) with
  | error fault =>
    rw [hjudge] at hjudge'
    have hnest := Scope.Tree.graft_nest (n := n) hfirst h.tree p.scope .function ""
    rw [stepDeclaration_of_judge_error ctx hscope hjudge,
      stepDeclaration_of_judge_error (ctx.withSource source) hscope' hjudge',
      refused_shift hlines, ← behind_graft hfirst h, ← hnest, scope_graft]
    rfl
  | ok found =>
    obtain ⟨header, c⟩ := found
    rw [hjudge] at hjudge'
    have hname : header.name.text ∉ (first.get Scope.Tree.root).functions.names := by
      obtain ⟨c, hc, hname⟩ := exists_name_of_judge_ok ctx hscope hjudge
      rw [← hname]
      exact hnew c (List.mem_append_right _ hc)
    have haccept := Scope.Tree.graft_accept (n := n) hfirst h.tree p.scope hname
    rw [stepDeclaration_of_judge_ok ctx hscope hjudge,
      stepDeclaration_of_judge_ok (ctx.withSource source) hscope' hjudge',
      accepted_shift hlines, ← behind_graft hfirst h, ← haccept, scope_graft]
    rfl

/-! ### Whole texts -/

/-- A chunk of a text below another one. -/
theorem step_graft {c : Chunk} (hc : c.tokens ≠ [])
    (hnew : ∀ f ∈ fs ++ (p.step ctx c).2.functions,
      f.name ∉ (first.get Scope.Tree.root).functions.names) :
    (p.graft n first).step (ctx.withSource source) (c.shift n) =
      ((p.step ctx c).1.graft n first, (p.step ctx c).2.relocate n lines) := by
  cases c with
  | newline t => rfl
  | declaration unit => exact stepDeclaration_graft hfirst h hlines hc hnew
  | stray unit => cases unit <;> rfl
  | line line => exact stepLine_graft hfirst h lines line

/-- **A text below another one.** The pass over its chunks goes as it does over the text alone. -/
theorem run_graft {cs : List Chunk} (hcs : ∀ c ∈ cs, c.tokens ≠ [])
    (hnew : ∀ f ∈ fs ++ (p.run ctx cs).2.functions,
      f.name ∉ (first.get Scope.Tree.root).functions.names) :
    (p.graft n first).run (ctx.withSource source) (cs.map (Chunk.shift n)) =
      ((p.run ctx cs).1.graft n first, (p.run ctx cs).2.relocate n lines) := by
  induction cs generalizing p fs with
  | nil => rfl
  | cons c cs ih =>
    rw [List.forall_mem_cons] at hcs
    rw [run_cons, Report.functions_append, ← List.append_assoc] at hnew
    rw [List.map_cons, run_cons, run_cons,
      step_graft hfirst h hlines hcs.1 fun f hf => hnew f (List.mem_append_left _ hf),
      ih (h.step ctx c) hcs.2 hnew, Report.relocate_append]

end Declaration

end Pass

end FuncDecl
