import FuncDecl.Proofs.Declaration.Causes
import FuncDecl.Proofs.Declaration.Reading
import FuncDecl.Proofs.Token.Lines

/-!
# Declarations that stand further behind

A text that is put in front of a declaration moves all its tokens by the same number of bytes. Every
reader of a part of a header finds the same there, with the places moved by as much. The only places
that are compared are those of an `@` and the name behind it, and they move together.

* `Span.shift n`, and `shift n` for decorators, headers, faults and the states of the scans: the
  data with its places moved.
* `shiftResult n f`: the result of a reader, where `f` moves what it found. Two readers in a row are
  moved together (`shiftResult_bind`).
* `Decorator.readAll_shift`, `ParamScan.run_shift`, `TypeScan.run_shift`: each scan is moved, by
  induction on the tokens.
* `readKeyword_shift`, `readName_shift`, `readParamList_shift`, `readReturnType_shift`,
  `readHeaderEnd_shift`: so is each part of a header.
* `Header.read_shift`: **a header further behind is read as the same header, further behind**.
-/

namespace FuncDecl

variable {n : Nat}

/-! ## Moved data -/

/-- The span, moved behind by a number of bytes. -/
def Span.shift (n : Nat) (s : Span) : Span :=
  ⟨s.start + n, s.stop + n⟩

/-- A decorator, moved behind. -/
def Decorator.shift (n : Nat) (d : Decorator) : Decorator :=
  { d with span := d.span.shift n }

/-- The name of a function, moved behind. -/
def FunctionName.shift (n : Nat) (f : FunctionName) : FunctionName :=
  { f with span := f.span.shift n }

/-- A header with all its places moved behind. -/
def Header.shift (n : Nat) (h : Header) : Header :=
  { h with
    decorators := h.decorators.map (Decorator.shift n)
    lead := h.lead.shift n
    name := h.name.shift n }

/-- A cause tells of a place only if it is about an earlier function. -/
def Cause.shift (n : Nat) : Cause → Cause
  | .duplicateFunction name previous => .duplicateFunction name (previous.shift n)
  | cause => cause

/-- A fault, moved behind. -/
def Fault.shift (n : Nat) (f : Fault) : Fault :=
  ⟨f.cause.shift n, f.span.shift n⟩

/-- The result of a reader, where `f` moves what it found. -/
def shiftResult {α β : Type} (n : Nat) (f : α → β) : Except Fault α → Except Fault β
  | .ok a => .ok (f a)
  | .error fault => .error (fault.shift n)

/-- Two readers in a row may be moved one by one. -/
theorem shiftResult_bind {α α' β β' : Type} {f : α → α'} {g : β → β'} {x : Except Fault α}
    {k : α → Except Fault β} {k' : α' → Except Fault β'}
    (hk : ∀ a, k' (f a) = shiftResult n g (k a)) :
    shiftResult n f x >>= k' = shiftResult n g (x >>= k) := by
  cases x with
  | error fault => rfl
  | ok a => exact hk a

/-! ## Tokens -/

/-- Spans may be joined before or after they are moved. -/
theorem Span.merge_shift (a b : Span) : (a.shift n).merge (b.shift n) = (a.merge b).shift n := by
  unfold merge shift
  rw [Nat.add_min_add_right, Nat.add_max_add_right]

namespace Token

/-- A moved token keeps its kind. -/
@[simp] theorem kind_shift (t : Token) : (t.shift n).kind = t.kind := rfl

/-- A moved token keeps its text. -/
@[simp] theorem text_shift (t : Token) : (t.shift n).text = t.text := rfl

/-- A moved token has its span moved. -/
@[simp] theorem span_shift (t : Token) : (t.shift n).span = t.span.shift n := rfl

/-- A moved line end is a line end. -/
@[simp] theorem isNewline_shift (t : Token) : (t.shift n).isNewline = t.isNewline := rfl

end Token

/-- The same line ends are skipped. -/
theorem skipNewlines_shift (ts : List Token) :
    skipNewlines (ts.map (Token.shift n)) = (skipNewlines ts).map (Token.shift n) := by
  unfold skipNewlines
  rw [List.dropWhile_map]
  rfl

/-- The end of tokens is moved with them. -/
theorem endSpan_shift {ts : List Token} (h : ts ≠ []) :
    endSpan (ts.map (Token.shift n)) = (endSpan ts).shift n := by
  unfold endSpan
  rw [List.getLast?_map, List.getLast?_eq_some_getLast h]
  rfl

/-! ## Decorators -/

namespace Decorator

/-- A decorator that takes in a token. -/
theorem merge_shift (text : String) (a b : Span) :
    (⟨text, (a.shift n).merge (b.shift n)⟩ : Decorator) = shift n ⟨text, a.merge b⟩ := by
  rw [Span.merge_shift]
  rfl

/-- A dotted name further behind. -/
theorem readDots_shift (d : Decorator) (ts : List Token) :
    readDots (d.shift n) (ts.map (Token.shift n)) =
      ((readDots d ts).1.shift n, (readDots d ts).2.map (Token.shift n)) := by
  fun_induction readDots d ts with
  | case1 d dot name ts hdot ih =>
    rw [← ih, ← merge_shift, ← Span.merge_shift]
    exact if_pos hdot
  | case2 d dot name ts hdot => exact if_neg hdot
  | case3 d ts hne =>
    cases ts with
    | nil => rfl
    | cons t ts =>
      cases ts with
      | nil => rfl
      | cons u ts => exact absurd rfl (hne t u ts)

/-- An argument list further behind. -/
theorem readArguments_shift (d : Decorator) (depth : Nat) (ts : List Token) :
    readArguments (d.shift n) depth (ts.map (Token.shift n)) =
      (readArguments d depth ts).map fun found =>
        (found.1.shift n, found.2.map (Token.shift n)) := by
  fun_induction readArguments d depth ts with
  | case1 => rfl
  | case2 d depth t ts hnewline ih =>
    rw [← ih]
    exact if_pos hnewline
  | case3 d depth t ts hnewline d' depth' hdepth =>
    rw [List.map_cons, readArguments, Token.isNewline_shift, if_neg hnewline]
    refine (if_pos hdepth).trans ?_
    rw [Option.map_some, ← merge_shift]
    rfl
  | case4 d depth t ts hnewline d' depth' hdepth ih =>
    rw [List.map_cons, readArguments, Token.isNewline_shift, if_neg hnewline, ← ih, ← merge_shift]
    exact if_neg hdepth

/-- A decorator further behind. The sign and the name are as close as they were. -/
theorem read?_shift (ts : List Token) :
    read? (ts.map (Token.shift n)) =
      (read? ts).map fun found => (found.1.shift n, found.2.map (Token.shift n)) := by
  cases ts with
  | nil => rfl
  | cons sign ts =>
    cases ts with
    | nil => rfl
    | cons name ts =>
      have hadjacent : (name.shift n).span.start = (sign.shift n).span.stop ↔
          name.span.start = sign.span.stop := Nat.add_right_cancel_iff
      by_cases hmark : sign.kind = .atSign ∧ name.kind = .ident ∧ name.span.start = sign.span.stop
      · have hmark' : (sign.shift n).kind = .atSign ∧ (name.shift n).kind = .ident ∧
            (name.shift n).span.start = (sign.shift n).span.stop :=
          ⟨hmark.1, hmark.2.1, hadjacent.mpr hmark.2.2⟩
        have hdots := readDots_shift (n := n) ⟨name.text, sign.span.merge name.span⟩ ts
        rw [← merge_shift] at hdots
        have hparen : ∀ rest : List Token,
            (rest.map (Token.shift n)).head?.any (·.kind = .openParen) =
              rest.head?.any (·.kind = .openParen) := by
          intro rest
          cases rest <;> rfl
        rw [List.map_cons, List.map_cons, read?_of_readDots hmark' hdots,
          read?_of_readDots hmark rfl, hparen, readArguments_shift]
        split <;> rfl
      · rw [List.map_cons, List.map_cons, read?, read?, if_neg hmark, if_neg]
        · rfl
        · exact fun h => hmark ⟨h.1, h.2.1, hadjacent.mp h.2.2⟩

/-- All decorators further behind. -/
theorem readAll_shift (ts : List Token) :
    readAll (ts.map (Token.shift n)) =
      ((readAll ts).1.map (shift n), (readAll ts).2.map (Token.shift n)) := by
  induction ts using readAll_induct with
  | stop ts hread =>
    have hshift := read?_shift (n := n) ts
    rw [hread] at hshift
    rw [readAll_of_none hread, readAll_of_none hshift]
    rfl
  | more ts d rest hread ih =>
    have hshift := read?_shift (n := n) ts
    rw [hread] at hshift
    rw [readAll_of_some hread, readAll_of_some hshift, skipNewlines_shift, ih]
    rfl

end Decorator

/-- Modifiers have no places. -/
theorem readModifiers_shift (table : ModifierTable) (ts : List Token) :
    readModifiers table (ts.map (Token.shift n)) =
      ((readModifiers table ts).1, (readModifiers table ts).2.map (Token.shift n)) := by
  induction ts with
  | nil => rfl
  | cons t ts ih =>
    rw [List.map_cons, readModifiers, readModifiers, Token.text_shift]
    cases table.find? t.text with
    | none => rfl
    | some m =>
      dsimp only
      rw [ih]

/-! ## Parameters -/

/-- The parameter that is being read, moved behind. -/
def Draft.shift (n : Nat) (d : Draft) : Draft :=
  { d with span := d.span.map (Span.shift n) }

/-- The scan of parameters, moved behind. -/
def ParamScan.shift (n : Nat) (s : ParamScan) : ParamScan :=
  { s with draft := s.draft.shift n }

/-- What a token of a list of parameters leads to, moved behind. -/
def ParamScan.Outcome.shift (n : Nat) : ParamScan.Outcome → ParamScan.Outcome
  | .more s => .more (s.shift n)
  | .done result => .done (shiftResult n id result)

namespace Draft

/-- A parameter that takes in a token, further behind. -/
theorem push_shift (d : Draft) (t : Token) :
    (d.shift n).push (t.shift n) = (d.push t).shift n := by
  obtain ⟨name, type, preset, generic, span⟩ := d
  cases span with
  | none =>
    cases preset with
    | some text => rfl
    | none => cases type <;> rfl
  | some s =>
    cases preset with
    | some text => simp only [push, shift, Option.map_some, Token.span_shift, Token.text_shift,
        Span.merge_shift]
    | none =>
      cases type with
      | some text => simp only [push, shift, Option.map_some, Token.span_shift, Token.text_shift,
          Span.merge_shift]
      | none => simp only [push, shift, Option.map_some, Token.span_shift, Token.text_shift,
          Span.merge_shift]

/-- What a parameter says does not depend on its place. -/
theorem shift_of_info {d : Draft} {cause : Cause} (h : d.info = .error cause) :
    cause.shift n = cause := by
  have hself := isDuplicate_info h
  cases cause with
  | duplicateFunction name previous => exact absurd hself (by simp [Cause.isDuplicate])
  | _ => rfl

/-- A parameter that is entered or refused, further behind. -/
theorem commit_shift (d : Draft) (table : ParamTable) (ending : Span) :
    (d.shift n).commit table (ending.shift n) = shiftResult n id (d.commit table ending) := by
  have hspan : (d.shift n).span.getD (ending.shift n) = (d.span.getD ending).shift n := by
    unfold shift
    cases d.span <;> rfl
  have hblank : (d.shift n).isBlank = d.isBlank := rfl
  have hname : (d.shift n).name = d.name := rfl
  have hinfo : (d.shift n).info = d.info := rfl
  unfold commit
  rw [hspan, hblank, hname, hinfo]
  split
  · rfl
  · dsimp only
    split
    · rfl
    · cases hcause : d.info with
      | error cause =>
        show Except.error _ = Except.error _
        rw [Fault.shift, shift_of_info hcause]
      | ok info =>
        dsimp only
        split <;> rfl

end Draft

namespace ParamScan

/-- The scan of parameters that takes in a token, further behind. -/
theorem push_shift (s : ParamScan) (t : Token) :
    (s.shift n).push (t.shift n) = (s.push t).shift n := by
  unfold push shift
  rw [Draft.push_shift]

/-- A token behind the name of a parameter, further behind. -/
theorem stepTyped_shift (s : ParamScan) (t : Token) :
    (s.shift n).stepTyped (t.shift n) = (s.stepTyped t).shift n := by
  have hangles : (s.shift n).angles = s.angles := rfl
  have htype : (s.shift n).draft.type = s.draft.type := rfl
  unfold stepTyped
  rw [Token.kind_shift, push_shift, hangles, htype]
  cases t.kind with
  | less =>
    have hpush := Draft.push_shift (n := n) { s.draft with generic := true } t
    exact congrArg (fun draft => Outcome.more ⟨s.table, draft, s.angles + 1, s.groups⟩) hpush
  | greater =>
    dsimp only
    split <;> rfl
  | equals =>
    dsimp only
    split <;> rfl
  | colon =>
    dsimp only
    split <;> rfl
  | _ => rfl

/-- One token of a list of parameters, further behind. By cases on where the scan is. -/
theorem step_shift (s : ParamScan) (t : Token) :
    (s.shift n).step (t.shift n) = (s.step t).shift n := by
  have hcommit : (s.shift n).draft.commit s.table (t.shift n).span =
      shiftResult n id (s.draft.commit s.table t.span) := Draft.commit_shift ..
  have htable : (s.shift n).table = s.table := rfl
  have hangles : (s.shift n).angles = s.angles := rfl
  have hgroups : (s.shift n).groups = s.groups := rfl
  have hpreset : (s.shift n).draft.default = s.draft.default := rfl
  unfold step
  rw [Token.kind_shift, htable, hangles, hgroups, hpreset, hcommit, stepTyped_shift]
  split
  · rfl
  · split
    · cases s.draft.commit s.table t.span with
      | error fault => rfl
      | ok table => rfl
    · split
      · split <;> rfl
      · split
        · unfold stepDefault
          rw [push_shift]
          rfl
        · rfl

/-- A list of parameters further behind. By induction on the tokens. -/
theorem run_shift (stop : Span) (s : ParamScan) (ts : List Token) :
    run (stop.shift n) (s.shift n) (ts.map (Token.shift n)) =
      (shiftResult n id (run stop s ts).1, (run stop s ts).2.map (Token.shift n)) := by
  induction ts generalizing s with
  | nil => rfl
  | cons t ts ih =>
    rw [List.map_cons, run, run, step_shift]
    cases s.step t with
    | more s' => exact ih s'
    | done result => rfl

end ParamScan

/-! ## The parts of a header -/

namespace TypeScan

/-- The scan of a return type, moved behind. -/
def shift (n : Nat) (s : TypeScan) : TypeScan :=
  { s with span := s.span.shift n }

/-- The scan of a return type that takes in a token, further behind. -/
theorem push_shift (s : TypeScan) (t : Token) :
    (s.shift n).push (t.shift n) = (s.push t).shift n := by
  unfold push shift
  rw [Token.span_shift, Span.merge_shift]
  rfl

/-- The end of a return type further behind. -/
theorem finish_shift (arrow : Span) (s : TypeScan) :
    (s.shift n).finish (arrow.shift n) = shiftResult n id (s.finish arrow) := by
  have hangles : (s.shift n).angles = s.angles := rfl
  have htext : (s.shift n).text = s.text := rfl
  unfold finish
  rw [hangles, htext]
  split
  · rfl
  · split <;> rfl

/-- A return type further behind. By induction on the tokens. -/
theorem run_shift (arrow : Span) (s : TypeScan) (ts : List Token) :
    run (arrow.shift n) (s.shift n) (ts.map (Token.shift n)) =
      shiftResult n (fun found => (found.1, found.2.map (Token.shift n))) (run arrow s ts) := by
  have hangles : ∀ s : TypeScan, (s.shift n).angles = s.angles := fun _ => rfl
  induction ts generalizing s with
  | nil =>
    rw [List.map_nil, run, run, finish_shift]
    cases s.finish arrow <;> rfl
  | cons t ts ih =>
    rw [List.map_cons, run, run, Token.kind_shift, hangles, push_shift]
    split
    · rw [finish_shift]
      cases s.finish arrow <;> rfl
    · cases t.kind with
      | newline => exact ih s
      | less => exact ih { s.push t with angles := s.angles + 1 }
      | greater =>
        dsimp only
        split
        · rfl
        · exact ih { s.push t with angles := s.angles - 1 }
      | _ => exact ih (s.push t)

end TypeScan

section Parts

variable (stop : Span) (ts : List Token)

/-- The keyword further behind. -/
theorem readKeyword_shift (d : Dialect) :
    readKeyword d (stop.shift n) (ts.map (Token.shift n)) =
      shiftResult n (fun found => (found.1.shift n, found.2.map (Token.shift n)))
        (readKeyword d stop ts) := by
  cases ts with
  | nil => rfl
  | cons t ts =>
    have hkeyword : d.isFunctionKeyword (t.shift n) = d.isFunctionKeyword t := rfl
    rw [List.map_cons, readKeyword, readKeyword, hkeyword]
    split <;> rfl

/-- The name further behind. -/
theorem readName_shift :
    readName (stop.shift n) (ts.map (Token.shift n)) =
      shiftResult n (fun found => (found.1.shift n, found.2.map (Token.shift n)))
        (readName stop ts) := by
  cases ts with
  | nil => rfl
  | cons t ts =>
    have hname : FunctionName.ofToken? (t.shift n) =
        (FunctionName.ofToken? t).map (FunctionName.shift n) := by
      unfold FunctionName.ofToken?
      rw [Token.kind_shift, Token.text_shift]
      split
      · rfl
      · cases operatorMethods.lookup t.text <;> rfl
    rw [List.map_cons, readName, readName, hname]
    cases FunctionName.ofToken? t <;> rfl

/-- The list of parameters further behind, from `ParamScan.run_shift`. -/
theorem readParamList_shift :
    readParamList (stop.shift n) (ts.map (Token.shift n)) =
      shiftResult n (fun found => (found.1, found.2.map (Token.shift n)))
        (readParamList stop ts) := by
  cases ts with
  | nil => rfl
  | cons t ts =>
    have hrun := ParamScan.run_shift (n := n) stop {} ts
    rw [List.map_cons, readParamList, readParamList, Token.kind_shift, readParams, readParams]
    split
    · rw [show ParamScan.run _ {} _ = _ from hrun]
      rcases ParamScan.run stop {} ts with ⟨fault | table, rest⟩
      · rfl
      · rfl
    · rfl

/-- The return type further behind, from `TypeScan.run_shift`. -/
theorem readReturnType_shift :
    readReturnType (ts.map (Token.shift n)) =
      shiftResult n (fun found => (found.1, found.2.map (Token.shift n))) (readReturnType ts) := by
  cases ts with
  | nil => rfl
  | cons t ts =>
    have hrun : TypeScan.run (t.shift n).span ⟨"", 0, (t.shift n).span⟩ (ts.map (Token.shift n)) = _ :=
      TypeScan.run_shift t.span ⟨"", 0, t.span⟩ ts
    rw [List.map_cons, readReturnType, readReturnType, Token.kind_shift]
    split
    · rw [hrun]
      cases TypeScan.run t.span ⟨"", 0, t.span⟩ ts <;> rfl
    · rfl

/-- The end of a header further behind. -/
theorem readHeaderEnd_shift :
    readHeaderEnd (stop.shift n) (ts.map (Token.shift n)) =
      shiftResult n id (readHeaderEnd stop ts) := by
  unfold readHeaderEnd
  rw [skipNewlines_shift]
  cases skipNewlines ts with
  | nil => rfl
  | cons t rest =>
    rw [List.map_cons]
    dsimp only
    rw [Token.kind_shift, skipNewlines_shift]
    cases HeaderEnd.ofKind? t.kind with
    | none => rfl
    | some ending => cases skipNewlines rest <;> rfl

end Parts

/-! ## Headers -/

namespace Header

/-- **A header further behind is read as the same header, further behind.** -/
theorem read_shift (d : Dialect) {ts : List Token} (hts : ts ≠ []) :
    read d (ts.map (Token.shift n)) = shiftResult n (shift n) (read d ts) := by
  unfold read
  rw [endSpan_shift hts, skipNewlines_shift, Decorator.readAll_shift]
  obtain ⟨decorators, head⟩ := Decorator.readAll (skipNewlines ts)
  dsimp only
  rw [readModifiers_shift]
  obtain ⟨modifiers, rest⟩ := readModifiers d.modifiers head
  dsimp only
  rw [readKeyword_shift]
  refine shiftResult_bind ?_
  rintro ⟨keyword, ts₁⟩
  dsimp only
  rw [readName_shift]
  refine shiftResult_bind ?_
  rintro ⟨name, ts₂⟩
  dsimp only
  rw [readParamList_shift]
  refine shiftResult_bind ?_
  rintro ⟨params, ts₃⟩
  dsimp only
  rw [readReturnType_shift]
  refine shiftResult_bind ?_
  rintro ⟨returnType, ts₄⟩
  dsimp only
  rw [readHeaderEnd_shift]
  refine shiftResult_bind ?_
  intro ending
  -- the lead begins at the first token behind the decorators, or at the end of the text
  have hlead : ∀ first : Span, (⟨decorators.map (Decorator.shift n), modifiers,
      (first.shift n).merge (keyword.shift n), name.shift n, params, returnType, ending⟩ : Header) =
        shift n ⟨decorators, modifiers, first.merge keyword, name, params, returnType, ending⟩ := by
    intro first
    rw [Span.merge_shift]
    rfl
  cases head with
  | nil => exact congrArg Except.ok (hlead (endSpan ts))
  | cons t head => exact congrArg Except.ok (hlead t.span)

end Header

end FuncDecl
