import FuncDecl.Proofs.Declaration.Canonical
import FuncDecl.Proofs.Table

/-!
# Printed types and parameters are read back

The readers of return types and of parameters are followed over the words of a printed declaration:
a scan that has passed the words of a type or of a default value is where it was before, with their
text put together.

* `Word.at w span`: the token that a word is at a place. `Token.exists_cons_of_words` takes tokens
  apart by their words.
* `Text.attachAll_empty`: what is put together from nothing is the layout.
* `TypeExpr.run_typeScan`: the scan of a return type passes a type. By induction on the type and on
  its arguments.
* `ParamScan.typing` and `ParamScan.presetting`: the scan of parameters inside a type and inside a
  default value, with one lemma for each sort of token.
* `TypeExpr.run_paramScan` and `Phrase.run_paramScan`: the scan of parameters passes a type and a
  default value.
* `Param.exists_draft`: it passes a parameter, and its draft says what the parameter says
  (`Draft.Says`).
* `Param.run_all`: **the scan reads the parameters in their order**. By induction on the parameters.
-/

namespace FuncDecl

/-! ## Tokens with given words -/

/-- The token that a word is at a place. -/
def Word.at (w : Word) (span : Span) : Token :=
  ⟨w.kind, w.text, span⟩

/-- The first token is what the first word is at its place. -/
theorem Token.exists_cons_of_words {ts : List Token} {w : Word} {ws : List Word}
    (h : ts.map word = w :: ws) : ∃ span us, ts = w.at span :: us ∧ us.map word = ws := by
  obtain ⟨t, us, rfl, rfl, hus⟩ := List.map_eq_cons_iff.mp h
  exact ⟨t.span, us, rfl, hus⟩

/-- The smallest span that holds a span and some tokens. -/
def Span.over (span : Span) (ts : List Token) : Span :=
  ts.foldl (fun span t => span.merge t.span) span

/-- The tokens are taken in one after the other. -/
theorem Span.over_cons (span : Span) (t : Token) (ts : List Token) :
    span.over (t :: ts) = (span.merge t.span).over ts := rfl

/-- So are two rows of tokens. -/
theorem Span.over_append (span : Span) (ts us : List Token) :
    span.over (ts ++ us) = (span.over ts).over us :=
  List.foldl_append

/-! ## Text that is put together -/

namespace Text

/-- The words are put together one after the other. -/
theorem attachAll_cons (style : CommaStyle) (written : String) (w : Word) (ws : List Word) :
    attachAll style written (w :: ws) = attachAll style (attach style written w.text) ws := rfl

/-- So are two rows of words. -/
theorem attachAll_append (style : CommaStyle) (written : String) (ws ws' : List Word) :
    attachAll style written (ws ++ ws') = attachAll style (attachAll style written ws) ws' :=
  List.foldl_append

/-- What is put together from nothing is the layout. -/
theorem attachAll_empty (style : CommaStyle) {ws : List Word} (h : ∀ w ∈ ws, w.Plain) :
    attachAll style "" ws = String.ofList (Layout.joined style none ws).text := by
  rw [← String.toList_inj, toList_attachAll style "" fun w hw => (h w hw).chars_ne_nil]
  simp

end Text

namespace TypeExpr

/-- A type is put together from its words. -/
theorem attachAll_words (t : TypeExpr) : Text.attachAll .tight "" t.words = t.text :=
  Text.attachAll_empty .tight t.plain_words

/-- A type that is a name has its text. -/
theorem text_name (n : Name) : (name n).text = n.text := by
  rw [← attachAll_words, words]
  show Text.attach .tight "" n.text = n.text
  rw [Text.attach_eq]
  simp [Text.wantsSpace]

/-- The text of a type with arguments shows it. -/
theorem mem_text_apply (n : Name) (args : TypeArgs) : '<' ∈ (apply n args).text.toList := by
  rw [text, String.toList_ofList, layout, words, Layout.joined, Layout.joined, Layout.text,
    Layout.text]
  have hless : '<' ∈ Word.less.chars := by decide
  simp [hless]

/-- A type has a text. -/
theorem text_ne_empty (t : TypeExpr) : t.text ≠ "" := by
  intro h
  cases t with
  | name n =>
    rw [text_name] at h
    have hn := n.isName
    rw [h] at hn
    exact absurd hn (by decide)
  | apply n args =>
    have hmem := mem_text_apply n args
    rw [h] at hmem
    exact absurd hmem (by decide)

/-- A type other than `void` has another text. -/
theorem text_ne_void {t : TypeExpr} (ht : t.isVoid = false) : t.text ≠ "void" := by
  intro h
  cases t with
  | name n =>
    rw [text_name] at h
    rw [isVoid, h] at ht
    exact absurd ht (by decide)
  | apply n args =>
    have hmem := mem_text_apply n args
    rw [h] at hmem
    exact absurd hmem (by decide)

end TypeExpr

/-! ## Return types -/

namespace TypeScan

/-- A name or a comma is taken into the return type. -/
theorem run_push {t : Token} (h : t.kind = .ident ∨ t.kind = .comma) (arrow : Span) (s : TypeScan)
    (ts : List Token) : run arrow s (t :: ts) = run arrow (s.push t) ts := by
  rw [run]
  rcases h with h | h <;> simp [h, Token.Kind.endsType]

/-- An opening bracket is taken into the return type and counted. -/
theorem run_less {t : Token} (h : t.kind = .less) (arrow : Span) (s : TypeScan) (ts : List Token) :
    run arrow s (t :: ts) = run arrow { s.push t with angles := s.angles + 1 } ts := by
  rw [run]
  simp [h, Token.Kind.endsType]

/-- So is a closing bracket where one is open. -/
theorem run_greater {t : Token} (h : t.kind = .greater) (arrow : Span) {s : TypeScan}
    (hs : s.angles ≠ 0) (ts : List Token) :
    run arrow s (t :: ts) = run arrow { s.push t with angles := s.angles - 1 } ts := by
  rw [run]
  simp [h, hs]

end TypeScan

mutual

/-- The scan of a return type passes a type. -/
theorem TypeExpr.run_typeScan (t : TypeExpr) {ts : List Token} (h : ts.map Token.word = t.words)
    (arrow : Span) (s : TypeScan) (rest : List Token) :
    TypeScan.run arrow s (ts ++ rest) =
      TypeScan.run arrow ⟨Text.attachAll .tight s.text t.words, s.angles, s.span.over ts⟩ rest := by
  cases t with
  | name n =>
    rw [TypeExpr.words] at h
    obtain ⟨sn, us, rfl, hus⟩ := Token.exists_cons_of_words h
    obtain rfl := List.map_eq_nil_iff.mp hus
    exact TypeScan.run_push (.inl rfl) arrow s rest
  | apply n args =>
    rw [TypeExpr.words] at h
    obtain ⟨sn, us, rfl, hus⟩ := Token.exists_cons_of_words h
    obtain ⟨sl, vs, rfl, hvs⟩ := Token.exists_cons_of_words hus
    obtain ⟨inside, closing, rfl, hinside, hclosing⟩ := List.map_eq_append_iff.mp hvs
    obtain ⟨sg, xs, rfl, hxs⟩ := Token.exists_cons_of_words hclosing
    obtain rfl := List.map_eq_nil_iff.mp hxs
    rw [List.cons_append, TypeScan.run_push (.inl rfl), List.cons_append, TypeScan.run_less rfl,
      List.append_assoc, args.run_typeScan hinside, List.singleton_append,
      TypeScan.run_greater rfl arrow (Nat.succ_ne_zero _), TypeExpr.words, Text.attachAll_cons,
      Text.attachAll_cons, Text.attachAll_append, Span.over_cons, Span.over_cons, Span.over_append]
    rfl

/-- The scan of a return type passes the arguments of a type. -/
theorem TypeArgs.run_typeScan (args : TypeArgs) {ts : List Token}
    (h : ts.map Token.word = args.words) (arrow : Span) (s : TypeScan) (rest : List Token) :
    TypeScan.run arrow s (ts ++ rest) =
      TypeScan.run arrow ⟨Text.attachAll .tight s.text args.words, s.angles, s.span.over ts⟩
        rest := by
  cases args with
  | last t =>
    rw [TypeArgs.words] at h ⊢
    exact t.run_typeScan h arrow s rest
  | cons t args =>
    rw [TypeArgs.words] at h
    obtain ⟨front, more, rfl, hfront, hmore⟩ := List.map_eq_append_iff.mp h
    obtain ⟨sc, us, rfl, hus⟩ := Token.exists_cons_of_words hmore
    rw [List.append_assoc, t.run_typeScan hfront, List.cons_append, TypeScan.run_push (.inr rfl),
      args.run_typeScan hus, TypeArgs.words, Text.attachAll_append, Text.attachAll_cons,
      Span.over_append, Span.over_cons]
    rfl

end

/-! ## Parameters -/

namespace ParamScan

/-- The scan inside the type of a parameter. -/
def typing (table : ParamTable) (name text : String) (generic : Bool) (span : Span)
    (angles : Nat) : ParamScan :=
  ⟨table, ⟨name, some text, none, generic, some span⟩, angles, 0⟩

/-- The scan inside the default value of a parameter. -/
def presetting (table : ParamTable) (name : String) (type : Option String) (generic : Bool)
    (text : String) (span : Span) (groups : Nat) : ParamScan :=
  ⟨table, ⟨name, type, some text, generic, some span⟩, 0, groups⟩

/-- Where a step goes on, so does the scan. -/
theorem run_of_more {s s' : ParamScan} {t : Token} (h : s.step t = .more s') (stop : Span)
    (ts : List Token) : run stop s (t :: ts) = run stop s' ts := by
  rw [run, h]

/-- In front of a default value, a token that ends neither a line nor a parameter is read by
`stepTyped`. -/
theorem step_eq_stepTyped {s : ParamScan} {t : Token} (hline : t.kind ≠ .newline)
    (hcomma : t.kind = .comma → s.angles ≠ 0) (hclose : t.kind ≠ .closeParen)
    (hdefault : s.draft.default = none) : s.step t = s.stepTyped t := by
  rw [step, if_neg hline, if_neg fun h => hcomma h.1 h.2.1, if_neg fun h => hclose h.1,
    if_neg (by simp [hdefault])]

section Phases

variable (stop : Span) (table : ParamTable) (name text : String) (generic : Bool) (span : Span)
  {t : Token} (ts : List Token)

/-- A name, or a comma inside brackets, is taken into the type. -/
theorem run_typing_push {angles : Nat} (h : t.kind = .ident ∨ t.kind = .comma ∧ angles ≠ 0) :
    run stop (typing table name text generic span angles) (t :: ts) =
      run stop (typing table name (Text.attach .tight text t.text) generic (span.merge t.span)
        angles) ts := by
  refine run_of_more ?_ stop ts
  rcases h with h | ⟨h, hangles⟩
  · rw [step_eq_stepTyped (by simp [h]) (by simp [h]) (by simp [h]) rfl, stepTyped]
    simp only [h]
    rfl
  · rw [step_eq_stepTyped (by simp [h]) (fun _ => hangles) (by simp [h]) rfl, stepTyped]
    simp only [h]
    rfl

/-- An opening bracket is taken into the type and noted. -/
theorem run_typing_less (h : t.kind = .less) (angles : Nat) :
    run stop (typing table name text generic span angles) (t :: ts) =
      run stop (typing table name (Text.attach .tight text t.text) true (span.merge t.span)
        (angles + 1)) ts := by
  refine run_of_more ?_ stop ts
  rw [step_eq_stepTyped (by simp [h]) (by simp [h]) (by simp [h]) rfl, stepTyped]
  simp only [h]
  rfl

/-- A closing bracket is taken into the type. -/
theorem run_typing_greater (h : t.kind = .greater) (angles : Nat) :
    run stop (typing table name text generic span (angles + 1)) (t :: ts) =
      run stop (typing table name (Text.attach .tight text t.text) generic (span.merge t.span)
        angles) ts := by
  refine run_of_more ?_ stop ts
  rw [step_eq_stepTyped (by simp [h]) (by simp [h]) (by simp [h]) rfl, stepTyped]
  simp only [h]
  exact if_neg (Nat.succ_ne_zero angles)

/-- Inside a default value only a comma or a closing parenthesis outside its groups means
something. -/
theorem run_presetting (type : Option String) {groups : Nat} (hline : t.kind ≠ .newline)
    (hmark : t.kind = .comma ∨ t.kind = .closeParen → groups ≠ 0) :
    run stop (presetting table name type generic text span groups) (t :: ts) =
      run stop (presetting table name type generic (Text.attach .spaced text t.text)
        (span.merge t.span) (t.kind.groupDepth groups)) ts := by
  refine run_of_more ?_ stop ts
  rw [step, if_neg hline, if_neg fun h => hmark (.inl h.1) h.2.2, if_neg fun h => hmark (.inr h.1) h.2]
  rfl

end Phases

end ParamScan

mutual

/-- The scan of parameters passes a type. -/
theorem TypeExpr.run_paramScan (t : TypeExpr) {ts : List Token} (h : ts.map Token.word = t.words)
    (stop : Span) (table : ParamTable) (name text : String) (generic : Bool) (span : Span)
    (angles : Nat) (rest : List Token) :
    ParamScan.run stop (.typing table name text generic span angles) (ts ++ rest) =
      ParamScan.run stop (.typing table name (Text.attachAll .tight text t.words)
        (generic || t.isGeneric) (span.over ts) angles) rest := by
  cases t with
  | name n =>
    rw [TypeExpr.words] at h
    obtain ⟨sn, us, rfl, hus⟩ := Token.exists_cons_of_words h
    obtain rfl := List.map_eq_nil_iff.mp hus
    rw [List.singleton_append, ParamScan.run_typing_push (h := .inl rfl), TypeExpr.isGeneric,
      Bool.or_false]
    rfl
  | apply n args =>
    rw [TypeExpr.words] at h
    obtain ⟨sn, us, rfl, hus⟩ := Token.exists_cons_of_words h
    obtain ⟨sl, vs, rfl, hvs⟩ := Token.exists_cons_of_words hus
    obtain ⟨inside, closing, rfl, hinside, hclosing⟩ := List.map_eq_append_iff.mp hvs
    obtain ⟨sg, xs, rfl, hxs⟩ := Token.exists_cons_of_words hclosing
    obtain rfl := List.map_eq_nil_iff.mp hxs
    rw [List.cons_append, ParamScan.run_typing_push (h := .inl rfl), List.cons_append,
      ParamScan.run_typing_less (h := rfl), List.append_assoc, args.run_paramScan hinside,
      List.singleton_append, ParamScan.run_typing_greater (h := rfl), TypeExpr.words,
      Text.attachAll_cons, Text.attachAll_cons, Text.attachAll_append, Span.over_cons,
      Span.over_cons, Span.over_append, TypeExpr.isGeneric, Bool.or_true]
    rfl

/-- The scan of parameters passes the arguments of a type. -/
theorem TypeArgs.run_paramScan (args : TypeArgs) {ts : List Token}
    (h : ts.map Token.word = args.words) (stop : Span) (table : ParamTable) (name text : String)
    (span : Span) (angles : Nat) (rest : List Token) :
    ParamScan.run stop (.typing table name text true span (angles + 1)) (ts ++ rest) =
      ParamScan.run stop (.typing table name (Text.attachAll .tight text args.words) true
        (span.over ts) (angles + 1)) rest := by
  cases args with
  | last t =>
    rw [TypeArgs.words] at h ⊢
    exact t.run_paramScan h stop table name text true span (angles + 1) rest
  | cons t args =>
    rw [TypeArgs.words] at h
    obtain ⟨front, more, rfl, hfront, hmore⟩ := List.map_eq_append_iff.mp h
    obtain ⟨sc, us, rfl, hus⟩ := Token.exists_cons_of_words hmore
    rw [List.append_assoc, t.run_paramScan hfront, Bool.true_or, List.cons_append,
      ParamScan.run_typing_push (h := .inr ⟨rfl, Nat.succ_ne_zero angles⟩),
      args.run_paramScan hus, TypeArgs.words, Text.attachAll_append, Text.attachAll_cons,
      Span.over_append, Span.over_cons]
    rfl

end

/-- An atom is a name, a number or a string. -/
theorem Atom.kind_word (a : Atom) :
    a.word.kind = .ident ∨ a.word.kind = .number ∨ a.word.kind = .str := by
  cases a with
  | name n => exact .inl rfl
  | digits n => exact .inr (.inl rfl)
  | quoted q => exact .inr (.inr rfl)

/-- An atom opens and closes no group. -/
theorem Atom.groupDepth (a : Atom) (depth : Nat) : a.word.kind.groupDepth depth = depth := by
  rcases a.kind_word with h | h | h <;> rw [h] <;> rfl

/-- A bracket that opens a group ends neither a line nor a parameter. -/
theorem Bracket.kind_opening (b : Bracket) : b.opening.kind ≠ .newline ∧
    ¬(b.opening.kind = .comma ∨ b.opening.kind = .closeParen) := by
  cases b <;> decide

/-- A bracket that closes a group ends no line. -/
theorem Bracket.kind_closing (b : Bracket) : b.closing.kind ≠ .newline := by
  cases b <;> decide

/-- It makes the depth of groups greater by one. -/
theorem Bracket.groupDepth_opening (b : Bracket) (depth : Nat) :
    b.opening.kind.groupDepth depth = depth + 1 := by
  cases b <;> rfl

/-- It makes the depth of groups less by one. -/
theorem Bracket.groupDepth_closing (b : Bracket) (depth : Nat) :
    b.closing.kind.groupDepth depth = depth - 1 := by
  cases b <;> rfl

/-- The scan of parameters passes a default value. A comma may only stand inside a group. -/
theorem Phrase.run_paramScan (p : Phrase) {ts : List Token} (h : ts.map Token.word = p.words)
    (stop : Span) (table : ParamTable) (name : String) (type : Option String) (generic : Bool)
    (text : String) (span : Span) {groups : Nat} (hsingle : groups = 0 → p.isSingle = true)
    (rest : List Token) :
    ParamScan.run stop (.presetting table name type generic text span groups) (ts ++ rest) =
      ParamScan.run stop (.presetting table name type generic (Text.attachAll .spaced text p.words)
        (span.over ts) groups) rest := by
  induction p generalizing ts text span groups rest with
  | nil =>
    obtain rfl := List.map_eq_nil_iff.mp h
    rfl
  | atom a more ih =>
    rw [words] at h
    obtain ⟨sa, us, rfl, hus⟩ := Token.exists_cons_of_words h
    have hkind : (a.word.at sa).kind ≠ .newline ∧
        ((a.word.at sa).kind = .comma ∨ (a.word.at sa).kind = .closeParen → groups ≠ 0) := by
      rw [Word.at]
      rcases a.kind_word with h | h | h <;> simp [h]
    rw [List.cons_append, ParamScan.run_presetting _ _ _ _ _ _ _ _ hkind.1 hkind.2,
      show (a.word.at sa).kind.groupDepth groups = groups from a.groupDepth groups,
      ih hus _ _ hsingle]
    rfl
  | comma more ih =>
    -- a single phrase has no comma at depth zero, where it would end the parameter
    have hgroups : groups ≠ 0 := fun h0 => absurd (hsingle h0) (by simp [isSingle])
    rw [words] at h
    obtain ⟨sc, us, rfl, hus⟩ := Token.exists_cons_of_words h
    rw [List.cons_append, ParamScan.run_presetting _ _ _ _ _ _ _ _ (by simp [Word.at, Word.comma])
      fun _ => hgroups]
    exact ih hus _ _ (fun h0 => absurd h0 hgroups) rest
  | group b inside more ihin ih =>
    rw [words] at h
    obtain ⟨so, us, rfl, hus⟩ := Token.exists_cons_of_words h
    obtain ⟨front, closing, rfl, hfront, hclosing⟩ := List.map_eq_append_iff.mp hus
    obtain ⟨sc, vs, rfl, hvs⟩ := Token.exists_cons_of_words hclosing
    rw [List.cons_append, ParamScan.run_presetting _ _ _ _ _ _ _ _ b.kind_opening.1
        fun hmark => absurd hmark b.kind_opening.2,
      show (b.opening.at so).kind.groupDepth groups = groups + 1 from b.groupDepth_opening groups,
      List.append_assoc, ihin hfront _ _ (fun h0 => absurd h0 (Nat.succ_ne_zero groups)),
      List.cons_append, ParamScan.run_presetting _ _ _ _ _ _ _ _ b.kind_closing
        fun _ => Nat.succ_ne_zero groups,
      show (b.closing.at sc).kind.groupDepth (groups + 1) = groups from b.groupDepth_closing _,
      ih hvs _ _ hsingle, words, Text.attachAll_cons, Text.attachAll_append, Text.attachAll_cons,
      Span.over_cons, Span.over_append, Span.over_cons]
    rfl

/-! ### One parameter -/

/-- A name has a text. -/
theorem Name.text_ne_empty (n : Name) : n.text ≠ "" := by
  intro h
  have hn := n.isName
  rw [h] at hn
  exact absurd hn (by decide)

/-- The draft says what the parameter says. -/
structure Draft.Says (draft : Draft) (p : Param) : Prop where
  name : draft.name = p.name.text
  info : draft.info = .ok p.info

/-- A type that has values makes the draft complete. -/
theorem Draft.info_typed {t : TypeExpr} (ht : t.isVoid = false) (name : String)
    (default : Option String) (span : Option Span) :
    (⟨name, some t.text, default, t.isGeneric, span⟩ : Draft).info =
      .ok ⟨t.text, t.isGeneric, default, true⟩ := by
  simp only [Draft.info]
  rw [if_neg t.text_ne_empty, if_neg (TypeExpr.text_ne_void ht)]

/-- A parameter with a new name is entered at the end. -/
theorem Draft.Says.commit {draft : Draft} {p : Param} (h : draft.Says p) {table : ParamTable}
    (hnew : p.name.text ∉ table.names) (ending : Span) :
    draft.commit table ending = .ok ⟨table.entries ++ [(p.name.text, p.info)]⟩ := by
  have hname : draft.name ≠ "" := by
    rw [h.name]
    exact p.name.text_ne_empty
  have hcontains : ¬table.contains draft.name = true := by
    rw [h.name, Table.contains_iff_mem_names]
    exact hnew
  rw [Draft.commit, if_neg (by simp [Draft.isBlank, hname]), if_neg hname, h.info]
  simp only [if_neg hcontains]
  rw [h.name, ← Table.entries_insert_of_new hnew]

namespace ParamScan

/-- The first token of a parameter is its name. -/
theorem run_name {t : Token} (h : t.kind = .ident) (stop : Span) (table : ParamTable)
    (ts : List Token) :
    run stop { table } (t :: ts) =
      run stop { table, draft := { name := t.text, span := some t.span } } ts := by
  refine run_of_more ?_ stop ts
  rw [step_eq_stepTyped (by simp [h]) (by simp [h]) (by simp [h]) rfl, stepTyped]
  simp only [h]
  rw [push, Draft.push, Text.attach_eq]
  simp [Text.wantsSpace]

/-- A colon opens the type. -/
theorem run_colon {t : Token} (h : t.kind = .colon) (stop : Span) (table : ParamTable)
    (name : String) (span : Span) (ts : List Token) :
    run stop { table, draft := { name, span := some span } } (t :: ts) =
      run stop (typing table name "" false span 0) ts := by
  refine run_of_more ?_ stop ts
  rw [step_eq_stepTyped (by simp [h]) (by simp [h]) (by simp [h]) rfl, stepTyped]
  simp only [h]
  rfl

/-- An equals sign opens the default value, whether a type was written or not. -/
theorem run_equals {t : Token} (h : t.kind = .equals) (stop : Span) (table : ParamTable)
    (name : String) (type : Option String) (generic : Bool) (span : Span) (ts : List Token) :
    run stop { table, draft := ⟨name, type, none, generic, some span⟩ } (t :: ts) =
      run stop (presetting table name type generic "" span 0) ts := by
  refine run_of_more ?_ stop ts
  rw [step_eq_stepTyped (by simp [h]) (by simp [h]) (by simp [h]) rfl, stepTyped]
  simp only [h]
  rfl

/-- The closing parenthesis ends the scan with the last draft entered. -/
theorem run_close {close : Token} (hclose : close.kind = .closeParen) {draft : Draft}
    {table result : ParamTable} (hcommit : draft.commit table close.span = .ok result)
    (stop : Span) (ts : List Token) :
    run stop { table, draft } (close :: ts) = (.ok result, ts) := by
  rw [run, step, if_neg (by simp [hclose]), if_neg (by simp [hclose]), if_pos ⟨hclose, rfl⟩]
  simp only [if_true, hcommit]

end ParamScan

/-- The scan of parameters passes a parameter, and its draft says what the parameter says. -/
theorem Param.exists_draft (p : Param) {ts : List Token} (h : ts.map Token.word = p.words)
    (stop : Span) (table : ParamTable) (rest : List Token) :
    ∃ draft : Draft, draft.Says p ∧
      ParamScan.run stop { table } (ts ++ rest) = ParamScan.run stop { table, draft } rest := by
  cases p with
  | receiver n hn =>
    rw [words] at h
    obtain ⟨sn, us, rfl, hus⟩ := Token.exists_cons_of_words h
    obtain rfl := List.map_eq_nil_iff.mp hus
    refine ⟨{ name := n.text, span := some sn }, ⟨rfl, ?_⟩,
      ParamScan.run_name rfl stop table rest⟩
    rw [Draft.info]
    exact if_pos hn
  | presetReceiver n hn v hv =>
    rw [words] at h
    obtain ⟨sn, us, rfl, hus⟩ := Token.exists_cons_of_words h
    obtain ⟨se, xs, rfl, hxs⟩ := Token.exists_cons_of_words hus
    refine ⟨⟨n.text, none, some v.text, false, some (sn.over xs)⟩, ⟨rfl, if_pos hn⟩, ?_⟩
    rw [List.cons_append, ParamScan.run_name rfl, List.cons_append, ParamScan.run_equals rfl,
      v.run_paramScan hxs _ _ _ _ _ _ _ fun _ => hv, Text.attachAll_empty .spaced v.plain_words]
    rfl
  | typed n t ht =>
    rw [words] at h
    obtain ⟨sn, us, rfl, hus⟩ := Token.exists_cons_of_words h
    obtain ⟨sc, vs, rfl, hvs⟩ := Token.exists_cons_of_words hus
    refine ⟨_, ⟨rfl, Draft.info_typed ht n.text none (some (sn.over vs))⟩, ?_⟩
    rw [List.cons_append, ParamScan.run_name rfl, List.cons_append, ParamScan.run_colon rfl,
      t.run_paramScan hvs, TypeExpr.attachAll_words, Bool.false_or]
    rfl
  | preset n t ht v hv =>
    rw [words] at h
    obtain ⟨sn, us, rfl, hus⟩ := Token.exists_cons_of_words h
    obtain ⟨sc, vs, rfl, hvs⟩ := Token.exists_cons_of_words hus
    obtain ⟨front, back, rfl, hfront, hback⟩ := List.map_eq_append_iff.mp hvs
    obtain ⟨se, xs, rfl, hxs⟩ := Token.exists_cons_of_words hback
    refine ⟨_, ⟨rfl, Draft.info_typed ht n.text (some v.text) (some ((sn.over front).over xs))⟩, ?_⟩
    rw [List.cons_append, ParamScan.run_name rfl, List.cons_append, ParamScan.run_colon rfl,
      List.append_assoc, t.run_paramScan hfront, TypeExpr.attachAll_words, Bool.false_or,
      List.cons_append, ParamScan.typing, ParamScan.run_equals rfl,
      v.run_paramScan hxs _ _ _ _ _ _ _ fun _ => hv, Text.attachAll_empty .spaced v.plain_words]
    rfl

/-! ### All parameters -/

/-- Where all names differ, the next one is new. -/
theorem Param.name_not_mem_names {p : Param} {ps : List Param} {table : ParamTable}
    (h : (table.names ++ (p :: ps).map (·.name.text)).Nodup) : p.name.text ∉ table.names :=
  fun hmem => (List.nodup_append.mp h).2.2 _ hmem _ (by simp) rfl

/-- The scan of parameters passes a parameter and the comma behind it. -/
theorem Param.run_comma (p : Param) {ts : List Token} (h : ts.map Token.word = p.words)
    (comma stop : Span) {table : ParamTable} (hnew : p.name.text ∉ table.names)
    (rest : List Token) :
    ParamScan.run stop { table } (ts ++ Word.comma.at comma :: rest) =
      ParamScan.run stop { table := ⟨table.entries ++ [(p.name.text, p.info)]⟩ } rest := by
  obtain ⟨draft, hdraft, hrun⟩ := p.exists_draft h stop table (Word.comma.at comma :: rest)
  have hcommit := hdraft.commit hnew (Word.comma.at comma).span
  have hstep : ParamScan.step { table, draft } (Word.comma.at comma) =
      .more { table := ⟨table.entries ++ [(p.name.text, p.info)]⟩ } := by
    rw [ParamScan.step, if_neg (by simp [Word.at, Word.comma]), if_pos ⟨rfl, rfl, rfl⟩]
    simp only [hcommit]
  rw [hrun, ParamScan.run_of_more hstep]

/-- The scan of parameters reads the parameters in their order. -/
theorem Param.run_all (ps : List Param) {ts : List Token} (h : ts.map Token.word = allWords ps)
    {close : Token} (hclose : close.kind = .closeParen) (stop : Span) (table : ParamTable)
    (hnew : (table.names ++ ps.map (·.name.text)).Nodup) (rest : List Token) :
    ParamScan.run stop { table } (ts ++ close :: rest) =
      (.ok ⟨table.entries ++ ps.map fun p => (p.name.text, p.info)⟩, rest) := by
  fun_induction allWords ps generalizing ts table with
  | case1 =>
    obtain rfl := List.map_eq_nil_iff.mp h
    have hblank : ({} : Draft).commit table close.span = .ok table := rfl
    rw [List.nil_append, ParamScan.run_close hclose hblank, List.map_nil, List.append_nil]
  | case2 p =>
    obtain ⟨draft, hdraft, hrun⟩ := p.exists_draft h stop table (close :: rest)
    rw [hrun]
    exact ParamScan.run_close hclose (hdraft.commit (name_not_mem_names hnew) close.span) stop rest
  | case3 p q ps ih =>
    obtain ⟨front, back, rfl, hfront, hback⟩ := List.map_eq_append_iff.mp h
    obtain ⟨sc, us, rfl, hus⟩ := Token.exists_cons_of_words hback
    rw [List.append_assoc, List.cons_append,
      p.run_comma hfront sc stop (name_not_mem_names hnew), ih hus]
    · simp
    · simpa [Table.names] using hnew

end FuncDecl
