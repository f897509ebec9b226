import FuncDecl.Declaration.Header
import FuncDecl.Proofs.Token.LineEnds

/-!
# What the readers of a header look at

A reader that succeeds takes some tokens from the front and gives the rest. What it takes and what
it finds depends on the tokens that it takes and on at most two more, so behind these the rest may
be any other list.

* `SameFront rest rest'`: the two lists begin with the same two tokens, or are equal and shorter.
* `Decorator.readAll_local`, `readModifiers_local`, `ParamScan.run_local`, `readReturnType_local`:
  each reader looks no further than this.
* `readKeyword_eq_ok_iff`, `readName_eq_ok_iff`, `readParamList_eq_ok_iff`,
  `readHeaderEnd_eq_ok_iff`: the tokens that the other readers take.
* `Header.Cut`, `Header.Front`, `Header.Parts`: where the tokens of a header are cut, and what its
  parts are. `Header.read_eq_ok_iff` says that a header is read exactly if it has them.
* `Header.read_local`: **a header is local**. It reaches up to a mark, and behind the mark there are
  only line ends.
-/

namespace FuncDecl

/-! ## Results -/

/-- A result is translated exactly if there is one. -/
theorem Except.map_eq_ok_iff {ε α β : Type} {x : Except ε α} {f : α → β} {b : β} :
    x.map f = .ok b ↔ ∃ a, x = .ok a ∧ f a = b := by
  cases x with
  | error e => simp [Except.map]
  | ok a => simp [Except.map]

/-- Two steps succeed exactly if each does. -/
theorem Except.bind_eq_ok_iff {ε α β : Type} {x : Except ε α} {f : α → Except ε β} {b : β} :
    (x >>= f) = .ok b ↔ ∃ a, x = .ok a ∧ f a = .ok b := by
  cases x with
  | error e => exact ⟨fun h => by simp [Bind.bind, Except.bind] at h, by simp⟩
  | ok a => exact ⟨fun h => ⟨a, rfl, h⟩, fun ⟨_, ha, h⟩ => by rw [← Except.ok.inj ha] at h; exact h⟩

/-! ## The front of a list -/

/-- The two lists begin with the same two tokens, or are equal and shorter. -/
def SameFront (rest rest' : List Token) : Prop :=
  rest.take 2 = rest'.take 2

/-- The same tokens in front of both leave the fronts the same. -/
theorem SameFront.append {rest rest' : List Token} (h : SameFront rest rest') (pre : List Token) :
    SameFront (pre ++ rest) (pre ++ rest') := by
  have htake : rest.take (2 - pre.length) = rest'.take (2 - pre.length) := by
    have := congrArg (List.take (2 - pre.length)) h
    rwa [List.take_take, List.take_take, Nat.min_eq_left (Nat.sub_le _ _)] at this
  rw [SameFront, List.take_append, List.take_append, htake]

/-- Behind two tokens everything may differ. -/
theorem sameFront_of_two (pre : List Token) (h : 2 ≤ pre.length) (rest rest' : List Token) :
    SameFront (pre ++ rest) (pre ++ rest') := by
  rw [SameFront, List.take_append_of_le_length h, List.take_append_of_le_length h]

/-- Lists of the same front have the same first token. -/
theorem SameFront.head? {rest rest' : List Token} (h : SameFront rest rest') :
    rest.head? = rest'.head? := by
  have := congrArg List.head? h
  simpa [List.head?_take] using this

/-- They have the same first two tokens, if there are two. -/
theorem SameFront.eq_cons_cons {t u : Token} {rest rest' : List Token}
    (h : SameFront (t :: u :: rest) rest') : ∃ rest'', rest' = t :: u :: rest'' := by
  match rest' with
  | [] => simp [SameFront] at h
  | [t'] => simp [SameFront] at h
  | t' :: u' :: rest'' =>
    simp only [SameFront, List.take_succ_cons, List.take_zero, List.cons.injEq, and_true] at h
    exact ⟨rest'', by rw [h.1, h.2]⟩

/-- They are equal if there are not two. -/
theorem SameFront.eq_of_length_lt {rest rest' : List Token} (h : SameFront rest rest')
    (hlt : rest.length < 2) : rest' = rest := by
  match rest, rest' with
  | [], [] => rfl
  | [], _ :: _ => simp [SameFront] at h
  | [t], [] => simp [SameFront] at h
  | [t], [t'] => simpa [SameFront] using h.symm
  | [t], t' :: u' :: _ => simp [SameFront] at h
  | _ :: _ :: rest, _ => exact absurd hlt (Nat.not_lt.mpr (Nat.le_add_left 2 rest.length))

/-! ## Decorators -/

namespace Decorator

/-- The parts of a dotted name are told by their tokens and the next two. -/
theorem readDots_local {d d' : Decorator} {ts rest : List Token}
    (h : readDots d ts = (d', rest)) :
    ∃ pre, ts = pre ++ rest ∧
      ∀ rest', SameFront rest rest' → readDots d (pre ++ rest') = (d', rest') := by
  fun_induction readDots d ts with
  | case1 d dot name ts hname ih =>
    obtain ⟨pre, rfl, hpre⟩ := ih h
    refine ⟨dot :: name :: pre, rfl, fun rest' hfront => ?_⟩
    rw [List.cons_append, List.cons_append, readDots, if_pos hname, hpre rest' hfront]
  | case2 d dot name ts hname =>
    obtain ⟨rfl, rfl⟩ := Prod.mk.inj h
    refine ⟨[], rfl, fun rest' hfront => ?_⟩
    obtain ⟨rest'', rfl⟩ := hfront.eq_cons_cons
    rw [List.nil_append, readDots, if_neg hname]
  | case3 d ts hshort =>
    obtain ⟨rfl, rfl⟩ := Prod.mk.inj h
    refine ⟨[], rfl, fun rest' hfront => ?_⟩
    have hlt : ts.length < 2 := by
      match ts, hshort with
      | [], _ => simp
      | [t], _ => simp
      | dot :: name :: ts, hshort => exact absurd rfl (hshort dot name ts)
    rw [List.nil_append, hfront.eq_of_length_lt hlt, readDots]
    exact hshort

/-- Arguments are told by their tokens. -/
theorem readArguments_local {d d' : Decorator} {depth : Nat} {ts rest : List Token}
    (h : readArguments d depth ts = some (d', rest)) :
    ∃ pre, ts = pre ++ rest ∧ ∀ rest', readArguments d depth (pre ++ rest') = some (d', rest') := by
  fun_induction readArguments d depth ts with
  | case1 => simp at h
  | case2 d depth t ts hn ih =>
    obtain ⟨pre, rfl, hpre⟩ := ih h
    refine ⟨t :: pre, rfl, fun rest' => ?_⟩
    rw [List.cons_append, readArguments, if_pos hn, hpre]
  | case3 d depth t ts hn d₁ depth₁ hd =>
    obtain ⟨rfl, rfl⟩ := Prod.mk.inj (Option.some.inj h)
    refine ⟨[t], rfl, fun rest' => ?_⟩
    rw [List.cons_append, readArguments, if_neg hn]
    exact if_pos hd
  | case4 d depth t ts hn d₁ depth₁ hd ih =>
    obtain ⟨pre, rfl, hpre⟩ := ih h
    refine ⟨t :: pre, rfl, fun rest' => ?_⟩
    rw [List.cons_append, readArguments, if_neg hn]
    exact (if_neg hd).trans (hpre rest')

/-- A decorator begins with its sign. -/
theorem read?_eq_none {ts : List Token} (h : ∀ t ∈ ts.head?, t.kind ≠ .atSign) :
    read? ts = none := by
  unfold read?
  split
  · rw [if_neg fun hs => h _ rfl hs.1]
  · rfl

/-- Behind its name a decorator has arguments if a parenthesis comes next. -/
theorem read?_of_readDots {sign name : Token} {ts rest : List Token} {d : Decorator}
    (hsign : sign.kind = .atSign ∧ name.kind = .ident ∧ name.span.start = sign.span.stop)
    (hdots : readDots ⟨name.text, sign.span.merge name.span⟩ ts = (d, rest)) :
    read? (sign :: name :: ts) =
      if rest.head?.any (·.kind = .openParen) then readArguments d 0 rest
      else some (d, rest) := by
  rw [read?, if_pos hsign, hdots]
  cases rest with
  | nil => rfl
  | cons t rest => simp

/-- A decorator is told by its tokens and the next two. -/
theorem read?_local {d : Decorator} {ts rest : List Token} (h : read? ts = some (d, rest)) :
    ∃ pre, ts = pre ++ rest ∧
      ∀ rest', SameFront rest rest' → read? (pre ++ rest') = some (d, rest') := by
  match ts with
  | [] => simp [read?] at h
  | [t] => simp [read?] at h
  | sign :: name :: ts =>
    by_cases hsign : sign.kind = .atSign ∧ name.kind = .ident ∧ name.span.start = sign.span.stop
    · obtain ⟨⟨d₁, rest₁⟩, hdots⟩ :
        ∃ r, readDots ⟨name.text, sign.span.merge name.span⟩ ts = r := ⟨_, rfl⟩
      obtain ⟨dots, rfl, hlocal⟩ := readDots_local hdots
      rw [read?_of_readDots hsign hdots] at h
      split at h
      · next hparen =>
        obtain ⟨args, rfl, hread⟩ := readArguments_local h
        refine ⟨sign :: name :: (dots ++ args), by simp, fun rest' hfront => ?_⟩
        have hfront' := hfront.append args
        rw [List.cons_append, List.cons_append, List.append_assoc,
          read?_of_readDots hsign (hlocal _ hfront'), ← hfront'.head?, if_pos hparen, hread]
      · next hparen =>
        obtain ⟨rfl, rfl⟩ := Prod.mk.inj (Option.some.inj h)
        refine ⟨sign :: name :: dots, rfl, fun rest' hfront => ?_⟩
        rw [List.cons_append, List.cons_append, read?_of_readDots hsign (hlocal _ hfront),
          ← hfront.head?, if_neg hparen]
    · rw [read?, if_neg hsign] at h
      simp at h

/-- Where no decorator stands, none is read. -/
theorem readAll_of_none {ts : List Token} (h : read? ts = none) : readAll ts = ([], ts) := by
  rw [readAll]
  split
  · next h' =>
    rw [h] at h'
    simp at h'
  · rfl

/-- Where a decorator stands, it is read, and then those behind its line ends. -/
theorem readAll_of_some {ts rest : List Token} {d : Decorator} (h : read? ts = some (d, rest)) :
    readAll ts = (d :: (readAll (skipNewlines rest)).1, (readAll (skipNewlines rest)).2) := by
  rw [readAll]
  split
  · next h' =>
    obtain ⟨rfl, rfl⟩ := Prod.mk.inj (Option.some.inj (h'.symm.trans h))
    rfl
  · next h' =>
    rw [h] at h'
    simp at h'

/-- Induction along the decorators that are read. -/
theorem readAll_induct {motive : List Token → Prop}
    (stop : ∀ ts, read? ts = none → motive ts)
    (more : ∀ ts d rest, read? ts = some (d, rest) → motive (skipNewlines rest) → motive ts)
    (ts : List Token) : motive ts := by
  fun_induction readAll ts with
  | case1 ts d rest hread ds rest' hrest ih => exact more ts d rest hread ih
  | case2 ts hread => exact stop ts hread

/-- What follows the decorators is the rest of the tokens. -/
theorem readAll_suffix (ts : List Token) : (readAll ts).2 <:+ ts := by
  induction ts using readAll_induct with
  | stop ts hread => exact ⟨[], congrArg Prod.snd (readAll_of_none hread)⟩
  | more ts d rest hread ih =>
    obtain ⟨pre, hpre, -⟩ := read?_local hread
    rw [readAll_of_some hread]
    exact ih.trans ((List.dropWhile_suffix _).trans ⟨pre, hpre.symm⟩)

/-- All decorators, where another token than a sign follows them. -/
theorem readAll_local {ds : List Decorator} {ts rest : List Token} {t : Token}
    (h : readAll ts = (ds, t :: rest)) (ht : t.kind ≠ .atSign) :
    ∃ pre, ts = pre ++ t :: rest ∧
      ∀ rest', SameFront (t :: rest) rest' → readAll (pre ++ rest') = (ds, rest') := by
  induction ts using readAll_induct generalizing ds with
  | stop ts hread =>
    rw [readAll_of_none hread] at h
    obtain ⟨rfl, rfl⟩ := Prod.mk.inj h
    refine ⟨[], rfl, fun rest' hfront => readAll_of_none (read?_eq_none fun u hu => ?_)⟩
    rw [List.nil_append, ← hfront.head?] at hu
    rwa [← Option.some.inj hu]
  | more ts d rest₁ hread ih =>
    rw [readAll_of_some hread] at h
    obtain ⟨rfl, hrest⟩ := Prod.mk.inj h
    obtain ⟨pre, hpre, hall⟩ := ih (Prod.ext rfl hrest)
    obtain ⟨first, rfl, hfirst⟩ := read?_local hread
    obtain ⟨gap, hgap, hnewlines⟩ := exists_append_skipNewlines rest₁
    refine ⟨first ++ (gap ++ pre), by rw [List.append_assoc, List.append_assoc, ← hpre, ← hgap],
      fun rest' hfront => ?_⟩
    have hfront' := hfront.append pre
    -- the token behind the line ends is the same one
    have hhead : skipNewlines (pre ++ rest') = pre ++ rest' := by
      refine skipNewlines_eq_self fun u hu => head?_skipNewlines rest₁ ?_
      rwa [hpre, hfront'.head?]
    have hsame : SameFront rest₁ (gap ++ (pre ++ rest')) := by
      rw [hgap, hpre]
      exact hfront'.append gap
    rw [List.append_assoc, List.append_assoc, readAll_of_some (hfirst _ hsame),
      skipNewlines_append hnewlines, hhead, hall rest' hfront]

end Decorator

/-! ## Modifiers -/

/-- Modifiers are told by their tokens and the next one. -/
theorem readModifiers_local {table : ModifierTable} {ms : List Modifier} {ts rest : List Token}
    {t : Token} (h : readModifiers table ts = (ms, t :: rest)) :
    ∃ pre, ts = pre ++ t :: rest ∧ (∀ u ∈ pre, table.contains u.text = true) ∧
      table.contains t.text = false ∧
      ∀ rest', readModifiers table (pre ++ t :: rest') = (ms, t :: rest') := by
  induction ts generalizing ms with
  | nil => simp [readModifiers] at h
  | cons u ts ih =>
    rw [readModifiers] at h
    cases hfind : table.find? u.text with
    | none =>
      rw [hfind] at h
      obtain ⟨rfl, hcons⟩ := Prod.mk.inj h
      obtain ⟨rfl, rfl⟩ := List.cons.inj hcons
      refine ⟨[], rfl, by simp, by rw [Table.contains, hfind]; rfl, fun rest' => ?_⟩
      rw [List.nil_append, readModifiers, hfind]
    | some m =>
      rw [hfind] at h
      obtain ⟨rfl, hrest⟩ := Prod.mk.inj h
      obtain ⟨pre, rfl, hpre, ht, hlocal⟩ := ih (Prod.ext rfl hrest)
      refine ⟨u :: pre, rfl, List.forall_mem_cons.mpr ⟨by rw [Table.contains, hfind]; rfl, hpre⟩, ht,
        fun rest' => ?_⟩
      rw [List.cons_append, readModifiers, hfind, hlocal]

/-! ## Parameters and return type -/

/-- A list of parameters is told by its tokens. By induction on them. -/
theorem ParamScan.run_local {stop : Span} {s : ParamScan} {ts rest : List Token}
    {table : ParamTable} (h : run stop s ts = (.ok table, rest)) :
    ∃ pre, ts = pre ++ rest ∧ pre ≠ [] ∧
      ∀ stop' rest', run stop' s (pre ++ rest') = (.ok table, rest') := by
  induction ts generalizing s with
  | nil => simp [run] at h
  | cons t ts ih =>
    rw [run] at h
    cases hstep : s.step t with
    | more s' =>
      rw [hstep] at h
      obtain ⟨pre, rfl, -, hlocal⟩ := ih h
      refine ⟨t :: pre, rfl, List.cons_ne_nil _ _, fun stop' rest' => ?_⟩
      rw [List.cons_append, run, hstep]
      exact hlocal stop' rest'
    | done result =>
      rw [hstep] at h
      obtain ⟨rfl, rfl⟩ := Prod.mk.inj h
      refine ⟨[t], rfl, List.cons_ne_nil _ _, fun stop' rest' => ?_⟩
      rw [List.cons_append, run, hstep]
      rfl

/-- By how much a token changes the depth of angle brackets. -/
def Token.angle (t : Token) : Int :=
  match t.kind with
  | .less => 1
  | .greater => -1
  | _ => 0

namespace TypeScan

variable {arrow : Span} {s : TypeScan} {t : Token}

/-- The scan behind a token of the type. -/
def take (s : TypeScan) (t : Token) : TypeScan :=
  if t.kind = .newline then s else { s.push t with angles := (s.angles + t.angle).toNat }

/-- A return type ends well if its brackets are closed and it is not empty. -/
theorem finish_eq_ok_iff {text : String} :
    s.finish arrow = .ok text ↔ s.angles = 0 ∧ s.text ≠ "" ∧ s.text = text := by
  unfold finish
  split
  · next h => simp [h]
  · next h =>
    split
    · next htext => simp [htext]
    · next htext =>
      have hangles : s.angles = 0 := Decidable.not_not.mp h
      simp [hangles, htext]

/-- A token that neither ends the type nor closes a bracket that is not open is taken into it. -/
theorem run_cons (hends : ¬(s.angles = 0 ∧ t.kind.endsType = true)) (h : 0 ≤ s.angles + t.angle)
    (ts : List Token) : run arrow s (t :: ts) = run arrow (s.take t) ts := by
  rw [run, if_neg hends, take]
  split
  · next hk => rw [if_pos hk]
  · next hk =>
    have hangle : t.angle = 1 := by rw [Token.angle, hk]
    have hangles : (s.angles + t.angle).toNat = s.angles + 1 := by omega
    rw [if_neg (by rw [hk]; decide), hangles]
  · next hk =>
    have hangle : t.angle = -1 := by rw [Token.angle, hk]
    have hangles : (s.angles + t.angle).toNat = s.angles - 1 := by omega
    rw [if_neg (by omega), if_neg (by rw [hk]; decide), hangles]
  · next hn hl hg =>
    have hangle : t.angle = 0 := by
      unfold Token.angle
      split
      · next hk => exact absurd hk hl
      · next hk => exact absurd hk hg
      · rfl
    have hangles : (s.angles + t.angle).toNat = s.angles := by omega
    rw [if_neg hn, hangles]
    rfl

/-- A type that is read closes no bracket that is not open. -/
theorem nonneg_of_run {ts : List Token} {found : String × List Token}
    (h : run arrow s (t :: ts) = .ok found) : 0 ≤ s.angles + t.angle := by
  by_contra hneg
  have hkind : t.kind = .greater ∧ s.angles = 0 := by
    unfold Token.angle at hneg
    split at hneg
    · omega
    · next hk => exact ⟨hk, by omega⟩
    · omega
  rw [run, if_neg (by rw [hkind.1]; simp [Token.Kind.endsType])] at h
  simp [hkind] at h

/-- A return type is told by its tokens and the next one. -/
theorem run_local {ts rest : List Token} {type : String}
    (h : run arrow s ts = .ok (type, t :: rest)) :
    ∃ pre, ts = pre ++ t :: rest ∧
      ∀ rest', run arrow s (pre ++ t :: rest') = .ok (type, t :: rest') := by
  induction ts generalizing s with
  | nil =>
    obtain ⟨_, -, hpair⟩ := Except.map_eq_ok_iff.mp h
    simp at hpair
  | cons u ts ih =>
    by_cases hends : s.angles = 0 ∧ u.kind.endsType = true
    · rw [run, if_pos hends] at h
      obtain ⟨_, hfinish, hpair⟩ := Except.map_eq_ok_iff.mp h
      simp only [Prod.mk.injEq, List.cons.injEq] at hpair
      obtain ⟨rfl, rfl, rfl⟩ := hpair
      refine ⟨[], rfl, fun rest' => ?_⟩
      rw [List.nil_append, run, if_pos hends, hfinish]
      rfl
    · have hnonneg := nonneg_of_run h
      rw [run_cons hends hnonneg] at h
      obtain ⟨pre, rfl, hlocal⟩ := ih h
      exact ⟨u :: pre, rfl, fun rest' => (run_cons hends hnonneg _).trans (hlocal rest')⟩

end TypeScan

/-- The same with the arrow, or without a return type. -/
theorem readReturnType_local {ts rest : List Token} {type : Option String} {t : Token}
    (h : readReturnType ts = .ok (type, t :: rest)) :
    ∃ pre, ts = pre ++ t :: rest ∧
      ∀ rest', readReturnType (pre ++ t :: rest') = .ok (type, t :: rest') := by
  cases ts with
  | nil => simp [readReturnType] at h
  | cons u ts =>
    rw [readReturnType] at h
    split at h
    · next harrow =>
      cases hrun : TypeScan.run u.span ⟨"", 0, u.span⟩ ts with
      | error fault => simp [hrun, Except.map] at h
      | ok r =>
        simp only [hrun, Except.map, Except.ok.injEq, Prod.mk.injEq] at h
        obtain ⟨rfl, hrest⟩ := h
        obtain ⟨pre, rfl, hlocal⟩ := TypeScan.run_local (hrun.trans (by rw [← hrest]))
        refine ⟨u :: pre, rfl, fun rest' => ?_⟩
        rw [List.cons_append, readReturnType, if_pos harrow, hlocal]
        rfl
    · next harrow =>
      simp only [Except.ok.injEq, Prod.mk.injEq, List.cons.injEq] at h
      obtain ⟨rfl, rfl, rfl⟩ := h
      refine ⟨[], rfl, fun rest' => ?_⟩
      rw [List.nil_append, readReturnType, if_neg harrow]

/-! ## The end of a header -/

/-- A header ends with a mark behind line ends, and with line ends behind it. -/
theorem readHeaderEnd_eq_ok_iff {stop : Span} {ts : List Token} {ending : HeaderEnd} :
    readHeaderEnd stop ts = .ok ending ↔
      ∃ mark trail, skipNewlines ts = mark :: trail ∧
        HeaderEnd.ofKind? mark.kind = some ending ∧ ∀ t ∈ trail, t.kind = .newline := by
  rw [readHeaderEnd]
  cases hskip : skipNewlines ts with
  | nil => simp
  | cons mark trail =>
    simp only [List.cons.injEq]
    constructor
    · intro h
      split at h
      · simp at h
      · next ending' hk =>
        split at h
        · next htrail =>
          obtain rfl := Except.ok.inj h
          exact ⟨mark, trail, ⟨rfl, rfl⟩, hk, skipNewlines_eq_nil_iff.mp htrail⟩
        · simp at h
    · rintro ⟨_, _, ⟨rfl, rfl⟩, hk, htrail⟩
      rw [hk, skipNewlines_eq_nil_iff.mpr htrail]

/-! ## Keyword, name and parameter list -/

/-- The keyword is one token. -/
theorem readKeyword_eq_ok_iff {d : Dialect} {stop span : Span} {ts rest : List Token} :
    readKeyword d stop ts = .ok (span, rest) ↔
      ∃ t, ts = t :: rest ∧ d.isFunctionKeyword t = true ∧ span = t.span := by
  cases ts with
  | nil => simp [readKeyword]
  | cons t ts =>
    rw [readKeyword]
    split
    · next hk =>
      simp only [Except.ok.injEq, Prod.mk.injEq, List.cons.injEq]
      exact ⟨fun ⟨hspan, hrest⟩ => ⟨t, ⟨rfl, hrest⟩, hk, hspan.symm⟩,
        fun ⟨_, ⟨rfl, hrest⟩, _, hspan⟩ => ⟨hspan.symm, hrest⟩⟩
    · next hk =>
      refine ⟨fun h => by simp at h, ?_⟩
      rintro ⟨_, ht, hk', -⟩
      obtain ⟨rfl, -⟩ := List.cons.inj ht
      exact absurd hk' hk

/-- The name is one token. -/
theorem readName_eq_ok_iff {stop : Span} {ts rest : List Token} {name : FunctionName} :
    readName stop ts = .ok (name, rest) ↔
      ∃ t, ts = t :: rest ∧ FunctionName.ofToken? t = some name := by
  cases ts with
  | nil => simp [readName]
  | cons t ts =>
    rw [readName]
    cases hname : FunctionName.ofToken? t with
    | none =>
      refine ⟨fun h => by simp at h, ?_⟩
      rintro ⟨_, ht, hname'⟩
      obtain ⟨rfl, -⟩ := List.cons.inj ht
      rw [hname] at hname'
      simp at hname'
    | some n =>
      simp only [Except.ok.injEq, Prod.mk.injEq, List.cons.injEq]
      constructor
      · rintro ⟨rfl, rfl⟩
        exact ⟨t, ⟨rfl, rfl⟩, hname⟩
      · rintro ⟨_, ⟨rfl, rfl⟩, hname'⟩
        exact ⟨Option.some.inj (hname.symm.trans hname'), rfl⟩

/-- A list of parameters begins with a parenthesis. The place that is told if it never ends does not
matter where it ends. -/
theorem readParamList_eq_ok_iff {stop : Span} {ts rest : List Token} {params : ParamTable} :
    readParamList stop ts = .ok (params, rest) ↔
      ∃ t inside, ts = t :: inside ∧ t.kind = .openParen ∧
        ∀ stop', readParams stop' inside = (.ok params, rest) := by
  cases ts with
  | nil => simp [readParamList]
  | cons t ts =>
    rw [readParamList]
    split
    · next hk =>
      simp only [List.cons.injEq]
      constructor
      · intro h
        split at h
        · next params' rest' hread =>
          obtain ⟨rfl, rfl⟩ := Prod.mk.inj (Except.ok.inj h)
          obtain ⟨pre, rfl, -, hlocal⟩ := ParamScan.run_local hread
          exact ⟨t, _, ⟨rfl, rfl⟩, hk, fun stop' => hlocal stop' rest'⟩
        · simp at h
      · rintro ⟨_, _, ⟨rfl, rfl⟩, -, hread⟩
        rw [hread]
    · next hk =>
      refine ⟨fun h => by simp at h, ?_⟩
      rintro ⟨_, _, ht, hk', -⟩
      obtain ⟨rfl, -⟩ := List.cons.inj ht
      exact absurd hk' hk

/-! ## The header -/

namespace Header

/-- Where the tokens of a header are cut. -/
structure Cut where
  /-- The tokens behind the decorators. -/
  head : List Token
  keyword : Token
  name : Token
  paren : Token
  /-- The tokens behind the opening parenthesis. -/
  inside : List Token
  /-- The tokens behind the parameters. -/
  behind : List Token
  /-- The tokens behind the return type. -/
  last : List Token

/-- The parts of a header in front of its end: decorators, modifiers, the keyword, the name,
parameters and the return type, each read from where the one before it ends. -/
structure Front (d : Dialect) (ts : List Token) (h : Header) (c : Cut) : Prop where
  decorators : Decorator.readAll (skipNewlines ts) = (h.decorators, c.head)
  modifiers : readModifiers d.modifiers c.head =
    (h.modifiers, c.keyword :: c.name :: c.paren :: c.inside)
  keyword : d.isFunctionKeyword c.keyword = true
  name : FunctionName.ofToken? c.name = some h.name
  paren : c.paren.kind = .openParen
  params : ∀ stop, readParams stop c.inside = (.ok h.params, c.behind)
  returnType : readReturnType c.behind = .ok (h.returnType, c.last)
  lead : ∀ t ∈ c.head.head?, h.lead = t.span.merge c.keyword.span

/-- All parts of a header. -/
structure Parts (d : Dialect) (ts : List Token) (h : Header) (c : Cut) : Prop
    extends Front d ts h c where
  ending : ∀ stop, readHeaderEnd stop c.last = .ok h.ending

/-- A list of tokens is a header exactly if it can be cut into the parts of one. -/
theorem read_eq_ok_iff {d : Dialect} {ts : List Token} {h : Header} :
    read d ts = .ok h ↔ ∃ c, Parts d ts h c := by
  rw [read]
  obtain ⟨⟨decorators, head⟩, hall⟩ : ∃ r, Decorator.readAll (skipNewlines ts) = r := ⟨_, rfl⟩
  obtain ⟨⟨modifiers, rest⟩, hmods⟩ : ∃ r, readModifiers d.modifiers head = r := ⟨_, rfl⟩
  simp only [hall, hmods, Except.bind_eq_ok_iff]
  constructor
  · rintro ⟨⟨span, ts₁⟩, hkeyword, ⟨name, ts₂⟩, hname, ⟨params, behind⟩, hparams, ⟨type, last⟩, htype,
      ending, hending, hh⟩
    obtain ⟨keyword, rfl, hk, rfl⟩ := readKeyword_eq_ok_iff.mp hkeyword
    obtain ⟨nameToken, rfl, hn⟩ := readName_eq_ok_iff.mp hname
    obtain ⟨paren, inside, rfl, hp, hinside⟩ := readParamList_eq_ok_iff.mp hparams
    obtain rfl := Except.ok.inj hh
    refine ⟨⟨head, keyword, nameToken, paren, inside, behind, last⟩,
      ⟨hall, hmods, hk, hn, hp, hinside, htype, fun t ht => ?_⟩, fun stop => ?_⟩
    · cases head with
      | nil => simp at ht
      | cons u head => rw [Option.some.inj ht]
    · exact readHeaderEnd_eq_ok_iff.mpr (readHeaderEnd_eq_ok_iff.mp hending)
  · rintro ⟨c, hc⟩
    obtain ⟨rfl, rfl⟩ := Prod.mk.inj (hall.symm.trans hc.decorators)
    obtain ⟨rfl, rfl⟩ := Prod.mk.inj (hmods.symm.trans hc.modifiers)
    refine ⟨_, readKeyword_eq_ok_iff.mpr ⟨c.keyword, rfl, hc.keyword, rfl⟩,
      _, readName_eq_ok_iff.mpr ⟨c.name, rfl, hc.name⟩,
      _, readParamList_eq_ok_iff.mpr ⟨c.paren, c.inside, rfl, hc.paren, hc.params⟩,
      _, hc.returnType, _, hc.ending _, ?_⟩
    -- the keyword is left behind the modifiers, so there is a first token
    cases hhead : c.head with
    | nil =>
      have := hc.modifiers
      rw [hhead, readModifiers] at this
      simp at this
    | cons t head =>
      have hlead := hc.lead t (by rw [hhead]; rfl)
      show Except.ok (⟨h.decorators, h.modifiers, t.span.merge c.keyword.span, h.name, h.params,
        h.returnType, h.ending⟩ : Header) = .ok h
      rw [← hlead]

/-- The tokens behind the decorators begin with a modifier or the keyword. -/
theorem Front.kind_head {d : Dialect} {ts : List Token} {h : Header} {c : Cut}
    (hc : Front d ts h c)
    (hplain : ∀ t ∈ ts, d.modifiers.contains t.text = true → t.kind = .ident) :
    ∀ t ∈ c.head.head?, t.kind = .ident := by
  obtain ⟨mods, hmods, hall, -, -⟩ := readModifiers_local hc.modifiers
  intro t ht
  cases mods with
  | nil =>
    rw [hmods] at ht
    rw [← Option.some.inj ht]
    have := hc.keyword
    rw [Dialect.isFunctionKeyword, Token.isName, Bool.and_eq_true, beq_iff_eq] at this
    exact this.1
  | cons u mods =>
    have hsuffix := Decorator.readAll_suffix (skipNewlines ts)
    rw [hc.decorators] at hsuffix
    obtain ⟨gap, hgap, -⟩ := exists_append_skipNewlines ts
    rw [hmods] at ht
    rw [← Option.some.inj ht]
    refine hplain u ?_ (hall u (by simp))
    rw [hgap]
    exact List.mem_append_right _ (hsuffix.subset (by rw [hmods]; simp))

/-- The decorators are told by their tokens and by the two tokens that follow. -/
theorem Front.decorators_local {d : Dialect} {ts : List Token} {h : Header} {c : Cut}
    (hc : Front d ts h c) (hident : ∀ t ∈ c.head.head?, t.kind = .ident) :
    ∃ decs, skipNewlines ts = decs ++ c.head ∧
      ∀ rest', SameFront c.head rest' → Decorator.readAll (decs ++ rest') = (h.decorators, rest') := by
  cases hhead : c.head with
  | nil =>
    have hmods := hc.modifiers
    rw [hhead, readModifiers] at hmods
    simp at hmods
  | cons t rest =>
    refine Decorator.readAll_local (hhead ▸ hc.decorators) ?_
    rw [hident t (by rw [hhead]; rfl)]
    simp

/-- The return type is told by its tokens and by the mark behind it, also over line ends. -/
theorem Front.returnType_local {d : Dialect} {ts gap trail : List Token} {mark : Token} {h : Header}
    {c : Cut} (hc : Front d ts h c) (hlast : c.last = gap ++ mark :: trail) :
    ∃ type, c.behind = type ++ (gap ++ mark :: trail) ∧
      ∀ trail', readReturnType (type ++ (gap ++ mark :: trail')) =
        .ok (h.returnType, gap ++ mark :: trail') := by
  have htype := hc.returnType
  rw [hlast] at htype
  cases gap with
  | nil => exact readReturnType_local htype
  | cons u gap =>
    obtain ⟨type, hbehind, hall⟩ := readReturnType_local htype
    exact ⟨type, hbehind, fun trail' => hall (gap ++ mark :: trail')⟩

/-- The tokens of a header up to its mark tell all its parts: another list that has them, behind any
line ends, has the same parts. -/
theorem Parts.front_local {d : Dialect} {ts : List Token} {h : Header} {c : Cut}
    (hc : Parts d ts h c) (hident : ∀ t ∈ c.head.head?, t.kind = .ident) :
    ∃ core mark trail, skipNewlines ts = core ++ mark :: trail ∧
      HeaderEnd.ofKind? mark.kind = some h.ending ∧ (∀ t ∈ trail, t.kind = .newline) ∧
      ∀ lead trail', (∀ t ∈ lead, t.kind = .newline) →
        ∃ c', Front d (lead ++ (core ++ mark :: trail')) h c' ∧
          skipNewlines c'.last = mark :: trail' := by
  obtain ⟨mark, trail, hskip, hmark, htrail⟩ := readHeaderEnd_eq_ok_iff.mp (hc.ending default)
  obtain ⟨gap, hgap, hnewlines⟩ := exists_append_skipNewlines c.last
  rw [hskip] at hgap
  -- the readers from the last to the first, each with what it takes
  obtain ⟨type, hbehind, htype⟩ := hc.returnType_local hgap
  obtain ⟨params, hinside, -, hparams⟩ := ParamScan.run_local (hc.params default)
  obtain ⟨mods, hhead, -, -, hmodifiers⟩ := readModifiers_local hc.modifiers
  rw [hbehind] at hinside
  rw [hinside] at hhead
  obtain ⟨decs, hdecs, hdecorators⟩ := hc.decorators_local hident
  have hfront : ∀ trail', SameFront c.head
      (mods ++ c.keyword :: c.name :: c.paren :: (params ++ (type ++ (gap ++ mark :: trail')))) := by
    intro trail'
    have := sameFront_of_two (mods ++ [c.keyword, c.name]) (by simp)
      (c.paren :: (params ++ (type ++ (gap ++ mark :: trail))))
      (c.paren :: (params ++ (type ++ (gap ++ mark :: trail'))))
    rw [hhead]
    simpa using this
  refine ⟨decs ++ (mods ++ c.keyword :: c.name :: c.paren :: (params ++ (type ++ gap))), mark, trail,
    by rw [hdecs, hhead]; simp, hmark, htrail, fun lead trail' hlead => ?_⟩
  have hskip' : skipNewlines (lead ++ (decs ++ (mods ++ c.keyword :: c.name :: c.paren ::
      (params ++ (type ++ gap))) ++ mark :: trail')) = decs ++ (mods ++ c.keyword :: c.name ::
      c.paren :: (params ++ (type ++ (gap ++ mark :: trail')))) := by
    rw [skipNewlines_append hlead]
    simp only [List.append_assoc, List.cons_append]
    refine skipNewlines_eq_self fun t ht => head?_skipNewlines ts ?_
    rwa [hdecs, ((hfront trail').append decs).head?]
  refine ⟨⟨mods ++ c.keyword :: c.name :: c.paren :: (params ++ (type ++ (gap ++ mark :: trail'))),
    c.keyword, c.name, c.paren, params ++ (type ++ (gap ++ mark :: trail')),
    type ++ (gap ++ mark :: trail'), gap ++ mark :: trail'⟩,
    ⟨?_, hmodifiers _, hc.keyword, hc.name, hc.paren, fun stop => hparams stop _, htype trail',
      fun t ht => ?_⟩, ?_⟩
  · rw [hskip', hdecorators _ (hfront trail')]
  · rw [← (hfront trail').head?] at ht
    exact hc.lead t ht
  · rw [skipNewlines_append hnewlines]
    refine skipNewlines_cons_of_ne (head?_skipNewlines c.last ?_) trail'
    rw [hskip]
    rfl

/-- The tokens tell where the return type ends. -/
theorem Front.last_eq {d : Dialect} {ts : List Token} {h h' : Header} {c c' : Cut}
    (hc : Front d ts h c) (hc' : Front d ts h' c') : c.last = c'.last := by
  have hhead := (Prod.mk.inj (hc.decorators.symm.trans hc'.decorators)).2
  have hmods := hc.modifiers
  rw [hhead] at hmods
  have hinside := (Prod.mk.inj (hmods.symm.trans hc'.modifiers)).2
  simp only [List.cons.injEq] at hinside
  have hparams := hc.params default
  rw [hinside.2.2.2] at hparams
  have hbehind := (Prod.mk.inj (hparams.symm.trans (hc'.params default))).2
  have htype := hc.returnType
  rw [hbehind] at htype
  exact (Prod.mk.inj (Except.ok.inj (htype.symm.trans hc'.returnType))).2

/-- **A header is local.** It reaches from its first token to its mark. Another list with these
tokens, behind any line ends, is a header exactly if only line ends stand behind the mark, and then
it is the same header. -/
theorem read_local {d : Dialect} {ts : List Token} {h : Header} (hread : read d ts = .ok h)
    (hplain : ∀ t ∈ ts, d.modifiers.contains t.text = true → t.kind = .ident) :
    ∃ core mark trail, skipNewlines ts = core ++ mark :: trail ∧
      HeaderEnd.ofKind? mark.kind = some h.ending ∧ (∀ t ∈ trail, t.kind = .newline) ∧
      ∀ lead trail' h', (∀ t ∈ lead, t.kind = .newline) →
        (read d (lead ++ (core ++ mark :: trail')) = .ok h' ↔
          h' = h ∧ ∀ t ∈ trail', t.kind = .newline) := by
  obtain ⟨c, hc⟩ := read_eq_ok_iff.mp hread
  obtain ⟨core, mark, trail, hts, hmark, htrail, hlocal⟩ :=
    hc.front_local (hc.kind_head hplain)
  refine ⟨core, mark, trail, hts, hmark, htrail, fun lead trail' h' hlead => ?_⟩
  obtain ⟨c', hc', hlast⟩ := hlocal lead trail' hlead
  have hread' : (∀ t ∈ trail', t.kind = .newline) →
      read d (lead ++ (core ++ mark :: trail')) = .ok h := fun htrail' =>
    read_eq_ok_iff.mpr ⟨c', hc', fun _ =>
      readHeaderEnd_eq_ok_iff.mpr ⟨mark, trail', hlast, hmark, htrail'⟩⟩
  constructor
  · intro h₁
    obtain ⟨c₁, hc₁⟩ := read_eq_ok_iff.mp h₁
    obtain ⟨mark', trail₁, hlast₁, -, htrail₁⟩ := readHeaderEnd_eq_ok_iff.mp (hc₁.ending default)
    rw [hc₁.last_eq hc', hlast] at hlast₁
    obtain ⟨-, rfl⟩ := List.cons.inj hlast₁
    exact ⟨Except.ok.inj (h₁.symm.trans (hread' htrail₁)), htrail₁⟩
  · rintro ⟨rfl, htrail'⟩
    exact hread' htrail'

end Header

end FuncDecl
