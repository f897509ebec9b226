import FuncDecl.Proofs.Declaration.Reading

/-!
# Return types

A type behind an arrow goes on to a brace, a semicolon or a line end outside its angle brackets.
Which tokens it has can be said by the depth of angle brackets alone.

* `angleDepth`: how many more angle brackets the tokens open than they close.
* `ClosesAngles depth ts`: the depth is never negative, it is zero at the end, and where a token
  stands that would end the type it is positive.
* `IsReturnType`, `IsReturn`: the tokens of a type, and of an arrow with a type or of neither.
* `TypeScan.exists_run_append` and `TypeScan.exists_type_of_run`: the scan of a type takes exactly
  such tokens.
* `exists_readReturnType_iff`: **what may stand between the parameters and the end of a header**.
-/

namespace FuncDecl

/-! ## Angle brackets -/

/-- How many more angle brackets the tokens open than they close. -/
def angleDepth : List Token → Int
  | [] => 0
  | t :: ts => t.angle + angleDepth ts

/-- No tokens open no bracket. -/
@[simp] theorem angleDepth_nil : angleDepth [] = 0 := rfl

/-- The first token counts, and then the others. -/
@[simp] theorem angleDepth_cons (t : Token) (ts : List Token) :
    angleDepth (t :: ts) = t.angle + angleDepth ts := rfl

/-- The last token counts behind the others. -/
theorem angleDepth_concat (ts : List Token) (t : Token) :
    angleDepth (ts ++ [t]) = angleDepth ts + t.angle := by
  induction ts with
  | nil => simp
  | cons u ts ih => rw [List.cons_append, angleDepth_cons, angleDepth_cons, ih, Int.add_assoc]

/-- The tokens go on with a type inside of `depth` angle brackets and close them all. -/
structure ClosesAngles (depth : Int) (ts : List Token) : Prop where
  /-- No bracket is closed that is not open. -/
  nonneg : ∀ front, front <+: ts → 0 ≤ depth + angleDepth front
  /-- What would end the type stands inside angle brackets. -/
  inside : ∀ front t, front ++ [t] <+: ts → t.kind.endsType = true → 0 < depth + angleDepth front
  closed : depth + angleDepth ts = 0

/-- No tokens close no bracket. -/
theorem closesAngles_nil_iff {depth : Int} : ClosesAngles depth [] ↔ depth = 0 := by
  constructor
  · intro h
    simpa using h.closed
  · rintro rfl
    refine ⟨fun front hfront => ?_, fun front t hfront => ?_, rfl⟩
    · rw [List.prefix_nil.mp hfront]
      exact Int.le_refl 0
    · simp at hfront

/-- The depth in front of the first token is not negative, and positive if the token would end the
type; the others go on from the depth behind it. -/
theorem closesAngles_cons_iff {depth : Int} {t : Token} {ts : List Token} :
    ClosesAngles depth (t :: ts) ↔
      0 ≤ depth ∧ (t.kind.endsType = true → 0 < depth) ∧ ClosesAngles (depth + t.angle) ts := by
  constructor
  · intro h
    refine ⟨by simpa using h.nonneg [] List.nil_prefix, fun hends => ?_, ?_, ?_, ?_⟩
    · simpa using h.inside [] t (by simp) hends
    · intro front hfront
      have := h.nonneg (t :: front) ((List.prefix_cons_inj t).mpr hfront)
      rwa [angleDepth_cons, ← Int.add_assoc] at this
    · intro front u hfront hends
      have := h.inside (t :: front) u ((List.prefix_cons_inj t).mpr hfront) hends
      rwa [angleDepth_cons, ← Int.add_assoc] at this
    · have := h.closed
      rwa [angleDepth_cons, ← Int.add_assoc] at this
  · rintro ⟨hnonneg, hends, h⟩
    refine ⟨?_, ?_, ?_⟩
    · intro front hfront
      rcases List.prefix_cons_iff.mp hfront with rfl | ⟨front, rfl, htail⟩
      · simpa using hnonneg
      · rw [angleDepth_cons, ← Int.add_assoc]
        exact h.nonneg front htail
    · intro front u hfront hu
      cases front with
      | nil =>
        obtain ⟨rfl, -⟩ := List.cons_prefix_cons.mp hfront
        simpa using hends hu
      | cons v front =>
        obtain ⟨rfl, htail⟩ := List.cons_prefix_cons.mp hfront
        rw [angleDepth_cons, ← Int.add_assoc]
        exact h.inside front u htail hu
    · rw [angleDepth_cons, ← Int.add_assoc]
      exact h.closed

/-! ## Types -/

/-- Some token other than a line end has a text. -/
def HasText (ts : List Token) : Prop :=
  ∃ t ∈ ts, t.kind ≠ .newline ∧ t.text ≠ ""

/-- A text is in the first token or in the others. -/
theorem hasText_cons_iff {t : Token} {ts : List Token} :
    HasText (t :: ts) ↔ (t.kind ≠ .newline ∧ t.text ≠ "") ∨ HasText ts := by
  simp [HasText]

/-- The tokens are a type: angle brackets pair and there is a text. -/
structure IsReturnType (ts : List Token) : Prop where
  angles : ClosesAngles 0 ts
  text : HasText ts

/-- The tokens are an arrow with a type behind it, or there are none. -/
def IsReturn (ts : List Token) : Prop :=
  ts = [] ∨ ∃ arrow type, ts = arrow :: type ∧ arrow.kind = .arrow ∧ IsReturnType type

/-- Nothing is put together only from nothing. -/
theorem Text.attach_eq_empty_iff {style : CommaStyle} {written text : String} :
    attach style written text = "" ↔ written = "" ∧ text = "" := by
  unfold attach
  split
  · next hspace =>
    -- a space goes between two words, so what is written is not empty
    refine ⟨fun h => by simp at h, ?_⟩
    rintro ⟨rfl, rfl⟩
    simp [wantsSpace] at hspace
  · exact String.append_eq_empty_iff

namespace TypeScan

variable {arrow : Span} {s : TypeScan} {t : Token} {rest : List Token}

/-- The scan counts the brackets as long as it closes none too many. -/
theorem take_angles (h : 0 ≤ s.angles + t.angle) : ((s.take t).angles : Int) = s.angles + t.angle := by
  unfold take
  split
  · next hk =>
    have : t.angle = 0 := by rw [Token.angle, hk]
    omega
  · exact Int.toNat_of_nonneg h

/-- The scan has a text if it had one or takes one in. -/
theorem take_text_iff :
    (s.take t).text ≠ "" ↔ s.text ≠ "" ∨ t.kind ≠ .newline ∧ t.text ≠ "" := by
  unfold take
  split
  · next hk => simp [hk]
  · next hk =>
    show Text.attach .tight s.text t.text ≠ "" ↔ _
    rw [Ne, Text.attach_eq_empty_iff]
    simp only [hk, ne_eq, not_false_eq_true, true_and]
    exact Decidable.not_and_iff_or_not

/-- Where nothing more belongs to the type, the scan finishes. -/
theorem run_of_ends (h : s.angles = 0) (hrest : ∀ t ∈ rest.head?, t.kind.endsType = true) :
    run arrow s rest = (s.finish arrow).map (·, rest) := by
  cases rest with
  | nil => rw [run]
  | cons t rest => rw [run, if_pos ⟨h, hrest t rfl⟩]

/-- A type is read to its end. -/
theorem exists_run_append (arrow : Span) {type : List Token} (h : ClosesAngles s.angles type)
    (htext : s.text ≠ "" ∨ HasText type) (hrest : ∀ t ∈ rest.head?, t.kind.endsType = true) :
    ∃ text, run arrow s (type ++ rest) = .ok (text, rest) := by
  induction type generalizing s with
  | nil =>
    have hangles : s.angles = 0 := by
      have := closesAngles_nil_iff.mp h
      omega
    have hfinish : s.finish arrow = .ok s.text :=
      finish_eq_ok_iff.mpr ⟨hangles, htext.resolve_right (by simp [HasText]), rfl⟩
    exact ⟨s.text, by rw [List.nil_append, run_of_ends hangles hrest, hfinish]; rfl⟩
  | cons t type ih =>
    obtain ⟨-, hends, h⟩ := closesAngles_cons_iff.mp h
    have hnonneg : 0 ≤ s.angles + t.angle := by simpa using h.nonneg [] List.nil_prefix
    rw [List.cons_append, run_cons (fun hend => by have := hends hend.2; omega) hnonneg]
    refine ih (by rwa [take_angles hnonneg]) ?_
    rw [take_text_iff, or_assoc]
    exact htext.imp_right hasText_cons_iff.mp

/-- Where the scan finishes, it has all of the type. -/
theorem exists_type_of_finish {ts : List Token} {text : String}
    (h : (s.finish arrow).map (·, ts) = .ok (text, rest)) :
    text ≠ "" ∧
      ∃ type, ts = type ++ rest ∧ ClosesAngles s.angles type ∧ (s.text ≠ "" ∨ HasText type) := by
  obtain ⟨_, hfinish, hpair⟩ := Except.map_eq_ok_iff.mp h
  obtain ⟨rfl, rfl⟩ := Prod.mk.inj hpair
  obtain ⟨hangles, htext, rfl⟩ := finish_eq_ok_iff.mp hfinish
  exact ⟨htext, [], rfl, closesAngles_nil_iff.mpr (by omega), .inl htext⟩

/-- What is read is a type. -/
theorem exists_type_of_run {ts : List Token} {text : String}
    (h : run arrow s ts = .ok (text, rest)) :
    text ≠ "" ∧
      ∃ type, ts = type ++ rest ∧ ClosesAngles s.angles type ∧ (s.text ≠ "" ∨ HasText type) := by
  induction ts generalizing s with
  | nil => exact exists_type_of_finish h
  | cons t ts ih =>
    by_cases hends : s.angles = 0 ∧ t.kind.endsType = true
    · rw [run, if_pos hends] at h
      exact exists_type_of_finish h
    · have hnonneg := nonneg_of_run h
      rw [run_cons hends hnonneg] at h
      obtain ⟨hne, type, rfl, hangles, htext⟩ := ih h
      rw [take_angles hnonneg] at hangles
      rw [take_text_iff, or_assoc] at htext
      refine ⟨hne, t :: type, rfl, closesAngles_cons_iff.mpr ⟨by omega, fun hend => ?_, hangles⟩,
        htext.imp_right hasText_cons_iff.mpr⟩
      have : s.angles ≠ 0 := fun hzero => hends ⟨hzero, hend⟩
      omega

end TypeScan

/-- An arrow with its type, or nothing, is read in front of what ends a type, and nothing else is. -/
theorem exists_readReturnType_iff {ts rest : List Token}
    (hrest : ∀ t ∈ rest.head?, t.kind.endsType = true) :
    (∃ found, readReturnType ts = .ok (found, rest)) ↔
      ∃ returns, ts = returns ++ rest ∧ IsReturn returns := by
  constructor
  · rintro ⟨found, h⟩
    cases ts with
    | nil =>
      obtain ⟨-, rfl⟩ := Prod.mk.inj (Except.ok.inj h)
      exact ⟨[], rfl, .inl rfl⟩
    | cons arrow ts =>
      rw [readReturnType] at h
      split at h
      · next harrow =>
        obtain ⟨⟨text, rest'⟩, hrun, hpair⟩ := Except.map_eq_ok_iff.mp h
        obtain ⟨-, rfl⟩ := Prod.mk.inj hpair
        obtain ⟨-, type, rfl, hangles, htext⟩ := TypeScan.exists_type_of_run hrun
        exact ⟨arrow :: type, rfl,
          .inr ⟨arrow, type, rfl, harrow, hangles, htext.resolve_left (by simp)⟩⟩
      · obtain ⟨-, rfl⟩ := Prod.mk.inj (Except.ok.inj h)
        exact ⟨[], rfl, .inl rfl⟩
  · rintro ⟨returns, rfl, rfl | ⟨arrow, type, rfl, harrow, htype⟩⟩
    · refine ⟨none, ?_⟩
      cases rest with
      | nil => rfl
      | cons t rest =>
        have harrow : t.kind ≠ .arrow := fun hk => by
          have := hrest t rfl
          rw [hk] at this
          cases this
        rw [List.nil_append, readReturnType, if_neg harrow]
    · have hangles : ClosesAngles ((⟨"", 0, arrow.span⟩ : TypeScan).angles) type := htype.angles
      obtain ⟨text, hrun⟩ :=
        TypeScan.exists_run_append arrow.span hangles (.inr htype.text) hrest
      exact ⟨some text, by rw [List.cons_append, readReturnType, if_pos harrow, hrun]; rfl⟩

end FuncDecl
