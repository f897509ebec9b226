import FuncDecl.Proofs.Declaration.Segments

/-!
# Angle brackets that do not pair

A bracket `>` that closes nothing ends the scan of parameters where it stands, and no other `>`
does. Brackets that are not closed are found at a parenthesis instead.

* `ParamScan.run_append_of_after?`: what the scan has come to at a place is a matter of the tokens
  in front of it.
* `ParamScan.run_greater_iff`: a bracket ends the scan exactly if it stands in front of a default
  value and closes nothing.
* `ParamScan.exists_run_of_unclosed`: a scan that stays inside of angle brackets fails at the first
  parenthesis.
* `readParams_insert_greater`: **one bracket too many is found where it stands**. It tells for every
  place of a list whether one `>` more is one too many there.
-/

namespace FuncDecl

namespace ParamScan

variable {s s' : ParamScan} {t : Token} {ts us : List Token}

/-! ## One list behind another -/

/-- The scan goes over two lists one after the other. -/
theorem after?_append (s : ParamScan) (ts us : List Token) :
    s.after? (ts ++ us) = (s.after? ts).bind (·.after? us) := by
  induction ts generalizing s with
  | nil => rfl
  | cons t ts ih =>
    rw [List.cons_append, after?, after?]
    cases s.step t with
    | more s' => exact ih s'
    | done result => rfl

/-- Behind some tokens the scan goes on from where it has come to. -/
theorem run_append_of_after? (h : s.after? ts = some s') (stop : Span) (us : List Token) :
    run stop s (ts ++ us) = run stop s' us := by
  induction ts generalizing s with
  | nil =>
    obtain rfl := Option.some.inj h
    rfl
  | cons t ts ih =>
    obtain ⟨s₁, hstep, hafter⟩ := exists_more_of_after? h
    rw [List.cons_append, run_of_more hstep, ih hafter]

/-- A scan takes at least one token. -/
theorem length_run_lt (stop : Span) (s : ParamScan) (hne : ts ≠ []) :
    (run stop s ts).2.length < ts.length := by
  induction ts generalizing s with
  | nil => exact absurd rfl hne
  | cons t ts ih =>
    rw [run]
    cases s.step t with
    | done result => exact Nat.lt_succ_self ts.length
    | more s' =>
      cases ts with
      | nil => exact Nat.zero_lt_one
      | cons u us => exact Nat.lt_succ_of_lt (ih s' (List.cons_ne_nil u us))

/-! ## A bracket too many -/

/-- A closing bracket is part of a default value, or closes a bracket, or is one too many. -/
theorem step_of_greater (s : ParamScan) (h : t.kind = .greater) :
    s.step t =
      if s.draft.default.isSome then .more (s.stepDefault t)
      else if s.angles = 0 then .done (.error ⟨.unbalancedGenerics, t.span⟩)
      else .more { s.push t with angles := s.angles - 1 } := by
  rw [step, if_neg (by simp [h]), if_neg (by simp [h]), if_neg (by simp [h]), stepTyped]
  simp only [h]

/-- A bracket ends the scan exactly if it stands in front of a default value and closes nothing. -/
theorem run_greater_iff (h : t.kind = .greater) (hne : ts ≠ []) (stop : Span) :
    run stop s (t :: ts) = (.error ⟨.unbalancedGenerics, t.span⟩, ts) ↔
      s.draft.default = none ∧ s.angles = 0 := by
  -- where the scan goes on, it takes more than the bracket
  have hmore : ∀ s', s.step t = .more s' →
      run stop s (t :: ts) ≠ (.error ⟨.unbalancedGenerics, t.span⟩, ts) := by
    intro s' hstep hrun
    rw [run_of_more hstep] at hrun
    have hlt := length_run_lt stop s' hne
    rw [hrun] at hlt
    exact Nat.lt_irrefl _ hlt
  have hstep := s.step_of_greater h
  constructor
  · intro hrun
    split at hstep
    · exact absurd hrun (hmore _ hstep)
    · next hdefault =>
      split at hstep
      · next hangles => exact ⟨by simpa using hdefault, hangles⟩
      · exact absurd hrun (hmore _ hstep)
  · rintro ⟨hdefault, hangles⟩
    rw [if_neg (by simp [hdefault]), if_pos hangles] at hstep
    rw [run, hstep]

/-! ## A bracket too few -/

/-- In front of a default value the scan ends only outside of brackets. -/
theorem angles_of_stepTyped {result : Except Fault ParamTable} (h : s.stepTyped t = .done result) :
    s.angles = 0 := by
  rw [stepTyped] at h
  split at h
  · cases h
  · split at h
    · next hangles => exact hangles
    · cases h
  · split at h <;> cases h
  · split at h <;> cases h
  · cases h

/-- Inside of angle brackets the scan goes on with every token that is no parenthesis. -/
theorem step_of_unclosed (hdefault : s.draft.default = none) (hangles : 0 < s.angles)
    (hclose : t.kind ≠ .closeParen) :
    ∃ s', s.step t = .more s' ∧ s'.draft.default = none ∧ s'.groups = s.groups ∧
      (s'.angles : Int) = s.angles + t.angle := by
  by_cases hline : t.kind = .newline
  · exact ⟨s, by rw [step, if_pos hline], hdefault, rfl, by simp [Token.angle, hline]⟩
  · rw [step_eq_stepTyped hline (fun _ => Nat.pos_iff_ne_zero.mp hangles) hclose hdefault]
    have hpush : ((s.draft.heed t).push t).default = none := by
      rw [Draft.push]
      simp only [Draft.heed]
      split <;> simp_all
    cases hstep : s.stepTyped t with
    | more s' =>
      refine ⟨s', rfl, ?_⟩
      rcases stepTyped_eq_more_cases hstep with
        ⟨-, hzero, -⟩ | ⟨hkind, -, rfl⟩ | ⟨-, -, angles, hsum, rfl⟩
      · exact absurd hzero (Nat.pos_iff_ne_zero.mp hangles)
      · exact ⟨hdefault, rfl, by simp [Token.angle, hkind]⟩
      · exact ⟨hpush, rfl, hsum⟩
    | done result => exact absurd (angles_of_stepTyped hstep) (Nat.pos_iff_ne_zero.mp hangles)

/-- A scan that stays inside of angle brackets fails at the first parenthesis. -/
theorem exists_run_of_unclosed (hdefault : s.draft.default = none) (hgroups : s.groups = 0)
    (hopen : ∀ front, front <+: ts → 0 < (s.angles : Int) + angleDepth front)
    (hclose : ∃ t ∈ ts, t.kind = .closeParen) (stop : Span) :
    ∃ span, (run stop s ts).1 = .error ⟨.unbalancedGenerics, span⟩ := by
  induction ts generalizing s with
  | nil => simp at hclose
  | cons t ts ih =>
    have hangles : 0 < s.angles := by simpa using hopen [] List.nil_prefix
    by_cases hkind : t.kind = .closeParen
    · refine ⟨t.span, ?_⟩
      have hstep : s.step t = .done (.error ⟨.unbalancedGenerics, t.span⟩) := by
        rw [step, if_neg (by simp [hkind]), if_neg (by simp [hkind]), if_pos ⟨hkind, hgroups⟩,
          if_neg (Nat.pos_iff_ne_zero.mp hangles)]
      rw [run, hstep]
    · obtain ⟨s', hstep, hdefault', hgroups', hsum⟩ := step_of_unclosed hdefault hangles hkind
      rw [run_of_more hstep]
      refine ih hdefault' (hgroups'.trans hgroups) (fun front hfront => ?_)
        (by simpa [hkind] using hclose)
      have hopen' := hopen (t :: front) ((List.prefix_cons_inj t).mpr hfront)
      rwa [angleDepth_cons, ← Int.add_assoc, ← hsum] at hopen'

end ParamScan

/-- **One bracket too many is found where it stands.** At every place of a list that is read, up to
its closing parenthesis, the scan goes on and follows the segment that the place is in. A further `>`
at the place ends the reading right behind it, with a fault at its own place, if and only if the scan
is in no default value and inside of no angle brackets there.
Source: `extract`, and `close` of `GenericDepth`. -/
theorem readParams_insert_greater {stop stop' : Span} {before behind rest : List Token}
    {table : ParamTable} {extra : Token}
    (h : readParams stop (before ++ behind) = (.ok table, rest))
    (hplace : rest.length < behind.length) (hextra : extra.kind = .greater) :
    ∃ s : ParamScan, ParamScan.after? {} before = some s ∧
      (∃ cuts current, Begins (before.filter fun t => !t.isNewline) cuts current ∧
        s.Tracks current) ∧
      (readParams stop' (before ++ extra :: behind) =
          (.error ⟨.unbalancedGenerics, extra.span⟩, behind) ↔
        s.draft.default = none ∧ s.angles = 0) := by
  obtain ⟨inner, close, s', hts, hafter, -⟩ := ParamScan.exists_after?_of_run h
  -- the place is in front of the parenthesis, so the scan comes to it
  obtain ⟨mid, rfl⟩ : before <+: inner := by
    refine List.prefix_of_prefix_length_le ⟨behind, hts⟩ (List.prefix_append inner _) ?_
    have hlength := congrArg List.length hts
    simp only [List.length_append, List.length_cons] at hlength
    omega
  rw [ParamScan.after?_append, Option.bind_eq_some_iff] at hafter
  obtain ⟨s, hbefore, -⟩ := hafter
  obtain ⟨cuts, current, hbegins, htracks, -⟩ :=
    (ParamScan.tracks_empty rfl ⟨rfl, rfl⟩).exists_begins hbefore Segment.enclosed_empty
  have hbehind : behind ≠ [] := List.ne_nil_of_length_pos (Nat.zero_lt_of_lt hplace)
  refine ⟨s, hbefore, ⟨cuts, current, hbegins, htracks⟩, ?_⟩
  rw [readParams, ParamScan.run_append_of_after? hbefore]
  exact ParamScan.run_greater_iff hextra hbehind stop'

/-- Behind a default value with a bracket in it, and in front of a type that a further one would
close. -/
theorem readParams_insert_greater_behind_comma :
    -- `a: N = x > y, b: Of<N>) -> N`, with a bracket in front of the `b`
    let before : List Token := [⟨.ident, "a", ⟨0, 1⟩⟩, ⟨.colon, ":", ⟨1, 2⟩⟩, ⟨.ident, "N", ⟨3, 4⟩⟩,
      ⟨.equals, "=", ⟨5, 6⟩⟩, ⟨.ident, "x", ⟨7, 8⟩⟩, ⟨.greater, ">", ⟨9, 10⟩⟩,
      ⟨.ident, "y", ⟨11, 12⟩⟩, ⟨.comma, ",", ⟨12, 13⟩⟩]
    let behind : List Token := [⟨.ident, "b", ⟨14, 15⟩⟩, ⟨.colon, ":", ⟨15, 16⟩⟩,
      ⟨.ident, "Of", ⟨17, 19⟩⟩, ⟨.less, "<", ⟨19, 20⟩⟩, ⟨.ident, "N", ⟨20, 21⟩⟩,
      ⟨.greater, ">", ⟨21, 22⟩⟩, ⟨.closeParen, ")", ⟨22, 23⟩⟩, ⟨.arrow, "->", ⟨24, 26⟩⟩,
      ⟨.ident, "N", ⟨27, 28⟩⟩]
    let extra : Token := ⟨.greater, ">", ⟨13, 14⟩⟩
    let table : ParamTable :=
      ⟨[("a", ⟨"N", false, some "x>y", true⟩), ("b", ⟨"Of<N>", true, none, true⟩)]⟩
    readParams ⟨28, 28⟩ (before ++ behind) = (.ok table, behind.drop 7) ∧
      (behind.drop 7).length < behind.length ∧ extra.kind = .greater ∧
      readParams ⟨28, 28⟩ (before ++ extra :: behind) =
        (.error ⟨.unbalancedGenerics, ⟨13, 14⟩⟩, behind) := by
  intro before behind extra table
  have hread : readParams ⟨28, 28⟩ (before ++ behind) = (.ok table, behind.drop 7) := by
    decide +kernel
  have hplace : (behind.drop 7).length < behind.length := by decide
  obtain ⟨s, hafter, -, hiff⟩ :=
    @readParams_insert_greater _ ⟨28, 28⟩ _ _ _ _ extra hread hplace rfl
  -- the scan has entered the first parameter and begins the second one
  have hs : ParamScan.after? {} before =
      some { table := ⟨[("a", ⟨"N", false, some "x>y", true⟩)]⟩ } := by
    decide +kernel
  obtain rfl := Option.some.inj (hafter.symm.trans hs)
  exact ⟨hread, hplace, rfl, hiff.mpr ⟨rfl, rfl⟩⟩

end FuncDecl
