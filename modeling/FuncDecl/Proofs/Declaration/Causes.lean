import FuncDecl.Proofs.Declaration.Compiling

/-!
# Causes that tell of an earlier function

A declaration may be refused for what its tokens are, or because the scope has a function of its
name already. Only then does the cause tell of an earlier declaration.

* `Cause.isDuplicate`: the cause is about a function that was registered earlier.
* `SelfContained x`: a fault of what is read is not such a cause. It holds of every reader of a part
  of a header, and so of the header (`Header.selfContained_read`).
* `Header.exists_of_objection_duplicate`: of the objections to a header only the last one is about
  an earlier function.
* `Compiler.exists_of_judge_duplicate`: **such a cause tells of the signature that is registered
  under the name**.
-/

namespace FuncDecl

/-- Whether the cause is about a function that was registered earlier. -/
def Cause.isDuplicate : Cause → Bool
  | duplicateFunction _ _ => true
  | _ => false

/-- What is read of some tokens alone: a fault is not about an earlier function. -/
def SelfContained {α : Type} : Except Fault α → Prop
  | .ok _ => True
  | .error fault => fault.cause.isDuplicate = false

namespace SelfContained

variable {α β : Type} {x : Except Fault α}

/-- Two readers in a row give no such cause if neither does. -/
theorem bind {f : α → Except Fault β} (h : SelfContained x) (hf : ∀ a, SelfContained (f a)) :
    SelfContained (x >>= f) := by
  cases x with
  | error fault => exact h
  | ok a => exact hf a

/-- Changing what is read leaves the fault. -/
theorem map (h : SelfContained x) (f : α → β) : SelfContained (x.map f) := by
  cases x with
  | error fault => exact h
  | ok a => trivial

end SelfContained

/-! ## Parameters -/

/-- A parameter is refused for its own words. -/
theorem Draft.isDuplicate_info {d : Draft} {cause : Cause} (h : d.info = .error cause) :
    cause.isDuplicate = false := by
  unfold Draft.info at h
  split at h
  · split at h
    · cases h
    · rw [← Except.error.inj h]
      rfl
  · split at h
    · rw [← Except.error.inj h]
      rfl
    · split at h
      · rw [← Except.error.inj h]
        rfl
      · cases h

/-- A parameter that is entered is refused for its own words, or for a name that the list has
already. -/
theorem Draft.selfContained_commit (d : Draft) (table : ParamTable) (ending : Span) :
    SelfContained (d.commit table ending) := by
  unfold Draft.commit
  split
  · trivial
  · dsimp only
    split
    · rfl
    · split
      · next cause hcause => exact isDuplicate_info hcause
      · split
        · rfl
        · trivial

namespace ParamScan

/-- Behind the type of a parameter the scan ends with no such cause. -/
theorem selfContained_stepTyped {s : ParamScan} {t : Token} {result : Except Fault ParamTable}
    (h : s.stepTyped t = .done result) : SelfContained result := by
  unfold stepTyped at h
  split at h
  · cases h
  · split at h
    · rw [← Outcome.done.inj h]
      rfl
    · cases h
  · split at h
    · cases h
    · cases h
  · split at h
    · cases h
    · cases h
  · cases h

/-- No step of the scan of parameters ends with such a cause. By cases on where the scan is. -/
theorem selfContained_step {s : ParamScan} {t : Token} {result : Except Fault ParamTable}
    (h : s.step t = .done result) : SelfContained result := by
  have hcommit := s.draft.selfContained_commit s.table t.span
  unfold step at h
  split at h
  · cases h
  · split at h
    · split at h
      · cases h
      · next fault hfault =>
        rw [hfault] at hcommit
        rw [← Outcome.done.inj h]
        exact hcommit
    · split at h
      · split at h
        · rw [← Outcome.done.inj h]
          exact hcommit
        · rw [← Outcome.done.inj h]
          rfl
      · split at h
        · cases h
        · exact selfContained_stepTyped h

/-- The scan of parameters never ends with such a cause. By induction on the tokens. -/
theorem selfContained_run (stop : Span) (s : ParamScan) (ts : List Token) :
    SelfContained (run stop s ts).1 := by
  induction ts generalizing s with
  | nil => rfl
  | cons t ts ih =>
    rw [run]
    split
    · next s' _ => exact ih s'
    · next result hdone => exact selfContained_step hdone

end ParamScan

/-! ## Headers -/

/-- A return type is refused for its own words. -/
theorem TypeScan.selfContained_finish (arrow : Span) (s : TypeScan) :
    SelfContained (s.finish arrow) := by
  unfold finish
  split
  · rfl
  · split
    · rfl
    · trivial

/-- The scan of a return type ends with no such cause. By induction on the tokens. -/
theorem TypeScan.selfContained_run (arrow : Span) (s : TypeScan) (ts : List Token) :
    SelfContained (run arrow s ts) := by
  induction ts generalizing s with
  | nil => exact (s.selfContained_finish arrow).map _
  | cons t ts ih =>
    rw [run]
    split
    · exact (s.selfContained_finish arrow).map _
    · split
      · exact ih _
      · exact ih _
      · split
        · rfl
        · exact ih _
      · exact ih _

section Readers

variable (stop : Span) (ts : List Token)

/-- A missing keyword is no such cause. -/
theorem selfContained_readKeyword (d : Dialect) : SelfContained (readKeyword d stop ts) := by
  unfold readKeyword
  split
  · rfl
  · split
    · trivial
    · rfl

/-- A missing name is no such cause. -/
theorem selfContained_readName : SelfContained (readName stop ts) := by
  unfold readName
  split
  · rfl
  · split
    · trivial
    · rfl

/-- A list of parameters gives no such cause, from `ParamScan.selfContained_run`. -/
theorem selfContained_readParamList : SelfContained (readParamList stop ts) := by
  unfold readParamList
  split
  · rfl
  · next t ts =>
    have hrun := ParamScan.selfContained_run stop {} ts
    split
    · split
      · trivial
      · next fault rest hparams =>
        rw [readParams] at hparams
        rw [hparams] at hrun
        exact hrun
    · rfl

/-- A return type gives no such cause, from `TypeScan.selfContained_run`. -/
theorem selfContained_readReturnType : SelfContained (readReturnType ts) := by
  unfold readReturnType
  split
  · trivial
  · split
    · exact (TypeScan.selfContained_run _ _ _).map _
    · trivial

/-- A missing end is no such cause. -/
theorem selfContained_readHeaderEnd : SelfContained (readHeaderEnd stop ts) := by
  unfold readHeaderEnd
  split
  · rfl
  · split
    · rfl
    · split
      · trivial
      · rfl

end Readers

/-- Tokens that are no header are refused for what they are. -/
theorem Header.selfContained_read (d : Dialect) (ts : List Token) : SelfContained (read d ts) := by
  unfold read
  dsimp only
  refine (selfContained_readKeyword _ _ d).bind fun _ => ?_
  refine (selfContained_readName _ _).bind fun _ => ?_
  refine (selfContained_readParamList _ _).bind fun _ => ?_
  refine (selfContained_readReturnType _).bind fun _ => ?_
  refine (selfContained_readHeaderEnd _ _).bind fun _ => ?_
  trivial

/-! ## Declarations -/

/-- Of the objections to a header only the last one is about an earlier function. -/
theorem Header.exists_of_objection_duplicate {h : Header} {k : Keywords} {parent : Scope}
    {name : String} {previous span : Span}
    (hobjection : h.objection? k parent = some ⟨.duplicateFunction name previous, span⟩) :
    ∃ signature, parent.functions.find? h.name.text = some signature ∧ name = h.name.text ∧
      previous = signature.span ∧ span = h.name.span := by
  have hduplicate : h.duplicate? parent = some ⟨.duplicateFunction name previous, span⟩ := by
    obtain ⟨x, hx, rfl⟩ := List.exists_of_findSome?_eq_some hobjection
    simp only [List.mem_cons, List.not_mem_nil, or_false] at hx
    rcases hx with hx | hx | hx | hx | hx | hx
    all_goals grind [operatorOutsideClass?, staticOutsideClass?, privateStatic?, asyncUnchecked?,
      bodilessGlobal?]
  unfold duplicate? at hduplicate
  split at hduplicate
  · next signature hfind =>
    split at hduplicate
    · cases hduplicate
    · obtain ⟨hcause, hspan⟩ := Fault.mk.inj (Option.some.inj hduplicate)
      obtain ⟨hname, hprevious⟩ := Cause.duplicateFunction.inj hcause
      exact ⟨signature, hfind, hname.symm, hprevious.symm, hspan.symm⟩
  · cases hduplicate

/-- A declaration that is refused because of an earlier function is a header, and the fault tells of
the function that is registered under its name. -/
theorem Compiler.exists_of_judge_duplicate {c : Compiler} {ts : List Token} {tree : Scope.Tree}
    {parent : Scope} {name : String} {previous span : Span}
    (h : c.judge ts tree parent = .error ⟨.duplicateFunction name previous, span⟩) :
    ∃ header signature, Header.read c.dialect ts = .ok header ∧
      parent.functions.find? header.name.text = some signature ∧ name = header.name.text ∧
      previous = signature.span ∧ span = header.name.span := by
  have hread := Header.selfContained_read c.dialect ts
  unfold judge at h
  split at h
  · next fault hfault =>
    rw [hfault, Except.error.inj h] at hread
    exact absurd hread Bool.noConfusion
  · next header hheader =>
    split at h
    · next fault hobjection =>
      rw [Except.error.inj h] at hobjection
      obtain ⟨signature, hfound⟩ := Header.exists_of_objection_duplicate hobjection
      exact ⟨header, signature, hheader, hfound⟩
    · cases h

end FuncDecl
