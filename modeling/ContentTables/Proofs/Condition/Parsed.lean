import ContentTables.Condition.Parse
import ContentTables.Proofs.Condition.Meaning

/-!
# What the condition language lets through

* `Operand.accepted` : the operand has the shape that its operator takes, with scalars in it, and
  if it is a list it is not empty;
* `Condition.accepted_parse` : so is every operand of a condition that was read.
-/

namespace ContentTables

/-- A list of scalars that is not empty, a range of two scalars, or one scalar. -/
def Operand.accepted (operator : Operator) (operand : Operand) : Bool :=
  operand.wellShaped operator && !operand.values.isEmpty

/-- Every operand of the tree is accepted, at whatever depth. -/
def Condition.Accepted (c : Condition) : Prop :=
  Predicate.everyFieldOf Operand.accepted c.predicates = true

namespace Condition

/-- What the parser returns, if it returns, is such. -/
def Yields {ε α : Type} (P : α → Prop) (result : Except ε α) : Prop := ∀ a, result = .ok a → P a

section Yields
variable {ε α β : Type} {P : α → Prop} {Q : β → Prop}

theorem yields_ok {a : α} (h : P a) : Yields P (.ok a : Except ε α) := by
  rintro _ ⟨⟩
  exact h

theorem yields_error (e : ε) : Yields P (.error e : Except ε α) := nofun

theorem Yields.bind {result : Except ε α} {f : α → Except ε β} (h : Yields P result)
    (hf : ∀ a, P a → Yields Q (f a)) : Yields Q (result >>= f) := by
  cases result with
  | error e => exact nofun
  | ok a => exact hf a (h a rfl)

end Yields

/-! ## Comparisons -/

theorem accepted_parseList (column : String) {operator : Operator}
    (h : operator.takesList = true) (v : Json) :
    Yields (fun operand => operand.accepted operator = true) (parseList column v) := by
  cases v with
  | arr items =>
    cases items with
    | nil => exact yields_error _
    | cons v vs =>
      rw [parseList]
      split
      · rename_i hscalars
        refine yields_ok ?_
        rw [Operand.accepted, Operand.wellShaped, Operand.fits, Operand.values, h, hscalars]
        rfl
      · exact yields_error _
      · exact nofun
  | _ => exact yields_error _

theorem accepted_parseRange (column : String) (v : Json) :
    Yields (fun operand => operand.accepted .between = true) (parseRange column v) := by
  unfold parseRange
  split
  · rename_i low high
    split
    · rename_i hscalars
      refine yields_ok ?_
      simpa [Operand.accepted, Operand.wellShaped, Operand.fits, Operand.values] using hscalars
    · exact yields_error _
  · exact yields_error _

theorem accepted_parseScalar (column : String) {operator : Operator}
    (h : (!operator.takesList && operator != .between) = true) (v : Json) :
    Yields (fun operand => operand.accepted operator = true) (parseScalar column v) := by
  unfold parseScalar
  split
  · rename_i hscalar
    refine yields_ok ?_
    rw [Operand.accepted, Operand.wellShaped, Operand.fits, h]
    simpa [Operand.values] using hscalar
  · exact yields_error _

theorem accepted_parseOperand (column : String) (operator : Operator) (v : Json) :
    Yields (fun operand => operand.accepted operator = true) (parseOperand column operator v) := by
  cases operator with
  | isIn | notIn => exact accepted_parseList column rfl v
  | between => exact accepted_parseRange column v
  | _ => exact accepted_parseScalar column rfl v

/-- All operands of the predicates are accepted. -/
abbrev YieldsAccepted (result : Except ConditionFault (List Predicate)) : Prop :=
  Yields (fun ps => Predicate.everyFieldOf Operand.accepted ps = true) result

theorem accepted_parseOperators (column : String) (operators : List (String × Json)) :
    YieldsAccepted (parseOperators column operators) := by
  induction operators with
  | nil => exact yields_ok rfl
  | cons entry rest ih =>
    rw [parseOperators]
    split
    · exact yields_error _
    · rename_i operator _
      refine (accepted_parseOperand column operator entry.2).bind fun operand hoperand => ?_
      refine ih.bind fun predicates hpredicates => yields_ok ?_
      exact Bool.and_eq_true_iff.mpr ⟨hoperand, hpredicates⟩

theorem accepted_parseField (column : String) (v : Json) :
    YieldsAccepted (parseField column v) := by
  have hscalar : ∀ v : Json, v.isScalar = true →
      YieldsAccepted (.ok [.field column .equal (.scalar v)]) := by
    intro v hv
    refine yields_ok ?_
    simp [Predicate.everyFieldOf, Predicate.everyField, Operand.accepted, Operand.wellShaped,
      Operand.fits, Operand.values, Operator.takesList, hv]
  unfold parseField
  split
  · exact yields_error _
  · cases v with
    | obj operators =>
      cases operators with
      | nil => exact yields_error _
      | cons entry rest => exact accepted_parseOperators column (entry :: rest)
    | arr items => exact yields_error _
    | _ => exact hscalar _ rfl

/-! ## Combinations -/

theorem accepted_combinator {key : String} {combine : List Predicate → Predicate}
    (h : combinator? key = some combine) {ps : List Predicate}
    (hps : Predicate.everyFieldOf Operand.accepted ps = true) :
    Predicate.everyFieldOf Operand.accepted [combine ps] = true := by
  unfold combinator? at h
  split at h
  · cases h
    exact Bool.and_eq_true_iff.mpr ⟨hps, rfl⟩
  · split at h
    · cases h
      exact Bool.and_eq_true_iff.mpr ⟨hps, rfl⟩
    · exact nomatch h

theorem accepted_grouped {ps : List Predicate}
    (hps : Predicate.everyFieldOf Operand.accepted ps = true) :
    (grouped ps).everyField Operand.accepted = true := by
  unfold grouped
  split
  · exact (Bool.and_eq_true_iff.mp hps).1
  · exact hps

mutual

theorem accepted_parseTerm (key : String) : ∀ v : Json, YieldsAccepted (parseTerm key v)
  | .arr items => by
    rw [parseTerm]
    split
    · rename_i combine hcombine
      refine (accepted_parseItems key items).bind fun parts hparts => yields_ok ?_
      exact accepted_combinator hcombine hparts
    · exact accepted_parseField key _
  | .obj fields => by
    rw [parseTerm]
    split
    · rename_i combine hcombine
      refine (accepted_parseSingly fields).bind fun parts hparts => yields_ok ?_
      exact accepted_combinator hcombine hparts
    · exact accepted_parseField key _
  | .null | .bool _ | .num _ | .str _ => by
    unfold parseTerm
    split
    · exact yields_error _
    · exact accepted_parseField key _

theorem accepted_parseTerms : ∀ fields : List (String × Json), YieldsAccepted (parseTerms fields)
  | [] => yields_ok rfl
  | (key, v) :: rest => by
    rw [parseTerms]
    refine (accepted_parseTerm key v).bind fun predicates hpredicates => ?_
    refine (accepted_parseTerms rest).bind fun others hothers => yields_ok ?_
    rw [Predicate.everyFieldOf_iff] at hpredicates hothers ⊢
    exact List.forall_mem_append.mpr ⟨hpredicates, hothers⟩

theorem accepted_parseItems (key : String) :
    ∀ items : List Json, YieldsAccepted (parseItems key items)
  | [] => yields_ok rfl
  | .obj fields :: rest => by
    rw [parseItems]
    refine (accepted_parseTerms fields).bind fun predicates hpredicates => ?_
    refine (accepted_parseItems key rest).bind fun others hothers => yields_ok ?_
    exact Bool.and_eq_true_iff.mpr ⟨accepted_grouped hpredicates, hothers⟩
  | .null :: _ | .bool _ :: _ | .num _ :: _ | .str _ :: _ | .arr _ :: _ => yields_error _

theorem accepted_parseSingly :
    ∀ fields : List (String × Json), YieldsAccepted (parseSingly fields)
  | [] => yields_ok rfl
  | (key, v) :: rest => by
    rw [parseSingly]
    refine (accepted_parseTerm key v).bind fun predicates hpredicates => ?_
    refine (accepted_parseSingly rest).bind fun others hothers => yields_ok ?_
    exact Bool.and_eq_true_iff.mpr ⟨accepted_grouped hpredicates, hothers⟩

end

theorem accepted_parse (v : Json) : Yields Accepted (parse v) := by
  cases v with
  | null => exact yields_ok rfl
  | obj fields =>
    have hterms := accepted_parseTerms fields
    show Yields Accepted ((parseTerms fields).map Condition.mk)
    cases hps : parseTerms fields with
    | error fault => exact yields_error _
    | ok ps =>
      have haccepted : Accepted ⟨ps⟩ := hterms ps hps
      exact yields_ok haccepted
  | _ => exact yields_error _

end Condition

end ContentTables
