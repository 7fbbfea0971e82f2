import ContentTables.Condition.Basic
import Mathlib.Order.BoundedOrder.Lattice

/-!
# What a condition means

A condition is a tree over comparisons, so its meaning is a function of the truth values of the
comparisons. Truth values form a bounded lattice: two of them, or three where a comparison with null
is unknown.

* `Comparison` : a column behind its table, compared with an operand;
* `Predicate.value`, `Condition.value` : the truth value of a tree, groups and `all` as
  conjunctions, `any` as a disjunction;
* `Predicate.hasField`, `Condition.pruned` : a tree with a comparison in it, and the tree without
  the combinations that have none;
* `Operand.fits`, `Condition.Fitting` : every operand has the shape that its operator takes;
* `Operand.wellShaped`, `Condition.WellShaped` : it has scalars only in it as well.
-/

namespace ContentTables

structure Comparison where
  table : Option String
  column : String
  operator : Operator
  operand : Operand

/-! ## Truth values -/

/-- The two truth values, with the order that computes. -/
instance boolLattice : Lattice Bool := Bool.instDistribLattice.toLattice

section Truth
variable {τ : Type} [Lattice τ] [BoundedOrder τ]

def allOf (values : List τ) : τ := values.foldr (· ⊓ ·) ⊤

def anyOf (values : List τ) : τ := values.foldr (· ⊔ ·) ⊥

@[simp] theorem allOf_nil : allOf ([] : List τ) = ⊤ := rfl

@[simp] theorem allOf_cons (v : τ) (vs : List τ) : allOf (v :: vs) = v ⊓ allOf vs := rfl

@[simp] theorem anyOf_nil : anyOf ([] : List τ) = ⊥ := rfl

@[simp] theorem anyOf_cons (v : τ) (vs : List τ) : anyOf (v :: vs) = v ⊔ anyOf vs := rfl

theorem allOf_singleton (v : τ) : allOf [v] = v := by
  rw [allOf_cons, allOf_nil, inf_top_eq]

theorem allOf_perm {vs ws : List τ} (h : vs.Perm ws) : allOf vs = allOf ws := by
  unfold allOf
  exact h.foldr_eq' (fun x _ y _ z => inf_left_comm y x z) ⊤

theorem anyOf_perm {vs ws : List τ} (h : vs.Perm ws) : anyOf vs = anyOf ws := by
  unfold anyOf
  exact h.foldr_eq' (fun x _ y _ z => sup_left_comm y x z) ⊥

end Truth

/-! ## Trees -/

namespace Predicate

/-- What holds of a combination when it holds of its parts holds of every tree. -/
theorem partsInduction {motive : Predicate → Prop}
    (field : ∀ column operator operand, motive (.field column operator operand))
    (group : ∀ parts, (∀ p ∈ parts, motive p) → motive (.group parts))
    (all : ∀ parts, (∀ p ∈ parts, motive p) → motive (.all parts))
    (any : ∀ parts, (∀ p ∈ parts, motive p) → motive (.any parts)) (p : Predicate) : motive p :=
  @Predicate.rec motive (fun parts => ∀ p ∈ parts, motive p) field group all any
    (List.forall_mem_nil _) (fun _ _ hp hps => List.forall_mem_cons.mpr ⟨hp, hps⟩) p

section Value
variable {τ : Type} [Lattice τ] [BoundedOrder τ]

mutual

/-- The truth value of a tree whose columns stand behind a table. -/
def value (truth : Comparison → τ) (table : Option String) : Predicate → τ
  | .field column operator operand => truth ⟨table, column, operator, operand⟩
  | .group parts => allOf (values truth table parts)
  | .all parts => allOf (values truth table parts)
  | .any parts => anyOf (values truth table parts)

def values (truth : Comparison → τ) (table : Option String) : List Predicate → List τ
  | [] => []
  | p :: ps => p.value truth table :: values truth table ps

end

theorem values_eq_map (truth : Comparison → τ) (table : Option String) (ps : List Predicate) :
    values truth table ps = ps.map (value truth table) := by
  induction ps with
  | nil => rfl
  | cons p ps ih => rw [values, ih, List.map_cons]

end Value

mutual

/-- The tree has a comparison in it. -/
def hasField : Predicate → Bool
  | .field .. => true
  | .group parts => anyHasField parts
  | .all parts => anyHasField parts
  | .any parts => anyHasField parts

def anyHasField : List Predicate → Bool
  | [] => false
  | p :: ps => p.hasField || anyHasField ps

end

mutual

/-- The tree without the combinations inside it that have no comparison. -/
def pruned : Predicate → Predicate
  | .field column operator operand => .field column operator operand
  | .group parts => .group (prunedParts parts)
  | .all parts => .all (prunedParts parts)
  | .any parts => .any (prunedParts parts)

def prunedParts : List Predicate → List Predicate
  | [] => []
  | p :: ps => if p.hasField then p.pruned :: prunedParts ps else prunedParts ps

end

end Predicate

/-! ## Shapes of operands -/

/-- Lists for membership, a range for `between`, and one value for every other operator. -/
def Operand.fits (operator : Operator) : Operand → Bool
  | .scalar _ => !operator.takesList && operator != .between
  | .list _ => operator.takesList
  | .range _ _ => operator == .between

def Operand.values : Operand → List Json
  | .scalar v => [v]
  | .list vs => vs
  | .range low high => [low, high]

/-- The shape that the operator takes, with a scalar in every place. -/
def Operand.wellShaped (operator : Operator) (operand : Operand) : Bool :=
  operand.fits operator && operand.values.all Json.isScalar

namespace Predicate

mutual

/-- Something holds of the operator and the operand of every comparison. -/
def everyField (p : Operator → Operand → Bool) : Predicate → Bool
  | .field _ operator operand => p operator operand
  | .group parts => everyFieldOf p parts
  | .all parts => everyFieldOf p parts
  | .any parts => everyFieldOf p parts

def everyFieldOf (p : Operator → Operand → Bool) : List Predicate → Bool
  | [] => true
  | q :: qs => everyField p q && everyFieldOf p qs

end

theorem everyFieldOf_iff {p : Operator → Operand → Bool} {qs : List Predicate} :
    everyFieldOf p qs = true ↔ ∀ q ∈ qs, everyField p q = true := by
  induction qs with
  | nil => simp [everyFieldOf]
  | cons q qs ih => rw [everyFieldOf, Bool.and_eq_true, ih, List.forall_mem_cons]

end Predicate

namespace Condition

def Fitting (c : Condition) : Prop := Predicate.everyFieldOf Operand.fits c.predicates = true

def WellShaped (c : Condition) : Prop :=
  Predicate.everyFieldOf Operand.wellShaped c.predicates = true

def hasField (c : Condition) : Bool := Predicate.anyHasField c.predicates

def pruned (c : Condition) : Condition := ⟨Predicate.prunedParts c.predicates⟩

def value {τ : Type} [Lattice τ] [BoundedOrder τ] (truth : Comparison → τ)
    (table : Option String) (c : Condition) : τ :=
  allOf (Predicate.values truth table c.predicates)

end Condition

end ContentTables
