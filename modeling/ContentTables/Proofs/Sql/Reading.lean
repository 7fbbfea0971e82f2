import ContentTables.Proofs.Condition.Meaning
import ContentTables.Proofs.Sql.Tokens
import ContentTables.Sql.Clause

/-!
# Reading a clause

The truth value of a clause, read by the rules of the language it is written in: parentheses first,
`AND` before `OR`, the `AND` of a range to its `BETWEEN`, and every placeholder bound to the next
parameter.

A reader keeps one `Level` for each open parenthesis. It alternates between operands and
connectives, so it needs no look-ahead and takes every token once.

* `readOperand`, `readTest`, `readConnective` : the reader at the beginning of an operand, behind a
  column, and behind an operand;
* `Clause.value?` : the truth value of a clause; a clause without text restricts nothing;
* `Means truth s ps v` : wherever an operand may stand, the text `s` with the parameters `ps` is
  read as one operand of value `v` (`means_field`, `means_allOf`, `means_enclosed_allOf`,
  `means_enclosed_anyOf`).
-/

namespace ContentTables

section Reading
variable {τ : Type} [Lattice τ] [BoundedOrder τ]

/-- What was read since a parenthesis opened: the alternatives before the last `OR`, and the
conjunction behind it. -/
@[ext] structure Level (τ : Type) where
  earlier : τ
  current : τ

namespace Level

def fresh : Level τ := ⟨⊥, ⊤⟩

def and (level : Level τ) (v : τ) : Level τ := ⟨level.earlier, level.current ⊓ v⟩

def or (level : Level τ) : Level τ := ⟨level.earlier ⊔ level.current, ⊤⟩

def value (level : Level τ) : τ := level.earlier ⊔ level.current

omit [BoundedOrder τ] in
theorem and_and (level : Level τ) (v w : τ) : (level.and v).and w = level.and (v ⊓ w) := by
  ext
  · rfl
  · exact inf_assoc _ _ _

theorem value_fresh_and (v : τ) : (fresh.and v).value = v := by
  show ⊥ ⊔ (⊤ ⊓ v) = v
  rw [top_inf_eq, bot_sup_eq]

end Level

mutual

def readOperand (truth : Comparison → τ) (level : Level τ) (outer : List (Level τ)) :
    List Token → List Json → Option τ
  | .opening :: ts, ps => readOperand truth .fresh (level :: outer) ts ps
  | .name table :: .dot :: .name column :: ts, ps =>
    readTest truth level outer (some table) column ts ps
  | .name column :: ts, ps => readTest truth level outer none column ts ps
  | _, _ => none

def readTest (truth : Comparison → τ) (level : Level τ) (outer : List (Level τ))
    (table : Option String) (column : String) : List Token → List Json → Option τ
  | .sign operator :: .mark :: ts, p :: ps =>
    readConnective truth (level.and (truth ⟨table, column, operator, .scalar p⟩)) outer ts ps
  | .keyword .like :: .mark :: ts, p :: ps =>
    readConnective truth (level.and (truth ⟨table, column, .like, .scalar p⟩)) outer ts ps
  | .keyword .not :: .keyword .like :: .mark :: ts, p :: ps =>
    readConnective truth (level.and (truth ⟨table, column, .notLike, .scalar p⟩)) outer ts ps
  | .keyword .isIn :: .opening :: .mark :: .closing :: ts, .arr vs :: ps =>
    readConnective truth (level.and (truth ⟨table, column, .isIn, .list vs⟩)) outer ts ps
  | .keyword .not :: .keyword .isIn :: .opening :: .mark :: .closing :: ts, .arr vs :: ps =>
    readConnective truth (level.and (truth ⟨table, column, .notIn, .list vs⟩)) outer ts ps
  | .keyword .between :: .mark :: .keyword .and :: .mark :: ts, low :: high :: ps =>
    readConnective truth (level.and (truth ⟨table, column, .between, .range low high⟩)) outer ts ps
  | _, _ => none

def readConnective (truth : Comparison → τ) (level : Level τ) (outer : List (Level τ)) :
    List Token → List Json → Option τ
  | [], ps => if outer.isEmpty && ps.isEmpty then some level.value else none
  | .keyword .and :: ts, ps => readOperand truth level outer ts ps
  | .keyword .or :: ts, ps => readOperand truth level.or outer ts ps
  | .closing :: ts, ps =>
    match outer with
    | [] => none
    | enclosing :: outer => readConnective truth (enclosing.and level.value) outer ts ps
  | _, _ => none

end

/-- `AND` before `OR`: the first alternative holds. -/
example : readOperand (fun c => c.column == "a") .fresh []
    [.name "a", .sign .equal, .mark, .keyword .or, .name "b", .sign .equal, .mark, .keyword .and,
      .name "c", .sign .equal, .mark] [.null, .null, .null] = some true := rfl

def Clause.value? (truth : Comparison → τ) (c : Clause) : Option τ :=
  if c.isEmpty then (if c.params.isEmpty then some ⊤ else none)
  else (tokens? c.sql.toList).bind fun ts => readOperand truth .fresh [] ts c.params

/-! ## Texts read as one operand -/

def Reads (truth : Comparison → τ) (ts : List Token) (ps : List Json) (v : τ) : Prop :=
  ∀ level outer rest params,
    readOperand truth level outer (ts ++ rest) (ps ++ params) =
      readConnective truth (level.and v) outer rest params

def Means (truth : Comparison → τ) (sql : String) (ps : List Json) (v : τ) : Prop :=
  ∃ ts, Scans sql.toList ts ∧ Reads truth ts ps v

variable {truth : Comparison → τ}

theorem reads_field (table : Option String) (column : String) {operator : Operator}
    {operand : Operand} (fits : operand.fits operator = true) :
    Reads truth (columnTokens table column ++ operator.tokens) operand.params
      (truth ⟨table, column, operator, operand⟩) := by
  intro level outer rest params
  have behind : ∀ ts, readOperand truth level outer
      (columnTokens table column ++ (operator.tokens ++ ts)) =
        readTest truth level outer table column (operator.tokens ++ ts) := by
    intro ts
    funext ps
    cases table with
    | none => cases operator <;> simp [columnTokens, Operator.tokens, readOperand]
    | some t => simp [columnTokens, readOperand]
  rw [List.append_assoc, behind]
  cases operand <;> cases operator <;>
    first
    | exact absurd fits Bool.false_ne_true
    | simp [Operator.tokens, Operand.params, readTest]

theorem means_field (table : Option String) (column : String) {operator : Operator}
    {operand : Operand} (fits : operand.fits operator = true) :
    Means truth (qualified table column ++ " " ++ operator.placeholder) operand.params
      (truth ⟨table, column, operator, operand⟩) :=
  ⟨_, scans_field table column operator, reads_field table column fits⟩

/-- A text with its parameters and the value that it has. -/
structure Part (τ : Type) where
  sql : String
  params : List Json
  value : τ

/-- Operands joined by `AND` are read as their conjunction. -/
theorem means_allOf {part : Part τ} {parts : List (Part τ)}
    (h : ∀ p ∈ part :: parts, Means truth p.sql p.params p.value) :
    Means truth (" AND ".intercalate ((part :: parts).map (·.sql)))
      ((part :: parts).flatMap (·.params)) (allOf ((part :: parts).map (·.value))) := by
  induction parts generalizing part with
  | nil => simpa using h part (by simp)
  | cons next parts ih =>
    obtain ⟨ts, scanned, read⟩ := h part (by simp)
    obtain ⟨us, scanned', read'⟩ := ih fun p hp => h p (List.mem_cons_of_mem _ hp)
    refine ⟨ts ++ ([.keyword .and] ++ us), ?_, ?_⟩
    · rw [List.map_cons, List.map_cons, String.intercalate_cons_cons, String.toList_append,
        String.toList_append, List.append_assoc]
      exact scanned.append (scans_and.append scanned')
    · intro level outer rest params
      rw [List.flatMap_cons, List.append_assoc, List.append_assoc, List.append_assoc, read,
        List.singleton_append, readConnective, read', Level.and_and]
      rfl

/-- Operands joined by `OR` are read as alternatives. -/
theorem reads_anyOf {part : Part τ} {parts : List (Part τ)}
    (h : ∀ p ∈ part :: parts, Means truth p.sql p.params p.value) :
    ∃ ts, Scans (" OR ".intercalate ((part :: parts).map (·.sql))).toList ts ∧
      ∀ earlier outer rest params, ∃ level : Level τ,
        readOperand truth ⟨earlier, ⊤⟩ outer (ts ++ rest)
          ((part :: parts).flatMap (·.params) ++ params) =
            readConnective truth level outer rest params ∧
        level.value = earlier ⊔ anyOf ((part :: parts).map (·.value)) := by
  induction parts generalizing part with
  | nil =>
    obtain ⟨ts, scanned, read⟩ := h part (by simp)
    refine ⟨ts, by simpa using scanned, fun earlier outer rest params => ?_⟩
    refine ⟨Level.and ⟨earlier, ⊤⟩ part.value, by simpa using read _ outer rest params, ?_⟩
    simp [Level.value, Level.and]
  | cons next parts ih =>
    obtain ⟨ts, scanned, read⟩ := h part (by simp)
    obtain ⟨us, scanned', read'⟩ := ih fun p hp => h p (List.mem_cons_of_mem _ hp)
    refine ⟨ts ++ ([.keyword .or] ++ us), ?_, fun earlier outer rest params => ?_⟩
    · rw [List.map_cons, List.map_cons, String.intercalate_cons_cons, String.toList_append,
        String.toList_append, List.append_assoc]
      exact scanned.append (scans_or.append scanned')
    · obtain ⟨level, reading, hv⟩ := read' (earlier ⊔ (⊤ ⊓ part.value)) outer rest params
      refine ⟨level, ?_, ?_⟩
      · rw [List.flatMap_cons, List.append_assoc, List.append_assoc, List.append_assoc, read,
          List.singleton_append, readConnective]
        exact reading
      · rw [hv, top_inf_eq, sup_assoc]
        rfl

theorem scans_parenthesized {sql : String} {ts : List Token} (h : Scans sql.toList ts) :
    Scans (Predicate.parenthesized sql).toList ([.opening] ++ (ts ++ [.closing])) := by
  rw [Predicate.parenthesized, String.toList_append, String.toList_append, List.append_assoc]
  exact scans_opening.append (h.append scans_closing)

theorem means_enclosed_allOf {part : Part τ} {parts : List (Part τ)}
    (h : ∀ p ∈ part :: parts, Means truth p.sql p.params p.value) :
    Means truth (Predicate.parenthesized (" AND ".intercalate ((part :: parts).map (·.sql))))
      ((part :: parts).flatMap (·.params)) (allOf ((part :: parts).map (·.value))) := by
  obtain ⟨ts, scanned, read⟩ := means_allOf h
  refine ⟨_, scans_parenthesized scanned, fun level outer rest params => ?_⟩
  rw [List.append_assoc, List.singleton_append, readOperand, List.append_assoc, read,
    List.singleton_append, readConnective, Level.value_fresh_and]

theorem means_enclosed_anyOf {part : Part τ} {parts : List (Part τ)}
    (h : ∀ p ∈ part :: parts, Means truth p.sql p.params p.value) :
    Means truth (Predicate.parenthesized (" OR ".intercalate ((part :: parts).map (·.sql))))
      ((part :: parts).flatMap (·.params)) (anyOf ((part :: parts).map (·.value))) := by
  obtain ⟨ts, scanned, read⟩ := reads_anyOf h
  refine ⟨_, scans_parenthesized scanned, fun level outer rest params => ?_⟩
  obtain ⟨inner, reading, hv⟩ := read ⊥ (level :: outer) (.closing :: rest) params
  rw [List.append_assoc, List.singleton_append, readOperand, List.append_assoc,
    List.singleton_append, Level.fresh, reading, readConnective, hv, bot_sup_eq]

/-- No text is no operand. -/
theorem Means.ne_empty {sql : String} {ps : List Json} {v : τ} (h : Means truth sql ps v) :
    sql ≠ "" := by
  rintro rfl
  obtain ⟨ts, scanned, read⟩ := h
  have none_scanned : [] = ts := congrArg Prod.fst (Option.some.inj scanned)
  subst none_scanned
  have atEnd := read .fresh [] [] []
  simp [readOperand, readConnective] at atEnd

/-- A text that is read as one operand, up to its end and its last parameter. -/
theorem Means.value? {sql : String} {ps : List Json} {v : τ} (h : Means truth sql ps v) :
    Clause.value? truth ⟨sql, ps⟩ = some v := by
  have nonempty := h.ne_empty
  obtain ⟨ts, scanned, read⟩ := h
  have reading := read .fresh [] [] []
  rw [List.append_nil, List.append_nil] at reading
  simp only [Clause.value?, Clause.isEmpty, beq_iff_eq, nonempty, if_false, scanned.tokens?,
    Option.bind_some, reading, readConnective, List.isEmpty_nil, Bool.and_self, if_true,
    Level.value_fresh_and]

end Reading

end ContentTables
