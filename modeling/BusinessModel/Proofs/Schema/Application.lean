import BusinessModel.Proofs.Schema.Engine

/-!
Which schemas a check applies to which parts of a value: those inside the schema, along its keywords,
and those that its references lead to.
-/

namespace BusinessModel.Schema

/-- A keyword of a schema hands the value itself, or a part one step inside it, to a schema inside.
The schemas for the names of properties are handed no part of the value. -/
inductive Hands (s : Located) : Value → Located → List Segment → Value → Prop where
  | way {x keyword argument inner} : keyword ∈ ["allOf", "anyOf", "oneOf"] →
      (.str keyword, argument) ∈ s.entries → inner ∈ argument.items → Hands s x inner [] x
  | condition {x keyword inner} : keyword ∈ ["not", "if", "then", "else"] →
      (.str keyword, inner) ∈ s.entries → Hands s x inner [] x
  | dependent {x argument name inner} : (.str "dependentSchemas", argument) ∈ s.entries →
      (name, inner) ∈ argument.entries → Hands s x inner [] x
  | property {entries argument name inner y} : (.str "properties", argument) ∈ s.entries →
      (.str name, inner) ∈ argument.entries → (.str name, y) ∈ entries →
      Hands s (.map entries) inner [.key name] y
  | pattern {entries argument text inner p name y} :
      (.str "patternProperties", argument) ∈ s.entries → (text, inner) ∈ argument.entries →
      patternOf text.text = .ok p → p.search name = true → (.str name, y) ∈ entries →
      Hands s (.map entries) inner [.key name] y
  | additional {entries inner extras name y} : (.str "additionalProperties", inner) ∈ s.entries →
      undeclared s.value entries = .ok extras → (.str name, y) ∈ extras →
      Hands s (.map entries) inner [.key name] y
  | unevaluated {entries inner name y} : (.str "unevaluatedProperties", inner) ∈ s.entries →
      (.str name, y) ∈ entries → Hands s (.map entries) inner [.key name] y
  | item {items keyword inner} {i : Nat} {y} : keyword ∈ ["items", "contains", "unevaluatedItems"] →
      (.str keyword, inner) ∈ s.entries → items[i]? = some y →
      Hands s (.list items) inner [.index i] y
  | front {items argument inner} {i : Nat} {y} : (.str "prefixItems", argument) ∈ s.entries →
      argument.items[i]? = some inner → items[i]? = some y →
      Hands s (.list items) inner [.index i] y

/-- Applying a schema in a scope to a value applies the schema `t` to `y`, the part of the value at
the end of the segments. -/
inductive Applies (r : Registry) (t : Located) (y : Value) :
    Scope → Located → Value → List Segment → Prop where
  | here {scope} : Applies r t y scope t y []
  | reference {scope s x keyword argument target scope' segments} :
      keyword ∈ ["$ref", "$dynamicRef"] → (.str keyword, argument) ∈ s.entries →
      follow r scope argument.value.text = .ok (target, scope') →
      Applies r t y scope' target x segments → Applies r t y scope s x segments
  | inner {scope s x inner step part scope' segments} : Hands s x inner step part →
      scope.enter inner.value = .ok scope' → Applies r t y scope' inner part segments →
      Applies r t y scope s x (step ++ segments)

/-- What a tree is made of is a tree. -/
theorem Hands.isTree {s inner : Located} {x y : Value} {step : List Segment}
    (h : Hands s x inner step y) (hx : x.IsTree) : y.IsTree := by
  cases h with
  | way => exact hx
  | condition => exact hx
  | dependent => exact hx
  | property _ _ hentry => exact hx.of_mem_entries hentry
  | pattern _ _ _ _ hentry => exact hx.of_mem_entries hentry
  | additional _ hextras hentry => exact hx.of_mem_entries (mem_of_mem_undeclared hextras _ hentry)
  | unevaluated _ hentry => exact hx.of_mem_entries hentry
  | item _ _ hentry => exact hx.of_mem_items (List.mem_of_getElem? hentry)
  | front _ _ hentry => exact hx.of_mem_items (List.mem_of_getElem? hentry)

/-- A schema that allows nothing applies no others. -/
theorem Applies.eq_of_false {r : Registry} {s t : Located} {scope : Scope} {x y : Value} {segments : List Segment}
    (hfalse : s.value = .bool false) (h : Applies r t y scope s x segments) : t = s := by
  have hnone {e : Value × Located} (he : e ∈ s.entries) : False := by
    obtain ⟨i, v, hv, _⟩ := Located.mem_entries_iff.mp he
    rw [hfalse] at hv
    cases hv
  cases h with
  | here => rfl
  | reference _ hmem _ _ => exact (hnone hmem).elim
  | inner hhands _ _ =>
    cases hhands with
    | way _ hmem _ => exact (hnone hmem).elim
    | condition _ hmem => exact (hnone hmem).elim
    | dependent hmem _ => exact (hnone hmem).elim
    | property hmem _ _ => exact (hnone hmem).elim
    | pattern hmem _ _ _ _ => exact (hnone hmem).elim
    | additional hmem _ _ => exact (hnone hmem).elim
    | unevaluated hmem _ => exact (hnone hmem).elim
    | item _ hmem _ => exact (hnone hmem).elim
    | front hmem _ _ => exact (hnone hmem).elim

end BusinessModel.Schema
