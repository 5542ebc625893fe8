import BusinessModel.Proofs.Identifier.Letters
import BusinessModel.Proofs.Schema.Walk
import BusinessModel.Schema.Bundled

/-!
The patterns that the bundled schemas have for references: a text that one of them matches is a valid
identifier, with the letters that the pattern asks for.
-/

namespace BusinessModel.Schema.Bundled

open IdScheme

/-- The letters of the identifiers of all kinds of elements. -/
def kindLetters : List String := identifierKinds.map (·.2.1)

/-- The pattern of the identifiers of elements of all kinds. -/
def anyPattern : String :=
  "^(AC|PS|SK|RP|EQ|EN|DC|LO|PR|ST|BK|PH|SC|HT|HY|EV|VS|CP|PD|SV|PF|KP|ROI|MS|VW)" ++
    "\\d\x7b5,\x7d$"

/-- The pattern of the identifiers with letters, or of all. -/
def patternFor (letters : String) : String :=
  if letters = Walk.anyKind then anyPattern else "^" ++ letters ++ "\\d\x7b5,\x7d$"

/-- What the pattern for letters is read as. -/
def patternOfLetters (letters : String) : Pattern :=
  .seq (.anchor .textStart)
    (if letters = Walk.anyKind then .seq (.group 1 (oneSpelled kindLetters)) (digitsToEnd 5)
      else prefixed (digitsToEnd 5) letters.toList)

theorem parse_patternFor : (Walk.anyKind :: kindLetters).all (fun letters =>
    Pattern.parse? (patternFor letters) == some (patternOfLetters letters)) = true := by
  decide +kernel

/-- A text has the pattern for letters if it has these letters, or those of some kind, and five digits
at least. -/
theorem search_patternOfLetters_iff {letters text : String}
    (hletters : letters ∈ Walk.anyKind :: kindLetters) :
    (patternOfLetters letters).search text = true ↔
      ∃ w ∈ kindLetters, (letters = Walk.anyKind ∨ w = letters) ∧ IsNumbered w 5 text := by
  rw [patternOfLetters, Pattern.search_textStart]
  split
  · next hany =>
    refine (run_oneSpelled_digitsToEnd (by decide)).trans ?_
    simp only [hany, true_or, true_and]
  · next hany =>
    refine run_prefixed_digitsToEnd.trans ?_
    simp only [hany, false_or, and_left_comm, exists_eq_left]
    exact (and_iff_right ((List.mem_cons.mp hletters).resolve_left hany)).symm

end BusinessModel.Schema.Bundled
