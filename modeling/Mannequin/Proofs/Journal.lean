import Mannequin.Journal
import Mannequin.Proofs.Returns

/-!
# What work tells

Soft problems are told to a journal one after the other, each as a warning and as a
line. What work has told is the list of its warnings.
-/

namespace Mannequin

namespace Journal

/-- The journal after some warnings. -/
def warned (journal : Journal) (warnings : List Warning) : Journal :=
  ⟨journal.lines ++ warnings.map Warning.line, journal.warnings ++ warnings⟩

@[simp] theorem warnings_warned (journal : Journal) (warnings : List Warning) :
    (journal.warned warnings).warnings = journal.warnings ++ warnings := rfl

@[simp] theorem lines_warned (journal : Journal) (warnings : List Warning) :
    (journal.warned warnings).lines = journal.lines ++ warnings.map Warning.line := rfl

@[simp] theorem warned_nil (journal : Journal) : journal.warned [] = journal := by
  simp [warned]

@[simp] theorem warned_warned (journal : Journal) (first second : List Warning) :
    (journal.warned first).warned second = journal.warned (first ++ second) := by
  simp [warned]

end Journal

namespace Journaled

variable {journal journal' : Journal} {bone reason : String}

theorem outcome_warn (bone reason : String) (journal : Journal) :
    outcome (warn bone reason) journal = (.ok (), journal.warned [⟨bone, reason⟩]) := rfl

theorem returns_warn {result : Unit} :
    Returns (warn bone reason) journal result journal' ↔
      journal' = journal.warned [⟨bone, reason⟩] := by
  rw [Returns, outcome_warn, Prod.mk.injEq, and_iff_right rfl, eq_comm]

theorem warnings_of_warn {result : Unit}
    (h : Returns (warn bone reason) journal result journal') :
    journal'.warnings = journal.warnings ++ [⟨bone, reason⟩] := by
  rw [returns_warn.mp h, Journal.warnings_warned]

/-- What is told of a missing name in a line of its own is told as any warning is, if the line
goes on behind the bone with the words of the warning. -/
theorem noteAs_eq_warn (bone name rest : String) {words opening : String}
    (h : opening = "': " ++ words) :
    noteAs ("bone '" ++ bone ++ opening ++ name ++ rest) ⟨bone, words ++ name ++ rest⟩ =
      warn bone (words ++ name ++ rest) := by
  have htext : "bone '" ++ bone ++ opening ++ name ++ rest =
      (Warning.line ⟨bone, words ++ name ++ rest⟩).text := by
    simp only [h, Warning.line, String.append_assoc]
  rw [htext]
  rfl

theorem warnings_of_info {text : String} {result : Unit}
    (h : Returns (info text) journal result journal') : journal'.warnings = journal.warnings := by
  cases h
  rfl

end Journaled

end Mannequin
