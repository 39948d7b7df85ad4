import SuiteGate.Gate.Run
import SuiteGate.Json.Access
import SuiteGate.Json.Parser
/-!
# Summaries as documents

A summary is written as a JSON object with the list of tasks and the duration of the run
(`Summary.toJson`), each task with its name, its tags and its status.  Reading (`Summary.ofJson?`)
takes the members in any order, knows the order of the members if the object is given as an
array instead, and leaves out members it does not know.
-/

namespace SuiteGate.Gate

/-! ### Writing -/

/-- A task as a document. -/
def TaskReport.toJson (r : TaskReport) : Json :=
  let common := [("name", Json.ofString r.name)]
  let tags := ("tags", Json.ofStrings r.tags)
  match r.outcome with
  | .passed millis =>
    Json.ofMembers ([("duration_ms", Json.ofNat millis)] ++ common ++
      [("status", Json.ofString "passed"), tags])
  | .skipped => Json.ofMembers (common ++ [("status", Json.ofString "skipped"), tags])

/-- A summary as a document. -/
def Summary.toJson (s : Summary) : Json :=
  Json.ofMembers
    [("duration_ms", Json.ofNat s.millis), ("tasks", .arr (s.tasks.map TaskReport.toJson))]

/-! ### Reading -/

/-- The greatest depth of nesting that a reader of values accepts. -/
def maxDepth : Nat := 127

/-- The statuses, in an order that numbers stand for. -/
def statusOf? : Json → Option Bool
  | .str s => if s.exact && s.text = "passed" then some true
    else if s.exact && s.text = "skipped" then some false else none
  | .int n => if n = 0 then some true else if n = 1 then some false else none
  | _ => none

/-- Reads a task.  Its members are all read before their meaning is known, so each has to be exact
and not too deep; the two levels around a task count. -/
def TaskReport.ofJson? : Json → Option TaskReport
  | .obj members => do
    let name ← Json.textOf? (← Json.valueOf? "name" members)
    let tags ← Json.textsOf? (← Json.valueOf? "tags" members)
    let others := members.filter fun m => m.1.text ≠ "name" && m.1.text ≠ "tags"
    if !members.all (·.1.exact) || !Json.exactMembers others ||
        maxDepth < Json.depthMembers others + 3 then none
    else
      match ← statusOf? (← Json.valueOf? "status" members) with
      | true => some ⟨name, tags, .passed (← Json.countOf? (← Json.valueOf? "duration_ms" members))⟩
      | false => some ⟨name, tags, .skipped⟩
  | _ => none

/-- Reads a list of tasks. -/
def tasksOf? : Json → Option (List TaskReport)
  | .arr items => items.mapM TaskReport.ofJson?
  | _ => none

/-- Reads a summary. -/
def Summary.ofJson? : Json → Option Summary
  | .obj members => do
    if !members.all (·.1.exact) then none
    else
      some ⟨← tasksOf? (← Json.valueOf? "tasks" members),
        ← Json.countOf? (← Json.valueOf? "duration_ms" members)⟩
  | .arr [tasks, duration] => do some ⟨← tasksOf? tasks, ← Json.countOf? duration⟩
  | _ => none

/-- Reads the text of a summary. -/
def Summary.parse? (s : String) : Option Summary := do
  Summary.ofJson? (← Json.parse? s)

end SuiteGate.Gate
