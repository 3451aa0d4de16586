import ToolGraph.Proofs.Load.Ending
import ToolGraph.Proofs.Load.Provenance
import ToolGraph.Proofs.Unfetched

/-!
Loads that lack a source. At the root a failure to fetch is raised as it is. Below the root one that says
that a source is missing is named by the references on the way to it; the others are raised as they are
from there too. Either may be hidden by a cancellation, where a source that failed shared a location with
another one.
-/
namespace ToolGraph

namespace Error

/-- The failure that references are named around. -/
def root : Error → Error
  | .resolution _ _ cause => cause.root
  | error => error

theorem IsMissing.plain {error : Error} (missing : error.IsMissing) :
    error.class? ≠ some .resolution := by
  obtain ⟨place, fault, rfl⟩ := missing
  simp [class?]

end Error

namespace Load

inductive Wants (request : LoadRequest) (world : World) (tool : Tool) (reference : String) :
    Error → Prop where
  /-- There is no canonical location for it. -/
  | nowhere {written base : List Char} {error : Error}
      (leads : Destination.find (request.context world).outlook tool reference =
        .error (error.onReference tool.id reference))
      (refused : (request.context world).outlook.locate written base = .error error) :
      Wants request world tool reference error
  /-- Its location is not fetched, in the world at that time. -/
  | unfetched {location : List Char} {subTool : String} {later : World} {error : Error}
      (leads : Destination.find (request.context world).outlook tool reference =
        .ok (.source location subTool))
      (past : World.Later request.patience world later)
      (missing : Fetch.Unfetched request.patience location later error) :
      Wants request world tool reference error

variable {request : LoadRequest} {world : World} {tool : Tool} {reference : String}
  {error : Error}

theorem locate_missing_or_escapes {written base : List Char}
    (refused : (request.context world).outlook.locate written base = .error error) :
    error.IsMissing ∨ error.Escapes := by
  unfold Outlook.locate at refused
  split at refused
  next location _ =>
    have unfetched : Fetch.Unfetched request.patience location world error :=
      Fetch.unfetched_of_refused refused
    exact unfetched.missing_or_escapes
  next => exact .inr (Except.error.inj refused ▸ .address _)

theorem Wants.missing_or_escapes (wants : Wants request world tool reference error) :
    error.IsMissing ∨ error.Escapes := by
  cases wants with
  | nowhere _ refused => exact locate_missing_or_escapes refused
  | unfetched _ _ missing => exact missing.missing_or_escapes

end Load
end ToolGraph
