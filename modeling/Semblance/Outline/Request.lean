import Semblance.Outline
import Semblance.Request

/-!
# Outlines on request

Views of an outline that are asked for with JSON values.  An index has to be an integer; an indent only where it is
used, which is when there are children to show.
-/

namespace Semblance

/-- Why a view of an outline is refused. -/
inductive OutlineRefusal where
  | request (e : RequestError)
  | outline (e : OutlineError)

/-- What is said about a refused view. -/
def OutlineRefusal.message : OutlineRefusal → String
  | request e => e.message
  | outline e => e.message

namespace Outline

/-- The children of the node at an index. -/
def childrenAt (o : Outline) (index : Json) : Except OutlineRefusal (List OutlineNode) := do
  let index ← (index.int? .index).mapError .request
  (o.children? index).mapError .outline

/-- The text of the outline below the node at an index, in at most `depth` nested calls. -/
def renderAt (o : Outline) (depth : Nat) (index indent : Json) : Except OutlineRefusal String := do
  let index ← (index.int? .index).mapError .request
  let node ← (o.node? index).mapError .outline
  if node.children.isEmpty then (o.render? depth index 0).mapError .outline
  else (o.render? depth index (← (indent.int? .factor).mapError .request)).mapError .outline

end Outline

end Semblance
