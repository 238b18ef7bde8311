import Mathlib.Order.Basic

/-!
# Displays that are repaired where they are damaged

A display shows something at every point, and remembers which points are damaged: what it
shows there means nothing. A repair draws the damaged points only, and may miss some of them:
these are lost. So whoever changes the picture has to damage the points that change with it,
or they stay stale for ever.
-/

/-- What is shown at each point of `P`, where it is damaged, and where a repair has missed. -/
structure Display (P C : Type) where
  shows : P → C
  damaged : P → Bool
  lost : P → Bool

namespace Display

variable {P C : Type}

/-- Every point of the area that is neither damaged nor lost shows the picture, of which there
may be several. -/
def Fresh (area : P → Prop) (picture : P → C → Prop) (d : Display P C) : Prop :=
  ∀ p, area p → d.damaged p = false → d.lost p = false → picture p (d.shows p)

variable {area : P → Prop} {picture : P → C → Prop} {d d' : Display P C}

end Display
