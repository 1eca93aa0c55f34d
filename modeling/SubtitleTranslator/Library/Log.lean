import Mathlib.Tactic

namespace Library.Log
variable {Entry : Type}

/-- In a log with the newest entry first, each entry is justified by the older ones. -/
def Justified (justified : Entry → List Entry → Prop) : List Entry → Prop
  | [] => True
  | entry :: older => justified entry older ∧ Justified justified older

variable {justified : Entry → List Entry → Prop}

/-- Every entry of a justified log is justified by the entries before it. -/
theorem Justified.split {newer older : List Entry} {entry : Entry}
    (log : Justified justified (newer ++ entry :: older)) : justified entry older := by
  induction newer with
  | nil => exact log.1
  | cons first rest ih => exact ih log.2

end Library.Log
