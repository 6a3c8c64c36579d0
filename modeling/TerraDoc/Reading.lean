namespace TerraDoc

/-- A step that fails, or gives something and leaves less to be read. -/
abbrev Reading (σ α : Type) := StateT σ Option α

namespace Reading

/-- Take a step until it has nothing more to give. The bound is larger than what is left to read,
and every step that gives something goes past a part of it. -/
def repeated {σ α : Type} : Nat → Reading σ (Option α) → Reading σ (List α)
  | 0, _ => failure
  | bound + 1, step => do
      match ← step with
      | none => return []
      | some a => return a :: (← repeated bound step)

end Reading

end TerraDoc
