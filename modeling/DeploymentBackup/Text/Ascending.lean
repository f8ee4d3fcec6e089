namespace DeploymentBackup.Text

/-!
# Texts in ascending order

* `ascending` — the texts of a list in ascending order, each of them once.
-/

/-- Puts a text in its place in an ascending list, unless it is there already. -/
def place (s : String) : List String → List String
  | [] => [s]
  | t :: rest =>
    if s = t then t :: rest
    else if s < t then s :: t :: rest
    else t :: place s rest

/-- The texts of a list in ascending order, each of them once. -/
def ascending (texts : List String) : List String :=
  texts.foldr place []

@[simp] theorem mem_place {s x : String} {texts : List String} :
    x ∈ place s texts ↔ x = s ∨ x ∈ texts := by
  induction texts with
  | nil => simp [place]
  | cons t rest ih => grind [place]

@[simp] theorem mem_ascending {x : String} {texts : List String} :
    x ∈ ascending texts ↔ x ∈ texts := by
  induction texts with
  | nil => simp [ascending]
  | cons s rest ih => simpa [ascending] using or_congr_right ih

end DeploymentBackup.Text
