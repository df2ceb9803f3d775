import NodeFuse.Confinement

/-!
# Names under one number

`self.hash` multiplies by 31 and adds, and `A`, `a` count as much as `B`, `B`. The names written with
these two pairs are taken here as a list of choices between them.
-/

namespace NodeFuse.NodeFs

/-- The name with a pair for each choice. -/
def pairs (choices : List Bool) : JsString :=
  choices.flatMap fun b => if b then ['B', 'B'] else ['A', 'a']

/-- The number of the names with `k` pairs in a directory. -/
def sharedNumber (dir : JsString) (k : ℕ) : ℤ := hash (Path.join dir (pairs (List.replicate k false)))

/-- Such names, looked up in a directory one after another. -/
def lookups (parent : ℤ) (words : List (List Bool)) : List Request :=
  words.map fun choices => ⟨.lookup parent (pairs choices), Reply.succeed⟩

/-- Each of the names was given the number, which leads to the last of them. -/
structure SharedBy {W : Type} (dir : JsString) (number : ℤ) (words : List (List Bool)) (s : State W) :
    Prop where
  given : ∀ choices ∈ words, ⟨Path.join dir (pairs choices), number⟩ ∈ s.given
  last : ∀ choices ∈ words.getLast?, s.tree number = some (Path.join dir (pairs choices))

end NodeFuse.NodeFs
