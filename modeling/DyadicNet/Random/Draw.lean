/-!
# Drawing from ranges

What is drawn at random is made up of numbers from ranges.  How a number of a range is found is up to
a **generator**, so a computation that draws is written down without one: it asks for numbers of
ranges, one after the other, and goes on with whatever numbers it is given.  Every generator can
answer it.

## Main definitions

* `Draw` — a computation that draws numbers;
* `Draw.number`, `Draw.replicate` — drawing a number, and a list;
* `Generator` — the state of a generator, and how it answers;
* `Draw.answered` — the result of a computation for a generator.
-/

namespace DyadicNet

/-- The type of a number that is drawn: eight bits or thirty-two. -/
inductive DrawType where
  | byte
  | word

/-- A computation that draws numbers. -/
inductive Draw (α : Type) where
  /-- Nothing is left to draw. -/
  | done (result : α)
  /-- A number from `least` to `greatest` is drawn, and then what follows for this number. -/
  | range (type : DrawType) (least greatest : Nat) (next : Nat → Draw α)

namespace Draw

variable {α β : Type}

/-- A computation, and then another one for its result. -/
def andThen : Draw α → (α → Draw β) → Draw β
  | done a, f => f a
  | range type least greatest next, f =>
    range type least greatest fun n => (next n).andThen f

instance : Monad Draw where
  pure := done
  bind := andThen

/-- Drawing a number from `least` to `greatest`. -/
def number (type : DrawType) (least greatest : Nat) : Draw Nat :=
  range type least greatest done

/-- A list of results of the same draw. -/
def replicate (draw : Draw α) : Nat → Draw (List α)
  | 0 => done []
  | length + 1 => do
    let a ← draw
    let rest ← replicate draw length
    pure (a :: rest)

end Draw

/-- A type of states of a generator, with its way to find a number from `least` to `greatest`. -/
class Generator (G : Type) where
  range : DrawType → (least greatest : Nat) → G → Nat × G

/-- The result of a computation whose numbers come from a generator, and the state after it. -/
def Draw.answered {α G : Type} [Generator G] : Draw α → G → α × G
  | done a, g => (a, g)
  | range type least greatest next, g =>
    let (n, g) := Generator.range type least greatest g
    (next n).answered g

end DyadicNet
