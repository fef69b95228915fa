/-!
# Interning

Names become numbers: an array keeps one entry per key in order of first
mention, and the number of a key is the position of its entry. Units, types
and fields of a program are all interned this way.

## Main definitions

* `intern`: The position of a key, with a fresh entry at the end if it is
  new.
* `internAll`: One interning step after another along a list.
-/

namespace CoreShell

/-- The position of the entry with key `k`. A key that no entry has gets a
    fresh entry at the end, made from its position. -/
def intern {α κ : Type} [DecidableEq κ] (key : α → κ) (fresh : Nat → α) (k : κ)
    (entries : Array α) : Array α × Nat :=
  match entries.findIdx? fun entry => key entry = k with
  | some position => (entries, position)
  | none => (entries.push (fresh entries.size), entries.size)

/-- A step that changes a state and yields a result, taken for every member
    of a list in order. -/
def internAll {σ α β : Type} (step : σ → α → σ × β) (state : σ) : List α → σ × List β
  | [] => (state, [])
  | a :: rest =>
    let (state, b) := step state a
    let (state, bs) := internAll step state rest
    (state, b :: bs)

end CoreShell
