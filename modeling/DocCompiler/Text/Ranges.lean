/-!
Sets of code points given as sorted tables of closed ranges, and the search in them.
-/

namespace DocCompiler.Text.Ranges

/-- A table of closed ranges of code points, sorted and disjoint. -/
abbrev Table := Array (Nat × Nat)

/-- Looks for the range that holds `code` among the entries from `low` up to, not including,
`high`; `fuel` bounds the number of halvings. -/
def search (table : Table) (code : Nat) : (fuel low high : Nat) → Option Nat
  | 0, _, _ => none
  | fuel + 1, low, high =>
      if high ≤ low then none
      else
        let middle := (low + high) / 2
        match table[middle]? with
        | none => none
        | some (first, last) =>
            if code < first then search table code fuel low middle
            else if last < code then search table code fuel (middle + 1) high
            else some middle

/-- The index of the range of a table that holds a code point. -/
def find? (table : Table) (code : Nat) : Option Nat :=
  search table code (table.size + 1) 0 table.size

/-- Whether some range of the table holds the code point. -/
def contains (table : Table) (code : Nat) : Bool :=
  (find? table code).isSome

end DocCompiler.Text.Ranges
