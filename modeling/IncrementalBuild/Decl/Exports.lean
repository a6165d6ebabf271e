import IncrementalBuild.Decl.Declaration

/-!
# Exported symbols

A declaration claims the symbol it exports with a ticket it reserved before. Of several
claims on a symbol the one with the smallest ticket wins, whatever the order in which
they are made; the loser of each encounter is reported.
-/

set_option autoImplicit false

namespace IncrementalBuild

/-- A right to claim a symbol. Smaller tickets go first. -/
structure ClaimTicket where
  number : Nat
  deriving DecidableEq, Inhabited

/-- A symbol in use: the ticket it was claimed with and the declaration that holds it. -/
structure ExportEntry where
  ticket : ClaimTicket
  decl : Decl
  deriving Inhabited

/-- Two claims on one symbol. -/
structure ExportCollision where
  kept : Decl
  rejected : Decl
  deriving Inhabited

/-- The symbols in use, oldest first, and the number of tickets reserved. -/
structure ExportTable where
  entries : List ExportEntry := []
  reserved : Nat := 0
  deriving Inhabited

namespace ExportTable

/-- Reserves the next ticket. -/
def reserve (t : ExportTable) : ClaimTicket × ExportTable :=
  (⟨t.reserved⟩, { t with reserved := t.reserved + 1 })

/-- The entry of a symbol. -/
def entry? (t : ExportTable) (symbol : String) : Option ExportEntry :=
  t.entries.find? (·.decl.symbol == symbol)

/-- The declaration that holds a symbol. -/
def find? (t : ExportTable) (symbol : String) : Option Decl := (t.entry? symbol).map (·.decl)

/-- Puts an entry in the place of the one with its symbol. -/
def replace (t : ExportTable) (e : ExportEntry) : ExportTable :=
  { t with entries := t.entries.map fun old => if old.decl.symbol == e.decl.symbol then e else old }

/-- Claims the symbol of a declaration. A symbol that is held with a smaller ticket stays as
it is; one that is held with a ticket no smaller changes hands. -/
def claim (t : ExportTable) (ticket : ClaimTicket) (d : Decl) :
    Option ExportCollision × ExportTable :=
  match t.entry? d.symbol with
  | none => (none, { t with entries := t.entries ++ [⟨ticket, d⟩] })
  | some held =>
    if held.ticket.number < ticket.number then (some ⟨held.decl, d⟩, t)
    else (some ⟨d, held.decl⟩, t.replace ⟨ticket, d⟩)

/-- The symbols in use, in the order of their code points. -/
def symbols (t : ExportTable) : List String :=
  (t.entries.map (·.decl.symbol)).mergeSort (fun a b => decide (a ≤ b))

/-- The number of symbols in use. -/
def size (t : ExportTable) : Nat := t.entries.length

/-- Whether no symbol is in use. -/
def isEmpty (t : ExportTable) : Bool := t.entries.isEmpty

end ExportTable

end IncrementalBuild
