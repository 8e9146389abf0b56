import CodeAtlas.Store.Basic

/-!
# Stored symbols and declared ones

A file that is stored again keeps the rows of the symbols it still declares.

* `reconcile`: matches declarations with the stored rows of the same name and kind, earlier rows
  first, and says what becomes of each.
* `WriteStats`: what a write touched.
-/

namespace CodeAtlas

/-- What a write touched. -/
structure WriteStats where
  filesWritten : Nat := 0
  symbolsInserted : Nat := 0
  symbolsUpdated : Nat := 0
  symbolsUnchanged : Nat := 0
  /-- Symbols with the same content at another place. -/
  symbolsMoved : Nat := 0
  symbolsRemoved : Nat := 0
  importsWritten : Nat := 0
  relationshipsWritten : Nat := 0
  referencesWritten : Nat := 0
  deriving DecidableEq, Inhabited

namespace WriteStats

/-- Rows of symbols that were inserted or rewritten. -/
def symbolsWritten (w : WriteStats) : Nat := w.symbolsInserted + w.symbolsUpdated

/-- The sum of two counts. -/
def merge (a b : WriteStats) : WriteStats where
  filesWritten := a.filesWritten + b.filesWritten
  symbolsInserted := a.symbolsInserted + b.symbolsInserted
  symbolsUpdated := a.symbolsUpdated + b.symbolsUpdated
  symbolsUnchanged := a.symbolsUnchanged + b.symbolsUnchanged
  symbolsMoved := a.symbolsMoved + b.symbolsMoved
  symbolsRemoved := a.symbolsRemoved + b.symbolsRemoved
  importsWritten := a.importsWritten + b.importsWritten
  relationshipsWritten := a.relationshipsWritten + b.relationshipsWritten
  referencesWritten := a.referencesWritten + b.referencesWritten

end WriteStats

/-- What becomes of a declaration. -/
inductive Fate where
  /-- The row stays as it is. -/
  | kept
  /-- The row has the same content at another place. -/
  | moved
  /-- The row has other content. -/
  | updated
  /-- The row is new. -/
  | inserted
  deriving DecidableEq, Inhabited

/-- Drops the flaws of columns that are written. -/
def mend (columns : List String) (flaws : List Flaw) : List Flaw :=
  flaws.filter fun f => !columns.contains f.column

/-- Moves a row to another place. -/
def SymbolRow.move (r : SymbolRow) (range : Range) : SymbolRow :=
  { r with range, flaws := mend rangeNames r.flaws }

/-- Rewrites a row from a declaration; name, kind and workflow stay. -/
def SymbolRow.rewrite (r : SymbolRow) (d : Declaration) : SymbolRow :=
  { r with
    signature := d.signature, documentation := d.documentation, visibility := d.visibility
    range := d.range, contentHash := d.contentHash, metadata := d.metadata
    flaws := mend ("visibility" :: rangeNames) r.flaws }

/-- Whether a row stands for a declaration of a name and kind. -/
def SymbolRow.standsFor (r : SymbolRow) (d : Declaration) : Bool :=
  r.name == d.name && r.kind == d.kind && !r.flaws.any (·.column == "kind")

/-- Takes the first element satisfying `p` out of a list. -/
def takeFirst {α : Type} (p : α → Bool) : List α → Option (α × List α)
  | [] => none
  | a :: as => if p a then some (a, as) else (takeFirst p as).map fun (b, bs) => (b, a :: bs)

/-- The row of a declaration that is matched with a stored row. -/
def SymbolRow.update (r : SymbolRow) (d : Declaration) : Fate × SymbolRow :=
  if r.contentHash == d.contentHash then
    if r.range == d.range then (.kept, r) else (.moved, r.move d.range)
  else (.updated, r.rewrite d)

/-- What reconciling gives: for each declaration its fate and its row, in order; the stored rows that
are left over; and the last id given out. -/
structure Reconciled where
  rows : List (Fate × SymbolRow)
  removed : List SymbolRow
  last : Int
  deriving Inhabited

/-- Matches declarations in order with stored rows in order. -/
def reconcile (fileId : Int) : Int → List SymbolRow → List Declaration → Reconciled
  | last, stored, [] => ⟨[], stored, last⟩
  | last, stored, d :: ds =>
    match takeFirst (·.standsFor d) stored with
    | some (r, stored) =>
      let rest := reconcile fileId last stored ds
      { rest with rows := r.update d :: rest.rows }
    | none =>
      let rest := reconcile fileId (last + 1) stored ds
      { rest with
        rows := (.inserted, { toDeclaration := d, id := last + 1, fileId }) :: rest.rows }

namespace Reconciled

/-- The number of declarations with a fate. -/
def count (r : Reconciled) (fate : Fate) : Nat := (r.rows.filter (·.1 == fate)).length

/-- The id of the first declaration of a name. -/
def localId? (r : Reconciled) (name : String) : Option Int :=
  (r.rows.find? (·.2.name == name)).map (·.2.id)

end Reconciled

end CodeAtlas
