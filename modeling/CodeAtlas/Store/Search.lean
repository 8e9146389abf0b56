import CodeAtlas.Store.Read
import CodeAtlas.Text.Folding
import CodeAtlas.Text.Segment

/-!
# Full-text search

* `queryTerms`, `matchExpression`: the terms of a search text, and the expression made of them, in
  which every term is quoted and may be continued.
* `Phrase`: a term as a sequence of tokens, the last of which may be continued.
* `rankedSymbols`: all symbols that match, best first; `searchSymbols`: the first of them.

A phrase matches where its tokens stand one after the other in the name, the signature or the
documentation of a symbol. Matches are ranked by the weight of their phrases: rare phrases count for
more, and so do many occurrences in few tokens. Equal ranks keep the order of the ids.
-/

namespace CodeAtlas

/-- The characters of search terms. -/
def isTermChar (c : Char) : Bool := Text.isAlphanumeric c || c == '_'

/-- The terms of a search text: its maximal runs of letters, digits and underscores. -/
def queryTerms (input : String) : List String :=
  (Text.runs isTermChar input.toList).map String.ofList

/-- The expression that a search text is turned into: each term in quotes, with a star. -/
def matchExpression (input : String) : String :=
  Text.join " " ((queryTerms input).map fun t => "\"" ++ t ++ "\"*")

namespace Store

/-- The tokens of a symbol: those of its name, its signature and its documentation. -/
def indexedTokens (r : SymbolRow) : List (List String) :=
  [Text.tokens r.name, Text.tokens (r.signature.getD ""), Text.tokens (r.documentation.getD "")]

/-- Whether a text starts with another. -/
def continues (start full : String) : Bool := Text.startsWith start.toList full.toList

/-- Whether a phrase stands at the front of a token sequence. Its last token may be continued. -/
def phraseAtFront : List String → List String → Bool
  | [], _ => true
  | [last], t :: _ => continues last t
  | p :: ps, t :: ts => p == t && phraseAtFront ps ts
  | _ :: _, [] => false

/-- How often a phrase occurs in a token sequence. -/
def occurrencesIn (phrase : List String) : List String → Nat
  | [] => 0
  | t :: ts => (if phraseAtFront phrase (t :: ts) then 1 else 0) + occurrencesIn phrase ts

/-- How often a phrase occurs in the columns of a symbol. -/
def occurrences (phrase : List String) (columns : List (List String)) : Nat :=
  total (columns.map (occurrencesIn phrase))

/-- The weight of a phrase that `hits` of `rows` rows contain. -/
def phraseWeight (rows hits : Nat) : Float :=
  let weight := Float.log ((Float.ofNat rows - Float.ofNat hits + 0.5) / (Float.ofNat hits + 0.5))
  if weight > 0 then weight else 1e-6

/-- The score of a row: `average` is the mean number of tokens, `size` the row's, and each phrase
comes with its weight and the number of its occurrences. -/
def score (average : Float) (size : Nat) (phrases : List (Float × Nat)) : Float :=
  phrases.foldl (fun sum (weight, count) =>
    let n := Float.ofNat count
    sum + weight * ((n * (1.2 + 1.0)) / (n + 1.2 * (1 - 0.75 + 0.75 * Float.ofNat size / average))))
    0.0

/-- The rows that contain all phrases, with their scores, best first. -/
def rankedRows (s : Store) (phrases : List (List String)) : List SymbolRow :=
  let rows := s.symbols.map fun r => (r, indexedTokens r)
  let sizes := rows.map fun (_, columns) => total (columns.map List.length)
  let average := Float.ofNat (total sizes) / Float.ofNat rows.length
  let weights := phrases.map fun p =>
    phraseWeight rows.length (rows.countP fun (_, columns) => occurrences p columns > 0)
  let scored := rows.filterMap fun (r, columns) =>
    let counts := phrases.map fun p => occurrences p columns
    if counts.all (· > 0) then
      some (score average (total (columns.map List.length)) (weights.zip counts), r)
    else none
  (sortBy (fun a b => !(a.1 < b.1)) scored).map (·.2)

/-- All symbols that match a search text, best first. -/
def rankedSymbols (s : Store) (input : String) : StoreM (List Symbol) :=
  let phrases := ((queryTerms input).map Text.tokens).filter fun p => !p.isEmpty
  if phrases.isEmpty then pure []
  else
    (s.rankedRows phrases).filterMap (fun r =>
      (s.files.find? (·.id == r.fileId)).map fun f => (f, r)) |>.mapM fun (f, r) =>
        r.decode f.relativePath

end Store

/-- How many rows a limit admits; the larger half of the words stands for no limit. -/
def pageSize (limit : Nat) : Option Nat := if limit < 0x8000000000000000 then some limit else none

/-- The first elements of a list, as many as a limit admits. -/
def takePage {α : Type} (limit : Nat) (xs : List α) : List α :=
  match pageSize limit with
  | some n => xs.take n
  | none => xs

/-- The best symbols that match a search text. Only the symbols on the page are read. -/
def Store.searchSymbols (s : Store) (input : String) (limit : Nat) : StoreM (List Symbol) :=
  let phrases := ((queryTerms input).map Text.tokens).filter fun p => !p.isEmpty
  if phrases.isEmpty then pure []
  else
    takePage limit ((s.rankedRows phrases).filterMap fun r =>
      (s.files.find? (·.id == r.fileId)).map fun f => (f, r)) |>.mapM fun (f, r) =>
        r.decode f.relativePath

end CodeAtlas
