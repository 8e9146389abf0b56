import CodeAtlas.Proofs.Locals
import CodeAtlas.Proofs.Spans

/-!
# Declarations with the same bytes

What is recorded of a declaration is read off its node, apart from comments, from the type it belongs
to, and from the visibility of the trait around it. So declarations with the same bytes are recorded
alike, if the trees of their texts read declarations alike.

* `Go.Tells`, `Python.Tells`, `Rust.Tells`: a declaration records what its node tells.
* `SyntaxTree.Agree`: two trees read declarations alike.
* `SyntaxTree.Inherits`: the declarations whose visibility comes from the trait around them.
* `RecordedAlike`: two declarations are recorded alike.
* **`SyntaxTree.alike`**: so are declarations with the same name, kind and bytes.
-/

namespace CodeAtlas

open Syntax Outline

/-- Two declarations are recorded alike: they are signed alike, and what else is recorded of them is
the same apart from the comment and the type they belong to, and from visibility where one of them may
inherit it. -/
structure RecordedAlike (inherits : Prop) (e d : Declaration) : Prop where
  signature : e.signature = d.signature
  visibility : ¬ inherits → e.visibility = d.visibility
  metadata : ∀ k, k ≠ "owner" → (k = "exported" → ¬ inherits) → e.metadata.get? k = d.metadata.get? k

/-- The bytes of a declaration are those of the node that it takes up. -/
theorem Declaration.bytes_eq {κ φ : Type} {src : Source} {d : Declaration} {n : Tree κ φ}
    (h : d.range = rangeOf n.span) : d.bytes src = n.bytes src := by
  rw [Declaration.bytes, h]
  rfl

section RecordedAlike

variable {v₁ v₂ : Source} {d e : Declaration}

/-! ## Go -/

namespace Outline.Go

open Syntax.Go

/-- The nodes that declare functions and methods. -/
def declaring : List (Label Kind) := [.kind .functionDecl, .kind .methodDecl, .kind .methodElem]

/-- How the node of a function or a method is signed: up to its body, or in an interface by all of its
text. -/
def signed (src : Source) (n : Node) : Option String :=
  if n.label == .kind .methodElem then (n.text? src).map Text.trim else signatureBefore src n .body

theorem local_signed : Tree.Local signed := by
  intro src t ht
  rw [signed, signed, Tree.label_own, Tree.text?_own ht, Tree.signatureBefore_own ht]

/-- What a name tells. -/
def flagged (name : String) : Json := .object [("exported", .bool (isExportedName name))]

/-- What the node of a function or a method tells beside its signature. -/
def noted (src : Source) (n : Node) (name : String) : Json :=
  match receiver? src n with
  | some r => (flagged name).set "receiver" (.str r)
  | none => flagged name

/-- A declaration of Go records what its node tells. Beside this, only the type that it belongs to is
recorded. -/
structure Tells (src : Source) (root : Node) (d : Declaration) : Prop where
  plain : Language.go.signs? d.kind ≠ none → ∀ k, k ≠ "owner" →
    d.metadata.get? k = (flagged d.name).get? k
  node : Language.go.signs? d.kind = none → ∃ n ∈ root.nodes, n.label ∈ declaring ∧
    d.range = rangeOf n.span ∧ d.signature = signed src n ∧
    ∀ k, k ≠ "owner" → d.metadata.get? k = (noted src n d.name).get? k

variable {src : Source} {root : Node}

theorem tells_of_plain {d : Declaration} (hkind : Language.go.signs? d.kind ≠ none)
    (h : ∀ k, k ≠ "owner" → d.metadata.get? k = (flagged d.name).get? k) : Tells src root d :=
  ⟨fun _ => h, fun hnone => absurd hnone hkind⟩

/-- **The parts of what nodes of Go show record what their nodes tell.** -/
theorem parts_tells : Parts src root (Declared (Tells src root)) where
  additive := additive_declared
  links := links_declared _
  imports := declared_importOf
  function := by
    intro t ht hlabel before name
    have hsigned : signed src t = signatureBefore src t .body := by
      simp only [List.mem_cons, List.not_mem_nil, or_false] at hlabel
      rcases hlabel with hlabel | hlabel <;> simp [signed, hlabel]
    refine declared_singleton.mpr ⟨fun hkind => absurd ?_ hkind, fun _ => ⟨t, ht, ?_, rfl,
      hsigned.symm, fun _ _ => rfl⟩⟩
    · unfold functionSymbol
      dsimp only [symbol, declaration]
      split <;> rfl
    · simp only [List.mem_cons, List.not_mem_nil, or_false] at hlabel
      rcases hlabel with hlabel | hlabel <;> simp [declaring, hlabel]
  member := by
    intro t ht kind hkind owner before name
    have howned : ∀ k, k ≠ "owner" → ((flagged name).set "owner" (.str owner)).get? k =
        (flagged name).get? k := fun k hk => Json.get?_set_ne _ _ hk.symm
    simp only [List.mem_cons, Prod.mk.injEq, List.not_mem_nil, or_false] at hkind
    rcases hkind with ⟨hlabel, rfl⟩ | ⟨hlabel, rfl⟩
    · exact declared_singleton.mpr (tells_of_plain (Option.some_ne_none _) howned)
    · refine declared_singleton.mpr ⟨fun hkind => absurd ?_ hkind, fun _ => ⟨t, ht, ?_, rfl, ?_, ?_⟩⟩
      · rfl
      · simp [declaring, hlabel]
      · simp [ownedBy, signed, hlabel]
      · have hreceiver : receiver? src t = none := by
          rw [receiver?, hlabel]
          rfl
        have hnoted : noted src t name = flagged name := by rw [noted, hreceiver]
        exact fun k hk => (howned k hk).trans (by rw [← hnoted]; rfl)
  type := by
    intro t before name kind hkind
    refine declared_singleton.mpr (tells_of_plain ?_ fun _ _ => rfl)
    simp only [List.mem_cons, List.not_mem_nil, or_false] at hkind
    rcases hkind with rfl | rfl | rfl <;> exact Option.some_ne_none _
  value := by
    intro t decl before name kind hkind
    refine declared_singleton.mpr (tells_of_plain ?_ fun _ _ => rfl)
    simp only [List.mem_cons, List.not_mem_nil, or_false] at hkind
    rcases hkind with rfl | rfl <;> exact Option.some_ne_none _

/-- **Declarations of Go with the same name, kind and bytes are recorded alike.** -/
theorem alike {root₁ root₂ : Node} (h : root₁.Agree declaring v₁ v₂ root₂) (he : Tells v₁ root₁ e)
    (hd : Tells v₂ root₂ d) (hre : Rooted .go v₁ e) (hrd : Rooted .go v₂ d) (hname : e.name = d.name)
    (hkind : e.kind = d.kind) (hbytes : e.bytes v₁ = d.bytes v₂) (inherits : Prop) :
    RecordedAlike inherits e d := by
  have hvisibility := (hre.exported_eq hrd hname (by decide)).1
  by_cases hsigns : Language.go.signs? d.kind = none
  · obtain ⟨n₁, hn₁, hl₁, hrange₁, hsigned₁, hnoted₁⟩ := he.node (hkind ▸ hsigns)
    obtain ⟨n₂, hn₂, hl₂, hrange₂, hsigned₂, hnoted₂⟩ := hd.node hsigns
    rw [Declaration.bytes_eq hrange₁, Declaration.bytes_eq hrange₂] at hbytes
    refine ⟨?_, fun _ => hvisibility, fun k hk _ => ?_⟩
    · rw [hsigned₁, hsigned₂, h.eq local_signed hn₁ hn₂ hl₁ hl₂ hbytes]
    · rw [hnoted₁ k hk, hnoted₂ k hk, noted, noted, hname,
        h.eq local_receiver? hn₁ hn₂ hl₁ hl₂ hbytes]
  · refine ⟨?_, fun _ => hvisibility, fun k hk _ => ?_⟩
    · exact hre.signature_eq hrd hname hkind hbytes (Option.isSome_iff_ne_none.mpr hsigns)
    · rw [he.plain (hkind ▸ hsigns) k hk, hd.plain hsigns k hk, hname]

end Outline.Go

/-! ## Python -/

namespace Outline.Python

open Syntax.Python

/-- The nodes that declare functions, methods and classes. -/
def declaring : List (Label Kind) := [.kind .functionDef, .kind .classDef, .kind .decorated]

/-- The kinds of symbols that have a body. -/
def bodied : List SymbolKind := [.function, .method, .classType]

/-- An assignment takes up all of its statement. -/
def Whole (root : Node) : Prop :=
  ∀ n ∈ root.nodes, n.label = .kind .exprStatement → ∀ t ∈ n.children,
    t.label = .kind .assignment → t.span = n.span

instance (root : Node) : Decidable (Whole root) :=
  inferInstanceAs (Decidable (∀ n ∈ root.nodes, n.label = .kind .exprStatement → ∀ t ∈ n.children,
    t.label = .kind .assignment → t.span = n.span))

/-- A declaration of Python records what its node tells. Beside this, only the class that it belongs
to and a comment are recorded. -/
structure Tells (src : Source) (root : Node) (d : Declaration) : Prop where
  metadata : ∀ k, k ≠ "owner" →
    d.metadata.get? k = (Json.object [("exported", .bool (isExportedName d.name))]).get? k
  plain : d.kind ∉ bodied → Whole root →
    d.signature = (Language.firstLine (d.bytes src)).map Text.trim
  node : d.kind ∈ bodied → ∃ n ∈ root.nodes, n.label ∈ declaring ∧ d.range = rangeOf n.span ∧
    d.signature = signatureAt src n ∧ ∃ comment, d.documentation = (docstringAt src n).or comment

variable {src : Source} {root : Node}

theorem symbol_metadata (site : Site) (name : String) (kind : SymbolKind) (owner : Option String)
    {k : String} (hk : k ≠ "owner") : (symbol src site name kind owner).metadata.get? k =
      (Json.object [("exported", .bool (isExportedName name))]).get? k := by
  cases owner with
  | none => rfl
  | some c => exact Json.get?_set_ne (.object [("exported", .bool (isExportedName name))]) _ hk.symm

/-- The node that a definition takes up is the definition, or decorates it. -/
theorem Sits.exists_definition {t : Node} {site : Site} (h : Sits root t site) (ht : t ∈ root.nodes)
    (hlabel : t.label ∈ [.kind .functionDef, .kind .classDef]) :
    ∃ n ∈ root.nodes, n.label ∈ declaring ∧ site.span = n.span ∧ definitionAt n = some t := by
  simp only [List.mem_cons, List.not_mem_nil, or_false] at hlabel
  cases h with
  | alone h =>
    refine ⟨t, ht, ?_, h, ?_⟩
    · rcases hlabel with hlabel | hlabel <;> simp [declaring, hlabel]
    · rcases hlabel with hlabel | hlabel <;> simp [definitionAt, hlabel]
  | decorated n hn hl hc _ h =>
    exact ⟨n, hn, by simp [declaring, hl], h, by simp [definitionAt, hl, hc]⟩
  | statement n hn hl hc hassigned h =>
    rcases hlabel with hlabel | hlabel <;> rw [hassigned] at hlabel <;> cases hlabel

/-- An assignment that takes up all of its statement takes up its own span. -/
theorem Sits.span_eq {t : Node} {site : Site} (h : Sits root t site) (hwhole : Whole root)
    (hlabel : t.label = .kind .assignment) : site.span = t.span := by
  cases h with
  | alone h => exact h
  | decorated n hn hl hc hdefinition _ => simp [hlabel] at hdefinition
  | statement n hn hl hc _ h => exact h.trans (hwhole n hn hl t hc hlabel).symm

/-- **The parts of what nodes of Python show record what their nodes tell.** -/
theorem parts_tells : Parts src root (Declared (Tells src root)) where
  additive := additive_declared
  links := links_declared _
  imports := declared_importOf
  definition := by
    intro t ht hlabel site hsite name kind owner hkind
    obtain ⟨n, hn, hdeclaring, hspan, hdefinition⟩ := hsite.exists_definition ht hlabel
    refine declared_singleton.mpr ⟨fun k hk => @symbol_metadata src site name kind owner k hk,
      fun hplain => absurd hkind hplain, fun _ => ⟨n, hn, hdeclaring, ?_, ?_, site.comment src, ?_⟩⟩
    · rw [← hspan]
      rfl
    · simp [signatureAt, hdefinition]
    · simp [docstringAt, hdefinition]
  assigned := by
    intro t ht site hsite name kind owner hkind
    refine declared_singleton.mpr ⟨fun k hk => @symbol_metadata src site name kind owner k hk,
      fun _ hwhole => ?_, fun hbodied => ?_⟩
    · have hspan := hsite.span_eq hwhole ht
      simp only [Declaration.bytes, symbol, declaration, rangeOf, hspan]
      rfl
    · simp only [symbol, declaration, bodied, List.mem_cons, List.not_mem_nil, or_false]
        at hbodied hkind
      rcases hkind with rfl | rfl | rfl <;> simp at hbodied

/-- **Declarations of Python with the same name, kind and bytes are recorded alike.** -/
theorem alike {root₁ root₂ : Node} (h : root₁.Agree declaring v₁ v₂ root₂) (hw₁ : Whole root₁)
    (hw₂ : Whole root₂) (he : Tells v₁ root₁ e) (hd : Tells v₂ root₂ d)
    (hre : Rooted .python v₁ e) (hrd : Rooted .python v₂ d) (hname : e.name = d.name)
    (hkind : e.kind = d.kind) (hbytes : e.bytes v₁ = d.bytes v₂) (inherits : Prop) :
    RecordedAlike inherits e d := by
  refine ⟨?_, fun _ => (hre.exported_eq hrd hname (by decide)).1, fun k hk _ => ?_⟩
  · by_cases hbodied : d.kind ∈ bodied
    · obtain ⟨n₁, hn₁, hl₁, hrange₁, hsigned₁, -⟩ := he.node (hkind ▸ hbodied)
      obtain ⟨n₂, hn₂, hl₂, hrange₂, hsigned₂, -⟩ := hd.node hbodied
      rw [Declaration.bytes_eq hrange₁, Declaration.bytes_eq hrange₂] at hbytes
      rw [hsigned₁, hsigned₂, h.eq local_signatureAt hn₁ hn₂ hl₁ hl₂ hbytes]
    · rw [he.plain (hkind ▸ hbodied) hw₁, hd.plain hbodied hw₂, hbytes]
  · rw [he.metadata k hk, hd.metadata k hk, hname]

/-- Docstrings are recorded alike. -/
theorem documents {root₁ root₂ : Node} (h : root₁.Agree declaring v₁ v₂ root₂)
    (he : Tells v₁ root₁ e) (hd : Tells v₂ root₂ d) (hkind : e.kind = d.kind)
    (hbytes : e.bytes v₁ = d.bytes v₂) (hbodied : d.kind ∈ bodied) :
    ∃ n ∈ root₂.nodes, n.label ∈ declaring ∧ rangeOf n.span = d.range ∧
      ∀ doc, docstringAt v₂ n = some doc → e.documentation = some doc := by
  obtain ⟨n₁, hn₁, hl₁, hrange₁, -, comment, hdoc⟩ := he.node (hkind ▸ hbodied)
  obtain ⟨n₂, hn₂, hl₂, hrange₂, -⟩ := hd.node hbodied
  rw [Declaration.bytes_eq hrange₁, Declaration.bytes_eq hrange₂] at hbytes
  refine ⟨n₂, hn₂, hl₂, hrange₂.symm, fun doc hdoc₂ => ?_⟩
  rw [hdoc, h.eq local_docstringAt hn₁ hn₂ hl₁ hl₂ hbytes, hdoc₂, Option.some_or]

end Outline.Python

/-! ## Rust -/

namespace Outline.Rust

open Syntax.Rust

/-- The nodes that declare something. -/
def declaring : List (Label Kind) :=
  [.kind .functionItem, .kind .functionSignature, .kind .structItem, .kind .traitItem,
    .kind .fieldDecl, .kind .modItem] ++ namedLabels

/-- How the node of an item with a body is signed. -/
def signed (kind : SymbolKind) (src : Source) (n : Node) : Option String :=
  match kind with
  | .function | .method => (signatureBefore src n .body).map (Text.trimTail (· == ';'))
  | _ => signatureBefore src n .body

theorem local_signed (kind : SymbolKind) : Tree.Local (signed kind) := by
  intro src t ht
  unfold signed
  rw [Tree.signatureBefore_own ht]

/-- A declaration of Rust records what its node tells. Beside this, only the type that it belongs to,
a comment and the visibility of the trait around it are recorded. -/
structure Tells (src : Source) (root : Node) (d : Declaration) : Prop where
  metadata : ∀ k, k ≠ "owner" →
    d.metadata.get? k = (Json.object [("exported", .bool (d.visibility == .visible))]).get? k
  node : ∃ n ∈ root.nodes, n.label ∈ declaring ∧ d.range = rangeOf n.span ∧
    (Language.rust.signs? d.kind = none → d.signature = signed d.kind src n) ∧
    (d.visibility = visibility src n ∨ Inherits root n)

variable {src : Source} {root : Node}

/-- A symbol records what its node tells, however it is signed if it has no body. -/
theorem tells_symbol (scope : Scope) (t : Node) (ht : Stands root scope.inherited t)
    (hlabel : t.label ∈ declaring) (before : List Node) (name : String) (kind : SymbolKind)
    {signature : Option String}
    (hsigned : Language.rust.signs? kind = none → signature = signed kind src t) :
    Tells src root { symbol src scope t before name kind with signature } where
  metadata := by
    intro k hk
    obtain ⟨source, owner, inherited⟩ := scope
    cases owner with
    | none => rfl
    | some owner =>
      exact Json.get?_set_ne
        (.object [("exported", .bool (inherited.getD (visibility src t) == .visible))]) _ hk.symm
  node := by
    refine ⟨t, ht.mem, hlabel, rfl, hsigned, ?_⟩
    cases hinherited : scope.inherited with
    | none => exact Or.inl (by simp [symbol, hinherited])
    | some v => exact Or.inr (ht.inherits (by simp [hinherited]))

/-- **The parts of what nodes of Rust show record what their nodes tell.** -/
theorem parts_tells : Parts src root (Declared (Tells src root)) where
  additive := additive_declared
  links := links_declared _
  imports := declared_importOf
  function := by
    intro scope t ht hlabel before name kind hkind
    refine declared_singleton.mpr (tells_symbol scope t ht ?_ before name kind fun _ => ?_)
    · simp only [List.mem_cons, List.not_mem_nil, or_false] at hlabel
      rcases hlabel with hlabel | hlabel <;> simp [declaring, hlabel]
    · simp only [List.mem_cons, List.not_mem_nil, or_false] at hkind
      rcases hkind with rfl | rfl <;> rfl
  type := by
    intro t ht hlabel before name kind hkind
    refine declared_singleton.mpr
      (tells_symbol {} t ⟨ht, by simp⟩ ?_ before name kind fun _ => ?_)
    · simp only [List.mem_cons, List.not_mem_nil, or_false] at hlabel
      rcases hlabel with hlabel | hlabel <;> simp [declaring, hlabel]
    · simp only [List.mem_cons, List.not_mem_nil, or_false] at hkind
      rcases hkind with rfl | rfl <;> rfl
  field := fun t ht hlabel owner before name => declared_singleton.mpr
    (tells_symbol { owner := some owner } t ⟨ht, by simp⟩ (by simp [declaring, hlabel])
      before name .field (by simp [Language.signs?]))
  modules := fun t ht hlabel before name => declared_singleton.mpr
    (tells_symbol {} t ⟨ht, by simp⟩ (by simp [declaring, hlabel]) before name .moduleUnit
      (by simp [Language.signs?]))
  named := by
    intro scope t ht hlabel before name kind hkind
    refine declared_singleton.mpr
      (tells_symbol scope t ht (List.mem_append_right _ hlabel) before name kind fun hnone => ?_)
    -- only enumerations are cut at a body
    simp only [namedKinds, List.mem_cons, List.not_mem_nil, or_false] at hkind
    rcases hkind with rfl | rfl | rfl | rfl <;> first | rfl | cases hnone

/-- **Declarations of Rust with the same name, kind and bytes are recorded alike**, where they do not
inherit. -/
theorem alike {root₁ root₂ : Node} (h : root₁.Agree declaring v₁ v₂ root₂) (he : Tells v₁ root₁ e)
    (hd : Tells v₂ root₂ d) (hre : Rooted .rust v₁ e) (hrd : Rooted .rust v₂ d)
    (hname : e.name = d.name) (hkind : e.kind = d.kind) (hbytes : e.bytes v₁ = d.bytes v₂) :
    RecordedAlike ((∃ n, Inherits root₁ n ∧ rangeOf n.span = e.range) ∨
      ∃ n, Inherits root₂ n ∧ rangeOf n.span = d.range) e d := by
  obtain ⟨n₁, hn₁, hl₁, hrange₁, hsigned₁, hvisible₁⟩ := he.node
  obtain ⟨n₂, hn₂, hl₂, hrange₂, hsigned₂, hvisible₂⟩ := hd.node
  have hnodes : n₁.bytes v₁ = n₂.bytes v₂ := by
    rw [← Declaration.bytes_eq hrange₁, ← Declaration.bytes_eq hrange₂, hbytes]
  have hvisibility : ¬ ((∃ n, Inherits root₁ n ∧ rangeOf n.span = e.range) ∨
      ∃ n, Inherits root₂ n ∧ rangeOf n.span = d.range) → e.visibility = d.visibility := by
    intro hnot
    rw [hvisible₁.resolve_right fun hin => hnot (.inl ⟨n₁, hin, hrange₁.symm⟩),
      hvisible₂.resolve_right fun hin => hnot (.inr ⟨n₂, hin, hrange₂.symm⟩),
      h.eq local_visibility hn₁ hn₂ hl₁ hl₂ hnodes]
  refine ⟨?_, hvisibility, fun k hk hflag => ?_⟩
  · by_cases hsigns : Language.rust.signs? d.kind = none
    · rw [hsigned₁ (hkind ▸ hsigns), hsigned₂ hsigns, hkind,
        h.eq (local_signed _) hn₁ hn₂ hl₁ hl₂ hnodes]
    · exact hre.signature_eq hrd hname hkind hbytes (Option.isSome_iff_ne_none.mpr hsigns)
  · rw [he.metadata k hk, hd.metadata k hk]
    by_cases hexported : k = "exported"
    · rw [hvisibility (hflag hexported)]
    · simp [Json.object, Json.insertMember, Json.get?, Ne.symm hexported]

end Outline.Rust

/-! ## All languages -/

namespace SyntaxTree

/-- **Two texts with their trees read declarations alike.** What a grammar makes of a declaration
depends on its bytes only: declaring nodes with the same bytes are the same by themselves. Nodes lie in
their parents, and an assignment takes up its statement. -/
def Agree (v₁ v₂ : Source) : SyntaxTree → SyntaxTree → Prop
  | go t₁, go t₂ => t₁.Agree Go.declaring v₁ v₂ t₂
  | python t₁, python t₂ =>
    t₁.Agree Python.declaring v₁ v₂ t₂ ∧ Python.Whole t₁ ∧ Python.Whole t₂
  | rust t₁, rust t₂ => t₁.Agree Rust.declaring v₁ v₂ t₂
  | _, _ => False

instance (v₁ v₂ : Source) : (tree₁ tree₂ : SyntaxTree) → Decidable (tree₁.Agree v₁ v₂ tree₂)
  | go t₁, go t₂ => inferInstanceAs (Decidable (t₁.Agree Go.declaring v₁ v₂ t₂))
  | python t₁, python t₂ => inferInstanceAs (Decidable
    (t₁.Agree Python.declaring v₁ v₂ t₂ ∧ Python.Whole t₁ ∧ Python.Whole t₂))
  | rust t₁, rust t₂ => inferInstanceAs (Decidable (t₁.Agree Rust.declaring v₁ v₂ t₂))
  | go _, python _ | go _, rust _ | python _, go _ | python _, rust _ | rust _, go _
  | rust _, python _ => isFalse not_false

/-- A declaration of Rust inside a trait or an implementation of one, whose visibility comes from
there. -/
def Inherits : SyntaxTree → Declaration → Prop
  | rust root, d => ∃ n, Rust.Inherits root n ∧ rangeOf n.span = d.range
  | _, _ => False

/-- The docstring of a definition of Python is recorded as its documentation. -/
def Documents (src : Source) (d : Declaration) (documentation : Option String) : SyntaxTree → Prop
  | python root => d.kind ∈ Python.bodied → ∃ n ∈ root.nodes, n.label ∈ Python.declaring ∧
    rangeOf n.span = d.range ∧ ∀ doc, Python.docstringAt src n = some doc → documentation = some doc
  | _ => True

/-- What the nodes of a tree tell of a declaration. -/
def Tells (src : Source) : SyntaxTree → Declaration → Prop
  | go root, d => Go.Tells src root d
  | python root, d => Python.Tells src root d
  | rust root, d => Rust.Tells src root d

variable {tree tree₁ tree₂ : SyntaxTree} {src : Source}

/-- **Every declaration of a syntax tree records what its node tells.** -/
theorem tells (hd : d ∈ (tree.outline src).symbols) : tree.Tells src d := by
  have hfact := declares_mem_of_ofFacts hd
  cases tree with
  | go t => exact Go.parts_tells.shows.walk none [] t t.mem_nodes_self d hfact
  | python t => exact Python.parts_tells.shows.walk {} none [] t t.mem_nodes_self (by simp) d hfact
  | rust t => exact Rust.parts_tells.shows.walk {} [] t ⟨t.mem_nodes_self, by simp⟩ d hfact

/-- **Declarations with the same name, kind and bytes are recorded alike**, if the trees read
declarations alike. -/
theorem alike (h : tree₁.Agree v₁ v₂ tree₂) (he : e ∈ (tree₁.outline v₁).symbols)
    (hd : d ∈ (tree₂.outline v₂).symbols) (hname : e.name = d.name) (hkind : e.kind = d.kind)
    (hbytes : e.bytes v₁ = d.bytes v₂) :
    RecordedAlike (tree₁.Inherits e ∨ tree₂.Inherits d) e d ∧ tree₂.Documents v₂ d e.documentation := by
  have hte := tells he
  have htd := tells hd
  have hre := rooted he
  have hrd := rooted hd
  cases tree₁ <;> cases tree₂ <;> try exact absurd h not_false
  · exact ⟨Go.alike h hte htd hre hrd hname hkind hbytes _, trivial⟩
  · obtain ⟨hagree, hw₁, hw₂⟩ := h
    exact ⟨Python.alike hagree hw₁ hw₂ hte htd hre hrd hname hkind hbytes _,
      Python.documents hagree hte htd hkind hbytes⟩
  · exact ⟨Rust.alike h hte htd hre hrd hname hkind hbytes, trivial⟩

/-- A declaration documents itself. -/
theorem documents_self (hd : d ∈ (tree.outline src).symbols) :
    tree.Documents src d d.documentation := by
  have htd := tells hd
  cases tree with
  | go root => trivial
  | rust root => trivial
  | python root =>
    intro hbodied
    obtain ⟨n, hn, hl, hrange, -, comment, hdoc⟩ := Python.Tells.node htd hbodied
    refine ⟨n, hn, hl, hrange.symm, fun doc hdoc' => ?_⟩
    rw [hdoc, hdoc', Option.some_or]

end SyntaxTree

end RecordedAlike

end CodeAtlas
