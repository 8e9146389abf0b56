import Mathlib.Data.Option.Basic
import CodeAtlas.Proofs.Facts

/-!
# Parts of what nodes show

What a node shows by itself is put together from declarations of a few forms, imports, and links of
names. So a property of these parts is one of all facts of a source text.

* `UseKind.edges`: the edges that a use of a kind makes.
* `Outline.Links`: all links of a language have a property of lists of facts.
* `Go.Parts`, `Python.Parts`, `Rust.Parts`: all parts that the nodes of a tree show have it.
* **`Go.Parts.shows`**, **`Python.Parts.shows`**, **`Rust.Parts.shows`**: so has what nodes show.
-/

namespace CodeAtlas

open Syntax

/-- The edges that a use of a kind makes. -/
def UseKind.edges : UseKind → List EdgeKind
  | call => [.calls]
  | construct => [.uses]
  | use => [.uses, .inherits, .implements, .composes]

namespace Outline

theorem plainEdge_mem (kind : UseKind) : plainEdge kind ∈ kind.edges := by
  cases kind <;> decide

/-- Every link of a name, by a use of any kind that makes any of its edges, has a property. -/
def Links (builtins : List String) (Q : List Fact → Prop) : Prop :=
  ∀ kind : UseKind, ∀ edge ∈ kind.edges, ∀ source name qualifier place,
    Q (link builtins kind edge source name qualifier place)

variable {src : Source} {Q : List Fact → Prop}

/-- So have the plain uses of names. -/
theorem Links.use {builtins : List String} (h : Links builtins Q) (kind : UseKind)
    (source : Option String) (name : String) (qualifier : Option String) (place : Point) :
    Q (link builtins kind (plainEdge kind) source name qualifier place) :=
  h kind _ (plainEdge_mem kind) source name qualifier place

/-! ## Go -/

namespace Go

open Syntax.Go

/-- The parts of what the nodes of a tree of Go show have a property. -/
structure Parts (src : Source) (root : Node) (Q : List Fact → Prop) : Prop where
  additive : Additive Q
  links : Links builtins Q
  imports : ∀ span i, Q [importOf span i]
  function : ∀ t ∈ root.nodes, t.label ∈ [.kind .functionDecl, .kind .methodDecl] → ∀ before name,
    Q [.declares (functionSymbol src t before name)]
  member : ∀ t ∈ root.nodes, ∀ kind,
    (t.label, kind) ∈ [(.kind .fieldDecl, SymbolKind.field), (.kind .methodElem, .method)] →
    ∀ owner before name, Q [.declares (ownedBy owner { symbol src t t before name kind with
      signature := (t.text? src).map Text.trim })]
  type : ∀ t before name, ∀ kind ∈ [SymbolKind.structType, .interfaceType, .plainType], Q [.declares
    { symbol src t t before name kind with signature := some ("type " ++ name) }]
  value : ∀ t decl before name, ∀ kind ∈ [SymbolKind.constant, .global], Q [.declares
    { symbol src t decl before name kind with signature := firstLine? src t }]

namespace Parts

variable {root : Node}

theorem linkTypes (h : Parts src root Q) (owner : String) {edge : EdgeKind}
    (hedge : edge ∈ UseKind.use.edges) (t : Node) : Q (linkTypes src owner edge t) :=
  h.additive.flatMap fun _ _ => h.links _ _ hedge _ _ _ _

mutual

theorem useHead (h : Parts src root Q) (kind : UseKind) (source : Option String) :
    ∀ t : Node, Q (useHead src kind source t)
  | .node label role span children => by
    unfold Go.useHead
    dsimp only
    split
    · exact h.additive.getD_map (fun _ => h.links.use _ _ _ _ _) _
    · exact h.additive.getD_map (fun _ => h.links.use _ _ _ _ _) _
    · split
      · exact h.useHeadTyped kind source children
      · exact h.useHeadFirst kind source children
    · split
      · exact h.useHeadTyped kind source children
      · exact h.useHeadFirst kind source children
    · exact h.additive.nil
termination_by structural t => t

theorem useHeadTyped (h : Parts src root Q) (kind : UseKind) (source : Option String) :
    ∀ ts : List Node, Q (useHeadTyped src kind source ts)
  | [] => by rw [Go.useHeadTyped]; exact h.additive.nil
  | t :: ts => by
    rw [Go.useHeadTyped]
    split
    · exact h.useHead kind source t
    · exact h.useHeadTyped kind source ts
termination_by structural ts => ts

theorem useHeadFirst (h : Parts src root Q) (kind : UseKind) (source : Option String) :
    ∀ ts : List Node, Q (useHeadFirst src kind source ts)
  | [] => by rw [Go.useHeadFirst]; exact h.additive.nil
  | t :: ts => by
    rw [Go.useHeadFirst]
    split
    · exact h.useHead kind source t
    · exact h.useHeadFirst kind source ts
termination_by structural ts => ts

end

theorem functionFacts (h : Parts src root Q) (t : Node) (ht : t ∈ root.nodes)
    (hlabel : t.label ∈ [.kind .functionDecl, .kind .methodDecl]) (before : List Node)
    (name : String) : Q (functionFacts src t before name) := by
  refine h.additive.cons (h.function t ht hlabel before name) (h.additive.flatMap fun role _ => ?_)
  split
  · exact h.linkTypes _ (by decide) _
  · exact h.additive.nil

theorem fieldFacts (h : Parts src root Q) (owner : String) (t : Node) (ht : t ∈ root.nodes) :
    Q (fieldFacts src owner t) := by
  unfold Go.fieldFacts
  split
  · exact h.additive.nil
  · next list hlist =>
    refine h.additive.flatMap fun f hf => ?_
    have hmem : f.2 ∈ root.nodes := Tree.mem_nodes_of_mem_children (mem_of_mem_sitedChildren hf) root
      (Tree.mem_nodes_of_find? root t ht hlist)
    dsimp only
    split
    · exact h.additive.nil
    · next hlabel =>
      have hlabel : f.2.label = .kind .fieldDecl := by simpa using hlabel
      split
      · exact h.additive.nil
      · split
        · exact h.linkTypes _ (by decide) _
        · refine h.additive.append (h.additive.map fun name _ => ?_) (h.linkTypes _ (by decide) _)
          exact h.member f.2 hmem _ (by rw [hlabel]; decide) _ _ _

theorem interfaceFacts (h : Parts src root Q) (owner : String) (t : Node) (ht : t ∈ root.nodes) :
    Q (interfaceFacts src owner t) := by
  refine h.additive.flatMap fun e he => ?_
  have hmem : e.2 ∈ root.nodes :=
    Tree.mem_nodes_of_mem_children (mem_of_mem_sitedChildren he) root ht
  dsimp only
  split
  · next hlabel =>
    split
    · exact h.member e.2 hmem _ (by rw [hlabel]; decide) _ _ _
    · exact h.additive.nil
  · exact h.linkTypes _ (by decide) _
  · exact h.linkTypes _ (by decide) _
  · exact h.linkTypes _ (by decide) _
  · exact h.additive.nil

theorem typeFacts (h : Parts src root Q) (t : Node) (ht : t ∈ root.nodes) (before : List Node) :
    Q (typeFacts src t before) := by
  refine h.additive.flatMap fun spec hspec => ?_
  have hmem : ∀ role type, spec.2.child? role = some type → type ∈ root.nodes := fun _ _ htype =>
    Tree.mem_nodes_of_mem_children (List.mem_of_find?_eq_some htype) root
      (Tree.mem_nodes_of_mem_children (mem_of_mem_sitedChildren (List.mem_filter.mp hspec).1) root ht)
  dsimp only
  split
  · exact h.additive.nil
  · refine h.additive.cons ?_ ?_
    · split
      · exact h.type _ _ _ _ (by split <;> decide)
      · exact h.type _ _ _ _ (by split <;> decide)
    · split
      · next htype => exact h.fieldFacts _ _ (hmem _ _ htype)
      · next htype => exact h.interfaceFacts _ _ (hmem _ _ htype)
      · exact h.useHead _ _ _
      · exact h.additive.nil

theorem specFacts (h : Parts src root Q) (decl : Node) (before : List Node) (spec : Node) :
    Q (specFacts src decl before spec) :=
  h.additive.map fun name _ => h.value _ _ _ _ _ (by split <;> decide)

mutual

theorem valueFacts (h : Parts src root Q) (decl : Node) (before : List Node) :
    ∀ t : Node, Q (valueFacts src decl before t)
  | .node _ _ _ children => by
    rw [Go.valueFacts]
    exact h.valueFactsIn decl before children
termination_by structural t => t

theorem valueFactsIn (h : Parts src root Q) (decl : Node) (before : List Node) :
    ∀ ts : List Node, Q (valueFactsIn src decl before ts)
  | [] => by rw [Go.valueFactsIn]; exact h.additive.nil
  | t :: ts => by
    rw [Go.valueFactsIn]
    refine h.additive.append ?_ (h.valueFactsIn decl before ts)
    split
    · exact h.specFacts _ _ _
    · exact h.specFacts _ _ _
    · exact h.valueFacts decl before t
    · exact h.additive.nil
termination_by structural ts => ts

end

theorem importFacts (h : Parts src root Q) (spec : Node) : Q (importFacts src spec) := by
  unfold Go.importFacts
  split
  · exact h.additive.nil
  · exact h.imports _ _

mutual

theorem importDeclFacts (h : Parts src root Q) : ∀ t : Node, Q (importDeclFacts src t)
  | .node _ _ _ children => by
    rw [Go.importDeclFacts]
    exact h.importDeclFactsIn children
termination_by structural t => t

theorem importDeclFactsIn (h : Parts src root Q) :
    ∀ ts : List Node, Q (importDeclFactsIn src ts)
  | [] => by rw [Go.importDeclFactsIn]; exact h.additive.nil
  | t :: ts => by
    rw [Go.importDeclFactsIn]
    refine h.additive.append ?_ (h.importDeclFactsIn ts)
    split
    · exact h.importFacts _
    · exact h.importDeclFacts t
    · exact h.additive.nil
termination_by structural ts => ts

end

theorem callFacts (h : Parts src root Q) (source : Option String) (t : Node) :
    Q (callFacts src source t) := by
  unfold Go.callFacts
  split
  · exact h.additive.nil
  · split
    · exact h.additive.getD_map (fun _ => h.links.use _ _ _ _ _) _
    · exact h.additive.getD_map (fun _ => h.links.use _ _ _ _ _) _
    · exact h.additive.nil

theorem localFacts (h : Parts src root Q) (source : Option String) (before : List Node) (t : Node) :
    Q (localFacts src source before t) := by
  unfold Go.localFacts
  split
  · split
    · exact h.valueFacts _ _ t
    · exact h.additive.nil
  · split
    · exact h.valueFacts _ _ t
    · exact h.additive.nil
  · exact h.callFacts _ _
  · unfold literalFacts
    split
    · exact h.useHead _ _ _
    · exact h.additive.nil
  · exact h.additive.nil

/-- **What the nodes of a tree of Go show has the property of its parts.** -/
theorem shows (h : Parts src root Q) : Shows src root Q where
  additive := h.additive
  function := h.functionFacts
  types := h.typeFacts
  imports := h.importDeclFacts
  rest := h.localFacts

end Parts

end Go

/-! ## Python -/

namespace Python

open Syntax.Python

/-- The parts of what the nodes of a tree of Python show have a property. -/
structure Parts (src : Source) (root : Node) (Q : List Fact → Prop) : Prop where
  additive : Additive Q
  links : Links builtins Q
  imports : ∀ span i, Q [importOf span i]
  definition : ∀ t ∈ root.nodes, t.label ∈ [.kind .functionDef, .kind .classDef] →
    ∀ site, Sits root t site → ∀ name kind owner, kind ∈ [.function, .method, .classType] →
      Q [definitionFact src t site name kind owner]
  assigned : ∀ t : Node, t.label = .kind .assignment → ∀ site, Sits root t site →
    ∀ name kind owner, kind ∈ [.field, .constant, .global] →
      Q [.declares { symbol src site name kind owner with
        signature := (firstLine? src t).map Text.trim
        documentation := site.comment src }]

namespace Parts

variable {root : Node}

theorem baseFacts (h : Parts src root Q) (name : String) (t : Node) : Q (baseFacts src name t) := by
  have hlink : ∀ n qualifier place, Q (link builtins .use .inherits (some name) n qualifier place) :=
    fun n qualifier place => h.links .use _ (by decide) _ n qualifier place
  unfold Python.baseFacts
  split
  · exact h.additive.getD_map (fun _ => hlink _ _ _) _
  · exact h.additive.getD_map (fun _ => hlink _ _ _) _

theorem assignmentFacts (h : Parts src root Q) (scope : Scope) (t : Node)
    (ht : t.label = .kind .assignment) (site : Site) (hsite : Sits root t site) :
    Q (assignmentFacts src scope t site) := by
  unfold Python.assignmentFacts
  split
  · exact h.additive.nil
  · split
    · exact h.additive.nil
    · split
      · exact h.additive.nil
      · split
        · exact h.additive.nil
        · refine h.assigned _ ht _ hsite _ _ _ ?_
          split
          · decide
          · split <;> decide

theorem importFacts (h : Parts src root Q) (t : Node) : Q (importFacts src t) := by
  have hclause : ∀ i : ImportClause, Q (if i.path.isEmpty then [] else [importOf t.span i]) := by
    intro i
    split
    · exact h.additive.nil
    · exact h.imports _ _
  exact h.additive.flatMap fun n _ => hclause _

theorem importFromFacts (h : Parts src root Q) (t : Node) : Q (importFromFacts src t) := by
  unfold Python.importFromFacts
  split
  · exact h.additive.nil
  · exact h.imports _ _

theorem callFacts (h : Parts src root Q) (source : Option String) (t : Node) :
    Q (callFacts src source t) := by
  unfold Python.callFacts
  split
  · exact h.additive.nil
  · split
    · exact h.additive.getD_map (fun _ => h.links.use _ _ _ _ _) _
    · exact h.additive.getD_map (fun _ => h.links.use _ _ _ _ _) _
    · exact h.additive.nil

/-- **What the nodes of a tree of Python show has the property of its parts.** -/
theorem shows (h : Parts src root Q) : Shows src root Q where
  additive := h.additive
  definition := h.definition
  base := h.baseFacts
  assignment := h.assignmentFacts
  imports := h.importFacts
  importsFrom := h.importFromFacts
  call := h.callFacts
  name := fun _ _ _ => h.links.use _ _ _ _ _

end Parts

end Python

/-! ## Rust -/

namespace Rust

open Syntax.Rust

/-- The parts of what the nodes of a tree of Rust show have a property. -/
structure Parts (src : Source) (root : Node) (Q : List Fact → Prop) : Prop where
  additive : Additive Q
  links : Links builtins Q
  imports : ∀ span i, Q [importOf span i]
  function : ∀ (scope : Scope) t, Stands root scope.inherited t →
    t.label ∈ [.kind .functionItem, .kind .functionSignature] → ∀ before name,
    ∀ kind ∈ [SymbolKind.method, .function], Q [.declares
      { symbol src scope t before name kind with
        signature := (signatureBefore src t .body).map (Text.trimTail (· == ';')) }]
  type : ∀ t ∈ root.nodes, t.label ∈ [.kind .structItem, .kind .traitItem] → ∀ before name,
    ∀ kind ∈ [SymbolKind.structType, .interfaceType], Q [.declares
      { symbol src {} t before name kind with signature := signatureBefore src t .body }]
  field : ∀ t ∈ root.nodes, t.label = .kind .fieldDecl → ∀ owner before name, Q [.declares
    { symbol src { owner := some owner } t before name .field with
      signature := (t.text? src).map Text.trim }]
  modules : ∀ t ∈ root.nodes, t.label = .kind .modItem → ∀ before name,
    Q [.declares { symbol src {} t before name .moduleUnit with signature := some ("mod " ++ name) }]
  named : ∀ (scope : Scope) t, Stands root scope.inherited t → t.label ∈ namedLabels →
    ∀ before name, ∀ kind ∈ namedKinds, Q ((namedFacts src scope t before kind name).take 1)

namespace Parts

variable {root : Node}

theorem linkTypes (h : Parts src root Q) (scope : Scope) (source : String) {edge : EdgeKind}
    (hedge : edge ∈ UseKind.use.edges) (t : Node) : Q (linkTypes src scope source edge t) :=
  h.additive.flatMap fun _ _ => h.links _ _ hedge _ _ _ _

theorem functionFacts (h : Parts src root Q) (scope : Scope) (t : Node)
    (ht : Stands root scope.inherited t)
    (hlabel : t.label ∈ [.kind .functionItem, .kind .functionSignature]) (before : List Node)
    (name : String) : Q (functionFacts src scope t before name) := by
  refine h.additive.cons (h.function _ _ ht hlabel _ _ _ (by split <;> decide))
    (h.additive.flatMap fun role _ => ?_)
  split
  · exact h.linkTypes _ _ (by decide) _
  · exact h.additive.nil

theorem structFacts (h : Parts src root Q) (t : Node) (ht : t ∈ root.nodes)
    (hlabel : t.label = .kind .structItem) (before : List Node) : Q (structFacts src t before) := by
  unfold Rust.structFacts
  split
  · exact h.additive.nil
  · refine h.additive.cons (h.type _ ht (by simp [hlabel]) _ _ _ (by decide)) ?_
    split
    · exact h.additive.nil
    · next body hbody =>
      refine h.additive.flatMap fun f hf => h.additive.append ?_ (h.linkTypes _ _ (by decide) _)
      have hmem : f.2 ∈ root.nodes :=
        Tree.mem_nodes_of_mem_children (mem_of_mem_sitedChildren hf) root
          (Tree.mem_nodes_of_mem_children (List.mem_of_find?_eq_some hbody) root ht)
      by_cases hfield : f.2.label = .kind .fieldDecl
      · cases hname : f.2.childText? src .name with
        | none => simpa [hfield, hname] using h.additive.nil
        | some n => simpa [hfield, hname] using h.field _ hmem hfield _ _ n
      · have hnone : ((failure : Option Fact)).toList = [] := rfl
        simpa [guard, hfield, hnone] using h.additive.nil

theorem traitFacts (h : Parts src root Q) (t : Node) (ht : t ∈ root.nodes)
    (hlabel : t.label = .kind .traitItem) (before : List Node) (name : String) :
    Q (traitFacts src t before name) := by
  refine h.additive.cons (h.type _ ht (by simp [hlabel]) _ _ _ (by decide)) ?_
  split
  · exact h.linkTypes _ _ (by decide) _
  · exact h.additive.nil

theorem implFacts (h : Parts src root Q) (t : Node) (target : String) :
    Q (implFacts src t target) := by
  unfold Rust.implFacts
  split
  · exact h.additive.nil
  · split
    · exact h.additive.nil
    · exact h.links .use _ (by decide) _ _ _ _

theorem useFacts (h : Parts src root Q) (t : Node) : Q (useFacts src t) := by
  unfold Rust.useFacts
  split
  · exact h.additive.nil
  · exact h.additive.map fun _ _ => h.imports _ _

theorem namedFacts (h : Parts src root Q) (scope : Scope) (t : Node)
    (ht : Stands root scope.inherited t) (hlabel : t.label ∈ namedLabels) (before : List Node)
    (name : String) (kind : SymbolKind) (hkind : kind ∈ namedKinds) :
    Q (namedFacts src scope t before kind name) := by
  refine h.additive.cons (h.named scope t ht hlabel before name kind hkind) ?_
  split
  · exact h.linkTypes _ _ (by decide) _
  · exact h.additive.nil

theorem callFacts (h : Parts src root Q) (scope : Scope) (t : Node) :
    Q (callFacts src scope t) := by
  unfold Rust.callFacts
  dsimp only
  split
  · exact h.additive.nil
  · split
    · exact h.additive.getD_map (fun _ => h.links.use _ _ _ _ _) _
    · exact h.additive.getD_map (fun _ => h.links.use _ _ _ _ _) _
    · exact h.additive.getD_map (fun _ => h.links.use _ _ _ _ _) _
    · exact h.additive.nil

theorem literalFacts (h : Parts src root Q) (scope : Scope) (t : Node) :
    Q (literalFacts src scope t) := by
  unfold Rust.literalFacts
  split
  · exact h.additive.nil
  · split
    · exact h.additive.nil
    · exact h.links.use _ _ _ _ _

theorem localFacts (h : Parts src root Q) (scope : Scope) (t : Node) :
    Q (localFacts src scope t) := by
  unfold Rust.localFacts
  split
  · exact h.callFacts _ _
  · exact h.literalFacts _ _
  · exact h.additive.nil

/-- **What the nodes of a tree of Rust show has the property of its parts.** -/
theorem shows (h : Parts src root Q) : Shows src root Q where
  additive := h.additive
  function := h.functionFacts
  structs := h.structFacts
  traits := h.traitFacts
  impls := h.implFacts
  modules := h.modules
  imports := h.useFacts
  named := h.namedFacts
  rest := h.localFacts

end Parts

end Rust

end Outline

end CodeAtlas
