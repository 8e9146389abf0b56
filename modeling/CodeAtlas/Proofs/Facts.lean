import CodeAtlas.Proofs.Nesting

/-!
# Facts of a walk

A walk over a syntax tree puts together what its nodes show by themselves. So a property of what
single nodes show is one of all facts of a source text.

* `Additive`: a property of lists of facts that lists keep when they are put together.
* `Python.Sits`: the node that a symbol of Python takes up; `Rust.Inherits`, `Rust.Stands`: the nodes
  of Rust whose visibility comes from the trait around them.
* `Go.Shows`, `Python.Shows`, `Rust.Shows`: what the nodes of a tree show has such a property.
* **`Go.Shows.walk`**, **`Python.Shows.walk`**, **`Rust.Shows.walk`**: so have all facts of a syntax
  tree.
-/

namespace CodeAtlas.Outline

open Syntax

theorem declares_mem_of_ofFacts {facts : List Fact} {d : Declaration}
    (h : d ∈ (ofFacts facts).symbols) : .declares d ∈ facts := by
  obtain ⟨x, hx, hd⟩ := List.mem_filterMap.mp h
  cases x <;> cases hd
  exact hx

/-- A property of lists of facts that lists keep when they are put together. -/
structure Additive (Q : List Fact → Prop) : Prop where
  nil : Q []
  append {l l' : List Fact} (h : Q l) (h' : Q l') : Q (l ++ l')

namespace Additive

variable {α : Type} {Q : List Fact → Prop} {facts : List Fact}

theorem cons (hQ : Additive Q) {x : Fact} (hx : Q [x]) (h : Q facts) : Q (x :: facts) :=
  hQ.append hx h

theorem flatMap (hQ : Additive Q) {l : List α} {g : α → List Fact} (h : ∀ a ∈ l, Q (g a)) :
    Q (l.flatMap g) := by
  induction l with
  | nil => exact hQ.nil
  | cons a l ih =>
    rw [List.flatMap_cons]
    exact hQ.append (h a List.mem_cons_self) (ih fun b hb => h b (List.mem_cons_of_mem _ hb))

theorem map (hQ : Additive Q) {l : List α} {g : α → Fact} (h : ∀ a ∈ l, Q [g a]) :
    Q (l.map g) := by
  induction l with
  | nil => exact hQ.nil
  | cons a l ih =>
    rw [List.map_cons]
    exact hQ.cons (h a List.mem_cons_self) (ih fun b hb => h b (List.mem_cons_of_mem _ hb))

/-- What is made of a value that may be absent has the property. -/
theorem getD_map (hQ : Additive Q) {g : α → List Fact} (h : ∀ a, Q (g a)) (o : Option α) :
    Q ((o.map g).getD []) := by
  cases o with
  | none => exact hQ.nil
  | some a => exact h a

end Additive

namespace Go

open Syntax.Go

/-- What the nodes of a tree of Go show has a property. -/
structure Shows (src : Source) (root : Node) (Q : List Fact → Prop) : Prop where
  additive : Additive Q
  function : ∀ t ∈ root.nodes, t.label ∈ [.kind .functionDecl, .kind .methodDecl] → ∀ before name,
    Q (functionFacts src t before name)
  types : ∀ t ∈ root.nodes, ∀ before, Q (typeFacts src t before)
  imports : ∀ t, Q (importDeclFacts src t)
  rest : ∀ source before t, Q (localFacts src source before t)

variable {src : Source} {root : Node} {Q : List Fact → Prop}

mutual

/-- So has what a syntax tree shows. -/
theorem Shows.walk (h : Shows src root Q) (source : Option String) (before : List Node) :
    ∀ t : Node, t ∈ root.nodes → Q (walk src source before t)
  | .node label role span children, ht => by
    have hchildren : ∀ c ∈ children, c ∈ root.nodes :=
      fun c hc => Tree.mem_nodes_of_mem_children hc root ht
    -- one case for each kind of node that the walk tells apart, in its order
    unfold Go.walk
    dsimp only
    split
    · split
      · exact h.additive.nil
      · exact h.additive.append (h.function _ ht (by simp [Tree.label]) _ _)
          (h.walkBody _ _ children hchildren)
    · split
      · exact h.additive.nil
      · exact h.additive.append (h.function _ ht (by simp [Tree.label]) _ _)
          (h.walkBody _ _ children hchildren)
    · exact h.types _ ht _
    · exact h.imports _
    · exact h.additive.append (h.rest _ _ _) (h.walkAll _ _ children hchildren)
termination_by structural t => t

theorem Shows.walkAll (h : Shows src root Q) (source : Option String) (before : List Node) :
    ∀ ts : List Node, (∀ t ∈ ts, t ∈ root.nodes) → Q (walkAll src source before ts)
  | [], _ => by rw [Go.walkAll]; exact h.additive.nil
  | t :: ts, hts => by
    rw [Go.walkAll]
    obtain ⟨ht, hts⟩ := List.forall_mem_cons.mp hts
    refine h.additive.append ?_ (h.walkAll _ _ ts hts)
    split
    · exact h.walk _ _ t ht
    · exact h.additive.nil
termination_by structural ts => ts

theorem Shows.walkBody (h : Shows src root Q) (name : String) (before : List Node) :
    ∀ ts : List Node, (∀ t ∈ ts, t ∈ root.nodes) → Q (walkBody src name before ts)
  | [], _ => by rw [Go.walkBody]; exact h.additive.nil
  | t :: ts, hts => by
    rw [Go.walkBody]
    obtain ⟨ht, hts⟩ := List.forall_mem_cons.mp hts
    split
    · exact h.walk _ _ t ht
    · exact h.walkBody _ _ ts hts
termination_by structural ts => ts

end

end Go

namespace Python

open Syntax.Python

/-- The node that the symbol of a node takes up: that node, or the decorated definition or the
statement around it. -/
inductive Sits (root t : Node) (site : Site) : Prop where
  | alone (h : site.span = t.span)
  | decorated (n : Node) (hn : n ∈ root.nodes) (hl : n.label = .kind .decorated)
    (hc : n.child? .definition = some t) (ht : t.label ∈ [.kind .functionDef, .kind .classDef])
    (h : site.span = n.span)
  | statement (n : Node) (hn : n ∈ root.nodes) (hl : n.label = .kind .exprStatement)
    (hc : t ∈ n.children) (ht : t.label = .kind .assignment) (h : site.span = n.span)

/-- What the nodes of a tree of Python show has a property. -/
structure Shows (src : Source) (root : Node) (Q : List Fact → Prop) : Prop where
  additive : Additive Q
  definition : ∀ t ∈ root.nodes, t.label ∈ [.kind .functionDef, .kind .classDef] →
    ∀ site, Sits root t site → ∀ name kind owner, kind ∈ [.function, .method, .classType] →
      Q [definitionFact src t site name kind owner]
  base : ∀ name t, Q (baseFacts src name t)
  assignment : ∀ scope t, t.label = .kind .assignment → ∀ site, Sits root t site →
    Q (assignmentFacts src scope t site)
  imports : ∀ t, Q (importFacts src t)
  importsFrom : ∀ t, Q (importFromFacts src t)
  call : ∀ source t, Q (callFacts src source t)
  name : ∀ owner n place, Q (use .use (some owner) n none place)

variable {src : Source} {root : Node} {Q : List Fact → Prop}

theorem sits_getD {t : Node} {around : Option Site} (h : ∀ site ∈ around, Sits root t site)
    (before : List Node) : Sits root t (around.getD ⟨t.span, before⟩) := by
  cases around with
  | none => exact .alone rfl
  | some site => exact h site rfl

mutual

/-- So has what a syntax tree shows, where symbols take up what is around them. -/
theorem Shows.walk (h : Shows src root Q) (scope : Scope) (around : Option Site)
    (before : List Node) : ∀ t : Node, t ∈ root.nodes → (∀ site ∈ around, Sits root t site) →
      Q (walk src scope around before t)
  | .node label role span children, ht, haround => by
    have hchildren : ∀ c ∈ children, c ∈ root.nodes :=
      fun c hc => Tree.mem_nodes_of_mem_children hc root ht
    have hsite := sits_getD haround before
    -- one case for each kind of node that the walk tells apart, in its order
    unfold Python.walk
    dsimp only
    split
    · cases Tree.childText? src (.node (.kind .functionDef) role span children : Node) .name with
      | none => exact h.additive.nil
      | some name =>
        refine h.additive.cons
          (h.definition _ ht (by simp [Tree.label]) _ hsite _ _ _ (by split <;> decide)) ?_
        exact h.additive.append (h.additive.append (h.annotateIn _ _ _ children hchildren)
          (h.annotateIn _ _ _ children hchildren)) (h.walkIn _ _ _ children hchildren)
    · split
      · exact h.additive.nil
      · refine h.additive.cons
          (h.definition _ ht (by simp [Tree.label]) _ hsite _ _ _ (by decide)) ?_
        exact h.additive.append (h.walkSuperclasses _ _ children hchildren)
          (h.walkIn _ _ _ children hchildren)
    · refine h.additive.append (h.walkDecorators _ _ children hchildren)
        (h.walkDefinition _ _ _ children hchildren fun t hfirst hlabel => ?_)
      exact .decorated _ ht rfl hfirst hlabel rfl
    · exact h.imports _
    · exact h.importsFrom _
    · refine h.additive.append (h.additive.append (h.assignment _ _ rfl _ hsite) ?_)
        (h.walkAll _ _ _ children hchildren (by simp))
      split
      · exact h.annotateIn _ _ _ children hchildren
      · exact h.additive.nil
    · exact h.additive.append (h.call _ _) (h.walkAll _ _ _ children hchildren (by simp))
    · refine h.walkAll _ _ _ children hchildren ?_
      rintro _ ⟨⟩ t hmem hlabel
      exact .statement _ ht rfl hmem hlabel rfl
    · exact h.walkAll _ _ _ children hchildren (by simp)
termination_by structural t => t

theorem Shows.walkAll (h : Shows src root Q) (scope : Scope) (around : Option Site)
    (before : List Node) : ∀ ts : List Node, (∀ t ∈ ts, t ∈ root.nodes) →
      (∀ site ∈ around, ∀ t ∈ ts, t.label = .kind .assignment → Sits root t site) →
      Q (walkAll src scope around before ts)
  | [], _, _ => by rw [Python.walkAll]; exact h.additive.nil
  | t :: ts, hts, haround => by
    rw [Python.walkAll]
    obtain ⟨ht, hts⟩ := List.forall_mem_cons.mp hts
    refine h.additive.append ?_
      (h.walkAll _ _ _ ts hts fun site hsite t' ht' => haround site hsite t' (.tail _ ht'))
    split
    · refine h.walk _ _ _ t ht fun site hsite => ?_
      -- only an assignment takes up the node around it
      simp only [beq_iff_eq, Option.mem_ite_none_right] at hsite
      exact haround site hsite.2 t (.head _) hsite.1
    · exact h.additive.nil
termination_by structural ts => ts

theorem Shows.walkIn (h : Shows src root Q) (scope : Scope) (role : Role) (before : List Node) :
    ∀ ts : List Node, (∀ t ∈ ts, t ∈ root.nodes) → Q (walkIn src scope role before ts)
  | [], _ => by rw [Python.walkIn]; exact h.additive.nil
  | t :: ts, hts => by
    rw [Python.walkIn]
    obtain ⟨ht, hts⟩ := List.forall_mem_cons.mp hts
    split
    · exact h.walk _ _ _ t ht (by simp)
    · exact h.walkIn _ _ _ ts hts
termination_by structural ts => ts

theorem Shows.walkDecorators (h : Shows src root Q) (scope : Scope) (before : List Node) :
    ∀ ts : List Node, (∀ t ∈ ts, t ∈ root.nodes) → Q (walkDecorators src scope before ts)
  | [], _ => by rw [Python.walkDecorators]; exact h.additive.nil
  | t :: ts, hts => by
    rw [Python.walkDecorators]
    obtain ⟨ht, hts⟩ := List.forall_mem_cons.mp hts
    refine h.additive.append ?_ (h.walkDecorators _ _ ts hts)
    split
    · exact h.walk _ _ _ t ht (by simp)
    · exact h.additive.nil
termination_by structural ts => ts

theorem Shows.walkDefinition (h : Shows src root Q) (scope : Scope) (site : Site)
    (before : List Node) : ∀ ts : List Node, (∀ t ∈ ts, t ∈ root.nodes) →
      (∀ t, ts.find? (·.role == some .definition) = some t →
        t.label ∈ [.kind .functionDef, .kind .classDef] → Sits root t site) →
      Q (walkDefinition src scope site before ts)
  | [], _, _ => by rw [Python.walkDefinition]; exact h.additive.nil
  | t :: ts, hts, hsite => by
    rw [Python.walkDefinition]
    obtain ⟨ht, hts⟩ := List.forall_mem_cons.mp hts
    split
    · next hrole =>
      refine h.walk _ _ _ t ht fun s hs => ?_
      obtain ⟨hlabel, ⟨⟩⟩ := Option.mem_ite_none_right.mp hs
      exact hsite t (by simp [hrole]) (by simpa using hlabel)
    · next hrole =>
      exact h.walkDefinition _ _ _ ts hts fun t' ht' => hsite t' (by simpa [hrole] using ht')
termination_by structural ts => ts

theorem Shows.walkSuperclasses (h : Shows src root Q) (scope : Scope) (name : String) :
    ∀ ts : List Node, (∀ t ∈ ts, t ∈ root.nodes) → Q (walkSuperclasses src scope name ts)
  | [], _ => by rw [Python.walkSuperclasses]; exact h.additive.nil
  | .node _ role _ children :: ts, hts => by
    rw [Python.walkSuperclasses]
    obtain ⟨ht, hts⟩ := List.forall_mem_cons.mp hts
    split
    · exact h.walkBases _ _ _ children fun c hc => Tree.mem_nodes_of_mem_children hc root ht
    · exact h.walkSuperclasses _ _ ts hts
termination_by structural ts => ts

theorem Shows.walkBases (h : Shows src root Q) (scope : Scope) (name : String)
    (before : List Node) : ∀ ts : List Node, (∀ t ∈ ts, t ∈ root.nodes) →
      Q (walkBases src scope name before ts)
  | [], _ => by rw [Python.walkBases]; exact h.additive.nil
  | t :: ts, hts => by
    rw [Python.walkBases]
    obtain ⟨ht, hts⟩ := List.forall_mem_cons.mp hts
    refine h.additive.append ?_ (h.walkBases _ _ _ ts hts)
    split
    · exact h.base _ _
    · exact h.base _ _
    · split
      · exact h.walk _ _ _ t ht (by simp)
      · exact h.additive.nil
termination_by structural ts => ts

theorem Shows.annotate (h : Shows src root Q) (owner : String) (isType : Bool) :
    ∀ t : Node, t ∈ root.nodes → Q (annotate src owner isType t)
  | .node label role span children, ht => by
    have hchildren : ∀ c ∈ children, c ∈ root.nodes :=
      fun c hc => Tree.mem_nodes_of_mem_children hc root ht
    rw [Python.annotate]
    split
    · exact h.additive.getD_map (fun n => h.name _ n _) _
    · refine h.additive.append ?_ (h.annotateAll _ _ _ children hchildren)
      split
      · exact h.walkIn _ _ _ children hchildren
      · exact h.additive.nil
termination_by structural t => t

theorem Shows.annotateAll (h : Shows src root Q) (owner : String) (isType skipValue : Bool) :
    ∀ ts : List Node, (∀ t ∈ ts, t ∈ root.nodes) → Q (annotateAll src owner isType skipValue ts)
  | [], _ => by rw [Python.annotateAll]; exact h.additive.nil
  | t :: ts, hts => by
    rw [Python.annotateAll]
    obtain ⟨ht, hts⟩ := List.forall_mem_cons.mp hts
    split
    · exact h.annotateAll _ _ _ ts hts
    · refine h.additive.append ?_ (h.annotateAll _ _ _ ts hts)
      split
      · exact h.annotate _ _ t ht
      · exact h.additive.nil
termination_by structural ts => ts

theorem Shows.annotateIn (h : Shows src root Q) (owner : String) (role : Role) (isType : Bool) :
    ∀ ts : List Node, (∀ t ∈ ts, t ∈ root.nodes) → Q (annotateIn src owner role isType ts)
  | [], _ => by rw [Python.annotateIn]; exact h.additive.nil
  | t :: ts, hts => by
    rw [Python.annotateIn]
    obtain ⟨ht, hts⟩ := List.forall_mem_cons.mp hts
    split
    · exact h.annotate _ _ t ht
    · exact h.annotateIn _ _ _ ts hts
termination_by structural ts => ts

end

end Python

namespace Rust

open Syntax.Rust

/-- The kinds of symbols that are known by their name. -/
def namedKinds : List SymbolKind := [.enumType, .plainType, .constant, .global]

/-- The labels of the items that are known by their name. -/
def namedLabels : List (Label Kind) :=
  [.kind .enumItem, .kind .unionItem, .kind .typeItem, .kind .constItem, .kind .staticItem,
    .kind .associatedType]

theorem namedKind?_mem {label : Label Kind} {kind : SymbolKind} (h : namedKind? label = some kind) :
    kind ∈ namedKinds ∧ label ∈ namedLabels := by
  unfold namedKind? at h
  split at h <;> cases h <;> decide

/-- Whether the items in the body of a node take their visibility from it: those of a trait and those
of an implementation of a trait. -/
def Lends (t : Node) : Prop :=
  t.label = .kind .traitItem ∨ t.label = .kind .implItem ∧ (t.child? .trait).isSome

instance (t : Node) : Decidable (Lends t) :=
  inferInstanceAs (Decidable (t.label = .kind .traitItem ∨
    t.label = .kind .implItem ∧ (t.child? .trait).isSome))

/-- The items that stand for themselves: what is inside them inherits nothing from around them. -/
def standalone : List (Label Kind) :=
  [.kind .functionItem, .kind .functionSignature, .kind .structItem, .kind .traitItem,
    .kind .implItem, .kind .modItem]

/-- The nodes of a tree that take their visibility from the trait around them. -/
inductive Inherits (root : Node) : Node → Prop where
  | item {x body t : Node} (hx : x ∈ root.nodes) (hlends : Lends x) (hbody : body ∈ x.children)
    (ht : t ∈ body.children) : Inherits root t
  | child {t c : Node} (h : Inherits root t) (hl : t.label ∉ standalone) (hc : c ∈ t.children) :
    Inherits root c

/-- A node of a tree which inherits, if at all, from the trait around it. -/
structure Stands (root : Node) (inherited : Option Visibility) (t : Node) : Prop where
  mem : t ∈ root.nodes
  inherits : inherited.isSome → Inherits root t

theorem Stands.child {root t c : Node} {inherited : Option Visibility}
    (h : Stands root inherited t) (hl : t.label ∉ standalone) (hc : c ∈ t.children) :
    Stands root inherited c :=
  ⟨Tree.mem_nodes_of_mem_children hc root h.mem, fun hsome => .child (h.inherits hsome) hl hc⟩

/-- What the nodes of a tree of Rust show has a property. -/
structure Shows (src : Source) (root : Node) (Q : List Fact → Prop) : Prop where
  additive : Additive Q
  function : ∀ (scope : Scope) t, Stands root scope.inherited t →
    t.label ∈ [.kind .functionItem, .kind .functionSignature] → ∀ before name,
      Q (functionFacts src scope t before name)
  structs : ∀ t ∈ root.nodes, t.label = .kind .structItem → ∀ before, Q (structFacts src t before)
  traits : ∀ t ∈ root.nodes, t.label = .kind .traitItem → ∀ before name,
    Q (traitFacts src t before name)
  impls : ∀ t target, Q (implFacts src t target)
  modules : ∀ t ∈ root.nodes, t.label = .kind .modItem → ∀ before name,
    Q [.declares { symbol src {} t before name .moduleUnit with signature := some ("mod " ++ name) }]
  imports : ∀ t, Q (useFacts src t)
  named : ∀ (scope : Scope) t, Stands root scope.inherited t → t.label ∈ namedLabels →
    ∀ before name, ∀ kind ∈ namedKinds, Q (namedFacts src scope t before kind name)
  rest : ∀ scope t, Q (localFacts src scope t)

variable {src : Source} {root : Node} {Q : List Fact → Prop}

mutual

/-- So has what a syntax tree shows. -/
theorem Shows.walk (h : Shows src root Q) (scope : Scope) (before : List Node) :
    ∀ t : Node, Stands root scope.inherited t → Q (walk src scope before t)
  | .node label role span children, ht => by
    have hchildren : ∀ c ∈ children, c ∈ root.nodes :=
      fun c hc => Tree.mem_nodes_of_mem_children hc root ht.mem
    have halone : ∀ c ∈ children, Stands root none c := fun c hc => ⟨hchildren c hc, by simp⟩
    -- one case for each kind of node that the walk tells apart, in its order
    unfold Rust.walk
    dsimp only
    split
    · split
      · exact h.additive.nil
      · exact h.additive.append (h.function _ _ ht (by simp [Tree.label]) _ _)
          (h.walkIn _ _ _ children halone)
    · split
      · exact h.additive.nil
      · exact h.additive.append (h.function _ _ ht (by simp [Tree.label]) _ _)
          (h.walkIn _ _ _ children halone)
    · exact h.structs _ ht.mem rfl _
    · split
      · exact h.additive.nil
      · refine h.additive.append (h.traits _ ht.mem rfl _ _) (h.walkBody _ children hchildren ?_)
        exact fun body hbody c hc _ => .item ht.mem (.inl rfl) hbody hc
    · split
      · exact h.additive.nil
      · refine h.additive.append (h.impls _ _) (h.walkBody _ children hchildren ?_)
        intro body hbody c hc hsome
        exact .item ht.mem (.inr ⟨rfl, by simpa using hsome⟩) hbody hc
    · split
      · exact h.additive.nil
      · exact h.additive.cons (h.modules _ ht.mem rfl _ _) (h.walkIn _ _ _ children halone)
    · exact h.imports _
    · next hfunction hsignature hstruct htrait himpl hmod _ =>
      have hin : ∀ c ∈ children, Stands root scope.inherited c := fun c hc =>
        ht.child (by simp_all [standalone, Tree.label]) hc
      split
      · next hkind =>
        obtain ⟨hk, hl⟩ := namedKind?_mem hkind
        split
        · exact h.additive.nil
        · exact h.additive.append (h.named _ _ ht hl _ _ _ hk) (h.walkIn _ _ _ children hin)
      · exact h.additive.append (h.rest _ _) (h.walkAll _ _ children hin)
termination_by structural t => t

theorem Shows.walkAll (h : Shows src root Q) (scope : Scope) (before : List Node) :
    ∀ ts : List Node, (∀ t ∈ ts, Stands root scope.inherited t) → Q (walkAll src scope before ts)
  | [], _ => by rw [Rust.walkAll]; exact h.additive.nil
  | t :: ts, hts => by
    rw [Rust.walkAll]
    obtain ⟨ht, hts⟩ := List.forall_mem_cons.mp hts
    refine h.additive.append ?_ (h.walkAll _ _ ts hts)
    split
    · exact h.walk _ _ t ht
    · exact h.additive.nil
termination_by structural ts => ts

theorem Shows.walkIn (h : Shows src root Q) (scope : Scope) (role : Role) (before : List Node) :
    ∀ ts : List Node, (∀ t ∈ ts, Stands root scope.inherited t) →
      Q (walkIn src scope role before ts)
  | [], _ => by rw [Rust.walkIn]; exact h.additive.nil
  | t :: ts, hts => by
    rw [Rust.walkIn]
    obtain ⟨ht, hts⟩ := List.forall_mem_cons.mp hts
    split
    · exact h.walk _ _ t ht
    · exact h.walkIn _ _ _ ts hts
termination_by structural ts => ts

theorem Shows.walkBody (h : Shows src root Q) (scope : Scope) :
    ∀ ts : List Node, (∀ t ∈ ts, t ∈ root.nodes) →
      (∀ t ∈ ts, ∀ c ∈ t.children, scope.inherited.isSome → Inherits root c) →
      Q (walkBody src scope ts)
  | [], _, _ => by rw [Rust.walkBody]; exact h.additive.nil
  | .node _ role _ children :: ts, hts, hitems => by
    rw [Rust.walkBody]
    obtain ⟨ht, hts⟩ := List.forall_mem_cons.mp hts
    obtain ⟨hitem, hitems⟩ := List.forall_mem_cons.mp hitems
    split
    · exact h.walkItems _ _ children fun c hc =>
        ⟨Tree.mem_nodes_of_mem_children hc root ht, hitem c hc⟩
    · exact h.walkBody _ ts hts hitems
termination_by structural ts => ts

theorem Shows.walkItems (h : Shows src root Q) (scope : Scope) (before : List Node) :
    ∀ ts : List Node, (∀ t ∈ ts, Stands root scope.inherited t) → Q (walkItems src scope before ts)
  | [], _ => by rw [Rust.walkItems]; exact h.additive.nil
  | .node label role span children :: ts, hts => by
    rw [Rust.walkItems]
    obtain ⟨ht, hts⟩ := List.forall_mem_cons.mp hts
    refine h.additive.append ?_ (h.walkItems _ _ ts hts)
    split
    · next hlabel =>
      obtain rfl := eq_of_beq hlabel
      split
      · exact h.additive.nil
      · exact h.additive.append (h.named _ _ ht (by simp [Tree.label, namedLabels]) _ _ _ (by decide))
          (h.walkIn _ _ _ children fun c hc =>
            ht.child (by simp [Tree.label, standalone]) hc)
    · split
      · exact h.walk _ _ (.node label role span children) ht
      · exact h.additive.nil
termination_by structural ts => ts

end

end Rust

end CodeAtlas.Outline
