import Mathlib.Tactic.Common
import CodeAtlas.Outline.Extract

/-!
# Uses inside declarations

In a syntax tree whose nodes lie inside each other, every use that a walk records for a symbol lies
on a line of a declaration of that symbol.

* `Tree.nodes`, `Tree.Nested`: all nodes of a tree, and that each contains its children.
* `Below`: a node of a tree inside a span; `Below.child`, `Below.find?`: so are the nodes below it.
* `Covered`: the uses among facts that are recorded for a symbol lie in a declaration of it, or they
  are left to what is further up. `Covered.close`: a declaration settles those that are inside it.
* **`Go.covered_walk`**, **`Python.covered_walk`**, **`Rust.covered_walk`**: this holds of the facts
  of a nested tree. In Rust the use of a trait by its implementation is exempt.
-/

namespace CodeAtlas

namespace Syntax

/-! ## Nested trees -/

/-- The rows of one span lie among those of another. -/
def Span.Contains (a b : Span) : Prop := a.start.row ≤ b.start.row ∧ b.stop.row ≤ a.stop.row

instance (a b : Span) : Decidable (a.Contains b) :=
  inferInstanceAs (Decidable (a.start.row ≤ b.start.row ∧ b.stop.row ≤ a.stop.row))

theorem Span.Contains.refl (a : Span) : a.Contains a := ⟨Nat.le_refl _, Nat.le_refl _⟩

theorem Span.Contains.trans {a b c : Span} (hab : a.Contains b) (hbc : b.Contains c) :
    a.Contains c := ⟨Nat.le_trans hab.1 hbc.1, Nat.le_trans hbc.2 hab.2⟩

namespace Tree

variable {κ φ : Type} {root t c : Tree κ φ} {span : Span}

mutual

/-- A node with all nodes below it. -/
def nodes : Tree κ φ → List (Tree κ φ)
  | node label role span children => node label role span children :: nodesIn children

/-- All nodes at and below some nodes. -/
def nodesIn : List (Tree κ φ) → List (Tree κ φ)
  | [] => []
  | t :: ts => nodes t ++ nodesIn ts

end

theorem mem_nodes_self (t : Tree κ φ) : t ∈ t.nodes := by
  cases t
  rw [nodes]
  exact List.mem_cons_self

theorem mem_nodesIn {ts : List (Tree κ φ)} : t ∈ nodesIn ts ↔ ∃ x ∈ ts, t ∈ x.nodes := by
  induction ts with
  | nil => simp [nodesIn]
  | cons x ts ih =>
    rw [nodesIn, List.mem_append, ih]
    simp only [List.mem_cons, exists_eq_or_imp]

mutual

/-- The children of a node of a tree are nodes of the tree. -/
theorem mem_nodes_of_mem_children (hc : c ∈ t.children) :
    ∀ root : Tree κ φ, t ∈ root.nodes → c ∈ root.nodes
  | node label role span children, ht => by
    rw [nodes] at ht ⊢
    rcases List.mem_cons.mp ht with rfl | ht
    · exact List.mem_cons_of_mem _ (mem_nodesIn.mpr ⟨c, hc, mem_nodes_self c⟩)
    · exact List.mem_cons_of_mem _ (mem_nodesIn_of_mem_children hc children ht)

theorem mem_nodesIn_of_mem_children (hc : c ∈ t.children) :
    ∀ ts : List (Tree κ φ), t ∈ nodesIn ts → c ∈ nodesIn ts
  | [], ht => by simp [nodesIn] at ht
  | x :: ts, ht => by
    rw [nodesIn, List.mem_append] at ht ⊢
    exact ht.imp (mem_nodes_of_mem_children hc x) (mem_nodesIn_of_mem_children hc ts)

end

mutual

/-- What is found below a node of a tree is a node of the tree. -/
theorem mem_nodes_of_find? (root : Tree κ φ) {p : Label κ → Bool} :
    ∀ t : Tree κ φ, t ∈ root.nodes → t.find? p = some c → c ∈ root.nodes
  | node label role s children, ht, hc => by
    rw [find?] at hc
    split at hc
    · cases hc
      exact ht
    · exact mem_nodes_of_findIn? root children (fun x hx => mem_nodes_of_mem_children hx root ht) hc

theorem mem_nodes_of_findIn? (root : Tree κ φ) {p : Label κ → Bool} :
    ∀ ts : List (Tree κ φ), (∀ t ∈ ts, t ∈ root.nodes) → findIn? p ts = some c → c ∈ root.nodes
  | [], _, hc => by simp [findIn?] at hc
  | t :: ts, h, hc => by
    rw [findIn?, Option.or_eq_some_iff] at hc
    rcases hc with hc | ⟨-, hc⟩
    · split at hc
      · exact mem_nodes_of_find? root t (h t List.mem_cons_self) hc
      · cases hc
    · exact mem_nodes_of_findIn? root ts (fun x hx => h x (List.mem_cons_of_mem _ hx)) hc

end

/-- **Every node contains its children.** Nothing more is asked of a tree than that no node ends
above its start, and that the rows of a child are rows of its parent. -/
def Nested (t : Tree κ φ) : Prop :=
  ∀ x ∈ t.nodes, x.span.start.row ≤ x.span.stop.row ∧ ∀ c ∈ x.children, x.span.Contains c.span

instance (t : Tree κ φ) : Decidable t.Nested :=
  inferInstanceAs (Decidable (∀ x ∈ t.nodes,
    x.span.start.row ≤ x.span.stop.row ∧ ∀ c ∈ x.children, x.span.Contains c.span))

/-- A node of a tree inside a span. -/
structure Below (root : Tree κ φ) (span : Span) (t : Tree κ φ) : Prop where
  mem : t ∈ root.nodes
  inside : span.Contains t.span

theorem Below.self (h : Below root span t) : Below root t.span t := ⟨h.mem, .refl _⟩

theorem Below.child (hroot : root.Nested) (h : Below root span t) (hc : c ∈ t.children) :
    Below root span c :=
  ⟨mem_nodes_of_mem_children hc root h.mem, h.inside.trans ((hroot t h.mem).2 c hc)⟩

theorem Below.child? [DecidableEq φ] (hroot : root.Nested) (h : Below root span t) {r : φ}
    (hc : t.child? r = some c) : Below root span c :=
  h.child hroot (List.mem_of_find?_eq_some hc)

mutual

theorem Below.find? (hroot : root.Nested) {p : Label κ → Bool} :
    ∀ t : Tree κ φ, Below root span t → t.find? p = some c → Below root span c
  | node label role s children, h, hc => by
    rw [Tree.find?] at hc
    split at hc
    · cases hc
      exact h
    · exact Below.findIn? hroot children (fun x hx => h.child hroot hx) hc

theorem Below.findIn? (hroot : root.Nested) {p : Label κ → Bool} :
    ∀ ts : List (Tree κ φ), (∀ t ∈ ts, Below root span t) → Tree.findIn? p ts = some c →
      Below root span c
  | [], _, hc => by simp [Tree.findIn?] at hc
  | t :: ts, h, hc => by
    rw [Tree.findIn?, Option.or_eq_some_iff] at hc
    rcases hc with hc | ⟨-, hc⟩
    · split at hc
      · exact Below.find? hroot t (h t List.mem_cons_self) hc
      · cases hc
    · exact Below.findIn? hroot ts (fun x hx => h x (List.mem_cons_of_mem _ hx)) hc

end

end Tree

end Syntax

namespace Outline

open Syntax

/-! ## Covered facts -/

/-- Whether a place is on a row of a span. -/
def At (span : Span) (place : Point) : Prop :=
  span.start.row ≤ place.row ∧ place.row ≤ span.stop.row

/-- A node starts on a row of every span it lies in. -/
theorem at_of_below {κ φ : Type} {root t : Tree κ φ} {span : Span} (hroot : root.Nested)
    (h : Tree.Below root span t) : At span t.span.start :=
  ⟨h.inside.1, Nat.le_trans (hroot t h.mem).1 h.inside.2⟩

theorem containsLine_rangeOf {span : Span} {line : Nat} :
    (rangeOf span).containsLine line = true ↔
      span.start.row + 1 ≤ line ∧ line ≤ span.stop.row + 1 := by
  rw [Range.containsLine, Bool.and_eq_true, decide_eq_true_eq, decide_eq_true_eq]
  rfl

/-- A use that is recorded for the symbol `source` on a line of a span. -/
def Inside (source : Option String) (span : Span) (u : Use) : Prop :=
  (∃ n, source = some n ∧ u.source = some n) ∧ (rangeOf span).containsLine u.line = true

theorem not_inside_none {span : Span} {u : Use} : ¬ Inside none span u := by
  rintro ⟨⟨n, hn, -⟩, -⟩
  cases hn

/-- **The uses among facts that are recorded for a symbol** lie on a line of a declaration of the
symbol among them, or else they are pending. -/
def Covered (pending : Use → Prop) (facts : List Fact) : Prop :=
  ∀ u, .uses u ∈ facts → u.source = none ∨
    (∃ d, .declares d ∈ facts ∧ u.source = some d.name ∧ d.range.containsLine u.line = true) ∨
    pending u

section Covered

variable {pending : Use → Prop} {source : Option String} {span : Span} {facts facts' : List Fact}

theorem covered_nil : Covered pending [] := fun _ h => by cases h

theorem Covered.append (h : Covered pending facts) (h' : Covered pending facts') :
    Covered pending (facts ++ facts') := by
  intro u hu
  rcases List.mem_append.mp hu with hu | hu
  · refine (h u hu).imp_right (Or.imp_left ?_)
    rintro ⟨d, hd, hrest⟩
    exact ⟨d, List.mem_append_left _ hd, hrest⟩
  · refine (h' u hu).imp_right (Or.imp_left ?_)
    rintro ⟨d, hd, hrest⟩
    exact ⟨d, List.mem_append_right _ hd, hrest⟩

theorem Covered.flatMap {α : Type} {l : List α} {g : α → List Fact}
    (h : ∀ a ∈ l, Covered pending (g a)) : Covered pending (l.flatMap g) := by
  induction l with
  | nil => exact covered_nil
  | cons a l ih =>
    rw [List.flatMap_cons]
    exact (h a List.mem_cons_self).append (ih fun b hb => h b (List.mem_cons_of_mem _ hb))

theorem Covered.getD_map {α : Type} {o : Option α} {g : α → List Fact}
    (h : ∀ a, Covered pending (g a)) : Covered pending ((o.map g).getD []) := by
  cases o with
  | none => exact covered_nil
  | some a => exact h a

/-- Facts without uses are covered. -/
theorem covered_of_forall (h : ∀ x ∈ facts, x.use? = none) : Covered pending facts :=
  fun _ hu => by cases h _ hu

theorem covered_declares {α : Type} (l : List α) (g : α → Declaration) :
    Covered pending (l.map fun a => .declares (g a)) :=
  covered_of_forall fun x hx => by
    obtain ⟨a, -, rfl⟩ := List.mem_map.mp hx
    rfl

theorem Covered.declare (h : Covered pending facts) (d : Declaration) :
    Covered pending (.declares d :: facts) :=
  (covered_declares [d] id).append h

/-- **A declaration settles the uses of its symbol that are inside it.** -/
theorem Covered.close {inner outer : Span} {d : Declaration} {name : String}
    (h : Covered (fun u => pending u ∨ Inside (some name) inner u) facts) (hname : d.name = name)
    (hrange : d.range = rangeOf outer) (hin : outer.Contains inner) :
    Covered pending (.declares d :: facts) := by
  intro u hu
  have hu : .uses u ∈ facts := (List.mem_cons.mp hu).resolve_left (by simp)
  rcases h u hu with hnone | ⟨d', hd', hrest⟩ | hpending | ⟨⟨n, hn, hsource⟩, hline⟩
  · exact Or.inl hnone
  · exact Or.inr (Or.inl ⟨d', List.mem_cons_of_mem _ hd', hrest⟩)
  · exact Or.inr (Or.inr hpending)
  · refine Or.inr (Or.inl ⟨d, List.mem_cons_self, by rw [hsource, hname, hn], ?_⟩)
    rw [hrange, containsLine_rangeOf]
    rw [containsLine_rangeOf] at hline
    obtain ⟨hstart, hstop⟩ := hin
    omega

/-- The only use among the facts of a link is that of its name. -/
theorem eq_of_uses_mem_link {builtins : List String} {kind : UseKind} {edge : EdgeKind}
    {name : String} {qualifier : Option String} {place : Point} {u : Use}
    (h : .uses u ∈ link builtins kind edge source name qualifier place) :
    u = ⟨kind, source, name, qualifier, place.row + 1, place.column + 1⟩ := by
  unfold link at h
  split at h
  · cases h
  · rcases List.mem_cons.mp h with h | h
    · exact Fact.uses.inj h
    · split at h
      · unfold relationship at h
        split at h
        · cases h
        · simp at h
      · cases h

/-- A use at a row of a span is inside it. -/
theorem covered_link (hp : ∀ u, Inside source span u → pending u) {place : Point} (h : At span place)
    {builtins : List String} {kind : UseKind} {edge : EdgeKind} {name : String}
    {qualifier : Option String} :
    Covered pending (link builtins kind edge source name qualifier place) := by
  intro u hu
  obtain rfl := eq_of_uses_mem_link hu
  cases source with
  | none => exact Or.inl rfl
  | some n =>
    refine Or.inr (Or.inr (hp _ ⟨⟨n, rfl, rfl⟩, containsLine_rangeOf.mpr ?_⟩))
    obtain ⟨hstart, hstop⟩ := h
    dsimp only
    omega

end Covered

theorem mem_of_mem_sited {κ φ : Type} {before ts : List (Tree κ φ)} {x : List (Tree κ φ) × Tree κ φ}
    (h : x ∈ sited before ts) : x.2 ∈ ts := by
  induction ts generalizing before with
  | nil => simp [sited] at h
  | cons t ts ih =>
    rw [sited] at h
    rcases List.mem_cons.mp h with rfl | h
    · exact List.mem_cons_self
    · exact List.mem_cons_of_mem _ (ih h)

theorem mem_of_mem_sitedChildren {κ φ : Type} {t : Tree κ φ} {x : List (Tree κ φ) × Tree κ φ}
    (h : x ∈ sitedChildren t) : x.2 ∈ t.children :=
  mem_of_mem_sited (List.mem_filter.mp h).1

/-! ## Go -/

namespace Go

open Syntax.Go

variable {src : Source} {root : Node} {pending : Use → Prop} {source : Option String} {span : Span}

mutual

theorem at_of_mem_typeNames (hroot : root.Nested) : ∀ t : Node, Tree.Below root span t →
    ∀ x ∈ typeNames src t, At span x.2.2
  | .node label role s children, h => by
    have hstart : At span s.start := at_of_below hroot h
    unfold typeNames
    dsimp only
    split
    · cases Tree.text? src (.node (.kind .typeName) role s children : Node) with
      | none => simp
      | some n => simpa using hstart
    · cases Tree.childText? src (.node (.kind .qualifiedType) role s children : Node) .name with
      | none => simp
      | some n => simpa using hstart
    · exact at_of_mem_typeNamesIn hroot children fun t ht => h.child hroot ht

/-- The types that type expressions name are inside them. -/
theorem at_of_mem_typeNamesIn (hroot : root.Nested) : ∀ ts : List Node,
    (∀ t ∈ ts, Tree.Below root span t) → ∀ x ∈ typeNamesIn src ts, At span x.2.2
  | [], _ => by simp [typeNamesIn]
  | t :: ts, h => by
    rw [typeNamesIn]
    refine List.forall_mem_append.mpr ⟨?_,
      at_of_mem_typeNamesIn hroot ts fun x hx => h x (List.mem_cons_of_mem _ hx)⟩
    split
    · exact at_of_mem_typeNames hroot t (h t List.mem_cons_self)
    · simp

end

theorem covered_linkTypes (hroot : root.Nested) {owner : String}
    (hp : ∀ u, Inside (some owner) span u → pending u) {t : Node} (h : Tree.Below root span t)
    (edge : EdgeKind) : Covered pending (linkTypes src owner edge t) :=
  Covered.flatMap fun x hx => covered_link hp (at_of_mem_typeNames hroot t h x hx)

mutual

theorem covered_useHead (hroot : root.Nested) (hp : ∀ u, Inside source span u → pending u)
    (kind : UseKind) :
    ∀ t : Node, Tree.Below root span t → Covered pending (useHead src kind source t)
  | .node label role s children, h => by
    have hstart : At span s.start := at_of_below hroot h
    have hchildren : ∀ t ∈ children, Tree.Below root span t := fun t ht => h.child hroot ht
    unfold useHead
    dsimp only
    split
    · exact Covered.getD_map fun n => covered_link hp hstart
    · exact Covered.getD_map fun n => covered_link hp hstart
    · split
      · exact covered_useHeadTyped hroot hp kind children hchildren
      · exact covered_useHeadFirst hroot hp kind children hchildren
    · split
      · exact covered_useHeadTyped hroot hp kind children hchildren
      · exact covered_useHeadFirst hroot hp kind children hchildren
    · exact covered_nil

theorem covered_useHeadTyped (hroot : root.Nested) (hp : ∀ u, Inside source span u → pending u)
    (kind : UseKind) : ∀ ts : List Node, (∀ t ∈ ts, Tree.Below root span t) →
      Covered pending (useHeadTyped src kind source ts)
  | [], _ => by rw [useHeadTyped]; exact covered_nil
  | t :: ts, h => by
    rw [useHeadTyped]
    split
    · exact covered_useHead hroot hp kind t (h t List.mem_cons_self)
    · exact covered_useHeadTyped hroot hp kind ts fun x hx => h x (List.mem_cons_of_mem _ hx)

theorem covered_useHeadFirst (hroot : root.Nested) (hp : ∀ u, Inside source span u → pending u)
    (kind : UseKind) : ∀ ts : List Node, (∀ t ∈ ts, Tree.Below root span t) →
      Covered pending (useHeadFirst src kind source ts)
  | [], _ => by rw [useHeadFirst]; exact covered_nil
  | t :: ts, h => by
    rw [useHeadFirst]
    split
    · exact covered_useHead hroot hp kind t (h t List.mem_cons_self)
    · exact covered_useHeadFirst hroot hp kind ts fun x hx => h x (List.mem_cons_of_mem _ hx)

end

theorem covered_signatureUses (hroot : root.Nested) {owner : String}
    (hp : ∀ u, Inside (some owner) span u → pending u) {t : Node} (h : Tree.Below root span t) :
    Covered pending (signatureUses src owner t) := by
  refine Covered.flatMap fun role _ => ?_
  split
  · next part hpart => exact covered_linkTypes hroot hp (h.child? hroot hpart) .uses
  · exact covered_nil

theorem covered_fieldFacts (hroot : root.Nested) {owner : String}
    (hp : ∀ u, Inside (some owner) span u → pending u) {t : Node} (h : Tree.Below root span t) :
    Covered pending (fieldFacts src owner t) := by
  unfold fieldFacts
  split
  · exact covered_nil
  · next list hlist =>
    refine Covered.flatMap fun x hx => ?_
    have hfield := (Tree.Below.find? hroot t h hlist).child hroot (mem_of_mem_sitedChildren hx)
    dsimp only
    split
    · exact covered_nil
    · split
      · exact covered_nil
      · next type htype =>
        have htype := hfield.child? hroot htype
        split
        · exact covered_linkTypes hroot hp htype .inherits
        · exact (covered_declares _ _).append (covered_linkTypes hroot hp htype .composes)

theorem covered_interfaceFacts (hroot : root.Nested) {owner : String}
    (hp : ∀ u, Inside (some owner) span u → pending u) {t : Node} (h : Tree.Below root span t) :
    Covered pending (interfaceFacts src owner t) := by
  refine Covered.flatMap fun x hx => ?_
  have helem := h.child hroot (mem_of_mem_sitedChildren hx)
  dsimp only
  split
  · split
    · exact covered_of_forall (by simp [Fact.use?])
    · exact covered_nil
  · exact covered_linkTypes hroot hp helem .inherits
  · exact covered_linkTypes hroot hp helem .inherits
  · exact covered_linkTypes hroot hp helem .inherits
  · exact covered_nil

/-- A type covers what it holds, builds on or stands for. -/
theorem covered_typeFacts (hroot : root.Nested) {t : Node} (h : Tree.Below root span t)
    (before : List Node) : Covered pending (typeFacts src t before) := by
  refine Covered.flatMap fun x hx => ?_
  have hspec : x.2 ∈ t.children := mem_of_mem_sitedChildren (List.mem_filter.mp hx).1
  dsimp only
  split
  · exact covered_nil
  · next name _ =>
    have hself := (h.child hroot hspec).self
    have hp : ∀ u, Inside (some name) x.2.span u → pending u ∨ Inside (some name) x.2.span u :=
      fun _ => Or.inr
    have houter : (if ((sitedChildren t).filter (·.2.label == .kind .typeSpec)).length > 1 then
        x.2.span else t.span).Contains x.2.span := by
      split
      · exact .refl _
      · exact (hroot t h.mem).2 _ hspec
    -- what follows the declaration is inside the specification
    refine @Covered.close pending _ x.2.span _ _ name ?_ ?_ ?_ houter
    · split
      · next hbody => exact covered_fieldFacts hroot hp (hself.child? hroot hbody)
      · next hbody => exact covered_interfaceFacts hroot hp (hself.child? hroot hbody)
      · next hnamed _ _ => exact covered_useHead hroot hp .use _ (hself.child? hroot hnamed)
      · exact covered_nil
    · split <;> rfl
    · split <;> rfl

mutual

theorem covered_valueFacts (decl : Node) (before : List Node) :
    ∀ t : Node, Covered pending (valueFacts src decl before t)
  | .node label role s children => by
    rw [valueFacts]
    exact covered_valueFactsIn decl before children

theorem covered_valueFactsIn (decl : Node) (before : List Node) :
    ∀ ts : List Node, Covered pending (valueFactsIn src decl before ts)
  | [] => by rw [valueFactsIn]; exact covered_nil
  | t :: ts => by
    rw [valueFactsIn]
    refine Covered.append ?_ (covered_valueFactsIn decl before ts)
    split
    · exact covered_declares _ _
    · exact covered_declares _ _
    · exact covered_valueFacts decl before t
    · exact covered_nil

end

theorem covered_importFacts (spec : Node) : Covered pending (importFacts src spec) := by
  unfold importFacts
  split
  · exact covered_nil
  · exact covered_of_forall (by simp [importOf, Fact.use?])

mutual

theorem covered_importDeclFacts : ∀ t : Node, Covered pending (importDeclFacts src t)
  | .node label role s children => by
    rw [importDeclFacts]
    exact covered_importDeclFactsIn children

theorem covered_importDeclFactsIn : ∀ ts : List Node, Covered pending (importDeclFactsIn src ts)
  | [] => by rw [importDeclFactsIn]; exact covered_nil
  | t :: ts => by
    rw [importDeclFactsIn]
    refine Covered.append ?_ (covered_importDeclFactsIn ts)
    split
    · exact covered_importFacts t
    · exact covered_importDeclFacts t
    · exact covered_nil

end

theorem covered_callFacts (hroot : root.Nested) (hp : ∀ u, Inside source span u → pending u)
    {t : Node} (h : Tree.Below root span t) : Covered pending (callFacts src source t) := by
  unfold callFacts
  split
  · exact covered_nil
  · next f hf =>
    have hstart := at_of_below hroot (h.child? hroot hf)
    split
    · exact Covered.getD_map fun name => covered_link hp hstart
    · exact Covered.getD_map fun name => covered_link hp hstart
    · exact covered_nil

theorem covered_localFacts (hroot : root.Nested) (hp : ∀ u, Inside source span u → pending u)
    {t : Node} (h : Tree.Below root span t) (before : List Node) :
    Covered pending (localFacts src source before t) := by
  unfold localFacts
  split
  · split
    · exact covered_valueFacts t before t
    · exact covered_nil
  · split
    · exact covered_valueFacts t before t
    · exact covered_nil
  · exact covered_callFacts hroot hp h
  · unfold literalFacts
    split
    · next type htype => exact covered_useHead hroot hp .construct type (h.child? hroot htype)
    · exact covered_nil
  · exact covered_nil

mutual

/-- **The facts of a nested tree are covered**, where the uses that are recorded for the symbol around
it are pending. -/
theorem covered_walk (hroot : root.Nested) (source : Option String) (before : List Node) :
    ∀ (t : Node) (span : Span) (pending : Use → Prop), Tree.Below root span t →
      (∀ u, Inside source span u → pending u) → Covered pending (walk src source before t)
  | .node label role s children, span, pending, h, hp => by
    -- what stands in a function is inside it
    have hfunction : ∀ (label : Label Kind) (name : String),
        Tree.Below root span (.node label role s children : Node) →
        Covered pending (functionFacts src (.node label role s children) before name ++
          walkBody src name [] children) := by
      intro label name h
      have hself := h.self
      have hbody := covered_walkBody hroot name [] children s
        (fun u => pending u ∨ Inside (some name) s u) (fun t ht => hself.child hroot ht)
        fun _ => Or.inr
      -- the function takes up its own node
      exact ((covered_signatureUses hroot (fun _ => Or.inr) hself).append hbody).close rfl rfl
        (.refl _)
    unfold walk
    dsimp only
    split
    · split
      · exact covered_nil
      · exact hfunction _ _ h
    · split
      · exact covered_nil
      · exact hfunction _ _ h
    · exact covered_typeFacts hroot h before
    · exact covered_importDeclFacts _
    · exact (covered_localFacts hroot hp h before).append
        (covered_walkAll hroot source [] children span pending (fun t ht => h.child hroot ht) hp)
termination_by structural t => t

theorem covered_walkAll (hroot : root.Nested) (source : Option String) (before : List Node) :
    ∀ (ts : List Node) (span : Span) (pending : Use → Prop), (∀ t ∈ ts, Tree.Below root span t) →
      (∀ u, Inside source span u → pending u) → Covered pending (walkAll src source before ts)
  | [], _, _, _, _ => by rw [walkAll]; exact covered_nil
  | t :: ts, span, pending, h, hp => by
    rw [walkAll]
    refine Covered.append ?_ (covered_walkAll hroot source _ ts span pending
      (fun x hx => h x (List.mem_cons_of_mem _ hx)) hp)
    split
    · exact covered_walk hroot source before t span pending (h t List.mem_cons_self) hp
    · exact covered_nil
termination_by structural ts => ts

theorem covered_walkBody (hroot : root.Nested) (name : String) (before : List Node) :
    ∀ (ts : List Node) (span : Span) (pending : Use → Prop), (∀ t ∈ ts, Tree.Below root span t) →
      (∀ u, Inside (some name) span u → pending u) → Covered pending (walkBody src name before ts)
  | [], _, _, _, _ => by rw [walkBody]; exact covered_nil
  | t :: ts, span, pending, h, hp => by
    rw [walkBody]
    split
    · exact covered_walk hroot (some name) before t span pending (h t List.mem_cons_self) hp
    · exact covered_walkBody hroot name _ ts span pending
        (fun x hx => h x (List.mem_cons_of_mem _ hx)) hp
termination_by structural ts => ts

end

end Go

/-! ## Python -/

namespace Python

open Syntax.Python

variable {src : Source} {root : Node} {pending : Use → Prop} {span : Span}

theorem covered_baseFacts (hroot : root.Nested) {name : String}
    (hp : ∀ u, Inside (some name) span u → pending u) {t : Node} (h : Tree.Below root span t) :
    Covered pending (baseFacts src name t) := by
  have hstart := at_of_below hroot h
  unfold baseFacts
  split
  · exact Covered.getD_map fun n => covered_link hp hstart
  · exact Covered.getD_map fun n => covered_link hp hstart

theorem covered_assignmentFacts (scope : Scope) (t : Node) (site : Site) :
    Covered pending (assignmentFacts src scope t site) := by
  unfold assignmentFacts
  split
  · exact covered_nil
  · split
    · exact covered_nil
    · split
      · exact covered_nil
      · split
        · exact covered_nil
        · exact covered_of_forall (by simp [Fact.use?])

theorem covered_importFacts (t : Node) : Covered pending (importFacts src t) := by
  have hclause : ∀ c : ImportClause,
      Covered pending (if c.path.isEmpty then [] else [importOf t.span c]) := by
    intro c
    split
    · exact covered_nil
    · exact covered_of_forall (by simp [importOf, Fact.use?])
  exact Covered.flatMap fun n _ => hclause _

theorem covered_importFromFacts (t : Node) : Covered pending (importFromFacts src t) := by
  unfold importFromFacts
  split
  · exact covered_nil
  · exact covered_of_forall (by simp [importOf, Fact.use?])

theorem covered_callFacts (hroot : root.Nested) {source : Option String}
    (hp : ∀ u, Inside source span u → pending u) {t : Node} (h : Tree.Below root span t) :
    Covered pending (callFacts src source t) := by
  unfold callFacts
  split
  · exact covered_nil
  · next f hf =>
    have hstart := at_of_below hroot (h.child? hroot hf)
    split
    · exact Covered.getD_map fun name => covered_link hp hstart
    · exact Covered.getD_map fun name => covered_link hp hstart
    · exact covered_nil

/-- A definition covers what is inside its node, as its site is around the node. -/
theorem Covered.define {facts : List Fact} {name : String} {t : Node} {site : Site}
    (h : Covered (fun u => pending u ∨ Inside (some name) t.span u) facts)
    (hsite : site.span.Contains t.span) (kind : SymbolKind) (owner : Option String) :
    Covered pending (definitionFact src t site name kind owner :: facts) :=
  h.close rfl rfl hsite

mutual

/-- **The facts of a nested tree are covered**, where the uses that are recorded for the symbol around
it are pending. -/
theorem covered_walk (hroot : root.Nested) (scope : Scope) (around : Option Site)
    (before : List Node) : ∀ (t : Node) (span : Span) (pending : Use → Prop),
      Tree.Below root span t → (∀ u, Inside scope.source span u → pending u) →
      (∀ site, around = some site → site.span.Contains t.span) →
      Covered pending (walk src scope around before t)
  | .node label role s children, span, pending, h, hp, haround => by
    have hchildren : ∀ t ∈ children, Tree.Below root span t := fun t ht => h.child hroot ht
    have hinner : ∀ t ∈ children, Tree.Below root s t := fun t ht => h.self.child hroot ht
    have hsite : (around.getD ⟨s, before⟩).span.Contains s := by
      cases around with
      | none => exact .refl _
      | some site => exact haround site rfl
    unfold walk
    dsimp only
    split
    · cases Tree.childText? src (.node (.kind .functionDef) role s children : Node) .name with
      | none => exact covered_nil
      | some name =>
        refine Covered.define (t := .node (.kind .functionDef) role s children)
          (((covered_annotateIn hroot name .parameters false children s _ hinner ?_).append
            (covered_annotateIn hroot name .returnType true children s _ hinner ?_)).append
            (covered_walkIn hroot ⟨some name, none⟩ .body [] children s _ hinner ?_)) hsite _ _
        · exact fun _ => Or.inr
        · exact fun _ => Or.inr
        · exact fun _ => Or.inr
    · split
      · exact covered_nil
      · next name _ =>
        refine Covered.define (t := .node (.kind .classDef) role s children)
          ((covered_walkSuperclasses hroot scope name children span s _ hchildren hinner ?_ ?_).append
            (covered_walkIn hroot ⟨some name, some name⟩ .body [] children s _ hinner ?_)) hsite _ _
        · exact fun u hu => Or.inl (hp u hu)
        · exact fun _ => Or.inr
        · exact fun _ => Or.inr
    · exact (covered_walkDecorators hroot scope [] children span pending hchildren hp).append
        (covered_walkDefinition hroot scope ⟨s, before⟩ [] children span pending hchildren hp
          fun t ht => (hinner t ht).inside)
    · exact covered_importFacts _
    · exact covered_importFromFacts _
    · refine ((covered_assignmentFacts scope _ _).append ?_).append
        (covered_walkAll hroot scope none [] children span pending hchildren hp (by simp))
      split
      · next owner _ howner =>
        exact covered_annotateIn hroot owner .type true children span pending hchildren
          fun u hu => hp u (by rwa [howner])
      · exact covered_nil
    · exact (covered_callFacts hroot hp h).append
        (covered_walkAll hroot scope none [] children span pending hchildren hp (by simp))
    · refine covered_walkAll hroot scope _ [] children span pending hchildren hp ?_
      rintro site ⟨⟩ t ht
      exact (hinner t ht).inside
    · exact covered_walkAll hroot scope none [] children span pending hchildren hp (by simp)
termination_by structural t => t

theorem covered_walkAll (hroot : root.Nested) (scope : Scope) (around : Option Site)
    (before : List Node) : ∀ (ts : List Node) (span : Span) (pending : Use → Prop),
      (∀ t ∈ ts, Tree.Below root span t) → (∀ u, Inside scope.source span u → pending u) →
      (∀ site, around = some site → ∀ t ∈ ts, site.span.Contains t.span) →
      Covered pending (walkAll src scope around before ts)
  | [], _, _, _, _, _ => by rw [walkAll]; exact covered_nil
  | t :: ts, span, pending, h, hp, haround => by
    rw [walkAll]
    refine Covered.append ?_ (covered_walkAll hroot scope around _ ts span pending
      (fun x hx => h x (List.mem_cons_of_mem _ hx)) hp
      fun site hsite x hx => haround site hsite x (List.mem_cons_of_mem _ hx))
    split
    · refine covered_walk hroot scope _ before t span pending (h t List.mem_cons_self) hp ?_
      intro site hsite
      split at hsite
      · exact haround site hsite t List.mem_cons_self
      · cases hsite
    · exact covered_nil
termination_by structural ts => ts

theorem covered_walkIn (hroot : root.Nested) (scope : Scope) (role : Role) (before : List Node) :
    ∀ (ts : List Node) (span : Span) (pending : Use → Prop), (∀ t ∈ ts, Tree.Below root span t) →
      (∀ u, Inside scope.source span u → pending u) → Covered pending (walkIn src scope role before ts)
  | [], _, _, _, _ => by rw [walkIn]; exact covered_nil
  | t :: ts, span, pending, h, hp => by
    rw [walkIn]
    split
    · exact covered_walk hroot scope none before t span pending (h t List.mem_cons_self) hp (by simp)
    · exact covered_walkIn hroot scope role _ ts span pending
        (fun x hx => h x (List.mem_cons_of_mem _ hx)) hp
termination_by structural ts => ts

theorem covered_walkDecorators (hroot : root.Nested) (scope : Scope) (before : List Node) :
    ∀ (ts : List Node) (span : Span) (pending : Use → Prop), (∀ t ∈ ts, Tree.Below root span t) →
      (∀ u, Inside scope.source span u → pending u) →
      Covered pending (walkDecorators src scope before ts)
  | [], _, _, _, _ => by rw [walkDecorators]; exact covered_nil
  | t :: ts, span, pending, h, hp => by
    rw [walkDecorators]
    refine Covered.append ?_ (covered_walkDecorators hroot scope _ ts span pending
      (fun x hx => h x (List.mem_cons_of_mem _ hx)) hp)
    split
    · exact covered_walk hroot scope none before t span pending (h t List.mem_cons_self) hp (by simp)
    · exact covered_nil
termination_by structural ts => ts

theorem covered_walkDefinition (hroot : root.Nested) (scope : Scope) (site : Site)
    (before : List Node) : ∀ (ts : List Node) (span : Span) (pending : Use → Prop),
      (∀ t ∈ ts, Tree.Below root span t) → (∀ u, Inside scope.source span u → pending u) →
      (∀ t ∈ ts, site.span.Contains t.span) →
      Covered pending (walkDefinition src scope site before ts)
  | [], _, _, _, _, _ => by rw [walkDefinition]; exact covered_nil
  | t :: ts, span, pending, h, hp, hsite => by
    rw [walkDefinition]
    split
    · refine covered_walk hroot scope _ before t span pending (h t List.mem_cons_self) hp ?_
      intro site' hsite'
      split at hsite'
      · cases hsite'
        exact hsite t List.mem_cons_self
      · cases hsite'
    · exact covered_walkDefinition hroot scope site _ ts span pending
        (fun x hx => h x (List.mem_cons_of_mem _ hx)) hp
        fun x hx => hsite x (List.mem_cons_of_mem _ hx)
termination_by structural ts => ts

/-- The bases of a class are recorded for the class, and what else stands among them for the symbol
around it. -/
theorem covered_walkSuperclasses (hroot : root.Nested) (scope : Scope) (name : String) :
    ∀ (ts : List Node) (span inner : Span) (pending : Use → Prop),
      (∀ t ∈ ts, Tree.Below root span t) → (∀ t ∈ ts, Tree.Below root inner t) →
      (∀ u, Inside scope.source span u → pending u) →
      (∀ u, Inside (some name) inner u → pending u) →
      Covered pending (walkSuperclasses src scope name ts)
  | [], _, _, _, _, _, _, _ => by rw [walkSuperclasses]; exact covered_nil
  | .node label role s children :: ts, span, inner, pending, h, hinner, hp, hname => by
    rw [walkSuperclasses]
    split
    · exact covered_walkBases hroot scope name [] children span inner pending
        (fun t ht => (h _ List.mem_cons_self).child hroot ht)
        (fun t ht => (hinner _ List.mem_cons_self).child hroot ht) hp hname
    · exact covered_walkSuperclasses hroot scope name ts span inner pending
        (fun x hx => h x (List.mem_cons_of_mem _ hx))
        (fun x hx => hinner x (List.mem_cons_of_mem _ hx)) hp hname
termination_by structural ts => ts

theorem covered_walkBases (hroot : root.Nested) (scope : Scope) (name : String)
    (before : List Node) : ∀ (ts : List Node) (span inner : Span) (pending : Use → Prop),
      (∀ t ∈ ts, Tree.Below root span t) → (∀ t ∈ ts, Tree.Below root inner t) →
      (∀ u, Inside scope.source span u → pending u) →
      (∀ u, Inside (some name) inner u → pending u) →
      Covered pending (walkBases src scope name before ts)
  | [], _, _, _, _, _, _, _ => by rw [walkBases]; exact covered_nil
  | t :: ts, span, inner, pending, h, hinner, hp, hname => by
    rw [walkBases]
    refine Covered.append ?_ (covered_walkBases hroot scope name _ ts span inner pending
      (fun x hx => h x (List.mem_cons_of_mem _ hx))
      (fun x hx => hinner x (List.mem_cons_of_mem _ hx)) hp hname)
    split
    · exact covered_baseFacts hroot hname (hinner t List.mem_cons_self)
    · exact covered_baseFacts hroot hname (hinner t List.mem_cons_self)
    · split
      · exact covered_walk hroot scope none before t span pending (h t List.mem_cons_self) hp
          (by simp)
      · exact covered_nil
termination_by structural ts => ts

theorem covered_annotate (hroot : root.Nested) (owner : String) (isType : Bool) :
    ∀ (t : Node) (span : Span) (pending : Use → Prop), Tree.Below root span t →
      (∀ u, Inside (some owner) span u → pending u) → Covered pending (annotate src owner isType t)
  | .node label role s children, span, pending, h, hp => by
    have hstart : At span s.start := at_of_below hroot h
    have hchildren : ∀ t ∈ children, Tree.Below root span t := fun t ht => h.child hroot ht
    rw [annotate]
    split
    · exact Covered.getD_map fun n => covered_link hp hstart
    · refine Covered.append ?_
        (covered_annotateAll hroot owner _ _ children span pending hchildren hp)
      split
      · exact covered_walkIn hroot ⟨some owner, none⟩ .value [] children span pending hchildren hp
      · exact covered_nil
termination_by structural t => t

theorem covered_annotateAll (hroot : root.Nested) (owner : String) (isType skipValue : Bool) :
    ∀ (ts : List Node) (span : Span) (pending : Use → Prop), (∀ t ∈ ts, Tree.Below root span t) →
      (∀ u, Inside (some owner) span u → pending u) →
      Covered pending (annotateAll src owner isType skipValue ts)
  | [], _, _, _, _ => by rw [annotateAll]; exact covered_nil
  | t :: ts, span, pending, h, hp => by
    have hrest : ∀ x ∈ ts, Tree.Below root span x := fun x hx => h x (List.mem_cons_of_mem _ hx)
    rw [annotateAll]
    split
    · exact covered_annotateAll hroot owner isType false ts span pending hrest hp
    · refine Covered.append ?_ (covered_annotateAll hroot owner isType _ ts span pending hrest hp)
      split
      · exact covered_annotate hroot owner isType t span pending (h t List.mem_cons_self) hp
      · exact covered_nil
termination_by structural ts => ts

theorem covered_annotateIn (hroot : root.Nested) (owner : String) (role : Role) (isType : Bool) :
    ∀ (ts : List Node) (span : Span) (pending : Use → Prop), (∀ t ∈ ts, Tree.Below root span t) →
      (∀ u, Inside (some owner) span u → pending u) →
      Covered pending (annotateIn src owner role isType ts)
  | [], _, _, _, _ => by rw [annotateIn]; exact covered_nil
  | t :: ts, span, pending, h, hp => by
    rw [annotateIn]
    split
    · exact covered_annotate hroot owner isType t span pending (h t List.mem_cons_self) hp
    · exact covered_annotateIn hroot owner role isType ts span pending
        (fun x hx => h x (List.mem_cons_of_mem _ hx)) hp
termination_by structural ts => ts

end

end Python

/-! ## Rust -/

namespace Rust

open Syntax.Rust

variable {src : Source} {root : Node} {pending : Use → Prop} {span : Span}

/-- The use of a trait by an implementation of it in a tree. -/
def TraitUse (src : Source) (root : Node) (u : Use) : Prop :=
  ∃ item ∈ root.nodes, item.label = .kind .implItem ∧ ∃ target, implTarget? src item = some target ∧
    u ∈ (implFacts src item target).filterMap Fact.use?

mutual

theorem at_of_mem_typeNames (hroot : root.Nested) : ∀ t : Node, Tree.Below root span t →
    ∀ x ∈ typeNames src t, At span x.2.2
  | .node label role s children, h => by
    have hstart : At span s.start := at_of_below hroot h
    unfold typeNames
    dsimp only
    split
    · cases Tree.text? src (.node (.kind .typeName) role s children : Node) with
      | none => simp
      | some n => simpa using hstart
    · cases Tree.childText? src (.node (.kind .scopedType) role s children : Node) .name with
      | none => simp
      | some n => simpa using hstart
    · simp
    · simp
    · simp
    · exact at_of_mem_typeNamesIn hroot children fun t ht => h.child hroot ht

/-- The types that type expressions name are inside them. -/
theorem at_of_mem_typeNamesIn (hroot : root.Nested) : ∀ ts : List Node,
    (∀ t ∈ ts, Tree.Below root span t) → ∀ x ∈ typeNamesIn src ts, At span x.2.2
  | [], _ => by simp [typeNamesIn]
  | t :: ts, h => by
    rw [typeNamesIn]
    refine List.forall_mem_append.mpr ⟨?_,
      at_of_mem_typeNamesIn hroot ts fun x hx => h x (List.mem_cons_of_mem _ hx)⟩
    split
    · exact at_of_mem_typeNames hroot t (h t List.mem_cons_self)
    · simp

end

theorem covered_linkTypes (hroot : root.Nested) {source : String}
    (hp : ∀ u, Inside (some source) span u → pending u) {t : Node} (h : Tree.Below root span t)
    (scope : Scope) (edge : EdgeKind) : Covered pending (linkTypes src scope source edge t) :=
  Covered.flatMap fun x hx => covered_link hp (at_of_mem_typeNames hroot t h x hx)

/-- The types that a part of a node names, if there is such a part. -/
theorem covered_linkPart (hroot : root.Nested) {source : String}
    (hp : ∀ u, Inside (some source) span u → pending u) {t : Node} (h : Tree.Below root span t)
    (scope : Scope) (edge : EdgeKind) (role : Role) :
    Covered pending (match t.child? role with
      | some part => linkTypes src scope source edge part
      | none => []) := by
  split
  · next part hpart => exact covered_linkTypes hroot hp (h.child? hroot hpart) scope edge
  · exact covered_nil

/-- An item covers what is inside it. -/
theorem Covered.item {scope : Scope} {t : Node} {before : List Node} {name : String}
    {kind : SymbolKind} {signature : Option String} {facts : List Fact}
    (h : Covered (fun u => pending u ∨ Inside (some name) t.span u) facts) :
    Covered pending (.declares { symbol src scope t before name kind with signature } :: facts) :=
  h.close rfl rfl (.refl _)

/-- A function covers what is inside it. -/
theorem covered_functionFacts (hroot : root.Nested) (scope : Scope) {t : Node}
    (h : Tree.Below root span t) (before : List Node) (name : String) {facts : List Fact}
    (hfacts : Covered (fun u => pending u ∨ Inside (some name) t.span u) facts) :
    Covered pending (functionFacts src scope t before name ++ facts) := by
  refine Covered.item (Covered.append ?_ hfacts)
  exact Covered.flatMap fun role _ => covered_linkPart hroot (fun _ => Or.inr) h.self scope .uses role

/-- A struct covers the types that it holds. -/
theorem covered_structFacts (hroot : root.Nested) {t : Node} (h : Tree.Below root span t)
    (before : List Node) : Covered pending (structFacts src t before) := by
  unfold structFacts
  split
  · exact covered_nil
  · next name _ =>
    refine Covered.item ?_
    split
    · exact covered_nil
    · next body hbody =>
      refine Covered.flatMap fun x hx => ?_
      have hfield := (h.self.child? hroot hbody).child hroot (mem_of_mem_sitedChildren hx)
      refine Covered.append (covered_of_forall ?_) (covered_linkTypes hroot (fun _ => Or.inr) ?_ _ _)
      · intro y hy
        obtain ⟨-, -, hy⟩ := Option.bind_eq_some_iff.mp (Option.mem_toList.mp hy)
        obtain ⟨n, -, hy⟩ := Option.bind_eq_some_iff.mp hy
        cases hy
        rfl
      · cases htype : x.2.child? .type with
        | none => exact hfield
        | some type => exact hfield.child? hroot htype

/-- An item that is known by its name covers the type that it states and its value. -/
theorem covered_namedFacts (hroot : root.Nested) (scope : Scope) {t : Node}
    (h : Tree.Below root span t) (before : List Node) (kind : SymbolKind) (name : String)
    {facts : List Fact}
    (hfacts : Covered (fun u => pending u ∨ Inside (some name) t.span u) facts) :
    Covered pending (namedFacts src scope t before kind name ++ facts) := by
  refine Covered.item (Covered.append ?_ hfacts)
  exact covered_linkPart hroot (fun _ => Or.inr) h.self scope .uses .type

/-- A trait covers the traits that it builds on. -/
theorem covered_traitFacts (hroot : root.Nested) {t : Node} (h : Tree.Below root span t)
    (before : List Node) (name : String) : Covered pending (traitFacts src t before name) := by
  exact Covered.item (covered_linkPart hroot (fun _ => Or.inr) h.self {} .inherits .bounds)

theorem covered_useFacts (t : Node) : Covered pending (useFacts src t) := by
  unfold useFacts
  split
  · exact covered_nil
  · exact covered_of_forall (by simp [importOf, Fact.use?])

theorem covered_callFacts (hroot : root.Nested) {scope : Scope}
    (hp : ∀ u, Inside scope.source span u → pending u) {t : Node} (h : Tree.Below root span t) :
    Covered pending (callFacts src scope t) := by
  unfold callFacts
  dsimp only
  split
  · exact covered_nil
  · next f hf =>
    have hstart : At span f.span.start := by
      obtain ⟨g, hg, hf⟩ := Option.bind_eq_some_iff.mp hf
      split at hf
      · exact at_of_below hroot ((h.child? hroot hg).child? hroot hf)
      · cases hf
        exact at_of_below hroot (h.child? hroot hg)
    split
    · exact Covered.getD_map fun name => covered_link hp hstart
    · exact Covered.getD_map fun name => covered_link hp hstart
    · exact Covered.getD_map fun name => covered_link hp hstart
    · exact covered_nil

theorem covered_localFacts (hroot : root.Nested) {scope : Scope}
    (hp : ∀ u, Inside scope.source span u → pending u) {t : Node} (h : Tree.Below root span t) :
    Covered pending (localFacts src scope t) := by
  unfold localFacts
  split
  · exact covered_callFacts hroot hp h
  · unfold literalFacts
    split
    · exact covered_nil
    · next type htype =>
      split
      · exact covered_nil
      · exact covered_link hp (at_of_below hroot (h.child? hroot htype))
  · exact covered_nil

mutual

/-- **The facts of a nested tree are covered**, where the uses that are recorded for the symbol around
it are pending, and so are those of traits by their implementations. -/
theorem covered_walk (hroot : root.Nested) (scope : Scope) (before : List Node) :
    ∀ (t : Node) (span : Span) (pending : Use → Prop), Tree.Below root span t →
      (∀ u, Inside scope.source span u → pending u) → (∀ u, TraitUse src root u → pending u) →
      Covered pending (walk src scope before t)
  | .node label role s children, span, pending, h, hp, htrait => by
    have hinner : ∀ t ∈ children, Tree.Below root s t := fun t ht => h.self.child hroot ht
    -- the body of a symbol, whose uses are inside its node
    have hvalue : ∀ (name : String) (scope : Scope) (role : Role), scope.source = some name →
        Covered (fun u => pending u ∨ Inside (some name) s u) (walkIn src scope role [] children) :=
      fun name scope role hscope =>
        covered_walkIn hroot scope role [] children s _ hinner
          (fun u hu => Or.inr (by rwa [hscope] at hu)) fun u hu => Or.inl (htrait u hu)
    unfold walk
    dsimp only
    split
    · split
      · exact covered_nil
      · exact covered_functionFacts hroot scope h before _ (hvalue _ _ _ rfl)
    · split
      · exact covered_nil
      · exact covered_functionFacts hroot scope h before _ (hvalue _ _ _ rfl)
    · exact covered_structFacts hroot h before
    · split
      · exact covered_nil
      · exact (covered_traitFacts hroot h before _).append
          (covered_walkBody hroot _ children s pending hinner
            (fun _ hu => absurd hu not_inside_none) htrait)
    · split
      · exact covered_nil
      · next target htarget =>
        refine Covered.append (fun u hu => Or.inr (Or.inr (htrait u ?_)))
          (covered_walkBody hroot _ children s pending hinner
            (fun _ hu => absurd hu not_inside_none) htrait)
        exact ⟨_, h.mem, rfl, target, htarget, List.mem_filterMap.mpr ⟨_, hu, rfl⟩⟩
    · split
      · exact covered_nil
      · exact (covered_walkIn hroot {} .body [] children s pending hinner
          (fun _ hu => absurd hu not_inside_none) htrait).declare _
    · exact covered_useFacts _
    · split
      · split
        · exact covered_nil
        · exact covered_namedFacts hroot scope h before _ _ (hvalue _ _ _ rfl)
      · exact (covered_localFacts hroot hp h).append
          (covered_walkAll hroot scope [] children span pending (fun t ht => h.child hroot ht) hp
            htrait)
termination_by structural t => t

theorem covered_walkAll (hroot : root.Nested) (scope : Scope) (before : List Node) :
    ∀ (ts : List Node) (span : Span) (pending : Use → Prop), (∀ t ∈ ts, Tree.Below root span t) →
      (∀ u, Inside scope.source span u → pending u) → (∀ u, TraitUse src root u → pending u) →
      Covered pending (walkAll src scope before ts)
  | [], _, _, _, _, _ => by rw [walkAll]; exact covered_nil
  | t :: ts, span, pending, h, hp, htrait => by
    rw [walkAll]
    refine Covered.append ?_ (covered_walkAll hroot scope _ ts span pending
      (fun x hx => h x (List.mem_cons_of_mem _ hx)) hp htrait)
    split
    · exact covered_walk hroot scope before t span pending (h t List.mem_cons_self) hp htrait
    · exact covered_nil
termination_by structural ts => ts

theorem covered_walkIn (hroot : root.Nested) (scope : Scope) (role : Role) (before : List Node) :
    ∀ (ts : List Node) (span : Span) (pending : Use → Prop), (∀ t ∈ ts, Tree.Below root span t) →
      (∀ u, Inside scope.source span u → pending u) → (∀ u, TraitUse src root u → pending u) →
      Covered pending (walkIn src scope role before ts)
  | [], _, _, _, _, _ => by rw [walkIn]; exact covered_nil
  | t :: ts, span, pending, h, hp, htrait => by
    rw [walkIn]
    split
    · exact covered_walk hroot scope before t span pending (h t List.mem_cons_self) hp htrait
    · exact covered_walkIn hroot scope role _ ts span pending
        (fun x hx => h x (List.mem_cons_of_mem _ hx)) hp htrait
termination_by structural ts => ts

theorem covered_walkBody (hroot : root.Nested) (scope : Scope) :
    ∀ (ts : List Node) (span : Span) (pending : Use → Prop), (∀ t ∈ ts, Tree.Below root span t) →
      (∀ u, Inside scope.source span u → pending u) → (∀ u, TraitUse src root u → pending u) →
      Covered pending (walkBody src scope ts)
  | [], _, _, _, _, _ => by rw [walkBody]; exact covered_nil
  | .node label role s children :: ts, span, pending, h, hp, htrait => by
    rw [walkBody]
    split
    · exact covered_walkItems hroot scope [] children span pending
        (fun t ht => (h _ List.mem_cons_self).child hroot ht) hp htrait
    · exact covered_walkBody hroot scope ts span pending
        (fun x hx => h x (List.mem_cons_of_mem _ hx)) hp htrait
termination_by structural ts => ts

theorem covered_walkItems (hroot : root.Nested) (scope : Scope) (before : List Node) :
    ∀ (ts : List Node) (span : Span) (pending : Use → Prop), (∀ t ∈ ts, Tree.Below root span t) →
      (∀ u, Inside scope.source span u → pending u) → (∀ u, TraitUse src root u → pending u) →
      Covered pending (walkItems src scope before ts)
  | [], _, _, _, _, _ => by rw [walkItems]; exact covered_nil
  | .node label role s children :: ts, span, pending, h, hp, htrait => by
    have hitem := h _ List.mem_cons_self
    rw [walkItems]
    refine Covered.append ?_ (covered_walkItems hroot scope _ ts span pending
      (fun x hx => h x (List.mem_cons_of_mem _ hx)) hp htrait)
    split
    · split
      · exact covered_nil
      · next name _ =>
        refine covered_namedFacts hroot scope hitem before _ name (covered_walkIn hroot _ .value []
          children s _ (fun t ht => hitem.self.child hroot ht) ?_ ?_)
        · exact fun _ => Or.inr
        · exact fun u hu => Or.inl (htrait u hu)
    · split
      · exact covered_walk hroot scope before (.node label role s children) span pending hitem hp
          htrait
      · exact covered_nil
termination_by structural ts => ts

end

end Rust

end Outline

end CodeAtlas
