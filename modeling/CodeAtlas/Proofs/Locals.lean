import Mathlib.Data.Option.Basic
import CodeAtlas.Proofs.Facts

/-!
# What a node tells by itself

Some of what is recorded of a declaration is read off its own node: where its body starts, who
receives it, how visible it says it is. All of this can be read in the bytes of the node alone.

* `Tree.relative`, `Tree.own`: a node with its places counted from an offset, and from its own start.
* `Tree.Bounded`: no node reaches out of the bytes of its parent.
* `Tree.Local`: what is read off a node can be read in its bytes alone.
* `Tree.Agree`: two trees read declaring nodes with the same bytes alike.
* **`Tree.Agree.eq`**: then what is local is the same for such nodes.
* `Tree.signatureBefore_own`, `Go.local_receiver?`, `Python.local_docstringAt`,
  `Rust.local_visibility`: what is local.
-/

namespace CodeAtlas

namespace Syntax

/-- A span counted from an offset on, by its bytes only. -/
def Span.relative (o : Nat) (s : Span) : Span :=
  ⟨{ byte := s.start.byte - o }, { byte := s.stop.byte - o }⟩

namespace Tree

variable {κ φ α : Type}

/-! ## Equality of trees -/

section Equality

variable [DecidableEq κ] [DecidableEq φ]

mutual

/-- Whether two trees are the same. -/
def decideEq : (t u : Tree κ φ) → Decidable (t = u)
  | node label role span children, node label' role' span' children' =>
    match decideEqIn children children' with
    | isTrue h => decidable_of_iff (label = label' ∧ role = role' ∧ span = span') (by simp [h])
    | isFalse h => isFalse (by simp [h])

/-- Whether two lists of trees are the same. -/
def decideEqIn : (ts us : List (Tree κ φ)) → Decidable (ts = us)
  | [], [] => isTrue rfl
  | [], _ :: _ => isFalse (by simp)
  | _ :: _, [] => isFalse (by simp)
  | t :: ts, u :: us =>
    match decideEq t u, decideEqIn ts us with
    | isTrue h, isTrue h' => isTrue (by rw [h, h'])
    | isFalse h, _ => isFalse (by simp [h])
    | _, isFalse h => isFalse (by simp [h])

end

instance : DecidableEq (Tree κ φ) := decideEq

end Equality

/-! ## Nodes by themselves -/

mutual

/-- A tree with its places counted from an offset on. -/
def relative (o : Nat) : Tree κ φ → Tree κ φ
  | node label role span children => node label role (span.relative o) (relativeIn o children)

/-- Trees with their places counted from an offset on. -/
def relativeIn (o : Nat) : List (Tree κ φ) → List (Tree κ φ)
  | [] => []
  | t :: ts => relative o t :: relativeIn o ts

end

/-- A node by itself: counted from its start, and without the role it plays in its parent. -/
def own (t : Tree κ φ) : Tree κ φ :=
  match t.relative t.span.start.byte with
  | node label _ span children => node label none span children

/-- The bytes of a node. -/
def bytes (src : Source) (t : Tree κ φ) : ByteArray :=
  src.slice t.span.start.byte t.span.stop.byte

/-- **No node ends before its start or reaches out of the bytes of its parent.** -/
def Bounded (t : Tree κ φ) : Prop :=
  ∀ x ∈ t.nodes, x.span.start.byte ≤ x.span.stop.byte ∧ ∀ c ∈ x.children,
    x.span.start.byte ≤ c.span.start.byte ∧ c.span.stop.byte ≤ x.span.stop.byte

instance (t : Tree κ φ) : Decidable t.Bounded :=
  inferInstanceAs (Decidable (∀ x ∈ t.nodes, x.span.start.byte ≤ x.span.stop.byte ∧
    ∀ c ∈ x.children, x.span.start.byte ≤ c.span.start.byte ∧
      c.span.stop.byte ≤ x.span.stop.byte))

/-- What is read off a node can be read in its bytes alone. -/
def Local (f : Source → Tree κ φ → α) : Prop :=
  ∀ src t, t.Bounded → f ⟨t.bytes src⟩ t.own = f src t

/-- **Two texts with their trees read declarations alike**: nodes that declare something and have the
same bytes are the same by themselves. -/
def Agree [DecidableEq κ] [DecidableEq φ] (declaring : List (Label κ)) (v₁ v₂ : Source)
    (t₁ t₂ : Tree κ φ) : Prop :=
  t₁.Bounded ∧ t₂.Bounded ∧ ∀ x₁ ∈ t₁.nodes, ∀ x₂ ∈ t₂.nodes,
    x₁.label ∈ declaring → x₂.label ∈ declaring → x₁.bytes v₁ = x₂.bytes v₂ → x₁.own = x₂.own

instance [DecidableEq κ] [DecidableEq φ] (declaring : List (Label κ)) (v₁ v₂ : Source)
    (t₁ t₂ : Tree κ φ) : Decidable (t₁.Agree declaring v₁ v₂ t₂) :=
  inferInstanceAs (Decidable (t₁.Bounded ∧ t₂.Bounded ∧ ∀ x₁ ∈ t₁.nodes, ∀ x₂ ∈ t₂.nodes,
    x₁.label ∈ declaring → x₂.label ∈ declaring → x₁.bytes v₁ = x₂.bytes v₂ → x₁.own = x₂.own))

section Nodes

variable {root t c x : Tree κ φ}

mutual

/-- The nodes below a node of a tree are nodes of the tree. -/
theorem mem_nodes_trans (hc : c ∈ t.nodes) : ∀ root : Tree κ φ, t ∈ root.nodes → c ∈ root.nodes
  | node label role span children, ht => by
    rw [nodes] at ht
    rcases List.mem_cons.mp ht with rfl | ht
    · exact hc
    · rw [nodes]
      exact List.mem_cons_of_mem _ (mem_nodesIn_trans hc children ht)

theorem mem_nodesIn_trans (hc : c ∈ t.nodes) :
    ∀ ts : List (Tree κ φ), t ∈ nodesIn ts → c ∈ nodesIn ts
  | [], ht => by simp [nodesIn] at ht
  | x :: ts, ht => by
    rw [nodesIn, List.mem_append] at ht ⊢
    exact ht.imp (mem_nodes_trans hc x) (mem_nodesIn_trans hc ts)

end

theorem Bounded.of_mem (h : root.Bounded) (ht : t ∈ root.nodes) : t.Bounded :=
  fun x hx => h x (mem_nodes_trans hx root ht)

mutual

/-- **The nodes below a node lie in its bytes.** -/
theorem Bounded.within : ∀ t : Tree κ φ, t.Bounded → c ∈ t.nodes →
    t.span.start.byte ≤ c.span.start.byte ∧ c.span.stop.byte ≤ t.span.stop.byte
  | node label role span children, h, hc => by
    rw [nodes] at hc
    rcases List.mem_cons.mp hc with rfl | hc
    · exact ⟨Nat.le_refl _, Nat.le_refl _⟩
    · refine Bounded.withinIn span children (fun x hx => ⟨h.of_mem ?_, ?_⟩) hc
      · exact mem_nodes_of_mem_children (t := node label role span children) hx _ (mem_nodes_self _)
      · exact (h _ (mem_nodes_self _)).2 x hx

theorem Bounded.withinIn (span : Span) : ∀ ts : List (Tree κ φ),
    (∀ x ∈ ts, x.Bounded ∧ span.start.byte ≤ x.span.start.byte ∧
      x.span.stop.byte ≤ span.stop.byte) → c ∈ nodesIn ts →
    span.start.byte ≤ c.span.start.byte ∧ c.span.stop.byte ≤ span.stop.byte
  | [], _, hc => by simp [nodesIn] at hc
  | x :: ts, h, hc => by
    obtain ⟨⟨hx, hstart, hstop⟩, hts⟩ := List.forall_mem_cons.mp h
    rw [nodesIn, List.mem_append] at hc
    rcases hc with hc | hc
    · obtain ⟨hstart', hstop'⟩ := Bounded.within x hx hc
      exact ⟨Nat.le_trans hstart hstart', Nat.le_trans hstop' hstop⟩
    · exact Bounded.withinIn span ts hts hc

end

theorem mem_nodes_of_child? [DecidableEq φ] {r : φ} (hroot : t ∈ root.nodes)
    (hc : t.child? r = some c) : c ∈ root.nodes :=
  mem_nodes_of_mem_children (List.mem_of_find?_eq_some hc) root hroot

theorem mem_nodes_of_named (hroot : t ∈ root.nodes) (hc : c ∈ t.named) : c ∈ root.nodes :=
  mem_nodes_of_mem_children (List.mem_filter.mp hc).1 root hroot

/-! ## Lookups in a node by itself -/

variable (o : Nat)

theorem relativeIn_eq_map (ts : List (Tree κ φ)) : relativeIn o ts = ts.map (relative o) := by
  induction ts with
  | nil => rfl
  | cons t ts ih => rw [relativeIn, ih, List.map_cons]

@[simp] theorem label_relative (t : Tree κ φ) : (t.relative o).label = t.label := by
  cases t; rfl

@[simp] theorem role_relative (t : Tree κ φ) : (t.relative o).role = t.role := by
  cases t; rfl

@[simp] theorem span_relative (t : Tree κ φ) : (t.relative o).span = t.span.relative o := by
  cases t; rfl

@[simp] theorem children_relative (t : Tree κ φ) :
    (t.relative o).children = t.children.map (relative o) := by
  cases t; exact relativeIn_eq_map o _

theorem child?_relative [DecidableEq φ] (t : Tree κ φ) (r : φ) :
    (t.relative o).child? r = (t.child? r).map (relative o) := by
  rw [child?, child?, children_relative, List.find?_map]
  congr 2
  funext x
  rw [Function.comp, role_relative]

theorem named_relative (t : Tree κ φ) : (t.relative o).named = t.named.map (relative o) := by
  rw [named, named, children_relative, List.filter_map]
  congr 2
  funext x
  rw [Function.comp, label_relative]

mutual

theorem find?_relative (p : Label κ → Bool) :
    ∀ t : Tree κ φ, (t.relative o).find? p = (t.find? p).map (relative o)
  | node label role span children => by
    rw [relative, find?, find?]
    split
    · rfl
    · exact findIn?_relative p children

theorem findIn?_relative (p : Label κ → Bool) :
    ∀ ts : List (Tree κ φ), findIn? p (relativeIn o ts) = (findIn? p ts).map (relative o)
  | [] => rfl
  | t :: ts => by
    rw [relativeIn, findIn?, findIn?, findIn?_relative p ts, label_relative, Option.map_or]
    split
    · rw [find?_relative p t]
    · rfl

end

/-! ## Texts in the bytes of a node -/

variable {src : Source}

/-- The bytes of a part are in the bytes of the whole. -/
theorem slice_relative {o e a b : Nat} (ha : o ≤ a) (hab : a ≤ b) (hb : b ≤ e) :
    (⟨src.slice o e⟩ : Source).slice (a - o) (b - o) = src.slice a b := by
  rw [Source.slice, Source.slice, Source.slice, ByteArray.extract_extract]
  congr 1 <;> omega

theorem text?_relative (hx : x.Bounded) (ht : t ∈ x.nodes) :
    (t.relative x.span.start.byte).text? ⟨x.bytes src⟩ = t.text? src := by
  obtain ⟨hstart, hstop⟩ := Bounded.within x hx ht
  rw [text?, text?, Source.text?, Source.text?, span_relative, Source.textBetween?,
    Source.textBetween?, Span.relative, bytes, slice_relative hstart (hx t ht).1 hstop]

theorem signatureBefore_relative [DecidableEq φ] (hx : x.Bounded) (ht : t ∈ x.nodes) (body : φ) :
    Outline.signatureBefore ⟨x.bytes src⟩ (t.relative x.span.start.byte) body =
      Outline.signatureBefore src t body := by
  obtain ⟨hstart, hstop⟩ := Bounded.within x hx ht
  have hbetween : ∀ stop, t.span.start.byte ≤ stop → stop ≤ x.span.stop.byte →
      Outline.signatureBetween ⟨x.bytes src⟩ (t.span.start.byte - x.span.start.byte)
        (stop - x.span.start.byte) = Outline.signatureBetween src t.span.start.byte stop := by
    intro stop hle hle'
    rw [Outline.signatureBetween, Outline.signatureBetween, Source.textBetween?,
      Source.textBetween?, bytes, slice_relative hstart hle hle']
  unfold Outline.signatureBefore
  rw [child?_relative, span_relative]
  cases hb : t.child? body with
  | none => exact hbetween _ (hx t ht).1 hstop
  | some b =>
    have hbx := mem_nodes_of_child? ht hb
    have hbt := (hx t ht).2 b (List.mem_of_find?_eq_some hb)
    simp only [Option.map_some, span_relative]
    exact hbetween _ hbt.1 (Nat.le_trans (hx b hbx).1 (Bounded.within x hx hbx).2)

/-- What can be read in the bytes of any node around, and does not depend on the role, is local. -/
theorem local_of_relative {f : Source → Tree κ φ → α}
    (hrole : ∀ src label role role' span children,
      f src (node label role span children) = f src (node label role' span children))
    (hf : ∀ src (x t : Tree κ φ), x.Bounded → t ∈ x.nodes →
      f ⟨x.bytes src⟩ (t.relative x.span.start.byte) = f src t) : Local f := by
  intro src t ht
  rw [← hf src t t ht t.mem_nodes_self]
  cases t
  exact hrole _ _ _ _ _ _

theorem signatureBefore_own [DecidableEq φ] (ht : t.Bounded) (body : φ) :
    Outline.signatureBefore ⟨t.bytes src⟩ t.own body = Outline.signatureBefore src t body := by
  have hlocal : Local fun src (t : Tree κ φ) => Outline.signatureBefore src t body :=
    local_of_relative (fun _ _ _ _ _ _ => rfl) fun _ _ _ hx ht => signatureBefore_relative hx ht body
  exact hlocal src t ht

theorem text?_own (ht : t.Bounded) : t.own.text? ⟨t.bytes src⟩ = t.text? src := by
  have hlocal : Local fun src (t : Tree κ φ) => t.text? src :=
    local_of_relative (fun _ _ _ _ _ _ => rfl) fun _ _ _ hx ht => text?_relative hx ht
  exact hlocal src t ht

@[simp] theorem label_own (t : Tree κ φ) : t.own.label = t.label := by
  cases t; rfl

/-- **Declaring nodes with the same bytes tell the same.** -/
theorem Agree.eq [DecidableEq κ] [DecidableEq φ] {declaring : List (Label κ)} {v₁ v₂ : Source}
    {t₁ t₂ x₁ x₂ : Tree κ φ} (h : t₁.Agree declaring v₁ v₂ t₂) {f : Source → Tree κ φ → α}
    (hf : Local f) (hx₁ : x₁ ∈ t₁.nodes) (hx₂ : x₂ ∈ t₂.nodes) (hl₁ : x₁.label ∈ declaring)
    (hl₂ : x₂.label ∈ declaring) (hbytes : x₁.bytes v₁ = x₂.bytes v₂) : f v₁ x₁ = f v₂ x₂ := by
  obtain ⟨hb₁, hb₂, hown⟩ := h
  calc f v₁ x₁ = f ⟨x₁.bytes v₁⟩ x₁.own := (hf v₁ x₁ (hb₁.of_mem hx₁)).symm
    _ = f ⟨x₂.bytes v₂⟩ x₂.own := by rw [hown x₁ hx₁ x₂ hx₂ hl₁ hl₂ hbytes, hbytes]
    _ = f v₂ x₂ := hf v₂ x₂ (hb₂.of_mem hx₂)

end Nodes

end Tree

end Syntax

open Syntax

/-! ## Receivers, docstrings and visibility -/

namespace Outline.Go

theorem local_receiver? : Tree.Local (Go.receiver? : Source → Node → Option String) := by
  refine Tree.local_of_relative (fun _ _ _ _ _ _ => rfl) fun src x t hx ht => ?_
  unfold receiver?
  rw [Tree.label_relative, Tree.child?_relative]
  cases hr : t.child? .receiver with
  | none => rfl
  | some r =>
    have hrx := Tree.mem_nodes_of_child? ht hr
    simp only [Option.map_some, Option.bind_eq_bind, Option.bind_some, Tree.find?_relative]
    cases hty : r.find? (· == .kind .typeName) with
    | none => rfl
    | some type =>
      simp only [Option.map_some, Option.bind_some]
      rw [Tree.text?_relative hx (Tree.mem_nodes_of_find? x r hrx hty)]

end Outline.Go

namespace Outline.Python

/-- The definition that a node is or decorates. -/
def definitionAt (n : Node) : Option Node :=
  if n.label == .kind .decorated then n.child? .definition else some n

/-- The string that the body of a definition starts with, decorated or not. -/
def docstringAt (src : Source) (n : Node) : Option String := (definitionAt n).bind (docstring src)

/-- The text of a definition up to its body, decorated or not. -/
def signatureAt (src : Source) (n : Node) : Option String :=
  (definitionAt n).bind fun t => signatureBefore src t .body

/-- What is read off a definition can be read off the node that decorates it. -/
theorem local_definitionAt {f : Source → Node → Option String}
    (hrole : ∀ src label role role' span children,
      f src (.node label role span children) = f src (.node label role' span children))
    (hf : ∀ src (x t : Node), x.Bounded → t ∈ x.nodes →
      f ⟨x.bytes src⟩ (t.relative x.span.start.byte) = f src t) :
    Tree.Local fun src n => (definitionAt n).bind (f src) := by
  refine Tree.local_of_relative (fun src label role role' span children => ?_)
    fun src x t hx ht => ?_
  · by_cases hlabel : label = .kind .decorated
    · subst hlabel
      rfl
    · simpa [definitionAt, Tree.label, hlabel] using hrole _ _ _ _ _ _
  · unfold definitionAt
    rw [Tree.label_relative]
    split
    · rw [Tree.child?_relative]
      cases hd : t.child? .definition with
      | none => rfl
      | some d => exact hf src x d hx (Tree.mem_nodes_of_child? ht hd)
    · exact hf src x t hx ht

theorem local_signatureAt : Tree.Local signatureAt :=
  local_definitionAt (fun _ _ _ _ _ _ => rfl)
    fun _ _ _ hx ht => Tree.signatureBefore_relative hx ht .body

theorem docstring_relative {src : Source} {x t : Node} (hx : x.Bounded) (ht : t ∈ x.nodes) :
    docstring ⟨x.bytes src⟩ (t.relative x.span.start.byte) = docstring src t := by
  unfold docstring
  rw [Tree.child?_relative]
  cases hb : t.child? .body with
  | none => simp
  | some body =>
    have hbx := Tree.mem_nodes_of_child? ht hb
    simp only [Option.map_some, Option.bind_eq_bind, Option.bind_some, Tree.named_relative,
      List.head?_map]
    cases hf : body.named.head? with
    | none => simp
    | some first =>
      have hfx := Tree.mem_nodes_of_named hbx (List.mem_of_mem_head? hf)
      simp only [Option.map_some, Option.bind_some, Tree.named_relative, Tree.label_relative,
        List.head?_map]
      cases hs : first.named.head? with
      | none => simp
      | some string =>
        have hsx := Tree.mem_nodes_of_named hfx (List.mem_of_mem_head? hs)
        simp only [Option.map_some, Option.bind_some, Tree.label_relative,
          Tree.text?_relative hx hsx]

theorem local_docstringAt : Tree.Local docstringAt :=
  local_definitionAt (fun _ _ _ _ _ _ => rfl) fun _ _ _ hx ht => docstring_relative hx ht

end Outline.Python

namespace Outline.Rust

theorem local_visibility : Tree.Local Rust.visibility := by
  refine Tree.local_of_relative (fun _ _ _ _ _ _ => rfl) fun src x t hx ht => ?_
  unfold visibility
  have hfind : (t.named.map (Tree.relative x.span.start.byte)).find?
      (·.label == .kind .visibility) =
        (t.named.find? (·.label == .kind .visibility)).map (Tree.relative x.span.start.byte) := by
    rw [List.find?_map]
    congr 2
    funext n
    rw [Function.comp, Tree.label_relative]
  rw [Tree.named_relative, hfind]
  cases hv : t.named.find? (·.label == .kind .visibility) with
  | none => rfl
  | some v =>
    have hvx := Tree.mem_nodes_of_named ht (List.mem_of_find?_eq_some hv)
    simp only [Option.map_some, Option.bind_some, Tree.text?_relative hx hvx]

end Outline.Rust

end CodeAtlas
