import CodeAtlas.Proofs.Archive
import CodeAtlas.Proofs.Nesting
import CodeAtlas.Proofs.Rank
import CodeAtlas.Proofs.Reads

/-!
# Symbols around uses

* `SyntaxTree`: a syntax tree in one of the languages; `SyntaxTree.outline`: its outline.
* `SyntaxTree.exists_declaration`: in a nested tree, a use that is recorded for a symbol lies on a
  line of a declaration of it.
* `Store.dependentsOf_eq`: the dependents of symbols as a list of rows.
* `Store.Enclosed`: a stored use has a symbol around it, by its link and by its line.
* **`SyntaxTree.uses_enclosed`**: the uses of a nested tree that are recorded for a symbol are enclosed
  once they are stored.
-/

namespace CodeAtlas

open Syntax Outline

/-! ## Syntax trees of all languages -/

/-- A syntax tree in one of the languages. -/
inductive SyntaxTree where
  | go (t : Go.Node)
  | python (t : Python.Node)
  | rust (t : Rust.Node)

namespace SyntaxTree

/-- The syntax tree of a source text. -/
def parse : Language → Source → SyntaxTree
  | .go, src => .go (Syntax.Go.parseTree src)
  | .python, src => .python (Syntax.Python.parseTree src)
  | .rust, src => .rust (Syntax.Rust.parseTree src)

/-- The facts of a syntax tree. -/
def facts (src : Source) : SyntaxTree → List Fact
  | go t => Go.walk src none [] t
  | python t => Python.walk src {} none [] t
  | rust t => Rust.walk src {} [] t

/-- The outline of a syntax tree. -/
def outline (src : Source) (t : SyntaxTree) : Outline := .ofFacts (t.facts src)

theorem outline_parse (lang : Language) (src : Source) :
    (parse lang src).outline src = Outline.extract lang src := by
  cases lang <;> rfl

/-- Every node contains its children. -/
def Nested : SyntaxTree → Prop
  | go t => t.Nested
  | python t => t.Nested
  | rust t => t.Nested

instance : (t : SyntaxTree) → Decidable t.Nested
  | go t => inferInstanceAs (Decidable t.Nested)
  | python t => inferInstanceAs (Decidable t.Nested)
  | rust t => inferInstanceAs (Decidable t.Nested)

/-- The use of a trait by an implementation of it. -/
def TraitUse (src : Source) : SyntaxTree → Use → Prop
  | rust t, u => Rust.TraitUse src t u
  | _, _ => False

variable {tree : SyntaxTree} {src : Source}

theorem covered_facts (h : tree.Nested) : Covered (tree.TraitUse src) (tree.facts src) := by
  have hnone : ∀ (span : Span) (u : Use), Inside none span u → tree.TraitUse src u :=
    fun _ _ hu => absurd hu not_inside_none
  cases tree with
  | go t => exact Go.covered_walk h none [] t t.span _ ⟨t.mem_nodes_self, .refl _⟩ (hnone _)
  | python t =>
    exact Python.covered_walk h {} none [] t t.span _ ⟨t.mem_nodes_self, .refl _⟩ (hnone _) (by simp)
  | rust t =>
    exact Rust.covered_walk h {} [] t t.span _ ⟨t.mem_nodes_self, .refl _⟩ (hnone _) fun _ hu => hu

/-- **A use that is recorded for a symbol lies on a line of a declaration of it.** -/
theorem exists_declaration (h : tree.Nested) {u : Use} (hu : u ∈ (tree.outline src).uses) {n : String}
    (hn : u.source = some n) (htrait : ¬ tree.TraitUse src u) :
    ∃ d ∈ (tree.outline src).symbols, d.name = n ∧ d.range.containsLine u.line = true := by
  obtain ⟨x, hx, hxu⟩ := List.mem_filterMap.mp hu
  obtain rfl : x = .uses u := by
    cases x <;> cases hxu
    rfl
  rcases covered_facts h u hx with hnone | ⟨d, hd, hname, hline⟩ | hpending
  · rw [hn] at hnone
    cases hnone
  · refine ⟨d, List.mem_filterMap.mpr ⟨_, hd, rfl⟩, ?_, hline⟩
    exact (Option.some.inj (hn.symm.trans hname)).symm
  · exact absurd hpending htrait

end SyntaxTree

namespace Store

variable {s t : Store} {now p i : Int} {f : SourceFile} {o : Outline}

/-! ## Dependents -/

/-- The symbols around some uses in a file. -/
def around (s : Store) (us : List Reference) (file : String) : List Symbol :=
  (us.filter (·.filePath == file)).filterMap fun u =>
    enclosing? (s.listed (·.1.relativePath == file)) u.line

/-- The symbols around the uses of some symbols, without these. -/
def dependents (s : Store) (ds : List Symbol) : List Symbol :=
  distinctOn (·.id)
    (((sortedTexts ((s.usesOfAll ds).map (·.filePath))).map (s.around (s.usesOfAll ds))).flatten.filter
      fun d => !ds.any (·.id == d.id))

theorem dependentsOf_eq (h : s.Sound) (ds : List Symbol) :
    s.dependentsOf ds = .ok (s.dependents ds) := by
  unfold dependentsOf
  rw [referencesToAll_eq h.flawless]
  simp only [bind, Except.bind]
  rw [mapM_eq_ok (g := s.around (s.usesOfAll ds))]
  · rfl
  · intro file _
    rw [symbolsInFile, decodeByPath_eq h]
    rfl

/-- **The symbol around a use of some symbols is one of their dependents, or one of them.** -/
theorem exists_dependent {ds : List Symbol} {u : Reference} (hu : u ∈ s.usesOfAll ds) {y : Symbol}
    (hy : enclosing? (s.listed (·.1.relativePath == u.filePath)) u.line = some y) :
    (∃ d ∈ ds, d.id = y.id) ∨ ∃ d ∈ s.dependents ds, d.id = y.id := by
  by_cases hself : ∃ d ∈ ds, d.id = y.id
  · exact Or.inl hself
  refine Or.inr (exists_mem_distinctOn _ (List.mem_filter.mpr ⟨?_, ?_⟩))
  · refine List.mem_flatten.mpr ⟨_, List.mem_map_of_mem (f := s.around (s.usesOfAll ds))
      (mem_sortedTexts.mpr (List.mem_map_of_mem hu)), ?_⟩
    exact List.mem_filterMap.mpr ⟨u, List.mem_filter.mpr ⟨hu, by simp⟩, hy⟩
  · simpa using hself

/-! ## Stored uses -/

/-- **A stored use has a symbol around it**: it is linked to a symbol of its file with the name that
it was recorded for, some symbol of its file is around its line, and that symbol depends on the
definitions of the name that is used, if it is not itself one of them. -/
structure Enclosed (t : Store) (n : String) (r : ReferenceRow) : Prop where
  source : ∃ x ∈ t.symbols, r.sourceId = some x.id ∧ x.name = n ∧ x.fileId = r.fileId
  around : ∃ symbols y targets dependents, t.symbolsInFile r.filePath = .ok symbols ∧
    enclosing? symbols r.line = some y ∧ t.symbolsNamed r.target = .ok targets ∧
    t.dependentsOf targets = .ok dependents ∧
    (targets ≠ [] → (∃ d ∈ targets, d.id = y.id) ∨ ∃ d ∈ dependents, d.id = y.id)

/-- A use on a line of a declaration of its symbol is enclosed when it is stored. -/
theorem Persisted.enclosed (h : s.Persisted now p f o i t) (hs : s.Sound) (ht : t.Sound) {u : Use}
    {n : String} (hn : u.source = some n) {d : Declaration} (hd : d ∈ o.symbols) (hname : d.name = n)
    (hline : d.range.containsLine u.line = true) {id : Int}
    (hr : t.useRow p i f.relativePath (s.reconciled i o.symbols) id u ∈ t.references) :
    t.Enclosed n (t.useRow p i f.relativePath (s.reconciled i o.symbols) id u) := by
  have hrows := h.symbolsIn_perm hs.keyed ht.keyed
  -- the row of the declaration has its name and its lines
  obtain ⟨y, hy, hshape⟩ := exists_left_of_forall₂
    (@reconcile_shape i s.last.symbols (s.rowsOfFile i) o.symbols).flip hd
  have hyn : y.2.name = n := (Declaration.name_eq_of_shape hshape).trans hname
  have hyt : y.2 ∈ t.symbolsIn i := hrows.mem_iff.mpr (List.mem_map_of_mem hy)
  have hyrange : y.2.range = d.range := by
    simp only [Declaration.shape, Prod.mk.injEq] at hshape
    exact hshape.2.2.1
  obtain ⟨hys, hyi⟩ := mem_symbolsIn.mp hyt
  constructor
  · have hsome : ((s.reconciled i o.symbols).localId? n).isSome = true := by
      rw [Reconciled.localId?, Option.isSome_map, List.find?_isSome]
      exact ⟨y, hy, by simpa using hyn⟩
    obtain ⟨j, hj⟩ := Option.isSome_iff_exists.mp hsome
    obtain ⟨x, hx, hxj, hxn⟩ := localId?_eq_some hj
    obtain ⟨hxs, hxi⟩ := mem_symbolsIn.mp (hrows.mem_iff.mpr hx)
    exact ⟨x, hxs, by simp [useRow, hn, hj, hxj], hxn, hxi⟩
  · have hlisted : y.2.sited f.relativePath ∈ t.listed (·.1.relativePath == f.relativePath) :=
      (mem_listed ht.keyed).mpr ⟨_, h.files.id_mem, y.2, hys, hyi.symm, by simp [fileRow], rfl⟩
    have hfound : (enclosing? (t.listed (·.1.relativePath == f.relativePath)) u.line).isSome := by
      rw [enclosing?, List.find?_isSome]
      refine ⟨_, hlisted, ?_⟩
      rw [SymbolRow.sited, hyrange]
      exact hline
    obtain ⟨z, hz⟩ := Option.isSome_iff_exists.mp hfound
    refine ⟨_, z, _, _, decodeByPath_eq ht _, hz, symbolsNamed_eq ht _, dependentsOf_eq ht _, ?_⟩
    intro hne
    obtain ⟨e, he⟩ := List.exists_mem_of_ne_nil _ hne
    obtain ⟨g, -, x, hx, -, hxn, -⟩ := (mem_named ht.keyed).mp he
    have huse := (usesOfAll_named_perm ht ⟨x, hx, hxn⟩).mem_iff.mpr
      (List.mem_map.mpr ⟨_, List.mem_filter.mpr ⟨hr, by simp [useRow]⟩, rfl⟩)
    exact exists_dependent huse hz

end Store

namespace SyntaxTree

/-- **Every use sits inside the symbol that it is recorded for.** In a nested tree of any language, the
uses of traits by their implementations apart, there is a declaration of the symbol around the line of
the use. So once the outline of the tree is stored, the row of the use is linked to a symbol of that
name, and the search for dependents finds a symbol around it. -/
theorem uses_enclosed (tree : SyntaxTree) (src : Source) (hnested : tree.Nested) :
    (∀ u ∈ (tree.outline src).uses, ∀ n, u.source = some n → ¬ tree.TraitUse src u →
      ∃ d ∈ (tree.outline src).symbols, d.name = n ∧ d.range.containsLine u.line = true) ∧
    ∀ (s t : Store) (now p : Int) (f : SourceFile) (stats : WriteStats), s.Reachable →
      s.persist now p f (tree.outline src) = .ok (stats, t) →
      ∃ g ∈ t.files, g.projectId = p ∧ g.relativePath = f.relativePath ∧
        List.Forall₂ (fun u r => r.target = u.target ∧ r.line = u.line ∧ r.column = u.column ∧
            ∀ n, u.source = some n → ¬ tree.TraitUse src u → t.Enclosed n r)
          (tree.outline src).uses (t.referencesIn g.id) := by
  refine ⟨fun u hu n hn htrait => exists_declaration hnested hu hn htrait, ?_⟩
  intro s t now p f stats hreach ht
  have hs := hreach.sound
  obtain ⟨i, hp, -, hts⟩ := Store.persist_spec hs ht
  refine ⟨_, hp.files.id_mem, rfl, rfl, ?_⟩
  have hrows : List.Forall₂ (fun u r => u ∈ (tree.outline src).uses ∧ ∃ id,
      r = t.useRow p i f.relativePath (s.reconciled i (tree.outline src).symbols) id u)
      (tree.outline src).uses (t.referencesIn i) := by
    rw [hp.references]
    exact (List.forall₂_and_left _ _).mpr
      ⟨fun _ hu => hu, Store.forall₂_numbered (fun id _ => ⟨id, rfl⟩) _ _⟩
  refine forall₂_imp_right hrows ?_
  rintro u r hr ⟨hu, id, rfl⟩
  refine ⟨rfl, rfl, rfl, fun n hn htrait => ?_⟩
  obtain ⟨d, hd, hname, hline⟩ := exists_declaration hnested hu hn htrait
  exact hp.enclosed hs hts hn hd hname hline (Store.mem_referencesIn.mp hr).1

/-- A function with a decorator that calls another. -/
def decorated : Source := ⟨"@d\ndef f():\n  g()\ndef g(): pass\n".toUTF8⟩

set_option maxRecDepth 20000 in
/-- The call is linked to its caller, and the caller is found around it. -/
theorem uses_enclosed_decorated : (parse .python decorated).Nested ∧
    ∃ stats t, (Store.run [.upsertProject 0 "/p" "p"]).persist 0 1 { relativePath := "a.py" }
        ((parse .python decorated).outline decorated) = .ok (stats, t) ∧
      ∃ r ∈ t.references, r.target = "g" ∧ t.Enclosed "f" r := by
  have hnested : (parse .python decorated).Nested := by decide +kernel
  have hproject : ∃ r ∈ (Store.run [.upsertProject 0 "/p" "p"]).projects, r.id = 1 := by
    decide +kernel
  have hs := Store.reachable_run [.upsertProject 0 "/p" "p"]
  obtain ⟨stats, t, ht⟩ := Store.exists_persist hs.sound hproject 0 { relativePath := "a.py" }
    ((parse .python decorated).outline decorated)
  obtain ⟨g, -, -, -, hrows⟩ := (uses_enclosed _ decorated hnested).2 _ t 0 1 _ stats hs ht
  have huse : ∃ u ∈ ((parse .python decorated).outline decorated).uses,
      u.source = some "f" ∧ u.target = "g" := by decide +kernel
  obtain ⟨u, hu, hsource, htarget⟩ := huse
  obtain ⟨r, hr, hrt, -, -, hr'⟩ := exists_left_of_forall₂ hrows.flip hu
  exact ⟨hnested, stats, t, ht, r, (Store.mem_referencesIn.mp hr).1, hrt.trans htarget,
    hr' "f" hsource not_false⟩

end SyntaxTree

end CodeAtlas
