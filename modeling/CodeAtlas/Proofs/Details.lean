import CodeAtlas.Proofs.Insides
import CodeAtlas.Proofs.Rank

/-!
# Details that follow the content

A row is written again only if the hash of its content changes. The hash covers the text that a
declaration takes up, so details that come from elsewhere may stay as they were.

* `Declaration.details`: signature, documentation, visibility and metadata.
* `SymbolRow.update_details`: which details a row has after it was matched with a declaration.
* `Refreshed`: the row of a declaration has its details, or those it had if the hash is the same.
* `Settled`: a row has what the new text says of its declaration, comments and surroundings apart.
* `Derived`: the details come from the new text or from a declaration of the old text with the same
  content, and the row is settled where the two texts read declarations alike.
* **`Reachable.details_follow_content`**: what two versions of a file leave in the store.
-/

namespace CodeAtlas

open Syntax

/-- What is recorded of a declaration beside its name, kind, place and content. -/
def Declaration.details (d : Declaration) : Option String × Option String × Visibility × Json :=
  (d.signature, d.documentation, d.visibility, d.metadata)

/-- A row that is matched with a declaration takes over its details if the hash is another one. -/
theorem SymbolRow.update_details (r : SymbolRow) (d : Declaration) :
    (r.update d).2.details = if r.contentHash = d.contentHash then r.details else d.details := by
  unfold update
  simp only [beq_iff_eq]
  split_ifs <;> rfl

/-- The row of a declaration in a store that held other rows before: it agrees with the declaration
in name, kind, place and content; it has its details if it is new or had other content; and else it
has the details that it had. -/
structure Refreshed (before : Store) (d : Declaration) (r : SymbolRow) : Prop where
  shape : r.toDeclaration.shape = d.shape
  written : (∀ x ∈ before.symbols, x.id = r.id → x.contentHash ≠ d.contentHash) →
    r.details = d.details
  kept : ∀ x ∈ before.symbols, x.id = r.id → x.contentHash = d.contentHash → r.details = x.details

/-- A row has what its declaration has by itself: the signature, visibility and flag unless inherited,
all else that is recorded apart from the type it belongs to, and the docstring if there is one. -/
structure Settled (v₂ : Source) (tree₂ : SyntaxTree) (inherits : Prop) (d : Declaration)
    (r : SymbolRow) : Prop where
  signature : r.signature = d.signature
  visibility : ¬ inherits → r.visibility = d.visibility ∧ r.isExported = d.isExported
  metadata : ∀ k, k ≠ "owner" → (k = "exported" → ¬ inherits) → r.metadata.get? k = d.metadata.get? k
  documentation : tree₂.Documents v₂ d r.documentation

/-- The row of a declaration of the text `v₂` in a file that held the text `v₁` before: its details
are those of the declaration, or of one of `v₁` with the same name, kind and hash. It is as visible as
the declaration where names tell. If no two texts share a hash, it is signed like the declaration where
name and text are enough; and it is settled, if the trees of the texts read declarations alike. -/
structure Derived (v₁ v₂ : Source) (tree₁ tree₂ : SyntaxTree) (d : Declaration) (r : SymbolRow) :
    Prop where
  details : r.details = d.details ∨
    ∃ e ∈ (tree₁.outline v₁).symbols, e.content = d.content ∧ r.details = e.details
  exported : tree₂.language ≠ .rust → r.visibility = d.visibility ∧ r.isExported = d.isExported
  signature : (tree₂.language.signs? d.kind).isSome →
    (∀ e ∈ (tree₁.outline v₁).symbols, e.contentHash = d.contentHash → e.bytes v₁ = d.bytes v₂) →
    r.signature = d.signature
  settled : tree₁.Agree v₁ v₂ tree₂ →
    (∀ e ∈ (tree₁.outline v₁).symbols, e.contentHash = d.contentHash → e.bytes v₁ = d.bytes v₂) →
    Settled v₂ tree₂ (tree₂.Inherits d ∨
      ∃ e ∈ (tree₁.outline v₁).symbols, e.content = d.content ∧ tree₁.Inherits e) d r

theorem Declaration.isExported_eq {d e : Declaration} (hv : d.visibility = e.visibility)
    (hm : d.metadata.get? "exported" = e.metadata.get? "exported") : d.isExported = e.isExported := by
  rw [Declaration.isExported, Declaration.isExported, hv, hm]

theorem Declaration.parts_eq_of_details {d e : Declaration} (h : d.details = e.details) :
    d.signature = e.signature ∧ d.documentation = e.documentation ∧ d.visibility = e.visibility ∧
      d.metadata = e.metadata := by
  simpa only [Declaration.details, Prod.mk.injEq] using h

/-- What the details come from settles what is derived from them. -/
theorem Derived.of_details {v₁ v₂ : Source} {tree₁ tree₂ : SyntaxTree} {d : Declaration}
    {r : SymbolRow} (hlang : tree₁.language = tree₂.language) (hd : d ∈ (tree₂.outline v₂).symbols)
    (h : r.details = d.details ∨
      ∃ e ∈ (tree₁.outline v₁).symbols, e.content = d.content ∧ r.details = e.details) :
    Derived v₁ v₂ tree₁ tree₂ d r := by
  rcases h with heq | ⟨e, he, hcontent, heq⟩
  · obtain ⟨hs, hdoc, hv, hm⟩ := Declaration.parts_eq_of_details heq
    have hexported := Declaration.isExported_eq hv (by rw [hm])
    refine ⟨.inl heq, fun _ => ⟨hv, hexported⟩, fun _ _ => hs, fun _ _ => ?_⟩
    exact ⟨hs, fun _ => ⟨hv, hexported⟩, fun k _ _ => by rw [hm],
      hdoc ▸ SyntaxTree.documents_self hd⟩
  · obtain ⟨hs, hdoc, hv, hm⟩ := Declaration.parts_eq_of_details heq
    obtain ⟨hname, hkind, hhash⟩ : e.name = d.name ∧ e.kind = d.kind ∧
      e.contentHash = d.contentHash := by simpa [Declaration.content] using hcontent
    have hre := hlang ▸ SyntaxTree.rooted he
    have hrd := SyntaxTree.rooted hd
    refine ⟨.inr ⟨e, he, hcontent, heq⟩, fun hl => ?_, fun hsigns hbytes => ?_,
      fun hagree hbytes => ?_⟩
    · obtain ⟨hv', hx'⟩ := hre.exported_eq hrd hname hl
      exact ⟨hv.trans hv', (Declaration.isExported_eq hv (by rw [hm])).trans hx'⟩
    · exact hs.trans (hre.signature_eq hrd hname hkind (hbytes e he hhash) hsigns)
    · obtain ⟨halike, hdocuments⟩ :=
        SyntaxTree.alike hagree he hd hname hkind (hbytes e he hhash)
      have hfree : ¬ (tree₂.Inherits d ∨
          ∃ e ∈ (tree₁.outline v₁).symbols, e.content = d.content ∧ tree₁.Inherits e) →
          ¬ (tree₁.Inherits e ∨ tree₂.Inherits d) := by
        rintro hnot (hin | hin)
        · exact hnot (.inr ⟨e, he, hcontent, hin⟩)
        · exact hnot (.inl hin)
      refine ⟨hs.trans halike.signature, fun hnot => ?_, fun k hk hflag => ?_, ?_⟩
      · have hv' := hv.trans (halike.visibility (hfree hnot))
        refine ⟨hv', Declaration.isExported_eq hv' ?_⟩
        rw [hm, halike.metadata _ (by decide) fun _ => hfree hnot]
      · rw [hm, halike.metadata k hk fun h => hfree (hflag h)]
      · rw [hdoc]
        exact hdocuments

/-- The details of a row that a declaration ends on are its own, or those of the row it took if both
have the same content. -/
theorem Becomes.details {last : Int} {old : Option SymbolRow} {d : Declaration}
    {y : Fate × SymbolRow} (h : Becomes last old d y) : y.2.details = d.details ∨
      ∃ x, old = some x ∧ x.content = d.content ∧ y.2.details = x.details := by
  cases old with
  | none => exact Or.inl (by rw [h.2.1])
  | some x =>
    rw [h.2, SymbolRow.update_details]
    split_ifs with hhash
    · obtain ⟨hname, hkind, -⟩ := SymbolRow.standsFor_iff.mp h.1
      refine Or.inr ⟨x, rfl, ?_, rfl⟩
      rw [Declaration.content, Declaration.content, hname, hkind, hhash]
    · exact Or.inl rfl

namespace Store

variable {s t u : Store} {now now₁ now₂ p i : Int} {f f₁ f₂ : SourceFile} {o : Outline}

/-- The row that a declaration ends on is refreshed. -/
theorem Keyed.refreshed (hs : s.Keyed) {old : Option SymbolRow} {d : Declaration}
    {y : Fate × SymbolRow} (hold : ∀ r, old = some r → r ∈ s.symbols)
    (hy : Becomes s.last.symbols old d y) : Refreshed s d y.2 := by
  cases old with
  | none =>
    refine ⟨hy.shape, fun _ => by rw [hy.2.1], fun x hx hid => ?_⟩
    have hbound : x.id ≤ s.last.symbols := hs.symbols.bound _ (List.mem_map_of_mem hx)
    have hlast := hy.2.2
    omega
  | some r =>
    have hr := hold r rfl
    have hid : y.2.id = r.id := by rw [hy.2, SymbolRow.update_id]
    have hdetails := SymbolRow.update_details r d
    rw [← hy.2] at hdetails
    refine ⟨hy.shape, fun hne => ?_, fun x hx hxid hhash => ?_⟩
    · rw [hdetails, if_neg (hne r hr hid.symm)]
    · obtain rfl := hs.symbol_eq hx hr (hxid.trans hid)
      rw [hdetails, if_pos hhash]

/-- The rows of a file that had no symbols before it was stored are its declarations. -/
theorem Persisted.declared_of_new (h : s.Persisted now p f o i t) (hs : s.Keyed) (ht : t.Keyed)
    (hnew : s.symbolsIn i = []) {x : SymbolRow} (hx : x ∈ t.rowsOfFile i) :
    x.toDeclaration ∈ o.symbols := by
  have hxs := mem_symbolsIn.mpr (mem_rowsOfFile.mp hx)
  rw [← (reconciled_of_new hnew o.symbols).1]
  exact List.mem_map_of_mem ((h.symbolsIn_perm hs ht).mem_iff.mp hxs)

/-- **What two versions of a file leave in the store.** Let the outlines of two texts be stored one
after the other for one file. Its rows correspond to the declarations of the second text, and each is
refreshed: it has the details of its declaration if it is new or its content changed, and else those
that it had. If the file had no symbols before, each is derived from the two texts: a detail that is
out of date is that of a declaration of the first text with the same content, and it is a comment above
the declaration, the type it belongs to, or the visibility of the trait around it. -/
theorem Reachable.details_follow_content (h : s.Reachable) (v₁ v₂ : Source)
    (tree₁ tree₂ : SyntaxTree) (hlang : tree₁.language = tree₂.language) {stats₁ stats₂ : WriteStats}
    (h₁ : s.persist now₁ p f₁ (tree₁.outline v₁) = .ok (stats₁, t))
    (h₂ : t.persist now₂ p f₂ (tree₂.outline v₂) = .ok (stats₂, u))
    (hpath : f₂.relativePath = f₁.relativePath) :
    ∃ g ∈ u.files, g.projectId = p ∧ g.relativePath = f₁.relativePath ∧
      ∃ rows, rows.Perm (u.symbolsIn g.id) ∧
        List.Forall₂ (fun d r => Refreshed t d r ∧
          (s.symbolsIn g.id = [] → Derived v₁ v₂ tree₁ tree₂ d r)) (tree₂.outline v₂).symbols rows := by
  have hs := h.sound
  obtain ⟨i, hp₁, -, hts⟩ := persist_spec hs h₁
  obtain ⟨j, hp₂, -, hus⟩ := persist_spec hts h₂
  obtain rfl : j = i := hp₂.id_eq hts.keyed hp₁.files.id_mem rfl hpath.symm
  have hrows := (List.forall₂_and_left (p := (· ∈ (tree₂.outline v₂).symbols)) _ _).mpr
    ⟨fun _ hd => hd, @reconcile_becomes j t.last.symbols (t.rowsOfFile j) _⟩
  refine ⟨_, hp₂.files.id_mem, rfl, hpath, _, (hp₂.symbolsIn_perm hts.keyed hus.keyed).symm,
    List.forall₂_map_right_iff.mpr (hrows.imp ?_)⟩
  rintro d y ⟨hd, old, hold, hy⟩
  refine ⟨hts.keyed.refreshed (fun r hr => (mem_rowsOfFile.mp (hold r hr)).1) hy, fun hnew => ?_⟩
  refine .of_details hlang hd (hy.details.imp_right ?_)
  rintro ⟨x, hx, hcontent, hdetails⟩
  exact ⟨x.toDeclaration, hp₁.declared_of_new hs.keyed hts.keyed hnew (hold x hx), hcontent, hdetails⟩

/-- A method with a comment above it. -/
def method : Source := ⟨"// a\nfunc (r T) f(x U) V { g(x) }".toUTF8⟩

/-- The same method further down, with another comment. -/
def methodMoved : Source := ⟨"\n// b\nfunc (r T) f(x U) V { g(x) }".toUTF8⟩

set_option maxRecDepth 20000 in
/-- The method keeps its row, which has the signature and the receiver that the second text says. -/
theorem details_follow_content_moved :
    ∃ stats₁ t stats₂ u,
      (run [.upsertProject 0 "/p" "p"]).persist 0 1 { relativePath := "a.go" }
        ((SyntaxTree.parse .go method).outline method) = .ok (stats₁, t) ∧
      t.persist 1 1 { relativePath := "a.go" }
        ((SyntaxTree.parse .go methodMoved).outline methodMoved) = .ok (stats₂, u) ∧
      ∃ r ∈ u.symbols, r.name = "f" ∧ r.visibility = .hidden ∧
        r.signature = some "func (r T) f(x U) V" ∧
        (r.metadata.get? "receiver").bind Json.asStr? = some "T" := by
  have hs := reachable_run [.upsertProject 0 "/p" "p"]
  have hproject : ∃ r ∈ (run [.upsertProject 0 "/p" "p"]).projects, r.id = 1 := by decide +kernel
  obtain ⟨stats₁, t, ht⟩ := exists_persist hs.sound hproject 0 { relativePath := "a.go" }
    ((SyntaxTree.parse .go method).outline method)
  obtain ⟨i, hp, -, hts⟩ := persist_spec hs.sound ht
  obtain ⟨stats₂, u, hu⟩ := exists_persist hts (hp.projects ▸ hproject) 1
    { relativePath := "a.go" } ((SyntaxTree.parse .go methodMoved).outline methodMoved)
  obtain ⟨g, -, -, -, rows, hperm, hrows⟩ := hs.details_follow_content method methodMoved
    (.parse .go method) (.parse .go methodMoved) (by simp only [SyntaxTree.language_parse]) ht hu rfl
  have hagree : (SyntaxTree.parse .go method).Agree method methodMoved
      (.parse .go methodMoved) := by decide +kernel
  have hdeclared : ∃ d ∈ ((SyntaxTree.parse .go methodMoved).outline methodMoved).symbols,
      d.name = "f" ∧ d.visibility = .hidden ∧ d.signature = some "func (r T) f(x U) V" ∧
      (d.metadata.get? "receiver").bind Json.asStr? = some "T" ∧
      ∀ e ∈ ((SyntaxTree.parse .go method).outline method).symbols, e.contentHash = d.contentHash →
        e.bytes method = d.bytes methodMoved := by decide +kernel
  obtain ⟨d, hd, hname, hvisibility, hsignature, hreceiver, hbytes⟩ := hdeclared
  have hnew : (run [.upsertProject 0 "/p" "p"]).symbolsIn g.id = [] := rfl
  obtain ⟨r, hr, hrefreshed, hderived⟩ := exists_left_of_forall₂ hrows.flip hd
  have hsettled := (hderived hnew).settled hagree hbytes
  refine ⟨stats₁, t, stats₂, u, ht, hu, r, (mem_symbolsIn.mp (hperm.mem_iff.mp hr)).1, ?_, ?_, ?_, ?_⟩
  · exact (Declaration.name_eq_of_shape hrefreshed.shape).trans hname
  · exact ((hderived hnew).exported (by decide)).1.trans hvisibility
  · exact hsettled.signature.trans hsignature
  · rw [hsettled.metadata "receiver" (by decide) (by simp)]
    exact hreceiver

/-- A variable with a comment above it. -/
def commented : Source := ⟨"// a\nvar x T".toUTF8⟩

/-- The same variable with another comment. -/
def recommented : Source := ⟨"// b\nvar x T".toUTF8⟩

set_option maxRecDepth 20000 in
/-- The comment above the variable is another one in the second text, and the store keeps the one of
the first. -/
theorem documentation_left_behind :
    (Outline.extract .go recommented).symbols.map (fun d => (d.name, d.documentation)) =
      [("x", some "b")] ∧
    ((run [.upsertProject 0 "/p" "p",
        .persist 0 1 { relativePath := "a.go" } (Outline.extract .go commented)]).persist 1 1
      { relativePath := "a.go" } (Outline.extract .go recommented)).map (fun x =>
        x.2.symbols.map fun r => (r.name, r.documentation)) = .ok [("x", some "a")] := by
  constructor <;> decide +kernel

end Store

end CodeAtlas
