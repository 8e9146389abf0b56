import CodeAtlas.Proofs.Enclosure
import CodeAtlas.Proofs.Parts

/-!
# What the text of a declaration determines

The hash of a declaration is that of the bytes it takes up. Some of what is recorded of it is in these
bytes or in its name, and some is not, such as the comment above it.

* `Declaration.bytes`: the bytes that a declaration takes up.
* `Language.exports?`: how a language tells exported names, where names alone tell.
* `Language.signs?`: how a kind of symbol without a body is signed.
* `Rooted`: a declaration has the hash of its bytes, and what these rules say.
* `Outline.Declared`: all declarations among facts have a property.
* **`SyntaxTree.rooted`**: every declaration of a syntax tree is rooted in its text.
* `Rooted.exported_eq`, `Rooted.signature_eq`: so two declarations agree in what the rules determine.
-/

namespace CodeAtlas

open Syntax Outline

/-- The bytes that a declaration takes up. -/
def Declaration.bytes (src : Source) (d : Declaration) : ByteArray :=
  src.slice d.range.startByte d.range.endByte

namespace Language

/-- How a language tells exported names, where names alone tell. -/
def exports? : Language → Option (String → Bool)
  | go => some Go.isExportedName
  | python => some Python.isExportedName
  | rust => none

/-- The text of some bytes without the blanks around it. -/
def wholeText (bytes : ByteArray) : Option String :=
  (Text.Utf8.decode? bytes.data.toList).map Text.trim

/-- The first line of the text of some bytes. -/
def firstLine (bytes : ByteArray) : Option String :=
  (Text.Utf8.decode? bytes.data.toList).bind fun s => (Text.lines s).head?

/-- How a kind of symbol is signed from its name and its bytes, where these are enough. -/
def signs? : Language → SymbolKind → Option (String → ByteArray → Option String)
  | go, .field => some fun _ => wholeText
  | go, .constant | go, .global => some fun _ => firstLine
  | go, .plainType | go, .structType | go, .interfaceType => some fun name _ => some ("type " ++ name)
  | rust, .field => some fun _ => wholeText
  | rust, .plainType | rust, .constant | rust, .global => some fun _ bytes =>
    (firstLine bytes).map fun line =>
      Text.trimEnd (Text.trimTail (fun c => c == '\x7b' || c == ';') (Text.trim line))
  | rust, .moduleUnit => some fun name _ => some ("mod " ++ name)
  | _, _ => none

end Language

/-- A declaration of a source text: it has the hash of its bytes; its name tells whether it is
exported, where names tell; and its name and bytes tell how it is signed, where these are enough. -/
structure Rooted (lang : Language) (src : Source) (d : Declaration) : Prop where
  hash : d.contentHash = Hash.Blake3.hexDigest (d.bytes src)
  exported : ∀ exports, lang.exports? = some exports →
    d.visibility = (if exports d.name then .visible else .hidden) ∧ d.isExported = exports d.name
  signature : ∀ sign, lang.signs? d.kind = some sign → d.signature = sign d.name (d.bytes src)

namespace Outline

/-- All declarations among facts have a property. -/
def Declared (P : Declaration → Prop) (facts : List Fact) : Prop := ∀ d, .declares d ∈ facts → P d

variable {P : Declaration → Prop}

theorem additive_declared : Additive (Declared P) where
  nil := fun _ hd => by cases hd
  append h h' := fun d hd => (List.mem_append.mp hd).elim (h d) (h' d)

theorem declared_singleton {d : Declaration} : Declared P [.declares d] ↔ P d := by
  simp [Declared]

theorem links_declared (builtins : List String) : Links builtins (Declared P) := by
  intro kind edge _ source name qualifier place d hd
  unfold link relationship at hd
  -- a link makes uses and edges only
  split at hd
  · simp at hd
  · split at hd
    · split at hd <;> simp at hd
    · simp at hd

theorem declared_importOf (span : Span) (i : ImportClause) : Declared P [importOf span i] := by
  simp [Declared, importOf]

end Outline

theorem Json.get?_set_ne (j : Json) {k k' : String} (v : Json) (h : k ≠ k') :
    (j.set k v).get? k' = j.get? k' := by
  have hinsert : ∀ members : List (String × Json),
      (insertMember k v members).find? (·.1 == k') = members.find? (·.1 == k') := fun members => by
    fun_induction insertMember k v members <;> simp_all [List.find?_cons]
  cases j with
  | obj members => simp [Json.set, Json.get?, hinsert]
  | _ => rfl

/-! ## Go -/

namespace Outline.Go

open Syntax.Go

variable {src : Source} {root : Node}

/-- A symbol is rooted if its flag stays and it is signed by the rule. -/
theorem rooted_symbol (t doc : Node) (before : List Node) (name : String) (kind : SymbolKind)
    {signature : Option String} {metadata : Json}
    (hflag : metadata.get? "exported" = some (.bool (isExportedName name)))
    (hsign : ∀ sign, Language.go.signs? kind = some sign →
      signature = sign name (src.slice t.span.start.byte t.span.stop.byte)) :
    Rooted .go src { symbol src t doc before name kind with signature, metadata } where
  hash := rfl
  exported := by
    rintro _ ⟨⟩
    refine ⟨rfl, ?_⟩
    simp only [Declaration.isExported, hflag, Option.bind_some, Json.asBool?]
    rfl
  signature := hsign

/-- **The parts of what nodes of Go show are rooted.** -/
theorem parts_rooted : Parts src root (Declared (Rooted .go src)) where
  additive := additive_declared
  links := links_declared _
  imports := declared_importOf
  function := by
    intro t ht hlabel before name
    refine declared_singleton.mpr (rooted_symbol t t before name _ ?_ ?_)
    -- the receiver is recorded beside the flag
    · split
      · exact (Json.get?_set_ne _ _ (by decide)).trans rfl
      · rfl
    · split <;> simp [Language.signs?]
  member := by
    intro t ht kind hkind owner before name
    refine declared_singleton.mpr (rooted_symbol t t before name kind ?_ ?_)
    -- the owner is recorded beside the flag
    · exact (Json.get?_set_ne _ _ (by decide)).trans rfl
    · simp only [List.mem_cons, Prod.mk.injEq, List.not_mem_nil, or_false] at hkind
      rcases hkind with ⟨-, rfl⟩ | ⟨-, rfl⟩ <;> rintro _ ⟨⟩
      rfl
  type := by
    intro t before name kind hkind
    refine declared_singleton.mpr (rooted_symbol t t before name kind rfl ?_)
    simp only [List.mem_cons, List.not_mem_nil, or_false] at hkind
    rcases hkind with rfl | rfl | rfl <;> rintro _ ⟨⟩ <;> rfl
  value := by
    intro t decl before name kind hkind
    refine declared_singleton.mpr (rooted_symbol t decl before name kind rfl ?_)
    simp only [List.mem_cons, List.not_mem_nil, or_false] at hkind
    rcases hkind with rfl | rfl <;> rintro _ ⟨⟩ <;> rfl

end Outline.Go

/-! ## Python -/

namespace Outline.Python

open Syntax.Python

variable {src : Source}

/-- A symbol is rooted, however it is signed and documented. -/
theorem rooted_symbol (site : Site) (name : String) (kind : SymbolKind) (owner : Option String)
    {signature documentation : Option String} :
    Rooted .python src { symbol src site name kind owner with signature, documentation } where
  hash := rfl
  exported := by
    rintro _ ⟨⟩
    refine ⟨rfl, ?_⟩
    cases owner with
    | none => rfl
    | some c =>
      simp only [Declaration.isExported, symbol, Json.get?_set_ne _ _ (by decide : "owner" ≠ "exported")]
      rfl
  signature := by simp [Language.signs?]

/-- **The parts of what nodes of Python show are rooted.** -/
theorem parts_rooted {root : Node} : Parts src root (Declared (Rooted .python src)) where
  additive := additive_declared
  links := links_declared _
  imports := declared_importOf
  definition := fun _ _ _ _ _ _ _ _ _ => declared_singleton.mpr (rooted_symbol _ _ _ _)
  assigned := fun _ _ _ _ _ _ _ _ => declared_singleton.mpr (rooted_symbol _ _ _ _)

end Outline.Python

/-! ## Rust -/

namespace Outline.Rust

open Syntax.Rust

variable {src : Source}

/-- A symbol is rooted if it is signed by the rule. -/
theorem rooted_symbol (scope : Scope) (t : Node) (before : List Node) (name : String)
    (kind : SymbolKind) {signature : Option String}
    (hsign : ∀ sign, Language.rust.signs? kind = some sign →
      signature = sign name (src.slice t.span.start.byte t.span.stop.byte)) :
    Rooted .rust src { symbol src scope t before name kind with signature } where
  hash := rfl
  exported := by simp [Language.exports?]
  signature := hsign

/-- **The parts of what nodes of Rust show are rooted.** -/
theorem parts_rooted {root : Node} : Parts src root (Declared (Rooted .rust src)) where
  additive := additive_declared
  links := links_declared _
  imports := declared_importOf
  function := by
    intro scope t _ _ before name kind hkind
    refine declared_singleton.mpr (rooted_symbol scope t before name kind ?_)
    simp only [List.mem_cons, List.not_mem_nil, or_false] at hkind
    rcases hkind with rfl | rfl <;> simp [Language.signs?]
  type := by
    intro t _ _ before name kind hkind
    refine declared_singleton.mpr (rooted_symbol {} t before name kind ?_)
    simp only [List.mem_cons, List.not_mem_nil, or_false] at hkind
    rcases hkind with rfl | rfl <;> simp [Language.signs?]
  field := fun t _ _ owner before name => declared_singleton.mpr
    (rooted_symbol { owner := some owner } t before name .field (by rintro _ ⟨⟩; rfl))
  modules := fun t _ _ before name => declared_singleton.mpr
    (rooted_symbol {} t before name .moduleUnit (by rintro _ ⟨⟩; rfl))
  named := by
    intro scope t _ _ before name kind hkind
    refine declared_singleton.mpr (rooted_symbol scope t before name kind ?_)
    -- only enumerations are cut at a body, and for these there is no rule
    simp only [namedKinds, List.mem_cons, List.not_mem_nil, or_false] at hkind
    rcases hkind with rfl | rfl | rfl | rfl <;> rintro _ ⟨⟩ <;> rfl

end Outline.Rust

/-! ## All languages -/

namespace SyntaxTree

/-- The language of a syntax tree. -/
def language : SyntaxTree → Language
  | go _ => .go
  | python _ => .python
  | rust _ => .rust

theorem language_parse (lang : Language) (src : Source) : (parse lang src).language = lang := by
  cases lang <;> rfl

/-- **Every declaration of a syntax tree is rooted in its text.** -/
theorem rooted {tree : SyntaxTree} {src : Source} {d : Declaration}
    (hd : d ∈ (tree.outline src).symbols) : Rooted tree.language src d := by
  have hfact := declares_mem_of_ofFacts hd
  cases tree with
  | go t => exact Go.parts_rooted.shows.walk none [] t t.mem_nodes_self d hfact
  | python t => exact Python.parts_rooted.shows.walk {} none [] t t.mem_nodes_self (by simp) d hfact
  | rust t => exact Rust.parts_rooted.shows.walk {} [] t ⟨t.mem_nodes_self, by simp⟩ d hfact

end SyntaxTree

/-- Declarations of one name agree on whether they are exported, where names tell. -/
theorem Rooted.exported_eq {lang : Language} {v₁ v₂ : Source} {e d : Declaration}
    (he : Rooted lang v₁ e) (hd : Rooted lang v₂ d) (hname : e.name = d.name) (hl : lang ≠ .rust) :
    e.visibility = d.visibility ∧ e.isExported = d.isExported := by
  obtain ⟨exports, hexports⟩ : ∃ exports, lang.exports? = some exports := by
    cases lang with
    | go => exact ⟨_, rfl⟩
    | python => exact ⟨_, rfl⟩
    | rust => exact absurd rfl hl
  obtain ⟨hev, hee⟩ := he.exported exports hexports
  obtain ⟨hdv, hde⟩ := hd.exported exports hexports
  exact ⟨by rw [hev, hdv, hname], by rw [hee, hde, hname]⟩

/-- Declarations of one name, kind and text are signed alike, where these are enough. -/
theorem Rooted.signature_eq {lang : Language} {v₁ v₂ : Source} {e d : Declaration}
    (he : Rooted lang v₁ e) (hd : Rooted lang v₂ d) (hname : e.name = d.name) (hkind : e.kind = d.kind)
    (hbytes : e.bytes v₁ = d.bytes v₂) (hsigns : (lang.signs? d.kind).isSome) :
    e.signature = d.signature := by
  obtain ⟨sign, hsign⟩ := Option.isSome_iff_exists.mp hsigns
  rw [hd.signature sign hsign, he.signature sign (hkind ▸ hsign), hname, hbytes]

end CodeAtlas
