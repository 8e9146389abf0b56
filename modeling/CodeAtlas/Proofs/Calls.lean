import CodeAtlas.Lookup
import CodeAtlas.Proofs.Direct

/-!
# Callers and callees

* `Store.soleEnd`, `edgeHit_eq`: the symbol that a hit is named after. `soleEnd_id_iff`: for a name
  that is defined once it is the definition if and only if the end of the edge has the name.
* `callHits_eq`: the calls at the definition of a name that is defined once; `callHits_places`: those
  of them that are named after a symbol, as rows.
* **`Reachable.calls_dual`**: between two names that are defined once, callees and callers are the same
  calls.
-/

namespace CodeAtlas

/-- Where a hit is. -/
def Hit.place (h : Hit) : String × Nat := (h.file, h.line)

/-- A hit at an edge that is named after a symbol, or after a name from outside. -/
def Hit.atEdge (e : Relationship) (name : String) : Option Symbol → Hit
  | some symbol => { Hit.ofSymbol symbol with line := e.line, file := e.filePath }
  | none => { symbolId := none, name, kind := .external, file := e.filePath, line := e.line }

@[simp] theorem Hit.place_atEdge (e : Relationship) (name : String) (symbol : Option Symbol) :
    (Hit.atEdge e name symbol).place = (e.filePath, e.line) := by
  cases symbol <;> rfl

@[simp] theorem Hit.symbolId_atEdge (e : Relationship) (name : String) (symbol : Option Symbol) :
    (Hit.atEdge e name symbol).symbolId = symbol.map (·.id) := by
  cases symbol <;> rfl

namespace Store

variable {s : Store} {m n : String} {a b : Symbol}

/-! ## The ends of calls -/

/-- The symbol at one end of a link, if its name does not stand for several. -/
def soleEnd (s : Store) (name : String) : Option Int → Option Symbol
  | some id => s.shown? id
  | none => only? (s.named name)

theorem edgeHit_eq (h : s.Sound) (e : Relationship) (name : String) (link : Option Int) :
    s.edgeHit e name link = .ok (.atEdge e name (s.soleEnd name link)) := by
  cases link with
  | some id =>
    unfold edgeHit soleEnd
    simp only [symbol?_eq_shown h]
    cases s.shown? id <;> rfl
  | none =>
    unfold edgeHit soleEnd
    simp only [symbolsNamed_eq h]
    match s.named name with
    | [] => rfl
    | [_] => rfl
    | _ :: _ :: _ => rfl

theorem id_of_shown? {id : Int} (ha : s.shown? id = some a) : a.id = id := by
  obtain ⟨x, hx, rfl⟩ := Option.map_eq_some_iff.mp ha
  have hid : x.2.id = id := by simpa using List.find?_some hx
  exact hid

theorem only?_eq_some {α : Type} {l : List α} {x : α} : only? l = some x ↔ l = [x] := by
  match l with
  | [] => simp [only?]
  | [y] => simp [only?]
  | y :: z :: l => simp [only?]

/-- The only definition of a name is shown, and its row has the name. -/
theorem exists_row_of_sole (h : s.Sound) (hb : s.named n = [b]) :
    s.Shown b ∧ ∃ r ∈ s.symbols, r.id = b.id ∧ r.name = n := by
  have hmem : b ∈ s.named n := by rw [hb]; exact List.mem_singleton_self b
  refine ⟨shown_of_mem_named h hmem, ?_⟩
  obtain ⟨f, -, r, hr, -, hrn, rfl⟩ := (mem_named h.keyed).mp hmem
  exact ⟨r, hr, rfl, hrn⟩

/-- A row with a name that has one definition is that definition. -/
theorem id_eq_of_sole (h : s.Sound) (hb : s.named n = [b]) {x : SymbolRow} (hx : x ∈ s.symbols)
    (hxn : x.name = n) : x.id = b.id := by
  obtain ⟨d, hd, hid⟩ := exists_mem_named h hx hxn
  rw [hb] at hd
  rw [← hid, List.mem_singleton.mp hd]

/-- **A hit is named after the only definition of a name if and only if its end has the name.** -/
theorem soleEnd_id_iff (h : s.Sound) (hb : s.named n = [b]) {fileId : Int} {link : Option Int}
    (hreach : s.Reaches fileId m link) : (s.soleEnd m link).map (·.id) = some b.id ↔ m = n := by
  obtain ⟨hshown, r, hr, hrb, hrn⟩ := exists_row_of_sole h hb
  constructor
  · intro hid
    obtain ⟨y, hy, hyb⟩ := Option.map_eq_some_iff.mp hid
    cases link with
    | some i =>
      obtain ⟨x, hx, hxi, hxm, -⟩ := hreach i rfl
      have hxr : x.id = r.id := by rw [hxi, ← id_of_shown? hy, hyb, hrb]
      rw [← hxm, h.keyed.symbol_eq hx hr hxr, hrn]
    | none =>
      obtain ⟨-, x, hx, hxy, hxm⟩ := exists_row_of_sole h (only?_eq_some.mp hy)
      rw [← hxm, h.keyed.symbol_eq hx hr (by rw [hxy, hyb, hrb]), hrn]
  · rintro rfl
    cases link with
    | some i =>
      obtain ⟨x, hx, rfl, hxm, -⟩ := hreach i rfl
      rw [soleEnd, id_eq_of_sole h hb hx hxm, hshown]
      rfl
    | none =>
      rw [soleEnd, hb]
      rfl

/-- The edges at the only definition of a name are those of the name. -/
theorem linkMatches_sole (h : s.Sound) (hb : s.named n = [b]) {fileId : Int} {link : Option Int}
    (hreach : s.Reaches fileId m link) :
    linkMatches b.name (some b.id) m link = true ↔ m = n := by
  obtain ⟨-, r, hr, -, hrn⟩ := exists_row_of_sole h hb
  have hname : b.name = n :=
    name_of_mem_named h.keyed (by rw [hb]; exact List.mem_singleton_self b)
  have hiff := linkMatches_iff h hreach ⟨r, hr, hrn⟩
  rw [hb] at hiff
  simpa [hname] using hiff

/-! ## The calls at a definition -/

/-- The calls from one name to another. -/
def callsBetween (s : Store) (m n : String) : List RelationshipRow :=
  s.relationships.filter fun r => r.kind == .calls && r.source == m && r.target == n

section CallHits

variable {hit : Relationship → StoreM Hit} {hitOf : Relationship → Hit}
  {near : RelationshipRow → Bool} {name : String}

theorem callHits_eq (h : s.Sound) (ha : s.named name = [a])
    (edgesAt : Symbol → StoreM (List Relationship))
    (hedges : edgesAt a = .ok (edgeList (s.relationships.filter near)))
    (hhit : ∀ e, hit e = .ok (hitOf e)) :
    s.callHits name edgesAt hit =
      .ok (((edgeList (s.relationships.filter near)).filter (·.kind == .calls)).map hitOf) := by
  unfold callHits
  rw [symbolsNamed_eq h, ha]
  simp only [bind, Except.bind, List.foldlM_cons, List.foldlM_nil, hedges, List.contains_nil,
    Bool.not_false, Bool.and_true, List.nil_append]
  rw [mapM_eq_ok fun e _ => hhit e]
  rfl

/-- **The hits that are named after a symbol are the calls between two names**, if an edge is near and
has such a hit exactly where it goes from the one name to the other. -/
theorem callHits_places {i : Int} (hplace : ∀ e, (hitOf e).place = (e.filePath, e.line))
    (hends : ∀ r ∈ s.relationships,
      near r = true ∧ (hitOf r.toRelationship).symbolId = some i ↔ r.source = m ∧ r.target = n) :
    (((((edgeList (s.relationships.filter near)).filter (·.kind == .calls)).map hitOf).filter
        (·.symbolId == some i)).map Hit.place).Perm
      ((s.callsBetween m n).map fun r => (r.filePath, r.line)) := by
  have hsorted := (sortBy_perm (byPathAndLine (·.filePath) (·.line)) (s.relationships.filter near)).map
    (·.toRelationship)
  refine ((((hsorted.filter _).map hitOf).filter _).map Hit.place).trans (List.Perm.of_eq ?_)
  rw [List.filter_map, List.filter_map, List.filter_map, List.filter_filter, List.filter_filter,
    List.map_map, List.map_map, callsBetween]
  simp only [Function.comp_def, hplace]
  congr 1
  refine List.filter_congr fun r hr => ?_
  have hr' := hends r hr
  rw [Bool.eq_iff_iff]
  simp only [Bool.and_eq_true, beq_iff_eq] at hr' ⊢
  tauto

end CallHits

/-- The callees of a name that are named after another one are the calls between the two. -/
theorem callees_between (h : s.Sound) (ha : s.named m = [a]) (hb : s.named n = [b]) :
    ∃ hits, s.calleesOf m = .ok hits ∧
      ((hits.filter (·.symbolId == some b.id)).map Hit.place).Perm
        ((s.callsBetween m n).map fun r => (r.filePath, r.line)) := by
  refine ⟨_, callHits_eq h ha (fun d => s.relationshipsFrom d.name (some d.id))
    (relationshipsFrom_eq h.flawless a.name (some a.id)) fun e => edgeHit_eq h e e.target e.targetId,
    callHits_places (fun e => Hit.place_atEdge e _ _) fun r hr => ?_⟩
  rw [Hit.symbolId_atEdge, soleEnd_id_iff h hb (h.linked.targets r hr),
    linkMatches_sole h ha (h.linked.sources r hr)]

/-- The callers of a name that are named after another one are the calls between the two. -/
theorem callers_between (h : s.Sound) (ha : s.named m = [a]) (hb : s.named n = [b]) :
    ∃ hits, s.callersOf n = .ok hits ∧
      ((hits.filter (·.symbolId == some a.id)).map Hit.place).Perm
        ((s.callsBetween m n).map fun r => (r.filePath, r.line)) := by
  refine ⟨_, callHits_eq h hb (fun d => s.relationshipsTo d.name (some d.id))
    (relationshipsTo_eq h.flawless b.name (some b.id)) fun e => edgeHit_eq h e e.source e.sourceId,
    callHits_places (fun e => Hit.place_atEdge e _ _) fun r hr => ?_⟩
  rw [Hit.symbolId_atEdge, soleEnd_id_iff h ha (h.linked.sources r hr),
    linkMatches_sole h hb (h.linked.targets r hr), and_comm]

/-- **Callers and callees are dual.** For two names with one definition each, the hits among the
callees of the first that are named after the second are at the same places, as often, as the hits
among the callers of the second that are named after the first: one for each call from the first name
to the second that is stored. -/
theorem Reachable.calls_dual (h : s.Reachable) (hm : s.DefinedOnce m) (hn : s.DefinedOnce n) :
    ∃ a b callees callers, s.symbolsNamed m = .ok [a] ∧ s.symbolsNamed n = .ok [b] ∧
      s.calleesOf m = .ok callees ∧ s.callersOf n = .ok callers ∧
      ((callees.filter (·.symbolId == some b.id)).map Hit.place).Perm
        ((callers.filter (·.symbolId == some a.id)).map Hit.place) ∧
      ((callees.filter (·.symbolId == some b.id)).map Hit.place).Perm
        ((s.relationships.filter fun r => r.kind == .calls && r.source == m && r.target == n).map
          fun r => (r.filePath, r.line)) := by
  have hs := h.sound
  obtain ⟨a, ha, -⟩ := named_of_definedOnce hs hm
  obtain ⟨b, hb, -⟩ := named_of_definedOnce hs hn
  obtain ⟨callees, hcallees, hthere⟩ := callees_between hs ha hb
  obtain ⟨callers, hcallers, hback⟩ := callers_between hs ha hb
  exact ⟨a, b, callees, callers, by rw [symbolsNamed_eq hs, ha], by rw [symbolsNamed_eq hs, hb],
    hcallees, hcallers, hthere.trans hback.symm, hthere⟩

/-- Calls of a function that was stored after them, from its project and from another one. -/
def crossCalls : List Write :=
  [.upsertProject 0 "/p" "p", .upsertProject 0 "/q" "q",
    .persist 0 1 { relativePath := "a.go" }
      { symbols := [{ name := "f" }]
        edges := [{ kind := .calls, source := "f", target := "g", line := 2 },
          { kind := .calls, source := "f", target := "g", line := 2 },
          { kind := .uses, source := "f", target := "g", line := 3 },
          { kind := .calls, source := "f", target := "f", line := 4 }] },
    .persist 0 1 { relativePath := "b.go" }
      { symbols := [{ name := "g" }]
        edges := [{ kind := .calls, source := "f", target := "g", line := 5 }] },
    .persist 0 2 { relativePath := "a.go" }
      { edges := [{ kind := .calls, source := "f", target := "g", line := 9 }] }]

/-- Calls with both links, with one of them and with none are found from both ends. -/
theorem calls_dual_crossCalls :
    ((run crossCalls).relationships.map fun r => (r.sourceId, r.targetId)) =
      [(some 1, none), (some 1, none), (some 1, none), (some 1, some 1), (some 1, some 2),
        (none, none)] ∧
    ∃ a b callees callers, (run crossCalls).symbolsNamed "f" = .ok [a] ∧
      (run crossCalls).symbolsNamed "g" = .ok [b] ∧ (run crossCalls).calleesOf "f" = .ok callees ∧
      (run crossCalls).callersOf "g" = .ok callers ∧
      ((callees.filter (·.symbolId == some b.id)).map Hit.place).Perm
        [("a.go", 2), ("a.go", 2), ("b.go", 5), ("a.go", 9)] ∧
      ((callers.filter (·.symbolId == some a.id)).map Hit.place).Perm
        [("a.go", 2), ("a.go", 2), ("b.go", 5), ("a.go", 9)] := by
  refine ⟨by decide +kernel, ?_⟩
  obtain ⟨a, b, callees, callers, ha, hb, hcallees, hcallers, hdual, hrows⟩ :=
    (reachable_run crossCalls).calls_dual (by decide +kernel : (run crossCalls).DefinedOnce "f")
      (by decide +kernel : (run crossCalls).DefinedOnce "g")
  have hplaces : ((run crossCalls).relationships.filter fun r =>
      r.kind == .calls && r.source == "f" && r.target == "g").map (fun r => (r.filePath, r.line)) =
        [("a.go", 2), ("a.go", 2), ("b.go", 5), ("a.go", 9)] := by decide +kernel
  rw [hplaces] at hrows
  exact ⟨a, b, callees, callers, ha, hb, hcallees, hcallers, hrows, hdual.symm.trans hrows⟩

end Store

end CodeAtlas
