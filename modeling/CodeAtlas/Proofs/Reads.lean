import CodeAtlas.Graph.Neighbours
import CodeAtlas.Proofs.Persist

/-!
# Reading a sound store

No read of a sound store fails, and what is read are its rows.

* `distinctOn_cons`: of elements with the same key the first is kept.
* `symbolsNamed_eq`, `symbol?_eq`, `relationshipsFrom_eq`, `relationshipsTo_eq`, `referencesTo_eq`:
  the reads as lists of rows.
* `linkMatches_iff`: with the id of a symbol, links that lead to it match, and links of its name that
  lead nowhere.
* **`Reachable.no_use_hidden`**: the lookups by id, taken over all definitions of a name, find each use
  and each edge of the name and nothing else.
-/

namespace CodeAtlas

/-! ## Lists -/

section Lists

variable {α β γ ε : Type}

theorem mapM_eq_ok {f : α → Except ε β} {g : α → β} {l : List α} (h : ∀ a ∈ l, f a = .ok (g a)) :
    l.mapM f = .ok (l.map g) := by
  induction l with
  | nil => rfl
  | cons a l ih =>
    rw [List.mapM_cons, h a List.mem_cons_self, ih fun b hb => h b (List.mem_cons_of_mem _ hb)]
    rfl

variable [BEq β] [LawfulBEq β] (key : α → β)

/-- Keeps an element whose key is new. -/
def keepNew (kept : List α) (x : α) : List α :=
  if kept.any (key · == key x) then kept else x :: kept

theorem foldl_keepNew (l kept : List α) : (l.foldl (keepNew key) kept).reverse =
    kept.reverse ++ (distinctOn key l).filter fun x => !kept.any (key · == key x) := by
  induction l generalizing kept with
  | nil => simp [distinctOn]
  | cons a l ih =>
    have hcons : distinctOn key (a :: l) = [a] ++
        (distinctOn key l).filter fun x => !(List.any [a] (key · == key x)) := ih [a]
    rw [List.foldl_cons, hcons, List.filter_append, List.filter_filter, keepNew]
    by_cases ha : kept.any (key · == key a) = true
    · rw [if_pos ha, ih kept, List.filter_cons_of_neg (by simp [ha]), List.filter_nil,
        List.nil_append]
      congr 1
      refine List.filter_congr fun x _ => ?_
      by_cases hx : key a = key x
      · simp [← hx, ha]
      · simp [hx]
    · rw [if_neg ha, ih (a :: kept), List.filter_cons_of_pos (by simpa using ha), List.filter_nil,
        List.reverse_cons, List.append_assoc]
      congr 2
      refine List.filter_congr fun x _ => ?_
      simp [Bool.and_comm]

/-- **Of elements with the same key the first is kept.** -/
theorem distinctOn_cons (a : α) (l : List α) : distinctOn key (a :: l) =
    a :: (distinctOn key l).filter fun x => !(key a == key x) := by
  have h : distinctOn key (a :: l) = (l.foldl (keepNew key) [a]).reverse := rfl
  rw [h, foldl_keepNew]
  simp

theorem mem_of_mem_distinctOn {l : List α} {a : α} (h : a ∈ distinctOn key l) : a ∈ l := by
  induction l with
  | nil => simp [distinctOn] at h
  | cons b l ih =>
    rw [distinctOn_cons, List.mem_cons] at h
    rcases h with rfl | h
    · exact List.mem_cons_self
    · exact List.mem_cons_of_mem _ (ih (List.mem_of_mem_filter h))

/-- Every key is still there. -/
theorem exists_mem_distinctOn {l : List α} {a : α} (h : a ∈ l) :
    ∃ b ∈ distinctOn key l, key b = key a := by
  induction l with
  | nil => cases h
  | cons c l ih =>
    rw [distinctOn_cons]
    by_cases hc : key c = key a
    · exact ⟨c, List.mem_cons_self, hc⟩
    · rcases List.mem_cons.mp h with rfl | h
      · exact absurd rfl hc
      · obtain ⟨b, hb, he⟩ := ih h
        exact ⟨b, List.mem_cons_of_mem _ (List.mem_filter.mpr ⟨hb, by simp [he, hc]⟩), he⟩

theorem nodup_distinctOn (l : List α) : ((distinctOn key l).map key).Nodup := by
  induction l with
  | nil => exact List.nodup_nil
  | cons a l ih =>
    rw [distinctOn_cons, List.map_cons, List.nodup_cons]
    refine ⟨fun h => ?_, ih.sublist (List.filter_sublist.map key)⟩
    obtain ⟨b, hb, he⟩ := List.mem_map.mp h
    simpa [he] using (List.mem_filter.mp hb).2

/-- No key is lost, and none is new. -/
theorem mem_keys_distinctOn {l : List α} {k : β} :
    k ∈ (distinctOn key l).map key ↔ ∃ a ∈ l, key a = k := by
  rw [List.mem_map]
  constructor
  · rintro ⟨a, ha, he⟩
    exact ⟨a, mem_of_mem_distinctOn key ha, he⟩
  · rintro ⟨a, ha, he⟩
    obtain ⟨b, hb, hba⟩ := exists_mem_distinctOn key ha
    exact ⟨b, hb, hba.trans he⟩

/-- Where a key stands for one element, no element is lost. -/
theorem mem_distinctOn {l : List α} (hkey : ∀ a ∈ l, ∀ b ∈ l, key a = key b → a = b) {a : α} :
    a ∈ distinctOn key l ↔ a ∈ l := by
  refine ⟨mem_of_mem_distinctOn key, fun h => ?_⟩
  obtain ⟨b, hb, he⟩ := exists_mem_distinctOn key h
  rwa [← hkey b (mem_of_mem_distinctOn key hb) a h he]

/-- The elements without repetition are those of a list in which a key stands for one element. -/
theorem distinctOn_perm {l l' : List α} (hnd : (l'.map key).Nodup) (hmem : ∀ a, a ∈ l ↔ a ∈ l') :
    (distinctOn key l).Perm l' := by
  refine (List.perm_ext_iff_of_nodup (List.Nodup.of_map key (nodup_distinctOn key l))
    (List.Nodup.of_map key hnd)).mpr fun a => (mem_distinctOn key fun b hb c hc => ?_).trans (hmem a)
  exact List.inj_on_of_nodup_map hnd ((hmem b).mp hb) ((hmem c).mp hc)

end Lists

/-! ## Rows without flaws -/

/-- A symbol as others see it, in a file at a path. -/
def SymbolRow.sited (path : String) (r : SymbolRow) : Symbol :=
  { toDeclaration := r.toDeclaration, id := r.id, fileId := r.fileId, filePath := path }

theorem FileRow.decode_eq {r : FileRow} (h : r.flaws = []) : r.decode = .ok r.toFile := by
  unfold FileRow.decode
  rw [h, Store.checkFlaws_nil]
  rfl

theorem SymbolRow.decode_eq {r : SymbolRow} (h : r.flaws = []) (path : String) :
    r.decode path = .ok (r.sited path) := by
  unfold SymbolRow.decode
  rw [h, Store.checkFlaws_nil]
  rfl

theorem ImportRow.decode_eq {r : ImportRow} (h : r.flaws = []) : r.decode = .ok r.toImport := by
  unfold ImportRow.decode
  rw [h, Store.checkFlaws_nil]
  rfl

theorem RelationshipRow.decode_eq {r : RelationshipRow} (h : r.flaws = []) :
    r.decode = .ok r.toRelationship := by
  unfold RelationshipRow.decode
  rw [h, Store.checkFlaws_nil]
  rfl

theorem ReferenceRow.decode_eq {r : ReferenceRow} (h : r.flaws = []) :
    r.decode = .ok r.toReference := by
  unfold ReferenceRow.decode
  rw [h, Store.checkFlaws_nil]
  rfl

namespace Store

variable {s : Store}

/-! ## Symbols -/

section Symbols

variable {n : String} {f : FileRow} {r : SymbolRow}

theorem mem_sitedSymbols (h : s.Keyed) :
    (f, r) ∈ s.sitedSymbols ↔ f ∈ s.files ∧ r ∈ s.symbols ∧ f.id = r.fileId := by
  simp only [sitedSymbols, List.mem_filterMap, Option.map_eq_some_iff, Prod.mk.injEq]
  constructor
  · rintro ⟨r', hr, g, hg, rfl, rfl⟩
    exact ⟨List.mem_of_find?_eq_some hg, hr, by simpa using List.find?_some hg⟩
  · rintro ⟨hf, hr, he⟩
    refine ⟨r, hr, f, ?_, rfl, rfl⟩
    rw [← he]
    exact find?_key h.files.nodup hf

/-- Every symbol has a file, so none is lost. -/
theorem sitedSymbols_snd (h : s.Sound) : s.sitedSymbols.map (·.2) = s.symbols := by
  have hrow : ∀ r ∈ s.symbols, ((s.files.find? (·.id == r.fileId)).map fun f => (f, r)).map
      (·.2) = some r := by
    intro r hr
    obtain ⟨f, hf, he⟩ := h.owned.symbols r hr
    rw [← he, find?_key h.keyed.files.nodup hf]
    rfl
  rw [sitedSymbols, List.map_filterMap, List.filterMap_congr hrow, List.filterMap_some]

theorem sitedSymbols_ids_nodup (h : s.Sound) : (s.sitedSymbols.map fun x => x.2.id).Nodup := by
  have hnd := h.keyed.symbols.nodup
  rwa [← sitedSymbols_snd h, List.map_map] at hnd

/-- Some of the symbols, by path and line. -/
def listed (s : Store) (keep : FileRow × SymbolRow → Bool) : List Symbol :=
  (sortBy (byPathAndLine (·.1.relativePath) (·.2.range.startLine))
    (s.sitedSymbols.filter keep)).map fun x => x.2.sited x.1.relativePath

/-- The symbols with a name, by path and line. -/
def named (s : Store) (n : String) : List Symbol := s.listed (·.2.name == n)

theorem decodeByPath_eq (h : s.Sound) (keep : FileRow × SymbolRow → Bool) :
    decodeByPath (s.sitedSymbols.filter keep) = .ok (s.listed keep) := by
  refine mapM_eq_ok fun x hx => SymbolRow.decode_eq ?_ _
  obtain ⟨f, r⟩ := x
  have hmem := List.mem_of_mem_filter (mem_sortBy.mp hx)
  exact h.flawless.symbols r ((mem_sitedSymbols h.keyed).mp hmem).2.1

theorem symbolsNamed_eq (h : s.Sound) (n : String) : s.symbolsNamed n = .ok (s.named n) :=
  decodeByPath_eq h _

theorem mem_listed (h : s.Keyed) {keep : FileRow × SymbolRow → Bool} {d : Symbol} :
    d ∈ s.listed keep ↔ ∃ f ∈ s.files, ∃ r ∈ s.symbols, f.id = r.fileId ∧ keep (f, r) = true ∧
      d = r.sited f.relativePath := by
  simp only [listed, List.mem_map, mem_sortBy, List.mem_filter]
  constructor
  · rintro ⟨⟨f, r⟩, ⟨hx, hk⟩, rfl⟩
    obtain ⟨hf, hr, he⟩ := (mem_sitedSymbols h).mp hx
    exact ⟨f, hf, r, hr, he, hk, rfl⟩
  · rintro ⟨f, hf, r, hr, he, hk, rfl⟩
    exact ⟨(f, r), ⟨(mem_sitedSymbols h).mpr ⟨hf, hr, he⟩, hk⟩, rfl⟩

theorem listed_ids_nodup (h : s.Sound) (keep : FileRow × SymbolRow → Bool) :
    ((s.listed keep).map (·.id)).Nodup := by
  have hperm := ((sortBy_perm (byPathAndLine (·.1.relativePath) (·.2.range.startLine))
    (s.sitedSymbols.filter keep)).map fun x => x.2.sited x.1.relativePath).map (·.id)
  rw [listed, hperm.nodup_iff, List.map_map]
  exact (sitedSymbols_ids_nodup h).sublist (List.filter_sublist.map _)

theorem mem_named (h : s.Keyed) {d : Symbol} :
    d ∈ s.named n ↔ ∃ f ∈ s.files, ∃ r ∈ s.symbols, f.id = r.fileId ∧ r.name = n ∧
      d = r.sited f.relativePath := by
  simp only [named, mem_listed h, beq_iff_eq]

theorem name_of_mem_named (h : s.Keyed) {d : Symbol} (hd : d ∈ s.named n) : d.name = n := by
  obtain ⟨f, -, r, -, -, hn, rfl⟩ := (mem_named h).mp hd
  exact hn

/-- A symbol with a name is one of the definitions of the name. -/
theorem exists_mem_named (h : s.Sound) (hr : r ∈ s.symbols) (hn : r.name = n) :
    ∃ d ∈ s.named n, d.id = r.id := by
  obtain ⟨f, hf, he⟩ := h.owned.symbols r hr
  exact ⟨_, (mem_named h.keyed).mpr ⟨f, hf, r, hr, he, hn, rfl⟩, rfl⟩

theorem symbol?_eq (h : s.Sound) (hf : f ∈ s.files) (hr : r ∈ s.symbols) (he : f.id = r.fileId) :
    s.symbol? r.id = .ok (some (r.sited f.relativePath)) := by
  have hfind := find?_key (sitedSymbols_ids_nodup h) ((mem_sitedSymbols h.keyed).mpr ⟨hf, hr, he⟩)
  unfold symbol?
  rw [hfind, Option.mapM_some]
  simp only [SymbolRow.decode_eq (h.flawless.symbols r hr)]
  rfl

end Symbols

/-! ## Links -/

section Links

variable {n m : String} {i : Int} {link : Option Int}

theorem linkMatches_some : linkMatches n (some i) m link = true ↔
    link = some i ∨ link = none ∧ m = n := by
  simp [linkMatches]

/-- **A link of a name matches some definition of the name, and a link that matches one has the
name.** -/
theorem linkMatches_iff (h : s.Sound) {fileId : Int} (hreach : s.Reaches fileId m link)
    (hn : ∃ r ∈ s.symbols, r.name = n) :
    (∃ d ∈ s.named n, linkMatches n (some d.id) m link = true) ↔ m = n := by
  simp only [linkMatches_some]
  constructor
  · rintro ⟨d, hd, hl | ⟨-, hm⟩⟩
    · obtain ⟨f, -, r, hr, -, hrn, rfl⟩ := (mem_named h.keyed).mp hd
      obtain ⟨x, hx, hxi, hxn, -⟩ := hreach _ hl
      rw [← hxn, h.keyed.symbol_eq hx hr hxi, hrn]
    · exact hm
  · rintro rfl
    cases link with
    | none =>
      obtain ⟨r, hr, hrn⟩ := hn
      obtain ⟨d, hd, -⟩ := exists_mem_named h hr hrn
      exact ⟨d, hd, Or.inr ⟨rfl, rfl⟩⟩
    | some j =>
      obtain ⟨x, hx, hxj, hxn, -⟩ := hreach j rfl
      obtain ⟨d, hd, he⟩ := exists_mem_named h hx hxn
      exact ⟨d, hd, Or.inl (by rw [he, hxj])⟩

end Links

/-! ## Edges -/

section Edges

/-- Edges as others see them, by path and line. -/
def edgeList (rows : List RelationshipRow) : List Relationship :=
  (sortBy (byPathAndLine (·.filePath) (·.line)) rows).map (·.toRelationship)

theorem mem_edgeList {rows : List RelationshipRow} {e : Relationship} :
    e ∈ edgeList rows ↔ ∃ r ∈ rows, r.toRelationship = e := by
  simp only [edgeList, List.mem_map, mem_sortBy]

theorem decodeEdges_eq (h : s.Flawless) (keep : RelationshipRow → Bool) :
    decodeEdges (s.relationships.filter keep) = .ok (edgeList (s.relationships.filter keep)) :=
  mapM_eq_ok fun _ hr =>
    RelationshipRow.decode_eq (h.relationships _ (List.mem_of_mem_filter (mem_sortBy.mp hr)))

theorem relationshipsFrom_eq (h : s.Flawless) (n : String) (id : Option Int) :
    s.relationshipsFrom n id =
      .ok (edgeList (s.relationships.filter fun r => linkMatches n id r.source r.sourceId)) :=
  decodeEdges_eq h _

theorem relationshipsTo_eq (h : s.Flawless) (n : String) (id : Option Int) :
    s.relationshipsTo n id =
      .ok (edgeList (s.relationships.filter fun r => linkMatches n id r.target r.targetId)) :=
  decodeEdges_eq h _

/-- Edges that match some of several symbols. -/
theorem mem_flatten_edgeList {meets : Symbol → RelationshipRow → Bool} {ds : List Symbol}
    {e : Relationship} :
    e ∈ (ds.map fun d => edgeList (s.relationships.filter (meets d))).flatten ↔
      ∃ r ∈ s.relationships, (∃ d ∈ ds, meets d r = true) ∧ r.toRelationship = e := by
  simp only [List.mem_flatten, List.mem_map, exists_exists_and_eq_and, mem_edgeList,
    List.mem_filter]
  constructor
  · rintro ⟨d, hd, r, ⟨hr, hm⟩, he⟩
    exact ⟨r, hr, ⟨d, hd, hm⟩, he⟩
  · rintro ⟨r, hr, ⟨d, hd, hm⟩, he⟩
    exact ⟨d, hd, r, ⟨hr, hm⟩, he⟩

end Edges

/-! ## Uses -/

section Uses

variable {n : String} {id : Option Int}

/-- Uses as others see them, by path, line and column. -/
def useList (rows : List ReferenceRow) : List Reference :=
  (sortBy byPlace rows).map (·.toReference)

theorem mem_useList {rows : List ReferenceRow} {u : Reference} :
    u ∈ useList rows ↔ ∃ r ∈ rows, r.toReference = u := by
  simp only [useList, List.mem_map, mem_sortBy]

/-- The uses that match a symbol, in the order in which they are looked at. -/
def matching (s : Store) (n : String) (id : Option Int) : List ReferenceRow :=
  let rows := s.references.filter fun r => linkMatches n id r.target r.targetId
  if id.isSome then rows.filter (·.targetId.isSome) ++ rows.filter (·.targetId.isNone) else rows

theorem matching_perm (s : Store) (n : String) (id : Option Int) : (s.matching n id).Perm
    (s.references.filter fun r => linkMatches n id r.target r.targetId) := by
  unfold matching
  split
  · simp only [← Option.not_isSome]
    exact List.filter_append_perm _ _
  · exact List.Perm.refl _

theorem mem_matching {r : ReferenceRow} : r ∈ s.matching n id ↔
    r ∈ s.references ∧ linkMatches n id r.target r.targetId = true := by
  rw [(matching_perm s n id).mem_iff, List.mem_filter]

theorem referencesTo_eq (h : s.Flawless) (n : String) (id : Option Int) :
    s.referencesTo n id = .ok (useList (s.matching n id)) :=
  mapM_eq_ok fun _ hr => ReferenceRow.decode_eq (h.references _ (mem_matching.mp (mem_sortBy.mp hr)).1)

/-- The uses of some symbols, each once. -/
def usesOfAll (s : Store) (ds : List Symbol) : List Reference :=
  distinctOn (·.id) (ds.map fun d => useList (s.matching d.name (some d.id))).flatten

theorem referencesToAll_eq (h : s.Flawless) (ds : List Symbol) :
    s.referencesToAll ds = .ok (s.usesOfAll ds) := by
  unfold referencesToAll
  rw [mapM_eq_ok fun d _ => referencesTo_eq h d.name (some d.id)]
  rfl

/-- The uses of a name, as others see them. -/
def usesNamed (s : Store) (n : String) : List Reference :=
  (s.references.filter (·.target == n)).map (·.toReference)

theorem usesNamed_ids (h : s.Keyed) (n : String) : ((s.usesNamed n).map (·.id)).Nodup := by
  rw [usesNamed, List.map_map]
  exact h.references.nodup.sublist (List.filter_sublist.map _)

theorem useList_none_perm (s : Store) (n : String) :
    (useList (s.matching n none)).Perm (s.usesNamed n) :=
  ((sortBy_perm byPlace _).trans (matching_perm s n none)).map _

/-- The uses of all definitions of a name are the uses of the name. -/
theorem usesOfAll_named_perm (h : s.Sound) (hn : ∃ r ∈ s.symbols, r.name = n) :
    (s.usesOfAll (s.named n)).Perm (s.usesNamed n) := by
  refine distinctOn_perm _ (usesNamed_ids h.keyed n) fun u => ?_
  simp only [List.mem_flatten, List.mem_map, exists_exists_and_eq_and, mem_useList, mem_matching,
    usesNamed, List.mem_filter, beq_iff_eq]
  constructor
  · rintro ⟨d, hd, r, ⟨hr, hm⟩, rfl⟩
    rw [name_of_mem_named h.keyed hd] at hm
    exact ⟨r, ⟨hr, (linkMatches_iff h (h.linked.uses r hr) hn).mp ⟨d, hd, hm⟩⟩, rfl⟩
  · rintro ⟨r, ⟨hr, ht⟩, rfl⟩
    obtain ⟨d, hd, hm⟩ := (linkMatches_iff h (h.linked.uses r hr) hn).mpr ht
    refine ⟨d, hd, r, ⟨hr, ?_⟩, rfl⟩
    rw [name_of_mem_named h.keyed hd]
    exact hm

end Uses

/-! ## Nothing is hidden -/

/-- **Resolution hides no use.** After any writes and for every name with a definition: the uses of
all its definitions are the uses with the name, each once, as the lookup by name alone finds them; and
the edges into its definitions, or out of them, are the edges whose target, or source, has the name. -/
theorem Reachable.no_use_hidden (h : s.Reachable) {n : String} (hn : ∃ r ∈ s.symbols, r.name = n) :
    ∃ ds, s.symbolsNamed n = .ok ds ∧
      (∃ us vs, s.referencesToAll ds = .ok us ∧ s.referencesTo n none = .ok vs ∧
        us.Perm ((s.references.filter (·.target == n)).map (·.toReference)) ∧ us.Perm vs) ∧
      (∃ es, (ds.mapM fun d => s.relationshipsTo n (some d.id)) = .ok es ∧
        ∀ e, e ∈ es.flatten ↔ ∃ r ∈ s.relationships, r.target = n ∧ r.toRelationship = e) ∧
      ∃ es, (ds.mapM fun d => s.relationshipsFrom n (some d.id)) = .ok es ∧
        ∀ e, e ∈ es.flatten ↔ ∃ r ∈ s.relationships, r.source = n ∧ r.toRelationship = e := by
  have hs := h.sound
  refine ⟨s.named n, symbolsNamed_eq hs n, ?_, ?_, ?_⟩
  · have hall := usesOfAll_named_perm hs hn
    exact ⟨_, _, referencesToAll_eq hs.flawless _, referencesTo_eq hs.flawless n none, hall,
      hall.trans (useList_none_perm s n).symm⟩
  · refine ⟨_, mapM_eq_ok fun d _ => relationshipsTo_eq hs.flawless n (some d.id), fun e => ?_⟩
    rw [mem_flatten_edgeList]
    exact exists_congr fun r => and_congr_right fun hr =>
      and_congr_left fun _ => linkMatches_iff hs (hs.linked.targets r hr) hn
  · refine ⟨_, mapM_eq_ok fun d _ => relationshipsFrom_eq hs.flawless n (some d.id), fun e => ?_⟩
    rw [mem_flatten_edgeList]
    exact exists_congr fun r => and_congr_right fun hr =>
      and_congr_left fun _ => linkMatches_iff hs (hs.linked.sources r hr) hn

/-- Two files that declare the same name and use it, and a third whose use of it has no link. -/
def ambiguous : List Write :=
  [.upsertProject 0 "/p" "p",
    .persist 0 1 { relativePath := "a.go" }
      { symbols := [{ name := "f" }], uses := [⟨.call, none, "f", none, 4, 1⟩] },
    .persist 0 1 { relativePath := "b.go" }
      { symbols := [{ name := "f" }], uses := [⟨.call, none, "f", none, 5, 1⟩] },
    .persist 0 1 { relativePath := "c.go" } { uses := [⟨.use, none, "f", none, 6, 1⟩] }]

/-- Uses with different links and a use without one are all found. -/
theorem no_use_hidden_ambiguous :
    (run ambiguous).references.map (·.targetId) = [some 1, some 2, none] ∧
    ∃ ds us, (run ambiguous).symbolsNamed "f" = .ok ds ∧
      (run ambiguous).referencesToAll ds = .ok us ∧ us.length = 3 := by
  refine ⟨by decide +kernel, ?_⟩
  have hn : ∃ r ∈ (run ambiguous).symbols, r.name = "f" := by
    have h : (run ambiguous).symbols.any (·.name == "f") = true := by decide +kernel
    simpa using h
  obtain ⟨ds, hds, ⟨us, vs, hus, -, hperm, -⟩, -⟩ := (reachable_run ambiguous).no_use_hidden hn
  have hlen : ((run ambiguous).references.filter (·.target == "f")).length = 3 := by decide +kernel
  exact ⟨ds, us, hds, hus, by rw [hperm.length_eq, List.length_map, hlen]⟩

end Store

end CodeAtlas
