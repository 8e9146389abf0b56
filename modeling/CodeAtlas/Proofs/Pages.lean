import Mathlib.Data.List.Infix
import CodeAtlas.Lookup
import CodeAtlas.Proofs.Reads

/-!
# Pages of search results

* `Store.ranking`, `rankedSymbols_eq`, `searchSymbols_eq`: a search reads the front of a ranking.
* `page`, `window`: the first symbols of a kind, and the part of a ranking in which they are looked for.
* **`Store.search_page`**: a page without a kind is the front of the ranking; one with a kind is
  complete if the window holds enough symbols of the kind, and a front of the complete page otherwise.
* `Store.page_left_empty`: a page that stays empty although a symbol matches.
-/

namespace CodeAtlas

section Lists

variable {α β ε : Type}

theorem mapM_take {f : α → Except ε β} {xs : List α} {ys : List β} (h : xs.mapM f = .ok ys)
    (n : Nat) : (xs.take n).mapM f = .ok (ys.take n) := by
  induction xs generalizing ys n with
  | nil =>
    obtain rfl := Except.ok.inj h
    simp
    rfl
  | cons x xs ih =>
    rw [List.mapM_cons] at h
    cases hx : f x with
    | error e => simp [hx, bind, Except.bind] at h
    | ok y =>
      cases hxs : xs.mapM f with
      | error e => simp [hx, hxs, bind, Except.bind] at h
      | ok zs =>
        obtain rfl : y :: zs = ys := by simpa [hx, hxs, bind, Except.bind, pure, Except.pure] using h
        cases n with
        | zero => rfl
        | succ n =>
          rw [List.take_succ_cons, List.mapM_cons, hx, ih hxs n]
          rfl

/-- A front of a list starts like the list as far as it goes. -/
theorem take_eq_take_iff_of_isPrefix {xs ys : List α} (h : xs <+: ys) (n : Nat) :
    xs.take n = ys.take n ↔ min n ys.length ≤ xs.length := by
  have hle := h.length_le
  constructor
  · intro he
    have := congrArg List.length he
    rw [List.length_take, List.length_take] at this
    omega
  · intro hmin
    refine (h.take n).eq_of_length ?_
    rw [List.length_take, List.length_take]
    omega

/-- A sort that cannot tell elements apart keeps their order or turns it round. -/
theorem sortBy_of_const {le : α → α → Bool} {b : Bool} {l : List α}
    (h : ∀ x ∈ l, ∀ y ∈ l, le x y = b) : sortBy le l = if b then l else l.reverse := by
  have hlast : ∀ (a : α) (l : List α), (∀ y ∈ l, le a y = false) → insertBy le a l = l ++ [a] := by
    intro a l hl
    induction l with
    | nil => rfl
    | cons c l ih =>
      rw [insertBy, hl c List.mem_cons_self, if_neg Bool.false_ne_true,
        ih fun y hy => hl y (List.mem_cons_of_mem _ hy), List.cons_append]
  induction l with
  | nil => simp [sortBy]
  | cons a l ih =>
    rw [sortBy, ih fun x hx y hy => h x (List.mem_cons_of_mem _ hx) y (List.mem_cons_of_mem _ hy)]
    have ha : ∀ y ∈ l, le a y = b := fun y hy =>
      h a List.mem_cons_self y (List.mem_cons_of_mem _ hy)
    cases b with
    | true =>
      cases l with
      | nil => rfl
      | cons c l => rw [if_pos rfl, if_pos rfl, insertBy, ha c List.mem_cons_self, if_pos rfl]
    | false =>
      rw [if_neg Bool.false_ne_true, if_neg Bool.false_ne_true, List.reverse_cons]
      exact hlast a l.reverse fun y hy => ha y (List.mem_reverse.mp hy)

end Lists

/-! ## Windows -/

/-- The first symbols of a kind. -/
def page (k : SymbolKind) (limit : Nat) (ranked : List Symbol) : List Symbol :=
  (ranked.filter (·.kind == k)).take limit

/-- The part of a ranking in which symbols of a kind are looked for. A limit that is no signed number
is none. -/
def window (limit : Nat) (ranked : List Symbol) : List Symbol :=
  if 4 * limit < 0x8000000000000000 then ranked.take (4 * limit) else ranked

theorem isPrefix_window (limit : Nat) (ranked : List Symbol) : window limit ranked <+: ranked := by
  unfold window
  split
  · exact List.take_prefix _ _
  · exact List.prefix_refl _

theorem takePage_min (limit : Nat) (ranked : List Symbol) :
    takePage (min (4 * limit) 0xffffffffffffffff) ranked = window limit ranked := by
  unfold takePage pageSize window
  by_cases h : 4 * limit < 0x8000000000000000
  · rw [if_pos (by omega), if_pos h, Nat.min_eq_left (by omega)]
  · rw [if_neg (by omega), if_neg h]

theorem take_takePage (limit : Nat) (ranked : List Symbol) :
    (takePage limit ranked).take limit = ranked.take limit := by
  unfold takePage pageSize
  split
  · next h =>
    split at h
    · obtain rfl := Option.some.inj h
      rw [List.take_take, Nat.min_self]
    · cases h
  · rfl

/-- What is left of a page in the window. -/
theorem isPrefix_page_window (k : SymbolKind) (limit : Nat) (ranked : List Symbol) :
    page k limit (window limit ranked) <+: page k limit ranked :=
  ((isPrefix_window limit ranked).filter _).take limit

theorem page_window_eq_iff (k : SymbolKind) (limit : Nat) (ranked : List Symbol) :
    page k limit (window limit ranked) = page k limit ranked ↔
      min limit (ranked.countP (·.kind == k)) ≤ (window limit ranked).countP (·.kind == k) := by
  rw [List.countP_eq_length_filter, List.countP_eq_length_filter]
  exact take_eq_take_iff_of_isPrefix ((isPrefix_window limit ranked).filter _) limit

namespace Store

variable {s : Store} {input : String} {M : List Symbol}

/-! ## Rankings -/

/-- The rows that match a search text with their files, best first. -/
def ranking (s : Store) (input : String) : List (FileRow × SymbolRow) :=
  let phrases := ((queryTerms input).map Text.tokens).filter fun p => !p.isEmpty
  if phrases.isEmpty then []
  else (s.rankedRows phrases).filterMap fun r =>
    (s.files.find? (·.id == r.fileId)).map fun f => (f, r)

theorem rankedSymbols_eq (s : Store) (input : String) : s.rankedSymbols input =
    (s.ranking input).mapM fun x => x.2.decode x.1.relativePath := by
  unfold rankedSymbols ranking
  dsimp only
  split <;> rfl

theorem searchSymbols_eq (s : Store) (input : String) (limit : Nat) :
    s.searchSymbols input limit =
      (takePage limit (s.ranking input)).mapM fun x => x.2.decode x.1.relativePath := by
  unfold searchSymbols ranking
  dsimp only
  split
  · unfold takePage
    split
    · simp
    · rfl
  · rfl

/-- A search reads the front of the ranking. -/
theorem searchSymbols_of_ranked (hM : s.rankedSymbols input = .ok M) (limit : Nat) :
    s.searchSymbols input limit = .ok (takePage limit M) := by
  rw [rankedSymbols_eq] at hM
  rw [searchSymbols_eq]
  unfold takePage
  split
  · exact mapM_take hM _
  · exact hM

theorem search_none (hM : s.rankedSymbols input = .ok M) (limit : Nat) :
    s.search input none limit = .ok ((M.take limit).map Hit.ofSymbol) := by
  unfold search
  simp only [Option.isSome_none, Bool.false_eq_true, if_false, searchSymbols_of_ranked hM]
  simp [bind, Except.bind, pure, Except.pure, take_takePage]

theorem search_some (hM : s.rankedSymbols input = .ok M) (k : SymbolKind) (limit : Nat) :
    s.search input (some k) limit =
      .ok ((page k limit (window limit M)).map Hit.ofSymbol) := by
  unfold search page
  simp only [Option.isSome_some, if_true, searchSymbols_of_ranked hM, takePage_min]
  simp [bind, Except.bind, pure, Except.pure, BEq.comm (a := k)]

/-- **A search gives a page of its ranking.** Without a kind, it gives the front of the ranking. With a
kind, it gives a front of the page with the first symbols of the kind, and the whole page if and only if
the first matches, four times as many as the limit, hold enough symbols of the kind: as many as the
limit, or all that match. -/
theorem search_page (hM : s.rankedSymbols input = .ok M) (limit : Nat) :
    s.search input none limit = .ok ((M.take limit).map Hit.ofSymbol) ∧
    ∀ k, s.search input (some k) limit =
        .ok ((page k limit (window limit M)).map Hit.ofSymbol) ∧
      page k limit (window limit M) <+: page k limit M ∧
      (s.search input (some k) limit = .ok ((page k limit M).map Hit.ofSymbol) ↔
        min limit (M.countP (·.kind == k)) ≤ (window limit M).countP (·.kind == k)) := by
  refine ⟨search_none hM limit, fun k => ⟨search_some hM k limit, isPrefix_page_window k limit M, ?_⟩⟩
  rw [search_some hM, Except.ok.injEq, ← page_window_eq_iff]
  constructor
  · intro he
    refine (isPrefix_page_window k limit M).eq_of_length ?_
    simpa using congrArg List.length he
  · exact congrArg _

/-! ## Rankings of sound stores -/

theorem mem_of_mem_rankedRows {phrases : List (List String)} {r : SymbolRow}
    (h : r ∈ s.rankedRows phrases) : r ∈ s.symbols := by
  unfold rankedRows at h
  obtain ⟨⟨score, r'⟩, hmem, rfl⟩ := List.mem_map.mp h
  obtain ⟨⟨r'', columns⟩, hrow, hsome⟩ := List.mem_filterMap.mp (mem_sortBy.mp hmem)
  obtain ⟨x, hx, he⟩ := List.mem_map.mp hrow
  obtain ⟨rfl, rfl⟩ := Prod.mk.inj he
  dsimp only at hsome
  split at hsome
  · obtain ⟨-, rfl⟩ := Prod.mk.inj (Option.some.inj hsome)
    exact hx
  · cases hsome

/-- The ranking of a sound store can be read. -/
theorem rankedSymbols_of_sound (h : s.Sound) (input : String) : s.rankedSymbols input =
    .ok ((s.ranking input).map fun x => x.2.sited x.1.relativePath) := by
  rw [rankedSymbols_eq]
  refine mapM_eq_ok fun x hx => SymbolRow.decode_eq (h.flawless.symbols x.2 ?_) _
  unfold ranking at hx
  dsimp only at hx
  split at hx
  · cases hx
  · obtain ⟨r, hr, he⟩ := List.mem_filterMap.mp hx
    obtain ⟨f, -, rfl⟩ := Option.map_eq_some_iff.mp he
    exact mem_of_mem_rankedRows hr

/-- Every row of a ranking has a file, so none is lost. -/
theorem ranking_snd (h : s.Sound) {phrases : List (List String)}
    (hp : ((queryTerms input).map Text.tokens).filter (fun p => !p.isEmpty) = phrases)
    (hne : phrases ≠ []) : (s.ranking input).map (·.2) = s.rankedRows phrases := by
  have hrow : ∀ r ∈ s.rankedRows phrases,
      ((s.files.find? (·.id == r.fileId)).map fun f => (f, r)).map (·.2) = some r := by
    intro r hr
    obtain ⟨f, hf, he⟩ := h.owned.symbols r (mem_of_mem_rankedRows hr)
    rw [← he, find?_key h.keyed.files.nodup hf]
    rfl
  unfold ranking
  dsimp only
  rw [hp, if_neg (by simpa using hne), List.map_filterMap, List.filterMap_congr hrow,
    List.filterMap_some]

/-- Symbols with the same words are ranked in their order or against it. Scores are floating numbers,
and nothing is known here of how these compare, not even that a number is not less than itself. -/
theorem rankedRows_of_alike {phrases columns : List (List String)}
    (hcolumns : ∀ r ∈ s.symbols, indexedTokens r = columns)
    (hcount : ∀ p ∈ phrases, 0 < occurrences p columns) :
    s.rankedRows phrases = s.symbols ∨ s.rankedRows phrases = s.symbols.reverse := by
  have hrows : s.symbols.map (fun r => (r, indexedTokens r)) =
      s.symbols.map fun r => (r, columns) :=
    List.map_congr_left fun r hr => by rw [hcolumns r hr]
  have hall : ((phrases.map fun p => occurrences p columns).all (· > 0)) = true := by
    simpa using hcount
  unfold rankedRows
  simp only [hrows]
  simp only [List.filterMap_map, Function.comp_def, hall, if_true, List.filterMap_eq_map']
  generalize score _ _ _ = x
  rw [sortBy_of_const (b := !decide (x < x)) (by simp)]
  split
  · exact Or.inl (by simp [Function.comp_def])
  · exact Or.inr (by simp [Function.comp_def])

/-! ## A crowd of namesakes -/

/-- Nine symbols of one name, of which the one in the middle is a structure. -/
def crowd : List Write :=
  let plain (line : Nat) : Declaration :=
    { name := "f", range := { startLine := line, endLine := line } }
  [.upsertProject 0 "/p" "p",
    .persist 0 1 { relativePath := "a.go" }
      { symbols := [plain 1, plain 2, plain 3, plain 4, { plain 5 with kind := .structType },
          plain 6, plain 7, plain 8, plain 9] }]

theorem countP_kind (M : List Symbol) (k : SymbolKind) :
    M.countP (·.kind == k) = (M.map (·.kind)).countP (· == k) := by
  rw [List.countP_map]
  rfl

/-- Either way round, the structure is in the middle of the ranking. -/
theorem ranked_crowd : ∃ M, (run crowd).rankedSymbols "f" = .ok M ∧
    M.map (·.kind) = [.function, .function, .function, .function, .structType, .function,
      .function, .function, .function] ∧
    M.countP (·.kind == .structType) = 1 := by
  have hs := (reachable_run crowd).sound
  have hphrases : ((queryTerms "f").map Text.tokens).filter (fun p => !p.isEmpty) = [["f"]] := by
    decide +kernel
  have hsnd := ranking_snd hs hphrases (List.cons_ne_nil _ _)
  have hcolumns : ∀ r ∈ (run crowd).symbols, indexedTokens r = [["f"], [], []] := by
    decide +kernel
  have hkinds : ((run crowd).ranking "f").map (fun x => (x.2.sited x.1.relativePath).kind) =
      ((run crowd).rankedRows [["f"]]).map (·.kind) := by
    rw [← hsnd, List.map_map]
    rfl
  refine ⟨_, rankedSymbols_of_sound hs "f", ?_⟩
  rw [countP_kind, List.map_map, Function.comp_def, hkinds]
  have hcount : ∀ p ∈ [["f"]], 0 < occurrences p [["f"], [], []] := by decide
  rcases rankedRows_of_alike hcolumns hcount with he | he
  · rw [he]
    decide +kernel
  · rw [he]
    decide +kernel

/-- Where two structures are looked for, the page is complete: it holds the only one. -/
theorem search_page_crowd : ∃ M, (run crowd).rankedSymbols "f" = .ok M ∧
    (run crowd).search "f" none 2 = .ok ((M.take 2).map Hit.ofSymbol) ∧
    (run crowd).search "f" (some .structType) 2 =
      .ok ((page .structType 2 M).map Hit.ofSymbol) := by
  obtain ⟨M, hM, hkinds, hall⟩ := ranked_crowd
  obtain ⟨hnone, hkind⟩ := search_page hM 2
  refine ⟨M, hM, hnone, (hkind .structType).2.2.mpr ?_⟩
  have hwindow : (window 2 M).countP (·.kind == .structType) = 1 := by
    rw [window, if_pos (by decide), countP_kind, List.map_take, hkinds]
    decide
  rw [hwindow, hall]
  decide

/-- **A page stays empty although a symbol matches**, since none of the first four matches is of its
kind. -/
theorem page_left_empty : (run crowd).Reachable ∧ ∃ M m,
    (run crowd).rankedSymbols "f" = .ok M ∧ page .structType 1 M = [m] ∧
    (run crowd).search "f" (some .structType) 1 = .ok [] := by
  obtain ⟨M, hM, hkinds, hall⟩ := ranked_crowd
  have hwindow : (window 1 M).countP (·.kind == .structType) = 0 := by
    rw [window, if_pos (by decide), countP_kind, List.map_take, hkinds]
    decide
  obtain ⟨m, hm⟩ : ∃ m, page .structType 1 M = [m] := by
    rw [← List.length_eq_one_iff, page, List.length_take, ← List.countP_eq_length_filter, hall]
    rfl
  have hempty : page .structType 1 (window 1 M) = [] := by
    rw [List.countP_eq_length_filter, List.length_eq_zero_iff] at hwindow
    rw [page, hwindow]
    rfl
  exact ⟨reachable_run crowd, M, m, hM, hm, by rw [search_some hM, hempty]; rfl⟩

end Store

end CodeAtlas
