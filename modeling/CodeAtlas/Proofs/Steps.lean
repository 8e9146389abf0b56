import Mathlib.Data.Nat.Find
import CodeAtlas.Graph.Walk
import CodeAtlas.Proofs.Reads

/-!
# Steps between symbols

* `Trail`, **`Apart`**: so many steps of a relation from a start, and the least number of them;
  `apart_succ_iff`: one step further are those that a step leads to and that are not nearer.
* `Store.LeadsTo`, `Store.ComesFrom`: an edge that is read at a symbol, and the symbol at its other end.
* **`Store.Step`**, `Store.Steps`, **`Store.Distance`**: a step along an edge in either direction, some
  steps, and the least number of steps.
* `Store.arrivals`: all that a symbol steps to, with the edges; `mem_arrivals`.
* `Shown.eq_of_id`: among the symbols that steps lead to, an id stands for one.
-/

namespace CodeAtlas

/-! ## Distances along a relation -/

section Apart

variable {α : Type} {r : α → α → Prop} {start : α → Prop} {b : α} {n m : Nat}

/-- So many steps of a relation lead from a start to an element. -/
def Trail (r : α → α → Prop) (start : α → Prop) : Nat → α → Prop
  | 0, b => start b
  | n + 1, b => ∃ c, Trail r start n c ∧ r c b

/-- **The least number of steps** of a relation from a start to an element. -/
structure Apart (r : α → α → Prop) (start : α → Prop) (n : Nat) (b : α) : Prop where
  reached : Trail r start n b
  least : ∀ m, Trail r start m b → n ≤ m

theorem exists_apart (h : Trail r start m b) : ∃ n ≤ m, Apart r start n b := by
  classical
  have hex : ∃ n, Trail r start n b := ⟨m, h⟩
  exact ⟨Nat.find hex, Nat.find_min' hex h, Nat.find_spec hex, fun k hk => Nat.find_min' hex hk⟩

theorem Apart.unique (h : Apart r start n b) (h' : Apart r start m b) : n = m :=
  Nat.le_antisymm (h.least m h'.reached) (h'.least n h.reached)

theorem apart_zero_iff : Apart r start 0 b ↔ start b :=
  ⟨fun h => h.reached, fun h => ⟨h, fun m _ => Nat.zero_le m⟩⟩

/-- **One step further** are those that a step leads to and that are not nearer. -/
theorem apart_succ_iff : Apart r start (n + 1) b ↔
    (∃ c, Apart r start n c ∧ r c b) ∧ ∀ k ≤ n, ¬ Apart r start k b := by
  constructor
  · rintro ⟨⟨c, hc, hstep⟩, hleast⟩
    refine ⟨⟨c, ⟨hc, fun m hm => ?_⟩, hstep⟩, fun k hk h => ?_⟩
    · have := hleast (m + 1) ⟨c, hm, hstep⟩
      omega
    · have := hleast k h.reached
      omega
  · rintro ⟨⟨c, hc, hstep⟩, hfar⟩
    refine ⟨⟨c, hc.reached, hstep⟩, fun m hm => ?_⟩
    obtain ⟨k, hk, hb⟩ := exists_apart hm
    by_contra hlt
    exact hfar k (by omega) hb

/-- Where nothing is at a distance, nothing is further away. -/
theorem no_apart_of_le (h : ∀ b, ¬ Apart r start n b) (hm : n ≤ m) (b : α) :
    ¬ Apart r start m b := by
  induction hm generalizing b with
  | refl => exact h b
  | step _ ih =>
    intro hb
    obtain ⟨⟨c, hc, -⟩, -⟩ := apart_succ_iff.mp hb
    exact ih c hc

end Apart

namespace Store

variable {s : Store}

/-! ## Edges at a symbol -/

/-- An edge from a symbol has a target. -/
def LeadsTo (s : Store) (name : String) (id : Int) (e : Relationship) (b : Symbol) : Prop :=
  ∃ es, s.relationshipsFrom name (some id) = .ok es ∧ e ∈ es ∧
    s.linkEnd? e.target e.targetId = .ok (some b)

/-- An edge to a symbol has a source. -/
def ComesFrom (s : Store) (name : String) (id : Int) (e : Relationship) (b : Symbol) : Prop :=
  ∃ es, s.relationshipsTo name (some id) = .ok es ∧ e ∈ es ∧
    s.linkEnd? e.source e.sourceId = .ok (some b)

/-- **A step**: along an edge from a symbol to its target, or along an edge to it from its source. -/
def Step (s : Store) (a b : Symbol) : Prop :=
  ∃ e, s.LeadsTo a.name a.id e b ∨ s.ComesFrom a.name a.id e b

/-- So many steps lead from a symbol to another one. -/
def Steps (s : Store) (a : Symbol) : Nat → Symbol → Prop
  | 0, b => b = a
  | n + 1, b => ∃ c, s.Steps a n c ∧ s.Step c b

/-- **The least number of steps** from a symbol to another one. -/
structure Distance (s : Store) (a b : Symbol) (n : Nat) : Prop where
  reached : s.Steps a n b
  least : ∀ m, s.Steps a m b → n ≤ m

section Distance

variable {a b : Symbol} {n m : Nat}

theorem steps_iff : s.Steps a n b ↔ Trail s.Step (· = a) n b := by
  induction n generalizing b with
  | zero => rfl
  | succ n ih => exact exists_congr fun c => and_congr_left fun _ => ih

theorem distance_iff : s.Distance a b n ↔ Apart s.Step (· = a) n b :=
  ⟨fun h => ⟨steps_iff.mp h.reached, fun m hm => h.least m (steps_iff.mpr hm)⟩,
    fun h => ⟨steps_iff.mpr h.reached, fun m hm => h.least m (steps_iff.mp hm)⟩⟩

theorem exists_distance (h : s.Steps a m b) : ∃ n ≤ m, s.Distance a b n := by
  simpa only [distance_iff] using exists_apart (steps_iff.mp h)

theorem distance_zero_iff : s.Distance a b 0 ↔ b = a :=
  distance_iff.trans apart_zero_iff

theorem distance_succ_iff : s.Distance a b (n + 1) ↔
    (∃ c, s.Distance a c n ∧ s.Step c b) ∧ ∀ k ≤ n, ¬ s.Distance a b k := by
  simpa only [distance_iff] using apart_succ_iff

theorem no_distance_of_le (h : ∀ b, ¬ s.Distance a b n) (hm : n ≤ m) (b : Symbol) :
    ¬ s.Distance a b m := by
  simp only [distance_iff] at h ⊢
  exact no_apart_of_le h hm b

end Distance

/-! ## Symbols that are shown -/

/-- The symbol that is shown under an id. -/
def shown? (s : Store) (id : Int) : Option Symbol :=
  (s.sitedSymbols.find? (·.2.id == id)).map fun x => x.2.sited x.1.relativePath

/-- A symbol is the one that is shown under its id. -/
def Shown (s : Store) (a : Symbol) : Prop := s.shown? a.id = some a

theorem Shown.eq_of_id {a b : Symbol} (ha : s.Shown a) (hb : s.Shown b) (h : a.id = b.id) : a = b := by
  rw [Shown, h] at ha
  exact Option.some.inj (ha.symm.trans hb)

theorem symbol?_eq_shown (h : s.Sound) (id : Int) : s.symbol? id = .ok (s.shown? id) := by
  unfold symbol? shown?
  cases hfind : s.sitedSymbols.find? (·.2.id == id) with
  | none => rfl
  | some x =>
    obtain ⟨f, r⟩ := x
    have hr := ((mem_sitedSymbols h.keyed).mp (List.mem_of_find?_eq_some hfind)).2.1
    rw [Option.mapM_some]
    simp only [SymbolRow.decode_eq (h.flawless.symbols r hr)]
    rfl

theorem shown_of_shown? {id : Int} {a : Symbol} (ha : s.shown? id = some a) : s.Shown a := by
  obtain ⟨x, hx, rfl⟩ := Option.map_eq_some_iff.mp ha
  have hid : x.2.id = id := by simpa using List.find?_some hx
  rw [Shown]
  exact (congrArg s.shown? hid).trans ha

theorem shown_of_mem_listed (h : s.Sound) {keep : FileRow × SymbolRow → Bool} {a : Symbol}
    (ha : a ∈ s.listed keep) : s.Shown a := by
  obtain ⟨f, hf, r, hr, he, -, rfl⟩ := (mem_listed h.keyed).mp ha
  have hsymbol := symbol?_eq h hf hr he
  rw [symbol?_eq_shown h] at hsymbol
  exact Except.ok.inj hsymbol

theorem shown_of_mem_named (h : s.Sound) {n : String} {a : Symbol} (ha : a ∈ s.named n) :
    s.Shown a := shown_of_mem_listed h ha

theorem Shown.mem_ids (h : s.Keyed) {a : Symbol} (ha : s.Shown a) : a.id ∈ s.symbols.map (·.id) := by
  obtain ⟨⟨f, r⟩, hx, he⟩ := Option.map_eq_some_iff.mp ha
  have hr := ((mem_sitedSymbols h).mp (List.mem_of_find?_eq_some hx)).2.1
  rw [← he]
  exact List.mem_map_of_mem hr

/-! ## All that a symbol steps to -/

section Arrivals

variable {name : String} {id : Int} {a b : Symbol}

/-- The symbol at one end of a link. -/
def endOf (s : Store) (name : String) : Option Int → Option Symbol
  | some id => s.shown? id
  | none => (s.named name).head?

theorem linkEnd?_eq (h : s.Sound) (name : String) (link : Option Int) :
    s.linkEnd? name link = .ok (s.endOf name link) := by
  cases link with
  | some id => exact symbol?_eq_shown h id
  | none =>
    rw [linkEnd?, symbolsNamed_eq h]
    rfl

theorem shown_of_endOf (h : s.Sound) {link : Option Int} (hb : s.endOf name link = some b) :
    s.Shown b := by
  cases link with
  | some id => exact shown_of_shown? hb
  | none => exact shown_of_mem_named h (List.mem_of_mem_head? hb)

/-- The edges from a symbol. -/
def edgesFrom (s : Store) (name : String) (id : Int) : List Relationship :=
  edgeList (s.relationships.filter fun r => linkMatches name (some id) r.source r.sourceId)

/-- The edges to a symbol. -/
def edgesTo (s : Store) (name : String) (id : Int) : List Relationship :=
  edgeList (s.relationships.filter fun r => linkMatches name (some id) r.target r.targetId)

theorem leadsTo_iff (h : s.Sound) {e : Relationship} : s.LeadsTo name id e b ↔
    e ∈ s.edgesFrom name id ∧ s.endOf e.target e.targetId = some b := by
  unfold LeadsTo
  rw [relationshipsFrom_eq h.flawless, linkEnd?_eq h]
  constructor
  · rintro ⟨es, hes, he, hb⟩
    cases hes
    exact ⟨he, Except.ok.inj hb⟩
  · rintro ⟨he, hb⟩
    exact ⟨_, rfl, he, by rw [hb]⟩

theorem comesFrom_iff (h : s.Sound) {e : Relationship} : s.ComesFrom name id e b ↔
    e ∈ s.edgesTo name id ∧ s.endOf e.source e.sourceId = some b := by
  unfold ComesFrom
  rw [relationshipsTo_eq h.flawless, linkEnd?_eq h]
  constructor
  · rintro ⟨es, hes, he, hb⟩
    cases hes
    exact ⟨he, Except.ok.inj hb⟩
  · rintro ⟨he, hb⟩
    exact ⟨_, rfl, he, by rw [hb]⟩

/-- Where an edge from a symbol leads. -/
def forth (s : Store) (id : Int) (e : Relationship) : List (GraphEdge × Symbol) :=
  (s.endOf e.target e.targetId).toList.map fun b => (⟨id, b.id, e.kind⟩, b)

/-- Where an edge to a symbol comes from. -/
def back (s : Store) (id : Int) (e : Relationship) : List (GraphEdge × Symbol) :=
  (s.endOf e.source e.sourceId).toList.map fun b => (⟨b.id, id, e.kind⟩, b)

/-- **All that a symbol steps to**, with the edges. -/
def arrivals (s : Store) (a : Symbol) : List (GraphEdge × Symbol) :=
  (s.edgesFrom a.name a.id).flatMap (s.forth a.id) ++ (s.edgesTo a.name a.id).flatMap (s.back a.id)

theorem mem_forth {e : Relationship} {x : GraphEdge × Symbol} : x ∈ s.forth id e ↔
    s.endOf e.target e.targetId = some x.2 ∧ x.1 = ⟨id, x.2.id, e.kind⟩ := by
  obtain ⟨edge, b⟩ := x
  simp only [forth, List.mem_map, Option.mem_toList, Prod.mk.injEq]
  constructor
  · rintro ⟨_, hb, rfl, rfl⟩
    exact ⟨hb, rfl⟩
  · rintro ⟨hb, rfl⟩
    exact ⟨b, hb, rfl, rfl⟩

theorem mem_back {e : Relationship} {x : GraphEdge × Symbol} : x ∈ s.back id e ↔
    s.endOf e.source e.sourceId = some x.2 ∧ x.1 = ⟨x.2.id, id, e.kind⟩ := by
  obtain ⟨edge, b⟩ := x
  simp only [back, List.mem_map, Option.mem_toList, Prod.mk.injEq]
  constructor
  · rintro ⟨_, hb, rfl, rfl⟩
    exact ⟨hb, rfl⟩
  · rintro ⟨hb, rfl⟩
    exact ⟨b, hb, rfl, rfl⟩

theorem mem_arrivals (h : s.Sound) {x : GraphEdge × Symbol} : x ∈ s.arrivals a ↔
    (∃ e, s.LeadsTo a.name a.id e x.2 ∧ x.1 = ⟨a.id, x.2.id, e.kind⟩) ∨
      ∃ e, s.ComesFrom a.name a.id e x.2 ∧ x.1 = ⟨x.2.id, a.id, e.kind⟩ := by
  simp only [arrivals, List.mem_append, List.mem_flatMap, mem_forth, mem_back, leadsTo_iff h,
    comesFrom_iff h, and_assoc]

theorem step_iff (h : s.Sound) : s.Step a b ↔ ∃ x ∈ s.arrivals a, x.2 = b := by
  constructor
  · rintro ⟨e, hb | hb⟩
    · exact ⟨(⟨a.id, b.id, e.kind⟩, b), (mem_arrivals h).mpr (Or.inl ⟨e, hb, rfl⟩), rfl⟩
    · exact ⟨(⟨b.id, a.id, e.kind⟩, b), (mem_arrivals h).mpr (Or.inr ⟨e, hb, rfl⟩), rfl⟩
  · rintro ⟨x, hx, rfl⟩
    rcases (mem_arrivals h).mp hx with ⟨e, hb, -⟩ | ⟨e, hb, -⟩
    · exact ⟨e, Or.inl hb⟩
    · exact ⟨e, Or.inr hb⟩

theorem Step.shown (h : s.Sound) (hab : s.Step a b) : s.Shown b := by
  obtain ⟨e, hb | hb⟩ := hab
  · exact shown_of_endOf h ((leadsTo_iff h).mp hb).2
  · exact shown_of_endOf h ((comesFrom_iff h).mp hb).2

theorem Distance.shown (h : s.Sound) (ha : s.Shown a) {n : Nat} (hb : s.Distance a b n) :
    s.Shown b := by
  cases n with
  | zero => rwa [distance_zero_iff.mp hb]
  | succ n =>
    obtain ⟨⟨c, -, hstep⟩, -⟩ := distance_succ_iff.mp hb
    exact hstep.shown h

end Arrivals

end Store

end CodeAtlas
