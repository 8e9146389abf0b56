import Mathlib.Data.List.Forall2
import Mathlib.Data.List.Nodup
import Mathlib.Data.List.Perm.Basic
import Mathlib.Tactic.Common
import CodeAtlas.Store.Write

/-!
# Rows, ids and counters

The rows of a table stand in the order of their ids, and the counter of the table is never behind.

* `Issued last ids`: ids that grow and are at most `last`; `Issued.append_numbered`: new rows take the
  next ids.
* `sortBy_perm`, `takeFirst_eq_some`: sorting and taking out lose no row. `sortBy_stable`,
  `sortBy_compare_pairwise`: sorting puts rows in order. `sortedTexts_congr`: sorted texts depend only
  on which texts there are.
* `find?_key`: an id stands for at most one row. `eq_of_mem_iff`: a table is determined by its rows.
-/

namespace CodeAtlas

/-! ## Sorting and taking out -/

section Lists

variable {α β : Type}

theorem insertBy_perm (le : α → α → Bool) (a : α) : ∀ l : List α, (insertBy le a l).Perm (a :: l)
  | [] => List.Perm.refl _
  | b :: bs => by
    unfold insertBy
    split
    · exact List.Perm.refl _
    · exact ((insertBy_perm le a bs).cons b).trans (List.Perm.swap a b bs)

theorem sortBy_perm (le : α → α → Bool) : ∀ l : List α, (sortBy le l).Perm l
  | [] => List.Perm.refl _
  | a :: as => (insertBy_perm le a (sortBy le as)).trans ((sortBy_perm le as).cons a)

@[simp] theorem mem_sortBy {le : α → α → Bool} {l : List α} {a : α} : a ∈ sortBy le l ↔ a ∈ l :=
  (sortBy_perm le l).mem_iff

/-- A sort by a total order puts lists in order, and elements that the order does not tell apart stay
in the order they had. -/
theorem sortBy_stable {le : α → α → Bool} (htrans : ∀ a b c, le a b → le b c → le a c)
    (htotal : ∀ a b, le a b = false → le b a) {R : α → α → Prop} {l : List α} (hl : l.Pairwise R) :
    (sortBy le l).Pairwise fun a b => le a b ∧ (le b a → R a b) := by
  have hinsert : ∀ (a : α) (l : List α), (l.Pairwise fun a b => le a b ∧ (le b a → R a b)) →
      (∀ b ∈ l, R a b) → (insertBy le a l).Pairwise fun a b => le a b ∧ (le b a → R a b) := by
    intro a l hl ha
    induction l with
    | nil => exact List.pairwise_singleton _ _
    | cons b bs ih =>
      obtain ⟨hb, hbs⟩ := List.pairwise_cons.mp hl
      unfold insertBy
      split
      · next hab =>
        refine List.pairwise_cons.mpr ⟨fun c hc => ⟨?_, fun _ => ha c hc⟩, hl⟩
        rcases List.mem_cons.mp hc with rfl | hc
        · exact hab
        · exact htrans a b c hab (hb c hc).1
      · next hab =>
        refine List.pairwise_cons.mpr ⟨fun c hc => ?_, ih hbs fun c hc => ha c (.tail _ hc)⟩
        rcases List.mem_cons.mp ((insertBy_perm le a bs).mem_iff.mp hc) with rfl | hc
        · exact ⟨htotal _ _ (Bool.eq_false_iff.mpr hab), fun h => absurd h hab⟩
        · exact hb c hc
  induction hl with
  | nil => exact List.Pairwise.nil
  | cons ha _ ih => exact hinsert _ _ ih fun b hb => ha b (mem_sortBy.mp hb)

/-- The elements without repetition: each that was there, once. -/
theorem distinct_spec [BEq α] [LawfulBEq α] (l : List α) :
    (distinct l).Nodup ∧ ∀ a, a ∈ distinct l ↔ a ∈ l := by
  have hfold : ∀ (l seen : List α), seen.Nodup →
      (l.foldl (fun seen x => if seen.contains x then seen else x :: seen) seen).Nodup ∧
      ∀ a, a ∈ l.foldl (fun seen x => if seen.contains x then seen else x :: seen) seen ↔
        a ∈ seen ∨ a ∈ l := by
    intro l
    induction l with
    | nil => exact fun seen hs => ⟨hs, fun a => by simp⟩
    | cons x l ih =>
      intro seen hs
      rw [List.foldl_cons]
      split
      · next hx =>
        refine ⟨(ih seen hs).1, fun a => ((ih seen hs).2 a).trans ?_⟩
        rw [List.contains_iff_mem] at hx
        rw [List.mem_cons]
        constructor
        · rintro (h | h)
          · exact Or.inl h
          · exact Or.inr (Or.inr h)
        · rintro (h | rfl | h)
          · exact Or.inl h
          · exact Or.inl hx
          · exact Or.inr h
      · next hx =>
        rw [List.contains_iff_mem] at hx
        have hcons := List.nodup_cons.mpr ⟨hx, hs⟩
        refine ⟨(ih _ hcons).1, fun a => ((ih _ hcons).2 a).trans ?_⟩
        rw [List.mem_cons, List.mem_cons, or_assoc, or_left_comm]
  obtain ⟨hnd, hmem⟩ := hfold l [] List.nodup_nil
  exact ⟨List.nodup_reverse.mpr hnd, fun a => by rw [distinct, List.mem_reverse, hmem]; simp⟩

theorem ne_gt_iff_isLE {o : Ordering} : (o != .gt) = true ↔ o.isLE = true := by
  cases o <;> decide

/-- So does a sort by a comparison, and equal elements keep their order. -/
theorem sortBy_compare_stable {cmp : α → α → Ordering} [Std.TransCmp cmp] {R : α → α → Prop}
    {l : List α} (hl : l.Pairwise R) : (sortBy (fun a b => cmp a b != .gt) l).Pairwise
      fun a b => (cmp a b).isLE = true ∧ ((cmp b a).isLE = true → R a b) := by
  have htrans : ∀ a b c : α, (cmp a b != .gt) = true → (cmp b c != .gt) = true →
      (cmp a c != .gt) = true := by
    intro a b c
    rw [ne_gt_iff_isLE, ne_gt_iff_isLE, ne_gt_iff_isLE]
    exact Std.TransCmp.isLE_trans
  have htotal : ∀ a b : α, (cmp a b != .gt) = false → (cmp b a != .gt) = true := by
    intro a b hab
    have hgt : cmp a b = .gt := by simpa using hab
    rw [Std.OrientedCmp.lt_of_gt hgt]
    rfl
  exact (sortBy_stable htrans htotal hl).imp fun h =>
    ⟨ne_gt_iff_isLE.mp h.1, fun hba => h.2 (ne_gt_iff_isLE.mpr hba)⟩

theorem sortBy_compare_pairwise {cmp : α → α → Ordering} [Std.TransCmp cmp] (l : List α) :
    (sortBy (fun a b => cmp a b != .gt) l).Pairwise fun a b => (cmp a b).isLE = true :=
  (sortBy_compare_stable (List.pairwise_of_forall fun _ _ => trivial)).imp And.left

@[simp] theorem mem_sortedTexts {l : List String} {a : String} : a ∈ sortedTexts l ↔ a ∈ l := by
  rw [sortedTexts, mem_sortBy, (distinct_spec l).2]

/-- Some of the texts in their order depend only on which of these there are. -/
theorem filter_sortedTexts_congr {p : String → Bool} {l l' : List String}
    (h : ∀ a, p a = true → (a ∈ l ↔ a ∈ l')) :
    (sortedTexts l).filter p = (sortedTexts l').filter p := by
  have hnd : ∀ l : List String, ((sortedTexts l).filter p).Nodup := fun l =>
    ((sortBy_perm _ _).nodup_iff.mpr (distinct_spec l).1).filter p
  have hsorted : ∀ l : List String,
      ((sortedTexts l).filter p).Pairwise fun a b => (compare a b).isLE = true := fun l =>
    (sortBy_compare_pairwise _).sublist List.filter_sublist
  refine List.Perm.eq_of_pairwise (fun a b _ _ hab hba => ?_) (hsorted l) (hsorted l')
    ((List.perm_ext_iff_of_nodup (hnd l) (hnd l')).mpr fun a => ?_)
  · exact Std.LawfulEqCmp.eq_of_compare (Std.OrientedCmp.isLE_antisymm hab hba)
  · rw [List.mem_filter, List.mem_filter, mem_sortedTexts, mem_sortedTexts]
    exact and_congr_left (h a)

/-- Texts in their order depend only on which texts there are. -/
theorem sortedTexts_congr {l l' : List String} (h : ∀ a, a ∈ l ↔ a ∈ l') :
    sortedTexts l = sortedTexts l' := by
  have hall := @filter_sortedTexts_congr (fun _ => true) l l' fun a _ => h a
  rwa [List.filter_true, List.filter_true] at hall

theorem map_eq_of_forall₂ {α β γ : Type} {R : α → β → Prop} {l : List α} {l' : List β} {g : α → γ}
    {k : β → γ} (h : List.Forall₂ R l l') (hR : ∀ a, ∀ b ∈ l', R a b → k b = g a) :
    l'.map k = l.map g := by
  induction h with
  | nil => rfl
  | cons hab _ ih =>
    rw [List.map_cons, List.map_cons, hR _ _ List.mem_cons_self hab,
      ih fun a b hb => hR a b (List.mem_cons_of_mem _ hb)]

theorem exists_left_of_forall₂ {R : α → β → Prop} {l : List α} {l' : List β}
    (h : List.Forall₂ R l l') {b : β} (hb : b ∈ l') : ∃ a ∈ l, R a b := by
  induction h with
  | nil => cases hb
  | cons hab _ ih =>
    rcases List.mem_cons.mp hb with rfl | hb
    · exact ⟨_, List.mem_cons_self, hab⟩
    · obtain ⟨a, ha, hab⟩ := ih hb
      exact ⟨a, List.mem_cons_of_mem _ ha, hab⟩

theorem exists_getElem?_of_forall₂ {R : α → β → Prop} {l : List α} {l' : List β}
    (h : List.Forall₂ R l l') {k : Nat} {a : α} (ha : l[k]? = some a) :
    ∃ b, l'[k]? = some b ∧ R a b := by
  induction h generalizing k with
  | nil => simp at ha
  | cons hab _ ih =>
    cases k with
    | zero =>
      cases ha
      exact ⟨_, rfl, hab⟩
    | succ k => exact ih ha

theorem takeFirst_eq_some {p : α → Bool} {l rest : List α} {a : α}
    (h : takeFirst p l = some (a, rest)) : p a = true ∧ l.Perm (a :: rest) := by
  induction l generalizing rest with
  | nil => simp [takeFirst] at h
  | cons b bs ih =>
    unfold takeFirst at h
    split at h
    · next hp =>
      cases h
      exact ⟨hp, List.Perm.refl _⟩
    · cases hb : takeFirst p bs with
      | none => simp [hb] at h
      | some x =>
        obtain ⟨c, cs⟩ := x
        simp only [hb, Option.map_some, Option.some.injEq, Prod.mk.injEq] at h
        obtain ⟨rfl, rfl⟩ := h
        obtain ⟨hp, hperm⟩ := ih hb
        exact ⟨hp, (hperm.cons b).trans (List.Perm.swap c b cs)⟩

theorem takeFirst_filter_self {p : α → Bool} {l rest : List α} {a : α}
    (h : takeFirst p l = some (a, rest)) : l.filter p = a :: rest.filter p := by
  induction l generalizing rest with
  | nil => cases h
  | cons b bs ih =>
    unfold takeFirst at h
    split at h
    · next hb =>
      cases h
      exact List.filter_cons_of_pos hb
    · next hb =>
      obtain ⟨⟨c, cs⟩, hc, he⟩ := Option.map_eq_some_iff.mp h
      cases he
      rw [List.filter_cons_of_neg hb, List.filter_cons_of_neg hb, ih hc]

theorem takeFirst_filter_other {p q : α → Bool} {l rest : List α} {a : α}
    (h : takeFirst p l = some (a, rest)) (hq : q a = false) : l.filter q = rest.filter q := by
  induction l generalizing rest with
  | nil => cases h
  | cons b bs ih =>
    unfold takeFirst at h
    split at h
    · cases h
      exact List.filter_cons_of_neg (by simp [hq])
    · obtain ⟨⟨c, cs⟩, hc, he⟩ := Option.map_eq_some_iff.mp h
      cases he
      rw [List.filter_cons, List.filter_cons, ih hc]

theorem takeFirst_eq_none {p : α → Bool} {l : List α} (h : takeFirst p l = none) :
    l.filter p = [] := by
  induction l with
  | nil => rfl
  | cons b bs ih =>
    unfold takeFirst at h
    split at h
    · cases h
    · next hb => rw [List.filter_cons_of_neg hb, ih (Option.map_eq_none_iff.mp h)]

/-- The only element of a list. -/
def only? {α : Type} : List α → Option α
  | [a] => some a
  | _ => none

theorem only?_perm {α : Type} {l l' : List α} (h : l.Perm l') : only? l = only? l' := by
  match l with
  | [] => rw [List.nil_perm.mp h]
  | [a] => rw [List.singleton_perm.mp h]
  | a :: b :: l =>
    have hlen := h.length_eq
    match l' with
    | [] => cases hlen
    | [a'] => simp at hlen
    | a' :: b' :: l' => rfl

theorem only?_map {α β : Type} (f : α → β) (l : List α) : only? (l.map f) = (only? l).map f := by
  match l with
  | [] => rfl
  | [a] => rfl
  | a :: b :: l => rfl

end Lists

/-! ## Growing ids -/

/-- Ids that grow and were given out up to `last`. -/
structure Issued (last : Int) (ids : List Int) : Prop where
  grows : ids.Pairwise (· < ·)
  bound : ∀ i ∈ ids, i ≤ last

namespace Issued

variable {last last' : Int} {ids ids' : List Int}

theorem nil (last : Int) : Issued last [] := ⟨List.Pairwise.nil, by simp⟩

theorem nodup (h : Issued last ids) : ids.Nodup := h.grows.imp (fun h => Int.ne_of_lt h)

theorem mono (h : Issued last ids) (hl : last ≤ last') : Issued last' ids :=
  ⟨h.grows, fun i hi => Int.le_trans (h.bound i hi) hl⟩

theorem sublist (h : Issued last ids) (hs : ids'.Sublist ids) : Issued last ids' :=
  ⟨h.grows.sublist hs, fun i hi => h.bound i (hs.subset hi)⟩

theorem append (h : Issued last ids) (h' : Issued last' ids') (hn : ∀ i ∈ ids', last < i)
    (hl : last ≤ last') : Issued last' (ids ++ ids') := by
  refine ⟨List.pairwise_append.mpr ⟨h.grows, h'.grows, fun i hi j hj => ?_⟩, fun i hi => ?_⟩
  · have := h.bound i hi
    have := hn j hj
    omega
  · rcases List.mem_append.mp hi with hi | hi
    · exact Int.le_trans (h.bound i hi) hl
    · exact h'.bound i hi

theorem snoc (h : Issued last ids) : Issued (last + 1) (ids ++ [last + 1]) := by
  refine h.append ⟨List.pairwise_singleton _ _, fun i hi => ?_⟩ (fun i hi => ?_) (by omega)
  · exact Int.le_of_eq (List.mem_singleton.mp hi)
  · rw [List.mem_singleton.mp hi]; omega

end Issued

namespace Store

variable {α β : Type} {f : Int → α → β} {key : β → Int}

theorem issued_numbered (hf : ∀ i a, key (f i a) = i) :
    ∀ (last : Int) (xs : List α), Issued (last + xs.length) ((numbered f last xs).map key) ∧
      ∀ i ∈ (numbered f last xs).map key, last < i
  | last, [] => ⟨Issued.nil _, by simp [numbered]⟩
  | last, x :: xs => by
    obtain ⟨h, hn⟩ := issued_numbered hf (last + 1) xs
    have hlen : last + ((x :: xs).length : Int) = last + 1 + xs.length := by
      rw [List.length_cons]; push_cast; omega
    simp only [numbered, List.map_cons, hf, hlen]
    refine ⟨⟨List.pairwise_cons.mpr ⟨hn, h.grows⟩, ?_⟩, ?_⟩
    · intro i hi
      rcases List.mem_cons.mp hi with rfl | hi
      · omega
      · exact h.bound i hi
    · intro i hi
      rcases List.mem_cons.mp hi with rfl | hi
      · omega
      · have := hn i hi
        omega

theorem exists_of_mem_numbered {b : β} : ∀ {last : Int} {xs : List α}, b ∈ numbered f last xs →
    ∃ id, ∃ a ∈ xs, b = f id a
  | _, [], hb => by cases hb
  | last, x :: xs, hb => by
    rcases List.mem_cons.mp hb with rfl | hb
    · exact ⟨_, x, List.mem_cons_self, rfl⟩
    · obtain ⟨id, a, ha, e⟩ := exists_of_mem_numbered hb
      exact ⟨id, a, List.mem_cons_of_mem _ ha, e⟩

theorem forall₂_numbered {R : α → β → Prop} (hR : ∀ i a, R a (f i a)) :
    ∀ (last : Int) (xs : List α), List.Forall₂ R xs (numbered f last xs)
  | _, [] => List.Forall₂.nil
  | last, _ :: xs => List.Forall₂.cons (hR _ _) (forall₂_numbered hR (last + 1) xs)

theorem map_numbered {α β γ : Type} {row : Int → α → β} {g : β → γ} {k : Int → α → γ} {last : Int}
    {xs : List α} (h : ∀ id, ∀ a ∈ xs, g (row id a) = k id a) :
    (numbered row last xs).map g = numbered k last xs := by
  induction xs generalizing last with
  | nil => rfl
  | cons a xs ih =>
    rw [numbered, numbered, List.map_cons, h _ a List.mem_cons_self,
      ih fun id b hb => h id b (List.mem_cons_of_mem _ hb)]

theorem numbered_eq_map {α β : Type} (g : α → β) (last : Int) (xs : List α) :
    numbered (fun _ a => g a) last xs = xs.map g := by
  induction xs generalizing last with
  | nil => rfl
  | cons a xs ih => rw [numbered, List.map_cons, ih]

end Store

/-- **New rows take the next ids.** -/
theorem Issued.append_numbered {α β : Type} {f : Int → α → β} {key : β → Int}
    (hf : ∀ i a, key (f i a) = i) {last : Int} {ids : List Int} (h : Issued last ids) (xs : List α) :
    Issued (last + xs.length) (ids ++ (Store.numbered f last xs).map key) := by
  obtain ⟨h', hn⟩ := Store.issued_numbered hf last xs
  exact h.append h' hn (by omega)

/-! ## Rows by id -/

section Rows

variable {ρ : Type} {key : ρ → Int}

theorem find?_key {rows : List ρ} (h : (rows.map key).Nodup) {a : ρ} (ha : a ∈ rows) :
    rows.find? (key · == key a) = some a := by
  cases hf : rows.find? (key · == key a) with
  | none => exact absurd (List.find?_eq_none.mp hf a ha) (by simp)
  | some b =>
    have hb := List.mem_of_find?_eq_some hf
    have hk := List.find?_some hf
    rw [List.inj_on_of_nodup_map h hb ha (by simpa using hk)]

/-- Rows in the order of their ids are determined by which rows there are. -/
theorem eq_of_mem_iff {rows rows' : List ρ}
    (h : (rows.map key).Pairwise (· < ·)) (h' : (rows'.map key).Pairwise (· < ·))
    (hmem : ∀ r, r ∈ rows ↔ r ∈ rows') : rows = rows' := by
  have hnd : ∀ {l : List ρ}, (l.map key).Pairwise (· < ·) → l.Nodup := fun hl =>
    List.Nodup.of_map key (hl.imp fun h => Int.ne_of_lt h)
  rw [List.pairwise_map] at h h'
  refine List.Perm.eq_of_pairwise (fun a b _ _ hab hba => absurd hab (Int.lt_asymm hba)) h h'
    ((List.perm_ext_iff_of_nodup ?_ ?_).mpr hmem)
  · exact hnd (List.pairwise_map.mpr h)
  · exact hnd (List.pairwise_map.mpr h')

end Rows

end CodeAtlas
