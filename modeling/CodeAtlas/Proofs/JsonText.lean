import Mathlib.Data.List.Basic
import Mathlib.Tactic.Common
import CodeAtlas.Json.Parse
import CodeAtlas.Json.Print

/-!
# Reading what was written

* `quoted?_escape`: a text in quotes is read back with its escapes undone.
* `number?_digits`: so are whole numbers.
* `Plain`: values without fractions, with words for numbers and members in order, that are not nested
  too deep.
* `Faithful`: what a value is written as is read back as the value.
* **`Plain.faithful`**: plain values are faithful.
-/

namespace CodeAtlas.Json

/-! ## Texts -/

theorem hexValue?_hexDigit : ∀ n < 16, hexValue? (hexDigit n) = some n := by decide

/-- A control character is read back from its code. -/
theorem unit?_control {c : Char} (hc : c.toNat < 32) (rest : List Char) :
    unit? ('0' :: '0' :: hexDigit (c.toNat / 16) :: hexDigit (c.toNat % 16) :: rest) =
      some (c, rest) := by
  have hzero : hexValue? '0' = some 0 := by decide
  have hcode : hex4? ('0' :: '0' :: hexDigit (c.toNat / 16) :: hexDigit (c.toNat % 16) :: rest) =
      some (c.toNat, rest) := by
    simp only [hex4?, hzero, hexValue?_hexDigit _ (show c.toNat / 16 < 16 by omega),
      hexValue?_hexDigit _ (show c.toNat % 16 < 16 by omega), bind, pure, Option.bind_some]
    congr 2
    omega
  simp only [unit?, hcode, bind, Option.bind_some]
  rw [if_neg (by omega), if_neg (by omega), Char.ofNat_toNat]

/-- A character that stands for itself. -/
theorem quoted?_cons (fuel : Nat) (acc : List Char) {c : Char} (hquote : c ≠ '"')
    (hslash : c ≠ '\\') (hcontrol : 32 ≤ c.toNat) (rest : List Char) :
    quoted? (fuel + 1) acc (c :: rest) = quoted? fuel (c :: acc) rest := by
  have hplain : ¬(decide (c.toNat < 32) || c == '\\') = true := by simp [hslash]; omega
  rw [quoted?]
  · exact if_neg hplain
  · exact hquote
  · exact fun _ _ h => absurd h hslash

/-- One character is read back from how it is written in quotes. -/
theorem quoted?_escapeChar (fuel : Nat) (acc : List Char) (c : Char) (rest : List Char) :
    quoted? (fuel + 1) acc (escapeChar c ++ rest) = quoted? fuel (c :: acc) rest := by
  unfold escapeChar
  split
  · simp [quoted?]
  · simp [quoted?]
  · simp [quoted?]
  · simp [quoted?]
  · simp [quoted?]
  · split_ifs with h8 h12 h32
    · obtain rfl : c = Char.ofNat 8 := by rw [← h8, Char.ofNat_toNat]
      simp [quoted?]
    · obtain rfl : c = Char.ofNat 12 := by rw [← h12, Char.ofNat_toNat]
      simp [quoted?]
    · simp [quoted?, unit?_control h32]
    · next hquote hslash _ _ _ => exact quoted?_cons fuel acc hquote hslash (by omega) rest

theorem escapeChar_ne_nil (c : Char) : escapeChar c ≠ [] := by
  unfold escapeChar
  split <;> try simp
  split_ifs <;> simp

/-- **A text in quotes is read back.** -/
theorem quoted?_escape (s : List Char) (acc rest : List Char) (fuel : Nat)
    (hfuel : (s.flatMap escapeChar).length < fuel) :
    quoted? fuel acc (s.flatMap escapeChar ++ '"' :: rest) =
      some (.ofList (acc.reverse ++ s), rest) := by
  induction s generalizing acc fuel with
  | nil =>
    obtain ⟨fuel, rfl⟩ : ∃ n, fuel = n + 1 := ⟨fuel - 1, by omega⟩
    simp [quoted?]
  | cons c s ih =>
    have hc := List.length_pos_iff.mpr (escapeChar_ne_nil c)
    rw [List.flatMap_cons, List.length_append] at hfuel
    obtain ⟨fuel, rfl⟩ : ∃ n, fuel = n + 1 := ⟨fuel - 1, by omega⟩
    rw [List.flatMap_cons, List.append_assoc, quoted?_escapeChar, ih _ _ (by omega)]
    simp

/-! ## Numbers -/

/-- What may stand behind a value: nothing, or a mark of the array or object around it. -/
def Ends (rest : List Char) : Prop :=
  rest = [] ∨ ∃ r, rest = ',' :: r ∨ rest = ']' :: r ∨ rest = '\x7d' :: r

theorem head?_toDigits {n : Nat} (hn : 0 < n) : (Nat.toDigits 10 n).head? ≠ some '0' := by
  induction n using Nat.strongRecOn with
  | ind n ih =>
    by_cases hlt : n < 10
    · rw [Nat.toDigits_of_lt_base hlt]
      simp only [List.head?_cons, ne_eq, Option.some.injEq, Nat.digitChar_eq_zero]
      omega
    · rw [Nat.toDigits_of_base_le (by omega) (by omega)]
      have hhead := ih (n / 10) (by omega) (by omega)
      rwa [List.head?_append_of_ne_nil _ Nat.toDigits_ne_nil]

/-- The digits of a number come before what ends it. -/
theorem digits_toDigits {rest : List Char} (h : Ends rest) (n : Nat) :
    digits (Nat.toDigits 10 n ++ rest) = (Nat.toDigits 10 n, rest) := by
  have hdigit : ∀ c ∈ Nat.toDigits 10 n, c.isDigit = true :=
    fun c hc => Nat.isDigit_of_mem_toDigits (by omega) (by omega) hc
  have hrest : rest.takeWhile Char.isDigit = [] ∧ rest.dropWhile Char.isDigit = rest := by
    rcases h with rfl | ⟨r, rfl | rfl | rfl⟩ <;> exact ⟨rfl, rfl⟩
  rw [digits, List.takeWhile_append_of_pos hdigit, List.dropWhile_append_of_pos hdigit, hrest.1,
    hrest.2, List.append_nil]

theorem digitsValue_toDigits (n : Nat) : digitsValue (Nat.toDigits 10 n) = n :=
  Nat.ofDigitChars_ten_toDigits

/-- **A whole number is read back** up to what ends it. -/
theorem number?_toDigits {rest : List Char} (h : Ends rest) {neg : Bool} {n : Nat} {v : Json}
    (hv : whole? neg n = some v) :
    number? ((if neg then ['-'] else []) ++ Nat.toDigits 10 n ++ rest) = some (v, rest) := by
  have hlead : ((Nat.toDigits 10 n).isEmpty ||
      (decide ((Nat.toDigits 10 n).length > 1) && (Nat.toDigits 10 n).head? == some '0')) = false := by
    by_cases hn : 0 < n
    · simp [Nat.toDigits_ne_nil, head?_toDigits hn]
    · obtain rfl : n = 0 := by omega
      decide
  unfold number?
  split
  next neg' s hs =>
  obtain ⟨rfl, rfl⟩ : neg' = neg ∧ s = Nat.toDigits 10 n ++ rest := by
    cases neg with
    | true =>
      cases hs
      exact ⟨rfl, rfl⟩
    | false =>
      -- a digit is no sign
      obtain ⟨d, ds, hd⟩ := List.exists_cons_of_ne_nil (@Nat.toDigits_ne_nil n 10)
      have hdigit := @Nat.isDigit_of_mem_toDigits 10 n d (by omega) (by omega) (by simp [hd])
      split at hs
      · next r hr =>
        obtain ⟨rfl, -⟩ : d = '-' ∧ ds ++ rest = r := by simpa [hd] using hr
        cases hdigit
      · cases hs
        exact ⟨rfl, rfl⟩
  simp only [digits_toDigits h, hlead]
  rcases h with rfl | ⟨r, rfl | rfl | rfl⟩ <;> simp [digitsValue_toDigits, hv]

/-! ## Values -/

/-- **Values that are read back as they are written**: without fractions, with words for numbers and
members in the order of their names, and with at most `depth` levels. -/
inductive Plain : Nat → Json → Prop where
  | null {depth : Nat} : Plain depth .null
  | bool {depth : Nat} (b : Bool) : Plain depth (.bool b)
  | int {depth : Nat} {n : Int} (h : -0x8000000000000000 ≤ n ∧ n < 0x10000000000000000) :
    Plain depth (.int n)
  | str {depth : Nat} (s : String) : Plain depth (.str s)
  | arr {depth : Nat} {items : List Json} (h : ∀ j ∈ items, Plain depth j) :
    Plain (depth + 1) (.arr items)
  | obj {depth : Nat} {members : List (String × Json)} (h : ∀ m ∈ members, Plain depth m.2)
    (hsorted : members.Pairwise (·.1 < ·.1)) : Plain (depth + 1) (.obj members)

/-- What a whole number is written as. -/
theorem number?_int {rest : List Char} (h : Ends rest) {n : Int}
    (hn : -0x8000000000000000 ≤ n ∧ n < 0x10000000000000000) :
    number? ((compact (.int n)).toList ++ rest) = some (.int n, rest) := by
  rw [compact, Int.toString_eq_repr, Int.repr_eq_if]
  split_ifs with hpos
  · have hwhole : whole? false n.toNat = some (.int n) := by
      rw [whole?, if_neg (by decide), if_pos (by omega), Int.toNat_of_nonneg hpos]
    rw [Nat.toList_repr]
    exact number?_toDigits h hwhole
  · have hwhole : whole? true (-n).toNat = some (.int n) := by
      rw [whole?, if_pos rfl, if_neg (by omega), Int.toNat_of_nonneg (by omega), Int.neg_neg]
    rw [String.toList_append, Nat.toList_repr]
    exact number?_toDigits h hwhole

/-- Members in order are an object as they stand. -/
theorem object_of_sorted {members : List (String × Json)} (h : members.Pairwise (·.1 < ·.1)) :
    object members = .obj members := by
  have hinsert : ∀ (k : String) (v : Json) (acc : List (String × Json)), (∀ m ∈ acc, m.1 < k) →
      insertMember k v acc = acc ++ [(k, v)] := by
    intro k v acc hacc
    induction acc with
    | nil => rfl
    | cons m acc ih =>
      have hm : m.1 < k := hacc m List.mem_cons_self
      rw [insertMember, if_neg (String.lt_asymm hm), if_neg (fun e => String.lt_irrefl _ (e ▸ hm)),
        ih fun x hx => hacc x (List.mem_cons_of_mem _ hx), List.cons_append]
  have hfold : ∀ (members acc : List (String × Json)), (acc ++ members).Pairwise (·.1 < ·.1) →
      members.foldl (fun acc m => insertMember m.1 m.2 acc) acc = acc ++ members := by
    intro members
    induction members with
    | nil => simp
    | cons m members ih =>
      intro acc hacc
      have hlt : ∀ x ∈ acc, x.1 < m.1 := fun x hx =>
        (List.pairwise_append.mp hacc).2.2 x hx m List.mem_cons_self
      rw [List.foldl_cons, hinsert _ _ _ hlt, ih _ (by simpa using hacc)]
      simp
  rw [object, hfold members [] h, List.nil_append]

/-- The texts of the items of an array, with commas between them. -/
def itemsText (items : List Json) : List Char := (",".intercalate (compactItems items)).toList

/-- The texts of the members of an object, with commas between them. -/
def membersText (members : List (String × Json)) : List Char :=
  (",".intercalate (compactMembers members)).toList

theorem itemsText_cons_cons (j j' : Json) (items : List Json) :
    itemsText (j :: j' :: items) = j.compact.toList ++ ',' :: itemsText (j' :: items) := by
  simp [itemsText, compactItems]

theorem itemsText_singleton (j : Json) : itemsText [j] = j.compact.toList := by
  simp [itemsText, compactItems]

theorem membersText_cons_cons (m m' : String × Json) (members : List (String × Json)) :
    membersText (m :: m' :: members) =
      (quote m.1).toList ++ ':' :: m.2.compact.toList ++ ',' :: membersText (m' :: members) := by
  simp [membersText, compactMembers]

theorem membersText_singleton (m : String × Json) :
    membersText [m] = (quote m.1).toList ++ ':' :: m.2.compact.toList := by
  simp [membersText, compactMembers]

theorem toList_quote (s : String) :
    (quote s).toList = '"' :: (s.toList.flatMap escapeChar ++ ['"']) := by
  simp [quote]

theorem compact_arr (items : List Json) :
    (compact (.arr items)).toList = '[' :: (itemsText items ++ [']']) := by
  simp [compact, itemsText]

theorem compact_obj (members : List (String × Json)) :
    (compact (.obj members)).toList = '\x7b' :: (membersText members ++ ['\x7d']) := by
  simp [compact, membersText, braces]

theorem skipSpace_cons {c : Char} (h : isSpace c = false) (rest : List Char) :
    skipSpace (c :: rest) = c :: rest := by
  rw [skipSpace, List.dropWhile_cons_of_neg (by simp [h])]

/-- The reader takes whatever is written with enough steps left. -/
structure Reads (fuel : Nat) : Prop where
  value : ∀ {depth : Nat} {j : Json} {rest : List Char}, Plain depth j → Ends rest →
    2 * j.compact.toList.length < fuel →
    value? fuel depth (j.compact.toList ++ rest) = some (j, rest)
  items : ∀ {depth : Nat} {items acc : List Json} {rest : List Char}, items ≠ [] →
    (∀ j ∈ items, Plain depth j) → 2 * (itemsText items).length + 1 < fuel →
    items? fuel depth acc (itemsText items ++ ']' :: rest) = some (.arr (acc.reverse ++ items), rest)
  members : ∀ {depth : Nat} {members acc : List (String × Json)} {rest : List Char}, members ≠ [] →
    (∀ m ∈ members, Plain depth m.2) → (acc.reverse ++ members).Pairwise (·.1 < ·.1) →
    2 * (membersText members).length + 1 < fuel →
    members? fuel depth acc (membersText members ++ '\x7d' :: rest) =
      some (.obj (acc.reverse ++ members), rest)

theorem word?_append (w : String) (v : Json) (rest : List Char) :
    word? w v (w.toList ++ rest) = some (v, rest) := by
  rw [word?, if_pos (List.isPrefixOf_iff_prefix.mpr (List.prefix_append _ _)), ← String.length_toList,
    List.drop_left]

/-- A number starts with its sign or a digit. -/
theorem exists_start_int (n : Int) : ∃ c r, (compact (.int n)).toList = c :: r ∧
    (c = '-' ∨ c.isDigit = true) ∧ isSpace c = false := by
  rw [compact, Int.toString_eq_repr, Int.repr_eq_if]
  split_ifs
  · rw [Nat.toList_repr]
    obtain ⟨d, ds, hd⟩ := List.exists_cons_of_ne_nil (@Nat.toDigits_ne_nil n.toNat 10)
    have hdigit := @Nat.isDigit_of_mem_toDigits 10 n.toNat d (by omega) (by omega) (by simp [hd])
    refine ⟨d, ds, hd, Or.inr hdigit, ?_⟩
    simp only [isSpace, Bool.or_eq_false_iff, beq_eq_false_iff_ne]
    refine ⟨⟨⟨?_, ?_⟩, ?_⟩, ?_⟩ <;> (rintro rfl; cases hdigit)
  · rw [String.toList_append]
    exact ⟨'-', _, rfl, Or.inl rfl, by decide⟩

/-- A value starts with no blank and with no end of an array. -/
theorem Plain.exists_start {depth : Nat} {j : Json} (h : Plain depth j) :
    ∃ c r, j.compact.toList = c :: r ∧ isSpace c = false ∧ c ≠ ']' := by
  cases h with
  | null => exact ⟨'n', _, rfl, by decide, by decide⟩
  | bool b => cases b <;> exact ⟨_, _, rfl, by decide, by decide⟩
  | int h =>
    obtain ⟨c, r, hcr, hc, hspace⟩ := exists_start_int _
    refine ⟨c, r, hcr, hspace, ?_⟩
    rintro rfl
    simp at hc
  | str s => exact ⟨'"', _, toList_quote s, by decide, by decide⟩
  | arr h => exact ⟨'[', _, compact_arr _, by decide, by decide⟩
  | obj h hsorted => exact ⟨'\x7b', _, compact_obj _, by decide, by decide⟩

theorem exists_start_items {depth : Nat} {j : Json} (h : Plain depth j) (items : List Json) :
    ∃ c r, itemsText (j :: items) = c :: r ∧ isSpace c = false ∧ c ≠ ']' := by
  obtain ⟨c, r, hcr, hc⟩ := h.exists_start
  cases items with
  | nil => exact ⟨c, r, by rw [itemsText_singleton, hcr], hc⟩
  | cons j' items => exact ⟨c, _, by rw [itemsText_cons_cons, hcr]; rfl, hc⟩

theorem exists_start_members (m : String × Json) (members : List (String × Json)) :
    ∃ r, membersText (m :: members) = '"' :: r := by
  cases members with
  | nil => exact ⟨_, by rw [membersText_singleton, toList_quote]; rfl⟩
  | cons m' members => exact ⟨_, by rw [membersText_cons_cons, toList_quote]; rfl⟩

/-- A value is read with one step more, as what it holds is read. -/
theorem Reads.value_succ {fuel : Nat} (ih : Reads fuel) {depth : Nat} {j : Json} {rest : List Char}
    (hj : Plain depth j) (hrest : Ends rest) (hfuel : 2 * j.compact.toList.length < fuel + 1) :
    value? (fuel + 1) depth (j.compact.toList ++ rest) = some (j, rest) := by
  cases hj with
  | null => exact word?_append "null" .null rest
  | bool b =>
    cases b with
    | true => exact word?_append "true" (.bool true) rest
    | false => exact word?_append "false" (.bool false) rest
  | @int _ n hn =>
    have hnumber := number?_int hrest hn
    obtain ⟨c, r, hcr, hc, hspace⟩ := exists_start_int n
    rw [hcr, List.cons_append] at hnumber ⊢
    rw [value?, skipSpace_cons hspace]
    split <;> simp_all
  | str s =>
    rw [compact, toList_quote, List.cons_append, List.append_assoc, value?,
      skipSpace_cons (by decide)]
    simp only
    rw [List.singleton_append, quoted?_escape _ _ _ _ (by rw [List.length_append]; omega)]
    simp
  | @arr depth items h =>
    rw [compact_arr] at hfuel ⊢
    rw [List.cons_append, List.append_assoc, value?, skipSpace_cons (by decide)]
    simp only [List.singleton_append]
    cases items with
    | nil => rfl
    | cons j items =>
      obtain ⟨c, r, hcr, hspace, hend⟩ := exists_start_items (h j List.mem_cons_self) items
      have hitems : items? fuel depth [] (itemsText (j :: items) ++ ']' :: rest) =
          some (.arr (j :: items), rest) :=
        ih.items (List.cons_ne_nil j items) h (by simp at hfuel; omega)
      rw [hcr, List.cons_append] at hitems ⊢
      rw [skipSpace_cons hspace]
      split
      · next hr => cases hr; exact absurd rfl hend
      · exact hitems
  | @obj depth members h hsorted =>
    rw [compact_obj] at hfuel ⊢
    rw [List.cons_append, List.append_assoc, value?, skipSpace_cons (by decide)]
    simp only [List.singleton_append]
    cases members with
    | nil => rfl
    | cons m members =>
      obtain ⟨r, hr⟩ := exists_start_members m members
      have hmembers : members? fuel depth [] (membersText (m :: members) ++ '\x7d' :: rest) =
          some (.obj (m :: members), rest) :=
        ih.members (List.cons_ne_nil m members) h hsorted (by simp at hfuel; omega)
      rw [hr, List.cons_append] at hmembers ⊢
      rw [skipSpace_cons (by decide)]
      exact hmembers

theorem ends_comma (r : List Char) : Ends (',' :: r) := Or.inr ⟨r, Or.inl rfl⟩

theorem ends_bracket (r : List Char) : Ends (']' :: r) := Or.inr ⟨r, Or.inr (Or.inl rfl)⟩

theorem ends_brace (r : List Char) : Ends ('\x7d' :: r) := Or.inr ⟨r, Or.inr (Or.inr rfl)⟩

theorem Reads.items_succ {fuel : Nat} (ih : Reads fuel) {depth : Nat} {items acc : List Json}
    {rest : List Char} (hne : items ≠ []) (hitems : ∀ j ∈ items, Plain depth j)
    (hfuel : 2 * (itemsText items).length + 1 < fuel + 1) :
    items? (fuel + 1) depth acc (itemsText items ++ ']' :: rest) =
      some (.arr (acc.reverse ++ items), rest) := by
  match items, hne with
  | [j], _ =>
    rw [itemsText_singleton] at hfuel ⊢
    rw [items?, ih.value (hitems j List.mem_cons_self) (ends_bracket rest) (by omega)]
    simp only
    rw [skipSpace_cons (by decide)]
    simp
  | j :: j' :: items, _ =>
    rw [itemsText_cons_cons, List.length_append, List.length_cons] at hfuel
    rw [itemsText_cons_cons, List.append_assoc, List.cons_append, items?,
      ih.value (hitems j List.mem_cons_self) (ends_comma _) (by omega)]
    simp only
    rw [skipSpace_cons (by decide)]
    simp only
    rw [ih.items (List.cons_ne_nil j' items) (fun x hx => hitems x (List.mem_cons_of_mem _ hx))
      (by omega)]
    simp

/-- One member is read, and then a comma or the end of the object decides. -/
theorem Reads.member {fuel : Nat} (ih : Reads fuel) {depth : Nat} {m : String × Json}
    {acc : List (String × Json)} (rest : List Char) (hm : Plain depth m.2)
    (hfuel : 2 * m.2.compact.toList.length < fuel) :
    members? (fuel + 1) depth acc ((quote m.1).toList ++ ':' :: m.2.compact.toList ++ ',' :: rest) =
      members? fuel depth (m :: acc) rest ∧
    members? (fuel + 1) depth acc
        ((quote m.1).toList ++ ':' :: m.2.compact.toList ++ '\x7d' :: rest) =
      some (object (m :: acc).reverse, rest) := by
  have hname : ∀ after, quoted? ((m.1.toList.flatMap escapeChar ++ '"' :: after).length + 1) []
      (m.1.toList.flatMap escapeChar ++ '"' :: after) = some (m.1, after) := by
    intro after
    rw [quoted?_escape _ _ _ _ (by rw [List.length_append]; omega), List.reverse_nil,
      List.nil_append, String.ofList_toList]
  -- the marks around a member are no blanks
  have hquote := @skipSpace_cons '"' (by decide)
  have hcolon := @skipSpace_cons ':' (by decide)
  have hcomma := @skipSpace_cons ',' (by decide)
  have hbrace := @skipSpace_cons '\x7d' (by decide)
  constructor
  · rw [toList_quote, members?]
    simp only [List.cons_append, List.append_assoc, List.nil_append, hquote, hname, hcolon, hcomma,
      ih.value hm (ends_comma rest) hfuel]
  · rw [toList_quote, members?]
    simp only [List.cons_append, List.append_assoc, List.nil_append, hquote, hname, hcolon, hbrace,
      ih.value hm (ends_brace rest) hfuel]

theorem Reads.members_succ {fuel : Nat} (ih : Reads fuel) {depth : Nat}
    {members acc : List (String × Json)} {rest : List Char} (hne : members ≠ [])
    (hmembers : ∀ m ∈ members, Plain depth m.2)
    (hsorted : (acc.reverse ++ members).Pairwise (·.1 < ·.1))
    (hfuel : 2 * (membersText members).length + 1 < fuel + 1) :
    members? (fuel + 1) depth acc (membersText members ++ '\x7d' :: rest) =
      some (.obj (acc.reverse ++ members), rest) := by
  obtain ⟨m, members, rfl⟩ := List.exists_cons_of_ne_nil hne
  have hm := hmembers m List.mem_cons_self
  cases members with
  | nil =>
    rw [membersText_singleton, List.length_append, List.length_cons] at hfuel
    rw [membersText_singleton, (ih.member rest hm (by omega)).2, List.reverse_cons,
      object_of_sorted hsorted]
  | cons m' members =>
    rw [membersText_cons_cons, List.length_append, List.length_append, List.length_cons,
      List.length_cons] at hfuel
    rw [membersText_cons_cons, List.append_assoc, List.cons_append, (ih.member _ hm (by omega)).1,
      ih.members (List.cons_ne_nil m' members)
        (fun x hx => hmembers x (List.mem_cons_of_mem _ hx)) (by simpa using hsorted) (by omega)]
    simp

theorem reads (fuel : Nat) : Reads fuel := by
  induction fuel with
  | zero => exact ⟨fun _ _ h => by omega, fun _ _ h => by omega, fun _ _ _ h => by omega⟩
  | succ fuel ih => exact ⟨ih.value_succ, ih.items_succ, ih.members_succ⟩

/-- What a value is written as is read back as the value. -/
def Faithful (j : Json) : Prop := parse? j.compact = some j

/-- **Plain values are read back as they were.** -/
theorem Plain.faithful {j : Json} (h : Plain 127 j) : j.Faithful := by
  have hvalue := (reads (2 * j.compact.toList.length + 2)).value h (Or.inl rfl) (by omega)
  rw [List.append_nil] at hvalue
  rw [Faithful, parse?]
  simp only [hvalue]
  rfl

end CodeAtlas.Json
