import Mathlib.Data.List.Nodup
import Mathlib.Tactic.Common
import CodeAtlas.Indexing.Pipeline
import CodeAtlas.Proofs.Segments

/-!
# Paths of a tidy tree

* `Path.Plain`: a name that can stand in a directory.
* `Path.components_join`: the parts of a path below a root are those of the root and its names.
* `Path.relative_join`: seen from the root, such a path is its names with slashes between them.
* `Entry.Tidy`, `Disk.Tidy`: the names of every directory are plain and distinct.
* **`walkEntries_nodup`**: a walk of a tidy tree comes upon a file once.
* **`Job.relative_injOn`**: candidates have distinct paths as seen from the root.
* **`Job.candidates_nodup`**: a candidate comes up once.
-/

namespace CodeAtlas

namespace Path

variable {ns : List String}

/-- A name that can stand in a directory. -/
structure Plain (name : String) : Prop where
  nonempty : name ≠ ""
  noSlash : '/' ∉ name.toList
  noDot : name ≠ "."
  noDots : name ≠ ".."

theorem join_cons {n : String} (h : ns ≠ []) :
    Text.join "/" (n :: ns) = n ++ "/" ++ Text.join "/" ns :=
  String.intercalate_cons_of_ne_nil h

/-- The pieces of names with slashes between them are the names. -/
theorem segments_join_of_noSlash (h : ∀ n ∈ ns, '/' ∉ n.toList) (hne : ns ≠ []) :
    Text.segments (Text.join "/" ns).toList = ns.map String.toList := by
  rw [Text.join, String.toList_intercalate]
  exact Text.segments_intercalate (by simpa using hne) (List.forall_mem_map.mpr h)

theorem segments_join (h : ∀ n ∈ ns, Plain n) (hne : ns ≠ []) :
    Text.segments (Text.join "/" ns).toList = ns.map String.toList :=
  segments_join_of_noSlash (fun n hn => (h n hn).noSlash) hne

theorem join_injective {ms : List String} (hn : ∀ n ∈ ns, Plain n) (hm : ∀ m ∈ ms, Plain m)
    (hne : ns ≠ []) (hme : ms ≠ []) (h : Text.join "/" ns = Text.join "/" ms) : ns = ms := by
  have hseg := segments_join hn hne
  rw [h, segments_join hm hme] at hseg
  exact ((List.map_inj_right fun _ _ => String.toList_inj.mp).mp hseg).symm

/-! ## Paths below a root -/

/-- What the parts of a path start with: a slash or a dot. -/
def lead (cs : List Char) : List String :=
  if cs.head? = some '/' then ["/"]
  else if (Text.segments cs).head? = some ['.'] then ["."] else []

/-- Whether a piece counts as a part. -/
def counts (piece : List Char) : Bool := !piece.isEmpty && piece != ['.']

theorem components_eq (path : String) : components path =
    lead path.toList ++ ((Text.segments path.toList).filter counts).map String.ofList := by
  unfold components lead
  generalize path.toList = cs
  cases cs with
  | nil => rfl
  | cons c cs =>
    by_cases hc : c = '/'
    · subst hc
      rfl
    · have hhead : (c :: cs).head? ≠ some '/' := by simpa using hc
      rw [if_neg hhead]
      dsimp only
      split
      · next h =>
        exact absurd (List.cons.inj h).1 hc
      · simp only [beq_iff_eq]
        rfl

theorem filter_counts (h : ∀ n ∈ ns, Plain n) :
    ((ns.map String.toList).filter counts).map String.ofList = ns := by
  rw [List.filter_eq_self.mpr]
  · simp [Function.comp_def]
  · intro piece hpiece
    obtain ⟨n, hn, rfl⟩ := List.mem_map.mp hpiece
    have hplain := h n hn
    have hdot : n.toList ≠ ['.'] := fun he => hplain.noDot (String.toList_inj.mp he)
    simp [counts, hplain.nonempty, hdot]

theorem lead_append {a b : List Char} (ha : a ≠ []) : lead (a ++ '/' :: b) = lead a := by
  have hhead : (a ++ '/' :: b).head? = a.head? := by
    cases a with
    | nil => exact absurd rfl ha
    | cons c a => rfl
  have hseg : (Text.segments (a ++ '/' :: b)).head? = (Text.segments a).head? := by
    rw [Text.segments_append]
    exact List.head?_append_of_ne_nil _ (Text.segments_ne_nil a)
  rw [lead, lead, hhead, hseg]

/-- The names of a path are not empty, so that it does not start with a slash. -/
theorem head_segments_join (h : ∀ n ∈ ns, Plain n) (hne : ns ≠ []) :
    ∃ n, Plain n ∧ (Text.segments (Text.join "/" ns).toList).head? = some n.toList := by
  rw [segments_join h hne]
  cases ns with
  | nil => exact absurd rfl hne
  | cons n ns => exact ⟨n, h n List.mem_cons_self, rfl⟩

theorem isAbsolute_join (h : ∀ n ∈ ns, Plain n) (hne : ns ≠ []) :
    isAbsolute (Text.join "/" ns) = false := by
  obtain ⟨n, hn, hhead⟩ := head_segments_join h hne
  unfold isAbsolute
  cases hcs : (Text.join "/" ns).toList with
  | nil => rfl
  | cons c cs =>
    rw [hcs] at hhead
    have hc : c ≠ '/' := by
      rintro rfl
      have hnil : [] = n.toList := by simpa [Text.segments, Text.splitBy] using hhead
      exact hn.nonempty (String.toList_eq_nil_iff.mp hnil.symm)
    simpa using hc

theorem join_ne_empty (h : ∀ n ∈ ns, Plain n) (hne : ns ≠ []) : Text.join "/" ns ≠ "" := by
  obtain ⟨n, hn, hhead⟩ := head_segments_join h hne
  intro he
  rw [he] at hhead
  have hnil : [] = n.toList := by simpa [Text.segments, Text.splitBy] using hhead
  exact hn.nonempty (String.toList_eq_nil_iff.mp hnil.symm)

theorem lead_join (h : ∀ n ∈ ns, Plain n) (hne : ns ≠ []) :
    lead (Text.join "/" ns).toList = [] := by
  obtain ⟨n, hn, hhead⟩ := head_segments_join h hne
  have habs := isAbsolute_join h hne
  have hslash : (Text.join "/" ns).toList.head? ≠ some '/' := by simpa [isAbsolute] using habs
  rw [lead, if_neg hslash, hhead, if_neg]
  intro he
  exact hn.noDot (String.toList_inj.mp (Option.some.inj he))

/-- **The parts of a path below a root are those of the root and its names.** -/
theorem components_join (root : String) (h : ∀ n ∈ ns, Plain n) (hne : ns ≠ []) :
    components (join root (Text.join "/" ns)) = components root ++ ns := by
  have hparts :
      ((Text.segments (Text.join "/" ns).toList).filter counts).map String.ofList = ns := by
    rw [segments_join h hne, filter_counts h]
  have habs := isAbsolute_join h hne
  have hempty : (Text.join "/" ns).isEmpty = false := by simpa using join_ne_empty h hne
  -- a root that is not empty is followed by one slash, its own or a new one
  have hroot : ∀ a : List Char, a ≠ [] →
      lead (a ++ '/' :: (Text.join "/" ns).toList) ++
        ((Text.segments (a ++ '/' :: (Text.join "/" ns).toList)).filter counts).map String.ofList =
      lead a ++ ((Text.segments a).filter counts).map String.ofList ++ ns := by
    intro a ha
    rw [lead_append ha, Text.segments_append, List.filter_append, List.map_append,
      ← List.append_assoc]
    exact congrArg _ hparts
  unfold join
  rw [if_neg (by simp [habs]), if_neg (by simp [hempty])]
  split
  · next hend =>
    rcases Bool.or_eq_true _ _ ▸ hend with hslash | hnil
    · obtain ⟨a, ha⟩ := List.getLast?_eq_some_iff.mp (by simpa using hslash)
      rw [components_eq, components_eq, String.toList_append, ha, List.append_assoc]
      by_cases hnil : a = []
      · subst hnil
        exact congrArg ("/" :: ·) hparts
      · have hlast : ((Text.segments (a ++ ['/'])).filter counts).map String.ofList =
            ((Text.segments a).filter counts).map String.ofList := by
          rw [Text.segments_append, List.filter_append]
          simp [Text.splitBy, counts, Text.segments]
        rw [hlast, lead_append hnil]
        exact hroot a hnil
    · have he : root = "" := by simpa using hnil
      subst he
      rw [String.empty_append, components_eq, lead_join h hne, hparts]
      rfl
  · next hend =>
    have hne' : root.toList ≠ [] := by
      intro he
      rw [String.toList_eq_nil_iff.mp he] at hend
      exact hend rfl
    rw [components_eq, components_eq, String.toList_append, String.toList_append, List.append_assoc]
    exact hroot _ hne'

theorem dropPrefix?_append (ps s : List String) : dropPrefix? ps (ps ++ s) = some s := by
  induction ps with
  | nil => rfl
  | cons p ps ih => rw [List.cons_append, dropPrefix?, if_pos rfl, ih]

/-- **Seen from its root, a path is its names with slashes between them.** -/
theorem relative_join (root : String) (h : ∀ n ∈ ns, Plain n) (hne : ns ≠ []) :
    relative root (join root (Text.join "/" ns)) = Text.join "/" ns := by
  unfold relative
  simp only [components_join root h hne, dropPrefix?_append, Option.getD_some]

/-- A path ends with the last of the names that its parts end with. -/
theorem fileName?_of_suffix {path : String} (hs : ns <:+ components path) (h : ∀ n ∈ ns, Plain n)
    (hne : ns ≠ []) : fileName? path = ns.getLast? := by
  obtain ⟨l, hl⟩ := hs
  unfold fileName?
  rw [← hl, List.getLast?_append_of_ne_nil _ hne]
  cases hlast : ns.getLast? with
  | none => exact absurd (List.getLast?_eq_none_iff.mp hlast) hne
  | some name =>
    have hn := h name (List.mem_of_getLast? hlast)
    have hslash : name ≠ "/" := by
      rintro rfl
      exact hn.noSlash (by decide)
    simp [hslash, hn.noDot, hn.noDots]

theorem fileName?_join (root : String) (h : ∀ n ∈ ns, Plain n) (hne : ns ≠ []) :
    fileName? (join root (Text.join "/" ns)) = ns.getLast? :=
  fileName?_of_suffix (by rw [components_join root h hne]; exact List.suffix_append _ _) h hne

theorem eq_append_of_dropPrefix? {ps s rest : List String} (h : dropPrefix? ps s = some rest) :
    s = ps ++ rest := by
  induction ps generalizing s with
  | nil => exact Option.some.inj h
  | cons p ps ih =>
    cases s with
    | nil => cases h
    | cons c s =>
      rw [dropPrefix?] at h
      split at h
      · next he => rw [ih h, he, List.cons_append]
      · cases h

/-- The parts of a path hold no slashes, apart from the one that an absolute path starts with. -/
theorem components_cases (path : String) :
    (∀ n ∈ components path, '/' ∉ n.toList) ∨
      ∃ names, components path = "/" :: names ∧ ∀ n ∈ names, '/' ∉ n.toList := by
  have hpieces : ∀ n ∈ ((Text.segments path.toList).filter counts).map String.ofList,
      '/' ∉ n.toList := by
    intro n hn hslash
    obtain ⟨piece, hpiece, rfl⟩ := List.mem_map.mp hn
    rw [String.toList_ofList] at hslash
    exact Text.noSlash_of_mem_segments (List.mem_of_mem_filter hpiece) hslash
  rw [components_eq]
  unfold lead
  split
  · exact Or.inr ⟨_, rfl, hpieces⟩
  · refine Or.inl fun n hn => ?_
    rcases List.mem_append.mp hn with hn | hn
    · split at hn
      · rw [List.mem_singleton.mp hn]
        decide
      · cases hn
    · exact hpieces n hn

/-- **A path that is seen as some names ends with them.** -/
theorem suffix_of_relative {root path : String} (h : ∀ n ∈ ns, Plain n) (hne : ns ≠ [])
    (hr : relative root path = Text.join "/" ns) : ns <:+ components path := by
  obtain ⟨parts, hparts⟩ : ∃ parts, parts =
    (dropPrefix? (components root) (components path)).getD (components path) := ⟨_, rfl⟩
  replace hr : Text.join "/" parts = Text.join "/" ns := by rw [hparts]; exact hr
  have hsuffix : parts <:+ components path := by
    cases hd : dropPrefix? (components root) (components path) with
    | none => rw [hparts, hd]; exact List.suffix_refl _
    | some rest =>
      rw [hparts, hd, Option.getD_some]
      exact ⟨_, (eq_append_of_dropPrefix? hd).symm⟩
  have hnil : parts ≠ [] := by
    intro he
    rw [he] at hr
    exact join_ne_empty h hne hr.symm
  have hslash : ∀ n ∈ parts, '/' ∉ n.toList := by
    rcases components_cases path with hc | ⟨names, hc, hnames⟩
    · exact fun n hn => hc n (hsuffix.subset hn)
    · rw [hc] at hsuffix
      rcases List.suffix_cons_iff.mp hsuffix with he | hsuf
      · -- the names would start with a slash
        have habs := isAbsolute_join h hne
        rw [← hr, he] at habs
        refine absurd habs ?_
        cases names with
        | nil => decide
        | cons n names =>
          rw [join_cons (List.cons_ne_nil _ _)]
          simp [isAbsolute]
      · exact fun n hn => hnames n (hsuf.subset hn)
  have hseg := segments_join_of_noSlash hslash hnil
  rw [hr, segments_join h hne] at hseg
  rw [(List.map_inj_right fun _ _ => String.toList_inj.mp).mp hseg]
  exact hsuffix

theorem fileName?_of_relative {root path : String} (h : ∀ n ∈ ns, Plain n) (hne : ns ≠ [])
    (hr : relative root path = Text.join "/" ns) : fileName? path = ns.getLast? :=
  fileName?_of_suffix (suffix_of_relative h hne hr) h hne

end Path

/-! ## Tidy trees -/

mutual

/-- The names of every directory in and below an entry are plain and distinct. -/
def Entry.Tidy : Entry → Prop
  | .directory entries => Entry.TidyIn entries
  | .file .. | .locked | .index .. | .special => True

/-- The names of some entries, and of every directory below them, are plain and distinct. -/
def Entry.TidyIn : List (String × Entry) → Prop
  | [] => True
  | (name, e) :: rest => Path.Plain name ∧ name ∉ rest.map (·.1) ∧ e.Tidy ∧ Entry.TidyIn rest

end

/-- The names of every directory are plain and distinct. -/
def Disk.Tidy (d : Disk) : Prop := d.top.Tidy

instance (name : String) : Decidable (Path.Plain name) :=
  decidable_of_iff (name ≠ "" ∧ '/' ∉ name.toList ∧ name ≠ "." ∧ name ≠ "..")
    ⟨fun ⟨h₁, h₂, h₃, h₄⟩ => ⟨h₁, h₂, h₃, h₄⟩,
      fun h => ⟨h.nonempty, h.noSlash, h.noDot, h.noDots⟩⟩

mutual

/-- Whether the names of every directory in and below an entry are plain and distinct. -/
def Entry.decideTidy : (e : Entry) → Decidable e.Tidy
  | .directory entries =>
    have := Entry.decideTidyIn entries
    decidable_of_iff (Entry.TidyIn entries) (by rw [Entry.Tidy])
  | .file .. => .isTrue (by rw [Entry.Tidy]; trivial)
  | .locked => .isTrue (by rw [Entry.Tidy]; trivial)
  | .index _ => .isTrue (by rw [Entry.Tidy]; trivial)
  | .special => .isTrue (by rw [Entry.Tidy]; trivial)

/-- Whether the names of some entries, and of every directory below them, are plain and distinct. -/
def Entry.decideTidyIn : (entries : List (String × Entry)) → Decidable (Entry.TidyIn entries)
  | [] => .isTrue (by rw [Entry.TidyIn]; trivial)
  | (name, e) :: rest =>
    have := Entry.decideTidy e
    have := Entry.decideTidyIn rest
    decidable_of_iff (Path.Plain name ∧ name ∉ rest.map (·.1) ∧ e.Tidy ∧ Entry.TidyIn rest)
      (by rw [Entry.TidyIn])

end

instance (d : Disk) : Decidable d.Tidy := d.top.decideTidy

mutual

/-- The names that lead from an entry to the files in and below it. -/
def Entry.leaves : Entry → List (List String)
  | .directory entries => Entry.leavesIn entries
  | .file .. | .locked | .index .. => [[]]
  | .special => []

/-- The names that lead to files in and below some entries. -/
def Entry.leavesIn : List (String × Entry) → List (List String)
  | [] => []
  | (name, e) :: rest => e.leaves.map (name :: ·) ++ Entry.leavesIn rest

end

namespace Entry

theorem mem_leavesIn {entries : List (String × Entry)} {ns : List String} :
    ns ∈ leavesIn entries ↔ ∃ x ∈ entries, ∃ ms ∈ x.2.leaves, x.1 :: ms = ns := by
  induction entries with
  | nil => simp [leavesIn]
  | cons x entries ih =>
    obtain ⟨name, e⟩ := x
    rw [leavesIn, List.mem_append, List.mem_map, ih]
    simp only [List.mem_cons, exists_eq_or_imp]

theorem leavesIn_ne_nil {entries : List (String × Entry)} {ns : List String}
    (h : ns ∈ leavesIn entries) : ns ≠ [] := by
  obtain ⟨x, -, ms, -, rfl⟩ := mem_leavesIn.mp h
  exact List.cons_ne_nil _ _

theorem tidy_of_mem {entries : List (String × Entry)} (h : TidyIn entries) :
    ∀ x ∈ entries, Path.Plain x.1 ∧ x.2.Tidy := by
  induction entries with
  | nil => intro x hx; cases hx
  | cons y entries ih =>
    obtain ⟨name, e⟩ := y
    rw [TidyIn] at h
    intro x hx
    rcases List.mem_cons.mp hx with rfl | hx
    · exact ⟨h.1, h.2.2.1⟩
    · exact ih h.2.2.2 x hx

mutual

theorem leaves_plain : ∀ e : Entry, e.Tidy → ∀ ns ∈ e.leaves, ∀ n ∈ ns, Path.Plain n
  | .directory entries, h, ns, hns => by
    rw [Tidy] at h
    rw [leaves] at hns
    exact leavesIn_plain entries h ns hns
  | .file .., _, ns, hns => by
    obtain rfl := List.mem_singleton.mp (by simpa [leaves] using hns)
    simp
  | .locked, _, ns, hns => by
    obtain rfl := List.mem_singleton.mp (by simpa [leaves] using hns)
    simp
  | .index _, _, ns, hns => by
    obtain rfl := List.mem_singleton.mp (by simpa [leaves] using hns)
    simp
  | .special, _, ns, hns => by simp [leaves] at hns

/-- The names that lead to files of a tidy tree are plain. -/
theorem leavesIn_plain : ∀ entries : List (String × Entry), TidyIn entries →
    ∀ ns ∈ leavesIn entries, ∀ n ∈ ns, Path.Plain n
  | [], _, ns, hns => by simp [leavesIn] at hns
  | (name, e) :: rest, h, ns, hns => by
    rw [TidyIn] at h
    rw [leavesIn, List.mem_append] at hns
    rcases hns with hns | hns
    · obtain ⟨ms, hms, rfl⟩ := List.mem_map.mp hns
      intro n hn
      rcases List.mem_cons.mp hn with rfl | hn
      · exact h.1
      · exact leaves_plain e h.2.2.1 ms hms n hn
    · exact leavesIn_plain rest h.2.2.2 ns hns

end

mutual

theorem leaves_nodup : ∀ e : Entry, e.Tidy → e.leaves.Nodup
  | .directory entries, h => by
    rw [Tidy] at h
    rw [leaves]
    exact leavesIn_nodup entries h
  | .file .., _ => by simp [leaves]
  | .locked, _ => by simp [leaves]
  | .index _, _ => by simp [leaves]
  | .special, _ => by simp [leaves]

/-- The names that lead to files of a tidy tree are distinct. -/
theorem leavesIn_nodup : ∀ entries : List (String × Entry), TidyIn entries →
    (leavesIn entries).Nodup
  | [], _ => by simp [leavesIn]
  | (name, e) :: rest, h => by
    rw [TidyIn] at h
    obtain ⟨-, hname, he, hrest⟩ := h
    rw [leavesIn, List.nodup_append]
    refine ⟨(leaves_nodup e he).map fun _ _ => List.tail_eq_of_cons_eq,
      leavesIn_nodup rest hrest, ?_⟩
    rintro ns hns ms hms rfl
    -- the two lists would start with the same name
    obtain ⟨ks, -, rfl⟩ := List.mem_map.mp hns
    obtain ⟨x, hx, ls, -, hxe⟩ := mem_leavesIn.mp hms
    refine hname (List.mem_map.mpr ⟨x, hx, ?_⟩)
    exact (List.cons.inj hxe).1

end

end Entry

/-! ## Walks -/

/-- A path below another. -/
def Path.below (path : String) (ns : List String) : String :=
  if ns = [] then path else path ++ "/" ++ Text.join "/" ns

theorem Path.below_cons (base name : String) (ns : List String) :
    base ++ Text.join "/" (name :: ns) = Path.below (base ++ name) ns := by
  unfold Path.below
  split
  · next h => subst h; rfl
  · next h => rw [Path.join_cons h, String.append_assoc, String.append_assoc, String.append_assoc]

mutual

theorem walkEntry_sublist (c : Config) : ∀ (path : String) (e : Entry),
    (walkEntry c path e).Sublist (e.leaves.map (Path.below path))
  | path, .directory entries => by
    rw [walkEntry, Entry.leaves]
    split
    · exact List.nil_sublist _
    · have hbelow : (Entry.leavesIn entries).map (Path.below path) =
          (Entry.leavesIn entries).map fun ns => path ++ "/" ++ Text.join "/" ns :=
        List.map_congr_left fun ns hns => if_neg (Entry.leavesIn_ne_nil hns)
      rw [hbelow]
      exact walkEntries_sublist c (path ++ "/") entries
  | path, .file .. => by
    rw [walkEntry, Entry.leaves]
    split
    · exact List.Sublist.refl _
    · exact List.nil_sublist _
  | path, .locked => by
    rw [walkEntry, Entry.leaves]
    split
    · exact List.Sublist.refl _
    · exact List.nil_sublist _
  | path, .index _ => by
    rw [walkEntry, Entry.leaves]
    split
    · exact List.Sublist.refl _
    · exact List.nil_sublist _
  | path, .special => by
    rw [walkEntry]
    exact List.nil_sublist _

/-- A walk comes upon files only, each at its names. -/
theorem walkEntries_sublist (c : Config) : ∀ (base : String) (entries : List (String × Entry)),
    (walkEntries c base entries).Sublist
      ((Entry.leavesIn entries).map fun ns => base ++ Text.join "/" ns)
  | base, [] => by rw [walkEntries]; exact List.nil_sublist _
  | base, (name, e) :: rest => by
    rw [walkEntries, Entry.leavesIn, List.map_append, List.map_map]
    refine List.Sublist.append ?_ (walkEntries_sublist c base rest)
    have hmap : (e.leaves.map ((fun ns => base ++ Text.join "/" ns) ∘ (name :: ·))) =
        e.leaves.map (Path.below (base ++ name)) :=
      List.map_congr_left fun ns _ => Path.below_cons base name ns
    rw [hmap]
    exact walkEntry_sublist c (base ++ name) e

end

section Walks

variable {c : Config} {entries : List (String × Entry)} {f : String}

/-- A file that a walk comes upon has plain names. -/
theorem exists_names_of_mem_walk (h : Entry.TidyIn entries) (hf : f ∈ walkEntries c "" entries) :
    ∃ ns, ns ≠ [] ∧ (∀ n ∈ ns, Path.Plain n) ∧ Text.join "/" ns = f := by
  obtain ⟨ns, hns, rfl⟩ := List.mem_map.mp ((walkEntries_sublist c "" entries).subset hf)
  exact ⟨ns, Entry.leavesIn_ne_nil hns, Entry.leavesIn_plain entries h ns hns,
    String.empty_append.symm⟩

/-- **A walk of a tidy tree comes upon a file once.** -/
theorem walkEntries_nodup (h : Entry.TidyIn entries) : (walkEntries c "" entries).Nodup := by
  refine (walkEntries_sublist c "" entries).nodup ?_
  refine List.Nodup.map_on ?_ (Entry.leavesIn_nodup entries h)
  intro ns hns ms hms he
  rw [String.empty_append, String.empty_append] at he
  exact Path.join_injective (Entry.leavesIn_plain entries h ns hns)
    (Entry.leavesIn_plain entries h ms hms) (Entry.leavesIn_ne_nil hns)
    (Entry.leavesIn_ne_nil hms) he

end Walks

/-! ## Candidates -/

namespace Entry

theorem tidy_of_lookup {entries : List (String × Entry)} (h : TidyIn entries) {name : String}
    {e : Entry} (he : entries.lookup name = some e) : e.Tidy := by
  obtain ⟨l, r, rfl, -⟩ := List.lookup_eq_some_iff.mp he
  exact (tidy_of_mem h _ (List.mem_append_right _ List.mem_cons_self)).2

/-- What is below a tidy entry is tidy. -/
theorem Tidy.get? {names : List String} : ∀ {e e' : Entry}, e.Tidy → e.get? names = some e' →
    e'.Tidy := by
  induction names with
  | nil =>
    intro e e' h he
    cases e <;> · rw [Entry.get?] at he; cases he; exact h
  | cons name rest ih =>
    intro e e' h he
    cases e with
    | directory entries =>
      rw [Entry.get?] at he
      rw [Tidy] at h
      cases hl : entries.lookup name with
      | none => rw [hl] at he; cases he
      | some x => rw [hl] at he; exact ih (tidy_of_lookup h hl) he
    | file content modified => simp [Entry.get?] at he
    | locked => simp [Entry.get?] at he
    | index store => simp [Entry.get?] at he
    | special => simp [Entry.get?] at he

end Entry

namespace Job

variable {j : Job}

theorem tidy_entries (h : j.disk.Tidy) : Entry.TidyIn j.entries := by
  unfold Job.entries Indexer.entries
  split
  · next entries he =>
    unfold Disk.find? at he
    split at he
    · exact Entry.Tidy.get? h he
    · cases he
  · rw [Entry.TidyIn]; trivial

/-- Whether a path is in a language that is enabled. -/
def supports (j : Job) (path : String) : Bool :=
  (Language.detect? j.indexer.languages path).isSome

theorem relative_of_mem (h : j.disk.Tidy) {f : String}
    (hf : f ∈ walkEntries j.indexer.config "" j.entries) :
    j.relative (Path.join j.indexer.root f) = f := by
  obtain ⟨ns, hne, hplain, rfl⟩ := exists_names_of_mem_walk (tidy_entries h) hf
  exact Path.relative_join _ hplain hne

/-- **Paths that are seen as the same candidate are in the same language.** -/
theorem detect?_eq (h : j.disk.Tidy) {path path' : String} (hp : path ∈ j.candidates)
    (he : j.relative path' = j.relative path) (enabled : List Language) :
    Language.detect? enabled path' = Language.detect? enabled path := by
  obtain ⟨f, hf, rfl⟩ := List.mem_map.mp hp
  rw [relative_of_mem h hf] at he
  obtain ⟨ns, hne, hplain, rfl⟩ := exists_names_of_mem_walk (tidy_entries h) hf
  have hname : Path.fileName? path' =
      Path.fileName? (Path.join j.indexer.root (Text.join "/" ns)) := by
    rw [Path.fileName?_join _ hplain hne]
    exact Path.fileName?_of_relative hplain hne he
  unfold Language.detect? Path.extension?
  rw [hname]

/-- **Candidates have distinct paths as seen from the root.** -/
theorem relative_injOn (h : j.disk.Tidy) {path path' : String} (hp : path ∈ j.candidates)
    (hp' : path' ∈ j.candidates) (he : j.relative path = j.relative path') : path = path' := by
  obtain ⟨f, hf, rfl⟩ := List.mem_map.mp hp
  obtain ⟨f', hf', rfl⟩ := List.mem_map.mp hp'
  rw [relative_of_mem h hf, relative_of_mem h hf'] at he
  rw [he]

/-- **A candidate comes up once.** -/
theorem candidates_nodup (h : j.disk.Tidy) : j.candidates.Nodup := by
  refine List.Nodup.map_on ?_ (walkEntries_nodup (tidy_entries h))
  intro f hf f' hf' he
  rw [← relative_of_mem h hf, he, relative_of_mem h hf']

end Job

end CodeAtlas
