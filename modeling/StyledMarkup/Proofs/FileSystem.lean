import Mathlib.Data.List.Nodup
import StyledMarkup.FileSystem.Access
import StyledMarkup.Proofs.Location

/-!
# File systems that grow

Making directories and writing files never takes a directory away and leaves an entry wherever there
was one. So a path that leads somewhere keeps leading there, however much is written in between. In
a directory that is reached, writing a name puts a file right under that directory and touches
nothing else, and reading the name gives back what was written last.
-/

namespace StyledMarkup

/-! ## The order of names -/

section Order

variable {α : Type} [DecidableEq α]

/-- Lists ordered by their first items that differ. -/
def lexicographic (le : α → α → Bool) : List α → List α → Bool
  | [], _ => true
  | _ :: _, [] => false
  | a :: s, b :: t => if a = b then lexicographic le s t else le a b

/-- A comparison that puts any two things that differ in one order. -/
structure Orders (le : α → α → Bool) : Prop where
  total : ∀ {a b : α}, a ≠ b → le a b = true ∨ le b a = true
  antisymm : ∀ {a b : α}, le a b = true → le b a = true → a = b
  trans : ∀ {a b c : α}, le a b = true → le b c = true → le a c = true

theorem lexicographic_cons_of_ne (le : α → α → Bool) {a b : α} (h : a ≠ b) (s t : List α) :
    lexicographic le (a :: s) (b :: t) = le a b :=
  if_neg h

theorem lexicographic_cons_self (le : α → α → Bool) (a : α) (s t : List α) :
    lexicographic le (a :: s) (a :: t) = lexicographic le s t :=
  if_pos rfl

variable {le : α → α → Bool}

theorem Orders.lexicographic_total (h : Orders le) (s t : List α) :
    lexicographic le s t = true ∨ lexicographic le t s = true := by
  induction s generalizing t with
  | nil => exact Or.inl rfl
  | cons a s ih =>
    cases t with
    | nil => exact Or.inr rfl
    | cons b t =>
      by_cases hab : a = b
      · subst hab
        rw [lexicographic_cons_self, lexicographic_cons_self]
        exact ih t
      · rw [lexicographic_cons_of_ne le hab, lexicographic_cons_of_ne le (Ne.symm hab)]
        exact h.total hab

theorem Orders.lexicographic_antisymm (h : Orders le) {s t : List α}
    (hst : lexicographic le s t = true) (hts : lexicographic le t s = true) : s = t := by
  induction s generalizing t with
  | nil =>
    cases t with
    | nil => rfl
    | cons b t => cases hts
  | cons a s ih =>
    cases t with
    | nil => cases hst
    | cons b t =>
      by_cases hab : a = b
      · subst hab
        rw [lexicographic_cons_self] at hst hts
        rw [ih hst hts]
      · rw [lexicographic_cons_of_ne le hab] at hst
        rw [lexicographic_cons_of_ne le (Ne.symm hab)] at hts
        exact absurd (h.antisymm hst hts) hab

theorem Orders.lexicographic_trans (h : Orders le) {s t u : List α}
    (hst : lexicographic le s t = true) (htu : lexicographic le t u = true) :
    lexicographic le s u = true := by
  induction s generalizing t u with
  | nil => rfl
  | cons a s ih =>
    cases t with
    | nil => cases hst
    | cons b t =>
      cases u with
      | nil => cases htu
      | cons c u =>
        by_cases hab : a = b
        · subst hab
          rw [lexicographic_cons_self] at hst
          by_cases hac : a = c
          · subst hac
            rw [lexicographic_cons_self] at htu ⊢
            exact ih hst htu
          · rwa [lexicographic_cons_of_ne le hac] at htu ⊢
        · rw [lexicographic_cons_of_ne le hab] at hst
          by_cases hbc : b = c
          · subst hbc
            rwa [lexicographic_cons_of_ne le hab]
          · rw [lexicographic_cons_of_ne le hbc] at htu
            have hac : a ≠ c := by
              rintro rfl
              exact hab (h.antisymm hst htu)
            rw [lexicographic_cons_of_ne le hac]
            exact h.trans hst htu

theorem Orders.lexicographic (h : Orders le) : Orders (lexicographic le) :=
  ⟨fun _ ↦ h.lexicographic_total _ _, h.lexicographic_antisymm, h.lexicographic_trans⟩

end Order

theorem Text.le_eq : Text.le = lexicographic fun a b : Char ↦ decide (a.toNat < b.toNat) := by
  funext s t
  induction s generalizing t with
  | nil => rfl
  | cons a s ih =>
    cases t with
    | nil => rfl
    | cons b t => rw [Text.le, lexicographic, ih]

theorem Location.le_eq : Location.le = lexicographic Text.le := by
  funext s t
  induction s generalizing t with
  | nil => rfl
  | cons a s ih =>
    cases t with
    | nil => rfl
    | cons b t => rw [Location.le, lexicographic, ih]

theorem Text.orders_le : Orders Text.le := by
  have hchars : Orders fun a b : Char ↦ decide (a.toNat < b.toNat) := by
    refine ⟨fun {a b} hne ↦ ?_, fun hab hba ↦ ?_, fun hab hbc ↦ ?_⟩
    · have hnat : a.toNat ≠ b.toNat := fun h ↦ hne (Char.toNat_inj.mp h)
      simpa using Nat.lt_or_gt_of_ne hnat
    · simp only [decide_eq_true_eq] at hab hba
      omega
    · simp only [decide_eq_true_eq] at hab hbc ⊢
      omega
  rw [Text.le_eq]
  exact hchars.lexicographic

theorem Location.orders_le : Orders Location.le := by
  rw [Location.le_eq]
  exact Text.orders_le.lexicographic

/-- Different texts are different files. -/
theorem Text.eq_of_encode {s t : Text} (h : Text.encode s = Text.encode t) : s = t := by
  have hbytes := String.toByteArray_inj.mp (ByteArray.ext (Array.toList_inj.mp h))
  exact String.ofList_injective hbytes

theorem Except.exists_of_bind_eq_ok {ε α β : Type} {x : Except ε α} {f : α → Except ε β} {b : β}
    (h : x >>= f = .ok b) : ∃ a, x = .ok a ∧ f a = .ok b := by
  cases x with
  | error e => cases h
  | ok a => exact ⟨a, rfl, h⟩

namespace FileSystem

variable {fs fs' fs'' : FileSystem} {loc next : Location} {e : Entry}

/-! ## Well-formed file systems -/

/-- A name that an entry can have. -/
def IsName (name : Text) : Prop :=
  '/' ∉ name ∧ Path.isIdle name = false ∧ name ≠ ['.', '.']

instance (name : Text) : Decidable (IsName name) :=
  inferInstanceAs (Decidable (_ ∧ _))

/-- There is one entry at each location, and locations are made of names. -/
structure WellFormed (fs : FileSystem) : Prop where
  nodup : (fs.entries.map Prod.fst).Nodup
  names : ∀ entry ∈ fs.entries, ∀ name ∈ entry.1, IsName name

theorem mem_of_get? (hloc : loc ≠ []) (h : fs.get? loc = some e) : (loc, e) ∈ fs.entries := by
  rw [get?, if_neg hloc, List.lookup_eq_some_iff] at h
  obtain ⟨before, after, heq, -⟩ := h
  simp [heq]

theorem WellFormed.get?_eq_some_iff (hfs : fs.WellFormed) (hloc : loc ≠ []) :
    fs.get? loc = some e ↔ (loc, e) ∈ fs.entries := by
  refine ⟨mem_of_get? hloc, fun hmem ↦ ?_⟩
  obtain ⟨before, after, heq⟩ := List.append_of_mem hmem
  rw [get?, if_neg hloc, List.lookup_eq_some_iff]
  refine ⟨before, after, heq, fun p hp ↦ ?_⟩
  have hnodup := hfs.nodup
  rw [heq, List.map_append, List.map_cons, List.nodup_append] at hnodup
  have hne : p.1 ≠ loc :=
    hnodup.2.2 p.1 (List.mem_map_of_mem hp) loc List.mem_cons_self
  simpa using Ne.symm hne

theorem WellFormed.name_of_get? (hfs : fs.WellFormed) (h : fs.get? loc = some e) :
    ∀ name ∈ loc, IsName name := by
  by_cases hloc : loc = []
  · simp [hloc]
  · exact hfs.names (loc, e) (mem_of_get? hloc h)

theorem WellFormed.set (hfs : fs.WellFormed) (hloc : ∀ name ∈ loc, IsName name) (e : Entry) :
    (fs.set loc e).WellFormed := by
  constructor
  · rw [FileSystem.set, List.map_cons, List.nodup_cons]
    refine ⟨?_, hfs.nodup.sublist (List.filter_sublist.map Prod.fst)⟩
    rw [List.mem_map]
    rintro ⟨entry, hentry, heq⟩
    simp [heq] at hentry
  · intro entry hentry
    rcases List.mem_cons.mp hentry with rfl | hold
    · exact hloc
    · exact hfs.names entry (List.mem_filter.mp hold).1

/-! ## Growing -/

/-- The second file system has all directories of the first and an entry wherever that has one. -/
structure Grows (fs fs' : FileSystem) : Prop where
  workingDirectory : fs'.workingDirectory = fs.workingDirectory
  directory : ∀ {loc : Location}, fs.get? loc = some .directory → fs'.get? loc = some .directory
  isSome : ∀ {loc : Location}, (fs.get? loc).isSome = true → (fs'.get? loc).isSome = true

theorem Grows.refl (fs : FileSystem) : Grows fs fs :=
  ⟨rfl, id, id⟩

theorem Grows.trans (h : Grows fs fs') (h' : Grows fs' fs'') : Grows fs fs'' :=
  ⟨h'.workingDirectory.trans h.workingDirectory, fun hloc ↦ h'.directory (h.directory hloc),
    fun hloc ↦ h'.isSome (h.isSome hloc)⟩

theorem grows_set (h : fs.get? loc ≠ some .directory) (e : Entry) : Grows fs (fs.set loc e) := by
  have hloc : loc ≠ [] := by
    rintro rfl
    exact h rfl
  refine ⟨rfl, fun {other} hother ↦ ?_, fun {other} hother ↦ ?_⟩
  · have hne : other ≠ loc := by
      rintro rfl
      exact h hother
    rwa [get?_set_of_ne fs hne]
  · by_cases heq : other = loc
    · rw [heq, get?_set_self fs hloc]
      rfl
    · rwa [get?_set_of_ne fs heq]

theorem enter_of_directory (segment : Text) (h : fs.get? loc = some .directory) :
    fs.enter loc segment =
      if Path.isIdle segment then .ok loc
      else if segment = ['.', '.'] then .ok loc.dropLast
      else if (fs.get? (loc ++ [segment])).isSome then .ok (loc ++ [segment])
      else .error .notFound := by
  rw [enter, h]

theorem directory_of_enter {segment : Text} (h : fs.enter loc segment = .ok next) :
    fs.get? loc = some .directory := by
  unfold enter at h
  split at h
  · cases h
  · cases h
  · next hdirectory => exact hdirectory

/-- An empty segment stays in the directory it is looked up in. -/
theorem enter_nil_eq_ok_iff :
    fs.enter loc [] = .ok next ↔ loc = next ∧ fs.get? loc = some .directory := by
  constructor
  · intro h
    have hdirectory := directory_of_enter h
    rw [enter_of_directory [] hdirectory] at h
    exact ⟨Except.ok.inj h, hdirectory⟩
  · rintro ⟨rfl, hdirectory⟩
    exact enter_of_directory [] hdirectory

theorem Grows.enter {segment : Text} (h : Grows fs fs') (henter : fs.enter loc segment = .ok next) :
    fs'.enter loc segment = .ok next := by
  have hdirectory := directory_of_enter henter
  rw [enter_of_directory segment hdirectory] at henter
  rw [enter_of_directory segment (h.directory hdirectory)]
  split at henter
  · next hidle => rwa [if_pos hidle]
  · next hidle =>
    rw [if_neg hidle]
    split at henter
    · next hdots => rwa [if_pos hdots]
    · next hdots =>
      rw [if_neg hdots]
      split at henter
      · next hsome => rwa [if_pos (h.isSome hsome)]
      · cases henter

theorem walk_cons_eq_ok_iff {segment : Text} {rest : List Text} {last : Location} :
    fs.walk loc (segment :: rest) = .ok last ↔
      ∃ next, fs.enter loc segment = .ok next ∧ fs.walk next rest = .ok last := by
  rw [walk]
  split <;> simp_all

theorem walk_append_eq_ok_iff {segments rest : List Text} {last : Location} :
    fs.walk loc (segments ++ rest) = .ok last ↔
      ∃ next, fs.walk loc segments = .ok next ∧ fs.walk next rest = .ok last := by
  induction segments generalizing loc with
  | nil => simp [walk]
  | cons segment segments ih =>
    simp only [List.cons_append, walk_cons_eq_ok_iff, ih]
    constructor
    · rintro ⟨next, henter, mid, hmid, hlast⟩
      exact ⟨mid, ⟨next, henter, hmid⟩, hlast⟩
    · rintro ⟨mid, ⟨next, henter, hmid⟩, hlast⟩
      exact ⟨next, henter, mid, hmid, hlast⟩

/-- A way that leads somewhere leads there however the file system grows. -/
theorem Grows.walk {segments : List Text} (h : Grows fs fs')
    (hwalk : fs.walk loc segments = .ok next) : fs'.walk loc segments = .ok next := by
  induction segments generalizing loc with
  | nil => exact hwalk
  | cons segment segments ih =>
    rw [walk_cons_eq_ok_iff] at hwalk ⊢
    obtain ⟨mid, henter, hrest⟩ := hwalk
    exact ⟨mid, h.enter henter, ih hrest⟩

theorem walk_of_empty {segments : List Text} (hdirectory : fs.get? loc = some .directory)
    (hempty : ∀ segment ∈ segments, segment = []) : fs.walk loc segments = .ok loc := by
  induction segments with
  | nil => rfl
  | cons segment rest ih =>
    obtain ⟨rfl, hrest⟩ := List.forall_mem_cons.mp hempty
    exact walk_cons_eq_ok_iff.mpr ⟨loc, enter_nil_eq_ok_iff.mpr ⟨rfl, hdirectory⟩, ih hrest⟩

theorem Grows.start (h : Grows fs fs') (p : Path) : fs'.start p = fs.start p := by
  rw [FileSystem.start, FileSystem.start, h.workingDirectory]

theorem Grows.locate {p : Path} (h : Grows fs fs') (hlocate : fs.locate p = .ok loc) :
    fs'.locate p = .ok loc := by
  rw [FileSystem.locate] at hlocate ⊢
  split at hlocate
  · cases hlocate
  · next htext =>
    rw [if_neg htext, h.start]
    exact h.walk hlocate

theorem Grows.locateDirectory {p : Path} (h : Grows fs fs')
    (hlocate : fs.locateDirectory p = .ok loc) : fs'.locateDirectory p = .ok loc := by
  rw [FileSystem.locateDirectory] at hlocate ⊢
  split at hlocate
  · cases hlocate
  · next found hfound =>
    rw [h.locate hfound]
    exact h.enter hlocate

/-! ## Making directories -/

theorem containing_eq_ok_iff {p : Path} {before : List Text} :
    fs.containing p before = .ok loc ↔
      fs.walk (fs.start p) before = .ok loc ∧ fs.get? loc = some .directory := by
  rw [containing, walk_append_eq_ok_iff]
  simp only [walk_cons_eq_ok_iff, enter_nil_eq_ok_iff]
  constructor
  · rintro ⟨mid, hwalk, next, ⟨rfl, hdirectory⟩, hnil⟩
    obtain rfl := Except.ok.inj hnil
    exact ⟨hwalk, hdirectory⟩
  · rintro ⟨hwalk, hdirectory⟩
    exact ⟨loc, hwalk, loc, ⟨rfl, hdirectory⟩, rfl⟩

/-- The last segment that is not empty has nothing but empty ones behind it. -/
theorem exists_splitOn_eq {t last : Text} {before : List Text}
    (h : (t.splitOn '/').reverse.dropWhile List.isEmpty = last :: before) :
    ∃ slashes, t.splitOn '/' = before.reverse ++ last :: slashes ∧
      (∀ segment ∈ slashes, segment = []) ∧ last ≠ [] := by
  have hsplit := List.takeWhile_append_dropWhile (p := List.isEmpty) (l := (t.splitOn '/').reverse)
  have hhead := List.head?_dropWhile_not List.isEmpty (t.splitOn '/').reverse
  rw [h] at hsplit hhead
  refine ⟨((t.splitOn '/').reverse.takeWhile List.isEmpty).reverse, ?_, fun segment hmem ↦ ?_, ?_⟩
  · simpa using congrArg List.reverse hsplit.symm
  · simpa using List.mem_takeWhile_imp (List.mem_reverse.mp hmem)
  · simpa using hhead

/-- A directory is made in a directory, under a name that is free. The path leads to it then. -/
theorem makeDirectory_eq_ok {p : Path} (h : fs.makeDirectory p = .ok fs') :
    ∃ loc name, fs.get? loc = some .directory ∧ IsName name ∧ fs.get? (loc ++ [name]) = none ∧
      fs' = fs.set (loc ++ [name]) .directory ∧ fs'.locate p = .ok (loc ++ [name]) := by
  unfold makeDirectory at h
  split at h
  · cases h
  · next last before hsegments =>
    obtain ⟨slashes, hslashes, hempty, hne⟩ := exists_splitOn_eq hsegments
    split at h
    · cases h
    · next loc hloc =>
      split at h
      · cases h
      · next hfree =>
        simp only [not_or, Bool.not_eq_true, Option.isSome_eq_false_iff] at hfree
        obtain ⟨hwalk, hdirectory⟩ := containing_eq_ok_iff.mp hloc
        have hname : IsName last := by
          refine ⟨?_, ?_, hfree.2.1⟩
          · have hmem : last ∈ p.text.splitOn '/' := by simp [hslashes]
            exact Path.slash_notMem_of_mem_splitOn hmem
          · rw [Path.isIdle, Bool.or_eq_false_iff]
            exact ⟨by simpa using hne, by simpa using hfree.1⟩
        have hnone : fs.get? (loc ++ [last]) = none := by simpa using hfree.2.2
        obtain rfl := Except.ok.inj h
        refine ⟨loc, last, hdirectory, hname, hnone, rfl, ?_⟩
        have hgrows : Grows fs (fs.set (loc ++ [last]) .directory) := grows_set (by simp [hnone]) _
        have htext : p.text ≠ [] := by
          intro hnil
          rw [hnil] at hsegments
          cases hsegments
        have hmade : (fs.set (loc ++ [last]) .directory).get? (loc ++ [last]) = some .directory :=
          get?_set_self fs (by simp) _
        rw [locate, if_neg htext, hslashes, walk_append_eq_ok_iff, hgrows.start]
        refine ⟨loc, hgrows.walk hwalk, walk_cons_eq_ok_iff.mpr ⟨loc ++ [last], ?_, ?_⟩⟩
        · rw [enter_of_directory last (hgrows.directory hdirectory), if_neg (by simp [hname.2.1]),
            if_neg hname.2.2, hmade]
          rfl
        · exact walk_of_empty hmade hempty

/-- What every making of one of the directories keeps holds after making them. -/
theorem makeChain_induction {P : FileSystem → Prop} {ps : List Path}
    (hP : ∀ p ∈ ps, ∀ {fs made : FileSystem}, fs.makeDirectory p = .ok made → P fs → P made)
    (hfs : P fs) : P (fs.makeChain ps).2 := by
  induction ps with
  | nil => exact hfs
  | cons p above ih =>
    rw [List.forall_mem_cons] at hP
    have hchain := ih hP.2
    rw [makeChain]
    split
    · exact hfs
    · split
      · next made hmade => exact hP.1 hmade hfs
      · split
        · next made habove => rwa [habove] at hchain
        · next made habove =>
          rw [habove] at hchain
          split
          · next made' hmade' => exact hP.1 hmade' hchain
          · exact hchain
      · exact hfs

/-- What every new directory under a free name keeps holds after making directories. -/
theorem makeChain_keeps {P : FileSystem → Prop}
    (hP : ∀ {fs : FileSystem} {loc : Location} {name : Text}, fs.get? loc = some .directory →
      IsName name → fs.get? (loc ++ [name]) = none → P fs → P (fs.set (loc ++ [name]) .directory))
    (ps : List Path) (hfs : P fs) : P (fs.makeChain ps).2 := by
  refine makeChain_induction (fun p _ fs made hmade hfs ↦ ?_) hfs
  obtain ⟨loc, name, hdirectory, hname, hfree, rfl, -⟩ := makeDirectory_eq_ok hmade
  exact hP hdirectory hname hfree hfs

theorem WellFormed.makeDirectories (hfs : fs.WellFormed) (p : Path) :
    (fs.makeDirectories p).2.WellFormed := by
  refine makeChain_keeps (P := WellFormed) (fun hdirectory hname _ hfs ↦ hfs.set ?_ _) _ hfs
  intro name hmem
  rcases List.mem_append.mp hmem with hold | hnew
  · exact hfs.name_of_get? hdirectory name hold
  · rwa [List.mem_singleton.mp hnew]

/-- Making directories keeps every entry that is there. -/
theorem makeDirectories_keeps (fs : FileSystem) (p : Path) :
    Grows fs (fs.makeDirectories p).2 ∧
      ∀ {loc : Location} {e : Entry}, fs.get? loc = some e →
        (fs.makeDirectories p).2.get? loc = some e := by
  refine makeChain_keeps (P := fun made ↦ Grows fs made ∧ ∀ {loc : Location} {e : Entry},
    fs.get? loc = some e → made.get? loc = some e) (fun _ _ hfree ⟨hgrows, hkeeps⟩ ↦ ?_) _
    ⟨Grows.refl fs, id⟩
  refine ⟨hgrows.trans (grows_set (by simp [hfree]) _), ?_⟩
  intro other e hother
  have hmade := hkeeps hother
  rwa [get?_set_of_ne]
  rintro rfl
  rw [hfree] at hmade
  cases hmade

/-! ## Listing a directory -/

theorem WellFormed.mem_below_iff (hfs : fs.WellFormed) {names : Location} :
    (names, e) ∈ fs.below loc ↔ names ≠ [] ∧ fs.get? (loc ++ names) = some e := by
  rw [below, (List.mergeSort_perm _ _).mem_iff, List.mem_filterMap]
  constructor
  · rintro ⟨⟨other, e'⟩, hmem, hother⟩
    dsimp only at hother
    split at hother
    · next hbelow =>
      obtain ⟨rfl, rfl⟩ := Prod.mk.inj (Option.some.inj hother)
      rw [Bool.and_eq_true, List.isPrefixOf_iff_prefix, decide_eq_true_eq] at hbelow
      obtain ⟨⟨names, rfl⟩, hlength⟩ := hbelow
      rw [List.drop_left]
      have hnames : names ≠ [] := by
        rintro rfl
        simp at hlength
      exact ⟨hnames, (hfs.get?_eq_some_iff (by simp [hnames])).mpr hmem⟩
    · cases hother
  · rintro ⟨hnames, hget⟩
    refine ⟨(loc ++ names, e), (hfs.get?_eq_some_iff (by simp [hnames])).mp hget, ?_⟩
    simp [List.length_pos_iff.mpr hnames]

theorem WellFormed.distinct_below (hfs : fs.WellFormed) (loc : Location) :
    (fs.below loc).Pairwise fun a b ↦ a.1 ≠ b.1 := by
  rw [below, (List.mergeSort_perm _ _).pairwise_iff Ne.symm, List.pairwise_filterMap]
  refine (List.pairwise_map.mp hfs.nodup).imp fun {a b} hne x hx y hy heq ↦ hne ?_
  dsimp only at hx hy
  split at hx
  · next ha =>
    split at hy
    · next hb =>
      rw [Bool.and_eq_true, List.isPrefixOf_iff_prefix] at ha hb
      obtain ⟨⟨names, ha⟩, -⟩ := ha
      obtain ⟨⟨names', hb⟩, -⟩ := hb
      obtain rfl := Option.some.inj hx
      obtain rfl := Option.some.inj hy
      rw [← ha, ← hb, List.drop_left, List.drop_left] at heq
      rw [← ha, ← hb]
      exact congrArg (loc ++ ·) heq
    · cases hy
  · cases hx

theorem sorted_below (fs : FileSystem) (loc : Location) :
    (fs.below loc).Pairwise fun a b ↦ Location.le a.1 b.1 = true := by
  refine List.pairwise_mergeSort ?_ ?_ _
  · exact fun _ _ _ hab hbc ↦ Location.orders_le.trans hab hbc
  · intro a b
    rw [Bool.or_eq_true, Location.le_eq]
    exact Text.orders_le.lexicographic_total a.1 b.1

/-- A listing has what is right under its directory, once each and in the order of the names. -/
theorem WellFormed.list_eq_ok (hfs : fs.WellFormed) {p : Path} {entries : List (Text × Entry)}
    (h : fs.list p = .ok entries) :
    ∃ loc, fs.locateDirectory p = .ok loc ∧
      (∀ name e, (name, e) ∈ entries ↔ fs.get? (loc ++ [name]) = some e) ∧
      entries.Pairwise fun a b ↦ a.1 ≠ b.1 ∧ Text.le a.1 b.1 = true := by
  unfold list at h
  cases hlocate : fs.locateDirectory p with
  | error e => simp [hlocate, Except.map] at h
  | ok loc =>
    rw [hlocate] at h
    obtain rfl := Except.ok.inj h
    refine ⟨loc, rfl, fun name e ↦ ?_, ?_⟩
    · rw [List.mem_filterMap]
      constructor
      · rintro ⟨⟨names, e'⟩, hmem, heq⟩
        dsimp only at heq
        split at heq
        · cases heq
          exact (hfs.mem_below_iff.mp hmem).2
        · cases heq
      · intro hget
        exact ⟨([name], e), hfs.mem_below_iff.mpr ⟨List.cons_ne_nil _ _, hget⟩, rfl⟩
    · rw [List.pairwise_filterMap]
      refine ((hfs.distinct_below loc).and (sorted_below fs loc)).imp ?_
      rintro ⟨names, e⟩ ⟨names', e'⟩ ⟨hne, hle⟩ x hx y hy
      dsimp only at hx hy
      split at hx
      · split at hy
        · obtain rfl := Option.some.inj hx
          obtain rfl := Option.some.inj hy
          have hnames := fun h ↦ hne (congrArg (fun name ↦ [name]) h)
          refine ⟨hnames, ?_⟩
          rwa [Location.le, if_neg hnames] at hle
        · cases hy
      · cases hx

end FileSystem

/-! ## Names in a directory -/

namespace Path

open FileSystem (IsName)

variable {name : Text}

/-- The segments in front of a name in a directory. -/
def inside (dir : Path) : List Text :=
  ((dir.join Path.empty).text.splitOn '/').dropLast

theorem join_of_relative {q : Path} (hq : '/' ∉ q.text) (dir : Path) :
    dir.join q =
      if dir.text = [] ∨ dir.text.endsWith '/' = true then ⟨dir.text ++ q.text⟩
      else ⟨dir.text ++ '/' :: q.text⟩ := by
  have hrelative : q.isAbsolute = false := by
    rw [Path.isAbsolute, beq_eq_false_iff_ne]
    intro hhead
    exact hq (List.mem_of_head? hhead)
  rw [Path.join, if_neg (by simp [hrelative])]

theorem splitOn_join (dir : Path) (hname : '/' ∉ name) :
    (dir.join ⟨name⟩).text.splitOn '/' = inside dir ++ [name] := by
  have hsingle : name.splitOn '/' = [name] := List.splitOn_eq_singleton hname
  rw [inside, join_of_relative (q := Path.empty) List.not_mem_nil, join_of_relative hname]
  split
  · next hplain =>
    rcases hplain with hnil | hslash
    · rw [hnil, List.nil_append, hsingle]
      rfl
    · obtain ⟨front, hfront⟩ := Text.endsWith_iff.mp hslash
      simp [hfront, Path.empty, List.splitOn_append_cons_self, hsingle]
  · simp [Path.empty, List.splitOn_append_cons_self, hsingle]

theorem join_ne_nil (dir : Path) (hname : IsName name) : (dir.join ⟨name⟩).text ≠ [] := by
  have hne : name ≠ [] := by
    rintro rfl
    exact absurd hname.2.1 (by decide)
  rw [join_of_relative hname.1]
  split <;> simp [hne]

end Path

namespace FileSystem

section Inside

variable {fs fs' : FileSystem} {loc : Location} {dir : Path} {name : Text} {content : Bytes}

theorem start_join (fs : FileSystem) (dir : Path) (hname : '/' ∉ name) :
    fs.start (dir.join ⟨name⟩) = fs.start dir := by
  have habsolute : (dir.join ⟨name⟩).isAbsolute = dir.isAbsolute := by
    rw [Path.join_of_relative hname]
    by_cases hdir : dir.text = []
    · rw [if_pos (Or.inl hdir), Path.isAbsolute, Path.isAbsolute, hdir, List.nil_append]
      rw [beq_eq_false_iff_ne.mpr fun hhead ↦ hname (List.mem_of_head? hhead)]
      rfl
    · obtain ⟨c, rest, hcons⟩ := List.exists_cons_of_ne_nil hdir
      simp only [Path.isAbsolute, hcons]
      split <;> rfl
  rw [start, start, habsolute]

/-- The directory that the path leads to is at the location. -/
def OpensAt (fs : FileSystem) (dir : Path) (loc : Location) : Prop :=
  fs.walk (fs.start dir) dir.inside = .ok loc ∧ fs.get? loc = some .directory

theorem OpensAt.unique {loc' : Location} (h : fs.OpensAt dir loc) (h' : fs.OpensAt dir loc') :
    loc = loc' :=
  Except.ok.inj (h.1.symm.trans h'.1)

theorem Grows.opensAt (h : Grows fs fs') (hopens : fs.OpensAt dir loc) : fs'.OpensAt dir loc := by
  refine ⟨?_, h.directory hopens.2⟩
  rw [h.start]
  exact h.walk hopens.1

/-- A file that is written in a directory is put right under it. -/
theorem writeFile_join_eq_ok (hname : IsName name)
    (h : fs.writeFile (dir.join ⟨name⟩) content = .ok fs') :
    ∃ loc, fs.OpensAt dir loc ∧ fs.get? (loc ++ [name]) ≠ some .directory ∧
      fs' = fs.set (loc ++ [name]) (.file content) := by
  have hidle : ¬(Path.isIdle name = true ∨ name = ['.', '.']) := by
    simp [hname.2.1, hname.2.2]
  rw [writeFile, Path.splitOn_join dir hname.1, List.reverse_concat] at h
  dsimp only at h
  rw [if_neg (Path.join_ne_nil dir hname), List.reverse_reverse] at h
  split at h
  · cases h
  · next loc hloc =>
    rw [if_neg hidle] at h
    rw [containing_eq_ok_iff, start_join fs dir hname.1] at hloc
    refine ⟨loc, hloc, ?_⟩
    split at h
    · cases h
    · next hnot => exact ⟨hnot, (Except.ok.inj h).symm⟩

theorem set_set (fs : FileSystem) (loc : Location) (e e' : Entry) :
    (fs.set loc e).set loc e' = fs.set loc e' := by
  simp [set]

/-- A file that is copied into a directory is put right under it. It is read again once the target
has been emptied. -/
theorem copyFile_join_eq_ok {source : Path} (hname : IsName name)
    (h : fs.copyFile source (dir.join ⟨name⟩) = .ok fs') :
    ∃ loc before content, fs.OpensAt dir loc ∧ fs.get? (loc ++ [name]) ≠ some .directory ∧
      fs.readBytes source = .ok before ∧
      (fs.set (loc ++ [name]) (.file [])).readBytes source = .ok content ∧
      fs' = fs.set (loc ++ [name]) (.file content) := by
  obtain ⟨before, hbefore, h⟩ := Except.exists_of_bind_eq_ok h
  obtain ⟨emptied, hemptied, h⟩ := Except.exists_of_bind_eq_ok h
  obtain ⟨content, hcontent, h⟩ := Except.exists_of_bind_eq_ok h
  obtain ⟨loc, hopens, hnot, rfl⟩ := writeFile_join_eq_ok hname hemptied
  obtain ⟨found, hfound, -, rfl⟩ := writeFile_join_eq_ok hname h
  obtain rfl := ((grows_set hnot _).opensAt hopens).unique hfound
  exact ⟨loc, before, content, hopens, hnot, hbefore, hcontent, set_set fs _ _ _⟩

theorem OpensAt.locate_join (hopens : fs.OpensAt dir loc) (hname : IsName name)
    (hsome : (fs.get? (loc ++ [name])).isSome = true) :
    fs.locate (dir.join ⟨name⟩) = .ok (loc ++ [name]) := by
  rw [locate, if_neg (Path.join_ne_nil dir hname), Path.splitOn_join dir hname.1,
    start_join fs dir hname.1, walk_append_eq_ok_iff]
  refine ⟨loc, hopens.1, walk_cons_eq_ok_iff.mpr ⟨loc ++ [name], ?_, rfl⟩⟩
  rw [enter_of_directory name hopens.2, if_neg (by simp [hname.2.1]), if_neg hname.2.2,
    if_pos hsome]

theorem OpensAt.readBytes (hopens : fs.OpensAt dir loc) (hname : IsName name)
    (hget : fs.get? (loc ++ [name]) = some (.file content)) :
    fs.readBytes (dir.join ⟨name⟩) = .ok content := by
  rw [FileSystem.readBytes, hopens.locate_join hname (by simp [hget])]
  dsimp only
  rw [hget]

end Inside

end FileSystem

end StyledMarkup
