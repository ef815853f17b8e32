import Mathlib
import StyledMarkup.Builder.Feed
import StyledMarkup.Proofs.Location

/-!
# Imports from a library

A library holds its texts under normal paths, and both an import and the library normalize the path
that is asked for. The second time changes nothing: what normalizing leaves is at most one step up
and then names, with or without a root in front, and none of these takes another one back. Main
statement: an import finds a text exactly if one was inserted under a path with the same normal
form, and it reads the one that was inserted last.
-/

namespace StyledMarkup

namespace Path

variable {components kept : List Component}

/-! ## Normal paths stay as they are -/

theorem root_notMem_segmentSteps (t : Text) : .root ∉ segmentSteps t :=
  fun h ↦ (spelled_of_mem_segmentSteps h).ne_root rfl

/-- What is kept of components without a root: names behind at most one step up. -/
theorem exists_foldl_keep_eq (hroot : .root ∉ components) :
    ∃ names ups, components.foldl keep [] = names ++ List.replicate ups .parent ∧ ups ≤ 1 ∧
      ∀ c ∈ names, c ∈ components ∧ ∃ name, c = .name name := by
  have hkeep := foldl_keep_eq hroot List.not_mem_nil (Nat.zero_le 1)
  rw [List.replicate_zero, List.append_nil] at hkeep
  refine ⟨_, _, hkeep, by omega, fun c hc ↦ ?_⟩
  exact (name_of_mem_foldl_follow hroot hc).resolve_left List.not_mem_nil

theorem foldl_keep_names {names : List Component} (hnames : ∀ c ∈ names, ∃ name, c = .name name)
    (kept : List Component) : names.foldl keep kept = names.reverse ++ kept := by
  induction names generalizing kept with
  | nil => rfl
  | cons c rest ih =>
    obtain ⟨⟨name, rfl⟩, hrest⟩ := List.forall_mem_cons.mp hnames
    rw [List.foldl_cons, ih hrest, List.reverse_cons, List.append_assoc]
    rfl

/-- Nothing of what was kept is taken back when it is gone through again. -/
theorem foldl_keep_reverse (hroot : .root ∉ components) :
    (components.foldl keep []).reverse.foldl keep [] = components.foldl keep [] := by
  obtain ⟨names, ups, hkeep, hups, hnames⟩ := exists_foldl_keep_eq hroot
  have hup : (List.replicate ups Component.parent).foldl keep [] = List.replicate ups .parent := by
    match ups, hups with
    | 0, _ => rfl
    | 1, _ => rfl
  have hreversed : ∀ c ∈ names.reverse, ∃ name, c = .name name := fun c hc ↦
    (hnames c (List.mem_reverse.mp hc)).2
  rw [hkeep, List.reverse_append, List.reverse_replicate, List.foldl_append, hup,
    foldl_keep_names hreversed, List.reverse_reverse]

/-- A root in front is never taken back. -/
theorem foldl_keep_root (hroot : .root ∉ components) (hkept : .root ∉ kept) :
    components.foldl keep (kept ++ [.root]) = components.foldl keep kept ++ [.root] := by
  induction components generalizing kept with
  | nil => rfl
  | cons c rest ih =>
    rw [List.mem_cons, not_or] at hroot
    have hkeep : keep (kept ++ [.root]) c = keep kept c ++ [.root] ∧ .root ∉ keep kept c := by
      cases c with
      | root => exact absurd rfl hroot.1
      | current => exact ⟨rfl, hkept⟩
      | name name => exact ⟨rfl, by simpa [keep] using hkept⟩
      | parent =>
        match kept with
        | [] => exact ⟨rfl, by simp [keep]⟩
        | .root :: _ => exact absurd List.mem_cons_self hkept
        | .parent :: _ | .name _ :: _ | .current :: _ =>
          exact ⟨rfl, fun hmem ↦ hkept (List.mem_cons_of_mem _ hmem)⟩
    rw [List.foldl_cons, List.foldl_cons, hkeep.1, ih hroot.2 hkeep.2]

/-- What normalizing keeps of the segments of a text, in order. -/
def normalSegments (t : Text) : List Component :=
  ((segmentSteps t).foldl keep []).reverse

theorem spelled_of_mem_normalSegments {t : Text} {c : Component} (h : c ∈ normalSegments t) :
    Spelled c := by
  obtain ⟨names, ups, hkeep, -, hnames⟩ := exists_foldl_keep_eq (root_notMem_segmentSteps t)
  rw [normalSegments, hkeep, List.mem_reverse, List.mem_append] at h
  rcases h with hname | hup
  · exact spelled_of_mem_segmentSteps (hnames c hname).1
  · rw [List.eq_of_mem_replicate hup]
    exact spelled_parent

theorem foldl_keep_rootStep (t : Text) (hroot : .root ∉ components) :
    (rootStep t ++ components).foldl keep [] = components.foldl keep [] ++ rootStep t := by
  rw [rootStep]
  split
  · exact foldl_keep_root hroot List.not_mem_nil
  · rw [List.nil_append, List.append_nil]

theorem normalize_eq_ofComponents (p : Path) :
    p.normalize = ofComponents (rootStep p.text ++ normalSegments p.text) := by
  have hroot : (rootStep p.text).reverse = rootStep p.text := by
    rw [rootStep]
    split <;> rfl
  rw [normalize_eq, steps_eq, foldl_keep_rootStep _ (root_notMem_segmentSteps _),
    List.reverse_append, hroot, normalSegments]

theorem steps_normalize_eq (p : Path) :
    p.normalize.steps = rootStep p.text ++ normalSegments p.text := by
  have hspelled : ∀ c ∈ normalSegments p.text, Spelled c := fun c hc ↦
    spelled_of_mem_normalSegments hc
  rw [normalize_eq_ofComponents, rootStep]
  split
  · exact steps_ofComponents_root hspelled
  · exact steps_ofComponents hspelled

/-- A normal path is its own normal form. -/
theorem normalize_normalize (p : Path) : p.normalize.normalize = p.normalize := by
  have hroot : .root ∉ normalSegments p.text :=
    fun h ↦ (spelled_of_mem_normalSegments h).ne_root rfl
  rw [normalize_eq p.normalize, steps_normalize_eq, foldl_keep_rootStep _ hroot, normalSegments,
    foldl_keep_reverse (root_notMem_segmentSteps _), normalize_eq p, steps_eq,
    foldl_keep_rootStep _ (root_notMem_segmentSteps _)]

end Path

/-! ## Finding a text -/

namespace Library

variable {inserts before after : List (Path × Text)} {p q : Path} {t : Text}

theorem entries_foldl_insert (l : Library) (inserts : List (Path × Text)) :
    (inserts.foldl (fun l entry ↦ l.insert entry.1 entry.2) l).entries =
      (inserts.map fun entry ↦ (entry.1.normalize, entry.2)).reverse ++ l.entries := by
  induction inserts generalizing l with
  | nil => rfl
  | cons entry rest ih =>
    rw [List.foldl_cons, ih]
    simp [insert]

/-- The latest insert comes first. -/
theorem entries_ofList (inserts : List (Path × Text)) :
    (ofList inserts).entries =
      (inserts.map fun entry ↦ (entry.1.normalize, entry.2)).reverse := by
  rw [ofList, entries_foldl_insert, List.append_nil]

theorem find?_eq_none_iff :
    (ofList inserts).find? p = none ↔ ∀ entry ∈ inserts, entry.1.normalize ≠ p.normalize := by
  rw [find?, entries_ofList, List.lookup_eq_none_iff]
  constructor
  · intro h entry hentry heq
    have hmem := List.mem_reverse.mpr (List.mem_map_of_mem (f := fun entry : Path × Text ↦
      (entry.1.normalize, entry.2)) hentry)
    simpa [heq] using h _ hmem
  · intro h entry hentry
    obtain ⟨inserted, hinserted, rfl⟩ := List.mem_map.mp (List.mem_reverse.mp hentry)
    simpa using (h inserted hinserted).symm

/-- The last insert under a path with the same normal form is found. -/
theorem find?_of_last (hp : q.normalize = p.normalize)
    (hafter : ∀ entry ∈ after, entry.1.normalize ≠ p.normalize) :
    (ofList (before ++ (q, t) :: after)).find? p = some t := by
  rw [find?, entries_ofList, List.lookup_eq_some_iff]
  refine ⟨(after.map fun entry ↦ (entry.1.normalize, entry.2)).reverse,
    (before.map fun entry ↦ (entry.1.normalize, entry.2)).reverse, by simp [hp], ?_⟩
  intro entry hentry
  obtain ⟨inserted, hinserted, rfl⟩ := List.mem_map.mp (List.mem_reverse.mp hentry)
  simpa using (hafter inserted hinserted).symm

theorem load_of_find?_eq_some {l : Library} (h : l.find? p = some t) : l.load p = .ok t := by
  rw [load, h]

theorem load_of_find?_eq_none {l : Library} (h : l.find? p = none) :
    l.load p = .error s!"no such file: {String.ofList p.text}" := by
  rw [load, h]

end Library

/-! ## Imports -/

namespace Builder

variable {settings : Settings} {ctx : Context} {b : Builder} {s : Statement} {target : Text}

/-- Goes on with the text that an import has found. -/
def readImport (b : Builder) (ctx : Context) (path : Path) (source : Text) :
    Except ParseError Step :=
  match Statement.scan source with
  | .error e => .error (.ofScan e)
  | .ok body => .ok (.nested (ctx.enterImport path b.scopes.length) b body)

theorem readImport_ne_notFound (b : Builder) (ctx : Context) (path : Path) (source : Text)
    (reason : String) (s : Statement) :
    b.readImport ctx path source ≠ .error (.ofStatement (.importNotFound path reason) s) := by
  intro h
  unfold readImport at h
  split at h
  · have hfault := congrArg ParseError.fault (Except.error.inj h)
    cases hfault
  · cases h

section Checked

variable {path : Path} (htarget : Directive.importTarget? s.text = some target)
  (hpath : path = (ctx.base.join ⟨target⟩).normalize)
  (hdepth : ctx.imports.length < settings.maxImportDepth) (hcycle : path ∉ ctx.imports)
include htarget hpath hdepth hcycle

theorem importFile_of_load_eq_ok {source : Text} (hload : settings.load path = .ok source) :
    importFile settings b ctx s = b.readImport ctx path source := by
  subst hpath
  rw [importFile, htarget]
  simp only [Nat.not_le.mpr hdepth, List.contains_iff_mem, hcycle, if_false, hload]
  rfl

theorem importFile_of_load_eq_error {reason : String} (hload : settings.load path = .error reason) :
    importFile settings b ctx s = .error (.ofStatement (.importNotFound path reason) s) := by
  subst hpath
  rw [importFile, htarget]
  simp only [Nat.not_le.mpr hdepth, List.contains_iff_mem, hcycle, if_false, hload]

end Checked

end Builder

/-- Normalizing twice is normalizing once. So an import that passes the checks of depth and cycles
finds no text in a library exactly if none was inserted under a path with the normal form of its
own, and otherwise goes on with the one that was inserted last. -/
theorem Library.import_reads_last_insert :
    (∀ p : Path, p.normalize.normalize = p.normalize) ∧
      ∀ (inserts : List (Path × Text)) (limit : Nat) (ctx : Context) (b : Builder) (s : Statement)
        (target : Text) (path : Path), Directive.importTarget? s.text = some target →
        path = (ctx.base.join ⟨target⟩).normalize → ctx.imports.length < limit →
        path ∉ ctx.imports →
        (Builder.importFile ⟨(ofList inserts).load, limit⟩ b ctx s =
            .error (.ofStatement
              (.importNotFound path s!"no such file: {String.ofList path.text}") s) ↔
          ¬∃ entry ∈ inserts, entry.1.normalize = path) ∧
        ∀ before q t after, inserts = before ++ (q, t) :: after → q.normalize = path →
          (∀ entry ∈ after, entry.1.normalize ≠ path) →
          Builder.importFile ⟨(ofList inserts).load, limit⟩ b ctx s = b.readImport ctx path t := by
  refine ⟨Path.normalize_normalize, ?_⟩
  intro inserts limit ctx b s target path htarget hpath hdepth hcycle
  have hnormal : path.normalize = path := hpath ▸ Path.normalize_normalize _
  constructor
  · cases hfind : (ofList inserts).find? path with
    | none =>
      have hload := load_of_find?_eq_none hfind
      rw [Builder.importFile_of_load_eq_error htarget hpath hdepth hcycle hload]
      rw [find?_eq_none_iff, hnormal] at hfind
      exact iff_of_true rfl fun ⟨entry, hentry, heq⟩ ↦ hfind entry hentry heq
    | some t =>
      have hload := load_of_find?_eq_some hfind
      rw [Builder.importFile_of_load_eq_ok htarget hpath hdepth hcycle hload]
      refine iff_of_false (Builder.readImport_ne_notFound b ctx path t _ s) fun hnone ↦ ?_
      have hmissing : (ofList inserts).find? path = none := by
        rw [find?_eq_none_iff, hnormal]
        exact fun entry hentry heq ↦ hnone ⟨entry, hentry, heq⟩
      rw [hfind] at hmissing
      cases hmissing
  · rintro before q t after rfl hq hafter
    have hfind : (ofList (before ++ (q, t) :: after)).find? path = some t :=
      find?_of_last (hq.trans hnormal.symm) (by rwa [hnormal])
    exact Builder.importFile_of_load_eq_ok htarget hpath hdepth hcycle (load_of_find?_eq_some hfind)

/-- The last two inserts are under other spellings of the path that the import asks for. -/
theorem Library.import_reads_last_insert_respelled :
    let inserts : List (Path × Text) := [(⟨"a/c".toList⟩, ['x']),
      (⟨"./a/b/../c".toList⟩, ['p']), (⟨"a//c/.".toList⟩, ['q']), (⟨"c".toList⟩, ['y'])]
    Builder.importFile ⟨(ofList inserts).load, 1⟩ {} { base := ⟨"a/b/".toList⟩ }
        ⟨"@import '../c';".toList, 1⟩ =
      .ok (.nested { base := ⟨['a']⟩, imports := [⟨"a/c".toList⟩] } {} [⟨['q'], 1⟩]) := by
  intro inserts
  obtain ⟨-, himport⟩ := import_reads_last_insert
  have htarget : Directive.importTarget? "@import '../c';".toList = some "../c".toList := by cbv
  have hpath : ⟨"a/c".toList⟩ = (Path.join ⟨"a/b/".toList⟩ ⟨"../c".toList⟩).normalize := by decide
  obtain ⟨-, hlast⟩ := himport inserts 1 { base := ⟨"a/b/".toList⟩ } {}
    ⟨"@import '../c';".toList, 1⟩ "../c".toList ⟨"a/c".toList⟩ htarget hpath (by decide) (by decide)
  rw [hlast [(⟨"a/c".toList⟩, ['x']), (⟨"./a/b/../c".toList⟩, ['p'])] ⟨"a//c/.".toList⟩ ['q']
    [(⟨"c".toList⟩, ['y'])] rfl (by decide) (by decide)]
  cbv

end StyledMarkup
