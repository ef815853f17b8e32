import StyledMarkup.Proofs.FileSystem

/-!
# Where directories are made

Making a directory makes what is missing on the way to it, as the path is written: every directory
that is made lies where some front part of the path leads afterwards. A path that leads to a
directory already is left as it is. When the making succeeds, the path leads to a directory.
-/

namespace StyledMarkup

/-! ## Paths on the way -/

namespace Path

theorem text_eq_lead (p : Path) :
    p.text = (p.lead.1.map Component.text).getD [] ++ p.lead.2 := by
  unfold lead
  split
  · next rest htext => exact htext
  · next htext => exact htext
  · next rest htext => exact htext
  · rfl

theorem intercalate_isPrefix (sep : Text) {front all : List Text} (h : front <+: all) :
    sep.intercalate front <+: sep.intercalate all := by
  induction front generalizing all with
  | nil => exact List.nil_prefix
  | cons first front ih =>
    obtain ⟨back, rfl⟩ := h
    cases front with
    | nil =>
      cases back with
      | nil => exact List.prefix_rfl
      | cons next back => simp [List.intercalate_cons_cons]
    | cons second front =>
      have hrest := ih (List.prefix_append (second :: front) back)
      simp only [List.cons_append, List.intercalate_cons_cons] at hrest ⊢
      simpa [List.prefix_append_right_inj] using hrest

theorem isPrefix_of_parent? {p q : Path} (h : p.parent? = some q) : q.text <+: p.text := by
  unfold parent? at h
  dsimp only at h
  split at h
  · next last earlier hlast =>
    obtain rfl := Option.some.inj h
    have hsuffix : earlier.dropWhile isIdle <:+ p.segments.reverse := by
      have hfound : last :: earlier <:+ p.segments.reverse := by
        rw [← hlast]
        exact List.dropWhile_suffix isIdle
      exact (List.dropWhile_suffix isIdle).trans ((List.suffix_cons last earlier).trans hfound)
    have hfront : (earlier.dropWhile isIdle).reverse <+: p.segments := by
      simpa using List.reverse_prefix.mpr hsuffix
    have hjoined := intercalate_isPrefix ['/'] hfront
    rw [segments, List.intercalate_splitOn] at hjoined
    rw [text_eq_lead p]
    exact List.prefix_append_right_inj _ |>.mpr hjoined
  · split at h
    · obtain rfl := Option.some.inj h
      exact List.nil_prefix
    · cases h

/-- What is above a path is written as a front part of it. -/
theorem isPrefix_of_mem_ancestors {p a : Path} (h : a ∈ p.ancestors) : a.text <+: p.text := by
  have hwithin : ∀ bound p, a ∈ ancestorsWithin bound p → a.text <+: p.text := by
    intro bound
    induction bound with
    | zero =>
      intro p h
      cases h
    | succ bound ih =>
      intro p h
      rw [ancestorsWithin] at h
      rcases List.mem_cons.mp h with rfl | habove
      · exact List.prefix_rfl
      · cases hparent : p.parent? with
        | none =>
          rw [hparent] at habove
          cases habove
        | some q =>
          rw [hparent] at habove
          exact (ih q habove).trans (isPrefix_of_parent? hparent)
  exact hwithin _ p h

end Path

namespace FileSystem

variable {fs fs' : FileSystem} {loc : Location} {p dir : Path} {name : Text}

/-! ## File trees -/

/-- Every entry is in a directory, and so is the work. -/
structure IsTree (fs : FileSystem) : Prop extends fs.WellFormed where
  parent : ∀ {loc : Location} {name : Text},
    (fs.get? (loc ++ [name])).isSome = true → fs.get? loc = some .directory
  working : fs.get? fs.workingDirectory = some .directory

theorem isTree_empty : FileSystem.empty.IsTree := by
  refine ⟨⟨by decide, by decide⟩, fun {loc name} hsome ↦ ?_, rfl⟩
  obtain ⟨e, he⟩ := Option.isSome_iff_exists.mp hsome
  have hmem := mem_of_get? (by simp) he
  have hsite : loc ++ [name] = [] ++ ["site".toList] :=
    congrArg Prod.fst (List.mem_singleton.mp hmem)
  obtain ⟨rfl, -⟩ := List.append_inj' hsite rfl
  rfl

/-- What has something below it is a directory. -/
theorem IsTree.above (hfs : fs.IsTree) {rest : Location} (hrest : rest ≠ [])
    (hsome : (fs.get? (loc ++ rest)).isSome = true) : fs.get? loc = some .directory := by
  induction rest generalizing loc with
  | nil => exact absurd rfl hrest
  | cons name more ih =>
    apply hfs.parent
    by_cases hmore : more = []
    · rwa [hmore] at hsome
    · have hdirectory : fs.get? (loc ++ [name]) = some .directory := ih hmore (by simpa using hsome)
      simp [hdirectory]

theorem IsTree.set (hfs : fs.IsTree) (hdirectory : fs.get? loc = some .directory)
    (hname : IsName name) (hnot : fs.get? (loc ++ [name]) ≠ some .directory) (e : Entry) :
    (fs.set (loc ++ [name]) e).IsTree := by
  have hgrows : Grows fs (fs.set (loc ++ [name]) e) := grows_set hnot e
  have hnames : ∀ n ∈ loc ++ [name], IsName n := by
    intro n hn
    rcases List.mem_append.mp hn with hold | hnew
    · exact hfs.name_of_get? hdirectory n hold
    · rwa [List.mem_singleton.mp hnew]
  refine ⟨hfs.toWellFormed.set hnames e, fun {other n} hsome ↦ ?_, hgrows.directory hfs.working⟩
  by_cases heq : other ++ [n] = loc ++ [name]
  · obtain ⟨rfl, -⟩ := List.append_inj' heq rfl
    exact hgrows.directory hdirectory
  · rw [get?_set_of_ne fs heq] at hsome
    exact hgrows.directory (hfs.parent hsome)

theorem IsTree.makeDirectories (hfs : fs.IsTree) (p : Path) : (fs.makeDirectories p).2.IsTree :=
  makeChain_keeps (P := IsTree)
    (fun hdirectory hname hfree hfs ↦ hfs.set hdirectory hname (by simp [hfree]) _) _ hfs

/-! ## Paths that lead to directories -/

theorem opensAt_iff_locate (hp : p.text ≠ []) :
    fs.OpensAt p loc ↔ fs.locate p = .ok loc ∧ fs.get? loc = some .directory := by
  rw [OpensAt, locate, if_neg hp, Path.inside,
    Path.join_of_relative (q := Path.empty) List.not_mem_nil]
  cases hslash : p.text.endsWith '/' with
  | true =>
    obtain ⟨front, hfront⟩ := Text.endsWith_iff.mp hslash
    have hsplit : (front ++ ['/']).splitOn '/' = front.splitOn '/' ++ [[]] :=
      List.splitOn_append_cons_self _ _
    have hwalk : fs.walk (fs.start p) (front.splitOn '/' ++ [[]]) = .ok loc ↔
        fs.walk (fs.start p) (front.splitOn '/') = .ok loc ∧ fs.get? loc = some .directory :=
      containing_eq_ok_iff
    simp [hfront, Path.empty, hsplit, hwalk]
  | false =>
    have hsplit : (p.text ++ ['/']).splitOn '/' = p.text.splitOn '/' ++ [[]] :=
      List.splitOn_append_cons_self _ _
    simp [hp, Path.empty, hsplit]

theorem isDirectory_iff (hp : p.text ≠ []) :
    fs.isDirectory p = true ↔ ∃ loc, fs.OpensAt p loc := by
  rw [isDirectory, beq_iff_eq, find?]
  simp only [opensAt_iff_locate hp]
  cases fs.locate p with
  | error e => simp
  | ok loc => simp

theorem locateDirectory_eq_ok_iff (hp : p.text ≠ []) :
    fs.locateDirectory p = .ok loc ↔ fs.OpensAt p loc := by
  rw [opensAt_iff_locate hp, locateDirectory]
  cases fs.locate p with
  | error e => simp
  | ok found =>
    dsimp only
    rw [Except.ok.injEq, enter_nil_eq_ok_iff]
    exact and_congr_right fun heq ↦ heq ▸ Iff.rfl

/-- The empty path leads to the working directory when a name is put behind it. -/
theorem opensAt_empty (hp : p.text = [])
    (hdirectory : fs.get? fs.workingDirectory = some .directory) :
    fs.OpensAt p fs.workingDirectory := by
  obtain rfl : p = Path.empty := congrArg Path.mk hp
  exact ⟨rfl, hdirectory⟩

/-- A slash at the end does not change where a directory is. -/
theorem opensAt_join_empty_iff : fs.OpensAt (dir.join Path.empty) loc ↔ fs.OpensAt dir loc := by
  have hslash : (dir.join Path.empty).text = [] ∨
      (dir.join Path.empty).text.endsWith '/' = true := by
    rw [Path.join_of_relative (q := Path.empty) List.not_mem_nil]
    split
    · next hplain => simpa [Path.empty] using hplain
    · exact Or.inr (Text.endsWith_iff.mpr ⟨dir.text, rfl⟩)
  have hagain : (dir.join Path.empty).join Path.empty = dir.join Path.empty := by
    rw [Path.join_of_relative (q := Path.empty) List.not_mem_nil, if_pos hslash]
    exact congrArg Path.mk (List.append_nil _)
  have hinside : (dir.join Path.empty).inside = dir.inside := by
    rw [Path.inside, hagain, Path.inside]
  rw [OpensAt, OpensAt, hinside, Path.empty, start_join fs dir List.not_mem_nil]

section Join

variable (hopens : fs.OpensAt dir loc) (hname : IsName name)
include hopens hname

theorem OpensAt.join (hget : fs.get? (loc ++ [name]) = some .directory) :
    fs.OpensAt (dir.join ⟨name⟩) (loc ++ [name]) := by
  rw [opensAt_iff_locate (Path.join_ne_nil dir hname)]
  exact ⟨hopens.locate_join hname (by simp [hget]), hget⟩

theorem OpensAt.of_join {found : Location} (hjoin : fs.OpensAt (dir.join ⟨name⟩) found) :
    found = loc ++ [name] := by
  rw [opensAt_iff_locate (Path.join_ne_nil dir hname), locate,
    if_neg (Path.join_ne_nil dir hname), Path.splitOn_join dir hname.1, start_join fs dir hname.1,
    walk_append_eq_ok_iff] at hjoin
  obtain ⟨⟨mid, hmid, hlast⟩, -⟩ := hjoin
  obtain rfl := Except.ok.inj (hopens.1.symm.trans hmid)
  obtain ⟨next, henter, hnext⟩ := walk_cons_eq_ok_iff.mp hlast
  obtain rfl := Except.ok.inj hnext
  rw [enter_of_directory name hopens.2, if_neg (by simp [hname.2.1]), if_neg hname.2.2] at henter
  split at henter
  · exact (Except.ok.inj henter).symm
  · cases henter

theorem OpensAt.isDirectory_join :
    fs.isDirectory (dir.join ⟨name⟩) = true ↔ fs.get? (loc ++ [name]) = some .directory := by
  rw [isDirectory_iff (Path.join_ne_nil dir hname)]
  constructor
  · rintro ⟨found, hjoin⟩
    rw [← hopens.of_join hname hjoin]
    exact hjoin.2
  · exact fun hget ↦ ⟨_, hopens.join hname hget⟩

end Join

/-! ## Making a directory -/

theorem makeDirectories_of_text_eq_nil (hp : p.text = []) :
    fs.makeDirectories p = (.ok (), fs) := by
  rw [makeDirectories, Path.ancestors, Path.ancestorsWithin, makeChain, if_pos hp]

theorem makeDirectories_of_makeDirectory {made : FileSystem} (h : fs.makeDirectory p = .ok made) :
    fs.makeDirectories p = (.ok (), made) := by
  have hp : p.text ≠ [] := by
    intro hnil
    rw [makeDirectory, hnil] at h
    cases h
  rw [makeDirectories, Path.ancestors, Path.ancestorsWithin, makeChain, if_neg hp, h]

theorem makeDirectories_of_fileExists (h : fs.makeDirectory p = .error .fileExists) :
    fs.makeDirectories p = (if fs.isDirectory p then .ok () else .error .fileExists, fs) := by
  have hp : p.text ≠ [] := by
    intro hnil
    rw [makeDirectory, hnil] at h
    cases h
  rw [makeDirectories, Path.ancestors, Path.ancestorsWithin, makeChain, if_neg hp, h]

/-- A directory that is there cannot be made. -/
theorem OpensAt.makeDirectory (hopens : fs.OpensAt p loc) (hp : p.text ≠ []) :
    fs.makeDirectory p = .error .fileExists := by
  obtain ⟨hlocate, -⟩ := (opensAt_iff_locate hp).mp hopens
  rw [locate, if_neg hp] at hlocate
  rw [FileSystem.makeDirectory]
  split
  · rw [if_neg hp]
  · next last before hsegments =>
    obtain ⟨slashes, hslashes, -, hne⟩ := exists_splitOn_eq hsegments
    rw [hslashes, walk_append_eq_ok_iff] at hlocate
    obtain ⟨mid, hwalk, hlast⟩ := hlocate
    obtain ⟨next, henter, -⟩ := walk_cons_eq_ok_iff.mp hlast
    have hdirectory := directory_of_enter henter
    rw [containing_eq_ok_iff.mpr ⟨hwalk, hdirectory⟩]
    rw [enter_of_directory last hdirectory] at henter
    have hthere : last = ['.'] ∨ last = ['.', '.'] ∨ (fs.get? (mid ++ [last])).isSome = true := by
      split at henter
      · next hidle => simp_all [Path.isIdle]
      · split at henter
        · next hdots => exact Or.inr (Or.inl hdots)
        · split at henter
          · next hsome => exact Or.inr (Or.inr hsome)
          · cases henter
    exact if_pos hthere

/-- Nothing is made where a directory is. -/
theorem OpensAt.makeDirectories (hopens : fs.OpensAt p loc) :
    fs.makeDirectories p = (.ok (), fs) := by
  by_cases hp : p.text = []
  · exact makeDirectories_of_text_eq_nil hp
  · rw [makeDirectories_of_fileExists (hopens.makeDirectory hp),
      if_pos ((isDirectory_iff hp).mpr ⟨loc, hopens⟩)]

theorem OpensAt.makeDirectory_join (hopens : fs.OpensAt dir loc) (hname : IsName name) :
    fs.makeDirectory (dir.join ⟨name⟩) =
      if (fs.get? (loc ++ [name])).isSome then .error .fileExists
      else .ok (fs.set (loc ++ [name]) .directory) := by
  have hcontaining : fs.containing (dir.join ⟨name⟩) dir.inside = .ok loc := by
    rw [containing_eq_ok_iff, start_join fs dir hname.1]
    exact hopens
  have hne : name ≠ [] := by
    rintro rfl
    exact absurd hname.2.1 (by decide)
  have hdot : name ≠ ['.'] := by
    rintro rfl
    exact absurd hname.2.1 (by decide)
  rw [FileSystem.makeDirectory, Path.splitOn_join dir hname.1, List.reverse_concat,
    List.dropWhile_cons_of_neg (by simpa using hne)]
  dsimp only
  rw [List.reverse_reverse, hcontaining]
  simp [hdot, hname.2.2]

/-- Making directories for a name in a directory makes that one, unless something has the name. -/
theorem OpensAt.makeDirectories_join (hopens : fs.OpensAt dir loc) (hname : IsName name) :
    fs.makeDirectories (dir.join ⟨name⟩) =
      match fs.get? (loc ++ [name]) with
      | none => (.ok (), fs.set (loc ++ [name]) .directory)
      | some .directory => (.ok (), fs)
      | some (.file _) => (.error .fileExists, fs) := by
  have hmake := hopens.makeDirectory_join hname
  cases hget : fs.get? (loc ++ [name]) with
  | none =>
    rw [hget] at hmake
    exact makeDirectories_of_makeDirectory hmake
  | some e =>
    rw [hget] at hmake
    rw [makeDirectories_of_fileExists hmake]
    have hdirectory := hopens.isDirectory_join hname
    rw [hget] at hdirectory
    cases e with
    | directory => rw [if_pos (hdirectory.mpr rfl)]
    | file content =>
      rw [if_neg]
      intro hd
      cases hdirectory.mp hd

theorem OpensAt.makeDirectories_join_eq_ok {made : FileSystem} (hopens : fs.OpensAt dir loc)
    (hname : IsName name) (h : fs.makeDirectories (dir.join ⟨name⟩) = (.ok (), made)) :
    fs.get? (loc ++ [name]) = none ∧ made = fs.set (loc ++ [name]) .directory ∨
      fs.get? (loc ++ [name]) = some .directory ∧ made = fs := by
  rw [hopens.makeDirectories_join hname] at h
  split at h
  · next hfree => exact Or.inl ⟨hfree, (Prod.mk.inj h).2.symm⟩
  · next hdirectory => exact Or.inr ⟨hdirectory, (Prod.mk.inj h).2.symm⟩
  · cases h

theorem OpensAt.opensAt_of_makeDirectories_join {made : FileSystem} (hopens : fs.OpensAt dir loc)
    (hname : IsName name) (h : fs.makeDirectories (dir.join ⟨name⟩) = (.ok (), made)) :
    made.OpensAt (dir.join ⟨name⟩) (loc ++ [name]) := by
  rcases hopens.makeDirectories_join_eq_ok hname h with ⟨hfree, rfl⟩ | ⟨hdirectory, rfl⟩
  · have hgrows : Grows fs (fs.set (loc ++ [name]) .directory) := grows_set (by simp [hfree]) _
    exact (hgrows.opensAt hopens).join hname (get?_set_self fs (by simp) _)
  · exact hopens.join hname hdirectory

/-- A path leads to a directory when the making has succeeded. -/
theorem opensAt_of_makeDirectories {made : FileSystem}
    (hworking : fs.get? fs.workingDirectory = some .directory)
    (h : fs.makeDirectories p = (.ok (), made)) : ∃ loc, made.OpensAt p loc := by
  have hleads : ∀ {fs made : FileSystem}, p.text ≠ [] → fs.makeDirectory p = .ok made →
      ∃ loc, made.OpensAt p loc := by
    intro fs made hp hmade
    obtain ⟨loc, name, -, -, -, rfl, hlocate⟩ := makeDirectory_eq_ok hmade
    exact ⟨_, (opensAt_iff_locate hp).mpr ⟨hlocate, get?_set_self fs (by simp) _⟩⟩
  have hthere : ∀ {fs : FileSystem} {e : IoError}, p.text ≠ [] →
      (if fs.isDirectory p then Except.ok () else .error e) = .ok () → ∃ loc, fs.OpensAt p loc := by
    intro fs e hp hdirectory
    split at hdirectory
    · next hd => exact (isDirectory_iff hp).mp hd
    · cases hdirectory
  by_cases hp : p.text = []
  · rw [makeDirectories_of_text_eq_nil hp] at h
    obtain rfl : fs = made := congrArg Prod.snd h
    exact ⟨_, opensAt_empty hp hworking⟩
  · rw [FileSystem.makeDirectories, Path.ancestors, Path.ancestorsWithin, makeChain, if_neg hp] at h
    split at h
    · next made' hmade =>
      obtain rfl : made' = made := congrArg Prod.snd h
      exact hleads hp hmade
    · split at h
      · cases h
      · next above habove =>
        split at h
        · next made' hmade =>
          obtain rfl : made' = made := congrArg Prod.snd h
          exact hleads hp hmade
        · obtain ⟨hok, rfl⟩ := Prod.mk.inj h
          exact hthere hp hok
    · obtain ⟨hok, rfl⟩ := Prod.mk.inj h
      exact hthere hp hok

/-- What is made are directories where nothing was, and front parts of the path lead to them. -/
theorem get?_makeDirectories (fs : FileSystem) (p : Path) (loc : Location)
    (h : (fs.makeDirectories p).2.get? loc ≠ fs.get? loc) :
    fs.get? loc = none ∧ (fs.makeDirectories p).2.get? loc = some .directory ∧
      ∃ a ∈ p.ancestors, a.text <+: p.text ∧ (fs.makeDirectories p).2.locate a = .ok loc := by
  refine (makeChain_induction (P := fun made ↦ Grows fs made ∧
    ∀ loc, made.get? loc ≠ fs.get? loc → fs.get? loc = none ∧ made.get? loc = some .directory ∧
      ∃ a ∈ p.ancestors, a.text <+: p.text ∧ made.locate a = .ok loc) ?_
    ⟨Grows.refl fs, fun loc hloc ↦ absurd rfl hloc⟩).2 loc h
  intro a ha made made' hmade ⟨hgrows, hmakes⟩
  obtain ⟨dir, name, -, -, hfree, rfl, hlocate⟩ := makeDirectory_eq_ok hmade
  have hstep : Grows made (made.set (dir ++ [name]) .directory) := grows_set (by simp [hfree]) _
  refine ⟨hgrows.trans hstep, fun loc hloc ↦ ?_⟩
  by_cases heq : loc = dir ++ [name]
  · subst heq
    have hnone : fs.get? (dir ++ [name]) = none := by
      by_contra hsome
      have := hgrows.isSome (Option.isSome_iff_ne_none.mpr hsome)
      simp [hfree] at this
    exact ⟨hnone, get?_set_self made (by simp) _, a, ha, Path.isPrefix_of_mem_ancestors ha, hlocate⟩
  · rw [get?_set_of_ne made heq] at hloc ⊢
    obtain ⟨hnone, hdirectory, b, hb, hfront, hlocateb⟩ := hmakes loc hloc
    exact ⟨hnone, hdirectory, b, hb, hfront, hstep.locate hlocateb⟩

end FileSystem

end StyledMarkup
