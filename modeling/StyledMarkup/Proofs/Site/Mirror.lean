import Mathlib
import StyledMarkup.Proofs.Site.Confinement

/-!
# Copying a directory tree

A copy takes the entries of its source one after another and puts each under its name in the target.
As long as neither directory is in the other, what is copied first does not disturb what is copied
later, so the copies of the entries make up a copy of the whole. Main statement: a copy that
succeeds has everything that is below its source, with the same content, and counts the files there;
nothing else has changed, but that directories on the way to the target may be new.
-/

namespace StyledMarkup

namespace FileSystem

/-- The files below a location, by what their locations have after it. -/
def files (fs : FileSystem) (loc : Location) : Set Location :=
  {r | ∃ content, fs.get? (loc ++ r) = some (.file content)}

theorem finite_files (fs : FileSystem) (loc : Location) : (fs.files loc).Finite := by
  have hentries := (fs.entries.map Prod.fst).finite_toSet
  refine (hentries.preimage (List.append_right_injective loc).injOn).subset ?_
  rintro r ⟨content, hget⟩
  have hne : loc ++ r ≠ [] := by
    intro hnil
    rw [hnil] at hget
    cases hget
  exact List.mem_map_of_mem (f := Prod.fst) (mem_of_get? hne hget)

end FileSystem

namespace Site

open FileSystem (IsName IsTree Grows)

/-! ## Locations that are not in each other -/

/-- Neither location is the other or below it. -/
def Separate (src dst : Location) : Prop :=
  ¬src <+: dst ∧ ¬dst <+: src

instance (src dst : Location) : Decidable (Separate src dst) :=
  inferInstanceAs (Decidable (_ ∧ _))

section Separate

variable {src dst : Location} {fs fs' : FileSystem}

theorem Separate.symm (h : Separate src dst) : Separate dst src :=
  ⟨h.2, h.1⟩

theorem Separate.not_isPrefix (h : Separate src dst) (r : Location) : ¬dst <+: src ++ r := by
  intro hbelow
  rcases List.prefix_or_prefix_of_prefix hbelow (List.prefix_append src r) with hdst | hsrc
  · exact h.2 hdst
  · exact h.1 hsrc

theorem Separate.below (h : Separate src dst) (r : Location) : Separate (src ++ r) dst :=
  ⟨fun hsrc ↦ h.1 ((List.prefix_append src r).trans hsrc), h.not_isPrefix r⟩

theorem Confined.get?_source (h : Confined dst fs fs') (hseparate : Separate src dst)
    (r : Location) : fs'.get? (src ++ r) = fs.get? (src ++ r) :=
  h.outside (hseparate.not_isPrefix r)

theorem Confined.files_source (h : Confined dst fs fs') (hseparate : Separate src dst) :
    fs'.files src = fs.files src := by
  simp only [FileSystem.files, h.get?_source hseparate]

end Separate

/-! ## Copies of parts -/

/-- What is below the source in one part of it is below the target as well, and it has this many
files. Nothing else has changed, and files are files still. -/
structure Copies (part : Set Location) (src dst : Location) (count : Nat)
    (fs fs' : FileSystem) : Prop extends Confined dst fs fs' where
  file : ∀ {loc : Location} {content : Bytes}, fs.get? loc = some (.file content) →
    ∃ content', fs'.get? loc = some (.file content')
  mirrored : ∀ {r : Location} {e : Entry}, r ∈ part → fs.get? (src ++ r) = some e →
    fs'.get? (dst ++ r) = some e
  kept : ∀ {loc : Location}, (∀ r ∈ part, loc = dst ++ r → fs.get? (src ++ r) = none) →
    fs'.get? loc = fs.get? loc
  count_eq : count = (fs.files src ∩ part).ncard

/-- The part of a directory that has this name. -/
def named (name : Text) : Set Location :=
  {r | r.head? = some name}

section Copies

variable {part part' : Set Location} {src dst : Location} {count count' : Nat}
  {fs mid fs' made : FileSystem} {name : Text}

theorem copies_nothing (src dst : Location) (fs : FileSystem) : Copies ∅ src dst 0 fs fs :=
  ⟨Confined.refl dst fs, fun hfile ↦ ⟨_, hfile⟩, fun hr ↦ absurd hr (Set.notMem_empty _),
    fun _ ↦ rfl, by simp⟩

/-- Copies of parts that have nothing in common make up a copy of both. -/
theorem Copies.append (hseparate : Separate src dst) (h : Copies part src dst count fs mid)
    (h' : Copies part' src dst count' mid fs') (hdisjoint : ∀ r ∈ part, r ∉ part') :
    Copies (part ∪ part') src dst (count + count') fs fs' := by
  refine ⟨h.toConfined.trans h'.toConfined, fun hfile ↦ ?_, fun {r e} hr hget ↦ ?_,
    fun {loc} hloc ↦ ?_, ?_⟩
  · obtain ⟨content, hmid⟩ := h.file hfile
    exact h'.file hmid
  · rcases hr with hfirst | hsecond
    · rw [h'.kept, h.mirrored hfirst hget]
      intro r' hr' heq
      obtain rfl := List.append_cancel_left heq
      exact absurd hr' (hdisjoint _ hfirst)
    · rw [← h.get?_source hseparate] at hget
      exact h'.mirrored hsecond hget
  · rw [h'.kept, h.kept]
    · exact fun r hr heq ↦ hloc r (Or.inl hr) heq
    · intro r hr heq
      rw [h.get?_source hseparate]
      exact hloc r (Or.inr hr) heq
  · have hfinite := fs.finite_files src
    have hapart : Disjoint (fs.files src ∩ part) (fs.files src ∩ part') :=
      Set.disjoint_left.mpr fun r hr hr' ↦ hdisjoint r hr.2 hr'.2
    rw [h.count_eq, h'.count_eq, h.files_source hseparate, Set.inter_union_distrib_left,
      Set.ncard_union_eq hapart (hfinite.inter_of_left part) (hfinite.inter_of_left part')]

/-- A file is copied when it is put into the target under its name. -/
theorem copies_file {content : Bytes} (hfs : fs.IsTree) (hname : IsName name)
    (hsource : fs.get? (src ++ [name]) = some (.file content))
    (hdirectory : fs.get? dst = some .directory)
    (hnot : fs.get? (dst ++ [name]) ≠ some .directory) :
    Copies (named name) src dst 1 fs (fs.set (dst ++ [name]) (.file content)) := by
  have halone : ∀ {r : Location}, r ∈ named name → (fs.get? (src ++ r)).isSome = true →
      r = [name] := by
    intro r hr hsome
    obtain ⟨more, rfl⟩ := List.head?_eq_some_iff.mp hr
    by_contra hne
    have habove : fs.get? (src ++ [name]) = some .directory :=
      hfs.above (by simpa using hne) (by simpa using hsome)
    rw [hsource] at habove
    cases habove
  refine ⟨confined_set hdirectory List.prefix_rfl hname hnot _, fun {loc c} hfile ↦ ?_,
    fun {r e} hr hget ↦ ?_, fun {loc} hloc ↦ ?_, ?_⟩
  · by_cases heq : loc = dst ++ [name]
    · rw [heq]
      exact ⟨content, FileSystem.get?_set_self fs (by simp) _⟩
    · exact ⟨c, (FileSystem.get?_set_of_ne fs heq _).trans hfile⟩
  · obtain rfl := halone hr (by simp [hget])
    rw [FileSystem.get?_set_self fs (by simp), ← hsource, hget]
  · apply FileSystem.get?_set_of_ne
    rintro rfl
    rw [hloc [name] rfl rfl] at hsource
    cases hsource
  · have hfiles : fs.files src ∩ named name = {[name]} := by
      ext r
      constructor
      · rintro ⟨⟨c, hget⟩, hr⟩
        exact halone hr (by simp [hget])
      · rintro rfl
        exact ⟨⟨content, hsource⟩, rfl⟩
    rw [hfiles, Set.ncard_singleton]

/-- A directory is copied when all that is in it is copied into the directory that is there under
its name in the target or has been made there. -/
theorem Copies.directory {target : Path}
    (h : Copies Set.univ (src ++ [name]) (dst ++ [name]) count made fs')
    (hseparate : Separate src dst) (hname : IsName name)
    (hsource : fs.get? (src ++ [name]) = some .directory) (hopens : fs.OpensAt target dst)
    (hmake : fs.makeDirectories (target.join ⟨name⟩) = (.ok (), made)) :
    Copies (named name) src dst count fs fs' := by
  have hmade : Confined dst fs made := by
    have hlands : Lands dst (target.join ⟨name⟩) fs :=
      Or.inr ⟨target, dst, name, rfl, hname, List.prefix_rfl, hopens⟩
    simpa [hmake] using hlands.confined_makeDirectories
  have hkeeps : ∀ {loc e}, fs.get? loc = some e → made.get? loc = some e := by
    intro loc e hget
    have hkept := (FileSystem.makeDirectories_keeps fs (target.join ⟨name⟩)).2 hget
    rwa [hmake] at hkept
  have hother : ∀ {loc}, loc ≠ dst ++ [name] → made.get? loc = fs.get? loc := by
    intro loc hloc
    rcases hopens.makeDirectories_join_eq_ok hname hmake with ⟨-, rfl⟩ | ⟨-, rfl⟩
    · exact FileSystem.get?_set_of_ne fs hloc _
    · rfl
  refine ⟨hmade.trans (h.toConfined.mono (List.prefix_append dst [name])),
    fun hfile ↦ h.file (hkeeps hfile), fun {r e} hr hget ↦ ?_, fun {loc} hloc ↦ ?_, ?_⟩
  · obtain ⟨more, rfl⟩ := List.head?_eq_some_iff.mp hr
    simpa using h.mirrored (Set.mem_univ more) (by simpa using hkeeps hget)
  · have hne : loc ≠ dst ++ [name] := by
      rintro rfl
      rw [hloc [name] rfl rfl] at hsource
      cases hsource
    rw [h.kept, hother hne]
    intro more _ heq
    have hnone := hloc (name :: more) rfl (by simpa using heq)
    rw [← hmade.get?_source hseparate] at hnone
    simpa using hnone
  · have hfiles : fs.files src ∩ named name = List.cons name '' fs.files (src ++ [name]) := by
      ext r
      constructor
      · rintro ⟨⟨content, hget⟩, hr⟩
        obtain ⟨more, rfl⟩ := List.head?_eq_some_iff.mp hr
        exact ⟨more, ⟨content, by simpa using hget⟩, rfl⟩
      · rintro ⟨more, ⟨content, hget⟩, rfl⟩
        exact ⟨⟨content, by simpa using hget⟩, rfl⟩
    rw [h.count_eq, Set.inter_univ, hmade.files_source (hseparate.below [name]), hfiles,
      Set.ncard_image_of_injective _ List.cons_injective]

end Copies

/-! ## Copying entry by entry -/

section Tree

variable {source target : Path} {src dst : Location} {fs fs' made : FileSystem} {count : Nat}

theorem copyTree_eq_ok (h : copyTree source target fs = (.ok count, fs')) :
    ∃ made entries counts, fs.makeDirectories target = (.ok (), made) ∧
      made.list source = .ok entries ∧
      entries.mapM (copyEntry source target) made = (.ok counts, fs') ∧
      count = counts.foldr (· + ·) 0 := by
  by_cases hlimit : Path.sizeLimit ≤ target.size
  · rw [copyTree_of_sizeLimit_le hlimit] at h
    cases h
  · rw [copyTree_of_size_lt (Nat.not_le.mp hlimit)] at h
    obtain ⟨u, made, hmake, h⟩ := bind_eq_ok_iff.mp h
    obtain ⟨entries, mid, hlook, h⟩ := bind_eq_ok_iff.mp h
    obtain ⟨hlist, rfl⟩ := look_eq_ok_iff.mp hlook
    obtain ⟨counts, last, hcounts, h⟩ := bind_eq_ok_iff.mp h
    obtain ⟨rfl, rfl⟩ := pure_eq_ok_iff.mp h
    exact ⟨made, entries, counts, attempt_eq_ok_iff.mp hmake, hlist, hcounts, rfl⟩

/-- An entry is a directory that is copied like the whole, or it is a file. -/
theorem copyEntry_eq_ok {entry : Text × Entry} (hsource : fs.OpensAt source src)
    (hname : IsName entry.1) (hget : fs.get? (src ++ [entry.1]) = some entry.2)
    (h : copyEntry source target entry fs = (.ok count, fs')) :
    entry.2 = .directory ∧
        copyTree (source.join ⟨entry.1⟩) (target.join ⟨entry.1⟩) fs = (.ok count, fs') ∨
      entry.2 ≠ .directory ∧ count = 1 ∧
        fs.copyFile (source.join ⟨entry.1⟩) (target.join ⟨entry.1⟩) = .ok fs' := by
  have hdirectory := hsource.isDirectory_join hname
  rw [hget, Option.some.injEq] at hdirectory
  rw [copyEntry, Path.fileName?_join source hname] at h
  obtain ⟨isDir, mid, hisDir, h⟩ := bind_eq_ok_iff.mp h
  obtain ⟨hvalue, rfl⟩ := Prod.mk.inj hisDir
  obtain rfl := Except.ok.inj hvalue
  split at h
  · next hdir => exact Or.inl ⟨hdirectory.mp hdir, h⟩
  · next hdir =>
    obtain ⟨u, mid, hchange, h⟩ := bind_eq_ok_iff.mp h
    obtain ⟨rfl, rfl⟩ := pure_eq_ok_iff.mp h
    exact Or.inr ⟨fun heq ↦ hdir (hdirectory.mpr heq), rfl, change_eq_ok_iff.mp hchange⟩

theorem copies_of_copyFile {name : Text} {content : Bytes} (hfs : fs.IsTree)
    (hseparate : Separate src dst) (hsource : fs.OpensAt source src)
    (htarget : fs.OpensAt target dst) (hname : IsName name)
    (hget : fs.get? (src ++ [name]) = some (.file content))
    (h : fs.copyFile (source.join ⟨name⟩) (target.join ⟨name⟩) = .ok fs') :
    Copies (named name) src dst 1 fs fs' := by
  obtain ⟨found, before, copied, hfound, hnot, -, hcopied, rfl⟩ :=
    FileSystem.copyFile_join_eq_ok hname h
  obtain rfl := htarget.unique hfound
  have hemptied : Confined dst fs (fs.set (dst ++ [name]) (.file [])) :=
    confined_set htarget.2 List.prefix_rfl hname hnot _
  have hread := (hemptied.grows.opensAt hsource).readBytes hname
    ((hemptied.get?_source hseparate [name]).trans hget)
  obtain rfl := Except.ok.inj (hread.symm.trans hcopied)
  exact copies_file hfs hname hget htarget.2 hnot

/-- The entries are copied one after another, and none of them disturbs the others. -/
theorem copies_of_mapM {entries : List (Text × Entry)} {counts : List Nat}
    (hseparate : Separate src dst) (hfs : fs.IsTree) (hsource : fs.OpensAt source src)
    (htarget : fs.OpensAt target dst)
    (hentry : ∀ entry ∈ entries, ∀ {mid last : FileSystem} {count : Nat}, mid.IsTree →
      mid.OpensAt source src → mid.OpensAt target dst →
      mid.get? (src ++ [entry.1]) = some entry.2 →
      copyEntry source target entry mid = (.ok count, last) →
      Copies (named entry.1) src dst count mid last)
    (hthere : ∀ entry ∈ entries, fs.get? (src ++ [entry.1]) = some entry.2)
    (hnodup : entries.Pairwise fun a b ↦ a.1 ≠ b.1)
    (h : entries.mapM (copyEntry source target) fs = (.ok counts, fs')) :
    Copies {r | ∃ entry ∈ entries, r ∈ named entry.1} src dst (counts.foldr (· + ·) 0) fs fs' := by
  induction entries generalizing fs counts with
  | nil =>
    obtain ⟨rfl, rfl⟩ := pure_eq_ok_iff.mp h
    simpa using copies_nothing src dst fs
  | cons entry entries ih =>
    obtain ⟨count, mid, counts, hfirst, hrest, rfl⟩ := mapM_cons_eq_ok_iff.mp h
    rw [List.forall_mem_cons] at hentry hthere
    rw [List.pairwise_cons] at hnodup
    have hcopies := hentry.1 hfs hsource htarget hthere.1 hfirst
    have hmore := ih (hcopies.isTree hfs) (hcopies.grows.opensAt hsource)
      (hcopies.grows.opensAt htarget) hentry.2
      (fun other hother ↦ (hcopies.get?_source hseparate _).trans (hthere.2 other hother))
      hnodup.2 hrest
    have hdisjoint : ∀ r ∈ named entry.1, r ∉ {r | ∃ other ∈ entries, r ∈ named other.1} := by
      rintro r hr ⟨other, hother, hr'⟩
      exact hnodup.1 other hother (Option.some.inj (hr.symm.trans hr'))
    have hboth := hcopies.append hseparate hmore hdisjoint
    have hparts : named entry.1 ∪ {r | ∃ other ∈ entries, r ∈ named other.1} =
        {r | ∃ other ∈ entry :: entries, r ∈ named other.1} := by
      ext r
      simp
    rwa [hparts] at hboth

/-- A copy of all entries of a directory is a copy of the whole directory. -/
theorem Copies.whole {entries : List (Text × Entry)} (hfs : fs.IsTree)
    (hsource : fs.get? src = some .directory) (htarget : fs.get? dst = some .directory)
    (hentries : ∀ name e, (name, e) ∈ entries ↔ fs.get? (src ++ [name]) = some e)
    (h : Copies {r | ∃ entry ∈ entries, r ∈ named entry.1} src dst count fs fs') :
    Copies Set.univ src dst count fs fs' := by
  have hpart : ∀ {name : Text} {more : Location}, (fs.get? (src ++ name :: more)).isSome = true →
      name :: more ∈ {r | ∃ entry ∈ entries, r ∈ named entry.1} := by
    intro name more hsome
    have hfirst : (fs.get? (src ++ [name])).isSome = true := by
      by_cases hmore : more = []
      · rwa [hmore] at hsome
      · have habove : fs.get? (src ++ [name]) = some .directory :=
          hfs.above hmore (by simpa using hsome)
        simp [habove]
    obtain ⟨e, he⟩ := Option.isSome_iff_exists.mp hfirst
    exact ⟨(name, e), (hentries name e).mpr he, rfl⟩
  refine ⟨h.toConfined, h.file, fun {r e} _ hget ↦ ?_, fun hloc ↦ h.kept fun r _ ↦ hloc r trivial,
    ?_⟩
  · cases r with
    | nil =>
      rw [List.append_nil] at hget ⊢
      obtain rfl := Option.some.inj (hsource.symm.trans hget)
      exact h.grows.directory htarget
    | cons name more => exact h.mirrored (hpart (by simp [hget])) hget
  · have hfiles : fs.files src ∩ {r | ∃ entry ∈ entries, r ∈ named entry.1} = fs.files src := by
      refine Set.inter_eq_left.mpr ?_
      rintro (_ | ⟨name, more⟩) ⟨content, hget⟩
      · rw [List.append_nil, hsource] at hget
        cases hget
      · exact hpart (by simp [hget])
    rw [h.count_eq, hfiles, Set.inter_univ]

theorem copies_of_copyTree (hfs : fs.IsTree) (hseparate : Separate src dst)
    (hcopy : copyTree source target fs = (.ok count, fs'))
    (hmake : fs.makeDirectories target = (.ok (), made)) (hsource : made.OpensAt source src)
    (htarget : made.OpensAt target dst) : Copies Set.univ src dst count made fs' := by
  induction source, target using copyTree.induct generalizing src dst fs fs' made count with
  | case1 source target hlimit =>
    rw [copyTree_of_sizeLimit_le hlimit] at hcopy
    cases hcopy
  | case2 source target hlimit ih =>
    obtain ⟨made', entries, counts, hmake', hlist, hcounts, rfl⟩ := copyTree_eq_ok hcopy
    obtain rfl : made = made' := congrArg Prod.snd (hmake.symm.trans hmake')
    have hmade : made.IsTree := by simpa [hmake] using hfs.makeDirectories target
    obtain ⟨found, hfound, hmem, hsorted⟩ := hmade.toWellFormed.list_eq_ok hlist
    have hnonempty : source.text ≠ [] := by
      intro hnil
      rw [FileSystem.locateDirectory, FileSystem.locate, if_pos hnil] at hfound
      cases hfound
    obtain rfl := hsource.unique ((FileSystem.locateDirectory_eq_ok_iff hnonempty).mp hfound)
    have hthere : ∀ entry ∈ entries, made.get? (src ++ [entry.1]) = some entry.2 :=
      fun entry hentry ↦ (hmem entry.1 entry.2).mp hentry
    refine Copies.whole hmade hsource.2 htarget.2 hmem ?_
    refine copies_of_mapM hseparate hmade hsource htarget ?_ hthere
      (hsorted.imp fun h ↦ h.1) hcounts
    intro entry hentry mid last count hmid hsource htarget hget h
    have hname : IsName entry.1 :=
      hmade.name_of_get? (hthere entry hentry) entry.1 (by simp)
    rcases copyEntry_eq_ok hsource hname hget h with ⟨hdirectory, htree⟩ | ⟨hnot, rfl, hfile⟩
    · rw [hdirectory] at hget
      obtain ⟨inner, -, -, hinner, -⟩ := copyTree_eq_ok htree
      have hkept := FileSystem.makeDirectories_keeps mid (target.join ⟨entry.1⟩)
      rw [hinner] at hkept
      have hcopies := ih entry.1 entry.1 (Path.fileName?_join source hname) hmid
        ((hseparate.below [entry.1]).symm.below [entry.1]).symm htree hinner
        (hkept.1.opensAt (hsource.join hname hget))
        (htarget.opensAt_of_makeDirectories_join hname hinner)
      exact hcopies.directory hseparate hname hget htarget hinner
    · cases hentryKind : entry.2 with
      | directory => exact absurd hentryKind hnot
      | file content =>
        rw [hentryKind] at hget
        exact copies_of_copyFile hmid hseparate hsource htarget hname hget hfile

section Made

variable (hmake : fs.makeDirectories target = (.ok (), made))
include hmake

theorem files_of_makeDirectories (src : Location) : made.files src = fs.files src := by
  have hkeeps := FileSystem.makeDirectories_keeps fs target
  have hmakes := FileSystem.get?_makeDirectories fs target
  rw [hmake] at hkeeps hmakes
  ext r
  refine exists_congr fun content ↦ ⟨fun hfile ↦ ?_, hkeeps.2⟩
  by_contra hnot
  obtain ⟨-, hdirectory, -⟩ := hmakes (src ++ r) fun heq ↦ hnot (heq ▸ hfile)
  rw [hfile] at hdirectory
  cases hdirectory

/-- What has no counterpart in the source stays as it was before the target was made. A counterpart
that was made with it is a directory, and there is none where the target has a file. -/
theorem Copies.keeps (h : Copies Set.univ src dst count made fs') {loc : Location} {e : Entry}
    (hget : fs.get? loc = some e) (hloc : ∀ r, loc = dst ++ r → fs.get? (src ++ r) = none) :
    fs'.get? loc = some e := by
  have hkeeps := (FileSystem.makeDirectories_keeps fs target).2 hget
  have hmakes := FileSystem.get?_makeDirectories fs target
  rw [hmake] at hkeeps hmakes
  by_cases hcopied : ∃ r, loc = dst ++ r ∧ (made.get? (src ++ r)).isSome = true
  · obtain ⟨r, rfl, hthere⟩ := hcopied
    have hfree := hloc r rfl
    obtain ⟨-, hdirectory, -⟩ := hmakes (src ++ r) fun heq ↦ by simp [heq, hfree] at hthere
    have hmirrored := h.mirrored trivial hdirectory
    cases e with
    | directory => exact hmirrored
    | file content =>
      obtain ⟨content', hfile⟩ := h.file hkeeps
      rw [hmirrored] at hfile
      cases hfile
  · rw [h.kept, hkeeps]
    intro r _ hr
    simpa using fun hsome ↦ hcopied ⟨r, hr, hsome⟩

/-- What is new is a copy or has been made on the way to the target. -/
theorem Copies.adds (h : Copies Set.univ src dst count made fs') {loc : Location}
    (hnone : fs.get? loc = none) (hsome : (fs'.get? loc).isSome = true) :
    (∃ r, loc = dst ++ r ∧ (fs'.get? (src ++ r)).isSome = true) ∨
      fs'.get? loc = some .directory ∧
        ∃ a ∈ target.ancestors, a.text <+: target.text ∧ fs'.locate a = .ok loc := by
  have hmakes := FileSystem.get?_makeDirectories fs target loc
  rw [hmake] at hmakes
  by_cases hcopied : ∃ r, loc = dst ++ r ∧ (made.get? (src ++ r)).isSome = true
  · obtain ⟨r, hr, hthere⟩ := hcopied
    exact Or.inl ⟨r, hr, h.grows.isSome hthere⟩
  · have hkept : fs'.get? loc = made.get? loc := by
      refine h.kept fun r _ hr ↦ ?_
      simpa using fun hsome ↦ hcopied ⟨r, hr, hsome⟩
    obtain ⟨-, hdirectory, a, ha, hfront, hlocate⟩ := hmakes fun heq ↦ by
      simp [hkept, heq, hnone] at hsome
    exact Or.inr ⟨hkept.trans hdirectory, a, ha, hfront, h.grows.locate hlocate⟩

end Made

/-- A copy that succeeds has a directory or a file with the same content wherever its source has
one, and gives the number of files in the source. What has no counterpart in the source stays as it
is. Whatever is new is such a copy, or a directory that was missing on the way to the target. -/
theorem copyTree_mirrors (hfs : fs.IsTree) (hsource : fs.OpensAt source src)
    (hcopy : copyTree source target fs = (.ok count, fs')) :
    ∃ dst, fs'.OpensAt target dst ∧ (Separate src dst →
      (∀ r e, fs.get? (src ++ r) = some e → fs'.get? (dst ++ r) = some e) ∧
      count = (fs.files src).ncard ∧
      (∀ loc e, fs.get? loc = some e → (∀ r, loc = dst ++ r → fs.get? (src ++ r) = none) →
        fs'.get? loc = some e) ∧
      ∀ loc, fs.get? loc = none → (fs'.get? loc).isSome = true →
        (∃ r, loc = dst ++ r ∧ (fs'.get? (src ++ r)).isSome = true) ∨
          fs'.get? loc = some .directory ∧
            ∃ a ∈ target.ancestors, a.text <+: target.text ∧ fs'.locate a = .ok loc) := by
  obtain ⟨made, entries, counts, hmake, -, hcounts, -⟩ := copyTree_eq_ok hcopy
  obtain ⟨dst, htarget⟩ := FileSystem.opensAt_of_makeDirectories hfs.working hmake
  obtain ⟨hgrows, hkeeps⟩ := FileSystem.makeDirectories_keeps fs target
  rw [hmake] at hgrows hkeeps
  have hconfined : Confined dst made (entries.mapM (copyEntry source target) made).2 :=
    confined_mapM fun entry _ mid hmid ↦
      confined_copyEntry (hmid.grows.opensAt htarget) List.prefix_rfl fun _ _ ↦ confined_copyTree
  rw [hcounts] at hconfined
  refine ⟨dst, hconfined.grows.opensAt htarget, fun hseparate ↦ ?_⟩
  have hcopies := copies_of_copyTree hfs hseparate hcopy hmake (hgrows.opensAt hsource) htarget
  refine ⟨fun r e hget ↦ hcopies.mirrored trivial (hkeeps hget), ?_,
    fun loc e hget hloc ↦ hcopies.keeps hmake hget hloc,
    fun loc hnone hsome ↦ hcopies.adds hmake hnone hsome⟩
  rw [hcopies.count_eq, Set.inter_univ, files_of_makeDirectories hmake]

/-- A directory with a file further down, and another one with a file of its own. -/
def shelf : FileSystem :=
  ((((FileSystem.empty.set (["site".toList] ++ [['a']]) .directory).set
    (["site".toList, ['a']] ++ [['b']]) .directory).set
    (["site".toList, ['a'], ['b']] ++ [['x']]) (.file [1])).set
    (["site".toList] ++ [['d']]) .directory).set
    (["site".toList, ['d']] ++ [['z']]) (.file [2])

theorem isTree_shelf : shelf.IsTree := by
  refine IsTree.set (IsTree.set (IsTree.set (IsTree.set (IsTree.set FileSystem.isTree_empty
    ?_ ?_ ?_ _) ?_ ?_ ?_ _) ?_ ?_ ?_ _) ?_ ?_ ?_ _) ?_ ?_ ?_ _ <;> decide

theorem copyTree_mirrors_shelf :
    ∃ fs' dst, copyTree ⟨['a']⟩ ⟨"n/../d".toList⟩ shelf = (.ok 1, fs') ∧
      fs'.OpensAt ⟨"n/../d".toList⟩ dst ∧
      fs'.get? (dst ++ [['b'], ['x']]) = some (.file [1]) ∧
      fs'.get? (dst ++ [['z']]) = some (.file [2]) ∧
      1 = (shelf.files ["site".toList, ['a']]).ncard := by
  have hsource : shelf.OpensAt ⟨['a']⟩ ["site".toList, ['a']] := ⟨by cbv, by decide⟩
  have hcopy : copyTree ⟨['a']⟩ ⟨"n/../d".toList⟩ shelf =
      (.ok 1, ((shelf.set ["site".toList, ['n']] .directory).set
        ["site".toList, ['d'], ['b']] .directory).set
        ["site".toList, ['d'], ['b'], ['x']] (.file [1])) := by
    cbv
  obtain ⟨dst, hopens, hmirrors⟩ := copyTree_mirrors isTree_shelf hsource hcopy
  have htarget : (((shelf.set ["site".toList, ['n']] .directory).set
      ["site".toList, ['d'], ['b']] .directory).set
      ["site".toList, ['d'], ['b'], ['x']] (.file [1])).OpensAt ⟨"n/../d".toList⟩
      ["site".toList, ['d']] := ⟨by cbv, by decide⟩
  obtain rfl := hopens.unique htarget
  obtain ⟨hmirrored, hcount, hkept, -⟩ := hmirrors (by decide)
  refine ⟨_, _, hcopy, hopens, hmirrored _ _ (by decide), hkept _ _ (by decide) fun r hr ↦ ?_,
    hcount⟩
  obtain rfl : [['z']] = r := List.append_cancel_left hr
  decide

end Tree

end Site

end StyledMarkup
