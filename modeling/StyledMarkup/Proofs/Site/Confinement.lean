import Mathlib
import StyledMarkup.Proofs.FileSystem.Directory
import StyledMarkup.Proofs.Site.Route

/-!
# What a build can change

Once the output directory is there, every step of a build makes directories and writes files under
names in it or in directories below it, whether the step succeeds or not. Nothing is ever taken
away, so the path of the output directory keeps leading to the same place. Main statement: whatever
a build changes, and however it ends, is the output directory or below it, or else a directory that
was missing on the way to it.
-/

namespace StyledMarkup.Site

open FileSystem (IsName IsTree Grows)

/-! ## Changes below a directory -/

/-- The second file system has grown out of the first, and nothing has changed but at a location or
below it. -/
structure Confined (dst : Location) (fs fs' : FileSystem) : Prop where
  grows : Grows fs fs'
  isTree : fs.IsTree → fs'.IsTree
  outside : ∀ {loc : Location}, ¬dst <+: loc → fs'.get? loc = fs.get? loc

section Confined

variable {α β : Type} {dst loc : Location} {fs mid fs' : FileSystem} {p dir : Path} {name : Text}
  {content : Bytes}

theorem Confined.refl (dst : Location) (fs : FileSystem) : Confined dst fs fs :=
  ⟨Grows.refl fs, id, fun _ ↦ rfl⟩

theorem Confined.of_eq (h : fs' = fs) : Confined dst fs fs' :=
  h ▸ Confined.refl dst fs'

theorem Confined.trans (h : Confined dst fs mid) (h' : Confined dst mid fs') :
    Confined dst fs fs' :=
  ⟨h.grows.trans h'.grows, fun hfs ↦ h'.isTree (h.isTree hfs),
    fun hloc ↦ (h'.outside hloc).trans (h.outside hloc)⟩

/-- What is confined to a place below is confined. -/
theorem Confined.mono (h : Confined loc fs fs') (hbelow : dst <+: loc) : Confined dst fs fs' :=
  ⟨h.grows, h.isTree, fun hother ↦ h.outside fun hloc ↦ hother (hbelow.trans hloc)⟩

theorem confined_set (hdirectory : fs.get? loc = some .directory) (hbelow : dst <+: loc)
    (hname : IsName name) (hnot : fs.get? (loc ++ [name]) ≠ some .directory) (e : Entry) :
    Confined dst fs (fs.set (loc ++ [name]) e) := by
  refine ⟨FileSystem.grows_set hnot e, fun hfs ↦ hfs.set hdirectory hname hnot e,
    fun {other} hother ↦ FileSystem.get?_set_of_ne fs ?_ e⟩
  rintro rfl
  exact hother (hbelow.trans (List.prefix_append loc [name]))

theorem confined_writeFile (hopens : fs.OpensAt dir loc) (hbelow : dst <+: loc)
    (hname : IsName name) (h : fs.writeFile (dir.join ⟨name⟩) content = .ok fs') :
    Confined dst fs fs' := by
  obtain ⟨found, hfound, hnot, rfl⟩ := FileSystem.writeFile_join_eq_ok hname h
  obtain rfl := hopens.unique hfound
  exact confined_set hopens.2 hbelow hname hnot _

theorem confined_copyFile {source : Path} (hopens : fs.OpensAt dir loc) (hbelow : dst <+: loc)
    (hname : IsName name) (h : fs.copyFile source (dir.join ⟨name⟩) = .ok fs') :
    Confined dst fs fs' := by
  obtain ⟨found, before, copied, hfound, hnot, -, -, rfl⟩ := FileSystem.copyFile_join_eq_ok hname h
  obtain rfl := hopens.unique hfound
  exact confined_set hopens.2 hbelow hname hnot _

/-! ## Steps one after another -/

theorem Confined.bind {x : Build α} {f : α → Build β} (hx : Confined dst fs (x fs).2)
    (hf : ∀ a mid, x fs = (.ok a, mid) → Confined dst mid (f a mid).2) :
    Confined dst fs ((x >>= f) fs).2 := by
  rw [bind_apply]
  rcases hresult : x fs with ⟨e | a, mid⟩
  · rwa [hresult] at hx
  · rw [hresult] at hx
    exact hx.trans (hf a mid hresult)

/-- Steps that are confined wherever the ones before them lead are confined together. -/
theorem confined_mapM {f : α → Build β} {as : List α}
    (hf : ∀ a ∈ as, ∀ mid, Confined dst fs mid → Confined dst mid (f a mid).2) :
    Confined dst fs (as.mapM f fs).2 := by
  induction as generalizing fs with
  | nil => exact Confined.refl dst fs
  | cons a as ih =>
    rw [List.forall_mem_cons] at hf
    have hfirst : Confined dst fs (f a fs).2 := hf.1 fs (Confined.refl dst fs)
    rw [List.mapM_cons]
    refine hfirst.bind fun b mid hmid ↦ ?_
    rw [hmid] at hfirst
    have hrest : Confined dst mid (as.mapM f mid).2 :=
      ih fun a' ha' last hlast ↦ hf.2 a' ha' last (hfirst.trans hlast)
    exact hrest.bind fun bs last _ ↦ Confined.refl dst last

theorem confined_change {f : FileSystem → Except IoError FileSystem}
    (h : ∀ fs', f fs = .ok fs' → Confined dst fs fs') : Confined dst fs (change p f fs).2 := by
  cases hf : f fs with
  | error e => exact Confined.of_eq (by simp [change, attempt, hf])
  | ok changed =>
    have hchanged : (change p f fs).2 = changed := by simp [change, attempt, hf]
    rw [hchanged]
    exact h changed hf

end Confined

/-! ## Pages -/

section Pages

variable {dst loc : Location} {fs fs' : FileSystem} {config : Config} {options : Options}
  {template : Text} {out dir : Path} {name stem page : Text}

theorem confined_writePage (hopens : fs.OpensAt out dst) (hname : IsName name) :
    Confined dst fs (writePage (out.join ⟨name⟩) page fs).2 := by
  have hwrite : Confined dst fs (change (out.join ⟨name⟩)
      (fun fs ↦ fs.writeFile (out.join ⟨name⟩) (Text.encode page)) fs).2 :=
    confined_change fun fs' h ↦ confined_writeFile hopens List.prefix_rfl hname h
  exact hwrite.bind fun _ mid _ ↦ Confined.refl dst mid

theorem confined_buildRoute (hopens : fs.OpensAt out dst) (hstem : IsStem stem) :
    Confined dst fs (buildRoute config options template out (routePath dir stem) fs).2 := by
  have hcompile := compileRoute_snd options (routePath dir stem) fs
  refine (Confined.of_eq hcompile).bind fun output mid hmid ↦ ?_
  obtain rfl := compileRoute_keeps hmid
  rw [hstem.stem?_routePath, Option.getD_some]
  have hown : Confined dst fs (writePage (out.join ⟨stem ++ ".html".toList⟩)
      (Page.inject template output.html output.css) fs).2 :=
    confined_writePage hopens hstem.isName_pageName
  refine hown.bind fun own mid hmid ↦ ?_
  rw [hmid] at hown
  split
  · have hindex : Confined dst mid (writePage (out.join ⟨indexName⟩)
        (Page.inject template output.html output.css) mid).2 :=
      confined_writePage (hown.grows.opensAt hopens) isName_indexName
    exact hindex.bind fun index last _ ↦ Confined.refl dst last
  · exact Confined.refl dst mid

end Pages

/-! ## Assets -/

/-- Copies one entry of a directory. -/
def copyEntry (source target : Path) (entry : Text × Entry) : Build Nat :=
  let path := source.join ⟨entry.1⟩
  match path.fileName? with
  | none => return 0
  | some name => do
    if ← isDirectory path then copyTree path (target.join ⟨name⟩)
    else
      change path fun fs ↦ fs.copyFile path (target.join ⟨name⟩)
      return 1

theorem copyTree_of_sizeLimit_le {source target : Path} (h : Path.sizeLimit ≤ target.size) :
    copyTree source target = throw (.io target .nameTooLong) := by
  rw [copyTree, dif_pos h]

theorem copyTree_of_size_lt {source target : Path} (h : target.size < Path.sizeLimit) :
    copyTree source target = do
      attempt target fun fs ↦ fs.makeDirectories target
      let entries ← look source fun fs ↦ fs.list source
      let counts ← entries.mapM (copyEntry source target)
      return counts.foldr (· + ·) 0 := by
  rw [copyTree, dif_neg (Nat.not_le.mpr h)]
  congr
  funext u
  congr
  funext entries
  congr
  funext ⟨name, e⟩
  rw [copyEntry]
  dsimp only
  split <;> split <;> simp_all

/-- The path leads to a location or below it, or it is a name in a directory there. -/
def Lands (dst : Location) (p : Path) (fs : FileSystem) : Prop :=
  (∃ loc, dst <+: loc ∧ fs.OpensAt p loc) ∨
    ∃ dir loc name, p = dir.join ⟨name⟩ ∧ IsName name ∧ dst <+: loc ∧ fs.OpensAt dir loc

section Assets

variable {dst loc : Location} {fs made : FileSystem} {source target : Path}

theorem Lands.confined_makeDirectories (h : Lands dst target fs) :
    Confined dst fs (fs.makeDirectories target).2 := by
  rcases h with ⟨loc, -, hopens⟩ | ⟨dir, loc, name, rfl, hname, hbelow, hopens⟩
  · rw [hopens.makeDirectories]
    exact Confined.refl dst fs
  · rw [hopens.makeDirectories_join hname]
    split
    · next hfree => exact confined_set hopens.2 hbelow hname (by simp [hfree]) _
    · exact Confined.refl dst fs
    · exact Confined.refl dst fs

theorem Lands.opensAt_of_makeDirectories (h : Lands dst target fs)
    (hmade : fs.makeDirectories target = (.ok (), made)) :
    ∃ loc, dst <+: loc ∧ made.OpensAt target loc := by
  rcases h with ⟨loc, hbelow, hopens⟩ | ⟨dir, loc, name, rfl, hname, hbelow, hopens⟩
  · obtain rfl : fs = made := by simpa [hopens.makeDirectories] using hmade
    exact ⟨loc, hbelow, hopens⟩
  · exact ⟨loc ++ [name], hbelow.trans (List.prefix_append loc [name]),
      hopens.opensAt_of_makeDirectories_join hname hmade⟩

theorem confined_copyEntry {entry : Text × Entry} (hopens : fs.OpensAt target loc)
    (hbelow : dst <+: loc)
    (htree : ∀ name, (source.join ⟨entry.1⟩).fileName? = some name →
      Lands dst (target.join ⟨name⟩) fs →
      Confined dst fs (copyTree (source.join ⟨entry.1⟩) (target.join ⟨name⟩) fs).2) :
    Confined dst fs (copyEntry source target entry fs).2 := by
  cases hfile : (source.join ⟨entry.1⟩).fileName? with
  | none =>
    rw [copyEntry, hfile]
    exact Confined.refl dst fs
  | some name =>
    rw [copyEntry, hfile]
    have hname : IsName name := Path.name_of_fileName? hfile
    refine Confined.bind (Confined.refl dst fs) fun isDir same hsame ↦ ?_
    obtain rfl : fs = same := congrArg Prod.snd hsame
    split
    · exact htree name hfile (Or.inr ⟨target, loc, name, rfl, hname, hbelow, hopens⟩)
    · have hcopy : Confined dst fs (change (source.join ⟨entry.1⟩)
          (fun fs ↦ fs.copyFile (source.join ⟨entry.1⟩) (target.join ⟨name⟩)) fs).2 :=
        confined_change fun copied hcopied ↦ confined_copyFile hopens hbelow hname hcopied
      exact hcopy.bind fun u last _ ↦ Confined.refl dst last

/-- A copy changes nothing but what its target leads to and what is below. -/
theorem confined_copyTree (h : Lands dst target fs) :
    Confined dst fs (copyTree source target fs).2 := by
  induction source, target using copyTree.induct generalizing fs with
  | case1 source target hlimit =>
    rw [copyTree_of_sizeLimit_le hlimit]
    exact Confined.refl dst fs
  | case2 source target hlimit ih =>
    rw [copyTree_of_size_lt (Nat.not_le.mp hlimit)]
    have hmake : Confined dst fs (attempt target (fun fs ↦ fs.makeDirectories target) fs).2 :=
      h.confined_makeDirectories
    refine hmake.bind fun u made hmade ↦ ?_
    obtain ⟨loc, hbelow, hopens⟩ := h.opensAt_of_makeDirectories (attempt_eq_ok_iff.mp hmade)
    refine Confined.bind (Confined.refl dst made) fun entries listed hlisted ↦ ?_
    obtain ⟨-, rfl⟩ := look_eq_ok_iff.mp hlisted
    refine Confined.bind ?_ fun counts last _ ↦ Confined.refl dst last
    exact confined_mapM fun entry _ mid hmid ↦
      confined_copyEntry (hmid.grows.opensAt hopens) hbelow fun name hfile ↦
        ih entry.1 name hfile

end Assets

/-! ## Whole builds -/

section Whole

variable {dst loc : Location} {fs fs' : FileSystem} {root out : Path} {config : Config}
  {options : Options} {template : Text} {outcome : Except BuildError (List Path)}

/-- The part of a build that comes after the output directory has been made. -/
def buildInto (root : Path) (config : Config) (options : Options) (template : Text) (out : Path) :
    Build (List Path) := do
  let routes ← routeFiles (root.join config.routeDir)
  let written ← routes.mapM (buildRoute config options template out)
  match config.assetsDir with
  | none => pure ()
  | some assets =>
    let source := root.join assets
    let _ ← copyTree source (out.join ⟨source.fileName?.getD []⟩)
  return written.flatten

/-- A build ends before anything is made, while the output directory is made, or after that. -/
theorem build_cases (h : build root config options fs = (outcome, fs')) :
    fs' = fs ∨ fs' = (fs.makeDirectories (root.join config.outputDir)).2 ∨
      ∃ template made, fs.makeDirectories (root.join config.outputDir) = (.ok (), made) ∧
        buildInto root config options template (root.join config.outputDir) made =
          (outcome, fs') := by
  have hbuild : build root config options = (do
      let template ← loadTemplate (root.join config.template)
      let out := root.join config.outputDir
      attempt out fun fs ↦ fs.makeDirectories out
      buildInto root config options template out) := rfl
  rw [hbuild, bind_apply] at h
  split at h
  · next template mid htemplate =>
    obtain rfl := loadTemplate_keeps htemplate
    rw [bind_apply] at h
    split at h
    · next u made hmade => exact Or.inr (Or.inr ⟨template, made, attempt_eq_ok_iff.mp hmade, h⟩)
    · next e made hmade =>
      obtain rfl := (Prod.mk.inj h).2
      exact Or.inr (Or.inl (congrArg Prod.snd hmade).symm)
  · next e mid htemplate =>
    obtain rfl := (Prod.mk.inj h).2
    exact Or.inl (congrArg Prod.snd htemplate).symm

theorem lands_join_fileName (hopens : fs.OpensAt out dst) (source : Path) :
    Lands dst (out.join ⟨source.fileName?.getD []⟩) fs := by
  cases hfile : source.fileName? with
  | none => exact Or.inl ⟨dst, List.prefix_rfl, FileSystem.opensAt_join_empty_iff.mpr hopens⟩
  | some name =>
    exact Or.inr ⟨out, dst, name, rfl, Path.name_of_fileName? hfile, List.prefix_rfl, hopens⟩

theorem confined_buildInto (hfs : fs.IsTree) (hopens : fs.OpensAt out dst) :
    Confined dst fs (buildInto root config options template out fs).2 := by
  have hroutes := routeFiles_snd (root.join config.routeDir) fs
  refine (Confined.of_eq hroutes).bind fun routes listed hlisted ↦ ?_
  obtain ⟨rfl, stems, rfl, hstems, -⟩ := routeFiles_eq_ok hfs.toWellFormed hlisted
  have hpages : Confined dst fs ((stems.map (routePath (root.join config.routeDir))).mapM
      (buildRoute config options template out) fs).2 := by
    refine confined_mapM fun route hroute mid hmid ↦ ?_
    obtain ⟨stem, hstem, rfl⟩ := List.mem_map.mp hroute
    exact confined_buildRoute (hmid.grows.opensAt hopens) (hstems stem hstem)
  refine hpages.bind fun written mid hmid ↦ ?_
  rw [hmid] at hpages
  have hthere : mid.OpensAt out dst := hpages.grows.opensAt hopens
  cases config.assetsDir with
  | none => exact Confined.refl dst mid
  | some assets =>
    have hcopy : Confined dst mid (copyTree (root.join assets)
        (out.join ⟨(root.join assets).fileName?.getD []⟩) mid).2 :=
      confined_copyTree (lands_join_fileName hthere (root.join assets))
    exact hcopy.bind fun count last _ ↦ Confined.refl dst last

/-- Whatever a build changes, and however it ends, is the output directory or below it, or else it
is a directory that was missing on the way to it. -/
theorem changes_of_build (hfs : fs.IsTree) (hbuild : build root config options fs = (outcome, fs'))
    (hchanged : fs'.get? loc ≠ fs.get? loc) :
    (∃ dst, fs'.OpensAt (root.join config.outputDir) dst ∧ dst <+: loc) ∨
      fs.get? loc = none ∧ fs'.get? loc = some .directory ∧
        ∃ a ∈ (root.join config.outputDir).ancestors,
          a.text <+: (root.join config.outputDir).text ∧ fs'.locate a = .ok loc := by
  rcases build_cases hbuild with rfl | rfl | ⟨template, made, hmade, hinto⟩
  · exact absurd rfl hchanged
  · exact Or.inr (FileSystem.get?_makeDirectories fs _ loc hchanged)
  · obtain ⟨dst, hopens⟩ := FileSystem.opensAt_of_makeDirectories hfs.working hmade
    have htree : made.IsTree := by
      simpa [hmade] using hfs.makeDirectories (root.join config.outputDir)
    have hconfined : Confined dst made (buildInto root config options template
        (root.join config.outputDir) made).2 := confined_buildInto htree hopens
    rw [hinto] at hconfined
    by_cases hbelow : dst <+: loc
    · exact Or.inl ⟨dst, hconfined.grows.opensAt hopens, hbelow⟩
    · rw [hconfined.outside hbelow] at hchanged ⊢
      have hmakes := FileSystem.get?_makeDirectories fs (root.join config.outputDir) loc
      rw [hmade] at hmakes
      obtain ⟨hnone, hdirectory, a, ha, hfront, hlocate⟩ := hmakes hchanged
      exact Or.inr ⟨hnone, hdirectory, a, ha, hfront, hconfined.grows.locate hlocate⟩

/-- The way to the output directory leads through a directory that is missing. -/
def detour : Config :=
  { outputDir := ⟨"x/../out".toList⟩ }

theorem changes_of_build_detour :
    ∃ e fs', build Path.empty detour {} FileSystem.empty = (.error e, fs') ∧
      fs'.get? ["site".toList, ['x']] = some .directory ∧
      ((∃ dst, fs'.OpensAt (Path.empty.join detour.outputDir) dst ∧
          dst <+: ["site".toList, ['x']]) ∨
        FileSystem.empty.get? ["site".toList, ['x']] = none ∧
          fs'.get? ["site".toList, ['x']] = some .directory ∧
          ∃ a ∈ (Path.empty.join detour.outputDir).ancestors,
            a.text <+: (Path.empty.join detour.outputDir).text ∧
              fs'.locate a = .ok ["site".toList, ['x']]) := by
  have hbuild : build Path.empty detour {} FileSystem.empty =
      (.error (.io ⟨"./routes".toList⟩ .notFound),
        (FileSystem.empty.set ["site".toList, ['x']] .directory).set ["site".toList, "out".toList]
          .directory) := by
    cbv
  have hmade : ((FileSystem.empty.set ["site".toList, ['x']] .directory).set
      ["site".toList, "out".toList] .directory).get? ["site".toList, ['x']] = some .directory := by
    decide
  have hchanged : ((FileSystem.empty.set ["site".toList, ['x']] .directory).set
      ["site".toList, "out".toList] .directory).get? ["site".toList, ['x']] ≠
      FileSystem.empty.get? ["site".toList, ['x']] := by
    decide
  exact ⟨_, _, hbuild, hmade, changes_of_build FileSystem.isTree_empty hbuild hchanged⟩

end Whole

end StyledMarkup.Site
