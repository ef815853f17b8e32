import StyledMarkup.Proofs.FileSystem
import StyledMarkup.Site

/-!
# Building one route

A route file is a stem and the extension of routes. Building it compiles the file as it is then, and
writes the page under each of the names that the route has in the output directory. Nothing else
changes, so the output directory stays where it is.
-/

namespace StyledMarkup

open FileSystem (IsName)

/-! ## The end of a path -/

theorem Text.splitAtLast?_eq_some_iff {c : Char} {t before rest : Text} :
    splitAtLast? c t = some (before, rest) ↔ t = before ++ c :: rest ∧ c ∉ rest := by
  simp only [splitAtLast?, Option.map_eq_some_iff, Prod.mk.injEq, Prod.exists,
    splitAt?_eq_some_iff]
  constructor
  · rintro ⟨front, back, ⟨ht, hc⟩, rfl, rfl⟩
    refine ⟨?_, by simpa using hc⟩
    simpa using congrArg List.reverse ht
  · rintro ⟨rfl, hc⟩
    exact ⟨rest.reverse, before.reverse, ⟨by simp, by simpa using hc⟩, by simp, by simp⟩

namespace Path

theorem getLast?_splitOn_append (t u : Text) :
    ((t ++ '/' :: u).splitOn '/').getLast? = (u.splitOn '/').getLast? := by
  rw [List.splitOn_append_cons_self,
    List.getLast?_append_of_ne_nil _ (List.splitOn_ne_nil '/' u)]

theorem fileName?_join (dir : Path) {name : Text} (hname : IsName name) :
    (dir.join ⟨name⟩).fileName? = some name := by
  have hsplit := splitOn_join dir hname.1
  generalize dir.join ⟨name⟩ = p at hsplit
  have hlast : (p.text.splitOn '/').getLast? = some name := by
    rw [hsplit, List.getLast?_concat]
  have hsegments : p.segments.getLast? = some name := by
    unfold segments lead
    split
    · next rest htext =>
      rw [htext] at hlast
      exact (getLast?_splitOn_append [] rest).symm.trans hlast
    · next htext =>
      rw [htext] at hlast
      have hdot : List.splitOn '/' ['.'] = [['.']] := rfl
      rw [hdot, List.getLast?_singleton, Option.some.injEq] at hlast
      rw [← hlast] at hname
      exact absurd hname.2.1 (by decide)
    · next rest htext =>
      rw [htext] at hlast
      have hrest := (getLast?_splitOn_append ['.'] rest).symm.trans hlast
      exact (getLast?_splitOn_append [] rest).trans hrest
    · exact hlast
  obtain ⟨front, hfront⟩ := List.getLast?_eq_some_iff.mp hsegments
  rw [fileName?, lastSegments, hfront, List.reverse_concat,
    List.dropWhile_cons_of_neg (by simp [hname.2.1])]
  exact if_neg hname.2.2

theorem fileName?_of_isName {name : Text} (hname : IsName name) :
    fileName? ⟨name⟩ = some name := by
  have hjoin : Path.empty.join ⟨name⟩ = ⟨name⟩ := by
    rw [join_of_relative hname.1]
    rfl
  rw [← hjoin]
  exact fileName?_join Path.empty hname

end Path

namespace Site

/-! ## Names of routes and pages -/

def routeName (stem : Text) : Text :=
  stem ++ ".cssx".toList

def pageName (stem : Text) : Text :=
  stem ++ ".html".toList

def indexName : Text :=
  "index.html".toList

/-- The stem of a route file. -/
def IsStem (stem : Text) : Prop :=
  stem ≠ [] ∧ '/' ∉ stem

instance (stem : Text) : Decidable (IsStem stem) :=
  inferInstanceAs (Decidable (_ ∧ _))

def routePath (dir : Path) (stem : Text) : Path :=
  dir.join ⟨routeName stem⟩

section Names

variable {stem stem' name : Text} {e : Entry}

theorem isName_append {extension : Text} (hstem : '/' ∉ stem) (hslash : '/' ∉ extension)
    (hlength : 2 < extension.length) : IsName (stem ++ extension) := by
  have hne : ∀ {short : Text}, short.length ≤ 2 → stem ++ extension ≠ short := by
    rintro short hshort rfl
    rw [List.length_append] at hshort
    omega
  refine ⟨?_, ?_, hne (Nat.le_refl 2)⟩
  · rw [List.mem_append, not_or]
    exact ⟨hstem, hslash⟩
  · rw [Path.isIdle, Bool.or_eq_false_iff, beq_eq_false_iff_ne, beq_eq_false_iff_ne]
    exact ⟨hne (by decide), hne (by decide)⟩

theorem IsStem.isName_routeName (h : IsStem stem) : IsName (routeName stem) :=
  isName_append h.2 (by decide) (by decide)

theorem IsStem.isName_pageName (h : IsStem stem) : IsName (pageName stem) :=
  isName_append h.2 (by decide) (by decide)

theorem isName_indexName : IsName indexName := by
  decide

theorem routeName_inj : routeName stem = routeName stem' ↔ stem = stem' :=
  List.append_left_inj _

theorem pageName_inj : pageName stem = pageName stem' ↔ stem = stem' :=
  List.append_left_inj _

theorem pageName_index : pageName "index".toList = indexName :=
  rfl

theorem stemAndExtension?_of_fileName? {p : Path} (hstem : stem ≠ [])
    (h : p.fileName? = some (routeName stem)) :
    p.stemAndExtension? = some (stem, some "cssx".toList) := by
  have hsplit : Text.splitAtLast? '.' (routeName stem) = some (stem, "cssx".toList) :=
    Text.splitAtLast?_eq_some_iff.mpr ⟨rfl, by decide⟩
  obtain ⟨c, rest, rfl⟩ := List.exists_cons_of_ne_nil hstem
  rw [Path.stemAndExtension?, h, Option.map_some, hsplit]

theorem IsStem.stem?_routePath (h : IsStem stem) (dir : Path) :
    (routePath dir stem).stem? = some stem := by
  have hname := Path.fileName?_join dir h.isName_routeName
  rw [Path.stem?, routePath, stemAndExtension?_of_fileName? h.1 hname]
  rfl

theorem IsStem.stem?_routeName (h : IsStem stem) : Path.stem? ⟨routeName stem⟩ = some stem := by
  have hname := Path.fileName?_of_isName h.isName_routeName
  rw [Path.stem?, stemAndExtension?_of_fileName? h.1 hname]
  rfl

/-- The stem of a name. -/
def stemOf (name : Text) : Text :=
  (Path.stem? ⟨name⟩).getD []

theorem IsStem.stemOf_routeName (h : IsStem stem) : stemOf (routeName stem) = stem := by
  rw [stemOf, h.stem?_routeName, Option.getD_some]

/-- A route is a file with the extension of routes after a stem. -/
theorem isRoute_iff (hname : IsName name) :
    isRoute name e = true ↔
      ∃ stem content, IsStem stem ∧ name = routeName stem ∧ e = .file content := by
  constructor
  · intro h
    cases e with
    | directory => cases h
    | file content =>
      rw [isRoute, beq_iff_eq, Path.extension?, Path.stemAndExtension?,
        Path.fileName?_of_isName hname, Option.map_some, Option.bind_some] at h
      split at h
      · next c stem extension hsplit =>
        obtain rfl := Option.some.inj h
        obtain ⟨hname', -⟩ := Text.splitAtLast?_eq_some_iff.mp hsplit
        refine ⟨c :: stem, content, ⟨List.cons_ne_nil c stem, fun hslash ↦ hname.1 ?_⟩, hname', rfl⟩
        rw [hname']
        exact List.mem_append_left _ hslash
      · cases h
  · rintro ⟨stem, content, hstem, rfl, rfl⟩
    have hfile := Path.fileName?_of_isName hstem.isName_routeName
    rw [isRoute, Path.extension?, stemAndExtension?_of_fileName? hstem.1 hfile]
    rfl

end Names

/-! ## Steps that succeed -/

section Build

variable {α β : Type} {fs fs' : FileSystem} {p : Path}

theorem bind_apply (x : Build α) (f : α → Build β) (fs : FileSystem) :
    (x >>= f) fs =
      match x fs with
      | (.ok a, mid) => f a mid
      | (.error e, mid) => (.error e, mid) := by
  simp only [bind, ExceptT.bind, ExceptT.mk, StateT.bind]
  rcases x fs with ⟨e | a, mid⟩ <;> rfl

theorem bind_eq_ok_iff {x : Build α} {f : α → Build β} {b : β} :
    (x >>= f) fs = (.ok b, fs') ↔
      ∃ a mid, x fs = (.ok a, mid) ∧ f a mid = (.ok b, fs') := by
  rw [bind_apply]
  constructor
  · intro h
    rcases hx : x fs with ⟨e | a, mid⟩
    · rw [hx] at h
      cases h
    · rw [hx] at h
      exact ⟨a, mid, rfl, h⟩
  · rintro ⟨a, mid, hx, hf⟩
    rwa [hx]

theorem pure_eq_ok_iff {a b : α} : (pure a : Build α) fs = (.ok b, fs') ↔ a = b ∧ fs = fs' := by
  show (Except.ok a, fs) = (Except.ok b, fs') ↔ _
  simp

theorem look_eq_ok_iff {f : FileSystem → Except IoError α} {a : α} :
    look p f fs = (.ok a, fs') ↔ f fs = .ok a ∧ fs = fs' := by
  show ((f fs).mapError (BuildError.io p), fs) = (Except.ok a, fs') ↔ _
  cases f fs <;> simp [Except.mapError]

/-- Looking something up and going on without a change changes nothing. -/
theorem look_bind_snd {f : FileSystem → Except IoError α} {g : α → Build β}
    (hg : ∀ a fs, (g a fs).2 = fs) (fs : FileSystem) : ((look p f >>= g) fs).2 = fs := by
  rw [bind_apply]
  rcases hlook : look p f fs with ⟨e | a, mid⟩
  · exact (congrArg Prod.snd hlook).symm
  · exact (hg a mid).trans (congrArg Prod.snd hlook).symm

theorem attempt_eq_ok_iff {f : FileSystem → Except IoError Unit × FileSystem} {u : Unit} :
    attempt p f fs = (.ok u, fs') ↔ f fs = (.ok (), fs') := by
  show ((f fs).1.mapError (BuildError.io p), (f fs).2) = (Except.ok u, fs') ↔ _
  rcases f fs with ⟨e | a, changed⟩ <;> simp [Except.mapError]

theorem change_eq_ok_iff {f : FileSystem → Except IoError FileSystem} {u : Unit} :
    change p f fs = (.ok u, fs') ↔ f fs = .ok fs' := by
  rw [change, attempt_eq_ok_iff]
  cases f fs <;> simp

theorem mapM_cons_eq_ok_iff {f : α → Build β} {a : α} {as : List α} {bs : List β} :
    (a :: as).mapM f fs = (.ok bs, fs') ↔
      ∃ b mid bs', f a fs = (.ok b, mid) ∧ as.mapM f mid = (.ok bs', fs') ∧ bs = b :: bs' := by
  rw [List.mapM_cons, bind_eq_ok_iff]
  constructor
  · rintro ⟨b, mid, hb, hrest⟩
    obtain ⟨bs', last, hbs', hlast⟩ := bind_eq_ok_iff.mp hrest
    obtain ⟨rfl, rfl⟩ := pure_eq_ok_iff.mp hlast
    exact ⟨b, mid, bs', hb, hbs', rfl⟩
  · rintro ⟨b, mid, bs', hb, hbs', rfl⟩
    exact ⟨b, mid, hb, bind_eq_ok_iff.mpr ⟨bs', fs', hbs', pure_eq_ok_iff.mpr ⟨rfl, rfl⟩⟩⟩

theorem mapM_append_eq_ok {f : α → Build β} {as as' : List α} {bs : List β}
    (h : (as ++ as').mapM f fs = (.ok bs, fs')) :
    ∃ bs₁ mid bs₂, as.mapM f fs = (.ok bs₁, mid) ∧ as'.mapM f mid = (.ok bs₂, fs') := by
  rw [List.mapM_append] at h
  obtain ⟨bs₁, mid, hfirst, hrest⟩ := bind_eq_ok_iff.mp h
  obtain ⟨bs₂, last, hsecond, hlast⟩ := bind_eq_ok_iff.mp hrest
  obtain ⟨-, rfl⟩ := pure_eq_ok_iff.mp hlast
  exact ⟨bs₁, mid, bs₂, hfirst, hsecond⟩

end Build

theorem loadTemplate_keeps {fs fs' : FileSystem} {p : Path} {template : Text}
    (h : loadTemplate p fs = (.ok template, fs')) : fs = fs' :=
  congrArg Prod.snd h

/-! ## The routes of a directory -/

/-- The directory holds a route file with this stem. -/
def HasRoute (fs : FileSystem) (dir : Path) (stem : Text) : Prop :=
  ∃ entries name e, fs.list dir = .ok entries ∧ (name, e) ∈ entries ∧ isRoute name e = true ∧
    Path.stem? ⟨name⟩ = some stem

theorem routeFiles_snd (dir : Path) (fs : FileSystem) : (routeFiles dir fs).2 = fs :=
  look_bind_snd (fun _ _ ↦ rfl) fs

/-- The routes of a directory are its route files, once each and in the order of their names. -/
theorem routeFiles_eq_ok {fs fs' : FileSystem} {dir : Path} {routes : List Path}
    (hfs : fs.WellFormed) (h : routeFiles dir fs = (.ok routes, fs')) :
    fs = fs' ∧ ∃ stems : List Text, routes = stems.map (routePath dir) ∧
      (∀ stem ∈ stems, IsStem stem) ∧
      stems.Pairwise (fun s t ↦ s ≠ t ∧ Text.le (routeName s) (routeName t) = true) ∧
      ∀ stem, HasRoute fs dir stem ↔ stem ∈ stems := by
  obtain ⟨entries, mid, hlook, hlast⟩ := bind_eq_ok_iff.mp h
  obtain ⟨hlist, rfl⟩ := look_eq_ok_iff.mp hlook
  obtain ⟨rfl, rfl⟩ := pure_eq_ok_iff.mp hlast
  obtain ⟨loc, -, hmem, hsorted⟩ := hfs.list_eq_ok hlist
  have hroute : ∀ entry ∈ entries.filter (fun entry ↦ isRoute entry.1 entry.2),
      IsStem (stemOf entry.1) ∧ routeName (stemOf entry.1) = entry.1 ∧
        Path.stem? ⟨entry.1⟩ = some (stemOf entry.1) := by
    rintro ⟨name, e⟩ hentry
    obtain ⟨hentry, hisRoute⟩ := List.mem_filter.mp hentry
    have hname : IsName name := hfs.name_of_get? ((hmem name e).mp hentry) name (by simp)
    obtain ⟨stem, content, hstem, rfl, -⟩ := (isRoute_iff hname).mp hisRoute
    rw [hstem.stemOf_routeName]
    exact ⟨hstem, rfl, hstem.stem?_routeName⟩
  refine ⟨rfl, (entries.filter fun entry ↦ isRoute entry.1 entry.2).map fun entry ↦ stemOf entry.1,
    ?_, ?_, ?_, ?_⟩
  · rw [List.map_map]
    refine List.map_congr_left fun entry hentry ↦ ?_
    rw [Function.comp_apply, routePath, (hroute entry hentry).2.1]
  · intro stem hstem
    obtain ⟨entry, hentry, rfl⟩ := List.mem_map.mp hstem
    exact (hroute entry hentry).1
  · rw [List.pairwise_map]
    refine (hsorted.filter _).imp_of_mem fun {a b} ha hb ⟨hne, hle⟩ ↦ ?_
    rw [(hroute a ha).2.1, (hroute b hb).2.1]
    refine ⟨fun hstems ↦ hne ?_, hle⟩
    rw [← (hroute a ha).2.1, ← (hroute b hb).2.1, hstems]
  · intro stem
    constructor
    · rintro ⟨entries', name, e, hlist', hentry, hisRoute, hstem⟩
      obtain rfl := Except.ok.inj (hlist.symm.trans hlist')
      refine List.mem_map.mpr ⟨(name, e), List.mem_filter.mpr ⟨hentry, hisRoute⟩, ?_⟩
      rw [stemOf, hstem, Option.getD_some]
    · intro hstem
      obtain ⟨⟨name, e⟩, hentry, rfl⟩ := List.mem_map.mp hstem
      obtain ⟨hmem, hisRoute⟩ := List.mem_filter.mp hentry
      exact ⟨entries, name, e, hlist, hmem, hisRoute, (hroute (name, e) hentry).2.2⟩

/-! ## Writing the page of a route -/

/-- The names of the pages that are written for a route. -/
def pageNames (config : Config) (stem : Text) : List Text :=
  pageName stem :: if stem = config.defaultRouteName then [indexName] else []

/-- The second file system is the first with the content under each of the names. -/
structure Writes (loc : Location) (names : List Text) (content : Bytes)
    (fs fs' : FileSystem) : Prop where
  grows : FileSystem.Grows fs fs'
  written : ∀ name ∈ names, fs'.get? (loc ++ [name]) = some (.file content)
  kept : ∀ {other : Location}, (∀ name ∈ names, other ≠ loc ++ [name]) →
    fs'.get? other = fs.get? other

section Writes

variable {fs fs' fs'' : FileSystem} {loc : Location} {names names' : List Text} {name : Text}
  {content : Bytes}

theorem writes_set (h : fs.get? (loc ++ [name]) ≠ some .directory) (content : Bytes) :
    Writes loc [name] content fs (fs.set (loc ++ [name]) (.file content)) := by
  refine ⟨FileSystem.grows_set h _, ?_, fun {other} hother ↦ ?_⟩
  · simp
  · exact FileSystem.get?_set_of_ne fs (hother name List.mem_cons_self) _

theorem Writes.append (h : Writes loc names content fs fs')
    (h' : Writes loc names' content fs' fs'') : Writes loc (names ++ names') content fs fs'' := by
  refine ⟨h.grows.trans h'.grows, fun name hname ↦ ?_, fun {other} hother ↦ ?_⟩
  · by_cases hagain : name ∈ names'
    · exact h'.written name hagain
    · have hfirst : name ∈ names := (List.mem_append.mp hname).resolve_right hagain
      rw [h'.kept, h.written name hfirst]
      rintro name' hname' heq
      obtain rfl : name = name' := by simpa using heq
      exact hagain hname'
  · rw [h'.kept fun name hname ↦ hother name (List.mem_append_right _ hname),
      h.kept fun name hname ↦ hother name (List.mem_append_left _ hname)]

theorem writePage_eq_ok {dir p : Path} {page : Text} (hname : IsName name)
    (h : writePage (dir.join ⟨name⟩) page fs = (.ok p, fs')) :
    p = dir.join ⟨name⟩ ∧ ∃ loc, fs.OpensAt dir loc ∧
      Writes loc [name] (Text.encode page) fs fs' := by
  obtain ⟨u, mid, hchange, hlast⟩ := bind_eq_ok_iff.mp h
  obtain ⟨rfl, rfl⟩ := pure_eq_ok_iff.mp hlast
  obtain ⟨loc, hopens, hnot, rfl⟩ :=
    FileSystem.writeFile_join_eq_ok hname (change_eq_ok_iff.mp hchange)
  exact ⟨rfl, loc, hopens, writes_set hnot _⟩

end Writes

section Route

variable {fs fs' : FileSystem} {config : Config} {options : Options} {template : Text}
  {out dir : Path} {stem : Text} {pages : List Path}

theorem compileRoute_snd (options : Options) (route : Path) (fs : FileSystem) :
    (compileRoute options route fs).2 = fs :=
  look_bind_snd (fun _ _ ↦ rfl) fs

theorem compileRoute_keeps {route : Path} {output : Output}
    (h : compileRoute options route fs = (.ok output, fs')) : fs = fs' :=
  (compileRoute_snd options route fs).symm.trans (congrArg Prod.snd h)

/-- A route that is built has its page under each of its names. -/
theorem buildRoute_eq_ok (hstem : IsStem stem)
    (h : buildRoute config options template out (routePath dir stem) fs = (.ok pages, fs')) :
    ∃ output loc, compileRoute options (routePath dir stem) fs = (.ok output, fs) ∧
      fs.OpensAt out loc ∧
      Writes loc (pageNames config stem)
        (Text.encode (Page.inject template output.html output.css)) fs fs' ∧
      pages = (pageNames config stem).map fun name ↦ out.join ⟨name⟩ := by
  obtain ⟨output, mid, hcompile, hrest⟩ := bind_eq_ok_iff.mp h
  obtain rfl := compileRoute_keeps hcompile
  rw [hstem.stem?_routePath, Option.getD_some] at hrest
  obtain ⟨own, mid, hown, hrest⟩ := bind_eq_ok_iff.mp hrest
  obtain ⟨rfl, loc, hopens, hwrites⟩ := writePage_eq_ok hstem.isName_pageName hown
  refine ⟨output, loc, hcompile, hopens, ?_⟩
  rw [pageNames]
  split at hrest
  · next hdefault =>
    obtain ⟨index, last, hindex, hlast⟩ := bind_eq_ok_iff.mp hrest
    obtain ⟨rfl, rfl⟩ := pure_eq_ok_iff.mp hlast
    obtain ⟨rfl, loc', hopens', hwrites'⟩ := writePage_eq_ok isName_indexName hindex
    obtain rfl := (hwrites.grows.opensAt hopens).unique hopens'
    rw [if_pos hdefault]
    exact ⟨hwrites.append hwrites', rfl⟩
  · next hdefault =>
    obtain ⟨rfl, rfl⟩ := pure_eq_ok_iff.mp hrest
    rw [if_neg hdefault]
    exact ⟨hwrites, rfl⟩

end Route

end Site

end StyledMarkup
