import Mathlib.Data.List.Pairwise
import StyledMarkup.Proofs.Page
import StyledMarkup.Proofs.Recompile
import StyledMarkup.Proofs.Site.Route

/-!
# The index page of a site

The pages of a site are written in the order of the names of their routes, each under the stem of
its route, and the page of the default route is written once more as the index page. A route whose
own page is the index page is written to the same place. So the index page is the page of whichever
of the two comes last, and no page is listed twice exactly if there is no such route.
-/

namespace StyledMarkup.Site

open FileSystem (IsName)

/-! ## Names of pages -/

section Names

variable {config : Config} {stem name : Text} {stems : List Text}

theorem mem_pageNames_iff :
    name ∈ pageNames config stem ↔
      name = pageName stem ∨ (stem = config.defaultRouteName ∧ name = indexName) := by
  rw [pageNames, List.mem_cons]
  split
  · next hdefault => simp [hdefault]
  · next hdefault => simp [hdefault]

theorem indexName_mem_pageNames_iff :
    indexName ∈ pageNames config stem ↔ stem = "index".toList ∨ stem = config.defaultRouteName := by
  rw [mem_pageNames_iff, ← pageName_index, pageName_inj]
  simp [eq_comm]

theorem IsStem.isName_of_mem (hstem : IsStem stem) (h : name ∈ pageNames config stem) :
    IsName name := by
  rcases mem_pageNames_iff.mp h with rfl | ⟨-, rfl⟩
  · exact hstem.isName_pageName
  · exact isName_indexName

/-- No page name is given twice exactly if the default route alone gives the index page. -/
theorem nodup_pageNames_iff (hnodup : stems.Nodup) (hdefault : config.defaultRouteName ∈ stems) :
    (stems.flatMap (pageNames config)).Nodup ↔ "index".toList ∉ stems := by
  rw [List.nodup_flatMap]
  constructor
  · rintro ⟨hown, hapart⟩ hindex
    by_cases heq : "index".toList = config.defaultRouteName
    · have hnames := hown _ hindex
      rw [pageNames, if_pos heq, pageName_index] at hnames
      simp at hnames
    · have hsymm : Std.Symm (Function.onFun List.Disjoint (pageNames config)) :=
        ⟨fun _ _ h name hname hname' ↦ h hname' hname⟩
      exact hapart.forall hindex hdefault heq
        (indexName_mem_pageNames_iff.mpr (Or.inl rfl))
        (indexName_mem_pageNames_iff.mpr (Or.inr rfl))
  · intro hindex
    have hne : ∀ s ∈ stems, pageName s ≠ indexName := by
      rintro s hs heq
      rw [← pageName_index, pageName_inj] at heq
      exact hindex (heq ▸ hs)
    constructor
    · intro s hs
      rw [pageNames]
      split
      · simp [hne s hs]
      · simp
    · refine hnodup.imp_of_mem fun {s t} hs ht hst name hname hname' ↦ ?_
      rcases mem_pageNames_iff.mp hname with rfl | ⟨rfl, rfl⟩
      · rcases mem_pageNames_iff.mp hname' with heq | ⟨-, heq⟩
        · exact hst (pageName_inj.mp heq)
        · exact hne s hs heq
      · rcases mem_pageNames_iff.mp hname' with heq | ⟨rfl, -⟩
        · exact hne t ht heq.symm
        · exact hst rfl

theorem components_join_inj {out : Path} {name' : Text} (hname : IsName name)
    (hname' : IsName name')
    (h : (out.join ⟨name⟩).components = (out.join ⟨name'⟩).components) : name = name' := by
  have hsteps : ∀ {name : Text}, IsName name →
      (out.join ⟨name⟩).steps = out.steps ++ [.name name] := by
    intro name hname
    have hrelative : Path.isAbsolute ⟨name⟩ = false := by
      rw [Path.isAbsolute, beq_eq_false_iff_ne]
      exact fun hhead ↦ hname.1 (List.mem_of_head? hhead)
    rw [Path.steps_join hrelative, Path.segmentSteps, List.splitOn_eq_singleton hname.1,
      List.filterMap_cons, Path.segment?, if_neg (by simp [hname.2.1]), if_neg hname.2.2]
    rfl
  have heq : (out.join ⟨name⟩).steps = (out.join ⟨name'⟩).steps := by
    rw [Path.steps, Path.steps, h]
  rw [hsteps hname, hsteps hname'] at heq
  simpa using heq

end Names

/-! ## Building route after route -/

section Routes

variable {fs fs' : FileSystem} {config : Config} {options : Options} {template : Text}
  {out dir : Path} {stems : List Text} {pages : List (List Path)}

theorem pages_of_mapM (hstems : ∀ stem ∈ stems, IsStem stem)
    (h : (stems.map (routePath dir)).mapM (buildRoute config options template out) fs =
      (.ok pages, fs')) :
    pages.flatten = (stems.flatMap (pageNames config)).map fun name ↦ out.join ⟨name⟩ := by
  induction stems generalizing fs pages with
  | nil =>
    obtain ⟨rfl, -⟩ := pure_eq_ok_iff.mp h
    rfl
  | cons stem stems ih =>
    rw [List.forall_mem_cons] at hstems
    rw [List.map_cons, mapM_cons_eq_ok_iff] at h
    obtain ⟨own, mid, rest, hown, hrest, rfl⟩ := h
    obtain ⟨_, _, -, -, -, rfl⟩ := buildRoute_eq_ok hstems.1 hown
    rw [List.flatten_cons, List.flatMap_cons, List.map_append, ih hstems.2 hrest]

/-- A name that no route gives to a page stays as it is. -/
theorem keeps_of_mapM {loc : Location} {name : Text} (hstems : ∀ stem ∈ stems, IsStem stem)
    (h : (stems.map (routePath dir)).mapM (buildRoute config options template out) fs =
      (.ok pages, fs'))
    (hopens : fs.OpensAt out loc) (hname : ∀ stem ∈ stems, name ∉ pageNames config stem) :
    fs'.OpensAt out loc ∧ fs'.get? (loc ++ [name]) = fs.get? (loc ++ [name]) := by
  induction stems generalizing fs pages with
  | nil =>
    obtain ⟨-, rfl⟩ := pure_eq_ok_iff.mp h
    exact ⟨hopens, rfl⟩
  | cons stem stems ih =>
    rw [List.forall_mem_cons] at hstems hname
    rw [List.map_cons, mapM_cons_eq_ok_iff] at h
    obtain ⟨own, mid, rest, hown, hrest, rfl⟩ := h
    obtain ⟨_, loc', -, hopens', hwrites, -⟩ := buildRoute_eq_ok hstems.1 hown
    obtain rfl := hopens.unique hopens'
    obtain ⟨hlast, hkept⟩ := ih hstems.2 hrest (hwrites.grows.opensAt hopens) hname.2
    refine ⟨hlast, hkept.trans (hwrites.kept fun other hother heq ↦ hname.1 ?_)⟩
    obtain rfl : name = other := by simpa using heq
    exact hother

end Routes

/-! ## The turn of a route -/

/-- The turn of a route in the build of a project: the template, the file system with the output
directory in it, the stems of the routes before and after it, and the file system when it comes to
this route, which compiles then. -/
structure Turn (root : Path) (config : Config) (options : Options) (fs : FileSystem)
    (stem : Text) where
  template : Text
  made : FileSystem
  before : List Text
  after : List Text
  start : FileSystem
  output : Output
  isStem : ∀ s ∈ before ++ stem :: after, IsStem s
  template_eq : loadTemplate (root.join config.template) fs = (.ok template, fs)
  made_eq : fs.makeDirectories (root.join config.outputDir) = (.ok (), made)
  routes_eq : routeFiles (root.join config.routeDir) made =
    (.ok ((before ++ stem :: after).map (routePath (root.join config.routeDir))), made)
  start_eq : ∃ pages, (before.map (routePath (root.join config.routeDir))).mapM
    (buildRoute config options template (root.join config.outputDir)) made = (.ok pages, start)
  output_eq : compileRoute options (routePath (root.join config.routeDir) stem) start =
    (.ok output, start)

/-- The page of the route: the template with what the route compiles to. -/
def Turn.page {root : Path} {config : Config} {options : Options} {fs : FileSystem} {stem : Text}
    (turn : Turn root config options fs stem) : Text :=
  Page.inject turn.template turn.output.html turn.output.css

/-- A build that succeeds, route by route. -/
structure Run (root : Path) (config : Config) (options : Options) (fs : FileSystem)
    (written : List Path) (fs' : FileSystem) where
  template : Text
  made : FileSystem
  stems : List Text
  pages : List (List Path)
  template_eq : loadTemplate (root.join config.template) fs = (.ok template, fs)
  made_eq : fs.makeDirectories (root.join config.outputDir) = (.ok (), made)
  routes_eq : routeFiles (root.join config.routeDir) made =
    (.ok (stems.map (routePath (root.join config.routeDir))), made)
  isStem : ∀ s ∈ stems, IsStem s
  sorted : stems.Pairwise fun s t ↦ s ≠ t ∧ Text.le (routeName s) (routeName t) = true
  hasRoute_iff : ∀ stem, HasRoute made (root.join config.routeDir) stem ↔ stem ∈ stems
  pages_eq : (stems.map (routePath (root.join config.routeDir))).mapM
    (buildRoute config options template (root.join config.outputDir)) made = (.ok pages, fs')
  written_eq : written = pages.flatten

section Turn

variable {root : Path} {config : Config} {options : Options} {fs fs' : FileSystem}
  {written : List Path} {stem : Text}

theorem exists_run (hfs : fs.WellFormed) (hassets : config.assetsDir = none)
    (h : build root config options fs = (.ok written, fs')) :
    Nonempty (Run root config options fs written fs') := by
  obtain ⟨template, mid, htemplate, h⟩ := bind_eq_ok_iff.mp h
  obtain rfl := loadTemplate_keeps htemplate
  obtain ⟨_, made, hmade, h⟩ := bind_eq_ok_iff.mp h
  rw [attempt_eq_ok_iff] at hmade
  obtain ⟨routes, mid, hroutes, h⟩ := bind_eq_ok_iff.mp h
  have hwell : made.WellFormed := by
    have hmakes := hfs.makeDirectories (root.join config.outputDir)
    rwa [hmade] at hmakes
  obtain ⟨rfl, stems, rfl, hstems, hsorted, hmem⟩ := routeFiles_eq_ok hwell hroutes
  obtain ⟨pages, last, hpages, h⟩ := bind_eq_ok_iff.mp h
  rw [hassets] at h
  obtain ⟨rfl, rfl⟩ := pure_eq_ok_iff.mp h
  exact ⟨⟨template, made, stems, pages, htemplate, hmade, hroutes, hstems, hsorted, hmem, hpages,
    rfl⟩⟩

theorem HasRoute.made (hfs : fs.WellFormed) {dir : Path} (h : HasRoute fs dir stem) (p : Path) :
    HasRoute (fs.makeDirectories p).2 dir stem := by
  obtain ⟨entries, name, e, hlist, hentry, hroute, hstem⟩ := h
  obtain ⟨loc, hlocate, hmem, -⟩ := hfs.list_eq_ok hlist
  obtain ⟨hgrows, hkeeps⟩ := FileSystem.makeDirectories_keeps fs p
  have hlocate' := hgrows.locateDirectory hlocate
  obtain ⟨entries', hlist'⟩ : ∃ entries', (fs.makeDirectories p).2.list dir = .ok entries' := by
    rw [FileSystem.list, hlocate']
    exact ⟨_, rfl⟩
  obtain ⟨loc', hloc', hmem', -⟩ := (hfs.makeDirectories p).list_eq_ok hlist'
  obtain rfl := Except.ok.inj (hlocate'.symm.trans hloc')
  refine ⟨entries', name, e, hlist', ?_, hroute, hstem⟩
  exact (hmem' name e).mpr (hkeeps ((hmem name e).mp hentry))

variable (run : Run root config options fs written fs')

theorem Run.nodup : run.stems.Nodup :=
  run.sorted.imp And.left

theorem Run.exists_turn (h : stem ∈ run.stems) :
    Nonempty (Turn root config options fs stem) := by
  obtain ⟨before, after, hstems⟩ := List.append_of_mem h
  have hisStem := run.isStem
  have hroutes := run.routes_eq
  have hpages := run.pages_eq
  rw [hstems] at hisStem hroutes hpages
  rw [List.map_append, List.map_cons] at hpages
  obtain ⟨_, start, _, hstart, hrest⟩ := mapM_append_eq_ok hpages
  obtain ⟨_, _, _, hown, -, -⟩ := mapM_cons_eq_ok_iff.mp hrest
  obtain ⟨output, _, houtput, -, -, -⟩ := buildRoute_eq_ok (hisStem stem (by simp)) hown
  exact ⟨⟨run.template, run.made, before, after, start, output, hisStem, run.template_eq,
    run.made_eq, hroutes, ⟨_, hstart⟩, houtput⟩⟩

theorem map_routePath_inj {dir : Path} {stems stems' : List Text}
    (hstems : ∀ s ∈ stems, IsStem s) (hstems' : ∀ s ∈ stems', IsStem s)
    (h : stems.map (routePath dir) = stems'.map (routePath dir)) : stems = stems' := by
  have hread : ∀ {stems : List Text}, (∀ s ∈ stems, IsStem s) →
      (stems.map (routePath dir)).map Path.stem? = stems.map some := by
    intro stems hstems
    rw [List.map_map]
    exact List.map_congr_left fun s hs ↦ (hstems s hs).stem?_routePath dir
  have hsome : stems.map some = stems'.map some := by
    rw [← hread hstems, ← hread hstems', h]
  exact List.map_injective_iff.mpr (fun _ _ ↦ Option.some.inj) hsome

theorem Turn.made_of_run (turn : Turn root config options fs stem) : turn.made = run.made :=
  congrArg Prod.snd (turn.made_eq.symm.trans run.made_eq)

/-- The routes before and after a turn are the routes of the build. -/
theorem Turn.stems_of_run (turn : Turn root config options fs stem) :
    run.stems = turn.before ++ stem :: turn.after := by
  have hroutes := turn.routes_eq
  rw [turn.made_of_run run] at hroutes
  have hpair := congrArg Prod.fst (run.routes_eq.symm.trans hroutes)
  exact map_routePath_inj run.isStem turn.isStem (Except.ok.inj hpair)

theorem Turn.mem_of_run (turn : Turn root config options fs stem) : stem ∈ run.stems := by
  rw [turn.stems_of_run run]
  simp

theorem Run.isEmpty_turn_iff :
    IsEmpty (Turn root config options fs stem) ↔ stem ∉ run.stems := by
  constructor
  · intro hempty hmem
    obtain ⟨turn⟩ := run.exists_turn hmem
    exact hempty.false turn
  · exact fun hmem ↦ ⟨fun turn ↦ hmem (turn.mem_of_run run)⟩

/-- A route whose turn is later has a later name. -/
theorem Turn.lt_of_mem_after (run : Run root config options fs written fs')
    (turn : Turn root config options fs stem) {later : Text} (h : later ∈ turn.after) :
    stem ≠ later ∧ Text.le (routeName stem) (routeName later) = true := by
  have hsorted := run.sorted
  rw [turn.stems_of_run run] at hsorted
  exact (List.pairwise_cons.mp (List.pairwise_append.mp hsorted).2.1).1 later h

theorem Run.nodup_written_iff :
    (written.map Path.components).Nodup ↔ (run.stems.flatMap (pageNames config)).Nodup := by
  have hwritten := run.written_eq.trans (pages_of_mapM run.isStem run.pages_eq)
  rw [congrArg (List.map Path.components) hwritten, List.map_map]
  refine ⟨List.Nodup.of_map _, fun hnodup ↦ hnodup.map_on fun a ha b hb heq ↦ ?_⟩
  obtain ⟨s, hs, has⟩ := List.mem_flatMap.mp ha
  obtain ⟨t, ht, hbt⟩ := List.mem_flatMap.mp hb
  exact components_join_inj ((run.isStem s hs).isName_of_mem has)
    ((run.isStem t ht).isName_of_mem hbt) heq

/-- A page keeps the content that its last route gives it. -/
theorem Run.readBytes (run : Run root config options fs written fs')
    (turn : Turn root config options fs stem) {name : Text}
    (hname : name ∈ pageNames config stem)
    (hlast : ∀ s ∈ turn.after, name ∉ pageNames config s) :
    fs'.readBytes ((root.join config.outputDir).join ⟨name⟩) = .ok (Text.encode turn.page) := by
  have htemplate : turn.template = run.template :=
    Except.ok.inj (congrArg Prod.fst (turn.template_eq.symm.trans run.template_eq))
  have hpages := run.pages_eq
  rw [turn.stems_of_run run, List.map_append, List.map_cons, ← htemplate,
    ← turn.made_of_run run] at hpages
  obtain ⟨_, start, _, hstart, hrest⟩ := mapM_append_eq_ok hpages
  obtain ⟨_, hstart'⟩ := turn.start_eq
  obtain rfl : turn.start = start := congrArg Prod.snd (hstart'.symm.trans hstart)
  obtain ⟨_, next, _, hown, hafter, -⟩ := mapM_cons_eq_ok_iff.mp hrest
  have hstem : IsStem stem := turn.isStem stem (by simp)
  have hstems : ∀ s ∈ turn.after, IsStem s := fun s hs ↦ turn.isStem s (by simp [hs])
  obtain ⟨output, loc, houtput, hopens, hwrites, -⟩ := buildRoute_eq_ok hstem hown
  obtain rfl : turn.output = output :=
    Except.ok.inj (congrArg Prod.fst (turn.output_eq.symm.trans houtput))
  obtain ⟨hopens', hkept⟩ := keeps_of_mapM hstems hafter (hwrites.grows.opensAt hopens) hlast
  exact hopens'.readBytes (hstem.isName_of_mem hname) (hkept.trans (hwrites.written name hname))

/-- The index page is the page of the last route that writes it. -/
theorem Run.readBytes_index (run : Run root config options fs written fs')
    (turn : Turn root config options fs stem)
    (hstem : stem = "index".toList ∨ stem = config.defaultRouteName)
    (hlast : ∀ later ∈ turn.after, later ≠ "index".toList ∧ later ≠ config.defaultRouteName) :
    fs'.readBytes ((root.join config.outputDir).join ⟨indexName⟩) =
      .ok (Text.encode turn.page) := by
  refine run.readBytes turn (indexName_mem_pageNames_iff.mpr hstem) fun later hlater ↦ ?_
  rw [indexName_mem_pageNames_iff, not_or]
  exact hlast later hlater

end Turn

/-- A build that succeeds gives each route of the route directory its turn. The index page is the
page of the default route, unless there is a route of the name `index` that comes after it; then it
is the page of that route. No page is listed twice exactly if there is no such route at all. -/
theorem index_of_default {root : Path} {config : Config} {options : Options} {fs fs' : FileSystem}
    {written : List Path} (hfs : fs.WellFormed) (hassets : config.assetsDir = none)
    (hbuild : build root config options fs = (.ok written, fs')) :
    (∀ stem, (HasRoute fs (root.join config.routeDir) stem →
          Nonempty (Turn root config options fs stem)) ∧
        (Nonempty (Turn root config options fs stem) ↔
          HasRoute (fs.makeDirectories (root.join config.outputDir)).2
            (root.join config.routeDir) stem)) ∧
      ∀ turn : Turn root config options fs config.defaultRouteName,
        (IsEmpty (Turn root config options fs "index".toList) →
          fs'.readBytes ((root.join config.outputDir).join ⟨indexName⟩) =
            .ok (Text.encode turn.page)) ∧
        (∀ other : Turn root config options fs "index".toList,
          fs'.readBytes ((root.join config.outputDir).join ⟨indexName⟩) =
            .ok (Text.encode
              (if Text.le (routeName config.defaultRouteName) (routeName "index".toList)
                then other.page else turn.page))) ∧
        ((written.map Path.components).Nodup ↔
          IsEmpty (Turn root config options fs "index".toList)) := by
  obtain ⟨run⟩ := exists_run hfs hassets hbuild
  refine ⟨fun stem ↦ ?_, fun turn ↦ ⟨fun hempty ↦ ?_, fun other ↦ ?_, ?_⟩⟩
  · have hturn : Nonempty (Turn root config options fs stem) ↔
        HasRoute (fs.makeDirectories (root.join config.outputDir)).2
          (root.join config.routeDir) stem := by
      rw [run.made_eq, run.hasRoute_iff]
      exact ⟨fun ⟨turn⟩ ↦ turn.mem_of_run run, run.exists_turn⟩
    exact ⟨fun hroute ↦ hturn.mpr (hroute.made hfs _), hturn⟩
  · rw [run.isEmpty_turn_iff] at hempty
    refine run.readBytes_index turn (Or.inr rfl) fun later hlater ↦ ?_
    have hmem : later ∈ run.stems := by simp [turn.stems_of_run run, hlater]
    exact ⟨fun heq ↦ hempty (heq ▸ hmem), (turn.lt_of_mem_after run hlater).1.symm⟩
  · split
    · next hle =>
      refine run.readBytes_index other (Or.inl rfl) fun later hlater ↦ ?_
      obtain ⟨hne, hle'⟩ := other.lt_of_mem_after run hlater
      refine ⟨hne.symm, ?_⟩
      rintro rfl
      exact hne (routeName_inj.mp (Text.orders_le.antisymm hle' hle))
    · next hle =>
      refine run.readBytes_index turn (Or.inr rfl) fun later hlater ↦ ?_
      obtain ⟨hne, hle'⟩ := turn.lt_of_mem_after run hlater
      refine ⟨?_, hne.symm⟩
      rintro rfl
      exact hle hle'
  · rw [run.nodup_written_iff, nodup_pageNames_iff run.nodup (turn.mem_of_run run),
      run.isEmpty_turn_iff]

/-! ## A project with a route of the name `index` -/

/-- A default route and a route of the name `index` after it. -/
def twoRoutes : FileSystem where
  entries := [([['r']], .directory), ([['r'], "a.cssx".toList], .file [97]),
    ([['r'], "index.cssx".toList], .file [])]
  workingDirectory := []

/-- The pages are put beside the routes. -/
def twoRoutesConfig : Config :=
  { routeDir := ⟨['r']⟩, outputDir := ⟨['r']⟩, template := ⟨['t']⟩, defaultRoute := ['a'] }

/-- The project with the page of the default route. -/
def twoRoutesBegun (first : Bytes) : FileSystem :=
  (twoRoutes.set [['r'], "a.html".toList] (.file first)).set [['r'], indexName] (.file first)

/-- The project with the pages of both routes. -/
def twoRoutesBuilt (first second : Bytes) : FileSystem :=
  (twoRoutesBegun first).set [['r'], indexName] (.file second)

section TwoRoutes

theorem wellFormed_twoRoutes : twoRoutes.WellFormed :=
  ⟨by decide, by decide⟩

theorem hasRoute_twoRoutes : HasRoute twoRoutes ⟨['r']⟩ ['a'] ∧
    HasRoute twoRoutes ⟨['r']⟩ "index".toList := by
  have hlist : twoRoutes.list ⟨['r']⟩ =
      .ok [("a.cssx".toList, .file [97]), ("index.cssx".toList, .file [])] := by
    cbv
  exact ⟨⟨_, _, _, hlist, List.mem_cons_self, by decide, by decide⟩,
    ⟨_, _, _, hlist, List.mem_cons_of_mem _ List.mem_cons_self, by decide, by decide⟩⟩

theorem exists_compileRoute_twoRoutes :
    ∃ output, compileRoute {} ⟨"r/a.cssx".toList⟩ twoRoutes = (.ok output, twoRoutes) ∧
      output.css = ['a'] := by
  have hscan : Statement.scan ['a'] = .ok [⟨['a'], 1⟩] := by
    cbv
  obtain ⟨doc, hparse, hcss, hdollar⟩ : ∃ doc,
      Document.parse ⟨twoRoutes.load, ({} : Options).maxImportDepth⟩ ⟨['r']⟩ ['a'] = .ok doc ∧
      joinLines ((Stylesheet.rows doc).map Stylesheet.rowLine) = ['a'] ∧
      ∀ n ∈ doc.nodes.toList, '$' ∉ n.raw := by
    refine ⟨⟨#[{ raw := ['a'], kind := .generic, line := 1 }], [0]⟩, ?_, ?_⟩
    · rw [Document.parse, hscan]
      simp only [Document.ofStatements]
      rw [Builder.feed_next rfl, Builder.feed_nil]
      rfl
    · decide +kernel
  have hplain : ∀ j n, doc.get? j = some n → '$' ∉ n.raw := fun j n hn ↦
    hdollar n (Array.mem_toList_iff.mpr (Array.mem_of_getElem? hn))
  obtain ⟨output, hboth, heq⟩ := Compile.exists_both_of_parse {} hparse hplain
  refine ⟨output, bind_eq_ok_iff.mpr ⟨['a'], twoRoutes, ?_, ?_⟩, heq.trans hcss⟩
  · exact look_eq_ok_iff.mpr ⟨by cbv, rfl⟩
  · exact congrArg (fun result ↦ (Except.mapError (BuildError.compile _) result, twoRoutes)) hboth

theorem compileRoute_twoRoutesBegun (first : Bytes) :
    compileRoute {} ⟨"r/index.cssx".toList⟩ (twoRoutesBegun first) =
      (.ok ⟨[], []⟩, twoRoutesBegun first) := by
  have hboth : Compile.both (twoRoutesBegun first).load {} ⟨['r']⟩ [] = .ok ⟨[], []⟩ := by
    cbv
  refine bind_eq_ok_iff.mpr ⟨[], twoRoutesBegun first, look_eq_ok_iff.mpr ⟨rfl, rfl⟩, ?_⟩
  exact congrArg
    (fun result ↦ (Except.mapError (BuildError.compile _) result, twoRoutesBegun first)) hboth

theorem routeFiles_twoRoutes : routeFiles ⟨['r']⟩ twoRoutes =
    (.ok [⟨"r/a.cssx".toList⟩, ⟨"r/index.cssx".toList⟩], twoRoutes) := by
  cbv

theorem writePage_of_writeFile {p : Path} {page : Text} {fs fs' : FileSystem}
    (h : fs.writeFile p (Text.encode page) = .ok fs') : writePage p page fs = (.ok p, fs') :=
  bind_eq_ok_iff.mpr ⟨(), fs', change_eq_ok_iff.mpr h, pure_eq_ok_iff.mpr ⟨rfl, rfl⟩⟩

theorem build_twoRoutes {output : Output}
    (h : compileRoute {} ⟨"r/a.cssx".toList⟩ twoRoutes = (.ok output, twoRoutes)) :
    build Path.empty twoRoutesConfig {} twoRoutes =
      (.ok [⟨"r/a.html".toList⟩, ⟨"r/index.html".toList⟩, ⟨"r/index.html".toList⟩],
        twoRoutesBuilt (Text.encode (Page.inject Page.defaultTemplate output.html output.css))
          (Text.encode (Page.inject Page.defaultTemplate [] []))) := by
  have hfirst : buildRoute twoRoutesConfig {} Page.defaultTemplate ⟨['r']⟩ ⟨"r/a.cssx".toList⟩
      twoRoutes = (.ok [⟨"r/a.html".toList⟩, ⟨"r/index.html".toList⟩], twoRoutesBegun
        (Text.encode (Page.inject Page.defaultTemplate output.html output.css))) := by
    refine bind_eq_ok_iff.mpr ⟨output, twoRoutes, h, ?_⟩
    refine bind_eq_ok_iff.mpr ⟨⟨"r/a.html".toList⟩, _, writePage_of_writeFile rfl, ?_⟩
    exact bind_eq_ok_iff.mpr ⟨⟨"r/index.html".toList⟩, _, writePage_of_writeFile rfl, rfl⟩
  have hsecond : ∀ first, buildRoute twoRoutesConfig {} Page.defaultTemplate ⟨['r']⟩
      ⟨"r/index.cssx".toList⟩ (twoRoutesBegun first) = (.ok [⟨"r/index.html".toList⟩],
        twoRoutesBuilt first (Text.encode (Page.inject Page.defaultTemplate [] []))) := by
    intro first
    refine bind_eq_ok_iff.mpr ⟨⟨[], []⟩, _, compileRoute_twoRoutesBegun first, ?_⟩
    exact bind_eq_ok_iff.mpr ⟨⟨"r/index.html".toList⟩, _, writePage_of_writeFile rfl, rfl⟩
  refine bind_eq_ok_iff.mpr ⟨Page.defaultTemplate, twoRoutes, by cbv, ?_⟩
  refine bind_eq_ok_iff.mpr ⟨(), twoRoutes, by cbv, ?_⟩
  refine bind_eq_ok_iff.mpr ⟨_, twoRoutes, routeFiles_twoRoutes, ?_⟩
  exact bind_eq_ok_iff.mpr ⟨_, _, mapM_cons_eq_ok_iff.mpr
    ⟨_, _, _, hfirst, mapM_cons_eq_ok_iff.mpr ⟨_, _, _, hsecond _, rfl, rfl⟩, rfl⟩, rfl⟩

theorem readBytes_twoRoutesBuilt (first second : Bytes) :
    (twoRoutesBuilt first second).readBytes
        ((Path.empty.join twoRoutesConfig.outputDir).join ⟨indexName⟩) = .ok second :=
  rfl

/-- The stylesheet of a page can be told from the page. -/
theorem inject_defaultTemplate_ne (html html' : Text) :
    Page.inject Page.defaultTemplate html ['a'] ≠ Page.inject Page.defaultTemplate html' [] := by
  intro heq
  rw [Page.styleFirst_defaultTemplate.inject_eq, Page.styleFirst_defaultTemplate.inject_eq] at heq
  simp only [Page.filledStyle_eq, List.append_assoc, List.append_cancel_left_eq] at heq
  have hhead : some 'a' = some '\n' := congrArg List.head? heq
  exact absurd hhead (by decide)

end TwoRoutes

theorem index_of_default_replaced :
    ∃ (written : List Path) (fs' : FileSystem)
      (other : Turn Path.empty twoRoutesConfig {} twoRoutes "index".toList),
      build Path.empty twoRoutesConfig {} twoRoutes = (.ok written, fs') ∧
      fs'.readBytes ⟨"r/index.html".toList⟩ = .ok (Text.encode other.page) ∧
      ¬(written.map Path.components).Nodup := by
  obtain ⟨output, hcompile, -⟩ := exists_compileRoute_twoRoutes
  have hbuild := build_twoRoutes hcompile
  obtain ⟨hturns, hindex⟩ := index_of_default wellFormed_twoRoutes rfl hbuild
  obtain ⟨turn⟩ := (hturns _).1 hasRoute_twoRoutes.1
  obtain ⟨other⟩ := (hturns _).1 hasRoute_twoRoutes.2
  obtain ⟨-, hother, hnodup⟩ := hindex turn
  exact ⟨_, _, other, hbuild, hother other, fun h ↦ (hnodup.mp h).false other⟩

/-- The page of the default route is not always the index page. -/
theorem not_forall_index_of_default :
    ¬∀ (root : Path) (config : Config) (options : Options) (fs fs' : FileSystem)
        (written : List Path), fs.WellFormed → config.assetsDir = none →
      build root config options fs = (.ok written, fs') →
      HasRoute fs (root.join config.routeDir) config.defaultRouteName →
      ∀ turn : Turn root config options fs config.defaultRouteName,
        fs'.readBytes ((root.join config.outputDir).join ⟨indexName⟩) =
            .ok (Text.encode turn.page) ∧
          (written.map Path.components).Nodup := by
  intro hall
  obtain ⟨⟨html, css⟩, hcompile, rfl⟩ := exists_compileRoute_twoRoutes
  obtain ⟨turn, hpage⟩ : ∃ turn : Turn Path.empty twoRoutesConfig {} twoRoutes
      twoRoutesConfig.defaultRouteName,
      turn.page = Page.inject Page.defaultTemplate html ['a'] := by
    refine ⟨⟨Page.defaultTemplate, twoRoutes, [], ["index".toList], twoRoutes, ⟨html, ['a']⟩,
      by decide, ?_, ?_, routeFiles_twoRoutes, ⟨[], rfl⟩, hcompile⟩, ?_⟩
    · cbv
    · cbv
    · simp only [Turn.page]
  obtain ⟨hread, -⟩ := hall _ _ _ _ _ _ wellFormed_twoRoutes rfl (build_twoRoutes hcompile)
    hasRoute_twoRoutes.1 turn
  rw [readBytes_twoRoutesBuilt, hpage] at hread
  exact inject_defaultTemplate_ne html [] (Text.eq_of_encode (Except.ok.inj hread)).symm

end StyledMarkup.Site
