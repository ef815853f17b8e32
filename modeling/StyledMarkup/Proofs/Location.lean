import Mathlib.Data.List.Basic
import StyledMarkup.Proofs.Path

/-!
# Where a path leads

A path is followed component by component: a name leads down, a step up leads back, and a dot
stays. Normalizing keeps a step up that there is nothing to take back for, but the next step up
then takes back the kept one instead of joining it, so that of several such steps none or one is
left. Main statement: a relative path and its normal form lead to the same place exactly if the
path rises at most one level above its start.
-/

namespace StyledMarkup.Path

/-- Where a component leads from a place, which is given by the components on the way to it, the
last one first. -/
def follow (place : List Component) : Component → List Component
  | .root => [.root]
  | .current => place
  | .parent => place.tail
  | c => c :: place

/-- Where a path leads from a place. -/
def locate (base : List Component) (p : Path) : List Component :=
  p.components.foldl follow base

/-- How far components rise above their start, with `down` names before them: the steps up that
have no name left to take back. -/
def riseFrom : (down : Nat) → List Component → Nat
  | _, [] => 0
  | down, .name _ :: rest => riseFrom (down + 1) rest
  | 0, .parent :: rest => riseFrom 0 rest + 1
  | down + 1, .parent :: rest => riseFrom down rest
  | down, _ :: rest => riseFrom down rest

/-- How far a path rises above its start. -/
def rise (p : Path) : Nat :=
  riseFrom 0 p.components

/-! ## Following components -/

section Components

variable {names components : List Component}

theorem riseFrom_le_count (down : Nat) (components : List Component) :
    riseFrom down components ≤ components.count .parent := by
  fun_induction riseFrom down components with
  | case1 => simp
  | case2 down name rest ih => simpa using ih
  | case3 rest ih => simpa using ih
  | case4 down rest ih => exact ih.trans List.count_le_count_cons
  | case5 down c rest _ _ _ ih => exact ih.trans List.count_le_count_cons

/-- A place that is led to is what the components say by themselves, after what they leave of the
place they start from. -/
theorem foldl_follow_append (hroot : .root ∉ components) (names base : List Component) :
    components.foldl follow (names ++ base) =
      components.foldl follow names ++ base.drop (riseFrom names.length components) := by
  induction components generalizing names base with
  | nil => simp [riseFrom]
  | cons c rest ih =>
    rw [List.mem_cons, not_or] at hroot
    cases c with
    | root => exact absurd rfl hroot.1
    | current => exact ih hroot.2 names base
    | name name => exact ih hroot.2 (.name name :: names) base
    | parent =>
      cases names with
      | nil =>
        have hrest := ih hroot.2 [] base.tail
        simpa [follow, riseFrom, List.drop_tail] using hrest
      | cons first names => exact ih hroot.2 names base

theorem locate_eq (base : List Component) (p : Path) :
    p.locate base = p.steps.foldl follow base := by
  rw [locate, steps, foldl_filter_current fun _ ↦ rfl]

theorem foldl_follow_replicate (n : Nat) (base : List Component) :
    (List.replicate n .parent).foldl follow base = base.drop n := by
  induction n generalizing base with
  | zero => rfl
  | succ n ih =>
    rw [List.replicate_succ, List.foldl_cons, ih]
    exact List.drop_tail ..

theorem foldl_follow_names (hnames : ∀ c ∈ names, ∃ name, c = .name name)
    (base : List Component) : names.foldl follow base = names.reverse ++ base := by
  induction names generalizing base with
  | nil => rfl
  | cons c rest ih =>
    obtain ⟨⟨name, rfl⟩, hrest⟩ := List.forall_mem_cons.mp hnames
    rw [List.foldl_cons, ih hrest, List.reverse_cons, List.append_assoc]
    rfl

theorem name_of_mem_foldl_follow (hroot : .root ∉ components) {c : Component}
    (hc : c ∈ components.foldl follow names) :
    c ∈ names ∨ (c ∈ components ∧ ∃ name, c = .name name) := by
  induction components generalizing names with
  | nil => exact Or.inl hc
  | cons d rest ih =>
    rw [List.mem_cons, not_or] at hroot
    rcases ih hroot.2 hc with hplace | ⟨hrest, hname⟩
    · cases d with
      | root => exact absurd rfl hroot.1
      | current => exact Or.inl hplace
      | parent => exact Or.inl (List.mem_of_mem_tail hplace)
      | name name =>
        rcases List.mem_cons.mp hplace with rfl | hnames
        · exact Or.inr ⟨List.mem_cons_self, name, rfl⟩
        · exact Or.inl hnames
    · exact Or.inr ⟨List.mem_cons_of_mem d hrest, hname⟩

/-- Components are kept as they are followed, but of the steps up that are left over each second
one takes back the one before it. -/
theorem foldl_keep_eq (hroot : .root ∉ components) (hnames : .root ∉ names) {ups : Nat}
    (hups : ups ≤ 1) :
    components.foldl keep (names ++ List.replicate ups .parent) =
      components.foldl follow names ++
        List.replicate ((ups + riseFrom names.length components) % 2) .parent := by
  induction components generalizing names ups with
  | nil => simp [riseFrom, Nat.mod_eq_of_lt (Nat.lt_succ_of_le hups)]
  | cons c rest ih =>
    rw [List.mem_cons, not_or] at hroot
    cases c with
    | root => exact absurd rfl hroot.1
    | current => exact ih hroot.2 hnames hups
    | name name =>
      have hcons : .root ∉ Component.name name :: names := by simpa using hnames
      exact ih hroot.2 hcons hups
    | parent =>
      cases names with
      | nil =>
        -- A first step up is kept, and a second one takes it back.
        have hflip : keep (List.replicate ups .parent) .parent =
            List.replicate (1 - ups) .parent := by
          match ups, hups with
          | 0, _ => rfl
          | 1, _ => rfl
        have hmod : (1 - ups + riseFrom 0 rest) % 2 = (ups + riseFrom 0 (.parent :: rest)) % 2 := by
          rw [riseFrom]
          omega
        rw [List.nil_append, List.foldl_cons, hflip, List.length_nil, ← hmod]
        exact ih hroot.2 (List.not_mem_nil) (Nat.sub_le 1 ups)
      | cons first names =>
        rw [List.mem_cons, not_or] at hnames
        have htake : keep (first :: names ++ List.replicate ups .parent) .parent =
            names ++ List.replicate ups .parent := by
          cases first with
          | root => exact absurd rfl hnames.1
          | current | parent | name => rfl
        rw [List.foldl_cons, htake]
        exact ih hroot.2 hnames.2 hups

end Components

/-! ## Components that can be read back -/

/-- A component that a segment of a path says. -/
def Spelled (c : Component) : Prop :=
  '/' ∉ c.text ∧ segment? c.text = some c

theorem spelled_parent : Spelled .parent :=
  ⟨by decide, rfl⟩

theorem spelled_of_mem_segmentSteps {t : Text} {c : Component} (h : c ∈ segmentSteps t) :
    Spelled c := by
  obtain ⟨segment, hmem, hsegment⟩ := List.mem_filterMap.mp h
  have htext : c.text = segment := by
    unfold segment? at hsegment
    split at hsegment
    · cases hsegment
    · split at hsegment
      · next hdots =>
        cases hsegment
        exact hdots.symm
      · cases hsegment
        rfl
  exact ⟨htext ▸ slash_notMem_of_mem_splitOn hmem, htext ▸ hsegment⟩

theorem Spelled.ne_root {c : Component} (h : Spelled c) : c ≠ .root := by
  rintro rfl
  exact h.1 List.mem_cons_self

theorem Spelled.text_ne_nil {c : Component} (h : Spelled c) : c.text ≠ [] := by
  intro hnil
  have hread := h.2
  rw [hnil] at hread
  cases hread

theorem segmentSteps_intercalate {components : List Component} (h : ∀ c ∈ components, Spelled c) :
    segmentSteps (['/'].intercalate (components.map Component.text)) = components := by
  cases components with
  | nil => rfl
  | cons c rest =>
    have hsplit : (['/'].intercalate ((c :: rest).map Component.text)).splitOn '/' =
        (c :: rest).map Component.text := by
      refine List.splitOn_intercalate _ (fun segment hsegment ↦ ?_) (by simp)
      obtain ⟨d, hd, rfl⟩ := List.mem_map.mp hsegment
      exact (h d hd).1
    have hcongr : (c :: rest).filterMap (segment? ∘ Component.text) = (c :: rest).filterMap some :=
      List.filterMap_congr fun d hd ↦ (h d hd).2
    rw [segmentSteps, hsplit, List.filterMap_map, hcongr, List.filterMap_some]

theorem steps_ofComponents {components : List Component} (h : ∀ c ∈ components, Spelled c) :
    (ofComponents components).steps = components := by
  cases components with
  | nil => rfl
  | cons c rest =>
    have htext : (ofComponents (c :: rest)).text =
        ['/'].intercalate ((c :: rest).map Component.text) := by
      have hroot := (h c List.mem_cons_self).ne_root
      cases c with
      | root => exact absurd rfl hroot
      | current | parent | name => rfl
    have hhead : rootStep (['/'].intercalate ((c :: rest).map Component.text)) = [] := by
      obtain ⟨d, name, hname⟩ := List.exists_cons_of_ne_nil (h c List.mem_cons_self).text_ne_nil
      have hd : d ≠ '/' := by
        rintro rfl
        exact (h c List.mem_cons_self).1 (hname ▸ List.mem_cons_self)
      cases rest <;> simp [rootStep, List.intercalate_cons_cons, hname, hd]
    rw [steps_eq, htext, hhead, segmentSteps_intercalate h, List.nil_append]

/-- With a root in front the components stay what they are. -/
theorem steps_ofComponents_root {components : List Component} (h : ∀ c ∈ components, Spelled c) :
    (ofComponents (.root :: components)).steps = .root :: components := by
  rw [steps_eq, ofComponents, segmentSteps_slash, segmentSteps_intercalate h]
  rfl

/-! ## Normal paths -/

theorem steps_eq_segmentSteps {p : Path} (hp : p.isAbsolute = false) :
    p.steps = segmentSteps p.text := by
  have hrelative : p.text.head? ≠ some '/' := by
    simpa [isAbsolute] using hp
  rw [steps_eq, rootStep, if_neg hrelative, List.nil_append]

theorem spelled_of_mem_components {p : Path} (hp : p.isAbsolute = false) {c : Component}
    (hc : c ∈ p.components) (hcurrent : c ≠ .current) : Spelled c := by
  have hsteps : c ∈ p.steps := List.mem_filter.mpr ⟨hc, by simpa using hcurrent⟩
  rw [steps_eq_segmentSteps hp] at hsteps
  exact spelled_of_mem_segmentSteps hsteps

theorem root_notMem_components {p : Path} (hp : p.isAbsolute = false) :
    .root ∉ p.components := by
  intro hroot
  exact (spelled_of_mem_components hp hroot (by simp)).ne_root rfl

theorem name_of_mem_locate {p : Path} (hp : p.isAbsolute = false) {c : Component}
    (hc : c ∈ p.locate []) : c ∈ p.components ∧ ∃ name, c = .name name :=
  (name_of_mem_foldl_follow (root_notMem_components hp) hc).resolve_left List.not_mem_nil

/-- A normal path goes up once or not at all, and then down by the names that nothing takes
back. -/
theorem steps_normalize {p : Path} (hp : p.isAbsolute = false) :
    p.normalize.steps = List.replicate (p.rise % 2) .parent ++ (p.locate []).reverse := by
  have hroot := root_notMem_components hp
  have hkept : p.normalComponents =
      List.replicate (p.rise % 2) .parent ++ (p.locate []).reverse := by
    have hkeep := foldl_keep_eq hroot List.not_mem_nil (Nat.zero_le 1)
    rw [List.replicate_zero, List.append_nil, List.length_nil, Nat.zero_add] at hkeep
    rw [normalComponents, hkeep, List.reverse_append, List.reverse_replicate]
    rfl
  rw [normalize, hkept]
  apply steps_ofComponents
  intro c hc
  rcases List.mem_append.mp hc with hup | hdown
  · rw [List.eq_of_mem_replicate hup]
    exact spelled_parent
  · obtain ⟨hmem, name, rfl⟩ := name_of_mem_locate hp (List.mem_reverse.mp hdown)
    exact spelled_of_mem_components hp hmem (by simp)

theorem locate_eq_append {p : Path} (hp : p.isAbsolute = false) (base : List Component) :
    p.locate base = p.locate [] ++ base.drop p.rise :=
  foldl_follow_append (root_notMem_components hp) [] base

theorem locate_normalize_eq {p : Path} (hp : p.isAbsolute = false) (base : List Component) :
    p.normalize.locate base = p.locate [] ++ base.drop (p.rise % 2) := by
  have hnames : ∀ c ∈ (p.locate []).reverse, ∃ name, c = .name name := fun c hc ↦
    (name_of_mem_locate hp (List.mem_reverse.mp hc)).2
  rw [locate_eq, steps_normalize hp, List.foldl_append, foldl_follow_replicate,
    foldl_follow_names hnames, List.reverse_reverse]

/-- A relative path and its normal form lead to the same place exactly if the path rises at most
one level above its start. -/
theorem locate_normalize_iff {p : Path} {base : List Component} (hp : p.isAbsolute = false)
    (hbase : p.components.count .parent ≤ base.length) :
    p.normalize.locate base = p.locate base ↔ p.rise ≤ 1 := by
  have hrise : p.rise ≤ base.length := (riseFrom_le_count 0 p.components).trans hbase
  rw [locate_normalize_eq hp, locate_eq_append hp base, List.append_cancel_left_eq]
  constructor
  · intro hdrop
    have hlength := congrArg List.length hdrop
    rw [List.length_drop, List.length_drop] at hlength
    omega
  · intro hle
    rw [Nat.mod_eq_of_lt (Nat.lt_succ_of_le hle)]

theorem locate_normalize_iff_sibling :
    isAbsolute ⟨"a/./../../b".toList⟩ = false ∧
      (components ⟨"a/./../../b".toList⟩).count .parent ≤ 2 ∧ rise ⟨"a/./../../b".toList⟩ = 1 ∧
      locate [.name "d".toList, .name "c".toList] (normalize ⟨"a/./../../b".toList⟩) =
        locate [.name "d".toList, .name "c".toList] ⟨"a/./../../b".toList⟩ :=
  ⟨rfl, by decide, by decide,
    (locate_normalize_iff rfl (by decide)).mpr (by decide)⟩

/-- A second step up takes back the first one, and the path leads below its start. -/
theorem not_forall_locate_normalize :
    ¬∀ (p : Path) (base : List Component), p.isAbsolute = false →
      p.components.count .parent ≤ base.length → p.normalize.locate base = p.locate base := by
  intro h
  have hplace := h ⟨"../../x".toList⟩ [.name "b".toList, .name "a".toList] (by decide) (by decide)
  revert hplace
  decide

end StyledMarkup.Path
