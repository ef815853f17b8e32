import StyledMarkup.Text.Basic

/-!
# Paths

A path is a text that slashes cut into segments. Empty segments and single dots mean nothing,
except that a slash in front makes the path absolute and a single dot in front is kept. Paths are
compared and shown as they are written; `Path.components` is what a path means segment by segment.
-/

namespace StyledMarkup

/-- A path as it is written. -/
structure Path where
  text : Text
  deriving DecidableEq, Repr, Inhabited

/-- What one part of a path says. -/
inductive Component where
  /-- Start at the root. -/
  | root
  /-- Stay where you are. -/
  | current
  /-- Go up. -/
  | parent
  /-- Go down to the entry of this name. -/
  | name (name : Text)
  deriving DecidableEq, Repr, Inhabited

def Component.text : Component → Text
  | .root => ['/']
  | .current => ['.']
  | .parent => ['.', '.']
  | .name segment => segment

namespace Path

def empty : Path := ⟨[]⟩

/-- The path that stays where it is. -/
def here : Path := ⟨['.']⟩

def isAbsolute (p : Path) : Bool :=
  p.text.head? == some '/'

/-! ## Components -/

/-- A segment that says nothing. -/
def isIdle (segment : Text) : Bool :=
  segment == [] || segment == ['.']

/-- What a segment says, if it says anything. -/
def segment? (segment : Text) : Option Component :=
  if isIdle segment then none
  else if segment = ['.', '.'] then some .parent
  else some (.name segment)

/-- The first component together with the text after it, when it is a root or a dot in front. -/
def lead (p : Path) : Option Component × Text :=
  match p.text with
  | '/' :: rest => (some .root, rest)
  | ['.'] => (some .current, [])
  | '.' :: '/' :: rest => (some .current, '/' :: rest)
  | rest => (none, rest)

def segments (p : Path) : List Text :=
  p.lead.2.splitOn '/'

/-- What a path says, part by part. -/
def components (p : Path) : List Component :=
  p.lead.1.toList ++ p.segments.filterMap segment?

/-! ## Joining and cutting -/

/-- The path `q` as seen from `p`. An absolute `q` stands for itself. -/
def join (p q : Path) : Path :=
  if q.isAbsolute then q
  else if p.text = [] ∨ p.text.endsWith '/' = true then ⟨p.text ++ q.text⟩
  else ⟨p.text ++ '/' :: q.text⟩

/-- The segments up to the last one that says something, the last of them first. -/
def lastSegments (p : Path) : List Text :=
  p.segments.reverse.dropWhile isIdle

/-- The path without its last component. The root and the empty path have none to lose. -/
def parent? (p : Path) : Option Path :=
  let (first, _) := p.lead
  match p.lastSegments with
  | _ :: earlier =>
    let start := (first.map Component.text).getD []
    some ⟨start ++ ['/'].intercalate (earlier.dropWhile isIdle).reverse⟩
  | [] => if first = some .current then some empty else none

/-- The path itself, its parent, the parent of that, and so on, at most `bound` of them. -/
def ancestorsWithin : (bound : Nat) → Path → List Path
  | 0, _ => []
  | bound + 1, p => p :: (p.parent?.map (ancestorsWithin bound)).getD []

/-- The path itself, its parent, the parent of that, and so on. Each is shorter than the one before
it, so there are no more of them than the path has characters, and one. -/
def ancestors (p : Path) : List Path :=
  ancestorsWithin (p.text.length + 1) p

/-- The name at the end of a path, unless it ends in a root or a dot component. -/
def fileName? (p : Path) : Option Text :=
  match p.lastSegments with
  | last :: _ => if last = ['.', '.'] then none else some last
  | [] => none

/-- The name at the end of a path, cut at its last dot. A dot in front of a name cuts nothing. -/
def stemAndExtension? (p : Path) : Option (Text × Option Text) :=
  p.fileName?.map fun name ↦
    match Text.splitAtLast? '.' name with
    | some (c :: stem, extension) => (c :: stem, some extension)
    | _ => (name, none)

def stem? (p : Path) : Option Text :=
  p.stemAndExtension?.map Prod.fst

def extension? (p : Path) : Option Text :=
  p.stemAndExtension?.bind Prod.snd

/-! ## Normal paths -/

/-- Takes one component onto the components kept so far, the last of them first. Going up takes
back the last one, unless that is the root or there is none. -/
def keep (kept : List Component) : Component → List Component
  | .current => kept
  | .parent =>
    match kept with
    | [] | .root :: _ => .parent :: kept
    | _ :: earlier => earlier
  | c => c :: kept

def ofComponents : List Component → Path
  | .root :: rest => ⟨'/' :: ['/'].intercalate (rest.map Component.text)⟩
  | rest => ⟨['/'].intercalate (rest.map Component.text)⟩

/-- The components that are left when single dots are dropped and each step up takes back the
component before it. -/
def normalComponents (p : Path) : List Component :=
  (p.components.foldl keep []).reverse

/-- The path with single dots dropped and steps up taken back, as far as that can be done without
looking at any files. -/
def normalize (p : Path) : Path :=
  ofComponents p.normalComponents

/-! ## The size of a path -/

/-- The number of bytes of a path. -/
def size (p : Path) : Nat :=
  (String.ofList p.text).utf8ByteSize

/-- A path with so many bytes is too long to be followed. -/
def sizeLimit : Nat := 4096

/-! ## Small facts -/

theorem slash_notMem_of_mem_splitOn {t segment : Text} (h : segment ∈ t.splitOn '/') :
    '/' ∉ segment := by
  induction t generalizing segment with
  | nil =>
    rw [List.splitOn_nil, List.mem_singleton] at h
    simp [h]
  | cons c t ih =>
    rw [List.splitOn_cons_eq_if_modifyHead] at h
    split at h
    · rcases List.mem_cons.mp h with rfl | hmem
      · exact List.not_mem_nil
      · exact ih hmem
    · next hc =>
      obtain ⟨first, others, hsplit⟩ := List.exists_cons_of_ne_nil (List.splitOn_ne_nil '/' t)
      rw [hsplit] at h ih
      rcases List.mem_cons.mp h with rfl | hmem
      · have hslash : '/' ≠ c := by
          rintro rfl
          exact hc (beq_self_eq_true _)
        simpa [hslash] using ih List.mem_cons_self
      · exact ih (List.mem_cons_of_mem first hmem)

/-- The name at the end of a path is a segment that says something. -/
theorem name_of_fileName? {p : Path} {name : Text} (h : p.fileName? = some name) :
    '/' ∉ name ∧ isIdle name = false ∧ name ≠ ['.', '.'] := by
  rw [fileName?] at h
  split at h
  · next last earlier hlast =>
    rw [lastSegments] at hlast
    split at h
    · cases h
    · next hdots =>
      obtain rfl := Option.some.inj h
      have hmem : last ∈ p.segments := by
        rw [← List.mem_reverse]
        exact (List.dropWhile_sublist isIdle).subset (hlast ▸ List.mem_cons_self)
      have hidle := List.head?_dropWhile_not isIdle p.segments.reverse
      rw [hlast] at hidle
      exact ⟨slash_notMem_of_mem_splitOn hmem, by simpa using hidle, hdots⟩
  · cases h

/-- A name in a directory makes the path longer. -/
theorem size_lt_size_join {q : Path} {name : Text} (p : Path) (h : q.fileName? = some name) :
    p.size < (p.join ⟨name⟩).size := by
  obtain ⟨hslash, hidle, -⟩ := name_of_fileName? h
  cases name with
  | nil => cases hidle
  | cons c rest =>
    have hrelative : isAbsolute ⟨c :: rest⟩ = false := by
      have hc : c ≠ '/' := by
        rintro rfl
        exact hslash List.mem_cons_self
      simpa [isAbsolute] using hc
    have hsize := Char.utf8Size_pos c
    rw [join, if_neg (by simp [hrelative])]
    split
    · simp [size, String.ofList_cons]
      omega
    · simp [size, String.ofList_cons]
      omega

end Path

end StyledMarkup
