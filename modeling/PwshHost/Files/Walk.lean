import Mathlib.Tactic.Common

/-! Paths as text and as components, and how a tree of directories, files and
symbolic links resolves them. A link in the middle of a path is always followed,
a link at its end only by `LeadsTo`. -/
namespace Files

inductive Component where
  | curDir
  | parentDir
  | normal (name : String)
  deriving DecidableEq, Repr

/-- The text of a path, cut at its slashes. A leading slash leaves an empty part
in front. -/
abbrev PathText := List String

def Component.ofPart (part : String) : Component :=
  if part = "" ∨ part = "." then .curDir
  else if part = ".." then .parentDir
  else .normal part

/-- What resolving the text goes through. An empty part stays where it is, so a
slash at the end asks for a directory. -/
def PathText.components (text : PathText) : List Component :=
  text.map .ofPart

def PathText.isAbsolute : PathText → Bool
  | "" :: _ :: _ => true
  | _ => false

/-- A path up to the separators that comparing two paths ignores. -/
structure PathBuf where
  hasRoot : Bool
  components : List Component
  deriving DecidableEq, Repr

/-- A `.` counts only at the start of a text, and an empty part nowhere. -/
def PathBuf.ofText (text : PathText) : PathBuf where
  hasRoot := text.isAbsolute
  components := (if text.head? = some "." then [.curDir] else []) ++
    text.components.filter (· ≠ .curDir)

/-- Drops the last component. The root is none. -/
def PathBuf.pop (path : PathBuf) : PathBuf :=
  { path with components := path.components.dropLast }

/-- The path with one more name below it. -/
def PathBuf.join (path : PathBuf) (name : String) : PathBuf :=
  { path with components := path.components ++ [.normal name] }

/-- The names below the root, the innermost first. -/
abbrev Place := List String

inductive Entry where
  | directory
  | file
  | link (target : PathText)
  deriving DecidableEq, Repr

structure FileSystem where
  entry : Place → Option Entry
  root_directory : entry [] = some .directory
  parent_directory : ∀ name dir, entry (name :: dir) ≠ none → entry dir = some .directory

/-- In a list of entries where each one lies in a directory that is listed, the
parent of a listed place is a directory. -/
theorem lookup_parent {entries : List (Place × Entry)}
    (hParents : entries.all fun item => entries.lookup item.1.tail = some .directory)
    (name : String) (dir : Place) (hListed : entries.lookup (name :: dir) ≠ none) :
    entries.lookup dir = some .directory := by
  obtain ⟨item, hItem, hSame⟩ :=
    List.lookup_isSome_iff.mp (Option.isSome_iff_ne_none.mpr hListed)
  have hParent := of_decide_eq_true (List.all_eq_true.mp hParents item hItem)
  rwa [← eq_of_beq hSame] at hParent

/-- A list of entries in which each one stands below a directory of the list. -/
def FileSystem.ofEntries (entries : List (Place × Entry))
    (hRoot : entries.lookup [] = some .directory)
    (hParents : entries.all fun item => entries.lookup item.1.tail = some .directory) :
    FileSystem where
  entry place := entries.lookup place
  root_directory := hRoot
  parent_directory := lookup_parent hParents

/-- Where the components of a path are counted from. -/
def startOf (absolute : Bool) (here : Place) : Place :=
  if absolute then [] else here

namespace FileSystem
variable {fs : FileSystem}

/-- What one component does: where it leads, and the components of a link, which
come before all that are left. Those of a relative link count from the directory
that holds it. -/
def advance (fs : FileSystem) (place : Place) : Component → Option (Place × List Component)
  | .curDir => some (place, [])
  | .parentDir => some (place.tail, [])
  | .normal name => match fs.entry (name :: place) with
    | some .directory => some (name :: place, [])
    | some (.link target) => some (startOf target.isAbsolute place, target.components)
    | some .file => none
    | none => none

/-- Entering one directory after the other, one step for each component. Links
that go in a circle lead nowhere. -/
inductive Walk (fs : FileSystem) : Place → List Component → Place → Prop where
  | done (place : Place) : Walk fs place [] place
  | step {place next last : Place} {component : Component} {pending components : List Component}
      (hAdvance : fs.advance place component = some (next, pending))
      (rest : Walk fs next (pending ++ components) last) :
      Walk fs place (component :: components) last

/-- A walk ends in at most one place. -/
theorem Walk.unique {place first second : Place} {components : List Component}
    (run : fs.Walk place components first) (other : fs.Walk place components second) :
    first = second := by
  induction run with
  | done place =>
      cases other with
      | done => rfl
  | step hAdvance rest ih =>
      cases other with
      | step hAdvance' rest' =>
          obtain ⟨rfl, rfl⟩ := Prod.mk.inj (Option.some.inj (hAdvance.symm.trans hAdvance'))
          exact ih rest'

/-- Two parts of a path are walked one after the other. -/
theorem Walk.append {place middle last : Place} {front back : List Component}
    (hFront : fs.Walk place front middle) (hBack : fs.Walk middle back last) :
    fs.Walk place (front ++ back) last := by
  induction hFront with
  | done place => exact hBack
  | step hAdvance rest ih =>
      rw [List.append_assoc] at ih
      exact .step hAdvance (ih hBack)

/-- A walk along two lists is a walk along the first and then one along the
second. -/
theorem Walk.append_iff {place last : Place} {front back : List Component} :
    fs.Walk place (front ++ back) last ↔
      ∃ middle, fs.Walk place front middle ∧ fs.Walk middle back last := by
  constructor
  · intro run
    generalize hWhole : front ++ back = whole at run
    induction run generalizing front with
    | done place =>
        obtain ⟨rfl, rfl⟩ := List.append_eq_nil_iff.mp hWhole
        exact ⟨place, .done place, .done place⟩
    | @step place next last component pending components hAdvance rest ih =>
        cases front with
        | nil =>
            obtain rfl : back = component :: components := hWhole
            exact ⟨place, .done place, .step hAdvance rest⟩
        | cons _ front =>
            obtain ⟨rfl, rfl⟩ := List.cons.inj hWhole
            obtain ⟨middle, hFront, hBack⟩ := ih (List.append_assoc pending front back)
            exact ⟨middle, .step hAdvance hFront, hBack⟩
  · rintro ⟨middle, hFront, hBack⟩
    exact hFront.append hBack

/-- The first component is walked by itself, possibly along links, and the rest from
where it leads. -/
theorem Walk.cons_iff {place last : Place} {component : Component} {components : List Component} :
    fs.Walk place (component :: components) last ↔
      ∃ middle, fs.Walk place [component] middle ∧ fs.Walk middle components last := by
  rw [← append_iff]
  rfl

/-- The component `.` goes nowhere. -/
theorem Walk.curDir_iff {place last : Place} {components : List Component} :
    fs.Walk place (.curDir :: components) last ↔ fs.Walk place components last := by
  constructor
  · intro run
    cases run with
    | step hAdvance rest =>
        obtain ⟨rfl, rfl⟩ := Prod.mk.inj (Option.some.inj hAdvance)
        exact rest
  · intro run
    have hAdvance : fs.advance place .curDir = some (place, []) := rfl
    exact .step hAdvance run

/-- Components that stay where they are may be left out. -/
theorem Walk.filter_iff {place last : Place} {components : List Component} :
    fs.Walk place (components.filter (· ≠ .curDir)) last ↔ fs.Walk place components last := by
  induction components generalizing place with
  | nil => rfl
  | cons component components ih =>
      by_cases hStays : component = .curDir
      · rw [List.filter_cons_of_neg (by simpa using hStays), hStays, curDir_iff]
        exact ih
      · rw [List.filter_cons_of_pos (by simpa using hStays), cons_iff, cons_iff]
        simp only [ih]

/-- A step that is taken from a directory leads to a directory. A link leads to where
its own components start from. -/
theorem advance_directory {place next : Place} {component : Component} {pending : List Component}
    (hAdvance : fs.advance place component = some (next, pending))
    (hPlace : fs.entry place = some .directory) : fs.entry next = some .directory := by
  cases component with
  | curDir =>
      obtain ⟨rfl, rfl⟩ := Prod.mk.inj (Option.some.inj hAdvance)
      exact hPlace
  | parentDir =>
      obtain ⟨rfl, rfl⟩ := Prod.mk.inj (Option.some.inj hAdvance)
      cases place with
      | nil => exact hPlace
      | cons name dir => exact fs.parent_directory name dir (by simp [hPlace])
  | normal name =>
      rw [advance] at hAdvance
      split at hAdvance
      · rename_i hEntry
        obtain ⟨rfl, rfl⟩ := Prod.mk.inj (Option.some.inj hAdvance)
        exact hEntry
      · rename_i target hEntry
        obtain ⟨rfl, rfl⟩ := Prod.mk.inj (Option.some.inj hAdvance)
        cases target.isAbsolute with
        | false => exact hPlace
        | true => exact fs.root_directory
      all_goals cases hAdvance

/-- A walk from a directory leads to a directory. -/
theorem Walk.directory {place last : Place} {components : List Component}
    (run : fs.Walk place components last) (hPlace : fs.entry place = some .directory) :
    fs.entry last = some .directory := by
  induction run with
  | done place => exact hPlace
  | step hAdvance rest ih => exact ih (advance_directory hAdvance hPlace)

/-- The components end in a name, and the ones before it lead to the directory
that would hold it. -/
def Locates (fs : FileSystem) (place : Place) (components : List Component) (dir : Place)
    (name : String) : Prop :=
  ∃ front, components = front ++ [.normal name] ∧ fs.Walk place front dir

/-- A path locates a name in the directory that the path before the name leads to. -/
theorem locates_concat_iff {place dir : Place} {front : List Component} {name : String} :
    (∃ last, fs.Locates place (front ++ [.normal name]) dir last) ↔ fs.Walk place front dir := by
  constructor
  · rintro ⟨last, front', hSame, hDir⟩
    obtain ⟨rfl, -⟩ := List.append_inj' hSame rfl
    exact hDir
  · intro hDir
    exact ⟨name, front, rfl, hDir⟩

/-- A path locates one name in one directory. -/
theorem Locates.unique {place dir dir' : Place} {components : List Component} {name name' : String}
    (h₁ : fs.Locates place components dir name) (h₂ : fs.Locates place components dir' name') :
    dir = dir' ∧ name = name' := by
  obtain ⟨front, rfl, hDir⟩ := h₁
  obtain ⟨front', hSame, hDir'⟩ := h₂
  obtain ⟨rfl, hLast⟩ := List.append_inj' hSame rfl
  obtain rfl : name = name' := by simpa using hLast
  exact ⟨hDir.unique hDir', rfl⟩

/-- So there is one entry at the end of a path. -/
theorem Locates.entry_unique {place dir dir' : Place} {components : List Component}
    {name name' : String} {entry entry' : Entry}
    (hAt : fs.Locates place components dir name) (hEntry : fs.entry (name :: dir) = some entry)
    (hAt' : fs.Locates place components dir' name')
    (hEntry' : fs.entry (name' :: dir') = some entry') : entry = entry' := by
  obtain ⟨rfl, rfl⟩ := hAt.unique hAt'
  exact Option.some.inj (hEntry.symm.trans hEntry')

/-- The text of a link. Nothing else has one. -/
def linkText (fs : FileSystem) (place : Place) : Option PathBuf :=
  match fs.entry place with
  | some (.link target) => some (.ofText target)
  | some .directory => none
  | some .file => none
  | none => none

/-- What reading links has to be: a path is resolved but for its last component. -/
def ReadsLinks (fs : FileSystem) (here : Place) (readLink : PathBuf → Option PathBuf) : Prop :=
  ∀ path dir name, fs.Locates (startOf path.hasRoot here) path.components dir name →
    readLink path = fs.linkText (name :: dir)

open Classical in
/-- Every file system has its links read. -/
noncomputable def readLink (fs : FileSystem) (here : Place) (path : PathBuf) : Option PathBuf :=
  if hAt : ∃ place : Place × String,
      fs.Locates (startOf path.hasRoot here) path.components place.1 place.2 then
    fs.linkText (hAt.choose.2 :: hAt.choose.1)
  else none

/-- The function that reads a link through the file system has the behaviour that is
documented for `fs::read_link`. -/
theorem readsLinks_readLink (fs : FileSystem) (here : Place) :
    fs.ReadsLinks here (fs.readLink here) := by
  intro path dir name hAt
  have hSome : ∃ place : Place × String,
      fs.Locates (startOf path.hasRoot here) path.components place.1 place.2 := ⟨(dir, name), hAt⟩
  obtain ⟨hDir, hName⟩ := hSome.choose_spec.unique hAt
  rw [readLink, dif_pos hSome, hDir, hName]

/-- A finite chain of links, followed from its first path to a regular file. -/
inductive LeadsTo (fs : FileSystem) : Place → List Component → Place → Prop where
  | file {place dir : Place} {components : List Component} {name : String}
      (hAt : fs.Locates place components dir name)
      (hFile : fs.entry (name :: dir) = some .file) :
      LeadsTo fs place components (name :: dir)
  | link {place dir last : Place} {components : List Component} {name : String}
      {target : PathText} (hAt : fs.Locates place components dir name)
      (hLink : fs.entry (name :: dir) = some (.link target))
      (rest : LeadsTo fs (startOf target.isAbsolute dir) target.components last) :
      LeadsTo fs place components last

/-- Where a chain of links starts there is a name in a directory. -/
theorem LeadsTo.locates {place last : Place} {components : List Component}
    (chain : fs.LeadsTo place components last) :
    ∃ dir name, fs.Locates place components dir name := by
  cases chain with
  | file hAt hFile => exact ⟨_, _, hAt⟩
  | link hAt hLink rest => exact ⟨_, _, hAt⟩

/-- Where a path ends in a name, dropping its last component leaves the directory
of that name. -/
theorem walk_pop_iff {place dir : Place} {path : PathBuf} {front : List Component} {name : String}
    (hEnd : path.components = front ++ [.normal name]) :
    fs.Walk place path.pop.components dir ↔
      ∃ last, fs.Locates place path.components dir last := by
  rw [PathBuf.pop, hEnd, List.dropLast_concat, locates_concat_iff]

/-- The same for a text. The parts that reading it leaves out stay where they are. -/
theorem walk_pop_ofText_iff {place dir : Place} {text : PathText} {front : List Component}
    {name : String} (hEnd : text.components = front ++ [.normal name]) :
    fs.Walk place (PathBuf.ofText text).pop.components dir ↔
      ∃ last, fs.Locates place text.components dir last := by
  have hName : [Component.normal name].filter (· ≠ .curDir) = [.normal name] := rfl
  rw [PathBuf.pop, PathBuf.ofText, hEnd, List.filter_append, hName, ← List.append_assoc,
    List.dropLast_concat, locates_concat_iff]
  split
  · rw [List.singleton_append, Walk.curDir_iff, Walk.filter_iff]
  · rw [List.nil_append, Walk.filter_iff]

end FileSystem

end Files
