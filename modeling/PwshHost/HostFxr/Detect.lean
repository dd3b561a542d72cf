import PwshHost.Files.Walk

/-! Where the files of an installed PowerShell are looked for. The file system,
the current directory and `which` are given by the machine. -/
namespace PwshHost.HostFxr

open Files

inductive EnvError where
  | undefOrUnset
  | missing
  deriving DecidableEq, Repr

structure Machine where
  files : FileSystem
  currentDir : Place
  currentDir_directory : files.entry currentDir = some .directory
  /-- `fs::read_link`, up to the reason why it fails. -/
  readLink : PathBuf → Option PathBuf
  readsLinks : files.ReadsLinks currentDir readLink
  /-- `which::which`, up to the reason why it fails. -/
  which : String → Option PathBuf

def findPwshExe (machine : Machine) : Option PathBuf :=
  match machine.which "pwsh" with
  | some pwshExe => match machine.readLink pwshExe with
    | some pwshLink => some pwshLink
    | none => some pwshExe
  | none => none

def findPwshDir (machine : Machine) : Option PathBuf :=
  match findPwshExe machine with
  | some pwshExe => some pwshExe.pop
  | none => none

def pwshHostDetect (machine : Machine) : Except EnvError PathBuf :=
  match findPwshDir machine with
  | some dir => .ok dir
  | none => .error .missing

inductive TargetOs where
  | windows
  | linux
  | other
  deriving DecidableEq, Repr

def hostfxrName : TargetOs → String
  | .windows => "hostfxr.dll"
  | .linux => "libhostfxr.so"
  | .other => "libhostfxr.dylib"

/-- Where a file of the installation is expected. -/
def lookupPath (machine : Machine) (name : String) : Except EnvError PathBuf :=
  (pwshHostDetect machine).map (·.join name)

/-- The path that `load_hostfxr` loads the library from. -/
def hostfxrPath (machine : Machine) (targetOs : TargetOs) : Except EnvError PathBuf :=
  lookupPath machine (hostfxrName targetOs)

/-- The paths of the assemblies that `get_assembly_delegate_loader` names. -/
def assemblyPaths (machine : Machine) : List (Except EnvError PathBuf) :=
  ["pwsh.dll", "System.Management.Automation.dll"].map (lookupPath machine)

/-- A path read at the current directory leads to the place. -/
def Denotes (machine : Machine) (path : PathBuf) (place : Place) : Prop :=
  machine.files.Walk (startOf path.hasRoot machine.currentDir) path.components place

/-- Both functions return a path of the directory. -/
def Detects (machine : Machine) (dir : Place) : Prop :=
  ∃ path, findPwshDir machine = some path ∧ pwshHostDetect machine = .ok path ∧
    Denotes machine path dir

/-- A path that names the file in the directory. -/
def LooksUp (machine : Machine) (dir : Place) (result : Except EnvError PathBuf)
    (name : String) : Prop :=
  ∃ path, result = .ok path ∧
    machine.files.Locates (startOf path.hasRoot machine.currentDir) path.components dir name

/-- The file that `which` found, once its one link is read, lies beside the
file at the end of the chain. The target of that link counts from the root or
from the current directory, wherever the link itself lies. -/
inductive LiesBeside (machine : Machine) (pwshExe : PathBuf) (file : Place) : Prop where
  | file {dir : Place} {name : String}
      (hAt : machine.files.Locates (startOf pwshExe.hasRoot machine.currentDir)
        pwshExe.components dir name)
      (hFile : machine.files.entry (name :: dir) = some .file)
  | absolute {dir : Place} {name next : String} {target : PathText}
      (hAt : machine.files.Locates (startOf pwshExe.hasRoot machine.currentDir)
        pwshExe.components dir name)
      (hLink : machine.files.entry (name :: dir) = some (.link target))
      (hAbsolute : target.isAbsolute = true)
      (hNext : machine.files.Locates [] target.components file.tail next)
  | relative {dir : Place} {name next : String} {target : PathText}
      (hAt : machine.files.Locates (startOf pwshExe.hasRoot machine.currentDir)
        pwshExe.components dir name)
      (hLink : machine.files.entry (name :: dir) = some (.link target))
      (hRelative : target.isAbsolute = false)
      (hNext : machine.files.Locates machine.currentDir target.components file.tail next)

variable {machine : Machine} {pwshExe : PathBuf} {dir place : Place} {name : String}

/-- Both functions return the same path, so one of them decides. -/
theorem detects_iff_denotes {path : PathBuf} (hDir : findPwshDir machine = some path) :
    Detects machine place ↔ Denotes machine path place := by
  constructor
  · rintro ⟨other, hOther, -, hPlace⟩
    obtain rfl := Option.some.inj (hDir.symm.trans hOther)
    exact hPlace
  · intro hPlace
    exact ⟨path, hDir, by rw [pwshHostDetect, hDir], hPlace⟩

/-- What is detected is a directory. -/
theorem Detects.directory (hFound : Detects machine dir) :
    machine.files.entry dir = some .directory := by
  obtain ⟨path, -, -, hDir⟩ := hFound
  refine FileSystem.Walk.directory hDir ?_
  cases path.hasRoot with
  | false => exact machine.currentDir_directory
  | true => exact machine.files.root_directory

/-- Whatever is then looked up by name is looked up in the detected directory. -/
theorem Detects.lookup (hFound : Detects machine dir) (name : String) :
    LooksUp machine dir (lookupPath machine name) name := by
  obtain ⟨path, -, hDetect, hDir⟩ := hFound
  refine ⟨path.join name, ?_, path.components, rfl, hDir⟩
  rw [lookupPath, hDetect]
  rfl

/-- The library and the two assemblies are looked up by name. -/
theorem Detects.lookup_installed (hFound : Detects machine dir) (targetOs : TargetOs) :
    List.Forall₂ (LooksUp machine dir) (hostfxrPath machine targetOs :: assemblyPaths machine)
      [hostfxrName targetOs, "pwsh.dll", "System.Management.Automation.dll"] :=
  .cons (hFound.lookup _) (.cons (hFound.lookup _) (.cons (hFound.lookup _) .nil))

section Found

variable (hWhich : machine.which "pwsh" = some pwshExe)
  (hAt : machine.files.Locates (startOf pwshExe.hasRoot machine.currentDir)
    pwshExe.components dir name)
include hWhich hAt

/-- Reading a link fails on a file, and then the path that was found is used. -/
theorem findPwshDir_of_file (hFile : machine.files.entry (name :: dir) = some .file) :
    findPwshDir machine = some pwshExe.pop := by
  have hNoLink : machine.readLink pwshExe = none := by
    rw [machine.readsLinks _ _ _ hAt, FileSystem.linkText, hFile]
  rw [findPwshDir, findPwshExe, hWhich]
  simp only [hNoLink]

/-- Otherwise the text of the link is used as a path, without looking where it
leads. -/
theorem findPwshDir_of_link {target : PathText}
    (hLink : machine.files.entry (name :: dir) = some (.link target)) :
    findPwshDir machine = some (PathBuf.ofText target).pop := by
  have hRead : machine.readLink pwshExe = some (.ofText target) := by
    rw [machine.readsLinks _ _ _ hAt, FileSystem.linkText, hLink]
  rw [findPwshDir, findPwshExe, hWhich]
  simp only [hRead]

/-- A file that is no link is detected where it is. -/
theorem detects_of_file (hFile : machine.files.entry (name :: dir) = some .file) :
    Detects machine dir := by
  obtain ⟨front, hEnd, -⟩ := id hAt
  rw [detects_iff_denotes (findPwshDir_of_file hWhich hAt hFile)]
  exact (FileSystem.walk_pop_iff hEnd).mpr ⟨name, hAt⟩

/-- Of a link the directory of its target is detected, counted from the current
directory where the target is relative. -/
theorem detects_iff_of_link {target : PathText} {front : List Component} {next : String}
    (hLink : machine.files.entry (name :: dir) = some (.link target))
    (hEnd : target.components = front ++ [.normal next]) :
    Detects machine place ↔ ∃ last, machine.files.Locates
      (startOf target.isAbsolute machine.currentDir) target.components place last := by
  rw [detects_iff_denotes (findPwshDir_of_link hWhich hAt hLink)]
  exact FileSystem.walk_pop_ofText_iff hEnd

end Found

/-- The directory of the file at the end of a chain of links is detected exactly
where the first link, as it is read, points beside that file. -/
theorem detects_iff_of_chain {file : Place} (hWhich : machine.which "pwsh" = some pwshExe)
    (chain : machine.files.LeadsTo (startOf pwshExe.hasRoot machine.currentDir)
      pwshExe.components file) :
    Detects machine file.tail ↔ LiesBeside machine pwshExe file := by
  cases chain with
  | @file _ dir _ name hAt hFile =>
      constructor
      · intro _
        exact .file hAt hFile
      · intro _
        exact detects_of_file hWhich hAt hFile
  | @link _ dir _ _ name target hAt hLink rest =>
      obtain ⟨_, _, front, hEnd, -⟩ := rest.locates
      rw [detects_iff_of_link hWhich hAt hLink hEnd]
      constructor
      · rintro ⟨next, hNext⟩
        cases hKind : target.isAbsolute with
        | false =>
            rw [hKind] at hNext
            exact .relative hAt hLink hKind hNext
        | true =>
            rw [hKind] at hNext
            exact .absolute hAt hLink hKind hNext
      · intro hBeside
        cases hBeside with
        | file hAt' hFile => cases hAt.entry_unique hLink hAt' hFile
        | @absolute _ _ next _ hAt' hLink' hAbsolute hNext =>
            obtain rfl := Entry.link.inj (hAt.entry_unique hLink hAt' hLink')
            rw [hAbsolute]
            exact ⟨next, hNext⟩
        | @relative _ _ next _ hAt' hLink' hRelative hNext =>
            obtain rfl := Entry.link.inj (hAt.entry_unique hLink hAt' hLink')
            rw [hRelative]
            exact ⟨next, hNext⟩

/-- A chain of links is followed for one link only. Where that is enough, the
library and the assemblies are looked up beside the file at its end. -/
theorem detects_iff_liesBeside {file : Place} (hWhich : machine.which "pwsh" = some pwshExe)
    (chain : machine.files.LeadsTo (startOf pwshExe.hasRoot machine.currentDir)
      pwshExe.components file) :
    (Detects machine file.tail ↔ LiesBeside machine pwshExe file) ∧
      (Detects machine file.tail → ∀ targetOs, List.Forall₂ (LooksUp machine file.tail)
        (hostfxrPath machine targetOs :: assemblyPaths machine)
        [hostfxrName targetOs, "pwsh.dll", "System.Management.Automation.dll"]) := by
  constructor
  · exact detects_iff_of_chain hWhich chain
  · intro hFound targetOs
    exact hFound.lookup_installed targetOs

/-- `/usr/bin/pwsh` is a link with the given text, and `/etc/alternatives/pwsh` one
to the file, `/usr/share/powershell/pwsh`. -/
def installed (target : PathText) : List (Place × Entry) :=
  [([], .directory), (["root"], .directory), (["usr"], .directory),
    (["bin", "usr"], .directory), (["pwsh", "bin", "usr"], .link target),
    (["share", "usr"], .directory), (["powershell", "share", "usr"], .directory),
    (["pwsh", "powershell", "share", "usr"], .file), (["etc"], .directory),
    (["alternatives", "etc"], .directory),
    (["pwsh", "alternatives", "etc"], .link ["", "usr", "share", "powershell", "pwsh"])]

def usrBinPwsh : PathBuf := ⟨true, [.normal "usr", .normal "bin", .normal "pwsh"]⟩

def linkedFiles (target : PathText) : FileSystem :=
  .ofEntries (installed target) rfl rfl

noncomputable def linked (target : PathText) : Machine where
  files := linkedFiles target
  currentDir := ["root"]
  currentDir_directory := rfl
  readLink := (linkedFiles target).readLink ["root"]
  readsLinks := (linkedFiles target).readsLinks_readLink ["root"]
  which _ := some usrBinPwsh

theorem linked_locates_link (target : PathText) :
    (linked target).files.Locates [] usrBinPwsh.components ["bin", "usr"] "pwsh" :=
  ⟨[.normal "usr", .normal "bin"], rfl, .step rfl (.step rfl (.done _))⟩

theorem linked_locates_file (target : PathText) :
    (linked target).files.Locates []
      (PathText.components ["", "usr", "share", "powershell", "pwsh"])
      ["powershell", "share", "usr"] "pwsh" :=
  ⟨[.curDir, .normal "usr", .normal "share", .normal "powershell"], rfl,
    .step rfl (.step rfl (.step rfl (.step rfl (.done _))))⟩

theorem linked_locates_alternative (target : PathText) :
    (linked target).files.Locates [] (PathText.components ["", "etc", "alternatives", "pwsh"])
      ["alternatives", "etc"] "pwsh" :=
  ⟨[.curDir, .normal "etc", .normal "alternatives"], rfl,
    .step rfl (.step rfl (.step rfl (.done _)))⟩

theorem linked_directly_detects :
    Detects (linked ["", "usr", "share", "powershell", "pwsh"]) ["powershell", "share", "usr"] :=
  (detects_iff_liesBeside rfl
    (.link (linked_locates_link _) rfl (.file (linked_locates_file _) rfl))).1.mpr
    (.absolute (linked_locates_link _) rfl rfl (linked_locates_file _))

/-- From `/root` the parts `..`, `share` do not even lead to a directory. -/
theorem linked_relative_misses :
    ¬ Detects (linked ["..", "share", "powershell", "pwsh"]) ["powershell", "share", "usr"] := by
  have hEnd : PathText.components ["..", "share", "powershell", "pwsh"] =
      [.parentDir, .normal "share", .normal "powershell"] ++ [.normal "pwsh"] := rfl
  rw [detects_iff_of_link rfl (linked_locates_link _) rfl hEnd, hEnd,
    FileSystem.locates_concat_iff]
  intro run
  cases run with
  | step hParent run =>
      obtain ⟨rfl, rfl⟩ := Prod.mk.inj (Option.some.inj hParent)
      cases run with
      | step hShare run => cases hShare

/-- The second link lies in a directory of its own. -/
theorem linked_twice_misses :
    ¬ Detects (linked ["", "etc", "alternatives", "pwsh"]) ["powershell", "share", "usr"] := by
  have hEnd : PathText.components ["", "etc", "alternatives", "pwsh"] =
      [.curDir, .normal "etc", .normal "alternatives"] ++ [.normal "pwsh"] := rfl
  rw [detects_iff_of_link rfl (linked_locates_link _) rfl hEnd]
  rintro ⟨last, hLast⟩
  obtain ⟨hDir, -⟩ := hLast.unique (linked_locates_alternative _)
  exact absurd hDir (by decide)

/-- On two machines the directory of the file is missed: on one the only link is
relative, on the other the link leads to another link. -/
theorem linked_misses :
    ((linked ["..", "share", "powershell", "pwsh"]).which "pwsh" = some usrBinPwsh ∧
      (linked ["..", "share", "powershell", "pwsh"]).files.LeadsTo [] usrBinPwsh.components
        ["pwsh", "powershell", "share", "usr"] ∧
      ¬ Detects (linked ["..", "share", "powershell", "pwsh"]) ["powershell", "share", "usr"]) ∧
    (linked ["", "etc", "alternatives", "pwsh"]).which "pwsh" = some usrBinPwsh ∧
      (linked ["", "etc", "alternatives", "pwsh"]).files.LeadsTo [] usrBinPwsh.components
        ["pwsh", "powershell", "share", "usr"] ∧
      ¬ Detects (linked ["", "etc", "alternatives", "pwsh"]) ["powershell", "share", "usr"] := by
  refine ⟨⟨rfl, ?_, linked_relative_misses⟩, rfl, ?_, linked_twice_misses⟩
  · exact .link (linked_locates_link _) rfl (.file
      ⟨[.parentDir, .normal "share", .normal "powershell"], rfl,
        .step rfl (.step rfl (.step rfl (.done _)))⟩ rfl)
  · exact .link (linked_locates_link _) rfl (.link (linked_locates_alternative _) rfl
      (.file (linked_locates_file _) rfl))

end PwshHost.HostFxr
