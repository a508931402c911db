import ServerRun.Proofs.File.Path
import ServerRun.Proofs.Run.Order
import ServerRun.Settings.Layout
import ServerRun.Server.Startup

/-! The paths that a server is launched with. They are resolved and checked from the directory of
the program, and the child reads them from the home of the installation, where it is launched: it
finds what was checked if these two directories are one or if every path is absolute, and only
then. -/

namespace ServerRun

/-- A path on the command line of a server. -/
structure Handed where
  /-- The words that hand it over. -/
  words : List String
  /-- The path that is read in them. -/
  read : Path
  /-- The path that was resolved for it. -/
  resolved : Path

/-- The paths that the settings and the environment give are absolute. -/
def Settings.GivesAbsolute (s : Settings) (inherited : Option String) : Prop :=
  ∀ given ∈ [s.modulesPath, s.bundlesPath, (nonEmpty? s.javaHome).or inherited],
    ∀ text ∈ nonEmpty? given, (Path.ofString text).isAbsolute = true

instance (s : Settings) (inherited : Option String) : Decidable (s.GivesAbsolute inherited) :=
  inferInstanceAs (Decidable (∀ given ∈ [_, _, _], ∀ text ∈ nonEmpty? given, _ = _))

namespace Installation

variable {i : Installation} {s : Settings} {home cwd directory : Path} {inherited : Option String}

/-- The paths that a server is handed: the directory of the archive that it boots from, its modules,
its home, its bundles and, where a home of the virtual machine is configured, the virtual
machine. -/
def handed (i : Installation) : List Handed :=
  let archive := (i.home / "jboss-modules.jar").toString
  [ { words := ["-jar", archive], read := (Path.ofString archive).parent, resolved := i.home },
    { words := ["-mp", i.modules.toString], read := .ofString i.modules.toString,
      resolved := i.modules },
    { words := ["-Djboss.home.dir=" ++ i.home.toString], read := .ofString i.home.toString,
      resolved := i.home },
    { words := ["-Djboss.bundles.dir=" ++ i.bundles.toString],
      read := .ofString i.bundles.toString, resolved := i.bundles } ] ++
  (nonEmpty? i.javaHome).toList.map fun home =>
    { words := [i.java], read := .ofString i.java, resolved := Path.ofString home / "bin" / "java" }

/-- A child that is launched in a directory reads each path that it is handed as the absolute path
that was resolved from `cwd`. -/
def ReadAsResolved (i : Installation) (cwd directory : Path) : Prop :=
  ∀ h ∈ i.handed, h.read.absolute directory = h.resolved.absolute cwd

instance (i : Installation) (cwd directory : Path) : Decidable (i.ReadAsResolved cwd directory) :=
  inferInstanceAs (Decidable (∀ h ∈ i.handed, _ = _))

/-- The words that hand over a path follow one another on the command line. -/
theorem infix_commandLine {h : Handed} (hm : h ∈ i.handed) : h.words <:+: i.commandLine := by
  simp only [handed, List.mem_append, List.mem_cons, List.mem_map, Option.mem_toList,
    List.not_mem_nil, or_false] at hm
  rcases hm with (rfl | rfl | rfl | rfl) | ⟨home, -, rfl⟩
  case inr => exact ⟨[], _, rfl⟩
  all_goals
    refine List.IsInfix.trans ?_ (List.infix_append ([i.java, "-D[Standalone]"] ++ i.jvmArgs) _ _)
    simp [List.infix_cons_iff]

/-! ### what is read -/

/-- The paths of an installation are paths that their texts write. -/
structure Normal (i : Installation) : Prop where
  home : i.home.Normal
  modules : i.modules.Normal
  bundles : i.bundles.Normal
  java : i.java = javaCommand i.javaHome

theorem modules_eq (s : Settings) (home : Path) (inherited : Option String) :
    (s.installation home inherited).modules =
      ((nonEmpty? s.modulesPath).map .ofString).getD (home / "modules") := by
  simp only [Settings.installation]
  cases nonEmpty? s.modulesPath <;> rfl

theorem bundles_eq (s : Settings) (home : Path) (inherited : Option String) :
    (s.installation home inherited).bundles =
      ((nonEmpty? s.bundlesPath).map .ofString).getD (home / "bundles") := by
  simp only [Settings.installation]
  cases nonEmpty? s.bundlesPath <;> rfl

theorem normal_getD (hh : home.Normal) (given : Option String) (name : String) :
    ((given.map .ofString).getD (home / name)).Normal := by
  cases given with
  | none => exact hh.join (Path.normal_ofString name)
  | some text => exact Path.normal_ofString text

theorem normal_installation (s : Settings) (hh : home.Normal) (inherited : Option String) :
    (s.installation home inherited).Normal where
  home := hh
  modules := modules_eq s home inherited ▸ normal_getD hh _ _
  bundles := bundles_eq s home inherited ▸ normal_getD hh _ _
  java := rfl

theorem parent_archive (home : Path) : (home / "jboss-modules.jar").parent = home := by
  have hname : Path.ofString "jboss-modules.jar" = ⟨.relative, ["jboss-modules.jar"]⟩ := by
    decide +kernel
  rw [Path.div_eq, hname, Path.join_of_relative rfl, Path.parent]
  simp

/-- The text of each path that is handed over reads as the path that was resolved for it. -/
theorem Normal.read (hn : i.Normal) {h : Handed} (hm : h ∈ i.handed) : h.read = h.resolved := by
  simp only [handed, List.mem_append, List.mem_cons, List.mem_map, Option.mem_toList,
    List.not_mem_nil, or_false] at hm
  rcases hm with (rfl | rfl | rfl | rfl) | ⟨home, hj, rfl⟩
  · have harchive : (i.home / "jboss-modules.jar").Normal := hn.home.join (Path.normal_ofString _)
    rw [Path.ofString_toString harchive, parent_archive]
  · exact Path.ofString_toString hn.modules
  · exact Path.ofString_toString hn.home
  · exact Path.ofString_toString hn.bundles
  · have hjava : (Path.ofString home / "bin" / "java").Normal :=
      ((Path.normal_ofString _).join (Path.normal_ofString _)).join (Path.normal_ofString _)
    rw [hn.java, javaCommand, hj, Path.ofString_toString hjava]

/-- Two directories make no difference to a child only where they are one, or where all that it is
handed is absolute. -/
theorem Normal.reads_iff (hn : i.Normal) : i.ReadAsResolved cwd directory ↔
    directory = cwd ∨ ∀ h ∈ i.handed, h.resolved.isAbsolute = true := by
  refine ⟨fun h => ?_, fun h x hx => ?_⟩
  · refine Classical.or_iff_not_imp_left.mpr fun hd x hx => ?_
    have hx' := h x hx
    rw [hn.read hx, Path.absolute_inj] at hx'
    exact hx'.resolve_right hd
  · rw [hn.read hx, Path.absolute_inj]
    exact h.elim .inr fun h => .inl (h x hx)

/-! ### what is given -/

theorem isAbsolute_bin_java (home : String) :
    (Path.ofString home / "bin" / "java").isAbsolute = (Path.ofString home).isAbsolute := by
  rw [Path.div_eq, Path.div_eq, Path.isAbsolute_join (by decide +kernel),
    Path.isAbsolute_join (by decide +kernel)]

/-- A directory that is given replaces the one below the home. -/
theorem isAbsolute_getD (hh : home.isAbsolute = true) {name : String}
    (hn : (Path.ofString name).isAbsolute = false) (given : Option String) :
    ((given.map .ofString).getD (home / name)).isAbsolute = true ↔
      ∀ text ∈ given, (Path.ofString text).isAbsolute = true := by
  cases given with
  | none => simpa [Path.div_eq] using (Path.isAbsolute_join hn).trans hh
  | some text => simp

/-- All that a server is handed is absolute if the home and all that is given is. -/
theorem isAbsolute_handed_iff : (∀ h ∈ (s.installation home inherited).handed,
      h.resolved.isAbsolute = true) ↔ home.isAbsolute = true ∧ s.GivesAbsolute inherited := by
  have hmodules : (Path.ofString "modules").isAbsolute = false := by decide +kernel
  have hbundles : (Path.ofString "bundles").isAbsolute = false := by decide +kernel
  have hjava : (s.installation home inherited).javaHome = (nonEmpty? s.javaHome).or inherited := rfl
  have hhome : (s.installation home inherited).home = home := rfl
  simp only [handed, Settings.GivesAbsolute, List.forall_mem_append, List.forall_mem_cons,
    List.forall_mem_map, List.not_mem_nil, Option.mem_toList, isAbsolute_bin_java, modules_eq,
    bundles_eq, hjava, hhome]
  constructor
  · rintro ⟨⟨hh, hm, -, hb, -⟩, hj⟩
    exact ⟨hh, (isAbsolute_getD hh hmodules _).mp hm, (isAbsolute_getD hh hbundles _).mp hb, hj,
      fun _ h => h.elim⟩
  · rintro ⟨hh, hm, hb, hj, -⟩
    exact ⟨⟨hh, (isAbsolute_getD hh hmodules _).mpr hm, hh, (isAbsolute_getD hh hbundles _).mpr hb,
      fun _ h => h.elim⟩, hj⟩

/-! ### what is launched -/

/-- A server whose installation was checked from `cwd` is handed each of its paths. It reads them
all as they were resolved only if the home is `cwd`, or if the home and all that is given is
absolute; the directories that it reads then are those that were checked. -/
theorem readAsResolved_iff {isDirectory : Path → Bool} {server : Server} {command : List String}
    (hh : home.Normal)
    (hv : (s.installation home inherited).lacking? cwd (fun p => isDirectory (p.absolute cwd)) =
      none)
    (hi : server.info = s.installation home inherited)
    (hl : server.start.outcome = .paused .launching (.launch command directory)) :
    (∀ h ∈ server.info.handed, h.words <:+: command) ∧
    (server.info.ReadAsResolved cwd (directory.absolute cwd) ↔
      home.absolute cwd = cwd ∨ home.isAbsolute = true ∧ s.GivesAbsolute inherited) ∧
    (server.info.ReadAsResolved cwd (directory.absolute cwd) →
      ∀ h ∈ server.info.handed, h.resolved ∈ server.info.directories.map (·.2) →
        isDirectory (h.read.absolute (directory.absolute cwd)) = true) := by
  obtain ⟨rfl, rfl⟩ : server.info.commandLine = command ∧ server.info.home = directory := by
    unfold Server.start at hl
    split at hl
    · cases hl
    · simpa using hl
  refine ⟨fun h hm => infix_commandLine hm, ?_, fun hread h hm hd => ?_⟩
  · have hhome : server.info.home = home := by rw [hi]; rfl
    rw [hhome, hi, (normal_installation s hh inherited).reads_iff, isAbsolute_handed_iff]
  · have hthere := isThere_of_lacking? hv
    rw [← hi] at hthere
    rw [hread h hm]
    simp only [directories, List.map_cons, List.map_nil, List.mem_cons, List.not_mem_nil,
      or_false] at hd
    rcases hd with hd | hd | hd <;> rw [hd]
    · exact hthere.home
    · exact hthere.modules
    · exact hthere.bundles

/-- Settings that give a home of the virtual machine. -/
def machineSettings (machine : String) : Settings :=
  { (default : Settings) with javaHome := some machine }

/-- A server with an installation root and a home of the virtual machine. -/
def rootedServer (root machine : String) : Server :=
  { info := (machineSettings machine).installation (.ofString root) none, poll := 1,
    grace := .finite 10 }

theorem readAsResolved_of_absolute :
    ∃ command directory,
      (rootedServer "/opt/server" "/opt/jdk").start.outcome =
        .paused .launching (.launch command directory) ∧
      (rootedServer "/opt/server" "/opt/jdk").info.ReadAsResolved (.ofString "/work")
        (directory.absolute (.ofString "/work")) := by
  have hv : (rootedServer "/opt/server" "/opt/jdk").info.lacking? (.ofString "/work")
      (fun p => (p.absolute (.ofString "/work")).isAbsolute) = none := by
    decide +kernel
  have hi : (rootedServer "/opt/server" "/opt/jdk").info =
      (machineSettings "/opt/jdk").installation (.ofString "/opt/server") none := rfl
  obtain ⟨-, hiff, -⟩ := readAsResolved_iff (Path.normal_ofString "/opt/server") hv hi rfl
  exact ⟨_, _, rfl, hiff.mpr (.inr (by decide +kernel))⟩

/-- A relative root and a relative home of the virtual machine: the directories that were checked
are there, and the child looks for each of them below the root once more. -/
theorem not_readAsResolved_of_relative :
    ∃ command directory,
      (rootedServer "srv" "jdk").start.outcome = .paused .launching (.launch command directory) ∧
      (rootedServer "srv" "jdk").info.lacking? (.ofString "/work") (fun p =>
        ["/work/srv", "/work/srv/modules", "/work/srv/bundles"].contains
          (p.absolute (.ofString "/work")).toString) = none ∧
      ¬ (rootedServer "srv" "jdk").info.ReadAsResolved (.ofString "/work")
        (directory.absolute (.ofString "/work")) ∧
      ∀ h ∈ (rootedServer "srv" "jdk").info.handed,
        h.read.location (directory.absolute (.ofString "/work")) ≠
          h.resolved.location (.ofString "/work") :=
  ⟨_, _, rfl, by decide +kernel, by decide +kernel, by decide +kernel⟩

end Installation

end ServerRun
