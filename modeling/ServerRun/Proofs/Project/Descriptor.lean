import ServerRun.Project.Descriptor
import ServerRun.Proofs.Project.Reference

/-! The names that a descriptor leads to. The final name and the directory of a build are texts
whose references were replaced in one pass: what stands outside of references and references to
properties that are not known stay as they are. No reference to a known property is left exactly
when none of the values that were brought in refers to one, provided that dollar signs only begin
references. -/

namespace ServerRun.Project

variable {properties : List (String × String)} {text name v : String} {files : FileSystem}
  {cwd base : Path} {b : Build} {root : Xml.Element}

/-- A text refers to a property. -/
def Refers (text name : String) : Prop := Contains text.toList name.toList

instance (text name : String) : Decidable (Refers text name) :=
  inferInstanceAs (Decidable (Contains _ _))

/-- A text refers to a property that is known. -/
def RefersToKnown (properties : List (String × String)) (text : String) : Prop :=
  ∃ name, (Fields.get? properties name).isSome ∧ Refers text name

/-- The references of a text, which is read in one way only, were replaced by the values of
properties. -/
structure Interpolated (properties : List (String × String)) (text result : String) : Prop where
  replaced : ∃ ps, Reads text.toList ps ∧ (∀ qs, Reads text.toList qs → qs = ps) ∧
    result.toList = ps.flatMap (·.replaced (Fields.get? properties))
  resolved (htidy : IsTidy text.toList)
    (hvalues : ∀ name v, Refers text name → Fields.get? properties name = some v →
      IsTidy v.toList) :
    RefersToKnown properties result ↔
      ∃ name v, Refers text name ∧ Fields.get? properties name = some v ∧ RefersToKnown properties v

/-- The value of a property that a text refers to is part of the text that it becomes. -/
theorem infix_of_mem {value? : String → Option String} {ps : List Piece} {name : List Char}
    {v : String} (hmem : .reference name ∈ ps) (hv : value? (String.ofList name) = some v) :
    v.toList <:+: ps.flatMap (·.replaced value?) := by
  obtain ⟨before, after, rfl⟩ := List.append_of_mem hmem
  refine ⟨before.flatMap (·.replaced value?), after.flatMap (·.replaced value?), ?_⟩
  simp [Piece.replaced, hv]

theorem Reads.isName {cs : List Char} {ps : List Piece} {name : List Char} (h : Reads cs ps)
    (hmem : .reference name ∈ ps) : IsName name :=
  (h.contains_of_mem hmem).1

theorem interpolated_interpolate (properties : List (String × String)) (text : String) :
    Interpolated properties text (interpolate properties text) := by
  obtain ⟨ps, hps⟩ := exists_reads text.toList
  have hresult : (interpolate properties text).toList =
      ps.flatMap (·.replaced (Fields.get? properties)) := by
    rw [interpolate, String.toList_ofList, hps.interpolateChars_eq]
  refine ⟨⟨ps, hps, fun qs hqs => hqs.unique hps, hresult⟩, fun htidy hvalues => ⟨?_, ?_⟩⟩
  · rintro ⟨name, hknown, hrefers⟩
    rw [Refers, hresult] at hrefers
    have hvalues' (name : List Char) (v : String) (hmem : .reference name ∈ ps)
        (hv : Fields.get? properties (String.ofList name) = some v) : IsTidy v.toList := by
      refine hvalues (String.ofList name) v ?_ hv
      rw [Refers, String.toList_ofList]
      exact hps.contains_of_mem hmem
    obtain ⟨name', v, hmem, hv, hcontains⟩ :=
      exists_of_contains_replaced (fun _ => hps.isName) (htidy ps hps) hvalues'
        (by rwa [String.ofList_toList]) hrefers
    refine ⟨String.ofList name', v, ?_, hv, name, hknown, hcontains⟩
    rw [Refers, String.toList_ofList]
    exact hps.contains_of_mem hmem
  · rintro ⟨name, v, hrefers, hv, name', hknown, hrefers'⟩
    have hmem := (hps.mem_iff_contains htidy).mpr hrefers
    refine ⟨name', hknown, hrefers'.mono ?_⟩
    rw [hresult]
    exact infix_of_mem hmem (by rwa [String.ofList_toList])

/-! ### descriptors -/

/-- The directory to build in as a descriptor writes it. -/
def directoryText (root : Xml.Element) : String :=
  orElse (textAt root ["build", "directory"]) "target"

/-- The final name of the build as a descriptor writes it. -/
def finalNameText (root : Xml.Element) : String :=
  orElse (textAt root ["build", "finalName"]) (textAt root ["artifactId"] ++ "-" ++ versionOf root)

/-- The properties that the final name may refer to: the directory of the build is one of them. -/
def namingProperties (base : Path) (root : Xml.Element) (directory : String) :
    List (String × String) :=
  Fields.insert (propertiesOf base root) "project.build.directory" directory

theorem Build.exists_of_read (h : Build.read files cwd base = .ok b) :
    ∃ bytes root, files.fileBytes cwd (base / "pom.xml") = .ok bytes ∧
      Xml.Element.parse bytes = .ok root ∧ Build.ofDescriptor? base root = some b := by
  unfold Build.read at h
  dsimp only at h
  split at h
  · cases h
  rename_i bytes hbytes
  split at h
  · cases h
  rename_i root hroot
  split at h <;> cases h
  exact ⟨bytes, root, hbytes, hroot, ‹_›⟩

/-- The directory and the final name of every build that is read come of the texts of its
descriptor. -/
theorem Build.interpolated_of_read (h : Build.read files cwd base = .ok b) :
    ∃ bytes root, ∃ directory : String, files.fileBytes cwd (base / "pom.xml") = .ok bytes ∧
      Xml.Element.parse bytes = .ok root ∧ b.directory = base / directory ∧
      Interpolated (propertiesOf base root) (directoryText root) directory ∧
      Interpolated (namingProperties base root directory) (finalNameText root) b.finalName := by
  obtain ⟨bytes, root, hbytes, hroot, hb⟩ := Build.exists_of_read h
  unfold Build.ofDescriptor? at hb
  dsimp only at hb
  split at hb <;> cases hb
  exact ⟨bytes, root, _, hbytes, hroot, rfl, interpolated_interpolate _ _,
    interpolated_interpolate _ _⟩

/-- A project directory with a descriptor. -/
def projectFiles (descriptor : String) : FileSystem :=
  ⟨[(["p"], .directory), (["p", "pom.xml"], .file (Text.utf8 descriptor))]⟩

def workingDirectory : Path := ⟨.root, []⟩

def projectPath : Path := ⟨.relative, ["p"]⟩

theorem fileBytes_projectFiles (descriptor : String) :
    (projectFiles descriptor).fileBytes workingDirectory (projectPath / "pom.xml") =
      .ok (Text.utf8 descriptor) := by
  rfl

/-- What a descriptor comes to, by way of its root element. -/
theorem exists_root {α : Type} {descriptor : String} {g : Xml.Element → α} {x : α}
    (h : (Xml.Element.parse (Text.utf8 descriptor)).toOption.map g = some x) :
    ∃ root, Xml.Element.parse (Text.utf8 descriptor) = .ok root ∧ g root = x := by
  cases hroot : Xml.Element.parse (Text.utf8 descriptor) with
  | error f =>
    rw [hroot] at h
    cases h
  | ok root =>
    rw [hroot] at h
    exact ⟨root, rfl, Option.some.inj h⟩

theorem read_projectFiles {descriptor : String}
    (hroot : Xml.Element.parse (Text.utf8 descriptor) = .ok root)
    (hb : Build.ofDescriptor? projectPath root = some b) :
    Build.read (projectFiles descriptor) workingDirectory projectPath = .ok b := by
  rw [Build.read, fileBytes_projectFiles]
  dsimp only
  rw [hroot]
  dsimp only
  rw [hb]

/-- A version that is told by a property. -/
def versionedDescriptor : String :=
  "<project><artifactId>a</artifactId><version>$\x7bartifactId\x7d</version></project>"

theorem interpolated_of_versioned : ∃ b,
    Build.read (projectFiles versionedDescriptor) workingDirectory projectPath = .ok b ∧
      b.finalName = "a-a" ∧ ∃ bytes root, ∃ directory : String,
        (projectFiles versionedDescriptor).fileBytes workingDirectory (projectPath / "pom.xml") =
          .ok bytes ∧
        Xml.Element.parse bytes = .ok root ∧ b.directory = projectPath / directory ∧
        Interpolated (propertiesOf projectPath root) (directoryText root) directory ∧
        Interpolated (namingProperties projectPath root directory) (finalNameText root)
          b.finalName := by
  have hb : (Xml.Element.parse (Text.utf8 versionedDescriptor)).toOption.map
      (Build.ofDescriptor? projectPath) = some (some
        { base := projectPath, artifact := "a", version := "$\x7bartifactId\x7d",
          packaging := "jar", finalName := "a-a", directory := projectPath / "target" }) := by
    decide +kernel
  obtain ⟨root, hroot, hb⟩ := exists_root hb
  have hread := read_projectFiles hroot hb
  exact ⟨_, hread, rfl, Build.interpolated_of_read hread⟩

/-- The properties of a project do not refer to each other in a circle: each refers to properties of
lower rank only. -/
def Acyclic (properties : List (String × String)) : Prop :=
  ∃ rank : String → Nat, ∀ name v other, Fields.get? properties name = some v →
    (Fields.get? properties other).isSome → Refers v other → rank other < rank name

theorem mem_of_get? (h : Fields.get? properties name = some v) : (name, v) ∈ properties := by
  obtain ⟨e, he, rfl⟩ := Option.map_eq_some_iff.mp h
  have hname : e.1 = name := by simpa using List.find?_some he
  rw [← hname]
  exact List.mem_of_find?_eq_some he

theorem acyclic_of_rank (rank : String → Nat)
    (h : ∀ e ∈ properties, ∀ o ∈ properties, Refers e.2 o.1 → rank o.1 < rank e.1) :
    Acyclic properties := by
  refine ⟨rank, fun name v other hv hother hrefers => ?_⟩
  obtain ⟨w, hw⟩ := Option.isSome_iff_exists.mp hother
  exact h _ (mem_of_get? hv) _ (mem_of_get? hw) hrefers

/-- A version that is told by a property whose value refers to another one. -/
def chainedDescriptor : String :=
  "<project><artifactId>a</artifactId><version>$\x7bv\x7d</version>" ++
    "<properties><v>1$\x7bw\x7d</v><w>b</w></properties></project>"

/-- The value of the version's property refers to a property that is known and refers to none, but
the final name still refers to it. -/
theorem refersToKnown_of_chained : ∃ b bytes root,
    Build.read (projectFiles chainedDescriptor) workingDirectory projectPath = .ok b ∧
      (projectFiles chainedDescriptor).fileBytes workingDirectory (projectPath / "pom.xml") =
        .ok bytes ∧
      Xml.Element.parse bytes = .ok root ∧ Acyclic (propertiesOf projectPath root) ∧
      RefersToKnown (propertiesOf projectPath root) b.finalName := by
  have hroot : (Xml.Element.parse (Text.utf8 chainedDescriptor)).toOption.map
      (fun root => (propertiesOf projectPath root, Build.ofDescriptor? projectPath root)) =
      some (standardProperties projectPath "a" "$\x7bv\x7d" ++ [("v", "1$\x7bw\x7d"), ("w", "b")],
        some
          { base := projectPath, artifact := "a", version := "$\x7bv\x7d", packaging := "jar",
            finalName := "a-1$\x7bw\x7d", directory := projectPath / "target" }) := by
    decide +kernel
  obtain ⟨root, hroot, heq⟩ := exists_root hroot
  obtain ⟨hproperties, hb⟩ := Prod.mk.inj heq
  refine ⟨_, _, root, read_projectFiles hroot hb, fileBytes_projectFiles _, hroot, ?_, ?_⟩
  · rw [hproperties]
    exact acyclic_of_rank
      (fun name => if name = "w" then 0 else if name = "v" then 1 else 2) (by decide +kernel)
  · rw [hproperties]
    exact ⟨"w", by decide +kernel, by decide +kernel⟩

end ServerRun.Project
