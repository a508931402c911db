import ServerRun.Archive.Unpack

/-! The tree that an archive stands for below a location: which files and directories its entries
name, whatever the order in which they are unpacked. -/

namespace ServerRun.Archive

/-- The bytes of the last file entry for a location. -/
def lastFile? (root : List String) (es : List Entry) (l : List String) : Option (List UInt8) :=
  (es.reverse.find? fun e => !e.isDirectory && e.place root == l).bind fun e =>
    match e.content with
    | .ok c => some c.bytes
    | .error _ => none

/-- Whether a location is a directory of the tree: a directory entry names it, or it lies above the
place of an entry. -/
def IsTreeDirectory (root : List String) (es : List Entry) (l : List String) : Prop :=
  (∃ e ∈ es, e.isDirectory = true ∧ e.place root = l) ∨
    ∃ e ∈ es, l <+: e.place root ∧ l ≠ e.place root

/-- What stands at a location below a root in the tree of an archive. -/
inductive Holds (root : List String) (es : List Entry) (l : List String) : FileEntry → Prop where
  | file {bytes : List UInt8} (h : lastFile? root es l = some bytes) : Holds root es l (.file bytes)
  | directory (h : IsTreeDirectory root es l) : Holds root es l .directory

/-- Whether two file systems agree at every location that is neither a root nor below it. -/
def AgreeOutside (root : List String) (a b : FileSystem) : Prop :=
  ∀ l, ¬ root <+: l → a.get? l = b.get? l

end ServerRun.Archive
