import DeskCalc.Text.Quoted
import DeskCalc.Text.Utf8

/-!
# The store

The folder in which the calculator keeps its files.  Paths are lists of names below the root; an entry is a file
with its octets or a folder.  Reading and writing fail for the usual causes, and each failure names the path it is
about, so it can be reported in full.
-/

namespace DeskCalc

abbrev StorePath :=
  List String

inductive StoreEntry where
  | file (bytes : List UInt8)
  | folder
  deriving DecidableEq, Repr

/-- The entries below a root; of two entries for one path the first one counts. -/
structure Store where
  root : String
  entries : List (StorePath × StoreEntry)
  deriving DecidableEq, Repr

inductive StoreDefect where
  | missing
  | taken
  | notAFolder
  | isFolder
  deriving DecidableEq, Repr

/-- A failed access, with the full path. -/
structure StoreError where
  defect : StoreDefect
  path : String
  deriving DecidableEq, Repr

def StoreDefect.number : StoreDefect → Nat
  | missing => 2
  | taken => 17
  | notAFolder => 20
  | isFolder => 21

def StoreDefect.reason : StoreDefect → String
  | missing => "No such file or directory"
  | taken => "File exists"
  | notAFolder => "Not a directory"
  | isFolder => "Is a directory"

def StoreError.message (e : StoreError) : String :=
  let path := quotedText e.path
  s!"[Errno {e.defect.number}] {e.defect.reason}: {path}"

namespace Store

/-- The path in full. -/
def fullPath (s : Store) (p : StorePath) : String :=
  "/".intercalate (s.root :: p)

def find? (s : Store) (p : StorePath) : Option StoreEntry :=
  s.entries.lookup p

/-- The store with a new entry for the path. -/
def put (s : Store) (p : StorePath) (e : StoreEntry) : Store :=
  ⟨s.root, (p, e) :: s.entries.filter fun x => x.1 != p⟩

/-- The store without an entry for the path or below it. -/
def remove (s : Store) (p : StorePath) : Store :=
  ⟨s.root, s.entries.filter fun x => !p.isPrefixOf x.1⟩

/-- Whether something above the path is a file. -/
def isBlocked (s : Store) (p : StorePath) : Bool :=
  s.entries.any fun x =>
    match x.2 with
    | .file _ => x.1 != p && x.1.isPrefixOf p
    | .folder => false

def fail (s : Store) (d : StoreDefect) (p : StorePath) : StoreError :=
  ⟨d, s.fullPath p⟩

def read (s : Store) (p : StorePath) : Except StoreError (List UInt8) :=
  match s.find? p with
  | some (.file bytes) => .ok bytes
  | some .folder => .error (s.fail .isFolder p)
  | none => if s.isBlocked p then .error (s.fail .notAFolder p) else .error (s.fail .missing p)

/-- Replaces the contents of a file; its folder is there already. -/
def write (s : Store) (p : StorePath) (bytes : List UInt8) : Except StoreError Store :=
  match s.find? p with
  | some .folder => .error (s.fail .isFolder p)
  | _ => if s.isBlocked p then .error (s.fail .notAFolder p) else .ok (s.put p (.file bytes))

/-- Puts a folder below `above` for each name of a path, where there is nothing yet. -/
def putFolders (s : Store) (above : StorePath) : StorePath → Store
  | [] => s
  | name :: rest =>
    let here := above ++ [name]
    (if (s.find? here).isSome then s else s.put here .folder).putFolders here rest

/-- Makes sure that a folder is there, with all folders above it. -/
def makeFolder (s : Store) (p : StorePath) : Except StoreError Store :=
  match s.find? p with
  | some .folder => .ok s
  | some (.file _) => .error (s.fail .taken p)
  | none => if s.isBlocked p then .error (s.fail .notAFolder p) else .ok (s.putFolders [] p)

theorem find?_put (s : Store) (p q : StorePath) (e : StoreEntry) :
    (s.put p e).find? q = if q = p then some e else s.find? q := by
  unfold find? put
  rw [List.lookup_cons]
  by_cases h : q = p
  · simp [h]
  · have hb : (q == p) = false := by simp [h]
    simp only [hb, h, if_false]
    induction s.entries with
    | nil => rfl
    | cons x xs ih =>
      obtain ⟨r, v⟩ := x
      rw [List.filter_cons]
      by_cases hr : r = p
      · simp [hr, List.lookup_cons, ih, hb]
      · simp [hr, List.lookup_cons, ih]

theorem read_put (s : Store) (p : StorePath) (bytes : List UInt8) :
    (s.put p (.file bytes)).read p = .ok bytes := by
  simp [read, find?_put]

end Store

end DeskCalc
