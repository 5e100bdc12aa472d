import LosslessAudio.Bits

/-!
# Paths

A path is a string of bytes, cut into components by slashes.  Empty components, and components
that are a single dot, say nothing; only a dot at the very front of a relative path counts.  The
last component that says something is the name of the file, unless it is two dots.

The extension of a name is what follows its last dot, if something stands before that dot.
`Path.withSuffix` gives a path an extension without taking another one from it.
-/

set_option autoImplicit false

namespace LosslessAudio

/-- A path, as the bytes that write it. -/
structure Path where
  bytes : Bytes
  deriving DecidableEq, Repr

namespace Path

/-- The byte between two components. -/
def slash : UInt8 := 47

/-- The byte before an extension. -/
def dot : UInt8 := 46

/-- The component that leads to the parent directory. -/
def parentName : Bytes := [dot, dot]

/-- The path a text writes. -/
def ofString (text : String) : Path :=
  ⟨text.toUTF8.toList⟩

/-! ## Components -/

/-- Cuts a byte string at its slashes. -/
def split : Bytes → List Bytes
  | [] => [[]]
  | b :: rest =>
    match split rest with
    | [] => [[b]]
    | first :: others => if b = slash then [] :: first :: others else (b :: first) :: others

/-- Joins components by slashes. -/
def join : List Bytes → Bytes
  | [] => []
  | [last] => last
  | first :: others => first ++ slash :: join others

theorem split_ne_nil (bytes : Bytes) : split bytes ≠ [] := by
  cases bytes with
  | nil => simp [split]
  | cons b rest =>
    unfold split
    repeat' split
    all_goals simp

theorem join_split (bytes : Bytes) : join (split bytes) = bytes := by
  induction bytes with
  | nil => rfl
  | cons b rest ih =>
    unfold split
    cases h : split rest with
    | nil => exact absurd h (split_ne_nil rest)
    | cons first others =>
      rw [h] at ih
      by_cases hb : b = slash
      · subst hb
        simp [join, ih]
      · rw [← ih]
        cases others <;> simp [hb, join]

/-- Whether a component says nothing. -/
def isVoid (component : Bytes) : Bool :=
  component = [] ∨ component = [dot]

/-- Components without those at the end that say nothing. -/
def trimEnd (components : List Bytes) : List Bytes :=
  (components.reverse.dropWhile isVoid).reverse

variable (p : Path)

/-- Whether the path starts from the root. -/
def isAbsolute : Bool :=
  p.bytes.head? = some slash

/-- The front of a path: the slash of an absolute one, or the dot that stands for the current
directory. -/
def front : Bytes :=
  match p.bytes with
  | first :: [] => if first = slash ∨ first = dot then [first] else []
  | first :: second :: _ =>
    if first = slash ∨ (first = dot ∧ second = slash) then [first] else []
  | [] => []

/-- The components behind the front, as they are written. -/
def components : List Bytes :=
  split (p.bytes.drop p.front.length)

/-- The path with the same front and other components. -/
def withComponents (components : List Bytes) : Path :=
  ⟨p.front ++ join components⟩

/-- The name of the file. -/
def fileName? : Option Bytes :=
  match (trimEnd p.components).getLast? with
  | none => none
  | some name => if name = parentName then none else some name

/-- The path of the directory that the file stands in. -/
def parent : Path :=
  p.withComponents (trimEnd (trimEnd p.components).dropLast)

/-- The path of a file in the directory `p`. -/
def child (name : Bytes) : Path :=
  match p.bytes.getLast? with
  | none => ⟨name⟩
  | some last => if last = slash then ⟨p.bytes ++ name⟩ else ⟨p.bytes ++ slash :: name⟩

/-! ## Extensions -/

/-- What stands before the last dot of a name and what follows it. -/
def splitAtLastDot (name : Bytes) : Option (Bytes × Bytes) :=
  if dot ∈ name then
    let extension := name.reverse.takeWhile (· ≠ dot)
    some (name.take (name.length - extension.length - 1), extension.reverse)
  else none

/-- The extension of a name.  A name whose only dot is its first byte has none. -/
def extensionOf? (name : Bytes) : Option Bytes :=
  match splitAtLastDot name with
  | none => none
  | some (stem, extension) => if stem = [] then none else some extension

/-- The extension of the file's name. -/
def extension? : Option Bytes :=
  p.fileName?.bind extensionOf?

/-- A name with an extension added. -/
def addExtension (name extension : Bytes) : Bytes :=
  name ++ dot :: extension

/-- The path with an extension that is there already, or that is added to the file's name.  A path
without a file name is left alone. -/
def withSuffix (extension : Bytes) : Path :=
  match p.fileName? with
  | none => p
  | some name =>
    match extensionOf? name with
    | some found =>
      if found = extension then p else p.parent.child (addExtension name extension)
    | none =>
      let kept := (p.withComponents (trimEnd p.components)).bytes
      if extension = [] then ⟨kept⟩ else ⟨addExtension kept extension⟩

end Path

end LosslessAudio
