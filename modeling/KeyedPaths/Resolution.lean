import KeyedPaths.PathElement
import KeyedPaths.RuleTable

/-!
# Segments and structured paths

A flat path is a list of segments in which the name of a keyed list is followed
by one value for each of its key names.  Resolving cuts such a list into the
elements of a structured path, and flattening writes the elements out again.
Annotating turns a path of plain names into one that means every instance of
the keyed lists on it.

All three walk from left to right and keep the structural path of the names
passed so far.  Key values never extend it, so a keyed list is recognised only
where the names before it spell its structural path.
-/

namespace KeyedPaths

/-- A keyed list is followed by fewer segments than it has key names. -/
structure InsufficientKeys where
  available : Nat
  required : Nat
  path : String
deriving DecidableEq

def InsufficientKeys.message (error : InsufficientKeys) : String :=
  s!"got {error.available}, want {error.required} keys for {error.path}"

/-- An element that is to be annotated carries keys. -/
structure AlreadyHasKeys where
  path : String
deriving DecidableEq

def AlreadyHasKeys.message (error : AlreadyHasKeys) : String :=
  s!"{error.path} already has keys"

/-- What annotating leaves behind: the path, annotated up to the first element
that carried keys already, and the error of that element or whether some
element has changed. -/
structure Annotated where
  path : Path
  outcome : Except AlreadyHasKeys Bool

namespace RuleTable

def resolveBelow (table : RuleTable) (path : String) :
    List String → Except InsufficientKeys Path
  | [] => .ok []
  | name :: rest =>
      let path := StructuralPath.extend path name
      match table.keyNames? path with
      | none => do
          let later ← table.resolveBelow path rest
          return .ofName name :: later
      | some keyNames =>
          if rest.length < keyNames.length then
            .error ⟨rest.length, keyNames.length, path⟩
          else do
            let later ← table.resolveBelow path (rest.drop keyNames.length)
            return .withKeys name (keyNames.zip rest) :: later
termination_by segments => segments.length
decreasing_by
  · exact Nat.lt_succ_self _
  · exact Nat.lt_succ_of_le (List.length_drop ▸ Nat.sub_le _ _)

/-- Cut segments into path elements: the segments after the name of a keyed
list are the values of its keys, in the order of its rule. -/
def resolve (table : RuleTable) (segments : List String) :
    Except InsufficientKeys Path :=
  table.resolveBelow "" segments

/-- The element of a keyed list that means every instance. -/
def wildcardElement (name : String) (keyNames : List String) : PathElement :=
  .withKeys name (keyNames.map fun keyName => (keyName, wildcard))

def annotateBelow (table : RuleTable) (path : String) (changed : Bool) :
    Path → Annotated
  | [] => ⟨[], .ok changed⟩
  | element :: rest =>
      let path := StructuralPath.extend path element.name
      match table.keyNames? path with
      | none =>
          let later := table.annotateBelow path changed rest
          ⟨element :: later.path, later.outcome⟩
      | some keyNames =>
          if element.hasKeys then ⟨element :: rest, .error ⟨path⟩⟩
          else
            let later := table.annotateBelow path true rest
            ⟨wildcardElement element.name keyNames :: later.path,
              later.outcome⟩

/-- Give every keyed list on a path the wildcard for each of its keys. -/
def annotate (table : RuleTable) (path : Path) : Annotated :=
  table.annotateBelow "" false path

/-- The key values of an element at a structural path: those that its rule
names in the order of the rule, then those of other keys by key. -/
def keyValues (table : RuleTable) (path : String)
    (keys : StringMap String) : List String :=
  match table.keyNames? path with
  | none => keys.values
  | some keyNames =>
      keyNames.filterMap keys.get? ++
        (keys.bindings.filter fun binding =>
          !keyNames.contains binding.1).map Prod.snd

def flattenBelow (table : RuleTable) (path : String) : Path → List String
  | [] => []
  | element :: rest =>
      let path := StructuralPath.extend path element.name
      element.name ::
        (table.keyValues path element.keys ++ table.flattenBelow path rest)

/-- The segments of a path: each name followed by the key values. -/
def flatten (table : RuleTable) (path : Path) : List String :=
  table.flattenBelow "" path

end RuleTable

end KeyedPaths
