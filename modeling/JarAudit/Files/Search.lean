import JarAudit.Files.Ignore
import JarAudit.Files.Tree

/-!
# Searching a file tree

Finds the files of a kind below a directory, in the order of their paths' components. Ignore files
are honoured, those in the directories above too; where several have something to say, the nearest
one decides. What is passed over is not entered.
-/

namespace JarAudit.Files

/-- The rules that a directory holds. -/
def rulesIn (children : List (String × Node)) : List IgnoreRule :=
  match Node.child? children IgnoreRule.fileName with
  | some (.file contents _) => IgnoreRule.ofFile contents
  | _ => []

mutual

/-- The files of a kind at and below a node that is reached by a path. -/
def searchNode (wanted : String → Bool) (scope : IgnoreScope) (path name : String) :
    Node → List String
  | .file .. => if wanted name then [path] else []
  | .directory children => searchChildren wanted (scope.enter path (rulesIn children)) path children

/-- The files of a kind at and below the children of a directory. -/
def searchChildren (wanted : String → Bool) (scope : IgnoreScope) (path : String) :
    List (String × Node) → List String
  | [] => []
  | (name, node) :: rest =>
    let child := Path.join path name
    let found :=
      if scope.passesOver child node.isDirectory then []
      else searchNode wanted scope child name node
    found ++ searchChildren wanted scope path rest

end

/-- The layers of rules above a place, nearest first. -/
def layersAbove (root : Node) (place : List String) : List IgnoreLayer :=
  (List.range place.length).reverse.filterMap fun depth =>
    match root.at? (place.take depth) with
    | some (.directory children) => some ⟨Path.ofNames (place.take depth), rulesIn children⟩
    | _ => none

/-- The files of a kind at and below a path. The path itself is never passed over. -/
def search (tree : Tree) (wanted : String → Bool) (path : String) : List String :=
  match tree.locate path with
  | .error _ => []
  | .ok place =>
    match tree.root.at? place with
    | some node =>
      let scope : IgnoreScope :=
        { base := path, absoluteBase := Path.ofNames place, outer := layersAbove tree.root place }
      searchNode wanted scope path ((Path.fileName? path).getD "") node
    | none => []

end JarAudit.Files
