/-
Overwriting a file in one step. The content goes to a temporary file
beside the path, which is then renamed to the path, so that the path leads
to the old file or to the whole of the new one at any time.
-/
import TaggedSource.Failure
import TaggedSource.FileTree.Calls

namespace TaggedSource.FileTree

/-- How a row of calls on a tree went. -/
structure Course where
  /-- Whether the calls came to their end. -/
  result : Except Failure Unit
  /-- The trees between the calls, in order. -/
  between : List FileTree
  /-- The tree behind the last call. -/
  final : FileTree

/-- The name of the temporary file beside a file. -/
def temporaryName (name : Name) : Name := '.' :: name ++ text ".piranhito.tmp"

/-- The permission bits of what a path leads to, if it leads to anything. -/
def modeIfAny (tree : FileTree) (path : Text) : Except Fault (Option Nat) :=
  match tree.modeOf path with
  | .ok mode => .ok (some mode)
  | .error .noEntry => .ok none
  | .error fault => .error fault

/-- Sets the permission bits of a file, if any are given. -/
def setModeIfAny (tree : FileTree) (path : Text) : Option Nat → Except Fault FileTree
  | some mode => tree.setMode path mode
  | none => .ok tree

/-- Removes a file as far as that is possible. -/
def discard (tree : FileTree) (path : Text) : FileTree :=
  match tree.remove path with
  | .ok after => after
  | .error _ => tree

/-- Puts a content where a path leads. A file that was there leaves its
permission bits behind; a link that was there is replaced itself. -/
def overwrite (tree : FileTree) (path : Text) (content : Text) : Course :=
  match Path.fileName? path with
  | none => ⟨.error (.misconfigured (.notFilePath path)), [], tree⟩
  | some name =>
    let temporary := Path.sibling path (temporaryName name)
    match tree.modeIfAny path with
    | .error fault => ⟨.error (.system fault), [], tree⟩
    | .ok mode =>
      match tree.writeBytes temporary (Utf8.encode content) with
      | .error fault => ⟨.error (.system fault), [], tree.discard temporary⟩
      | .ok written =>
        match written.setModeIfAny temporary mode with
        | .error fault => ⟨.error (.system fault), [written], written.discard temporary⟩
        | .ok ready =>
          match ready.rename temporary path with
          | .error fault =>
            ⟨.error (.system fault), [written, ready], ready.discard temporary⟩
          | .ok final => ⟨.ok (), [written, ready], final⟩

end TaggedSource.FileTree
