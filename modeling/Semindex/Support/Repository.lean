import Semindex.Text

/-! `semindex_repository_root` and `semindex_repository_path`. The calls into the
operating system are a parameter: `realpath` and `stat` as one process sees them
from its current directory. -/
namespace Semindex

structure Stat where
  dev : Nat
  ino : Nat
  mtimeNs : Int
  size : Int
  isDir : Bool
  deriving DecidableEq

structure FileSystem where
  realpath : Text → Option Text
  stat : Text → Option Stat
  lstat : Text → Option Stat

def lastSlash : Text → Option Nat
  | [] => none
  | c::rest => match lastSlash rest with
    | some n => some (n+1)
    | none => if c = '/' then some 0 else none

-- the directory part up to the last slash; the slash itself stays only for "/"
def parentDirectory (path : Text) : Option Text :=
  (lastSlash path).map (fun slash => if slash = 0 then path.take 1 else path.take slash)

def repositoryRootExplicit (fs : FileSystem) (input : Option Text) : Option Text := do
  let path ← fs.realpath (← input)
  if (← fs.stat path).isDir then some path else none

def climb (fs : FileSystem) : Nat → Text → Option Text
  | 0, _ => none
  | fuel+1, path =>
    let marker := path ++ (if path = ['/'] then [] else ['/']) ++ ".git".toList
    if (fs.lstat marker).isSome then some path
    else if path = ['/'] then none
    else (parentDirectory path).bind (climb fs fuel)

def repositoryRoot (fs : FileSystem) (input : Option Text) : Option Text := do
  let path ← fs.realpath (← input)
  let start ← if (← fs.stat path).isDir then some path else parentDirectory path
  climb fs (start.length + 1) start

def repositoryPath (fs : FileSystem) (root : Option Text) (path : Text) : Text :=
  match root with
  | none => path
  | some root =>
    match fs.realpath path with
    | none => path
    | some resolved =>
      let next := resolved[root.length]?
      if !root.isPrefixOf resolved ||
          (root ≠ ['/'] && next.isSome && next ≠ some '/') then resolved
      else if next = none then ['.'] else resolved.drop (root.length + 1)

end Semindex
