import ElmAtlas.Disk
import ElmAtlas.Text.Octets

/-!
# Streams

A stream is what descriptors are joined to: a channel that holds what was written
and not yet read, an open file with a position in it, or a stream that swallows
everything.  Several descriptors may be joined to one stream and then share its
position.
-/

namespace ElmAtlas.Shell

structure OpenFile where
  place : List String
  position : Nat := 0
  appends : Bool := false
  canRead : Bool := false
  canWrite : Bool := false

inductive Stream where
  | channel (content : Octets)
  | file (file : OpenFile)
  | void

namespace Stream

def content (disk : Disk) (place : List String) : Octets :=
  match disk.top.get? place with
  | some (.file bytes _) => Octets.ofBytes bytes
  | _ => []

/-- Octets with others written over them from a position on; a gap is filled. -/
def overwrite (old : Octets) (position : Nat) (new : Octets) : Octets :=
  old.take position ++ List.replicate (position - old.length) '\x00' ++ new ++
    old.drop (position + new.length)

/-- Writes octets; none when the stream takes none. -/
def write? (disk : Disk) (octets : Octets) : Stream → Option (Disk × Stream)
  | .channel waiting => some (disk, .channel (waiting ++ octets))
  | .void => some (disk, .void)
  | .file opened =>
      if !opened.canWrite then none
      else
        match disk.top.get? opened.place with
        | some (.file bytes isExecutable) =>
            let old := Octets.ofBytes bytes
            let position := if opened.appends then old.length else opened.position
            let new := overwrite old position octets
            let node : Node := .file (Octets.toBytes new) isExecutable
            some ({ disk with top := node.put opened.place disk.top },
              .file { opened with position := position + octets.length })
        | _ => some (disk, .file opened)

/-- All that is left to read; none when the stream cannot be read. -/
def remaining? (disk : Disk) : Stream → Option Octets
  | .channel waiting => some waiting
  | .void => some []
  | .file opened =>
      if opened.canRead then some ((content disk opened.place).drop opened.position) else none

def advance (count : Nat) : Stream → Stream
  | .channel waiting => .channel (waiting.drop count)
  | .void => .void
  | .file opened => .file { opened with position := opened.position + count }

end Stream

end ElmAtlas.Shell
