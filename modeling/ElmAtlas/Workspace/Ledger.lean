import ElmAtlas.Workspace.Registry

/-!
# Tickets and the journal

Every request takes a ticket.  Attachments and detachments commit at once;
replacements of the whole registry are prepared in the background and commit
later, in any order.  A replacement counts only if no replacement with a later
ticket has committed before it.  So that no change is lost, changes are written
into a journal while a replacement with an earlier ticket is pending, and a
replacement that commits replays the journal's later changes in the order of
their tickets.
-/

namespace ElmAtlas

/-- Tickets count requests.  The counter behind them has 64 bits, so runs of fewer than
`2 ^ 64` requests are meant. -/
abbrev Ticket := Nat

structure Workspace where
  registry : Registry
  /-- The last ticket handed out. -/
  requested : Ticket
  /-- The replacements requested and not yet finished. -/
  pending : List Ticket
  /-- The last replacement that took effect. -/
  committed : Ticket
  /-- The changes that a pending replacement has to replay. -/
  journal : List (Ticket × Change)
  deriving Repr

namespace Workspace

def withSettings (settings : Settings) : Workspace where
  registry := ⟨[], settings⟩
  requested := 0
  pending := []
  committed := 0
  journal := []

def empty : Workspace :=
  withSettings {}

/-- Takes the ticket of an attachment or a detachment. -/
def requestChange (workspace : Workspace) : Workspace × Ticket :=
  let ticket := workspace.requested + 1
  ({ workspace with requested := ticket }, ticket)

/-- Takes the ticket of a replacement, which is pending from now on. -/
def requestReplacement (workspace : Workspace) : Workspace × Ticket :=
  let ticket := workspace.requested + 1
  ({ workspace with requested := ticket, pending := workspace.pending ++ [ticket] }, ticket)

/-- Whether a replacement with an earlier ticket is pending. -/
def isAwaited (pending : List Ticket) (ticket : Ticket) : Bool :=
  pending.any (· < ticket)

/-- Publishes a change. -/
def commitChange (workspace : Workspace) (ticket : Ticket) (change : Change) : Workspace :=
  { workspace with
    registry := workspace.registry.apply change
    journal :=
      if isAwaited workspace.pending ticket then workspace.journal ++ [(ticket, change)]
      else workspace.journal }

/-- The journal's changes after a ticket, in the order of their tickets. -/
def laterChanges (journal : List (Ticket × Change)) (ticket : Ticket) :
    List (Ticket × Change) :=
  (journal.filter fun entry => ticket < entry.1).mergeSort fun left right => left.1 ≤ right.1

/-- Whether a replacement still counts. -/
def isFresh (workspace : Workspace) (ticket : Ticket) : Bool :=
  workspace.committed ≤ ticket

/-- Puts a replacement in force and replays the later changes on top of it. -/
def replaceRegistry (workspace : Workspace) (ticket : Ticket)
    (replace : Registry → Registry) : Workspace :=
  { workspace with
    committed := ticket
    registry :=
      (laterChanges workspace.journal ticket).foldl
        (fun registry entry => registry.apply entry.2) (replace workspace.registry) }

/-- A finished replacement is no longer pending, and the journal keeps only what
the others need. -/
def finishReplacement (workspace : Workspace) (ticket : Ticket) : Workspace :=
  let pending := workspace.pending.filter (· != ticket)
  { workspace with
    pending := pending
    journal := workspace.journal.filter fun entry => isAwaited pending entry.1 }

/-- Finishes a replacement; says whether it took effect. -/
def commitReplacement (workspace : Workspace) (ticket : Ticket)
    (replace : Registry → Registry) : Workspace × Bool :=
  if workspace.isFresh ticket then
    ((workspace.replaceRegistry ticket replace).finishReplacement ticket, true)
  else
    (workspace.finishReplacement ticket, false)

/-- Changes the settings in place; no ticket is taken. -/
def updateSettings (workspace : Workspace) (update : Settings → Settings) : Workspace :=
  { workspace with
    registry := { workspace.registry with settings := update workspace.registry.settings } }

def projects (workspace : Workspace) : List Project :=
  workspace.registry.projects

def settings (workspace : Workspace) : Settings :=
  workspace.registry.settings

end Workspace

end ElmAtlas
