import CodeInventory.Event
import CodeInventory.Text.Blank
import CodeInventory.Text.Letters
import CodeInventory.Text.Lines
import CodeInventory.Text.Split

set_option autoImplicit false

namespace CodeInventory.CommandLine

-- A directive admits records up to a degree of detail; none at all at zero.
structure Directive where
  target : String
  detail : Nat
deriving DecidableEq, Repr

abbrev LogFilter := List Directive

namespace LogFilter

def levels : List (String × Nat) :=
  [("off", 0), ("error", 1), ("warn", 2), ("info", 3), ("debug", 4), ("trace", 5)]

def level? (text : String) : Option Nat :=
  (levels.find? fun entry => Text.sameIgnoringCase entry.1 text).map Prod.snd

def set (directive : Directive) : LogFilter → LogFilter
  | [] => [directive]
  | other :: rest =>
      if other.target = directive.target then directive :: rest else other :: set directive rest

-- A directive as written: a level, a target, or both with an equals sign between them. A target
-- without a level shows everything. What cannot be read is given back.
def directive (text : String) : Except String Directive :=
  match (Text.split '=' text).map Text.trim with
  | [word] =>
      match level? word with
      | some detail => .ok ⟨"", detail⟩
      | none => .ok ⟨word, 5⟩
  | [target, ""] => .ok ⟨target, 5⟩
  | [target, level] =>
      match level? level with
      | some detail => .ok ⟨target, detail⟩
      | none => .error level
  | _ => .error text

def read (specification : String) : LogFilter × List String :=
  let pieces := ((Text.split ',' specification).map Text.trim).filter (· ≠ "")
  pieces.foldl (fun (filter, unread) piece =>
    match directive piece with
    | .ok directive => (set directive filter, unread)
    | .error rest => (filter, unread ++ [rest])) ([], [])

def orErrors : LogFilter → LogFilter
  | [] => [⟨"", 1⟩]
  | filter => filter

-- The directive with the longest name that fits a target decides, and a target that none fits is
-- silent.
def decide? (filter : LogFilter) (target : String) : Option Directive :=
  filter.foldl (fun best directive =>
    if !directive.target.toList.isPrefixOf target.toList then best
    else
      match best with
      | none => some directive
      | some other =>
          if other.target.length ≤ directive.target.length then some directive else some other) none

def shows (filter : LogFilter) (event : Event) : Bool :=
  match decide? filter event.target with
  | some directive => event.level.detail ≤ directive.detail
  | none => false

end LogFilter

def logLine (time : String) (event : Event) : String :=
  let title := event.level.title.toList
  let padded := String.ofList (title ++ List.replicate (5 - title.length) ' ')
  "[" ++ time ++ " " ++ padded ++ " " ++ event.target ++ "] " ++ Text.hang event.text

end CodeInventory.CommandLine
