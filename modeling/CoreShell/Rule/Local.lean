import CoreShell.Axis
import CoreShell.Diagnostic
import CoreShell.Program.Index

/-!
# Local Rules

What a single declaration says about a unit before any of its calls are
looked at. Each axis has its own rule, and each rule has three outcomes: the
unit is rejected outright, it has no body of its own and is judged by its
overriders, or it starts from a floor that its calls may still lower.

Fields decide the floor. Along purity a unit may write a field that nobody
else writes, and along determinism it may read a field that only it and
constructors write; both leave it within its domain.

## Main definitions

* `Finding`: Why a unit is rejected.
* `LocalOutcome`: The three outcomes.
* `Axis.judge`: The local rule of an axis.
-/

namespace CoreShell

/-- Why a local rule rejects a unit. -/
structure Finding where
  reason : Reason
  message : String
deriving DecidableEq, Inhabited

/-- What a local rule says about a unit. -/
inductive LocalOutcome where
  /-- The unit is graded `Grade.not` for good. -/
  | rejected (finding : Finding)
  /-- The unit is judged by its overriders. -/
  | dispatch
  /-- The unit has the given grade unless its calls lower it. -/
  | provisional (floor : Grade)
deriving DecidableEq, Inhabited

/-- Who else changes a field that a unit touches. -/
inductive FieldScope where
  /-- Nobody changes it. -/
  | stable
  /-- The unit alone changes it. -/
  | own
  /-- Some other unit may change it. -/
  | shared
deriving DecidableEq, Inhabited

namespace Program

/-- Who changes a field that the unit writes. -/
def writeScope (p : Program) (u : CodeUnit) (f : FieldId) : FieldScope :=
  if p.writersOf f = [u.id] then .own else .shared

/-- Whether the unit at a position is a constructor. -/
def isConstructorAt (p : Program) (id : UnitId) : Bool :=
  (p.units[id]?.map (·.isConstructor)).getD false

/-- Who changes a field that the unit reads. Constructors only give a field
    its first value. -/
def readScope (p : Program) (u : CodeUnit) (f : FieldId) : FieldScope :=
  let mutators := (p.writersOf f).filter fun writer => !p.isConstructorAt writer
  if mutators.isEmpty then .stable
  else if mutators.all (· = u.id) then .own
  else .shared

/-- The floor that the touched fields leave: `Grade.domain` as soon as one of
    them is the unit's own. -/
def floorOf (scopes : List FieldScope) : Grade :=
  if FieldScope.own ∈ scopes then .domain else .strict

end Program

namespace Axis

/-- The local rule for side effects. -/
def judgePurity (p : Program) (u : CodeUnit) : LocalOutcome :=
  if !u.isConstructor && u.returnsVoid then
    .rejected
      { reason := .voidReturn
        message := u.qualified ++ " returns void and can only act through side effects" }
  else if u.native then
    .rejected
      { reason := .opaqueOperation
        message := u.qualified ++ " is an opaque operation, assumed impure" }
  else if p.dispatchesVirtually u then .dispatch
  else if u.isConstructor then .provisional .strict
  else
    let scopes := u.writes.map (p.writeScope u)
    if FieldScope.shared ∈ scopes then
      .rejected
        { reason := .fieldWrite
          message := u.qualified ++ " is writing to at least one property" }
    else .provisional (Program.floorOf scopes)

/-- The local rule for determinism. -/
def judgeDeterminism (p : Program) (u : CodeUnit) : LocalOutcome :=
  if u.native then
    .rejected
      { reason := .opaqueOperation
        message := u.qualified ++ " is an opaque operation, assumed non-deterministic" }
  else if p.dispatchesVirtually u then .dispatch
  else if !u.isConstructor && u.returnsVoid then .provisional .strict
  else
    match u.reads.find? fun f => p.readScope u f = .shared with
    | some f =>
      .rejected
        { reason := .fieldRead
          message := u.qualified ++ " reads mutable state " ++ (p.field f).qualified }
    | none => .provisional (Program.floorOf (u.reads.map (p.readScope u)))

/-- The local rule of an axis. -/
def judge : Axis → Program → CodeUnit → LocalOutcome
  | purity => judgePurity
  | determinism => judgeDeterminism

end Axis

end CoreShell
