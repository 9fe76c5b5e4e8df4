import ViewBuilder.Failure

/-!
# Targets

A component has two sides, the administrator's and the public site's. A run builds one of them.
Language strings and shared layouts are meant for one side or for both.
-/

namespace ViewBuilder

inductive BuildTarget where
  | admin
  | site
deriving DecidableEq, Repr

/-- What a language string or a layout is meant for. -/
inductive Scope where
  | admin
  | site
  | both
deriving DecidableEq, Repr

/-! ## The side that is built -/

namespace BuildTarget

def other : BuildTarget → BuildTarget
  | .admin => .site
  | .site => .admin

def name : BuildTarget → Text
  | .admin => "admin"
  | .site => "site"

def ofName? (t : Text) : Option BuildTarget :=
  [admin, site].find? fun target => target.name = t

/-- Reads a target that a person wrote, in any case. No other alphabet has a letter whose lower
case is one of the letters of these words, so lower-casing ASCII is enough. -/
def parse (t : Text) : Except Failure BuildTarget :=
  let lower := t.map Char.toLower
  if lower = "administrator".toList then .ok .admin
  else
    match ofName? lower with
    | some target => .ok target
    | none => .error (.config ("unknown build target '" ++ t ++ "' (expected admin or site)"))

theorem other_ne (target : BuildTarget) : target.other ≠ target := by cases target <;> decide

end BuildTarget

/-! ## What something is meant for -/

namespace Scope

def name : Scope → Text
  | .admin => "admin"
  | .site => "site"
  | .both => "both"

def ofName? (t : Text) : Option Scope :=
  [admin, site, both].find? fun scope => scope.name = t

def parse (t : Text) : Except Failure Scope :=
  let lower := t.map Char.toLower
  if lower = "administrator".toList then .ok .admin
  else
    match ofName? lower with
    | some scope => .ok scope
    | none =>
      .error (.config ("unknown language target '" ++ t ++ "' (expected admin, site or both)"))

def includes : Scope → BuildTarget → Bool
  | .both, _ => true
  | .admin, target => target = .admin
  | .site, target => target = .site

end Scope

end ViewBuilder
